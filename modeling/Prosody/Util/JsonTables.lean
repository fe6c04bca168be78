import Mathlib.Data.List.Nodup
import Prosody.Util.JsonString

/-! # Tables that are taken apart and put together again -/

namespace Prosody.Json

abbrev Entries := List (Value × Value)

/-! ## Entries -/

variable {k : Value}

theorem sameKey_iff {k' : Value} : sameKey k k' = true ↔ k = k' ∧ sameKey k k = true := by
  constructor
  · intro h
    have heq := eq_of_sameKey h
    exact ⟨heq, by rw [← heq] at h; exact h⟩
  · rintro ⟨rfl, h⟩
    exact h

/-- No key has two values. -/
def Functional (l : Entries) : Prop := ∀ e ∈ l, ∀ e' ∈ l, e.1 = e'.1 → e = e'

variable {l : Entries}

theorem get_eq_some_iff (hl : Functional l) (hk : sameKey k k = true)
    {v : Value} : get l k = some v ↔ (k, v) ∈ l := by
  unfold get
  rw [Option.map_eq_some_iff]
  constructor
  · rintro ⟨⟨k', v'⟩, hfind, rfl⟩
    have hsame := List.find?_some hfind
    have hmem := List.mem_of_find?_eq_some hfind
    rw [eq_of_sameKey hsame]
    exact hmem
  · intro hmem
    have hsome : (l.find? fun e => sameKey k e.1).isSome := by
      rw [List.find?_isSome]
      exact ⟨(k, v), hmem, hk⟩
    obtain ⟨e, he⟩ := Option.isSome_iff_exists.mp hsome
    have hsame := List.find?_some he
    have heq := hl (k, v) hmem e (List.mem_of_find?_eq_some he) (eq_of_sameKey hsame)
    exact ⟨e, he, heq ▸ rfl⟩

theorem get_eq_none (hk : sameKey k k = false) : get l k = none := by
  unfold get
  rw [Option.map_eq_none_iff, List.find?_eq_none]
  intro e _ hsame
  rw [(sameKey_iff.mp hsame).2] at hk
  cases hk

theorem get_of_fresh (h : ∀ e ∈ l, e.1 ≠ k) : get l k = none := by
  unfold get
  rw [Option.map_eq_none_iff, List.find?_eq_none]
  intro e he hsame
  exact h e he (eq_of_sameKey hsame).symm

theorem get_congr {l' : Entries} (h : ∀ e, e ∈ l ↔ e ∈ l') (hl : Functional l) (k : Value) :
    get l k = get l' k := by
  have hl' : Functional l' := fun e he e' he' => hl e ((h e).mpr he) e' ((h e').mpr he')
  cases hk : sameKey k k with
  | false => rw [get_eq_none hk, get_eq_none hk]
  | true =>
    refine Option.ext fun v => ?_
    rw [get_eq_some_iff hl hk, get_eq_some_iff hl' hk]
    exact h (k, v)

variable {o : Entries}

theorem erase_fresh (h : ∀ e ∈ o, e.1 ≠ k) : erase o k = o := by
  unfold erase
  rw [List.filter_eq_self]
  intro e he
  rw [Bool.not_eq_true']
  cases hsame : sameKey k e.1 with
  | false => rfl
  | true => exact absurd (eq_of_sameKey hsame).symm (h e he)

theorem erase_append (o o' : Entries) (k : Value) : erase (o ++ o') k = erase o k ++ erase o' k :=
  List.filter_append ..

theorem erase_single (hk : sameKey k k = true) (v : Value) : erase [(k, v)] k = [] := by
  simp [erase, hk]

theorem set_fresh (h : ∀ e ∈ o, e.1 ≠ k) (v : Value) : set o k v = o ++ [(k, v)] := by
  rw [set, erase_fresh h]

theorem foldl_set (hl : (l.map Prod.fst).Nodup)
    (h : ∀ e ∈ o, e.1 ∉ l.map Prod.fst) : l.foldl (fun o e => set o e.1 e.2) o = o ++ l := by
  induction l generalizing o with
  | nil => exact (List.append_nil o).symm
  | cons e l ih =>
    rw [List.map_cons, List.nodup_cons] at hl
    rw [List.foldl_cons, set_fresh, ih hl.2]
    · rw [List.append_assoc]
      rfl
    · intro x hx
      rcases List.mem_append.mp hx with hx | hx
      · exact fun hmem => h x hx (List.mem_cons_of_mem _ hmem)
      · rw [List.mem_singleton.mp hx]
        exact hl.1
    · intro x hx heq
      exact h x hx (heq ▸ List.mem_cons_self)

theorem build_eq (o : Entries) (ms : List (Text × Value)) :
    build o ms =
      (ms.map fun m => (Value.string m.1, m.2)).foldl (fun o e => set o e.1 e.2) o := by
  rw [List.foldl_map]
  rfl

theorem pairUp_flatMap (o l : Entries) :
    pairUp o none (l.flatMap fun e => [e.1, e.2]) = l.foldl (fun o e => set o e.1 e.2) o := by
  induction l generalizing o with
  | nil => rfl
  | cons e l ih => exact ih _

/-! ## Sequences -/

section Sequence

variable {α : Type} {find : ℕ → Option α}

theorem find_of_sequence {n i j : ℕ} {x : α} (h : (sequence find n i)[j]? = some x) :
    find (i + j) = some x := by
  induction n generalizing i j with
  | zero => cases h
  | succ n ih =>
    rw [sequence] at h
    cases hfind : find i with
    | none =>
      rw [hfind] at h
      cases h
    | some y =>
      rw [hfind] at h
      cases j with
      | zero =>
        cases h
        exact hfind
      | succ j =>
        rw [List.getElem?_cons_succ] at h
        rw [← ih h]
        congr 1
        omega

theorem length_sequence {n i j : ℕ} (h : ∀ x < j, (find (i + x)).isSome)
    (hstop : find (i + j) = none) (hn : j ≤ n) : (sequence find n i).length = j := by
  induction j generalizing n i with
  | zero =>
    cases n with
    | zero => rfl
    | succ n =>
      rw [Nat.add_zero] at hstop
      rw [sequence, hstop]
      rfl
  | succ j ih =>
    obtain ⟨n, rfl⟩ : ∃ k, n = k + 1 := ⟨n - 1, by omega⟩
    obtain ⟨x, hx⟩ := Option.isSome_iff_exists.mp (h 0 (Nat.succ_pos j))
    rw [Nat.add_zero] at hx
    rw [sequence, hx]
    refine congrArg Nat.succ (ih ?_ ?_ (by omega))
    · intro y hy
      have := h (y + 1) (by omega)
      rwa [Nat.add_comm y 1, ← Nat.add_assoc] at this
    · rwa [Nat.add_comm j 1, ← Nat.add_assoc] at hstop

end Sequence

def numbered (vs : List Value) : Entries :=
  (vs.zipIdx 1).map fun p => (.number (p.2 : ℕ), p.1)

variable {e : Value × Value}

theorem mem_numbered {vs : List Value} :
    e ∈ numbered vs ↔ ∃ j, vs[j]? = some e.2 ∧ e.1 = .number ((j + 1 : ℕ) : ℚ) := by
  unfold numbered
  rw [List.mem_map]
  constructor
  · rintro ⟨⟨v, i⟩, hmem, rfl⟩
    rw [List.mk_mem_zipIdx_iff_le_and_getElem?_sub] at hmem
    exact ⟨i - 1, hmem.2, by rw [Nat.sub_add_cancel hmem.1]⟩
  · rintro ⟨j, hj, hk⟩
    refine ⟨(e.2, j + 1), ?_, by rw [← hk]⟩
    rw [List.mk_mem_zipIdx_iff_le_and_getElem?_sub]
    exact ⟨Nat.le_add_left 1 j, hj⟩

theorem numbered_append (vs : List Value) (v : Value) :
    numbered (vs ++ [v]) = numbered vs ++ [(Value.number ((vs.length + 1 : ℕ) : ℚ), v)] := by
  unfold numbered
  rw [List.zipIdx_append, List.map_append, Nat.add_comm 1]
  rfl

theorem length_numbered (vs : List Value) : (numbered vs).length = vs.length := by
  rw [numbered, List.length_map, List.length_zipIdx]

theorem functional_numbered (vs : List Value) : Functional (numbered vs) := by
  rintro ⟨k, v⟩ he ⟨k', v'⟩ he' rfl
  obtain ⟨j, hj, hk⟩ := mem_numbered.mp he
  obtain ⟨j', hj', hk'⟩ := mem_numbered.mp he'
  have heq : j = j' := by
    have hsame := Value.number.inj (hk.symm.trans hk')
    exact Nat.succ_injective (Nat.cast_injective hsame)
  subst heq
  exact Prod.ext rfl (Option.some.inj (hj.symm.trans hj'))

theorem sameKey_number (q : ℚ) : sameKey (.number q) (.number q) = true := decide_eq_true rfl

theorem get_numbered (vs : List Value) (j : ℕ) :
    get (numbered vs) (.number ((j + 1 : ℕ) : ℚ)) = vs[j]? := by
  refine Option.ext fun v => ?_
  rw [get_eq_some_iff (functional_numbered vs) (sameKey_number _), mem_numbered]
  constructor
  · rintro ⟨i, hi, hk⟩
    have heq : j = i := Nat.succ_injective (Nat.cast_injective (Value.number.inj hk))
    rw [heq]
    exact hi
  · exact fun hj => ⟨j, hj, rfl⟩

section Insert

variable {o : Entries} (ho : ∀ e ∈ o, ∀ q, e.1 ≠ .number q)

include ho

theorem length_items (vs : List Value) : (items (o ++ numbered vs)).length = vs.length := by
  have hget : ∀ j : ℕ, get (o ++ numbered vs) (.number ((1 + j : ℕ) : ℚ)) = vs[j]? := by
    intro j
    rw [get_append, get_of_fresh fun e he => ho e he _, Option.none_or, Nat.add_comm,
      get_numbered]
  refine length_sequence ?_ ?_ ?_
  · intro j hj
    rw [hget, List.getElem?_eq_getElem hj]
    rfl
  · rw [hget, List.getElem?_eq_none le_rfl]
  · rw [List.length_append, length_numbered]
    omega

theorem insert_numbered (vs : List Value) (v : Value) :
    insert (o ++ numbered vs) v = o ++ numbered (vs ++ [v]) := by
  unfold insert
  rw [length_items ho, set_fresh, numbered_append, List.append_assoc]
  intro e he heq
  rcases List.mem_append.mp he with he | he
  · exact ho e he _ heq
  · obtain ⟨j, hj, hk⟩ := mem_numbered.mp he
    have hsame := Value.number.inj (hk.symm.trans heq)
    have hlt := (List.getElem?_eq_some_iff.mp hj).1
    have := Nat.succ_injective (Nat.cast_injective hsame)
    omega

theorem foldl_insert (vs ws : List Value) :
    ws.foldl insert (o ++ numbered vs) = o ++ numbered (vs ++ ws) := by
  induction ws generalizing vs with
  | nil => rw [List.append_nil]; rfl
  | cons w ws ih =>
    rw [List.foldl_cons, insert_numbered ho, ih, List.append_assoc]
    rfl

end Insert

/-! ## Objects with a part for the rest -/

/-- What is put for a part that can be empty. -/
def part (name : Value) (vs : List Value) : Entries :=
  if vs = [] then [] else [(name, .array vs)]

theorem mem_part {name : Value} {vs : List Value} (h : e ∈ part name vs) : e.1 = name := by
  unfold part at h
  split at h
  · cases h
  · rw [List.mem_singleton.mp h]

theorem sameKey_string (s : Text) : sameKey (.string s) (.string s) = true := decide_eq_true rfl

/-- The part is taken out of the table, wherever it is. -/
theorem restore_part (lua : Lua) {s : Text} {add : Entries → List Value → Entries}
    (hadd : ∀ o, add o [] = o) {o' : Entries} (ho : ∀ e ∈ o, e.1 ≠ .string s)
    (ho' : ∀ e ∈ o', e.1 ≠ .string s) (vs : List Value) :
    restore lua (.string s) add (o ++ (part (.string s) vs ++ o')) = some (add (o ++ o') vs) := by
  unfold restore part
  by_cases hvs : vs = []
  · subst hvs
    rw [if_pos rfl, List.nil_append, get_of_fresh, truthy, hadd]
    · exact fun h => by cases h
    · intro e he
      rcases List.mem_append.mp he with he | he
      · exact ho e he
      · exact ho' e he
  · have hget : get (o ++ ([(Value.string s, .array vs)] ++ o')) (.string s) = some (.array vs) := by
      rw [get_append, get_of_fresh ho, Option.none_or]
      simp [get, sameKey_string]
    have herase : erase (o ++ ([(Value.string s, .array vs)] ++ o')) (.string s) = o ++ o' := by
      rw [erase_append, erase_append, erase_fresh ho, erase_fresh ho',
        erase_single (sameKey_string s), List.nil_append]
    rw [if_neg hvs, hget, herase]
    rfl

/-- A name without a meaning of its own. -/
def PlainKey (k : Value) : Prop := ∃ s, k = .string s ∧ specialKeys s = false

theorem plainKey_iff : isPlain k = true ↔ PlainKey k := by
  unfold PlainKey
  cases k with
  | string s => simp [isPlain]
  | null => simp [isPlain]
  | boolean b => simp [isPlain]
  | number q => simp [isPlain]
  | array vs => simp [isPlain]
  | table es => simp [isPlain]

theorem PlainKey.ne (h : PlainKey k) : k ≠ arrayName ∧ k ≠ hashName := by
  obtain ⟨s, rfl, hs⟩ := h
  constructor <;> (intro heq; cases heq; cases hs)

theorem fixobject_parts (lua : Lua) {hash other : Entries} {array : List Value}
    (hhash : ∀ e ∈ hash, PlainKey e.1) (hother : (other.map Prod.fst).Nodup)
    (hne : ∀ e ∈ hash ++ numbered array, e.1 ∉ other.map Prod.fst) :
    fixobject lua (hash ++ (part hashName (other.flatMap fun e => [e.1, e.2]) ++
      part arrayName array)) = some (hash ++ numbered array ++ other) := by
  have harrayName : ∀ e ∈ hash ++ part hashName (other.flatMap fun e => [e.1, e.2]),
      e.1 ≠ arrayName := by
    intro e he
    rcases List.mem_append.mp he with he | he
    · exact (hhash e he).ne.1
    · rw [mem_part he]
      exact fun h => by cases h
  have hnumber : ∀ e ∈ hash ++ part hashName (other.flatMap fun e => [e.1, e.2]),
      ∀ q, e.1 ≠ .number q := by
    intro e he q
    rcases List.mem_append.mp he with he | he
    · obtain ⟨s, hs, -⟩ := hhash e he
      rw [hs]
      exact fun h => by cases h
    · rw [mem_part he]
      exact fun h => by cases h
  have hitems : ∀ o : Entries, ([] : List Value).foldl insert o = o := fun _ => rfl
  have hpairs : ∀ o : Entries, pairUp o none [] = o := fun _ => rfl
  have hfirst := restore_part lua hitems harrayName (List.forall_mem_nil _) array
  have hinsert := foldl_insert hnumber [] array
  rw [List.nil_append, show numbered [] = [] from rfl] at hinsert
  simp only [List.append_nil] at hfirst hinsert
  rw [hinsert, List.append_assoc] at hfirst
  have hhashName : ∀ e ∈ numbered array, e.1 ≠ hashName := by
    intro e he
    obtain ⟨j, -, hk⟩ := mem_numbered.mp he
    rw [hk]
    exact fun h => by cases h
  have hsecond := restore_part lua hpairs (fun e he => (hhash e he).ne.2) hhashName
    (other.flatMap fun e => [e.1, e.2])
  rw [pairUp_flatMap, foldl_set hother hne, ← List.append_assoc] at hsecond
  unfold fixobject
  exact (congrArg (Option.bind · _) hfirst).trans hsecond

/-! ## Tables are written and read -/

/-- The order of the members does not change what they are. -/
theorem members_perm (lua : Lua) (ordered : Bool) (hash : List Saved) :
    (members lua ordered hash).Perm hash := by
  unfold members
  cases ordered with
  | true => exact List.mergeSort_perm hash _
  | false => exact lua.perm hash

/-- The entries, with the values that are read of their texts. -/
def loaded (g : Saved → Value) (saved : List Saved) : Entries := saved.map fun s => (s.key, g s)

theorem keys_loaded (g : Saved → Value) (saved : List Saved) :
    (loaded g saved).map Prod.fst = saved.map Saved.key := by
  rw [loaded, List.map_map]
  rfl

variable {saved : List Saved}

theorem functional_loaded {g : Saved → Value}
    (h : (saved.map Saved.key).Nodup) : Functional (loaded g saved) := by
  rintro e he e' he' heq
  obtain ⟨s, hs, rfl⟩ := List.mem_map.mp he
  obtain ⟨s', hs', rfl⟩ := List.mem_map.mp he'
  rw [List.inj_on_of_nodup_map h hs hs' heq]

theorem mem_loaded {g : Saved → Value} :
    e ∈ loaded g saved ↔ ∃ s ∈ saved, (s.key, g s) = e := List.mem_map

theorem mem_arrayPart {j : ℕ} {s : Saved}
    (h : (arrayPart saved)[j]? = some s) : s ∈ saved ∧ s.key = .number ((j + 1 : ℕ) : ℚ) := by
  have hfind := find_of_sequence h
  refine ⟨List.mem_of_find?_eq_some hfind, ?_⟩
  have hnumber := List.find?_some hfind
  unfold isNumber at hnumber
  split at hnumber
  · rename_i q hkey
    rw [hkey, of_decide_eq_true hnumber, Nat.add_comm]
  · cases hnumber

section Written

variable {saved : List Saved} (hkeys : (saved.map Saved.key).Nodup)

include hkeys

theorem eq_of_key {s s' : Saved} (hs : s ∈ saved) (hs' : s' ∈ saved) (h : s.key = s'.key) :
    s = s' :=
  List.inj_on_of_nodup_map hkeys hs hs' h

theorem exists_arrayPart {s : Saved} (hs : s ∈ saved)
    (h : inArray (arrayPart saved).length s.key = true) :
    ∃ j : ℕ, (arrayPart saved)[j]? = some s := by
  unfold inArray at h
  split at h
  · rename_i q hkey
    obtain ⟨hden, hlow, hhigh⟩ := of_decide_eq_true h
    obtain ⟨n, hn⟩ := Int.eq_ofNat_of_zero_le (a := q.num) (by omega)
    have hlt : n - 1 < (arrayPart saved).length := by omega
    have hget := List.getElem?_eq_getElem hlt
    obtain ⟨hmem, hkey'⟩ := mem_arrayPart hget
    have hq : q = ((n - 1 + 1 : ℕ) : ℚ) := by
      rw [Nat.sub_add_cancel (by omega), ← Rat.num_div_den q, hden, hn]
      simp
    refine ⟨n - 1, ?_⟩
    rw [hget, eq_of_key hkeys hmem hs (by rw [hkey', hkey, hq])]
  · cases h

/-- Each entry is written once: as a member, as an item, or as a pair. -/
theorem mem_parts (g : Saved → Value) (hash other : List Saved)
    (hhash : hash.Perm (saved.filter fun e => isPlain e.key))
    (hother : other.Perm
      (saved.filter fun e => !isPlain e.key && !inArray (arrayPart saved).length e.key))
    (e : Value × Value) :
    e ∈ loaded g hash ++ numbered ((arrayPart saved).map g) ++ loaded g other ↔
      e ∈ loaded g saved := by
  rw [List.mem_append, List.mem_append, mem_loaded, mem_loaded, mem_loaded, mem_numbered]
  simp only [hhash.mem_iff, hother.mem_iff, List.mem_filter, List.getElem?_map,
    Option.map_eq_some_iff]
  constructor
  · rintro ((⟨s, ⟨hs, -⟩, rfl⟩ | ⟨j, ⟨s, hs, hg⟩, hk⟩) | ⟨s, ⟨hs, -⟩, rfl⟩)
    · exact ⟨s, hs, rfl⟩
    · obtain ⟨hmem, hkey⟩ := mem_arrayPart hs
      exact ⟨s, hmem, Prod.ext (hkey.trans hk.symm) hg⟩
    · exact ⟨s, hs, rfl⟩
  · rintro ⟨s, hs, rfl⟩
    cases hplain : isPlain s.key with
    | true => exact .inl (.inl ⟨s, ⟨hs, hplain⟩, rfl⟩)
    | false =>
      cases hin : inArray (arrayPart saved).length s.key with
      | true =>
        obtain ⟨j, hj⟩ := exists_arrayPart hkeys hs hin
        exact .inl (.inr ⟨j, ⟨s, hj, rfl⟩, (mem_arrayPart hj).2⟩)
      | false => exact .inr ⟨s, ⟨hs, by rw [hplain, hin]; rfl⟩, rfl⟩

end Written

/-- What is read of the texts of an entry. -/
structure Readable (lua : Lua) (g : Saved → Value) (s : Saved) : Prop where
  key : ReadsAs lua s.keyText s.key
  text : ReadsAs lua s.text (g s)
  member : ∀ x, s.key = .string x → ReadsMember lua (s.keyText ++ ':' :: s.text) (x, g s)

/-- A table with the same entries, of a text. -/
def ReadsEntries (lua : Lua) (text : Text) (es : Entries) : Prop :=
  (∃ vs, ReadsAs lua text (.array vs) ∧ ∀ e, e ∈ numbered vs ↔ e ∈ es) ∨
    ∃ o, ReadsAs lua text (.table o) ∧ ∀ e, e ∈ o ↔ e ∈ es

def partMember (name : Text) (vs : List Value) : List (Text × Value) :=
  if vs = [] then [] else [(name, .array vs)]

theorem map_partMember (name : Text) (vs : List Value) :
    (partMember name vs).map (fun m => (Value.string m.1, m.2)) = part (.string name) vs := by
  unfold partMember part
  split <;> rfl

/-- The pairs of keys and values, one after the other. -/
def flat (es : Entries) : List Value := es.flatMap fun e => [e.1, e.2]

theorem flat_eq_nil {es : Entries} : flat es = [] ↔ es = [] := by
  cases es with
  | nil => exact iff_of_true rfl rfl
  | cons e es => exact iff_of_false (fun h => by cases h) (List.cons_ne_nil _ _)

theorem name_of_plainKey {s : Saved} (h : PlainKey s.key) : s.key = .string s.name := by
  obtain ⟨x, hx, -⟩ := h
  rw [Saved.name, hx]

section Reading

variable {lua : Lua} {g : Saved → Value}

variable {l : List Saved}

theorem forall₂_texts (h : ∀ s ∈ l, Readable lua g s) :
    List.Forall₂ (ReadsAs lua) (l.map Saved.text) (l.map g) := by
  rw [List.forall₂_map_left_iff, List.forall₂_map_right_iff, List.forall₂_same]
  exact fun s hs => (h s hs).text

theorem forall₂_flat (h : ∀ s ∈ l, Readable lua g s) :
    List.Forall₂ (ReadsAs lua) (l.flatMap fun s => [s.keyText, s.text]) (flat (loaded g l)) := by
  induction l with
  | nil => exact .nil
  | cons s l ih =>
    have hs := h s List.mem_cons_self
    exact .cons hs.key (.cons hs.text (ih fun x hx => h x (List.mem_cons_of_mem _ hx)))

theorem forall₂_members (h : ∀ s ∈ l, Readable lua g s) (hplain : ∀ s ∈ l, PlainKey s.key) :
    List.Forall₂ (ReadsMember lua) (l.map fun s => s.keyText ++ ':' :: s.text)
      (l.map fun s => (s.name, g s)) := by
  rw [List.forall₂_map_left_iff, List.forall₂_map_right_iff, List.forall₂_same]
  exact fun s hs => (h s hs).member s.name (name_of_plainKey (hplain s hs))

theorem forall₂_object {hash other array : List Saved} (hhash : ∀ s ∈ hash, Readable lua g s)
    (hplain : ∀ s ∈ hash, PlainKey s.key) (hother : ∀ s ∈ other, Readable lua g s)
    (harray : ∀ s ∈ array, Readable lua g s) :
    List.Forall₂ (ReadsMember lua)
      ((hash.map fun e => e.keyText ++ ':' :: e.text) ++
        (if other = [] then [] else ["\"__hash\":".toList ++
          arraysave (other.flatMap fun e => [e.keyText, e.text])]) ++
        (if array = [] then []
          else ["\"__array\":".toList ++ arraysave (array.map Saved.text)]))
      ((hash.map fun s => (s.name, g s)) ++
        partMember "__hash".toList (flat (loaded g other)) ++
        partMember "__array".toList (array.map g)) := by
  refine List.rel_append (List.rel_append (forall₂_members hhash hplain) ?_) ?_
  · unfold partMember
    simp only [flat_eq_nil, loaded, List.map_eq_nil_iff]
    split
    · exact .nil
    · exact .cons (readsMember_stringsave (readsAs_array (forall₂_flat hother)) "__hash".toList)
        .nil
  · unfold partMember
    simp only [List.map_eq_nil_iff]
    split
    · exact .nil
    · exact .cons (readsMember_stringsave (readsAs_array (forall₂_texts harray)) "__array".toList)
        .nil

theorem build_parts {hash : List Saved} (hplain : ∀ s ∈ hash, PlainKey s.key)
    (hkeys : (hash.map Saved.key).Nodup) (pairs array : List Value) :
    build [] ((hash.map fun s => (s.name, g s)) ++ partMember "__hash".toList pairs ++
        partMember "__array".toList array) =
      loaded g hash ++ (part hashName pairs ++ part arrayName array) := by
  have hloaded : (hash.map fun s => (s.name, g s)).map (fun m => (Value.string m.1, m.2)) =
      loaded g hash := by
    rw [List.map_map]
    refine List.map_congr_left fun s hs => ?_
    exact Prod.ext (name_of_plainKey (hplain s hs)).symm rfl
  rw [build_eq, List.map_append, List.map_append, hloaded, map_partMember, map_partMember,
    List.append_assoc]
  change List.foldl _ _ (loaded g hash ++ (part hashName pairs ++ part arrayName array)) = _
  rw [foldl_set _ (List.forall_mem_nil _), List.nil_append]
  rw [List.map_append, List.map_append, keys_loaded]
  refine List.nodup_append.mpr ⟨hkeys, ?_, ?_⟩
  · unfold part
    split <;> split <;> simp [arrayName, hashName]
  · intro k hk k' hk' heq
    obtain ⟨s, hs, rfl⟩ := List.mem_map.mp hk
    have hne := (hplain s hs).ne
    rw [← List.map_append] at hk'
    obtain ⟨e, he, rfl⟩ := List.mem_map.mp hk'
    rcases List.mem_append.mp he with he | he
    · exact hne.2 (heq.trans (mem_part he))
    · exact hne.1 (heq.trans (mem_part he))

theorem inArray_of_mem {vs : List Value} {n : ℕ} (hn : vs.length = n) {e : Value × Value}
    (h : e ∈ numbered vs) : inArray n e.1 = true := by
  obtain ⟨j, hj, hk⟩ := mem_numbered.mp h
  have hlt := (List.getElem?_eq_some_iff.mp hj).1
  rw [hk, inArray, Rat.num_natCast, Rat.den_natCast]
  refine decide_eq_true ⟨rfl, ?_, ?_⟩ <;> omega

theorem readsEntries_tablesave (ordered : Bool) {saved : List Saved}
    (hkeys : (saved.map Saved.key).Nodup) (h : ∀ s ∈ saved, Readable lua g s) :
    ReadsEntries lua (tablesave lua ordered saved) (loaded g saved) := by
  have harray : ∀ s ∈ arrayPart saved, Readable lua g s := by
    intro s hs
    obtain ⟨j, hj, rfl⟩ := List.mem_iff_getElem.mp hs
    exact h _ (mem_arrayPart (List.getElem?_eq_getElem hj)).1
  unfold tablesave
  simp only
  set hash := saved.filter fun e => isPlain e.key with hhash
  set other := saved.filter fun e => !isPlain e.key && !inArray (arrayPart saved).length e.key
    with hother
  by_cases hobject : other ≠ [] ∨ hash ≠ [] ∨ arrayPart saved = []
  · rw [if_pos hobject]
    right
    have hpermHash := members_perm lua ordered hash
    have hpermOther := lua.perm other
    have hplain : ∀ s ∈ members lua ordered hash, PlainKey s.key := by
      intro s hs
      exact plainKey_iff.mp (List.mem_filter.mp (hpermHash.mem_iff.mp hs)).2
    have hmem := mem_parts hkeys g _ _ hpermHash hpermOther
    have hotherNil : lua.pairs other = [] ↔ other = [] := by
      rw [← List.length_eq_zero_iff, hpermOther.length_eq, List.length_eq_zero_iff]
    have htexts := forall₂_object
      (fun s hs => h s (List.mem_of_mem_filter (hpermHash.mem_iff.mp hs))) hplain
      (fun s hs => h s (List.mem_of_mem_filter (hpermOther.mem_iff.mp hs))) harray
    simp only [hotherNil] at htexts
    refine ⟨_, readsAs_object htexts ?_, hmem⟩
    have hkeysHash : ((members lua ordered hash).map Saved.key).Nodup :=
      ((hpermHash.map _).nodup_iff).mpr (hkeys.sublist (List.filter_sublist.map _))
    have hkeysOther : ((lua.pairs other).map Saved.key).Nodup :=
      ((hpermOther.map _).nodup_iff).mpr (hkeys.sublist (List.filter_sublist.map _))
    rw [build_parts hplain hkeysHash]
    refine fixobject_parts lua ?_ ?_ ?_
    · intro e he
      obtain ⟨s, hs, rfl⟩ := mem_loaded.mp he
      exact hplain s hs
    · rw [keys_loaded]
      exact hkeysOther
    · intro e he hmem
      rw [keys_loaded] at hmem
      obtain ⟨s, hs, hkey⟩ := List.mem_map.mp hmem
      have hs := (List.mem_filter.mp (hpermOther.mem_iff.mp hs)).2
      rw [Bool.and_eq_true, Bool.not_eq_true', Bool.not_eq_true', hkey] at hs
      rcases List.mem_append.mp he with he | he
      · obtain ⟨s', hs', rfl⟩ := mem_loaded.mp he
        exact Bool.false_ne_true (hs.1.symm.trans (plainKey_iff.mpr (hplain s' hs')))
      · rw [inArray_of_mem (List.length_map g) he] at hs
        cases hs.2
  · rw [if_neg hobject]
    left
    have hnil : other = [] ∧ hash = [] ∧ arrayPart saved ≠ [] := by
      simpa only [not_or, not_not] using hobject
    refine ⟨_, readsAs_array (forall₂_texts harray), ?_⟩
    have hmem := mem_parts hkeys g [] [] (hnil.2.1 ▸ List.Perm.refl _)
      (hnil.1 ▸ List.Perm.refl _)
    simpa [loaded] using hmem

end Reading

end Prosody.Json
