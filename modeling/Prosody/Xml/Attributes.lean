import Mathlib.Data.List.FinRange
import Prosody.Library.Assign
import Prosody.Xml.Stream
import Prosody.Xml.Tags

/-! # Attributes are read as what they were

Serializing invents prefixes for the namespaces of attributes; the parser resolves them. -/

namespace Prosody.Xml

/-! ## The attributes that are written -/

theorem nsPrefix_inj {m n : ℕ} (h : nsPrefix m = nsPrefix n) : m = n := by
  have hdigits : Nat.toDigits 10 m = Nat.toDigits 10 n := (List.cons.inj (List.cons.inj h).2).2
  have := congrArg (fun d => Nat.ofDigitChars 10 d 0) hdigits
  simpa using this

theorem plain_of_isDigit {c : Char} (h : c.isDigit) :
    Quiet c ∧ c ≠ '=' ∧ isSpace c = false ∧ c ≠ '/' ∧ c ≠ '!' ∧ c ≠ '?' ∧ c ≠ nsSeparator := by
  have hne : ∀ d : Char, d.isDigit = false → c ≠ d := by
    rintro d hd rfl
    rw [h] at hd
    cases hd
  refine ⟨⟨hne _ (by decide), hne _ (by decide), ?_⟩, hne _ (by decide), ?_, hne _ (by decide),
    hne _ (by decide), hne _ (by decide), hne _ (by decide)⟩
  · simp [isQuote, hne '\'' (by decide), hne '"' (by decide)]
  · simp [isSpace, hne ' ' (by decide), hne '\t' (by decide), hne '\n' (by decide),
      hne '\r' (by decide), hne (Char.ofNat 11) (by decide), hne (Char.ofNat 12) (by decide)]

theorem colon_notMem_nsPrefix (n : ℕ) : ':' ∉ nsPrefix n := by
  intro h
  rcases List.mem_cons.mp h with h | h
  · exact absurd h (by decide)
  · rcases List.mem_cons.mp h with h | h
    · exact absurd h (by decide)
    · exact absurd (Nat.isDigit_of_mem_toDigits (by decide) (by decide) h) (by decide)

theorem IsName.append {s t : Text} (hs : IsName s)
    (ht : ∀ c ∈ t, Quiet c ∧ c ≠ '=' ∧ isSpace c = false ∧ c ≠ '/' ∧ c ≠ '!' ∧ c ≠ '?' ∧
      c ≠ nsSeparator) : IsName (s ++ t) where
  ne_nil := by simp [hs.ne_nil]
  plain c hc := (List.mem_append.mp hc).elim (hs.plain c) (ht c)

theorem isName_ns : IsName ['n', 's'] where
  ne_nil := by simp
  plain := by simp [Quiet, isQuote, isSpace, nsSeparator]

theorem isName_nsPrefix (n : ℕ) : IsName (nsPrefix n) :=
  isName_ns.append fun _ hc => plain_of_isDigit (Nat.isDigit_of_mem_toDigits (by decide) (by decide) hc)

/-- The keys with a namespace, numbered as they come. -/
def numbered : List Text → ℕ → List (ℕ × Text)
  | [], _ => []
  | k :: ks, nsid =>
    if nsSeparator ∈ k then (nsid + 1, k) :: numbered ks (nsid + 1) else numbered ks nsid

/-- The attributes as they are written, before values are escaped. -/
def written (attr : Table Text Text) (parentns : Option Text) : List Text → ℕ → List (Text × Text)
  | [], _ => []
  | k :: ks, nsid =>
    let v := (attr.get k).getD []
    if nsSeparator ∈ k then
      ("xmlns:".toList ++ nsPrefix (nsid + 1), (splitNs k).1) ::
        (nsPrefix (nsid + 1) ++ ':' :: (splitNs k).2, v) :: written attr parentns ks (nsid + 1)
    else if k = "xmlns".toList ∧ some v = parentns then written attr parentns ks nsid
    else (k, v) :: written attr parentns ks nsid

variable {attr : Table Text Text} {parentns : Option Text} {ks : List Text} {n : ℕ}

theorem attrsText_eq (ks : List Text) (n : ℕ) :
    attrsText attr parentns ks n = attrsOf (written attr parentns ks n) := by
  induction ks generalizing n with
  | nil => rfl
  | cons k ks ih =>
    rw [attrsText, written]
    split_ifs
    · rw [ih]
      simp [attrsOf]
    · exact ih n
    · rw [ih]
      simp [attrsOf]

/-- The number of keys with a namespace. -/
def namespaced (ks : List Text) : ℕ := ks.countP fun k => nsSeparator ∈ k

theorem mem_numbered {e : ℕ × Text} (h : e ∈ numbered ks n) :
    n < e.1 ∧ e.1 ≤ n + namespaced ks ∧ e.2 ∈ ks ∧ nsSeparator ∈ e.2 := by
  induction ks generalizing n with
  | nil => cases h
  | cons k ks ih =>
    rw [numbered] at h
    split at h
    · rename_i hk
      have hcount : namespaced (k :: ks) = namespaced ks + 1 := by simp [namespaced, hk]
      rcases List.mem_cons.mp h with rfl | h
      · exact ⟨by simp, by simp only; omega, List.mem_cons_self, hk⟩
      · obtain ⟨hlow, hhigh, hmem, hsep⟩ := ih h
        exact ⟨by omega, by omega, List.mem_cons_of_mem _ hmem, hsep⟩
    · rename_i hk
      have hcount : namespaced (k :: ks) = namespaced ks := by simp [namespaced, hk]
      obtain ⟨hlow, hhigh, hmem, hsep⟩ := ih h
      exact ⟨hlow, by omega, List.mem_cons_of_mem _ hmem, hsep⟩

variable {k : Text}

theorem exists_numbered (hk : k ∈ ks) (hsep : nsSeparator ∈ k) (n : ℕ) :
    ∃ i, (i, k) ∈ numbered ks n := by
  induction ks generalizing n with
  | nil => cases hk
  | cons k' ks ih =>
    rw [numbered]
    rcases List.mem_cons.mp hk with rfl | hk
    · rw [if_pos hsep]
      exact ⟨_, List.mem_cons_self⟩
    · split
      · obtain ⟨i, hi⟩ := ih hk (n + 1)
        exact ⟨i, List.mem_cons_of_mem _ hi⟩
      · exact ih hk n

theorem numbered_inj {i : ℕ} {k' : Text} (h : (i, k) ∈ numbered ks n)
    (h' : (i, k') ∈ numbered ks n) : k = k' := by
  induction ks generalizing n with
  | nil => cases h
  | cons k₁ ks ih =>
    rw [numbered] at h h'
    split at h
    · rename_i hsep
      rw [if_pos hsep] at h'
      rcases List.mem_cons.mp h with heq | h
      · rcases List.mem_cons.mp h' with heq' | h'
        · rw [(Prod.mk.inj heq).2, (Prod.mk.inj heq').2]
        · have := (mem_numbered h').1
          have := (Prod.mk.inj heq).1
          simp only at *
          omega
      · rcases List.mem_cons.mp h' with heq' | h'
        · have := (mem_numbered h).1
          have := (Prod.mk.inj heq').1
          simp only at *
          omega
        · exact ih h h'
    · rename_i hsep
      rw [if_neg hsep] at h'
      exact ih h h'

theorem numbered_eq {i j : ℕ} (hks : ks.Nodup) (h : (i, k) ∈ numbered ks n)
    (h' : (j, k) ∈ numbered ks n) : i = j := by
  induction ks generalizing n with
  | nil => cases h
  | cons k₁ ks ih =>
    obtain ⟨hfresh, hks⟩ := List.nodup_cons.mp hks
    rw [numbered] at h h'
    split at h
    · rename_i hsep
      rw [if_pos hsep] at h'
      rcases List.mem_cons.mp h with heq | h
      · rcases List.mem_cons.mp h' with heq' | h'
        · rw [(Prod.mk.inj heq).1, (Prod.mk.inj heq').1]
        · exact absurd ((Prod.mk.inj heq).2 ▸ (mem_numbered h').2.2.1) hfresh
      · rcases List.mem_cons.mp h' with heq' | h'
        · exact absurd ((Prod.mk.inj heq').2 ▸ (mem_numbered h).2.2.1) hfresh
        · exact ih hks h h'
    · rename_i hsep
      rw [if_neg hsep] at h'
      exact ih hks h h'

/-- The attribute that is written for a key without a namespace. -/
def WritesPlain (attr : Table Text Text) (parentns : Option Text) (p : Text × Text) (k : Text) :
    Prop :=
  nsSeparator ∉ k ∧ ¬ (k = "xmlns".toList ∧ some ((attr.get k).getD []) = parentns) ∧
    p = (k, (attr.get k).getD [])

def WritesNumbered (attr : Table Text Text) (p : Text × Text) (e : ℕ × Text) : Prop :=
  p = ("xmlns:".toList ++ nsPrefix e.1, (splitNs e.2).1) ∨
    p = (nsPrefix e.1 ++ ':' :: (splitNs e.2).2, (attr.get e.2).getD [])

theorem mem_written {p : Text × Text} :
    p ∈ written attr parentns ks n ↔
      (∃ k ∈ ks, WritesPlain attr parentns p k) ∨ ∃ e ∈ numbered ks n, WritesNumbered attr p e := by
  induction ks generalizing n with
  | nil => simp [written, numbered]
  | cons k ks ih =>
    rw [written, numbered]
    simp only [List.exists_mem_cons_iff]
    split_ifs with hsep hskip
    · have hplain : ¬ WritesPlain attr parentns p k := fun h => h.1 hsep
      rw [List.mem_cons, List.mem_cons, ih, ← or_assoc, or_iff_right hplain,
        List.exists_mem_cons_iff]
      exact or_left_comm
    · have hplain : ¬ WritesPlain attr parentns p k := fun h => h.2.1 hskip
      rw [ih, or_iff_right hplain]
    · have hplain : WritesPlain attr parentns p k ↔ p = (k, (attr.get k).getD []) :=
        ⟨fun h => h.2.2, fun h => ⟨hsep, hskip, h⟩⟩
      rw [List.mem_cons, ih, hplain, or_assoc]

/-! ## Keys as streams build them -/

/-- The attributes of the `xml` namespace that keep their prefix. -/
def xmlAttr (k : Text) : Prop :=
  k = "xml:lang".toList ∨ k = "xml:space".toList ∨ k = "xml:base".toList ∨ k = "xml:id".toList

/-- A name is read as it is where its prefix, if it has one, is not in scope. -/
def Unbound (bound : Text → Prop) (name : Text) : Prop :=
  ':' ∈ name → ¬ bound (name.takeWhile (· ≠ ':')) ∧ name.takeWhile (· ≠ ':') ≠ "__index".toList

/-- A key other than `xmlns` that serializing and parsing bring back. -/
inductive KeyShaped (bound : Text → Prop) (k : Text) : Prop
  | xml (h : xmlAttr k)
  | namespaced (hsep : nsSeparator ∈ k) (hname : IsName (splitNs k).2)
      (hxml : Stream.xmlNamespace k = none)
  | plain (hname : IsName k) (hdecl : declared k = none) (hbound : Unbound bound k)

/-- The prefixes in scope of a tag: those around it and those of its own attributes. -/
def within (bound : Text → Prop) (attr : Table Text Text) (p : Text) : Prop :=
  bound p ∨ ∃ i, 0 < i ∧ i ≤ (attr.keys.filter fun k => nsSeparator ∈ k).card ∧ p = nsPrefix i

theorem takeWhile_ne {p t : Text} {c : Char} (hp : c ∉ p) :
    (p ++ c :: t).takeWhile (· ≠ c) = p ∧ (p ++ c :: t).dropWhile (· ≠ c) = c :: t := by
  have hplain : ∀ c' ∈ p, decide (c' ≠ c) = true := by
    intro c' hc'
    have hne : c' ≠ c := fun h => hp (h ▸ hc')
    simpa using hne
  constructor
  · rw [List.takeWhile_append_of_pos hplain]
    simp
  · rw [List.dropWhile_append_of_pos hplain]
    simp

theorem splitNs_append {u t : Text} (hu : nsSeparator ∉ u) :
    splitNs (u ++ nsSeparator :: t) = (u, t) := by
  rw [splitNs, (takeWhile_ne hu).1, (takeWhile_ne hu).2, List.tail_cons]

theorem splitNs_join (h : nsSeparator ∈ k) : (splitNs k).1 ++ nsSeparator :: (splitNs k).2 = k := by
  obtain ⟨u, t, rfl, hu⟩ := List.eq_append_cons_of_mem h
  rw [splitNs_append hu]

theorem declared_xmlns (p : Text) : declared ("xmlns:".toList ++ p) = some p := by
  have hne : "xmlns:".toList ++ p ≠ "xmlns".toList := by
    intro h
    have := congrArg List.length h
    simp at this
  rw [declared, if_neg hne, if_pos (List.prefix_append _ _)]
  rfl

theorem declared_nsPrefix (n : ℕ) (t : Text) : declared (nsPrefix n ++ ':' :: t) = none := by
  rw [declared, if_neg (by simp [nsPrefix]), if_neg]
  rintro ⟨r, hr⟩
  simp [nsPrefix] at hr

theorem declared_of_xmlAttr (h : xmlAttr k) : declared k = none := by
  rcases h with rfl | rfl | rfl | rfl <;> decide

theorem isName_of_xmlAttr (h : xmlAttr k) : IsName k := by
  rcases h with rfl | rfl | rfl | rfl <;>
    exact ⟨by simp, by simp [Quiet, isQuote, isSpace, nsSeparator]⟩

end Prosody.Xml
