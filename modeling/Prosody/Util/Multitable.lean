import Prosody.Library.Runs
import Prosody.Library.Table

/-! # Tables of tables (`util/multitable.lua`) -/

namespace Prosody.NestedTables

universe u

/-! ## Tables and paths -/

/-- A table with values `n` levels below it. -/
@[reducible] def Level (κ ν : Type u) : ℕ → Type u
  | 0 => Table κ ν
  | n + 1 => Table κ (Level κ ν n)

@[reducible] def Path (κ : Type u) : ℕ → Type u
  | 0 => κ
  | n + 1 => κ × Path κ n

/-- `nil` is a wildcard. -/
abbrev Pattern (κ : Type u) (n : ℕ) := Path (Option κ) n

/-- What the language decides. -/
structure Lua (κ : Type u) where
  pairs : KeyOrder κ
  /-- Whether a key counts as true. -/
  truthy : κ → Bool

variable {κ ν : Type u} [DecidableEq κ] {n : ℕ}

namespace Level

def empty : {n : ℕ} → Level κ ν n
  | 0 => (∅ : Table κ ν)
  | _ + 1 => (∅ : Table κ (Level κ ν _))

/-- `next` returns no key. -/
def isEmpty : {n : ℕ} → Level κ ν n → Bool
  | 0, t => decide (Finmap.keys t = ∅)
  | _ + 1, t => decide (Finmap.keys t = ∅)

def get : {n : ℕ} → Level κ ν n → Path κ n → Option ν
  | 0, t, k => Table.get t k
  | _ + 1, t, (k, ks) => (Table.get t k).bind fun t => get t ks

def set : {n : ℕ} → Level κ ν n → Path κ n → ν → Level κ ν n
  | 0, t, k, v => Table.set t k (some v)
  | _ + 1, t, (k, ks), v => Table.set t k (some (set ((Table.get t k).getD empty) ks v))

/-- A table with one of its tables treated, which is removed if that has left it empty. -/
def treat (f : Level κ ν n → Level κ ν n × Bool) (t : Table κ (Level κ ν n)) (k : κ) :
    Table κ (Level κ ν n) × Bool :=
  match t.get k with
  | none => (t, false)
  | some v =>
    let (v, raised) := f v
    (t.set k (if ¬ raised ∧ v.isEmpty then none else some v), raised)

variable (lua : Lua κ)

/-- What is left, and whether an assignment to `t[nil]` has raised. -/
def r : {n : ℕ} → Level κ ν n → Pattern κ n → Level κ ν n × Bool
  | 0, t, some k => (Table.set t k none, false)
  | 0, t, none => (t, true)
  | _ + 1, t, (k, ks) =>
    match k.filter lua.truthy with
    | some k => treat (fun v => r v ks) t k
    | none =>
      (lua.pairs.keys (Finmap.keys t)).foldl
        (fun (t, raised) k => if raised then (t, raised) else treat (fun v => r v ks) t k)
        (t, false)

-- The loop over trailing wildcards counts upwards and leaves every pattern as it is.
def remove (t : Level κ ν n) (p : Pattern κ n) : Level κ ν n × Bool := t.r lua p

/-- The values found, in the order of `results`. -/
def s : {n : ℕ} → Level κ ν n → Pattern κ n → List ν
  | 0, t, some k => (Table.get t k).toList
  | 0, t, none => (lua.pairs.keys (Finmap.keys t)).filterMap (Table.get t)
  | _ + 1, t, (k, ks) =>
    match k.filter lua.truthy with
    | some k => ((Table.get t k).map fun v => s v ks).getD []
    | none =>
      (lua.pairs.keys (Finmap.keys t)).flatMap fun k =>
        ((Table.get t k).map fun v => s v ks).getD []

def search (t : Level κ ν n) (p : Pattern κ n) : List ν := t.s lua p

end Level

/-! ## The iterator -/

def Path.toList : {n : ℕ} → Path κ n → List κ
  | 0, k => [k]
  | _ + 1, (k, ks) => k :: ks.toList

/-- An entry of `stack` with the entry of `keys` at the same depth. -/
structure Frame (κ ν : Type u) where
  level : ℕ
  table : Level κ ν level
  key : Option κ

/-- The key after another one, or the first one. -/
def following (ks : List κ) : Option κ → Option κ
  | none => ks.head?
  | some k => ((ks.dropWhile (· ≠ k)).drop 1).head?

def Frame.next (lua : Lua κ) : Frame κ ν → Option κ
  | ⟨0, t, key⟩ => following (lua.pairs.keys (Finmap.keys t)) key
  | ⟨_ + 1, t, key⟩ => following (lua.pairs.keys (Finmap.keys t)) key

/-- What is below a key: a value, or a table to descend into. -/
def Frame.below : Frame κ ν → κ → Option (ν ⊕ Frame κ ν)
  | ⟨0, t, _⟩, k => (Table.get t k).map .inl
  | ⟨_ + 1, t, _⟩, k => (Table.get t k).map fun v => .inr ⟨_, v, none⟩

/-- One round of `it`, the deepest frame first: the tuple it returns, if any, and the frames it
leaves. There is nothing more to return when none are left. -/
def it (lua : Lua κ) (query : List (Option κ)) :
    List (Frame κ ν) → Option (List κ × ν) × List (Frame κ ν)
  | [] => (none, [])
  | frame :: rest =>
    match frame.next lua with
    | none => (none, rest)
    | some key =>
      let stack := { frame with key := some key } :: rest
      let wanted := (query[rest.length]?).join
      if wanted = none ∨ wanted = some key then
        match frame.below key with
        | some (.inl v) => (some ((stack.filterMap (·.key)).reverse, v), stack)
        | some (.inr table) => (none, table :: stack)
        | none => (none, stack)
      else (none, stack)

/-- All that the iterator returns, in at most `fuel` rounds. -/
def iterate (lua : Lua κ) (query : List (Option κ)) :
    ℕ → List (Frame κ ν) → Option (List (List κ × ν))
  | _, [] => some []
  | 0, _ :: _ => none
  | fuel + 1, stack =>
    let round := it lua query stack
    (iterate lua query fuel round.2).map (round.1.toList ++ ·)

/-! ## What is meant -/

def Wanted (q : Option κ) (k : κ) : Prop := q = none ∨ q = some k

instance instDecidableWanted (q : Option κ) (k : κ) : Decidable (Wanted q k) :=
  inferInstanceAs (Decidable (q = none ∨ q = some k))

/-- Whether a path has the keys of a pattern, where `read` is what is made of the keys that are not
the last one. -/
def Matches (read : Option κ → Option κ) : {n : ℕ} → Pattern κ n → Path κ n → Prop
  | 0, q, k => Wanted q k
  | _ + 1, (q, qs), (k, ks) => Wanted (read q) k ∧ Matches read qs ks

def Path.last : {n : ℕ} → Path κ n → κ
  | 0, k => k
  | _ + 1, (_, ks) => ks.last

instance instDecidableEqPath : {n : ℕ} → DecidableEq (Path κ n)
  | 0 => inferInstanceAs (DecidableEq κ)
  | n + 1 =>
    have : DecidableEq (Path κ n) := instDecidableEqPath
    inferInstanceAs (DecidableEq (κ × Path κ n))

instance instDecidableMatches (read : Option κ → Option κ) :
    {n : ℕ} → (p : Pattern κ n) → (path : Path κ n) → Decidable (Matches read p path)
  | 0, q, k => instDecidableWanted q k
  | _ + 1, (q, qs), (k, ks) =>
    have : Decidable (Matches read qs ks) := instDecidableMatches read qs ks
    inferInstanceAs (Decidable (Wanted (read q) k ∧ Matches read qs ks))

inductive Op (κ ν : Type u) (n : ℕ)
  | set (path : Path κ n) (v : ν)
  | remove (p : Pattern κ n)
  | get (path : Path κ n)
  | search (p : Pattern κ n)
  | iter (p : Pattern κ n)

/-- The last value set under each path and not removed. -/
abbrev Contents (κ ν : Type u) (n : ℕ) := Path κ n → Option ν

def Contents.after (c : Contents κ ν n) : Op κ ν n → Contents κ ν n
  | .set path v => fun path' => if path' = path then some v else c path'
  | .remove p => fun path => if Matches id p path then none else c path
  | _ => c

def Level.after (lua : Lua κ) (t : Level κ ν n) : Op κ ν n → Level κ ν n
  | .set path v => t.set path v
  | .remove p => (t.remove lua p).1
  | _ => t

/-- No table below the topmost one is empty. -/
def Level.Pruned : {n : ℕ} → Level κ ν n → Prop
  | 0, _ => True
  | _ + 1, t => ∀ k v, Table.get t k = some v → v.isEmpty = false ∧ v.Pruned

/-- Each path that matches and has a value is there once. -/
structure Contents.Lists (c : Contents κ ν n) (p : Pattern κ n) (paths : List (Path κ n)) :
    Prop where
  nodup : paths.Nodup
  mem : ∀ path, path ∈ paths ↔ Matches id p path ∧ (c path).isSome

/-- The operation does what it is meant to do on a table with these contents. -/
def Fulfils (lua : Lua κ) (a : Level κ ν n × Contents κ ν n) : Op κ ν n → Prop
  | .set path v => ∀ path', (a.1.set path v).get path' = a.2.after (.set path v) path'
  | .remove p =>
    (a.1.remove lua p).2 = false ∧ (a.1.remove lua p).1.Pruned ∧
      ∀ path, (a.1.remove lua p).1.get path = a.2.after (.remove p) path
  | .get path => a.1.get path = a.2 path
  | .search p => ∃ paths, a.2.Lists p paths ∧ a.1.search lua p = paths.filterMap a.2
  | .iter p => ∃ paths, a.2.Lists p paths ∧
      ∃ fuel, iterate lua p.toList fuel [⟨n, a.1, none⟩] =
        some (paths.filterMap fun path => (a.2 path).map fun v => (path.toList, v))

def step (lua : Lua κ) (a : Level κ ν n × Contents κ ν n) (op : Op κ ν n) :
    Level κ ν n × Contents κ ν n :=
  (a.1.after lua op, a.2.after op)

/-- Keys that do not count as true are taken for wildcards, except the last one. -/
def Lua.read (lua : Lua κ) (q : Option κ) : Option κ := q.filter lua.truthy

/-- A wildcard at the end of the path removes nothing, and no key is taken for a wildcard where that
makes a difference. -/
def Careful (lua : Lua κ) (c : Contents κ ν n) : Op κ ν n → Prop
  | .remove p =>
    (∀ path, (c path).isSome → Matches lua.read p path → Matches id p path) ∧
      (p.last = none → 0 < n ∧ ∀ path, (c path).isSome → ¬ Matches id p path)
  | .search p => ∀ path, (c path).isSome → Matches lua.read p path → Matches id p path
  | _ => True

/-! ## Reading and writing one path -/

namespace Level

@[simp] theorem get_empty : ∀ {n : ℕ} (path : Path κ n), (empty : Level κ ν n).get path = none
  | 0, k => Table.get_empty k
  | n + 1, (k, ks) => by
    show (Table.get (∅ : Table κ (Level κ ν n)) k).bind _ = none
    rw [Table.get_empty, Option.bind_none]

theorem get_set : ∀ {n : ℕ} (t : Level κ ν n) (path path' : Path κ n) (v : ν),
    (t.set path v).get path' = if path' = path then some v else t.get path'
  | 0, t, k, k', v => Table.get_set t k k' (some v)
  | n + 1, t, (k, ks), (k', ks'), v => by
    show (Table.get (Table.set t k (some _)) k').bind _ = _
    rw [Table.get_set]
    by_cases hk : k' = k
    · subst hk
      rw [if_pos rfl, Option.bind_some, get_set]
      have hinner : ((Table.get t k').getD empty).get ks' = get t (k', ks') := by
        show _ = (Table.get t k').bind fun t => get t ks'
        cases Table.get t k' with
        | none => exact get_empty ks'
        | some u => rfl
      simp only [hinner, Prod.mk.injEq, true_and]
    · rw [if_neg hk]
      have hne : (k', ks') ≠ (k, ks) := fun h => hk (Prod.mk.inj h).1
      rw [if_neg hne]
      rfl

theorem keys_ne_empty {t : Table κ ν} {k : κ} {v : Option ν} (h : t.get k = v) (hv : v.isSome) :
    t.keys ≠ ∅ := by
  intro hempty
  rw [Table.get_of_keys_eq_empty hempty] at h
  rw [← h] at hv
  cases hv

theorem isEmpty_set : ∀ {n : ℕ} (t : Level κ ν n) (path : Path κ n) (v : ν),
    (t.set path v).isEmpty = false
  | 0, t, k, _ => decide_eq_false (keys_ne_empty (Table.get_set_self t k _) rfl)
  | _ + 1, t, (k, _), _ => decide_eq_false (keys_ne_empty (Table.get_set_self t k _) rfl)

theorem pruned_empty : ∀ {n : ℕ}, (empty : Level κ ν n).Pruned
  | 0 => trivial
  | n + 1 => by
    intro k v h
    rw [empty, Table.get_empty] at h
    cases h

theorem Pruned.set : ∀ {n : ℕ} {t : Level κ ν n} (_ : t.Pruned) (path : Path κ n) (v : ν),
    (t.set path v).Pruned
  | 0, _, _, _, _ => trivial
  | n + 1, t, h, (k, ks), v => by
    intro k' u hu
    rw [Level.set, Table.get_set] at hu
    split at hu
    · obtain rfl := Option.some.inj hu
      refine ⟨isEmpty_set _ ks v, Pruned.set ?_ ks v⟩
      cases hk : Table.get t k with
      | none => exact pruned_empty
      | some w => exact (h k w hk).2
    · exact h k' u hu

/-- A table that is not empty has a value somewhere below it. -/
theorem Pruned.exists_get : ∀ {n : ℕ} {t : Level κ ν n} (_ : t.Pruned) (_ : t.isEmpty = false),
    ∃ path v, t.get path = some v
  | 0, t, _, hne => by
    obtain ⟨k, hk⟩ := Finset.nonempty_iff_ne_empty.mpr (of_decide_eq_false hne)
    obtain ⟨v, hv⟩ := (Table.mem_keys t k).mp hk
    exact ⟨k, v, hv⟩
  | n + 1, t, h, hne => by
    obtain ⟨k, hk⟩ := Finset.nonempty_iff_ne_empty.mpr (of_decide_eq_false hne)
    obtain ⟨u, hu⟩ := (Table.mem_keys t k).mp hk
    obtain ⟨hfull, hpruned⟩ := h k u hu
    obtain ⟨ks, v, hv⟩ := hpruned.exists_get hfull
    refine ⟨(k, ks), v, ?_⟩
    show (Table.get t k).bind _ = _
    rw [hu, Option.bind_some, hv]

theorem get_of_isEmpty : ∀ {n : ℕ} {t : Level κ ν n} (_ : t.isEmpty = true) (path : Path κ n),
    t.get path = none
  | 0, t, h, k => Table.get_of_keys_eq_empty (of_decide_eq_true h) k
  | n + 1, t, h, (k, ks) => by
    show (Table.get t k).bind _ = none
    rw [Table.get_of_keys_eq_empty (of_decide_eq_true h), Option.bind_none]

end Level

/-! ## What is found -/

section

variable (lua : Lua κ) (read : Option κ → Option κ)

/-- The keys of a table that are wanted, in the order of `pairs`. -/
def Lua.wanted {α : Type u} (q : Option κ) (t : Table κ α) : List κ :=
  (lua.pairs.keys t.keys).filter fun k => decide (Wanted q k)

/-- The paths that match, in the order in which they are found. -/
def Level.found : {n : ℕ} → Level κ ν n → Pattern κ n → List (Path κ n)
  | 0, t, q => lua.wanted q t
  | _ + 1, t, (q, qs) =>
    (lua.wanted (read q) t).flatMap fun k =>
      ((Table.get t k).map fun v => (found v qs).map (Prod.mk k)).getD []

variable {lua read}

variable {q : Option κ} {k : κ}

theorem mem_wanted {α : Type u} {t : Table κ α} :
    k ∈ lua.wanted q t ↔ Wanted q k ∧ (t.get k).isSome := by
  rw [Lua.wanted, List.mem_filter, lua.pairs.mem_keys, Table.mem_keys, decide_eq_true_iff,
    Option.isSome_iff_exists, and_comm]

theorem nodup_wanted {α : Type u} (q : Option κ) (t : Table κ α) : (lua.wanted q t).Nodup :=
  (lua.pairs.nodup _).filter _

theorem wanted_none {α : Type u} (t : Table κ α) :
    lua.wanted none t = lua.pairs.keys t.keys :=
  List.filter_eq_self.mpr fun _ _ => decide_eq_true (.inl rfl)

theorem wanted_some {α : Type u} (k : κ) (t : Table κ α) :
    lua.wanted (some k) t = if (t.get k).isSome then [k] else [] := by
  have hmem : ∀ k', k' ∈ lua.wanted (some k) t ↔ k' = k ∧ (t.get k').isSome := by
    intro k'
    rw [mem_wanted, Wanted]
    simp only [reduceCtorEq, false_or, Option.some.injEq]
    exact and_congr_left fun _ => eq_comm
  have hnodup : (lua.wanted (some k) t).Nodup := nodup_wanted _ t
  split
  · rename_i hsome
    refine List.perm_singleton.mp ((List.perm_ext_iff_of_nodup hnodup (by simp)).mpr fun k' => ?_)
    rw [hmem, List.mem_singleton]
    exact ⟨And.left, fun h => ⟨h, h ▸ hsome⟩⟩
  · rename_i hnone
    exact List.eq_nil_iff_forall_not_mem.mpr fun k' h => by
      obtain ⟨rfl, hsome⟩ := (hmem k').mp h
      exact hnone hsome

theorem mem_found : ∀ {n : ℕ} {t : Level κ ν n} {p : Pattern κ n} {path : Path κ n},
    path ∈ t.found lua read p ↔ Matches read p path ∧ (t.get path).isSome
  | 0, _, _, _ => mem_wanted
  | n + 1, t, (q, qs), (k, ks) => by
    have hget : Level.get t (k, ks) = (Table.get t k).bind fun v => Level.get v ks := rfl
    rw [Level.found, List.mem_flatMap, hget]
    constructor
    · rintro ⟨k', hk', hmem⟩
      cases hv : Table.get t k' with
      | none =>
        rw [hv] at hmem
        exact absurd hmem (by simp)
      | some v =>
        rw [hv, Option.map_some, Option.getD_some, List.mem_map] at hmem
        obtain ⟨ks', hks', heq⟩ := hmem
        obtain ⟨rfl, rfl⟩ := Prod.mk.inj heq
        obtain ⟨hmatches, hsome⟩ := mem_found.mp hks'
        refine ⟨⟨(mem_wanted.mp hk').1, hmatches⟩, ?_⟩
        rw [hv, Option.bind_some]
        exact hsome
    · rintro ⟨⟨hwanted, hmatches⟩, hsome⟩
      cases hv : Table.get t k with
      | none =>
        rw [hv] at hsome
        cases hsome
      | some v =>
        rw [hv, Option.bind_some] at hsome
        refine ⟨k, mem_wanted.mpr ⟨hwanted, by rw [hv]; rfl⟩, ?_⟩
        rw [hv, Option.map_some, Option.getD_some]
        exact List.mem_map_of_mem (mem_found.mpr ⟨hmatches, hsome⟩)

theorem nodup_found : ∀ {n : ℕ} (t : Level κ ν n) (p : Pattern κ n), (t.found lua read p).Nodup
  | 0, t, q => nodup_wanted q t
  | n + 1, t, (q, qs) => by
    rw [Level.found, List.nodup_flatMap]
    constructor
    · intro k _
      cases Table.get t k with
      | none => exact List.nodup_nil
      | some v =>
        exact (nodup_found v qs).map fun _ _ h => (Prod.mk.inj h).2
    · refine (@nodup_wanted _ _ lua _ (read q) t).imp ?_
      intro k k' hne
      refine List.disjoint_left.mpr fun path hk hk' => hne ?_
      have hfirst : ∀ k, path ∈ ((Table.get t k).map fun v =>
          (Level.found lua read v qs).map (Prod.mk k)).getD [] → path.1 = k := by
        intro k h
        cases hv : Table.get t k with
        | none =>
          rw [hv] at h
          exact absurd h (by simp)
        | some v =>
          rw [hv, Option.map_some, Option.getD_some, List.mem_map] at h
          obtain ⟨ks, -, rfl⟩ := h
          rfl
      exact (hfirst k hk).symm.trans (hfirst k' hk')

theorem lists_found {t : Level κ ν n} {c : Contents κ ν n} (h : ∀ path, t.get path = c path)
    (p : Pattern κ n) : c.Lists p (t.found lua id p) where
  nodup := nodup_found t p
  mem path := by rw [mem_found, h path]

/-! ### Searching -/

theorem s_succ (t : Level κ ν (n + 1)) (q : Option κ) (qs : Pattern κ n) :
    Level.s lua t (q, qs) = (lua.wanted (lua.read q) t).flatMap fun k =>
      ((Table.get t k).map fun v => Level.s lua v qs).getD [] := by
  rw [Level.s, Lua.read]
  cases q.filter lua.truthy with
  | none => rw [wanted_none]
  | some k =>
    rw [wanted_some]
    cases hv : Table.get t k with
    | none => simp [hv]
    | some v => simp [hv]

theorem s_eq : ∀ {n : ℕ} (t : Level κ ν n) (p : Pattern κ n),
    t.s lua p = (t.found lua lua.read p).filterMap t.get
  | 0, t, none => by rw [Level.found, wanted_none]; rfl
  | 0, t, some k => by
    rw [Level.found, wanted_some]
    show (Table.get t k).toList = List.filterMap (Table.get t) _
    cases hv : Table.get t k with
    | none => rfl
    | some v => simp [hv]
  | n + 1, t, (q, qs) => by
    rw [s_succ, Level.found, List.filterMap_flatMap]
    congr 1
    funext k
    cases hv : Table.get t k with
    | none => rfl
    | some v =>
      rw [Option.map_some, Option.map_some, Option.getD_some, Option.getD_some,
        List.filterMap_map, s_eq]
      congr 1
      funext ks
      show _ = (Table.get t k).bind fun v => Level.get v ks
      rw [hv, Option.bind_some]

/-! ### Removing -/

/-- What is left of a table that has been treated. -/
def kept (f : Level κ ν n → Level κ ν n × Bool) (v : Level κ ν n) : Option (Level κ ν n) :=
  if (f v).1.isEmpty then none else some (f v).1

/-- The loop of `r`. -/
def treatEach (f : Level κ ν n → Level κ ν n × Bool) (ks : List κ)
    (a : Table κ (Level κ ν n) × Bool) : Table κ (Level κ ν n) × Bool :=
  ks.foldl (fun (t, raised) k => if raised then (t, raised) else Level.treat f t k) a

theorem treatEach_raised (f : Level κ ν n → Level κ ν n × Bool) (ks : List κ)
    (t : Table κ (Level κ ν n)) : treatEach f ks (t, true) = (t, true) := by
  induction ks with
  | nil => rfl
  | cons k ks ih => exact ih

theorem treatEach_cons (f : Level κ ν n → Level κ ν n × Bool) (k : κ) (ks : List κ)
    (t : Table κ (Level κ ν n)) :
    treatEach f (k :: ks) (t, false) = treatEach f ks (Level.treat f t k) := rfl

variable {v : Level κ ν n} {f : Level κ ν n → Level κ ν n × Bool} {t : Table κ (Level κ ν n)}

theorem treat_of_some (h : t.get k = some v) (hf : (f v).2 = false) :
    Level.treat f t k = (t.set k (kept f v), false) := by
  rw [Level.treat, h]
  simp only [hf, kept]
  simp

theorem treat_of_none (h : t.get k = none) : Level.treat f t k = (t, false) := by
  rw [Level.treat, h]

theorem treat_raised
    (h : t.get k = some v) (hf : (f v).2 = true) : (Level.treat f t k).2 = true := by
  rw [Level.treat, h]
  exact hf

theorem treatEach_of_raised {ks : List κ} (hnodup : ks.Nodup) (hk : k ∈ ks)
    (h : t.get k = some v) (hf : (f v).2 = true) : (treatEach f ks (t, false)).2 = true := by
  induction ks generalizing t with
  | nil => cases hk
  | cons k' ks ih =>
    obtain ⟨hnew, hnodup⟩ := List.nodup_cons.mp hnodup
    rw [treatEach_cons]
    rcases List.mem_cons.mp hk with rfl | hk
    · rw [← Prod.eta (Level.treat f t k), treat_raised h hf, treatEach_raised]
    · have hne : k ≠ k' := fun heq => hnew (heq ▸ hk)
      cases hu : t.get k' with
      | none =>
        rw [treat_of_none hu]
        exact ih hnodup hk h
      | some u =>
        cases hfu : (f u).2 with
        | true => rw [← Prod.eta (Level.treat f t k'), treat_raised hu hfu, treatEach_raised]
        | false =>
          rw [treat_of_some hu hfu]
          exact ih hnodup hk ((Table.get_set_of_ne t hne _).trans h)

theorem treatEach_spec {ks : List κ} (hnodup : ks.Nodup)
    (hf : ∀ k ∈ ks, ∀ v, t.get k = some v → (f v).2 = false) :
    (treatEach f ks (t, false)).2 = false ∧ ∀ k, (treatEach f ks (t, false)).1.get k =
      if k ∈ ks then (t.get k).bind (kept f) else t.get k := by
  induction ks generalizing t with
  | nil => exact ⟨rfl, fun k => rfl⟩
  | cons k' ks ih =>
    obtain ⟨hnew, hnodup⟩ := List.nodup_cons.mp hnodup
    rw [treatEach_cons]
    cases hu : t.get k' with
    | none =>
      rw [treat_of_none hu]
      obtain ⟨hraised, hget⟩ := ih hnodup fun k hk => hf k (List.mem_cons_of_mem _ hk)
      refine ⟨hraised, fun k => ?_⟩
      rw [hget]
      by_cases hk : k = k'
      · subst hk
        simp [hnew, hu]
      · simp [hk]
    | some u =>
      rw [treat_of_some hu (hf k' List.mem_cons_self u hu)]
      have hrest : ∀ k ∈ ks, ∀ v, (t.set k' (kept f u)).get k = some v → (f v).2 = false := by
        intro k hk v hv
        have hne : k ≠ k' := fun heq => hnew (heq ▸ hk)
        rw [Table.get_set_of_ne t hne] at hv
        exact hf k (List.mem_cons_of_mem _ hk) v hv
      obtain ⟨hraised, hget⟩ := ih hnodup hrest
      refine ⟨hraised, fun k => ?_⟩
      rw [hget]
      by_cases hk : k = k'
      · subst hk
        simp [hnew, hu]
      · simp [hk, Table.get_set_of_ne t hk]

theorem r_succ (t : Level κ ν (n + 1)) (q : Option κ) (qs : Pattern κ n) :
    Level.r lua t (q, qs) =
      treatEach (fun v => Level.r lua v qs) (lua.wanted (lua.read q) t) (t, false) := by
  rw [Level.r, Lua.read]
  cases q.filter lua.truthy with
  | none =>
    rw [wanted_none]
    rfl
  | some k =>
    rw [wanted_some]
    cases hv : Table.get t k with
    | none => exact treat_of_none hv
    | some v => rfl

/-- There is a table in which `nil` would be assigned to. -/
def Raises (lua : Lua κ) (t : Level κ ν n) (p : Pattern κ n) : Prop :=
  p.last = none ∧ (n = 0 ∨ ∃ path, (t.get path).isSome ∧ Matches lua.read p path)

theorem r_raised : ∀ {n : ℕ} {t : Level κ ν n} {p : Pattern κ n} (_ : Raises lua t p),
    (t.r lua p).2 = true
  | 0, t, none, _ => rfl
  | 0, t, some k, h => by cases h.1
  | n + 1, t, (q, qs), ⟨hlast, hpath⟩ => by
    obtain ⟨⟨k, ks⟩, hsome, hwanted, hmatches⟩ := hpath.resolve_left (Nat.succ_ne_zero n)
    obtain ⟨v, hv⟩ : ∃ v, Table.get t k = some v := by
      cases hv : Table.get t k with
      | none =>
        rw [Level.get, hv] at hsome
        cases hsome
      | some v => exact ⟨v, rfl⟩
    rw [Level.get, hv] at hsome
    rw [r_succ]
    exact treatEach_of_raised (nodup_wanted _ _) (mem_wanted.mpr ⟨hwanted, by rw [hv]; rfl⟩) hv
      (r_raised ⟨hlast, .inr ⟨ks, hsome, hmatches⟩⟩)

theorem Raises.of_below {t : Level κ ν (n + 1)} {qs : Pattern κ n}
    (h : t.Pruned) (hwanted : Wanted (lua.read q) k)
    (hv : Table.get t k = some v) (hraises : Raises lua v qs) : Raises lua t (q, qs) := by
  obtain ⟨hlast, hpath⟩ := hraises
  obtain ⟨hfull, hpruned⟩ := h k v hv
  obtain ⟨ks, hsome, hmatches⟩ : ∃ ks, (v.get ks).isSome ∧ Matches lua.read qs ks := by
    rcases hpath with rfl | hpath
    · obtain ⟨ks, u, hu⟩ := hpruned.exists_get hfull
      exact ⟨ks, by rw [hu]; rfl, .inl hlast⟩
    · exact hpath
  refine ⟨hlast, .inr ⟨(k, ks), ?_, hwanted, hmatches⟩⟩
  rw [Level.get, hv]
  exact hsome

theorem r_spec : ∀ {n : ℕ} {t : Level κ ν n} (_ : t.Pruned) {p : Pattern κ n}
    (_ : ¬ Raises lua t p), (t.r lua p).2 = false ∧ (t.r lua p).1.Pruned ∧
      ∀ path, (t.r lua p).1.get path = if Matches lua.read p path then none else t.get path
  | 0, t, _, none, hno => absurd ⟨rfl, .inl rfl⟩ hno
  | 0, t, _, some k, _ => by
    refine ⟨rfl, trivial, fun k' => ?_⟩
    refine (Table.get_set t k k' none).trans ?_
    by_cases hk : k' = k
    · have hmatches : Matches (n := 0) lua.read (some k) k' := .inr (hk ▸ rfl)
      rw [if_pos hk, if_pos hmatches]
    · rw [if_neg hk, if_neg]
      · rfl
      · rintro (hnone | hsome)
        · cases hnone
        · exact hk (Option.some.inj hsome).symm
  | n + 1, t, h, (q, qs), hno => by
    have hbelow : ∀ k v, Wanted (lua.read q) k → Table.get t k = some v → ¬ Raises lua v qs :=
      fun k v hwanted hv hraises => hno (hraises.of_below h hwanted hv)
    obtain ⟨hraised, hget⟩ := treatEach_spec (f := fun v => Level.r lua v qs)
      (@nodup_wanted _ _ lua _ (lua.read q) t) fun k hk v hv =>
        (r_spec (h k v hv).2 (hbelow k v (mem_wanted.mp hk).1 hv)).1
    rw [r_succ]
    refine ⟨hraised, fun k v hv => ?_, fun (k, ks) => ?_⟩
    · rw [hget] at hv
      split at hv
      · rename_i hk
        obtain ⟨u, hu, hkept⟩ := Option.bind_eq_some_iff.mp hv
        unfold kept at hkept
        split at hkept
        · cases hkept
        · rename_i hfull
          obtain rfl := Option.some.inj hkept
          exact ⟨Bool.eq_false_iff.mpr hfull,
            (r_spec (h k u hu).2 (hbelow k u (mem_wanted.mp hk).1 hu)).2.1⟩
      · exact h k v hv
    · rw [Level.get, hget, Level.get]
      cases hv : Table.get t k with
      | none => simp
      | some v =>
        by_cases hwanted : Wanted (lua.read q) k
        · have hleft := (r_spec (h k v hv).2 (hbelow k v hwanted hv)).2.2 ks
          rw [if_pos (mem_wanted.mpr ⟨hwanted, by rw [hv]; rfl⟩), Option.bind_some,
            Option.bind_some]
          have hif : (if Matches (n := n + 1) lua.read (q, qs) (k, ks) then none
              else v.get ks) =
              if Matches lua.read qs ks then none else v.get ks := by
            simp only [Matches, hwanted, true_and]
          rw [hif, ← hleft]
          unfold kept
          split
          · rename_i hempty
            exact (Level.get_of_isEmpty hempty ks).symm
          · rfl
        · rw [if_neg fun hk => hwanted (mem_wanted.mp hk).1,
            if_neg fun hm : Matches (n := n + 1) lua.read (q, qs) (k, ks) => hwanted hm.1]

/-! ### Iterating -/

theorem following_eq {pre post : List κ} (h : (pre ++ post).Nodup) :
    following (pre ++ post) pre.getLast? = post.head? := by
  induction pre using List.reverseRecOn with
  | nil => rfl
  | append_singleton pre k _ =>
    rw [List.append_assoc, List.nodup_append] at h
    have hskip : ∀ a ∈ pre, decide (a ≠ k) = true := fun a ha =>
      decide_eq_true (h.2.2 a ha k List.mem_cons_self)
    rw [List.getLast?_concat, following, List.append_assoc, List.dropWhile_append_of_pos hskip]
    simp

/-- Rounds of the iterator, what they return and what they leave. -/
inductive Rounds (lua : Lua κ) (query : List (Option κ)) :
    List (Frame κ ν) → List (List κ × ν) → List (Frame κ ν) → Prop
  | refl (stack : List (Frame κ ν)) : Rounds lua query stack [] stack
  | step {frame : Frame κ ν} {rest : List (Frame κ ν)} {out : List (List κ × ν)}
      {stack : List (Frame κ ν)} (h : Rounds lua query (it lua query (frame :: rest)).2 out stack) :
      Rounds lua query (frame :: rest) ((it lua query (frame :: rest)).1.toList ++ out) stack

section

variable {query : List (Option κ)} {a b c : List (Frame κ ν)} {out out' : List (List κ × ν)}

theorem Rounds.trans (h : Rounds lua query a out b) (h' : Rounds lua query b out' c) :
    Rounds lua query a (out ++ out') c := by
  induction h with
  | refl => exact h'
  | step _ ih =>
    rw [List.append_assoc]
    exact .step (ih h')

theorem Rounds.single {frame : Frame κ ν} {rest : List (Frame κ ν)} {tuple : Option (List κ × ν)}
    (h : it lua query (frame :: rest) = (tuple, b)) :
    Rounds lua query (frame :: rest) tuple.toList b := by
  have hstep := Rounds.step (@Rounds.refl _ _ _ lua query
    (it lua query (frame :: rest)).2)
  rw [h, List.append_nil] at hstep
  exact hstep

theorem iterate_of_rounds (h : Rounds lua query a out []) :
    ∃ fuel, iterate lua query fuel a = some out := by
  generalize hb : ([] : List (Frame κ ν)) = b at h
  induction h with
  | refl =>
    subst hb
    exact ⟨0, rfl⟩
  | step _ ih =>
    obtain ⟨fuel, hfuel⟩ := ih hb
    exact ⟨fuel + 1, by simp only [iterate, hfuel, Option.map_some]⟩

end

/-- The keys of the frames below. -/
def reached (rest : List (Frame κ ν)) : List κ := (rest.filterMap (·.key)).reverse

def Frame.keys (lua : Lua κ) : Frame κ ν → List κ
  | ⟨0, t, _⟩ => lua.pairs.keys (Finmap.keys t)
  | ⟨_ + 1, t, _⟩ => lua.pairs.keys (Finmap.keys t)

theorem Frame.next_eq (lua : Lua κ) (frame : Frame κ ν) :
    frame.next lua = following (frame.keys lua) frame.key := by
  obtain ⟨_ | n, t, key⟩ := frame <;> rfl

omit [DecidableEq κ] in
theorem Frame.nodup_keys (lua : Lua κ) (frame : Frame κ ν) : (frame.keys lua).Nodup := by
  obtain ⟨_ | n, t, key⟩ := frame <;> exact lua.pairs.nodup _

/-- A frame is left after one visit to each key that is still to come. -/
theorem rounds_frame {query : List (Option κ)} {rest : List (Frame κ ν)} {n : ℕ} {t : Level κ ν n}
    {visit : κ → List (List κ × ν)}
    (hvisit : ∀ key k, Frame.next lua ⟨n, t, key⟩ = some k →
      k ∈ Frame.keys lua ⟨n, t, key⟩ →
      Rounds lua query (⟨n, t, key⟩ :: rest) (visit k) (⟨n, t, some k⟩ :: rest))
    {pre post : List κ} (hkeys : Frame.keys lua ⟨n, t, none⟩ = pre ++ post) :
    Rounds lua query (⟨n, t, pre.getLast?⟩ :: rest) (post.flatMap visit) rest := by
  have hsame : ∀ key, Frame.keys lua ⟨n, t, key⟩ = pre ++ post := by
    intro key
    rw [← hkeys]
    cases n <;> rfl
  have hnodup : (pre ++ post).Nodup := hkeys ▸ Frame.nodup_keys lua _
  have hnext : Frame.next lua ⟨n, t, pre.getLast?⟩ = post.head? := by
    rw [Frame.next_eq, hsame]
    exact following_eq hnodup
  induction post generalizing pre with
  | nil =>
    refine @Rounds.single _ _ _ _ _ _ _ _ none ?_
    rw [it, hnext]
    rfl
  | cons k post ih =>
    have hsplit : pre ++ k :: post = (pre ++ [k]) ++ post := by simp
    have hfirst := hvisit _ k hnext (by rw [hsame]; simp)
    have hrest := @ih (pre ++ [k]) (by rw [hkeys, hsplit]) (fun key => by rw [hsame, hsplit])
      (by rw [← hsplit]; exact hnodup) (by
        rw [Frame.next_eq, hsame, hsplit]
        exact following_eq (hsplit ▸ hnodup))
    rw [List.getLast?_concat] at hrest
    exact hfirst.trans hrest

theorem flatMap_filter_eq {α β : Type*} (l : List α) (p : α → Bool) (f : α → List β) :
    (l.filter p).flatMap f = l.flatMap fun a => if p a then f a else [] := by
  induction l with
  | nil => rfl
  | cons a l ih =>
    rw [List.filter_cons, List.flatMap_cons]
    split
    · rw [List.flatMap_cons, ih]
    · rw [List.nil_append, ih]

omit [DecidableEq κ] in
theorem wanted_of_drop {query : List (Option κ)} {i : ℕ} {qs : List (Option κ)}
    (h : query.drop i = q :: qs) : (query[i]?).join = q := by
  have hget : query[i]? = some q := by
    rw [← List.head?_drop, h]
    rfl
  rw [hget]
  rfl

/-- The tuples for the paths found below a table whose own path is `front`. -/
def tuples (lua : Lua κ) (front : List κ) {n : ℕ} (t : Level κ ν n) (p : Pattern κ n) :
    List (List κ × ν) :=
  (t.found lua id p).filterMap fun path => (t.get path).map fun v => (front ++ path.toList, v)

theorem tuples_zero (front : List κ) (t : Level κ ν 0) (q : Option κ) :
    tuples lua front t q = (lua.pairs.keys (Finmap.keys t)).flatMap fun k =>
      if Wanted q k then ((Table.get t k).map fun v => (front ++ [k], v)).toList else [] := by
  have hfilter : ∀ (l : List κ) (f : κ → Option (List κ × ν)),
      l.filterMap f = l.flatMap fun k => (f k).toList := by
    intro l f
    induction l with
    | nil => rfl
    | cons k l ih => cases hk : f k <;> simp [hk, ih]
  rw [tuples, Level.found, hfilter, Lua.wanted, flatMap_filter_eq]
  simp only [decide_eq_true_eq]
  rfl

theorem tuples_succ (front : List κ) (t : Level κ ν (n + 1)) (q : Option κ) (qs : Pattern κ n) :
    tuples lua front t (q, qs) = (lua.pairs.keys (Finmap.keys t)).flatMap fun k =>
      if Wanted q k then
        ((Table.get t k).map fun v => tuples lua (front ++ [k]) v qs).getD []
      else [] := by
  have hvisit : ∀ k, (((Table.get t k).map fun v =>
      (v.found lua id qs).map (Prod.mk k)).getD []).filterMap
        (fun path => (t.get path).map fun v => (front ++ Path.toList (n := n + 1) path, v)) =
      ((Table.get t k).map fun v => tuples lua (front ++ [k]) v qs).getD [] := by
    intro k
    cases hv : Table.get t k with
    | none => rfl
    | some v =>
      rw [Option.map_some, Option.map_some, Option.getD_some, Option.getD_some,
        List.filterMap_map, tuples]
      congr 1
      funext ks
      show (Level.get (n := n + 1) t (k, ks)).map _ = _
      rw [Level.get, hv, Option.bind_some]
      simp [Path.toList]
  rw [tuples, Level.found, List.filterMap_flatMap, Lua.wanted, flatMap_filter_eq]
  simp only [decide_eq_true_eq, id_eq, hvisit]

theorem rounds_level : ∀ {n : ℕ} (t : Level κ ν n) (p : Pattern κ n) (query : List (Option κ))
    (rest : List (Frame κ ν)), query.drop rest.length = p.toList →
    Rounds lua query (⟨n, t, none⟩ :: rest) (tuples lua (reached rest) t p) rest
  | 0, t, q, query, rest, hquery => by
    have hq := wanted_of_drop (show query.drop rest.length = [q] from hquery)
    rw [tuples_zero]
    refine @rounds_frame _ _ _ _ _ _ _ _ _ (fun key k hnext hk => ?_) [] _ rfl
    obtain ⟨v, hv⟩ := (Table.mem_keys t k).mp ((lua.pairs.mem_keys _ _).mp hk)
    by_cases hwanted : Wanted q k
    · have hround : it lua query (⟨0, t, key⟩ :: rest) =
          (some (reached rest ++ [k], v), ⟨0, t, some k⟩ :: rest) := by
        rw [it, hnext]
        simp only [hq, Frame.below, hv, Option.map_some]
        rw [if_pos (show q = none ∨ q = some k from hwanted)]
        simp [reached]
      rw [if_pos hwanted, hv]
      exact Rounds.single hround
    · have hround : it lua query (⟨0, t, key⟩ :: rest) = (none, ⟨0, t, some k⟩ :: rest) := by
        rw [it, hnext]
        simp only [hq]
        exact if_neg hwanted
      rw [if_neg hwanted]
      exact Rounds.single hround
  | n + 1, t, (q, qs), query, rest, hquery => by
    have hquery : query.drop rest.length = q :: qs.toList := hquery
    have hq := wanted_of_drop hquery
    rw [tuples_succ]
    refine @rounds_frame _ _ _ _ _ _ _ _ _ (fun key k hnext hk => ?_) [] _ rfl
    obtain ⟨v, hv⟩ := (Table.mem_keys t k).mp ((lua.pairs.mem_keys _ _).mp hk)
    by_cases hwanted : Wanted q k
    · have hround : it lua query (⟨n + 1, t, key⟩ :: rest) =
          (none, ⟨n, v, none⟩ :: ⟨n + 1, t, some k⟩ :: rest) := by
        rw [it, hnext]
        simp only [hq, Frame.below, hv, Option.map_some]
        exact if_pos hwanted
      have hbelow := rounds_level v qs query (⟨n + 1, t, some k⟩ :: rest) (by
        rw [List.length_cons, ← List.drop_drop, hquery]
        rfl)
      have hreached :
          reached ((⟨n + 1, t, some k⟩ : Frame κ ν) :: rest) = reached rest ++ [k] := by
        simp [reached]
      rw [if_pos hwanted, hv, Option.map_some, Option.getD_some, ← hreached]
      exact (Rounds.single hround).trans hbelow
    · have hround : it lua query (⟨n + 1, t, key⟩ :: rest) =
          (none, ⟨n + 1, t, some k⟩ :: rest) := by
        rw [it, hnext]
        simp only [hq]
        exact if_neg hwanted
      rw [if_neg hwanted]
      exact Rounds.single hround

theorem iterate_spec (t : Level κ ν n) (p : Pattern κ n) :
    ∃ fuel, iterate lua p.toList fuel [⟨n, t, none⟩] = some (tuples lua [] t p) :=
  iterate_of_rounds (rounds_level t p p.toList [] rfl)

end

/-! ## Runs -/

section

/-- The table has the contents, and no table in it is empty. -/
structure Inv (a : Level κ ν n × Contents κ ν n) : Prop where
  pruned : a.1.Pruned
  get : ∀ path, a.1.get path = a.2 path

variable {lua : Lua κ} {a : Level κ ν n × Contents κ ν n} {p : Pattern κ n}

omit [DecidableEq κ] in
theorem Matches.loosely : ∀ {n : ℕ} {p : Pattern κ n} {path : Path κ n} (_ : Matches id p path),
    Matches lua.read p path
  | 0, _, _, h => h
  | n + 1, (q, qs), (k, ks), ⟨hwanted, hrest⟩ => by
    refine ⟨?_, hrest.loosely⟩
    rcases hwanted with hnone | hsome
    · have hq : q = none := hnone
      exact .inl (by rw [hq]; rfl)
    · have hq : q = some k := hsome
      rw [hq]
      unfold Lua.read
      by_cases htrue : lua.truthy k = true
      · exact .inr (by simp [htrue])
      · exact .inl (by simp [htrue])

theorem after_remove (c : Contents κ ν n) (p : Pattern κ n) (path : Path κ n) :
    c.after (.remove p) path = if Matches id p path then none else c path := rfl

theorem fulfils_remove_iff (h : Inv a) :
    Fulfils lua a (.remove p) ↔ Careful lua a.2 (.remove p) := by
  constructor
  · rintro ⟨hraised, -, hget⟩
    have hno : ¬ Raises lua a.1 p := by
      intro hraises
      rw [Level.remove, r_raised hraises] at hraised
      cases hraised
    obtain ⟨-, -, hleft⟩ := r_spec h.pruned hno
    have hstrict : ∀ path, (a.2 path).isSome → Matches lua.read p path → Matches id p path := by
      intro path hsome hread
      by_contra hno
      have heq := (hleft path).symm.trans (hget path)
      rw [after_remove, if_pos hread, if_neg hno] at heq
      rw [← heq] at hsome
      cases hsome
    refine ⟨hstrict, fun hlast => ⟨?_, fun path hsome hmatches => ?_⟩⟩
    · exact Nat.pos_of_ne_zero fun hn => hno ⟨hlast, .inl hn⟩
    · exact hno ⟨hlast, .inr ⟨path, by rw [h.get]; exact hsome, hmatches.loosely⟩⟩
  · rintro ⟨hstrict, hlast⟩
    have hno : ¬ Raises lua a.1 p := by
      rintro ⟨hnone, hpath⟩
      obtain ⟨hn, hfree⟩ := hlast hnone
      obtain ⟨path, hsome, hmatches⟩ := hpath.resolve_left hn.ne'
      rw [h.get] at hsome
      exact hfree path hsome (hstrict path hsome hmatches)
    obtain ⟨hraised, hpruned, hleft⟩ := r_spec h.pruned hno
    refine ⟨hraised, hpruned, fun path => (hleft path).trans ?_⟩
    rw [after_remove, h.get]
    by_cases hmatches : Matches id p path
    · rw [if_pos hmatches, if_pos hmatches.loosely]
    · rw [if_neg hmatches]
      split
      · rename_i hread
        cases hv : a.2 path with
        | none => rfl
        | some v => exact absurd (hstrict path (by rw [hv]; rfl) hread) hmatches
      · rfl

theorem fulfils_search_iff (h : Inv a) :
    Fulfils lua a (.search p) ↔ Careful lua a.2 (.search p) := by
  have hget : a.1.get = a.2 := funext h.get
  have hloose : ∀ path, path ∈ a.1.found lua lua.read p ↔
      Matches lua.read p path ∧ (a.2 path).isSome := by
    intro path
    rw [mem_found, h.get]
  have hlength : ∀ paths : List (Path κ n), (∀ path ∈ paths, (a.2 path).isSome) →
      (paths.filterMap a.2).length = paths.length := by
    intro paths hall
    induction paths with
    | nil => rfl
    | cons path paths ih =>
      obtain ⟨v, hv⟩ := Option.isSome_iff_exists.mp (hall path List.mem_cons_self)
      rw [List.filterMap_cons_some hv, List.length_cons, List.length_cons,
        ih fun path' h => hall path' (List.mem_cons_of_mem _ h)]
  constructor
  · rintro ⟨paths, hlists, hsearch⟩ path hsome hread
    rw [Level.search, s_eq, hget] at hsearch
    have hsize : (a.1.found lua lua.read p).length = paths.length := by
      rw [← hlength _ fun path h => ((hloose path).mp h).2, hsearch,
        hlength _ fun path h => ((hlists.mem path).mp h).2]
    have hsub : paths ⊆ a.1.found lua lua.read p := fun path hmem =>
      (hloose path).mpr ⟨((hlists.mem path).mp hmem).1.loosely, ((hlists.mem path).mp hmem).2⟩
    have hperm := (hlists.nodup.subperm hsub).perm_of_length_le hsize.le
    exact ((hlists.mem path).mp (hperm.mem_iff.mpr ((hloose path).mpr ⟨hread, hsome⟩))).1
  · intro hcareful
    refine ⟨a.1.found lua lua.read p, ⟨nodup_found _ _, fun path => ?_⟩, ?_⟩
    · rw [hloose]
      exact and_congr_left fun hsome => ⟨hcareful path hsome, Matches.loosely⟩
    · rw [Level.search, s_eq, hget]

theorem Inv.fulfils_iff (h : Inv a) (op : Op κ ν n) : Fulfils lua a op ↔ Careful lua a.2 op := by
  cases op with
  | set path v =>
    refine iff_of_true (fun path' => ?_) trivial
    rw [Level.get_set, Contents.after, h.get]
  | remove p => exact fulfils_remove_iff h
  | get path => exact iff_of_true (h.get path) trivial
  | search p => exact fulfils_search_iff h
  | iter p =>
    refine iff_of_true ⟨a.1.found lua id p, lists_found h.get p, ?_⟩ trivial
    obtain ⟨fuel, hfuel⟩ := @iterate_spec _ _ _ _ lua a.1 p
    refine ⟨fuel, hfuel.trans ?_⟩
    have hget : a.1.get = a.2 := funext h.get
    rw [tuples, hget]
    rfl

theorem Inv.step (h : Inv a) {op : Op κ ν n} (hcareful : Careful lua a.2 op) :
    Inv (step lua a op) := by
  have hfulfils := (h.fulfils_iff op).mpr hcareful
  cases op with
  | set path v => exact ⟨h.pruned.set path v, hfulfils⟩
  | remove p => exact ⟨hfulfils.2.1, hfulfils.2.2⟩
  | get path => exact h
  | search p => exact h
  | iter p => exact h

/-- Every operation of a run does what it is meant to do just if every operation is careful. -/
theorem fulfils_iff_careful (lua : Lua κ) (ops : List (Op κ ν n)) :
    Machine.Guarded (step lua) (Fulfils lua) (Level.empty, fun _ => none) ops ↔
      Machine.Guarded (step lua) (fun a => Careful lua a.2) (Level.empty, fun _ => none) ops :=
  Machine.guarded_congr (P := Inv) (fun _ _ _ h hcareful => h.step hcareful)
    (fun _ op _ h => h.fulfils_iff op) ⟨Level.pruned_empty, Level.get_empty⟩

end

/-- Removing all that is under a key. -/
theorem remove_wildcard_not_fulfilled :
    ¬ Machine.Guarded (step ⟨KeyOrder.inserted ℕ, fun _ => true⟩)
      (Fulfils ⟨KeyOrder.inserted ℕ, fun _ => true⟩)
      ((Level.empty, fun _ => none) : Level ℕ ℕ 1 × Contents ℕ ℕ 1)
      [.set (1, 2) 7, .remove (some 1, none)] := by
  intro h
  have hraised : (Level.remove ⟨KeyOrder.inserted ℕ, fun _ => true⟩
      ((Level.empty : Level ℕ ℕ 1).set (1, 2) 7) (some 1, none)).2 = true := by
    decide
  exact absurd (hraised.symm.trans h.2.1.1) (by decide)

end Prosody.NestedTables
