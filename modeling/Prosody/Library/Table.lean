import Mathlib.Data.Finmap
import Mathlib.Data.Finset.Sort

/-! # Finite tables

A table maps finitely many keys to values and is determined by its lookups. Assigning
`none` to a key removes it. -/

/-- Finite maps with extensional equality, over keys of one type and values of one type. -/
abbrev Table (κ ν : Type*) := Finmap (fun _ : κ => ν)

namespace Table

variable {κ ν : Type*} [DecidableEq κ]

def get (t : Table κ ν) (k : κ) : Option ν := t.lookup k

/-- Assignment, where `none` removes the key. -/
def set (t : Table κ ν) (k : κ) : Option ν → Table κ ν
  | none => t.erase k
  | some v => t.insert k v

@[ext] theorem ext {t u : Table κ ν} (h : ∀ k, t.get k = u.get k) : t = u :=
  Finmap.ext_lookup h

@[simp] theorem get_empty (k : κ) : (∅ : Table κ ν).get k = none :=
  Finmap.lookup_empty k

@[simp] theorem get_set_self (t : Table κ ν) (k : κ) (v : Option ν) : (t.set k v).get k = v := by
  cases v with
  | none => exact Finmap.lookup_erase k t
  | some v => exact Finmap.lookup_insert t

theorem get_set_of_ne (t : Table κ ν) {k k' : κ} (h : k' ≠ k) (v : Option ν) :
    (t.set k v).get k' = t.get k' := by
  cases v with
  | none => exact Finmap.lookup_erase_ne h
  | some v => exact Finmap.lookup_insert_of_ne t h

theorem get_set (t : Table κ ν) (k k' : κ) (v : Option ν) :
    (t.set k v).get k' = if k' = k then v else t.get k' := by
  by_cases h : k' = k
  · subst h
    simp
  · simp [h, get_set_of_ne t h v]

@[simp] theorem set_get_self (t : Table κ ν) (k : κ) : t.set k (t.get k) = t := by
  ext k' : 1
  rw [get_set]
  split
  · rename_i h
    rw [h]
  · rfl

@[simp] theorem set_set (t : Table κ ν) (k : κ) (v w : Option ν) :
    (t.set k v).set k w = t.set k w := by
  ext k' : 1
  simp only [get_set]
  split <;> rfl

theorem set_comm (t : Table κ ν) {k k' : κ} (h : k ≠ k') (v w : Option ν) :
    (t.set k v).set k' w = (t.set k' w).set k v := by
  ext x : 1
  simp only [get_set]
  split_ifs with hx hx'
  · exact absurd (hx'.symm.trans hx) h
  · rfl
  · rfl
  · rfl

theorem get_of_keys_eq_empty {t : Table κ ν} (h : t.keys = ∅) (k : κ) : t.get k = none := by
  refine Finmap.lookup_eq_none.mpr fun hk => ?_
  rw [← Finmap.mem_keys, h] at hk
  exact absurd hk (Finset.notMem_empty k)

theorem mem_keys (t : Table κ ν) (k : κ) : k ∈ t.keys ↔ ∃ v, t.get k = some v := by
  rw [Finmap.mem_keys, Finmap.mem_iff]
  rfl

/-- The entries that satisfy `p`. -/
def filter (p : κ → ν → Bool) (t : Table κ ν) : Table κ ν where
  entries := t.entries.filter fun e => p e.1 e.2
  nodupKeys := by
    rw [← Multiset.nodup_keys]
    have hle : (t.entries.filter fun e => p e.1 e.2).map Sigma.fst ≤ t.entries.map Sigma.fst :=
      Multiset.map_le_map (Multiset.filter_le _ _)
    exact Multiset.nodup_of_le hle (Multiset.nodup_keys.mpr t.nodupKeys)

theorem get_filter (p : κ → ν → Bool) (t : Table κ ν) (k : κ) :
    (t.filter p).get k = (t.get k).filter (p k) := by
  ext v
  rw [Option.filter_eq_some_iff]
  unfold get
  rw [← Option.mem_def, ← Option.mem_def, Finmap.mem_lookup_iff, Finmap.mem_lookup_iff]
  simp [filter, Multiset.mem_filter]

/-- Assignment to several keys, one after the other. -/
def setEach (t : Table κ ν) (ks : List κ) (f : κ → Option ν) : Table κ ν :=
  ks.foldl (fun t k => t.set k (f k)) t

theorem get_setEach (t : Table κ ν) (ks : List κ) (f : κ → Option ν) (k : κ) :
    (t.setEach ks f).get k = if k ∈ ks then f k else t.get k := by
  unfold setEach
  induction ks generalizing t with
  | nil => simp
  | cons k' ks ih =>
    simp only [List.foldl_cons, ih, get_set, List.mem_cons]
    by_cases h : k ∈ ks
    · simp [h]
    · by_cases hk : k = k' <;> simp [h, hk]

end Table

/-- An order in which the keys of a table are enumerated, where the order is unspecified but
every key comes up once. -/
structure KeyOrder (κ : Type*) where
  keys : Finset κ → List κ
  mem_keys : ∀ s k, k ∈ keys s ↔ k ∈ s
  nodup : ∀ s, (keys s).Nodup

/-- Enumeration in ascending order. -/
def KeyOrder.ascending (κ : Type*) [LinearOrder κ] : KeyOrder κ where
  keys s := s.sort (· ≤ ·)
  mem_keys s _ := s.mem_sort (· ≤ ·)
  nodup s := s.sort_nodup (· ≤ ·)

/-- Enumeration in ascending order by insertion, which the kernel can evaluate on any table. -/
def KeyOrder.inserted (κ : Type*) [LinearOrder κ] : KeyOrder κ where
  keys s := Quot.liftOn s.1 (fun l => l.insertionSort (· ≤ ·)) fun l l' h =>
    ((List.perm_insertionSort _ l).trans (h.trans (List.perm_insertionSort _ l').symm)).eq_of_pairwise
      (fun _ _ _ _ => le_antisymm) (List.pairwise_insertionSort _ l) (List.pairwise_insertionSort _ l')
  mem_keys := by
    rintro ⟨⟨l⟩, hl⟩ k
    exact List.mem_insertionSort _
  nodup := by
    rintro ⟨⟨l⟩, hl⟩
    exact (List.perm_insertionSort _ l).nodup_iff.mpr hl
