import Prosody.Library.Table

/-! # Assignments to a table, one after the other -/

namespace Table

variable {ι κ ν : Type*} [DecidableEq κ]

def assign (f : ι → κ) (u : ι → Option ν) (t : Table κ ν) (is : List ι) : Table κ ν :=
  is.foldl (fun t i => t.set (f i) (u i)) t

theorem get_assign_of_forall_ne {f : ι → κ} {u : ι → Option ν} {t : Table κ ν} {is : List ι} {x : κ}
    (h : ∀ i ∈ is, f i ≠ x) : (assign f u t is).get x = t.get x := by
  induction is generalizing t with
  | nil => rfl
  | cons i is ih =>
    rw [assign, List.foldl_cons, ← assign, ih fun j hj => h j (List.mem_cons_of_mem _ hj),
      get_set_of_ne _ (h i List.mem_cons_self).symm]

/-- Where one key is not given two values, each index has its own one. -/
theorem get_assign_of_mem {f : ι → κ} {u : ι → Option ν} {t : Table κ ν} {is : List ι}
    (hu : ∀ i ∈ is, ∀ j ∈ is, f i = f j → u i = u j) {i : ι} (hi : i ∈ is) :
    (assign f u t is).get (f i) = u i := by
  induction is generalizing t i with
  | nil => exact absurd hi List.not_mem_nil
  | cons j is ih =>
    have hrest : ∀ a ∈ is, ∀ b ∈ is, f a = f b → u a = u b := fun a ha b hb =>
      hu a (List.mem_cons_of_mem _ ha) b (List.mem_cons_of_mem _ hb)
    rw [assign, List.foldl_cons, ← assign]
    by_cases hagain : ∃ a ∈ is, f a = f i
    · obtain ⟨a, ha, hsame⟩ := hagain
      rw [← hsame, ih hrest ha]
      exact hu a (List.mem_cons_of_mem _ ha) i hi hsame
    · rcases List.mem_cons.mp hi with rfl | hi
      · rw [get_assign_of_forall_ne fun a ha hsame => hagain ⟨a, ha, hsame⟩, get_set_self]
      · exact absurd ⟨i, hi, rfl⟩ hagain

end Table
