import Mathlib.Data.List.Nodup

/-! # Lists of items with keys

What is told apart by its key: positions in a list and filters by the key come to the same. -/

namespace Keyed

variable {α κ : Type*} {key : α → κ} {l : List α} {n : Nat} {x y : α}

/-- Everything after an item has another key. -/
theorem ne_of_mem_drop (h : (l.map key).Nodup) (hn : l[n]? = some x) (hy : y ∈ l.drop (n + 1)) :
    key y ≠ key x := by
  obtain ⟨hlt, rfl⟩ := List.getElem?_eq_some_iff.mp hn
  have hsplit : l.take n ++ l[n] :: l.drop (n + 1) = l := by
    rw [← List.drop_eq_getElem_cons hlt, List.take_append_drop]
  rw [← hsplit, List.map_append, List.map_cons, List.nodup_append, List.nodup_cons] at h
  intro heq
  exact h.2.1.1 (List.mem_map.mpr ⟨y, hy, heq⟩)

variable [DecidableEq κ]

/-- Removing the item at a position removes the one item with its key. -/
theorem eraseIdx_eq_filter (h : (l.map key).Nodup) (hn : l[n]? = some x) :
    l.eraseIdx n = l.filter fun y => key y ≠ key x := by
  induction l generalizing n with
  | nil => cases hn
  | cons z l ih =>
    rw [List.map_cons, List.nodup_cons] at h
    cases n with
    | zero =>
      obtain rfl : z = x := by simpa using hn
      have hkept : ∀ y ∈ l, decide (key y ≠ key z) = true := by
        intro y hy
        rw [decide_eq_true_iff]
        intro heq
        exact h.1 (List.mem_map.mpr ⟨y, hy, heq⟩)
      rw [List.eraseIdx_cons_zero, List.filter_cons_of_neg (by simp),
        List.filter_eq_self.mpr hkept]
    | succ n =>
      have hx : l[n]? = some x := by simpa using hn
      have hne : key z ≠ key x := by
        intro heq
        exact h.1 (List.mem_map.mpr ⟨x, List.mem_of_getElem? hx, heq.symm⟩)
      rw [List.eraseIdx_cons_succ, ih h.2 hx, List.filter_cons_of_pos (by simp [hne])]

/-- What is kept of the beginning of a list is the beginning of what is kept. -/
theorem take_filter {p : α → Bool} (h : ∀ x ∈ l.take n, p x = true) :
    (l.filter p).take n = l.take n := by
  induction l generalizing n with
  | nil => rfl
  | cons x l ih =>
    cases n with
    | zero => rfl
    | succ n =>
      rw [List.take_succ_cons] at h ⊢
      rw [List.filter_cons_of_pos (h x List.mem_cons_self), List.take_succ_cons,
        ih fun y hy => h y (List.mem_cons_of_mem x hy)]

end Keyed
