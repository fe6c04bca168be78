import Mathlib.Data.List.Basic
import Mathlib.Logic.Function.Basic

/-! # Lists that are kept in a circular array

The elements stand at consecutive positions modulo the size of the array. -/

namespace Circular

variable {α : Type*} {get : ℕ → α} {n start len k : ℕ}

def window (get : ℕ → α) (n start len : ℕ) : List α :=
  (List.range len).map fun i => get ((start + i) % n)

@[simp] theorem length_window : (window get n start len).length = len := by
  simp [window]

theorem window_mod : window get n (start % n) len = window get n start len := by
  unfold window
  refine List.map_congr_left fun i _ => ?_
  rw [Nat.mod_add_mod]

theorem window_succ :
    window get n start (len + 1) = window get n start len ++ [get ((start + len) % n)] := by
  rw [window, List.range_succ, List.map_append]
  rfl

theorem window_cons :
    window get n start (len + 1) = get (start % n) :: window get n (start + 1) len := by
  rw [window, List.range_succ_eq_map, List.map_cons, List.map_map]
  refine congrArg₂ _ (by rw [Nat.add_zero]) (List.map_congr_left fun i _ => ?_)
  rw [Function.comp, Nat.succ_eq_add_one, Nat.add_right_comm, Nat.add_assoc]

theorem getElem?_window :
    (window get n start len)[k]? = if k < len then some (get ((start + k) % n)) else none := by
  unfold window
  rw [List.getElem?_map]
  split_ifs with h
  · rw [List.getElem?_range h]
    rfl
  · rw [List.getElem?_eq_none (by simpa using h)]
    rfl

theorem drop_window : (window get n start len).drop k = window get n (start + k) (len - k) := by
  refine List.ext_getElem? fun i => ?_
  rw [List.getElem?_drop, getElem?_window, getElem?_window, Nat.add_assoc]
  by_cases h : k + i < len
  · rw [if_pos h, if_pos (by omega)]
  · rw [if_neg h, if_neg (by omega)]

theorem take_window (h : k ≤ len) : (window get n start len).take k = window get n start k := by
  refine List.ext_getElem? fun i => ?_
  rw [List.getElem?_take, getElem?_window, getElem?_window]
  by_cases hi : i < k
  · rw [if_pos hi, if_pos (by omega), if_pos hi]
  · rw [if_neg hi, if_neg hi]

theorem mod_ne {i j : ℕ} (hij : i < j) (hj : j < i + n) : i % n ≠ j % n := by
  intro h
  have hzero := Nat.sub_mod_eq_zero_of_mod_eq h.symm
  rw [Nat.mod_eq_of_lt (by omega)] at hzero
  omega

theorem window_update {x : α} {pos : ℕ} (h : ∀ i < len, (start + i) % n ≠ pos) :
    window (Function.update get pos x) n start len = window get n start len := by
  unfold window
  refine List.map_congr_left fun i hi => ?_
  exact Function.update_of_ne (h i (List.mem_range.mp hi)) _ _

theorem window_push {x : α} (h : len < n) :
    window (Function.update get ((start + len) % n) x) n start (len + 1) =
      window get n start len ++ [x] := by
  rw [window_succ, Function.update_self, window_update]
  intro i hi
  exact mod_ne (by omega) (by omega)

end Circular
