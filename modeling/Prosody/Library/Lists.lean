import Mathlib.Data.List.Infix

/-! # Lists

Reading all elements of a list, changing its last one, and loops over the elements. -/

namespace Lists

variable {α β : Type*}

theorem mapM_eq_some {f : α → Option β} {g : α → β} {l : List α}
    (h : ∀ x ∈ l, f x = some (g x)) : l.mapM f = some (l.map g) := by
  induction l with
  | nil => rfl
  | cons x l ih =>
    rw [List.mapM_cons, h x List.mem_cons_self, ih fun y hy => h y (List.mem_cons_of_mem x hy)]
    rfl

theorem set_last (past : List α) (t u : α) : (past ++ [t]).set past.length u = past ++ [u] := by
  rw [List.set_append_right _ _ le_rfl, Nat.sub_self]
  rfl

theorem modify_last (past : List α) (t : α) (f : α → α) :
    (past ++ [t]).modify past.length f = past ++ [f t] := by
  rw [List.modify_eq_set_getElem?, List.getElem?_concat_length]
  exact set_last past t (f t)

theorem prefix_concat_of_getElem? {l p : List α} {x : α} (h : l <+: p)
    (hx : p[l.length]? = some x) : l ++ [x] <+: p := by
  obtain ⟨r, rfl⟩ := h
  rw [List.getElem?_append_right le_rfl, Nat.sub_self] at hx
  cases r with
  | nil => cases hx
  | cons y r =>
    cases hx
    exact ⟨r, by rw [List.append_assoc]; rfl⟩

/-- What a loop says of the elements it has been through. -/
theorem foldl_through {σ : Type*} {P : (α → Prop) → σ → Prop} {f : σ → α → σ}
    (hstep : ∀ done s x, P done s → P (fun y => done y ∨ y = x) (f s x)) (l : List α) {s : σ}
    (h : P (fun _ => False) s) : P (fun y => y ∈ l) (l.foldl f s) := by
  have hgen : ∀ (l : List α) (done : α → Prop) (s : σ), P done s →
      P (fun y => done y ∨ y ∈ l) (l.foldl f s) := by
    intro l
    induction l with
    | nil =>
      intro done s hs
      simpa using hs
    | cons x l ih =>
      intro done s hs
      have hnext := ih _ _ (hstep done s x hs)
      simpa only [List.foldl_cons, List.mem_cons, or_assoc] using hnext
  simpa using hgen l _ s h

end Lists
