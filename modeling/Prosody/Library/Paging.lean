import Mathlib.Data.List.Basic

/-! # Paging through a list

A client asks for a page, and asks again from the cursor that the page names, until a page says that
it is the last. If each answer is the next piece of one list, the pages together are that list. -/

namespace Paging

variable {α κ π : Type*}

/-- What a client can tell about a page. -/
structure View (α κ π : Type*) where
  results : π → List α
  complete : π → Bool
  cursor : π → Option κ

/-- The pages that a client gets from a cursor on. -/
inductive Follows (view : View α κ π) (answer : κ → π) : κ → List π → Prop where
  | complete {c : κ} : view.complete (answer c) = true → Follows view answer c [answer c]
  | more {c c' : κ} {pages : List π} : view.complete (answer c) = false →
      view.cursor (answer c) = some c' → Follows view answer c' pages →
      Follows view answer c (answer c :: pages)

variable {view : View α κ π} {answer : κ → π}

theorem Follows.unique {c : κ} {pages pages' : List π}
    (h : Follows view answer c pages) (h' : Follows view answer c pages') : pages = pages' := by
  induction h generalizing pages' with
  | complete hcomplete =>
    cases h' with
    | complete => rfl
    | more hmore => rw [hcomplete] at hmore; cases hmore
  | more hmore hcursor _ ih =>
    cases h' with
    | complete hcomplete => rw [hcomplete] at hmore; cases hmore
    | more _ hcursor' hfollows =>
      rw [hcursor] at hcursor'
      obtain rfl := Option.some.inj hcursor'
      rw [ih hfollows]

/-- Only the last page says that it is the last. -/
theorem Follows.ends {c : κ} {pages : List π} (h : Follows view answer c pages) :
    ∃ init final, pages = init ++ [final] ∧ view.complete final = true ∧
      ∀ page ∈ init, view.complete page = false := by
  induction h with
  | complete hcomplete => exact ⟨[], _, rfl, hcomplete, fun _ hpage => by cases hpage⟩
  | more hmore _ _ ih =>
    obtain ⟨init, final, rfl, hfinal, hinit⟩ := ih
    exact ⟨_ :: init, final, rfl, hfinal, List.forall_mem_cons.mpr ⟨hmore, hinit⟩⟩

/-- The answer from a position of the list is the next piece of it, and names the position after. -/
structure Serves (view : View α κ π) (answer : κ → π) (items : List α) (size : Nat)
    (place : κ → Nat → Prop) : Prop where
  results : ∀ c i, place c i → view.results (answer c) = (items.drop i).take size
  complete : ∀ c i, place c i → (view.complete (answer c) = true ↔ items.length ≤ i + size)
  cursor : ∀ c i, place c i → i + size < items.length →
    ∃ c', view.cursor (answer c) = some c' ∧ place c' (i + size)

/-- The pages have what is left of the list, in order, and an empty page has nothing to add. -/
theorem Serves.follows {items : List α} {size : Nat}
    {place : κ → Nat → Prop} (h : Serves view answer items size place) (hsize : 1 ≤ size) (c : κ)
    (i : Nat) (hc : place c i) :
    ∃ pages, Follows view answer c pages ∧ pages.flatMap view.results = items.drop i ∧
      ∀ page ∈ pages, view.results page = [] → items.drop i = [] := by
  have hresults := h.results c i hc
  by_cases hlast : items.length ≤ i + size
  · have hall : view.results (answer c) = items.drop i := by
      rw [hresults]
      refine List.take_of_length_le ?_
      rw [List.length_drop]
      omega
    refine ⟨[answer c], .complete ((h.complete c i hc).mpr hlast), ?_, ?_⟩
    · rw [List.flatMap_singleton, hall]
    · intro page hpage hempty
      obtain rfl := List.mem_singleton.mp hpage
      rw [← hall, hempty]
  · have hmore : view.complete (answer c) = false :=
      Bool.eq_false_iff.mpr fun hcomplete => hlast ((h.complete c i hc).mp hcomplete)
    obtain ⟨c', hcursor, hc'⟩ := h.cursor c i hc (by omega)
    obtain ⟨pages, hfollows, hrest, hnonempty⟩ := h.follows hsize c' (i + size) hc'
    have hne : ∀ xs : List α, xs.length = items.length - (i + size) → xs ≠ [] := by
      rintro _ hlength rfl
      rw [List.length_nil] at hlength
      omega
    refine ⟨answer c :: pages, .more hmore hcursor hfollows, ?_, ?_⟩
    · rw [List.flatMap_cons, hresults, hrest, ← List.drop_drop, List.take_append_drop]
    · intro page hpage hempty
      rcases List.mem_cons.mp hpage with rfl | hpage
      · have hlength := congrArg List.length (hempty.symm.trans hresults)
        rw [List.length_nil, List.length_take, List.length_drop] at hlength
        omega
      · exact absurd (hnonempty page hpage hempty) (hne _ List.length_drop)
termination_by items.length - i

end Paging
