import Mathlib.Data.List.Basic

/-! # Joining with a separator

Two words joined by a separator can be told apart again when the separator does not occur
in one of them, on the same side throughout. -/

namespace Separator

variable {α : Type*} {sep : α}

theorem append_cons_inj_left {a a' b b' : List α} (ha : sep ∉ a) (ha' : sep ∉ a')
    (h : a ++ sep :: b = a' ++ sep :: b') : a = a' ∧ b = b' := by
  induction a generalizing a' with
  | nil =>
    cases a' with
    | nil => exact ⟨rfl, (List.cons.inj h).2⟩
    | cons c a' =>
      have hc : sep = c := (List.cons.inj h).1
      exact absurd (hc ▸ List.mem_cons_self) ha'
  | cons c a ih =>
    cases a' with
    | nil =>
      have hc : c = sep := (List.cons.inj h).1
      exact absurd (hc ▸ List.mem_cons_self) ha
    | cons c' a' =>
      obtain ⟨rfl, htail⟩ := List.cons.inj h
      obtain ⟨rfl, hb⟩ := ih (fun hm => ha (List.mem_cons_of_mem c hm))
        (fun hm => ha' (List.mem_cons_of_mem c hm)) htail
      exact ⟨rfl, hb⟩

theorem append_cons_inj_right {a a' b b' : List α} (hb : sep ∉ b) (hb' : sep ∉ b')
    (h : a ++ sep :: b = a' ++ sep :: b') : a = a' ∧ b = b' := by
  have hrev : b.reverse ++ sep :: a.reverse = b'.reverse ++ sep :: a'.reverse := by
    simpa using congrArg List.reverse h
  obtain ⟨h1, h2⟩ := append_cons_inj_left (by simpa using hb) (by simpa using hb') hrev
  exact ⟨List.reverse_injective h2, List.reverse_injective h1⟩

section

variable [DecidableEq α]

/-- What stands before the first separator and what behind it. -/
def cut (sep : α) : List α → Option (List α × List α)
  | [] => none
  | c :: s => if c = sep then some ([], s) else (cut sep s).map (Prod.map (c :: ·) id)

theorem cut_append {a b : List α} (ha : sep ∉ a) : cut sep (a ++ sep :: b) = some (a, b) := by
  induction a with
  | nil => exact if_pos rfl
  | cons c a ih =>
    have hne : c ≠ sep := fun heq => ha (heq ▸ List.mem_cons_self)
    rw [List.cons_append, cut, if_neg hne, ih fun hmem => ha (List.mem_cons_of_mem c hmem)]
    rfl

theorem cut_eq_some {s a b : List α} : cut sep s = some (a, b) ↔ s = a ++ sep :: b ∧ sep ∉ a := by
  constructor
  · intro h
    induction s generalizing a with
    | nil => cases h
    | cons c s ih =>
      rw [cut] at h
      split_ifs at h with hc
      · obtain ⟨rfl, rfl⟩ := Prod.mk.inj (Option.some.inj h)
        exact ⟨by rw [hc]; rfl, List.not_mem_nil⟩
      · obtain ⟨⟨a', b'⟩, hcut, heq⟩ := Option.map_eq_some_iff.mp h
        obtain ⟨rfl, rfl⟩ := Prod.mk.inj heq
        obtain ⟨rfl, ha'⟩ := ih hcut
        refine ⟨rfl, fun hmem => ?_⟩
        obtain rfl | hmem := List.mem_cons.mp hmem
        · exact hc rfl
        · exact ha' hmem
  · rintro ⟨rfl, ha⟩
    exact cut_append ha

end

end Separator
