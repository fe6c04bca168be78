import Mathlib.Data.List.Infix

/-! # Logs

A log lists what happened, the newest entry last. A rule may look at everything that came before
an entry. -/

/-- Every entry keeps the rule, given what came before it. -/
def Throughout {α : Type*} (rule : List α → α → Prop) (log : List α) : Prop :=
  ∀ past x, past ++ [x] <+: log → rule past x

section

variable {α : Type*} {rule : List α → α → Prop} {log : List α} {x : α}

theorem throughout_nil : Throughout rule [] :=
  fun _ _ h => absurd (List.prefix_nil.mp h) (List.append_ne_nil_of_right_ne_nil _ (by simp))

theorem throughout_concat : Throughout rule (log ++ [x]) ↔ Throughout rule log ∧ rule log x := by
  constructor
  · intro h
    exact ⟨fun past y hy => h past y (hy.trans (List.prefix_append log [x])),
      h log x List.prefix_rfl⟩
  · rintro ⟨hlog, hx⟩ past y hy
    obtain heq | hy := List.prefix_concat_iff.mp hy
    · obtain ⟨rfl, hlast⟩ := List.append_inj' heq rfl
      obtain rfl : y = x := List.singleton_inj.mp hlast
      exact hx
    · exact hlog past y hy

end
