import Prosody.Library.Runs

/-! # Machines that reply, and two of them that agree

A step takes an input and gives a reply. Where a relation between the states of two machines is kept
by steps with equal replies, nobody who only sees the replies can tell the machines apart. -/

namespace Machine

variable {σ τ α ρ : Type*}

/-- The state after an input, whatever the reply. -/
def next (step : σ → α → ρ × σ) (s : σ) (a : α) : σ := (step s a).2

/-- The replies to the inputs `as`. -/
def replies (step : σ → α → ρ × σ) : σ → List α → List ρ
  | _, [] => []
  | s, a :: as => (step s a).1 :: replies step (step s a).2 as

/-- A relation between the states of two machines that agree on their next replies. -/
def Simulates (step : σ → α → ρ × σ) (spec : τ → α → ρ × τ) (R : σ → τ → Prop) : Prop :=
  ∀ s t a, R s t → (step s a).1 = (spec t a).1 ∧ R (step s a).2 (spec t a).2

variable {step : σ → α → ρ × σ} {spec : τ → α → ρ × τ} {R : σ → τ → Prop}

theorem Simulates.replies (h : Simulates step spec R) {s : σ} {t : τ} (hst : R s t) (as : List α) :
    replies step s as = replies spec t as := by
  induction as generalizing s t with
  | nil => rfl
  | cons a as ih =>
    obtain ⟨hreply, hnext⟩ := h s t a hst
    rw [Machine.replies, Machine.replies, hreply, ih hnext]

theorem Simulates.run (h : Simulates step spec R) {s : σ} {t : τ} (hst : R s t) (as : List α) :
    R (run (next step) s as) (run (next spec) t as) := by
  induction as generalizing s t with
  | nil => exact hst
  | cons a as ih =>
    rw [run_cons, run_cons]
    exact ih (h s t a hst).2

end Machine
