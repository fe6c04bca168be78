import Mathlib.Logic.Function.Basic

/-! # Changing one of many values -/

namespace Function

variable {ι σ : Type*} [DecidableEq ι]

/-- What `f` makes of the value at `i`, and the others as they are. -/
def amend (g : ι → σ) (i : ι) (f : σ → σ) : ι → σ := update g i (f (g i))

@[simp] theorem amend_same (g : ι → σ) (i : ι) (f : σ → σ) : amend g i f i = f (g i) :=
  update_self ..

@[simp] theorem amend_of_ne (g : ι → σ) {i j : ι} (h : j ≠ i) (f : σ → σ) : amend g i f j = g j :=
  update_of_ne h ..

end Function
