import Mathlib.Data.List.Sort

/-! # Named events

Handlers are registered under the name of an event. Those of an event run in the order of their
priorities, until one of them has taken care of it. -/

/-- A handler changes the state and says whether it has taken care of the event. -/
structure Hook (ε σ : Type*) where
  event : ε
  priority : Int
  run : σ → σ × Bool

namespace Hook

variable {ε σ : Type*}

def fireAll : List (Hook ε σ) → σ → σ × Bool
  | [], s => (s, false)
  | h :: hs, s => if (h.run s).2 then h.run s else fireAll hs (h.run s).1

theorem fireAll_cons_of_handled {h : Hook ε σ} {hs : List (Hook ε σ)} {s : σ}
    (hh : (h.run s).2 = true) : fireAll (h :: hs) s = h.run s := if_pos hh

theorem fireAll_cons_of_passed {h : Hook ε σ} {hs : List (Hook ε σ)} {s : σ}
    (hh : (h.run s).2 = false) : fireAll (h :: hs) s = fireAll hs (h.run s).1 := by
  rw [fireAll, hh, if_neg Bool.false_ne_true]

variable [DecidableEq ε]

/-- The handlers of an event, those of the highest priority first. -/
def handlers (hooks : List (Hook ε σ)) (event : ε) : List (Hook ε σ) :=
  (hooks.filter fun h => h.event = event).insertionSort fun h h' => h'.priority ≤ h.priority

def fire (hooks : List (Hook ε σ)) (event : ε) (s : σ) : σ × Bool :=
  fireAll (handlers hooks event) s

end Hook
