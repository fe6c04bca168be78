import Mathlib.Data.List.Basic
import Mathlib.Order.Basic

/-! # Input that arrives in pieces

A reader takes a turn when the start of what it has got allows it, whatever is to come, and uses
some of it up. It makes the same of its input in pieces as at once. -/

namespace Prosody.Pieces

variable {σ β : Type*}

/-- A turn that is possible stays so with more input, and shortens it. -/
structure Steady (turn : σ → List β → Option (σ × List β)) : Prop where
  more : ∀ {s b s' b'}, turn s b = some (s', b') → ∀ c, turn s (b ++ c) = some (s', b' ++ c)
  shorter : ∀ {s b s' b'}, turn s b = some (s', b') → b'.length < b.length

/-- Turns as long as they are possible, but at most `n`. -/
def drain (turn : σ → List β → Option (σ × List β)) : ℕ → σ × List β → σ × List β
  | 0, p => p
  | n + 1, p => (turn p.1 p.2).elim p (drain turn n)

/-- The reader with its input so far gets a piece. -/
def feed (turn : σ → List β → Option (σ × List β)) (p : σ × List β) (piece : List β) :
    σ × List β :=
  drain turn (p.2 ++ piece).length (p.1, p.2 ++ piece)

def feedAll (turn : σ → List β → Option (σ × List β)) (p : σ × List β) (pieces : List (List β)) :
    σ × List β :=
  pieces.foldl (feed turn) p

variable {turn : σ → List β → Option (σ × List β)}

/-- One state follows from another by turns. -/
inductive Turns (turn : σ → List β → Option (σ × List β)) : σ × List β → σ × List β → Prop
  | refl (p) : Turns turn p p
  | head {p q r} (h : turn p.1 p.2 = some q) (hrest : Turns turn q r) : Turns turn p r

theorem Turns.single {p q : σ × List β} (h : turn p.1 p.2 = some q) : Turns turn p q :=
  .head h (.refl q)

theorem Turns.trans {p q r : σ × List β} (h : Turns turn p q) (h' : Turns turn q r) :
    Turns turn p r := by
  induction h with
  | refl => exact h'
  | head hturn _ ih => exact .head hturn (ih h')

theorem Turns.more (hsteady : Steady turn) {p q : σ × List β} (h : Turns turn p q) (c : List β) :
    Turns turn (p.1, p.2 ++ c) (q.1, q.2 ++ c) := by
  induction h with
  | refl => exact .refl _
  | head hturn _ ih => exact .head (hsteady.more hturn c) ih

theorem Turns.eq_of_none {p q : σ × List β} (h : Turns turn p q) (hp : turn p.1 p.2 = none) :
    q = p := by
  cases h with
  | refl => rfl
  | head hturn => exact absurd hturn (by rw [hp]; simp)

/-- Any turns lead on to the state where no other one is possible. -/
theorem Turns.rest {p q r : σ × List β} (h : Turns turn p q) (hq : turn q.1 q.2 = none)
    (h' : Turns turn p r) : Turns turn r q := by
  induction h' with
  | refl => exact h
  | head hturn' _ ih =>
    cases h with
    | refl => exact absurd hturn' (by rw [hq]; simp)
    | head hturn hrest =>
      rw [hturn'] at hturn
      obtain rfl := Option.some.inj hturn
      exact ih hrest

theorem drain_turns (n : ℕ) (p : σ × List β) : Turns turn p (drain turn n p) := by
  induction n generalizing p with
  | zero => exact .refl p
  | succ n ih =>
    rw [drain]
    cases h : turn p.1 p.2 with
    | none => exact .refl p
    | some q => exact .head h (ih q)

theorem drain_stops (hsteady : Steady turn) {n : ℕ} {p : σ × List β} (h : p.2.length ≤ n) :
    turn (drain turn n p).1 (drain turn n p).2 = none := by
  induction n generalizing p with
  | zero =>
    rw [drain]
    cases hturn : turn p.1 p.2 with
    | none => rfl
    | some q =>
      have := hsteady.shorter hturn
      omega
  | succ n ih =>
    rw [drain]
    cases hturn : turn p.1 p.2 with
    | none => exact hturn
    | some q =>
      have := hsteady.shorter hturn
      exact ih (by omega)

/-- However the input is cut, the reader ends where the turns over all of it end. -/
theorem feedAll_eq (hsteady : Steady turn) {p q : σ × List β} {pieces : List (List β)}
    (hp : turn p.1 p.2 = none) (h : Turns turn (p.1, p.2 ++ pieces.flatten) q)
    (hq : turn q.1 q.2 = none) : feedAll turn p pieces = q := by
  induction pieces generalizing p with
  | nil =>
    rw [List.flatten_nil, List.append_nil] at h
    exact (h.eq_of_none hp).symm
  | cons piece pieces ih =>
    have hfed : Turns turn (p.1, p.2 ++ piece) (feed turn p piece) := drain_turns _ _
    have hstops : turn (feed turn p piece).1 (feed turn p piece).2 = none :=
      drain_stops hsteady (Nat.le_refl _)
    rw [List.flatten_cons, ← List.append_assoc] at h
    exact ih hstops (h.rest hq (hfed.more hsteady pieces.flatten))

end Prosody.Pieces
