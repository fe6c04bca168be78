import Mathlib.Tactic.Linarith
import Mathlib.Tactic.Ring
import Prosody.Library.Runs
import Prosody.Bosh.Session

/-! # The order of BOSH requests -/

namespace Prosody.Bosh

variable {env : Environment} {s : Session}

/-! ## Progress

What decides about the order of stanzas: the last `rid`, the deferred request and the stanzas
dispatched so far. Sending and answering leave it alone. -/

structure Progress where
  rid : ℚ
  deferred : Option Deferred
  dispatched : List Stanza

def Session.progress (s : Session) : Progress :=
  { rid := s.rid, deferred := s.deferred, dispatched := s.dispatched }

/-- The stanzas that the dispatcher sees of a payload. -/
def handed (env : Environment) (stanzas : List Stanza) : List Stanza :=
  stanzas.filterMap fun stanza => env.stanzasIn stanza.clearXmlns

@[simp] theorem Stanza.clearXmlns_clearXmlns (stanza : Stanza) :
    stanza.clearXmlns.clearXmlns = stanza.clearXmlns := by
  unfold Stanza.clearXmlns
  split <;> simp_all

@[simp] theorem handed_nil : handed env [] = [] := rfl

@[simp] theorem handed_map_clearXmlns (stanzas : List Stanza) :
    handed env (stanzas.map Stanza.clearXmlns) = handed env stanzas := by
  simp [handed, List.filterMap_map]

@[simp] theorem answer_progress (id : Nat) (a : Answer) :
    (s.answer id a).progress = s.progress := rfl

@[simp] theorem close_progress (condition : Option String) :
    (s.close condition).progress = s.progress := rfl

variable {q : Request}

/-- The deferred request is handled as if it came next. -/
def Progress.release (env : Environment) (p : Progress) : Progress :=
  match p.deferred with
  | some deferred =>
    { rid := deferred.rid
      deferred := none
      dispatched := p.dispatched ++ handed env deferred.stanzas }
  | none => p

/-- The requests have the numbers `rid`, `rid + 1` and so on. -/
def Consecutive : ℚ → List Request → Prop
  | _, [] => True
  | rid, q :: qs => q.rid = some rid ∧ Consecutive (rid + 1) qs

theorem consecutive_append {rid : ℚ} {qs : List Request} :
    Consecutive rid (qs ++ [q]) ↔ Consecutive rid qs ∧ q.rid = some (rid + qs.length) := by
  induction qs generalizing rid with
  | nil => simp [Consecutive]
  | cons p qs ih =>
    have hlength : rid + 1 + (qs.length : ℚ) = rid + ((p :: qs).length : ℚ) := by
      push_cast [List.length_cons]
      ring
    simp only [List.cons_append, Consecutive, ih, hlength, and_assoc]

/-- The dispatched stanzas are those of the requests `qs`, which have consecutive numbers
up to that of the session. -/
structure Accounts (env : Environment) (rid : ℚ) (arrived : List Op) (p : Progress)
    (qs : List Request) : Prop where
  consecutive : Consecutive rid qs
  arrived : ∀ q ∈ qs, Op.request q ∈ arrived
  dispatched : p.dispatched = qs.flatMap fun q => handed env q.payload
  last : p.rid = rid + qs.length - 1

/-- The deferred request is one that arrived, with all of its stanzas. -/
def HoldsArrived (arrived : List Op) (p : Progress) : Prop :=
  ∀ deferred, p.deferred = some deferred →
    ∃ q, Op.request q ∈ arrived ∧ q.rid = some deferred.rid ∧
      deferred.stanzas = q.payload.map Stanza.clearXmlns

/-- The stanzas of a session started at `rid` have been dispatched in order, and the deferred
request of an open session waits for the one before it. -/
structure InOrder (env : Environment) (rid : ℚ) (arrived : List Op) (s : Session) : Prop where
  accounts : ∃ qs, Accounts env rid arrived s.progress qs
  holds : HoldsArrived arrived s.progress
  waits : s.closed = false → ∀ deferred, s.deferred = some deferred →
    deferred.rid = s.rid + 2

section

variable {rid : ℚ} {arrived : List Op}

theorem HoldsArrived.mono {p : Progress} (h : HoldsArrived arrived p) (op : Op) :
    HoldsArrived (arrived ++ [op]) p := by
  intro deferred hd
  obtain ⟨q, hq, hrid, hstanzas⟩ := h deferred hd
  exact ⟨q, List.mem_append_left _ hq, hrid, hstanzas⟩

theorem Accounts.mono {p : Progress} {qs : List Request} (h : Accounts env rid arrived p qs)
    (op : Op) : Accounts env rid (arrived ++ [op]) p qs :=
  { h with arrived := fun q hq => List.mem_append_left _ (h.arrived q hq) }

theorem Accounts.snoc {p : Progress} {qs : List Request} (h : Accounts env rid arrived p qs)
    {q : Request} (harrived : Op.request q ∈ arrived) (hq : q.rid = some (p.rid + 1))
    (deferred : Option Deferred) :
    Accounts env rid arrived
      { rid := p.rid + 1
        deferred := deferred
        dispatched := p.dispatched ++ handed env q.payload } (qs ++ [q]) where
  consecutive := by
    refine consecutive_append.mpr ⟨h.consecutive, ?_⟩
    rw [hq, h.last]
    congr 1
    ring
  arrived := by
    intro q' hq'
    rcases List.mem_append.mp hq' with hq' | hq'
    · exact h.arrived q' hq'
    · rw [List.mem_singleton.mp hq']
      exact harrived
  dispatched := by simp [h.dispatched]
  last := by
    have hlast := h.last
    simp only [List.length_append, List.length_singleton, Nat.cast_add, Nat.cast_one]
    linarith

end

end Prosody.Bosh
