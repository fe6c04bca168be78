import Mathlib.Data.List.Count
import Mathlib.Data.List.Nodup

/-! # Ordered delivery through an outbox

An outbox takes items one by one. Each is sent at once or kept back; what was kept back is
later sent or returned to where it came from. Some items are owed an
answer: they may not disappear. The operations below keep the sent items in the order in
which they were taken, and account for every item that is owed an answer exactly once. -/

/-- The items taken so far, and what became of them. -/
structure Outbox (α : Type*) where
  submitted : List α := []
  sent : List α := []
  pending : List α := []
  returned : List α := []

namespace Outbox

variable {α : Type*}

/-- Keep a new item back behind those that wait. -/
def hold (o : Outbox α) (x : α) : Outbox α :=
  { o with submitted := o.submitted ++ [x], pending := o.pending ++ [x] }

def send (o : Outbox α) (x : α) : Outbox α :=
  { o with submitted := o.submitted ++ [x], sent := o.sent ++ [x] }

/-- Return items besides those that wait. -/
def giveUp (o : Outbox α) (back : List α) : Outbox α :=
  { o with returned := o.returned ++ back }

/-- Send what waits, as far as it gets through. -/
def flush (o : Outbox α) (through : α → Bool) : Outbox α :=
  { o with sent := o.sent ++ o.pending.filter through, pending := [] }

/-- Give up on what waits and return what is owed an answer. -/
def giveBack (o : Outbox α) (owed : α → Bool) : Outbox α :=
  { o with returned := o.returned ++ o.pending.filter owed, pending := [] }

/-- Sent and waiting items are in the order of submission, and each item that is owed an
answer is sent, waiting or returned, once. -/
structure Settled [DecidableEq α] (owed : α → Bool) (o : Outbox α) : Prop where
  distinct : o.submitted.Nodup
  ordered : (o.sent ++ o.pending).Sublist o.submitted
  known : ∀ x ∈ o.returned, x ∈ o.submitted
  once : ∀ x ∈ o.submitted, owed x →
    o.sent.count x + o.pending.count x + o.returned.count x = 1

section

variable [DecidableEq α] {owed : α → Bool} {o : Outbox α}

theorem settled_empty : Settled owed ({} : Outbox α) where
  distinct := List.nodup_nil
  ordered := List.Sublist.refl _
  known := by simp
  once := by simp

/-- A new item is in none of the ledgers. -/
theorem Settled.fresh (h : Settled owed o) {x : α} (hx : x ∉ o.submitted) :
    o.sent.count x = 0 ∧ o.pending.count x = 0 ∧ o.returned.count x = 0 := by
  refine ⟨List.count_eq_zero_of_not_mem ?_, List.count_eq_zero_of_not_mem ?_,
    List.count_eq_zero_of_not_mem fun hr => hx (h.known x hr)⟩
  · exact fun hs => hx (h.ordered.subset (List.mem_append_left _ hs))
  · exact fun hp => hx (h.ordered.subset (List.mem_append_right _ hp))

/-- Wherever a single copy of a new item goes, every item is accounted for. -/
theorem Settled.once_snoc (h : Settled owed o) {x : α} (hx : x ∉ o.submitted) :
    ∀ y ∈ o.submitted ++ [x], owed y →
      o.sent.count y + o.pending.count y + o.returned.count y + [x].count y = 1 := by
  intro y hy how
  rcases List.mem_append.mp hy with hy | hy
  · have hne : x ≠ y := fun hxy => hx (hxy ▸ hy)
    have := h.once y hy how
    rwa [List.count_singleton, if_neg (by simpa using hne)]
  · obtain ⟨hs, hp, hr⟩ := h.fresh hx
    rw [List.mem_singleton.mp hy, hs, hp, hr]
    simp

theorem Settled.hold (h : Settled owed o) {x : α} (hx : x ∉ o.submitted) :
    Settled owed (o.hold x) where
  distinct := by simpa [Outbox.hold] using List.Nodup.concat hx h.distinct
  ordered := by
    have := h.ordered.append (List.Sublist.refl [x])
    simpa [Outbox.hold] using this
  known y hy := List.mem_append_left _ (h.known y hy)
  once y hy how := by
    have := h.once_snoc hx y hy how
    simp only [Outbox.hold, List.count_append]
    omega

theorem Settled.send (h : Settled owed o) {x : α} (hx : x ∉ o.submitted)
    (hempty : o.pending = []) : Settled owed (o.send x) where
  distinct := by simpa [Outbox.send] using List.Nodup.concat hx h.distinct
  ordered := by
    have := h.ordered.append (List.Sublist.refl [x])
    simpa [Outbox.send, hempty] using this
  known y hy := List.mem_append_left _ (h.known y hy)
  once y hy how := by
    have := h.once_snoc hx y hy how
    simp only [Outbox.send, List.count_append]
    omega

/-- Items that are owed nothing may be returned at any time. -/
theorem Settled.giveUp (h : Settled owed o) {back : List α}
    (hback : ∀ y ∈ back, y ∈ o.submitted ∧ owed y = false) : Settled owed (o.giveUp back) where
  distinct := h.distinct
  ordered := h.ordered
  known y hy := by
    rcases List.mem_append.mp hy with hy | hy
    · exact h.known y hy
    · exact (hback y hy).1
  once y hy how := by
    have hnot : y ∉ back := fun hb => by simp [(hback y hb).2] at how
    have := h.once y hy how
    simpa [Outbox.giveUp, List.count_eq_zero_of_not_mem hnot] using this

theorem Settled.flush (h : Settled owed o) {through : α → Bool}
    (hthrough : ∀ x ∈ o.pending, owed x → through x) : Settled owed (o.flush through) where
  distinct := h.distinct
  ordered := by
    have : (o.sent ++ o.pending.filter through).Sublist (o.sent ++ o.pending) :=
      (List.Sublist.refl _).append List.filter_sublist
    simpa [Outbox.flush] using this.trans h.ordered
  known := h.known
  once x hx how := by
    have hcount : (o.pending.filter through).count x = o.pending.count x := by
      by_cases hmem : x ∈ o.pending
      · exact List.count_filter (hthrough x hmem how)
      · rw [List.count_eq_zero_of_not_mem hmem, List.count_eq_zero_of_not_mem]
        exact fun hf => hmem (List.mem_of_mem_filter hf)
    have := h.once x hx how
    simp only [Outbox.flush, List.count_append, hcount, List.count_nil]
    omega

theorem Settled.giveBack (h : Settled owed o) : Settled owed (o.giveBack owed) where
  distinct := h.distinct
  ordered := by
    have : (o.sent ++ []).Sublist (o.sent ++ o.pending) :=
      (List.Sublist.refl _).append (List.nil_sublist _)
    exact this.trans h.ordered
  known x hx := by
    rcases List.mem_append.mp hx with hx | hx
    · exact h.known x hx
    · exact h.ordered.subset (List.mem_append_right _ (List.mem_of_mem_filter hx))
  once x hx how := by
    have := h.once x hx how
    simp only [Outbox.giveBack, List.count_append, List.count_nil, List.count_filter how]
    omega

end

end Outbox
