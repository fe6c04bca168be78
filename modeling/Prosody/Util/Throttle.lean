import Mathlib.Algebra.Order.Ring.Rat
import Mathlib.Algebra.Order.Field.Rat
import Mathlib.Data.NNRat.Defs
import Mathlib.Tactic.Linarith
import Mathlib.Tactic.Ring
import Prosody.Library.Simulation

/-! # The throttle (`util/throttle.lua`) -/

namespace Prosody.UtilThrottle

/-! ## The balance -/

structure Throttle where
  rate : ℚ
  max : ℚ
  t : ℚ
  balance : ℚ

def create (max period now : ℚ) : Throttle := ⟨max / period, max, now, max⟩

def update (now : ℚ) (s : Throttle) : Throttle :=
  let balance := s.rate * (now - s.t) + s.balance
  { s with t := now, balance := if s.max < balance then s.max else balance }

/-- The clock is only read where the balance does not suffice already. -/
def peek (now cost : ℚ) (s : Throttle) : Bool × Throttle :=
  if cost ≤ s.balance then (true, s)
  else (decide (cost ≤ (update now s).balance), update now s)

inductive Reply
  | enough (b : Bool)
  | granted
  | refused (balance missing : ℚ)

def spend (amount : ℚ) (s : Throttle) : Throttle := { s with balance := s.balance - amount }

def poll (now cost : ℚ) (split : Bool) (s : Throttle) : Reply × Throttle :=
  let peeked := peek now cost s
  if peeked.1 then (.granted, spend cost peeked.2)
  else
    (.refused peeked.2.balance (cost - peeked.2.balance),
      if split then { peeked.2 with balance := 0 } else peeked.2)

inductive Call
  | poll (cost : ℚ≥0) (split : Bool)
  | peek (cost : Option ℚ≥0)

def Call.cost : Call → ℚ
  | .poll cost _ => cost
  | .peek cost => cost.getD 1

structure Event where
  now : ℚ
  call : Call

def step (s : Throttle) (e : Event) : Reply × Throttle :=
  match e.call with
  | .poll cost split => poll e.now cost split s
  | .peek cost => (peek e.now (cost.getD 1) s).map .enough id

/-! ## What is granted -/

def spent : Call → Reply → ℚ
  | .poll cost _, .granted => cost
  | .poll _ true, .refused balance _ => balance
  | _, _ => 0

def grantedIn (start stop : ℚ) : Throttle → List Event → ℚ
  | _, [] => 0
  | s, e :: es =>
    (if start ≤ e.now ∧ e.now ≤ stop then spent e.call (step s e).1 else 0) +
      grantedIn start stop (step s e).2 es

/-- The clock does not go back. -/
def Timed : ℚ → List Event → Prop
  | _, [] => True
  | now, e :: es => now ≤ e.now ∧ Timed e.now es

structure Sound (s : Throttle) : Prop where
  rate_nonneg : 0 ≤ s.rate
  balance_nonneg : 0 ≤ s.balance
  balance_le : s.balance ≤ s.max

/-- What may have been granted up to a time, when the balance is refilled all the while. -/
def credit (s : Throttle) (now : ℚ) : ℚ := s.balance + s.rate * (now - s.t)

/-! ## One step -/

section Steps

variable {s : Throttle} {e : Event} {now amount : ℚ}

theorem Sound.update (h : Sound s) (ht : s.t ≤ now) : Sound (update now s) := by
  have hrate := h.rate_nonneg
  have hbalance := h.balance_nonneg
  have hle := h.balance_le
  have helapsed : 0 ≤ s.rate * (now - s.t) := mul_nonneg hrate (sub_nonneg.mpr ht)
  refine ⟨hrate, ?_, ?_⟩
  · change 0 ≤ if s.max < s.rate * (now - s.t) + s.balance then s.max else _
    split_ifs
    · exact hbalance.trans hle
    · exact add_nonneg helapsed hbalance
  · change (if s.max < s.rate * (now - s.t) + s.balance then s.max else _) ≤ s.max
    split_ifs with hfull
    · exact le_refl s.max
    · exact not_lt.mp hfull

theorem update_balance_le : (update now s).balance ≤ credit s now := by
  change (if s.max < s.rate * (now - s.t) + s.balance then s.max else _) ≤ _
  rw [credit, add_comm s.balance]
  split_ifs with hfull
  · exact hfull.le
  · exact le_refl _

theorem spend_balance : (spend amount s).balance = s.balance - amount := rfl

theorem credit_of_update {stop : ℚ} :
    credit (update now s) stop = (update now s).balance + s.rate * (stop - now) := rfl

theorem credit_spend : credit (spend amount s) now = credit s now - amount :=
  sub_add_eq_add_sub s.balance amount _

theorem credit_update {stop : ℚ} : credit (update now s) stop ≤ credit s stop := by
  have hle := @update_balance_le s now
  have hadd : credit s stop = credit s now + s.rate * (stop - now) := by
    rw [credit, credit]
    ring
  rw [hadd]
  exact add_le_add_left hle _

theorem Sound.spend (h : Sound s) (hnonneg : 0 ≤ amount) (hle : amount ≤ s.balance) :
    Sound (spend amount s) := by
  refine ⟨h.rate_nonneg, sub_nonneg.mpr hle, ?_⟩
  exact (sub_le_self s.balance hnonneg).trans h.balance_le

theorem Sound.credit_nonneg (h : Sound s) (ht : s.t ≤ now) : 0 ≤ credit s now :=
  add_nonneg h.balance_nonneg (mul_nonneg h.rate_nonneg (sub_nonneg.mpr ht))

/-- The throttle with the balance that the step takes from. -/
def seen (s : Throttle) (e : Event) : Throttle := (peek e.now e.call.cost s).2

theorem seen_eq : seen s e = s ∨ seen s e = update e.now s := by
  rw [seen, peek]
  split_ifs
  · exact .inl rfl
  · exact .inr rfl

theorem cost_le_of_peek {cost : ℚ} (h : (peek now cost s).1 = true) :
    cost ≤ (peek now cost s).2.balance := by
  rw [peek] at h ⊢
  split_ifs at h ⊢ with hcached
  · exact hcached
  · exact of_decide_eq_true h

theorem spend_zero : spend 0 s = s := by
  rw [spend, sub_zero]

theorem spend_all : spend s.balance s = { s with balance := 0 } := by
  rw [spend, sub_self]

/-- A step takes what is granted from the balance, and no more than there is. -/
theorem step_spends (hseen : 0 ≤ (seen s e).balance) :
    (step s e).2 = spend (spent e.call (step s e).1) (seen s e) ∧
      0 ≤ spent e.call (step s e).1 ∧ spent e.call (step s e).1 ≤ (seen s e).balance := by
  obtain ⟨now, call⟩ := e
  cases call with
  | peek cost => exact ⟨spend_zero.symm, le_refl 0, hseen⟩
  | poll cost split =>
    simp only [seen, step, poll] at hseen ⊢
    by_cases henough : (peek now cost s).1 = true
    · rw [if_pos henough]
      exact ⟨rfl, cost.coe_nonneg, cost_le_of_peek henough⟩
    · rw [if_neg henough]
      cases split with
      | false => exact ⟨spend_zero.symm, le_refl 0, hseen⟩
      | true => exact ⟨spend_all.symm, hseen, le_refl _⟩

theorem Sound.seen (h : Sound s) (ht : s.t ≤ e.now) : Sound (seen s e) := by
  obtain hseen | hseen := @seen_eq s e
  · rw [hseen]
    exact h
  · rw [hseen]
    exact h.update ht

theorem Sound.step (h : Sound s) (ht : s.t ≤ e.now) : Sound (step s e).2 := by
  have hseen := h.seen ht
  obtain ⟨hstep, hnonneg, hle⟩ := step_spends hseen.balance_nonneg
  rw [hstep]
  exact hseen.spend hnonneg hle

end Steps

/-! ## Whole runs -/

section Runs

variable {s : Throttle} {es : List Event} {start stop now : ℚ}

theorem Sound.rate_step (h : Sound s) {e : Event} (ht : s.t ≤ e.now) :
    (UtilThrottle.step s e).2.rate = s.rate ∧ (UtilThrottle.step s e).2.max = s.max ∧
      (UtilThrottle.step s e).2.t ≤ e.now := by
  rw [(step_spends (h.seen ht).balance_nonneg).1]
  obtain hseen | hseen := @seen_eq s e
  · rw [hseen]
    exact ⟨rfl, rfl, ht⟩
  · rw [hseen]
    exact ⟨rfl, rfl, le_refl e.now⟩

theorem Sound.credit_step (h : Sound s) {e : Event} (ht : s.t ≤ e.now) :
    spent e.call (UtilThrottle.step s e).1 + credit (UtilThrottle.step s e).2 stop ≤
      credit s stop := by
  rw [(step_spends (h.seen ht).balance_nonneg).1, credit_spend, add_sub_cancel]
  obtain heq | heq := @seen_eq s e
  · rw [heq]
  · rw [heq]
    exact credit_update

theorem grantedIn_after (h : Sound s) (hnow : s.t ≤ now) (htimed : Timed now es)
    (hstop : stop < now) : grantedIn start stop s es = 0 := by
  induction es generalizing s now with
  | nil => rfl
  | cons e es ih =>
    obtain ⟨he, htimed⟩ := htimed
    rw [grantedIn, if_neg (fun hin => absurd hin.2 (not_le.mpr (hstop.trans_le he))), zero_add]
    exact ih (h.step (hnow.trans he)) (h.rate_step (hnow.trans he)).2.2 htimed
      (hstop.trans_le he)

theorem grantedIn_le_credit (h : Sound s) (hnow : s.t ≤ now) (htimed : Timed now es)
    (hstop : now ≤ stop) : grantedIn start stop s es ≤ credit s stop := by
  induction es generalizing s now with
  | nil => exact h.credit_nonneg (hnow.trans hstop)
  | cons e es ih =>
    obtain ⟨he, htimed⟩ := htimed
    have ht := hnow.trans he
    have hpaid := @Sound.credit_step s stop h e ht
    have hnonneg := (step_spends (h.seen ht).balance_nonneg).2.1
    rw [grantedIn]
    obtain hin | hafter := le_or_gt e.now stop
    · have hrest := ih (h.step ht) (h.rate_step ht).2.2 htimed hin
      split_ifs
      · linarith
      · linarith
    · have hrest := @grantedIn_after _ es start stop e.now (h.step ht) (h.rate_step ht).2.2 htimed
        hafter
      rw [hrest, if_neg (fun hin => absurd hin.2 (not_le.mpr hafter)), zero_add]
      exact h.credit_nonneg (hnow.trans hstop)

theorem Sound.burst_nonneg (h : Sound s) (hstop : start ≤ stop) :
    0 ≤ s.max + s.rate * (stop - start) :=
  add_nonneg (h.balance_nonneg.trans h.balance_le)
    (mul_nonneg h.rate_nonneg (sub_nonneg.mpr hstop))

/-- What is cached is granted first, and the balance after the first refill is at most `max`. -/
theorem grantedIn_from (h : Sound s) (hnow : s.t ≤ now) (htimed : Timed now es)
    (hstart : start ≤ now) (hstop : start ≤ stop) :
    grantedIn start stop s es ≤ s.balance + (s.max + s.rate * (stop - start)) := by
  induction es generalizing s now with
  | nil => exact add_nonneg h.balance_nonneg (h.burst_nonneg hstop)
  | cons e es ih =>
    obtain ⟨he, htimed⟩ := htimed
    have ht := hnow.trans he
    obtain ⟨hstep, -, -⟩ := step_spends (h.seen ht).balance_nonneg
    obtain ⟨hrate, hmax, ht'⟩ := h.rate_step ht
    have hsound := h.step ht
    rw [grantedIn]
    obtain hafter | hin := lt_or_ge stop e.now
    · rw [grantedIn_after hsound ht' htimed hafter, add_zero,
        if_neg (fun hin => absurd hin.2 (not_le.mpr hafter))]
      exact add_nonneg h.balance_nonneg (h.burst_nonneg hstop)
    · rw [if_pos ⟨hstart.trans he, hin⟩]
      obtain heq | heq := @seen_eq s e
      · -- the clock is not read, and what is granted is gone from the balance
        have hrest := ih hsound ht' htimed (hstart.trans he)
        rw [hrate, hmax, hstep, heq, spend_balance] at hrest
        rw [hstep, heq]
        linarith
      · -- from the refill on there is no more than `max` and what is added with the time
        have hrest := @grantedIn_le_credit _ es start stop e.now hsound ht' htimed hin
        have hfull := (h.update ht).balance_le
        have hlater : s.rate * (stop - e.now) ≤ s.rate * (stop - start) :=
          mul_le_mul_of_nonneg_left (sub_le_sub_left (hstart.trans he) stop) h.rate_nonneg
        have hbalance := h.balance_nonneg
        rw [hstep, heq, credit_spend, credit_of_update] at hrest
        rw [hstep, heq]
        change (update e.now s).balance ≤ s.max at hfull
        linarith

/-- No interval gets more than two full balances and what is added with the time. -/
theorem grantedIn_le (h : Sound s) (hnow : s.t ≤ now) (htimed : Timed now es)
    (hstop : start ≤ stop) :
    grantedIn start stop s es ≤ s.max + (s.max + s.rate * (stop - start)) := by
  induction es generalizing s now with
  | nil => exact add_nonneg (h.balance_nonneg.trans h.balance_le) (h.burst_nonneg hstop)
  | cons e es ih =>
    have he := htimed.1
    have ht := hnow.trans he
    obtain hin | hbefore := le_or_gt start e.now
    · have hfrom := @grantedIn_from s (e :: es) start stop e.now h ht ⟨le_refl _, htimed.2⟩ hin
        hstop
      exact hfrom.trans (add_le_add_left h.balance_le _)
    · obtain ⟨hrate, hmax, ht'⟩ := h.rate_step ht
      have hrest := ih (h.step ht) ht' htimed.2
      rw [hrate, hmax] at hrest
      rw [grantedIn, if_neg (fun hin => absurd hin.1 (not_le.mpr hbefore)), zero_add]
      exact hrest

theorem balance_always {max : ℚ} (h : Sound s) (hmax : s.max = max) (hnow : s.t ≤ now)
    (htimed : Timed now es) :
    Machine.Always (Machine.next step) (fun s => 0 ≤ s.balance ∧ s.balance ≤ max) s es := by
  have hhere : 0 ≤ s.balance ∧ s.balance ≤ max := ⟨h.balance_nonneg, hmax ▸ h.balance_le⟩
  induction es generalizing s now with
  | nil => exact hhere
  | cons e es ih =>
    have ht := hnow.trans htimed.1
    obtain ⟨-, hmax', ht'⟩ := h.rate_step ht
    have hsound := h.step ht
    refine ⟨hhere, ih hsound (hmax'.trans hmax) ht' htimed.2 ⟨hsound.balance_nonneg, ?_⟩⟩
    rw [← hmax, ← hmax']
    exact hsound.balance_le

theorem sound_create {max period : ℚ} (hmax : 0 ≤ max) (hperiod : 0 < period) :
    Sound (create max period now) :=
  ⟨div_nonneg hmax hperiod.le, hmax, le_refl max⟩

/-- The balance stays between zero and `max`, and an interval gets at most two full balances and
what is added with the time. -/
theorem throttle_bound {max period : ℚ} (hmax : 0 ≤ max) (hperiod : 0 < period)
    (htimed : Timed now es) {d : ℚ} (hd : 0 ≤ d) :
    Machine.Always (Machine.next step) (fun s => 0 ≤ s.balance ∧ s.balance ≤ max)
        (create max period now) es ∧
      grantedIn start (start + d) (create max period now) es ≤ 2 * max + max / period * d := by
  have hsound : Sound (create max period now) := sound_create hmax hperiod
  constructor
  · exact balance_always hsound rfl (le_refl now) htimed
  · have hle := @grantedIn_le _ es start (start + d) now hsound (le_refl now) htimed
      (le_add_of_nonneg_right hd)
    rw [add_sub_cancel_left] at hle
    change _ ≤ max + (max + max / period * d) at hle
    linarith

/-- Ten at once, after as much time as it takes to refill them, and ten more with what was added
meanwhile. -/
def bursts : List Event := [⟨10, .poll 10 false⟩, ⟨10, .poll 10 false⟩]

theorem two_bursts_are_granted :
    ¬ grantedIn 10 (10 + 0) (create 10 10 0) bursts ≤ 10 + 10 / 10 * 0 := by
  decide +kernel

theorem bursts_bound :
    Machine.Always (Machine.next step) (fun s => 0 ≤ s.balance ∧ s.balance ≤ 10)
        (create 10 10 0) bursts ∧
      grantedIn 10 (10 + 0) (create 10 10 0) bursts ≤ 2 * 10 + 10 / 10 * 0 :=
  @throttle_bound bursts 10 0 10 10 (by decide) (by decide)
    ⟨by decide, by decide, trivial⟩ 0 (le_refl 0)

end Runs

end Prosody.UtilThrottle
