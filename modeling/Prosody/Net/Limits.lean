import Mathlib.Algebra.Group.Int.Defs
import Mathlib.Data.Rat.Floor
import Prosody.Library.Runs
import Prosody.Util.Throttle
import Prosody.Websocket.Frames

/-! # Rate limits (`plugins/mod_limits.lua`) -/

namespace Prosody.Limits

open UtilThrottle (Throttle Sound)
open Websocket (Bytes sub)

/-- The configured limits of a session type. -/
structure SessLimits where
  bytesPerSecond : ℕ
  burstSeconds : ℚ
  burst_pos : 0 < burstSeconds

structure Session where
  throttle : Throttle
  /-- The present time. -/
  now : ℚ
  /-- The session has a connection. -/
  conn : Bool
  paused : Bool
  /-- The outstanding data of the timers that have not fired. -/
  timers : List Bytes
  /-- Everything read from the connection. -/
  received : Bytes
  /-- Everything the filter has passed on. -/
  passed : Bytes

def filterHook (limits : SessLimits) (now : ℚ) : Session where
  throttle := UtilThrottle.create (limits.bytesPerSecond * limits.burstSeconds)
    limits.burstSeconds now
  now := now
  conn := true
  paused := false
  timers := []
  received := []
  passed := []

/-- A session is over its limit with some bytes, of which so many are missing. -/
def postpone (bytes : Bytes) (missing : ℚ) (s : Session) : Session :=
  let outstanding := ⌈missing⌉
  { s with
    paused := true
    timers := s.timers ++ [sub bytes (-outstanding) (-1)]
    passed := s.passed ++ sub bytes 1 (bytes.length - outstanding) }

def bytesIn (bytes : Bytes) (s : Session) : Session :=
  let polled := UtilThrottle.poll s.now bytes.length true s.throttle
  let s' := { s with throttle := polled.2 }
  match polled.1 with
  | .refused _ missing => postpone bytes missing s'
  | _ => { s' with passed := s'.passed ++ bytes }

def wait (elapsed : ℚ≥0) (s : Session) : Session := { s with now := s.now + elapsed }

/-- The callback of a timer, with the time that goes by before the outstanding data is handled. -/
def resume (outstanding : Bytes) (elapsed : ℚ≥0) (s : Session) : Session :=
  if s.conn then
    let peeked := UtilThrottle.peek s.now outstanding.length s.throttle
    bytesIn outstanding (wait elapsed
      { s with throttle := peeked.2, paused := s.paused && !peeked.1 })
  else s

/-- What happens to a session, each with the time that has gone by before. -/
inductive Input
  | read (elapsed : ℚ≥0) (bytes : Bytes)
  /-- One of the timers fires, and its data is handled after more time. -/
  | fire (elapsed : ℚ≥0) (i : ℕ) (meanwhile : ℚ≥0)
  | disconnect

/-- Nothing is read from a connection that is paused. -/
def step (s : Session) : Input → Session
  | .read elapsed bytes =>
    if s.conn ∧ s.paused = false then
      bytesIn bytes { wait elapsed s with received := s.received ++ bytes }
    else s
  | .fire elapsed i meanwhile =>
    match s.timers[i]? with
    | none => s
    | some outstanding =>
      resume outstanding meanwhile { wait elapsed s with timers := s.timers.eraseIdx i }
  | .disconnect => { s with conn := false }

/-! ## Nothing is lost -/

/-- What was read has been passed on or is outstanding, in this order, and a connection is paused
only for outstanding data. -/
structure Intact (s : Session) : Prop where
  passed_prefix : s.passed <+: s.received
  nothing_lost : s.conn = true → s.passed ++ s.timers.flatten = s.received
  not_left_paused : s.conn = true → s.timers = [] → s.paused = false

/-- The throttle suffices for the outstanding data when it is handled only if it did when the
timer fired. -/
def Prompt (s : Session) : Input → Prop
  | .fire elapsed i meanwhile =>
    ∀ outstanding, s.conn = true → s.timers[i]? = some outstanding →
      let peeked := UtilThrottle.peek (s.now + elapsed) outstanding.length s.throttle
      (UtilThrottle.peek (s.now + elapsed + meanwhile) outstanding.length peeked.2).1 = true →
        peeked.1 = true
  | _ => True

/-! ## Handling some data -/

section Handling

variable {t : Throttle} {s : Session} {bytes : Bytes} {now : ℚ} {k : ℕ}

theorem sub_first (hk : k ≤ bytes.length) :
    sub bytes 1 (bytes.length - k) = bytes.take (bytes.length - k) := by
  have hlast : ¬ (bytes.length : ℤ) - k < 0 := by omega
  simp only [sub, if_neg hlast]
  rw [show ((bytes.length : ℤ) - k).toNat = bytes.length - k from by omega]
  rfl

theorem sub_last (hpos : 0 < k) (hk : k ≤ bytes.length) :
    sub bytes (-k) (-1) = bytes.drop (bytes.length - k) := by
  have hfirst : -(k : ℤ) < 0 := by omega
  have hlast : (-1 : ℤ) < 0 := by omega
  simp only [sub, if_pos hfirst, if_pos hlast]
  rw [show ((bytes.length : ℤ) + -1 + 1).toNat = bytes.length from by omega, List.take_length]
  congr 1
  omega

theorem postpone_eq {missing : ℚ} (hpos : 0 < missing) (hle : missing ≤ bytes.length) :
    ∃ k, postpone bytes missing s =
      { s with
        paused := true
        timers := s.timers ++ [bytes.drop k]
        passed := s.passed ++ bytes.take k } := by
  obtain ⟨n, hn⟩ := Int.eq_ofNat_of_zero_le (Int.ceil_pos.mpr hpos).le
  have hnpos : 0 < n := by
    have := Int.ceil_pos.mpr hpos
    omega
  have hnle : n ≤ bytes.length := by
    have : ⌈missing⌉ ≤ (bytes.length : ℤ) := Int.ceil_le.mpr (by exact_mod_cast hle)
    omega
  refine ⟨bytes.length - n, ?_⟩
  unfold postpone
  rw [hn]
  change { s with
    paused := true
    timers := s.timers ++ [sub bytes (-(n : ℤ)) (-1)]
    passed := s.passed ++ sub bytes 1 (bytes.length - (n : ℤ)) } = _
  rw [sub_first hnle, sub_last hnpos hnle]

theorem peek_cases (cost : ℚ) :
    (UtilThrottle.peek now cost t).2 = t ∨
      (UtilThrottle.peek now cost t).2 = UtilThrottle.update now t := by
  unfold UtilThrottle.peek
  split_ifs
  · exact .inl rfl
  · exact .inr rfl

theorem sound_peek (h : Sound t) (ht : t.t ≤ now) (cost : ℚ) :
    Sound (UtilThrottle.peek now cost t).2 ∧ (UtilThrottle.peek now cost t).2.t ≤ now := by
  obtain hpeek | hpeek := @peek_cases t now cost
  · rw [hpeek]
    exact ⟨h, ht⟩
  · rw [hpeek]
    exact ⟨h.update ht, le_refl now⟩

theorem balance_lt_of_peek {cost : ℚ} (h : (UtilThrottle.peek now cost t).1 = false) :
    (UtilThrottle.peek now cost t).2.balance < cost := by
  unfold UtilThrottle.peek at h ⊢
  split_ifs at h ⊢ with hcached
  exact not_le.mp (of_decide_eq_false h)

theorem sound_poll (h : Sound t) (ht : t.t ≤ now) (n : ℕ) :
    Sound (UtilThrottle.poll now n true t).2 ∧ (UtilThrottle.poll now n true t).2.t ≤ now := by
  have hstep := @Sound.step t ⟨now, .poll n true⟩ h ht
  have hrate := @Sound.rate_step t h ⟨now, .poll n true⟩ ht
  have hcost : ((n : ℚ≥0) : ℚ) = n := NNRat.cast_natCast n
  simp only [UtilThrottle.step, hcost] at hstep hrate
  exact ⟨hstep, hrate.2.2⟩

theorem bytesIn_granted (hpeek : (UtilThrottle.peek s.now bytes.length s.throttle).1 = true) :
    bytesIn bytes s =
      { s with
        throttle := (UtilThrottle.poll s.now bytes.length true s.throttle).2
        passed := s.passed ++ bytes } := by
  have hpoll : (UtilThrottle.poll s.now bytes.length true s.throttle).1 = .granted := by
    simp only [UtilThrottle.poll, hpeek, if_true]
  unfold bytesIn
  simp only [hpoll]

theorem bytesIn_refused (h : Sound s.throttle) (ht : s.throttle.t ≤ s.now)
    (hpeek : (UtilThrottle.peek s.now bytes.length s.throttle).1 = false) :
    ∃ k, bytesIn bytes s =
      { s with
        throttle := (UtilThrottle.poll s.now bytes.length true s.throttle).2
        paused := true
        timers := s.timers ++ [bytes.drop k]
        passed := s.passed ++ bytes.take k } := by
  have hnonneg := (sound_peek h ht bytes.length).1.balance_nonneg
  have hlt := balance_lt_of_peek hpeek
  have hpoll : (UtilThrottle.poll s.now bytes.length true s.throttle).1 =
      .refused (UtilThrottle.peek s.now bytes.length s.throttle).2.balance
        (bytes.length - (UtilThrottle.peek s.now bytes.length s.throttle).2.balance) := by
    simp only [UtilThrottle.poll, hpeek, if_false, Bool.false_eq_true]
  unfold bytesIn
  simp only [hpoll]
  exact postpone_eq (sub_pos.mpr hlt) (sub_le_self _ hnonneg)

end Handling

/-! ## Runs -/

section Runs

variable {s : Session} {bytes : Bytes}

/-- A connected session has at most one timer, and is paused if and only if it has one. -/
structure Inv (s : Session) : Prop where
  sound : Sound s.throttle
  t_le : s.throttle.t ≤ s.now
  intact : Intact s
  timers : s.conn = true → s.timers = [] ∨ s.paused = true ∧ ∃ bytes, s.timers = [bytes]

theorem inv_filterHook (limits : SessLimits) (now : ℚ) : Inv (filterHook limits now) := by
  have hmax : 0 ≤ (limits.bytesPerSecond : ℚ) * limits.burstSeconds :=
    mul_nonneg (Nat.cast_nonneg _) limits.burst_pos.le
  refine ⟨UtilThrottle.sound_create hmax limits.burst_pos, le_refl now, ?_, ?_⟩
  · exact ⟨List.prefix_rfl, fun _ => rfl, fun _ _ => rfl⟩
  · exact fun _ => .inl rfl

theorem Inv.gone {s : Session} (hconn : s.conn = false) (sound : Sound s.throttle)
    (ht : s.throttle.t ≤ s.now) (hpassed : s.passed <+: s.received) : Inv s :=
  ⟨sound, ht,
    ⟨hpassed, fun h => absurd (hconn.symm.trans h) nofun,
      fun h => absurd (hconn.symm.trans h) nofun⟩,
    fun h => absurd (hconn.symm.trans h) nofun⟩

/-- Data that is all there is outstanding is handled, on a connection that is not paused unless the
data is over the limit. -/
theorem Inv.bytesIn (sound : Sound s.throttle) (ht : s.throttle.t ≤ s.now)
    (htimers : s.timers = []) (hdata : s.passed ++ bytes = s.received)
    (hpaused : (UtilThrottle.peek s.now bytes.length s.throttle).1 = true → s.paused = false) :
    Inv (bytesIn bytes s) := by
  obtain ⟨hsound, ht'⟩ := sound_poll sound ht bytes.length
  cases hpeek : (UtilThrottle.peek s.now bytes.length s.throttle).1 with
  | true =>
    rw [bytesIn_granted hpeek]
    refine ⟨hsound, ht', ⟨?_, ?_, ?_⟩, ?_⟩
    · change s.passed ++ bytes <+: s.received
      rw [hdata]
    · intro _
      change (s.passed ++ bytes) ++ s.timers.flatten = s.received
      rw [htimers, hdata]
      exact List.append_nil _
    · exact fun _ _ => hpaused hpeek
    · exact fun _ => .inl htimers
  | false =>
    obtain ⟨k, hk⟩ := bytesIn_refused sound ht hpeek
    rw [hk]
    refine ⟨hsound, ht', ⟨?_, ?_, ?_⟩, ?_⟩
    · change s.passed ++ bytes.take k <+: s.received
      rw [← hdata]
      exact (List.prefix_append_right_inj _).mpr (List.take_prefix k bytes)
    · intro _
      change (s.passed ++ bytes.take k) ++ (s.timers ++ [bytes.drop k]).flatten = s.received
      rw [htimers, List.nil_append, List.flatten_singleton, List.append_assoc,
        List.take_append_drop, hdata]
    · intro _ hnone
      exact absurd hnone (List.append_ne_nil_of_right_ne_nil _ (List.cons_ne_nil _ _))
    · refine fun _ => .inr ⟨rfl, bytes.drop k, ?_⟩
      change s.timers ++ [bytes.drop k] = [bytes.drop k]
      rw [htimers, List.nil_append]

theorem Inv.t_le_wait (h : Inv s) (elapsed : ℚ≥0) : s.throttle.t ≤ s.now + elapsed :=
  h.t_le.trans (le_add_of_nonneg_right elapsed.coe_nonneg)

theorem Inv.read (h : Inv s) (elapsed : ℚ≥0) : Inv (step s (.read elapsed bytes)) := by
  unfold step
  split_ifs with hread
  · obtain ⟨hconn, hpaused⟩ := hread
    have hnone : s.timers = [] := by
      obtain hnone | hone := h.timers hconn
      · exact hnone
      · exact absurd (hpaused.symm.trans hone.1) nofun
    have hpassed : s.passed = s.received := by
      have hlost := h.intact.nothing_lost hconn
      rw [hnone, List.flatten_nil, List.append_nil] at hlost
      exact hlost
    have hdata : s.passed ++ bytes = s.received ++ bytes := by rw [hpassed]
    exact Inv.bytesIn h.sound (h.t_le_wait elapsed) hnone hdata fun _ => hpaused
  · exact h

theorem Inv.disconnect (h : Inv s) : Inv (step s .disconnect) :=
  Inv.gone rfl h.sound h.t_le h.intact.passed_prefix

/-- The state in which the outstanding data is handled. -/
def due (elapsed meanwhile : ℚ≥0) (i : ℕ) (outstanding : Bytes) (s : Session) : Session :=
  let peeked := UtilThrottle.peek (s.now + elapsed) outstanding.length s.throttle
  { s with
    now := s.now + elapsed + meanwhile
    timers := s.timers.eraseIdx i
    throttle := peeked.2
    paused := s.paused && !peeked.1 }

theorem step_fire {elapsed meanwhile : ℚ≥0} {i : ℕ} {outstanding : Bytes} (hconn : s.conn = true)
    (hi : s.timers[i]? = some outstanding) :
    step s (.fire elapsed i meanwhile) =
      bytesIn outstanding (due elapsed meanwhile i outstanding s) := by
  simp only [step, hi]
  exact if_pos hconn

theorem Inv.only (h : Inv s) (hconn : s.conn = true) {i : ℕ} {outstanding : Bytes}
    (hi : s.timers[i]? = some outstanding) :
    s.timers.eraseIdx i = [] ∧ s.passed ++ outstanding = s.received := by
  obtain hnone | ⟨-, bytes, hone⟩ := h.timers hconn
  · rw [hnone] at hi
    exact absurd hi nofun
  · have hlost := h.intact.nothing_lost hconn
    rw [hone] at hi hlost
    rw [List.flatten_singleton] at hlost
    cases i with
    | zero =>
      obtain rfl : bytes = outstanding := Option.some.inj hi
      rw [hone]
      exact ⟨rfl, hlost⟩
    | succ i => exact absurd hi nofun

theorem Inv.fire (h : Inv s) {elapsed meanwhile : ℚ≥0} {i : ℕ}
    (hprompt : Prompt s (.fire elapsed i meanwhile)) :
    Inv (step s (.fire elapsed i meanwhile)) := by
  cases hi : s.timers[i]? with
  | none =>
    simp only [step, hi]
    exact h
  | some outstanding =>
    cases hconn : s.conn with
    | false =>
      have hstep : step s (.fire elapsed i meanwhile) =
          { wait elapsed s with timers := s.timers.eraseIdx i } := by
        simp only [step, hi]
        exact if_neg (by simp [wait, hconn])
      rw [hstep]
      exact Inv.gone hconn h.sound (h.t_le_wait elapsed) h.intact.passed_prefix
    | true =>
      rw [step_fire hconn hi]
      obtain ⟨hnone, hdata⟩ := h.only hconn hi
      obtain ⟨hsound, ht⟩ := sound_peek h.sound (h.t_le_wait elapsed) outstanding.length
      refine Inv.bytesIn hsound ?_ hnone hdata ?_
      · exact ht.trans (le_add_of_nonneg_right meanwhile.coe_nonneg)
      · intro hpeek
        have henough := hprompt outstanding hconn hi hpeek
        simp only [due, henough, Bool.not_true, Bool.and_false]

theorem inv_step (s : Session) (a : Input) (h : Inv s) (hprompt : Prompt s a) :
    Inv (step s a) := by
  cases a with
  | read elapsed bytes => exact h.read elapsed
  | fire elapsed i meanwhile => exact h.fire hprompt
  | disconnect => exact h.disconnect

theorem prompt_of_intact (s : Session) (a : Input) (h : Inv s) (hintact : Intact (step s a)) :
    Prompt s a := by
  cases a with
  | read elapsed bytes => trivial
  | disconnect => trivial
  | fire elapsed i meanwhile =>
    intro outstanding hconn hi peeked hpeek
    obtain ⟨hnone, -⟩ := h.only hconn hi
    have hpaused : s.paused = true := by
      obtain hnone | hone := h.timers hconn
      · rw [hnone] at hi
        exact absurd hi nofun
      · exact hone.1
    have hgranted :=
      @bytesIn_granted (due elapsed meanwhile i outstanding s) outstanding hpeek
    rw [step_fire hconn hi, hgranted] at hintact
    have hresumed := hintact.not_left_paused
    simp only [due, hpaused, Bool.true_and, Bool.not_eq_false'] at hresumed
    exact hresumed hconn hnone

/-- Nothing is lost, and a connection is paused only for outstanding data, if and only if no
timer finds too little that suffices when the data is handled. -/
theorem intact_iff (limits : SessLimits) (now : ℚ) (inputs : List Input) :
    Machine.Always step Intact (filterHook limits now) inputs ↔
      Machine.Guarded step Prompt (filterHook limits now) inputs :=
  Machine.always_iff_guarded (fun _ h => h.intact) inv_step prompt_of_intact
    (inv_filterHook limits now) inputs

/-- Ten bytes a second, of which one second's worth may come at once. -/
def slow : SessLimits := ⟨10, 1, by decide⟩

/-- Eleven bytes, and a timer that fires just before the balance suffices for the last. -/
def eleven : List Input :=
  [.read 0 (List.replicate 11 0), .fire (9 / 100) 0 (1 / 100)]

theorem stays_paused : ¬ Machine.Always step Intact (filterHook slow 0) eleven := by
  intro h
  have hintact := Machine.always_iff.mp h eleven List.prefix_rfl
  have hpaused : (Machine.run step (filterHook slow 0) eleven).paused = true := by decide +kernel
  have hresumed := hintact.not_left_paused (by decide +kernel) (by decide +kernel)
  exact absurd (hpaused.symm.trans hresumed) nofun

end Runs

end Prosody.Limits
