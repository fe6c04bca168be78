import Mathlib.Algebra.Group.Int.Defs
import Mathlib.Algebra.Order.Field.Rat
import Mathlib.Data.List.Nodup
import Mathlib.Data.List.Sort
import Mathlib.Data.NNRat.Defs
import Mathlib.Logic.Function.Basic
import Prosody.Library.Logs
import Prosody.Library.Runs

/-! # Timers of the epoll backend (`net/server_epoll.lua`)

Timers are numbered in the order in which they are made. The array `timers` holds their numbers,
and what is in a timer is kept for each number, whether it is in the array or not. -/

namespace Prosody.Timers

/-! ## What happens to a timer -/

inductive Event
  | added (timer : ℕ) (due : ℚ)
  | closed (timer : ℕ)
  /-- The due time is overwritten in place. -/
  | moved (timer : ℕ) (due : ℚ)
  /-- The callback is called. -/
  | ran (timer : ℕ) (now : ℚ)
  /-- The callback has returned a delay. -/
  | again (timer : ℕ) (due : ℚ)
  /-- The callback has returned no delay. -/
  | done (timer : ℕ)
  /-- `runtimers` returns how long to wait. -/
  | returned (now minWait delay : ℚ)
deriving DecidableEq

/-- The due times of the timers that are outstanding. -/
abbrev Agenda := ℕ → Option ℚ

namespace Agenda

/-- A timer that is outstanding gets another due time. -/
def move (a : Agenda) (timer : ℕ) (due : ℚ) : Agenda :=
  Function.update a timer ((a timer).map fun _ => due)

def after (a : Agenda) : Event → Agenda
  | .added timer due => Function.update a timer (some due)
  | .closed timer | .done timer => Function.update a timer none
  | .moved timer due | .again timer due => a.move timer due
  | .ran .. | .returned .. => a

end Agenda

def agenda (log : List Event) : Agenda := log.foldl Agenda.after fun _ => none

/-- A callback runs when its timer is due, and neither after the timer was closed nor after the
callback has returned no delay. No timer is overslept. -/
def Punctual (past : List Event) : Event → Prop
  | .ran timer now =>
    (∃ due, agenda past timer = some due ∧ due ≤ now) ∧
      .closed timer ∉ past ∧ .done timer ∉ past
  | .returned now minWait delay =>
    ∀ timer due, agenda past timer = some due → delay ≤ max minWait (due - now)
  | _ => True

/-! ## The timers -/

/-- The fields `_readtimeout` and `_writetimeout` of an interface. -/
inductive Timeout
  | read
  | write
deriving DecidableEq

structure Config where
  readTimeout : ℚ
  writeTimeout : ℚ

def Config.timeout (cfg : Config) : Timeout → ℚ
  | .read => cfg.readTimeout
  | .write => cfg.writeTimeout

/-- The argument of `setreadtimeout` and `setwritetimeout`: `false`, absent, or a number. -/
inductive Argument
  | off
  | default
  | seconds (t : ℚ)

def Argument.value (cfg : Config) (kind : Timeout) : Argument → Option ℚ
  | .off => none
  | .default => some (cfg.timeout kind)
  | .seconds t => some t

structure State where
  /-- The present time. -/
  now : ℚ≥0
  made : ℕ
  due : ℕ → ℚ
  /-- The callback has been replaced by `noop`. -/
  noop : ℕ → Bool
  timers : List ℕ
  resortTimers : Bool
  /-- The timeouts that interfaces, known by their numbers, refer to. -/
  timeouts : ℕ → Timeout → Option ℕ
  log : List Event

def start (now : ℚ≥0) : State where
  now := now
  made := 0
  due := fun _ => 0
  noop := fun _ => false
  timers := []
  resortTimers := false
  timeouts := fun _ _ => none
  log := []

namespace State

variable (s : State)

def wait (elapsed : ℚ≥0) : State := { s with now := s.now + elapsed }

def emit (e : Event) : State := { s with log := s.log ++ [e] }

def closetimer (timer : ℕ) : State :=
  { s with
    due := Function.update s.due timer 0
    noop := Function.update s.noop timer true }.emit (.closed timer)

/-- `at`. The number of the timer is `made` as it was before. -/
def atTime (time : ℚ) : State :=
  { s with
    made := s.made + 1
    due := Function.update s.due s.made time
    noop := Function.update s.noop s.made false
    timers := s.timers ++ [s.made]
    resortTimers := true }.emit (.added s.made time)

def addtimer (timeout : ℚ) : State := s.atTime (s.now + timeout)

def overwrite (timer : ℕ) (time : ℚ) : State :=
  { s with
    due := Function.update s.due timer time
    resortTimers := true }.emit (.moved timer time)

def setTimeouts (interface : ℕ) (kind : Timeout) (timer : Option ℕ) : State :=
  { s with
    timeouts := Function.update s.timeouts interface
      (Function.update (s.timeouts interface) kind timer) }

/-- `setreadtimeout` and `setwritetimeout`, with `none` for `false`. -/
def settimeout (interface : ℕ) (kind : Timeout) (t : Option ℚ) : State :=
  match t, s.timeouts interface kind with
  | none, none => s
  | none, some timer => (s.closetimer timer).setTimeouts interface kind none
  | some t, some timer => s.overwrite timer (s.now + t)
  | some t, none => (s.addtimer t).setTimeouts interface kind (some s.made)

def setreadtimeout (cfg : Config) (interface : ℕ) (t : Argument) : State :=
  s.settimeout interface .read (t.value cfg .read)

def setwritetimeout (cfg : Config) (interface : ℕ) (t : Argument) : State :=
  s.settimeout interface .write (t.value cfg .write)

end State

/-! ## Running them -/

/-- What may be done to timers, by anyone and in callbacks. -/
inductive Edit
  | atTime (time : ℚ)
  | addtimer (timeout : ℚ)
  | close (timer : ℕ)
  | setreadtimeout (interface : ℕ) (t : Argument)
  | setwritetimeout (interface : ℕ) (t : Argument)

/-- Only a timer that has been made can be closed. -/
def edit (cfg : Config) (s : State) : Edit → State
  | .atTime time => s.atTime time
  | .addtimer timeout => s.addtimer timeout
  | .close timer => if timer < s.made then s.closetimer timer else s
  | .setreadtimeout interface t => s.setreadtimeout cfg interface t
  | .setwritetimeout interface t => s.setwritetimeout cfg interface t

/-- Edits, each with the time that goes by before. -/
def edits (cfg : Config) (s : State) (es : List (ℚ≥0 × Edit)) : State :=
  es.foldl (fun s e => edit cfg (s.wait e.1) e.2) s

/-- What happens around one position of the array: the time that goes by before the clock is
read, and what the callback does and returns if it is called. -/
structure Turn where
  elapsed : ℚ≥0
  callback : List (ℚ≥0 × Edit)
  result : Option ℚ

/-- `table.sort` with the latest timers first. -/
structure Sorting where
  sort : (ℕ → ℚ) → List ℕ → List ℕ
  perm : ∀ due timers, (sort due timers).Perm timers
  sorted : ∀ due timers, (sort due timers).Pairwise fun timer timer' => due timer' ≤ due timer

def Sorting.stable : Sorting where
  sort := fun due timers => timers.insertionSort fun timer timer' => due timer' ≤ due timer
  perm := fun _ timers => List.perm_insertionSort _ timers
  sorted := by
    intro due timers
    have : Std.Total fun timer timer' => due timer' ≤ due timer :=
      ⟨fun timer timer' => le_total (due timer') (due timer)⟩
    have : IsTrans ℕ fun timer timer' => due timer' ≤ due timer := ⟨fun _ _ _ h h' => h'.trans h⟩
    exact List.pairwise_insertionSort _ timers

def call (cfg : Config) (turn : Turn) (timer : ℕ) (s : State) : State :=
  if s.noop timer then s else edits cfg (s.emit (.ran timer s.now)) turn.callback

def newTimeout (turn : Turn) (timer : ℕ) (s : State) : Option ℚ :=
  if s.noop timer then none else turn.result

/-- When the timer is due next, from when it was due and the time it was found to be. -/
def nextDue (t now delay : ℚ) : ℚ := if now - delay < t + delay then t + delay else now + delay

def fire (cfg : Config) (turn : Turn) (i timer : ℕ) (s : State) : State :=
  let s' := call cfg turn timer s
  match newTimeout turn timer s with
  | some delay =>
    let due := nextDue (s.due timer) s.now delay
    { s' with due := Function.update s'.due timer due, resortTimers := true }.emit
      (.again timer due)
  | none => { s' with timers := s'.timers.eraseIdx i }.emit (.done timer)

/-- The loop over the first so many positions, from the last one on. -/
def visit (cfg : Config) (turns : ℕ → Turn) : ℕ → ℚ → State → ℚ × State
  | 0, nextDelay, s => (nextDelay, s)
  | i + 1, nextDelay, s =>
    match s.timers[i]? with
    | none => (nextDelay, s)
    | some timer =>
      let s' := s.wait (turns i).elapsed
      if s'.now < s.due timer then
        let diff := s.due timer - s'.now
        (if diff < nextDelay then diff else nextDelay, s')
      else visit cfg turns i nextDelay (fire cfg (turns i) i timer s')

def resort (sorting : Sorting) (s : State) : State :=
  if s.resortTimers then
    { s with timers := sorting.sort s.due s.timers, resortTimers := false }
  else s

def runtimers (cfg : Config) (sorting : Sorting) (turns : ℕ → Turn) (nextDelay minWait : ℚ)
    (s : State) : State :=
  if s.timers = [] then s.emit (.returned s.now minWait nextDelay)
  else
    let visited := visit cfg turns s.timers.length nextDelay (resort sorting s)
    let s' := visited.2
    s'.emit (.returned s'.now minWait
      (if s'.resortTimers ∨ visited.1 < minWait then minWait else visited.1))

inductive Call
  | edit (elapsed : ℚ≥0) (e : Edit)
  | runtimers (sorting : Sorting) (turns : ℕ → Turn) (nextDelay minWait : ℚ)

def step (cfg : Config) (s : State) : Call → State
  | .edit elapsed e => edit cfg (s.wait elapsed) e
  | .runtimers sorting turns nextDelay minWait =>
    runtimers cfg sorting turns nextDelay minWait s

/-! ## What the array says -/

/-- Timers in the array are in the order in which the loop takes them, those that were closed
apart. -/
def Ordered (s : State) (timer timer' : ℕ) : Prop :=
  s.noop timer = true ∨ s.due timer' ≤ 0 ∨ s.due timer' ≤ s.due timer

def Ended (log : List Event) (timer : ℕ) : Prop := .closed timer ∈ log ∨ .done timer ∈ log

/-- The timers of the array that are not closed are outstanding, and the array is sorted unless
the flag is set. -/
structure Inv (s : State) : Prop where
  listed : ∀ timer due, agenda s.log timer = some due ↔
    timer ∈ s.timers ∧ s.noop timer = false ∧ s.due timer = due
  nodup : s.timers.Nodup
  made : ∀ timer ∈ s.timers, timer < s.made
  ended : ∀ timer, Ended s.log timer → timer < s.made ∧ agenda s.log timer = none
  timeouts : ∀ interface kind timer, s.timeouts interface kind = some timer → timer < s.made
  sorted : s.resortTimers = false → s.timers.Pairwise (Ordered s)
  punctual : Throughout Punctual s.log

section

variable {s s' : State} {timer : ℕ} {log : List Event} {e : Event}

theorem agenda_concat : agenda (log ++ [e]) = (agenda log).after e := List.foldl_concat _ _ _ _

theorem move_eq_none {a : Agenda} {timer' : ℕ} {due : ℚ} (h : a timer' = none) :
    a.move timer due timer' = none := by
  by_cases heq : timer' = timer
  · subst heq
    simp [Agenda.move, h]
  · rw [Agenda.move, Function.update_of_ne heq, h]

theorem not_ended_of_agenda (h : Inv s) {due : ℚ} (hdue : agenda s.log timer = some due) :
    ¬ Ended s.log timer :=
  fun hended => absurd (hdue.symm.trans (h.ended timer hended).2) nofun

/-! ## Edits -/

theorem inv_start (now : ℚ≥0) : Inv (start now) where
  listed := fun timer due => ⟨nofun, fun h => absurd h.1 List.not_mem_nil⟩
  nodup := List.nodup_nil
  made := nofun
  ended := fun timer h => absurd h (by simp [Ended, start])
  timeouts := nofun
  sorted := fun _ => List.Pairwise.nil
  punctual := throughout_nil

theorem Inv.wait (h : Inv s) (elapsed : ℚ≥0) : Inv (s.wait elapsed) :=
  ⟨h.listed, h.nodup, h.made, h.ended, h.timeouts, h.sorted, h.punctual⟩

theorem Inv.closetimer (h : Inv s) (hmade : timer < s.made) : Inv (s.closetimer timer) where
  listed := by
    intro timer' due
    change agenda (s.log ++ [Event.closed timer]) timer' = some due ↔
      timer' ∈ s.timers ∧ Function.update s.noop timer true timer' = false ∧
        Function.update s.due timer 0 timer' = due
    rw [agenda_concat, Agenda.after]
    by_cases heq : timer' = timer
    · subst heq
      simp
    · rw [Function.update_of_ne heq, Function.update_of_ne heq, Function.update_of_ne heq]
      exact h.listed timer' due
  nodup := h.nodup
  made := h.made
  ended := by
    intro timer' hended
    change timer' < s.made ∧ agenda (s.log ++ [Event.closed timer]) timer' = none
    rw [agenda_concat, Agenda.after]
    by_cases heq : timer' = timer
    · subst heq
      exact ⟨hmade, Function.update_self _ _ _⟩
    · rw [Function.update_of_ne heq]
      apply h.ended timer'
      simpa [Ended, State.closetimer, State.emit, heq] using hended
  timeouts := h.timeouts
  sorted := by
    intro hresort
    refine (h.sorted hresort).imp ?_
    intro a b hab
    change Function.update s.noop timer true a = true ∨ Function.update s.due timer 0 b ≤ 0 ∨
      Function.update s.due timer 0 b ≤ Function.update s.due timer 0 a
    by_cases ha : a = timer
    · subst ha
      exact .inl (Function.update_self _ _ _)
    · by_cases hb : b = timer
      · subst hb
        exact .inr (.inl (le_of_eq (Function.update_self _ _ _)))
      · rw [Function.update_of_ne ha, Function.update_of_ne ha, Function.update_of_ne hb]
        exact hab
  punctual := throughout_concat.mpr ⟨h.punctual, trivial⟩

theorem Inv.atTime (h : Inv s) (time : ℚ) : Inv (s.atTime time) where
  listed := by
    intro timer due
    change agenda (s.log ++ [Event.added s.made time]) timer = some due ↔
      timer ∈ s.timers ++ [s.made] ∧ Function.update s.noop s.made false timer = false ∧
        Function.update s.due s.made time timer = due
    rw [agenda_concat, Agenda.after]
    by_cases heq : timer = s.made
    · subst heq
      simp
    · rw [Function.update_of_ne heq, Function.update_of_ne heq, Function.update_of_ne heq,
        List.mem_append, List.mem_singleton, or_iff_left heq]
      exact h.listed timer due
  nodup := by
    refine List.nodup_append.mpr ⟨h.nodup, List.nodup_singleton _, ?_⟩
    intro timer htimer timer' hnew
    rw [List.mem_singleton.mp hnew]
    exact (h.made timer htimer).ne
  made := by
    intro timer htimer
    obtain hold | hnew := List.mem_append.mp htimer
    · exact Nat.lt_succ_of_lt (h.made timer hold)
    · rw [List.mem_singleton.mp hnew]
      exact Nat.lt_succ_self s.made
  ended := by
    intro timer hended
    have hended : Ended s.log timer := by
      simpa [Ended, State.atTime, State.emit] using hended
    obtain ⟨hmade, hnone⟩ := h.ended timer hended
    refine ⟨Nat.lt_succ_of_lt hmade, ?_⟩
    change agenda (s.log ++ [Event.added s.made time]) timer = none
    rw [agenda_concat, Agenda.after, Function.update_of_ne hmade.ne]
    exact hnone
  timeouts := fun interface kind timer htimer =>
    Nat.lt_succ_of_lt (h.timeouts interface kind timer htimer)
  sorted := nofun
  punctual := throughout_concat.mpr ⟨h.punctual, trivial⟩

theorem Inv.overwritten (h : Inv s) {due : ℚ} (he : e = .moved timer due ∨ e = .again timer due) :
    Inv ({ s with due := Function.update s.due timer due, resortTimers := true }.emit e) := by
  have hafter : ∀ a : Agenda, a.after e = a.move timer due := by
    obtain rfl | rfl := he
    · exact fun _ => rfl
    · exact fun _ => rfl
  have hended : ∀ timer', Ended (s.log ++ [e]) timer' → Ended s.log timer' := by
    obtain rfl | rfl := he
    · simp [Ended]
    · simp [Ended]
  have hpunctual : Punctual s.log e := by
    obtain rfl | rfl := he
    · trivial
    · trivial
  refine ⟨?_, h.nodup, h.made, ?_, h.timeouts, nofun, ?_⟩
  · intro timer' due'
    change agenda (s.log ++ [e]) timer' = some due' ↔
      timer' ∈ s.timers ∧ s.noop timer' = false ∧ Function.update s.due timer due timer' = due'
    rw [agenda_concat, hafter, Agenda.move]
    by_cases heq : timer' = timer
    · subst heq
      rw [Function.update_self, Function.update_self, Option.map_eq_some_iff]
      constructor
      · intro hsome
        obtain ⟨old, hold, hdue⟩ := hsome
        obtain ⟨hmem, hnoop, -⟩ := (h.listed timer' old).mp hold
        exact ⟨hmem, hnoop, hdue⟩
      · intro hlisted
        obtain ⟨hmem, hnoop, hdue⟩ := hlisted
        exact ⟨s.due timer', (h.listed timer' _).mpr ⟨hmem, hnoop, rfl⟩, hdue⟩
    · rw [Function.update_of_ne heq, Function.update_of_ne heq]
      exact h.listed timer' due'
  · intro timer' htimer'
    obtain ⟨hmade, hnone⟩ := h.ended timer' (hended timer' htimer')
    refine ⟨hmade, ?_⟩
    change agenda (s.log ++ [e]) timer' = none
    rw [agenda_concat, hafter]
    exact move_eq_none hnone
  · exact throughout_concat.mpr ⟨h.punctual, hpunctual⟩

theorem Inv.setTimeouts (h : Inv s) (interface : ℕ) (kind : Timeout) {handle : Option ℕ}
    (hmade : ∀ timer, handle = some timer → timer < s.made) :
    Inv (s.setTimeouts interface kind handle) := by
  refine ⟨h.listed, h.nodup, h.made, h.ended, ?_, h.sorted, h.punctual⟩
  intro interface' kind' timer htimer
  change Function.update s.timeouts interface
    (Function.update (s.timeouts interface) kind handle) interface' kind' = some timer at htimer
  by_cases hi : interface' = interface
  · subst hi
    rw [Function.update_self] at htimer
    by_cases hk : kind' = kind
    · subst hk
      rw [Function.update_self] at htimer
      exact hmade timer htimer
    · rw [Function.update_of_ne hk] at htimer
      exact h.timeouts interface' kind' timer htimer
  · rw [Function.update_of_ne hi] at htimer
    exact h.timeouts interface' kind' timer htimer

theorem Inv.settimeout (h : Inv s) (interface : ℕ) (kind : Timeout) (t : Option ℚ) :
    Inv (s.settimeout interface kind t) := by
  unfold State.settimeout
  cases hhandle : s.timeouts interface kind with
  | none =>
    cases t with
    | none => exact h
    | some t =>
      refine (h.atTime (s.now + t)).setTimeouts interface kind ?_
      intro timer htimer
      obtain rfl := Option.some.inj htimer
      exact Nat.lt_succ_self s.made
  | some timer =>
    have hmade := h.timeouts interface kind timer hhandle
    cases t with
    | none => exact (h.closetimer hmade).setTimeouts interface kind nofun
    | some t => exact h.overwritten (.inl rfl)

theorem Inv.edit (cfg : Config) (h : Inv s) (e : Edit) : Inv (edit cfg s e) := by
  cases e with
  | atTime time => exact h.atTime time
  | addtimer timeout => exact h.atTime (s.now + timeout)
  | close timer =>
    change Inv (if timer < s.made then s.closetimer timer else s)
    split_ifs with hmade
    · exact h.closetimer hmade
    · exact h
  | setreadtimeout interface t => exact h.settimeout interface .read (t.value cfg .read)
  | setwritetimeout interface t => exact h.settimeout interface .write (t.value cfg .write)

theorem Inv.edits (cfg : Config) (h : Inv s) (es : List (ℚ≥0 × Edit)) : Inv (edits cfg s es) :=
  Machine.run_invariant (fun _ e h => (h.wait e.1).edit cfg e.2) h es

/-! ## What edits leave as it is -/

/-- Timers were added at the end of the array, and the flag was set if there are any. -/
structure Edited (s s' : State) : Prop where
  timers : ∃ new, s'.timers = s.timers ++ new ∧ (s'.resortTimers = false → new = [])
  resort : s'.resortTimers = false → s.resortTimers = false

theorem Edited.kept (htimers : s'.timers = s.timers)
    (hresort : s'.resortTimers = false → s.resortTimers = false) : Edited s s' :=
  ⟨⟨[], htimers.trans (List.append_nil _).symm, fun _ => rfl⟩, hresort⟩

theorem Edited.trans {s'' : State} (h : Edited s s') (h' : Edited s' s'') : Edited s s'' := by
  obtain ⟨new, hnew, hnone⟩ := h.timers
  obtain ⟨new', hnew', hnone'⟩ := h'.timers
  refine ⟨⟨new ++ new', by rw [hnew', hnew, List.append_assoc], ?_⟩,
    fun hresort => h.resort (h'.resort hresort)⟩
  intro hresort
  rw [hnone (h'.resort hresort), hnone' hresort]
  rfl

theorem edited_atTime (s : State) (time : ℚ) : Edited s (s.atTime time) :=
  ⟨⟨[s.made], rfl, nofun⟩, nofun⟩

theorem edited_settimeout (s : State) (interface : ℕ) (kind : Timeout) (t : Option ℚ) :
    Edited s (s.settimeout interface kind t) := by
  unfold State.settimeout
  cases s.timeouts interface kind with
  | none =>
    cases t with
    | none => exact .kept rfl id
    | some t => exact ⟨⟨[s.made], rfl, nofun⟩, nofun⟩
  | some timer =>
    cases t with
    | none => exact .kept rfl id
    | some t => exact .kept rfl nofun

theorem edited_edit (cfg : Config) (s : State) (e : Edit) : Edited s (edit cfg s e) := by
  cases e with
  | atTime time => exact edited_atTime s time
  | addtimer timeout => exact edited_atTime s _
  | close timer =>
    change Edited s (if timer < s.made then s.closetimer timer else s)
    split_ifs
    · exact .kept rfl id
    · exact .kept rfl id
  | setreadtimeout interface t => exact edited_settimeout s interface .read _
  | setwritetimeout interface t => exact edited_settimeout s interface .write _

theorem edited_edits (cfg : Config) (s : State) (es : List (ℚ≥0 × Edit)) :
    Edited s (edits cfg s es) := by
  induction es generalizing s with
  | nil => exact .kept rfl id
  | cons e es ih =>
    have hwait : Edited s (s.wait e.1) := .kept rfl id
    exact (hwait.trans (edited_edit cfg _ e.2)).trans (ih _)

/-! ## One position of the array -/

variable {cfg : Config} {turn : Turn} {turns : ℕ → Turn} {i : ℕ}

theorem Inv.call (h : Inv s) (hmem : timer ∈ s.timers) (hdue : s.due timer ≤ s.now) :
    Inv (call cfg turn timer s) := by
  unfold Timers.call
  split_ifs with hnoop
  · exact h
  · have hnoop : s.noop timer = false := Bool.eq_false_iff.mpr hnoop
    have hagenda : agenda s.log timer = some (s.due timer) :=
      (h.listed timer _).mpr ⟨hmem, hnoop, rfl⟩
    obtain ⟨hclosed, hdone⟩ := not_or.mp (not_ended_of_agenda h hagenda)
    have hran : Inv (s.emit (.ran timer s.now)) := by
      refine ⟨?_, h.nodup, h.made, ?_, h.timeouts, h.sorted, ?_⟩
      · intro timer' due
        change agenda (s.log ++ [Event.ran timer s.now]) timer' = some due ↔ _
        rw [agenda_concat]
        exact h.listed timer' due
      · intro timer' hended
        change timer' < s.made ∧ agenda (s.log ++ [Event.ran timer s.now]) timer' = none
        rw [agenda_concat]
        apply h.ended timer'
        simpa [Ended, State.emit] using hended
      · exact throughout_concat.mpr
          ⟨h.punctual, ⟨s.due timer, hagenda, hdue⟩, hclosed, hdone⟩
    exact hran.edits cfg turn.callback

theorem edited_call : Edited s (call cfg turn timer s) := by
  unfold call
  split_ifs
  · exact .kept rfl id
  · have hran : Edited s (s.emit (.ran timer s.now)) := .kept rfl id
    exact hran.trans (edited_edits cfg _ _)

theorem Inv.done (h : Inv s) (hi : s.timers[i]? = some timer) :
    Inv ({ s with timers := s.timers.eraseIdx i }.emit (.done timer)) := by
  obtain ⟨hlt, hget⟩ := List.getElem?_eq_some_iff.mp hi
  have hmem : timer ∈ s.timers := List.mem_of_getElem? hi
  have herase : s.timers.eraseIdx i = s.timers.erase timer := by
    rw [← hget]
    exact (h.nodup.erase_getElem i hlt).symm
  have hsub : (s.timers.erase timer).Sublist s.timers := List.erase_sublist
  rw [herase]
  refine ⟨?_, h.nodup.sublist hsub, fun timer' hmem' => h.made timer' (hsub.subset hmem'), ?_,
    h.timeouts, fun hresort => (h.sorted hresort).sublist hsub, ?_⟩
  · intro timer' due
    change agenda (s.log ++ [Event.done timer]) timer' = some due ↔
      timer' ∈ s.timers.erase timer ∧ s.noop timer' = false ∧ s.due timer' = due
    rw [agenda_concat, Agenda.after, h.nodup.mem_erase_iff]
    by_cases heq : timer' = timer
    · subst heq
      simp
    · rw [Function.update_of_ne heq, and_iff_right heq]
      exact h.listed timer' due
  · intro timer' hended
    change timer' < s.made ∧ agenda (s.log ++ [Event.done timer]) timer' = none
    rw [agenda_concat, Agenda.after]
    by_cases heq : timer' = timer
    · subst heq
      exact ⟨h.made timer' hmem, Function.update_self _ _ _⟩
    · rw [Function.update_of_ne heq]
      apply h.ended timer'
      simpa [Ended, State.emit, heq] using hended
  · exact throughout_concat.mpr ⟨h.punctual, trivial⟩

theorem Inv.fire (h : Inv s) (hi : s.timers[i]? = some timer) (hdue : s.due timer ≤ s.now) :
    Inv (fire cfg turn i timer s) := by
  have hcall : Inv (Timers.call cfg turn timer s) := h.call (List.mem_of_getElem? hi) hdue
  unfold Timers.fire
  cases newTimeout turn timer s with
  | some delay => exact hcall.overwritten (.inr rfl)
  | none =>
    refine hcall.done ?_
    obtain ⟨new, hnew, -⟩ := (@edited_call s timer cfg turn).timers
    rw [hnew, List.getElem?_append_left (List.getElem?_eq_some_iff.mp hi).1]
    exact hi

theorem length_fire (hi : i + 1 ≤ s.timers.length) :
    i ≤ (fire cfg turn i timer s).timers.length ∧
      ((fire cfg turn i timer s).resortTimers = false →
        s.resortTimers = false ∧
          (fire cfg turn i timer s).timers.length + 1 = s.timers.length) := by
  obtain ⟨⟨new, hnew, hnone⟩, hresort⟩ := @edited_call s timer cfg turn
  have hlength := congrArg List.length hnew
  rw [List.length_append] at hlength
  unfold fire
  cases newTimeout turn timer s with
  | some delay =>
    refine ⟨?_, nofun⟩
    change i ≤ (call cfg turn timer s).timers.length
    omega
  | none =>
    change i ≤ ((call cfg turn timer s).timers.eraseIdx i).length ∧
      ((call cfg turn timer s).resortTimers = false → s.resortTimers = false ∧
        ((call cfg turn timer s).timers.eraseIdx i).length + 1 = s.timers.length)
    have herase := List.length_eraseIdx_of_lt (l := (call cfg turn timer s).timers)
      (i := i) (by omega)
    refine ⟨by omega, fun hflag => ⟨hresort hflag, ?_⟩⟩
    have hlength' : new.length = 0 := by rw [hnone hflag, List.length_nil]
    omega

/-! ## The loop -/

/-- No timer that is outstanding is due before the delay is over. -/
def Within (s : State) (delay : ℚ) : Prop :=
  ∀ timer due, agenda s.log timer = some due → delay ≤ due - s.now

theorem Inv.within (h : Inv s) (hresort : s.resortTimers = false)
    (hlength : s.timers.length = i + 1) (hi : s.timers[i]? = some timer)
    (hdue : s.now < s.due timer) : Within s (s.due timer - s.now) := by
  intro timer' due hagenda
  obtain ⟨hmem, hnoop, rfl⟩ := (h.listed timer' due).mp hagenda
  have hle : s.due timer ≤ s.due timer' := by
    obtain ⟨j, hj, rfl⟩ := List.mem_iff_getElem.mp hmem
    obtain ⟨hlt, rfl⟩ := List.getElem?_eq_some_iff.mp hi
    obtain hji | rfl := Nat.lt_or_eq_of_le (Nat.le_of_lt_succ (hlength ▸ hj))
    · have hordered := List.pairwise_iff_getElem.mp (h.sorted hresort) j i hj hlt hji
      obtain hclosed | hzero | hle := hordered
      · exact absurd (hclosed.symm.trans hnoop) nofun
      · exact absurd (hdue.trans_le hzero) (not_lt.mpr s.now.coe_nonneg)
      · exact hle
    · exact le_refl _
  exact sub_le_sub_right hle _

theorem visit_spec {n : ℕ} {nextDelay : ℚ} (h : Inv s) (hle : n ≤ s.timers.length)
    (hall : s.resortTimers = false → s.timers.length = n) :
    Inv (visit cfg turns n nextDelay s).2 ∧
      ((visit cfg turns n nextDelay s).2.resortTimers = false →
        Within (visit cfg turns n nextDelay s).2 (visit cfg turns n nextDelay s).1) := by
  induction n generalizing s with
  | zero =>
    refine ⟨h, fun hresort timer due hagenda => ?_⟩
    have hnone : s.timers = [] := List.length_eq_zero_iff.mp (hall hresort)
    have hmem := ((h.listed timer due).mp hagenda).1
    rw [hnone] at hmem
    exact absurd hmem List.not_mem_nil
  | succ i ih =>
    have hi : s.timers[i]? = some s.timers[i] := List.getElem?_eq_getElem hle
    have hwait := h.wait (turns i).elapsed
    rw [visit, hi]
    simp only
    split_ifs with hnow hdiff
    · -- the timer that ends the loop is the earliest
      exact ⟨hwait, fun hresort => hwait.within hresort (hall hresort) hi hnow⟩
    · refine ⟨hwait, fun hresort timer due hagenda => ?_⟩
      have hdue := hwait.within hresort (hall hresort) hi hnow timer due hagenda
      exact (not_lt.mp hdiff).trans hdue
    · have hle' : i + 1 ≤ (s.wait (turns i).elapsed).timers.length := hle
      obtain ⟨hfired, hlength⟩ := @length_fire _ s.timers[i] cfg (turns i) i hle'
      refine ih (hwait.fire hi (not_lt.mp hnow)) hfired ?_
      intro hresort
      obtain ⟨hbefore, hlength⟩ := hlength hresort
      have hall : (s.wait (turns i).elapsed).timers.length = i + 1 := hall hbefore
      omega

theorem Inv.resort (h : Inv s) (sorting : Sorting) : Inv (resort sorting s) := by
  unfold Timers.resort
  split_ifs
  · have hperm := sorting.perm s.due s.timers
    refine ⟨?_, hperm.nodup_iff.mpr h.nodup, fun timer hmem => h.made timer (hperm.subset hmem),
      h.ended, h.timeouts, ?_, h.punctual⟩
    · intro timer due
      change _ ↔ timer ∈ sorting.sort s.due s.timers ∧ _
      rw [hperm.mem_iff]
      exact h.listed timer due
    · intro _
      exact (sorting.sorted s.due s.timers).imp fun hle => .inr (.inr hle)
  · exact h

theorem Inv.returned (h : Inv s) {minWait delay : ℚ}
    (hdelay : ∀ timer due, agenda s.log timer = some due → delay ≤ max minWait (due - s.now)) :
    Inv (s.emit (.returned s.now minWait delay)) := by
  refine ⟨?_, h.nodup, h.made, ?_, h.timeouts, h.sorted, ?_⟩
  · intro timer due
    change agenda (s.log ++ [Event.returned s.now minWait delay]) timer = some due ↔ _
    rw [agenda_concat]
    exact h.listed timer due
  · intro timer hended
    change timer < s.made ∧ agenda (s.log ++ [Event.returned s.now minWait delay]) timer = none
    rw [agenda_concat]
    apply h.ended timer
    simpa [Ended, State.emit] using hended
  · exact throughout_concat.mpr ⟨h.punctual, hdelay⟩

theorem Inv.runtimers (h : Inv s) (sorting : Sorting) (nextDelay minWait : ℚ) :
    Inv (runtimers cfg sorting turns nextDelay minWait s) := by
  unfold Timers.runtimers
  split_ifs with hnone
  · apply h.returned
    intro timer due hagenda
    have hmem := ((h.listed timer due).mp hagenda).1
    rw [hnone] at hmem
    exact absurd hmem List.not_mem_nil
  · have hlength : (Timers.resort sorting s).timers.length = s.timers.length := by
      unfold Timers.resort
      split_ifs
      · exact (sorting.perm s.due s.timers).length_eq
      · rfl
    obtain ⟨hvisited, hwithin⟩ := @visit_spec _ cfg turns s.timers.length nextDelay
      (h.resort sorting) hlength.ge fun _ => hlength
    apply hvisited.returned
    intro timer due hagenda
    split_ifs with hshort
    · exact le_max_left _ _
    · obtain ⟨hresort, -⟩ := not_or.mp hshort
      exact (hwithin (Bool.eq_false_iff.mpr hresort) timer due hagenda).trans (le_max_right _ _)

theorem inv_step (cfg : Config) (s : State) (c : Call) (h : Inv s) : Inv (step cfg s c) := by
  cases c with
  | edit elapsed e => exact (h.wait elapsed).edit cfg e
  | runtimers sorting turns nextDelay minWait => exact h.runtimers sorting nextDelay minWait

/-- Callbacks run when their timers are due, and no timer is overslept. -/
theorem timers_punctual (cfg : Config) (now : ℚ≥0) (calls : List Call) :
    Throughout Punctual (Machine.run (step cfg) (start now) calls).log :=
  (Machine.run_invariant (inv_step cfg) (inv_start now) calls).punctual

/-- A callback closes a timer that comes later and asks to be called again. -/
example :
    (Machine.run (step ⟨840, 7⟩) (start 100)
      [.edit 0 (.addtimer 1), .edit 0 (.addtimer 2),
        .runtimers .stable (fun _ => ⟨1, [(0, .close 1)], some 5⟩) 60 (1 / 1000)]).log =
      [.added 0 101, .added 1 102, .ran 0 101, .closed 1, .again 0 106, .done 1,
        .returned 102 (1 / 1000) (1 / 1000)] := by
  decide +kernel

end

end Prosody.Timers
