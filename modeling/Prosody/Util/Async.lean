import Mathlib.Data.List.Basic
import Mathlib.Logic.Function.Basic
import Prosody.Library.Runs

/-! # Runners (`util/async.lua`)

A run is a sequence of what is done by whoever is in control: code outside of the runner, its
function, or one of its watchers. -/

namespace Prosody.Async

/-! ## State -/

/-- The runner's `state`. -/
inductive Mode
  | ready
  | running
  | waiting
deriving DecidableEq

/-- What a coroutine does: wait for an item, wait in the middle of one, run, or nothing any more. -/
inductive Status
  | idle
  | asleep
  | running
  | dead
deriving DecidableEq

structure Waiter where
  thread : ℕ
  num : ℤ
  waiting : Bool

inductive Raised
  | truthy
  | false
  | nil
deriving DecidableEq

inductive Frame
  /-- The function, which the main loop has given item `i` of `n`. -/
  | item (thread i n : ℕ)
  /-- The function, which goes on after a wait. -/
  | resumed (thread : ℕ)
  /-- The end of `run`, in a watcher or not. -/
  | leaving (n : ℕ) (watched : Bool)
  /-- The watcher for an error after a wait. -/
  | failed (thread : ℕ)

/-- The function gets an input, or is done with it. -/
inductive Mark (ι : Type*)
  | started (input : Option ι)
  | ended

variable {ι : Type*}

structure Runner (ι : Type*) where
  queue : List ι
  mode : Mode
  notified : Mode
  thread : Option ℕ
  created : ℕ
  status : ℕ → Status
  waiters : List Waiter
  calls : List Frame
  /-- All inputs that have been queued. -/
  accepted : List ι
  /-- What has been enqueued since the runner was last run. -/
  enqueued : List ι
  log : List (Mark ι)

namespace Runner

def new : Runner ι where
  queue := []
  mode := .ready
  notified := .ready
  thread := none
  created := 0
  status _ := .dead
  waiters := []
  calls := []
  accepted := []
  enqueued := []
  log := []

/-! ## The main loop -/

/-- The queue without the items that have been consumed. -/
def compact (q : List ι) (n consumed : ℕ) : List ι :=
  let n := if q[n]?.isSome then q.length else n
  ((List.range n).filterMap fun i => q[consumed + i]?) ++ q.drop n

def setStatus (s : Runner ι) (t : ℕ) (status : Status) : Runner ι :=
  { s with status := Function.update s.status t status }

def mark (s : Runner ι) (m : Mark ι) : Runner ι := { s with log := s.log ++ [m] }

def call (s : Runner ι) (f : Frame) : Runner ι := { s with calls := f :: s.calls }

/-- Item `i` of the batch is given to the function. -/
def begin (s : Runner ι) (t i n : ℕ) : Runner ι :=
  ((s.setStatus t .running).mark (.started s.queue[i]?)).call (.item t i n)

/-- The main loop has ended. -/
def leave (s : Runner ι) (mode : Mode) (err : Bool) (n : ℕ) : Runner ι :=
  let changed := err || mode ≠ s.notified
  { s with mode := mode, notified := if changed && !err then mode else s.notified }.call
    (.leaving n changed)

/-- The main loop with `n` items in the queue. A coroutine that is dead cannot be resumed. -/
def loop (s : Runner ι) (t n : ℕ) : Runner ι :=
  if n = 0 then s.leave .ready false 0
  else if s.status t = .dead then
    { s with thread := none, queue := compact s.queue n 1 }.leave .ready true
      (compact s.queue n 1).length
  else s.begin t 0 n

def createThread (s : Runner ι) : Runner ι × ℕ :=
  ({ s.setStatus s.created .idle with thread := some s.created, created := s.created + 1 },
    s.created)

/-- A coroutine that is not dead, a new one if need be. -/
def ensureThread (s : Runner ι) : Runner ι × ℕ :=
  match s.thread with
  | some t => if s.status t = .dead then s.createThread else (s, t)
  | none => s.createThread

/-- `run`, once the input has been queued. -/
def run (s : Runner ι) : Runner ι :=
  if s.mode = .ready then
    { s.ensureThread.1 with mode := .running, enqueued := [] }.loop s.ensureThread.2 s.queue.length
  else s

def accept (s : Runner ι) (input : ι) : Runner ι :=
  { s with queue := s.queue ++ [input], accepted := s.accepted ++ [input] }

def enqueue (s : Runner ι) (input : ι) : Runner ι :=
  { s.accept input with
    enqueued := if s.mode = .ready then s.enqueued ++ [input] else s.enqueued }

/-- A coroutine that waits goes on. If it waits for an item its function gets none. -/
def runnerContinue (s : Runner ι) (t : ℕ) : Runner ι :=
  match s.status t with
  | .asleep => (s.setStatus t .running).call (.resumed t)
  | .idle => ((s.setStatus t .running).mark (.started none)).call (.resumed t)
  | _ => s

/-! ## What is done by whoever is in control -/

/-- Code is in control, not the runner itself. -/
def active (s : Runner ι) : Bool :=
  match s.calls with
  | .leaving _ watched :: _ => watched
  | _ => true

def inFunction (s : Runner ι) : Option ℕ :=
  match s.calls with
  | .item t _ _ :: _ => some t
  | .resumed t :: _ => some t
  | _ => none

def suspend (s : Runner ι) : Runner ι :=
  match s.calls with
  | .item t i n :: calls =>
    let q := compact s.queue n (i + 1)
    { s.setStatus t .asleep with queue := q, calls := calls }.leave .waiting false q.length
  | .resumed t :: calls => { s.setStatus t .asleep with calls := calls }
  | _ => s

def finish (s : Runner ι) : Runner ι :=
  match s.calls with
  | .item t i n :: calls =>
    let s := { (s.setStatus t .idle).mark .ended with calls := calls }
    if i + 1 < n then s.begin t (i + 1) n
    else { s with queue := compact s.queue n n }.loop t (compact s.queue n n).length
  | .resumed t :: calls =>
    { (s.setStatus t .idle).mark .ended with calls := calls, mode := .ready }.run
  | .leaving n _ :: calls =>
    if 0 < n then { s with calls := calls }.run else { s with calls := calls }
  | .failed _ :: calls => { s with calls := calls, mode := .ready, thread := none }.run
  | [] => s

/-- The function raises an error, which the main loop takes for one or not. -/
def raise (s : Runner ι) (caught : Bool) : Runner ι :=
  match s.calls with
  | .item t i n :: calls =>
    let q := compact s.queue n (i + 1)
    let s := { (s.setStatus t .dead).mark .ended with thread := none, queue := q, calls := calls }
    if caught then s.leave .ready true q.length else s.loop t q.length
  | .resumed t :: calls =>
    let s := { (s.setStatus t .dead).mark .ended with calls := calls }
    if s.thread = some t then s.call (.failed t) else s
  | _ => s

end Runner

inductive Event (ι : Type*)
  | run (input : Option ι)
  | enqueue (input : ι)
  | waiter (num : ℤ)
  | wait (w : ℕ)
  | done (w : ℕ)
  | finish
  | raise (err : Raised)

/-- Whether `debug.traceback` makes something true of what an error was raised with. In Lua 5.1 it
returns nil as it is. -/
def caught (lua51 : Bool) : Raised → Bool
  | .truthy => true
  | .false => false
  | .nil => !lua51

/-- What cannot be done by whoever is in control does nothing. -/
def step (lua51 : Bool) (s : Runner ι) : Event ι → Runner ι
  | .run input => if s.active then (input.elim s s.accept).run else s
  | .enqueue input => if s.active then s.enqueue input else s
  | .waiter num =>
    s.inFunction.elim s fun t => { s with waiters := s.waiters ++ [⟨t, num, false⟩] }
  | .wait w =>
    if s.inFunction.isSome then
      s.waiters[w]?.elim s fun W =>
        if W.num = 0 then s
        else { s with waiters := s.waiters.set w { W with waiting := true } }.suspend
    else s
  | .done w =>
    if s.active then
      s.waiters[w]?.elim s fun W =>
        let s := { s with waiters := s.waiters.set w { W with num := W.num - 1 } }
        if W.num - 1 = 0 ∧ W.waiting then s.runnerContinue W.thread else s
    else s
  | .finish => s.finish
  | .raise err => s.raise (caught lua51 err)

end Prosody.Async
