import Prosody.Http.Feeding
import Prosody.Library.Runs

/-! # The callback of an HTTP client

One request of `net/http.lua` with the connection that is made for it. The parser calls back into the
request, closing the connection re-enters its disconnect handler, and the caller's callback may raise an
error, which leaves whatever had called it. -/

namespace Prosody.Http.Client

open Prosody.Httpstream

inductive Report where
  | failed (reason : String)
  | malformed (reason : Reason)
  | response (packet : Packet)

inductive Stage where
  | connecting
  /-- No target is left to try. -/
  | failed
  | open
  /-- Closed after writing. -/
  | closing
  | gone
  deriving DecidableEq

structure Request where
  stage : Stage
  /-- The write buffer is not empty. -/
  buffered : Bool
  /-- `requests[conn]` -/
  attached : Bool
  /-- `request.conn` -/
  conn : Bool
  /-- `request.callback` -/
  callback : Bool
  parser : Option Parser
  /-- The calls of the callback. -/
  calls : List Report

def start : Request where
  stage := .connecting
  buffered := false
  attached := false
  conn := false
  callback := true
  parser := none
  calls := []

/-- What becomes of a certificate; `passed` also if none is asked for. -/
inductive Verdict where
  | passed
  | chainInvalid
  | verifyFailed
  deriving DecidableEq

/-- `raises n` says that the callback raises an error when it is called after `n` calls. -/
def report (raises : ℕ → Bool) (r : Request) (rep : Report) : Request × Bool :=
  if r.callback then
    if raises r.calls.length then ({ r with calls := r.calls ++ [rep] }, true)
    else ({ r with calls := r.calls ++ [rep], callback := false }, false)
  else (r, false)

def destroyRequest (close : Request → Request) (r : Request) : Request :=
  if r.conn then close { r with conn := false } else r

/-- `error_cb` and `success_cb` -/
def answer (close : Request → Request) (raises : ℕ → Bool) (r : Request) (rep : Report) :
    Request × Bool :=
  let (r, raised) := report raises r rep
  if raised then (r, true) else (destroyRequest close r, false)

def reportOf : Call → Report
  | .success packet => .response packet
  | .failure reason => .malformed reason

def callback (close : Request → Request) (raises : ℕ → Bool) (r : Request) (c : Call) :
    Request × Bool :=
  answer close raises r (reportOf c)

section

variable (L : Lua) (o : Options) (raises : ℕ → Bool)

/-- `request_reader` without data, when the connection is gone and closing it does nothing. -/
def readEof (r : Request) (reason : String) : Request × Bool :=
  match r.parser with
  | none => answer id raises r (.failed reason)
  | some p =>
    let (p, r, raised) := feedEof (clientOptions o) (callback id raises) p r
    ({ r with parser := some p }, raised)

/-- An error leaves the function before the entry is removed. -/
def ondisconnect (r : Request) (reason : String) : Request :=
  let r := { r with stage := .gone }
  if r.attached && r.conn then
    let (r, raised) := readEof o raises r reason
    if raised then r else { r with attached := false }
  else { r with attached := false }

/-- `conn:close()` -/
def close (r : Request) : Request :=
  if r.stage = .open ∨ r.stage = .closing then
    if r.buffered then { r with stage := .closing } else ondisconnect o raises r "closed"
  else r

def onincoming (r : Request) (data : Bytes) : Request :=
  if r.attached then
    match feed L (clientOptions o) (callback (close o raises) raises)
      (r.parser.getD Httpstream.new) r data with
    | none => r
    | some (p, r, _) => { r with parser := some p }
  else r

def reject (r : Request) (reason : String) : Request :=
  let (r, raised) := report raises r (.failed reason)
  if raised then r else close o raises r

def onconnect (r : Request) (verdict : Verdict) : Request :=
  let r := { r with stage := .open, attached := true, conn := true }
  match verdict with
  | .chainInvalid => reject o raises r "certificate-chain-invalid"
  | .verifyFailed => reject o raises r "certificate-verify-failed"
  | .passed => { r with buffered := true }

def onfail (r : Request) (reason : String) : Request :=
  { (report raises r (.failed reason)).1 with stage := .failed }

inductive Event where
  /-- A target could not be connected to, and there is a next one or not. -/
  | refused (more : Bool) (reason : String)
  | connected (verdict : Verdict)
  | incoming (data : Bytes)
  | flushed
  | disconnected (reason : String)

/-- An event that cannot happen at a stage changes nothing; reads are never empty. -/
def step (r : Request) : Event → Request
  | .refused more reason =>
    if r.stage = .connecting ∧ more = false then onfail raises r reason else r
  | .connected verdict => if r.stage = .connecting then onconnect o raises r verdict else r
  | .incoming data =>
    if r.stage = .open ∧ data ≠ [] then onincoming L o raises r data else r
  | .flushed =>
    if r.stage = .open then { r with buffered := false }
    else if r.stage = .closing then close o raises { r with buffered := false }
    else r
  | .disconnected reason =>
    if r.stage = .open ∨ r.stage = .closing then ondisconnect o raises r reason else r

end

/-- The attempt has failed, or the connection has closed. -/
def Ended (r : Request) : Prop := r.stage = .failed ∨ r.stage = .gone

def Once (r : Request) : Prop := r.calls.length ≤ 1 ∧ (Ended r → r.calls.length = 1)

/-- A head has been read that says how much is to follow, and nothing has followed yet. -/
def Headed (p : Parser) : Prop := p.state.isSome ∧ p.len.isSome ∧ p.buf.concat = []

/-- The parser has nothing to report of the end of the stream. -/
def Silent (p : Parser) : Prop :=
  p.error = true ∨ (p.buf.concat = [] ∧ (p.state.isSome → p.len.isSome))

/-- The callback does not raise an error of a certificate; once it has raised one of a response,
nothing follows but the end of the stream; and the connection does not close right after a head. -/
def Clear (raises : ℕ → Bool) (r : Request) : Event → Prop
  | .connected verdict => verdict ≠ .passed → raises 0 = false
  | .incoming _ => r.calls = [] ∨ ∀ p, r.parser = some p → p.error = true
  | .disconnected _ => ∀ p, r.conn = true → r.parser = some p →
      if r.calls = [] then ¬ Headed p else Silent p
  | _ => True

/-! ## The parser -/

/-- A parser that has reported nothing yet, with something in its buffer or a head read. -/
structure Live (p : Parser) : Prop where
  error : p.error = false
  buflen : p.buflen = p.buf.concat.length
  state : p.state = none → p.buf.concat ≠ []

/-- Such a round reports nothing. -/
inductive Turn.Leaves : Turn → Parser → Prop
  | stop (p : Parser) : Leaves (.stop p) p
  | next (p : Parser) : Leaves (.next p) p
  | raise (p : Parser) : Leaves (.raise p) p

variable {p : Parser}

variable {packet : Packet} {p' : Parser}

structure Pending (r : Request) : Prop where
  stage : r.stage = .open
  attached : r.attached = true
  conn : r.conn = true
  callback : r.callback = true
  calls : r.calls = []

/-- The callback has raised an error, and the connection has been left open. -/
structure Raised (r : Request) : Prop where
  stage : r.stage = .open
  attached : r.attached = true
  conn : r.conn = true
  callback : r.callback = true
  calls : r.calls.length = 1

/-- The callback has returned, and the connection is being closed. -/
structure Told (r : Request) : Prop where
  stage : r.stage = .closing ∨ r.stage = .gone
  conn : r.conn = false
  callback : r.callback = false
  calls : r.calls.length = 1

section

variable {L : Lua} {o o' : Options} {raises : ℕ → Bool}

variable {p : Parser} {r : Request}

/-- The connection has closed, and the callback has been called once. -/
def Concluded (r : Request) : Prop := r.stage = .gone ∧ r.calls.length = 1

/-- Where a request can be between two events. -/
inductive Sound (r : Request) : Prop
  | connecting (hstage : r.stage = .connecting) (hcallback : r.callback = true)
      (hcalls : r.calls = []) (hparser : r.parser = none) (hbuffered : r.buffered = false)
  | pending (h : Pending r) (hparser : ∀ p, r.parser = some p → Live p)
  | raised (h : Raised r) (hparser : r.parser.isSome)
  | told (h : Told r)
  | ended (h : Ended r) (hcalls : r.calls.length = 1)

theorem Sound.once (h : Sound r) : Once r := by
  cases h with
  | connecting hstage _ hcalls _ _ =>
    refine ⟨by simp [hcalls], ?_⟩
    rintro (h | h) <;> simp [hstage] at h
  | pending h _ =>
    refine ⟨by simp [h.calls], ?_⟩
    rintro (hended | hended) <;> simp [h.stage] at hended
  | raised h _ => exact ⟨Nat.le_of_eq h.calls, fun _ => h.calls⟩
  | told h => exact ⟨Nat.le_of_eq h.calls, fun _ => h.calls⟩
  | ended _ hcalls => exact ⟨Nat.le_of_eq hcalls, fun _ => hcalls⟩

theorem Concluded.sound (h : Concluded r) : Sound r := .ended (.inr h.1) h.2

end

/-! ## Two connections -/

end Prosody.Http.Client
