import Mathlib.Data.List.Basic

/-! # Connections of the epoll backend

The interface object of `net/server_epoll.lua` for one connection, over bytes of any type. The
results of the socket and of the TLS library, and what the listener does when it is called,
are part of the input. Times are left out: a timer that is running may expire at any moment. -/

namespace Prosody.ServerEpoll

variable {β : Type}

/-- The fields `onreadable` and `onwritable`: the method of the interface, the handshake, or
nothing once the connection is destroyed. -/
inductive Handler where
  | default
  | tlshandshake
  | noop
  deriving DecidableEq

/-- The field `ondrain`. -/
inductive Drain where
  | default
  | starttls
  | close
  deriving DecidableEq

/-- What happens on a connection. The listener learns of the connection while the interface is
`writing` or reading, `sent` stands for every attempt to send, bytes are sent and received in
the clear or `encrypted`, and bytes are `late` if `starttls` had been called when they were
received. -/
inductive Event (β : Type) where
  | connect (writing : Bool)
  | write (data : List β)
  | starttls
  | prepared
  | handshake
  | sent (encrypted : Bool) (data : List β)
  | received (encrypted : Bool) (data : List β)
  | incoming (encrypted late : Bool) (data : List β)
  | disconnect
  deriving DecidableEq

/-- An interface. `watched` are the flags `_wantread` and `_wantwrite` while the poller knows
the connection, and `encrypted` says that `conn` has been wrapped by the TLS library. The
fields `write`, `starttls` and `close` are methods until they are taken away. -/
structure Interface (β : Type) where
  writebuffer : List (List β)
  writeLock : Bool
  watched : Option (Bool × Bool)
  onreadable : Handler
  onwritable : Handler
  ondrain : Drain
  connected : Bool
  tls : Bool
  encrypted : Bool
  destroyed : Bool
  canWrite : Bool
  canStarttls : Bool
  canClose : Bool
  readTimeout : Bool
  writeTimeout : Bool
  pausefor : Bool
  log : List (Event β)

inductive Call (β : Type) where
  | write (data : List β)
  | starttls
  | close
  | pause
  | resume
  | pauseWrites
  | resumeWrites

namespace Interface

/-- `wrapsocket` and `init`. -/
def new : Interface β where
  writebuffer := []
  writeLock := false
  watched := some (true, true)
  onreadable := .default
  onwritable := .default
  ondrain := .default
  connected := false
  tls := false
  encrypted := false
  destroyed := false
  canWrite := true
  canStarttls := true
  canClose := true
  readTimeout := false
  writeTimeout := true
  pausefor := false
  log := []

variable (s : Interface β)

def emit (e : Event β) : Interface β := { s with log := s.log ++ [e] }

/-! ## The poller -/

/-- `set`, which fails if the poller does not know the connection. -/
def set (r w : Option Bool) : Interface β :=
  match s.watched with
  | some (wantread, wantwrite) => { s with watched := some (r.getD wantread, w.getD wantwrite) }
  | none => s

/-- `add`, which fails if there is no connection any more. -/
def add (r w : Bool) : Interface β :=
  if s.destroyed then s else { s with watched := some (r, w) }

def del : Interface β := { s with watched := none }

/-! ## Methods -/

/-- `destroy`. -/
def destroy : Interface β :=
  if s.destroyed then s
  else
    { s with
      watched := none
      writeTimeout := false
      readTimeout := false
      onreadable := .noop
      onwritable := .noop
      canClose := false
      destroyed := true }

/-- `on("disconnect")`, where listeners let go of the connection. -/
def disconnect : Interface β :=
  if s.destroyed then s else s.emit .disconnect

/-- `write`. -/
def write (data : List β) : Interface β :=
  if !s.canWrite then s
  else
    let s := { s.emit (.write data) with writebuffer := s.writebuffer ++ [data] }
    if s.writeLock then s else { s with writeTimeout := true }.set none (some true)

/-- `interface.close`. -/
def closeNow : Interface β :=
  if s.writebuffer ≠ [] then
    { s.set (some false) (some true) with canWrite := false, ondrain := .close }
  else { s with canWrite := false, canClose := false }.disconnect.destroy

/-- `interface.starttls`, which waits for the write buffer to be flushed. -/
def starttlsNow : Interface β :=
  let s := { s with canStarttls := false }
  if s.writebuffer ≠ [] then { s with ondrain := .starttls }.set none (some true)
  else
    let s := if s.ondrain = .starttls then { s with ondrain := .default } else s
    ({ s.emit .prepared with
      onwritable := .tlshandshake
      onreadable := .tlshandshake } : Interface β).set (some true) (some true)

/-- A call from outside. Calling a method that has been taken away does nothing. -/
def call : Call β → Interface β
  | .write data => s.write data
  | .starttls => if s.canStarttls then (s.emit .starttls).starttlsNow else s
  | .close => if s.canClose then s.closeNow else s
  | .pause => s.set (some false) none
  | .resume => s.set (some true) none
  | .pauseWrites =>
    { s with writeLock := true, writeTimeout := false }.set none (some false)
  | .resumeWrites =>
    let s := { s with writeLock := false }
    if s.writebuffer ≠ [] then { s with writeTimeout := true }.set none (some true) else s

/-- `on`: the listener is called, and makes its calls. -/
def listen (calls : List (Call β)) : Interface β :=
  if s.destroyed then s else calls.foldl call s

/-- `onconnect`, which is called once. -/
def onconnect (writing : Bool) (calls : List (Call β)) : Interface β :=
  if s.connected then s
  else if s.destroyed then { s with connected := true }
  else ({ s with connected := true }.emit (.connect writing)).listen calls

end Interface

/-! ## Events of the poller -/

/-- Why the socket has not done all it was asked for. -/
inductive SocketError where
  | wantread
  | wantwrite
  | timeout
  | other
  deriving DecidableEq

/-- The result of `conn:receive`. -/
inductive Received (β : Type) where
  | all (data : List β)
  | partly (data : List β) (error : SocketError)

def Received.data : Received β → List β
  | .all data => data
  | .partly data _ => data

/-- The result of `conn:send`: everything is sent, or the first `count` bytes if it is said. -/
inductive Sent where
  | all
  | partly (count : Option Nat) (error : SocketError)

/-- The result of `conn:dohandshake`. -/
inductive Handshake where
  | ok
  | failed (error : SocketError)

/-- What the environment answers during an event, and what the listener calls in each of its
functions. -/
structure Env (β : Type) where
  received : Received β
  dirty : Bool
  sent : Sent
  wrapped : Bool
  handshake : Handshake
  connect : List (Call β)
  incoming : List (Call β)
  drain : List (Call β)
  starttls : List (Call β)
  status : List (Call β)

namespace Interface

variable (s : Interface β)

def abort : Interface β := s.disconnect.destroy

/-- `on("incoming", data)`, for data that was `late` when it was received. -/
def passOn (late : Bool) (data : List β) (calls : List (Call β)) : Interface β :=
  if s.destroyed then s else (s.emit (.incoming s.encrypted late data)).listen calls

/-- What `onreadable` does at the end: data that the TLS library still holds is read later. -/
def scheduleRead (dirty : Bool) : Interface β :=
  if s.destroyed then s
  else if dirty then { s with readTimeout := false, pausefor := true }.set (some false) none
  else { s with readTimeout := true }

/-- `interface:onreadable`. -/
def receive (env : Env β) : Interface β :=
  let late := !s.canStarttls
  match env.received with
  | .all data =>
    let s := (s.emit (.received s.encrypted data)).onconnect false env.connect
    (s.passOn late data env.incoming).scheduleRead env.dirty
  | .partly data error =>
    let s := s.emit (.received s.encrypted data)
    let s := if data ≠ [] then (s.onconnect false env.connect).passOn late data env.incoming else s
    match error with
    | .wantread => (s.set (some true) none).scheduleRead env.dirty
    | .wantwrite => (s.set none (some true)).scheduleRead env.dirty
    | .timeout => s.scheduleRead env.dirty
    | .other => s.abort

/-- `ondrain`. -/
def drained (env : Env β) : Interface β :=
  match s.ondrain with
  | .default => s.listen env.drain
  | .starttls => s.starttlsNow
  | .close => s.closeNow

/-- The first bytes of the write buffer, which holds `data`, have been sent. -/
def sendPartly (data : List β) (count : Option Nat) : Interface β :=
  match count with
  | some count =>
    { s.emit (.sent s.encrypted (data.take count)) with
      writebuffer := [data.drop count]
      writeTimeout := true }
  | none => s.emit (.sent s.encrypted [])

/-- `interface:onwritable`. -/
def send (env : Env β) : Interface β :=
  let s := s.onconnect true env.connect
  if s.destroyed then s
  else
    let data := s.writebuffer.flatten
    match env.sent with
    | .all =>
      let s := (s.emit (.sent s.encrypted data)).set none (some false)
      { s with writebuffer := [], writeTimeout := false }.drained env
    | .partly count error =>
      let s := s.sendPartly data count
      match error with
      | .wantwrite | .timeout => s.set none (some true)
      | .wantread => s.set (some true) none
      | .other => s.abort

/-- `interface:tlshandskake`: the first call wraps the connection, later ones go on with the
handshake. -/
def tlshandshake (env : Env β) : Interface β :=
  let s := { s with writeTimeout := false, readTimeout := false }
  if !s.tls then
    let s := ({ s with tls := true }.emit .handshake).del
    if !env.wrapped then s.abort
    else
      let s := { s with encrypted := true }.listen env.starttls
      ({ s with
        ondrain := .default
        onwritable := .tlshandshake
        onreadable := .tlshandshake
        writeTimeout := true } : Interface β).add true true
  else
    match env.handshake with
    | .ok =>
      let s := { s with onwritable := .default, onreadable := .default }.listen env.status
      { s with writeTimeout := true }.set (some true) (some true)
    | .failed .wantread => { s.set (some true) (some false) with readTimeout := true }
    | .failed .wantwrite => { s.set (some false) (some true) with writeTimeout := true }
    | .failed _ => s.abort

def readable (env : Env β) : Interface β :=
  match s.onreadable with
  | .default => s.receive env
  | .tlshandshake => s.tlshandshake env
  | .noop => s

def writable (env : Env β) : Interface β :=
  match s.onwritable with
  | .default => s.send env
  | .tlshandshake => s.tlshandshake env
  | .noop => s

/-- The timer of `pausefor`. -/
def retry (dirty : Bool) (env : Env β) : Interface β :=
  let s := { s with pausefor := false }
  let s := if !s.destroyed && dirty then s.readable env else s
  s.set (some true) none

end Interface

/-- What happens to a connection from outside. The poller reports no events for a connection
that is destroyed. -/
inductive Input (β : Type) where
  | call (c : Call β)
  | readable (env : Env β)
  | writable (env : Env β)
  | retry (dirty : Bool) (env : Env β)
  | timeout

def Interface.step (s : Interface β) : Input β → Interface β
  | .call c => s.call c
  | .readable env => if s.destroyed then s else s.readable env
  | .writable env => if s.destroyed then s else s.writable env
  | .retry dirty env => if s.pausefor then s.retry dirty env else s
  | .timeout => if s.readTimeout || s.writeTimeout then s.abort else s

end Prosody.ServerEpoll
