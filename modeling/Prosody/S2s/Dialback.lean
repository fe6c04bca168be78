import Prosody.Library.Amend
import Prosody.Library.Runs
import Prosody.Library.Table

/-! # Dialback

`mod_dialback`, and what `mod_s2s` and `mod_tls` do to the sessions it works on. A server
that claims a name on an incoming session is asked for a key, and the key is verified over
an outgoing session to the server of that name. Certificates are not used. -/

namespace Prosody.Dialback

inductive SessionType
  | s2sinUnauthed | s2sin | s2soutUnauthed | s2sout | s2sDestroyed
  deriving DecidableEq, Repr

/-- What an incoming session knows about a name its peer has claimed. -/
structure HostStatus where
  dialbackKey : Option String := none
  authed : Bool := false
  deriving DecidableEq

/-- A session. The hosts of the pair are read for outgoing sessions only. A session that
does not exist looks like a destroyed one. -/
structure Session where
  type : SessionType := .s2sDestroyed
  fromHost : Option String := none
  toHost : Option String := none
  streamid : Option String := none
  dialbackKey : Option String := none
  hosts : Table String HostStatus := ∅
  deriving DecidableEq

namespace Session

def Incoming (x : Session) : Prop := x.type = .s2sinUnauthed ∨ x.type = .s2sin

def Outgoing (x : Session) : Prop := x.type = .s2soutUnauthed ∨ x.type = .s2sout

instance (x : Session) : Decidable x.Incoming := inferInstanceAs (Decidable (_ ∨ _))

instance (x : Session) : Decidable x.Outgoing := inferInstanceAs (Decidable (_ ∨ _))

/-- `session.hosts[host].authed` -/
def authed (x : Session) (host : String) : Bool := (x.hosts.get host).any HostStatus.authed

end Session

/-- The `type` of an element, of which only `valid` is told apart from the others. -/
inductive Verdict
  | valid | invalid
  deriving DecidableEq, Repr

/-- The attributes and the text of a `db:result` or a `db:verify`. -/
structure Element where
  attrTo : Option String := none
  attrFrom : Option String := none
  id : Option String := none
  type : Option Verdict := none
  text : Option String := none
  deriving DecidableEq, Repr

/-- What the module sends: over the stream of a session, or to a remote host by
`route/remote`. -/
inductive Sent
  | result (i : ℕ) (el : Element)
  | verify (i : ℕ) (el : Element)
  | routeVerify (fromHost toHost : String) (el : Element)
  deriving DecidableEq, Repr

/-- The string preparation, the hosts that are served, the hash and its secret. -/
structure Config where
  nameprep : String → Option String
  hosts : String → Bool
  sha256Hmac : String → String → String
  dialbackSecret : String

/-- All sessions, and the tables in which they are found. `s2sout` has the sessions
registered for a pair of hosts. -/
structure State where
  sessions : ℕ → Session := fun _ => {}
  opened : ℕ := 0
  s2sout : Table (String × String) ℕ := ∅
  dialbackRequests : Table String ℕ := ∅
  sent : List Sent := []

/-! ## Keys -/

def generateDialback (c : Config) (id toHost fromHost : String) : String :=
  c.sha256Hmac c.dialbackSecret (toHost ++ " " ++ fromHost ++ " " ++ id)

def verifyDialback (c : Config) (id toHost fromHost : String) (key : Option String) : Bool :=
  key == some (generateDialback c id toHost fromHost)

/-- The key of `dialback_requests` for a name claimed on a stream. -/
def requestKey (host id : String) : String := host ++ "/" ++ id

/-! ## Stream ids -/

/-- The digits of `%x`. -/
def hexDigit (n : Fin 16) : Char := "0123456789abcdef".toList.get (n.cast (by decide))

/-- `get_nibbles`, with the random digits from position `k`. -/
def getNibbles (random : ℕ → Fin 16) (k n : ℕ) : List Char :=
  (List.range n).map fun j => hexDigit (random (k + j))

/-- `uuid.generate`: a random UUID of version 4. -/
def uuidGenerate (random : ℕ → Fin 16) : String :=
  .ofList (getNibbles random 0 8 ++ '-' :: getNibbles random 8 4 ++ '-' :: '4' ::
    getNibbles random 12 3 ++ '-' :: hexDigit ⟨random 15 % 4 + 8, by omega⟩ ::
    getNibbles random 16 3 ++ '-' :: getNibbles random 19 12)

namespace State

/-! ## Sessions -/

/-- Replace session `i` by what `f` makes of it. -/
def amend (s : State) (i : ℕ) (f : Session → Session) : State :=
  { s with sessions := Function.amend s.sessions i f }

def send (s : State) (m : Sent) : State :=
  { s with sent := s.sent ++ [m] }

def newIncoming (s : State) : State :=
  { s with
    sessions := Function.update s.sessions s.opened { type := .s2sinUnauthed }
    opened := s.opened + 1 }

def newOutgoing (s : State) (fromHost toHost : String) : State :=
  { s with
    sessions := Function.update s.sessions s.opened
      { type := .s2soutUnauthed, fromHost := some fromHost, toHost := some toHost }
    opened := s.opened + 1
    s2sout := s.s2sout.set (fromHost, toHost) (some s.opened) }

/-- Only outgoing sessions are registered for their pair. -/
def unregister (s : State) (x : Session) : State :=
  match x.fromHost, x.toHost with
  | some fromHost, some toHost => { s with s2sout := s.s2sout.set (fromHost, toHost) none }
  | _, _ => s

/-- `destroy_session` unregisters the pair and clears the session. -/
def destroySession (s : State) (i : ℕ) : State :=
  if (s.sessions i).type = .s2sDestroyed then s
  else (s.unregister (s.sessions i)).amend i fun _ => {}

/-- The session changes its type, and an incoming one accepts the name. -/
def accept (s : State) (i : ℕ) (host : String) : State :=
  match (s.sessions i).type with
  | .s2soutUnauthed => s.amend i fun x => { x with type := .s2sout }
  | .s2sinUnauthed | .s2sin =>
    s.amend i fun x =>
      { x with
        type := .s2sin
        hosts := x.hosts.set host (some { (x.hosts.get host).getD {} with authed := true }) }
  | .s2sout | .s2sDestroyed => s

/-- `make_authenticated` for a name. The session is closed where the policy does not permit
it, and where the name is one of ours. -/
def makeAuthenticated (c : Config) (s : State) (i : ℕ) (host : String) (permitted : Bool) :
    State :=
  (if permitted && !c.hosts host then s else s.destroySession i).accept i host

/-! ## Our own key -/

/-- `initiate_dialback`. Without a stream id the key cannot be made. -/
def initiateDialback (c : Config) (s : State) (i : ℕ) : State :=
  match (s.sessions i).streamid, (s.sessions i).toHost, (s.sessions i).fromHost with
  | some id, some toHost, some fromHost =>
    let key := generateDialback c id toHost fromHost
    (s.amend i fun x => { x with dialbackKey := some key }).send
      (.result i { attrFrom := some fromHost, attrTo := some toHost, text := some key })
  | _, _, _ => s

/-- The answer to our `db:result`: whether the remote server accepts the key. -/
def resultOutgoing (c : Config) (s : State) (i : ℕ) (el : Element) (permitted : Bool) : State :=
  match el.attrTo, el.attrFrom with
  | some toHost, some fromHost =>
    if !c.hosts toHost then s.destroySession i
    else if s.s2sout.get (toHost, fromHost) ≠ some i then s.destroySession i
    else if el.type = some .valid then s.makeAuthenticated c i fromHost permitted
    else s.destroySession i
  | _, _ => s.destroySession i

/-- A `db:verify` that asks whether a key is ours. -/
def verifyIncoming (c : Config) (s : State) (i : ℕ) (el : Element) : State :=
  match el.type, el.id, el.attrFrom, el.attrTo with
  | none, some id, some fromHost, some toHost =>
    let verdict := if verifyDialback c id fromHost toHost el.text then .valid else .invalid
    s.send (.verify i
      { attrFrom := some toHost, attrTo := some fromHost, id := some id,
        type := some verdict, text := el.text })
  -- a type is ignored, and without an attribute the key cannot be made
  | _, _, _, _ => s

/-! ## The keys of others -/

/-- A `db:result` on an incoming session: its peer claims a name. -/
def resultIncoming (c : Config) (s : State) (i : ℕ) (el : Element) : State :=
  match (el.attrTo.bind c.nameprep).filter c.hosts, el.attrFrom.bind c.nameprep with
  | none, _ => s.destroySession i
  | some _, none => s.destroySession i
  | some toHost, some fromHost =>
    let s := s.amend i fun x =>
      { x with hosts := x.hosts.set fromHost (some { dialbackKey := el.text }) }
    match (s.sessions i).streamid with
    -- nothing can be concatenated to a missing stream id
    | none => s
    | some id =>
      { s with dialbackRequests := s.dialbackRequests.set (requestKey fromHost id) (some i) }
        |>.send (.routeVerify toHost fromHost
          { attrFrom := some toHost, attrTo := some fromHost, id := some id,
            text := el.text })

def forget (s : State) (key : String) : State :=
  { s with dialbackRequests := s.dialbackRequests.set key none }

/-- The verdict is passed on to the session that claimed the name, and the request is
forgotten. A name without an entry is an error, which comes before that. -/
def notify (s : State) (j : ℕ) (fromHost : String) (el : Element) : State :=
  let key := requestKey fromHost (el.id.getD "")
  if (s.sessions j).type = .s2sDestroyed then s.forget key
  else
    match (s.sessions j).hosts.get fromHost with
    | none => s
    | some status =>
      (s.send (.result j
        { attrFrom := el.attrTo, attrTo := some fromHost, id := el.id,
          type := some (if el.type = some .valid then .valid else .invalid),
          text := status.dialbackKey })).forget key

/-- A `db:verify` on an outgoing session: the verdict of the server of a name. -/
def verifyOutgoing (c : Config) (s : State) (i : ℕ) (el : Element) (permitted : Bool) : State :=
  match el.attrFrom with
  | none => s
  | some fromHost =>
    match s.dialbackRequests.get (requestKey fromHost (el.id.getD "")) with
    | none => s
    | some j =>
      if (s.sessions i).toHost = some fromHost then
        let s := if el.type = some .valid then s.makeAuthenticated c j fromHost permitted else s
        s.notify j fromHost el
      else s

end State

/-! ## Runs -/

/-- What can happen. Whether a session meets the encryption policy is decided by the
environment. -/
inductive Event
  | incoming
  | outgoing (fromHost toHost : String)
  | openedIncoming (i : ℕ) (random : ℕ → Fin 16)
  | openedOutgoing (i : ℕ) (id : String)
  | restart (i : ℕ)
  | initiate (i : ℕ)
  | result (i : ℕ) (el : Element) (permitted : Bool)
  | verify (i : ℕ) (el : Element) (permitted : Bool)
  | destroy (i : ℕ)
  | collect (key : String)

namespace State

/-- The session of a request that has been destroyed may be collected from the table. -/
def collect (s : State) (key : String) : State :=
  match s.dialbackRequests.get key with
  | some i =>
    if (s.sessions i).type = .s2sDestroyed then s.forget key else s
  | none => s

/-- One event. A stream has an id from its header until it is restarted. -/
def step (c : Config) (s : State) : Event → State
  | .incoming => s.newIncoming
  | .outgoing fromHost toHost => s.newOutgoing fromHost toHost
  | .openedIncoming i random =>
    if (s.sessions i).Incoming ∧ (s.sessions i).streamid = none then
      s.amend i fun x => { x with streamid := some (uuidGenerate random) }
    else s
  | .openedOutgoing i id =>
    if (s.sessions i).Outgoing ∧ (s.sessions i).streamid = none then
      s.amend i fun x => { x with streamid := some id }
    else s
  | .restart i => s.amend i fun x => { x with streamid := none }
  | .initiate i => if (s.sessions i).Outgoing then s.initiateDialback c i else s
  | .result i el permitted =>
    if (s.sessions i).Incoming then s.resultIncoming c i el
    else if (s.sessions i).Outgoing then s.resultOutgoing c i el permitted
    else s
  | .verify i el permitted =>
    if (s.sessions i).Incoming then s.verifyIncoming c i el
    else if (s.sessions i).Outgoing then s.verifyOutgoing c i el permitted
    else s
  | .destroy i => s.destroySession i
  | .collect key => s.collect key

end State

end Prosody.Dialback
