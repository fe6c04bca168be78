import Prosody.Library.Amend
import Prosody.Library.Runs

/-! # Outgoing server-to-server sessions

`mod_s2s` and `s2smanager` for one pair of hosts: `from_host` is served here, `to_host` is
not. A session is named by its position in the order in which the pair's sessions were
opened. Stanzas are numbered as they are submitted, and the state records what became of
each: `written` to a stream, or `bounced` to its sender. -/

namespace Prosody.S2s

inductive StanzaName
  | message | presence | iq
  deriving DecidableEq, Repr

/-- The type of a stanza, as far as routing looks at it. -/
inductive StanzaType
  | ordinary | error | result
  deriving DecidableEq, Repr

structure Stanza where
  name : StanzaName
  type : StanzaType
  deriving DecidableEq, Repr

/-- A stanza with its number. A reply can be made for it unless it is one itself. -/
structure Item where
  id : ℕ
  stanza : Stanza
  deriving DecidableEq, Repr

/-- `stanza.attr.type ~= "error" and stanza.attr.type ~= "result" and st.reply(stanza)` -/
def Item.hasReply (x : Item) : Bool :=
  x.stanza.type != .error && x.stanza.type != .result

inductive SessionType
  | s2soutUnauthed | s2sout | s2sDestroyed
  deriving DecidableEq, Repr

inductive ExternalAuth
  | unset | attempting | succeeded | failed
  deriving DecidableEq, Repr

/-- A session as `new_outgoing` makes it. An absent `sendq` is an empty one. -/
structure Session where
  type : SessionType := .s2soutUnauthed
  externalAuth : ExternalAuth := .unset
  sendq : List Item := []
  deriving DecidableEq, Repr

/-- A stanza handed to the stream of a session, and the type of the session then. -/
structure Write where
  session : ℕ
  item : Item
  type : SessionType
  deriving DecidableEq, Repr

/-- Everything about the pair. `s2sout` is `hosts[from_host].s2sout[to_host]`. -/
structure State where
  sessions : ℕ → Session := fun _ => {}
  opened : ℕ := 0
  s2sout : Option ℕ := none
  submitted : List Item := []
  written : List Write := []
  bounced : List Item := []

namespace State

/-! ## Sessions -/

/-- Session `i` has been opened and not been destroyed. -/
def Live (s : State) (i : ℕ) : Prop :=
  i < s.opened ∧ (s.sessions i).type ≠ .s2sDestroyed

instance (s : State) (i : ℕ) : Decidable (s.Live i) :=
  inferInstanceAs (Decidable (_ ∧ _))

/-- Replace session `i` by what `f` makes of it. -/
def amend (s : State) (i : ℕ) (f : Session → Session) : State :=
  { s with sessions := Function.amend s.sessions i f }

/-- `new_outgoing`, with the queue that `route_to_new_session` gives the session. -/
def newOutgoing (s : State) (sendq : List Item) : State :=
  { s with
    sessions := Function.update s.sessions s.opened { sendq := sendq }
    opened := s.opened + 1
    s2sout := some s.opened }

/-- `bounce_sendq`: an error reply for each queued stanza that has a reply. -/
def bounceSendq (s : State) (i : ℕ) : State :=
  let replies := (s.sessions i).sendq.filter Item.hasReply
  { s.amend i (fun x => { x with sendq := [] }) with bounced := s.bounced ++ replies }

/-- `retire_session` clears every field. -/
def retireSession (s : State) (i : ℕ) : State :=
  s.amend i fun _ => { type := .s2sDestroyed }

/-- `destroy_session`. The pair is unregistered whichever session is registered for it. -/
def destroySession (s : State) (i : ℕ) : State :=
  if (s.sessions i).type = .s2sDestroyed then s
  else (({ s with s2sout := none }).bounceSendq i).retireSession i

/-- `mark_connected`: the queue is written, without a look at the results. A write that
`sends` refuses leaves no trace. -/
def markConnected (s : State) (i : ℕ) (sends : Item → Bool) : State :=
  let sent := (s.sessions i).sendq.filter sends
  { s.amend i (fun x => { x with sendq := [] }) with
    written := s.written ++ sent.map fun x => ⟨i, x, (s.sessions i).type⟩ }

/-- `make_authenticated`. Where the session is not `permitted`, for want of encryption or
because the host is one of ours, it is closed first. After SASL EXTERNAL the stream is not
ready for stanzas before its features have come. -/
def makeAuthenticated (s : State) (i : ℕ) (permitted : Bool) (sends : Item → Bool) : State :=
  let s := if permitted then s else s.destroySession i
  if (s.sessions i).type = .s2soutUnauthed then
    let s := s.amend i fun x => { x with type := .s2sout }
    if (s.sessions i).externalAuth ≠ .succeeded then s.markConnected i sends else s
  else s

/-! ## Submitting stanzas -/

/-- `route_to_existing_session`, and whether it has handled the stanza. -/
def routeToExistingSession (s : State) (x : Item) (writes : Bool) : State × Bool :=
  match s.s2sout with
  | none => (s, false)
  | some i =>
    match (s.sessions i).type with
    | .s2soutUnauthed => (s.amend i fun h => { h with sendq := h.sendq ++ [x] }, true)
    | .s2sout =>
      if writes then ({ s with written := s.written ++ [⟨i, x, .s2sout⟩] }, true)
      else (s, false)
    -- the `sends2s` of a retired session discards and returns nothing
    | .s2sDestroyed => (s, false)

/-- `route_to_new_session`. It has handled the stanza unless there is no way to connect. -/
def routeToNewSession (s : State) (x : Item) (connects : Bool) : State × Bool :=
  let s' := s.newOutgoing [x]
  if connects then (s', true) else (s'.destroySession s.opened, false)

/-- The `route/remote` event: the first handler that handles the stanza is the last. -/
def routeRemote (s : State) (x : Item) (writes connects : Bool) : State × Bool :=
  let r := s.routeToExistingSession x writes
  if r.2 then r else r.1.routeToNewSession x connects

/-- Whether `core_route_stanza` answers when the stanza could not be routed. -/
def notAllowedReply (x : Item) : List Item :=
  if x.stanza.type = .error ∨ x.stanza.name = .iq ∧ x.stanza.type = .result then [] else [x]

def next (s : State) (stanza : Stanza) : Item :=
  ⟨s.submitted.length, stanza⟩

/-- The pair once `x` has been given its number. -/
def number (s : State) (x : Item) : State :=
  { s with submitted := s.submitted ++ [x] }

/-- `core_route_stanza` for a stanza to the remote host. -/
def coreRouteStanza (s : State) (stanza : Stanza) (writes connects : Bool) : State :=
  let x := s.next stanza
  let r := (s.number x).routeRemote x writes connects
  if r.2 then r.1 else { r.1 with bounced := r.1.bounced ++ notAllowedReply x }

end State

/-! ## What the remote server sends -/

/-- What the handlers of a stream element decide to do with the session. -/
inductive Reaction
  | ignore
  | attempt
  | fail
  | authenticate (external : Bool)
  | connected
  | close
  deriving DecidableEq, Repr

namespace Session

/-- The `features` hooks of `mod_saslauth`, `mod_dialback` and `mod_s2s` in order of
priority. EXTERNAL is `offered` only on a secure stream. -/
def features (x : Session) (offered : Bool) : Reaction :=
  if x.type = .s2soutUnauthed ∧ offered then .attempt
  -- dialback is started, or started again
  else if x.externalAuth = .unset ∨ x.externalAuth = .failed then .ignore
  else if x.type = .s2sout then .connected
  else .close

/-- The `success` hook of `mod_saslauth`. An element nobody handles closes the stream. -/
def success (x : Session) : Reaction :=
  if x.type = .s2soutUnauthed ∧ x.externalAuth = .attempting then .authenticate true
  else .close

/-- The `failure` hooks of `mod_saslauth`, with the fallback to dialback between them. -/
def failure (x : Session) : Reaction :=
  if x.type = .s2soutUnauthed ∧ x.externalAuth = .attempting then .fail
  else if x.externalAuth = .failed then .ignore
  else .close

end Session

/-- The `db:result` hook of `mod_dialback` for a session that is `registered` for the
hosts the element names. -/
def dialbackResult (registered valid : Bool) : Reaction :=
  if registered then (if valid then .authenticate false else .close) else .close

/-- What a stream reports: the header of the remote server, an element of the negotiation,
or that the session is over, for whatever reason. -/
inductive StreamEvent
  | opened (hasId : Bool)
  | features (offered : Bool)
  | success
  | failure
  | result (addressed valid : Bool)
  | closed
  deriving DecidableEq, Repr

/-- What can happen to the pair. The environment decides which writes succeed, whether a
connection can be attempted, and whether the policy permits the session. -/
inductive Event
  | submit (stanza : Stanza) (writes connects : Bool)
  | stream (i : ℕ) (e : StreamEvent) (permitted : Bool) (sends : Item → Bool)

namespace State

/-- What the handlers of a stream event decide for session `i`. -/
def reaction (s : State) (i : ℕ) : StreamEvent → Reaction
  | .opened hasId => if hasId then .ignore else .close
  | .features offered => (s.sessions i).features offered
  | .success => (s.sessions i).success
  | .failure => (s.sessions i).failure
  | .result addressed valid => dialbackResult (addressed && s.s2sout == some i) valid
  | .closed => .close

def react (s : State) (i : ℕ) (permitted : Bool) (sends : Item → Bool) : Reaction → State
  | .ignore => s
  | .attempt => s.amend i fun x => { x with externalAuth := .attempting }
  | .fail => s.amend i fun x => { x with externalAuth := .failed }
  | .authenticate true =>
    (s.amend i fun x => { x with externalAuth := .succeeded }).makeAuthenticated i
      permitted sends
  | .authenticate false => s.makeAuthenticated i permitted sends
  | .connected => s.markConnected i sends
  | .close => s.destroySession i

/-- One event. A retired session discards what it receives. -/
def step (s : State) : Event → State
  | .submit stanza writes connects => s.coreRouteStanza stanza writes connects
  | .stream i e permitted sends =>
    if s.Live i then s.react i permitted sends (s.reaction i e) else s

end State

end Prosody.S2s
