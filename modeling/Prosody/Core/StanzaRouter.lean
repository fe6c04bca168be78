import Mathlib.Data.Finset.Sort
import Prosody.Library.Table
import Prosody.Util.Jid

/-! # The stanza router

What `core_process_stanza` does with a stanza that has come in over some stream, up to the
point where it hands it on. -/

namespace Prosody.StanzaRouter

/-! ## Stanzas, streams and outcomes -/

/-- A child element, by its name and namespace. -/
structure Child where
  name : String
  xmlns : Option String
  deriving DecidableEq

structure Stanza where
  name : String
  xmlns : Option String
  type : Option String
  id : Option String
  sender : Option String
  recipient : Option String
  tags : List Child
  deriving DecidableEq

inductive OriginType where
  | c2s
  | c2sUnauthed
  | c2sUnbound
  | s2sin
  | s2sinUnauthed
  | s2sout
  | s2soutUnauthed
  | component
  | componentUnauthed
  deriving DecidableEq

/-- What is known of a host that a remote server speaks for. -/
structure HostStatus where
  authed : Bool
  deriving DecidableEq

/-- The session that a stanza came in over. Only clients are bound to a full address. -/
structure Origin where
  type : OriginType
  fullJid : Option String
  host : Option String
  toHost : Option String
  hosts : Table String HostStatus
  dummy : Bool
  canSend : Bool
  bound : fullJid ≠ none → type = .c2s

/-- What the router knows: the addresses of connected clients and of the hosts it serves, and
the events that some handler of a host takes care of. -/
structure Router where
  fullSessions : Finset String
  bareSessions : Finset String
  hosts : Finset String
  enc : Jid.Stringprep
  handles : String → String → Stanza → Bool

inductive Outcome where
  /-- `core_post_stanza`, after the `pre-` events of a client if it is bound. -/
  | post (stanza : Stanza) (preevents : Bool)
  /-- An error sent back over the stream. -/
  | reply (type condition : String)
  | dropped
  | closed (reason : String)
  /-- A handler for elements of the stream itself has taken it. -/
  | handled (event : String)
  deriving DecidableEq

def isError (type : Option String) : Bool := type = some "error"

def isErrorOrResult (type : Option String) : Bool := type = some "error" ∨ type = some "result"

def validStanza (name : String) : Bool := name = "message" ∨ name = "presence" ∨ name = "iq"

def handleUnhandledStanza (origin : Origin) (stanza : Stanza) : Outcome :=
  if (stanza.xmlns = none ∨ stanza.xmlns = some "jabber:client") ∧ validStanza stanza.name then
    if isError stanza.type ∨ (stanza.name = "iq" ∧ stanza.type = some "result") then .dropped
    else if origin.canSend then .reply "cancel" "service-unavailable"
    else .dropped
  else .closed "unsupported-stanza-type"

/-! ## Addresses -/

/-- The address is one of a connected client or of a host. -/
def Router.knows (rt : Router) (jid : String) : Bool :=
  jid ∈ rt.fullSessions ∨ jid ∈ rt.bareSessions ∨ jid ∈ rt.hosts

/-- Where a stanza goes: the node, the host, and the address that it is stamped with. -/
structure Destination where
  node : Option String
  host : Option String
  address : String
  deriving DecidableEq

/-- The destination by way of `prepped_split`. -/
def preppedDestination (enc : Jid.Stringprep) (jid : String) : Option Destination :=
  (Jid.preppedSplit enc jid).map fun parts => ⟨parts.node, some parts.host, parts.join⟩

def knownDestination (jid : String) : Destination :=
  match Jid.split jid with
  | none => ⟨none, none, jid⟩
  | some parts => ⟨parts.node, some parts.host, jid⟩

def Router.destination (rt : Router) (jid : String) : Option Destination :=
  if rt.knows jid then some (knownDestination jid) else preppedDestination rt.enc jid

/-! ## Processing -/

/-- What is wrong with a stanza from a client: the outcome, if it goes no further. -/
def checkClientStanza (origin : Origin) (stanza : Stanza) : Option Outcome :=
  if isError stanza.type ∧ stanza.tags = [] then some (handleUnhandledStanza origin stanza)
  else if stanza.name = "iq" then
    if stanza.type ∉ [some "set", some "get", some "result", some "error"] then
      some (.reply "modify" "bad-request")
    else if stanza.id = none then some (.reply "modify" "bad-request")
    else if (stanza.type = some "set" ∨ stanza.type = some "get") ∧ stanza.tags.length ≠ 1 then
      some (.reply "modify" "bad-request")
    else none
  else none

/-- Malformed addresses are answered unless the stanza is an answer itself. -/
def jidMalformed (stanza : Stanza) : Outcome :=
  if isErrorOrResult stanza.type then .dropped else .reply "modify" "jid-malformed"

/-- The event that handlers of the stream itself may take. -/
def streamEvent (stanza : Stanza) : String :=
  match stanza.xmlns with
  | some xmlns => "stanza/" ++ xmlns ++ ":" ++ stanza.name
  | none =>
    match stanza.tags with
    | ⟨name, some xmlns⟩ :: _ =>
      if stanza.name = "iq" ∧ (stanza.type = some "set" ∨ stanza.type = some "get") then
        "stanza/iq/" ++ xmlns ++ ":" ++ name
      else "stanza/" ++ stanza.name
    | _ => "stanza/" ++ stanza.name

/-- The stanza goes no further than the handlers of the stream itself. -/
def streamLevel (rt : Router) (origin : Origin) (stanza : Stanza) : Outcome :=
  match (stanza.recipient.or origin.host).or origin.toHost with
  | none => handleUnhandledStanza origin stanza
  | some host =>
    if host ∈ rt.hosts ∧ rt.handles host (streamEvent stanza) stanza then
      .handled (streamEvent stanza)
    else handleUnhandledStanza origin stanza

/-- The last part, once the addresses are in order: `fromHost` and `toHost` are the hosts they
name. -/
def dispatch (rt : Router) (origin : Origin) (stanza : Stanza) (fromHost toHost : Option String) :
    Outcome :=
  if (origin.type = .s2sin ∨ origin.type = .c2s ∨ origin.type = .component) ∧
      stanza.xmlns = none then
    if origin.type = .s2sin ∧ ¬ origin.dummy then
      -- a remote server that tries to impersonate another one
      if (fromHost.bind origin.hosts.get).any HostStatus.authed = false then
        .closed "not-authorized"
      else if ¬ toHost.any (· ∈ rt.hosts) then .closed "host-unknown"
      else .post stanza origin.fullJid.isSome
    else .post stanza origin.fullJid.isSome
  else streamLevel rt origin stanza

/-- The sender of anything but a client's stanza is prepped. -/
def processFrom (rt : Router) (origin : Origin) (stanza : Stanza) (toHost : Option String) :
    Outcome :=
  match stanza.sender with
  | none => dispatch rt origin stanza none toHost
  | some sender =>
    if origin.fullJid = none then
      match Jid.preppedSplit rt.enc sender with
      | none => jidMalformed stanza
      | some parts =>
        dispatch rt origin { stanza with sender := some parts.join } (some parts.host) toHost
    else dispatch rt origin stanza none toHost

def processTo (rt : Router) (origin : Origin) (stanza : Stanza) : Outcome :=
  match stanza.recipient with
  | none => processFrom rt origin stanza none
  | some recipient =>
    match rt.destination recipient with
    | none => jidMalformed stanza
    | some dest =>
      processFrom rt origin { stanza with recipient := some dest.address } dest.host

def coreProcessStanza (rt : Router) (origin : Origin) (stanza : Stanza) : Outcome :=
  if origin.type = .c2s ∧ stanza.xmlns = none then
    match checkClientStanza origin stanza with
    | some outcome => outcome
    | none => processTo rt origin { stanza with sender := origin.fullJid }
  else processTo rt origin stanza

/-! ## External components -/

/-- An external component, with its host and whether its addresses are validated. -/
structure Component where
  origin : Origin
  host : String
  validateFrom : Bool

/-- The checks of `handlestanza` in `mod_component.lua`. -/
def checkComponentStanza (c : Component) (stanza : Stanza) : Outcome ⊕ Stanza :=
  if stanza.xmlns = none ∨ stanza.xmlns = some "jabber:client" then
    match stanza.sender with
    | some sender =>
      if c.validateFrom ∧ (Jid.split sender).map Jid.host ≠ some c.host then
        .inl (.closed "invalid-from")
      else if stanza.recipient = none then .inl (.reply "modify" "bad-request")
      else .inr stanza
    | none =>
      if stanza.recipient = none then .inl (.reply "modify" "bad-request")
      else .inr { stanza with sender := some c.host }
  else .inr stanza

def handleComponentStanza (rt : Router) (c : Component) (stanza : Stanza) : Outcome :=
  let stanza :=
    if stanza.xmlns = none ∧ stanza.name = "handshake" then
      { stanza with xmlns := some "jabber:component:accept" }
    else stanza
  match checkComponentStanza c stanza with
  | .inl outcome => outcome
  | .inr stanza => coreProcessStanza rt c.origin stanza

end Prosody.StanzaRouter
