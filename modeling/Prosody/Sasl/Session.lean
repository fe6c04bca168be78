import Prosody.Library.Runs
import Prosody.Sasl.Handler

/-! # SASL on a client stream

`mod_saslauth` for one client session on a host with users: the elements `auth`, `response`
and `abort` in any order, between them restarts of the stream, one of which may turn
encryption on. -/

namespace Prosody.Sasl

inductive SessionType
  | c2sUnauthed | c2sUnbound | c2sDestroyed
  deriving DecidableEq, Repr

/-- A reply as `build_reply` makes it: the name of the element, the condition of a failure,
and the text. -/
structure Reply where
  name : Status
  condition : Option String := none
  text : Option String := none
  deriving DecidableEq, Repr

/-- What a session is sent: a reply, or stream features with the mechanisms that are offered
or with resource binding. -/
inductive Sent
  | reply (r : Reply)
  | mechanisms (names : List String)
  | bind
  deriving DecidableEq, Repr

/-- `secure` is absent on a plain stream, and `false` while encryption is negotiated. -/
structure Session (π σ : Type) where
  type : SessionType := .c2sUnauthed
  secure : Option Bool := none
  encrypted : Bool := false
  username : Option String := none
  saslHandler : Option (Handler π σ) := none
  sent : List Sent := []

/-- The options of the module, and the functions it uses. The authentication provider and
the mechanisms may depend on a value of the environment. -/
structure Config (ω π σ : Type) where
  secureAuthOnly : Bool := false
  insecureMechanisms : List String := ["PLAIN", "LOGIN"]
  disabledMechanisms : List String := ["DIGEST-MD5"]
  registeredMechanisms : Mechanisms ω π σ
  channelBindings : String → Option (List String) := fun _ => none
  provider : ω → String × Profile π
  nodeprep : String → Option String
  base64Decode : String → Option String
  base64Encode : String → String
  getpeerfinished : Bool := false

variable {ω π σ : Type}

namespace Config

/-- `usermanager.get_sasl_handler`: every provider makes a new handler. -/
def getSaslHandler (c : Config ω π σ) (w : ω) : Handler π σ :=
  .new (c.provider w).1 (c.provider w).2

/-- Whether the options keep a mechanism from a session with this security. -/
def forbids (c : Config ω π σ) (secure : Bool) (mechanism : Option String) : Bool :=
  !secure && (c.secureAuthOnly || mechanism.any c.insecureMechanisms.contains)

def disables (c : Config ω π σ) (mechanism : Option String) : Bool :=
  mechanism.any c.disabledMechanisms.contains

def buildReply (c : Config ω π σ) (o : Outcome) : Reply :=
  match o.status with
  | .failure => { name := .failure, condition := o.ret, text := o.errMsg }
  | .challenge | .success =>
    { name := o.status
      text := o.ret.map fun ret => if ret = "" then "=" else c.base64Encode ret }
  | .other name => { name := .other name }

/-- The content of an element, where it has one that is not encoded properly absent. -/
def decode (c : Config ω π σ) (text : Option String) : Option (Option String) :=
  match text with
  | none => some none
  | some text => (c.base64Decode text).map some

end Config

namespace Session

def isSecure (s : Session π σ) : Bool := s.secure == some true

def send (s : Session π σ) (m : Sent) : Session π σ := { s with sent := s.sent ++ [m] }

def refuse (s : Session π σ) (condition : String) (text : Option String) : Session π σ :=
  s.send (.reply { name := .failure, condition := some condition, text := text })

def close (s : Session π σ) : Session π σ := { s with type := .c2sDestroyed, saslHandler := none }

/-- `make_authenticated` of the session manager. -/
def makeAuthenticated (c : Config ω π σ) (s : Session π σ) (username : Option String) :
    Option (Session π σ) :=
  match nonempty (username.bind c.nodeprep) with
  | none => none
  | some username =>
    some { s with
      username := some username
      type := if s.type = .c2sUnauthed then .c2sUnbound else s.type }

/-- `handle_status`, for the handler that has made the outcome. -/
def handleStatus (c : Config ω π σ) (s : Session π σ) (h : Handler π σ) (o : Outcome) :
    Session π σ × Outcome :=
  match o.status with
  | .failure => ({ s with saslHandler := some h.cleanClone }, o)
  | .success =>
    match s.makeAuthenticated c h.exchange.username with
    | some s => ({ s with saslHandler := none }, o)
    | none =>
      ({ s with saslHandler := some h.cleanClone },
        ⟨.failure, some "not-authorized",
          some "User authenticated successfully, but username was invalid"⟩)
  | .challenge | .other _ => ({ s with saslHandler := some h }, o)

/-- `sasl_process_cdata` -/
def processCdata (c : Config ω π σ) (s : Session π σ) (h : Handler π σ) (text : Option String)
    (w : ω) : Session π σ :=
  match c.decode text with
  | none => { s with saslHandler := none }.refuse "incorrect-encoding" none
  | some message =>
    let r := h.process c.registeredMechanisms w message
    let t := s.handleStatus c r.1 r.2
    t.1.send (.reply (c.buildReply t.2))

/-- The handler that an `auth` finds: an exchange that has begun is given up. -/
def freshHandler (c : Config ω π σ) (s : Session π σ) (w : ω) : Handler π σ :=
  match s.saslHandler with
  | some h => if h.selected.isSome then c.getSaslHandler w else h
  | none => c.getSaslHandler w

/-- The `auth` hook. On an authenticated session nobody handles the element. -/
def auth (c : Config ω π σ) (s : Session π σ) (mechanism text : Option String) (w : ω) :
    Session π σ :=
  if s.type ≠ .c2sUnauthed then s.close
  else
    let h := s.freshHandler c w
    let s := { s with saslHandler := some h }
    if c.forbids s.isSecure mechanism then s.refuse "encryption-required" none
    else if c.disables mechanism then s.refuse "invalid-mechanism" none
    else
      match h.select mechanism with
      | none => s.refuse "invalid-mechanism" none
      | some h => s.processCdata c h text w

/-- The `response` hook. -/
def response (c : Config ω π σ) (s : Session π σ) (text : Option String) (w : ω) :
    Session π σ :=
  match s.saslHandler with
  | none => s.refuse "not-authorized" (some "Out of order SASL element")
  | some h =>
    if h.selected.isSome then s.processCdata c h text w
    else s.refuse "not-authorized" (some "Out of order SASL element")

/-- The `abort` hook. -/
def abort (s : Session π σ) : Session π σ :=
  { s with saslHandler := none }.refuse "aborted" none

/-- The `stream-features` hook. -/
def features (c : Config ω π σ) (s : Session π σ) (w : ω) : Session π σ :=
  match s.username with
  | some _ => s.send .bind
  | none =>
    if c.secureAuthOnly && !s.isSecure then s
    else
      let h := c.getSaslHandler w
      let h := if s.encrypted && c.getpeerfinished then h.addCbHandler "tls-unique" else h
      { s with saslHandler := some h }.send (.mechanisms
        ((h.mechanisms c.channelBindings).filter fun mechanism =>
          !c.disables (some mechanism) &&
            (s.isSecure || !c.insecureMechanisms.contains mechanism)))

/-- The `starttls` hook of `mod_tls`. -/
def starttls (s : Session π σ) (canDoTls : Bool) : Session π σ :=
  if canDoTls then { s with secure := some false } else s.close

/-- A stream header. The first one after `starttls` comes encrypted. -/
def streamOpened (c : Config ω π σ) (s : Session π σ) (w : ω) : Session π σ :=
  if s.secure = some false then
    { s with secure := some true, encrypted := true }.features c w
  else s.features c w

end Session

/-- What a client can do. Each value of the environment serves one element. -/
inductive Event (ω : Type)
  | auth (mechanism text : Option String) (w : ω)
  | response (text : Option String) (w : ω)
  | abort
  | starttls (canDoTls : Bool)
  | streamOpened (w : ω)
  | closed

/-- One event. A destroyed session receives nothing. -/
def Session.step (c : Config ω π σ) (s : Session π σ) (e : Event ω) : Session π σ :=
  if s.type = .c2sDestroyed then s
  else
    match e with
    | .auth mechanism text w => s.auth c mechanism text w
    | .response text w => s.response c text w
    | .abort => s.abort
    | .starttls canDoTls => s.starttls canDoTls
    | .streamOpened w => s.streamOpened c w
    | .closed => s.close

end Prosody.Sasl
