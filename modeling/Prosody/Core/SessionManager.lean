import Prosody.Library.Table

/-! # Sessions and their registry

The functions of `core/sessionmanager.lua` that enter sessions into the tables of the server
and take them out again. Sessions, the entries of users and their tables of resources are
objects with an identity. What event handlers, the configuration, the roster store and the
generator of identifiers decide is part of the input. -/

namespace Prosody.SessionManager

abbrev SessionId := Nat

abbrev TableId := Nat

@[ext] structure Host where
  name : String
  noSlash : '/' ∉ name.toList
  deriving DecidableEq

/-- A username that `nodeprep` has accepted. -/
@[ext] structure Username where
  name : String
  noAt : '@' ∉ name.toList
  deriving DecidableEq

structure Encodings where
  nodeprep : String → Option Username
  resourceprep : String → Option String

inductive SessionType where
  | c2sUnauthed
  | c2sUnbound
  | c2s
  | c2sDestroyed
  deriving DecidableEq

structure Session where
  type : SessionType
  username : Option Username
  host : Option Host
  resource : Option String
  fullJid : Option String
  destroyed : Bool
  deriving DecidableEq

/-- `resting_session`. -/
def restingSession : Session where
  type := .c2sDestroyed
  username := none
  host := none
  resource := none
  fullJid := none
  destroyed := true

/-- An entry of `hosts[host].sessions`: an object of its own with a table of resources. -/
structure User where
  id : Nat
  sessions : TableId
  deriving DecidableEq

/-- The registry: the session objects, the tables of resources, `hosts[host].sessions`,
`full_sessions` and `bare_sessions`. Identities from `fresh` on are not in use. -/
structure Registry where
  objects : Table SessionId Session
  tables : Table TableId (Table String SessionId)
  hostSessions : Table (Host × Username) User
  fullSessions : Table String SessionId
  bareSessions : Table String User
  fresh : Nat

def Registry.empty : Registry where
  objects := ∅
  tables := ∅
  hostSessions := ∅
  fullSessions := ∅
  bareSessions := ∅
  fresh := 0

/-- How a call ends: it returns, or a Lua error is raised. -/
inductive Ending where
  | returned
  | raised
  deriving DecidableEq

/-- What `bind_resource` returns after `nil`. -/
structure BindError where
  type : String
  condition : String
  text : Option String
  deriving DecidableEq

inductive BindResult where
  | ok
  | refused (error : BindError)
  | raised
  deriving DecidableEq

def bareJid (username : Username) (host : Host) : String :=
  username.name ++ "@" ++ host.name

def fullJid (username : Username) (host : Host) (resource : String) : String :=
  username.name ++ "@" ++ host.name ++ "/" ++ resource

namespace Session

/-- The session with a resource and a full address. -/
def bindTo (session : Session) (host : Host) (username : Username) (resource : String) : Session :=
  { session with
    resource := some resource
    fullJid := some (SessionManager.fullJid username host resource) }

def toC2s (session : Session) : Session :=
  { session with type := if session.type = .c2sUnbound then .c2s else session.type }

/-- What the roll-back of `bind_resource` does to the session. -/
def unbind (session : Session) : Session :=
  { session with
    fullJid := none
    resource := none
    type := if session.type = .c2s then .c2sUnbound else session.type }

end Session

namespace Registry

variable (r : Registry)

def resources (user : User) : Table String SessionId :=
  (r.tables.get user.sessions).getD ∅

def setResource (user : User) (resource : String) (session : Option SessionId) : Registry :=
  { r with
    tables := r.tables.set user.sessions (some ((r.resources user).set resource session)) }

def modifySession (id : SessionId) (change : Session → Session) : Registry :=
  { r with objects := r.objects.set id ((r.objects.get id).map change) }

/-- The user's entries are removed from `hosts[host].sessions` and `bare_sessions`. -/
def dropUser (host : Host) (username : Username) : Registry :=
  { r with
    hostSessions := r.hostSessions.set (host, username) none
    bareSessions := r.bareSessions.set (bareJid username host) none }

/-- A new entry for a user, which has the table `sessions`. -/
def addUser (host : Host) (username : Username) (sessions : TableId) : Registry :=
  let user : User := { id := r.fresh, sessions := sessions }
  { r with
    hostSessions := r.hostSessions.set (host, username) (some user)
    bareSessions := r.bareSessions.set (bareJid username host) (some user)
    fresh := r.fresh + 1 }

/-! ## The end of a session -/

/-- `retire_session`: what is left of a session is what it inherits from `resting_session`. -/
def retireSession (id : SessionId) : Registry :=
  r.modifySession id fun _ => restingSession

/-- `destroy_session`, where `veto` is the answer of the `pre-resource-unbind` handlers. -/
def destroySession (id : SessionId) (veto : Bool) : Ending × Registry :=
  match r.objects.get id with
  | none => (.returned, r)
  | some session =>
    if session.destroyed then (.returned, r)
    else
      match session.fullJid with
      | none => (.returned, r.retireSession id)
      | some full =>
        match session.host with
        | none => (.raised, r)
        | some host =>
          if veto then (.returned, r)
          else
            match session.username, session.resource with
            | some username, some resource =>
              match r.hostSessions.get (host, username) with
              | none => (.raised, r)
              | some user =>
                let r := r.setResource user resource none
                let r := { r with fullSessions := r.fullSessions.set full none }
                let r :=
                  if (r.resources user).keys = ∅ then r.dropUser host username else r
                (.returned, r.retireSession id)
            | _, _ => (.raised, r)

/-- The calls of `destroy_session` that `session:close` makes, with their answers. -/
def closeSession (id : SessionId) : List Bool → Registry → Ending × Registry
  | [], r => (.returned, r)
  | veto :: vetoes, r =>
    match r.destroySession id veto with
    | (.returned, r) => closeSession id vetoes r
    | (.raised, r) => (.raised, r)

/-! ## Authentication -/

/-- `make_authenticated`. -/
def makeAuthenticated (enc : Encodings) (id : SessionId) (username : String) : Registry :=
  match enc.nodeprep username with
  | none => r
  | some username =>
    if username.name = "" then r
    else
      r.modifySession id fun session =>
        { session with
          username := some username
          type := if session.type = .c2sUnauthed then .c2sUnbound else session.type }

/-- `new_session`, for a stream to `host`. -/
def newSession (host : Host) : SessionId × Registry :=
  (r.fresh,
    { r with
      objects := r.objects.set r.fresh (some
        { type := .c2sUnauthed
          username := none
          host := some host
          resource := none
          fullJid := none
          destroyed := false })
      fresh := r.fresh + 1 })

end Registry

/-! ## Binding -/

/-- The option `conflict_resolve`. Every other value is like `kick_old`. -/
inductive ConflictPolicy where
  | random
  | increment
  | kickNew
  | kickOld
  deriving DecidableEq

/-- The answer of the `pre-resource-bind` handlers: `false`, with the error they have put into
the event, or anything else, with the resource that they have left there. -/
inductive PreBind where
  | refused (error : Option BindError)
  | proceed (resource : Option String)

/-- The input of `bind_resource`: the answer of the handlers, who have seen the requested
resource, the identifiers that are generated in place of an empty resource and of one that is
taken, the answers to the attempts of a kicked session to be destroyed, and whether the roster
can be loaded. -/
structure Binding where
  preBind : PreBind
  identifier : String
  policy : ConflictPolicy
  replacement : String
  closing : List Bool
  rosterLoads : Bool

def prepResource (enc : Encodings) (resource : Option String) (identifier : String) : String :=
  match resource.bind enc.resourceprep with
  | some resource => if resource = "" then identifier else resource
  | none => identifier

def numbered (resource : String) (count : Nat) : String :=
  resource ++ "#" ++ toString count

/-- `while sessions[resource.."#"..count] do count = count + 1; end`. -/
def nextCount (sessions : Table String SessionId) (resource : String) : Nat → Nat → Nat
  | 0, count => count
  | fuel + 1, count =>
    if (sessions.get (numbered resource count)).isSome then
      nextCount sessions resource fuel (count + 1)
    else count

/-- A resource that is not taken. The loop ends within as many rounds as there are sessions. -/
def incremented (sessions : Table String SessionId) (resource : String) : String :=
  if (sessions.get resource).isSome then
    numbered resource (nextCount sessions resource sessions.keys.card 1)
  else resource

/-- What has become of the requested resource: one that is free now, a refusal or an error. -/
inductive Resolution where
  | free (resource : String) (r : Registry)
  | refused (error : BindError)
  | raised (r : Registry)

namespace Registry

variable (r : Registry)

/-- The part of `bind_resource` that finds or makes the user's entry and resolves a conflict. -/
def resolveConflict (host : Host) (username : Username) (resource : String) (b : Binding) :
    Resolution :=
  match r.hostSessions.get (host, username) with
  | none =>
    .free resource
      ({ r with tables := r.tables.set r.fresh (some ∅) }.addUser host username r.fresh)
  | some user =>
    match (r.resources user).get resource with
    | none => .free resource r
    | some old =>
      match b.policy with
      | .random => .free (incremented (r.resources user) b.replacement) r
      | .increment => .free (incremented (r.resources user) resource) r
      | .kickNew =>
        .refused
          { type := "cancel", condition := "conflict", text := some "Resource already exists" }
      | .kickOld =>
        match closeSession old b.closing r with
        | (.raised, r) => .raised r
        | (.returned, r) =>
          if (r.resources user).keys = ∅ then
            .free resource (r.addUser host username user.sessions)
          else .free resource r

/-- The roll-back of `bind_resource` when the roster cannot be loaded. -/
def unbindResource (id : SessionId) (host : Host) (username : Username) (resource : String) :
    BindResult × Registry :=
  let r := { r with fullSessions := r.fullSessions.set (fullJid username host resource) none }
  match r.hostSessions.get (host, username) with
  | none => (.raised, r)
  | some user =>
    let r := r.setResource user resource none
    let r := r.modifySession id Session.unbind
    match r.bareSessions.get (bareJid username host) with
    | none => (.raised, r)
    | some user =>
      let r := if (r.resources user).keys = ∅ then r.dropUser host username else r
      (.refused
        { type := "cancel"
          condition := "internal-server-error"
          text := some "Error loading roster" }, r)

/-- The assignments of `bind_resource` that enter a session into the tables. -/
def enterSession (id : SessionId) (host : Host) (username : Username) (resource : String)
    (user : User) : Registry :=
  let r := r.modifySession id fun session => session.bindTo host username resource
  let r := r.setResource user resource (some id)
  let r := { r with
    fullSessions := r.fullSessions.set (fullJid username host resource) (some id) }
  r.modifySession id Session.toC2s

/-- The part of `bind_resource` that registers the session with a resource. -/
def register (id : SessionId) (host : Host) (username : Username) (resource : String)
    (rosterLoads : Bool) : BindResult × Registry :=
  match r.hostSessions.get (host, username) with
  | none => (.raised, r.modifySession id fun session => session.bindTo host username resource)
  | some user =>
    let r := r.enterSession id host username resource user
    if rosterLoads then (.ok, r) else r.unbindResource id host username resource

/-- `bind_resource`. -/
def bindResource (enc : Encodings) (id : SessionId) (b : Binding) : BindResult × Registry :=
  match r.objects.get id with
  | none => (.raised, r)
  | some session =>
    match session.username with
    | none =>
      (.refused
        { type := "auth"
          condition := "not-authorized"
          text := some "Cannot bind resource before authentication" }, r)
    | some username =>
      if session.resource.isSome then
        (.refused
          { type := "cancel"
            condition := "not-allowed"
            text := some "Cannot bind multiple resources on a single connection" }, r)
      else
        match session.host with
        | none => (.raised, r)
        | some host =>
          match b.preBind with
          | .refused (some error) => (.refused error, r)
          | .refused none =>
            (.refused { type := "cancel", condition := "not-allowed", text := none }, r)
          | .proceed resource =>
            match r.resolveConflict host username
                (prepResource enc resource b.identifier) b with
            | .refused error => (.refused error, r)
            | .raised r => (.raised, r)
            | .free resource r => r.register id host username resource b.rosterLoads

end Registry

/-! ## Runs -/

/-- A client connects to a host and authenticates, binds a resource, or a session is destroyed. -/
inductive Op where
  | connect (host : Host) (username : String)
  | bind (id : SessionId) (binding : Binding)
  | destroy (id : SessionId) (veto : Bool)

def Registry.step (enc : Encodings) (r : Registry) : Op → Registry
  | .connect host username =>
    let (id, r) := r.newSession host
    r.makeAuthenticated enc id username
  | .bind id binding => (r.bindResource enc id binding).2
  | .destroy id veto => (r.destroySession id veto).2

end Prosody.SessionManager
