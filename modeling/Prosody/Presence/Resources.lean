import Prosody.Core.Registry

/-! # The resources of a user and their priorities

`util/presence.lua` and what `plugins/mod_presence.lua` and `core/sessionmanager.lua` do to the
fields it depends on, for the sessions of one user. The presence of a session that ends is
dispatched at once. -/

namespace Prosody.Resources

open SessionManager (SessionId ConflictPolicy incremented)

structure Session where
  resource : String
  /-- `session.presence` is set. -/
  presence : Bool
  priority : Option Int
  wantCarbons : Bool
  deriving DecidableEq

/-- The entry of the user in `bare_sessions`. -/
structure User where
  sessions : Table String SessionId
  topResources : Option (List SessionId)
  deriving DecidableEq

/-- The session objects that are in use, and the entry of the user. -/
structure State where
  objects : Table SessionId Session
  user : Option User
  deriving DecidableEq

def State.empty : State := { objects := ∅, user := none }

/-! ## Top resources -/

/-- One round of the loop of `select_top_resources`. Comparing a missing priority raises an
error. -/
def selectStep (objects : Table SessionId Session) (best : Int × List SessionId)
    (id : SessionId) : Option (Int × List SessionId) :=
  match objects.get id with
  | none => some best
  | some session =>
    if session.presence then
      match session.priority with
      | none => none
      | some p =>
        if best.1 < p then some (p, [id])
        else if p = best.1 then some (p, best.2 ++ [id])
        else some best
    else some best

def selectLoop (objects : Table SessionId Session) :
    List SessionId → Int × List SessionId → Option (Int × List SessionId)
  | [], best => some best
  | id :: ids, best => (selectStep objects best id).bind (selectLoop objects ids)

/-- The sessions of a user as `pairs` comes across them. -/
def User.listed (ord : KeyOrder String) (user : User) : List SessionId :=
  (ord.keys user.sessions.keys).filterMap user.sessions.get

def selectTopResources (ord : KeyOrder String) (objects : Table SessionId Session) (user : User) :
    Option (List SessionId) :=
  (selectLoop objects (user.listed ord) (0, [])).map Prod.snd

def recalcResourceMap (ord : KeyOrder String) (objects : Table SessionId Session) (user : User) :
    Option User :=
  (selectTopResources ord objects user).map fun recipients =>
    { user with topResources := if recipients = [] then none else some recipients }

/-! ## Presence -/

/-- The match with `^[+-]?[0-9]+$`. -/
def isPriority (text : String) : Bool :=
  let digits := match text.toList with
    | '+' :: digits => digits
    | '-' :: digits => digits
    | digits => digits
  digits ≠ [] ∧ digits.all Char.isDigit

/-- `tonumber`, for such a text. -/
def readPriority (text : String) : Int :=
  let value (digits : List Char) : Int :=
    digits.foldl (fun (n : Int) c => 10 * n + (c.toNat - '0'.toNat : Nat)) 0
  match text.toList with
  | '+' :: digits => value digits
  | '-' :: digits => - value digits
  | digits => value digits

def presencePriority (ignorePriority : Bool) (text : Option String) : Int :=
  let text := if ignorePriority then text.map fun _ => "0" else text
  match text with
  | none => 0
  | some text => if isPriority text then max (-128) (min 127 (readPriority text)) else 0

namespace State

variable (ord : KeyOrder String)

def recalc (s : State) : Option State :=
  match s.user with
  | none => some s
  | some user => (recalcResourceMap ord s.objects user).map fun user => { s with user := some user }

def setSession (s : State) (id : SessionId) (session : Option Session) : State :=
  { s with objects := s.objects.set id session }

/-- What `handle_normal_presence` does to the session that sends it. -/
def handleNormalPresence (s : State) (id : SessionId) (available : Bool) (priority : Int) :
    Option State :=
  match s.objects.get id with
  | none => some s
  | some session =>
    if available then
      if session.priority = some priority then
        some (s.setSession id (some { session with presence := true }))
      else
        (s.setSession id (some { session with presence := true, priority := some priority })).recalc
          ord
    else if session.priority.isSome then
      (s.setSession id (some { session with presence := false, priority := none })).recalc ord
    else
      some (s.setSession id (some { session with presence := false }))

/-- The user loses a resource, and with the last one the entry. -/
def without (s : State) (user : User) (resource : String) : State :=
  let user := { user with sessions := user.sessions.set resource none }
  { s with user := if user.sessions.keys = ∅ then none else some user }

/-- `destroy_session`, with the handler of `resource-unbind`. -/
def destroy (s : State) (id : SessionId) : Option State :=
  match s.objects.get id with
  | none => some s
  | some session =>
    match s.user with
    -- indexing the missing entry raises an error
    | none => none
    | some user =>
      let s := s.without user session.resource
      let s := if session.presence then s.handleNormalPresence ord id false 0 else some s
      -- the session is retired
      s.map fun s => s.setSession id none

inductive Resolution where
  | refused
  | free (resource : String) (s : State)

def resolve (s : State) (resource : String) (policy : ConflictPolicy) (replacement : String) :
    Option Resolution :=
  match s.user with
  | none => some (.free resource { s with user := some ⟨∅, none⟩ })
  | some user =>
    match user.sessions.get resource with
    | none => some (.free resource s)
    | some old =>
      match policy with
      | .random => some (.free (incremented user.sessions replacement) s)
      | .increment => some (.free (incremented user.sessions resource) s)
      | .kickNew => some .refused
      | .kickOld =>
        (s.destroy ord old).map fun s =>
          if s.user = none then .free resource { s with user := some ⟨∅, none⟩ }
          else .free resource s

/-- The session gets the resource, unless the roster cannot be loaded. -/
def register (s : State) (id : SessionId) (resource : String) (rosterLoads : Bool) : State :=
  match s.user with
  | none => s
  | some user =>
    if rosterLoads then
      { objects := s.objects.set id (some
          { resource := resource
            presence := false
            priority := none
            wantCarbons := false })
        user := some { user with sessions := user.sessions.set resource (some id) } }
    else s.without user resource

/-- `bind_resource`. A session has one resource only. -/
def bind (s : State) (id : SessionId) (resource : String) (policy : ConflictPolicy)
    (replacement : String) (rosterLoads : Bool) : Option State :=
  if (s.objects.get id).isSome then some s
  else
    match s.resolve ord resource policy replacement with
    | none => none
    | some .refused => some s
    | some (.free resource s) => some (s.register id resource rosterLoads)

end State

/-! ## Runs -/

inductive Op where
  | bind (id : SessionId) (resource : String) (policy : ConflictPolicy) (replacement : String)
      (rosterLoads : Bool)
  | presence (id : SessionId) (available : Bool) (priority : Option String)
  | toggleCarbons (id : SessionId) (enable : Bool)
  | destroy (id : SessionId)

/-- One operation, with the order in which `pairs` enumerates resources meanwhile. -/
def State.step (ignorePriority : Bool) (s : State) : KeyOrder String × Op → Option State
  | (ord, .bind id resource policy replacement rosterLoads) =>
    s.bind ord id resource policy replacement rosterLoads
  | (ord, .presence id available priority) =>
    s.handleNormalPresence ord id available (presencePriority ignorePriority priority)
  | (_, .toggleCarbons id enable) =>
    some (s.setSession id
      ((s.objects.get id).map fun session => { session with wantCarbons := enable }))
  | (ord, .destroy id) => s.destroy ord id

/-- A run, without a result where an error is raised. -/
def State.run (ignorePriority : Bool) (s : State) (ops : List (KeyOrder String × Op)) :
    Option State :=
  ops.foldlM (State.step ignorePriority) s

end Prosody.Resources
