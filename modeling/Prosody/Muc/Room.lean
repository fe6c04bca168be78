import Prosody.Muc.Occupant

/-! # Rooms

The room object of `muc.lib.lua` with the overrides of `mod_muc.lua` and the handlers of
`members_only.lib.lua` and `moderated.lib.lua` that decide on roles. The stanzas a room sends
are left out. -/

namespace Prosody.Muc

inductive Affiliation where
  | outcast
  | member
  | admin
  | owner
  deriving DecidableEq

/-- `valid_affiliations`, where a missing affiliation is `none`. -/
def affiliationRank : Option Affiliation → Int
  | some .outcast => -1
  | none => 0
  | some .member => 1
  | some .admin => 2
  | some .owner => 3

/-- An affiliation by its name, without a value for names that are not valid. -/
def parseAffiliation : Option String → Option (Option Affiliation)
  | none => some none
  | some "none" => some none
  | some "outcast" => some (some .outcast)
  | some "member" => some (some .member)
  | some "admin" => some (some .admin)
  | some "owner" => some (some .owner)
  | some _ => none

def parseRole : Option String → Option (Option Role)
  | none => some none
  | some "none" => some none
  | some "visitor" => some (some .visitor)
  | some "participant" => some (some .participant)
  | some "moderator" => some (some .moderator)
  | some _ => none

abbrev AffiliationData := Table String String

/-- The `data` argument of `set_affiliation`: `nil`, `false` or a table. -/
inductive DataArg where
  | keep
  | clear
  | fields (data : AffiliationData)

structure Room where
  jid : String
  jidNick : Table String String
  occupants : Table String Occupant
  affiliations : Table String Affiliation
  affiliationData : Table String AffiliationData
  membersOnly : Bool
  moderated : Bool
  deriving DecidableEq

/-- What a room takes from the server: its admins, by bare address, and the string
preparations. -/
structure Server where
  admin : String → Bool
  enc : Jid.Stringprep

/-- The choices that a call leaves to the runtime: the order of `pairs`, and which of the two
handlers for the default role that have the same priority runs first. -/
structure Env where
  order : KeyOrder String
  membersOnlyFirst : Bool

structure Error where
  type : String
  condition : String
  text : Option String
  deriving DecidableEq

def notAcceptable : Error := ⟨"modify", "not-acceptable", none⟩

def notAllowed : Error := ⟨"cancel", "not-allowed", none⟩

/-- Who asks for a change: nobody (`nil`), the service itself (`true`) or a user. -/
inductive Actor where
  | nobody
  | service
  | user (jid : String)
  deriving DecidableEq

/-- `is_admin`. -/
def Server.isAdmin (sv : Server) (jid : String) : Bool := (Jid.bare jid).any sv.admin

namespace Room

/-- `new_room`. -/
def new (jid : String) (membersOnly moderated : Bool) : Room :=
  { jid := jid
    jidNick := ∅
    occupants := ∅
    affiliations := ∅
    affiliationData := ∅
    membersOnly := membersOnly
    moderated := moderated }

/-! ## Affiliations and default roles -/

/-- The affiliation of an address: its own, or that of a banned host. -/
def storedAffiliation (r : Room) (jid : String) : Option Affiliation :=
  (Jid.split jid).bind fun parts =>
    (r.affiliations.get parts.bareParts.join).or
      (if r.affiliations.get parts.host = some .outcast then some .outcast else none)

/-- `get_affiliation`, for which server admins are owners. -/
def getAffiliation (sv : Server) (r : Room) (jid : String) : Option Affiliation :=
  if sv.isAdmin jid then some .owner else r.storedAffiliation jid

/-- `muc-get-default-role` of `moderated.lib.lua`, `muc.lib.lua` and `members_only.lib.lua`. -/
def getDefaultRole (env : Env) (r : Room) (affiliation : Option Affiliation) : Option Role :=
  if affiliation = none ∧ r.moderated then some .visitor
  else if affiliation = none ∧ r.membersOnly ∧ env.membersOnlyFirst then none
  else if 2 ≤ affiliationRank affiliation then some .moderator
  else if 0 ≤ affiliationRank affiliation then some .participant
  else none

/-! ## Occupants -/

def newOccupant (sv : Server) (env : Env) (r : Room) (bareRealJid : Option String)
    (nick : String) : Occupant :=
  { Occupant.new bareRealJid nick with
    role := r.getDefaultRole env (bareRealJid.bind (r.getAffiliation sv)) }

def getOccupantByNick (r : Room) (nick : String) : Option Occupant :=
  (r.occupants.get nick).map Occupant.copy

def getOccupantByRealJid (r : Room) (realJid : String) : Option Occupant :=
  (r.jidNick.get realJid).bind r.getOccupantByNick

def saveOccupant (ord : KeyOrder String) (r : Room) (occupant : Occupant) : Room :=
  let occupant := occupant.copy
  let old := match r.occupants.get occupant.nick with
    | none => []
    | some oldOccupant => ord.keys oldOccupant.sessions.keys
  let live := if occupant.role = none then [] else occupant.liveSessions ord
  { r with
    jidNick := (r.jidNick.setEach old fun _ => none).setEach live fun _ => some occupant.nick
    occupants := r.occupants.set occupant.nick (if live = [] then none else some occupant) }

def updateRole (ord : KeyOrder String) (newRole : Occupant → Option (Option Role)) (r : Room)
    (nick : String) : Room :=
  match r.getOccupantByNick nick with
  | none => r
  | some occupant =>
    match newRole occupant with
    | none => r
    | some role => r.saveOccupant ord { occupant with role := role }

/-- The loops over `each_occupant` that save some of the occupants with another role. -/
def updateRoles (ord : KeyOrder String) (r : Room) (newRole : Occupant → Option (Option Role)) :
    Room :=
  (ord.keys r.occupants.keys).foldl (updateRole ord newRole) r

/-! ## Presence -/

/-- What the handlers of a `muc-occupant-pre-…` event make of it: one of them has taken care of
the stanza, or they let it pass, perhaps under another nick. -/
inductive Verdict where
  | handled
  | pass
  | rename (nick : String)
  deriving DecidableEq

def Verdict.apply : Verdict → Occupant → Occupant
  | .rename nick, occupant => { occupant with nick := nick }
  | _, occupant => occupant

def handleKickable (env : Env) (r : Room) (realJid : String) : Room :=
  match r.getOccupantByRealJid realJid with
  | none => r
  | some occupant =>
    let occupant := occupant.setSession env.order realJid
      { type := some "unavailable"
        sender := ""
        recipient := ""
        tags := [⟨"status", none⟩] }
    -- the primary session stays unavailable only if there is no other
    let isLastSession := occupant.jid = some realJid
    r.saveOccupant env.order (if isLastSession then { occupant with role := none } else occupant)

/-- The `muc-occupant-pre-join` handlers that check for bans and membership. -/
def joinForbidden (sv : Server) (r : Room) (stanza : Presence) : Bool :=
  r.getAffiliation sv stanza.sender = some .outcast ∨
    (r.membersOnly ∧ affiliationRank (r.getAffiliation sv stanza.sender) ≤ 0)

/-- Where a presence takes its sender. -/
inductive Destination where
  | leave
  | update
  | enter (occupant : Occupant) (isFirstSession : Bool)

def destination (sv : Server) (env : Env) (r : Room) (stanza : Presence)
    (orig : Option Occupant) : Destination :=
  if stanza.type = some "unavailable" then .leave
  else if orig.any (fun o => o.nick = stanza.recipient) then .update
  else
    match r.getOccupantByNick stanza.recipient with
    | none => .enter (r.newOccupant sv env (Jid.bare stanza.sender) stanza.recipient) true
    | some occupant => .enter occupant false

/-- Another user holds the nick. -/
def nickConflict (stanza : Presence) (dest : Occupant) (isFirstSession : Bool) : Bool :=
  ¬ isFirstSession ∧ Jid.bare stanza.sender ≠ dest.bareJid.bind Jid.bare

def leaveRoom (env : Env) (r : Room) (stanza : Presence) (orig : Occupant) : Room :=
  let isLastSession := orig.sessions.keys.card ≤ 1
  let orig := if isLastSession then { orig with role := none } else orig
  r.saveOccupant env.order (orig.setSession env.order stanza.sender stanza)

def generatedUnavail (nick realJid : String) : Presence :=
  { type := some "unavailable"
    sender := nick
    recipient := realJid
    tags := [] }

def changeNick (env : Env) (r : Room) (stanza : Presence) (orig dest : Occupant)
    (isFirstDestSession : Bool) : Room :=
  let isLastOrigSession := orig.sessions.keys.card ≤ 1
  let orig := orig.setSession env.order stanza.sender
    (generatedUnavail orig.nick stanza.sender)
  let orig := if isFirstDestSession ∧ isLastOrigSession then orig
    else orig.removeSession env.order stanza.sender
  let r := r.saveOccupant env.order orig
  r.saveOccupant env.order (dest.setSession env.order stanza.sender stanza)

def handleNormalPresence (sv : Server) (env : Env) (r : Room) (stanza : Presence)
    (verdict : Verdict) : Room :=
  let orig := r.getOccupantByRealJid stanza.sender
  if orig = none ∧ ¬ stanza.hasMucX ∧ stanza.type = none then r
  else
    match orig, r.destination sv env stanza orig with
    | none, .enter dest isFirst =>
      if verdict = .handled ∨ r.joinForbidden sv stanza then r
      else if nickConflict stanza (verdict.apply dest) isFirst then r
      else r.saveOccupant env.order
        ((verdict.apply dest).setSession env.order stanza.sender stanza)
    | some orig, .enter dest isFirst =>
      if verdict = .handled then r
      else if nickConflict stanza (verdict.apply dest) isFirst then r
      else r.changeNick env stanza orig (verdict.apply dest) isFirst
    | some orig, .update =>
      if verdict = .handled then r
      else if nickConflict stanza (verdict.apply orig) false then r
      else r.saveOccupant env.order
        ((verdict.apply orig).setSession env.order stanza.sender stanza)
    | some orig, .leave =>
      if verdict = .handled then r else r.leaveRoom env stanza orig
    | none, _ => r

def handlePresenceToOccupant (sv : Server) (env : Env) (r : Room) (stanza : Presence)
    (verdict : Verdict) : Room :=
  if stanza.type = some "error" then r.handleKickable env stanza.sender
  else if stanza.type = none ∨ stanza.type = some "unavailable" then
    r.handleNormalPresence sv env stanza verdict
  else r

/-! ## Roles and affiliations -/

/-- Why the actor of `set_affiliation` is refused, given the bare address and the affiliation. -/
def affiliationDenied (sv : Server) (r : Room) (actor : Actor) (jid : String)
    (affiliation : Option Affiliation) : Option Error :=
  match actor with
  | .user actorJid =>
    let actorAffiliation := r.getAffiliation sv actorJid
    let target := r.affiliations.get jid
    if actorAffiliation = some .owner then
      -- at least one owner is needed
      if Jid.bare actorJid = some jid ∧
          ∀ j ∈ r.affiliations.keys, r.affiliations.get j = some .owner → j = jid then
        some ⟨"cancel", "conflict", none⟩
      else none
    else if affiliation = some .owner ∨ affiliation = some .admin ∨
        actorAffiliation ≠ some .admin ∨ target = some .owner ∨ target = some .admin then
      some notAllowed
    else none
  | _ => none

/-- The checks of `set_affiliation`: the address and the affiliation to set, or the error.
The first check is the one that `mod_muc` puts in front of it for server admins. -/
def affiliationChange (sv : Server) (r : Room) (actor : Actor) (jid : String)
    (affiliation : Option String) : Except Error (Jid × Option Affiliation) :=
  if affiliation ≠ some "owner" ∧ sv.isAdmin jid then .error notAcceptable
  else if actor = .nobody then .error notAcceptable
  else
    match Jid.split jid, parseAffiliation affiliation with
    | some target, some affiliation =>
      match r.affiliationDenied sv actor target.bareParts.join affiliation with
      | some e => .error e
      | none => .ok (target, affiliation)
    | _, _ => .error notAcceptable

/-- The two tables of affiliations after a change. -/
def storeAffiliation (r : Room) (jid : String) (affiliation : Option Affiliation)
    (data : DataArg) : Room :=
  { r with
    affiliations := r.affiliations.set jid affiliation
    affiliationData :=
      if affiliation = none then r.affiliationData.set jid none
      else
        match data with
        | .keep => r.affiliationData
        | .clear => r.affiliationData.set jid none
        | .fields data => r.affiliationData.set jid (if data = ∅ then none else some data) }

/-- The role that an affiliation change gives to an occupant, if it concerns the occupant and
lowers the affiliation or raises the role. -/
def roleAfterChange (target : Jid) (affiliation : Option Affiliation) (isDowngrade : Bool)
    (role : Option Role) (occupant : Occupant) : Option (Option Role) :=
  let concerned := occupant.bareJid = some target.bareParts.join ∨
    (target.node = none ∧ affiliation = some .outcast ∧
      (occupant.bareJid.bind Jid.split).map Jid.host = some target.host)
  if concerned ∧ occupant.role ≠ role ∧ (isDowngrade ∨ roleRank occupant.role < roleRank role) then
    some role
  else none

def applyAffiliation (env : Env) (r : Room) (target : Jid) (affiliation : Option Affiliation)
    (data : DataArg) : Room :=
  let jid := target.bareParts.join
  let isDowngrade := affiliationRank affiliation < affiliationRank (r.affiliations.get jid)
  let r := r.storeAffiliation jid affiliation data
  let role := r.getDefaultRole env affiliation
  r.updateRoles env.order (roleAfterChange target affiliation isDowngrade role)

def setAffiliation (sv : Server) (env : Env) (r : Room) (actor : Actor) (jid : String)
    (affiliation : Option String) (data : DataArg) : Room × Except Error Unit :=
  match r.affiliationChange sv actor jid affiliation with
  | .error e => (r, .error e)
  | .ok (target, affiliation) => (r.applyAffiliation env target affiliation data, .ok ())

/-- The actor of `set_role` is refused. -/
def roleDenied (sv : Server) (r : Room) (actor : Actor) (occupant : Occupant)
    (role : Option Role) : Bool :=
  match actor with
  | .user actorJid =>
    let occupantAffiliation := occupant.bareJid.bind (r.getAffiliation sv)
    let actorAffiliation := r.getAffiliation sv actorJid
    let actorRole := (r.getOccupantByRealJid actorJid).bind Occupant.role
    -- owners and admins are left alone
    occupantAffiliation = some .owner ∨ occupantAffiliation = some .admin ∨
      -- moderators are made and unmade by owners and admins
      ((occupant.role = some .moderator ∨ role = some .moderator) ∧
        actorAffiliation ≠ some .owner ∧ actorAffiliation ≠ some .admin) ∨
      actorRole ≠ some .moderator
  | _ => false

/-- The checks of `set_role`: the occupant and the role to set, or the error. -/
def roleChange (sv : Server) (r : Room) (actor : Actor) (occupantJid : String)
    (role : Option String) : Except Error (Occupant × Option Role) :=
  if actor = .nobody then .error notAcceptable
  else
    match r.getOccupantByNick occupantJid, parseRole role with
    | none, _ => .error ⟨"modify", "item-not-found", none⟩
    | some _, none => .error notAcceptable
    | some occupant, some role =>
      if r.roleDenied sv actor occupant role then .error notAllowed else .ok (occupant, role)

def setRole (sv : Server) (env : Env) (r : Room) (actor : Actor) (occupantJid : String)
    (role : Option String) : Room × Except Error Unit :=
  match r.roleChange sv actor occupantJid role with
  | .error e => (r, .error e)
  | .ok (occupant, role) => (r.saveOccupant env.order { occupant with role := role }, .ok ())

def setMembersOnly (sv : Server) (env : Env) (r : Room) (membersOnly : Bool) : Room :=
  if r.membersOnly = membersOnly then r
  else
    let r := { r with membersOnly := membersOnly }
    if membersOnly then
      r.updateRoles env.order fun occupant =>
        if affiliationRank (occupant.bareJid.bind (r.getAffiliation sv)) ≤ 0 then some none
        else none
    else r

def setModerated (r : Room) (moderated : Bool) : Room := { r with moderated := moderated }

/-- `clear`, which is all that `destroy` does to the room. -/
def clear (env : Env) (r : Room) : Room :=
  r.updateRoles env.order fun _ => some none

/-! ## The creation of rooms -/

/-- `handle_first_presence` on a new room, once the handlers of `muc-room-pre-create` have let
it pass: the defaults are set and the creator is made owner. -/
def handleFirstPresence (sv : Server) (env : Env) (r : Room) (stanza : Presence)
    (membersOnly moderated : Bool) (verdict : Verdict) : Room :=
  let r := (r.setMembersOnly sv env membersOnly).setModerated moderated
  let r := match Jid.bare stanza.sender with
    | none => r
    | some bareJid => (r.setAffiliation sv env .service bareJid (some "owner") .keep).1
  let dest := r.newOccupant sv env (Jid.bare stanza.sender) stanza.recipient
  if verdict = .handled ∨ r.joinForbidden sv stanza then r
  else r.saveOccupant env.order
    ((verdict.apply dest).setSession env.order stanza.sender stanza)

/-! ## Admin requests -/

/-- The attributes of the item of a `muc#admin` request. -/
structure AdminItem where
  jid : Option String
  nick : Option String
  affiliation : Option String
  role : Option String

def occupantJid (r : Room) (nick : String) : String := r.jid ++ "/" ++ nick

/-- The address and nick of an item, each found from the other where the request calls for
it. -/
def resolveItem (r : Room) (jid nick role : Option String) : Option String × Option String :=
  match jid, nick with
  | none, some nick => ((r.getOccupantByNick (r.occupantJid nick)).bind Occupant.bareJid, some nick)
  | some jid, none =>
    if role = none then (some jid, none)
    else (some jid, (r.jidNick.get jid).bind Jid.resourceOf)
  | jid, nick => (jid, nick)

inductive AdminCommand where
  | affiliation (jid : String) (nick : Option String) (affiliation : String)
  | role (nick role : String)

/-- The part of `handle_admin_query_set_command` that reads the request. -/
def adminCommand (sv : Server) (r : Room) (item : Option AdminItem) : Except Error AdminCommand :=
  match item with
  | none => .error ⟨"cancel", "bad-request", none⟩
  | some item =>
    match Jid.prepPart (Jid.prep sv.enc) item.jid with
    | none => .error ⟨"modify", "jid-malformed", none⟩
    | some jid =>
      match Jid.prepPart sv.enc.resourceprep item.nick with
      | none => .error ⟨"modify", "jid-malformed", some "invalid nickname"⟩
      | some nick =>
        match item.affiliation, item.role, r.resolveItem jid nick item.role with
        | some affiliation, none, (some jid, nick) =>
          .ok (.affiliation jid nick affiliation)
        | none, some role, (_, some nick) => .ok (.role nick role)
        | _, _, _ => .error ⟨"cancel", "bad-request", none⟩

/-- Somebody else is in the room under the nick that the request reserves. -/
def holdsReserved (r : Room) (jid nick : String) : Bool :=
  (r.getOccupantByNick (r.occupantJid nick)).any fun occupant => occupant.bareJid ≠ some jid

/-- The holder of a nick that is being reserved is kicked. -/
def reserveNick (sv : Server) (env : Env) (r : Room) (jid : String) : Option String → Room
  | none => r
  | some nick =>
    if r.holdsReserved jid nick then (r.setRole sv env .service (r.occupantJid nick) none).1
    else r

def reservation : Option String → DataArg
  | none => .keep
  | some nick => .fields ((∅ : AffiliationData).set "reserved_nickname" (some nick))

def handleAdminQuerySet (sv : Server) (env : Env) (r : Room) (actor : String)
    (item : Option AdminItem) : Room × Except Error Unit :=
  match r.adminCommand sv item with
  | .error e => (r, .error e)
  | .ok (.affiliation jid nick affiliation) =>
    (r.reserveNick sv env jid nick).setAffiliation sv env (.user actor) jid (some affiliation)
      (reservation nick)
  | .ok (.role nick role) => r.setRole sv env (.user actor) (r.occupantJid nick) (some role)

/-! ## Freezing and restoring -/

/-- An entry of the frozen live state: an occupant under its nick, or the presence of a session
under the address of the client. -/
inductive Saved where
  | occupant (bareJid : Option String) (role : Option Role) (jid : Option String)
  | presence (pr : Presence)
  deriving DecidableEq

/-- The frozen configuration in the old or the new storage format. -/
structure Frozen where
  newFormat : Bool
  jid : String
  membersOnly : Bool
  moderated : Bool
  affiliations : Table String Affiliation
  affiliationData : Table String AffiliationData

def freeze (newFormat : Bool) (r : Room) : Frozen :=
  { newFormat := newFormat
    jid := r.jid
    membersOnly := r.membersOnly
    moderated := r.moderated
    affiliations := r.affiliations
    affiliationData := if newFormat then ∅ else r.affiliationData }

/-- The entries of one occupant in the frozen live state. -/
def freezeOccupant (ord : KeyOrder String) (state : Table String Saved) (nick : String)
    (occupant : Occupant) : Table String Saved :=
  (state.set nick (some (.occupant occupant.bareJid occupant.role occupant.jid))).setEach
    (ord.keys occupant.sessions.keys) fun j => (occupant.sessions.get j).map .presence

def freezeNick (ord : KeyOrder String) (r : Room) (state : Table String Saved) (nick : String) :
    Table String Saved :=
  match r.getOccupantByNick nick with
  | none => state
  | some occupant => freezeOccupant ord state nick occupant

/-- The live state of `freeze(live)`. -/
def freezeState (ord : KeyOrder String) (r : Room) : Table String Saved :=
  (ord.keys r.occupants.keys).foldl (r.freezeNick ord) ∅

/-- Restoring skips hosts that start with an underscore. -/
def underscored (parts : Jid) : Bool := parts.host.toList.head? = some '_'

def isNickOf (roomJid : String) (parts : Jid) : Bool :=
  (Jid.split roomJid).any fun room =>
    parts.host = room.host ∧ parts.node = room.node ∧ parts.resource.isSome

def restoreOccupant (occupants : Table String Occupant) (nick : String)
    (bareJid : Option String) (role : Option Role) (jid : Option String) :
    Table String Occupant :=
  let occupant := (occupants.get nick).getD (Occupant.new bareJid nick)
  occupants.set nick (some { occupant with bareJid := bareJid, role := role, jid := jid })

def restoreSession (ord : KeyOrder String) (occupants : Table String Occupant) (jid : String)
    (pr : Presence) : Table String Occupant :=
  let occupant := (occupants.get pr.sender).getD (Occupant.new none pr.sender)
  occupants.set pr.sender (some (occupant.setSession ord jid pr))

def restoreEntry (ord : KeyOrder String) (roomJid : String) (occupants : Table String Occupant)
    (jid : String) (data : Saved) : Table String Occupant :=
  match Jid.split jid with
  | none => occupants
  | some parts =>
    if parts.node = none ∧ underscored parts then occupants
    else
      match isNickOf roomJid parts, data with
      | true, .occupant bareJid role primary =>
        restoreOccupant occupants jid bareJid role primary
      -- a presence has none of the fields of an occupant
      | true, .presence _ => restoreOccupant occupants jid none none none
      | false, .presence pr => restoreSession ord occupants jid pr
      | false, .occupant .. => occupants

/-- One round of the loop of `restore_room` over the live state. -/
def restoreKey (ord : KeyOrder String) (roomJid : String) (state : Table String Saved)
    (occupants : Table String Occupant) (jid : String) : Table String Occupant :=
  match state.get jid with
  | none => occupants
  | some data => restoreEntry ord roomJid occupants jid data

def restoreState (ord : KeyOrder String) (roomJid : String) (state : Table String Saved) :
    Table String Occupant :=
  (ord.keys state.keys).foldl (restoreKey ord roomJid state) ∅

/-- The room that `restore_room` starts from. -/
def restoreConfig (frozen : Frozen) : Room :=
  { Room.new frozen.jid frozen.membersOnly frozen.moderated with
    affiliations :=
      if frozen.newFormat then
        frozen.affiliations.filter fun jid _ =>
          (Jid.split jid).any fun parts => ¬ underscored parts ∧ parts.resource = none
      else frozen.affiliations
    affiliationData := frozen.affiliationData }

def saveRestored (ord : KeyOrder String) (occupants : Table String Occupant) (r : Room)
    (nick : String) : Room :=
  match occupants.get nick with
  | none => r
  | some occupant => r.saveOccupant ord occupant

/-- `restore_room`; without a live state the room is empty. -/
def restore (env : Env) (frozen : Frozen) (state : Option (Table String Saved)) : Room :=
  match state with
  | none => restoreConfig frozen
  | some state =>
    let occupants := restoreState env.order frozen.jid state
    (env.order.keys occupants.keys).foldl (saveRestored env.order occupants)
      (restoreConfig frozen)

/-! ## The room as a machine -/

inductive Op where
  | presence (stanza : Presence) (verdict : Verdict)
  | kick (realJid : String)
  | setRole (actor : Actor) (occupantJid : String) (role : Option String)
  | setAffiliation (actor : Actor) (jid : String) (affiliation : Option String) (data : DataArg)
  | adminSet (actor : String) (item : Option AdminItem)
  | setMembersOnly (membersOnly : Bool)
  | setModerated (moderated : Bool)
  | clear

/-- The room is the one that `mod_muc` finds for a stanza to one of its nicks. -/
def addressed (r : Room) (recipient : String) : Bool :=
  (Jid.split recipient).any fun parts => parts.resource.isSome ∧ parts.bareParts.join = r.jid

def step (sv : Server) (r : Room) : Env × Op → Room
  | (env, .presence stanza verdict) =>
    if r.addressed stanza.recipient then r.handlePresenceToOccupant sv env stanza verdict else r
  | (env, .kick realJid) => r.handleKickable env realJid
  | (env, .setRole actor occupantJid role) => (r.setRole sv env actor occupantJid role).1
  | (env, .setAffiliation actor jid affiliation data) =>
    (r.setAffiliation sv env actor jid affiliation data).1
  | (env, .adminSet actor item) => (r.handleAdminQuerySet sv env actor item).1
  | (env, .setMembersOnly membersOnly) => r.setMembersOnly sv env membersOnly
  | (_, .setModerated moderated) => r.setModerated moderated
  | (env, .clear) => r.clear env

end Room

end Prosody.Muc
