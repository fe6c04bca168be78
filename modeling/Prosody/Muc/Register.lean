import Prosody.Muc.Standing

/-! # Registered nicks

The reservations of `register.lib.lua`: users register a nick with the room, admins reserve one
with an affiliation, and the policy is enforced when somebody joins or changes nick. -/

namespace Prosody.Muc

/-- The options `allow_unaffiliated_register` and `enforce_registered_nickname`. -/
structure RegisterConfig where
  allowUnaffiliated : Bool
  enforceNick : Bool

/-- A room with its field `_reserved_nicks`. -/
structure NickRoom where
  room : Room
  reservedNicks : Option (Table String String)
  deriving DecidableEq

/-- What the other handlers of a `muc-occupant-pre-…` event make of it: one of them takes care
of the stanza before or after `enforce_nick_policy`, or none does. -/
inductive Others where
  | before
  | after
  | pass
  deriving DecidableEq

inductive RegisterQuery where
  | get
  | remove
  /-- The field for the nick, if there is a form at all. -/
  | form (data : Option (Option String))

/-- An affiliation as an argument, where a missing one is `nil` or `false`. -/
def affiliationName : Option Affiliation → Option String
  | none => none
  | some .outcast => some "outcast"
  | some .member => some "member"
  | some .admin => some "admin"
  | some .owner => some "owner"

namespace Room

def getRegisteredNick (r : Room) (jid : String) : Option String :=
  (r.affiliationData.get jid).bind fun data => data.get "reserved_nickname"

def reserveFor (r : Room) (reserved : Table String String) (jid : String) : Table String String :=
  match r.getRegisteredNick jid with
  | none => reserved
  | some nick => reserved.set nick (some jid)

/-- The loop of `get_reserved_nicks`. -/
def computeReservedNicks (ord : KeyOrder String) (r : Room) : Table String String :=
  (ord.keys r.affiliations.keys).foldl r.reserveFor ∅

/-- The user's sessions under other nicks are kicked before the nick is registered. -/
def kickOthers (sv : Server) (env : Env) (r : Room) (userJid requiredNick : String) : Room :=
  (env.order.keys r.occupants.keys).foldl
    (fun r nick =>
      if (r.getOccupantByNick nick).any (fun o => o.bareJid = some userJid) ∧ nick ≠ requiredNick
      then (r.setRole sv env .service nick none).1
      else r) r

/-- `set_affiliation` gets through, and the event `muc-set-affiliation` is fired. -/
def changesAffiliation (sv : Server) (env : Env) (r : Room) : Op → Bool
  | .setAffiliation actor jid affiliation data =>
    (r.setAffiliation sv env actor jid affiliation data).2.isOk
  | .adminSet actor item =>
    match r.adminCommand sv item with
    | .ok (.affiliation jid nick affiliation) =>
      ((r.reserveNick sv env jid nick).setAffiliation sv env (.user actor) jid
        (some affiliation) (reservation nick)).2.isOk
    | _ => false
  | _ => false

/-- An operation that is no presence, and in which nobody hands data to `set_affiliation` but
the handler of admin requests. -/
def Op.Plain : Op → Prop
  | .presence .. => False
  | .setAffiliation _ _ _ data => data = .keep
  | _ => True

structure PlainOp where
  op : Op
  plain : op.Plain

end Room

namespace NickRoom

def getReservedNicks (ord : KeyOrder String) (s : NickRoom) : Table String String :=
  s.reservedNicks.getD (s.room.computeReservedNicks ord)

/-- The room once `get_reserved_nicks` has been called. -/
def refresh (ord : KeyOrder String) (s : NickRoom) : NickRoom :=
  { s with reservedNicks := some (s.getReservedNicks ord) }

def getRegisteredJid (ord : KeyOrder String) (s : NickRoom) (nick : String) : Option String :=
  (s.getReservedNicks ord).get nick

def enforceNickPolicy (cfg : RegisterConfig) (ord : KeyOrder String) (s : NickRoom)
    (stanza : Presence) (joins : Bool) (dest : Occupant) : Room.Verdict :=
  let reservedBy := (Jid.resourceOf stanza.recipient).bind (s.getRegisteredJid ord)
  if reservedBy ≠ none ∧ reservedBy ≠ Jid.bare stanza.sender then .handled
  else if cfg.enforceNick then
    match (Jid.bare stanza.sender).bind s.room.getRegisteredNick, Jid.bare dest.nick with
    | none, _ => .pass
    | some nick, some roomJid =>
      if joins then .rename (roomJid ++ "/" ++ nick)
      else if dest.nick ≠ roomJid ++ "/" ++ nick then .handled
      else .pass
    -- the nicks of occupants have a bare address, or the handler raises an error
    | some _, none => .handled
  else .pass

/-- The handlers of an event for an occupant who joins or changes nick. -/
def consult (cfg : RegisterConfig) (ord : KeyOrder String) (s : NickRoom) (stanza : Presence)
    (joins : Bool) (dest : Occupant) : Others → NickRoom × Room.Verdict
  | .before => (s, .handled)
  | .after => (s.refresh ord, .handled)
  | .pass => (s.refresh ord, s.enforceNickPolicy cfg ord stanza joins dest)

/-- The `muc-occupant-pre-…` event of a presence. -/
def fireEvent (sv : Server) (cfg : RegisterConfig) (env : Env) (s : NickRoom)
    (stanza : Presence) (others : Others) : NickRoom × Room.Verdict :=
  let orig := s.room.getOccupantByRealJid stanza.sender
  match orig, s.room.destination sv env stanza orig with
  | none, .enter dest _ => s.consult cfg env.order stanza true dest others
  | some _, .enter dest _ => s.consult cfg env.order stanza false dest others
  | some orig, .update => s.consult cfg env.order stanza false orig others
  | _, _ => (s, if others = .pass then .pass else .handled)

def handleNormalPresence (sv : Server) (cfg : RegisterConfig) (env : Env) (s : NickRoom)
    (stanza : Presence) (others : Others) : NickRoom :=
  if s.room.getOccupantByRealJid stanza.sender = none ∧ ¬ stanza.hasMucX ∧ stanza.type = none then s
  else
    let event := s.fireEvent sv cfg env stanza others
    { room := s.room.handleNormalPresence sv env stanza event.2
      reservedNicks := event.1.reservedNicks }

def handlePresenceToOccupant (sv : Server) (cfg : RegisterConfig) (env : Env) (s : NickRoom)
    (stanza : Presence) (others : Others) : NickRoom :=
  if stanza.type = some "error" then { s with room := s.room.handleKickable env stanza.sender }
  else if stanza.type = none ∨ stanza.type = some "unavailable" then
    s.handleNormalPresence sv cfg env stanza others
  else s

/-- `set_affiliation` with the handler of `muc-set-affiliation` that clears the cache. -/
def setAffiliation (sv : Server) (env : Env) (s : NickRoom) (actor : Actor) (jid : String)
    (affiliation : Option String) (data : DataArg) : NickRoom × Except Error Unit :=
  match s.room.setAffiliation sv env actor jid affiliation data with
  | (room, .ok ()) => ({ room := room, reservedNicks := none }, .ok ())
  | (room, .error e) => ({ s with room := room }, .error e)

def registrationData (nick : String) : AffiliationData :=
  (∅ : AffiliationData).set "reserved_nickname" (some nick)

/-- The part of `handle_register_iq` that saves a registration. -/
def register (sv : Server) (cfg : RegisterConfig) (env : Env) (s : NickRoom) (userJid : String)
    (affiliation : Option Affiliation) (desiredNick : String) :
    NickRoom × Except Error Unit :=
  if s.room.holdsReserved userJid desiredNick then (s, .error ⟨"cancel", "conflict", none⟩)
  else
    let reservedBy := s.getRegisteredJid env.order desiredNick
    let s := s.refresh env.order
    if reservedBy.any (· ≠ userJid) then (s, .error ⟨"cancel", "conflict", none⟩)
    else
      let registeredNick := s.room.getRegisteredNick userJid
      let s :=
        if cfg.enforceNick then
          { s with room := s.room.kickOthers sv env userJid (s.room.occupantJid desiredNick) }
        else s
      if registeredNick ≠ some desiredNick then
        s.setAffiliation sv env .service userJid (affiliationName (affiliation.or (some .member)))
          (.fields (registrationData desiredNick))
      else (s, .ok ())

/-- `handle_register_iq`, with the registered nick that a `get` is answered with. -/
def handleRegisterIq (sv : Server) (cfg : RegisterConfig) (env : Env) (s : NickRoom)
    (sender : String) (query : RegisterQuery) : NickRoom × Except Error (Option String) :=
  match Jid.bare sender with
  -- stanzas come from valid addresses
  | none => (s, .error ⟨"auth", "registration-required", none⟩)
  | some userJid =>
    let affiliation := s.room.getAffiliation sv userJid
    if affiliation = some .outcast then (s, .error ⟨"auth", "forbidden", none⟩)
    else if affiliation = none ∧ ¬ cfg.allowUnaffiliated then
      (s, .error ⟨"auth", "registration-required", none⟩)
    else
      match query with
      | .get => (s, .ok (s.room.getRegisteredNick userJid))
      | .remove =>
        let new := if affiliation = some .member then none else affiliation
        let result := s.setAffiliation sv env .service userJid (affiliationName new) .clear
        (result.1, result.2.map fun _ => none)
      | .form none => (s, .error ⟨"modify", "bad-request", some "Error in form"⟩)
      | .form (some field) =>
        match field.bind sv.enc.resourceprep with
        | none => (s, .error ⟨"modify", "bad-request", some "Invalid Nickname"⟩)
        | some desiredNick =>
          let result := s.register sv cfg env userJid affiliation desiredNick
          (result.1, result.2.map fun _ => none)

/-- The creation of a room by the presence of its first occupant. Making the creator an owner
clears the cache. -/
def handleFirstPresence (sv : Server) (cfg : RegisterConfig) (env : Env) (r : Room)
    (stanza : Presence) (membersOnly moderated : Bool) (others : Others) : NickRoom :=
  let prepared : NickRoom :=
    { room := r.prepare sv env stanza membersOnly moderated, reservedNicks := none }
  let dest := prepared.room.newOccupant sv env (Jid.bare stanza.sender) stanza.recipient
  let event := prepared.consult cfg env.order stanza true dest others
  { room := r.handleFirstPresence sv env stanza membersOnly moderated event.2
    reservedNicks := event.1.reservedNicks }

/-! ## The room as a machine -/

inductive NickOp where
  | presence (stanza : Presence) (others : Others)
  | register (sender : String) (query : RegisterQuery)
  | change (operation : Room.PlainOp)

def step (sv : Server) (cfg : RegisterConfig) (s : NickRoom) : Env × NickOp → NickRoom
  | (env, .presence stanza others) =>
    if s.room.addressed stanza.recipient then s.handlePresenceToOccupant sv cfg env stanza others
    else s
  | (env, .register sender query) => (s.handleRegisterIq sv cfg env sender query).1
  | (env, .change operation) =>
    { room := s.room.step sv (env, operation.op)
      reservedNicks :=
        if s.room.changesAffiliation sv env operation.op then none else s.reservedNicks }

inductive Opened (sv : Server) (cfg : RegisterConfig) : NickRoom → Prop where
  | new (jid : String) (membersOnly moderated : Bool) :
      Opened sv cfg { room := Room.new jid membersOnly moderated, reservedNicks := none }
  | created (jid : String) (env : Env) (stanza : Presence) (membersOnly moderated : Bool)
      (others : Others) (h : stanza.type = none) :
      Opened sv cfg (handleFirstPresence sv cfg env (Room.new jid false false) stanza membersOnly
        moderated others)

end NickRoom

end Prosody.Muc
