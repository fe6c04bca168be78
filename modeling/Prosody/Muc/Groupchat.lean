import Prosody.Library.Events
import Prosody.Muc.Occupancy

/-! # Groupchat

A message to the room goes through the handlers of several named events, which are registered by
`muc.lib.lua`, `subject.lib.lua`, `history.lib.lua` and `mod_muc_mam.lua`, before every session
of every occupant gets a copy of it. -/

namespace Prosody.Muc

/-! ## Messages -/

/-- What is inside a stanza. -/
inductive Xml where
  | text (s : String)
  | element (name : String) (attr : List (String × String)) (children : List Xml)

namespace Xml

def isTag : Xml → Bool
  | text _ => false
  | element _ _ _ => true

def name : Xml → Option String
  | text _ => none
  | element name _ _ => some name

def attr (x : Xml) (key : String) : Option String :=
  match x with
  | text _ => none
  | element _ attr _ => attr.lookup key

/-- `get_text`, which has no value for an element with elements inside. -/
def getText : Xml → Option String
  | text _ => none
  | element _ _ children =>
    if children.any isTag then none
    else some (children.foldl (fun s c => match c with | text t => s ++ t | _ => s) "")

def isDelay (x : Xml) : Bool :=
  (x.name = some "delay" ∧ x.attr "xmlns" = some "urn:xmpp:delay") ∨
    (x.name = some "x" ∧ x.attr "xmlns" = some "jabber:x:delay")

def isStanzaId (x : Xml) : Bool :=
  x.name = some "stanza-id" ∧ x.attr "xmlns" = some "urn:xmpp:sid:0"

/-- A delay that claims to be from the room. -/
def delayFrom (roomJid : String) (x : Xml) : Bool :=
  x.isDelay ∧ x.attr "from" = some roomJid

/-- An id that the room gave to the message, or claims to be one. -/
def stanzaIdBy (roomJid : String) (x : Xml) : Bool :=
  x.isStanzaId ∧ x.attr "by" = some roomJid

/-- The id that is put on a message under which the room has archived it. -/
def stanzaId (roomJid id : String) : Xml :=
  element "stanza-id" [("xmlns", "urn:xmpp:sid:0"), ("by", roomJid), ("id", id)] []

end Xml

structure Message where
  sender : String
  recipient : Option String
  xmlns : Option String
  children : List Xml

namespace Message

/-- `maptags`, for a callback that drops or changes elements. -/
def maptags (f : Xml → Option Xml) (m : Message) : Message :=
  { m with children := m.children.filterMap fun c => if c.isTag then f c else some c }

/-- `get_child` without a namespace. -/
def getChild (m : Message) (name : String) : Option Xml :=
  m.children.find? fun c =>
    c.name = some name ∧ (m.xmlns = c.attr "xmlns" ∨ c.attr "xmlns" = none)

def addDirectChild (m : Message) (x : Xml) : Message := { m with children := m.children ++ [x] }

end Message

/-! ## Rooms with their conversation -/

inductive Whois where
  | moderators
  | anyone
  deriving DecidableEq

structure ChatOptions where
  host : String
  maxHistoryLength : Option Nat
  /-- `mod_muc_mam` is loaded. -/
  mam : Bool
  logAllRooms : Bool
  logByDefault : Bool

/-- The part of `_data` that groupchat depends on. -/
structure ChatData where
  whois : Whois
  changeSubject : Bool
  archiving : Option Bool
  historyLength : Option Nat
  subject : Option String
  subjectFrom : Option String
  subjectTime : Option Nat

structure HistoryEntry where
  stanza : Message
  timestamp : Nat

structure Archived where
  id : String
  stanza : Message

structure Chat where
  room : Room
  data : ChatData
  history : List HistoryEntry
  archive : List Archived

/-- What a call finds outside of the room: the choices of the runtime, the time and how it is
written, and the id under which the archive stores a message, if it does. -/
structure Moment where
  env : Env
  time : Nat
  datetime : String
  legacy : String
  stored : Option String

/-- The data of an event, with what has been sent so far. -/
structure ChatEvent where
  chat : Chat
  stanza : Message
  occupant : Option Occupant
  routed : List Message
  replies : List Error

namespace Chat

def archivingEnabled (opts : ChatOptions) (c : Chat) : Bool :=
  if opts.logAllRooms then true else c.data.archiving.getD opts.logByDefault

def getHistorylength (opts : ChatOptions) (c : Chat) : Nat :=
  let length := c.data.historyLength.getD 20
  opts.maxHistoryLength.elim length (min length)

/-- `get_subject`: who set the subject, and the subject. -/
def getSubject (c : Chat) : String × Option String :=
  (c.data.subjectFrom.getD c.room.jid, c.data.subject)

end Chat

def affiliationText : Option Affiliation → String
  | none => "none"
  | some .outcast => "outcast"
  | some .member => "member"
  | some .admin => "admin"
  | some .owner => "owner"

def Role.text : Role → String
  | .visitor => "visitor"
  | .participant => "participant"
  | .moderator => "moderator"

/-- `get_default_role` for the name of an affiliation, with which the handlers for members-only
and moderated rooms let the event pass. -/
def defaultRoleByName (affiliation : Option Affiliation) : Option Role :=
  if 2 ≤ affiliationRank affiliation then some .moderator
  else if 0 ≤ affiliationRank affiliation then some .participant
  else none

namespace ChatEvent

variable (sv : Server) (opts : ChatOptions) (t : Moment)

/-! ## Handlers -/

/-- The handler of `mod_muc_mam` that strips ids which claim to be from the room. -/
def stripStanzaIds (e : ChatEvent) : ChatEvent × Bool :=
  ({ e with stanza := e.stanza.maptags fun tag =>
      if tag.isStanzaId ∧
          (tag.attr "by").bind (Jid.prep sv.enc) = some e.chat.room.jid then none
      else if tag.name = some "x" ∧ tag.attr "xmlns" = some mucUserNs then none
      else some tag }, false)

/-- The element that says who an archived message is from. -/
def actorItem (e : ChatEvent) : Xml :=
  let r := e.chat.room
  -- the sender of the message that is broadcast is an occupant
  let actor := ((r.occupants.get e.stanza.sender).bind Occupant.jid).bind Jid.bare
  let affiliation := actor.bind (r.getAffiliation sv)
  let role := ((actor.bind r.getOccupantByNick).bind Occupant.role).or
    (defaultRoleByName affiliation)
  .element "x" [("xmlns", mucUserNs)]
    [.element "item"
      ([("affiliation", affiliationText affiliation)] ++
        (role.map fun role => ("role", role.text)).toList ++
        (actor.map fun jid => ("jid", jid)).toList) []]

def saveToHistory (e : ChatEvent) : ChatEvent × Bool :=
  let storedStanza :=
    if e.chat.data.whois = .anyone then e.stanza.addDirectChild (e.actorItem sv) else e.stanza
  if ¬ e.chat.archivingEnabled opts then (e, false)
  else
    match t.stored with
    | none => (e, false)
    | some id =>
      ({ e with
        chat := { e.chat with archive := e.chat.archive ++ [⟨id, storedStanza⟩] }
        stanza := e.stanza.addDirectChild (.stanzaId e.chat.room.jid id) }, false)

/-- The copy of a message that the room remembers. -/
def historic (m : Message) : Message :=
  { m with
    recipient := some ""
    children := m.children ++
      [.element "delay" [("xmlns", "urn:xmpp:delay"), ("from", opts.host), ("stamp", t.datetime)] [],
        .element "x" [("xmlns", "jabber:x:delay"), ("from", opts.host), ("stamp", t.legacy)] []] }

/-- The handler of `history.lib.lua` that adds to the history. -/
def addHistory (e : ChatEvent) : ChatEvent × Bool :=
  let history := e.chat.history ++ [⟨historic opts t e.stanza, t.time⟩]
  let excess := history.length - e.chat.getHistorylength opts
  ({ e with chat := { e.chat with history := history.drop excess } }, true)

/-- The hooks of the events that `history.lib.lua` fires, and the one that `mod_muc_mam` puts on
the message before. -/
def historyHooks : List (Hook String ChatEvent) :=
  [⟨"muc-add-history", -1, addHistory opts t⟩,
    ⟨"muc-message-is-historic", -1, fun e => (e, (e.stanza.getChild "body").isSome)⟩] ++
  if opts.mam then
    [⟨"muc-broadcast-messages", 0, stripStanzaIds sv⟩,
      ⟨"muc-add-history", 0, saveToHistory sv opts t⟩]
  else []

def fireAddHistory (e : ChatEvent) : ChatEvent × Bool :=
  let hooks := historyHooks sv opts t
  let historic := Hook.fire hooks "muc-message-is-historic" e
  if historic.2 then ((Hook.fire hooks "muc-add-history" historic.1).1, false)
  else (historic.1, false)

def broadcastHooks : List (Hook String ChatEvent) :=
  historyHooks sv opts t ++ [⟨"muc-broadcast-message", 0, fireAddHistory sv opts t⟩]

/-- `broadcast` to all occupants. -/
def broadcast (e : ChatEvent) : ChatEvent :=
  let ord := t.env.order
  let occupants := (ord.keys e.chat.room.occupants.keys).filterMap e.chat.room.getOccupantByNick
  { e with routed := e.routed ++ occupants.flatMap fun o =>
      (ord.keys o.sessions.keys).map fun jid => { e.stanza with recipient := some jid } }

def broadcastMessage (e : ChatEvent) : ChatEvent :=
  let fired := Hook.fire (broadcastHooks sv opts t) "muc-broadcast-message" e
  if fired.2 then fired.1 else fired.1.broadcast t

def createSubjectMessage (sender subject : String) : Message :=
  { sender := sender
    recipient := none
    xmlns := none
    children := [.element "subject" [] (if subject = "" then [] else [.text subject])] }

def setSubject (e : ChatEvent) (sender : String) (subject : Option String) : ChatEvent :=
  let subject := if subject = some "" then none else subject
  if e.chat.getSubject = (sender, subject) then e
  else
    let data := { e.chat.data with
      subjectFrom := some sender
      subject := subject
      subjectTime := some t.time }
    broadcastMessage sv opts t
      { e with
        chat := { e.chat with data := data }
        stanza := createSubjectMessage sender (subject.getD "") }

/-- The handler of `subject.lib.lua`. -/
def changeSubject (e : ChatEvent) : ChatEvent × Bool :=
  match e.stanza.getChild "subject" with
  | none => (e, false)
  | some subject =>
    let forbidden : Error := ⟨"auth", "forbidden", some "You are not allowed to change the subject"⟩
    match e.occupant with
    | none => ({ e with replies := e.replies ++ [forbidden] }, true)
    | some occupant =>
      if roleRank (some .moderator) ≤ roleRank occupant.role ∨
          (roleRank (some .participant) ≤ roleRank occupant.role ∧ e.chat.data.changeSubject) then
        (setSubject sv opts t e occupant.nick subject.getText, true)
      else ({ e with replies := e.replies ++ [forbidden] }, true)

def stripDelays (e : ChatEvent) : ChatEvent × Bool :=
  ({ e with stanza := e.stanza.maptags fun child =>
      if child.delayFrom e.chat.room.jid then none else some child }, false)

def checkRole (e : ChatEvent) : ChatEvent × Bool :=
  let rank := roleRank (e.occupant.bind Occupant.role)
  if rank ≤ roleRank none then
    ({ e with replies := e.replies ++ [⟨"cancel", "not-acceptable", none⟩] }, true)
  else if rank ≤ roleRank (some .visitor) then
    ({ e with replies := e.replies ++ [⟨"auth", "forbidden", none⟩] }, true)
  else (e, false)

def groupchatHooks : List (Hook String ChatEvent) :=
  [⟨"muc-occupant-groupchat", 0, stripDelays⟩,
    ⟨"muc-occupant-groupchat", 50, checkRole⟩,
    ⟨"muc-occupant-groupchat", 20, changeSubject sv opts t⟩] ++ broadcastHooks sv opts t

end ChatEvent

namespace Chat

/-- The data of `muc-occupant-groupchat`. -/
def groupchatEvent (c : Chat) (stanza : Message) : ChatEvent :=
  { chat := c
    stanza := stanza
    occupant := c.room.getOccupantByRealJid stanza.sender
    routed := []
    replies := [] }

def handleGroupchatToRoom (sv : Server) (opts : ChatOptions) (t : Moment) (c : Chat)
    (stanza : Message) : ChatEvent :=
  let event := c.groupchatEvent stanza
  let fired := Hook.fire (ChatEvent.groupchatHooks sv opts t) "muc-occupant-groupchat" event
  if fired.2 then fired.1
  else
    match event.occupant with
    -- a sender outside of the room does not get past the role check
    | none => fired.1
    | some o =>
      ChatEvent.broadcastMessage sv opts t
        { fired.1 with stanza := { fired.1.stanza with sender := o.nick } }

end Chat

/-! ## Which handlers run -/

namespace ChatEvent

variable {sv : Server} {opts : ChatOptions} {t : Moment} {e e' : ChatEvent}

theorem handlers_historic : Hook.handlers (historyHooks sv opts t) "muc-message-is-historic" =
    [⟨"muc-message-is-historic", -1, fun e => (e, (e.stanza.getChild "body").isSome)⟩] := by
  unfold historyHooks
  cases opts.mam
  · rfl
  · rfl

theorem handlers_addHistory : Hook.handlers (historyHooks sv opts t) "muc-add-history" =
    (if opts.mam then [⟨"muc-add-history", 0, saveToHistory sv opts t⟩] else []) ++
      [⟨"muc-add-history", -1, addHistory opts t⟩] := by
  unfold historyHooks
  cases opts.mam
  · rfl
  · rfl

theorem handlers_broadcast : Hook.handlers (broadcastHooks sv opts t) "muc-broadcast-message" =
    [⟨"muc-broadcast-message", 0, fireAddHistory sv opts t⟩] := by
  unfold broadcastHooks historyHooks
  cases opts.mam
  · rfl
  · rfl

theorem handlers_groupchat :
    Hook.handlers (groupchatHooks sv opts t) "muc-occupant-groupchat" =
      [⟨"muc-occupant-groupchat", 50, checkRole⟩,
        ⟨"muc-occupant-groupchat", 20, changeSubject sv opts t⟩,
        ⟨"muc-occupant-groupchat", 0, stripDelays⟩] := by
  unfold groupchatHooks broadcastHooks historyHooks
  cases opts.mam
  · rfl
  · rfl

/-! ## What broadcasting does -/

/-- What has been recorded of a message, and under which id it has been archived. -/
structure Recorded (opts : ChatOptions) (t : Moment) (e e' : ChatEvent) (id : Option String) :
    Prop where
  room : e'.chat.room = e.chat.room
  routed : e'.routed = e.routed
  stanza : e'.stanza = { e.stanza with
    children := e.stanza.children ++ (id.map (Xml.stanzaId e.chat.room.jid)).toList }
  archive : ∃ extra : List Xml, (∀ x ∈ extra, ¬ x.isDelay ∧ ¬ x.isStanzaId) ∧
    e'.chat.archive = e.chat.archive ++ (id.map fun id =>
      ⟨id, { e.stanza with children := e.stanza.children ++ extra }⟩).toList
  history : ∀ entry ∈ e'.chat.history,
    entry ∈ e.chat.history ∨ entry.stanza = historic opts t e'.stanza

theorem Recorded.refl (e : ChatEvent) : Recorded opts t e e none where
  room := rfl
  routed := rfl
  stanza := by simp
  archive := ⟨[], by simp, by simp⟩
  history := fun entry hentry => Or.inl hentry

theorem recorded_saveToHistory (sv : Server) (opts : ChatOptions) (t : Moment) (e : ChatEvent) :
    ∃ id, Recorded opts t e (saveToHistory sv opts t e).1 id := by
  unfold saveToHistory
  dsimp only
  split
  · exact ⟨none, Recorded.refl e⟩
  · cases t.stored with
    | none => exact ⟨none, Recorded.refl e⟩
    | some id =>
      refine ⟨some id, rfl, rfl, rfl, ?_, fun entry hentry => Or.inl hentry⟩
      by_cases hwhois : e.chat.data.whois = .anyone
      · refine ⟨[e.actorItem sv], ?_, ?_⟩
        · intro x hx
          rw [List.mem_singleton.mp hx]
          simp [actorItem, Xml.isDelay, Xml.isStanzaId, Xml.name, Xml.attr, mucUserNs]
        · simp [hwhois, Message.addDirectChild]
      · exact ⟨[], by simp, by simp [hwhois]⟩

theorem saveToHistory_passes (e : ChatEvent) : (saveToHistory sv opts t e).2 = false := by
  unfold saveToHistory
  dsimp only
  split
  · rfl
  · split <;> rfl

theorem Recorded.addHistory {id : Option String} (h : Recorded opts t e e' id) :
    Recorded opts t e (addHistory opts t e').1 id where
  room := h.room
  routed := h.routed
  stanza := h.stanza
  archive := h.archive
  history := by
    intro entry hentry
    rcases List.mem_append.mp (List.mem_of_mem_drop hentry) with hold | hnew
    · exact h.history entry hold
    · rw [List.mem_singleton.mp hnew]
      exact Or.inr rfl

theorem recorded_fireAddHistory (sv : Server) (opts : ChatOptions) (t : Moment) (e : ChatEvent) :
    ∃ id, Recorded opts t e (fireAddHistory sv opts t e).1 id := by
  unfold fireAddHistory Hook.fire
  dsimp only
  rw [handlers_historic, handlers_addHistory]
  cases hbody : (e.stanza.getChild "body").isSome with
  | false =>
    rw [Hook.fireAll_cons_of_passed hbody]
    exact ⟨none, Recorded.refl e⟩
  | true =>
    rw [Hook.fireAll_cons_of_handled hbody]
    dsimp only
    rw [if_pos hbody]
    cases hmam : opts.mam with
    | false => exact ⟨none, (Recorded.refl e).addHistory⟩
    | true =>
      obtain ⟨id, hid⟩ := recorded_saveToHistory sv opts t e
      refine ⟨id, ?_⟩
      rw [if_pos rfl, List.singleton_append,
        Hook.fireAll_cons_of_passed (saveToHistory_passes e),
        Hook.fireAll_cons_of_handled rfl]
      exact hid.addHistory

theorem fireAddHistory_passes (e : ChatEvent) : (fireAddHistory sv opts t e).2 = false := by
  unfold fireAddHistory
  dsimp only
  split <;> rfl

theorem broadcastMessage_eq (e : ChatEvent) :
    broadcastMessage sv opts t e = (fireAddHistory sv opts t e).1.broadcast t := by
  unfold broadcastMessage Hook.fire
  rw [handlers_broadcast, Hook.fireAll_cons_of_passed (fireAddHistory_passes e)]
  rfl

end ChatEvent

end Prosody.Muc
