import Prosody.Muc.Groupchat

/-! # Where the copies of a message come from

What the recipients of a message and the readers of the archive may conclude from its sender,
its delays and its ids. -/

namespace Prosody.Muc

namespace Chat

def archivedBy (c : Chat) (e : ChatEvent) : List Archived := e.chat.archive.drop c.archive.length

def copies (c : Chat) (e : ChatEvent) : List Message :=
  e.routed ++ (c.archivedBy e).map Archived.stanza

/-- The sender of a message is an occupant with a voice. -/
def SpokenBy (c : Chat) (stanza : Message) (o : Occupant) : Prop :=
  c.room.getOccupantByRealJid stanza.sender = some o ∧
    (o.role = some .participant ∨ o.role = some .moderator)

/-- A copy is from the nick of its sender, no delay in it claims to be from the room, and the only
id by the room is the one under which the message has been archived. -/
structure Genuine (roomJid nick : String) (archived : List Archived) (copy : Message) : Prop where
  sender : copy.sender = nick
  delay : ∀ x ∈ copy.children, ¬ x.delayFrom roomJid
  stanzaId : copy.children.filter (Xml.stanzaIdBy roomJid) = [] ∨
    ∃ a ∈ archived, copy.children.filter (Xml.stanzaIdBy roomJid) = [.stanzaId roomJid a.id]

/-- What is promised of a message to the room, in terms of what has been sent, archived and
remembered in the end. The room puts its own delays on what it remembers. -/
structure Provenance (opts : ChatOptions) (t : Moment) (c : Chat) (stanza : Message)
    (e : ChatEvent) : Prop where
  copy : ∀ copy ∈ c.copies e, ∃ o, c.SpokenBy stanza o ∧
    Genuine c.room.jid o.nick (c.archivedBy e) copy
  history : ∀ entry ∈ e.chat.history, entry ∈ c.history ∨
    ∃ o copy, c.SpokenBy stanza o ∧ Genuine c.room.jid o.nick (c.archivedBy e) copy ∧
      entry.stanza = ChatEvent.historic opts t copy

/-- The message is passed on, and brings an id with it that claims to be by the room. -/
def Forged (c : Chat) (stanza : Message) : Prop :=
  (∃ o, c.SpokenBy stanza o) ∧ stanza.getChild "subject" = none ∧
    ∃ x ∈ stanza.children, x.stanzaIdBy c.room.jid

/-! ## What becomes of a message -/

variable {sv : Server} {opts : ChatOptions} {t : Moment} {c : Chat} {e e' : ChatEvent}
  {stanza : Message} {o : Occupant} {id : Option String}

/-- A message before it is recorded. -/
structure Clean (roomJid nick : String) (m : Message) : Prop where
  sender : m.sender = nick
  delay : ∀ x ∈ m.children, ¬ x.delayFrom roomJid
  stanzaId : ∀ x ∈ m.children, ¬ x.stanzaIdBy roomJid

theorem Clean.filter {roomJid nick : String} {m : Message} (h : Clean roomJid nick m) :
    m.children.filter (Xml.stanzaIdBy roomJid) = [] :=
  List.filter_eq_nil_iff.mpr h.stanzaId

theorem stanzaIdBy_stanzaId (roomJid id : String) :
    (Xml.stanzaId roomJid id).stanzaIdBy roomJid = true := by
  simp only [Xml.stanzaIdBy, Xml.isStanzaId, Xml.stanzaId, Xml.name, Xml.attr]
  simp
  rfl

theorem not_delayFrom_stanzaId (roomJid id : String) :
    ¬ (Xml.stanzaId roomJid id).delayFrom roomJid := by
  simp [Xml.delayFrom, Xml.isDelay, Xml.stanzaId, Xml.name]

theorem archivedBy_recorded (h : e.Recorded opts t e' id) (harchive : e.chat.archive = c.archive) :
    (c.archivedBy e').map Archived.id = id.toList := by
  obtain ⟨extra, -, heq⟩ := h.archive
  rw [archivedBy, heq, harchive, List.drop_left]
  cases id <;> rfl

theorem genuine_recorded (h : e.Recorded opts t e' id) (harchive : e.chat.archive = c.archive)
    (hroom : e.chat.room.jid = c.room.jid) (hclean : Clean c.room.jid o.nick e.stanza) :
    Genuine c.room.jid o.nick (c.archivedBy e') e'.stanza ∧
      ∀ a ∈ c.archivedBy e', Genuine c.room.jid o.nick (c.archivedBy e') a.stanza := by
  obtain ⟨extra, hextra, heq⟩ := h.archive
  have hnew : c.archivedBy e' = (id.map fun id =>
      (⟨id, { e.stanza with children := e.stanza.children ++ extra }⟩ : Archived)).toList := by
    rw [archivedBy, heq, harchive, List.drop_left]
  constructor
  · rw [h.stanza, hroom]
    cases id with
    | none =>
      refine ⟨hclean.sender, ?_, Or.inl ?_⟩
      · simpa using hclean.delay
      · simpa using hclean.stanzaId
    | some id =>
      refine ⟨hclean.sender, ?_, Or.inr ?_⟩
      · intro x hx
        rcases List.mem_append.mp hx with hx | hx
        · exact hclean.delay x hx
        · rw [List.mem_singleton.mp hx]
          exact not_delayFrom_stanzaId c.room.jid id
      · refine ⟨_, by rw [hnew]; exact List.mem_singleton_self _, ?_⟩
        dsimp only
        rw [List.filter_append, hclean.filter, List.nil_append]
        exact List.filter_cons_of_pos (stanzaIdBy_stanzaId c.room.jid id)
  · intro a ha
    rw [hnew] at ha
    cases id with
    | none => exact absurd ha List.not_mem_nil
    | some id =>
      rw [List.mem_singleton.mp ha]
      refine ⟨hclean.sender, ?_, Or.inl ?_⟩
      · intro x hx hdelay
        rcases List.mem_append.mp hx with hx | hx
        · exact hclean.delay x hx hdelay
        · exact (hextra x hx).1 (by simp_all [Xml.delayFrom])
      · rw [List.filter_eq_nil_iff]
        intro x hx hid
        rcases List.mem_append.mp hx with hx | hx
        · exact hclean.stanzaId x hx hid
        · exact (hextra x hx).2 (by simp_all [Xml.stanzaIdBy])

/-! ## Sending the copies -/

theorem mem_routed_broadcast {copy : Message} (h : copy ∈ (e.broadcast t).routed) :
    copy ∈ e.routed ∨ ∃ jid, copy = { e.stanza with recipient := some jid } := by
  rcases List.mem_append.mp h with h | h
  · exact Or.inl h
  · obtain ⟨o, -, h⟩ := List.mem_flatMap.mp h
    obtain ⟨jid, -, rfl⟩ := List.mem_map.mp h
    exact Or.inr ⟨jid, rfl⟩

theorem exists_routed_broadcast {sender : String} (hr : e.chat.room.Indexed)
    (ho : e.chat.room.getOccupantByRealJid sender = some o) :
    ∃ jid, { e.stanza with recipient := some jid } ∈ (e.broadcast t).routed := by
  obtain ⟨nick, -, hnick⟩ := Option.bind_eq_some_iff.mp ho
  obtain ⟨stored, hstored, rfl⟩ := Option.map_eq_some_iff.mp hnick
  obtain ⟨jid, pr, hpr⟩ := hr.nonempty nick stored hstored
  have hlive := hr.available nick stored jid pr hstored hpr
  have hkey : jid ∈ stored.copy.sessions.keys := by
    rw [Table.mem_keys]
    refine ⟨pr, ?_⟩
    rw [Occupant.copy, Table.get_filter, hpr, Option.filter_some, if_pos (by simp [hlive])]
  refine ⟨jid, List.mem_append_right _ (List.mem_flatMap.mpr ⟨stored.copy, ?_, ?_⟩)⟩
  · rw [List.mem_filterMap]
    exact ⟨nick, (t.env.order.mem_keys _ _).mpr ((Table.mem_keys _ _).mpr ⟨stored, hstored⟩), hnick⟩
  · exact List.mem_map.mpr ⟨jid, (t.env.order.mem_keys _ _).mpr hkey, rfl⟩

theorem provenance_broadcastMessage (hspoken : c.SpokenBy stanza o) (hrouted : e.routed = [])
    (hroom : e.chat.room = c.room) (harchive : e.chat.archive = c.archive)
    (hhistory : e.chat.history = c.history) (hclean : Clean c.room.jid o.nick e.stanza) :
    Provenance opts t c stanza (e.broadcastMessage sv opts t) := by
  rw [ChatEvent.broadcastMessage_eq]
  obtain ⟨id, hid⟩ := ChatEvent.recorded_fireAddHistory sv opts t e
  obtain ⟨hstanza, harchived⟩ := genuine_recorded hid harchive (by rw [hroom]) hclean
  constructor
  · intro copy hcopy
    refine ⟨o, hspoken, ?_⟩
    rcases List.mem_append.mp hcopy with hsent | hstored
    · rcases mem_routed_broadcast hsent with hold | ⟨jid, rfl⟩
      · rw [hid.routed, hrouted] at hold
        exact absurd hold List.not_mem_nil
      · exact ⟨hstanza.sender, hstanza.delay, hstanza.stanzaId⟩
    · obtain ⟨a, ha, rfl⟩ := List.mem_map.mp hstored
      exact harchived a ha
  · intro entry hentry
    rcases hid.history entry hentry with hold | hnew
    · rw [hhistory] at hold
      exact Or.inl hold
    · exact Or.inr ⟨o, _, hspoken, hstanza, hnew⟩

/-! ## Getting past the handlers -/

def passedOn (c : Chat) (stanza : Message) (o : Occupant) : ChatEvent :=
  let event := (c.groupchatEvent stanza).stripDelays.1
  { event with stanza := { event.stanza with sender := o.nick } }

/-- The three ways in which a message ends. -/
inductive Outcome (sv : Server) (opts : ChatOptions) (t : Moment) (c : Chat) (stanza : Message)
    (e : ChatEvent) : Prop where
  | refused (hchat : e.chat = c) (hrouted : e.routed = [])
      (h : (∀ o, ¬ c.SpokenBy stanza o) ∨ stanza.getChild "subject" ≠ none)
  | subject (o : Occupant) (x : Xml) (h : c.SpokenBy stanza o)
      (hx : stanza.getChild "subject" = some x)
      (he : e = (c.groupchatEvent stanza).setSubject sv opts t o.nick x.getText)
  | spoken (o : Occupant) (h : c.SpokenBy stanza o) (hx : stanza.getChild "subject" = none)
      (he : e = (c.passedOn stanza o).broadcastMessage sv opts t)

theorem spokenBy_iff : c.SpokenBy stanza o ↔ c.room.getOccupantByRealJid stanza.sender = some o ∧
    roleRank (some .visitor) < roleRank o.role := by
  unfold SpokenBy
  refine and_congr_right fun _ => ?_
  rcases o.role with _ | _ | _ | _ <;> simp [roleRank]

theorem checkRole_refused (h : roleRank (e.occupant.bind Occupant.role) ≤ roleRank (some .visitor)) :
    ∃ replies, e.checkRole = ({ e with replies := replies }, true) := by
  unfold ChatEvent.checkRole
  dsimp only
  split
  · exact ⟨_, rfl⟩
  · exact ⟨_, rfl⟩

theorem checkRole_passed (h : roleRank (some .visitor) < roleRank (e.occupant.bind Occupant.role)) :
    e.checkRole = (e, false) := by
  unfold ChatEvent.checkRole
  dsimp only
  rw [if_neg, if_neg (Nat.not_le.mpr h)]
  exact Nat.not_le.mpr (lt_of_le_of_lt (Nat.zero_le _) h)

theorem changeSubject_passed (sv : Server) (opts : ChatOptions) (t : Moment)
    (hx : e.stanza.getChild "subject" = none) :
    e.changeSubject sv opts t = (e, false) := by
  unfold ChatEvent.changeSubject
  rw [hx]

theorem changeSubject_handled (sv : Server) (opts : ChatOptions) (t : Moment) {x : Xml}
    (hx : e.stanza.getChild "subject" = some x) (ho : e.occupant = some o) :
    e.changeSubject sv opts t = (e.setSubject sv opts t o.nick x.getText, true) ∨
      ∃ replies, e.changeSubject sv opts t = ({ e with replies := replies }, true) := by
  unfold ChatEvent.changeSubject
  rw [hx, ho]
  dsimp only
  split
  · exact Or.inl rfl
  · exact Or.inr ⟨_, rfl⟩

theorem fire_groupchat (sv : Server) (opts : ChatOptions) (t : Moment) (e : ChatEvent) :
    Hook.fire (ChatEvent.groupchatHooks sv opts t) "muc-occupant-groupchat" e =
      if e.checkRole.2 then e.checkRole
      else if (e.checkRole.1.changeSubject sv opts t).2 then e.checkRole.1.changeSubject sv opts t
      else (e.checkRole.1.changeSubject sv opts t).1.stripDelays := by
  unfold Hook.fire
  rw [ChatEvent.handlers_groupchat]
  rfl

theorem outcome_handleGroupchatToRoom (sv : Server) (opts : ChatOptions) (t : Moment) (c : Chat)
    (stanza : Message) :
    Outcome sv opts t c stanza (c.handleGroupchatToRoom sv opts t stanza) := by
  have hfire := fire_groupchat sv opts t (c.groupchatEvent stanza)
  unfold handleGroupchatToRoom
  dsimp only
  by_cases hrank : roleRank ((c.groupchatEvent stanza).occupant.bind Occupant.role) ≤
      roleRank (some .visitor)
  · obtain ⟨replies, hcheck⟩ := checkRole_refused hrank
    rw [hcheck, if_pos rfl] at hfire
    rw [hfire, if_pos rfl]
    refine .refused rfl rfl (Or.inl fun o hspoken => ?_)
    obtain ⟨ho, hrole⟩ := spokenBy_iff.mp hspoken
    have hocc : (c.groupchatEvent stanza).occupant = some o := ho
    rw [hocc] at hrank
    exact absurd hrole (Nat.not_lt.mpr hrank)
  · rw [Nat.not_le] at hrank
    rw [checkRole_passed hrank, if_neg Bool.false_ne_true] at hfire
    cases ho : (c.groupchatEvent stanza).occupant with
    | none =>
      rw [ho] at hrank
      exact absurd hrank (by decide)
    | some o =>
      rw [ho] at hrank
      have hspoken : c.SpokenBy stanza o := spokenBy_iff.mpr ⟨ho, hrank⟩
      cases hx : stanza.getChild "subject" with
      | none =>
        have hpass := changeSubject_passed sv opts t (e := c.groupchatEvent stanza) hx
        rw [hpass, if_neg Bool.false_ne_true] at hfire
        rw [hfire]
        exact .spoken o hspoken hx rfl
      | some x =>
        rcases changeSubject_handled sv opts t (e := c.groupchatEvent stanza) hx ho with
          hset | ⟨replies, hset⟩
        · rw [hset, if_pos rfl] at hfire
          rw [hfire, if_pos rfl]
          exact .subject o x hspoken hx rfl
        · rw [hset, if_pos rfl] at hfire
          rw [hfire, if_pos rfl]
          refine .refused rfl rfl (Or.inr ?_)
          rw [hx]
          exact Option.some_ne_none x

/-! ## The promise, and when it is kept -/

theorem provenance_of_unchanged (hchat : e.chat = c) (hrouted : e.routed = []) :
    Provenance opts t c stanza e := by
  have hnone : c.copies e = [] := by
    rw [copies, archivedBy, hrouted, hchat, List.drop_length]
    rfl
  constructor
  · intro copy hcopy
    rw [hnone] at hcopy
    exact absurd hcopy List.not_mem_nil
  · intro entry hentry
    rw [hchat] at hentry
    exact Or.inl hentry

theorem provenance_setSubject (hspoken : c.SpokenBy stanza o) (subject : Option String) :
    Provenance opts t c stanza ((c.groupchatEvent stanza).setSubject sv opts t o.nick subject) := by
  unfold ChatEvent.setSubject
  dsimp only
  generalize (if subject = some "" then none else subject) = subject'
  split
  · exact provenance_of_unchanged rfl rfl
  · refine provenance_broadcastMessage hspoken rfl rfl rfl rfl ⟨rfl, ?_, ?_⟩
    · intro x hx
      rw [List.mem_singleton.mp hx]
      simp [Xml.delayFrom, Xml.isDelay, Xml.name]
    · intro x hx
      rw [List.mem_singleton.mp hx]
      simp [Xml.stanzaIdBy, Xml.isStanzaId, Xml.name]

/-- Elements that do not claim to be a delay by the room are passed on, and no others. -/
theorem mem_passedOn {x : Xml} : x ∈ (c.passedOn stanza o).stanza.children ↔
    x ∈ stanza.children ∧ ¬ x.delayFrom c.room.jid := by
  have htext : ∀ s, ¬ (Xml.text s).delayFrom c.room.jid := by
    intro s
    simp [Xml.delayFrom, Xml.isDelay, Xml.name]
  constructor
  · intro h
    obtain ⟨y, hy, hfilter⟩ := List.mem_filterMap.mp h
    cases y with
    | text s =>
      cases hfilter
      exact ⟨hy, htext s⟩
    | element name attr children =>
      have htag : (Xml.element name attr children).isTag = true := rfl
      rw [if_pos htag] at hfilter
      dsimp only at hfilter
      split at hfilter
      · cases hfilter
      · rename_i hdelay
        cases hfilter
        exact ⟨hy, hdelay⟩
  · rintro ⟨hx, hdelay⟩
    refine List.mem_filterMap.mpr ⟨x, hx, ?_⟩
    have hdelay' : ¬ x.delayFrom (c.groupchatEvent stanza).chat.room.jid := hdelay
    dsimp only
    rw [if_neg hdelay']
    split <;> rfl

theorem not_delayFrom_of_stanzaIdBy {roomJid : String} {x : Xml} (h : x.stanzaIdBy roomJid) :
    ¬ x.delayFrom roomJid := by
  simp only [Xml.stanzaIdBy, Xml.isStanzaId, decide_eq_true_eq] at h
  simp [Xml.delayFrom, Xml.isDelay, h.1.1]

theorem not_provenance_of_forged (hr : c.room.Indexed) (hforged : c.Forged stanza) :
    ¬ Provenance opts t c stanza (c.handleGroupchatToRoom sv opts t stanza) := by
  obtain ⟨⟨o, hspoken⟩, hsubject, x, hx, hby⟩ := hforged
  cases outcome_handleGroupchatToRoom sv opts t c stanza with
  | refused _ _ h =>
    rcases h with h | h
    · exact absurd hspoken (h o)
    · exact absurd hsubject h
  | subject _ y _ hy _ =>
    rw [hsubject] at hy
    cases hy
  | spoken o' hspoken' _ he =>
    rw [he, ChatEvent.broadcastMessage_eq]
    intro hprov
    obtain ⟨id, hid⟩ := ChatEvent.recorded_fireAddHistory sv opts t (c.passedOn stanza o')
    have hroom := hid.room
    have hids := archivedBy_recorded hid rfl
    generalize (ChatEvent.fireAddHistory sv opts t (c.passedOn stanza o')).1 = recorded at *
    have hindexed : recorded.chat.room.Indexed := by
      rw [hroom]
      exact hr
    have hsender : recorded.chat.room.getOccupantByRealJid stanza.sender = some o := by
      rw [hroom]
      exact hspoken.1
    obtain ⟨jid, hrouted⟩ := exists_routed_broadcast (t := t) hindexed hsender
    obtain ⟨_, -, hgenuine⟩ := hprov.copy _ (List.mem_append_left _ hrouted)
    -- the forged id is still in the copy
    have hforged : x ∈ (c.passedOn stanza o').stanza.children.filter
        (Xml.stanzaIdBy c.room.jid) :=
      List.mem_filter.mpr ⟨mem_passedOn.mpr ⟨hx, not_delayFrom_of_stanzaIdBy hby⟩, hby⟩
    have hsplit : recorded.stanza.children.filter (Xml.stanzaIdBy c.room.jid) =
        (c.passedOn stanza o').stanza.children.filter (Xml.stanzaIdBy c.room.jid) ++
          (id.map (Xml.stanzaId c.room.jid)).toList := by
      rw [hid.stanza]
      dsimp only
      rw [List.filter_append]
      congr 1
      cases id with
      | none => rfl
      | some id => exact List.filter_cons_of_pos (stanzaIdBy_stanzaId c.room.jid id)
    have hlength := List.length_pos_of_mem hforged
    rcases hgenuine.stanzaId with hnil | ⟨a, ha, hone⟩
    · have hnone : recorded.stanza.children.filter (Xml.stanzaIdBy c.room.jid) = [] := hnil
      rw [hsplit, List.append_eq_nil_iff] at hnone
      rw [hnone.1] at hlength
      exact absurd hlength (Nat.lt_irrefl 0)
    · have hmem : a.id ∈ id.toList := by
        rw [← hids]
        exact List.mem_map.mpr ⟨a, ha, rfl⟩
      have hone' : recorded.stanza.children.filter (Xml.stanzaIdBy c.room.jid) =
          [.stanzaId c.room.jid a.id] := hone
      rw [hsplit, Option.mem_toList.mp hmem] at hone'
      have hcount := congrArg List.length hone'
      rw [List.length_append, Option.map_some, Option.toList_some, List.length_singleton] at hcount
      omega

/-- In any room, whether or not a run leads to it. -/
theorem provenance_of_not_forged (hno : ¬ c.Forged stanza) :
    Provenance opts t c stanza (c.handleGroupchatToRoom sv opts t stanza) := by
  cases outcome_handleGroupchatToRoom sv opts t c stanza with
  | refused hchat hrouted _ => exact provenance_of_unchanged hchat hrouted
  | subject o x hspoken _ he =>
    rw [he]
    exact provenance_setSubject hspoken x.getText
  | spoken o hspoken hx he =>
    rw [he]
    refine provenance_broadcastMessage hspoken rfl rfl rfl rfl ⟨rfl, ?_, ?_⟩
    · exact fun y hy => (mem_passedOn.mp hy).2
    · exact fun y hy hby => hno ⟨⟨o, hspoken⟩, hx, y, (mem_passedOn.mp hy).1, hby⟩

/-- The room keeps its promise about a message exactly if the message does not bring an id along
that claims to be by the room: the handler that would strip it waits for another event. The run that
leads to the room matters to the broken promise only: the sender has to be found in `_jid_nick`. -/
theorem groupchat_provenance_iff (sv : Server) (opts : ChatOptions) (t : Moment) (c : Chat)
    (stanza : Message) (hr : Room.Reachable sv c.room) :
    Provenance opts t c stanza (c.handleGroupchatToRoom sv opts t stanza) ↔ ¬ c.Forged stanza :=
  ⟨fun hprov hforged => not_provenance_of_forged hr.consistent.indexed hforged hprov,
    provenance_of_not_forged⟩

/-! ## A message in the room of two users -/

def gardenChat : Chat :=
  { room := Room.garden
    data :=
      { whois := .moderators
        changeSubject := false
        archiving := none
        historyLength := none
        subject := none
        subjectFrom := none
        subjectTime := none }
    history := []
    archive := [] }

def archivingOptions : ChatOptions :=
  { host := "verona"
    maxHistoryLength := none
    mam := true
    logAllRooms := false
    logByDefault := true }

def evening : Moment :=
  { env := Room.ascending
    time := 1539889200
    datetime := "2018-10-18T19:00:00Z"
    legacy := "20181018T19:00:00"
    stored := some "nightingale" }

/-- A message of Romeo with these elements after its body. -/
def romeoSays (body : String) (elements : List Xml) : Message :=
  { sender := "romeo@montague/orchard"
    recipient := some "garden@verona"
    xmlns := none
    children := .element "body" [] [.text body] :: elements }

theorem groupchat_provenance_garden :
    Provenance archivingOptions evening gardenChat (romeoSays "It is the lark" [])
      (gardenChat.handleGroupchatToRoom Room.plainServer archivingOptions evening
        (romeoSays "It is the lark" [])) := by
  refine (groupchat_provenance_iff _ _ _ _ _ Room.garden_reachable).mpr ?_
  rintro ⟨-, -, x, hx, hby⟩
  rw [List.mem_singleton.mp hx] at hby
  exact absurd hby (by decide)

/-- Romeo gives his message an id of the archive, which is passed on. -/
theorem forged_id_passed_on :
    ¬ Provenance archivingOptions evening gardenChat
      (romeoSays "It is the lark" [.stanzaId "garden@verona" "lark"])
      (gardenChat.handleGroupchatToRoom Room.plainServer archivingOptions evening
        (romeoSays "It is the lark" [.stanzaId "garden@verona" "lark"])) := by
  obtain ⟨o, ho, hrole⟩ : ∃ o, gardenChat.room.getOccupantByRealJid "romeo@montague/orchard" =
      some o ∧ o.role = some .participant := by
    have hsome : (gardenChat.room.getOccupantByRealJid "romeo@montague/orchard").map
        Occupant.role = some (some .participant) := by decide +kernel
    exact Option.map_eq_some_iff.mp hsome
  refine not_provenance_of_forged Room.garden_reachable.consistent.indexed
    ⟨⟨o, ho, Or.inl hrole⟩, by rfl, .stanzaId "garden@verona" "lark", ?_, ?_⟩
  · exact List.mem_cons_of_mem _ (List.mem_singleton_self _)
  · have hjid : gardenChat.room.jid = "garden@verona" := by decide +kernel
    rw [hjid]
    exact stanzaIdBy_stanzaId "garden@verona" "lark"

end Chat

end Prosody.Muc
