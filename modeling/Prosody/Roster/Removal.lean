import Prosody.Roster.Query

/-! # The stanzas of a roster removal

A roster set with subscription `remove` fires `roster-item-removed` before the item is
removed, and `plugins/mod_presence.lua` then sends presence stanzas to the contact. -/

namespace Prosody.RosterManager

/-! ## Sessions of a host -/

/-- A bound session, and whether its `presence` is set. -/
structure BoundSession where
  username : String
  host : String
  resource : String
  available : Bool
  deriving DecidableEq

def BoundSession.fullJid (s : BoundSession) : Prosody.Jid where
  node := some s.username
  host := s.host
  resource := some s.resource

def BoundSession.bareJid (s : BoundSession) : Jid := s.username ++ "@" ++ s.host

/-- A host of type `local` with the sessions of its users. -/
structure LocalHost where
  name : String
  sessions : String → List BoundSession
  owned : ∀ user, ∀ s ∈ sessions user, s.username = user ∧ s.host = name

/-! ## Emitted stanzas -/

inductive StanzaType where
  | unsubscribed
  | unsubscribe
  | unavailable
  deriving DecidableEq, Repr

/-- A presence stanza given to `core_post_stanza`, and the session given with it. -/
structure Emission where
  origin : BoundSession
  type : StanzaType
  sender : Prosody.Jid
  recipient : Jid
  deriving DecidableEq

/-- `send_presence_of_available_resources` with a stanza. -/
def LocalHost.sendPresenceOfAvailableResources (h : LocalHost) (user : Option String)
    (recipient : Jid) (type : StanzaType) : List Emission :=
  match user with
  | none => []
  | some user =>
    ((h.sessions user).filter BoundSession.available).map fun session =>
      { origin := session, type := type, sender := session.fullJid, recipient := recipient }

/-- The payload of `roster-item-removed`. -/
structure ItemRemoved where
  username : Option String
  jid : Jid
  item : Item
  origin : BoundSession
  roster : Roster

/-- The `roster-item-removed` hook. -/
def LocalHost.rosterItemRemoved (h : LocalHost) (event : ItemRemoved) : List Emission :=
  let session := event.origin
  let subscription := event.item.subscription
  let unsubscribed : List Emission :=
    if subscription.hasFrom || decide (event.jid ∈ event.roster.metadata.pending) then
      [{ origin := session, type := .unsubscribed, sender := session.fullJid
         recipient := event.jid }]
    else []
  let unsubscribe : List Emission :=
    if subscription.hasTo || event.item.ask.isSome then
      h.sendPresenceOfAvailableResources event.username event.jid .unavailable ++
        [{ origin := session, type := .unsubscribe, sender := session.fullJid
           recipient := event.jid }]
    else []
  unsubscribed ++ unsubscribe

/-- The stanzas sent for a roster set of the session `origin`, whose roster is `roster`. -/
def LocalHost.rosterSetEmits (h : LocalHost) (enc : Prosody.Jid.Stringprep)
    (origin : BoundSession) (roster : Roster) (query : List ItemTag) : List Emission :=
  match setTarget enc origin.bareJid query with
  | .error _ => []
  | .ok target =>
    if target.tag.removes then
      match roster.items.get target.jid with
      | some item =>
        h.rosterItemRemoved
          { username := target.node
            jid := target.jid
            item := item
            origin := origin
            roster := roster }
      | none => []
    else []

/-! ## Who sends -/

def LocalHost.availableResources (h : LocalHost) (user : String) : List BoundSession :=
  (h.sessions user).filter BoundSession.available

/-- The sessions that send an unavailable presence. -/
def unavailableSenders (emitted : List Emission) : List BoundSession :=
  (emitted.filter fun e => e.type = .unavailable).map Emission.origin

/-- The item is one whose removal withdraws the presence of the user. -/
def Item.withdrawsPresence (item : Item) : Bool :=
  item.subscription.hasTo || item.ask.isSome

/-- Only sessions of the user send, from addresses of the user, and where presence is withdrawn
it is that of exactly the available resources of the user. -/
structure ActsForRemover (h : LocalHost) (user : String) (item : Item) (emitted : List Emission) :
    Prop where
  sender : ∀ e ∈ emitted, e.sender.node = some user ∧ e.sender.host = h.name
  origin : ∀ e ∈ emitted, e.origin ∈ h.sessions user
  unavailable : item.withdrawsPresence →
    ∀ s, s ∈ unavailableSenders emitted ↔ s ∈ h.availableResources user

section

variable (h : LocalHost) (event : ItemRemoved)

theorem LocalHost.mem_sendPresence_iff {user : Option String} {recipient : Jid}
    {type : StanzaType} {e : Emission} :
    e ∈ h.sendPresenceOfAvailableResources user recipient type ↔
      ∃ u ∈ user, ∃ s ∈ h.availableResources u,
        e = { origin := s, type := type, sender := s.fullJid, recipient := recipient } := by
  cases user with
  | none => simp [LocalHost.sendPresenceOfAvailableResources]
  | some u =>
    simp only [LocalHost.sendPresenceOfAvailableResources, LocalHost.availableResources,
      List.mem_map, Option.mem_some_iff, exists_eq_left']
    constructor
    · rintro ⟨s, hs, rfl⟩
      exact ⟨s, hs, rfl⟩
    · rintro ⟨s, hs, rfl⟩
      exact ⟨s, hs, rfl⟩

/-- A removal emits a stanza of its session, or one of an available resource of the user that
the event names. -/
theorem LocalHost.mem_rosterItemRemoved {e : Emission} (he : e ∈ h.rosterItemRemoved event) :
    (e.origin = event.origin ∧ e.sender = event.origin.fullJid ∧ e.type ≠ .unavailable) ∨
      (event.item.withdrawsPresence ∧
        e ∈ h.sendPresenceOfAvailableResources event.username event.jid .unavailable) := by
  simp only [LocalHost.rosterItemRemoved, List.mem_append] at he
  rcases he with he | he
  · split at he
    · obtain rfl := List.mem_singleton.mp he
      exact Or.inl ⟨rfl, rfl, StanzaType.noConfusion⟩
    · exact absurd he (by simp)
  · split at he
    · rename_i hwithdraws
      rcases List.mem_append.mp he with he | he
      · exact Or.inr ⟨hwithdraws, he⟩
      · obtain rfl := List.mem_singleton.mp he
        exact Or.inl ⟨rfl, rfl, StanzaType.noConfusion⟩
    · exact absurd he (by simp)

/-- The senders of unavailable presences are the available resources of the user that the
event names. -/
theorem LocalHost.mem_unavailableSenders_iff (hwithdraws : event.item.withdrawsPresence)
    (s : BoundSession) :
    s ∈ unavailableSenders (h.rosterItemRemoved event) ↔
      ∃ u ∈ event.username, s ∈ h.availableResources u := by
  simp only [unavailableSenders, List.mem_map, List.mem_filter, decide_eq_true_eq]
  constructor
  · rintro ⟨e, ⟨he, htype⟩, rfl⟩
    rcases h.mem_rosterItemRemoved event he with ⟨-, -, hne⟩ | ⟨-, hsend⟩
    · exact absurd htype hne
    · obtain ⟨u, hu, s, hs, rfl⟩ := h.mem_sendPresence_iff.mp hsend
      exact ⟨u, hu, hs⟩
  · rintro ⟨u, hu, hs⟩
    refine ⟨{ origin := s, type := .unavailable, sender := s.fullJid, recipient := event.jid },
      ⟨?_, rfl⟩, rfl⟩
    have hsend := h.mem_sendPresence_iff.mpr
      ⟨u, hu, s, hs, (rfl : _ = ({ origin := s, type := .unavailable, sender := s.fullJid
                                   recipient := event.jid } : Emission))⟩
    unfold Item.withdrawsPresence at hwithdraws
    simp only [LocalHost.rosterItemRemoved, hwithdraws, if_true, List.mem_append]
    exact Or.inr (Or.inl hsend)

/-- Resources of different users are different. -/
theorem LocalHost.user_eq_of_mem {u u' : String} {s : BoundSession}
    (hs : s ∈ h.availableResources u) (hs' : s ∈ h.availableResources u') : u = u' := by
  have hu := (h.owned u s (List.mem_of_mem_filter hs)).1
  have hu' := (h.owned u' s (List.mem_of_mem_filter hs')).1
  exact hu.symm.trans hu'

end

/-- The removal of an item acts only for the user exactly if it withdraws no presence, or the
event names the user, or neither the user nor the one that it names has available resources. -/
theorem rosterItemRemoved_acts_iff (h : LocalHost) (event : ItemRemoved)
    (horigin : event.origin ∈ h.sessions event.origin.username) :
    ActsForRemover h event.origin.username event.item (h.rosterItemRemoved event) ↔
      (event.item.withdrawsPresence → event.username = some event.origin.username ∨
        (h.availableResources event.origin.username = [] ∧
          ∀ u ∈ event.username, h.availableResources u = [])) := by
  have hhost : event.origin.host = h.name := (h.owned _ _ horigin).2
  constructor
  · intro hacts hwithdraws
    by_cases hname : event.username = some event.origin.username
    · exact Or.inl hname
    · right
      have hiff := hacts.unavailable hwithdraws
      constructor
      · refine List.eq_nil_iff_forall_not_mem.mpr fun s hs => hname ?_
        obtain ⟨u, hu, hs'⟩ :=
          (h.mem_unavailableSenders_iff event hwithdraws s).mp ((hiff s).mpr hs)
        rw [hu, h.user_eq_of_mem hs' hs]
      · intro u hu
        refine List.eq_nil_iff_forall_not_mem.mpr fun s hs => hname ?_
        have hs' := (hiff s).mp ((h.mem_unavailableSenders_iff event hwithdraws s).mpr ⟨u, hu, hs⟩)
        rw [hu, h.user_eq_of_mem hs hs']
  · intro hcond
    have hmine : ∀ e ∈ h.rosterItemRemoved event,
        e.origin ∈ h.sessions event.origin.username ∧ e.sender = e.origin.fullJid := by
      intro e he
      rcases h.mem_rosterItemRemoved event he with ⟨ho, hs, -⟩ | ⟨hwithdraws, hsend⟩
      · rw [ho, hs]
        exact ⟨horigin, rfl⟩
      · obtain ⟨u, hu, s, hs, rfl⟩ := h.mem_sendPresence_iff.mp hsend
        rcases hcond hwithdraws with hname | ⟨-, hnone⟩
        · obtain rfl : u = event.origin.username := Option.some.inj (hu.symm.trans hname)
          exact ⟨List.mem_of_mem_filter hs, rfl⟩
        · rw [hnone u hu] at hs
          exact absurd hs (by simp)
    constructor
    · intro e he
      obtain ⟨ho, hs⟩ := hmine e he
      obtain ⟨huser, hname⟩ := h.owned _ _ ho
      rw [hs]
      exact ⟨congrArg some huser, hname⟩
    · intro e he
      exact (hmine e he).1
    · intro hwithdraws s
      rw [h.mem_unavailableSenders_iff event hwithdraws]
      rcases hcond hwithdraws with hname | ⟨hmine, hnone⟩
      · simp [hname]
      · constructor
        · rintro ⟨u, hu, hs⟩
          rw [hnone u hu] at hs
          exact absurd hs (by simp)
        · intro hs
          rw [hmine] at hs
          exact absurd hs (by simp)

/-- A roster set that removes a contact with the node of the contact in the event. -/
theorem removal_acts_iff (h : LocalHost) (enc : Prosody.Jid.Stringprep) (origin : BoundSession)
    (horigin : origin ∈ h.sessions origin.username) (roster : Roster) (query : List ItemTag)
    (target : Target) (item : Item)
    (htarget : setTarget enc origin.bareJid query = .ok target) (hremoves : target.tag.removes)
    (hitem : roster.items.get target.jid = some item) :
    ActsForRemover h origin.username item (h.rosterSetEmits enc origin roster query) ↔
      (item.withdrawsPresence → target.node = some origin.username ∨
        (h.availableResources origin.username = [] ∧
          ∀ node ∈ target.node, h.availableResources node = [])) := by
  have hemits : h.rosterSetEmits enc origin roster query =
      h.rosterItemRemoved ⟨target.node, target.jid, item, origin, roster⟩ := by
    simp only [LocalHost.rosterSetEmits, htarget, hremoves, if_true, hitem]
  rw [hemits]
  exact rosterItemRemoved_acts_iff h ⟨target.node, target.jid, item, origin, roster⟩ horigin

/-! ## A namesake of the contact -/

def plainPrep : Prosody.Jid.Stringprep where
  nodeprep := some
  nameprep := some
  resourceprep := some

def verona : LocalHost where
  name := "verona.example"
  sessions user :=
    if user = "romeo" ∨ user = "juliet" then [⟨user, "verona.example", "balcony", true⟩] else []
  owned := by
    intro user s hs
    split at hs
    · obtain rfl := List.mem_singleton.mp hs
      exact ⟨rfl, rfl⟩
    · exact absurd hs (by simp)

def romeo : BoundSession := ⟨"romeo", "verona.example", "balcony", true⟩

def mutualItem : Item := { Item.fresh with subscription := .both }

def romeoRoster (contact : Jid) : Roster where
  items := (∅ : Table Jid Item).set contact (some mutualItem)
  metadata := Metadata.fresh

def removeQuery (contact : Jid) : List ItemTag :=
  [{ tagName := "item", xmlns := "jabber:iq:roster", jid := some contact
     subscription := some "remove", name := none, groups := [] }]

/-- Removing a contact elsewhere that has the node of the user. -/
theorem removal_acts_namesake :
    ActsForRemover verona "romeo" mutualItem
      (verona.rosterSetEmits plainPrep romeo (romeoRoster "romeo@mantua.example")
        (removeQuery "romeo@mantua.example")) :=
  (removal_acts_iff verona plainPrep romeo (by decide) (romeoRoster "romeo@mantua.example")
    (removeQuery "romeo@mantua.example")
    ⟨(removeQuery "romeo@mantua.example").head (by decide), "romeo@mantua.example", some "romeo"⟩
    mutualItem (by decide +kernel) (by decide) (by decide +kernel)).mpr fun _ => Or.inl rfl

/-- Removing a remote contact makes the local user of that name send an unavailable presence,
and the remover sends none. -/
theorem removal_makes_namesake_send :
    unavailableSenders
        (verona.rosterSetEmits plainPrep romeo (romeoRoster "juliet@capulet.example")
          (removeQuery "juliet@capulet.example")) =
      [⟨"juliet", "verona.example", "balcony", true⟩] ∧
    ¬ ActsForRemover verona "romeo" mutualItem
      (verona.rosterSetEmits plainPrep romeo (romeoRoster "juliet@capulet.example")
        (removeQuery "juliet@capulet.example")) := by
  have hsenders : unavailableSenders
      (verona.rosterSetEmits plainPrep romeo (romeoRoster "juliet@capulet.example")
        (removeQuery "juliet@capulet.example")) =
      [⟨"juliet", "verona.example", "balcony", true⟩] := by
    decide +kernel
  refine ⟨hsenders, fun hacts => ?_⟩
  have hmem := (hacts.unavailable rfl ⟨"juliet", "verona.example", "balcony", true⟩).mp
    (by simp [hsenders])
  revert hmem
  decide

end Prosody.RosterManager
