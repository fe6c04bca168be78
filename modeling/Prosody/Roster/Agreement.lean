import Prosody.Library.Runs
import Prosody.Roster.Links
import Prosody.Roster.Presence

/-! # Two-sided subscription agreement -/

namespace Prosody.RosterManager

/-- The roster that a store without errors and legacy entries loads as. -/
def Stored.roster (stored : Stored) : Roster :=
  { items := stored.items, metadata := stored.metadata.getD Metadata.fresh }

/-- The roster that counts: the one of the sessions, or else the stored one. -/
def User.roster (u : User) : Roster := u.session.getD u.stored.roster

def User.contact (u : User) (jid : Jid) : Contact := u.roster.contact jid

/-- `a` sees `b` exactly if `b` lets it, and `a` waits for `b` exactly if `b` has the request. -/
structure Agrees (s : Server) (a b : Jid) : Prop where
  subscription : ((s a).contact b).hasTo = ((s b).contact a).hasFrom
  request : ((s a).contact b).asks = ((s b).contact a).pending

/-- Agreement in both directions. -/
def AgreesBothWays (s : Server) (a b : Jid) : Prop := Agrees s a b ∧ Agrees s b a

/-! ## Users whose saves succeed -/

theorem User.saveRoster_of_works (u : User) {roster : Roster} {jid : Jid}
    (hregistered : u.registered = true) (haccepts : u.storeAccepts = true)
    (hsound : roster.metadata.broken = none) :
    u.saveRoster roster jid =
      (true, roster.bumpVersion,
        { u with stored :=
            u.stored.setKeys roster.bumpVersion.metadata jid (roster.items.get jid) }) := by
  have hb : roster.bumpVersion.metadata.broken = none := hsound
  simp only [User.saveRoster, hregistered, haccepts, hb]
  rfl

/-- The account exists, its store works and holds what its sessions have. -/
structure User.Healthy (u : User) (owner : Jid) : Prop where
  registered : u.registered = true
  storeAccepts : u.storeAccepts = true
  readable : u.readError = none
  sound : u.stored.roster.metadata.broken = none
  noLegacy : u.stored.legacyPending = none
  noSelf : u.stored.items.get owner = none
  cached : u.session = none ∨ u.session = some u.stored.roster

namespace User.Healthy

variable {u : User} {owner jid : Jid}

theorem roster_eq (h : u.Healthy owner) : u.roster = u.stored.roster := by
  rcases h.cached with hs | hs <;> simp [User.roster, hs]

theorem readRoster_eq (h : u.Healthy owner) : u.readRoster owner = (u.roster, u) := by
  have hfresh : ({ Metadata.fresh with broken := none } : Metadata) = Metadata.fresh := rfl
  simp only [User.readRoster, rosterMetadata, h.readable, h.noLegacy, h.noSelf, h.roster_eq,
    Stored.roster, hfresh, Option.isSome_none, Bool.false_eq_true, if_false]

theorem loadRoster_eq (h : u.Healthy owner) : u.loadRoster owner = (u.roster, u) := by
  unfold User.loadRoster
  cases hs : u.session with
  | none => exact h.readRoster_eq
  | some roster => simp [User.roster, hs]

theorem saveRoster_eq (h : u.Healthy owner) (roster : Roster)
    (hr : roster.metadata.broken = none) :
    u.saveRoster roster jid =
      (true, roster.bumpVersion,
        { u with stored :=
            u.stored.setKeys roster.bumpVersion.metadata jid (roster.items.get jid) }) :=
  u.saveRoster_of_works h.registered h.storeAccepts hr

end User.Healthy

/-- A user after a successful save of the contact `c`. -/
def User.put (u : User) (jid : Jid) (c : Contact) : User :=
  let roster := (u.roster.setContact jid c).bumpVersion
  { u with
    stored := u.stored.setKeys roster.metadata jid c.item
    session := u.session.map fun _ => roster }

namespace User.Healthy

variable {u : User} {owner jid : Jid}

theorem put_stored_roster (h : u.Healthy owner) (c : Contact) :
    (u.put jid c).stored.roster = (u.roster.setContact jid c).bumpVersion := by
  simp [User.put, h.roster_eq, Stored.setKeys, Stored.roster, Roster.setContact,
    Roster.bumpVersion]

theorem put_roster (h : u.Healthy owner) (c : Contact) :
    (u.put jid c).roster = (u.roster.setContact jid c).bumpVersion := by
  cases hs : u.session with
  | none =>
    rw [← h.put_stored_roster c]
    simp [User.roster, User.put, hs]
  | some roster => simp [User.roster, User.put, hs]

theorem put (h : u.Healthy owner) (hne : jid ≠ owner) (c : Contact) :
    (u.put jid c).Healthy owner where
  registered := h.registered
  storeAccepts := h.storeAccepts
  readable := h.readable
  sound := by
    rw [h.put_stored_roster, h.roster_eq]
    exact h.sound
  noLegacy := by simp [User.put, Stored.setKeys, h.noLegacy]
  noSelf := by
    have hkeep : (u.stored.items.set jid c.item).get owner = u.stored.items.get owner :=
      Table.get_set_of_ne _ hne.symm _
    exact hkeep.trans h.noSelf
  cached := by
    rw [h.put_stored_roster]
    cases hs : u.session with
    | none => exact Or.inl (by simp [User.put, hs])
    | some roster => exact Or.inr (by simp [User.put, hs])

theorem put_contact_self (h : u.Healthy owner) (c : Contact) :
    (u.put jid c).contact jid = c := by
  simp [User.contact, h.put_roster]

theorem edit_eq (h : u.Healthy owner) (f : Contact → Edit) :
    u.edit owner jid f =
      match f (u.contact jid) with
      | .keep result => (result, u)
      | .save c => (true, u.put jid c) := by
  have hsound : u.roster.metadata.broken = none := by
    rw [h.roster_eq]
    exact h.sound
  simp only [User.edit, h.loadRoster_eq]
  cases hf : f (u.roster.contact jid) with
  | keep result => simp [User.contact, hf]
  | save c =>
    have hitem : (u.roster.setContact jid c).items.get jid = c.item :=
      Table.get_set_self _ _ _
    simp [User.contact, hf, h.saveRoster_eq (u.roster.setContact jid c) hsound,
      hitem, User.put]

theorem removeFromRoster_eq (h : u.Healthy owner) (honline : u.session.isSome) :
    u.removeFromRoster jid =
      (true, u.put jid { item := none, pending := (u.contact jid).pending }) := by
  obtain ⟨roster, hs⟩ := Option.isSome_iff_exists.mp honline
  have hroster : u.roster = roster := by simp [User.roster, hs]
  have hsound : roster.metadata.broken = none := by
    rw [← hroster, h.roster_eq]
    exact h.sound
  have hset : roster.setContact jid { item := none, pending := (u.contact jid).pending } =
      { roster with items := roster.items.set jid none } := by
    rw [User.contact, hroster]
    exact roster.setContact_item none
  simp only [User.removeFromRoster, User.setItem, hs]
  rw [h.saveRoster_eq { roster with items := roster.items.set jid none } hsound]
  simp [User.put, hroster, hset, hs]

end User.Healthy

/-! ## Two users -/

/-- What the rosters of `a` and `b` say: `a` has the links `out` to and `inn` from `b`, and
`b` has the links `out'` to and `inn'` from `a`. -/
structure Sides (s : Server) (a b : Jid) (out inn out' inn' : Link) : Prop where
  healthy : (s a).Healthy a
  healthy' : (s b).Healthy b
  shows : ((s a).contact b).Shows out inn
  shows' : ((s b).contact a).Shows out' inn'

/-- Both rosters describe the same links. -/
abbrev Linked (s : Server) (a b : Jid) (out inn : Link) : Prop := Sides s a b out inn inn out

section

variable {s : Server} {a b : Jid} {out inn out' inn' : Link}

theorem Sides.symm (h : Sides s a b out inn out' inn') : Sides s b a out' inn' out inn :=
  ⟨h.healthy', h.healthy, h.shows', h.shows⟩

theorem Sides.agrees_iff (h : Sides s a b out inn out' inn') :
    AgreesBothWays s a b ↔ out = inn' ∧ inn = out' := by
  have hcases : ∀ l l' : Link,
      (decide (l = .granted) = decide (l' = .granted) ∧
        decide (l = .requested) = decide (l' = .requested)) ↔ l = l' := by
    intro l l'
    cases l <;> cases l' <;> decide
  constructor
  · rintro ⟨⟨hsub, hreq⟩, ⟨hsub', hreq'⟩⟩
    rw [h.shows.hasTo, h.shows'.hasFrom] at hsub
    rw [h.shows.asks, h.shows'.pending] at hreq
    rw [h.shows'.hasTo, h.shows.hasFrom] at hsub'
    rw [h.shows'.asks, h.shows.pending] at hreq'
    exact ⟨(hcases _ _).mp ⟨hsub, hreq⟩, ((hcases _ _).mp ⟨hsub', hreq'⟩).symm⟩
  · rintro ⟨rfl, rfl⟩
    refine ⟨⟨?_, ?_⟩, ⟨?_, ?_⟩⟩
    · rw [h.shows.hasTo, h.shows'.hasFrom]
    · rw [h.shows.asks, h.shows'.pending]
    · rw [h.shows'.hasTo, h.shows.hasFrom]
    · rw [h.shows'.asks, h.shows.pending]

@[simp] theorem Server.setUser_self (s : Server) (a : Jid) : s.setUser a (s a) = s :=
  Function.update_eq_self a s

/-- A successful save of `b`'s entry in the roster of `a`. -/
theorem Sides.put (hab : a ≠ b) (h : Sides s a b out inn out' inn') {c : Contact}
    {o i : Link} (hc : c.Shows o i) :
    Sides (s.setUser a ((s a).put b c)) a b o i out' inn' where
  healthy := by simpa [Server.setUser] using h.healthy.put hab.symm c
  healthy' := by simpa [Server.setUser, hab.symm] using h.healthy'
  shows := by simpa [Server.setUser, h.healthy.put_contact_self c] using hc
  shows' := by simpa [Server.setUser, hab.symm] using h.shows'

theorem Sides.edit (hab : a ≠ b) (h : Sides s a b out inn out' inn') {f : Contact → Edit}
    {o i : Link → Link} (hf : ActsBy f o i) :
    Sides (s.edit a b f).2 a b (o out) (i inn) out' inn' := by
  have hc := hf _ _ _ h.shows
  cases he : f ((s a).contact b) with
  | keep result =>
    rw [he] at hc
    have hs : (s.edit a b f).2 = s := by simp [Server.edit, h.healthy.edit_eq, he]
    rw [hs]
    exact ⟨h.healthy, h.healthy', hc, h.shows'⟩
  | save c =>
    rw [he] at hc
    have hs : (s.edit a b f).2 = s.setUser a ((s a).put b c) := by
      simp [Server.edit, h.healthy.edit_eq, he]
    rw [hs]
    exact h.put hab hc

theorem Sides.edit_result (h : Sides s a b out inn out' inn') (f : Contact → Edit) :
    (s.edit a b f).1 = (f ((s a).contact b)).result := by
  cases he : f ((s a).contact b) <;> simp [Server.edit, h.healthy.edit_eq, he]

/-! ## Queries -/

theorem Sides.onlineRosterSubscription (h : Sides s a b out inn out' inn') :
    s.onlineRosterSubscription a b = none ∨
      ∃ subscription, s.onlineRosterSubscription a b = some subscription ∧
        subscription.hasTo = decide (out = .granted) ∧
        subscription.hasFrom = decide (inn = .granted) := by
  cases hs : (s a).session with
  | none => exact Or.inl (by simp [Server.onlineRosterSubscription, hs])
  | some roster =>
    refine Or.inr ⟨_, by simp [Server.onlineRosterSubscription, hs]; rfl, ?_⟩
    have hto := h.shows.hasTo
    have hfrom := h.shows.hasFrom
    simp only [User.contact, User.roster, hs, Option.getD_some, Roster.contact,
      Contact.hasTo, Contact.hasFrom] at hto hfrom
    rw [← hto, ← hfrom]
    cases roster.items.get b <;> exact ⟨rfl, rfl⟩

theorem Sides.isContactSubscribed (h : Sides s a b out inn out' inn')
    (hlink : inn = .granted ↔ out' = .granted) :
    s.isContactSubscribed a b = (decide (inn = .granted), none, s) := by
  rcases h.onlineRosterSubscription with hs | ⟨sub, hs, -, hfrom⟩
  · rcases h.symm.onlineRosterSubscription with hs' | ⟨sub', hs', hto', -⟩
    · have hfrom := h.shows.hasFrom
      simp only [Contact.hasFrom, User.contact, Roster.contact] at hfrom
      simp [Server.isContactSubscribed, hs, hs', h.healthy.loadRoster_eq, h.healthy.readable, hfrom]
    · simp [Server.isContactSubscribed, hs, hs', hto', hlink]
  · simp [Server.isContactSubscribed, hs, hfrom]

theorem Sides.isUserSubscribed (h : Sides s a b out inn out' inn')
    (hlink : out = .granted ↔ inn' = .granted) :
    s.isUserSubscribed a b = (decide (out = .granted), none, s) := by
  rcases h.onlineRosterSubscription with hs | ⟨sub, hs, hto, -⟩
  · rcases h.symm.onlineRosterSubscription with hs' | ⟨sub', hs', -, hfrom'⟩
    · have hto := h.shows.hasTo
      simp only [Contact.hasTo, User.contact, Roster.contact] at hto
      simp [Server.isUserSubscribed, hs, hs', h.healthy.loadRoster_eq, h.healthy.readable, hto]
    · simp [Server.isUserSubscribed, hs, hs', hfrom', hlink]
  · simp [Server.isUserSubscribed, hs, hto]

theorem Sides.isContactPendingIn (h : Sides s a b out inn out' inn') :
    s.isContactPendingIn a b = (decide (inn = .requested), s) := by
  have hpending := h.shows.pending
  simp only [User.contact] at hpending
  simp [Server.isContactPendingIn, h.healthy.loadRoster_eq, hpending]

/-! ## Handlers -/

theorem Sides.inboundUnsubscribe (hab : a ≠ b) (h : Sides s a b out inn out' inn') :
    Sides (s.inboundUnsubscribe a b) a b out inn out' .none :=
  (h.symm.edit hab.symm actsBy_inboundUnsubscribe).symm

theorem Sides.inboundSubscribed (hab : a ≠ b) (h : Sides s a b out inn out' inn') :
    Sides (s.inboundSubscribed a b) a b out inn out'.approve inn' :=
  (h.symm.edit hab.symm actsBy_approval).symm

theorem Sides.inboundUnsubscribed (hab : a ≠ b) (h : Sides s a b out inn out' inn') :
    Sides (s.inboundUnsubscribed a b) a b out inn .none inn' :=
  (h.symm.edit hab.symm actsBy_cancellation).symm

theorem outboundUnsubscribe_linked (hab : a ≠ b) (h : Linked s a b out inn) :
    Linked (s.outboundUnsubscribe a b) a b .none inn := by
  simp only [Server.outboundUnsubscribe, if_neg hab]
  exact (h.edit hab actsBy_unsubscribe).inboundUnsubscribe hab

theorem outboundUnsubscribed_linked (hab : a ≠ b) (h : Linked s a b out inn) :
    Linked (s.outboundUnsubscribed a b) a b out .none := by
  have hs := h.edit hab actsBy_unsubscribed
  have hresult := h.edit_result unsubscribed
  have hfrom := h.shows.hasFrom
  have hpending := h.shows.pending
  simp only [Server.outboundUnsubscribed, if_neg hab]
  split
  · exact hs.inboundUnsubscribed hab
  · rename_i hfail
    have hinn : inn = .none := by
      rw [hresult] at hfail
      cases inn <;> simp_all [unsubscribed, Contact.hasFrom]
    subst hinn
    exact hs

theorem inboundProbe_linked (h : Linked s a b .granted inn) : s.inboundProbe a b = s := by
  simp [Server.inboundProbe, h.symm.isContactSubscribed Iff.rfl]

theorem outboundSubscribed_linked (hab : a ≠ b) (h : Linked s a b out inn) :
    Linked (s.outboundSubscribed a b) a b out inn.approve := by
  have hs : Linked ((s.edit a b subscribed).2.inboundSubscribed a b) a b out inn.approve :=
    (h.edit hab actsBy_subscribed).inboundSubscribed hab
  simp only [Server.outboundSubscribed, if_neg hab, hs.isUserSubscribed Iff.rfl]
  split
  · rename_i hout
    have hout : out = .granted := by simpa using hout
    subst hout
    rw [inboundProbe_linked hs]
    exact hs
  · exact hs

theorem outboundSubscribe_linked (hab : a ≠ b) (h : Linked s a b out inn) :
    Linked (s.outboundSubscribe a b) a b out.request inn := by
  have hs := h.edit hab actsBy_pendingOut
  simp only [Server.outboundSubscribe, if_neg hab, Server.inboundSubscribe]
  have hlink : out = .granted ↔ out.request = .granted := by cases out <;> simp
  simp only [hs.symm.isContactSubscribed hlink, hs.symm.isContactPendingIn]
  cases out with
  | none => exact (hs.symm.edit hab.symm actsBy_pendingIn).symm
  | requested => exact hs
  | granted => exact (outboundSubscribed_linked hab.symm hs.symm).symm

/-! ## Removal, login and logout -/

theorem Sides.rosterItemRemoved (hab : a ≠ b) (h : Linked s a b out inn) :
    Sides (s.rosterItemRemoved a b ((s a).contact b)) a b out inn .none .none := by
  have hto := h.shows.hasTo
  have hask := h.shows.asks
  have hfrom := h.shows.hasFrom
  have hpending := h.shows.pending
  have hsub : ∀ item : Option Item,
      ((item.map Item.subscription).getD .none).hasTo =
          (item.any fun item => item.subscription.hasTo) ∧
        ((item.map Item.subscription).getD .none).hasFrom =
          (item.any fun item => item.subscription.hasFrom) := by
    intro item
    cases item <;> exact ⟨rfl, rfl⟩
  simp only [Contact.hasTo, Contact.hasFrom, Contact.asks] at hto hask hfrom
  have hinn : Sides
      (if inn ≠ .none then s.inboundUnsubscribed a b else s) a b out inn .none out := by
    split
    · exact h.inboundUnsubscribed hab
    · rename_i hnone
      have hnone : inn = .none := by simpa using hnone
      subst hnone
      exact h
  have hout : Sides
      (if out ≠ .none then
        (if inn ≠ .none then s.inboundUnsubscribed a b else s).inboundUnsubscribe a b
      else if inn ≠ .none then s.inboundUnsubscribed a b else s) a b out inn .none .none := by
    split
    · exact hinn.inboundUnsubscribe hab
    · rename_i hnone
      have hnone : out = .none := by simpa using hnone
      subst hnone
      exact hinn
  have hl : ∀ l : Link, (decide (l = .granted) || decide (l = .requested)) = decide (l ≠ .none) := by
    intro l
    cases l <;> rfl
  simpa only [Server.rosterItemRemoved, hsub, hto, hask, hfrom, hpending, hl,
    decide_eq_true_eq] using hout

theorem rosterItemRemoved_frame (hab : a ≠ b) (c : Contact) :
    s.rosterItemRemoved a b c a = s a := by
  have hedit : ∀ (t : Server) (f : Contact → Edit), (t.edit b a f).2 a = t a := by
    intro t f
    simp [Server.edit, Server.setUser, hab]
  simp only [Server.rosterItemRemoved, Server.inboundUnsubscribe, Server.inboundUnsubscribed]
  split <;> split <;> simp [hedit]

theorem removeItem_sides (hab : a ≠ b) (h : Linked s a b out inn)
    (honline : (s a).session.isSome) (hitem : ((s a).contact b).item.isSome) :
    Sides (s.removeItem a b) a b .none (if inn = .requested then .requested else .none)
      .none .none := by
  obtain ⟨roster, hs⟩ := Option.isSome_iff_exists.mp honline
  have hroster : (s a).roster = roster := by simp [User.roster, hs]
  have hcontact : roster.contact b = (s a).contact b := by simp [User.contact, hroster]
  have hitem : (roster.items.get b).isSome := by
    rw [← hcontact] at hitem
    exact hitem
  have hremoved := h.rosterItemRemoved hab
  have hframe := rosterItemRemoved_frame (s := s) hab ((s a).contact b)
  have hshows : Contact.Shows { item := none, pending := ((s a).contact b).pending } .none
      (if inn = .requested then .requested else .none) := by
    rw [Contact.shows_none_iff, h.shows.pending]
    cases inn <;> simp
  have hput := hremoved.put hab hshows
  simp only [Server.removeItem, hs, if_neg hab.symm, hitem, if_true, hcontact, hframe]
  rw [h.healthy.removeFromRoster_eq honline]
  rwa [hframe] at hput

/-- A roster set for an absent item changes nothing. -/
theorem removeItem_of_not (h : ¬ ((s a).session.isSome ∧ ((s a).contact b).item.isSome)) :
    s.removeItem a b = s := by
  unfold Server.removeItem
  cases hs : (s a).session with
  | none => rfl
  | some roster =>
    have hitem : (roster.items.get b).isSome = false := by
      simpa [hs, User.contact, User.roster, Roster.contact] using h
    simp [hitem]

theorem Sides.setUser (hab : a ≠ b) (h : Sides s a b out inn out' inn') {u : User}
    (hu : u.Healthy a) (hcontact : u.contact b = (s a).contact b) :
    Sides (s.setUser a u) a b out inn out' inn' where
  healthy := by simpa [Server.setUser] using hu
  healthy' := by simpa [Server.setUser, hab.symm] using h.healthy'
  shows := by simpa [Server.setUser, hcontact] using h.shows
  shows' := by simpa [Server.setUser, hab.symm] using h.shows'

theorem Sides.login (hab : a ≠ b) (h : Sides s a b out inn out' inn') :
    Sides (s.login a) a b out inn out' inn' := by
  unfold Server.login
  cases hs : (s a).session with
  | some roster => exact h
  | none =>
    simp only [h.healthy.readRoster_eq]
    refine h.setUser hab ?_ rfl
    exact { h.healthy with cached := Or.inr (congrArg some h.healthy.roster_eq) }

theorem Sides.logout (hab : a ≠ b) (h : Sides s a b out inn out' inn') :
    Sides (s.logout a) a b out inn out' inn' := by
  refine h.setUser hab { h.healthy with cached := Or.inl rfl } ?_
  rw [User.contact, User.contact, h.healthy.roster_eq]
  rfl

end

/-! ## Runs -/

/-- The event is between `a` and `b`. -/
def Event.Between (a b : Jid) : Event → Prop
  | .presence _ x y => x = a ∧ y = b ∨ x = b ∧ y = a
  | .removeItem x y => x = a ∧ y = b ∨ x = b ∧ y = a
  | .login x => x = a ∨ x = b
  | .logout x => x = a ∨ x = b

/-- An event between `a` and `b`. -/
abbrev Exchange (a b : Jid) := { e : Event // e.Between a b }

def exchangeStep {a b : Jid} (s : Server) (e : Exchange a b) : Server := s.step e.1

/-- The event removes an item of a contact whose request is still pending. -/
def Event.RemovesPending (s : Server) : Event → Prop
  | .removeItem user contact =>
    (s user).session.isSome ∧ ((s user).contact contact).item.isSome ∧
      ((s user).contact contact).pending
  | _ => False

section

variable {s : Server} {a b : Jid}

theorem presence_linked (hab : a ≠ b) {out inn : Link} (h : Linked s a b out inn)
    (type : PresenceType) : ∃ out' inn', Linked (s.presence type a b) a b out' inn' := by
  cases type with
  | subscribe => exact ⟨_, _, outboundSubscribe_linked hab h⟩
  | subscribed => exact ⟨_, _, outboundSubscribed_linked hab h⟩
  | unsubscribe => exact ⟨_, _, outboundUnsubscribe_linked hab h⟩
  | unsubscribed => exact ⟨_, _, outboundUnsubscribed_linked hab h⟩

theorem removeItem_linked_iff (hab : a ≠ b) {out inn : Link} (h : Linked s a b out inn) :
    (AgreesBothWays (s.removeItem a b) a b → ¬ (Event.removeItem a b).RemovesPending s) ∧
      (¬ (Event.removeItem a b).RemovesPending s →
        ∃ out' inn', Linked (s.removeItem a b) a b out' inn') := by
  by_cases hitem : (s a).session.isSome ∧ ((s a).contact b).item.isSome
  · have hsides := removeItem_sides hab h hitem.1 hitem.2
    have hpending := h.shows.pending
    constructor
    · rintro hagrees ⟨-, -, hp⟩
      have hinn : inn = .requested := by
        rw [hpending] at hp
        simpa using hp
      have hlinks := hsides.agrees_iff.mp hagrees
      simp [hinn] at hlinks
    · intro hp
      have hinn : inn ≠ .requested := by
        rintro rfl
        exact hp ⟨hitem.1, hitem.2, by simp [hpending]⟩
      rw [if_neg hinn] at hsides
      exact ⟨_, _, hsides⟩
  · constructor
    · rintro - ⟨honline, hsome, -⟩
      exact hitem ⟨honline, hsome⟩
    · rw [removeItem_of_not hitem]
      exact fun _ => ⟨_, _, h⟩

/-- The links between two users, whatever they are, are described by both rosters. -/
def SomeLinks (a b : Jid) (s : Server) : Prop := ∃ out inn, Linked s a b out inn

theorem SomeLinks.symm (h : SomeLinks a b s) : SomeLinks b a s := by
  obtain ⟨out, inn, h⟩ := h
  exact ⟨_, _, Sides.symm h⟩

theorem SomeLinks.agrees (h : SomeLinks a b s) : AgreesBothWays s a b := by
  obtain ⟨out, inn, h⟩ := h
  exact h.agrees_iff.mpr ⟨rfl, rfl⟩

theorem exchangeStep_someLinks (hab : a ≠ b) (h : SomeLinks a b s) (e : Exchange a b)
    (hok : ¬ e.1.RemovesPending s) : SomeLinks a b (exchangeStep s e) := by
  obtain ⟨out, inn, hlinked⟩ := h
  obtain ⟨e, he⟩ := e
  cases e with
  | presence type x y =>
    rcases he with ⟨rfl, rfl⟩ | ⟨rfl, rfl⟩
    · exact presence_linked hab hlinked type
    · exact SomeLinks.symm (presence_linked hab.symm hlinked.symm type)
  | removeItem x y =>
    rcases he with ⟨rfl, rfl⟩ | ⟨rfl, rfl⟩
    · exact (removeItem_linked_iff hab hlinked).2 hok
    · exact SomeLinks.symm ((removeItem_linked_iff hab.symm hlinked.symm).2 hok)
  | login x =>
    rcases he with rfl | rfl
    · exact ⟨_, _, hlinked.login hab⟩
    · exact ⟨_, _, (hlinked.symm.login hab.symm).symm⟩
  | logout x =>
    rcases he with rfl | rfl
    · exact ⟨_, _, hlinked.logout hab⟩
    · exact ⟨_, _, (hlinked.symm.logout hab.symm).symm⟩

theorem exchangeStep_needs (hab : a ≠ b) (h : SomeLinks a b s) (e : Exchange a b)
    (hagrees : AgreesBothWays (exchangeStep s e) a b) : ¬ e.1.RemovesPending s := by
  obtain ⟨out, inn, hlinked⟩ := h
  obtain ⟨e, he⟩ := e
  cases e with
  | removeItem x y =>
    rcases he with ⟨rfl, rfl⟩ | ⟨rfl, rfl⟩
    · exact (removeItem_linked_iff hab hlinked).1 hagrees
    · exact (removeItem_linked_iff hab.symm hlinked.symm).1 hagrees.symm
  | presence type x y => exact id
  | login x => exact id
  | logout x => exact id

structure User.StartsEmpty (u : User) (owner : Jid) : Prop extends u.Healthy owner where
  noItems : u.stored.items = ∅
  noPending : u.stored.roster.metadata.pending = ∅

theorem User.StartsEmpty.shows {u : User} {owner : Jid} (h : u.StartsEmpty owner) (jid : Jid) :
    (u.contact jid).Shows .none .none := by
  have hcontact : u.contact jid = { item := none, pending := false } := by
    rw [User.contact, h.roster_eq, Roster.contact, h.noPending]
    simp [Stored.roster, h.noItems]
  rw [hcontact]
  simp

end

/-- From empty rosters and with every save succeeding, the two rosters agree after every step
exactly if no removal leaves a pending request behind. -/
theorem subscriptions_agree_iff {s : Server} {a b : Jid} (hab : a ≠ b)
    (ha : (s a).StartsEmpty a) (hb : (s b).StartsEmpty b) (es : List (Exchange a b)) :
    Machine.Always exchangeStep (fun s => AgreesBothWays s a b) s es ↔
      Machine.Guarded exchangeStep (fun s e => ¬ e.1.RemovesPending s) s es := by
  have hs : SomeLinks a b s :=
    ⟨.none, .none, ha.toHealthy, hb.toHealthy, ha.shows b, hb.shows a⟩
  exact Machine.always_iff_guarded (P := SomeLinks a b) (fun _ h => h.agrees)
    (fun _ e h hok => exchangeStep_someLinks hab h e hok)
    (fun _ e h hagrees => exchangeStep_needs hab h e hagrees) hs es

/-- Every account exists, is online and has an empty roster. -/
def emptyServer : Server := fun _ =>
  { registered := true
    session := some Stored.empty.roster
    stored := Stored.empty
    readError := none
    storeAccepts := true }

theorem emptyServer_startsEmpty (owner : Jid) : (emptyServer owner).StartsEmpty owner := by
  constructor
  · constructor <;> first | rfl | exact Or.inr rfl
  · rfl
  · rfl

/-- A subscription and its approval, and a removal by the subscriber. -/
theorem subscriptions_agree_romeo :
    Machine.Always exchangeStep (fun s => AgreesBothWays s "romeo@verona" "juliet@verona")
      emptyServer
      [⟨.presence .subscribe "romeo@verona" "juliet@verona", Or.inl ⟨rfl, rfl⟩⟩,
        ⟨.presence .subscribed "juliet@verona" "romeo@verona", Or.inr ⟨rfl, rfl⟩⟩,
        ⟨.removeItem "romeo@verona" "juliet@verona", Or.inl ⟨rfl, rfl⟩⟩] := by
  refine (subscriptions_agree_iff (by decide) (emptyServer_startsEmpty _)
    (emptyServer_startsEmpty _) _).mpr ⟨id, id, ?_, trivial⟩
  rintro ⟨-, -, hp⟩
  revert hp
  decide

/-- Both ask for a subscription and one removes the other from its roster: the request of the
removed contact stays pending although it was refused. -/
theorem removal_keeps_pending :
    ¬ Machine.Always exchangeStep (fun s => AgreesBothWays s "romeo@verona" "juliet@verona")
      emptyServer
      [⟨.presence .subscribe "juliet@verona" "romeo@verona", Or.inr ⟨rfl, rfl⟩⟩,
        ⟨.presence .subscribe "romeo@verona" "juliet@verona", Or.inl ⟨rfl, rfl⟩⟩,
        ⟨.removeItem "romeo@verona" "juliet@verona", Or.inl ⟨rfl, rfl⟩⟩] := by
  rintro ⟨-, -, -, h⟩
  have hrequest := h.2.request
  revert hrequest
  decide

end Prosody.RosterManager
