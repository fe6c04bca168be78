import Prosody.Roster.Links

/-! # Mutations whose save fails

The roster that the sessions of a user share is edited before it is saved. -/

namespace Prosody.RosterManager

/-- The items and the pending requests of the roster that the sessions share. -/
def User.contacts (u : User) : Option (Table Jid Item × Finset Jid) :=
  u.session.map fun roster => (roster.items, roster.metadata.pending)

/-- The account is gone, the roster is broken or the store refuses. -/
def User.SaveFails (u : User) (roster : Roster) : Prop :=
  u.registered = false ∨ roster.metadata.broken.isSome ∨ u.storeAccepts = false

/-! ## A save that fails -/

section

variable {u : User} {roster : Roster} {self jid : Jid}

theorem User.SaveFails.saveRoster (h : u.SaveFails roster) (edited : Roster) (jid : Jid)
    (hbroken : edited.metadata.broken = roster.metadata.broken) :
    ∃ saved : Roster, u.saveRoster edited jid = (false, saved, u) ∧
      saved.items = edited.items ∧ saved.metadata.pending = edited.metadata.pending := by
  have hbump : edited.bumpVersion.metadata.broken = roster.metadata.broken := hbroken
  unfold User.saveRoster
  simp only [hbump]
  cases hreg : u.registered with
  | false => exact ⟨edited, by simp, rfl, rfl⟩
  | true =>
    refine ⟨edited.bumpVersion, ?_, rfl, rfl⟩
    cases hbr : roster.metadata.broken.isSome with
    | true => simp
    | false =>
      have haccepts : u.storeAccepts = false := by
        rcases h with h | h | h
        · rw [hreg] at h
          exact absurd h (by simp)
        · rw [hbr] at h
          exact absurd h (by simp)
        · exact h
      simp [haccepts]

theorem User.SaveFails.contacts_setItem (h : u.SaveFails roster)
    (hs : u.session = some roster) (item : Option Item) :
    (u.setItem jid item).2.contacts = u.contacts := by
  obtain ⟨saved, hsave, hitems, hpending⟩ :=
    h.saveRoster { roster with items := roster.items.set jid item } jid rfl
  simp [User.setItem, User.contacts, hs, hsave, hitems, hpending]

theorem User.SaveFails.contacts_edit (h : u.SaveFails roster) (hs : u.session = some roster)
    (f : Contact → Edit) :
    (u.edit self jid f).2.contacts =
      some ((roster.setContact jid ((f (roster.contact jid)).contact (roster.contact jid))).items,
        (roster.setContact jid
          ((f (roster.contact jid)).contact (roster.contact jid))).metadata.pending) := by
  simp only [User.edit, User.loadRoster, hs]
  cases hf : f (roster.contact jid) with
  | keep result => simp [User.contacts, hs, roster.setContact_contact_self]
  | save c =>
    obtain ⟨saved, hsave, hitems, hpending⟩ :=
      h.saveRoster (roster.setContact jid c) jid rfl
    simp [User.contacts, hs, hsave, hitems, hpending]

/-- So the contacts are kept exactly if the edit leaves its contact as it is. -/
theorem User.SaveFails.contacts_edit_iff (h : u.SaveFails roster)
    (hs : u.session = some roster) (f : Contact → Edit) :
    (u.edit self jid f).2.contacts = u.contacts ↔
      (f (roster.contact jid)).contact (roster.contact jid) = roster.contact jid := by
  rw [h.contacts_edit hs]
  generalize hc : (f (roster.contact jid)).contact (roster.contact jid) = c
  have hcontacts : u.contacts = some (roster.items, roster.metadata.pending) := by
    simp [User.contacts, hs]
  rw [hcontacts, Option.some_inj, Prod.mk.injEq]
  constructor
  · rintro ⟨hitems, hpending⟩
    have hself : (roster.setContact jid c).contact jid = c := roster.contact_setContact_self c
    unfold Roster.contact at hself
    rw [hitems, hpending] at hself
    exact hself.symm
  · intro heq
    rw [heq, roster.setContact_contact_self]
    exact ⟨rfl, rfl⟩

end

/-! ## Which calls leave the contacts alone -/

/-- The mutation finds nothing to change at the contact, or undoes its change. -/
def Mutation.Spares (m : Mutation) (c : Contact) : Prop :=
  match m with
  | .addToRoster _ | .removeFromRoster => True
  | .processInboundSubscriptionApproval => c.asks = false
  | .processInboundSubscriptionCancellation | .unsubscribe => c.asks = false ∧ c.hasTo = false
  | .processInboundUnsubscribe | .unsubscribed => c.pending = false ∧ c.hasFrom = false
  | .setContactPendingIn => c.hasFrom = true ∨ c.pending = true
  | .setContactPendingOut => c.asks = true ∨ c.hasTo = true
  | .subscribed => c.pending = false
  | .processOutboundSubscriptionRequest =>
    c.item = none ∨ c.hasTo = true ∨ c.item.bind Item.ask = some "subscribe"

/-- The edits that save, one for each mutation that does not undo it. -/
theorem Mutation.edit_eq_self_iff (m : Mutation) (c : Contact)
    (hadd : ∀ item, m ≠ .addToRoster item) (hremove : m ≠ .removeFromRoster) :
    (m.edit c).contact c = c ↔ m.Spares c := by
  obtain ⟨item, p⟩ := c
  cases m with
  | addToRoster item => exact absurd rfl (hadd item)
  | removeFromRoster => exact absurd rfl hremove
  | processInboundSubscriptionApproval =>
    rcases item with _ | ⟨s, _ | ask, name, groups⟩ <;>
      simp [Mutation.edit, Mutation.Spares, RosterManager.processInboundSubscriptionApproval,
        Contact.asks]
  | processInboundSubscriptionCancellation =>
    rcases item with _ | ⟨s, _ | ask, name, groups⟩ <;> try cases s
    all_goals simp [Mutation.edit, Mutation.Spares,
      RosterManager.processInboundSubscriptionCancellation, Contact.asks, Contact.hasTo,
      Subscription.hasTo, Subscription.dropTo]
  | processInboundUnsubscribe =>
    rcases item with _ | ⟨s, ask, name, groups⟩ <;> cases p <;> try cases s
    all_goals simp [Mutation.edit, Mutation.Spares, RosterManager.processInboundUnsubscribe,
      Contact.hasFrom, Subscription.hasFrom, Subscription.dropFrom]
  | unsubscribed =>
    rcases item with _ | ⟨s, ask, name, groups⟩ <;> cases p <;> try cases s
    all_goals simp [Mutation.edit, Mutation.Spares, RosterManager.unsubscribed,
      Contact.hasFrom, Subscription.hasFrom, Subscription.dropFrom]
  | setContactPendingIn =>
    rcases item with _ | ⟨s, ask, name, groups⟩ <;> cases p <;> try cases s
    all_goals simp [Mutation.edit, Mutation.Spares, RosterManager.setContactPendingIn,
      Contact.hasFrom, Subscription.hasFrom]
  | setContactPendingOut =>
    rcases item with _ | ⟨s, _ | ask, name, groups⟩ <;> try cases s
    all_goals simp [Mutation.edit, Mutation.Spares, RosterManager.setContactPendingOut,
      Contact.asks, Contact.hasTo, Subscription.hasTo]
  | unsubscribe =>
    rcases item with _ | ⟨s, _ | ask, name, groups⟩ <;> try cases s
    all_goals simp [Mutation.edit, Mutation.Spares, RosterManager.unsubscribe, Contact.asks,
      Contact.hasTo, Subscription.hasTo, Subscription.dropTo]
  | subscribed =>
    cases p <;> simp [Mutation.edit, Mutation.Spares, RosterManager.subscribed]
  | processOutboundSubscriptionRequest =>
    rcases item with _ | ⟨s, ask, name, groups⟩ <;> try cases s
    all_goals simp [Mutation.edit, Mutation.Spares,
      RosterManager.processOutboundSubscriptionRequest, Contact.hasTo, Subscription.hasTo]
    all_goals exact eq_comm

/-- A failed save leaves the items and the pending requests of the sessions as they were
exactly if the call is a change by a client, or finds nothing to change. -/
theorem failed_save_keeps_iff (u : User) (self jid : Jid) (m : Mutation) (roster : Roster)
    (hs : u.session = some roster) (h : u.SaveFails roster) :
    (u.mutate self jid m).2.contacts = u.contacts ↔ m.Spares (roster.contact jid) := by
  cases m with
  | addToRoster item => exact iff_of_true (h.contacts_setItem hs (some item)) trivial
  | removeFromRoster => exact iff_of_true (h.contacts_setItem hs none) trivial
  | _ =>
    exact (h.contacts_edit_iff hs _).trans
      (Mutation.edit_eq_self_iff _ _ (fun _ => by simp) (by simp))

/-- A user online with a pending request, whose store refuses. -/
def refusedUser : User :=
  let roster : Roster :=
    { items := ∅
      metadata := { pending := {"romeo@verona"}, version := .count 1, broken := none } }
  { registered := true
    session := some roster
    stored := { items := ∅, metadata := some roster.metadata, legacyPending := none }
    readError := none
    storeAccepts := false }

/-- A refused item of a client is taken out again. -/
theorem failed_add_keeps :
    (refusedUser.mutate "juliet@capulet" "romeo@verona" (.addToRoster Item.fresh)).2.contacts =
      refusedUser.contacts :=
  (failed_save_keeps_iff _ _ _ _ _ rfl (Or.inr (Or.inr rfl))).mpr trivial

/-- The request counts as approved although the approval was not saved. -/
theorem failed_approval_changes :
    (refusedUser.mutate "juliet@capulet" "romeo@verona" .subscribed).1 = false ∧
      (refusedUser.mutate "juliet@capulet" "romeo@verona" .subscribed).2.contacts ≠
        refusedUser.contacts := by
  decide +kernel

end Prosody.RosterManager
