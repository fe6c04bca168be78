import Prosody.Roster.Manager

/-! # Subscription links

What one user's roster says about a contact, seen from outside: a link in each direction.
The mutations of the roster manager act on the links, for a user whose saves succeed. -/

namespace Prosody.RosterManager

/-- The relation of a user to a contact whose presence it may see. -/
inductive Link where
  | none
  | requested
  | granted
  deriving DecidableEq, Repr

namespace Link

@[simp] def request : Link → Link
  | .none => .requested
  | l => l

@[simp] def approve : Link → Link
  | .requested => .granted
  | l => l

end Link

/-! ## One contact of a roster -/

section

variable (roster : Roster) {jid other : Jid} (c : Contact)

@[simp] theorem Roster.contact_setContact_self : (roster.setContact jid c).contact jid = c := by
  obtain ⟨item, pending⟩ := c
  cases pending <;> simp [Roster.contact, Roster.setContact]

theorem Roster.setContact_contact_self : roster.setContact jid (roster.contact jid) = roster := by
  by_cases hp : jid ∈ roster.metadata.pending <;>
    simp [Roster.setContact, Roster.contact, hp]

theorem Roster.setContact_item (item : Option Item) :
    roster.setContact jid { item := item, pending := (roster.contact jid).pending } =
      { roster with items := roster.items.set jid item } := by
  by_cases hp : jid ∈ roster.metadata.pending <;>
    simp [Roster.setContact, Roster.contact, hp]

@[simp] theorem Roster.contact_bumpVersion :
    roster.bumpVersion.contact jid = roster.contact jid := rfl

end

/-! ## Observations of a contact -/

/-- The item has subscription `to` or `both`. -/
def Contact.hasTo (c : Contact) : Bool := c.item.any fun item => item.subscription.hasTo

/-- The item has subscription `from` or `both`. -/
def Contact.hasFrom (c : Contact) : Bool := c.item.any fun item => item.subscription.hasFrom

/-- The item has `ask` set. -/
def Contact.asks (c : Contact) : Bool := c.item.any fun item => item.ask.isSome

/-- The contact entry encodes the link `out` to the contact and the link `inn` from it. -/
structure Contact.Shows (c : Contact) (out inn : Link) : Prop where
  hasTo : c.hasTo = decide (out = .granted)
  asks : c.asks = decide (out = .requested)
  hasFrom : c.hasFrom = decide (inn = .granted)
  pending : c.pending = decide (inn = .requested)

/-- The entry after an edit whose save succeeds. -/
@[simp] def Edit.contact : Edit → Contact → Contact
  | .keep _, c => c
  | .save c', _ => c'

@[simp] def Edit.result : Edit → Bool
  | .keep result => result
  | .save _ => true

/-- An edit acts on the links by `out` and `inn`. -/
def ActsBy (f : Contact → Edit) (out inn : Link → Link) : Prop :=
  ∀ c o i, Contact.Shows c o i → Contact.Shows ((f c).contact c) (out o) (inn i)

/-- The subscription of an item with the given links. -/
def Subscription.ofLinks (out inn : Link) : Subscription :=
  match decide (out = .granted), decide (inn = .granted) with
  | false, false => .none
  | true, false => .to
  | false, true => .«from»
  | true, true => .both

section

variable (out inn : Link)

@[simp] theorem Subscription.hasTo_ofLinks :
    (Subscription.ofLinks out inn).hasTo = decide (out = .granted) := by
  cases out <;> cases inn <;> rfl

@[simp] theorem Subscription.hasFrom_ofLinks :
    (Subscription.ofLinks out inn).hasFrom = decide (inn = .granted) := by
  cases out <;> cases inn <;> rfl

@[simp] theorem Subscription.dropTo_ofLinks :
    (Subscription.ofLinks out inn).dropTo = .ofLinks .none inn := by
  cases out <;> cases inn <;> rfl

@[simp] theorem Subscription.dropFrom_ofLinks :
    (Subscription.ofLinks out inn).dropFrom = .ofLinks out .none := by
  cases out <;> cases inn <;> rfl

/-- A subscription is determined by its two directions. -/
theorem Subscription.eq_ofLinks_iff (s : Subscription) :
    s = .ofLinks out inn ↔
      s.hasTo = decide (out = .granted) ∧ s.hasFrom = decide (inn = .granted) := by
  cases s <;> cases out <;> cases inn <;> decide

end

@[simp] theorem Contact.shows_none_iff {p : Bool} {out inn : Link} :
    Contact.Shows ⟨none, p⟩ out inn ↔
      out = .none ∧ inn ≠ .granted ∧ p = decide (inn = .requested) := by
  constructor
  · rintro ⟨hto, hask, hfrom, hpending⟩
    cases out <;> simp_all [Contact.hasTo, Contact.hasFrom, Contact.asks]
  · rintro ⟨rfl, hinn, hpending⟩
    constructor <;> simp_all [Contact.hasTo, Contact.hasFrom, Contact.asks]

@[simp] theorem Contact.shows_some_iff {item : Item} {p : Bool} {out inn : Link} :
    Contact.Shows ⟨some item, p⟩ out inn ↔
      item.subscription = .ofLinks out inn ∧ item.ask.isSome = decide (out = .requested) ∧
        p = decide (inn = .requested) := by
  rw [Subscription.eq_ofLinks_iff]
  constructor
  · rintro ⟨hto, hask, hfrom, hpending⟩
    exact ⟨⟨hto, hfrom⟩, hask, hpending⟩
  · rintro ⟨⟨hto, hfrom⟩, hask, hpending⟩
    exact ⟨hto, hask, hfrom, hpending⟩

/-! ## The mutations on the links -/

theorem actsBy_approval : ActsBy processInboundSubscriptionApproval Link.approve id := by
  rintro ⟨_ | item, p⟩ o i h <;> cases o <;> cases i <;>
    simp_all [processInboundSubscriptionApproval, Subscription.ofLinks]

theorem actsBy_cancellation : ActsBy processInboundSubscriptionCancellation (fun _ => .none) id := by
  rintro ⟨_ | item, p⟩ o i h <;> cases o <;> cases i <;>
    simp_all [processInboundSubscriptionCancellation]

theorem actsBy_inboundUnsubscribe : ActsBy processInboundUnsubscribe id (fun _ => .none) := by
  rintro ⟨_ | item, p⟩ o i h <;> cases o <;> cases i <;>
    simp_all [processInboundUnsubscribe]

theorem actsBy_pendingIn : ActsBy setContactPendingIn id Link.request := by
  rintro ⟨_ | item, p⟩ o i h <;> cases o <;> cases i <;>
    simp_all [setContactPendingIn, Subscription.ofLinks, Subscription.hasFrom]

theorem actsBy_pendingOut : ActsBy setContactPendingOut Link.request id := by
  rintro ⟨_ | item, p⟩ o i h <;> cases o <;> cases i <;>
    simp_all [setContactPendingOut, Subscription.ofLinks, Subscription.hasTo, Item.fresh]

theorem actsBy_unsubscribe : ActsBy unsubscribe (fun _ => .none) id := by
  rintro ⟨_ | ⟨s, _ | ask, name, groups⟩, p⟩ o i h <;> cases o <;> cases i <;>
    simp_all [unsubscribe, Subscription.ofLinks, Subscription.dropTo]

theorem actsBy_subscribed : ActsBy subscribed id Link.approve := by
  rintro ⟨_ | item, p⟩ o i h <;> cases o <;> cases i <;>
    simp_all [subscribed, Subscription.ofLinks, Item.fresh]

theorem actsBy_unsubscribed : ActsBy unsubscribed id (fun _ => .none) := by
  rintro ⟨_ | item, p⟩ o i h <;> cases o <;> cases i <;>
    simp_all [unsubscribed]

end Prosody.RosterManager
