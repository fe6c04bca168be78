import Prosody.Library.Runs
import Prosody.Roster.Links
import Prosody.Roster.Words

/-! # The states of a roster

Rosters with subscription words are, as long as they start empty, the words of rosters whose
subscriptions are the four of the protocol, and each contact shows a link in each direction. -/

namespace Prosody.RosterManager

def Subscription.word : Subscription → String
  | .none => "none"
  | .to => "to"
  | .«from» => "from"
  | .both => "both"

def Item.words (item : Item) : Words.Item where
  subscription := item.subscription.word
  ask := item.ask
  name := item.name
  groups := item.groups

namespace Words

/-- The roster has the words of the contact `c` at `jid`. -/
structure Roster.Says (w : Roster) (jid : Jid) (c : Contact) : Prop where
  item : w.items.get jid = c.item.map RosterManager.Item.words
  pending : jid ∈ w.pending ↔ c.pending = true

def Roster.setContact (w : Roster) (jid : Jid) (c : Contact) : Roster where
  items := w.items.set jid (c.item.map RosterManager.Item.words)
  pending := if c.pending then insert jid w.pending else w.pending.erase jid

namespace Roster.Says

variable {w : Roster} {jid : Jid} {c : Contact}

theorem items_eq (h : w.Says jid c) :
    w.items.set jid (c.item.map RosterManager.Item.words) = w.items := by
  rw [← h.item, Table.set_get_self]

theorem pending_eq (h : w.Says jid c) :
    (if c.pending then insert jid w.pending else w.pending.erase jid) = w.pending := by
  split
  · rename_i hp
    exact Finset.insert_eq_self.mpr (h.pending.mpr hp)
  · rename_i hp
    exact Finset.erase_eq_self.mpr fun hmem => hp (h.pending.mp hmem)

theorem same (h : w.Says jid c) : w.setContact jid c = w := by
  simp only [setContact, h.items_eq, h.pending_eq]

theorem withItem (h : w.Says jid c) (item : Option RosterManager.Item) :
    w.setContact jid { item := item, pending := c.pending } =
      { w with items := w.items.set jid (item.map RosterManager.Item.words) } := by
  simp only [setContact, h.pending_eq]

theorem withPending (h : w.Says jid c) (p : Bool) :
    w.setContact jid { item := c.item, pending := p } =
      { w with pending := if p then insert jid w.pending else w.pending.erase jid } := by
  simp only [setContact, h.items_eq]

end Roster.Says

/-! ## The mutations follow the edits of contacts -/

/-- `g` does with the words of a contact what `f` does with the contact. -/
def Follows (g : Roster → Jid → Roster) (f : Contact → Edit) : Prop :=
  ∀ w jid c, Roster.Says w jid c → g w jid = w.setContact jid ((f c).contact c)

theorem approval_follows :
    Follows processInboundSubscriptionApproval
      RosterManager.processInboundSubscriptionApproval := by
  rintro w jid ⟨_ | ⟨s, ask, name, groups⟩, p⟩ h
  · have hitem : w.items.get jid = none := h.item
    simp [processInboundSubscriptionApproval, RosterManager.processInboundSubscriptionApproval,
      hitem, h.same]
  · have hitem : w.items.get jid = some _ := h.item
    have hwith := h.withItem
    cases s <;> cases ask <;>
      simp [processInboundSubscriptionApproval, RosterManager.processInboundSubscriptionApproval,
      hitem, h.same, hwith, Roster.setItem, Item.words, Subscription.word]

theorem cancellation_follows :
    Follows processInboundSubscriptionCancellation
      RosterManager.processInboundSubscriptionCancellation := by
  rintro w jid ⟨_ | ⟨s, ask, name, groups⟩, p⟩ h
  · have hitem : w.items.get jid = none := h.item
    simp [processInboundSubscriptionCancellation,
      RosterManager.processInboundSubscriptionCancellation, hitem, h.same]
  · have hitem : w.items.get jid = some _ := h.item
    have hwith := h.withItem
    have hitems := h.items_eq
    cases s <;> cases ask <;>
      simp_all [processInboundSubscriptionCancellation,
        RosterManager.processInboundSubscriptionCancellation, h.same, Roster.setItem,
        Item.words, Subscription.word, dropTo, Subscription.dropTo, Subscription.hasTo]

theorem inboundUnsubscribe_follows :
    Follows processInboundUnsubscribe RosterManager.processInboundUnsubscribe := by
  rintro w jid ⟨_ | ⟨s, ask, name, groups⟩, p⟩ h
  · have hitem : w.items.get jid = none := h.item
    have hitems := h.items_eq
    have hpending := h.pending_eq
    cases p <;>
      simp_all [processInboundUnsubscribe, RosterManager.processInboundUnsubscribe,
        Roster.clearPending, Roster.setContact]
  · have hitem : w.items.get jid = some _ := h.item
    have hitems := h.items_eq
    have hpending := h.pending_eq
    cases s <;> cases p <;>
      simp_all [processInboundUnsubscribe, RosterManager.processInboundUnsubscribe,
        Roster.clearPending, Roster.setItem, Roster.setContact, Item.words,
        Subscription.word, dropFrom, Subscription.dropFrom, Subscription.hasFrom]

theorem unsubscribed_follows :
    Follows unsubscribed RosterManager.unsubscribed := by
  rintro w jid ⟨_ | ⟨s, ask, name, groups⟩, p⟩ h
  · have hitem : w.items.get jid = none := h.item
    have hitems := h.items_eq
    have hpending := h.pending_eq
    cases p <;>
      simp_all [unsubscribed, RosterManager.unsubscribed,
        Roster.clearPending, Roster.setContact]
  · have hitem : w.items.get jid = some _ := h.item
    have hitems := h.items_eq
    have hpending := h.pending_eq
    cases s <;> cases p <;>
      simp_all [unsubscribed, RosterManager.unsubscribed,
        Roster.clearPending, Roster.setItem, Roster.setContact, Item.words,
        Subscription.word, dropFrom, Subscription.dropFrom, Subscription.hasFrom]

theorem pendingIn_follows : Follows setContactPendingIn RosterManager.setContactPendingIn := by
  rintro w jid ⟨_ | ⟨s, ask, name, groups⟩, p⟩ h
  · have hitem : w.items.get jid = none := h.item
    have hwith := h.withPending
    simp_all [setContactPendingIn, RosterManager.setContactPendingIn]
  · have hitem : w.items.get jid = some _ := h.item
    have hwith := h.withPending
    cases s <;>
      simp_all [setContactPendingIn, RosterManager.setContactPendingIn, h.same, Item.words,
        Subscription.word, Subscription.hasFrom]

theorem pendingOut_follows : Follows setContactPendingOut RosterManager.setContactPendingOut := by
  rintro w jid ⟨_ | ⟨s, ask, name, groups⟩, p⟩ h
  · have hitem : w.items.get jid = none := h.item
    have hwith := h.withItem
    simp_all [setContactPendingOut, RosterManager.setContactPendingOut, Roster.setItem,
      Item.words, Item.fresh, RosterManager.Item.fresh, Subscription.word]
  · have hitem : w.items.get jid = some _ := h.item
    have hwith := h.withItem
    cases s <;> cases ask <;>
      simp_all [setContactPendingOut, RosterManager.setContactPendingOut, h.same,
        Roster.setItem, Item.words, Subscription.word, Subscription.hasTo]

theorem unsubscribe_follows : Follows unsubscribe RosterManager.unsubscribe := by
  rintro w jid ⟨_ | ⟨s, ask, name, groups⟩, p⟩ h
  · have hitem : w.items.get jid = none := h.item
    simp [unsubscribe, RosterManager.unsubscribe, hitem, h.same]
  · have hitem : w.items.get jid = some _ := h.item
    have hwith := h.withItem
    cases s <;> cases ask <;>
      simp_all [unsubscribe, RosterManager.unsubscribe, h.same, Roster.setItem, Item.words,
        Subscription.word, Subscription.dropTo]

theorem subscribed_follows : Follows subscribed RosterManager.subscribed := by
  rintro w jid ⟨_ | ⟨s, ask, name, groups⟩, p⟩ h
  · have hitem : w.items.get jid = none := h.item
    have hpending := h.pending
    have hsame := h.same
    cases p <;>
      simp_all [subscribed, RosterManager.subscribed, Roster.setItem,
        Roster.clearPending, Roster.setContact, Item.words, Item.fresh,
        RosterManager.Item.fresh, Subscription.word]
  · have hitem : w.items.get jid = some _ := h.item
    have hpending := h.pending
    cases p with
    | false => simp_all [subscribed, RosterManager.subscribed, h.same]
    | true =>
      have hitems := h.items_eq
      cases s <;>
        simp_all [subscribed, RosterManager.subscribed, Roster.setItem,
          Roster.clearPending, Roster.setContact, Item.words, Subscription.word]

theorem outboundRequest_follows :
    Follows processOutboundSubscriptionRequest
      RosterManager.processOutboundSubscriptionRequest := by
  rintro w jid ⟨_ | ⟨s, ask, name, groups⟩, p⟩ h
  · have hitem : w.items.get jid = none := h.item
    simp [processOutboundSubscriptionRequest, RosterManager.processOutboundSubscriptionRequest,
      hitem, h.same]
  · have hitem : w.items.get jid = some _ := h.item
    have hwith := h.withItem
    cases s <;>
      simp_all [processOutboundSubscriptionRequest,
        RosterManager.processOutboundSubscriptionRequest, h.same, Roster.setItem, Item.words,
        Subscription.word]

/-- What a roster set does with its contact. -/
def edit (tag : ItemTag) (c : Contact) : Edit :=
  if tag.removes then
    if c.item.isSome then .save { c with item := none } else .keep false
  else .save { c with item := some (tag.item c.item) }

theorem newItem_words (tag : ItemTag) (item : Option RosterManager.Item) :
    newItem tag (item.map RosterManager.Item.words) = (tag.item item).words := by
  cases item <;> rfl

variable {w : Roster}

theorem rosterSet_eq {enc : Prosody.Jid.Stringprep} {owner : Jid}
    {query : List ItemTag} {target : Target} {c : Contact}
    (htarget : setTarget enc owner query = .ok target) (h : w.Says target.jid c) :
    rosterSet enc owner w query = w.setContact target.jid ((edit target.tag c).contact c) := by
  have hwith := h.withItem
  unfold rosterSet edit
  simp only [htarget, h.item]
  cases hremoves : target.tag.removes with
  | true =>
    cases hc : c.item with
    | none => simp [h.same]
    | some item => simp [removeFromRoster, hwith]
  | false => simp [addToRoster, Roster.setItem, newItem_words, hwith]

/-! ## Reachable rosters -/

/-- Every contact shows a link in each direction. -/
def Roster.Linked (w : Roster) : Prop :=
  ∀ jid, ∃ c out inn, w.Says jid c ∧ Contact.Shows c out inn

theorem Roster.says_setContact_self (w : Roster) (jid : Jid) (c : Contact) :
    (w.setContact jid c).Says jid c := by
  constructor
  · simp [setContact]
  · cases hp : c.pending <;> simp [setContact, hp]

theorem Roster.Says.setContact_of_ne {jid other : Jid} {c : Contact}
    (h : w.Says other c) (hne : other ≠ jid) (c' : Contact) :
    (w.setContact jid c').Says other c := by
  constructor
  · rw [← h.item]
    exact Table.get_set_of_ne _ hne _
  · rw [← h.pending]
    cases hp : c'.pending <;> simp [setContact, hp, hne]

theorem Roster.Linked.setContact (h : w.Linked) (jid : Jid) {c : Contact}
    {out inn : Link} (hc : c.Shows out inn) : (w.setContact jid c).Linked := by
  intro other
  by_cases hne : other = jid
  · subst hne
    exact ⟨c, out, inn, w.says_setContact_self other c, hc⟩
  · obtain ⟨c', out', inn', hword, hshows⟩ := h other
    exact ⟨c', out', inn', hword.setContact_of_ne hne c, hshows⟩

/-- An edit leaves a contact that shows links. -/
def KeepsLinks (f : Contact → Edit) : Prop :=
  ∀ c, (∃ out inn, Contact.Shows c out inn) → ∃ out inn, Contact.Shows ((f c).contact c) out inn

theorem keepsLinks_of_actsBy {f : Contact → Edit} {out inn : Link → Link} (h : ActsBy f out inn) :
    KeepsLinks f := by
  rintro c ⟨o, i, hshows⟩
  exact ⟨out o, inn i, h c o i hshows⟩

/-- Only a contact with an item can be asked. -/
theorem keepsLinks_outboundRequest :
    KeepsLinks RosterManager.processOutboundSubscriptionRequest := by
  rintro ⟨_ | item, p⟩ ⟨o, i, h⟩
  · exact ⟨o, i, h⟩
  · refine ⟨o.request, i, ?_⟩
    cases o <;> cases i <;>
      simp_all [RosterManager.processOutboundSubscriptionRequest, Subscription.ofLinks]

/-- A removed contact shows at most the request that it made. -/
theorem keepsLinks_edit (tag : ItemTag) : KeepsLinks (edit tag) := by
  rintro ⟨_ | item, p⟩ ⟨o, i, h⟩
  · cases hremoves : tag.removes with
    | true =>
      refine ⟨o, i, ?_⟩
      simpa [edit, hremoves] using h
    | false =>
      refine ⟨.none, i, ?_⟩
      cases i <;> simp_all [edit, ItemTag.item, Subscription.ofLinks]
  · cases hremoves : tag.removes with
    | true =>
      refine ⟨.none, if i = .granted then .none else i, ?_⟩
      cases i <;> simp_all [edit]
    | false =>
      refine ⟨o, i, ?_⟩
      simp_all [edit, ItemTag.item]

theorem Roster.Linked.follows (h : w.Linked) {g : Roster → Jid → Roster}
    {f : Contact → Edit} (hg : Follows g f) (hf : KeepsLinks f) (jid : Jid) : (g w jid).Linked := by
  obtain ⟨c, o, i, hword, hshows⟩ := h jid
  obtain ⟨o', i', hshows'⟩ := hf c ⟨o, i, hshows⟩
  rw [hg w jid c hword]
  exact h.setContact jid hshows'

theorem Roster.Linked.rosterSet (h : w.Linked) (enc : Prosody.Jid.Stringprep)
    (owner : Jid) (query : List ItemTag) : (rosterSet enc owner w query).Linked := by
  cases htarget : setTarget enc owner query with
  | error e =>
    simp only [Words.rosterSet, htarget]
    exact h
  | ok target =>
    obtain ⟨c, o, i, hword, hshows⟩ := h target.jid
    obtain ⟨o', i', hshows'⟩ := keepsLinks_edit target.tag c ⟨o, i, hshows⟩
    rw [rosterSet_eq htarget hword]
    exact h.setContact target.jid hshows'

theorem step_linked (enc : Prosody.Jid.Stringprep) (owner : Jid) (w : Roster) (op : Operation)
    (h : w.Linked) : (step enc owner w op).Linked := by
  cases op with
  | processInboundSubscriptionApproval jid =>
    exact h.follows approval_follows (keepsLinks_of_actsBy actsBy_approval) jid
  | processInboundSubscriptionCancellation jid =>
    exact h.follows cancellation_follows (keepsLinks_of_actsBy actsBy_cancellation) jid
  | processInboundUnsubscribe jid =>
    exact h.follows inboundUnsubscribe_follows (keepsLinks_of_actsBy actsBy_inboundUnsubscribe)
      jid
  | setContactPendingIn jid =>
    exact h.follows pendingIn_follows (keepsLinks_of_actsBy actsBy_pendingIn) jid
  | setContactPendingOut jid =>
    exact h.follows pendingOut_follows (keepsLinks_of_actsBy actsBy_pendingOut) jid
  | unsubscribe jid =>
    exact h.follows unsubscribe_follows (keepsLinks_of_actsBy actsBy_unsubscribe) jid
  | subscribed jid =>
    exact h.follows subscribed_follows (keepsLinks_of_actsBy actsBy_subscribed) jid
  | unsubscribed jid =>
    exact h.follows unsubscribed_follows (keepsLinks_of_actsBy actsBy_unsubscribed) jid
  | processOutboundSubscriptionRequest jid =>
    exact h.follows outboundRequest_follows keepsLinks_outboundRequest jid
  | rosterSet query => exact h.rosterSet enc owner query

theorem Roster.linked_empty : Roster.empty.Linked := by
  intro jid
  refine ⟨⟨none, false⟩, .none, .none, ⟨rfl, ?_⟩, ?_⟩
  · simp [Roster.empty]
  · simp

/-! ## What the roster tables hold -/

/-- The subscription is one of the four words, and `ask` and a pending request stand only
where the other side of the subscription is still missing. -/
structure Roster.WellFormed (w : Roster) : Prop where
  subscription : ∀ jid item, w.items.get jid = some item →
    item.subscription ∈ ["none", "to", "from", "both"]
  ask : ∀ jid item, w.items.get jid = some item → item.ask.isSome →
    item.subscription = "none" ∨ item.subscription = "from"
  pending : ∀ jid ∈ w.pending, ∀ item, w.items.get jid = some item →
    item.subscription = "none" ∨ item.subscription = "to"

/-- The last branch of the two ladders that test for `none` only: an approval finds a contact
with subscription `from` there, an approved request one with subscription `to`. -/
structure Roster.ElseBranches (w : Roster) : Prop where
  approval : ∀ jid item, w.items.get jid = some item → item.ask.isSome →
    item.subscription ≠ "none" → item.subscription = "from"
  subscribed : ∀ jid ∈ w.pending, ∀ item, w.items.get jid = some item →
    item.subscription ≠ "none" → item.subscription = "to"

theorem Roster.Linked.item (h : w.Linked) {jid : Jid} {item : Item}
    (hitem : w.items.get jid = some item) :
    ∃ out inn, item.subscription = (Subscription.ofLinks out inn).word ∧
      item.ask.isSome = decide (out = .requested) ∧ (jid ∈ w.pending ↔ inn = .requested) := by
  obtain ⟨⟨item', p⟩, out, inn, hword, hshows⟩ := h jid
  have hmap : item'.map RosterManager.Item.words = some item := hword.item.symm.trans hitem
  obtain ⟨it, rfl, rfl⟩ := Option.map_eq_some_iff.mp hmap
  obtain ⟨hsub, hask, hp⟩ := Contact.shows_some_iff.mp hshows
  refine ⟨out, inn, ?_, hask, ?_⟩
  · rw [← hsub]
    rfl
  · rw [hword.pending]
    simp [hp]

theorem Roster.Linked.wellFormed (h : w.Linked) : w.WellFormed := by
  constructor
  · intro jid item hitem
    obtain ⟨out, inn, hsub, -, -⟩ := h.item hitem
    rw [hsub]
    cases out <;> cases inn <;> decide
  · intro jid item hitem hask
    obtain ⟨out, inn, hsub, hout, -⟩ := h.item hitem
    obtain rfl : out = .requested := by simpa [hask] using hout
    rw [hsub]
    cases inn <;> decide
  · intro jid hmem item hitem
    obtain ⟨out, inn, hsub, -, hinn⟩ := h.item hitem
    obtain rfl := hinn.mp hmem
    rw [hsub]
    cases out <;> decide

theorem Roster.WellFormed.elseBranches (h : w.WellFormed) : w.ElseBranches := by
  constructor
  · intro jid item hitem hask hne
    exact (h.ask jid item hitem hask).resolve_left hne
  · intro jid hmem item hitem hne
    exact (h.pending jid hmem item hitem).resolve_left hne

/-- From an empty roster and with every save succeeding, every operation leaves a well-formed
roster, and no ladder is left by a branch that does not fit. -/
theorem reachable_wellFormed (enc : Prosody.Jid.Stringprep) (owner : Jid)
    (ops : List Operation) :
    Machine.Always (step enc owner) (fun w => w.WellFormed ∧ w.ElseBranches) Roster.empty ops :=
  (Machine.always_of_invariant (step_linked enc owner) Roster.linked_empty ops).mono
    fun _ h => ⟨h.wellFormed, h.wellFormed.elseBranches⟩

end Words

end Prosody.RosterManager
