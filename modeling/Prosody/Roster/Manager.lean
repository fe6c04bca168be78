import Prosody.Library.Table

/-! # The roster manager

A user's roster is loaded, edited at one contact and saved. Every mutation of
`core/rostermanager.lua` reads and writes only `roster[jid]` and
`roster[false].pending[jid]`, so it is an edit of that pair. -/

namespace Prosody.RosterManager

abbrev Jid := String

/-- The `subscription` of a roster item. -/
inductive Subscription where
  | none
  | to
  | «from»
  | both
  deriving DecidableEq, Repr

/-- The user sees the contact's presence. -/
def Subscription.hasTo : Subscription → Bool
  | .to | .both => true
  | .none | .«from» => false

/-- The contact sees the user's presence. -/
def Subscription.hasFrom : Subscription → Bool
  | .«from» | .both => true
  | .none | .to => false

structure Item where
  subscription : Subscription
  ask : Option String
  name : Option String
  groups : Finset String
  deriving DecidableEq

/-- The item made for a contact that has none yet. -/
def Item.fresh : Item :=
  { subscription := .none, ask := none, name := none, groups := ∅ }

/-- `roster[false].version`: unset, counted, or `true` for a roster that is not versioned. -/
inductive Version where
  | unset
  | count (n : Nat)
  | unversioned
  deriving DecidableEq, Repr

def Version.bump : Version → Version
  | .unset => .count 1
  | .count n => .count (n + 1)
  | .unversioned => .unversioned

/-- `roster[false]`. -/
structure Metadata where
  pending : Finset Jid
  version : Version
  broken : Option String
  deriving DecidableEq

def Metadata.fresh : Metadata :=
  { pending := ∅, version := .unset, broken := none }

structure Roster where
  items : Table Jid Item
  metadata : Metadata
  deriving DecidableEq

/-- What the roster store holds. Rosters written by old versions keep their pending
requests in an entry named `pending`. -/
structure Stored where
  items : Table Jid Item
  metadata : Option Metadata
  legacyPending : Option (Finset Jid)
  deriving DecidableEq

def Stored.empty : Stored :=
  { items := ∅, metadata := none, legacyPending := none }

/-- `set_keys` of a map store over the stored table: the metadata and one contact. -/
def Stored.setKeys (stored : Stored) (metadata : Metadata) (jid : Jid) (item : Option Item) :
    Stored :=
  { items := stored.items.set jid item
    metadata := some metadata
    legacyPending := if jid = "pending" then none else stored.legacyPending }

/-- One account: whether it exists, the roster shared by its sessions while it has any,
the stored roster, and how the store answers. -/
structure User where
  registered : Bool
  session : Option Roster
  stored : Stored
  readError : Option String
  storeAccepts : Bool
  deriving DecidableEq

/-! ## Loading and saving -/

/-- `roster_metadata`, which creates the metadata and adopts legacy pending requests. -/
def rosterMetadata (stored : Stored) (err : Option String) : Metadata :=
  let metadata := stored.metadata.getD { Metadata.fresh with broken := err }
  match stored.legacyPending with
  | some pending => { metadata with pending := pending }
  | none => metadata

def Roster.bumpVersion (roster : Roster) : Roster :=
  { roster with metadata := { roster.metadata with version := roster.metadata.version.bump } }

/-- `save_roster` with a contact: whether it succeeded, the roster with its new version,
and the user with the store updated. -/
def User.saveRoster (u : User) (roster : Roster) (jid : Jid) : Bool × Roster × User :=
  if !u.registered then
    (false, roster, u)
  else
    let roster := roster.bumpVersion
    if roster.metadata.broken.isSome then
      (false, roster, u)
    else if u.storeAccepts then
      (true, roster,
        { u with stored := u.stored.setKeys roster.metadata jid (roster.items.get jid) })
    else
      (false, roster, u)

/-- Reading the store: a failed read gives an empty roster marked as broken, a legacy entry
and a contact for the user itself are dropped and the store told so. -/
def User.readRoster (u : User) (self : Jid) : Roster × User :=
  let stored := if u.readError.isSome then Stored.empty else u.stored
  let roster : Roster :=
    { items := stored.items, metadata := rosterMetadata stored u.readError }
  let (roster, u) :=
    if stored.legacyPending.isSome then (u.saveRoster roster "pending").2 else (roster, u)
  if (roster.items.get self).isSome then
    (u.saveRoster { roster with items := roster.items.set self none } self).2
  else
    (roster, u)

/-- `load_roster`: the roster of the sessions if there are any. -/
def User.loadRoster (u : User) (self : Jid) : Roster × User :=
  match u.session with
  | some roster => (roster, u)
  | none => u.readRoster self

/-! ## Edits of one contact -/

/-- `roster[jid]` and `roster[false].pending[jid]`. -/
structure Contact where
  item : Option Item
  pending : Bool
  deriving DecidableEq

/-- What a mutation does with the contact: return at once, or store and save. -/
inductive Edit where
  | keep (result : Bool)
  | save (contact : Contact)
  deriving DecidableEq

def Roster.contact (roster : Roster) (jid : Jid) : Contact :=
  { item := roster.items.get jid, pending := decide (jid ∈ roster.metadata.pending) }

def Roster.setContact (roster : Roster) (jid : Jid) (c : Contact) : Roster :=
  { items := roster.items.set jid c.item
    metadata :=
      { roster.metadata with
        pending :=
          if c.pending then insert jid roster.metadata.pending
          else roster.metadata.pending.erase jid } }

/-- Load the roster, edit one contact and save. The sessions share the edited roster even
when the save fails. -/
def User.edit (u : User) (self jid : Jid) (f : Contact → Edit) : Bool × User :=
  let (roster, u) := u.loadRoster self
  match f (roster.contact jid) with
  | .keep result => (result, u)
  | .save c =>
    let (saved, roster, u) := u.saveRoster (roster.setContact jid c) jid
    (saved, { u with session := u.session.map fun _ => roster })

/-! ## The mutations -/

def processInboundSubscriptionApproval (c : Contact) : Edit :=
  match c.item with
  | some item =>
    if item.ask.isSome then
      .save { c with
        item := some { item with
          subscription := if item.subscription = .none then .to else .both
          ask := none } }
    else .keep false
  | none => .keep false

/-- The subscription once the user no longer sees the contact. -/
def Subscription.dropTo : Subscription → Subscription
  | .to => .none
  | .both => .«from»
  | s => s

/-- The subscription once the contact no longer sees the user. -/
def Subscription.dropFrom : Subscription → Subscription
  | .«from» => .none
  | .both => .to
  | s => s

def processInboundSubscriptionCancellation (c : Contact) : Edit :=
  match c.item with
  | some item =>
    if item.ask.isSome || item.subscription.hasTo then
      .save { c with
        item := some { item with ask := none, subscription := item.subscription.dropTo } }
    else .keep false
  | none => .keep false

def processInboundUnsubscribe (c : Contact) : Edit :=
  let subscribed := c.item.any fun item => item.subscription.hasFrom
  if c.pending || subscribed then
    .save
      { item := c.item.map fun item =>
          { item with subscription := item.subscription.dropFrom }
        pending := false }
  else .keep false

def setContactPendingIn (c : Contact) : Edit :=
  if c.item.any fun item => item.subscription.hasFrom then .keep false
  else .save { c with pending := true }

def setContactPendingOut (c : Contact) : Edit :=
  if c.item.any fun item => item.ask.isSome || item.subscription.hasTo then .keep true
  else .save { c with item := some { c.item.getD Item.fresh with ask := some "subscribe" } }

def unsubscribe (c : Contact) : Edit :=
  match c.item with
  | none => .keep false
  | some item =>
    if (item.subscription = .«from» || item.subscription = .none) && item.ask.isNone then
      .keep true
    else
      .save { c with
        item := some { item with ask := none, subscription := item.subscription.dropTo } }

def subscribed (c : Contact) : Edit :=
  if c.pending then
    let item := c.item.getD Item.fresh
    .save
      { item := some { item with
          subscription := if item.subscription = .none then .«from» else .both }
        pending := false }
  else .keep false

/-- The source also returns whether a request was pending and whether the contact was
subscribed; here both are read off the contact before the edit. -/
def unsubscribed (c : Contact) : Edit :=
  let isSubscribed := c.item.any fun item => item.subscription.hasFrom
  if c.pending || isSubscribed then
    .save
      { item := c.item.map fun item =>
          { item with subscription := item.subscription.dropFrom }
        pending := false }
  else .keep false

def processOutboundSubscriptionRequest (c : Contact) : Edit :=
  match c.item with
  | some item =>
    if item.subscription = .none || item.subscription = .«from» then
      .save { c with item := some { item with ask := some "subscribe" } }
    else .keep false
  | none => .keep false

/-! ## Changes by a client

`add_to_roster` and `remove_from_roster` work on the roster of a session and restore the
old item when the save fails. -/

def User.setItem (u : User) (jid : Jid) (item : Option Item) : Bool × User :=
  match u.session with
  | none => (false, u)
  | some roster =>
    let oldItem := roster.items.get jid
    let (saved, roster, u) :=
      u.saveRoster { roster with items := roster.items.set jid item } jid
    if saved then
      (true, { u with session := some roster })
    else
      (false, { u with session := some { roster with items := roster.items.set jid oldItem } })

def User.addToRoster (u : User) (jid : Jid) (item : Item) : Bool × User :=
  u.setItem jid (some item)

def User.removeFromRoster (u : User) (jid : Jid) : Bool × User :=
  u.setItem jid none

/-! ## The mutations by name -/

inductive Mutation where
  | addToRoster (item : Item)
  | removeFromRoster
  | processInboundSubscriptionApproval
  | processInboundSubscriptionCancellation
  | processInboundUnsubscribe
  | setContactPendingIn
  | setContactPendingOut
  | unsubscribe
  | subscribed
  | unsubscribed
  | processOutboundSubscriptionRequest
  deriving DecidableEq

def Mutation.edit : Mutation → Contact → Edit
  | .addToRoster item => fun c => .save { c with item := some item }
  | .removeFromRoster => fun c => .save { c with item := none }
  | .processInboundSubscriptionApproval => RosterManager.processInboundSubscriptionApproval
  | .processInboundSubscriptionCancellation => RosterManager.processInboundSubscriptionCancellation
  | .processInboundUnsubscribe => RosterManager.processInboundUnsubscribe
  | .setContactPendingIn => RosterManager.setContactPendingIn
  | .setContactPendingOut => RosterManager.setContactPendingOut
  | .unsubscribe => RosterManager.unsubscribe
  | .subscribed => RosterManager.subscribed
  | .unsubscribed => RosterManager.unsubscribed
  | .processOutboundSubscriptionRequest => RosterManager.processOutboundSubscriptionRequest

/-- A call of the mutation for the user with the address `self`. Only the changes by a client
undo a failed save. -/
def User.mutate (u : User) (self jid : Jid) : Mutation → Bool × User
  | .addToRoster item => u.addToRoster jid item
  | .removeFromRoster => u.removeFromRoster jid
  | m => u.edit self jid m.edit

end Prosody.RosterManager
