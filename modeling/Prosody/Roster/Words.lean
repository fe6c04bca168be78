import Prosody.Roster.Query

/-! # Rosters with subscription words

The mutations of `core/rostermanager.lua` on rosters whose subscriptions are strings, as they
are in the roster tables. Each function gives the roster after a save that succeeds. -/

namespace Prosody.RosterManager.Words

structure Item where
  subscription : String
  ask : Option String
  name : Option String
  groups : Finset String
  deriving DecidableEq

/-- The items and `roster[false].pending`. -/
structure Roster where
  items : Table Jid Item
  pending : Finset Jid
  deriving DecidableEq

def Roster.empty : Roster := { items := ∅, pending := ∅ }

def Roster.setItem (r : Roster) (jid : Jid) (item : Item) : Roster :=
  { r with items := r.items.set jid (some item) }

def Roster.clearPending (r : Roster) (jid : Jid) : Roster :=
  { r with pending := r.pending.erase jid }

/-- `{subscription = "none", groups = {}}`. -/
def Item.fresh : Item :=
  { subscription := "none", ask := none, name := none, groups := ∅ }

/-! ## The mutations -/

def processInboundSubscriptionApproval (r : Roster) (jid : Jid) : Roster :=
  match r.items.get jid with
  | some item =>
    if item.ask.isSome then
      r.setItem jid { item with
        subscription := if item.subscription = "none" then "to" else "both"
        ask := none }
    else r
  | none => r

def dropTo (subscription : String) : String :=
  if subscription = "to" then "none"
  else if subscription = "both" then "from"
  else subscription

def dropFrom (subscription : String) : String :=
  if subscription = "from" then "none"
  else if subscription = "both" then "to"
  else subscription

def processInboundSubscriptionCancellation (r : Roster) (jid : Jid) : Roster :=
  match r.items.get jid with
  | some item => r.setItem jid { item with ask := none, subscription := dropTo item.subscription }
  | none => r

def processInboundUnsubscribe (r : Roster) (jid : Jid) : Roster :=
  let r := r.clearPending jid
  match r.items.get jid with
  | some item => r.setItem jid { item with subscription := dropFrom item.subscription }
  | none => r

def setContactPendingIn (r : Roster) (jid : Jid) : Roster :=
  if (r.items.get jid).any fun item => item.subscription = "from" || item.subscription = "both"
  then r
  else { r with pending := insert jid r.pending }

def setContactPendingOut (r : Roster) (jid : Jid) : Roster :=
  if (r.items.get jid).any fun item =>
      item.ask.isSome || item.subscription = "to" || item.subscription = "both"
  then r
  else r.setItem jid { (r.items.get jid).getD Item.fresh with ask := some "subscribe" }

def unsubscribe (r : Roster) (jid : Jid) : Roster :=
  match r.items.get jid with
  | none => r
  | some item =>
    if (item.subscription = "from" || item.subscription = "none") && item.ask.isNone then r
    else
      r.setItem jid { item with
        ask := none
        subscription :=
          if item.subscription = "both" then "from"
          else if item.subscription = "to" then "none"
          else item.subscription }

def subscribed (r : Roster) (jid : Jid) : Roster :=
  if jid ∈ r.pending then
    let item := (r.items.get jid).getD Item.fresh
    (r.setItem jid { item with
      subscription := if item.subscription = "none" then "from" else "both" }).clearPending jid
  else r

def unsubscribed (r : Roster) (jid : Jid) : Roster :=
  let r := r.clearPending jid
  match r.items.get jid with
  | some item => r.setItem jid { item with subscription := dropFrom item.subscription }
  | none => r

def processOutboundSubscriptionRequest (r : Roster) (jid : Jid) : Roster :=
  match r.items.get jid with
  | some item =>
    if item.subscription = "none" || item.subscription = "from" then
      r.setItem jid { item with ask := some "subscribe" }
    else r
  | none => r

/-! ## Roster sets -/

def addToRoster (r : Roster) (jid : Jid) (item : Item) : Roster := r.setItem jid item

def removeFromRoster (r : Roster) (jid : Jid) : Roster :=
  { r with items := r.items.set jid none }

def newItem (tag : ItemTag) (old : Option Item) : Item where
  subscription := (old.map Item.subscription).getD "none"
  ask := old.bind Item.ask
  name := tag.itemName
  groups := tag.itemGroups

/-- A roster set of a session whose bare address is `owner`. -/
def rosterSet (enc : Prosody.Jid.Stringprep) (owner : Jid) (r : Roster) (query : List ItemTag) :
    Roster :=
  match setTarget enc owner query with
  | .error _ => r
  | .ok target =>
    if target.tag.removes then
      if (r.items.get target.jid).isSome then removeFromRoster r target.jid else r
    else addToRoster r target.jid (newItem target.tag (r.items.get target.jid))

/-! ## Operations -/

inductive Operation where
  | processInboundSubscriptionApproval (jid : Jid)
  | processInboundSubscriptionCancellation (jid : Jid)
  | processInboundUnsubscribe (jid : Jid)
  | setContactPendingIn (jid : Jid)
  | setContactPendingOut (jid : Jid)
  | unsubscribe (jid : Jid)
  | subscribed (jid : Jid)
  | unsubscribed (jid : Jid)
  | processOutboundSubscriptionRequest (jid : Jid)
  | rosterSet (query : List ItemTag)
  deriving DecidableEq

def step (enc : Prosody.Jid.Stringprep) (owner : Jid) (r : Roster) : Operation → Roster
  | .processInboundSubscriptionApproval jid => processInboundSubscriptionApproval r jid
  | .processInboundSubscriptionCancellation jid => processInboundSubscriptionCancellation r jid
  | .processInboundUnsubscribe jid => processInboundUnsubscribe r jid
  | .setContactPendingIn jid => setContactPendingIn r jid
  | .setContactPendingOut jid => setContactPendingOut r jid
  | .unsubscribe jid => unsubscribe r jid
  | .subscribed jid => subscribed r jid
  | .unsubscribed jid => unsubscribed r jid
  | .processOutboundSubscriptionRequest jid => processOutboundSubscriptionRequest r jid
  | .rosterSet query => rosterSet enc owner r query

end Prosody.RosterManager.Words
