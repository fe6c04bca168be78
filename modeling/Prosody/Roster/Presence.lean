import Prosody.Roster.Manager

/-! # Presence subscriptions between local users

The subscription handlers of `plugins/mod_presence.lua` and roster removal of
`plugins/mod_roster.lua`. Addresses are bare, and a stanza for a local user is handled before
`core_post_stanza` returns, so an outbound handler calls the inbound one. -/

namespace Prosody.RosterManager

abbrev Server := Jid → User

namespace Server

variable (s : Server)

def setUser (jid : Jid) (u : User) : Server := Function.update s jid u

/-- A mutation of the roster of `user` at the contact `jid`. -/
def edit (user jid : Jid) (f : Contact → Edit) : Bool × Server :=
  let (result, u) := (s user).edit user jid f
  (result, s.setUser user u)

/-! ## Queries -/

/-- `_get_online_roster_subscription`. -/
def onlineRosterSubscription (a b : Jid) : Option Subscription :=
  (s a).session.map fun roster =>
    match roster.items.get b with
    | some item => item.subscription
    | none => .none

/-- `is_contact_subscribed`: the answer and the error of the load. -/
def isContactSubscribed (user jid : Jid) : Bool × Option String × Server :=
  match s.onlineRosterSubscription user jid with
  | some subscription => (subscription.hasFrom, none, s)
  | none =>
    match s.onlineRosterSubscription jid user with
    | some subscription => (subscription.hasTo, none, s)
    | none =>
      let (roster, u) := (s user).loadRoster user
      ((roster.items.get jid).any fun item => item.subscription.hasFrom,
        (s user).readError, s.setUser user u)

/-- `is_user_subscribed`. -/
def isUserSubscribed (user jid : Jid) : Bool × Option String × Server :=
  match s.onlineRosterSubscription user jid with
  | some subscription => (subscription.hasTo, none, s)
  | none =>
    match s.onlineRosterSubscription jid user with
    | some subscription => (subscription.hasFrom, none, s)
    | none =>
      let (roster, u) := (s user).loadRoster user
      ((roster.items.get jid).any fun item => item.subscription.hasTo,
        (s user).readError, s.setUser user u)

/-- `is_contact_pending_in`. -/
def isContactPendingIn (user jid : Jid) : Bool × Server :=
  let (roster, u) := (s user).loadRoster user
  ((roster.contact jid).pending, s.setUser user u)

/-! ## Handlers

The inbound handlers work on the roster of `recipient`, the outbound ones on the roster of `sender`.
A self contact is left to the inbound handler. -/

def inboundUnsubscribe (sender recipient : Jid) : Server :=
  (s.edit recipient sender processInboundUnsubscribe).2

def inboundSubscribed (sender recipient : Jid) : Server :=
  (s.edit recipient sender processInboundSubscriptionApproval).2

def inboundUnsubscribed (sender recipient : Jid) : Server :=
  (s.edit recipient sender processInboundSubscriptionCancellation).2

def outboundUnsubscribe (sender recipient : Jid) : Server :=
  if sender = recipient then s.inboundUnsubscribe sender recipient
  else (s.edit sender recipient unsubscribe).2.inboundUnsubscribe sender recipient

/-- The stanza is routed only if the roster was changed and saved. -/
def outboundUnsubscribed (sender recipient : Jid) : Server :=
  if sender = recipient then s.inboundUnsubscribed sender recipient
  else
    let (success, s) := s.edit sender recipient unsubscribed
    if success then s.inboundUnsubscribed sender recipient else s

/-- A probe that is not allowed is answered with `unsubscribed`. -/
def inboundProbe (sender recipient : Jid) : Server :=
  let (result, err, s) := s.isContactSubscribed recipient sender
  if result || err.isSome then s else s.outboundUnsubscribed recipient sender

def outboundSubscribed (sender recipient : Jid) : Server :=
  if sender = recipient then s.inboundSubscribed sender recipient
  else
    let s := (s.edit sender recipient subscribed).2.inboundSubscribed sender recipient
    let (result, _, s) := s.isUserSubscribed sender recipient
    if result then s.inboundProbe sender recipient else s

/-- A request of a contact that is subscribed already is approved at once. -/
def inboundSubscribe (sender recipient : Jid) : Server :=
  let (result, _, s) := s.isContactSubscribed recipient sender
  if result then s.outboundSubscribed recipient sender
  else
    let (pending, s) := s.isContactPendingIn recipient sender
    if pending then s else (s.edit recipient sender setContactPendingIn).2

def outboundSubscribe (sender recipient : Jid) : Server :=
  if sender = recipient then s.inboundSubscribe sender recipient
  else (s.edit sender recipient setContactPendingOut).2.inboundSubscribe sender recipient

end Server

/-- The types of presence stanzas that manage subscriptions. -/
inductive PresenceType where
  | subscribe
  | subscribed
  | unsubscribe
  | unsubscribed
  deriving DecidableEq, Repr

/-- A subscription stanza sent by a user to a local user. -/
def Server.presence (s : Server) (type : PresenceType) (sender recipient : Jid) : Server :=
  match type with
  | .subscribe => s.outboundSubscribe sender recipient
  | .subscribed => s.outboundSubscribed sender recipient
  | .unsubscribe => s.outboundUnsubscribe sender recipient
  | .unsubscribed => s.outboundUnsubscribed sender recipient

/-- The `roster-item-removed` event, with the item and the pending request of the roster.
The stanzas go to the inbound handlers of the contact. -/
def Server.rosterItemRemoved (s : Server) (user jid : Jid) (c : Contact) : Server :=
  let subscription := (c.item.map Item.subscription).getD .none
  let ask := c.item.any fun item => item.ask.isSome
  let s := if subscription.hasFrom || c.pending then s.inboundUnsubscribed user jid else s
  if subscription.hasTo || ask then s.inboundUnsubscribe user jid else s

/-- A roster set with subscription `remove`, from a session of `user`. -/
def Server.removeItem (s : Server) (user jid : Jid) : Server :=
  match (s user).session with
  | none => s
  | some roster =>
    if jid = user then s
    else if (roster.items.get jid).isSome then
      let s := s.rosterItemRemoved user jid (roster.contact jid)
      s.setUser user ((s user).removeFromRoster jid).2
    else s

/-- The first session of a user loads the roster. -/
def Server.login (s : Server) (user : Jid) : Server :=
  match (s user).session with
  | some _ => s
  | none =>
    let (roster, u) := (s user).readRoster user
    s.setUser user { u with session := some roster }

/-- With the last session of a user the roster is dropped. -/
def Server.logout (s : Server) (user : Jid) : Server :=
  s.setUser user { s user with session := none }

/-! ## Events -/

inductive Event where
  | presence (type : PresenceType) (sender recipient : Jid)
  | removeItem (user contact : Jid)
  | login (user : Jid)
  | logout (user : Jid)
  deriving DecidableEq

def Server.step (s : Server) : Event → Server
  | .presence type sender recipient => s.presence type sender recipient
  | .removeItem user contact => s.removeItem user contact
  | .login user => s.login user
  | .logout user => s.logout user

end Prosody.RosterManager
