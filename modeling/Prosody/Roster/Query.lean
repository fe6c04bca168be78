import Prosody.Roster.Manager
import Prosody.Util.Jid

/-! # Roster sets of a client

The checks of the `iq/self/jabber:iq:roster:query` handler of `plugins/mod_roster.lua` on the
payload of a set, and the item that it makes. -/

namespace Prosody.RosterManager

/-- A child element of the query. A group without text has the value `none`. -/
structure ItemTag where
  tagName : String
  xmlns : String
  jid : Option String
  subscription : Option String
  name : Option String
  groups : List (Option String)
  deriving DecidableEq

/-- The errors with which the handler replies. -/
inductive Refusal where
  | badRequest
  | notAllowed
  | itemNotFound
  | notSaved
  deriving DecidableEq, Repr

/-- The contact that a set is about: its address, prepared, and the node of it. -/
structure Target where
  tag : ItemTag
  jid : Jid
  node : Option String
  deriving DecidableEq

/-- The contact must have a valid address without a resource. -/
def contactOf (enc : Prosody.Jid.Stringprep) (owner : Jid) (tag : ItemTag) (attr : String) :
    Except Refusal Target :=
  match Prosody.Jid.prep enc attr with
  | none => .error .badRequest
  | some jid =>
    match Prosody.Jid.split jid with
    | none => .error .badRequest
    | some parts =>
      if parts.resource.isSome then .error .badRequest
      else if jid = owner then .error .notAllowed
      else .ok { tag := tag, jid := jid, node := parts.node }

/-- The query has a single child, an item with an address. -/
def setTarget (enc : Prosody.Jid.Stringprep) (owner : Jid) :
    List ItemTag → Except Refusal Target
  | [tag] =>
    match tag.jid with
    | some attr =>
      if tag.tagName = "item" ∧ tag.xmlns = "jabber:iq:roster" then
        contactOf enc owner tag attr
      else .error .badRequest
    | none => .error .badRequest
  | _ => .error .badRequest

def ItemTag.removes (tag : ItemTag) : Bool := tag.subscription = some "remove"

/-- An empty name is no name. -/
def ItemTag.itemName (tag : ItemTag) : Option String :=
  if tag.name = some "" then none else tag.name

def ItemTag.itemGroups (tag : ItemTag) : Finset String := tag.groups.reduceOption.toFinset

/-- The new item keeps the subscription and the `ask` of the one it replaces. -/
def ItemTag.item (tag : ItemTag) (old : Option Item) : Item where
  subscription := (old.map Item.subscription).getD .none
  ask := old.bind Item.ask
  name := tag.itemName
  groups := tag.itemGroups

end Prosody.RosterManager
