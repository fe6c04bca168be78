import Mathlib.Order.Defs.LinearOrder
import Mathlib.Data.List.Basic
import Prosody.Library.Table

/-! # Archives

The archive stores of `mod_storage_internal.lua` and `mod_storage_memory.lua`. A point in time
is a number, and whatever a stanza holds besides its attributes is passed through. -/

namespace Prosody.Archive

structure Stanza (β : Type*) where
  attr : Table String String
  body : β

instance {β : Type*} [DecidableEq β] : DecidableEq (Stanza β) := fun s s' =>
  decidable_of_iff (s.attr = s'.attr ∧ s.body = s'.body) <| by
    cases s
    cases s'
    simp

/-- An item of an archive, also as it is returned by `find`. -/
structure Item (τ β : Type*) where
  key : Option String
  value : Stanza β
  when : τ
  withJid : Option String
  deriving DecidableEq

/-- The part of a query that says which items are meant. -/
structure Criteria (τ : Type*) where
  key : Option String
  qwith : Option String
  qstart : Option τ
  qend : Option τ

structure Query (τ : Type*) extends Criteria τ where
  before : Option String
  after : Option String
  limit : Option Nat
  reverse : Bool
  truncate : Option Nat

/-- Nothing but what is asked for. -/
def Criteria.query {τ : Type*} (c : Criteria τ) : Query τ :=
  { c with before := none, after := none, limit := none, reverse := false, truncate := none }

def Criteria.Empty {τ : Type*} (c : Criteria τ) : Prop :=
  c.key = none ∧ c.qwith = none ∧ c.qstart = none ∧ c.qend = none

def Query.Empty {τ : Type*} (q : Query τ) : Prop :=
  q.toCriteria.Empty ∧ q.before = none ∧ q.after = none ∧ q.limit = none ∧ q.reverse = false ∧
    q.truncate = none

instance {τ : Type*} [DecidableEq τ] (c : Criteria τ) : Decidable c.Empty :=
  inferInstanceAs (Decidable (_ ∧ _))

instance {τ : Type*} [DecidableEq τ] (q : Query τ) : Decidable q.Empty :=
  inferInstanceAs (Decidable (_ ∧ _))

/-- `items:filter`, if the query has the field. -/
def filterBy {α γ : Type*} (criterion : Option γ) (p : γ → α → Bool) (items : List α) : List α :=
  match criterion with
  | none => items
  | some c => items.filter (p c)

variable {τ β : Type*} [LinearOrder τ]

/-! ## Deleting, which both drivers do alike -/

def truncateItems (q : Query τ) (items : List (Item τ β)) : List (Item τ β) :=
  match q.truncate with
  | none => items
  | some truncate =>
    if truncate < items.length then
      if q.reverse then items.take truncate else items.drop (items.length - truncate)
    else items

/-- The filters of `delete`. -/
def survivors (q : Query τ) (items : List (Item τ β)) : List (Item τ β) :=
  truncateItems q <|
  filterBy q.qend (fun qend item => item.when > qend) <|
  filterBy q.qstart (fun qstart item => item.when < qstart) <|
  filterBy q.qwith (fun qwith item => item.withJid ≠ some qwith) <|
  filterBy q.key (fun key item => item.key ≠ some key) items

/-- What `delete` returns: `true`, or the number of items, unless it raises an error. -/
inductive Deleted where
  | purged
  | count (count : Nat)
  | raised
  deriving DecidableEq

/-! ## The internal driver -/

namespace Internal

/-- How a point in time is written into a stanza, in the two formats. -/
structure Dates (τ : Type*) where
  datetime : τ → String
  legacy : τ → String

def stamp (dates : Dates τ) (value : Stanza β) (when : τ) : Stanza β :=
  { value with
    attr := (value.attr.set "stamp" (some (dates.datetime when))).set "stamp_legacy"
      (some (dates.legacy when)) }

/-- `append`, where `id` is the key that is generated if none is given. -/
def append (dates : Dates τ) (items : List (Item τ β)) (key : Option String) (id : String)
    (value : Stanza β) (when : τ) (withJid : Option String) : List (Item τ β) :=
  let item : Item τ β :=
    { key := some (key.getD id), value := stamp dates value when, when := when, withJid := withJid }
  match key with
  | some key => (items.filter fun item => item.key ≠ some key) ++ [item]
  | none => items ++ [item]

/-- The filters of `find`. -/
def select (q : Query τ) (items : List (Item τ β)) : List (Item τ β) :=
  filterBy q.qend (fun qend item => item.when ≤ qend) <|
  filterBy q.qstart (fun qstart item => item.when ≥ qstart) <|
  filterBy q.qwith (fun qwith item => item.withJid = some qwith) <|
  filterBy q.key (fun key item => item.key = some key) items

/-- The position of the item that is known by this identifier, counted from 1, or 0. -/
def position (items : List (Item τ β)) (id : String) : Nat :=
  ((items.zipIdx 1).find? fun entry => entry.1.key.getD (toString entry.2) = id).elim 0 Prod.snd

/-- The items in the order in which they are gone through, and where that starts. -/
def arrange (q : Query τ) (items : List (Item τ β)) : List (Item τ β) × Nat :=
  if q.reverse then (items.reverse, q.before.elim 0 (position items.reverse))
  else (items, q.after.elim 0 (position items))

/-- The items that the iterator of `find` comes across, with their positions. -/
def found (q : Query τ) (items : List (Item τ β)) : List (Item τ β × Nat) :=
  let (items, i) := arrange q (select q items)
  let items := match q.limit with
    | none => items
    | some limit => if limit < items.length - i then items.take (i + limit) else items
  (items.zipIdx 1).drop i

/-- An item as the iterator returns it. -/
def present (entry : Item τ β × Nat) : Item τ β :=
  { entry.1 with
    key := some (entry.1.key.getD (toString entry.2))
    value := { entry.1.value with
      attr := (entry.1.value.attr.set "stamp" none).set "stamp_legacy" none } }

def find (q : Query τ) (items : List (Item τ β)) : List (Item τ β) := (found q items).map present

def delete (q : Query τ) (items : List (Item τ β)) : List (Item τ β) × Deleted :=
  if q.Empty then ([], .purged)
  else
    let count := items.length - (survivors q items).length
    if count = 0 then (items, .count 0) else (survivors q items, .count count)

end Internal

/-! ## The memory driver -/

/-- The table of a user: the items, the positions by key, and whether `util.array` has set its
metatable. -/
structure Memory (τ β : Type*) where
  items : List (Item τ β)
  index : Table String Nat
  isArray : Bool

namespace Memory

def empty : Memory τ β := { items := [], index := ∅, isArray := false }

/-- The names that the metatable of an array answers to. -/
def arrayMethods : List String :=
  ["random", "random_other", "shuffle", "append", "push", "pop", "concat", "length",
    "map", "filter", "sort", "unique", "pluck", "reverse"]

/-- What is found in the table under a key. -/
inductive Slot where
  | empty
  | index (i : Nat)
  | method

def slot (a : Memory τ β) (key : String) : Slot :=
  match a.index.get key with
  | some i => .index i
  | none => if a.isArray ∧ key ∈ arrayMethods then .method else .empty

def push (a : Memory τ β) (key : String) (item : Item τ β) : Memory τ β :=
  { a with
    items := a.items ++ [item]
    index := a.index.set key (some (a.items.length + 1)) }

/-- `append`; removing what is under a method of arrays raises an error, and so does making up a key
for an array, since what `tostring` makes of it does not end in a number. -/
def append (store : Option (Memory τ β)) (given : Option String) (id : String) (value : Stanza β)
    (when : τ) (withJid : Option String) : Option (Memory τ β) :=
  let a := store.getD empty
  let key := given.getD id
  let item : Item τ β := { key := some key, value := value, when := when, withJid := withJid }
  if given = none ∧ a.isArray then none
  else match a.slot key with
    | .method => none
    | .index i => some (push { a with items := a.items.eraseIdx (i - 1) } key item)
    | .empty => some (push a key item)

/-- The test in `archive_iter`. -/
def accepts (q : Query τ) (item : Item τ β) : Bool :=
  (q.qstart.all fun qstart => item.when ≥ qstart) && (q.qend.all fun qend => item.when ≤ qend) &&
    q.qwith.all fun qwith => item.withJid = some qwith

/-- The items from the start on, which the query may name, in the direction of the query. -/
def scanned (q : Query τ) (a : Memory τ β) : Option (List (Item τ β)) :=
  if q.reverse then
    match q.before.map a.slot with
    | none => some a.items.reverse
    | some (.index i) => some (a.items.take i).reverse
    | some _ => none
  else
    match q.after.map a.slot with
    | none => some a.items
    | some (.index i) => some (a.items.drop (i - 1))
    | some _ => none

/-- `find`, without a value if the key to start at is not valid. -/
def find (q : Query τ) (store : Option (Memory τ β)) : Option (List (Item τ β)) :=
  (scanned q (store.getD empty)).map fun items =>
    let items := items.filter (accepts q)
    -- the limit is looked at after an item has been yielded
    q.limit.elim items fun limit => items.take (max limit 1)

/-- The loop that indexes the items by key again. -/
def reindex (items : List (Item τ β)) : Table String Nat :=
  (items.zipIdx 1).foldl (fun index entry => match entry.1.key with
    | none => index
    | some key => index.set key (some entry.2)) ∅

/-- `items.filter` is the method of arrays, and not the position of an item. -/
def Filters (a : Memory τ β) : Prop := a.index.get "filter" = none

instance (a : Memory τ β) : Decidable a.Filters := inferInstanceAs (Decidable (_ = _))

def delete (q : Query τ) : Option (Memory τ β) → Option (Memory τ β) × Deleted
  | none => (none, if q.Empty then .purged else .count 0)
  | some a =>
    if q.Empty then (none, .purged)
    else if ¬ a.Filters ∧ ¬ q.toCriteria.Empty then (some { a with isArray := true }, .raised)
    else
      let items := survivors q a.items
      let count := a.items.length - items.length
      -- the metatable stays where nothing is written
      if count = 0 then (some { a with isArray := true }, .count 0)
      else (some { items := items, index := reindex items, isArray := false }, .count count)

end Memory

end Prosody.Archive
