import Mathlib.Data.PNat.Basic
import Prosody.Storage.Drivers
import Prosody.Util.Cache

/-! # The stores for the items of a node

`archive_itemstore` of `pubsub.lib.lua` on an archive of the internal driver, for nodes that persist
their items, and `util.cache` for the others, under `get_items` and `get_last_item` of
`util/pubsub.lua`. -/

namespace Prosody.Itemstores

open Prosody.Archive

/-! ## Items -/

inductive Child (β : Type*)
  | text (s : String)
  | tag (t : Stanza β)

/-- An item, with a payload among its children. -/
structure PubItem (β : Type*) where
  name : String
  attr : Table String String
  children : List (Child β)

def PubItem.tags {β : Type*} (item : PubItem β) : List (Stanza β) :=
  item.children.filterMap fun
    | .text _ => none
    | .tag t => some t

def xmlnsPubsub : String := "http://jabber.org/protocol/pubsub"

def createEncapsulatingItem {β : Type*} (id : String) (payload : Stanza β) : PubItem β :=
  { name := "item"
    attr := ((∅ : Table String String).set "id" (some id)).set "xmlns" (some xmlnsPubsub)
    children := [.tag payload] }

/-! ## What a service asks of a store -/

/-- What the methods of a store return that change nothing. An iterator may fail to end. -/
structure View (β : Type*) where
  get : String → Option (PubItem β)
  items : Option (List (String × PubItem β))
  head : Option (String × PubItem β)

/-- The ids in their order, and a table of items. -/
structure Items (β : Type*) where
  ids : List String
  byId : Table String (PubItem β)

/-- `get_items`, for one id or for all of them. -/
def getItems {β : Type*} (data : View β) (id : Option String) : Option (Items β) :=
  match id with
  | some id =>
    match data.get id with
    | none => some ⟨[], ∅⟩
    | some item => some ⟨[id], (∅ : Table String (PubItem β)).set id (some item)⟩
  | none => data.items.map fun items =>
    ⟨items.map Prod.fst, items.foldl (fun byId e => byId.set e.1 (some e.2)) ∅⟩

def getLastItem {β : Type*} (data : View β) : Option (String × PubItem β) := data.head

/-! ## The archive -/

structure ArchiveItemstore (τ β : Type*) where
  items : List (Item τ β)
  maxItems : ℕ

section

variable {τ β : Type*} [LinearOrder τ]

/-- Nothing but a key and a limit, or how many items to keep. -/
def findQuery (key : Option String) (limit : ℕ) : Query τ :=
  { key := key, qwith := none, qstart := none, qend := none, before := none, after := none
    limit := some limit, reverse := true, truncate := none }

def keyQuery (key : String) : Query τ :=
  { key := some key, qwith := none, qstart := none, qend := none, before := none, after := none
    limit := none, reverse := false, truncate := none }

def truncateQuery (truncate : ℕ) : Query τ :=
  { key := none, qwith := none, qstart := none, qend := none, before := none, after := none
    limit := none, reverse := false, truncate := some truncate }

/-- What the stores make of an item of the archive. The publisher is not put back. -/
def itemOf (e : Item τ β) : Option (String × PubItem β) :=
  e.key.map fun id => (id, createEncapsulatingItem id e.value)

namespace ArchiveItemstore

/-- `items`: newest first out of the archive, and reversed once more. -/
def listed (s : ArchiveItemstore τ β) : List (String × PubItem β) :=
  ((Internal.find (findQuery none s.maxItems) s.items).filterMap itemOf).reverse

def get (s : ArchiveItemstore τ β) (key : Option String) : Option (PubItem β) :=
  ((Internal.find (findQuery key 1) s.items).head?.bind itemOf).map Prod.snd

def head (s : ArchiveItemstore τ β) : Option (String × PubItem β) :=
  (s.get none).bind fun item => (item.attr.get "id").map fun id => (id, item)

def view (s : ArchiveItemstore τ β) : View β :=
  { get := fun id => s.get (some id), items := some s.listed, head := s.head }

def truncated (items : List (Item τ β)) (truncate : ℕ) : List (Item τ β) :=
  (Internal.delete (truncateQuery truncate) items).1

/-- An item without a payload is refused by `append`. -/
def set (dates : Internal.Dates τ) (s : ArchiveItemstore τ β) (key : String)
    (value : Option (PubItem β)) (now : τ) : ArchiveItemstore τ β :=
  let items := match value with
    | some value =>
      match value.tags.head? with
      | some payload =>
        Internal.append dates s.items (some key) key payload now (value.attr.get "publisher")
      | none => s.items
    | none => (Internal.delete (keyQuery key) s.items).1
  { s with items := truncated items s.maxItems }

def resize (s : ArchiveItemstore τ β) (size : ℕ) : ArchiveItemstore τ β :=
  { items := truncated s.items size, maxItems := size }

end ArchiveItemstore

/-! ## The cache -/

abbrev CacheItemstore (β : Type*) := UtilCache.Cache String (PubItem β)

def pairs (items : List (Option String × Option (PubItem β))) : List (String × PubItem β) :=
  items.filterMap fun e => e.1.bind fun id => e.2.map fun item => (id, item)

def cacheView (c : CacheItemstore β) : View β :=
  { get := UtilCache.get c
    items := (UtilCache.items c).map pairs
    head := (c.head.bind c.key).bind fun id => (c.head.bind c.value).map fun item => (id, item) }

/-! ## The same calls to both -/

/-- A size is positive, as the cache asserts. -/
inductive Call (τ β : Type*)
  | set (id : String) (item : Option (PubItem β)) (now : τ)
  | resize (size : ℕ+)

structure Stores (τ β : Type*) where
  archive : ArchiveItemstore τ β
  cache : CacheItemstore β

def step (dates : Internal.Dates τ) (s : Stores τ β) : Call τ β → Stores τ β
  | .set id item now =>
    { archive := s.archive.set dates id item now, cache := (UtilCache.set s.cache id item).2 }
  | .resize size =>
    { archive := s.archive.resize size
      cache := (UtilCache.resize s.cache (some ((size : ℕ) : ℚ))).2 }

/-- The stores of a new node. -/
def start (maxItems : ℕ+) : Stores τ β :=
  { archive := ⟨[], maxItems⟩, cache := UtilCache.empty maxItems .absent }

/-- Whether the items persist makes no difference to anyone who asks for them. -/
structure Agree (s : Stores τ β) : Prop where
  get : ∀ id, s.archive.view.get id = (cacheView s.cache).get id
  items : s.archive.view.items = (cacheView s.cache).items
  head : s.archive.view.head = (cacheView s.cache).head
  getItems : ∀ id, getItems s.archive.view id = getItems (cacheView s.cache) id
  getLastItem : getLastItem s.archive.view = getLastItem (cacheView s.cache)

theorem agree_iff {s : Stores τ β} : Agree s ↔ s.archive.view = cacheView s.cache := by
  constructor
  · intro h
    have hget : s.archive.view.get = (cacheView s.cache).get := funext h.get
    cases harchive : s.archive.view
    cases hcache : cacheView s.cache
    rw [harchive, hcache] at hget
    have hitems := h.items
    have hhead := h.head
    rw [harchive, hcache] at hitems hhead
    simp only at hget hitems hhead
    rw [hget, hitems, hhead]
  · intro h
    exact ⟨fun id => by rw [h], by rw [h], by rw [h], fun id => by rw [h], by rw [h]⟩

end

/-! ## What the archive shows -/

section

variable {τ β : Type*} [LinearOrder τ] {s : ArchiveItemstore τ β} {L : List (String × PubItem β)}
  {dates : Internal.Dates τ}

/-- A payload as it comes back from an archive. -/
def unstamp (value : Stanza β) : Stanza β :=
  { value with attr := (value.attr.set "stamp" none).set "stamp_legacy" none }

omit [LinearOrder τ] in
theorem unstamp_stamp (value : Stanza β) (now : τ) :
    unstamp (Internal.stamp dates value now) = unstamp value := by
  unfold unstamp Internal.stamp
  congr 1
  ext key : 1
  simp only [Table.get_set]
  split_ifs <;> rfl

/-- An entry of the archive as the store returns it. -/
def shown (e : Item τ β) : Option (String × PubItem β) :=
  itemOf { e with value := unstamp e.value }

/-- The entries of the archive, the newest in front. -/
def Shows (items : List (Item τ β)) (L : List (String × PubItem β)) : Prop :=
  items.reverse.map shown = L.map some

omit [LinearOrder τ] in
theorem shown_eq_some {e : Item τ β} {id : String} {item : PubItem β} :
    shown e = some (id, item) ↔
      e.key = some id ∧ item = createEncapsulatingItem id (unstamp e.value) := by
  unfold shown itemOf
  rw [Option.map_eq_some_iff]
  constructor
  · rintro ⟨key, hkey, heq⟩
    obtain ⟨rfl, rfl⟩ := Prod.mk.inj heq
    exact ⟨hkey, rfl⟩
  · rintro ⟨hkey, rfl⟩
    exact ⟨id, hkey, rfl⟩

variable {items : List (Item τ β)}

omit [LinearOrder τ] in
theorem Shows.form (h : Shows items L) {e : String × PubItem β}
    (he : e ∈ L) : ∃ payload, e.2 = createEncapsulatingItem e.1 (unstamp payload) := by
  have hmem : some e ∈ items.reverse.map shown := h ▸ List.mem_map_of_mem he
  obtain ⟨stored, -, hstored⟩ := List.mem_map.mp hmem
  exact ⟨stored.value, (shown_eq_some.mp hstored).2⟩

omit [LinearOrder τ] in
theorem itemOf_present {e : Item τ β} {entry : String × PubItem β} (h : shown e = some entry)
    (i : ℕ) : itemOf (Internal.present (e, i)) = some entry := by
  obtain ⟨hkey, hitem⟩ := shown_eq_some.mp h
  rw [← h]
  unfold Internal.present shown itemOf unstamp
  rw [hkey]
  rfl

omit [LinearOrder τ] in
/-- What `find` returns of entries in their order. -/
theorem filterMap_present (h : items.map shown = L.map some) (i : ℕ) :
    ((items.zipIdx i).map Internal.present).filterMap itemOf = L := by
  induction items generalizing L i with
  | nil =>
    rw [List.map_nil, eq_comm, List.map_eq_nil_iff] at h
    rw [h]
    rfl
  | cons e items ih =>
    cases L with
    | nil => cases h
    | cons entry L =>
      obtain ⟨hentry, hitems⟩ := List.cons.inj h
      rw [List.zipIdx_cons, List.map_cons, List.filterMap_cons, itemOf_present hentry,
        ih hitems]

theorem find_eq (key : Option String) (limit : ℕ) : Internal.find (findQuery key limit) items =
      (((filterBy key (fun key item => item.key = some key) items).reverse.take limit).zipIdx
        1).map Internal.present := by
  unfold Internal.find Internal.found Internal.arrange Internal.select findQuery
  simp only [filterBy, Option.elim_none, if_true, Nat.sub_zero, Nat.zero_add, List.drop_zero,
    List.length_reverse]
  split_ifs with hlimit
  · rfl
  · rw [List.take_of_length_le]
    rw [List.length_reverse]
    exact Nat.le_of_not_lt hlimit

theorem Shows.listed (h : Shows s.items L) (hlength : L.length ≤ s.maxItems) :
    s.listed = L.reverse := by
  have hlength' : s.items.reverse.length = L.length := by
    simpa using congrArg List.length h
  unfold ArchiveItemstore.listed
  rw [find_eq, filterBy, List.take_of_length_le (hlength'.trans_le hlength), filterMap_present h]

omit [LinearOrder τ] in
theorem map_filter_shown (h : items.map shown = L.map some) (p : Option String → Bool) :
    (items.filter fun e => p e.key).map shown = (L.filter fun e => p (some e.1)).map some := by
  induction items generalizing L with
  | nil =>
    rw [List.map_nil, eq_comm, List.map_eq_nil_iff] at h
    rw [h]
    rfl
  | cons e items ih =>
    cases L with
    | nil => cases h
    | cons entry L =>
      obtain ⟨hentry, hitems⟩ := List.cons.inj h
      obtain ⟨hkey, -⟩ := shown_eq_some.mp hentry
      rw [List.filter_cons, List.filter_cons, hkey]
      split_ifs with hp
      · rw [List.map_cons, List.map_cons, hentry, ih hitems]
      · exact ih hitems

omit [LinearOrder τ] in
theorem Shows.filter (h : Shows items L) (p : Option String → Bool) :
    Shows (items.filter fun e => p e.key) (L.filter fun e => p (some e.1)) := by
  unfold Shows
  rw [← List.filter_reverse]
  exact map_filter_shown h p

omit [LinearOrder τ] in
theorem Shows.drop (h : Shows items L) (n : ℕ) :
    Shows (items.drop (items.length - n)) (L.take n) := by
  have htake : (items.drop (items.length - n)).reverse = items.reverse.take n := by
    rw [List.reverse_drop]
    by_cases hn : n ≤ items.length
    · rw [Nat.sub_sub_self hn]
    · rw [List.take_of_length_le (by rw [List.length_reverse]; omega),
        List.take_of_length_le (by rw [List.length_reverse]; omega)]
  unfold Shows at h ⊢
  rw [htake, List.map_take, h, List.map_take]

theorem Shows.first (key : Option String)
    (h : Shows (filterBy key (fun key item => item.key = some key) items) L) :
    (Internal.find (findQuery key 1) items).head?.bind itemOf = L.head? := by
  rw [find_eq]
  unfold Shows at h
  revert h
  generalize (filterBy key (fun key item => item.key = some key) items).reverse = newest
  intro h
  cases newest with
  | nil =>
    rw [List.map_nil, eq_comm, List.map_eq_nil_iff] at h
    rw [h]
    rfl
  | cons e newest =>
    cases L with
    | nil => cases h
    | cons entry L => exact itemOf_present (List.cons.inj h).1 1

theorem Shows.get (h : Shows s.items L) (id : String) :
    s.get (some id) = (L.find? (·.1 = id)).map Prod.snd := by
  have hfilter := h.filter fun key => decide (key = some id)
  unfold ArchiveItemstore.get
  rw [Shows.first (some id) hfilter, List.head?_filter]
  simp only [Option.some.injEq]

theorem Shows.head (h : Shows s.items L) : s.head = L.head? := by
  have hget : s.get none = L.head?.map Prod.snd := by
    unfold ArchiveItemstore.get
    rw [Shows.first none h]
  unfold ArchiveItemstore.head
  rw [hget]
  cases hhead : L.head? with
  | none => rfl
  | some entry =>
    obtain ⟨payload, hform⟩ := h.form (List.mem_of_mem_head? hhead)
    obtain ⟨id, item⟩ := entry
    obtain rfl : item = createEncapsulatingItem id (unstamp payload) := hform
    have hid : (createEncapsulatingItem id (unstamp payload)).attr.get "id" = some id := by
      unfold createEncapsulatingItem
      rw [Table.get_set_of_ne _ (by decide), Table.get_set_self]
    simp only [Option.map_some, Option.bind_some, hid]

/-! ### What the operations do to it -/

theorem truncated_eq (items : List (Item τ β)) (n : ℕ) :
    ArchiveItemstore.truncated items n = items.drop (items.length - n) := by
  have hsurvivors : survivors (truncateQuery n) items = items.drop (items.length - n) := by
    unfold survivors truncateItems truncateQuery
    simp only [filterBy, Bool.false_eq_true, if_false]
    split_ifs with hn
    · rfl
    · rw [Nat.sub_eq_zero_of_le (Nat.le_of_not_lt hn), List.drop_zero]
  have hquery : ¬(truncateQuery n : Query τ).Empty := by
    rintro ⟨-, -, -, -, -, htruncate⟩
    cases htruncate
  unfold ArchiveItemstore.truncated Internal.delete
  rw [if_neg hquery, hsurvivors]
  dsimp only
  split_ifs with hcount
  · rw [List.length_drop] at hcount
    rw [show items.length - n = 0 by omega, List.drop_zero]
  · rfl

theorem delete_keyQuery (items : List (Item τ β)) (key : String) :
    (Internal.delete (keyQuery key) items).1 = items.filter fun e => e.key ≠ some key := by
  have hquery : ¬(keyQuery key : Query τ).Empty := by
    rintro ⟨⟨hkey, -⟩, -⟩
    cases hkey
  have hsurvivors : survivors (keyQuery key) items = items.filter fun e => e.key ≠ some key := rfl
  unfold Internal.delete
  rw [if_neg hquery, hsurvivors]
  dsimp only
  split_ifs with hcount
  · have hsub := List.filter_sublist (l := items) (p := fun e => decide (e.key ≠ some key))
    exact (hsub.eq_of_length_le (by omega)).symm
  · rfl

omit [LinearOrder τ] in
theorem Shows.without (h : Shows items L) (id : String) :
    Shows (items.filter fun e => e.key ≠ some id) (UtilCache.without id L) := by
  have hfilter := h.filter fun key => decide (key ≠ some id)
  unfold UtilCache.without
  simp only [ne_eq, Option.some.injEq] at hfilter ⊢
  exact hfilter

omit [LinearOrder τ] in
theorem Shows.append (h : Shows items L) (id : String)
    (payload : Stanza β) (now : τ) (publisher : Option String) :
    Shows (Internal.append dates items (some id) id payload now publisher)
      ((id, createEncapsulatingItem id (unstamp payload)) :: UtilCache.without id L) := by
  have hshown : shown ({ key := some id, value := Internal.stamp dates payload now
                         when := now, withJid := publisher } : Item τ β) =
      some (id, createEncapsulatingItem id (unstamp payload)) :=
    shown_eq_some.mpr ⟨rfl, by rw [unstamp_stamp]⟩
  have hwithout := h.without id
  unfold Shows Internal.append at *
  simp only [Option.getD_some]
  rw [List.reverse_append, List.map_append, hwithout, List.reverse_singleton, List.map_singleton,
    hshown]
  rfl

theorem Shows.set_some (h : Shows s.items L) (dates : Internal.Dates τ) (id : String)
    {item : PubItem β} {payload : Stanza β} (hpayload : item.tags.head? = some payload)
    (now : τ) :
    Shows (s.set dates id (some item) now).items
      (((id, createEncapsulatingItem id (unstamp payload)) :: UtilCache.without id L).take
        s.maxItems) := by
  unfold ArchiveItemstore.set
  dsimp only
  rw [hpayload, truncated_eq]
  exact (h.append id payload now (item.attr.get "publisher")).drop s.maxItems

theorem Shows.set_refused (h : Shows s.items L) (dates : Internal.Dates τ) (id : String)
    {item : PubItem β} (hpayload : item.tags.head? = none) (now : τ) :
    Shows (s.set dates id (some item) now).items (L.take s.maxItems) := by
  unfold ArchiveItemstore.set
  dsimp only
  rw [hpayload, truncated_eq]
  exact h.drop s.maxItems

theorem Shows.set_none (h : Shows s.items L) (dates : Internal.Dates τ) (id : String) (now : τ) :
    Shows (s.set dates id none now).items ((UtilCache.without id L).take s.maxItems) := by
  unfold ArchiveItemstore.set
  rw [delete_keyQuery]
  dsimp only
  rw [truncated_eq]
  exact (h.without id).drop s.maxItems

theorem Shows.resize (h : Shows s.items L) (size : ℕ) :
    Shows (s.resize size).items (L.take size) := by
  unfold ArchiveItemstore.resize
  dsimp only
  rw [truncated_eq]
  exact h.drop size

end

/-! ## What the cache shows -/

section

variable {β : Type*} {c : CacheItemstore β} {l : UtilCache.Lru String (PubItem β)}

/-- A store that is a list of entries, the newest in front. -/
def listView (entries : List (String × PubItem β)) : View β :=
  { get := fun id => (entries.find? (·.1 = id)).map Prod.snd
    items := some entries
    head := entries.head? }

theorem pairs_map (entries : List (String × PubItem β)) :
    pairs (entries.map fun e => (some e.1, some e.2)) = entries := by
  induction entries with
  | nil => rfl
  | cons e entries ih =>
    rw [List.map_cons]
    exact congrArg (e :: ·) ih

theorem cacheView_eq (h : UtilCache.Holds .absent c l) : cacheView c = listView l.entries := by
  have hreply := fun call => (UtilCache.simulates_lru .absent c l call h).1
  have hget : UtilCache.get c = fun id => (l.entries.find? (·.1 = id)).map Prod.snd :=
    funext fun id => UtilCache.Reply.value.inj (hreply (.get id))
  have hitems := UtilCache.Reply.items.inj (hreply .items)
  obtain ⟨hkey, hvalue⟩ := UtilCache.Reply.pair.inj (hreply .head)
  unfold cacheView listView
  rw [hget, hitems, hkey, hvalue, Option.map_some, pairs_map]
  congr 1
  cases l.entries.head? <;> rfl

theorem sound_of_holds (h : UtilCache.Holds .absent c l) : l.Sound := by
  obtain ⟨refs, hstands⟩ := h
  exact hstands.sound

end

/-! ## Both stores -/

section

variable {τ β : Type*} [LinearOrder τ] {dates : Internal.Dates τ} {s : Stores τ β}
  {l : UtilCache.Lru String (PubItem β)}

/-- An item as the archive gives it back: an id, one child, and that child without the attributes
that the archive uses for itself. -/
def Plain (id : String) (item : PubItem β) : Prop :=
  ∃ payload, item = createEncapsulatingItem id payload ∧ payload.attr.get "stamp" = none ∧
    payload.attr.get "stamp_legacy" = none

/-- Both stores hold the entries of the list. -/
structure Mirrors (s : Stores τ β) (l : UtilCache.Lru String (PubItem β)) : Prop where
  holds : UtilCache.Holds .absent s.cache l
  maxItems : s.archive.maxItems = l.size
  shows : Shows s.archive.items l.entries

theorem unstamp_eq_self {payload : Stanza β} (hstamp : payload.attr.get "stamp" = none)
    (hlegacy : payload.attr.get "stamp_legacy" = none) : unstamp payload = payload := by
  have hattr : (payload.attr.set "stamp" none).set "stamp_legacy" none = payload.attr := by
    ext key : 1
    simp only [Table.get_set]
    split_ifs with hkey hkey'
    · rw [hkey, hlegacy]
    · rw [hkey', hstamp]
    · rfl
  unfold unstamp
  rw [hattr]

variable {item : PubItem β}

variable {id : String}

theorem plain_iff : Plain id item ↔ ∃ payload, item.tags.head? = some payload ∧
      item = createEncapsulatingItem id (unstamp payload) := by
  constructor
  · rintro ⟨payload, rfl, hstamp, hlegacy⟩
    exact ⟨payload, rfl, by rw [unstamp_eq_self hstamp hlegacy]⟩
  · rintro ⟨payload, -, hitem⟩
    refine ⟨unstamp payload, hitem, ?_, ?_⟩
    · unfold unstamp
      rw [Table.get_set_of_ne _ (by decide), Table.get_set_self]
    · unfold unstamp
      rw [Table.get_set_self]

/-- The archive answers as the list does, but goes through its items the other way round. -/
theorem Mirrors.view_eq (h : Mirrors s l) :
    s.archive.view = { listView l.entries with items := some l.entries.reverse } := by
  have hlength : l.entries.length ≤ s.archive.maxItems := by
    rw [h.maxItems]
    exact (sound_of_holds h.holds).length_le
  unfold ArchiveItemstore.view listView
  rw [h.shows.listed hlength, h.shows.head]
  congr 1
  exact funext h.shows.get

omit [LinearOrder τ] in
theorem mirrors_start (maxItems : ℕ+) :
    Mirrors (start maxItems : Stores τ β) ⟨maxItems, [], 0⟩ :=
  ⟨UtilCache.holds_empty .absent maxItems.pos, rfl, rfl⟩

theorem Mirrors.set_some (h : Mirrors s l) (dates : Internal.Dates τ)
    (hplain : Plain id item) (now : τ) : Mirrors (step dates s (.set id (some item) now))
      { l with entries := ((id, item) :: UtilCache.without id l.entries).take l.size } := by
  obtain ⟨payload, hpayload, hitem⟩ := plain_iff.mp hplain
  have hcache := (UtilCache.simulates_lru .absent _ _ (.set id (some item)) h.holds).2
  rw [UtilCache.Lru.step, UtilCache.Lru.set_absent (sound_of_holds h.holds)] at hcache
  have harchive := h.shows.set_some dates id hpayload now
  rw [← hitem, h.maxItems] at harchive
  exact ⟨hcache, h.maxItems, harchive⟩

theorem Mirrors.set_none (h : Mirrors s l) (id : String) (now : τ) :
    Mirrors (step dates s (.set id none now))
      { l with entries := UtilCache.without id l.entries } := by
  have hcache := (UtilCache.simulates_lru .absent _ _ (.set id none) h.holds).2
  have harchive := h.shows.set_none dates id now
  have hlength : (UtilCache.without id l.entries).length ≤ s.archive.maxItems := by
    rw [h.maxItems]
    exact (List.length_filter_le _ _).trans (sound_of_holds h.holds).length_le
  rw [List.take_of_length_le hlength] at harchive
  exact ⟨hcache, h.maxItems, harchive⟩

theorem Mirrors.resize (h : Mirrors s l) (size : ℕ+) :
    Mirrors (step dates s (.resize size))
      { l with size := size, entries := l.entries.take size } := by
  have hcache := (UtilCache.simulates_lru .absent _ _ (.resize (some ((size : ℕ) : ℚ))) h.holds).2
  rw [UtilCache.Lru.step, UtilCache.toSize_natCast size.pos] at hcache
  dsimp only at hcache
  rw [UtilCache.Lru.shrink_absent (Nat.le_add_left _ _)] at hcache
  exact ⟨hcache, rfl, h.shows.resize size⟩

/-! ## When nobody sees a difference -/

/-- The item is plain, and no other one will be held beside it. -/
def Fits (s : Stores τ β) : Call τ β → Prop
  | .set id (some item) _ =>
    Plain id item ∧ (s.archive.maxItems = 1 ∨ ∀ k ≠ id, UtilCache.get s.cache k = none)
  | .set _ none _ => True
  | .resize _ => True

/-- Both stores hold the same item, or none. -/
def Single (s : Stores τ β) : Prop := ∃ l, Mirrors s l ∧ l.entries.length ≤ 1

theorem Mirrors.agree_iff (h : Mirrors s l) : Agree s ↔ l.entries.reverse = l.entries := by
  rw [Itemstores.agree_iff, h.view_eq, cacheView_eq h.holds]
  constructor
  · intro heq
    exact Option.some.inj (congrArg View.items heq)
  · intro heq
    rw [heq]
    rfl

theorem Single.agree (h : Single s) : Agree s := by
  obtain ⟨l, hl, hlength⟩ := h
  rw [hl.agree_iff]
  cases hentries : l.entries with
  | nil => rfl
  | cons e entries =>
    rw [hentries, List.length_cons] at hlength
    rw [List.eq_nil_of_length_eq_zero (l := entries) (by omega)]
    rfl

omit [LinearOrder τ] in
theorem Mirrors.get_cache (h : Mirrors s l) (id : String) :
    UtilCache.get s.cache id = (l.entries.find? (·.1 = id)).map Prod.snd :=
  congrFun (congrArg View.get (cacheView_eq h.holds)) id

omit [LinearOrder τ] in
theorem Mirrors.get_cache_eq_none (h : Mirrors s l) (id : String) :
    UtilCache.get s.cache id = none ↔ ∀ e ∈ l.entries, e.1 ≠ id := by
  rw [h.get_cache, Option.map_eq_none_iff, List.find?_eq_none]
  simp only [decide_eq_true_eq, ne_eq]

omit [LinearOrder τ] in
theorem Mirrors.without_eq_nil_iff (h : Mirrors s l) (id : String) :
    UtilCache.without id l.entries = [] ↔ ∀ k ≠ id, UtilCache.get s.cache k = none := by
  simp only [UtilCache.without, List.filter_eq_nil_iff, h.get_cache_eq_none]
  constructor
  · intro hall k hk e he heq
    have hid := hall e he
    rw [decide_eq_true_eq, not_not] at hid
    exact hk (heq ▸ hid)
  · intro hall e he
    rw [decide_eq_true_eq, not_not]
    by_contra hne
    exact hall e.1 hne e he rfl

theorem Single.kept (h : Single s) (hfits : Fits s call) : Single (step dates s call) := by
  obtain ⟨l, hl, hlength⟩ := h
  cases call with
  | set id item now =>
    cases item with
    | some item =>
      obtain ⟨hplain, hroom⟩ := hfits
      refine ⟨_, hl.set_some dates hplain now, ?_⟩
      dsimp only
      obtain hsize | hothers := hroom
      · rw [← hl.maxItems, hsize]
        exact List.length_take_le 1 _
      · rw [(hl.without_eq_nil_iff id).mpr hothers]
        exact List.length_take_le' _ _
    | none =>
      exact ⟨_, hl.set_none id now, (List.length_filter_le _ _).trans hlength⟩
  | resize size =>
    exact ⟨_, hl.resize size, (List.length_take_le' _ _).trans hlength⟩

omit [LinearOrder τ] in
theorem get_cache_set (h : Mirrors s l) (id : String) (item : PubItem β) :
    UtilCache.get (UtilCache.set s.cache id (some item)).2 id = some item := by
  have hsound := sound_of_holds h.holds
  have hcache := (UtilCache.simulates_lru .absent _ _ (.set id (some item)) h.holds).2
  rw [UtilCache.Lru.step, UtilCache.Lru.set_absent hsound] at hcache
  obtain ⟨n, hn⟩ : ∃ n, l.size = n + 1 := ⟨l.size - 1, by have := hsound.size_pos; omega⟩
  have hget := congrFun (congrArg View.get (cacheView_eq hcache)) id
  refine hget.trans ?_
  unfold listView
  dsimp only
  rw [hn, List.take_succ_cons, List.find?_cons_of_pos (by simp), Option.map_some]

omit [LinearOrder τ] in
/-- Two items look different from the other end. -/
theorem one_of_palindrome {entries : List (String × PubItem β)}
    {size : ℕ} (hsize : 0 < size) (hlength : (UtilCache.without id entries).length ≤ 1)
    (h : (((id, item) :: UtilCache.without id entries).take size).reverse =
      ((id, item) :: UtilCache.without id entries).take size) :
    size = 1 ∨ UtilCache.without id entries = [] := by
  cases hwithout : UtilCache.without id entries with
  | nil => exact .inr rfl
  | cons e rest =>
    rw [hwithout] at h hlength
    obtain rfl : rest = [] := List.eq_nil_of_length_eq_zero (by simpa using hlength)
    refine .inl ?_
    by_contra hone
    rw [List.take_of_length_le (by simp; omega)] at h
    have he : e = (id, item) := (List.cons.inj h).1
    have hmem : e ∈ UtilCache.without id entries := hwithout ▸ List.mem_singleton_self e
    have hne : e.1 ≠ id := of_decide_eq_true (List.mem_filter.mp hmem).2
    exact hne (congrArg Prod.fst he)

/-- An item that is not plain comes back changed, or not at all. -/
theorem plain_of_agree {now : τ} (h : Mirrors s l)
    (hagree : Agree (step dates s (.set id (some item) now))) : Plain id item := by
  have hsound := sound_of_holds h.holds
  have hget := hagree.get id
  simp only [step, ArchiveItemstore.view, cacheView, get_cache_set h] at hget
  cases hpayload : item.tags.head? with
  | none =>
    have hshows := h.shows.set_refused dates id hpayload now
    rw [hshows.get] at hget
    obtain ⟨e, he, rfl⟩ := Option.map_eq_some_iff.mp hget
    obtain ⟨payload, hform⟩ := hshows.form (List.mem_of_find?_eq_some he)
    rw [hform] at hpayload
    cases hpayload
  | some payload =>
    have hshows := h.shows.set_some dates id hpayload now
    rw [hshows.get] at hget
    obtain ⟨n, hn⟩ : ∃ n, s.archive.maxItems = n + 1 :=
      ⟨l.size - 1, by have := hsound.size_pos; have := h.maxItems; omega⟩
    rw [hn, List.take_succ_cons, List.find?_cons_of_pos (by simp), Option.map_some] at hget
    exact plain_iff.mpr ⟨payload, hpayload, (Option.some.inj hget).symm⟩

theorem Single.fits_of_agree (h : Single s) (hagree : Agree (step dates s call)) : Fits s call := by
  obtain ⟨l, hl, hlength⟩ := h
  cases call with
  | set id item now =>
    cases item with
    | some item =>
      have hplain := plain_of_agree hl hagree
      have hreverse := (hl.set_some dates hplain now).agree_iff.mp hagree
      have hothers : (UtilCache.without id l.entries).length ≤ 1 :=
        (List.length_filter_le _ _).trans hlength
      refine ⟨hplain, ?_⟩
      rw [← hl.without_eq_nil_iff, hl.maxItems]
      exact one_of_palindrome (sound_of_holds hl.holds).size_pos hothers hreverse
    | none => trivial
  | resize size => trivial

/-- Nobody sees a difference between the two stores exactly as long as all items are plain and no
two of them are held at a time. -/
theorem stores_agree_iff (dates : Internal.Dates τ) (maxItems : ℕ+) (calls : List (Call τ β)) :
    Machine.Always (step dates) Agree (start maxItems) calls ↔
      Machine.Guarded (step dates) Fits (start maxItems) calls :=
  Machine.always_iff_guarded (P := Single) (fun _ => Single.agree) (fun _ _ => Single.kept)
    (fun _ _ => Single.fits_of_agree) ⟨_, mirrors_start maxItems, Nat.zero_le 1⟩ calls

end

/-! ### Two items -/

def decimalDates : Internal.Dates ℕ := ⟨toString, toString⟩

def note (id : String) : PubItem String := createEncapsulatingItem id ⟨∅, id⟩

def twoNotes : List (Call ℕ String) := [.set "1" (some (note "1")) 1, .set "2" (some (note "2")) 2]

/-- The cache goes through them from the newest to the oldest, and the archive back again. -/
theorem two_notes_in_two_orders :
    ¬Machine.Always (step decimalDates) Agree (start 2) twoNotes := by
  intro h
  have hplain : ∀ id, Plain id (note id) := fun id =>
    ⟨_, rfl, Table.get_empty "stamp", Table.get_empty "stamp_legacy"⟩
  have hfirst := (mirrors_start 2).set_some decimalDates
    (hplain "1") 1
  have hsecond := hfirst.set_some decimalDates (hplain "2") 2
  have hagree := Machine.always_iff.mp h twoNotes List.prefix_rfl
  have hreverse := congrArg (List.map Prod.fst) (hsecond.agree_iff.mp hagree)
  revert hreverse
  decide

end Prosody.Itemstores
