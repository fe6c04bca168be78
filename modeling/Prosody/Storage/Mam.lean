import Prosody.Library.Paging
import Prosody.Storage.Drivers

/-! # Queries to archives

The query handlers of `plugins/mod_mam/mod_mam.lua` and `plugins/mod_muc_mam.lua` over the internal
driver, and clients that page through a whole archive. The criteria of the form are taken as parsed,
and messages as the driver returns them. -/

namespace Prosody.Archive.Mam

open Paging (View Follows Serves)
open Stores (clean map_present position_spec)

variable {τ β : Type*} [LinearOrder τ]

/-! ## The handlers -/

/-- The elements of a result set of `util.rsm` that the handlers look at. -/
structure Rsm where
  max : Option Nat
  before : Option String
  after : Option String

/-- What the parser of `before` returns. -/
inductive Before where
  | newest
  | item (id : String)

def Rsm.parseBefore (rsm : Rsm) : Option Before :=
  rsm.before.map fun text => if text = "" then .newest else .item text

def Before.id : Before → Option String
  | .newest => none
  | .item id => some id

structure Config where
  defaultMaxItems : Nat
  maxMaxItems : Nat

/-- The fields of the form. -/
structure Form (τ : Type*) where
  jid : Option String
  start : Option τ
  stop : Option τ

inductive Handler where
  | user
  | room

def Handler.criteria (h : Handler) (form : Form τ) : Criteria τ :=
  { key := none
    qwith := match h with
      | .user => form.jid
      | .room => some "message<groupchat"
    qstart := form.start
    qend := form.stop }

def Config.qmax (config : Config) (rsm : Option Rsm) : Nat :=
  min ((rsm.bind Rsm.max).getD config.defaultMaxItems) config.maxMaxItems

def Handler.limit (h : Handler) (qmax : Nat) : Nat :=
  match h with
  | .user => if qmax = 0 then 0 else qmax + 1
  | .room => qmax + 1

def Handler.query (h : Handler) (config : Config) (form : Form τ) (rsm : Option Rsm) : Query τ :=
  let before := rsm.bind Rsm.parseBefore
  { h.criteria form with
    before := before.bind Before.id
    after := rsm.bind Rsm.after
    limit := some (h.limit (config.qmax rsm))
    reverse := before.isSome
    truncate := none }

/-- The messages in the order in which they are sent, and the `fin` element. -/
structure Page (τ β : Type*) where
  results : List (Item τ β)
  first : Option String
  last : Option String
  complete : Bool
  count : Nat

/-- The loop over what the archive has found; the flag is `complete`. -/
def collect (qmax : Nat) : List (Item τ β) → List (Item τ β) → List (Item τ β) × Bool
  | results, [] => (results, true)
  | results, item :: data =>
    if qmax < results.length + 1 then (results, false) else collect qmax (results ++ [item]) data

def Handler.handle (h : Handler) (config : Config) (form : Form τ) (rsm : Option Rsm)
    (items : List (Item τ β)) : Page τ β :=
  let q := h.query config form rsm
  let (results, complete) := collect (config.qmax rsm) [] (Internal.find q items)
  let first := results.head?.bind Item.key
  let last := results.getLast?.bind Item.key
  let count := (Internal.select q items).length
  if q.reverse then
    { results := results.reverse, first := last, last := first, complete := complete, count := count }
  else { results := results, first := first, last := last, complete := complete, count := count }

/-! ## Clients -/

/-- The messages that are asked for, as they are to be delivered. -/
def Handler.matching (h : Handler) (form : Form τ) (items : List (Item τ β)) : List (Item τ β) :=
  (items.filter (h.criteria form).all).map clean

/-- An archive whose keys name its items. -/
structure Keyed (items : List (Item τ β)) : Prop where
  keyed : ∀ item ∈ items, item.key ≠ none
  nonempty : ∀ item ∈ items, item.key ≠ some ""
  nodup : (items.map Item.key).Nodup

/-! ## One page -/

variable {listed items : List (Item τ β)}

theorem Keyed.select (h : Keyed items) (q : Query τ) : Keyed (Internal.select q items) := by
  rw [Internal.select_eq]
  exact ⟨fun item hitem => h.keyed item (List.mem_filter.mp hitem).1,
    fun item hitem => h.nonempty item (List.mem_filter.mp hitem).1,
    (List.filter_sublist.map Item.key).nodup h.nodup⟩

omit [LinearOrder τ] in
theorem Keyed.reverse (h : Keyed items) : Keyed items.reverse :=
  ⟨fun item hitem => h.keyed item (List.mem_reverse.mp hitem),
    fun item hitem => h.nonempty item (List.mem_reverse.mp hitem), by
      rw [List.map_reverse]
      exact List.nodup_reverse.mpr h.nodup⟩

/-! ## All pages -/

section

variable (h : Handler) {config : Config} (form : Form τ) {size : Nat}

end

/-! ## A short archive -/

def line (key : String) (when : Nat) : Item Nat Unit :=
  { key := some key
    value := { attr := ∅, body := () }
    when := when
    withJid := some "message<groupchat" }

end Prosody.Archive.Mam
