import Mathlib
import Prosody.Library.Table

/-! # Key-value and map stores in a database

The table `prosody` of `plugins/mod_storage_sql.lua` for one host, with the two stores that share its
rows. A transaction that raises an error has no value. Whatever is encoded as JSON is decoded as
what it was. -/

namespace Prosody.Sql

inductive Key where
  | name (s : String)
  /-- `false` -/
  | no
  deriving DecidableEq

/-- The key has a row of its own. -/
def Key.plain : Key → Bool
  | .name s => s ≠ ""
  | .no => false

/-- The column `key` of the row that a key is found in. -/
def Key.column : Key → String
  | .name s => s
  | .no => ""

/-- A value, where `τ` stands for the tables of Lua. -/
inductive Value (τ : Type*) where
  | string (s : String)
  | boolean (b : Bool)
  | number (n : Int)
  | table (t : τ)

def Value.truthy {τ : Type*} : Value τ → Bool
  | .boolean b => b
  | _ => true

/-- What is used of Lua and of `util.json`. -/
structure Codec (τ : Type*) where
  make : Table Key (Value τ) → τ
  entries : τ → Table Key (Value τ)
  entries_make : ∀ t, entries (make t) = t
  tostring : Int → String
  tonumber : String → Option Int
  tonumber_tostring : ∀ n, tonumber (tostring n) = some n
  encode : τ → String
  decode : String → Option τ
  decode_encode : ∀ t, decode (encode t) = some t

inductive RowType where
  | string
  | boolean
  | number
  | json
  deriving DecidableEq

structure Row where
  user : String
  store : String
  key : String
  type : RowType
  value : String
  deriving DecidableEq

/-- The rows, whose order does not matter. -/
abbrev Db := List Row

/-- The order in which `SELECT` returns rows. -/
structure SelectOrder where
  rows : List Row → List Row
  perm : ∀ l, (rows l).Perm l

variable {τ : Type*} (codec : Codec τ)

def serialize : Value τ → RowType × String
  | .string s => (.string, s)
  | .boolean b => (.boolean, if b then "true" else "false")
  | .number n => (.number, codec.tostring n)
  | .table t => (.json, codec.encode t)

def deserialize : RowType → String → Option (Value τ)
  | .string, s => some (.string s)
  | .boolean, s =>
    if s = "true" then some (.boolean true)
    else if s = "false" then some (.boolean false)
    else none
  | .number, s => (codec.tonumber s).map .number
  | .json, s => (codec.decode s).map .table

/-- `user or ""` -/
def account (user : Option String) : String := user.getD ""

def rowsOf (db : Db) (user store : String) : List Row :=
  db.filter fun row => row.user = user ∧ row.store = store

def cell (db : Db) (user store key : String) : List Row :=
  db.filter fun row => row.user = user ∧ row.store = store ∧ row.key = key

def deleteCell (db : Db) (user store key : String) : Db :=
  db.filter fun row => ¬ (row.user = user ∧ row.store = store ∧ row.key = key)

def makeRow (user store key : String) (value : Value τ) : Row :=
  ⟨user, store, key, (serialize codec value).1, (serialize codec value).2⟩

/-! ## The key-value store -/

/-- The loop that copies the pairs of a table. -/
def copyPairs (order : KeyOrder Key) (result source : Table Key (Value τ)) : Table Key (Value τ) :=
  result.setEach (order.keys source.keys) source.get

/-- One round of the loop of `keyval_store_get`. -/
def readRow (order : KeyOrder Key) (result : Table Key (Value τ)) (row : Row) :
    Option (Table Key (Value τ)) :=
  (deserialize codec row.type row.value).map fun v =>
    if v.truthy then
      if row.key ≠ "" then result.set (.name row.key) (some v)
      else match v with
        | .table t => copyPairs order result (codec.entries t)
        | _ => result
    else result

def keyvalGet (select : SelectOrder) (order : KeyOrder Key) (db : Db) (user : Option String)
    (store : String) : Option (Option (Table Key (Value τ))) :=
  let rows := select.rows (rowsOf db (account user) store)
  (rows.foldlM (readRow codec order) ∅).map fun result => if rows = [] then none else some result

/-- One round of the loop of `keyval_store_set`. -/
def insertPair (user store : String) (data : Table Key (Value τ))
    (acc : Db × Table Key (Value τ)) (key : Key) : Db × Table Key (Value τ) :=
  match data.get key with
  | none => acc
  | some value =>
    if key.plain then (makeRow codec user store key.column value :: acc.1, acc.2)
    else (acc.1, acc.2.set key (some value))

def keyvalSet (order : KeyOrder Key) (db : Db) (user : Option String) (store : String)
    (data : Option (Table Key (Value τ))) : Db :=
  let db := db.filter fun row => ¬ (row.user = account user ∧ row.store = store)
  match data with
  | none => db
  | some data =>
    let (db, extradata) := (order.keys data.keys).foldl
      (insertPair codec (account user) store data) (db, ∅)
    if extradata.keys = ∅ then db
    else makeRow codec (account user) store "" (.table (codec.make extradata)) :: db

/-! ## The map store -/

def mapGet (select : SelectOrder) (db : Db) (user : Option String) (store : String) (key : Key) :
    Option (Option (Value τ)) :=
  match (select.rows (cell db (account user) store key.column)).head? with
  | none => some none
  | some row =>
    (deserialize codec row.type row.value).bind fun data =>
      if key.plain then some (some data)
      else match data with
        -- `data and data[key] or nil`
        | .table t => some (((codec.entries t).get key).filter Value.truthy)
        | .boolean false => some none
        | _ => none

/-- The pairs that are folded into one row. -/
def readExtradata (select : SelectOrder) (db : Db) (user store : String) :
    Option (Table Key (Value τ)) :=
  match (select.rows (cell db user store "")).head? with
  | none => some ∅
  | some row =>
    match deserialize codec row.type row.value with
    | some (.table t) => some (codec.entries t)
    | _ => none

/-- One round of the loop of `set_keys`, where nothing stands for `remove`. -/
def setKey (select : SelectOrder) (db : Db) (user store : String) (key : Key)
    (data : Option (Value τ)) : Option Db :=
  if key.plain then
    let db := deleteCell db user store key.column
    match data with
    | none => some db
    | some value => some (makeRow codec user store key.column value :: db)
  else
    (readExtradata codec select db user store).map fun extradata =>
      let extradata := extradata.set key (some (data.getD (.table (codec.make ∅))))
      makeRow codec user store "" (.table (codec.make extradata)) :: deleteCell db user store ""

def mapSetKeys (select : SelectOrder) (order : KeyOrder Key) (db : Db) (user : Option String)
    (store : String) (keydatas : Table Key (Option (Value τ))) : Option Db :=
  (order.keys keydatas.keys).foldlM
    (fun db key => setKey codec select db (account user) store key ((keydatas.get key).getD none)) db

def mapSet (select : SelectOrder) (order : KeyOrder Key) (db : Db) (user : Option String)
    (store : String) (key : Key) (data : Option (Value τ)) : Option Db :=
  mapSetKeys codec select order db user store ((∅ : Table Key _).set key (some data))

/-! ## Runs -/

inductive Op (τ : Type*) where
  | keyvalSet (data : Option (Table Key (Value τ)))
  | mapSet (key : Key) (data : Option (Value τ))
  | mapSetKeys (keydatas : Table Key (Option (Value τ)))

/-- An operation, and the orders in which rows and pairs are enumerated meanwhile. -/
structure Call (τ : Type*) where
  user : Option String
  store : String
  select : SelectOrder
  order : KeyOrder Key
  op : Op τ

def step (db : Db) (c : Call τ) : Option Db :=
  match c.op with
  | .keyvalSet data => some (keyvalSet codec c.order db c.user c.store data)
  | .mapSet key data => mapSet codec c.select c.order db c.user c.store key data
  | .mapSetKeys keydatas => mapSetKeys codec c.select c.order db c.user c.store keydatas

def run (calls : List (Call τ)) : Option Db := calls.foldlM (step codec) []

/-! ## An ordinary table -/

/-- What an operation does to an ordinary table. -/
def Op.apply (t : Key → Option (Value τ)) : Op τ → Key → Option (Value τ)
  | .keyvalSet data => (data.getD ∅).get
  | .mapSet key data => fun k => if k = key then data else t k
  | .mapSetKeys keydatas => fun k => (keydatas.get k).getD (t k)

/-- The operations of a run on one store of one user. -/
def opsOf (user : Option String) (store : String) (calls : List (Call τ)) : List (Op τ) :=
  (calls.filter fun c => account c.user = account user ∧ c.store = store).map Call.op

/-- An ordinary table after a run. -/
def tableOf (ops : List (Op τ)) : Key → Option (Value τ) := ops.foldl Op.apply fun _ => none

/-- Both stores have what an ordinary table has; no table is an empty one. -/
def Lawful (calls : List (Call τ)) (user : Option String) (store : String)
    (select : SelectOrder) (order : KeyOrder Key) : Prop :=
  ∃ db, run codec calls = some db ∧
    (∃ result, keyvalGet codec select order db user store = some result ∧
      (result.getD ∅).get = tableOf (opsOf user store calls)) ∧
    ∀ key, mapGet codec select db user store key = some (tableOf (opsOf user store calls) key)

def Op.touches (key : Key) : Op τ → Bool
  | .keyvalSet _ => true
  | .mapSet k _ => k = key
  | .mapSetKeys keydatas => key ∈ keydatas.keys

def Op.removes (key : Key) : Op τ → Bool
  | .mapSet k none => k = key
  | .mapSetKeys keydatas => (keydatas.get key).any Option.isNone
  | _ => false

/-- The key has no row of its own, and the last operation on it was to remove it from the map. -/
def Stale (ops : List (Op τ)) (key : Key) : Prop :=
  key.plain = false ∧ ∃ op, (ops.filter (Op.touches key)).getLast? = some op ∧ op.removes key = true

/-! ## The rows of a table -/

variable {codec}

theorem deserialize_serialize (v : Value τ) :
    deserialize codec (serialize codec v).1 (serialize codec v).2 = some v := by
  cases v with
  | string s => rfl
  | boolean b => cases b <;> rfl
  | number n => simp [serialize, deserialize, codec.tonumber_tostring]
  | table t => simp [serialize, deserialize, codec.decode_encode]

/-- The part of a table that is folded into one row. -/
def folded (t : Table Key (Value τ)) : Table Key (Value τ) := t.filter fun key _ => !key.plain

variable (codec) in
/-- The rows that a table is kept in. -/
def image (user store : String) (t : Table Key (Value τ)) (key : String) : List Row :=
  if key = "" then
    if (folded t).keys = ∅ then []
    else [makeRow codec user store "" (.table (codec.make (folded t)))]
  else (t.get (.name key)).toList.map (makeRow codec user store key)

variable (codec) in
/-- The database has the table for the store of the user. -/
def Holds (db : Db) (user store : String) (t : Table Key (Value τ)) : Prop :=
  ∀ key, cell db user store key = image codec user store t key

theorem cell_cons (row : Row) (db : Db) (user store key : String) :
    cell (row :: db) user store key =
      if row.user = user ∧ row.store = store ∧ row.key = key then row :: cell db user store key
      else cell db user store key := by
  unfold cell
  rw [List.filter_cons]
  simp only [decide_eq_true_iff]

theorem cell_deleteCell (db : Db) (user store key user' store' key' : String) :
    cell (deleteCell db user store key) user' store' key' =
      if user' = user ∧ store' = store ∧ key' = key then [] else cell db user' store' key' := by
  unfold cell deleteCell
  rw [List.filter_filter]
  split
  · rename_i heq
    obtain ⟨rfl, rfl, rfl⟩ := heq
    refine List.filter_eq_nil_iff.mpr fun row _ => ?_
    simp
  · rename_i hne
    refine List.filter_congr fun row _ => ?_
    by_cases hrow : row.user = user' ∧ row.store = store' ∧ row.key = key'
    · obtain ⟨rfl, rfl, rfl⟩ := hrow
      simp [hne]
    · simp [hrow]

theorem SelectOrder.head?_singleton (select : SelectOrder) (row : Row) :
    (select.rows [row]).head? = some row := by
  rw [List.perm_singleton.mp (select.perm [row])]
  rfl

theorem SelectOrder.head?_nil (select : SelectOrder) : (select.rows []).head? = none := by
  rw [(select.perm []).eq_nil]
  rfl

variable {key : Key}

theorem Key.plain_iff : key.plain = true ↔ ∃ s, key = .name s ∧ s ≠ "" := by
  cases key with
  | name s => simp [Key.plain]
  | no => simp [Key.plain]

theorem Key.column_of_not_plain (h : key.plain = false) : key.column = "" := by
  cases key with
  | name s => simpa [Key.plain, Key.column] using h
  | no => rfl

theorem get_folded (t : Table Key (Value τ)) (key : Key) :
    (folded t).get key = if key.plain then none else t.get key := by
  unfold folded
  rw [Table.get_filter]
  cases key.plain <;> cases t.get key <;> rfl

theorem folded_set_plain (t : Table Key (Value τ)) (h : key.plain = true)
    (v : Option (Value τ)) : folded (t.set key v) = folded t := by
  ext k : 1
  rw [get_folded, get_folded]
  split
  · rfl
  · rename_i hk
    rw [Table.get_set_of_ne]
    rintro rfl
    exact hk h

theorem folded_set (t : Table Key (Value τ)) (h : key.plain = false)
    (v : Option (Value τ)) : folded (t.set key v) = (folded t).set key v := by
  ext k : 1
  rw [get_folded, Table.get_set, Table.get_set, get_folded]
  by_cases hk : k = key
  · subst hk
    simp [h]
  · simp [hk]

theorem keys_set_some_ne_empty (t : Table Key (Value τ)) (key : Key) (v : Value τ) :
    (t.set key (some v)).keys ≠ ∅ := by
  intro hempty
  have hnone := Table.get_of_keys_eq_empty hempty key
  rw [Table.get_set_self] at hnone
  cases hnone

theorem image_plain (user store : String) (t : Table Key (Value τ)) {s : String} (hs : s ≠ "") :
    image codec user store t s = (t.get (.name s)).toList.map (makeRow codec user store s) :=
  if_neg hs

theorem image_set_plain (user store : String) (t : Table Key (Value τ))
    (h : key.plain = true) (v : Option (Value τ)) (k : String) :
    image codec user store (t.set key v) k =
      if k = key.column then v.toList.map (makeRow codec user store k)
      else image codec user store t k := by
  obtain ⟨s, rfl, hs⟩ := Key.plain_iff.mp h
  unfold image
  rw [folded_set_plain t h, Table.get_set]
  change _ = if k = s then _ else _
  by_cases hk : k = s
  · subst hk
    simp [hs]
  · simp [hk]

theorem image_set_folded (user store : String) (t : Table Key (Value τ))
    (h : key.plain = false) (v : Value τ) (k : String) :
    image codec user store (t.set key (some v)) k = if k = "" then
        [makeRow codec user store "" (.table (codec.make ((folded t).set key (some v))))]
      else image codec user store t k := by
  unfold image
  rw [folded_set t h, if_neg (keys_set_some_ne_empty _ _ _), Table.get_set]
  split
  · rfl
  · rename_i hk
    rw [if_neg]
    rintro rfl
    simp [Key.plain, hk] at h

/-- The rows of everybody else. -/
def Frames (db db' : Db) (user store : String) : Prop :=
  ∀ user' store' key, ¬ (user' = user ∧ store' = store) →
    cell db' user' store' key = cell db user' store' key

variable (codec) in
/-- What a removed key leaves behind. -/
def settled (key : Key) (data : Option (Value τ)) : Option (Value τ) :=
  if key.plain then data else some (data.getD (.table (codec.make ∅)))

variable {db : Db} {store user : String} {t : Table Key (Value τ)}

theorem Holds.readExtradata (select : SelectOrder) (h : Holds codec db user store t) :
    Sql.readExtradata codec select db user store = some (folded t) := by
  unfold Sql.readExtradata
  rw [h "", image, if_pos rfl]
  by_cases hempty : (folded t).keys = ∅
  · rw [if_pos hempty, select.head?_nil]
    refine congrArg some ?_
    ext k : 1
    rw [Table.get_of_keys_eq_empty hempty, Table.get_empty]
  · rw [if_neg hempty, select.head?_singleton]
    dsimp only
    rw [makeRow, deserialize_serialize]
    dsimp only
    rw [codec.entries_make]

theorem setKey_spec (select : SelectOrder)
    (h : Holds codec db user store t) (key : Key) (data : Option (Value τ)) :
    ∃ db', setKey codec select db user store key data = some db' ∧
      Holds codec db' user store (t.set key (settled codec key data)) ∧
      Frames db db' user store := by
  have hdelete : ∀ column k, cell (deleteCell db user store column) user store k =
      if k = column then [] else image codec user store t k := by
    intro column k
    rw [cell_deleteCell, h k]
    simp
  have hframe : ∀ column, Frames db (deleteCell db user store column) user store := by
    intro column user' store' k hne
    rw [cell_deleteCell, if_neg fun heq => hne ⟨heq.1, heq.2.1⟩]
  have hinsert : ∀ column v, Frames db
      (makeRow codec user store column v :: deleteCell db user store column) user store := by
    intro column v user' store' k hne
    rw [cell_cons, if_neg fun heq => hne ⟨heq.1.symm, heq.2.1.symm⟩]
    exact hframe column user' store' k hne
  have hcell : ∀ column v k,
      cell (makeRow codec user store column v :: deleteCell db user store column) user store k =
        if k = column then [makeRow codec user store column v]
        else image codec user store t k := by
    intro column v k
    rw [cell_cons, hdelete]
    by_cases hk : k = column
    · subst hk
      simp [makeRow]
    · simp [makeRow, hk, Ne.symm hk]
  unfold setKey
  cases hplain : key.plain with
  | true =>
    have hset : ∀ v, settled codec key v = v := fun v => if_pos hplain
    simp only [if_true]
    cases data with
    | none =>
      refine ⟨_, rfl, fun k => ?_, hframe _⟩
      rw [hset, image_set_plain user store t hplain, hdelete]
      rfl
    | some v =>
      refine ⟨_, rfl, fun k => ?_, hinsert _ v⟩
      rw [hset, image_set_plain user store t hplain, hcell]
      split
      · rename_i hk
        rw [hk]
        rfl
      · rfl
  | false =>
    have hset : settled codec key data = some (data.getD (.table (codec.make ∅))) := by
      rw [settled, hplain]
      rfl
    simp only [Bool.false_eq_true, if_false, h.readExtradata select, Option.map_some]
    refine ⟨_, rfl, fun k => ?_, hinsert _ _⟩
    rw [hset, image_set_folded user store t hplain, hcell]

theorem Frames.refl (db : Db) (user store : String) : Frames db db user store :=
  fun _ _ _ _ => rfl

theorem Frames.trans {db' db'' : Db} (h : Frames db db' user store)
    (h' : Frames db' db'' user store) : Frames db db'' user store :=
  fun user' store' key hne => (h' user' store' key hne).trans (h user' store' key hne)

theorem mapSetKeys_loop (select : SelectOrder) (data : Key → Option (Value τ)) (keys : List Key)
    (h : Holds codec db user store t) :
    ∃ db', keys.foldlM (fun db key => setKey codec select db user store key (data key)) db =
        some db' ∧
      Holds codec db' user store (t.setEach keys fun key => settled codec key (data key)) ∧
      Frames db db' user store := by
  induction keys generalizing db t with
  | nil => exact ⟨db, rfl, h, Frames.refl db user store⟩
  | cons key keys ih =>
    obtain ⟨db', hdb', hholds, hframes⟩ := setKey_spec select h key (data key)
    obtain ⟨db'', hdb'', hlast, hframes'⟩ := ih hholds
    refine ⟨db'', ?_, hlast, hframes.trans hframes'⟩
    rw [List.foldlM_cons, hdb']
    exact hdb''

variable (codec) in
/-- What the loop of `keyval_store_set` has done so far. -/
structure Inserted (user store : String) (t : Table Key (Value τ))
    (acc : Db × Table Key (Value τ)) : Prop where
  rows : ∀ key, key ≠ "" → cell acc.1 user store key = image codec user store t key
  rest : cell acc.1 user store "" = []
  extradata : acc.2 = folded t

theorem insertPair_spec {data : Table Key (Value τ)}
    {acc : Db × Table Key (Value τ)} (h : Inserted codec user store t acc)
    (hnew : t.get key = none) {v : Value τ} (hget : data.get key = some v) :
    Inserted codec user store (t.set key (data.get key))
        (insertPair codec user store data acc key) ∧
      Frames acc.1 (insertPair codec user store data acc key).1 user store := by
  unfold insertPair
  rw [hget]
  dsimp only
  cases hplain : key.plain with
  | true =>
    obtain ⟨s, rfl, hs⟩ := Key.plain_iff.mp hplain
    simp only [if_true]
    refine ⟨⟨fun k hk => ?_, ?_, ?_⟩, fun user' store' k hne => ?_⟩
    · rw [image_set_plain user store t hplain, cell_cons]
      by_cases heq : k = s
      · subst heq
        have hold : cell acc.1 user store k = [] := by
          rw [h.rows k hk, image, if_neg hk, hnew]
          rfl
        refine (if_pos ⟨rfl, rfl, rfl⟩).trans (Eq.trans ?_ (if_pos rfl).symm)
        rw [hold]
        rfl
      · rw [if_neg (show ¬ k = (Key.name s).column from heq),
          if_neg fun hrow => heq hrow.2.2.symm]
        exact h.rows k hk
    · rw [cell_cons, if_neg fun hrow => hs hrow.2.2]
      exact h.rest
    · rw [folded_set_plain t hplain]
      exact h.extradata
    · rw [cell_cons, if_neg fun hrow => hne ⟨hrow.1.symm, hrow.2.1.symm⟩]
  | false =>
    simp only [Bool.false_eq_true, if_false]
    refine ⟨⟨fun k hk => ?_, h.rest, ?_⟩, Frames.refl _ _ _⟩
    · rw [image_set_folded user store t hplain, if_neg hk]
      exact h.rows k hk
    · rw [folded_set t hplain, h.extradata]

theorem insertPair_loop {data : Table Key (Value τ)} (keys : List Key)
    (hnodup : keys.Nodup) (hkeys : ∀ key ∈ keys, ∃ v, data.get key = some v)
    {acc : Db × Table Key (Value τ)}
    (hnew : ∀ key ∈ keys, t.get key = none) (h : Inserted codec user store t acc) :
    Inserted codec user store (t.setEach keys data.get)
        (keys.foldl (insertPair codec user store data) acc) ∧
      Frames acc.1 (keys.foldl (insertPair codec user store data) acc).1 user store := by
  induction keys generalizing t acc with
  | nil => exact ⟨h, Frames.refl _ _ _⟩
  | cons key keys ih =>
    obtain ⟨hnotin, hnodup⟩ := List.nodup_cons.mp hnodup
    obtain ⟨v, hget⟩ := hkeys key List.mem_cons_self
    obtain ⟨hinserted, hframes⟩ := insertPair_spec h (hnew key List.mem_cons_self) hget
    have hlater : ∀ key' ∈ keys, (t.set key (data.get key)).get key' = none := by
      intro key' hkey'
      rw [Table.get_set_of_ne]
      · exact hnew key' (List.mem_cons_of_mem _ hkey')
      · rintro rfl
        exact hnotin hkey'
    obtain ⟨hlast, hframes'⟩ :=
      ih hnodup (fun key' hkey' => hkeys key' (List.mem_cons_of_mem _ hkey')) hlater hinserted
    exact ⟨hlast, hframes.trans hframes'⟩

theorem setEach_keys (order : KeyOrder Key) (data : Table Key (Value τ)) :
    (∅ : Table Key (Value τ)).setEach (order.keys data.keys) data.get = data := by
  ext k : 1
  rw [Table.get_setEach]
  split
  · rfl
  · rename_i hnot
    rw [Table.get_empty]
    cases hget : data.get k with
    | none => rfl
    | some v => exact absurd ((order.mem_keys _ _).mpr ((Table.mem_keys _ _).mpr ⟨v, hget⟩)) hnot

theorem cell_filter_user (db : Db) (user store user' store' key : String) :
    cell (db.filter fun row => ¬ (row.user = user ∧ row.store = store)) user' store' key =
      if user' = user ∧ store' = store then [] else cell db user' store' key := by
  unfold cell
  rw [List.filter_filter]
  split
  · rename_i heq
    obtain ⟨rfl, rfl⟩ := heq
    refine List.filter_eq_nil_iff.mpr fun row _ => ?_
    simp only [Bool.and_eq_true, decide_eq_true_eq, not_and]
    exact fun hrow hnot => hnot hrow.1 hrow.2.1
  · rename_i hne
    refine List.filter_congr fun row _ => ?_
    by_cases hrow : row.user = user' ∧ row.store = store'
    · obtain ⟨rfl, rfl⟩ := hrow
      simp [hne]
    · simp only [not_and] at hrow
      simp only [Bool.decide_and]
      by_cases hu : row.user = user'
      · simp [hrow hu]
      · simp [hu]

theorem image_empty (user store key : String) :
    image codec user store (∅ : Table Key (Value τ)) key = [] := by
  have hfolded : folded (∅ : Table Key (Value τ)) = ∅ := by
    ext k : 1
    rw [get_folded]
    split
    · rfl
    · rfl
  unfold image
  rw [hfolded]
  split
  · rfl
  · rfl

theorem keyvalSet_spec (order : KeyOrder Key) (db : Db) (user : Option String) (store : String)
    (data : Option (Table Key (Value τ))) :
    Holds codec (keyvalSet codec order db user store data) (account user) store (data.getD ∅) ∧
      Frames db (keyvalSet codec order db user store data) (account user) store := by
  have hframes : Frames db (db.filter fun row => ¬ (row.user = account user ∧ row.store = store))
      (account user) store := by
    intro user' store' key hne
    rw [cell_filter_user, if_neg hne]
  have hcleared : ∀ key, cell (db.filter fun row => ¬ (row.user = account user ∧ row.store = store))
      (account user) store key = [] := by
    intro key
    rw [cell_filter_user, if_pos ⟨rfl, rfl⟩]
  unfold keyvalSet
  cases data with
  | none => exact ⟨fun key => (hcleared key).trans (image_empty _ _ _).symm, hframes⟩
  | some data =>
    have hstart : Inserted codec (account user) store ∅
        (db.filter fun row => ¬ (row.user = account user ∧ row.store = store), ∅) :=
      ⟨fun key _ => (hcleared key).trans (image_empty _ _ _).symm, hcleared "", rfl⟩
    obtain ⟨hinserted, hframes'⟩ := insertPair_loop (order.keys data.keys) (order.nodup _)
      (fun key hkey => (Table.mem_keys _ _).mp ((order.mem_keys _ _).mp hkey))
      (fun key _ => Table.get_empty key) hstart
    rw [setEach_keys order data] at hinserted
    dsimp only
    generalize hacc : (order.keys data.keys).foldl (insertPair codec (account user) store data)
      (db.filter fun row => ¬ (row.user = account user ∧ row.store = store), ∅) = acc
      at hinserted hframes'
    obtain ⟨db', extradata⟩ := acc
    obtain rfl : extradata = folded data := hinserted.extradata
    dsimp only
    by_cases hempty : (folded data).keys = ∅
    · rw [if_pos hempty]
      refine ⟨fun key => ?_, hframes.trans hframes'⟩
      by_cases hkey : key = ""
      · subst hkey
        rw [Option.getD_some, image, if_pos rfl, if_pos hempty]
        exact hinserted.rest
      · exact hinserted.rows key hkey
    · rw [if_neg hempty]
      refine ⟨fun key => ?_, fun user' store' key hne => ?_⟩
      · rw [cell_cons]
        by_cases hkey : key = ""
        · subst hkey
          rw [if_pos ⟨rfl, rfl, rfl⟩, Option.getD_some, image, if_pos rfl, if_neg hempty]
          exact congrArg (_ :: ·) hinserted.rest
        · rw [if_neg fun hrow => hkey hrow.2.2.symm]
          exact hinserted.rows key hkey
      · rw [cell_cons, if_neg fun hrow => hne ⟨hrow.1.symm, hrow.2.1.symm⟩]
        exact (hframes.trans hframes') user' store' key hne

/-! ## What is read back -/

/-- Reading a key finds the value, unless it is false and in the row with others. -/
theorem Holds.mapGet (select : SelectOrder) {user : Option String}
    (h : Holds codec db (account user) store t) (key : Key) :
    Sql.mapGet codec select db user store key =
      some (if key.plain then t.get key else (t.get key).filter Value.truthy) := by
  cases hplain : key.plain with
  | true =>
    obtain ⟨s, rfl, hs⟩ := Key.plain_iff.mp hplain
    have hcell : cell db (account user) store (Key.name s).column =
        (t.get (.name s)).toList.map (makeRow codec (account user) store s) :=
      (h s).trans (image_plain _ _ t hs)
    unfold Sql.mapGet
    rw [hcell, hplain]
    cases t.get (.name s) with
    | none =>
      rw [Option.toList_none, List.map_nil, select.head?_nil]
      rfl
    | some v =>
      rw [Option.toList_some, List.map_singleton, select.head?_singleton]
      dsimp only
      rw [makeRow, deserialize_serialize, Option.bind_some]
      rfl
  | false =>
    have hgets : (folded t).get key = t.get key := by
      rw [get_folded, hplain]
      rfl
    unfold Sql.mapGet
    rw [h key.column, Key.column_of_not_plain hplain, image, if_pos rfl, hplain]
    simp only [Bool.false_eq_true, if_false]
    by_cases hempty : (folded t).keys = ∅
    · rw [if_pos hempty, select.head?_nil, ← hgets, Table.get_of_keys_eq_empty hempty]
      rfl
    · rw [if_neg hempty, select.head?_singleton]
      dsimp only
      rw [makeRow, deserialize_serialize, Option.bind_some]
      dsimp only
      rw [codec.entries_make, hgets]

/-- What a key of the whole table is read as. -/
def shown (t : Table Key (Value τ)) (key : Key) : Option (Value τ) :=
  if key.plain then (t.get key).filter Value.truthy else t.get key

theorem get_copyPairs (order : KeyOrder Key) (result source : Table Key (Value τ)) (key : Key) :
    (copyPairs order result source).get key = (source.get key).or (result.get key) := by
  unfold copyPairs
  rw [Table.get_setEach]
  cases hget : source.get key with
  | none =>
    rw [if_neg, Option.none_or]
    intro hmem
    obtain ⟨v, hv⟩ := (Table.mem_keys _ _).mp ((order.mem_keys _ _).mp hmem)
    rw [hget] at hv
    cases hv
  | some v =>
    rw [if_pos ((order.mem_keys _ _).mpr ((Table.mem_keys _ _).mpr ⟨v, hget⟩)), Option.some_or]

theorem readRow_spec (order : KeyOrder Key)
    {row : Row} (h : row ∈ image codec user store t row.key) (result : Table Key (Value τ)) :
    ∃ result', readRow codec order result row = some result' ∧ ∀ key, result'.get key =
      if row.key = key.column then (shown t key).or (result.get key) else result.get key := by
  by_cases hkey : row.key = ""
  · rw [hkey, image, if_pos rfl] at h
    split at h
    · cases h
    · obtain rfl := List.mem_singleton.mp h
      refine ⟨copyPairs order result (folded t), ?_, fun key => ?_⟩
      · unfold readRow
        rw [makeRow, deserialize_serialize]
        simp only [Option.map_some, Value.truthy, if_true, ne_eq, not_true_eq_false, if_false]
        rw [codec.entries_make]
      · rw [get_copyPairs, get_folded, shown]
        change _ = if "" = key.column then _ else _
        cases hplain : key.plain with
        | true =>
          obtain ⟨s, rfl, hs⟩ := Key.plain_iff.mp hplain
          rw [if_pos rfl, Option.none_or, if_neg (show ¬ "" = (Key.name s).column from Ne.symm hs)]
        | false =>
          rw [if_pos (Key.column_of_not_plain hplain).symm]
          rfl
  · rw [image_plain _ _ _ hkey] at h
    obtain ⟨v, hv, hrow⟩ := List.mem_map.mp h
    have hget : t.get (.name row.key) = some v := Option.mem_toList.mp hv
    have hread : deserialize codec row.type row.value = some v := by
      rw [← hrow]
      exact deserialize_serialize v
    have hplain : (Key.name row.key).plain = true := Key.plain_iff.mpr ⟨_, rfl, hkey⟩
    have hcolumn : ∀ key : Key, row.key = key.column ↔ key = .name row.key := by
      intro key
      cases key with
      | name s => exact ⟨fun heq => by rw [heq]; rfl, fun heq => (Key.name.inj heq).symm⟩
      | no => exact ⟨fun heq => absurd heq hkey, fun heq => by cases heq⟩
    unfold readRow
    rw [hread, Option.map_some]
    refine ⟨_, rfl, fun key => ?_⟩
    simp only [ne_eq, hkey, not_false_eq_true, if_true, hcolumn]
    by_cases heq : key = .name row.key
    · subst heq
      rw [if_pos rfl, shown, if_pos hplain, hget]
      cases htruthy : v.truthy with
      | true => simp [Option.filter, htruthy]
      | false => simp [Option.filter, htruthy]
    · rw [if_neg heq]
      split
      · exact Table.get_set_of_ne _ heq _
      · rfl

theorem readRow_loop (order : KeyOrder Key)
    (rows : List Row) (h : ∀ row ∈ rows, row ∈ image codec user store t row.key)
    (result : Table Key (Value τ)) :
    ∃ result', rows.foldlM (readRow codec order) result = some result' ∧ ∀ key, result'.get key =
        if ∃ row ∈ rows, row.key = key.column then (shown t key).or (result.get key)
        else result.get key := by
  induction rows generalizing result with
  | nil => exact ⟨result, rfl, fun key => by simp⟩
  | cons row rows ih =>
    obtain ⟨middle, hmiddle, hone⟩ := readRow_spec order (h row List.mem_cons_self) result
    obtain ⟨result', hresult', hall⟩ :=
      ih (fun row' hrow' => h row' (List.mem_cons_of_mem _ hrow')) middle
    refine ⟨result', by rw [List.foldlM_cons, hmiddle]; exact hresult', fun key => ?_⟩
    rw [hall, hone]
    by_cases hrow : row.key = key.column
    · by_cases hrest : ∃ row ∈ rows, row.key = key.column
      · simp only [hrest, hrow, List.exists_mem_cons_iff, true_or, if_true]
        cases shown t key <;> simp
      · simp [hrest, hrow]
    · simp [hrow]

/-- A key whose row is missing has no value. -/
theorem shown_of_image (h : image codec user store t key.column = []) : shown t key = none := by
  unfold shown
  cases hplain : key.plain with
  | true =>
    obtain ⟨s, rfl, hs⟩ := Key.plain_iff.mp hplain
    have hrows := (image_plain user store t hs).symm.trans h
    cases hget : t.get (.name s) with
    | none => rfl
    | some v =>
      rw [hget] at hrows
      cases hrows
  | false =>
    rw [Key.column_of_not_plain hplain, image, if_pos rfl] at h
    split at h
    · rename_i hempty
      have hget := Table.get_of_keys_eq_empty hempty key
      rw [get_folded, hplain] at hget
      exact hget
    · cases h

/-- The whole table is read back, without the false values that have rows of their own. -/
theorem Holds.keyvalGet (select : SelectOrder) (order : KeyOrder Key) {user : Option String}
    (h : Holds codec db (account user) store t) :
    ∃ result, Sql.keyvalGet codec select order db user store = some result ∧
      (result.getD ∅).get = shown t := by
  have hmem : ∀ row, row ∈ select.rows (rowsOf db (account user) store) ↔
      row ∈ cell db (account user) store row.key := by
    intro row
    rw [(select.perm _).mem_iff, rowsOf, cell, List.mem_filter, List.mem_filter]
    simp
  obtain ⟨result, hresult, hget⟩ := readRow_loop order
    (select.rows (rowsOf db (account user) store))
    (fun row hrow => by rw [← h row.key]; exact (hmem row).mp hrow) ∅
  have hshown : result.get = shown t := by
    funext key
    rw [hget, Table.get_empty, Option.or_none]
    split
    · rfl
    · rename_i hnone
      have hcell : image codec (account user) store t key.column = [] := by
        rw [← h key.column]
        refine List.eq_nil_iff_forall_not_mem.mpr fun row hrow => hnone ⟨row, ?_, ?_⟩
        · have hcolumn : row.key = key.column :=
            (of_decide_eq_true (List.mem_filter.mp hrow).2).2.2
          rw [hmem, hcolumn]
          exact hrow
        · exact (of_decide_eq_true (List.mem_filter.mp hrow).2).2.2
      exact (shown_of_image hcell).symm
  refine ⟨_, by rw [Sql.keyvalGet, hresult, Option.map_some], ?_⟩
  split
  · rename_i hempty
    rw [hempty, List.foldlM_nil] at hresult
    obtain rfl := Option.some.inj hresult
    exact hshown
  · exact hshown

/-! ## Runs -/

variable (codec) in
/-- What the stores have after an operation. -/
def Op.leave (t : Key → Option (Value τ)) : Op τ → Key → Option (Value τ)
  | .keyvalSet data => (data.getD ∅).get
  | .mapSet key data => fun k => if k = key then settled codec key data else t k
  | .mapSetKeys keydatas => fun k =>
    ((keydatas.get k).map (settled codec k)).getD (t k)

theorem mapSetKeys_spec (select : SelectOrder) (order : KeyOrder Key) {user : Option String}
    (h : Holds codec db (account user) store t) (keydatas : Table Key (Option (Value τ))) :
    ∃ db' t', mapSetKeys codec select order db user store keydatas = some db' ∧
      t'.get = Op.leave codec t.get (.mapSetKeys keydatas) ∧
      Holds codec db' (account user) store t' ∧ Frames db db' (account user) store := by
  obtain ⟨db', hdb', hholds, hframes⟩ := mapSetKeys_loop select
    (fun key => (keydatas.get key).getD none) (order.keys keydatas.keys) h
  refine ⟨db', _, hdb', ?_, hholds, hframes⟩
  funext key
  rw [Table.get_setEach]
  change _ = ((keydatas.get key).map (settled codec key)).getD (t.get key)
  cases hget : keydatas.get key with
  | none =>
    rw [if_neg]
    · rfl
    · intro hmem
      obtain ⟨v, hv⟩ := (Table.mem_keys _ _).mp ((order.mem_keys _ _).mp hmem)
      rw [hget] at hv
      cases hv
  | some data =>
    rw [if_pos ((order.mem_keys _ _).mpr ((Table.mem_keys _ _).mpr ⟨data, hget⟩))]
    rfl

theorem step_spec (c : Call τ) (h : Holds codec db (account c.user) c.store t) :
    ∃ db' t', step codec db c = some db' ∧ t'.get = Op.leave codec t.get c.op ∧
      Holds codec db' (account c.user) c.store t' ∧ Frames db db' (account c.user) c.store := by
  unfold step
  cases c.op with
  | keyvalSet data =>
    have hset : Holds codec (keyvalSet codec c.order db c.user c.store data) (account c.user)
        c.store (data.getD ∅) ∧
          Frames db (keyvalSet codec c.order db c.user c.store data) (account c.user) c.store :=
      keyvalSet_spec c.order db c.user c.store data
    exact ⟨_, _, rfl, rfl, hset⟩
  | mapSetKeys keydatas => exact mapSetKeys_spec c.select c.order h keydatas
  | mapSet key data =>
    obtain ⟨db', t', hdb', hget, hholds, hframes⟩ :=
      mapSetKeys_spec c.select c.order h ((∅ : Table Key _).set key (some data))
    refine ⟨db', t', hdb', ?_, hholds, hframes⟩
    funext k
    rw [hget]
    change (((∅ : Table Key _).set key (some data)).get k |>.map (settled codec k)).getD _ =
      if k = key then settled codec key data else t.get k
    rw [Table.get_set]
    by_cases hk : k = key
    · subst hk
      simp
    · simp [hk]

theorem Holds.frame {db' : Db} {user' store' : String}
    (h : Holds codec db user store t) (hframes : Frames db db' user' store')
    (hne : ¬ (user = user' ∧ store = store')) : Holds codec db' user store t :=
  fun key => (hframes user store key hne).trans (h key)

theorem opsOf_append (user : Option String) (store : String) (calls : List (Call τ)) (c : Call τ) :
    opsOf user store (calls ++ [c]) = opsOf user store calls ++
      if account c.user = account user ∧ c.store = store then [c.op] else [] := by
  unfold opsOf
  rw [List.filter_append, List.map_append]
  refine congrArg _ ?_
  rw [List.filter_singleton]
  by_cases hc : account c.user = account user ∧ c.store = store
  · simp [hc]
  · simp [hc]

variable (codec) in
/-- No run raises an error, and each store has what its own operations leave. -/
theorem run_holds (calls : List (Call τ)) :
    ∃ db, run codec calls = some db ∧ ∀ user store, ∃ t, Holds codec db (account user) store t ∧
      t.get = (opsOf user store calls).foldl (Op.leave codec) fun _ => none := by
  induction calls using List.reverseRecOn with
  | nil =>
    refine ⟨[], rfl, fun user store => ⟨∅, fun key => (image_empty _ _ key).symm, ?_⟩⟩
    funext key
    exact Table.get_empty key
  | append_singleton calls c ih =>
    obtain ⟨db, hdb, hall⟩ := ih
    obtain ⟨t, ht, hget⟩ := hall c.user c.store
    obtain ⟨db', t', hstep, hleave, hholds, hframes⟩ := step_spec c ht
    refine ⟨db', ?_, fun user store => ?_⟩
    · rw [run, List.foldlM_append]
      change (run codec calls).bind _ = _
      rw [hdb, Option.bind_some, List.foldlM_cons, hstep]
      rfl
    · rw [opsOf_append, List.foldl_append]
      by_cases hc : account c.user = account user ∧ c.store = store
      · obtain ⟨huser, rfl⟩ := hc
        have hops : opsOf user c.store calls = opsOf c.user c.store calls := by
          rw [opsOf, opsOf, huser]
        rw [if_pos ⟨huser, rfl⟩, hops, ← huser]
        refine ⟨t', hholds, ?_⟩
        rw [hleave, hget]
        rfl
      · rw [if_neg hc]
        obtain ⟨t, ht, hget⟩ := hall user store
        exact ⟨t, ht.frame hframes fun heq => hc ⟨heq.1.symm, heq.2.symm⟩, hget⟩

/-! ## Where the stores differ from a table -/

variable (codec) in
theorem Op.untouched {op : Op τ} (h : op.touches key = false)
    (t t' : Key → Option (Value τ)) : op.apply t key = t key ∧ op.leave codec t' key = t' key := by
  cases op with
  | keyvalSet data => cases h
  | mapSet k data =>
    have hne : key ≠ k := fun heq => of_decide_eq_false h heq.symm
    exact ⟨if_neg hne, if_neg hne⟩
  | mapSetKeys keydatas =>
    have hget : keydatas.get key = none := by
      cases hget : keydatas.get key with
      | none => rfl
      | some data =>
        exact absurd ((Table.mem_keys _ _).mpr ⟨data, hget⟩) (of_decide_eq_false h)
    constructor
    · change (keydatas.get key).getD (t key) = t key
      rw [hget]
      rfl
    · change ((keydatas.get key).map (settled codec key)).getD (t' key) = t' key
      rw [hget]
      rfl

variable (codec) in
theorem Op.removed {op : Op τ} (h : op.removes key = true) (t t' : Key → Option (Value τ)) :
    op.apply t key = none ∧ op.leave codec t' key = settled codec key none := by
  cases op with
  | keyvalSet data => cases h
  | mapSet k data =>
    cases data with
    | some v => cases h
    | none =>
      obtain rfl : k = key := of_decide_eq_true h
      exact ⟨if_pos rfl, if_pos rfl⟩
  | mapSetKeys keydatas =>
    have hget : keydatas.get key = some none := by
      change (keydatas.get key).any Option.isNone = true at h
      rcases hget : keydatas.get key with _ | _ | v
      · rw [hget] at h
        cases h
      · rfl
      · rw [hget] at h
        cases h
    constructor
    · change (keydatas.get key).getD (t key) = none
      rw [hget]
      rfl
    · change ((keydatas.get key).map (settled codec key)).getD (t' key) = _
      rw [hget]
      rfl

theorem Op.put {op : Op τ} (htouches : op.touches key = true)
    (hremoves : op.removes key = false) (t t' : Key → Option (Value τ)) :
    op.leave codec t' key = op.apply t key := by
  have hsettled : ∀ v : Value τ, settled codec key (some v) = some v := by
    intro v
    unfold settled
    split <;> rfl
  cases op with
  | keyvalSet data => rfl
  | mapSet k data =>
    obtain rfl : k = key := of_decide_eq_true htouches
    cases data with
    | none => exact absurd rfl (of_decide_eq_false hremoves)
    | some v =>
      change (if k = k then settled codec k (some v) else t' k) = if k = k then some v else t k
      rw [if_pos rfl, if_pos rfl, hsettled]
  | mapSetKeys keydatas =>
    obtain ⟨data, hget⟩ := (Table.mem_keys _ _).mp (of_decide_eq_true htouches)
    change (keydatas.get key).any Option.isNone = false at hremoves
    change ((keydatas.get key).map (settled codec key)).getD (t' key) =
      (keydatas.get key).getD (t key)
    rw [hget] at hremoves ⊢
    cases data with
    | none => cases hremoves
    | some v => exact hsettled v

theorem stale_append (ops : List (Op τ)) (op : Op τ) (key : Key) :
    Stale (ops ++ [op]) key ↔
      if op.touches key then key.plain = false ∧ op.removes key = true else Stale ops key := by
  unfold Stale
  rw [List.filter_append, List.filter_singleton]
  cases op.touches key with
  | true => simp
  | false => simp

variable (codec) in
/-- A stale key has something left of it, and every other key its value. -/
theorem leave_ops (ops : List (Op τ)) (key : Key) :
    (Stale ops key → tableOf ops key = none ∧
      (ops.foldl (Op.leave codec) fun _ => none) key = some (.table (codec.make ∅))) ∧
    (¬ Stale ops key → (ops.foldl (Op.leave codec) fun _ => none) key = tableOf ops key) := by
  induction ops using List.reverseRecOn with
  | nil =>
    refine ⟨?_, fun _ => rfl⟩
    rintro ⟨-, op, hop, -⟩
    cases hop
  | append_singleton ops op ih =>
    unfold tableOf at ih ⊢
    rw [stale_append, List.foldl_append, List.foldl_append, List.foldl_cons, List.foldl_nil,
      List.foldl_cons, List.foldl_nil]
    cases htouches : op.touches key with
    | false =>
      obtain ⟨happly, hleave⟩ := Op.untouched codec htouches
        (ops.foldl Op.apply fun _ => none) (ops.foldl (Op.leave codec) fun _ => none)
      rw [happly, hleave]
      simpa using ih
    | true =>
      simp only [if_true]
      cases hremoves : op.removes key with
      | true =>
        obtain ⟨happly, hleave⟩ := Op.removed codec hremoves
          (ops.foldl Op.apply fun _ => none) (ops.foldl (Op.leave codec) fun _ => none)
        rw [happly, hleave]
        cases hplain : key.plain with
        | true => simp [settled, hplain]
        | false => simp [settled, hplain]
      | false =>
        simp only [Bool.false_eq_true, and_false, false_implies, not_false_eq_true,
          true_implies, true_and]
        exact Op.put htouches hremoves _ _

theorem Lawful.kept {calls : List (Call τ)} {user : Option String}
    {select : SelectOrder} {order : KeyOrder Key} (h : Lawful codec calls user store select order)
    (key : Key) : tableOf (opsOf user store calls) key ≠ some (.boolean false) ∧
      ¬ Stale (opsOf user store calls) key := by
  obtain ⟨db', hdb', ⟨result', hresult', htable⟩, hmap⟩ := h
  obtain ⟨db, hdb, hall⟩ := run_holds codec calls
  obtain rfl : db = db' := Option.some.inj (hdb.symm.trans hdb')
  obtain ⟨t, ht, hget⟩ := hall user store
  obtain ⟨result, hresult, hshown⟩ := ht.keyvalGet select order
  obtain rfl : result = result' := Option.some.inj (hresult.symm.trans hresult')
  obtain ⟨hstale, hother⟩ := leave_ops codec (opsOf user store calls) key
  rw [← hget] at hstale hother
  have hread := congrFun (hshown.symm.trans htable) key
  have hmapped := Option.some.inj ((ht.mapGet select key).symm.trans (hmap key))
  have hfresh : ¬ Stale (opsOf user store calls) key := by
    intro h
    obtain ⟨hnone, hleft⟩ := hstale h
    rw [hnone, shown, if_neg (by simp [h.1]), hleft] at hread
    cases hread
  refine ⟨fun hfalse => ?_, hfresh⟩
  have hself : t.get key = some (.boolean false) := (hother hfresh).trans hfalse
  -- A value with a row of its own is lost to one store, and a folded one to the other.
  cases hplain : key.plain with
  | true =>
    rw [hfalse, shown, hself, if_pos hplain] at hread
    cases hread
  | false =>
    rw [hfalse, hself, if_neg (by simp [hplain])] at hmapped
    cases hmapped

def Key.split : Key → Option String
  | .name s => some s
  | .no => none

def Value.split : Value ℕ → (String ⊕ Bool) ⊕ (ℤ ⊕ ℕ)
  | .string s => .inl (.inl s)
  | .boolean b => .inl (.inr b)
  | .number n => .inr (.inl n)
  | .table t => .inr (.inr t)

theorem Key.split_injective : Function.Injective Key.split := by
  intro key key' h
  cases key <;> cases key' <;> simp_all [Key.split]

theorem Value.split_injective : Function.Injective Value.split := by
  intro v v' h
  cases v <;> cases v' <;> simp_all [Value.split]

/-- There are countably many tables, so that numbers can stand for them. -/
theorem Codec.nonempty : Nonempty (Codec ℕ) := by
  have hchar : Countable Char :=
    Function.Injective.countable (f := Char.toNat) fun _ _ h => Char.toNat_inj.mp h
  have hstring : Countable String :=
    Function.Injective.countable (f := String.toList) fun _ _ h => String.toList_inj.mp h
  have hkey : Countable Key := Key.split_injective.countable
  have hvalue : Countable (Value ℕ) := Value.split_injective.countable
  have hentries : Countable (Table Key (Value ℕ)) :=
    Function.Injective.countable (f := Finmap.entries) fun _ _ h => Finmap.ext h
  obtain ⟨make, hmake⟩ := exists_injective_nat (Table Key (Value ℕ))
  exact ⟨{
    make := make
    entries := Function.invFun make
    entries_make := Function.leftInverse_invFun hmake
    tostring := Int.repr
    tonumber := String.toInt?
    tonumber_tostring := Int.toInt?_repr
    encode := Nat.repr
    decode := String.toNat?
    decode_encode := Nat.toNat?_repr }⟩

end Prosody.Sql
