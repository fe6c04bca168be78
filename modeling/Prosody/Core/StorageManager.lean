import Mathlib.Logic.Function.Basic

/-! # The map shim of the storage manager

A `keyval` store keeps one table for each user. Where a driver has no `map` stores,
`core/storagemanager.lua` reads the whole table, assigns to some keys and writes it back. -/

namespace Prosody.StorageManager

/-- The table of one user, and how the store answers. -/
structure KeyVal (κ ν : Type*) where
  data : Option (κ → Option ν)
  readError : Option String
  accepts : Bool

variable {κ ν : Type*}

def KeyVal.get (store : KeyVal κ ν) : Option (κ → Option ν) × Option String :=
  match store.readError with
  | some err => (none, some err)
  | none => (store.data, none)

def KeyVal.set (store : KeyVal κ ν) (data : κ → Option ν) : Bool × KeyVal κ ν :=
  if store.accepts then (true, { store with data := some data }) else (false, store)

variable [DecidableEq κ]

/-- The loop over `keydatas`, where `none` is the value `remove`. -/
def assign (current : κ → Option ν) (keydatas : List (κ × Option ν)) : κ → Option ν :=
  keydatas.foldl (fun current kv => Function.update current kv.1 kv.2) current

def setKeys (store : KeyVal κ ν) (keydatas : List (κ × Option ν)) : Bool × KeyVal κ ν :=
  match store.get with
  | (none, some _) => (false, store)
  | (current, _) => store.set (assign (current.getD fun _ => none) keydatas)

end Prosody.StorageManager
