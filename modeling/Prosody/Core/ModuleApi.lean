import Mathlib.Data.Int.Basic
import Prosody.Library.Multitable

/-! # The API of modules

The calls of `core/moduleapi.lua` by which a module registers handlers for events and adds items.
What it has registered is recorded in the module, and only unloading it goes by that record. -/

namespace Prosody.Modules

/-- What a module is loaded on: one of the hosts, or `*`, the server. -/
inductive Place where
  | server
  | host (name : String)
  deriving DecidableEq

/-- An object with events: that of the server, that of a host, or some other. -/
inductive EventsObject where
  | server
  | host (name : String)
  | other (n : ℕ)
  deriving DecidableEq

/-- Functions, told apart by their identity. -/
abbrev Handler := ℕ

structure Registration where
  object : EventsObject
  event : String
  handler : Handler
  deriving DecidableEq

/-- The `event_map` of every object: the priorities of the handlers. -/
abbrev Handlers := Registration → Option ℤ

def addHandler (handlers : Handlers) (r : Registration) (priority : Option ℤ) : Handlers :=
  Function.update handlers r (some (priority.getD 0))

def removeHandler (handlers : Handlers) (r : Registration) : Handlers :=
  Function.update handlers r none

/-- `item-added/key` or `item-removed/key`, fired on an object. -/
structure ItemEvent (ι : Type) where
  object : EventsObject
  added : Bool
  key : String
  item : ι
  deriving DecidableEq

/-! ## What modules do -/

inductive Call (ι : Type) where
  | hook (event : String) (handler : Handler) (priority : Option ℤ)
  | hookObjectEvent (object : EventsObject) (event : String) (handler : Handler)
      (priority : Option ℤ)
  | unhook (event : String) (handler : Handler)
  | unhookObjectEvent (object : EventsObject) (event : String) (handler : Handler)
  | addItem (key : String) (item : ι)
  | removeItem (key : String) (item : ι)

/-- A step of the body of a module or of its `load`. -/
inductive Statement (ι : Type) where
  | setGlobal
  | call (c : Call ι)

inductive Ending where
  | completes
  | answersFalse
  | raises
  deriving DecidableEq

/-- What `add_host` does on the API that it is given, and the `unload` it leaves there. -/
structure HostPart (ι : Type) where
  calls : List (Call ι)
  ending : Ending
  unload : Option (List (Call ι))

/-- The code of a module: the statements that its body executes, whether it raises after them, and
the methods that it defines. -/
structure Plugin (ι : Type) where
  body : List (Statement ι)
  bodyRaises : Bool
  load : Option (List (Statement ι) × Bool)
  unload : Option (List (Call ι))
  addHost : Option (String → HostPart ι)

/-- The API object of a loaded module, with the methods that are looked up in it. -/
structure Module (ι : Type) where
  host : Place
  eventHandlers : Multitable EventsObject String Handler Unit
  items : Table String (List ι)
  unload : Option (List (Call ι))
  addHost : Option (String → HostPart ι)

/-- The hosts, the handlers of all objects, the modules loaded on each place, and the events
that have been fired. -/
structure World (ι : Type) where
  hosts : Finset String
  handlers : Handlers
  modulemap : Place → Table String (Module ι)
  fired : List (ItemEvent ι)

variable {ι : Type}

/-- `(hosts[host] or prosody).events` -/
def World.events (w : World ι) : Place → EventsObject
  | .server => .server
  | .host name => if name ∈ w.hosts then .host name else .server

namespace Module

def hookObjectEvent (w : World ι) (m : Module ι) (r : Registration) (priority : Option ℤ) :
    World ι × Module ι :=
  ({ w with handlers := addHandler w.handlers r priority },
    { m with eventHandlers := m.eventHandlers.put r.object r.event r.handler (some ()) })

def unhookObjectEvent (w : World ι) (m : Module ι) (r : Registration) : World ι × Module ι :=
  ({ w with handlers := removeHandler w.handlers r },
    { m with eventHandlers := m.eventHandlers.put r.object r.event r.handler none })

def fireItem (w : World ι) (m : Module ι) (added : Bool) (key : String) (item : ι) : World ι :=
  { w with fired := w.fired ++ [⟨w.events m.host, added, key, item⟩] }

/-- The items that a module has under a key. -/
def itemsAt (m : Module ι) (key : String) : List ι := (m.items.get key).getD []

def addItem (w : World ι) (m : Module ι) (key : String) (item : ι) : World ι × Module ι :=
  (fireItem w m true key item,
    { m with items := m.items.set key (some (m.itemsAt key ++ [item])) })

variable [DecidableEq ι]

/-- A list without the last occurrence of an item. -/
def eraseLast (l : List ι) (item : ι) : List ι := (l.reverse.erase item).reverse

def removeItem (w : World ι) (m : Module ι) (key : String) (item : ι) : World ι × Module ι :=
  if item ∈ m.itemsAt key then
    (fireItem w m false key item,
      { m with items := m.items.set key (some (eraseLast (m.itemsAt key) item)) })
  else (w, m)

def call (w : World ι) (m : Module ι) : Call ι → World ι × Module ι
  | .hook event handler priority =>
    hookObjectEvent w m ⟨w.events m.host, event, handler⟩ priority
  | .hookObjectEvent object event handler priority =>
    hookObjectEvent w m ⟨object, event, handler⟩ priority
  | .unhook event handler => unhookObjectEvent w m ⟨w.events m.host, event, handler⟩
  | .unhookObjectEvent object event handler => unhookObjectEvent w m ⟨object, event, handler⟩
  | .addItem key item => addItem w m key item
  | .removeItem key item => removeItem w m key item

def execute (w : World ι) (m : Module ι) : Statement ι → World ι × Module ι
  | .setGlobal => (w, { m with host := .server })
  | .call c => call w m c

def run (w : World ι) (m : Module ι) : List (Statement ι) → World ι × Module ι
  | [] => (w, m)
  | s :: ss => run (execute w m s).1 (execute w m s).2 ss

def runCalls (w : World ι) (m : Module ι) (calls : List (Call ι)) : World ι × Module ι :=
  run w m (calls.map .call)

end Module

end Prosody.Modules
