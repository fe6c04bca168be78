import Prosody.Core.ModuleApi

/-! # The module manager

Loading and unloading a module, of `core/modulemanager.lua`. The order in which tables are
traversed is part of the input. -/

namespace Prosody.Modules

structure Orders where
  objects : KeyOrder EventsObject
  names : KeyOrder String
  handlers : KeyOrder Handler

variable {ι : Type}

namespace World

def setModule (w : World ι) (place : Place) (name : String) (m : Option (Module ι)) : World ι :=
  { w with modulemap := Function.update w.modulemap place ((w.modulemap place).set name m) }

def getModule (w : World ι) (place : Place) (name : String) : Option (Module ι) :=
  (w.modulemap place).get name

/-- The items that the modules of a place have under a key. -/
def getItems (ord : Orders) (w : World ι) (place : Place) (key : String) : List ι :=
  (ord.names.keys (w.modulemap place).keys).flatMap fun name =>
    ((w.getModule place name).map fun m => m.itemsAt key).getD []

def Known (w : World ι) : Place → Prop
  | .server => True
  | .host name => name ∈ w.hosts

instance (w : World ι) : (place : Place) → Decidable (w.Known place)
  | .server => inferInstanceAs (Decidable True)
  | .host name => inferInstanceAs (Decidable (name ∈ w.hosts))

end World

/-! ## Unloading -/

def Module.registrations (ord : Orders) (m : Module ι) : List Registration :=
  (m.eventHandlers.paths ord.objects ord.names ord.handlers).map fun path =>
    ⟨path.1, path.2.1, path.2.2⟩

/-- The events for the removal of a module's items. -/
def Module.removals (ord : Orders) (object : EventsObject) (m : Module ι) : List (ItemEvent ι) :=
  (ord.names.keys m.items.keys).flatMap fun key =>
    (m.itemsAt key).reverse.map fun item => ⟨object, false, key, item⟩

variable [DecidableEq ι]

def doUnloadModule (ord : Orders) (w : World ι) (place : Place) (name : String) :
    World ι × Bool :=
  match w.getModule place name with
  | none => (w, false)
  | some mod =>
    let (w, mod) := Module.runCalls w mod (mod.unload.getD [])
    let w := { w with handlers := (mod.registrations ord).foldl removeHandler w.handlers }
    let w := { w with fired := w.fired ++ mod.removals ord (w.events place) }
    (w.setModule place name none, true)

/-! ## Loading -/

def newModule (place : Place) (p : Plugin ι) : Module ι where
  host := place
  eventHandlers := ∅
  items := ∅
  unload := p.unload
  addHost := p.addHost

def newHostModule (place : Place) (part : HostPart ι) : Module ι where
  host := place
  eventHandlers := ∅
  items := ∅
  unload := part.unload
  addHost := none

/-- The branch for a module that is already loaded on the server. -/
def loadOntoHost (w : World ι) (place : Place) (name : String) (mod : Module ι) :
    World ι × Option (Module ι) :=
  match mod.addHost, place with
  | some addHost, .host host =>
    let part := addHost host
    let hostModule := newHostModule place part
    let (w, hostModule) :=
      Module.runCalls (w.setModule place name (some hostModule)) hostModule part.calls
    if part.ending = .completes then
      (w.setModule place name (some hostModule), some hostModule)
    else (w.setModule place name none, none)
  | _, _ => (w, none)

/-- After the body and `load`, of which `ok` says whether it has raised. A module that has turned
global moves to the server, and from there it is loaded again onto the host. -/
def settleModule (w : World ι) (place : Place) (name : String) (p : Plugin ι) (api : Module ι)
    (ok : Bool) : World ι × Option (Module ι) :=
  if api.host = .server then
    let w := (w.setModule place name none).setModule .server name (some api)
    let (w, ok) :=
      if place ≠ .server ∧ p.addHost.isSome then
        let (w, hostModule) := loadOntoHost w place name api
        (w, hostModule.isSome)
      else (w, ok)
    if ok then (w, some api) else (w.setModule .server name none, none)
  else if ok then (w.setModule place name (some api), some api)
  else (w.setModule place name none, none)

def startModule (w : World ι) (place : Place) (name : String) (p : Plugin ι) :
    World ι × Option (Module ι) :=
  let api := newModule place p
  let (w, api) := Module.run (w.setModule place name (some api)) api p.body
  if p.bodyRaises then
    ((w.setModule place name (some api)).setModule api.host name none, none)
  else
    let (w, api) := Module.run w api ((p.load.map Prod.fst).getD [])
    settleModule w place name p api !(p.load.map Prod.snd).getD false

/-- `code` is what is found under the name of the module, if it can be compiled. -/
def doLoadModule (w : World ι) (place : Place) (name : String) (code : Option (Plugin ι)) :
    World ι × Option (Module ι) :=
  if ¬w.Known place then (w, none)
  else if (w.getModule place name).isSome then (w, none)
  else match w.getModule .server name with
    | some mod => loadOntoHost w place name mod
    | none => match code with
      | none => (w, none)
      | some p => startModule w place name p

/-- A call that a loaded module makes later. -/
def callLoaded (w : World ι) (place : Place) (name : String) (c : Call ι) : World ι :=
  match w.getModule place name with
  | none => w
  | some m => (Module.call w m c).1.setModule place name (some (Module.call w m c).2)

end Prosody.Modules
