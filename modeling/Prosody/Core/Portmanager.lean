import Prosody.Library.Multitable

/-! # The port manager

The registry of services and of the ports they listen on, of `core/portmanager.lua`. Whether a TLS
context can be created and whether a port can be opened is part of the input. -/

namespace Prosody.Portmanager

/-! ## Configuration -/

inductive PortValue where
  | number (n : ℕ)
  | text (s : String)
  deriving DecidableEq

/-- An option with one value or a list of them. -/
inductive Setting (α : Type) where
  | one (a : α)
  | many (l : List α)
  deriving DecidableEq

def Setting.list {α : Type} : Setting α → List α
  | .one a => [a]
  | .many l => l

structure Listener where
  defaultInterface : Option (Setting String)
  defaultPort : Option PortValue
  deriving DecidableEq

/-- A service; two of them are the same table if they are equal. -/
structure ServiceInfo where
  id : ℕ
  name : String
  configPrefix : Option String
  isPrivate : Bool
  defaultPorts : Option (Setting PortValue)
  defaultPort : Option PortValue
  encrypted : Bool
  listener : Listener
  deriving DecidableEq

structure Config where
  interfaces : String → Option (Setting String)
  ports : String → Option (Setting PortValue)
  defaultInterfaces : List String
  defaultLocalInterfaces : List String
  tonumber : String → Option ℕ

def PortValue.tonumber (cfg : Config) : PortValue → Option ℕ
  | .number n => some n
  | .text s => cfg.tonumber s

def configPrefix (name : String) (info : ServiceInfo) : String :=
  let configPrefix := info.configPrefix.getD name ++ "_"
  if configPrefix = "_" then "" else configPrefix

def bindInterfaces (cfg : Config) (name : String) (info : ServiceInfo) : List String :=
  let own := configPrefix name info
  let found := (cfg.interfaces (own ++ "interfaces")).or <| (cfg.interfaces (own ++ "interface")).or <|
    (if info.isPrivate then
      some ((cfg.interfaces "local_interfaces").getD (.many cfg.defaultLocalInterfaces))
    else none).or <| (cfg.interfaces "interfaces").or <| (cfg.interfaces "interface").or
    info.listener.defaultInterface
  (found.getD (.many cfg.defaultInterfaces)).list

def bindPorts (cfg : Config) (name : String) (info : ServiceInfo) : List PortValue :=
  match (cfg.ports (configPrefix name info ++ "ports")).or info.defaultPorts with
  | some ports => ports.list
  | none => (info.defaultPort.or info.listener.defaultPort).toList

/-! ## State -/

abbrev Handle := ℕ

/-- An entry of `active_services`. -/
structure Active where
  server : Handle
  service : ServiceInfo
  deriving DecidableEq

/-- Handles are counted in the order in which they are opened; `closed` are those that have been
closed. -/
structure Manager where
  services : String → List ServiceInfo
  active : Multitable String String ℕ (List Active)
  opened : ℕ
  closed : List Handle

def new : Manager where
  services _ := []
  active := ∅
  opened := 0
  closed := []

/-- An order in which a set made from a list is enumerated. -/
structure Enumeration (α : Type) where
  items : List α → List α
  mem_items : ∀ l a, a ∈ items l ↔ a ∈ l
  nodup : ∀ l, (items l).Nodup

/-- What happens outside during a call, and the orders of tables. -/
structure Env where
  context : String → PortValue → Bool
  addserver : String → ℕ → Bool
  interfaceSet : Enumeration String
  portSet : Enumeration PortValue
  services : KeyOrder String
  interfaces : KeyOrder String
  ports : KeyOrder ℕ

/-- A loop that an error ends. The result says whether there was one. -/
def each {σ α : Type} (f : σ → α → σ × Bool) : List α → σ → σ × Bool
  | [], s => (s, false)
  | a :: as, s => if (f s a).2 then f s a else each f as (f s a).1

namespace Manager

variable (cfg : Config) (env : Env) (m : Manager)

def addActive (name : String) (info : ServiceInfo) (interface : String) (port : ℕ) : Manager :=
  { m with
    active := m.active.put name interface port
      (some ((m.active.find name interface port).getD [] ++ [⟨m.opened, info⟩]))
    opened := m.opened + 1 }

/-- One round of the loops of `activate`. -/
def activatePort (name : String) (info : ServiceInfo) (interface : String) (port : PortValue) :
    Manager × Bool :=
  match port.tonumber cfg with
  | none => (m, false)
  | some number =>
    if m.active.search env.services interface number ≠ [] then
      -- For the message the port is looked up as it is configured, and a string finds nothing.
      match port with
      | .number _ => (m, false)
      | .text _ => (m, true)
    else if info.encrypted && !env.context interface port then (m, false)
    else if env.addserver interface number then (m.addActive name info interface number, false)
    else (m, false)

/-- The interfaces and ports in the order of the loops. -/
def bindings (name : String) (info : ServiceInfo) : List (String × PortValue) :=
  (env.interfaceSet.items (bindInterfaces cfg name info)).flatMap fun interface =>
    (env.portSet.items (bindPorts cfg name info)).map fun port => (interface, port)

def activate (name : String) : Manager × Bool :=
  match (m.services name).head? with
  | none => (m, false)
  | some info =>
    each (fun m binding => m.activatePort cfg env name info binding.1 binding.2)
      (bindings cfg env name info) m

/-- `get_service_at`, which indexes what is not there if no such port is open. -/
def getServiceAt (interface : String) (port : ℕ) : Option Active :=
  (m.active.search env.services interface port).head?.bind List.head?

def close (interface : String) (port : ℕ) : Manager × Bool :=
  match m.getServiceAt env interface port with
  | none => (m, true)
  | some a =>
    ({ m with
      active := m.active.remove a.service.name interface port
      closed := m.closed ++ [a.server] }, false)

/-- A round of the iteration in `deactivate`, unless the entries have gone meanwhile. -/
def deactivateAt (info : Option ServiceInfo) (path : String × String × ℕ) : Manager × Bool :=
  match m.active.find path.1 path.2.1 path.2.2 with
  | none => (m, false)
  | some entries =>
    each (fun m a =>
      if info = none ∨ info = some a.service then m.close env path.2.1 path.2.2 else (m, false))
      entries m

def deactivate (name : Option String) (info : Option ServiceInfo) : Manager × Bool :=
  let key := name.or (info.map (·.name))
  let paths := (m.active.paths env.services env.interfaces env.ports).filter fun path =>
    key = none ∨ key = some path.1
  let done := each (fun m path => m.deactivateAt env info path) paths m
  -- The message at the end needs a name.
  if done.2 then done else (done.1, key = none)

def registerService (name : String) (info : ServiceInfo) : Manager × Bool :=
  let m := { m with services := Function.update m.services name (m.services name ++ [info]) }
  if Table.get m.active name = none then m.activate cfg env name else (m, false)

/-- `ipairs` goes on with the next index after an element has been removed. -/
def removeEach (info : ServiceInfo) : List ServiceInfo → List ServiceInfo
  | [] => []
  | [service] => if service = info then [] else [service]
  | service :: next :: rest =>
    if service = info then next :: removeEach info rest
    else service :: removeEach info (next :: rest)

def unregisterService (name : String) (info : ServiceInfo) : Manager × Bool :=
  let rest := removeEach info (m.services name)
  let m := { m with services := Function.update m.services name rest }
  let done := m.deactivate env none (some info)
  if done.2 then done
  else if rest ≠ [] then done.1.activate cfg env name
  else done

end Manager

inductive Op where
  | registerService (name : String) (info : ServiceInfo)
  | unregisterService (name : String) (info : ServiceInfo)
  | activate (name : String)
  | deactivate (name : Option String) (info : Option ServiceInfo)
  | close (interface : String) (port : ℕ)

/-- A call, with its outcome outside. -/
structure Input where
  env : Env
  op : Op

def Manager.perform (cfg : Config) (m : Manager) (i : Input) : Manager × Bool :=
  match i.op with
  | .registerService name info => m.registerService cfg i.env name info
  | .unregisterService name info => m.unregisterService cfg i.env name info
  | .activate name => m.activate cfg i.env name
  | .deactivate name info => m.deactivate i.env name info
  | .close interface port => m.close i.env interface port

end Prosody.Portmanager
