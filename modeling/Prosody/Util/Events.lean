import Prosody.Library.Runs
import Prosody.Library.Table

/-! # Events (`util/events.lua`) -/

namespace Prosody.Dispatch

variable {ε η ω π ρ : Type*} [DecidableEq ε] [DecidableEq η] [DecidableEq ω] [LinearOrder π]

/-! ## Handlers -/

/-- The handlers of a table in an order of their priorities. -/
structure IsIndex (t : Table η π) (index : List η) : Prop where
  nodup : index.Nodup
  mem : ∀ h, h ∈ index ↔ (t.get h).isSome
  sorted : index.Pairwise fun a b => ∀ p q, t.get a = some p → t.get b = some q → q ≤ p

/-- `table.sort`, which may order handlers of the same priority differently each time. -/
structure Sorting (η π : Type*) [DecidableEq η] [LinearOrder π] where
  index : ℕ → Table η π → List η
  isIndex : ∀ n t, IsIndex t (index n t)

structure Registry (ε η π : Type*) where
  handlers : ε → Option (List η)
  eventMap : ε → Option (Table η π)
  rebuilt : ℕ
  /-- The handlers that are to be called. -/
  registered : ε → Table η π

namespace Registry

def new : Registry ε η π where
  handlers _ := none
  eventMap _ := none
  rebuilt := 0
  registered _ := ∅

/-- An access to `handlers`, whose entries are built on demand. -/
def getHandlers (sorting : Sorting η π) (r : Registry ε η π) (event : ε) :
    Option (List η) × Registry ε η π :=
  match r.handlers event with
  | some index => (some index, r)
  | none =>
    match r.eventMap event with
    | none => (none, r)
    | some map =>
      if map.keys = ∅ then (none, r)
      else
        let index := sorting.index r.rebuilt map
        (some index, { r with
          handlers := Function.update r.handlers event (some index)
          rebuilt := r.rebuilt + 1 })

def addHandler [Zero π] (r : Registry ε η π) (event : ε) (handler : η) (priority : Option π) :
    Registry ε η π where
  eventMap :=
    match r.eventMap event with
    | some map => Function.update r.eventMap event (some (map.set handler (priority.getD 0)))
    | none => Function.update r.eventMap event (some (Table.set ∅ handler (priority.getD 0)))
  handlers := Function.update r.handlers event none
  rebuilt := r.rebuilt
  registered :=
    Function.update r.registered event ((r.registered event).set handler (priority.getD 0))

def removeHandler (r : Registry ε η π) (event : ε) (handler : η) : Registry ε η π :=
  match r.eventMap event with
  | none => r
  | some map =>
    let map := map.set handler none
    { r with
      handlers := Function.update r.handlers event none
      eventMap := Function.update r.eventMap event (if map.keys = ∅ then none else some map)
      registered :=
        Function.update r.registered event ((r.registered event).set handler none) }

end Registry

/-! ## Wrappers -/

structure Wrappers (ε ω : Type*) where
  arrays : ℕ → List ω
  allocated : ℕ
  globalWrappers : Option ℕ
  wrappers : ε → Option ℕ
  /-- The wrappers that are to be called for an event, or for all of them. -/
  wanted : Option ε → List ω

namespace Wrappers

def new : Wrappers ε ω where
  arrays _ := []
  allocated := 0
  globalWrappers := none
  wrappers _ := none
  wanted _ := []

/-- The array for an event, or for all events, whose name is `false`. -/
def array (w : Wrappers ε ω) : Option ε → Option ℕ
  | none => w.globalWrappers
  | some event => w.wrappers event

def setArray (w : Wrappers ε ω) (event : Option ε) (a : Option ℕ) : Wrappers ε ω :=
  match event with
  | none => { w with globalWrappers := a }
  | some event => { w with wrappers := Function.update w.wrappers event a }

def addWrapper (w : Wrappers ε ω) (event : Option ε) (wrapper : ω) : Wrappers ε ω :=
  let w := { w with wanted := Function.update w.wanted event (w.wanted event ++ [wrapper]) }
  match w.array event with
  | some a => { w with arrays := Function.update w.arrays a (w.arrays a ++ [wrapper]) }
  | none =>
    { w.setArray event (some w.allocated) with
      arrays := Function.update w.arrays w.allocated [wrapper]
      allocated := w.allocated + 1 }

def removeWrapper (w : Wrappers ε ω) (event : Option ε) (wrapper : ω) : Wrappers ε ω :=
  let left (ws : List ω) := ws.filter fun x => decide (x ≠ wrapper)
  let w := { w with wanted := Function.update w.wanted event (left (w.wanted event)) }
  match w.array event with
  | none => w
  | some a =>
    { w.setArray event (if left (w.arrays a) = [] then none else some a) with
      arrays := Function.update w.arrays a (left (w.arrays a)) }

end Wrappers

/-! ## Firing -/

/-- What the function `c` of a call to `fire_event` shares with its wrappers, and what has happened
in this call. -/
structure Firing (ε η ω π ρ : Type*) where
  event : ε
  w : ℕ
  currWrapper : ℕ
  /-- Whether the wrappers of all events have been reached. -/
  reached : Bool
  /-- The wrappers to be called, those of the event and then those of all events. -/
  eventWrappers : List ω
  globalWrappers : List ω
  called : List ω
  /-- The handlers to be called, from when the first one is. -/
  registered : Option (Table η π)
  ran : List η
  returned : List (Option ρ)
  /-- What `_fire_event` has returned. -/
  answer : Option (Option ρ)
  /-- What `fire_event` has returned. -/
  result : Option (Option ρ)

/-- A function that has been called and has not returned. -/
inductive Frame (η : Type*)
  | wrapping (f : ℕ) (continued : Bool)
  | handling (f : ℕ) (rest : List η)
deriving DecidableEq

/-- The call that the function was called for. -/
def Frame.fire : Frame η → ℕ
  | .wrapping f _ => f
  | .handling f _ => f

structure State (ε η ω π ρ : Type*) where
  registry : Registry ε η π
  wrappers : Wrappers ε ω
  firings : ℕ → Option (Firing ε η ω π ρ)
  fired : ℕ
  stack : List (Frame η)
  /-- Whether `nil` has been called. -/
  failed : Bool

/-- What the running function does, or who has called none. -/
inductive Act (ε η ω π ρ : Type*)
  | addHandler (event : ε) (handler : η) (priority : Option π)
  | removeHandler (event : ε) (handler : η)
  | addWrapper (event : Option ε) (wrapper : ω)
  | removeWrapper (event : Option ε) (wrapper : ω)
  | fire (event : ε)
  /-- A wrapper calls its continuation, which it does once. -/
  | proceed
  | ret (value : Option ρ)

namespace State

def new : State ε η ω π ρ where
  registry := .new
  wrappers := .new
  firings _ := none
  fired := 0
  stack := []
  failed := false

def update (s : State ε η ω π ρ) (f : ℕ) (g : Firing ε η ω π ρ → Firing ε η ω π ρ) :
    State ε η ω π ρ :=
  { s with firings := Function.update s.firings f ((s.firings f).map g) }

/-- A call for `f` returns to a wrapper of `f` or to who has called `fire_event`. -/
def deliver (s : State ε η ω π ρ) (f : ℕ) (value : Option ρ) : State ε η ω π ρ :=
  match s.stack with
  | .wrapping f' _ :: _ =>
    if f' = f then s else s.update f fun F => { F with result := some value }
  | _ => s.update f fun F => { F with result := some value }

/-- `_fire_event`, up to the call of the first handler. -/
def fireEvent (sorting : Sorting η π) (s : State ε η ω π ρ) (f : ℕ) : State ε η ω π ρ :=
  match s.firings f with
  | none => s
  | some F =>
    let found := s.registry.getHandlers sorting F.event
    let s := { s with registry := found.2 }
    let registered := s.registry.registered F.event
    match found.1 with
    | some (h :: rest) =>
      { s.update f fun F => { F with registered := some registered, ran := [h] } with
        stack := .handling f rest :: s.stack }
    | _ =>
      (s.update f fun F => { F with
        registered := some registered, answer := some none }).deliver f none

/-- The call of `w[curr_wrapper]`. -/
def callWrapper (s : State ε η ω π ρ) (f : ℕ) : State ε η ω π ρ :=
  match s.firings f with
  | none => s
  | some F =>
    match (s.wrappers.arrays F.w)[F.currWrapper - 1]? with
    | none => { s with failed := true }
    | some x =>
      { s.update f fun F => { F with called := F.called ++ [x] } with
        stack := .wrapping f false :: s.stack }

def fire (sorting : Sorting η π) (s : State ε η ω π ρ) (event : ε) : State ε η ω π ρ :=
  let f := s.fired
  let own := s.wrappers.wanted (some event)
  let w := s.wrappers.wrappers event <|> s.wrappers.globalWrappers
  let reached := (s.wrappers.wrappers event).isNone
  let F : Firing ε η ω π ρ := {
    event := event
    w := w.getD 0
    currWrapper := (w.map fun a => (s.wrappers.arrays a).length).getD 0
    reached := reached
    eventWrappers := own
    globalWrappers := if reached then s.wrappers.wanted none else []
    called := []
    registered := none
    ran := []
    returned := []
    answer := none
    result := none }
  let s := { s with firings := Function.update s.firings f (some F), fired := f + 1 }
  if w.isSome then s.callWrapper f else s.fireEvent sorting f

/-- The function `c`. -/
def c (sorting : Sorting η π) (s : State ε η ω π ρ) (f : ℕ) : State ε η ω π ρ :=
  match s.firings f with
  | none => s
  | some F =>
    let s := s.update f fun F => { F with currWrapper := F.currWrapper - 1 }
    if F.currWrapper - 1 = 0 then
      match s.wrappers.globalWrappers with
      | none => s.fireEvent sorting f
      | some g =>
        if F.w = g then s.fireEvent sorting f
        else
          (s.update f fun F => { F with
            w := g
            currWrapper := (s.wrappers.arrays g).length
            reached := true
            globalWrappers := s.wrappers.wanted none }).callWrapper f
    else s.callWrapper f

def proceed (sorting : Sorting η π) (s : State ε η ω π ρ) : State ε η ω π ρ :=
  match s.stack with
  | .wrapping f false :: rest =>
    { s with stack := .wrapping f true :: rest }.c sorting f
  | _ => s

def ret (s : State ε η ω π ρ) (value : Option ρ) : State ε η ω π ρ :=
  match s.stack with
  | .wrapping f true :: rest => { s with stack := rest }.deliver f value
  | .handling f [] :: rest =>
    ({ s with stack := rest }.update f fun F => { F with
      returned := F.returned ++ [value], answer := some value }).deliver f value
  | .handling f (h :: later) :: rest =>
    match value with
    | none =>
      { s.update f fun F => { F with
          returned := F.returned ++ [none], ran := F.ran ++ [h] } with
        stack := .handling f later :: rest }
    | some v =>
      ({ s with stack := rest }.update f fun F => { F with
        returned := F.returned ++ [some v], answer := some (some v) }).deliver f (some v)
  | _ => s

end State

def step [Zero π] (sorting : Sorting η π) (s : State ε η ω π ρ) (a : Act ε η ω π ρ) :
    State ε η ω π ρ :=
  if s.failed then s
  else
    match a with
    | .addHandler event handler priority =>
      { s with registry := s.registry.addHandler event handler priority }
    | .removeHandler event handler =>
      { s with registry := s.registry.removeHandler event handler }
    | .addWrapper event wrapper => { s with wrappers := s.wrappers.addWrapper event wrapper }
    | .removeWrapper event wrapper =>
      { s with wrappers := s.wrappers.removeWrapper event wrapper }
    | .fire event => s.fire sorting event
    | .proceed => s.proceed sorting
    | .ret value => s.ret value

/-! ## What is meant -/

/-- The handlers that are to be called have been called in their order, until one of them returned
something. -/
structure Handled (F : Firing ε η ω π ρ) (t : Table η π) (index : List η) : Prop where
  isIndex : IsIndex t index
  running : F.answer = none → ∃ k < index.length,
    F.ran = index.take (k + 1) ∧ F.returned = List.replicate k none
  nothing : F.answer = some none →
    F.ran = index ∧ F.returned = List.replicate index.length none
  something : ∀ v, F.answer = some (some v) → ∃ k < index.length,
    F.ran = index.take (k + 1) ∧ F.returned = List.replicate k none ++ [some v]

/-- All wrappers that are to be called, the last one first. -/
def Firing.wrappers (F : Firing ε η ω π ρ) : List ω :=
  F.eventWrappers.reverse ++ F.globalWrappers.reverse

structure Right (F : Firing ε η ω π ρ) : Prop where
  /-- Wrappers are called in their order, each of them once. -/
  called : F.called <+: F.wrappers
  /-- No handler is called before all wrappers are. -/
  before : F.registered = none → F.ran = [] ∧ F.answer = none
  within : F.registered.isSome → F.called = F.wrappers
  handled : ∀ t, F.registered = some t → ∃ index, Handled F t index
  /-- Without wrappers, what the handlers returned is returned. -/
  result : F.called = [] → F.result = F.answer

/-- The index of an event is that of its handlers. -/
def Registry.Consistent (r : Registry ε η π) : Prop :=
  ∀ event index, r.handlers event = some index → IsIndex (r.registered event) index

structure State.Right (s : State ε η ω π ρ) : Prop where
  failed : s.failed = false
  consistent : s.registry.Consistent
  firings : ∀ f F, s.firings f = some F → Dispatch.Right F

/-- No wrapper is removed that a call has still to come to, and while the wrappers of all events are
gone through, they are not exchanged for others. -/
def Careful (s : State ε η ω π ρ) : Act ε η ω π ρ → Prop
  | .removeWrapper event wrapper =>
    ∀ f F, .wrapping f false ∈ s.stack → s.firings f = some F →
      s.wrappers.array event = some F.w →
      wrapper ∉ (s.wrappers.arrays F.w).take (F.currWrapper - 1)
  | .proceed =>
    ∀ f F rest, s.stack = .wrapping f false :: rest → s.firings f = some F →
      F.reached = true → F.currWrapper = 1 → ∀ g, s.wrappers.globalWrappers = some g → g = F.w
  | _ => True

end Prosody.Dispatch
