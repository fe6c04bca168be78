import Prosody.Library.Runs
import Prosody.Library.Table
import Prosody.Util.Jid

/-! # The blocklist of a user

`plugins/mod_blocklist.lua`: the stored list, its two caches, the migration from the privacy lists
of old and the requests that edit the list, for one user. What follows an acknowledged request is
left out. -/

namespace Prosody.Blocking

open Jid (Stringprep)

/-- An item of a list of `mod_privacy`. -/
structure PrivacyItem where
  type : String
  action : String
  value : Option String
  deriving DecidableEq

structure PrivacyData where
  lists : Option (Table String (Option (List PrivacyItem)))
  default : Option String

structure Info where
  created : Nat
  modified : Option Nat
  migrated : Bool
  deriving DecidableEq

/-- What a blocklist has under `false`. -/
inductive Mark where
  | absent
  | flag
  | info (info : Info)
  deriving DecidableEq

/-- Since when a JID is blocked, or just that it is. -/
abbrev Entry := Option Nat

structure Blocklist where
  mark : Mark
  items : Table String Entry
  deriving DecidableEq

structure State where
  stored : Option Blocklist
  /-- What the store of `mod_privacy` has for the user. -/
  privacy : Option PrivacyData
  cache : Option Blocklist
  cache2 : Option Blocklist

/-- The time, and how the calls to other components turn out. -/
structure Env where
  now : Nat
  userExists : Bool
  readWorks : Bool
  privacyWorks : Bool
  migrationWorks : Bool
  writeWorks : Bool

/-! ## Loading and saving -/

def setBlocklist (works : Bool) (blocklist : Blocklist) (s : State) : Bool × State :=
  if works then
    (true, { s with stored := some blocklist, cache2 := some blocklist, cache := some blocklist })
  else (false, s)

def PrivacyData.defaultItems (data : PrivacyData) : Option (List PrivacyItem) := do
  let lists ← data.lists
  let name ← data.default
  let list ← lists.get name
  list

def migrateItem (enc : Stringprep) (items : Table String Entry) (item : PrivacyItem) :
    Table String Entry :=
  if item.type = "jid" ∧ item.action = "deny" then
    match item.value.bind (Jid.prep enc) with
    | none => items
    | some jid => items.set jid (some none)
  else items

def migrateItems (enc : Stringprep) (items : List PrivacyItem) : Table String Entry :=
  items.foldl (migrateItem enc) ∅

def migratePrivacyList (enc : Stringprep) (env : Env) (s : State) : Option Blocklist × State :=
  let data := if env.privacyWorks then s.privacy else none
  match data.bind PrivacyData.defaultItems with
  | none => (none, s)
  | some items =>
    let migrated : Blocklist :=
      { mark := .info { created := env.now, modified := none, migrated := true }
        items := migrateItems enc items }
    (some migrated, (setBlocklist env.migrationWorks migrated s).2)

def getBlocklist (enc : Stringprep) (env : Env) (s : State) : Blocklist × State :=
  match s.cache2 with
  | some blocklist => (blocklist, { s with cache := some blocklist })
  | none =>
    if env.userExists then
      let loaded :=
        match if env.readWorks then s.stored else none with
        | some blocklist => (some blocklist, s)
        | none => migratePrivacyList enc env s
      let blocklist := loaded.1.getD
        { mark := .info { created := env.now, modified := none, migrated := false }, items := ∅ }
      (blocklist, { loaded.2 with cache2 := some blocklist, cache := some blocklist })
    else
      -- `null_blocklist`
      ({ mark := .absent, items := ∅ }, s)

/-- The list as every user of the module gets it. -/
def fetch (enc : Stringprep) (env : Env) (s : State) : Blocklist × State :=
  match s.cache with
  | some blocklist => (blocklist, s)
  | none => getBlocklist enc env s

def isBlocked (enc : Stringprep) (env : Env) (s : State) (jid : String) : Bool × State :=
  let (blocklist, s) := fetch enc env s
  let blocked := (blocklist.items.get jid).isSome ||
    match Jid.split jid with
    | none => false
    | some parts => (blocklist.items.get parts.host).isSome ||
        parts.node.any fun node => (blocklist.items.get (node ++ "@" ++ parts.host)).isSome
  (blocked, s)

/-! ## Requests -/

/-- A request, with the `jid` attributes of its items. -/
structure Edit where
  block : Bool
  jids : List (Option String)

/-- An edit after its checks. -/
structure Change where
  block : Bool
  jids : List String
  now : Nat
  deriving DecidableEq

/-- The blocked JIDs after a change. -/
def Change.apply (items : Table String Entry) (c : Change) : Table String Entry :=
  if c.block ∨ c.jids ≠ [] then
    items.setEach c.jids fun _ => if c.block then some (some c.now) else none
  else ∅

inductive Reply where
  | result
  | jidMalformed
  | badRequest
  | internalServerError
  deriving DecidableEq

def Blocklist.touch (now : Nat) (b : Blocklist) : Blocklist :=
  match b.mark with
  | .info info => { b with mark := .info { info with modified := some now } }
  | _ => b

/-- `modified` is set in a table that the old list, the new one and the caches share. -/
def State.touch (now : Nat) (s : State) : State :=
  { s with cache := s.cache.map (Blocklist.touch now), cache2 := s.cache2.map (Blocklist.touch now) }

def newBlocklist (blocklist : Blocklist) (c : Change) : Blocklist :=
  { mark :=
      match blocklist.mark with
      | .absent => .info { created := c.now, modified := none, migrated := false }
      | .flag => .flag
      | .info info => .info { info with modified := some c.now }
    items := c.apply blocklist.items }

/-- The checks of `edit_blocklist`. -/
def Edit.check (enc : Stringprep) (now : Nat) (e : Edit) : Except Reply Change :=
  match e.jids.mapM fun jid => jid.bind (Jid.prep enc) with
  | none => .error .jidMalformed
  | some jids =>
    if e.block ∧ jids = [] then .error .badRequest
    else .ok { block := e.block, jids := jids, now := now }

def editBlocklist (enc : Stringprep) (env : Env) (s : State) (e : Edit) : Reply × State :=
  match e.check enc env.now with
  | .error reply => (reply, s)
  | .ok change =>
    let (blocklist, s) := fetch enc env s
    let (ok, s) := setBlocklist env.writeWorks (newBlocklist blocklist change) (s.touch env.now)
    (if ok then .result else .internalServerError, s)

/-! ## Runs -/

inductive Input where
  /-- The garbage collector, or other users of the second cache, drop the list. -/
  | expire (cache cache2 : Bool)
  | lookup (env : Env) (jid : String)
  | edit (env : Env) (e : Edit)

/-- One input, and the change that is acknowledged. -/
def State.step (enc : Stringprep) (s : State) : Input → State × Option Change
  | .expire cache cache2 =>
    ({ s with
        cache := if cache then none else s.cache
        cache2 := if cache2 then none else s.cache2 }, none)
  | .lookup env jid => ((isBlocked enc env s jid).2, none)
  | .edit env e =>
    let (reply, s) := editBlocklist enc env s e
    (s, if reply = .result then (e.check enc env.now).toOption else none)

def State.next (enc : Stringprep) (s : State) (input : Input) : State := (s.step enc input).1

def State.acknowledged (enc : Stringprep) : State → List Input → List Change
  | _, [] => []
  | s, input :: inputs =>
    (s.step enc input).2.toList ++ (s.next enc input).acknowledged enc inputs

def State.initial (stored : Option Blocklist) (privacy : Option PrivacyData) : State :=
  { stored := stored, privacy := privacy, cache := none, cache2 := none }

/-! ## The list that counts -/

/-- The default list of the old store. -/
def State.legacy (s : State) : Option (List PrivacyItem) := s.privacy.bind PrivacyData.defaultItems

/-- The stored list, or else the one that is still to be migrated. -/
def State.effective (enc : Stringprep) (s : State) : Table String Entry :=
  match s.stored with
  | some blocklist => blocklist.items
  | none => (s.legacy.map (migrateItems enc)).getD ∅

/-- The list that counts is the result of the acknowledged changes, and once there has been one it
is the stored list. -/
def State.Kept (enc : Stringprep) (s : State) (inputs : List Input) : Prop :=
  (Machine.run (State.next enc) s inputs).effective enc =
      (s.acknowledged enc inputs).foldl Change.apply (s.effective enc) ∧
    (s.stored.isSome ∨ s.acknowledged enc inputs ≠ [] →
      (Machine.run (State.next enc) s inputs).stored.isSome)

/-- A read that is needed fails and hides a list. -/
def State.Hides (s : State) (env : Env) : Prop :=
  s.cache = none ∧ s.cache2 = none ∧ env.userExists = true ∧
    (s.stored.isSome ∧ env.readWorks = false ∨
      s.stored = none ∧ s.legacy.isSome ∧ env.privacyWorks = false)

/-- The list is needed, and the user who has it is unknown. -/
def State.Denies (s : State) (env : Env) : Prop :=
  s.cache = none ∧ s.cache2 = none ∧ env.userExists = false ∧ (s.stored.isSome ∨ s.legacy.isSome)

def State.Clear (enc : Stringprep) (s : State) : Input → Prop
  | .expire _ _ => True
  | .lookup env _ => ¬ s.Hides env
  | .edit env e => (e.check enc env.now).isOk → ¬ s.Hides env ∧ ¬ s.Denies env

/-- The caches have the list that counts. -/
structure State.Coherent (enc : Stringprep) (s : State) : Prop where
  cache : ∀ blocklist, s.cache = some blocklist → blocklist.items = s.effective enc
  cache2 : ∀ blocklist, s.cache2 = some blocklist → blocklist.items = s.effective enc

section

variable {enc : Stringprep} {env : Env} {s s' : State}

/-- Loading the list makes no difference to it. -/
structure Loads (enc : Stringprep) (s s' : State) : Prop where
  coherent : s'.Coherent enc
  effective : s'.effective enc = s.effective enc
  stored : s.stored.isSome → s'.stored.isSome

theorem State.Coherent.loads (h : s.Coherent enc) : Loads enc s s :=
  ⟨h, rfl, id⟩

/-- A list that is found in a store goes into both caches. -/
theorem loads_cached {blocklist : Blocklist} (hitems : blocklist.items = s.effective enc)
    (hstored : s'.effective enc = s.effective enc) (hkeeps : s.stored.isSome → s'.stored.isSome) :
    Loads enc s { s' with cache2 := some blocklist, cache := some blocklist } where
  coherent := by
    constructor
    all_goals
      rintro _ ⟨⟩
      exact hitems.trans hstored.symm
  effective := hstored
  stored := hkeeps

theorem effective_setBlocklist (works : Bool) (s : State) {blocklist : Blocklist}
    (h : blocklist.items = s.effective enc) :
    (setBlocklist works blocklist s).2.effective enc = s.effective enc := by
  unfold setBlocklist
  split
  · exact h
  · rfl

theorem isSome_setBlocklist (works : Bool) (s : State) (blocklist : Blocklist)
    (h : s.stored.isSome) : (setBlocklist works blocklist s).2.stored.isSome := by
  unfold setBlocklist
  split
  · rfl
  · exact h

theorem getBlocklist_loads (h : s.Coherent enc) (hcache : s.cache = none)
    (hclear : ¬ s.Hides env) :
    Loads enc s (getBlocklist enc env s).2 ∧
      (¬ s.Denies env → (getBlocklist enc env s).1.items = s.effective enc) := by
  unfold getBlocklist
  cases hcache2 : s.cache2 with
  | some blocklist =>
    have hitems := h.cache2 blocklist hcache2
    refine ⟨⟨⟨?_, ?_⟩, rfl, id⟩, fun _ => hitems⟩
    all_goals
      rintro _ ⟨⟩
      exact hitems
  | none =>
    cases hexists : env.userExists with
    | false =>
      refine ⟨h.loads, fun hknown => ?_⟩
      have hnothing : s.stored = none ∧ s.legacy = none := by
        constructor
        · by_contra hsome
          exact hknown ⟨hcache, hcache2, hexists,
            Or.inl (Option.isSome_iff_ne_none.mpr hsome)⟩
        · by_contra hsome
          exact hknown ⟨hcache, hcache2, hexists,
            Or.inr (Option.isSome_iff_ne_none.mpr hsome)⟩
      simp [State.effective, hnothing]
    | true =>
      dsimp only
      rw [if_pos rfl]
      cases hstored : s.stored with
      | some blocklist =>
        have hread : env.readWorks = true := by
          by_contra hfails
          exact hclear ⟨hcache, hcache2, hexists,
            Or.inl ⟨by rw [hstored]; rfl, Bool.eq_false_iff.mpr hfails⟩⟩
        have hitems : blocklist.items = s.effective enc := by
          rw [State.effective, hstored]
        simp only [hread, if_true, Option.getD_some]
        exact ⟨loads_cached hitems rfl id, fun _ => hitems⟩
      | none =>
        simp only [ite_self]
        unfold migratePrivacyList
        cases hlegacy : s.legacy with
        | none =>
          have hnone : ((if env.privacyWorks then s.privacy else none).bind
              PrivacyData.defaultItems) = none := by
            split
            · exact hlegacy
            · rfl
          have hitems : (∅ : Table String Entry) = s.effective enc := by
            simp [State.effective, hstored, hlegacy]
          simp only [hnone, Option.getD_none]
          exact ⟨loads_cached hitems rfl id, fun _ => hitems⟩
        | some items =>
          have hprivacy : env.privacyWorks = true := by
            by_contra hfails
            exact hclear ⟨hcache, hcache2, hexists,
              Or.inr ⟨hstored, by rw [hlegacy]; rfl, Bool.eq_false_iff.mpr hfails⟩⟩
          have hsome : s.privacy.bind PrivacyData.defaultItems = some items := hlegacy
          have hitems : migrateItems enc items = s.effective enc := by
            simp [State.effective, hstored, hlegacy]
          simp only [hprivacy, if_true, hsome, Option.getD_some]
          refine ⟨loads_cached hitems (effective_setBlocklist _ s hitems) ?_, fun _ => hitems⟩
          exact isSome_setBlocklist _ s _

theorem fetch_loads (h : s.Coherent enc) (hclear : ¬ s.Hides env) :
    Loads enc s (fetch enc env s).2 ∧
      (¬ s.Denies env → (fetch enc env s).1.items = s.effective enc) := by
  unfold fetch
  cases hcache : s.cache with
  | some blocklist => exact ⟨h.loads, fun _ => h.cache blocklist hcache⟩
  | none => exact getBlocklist_loads h hcache hclear

theorem touch_items (now : Nat) (blocklist : Blocklist) :
    (blocklist.touch now).items = blocklist.items := by
  unfold Blocklist.touch
  split <;> rfl

theorem Loads.touch (h : Loads enc s s') (now : Nat) : Loads enc s (s'.touch now) where
  coherent := by
    constructor
    · intro blocklist hcache
      obtain ⟨old, hold, rfl⟩ := Option.map_eq_some_iff.mp hcache
      exact (touch_items now old).trans (h.coherent.cache old hold)
    · intro blocklist hcache
      obtain ⟨old, hold, rfl⟩ := Option.map_eq_some_iff.mp hcache
      exact (touch_items now old).trans (h.coherent.cache2 old hold)
  effective := h.effective
  stored := h.stored

/-- A step applies the change it acknowledges, and nothing else, to the list that counts. -/
structure Follows (enc : Stringprep) (s : State) (result : State × Option Change) : Prop where
  coherent : result.1.Coherent enc
  effective : result.1.effective enc =
    result.2.toList.foldl Change.apply (s.effective enc)
  stored : s.stored.isSome ∨ result.2 ≠ none → result.1.stored.isSome

theorem Loads.follows (h : Loads enc s s') : Follows enc s (s', none) where
  coherent := h.coherent
  effective := h.effective
  stored hstored := h.stored (hstored.resolve_right fun hno => hno rfl)

theorem step_edit (h : s.Coherent enc) {e : Edit} (hclear : s.Clear enc (.edit env e)) :
    Follows enc s (s.step enc (.edit env e)) := by
  cases hcheck : e.check enc env.now with
  | error reply =>
    simp only [State.step, editBlocklist, hcheck, Except.toOption, ite_self]
    exact h.loads.follows
  | ok change =>
    obtain ⟨hhides, hdenies⟩ := hclear (by rw [hcheck]; rfl)
    obtain ⟨hloads, hitems⟩ := fetch_loads h hhides
    have hold := hitems hdenies
    simp only [State.step, editBlocklist, hcheck, Except.toOption, setBlocklist]
    cases hwrite : env.writeWorks with
    | false => exact (hloads.touch env.now).follows
    | true =>
      have hnew : (newBlocklist (fetch enc env s).1 change).items =
          change.apply (s.effective enc) := by
        rw [← hold]
        rfl
      refine ⟨⟨?_, ?_⟩, hnew, fun _ => rfl⟩
      all_goals
        rintro _ ⟨⟩
        rfl

theorem step_follows (h : s.Coherent enc) {input : Input} (hclear : s.Clear enc input) :
    Follows enc s (s.step enc input) := by
  cases input with
  | expire cache cache2 =>
    have hloads : Loads enc s { s with
        cache := if cache then none else s.cache
        cache2 := if cache2 then none else s.cache2 } := by
      refine ⟨⟨fun blocklist hcache => ?_, fun blocklist hcache => ?_⟩, rfl, id⟩
      · cases cache with
        | true => cases hcache
        | false => exact h.cache blocklist hcache
      · cases cache2 with
        | true => cases hcache
        | false => exact h.cache2 blocklist hcache
    exact hloads.follows
  | lookup env jid => exact (fetch_loads h hclear).1.follows
  | edit env e => exact step_edit h hclear

end

theorem State.Coherent.kept {enc : Stringprep} {s : State} (h : s.Coherent enc)
    {inputs : List Input}
    (hclear : Machine.Guarded (State.next enc) (State.Clear enc) s inputs) :
    s.Kept enc inputs := by
  induction inputs generalizing s with
  | nil => exact ⟨rfl, fun hstored => hstored.resolve_right fun hno => hno rfl⟩
  | cons input inputs ih =>
    obtain ⟨hnext, heffective, hstored⟩ := step_follows h hclear.1
    obtain ⟨hlast, hkept⟩ := ih hnext hclear.2
    constructor
    · rw [State.acknowledged, List.foldl_append, ← heffective]
      exact hlast
    · intro hsome
      refine hkept ?_
      by_cases hack : (s.step enc input).2 = none
      · rw [State.acknowledged, hack] at hsome
        exact hsome.imp (fun hold => hstored (Or.inl hold)) id
      · exact Or.inl (hstored (Or.inr hack))

/-- Unless a failing read hides a list, a run keeps to the acknowledged changes. -/
theorem kept_of_clear (enc : Stringprep) (stored : Option Blocklist)
    (privacy : Option PrivacyData) (inputs : List Input)
    (hclear : Machine.Guarded (State.next enc) (State.Clear enc) (State.initial stored privacy)
      inputs) :
    (State.initial stored privacy).Kept enc inputs := by
  refine State.Coherent.kept ⟨?_, ?_⟩ hclear
  all_goals
    intro blocklist hcache
    cases hcache

/-! ## A read that fails -/

def plainPrep : Stringprep := { nodeprep := some, nameprep := some, resourceprep := some }

def montague : Blocklist :=
  { mark := .info { created := 1, modified := none, migrated := false }
    items := (∅ : Table String Entry).set "romeo@montague.lit" (some (some 1)) }

def blockTybalt : Edit := { block := true, jids := [some "tybalt@capulet.lit"] }

def working : Env :=
  { now := 2
    userExists := true
    readWorks := true
    privacyWorks := true
    migrationWorks := true
    writeWorks := true }

theorem kept_working :
    (State.initial (some montague) none).Kept plainPrep
      [.lookup working "nurse@capulet.lit", .expire true true, .edit working blockTybalt] := by
  refine kept_of_clear plainPrep (some montague) none _ ⟨?_, trivial, ?_, trivial⟩
  · rintro ⟨-, -, -, ⟨-, hread⟩ | ⟨hstored, -⟩⟩
    · cases hread
    · cases hstored
  · intro _
    constructor
    · rintro ⟨-, -, -, ⟨-, hread⟩ | ⟨hstored, -⟩⟩
      · cases hread
      · cases hstored
    · rintro ⟨-, -, hunknown, -⟩
      cases hunknown

/-- The list that could not be read is replaced by one with the new entry only. -/
theorem failing_read_loses_entries :
    ¬ (State.initial (some montague) none).Kept plainPrep
      [.edit { working with readWorks := false } blockTybalt] := by
  intro hkept
  have hlost := congrArg (fun items => (Table.get items "romeo@montague.lit").isSome) hkept.1
  revert hlost
  decide +kernel

end Prosody.Blocking
