import Mathlib.Data.Prod.Lex
import Mathlib.Data.String.Basic
import Prosody.Core.ModuleRuns

/-! # Loading and unloading leave nothing behind

When a load that fails, and a load with the unload that follows it, leave the handlers, the items
and the modules as they were. -/

namespace Prosody.Modules

variable {ι : Type} [DecidableEq ι]

/-! ## What is to be restored -/

/-- The handlers, the items and the absence of a module are as they were. -/
structure Restored (ord : Orders) (name : String) (w w' : World ι) : Prop where
  handlers : w'.handlers = w.handlers
  items : ∀ place key, w'.getItems ord place key = w.getItems ord place key
  absent : ∀ place, w.getModule place name = none → w'.getModule place name = none

/-- Every addition that has been announced since has been followed by the removal. -/
def Matched (w w' : World ι) : Prop :=
  ∃ new, w'.fired = w.fired ++ new ∧
    ∀ object key item, new.count ⟨object, true, key, item⟩ = new.count ⟨object, false, key, item⟩

def loadedOnto (w w' : World ι) (place : Place) (name : String) : List Place :=
  (if place = .server then [.server] else [place, .server]).filter fun q =>
    (w.getModule q name).isNone && (w'.getModule q name).isSome

/-- The module makes calls, and then it is unloaded from where it has been put. -/
def laterUnloaded (ord : Orders) (w : World ι) (places : List Place) (name : String)
    (later : List (Place × Call ι)) : World ι :=
  places.foldl (fun w q => (doUnloadModule ord w q name).1)
    (later.foldl (fun w c => if c.1 ∈ places then callLoaded w c.1 name c.2 else w) w)

/-- A load that fails leaves nothing behind, and neither does a load with the unload. -/
structure LeavesNothing (ord : Orders) (w : World ι) (place : Place) (name : String)
    (code : Option (Plugin ι)) (later : List (Place × Call ι)) : Prop where
  failed : (doLoadModule w place name code).2 = none →
    Restored ord name w (doLoadModule w place name code).1
  unloaded : (doLoadModule w place name code).2 ≠ none →
    Restored ord name w (laterUnloaded ord (doLoadModule w place name code).1
        (loadedOnto w (doLoadModule w place name code).1 place name) name later) ∧
      Matched w (laterUnloaded ord (doLoadModule w place name code).1
        (loadedOnto w (doLoadModule w place name code).1 place name) name later)

/-! ## Which code is executed -/

def Plugin.loadRaises (p : Plugin ι) : Bool := (p.load.map Prod.snd).getD false

/-- The statements of the body and, unless it raises, of `load`. -/
def Plugin.statements (p : Plugin ι) : List (Statement ι) :=
  p.body ++ if p.bodyRaises then [] else (p.load.map Prod.fst).getD []

/-- The code of a load: the module's own, and that for a host. -/
structure Loading (ι : Type) where
  own : Option (Plugin ι)
  part : Option (HostPart ι)

def hostPart (addHost : Option (String → HostPart ι)) : Place → Option (HostPart ι)
  | .server => none
  | .host name => addHost.map fun f => f name

/-- A module that turns global while it is loaded on a host is added to the host after that. -/
def Plugin.hostPart (p : Plugin ι) (place : Place) : Option (HostPart ι) :=
  if !p.bodyRaises && turnsGlobal p.statements then Modules.hostPart p.addHost place else none

def World.loading (w : World ι) (place : Place) (name : String) (code : Option (Plugin ι)) :
    Loading ι :=
  if w.Known place ∧ w.getModule place name = none then
    match w.getModule .server name with
    | some mod => ⟨none, hostPart mod.addHost place⟩
    | none => ⟨code, code.bind fun p => p.hostPart place⟩
  else ⟨none, none⟩

def Plugin.ownPlace (p : Plugin ι) (place : Place) : Place :=
  if turnsGlobal p.statements then .server else place

namespace Loading

variable (l : Loading ι) (events : Place → EventsObject) (place : Place)

def touches : List Touch :=
  (l.own.map fun p => Modules.touches events place p.statements).getD [] ++
    (l.part.map fun part => Modules.touches events place (part.calls.map .call)).getD []

/-- Only what comes last decides: a `load` that raises does not matter where `add_host` follows. -/
def succeeds : Bool :=
  match l.part, l.own with
  | some part, _ => part.ending = .completes
  | none, some p => !p.bodyRaises && !p.loadRaises
  | none, none => false

/-- The body has turned global and then raises. -/
def leftBehind : Bool :=
  place ≠ .server && l.own.any fun p => p.bodyRaises && turnsGlobal p.body

def onto : List Place :=
  (l.part.map fun _ => place).toList ++ (l.own.map fun p => p.ownPlace place).toList

def unloadAt (q : Place) : Option (List (Call ι)) :=
  match l.part with
  | some part => if q = place then part.unload else l.own.bind Plugin.unload
  | none => l.own.bind Plugin.unload

/-- What the later calls of the module touch, and those of its `unload`. -/
def laterTouches (later : List (Place × Call ι)) : List Touch :=
  (later.flatMap fun c =>
    if c.1 ∈ l.onto place then (c.2.touch (events c.1)).toList else []) ++
  (l.onto place).flatMap fun q =>
    Modules.touches events q (((l.unloadAt place q).getD []).map .call)

def TurnsWithoutItems : Prop :=
  ∀ p, l.own = some p → place ≠ .server → turnsGlobal p.statements = true →
    ∀ key, itemsBeforeGlobal (fun _ => []) p.statements key = []

end Loading

/-- When nothing is left behind. -/
def Tidy (w : World ι) (place : Place) (name : String) (code : Option (Plugin ι))
    (later : List (Place × Call ι)) : Prop :=
  let l := w.loading place name code
  if l.succeeds then
    (∀ t ∈ l.touches w.events place ++ l.laterTouches w.events place later,
      w.handlers t.registration = none) ∧ l.TurnsWithoutItems place
  else
    (∀ t ∈ l.touches w.events place,
      lastLeft (l.touches w.events place) t.registration = some (w.handlers t.registration)) ∧
    l.leftBehind place = false

/-! ## What a loaded module holds -/

section

variable {w w' : World ι} {place q : Place} {name n : String} {m m' : Module ι} {ts us : List Touch}
  {S S' : EventsObject → String → ι → ℤ} {ps : List Place} {U : Place → Option (List (Call ι))}

omit [DecidableEq ι] in
theorem getModule_setModule (w : World ι) (place q : Place) (name n : String)
    (m : Option (Module ι)) :
    (w.setModule place name m).getModule q n =
      if q = place ∧ n = name then m else w.getModule q n := by
  unfold World.getModule World.setModule
  by_cases hq : q = place
  · subst hq
    simp [Table.get_set]
  · simp [hq]

omit [DecidableEq ι] in
theorem getItems_congr (ord : Orders) (h : ∀ q n, w'.getModule q n = w.getModule q n)
    (place : Place) (key : String) : w'.getItems ord place key = w.getItems ord place key := by
  have htable : w'.modulemap place = w.modulemap place := Table.ext (h place)
  unfold World.getItems
  rw [htable]
  simp only [h]

def Touched (ts : List Touch) (r : Registration) : Prop := ∃ t ∈ ts, t.registration = r

theorem touched_append {r : Registration} :
    Touched (ts ++ us) r ↔ Touched ts r ∨ Touched us r := by
  simp [Touched, or_and_right, exists_or]

theorem lastLeft_eq_none {r : Registration} : lastLeft ts r = none ↔ ¬Touched ts r := by
  rw [lastLeft_eq_none_iff]
  simp [Touched]

/-- What an object is still to hear of what is loaded on a place. -/
def owedAt (events : Place → EventsObject) (w : World ι) (name : String) (object : EventsObject)
    (key : String) (item : ι) (q : Place) : ℤ :=
  ((w.getModule q name).map fun m => owed events m object key item).getD 0

/-- The module is on the places `ps`. Of what it has touched, `ts`, there is only what it has
recorded there, and of the items that were announced only what it has there is not yet removed. -/
structure Held (w₀ : World ι) (name : String) (U : Place → Option (List (Call ι)))
    (ts : List Touch) (S : EventsObject → String → ι → ℤ) (ps : List Place) (w : World ι) :
    Prop where
  hosts : w.hosts = w₀.hosts
  nodup : ps.Nodup
  absent : ∀ q ∈ ps, w₀.getModule q name = none
  held : ∀ q ∈ ps, ∃ m, w.getModule q name = some m ∧ m.host = q ∧ m.unload = U q
  others : ∀ q n, ¬(q ∈ ps ∧ n = name) → w.getModule q n = w₀.getModule q n
  kept : ∀ r, ¬Touched ts r → w.handlers r = w₀.handlers r
  unrecorded : ∀ r, ¬Touched ts r → ∀ q ∈ ps, ∀ m, w.getModule q name = some m →
    m.Recorded r = false
  owes : ∀ r, Touched ts r → w.handlers r = none ∨
    ∃ q ∈ ps, ∃ m, w.getModule q name = some m ∧ m.Recorded r = true
  fired : ∃ new, w.fired = w₀.fired ++ new ∧ ∀ object key item,
    balance new object key item =
      S object key item + (ps.map (owedAt w₀.events w name object key item)).sum

variable {w₀ : World ι}

omit [DecidableEq ι] in
theorem events_of_hosts (h : w.hosts = w₀.hosts) : w.events = w₀.events := by
  funext place
  unfold World.events
  rw [h]

theorem held_nil (w : World ι) (name : String) (U : Place → Option (List (Call ι))) :
    Held w name U [] (fun _ _ _ => 0) [] w where
  hosts := rfl
  nodup := List.nodup_nil
  absent q hq := absurd hq List.not_mem_nil
  held q hq := absurd hq List.not_mem_nil
  others _ _ _ := rfl
  kept _ _ := rfl
  unrecorded r _ q hq := absurd hq List.not_mem_nil
  owes := by
    rintro r ⟨t, ht, -⟩
    cases ht
  fired := ⟨[], by simp, fun _ _ _ => rfl⟩

theorem Held.join (h : Held w₀ name U ts S ps w) {w₁ w₂ : World ι}
    (hran : Module.Ran w₁ m us S' w₂ m')
    (hhosts₁ : w₁.hosts = w.hosts) (hhandlers₁ : w₁.handlers = w.handlers)
    (hfired₁ : w₁.fired = w.fired) (hrecorded : ∀ r, m.Recorded r = false)
    (hitems : ∀ key, m.itemsAt key = [])
    (hhosts : w'.hosts = w₂.hosts) (hhandlers : w'.handlers = w₂.handlers)
    (hfired : w'.fired = w₂.fired)
    (hget : ∀ p n, w'.getModule p n = if p = q ∧ n = name then some m' else w.getModule p n)
    (hq : q ∉ ps) (habsent : w₀.getModule q name = none) (hhost : m'.host = q)
    (hunload : m.unload = U q) :
    Held w₀ name U (ts ++ us) (fun object key item => S object key item + S' object key item)
      (q :: ps) w' := by
  have hne : ∀ {p}, p ∈ ps → p ≠ q := fun hp heq => hq (heq ▸ hp)
  have hself : w'.getModule q name = some m' := by
    rw [hget, if_pos ⟨rfl, rfl⟩]
  have hother : ∀ {p}, p ∈ ps → w'.getModule p name = w.getModule p name := by
    intro p hp
    rw [hget, if_neg fun heq => hne hp heq.1]
  have hleft : ∀ r, w'.handlers r = (lastLeft us r).getD (w.handlers r) := by
    intro r
    rw [hhandlers, hran.handlers, hhandlers₁]
  refine ⟨?_, List.nodup_cons.mpr ⟨hq, h.nodup⟩, ?_, ?_, ?_, ?_, ?_, ?_, ?_⟩
  · rw [hhosts, hran.hosts, hhosts₁, h.hosts]
  · intro p hp
    obtain rfl | hp := List.mem_cons.mp hp
    · exact habsent
    · exact h.absent p hp
  · intro p hp
    obtain rfl | hp := List.mem_cons.mp hp
    · exact ⟨m', hself, hhost, hran.methods.1.trans hunload⟩
    · rw [hother hp]
      exact h.held p hp
  · intro p n hp
    rw [hget, if_neg fun heq => hp ⟨List.mem_cons.mpr (.inl heq.1), heq.2⟩]
    exact h.others p n fun hmem => hp ⟨List.mem_cons_of_mem q hmem.1, hmem.2⟩
  · intro r hr
    rw [touched_append, not_or] at hr
    replace hr := And.imp_right lastLeft_eq_none.mpr hr
    rw [hleft, hr.2, Option.getD_none]
    exact h.kept r hr.1
  · intro r hr p hp m'' hm''
    rw [touched_append, not_or] at hr
    replace hr := And.imp_right lastLeft_eq_none.mpr hr
    obtain rfl | hp := List.mem_cons.mp hp
    · rw [hself] at hm''
      rw [← Option.some.inj hm'', hran.recorded, hr.2]
      exact hrecorded r
    · rw [hother hp] at hm''
      exact h.unrecorded r hr.1 p hp m'' hm''
  · intro r hr
    cases hlast : lastLeft us r with
    | none =>
      have htouched := (touched_append.mp hr).resolve_right (lastLeft_eq_none.mp hlast)
      rw [hleft, hlast, Option.getD_none]
      obtain hnone | ⟨p, hp, m'', hm'', hrecorded''⟩ := h.owes r htouched
      · exact .inl hnone
      · exact .inr ⟨p, List.mem_cons_of_mem q hp, m'', (hother hp).trans hm'', hrecorded''⟩
    | some left =>
      cases left with
      | none => exact .inl (by rw [hleft, hlast, Option.getD_some])
      | some priority =>
        refine .inr ⟨q, List.mem_cons_self, m', hself, ?_⟩
        rw [hran.recorded, hlast]
        rfl
  · obtain ⟨new, hnew, hbalance⟩ := h.fired
    obtain ⟨new', hnew', hbalance'⟩ := hran.fired
    refine ⟨new ++ new', ?_, fun object key item => ?_⟩
    · rw [hfired, hnew', hfired₁, hnew, List.append_assoc]
    · have hevents : w₁.events = w₀.events := events_of_hosts (hhosts₁.trans h.hosts)
      have hempty : owed w₁.events m object key item = 0 := by simp [owed, hitems, dueOn]
      have hrest : ps.map (owedAt w₀.events w' name object key item) =
          ps.map (owedAt w₀.events w name object key item) := by
        refine List.map_congr_left fun p hp => ?_
        unfold owedAt
        rw [hother hp]
      rw [balance_append, hbalance, hbalance', hempty, hevents, List.map_cons, List.sum_cons, hrest]
      unfold owedAt
      rw [hself, Option.map_some, Option.getD_some]
      ring

omit [DecidableEq ι] in
theorem sum_map_replace {κ : Type} {f g : κ → ℤ} {l : List κ} {x : κ} (hnodup : l.Nodup)
    (hx : x ∈ l) (h : ∀ y, y ≠ x → g y = f y) :
    (l.map g).sum = (l.map f).sum + (g x - f x) := by
  induction l with
  | nil => cases hx
  | cons y l ih =>
    rw [List.nodup_cons] at hnodup
    rw [List.map_cons, List.sum_cons, List.map_cons, List.sum_cons]
    by_cases hy : y = x
    · subst hy
      have hrest : l.map g = l.map f :=
        List.map_congr_left fun z hz => h z fun heq => hnodup.1 (heq ▸ hz)
      rw [hrest]
      ring
    · have hmem : x ∈ l := (List.mem_cons.mp hx).resolve_left fun heq => hy heq.symm
      rw [ih hnodup.2 hmem, h y hy]
      ring

theorem Held.step (h : Held w₀ name U ts S ps w) (hq : q ∈ ps) (hm : w.getModule q name = some m)
    (hran : Module.Ran w m us (fun _ _ _ => 0) w' m') (hhost : m'.host = m.host) :
    Held w₀ name U (ts ++ us) S ps (w'.setModule q name (some m')) := by
  have hget : ∀ p n, (w'.setModule q name (some m')).getModule p n =
      if p = q ∧ n = name then some m' else w.getModule p n := by
    intro p n
    rw [getModule_setModule]
    unfold World.getModule
    rw [hran.modulemap]
  have hself : (w'.setModule q name (some m')).getModule q name = some m' := by
    rw [hget, if_pos ⟨rfl, rfl⟩]
  have hother : ∀ {p}, p ≠ q → (w'.setModule q name (some m')).getModule p name =
      w.getModule p name := by
    intro p hp
    rw [hget, if_neg fun heq => hp heq.1]
  refine ⟨hran.hosts.trans h.hosts, h.nodup, h.absent, ?_, ?_, ?_, ?_, ?_, ?_⟩
  · intro p hp
    by_cases hpq : p = q
    · subst hpq
      obtain ⟨m'', hm'', hhost'', hunload⟩ := h.held p hp
      obtain rfl := Option.some.inj (hm.symm.trans hm'')
      exact ⟨m', hself, hhost.trans hhost'', hran.methods.1.trans hunload⟩
    · rw [hother hpq]
      exact h.held p hp
  · intro p n hp
    rw [hget, if_neg fun heq : p = q ∧ n = name => hp ⟨heq.1 ▸ hq, heq.2⟩]
    exact h.others p n hp
  · intro r hr
    rw [touched_append, not_or] at hr
    replace hr := And.imp_right lastLeft_eq_none.mpr hr
    refine (hran.handlers r).trans ?_
    rw [hr.2, Option.getD_none]
    exact h.kept r hr.1
  · intro r hr p hp m'' hm''
    rw [touched_append, not_or] at hr
    replace hr := And.imp_right lastLeft_eq_none.mpr hr
    by_cases hpq : p = q
    · subst hpq
      rw [hself] at hm''
      rw [← Option.some.inj hm'', hran.recorded, hr.2]
      exact h.unrecorded r hr.1 p hp m hm
    · rw [hother hpq] at hm''
      exact h.unrecorded r hr.1 p hp m'' hm''
  · intro r hr
    have hleft : (w'.setModule q name (some m')).handlers r = _ := hran.handlers r
    cases hlast : lastLeft us r with
    | none =>
      have htouched := (touched_append.mp hr).resolve_right (lastLeft_eq_none.mp hlast)
      rw [hleft, hlast, Option.getD_none]
      obtain hnone | ⟨p, hp, m'', hm'', hrecorded⟩ := h.owes r htouched
      · exact .inl hnone
      · by_cases hpq : p = q
        · subst hpq
          obtain rfl := Option.some.inj (hm.symm.trans hm'')
          refine .inr ⟨p, hp, m', hself, ?_⟩
          rw [hran.recorded, hlast]
          exact hrecorded
        · exact .inr ⟨p, hp, m'', (hother hpq).trans hm'', hrecorded⟩
    | some left =>
      cases left with
      | none => exact .inl (by rw [hleft, hlast, Option.getD_some])
      | some priority =>
        refine .inr ⟨q, hq, m', hself, ?_⟩
        rw [hran.recorded, hlast]
        rfl
  · obtain ⟨new, hnew, hbalance⟩ := h.fired
    obtain ⟨new', hnew', hbalance'⟩ := hran.fired
    refine ⟨new ++ new', ?_, fun object key item => ?_⟩
    · exact hnew'.trans (by rw [hnew, List.append_assoc])
    · have hsum := sum_map_replace (f := owedAt w₀.events w name object key item)
        (g := owedAt w₀.events (w'.setModule q name (some m')) name object key item) h.nodup hq
        fun p hp => by
          unfold owedAt
          rw [hother hp]
      have hbefore : owedAt w₀.events w name object key item q =
          owed w₀.events m object key item := by
        unfold owedAt
        rw [hm, Option.map_some, Option.getD_some]
      have hafter : owedAt w₀.events (w'.setModule q name (some m')) name object key item q =
          owed w₀.events m' object key item := by
        unfold owedAt
        rw [hself, Option.map_some, Option.getD_some]
      rw [balance_append, hbalance, hbalance', hsum, hbefore, hafter, events_of_hosts h.hosts]
      ring

theorem Held.remove (ord : Orders) (h : Held w₀ name U ts S (q :: ps) w)
    (hm : w.getModule q name = some m) (hhosts : w'.hosts = w.hosts)
    (hhandlers : ∀ r, w'.handlers r = if m.Recorded r then none else w.handlers r)
    (hfired : w'.fired = w.fired ++ m.removals ord (w.events q))
    (hget : ∀ p n, w'.getModule p n = if p = q ∧ n = name then none else w.getModule p n) :
    Held w₀ name U ts S ps w' := by
  have hnotin : q ∉ ps := (List.nodup_cons.mp h.nodup).1
  have hother : ∀ {p}, p ∈ ps → w'.getModule p name = w.getModule p name := by
    intro p hp
    rw [hget, if_neg fun heq : p = q ∧ name = name => hnotin (heq.1 ▸ hp)]
  have hmem : ∀ {p}, p ∈ ps → p ∈ q :: ps := fun hp => List.mem_cons_of_mem q hp
  refine ⟨hhosts.trans h.hosts, (List.nodup_cons.mp h.nodup).2, fun p hp => h.absent p (hmem hp),
    ?_, ?_, ?_, ?_, ?_, ?_⟩
  · intro p hp
    rw [hother hp]
    exact h.held p (hmem hp)
  · intro p n hp
    rw [hget]
    split
    · rename_i heq
      rw [heq.1, heq.2]
      exact (h.absent q List.mem_cons_self).symm
    · rename_i hne
      refine h.others p n fun hheld => ?_
      obtain heq | hin := List.mem_cons.mp hheld.1
      · exact hne ⟨heq, hheld.2⟩
      · exact hp ⟨hin, hheld.2⟩
  · intro r hr
    rw [hhandlers, h.unrecorded r hr q List.mem_cons_self m hm, if_neg Bool.false_ne_true]
    exact h.kept r hr
  · intro r hr p hp m' hm'
    rw [hother hp] at hm'
    exact h.unrecorded r hr p (hmem hp) m' hm'
  · intro r hr
    rw [hhandlers]
    split
    · exact .inl rfl
    · rename_i hnot
      obtain hnone | ⟨p, hp, m', hm', hrecorded⟩ := h.owes r hr
      · exact .inl hnone
      · obtain rfl | hin := List.mem_cons.mp hp
        · obtain rfl := Option.some.inj (hm.symm.trans hm')
          exact absurd hrecorded hnot
        · exact .inr ⟨p, hin, m', (hother hin).trans hm', hrecorded⟩
  · obtain ⟨new, hnew, hbalance⟩ := h.fired
    obtain ⟨m', hm', hhost, -⟩ := h.held q List.mem_cons_self
    obtain rfl := Option.some.inj (hm.symm.trans hm')
    refine ⟨new ++ m.removals ord (w.events q), ?_, fun object key item => ?_⟩
    · rw [hfired, hnew, List.append_assoc]
    · have hrest : ps.map (owedAt w₀.events w' name object key item) =
          ps.map (owedAt w₀.events w name object key item) := by
        refine List.map_congr_left fun p hp => ?_
        unfold owedAt
        rw [hother hp]
      have hgone : owedAt w₀.events w name object key item q =
          dueOn (w₀.events q) object ((m.itemsAt key).count item) := by
        unfold owedAt
        rw [hm, Option.map_some, Option.getD_some, owed, hhost]
      rw [balance_append, hbalance, Module.balance_removals, List.map_cons, List.sum_cons, hgone,
        hrest, events_of_hosts h.hosts]
      ring

theorem Held.unload (ord : Orders) (h : Held w₀ name U ts S (q :: ps) w) :
    Held w₀ name U (ts ++ touches w₀.events q (((U q).getD []).map .call)) S ps
      (doUnloadModule ord w q name).1 := by
  obtain ⟨m, hm, hhost, hunload⟩ := h.held q List.mem_cons_self
  obtain ⟨hran, hstays⟩ := Module.runCalls_ran w m (m.unload.getD [])
  have hstep := h.step List.mem_cons_self hm hran hstays
  rw [hhost, hunload, events_of_hosts h.hosts] at hstep
  unfold doUnloadModule
  rw [hm]
  dsimp only
  rw [hunload]
  refine hstep.remove ord (m := (Module.runCalls w m ((U q).getD [])).2) ?_ rfl ?_ ?_ ?_
  · rw [getModule_setModule, if_pos ⟨rfl, rfl⟩]
  · intro r
    refine (Module.foldl_removeHandler _ _ r).trans ?_
    simp only [Module.mem_registrations]
    rfl
  · rfl
  · intro p n
    rw [getModule_setModule, getModule_setModule]
    split <;> rfl

theorem Held.unloads (ord : Orders) (h : Held w₀ name U ts S ps w) :
    Held w₀ name U (ts ++ ps.flatMap fun q => touches w₀.events q (((U q).getD []).map .call)) S []
      (ps.foldl (fun w q => (doUnloadModule ord w q name).1) w) := by
  induction ps generalizing ts w with
  | nil =>
    rw [List.flatMap_nil, List.append_nil]
    exact h
  | cons q ps ih =>
    rw [List.flatMap_cons, ← List.append_assoc]
    exact ih (h.unload ord)

theorem Held.later (h : Held w₀ name U ts S ps w) (later : List (Place × Call ι)) :
    Held w₀ name U
      (ts ++ later.flatMap fun c =>
        if c.1 ∈ ps then (c.2.touch (w₀.events c.1)).toList else []) S ps
      (later.foldl (fun w c => if c.1 ∈ ps then callLoaded w c.1 name c.2 else w) w) := by
  induction later generalizing ts w with
  | nil =>
    rw [List.flatMap_nil, List.append_nil]
    exact h
  | cons c later ih =>
    rw [List.flatMap_cons, ← List.append_assoc, List.foldl_cons]
    by_cases hc : c.1 ∈ ps
    · rw [if_pos hc, if_pos hc]
      obtain ⟨m, hm, hhost, -⟩ := h.held c.1 hc
      obtain ⟨hran, hstays, -⟩ := Module.call_ran w m c.2
      have hstep := h.step hc hm hran hstays
      rw [hhost, events_of_hosts h.hosts] at hstep
      unfold callLoaded
      rw [hm]
      exact ih hstep
    · rw [if_neg hc, if_neg hc, List.append_nil]
      exact ih h

theorem Held.restoring_iff (ord : Orders) (h : Held w₀ name U ts S [] w) :
    Restored ord name w₀ w ∧ Matched w₀ w ↔
      (∀ t ∈ ts, w₀.handlers t.registration = none) ∧ ∀ object key item, S object key item = 0 := by
  have hmodules : ∀ q n, w.getModule q n = w₀.getModule q n := fun q n =>
    h.others q n fun hmem => absurd hmem.1 List.not_mem_nil
  obtain ⟨new, hnew, hbalance⟩ := h.fired
  simp only [List.map_nil, List.sum_nil, add_zero] at hbalance
  constructor
  · rintro ⟨hrestored, new', hnew', hmatched⟩
    constructor
    · intro t ht
      rw [← hrestored.handlers]
      obtain hnone | ⟨q, hq, -⟩ := h.owes t.registration ⟨t, ht, rfl⟩
      · exact hnone
      · cases hq
    · intro object key item
      obtain rfl := List.append_cancel_left (hnew.symm.trans hnew')
      rw [← hbalance, balance, hmatched, sub_self]
  · rintro ⟨hnone, hS⟩
    refine ⟨⟨?_, ?_, fun q hq => (hmodules q name).trans hq⟩, new, hnew, ?_⟩
    · funext r
      by_cases hr : Touched ts r
      · obtain ⟨t, ht, rfl⟩ := hr
        rw [hnone t ht]
        obtain hgone | ⟨q, hq, -⟩ := h.owes t.registration ⟨t, ht, rfl⟩
        · exact hgone
        · cases hq
      · exact h.kept r hr
    · exact getItems_congr ord hmodules
    · intro object key item
      have hzero := hbalance object key item
      rw [hS, balance] at hzero
      omega

/-! ## Loads -/

structure Failed (w : World ι) (place : Place) (name : String) (ts : List Touch) (left : Bool)
    (w' : World ι) : Prop where
  handlers : ∀ r, w'.handlers r = (lastLeft ts r).getD (w.handlers r)
  modules : left = false → ∀ q n, w'.getModule q n = w.getModule q n
  left : left = true → w.getModule place name = none ∧ w'.getModule place name ≠ none

omit [DecidableEq ι] in
theorem Failed.restoring_iff {left : Bool} (ord : Orders) (h : Failed w place name ts left w') :
    Restored ord name w w' ↔
      (∀ t ∈ ts, lastLeft ts t.registration = some (w.handlers t.registration)) ∧ left = false := by
  constructor
  · intro hrestored
    constructor
    · intro t ht
      have hleft := h.handlers t.registration
      rw [hrestored.handlers] at hleft
      cases hlast : lastLeft ts t.registration with
      | none => exact absurd ⟨t, ht, rfl⟩ (lastLeft_eq_none.mp hlast)
      | some left =>
        rw [hlast, Option.getD_some] at hleft
        rw [hleft]
    · cases hleft : left with
      | false => rfl
      | true =>
        obtain ⟨hnone, hsome⟩ := h.left hleft
        exact absurd (hrestored.absent place hnone) hsome
  · rintro ⟨hlast, hleft⟩
    have hmodules := h.modules hleft
    refine ⟨?_, getItems_congr ord hmodules, fun q hq => (hmodules q name).trans hq⟩
    funext r
    rw [h.handlers]
    by_cases hr : Touched ts r
    · obtain ⟨t, ht, rfl⟩ := hr
      rw [hlast t ht, Option.getD_some]
    · rw [lastLeft_eq_none.mpr hr, Option.getD_none]

variable {mod : Module ι}

theorem loadOntoHost_of_none (h : hostPart mod.addHost place = none) :
    loadOntoHost w place name mod = (w, none) := by
  unfold loadOntoHost
  cases haddHost : mod.addHost with
  | none => cases place <;> rfl
  | some addHost =>
    cases place with
    | server => rfl
    | host host =>
      rw [haddHost] at h
      cases h

variable {part : HostPart ι}

theorem loadOntoHost_of_some (name : String) (h : hostPart mod.addHost place = some part) :
    ∃ w₂ m', Module.Ran (w.setModule place name (some (newHostModule place part)))
        (newHostModule place part) (touches w.events place (part.calls.map .call)) (fun _ _ _ => 0)
        w₂ m' ∧ m'.host = place ∧ loadOntoHost w place name mod =
        if part.ending = .completes then (w₂.setModule place name (some m'), some m')
        else (w₂.setModule place name none, none) := by
  obtain ⟨hran, hhost⟩ := Module.runCalls_ran
    (w.setModule place name (some (newHostModule place part))) (newHostModule place part) part.calls
  refine ⟨_, _, hran, hhost, ?_⟩
  unfold loadOntoHost
  cases place with
  | server => cases h
  | host host =>
    obtain ⟨addHost, haddHost, rfl⟩ := Option.map_eq_some_iff.mp h
    rw [haddHost]

theorem Held.loadOntoHost (h : Held w₀ name U ts S ps w)
    (hpart : hostPart mod.addHost place = some part) (hcompletes : part.ending = .completes)
    (hplace : place ∉ ps) (habsent : w₀.getModule place name = none)
    (hunload : part.unload = U place) : (loadOntoHost w place name mod).2 ≠ none ∧
      Held w₀ name U (ts ++ touches w₀.events place (part.calls.map .call)) S (place :: ps)
        (loadOntoHost w place name mod).1 := by
  obtain ⟨w₂, m', hran, hhost, heq⟩ := loadOntoHost_of_some (w := w) name hpart
  rw [heq, if_pos hcompletes]
  refine ⟨Option.some_ne_none _, ?_⟩
  have hget : ∀ p n, (w₂.setModule place name (some m')).getModule p n =
      if p = place ∧ n = name then some m' else w.getModule p n := by
    intro p n
    have hsame : w₂.getModule p n =
        (w.setModule place name (some (newHostModule place part))).getModule p n := by
      unfold World.getModule
      rw [hran.modulemap]
    rw [getModule_setModule, hsame, getModule_setModule]
    split <;> rfl
  have hjoin := h.join hran rfl rfl rfl (fun _ => rfl) (fun _ => rfl)
    (show (w₂.setModule place name (some m')).hosts = w₂.hosts from rfl) rfl rfl hget hplace
    habsent hhost hunload
  rw [events_of_hosts h.hosts] at hjoin
  simpa only [add_zero] using hjoin

theorem run_append (w : World ι) (m : Module ι) (ss ss' : List (Statement ι)) :
    Module.run w m (ss ++ ss') = Module.run (Module.run w m ss).1 (Module.run w m ss).2 ss' := by
  induction ss generalizing w m with
  | nil => rfl
  | cons s ss ih => exact ih _ _

variable {p : Plugin ι}

theorem startModule_of_raises (h : p.bodyRaises = true) : startModule w place name p =
      (((Module.run (w.setModule place name (some (newModule place p))) (newModule place p)
          p.statements).1.setModule place name (some (Module.run
            (w.setModule place name (some (newModule place p))) (newModule place p)
            p.statements).2)).setModule (Module.run
              (w.setModule place name (some (newModule place p))) (newModule place p)
              p.statements).2.host name none, none) := by
  unfold startModule Plugin.statements
  rw [h, if_pos rfl, List.append_nil]
  rfl

theorem startModule_of_not_raises (h : p.bodyRaises = false) : startModule w place name p =
      settleModule (Module.run (w.setModule place name (some (newModule place p)))
          (newModule place p) p.statements).1 place name p
        (Module.run (w.setModule place name (some (newModule place p))) (newModule place p)
          p.statements).2 (!p.loadRaises) := by
  unfold startModule Plugin.statements
  rw [h, if_neg Bool.false_ne_true, run_append]
  rfl

omit [DecidableEq ι] in
theorem setModule_setModule (w : World ι) (place : Place) (name : String)
    (x y : Option (Module ι)) :
    (w.setModule place name x).setModule place name y = w.setModule place name y := by
  unfold World.setModule
  simp

theorem settleModule_part {ok : Bool} (hhost : m.host = .server)
    (hpart : hostPart p.addHost place = some part) : settleModule w place name p m ok =
      let w := (w.setModule place name none).setModule .server name (some m)
      if (loadOntoHost w place name m).2.isSome then ((loadOntoHost w place name m).1, some m)
      else ((loadOntoHost w place name m).1.setModule .server name none, none) := by
  have hplace : place ≠ .server ∧ p.addHost.isSome = true := by
    cases place with
    | server => cases hpart
    | host host =>
      obtain ⟨addHost, haddHost, -⟩ := Option.map_eq_some_iff.mp hpart
      rw [haddHost]
      exact ⟨Place.noConfusion, rfl⟩
  unfold settleModule
  rw [if_pos hhost]
  dsimp only
  rw [if_pos hplace]

theorem settleModule_alone {ok : Bool} (hhost : m.host = p.ownPlace place)
    (hpart : turnsGlobal p.statements = true → hostPart p.addHost place = none) :
    settleModule w place name p m ok = if ok then
        ((w.setModule place name none).setModule (p.ownPlace place) name (some m), some m)
      else ((w.setModule place name none).setModule (p.ownPlace place) name none, none) := by
  unfold settleModule
  rw [hhost]
  by_cases hserver : p.ownPlace place = .server
  · have hnot : ¬(place ≠ .server ∧ p.addHost.isSome = true) := by
      rintro ⟨hplace, hsome⟩
      have hturns : turnsGlobal p.statements = true := by
        by_contra hnot
        rw [Plugin.ownPlace, if_neg hnot] at hserver
        exact hplace hserver
      have hnone := hpart hturns
      cases place with
      | server => exact hplace rfl
      | host host =>
        rw [Option.isSome_iff_ne_none] at hsome
        exact hsome (Option.map_eq_none_iff.mp hnone)
    rw [if_pos hserver]
    dsimp only
    rw [if_neg hnot, hserver, setModule_setModule]
  · have hplace : p.ownPlace place = place := by
      unfold Plugin.ownPlace at hserver ⊢
      split
      · rename_i hturns
        rw [if_pos hturns] at hserver
        exact absurd rfl hserver
      · rfl
    rw [if_neg hserver, hplace, setModule_setModule, setModule_setModule]

/-- What is announced on a host and withdrawn on the server. -/
def Loading.stuck (l : Loading ι) (events : Place → EventsObject) (place : Place)
    (object : EventsObject) (key : String) (item : ι) : ℤ :=
  (l.own.map fun p =>
    Module.stuck events (newModule place p) p.statements object key item).getD 0

theorem held_own
    (hran : Module.Ran (w.setModule place name (some (newModule place p))) (newModule place p)
      (touches w.events place p.statements)
      (Module.stuck w.events (newModule place p) p.statements) w' m)
    (hhost : m.host = p.ownPlace place) (habsent : w.getModule place name = none)
    (hserver : w.getModule .server name = none) (hU : p.unload = U (p.ownPlace place)) :
    Held w name U (touches w.events place p.statements)
      (Module.stuck w.events (newModule place p) p.statements) [p.ownPlace place]
      ((w'.setModule place name none).setModule (p.ownPlace place) name (some m)) := by
  have hget : ∀ q n, ((w'.setModule place name none).setModule (p.ownPlace place) name
      (some m)).getModule q n =
        if q = p.ownPlace place ∧ n = name then some m else w.getModule q n := by
    intro q n
    have hsame : w'.getModule q n =
        (w.setModule place name (some (newModule place p))).getModule q n := by
      unfold World.getModule
      rw [hran.modulemap]
    rw [getModule_setModule, getModule_setModule, hsame, getModule_setModule]
    split
    · rfl
    · split
      · rename_i heq
        rw [heq.1, heq.2, habsent]
      · rfl
  have hown : w.getModule (p.ownPlace place) name = none := by
    unfold Plugin.ownPlace
    split
    · exact hserver
    · exact habsent
  have hjoin := (held_nil w name U).join hran rfl rfl rfl (fun _ => rfl) (fun _ => rfl)
    (show ((w'.setModule place name none).setModule (p.ownPlace place) name (some m)).hosts =
      w'.hosts from rfl) rfl rfl hget List.not_mem_nil hown hhost hU
  simpa only [List.nil_append, zero_add] using hjoin

/-- What comes out of a load, from the code that it executes. -/
structure Outcome (w : World ι) (place : Place) (name : String) (l : Loading ι)
    (result : World ι × Option (Module ι)) : Prop where
  success : l.succeeds = true → result.2 ≠ none ∧
    Held w name (l.unloadAt place) (l.touches w.events place) (l.stuck w.events place)
      (l.onto place) result.1
  failure : l.succeeds = false → result.2 = none ∧
    Failed w place name (l.touches w.events place) (l.leftBehind place) result.1

omit [DecidableEq ι] in
theorem getModule_of_modulemap (h : w'.modulemap = w.modulemap) (q : Place) (n : String) :
    w'.getModule q n = w.getModule q n := by
  unfold World.getModule
  rw [h]

theorem outcome_refused (l : Loading ι) (hown : l.own = none) (hpart : l.part = none) :
    Outcome w place name l (w, none) := by
  constructor
  · intro h
    rw [Loading.succeeds, hpart, hown] at h
    cases h
  · intro _
    have htouches : l.touches w.events place = [] := by
      unfold Loading.touches
      rw [hown, hpart]
      rfl
    refine ⟨rfl, fun r => ?_, fun _ _ _ => rfl, fun h => ?_⟩
    · rw [htouches]
      rfl
    · unfold Loading.leftBehind at h
      rw [hown] at h
      simp at h

theorem exists_ran (w : World ι) (place : Place) (name : String) (p : Plugin ι) :
    ∃ w₂ m, Module.run (w.setModule place name (some (newModule place p))) (newModule place p)
        p.statements = (w₂, m) ∧
      Module.Ran (w.setModule place name (some (newModule place p))) (newModule place p)
        (touches w.events place p.statements)
        (Module.stuck w.events (newModule place p) p.statements) w₂ m ∧
      m.host = if turnsGlobal p.statements then .server else place :=
  ⟨_, _, rfl, Module.run_ran _ _ _⟩

theorem outcome_raises (hraises : p.bodyRaises = true) (habsent : w.getModule place name = none) :
    Outcome w place name ⟨some p, p.hostPart place⟩ (startModule w place name p) := by
  have hstatements : p.statements = p.body := by
    unfold Plugin.statements
    rw [hraises, if_pos rfl, List.append_nil]
  have hpart : p.hostPart place = none := by
    unfold Plugin.hostPart
    rw [hraises]
    rfl
  rw [hpart]
  obtain ⟨w₂, m, hrun, hran, hhost⟩ := exists_ran w place name p
  rw [startModule_of_raises hraises, hrun]
  dsimp only
  have hget : ∀ q n, w₂.getModule q n =
      if q = place ∧ n = name then some (newModule place p) else w.getModule q n := by
    intro q n
    rw [getModule_of_modulemap hran.modulemap, getModule_setModule]
  constructor
  · intro h
    simp [Loading.succeeds, hraises] at h
  · intro _
    refine ⟨rfl, fun r => ?_, fun hleft q n => ?_, fun hleft => ⟨habsent, ?_⟩⟩
    · rw [Loading.touches]
      simp only [Option.map_some, Option.getD_some, Option.map_none, Option.getD_none,
        List.append_nil]
      exact hran.handlers r
    · have hback : m.host = place := by
        rw [hhost]
        by_cases hturns : turnsGlobal p.statements = true
        · rw [if_pos hturns]
          by_contra hne
          rw [hstatements] at hturns
          simp [Loading.leftBehind, hraises, hturns, Ne.symm hne] at hleft
        · rw [if_neg hturns]
      rw [hback, getModule_setModule, getModule_setModule, hget]
      split
      · rename_i heq
        rw [heq.1, heq.2, habsent]
      · rfl
    · have hturns : place ≠ .server ∧ turnsGlobal p.body = true := by
        simpa [Loading.leftBehind, hraises] using hleft
      rw [hstatements, if_pos hturns.2] at hhost
      rw [getModule_setModule, hhost, if_neg fun heq => hturns.1 heq.1, getModule_setModule,
        if_pos ⟨rfl, rfl⟩]
      exact Option.some_ne_none m

theorem outcome_part (hraises : p.bodyRaises = false)
    (hpart : p.hostPart place = some part) (habsent : w.getModule place name = none)
    (hserver : w.getModule .server name = none) :
    Outcome w place name ⟨some p, p.hostPart place⟩ (startModule w place name p) := by
  obtain ⟨hturns, hadd⟩ :
      turnsGlobal p.statements = true ∧ hostPart p.addHost place = some part := by
    unfold Plugin.hostPart at hpart
    split at hpart
    · rename_i h
      simp only [hraises, Bool.not_false, Bool.true_and] at h
      exact ⟨h, hpart⟩
    · cases hpart
  have hplace : place ≠ .server := by
    rintro rfl
    cases hadd
  have hown : p.ownPlace place = .server := if_pos hturns
  obtain ⟨w₂, m, hrun, hran, hhost⟩ := exists_ran w place name p
  rw [hpart, startModule_of_not_raises hraises, hrun]
  dsimp only
  rw [if_pos hturns] at hhost
  rw [settleModule_part hhost hadd]
  dsimp only
  have hheld := held_own (U := Loading.unloadAt ⟨some p, some part⟩ place) hran
    (hhost.trans hown.symm) habsent hserver (by simp [Loading.unloadAt, hown, Ne.symm hplace])
  rw [hown] at hheld
  have hadd' : hostPart m.addHost place = some part := by
    rw [hran.methods.2]
    exact hadd
  constructor
  · intro h
    obtain ⟨hsome, hheld'⟩ := hheld.loadOntoHost hadd' (by simpa [Loading.succeeds] using h)
      (by simpa using hplace) habsent (by simp [Loading.unloadAt])
    rw [if_pos (Option.isSome_iff_ne_none.mpr hsome)]
    refine ⟨Option.some_ne_none _, ?_⟩
    simp only [Loading.touches, Loading.onto, Option.map_some, Option.getD_some,
      Option.toList_some, hown]
    exact hheld'
  · intro h
    obtain ⟨w₃, m', hran', -, heq⟩ := loadOntoHost_of_some name
      (w := (w₂.setModule place name none).setModule .server name (some m)) hadd'
    rw [if_neg (by simpa [Loading.succeeds] using h)] at heq
    rw [heq, if_neg (by simp)]
    refine ⟨rfl, fun r => ?_, fun _ q n => ?_, fun hleft => ?_⟩
    · refine (hran'.handlers r).trans ?_
      simp only [Loading.touches, Option.map_some, Option.getD_some]
      rw [lastLeft_append]
      change (lastLeft _ r).getD (w₂.handlers r) = _
      have hevents : World.events ((w₂.setModule place name none).setModule .server name (some m)) =
          w.events := events_of_hosts hran.hosts
      rw [hran.handlers, hevents]
      cases lastLeft (touches w.events place (part.calls.map .call)) r <;> rfl
    · have hsame := getModule_of_modulemap hran'.modulemap q n
      have hbefore := getModule_of_modulemap hran.modulemap q n
      simp only [getModule_setModule] at hsame hbefore ⊢
      by_cases hn : n = name
      · subst hn
        by_cases hq : q = .server
        · subst hq
          simp [hserver]
        · by_cases hqp : q = place
          · subst hqp
            simp [hplace, habsent]
          · simp [hq, hqp, hsame, hbefore]
      · simp [hn, hsame, hbefore]
    · simp [Loading.leftBehind, hraises] at hleft

theorem outcome_alone (hraises : p.bodyRaises = false)
    (hpart : p.hostPart place = none) (habsent : w.getModule place name = none)
    (hserver : w.getModule .server name = none) :
    Outcome w place name ⟨some p, p.hostPart place⟩ (startModule w place name p) := by
  have hadd : turnsGlobal p.statements = true → hostPart p.addHost place = none := by
    intro hturns
    unfold Plugin.hostPart at hpart
    simpa [hraises, hturns] using hpart
  obtain ⟨w₂, m, hrun, hran, hhost⟩ := exists_ran w place name p
  rw [hpart, startModule_of_not_raises hraises, hrun]
  dsimp only
  rw [settleModule_alone (show m.host = p.ownPlace place from hhost) hadd]
  constructor
  · intro h
    rw [if_pos (by simpa [Loading.succeeds, hraises] using h)]
    refine ⟨Option.some_ne_none _, ?_⟩
    have hheld := held_own (U := Loading.unloadAt ⟨some p, none⟩ place) hran hhost habsent hserver
      rfl
    simp only [Loading.touches, Loading.onto, Option.map_some, Option.getD_some,
      Option.map_none, Option.getD_none, Option.toList_some, Option.toList_none, List.append_nil,
      List.nil_append]
    exact hheld
  · intro h
    rw [if_neg (by simpa [Loading.succeeds, hraises] using h)]
    refine ⟨rfl, fun r => ?_, fun _ q n => ?_, fun hleft => ?_⟩
    · simp only [Loading.touches, Option.map_some, Option.getD_some, Option.map_none,
        Option.getD_none, List.append_nil]
      exact hran.handlers r
    · have hbefore := getModule_of_modulemap hran.modulemap q n
      have hown : w.getModule (p.ownPlace place) name = none := by
        unfold Plugin.ownPlace
        split
        · exact hserver
        · exact habsent
      simp only [getModule_setModule] at hbefore ⊢
      split
      · rename_i heq
        rw [heq.1, heq.2, hown]
      · split
        · rename_i heq
          rw [heq.1, heq.2, habsent]
        · rename_i hne
          rw [hbefore, if_neg hne]
    · simp [Loading.leftBehind, hraises] at hleft

theorem outcome_again (mod : Module ι) (habsent : w.getModule place name = none) :
    Outcome w place name ⟨none, hostPart mod.addHost place⟩ (loadOntoHost w place name mod) := by
  cases hpart : hostPart mod.addHost place with
  | none =>
    rw [loadOntoHost_of_none hpart]
    exact outcome_refused _ rfl rfl
  | some part =>
    constructor
    · intro h
      exact (held_nil w name _).loadOntoHost hpart (by simpa [Loading.succeeds] using h)
        List.not_mem_nil habsent (by simp [Loading.unloadAt])
    · intro h
      obtain ⟨w₂, m', hran, -, heq⟩ := loadOntoHost_of_some (w := w) name hpart
      rw [if_neg (by simpa [Loading.succeeds] using h)] at heq
      rw [heq]
      refine ⟨rfl, fun r => hran.handlers r, fun _ q n => ?_, fun hleft => ?_⟩
      · have hsame := getModule_of_modulemap hran.modulemap q n
        rw [getModule_setModule] at hsame ⊢
        split
        · rename_i hq
          rw [hq.1, hq.2, habsent]
        · rename_i hq
          rw [hsame, if_neg hq]
      · simp [Loading.leftBehind] at hleft

theorem doLoadModule_outcome (w : World ι) (place : Place) (name : String)
    (code : Option (Plugin ι)) :
    Outcome w place name (w.loading place name code) (doLoadModule w place name code) := by
  unfold doLoadModule World.loading
  by_cases hknown : w.Known place
  swap
  · rw [if_pos hknown, if_neg fun h => hknown h.1]
    exact outcome_refused _ rfl rfl
  cases habsent : w.getModule place name with
  | some mod =>
    rw [if_neg (not_not_intro hknown), if_pos (Option.isSome_some), if_neg (by simp)]
    exact outcome_refused _ rfl rfl
  | none =>
    have hboth : w.Known place ∧ (none : Option (Module ι)) = none := ⟨hknown, rfl⟩
    rw [if_neg (not_not_intro hknown), if_pos hboth, if_neg (by simp)]
    cases hserver : w.getModule .server name with
    | some mod => exact outcome_again mod habsent
    | none =>
      cases code with
      | none => exact outcome_refused _ rfl rfl
      | some p =>
        cases hraises : p.bodyRaises with
        | true => exact outcome_raises hraises habsent
        | false =>
          cases hpart : p.hostPart place with
          | none => exact outcome_alone hraises hpart habsent hserver
          | some part => exact outcome_part hraises hpart habsent hserver

/-! ## The result -/

omit [DecidableEq ι] in
theorem loading_onto (w : World ι) (place : Place) (name : String) (code : Option (Plugin ι)) :
    let l := w.loading place name code
    (l.onto place = [place, .server] ∧ place ≠ .server) ∨ l.onto place = [place] ∨
      l.onto place = [.server] ∨ l.onto place = [] := by
  have hplace : ∀ addHost part, hostPart (ι := ι) addHost place = some part → place ≠ .server := by
    rintro addHost part h rfl
    cases h
  intro l
  unfold l World.loading
  split
  · cases w.getModule .server name with
    | some mod =>
      cases hpart : hostPart mod.addHost place with
      | none => simp [Loading.onto, hpart]
      | some part => simp [Loading.onto, hpart]
    | none =>
      cases code with
      | none => exact .inr (.inr (.inr rfl))
      | some p =>
        cases hpart : p.hostPart place with
        | none =>
          simp only [Loading.onto, Option.bind_some, hpart, Option.map_none, Option.map_some,
            Option.toList_none, Option.toList_some, List.nil_append, Plugin.ownPlace]
          split
          · exact .inr (.inr (.inl rfl))
          · exact .inr (.inl rfl)
        | some part =>
          unfold Plugin.hostPart at hpart
          split at hpart
          · rename_i h
            refine .inl ⟨?_, hplace _ _ hpart⟩
            rw [Bool.and_eq_true, Bool.not_eq_true'] at h
            simp [Loading.onto, Plugin.hostPart, Plugin.ownPlace, h.1, h.2, hpart]
          · cases hpart
  · exact .inr (.inr (.inr rfl))

omit [DecidableEq ι] in
theorem loading_known {code : Option (Plugin ι)}
    (h : (w.loading place name code).own = some p) : w.Known place := by
  unfold World.loading at h
  split at h
  · rename_i hboth
    exact hboth.1
  · cases h

theorem loadedOnto_eq {code : Option (Plugin ι)}
    (h : Held w name U ts S ((w.loading place name code).onto place) w') :
    loadedOnto w w' place name = (w.loading place name code).onto place := by
  have hfilter : (fun q => (w.getModule q name).isNone && (w'.getModule q name).isSome) =
      fun q => decide (q ∈ (w.loading place name code).onto place) := by
    funext q
    by_cases hq : q ∈ (w.loading place name code).onto place
    · obtain ⟨m, hm, -⟩ := h.held q hq
      simp [h.absent q hq, hm, hq]
    · rw [h.others q name fun hmem => hq hmem.1]
      cases w.getModule q name <;> simp [hq]
  unfold loadedOnto
  rw [hfilter]
  obtain ⟨honto, hplace⟩ | honto | honto | honto := loading_onto w place name code
  · simp [honto, hplace]
  · rw [honto]
    by_cases hplace : place = .server
    · simp [hplace]
    · simp [hplace, Ne.symm hplace]
  · rw [honto]
    by_cases hplace : place = .server
    · simp [hplace]
    · simp [hplace]
  · rw [honto]
    simp

theorem turnsWithoutItems_iff (code : Option (Plugin ι)) :
    (w.loading place name code).TurnsWithoutItems place ↔
      ∀ object key item, (w.loading place name code).stuck w.events place object key item = 0 := by
  unfold Loading.TurnsWithoutItems Loading.stuck
  cases hown : (w.loading place name code).own with
  | none => simp
  | some p =>
    have hknown := loading_known hown
    simp only [Option.some.injEq, forall_eq', Option.map_some, Option.getD_some, Module.stuck]
    change _ ↔ ∀ object key item, (if turnsGlobal p.statements = true then
      dueOn (w.events place) object
          ((itemsBeforeGlobal (fun _ => []) p.statements key).count item) -
        dueOn (w.events .server) object
          ((itemsBeforeGlobal (fun _ => []) p.statements key).count item) else 0) = 0
    cases place with
    | server => simp
    | host host =>
      have hevents : w.events (.host host) = .host host := if_pos hknown
      rw [hevents]
      constructor
      · intro h object key item
        split
        · rename_i hturns
          simp [h Place.noConfusion hturns key, dueOn]
        · rfl
      · intro h _ hturns key
        rw [List.eq_nil_iff_forall_not_mem]
        intro item hitem
        have hzero := h (.host host) key item
        rw [if_pos hturns] at hzero
        have hpos := List.count_pos_iff.mpr hitem
        have hother : w.events .server ≠ .host host := EventsObject.noConfusion
        rw [dueOn, if_pos rfl, dueOn, if_neg hother] at hzero
        omega

end

/-- A load that fails, or one that is followed by the unload, leaves nothing behind if and only if
the handlers it touches are left as they were or were not there. -/
theorem leaves_nothing_iff (ord : Orders) (w : World ι) (place : Place) (name : String)
    (code : Option (Plugin ι)) (later : List (Place × Call ι)) :
    LeavesNothing ord w place name code later ↔ Tidy w place name code later := by
  have houtcome := doLoadModule_outcome w place name code
  unfold Tidy
  dsimp only
  cases hsucceeds : (w.loading place name code).succeeds with
  | true =>
    obtain ⟨hsome, hheld⟩ := houtcome.success hsucceeds
    have hend := (hheld.later later).unloads ord
    have hiff := hend.restoring_iff ord
    rw [← turnsWithoutItems_iff, List.append_assoc] at hiff
    rw [if_pos rfl]
    refine Iff.trans ?_ hiff
    rw [← loadedOnto_eq hheld]
    exact ⟨fun h => h.unloaded hsome, fun h => ⟨fun hnone => absurd hnone hsome, fun _ => h⟩⟩
  | false =>
    obtain ⟨hnone, hfailed⟩ := houtcome.failure hsucceeds
    rw [if_neg Bool.false_ne_true, ← hfailed.restoring_iff ord]
    exact ⟨fun h => h.failed hnone, fun h => ⟨fun _ => h, fun hsome => absurd hnone hsome⟩⟩

def EventsObject.rank : EventsObject → ℕ ×ₗ String
  | .server => toLex (0, "")
  | .host name => toLex (1, name)
  | .other n => toLex (n + 2, "")

theorem EventsObject.rank_injective : Function.Injective EventsObject.rank := by
  intro a b h
  have hpair := toLex.injective (show toLex (ofLex a.rank) = toLex (ofLex b.rank) from h)
  cases a <;> cases b <;> simp_all [EventsObject.rank]

/-- Tables that are traversed in ascending order. -/
def Orders.ascending : Orders where
  objects := @KeyOrder.inserted _ (LinearOrder.lift' _ EventsObject.rank_injective)
  names := .inserted String
  handlers := .inserted ℕ

def emptyHost : World ℕ where
  hosts := {"example.com"}
  handlers _ := none
  modulemap _ := ∅
  fired := []

/-- A module whose body hooks an event and then raises. -/
def faultyPlugin : Plugin ℕ where
  body := [.call (.hook "message/bare" 1 none)]
  bodyRaises := true
  load := none
  unload := none
  addHost := none

/-- The handler of a module that could not be loaded stays on the host. -/
theorem handler_stays :
    ¬LeavesNothing .ascending emptyHost (.host "example.com") "faulty" (some faultyPlugin) [] := by
  intro h
  have hfailed : (doLoadModule emptyHost (.host "example.com") "faulty"
      (some faultyPlugin)).2.isNone = true := by decide +kernel
  have hhandlers := (h.failed (Option.isNone_iff_eq_none.mp hfailed)).handlers
  have hhooked := congrFun hhandlers ⟨.host "example.com", "message/bare", 1⟩
  revert hhooked
  decide +kernel

end Prosody.Modules
