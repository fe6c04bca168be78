import Mathlib.Algebra.BigOperators.Group.List.Basic
import Mathlib.Tactic.Ring
import Prosody.Core.ModuleManager

/-! # What modules do, from their calls

The handlers, the record of a module and the events for its items, after all statements that it
executes. -/

namespace Prosody.Modules

variable {ι : Type}

/-! ## What the calls of a module touch -/

/-- A registration that a call touches, and the priority that it is left with. -/
structure Touch where
  registration : Registration
  left : Option ℤ

def Call.touch (object : EventsObject) : Call ι → Option Touch
  | .hook event handler priority => some ⟨⟨object, event, handler⟩, some (priority.getD 0)⟩
  | .hookObjectEvent object event handler priority =>
    some ⟨⟨object, event, handler⟩, some (priority.getD 0)⟩
  | .unhook event handler => some ⟨⟨object, event, handler⟩, none⟩
  | .unhookObjectEvent object event handler => some ⟨⟨object, event, handler⟩, none⟩
  | .addItem _ _ => none
  | .removeItem _ _ => none

def touches (events : Place → EventsObject) : Place → List (Statement ι) → List Touch
  | _, [] => []
  | _, .setGlobal :: ss => touches events .server ss
  | place, .call c :: ss => (c.touch (events place)).toList ++ touches events place ss

/-- How the last touch of a registration leaves it. -/
def lastLeft : List Touch → Registration → Option (Option ℤ)
  | [], _ => none
  | t :: ts, r => (lastLeft ts r).or (if t.registration = r then some t.left else none)

def turnsGlobal : List (Statement ι) → Bool
  | [] => false
  | .setGlobal :: _ => true
  | .call _ :: ss => turnsGlobal ss

theorem lastLeft_append (ts us : List Touch) (r : Registration) :
    lastLeft (ts ++ us) r = (lastLeft us r).or (lastLeft ts r) := by
  induction ts with
  | nil => simp [lastLeft]
  | cons t ts ih => rw [List.cons_append, lastLeft, ih, lastLeft, Option.or_assoc]

theorem lastLeft_eq_none_iff {ts : List Touch} {r : Registration} :
    lastLeft ts r = none ↔ ∀ t ∈ ts, t.registration ≠ r := by
  induction ts with
  | nil => simp [lastLeft]
  | cons t ts ih => simp [lastLeft, ih, and_comm]

variable [DecidableEq ι]

def Call.leave (left : String → List ι) : Call ι → String → List ι
  | .addItem key item => Function.update left key (left key ++ [item])
  | .removeItem key item => Function.update left key (Module.eraseLast (left key) item)
  | _ => left

def itemsBeforeGlobal (left : String → List ι) : List (Statement ι) → String → List ι
  | [] => left
  | .setGlobal :: _ => left
  | .call c :: ss => itemsBeforeGlobal (c.leave left) ss

/-! ## Items and their events -/

/-- How many more additions than removals of an item were announced. -/
def balance (fired : List (ItemEvent ι)) (object : EventsObject) (key : String) (item : ι) : ℤ :=
  fired.count ⟨object, true, key, item⟩ - fired.count ⟨object, false, key, item⟩

theorem balance_nil (object : EventsObject) (key : String) (item : ι) :
    balance [] object key item = 0 := rfl

theorem balance_append (l l' : List (ItemEvent ι)) (object : EventsObject) (key : String)
    (item : ι) :
    balance (l ++ l') object key item = balance l object key item + balance l' object key item := by
  unfold balance
  rw [List.count_append, List.count_append]
  push_cast
  ring

/-- The share of an object in what is announced on one. -/
def dueOn (announced object : EventsObject) (n : ℕ) : ℤ := if announced = object then n else 0

/-- What an object is still to hear of the items of a module. -/
def owed (events : Place → EventsObject) (m : Module ι) (object : EventsObject) (key : String)
    (item : ι) : ℤ :=
  dueOn (events m.host) object ((m.itemsAt key).count item)

namespace Module

theorem count_eraseLast (l : List ι) (item item' : ι) :
    (eraseLast l item).count item' = l.count item' - if item' = item then 1 else 0 := by
  unfold eraseLast
  rw [List.count_reverse, List.count_erase, List.count_reverse]
  by_cases h : item' = item
  · simp [h]
  · simp [h, Ne.symm h]

theorem eraseLast_of_notMem {l : List ι} {item : ι} (h : item ∉ l) : eraseLast l item = l := by
  unfold eraseLast
  rw [List.erase_of_not_mem (by simpa using h), List.reverse_reverse]

/-- Whether a module has recorded a registration. -/
def Recorded (m : Module ι) (r : Registration) : Bool :=
  (m.eventHandlers.find r.object r.event r.handler).isSome

/-- What a module does to the world and to itself, from its calls alone. -/
structure Ran (w : World ι) (m : Module ι) (ts : List Touch) (stuck : EventsObject → String → ι → ℤ)
    (w' : World ι) (m' : Module ι) : Prop where
  hosts : w'.hosts = w.hosts
  modulemap : w'.modulemap = w.modulemap
  methods : m'.unload = m.unload ∧ m'.addHost = m.addHost
  handlers : ∀ r, w'.handlers r = (lastLeft ts r).getD (w.handlers r)
  recorded : ∀ r, m'.Recorded r = ((lastLeft ts r).map Option.isSome).getD (m.Recorded r)
  fired : ∃ new, w'.fired = w.fired ++ new ∧ ∀ object key item,
    balance new object key item =
      owed w.events m' object key item - owed w.events m object key item + stuck object key item

theorem Ran.events {w w' : World ι} {m m' : Module ι} {ts : List Touch}
    {stuck : EventsObject → String → ι → ℤ} (h : Ran w m ts stuck w' m') :
    w'.events = w.events := by
  funext place
  unfold World.events
  rw [h.hosts]

theorem Ran.trans {w w' w'' : World ι} {m m' m'' : Module ι} {ts ts' : List Touch}
    {stuck stuck' : EventsObject → String → ι → ℤ} (h : Ran w m ts stuck w' m')
    (h' : Ran w' m' ts' stuck' w'' m'') :
    Ran w m (ts ++ ts') (fun object key item => stuck object key item + stuck' object key item)
      w'' m'' where
  hosts := h'.hosts.trans h.hosts
  modulemap := h'.modulemap.trans h.modulemap
  methods := ⟨h'.methods.1.trans h.methods.1, h'.methods.2.trans h.methods.2⟩
  handlers r := by
    rw [h'.handlers, h.handlers, lastLeft_append]
    cases lastLeft ts' r <;> rfl
  recorded r := by
    rw [h'.recorded, h.recorded, lastLeft_append]
    cases lastLeft ts' r <;> rfl
  fired := by
    obtain ⟨new, hnew, hbalance⟩ := h.fired
    obtain ⟨new', hnew', hbalance'⟩ := h'.fired
    refine ⟨new ++ new', by rw [hnew', hnew, List.append_assoc], ?_⟩
    intro object key item
    rw [balance_append, hbalance, hbalance', h.events]
    ring

theorem ran_register (w : World ι) (m : Module ι) (r : Registration) (left : Option ℤ)
    (recorded : Option Unit) (h : recorded.isSome = left.isSome) :
    Ran w m [⟨r, left⟩] (fun _ _ _ => 0) { w with handlers := Function.update w.handlers r left }
      { m with eventHandlers := m.eventHandlers.put r.object r.event r.handler recorded } where
  hosts := rfl
  modulemap := rfl
  methods := ⟨rfl, rfl⟩
  handlers r' := by
    simp only [lastLeft, Option.none_or]
    by_cases hr : r' = r
    · simp [hr]
    · simp [hr, Ne.symm hr]
  recorded r' := by
    unfold Recorded
    simp only [Multitable.find_put, lastLeft, Option.none_or]
    by_cases hr : r = r'
    · subst hr
      simp [h]
    · have hne : ¬(r'.object = r.object ∧ r'.event = r.event ∧ r'.handler = r.handler) := by
        rintro ⟨hobject, hevent, hhandler⟩
        apply hr
        cases r
        cases r'
        simp_all
      simp [hr, hne]
  fired := ⟨[], by simp, fun object key item => by simp [balance_nil, owed, itemsAt]⟩

theorem ran_announce (w : World ι) (m : Module ι) (added : Bool) (key : String) (item : ι)
    (items : List ι)
    (h : ∀ item', (items.count item' : ℤ) = (m.itemsAt key).count item' +
      if item' = item then (if added then 1 else -1) else 0) :
    Ran w m [] (fun _ _ _ => 0) (fireItem w m added key item)
      { m with items := m.items.set key (some items) } where
  hosts := rfl
  modulemap := rfl
  methods := ⟨rfl, rfl⟩
  handlers r := by simp [fireItem, lastLeft]
  recorded r := by simp [Recorded, lastLeft]
  fired := by
    refine ⟨[⟨w.events m.host, added, key, item⟩], rfl, ?_⟩
    intro object key' item'
    unfold owed dueOn balance itemsAt
    simp only [Table.get_set]
    by_cases hobject : w.events m.host = object
    · subst hobject
      by_cases hkey : key' = key
      · subst hkey
        have hcount := h item'
        unfold itemsAt at hcount
        by_cases hitem : item' = item
        · subst hitem
          cases added <;> simp at hcount ⊢ <;> omega
        · cases added <;> simp [hitem, Ne.symm hitem] at hcount ⊢ <;> omega
      · cases added <;> simp [hkey, Ne.symm hkey]
    · cases added <;> simp [hobject]

theorem call_ran (w : World ι) (m : Module ι) (c : Call ι) :
    Ran w m (c.touch (w.events m.host)).toList (fun _ _ _ => 0) (call w m c).1 (call w m c).2 ∧
      (call w m c).2.host = m.host ∧ (call w m c).2.itemsAt = c.leave m.itemsAt := by
  cases c with
  | hook event handler priority => exact ⟨ran_register w m _ _ _ rfl, rfl, rfl⟩
  | hookObjectEvent object event handler priority =>
    exact ⟨ran_register w m _ _ _ rfl, rfl, rfl⟩
  | unhook event handler => exact ⟨ran_register w m _ _ _ rfl, rfl, rfl⟩
  | unhookObjectEvent object event handler => exact ⟨ran_register w m _ _ _ rfl, rfl, rfl⟩
  | addItem key item =>
    refine ⟨ran_announce w m true key item _ fun item' => ?_, rfl, ?_⟩
    · rw [List.count_append]
      by_cases hitem : item' = item
      · simp [hitem]
      · simp [hitem, Ne.symm hitem]
    · funext key'
      simp only [call, addItem, Call.leave, itemsAt, Table.get_set, Function.update_apply]
      split <;> rfl
  | removeItem key item =>
    simp only [call, removeItem]
    split
    · rename_i hmem
      refine ⟨ran_announce w m false key item _ fun item' => ?_, rfl, ?_⟩
      · have hpos := List.count_pos_iff.mpr hmem
        rw [count_eraseLast]
        by_cases hitem : item' = item
        · subst hitem
          simp only [if_true, Bool.false_eq_true, if_false]
          omega
        · simp [hitem]
      · funext key'
        simp only [Call.leave, itemsAt, Table.get_set, Function.update_apply]
        split <;> rfl
    · rename_i hmem
      refine ⟨⟨rfl, rfl, ⟨rfl, rfl⟩, fun r => rfl, fun r => rfl, [], by simp, ?_⟩, rfl, ?_⟩
      · intro object key item
        simp [balance_nil]
      · funext key'
        simp only [Call.leave, eraseLast_of_notMem hmem, Function.update_eq_self]

theorem Ran.congr {w w' : World ι} {m m' : Module ι} {ts ts' : List Touch}
    {stuck stuck' : EventsObject → String → ι → ℤ} (h : Ran w m ts stuck w' m') (hts : ts = ts')
    (hstuck : ∀ object key item, stuck object key item = stuck' object key item) :
    Ran w m ts' stuck' w' m' := by
  subst hts
  exact { h with
    fired := by
      obtain ⟨new, hnew, hbalance⟩ := h.fired
      exact ⟨new, hnew, fun object key item => by rw [hbalance, hstuck]⟩ }

/-- What is announced on the host and withdrawn on the server, as the module has turned global. -/
def stuck (events : Place → EventsObject) (m : Module ι) (ss : List (Statement ι))
    (object : EventsObject) (key : String) (item : ι) : ℤ :=
  if turnsGlobal ss then
    dueOn (events m.host) object ((itemsBeforeGlobal m.itemsAt ss key).count item) -
      dueOn (events .server) object ((itemsBeforeGlobal m.itemsAt ss key).count item)
  else 0

theorem ran_setGlobal (w : World ι) (m : Module ι) :
    Ran w m [] (stuck w.events m [.setGlobal]) w { m with host := .server } where
  hosts := rfl
  modulemap := rfl
  methods := ⟨rfl, rfl⟩
  handlers _ := rfl
  recorded _ := rfl
  fired := by
    refine ⟨[], by simp, fun object key item => ?_⟩
    simp only [balance_nil, owed, stuck, turnsGlobal, itemsBeforeGlobal, itemsAt, if_true]
    ring

theorem run_ran (w : World ι) (m : Module ι) (ss : List (Statement ι)) :
    Ran w m (touches w.events m.host ss) (stuck w.events m ss) (run w m ss).1 (run w m ss).2 ∧
      (run w m ss).2.host = if turnsGlobal ss then .server else m.host := by
  induction ss generalizing w m with
  | nil =>
    refine ⟨⟨rfl, rfl, ⟨rfl, rfl⟩, fun _ => rfl, fun _ => rfl, [], ?_, ?_⟩, rfl⟩
    · simp [run]
    · intro object key item
      simp [run, balance_nil, stuck, turnsGlobal]
  | cons s ss ih =>
    cases s with
    | setGlobal =>
      obtain ⟨hran, hhost⟩ := ih w { m with host := .server }
      refine ⟨((ran_setGlobal w m).trans hran).congr rfl ?_, ?_⟩
      · intro object key item
        simp only [stuck, turnsGlobal, itemsBeforeGlobal, if_true, sub_self, ite_self, add_zero]
      · rw [turnsGlobal, if_pos rfl]
        refine hhost.trans ?_
        split <;> rfl
    | call c =>
      obtain ⟨hcall, hplace, hitems⟩ := call_ran w m c
      obtain ⟨hran, hhost⟩ := ih (call w m c).1 (call w m c).2
      refine ⟨(hcall.trans hran).congr ?_ ?_, ?_⟩
      · rw [hcall.events, hplace]
        rfl
      · intro object key item
        rw [zero_add, stuck, hcall.events, hplace, hitems]
        rfl
      · rw [turnsGlobal, ← hplace]
        exact hhost

omit [DecidableEq ι] in
theorem turnsGlobal_map_call (calls : List (Call ι)) : turnsGlobal (calls.map .call) = false := by
  induction calls with
  | nil => rfl
  | cons c calls ih => exact ih

theorem runCalls_ran (w : World ι) (m : Module ι) (calls : List (Call ι)) :
    Ran w m (touches w.events m.host (calls.map .call)) (fun _ _ _ => 0) (runCalls w m calls).1
        (runCalls w m calls).2 ∧
      (runCalls w m calls).2.host = m.host := by
  obtain ⟨hran, hhost⟩ := run_ran w m (calls.map .call)
  rw [turnsGlobal_map_call, if_neg Bool.false_ne_true] at hhost
  refine ⟨hran.congr rfl fun object key item => ?_, hhost⟩
  rw [stuck, turnsGlobal_map_call, if_neg Bool.false_ne_true]

/-! ## Unloading -/

omit [DecidableEq ι] in
theorem mem_registrations (ord : Orders) (m : Module ι) (r : Registration) :
    r ∈ m.registrations ord ↔ m.Recorded r = true := by
  unfold registrations Recorded
  rw [List.mem_map, Option.isSome_iff_exists]
  constructor
  · rintro ⟨⟨object, event, handler⟩, hpath, rfl⟩
    exact (Multitable.mem_paths ..).mp hpath
  · intro h
    exact ⟨⟨r.object, r.event, r.handler⟩, (Multitable.mem_paths ..).mpr h, rfl⟩

omit [DecidableEq ι] in
theorem foldl_removeHandler (rs : List Registration) (handlers : Handlers) (r : Registration) :
    rs.foldl removeHandler handlers r = if r ∈ rs then none else handlers r := by
  induction rs generalizing handlers with
  | nil => simp
  | cons r' rs ih =>
    rw [List.foldl_cons, ih]
    unfold removeHandler
    by_cases hr : r = r'
    · simp [hr]
    · simp [hr]

theorem balance_removed (l : List ι) (object' object : EventsObject) (key' key : String)
    (item : ι) :
    balance (l.reverse.map fun item => (⟨object', false, key', item⟩ : ItemEvent ι)) object key
        item =
      if key = key' then -dueOn object' object (l.count item) else 0 := by
  have hadded : (l.reverse.map fun item => (⟨object', false, key', item⟩ : ItemEvent ι)).count
      ⟨object, true, key, item⟩ = 0 := by
    rw [List.count_eq_zero]
    intro hmem
    obtain ⟨item', -, heq⟩ := List.mem_map.mp hmem
    cases heq
  unfold balance dueOn
  rw [hadded]
  by_cases hkey : key = key' ∧ object' = object
  · obtain ⟨rfl, rfl⟩ := hkey
    have hinjective : Function.Injective fun item => (⟨object', false, key, item⟩ : ItemEvent ι) :=
      fun item item' heq => (ItemEvent.mk.inj heq).2.2.2
    rw [List.count_map_of_injective _ _ hinjective, List.count_reverse]
    simp
  · rw [List.count_eq_zero.mpr]
    · split
      · rename_i hk
        rw [if_neg fun ho => hkey ⟨hk, ho⟩]
        rfl
      · rfl
    · intro hmem
      obtain ⟨item', -, heq⟩ := List.mem_map.mp hmem
      cases heq
      exact hkey ⟨rfl, rfl⟩

theorem balance_removals (ord : Orders) (m : Module ι) (object' object : EventsObject)
    (key : String) (item : ι) :
    balance (m.removals ord object') object key item =
      -dueOn object' object ((m.itemsAt key).count item) := by
  have hkeys : ∀ ks : List String, ks.Nodup →
      balance (ks.flatMap fun key =>
        (m.itemsAt key).reverse.map fun item => ⟨object', false, key, item⟩) object key item =
      if key ∈ ks then -dueOn object' object ((m.itemsAt key).count item) else 0 := by
    intro ks hnodup
    induction ks with
    | nil => simp [balance_nil]
    | cons k ks ih =>
      rw [List.nodup_cons] at hnodup
      rw [List.flatMap_cons, balance_append, ih hnodup.2, balance_removed]
      by_cases hk : key = k
      · subst hk
        simp [hnodup.1]
      · simp [hk]
  rw [removals, hkeys _ (ord.names.nodup _)]
  split
  · rfl
  · rename_i hmem
    rw [KeyOrder.mem_keys, Table.mem_keys] at hmem
    have hnone : m.itemsAt key = [] := by
      unfold itemsAt
      rw [Option.eq_none_iff_forall_ne_some.mpr fun v hv => hmem ⟨v, hv⟩]
      rfl
    simp [hnone, dueOn]

end Module

end Prosody.Modules
