import Prosody.Library.Runs
import Prosody.Library.Turns

/-! # Guards of threads (`guarder` in `util/async.lua`) -/

namespace Prosody.Guarder

open Turns (Stage)

/-- What a call of the guard function has on its stack. -/
structure Call (ι τ : Type*) where
  thread : τ
  /-- There is none for `default_id`. -/
  id : Option ι
  guard : ℕ
  /-- Whether a function is run inside, after which the guard itself calls `exit`. -/
  func : Bool
  stage : Stage

inductive Status
  /-- The thread is not running, and waits for something else, if at all. -/
  | suspended
  /-- It has yielded in a call of the guard function. -/
  | guarded (call : ℕ)
  /-- It is running, or has resumed a thread that is. -/
  | active
  deriving DecidableEq

structure State (ι τ : Type*) where
  guards : Option ι → Option ℕ
  /-- The threads in each guard. -/
  queue : ℕ → List τ
  /-- How many guards have been created. -/
  created : ℕ
  calls : ℕ → Option (Call ι τ)
  made : ℕ
  status : τ → Status
  /-- The threads that are active, the running one first. -/
  running : List τ

variable {ι τ : Type*}

section

variable [DecidableEq ι] [DecidableEq τ]

namespace State

def new : State ι τ where
  guards _ := none
  queue _ := []
  created := 0
  calls _ := none
  made := 0
  status _ := .suspended
  running := []

def setStage (s : State ι τ) (call : ℕ) (stage : Stage) : State ι τ :=
  { s with
    calls := Function.update s.calls call ((s.calls call).map fun c => { c with stage := stage }) }

/-- The thread runs until it yields or finishes. -/
def resume (s : State ι τ) (thread : τ) : State ι τ :=
  { s with status := Function.update s.status thread .active, running := thread :: s.running }

def runnerContinue (s : State ι τ) (thread : τ) : State ι τ :=
  match s.status thread with
  | .active => s
  | .suspended => s.resume thread
  | .guarded call => (s.resume thread).setStage call .inside

/-- The guard function is called by the running thread. -/
def guarder (s : State ι τ) (id : Option ι) (func : Bool) : State ι τ :=
  match s.running with
  | [] => s
  | thread :: rest =>
    match s.guards id with
    | none =>
      { s with
        guards := Function.update s.guards id (some s.created)
        queue := Function.update s.queue s.created []
        created := s.created + 1
        calls := Function.update s.calls s.made (some ⟨thread, id, s.created, func, .inside⟩)
        made := s.made + 1 }
    | some guard =>
      { s with
        queue := Function.update s.queue guard (s.queue guard ++ [thread])
        calls := Function.update s.calls s.made (some ⟨thread, id, guard, func, .waiting⟩)
        made := s.made + 1
        status := Function.update s.status thread (.guarded s.made)
        running := rest }

def exit (s : State ι τ) (call : ℕ) (c : Call ι τ) : State ι τ :=
  let s := s.setStage call .left
  match s.queue c.guard with
  | next_waiting :: rest =>
    { s with queue := Function.update s.queue c.guard rest }.runnerContinue next_waiting
  | [] => { s with guards := Function.update s.guards c.id none }

/-- The innermost function that the thread runs inside. -/
def inFunction (s : State ι τ) (thread : τ) : Option ℕ :=
  (List.range s.made).reverse.find? fun call =>
    (s.calls call).any fun c => decide (c.thread = thread ∧ c.stage = .inside) && c.func

end State

/-- What the running code does. Without a running thread, it is not one of an async thread. -/
inductive Act (ι : Type*) (τ : Type*)
  | guard (id : Option ι) (func : Bool)
  /-- The function that the thread has given returns. -/
  | funcReturns
  /-- The function that a call has returned is called. -/
  | exit (call : ℕ)
  /-- A thread that waits for something else is run, or continues. -/
  | run (thread : τ)
  /-- The thread waits for something else, or has finished. -/
  | yield

def step (s : State ι τ) : Act ι τ → State ι τ
  | .guard id func => s.guarder id func
  | .funcReturns =>
    match s.running with
    | [] => s
    | thread :: _ =>
      match s.inFunction thread with
      | none => s
      | some call => ((s.calls call).map (s.exit call)).getD s
  | .exit call =>
    match s.calls call with
    | none => s
    | some c => if c.func = true ∨ c.stage = .waiting then s else s.exit call c
  | .run thread => if s.status thread = .suspended then s.resume thread else s
  | .yield =>
    match s.running with
    | [] => s
    | thread :: rest =>
      { s with status := Function.update s.status thread .suspended, running := rest }

/-- A thread leaves a section only once. -/
def Once (s : State ι τ) : Act ι τ → Prop
  | .exit call => ∀ c, s.calls call = some c → c.stage ≠ .left
  | _ => True

end

/-! ## What is meant -/

namespace State

def visits (s : State ι τ) (call : ℕ) : Option (Option ι × Stage) :=
  (s.calls call).map fun c => (c.id, c.stage)

structure Right (s : State ι τ) : Prop where
  fair : Turns.Fair s.visits
  /-- There is a guard exactly while someone has not left. -/
  guards : ∀ id, s.guards id ≠ none ↔ ∃ call stage, s.visits call = some (id, stage) ∧ stage ≠ .left
  /-- Threads stop in a guard only as long as they wait. -/
  stopped : ∀ thread call, s.status thread = .guarded call ↔
    ∃ c, s.calls call = some c ∧ c.thread = thread ∧ c.stage = .waiting

end State

/-! ## What holds between the acts -/

structure Inv (s : State ι τ) (line : Option ι → List ℕ) : Prop where
  lines : Turns.Lines s.visits line
  bound : ∀ call, s.made ≤ call → s.calls call = none
  free : ∀ id, s.guards id = none → line id = []
  held : ∀ id guard, s.guards id = some guard → guard < s.created ∧
    ∃ first rest, line id = first :: rest ∧
      (s.queue guard).map s.status = rest.map Status.guarded
  guard : ∀ id call c, call ∈ line id → s.calls call = some c → s.guards id = some c.guard
  inj : ∀ id id' guard, s.guards id = some guard → s.guards id' = some guard → id = id'
  stopped : ∀ thread call, s.status thread = .guarded call ↔
    ∃ c, s.calls call = some c ∧ c.thread = thread ∧ c.stage = .waiting
  active : ∀ thread, thread ∈ s.running → s.status thread = .active
  nodup : s.running.Nodup

variable {s : State ι τ} {line : Option ι → List ℕ} {thread : τ} {call : ℕ} {c : Call ι τ}

theorem inv_new : Inv (State.new : State ι τ) fun _ => [] where
  lines := {
    mem_iff := fun _ _ => iff_of_false List.not_mem_nil fun ⟨_, h, _⟩ => by cases h
    sorted := fun _ => List.Pairwise.nil
    inside_iff := fun _ _ => iff_of_false (fun h => by cases h) fun h => by cases h
    left := fun _ _ h => by cases h }
  bound _ _ := rfl
  free _ _ := rfl
  held _ _ h := by cases h
  guard _ _ _ h := by cases h
  inj _ _ _ h := by cases h
  stopped _ _ := iff_of_false (fun h => by cases h) fun ⟨_, h, _⟩ => by cases h
  active _ h := by cases h
  nodup := List.nodup_nil

theorem Inv.right (h : Inv s line) : s.Right where
  fair := h.lines.fair
  guards id := by
    constructor
    · intro hne
      obtain ⟨guard, hguard⟩ := Option.ne_none_iff_exists'.mp hne
      obtain ⟨-, first, rest, hline, -⟩ := h.held id guard hguard
      obtain ⟨stage, hvisit⟩ := (h.lines.mem_iff id first).mp (hline ▸ List.mem_cons_self)
      exact ⟨first, stage, hvisit⟩
    · rintro ⟨call, stage, hvisit⟩ hnone
      have hmem := (h.lines.mem_iff id call).mpr ⟨stage, hvisit⟩
      rw [h.free id hnone] at hmem
      cases hmem
  stopped := h.stopped

theorem Inv.lt_made (h : Inv s line) (hc : s.calls call = some c) : call < s.made := by
  by_contra hge
  rw [h.bound call (not_lt.mp hge)] at hc
  cases hc

theorem Inv.exists_call (h : Inv s line) {id : Option ι} (hmem : call ∈ line id) :
    ∃ c, s.calls call = some c ∧ c.id = id ∧ c.stage ≠ .left := by
  obtain ⟨stage, hvisit, hstage⟩ := (h.lines.mem_iff id call).mp hmem
  obtain ⟨c, hc, heq⟩ := Option.map_eq_some_iff.mp hvisit
  cases heq
  exact ⟨c, hc, rfl, hstage⟩

theorem Inv.id_eq (h : Inv s line) {id : Option ι} (hmem : call ∈ line id)
    (hc : s.calls call = some c) : c.id = id := by
  obtain ⟨c', hc', hid, -⟩ := h.exists_call hmem
  cases hc.symm.trans hc'
  exact hid

theorem Inv.mem_line (h : Inv s line) (hc : s.calls call = some c) (hstage : c.stage ≠ .left) :
    call ∈ line c.id :=
  (h.lines.mem_iff c.id call).mpr ⟨c.stage, by rw [State.visits, hc, Option.map_some], hstage⟩

variable [DecidableEq ι] [DecidableEq τ]

omit [DecidableEq ι] in
theorem map_update_of_notMem {α : Type*} {f : τ → α} {l : List τ} (hnot : thread ∉ l) (x : α) :
    l.map (Function.update f thread x) = l.map f := by
  refine List.map_congr_left fun t ht => Function.update_of_ne ?_ _ _
  rintro rfl
  exact hnot ht

omit [DecidableEq ι] in
/-- A thread that is not stopped in a guard gets another status. -/
theorem Inv.withStatus (h : Inv s line) (hfree : ∀ call, s.status thread ≠ .guarded call)
    {status : Status} (hstatus : ∀ call, status ≠ .guarded call) {running : List τ}
    (hactive : ∀ t, t ∈ running → Function.update s.status thread status t = .active)
    (hnodup : running.Nodup) :
    Inv { s with status := Function.update s.status thread status, running := running } line := by
  have hkept : ∀ t call, Function.update s.status thread status t = .guarded call ↔
      s.status t = .guarded call := by
    intro t call
    by_cases ht : t = thread
    · subst ht
      rw [Function.update_self]
      exact iff_of_false (hstatus call) (hfree call)
    · rw [Function.update_of_ne ht]
  exact {
    lines := h.lines
    bound := h.bound
    free := h.free
    held := by
      intro id guard hguard
      obtain ⟨hlt, first, rest, hline, hqueue⟩ := h.held id guard hguard
      have hnot : thread ∉ s.queue guard := by
        intro hmem
        obtain ⟨call, -, heq⟩ := List.mem_map.mp (hqueue ▸ List.mem_map_of_mem hmem)
        exact hfree call heq.symm
      exact ⟨hlt, first, rest, hline, (map_update_of_notMem hnot status).trans hqueue⟩
    guard := h.guard
    inj := h.inj
    stopped := fun t call => (hkept t call).trans (h.stopped t call)
    active := hactive
    nodup := hnodup }

omit [DecidableEq ι] in
theorem Inv.resume (h : Inv s line) (hthread : s.status thread = .suspended) :
    Inv (s.resume thread) line := by
  have hother : ∀ t, t ∈ s.running → t ≠ thread := by
    rintro t ht rfl
    rw [h.active t ht] at hthread
    cases hthread
  refine h.withStatus (fun call heq => by cases hthread.symm.trans heq)
    (fun call heq => by cases heq) ?_ ?_
  · intro t ht
    rcases List.mem_cons.mp ht with rfl | ht
    · exact Function.update_self _ _ _
    · rw [Function.update_of_ne (hother t ht)]
      exact h.active t ht
  · exact List.nodup_cons.mpr ⟨fun hmem => hother thread hmem rfl, h.nodup⟩

omit [DecidableEq ι] in
theorem Inv.yield (h : Inv s line) {rest : List τ} (hrunning : s.running = thread :: rest) :
    Inv { s with status := Function.update s.status thread .suspended, running := rest } line := by
  have hnodup := h.nodup
  rw [hrunning] at hnodup
  obtain ⟨hnot, hrest⟩ := List.nodup_cons.mp hnodup
  have hthread := h.active thread (hrunning ▸ List.mem_cons_self)
  refine h.withStatus (fun call heq => by cases hthread.symm.trans heq)
    (fun call heq => by cases heq) ?_ hrest
  intro t ht
  have hne : t ≠ thread := by
    rintro rfl
    exact hnot ht
  rw [Function.update_of_ne hne]
  exact h.active t (hrunning ▸ List.mem_cons_of_mem _ ht)

omit [DecidableEq ι] [DecidableEq τ] in
theorem visits_update (s s' : State ι τ) (c : Call ι τ)
    (hcalls : s'.calls = Function.update s.calls call (some c)) :
    s'.visits = Function.update s.visits call (some (c.id, c.stage)) := by
  funext i
  unfold State.visits
  rw [hcalls]
  by_cases hi : i = call
  · subst hi
    rw [Function.update_self, Function.update_self, Option.map_some]
  · rw [Function.update_of_ne hi, Function.update_of_ne hi]

omit [DecidableEq τ] in
/-- Who stands in the lines once a new call has been added to one of them. -/
theorem Inv.mem_arrived (h : Inv s line) {id id' : Option ι} {i : ℕ}
    (hi : i ∈ Function.update line id (line id ++ [s.made]) id') :
    i ∈ line id' ∧ i ≠ s.made ∨ i = s.made ∧ id' = id := by
  have hne : i ∈ line id' → i ≠ s.made := by
    intro hmem
    obtain ⟨c, hc, -⟩ := h.exists_call hmem
    exact (h.lt_made hc).ne
  by_cases heq : id' = id
  · subst heq
    rw [Function.update_self, List.mem_append, List.mem_singleton] at hi
    exact hi.imp (fun hmem => ⟨hmem, hne hmem⟩) fun hi => ⟨hi, rfl⟩
  · rw [Function.update_of_ne heq] at hi
    exact .inl ⟨hi, hne hi⟩

omit [DecidableEq ι] [DecidableEq τ] in
theorem Inv.visits_none (h : Inv s line) {i : ℕ} (hi : s.made ≤ i) : s.visits i = none := by
  rw [State.visits, h.bound i hi, Option.map_none]

omit [DecidableEq τ] in
theorem Inv.enter (h : Inv s line) (thread : τ) {id : Option ι}
    (hguard : s.guards id = none) (func : Bool) :
    Inv { s with
      guards := Function.update s.guards id (some s.created)
      queue := Function.update s.queue s.created []
      created := s.created + 1
      calls := Function.update s.calls s.made (some ⟨thread, id, s.created, func, .inside⟩)
      made := s.made + 1 } (Function.update line id (line id ++ [s.made])) := by
  have hempty := h.free id hguard
  have holdguard : ∀ id' guard, Function.update s.guards id (some s.created) id' = some guard →
      (id' = id ∧ guard = s.created) ∨
        (id' ≠ id ∧ guard < s.created ∧ s.guards id' = some guard) := by
    intro id' guard hid'
    by_cases heq : id' = id
    · subst heq
      rw [Function.update_self] at hid'
      exact .inl ⟨rfl, (Option.some.inj hid').symm⟩
    · rw [Function.update_of_ne heq] at hid'
      exact .inr ⟨heq, (h.held id' guard hid').1, hid'⟩
  exact {
    lines := by
      rw [visits_update s _ _ rfl]
      refine h.lines.arrive id (fun _ => h.visits_none) ?_
      rw [if_pos hempty]
    bound := by
      intro i hi
      dsimp only at hi ⊢
      rw [Function.update_of_ne (by omega)]
      exact h.bound i (by omega)
    free := by
      intro id' hnone'
      dsimp only at hnone'
      by_cases heq : id' = id
      · subst heq
        rw [Function.update_self] at hnone'
        cases hnone'
      · rw [Function.update_of_ne heq] at hnone' ⊢
        exact h.free id' hnone'
    held := by
      intro id' guard hid'
      dsimp only at hid' ⊢
      rcases holdguard id' guard hid' with ⟨rfl, rfl⟩ | ⟨hne, hlt, hold⟩
      · refine ⟨Nat.lt_succ_self _, s.made, [], ?_, ?_⟩
        · rw [Function.update_self, hempty]
          rfl
        · rw [Function.update_self]
          rfl
      · rw [Function.update_of_ne hne, Function.update_of_ne hlt.ne]
        exact ⟨hlt.trans (Nat.lt_succ_self _), (h.held id' guard hold).2⟩
    guard := by
      intro id' i c' hi hc'
      dsimp only at hc' ⊢
      rcases h.mem_arrived hi with ⟨hmem, hne⟩ | ⟨rfl, rfl⟩
      · rw [Function.update_of_ne hne] at hc'
        have hold := h.guard id' i c' hmem hc'
        rw [Function.update_of_ne, hold]
        rintro rfl
        cases hguard.symm.trans hold
      · rw [Function.update_self] at hc' ⊢
        cases hc'
        rfl
    inj := by
      intro id' id'' guard hid' hid''
      rcases holdguard id' guard hid' with ⟨heq, hfresh⟩ | ⟨-, hlt, hold⟩ <;>
        rcases holdguard id'' guard hid'' with ⟨heq', hfresh'⟩ | ⟨-, hlt', hold'⟩
      · exact heq.trans heq'.symm
      · exact absurd hfresh hlt'.ne
      · exact absurd hfresh' hlt.ne
      · exact h.inj id' id'' guard hold hold'
    stopped := by
      intro t i
      dsimp only
      rw [h.stopped t i]
      refine exists_congr fun c' => and_congr_left fun hstage => ?_
      by_cases hi : i = s.made
      · subst hi
        rw [Function.update_self, h.bound s.made le_rfl]
        refine iff_of_false (fun heq => by cases heq) fun heq => ?_
        cases heq
        cases hstage.2
      · rw [Function.update_of_ne hi]
    active := h.active
    nodup := h.nodup }

omit [DecidableEq ι] in
/-- Of those who are stopped, the thread of a new call that waits is one more. -/
theorem stopped_waiting {status : τ → Status} {calls : ℕ → Option (Call ι τ)} {made : ℕ}
    (hstopped : ∀ t i, status t = .guarded i ↔
      ∃ c, calls i = some c ∧ c.thread = t ∧ c.stage = .waiting)
    (hthread : status c.thread = .active) (hmade : calls made = none) (hc : c.stage = .waiting)
    (t : τ) (i : ℕ) : Function.update status c.thread (.guarded made) t = .guarded i ↔
      ∃ c', Function.update calls made (some c) i = some c' ∧ c'.thread = t ∧
        c'.stage = .waiting := by
  by_cases ht : t = c.thread
  · subst ht
    rw [Function.update_self]
    by_cases hi : i = made
    · subst hi
      rw [Function.update_self]
      exact iff_of_true rfl ⟨c, rfl, rfl, hc⟩
    · rw [Function.update_of_ne hi, ← hstopped c.thread i, hthread]
      refine iff_of_false (fun heq => ?_) fun heq => by cases heq
      cases heq
      exact hi rfl
  · rw [Function.update_of_ne ht, hstopped t i]
    by_cases hi : i = made
    · subst hi
      rw [Function.update_self, hmade]
      refine iff_of_false (fun ⟨_, heq, _⟩ => by cases heq) ?_
      rintro ⟨c', heq, hc', -⟩
      cases heq
      exact ht hc'.symm
    · rw [Function.update_of_ne hi]

theorem Inv.wait (h : Inv s line) {rest : List τ} (hrunning : s.running = thread :: rest)
    {id : Option ι} {guard : ℕ} (hguard : s.guards id = some guard) (func : Bool) :
    Inv { s with
      queue := Function.update s.queue guard (s.queue guard ++ [thread])
      calls := Function.update s.calls s.made (some ⟨thread, id, guard, func, .waiting⟩)
      made := s.made + 1
      status := Function.update s.status thread (.guarded s.made)
      running := rest } (Function.update line id (line id ++ [s.made])) := by
  have hthread := h.active thread (hrunning ▸ List.mem_cons_self)
  have hnodup := h.nodup
  rw [hrunning] at hnodup
  obtain ⟨hnotrest, hrest⟩ := List.nodup_cons.mp hnodup
  obtain ⟨hlt, first, others, hline, hqueue⟩ := h.held id guard hguard
  have hnot : ∀ id' guard', s.guards id' = some guard' → thread ∉ s.queue guard' := by
    intro id' guard' hid' hmem
    obtain ⟨-, first', others', -, hqueue'⟩ := h.held id' guard' hid'
    obtain ⟨i, -, heq⟩ := List.mem_map.mp (hqueue' ▸ List.mem_map_of_mem hmem)
    rw [hthread] at heq
    cases heq
  exact {
    lines := by
      rw [visits_update s _ _ rfl]
      refine h.lines.arrive id (fun _ => h.visits_none) ?_
      rw [if_neg (hline ▸ List.cons_ne_nil _ _)]
    bound := by
      intro i hi
      dsimp only at hi ⊢
      rw [Function.update_of_ne (by omega)]
      exact h.bound i (by omega)
    free := by
      intro id' hnone'
      have hne : id' ≠ id := by
        rintro rfl
        cases hguard.symm.trans hnone'
      rw [Function.update_of_ne hne]
      exact h.free id' hnone'
    held := by
      intro id' guard' hid'
      dsimp only
      by_cases heq : id' = id
      · subst heq
        cases hguard.symm.trans hid'
        refine ⟨hlt, first, others ++ [s.made], ?_, ?_⟩
        · rw [Function.update_self, hline, List.cons_append]
        · rw [Function.update_self, List.map_append, List.map_append,
            map_update_of_notMem (hnot id' guard hguard), hqueue, List.map_singleton,
            List.map_singleton, Function.update_self]
      · have hne : guard' ≠ guard := by
          rintro rfl
          exact heq (h.inj id' id guard' hid' hguard)
        rw [Function.update_of_ne heq, Function.update_of_ne hne,
          map_update_of_notMem (hnot id' guard' hid')]
        exact h.held id' guard' hid'
    guard := by
      intro id' i c' hi hc'
      dsimp only at hc' ⊢
      rcases h.mem_arrived hi with ⟨hmem, hne⟩ | ⟨rfl, rfl⟩
      · rw [Function.update_of_ne hne] at hc'
        exact h.guard id' i c' hmem hc'
      · rw [Function.update_self] at hc'
        cases hc'
        exact hguard
    inj := h.inj
    stopped := fun t i => stopped_waiting (c := ⟨thread, id, guard, func, .waiting⟩) h.stopped
      hthread (h.bound s.made le_rfl) rfl t i
    active := by
      intro t ht
      dsimp only
      have hne : t ≠ thread := by
        rintro rfl
        exact hnotrest ht
      rw [Function.update_of_ne hne]
      exact h.active t (hrunning ▸ List.mem_cons_of_mem _ ht)
    nodup := hrest }

omit [DecidableEq ι] [DecidableEq τ] in
/-- Whoever leaves was not waiting. -/
theorem Inv.stopped_left (h : Inv s line) (hc : s.calls call = some c)
    (hinside : c.stage = .inside) (t : τ) (i : ℕ) : s.status t = .guarded i ↔
      ∃ c', Function.update s.calls call (some { c with stage := .left }) i = some c' ∧
        c'.thread = t ∧ c'.stage = .waiting := by
  rw [h.stopped t i]
  by_cases hi : i = call
  · subst hi
    rw [Function.update_self, hc]
    refine iff_of_false ?_ ?_
    · rintro ⟨c', heq, -, hwaiting⟩
      cases heq
      cases hinside.symm.trans hwaiting
    · rintro ⟨c', heq, -, hwaiting⟩
      cases heq
      cases hwaiting
  · rw [Function.update_of_ne hi]

omit [DecidableEq τ] in
/-- What is left of the lines when the first one leaves. -/
theorem Inv.mem_tail (h : Inv s line) (hc : s.calls call = some c) {others : List ℕ}
    (hline : line c.id = call :: others) {id : Option ι} {i : ℕ}
    (hi : i ∈ Function.update line c.id others id) : i ∈ line id ∧ i ≠ call := by
  by_cases heq : id = c.id
  · subst heq
    rw [Function.update_self] at hi
    have hsorted := h.lines.sorted c.id
    rw [hline] at hsorted
    exact ⟨hline ▸ List.mem_cons_of_mem _ hi, ((List.pairwise_cons.mp hsorted).1 i hi).ne'⟩
  · rw [Function.update_of_ne heq] at hi
    refine ⟨hi, ?_⟩
    rintro rfl
    exact heq (h.id_eq hi hc).symm

omit [DecidableEq τ] in
/-- The last one leaves. -/
theorem Inv.leaveLast (h : Inv s line) (hc : s.calls call = some c)
    (hinside : c.stage = .inside) (hline : line c.id = [call]) :
    Inv { s.setStage call .left with guards := Function.update s.guards c.id none }
      (Function.update line c.id []) := by
  have hcalls : (s.setStage call .left).calls =
      Function.update s.calls call (some { c with stage := .left }) := by
    rw [State.setStage, hc, Option.map_some]
  have hkept : ∀ {id guard}, Function.update s.guards c.id none id = some guard →
      id ≠ c.id ∧ s.guards id = some guard := by
    intro id guard hid
    by_cases heq : id = c.id
    · rw [heq, Function.update_self] at hid
      cases hid
    · rw [Function.update_of_ne heq] at hid
      exact ⟨heq, hid⟩
  exact {
    lines := by
      have hvisits := visits_update s
        { s.setStage call .left with guards := Function.update s.guards c.id none } _ hcalls
      rw [hvisits]
      exact h.lines.leave hline (Function.update_self _ _ _) (fun j hj => by cases hj)
        fun j hj _ => Function.update_of_ne hj _ _
    bound := by
      intro i hi
      dsimp only
      rw [hcalls, Function.update_of_ne ((h.lt_made hc).trans_le hi).ne']
      exact h.bound i hi
    free := by
      intro id hnone
      dsimp only at hnone
      by_cases heq : id = c.id
      · rw [heq, Function.update_self]
      · rw [Function.update_of_ne heq] at hnone ⊢
        exact h.free id hnone
    held := by
      intro id guard hid
      obtain ⟨hne, hold⟩ := hkept hid
      rw [Function.update_of_ne hne]
      exact h.held id guard hold
    guard := by
      intro id i c' hi hc'
      dsimp only at hc' ⊢
      obtain ⟨hmem, hcall⟩ := h.mem_tail hc hline hi
      have hne : id ≠ c.id := by
        rintro rfl
        rw [Function.update_self] at hi
        cases hi
      rw [hcalls, Function.update_of_ne hcall] at hc'
      rw [Function.update_of_ne hne]
      exact h.guard id i c' hmem hc'
    inj := fun id id' guard hid hid' => h.inj id id' guard (hkept hid).2 (hkept hid').2
    stopped := by
      intro t i
      dsimp only
      rw [hcalls]
      exact h.stopped_left hc hinside t i
    active := h.active
    nodup := h.nodup }

/-! ## The next one comes in -/

section

variable {next : ℕ} {n : Call ι τ}

omit [DecidableEq ι] [DecidableEq τ] in
/-- A stopped thread waits in no other guard. -/
theorem Inv.notMem_queue (h : Inv s line) (hn : s.calls next = some n)
    (hthread : s.status thread = .guarded next) {id : Option ι} {guard : ℕ}
    (hguard : s.guards id = some guard) (hne : id ≠ n.id) : thread ∉ s.queue guard := by
  intro hmem
  obtain ⟨-, first, rest, hline, hqueue⟩ := h.held id guard hguard
  obtain ⟨i, hi, heq⟩ := List.mem_map.mp (hqueue ▸ List.mem_map_of_mem hmem)
  cases heq.trans hthread
  exact hne (h.id_eq (hline ▸ List.mem_cons_of_mem _ hi) hn).symm

omit [DecidableEq ι] [DecidableEq τ] in
/-- A thread waits only once. -/
theorem Inv.notMem_rest (h : Inv s line) {id : Option ι} {others : List ℕ} {rest : List τ}
    (hline : line id = call :: next :: others) (hthread : s.status thread = .guarded next)
    (hothers : rest.map s.status = others.map Status.guarded) : thread ∉ rest := by
  intro hmem
  obtain ⟨i, hi, heq⟩ := List.mem_map.mp (hothers ▸ List.mem_map_of_mem hmem)
  cases heq.trans hthread
  have hsorted := h.lines.sorted id
  rw [hline] at hsorted
  exact absurd ((List.pairwise_cons.mp (List.pairwise_cons.mp hsorted).2).1 next hi)
    (lt_irrefl next)

omit [DecidableEq ι] in
/-- Of those who are stopped, it is the thread of the call that comes in that goes on. -/
theorem stopped_inside {status : τ → Status} {calls : ℕ → Option (Call ι τ)}
    (hstopped : ∀ t i, status t = .guarded i ↔
      ∃ c, calls i = some c ∧ c.thread = t ∧ c.stage = .waiting)
    (hthread : status thread = .guarded next) (hn : calls next = some n) (t : τ) (i : ℕ) :
    Function.update status thread .active t = .guarded i ↔
      ∃ c, Function.update calls next (some { n with stage := .inside }) i = some c ∧
        c.thread = t ∧ c.stage = .waiting := by
  by_cases hi : i = next
  · subst hi
    rw [Function.update_self]
    refine iff_of_false (fun heq => ?_) ?_
    · by_cases ht : t = thread
      · rw [ht, Function.update_self] at heq
        cases heq
      · rw [Function.update_of_ne ht] at heq
        obtain ⟨n₁, hn₁, ht₁, -⟩ := (hstopped t i).mp heq
        obtain ⟨n₂, hn₂, ht₂, -⟩ := (hstopped thread i).mp hthread
        cases hn₁.symm.trans hn₂
        exact ht (ht₁.symm.trans ht₂)
    · rintro ⟨c, heq, -, hwaiting⟩
      cases heq
      cases hwaiting
  · rw [Function.update_of_ne hi, ← hstopped t i]
    by_cases ht : t = thread
    · rw [ht, Function.update_self, hthread]
      refine iff_of_false (fun heq => by cases heq) fun heq => ?_
      cases heq
      exact hi rfl
    · rw [Function.update_of_ne ht]

/-- The first thread of the queue comes in. -/
theorem Inv.handOver (h : Inv s line) (hc : s.calls call = some c) (hinside : c.stage = .inside)
    {others : List ℕ} (hline : line c.id = call :: next :: others)
    (hguard : s.guards c.id = some c.guard) {rest : List τ}
    (hthread : s.status thread = .guarded next)
    (hothers : rest.map s.status = others.map Status.guarded) :
    Inv (({ s.setStage call .left with
      queue := Function.update s.queue c.guard rest }.resume thread).setStage next .inside)
      (Function.update line c.id (next :: others)) := by
  obtain ⟨n, hn, -, hnwaiting⟩ := (h.stopped thread next).mp hthread
  have hne : next ≠ call := by
    rintro rfl
    cases hc.symm.trans hn
    cases hinside.symm.trans hnwaiting
  have hcalls : (({ s.setStage call .left with
      queue := Function.update s.queue c.guard rest }.resume thread).setStage next .inside).calls =
      Function.update (Function.update s.calls call (some { c with stage := .left })) next
        (some { n with stage := .inside }) := by
    simp only [State.setStage, State.resume, hc, Option.map_some, Function.update_of_ne hne, hn]
  have hnid : n.id = c.id := h.id_eq (hline ▸ List.mem_cons_of_mem _ List.mem_cons_self) hn
  have hnotrunning : thread ∉ s.running := fun hmem => by
    cases (h.active thread hmem).symm.trans hthread
  exact {
    lines := by
      refine h.lines.leave hline ?_ ?_ ?_
      · rw [State.visits, hcalls, Function.update_of_ne hne.symm, Function.update_self,
          Option.map_some]
      · intro j hj
        cases hj
        rw [State.visits, hcalls, Function.update_self, Option.map_some, hnid]
      · intro j hj hj'
        have hj'' : j ≠ next := by
          rintro rfl
          exact hj' rfl
        rw [State.visits, hcalls, Function.update_of_ne hj'', Function.update_of_ne hj]
        rfl
    bound := by
      intro i hi
      have hi' : s.made ≤ i := hi
      rw [hcalls, Function.update_of_ne ((h.lt_made hn).trans_le hi').ne',
        Function.update_of_ne ((h.lt_made hc).trans_le hi').ne']
      exact h.bound i hi'
    free := by
      intro id hnone
      have hid : id ≠ c.id := by
        rintro rfl
        cases hguard.symm.trans hnone
      rw [Function.update_of_ne hid]
      exact h.free id hnone
    held := by
      intro id guard hid
      have hid' : s.guards id = some guard := hid
      dsimp only [State.setStage, State.resume]
      by_cases heq : id = c.id
      · subst heq
        cases hguard.symm.trans hid'
        rw [Function.update_self, Function.update_self, map_update_of_notMem (h.notMem_rest hline hthread hothers)]
        exact ⟨(h.held c.id c.guard hguard).1, next, others, rfl, hothers⟩
      · have hne' : guard ≠ c.guard := by
          rintro rfl
          exact heq (h.inj id c.id c.guard hid' hguard)
        rw [Function.update_of_ne heq, Function.update_of_ne hne',
          map_update_of_notMem (h.notMem_queue hn hthread hid' (hnid ▸ heq))]
        exact h.held id guard hid'
    guard := by
      intro id i c' hi hc'
      obtain ⟨hmem, hcall⟩ := h.mem_tail hc hline hi
      rw [hcalls] at hc'
      by_cases heq : i = next
      · subst heq
        rw [Function.update_self] at hc'
        cases hc'
        exact h.guard id i n hmem hn
      · rw [Function.update_of_ne heq, Function.update_of_ne hcall] at hc'
        exact h.guard id i c' hmem hc'
    inj := h.inj
    stopped := by
      intro t i
      rw [hcalls]
      exact stopped_inside (h.stopped_left hc hinside) hthread
        ((Function.update_of_ne hne _ _).trans hn) t i
    active := by
      intro t ht
      dsimp only [State.setStage, State.resume] at ht ⊢
      rcases List.mem_cons.mp ht with rfl | hold
      · exact Function.update_self _ _ _
      · have hne' : t ≠ thread := by
          rintro rfl
          exact hnotrunning hold
        rw [Function.update_of_ne hne']
        exact h.active t hold
    nodup := List.nodup_cons.mpr ⟨hnotrunning, h.nodup⟩ }

end

omit [DecidableEq ι] in
theorem runnerContinue_guarded (h : s.status thread = .guarded call) :
    s.runnerContinue thread = (s.resume thread).setStage call .inside := by
  unfold State.runnerContinue
  rw [h]

theorem Inv.exit (h : Inv s line) (hc : s.calls call = some c) (hinside : c.stage = .inside) :
    ∃ line', Inv (s.exit call c) line' := by
  have hmem := h.mem_line hc (by rw [hinside]; decide)
  have hguard := h.guard c.id call c hmem hc
  obtain ⟨-, first, rest, hline, hqueue⟩ := h.held c.id c.guard hguard
  have hfirst : call = first := by
    have hhead := (h.lines.inside_iff c.id call).mp (by
      rw [State.visits, hc, Option.map_some, hinside])
    rw [hline] at hhead
    exact (Option.some.inj hhead).symm
  subst hfirst
  have hsame : (s.setStage call .left).queue = s.queue := rfl
  rw [State.exit, hsame]
  cases hthreads : s.queue c.guard with
  | nil =>
    rw [hthreads] at hqueue
    rw [List.map_eq_nil_iff.mp hqueue.symm] at hline
    exact ⟨_, h.leaveLast hc hinside hline⟩
  | cons thread threads =>
    rw [hthreads] at hqueue
    cases rest with
    | nil => cases hqueue
    | cons next others =>
      obtain ⟨hthread, hothers⟩ := List.cons.inj hqueue
      have hcontinue := runnerContinue_guarded (s := { s.setStage call .left with
        queue := Function.update s.queue c.guard threads }) hthread
      have hentered := h.handOver hc hinside hline hguard hthread hothers
      rw [← hcontinue] at hentered
      exact ⟨_, hentered⟩

theorem Inv.step (h : Inv s line) (act : Act ι τ) (honce : Once s act) :
    ∃ line', Inv (step s act) line' := by
  cases act with
  | guard id func =>
    rw [Guarder.step, State.guarder]
    cases hrunning : s.running with
    | nil => exact ⟨line, h⟩
    | cons thread rest =>
      dsimp only
      cases hguard : s.guards id with
      | none =>
        refine ⟨Function.update line id (line id ++ [s.made]), ?_⟩
        have henter := h.enter thread hguard func
        rw [hrunning] at henter
        exact henter
      | some guard =>
        have hwait := h.wait hrunning hguard func
        exact ⟨_, hwait⟩
  | funcReturns =>
    rw [Guarder.step]
    cases hrunning : s.running with
    | nil => exact ⟨line, h⟩
    | cons thread rest =>
      dsimp only
      cases hfunction : s.inFunction thread with
      | none => exact ⟨line, h⟩
      | some call =>
        have hfound := List.find?_some hfunction
        dsimp only
        cases hc : s.calls call with
        | none => exact ⟨line, h⟩
        | some c =>
          rw [hc] at hfound
          simp only [Option.any_some, Bool.and_eq_true, decide_eq_true_eq] at hfound
          exact h.exit hc hfound.1.2
  | exit call =>
    rw [Guarder.step]
    cases hc : s.calls call with
    | none => exact ⟨line, h⟩
    | some c =>
      dsimp only
      by_cases hno : c.func = true ∨ c.stage = .waiting
      · rw [if_pos hno]
        exact ⟨line, h⟩
      · rw [if_neg hno]
        refine h.exit hc ?_
        cases hstage : c.stage with
        | waiting => exact absurd (.inr hstage) hno
        | inside => rfl
        | left => exact absurd hstage (honce c hc)
  | run thread =>
    rw [Guarder.step]
    by_cases hthread : s.status thread = .suspended
    · rw [if_pos hthread]
      exact ⟨line, h.resume hthread⟩
    · rw [if_neg hthread]
      exact ⟨line, h⟩
  | yield =>
    rw [Guarder.step]
    cases hrunning : s.running with
    | nil => exact ⟨line, h⟩
    | cons thread rest => exact ⟨line, h.yield hrunning⟩

/-- Nobody is disturbed inside, passed over or kept waiting. -/
theorem always_guarded (acts : List (Act ι τ))
    (h : Machine.Guarded step Once (State.new : State ι τ) acts) :
    Machine.Always step State.Right (State.new : State ι τ) acts :=
  (Machine.always_of_guarded (P := fun s => ∃ line, Inv s line)
    (fun _ act ⟨_, hinv⟩ honce => hinv.step act honce) ⟨_, inv_new⟩ h).mono
      fun _ ⟨_, hinv⟩ => hinv.right

/-- The main program calls the function that the first thread has got, for which the second one
waits with a function of its own. -/
def handingOver : List (Act ℕ ℕ) :=
  [.run 1, .guard (some 0) false, .yield, .run 2, .guard (some 0) true, .exit 0, .funcReturns,
    .yield]

theorem handingOver_once : Machine.Guarded step Once State.new handingOver := by
  refine ⟨trivial, trivial, trivial, trivial, trivial, ?_, trivial, trivial, trivial⟩
  intro c hc
  cases hc
  decide

theorem handingOver_right : Machine.Always step State.Right State.new handingOver :=
  always_guarded handingOver handingOver_once

example : (Machine.run step State.new (handingOver.take 6)).visits 1 =
    some (some 0, .inside) := by
  decide

end Prosody.Guarder
