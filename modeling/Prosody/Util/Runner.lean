import Prosody.Util.Async

/-! # What a runner makes of its inputs -/

namespace Prosody.Async

variable {ι : Type*}

/-! ## What is to hold -/

/-- The input that the function is given. -/
def Mark.input : Mark ι → Option (Option ι)
  | .started input => some input
  | .ended => none

/-- Whether the function has an input, unless it has got one before it was done with another. -/
def busy (log : List (Mark ι)) : Option Bool :=
  log.foldl (fun b m => b.bind fun busy =>
    match m with
    | .started _ => if busy then none else some true
    | .ended => if busy then some false else none) (some false)

def Runner.started (s : Runner ι) : List (Option ι) := s.log.filterMap Mark.input

/-- The inputs that the function has not been given. -/
def Runner.unprocessed (s : Runner ι) : List ι :=
  match s.calls with
  | .item _ i _ :: _ => s.queue.drop (i + 1)
  | _ => s.queue

/-- The inputs are processed once, in the order in which they were queued and one at a time. When
control is outside, the runner is ready and all that is queued has been enqueued only, or it waits
with one input and the others are queued. -/
structure Orderly (s : Runner ι) : Prop where
  once : s.started ++ s.unprocessed.map some = s.accepted.map some
  single : (busy s.log).isSome
  outside : s.calls = [] →
    s.mode = .ready ∧ s.queue = s.enqueued ∧ busy s.log = some false ∨
      s.mode = .waiting ∧ busy s.log = some true

/-- The main loop takes an error for none while other inputs are queued behind the one that raised
it. -/
def Loses (lua51 : Bool) (s : Runner ι) (e : Event ι) : Prop :=
  ∃ err t i n calls, e = .raise err ∧ caught lua51 err = false ∧ s.calls = .item t i n :: calls ∧
    i + 1 < s.queue.length

/-! ## The history -/

theorem busy_started {log : List (Mark ι)} (h : busy log = some false) (input : Option ι) :
    busy (log ++ [Mark.started input]) = some true := by
  unfold busy at h ⊢
  rw [List.foldl_append, h]
  rfl

theorem busy_ended {log : List (Mark ι)} (h : busy log = some true) :
    busy (log ++ [Mark.ended]) = some false := by
  unfold busy at h ⊢
  rw [List.foldl_append, h]
  rfl

theorem started_mark (s : Runner ι) (input : Option ι) :
    (s.mark (.started input)).started = s.started ++ [input] :=
  List.filterMap_append

theorem started_ended (s : Runner ι) : (s.mark .ended).started = s.started := by
  unfold Runner.started Runner.mark
  rw [List.filterMap_append]
  exact List.append_nil _

/-! ## The queue -/

theorem filterMap_range {l : List ι} {m : ℕ} (h : l.length ≤ m) :
    ((List.range m).filterMap fun i => l[i]?) = l := by
  induction l generalizing m with
  | nil => simp
  | cons a l ih =>
    obtain ⟨m, rfl⟩ : ∃ k, m = k + 1 := ⟨m - 1, by simp at h; omega⟩
    rw [List.range_succ_eq_map, List.filterMap_cons, List.filterMap_map]
    simp only [List.getElem?_cons_zero]
    congr 1
    exact ih (by simpa using h)

/-- Compacting the queue drops what has been consumed, even if the queue has grown. -/
theorem compact_eq {q : List ι} {n consumed : ℕ} (hn : n ≤ q.length) :
    Runner.compact q n consumed = q.drop consumed := by
  have hlength : (if q[n]?.isSome then q.length else n) = q.length := by
    split_ifs with h
    · rfl
    · have : ¬ n < q.length := fun hlt => h (by simp [hlt])
      omega
  have hdrop : (fun i => q[consumed + i]?) = fun i => (q.drop consumed)[i]? := by
    funext i
    rw [List.getElem?_drop]
  unfold Runner.compact
  simp only [hlength, hdrop]
  rw [List.drop_length, List.append_nil]
  exact filterMap_range (by simp)

/-! ## What holds between steps -/

/-- The calls of which only the end is left. -/
def Returning (calls : List Frame) : Prop := ∀ f ∈ calls, ∃ n watched, f = .leaving n watched

theorem Returning.head {f : Frame} {calls rest : List Frame} (h : Returning calls)
    (hcalls : calls = f :: rest) : ∃ n watched, f = .leaving n watched :=
  h f (hcalls ▸ List.mem_cons_self)

/-- A waiter that the function has begun to wait for. -/
def Waiter.Pending (W : Waiter) : Prop := W.waiting = true ∧ 0 < W.num

/-- Coroutines other than the runner's are dead, and one that is not has at most one waiter that
can resume it, which it has if it waits. -/
structure Threads (s : Runner ι) : Prop where
  others : ∀ t, s.thread ≠ some t → s.status t = .dead
  fresh : ∀ t, s.thread = some t → t < s.created
  created : ∀ W ∈ s.waiters, W.thread < s.created
  waits : ∀ W ∈ s.waiters, W.Pending → s.status W.thread = .asleep ∨ s.status W.thread = .dead
  alone : ∀ (w w' : ℕ) (W W' : Waiter), s.waiters[w]? = some W → s.waiters[w']? = some W' →
    W.Pending → W'.Pending → W.thread = W'.thread → s.status W.thread = .asleep → w = w'

inductive Resting (s : Runner ι) : Prop
  | ready (hmode : s.mode = .ready) (hbusy : busy s.log = some false)
      (hidle : ∀ t, s.thread = some t → s.status t = .idle)
      (hqueue : s.queue = s.enqueued ∨ ∃ n watched, Frame.leaving n watched ∈ s.calls ∧ 0 < n)
  | waiting (hmode : s.mode = .waiting) (hbusy : busy s.log = some true)
      (t : ℕ) (hthread : s.thread = some t) (hasleep : s.status t = .asleep)

/-- Who is in control, and what the runner is like then. -/
inductive Phase (s : Runner ι) : Prop
  | item (t i n : ℕ) (calls : List Frame) (hcalls : s.calls = .item t i n :: calls)
      (hret : Returning calls) (hmode : s.mode = .running) (hthread : s.thread = some t)
      (hstatus : s.status t = .running) (hbusy : busy s.log = some true) (hi : i < n)
      (hn : n ≤ s.queue.length) (henqueued : s.enqueued = [])
  | resumed (t : ℕ) (calls : List Frame) (hcalls : s.calls = .resumed t :: calls)
      (hret : Returning calls) (hmode : s.mode = .waiting) (hthread : s.thread = some t)
      (hstatus : s.status t = .running) (hbusy : busy s.log = some true)
  | failed (t : ℕ) (calls : List Frame) (hcalls : s.calls = .failed t :: calls)
      (hret : Returning calls) (hmode : s.mode = .waiting) (hstatus : s.status t = .dead)
      (hthread : s.thread = some t) (hbusy : busy s.log = some false)
  | resting (hret : Returning s.calls) (hrest : Resting s)

structure Inv (s : Runner ι) : Prop where
  once : s.started ++ s.unprocessed.map some = s.accepted.map some
  threads : Threads s
  phase : Phase s

variable {s : Runner ι}

theorem Returning.unprocessed (h : Returning s.calls) : s.unprocessed = s.queue := by
  unfold Runner.unprocessed
  split
  · rename_i t i n calls hcalls
    obtain ⟨m, watched, heq⟩ := h.head hcalls
    cases heq
  · rfl

theorem unprocessed_item {t i n : ℕ} {calls : List Frame}
    (h : s.calls = .item t i n :: calls) : s.unprocessed = s.queue.drop (i + 1) := by
  unfold Runner.unprocessed
  rw [h]

theorem unprocessed_resumed {s : Runner ι} {t : ℕ} {calls : List Frame}
    (h : s.calls = .resumed t :: calls) : s.unprocessed = s.queue := by
  unfold Runner.unprocessed
  rw [h]

theorem unprocessed_failed {s : Runner ι} {t : ℕ} {calls : List Frame}
    (h : s.calls = .failed t :: calls) : s.unprocessed = s.queue := by
  unfold Runner.unprocessed
  rw [h]

theorem Inv.orderly (h : Inv s) : Orderly s where
  once := h.once
  single := by
    cases h.phase with
    | item _ _ _ _ _ _ _ _ _ hbusy => simp [hbusy]
    | resumed _ _ _ _ _ _ _ hbusy => simp [hbusy]
    | failed _ _ _ _ _ _ _ hbusy => simp [hbusy]
    | resting _ hrest =>
      cases hrest with
      | ready _ hbusy => simp [hbusy]
      | waiting _ hbusy => simp [hbusy]
  outside := by
    intro hnil
    cases h.phase with
    | item _ _ _ _ hcalls =>
      rw [hnil] at hcalls
      cases hcalls
    | resumed _ _ hcalls =>
      rw [hnil] at hcalls
      cases hcalls
    | failed _ _ hcalls =>
      rw [hnil] at hcalls
      cases hcalls
    | resting _ hrest =>
      cases hrest with
      | waiting hmode hbusy => exact .inr ⟨hmode, hbusy⟩
      | ready hmode hbusy _ hqueue =>
        refine .inl ⟨hmode, hqueue.resolve_right ?_, hbusy⟩
        rintro ⟨n, watched, hmem, -⟩
        rw [hnil] at hmem
        cases hmem

/-! ## The main loop -/

section Loop

variable {s : Runner ι} {t i n : ℕ}

theorem setStatus_self (s : Runner ι) (t : ℕ) (status : Status) :
    (s.setStatus t status).status t = status :=
  Function.update_self ..

theorem setStatus_of_ne {t' : ℕ} (h : t' ≠ t) (status : Status) :
    (s.setStatus t status).status t' = s.status t' :=
  Function.update_of_ne h ..

theorem Threads.setStatus (h : Threads s) (ht : s.thread = some t) (status : Status)
    (hpending : ∀ W ∈ s.waiters, W.Pending → W.thread ≠ t) : Threads (s.setStatus t status) where
  others t' ht' := by
    have hne : t' ≠ t := fun heq => ht' (heq ▸ ht)
    rw [setStatus_of_ne hne]
    exact h.others t' ht'
  fresh := h.fresh
  created := h.created
  waits W hW hp := by
    rw [setStatus_of_ne (hpending W hW hp)]
    exact h.waits W hW hp
  alone w w' W W' hW hW' hp hp' hsame hasleep := by
    rw [setStatus_of_ne (hpending W (List.mem_of_getElem? hW) hp)] at hasleep
    exact h.alone w w' W W' hW hW' hp hp' hsame hasleep

theorem Threads.congr {s' : Runner ι} (h : Threads s) (hthread : s'.thread = s.thread)
    (hcreated : s'.created = s.created) (hstatus : s'.status = s.status)
    (hwaiters : s'.waiters = s.waiters) : Threads s' where
  others := by
    rw [hthread, hstatus]
    exact h.others
  fresh := by
    rw [hthread, hcreated]
    exact h.fresh
  created := by
    rw [hwaiters, hcreated]
    exact h.created
  waits := by
    rw [hwaiters, hstatus]
    exact h.waits
  alone := by
    rw [hwaiters, hstatus]
    exact h.alone

/-- A coroutine that is idle or runs has no waiter that can resume it. -/
theorem Threads.no_pending (h : Threads s) (ht : s.status t = .idle ∨ s.status t = .running) :
    ∀ W ∈ s.waiters, W.Pending → W.thread ≠ t := by
  rintro W hW hp rfl
  rcases h.waits W hW hp with hs | hs <;> rcases ht with ht | ht <;> rw [ht] at hs <;> cases hs

theorem inv_leave_ready {err : Bool} (hret : Returning s.calls) (hthreads : Threads s)
    (hidle : ∀ t, s.thread = some t → s.status t = .idle) (hbusy : busy s.log = some false)
    (henqueued : s.enqueued = []) (hn : n = s.queue.length)
    (honce : s.started ++ s.queue.map some = s.accepted.map some) :
    Inv (s.leave .ready err n) := by
  have hret' : Returning (s.leave .ready err n).calls := by
    intro f hf
    rcases List.mem_cons.mp hf with rfl | hf
    · exact ⟨n, _, rfl⟩
    · exact hret f hf
  refine ⟨?_, hthreads.congr rfl rfl rfl rfl, .resting hret' (.ready rfl hbusy hidle ?_)⟩
  · rw [hret'.unprocessed]
    exact honce
  · rcases Nat.eq_zero_or_pos n with hzero | hpos
    · have hqueue : s.queue = [] := List.length_eq_zero_iff.mp (by omega)
      exact .inl (hqueue.trans henqueued.symm)
    · exact .inr ⟨n, _, List.mem_cons_self, hpos⟩

theorem inv_leave_waiting (hret : Returning s.calls) (hthreads : Threads s)
    (hthread : s.thread = some t) (hasleep : s.status t = .asleep) (hbusy : busy s.log = some true)
    (honce : s.started ++ s.queue.map some = s.accepted.map some) :
    Inv (s.leave .waiting false n) := by
  have hret' : Returning (s.leave .waiting false n).calls := by
    intro f hf
    rcases List.mem_cons.mp hf with rfl | hf
    · exact ⟨n, _, rfl⟩
    · exact hret f hf
  refine ⟨?_, hthreads.congr rfl rfl rfl rfl, .resting hret' (.waiting rfl hbusy t hthread hasleep)⟩
  rw [hret'.unprocessed]
  exact honce

structure Looping (s : Runner ι) (t i n : ℕ) : Prop where
  returning : Returning s.calls
  threads : Threads s
  mode : s.mode = .running
  thread : s.thread = some t
  idle : s.status t = .idle
  notBusy : busy s.log = some false
  enqueued : s.enqueued = []
  batch : n ≤ s.queue.length
  once : s.started ++ (s.queue.drop i).map some = s.accepted.map some

theorem Looping.begin (h : Looping s t i n) (hi : i < n) : Inv (s.begin t i n) := by
  have hlength : i < s.queue.length := Nat.lt_of_lt_of_le hi h.batch
  refine ⟨?_, ?_, .item t i n s.calls rfl h.returning h.mode h.thread ?_ ?_ hi h.batch h.enqueued⟩
  · have hstarted : (s.begin t i n).started = s.started ++ [s.queue[i]?] :=
      started_mark (s.setStatus t .running) _
    rw [unprocessed_item (t := t) (i := i) (n := n) rfl, hstarted, List.getElem?_eq_getElem hlength,
      List.append_assoc]
    change _ ++ List.map some (s.queue[i] :: s.queue.drop (i + 1)) = _
    rw [← List.drop_eq_getElem_cons hlength]
    exact h.once
  · exact (h.threads.setStatus h.thread .running
      (h.threads.no_pending (.inl h.idle))).congr rfl rfl rfl rfl
  · exact Function.update_self ..
  · exact busy_started h.notBusy _

theorem Looping.loop (h : Looping s t 0 n) (hn : n = s.queue.length) : Inv (s.loop t n) := by
  unfold Runner.loop
  split_ifs with hzero hdead
  · refine inv_leave_ready h.returning h.threads ?_ h.notBusy h.enqueued (hzero ▸ hn) h.once
    intro t' ht'
    rw [h.thread] at ht'
    exact Option.some.inj ht' ▸ h.idle
  · rw [h.idle] at hdead
    cases hdead
  · exact h.begin (Nat.pos_of_ne_zero hzero)

/-- What `run` begins with. -/
structure Ready (s : Runner ι) : Prop where
  returning : Returning s.calls
  threads : Threads s
  idle : ∀ t, s.thread = some t → s.status t = .idle
  notBusy : busy s.log = some false
  once : s.started ++ s.queue.map some = s.accepted.map some

theorem createThread_of_ne (h : t ≠ s.created) : s.createThread.1.status t = s.status t :=
  Function.update_of_ne h ..

theorem Threads.createThread (h : Threads s) (hnone : s.thread = none) :
    Threads s.createThread.1 := by
  have hdead : ∀ t, s.status t = .dead := fun t => h.others t (by rw [hnone]; simp)
  have hne : ∀ W ∈ s.waiters, W.thread ≠ s.created := fun W hW => (h.created W hW).ne
  refine ⟨?_, ?_, ?_, ?_, ?_⟩
  · intro t ht
    have hne : t ≠ s.created := fun heq => ht (heq ▸ rfl)
    rw [createThread_of_ne hne, hdead]
  · intro t ht
    obtain rfl : s.created = t := Option.some.inj ht
    exact Nat.lt_succ_self _
  · exact fun W hW => (h.created W hW).trans (Nat.lt_succ_self _)
  · intro W hW _
    rw [createThread_of_ne (hne W hW)]
    exact .inr (hdead _)
  · intro w w' W W' hW _ _ _ _ hasleep
    rw [createThread_of_ne (hne W (List.mem_of_getElem? hW)), hdead] at hasleep
    cases hasleep

theorem Ready.looping (h : Ready s) :
    Looping { s.ensureThread.1 with mode := .running, enqueued := [] } s.ensureThread.2 0
      s.queue.length := by
  unfold Runner.ensureThread
  cases ht : s.thread with
  | none =>
    have hthreads := h.threads.createThread ht
    refine ⟨h.returning, hthreads.congr rfl rfl rfl rfl, rfl, rfl, ?_, h.notBusy, rfl,
      Nat.le_refl _, h.once⟩
    exact Function.update_self ..
  | some t =>
    have hidle := h.idle t ht
    simp only
    rw [if_neg (by rw [hidle]; decide)]
    exact ⟨h.returning, h.threads.congr rfl rfl rfl rfl, rfl, ht, hidle, h.notBusy, rfl,
      Nat.le_refl _, h.once⟩

theorem ensureThread_queue (s : Runner ι) : s.ensureThread.1.queue = s.queue := by
  unfold Runner.ensureThread
  cases s.thread with
  | none => rfl
  | some t =>
    simp only
    split_ifs <;> rfl

theorem Ready.run (h : Ready s) (hmode : s.mode = .ready) : Inv s.run := by
  rw [Runner.run, if_pos hmode]
  exact h.looping.loop (congrArg List.length (ensureThread_queue s)).symm

theorem run_of_ne (h : s.mode ≠ .ready) : s.run = s := if_neg h

theorem Inv.resting (h : Inv s) (hmode : s.mode = .ready) : Returning s.calls ∧ Resting s := by
  cases h.phase with
  | item _ _ _ _ _ _ hmode' =>
    rw [hmode] at hmode'
    cases hmode'
  | resumed _ _ _ _ hmode' =>
    rw [hmode] at hmode'
    cases hmode'
  | failed _ _ _ _ hmode' =>
    rw [hmode] at hmode'
    cases hmode'
  | resting hret hrest => exact ⟨hret, hrest⟩

theorem Inv.ready (h : Inv s) (hmode : s.mode = .ready) : Ready s := by
  obtain ⟨hret, hrest⟩ := h.resting hmode
  cases hrest with
  | ready _ hbusy hidle =>
    have honce := h.once
    rw [hret.unprocessed] at honce
    exact ⟨hret, h.threads, hidle, hbusy, honce⟩
  | waiting hmode' =>
    rw [hmode] at hmode'
    cases hmode'

theorem Inv.run (h : Inv s) : Inv s.run := by
  by_cases hmode : s.mode = .ready
  · exact (h.ready hmode).run hmode
  · rw [run_of_ne hmode]
    exact h

/-! ## What code does -/

theorem append_map_some {l : List (Option ι)} {q accepted : List ι}
    (h : l ++ q.map some = accepted.map some) (input : ι) :
    l ++ (q ++ [input]).map some = (accepted ++ [input]).map some := by
  rw [List.map_append, List.map_append, ← List.append_assoc, h]

theorem Ready.accept (h : Ready s) (input : ι) : Ready (s.accept input) where
  returning := h.returning
  threads := h.threads.congr rfl rfl rfl rfl
  idle := h.idle
  notBusy := h.notBusy
  once := append_map_some h.once input

theorem Inv.accept (h : Inv s) (hmode : s.mode ≠ .ready) (input : ι) : Inv (s.accept input) := by
  have hthreads : Threads (s.accept input) := h.threads.congr rfl rfl rfl rfl
  cases h.phase with
  | item t i n calls hcalls hret hmode' hthread hstatus hbusy hi hn henq =>
    have hlength : n ≤ (s.queue ++ [input]).length := by
      rw [List.length_append]
      omega
    refine ⟨?_, hthreads,
      .item t i n calls hcalls hret hmode' hthread hstatus hbusy hi hlength henq⟩
    have honce := h.once
    rw [unprocessed_item hcalls] at honce
    rw [unprocessed_item (s := s.accept input) hcalls]
    change _ ++ ((s.queue ++ [input]).drop (i + 1)).map some = _
    rw [List.drop_append_of_le_length (by omega)]
    exact append_map_some honce input
  | resumed t calls hcalls hret hmode' hthread hstatus hbusy =>
    refine ⟨?_, hthreads, .resumed t calls hcalls hret hmode' hthread hstatus hbusy⟩
    have honce := h.once
    rw [unprocessed_resumed hcalls] at honce
    rw [unprocessed_resumed (s := s.accept input) hcalls]
    exact append_map_some honce input
  | failed t calls hcalls hret hmode' hstatus hthread hbusy =>
    refine ⟨?_, hthreads, .failed t calls hcalls hret hmode' hstatus hthread hbusy⟩
    have honce := h.once
    rw [unprocessed_failed hcalls] at honce
    rw [unprocessed_failed (s := s.accept input) hcalls]
    exact append_map_some honce input
  | resting hret hrest =>
    cases hrest with
    | ready hmode' => exact absurd hmode' hmode
    | waiting hmode' hbusy t hthread hasleep =>
      refine ⟨?_, hthreads, .resting hret (.waiting hmode' hbusy t hthread hasleep)⟩
      have honce := h.once
      rw [hret.unprocessed] at honce
      rw [Returning.unprocessed (s := s.accept input) hret]
      exact append_map_some honce input

theorem Inv.enqueue (h : Inv s) (input : ι) : Inv (s.enqueue input) := by
  by_cases hmode : s.mode = .ready
  · have hready := (h.ready hmode).accept input
    have hthreads : Threads (s.enqueue input) := hready.threads.congr rfl rfl rfl rfl
    have hret : Returning (s.enqueue input).calls := hready.returning
    refine ⟨?_, hthreads, .resting hret (.ready hmode hready.notBusy hready.idle ?_)⟩
    · rw [hret.unprocessed]
      exact hready.once
    · obtain ⟨-, hrest⟩ := h.resting hmode
      cases hrest with
      | waiting hmode' =>
        rw [hmode] at hmode'
        cases hmode'
      | ready _ _ _ hqueue =>
        refine hqueue.imp (fun heq => ?_) id
        change s.queue ++ [input] = if s.mode = .ready then s.enqueued ++ [input] else _
        rw [if_pos hmode, heq]
  · have hsame : s.enqueue input = s.accept input := by
      unfold Runner.enqueue
      rw [if_neg hmode]
      rfl
    rw [hsame]
    exact h.accept hmode input

/-! ## Waiters -/

theorem Returning.inFunction (h : Returning s.calls) : s.inFunction = none := by
  unfold Runner.inFunction
  split
  · rename_i t i n calls hcalls
    obtain ⟨_, _, heq⟩ := h.head hcalls
    cases heq
  · rename_i t calls hcalls
    obtain ⟨_, _, heq⟩ := h.head hcalls
    cases heq
  · rfl

theorem Inv.inFunction (h : Inv s) (ht : s.inFunction = some t) :
    s.thread = some t ∧ s.status t = .running := by
  cases h.phase with
  | item t' _ _ _ hcalls _ _ hthread hstatus =>
    rw [Runner.inFunction, hcalls] at ht
    obtain rfl := Option.some.inj ht
    exact ⟨hthread, hstatus⟩
  | resumed t' _ hcalls _ _ hthread hstatus =>
    rw [Runner.inFunction, hcalls] at ht
    obtain rfl := Option.some.inj ht
    exact ⟨hthread, hstatus⟩
  | failed t' _ hcalls =>
    rw [Runner.inFunction, hcalls] at ht
    cases ht
  | resting hret =>
    rw [hret.inFunction] at ht
    cases ht

theorem Inv.withWaiters (h : Inv s) {waiters : List Waiter}
    (hthreads : Threads { s with waiters := waiters }) : Inv { s with waiters := waiters } := by
  refine ⟨h.once, hthreads, ?_⟩
  cases h.phase with
  | item t i n calls hcalls hret hmode hthread hstatus hbusy hi hn henq =>
    exact .item t i n calls hcalls hret hmode hthread hstatus hbusy hi hn henq
  | resumed t calls hcalls hret hmode hthread hstatus hbusy =>
    exact .resumed t calls hcalls hret hmode hthread hstatus hbusy
  | failed t calls hcalls hret hmode hstatus hthread hbusy =>
    exact .failed t calls hcalls hret hmode hstatus hthread hbusy
  | resting hret hrest =>
    cases hrest with
    | ready hmode hbusy hidle hqueue => exact .resting hret (.ready hmode hbusy hidle hqueue)
    | waiting hmode hbusy t hthread hasleep =>
      exact .resting hret (.waiting hmode hbusy t hthread hasleep)

variable {W : Waiter}

theorem Threads.addWaiter (h : Threads s) (hthread : W.thread < s.created)
    (hnew : ¬ W.Pending) : Threads { s with waiters := s.waiters ++ [W] } := by
  have hold : ∀ {w : ℕ} {W' : Waiter}, (s.waiters ++ [W])[w]? = some W' → W'.Pending →
      s.waiters[w]? = some W' := by
    intro w W' hW' hp
    by_cases hw : w < s.waiters.length
    · rwa [List.getElem?_append_left hw] at hW'
    · rw [List.getElem?_append_right (by omega), List.getElem?_singleton] at hW'
      split_ifs at hW'
      rw [← Option.some.inj hW'] at hp
      exact absurd hp hnew
  refine ⟨h.others, h.fresh, ?_, ?_, ?_⟩
  · intro W' hW'
    rcases List.mem_append.mp hW' with hW' | hW'
    · exact h.created W' hW'
    · rw [List.mem_singleton.mp hW']
      exact hthread
  · intro W' hW' hp
    obtain ⟨w, hw⟩ := List.mem_iff_getElem?.mp hW'
    exact h.waits W' (List.mem_of_getElem? (hold hw hp)) hp
  · intro w w' W₁ W₂ hW₁ hW₂ hp₁ hp₂
    exact h.alone w w' W₁ W₂ (hold hW₁ hp₁) (hold hW₂ hp₂) hp₁ hp₂

theorem getElem?_set_cases {l : List Waiter} {w w' : ℕ} {W' : Waiter}
    (h : (l.set w W)[w']? = some W') : w' = w ∧ W' = W ∨ w' ≠ w ∧ l[w']? = some W' := by
  by_cases hw : w' = w
  · subst hw
    rw [List.getElem?_set_self'] at h
    cases hl : l[w']? with
    | none =>
      rw [hl] at h
      cases h
    | some W₀ =>
      rw [hl] at h
      exact .inl ⟨rfl, (Option.some.inj h).symm⟩
  · rw [List.getElem?_set_ne (Ne.symm hw)] at h
    exact .inr ⟨hw, h⟩

theorem Threads.complete (h : Threads s) {w : ℕ} (hW : s.waiters[w]? = some W) :
    Threads { s with waiters := s.waiters.set w { W with num := W.num - 1 } } := by
  have hold : ∀ {w' : ℕ} {W' : Waiter},
      (s.waiters.set w { W with num := W.num - 1 })[w']? = some W' →
        ∃ W₀, s.waiters[w']? = some W₀ ∧ W₀.thread = W'.thread ∧ (W'.Pending → W₀.Pending) := by
    intro w' W' hW'
    rcases getElem?_set_cases hW' with ⟨rfl, rfl⟩ | ⟨-, hsame⟩
    · refine ⟨W, hW, rfl, fun hp => ⟨hp.1, ?_⟩⟩
      have : 0 < W.num - 1 := hp.2
      omega
    · exact ⟨W', hsame, rfl, id⟩
  refine ⟨h.others, h.fresh, ?_, ?_, ?_⟩
  · intro W' hW'
    obtain ⟨w', hw'⟩ := List.mem_iff_getElem?.mp hW'
    obtain ⟨W₀, hW₀, hthread, -⟩ := hold hw'
    exact hthread ▸ h.created W₀ (List.mem_of_getElem? hW₀)
  · intro W' hW' hp
    obtain ⟨w', hw'⟩ := List.mem_iff_getElem?.mp hW'
    obtain ⟨W₀, hW₀, hthread, hpending⟩ := hold hw'
    exact hthread ▸ h.waits W₀ (List.mem_of_getElem? hW₀) (hpending hp)
  · intro w₁ w₂ W₁ W₂ hW₁ hW₂ hp₁ hp₂ hsame hasleep
    obtain ⟨V₁, hV₁, hthread₁, hpending₁⟩ := hold hW₁
    obtain ⟨V₂, hV₂, hthread₂, hpending₂⟩ := hold hW₂
    exact h.alone w₁ w₂ V₁ V₂ hV₁ hV₂ (hpending₁ hp₁) (hpending₂ hp₂)
      (hthread₁.trans (hsame.trans hthread₂.symm)) (by rw [hthread₁]; exact hasleep)

theorem Threads.wait (h : Threads s) (ht : s.thread = some t) (hrunning : s.status t = .running)
    {w : ℕ} {W : Waiter} (hW : s.waiters[w]? = some W) :
    Threads ({ s with waiters := s.waiters.set w { W with waiting := true } }.setStatus t
      .asleep) := by
  have hother : ∀ t', t' ≠ t → s.status t' = .dead := fun t' hne =>
    h.others t' fun heq => hne (Option.some.inj (ht.symm.trans heq)).symm
  have hnone := h.no_pending (.inr hrunning)
  refine ⟨?_, h.fresh, ?_, ?_, ?_⟩
  · intro t' ht'
    have hne : t' ≠ t := fun heq => ht' (heq ▸ ht)
    rw [setStatus_of_ne hne]
    exact hother t' hne
  · intro W' hW'
    obtain ⟨w', hw'⟩ := List.mem_iff_getElem?.mp hW'
    rcases getElem?_set_cases hw' with ⟨-, rfl⟩ | ⟨-, hsame⟩
    · exact h.created W (List.mem_of_getElem? hW)
    · exact h.created W' (List.mem_of_getElem? hsame)
  · intro W' _ _
    by_cases hthread : W'.thread = t
    · rw [hthread, setStatus_self]
      exact .inl rfl
    · rw [setStatus_of_ne hthread]
      exact .inr (hother _ hthread)
  · intro w₁ w₂ W₁ W₂ hW₁ hW₂ hp₁ hp₂ hsame hasleep
    have hthread : W₁.thread = t := by
      by_contra hne
      rw [setStatus_of_ne hne, show s.status W₁.thread = .dead from hother _ hne] at hasleep
      cases hasleep
    have hindex : ∀ {w' : ℕ} {W' : Waiter},
        (s.waiters.set w { W with waiting := true })[w']? = some W' → W'.Pending →
          W'.thread = t → w' = w := by
      intro w' W' hW' hp hthread
      rcases getElem?_set_cases hW' with ⟨rfl, -⟩ | ⟨-, hold⟩
      · rfl
      · exact absurd hthread (hnone W' (List.mem_of_getElem? hold) hp)
    rw [hindex hW₁ hp₁ hthread, hindex hW₂ hp₂ (hsame ▸ hthread)]

theorem Inv.wait (h : Inv s) {w : ℕ} {W : Waiter} (hW : s.waiters[w]? = some W) :
    Inv { s with waiters := s.waiters.set w { W with waiting := true } }.suspend ∨
      s.inFunction = none := by
  cases h.phase with
  | item t i n calls hcalls hret hmode hthread hstatus hbusy hi hn henq =>
    have hthreads := h.threads.wait hthread hstatus hW
    have honce := h.once
    rw [unprocessed_item hcalls, ← compact_eq (n := n) hn] at honce
    refine .inl ?_
    unfold Runner.suspend
    simp only [hcalls]
    exact inv_leave_waiting hret (hthreads.congr rfl rfl rfl rfl) hthread (setStatus_self ..)
      hbusy honce
  | resumed t calls hcalls hret hmode hthread hstatus hbusy =>
    have hthreads := h.threads.wait hthread hstatus hW
    have honce := h.once
    rw [unprocessed_resumed hcalls] at honce
    refine .inl ?_
    unfold Runner.suspend
    simp only [hcalls]
    refine ⟨?_, hthreads.congr rfl rfl rfl rfl,
      .resting hret (.waiting hmode hbusy t hthread (setStatus_self ..))⟩
    rw [Returning.unprocessed (by exact hret)]
    exact honce
  | failed t calls hcalls => exact .inr (by rw [Runner.inFunction, hcalls])
  | resting hret => exact .inr hret.inFunction

/-- When its waiter is completed the coroutine goes on, and only then. -/
theorem Inv.done (h : Inv s) {w : ℕ} (hW : s.waiters[w]? = some W)
    (hnum : W.num - 1 = 0) (hwaiting : W.waiting = true) :
    Inv ({ s with waiters := s.waiters.set w { W with num := W.num - 1 } }.runnerContinue
      W.thread) := by
  have hp : W.Pending := ⟨hwaiting, by omega⟩
  have hthreads := h.threads.complete hW
  have hkept := h.withWaiters hthreads
  rcases h.threads.waits W (List.mem_of_getElem? hW) hp with hasleep | hdead
  · -- the coroutine is the runner's, which waits
    have hthread : s.thread = some W.thread := by
      by_contra hne
      rw [h.threads.others _ hne] at hasleep
      cases hasleep
    have hnone : ∀ W' ∈ s.waiters.set w { W with num := W.num - 1 }, W'.Pending →
        W'.thread ≠ W.thread := by
      intro W' hW' hp' hsame
      obtain ⟨w', hw'⟩ := List.mem_iff_getElem?.mp hW'
      rcases getElem?_set_cases hw' with ⟨-, rfl⟩ | ⟨hne, hold⟩
      · have : 0 < W.num - 1 := hp'.2
        omega
      · exact hne (h.threads.alone w' w W' W hold hW hp' hp hsame (hsame ▸ hasleep))
    unfold Runner.runnerContinue
    simp only [hasleep]
    cases h.phase with
    | item t _ _ _ _ _ _ ht hstatus =>
      rw [hthread] at ht
      rw [← Option.some.inj ht, hasleep] at hstatus
      cases hstatus
    | resumed t _ _ _ _ ht hstatus =>
      rw [hthread] at ht
      rw [← Option.some.inj ht, hasleep] at hstatus
      cases hstatus
    | failed t _ _ _ _ hstatus ht =>
      rw [hthread] at ht
      rw [← Option.some.inj ht, hasleep] at hstatus
      cases hstatus
    | resting hret hrest =>
      cases hrest with
      | ready _ _ hidle =>
        rw [hidle _ hthread] at hasleep
        cases hasleep
      | waiting hmode hbusy t ht =>
        have honce := h.once
        rw [hret.unprocessed] at honce
        refine ⟨?_, ?_,
          .resumed W.thread s.calls rfl hret hmode hthread (setStatus_self ..) hbusy⟩
        · rw [@unprocessed_resumed _ _ W.thread s.calls rfl]
          exact honce
        · exact (hthreads.setStatus hthread .running hnone).congr rfl rfl rfl rfl
  · unfold Runner.runnerContinue
    simp only [hdead]
    exact hkept

/-! ## The end of an input, of a call and of a watcher -/

theorem Inv.finish_item (h : Inv s) {calls : List Frame} (hcalls : s.calls = .item t i n :: calls) :
    Inv s.finish := by
  cases h.phase with
  | item t' i' n' calls' hcalls' hret hmode hthread hstatus hbusy hi hn henq =>
    rw [hcalls] at hcalls'
    obtain ⟨hframe, rfl⟩ := List.cons.inj hcalls'
    cases hframe
    have honce := h.once
    rw [unprocessed_item hcalls] at honce
    have hthreads := h.threads.setStatus hthread .idle (h.threads.no_pending (.inr hstatus))
    have hlooping : Looping { (s.setStatus t .idle).mark .ended with calls := calls } t
        (i + 1) n := by
      refine ⟨hret, hthreads.congr rfl rfl rfl rfl, hmode, hthread, setStatus_self ..,
        busy_ended hbusy, henq, hn, ?_⟩
      exact (congrArg (· ++ _) (started_ended (s.setStatus t .idle))).trans honce
    unfold Runner.finish
    simp only [hcalls]
    split_ifs with hnext
    · exact hlooping.begin hnext
    · obtain rfl : n = i + 1 := by omega
      have hcompact : Runner.compact s.queue (i + 1) (i + 1) = s.queue.drop (i + 1) :=
        compact_eq hn
      refine Looping.loop ⟨hret, hthreads.congr rfl rfl rfl rfl, hmode, hthread,
        setStatus_self .., busy_ended hbusy, henq, Nat.le_refl _, ?_⟩ rfl
      rw [List.drop_zero]
      change _ ++ (Runner.compact s.queue (i + 1) (i + 1)).map some = _
      rw [hcompact]
      exact hlooping.once
  | resumed _ _ hcalls' =>
    rw [hcalls] at hcalls'
    cases hcalls'
  | failed _ _ hcalls' =>
    rw [hcalls] at hcalls'
    cases hcalls'
  | resting hret =>
    obtain ⟨_, _, heq⟩ := hret.head hcalls
    cases heq

theorem Inv.finish (h : Inv s) : Inv s.finish := by
  cases h.phase with
  | item t i n calls hcalls => exact h.finish_item hcalls
  | resumed t calls hcalls hret hmode hthread hstatus hbusy =>
    have honce := h.once
    rw [unprocessed_resumed hcalls] at honce
    have hthreads := h.threads.setStatus hthread .idle (h.threads.no_pending (.inr hstatus))
    unfold Runner.finish
    simp only [hcalls]
    refine Ready.run ⟨hret, hthreads.congr rfl rfl rfl rfl, ?_, busy_ended hbusy, ?_⟩ rfl
    · intro t' ht'
      rw [← Option.some.inj (hthread.symm.trans ht')]
      exact setStatus_self ..
    · exact (congrArg (· ++ _) (started_ended (s.setStatus t .idle))).trans honce
  | failed t calls hcalls hret hmode hstatus hthread hbusy =>
    have honce := h.once
    rw [unprocessed_failed hcalls] at honce
    have hdead : ∀ t', s.status t' = .dead := by
      intro t'
      by_cases heq : t' = t
      · rw [heq, hstatus]
      · exact h.threads.others t' fun h => heq (Option.some.inj (hthread.symm.trans h)).symm
    unfold Runner.finish
    simp only [hcalls]
    refine Ready.run ⟨hret, ⟨fun t' _ => hdead t', ?_, h.threads.created, h.threads.waits,
      h.threads.alone⟩, ?_, hbusy, honce⟩ rfl
    · intro t' ht'
      cases ht'
    · intro t' ht'
      cases ht'
  | resting hret hrest =>
    unfold Runner.finish
    split
    · rename_i t i n calls hcalls
      obtain ⟨_, _, heq⟩ := hret.head hcalls
      cases heq
    · rename_i t calls hcalls
      obtain ⟨_, _, heq⟩ := hret.head hcalls
      cases heq
    · rename_i n watched calls hcalls
      have honce := h.once
      rw [hret.unprocessed] at honce
      have hret' : Returning calls := by
        rw [hcalls] at hret
        exact fun f hf => hret f (List.mem_cons_of_mem _ hf)
      have hthreads : Threads { s with calls := calls } := h.threads.congr rfl rfl rfl rfl
      have honce' : Runner.started { s with calls := calls } ++
          (Runner.unprocessed { s with calls := calls }).map some = s.accepted.map some := by
        rw [Returning.unprocessed (by exact hret')]
        exact honce
      split_ifs with hn
      · cases hrest with
        | ready hmode hbusy hidle => exact Ready.run ⟨hret', hthreads, hidle, hbusy, honce⟩ hmode
        | waiting hmode hbusy t hthread hasleep =>
          rw [run_of_ne (by simp [hmode])]
          exact ⟨honce', hthreads, .resting hret' (.waiting hmode hbusy t hthread hasleep)⟩
      · refine ⟨honce', hthreads, .resting hret' ?_⟩
        cases hrest with
        | waiting hmode hbusy t hthread hasleep => exact .waiting hmode hbusy t hthread hasleep
        | ready hmode hbusy hidle hqueue =>
          refine .ready hmode hbusy hidle (hqueue.imp id ?_)
          rintro ⟨m, watched', hmem, hm⟩
          rw [hcalls] at hmem
          rcases List.mem_cons.mp hmem with heq | hmem
          · cases heq
            exact absurd hm hn
          · exact ⟨m, watched', hmem, hm⟩
    · rename_i t calls hcalls
      obtain ⟨_, _, heq⟩ := hret.head hcalls
      cases heq
    · exact h

/-- An error loses nothing if it is taken for one, or nothing is queued behind its input. -/
theorem Inv.raise (h : Inv s) {caught : Bool}
    (hok : ∀ t i n calls, s.calls = .item t i n :: calls → caught = false →
      s.queue.length ≤ i + 1) : Inv (s.raise caught) := by
  cases h.phase with
  | item t i n calls hcalls hret hmode hthread hstatus hbusy hi hn henq =>
    have honce := h.once
    rw [unprocessed_item hcalls, ← compact_eq (n := n) hn] at honce
    have hdead : ∀ t', (s.setStatus t .dead).status t' = .dead := by
      intro t'
      by_cases heq : t' = t
      · rw [heq, setStatus_self]
      · rw [setStatus_of_ne heq]
        exact h.threads.others t' fun h => heq (Option.some.inj (hthread.symm.trans h)).symm
    have hthreads := h.threads.setStatus hthread .dead (h.threads.no_pending (.inr hstatus))
    have hended := (congrArg (· ++ _) (started_ended (s.setStatus t .dead))).trans honce
    have hleft : Inv ({ (s.setStatus t .dead).mark .ended with
        thread := none, queue := Runner.compact s.queue n (i + 1), calls := calls }.leave .ready
          caught (Runner.compact s.queue n (i + 1)).length) := by
      refine inv_leave_ready hret ⟨fun t' _ => hdead t', ?_, hthreads.created, hthreads.waits,
        hthreads.alone⟩ ?_ (busy_ended hbusy) henq rfl hended
      · intro t' ht'
        cases ht'
      · intro t' ht'
        cases ht'
    unfold Runner.raise
    simp only [hcalls]
    split_ifs with hcaught
    · rw [hcaught] at hleft
      exact hleft
    · have hlength : (Runner.compact s.queue n (i + 1)).length = 0 := by
        have := hok t i n calls hcalls (by simpa using hcaught)
        rw [compact_eq hn, List.length_drop]
        omega
      have hfalse : caught = false := by simpa using hcaught
      rw [Runner.loop, if_pos hlength]
      rw [hlength, hfalse] at hleft
      exact hleft
  | resumed t calls hcalls hret hmode hthread hstatus hbusy =>
    have honce := h.once
    rw [unprocessed_resumed hcalls] at honce
    have hthreads := h.threads.setStatus hthread .dead (h.threads.no_pending (.inr hstatus))
    unfold Runner.raise
    simp only [hcalls]
    rw [if_pos (show ((s.setStatus t .dead).mark .ended).thread = some t from hthread)]
    refine ⟨?_, hthreads.congr rfl rfl rfl rfl, .failed t calls rfl hret hmode (setStatus_self ..)
      hthread (busy_ended hbusy)⟩
    rw [@unprocessed_failed _ _ t calls rfl]
    exact (congrArg (· ++ _) (started_ended (s.setStatus t .dead))).trans honce
  | failed t calls hcalls =>
    unfold Runner.raise
    simp only [hcalls]
    exact h
  | resting hret =>
    unfold Runner.raise
    split
    · rename_i t i n calls hcalls
      obtain ⟨_, _, heq⟩ := hret.head hcalls
      cases heq
    · rename_i t calls hcalls
      obtain ⟨_, _, heq⟩ := hret.head hcalls
      cases heq
    · exact h

end Loop

/-! ## Runs -/

theorem Inv.step {lua51 : Bool} {s : Runner ι} (h : Inv s) {e : Event ι}
    (hok : ¬ Loses lua51 s e) : Inv (step lua51 s e) := by
  cases e with
  | run input =>
    simp only [Async.step]
    split_ifs with hactive
    · cases input with
      | none => exact h.run
      | some input =>
        by_cases hmode : s.mode = .ready
        · exact ((h.ready hmode).accept input).run hmode
        · change Inv (s.accept input).run
          rw [run_of_ne (s := s.accept input) hmode]
          exact h.accept hmode input
    · exact h
  | enqueue input =>
    simp only [Async.step]
    split_ifs with hactive
    · exact h.enqueue input
    · exact h
  | waiter num =>
    simp only [Async.step]
    cases ht : s.inFunction with
    | none => exact h
    | some t =>
      refine h.withWaiters (h.threads.addWaiter ?_ fun hp => ?_)
      · exact h.threads.fresh t (h.inFunction ht).1
      · cases hp.1
  | wait w =>
    simp only [Async.step]
    split_ifs with hfunction
    · cases hW : s.waiters[w]? with
      | none => exact h
      | some W =>
        simp only [Option.elim_some]
        split_ifs
        · exact h
        · refine (h.wait hW).resolve_right fun hnone => ?_
          rw [hnone] at hfunction
          cases hfunction
    · exact h
  | done w =>
    simp only [Async.step]
    split_ifs with hactive
    · cases hW : s.waiters[w]? with
      | none => exact h
      | some W =>
        simp only [Option.elim_some]
        split_ifs with hlast
        · exact h.done hW hlast.1 hlast.2
        · exact h.withWaiters (h.threads.complete hW)
    · exact h
  | finish => exact h.finish
  | raise err =>
    refine h.raise fun t i n calls hcalls hcaught => ?_
    by_contra hlength
    exact hok ⟨err, t, i, n, calls, rfl, hcaught, hcalls, by omega⟩

theorem inv_new : Inv (Runner.new : Runner ι) where
  once := rfl
  threads := by
    refine ⟨fun _ _ => rfl, ?_, ?_, ?_, ?_⟩
    · intro t ht
      cases ht
    · intro W hW
      cases hW
    · intro W hW
      cases hW
    · intro w w' W W' hW
      cases hW
  phase := by
    refine .resting ?_ (.ready rfl rfl ?_ (.inl rfl))
    · intro f hf
      cases hf
    · intro t ht
      cases ht

/-- After an error that is taken for none, the next input is dropped. -/
theorem not_orderly_of_loses {lua51 : Bool} (h : Inv s) {e : Event ι}
    (hloses : Loses lua51 s e) : ¬ Orderly (step lua51 s e) := by
  obtain ⟨err, t, i, n, calls, rfl, hcaught, hcalls, hlt⟩ := hloses
  cases h.phase with
  | item t' i' n' calls' hcalls' hret hmode hthread hstatus hbusy hi hn henq =>
    rw [hcalls] at hcalls'
    obtain ⟨hframe, rfl⟩ := List.cons.inj hcalls'
    cases hframe
    have hq : Runner.compact s.queue n (i + 1) = s.queue.drop (i + 1) := compact_eq hn
    have hq' : Runner.compact (s.queue.drop (i + 1)) (s.queue.drop (i + 1)).length 1 =
        s.queue.drop (i + 2) := by
      rw [compact_eq (Nat.le_refl _), List.drop_drop]
    let ended := { (s.setStatus t .dead).mark .ended with
      thread := none, queue := s.queue.drop (i + 1), calls := calls }
    have hstep : step lua51 s (.raise err) =
        { ended with thread := none, queue := s.queue.drop (i + 2) }.leave .ready true
          (s.queue.drop (i + 2)).length := by
      have hdead : ended.status t = .dead := setStatus_self s t .dead
      have hpos : (s.queue.drop (i + 1)).length ≠ 0 := by
        rw [List.length_drop]
        omega
      simp only [Async.step, Runner.raise, hcalls, hcaught, hq]
      rw [if_neg (by decide)]
      change ended.loop t _ = _
      rw [Runner.loop, if_neg hpos, if_pos hdead]
      simp only [ended, hq']
    intro horderly
    have honce := horderly.once
    rw [hstep] at honce
    have hret' : Returning ({ ended with
        thread := none, queue := s.queue.drop (i + 2) }.leave .ready true
          (s.queue.drop (i + 2)).length).calls := by
      intro f hf
      rcases List.mem_cons.mp hf with rfl | hf
      · exact ⟨_, _, rfl⟩
      · exact hret f hf
    rw [hret'.unprocessed] at honce
    have hstarted := started_ended (s.setStatus t .dead)
    change ((s.setStatus t .dead).mark .ended).started ++ (s.queue.drop (i + 2)).map some =
      s.accepted.map some at honce
    rw [hstarted] at honce
    have hbefore := h.once
    rw [unprocessed_item hcalls] at hbefore
    have hlength := congrArg List.length (honce.trans hbefore.symm)
    change (s.started ++ _).length = _ at hlength
    simp only [List.length_append, List.length_map, List.length_drop] at hlength
    omega
  | resumed _ _ hcalls' =>
    rw [hcalls] at hcalls'
    cases hcalls'
  | failed _ _ hcalls' =>
    rw [hcalls] at hcalls'
    cases hcalls'
  | resting hret =>
    obtain ⟨_, _, heq⟩ := hret.head hcalls
    cases heq

/-- The inputs of a runner are processed in order and one at a time, and it is left ready or
waiting, throughout a run if and only if no error in it is taken for none while other inputs are
queued. -/
theorem processed_in_order (lua51 : Bool) (events : List (Event ι)) :
    Machine.Always (step lua51) Orderly Runner.new events ↔
      Machine.Guarded (step lua51) (fun s e => ¬ Loses lua51 s e) Runner.new events :=
  Machine.always_iff_guarded (P := Inv) (fun _ h => h.orderly) (fun _ _ h hok => h.step hok)
    (fun _ _ h horderly hloses => not_orderly_of_loses h hloses horderly) inv_new events

/-- An input raises false, and the one that is queued behind it is dropped. -/
def falseRaised : List (Event ℕ) :=
  [.enqueue 1, .enqueue 2, .run none, .raise .false, .finish]

theorem false_drops_input :
    (Machine.run (step false) Runner.new falseRaised).calls.length = 0 ∧
      (Machine.run (step false) Runner.new falseRaised).mode = .ready ∧
      (Machine.run (step false) Runner.new falseRaised).queue = [] ∧
      (Machine.run (step false) Runner.new falseRaised).accepted = [1, 2] ∧
      (Machine.run (step false) Runner.new falseRaised).started = [some 1] := by
  decide

end Prosody.Async
