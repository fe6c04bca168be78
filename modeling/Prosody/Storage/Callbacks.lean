import Mathlib.Data.Finset.Basic
import Mathlib.Data.Finset.Dedup
import Prosody.Library.Runs
import Prosody.Storage.Datamanager

/-! # Callbacks before storing (`util/datamanager.lua`) -/

namespace Prosody.Datamanager

variable {φ δ : Type*}

/-! ## The list of callbacks -/

/-- The values at the integers from 1 on, which may be missing, and the functions that are keys. -/
structure Callbacks (φ : Type*) where
  slots : List (Option φ)
  flags : Finset φ

namespace Callbacks

/-- What `ipairs` goes through. -/
def ipairs : List (Option φ) → List φ
  | some f :: slots => f :: ipairs slots
  | _ => []

/-- What `#` may give: there is a value at the number, unless it is 0, and none at the next one. -/
def IsBorder (slots : List (Option φ)) (n : ℕ) : Prop :=
  (n = 0 ∨ (slots[n - 1]?).join.isSome) ∧ (slots[n]?).join = none

/-- `callbacks[n + 1] = func` -/
def put (slots : List (Option φ)) (n : ℕ) (func : φ) : List (Option φ) :=
  if n < slots.length then slots.set n (some func) else slots ++ [some func]

variable [DecidableEq φ]

/-- `add_callback`, where `#callbacks` is `n`. -/
def addCallback (func : φ) (n : ℕ) (callbacks : Callbacks φ) : Bool × Callbacks φ :=
  if func ∈ callbacks.flags then (false, callbacks)
  else (true, ⟨put callbacks.slots n func, insert func callbacks.flags⟩)

def removeCallback (func : φ) (callbacks : Callbacks φ) : Bool × Callbacks φ :=
  if func ∈ callbacks.flags ∧ func ∈ ipairs callbacks.slots then
    (true, ⟨callbacks.slots.set ((ipairs callbacks.slots).idxOf func) none,
      callbacks.flags.erase func⟩)
  else (false, callbacks)

end Callbacks

/-! ## What is stored -/

/-- A user, nobody, or `false`, which means that nothing is stored. -/
inductive Username
  | user (name : Bytes)
  | global
  | off
  deriving DecidableEq

structure Args (δ : Type*) where
  username : Username
  host : Option Bytes
  datastore : Bytes
  data : δ

abbrev Applied (φ δ : Type*) := List (φ × Args δ)

/-- What callbacks return, which may depend on what has been applied before. -/
abbrev Behaviour (φ δ : Type*) := Applied φ δ → φ → Args δ → Args δ

/-- The loop of `callback`, with what has been applied so far. -/
def callbackLoop (act : Behaviour φ δ) : List φ → Applied φ δ → Args δ → Applied φ δ × Args δ
  | [], past, args => (past, args)
  | f :: fs, past, args =>
    let result := act past f args
    if result.username = .off then (past ++ [(f, args)], result)
    else callbackLoop act fs (past ++ [(f, args)]) result

def callback (act : Behaviour φ δ) (callbacks : Callbacks φ) (args : Args δ) :
    Applied φ δ × Args δ :=
  callbackLoop act (Callbacks.ipairs callbacks.slots) [] args

/-- Functions are applied one after the other, each to the results of the one before, until one
returns `false` for the user. -/
inductive Chain (act : Behaviour φ δ) : List φ → Applied φ δ → Args δ → Applied φ δ × Args δ → Prop
  | done (past : Applied φ δ) (args : Args δ) : Chain act [] past args (past, args)
  | off {past : Applied φ δ} {f : φ} {args : Args δ} (fs : List φ)
      (h : (act past f args).username = .off) :
      Chain act (f :: fs) past args (past ++ [(f, args)], act past f args)
  | next {past : Applied φ δ} {f : φ} {args : Args δ} {fs : List φ} {out : Applied φ δ × Args δ}
      (h : (act past f args).username ≠ .off)
      (hrest : Chain act fs (past ++ [(f, args)]) (act past f args) out) :
      Chain act (f :: fs) past args out

theorem chain_callbackLoop (act : Behaviour φ δ) (fs : List φ) (past : Applied φ δ)
    (args : Args δ) : Chain act fs past args (callbackLoop act fs past args) := by
  induction fs generalizing past args with
  | nil => exact .done past args
  | cons f fs ih =>
    rw [callbackLoop]
    split_ifs with hoff
    · exact .off fs hoff
    · exact .next hoff (ih _ _)

/-- Nothing returns `false` for the user. -/
theorem Chain.all {act : Behaviour φ δ} (hact : ∀ past f args, (act past f args).username ≠ .off)
    {fs : List φ} {past : Applied φ δ} {args : Args δ} {out : Applied φ δ × Args δ}
    (h : Chain act fs past args out) : out.1.map Prod.fst = past.map Prod.fst ++ fs := by
  induction h with
  | done past args => exact (List.append_nil _).symm
  | off fs h => exact absurd h (hact _ _ _)
  | next h hrest ih => simp [ih]

/-! ## Calls -/

/-- The module's table, and the registered callbacks in the order of their registration. -/
structure Registration (φ : Type*) where
  callbacks : Callbacks φ
  order : List φ

inductive CallbackCall (φ : Type*)
  | add (func : φ) (n : ℕ)
  | remove (func : φ)

namespace Registration

def new : Registration φ := ⟨⟨[], ∅⟩, []⟩

/-- The length of the list is a border. -/
def Measured (s : Registration φ) : CallbackCall φ → Prop
  | .add _ n => Callbacks.IsBorder s.callbacks.slots n
  | .remove _ => True

/-- The registered callbacks are applied to whatever is stored, in the order of their
registration. -/
def Right (δ : Type*) (s : Registration φ) : Prop :=
  ∀ (act : Behaviour φ δ) (args : Args δ),
    Chain act s.order [] args (callback act s.callbacks args)

/-- The list holds the registered callbacks without a gap. -/
structure Dense (s : Registration φ) : Prop where
  slots : ∃ k, s.callbacks.slots = s.order.map some ++ List.replicate k none
  flags : ∀ f, f ∈ s.callbacks.flags ↔ f ∈ s.order
  nodup : s.order.Nodup

theorem ipairs_map_some (fs : List φ) (slots : List (Option φ)) :
    Callbacks.ipairs (fs.map some ++ none :: slots) = fs := by
  induction fs with
  | nil => rfl
  | cons f fs ih => exact congrArg (f :: ·) ih

theorem ipairs_dense (fs : List φ) (k : ℕ) :
    Callbacks.ipairs (fs.map some ++ List.replicate k none) = fs := by
  cases k with
  | zero =>
    induction fs with
    | nil => rfl
    | cons f fs ih => exact congrArg (f :: ·) ih
  | succ k => exact ipairs_map_some fs (List.replicate k none)

theorem right_iff [Inhabited δ] (s : Registration φ) :
    Right δ s ↔ Callbacks.ipairs s.callbacks.slots = s.order := by
  constructor
  · intro h
    let args : Args δ := ⟨.global, none, [], default⟩
    let act : Behaviour φ δ := fun _ _ _ => args
    have hact : ∀ past f args', (act past f args').username ≠ .off := fun _ _ _ h => by cases h
    have horder := (h act args).all hact
    have hlist := (chain_callbackLoop act (Callbacks.ipairs s.callbacks.slots) [] args).all hact
    exact hlist.symm.trans horder
  · intro h act args
    rw [← h]
    exact chain_callbackLoop act _ [] args

theorem dense_new : Dense (new : Registration φ) :=
  ⟨⟨0, rfl⟩, fun _ => iff_of_false (Finset.notMem_empty _) List.not_mem_nil, List.nodup_nil⟩

theorem Dense.ipairs {s : Registration φ} (h : Dense s) :
    Callbacks.ipairs s.callbacks.slots = s.order := by
  obtain ⟨k, hk⟩ := h.slots
  rw [hk, ipairs_dense]

/-- A list without a gap has one border. -/
theorem border_eq {fs : List φ} {k n : ℕ}
    (h : Callbacks.IsBorder (fs.map some ++ List.replicate k none) n) : n = fs.length := by
  obtain ⟨hbefore, hafter⟩ := h
  rcases Nat.lt_trichotomy n fs.length with hlt | heq | hgt
  · rw [List.getElem?_append_left (by simpa using hlt), List.getElem?_map,
      List.getElem?_eq_getElem hlt] at hafter
    cases hafter
  · exact heq
  · have hsome := hbefore.resolve_left (by omega)
    rw [List.getElem?_append_right (by rw [List.length_map]; omega),
      List.getElem?_replicate] at hsome
    split_ifs at hsome
    · cases hsome
    · cases hsome

theorem put_dense (fs : List φ) (k : ℕ) (func : φ) :
    ∃ k', Callbacks.put (fs.map some ++ List.replicate k none) fs.length func =
      (fs ++ [func]).map some ++ List.replicate k' none := by
  unfold Callbacks.put
  cases k with
  | zero => exact ⟨0, by simp⟩
  | succ k =>
    refine ⟨k, ?_⟩
    rw [if_pos (by simp), List.set_append_right _ _ (by simp)]
    simp [List.replicate_succ]

variable [DecidableEq φ]

def step (s : Registration φ) : CallbackCall φ → Registration φ
  | .add func n =>
    ⟨(s.callbacks.addCallback func n).2, if func ∈ s.order then s.order else s.order ++ [func]⟩
  | .remove func => ⟨(s.callbacks.removeCallback func).2, s.order.erase func⟩

/-- Only the callback that was registered last is removed. -/
def LastRemoved (s : Registration φ) : CallbackCall φ → Prop
  | .add _ _ => True
  | .remove func => func ∈ s.order → s.order.getLast? = some func

theorem Dense.add {s : Registration φ} (h : Dense s) {func : φ} {n : ℕ}
    (hn : Callbacks.IsBorder s.callbacks.slots n) : Dense (s.step (.add func n)) := by
  have hflag := h.flags func
  dsimp only [step, Callbacks.addCallback]
  by_cases hmem : func ∈ s.order
  · rw [if_pos (hflag.mpr hmem), if_pos hmem]
    exact h
  · rw [if_neg fun hf => hmem (hflag.mp hf), if_neg hmem]
    obtain ⟨k, hk⟩ := h.slots
    rw [hk] at hn
    obtain ⟨k', hput⟩ := put_dense s.order k func
    refine ⟨⟨k', by rw [← hput, ← border_eq hn, ← hk]⟩, fun f => ?_, ?_⟩
    · rw [Finset.mem_insert, h.flags, List.mem_append, List.mem_singleton, or_comm]
    · exact List.nodup_append.mpr ⟨h.nodup, List.nodup_singleton func, fun a ha b hb => by
        rw [List.mem_singleton.mp hb]
        rintro rfl
        exact hmem ha⟩

theorem Dense.removed {s : Registration φ} (h : Dense s) {func : φ} {front rest : List φ}
    (horder : s.order = front ++ func :: rest) :
    (s.step (.remove func)).order = front ++ rest ∧
      ∃ k, (s.step (.remove func)).callbacks = ⟨front.map some ++ none :: (rest.map some ++
        List.replicate k none), s.callbacks.flags.erase func⟩ := by
  have hmem : func ∈ s.order := horder ▸ List.mem_append_right _ List.mem_cons_self
  have hnodup := h.nodup
  rw [horder] at hnodup
  have hfront : func ∉ front := fun hf =>
    (List.nodup_append.mp hnodup).2.2 func hf func List.mem_cons_self rfl
  obtain ⟨k, hk⟩ := h.slots
  have hindex : (Callbacks.ipairs s.callbacks.slots).idxOf func = (front.map some).length := by
    rw [h.ipairs, horder, List.idxOf_append_of_notMem hfront, List.idxOf_cons_self, Nat.add_zero,
      List.length_map]
  dsimp only [step, Callbacks.removeCallback]
  rw [if_pos ⟨(h.flags func).mpr hmem, h.ipairs.symm ▸ hmem⟩, hindex]
  refine ⟨?_, k, ?_⟩
  · rw [horder, List.erase_append_right _ hfront, List.erase_cons_head]
  · dsimp only
    rw [hk, horder, List.map_append, List.append_assoc, List.map_cons, List.cons_append,
      List.set_append_right _ _ (Nat.le_refl _), Nat.sub_self, List.set_cons_zero]

theorem Dense.remove {s : Registration φ} (h : Dense s) {func : φ}
    (hlast : func ∈ s.order → s.order.getLast? = some func) : Dense (s.step (.remove func)) := by
  by_cases hmem : func ∈ s.order
  · obtain ⟨front, horder⟩ := List.getLast?_eq_some_iff.mp (hlast hmem)
    obtain ⟨hrest, k, htable⟩ := h.removed horder
    have hnodup := h.nodup
    rw [horder] at hnodup
    rw [List.append_nil] at hrest
    refine ⟨⟨k + 1, by rw [htable, hrest]; rfl⟩, fun f => ?_, ?_⟩
    · rw [htable, hrest, Finset.mem_erase, h.flags, horder, List.mem_append, List.mem_singleton]
      constructor
      · rintro ⟨hne, hf⟩
        exact hf.resolve_right hne
      · intro hf
        exact ⟨fun heq => (List.nodup_append.mp hnodup).2.2 f hf func List.mem_cons_self heq,
          Or.inl hf⟩
    · rw [hrest]
      exact (List.nodup_append.mp hnodup).1
  · dsimp only [step, Callbacks.removeCallback]
    rw [if_neg fun hc => hmem ((h.flags func).mp hc.1), List.erase_of_not_mem hmem]
    exact h

theorem Dense.step {s : Registration φ} {call : CallbackCall φ} (h : Dense s)
    (hlength : Measured s call) (hlast : LastRemoved s call) : Dense (s.step call) := by
  cases call with
  | add func n => exact h.add hlength
  | remove func => exact h.remove hlast

/-- Behind a gap nothing is applied. -/
theorem Dense.last_of_right {s : Registration φ} {call : CallbackCall φ} (h : Dense s)
    (hright : Callbacks.ipairs (s.step call).callbacks.slots = (s.step call).order) :
    LastRemoved s call := by
  cases call with
  | add func n => trivial
  | remove func =>
    intro hmem
    obtain ⟨front, rest, horder⟩ := List.append_of_mem hmem
    obtain ⟨hrest, k, htable⟩ := h.removed horder
    rw [htable, hrest, ipairs_map_some] at hright
    have hnil : rest = [] := List.append_right_eq_self.mp hright.symm
    rw [horder, hnil, List.getLast?_concat]

/-- In a run the registered callbacks are applied at all times exactly if only the last one of
them is ever removed. -/
theorem always_right_iff [Inhabited δ] (calls : List (CallbackCall φ))
    (h : Machine.Guarded step Measured new calls) :
    Machine.Always step (Right δ) new calls ↔ Machine.Guarded step LastRemoved new calls :=
  Machine.always_iff_guarded_of_legal (P := Dense) (fun s hs => (right_iff s).mpr hs.ipairs)
    (fun _ _ hs => hs.step) (fun _ _ hs _ hright => hs.last_of_right ((right_iff _).mp hright))
    dense_new h

/-- Two callbacks, of which the second one leaves again. -/
def lastLeaves : List (CallbackCall ℕ) := [.add 1 0, .add 2 1, .remove 2, .add 3 1]

theorem lastLeaves_right : Machine.Always step (Right Unit) new lastLeaves := by
  refine (always_right_iff lastLeaves ⟨?_, ?_, trivial, ?_, trivial⟩).mpr
    ⟨trivial, trivial, fun _ => by decide, trivial, trivial⟩ <;>
    exact ⟨by decide, by decide⟩

def firstLeaves : List (CallbackCall ℕ) := [.add 1 0, .add 2 1, .remove 1]

theorem firstLeaves_not_right :
    Machine.Guarded step Measured new firstLeaves ∧
      ¬ Machine.Always step (Right Unit) new firstLeaves := by
  refine ⟨⟨⟨by decide, by decide⟩, ⟨by decide, by decide⟩, trivial, trivial⟩, fun h => ?_⟩
  have hright := (right_iff _).mp (Machine.always_iff.mp h firstLeaves List.prefix_rfl)
  exact absurd hright (by decide)

end Registration

end Prosody.Datamanager
