import Mathlib.Algebra.Ring.Int.Defs
import Prosody.Util.Events

/-! # Calls of handlers and wrappers, one inside the other -/

namespace Prosody.Dispatch

variable {ε η ω π ρ : Type*}

/-! ## Handlers -/

section

variable [DecidableEq η] [LinearOrder π]

theorem keys_set_ne_empty {κ ν : Type*} [DecidableEq κ] (t : Table κ ν) (k : κ) (v : ν) :
    (t.set k (some v)).keys ≠ ∅ := by
  intro hempty
  have hget := Table.get_set_self t k (some v)
  rw [Table.get_of_keys_eq_empty hempty] at hget
  cases hget

theorem eq_empty_of_keys {κ ν : Type*} [DecidableEq κ] {t : Table κ ν} (h : t.keys = ∅) :
    t = ∅ := by
  ext k : 1
  rw [Table.get_of_keys_eq_empty h, Table.get_empty]

theorem isIndex_nil : IsIndex (∅ : Table η π) [] where
  nodup := List.nodup_nil
  mem h := by simp
  sorted := List.Pairwise.nil

namespace Registry

/-- `event_map` has the handlers that are to be called, and no empty tables. -/
structure Inv (r : Registry ε η π) : Prop where
  map : ∀ event, r.eventMap event =
    if (r.registered event).keys = ∅ then none else some (r.registered event)
  consistent : r.Consistent

variable {r : Registry ε η π} {event : ε}

theorem inv_new : (new : Registry ε η π).Inv where
  map event := by simp [new]
  consistent := by
    intro event index h
    cases h

theorem Inv.getD_eventMap (h : r.Inv) (event : ε) :
    (r.eventMap event).getD ∅ = r.registered event := by
  rw [h.map]
  split
  · rename_i hempty
    exact (eq_empty_of_keys hempty).symm
  · rfl

variable [DecidableEq ε]

theorem Consistent.update (h : r.Consistent) {eventMap : ε → Option (Table η π)} {n : ℕ}
    {t : Table η π} : Consistent {
      handlers := Function.update r.handlers event none
      eventMap := eventMap
      rebuilt := n
      registered := Function.update r.registered event t } := by
  intro event' index hindex
  simp only at hindex ⊢
  by_cases he : event' = event
  · subst he
    rw [Function.update_self] at hindex
    cases hindex
  · rw [Function.update_of_ne he] at hindex ⊢
    exact h event' index hindex

theorem Inv.addHandler [Zero π] (h : r.Inv) (event : ε) (handler : η) (priority : Option π) :
    (r.addHandler event handler priority).Inv where
  map event' := by
    have hmap : (r.addHandler event handler priority).eventMap = Function.update r.eventMap event
        (some ((r.registered event).set handler (some (priority.getD 0)))) := by
      rw [← h.getD_eventMap event]
      unfold Registry.addHandler
      cases r.eventMap event <;> rfl
    rw [hmap]
    by_cases he : event' = event
    · subst he
      simp only [Registry.addHandler, Function.update_self]
      rw [if_neg (keys_set_ne_empty _ _ _)]
    · simp only [Registry.addHandler, Function.update_of_ne he]
      exact h.map event'
  consistent := h.consistent.update

theorem Inv.removeHandler (h : r.Inv) (event : ε) (handler : η) :
    (r.removeHandler event handler).Inv := by
  unfold Registry.removeHandler
  cases hmap : r.eventMap event with
  | none => exact h
  | some map =>
    have hregistered : r.registered event = map := by
      rw [← h.getD_eventMap, hmap]
      rfl
    refine ⟨fun event' => ?_, h.consistent.update⟩
    simp only [hregistered]
    by_cases he : event' = event
    · subst he
      simp only [Function.update_self]
    · simp only [Function.update_of_ne he]
      exact h.map event'

/-- What an access to `handlers` results in. -/
theorem Inv.getHandlers (h : r.Inv) (sorting : Sorting η π) (event : ε) :
    (r.getHandlers sorting event).2.Inv ∧
      (r.getHandlers sorting event).2.registered = r.registered ∧
      IsIndex (r.registered event) ((r.getHandlers sorting event).1.getD []) := by
  unfold Registry.getHandlers
  cases hindex : r.handlers event with
  | some index => exact ⟨h, rfl, h.consistent event index hindex⟩
  | none =>
    have hmap := h.map event
    by_cases hempty : (r.registered event).keys = ∅
    · rw [if_pos hempty] at hmap
      rw [hmap]
      refine ⟨h, rfl, ?_⟩
      rw [eq_empty_of_keys hempty]
      exact isIndex_nil
    · rw [if_neg hempty] at hmap
      rw [hmap]
      simp only [if_neg hempty]
      refine ⟨⟨h.map, fun event' index hindex' => ?_⟩, trivial, sorting.isIndex _ _⟩
      simp only at hindex'
      by_cases he : event' = event
      · subst he
        rw [Function.update_self] at hindex'
        obtain rfl := Option.some.inj hindex'
        exact sorting.isIndex _ _
      · rw [Function.update_of_ne he] at hindex'
        exact h.consistent event' index hindex'

end Registry

end

/-! ## Wrappers -/

namespace Wrappers

/-- Each array belongs to one event and has the wrappers that are to be called for it. -/
structure Inv (w : Wrappers ε ω) : Prop where
  none_wanted : ∀ event, w.array event = none → w.wanted event = []
  allocated : ∀ event a, w.array event = some a → a < w.allocated
  arrays : ∀ event a, w.array event = some a → w.arrays a = w.wanted event ∧ w.wanted event ≠ []
  injective : ∀ event event' a, w.array event = some a → w.array event' = some a → event = event'

variable {w : Wrappers ε ω} {event : Option ε}

theorem inv_new : (new : Wrappers ε ω).Inv where
  none_wanted _ _ := rfl
  allocated event a h := by cases event <;> cases h
  arrays event a h := by cases event <;> cases h
  injective event event' a h := by cases event <;> cases h

section

variable [DecidableEq ε]

theorem array_setArray (w : Wrappers ε ω) (event event' : Option ε) (a : Option ℕ) :
    (w.setArray event a).array event' = if event' = event then a else w.array event' := by
  cases event with
  | none => cases event' <;> simp [setArray, array]
  | some event =>
    cases event' with
    | none => simp [setArray, array]
    | some event' =>
      by_cases he : event' = event
      · subst he
        simp [setArray, array]
      · simp [setArray, array, he]

theorem addWrapper_cases (w : Wrappers ε ω) (event : Option ε) (wrapper : ω) :
    (w.addWrapper event wrapper).wanted =
        Function.update w.wanted event (w.wanted event ++ [wrapper]) ∧
      ((∃ a, w.array event = some a ∧ (w.addWrapper event wrapper).array = w.array ∧
        (w.addWrapper event wrapper).allocated = w.allocated ∧
        (w.addWrapper event wrapper).arrays =
          Function.update w.arrays a (w.arrays a ++ [wrapper])) ∨
      (w.array event = none ∧
        (w.addWrapper event wrapper).array =
          Function.update w.array event (some w.allocated) ∧
        (w.addWrapper event wrapper).allocated = w.allocated + 1 ∧
        (w.addWrapper event wrapper).arrays =
          Function.update w.arrays w.allocated [wrapper])) := by
  have hsame : ∀ wanted, array { w with wanted := wanted } event = w.array event := by
    intro wanted
    cases event <;> rfl
  cases ha : w.array event with
  | some a =>
    have hadd : w.addWrapper event wrapper = { w with
        wanted := Function.update w.wanted event (w.wanted event ++ [wrapper])
        arrays := Function.update w.arrays a (w.arrays a ++ [wrapper]) } := by
      unfold addWrapper
      simp only [hsame, ha]
    rw [hadd]
    refine ⟨rfl, .inl ⟨a, rfl, ?_, rfl, rfl⟩⟩
    funext event'
    cases event' <;> rfl
  | none =>
    have hadd : w.addWrapper event wrapper = { setArray { w with
        wanted := Function.update w.wanted event (w.wanted event ++ [wrapper]) } event
          (some w.allocated) with
        arrays := Function.update w.arrays w.allocated [wrapper]
        allocated := w.allocated + 1 } := by
      unfold addWrapper
      simp only [hsame, ha]
    rw [hadd]
    refine ⟨?_, .inr ⟨rfl, ?_, rfl, rfl⟩⟩
    · cases event <;> rfl
    · funext event'
      have harray := array_setArray { w with
        wanted := Function.update w.wanted event (w.wanted event ++ [wrapper]) } event event'
          (some w.allocated)
      rw [Function.update_apply]
      cases event' <;> exact harray

theorem Inv.addWrapper (h : w.Inv) (event : Option ε) (wrapper : ω) :
    (w.addWrapper event wrapper).Inv := by
  obtain ⟨hwanted, ⟨a, ha, harray, hallocated, harrays⟩ | ⟨hnone, harray, hallocated, harrays⟩⟩ :=
    addWrapper_cases w event wrapper
  · constructor
    · intro event' hnone
      rw [harray] at hnone
      have hne : event' ≠ event := by
        rintro rfl
        rw [ha] at hnone
        cases hnone
      rw [hwanted, Function.update_of_ne hne]
      exact h.none_wanted event' hnone
    · intro event' b hb
      rw [harray] at hb
      rw [hallocated]
      exact h.allocated event' b hb
    · intro event' b hb
      rw [harray] at hb
      rw [harrays, hwanted]
      by_cases he : event' = event
      · subst he
        obtain rfl := Option.some.inj (ha.symm.trans hb)
        rw [Function.update_self, Function.update_self, (h.arrays event' a ha).1]
        exact ⟨rfl, by simp⟩
      · have hne : b ≠ a := fun heq => he (h.injective event' event b hb (heq ▸ ha))
        rw [Function.update_of_ne he, Function.update_of_ne hne]
        exact h.arrays event' b hb
    · rw [harray]
      exact h.injective
  · have hget : ∀ event' b, (w.addWrapper event wrapper).array event' = some b →
        event' = event ∧ b = w.allocated ∨ event' ≠ event ∧ w.array event' = some b := by
      intro event' b hb
      rw [harray, Function.update_apply] at hb
      split at hb
      · rename_i he
        exact .inl ⟨he, (Option.some.inj hb).symm⟩
      · rename_i he
        exact .inr ⟨he, hb⟩
    constructor
    · intro event' hnone'
      rw [harray, Function.update_apply] at hnone'
      split at hnone'
      · cases hnone'
      · rename_i he
        rw [hwanted, Function.update_of_ne he]
        exact h.none_wanted event' hnone'
    · intro event' b hb
      rw [hallocated]
      rcases hget event' b hb with ⟨-, rfl⟩ | ⟨-, hb⟩
      · exact Nat.lt_succ_self _
      · exact (h.allocated event' b hb).trans (Nat.lt_succ_self _)
    · intro event' b hb
      rw [harrays, hwanted]
      rcases hget event' b hb with ⟨rfl, rfl⟩ | ⟨he, hb⟩
      · rw [Function.update_self, Function.update_self, h.none_wanted event' hnone]
        exact ⟨rfl, by simp⟩
      · rw [Function.update_of_ne he, Function.update_of_ne (h.allocated event' b hb).ne]
        exact h.arrays event' b hb
    · intro event' event'' b hb hb'
      rcases hget event' b hb with ⟨rfl, rfl⟩ | ⟨he, hb⟩
      · rcases hget event'' _ hb' with ⟨rfl, -⟩ | ⟨-, hb'⟩
        · rfl
        · exact absurd (h.allocated event'' _ hb') (lt_irrefl _)
      · rcases hget event'' b hb' with ⟨-, rfl⟩ | ⟨-, hb'⟩
        · exact absurd (h.allocated event' _ hb) (lt_irrefl _)
        · exact h.injective event' event'' b hb hb'

variable [DecidableEq ω]

def left (wrapper : ω) (ws : List ω) : List ω := ws.filter fun x => decide (x ≠ wrapper)

theorem removeWrapper_cases (w : Wrappers ε ω) (event : Option ε) (wrapper : ω) :
    (w.removeWrapper event wrapper).wanted =
        Function.update w.wanted event (left wrapper (w.wanted event)) ∧
      (w.removeWrapper event wrapper).allocated = w.allocated ∧
      ((w.array event = none ∧ (w.removeWrapper event wrapper).array = w.array ∧
        (w.removeWrapper event wrapper).arrays = w.arrays) ∨
      (∃ a, w.array event = some a ∧
        (w.removeWrapper event wrapper).array = Function.update w.array event
          (if left wrapper (w.arrays a) = [] then none else some a) ∧
        (w.removeWrapper event wrapper).arrays =
          Function.update w.arrays a (left wrapper (w.arrays a)))) := by
  have hsame : ∀ wanted, array { w with wanted := wanted } event = w.array event := by
    intro wanted
    cases event <;> rfl
  cases ha : w.array event with
  | none =>
    have hremove : w.removeWrapper event wrapper = { w with
        wanted := Function.update w.wanted event (left wrapper (w.wanted event)) } := by
      unfold removeWrapper
      simp only [hsame, ha]
      rfl
    rw [hremove]
    refine ⟨rfl, rfl, .inl ⟨rfl, ?_, rfl⟩⟩
    funext event'
    cases event' <;> rfl
  | some a =>
    have hremove : w.removeWrapper event wrapper = { setArray { w with
        wanted := Function.update w.wanted event (left wrapper (w.wanted event)) } event
          (if left wrapper (w.arrays a) = [] then none else some a) with
        arrays := Function.update w.arrays a (left wrapper (w.arrays a)) } := by
      unfold removeWrapper
      simp only [hsame, ha]
      rfl
    rw [hremove]
    refine ⟨?_, ?_, .inr ⟨a, rfl, ?_, rfl⟩⟩
    · cases event <;> rfl
    · cases event <;> rfl
    · funext event'
      have harray := array_setArray { w with
        wanted := Function.update w.wanted event (left wrapper (w.wanted event)) } event event'
          (if left wrapper (w.arrays a) = [] then none else some a)
      rw [Function.update_apply]
      cases event' <;> exact harray

theorem Inv.removeWrapper (h : w.Inv) (event : Option ε) (wrapper : ω) :
    (w.removeWrapper event wrapper).Inv := by
  obtain ⟨hwanted, hallocated, ⟨hnone, harray, harrays⟩ | ⟨a, ha, harray, harrays⟩⟩ :=
    removeWrapper_cases w event wrapper
  · have hempty : (w.removeWrapper event wrapper).wanted = w.wanted := by
      rw [hwanted, h.none_wanted event hnone]
      exact Function.update_eq_self_iff.mpr (h.none_wanted event hnone).symm
    constructor
    · intro event' hnone'
      rw [harray] at hnone'
      rw [hempty]
      exact h.none_wanted event' hnone'
    · rw [harray, hallocated]
      exact h.allocated
    · rw [harray, harrays, hempty]
      exact h.arrays
    · rw [harray]
      exact h.injective
  · have hget : ∀ event' b, (w.removeWrapper event wrapper).array event' = some b →
        w.array event' = some b ∧ (event' = event → left wrapper (w.arrays a) ≠ []) := by
      intro event' b hb
      rw [harray, Function.update_apply] at hb
      split at hb
      · rename_i he
        subst he
        split at hb
        · cases hb
        · rename_i hleft
          obtain rfl := Option.some.inj hb
          exact ⟨ha, fun _ => hleft⟩
      · rename_i he
        exact ⟨hb, fun heq => absurd heq he⟩
    have hsame := (h.arrays event a ha).1
    constructor
    · intro event' hnone
      rw [harray, Function.update_apply] at hnone
      rw [hwanted, Function.update_apply]
      split at hnone
      · rename_i he
        rw [if_pos he, ← hsame]
        split at hnone
        · rename_i hempty
          exact hempty
        · cases hnone
      · rename_i he
        rw [if_neg he]
        exact h.none_wanted event' hnone
    · intro event' b hb
      rw [hallocated]
      exact h.allocated event' b (hget event' b hb).1
    · intro event' b hb
      obtain ⟨hold, hleft⟩ := hget event' b hb
      rw [harrays, hwanted]
      by_cases he : event' = event
      · subst he
        obtain rfl := Option.some.inj (ha.symm.trans hold)
        rw [Function.update_self, Function.update_self, ← hsame]
        exact ⟨rfl, hleft rfl⟩
      · have hne : b ≠ a := fun heq => he (h.injective event' event b hold (heq ▸ ha))
        rw [Function.update_of_ne he, Function.update_of_ne hne]
        exact h.arrays event' b hold
    · intro event' event'' b hb hb'
      exact h.injective event' event'' b (hget event' b hb).1 (hget event'' b hb').1

end

end Wrappers

/-! ## Going through wrappers -/

/-- Removing a wrapper leaves those before it where they are. -/
theorem take_left [DecidableEq ω] {ws : List ω} {wrapper : ω} {k : ℕ} (hk : k ≤ ws.length)
    (h : wrapper ∉ ws.take k) :
    k ≤ (Wrappers.left wrapper ws).length ∧ (Wrappers.left wrapper ws).take k = ws.take k := by
  have hsplit : Wrappers.left wrapper ws = ws.take k ++ Wrappers.left wrapper (ws.drop k) := by
    have hfront : (ws.take k).filter (fun x => decide (x ≠ wrapper)) = ws.take k :=
      List.filter_eq_self.mpr fun x hx => decide_eq_true fun heq => h (heq ▸ hx)
    conv_lhs => rw [Wrappers.left, ← List.take_append_drop k ws, List.filter_append, hfront]
    rfl
  have hlength : (ws.take k).length = k := List.length_take_of_le hk
  rw [hsplit]
  refine ⟨?_, List.take_left' hlength⟩
  rw [List.length_append, hlength]
  exact Nat.le_add_right _ _

/-- A wrapper has been called and has not called its continuation yet. -/
structure Walking (w : Wrappers ε ω) (F : Firing ε η ω π ρ) : Prop where
  registered : F.registered = none
  ran : F.ran = []
  returned : F.returned = []
  answer : F.answer = none
  result : F.result = none
  called : F.called ≠ []
  pos : 0 < F.currWrapper
  le : F.currWrapper - 1 ≤ (w.arrays F.w).length
  todo : F.called ++ ((w.arrays F.w).take (F.currWrapper - 1)).reverse = F.wrappers
  allocated : F.w < w.allocated
  own : F.reached = false → F.globalWrappers = [] ∧ w.globalWrappers ≠ some F.w

section

variable [DecidableEq ε] {w : Wrappers ε ω} {F : Firing ε η ω π ρ}

omit [DecidableEq ε] in
/-- The wrappers change, but not those that are still to be called. -/
theorem Walking.change (h : Walking w F) {w' : Wrappers ε ω}
    (hle : F.currWrapper - 1 ≤ (w'.arrays F.w).length)
    (htake : (w'.arrays F.w).take (F.currWrapper - 1) = (w.arrays F.w).take (F.currWrapper - 1))
    (hallocated : w.allocated ≤ w'.allocated)
    (hglobal : w.globalWrappers ≠ some F.w → w'.globalWrappers ≠ some F.w) : Walking w' F :=
  { h with
    le := hle
    todo := by rw [htake, h.todo]
    allocated := h.allocated.trans_le hallocated
    own := fun hreached => ⟨(h.own hreached).1, hglobal (h.own hreached).2⟩ }

theorem Walking.addWrapper (h : Walking w F) (event : Option ε) (wrapper : ω) :
    Walking (w.addWrapper event wrapper) F := by
  have hglobal : (w.addWrapper event wrapper).globalWrappers =
      (w.addWrapper event wrapper).array none := rfl
  obtain ⟨-, ⟨a, ha, harray, hallocated, harrays⟩ | ⟨-, harray, hallocated, harrays⟩⟩ :=
    Wrappers.addWrapper_cases w event wrapper
  · have htake : (w.arrays F.w).length ≤ ((w.addWrapper event wrapper).arrays F.w).length ∧
        ((w.addWrapper event wrapper).arrays F.w).take (F.currWrapper - 1) =
          (w.arrays F.w).take (F.currWrapper - 1) := by
      have hle := h.le
      rw [harrays, Function.update_apply]
      split
      · rename_i hw
        rw [hw] at hle ⊢
        exact ⟨by simp, List.take_append_of_le_length hle⟩
      · exact ⟨le_rfl, rfl⟩
    refine h.change (h.le.trans htake.1) htake.2 hallocated.ge fun hown => ?_
    rw [hglobal, harray]
    exact hown
  · have hw : F.w ≠ w.allocated := h.allocated.ne
    have hsame : (w.addWrapper event wrapper).arrays F.w = w.arrays F.w := by
      rw [harrays, Function.update_of_ne hw]
    refine h.change (by rw [hsame]; exact h.le) (by rw [hsame])
      ((Nat.le_succ _).trans hallocated.ge) fun hown => ?_
    rw [hglobal, harray, Function.update_apply]
    split
    · exact fun heq => hw (Option.some.inj heq).symm
    · exact hown

variable [DecidableEq ω]

theorem Walking.removeWrapper (h : Walking w F) (event : Option ε) (wrapper : ω)
    (hcareful : w.array event = some F.w →
      wrapper ∉ (w.arrays F.w).take (F.currWrapper - 1)) :
    Walking (w.removeWrapper event wrapper) F := by
  have hglobal : (w.removeWrapper event wrapper).globalWrappers =
      (w.removeWrapper event wrapper).array none := rfl
  obtain ⟨-, hallocated, ⟨-, harray, harrays⟩ | ⟨a, ha, harray, harrays⟩⟩ :=
    Wrappers.removeWrapper_cases w event wrapper
  · refine h.change (by rw [harrays]; exact h.le) (by rw [harrays]) hallocated.ge fun hown => ?_
    rw [hglobal, harray]
    exact hown
  · have htake : F.currWrapper - 1 ≤ ((w.removeWrapper event wrapper).arrays F.w).length ∧
        ((w.removeWrapper event wrapper).arrays F.w).take (F.currWrapper - 1) =
          (w.arrays F.w).take (F.currWrapper - 1) := by
      have hle := h.le
      rw [harrays, Function.update_apply]
      split
      · rename_i hw
        subst hw
        exact take_left hle (hcareful ha)
      · exact ⟨hle, rfl⟩
    refine h.change htake.1 htake.2 hallocated.ge fun hown => ?_
    rw [hglobal, harray, Function.update_apply]
    split
    · rename_i hnone
      split
      · exact Option.some_ne_none _ ∘ Eq.symm
      · rw [← ha, ← hnone]
        exact hown
    · exact hown

end

/-! ## Calls -/

structure Handling [DecidableEq η] [LinearOrder π] (F : Firing ε η ω π ρ) (t : Table η π)
    (index : List η) (k : ℕ) (rest : List η) : Prop where
  registered : F.registered = some t
  isIndex : IsIndex t index
  lt : k < index.length
  ran : F.ran = index.take (k + 1)
  returned : F.returned = List.replicate k none
  rest : rest = index.drop (k + 1)
  answer : F.answer = none
  result : F.result = none
  called : F.called = F.wrappers

structure Fresh (F : Firing ε η ω π ρ) : Prop where
  registered : F.registered = none
  ran : F.ran = []
  returned : F.returned = []
  answer : F.answer = none
  result : F.result = none

theorem Walking.fresh {w : Wrappers ε ω} {F : Firing ε η ω π ρ} (h : Walking w F) : Fresh F :=
  ⟨h.registered, h.ran, h.returned, h.answer, h.result⟩

section

variable [DecidableEq η] [LinearOrder π]

def FrameOk (w : Wrappers ε ω) (firings : ℕ → Option (Firing ε η ω π ρ)) : Frame η → Prop
  | .wrapping f false => ∃ F, firings f = some F ∧ Walking w F
  | .wrapping f true => ∃ F, firings f = some F ∧ F.called ≠ []
  | .handling f rest => ∃ F, firings f = some F ∧ ∃ t index k, Handling F t index k rest

/-- What holds of every state. Calls that have been made from other calls are above them. -/
structure Inv (s : State ε η ω π ρ) : Prop where
  registry : s.registry.Inv
  wrappers : s.wrappers.Inv
  failed : s.failed = false
  unused : ∀ f F, s.firings f = some F → f < s.fired
  right : ∀ f F, s.firings f = some F → Right F
  frames : ∀ fr ∈ s.stack, FrameOk s.wrappers s.firings fr
  nested : s.stack.Pairwise fun a b => b.fire < a.fire ∨ b = .wrapping a.fire true

/-- The same, except for the topmost call. -/
structure Around (s : State ε η ω π ρ) (f : ℕ) (F : Firing ε η ω π ρ) : Prop where
  registry : s.registry.Inv
  wrappers : s.wrappers.Inv
  failed : s.failed = false
  unused : ∀ f F, s.firings f = some F → f < s.fired
  firing : s.firings f = some F
  right : ∀ f' F', f' ≠ f → s.firings f' = some F' → Right F'
  frames : ∀ fr ∈ s.stack, fr.fire ≠ f → FrameOk s.wrappers s.firings fr
  own : ∀ fr ∈ s.stack, fr.fire = f → fr = .wrapping f true ∧ F.called ≠ []
  below : ∀ fr ∈ s.stack, fr.fire ≤ f
  nested : s.stack.Pairwise fun a b => b.fire < a.fire ∨ b = .wrapping a.fire true

variable {s : State ε η ω π ρ} {f : ℕ} {F : Firing ε η ω π ρ}

theorem Inv.state_right (h : Inv s) : s.Right where
  failed := h.failed
  consistent := h.registry.consistent
  firings := h.right

theorem inv_new : Inv (State.new : State ε η ω π ρ) where
  registry := Registry.inv_new
  wrappers := Wrappers.inv_new
  failed := rfl
  unused f F h := by cases h
  right f F h := by cases h
  frames fr h := by cases h
  nested := List.Pairwise.nil

variable {fr : Frame η} {w : Wrappers ε ω}

theorem FrameOk.exists_firing {firings : ℕ → Option (Firing ε η ω π ρ)}
    (h : FrameOk w firings fr) : ∃ F, firings fr.fire = some F := by
  cases fr with
  | wrapping f continued =>
    cases continued with
    | false => exact ⟨h.choose, h.choose_spec.1⟩
    | true => exact ⟨h.choose, h.choose_spec.1⟩
  | handling f rest => exact ⟨h.choose, h.choose_spec.1⟩

/-- Whether a frame is in order depends on its own call. -/
theorem FrameOk.congr {firings firings' : ℕ → Option (Firing ε η ω π ρ)}
    (h : FrameOk w firings fr) (heq : firings' fr.fire = firings fr.fire) :
    FrameOk w firings' fr := by
  cases fr with
  | wrapping f continued =>
    cases continued with
    | false =>
      obtain ⟨F, hF, hwalking⟩ := h
      exact ⟨F, heq.trans hF, hwalking⟩
    | true =>
      obtain ⟨F, hF, hcalled⟩ := h
      exact ⟨F, heq.trans hF, hcalled⟩
  | handling f rest =>
    obtain ⟨F, hF, hhandling⟩ := h
    exact ⟨F, heq.trans hF, hhandling⟩

theorem Inv.pop (h : Inv s) {rest : List (Frame η)} (hstack : s.stack = fr :: rest)
    (hF : s.firings fr.fire = some F) : Around { s with stack := rest } fr.fire F := by
  have hnested := h.nested
  rw [hstack] at hnested
  obtain ⟨hbelow, hrest⟩ := List.pairwise_cons.mp hnested
  have hmem : ∀ fr' ∈ rest, fr' ∈ s.stack := fun fr' h => by
    rw [hstack]
    exact List.mem_cons_of_mem _ h
  exact {
    registry := h.registry
    wrappers := h.wrappers
    failed := h.failed
    unused := h.unused
    firing := hF
    right := fun f' F' _ hF' => h.right f' F' hF'
    frames := fun fr' hfr' _ => h.frames fr' (hmem fr' hfr')
    own := by
      intro fr' hfr' hfire
      rcases hbelow fr' hfr' with hlt | heq
      · exact absurd hfire hlt.ne
      · obtain ⟨F', hF', hcalled⟩ : FrameOk s.wrappers s.firings (.wrapping fr.fire true) :=
          heq ▸ h.frames fr' (hmem fr' hfr')
        obtain rfl := Option.some.inj (hF.symm.trans hF')
        exact ⟨heq, hcalled⟩
    below := by
      intro fr' hfr'
      rcases hbelow fr' hfr' with hlt | heq
      · exact hlt.le
      · rw [heq]
        exact le_rfl
    nested := hrest }

theorem Around.update (h : Around s f F) (g : Firing ε η ω π ρ → Firing ε η ω π ρ)
    (hcalled : F.called ≠ [] → (g F).called ≠ []) : Around (s.update f g) f (g F) := by
  have hother : ∀ f', f' ≠ f → (s.update f g).firings f' = s.firings f' := fun f' hne =>
    Function.update_of_ne hne _ _
  have hself : (s.update f g).firings f = some (g F) := by
    simp only [State.update, Function.update_self, h.firing, Option.map_some]
  exact {
    registry := h.registry
    wrappers := h.wrappers
    failed := h.failed
    unused := by
      intro f' F' hF'
      by_cases hne : f' = f
      · subst hne
        exact h.unused f' F h.firing
      · exact h.unused f' F' ((hother f' hne).symm.trans hF')
    firing := hself
    right := fun f' F' hne hF' => h.right f' F' hne ((hother f' hne).symm.trans hF')
    frames := fun fr hfr hne => (h.frames fr hfr hne).congr (hother fr.fire hne)
    own := fun fr hfr hfire => ⟨(h.own fr hfr hfire).1, hcalled (h.own fr hfr hfire).2⟩
    below := h.below
    nested := h.nested }

theorem Around.close (h : Around s f F) (hright : Right F) : Inv s where
  registry := h.registry
  wrappers := h.wrappers
  failed := h.failed
  unused := h.unused
  right := by
    intro f' F' hF'
    by_cases hne : f' = f
    · subst hne
      obtain rfl := Option.some.inj (h.firing.symm.trans hF')
      exact hright
    · exact h.right f' F' hne hF'
  frames := by
    intro fr hfr
    by_cases hne : fr.fire = f
    · obtain ⟨rfl, hcalled⟩ := h.own fr hfr hne
      exact ⟨F, h.firing, hcalled⟩
    · exact h.frames fr hfr hne
  nested := h.nested

theorem Around.push (h : Around s f F) (hright : Right F) {fr : Frame η} (hfire : fr.fire = f)
    (hframe : FrameOk s.wrappers s.firings fr) : Inv { s with stack := fr :: s.stack } := by
  have hinv := h.close hright
  exact { hinv with
    frames := by
      intro fr' hfr'
      rcases List.mem_cons.mp hfr' with rfl | hfr'
      · exact hframe
      · exact hinv.frames fr' hfr'
    nested := by
      refine List.pairwise_cons.mpr ⟨fun fr' hfr' => ?_, h.nested⟩
      rw [hfire]
      rcases (h.below fr' hfr').lt_or_eq with hlt | heq
      · exact .inl hlt
      · exact .inr (h.own fr' hfr' heq).1 }

/-- What is right of a call apart from what it returns. -/
structure Called (F : Firing ε η ω π ρ) : Prop where
  called : F.called <+: F.wrappers
  before : F.registered = none → F.ran = [] ∧ F.answer = none
  within : F.registered.isSome → F.called = F.wrappers
  handled : ∀ t, F.registered = some t → ∃ index, Handled F t index

theorem Around.deliver (h : Around s f F) (hcalled : Called F) {value : Option ρ}
    (hvalue : F.called = [] → F.answer = some value) : Inv (s.deliver f value) := by
  have hresult : Inv (s.update f fun F => { F with result := some value }) := by
    refine (h.update (fun F => { F with result := some value }) id).close ?_
    exact {
      called := hcalled.called
      before := hcalled.before
      within := hcalled.within
      handled := fun t ht =>
        let ⟨index, hhandled⟩ := hcalled.handled t ht
        ⟨index, { hhandled with }⟩
      result := fun hnone => (hvalue hnone).symm }
  unfold State.deliver
  split
  · rename_i f' continued rest hstack
    split
    · rename_i heq
      subst heq
      have hown := h.own (.wrapping f' continued) (by rw [hstack]; exact List.mem_cons_self) rfl
      exact h.close { hcalled with result := fun hnone => absurd hnone hown.2 }
    · exact hresult
  · exact hresult

/-! ### Calling handlers -/

theorem Around.registry_change (h : Around s f F) {r : Registry ε η π} (hr : r.Inv) :
    Around { s with registry := r } f F :=
  { h with registry := hr }

variable [DecidableEq ε]

theorem Around.fireEvent (h : Around s f F) (sorting : Sorting η π) (hfresh : Fresh F)
    (hcalled : F.called = F.wrappers) : Inv (s.fireEvent sorting f) := by
  obtain ⟨hregistry, hsame, hindex⟩ := h.registry.getHandlers sorting F.event
  have hnext := h.registry_change hregistry
  have hnone : ∀ index : List η, (s.registry.getHandlers sorting F.event).1.getD [] = index →
      index = [] → Inv ((({ s with registry := (s.registry.getHandlers sorting F.event).2 } :
        State ε η ω π ρ).update f fun G => { G with
          registered := some ((s.registry.getHandlers sorting F.event).2.registered F.event)
          answer := some none }).deliver f none) := by
    intro index hget hempty
    rw [hget, hempty, ← hsame] at hindex
    refine (hnext.update _ id).deliver ?_ fun _ => rfl
    exact {
      called := hcalled ▸ List.prefix_rfl
      before := fun hnone => by cases hnone
      within := fun _ => hcalled
      handled := by
        intro t ht
        obtain rfl := Option.some.inj ht
        exact ⟨[], {
          isIndex := hindex
          running := fun hno => by cases hno
          nothing := fun _ => ⟨hfresh.ran, hfresh.returned⟩
          something := fun v hv => by cases hv }⟩ }
  unfold State.fireEvent
  rw [h.firing]
  simp only
  cases hfound : (s.registry.getHandlers sorting F.event).1 with
  | none => exact hnone [] (by rw [hfound]; rfl) rfl
  | some index =>
    cases index with
    | nil => exact hnone [] (by rw [hfound]; rfl) rfl
    | cons x rest =>
      rw [hfound, ← hsame] at hindex
      have hupdate := hnext.update (fun G => { G with
        registered := some ((s.registry.getHandlers sorting F.event).2.registered F.event)
        ran := [x] }) id
      have hlength : 0 < (x :: rest).length := Nat.succ_pos _
      refine @Around.push _ _ _ _ _ _ _ _ _ _ hupdate ?_ (.handling f rest) rfl ?_
      · exact {
          called := hcalled ▸ List.prefix_rfl
          before := fun hno => by cases hno
          within := fun _ => hcalled
          handled := by
            intro t ht
            obtain rfl := Option.some.inj ht
            exact ⟨x :: rest, {
              isIndex := hindex
              running := fun _ => ⟨0, hlength, rfl, hfresh.returned⟩
              nothing := fun hno => by
                rw [hfresh.answer] at hno
                cases hno
              something := fun v hno => by
                rw [hfresh.answer] at hno
                cases hno }⟩
          result := fun _ => hfresh.result.trans hfresh.answer.symm }
      · refine ⟨_, hupdate.firing,
          (s.registry.getHandlers sorting F.event).2.registered F.event, x :: rest, 0, ?_⟩
        exact {
          registered := rfl
          isIndex := hindex
          lt := hlength
          ran := rfl
          returned := hfresh.returned
          rest := rfl
          answer := hfresh.answer
          result := hfresh.result
          called := hcalled }

/-! ### Calling wrappers -/

omit [DecidableEq ε] in
theorem Around.callWrapper (h : Around s f F) (hfresh : Fresh F) (hpos : 0 < F.currWrapper)
    (hle : F.currWrapper ≤ (s.wrappers.arrays F.w).length)
    (htodo : F.called ++ ((s.wrappers.arrays F.w).take F.currWrapper).reverse = F.wrappers)
    (hallocated : F.w < s.wrappers.allocated)
    (hown : F.reached = false →
      F.globalWrappers = [] ∧ s.wrappers.globalWrappers ≠ some F.w) :
    Inv (s.callWrapper f) := by
  have hlt : F.currWrapper - 1 < (s.wrappers.arrays F.w).length := by omega
  have hnext : F.called ++ [(s.wrappers.arrays F.w)[F.currWrapper - 1]] ++
      ((s.wrappers.arrays F.w).take (F.currWrapper - 1)).reverse = F.wrappers := by
    rw [← htodo, List.append_assoc]
    congr 1
    conv_rhs => rw [show F.currWrapper = F.currWrapper - 1 + 1 by omega,
      List.take_succ_eq_append_getElem hlt, List.reverse_append]
    rfl
  unfold State.callWrapper
  rw [h.firing]
  simp only [List.getElem?_eq_getElem hlt]
  have hupdate := h.update (fun G => { G with
    called := G.called ++ [(s.wrappers.arrays F.w)[F.currWrapper - 1]] }) fun _ => by simp
  refine @Around.push _ _ _ _ _ _ _ _ _ _ hupdate ?_ (.wrapping f false) rfl ⟨_, hupdate.firing, ?_⟩
  · exact {
      called := ⟨_, hnext⟩
      before := fun _ => ⟨hfresh.ran, hfresh.answer⟩
      within := fun hsome => by
        rw [show _ = F.registered from rfl, hfresh.registered] at hsome
        cases hsome
      handled := fun t ht => by
        rw [show _ = F.registered from rfl, hfresh.registered] at ht
        cases ht
      result := fun _ => hfresh.result.trans hfresh.answer.symm }
  · exact {
      registered := hfresh.registered
      ran := hfresh.ran
      returned := hfresh.returned
      answer := hfresh.answer
      result := hfresh.result
      called := by simp
      pos := hpos
      le := hlt.le
      todo := hnext
      allocated := hallocated
      own := hown }

/-! ### Steps -/

theorem Inv.fire (h : Inv s) (sorting : Sorting η π) (event : ε) : Inv (s.fire sorting event) := by
  have haround : ∀ F : Firing ε η ω π ρ, Around { s with
      firings := Function.update s.firings s.fired (some F), fired := s.fired + 1 } s.fired F := by
    intro F
    have hbefore : ∀ fr ∈ s.stack, fr.fire < s.fired := by
      intro fr hfr
      obtain ⟨G, hG⟩ := (h.frames fr hfr).exists_firing
      exact h.unused fr.fire G hG
    exact {
      registry := h.registry
      wrappers := h.wrappers
      failed := h.failed
      unused := by
        intro f G hG
        by_cases hf : f = s.fired
        · exact hf ▸ Nat.lt_succ_self _
        · simp only [Function.update_of_ne hf] at hG
          exact (h.unused f G hG).trans (Nat.lt_succ_self _)
      firing := Function.update_self _ _ _
      right := by
        intro f G hf hG
        simp only [Function.update_of_ne hf] at hG
        exact h.right f G hG
      frames := fun fr hfr hf => (h.frames fr hfr).congr (Function.update_of_ne hf _ _)
      own := fun fr hfr hf => absurd hf (hbefore fr hfr).ne
      below := fun fr hfr => (hbefore fr hfr).le
      nested := h.nested }
  have hglobal : s.wrappers.globalWrappers = s.wrappers.array none := rfl
  have hown : s.wrappers.wrappers event = s.wrappers.array (some event) := rfl
  unfold State.fire
  rw [hglobal, hown]
  cases ha : s.wrappers.array (some event) with
  | some a =>
    obtain ⟨harrays, hne⟩ := h.wrappers.arrays (some event) a ha
    refine (haround _).callWrapper ⟨rfl, rfl, rfl, rfl, rfl⟩ ?_ le_rfl ?_
      (h.wrappers.allocated (some event) a ha) fun _ => ⟨rfl, fun hg => ?_⟩
    · exact List.length_pos_of_ne_nil (harrays ▸ hne)
    · show [] ++ ((s.wrappers.arrays a).take (s.wrappers.arrays a).length).reverse =
        (s.wrappers.wanted (some event)).reverse ++ [].reverse
      rw [List.take_length, harrays]
      simp
    · cases h.wrappers.injective none (some event) a hg ha
  | none =>
    have hnone := h.wrappers.none_wanted (some event) ha
    cases hg : s.wrappers.array none with
    | some g =>
      obtain ⟨harrays, hne⟩ := h.wrappers.arrays none g hg
      refine (haround _).callWrapper ⟨rfl, rfl, rfl, rfl, rfl⟩ ?_ le_rfl ?_
        (h.wrappers.allocated none g hg) fun hno => by cases hno
      · exact List.length_pos_of_ne_nil (harrays ▸ hne)
      · show [] ++ ((s.wrappers.arrays g).take (s.wrappers.arrays g).length).reverse =
          (s.wrappers.wanted (some event)).reverse ++ (s.wrappers.wanted none).reverse
        rw [List.take_length, harrays, hnone]
        rfl
    | none =>
      refine (haround _).fireEvent sorting ⟨rfl, rfl, rfl, rfl, rfl⟩ ?_
      show [] = (s.wrappers.wanted (some event)).reverse ++ (s.wrappers.wanted none).reverse
      rw [hnone, h.wrappers.none_wanted none hg]
      rfl

theorem Inv.proceed [DecidableEq ω] (h : Inv s) (sorting : Sorting η π)
    (hcareful : Careful s .proceed) : Inv (s.proceed sorting) := by
  unfold State.proceed
  split
  · rename_i f rest hstack
    obtain ⟨F, hF, hwalking⟩ := h.frames (.wrapping f false) (by
      rw [hstack]
      exact List.mem_cons_self)
    have hpop := h.pop hstack hF
    have hrest := h.nested
    rw [hstack] at hrest
    -- the wrapper goes on when its continuation returns
    have haround : Around { s with stack := .wrapping f true :: rest } f F := { hpop with
      frames := by
        intro fr hfr hf
        rcases List.mem_cons.mp hfr with rfl | hfr
        · exact absurd rfl hf
        · exact hpop.frames fr hfr hf
      own := by
        intro fr hfr hf
        rcases List.mem_cons.mp hfr with rfl | hfr
        · exact ⟨rfl, hwalking.called⟩
        · exact hpop.own fr hfr hf
      below := by
        intro fr hfr
        rcases List.mem_cons.mp hfr with rfl | hfr
        · exact le_rfl
        · exact hpop.below fr hfr
      nested := List.pairwise_cons.mpr (List.pairwise_cons.mp hrest) }
    have hturn := haround.update (fun G => { G with currWrapper := G.currWrapper - 1 }) id
    have hfresh := hwalking.fresh
    have hnext : Fresh { F with currWrapper := F.currWrapper - 1 } :=
      ⟨hfresh.registered, hfresh.ran, hfresh.returned, hfresh.answer, hfresh.result⟩
    unfold State.c
    rw [haround.firing]
    simp only
    split
    · rename_i hzero
      have hall : F.called = F.wrappers := by
        have htodo := hwalking.todo
        rw [hzero, List.take_zero, List.reverse_nil, List.append_nil] at htodo
        exact htodo
      split
      · exact hturn.fireEvent sorting hnext hall
      · rename_i g hg
        have hg : s.wrappers.array none = some g := hg
        by_cases hw : F.w = g
        · rw [if_pos hw]
          exact hturn.fireEvent sorting hnext hall
        · rw [if_neg hw]
          have hreached : F.reached = false := by
            have hpos := hwalking.pos
            by_contra hyes
            exact hw (hcareful f F rest hstack hF (Bool.not_eq_false _ ▸ hyes) (by omega) g hg).symm
          obtain ⟨hnone, -⟩ := hwalking.own hreached
          obtain ⟨harrays, hne⟩ := h.wrappers.arrays none g hg
          refine (hturn.update (fun G => { G with
            w := g
            currWrapper := (s.wrappers.arrays g).length
            reached := true
            globalWrappers := s.wrappers.wanted none }) id).callWrapper
              ⟨hfresh.registered, hfresh.ran, hfresh.returned, hfresh.answer, hfresh.result⟩ ?_
              le_rfl ?_ (h.wrappers.allocated none g hg) fun hno => by cases hno
          · exact List.length_pos_of_ne_nil (harrays ▸ hne)
          · show F.called ++ ((s.wrappers.arrays g).take (s.wrappers.arrays g).length).reverse =
              F.eventWrappers.reverse ++ (s.wrappers.wanted none).reverse
            rw [List.take_length, harrays, hall, Firing.wrappers, hnone]
            simp
    · rename_i hpos
      exact hturn.callWrapper hnext (Nat.pos_of_ne_zero hpos) hwalking.le hwalking.todo
        hwalking.allocated hwalking.own
  · exact h

/-! ### Returning -/

omit [DecidableEq ε] in
theorem Right.toCalled (h : Right F) : Called F :=
  ⟨h.called, h.before, h.within, h.handled⟩

omit [DecidableEq ε] in
theorem Handling.finish {t : Table η π} {index : List η} {k : ℕ} {rest : List η}
    (h : Handling F t index k rest) {value : Option ρ} (hlast : value = none → rest = []) :
    Called { F with returned := F.returned ++ [value], answer := some value } where
  called := h.called ▸ List.prefix_rfl
  before hno := by
    rw [show _ = F.registered from rfl, h.registered] at hno
    cases hno
  within _ := h.called
  handled := by
    intro t' ht
    obtain rfl := Option.some.inj (h.registered.symm.trans ht)
    refine ⟨index, h.isIndex, (fun hno => by cases hno), fun hnone => ?_, fun v hv => ?_⟩
    · obtain rfl := Option.some.inj hnone
      have hend : k + 1 = index.length := by
        have hdrop := h.rest.symm.trans (hlast rfl)
        have := List.drop_eq_nil_iff.mp hdrop
        have := h.lt
        omega
      refine ⟨?_, ?_⟩
      · show F.ran = index
        rw [h.ran, hend, List.take_length]
      · show F.returned ++ [none] = List.replicate index.length none
        rw [h.returned, ← hend, List.replicate_succ']
    · obtain rfl := Option.some.inj hv
      refine ⟨k, h.lt, h.ran, ?_⟩
      show F.returned ++ [some v] = _
      rw [h.returned]

omit [DecidableEq ε] in
theorem Inv.ret (h : Inv s) (value : Option ρ) : Inv (s.ret value) := by
  unfold State.ret
  split
  · rename_i f rest hstack
    obtain ⟨F, hF, hcalled⟩ := h.frames (.wrapping f true) (by
      rw [hstack]
      exact List.mem_cons_self)
    exact (h.pop hstack hF).deliver (h.right f F hF).toCalled fun hnone => absurd hnone hcalled
  · rename_i f rest hstack
    obtain ⟨F, hF, t, index, k, hhandling⟩ := h.frames (.handling f []) (by
      rw [hstack]
      exact List.mem_cons_self)
    exact ((h.pop hstack hF).update (fun G => { G with
      returned := G.returned ++ [value], answer := some value }) id).deliver
        (hhandling.finish fun _ => rfl) fun _ => rfl
  · rename_i f x later rest hstack
    obtain ⟨F, hF, t, index, k, hhandling⟩ := h.frames (.handling f (x :: later)) (by
      rw [hstack]
      exact List.mem_cons_self)
    have hpop := h.pop hstack hF
    cases value with
    | some v =>
      exact (hpop.update (fun G => { G with
        returned := G.returned ++ [some v], answer := some (some v) }) id).deliver
          (hhandling.finish fun hno => by cases hno) fun _ => rfl
    | none =>
      have hdrop := hhandling.rest
      have hlt : k + 1 < index.length := by
        by_contra hge
        rw [List.drop_eq_nil_of_le (not_lt.mp hge)] at hdrop
        cases hdrop
      rw [List.drop_eq_getElem_cons hlt] at hdrop
      obtain ⟨rfl, rfl⟩ := List.cons.inj hdrop
      have hran : F.ran ++ [index[k + 1]] = index.take (k + 1 + 1) := by
        rw [hhandling.ran, List.take_succ_eq_append_getElem hlt]
      have hreturned : F.returned ++ [none] = List.replicate (k + 1) none := by
        rw [hhandling.returned, List.replicate_succ']
      have hupdate := hpop.update (fun G => { G with
        returned := G.returned ++ [none], ran := G.ran ++ [index[k + 1]] }) id
      refine @Around.push _ _ _ _ _ _ _ _ _ _ hupdate ?_
        (.handling f (index.drop (k + 1 + 1))) rfl
        ⟨_, hupdate.firing, t, index, k + 1, ?_⟩
      · exact {
          called := hhandling.called ▸ List.prefix_rfl
          before := fun hno => by
            rw [show _ = F.registered from rfl, hhandling.registered] at hno
            cases hno
          within := fun _ => hhandling.called
          handled := by
            intro t' ht
            obtain rfl := Option.some.inj (hhandling.registered.symm.trans ht)
            exact ⟨index, {
              isIndex := hhandling.isIndex
              running := fun _ => ⟨k + 1, hlt, hran, hreturned⟩
              nothing := fun hno => by
                rw [show _ = F.answer from rfl, hhandling.answer] at hno
                cases hno
              something := fun v hno => by
                rw [show _ = F.answer from rfl, hhandling.answer] at hno
                cases hno }⟩
          result := fun _ => hhandling.result.trans hhandling.answer.symm }
      · exact {
          registered := hhandling.registered
          isIndex := hhandling.isIndex
          lt := hlt
          ran := hran
          returned := hreturned
          rest := rfl
          answer := hhandling.answer
          result := hhandling.result
          called := hhandling.called }
  · exact h

/-! ## Runs -/

omit [DecidableEq ε] in
theorem Inv.wrappers_change (h : Inv s) (hw : w.Inv)
    (hwalking : ∀ f F, .wrapping f false ∈ s.stack → s.firings f = some F →
      Walking s.wrappers F → Walking w F) : Inv { s with wrappers := w } :=
  { h with
    wrappers := hw
    frames := by
      intro fr hfr
      have hframe := h.frames fr hfr
      cases fr with
      | wrapping f continued =>
        cases continued with
        | false =>
          obtain ⟨F, hF, hold⟩ := hframe
          exact ⟨F, hF, hwalking f F hfr hF hold⟩
        | true => exact hframe
      | handling f rest => exact hframe }

theorem Inv.step [Zero π] [DecidableEq ω] (h : Inv s) (sorting : Sorting η π)
    (a : Act ε η ω π ρ) (hcareful : Careful s a) : Inv (step sorting s a) := by
  unfold Dispatch.step
  rw [if_neg (Bool.eq_false_iff.mp h.failed)]
  cases a with
  | addHandler event handler priority =>
    exact { h with registry := h.registry.addHandler event handler priority }
  | removeHandler event handler =>
    exact { h with registry := h.registry.removeHandler event handler }
  | addWrapper event wrapper =>
    exact h.wrappers_change (h.wrappers.addWrapper event wrapper) fun _ _ _ _ hold =>
      hold.addWrapper event wrapper
  | removeWrapper event wrapper =>
    exact h.wrappers_change (h.wrappers.removeWrapper event wrapper) fun f F hfr hF hold =>
      hold.removeWrapper event wrapper (hcareful f F hfr hF)
  | fire event => exact h.fire sorting event
  | proceed => exact h.proceed sorting hcareful
  | ret value => exact h.ret value

/-- As long as no wrapper is removed that a call has still to come to, all calls are right. -/
theorem always_right [Zero π] [DecidableEq ω] (sorting : Sorting η π)
    (acts : List (Act ε η ω π ρ))
    (h : Machine.Guarded (step sorting) Careful (State.new : State ε η ω π ρ) acts) :
    Machine.Always (step sorting) State.Right (State.new : State ε η ω π ρ) acts :=
  (Machine.always_of_guarded (P := Inv) (fun _ a hinv hok => hinv.step sorting a hok)
    inv_new h).mono fun _ => Inv.state_right

end

section

/-- Handlers of the same priority in a fixed order. -/
def Sorting.inserted [DecidableEq η] [LinearOrder π] [Zero π] (order : KeyOrder η) :
    Sorting η π where
  index _ t := (order.keys t.keys).insertionSort fun a b => (t.get b).getD 0 ≤ (t.get a).getD 0
  isIndex _ t := by
    have hperm := List.perm_insertionSort
      (fun a b => (t.get b).getD 0 ≤ (t.get a).getD 0) (order.keys t.keys)
    refine ⟨hperm.nodup_iff.mpr (order.nodup _), fun h => ?_, ?_⟩
    · rw [hperm.mem_iff, order.mem_keys, Table.mem_keys, Option.isSome_iff_exists]
    · have : Std.Total fun a b => (t.get b).getD (0 : π) ≤ (t.get a).getD 0 :=
        ⟨fun a b => le_total _ _⟩
      have : IsTrans η fun a b => (t.get b).getD (0 : π) ≤ (t.get a).getD 0 :=
        ⟨fun a b c hab hbc => hbc.trans hab⟩
      refine (List.pairwise_insertionSort _ _).imp ?_
      intro a b hle p q hp hq
      rw [hp, hq] at hle
      exact hle

def byNumber : Sorting ℕ ℤ := .inserted (KeyOrder.inserted ℕ)

/-- A wrapper around a handler that returns something. -/
def wrappedCall : List (Act ℕ ℕ ℕ ℤ ℕ) :=
  [.addWrapper (some 0) 1, .addHandler 0 5 none, .fire 0, .proceed, .ret (some 7), .ret (some 7)]

theorem wrappedCall_guarded : Machine.Guarded (step byNumber) Careful State.new wrappedCall := by
  refine ⟨trivial, trivial, trivial, ?_, trivial, trivial, trivial⟩
  intro f F rest hstack hF hreached
  cases hstack
  cases hF
  cases hreached

theorem wrappedCall_always_right :
    Machine.Always (step byNumber) State.Right State.new wrappedCall :=
  always_right byNumber wrappedCall wrappedCall_guarded

/-- The second wrapper of an event fires another one, whose handler removes the first wrapper. -/
def removalWithin : List (Act ℕ ℕ ℕ ℤ ℕ) :=
  [.addWrapper (some 0) 1, .addWrapper (some 0) 2, .addHandler 9 5 none,
    .fire 0, .fire 9, .removeWrapper (some 0) 1, .ret none, .proceed]

theorem removalWithin_not_right :
    ¬ Machine.Always (step byNumber) State.Right State.new removalWithin := by
  intro h
  have hright := (Machine.always_iff.mp h removalWithin List.prefix_rfl).firings
  have hcalled : ((Machine.run (step byNumber) State.new removalWithin).firings 0).map
      (fun F => (F.called, F.wrappers)) = some ([2, 2], [2, 1]) := by
    decide +kernel
  obtain ⟨F, hF, heq⟩ := Option.map_eq_some_iff.mp hcalled
  have hprefix := (hright 0 F hF).called
  rw [(Prod.mk.inj heq).1, (Prod.mk.inj heq).2] at hprefix
  exact absurd hprefix (by decide)

end

end Prosody.Dispatch
