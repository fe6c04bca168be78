import Mathlib.Algebra.Ring.Int.Defs
import Mathlib.Data.List.TakeWhile
import Mathlib.Order.Lattice
import Prosody.Library.Runs
import Prosody.Library.Table

/-! # Filters of sessions (`util/filters.lua`) -/

namespace Prosody.Filters

variable {κ φ π δ : Type*}

/-- A list of filters, which also maps them to their priorities. -/
structure FilterList (φ π : Type*) where
  callbacks : List φ
  priority : Table φ π
  /-- The filters in the order of their addition, of which the code keeps no record. -/
  added : List φ

namespace FilterList

variable [DecidableEq φ]

def new : FilterList φ π := ⟨[], ∅, []⟩

variable [LinearOrder π]

/-- `filter_list[filter] < priority` -/
def outranked (l : FilterList φ π) (priority : π) (filter : φ) : Bool :=
  (l.priority.get filter).any (· < priority)

/-- The filter is inserted in front of the first one that it outranks. -/
def insert (l : FilterList φ π) (callback : φ) (priority : π) : FilterList φ π where
  callbacks := l.callbacks.takeWhile (!l.outranked priority ·) ++
    callback :: l.callbacks.dropWhile (!l.outranked priority ·)
  priority := l.priority.set callback (some priority)
  added := l.added ++ [callback]

omit [LinearOrder π] in
def remove (l : FilterList φ π) (callback : φ) : FilterList φ π where
  callbacks := l.callbacks.erase callback
  priority := l.priority.set callback none
  added := l.added.filter (· ≠ callback)

/-- Priorities do not increase, filters of one priority are in the order of their addition, and none
is there twice. -/
structure Ordered (l : FilterList φ π) : Prop where
  mem : ∀ f, (l.priority.get f).isSome ↔ f ∈ l.callbacks
  nodup : l.callbacks.Nodup
  added : ∀ f, f ∈ l.added ↔ f ∈ l.callbacks
  sorted : l.callbacks.Pairwise fun f g =>
    ∀ p q, l.priority.get f = some p → l.priority.get g = some q → q ≤ p
  stable : ∀ p, (l.callbacks.filter fun f => l.priority.get f = some p) =
    l.added.filter fun f => l.priority.get f = some p

theorem ordered_new : Ordered (new : FilterList φ π) where
  mem f := by simp [new]
  nodup := List.nodup_nil
  added f := Iff.rfl
  sorted := List.Pairwise.nil
  stable p := rfl

variable {l : FilterList φ π}

/-- Behind the place of insertion all filters are outranked, and in front of it none is. -/
theorem Ordered.split (h : Ordered l) (p : π) :
    (∀ f ∈ l.callbacks.takeWhile (!l.outranked p ·), ∀ q, l.priority.get f = some q → p ≤ q) ∧
      ∀ f ∈ l.callbacks.dropWhile (!l.outranked p ·), ∀ q, l.priority.get f = some q → q < p := by
  constructor
  · intro f hf q hq
    have hkept := List.mem_takeWhile_imp hf
    rw [outranked, hq, Option.any_some] at hkept
    simpa using hkept
  · intro f hf q hq
    cases hdrop : l.callbacks.dropWhile (!l.outranked p ·) with
    | nil =>
      rw [hdrop] at hf
      exact absurd hf List.not_mem_nil
    | cons g rest =>
      have hhead : ¬ (!l.outranked p g) = true := by
        have hnot := List.head_dropWhile_not (!l.outranked p ·) (l := l.callbacks)
          (by simp [hdrop])
        simpa [hdrop] using hnot
      have houtranked : ∃ r, l.priority.get g = some r ∧ r < p := by
        simpa [outranked, Option.any_eq_true] using hhead
      obtain ⟨r, hr, hlt⟩ := houtranked
      have hsorted := h.sorted.sublist (List.dropWhile_sublist (!l.outranked p ·))
      rw [hdrop] at hf hsorted
      rcases List.mem_cons.mp hf with rfl | hrest
      · rw [Option.some.inj (hq.symm.trans hr)]
        exact hlt
      · exact lt_of_le_of_lt ((List.pairwise_cons.mp hsorted).1 f hrest r q hr hq) hlt

theorem Ordered.insert (h : Ordered l) {callback : φ}
    (hnew : l.priority.get callback = none) (p : π) : Ordered (l.insert callback p) := by
  obtain ⟨hfront, hback⟩ := h.split p
  have hsplit := List.takeWhile_append_dropWhile (p := (!l.outranked p ·)) (l := l.callbacks)
  unfold FilterList.insert
  generalize l.callbacks.takeWhile (!l.outranked p ·) = front at hfront hsplit ⊢
  generalize l.callbacks.dropWhile (!l.outranked p ·) = back at hback hsplit ⊢
  have hfresh : callback ∉ l.callbacks := fun hmem => by
    have hsome := (h.mem callback).mpr hmem
    rw [hnew] at hsome
    cases hsome
  have hget : ∀ f ∈ l.callbacks,
      (l.priority.set callback (some p)).get f = l.priority.get f := fun f hf => by
    rw [Table.get_set, if_neg fun heq : f = callback => hfresh (heq ▸ hf)]
  have hmemfront : ∀ f ∈ front, f ∈ l.callbacks := fun f hf =>
    hsplit ▸ List.mem_append_left back hf
  have hmemback : ∀ f ∈ back, f ∈ l.callbacks := fun f hf =>
    hsplit ▸ List.mem_append_right front hf
  have hperm : (front ++ callback :: back).Perm (callback :: l.callbacks) :=
    hsplit ▸ List.perm_middle
  constructor
  · intro f
    rw [hperm.mem_iff, List.mem_cons, Table.get_set]
    split_ifs with heq
    · simp [heq]
    · rw [h.mem]
      simp [heq]
  · exact hperm.nodup_iff.mpr (List.nodup_cons.mpr ⟨hfresh, h.nodup⟩)
  · intro f
    rw [hperm.mem_iff, List.mem_cons, List.mem_append, List.mem_singleton, h.added, or_comm]
  · have hsorted := h.sorted
    rw [← hsplit, List.pairwise_append] at hsorted
    obtain ⟨hsfront, hsback, hacross⟩ := hsorted
    rw [List.pairwise_append, List.pairwise_cons]
    refine ⟨hsfront.imp_of_mem fun hf hg hle => ?_, ⟨fun g hg q r hq hr => ?_,
      hsback.imp_of_mem fun hf hg hle => ?_⟩, fun f hf g hg => ?_⟩
    · rwa [hget _ (hmemfront _ hf), hget _ (hmemfront _ hg)]
    · rw [Table.get_set_self] at hq
      rw [hget g (hmemback g hg)] at hr
      exact Option.some.inj hq ▸ (hback g hg r hr).le
    · rwa [hget _ (hmemback _ hf), hget _ (hmemback _ hg)]
    · rw [hget f (hmemfront f hf)]
      rcases List.mem_cons.mp hg with rfl | hg
      · intro q r hq hr
        rw [Table.get_set_self] at hr
        exact Option.some.inj hr ▸ hfront f hf q hq
      · rw [hget g (hmemback g hg)]
        exact hacross f hf g hg
  · intro q
    have hsame : ∀ fs : List φ, (∀ f ∈ fs, f ∈ l.callbacks) →
        (fs.filter fun f => (l.priority.set callback (some p)).get f = some q) =
          fs.filter fun f => l.priority.get f = some q := fun fs hfs =>
      List.filter_congr fun f hf => by rw [hget f (hfs f hf)]
    have hstable := h.stable q
    rw [← hsplit, List.filter_append] at hstable
    rw [List.filter_append, List.filter_append, hsame front hmemfront,
      hsame l.added fun f => (h.added f).mp]
    by_cases hq : q = p
    · have hnone : (back.filter fun f => l.priority.get f = some q) = [] :=
        List.filter_eq_nil_iff.mpr fun f hf hget => by
          have hlt := hback f hf q (of_decide_eq_true hget)
          rw [hq] at hlt
          exact lt_irrefl p hlt
      have hself : (l.priority.set callback (some p)).get callback = some q := by
        rw [hq, Table.get_set_self]
      rw [hnone, List.append_nil] at hstable
      simp only [List.filter_cons, hself, decide_true, if_true, List.filter_nil,
        hsame back hmemback, hnone, hstable]
    · have hself : ((l.priority.set callback (some p)).get callback = some q) = False :=
        eq_false fun hget => by
          rw [Table.get_set_self, Option.some_inj] at hget
          exact hq hget.symm
      simp only [List.filter_cons, hself, decide_false, Bool.false_eq_true, if_false,
        List.filter_nil, List.append_nil, hsame back hmemback, hstable]

theorem Ordered.remove (h : Ordered l) (callback : φ) : Ordered (l.remove callback) := by
  have herase : l.callbacks.erase callback = l.callbacks.filter (· ≠ callback) := by
    rw [h.nodup.erase_eq_filter]
    exact List.filter_congr fun f _ => by by_cases hf : f = callback <;> simp [hf]
  have hsub : (l.callbacks.erase callback).Sublist l.callbacks := List.erase_sublist
  have hget : ∀ f, f ≠ callback → (l.priority.set callback none).get f = l.priority.get f :=
    fun f hf => by rw [Table.get_set, if_neg hf]
  have hne : ∀ {f}, f ∈ l.callbacks.erase callback → f ≠ callback := fun hf heq =>
    h.nodup.not_mem_erase (heq ▸ hf)
  constructor
  · intro f
    by_cases hf : f = callback
    · rw [hf]
      simp [FilterList.remove, h.nodup.not_mem_erase]
    · rw [FilterList.remove, hget f hf, h.mem, h.nodup.mem_erase_iff]
      simp [hf]
  · exact h.nodup.sublist hsub
  · intro f
    rw [FilterList.remove, herase, List.mem_filter, List.mem_filter, h.added]
  · refine (h.sorted.sublist hsub).imp_of_mem fun hf hg hle => ?_
    rw [FilterList.remove, hget _ (hne hf), hget _ (hne hg)]
    exact hle
  · intro q
    have hboth : ∀ fs : List φ,
        ((fs.filter (· ≠ callback)).filter fun f => (l.priority.set callback none).get f = some q) =
          (fs.filter fun f => l.priority.get f = some q).filter (· ≠ callback) := fun fs => by
      rw [List.filter_filter, List.filter_filter]
      refine List.filter_congr fun f _ => ?_
      by_cases hf : f = callback
      · simp [hf]
      · simp [hf, hget f hf]
    rw [FilterList.remove, herase, hboth, hboth, h.stable q]

end FilterList

/-! ## Calls of filters -/

/-- A call of `session.filter` whose filters are being applied: the loop up to `bound`, in which
`filter_list[i]` is running. -/
structure Frame (κ φ δ : Type*) where
  type : κ
  bound : ℕ
  i : ℕ
  data : δ
  /-- The list at the start of the loop, and the filters that have been called. -/
  start : List φ
  applied : List φ

inductive Ended
  | finished
  | stopped
  /-- There was no filter to call any more. -/
  | raised
  deriving DecidableEq

/-- A call of `session.filter` that is over. -/
structure Call (φ : Type*) where
  start : List φ
  applied : List φ
  ended : Ended

structure Session (κ φ π δ : Type*) where
  filters : Table κ (FilterList φ π)
  stack : List (Frame κ φ δ)
  calls : List (Call φ)

/-- What the program does, within filters that are running or outside of them. -/
inductive Act (κ φ π δ : Type*)
  | addFilter (type : κ) (callback : φ) (priority : Option π)
  | removeFilter (type : κ) (callback : φ)
  | filter (type : κ) (data : δ)
  /-- The filter that is running returns data, or `nil`. -/
  | ret (result : Option δ)

namespace Session

variable [DecidableEq κ] [DecidableEq φ]

def new : Session κ φ π δ := ⟨∅, [], []⟩

def filterList (s : Session κ φ π δ) (type : κ) : FilterList φ π :=
  (s.filters.get type).getD .new

/-- The loop goes on. An error ends all calls. -/
def next (s : Session κ φ π δ) (frame : Frame κ φ δ) (rest : List (Frame κ φ δ)) :
    Session κ φ π δ :=
  if frame.i < frame.bound then
    match (s.filterList frame.type).callbacks[frame.i]? with
    | none =>
      { s with stack := [], calls := s.calls ++ [⟨frame.start, frame.applied, .raised⟩] }
    | some callback =>
      { s with stack :=
        { frame with i := frame.i + 1, applied := frame.applied ++ [callback] } :: rest }
  else
    { s with stack := rest, calls := s.calls ++ [⟨frame.start, frame.applied, .finished⟩] }

def filter (s : Session κ φ π δ) (type : κ) (data : δ) : Session κ φ π δ :=
  match s.filters.get type with
  | none => s
  | some l => s.next ⟨type, l.callbacks.length, 0, data, l.callbacks, []⟩ s.stack

def ret (s : Session κ φ π δ) (result : Option δ) : Session κ φ π δ :=
  match s.stack, result with
  | [], _ => s
  | frame :: rest, some data => s.next { frame with data := data } rest
  | frame :: rest, none =>
    { s with stack := rest, calls := s.calls ++ [⟨frame.start, frame.applied, .stopped⟩] }

def removeFilter (s : Session κ φ π δ) (type : κ) (callback : φ) : Session κ φ π δ :=
  match s.filters.get type with
  | none => s
  | some l =>
    if (l.priority.get callback).isSome ∧ callback ∈ l.callbacks then
      { s with filters := s.filters.set type (some (l.remove callback)) }
    else s

variable [LinearOrder π] [Zero π]

def addFilter (s : Session κ φ π δ) (type : κ) (callback : φ) (priority : Option π) :
    Session κ φ π δ :=
  let l := s.filterList type
  if (l.priority.get callback).isSome then s
  else { s with filters := s.filters.set type (some (l.insert callback (priority.getD 0))) }

def step (s : Session κ φ π δ) : Act κ φ π δ → Session κ φ π δ
  | .addFilter type callback priority => s.addFilter type callback priority
  | .removeFilter type callback => s.removeFilter type callback
  | .filter type data => s.filter type data
  | .ret result => s.ret result

def Sorted (s : Session κ φ π δ) : Prop := ∀ type l, s.filters.get type = some l → l.Ordered

/-- Filters have been applied in the order of the list, none twice. -/
structure InOrder (start applied : List φ) : Prop where
  order : applied <+: start
  once : applied.Nodup

def Quiet (s : Session κ φ π δ) : Prop := ∀ call ∈ s.calls, call.ended ≠ .raised

/-- The filters that are in the list when it is called for are applied in their order, to the end or
until one of them returns `nil`, and there is no error. -/
structure Right (s : Session κ φ π δ) : Prop where
  running : ∀ frame ∈ s.stack, InOrder frame.start frame.applied
  past : ∀ call ∈ s.calls, InOrder call.start call.applied ∧ call.ended ≠ .raised ∧
    (call.ended = .finished → call.applied = call.start)

/-- When a filter returns data, the one that stood behind it at the start of the loop stands
there. -/
def InPlace (s : Session κ φ π δ) : Act κ φ π δ → Prop
  | .ret (some _) => ∀ frame ∈ s.stack.head?, frame.i < frame.bound →
      (s.filterList frame.type).callbacks[frame.i]? = frame.start[frame.i]?
  | _ => True

/-- When a filter returns data, some filter stands there. -/
def Reached (s : Session κ φ π δ) : Act κ φ π δ → Prop
  | .ret (some _) => ∀ frame ∈ s.stack.head?, frame.i < frame.bound →
      frame.i < (s.filterList frame.type).callbacks.length
  | _ => True

/-! ## The lists -/

omit [Zero π] in
theorem sorted_new : Sorted (new : Session κ φ π δ) := fun type l h => by
  rw [new, Table.get_empty] at h
  cases h

variable {s : Session κ φ π δ}

omit [Zero π] in
theorem Sorted.filterList (h : Sorted s) (type : κ) : (s.filterList type).Ordered := by
  unfold Session.filterList
  cases hget : s.filters.get type with
  | none => exact FilterList.ordered_new
  | some l => exact h type l hget

omit [Zero π] in
theorem Sorted.set (h : Sorted s) (type : κ) {l : FilterList φ π}
    (hl : l.Ordered) : Sorted { s with filters := s.filters.set type (some l) } := by
  intro type' l' hget
  rw [Table.get_set] at hget
  split_ifs at hget
  · exact Option.some.inj hget ▸ hl
  · exact h type' l' hget

omit [DecidableEq φ] [LinearOrder π] [Zero π] in
theorem next_filters (s : Session κ φ π δ) (frame : Frame κ φ δ) (rest : List (Frame κ φ δ)) :
    (s.next frame rest).filters = s.filters := by
  unfold next
  split
  · split <;> rfl
  · rfl

theorem Sorted.step (h : Sorted s) (act : Act κ φ π δ) : Sorted (s.step act) := by
  cases act with
  | addFilter type callback priority =>
    dsimp only [Session.step, Session.addFilter]
    split_ifs with hthere
    · exact h
    · exact h.set type ((h.filterList type).insert
        (Option.not_isSome_iff_eq_none.mp hthere) (priority.getD 0))
  | removeFilter type callback =>
    dsimp only [Session.step, Session.removeFilter]
    split
    · exact h
    · rename_i l hget
      split_ifs
      · exact h.set type ((h type l hget).remove callback)
      · exact h
  | filter type data =>
    dsimp only [Session.step, Session.filter]
    split
    · exact h
    · intro type' l' hget
      rw [next_filters] at hget
      exact h type' l' hget
  | ret result =>
    dsimp only [Session.step, Session.ret]
    split
    · exact h
    · intro type' l' hget
      rw [next_filters] at hget
      exact h type' l' hget
    · exact h

/-! ## The loops -/

/-- A loop that has come as far as it has been called for. -/
structure Frame.Fits (frame : Frame κ φ δ) : Prop where
  bound : frame.bound = frame.start.length
  applied : frame.applied = frame.start.take frame.i
  nodup : frame.start.Nodup

structure Sound (s : Session κ φ π δ) : Prop where
  sorted : Sorted s
  running : ∀ frame ∈ s.stack, Frame.Fits frame
  past : ∀ call ∈ s.calls, InOrder call.start call.applied ∧ call.ended ≠ .raised ∧
    (call.ended = .finished → call.applied = call.start)

variable {frame : Frame κ φ δ}

omit [DecidableEq κ] [DecidableEq φ] in
theorem Frame.Fits.inOrder (h : Frame.Fits frame) : InOrder frame.start frame.applied := by
  have horder : frame.applied <+: frame.start := h.applied ▸ List.take_prefix _ _
  exact ⟨horder, h.nodup.sublist horder.sublist⟩

omit [Zero π] in
theorem Sound.right (h : Sound s) : Right s :=
  ⟨fun frame hframe => (h.running frame hframe).inOrder, h.past⟩

omit [Zero π] in
theorem sound_new : Sound (new : Session κ φ π δ) :=
  ⟨sorted_new, fun _ h => absurd h List.not_mem_nil, fun _ h => absurd h List.not_mem_nil⟩

omit [DecidableEq κ] [DecidableEq φ] [LinearOrder π] [Zero π] in
theorem quiet_new : Quiet (new : Session κ φ π δ) := fun _ h => absurd h List.not_mem_nil

omit [DecidableEq φ] in
theorem past_concat {calls : List (Call φ)} {call : Call φ}
    (h : ∀ call ∈ calls, InOrder call.start call.applied ∧ call.ended ≠ .raised ∧
      (call.ended = .finished → call.applied = call.start))
    (horder : InOrder call.start call.applied) (hquiet : call.ended ≠ .raised)
    (hall : call.ended = .finished → call.applied = call.start) :
    ∀ c ∈ calls ++ [call], InOrder c.start c.applied ∧ c.ended ≠ .raised ∧
      (c.ended = .finished → c.applied = c.start) := by
  intro c hc
  rcases List.mem_append.mp hc with hc | hc
  · exact h c hc
  · rw [List.mem_singleton.mp hc]
    exact ⟨horder, hquiet, hall⟩

omit [Zero π] in
theorem Sound.next (h : Sound s)
    {rest : List (Frame κ φ δ)} (hfits : Frame.Fits frame) (hrest : ∀ f ∈ rest, Frame.Fits f)
    (hplace : frame.i < frame.bound →
      (s.filterList frame.type).callbacks[frame.i]? = frame.start[frame.i]?) :
    Sound (s.next frame rest) := by
  have hsorted : Sorted (s.next frame rest) := fun type l hget => by
    rw [next_filters] at hget
    exact h.sorted type l hget
  unfold Session.next at hsorted ⊢
  split_ifs at hsorted ⊢ with hlt
  · have hi : frame.i < frame.start.length := hfits.bound ▸ hlt
    have hget : (s.filterList frame.type).callbacks[frame.i]? = some frame.start[frame.i] := by
      rw [hplace hlt, List.getElem?_eq_getElem hi]
    rw [hget] at hsorted ⊢
    refine ⟨hsorted, fun f hf => ?_, h.past⟩
    rcases List.mem_cons.mp hf with rfl | hf
    · refine ⟨hfits.bound, ?_, hfits.nodup⟩
      rw [List.take_succ_eq_append_getElem hi, ← hfits.applied]
    · exact hrest f hf
  · refine ⟨hsorted, hrest, past_concat h.past hfits.inOrder (fun h => by cases h) fun _ => ?_⟩
    change frame.applied = frame.start
    rw [hfits.applied, List.take_of_length_le (by rw [← hfits.bound]; omega)]

theorem Sound.step (h : Sound s) {act : Act κ φ π δ}
    (hplace : InPlace s act) : Sound (s.step act) := by
  have hsorted := h.sorted.step act
  cases act with
  | addFilter type callback priority =>
    dsimp only [Session.step, Session.addFilter] at hsorted ⊢
    split_ifs at hsorted ⊢
    · exact h
    · exact ⟨hsorted, h.running, h.past⟩
  | removeFilter type callback =>
    dsimp only [Session.step, Session.removeFilter] at hsorted ⊢
    cases hget : s.filters.get type with
    | none => exact h
    | some l =>
      rw [hget] at hsorted
      dsimp only at hsorted ⊢
      split_ifs at hsorted ⊢
      · exact ⟨hsorted, h.running, h.past⟩
      · exact h
  | filter type data =>
    dsimp only [Session.step, Session.filter]
    cases hget : s.filters.get type with
    | none => exact h
    | some l =>
      refine h.next ⟨rfl, rfl, (h.sorted type l hget).nodup⟩ h.running fun _ => ?_
      rw [Session.filterList, hget]
      rfl
  | ret result =>
    dsimp only [Session.step, Session.ret]
    cases hstack : s.stack with
    | nil => exact h
    | cons frame rest =>
      have hrunning := h.running
      rw [hstack] at hrunning
      have hfits := hrunning frame List.mem_cons_self
      have hrest : ∀ f ∈ rest, Frame.Fits f := fun f hf =>
        hrunning f (List.mem_cons_of_mem frame hf)
      cases result with
      | none =>
        exact ⟨h.sorted, hrest,
          past_concat h.past hfits.inOrder (fun h => by cases h) fun hno => by cases hno⟩
      | some data =>
        have hfits' : Frame.Fits { frame with data := data } :=
          ⟨hfits.bound, hfits.applied, hfits.nodup⟩
        refine h.next hfits' hrest ?_
        exact hplace frame (by rw [hstack]; rfl)

/-- A filter that does not stand where it stood is missed. -/
theorem Sound.inPlace (h : Sound s) {act : Act κ φ π δ}
    (hright : Right (s.step act)) : InPlace s act := by
  cases act with
  | addFilter type callback priority => trivial
  | removeFilter type callback => trivial
  | filter type data => trivial
  | ret result =>
    cases result with
    | none => trivial
    | some data =>
      intro frame hhead hlt
      obtain ⟨rest, hstack⟩ := List.head?_eq_some_iff.mp hhead
      have hfits := h.running frame (by rw [hstack]; exact List.mem_cons_self)
      have hi : frame.i < frame.start.length := hfits.bound ▸ hlt
      dsimp only [Session.step, Session.ret] at hright
      rw [hstack] at hright
      dsimp only [Session.next] at hright
      rw [if_pos hlt] at hright
      cases hget : (s.filterList frame.type).callbacks[frame.i]? with
      | none =>
        rw [hget] at hright
        exact absurd rfl (hright.past _ (List.mem_append_right _ List.mem_cons_self)).2.1
      | some callback =>
        rw [hget] at hright
        have horder := (hright.running _ List.mem_cons_self).order
        dsimp only at horder
        have hlength : frame.applied.length = frame.i := by
          rw [hfits.applied, List.length_take_of_le hi.le]
        obtain ⟨behind, hstart⟩ := horder
        change some callback = frame.start[frame.i]?
        rw [← hstart, ← hlength]
        simp

omit [DecidableEq φ] [Zero π] [LinearOrder π] in
theorem Quiet.next (h : Quiet s) {rest : List (Frame κ φ δ)} : Quiet (s.next frame rest) ↔
      (frame.i < frame.bound → frame.i < (s.filterList frame.type).callbacks.length) := by
  unfold Session.next
  split_ifs with hlt
  · cases hget : (s.filterList frame.type).callbacks[frame.i]? with
    | none =>
      have hout := List.getElem?_eq_none_iff.mp hget
      refine iff_of_false (fun hquiet => ?_) fun hin => absurd (hin hlt) hout.not_gt
      exact hquiet _ (List.mem_append_right _ List.mem_cons_self) rfl
    | some callback =>
      have hin := (List.getElem?_eq_some_iff.mp hget).1
      exact iff_of_true h fun _ => hin
  · refine iff_of_true (fun call hcall => ?_) fun hlt' => absurd hlt' hlt
    rcases List.mem_append.mp hcall with hcall | hcall
    · exact h call hcall
    · rw [List.mem_singleton.mp hcall]
      exact fun h => by cases h

theorem Quiet.step_iff (h : Quiet s) (act : Act κ φ π δ) : Quiet (s.step act) ↔ Reached s act := by
  cases act with
  | addFilter type callback priority =>
    refine iff_of_true ?_ trivial
    dsimp only [Session.step, Session.addFilter]
    split_ifs <;> exact h
  | removeFilter type callback =>
    refine iff_of_true ?_ trivial
    dsimp only [Session.step, Session.removeFilter]
    split
    · exact h
    · split_ifs <;> exact h
  | filter type data =>
    refine iff_of_true ?_ trivial
    dsimp only [Session.step, Session.filter]
    cases hget : s.filters.get type with
    | none => exact h
    | some l =>
      refine h.next.mpr fun hlt => ?_
      rw [Session.filterList, hget]
      exact hlt
  | ret result =>
    dsimp only [Session.step, Session.ret, Reached]
    cases s.stack with
    | nil => cases result <;> simpa using h
    | cons frame rest =>
      cases result with
      | none =>
        refine iff_of_true (fun call hcall => ?_) trivial
        rcases List.mem_append.mp hcall with hcall | hcall
        · exact h call hcall
        · rw [List.mem_singleton.mp hcall]
          exact fun h => by cases h
      | some data =>
        refine h.next.trans ?_
        simp

/-- Filter lists are in order at all times. Filters are applied as they should be exactly if
whenever one returns data, the next one still stands where it stood, and there is no error exactly
if some filter stands there. -/
theorem filters_right_iff (acts : List (Act κ φ π δ)) :
    Machine.Always step Sorted new acts ∧
      (Machine.Always step Right new acts ↔ Machine.Guarded step InPlace new acts) ∧
      (Machine.Always step Quiet new acts ↔ Machine.Guarded step Reached new acts) :=
  ⟨Machine.always_of_invariant (fun _ act h => h.step act) sorted_new acts,
    Machine.always_iff_guarded (fun _ h => h.right) (fun _ _ h => h.step)
      (fun _ _ h => h.inPlace) sound_new acts,
    Machine.always_iff_guarded (fun _ h => h) (fun _ act h => (h.step_iff act).mpr)
      (fun _ act h => (h.step_iff act).mp) quiet_new acts⟩

/-- The first of two filters removes itself. -/
def leavesItself : List (Act ℕ ℕ ℤ ℕ) :=
  [.addFilter 0 1 none, .addFilter 0 2 none, .filter 0 7, .removeFilter 0 1, .ret (some 7)]

theorem leavesItself_not_right :
    ¬ Machine.Always step Right (new : Session ℕ ℕ ℤ ℕ) leavesItself := by
  intro h
  have hright := Machine.always_iff.mp h leavesItself List.prefix_rfl
  have hcalls : ((Machine.run step (new : Session ℕ ℕ ℤ ℕ) leavesItself).calls.map
      Call.ended) = [.raised] := by
    decide
  obtain ⟨call, hcall, hended⟩ := List.mem_map.mp (hcalls ▸ List.mem_cons_self)
  exact (hright.past call hcall).2.1 hended

end Session

end Prosody.Filters
