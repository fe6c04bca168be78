import Mathlib.Data.Char
import Mathlib.Data.Int.ConditionallyCompleteOrder
import Mathlib.Data.List.Lex
import Mathlib.Data.Prod.Lex
import Mathlib.Order.WithBot
import Prosody.Library.Ranking
import Prosody.Library.Runs
import Prosody.Library.Table
import Prosody.Util.Cache

/-! # Handlers of requests (`net/http/server.lua`, on top of `util/events.lua`) -/

namespace Prosody.Routing

/-- The name of an event, such as `GET example.com/path`. -/
abbrev Event := List Char

/-- The event ends in `/*`. -/
def isWildcardEvent (event : Event) : Bool :=
  decide (event.drop (event.length - 2) = "/*".toList)

/-- What the wildcard event has before its last character begins the other event. -/
def isWildcardMatch (wildcardEvent event : Event) : Bool :=
  decide (wildcardEvent.dropLast = event.take (wildcardEvent.length - 1))

variable {η π : Type*} [DecidableEq η] [LinearOrder π]

/-- How many slashes there are, whether the event is exact, and the priority, compared in this
order. -/
abbrev Score (π : Type*) := ℕ ×ₗ ℕ ×ₗ π

def score (event : Event) (priority : π) : Score π :=
  toLex (event.count '/', toLex (if isWildcardEvent event then 0 else 1, priority))

abbrev EventMap (η π : Type*) := Table Event (Table η π)

/-- What the language decides: the order of `pairs`, and that of `table.sort` among handlers of the
same score, which may be another each time. -/
structure Lua (η π : Type*) [LinearOrder π] where
  events : ℕ → KeyOrder Event
  handlers : ℕ → KeyOrder η
  sort : ℕ → (η → WithBot (Score π)) → List η → List η
  perm : ∀ n key l, (sort n key l).Perm l
  sorted : ∀ n key l, (sort n key l).Pairwise fun a b => key b ≤ key a

structure State (η π : Type*) where
  /-- The entries of `_handlers`, where no handlers stand for `false`. -/
  handlers : Event → Option (List η)
  eventMap : EventMap η π
  recentWildcardEvents : UtilCache.Cache Event Bool
  lookups : ℕ
  /-- Whether an error has been raised. -/
  failed : Bool
  /-- The handlers that have been added and not removed. -/
  registered : Event → Table η π

namespace State

/-- Evicting returns `nil`, which is no veto. -/
def onEvict : UtilCache.Policy Event Bool := .ask fun _ _ _ => false

def new : State η π where
  handlers _ := none
  eventMap := ∅
  recentWildcardEvents := UtilCache.empty 10000 onEvict
  lookups := 0
  failed := false
  registered _ := ∅

/-- The handlers of all events that match, each with its event. -/
def collect (lua : Lua η π) (s : State η π) (currEvent : Event) : List (Event × η) :=
  (((lua.events s.lookups).keys s.eventMap.keys).filter fun event =>
    decide (event = currEvent) || isWildcardEvent event && isWildcardMatch event currEvent).flatMap
      fun event =>
        (((s.eventMap.get event).map fun handlersSet =>
          ((lua.handlers s.lookups).keys handlersSet.keys).map (Prod.mk event)).getD [])

def scoreOf (m : Event → Table η π) (r : Event × η) : WithBot (Score π) :=
  ((m r.1).get r.2).map (score r.1)

/-- `matching_handlers_set`, in which the last score of a handler stays. -/
def matchingHandlersSet (m : Event → Table η π) (rs : List (Event × η)) :
    η → WithBot (Score π) :=
  rs.foldl (fun set r => Function.update set r.2 (scoreOf m r)) fun _ => ⊥

/-- The assignment to `recent_wildcard_events`, and to the entry of the event that it evicts. -/
def setRecent (s : State η π) (event : Event) : State η π :=
  let cache := { s.recentWildcardEvents with onEvict := onEvict }
  let evicted := if cache.data event = none ∧ cache.count = cache.size then
    (UtilCache.oldest cache).map Prod.fst else none
  let (reply, cache) := UtilCache.set cache event (some true)
  { s with
    handlers := fun event => if evicted = some event then none else s.handlers event
    recentWildcardEvents := cache
    failed :=
      match reply with
      | .error => true
      | _ => s.failed }

/-- The metamethod `__index`. -/
def index (lua : Lua η π) (s : State η π) (currEvent : Event) : List η × State η π :=
  if isWildcardEvent currEvent then ([], s)
  else
    let found := s.collect lua currEvent
    let set := matchingHandlersSet (fun event => (s.eventMap.get event).getD ∅) found
    let handlersArray := lua.sort s.lookups set (found.map Prod.snd)
    let s := { s with
      handlers := Function.update s.handlers currEvent (some handlersArray)
      lookups := s.lookups + 1 }
    (handlersArray, if s.eventMap.get currEvent = none then s.setRecent currEvent else s)

/-- An access to `_handlers`. -/
def getHandlers (lua : Lua η π) (s : State η π) (event : Event) : List η × State η π :=
  match s.handlers event with
  | some handlersArray => (handlersArray, s)
  | none => s.index lua event

/-- The assignment of `nil` to an entry of `_handlers`, with the metamethod `__newindex` if there is
none. -/
def assignNil (s : State η π) (currEvent : Event) : State η π :=
  match s.handlers currEvent with
  | some _ => { s with handlers := Function.update s.handlers currEvent none }
  | none =>
    { s with handlers := fun event =>
        if isWildcardEvent currEvent ∧ isWildcardMatch currEvent event then none
        else s.handlers event }

def addHandler [Zero π] (s : State η π) (event : Event) (handler : η) (priority : Option π) :
    State η π :=
  let map := (s.eventMap.get event).getD ∅
  assignNil { s with
    eventMap := s.eventMap.set event (some (map.set handler (some (priority.getD 0))))
    registered := Function.update s.registered event
      ((s.registered event).set handler (some (priority.getD 0))) } event

def removeHandler (s : State η π) (event : Event) (handler : η) : State η π :=
  match s.eventMap.get event with
  | none => s
  | some map =>
    let map := map.set handler none
    let s := assignNil { s with
      registered := Function.update s.registered event
        ((s.registered event).set handler none) } event
    { s with eventMap := s.eventMap.set event (if map.keys = ∅ then none else some map) }

end State

inductive Op (η π : Type*)
  | addHandler (event : Event) (handler : η) (priority : Option π)
  | removeHandler (event : Event) (handler : η)
  | fireEvent (event : Event)

def step [Zero π] (lua : Lua η π) (s : State η π) : Op η π → State η π
  | .addHandler event handler priority => s.addHandler event handler priority
  | .removeHandler event handler => s.removeHandler event handler
  | .fireEvent event => (s.getHandlers lua event).2

/-! ## What is meant -/

/-- The handler is registered for the event, or for a wildcard event that the event matches. -/
def Matching (m : Event → Table η π) (currEvent : Event) (r : Event × η) : Prop :=
  (r.1 = currEvent ∨ isWildcardEvent r.1 ∧ isWildcardMatch r.1 currEvent) ∧
    ((m r.1).get r.2).isSome

/-- Each registration that matches is there once, in the order of the scores. -/
def InOrder (m : Event → Table η π) (currEvent : Event) (handlers : List η) : Prop :=
  ∃ rs : List (Event × η), rs.Nodup ∧ (∀ r, r ∈ rs ↔ Matching m currEvent r) ∧
    Ranking.Ranked Prod.snd (State.scoreOf m) rs handlers

/-- The handlers that are run for a concrete event are those that would be run without a cache. -/
def Transparent (lua : Lua η π) (s : State η π) : Op η π → Prop
  | .fireEvent event => isWildcardEvent event = false →
      InOrder s.registered event (s.getHandlers lua event).1 ∧
        (s.getHandlers lua event).2.failed = false
  | _ => True

/-- Where a handler is registered twice for an event, no other handler belongs between. -/
def Separate (m : Event → Table η π) (currEvent : Event) : Prop :=
  ∀ a b c, Matching m currEvent a → Matching m currEvent b → Matching m currEvent c →
    a.2 = b.2 → a.1 ≠ b.1 → c.2 ≠ a.2 →
    ¬ (State.scoreOf m b ≤ State.scoreOf m c ∧ State.scoreOf m c ≤ State.scoreOf m a)

def Careful (s : State η π) : Op η π → Prop
  | .fireEvent event => isWildcardEvent event = false → Separate s.registered event
  | _ => True

/-! ## Lookups -/

/-- Whether handlers of the event are run for `currEvent`. -/
def Relevant (currEvent event : Event) : Prop :=
  event = currEvent ∨ isWildcardEvent event ∧ isWildcardMatch event currEvent

structure Inv (s : State η π) : Prop where
  map : ∀ event, (s.eventMap.get event).getD ∅ = s.registered event
  wildcard : ∀ event, isWildcardEvent event = true → s.handlers event = none
  cached : ∀ event handlers, s.handlers event = some handlers → InOrder s.registered event handlers
  recent : UtilCache.Wellformed s.recentWildcardEvents
  failed : s.failed = false

variable {lua : Lua η π} {s : State η π} {m : Event → Table η π} {currEvent event : Event}

theorem inv_new : Inv (State.new : State η π) where
  map event := by rw [State.new, Table.get_empty]; rfl
  wildcard _ _ := rfl
  cached _ _ h := by cases h
  recent := ⟨State.onEvict, _, UtilCache.holds_empty State.onEvict (by norm_num)⟩
  failed := rfl

theorem mem_collect (h : Inv s) (r : Event × η) :
    r ∈ s.collect lua currEvent ↔ Matching s.registered currEvent r := by
  obtain ⟨event, handler⟩ := r
  have hmap := h.map event
  unfold State.collect Matching
  rw [List.mem_flatMap]
  constructor
  · rintro ⟨event', hevent, hmem⟩
    obtain ⟨hkey, hrelevant⟩ := List.mem_filter.mp hevent
    obtain ⟨set, hset⟩ := (Table.mem_keys _ _).mp (((lua.events _).mem_keys _ _).mp hkey)
    rw [hset, Option.map_some, Option.getD_some, List.mem_map] at hmem
    obtain ⟨handler', hhandler, heq⟩ := hmem
    obtain ⟨rfl, rfl⟩ := Prod.mk.inj heq
    rw [hset, Option.getD_some] at hmap
    refine ⟨by simpa using hrelevant, ?_⟩
    rw [← hmap]
    exact Option.isSome_iff_exists.mpr
      ((Table.mem_keys _ _).mp (((lua.handlers _).mem_keys _ _).mp hhandler))
  · rintro ⟨hrelevant, hsome⟩
    obtain ⟨priority, hpriority⟩ := Option.isSome_iff_exists.mp hsome
    cases hset : s.eventMap.get event with
    | none =>
      rw [hset] at hmap
      rw [← hmap] at hpriority
      simp at hpriority
    | some set =>
      rw [hset, Option.getD_some] at hmap
      refine ⟨event, List.mem_filter.mpr
        ⟨((lua.events _).mem_keys _ _).mpr ((Table.mem_keys _ _).mpr ⟨set, hset⟩),
          by simpa using hrelevant⟩, ?_⟩
      rw [hset, Option.map_some, Option.getD_some]
      refine List.mem_map_of_mem (((lua.handlers _).mem_keys _ _).mpr
        ((Table.mem_keys _ _).mpr ⟨priority, ?_⟩))
      rw [hmap]
      exact hpriority

omit [DecidableEq η] in
theorem nodup_collect (lua : Lua η π) (s : State η π) (currEvent : Event) :
    (s.collect lua currEvent).Nodup := by
  have hfirst : ∀ event r, r ∈ ((s.eventMap.get event).map fun handlersSet =>
      ((lua.handlers s.lookups).keys handlersSet.keys).map (Prod.mk event)).getD [] →
      r.1 = event := by
    intro event r h
    cases hset : s.eventMap.get event with
    | none =>
      rw [hset] at h
      cases h
    | some set =>
      rw [hset, Option.map_some, Option.getD_some, List.mem_map] at h
      obtain ⟨handler, -, rfl⟩ := h
      rfl
  unfold State.collect
  refine List.nodup_flatMap.mpr ⟨fun event _ => ?_, ?_⟩
  · cases s.eventMap.get event with
    | none => exact List.nodup_nil
    | some set => exact ((lua.handlers _).nodup _).map fun _ _ h => (Prod.mk.inj h).2
  · refine (((lua.events _).nodup _).filter _).imp fun hne => ?_
    exact List.disjoint_left.mpr fun r hr hr' =>
      hne ((hfirst _ r hr).symm.trans (hfirst _ r hr'))

omit [LinearOrder π] in
theorem matchingHandlersSet_spec (m : Event → Table η π) {rs : List (Event × η)} {handler : η}
    (h : handler ∈ rs.map Prod.snd) :
    ∃ r ∈ rs, r.2 = handler ∧
      State.matchingHandlersSet m rs handler = State.scoreOf m r := by
  induction rs using List.reverseRecOn with
  | nil => cases h
  | append_singleton rs r ih =>
    have hlast : State.matchingHandlersSet m (rs ++ [r]) =
        Function.update (State.matchingHandlersSet m rs) r.2 (State.scoreOf m r) := by
      simp [State.matchingHandlersSet]
    rw [hlast]
    by_cases heq : handler = r.2
    · subst heq
      exact ⟨r, List.mem_append_right _ (List.mem_singleton_self r), rfl,
        Function.update_self _ _ _⟩
    · have hmem : handler ∈ rs.map Prod.snd := by
        rw [List.map_append, List.mem_append] at h
        rcases h with h | h
        · exact h
        · exact absurd (List.mem_singleton.mp h) heq
      obtain ⟨r', hr', hname, hscore⟩ := ih hmem
      exact ⟨r', List.mem_append_left _ hr', hname,
        (Function.update_of_ne heq _ _).trans hscore⟩

/-- The scores that are compared order handlers like those of all their registrations. -/
theorem Separate.before (h : Separate m currEvent) {rs : List (Event × η)}
    (hrs : ∀ r, r ∈ rs → Matching m currEvent r) {a b : Event × η} (ha : a ∈ rs) (hb : b ∈ rs)
    (hne : a.2 ≠ b.2) (hkey : State.matchingHandlersSet m rs b.2 ≤
      State.matchingHandlersSet m rs a.2) : State.scoreOf m b ≤ State.scoreOf m a := by
  obtain ⟨a', ha', hname, hscore⟩ := matchingHandlersSet_spec m (List.mem_map_of_mem ha)
  obtain ⟨b', hb', hname', hscore'⟩ := matchingHandlersSet_spec m (List.mem_map_of_mem hb)
  rw [hscore, hscore'] at hkey
  by_contra hlt
  rw [not_le] at hlt
  have hmatch := hrs a ha
  have hmatch' := hrs a' ha'
  -- a second registration of `b` would have one of `a` between itself and the first one
  have hsame : b'.1 = b.1 → b' = b := fun h => Prod.ext h hname'
  have hbetween : ∀ c, Matching m currEvent c → c.2 = a.2 →
      State.scoreOf m b' ≤ State.scoreOf m c → State.scoreOf m c ≤ State.scoreOf m b →
      b'.1 = b.1 := by
    intro c hc hcname hlow hhigh
    by_contra hdiff
    refine h b b' c (hrs b hb) (hrs b' hb') hc hname'.symm (Ne.symm hdiff) ?_ ⟨hlow, hhigh⟩
    rw [hcname]
    exact hne
  rcases le_total (State.scoreOf m b') (State.scoreOf m a) with hle | hle
  · rw [hsame (hbetween a hmatch rfl hle hlt.le)] at hle
    exact absurd hlt (not_lt.mpr hle)
  · -- then both registrations of `b` are above one of `a`, and one of them is below the other
    have hdiff : a'.1 ≠ a.1 := by
      intro heq
      rw [show a' = a from Prod.ext heq hname] at hkey
      rw [hsame (hbetween a hmatch rfl hkey hlt.le)] at hkey
      exact absurd hlt (not_lt.mpr hkey)
    exact h a' a b' hmatch' hmatch (hrs b' hb') hname hdiff (by
      rw [hname', hname]
      exact hne.symm) ⟨hle, hkey⟩

theorem inOrder_of_separate (h : Inv s) (hseparate : Separate s.registered currEvent) :
    InOrder s.registered currEvent (lua.sort s.lookups
      (State.matchingHandlersSet s.registered (s.collect lua currEvent))
      ((s.collect lua currEvent).map Prod.snd)) := by
  have hmem := fun r => @mem_collect _ _ _ _ lua _ currEvent h r
  obtain ⟨ranked, hperm, hranked⟩ := Ranking.exists_ranked
    (lua.sorted s.lookups (State.matchingHandlersSet s.registered (s.collect lua currEvent))
      ((s.collect lua currEvent).map Prod.snd))
    (lua.perm _ _ _) fun a ha b hb hne hkey =>
      hseparate.before (fun r hr => (hmem r).mp hr) ha hb hne hkey
  refine ⟨ranked, hperm.nodup_iff.mpr (nodup_collect lua s currEvent), fun r => ?_, hranked⟩
  rw [hperm.mem_iff, hmem]

/-! ## Steps -/

variable {handlers : List η}

theorem InOrder.congr {m' : Event → Table η π} (h : InOrder m currEvent handlers)
    (heq : ∀ event, Relevant currEvent event → m' event = m event) :
    InOrder m' currEvent handlers := by
  obtain ⟨rs, hnodup, hmem, hnames, hsorted⟩ := h
  have hsame : ∀ r, Matching m' currEvent r ↔ Matching m currEvent r := by
    intro r
    refine and_congr_right fun hrelevant => ?_
    rw [heq r.1 hrelevant]
  have hscore : ∀ r ∈ rs, State.scoreOf m' r = State.scoreOf m r := by
    intro r hr
    rw [State.scoreOf, heq r.1 ((hmem r).mp hr).1]
    rfl
  refine ⟨rs, hnodup, fun r => (hmem r).trans (hsame r).symm, hnames, ?_⟩
  refine hsorted.imp_of_mem fun ha hb hle => ?_
  rw [hscore _ ha, hscore _ hb]
  exact hle

omit [DecidableEq η] [LinearOrder π] in
theorem setRecent_handlers (s : State η π) (event : Event)
    (hget : (s.setRecent event).handlers currEvent = some handlers) :
    s.handlers currEvent = some handlers := by
  have hcases : ∀ evicted : Option Event, (if evicted = some currEvent then none
      else s.handlers currEvent) = some handlers → s.handlers currEvent = some handlers := by
    intro evicted hevicted
    by_cases heq : evicted = some currEvent
    · rw [if_pos heq] at hevicted
      cases hevicted
    · rwa [if_neg heq] at hevicted
  exact hcases _ hget

theorem reply_of_effect {before after : Event → Option Bool} {calls calls' : ℕ} {full : Prop}
    {oldest : Option (Event × Bool)} {event : Event} {v veto : Bool}
    {reply : UtilCache.Reply Event Bool}
    (h : UtilCache.SetEffect before calls full oldest event v veto reply after calls')
    (hveto : veto = false) : reply = .boolean true := by
  cases h with
  | fits => rfl
  | evicts => rfl
  | vetoed _ _ _ _ hyes =>
    rw [hveto] at hyes
    cases hyes

theorem Inv.setRecent (h : Inv s) (event : Event) : Inv (s.setRecent event) := by
  obtain ⟨heffect, hwell⟩ := UtilCache.set_effect h.recent event true false
  exact {
    map := h.map
    wildcard := by
      intro event' hwild
      cases hget : (s.setRecent event).handlers event' with
      | none => rfl
      | some handlers =>
        have hold := setRecent_handlers s event hget
        rw [h.wildcard event' hwild] at hold
        cases hold
    cached := fun event' handlers hget =>
      h.cached event' handlers (setRecent_handlers s event hget)
    recent := hwell
    failed := by
      have hreply : (UtilCache.set { s.recentWildcardEvents with onEvict := State.onEvict } event
          (some true)).1 = .boolean true := reply_of_effect heffect rfl
      simp only [State.setRecent, hreply]
      exact h.failed }

theorem Inv.getHandlers (h : Inv s) (hconcrete : isWildcardEvent event = false)
    (hseparate : Separate s.registered event) :
    InOrder s.registered event (s.getHandlers lua event).1 ∧
      Inv (s.getHandlers lua event).2 := by
  unfold State.getHandlers
  cases hcached : s.handlers event with
  | some handlers => exact ⟨h.cached event handlers hcached, h⟩
  | none =>
    have hmap : (fun event => (s.eventMap.get event).getD ∅) = s.registered := funext h.map
    have horder := @inOrder_of_separate _ _ _ _ lua _ _ h hseparate
    have hstored : ∀ n, Inv { s with
        handlers := Function.update s.handlers event (some (lua.sort s.lookups
          (State.matchingHandlersSet s.registered (s.collect lua event))
          ((s.collect lua event).map Prod.snd)))
        lookups := n } := fun n => { h with
      wildcard := by
        intro event' hwild
        have hne : event' ≠ event := by
          rintro rfl
          rw [hwild] at hconcrete
          cases hconcrete
        exact (Function.update_of_ne hne _ _).trans (h.wildcard event' hwild)
      cached := by
        intro event' handlers hget
        simp only at hget
        by_cases heq : event' = event
        · subst heq
          rw [Function.update_self] at hget
          exact Option.some.inj hget ▸ horder
        · rw [Function.update_of_ne heq] at hget
          exact h.cached event' handlers hget }
    unfold State.index
    rw [if_neg (Bool.eq_false_iff.mp hconcrete)]
    simp only [hmap]
    refine ⟨horder, ?_⟩
    split
    · exact (hstored _).setRecent event
    · exact hstored _

theorem getHandlers_of_wildcard (h : Inv s) (hwild : isWildcardEvent event = true) :
    (s.getHandlers lua event).2 = s := by
  unfold State.getHandlers State.index
  rw [h.wildcard event hwild, if_pos hwild]

omit [DecidableEq η] [LinearOrder π] in
/-- What stays in `_handlers` is not touched by the assignment. -/
theorem assignNil_handlers (hwildcard : ∀ event, isWildcardEvent event = true →
    s.handlers event = none) (hget : (s.assignNil event).handlers currEvent = some handlers) :
    s.handlers currEvent = some handlers ∧ ¬ Relevant currEvent event := by
  unfold State.assignNil at hget
  cases hcached : s.handlers event with
  | some cached =>
    rw [hcached] at hget
    simp only at hget
    have hne : currEvent ≠ event := by
      rintro rfl
      rw [Function.update_self] at hget
      cases hget
    rw [Function.update_of_ne hne] at hget
    refine ⟨hget, ?_⟩
    rintro (heq | ⟨hwild, -⟩)
    · exact hne heq.symm
    · rw [hwildcard event hwild] at hcached
      cases hcached
  | none =>
    rw [hcached] at hget
    simp only at hget
    split at hget
    · cases hget
    · rename_i hno
      refine ⟨hget, ?_⟩
      rintro (rfl | hmatch)
      · rw [hcached] at hget
        cases hget
      · exact hno hmatch

theorem Inv.change (h : Inv s) {t : Table η π} {eventMap : EventMap η π}
    (hmap : ∀ event', (eventMap.get event').getD ∅ = Function.update s.registered event t event') :
    Inv { State.assignNil { s with
      registered := Function.update s.registered event t } event with eventMap := eventMap } := by
  have hregistered : (State.assignNil { s with
      registered := Function.update s.registered event t } event).registered =
        Function.update s.registered event t := by
    unfold State.assignNil
    split <;> rfl
  have hrest : (State.assignNil { s with
      registered := Function.update s.registered event t } event).recentWildcardEvents =
        s.recentWildcardEvents ∧ (State.assignNil { s with
      registered := Function.update s.registered event t } event).failed = s.failed := by
    unfold State.assignNil
    split <;> exact ⟨rfl, rfl⟩
  have hkept := fun event' handlers (hget : (State.assignNil { s with
      registered := Function.update s.registered event t } event).handlers event' =
        some handlers) => assignNil_handlers (s := { s with
      registered := Function.update s.registered event t }) h.wildcard hget
  exact {
    map := fun event' => by
      simp only [hregistered]
      exact hmap event'
    wildcard := by
      intro event' hwild
      cases hget : (State.assignNil { s with
          registered := Function.update s.registered event t } event).handlers event' with
      | none => exact rfl
      | some handlers =>
        have hold := (hkept event' handlers hget).1
        rw [h.wildcard event' hwild] at hold
        cases hold
    cached := by
      intro event' handlers hget
      obtain ⟨hold, hirrelevant⟩ := hkept event' handlers hget
      simp only [hregistered]
      refine (h.cached event' handlers hold).congr fun event'' hrelevant => ?_
      have hne : event'' ≠ event := by
        rintro rfl
        exact hirrelevant hrelevant
      exact Function.update_of_ne hne _ _
    recent := by
      simp only [hrest.1]
      exact h.recent
    failed := hrest.2.trans h.failed }

omit [DecidableEq η] [LinearOrder π] in
theorem assignNil_eventMap (s : State η π) (eventMap : EventMap η π) (event : Event) :
    State.assignNil { s with eventMap := eventMap } event =
      { s.assignNil event with eventMap := eventMap } := by
  unfold State.assignNil
  cases s.handlers event with
  | none => rfl
  | some handlers => rfl

theorem Inv.addHandler [Zero π] (h : Inv s) (event : Event) (handler : η) (priority : Option π) :
    Inv (s.addHandler event handler priority) := by
  have hassign := assignNil_eventMap { s with
    registered := Function.update s.registered event
      ((s.registered event).set handler (some (priority.getD 0))) }
    (s.eventMap.set event (some (((s.eventMap.get event).getD ∅).set handler
      (some (priority.getD 0))))) event
  unfold State.addHandler
  rw [hassign]
  refine h.change fun event' => ?_
  by_cases heq : event' = event
  · subst heq
    rw [Table.get_set_self, Function.update_self, Option.getD_some, h.map event']
  · rw [Table.get_set_of_ne _ heq, Function.update_of_ne heq]
    exact h.map event'

omit [DecidableEq η] [LinearOrder π] in
theorem eventMap_assignNil (s : State η π) (event : Event) :
    (s.assignNil event).eventMap = s.eventMap := by
  unfold State.assignNil
  cases s.handlers event with
  | none => rfl
  | some handlers => rfl

theorem Inv.removeHandler (h : Inv s) (event : Event) (handler : η) :
    Inv (s.removeHandler event handler) := by
  have hmap := h.map event
  unfold State.removeHandler
  cases hset : s.eventMap.get event with
  | none => exact h
  | some map =>
    rw [hset, Option.getD_some] at hmap
    refine h.change fun event' => ?_
    by_cases heq : event' = event
    · subst heq
      rw [Table.get_set_self, Function.update_self, ← hmap]
      split
      · rename_i hempty
        exact Table.ext fun k =>
          (Table.get_empty k).trans (Table.get_of_keys_eq_empty hempty k).symm
      · rfl
    · rw [Table.get_set_of_ne _ heq, Function.update_of_ne heq, eventMap_assignNil]
      exact h.map event'

variable [Zero π]

theorem Inv.step (h : Inv s) (op : Op η π) (hcareful : Careful s op) :
    Inv (step lua s op) ∧ Transparent lua s op := by
  cases op with
  | addHandler event handler priority => exact ⟨h.addHandler event handler priority, trivial⟩
  | removeHandler event handler => exact ⟨h.removeHandler event handler, trivial⟩
  | fireEvent event =>
    cases hwild : isWildcardEvent event with
    | true =>
      refine ⟨?_, fun hconcrete => ?_⟩
      · rw [Routing.step, getHandlers_of_wildcard h hwild]
        exact h
      · rw [hwild] at hconcrete
        cases hconcrete
    | false =>
      obtain ⟨horder, hinv⟩ := @Inv.getHandlers _ _ _ _ lua _ _ h hwild (hcareful hwild)
      exact ⟨hinv, fun _ => ⟨horder, hinv.failed⟩⟩

/-- No run sees the cache. -/
theorem transparent_of_careful (lua : Lua η π) (ops : List (Op η π))
    (h : Machine.Guarded (step lua) Careful State.new ops) :
    Machine.Guarded (step lua) (Transparent lua) State.new ops :=
  Machine.Guarded.imp_of_invariant (P := Inv) (fun _ op hinv => hinv.step op) inv_new h

/-! ### Handlers of one event -/

def OwnEvent (eventOf : η → Event) : Op η π → Prop
  | .addHandler event handler _ => event = eventOf handler
  | _ => True

def Single (eventOf : η → Event) (s : State η π) : Prop :=
  ∀ event handler, ((s.registered event).get handler).isSome → event = eventOf handler

omit [DecidableEq η] [LinearOrder π] [Zero π] in
theorem registered_assignNil (s : State η π) (event : Event) :
    (s.assignNil event).registered = s.registered := by
  unfold State.assignNil
  cases s.handlers event with
  | none => rfl
  | some handlers => rfl

omit [Zero π] in
theorem registered_getHandlers (lua : Lua η π) (s : State η π) (event : Event) :
    (s.getHandlers lua event).2.registered = s.registered := by
  unfold State.getHandlers
  cases s.handlers event with
  | some handlers => rfl
  | none =>
    unfold State.index
    by_cases hwild : isWildcardEvent event = true
    · rw [if_pos hwild]
    · rw [if_neg hwild]
      dsimp only
      by_cases hadded : s.eventMap.get event = none
      · rw [if_pos hadded]
        rfl
      · rw [if_neg hadded]

omit [LinearOrder π] [Zero π] in
theorem Single.update {eventOf : η → Event} (h : Single eventOf s) {handler : η} {v : Option π}
    (hown : v.isSome → event = eventOf handler) {s' : State η π}
    (heq : s'.registered = Function.update s.registered event
      ((s.registered event).set handler v)) : Single eventOf s' := by
  intro event' handler' hsome
  rw [heq] at hsome
  by_cases hevent : event' = event
  · subst hevent
    rw [Function.update_self] at hsome
    by_cases hhandler : handler' = handler
    · subst hhandler
      rw [Table.get_set_self] at hsome
      exact hown hsome
    · rw [Table.get_set_of_ne _ hhandler] at hsome
      exact h event' handler' hsome
  · rw [Function.update_of_ne hevent] at hsome
    exact h event' handler' hsome

theorem Single.step {eventOf : η → Event} (h : Single eventOf s) (op : Op η π)
    (hown : OwnEvent eventOf op) : Single eventOf (step lua s op) := by
  cases op with
  | addHandler event handler priority =>
    exact h.update (fun _ => hown) (registered_assignNil _ _)
  | removeHandler event handler =>
    rw [Routing.step, State.removeHandler]
    cases s.eventMap.get event with
    | none => exact h
    | some map => exact h.update (fun hsome => by cases hsome) (registered_assignNil _ _)
  | fireEvent event =>
    intro event' handler hsome
    rw [Routing.step, registered_getHandlers] at hsome
    exact h event' handler hsome

theorem careful_of_ownEvent (lua : Lua η π) (eventOf : η → Event) {ops : List (Op η π)}
    (h : Machine.Guarded (step lua) (fun _ => OwnEvent eventOf) State.new ops) :
    Machine.Guarded (step lua) Careful State.new ops := by
  refine Machine.Guarded.imp_of_invariant (P := Single eventOf)
    (fun s op hsingle hown => ⟨hsingle.step op hown, ?_⟩) (fun _ _ hsome => ?_) h
  · cases op with
    | addHandler event handler priority => trivial
    | removeHandler event handler => trivial
    | fireEvent event =>
      intro _ a b c ha hb _ hsame hdiff
      rw [hsingle _ _ ha.2, hsingle _ _ hb.2, hsame] at hdiff
      exact absurd rfl hdiff
  · rw [State.new, Table.get_empty] at hsome
    cases hsome

section

/-- Tables are enumerated in ascending order, and handlers of the same score stay in theirs. -/
def Lua.ascending : Lua ℕ ℤ where
  events _ := KeyOrder.inserted Event
  handlers _ := KeyOrder.inserted ℕ
  sort _ key l := l.insertionSort fun a b => key b ≤ key a
  perm _ _ l := List.perm_insertionSort _ l
  sorted _ key l := by
    have : Std.Total fun a b => key b ≤ key a := ⟨fun a b => le_total _ _⟩
    have : IsTrans ℕ fun a b => key b ≤ key a := ⟨fun a b c hab hbc => hbc.trans hab⟩
    exact List.pairwise_insertionSort _ _

/-- A handler of an event that a wildcard event matches as well comes and goes. -/
def overriding : List (Op ℕ ℤ) :=
  [.addHandler "GET h/*".toList 1 none, .fireEvent "GET h/a".toList,
    .addHandler "GET h/a".toList 2 none, .fireEvent "GET h/a".toList,
    .removeHandler "GET h/a".toList 2, .fireEvent "GET h/a".toList]

theorem overriding_careful : Machine.Guarded (step Lua.ascending) Careful State.new overriding :=
  careful_of_ownEvent Lua.ascending
    (fun handler => if handler = 1 then "GET h/*".toList else "GET h/a".toList)
    ⟨rfl, trivial, rfl, trivial, trivial, trivial, trivial⟩

theorem overriding_transparent :
    Machine.Guarded (step Lua.ascending) (Transparent Lua.ascending) State.new overriding :=
  transparent_of_careful Lua.ascending overriding overriding_careful

/-- A handler of an event and of a wildcard event, with another one's wildcard event between. -/
def sharedHandler : List (Op ℕ ℤ) :=
  [.addHandler "GET h/*".toList 1 none, .addHandler "GET h/a/*".toList 2 none,
    .addHandler "GET h/a/b".toList 1 none, .fireEvent "GET h/a/b".toList]

theorem sharedHandler_not_transparent :
    ¬ Machine.Guarded (step Lua.ascending) (Transparent Lua.ascending) State.new sharedHandler := by
  rintro ⟨-, -, -, hfire, -⟩
  obtain ⟨rs, -, hmem, hnames, hsorted⟩ := (hfire (by decide +kernel)).1
  have hrun : (State.getHandlers Lua.ascending (Machine.run (step Lua.ascending) State.new
      (sharedHandler.take 3)) "GET h/a/b".toList).1 = [1, 1, 2] := by
    decide +kernel
  have hlow : ("GET h/*".toList, 1) ∈ rs :=
    (hmem _).mpr ⟨by decide +kernel, by decide +kernel⟩
  have hmiddle : ("GET h/a/*".toList, 2) ∈ rs :=
    (hmem _).mpr ⟨by decide +kernel, by decide +kernel⟩
  obtain ⟨r, r', r'', rfl⟩ := List.length_eq_three.mp
    ((List.length_map _).symm.trans (congrArg List.length (hnames.trans hrun)))
  obtain ⟨hr, hr', hr''⟩ : r.2 = 1 ∧ r'.2 = 1 ∧ r''.2 = 2 := by
    have hnames' := hnames.trans hrun
    simp only [List.map_cons, List.map_nil, List.cons.injEq] at hnames'
    exact ⟨hnames'.1, hnames'.2.1, hnames'.2.2.1⟩
  obtain ⟨hfirst, hrest⟩ := List.pairwise_cons.mp hsorted
  have hsecond := (List.pairwise_cons.mp hrest).1
  -- what stands last is the registration in the middle
  have hlast : r'' = ("GET h/a/*".toList, 2) := by
    simp only [List.mem_cons, List.not_mem_nil, or_false] at hmiddle
    rcases hmiddle with rfl | rfl | rfl
    · cases hr
    · cases hr'
    · rfl
  subst hlast
  simp only [List.mem_cons, List.not_mem_nil, or_false] at hlow
  rcases hlow with rfl | rfl | hlow
  · exact absurd (hfirst _ (List.mem_cons_of_mem _ (List.mem_singleton_self _)))
      (by decide +kernel)
  · exact absurd (hsecond _ (List.mem_singleton_self _)) (by decide +kernel)
  · exact absurd hlow (by decide)

end

end Prosody.Routing
