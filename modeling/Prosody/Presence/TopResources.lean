import Prosody.Presence.Resources

/-! # Top resources are those of the highest priority

Whatever changes the availability of a session of a user also brings `top_resources` up to date,
and every available session has a priority to compare. -/

namespace Prosody.Resources

open SessionManager (SessionId ConflictPolicy)
open SessionManager.Registry (get_incremented)

/-! ## The loop -/

/-- The priority with which a session is available. -/
def rank (objects : Table SessionId Session) (id : SessionId) : Option Int :=
  (objects.get id).bind fun session => if session.presence then session.priority else none

/-- What the loop of `select_top_resources` has picked among the sessions it has seen. -/
structure Picked (rank : SessionId → Option Int) (seen : List SessionId)
    (best : Int × List SessionId) : Prop where
  nonneg : 0 ≤ best.1
  highest : ∀ id ∈ seen, ∀ p, rank id = some p → p ≤ best.1
  picked : best.2 = seen.filter fun id => rank id = some best.1
  attained : best.2 = [] → best.1 = 0

theorem Picked.start (rank : SessionId → Option Int) : Picked rank [] (0, []) :=
  ⟨le_refl 0, fun _ h => absurd h List.not_mem_nil, rfl, fun _ => rfl⟩

variable {best : Int × List SessionId} {seen : List SessionId}

variable {id : SessionId}

theorem Picked.pass {rank : SessionId → Option Int} (h : Picked rank seen best)
    (hlow : ∀ p, rank id = some p → p < best.1) : Picked rank (seen ++ [id]) best where
  nonneg := h.nonneg
  highest id' hid' p hp := by
    rcases List.mem_append.mp hid' with hseen | hlast
    · exact h.highest id' hseen p hp
    · obtain rfl := List.mem_singleton.mp hlast
      exact (hlow p hp).le
  picked := by
    have hout : rank id ≠ some best.1 := fun heq => lt_irrefl _ (hlow _ heq)
    rw [List.filter_append, ← h.picked]
    simp [hout]
  attained := h.attained

theorem Picked.tie {rank : SessionId → Option Int} (h : Picked rank seen best)
    (hid : rank id = some best.1) : Picked rank (seen ++ [id]) (best.1, best.2 ++ [id]) where
  nonneg := h.nonneg
  highest id' hid' p hp := by
    rcases List.mem_append.mp hid' with hseen | hlast
    · exact h.highest id' hseen p hp
    · obtain rfl := List.mem_singleton.mp hlast
      rw [hid] at hp
      exact (Option.some.inj hp).ge
  picked := by
    rw [List.filter_append, ← h.picked]
    simp [hid]
  attained hnil := absurd hnil (List.append_ne_nil_of_right_ne_nil _ (List.cons_ne_nil _ _))

theorem Picked.surpass {rank : SessionId → Option Int} (h : Picked rank seen best) {p : Int}
    (hid : rank id = some p) (hp : best.1 < p) : Picked rank (seen ++ [id]) (p, [id]) where
  nonneg := h.nonneg.trans hp.le
  highest id' hid' q hq := by
    rcases List.mem_append.mp hid' with hseen | hlast
    · exact (h.highest id' hseen q hq).trans hp.le
    · obtain rfl := List.mem_singleton.mp hlast
      rw [hid] at hq
      exact (Option.some.inj hq).ge
  picked := by
    have hnone : (seen.filter fun id => rank id = some p) = [] := by
      refine List.filter_eq_nil_iff.mpr fun id' hseen heq => ?_
      exact absurd (h.highest id' hseen p (of_decide_eq_true heq)) (not_le.mpr hp)
    rw [List.filter_append, hnone]
    simp [hid]
  attained hnil := absurd hnil (List.cons_ne_nil _ _)

/-- Every session that has sent presence has a priority. -/
def Ordered (objects : Table SessionId Session) : Prop :=
  ∀ id session, objects.get id = some session → session.presence = session.priority.isSome

variable {objects : Table SessionId Session}

theorem selectStep_eq (hordered : Ordered objects) (best : Int × List SessionId) (id : SessionId) :
    selectStep objects best id = some ( match rank objects id with
      | none => best
      | some p =>
        if best.1 < p then (p, [id]) else if p = best.1 then (p, best.2 ++ [id]) else best) := by
  unfold selectStep rank
  cases hget : objects.get id with
  | none => rfl
  | some session =>
    obtain ⟨resource, presence, priority, carbons⟩ := session
    obtain rfl : presence = priority.isSome := hordered id _ hget
    cases priority with
    | none => rfl
    | some p =>
      simp only [Option.isSome_some, if_true, Option.bind_some]
      split
      · rfl
      · split <;> rfl

theorem selectStep_picked (hordered : Ordered objects) (h : Picked (rank objects) seen best)
    (id : SessionId) : ∃ best', selectStep objects best id = some best' ∧
      Picked (rank objects) (seen ++ [id]) best' := by
  refine ⟨_, selectStep_eq hordered best id, ?_⟩
  cases hrank : rank objects id with
  | none => exact h.pass fun p hp => by rw [hrank] at hp; cases hp
  | some p =>
    dsimp only
    split
    · exact h.surpass hrank ‹_›
    · split
      · rename_i heq
        rw [heq] at hrank ⊢
        exact h.tie hrank
      · refine h.pass fun q hq => ?_
        rw [hrank] at hq
        obtain rfl := Option.some.inj hq
        omega

theorem selectLoop_picked (hordered : Ordered objects) (ids : List SessionId)
    (h : Picked (rank objects) seen best) : ∃ best', selectLoop objects ids best = some best' ∧
      Picked (rank objects) (seen ++ ids) best' := by
  induction ids generalizing seen best with
  | nil => exact ⟨best, rfl, by rwa [List.append_nil]⟩
  | cons id ids ih =>
    obtain ⟨next, hnext, hpicked⟩ := selectStep_picked hordered h id
    obtain ⟨best', hbest', hlast⟩ := ih hpicked
    refine ⟨best', ?_, by rwa [List.append_assoc] at hlast⟩
    rw [selectLoop, hnext]
    exact hbest'

/-! ## What the list should be -/

namespace State

/-- A session of the user that is available with the given priority. -/
def Available (s : State) (user : User) (id : SessionId) (p : Int) : Prop :=
  (∃ resource, user.sessions.get resource = some id) ∧
    ∃ session, s.objects.get id = some session ∧ session.presence = true ∧
      session.priority = some p

/-- The list is missing when nobody is available with a non-negative priority, and otherwise has
the available sessions of the highest priority. -/
structure Top (s : State) (user : User) : Prop where
  idle : user.topResources = none → ∀ id p, s.Available user id p → p < 0
  top : ∀ ids, user.topResources = some ids → ids.Nodup ∧ ∃ m, 0 ≤ m ∧
    (∃ id, s.Available user id m) ∧ (∀ id p, s.Available user id p → p ≤ m) ∧
    ∀ id, id ∈ ids ↔ s.Available user id m

theorem available_iff (s : State) (user : User) (id : SessionId) (p : Int) :
    s.Available user id p ↔
      (∃ resource, user.sessions.get resource = some id) ∧ rank s.objects id = some p := by
  refine and_congr_right fun _ => ?_
  unfold rank
  rw [Option.bind_eq_some_iff]
  refine exists_congr fun session => and_congr_right fun _ => ?_
  cases session.presence <;> simp

theorem Top.congr {s s' : State} {user user' : User} (h : s.Top user)
    (hlist : user'.topResources = user.topResources)
    (havailable : ∀ id p, s'.Available user' id p ↔ s.Available user id p) : s'.Top user' := by
  refine ⟨fun hnone id p hid => ?_, fun ids hids => ?_⟩
  · exact h.idle (hlist ▸ hnone) id p ((havailable id p).mp hid)
  · simpa only [havailable] using h.top ids (hlist ▸ hids)

/-- The sessions of the user are in use, each under its own resource. -/
def Held (s : State) : Prop :=
  ∀ user, s.user = some user → ∀ resource id, user.sessions.get resource = some id →
    ∃ session, s.objects.get id = some session ∧ session.resource = resource

theorem mem_listed (ord : KeyOrder String) (user : User) (id : SessionId) :
    id ∈ user.listed ord ↔ ∃ resource, user.sessions.get resource = some id := by
  unfold User.listed
  rw [List.mem_filterMap]
  constructor
  · rintro ⟨resource, -, hget⟩
    exact ⟨resource, hget⟩
  · rintro ⟨resource, hget⟩
    exact ⟨resource, (ord.mem_keys _ _).mpr ((Table.mem_keys _ _).mpr ⟨id, hget⟩), hget⟩

theorem Held.listed_nodup {s : State} {user : User} (h : s.Held) (huser : s.user = some user)
    (ord : KeyOrder String) : (user.listed ord).Nodup := by
  refine (ord.nodup _).filterMap fun resource resource' id hget hget' => ?_
  obtain ⟨session, hsession, hresource⟩ := h user huser resource id hget
  obtain ⟨session', hsession', hresource'⟩ := h user huser resource' id hget'
  rw [hsession] at hsession'
  obtain rfl := Option.some.inj hsession'
  exact hresource.symm.trans hresource'

theorem Top.of_picked {s : State} {user : User} {listed : List SessionId}
    {best : Int × List SessionId} (h : Picked (rank s.objects) listed best)
    (hnodup : listed.Nodup)
    (hmem : ∀ id, id ∈ listed ↔ ∃ resource, user.sessions.get resource = some id)
    (hlist : user.topResources = if best.2 = [] then none else some best.2) : s.Top user := by
  have havailable : ∀ id p, s.Available user id p ↔ id ∈ listed ∧ rank s.objects id = some p := by
    intro id p
    rw [available_iff, hmem]
  have hpick : ∀ id, id ∈ best.2 ↔ s.Available user id best.1 := by
    intro id
    rw [havailable, h.picked, List.mem_filter, decide_eq_true_iff]
  have hle : ∀ id p, s.Available user id p → p ≤ best.1 := by
    intro id p hid
    obtain ⟨hlisted, hrank⟩ := (havailable id p).mp hid
    exact h.highest id hlisted p hrank
  constructor
  · intro hnone id p hid
    have hnil : best.2 = [] := by
      by_contra hne
      rw [hlist, if_neg hne] at hnone
      cases hnone
    have hzero := hle id p hid
    rw [h.attained hnil] at hzero
    refine lt_of_le_of_ne hzero ?_
    rintro rfl
    have hin : id ∈ best.2 := (hpick id).mpr (by rwa [h.attained hnil])
    rw [hnil] at hin
    cases hin
  · intro ids hids
    by_cases hnil : best.2 = []
    · rw [hlist, if_pos hnil] at hids
      cases hids
    · rw [hlist, if_neg hnil] at hids
      obtain rfl := Option.some.inj hids
      refine ⟨?_, best.1, h.nonneg, ?_, hle, hpick⟩
      · rw [h.picked]
        exact hnodup.filter _
      · obtain ⟨id, hid⟩ := List.exists_mem_of_ne_nil _ hnil
        exact ⟨id, (hpick id).mp hid⟩

/-! ## The operations -/

/-- The same sessions, whatever `top_resources` is. -/
def SameSessions (s s' : State) : Prop :=
  s'.user.map User.sessions = s.user.map User.sessions

/-- `top_resources` is what it should be, if the user has an entry at all. -/
def Fresh (s : State) : Prop :=
  ∀ user, s.user = some user → s.Top user

theorem recalc_spec (ord : KeyOrder String) {s : State} (hheld : s.Held)
    (hordered : Ordered s.objects) :
    ∃ s', s.recalc ord = some s' ∧ s'.objects = s.objects ∧ s.SameSessions s' ∧ s'.Fresh := by
  obtain ⟨objects, user⟩ := s
  cases user with
  | none => exact ⟨_, rfl, rfl, rfl, fun user huser => by cases huser⟩
  | some user =>
    obtain ⟨best, hbest, hpicked⟩ := selectLoop_picked hordered (user.listed ord)
      (Picked.start (rank objects))
    rw [List.nil_append] at hpicked
    let user' : User :=
      { user with topResources := if best.2 = [] then none else some best.2 }
    have hrecalc : recalcResourceMap ord objects user = some user' := by
      simp only [recalcResourceMap, selectTopResources, hbest, Option.map_some]
      rfl
    refine ⟨⟨objects, some user'⟩, by simp [recalc, hrecalc], rfl, rfl, ?_⟩
    intro user'' huser
    obtain rfl := Option.some.inj huser
    exact Top.of_picked hpicked (hheld.listed_nodup rfl ord) (mem_listed ord user) rfl

end State

/-- The session after a presence. -/
def Session.after (session : Session) (available : Bool) (priority : Int) : Session :=
  { session with
    presence := available
    priority := if available then some priority else none }

theorem Session.after_eq_self {session : Session} {available : Bool} {priority : Int}
    (hordered : session.presence = session.priority.isSome)
    (h : session.priority = if available then some priority else none) :
    session.after available priority = session := by
  obtain ⟨resource, presence, priority', carbons⟩ := session
  dsimp only at hordered h
  subst hordered
  subst h
  cases available <;> rfl

theorem Ordered.set (h : Ordered objects) (id : SessionId) {session : Option Session}
    (hsession : ∀ x, session = some x → x.presence = x.priority.isSome) :
    Ordered (objects.set id session) := by
  intro id' session' hget
  rw [Table.get_set] at hget
  split at hget
  · exact hsession session' hget
  · exact h id' session' hget

namespace State

variable {session : Session} {id : SessionId} {s : State}

theorem Held.setSession (h : s.Held) {session' : Session}
    (hget : s.objects.get id = some session) (hresource : session'.resource = session.resource) :
    (s.setSession id (some session')).Held := by
  intro user huser resource id' hid'
  obtain ⟨x, hx, hxresource⟩ := h user huser resource id' hid'
  by_cases heq : id' = id
  · subst heq
    rw [hget] at hx
    obtain rfl := Option.some.inj hx
    exact ⟨session', Table.get_set_self _ _ _, hresource.trans hxresource⟩
  · exact ⟨x, (Table.get_set_of_ne _ heq _).trans hx, hxresource⟩

theorem handleNormalPresence_spec (ord : KeyOrder String) (hheld : s.Held)
    (hordered : Ordered s.objects)
    (hget : s.objects.get id = some session) (available : Bool) (priority : Int)
    (hfresh : (session.priority = if available then some priority else none) → s.Fresh) :
    ∃ s', s.handleNormalPresence ord id available priority = some s' ∧
      s'.objects = s.objects.set id (some (session.after available priority)) ∧
      s.SameSessions s' ∧ s'.Fresh := by
  have hpresence := hordered id session hget
  by_cases hsame : session.priority = if available then some priority else none
  · have hself : s.objects.set id (some session) = s.objects := by
      rw [← hget, Table.set_get_self]
    have hafter := Session.after_eq_self hpresence hsame
    refine ⟨s, ?_, by rw [hafter, hself], rfl, hfresh hsame⟩
    unfold handleNormalPresence
    rw [hget]
    cases available with
    | true =>
      simp only [if_true] at hsame ⊢
      rw [if_pos hsame]
      rw [hsame] at hpresence
      have hkeep : { session with presence := true } = session := by
        rw [← show session.presence = true from hpresence]
      rw [hkeep, setSession, hself]
    | false =>
      simp only [Bool.false_eq_true, if_false] at hsame ⊢
      rw [hsame] at hpresence ⊢
      have hkeep : { session with presence := false } = session := by
        rw [← show session.presence = false from hpresence]
      simp only [Option.isSome_none, Bool.false_eq_true, if_false]
      rw [← hsame, hkeep, setSession, hself]
  · have hafter : s.handleNormalPresence ord id available priority =
        (s.setSession id (some (session.after available priority))).recalc ord := by
      unfold handleNormalPresence
      rw [hget]
      cases available with
      | true =>
        simp only [if_true] at hsame ⊢
        rw [if_neg hsame]
        rfl
      | false =>
        simp only [Bool.false_eq_true, if_false] at hsame ⊢
        rw [if_pos (Option.isSome_iff_ne_none.mpr hsame)]
        rfl
    rw [hafter]
    refine recalc_spec ord (hheld.setSession hget rfl) (hordered.set id ?_)
    rintro _ ⟨⟩
    cases available <;> rfl

/-- The sessions in use are those of the user, and the list is up to date. -/
structure Consistent (s : State) : Prop where
  held : s.Held
  absent : s.user = none → ∀ id, s.objects.get id = none
  listed : ∀ user, s.user = some user → ∀ id session, s.objects.get id = some session →
    user.sessions.get session.resource = some id
  ordered : Ordered s.objects
  fresh : s.Fresh

theorem consistent_empty : empty.Consistent where
  held user huser := by cases huser
  absent _ _ := Table.get_empty _
  listed user huser := by cases huser
  ordered id session hget := by cases hget
  fresh user huser := by cases huser

variable {s' : State}

theorem SameSessions.some (h : s.SameSessions s') {user' : User} (huser' : s'.user = some user') :
    ∃ user, s.user = some user ∧ user.sessions = user'.sessions := by
  unfold SameSessions at h
  rw [huser'] at h
  obtain ⟨user, huser, hsessions⟩ := Option.map_eq_some_iff.mp h.symm
  exact ⟨user, huser, hsessions⟩

theorem SameSessions.none (h : s.SameSessions s') (hnone : s'.user = none) : s.user = none := by
  unfold SameSessions at h
  rw [hnone] at h
  exact Option.map_eq_none_iff.mp h.symm

theorem Held.same (h : s.Held) (hsame : s.SameSessions s')
    (hobjects : s'.objects = s.objects) : s'.Held := by
  intro user' huser' resource id hid
  obtain ⟨user, huser, hsessions⟩ := hsame.some huser'
  rw [hobjects]
  exact h user huser resource id (hsessions ▸ hid)

theorem Consistent.update (h : s.Consistent)
    {session' : Session} (hget : s.objects.get id = some session)
    (hresource : session'.resource = session.resource)
    (hordered : session'.presence = session'.priority.isSome)
    (hobjects : s'.objects = s.objects.set id (some session')) (hsame : s.SameSessions s')
    (hfresh : s'.Fresh) : s'.Consistent where
  held := (h.held.setSession hget hresource).same hsame hobjects
  absent hnone id' := by
    have hno := h.absent (hsame.none hnone) id
    rw [hget] at hno
    cases hno
  listed user' huser' id' session'' hget' := by
    obtain ⟨user, huser, hsessions⟩ := hsame.some huser'
    rw [hobjects, Table.get_set] at hget'
    rw [← hsessions]
    split at hget'
    · rename_i heq
      subst heq
      obtain rfl := Option.some.inj hget'
      rw [hresource]
      exact h.listed user huser _ session hget
    · exact h.listed user huser id' session'' hget'
  ordered := by
    rw [hobjects]
    refine h.ordered.set id ?_
    rintro _ ⟨⟩
    exact hordered
  fresh := hfresh

theorem Consistent.handleNormalPresence (h : s.Consistent) (ord : KeyOrder String)
    (id : SessionId) (available : Bool) (priority : Int) :
    ∃ s', s.handleNormalPresence ord id available priority = some s' ∧ s'.Consistent ∧
      s'.objects = s.objects.set id
        ((s.objects.get id).map fun session => session.after available priority) := by
  cases hget : s.objects.get id with
  | none =>
    refine ⟨s, by simp [State.handleNormalPresence, hget], h, ?_⟩
    rw [Option.map_none, ← hget, Table.set_get_self]
  | some session =>
    obtain ⟨s', hs', hobjects, hsame, hfresh⟩ :=
      handleNormalPresence_spec ord h.held h.ordered hget available priority fun _ => h.fresh
    have hresource : (session.after available priority).resource = session.resource := rfl
    refine ⟨s', hs', h.update hget hresource ?_ hobjects hsame hfresh, hobjects⟩
    cases available <;> rfl

theorem Fresh.setSession (h : s.Fresh) {session : Option Session}
    (hout : ∀ user, s.user = some user → ∀ resource, user.sessions.get resource ≠ some id) :
    (s.setSession id session).Fresh := by
  intro user huser
  refine (h user huser).congr rfl fun id' p => ?_
  refine and_congr_right fun hin => ?_
  obtain ⟨resource, hresource⟩ := hin
  have hne : id' ≠ id := fun heq => hout user huser resource (heq ▸ hresource)
  rw [State.setSession, Table.get_set_of_ne _ hne]

variable {resource : String} {user : User}

theorem without_user {user' : User} (h : (s.without user resource).user = some user') :
    user' = { user with sessions := user.sessions.set resource none } := by
  unfold without at h
  dsimp only at h
  split at h
  · cases h
  · exact (Option.some.inj h).symm

theorem get_without {user' : User}
    (h : (s.without user resource).user = some user') (resource' : String) :
    user'.sessions.get resource' =
      if resource' = resource then none else user.sessions.get resource' := by
  rw [without_user h, Table.get_set]

theorem get_of_without_none (h : (s.without user resource).user = none) {resource' : String}
    (hne : resource' ≠ resource) : user.sessions.get resource' = none := by
  unfold without at h
  dsimp only at h
  split at h
  · rename_i hkeys
    rw [← Table.get_set_of_ne user.sessions hne none]
    exact Table.get_of_keys_eq_empty hkeys resource'
  · cases h

theorem Consistent.gone (h : s.Consistent) (huser : s.user = some user)
    (hget : s.objects.get id = some session) {session' : Option Session}
    (hobjects : s'.objects = s.objects.set id session')
    (hsame : (s.without user session.resource).SameSessions s') (hfresh : s'.Fresh) :
    (s'.setSession id none).Consistent := by
  have hold := h.listed user huser id session hget
  have hget' : ∀ user', s'.user = some user' → ∀ resource, user'.sessions.get resource =
      if resource = session.resource then none else user.sessions.get resource := by
    intro user' huser' resource
    obtain ⟨middle, hmiddle, hsessions⟩ := hsame.some huser'
    rw [← hsessions]
    exact get_without hmiddle resource
  have hobject : ∀ id', (s'.setSession id none).objects.get id' =
      if id' = id then none else s.objects.get id' := by
    intro id'
    rw [setSession, hobjects, Table.set_set, Table.get_set]
  have hout : ∀ user', s'.user = some user' → ∀ resource,
      user'.sessions.get resource ≠ some id := by
    intro user' huser' resource hid
    rw [hget' user' huser'] at hid
    split at hid
    · cases hid
    · rename_i hne
      obtain ⟨x, hx, hxresource⟩ := h.held user huser resource id hid
      rw [hget] at hx
      obtain rfl := Option.some.inj hx
      exact hne hxresource.symm
  refine ⟨?_, ?_, ?_, ?_, hfresh.setSession hout⟩
  · intro user' huser' resource id' hid'
    have hne : id' ≠ id := fun heq => hout user' huser' resource (heq ▸ hid')
    rw [hget' user' huser'] at hid'
    split at hid'
    · cases hid'
    · rw [hobject, if_neg hne]
      exact h.held user huser resource id' hid'
  · intro hnone id'
    have hempty := hsame.none hnone
    rw [hobject]
    split
    · rfl
    · rename_i hne
      cases hx : s.objects.get id' with
      | none => rfl
      | some x =>
        have hlisted := h.listed user huser id' x hx
        by_cases hresource : x.resource = session.resource
        · rw [hresource, hold] at hlisted
          exact absurd (Option.some.inj hlisted).symm hne
        · rw [get_of_without_none hempty hresource] at hlisted
          cases hlisted
  · intro user' huser' id' x hx
    rw [hobject] at hx
    split at hx
    · cases hx
    · rename_i hne
      have hlisted := h.listed user huser id' x hx
      rw [hget' user' huser', if_neg, hlisted]
      intro hresource
      rw [hresource, hold] at hlisted
      exact hne (Option.some.inj hlisted).symm
  · have hordered : Ordered (s.objects.set id none) := h.ordered.set id fun x hx => by cases hx
    rw [setSession, hobjects, Table.set_set]
    exact hordered

theorem Consistent.destroy (h : s.Consistent) (ord : KeyOrder String) (id : SessionId) :
    ∃ s', s.destroy ord id = some s' ∧ s'.Consistent ∧ s'.objects = s.objects.set id none := by
  unfold State.destroy
  cases hget : s.objects.get id with
  | none => exact ⟨s, rfl, h, by rw [← hget, Table.set_get_self]⟩
  | some session =>
    cases huser : s.user with
    | none => rw [h.absent huser id] at hget; cases hget
    | some user =>
      have hheld : (s.without user session.resource).Held := by
        intro user' huser' resource id' hid'
        rw [get_without huser'] at hid'
        split at hid'
        · cases hid'
        · exact h.held user huser resource id' hid'
      cases hpresence : session.presence with
      | true =>
        have hpriority := h.ordered id session hget
        obtain ⟨s', hs', hobjects, hsame, hfresh⟩ :=
          handleNormalPresence_spec ord hheld h.ordered hget false 0 fun hnone => by
            rw [hnone, hpresence] at hpriority
            cases hpriority
        refine ⟨s'.setSession id none, ?_, h.gone huser hget hobjects hsame hfresh, ?_⟩
        · simp only [hpresence, if_true, hs', Option.map_some]
        · rw [setSession, hobjects]
          exact Table.set_set s.objects id _ none
      | false =>
        have hself : (s.without user session.resource).objects =
            s.objects.set id (some session) := by
          rw [← hget, Table.set_get_self]
          rfl
        refine ⟨(s.without user session.resource).setSession id none, ?_,
          h.gone huser hget hself rfl ?_, rfl⟩
        · simp only [hpresence, Bool.false_eq_true, if_false, Option.map_some]
        intro user' huser'
        refine (h.fresh user huser).congr (by rw [without_user huser']) fun id' p => ?_
        constructor
        · rintro ⟨⟨resource, hresource⟩, hsession⟩
          refine ⟨?_, hsession⟩
          rw [get_without huser'] at hresource
          split at hresource
          · cases hresource
          · exact ⟨resource, hresource⟩
        · rintro ⟨⟨resource, hresource⟩, hsession⟩
          refine ⟨⟨resource, ?_⟩, hsession⟩
          rw [get_without huser', if_neg, hresource]
          rintro rfl
          rw [h.listed user huser id session hget] at hresource
          obtain rfl := Option.some.inj hresource
          obtain ⟨x, hx, hxpresence, -⟩ := hsession
          rw [show s.objects.get id = some x from hx] at hget
          obtain rfl := Option.some.inj hget
          rw [hpresence] at hxpresence
          cases hxpresence

theorem Consistent.resolve (h : s.Consistent) (ord : KeyOrder String)
    (resource : String) (policy : ConflictPolicy) (replacement : String) :
    ∃ resolution, s.resolve ord resource policy replacement = some resolution ∧
      ∀ free s', resolution = .free free s' → s'.Consistent ∧
        (∀ id session, s'.objects.get id = some session → s.objects.get id = some session) ∧
        ∃ user, s'.user = some user ∧ user.sessions.get free = none := by
  have hcreate : ∀ s : State, s.Consistent → s.user = none →
      ({ s with user := some ⟨∅, none⟩ } : State).Consistent := by
    intro s h hnone
    refine ⟨?_, by simp, ?_, h.ordered, ?_⟩
    · rintro _ ⟨⟩ resource id hid
      cases hid
    · intro user huser id session hget
      rw [h.absent hnone id] at hget
      cases hget
    · rintro _ ⟨⟩
      refine ⟨fun _ id p hid => ?_, fun ids hids => by cases hids⟩
      obtain ⟨⟨resource, hresource⟩, -⟩ := hid
      cases hresource
  unfold State.resolve
  cases huser : s.user with
  | none =>
    refine ⟨_, rfl, ?_⟩
    rintro _ _ ⟨⟩
    exact ⟨hcreate s h huser, fun id session hid => hid, _, rfl, rfl⟩
  | some user =>
    cases hold : user.sessions.get resource with
    | none =>
      simp only [hold]
      refine ⟨_, rfl, ?_⟩
      rintro _ _ ⟨⟩
      exact ⟨h, fun id session hid => hid, user, huser, hold⟩
    | some old =>
      simp only [hold]
      cases policy with
      | random =>
        refine ⟨_, rfl, ?_⟩
        rintro _ _ ⟨⟩
        exact ⟨h, fun id session hid => hid, user, huser, get_incremented _ _⟩
      | increment =>
        refine ⟨_, rfl, ?_⟩
        rintro _ _ ⟨⟩
        exact ⟨h, fun id session hid => hid, user, huser, get_incremented _ _⟩
      | kickNew => exact ⟨_, rfl, fun _ _ hfree => by cases hfree⟩
      | kickOld =>
        obtain ⟨s', hs', hconsistent, hobjects⟩ := h.destroy ord old
        have hshrink : ∀ id session, s'.objects.get id = some session →
            s.objects.get id = some session := by
          intro id session hid
          rw [hobjects, Table.get_set] at hid
          split at hid
          · cases hid
          · exact hid
        refine ⟨_, congrArg (Option.map _) hs', ?_⟩
        intro free s'' hfree
        dsimp only at hfree
        cases huser' : s'.user with
        | none =>
          rw [if_pos huser'] at hfree
          cases hfree
          exact ⟨hcreate s' hconsistent huser', hshrink, _, rfl, rfl⟩
        | some user' =>
          rw [if_neg (by rw [huser']; simp)] at hfree
          cases hfree
          refine ⟨hconsistent, hshrink, user', huser', ?_⟩
          cases hget : user'.sessions.get resource with
          | none => rfl
          | some id =>
            obtain ⟨x, hx, hresource⟩ := hconsistent.held user' huser' resource id hget
            rw [hobjects, Table.get_set] at hx
            split at hx
            · cases hx
            · rename_i hne
              have hlisted := h.listed user huser id x hx
              rw [hresource, hold] at hlisted
              exact absurd (Option.some.inj hlisted).symm hne

theorem Consistent.register (h : s.Consistent)
    (huser : s.user = some user) (hid : s.objects.get id = none)
    (hfree : user.sessions.get resource = none) (rosterLoads : Bool) :
    (s.register id resource rosterLoads).Consistent := by
  unfold State.register
  rw [huser]
  have hout : ∀ resource', user.sessions.get resource' ≠ some id := by
    intro resource' hget
    obtain ⟨x, hx, -⟩ := h.held user huser resource' id hget
    rw [hid] at hx
    cases hx
  cases rosterLoads with
  | false =>
    have hself : user.sessions.set resource none = user.sessions := by
      rw [← hfree, Table.set_get_self]
    simp only [Bool.false_eq_true, if_false, without, hself]
    split
    · rename_i hkeys
      refine ⟨fun user huser => (by cases huser), fun _ id => ?_,
        fun user huser => (by cases huser), h.ordered, fun user huser => (by cases huser)⟩
      cases hx : s.objects.get id with
      | none => rfl
      | some x =>
        have hlisted := h.listed user huser id x hx
        rw [Table.get_of_keys_eq_empty hkeys] at hlisted
        cases hlisted
    · rw [← huser]
      exact h
  | true =>
    simp only [if_true]
    refine ⟨?_, by simp, ?_, ?_, ?_⟩
    · rintro _ ⟨⟩ resource' id' hget
      rw [Table.get_set] at hget
      split at hget
      · rename_i heq
        obtain rfl := Option.some.inj hget
        exact ⟨_, Table.get_set_self _ _ _, heq.symm⟩
      · obtain ⟨x, hx, hresource⟩ := h.held user huser resource' id' hget
        have hne : id' ≠ id := fun heq => hout resource' (heq ▸ hget)
        exact ⟨x, (Table.get_set_of_ne _ hne _).trans hx, hresource⟩
    · rintro _ ⟨⟩ id' x hx
      rw [Table.get_set] at hx ⊢
      split at hx
      · rename_i heq
        obtain rfl := Option.some.inj hx
        rw [if_pos rfl, heq]
      · have hlisted := h.listed user huser id' x hx
        rw [if_neg, hlisted]
        intro hresource
        rw [hresource, hfree] at hlisted
        cases hlisted
    · refine h.ordered.set id ?_
      rintro _ ⟨⟩
      rfl
    · rintro _ ⟨⟩
      refine (h.fresh user huser).congr rfl fun id' p => ?_
      constructor
      · rintro ⟨⟨resource', hget⟩, x, hx, hpresence, hpriority⟩
        dsimp only at hx hget
        rw [Table.get_set] at hx hget
        split at hx
        · obtain rfl := Option.some.inj hx
          cases hpresence
        · rename_i hne
          split at hget
          · exact absurd (Option.some.inj hget).symm hne
          · exact ⟨⟨resource', hget⟩, x, hx, hpresence, hpriority⟩
      · rintro ⟨⟨resource', hget⟩, x, hx, hpresence, hpriority⟩
        have hne : id' ≠ id := fun heq => hout resource' (heq ▸ hget)
        refine ⟨⟨resource', ?_⟩, x, (Table.get_set_of_ne _ hne _).trans hx, hpresence, hpriority⟩
        refine (Table.get_set_of_ne _ ?_ _).trans hget
        rintro rfl
        rw [hfree] at hget
        cases hget

theorem get_register {id' : SessionId} {rosterLoads : Bool}
    (hget : (s.register id resource rosterLoads).objects.get id' = some session) :
    s.objects.get id' = some session ∨ id' = id ∧ session.priority = none := by
  unfold State.register at hget
  cases huser : s.user with
  | none =>
    rw [huser] at hget
    exact Or.inl hget
  | some user =>
    rw [huser] at hget
    cases rosterLoads with
    | false => exact Or.inl hget
    | true =>
      dsimp only at hget
      rw [if_pos rfl, Table.get_set] at hget
      split at hget
      · rename_i hid
        obtain rfl := Option.some.inj hget
        exact Or.inr ⟨hid, rfl⟩
      · exact Or.inl hget

theorem Consistent.bind (h : s.Consistent) (ord : KeyOrder String) (id : SessionId)
    (resource : String) (policy : ConflictPolicy) (replacement : String) (rosterLoads : Bool) :
    ∃ s', s.bind ord id resource policy replacement rosterLoads = some s' ∧ s'.Consistent ∧
      ∀ id' session, s'.objects.get id' = some session → s.objects.get id' = some session ∨
        s.objects.get id = none ∧ id' = id ∧ session.priority = none := by
  unfold State.bind
  split
  · exact ⟨s, rfl, h, fun _ _ hget => Or.inl hget⟩
  · rename_i hid
    have hid := Option.not_isSome_iff_eq_none.mp hid
    obtain ⟨resolution, hresolution, hspec⟩ := h.resolve ord resource policy replacement
    rw [hresolution]
    cases resolution with
    | refused => exact ⟨s, rfl, h, fun _ _ hget => Or.inl hget⟩
    | free free s' =>
      obtain ⟨hconsistent, hshrink, user, huser, hfree⟩ := hspec free s' rfl
      have hnone : s'.objects.get id = none := by
        cases hget : s'.objects.get id with
        | none => rfl
        | some session =>
          rw [hshrink id session hget] at hid
          cases hid
      refine ⟨_, rfl, hconsistent.register huser hnone hfree rosterLoads, ?_⟩
      intro id' session hget
      rcases get_register hget with hold | ⟨hnew, hpriority⟩
      · exact Or.inl (hshrink id' session hold)
      · exact Or.inr ⟨hid, hnew, hpriority⟩

theorem Consistent.toggle (h : s.Consistent) (id : SessionId) (enable : Bool) :
    (s.setSession id ((s.objects.get id).map fun session =>
      { session with wantCarbons := enable })).Consistent := by
  cases hget : s.objects.get id with
  | none =>
    have hself : s.setSession id none = s := by
      rw [setSession, ← hget, Table.set_get_self]
    exact hself.symm ▸ h
  | some session =>
    have hrank : ∀ id', rank (s.objects.set id (some { session with wantCarbons := enable })) id' =
        rank s.objects id' := by
      intro id'
      unfold rank
      rw [Table.get_set]
      split
      · rename_i heq
        rw [heq, hget]
        rfl
      · rfl
    refine h.update hget ?_ ?_ rfl rfl ?_
    · rfl
    · exact h.ordered id session hget
    · intro user huser
      refine (h.fresh user huser).congr rfl fun id' p => ?_
      rw [available_iff, available_iff]
      exact and_congr_right fun _ => by rw [← hrank id']; rfl

theorem Consistent.step {s : State} (h : s.Consistent) (ignorePriority : Bool)
    (op : KeyOrder String × Op) :
    ∃ s', s.step ignorePriority op = some s' ∧ s'.Consistent := by
  obtain ⟨ord, op⟩ := op
  cases op with
  | bind id resource policy replacement rosterLoads =>
    obtain ⟨s', hs', hconsistent, -⟩ := h.bind ord id resource policy replacement rosterLoads
    exact ⟨s', hs', hconsistent⟩
  | presence id available priority =>
    obtain ⟨s', hs', hconsistent, -⟩ := h.handleNormalPresence ord id available
      (presencePriority ignorePriority priority)
    exact ⟨s', hs', hconsistent⟩
  | toggleCarbons id enable => exact ⟨_, rfl, h.toggle id enable⟩
  | destroy id =>
    obtain ⟨s', hs', hconsistent, -⟩ := h.destroy ord id
    exact ⟨s', hs', hconsistent⟩

theorem Consistent.run (h : s.Consistent) (ignorePriority : Bool)
    (ops : List (KeyOrder String × Op)) :
    ∃ s', s.run ignorePriority ops = some s' ∧ s'.Consistent := by
  induction ops generalizing s with
  | nil => exact ⟨s, rfl, h⟩
  | cons op ops ih =>
    obtain ⟨middle, hmiddle, hconsistent⟩ := h.step ignorePriority op
    obtain ⟨s', hs', hlast⟩ := ih hconsistent
    refine ⟨s', ?_, hlast⟩
    rw [State.run, List.foldlM_cons, hmiddle]
    exact hs'

end State

end Prosody.Resources
