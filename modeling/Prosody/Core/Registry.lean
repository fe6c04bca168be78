import Prosody.Core.SessionManager
import Prosody.Library.Runs
import Prosody.Library.Separator

/-! # The registry of sessions

The three tables of the session manager agree with the bound sessions, as long as a session
that is kicked out of its resource does not survive. -/

namespace Prosody.SessionManager

/-! ## Addresses -/

theorem bareJid_inj {username username' : Username} {host host' : Host}
    (h : bareJid username host = bareJid username' host') :
    username = username' ∧ host = host' := by
  have hchars := congrArg String.toList h
  simp only [bareJid, String.toList_append, List.append_assoc] at hchars
  obtain ⟨hname, hhost⟩ := Separator.append_cons_inj_left username.noAt username'.noAt hchars
  exact ⟨Username.ext (String.toList_inj.mp hname), Host.ext (String.toList_inj.mp hhost)⟩

theorem fullJid_inj {username username' : Username} {host host' : Host} {resource resource' : String}
    (h : fullJid username host resource = fullJid username' host' resource') :
    username = username' ∧ host = host' ∧ resource = resource' := by
  have hchars := congrArg String.toList h
  simp only [fullJid, String.toList_append, List.append_assoc] at hchars
  obtain ⟨hname, hrest⟩ := Separator.append_cons_inj_left username.noAt username'.noAt hchars
  obtain ⟨hhost, hresource⟩ := Separator.append_cons_inj_left host.noSlash host'.noSlash hrest
  exact ⟨Username.ext (String.toList_inj.mp hname), Host.ext (String.toList_inj.mp hhost),
    String.toList_inj.mp hresource⟩

/-- A place in the registry: host, username and resource. -/
structure Place where
  host : Host
  username : Username
  resource : String
  deriving DecidableEq

def Place.fullJid (p : Place) : String :=
  SessionManager.fullJid p.username p.host p.resource

theorem Place.fullJid_inj {p q : Place} (h : p.fullJid = q.fullJid) : p = q := by
  obtain ⟨h1, h2, h3⟩ := SessionManager.fullJid_inj h
  cases p
  cases q
  simp_all

structure Session.BoundTo (session : Session) (p : Place) : Prop where
  alive : session.destroyed = false
  host : session.host = some p.host
  username : session.username = some p.username
  resource : session.resource = some p.resource
  fullJid : session.fullJid = some p.fullJid

theorem Session.BoundTo.unique {session : Session} {p q : Place} (h : session.BoundTo p)
    (h' : session.BoundTo q) : p = q :=
  Place.fullJid_inj (Option.some.inj (h.fullJid.symm.trans h'.fullJid))

namespace Registry

variable {r r' : Registry} {id : SessionId} {p q : Place} {user : User}

/-- The session at a place of `hosts`. -/
def lookup (r : Registry) (p : Place) : Option SessionId :=
  (r.hostSessions.get (p.host, p.username)).bind fun user => (r.resources user).get p.resource

theorem lookup_of_user (h : r.hostSessions.get (p.host, p.username) = some user) :
    r.lookup p = (r.resources user).get p.resource := by
  simp [lookup, h]

/-- The tables agree with the sessions. Whether users have sessions is not part of it. -/
structure Consistent (r : Registry) : Prop where
  /-- Objects that are not in use do not occur. -/
  objects : ∀ id session, r.objects.get id = some session → id < r.fresh
  tables : ∀ key user, r.hostSessions.get key = some user → user.sessions < r.fresh
  /-- No two users share a table of resources. -/
  apart : ∀ key key' user user', r.hostSessions.get key = some user →
    r.hostSessions.get key' = some user' → user.sessions = user'.sessions → key = key'
  bare : ∀ host username, r.bareSessions.get (bareJid username host) =
    r.hostSessions.get (host, username)
  full : ∀ f id, r.fullSessions.get f = some id ↔ ∃ p : Place, f = p.fullJid ∧ r.lookup p = some id
  bound : ∀ p id, r.lookup p = some id ↔ ∃ session, r.objects.get id = some session ∧ session.BoundTo p
  /-- Sessions have a resource and a full address together, and then they are bound. -/
  whole : ∀ id session, r.objects.get id = some session →
    (session.resource.isSome ∨ session.fullJid.isSome) → ∃ p, session.BoundTo p
  resting : ∀ id session, r.objects.get id = some session → session.destroyed = true →
    session.username = none

/-- Every user of `hosts` has a session. -/
def Inhabited (r : Registry) : Prop :=
  ∀ key user, r.hostSessions.get key = some user → (r.resources user).keys ≠ ∅

/-! ## Assignments -/

/-- The entry of one place is assigned in both tables, and one session is changed. -/
structure Assigned (r : Registry) (p : Place) (v : Option SessionId) (id : SessionId)
    (session : Session) (r' : Registry) : Prop where
  objects : r'.objects = r.objects.set id (some session)
  tables : ∃ user, r.hostSessions.get (p.host, p.username) = some user ∧
    r'.tables = r.tables.set user.sessions (some ((r.resources user).set p.resource v))
  hostSessions : r'.hostSessions = r.hostSessions
  fullSessions : r'.fullSessions = r.fullSessions.set p.fullJid v
  bareSessions : r'.bareSessions = r.bareSessions
  fresh : r'.fresh = r.fresh

variable {v : Option SessionId} {session : Session}

theorem Assigned.resources (h : Assigned r p v id session r') (hr : r.Consistent)
    (huser : r.hostSessions.get (p.host, p.username) = some user) :
    (∀ key other, r.hostSessions.get key = some other → key ≠ (p.host, p.username) →
      r'.resources other = r.resources other) ∧
      r'.resources user = (r.resources user).set p.resource v := by
  obtain ⟨user', huser', htables⟩ := h.tables
  rw [huser] at huser'
  cases huser'
  constructor
  · intro key other hother hne
    have hsessions : other.sessions ≠ user.sessions := fun heq =>
      hne (hr.apart key _ other user hother huser heq)
    simp only [Registry.resources, htables, Table.get_set_of_ne _ hsessions]
  · simp [Registry.resources, htables]

theorem Assigned.lookup (h : Assigned r p v id session r') (hr : r.Consistent) (q : Place) :
    r'.lookup q = if q = p then v else r.lookup q := by
  obtain ⟨user, huser, -⟩ := h.tables
  obtain ⟨hothers, hself⟩ := h.resources hr huser
  by_cases hkey : (q.host, q.username) = (p.host, p.username)
  · have hq : r.hostSessions.get (q.host, q.username) = some user := hkey ▸ huser
    have hq' : r'.hostSessions.get (q.host, q.username) = some user := by
      rw [h.hostSessions]
      exact hq
    rw [lookup_of_user hq, lookup_of_user hq', hself, Table.get_set]
    obtain ⟨hhost, husername⟩ := Prod.mk.inj hkey
    have hiff : q = p ↔ q.resource = p.resource := by
      constructor
      · rintro rfl
        rfl
      · intro hresource
        cases q
        cases p
        simp_all
    simp only [hiff]
  · have hne : q ≠ p := fun heq => hkey (by rw [heq])
    rw [if_neg hne]
    cases hother : r.hostSessions.get (q.host, q.username) with
    | none => simp [Registry.lookup, h.hostSessions, hother]
    | some other =>
      have hother' : r'.hostSessions.get (q.host, q.username) = some other := by
        rw [h.hostSessions]
        exact hother
      rw [lookup_of_user hother, lookup_of_user hother', hothers _ other hother hkey]

theorem Consistent.assign (hr : r.Consistent) {old : Session}
    (h : Assigned r p v id session r') (hold : r.objects.get id = some old)
    (hv : v = none ∨ v = some id) (hbound : ∀ q, session.BoundTo q ↔ v = some id ∧ q = p)
    (hwhole : session.resource.isSome ∨ session.fullJid.isSome → ∃ q, session.BoundTo q)
    (hresting : session.destroyed = true → session.username = none)
    (hother : ∀ q, old.BoundTo q → q = p) (hfree : ∀ x, r.lookup p = some x → x = id) :
    r'.Consistent := by
  have hlookup := h.lookup hr
  have hapart : ∀ q, r.lookup q = some id → q = p := by
    intro q hq
    obtain ⟨session', hget, hto⟩ := (hr.bound q id).mp hq
    rw [hold] at hget
    cases hget
    exact hother q hto
  constructor
  · intro x session' hx
    rw [h.objects, Table.get_set] at hx
    rw [h.fresh]
    split at hx
    · rename_i heq
      exact heq ▸ hr.objects id old hold
    · exact hr.objects x session' hx
  · intro key user huser
    rw [h.hostSessions] at huser
    rw [h.fresh]
    exact hr.tables key user huser
  · intro key key' user user' huser huser'
    rw [h.hostSessions] at huser huser'
    exact hr.apart key key' user user' huser huser'
  · intro host username
    rw [h.bareSessions, h.hostSessions]
    exact hr.bare host username
  · intro f x
    rw [h.fullSessions, Table.get_set]
    by_cases hf : f = p.fullJid
    · rw [if_pos hf]
      constructor
      · intro hx
        exact ⟨p, hf, by rw [hlookup, if_pos rfl, hx]⟩
      · rintro ⟨q, hq, hx⟩
        have hqp : q = p := Place.fullJid_inj (hq.symm.trans hf)
        rwa [hlookup, if_pos hqp] at hx
    · rw [if_neg hf, hr.full f x]
      refine exists_congr fun q => and_congr_right fun hq => ?_
      have hqp : q ≠ p := fun heq => hf (heq ▸ hq)
      rw [hlookup, if_neg hqp]
  · intro q x
    rw [hlookup, h.objects]
    by_cases hx : x = id
    · subst hx
      simp only [Table.get_set_self, Option.some.injEq, exists_eq_left']
      rw [hbound]
      by_cases hq : q = p
      · simp [hq]
      · rw [if_neg hq]
        exact iff_of_false (fun hat => hq (hapart q hat)) fun hat => hq hat.2
    · rw [Table.get_set_of_ne _ hx]
      by_cases hq : q = p
      · rw [if_pos hq]
        refine iff_of_false (fun hat => ?_) fun hto => hx ?_
        · rcases hv with rfl | rfl
          · cases hat
          · exact hx (Option.some.inj hat).symm
        · exact hfree x (hq ▸ (hr.bound q x).mpr hto)
      · rw [if_neg hq]
        exact hr.bound q x
  · intro x session' hx hsome
    rw [h.objects, Table.get_set] at hx
    split at hx
    · cases hx
      exact hwhole hsome
    · exact hr.whole x session' hx hsome
  · intro x session' hx
    rw [h.objects, Table.get_set] at hx
    split at hx
    · cases hx
      exact hresting
    · exact hr.resting x session' hx

/-! ## Entries of users -/

/-- Entries of users come and go, but the places stay as they are. -/
theorem Consistent.rehost (hr : r.Consistent) (hobjects : r'.objects = r.objects)
    (hfull : r'.fullSessions = r.fullSessions) (hlookup : ∀ q, r'.lookup q = r.lookup q)
    (hfresh : r.fresh ≤ r'.fresh)
    (htables : ∀ key user, r'.hostSessions.get key = some user → user.sessions < r'.fresh)
    (hapart : ∀ key key' user user', r'.hostSessions.get key = some user →
      r'.hostSessions.get key' = some user' → user.sessions = user'.sessions → key = key')
    (hbare : ∀ host username, r'.bareSessions.get (bareJid username host) =
      r'.hostSessions.get (host, username)) : r'.Consistent where
  objects x session hx := (hr.objects x session (hobjects ▸ hx)).trans_le hfresh
  tables := htables
  apart := hapart
  bare := hbare
  full f x := by
    rw [hfull, hr.full]
    simp only [hlookup]
  bound q x := by
    rw [hlookup, hobjects, hr.bound]
  whole x session hx := hr.whole x session (hobjects ▸ hx)
  resting x session hx := hr.resting x session (hobjects ▸ hx)

theorem bareSessions_set {v : Option User} {host host' : Host} {username username' : Username}
    (hbare : r.bareSessions.get (bareJid username' host') =
      r.hostSessions.get (host', username')) :
    (r.bareSessions.set (bareJid username host) v).get (bareJid username' host') =
      (r.hostSessions.set (host, username) v).get (host', username') := by
  rw [Table.get_set, Table.get_set]
  by_cases hkey : (host', username') = (host, username)
  · obtain ⟨rfl, rfl⟩ := Prod.mk.inj hkey
    simp
  · have hjid : bareJid username' host' ≠ bareJid username host := by
      intro heq
      obtain ⟨rfl, rfl⟩ := bareJid_inj heq
      exact hkey rfl
    rw [if_neg hkey, if_neg hjid, hbare]

section

variable {host : Host} {username : Username}

theorem lookup_dropUser (huser : r.hostSessions.get (host, username) = some user)
    (hempty : (r.resources user).keys = ∅) (q : Place) :
    (r.dropUser host username).lookup q = r.lookup q := by
  by_cases hkey : (q.host, q.username) = (host, username)
  · have hnone : (r.resources user).get q.resource = none := Table.get_of_keys_eq_empty hempty _
    simp [lookup, dropUser, hkey, huser, hnone]
  · have hget : (r.dropUser host username).hostSessions.get (q.host, q.username) =
        r.hostSessions.get (q.host, q.username) := Table.get_set_of_ne _ hkey none
    rw [lookup, hget]
    rfl

theorem Consistent.dropUser (hr : r.Consistent)
    (huser : r.hostSessions.get (host, username) = some user)
    (hempty : (r.resources user).keys = ∅) : (r.dropUser host username).Consistent := by
  have hback : ∀ key other, (r.dropUser host username).hostSessions.get key = some other →
      r.hostSessions.get key = some other := by
    intro key other hother
    rw [Registry.dropUser, Table.get_set] at hother
    split at hother
    · cases hother
    · exact hother
  refine hr.rehost rfl rfl (lookup_dropUser huser hempty) le_rfl ?_ ?_ ?_
  · intro key other hother
    exact hr.tables key other (hback key other hother)
  · intro key key' other other' hother hother'
    exact hr.apart key key' other other' (hback key other hother) (hback key' other' hother')
  · intro host' username'
    exact bareSessions_set (hr.bare host' username')

theorem lookup_addUser {t : TableId} (hnone : r.hostSessions.get (host, username) = none)
    (hempty : (r.tables.get t).getD ∅ = ∅) (q : Place) :
    (r.addUser host username t).lookup q = r.lookup q := by
  by_cases hkey : (q.host, q.username) = (host, username)
  · simp [lookup, addUser, Registry.resources, hkey, hnone, hempty]
  · have hget : (r.addUser host username t).hostSessions.get (q.host, q.username) =
        r.hostSessions.get (q.host, q.username) := Table.get_set_of_ne _ hkey _
    rw [lookup, hget]
    rfl

theorem Consistent.addUser (hr : r.Consistent) {t : TableId}
    (hnone : r.hostSessions.get (host, username) = none) (hempty : (r.tables.get t).getD ∅ = ∅)
    (ht : t ≤ r.fresh)
    (hunused : ∀ key user, r.hostSessions.get key = some user → user.sessions ≠ t) :
    (r.addUser host username t).Consistent := by
  have hback : ∀ key other, (r.addUser host username t).hostSessions.get key = some other →
      key = (host, username) ∧ other.sessions = t ∨
        key ≠ (host, username) ∧ r.hostSessions.get key = some other := by
    intro key other hother
    rw [Registry.addUser, Table.get_set] at hother
    split at hother
    · rename_i hkey
      cases hother
      exact Or.inl ⟨hkey, rfl⟩
    · rename_i hkey
      exact Or.inr ⟨hkey, hother⟩
  refine hr.rehost rfl rfl (lookup_addUser hnone hempty) (Nat.le_succ _) ?_ ?_ ?_
  · intro key other hother
    rcases hback key other hother with ⟨-, hsessions⟩ | ⟨-, hold⟩
    · rw [hsessions]
      exact Nat.lt_succ_of_le ht
    · exact (hr.tables key other hold).trans (Nat.lt_succ_self _)
  · intro key key' other other' hother hother' hsame
    rcases hback key other hother with ⟨hkey, hsessions⟩ | ⟨-, hold⟩ <;>
      rcases hback key' other' hother' with ⟨hkey', hsessions'⟩ | ⟨-, hold'⟩
    · rw [hkey, hkey']
    · exact absurd (hsame.symm.trans hsessions) (hunused key' other' hold')
    · exact absurd (hsame.trans hsessions') (hunused key other hold)
    · exact hr.apart key key' other other' hold hold' hsame
  · intro host' username'
    exact bareSessions_set (hr.bare host' username')

/-! ## Leaving a place -/

/-- A session has left its place, and its user is dropped if it was the last one. -/
structure Released (r : Registry) (p : Place) (user : User) (id : SessionId) (session : Session)
    (r' : Registry) : Prop where
  consistent : r'.Consistent
  inhabited : r'.Inhabited
  objects : r'.objects = r.objects.set id (some session)
  resources : r'.resources user = (r.resources user).set p.resource none
  hostSessions : r'.hostSessions = if (r'.resources user).keys = ∅ then
    r.hostSessions.set (p.host, p.username) none else r.hostSessions
  lookup : ∀ q, r'.lookup q = if q = p then none else r.lookup q
  fullSessions : r'.fullSessions = r.fullSessions.set p.fullJid none
  fresh : r'.fresh = r.fresh

theorem Assigned.release {old session : Session} (h : Assigned r p none id session r')
    (hr : r.Consistent)
    (hinhabited : ∀ key user, key ≠ (p.host, p.username) → r.hostSessions.get key = some user →
      (r.resources user).keys ≠ ∅)
    (huser : r.hostSessions.get (p.host, p.username) = some user)
    (hold : r.objects.get id = some old) (hto : old.BoundTo p)
    (hsession : session.resource = none ∧ session.fullJid = none)
    (hresting : session.destroyed = true → session.username = none) :
    Released r p user id session
      (if (r'.resources user).keys = ∅ then r'.dropUser p.host p.username else r') := by
  have hconsistent : r'.Consistent := by
    refine hr.assign h hold (Or.inl rfl) ?_ ?_ hresting (fun q hq => hq.unique hto) ?_
    · intro q
      refine iff_of_false (fun hq => ?_) (by simp)
      have hresource := hq.resource
      rw [hsession.1] at hresource
      cases hresource
    · simp [hsession]
    · intro x hx
      rw [(hr.bound p id).mpr ⟨old, hold, hto⟩] at hx
      exact (Option.some.inj hx).symm
  obtain ⟨hothers, hself⟩ := h.resources hr huser
  have huser' : r'.hostSessions.get (p.host, p.username) = some user := by
    rw [h.hostSessions]
    exact huser
  have hkept : ∀ key other, key ≠ (p.host, p.username) → r'.hostSessions.get key = some other →
      (r'.resources other).keys ≠ ∅ := by
    intro key other hkey hother
    rw [h.hostSessions] at hother
    rw [hothers key other hother hkey]
    exact hinhabited key other hkey hother
  by_cases hempty : (r'.resources user).keys = ∅
  · rw [if_pos hempty]
    constructor
    · exact hconsistent.dropUser huser' hempty
    · intro key other hother
      rw [dropUser, Table.get_set] at hother
      split at hother
      · cases hother
      · rename_i hkey
        exact hkept key other hkey hother
    · exact h.objects
    · exact hself
    · rw [show ((r'.dropUser p.host p.username).resources user).keys = ∅ from hempty, if_pos rfl]
      simp only [dropUser, h.hostSessions]
    · intro q
      rw [lookup_dropUser huser' hempty, h.lookup hr]
    · exact h.fullSessions
    · exact h.fresh
  · rw [if_neg hempty]
    constructor
    · exact hconsistent
    · intro key other hother
      by_cases hkey : key = (p.host, p.username)
      · rw [hkey, huser'] at hother
        cases hother
        exact hempty
      · exact hkept key other hkey hother
    · exact h.objects
    · exact hself
    · rw [if_neg hempty, h.hostSessions]
    · exact h.lookup hr
    · exact h.fullSessions
    · exact h.fresh

end

/-- The registry agrees with the sessions, and every user in it has one. -/
structure Settled (r : Registry) : Prop where
  consistent : r.Consistent
  inhabited : r.Inhabited

theorem Released.settled (h : Released r p user id session r') : r'.Settled :=
  ⟨h.consistent, h.inhabited⟩

theorem Consistent.user_of_bound (hr : r.Consistent)
    (hget : r.objects.get id = some session) (hto : session.BoundTo p) :
    ∃ user, r.hostSessions.get (p.host, p.username) = some user ∧
      (r.resources user).get p.resource = some id := by
  have hlookup := (hr.bound p id).mpr ⟨session, hget, hto⟩
  exact Option.bind_eq_some_iff.mp hlookup

/-! ## `destroy_session` -/

theorem destroySession_veto (hget : r.objects.get id = some session)
    (hto : session.BoundTo p) : r.destroySession id true = (.returned, r) := by
  simp [destroySession, hget, hto.alive, hto.fullJid, hto.host]

theorem destroySession_resting (hget : r.objects.get id = some restingSession) (veto : Bool) :
    r.destroySession id veto = (.returned, r) := by
  simp [destroySession, hget, restingSession]

/-- Dropping a user and retiring a session touch different tables. -/
theorem retireSession_dropIfEmpty (r : Registry) (user : User) (host : Host) (username : Username)
    (id : SessionId) :
    (if (r.resources user).keys = ∅ then r.dropUser host username else r).retireSession id =
      if ((r.retireSession id).resources user).keys = ∅ then
        (r.retireSession id).dropUser host username
      else r.retireSession id := by
  have hsame : ((r.retireSession id).resources user).keys = (r.resources user).keys := rfl
  rw [hsame]
  split <;> rfl

theorem Settled.destroySession (hr : r.Settled)
    (hget : r.objects.get id = some session) (hto : session.BoundTo p)
    (huser : r.hostSessions.get (p.host, p.username) = some user) :
    ∃ r', r.destroySession id false = (.returned, r') ∧ Released r p user id restingSession r' := by
  have hassigned : Assigned r p none id restingSession
      ({ r.setResource user p.resource none with
        fullSessions := r.fullSessions.set p.fullJid none }.retireSession id) := by
    constructor
    · simp [retireSession, modifySession, setResource, hget]
    · exact ⟨user, huser, rfl⟩
    · rfl
    · rfl
    · rfl
    · rfl
  have hreleased := hassigned.release hr.consistent
    (fun key other _ hother => hr.inhabited key other hother) huser hget hto ⟨rfl, rfl⟩ fun _ => rfl
  refine ⟨_, ?_, hreleased⟩
  simp only [Registry.destroySession, hget, hto.alive, hto.fullJid, hto.host, hto.username,
    hto.resource, huser, Bool.false_eq_true, if_false]
  exact congrArg (Prod.mk Ending.returned) (retireSession_dropIfEmpty _ _ _ _ _)

theorem Settled.setUnbound (hr : r.Settled) (id : SessionId) (session : Session)
    (hobjects : r'.objects = r.objects.set id (some session)) (htables : r'.tables = r.tables)
    (hhosts : r'.hostSessions = r.hostSessions) (hfull : r'.fullSessions = r.fullSessions)
    (hbare : r'.bareSessions = r.bareSessions) (hfresh : r.fresh ≤ r'.fresh) (hid : id < r'.fresh)
    (hold : ∀ old q, r.objects.get id = some old → ¬ old.BoundTo q)
    (hnew : session.resource = none ∧ session.fullJid = none)
    (hresting : session.destroyed = true → session.username = none) : r'.Settled := by
  have hresources : ∀ user, r'.resources user = r.resources user := fun user => by
    rw [Registry.resources, htables]
    rfl
  have hlookup : ∀ q, r'.lookup q = r.lookup q := by
    intro q
    simp only [Registry.lookup, hhosts, hresources]
  have hc := hr.consistent
  refine ⟨?_, fun key user huser => ?_⟩
  · constructor
    · intro x session' hx
      rw [hobjects, Table.get_set] at hx
      split at hx
      · rename_i heq
        exact heq ▸ hid
      · exact (hc.objects x session' hx).trans_le hfresh
    · intro key user huser
      rw [hhosts] at huser
      exact (hc.tables key user huser).trans_le hfresh
    · intro key key' user user' huser huser'
      rw [hhosts] at huser huser'
      exact hc.apart key key' user user' huser huser'
    · intro host username
      rw [hbare, hhosts]
      exact hc.bare host username
    · intro f x
      rw [hfull, hc.full]
      simp only [hlookup]
    · intro q x
      rw [hlookup, hobjects, Table.get_set]
      refine (hc.bound q x).trans ?_
      split
      · rename_i heq
        subst heq
        refine iff_of_false ?_ ?_
        · rintro ⟨session', hx, hto⟩
          exact hold session' q hx hto
        · rintro ⟨session', hx, hto⟩
          cases hx
          have hresource := hto.resource
          rw [hnew.1] at hresource
          cases hresource
      · rfl
    · intro x session' hx hsome
      rw [hobjects, Table.get_set] at hx
      split at hx
      · cases hx
        simp [hnew] at hsome
      · exact hc.whole x session' hx hsome
    · intro x session' hx
      rw [hobjects, Table.get_set] at hx
      split at hx
      · cases hx
        exact hresting
      · exact hc.resting x session' hx
  · rw [hhosts] at huser
    rw [hresources]
    exact hr.inhabited key user huser

theorem Settled.retireSession (hr : r.Settled)
    (hget : r.objects.get id = some session) (hnone : session.fullJid = none) :
    (r.retireSession id).Settled := by
  refine hr.setUnbound id restingSession ?_ rfl rfl rfl rfl le_rfl
    (hr.consistent.objects id session hget) ?_ ⟨rfl, rfl⟩ fun _ => rfl
  · simp [Registry.retireSession, modifySession, hget]
  · intro old q hold hto
    rw [hget] at hold
    cases hold
    have hfull := hto.fullJid
    rw [hnone] at hfull
    cases hfull

/-- A session is destroyed on its own: it returns, and no other session is unregistered. -/
structure DestroysAlone (r : Registry) (id : SessionId) (out : Ending × Registry) : Prop where
  returned : out.1 = .returned
  others : ∀ f x, x ≠ id → r.fullSessions.get f = some x → out.2.fullSessions.get f = some x

theorem Settled.destroy (hr : r.Settled) (id : SessionId) (veto : Bool) :
    (r.destroySession id veto).2.Settled ∧ DestroysAlone r id (r.destroySession id veto) := by
  have hsame : ∀ out, out = (Ending.returned, r) → out.2.Settled ∧ DestroysAlone r id out := by
    rintro _ rfl
    exact ⟨hr, rfl, fun f x _ hx => hx⟩
  cases hget : r.objects.get id with
  | none => exact hsame _ (by simp [Registry.destroySession, hget])
  | some session =>
    cases halive : session.destroyed with
    | true => exact hsame _ (by simp [Registry.destroySession, hget, halive])
    | false =>
      cases hfull : session.fullJid with
      | none =>
        have hcall : r.destroySession id veto = (.returned, r.retireSession id) := by
          simp [Registry.destroySession, hget, halive, hfull]
        rw [hcall]
        exact ⟨hr.retireSession hget hfull, rfl, fun f x _ hx => hx⟩
      | some full =>
        obtain ⟨p, hto⟩ := hr.consistent.whole id session hget (Or.inr (by simp [hfull]))
        cases veto with
        | true => exact hsame _ (destroySession_veto hget hto)
        | false =>
          obtain ⟨user, huser, hat⟩ := hr.consistent.user_of_bound hget hto
          obtain ⟨r', hcall, hreleased⟩ := hr.destroySession hget hto huser
          rw [hcall]
          refine ⟨hreleased.settled, rfl, fun f x hx hf => ?_⟩
          obtain ⟨q, rfl, hq⟩ := (hr.consistent.full f x).mp hf
          have hqp : q ≠ p := by
            rintro rfl
            rw [lookup_of_user huser, hat] at hq
            exact hx (Option.some.inj hq).symm
          rw [hreleased.fullSessions,
            Table.get_set_of_ne _ fun heq => hqp (Place.fullJid_inj heq)]
          exact hf

/-- Closing a bound session, which must be let through once, takes it out of its place. -/
theorem Settled.closeSession (hr : r.Settled)
    (hget : r.objects.get id = some session) (hto : session.BoundTo p)
    (huser : r.hostSessions.get (p.host, p.username) = some user) {vetoes : List Bool}
    (hpass : false ∈ vetoes) :
    ∃ r', SessionManager.Registry.closeSession id vetoes r = (.returned, r') ∧
      Released r p user id restingSession r' := by
  induction vetoes with
  | nil => cases hpass
  | cons veto vetoes ih =>
    cases veto with
    | true =>
      obtain ⟨r', hcall, hreleased⟩ := ih (by simpa using hpass)
      refine ⟨r', ?_, hreleased⟩
      simp only [Registry.closeSession, destroySession_veto hget hto, hcall]
    | false =>
      obtain ⟨r', hcall, hreleased⟩ := hr.destroySession hget hto huser
      refine ⟨r', ?_, hreleased⟩
      have hresting : r'.objects.get id = some restingSession := by
        rw [hreleased.objects, Table.get_set_self]
      have hrest : ∀ vetoes, Registry.closeSession id vetoes r' = (.returned, r') := by
        intro vetoes
        induction vetoes with
        | nil => rfl
        | cons veto vetoes ih =>
          simp only [Registry.closeSession, destroySession_resting hresting, ih]
      simp only [Registry.closeSession, hcall, hrest]

/-! ## Names for resources -/

theorem numbered_injective (resource : String) : Function.Injective (numbered resource) := by
  intro i j h
  have hchars := congrArg String.toList h
  simp only [numbered, String.toList_append] at hchars
  have hvalues := congrArg (fun digits => Nat.ofDigitChars 10 digits 0)
    (List.append_cancel_left hchars)
  simpa [Nat.toString_eq_ofList_toDigits] using hvalues

theorem get_nextCount {sessions : Table String SessionId} {resource : String} (fuel count : Nat)
    (h : ∃ k, k ≤ fuel ∧ sessions.get (numbered resource (count + k)) = none) :
    sessions.get (numbered resource (nextCount sessions resource fuel count)) = none := by
  induction fuel generalizing count with
  | zero =>
    obtain ⟨k, hk, hnone⟩ := h
    obtain rfl := Nat.le_zero.mp hk
    exact hnone
  | succ fuel ih =>
    unfold nextCount
    split
    · rename_i htaken
      obtain ⟨k, hk, hnone⟩ := h
      cases k with
      | zero =>
        rw [Nat.add_zero] at hnone
        rw [hnone] at htaken
        cases htaken
      | succ k =>
        refine ih (count + 1) ⟨k, Nat.le_of_succ_le_succ hk, ?_⟩
        rwa [Nat.add_right_comm]
    · rename_i hfree
      exact Option.not_isSome_iff_eq_none.mp hfree

/-- There are more numbers than sessions. -/
theorem exists_free (sessions : Table String SessionId) (resource : String) :
    ∃ k, k ≤ sessions.keys.card ∧ sessions.get (numbered resource (1 + k)) = none := by
  by_contra hnot
  have hmaps : ∀ k ∈ Finset.range (sessions.keys.card + 1),
      numbered resource (1 + k) ∈ sessions.keys := by
    intro k hk
    have hk : k ≤ sessions.keys.card := Nat.lt_succ_iff.mp (Finset.mem_range.mp hk)
    rw [Table.mem_keys, ← Option.isSome_iff_exists, Option.isSome_iff_ne_none]
    exact fun hnone => hnot ⟨k, hk, hnone⟩
  have hinj : Set.InjOn (fun k => numbered resource (1 + k))
      (Finset.range (sessions.keys.card + 1)) := by
    intro i _ j _ hij
    exact Nat.add_left_cancel (numbered_injective resource hij)
  have hcard := Finset.card_le_card_of_injOn _ hmaps hinj
  rw [Finset.card_range] at hcard
  exact absurd hcard (Nat.not_succ_le_self _)

theorem get_incremented (sessions : Table String SessionId) (resource : String) :
    sessions.get (incremented sessions resource) = none := by
  unfold incremented
  split
  · exact get_nextCount _ 1 (exists_free sessions resource)
  · rename_i hfree
    exact Option.not_isSome_iff_eq_none.mp hfree

/-! ## `bind_resource` -/

/-- The session that `bind_resource` kicks out. -/
def Kicks (enc : Encodings) (r : Registry) (id : SessionId) (b : Binding) (old : SessionId) : Prop :=
  ∃ session host username requested, r.objects.get id = some session ∧
    session.username = some username ∧ session.resource = none ∧ session.host = some host ∧
    b.preBind = .proceed requested ∧ b.policy = .kickOld ∧
    r.lookup ⟨host, username, prepResource enc requested b.identifier⟩ = some old

section

variable {host : Host} {username : Username} {resource : String} {session : Session}

/-- The session `id` can take the place of the resource. -/
structure Ready (r : Registry) (host : Host) (username : Username) (resource : String)
    (id : SessionId) (session : Session) : Prop where
  consistent : r.Consistent
  inhabited : ∀ key user, key ≠ (host, username) → r.hostSessions.get key = some user →
    (r.resources user).keys ≠ ∅
  user : ∃ user, r.hostSessions.get (host, username) = some user
  free : r.lookup ⟨host, username, resource⟩ = none
  object : r.objects.get id = some session

theorem Consistent.addReady (hr : r.Consistent) {t : TableId}
    (hinhabited : ∀ key user, r.hostSessions.get key = some user → (r.resources user).keys ≠ ∅)
    (hnone : r.hostSessions.get (host, username) = none) (hempty : (r.tables.get t).getD ∅ = ∅)
    (ht : t ≤ r.fresh)
    (hunused : ∀ key user, r.hostSessions.get key = some user → user.sessions ≠ t)
    (hget : r.objects.get id = some session) (resource : String) :
    Ready (r.addUser host username t) host username resource id session := by
  constructor
  · exact hr.addUser hnone hempty ht hunused
  · intro key user hkey huser
    rw [Registry.addUser, Table.get_set_of_ne _ hkey] at huser
    exact hinhabited key user huser
  · exact ⟨_, Table.get_set_self _ _ _⟩
  · rw [lookup_addUser hnone hempty]
    simp [lookup, hnone]
  · exact hget

theorem Settled.addFresh (hr : r.Settled) (hget : r.objects.get id = some session)
    (hnone : r.hostSessions.get (host, username) = none) (resource : String) :
    Ready ({ r with tables := r.tables.set r.fresh (some ∅) }.addUser host username r.fresh)
      host username resource id session := by
  obtain ⟨base, hbase⟩ : ∃ base : Registry,
      base = { r with tables := r.tables.set r.fresh (some ∅) } := ⟨_, rfl⟩
  have hhosts : base.hostSessions = r.hostSessions := by rw [hbase]
  have hunused : ∀ key user, r.hostSessions.get key = some user → user.sessions ≠ r.fresh :=
    fun key user huser => (hr.consistent.tables key user huser).ne
  have hresources : ∀ key user, r.hostSessions.get key = some user →
      base.resources user = r.resources user := by
    intro key user huser
    rw [hbase]
    simp only [resources, Table.get_set_of_ne _ (hunused key user huser)]
  have hlookup : ∀ q, base.lookup q = r.lookup q := by
    intro q
    cases huser : r.hostSessions.get (q.host, q.username) with
    | none => simp [lookup, hhosts, huser]
    | some user => simp [lookup, hhosts, huser, hresources _ user huser]
  have hconsistent : base.Consistent := by
    rw [hbase] at hlookup ⊢
    exact hr.consistent.rehost rfl rfl hlookup le_rfl hr.consistent.tables hr.consistent.apart
      hr.consistent.bare
  rw [← hbase]
  refine hconsistent.addReady ?_ ?_ ?_ ?_ ?_ ?_ resource
  · intro key user huser
    rw [hhosts] at huser
    rw [hresources key user huser]
    exact hr.inhabited key user huser
  · rw [hhosts]
    exact hnone
  · simp [hbase]
  · simp [hbase]
  · intro key user huser
    rw [hhosts] at huser
    exact hunused key user huser
  · rw [hbase]
    exact hget

theorem Released.ready {old : SessionId} (h : Released r p user old restingSession r')
    (hr : r.Settled) (huser : r.hostSessions.get (p.host, p.username) = some user)
    (hne : id ≠ old) (hget : r.objects.get id = some session) :
    Ready (if (r'.resources user).keys = ∅ then r'.addUser p.host p.username user.sessions else r')
      p.host p.username p.resource id session := by
  have hobject : r'.objects.get id = some session := by
    rw [h.objects, Table.get_set_of_ne _ hne]
    exact hget
  have hhosts := h.hostSessions
  by_cases hkeys : (r'.resources user).keys = ∅
  · rw [if_pos hkeys] at hhosts ⊢
    have hnone : r'.hostSessions.get (p.host, p.username) = none := by
      rw [hhosts, Table.get_set_self]
    have hempty : (r'.tables.get user.sessions).getD ∅ = ∅ := by
      ext k : 1
      rw [Table.get_empty]
      exact Table.get_of_keys_eq_empty hkeys k
    refine h.consistent.addReady h.inhabited hnone hempty ?_ ?_ hobject p.resource
    · rw [h.fresh]
      exact (hr.consistent.tables _ user huser).le
    · intro key other hother hsame
      have hold : r.hostSessions.get key = some other := by
        rw [hhosts, Table.get_set] at hother
        split at hother
        · cases hother
        · exact hother
      rw [hr.consistent.apart key _ other user hold huser hsame, hnone] at hother
      cases hother
  · rw [if_neg hkeys] at hhosts ⊢
    have hfree : r'.lookup p = none := by rw [h.lookup, if_pos rfl]
    exact ⟨h.consistent, fun key other _ hother => h.inhabited key other hother,
      ⟨user, by rw [hhosts, huser]⟩, hfree, hobject⟩

theorem Settled.resolveConflict (hr : r.Settled) (host : Host) (username : Username)
    (resource : String) (hget : r.objects.get id = some session)
    (hunbound : session.resource = none) {b : Binding}
    (hkick : ∀ old, b.policy = .kickOld → r.lookup ⟨host, username, resource⟩ = some old →
      false ∈ b.closing) :
    (∃ error, r.resolveConflict host username resource b = .refused error) ∨
      ∃ resource' r', r.resolveConflict host username resource b = .free resource' r' ∧
        Ready r' host username resource' id session := by
  unfold Registry.resolveConflict
  cases huser : r.hostSessions.get (host, username) with
  | none => exact Or.inr ⟨_, _, rfl, hr.addFresh hget huser resource⟩
  | some user =>
    have hready : ∀ name, (r.resources user).get name = none →
        Ready r host username name id session := by
      intro name hname
      refine ⟨hr.consistent, fun key other _ hother => hr.inhabited key other hother,
        ⟨user, huser⟩, ?_, hget⟩
      simp [lookup, huser, hname]
    cases hold : (r.resources user).get resource with
    | none =>
      simp only [hold]
      exact Or.inr ⟨_, _, rfl, hready resource hold⟩
    | some old =>
      have hlookup : r.lookup ⟨host, username, resource⟩ = some old := by
        simp [lookup, huser, hold]
      simp only [hold]
      cases hpolicy : b.policy with
      | random => exact Or.inr ⟨_, _, rfl, hready _ (get_incremented _ _)⟩
      | increment => exact Or.inr ⟨_, _, rfl, hready _ (get_incremented _ _)⟩
      | kickNew => exact Or.inl ⟨_, rfl⟩
      | kickOld =>
        obtain ⟨kicked, hkicked, hto⟩ := (hr.consistent.bound _ old).mp hlookup
        obtain ⟨r', hclose, hreleased⟩ :=
          hr.closeSession hkicked hto huser (hkick old hpolicy hlookup)
        have hne : id ≠ old := by
          rintro rfl
          rw [hget] at hkicked
          cases hkicked
          rw [hto.resource] at hunbound
          cases hunbound
        have hfree := hreleased.ready hr huser hne hget
        simp only [hclose]
        split
        · rename_i hkeys
          rw [if_pos hkeys] at hfree
          exact Or.inr ⟨_, _, rfl, hfree⟩
        · rename_i hkeys
          rw [if_neg hkeys] at hfree
          exact Or.inr ⟨_, _, rfl, hfree⟩

theorem Settled.alive (hr : r.Settled) (hget : r.objects.get id = some session)
    (husername : session.username = some username) : session.destroyed = false := by
  cases halive : session.destroyed with
  | false => rfl
  | true =>
    have hnone := hr.consistent.resting id session hget halive
    rw [husername] at hnone
    cases hnone

theorem Settled.unbindResource (hr : r.Settled) (hget : r.objects.get id = some session)
    (hto : session.BoundTo p) :
    (r.unbindResource id p.host p.username p.resource).2.Settled := by
  obtain ⟨user, huser, -⟩ := hr.consistent.user_of_bound hget hto
  have hassigned : Assigned r p none id session.unbind
      (({ r with fullSessions := r.fullSessions.set p.fullJid none }.setResource user p.resource
        none).modifySession id Session.unbind) := by
    constructor
    · simp [modifySession, setResource, hget]
    · exact ⟨user, huser, rfl⟩
    · rfl
    · rfl
    · rfl
    · rfl
  have hreleased := hassigned.release hr.consistent
    (fun key other _ hother => hr.inhabited key other hother) huser hget hto ⟨rfl, rfl⟩
    fun hdestroyed => absurd hto.alive (by simpa [Session.unbind] using hdestroyed)
  have hbare : r.bareSessions.get (bareJid p.username p.host) = some user := by
    rw [hr.consistent.bare]
    exact huser
  simp only [Registry.unbindResource, huser]
  simp only [modifySession, setResource, hbare]
  exact hreleased.settled

theorem Ready.enter (h : Ready r host username resource id session)
    (huser : r.hostSessions.get (host, username) = some user) (hhost : session.host = some host)
    (husername : session.username = some username) (halive : session.destroyed = false)
    (hunbound : session.resource = none) :
    (r.enterSession id host username resource user).Settled ∧
      ∃ bound, (r.enterSession id host username resource user).objects.get id = some bound ∧
        bound.BoundTo ⟨host, username, resource⟩ := by
  have hto : (session.bindTo host username resource).toC2s.BoundTo ⟨host, username, resource⟩ :=
    ⟨halive, hhost, husername, rfl, rfl⟩
  have hassigned : Assigned r ⟨host, username, resource⟩ (some id) id
      (session.bindTo host username resource).toC2s
      (r.enterSession id host username resource user) := by
    constructor
    · simp [enterSession, modifySession, setResource, h.object]
    · exact ⟨user, huser, rfl⟩
    · rfl
    · rfl
    · rfl
    · rfl
  refine ⟨⟨?_, fun key other hother => ?_⟩, _, by rw [hassigned.objects, Table.get_set_self], hto⟩
  · refine h.consistent.assign hassigned h.object (Or.inr rfl) ?_ (fun _ => ⟨_, hto⟩) ?_ ?_ ?_
    · intro q
      refine ⟨fun hq => ⟨rfl, hq.unique hto⟩, ?_⟩
      rintro ⟨-, rfl⟩
      exact hto
    · intro hdestroyed
      rw [hto.alive] at hdestroyed
      cases hdestroyed
    · intro q hq
      have hresource := hq.resource
      rw [hunbound] at hresource
      cases hresource
    · intro x hx
      rw [h.free] at hx
      cases hx
  · obtain ⟨hothers, hself⟩ := hassigned.resources h.consistent huser
    rw [hassigned.hostSessions] at hother
    by_cases hkey : key = (host, username)
    · rw [hkey, huser] at hother
      cases hother
      intro hempty
      have hnone := Table.get_of_keys_eq_empty hempty resource
      rw [hself, Table.get_set_self] at hnone
      cases hnone
    · rw [hothers key other hother hkey]
      exact h.inhabited key other hkey hother

theorem Ready.register (h : Ready r host username resource id session)
    (hhost : session.host = some host) (husername : session.username = some username)
    (halive : session.destroyed = false) (hunbound : session.resource = none) (rosterLoads : Bool) :
    (r.register id host username resource rosterLoads).2.Settled := by
  obtain ⟨user, huser⟩ := h.user
  obtain ⟨hsettled, bound, hget, hto⟩ := h.enter huser hhost husername halive hunbound
  have hback := hsettled.unbindResource hget hto
  simp only [Registry.register, huser]
  split
  · exact hsettled
  · exact hback

theorem Settled.bindResource (hr : r.Settled) {enc : Encodings} {b : Binding}
    (hkick : ∀ old, Kicks enc r id b old → false ∈ b.closing) :
    (r.bindResource enc id b).2.Settled := by
  unfold Registry.bindResource
  split
  · exact hr
  rename_i session hget
  split
  · exact hr
  rename_i username husername
  split
  · exact hr
  rename_i hresource
  have hunbound : session.resource = none := by simpa using hresource
  split
  · exact hr
  rename_i host hhost
  split
  · exact hr
  · exact hr
  rename_i requested hpre
  have hclean : ∀ old, b.policy = .kickOld →
      r.lookup ⟨host, username, prepResource enc requested b.identifier⟩ = some old →
      false ∈ b.closing := fun old hpolicy hold =>
    hkick old ⟨session, host, username, requested, hget, husername, hunbound, hhost, hpre,
      hpolicy, hold⟩
  rcases hr.resolveConflict host username (prepResource enc requested b.identifier) hget hunbound
    hclean with ⟨error, hcall⟩ | ⟨resource, r', hcall, hready⟩
  · simp only [hcall]
    exact hr
  · simp only [hcall]
    exact hready.register hhost husername (hr.alive hget husername) hunbound b.rosterLoads

/-! ## Runs -/

theorem Settled.newSession (hr : r.Settled) (host : Host) : (r.newSession host).2.Settled := by
  refine hr.setUnbound r.fresh _ rfl rfl rfl rfl rfl (Nat.le_succ _) (Nat.lt_succ_self _) ?_
    ⟨rfl, rfl⟩ fun _ => rfl
  intro old q hold
  exact absurd (hr.consistent.objects _ old hold) (lt_irrefl _)

theorem Settled.makeAuthenticated (hr : r.Settled) (enc : Encodings) (name : String)
    (hget : r.objects.get id = some session)
    (hunbound : session.resource = none ∧ session.fullJid = none)
    (halive : session.destroyed = false) : (r.makeAuthenticated enc id name).Settled := by
  unfold Registry.makeAuthenticated
  split
  · exact hr
  rename_i username _
  split
  · exact hr
  refine hr.setUnbound id
    { session with
      username := some username
      type := if session.type = .c2sUnauthed then .c2sUnbound else session.type }
    ?_ rfl rfl rfl rfl le_rfl (hr.consistent.objects id session hget) ?_ hunbound ?_
  · simp [modifySession, hget]
  · intro old q hold hto
    rw [hget] at hold
    cases hold
    have hresource := hto.resource
    rw [hunbound.1] at hresource
    cases hresource
  · intro hdestroyed
    rw [halive] at hdestroyed
    cases hdestroyed

end

end Registry

/-! ## Runs -/

/-- A kicked session is let through by the handlers when it is closed. -/
def Op.KicksCleanly (enc : Encodings) (r : Registry) : Op → Prop
  | .bind id b => ∀ old, r.Kicks enc id b old → false ∈ b.closing
  | _ => True

open Registry in
theorem Registry.Settled.step {r : Registry} (hr : r.Settled) {enc : Encodings} {op : Op}
    (hop : op.KicksCleanly enc r) : (r.step enc op).Settled := by
  cases op with
  | connect host name =>
    exact (hr.newSession host).makeAuthenticated enc name (Table.get_set_self _ _ _) ⟨rfl, rfl⟩ rfl
  | bind id b => exact hr.bindResource hop
  | destroy id veto => exact (hr.destroy id veto).1

theorem Registry.settled_empty : Registry.empty.Settled := by
  have hlookup : ∀ p id, Registry.empty.lookup p ≠ some id := fun p id => by
    simp [Registry.lookup, Registry.empty]
  have hobjects : ∀ id session, Registry.empty.objects.get id ≠ some session := fun id session => by
    simp [Registry.empty]
  have hhosts : ∀ key user, Registry.empty.hostSessions.get key ≠ some user := fun key user => by
    simp [Registry.empty]
  constructor
  · constructor
    · exact fun id session hget => absurd hget (hobjects id session)
    · exact fun key user hget => absurd hget (hhosts key user)
    · exact fun key key' user user' hget => absurd hget (hhosts key user)
    · exact fun host username => rfl
    · intro f id
      refine iff_of_false (by simp [Registry.empty]) ?_
      rintro ⟨p, -, hp⟩
      exact hlookup p id hp
    · intro p id
      refine iff_of_false (hlookup p id) ?_
      rintro ⟨session, hget, -⟩
      exact hobjects id session hget
    · exact fun id session hget => absurd hget (hobjects id session)
    · exact fun id session hget => absurd hget (hobjects id session)
  · exact fun key user hget => absurd hget (hhosts key user)

/-! ## What the registry promises -/

/-- `full_sessions` has the sessions of `hosts` and `bare_sessions` its users, who are there
exactly if a session is bound for them, and no session that is destroyed takes another one out. -/
structure RegistryAgrees (r : Registry) : Prop where
  full : ∀ f id, r.fullSessions.get f = some id ↔ ∃ p : Place, f = p.fullJid ∧ r.lookup p = some id
  bare : ∀ host username, r.bareSessions.get (bareJid username host) =
    r.hostSessions.get (host, username)
  users : ∀ host username, (r.bareSessions.get (bareJid username host)).isSome ↔
    ∃ id session resource, r.objects.get id = some session ∧
      session.BoundTo ⟨host, username, resource⟩
  alone : ∀ id veto, r.DestroysAlone id (r.destroySession id veto)

theorem Registry.Settled.agrees {r : Registry} (hr : r.Settled) : RegistryAgrees r where
  full := hr.consistent.full
  bare := hr.consistent.bare
  users host username := by
    rw [hr.consistent.bare]
    constructor
    · intro hsome
      obtain ⟨user, huser⟩ := Option.isSome_iff_exists.mp hsome
      obtain ⟨resource, hresource⟩ :=
        Finset.nonempty_iff_ne_empty.mpr (hr.inhabited (host, username) user huser)
      obtain ⟨id, hid⟩ := (Table.mem_keys _ _).mp hresource
      have hlookup : r.lookup ⟨host, username, resource⟩ = some id := by
        simp [Registry.lookup, huser, hid]
      obtain ⟨session, hget, hto⟩ := (hr.consistent.bound _ id).mp hlookup
      exact ⟨id, session, resource, hget, hto⟩
    · rintro ⟨id, session, resource, hget, hto⟩
      obtain ⟨user, huser, -⟩ := hr.consistent.user_of_bound hget hto
      exact Option.isSome_iff_exists.mpr ⟨user, huser⟩
  alone id veto := (hr.destroy id veto).2

/-- In every run in which kicked sessions are let through, the registry agrees with the sessions
throughout. -/
theorem registry_agrees (enc : Encodings) (ops : List Op)
    (hops : Machine.Guarded (Registry.step enc) (fun r op => op.KicksCleanly enc r)
      Registry.empty ops) :
    Machine.Always (Registry.step enc) RegistryAgrees Registry.empty ops :=
  (Machine.always_of_guarded (fun _ _ hr hop => hr.step hop) Registry.settled_empty hops).mono
    fun _ hr => hr.agrees

/-- Preparations that leave names without a separator alone. -/
def plainEncodings : Encodings where
  nodeprep name := if h : '@' ∉ name.toList then some ⟨name, h⟩ else none
  resourceprep := some

def verona : Host := ⟨"verona", by decide⟩

/-- A client asks for the resource `orchard`. -/
def orchard (veto : Bool) : Binding where
  preBind := .proceed (some "orchard")
  identifier := "a"
  policy := .kickOld
  replacement := "b"
  closing := [veto]
  rosterLoads := true

/-- A second client takes the resource of the first. -/
theorem registry_agrees_kick :
    Machine.Always (Registry.step plainEncodings) RegistryAgrees Registry.empty
      [.connect verona "romeo", .bind 0 (orchard false), .connect verona "romeo",
        .bind 2 (orchard false), .destroy 0 false] :=
  registry_agrees plainEncodings _
    ⟨trivial, fun _ _ => List.mem_singleton.mpr rfl, trivial,
      fun _ _ => List.mem_singleton.mpr rfl, trivial, trivial⟩

/-- A session that the handlers keep alive when it is kicked unregisters its successor when it
is destroyed. -/
theorem kept_session_unregisters :
    let r := Machine.run (Registry.step plainEncodings) Registry.empty
      [.connect verona "romeo", .bind 0 (orchard false), .connect verona "romeo",
        .bind 2 (orchard true)]
    r.fullSessions.get "romeo@verona/orchard" = some 2 ∧
      (r.step plainEncodings (.destroy 0 false)).fullSessions.get "romeo@verona/orchard" = none ∧
      ¬ RegistryAgrees r := by
  intro r
  have hthere : r.fullSessions.get "romeo@verona/orchard" = some 2 := by decide +kernel
  have hgone : (r.step plainEncodings (.destroy 0 false)).fullSessions.get "romeo@verona/orchard" =
      none := by decide +kernel
  refine ⟨hthere, hgone, fun hagrees => ?_⟩
  have hkept := (hagrees.alone 0 false).others _ 2 (by decide) hthere
  rw [show (r.destroySession 0 false).2 = r.step plainEncodings (.destroy 0 false) from rfl,
    hgone] at hkept
  cases hkept

end Prosody.SessionManager
