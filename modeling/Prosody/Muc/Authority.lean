import Prosody.Library.Runs
import Prosody.Muc.Housing
import Prosody.Muc.Occupancy

/-! # Who may change roles and affiliations

The two ladders of permissions, in `set_affiliation` and `set_role`, and what a call that gets
through them does to the room. -/

namespace Prosody.Muc

namespace Room

/-! ## What changes of roles do to the occupants -/

variable {r : Room}

theorem Consistent.saveRole_get (h : r.Consistent) (ord : KeyOrder String)
    {o : Occupant} {n : String} (ho : r.occupants.get n = some o) (role : Option Role)
    (m : String) : (r.saveOccupant ord { o with role := role }).occupants.get m =
      if m = n then role.map (fun role => { o with role := some role })
      else r.occupants.get m :=
  h.housed.setRole_get ord ho role m

/-! ## Affiliations -/

variable {jid : String}

/-- Everything but a ban is found under the bare address alone. -/
theorem storedAffiliation_iff {a : Affiliation} (ha : a ≠ .outcast) :
    r.storedAffiliation jid = some a ↔
      ∃ b, Jid.bare jid = some b ∧ r.affiliations.get b = some a := by
  unfold storedAffiliation Jid.bare
  cases Jid.split jid with
  | none => simp
  | some parts =>
    simp only [Option.bind_some, Option.map_some, Option.some.injEq, exists_eq_left']
    cases r.affiliations.get parts.bareParts.join with
    | some a' => simp
    | none =>
      rw [Option.none_or]
      split
      · simpa using ha.symm
      · simp

variable {actor : Actor} {affiliation : Option String} {sv : Server}

theorem affiliationChange_ok {target : Jid} {affiliation' : Option Affiliation}
    (h : r.affiliationChange sv actor jid affiliation = .ok (target, affiliation')) :
    ¬ (affiliation ≠ some "owner" ∧ sv.isAdmin jid) ∧ Jid.split jid = some target ∧
      parseAffiliation affiliation = some affiliation' ∧
      r.affiliationDenied sv actor target.bareParts.join affiliation' = none := by
  unfold affiliationChange at h
  split at h
  · cases h
  · rename_i hadmin
    split at h
    · cases h
    · split at h
      · rename_i target' a hs hp
        split at h
        · cases h
        · rename_i hd
          cases h
          exact ⟨hadmin, hs, hp, hd⟩
      · cases h

/-- The ladder of `set_affiliation`: owners may do anything but leave the room without one, and
admins may do what concerns neither owners nor admins. -/
theorem affiliationDenied_none {actor : String} {affiliation : Option Affiliation}
    (h : r.affiliationDenied sv (.user actor) jid affiliation = none) :
    (r.getAffiliation sv actor = some .owner ∧
      (Jid.bare actor = some jid → ∃ j, j ≠ jid ∧ r.affiliations.get j = some .owner)) ∨
    (r.getAffiliation sv actor = some .admin ∧
      affiliation ≠ some .owner ∧ affiliation ≠ some .admin ∧
      r.affiliations.get jid ≠ some .owner ∧ r.affiliations.get jid ≠ some .admin) := by
  unfold affiliationDenied at h
  dsimp only at h
  split at h
  · rename_i howner
    left
    refine ⟨howner, ?_⟩
    intro hself
    split at h
    · cases h
    · rename_i hlast
      push Not at hlast
      obtain ⟨j, -, hj, hne⟩ := hlast hself
      exact ⟨j, hne, hj⟩
  · split at h
    · cases h
    · rename_i hladder
      push Not at hladder
      obtain ⟨h1, h2, h3, h4, h5⟩ := hladder
      exact Or.inr ⟨h3, h1, h2, h4, h5⟩

theorem setAffiliation_ok {env : Env}
    {data : DataArg} {u : Unit} (h : (r.setAffiliation sv env actor jid affiliation data).2 = .ok u) :
    ∃ target affiliation',
      r.affiliationChange sv actor jid affiliation = .ok (target, affiliation') ∧
      (r.setAffiliation sv env actor jid affiliation data).1 =
        r.applyAffiliation env target affiliation' data := by
  unfold setAffiliation at h ⊢
  cases hc : r.affiliationChange sv actor jid affiliation with
  | error e =>
    rw [hc] at h
    cases h
  | ok change => exact ⟨change.1, change.2, rfl, rfl⟩

theorem setAffiliation_error {env : Env} {data : DataArg} {e : Error}
    (h : (r.setAffiliation sv env actor jid affiliation data).2 = .error e) :
    (r.setAffiliation sv env actor jid affiliation data).1 = r ∧
      r.affiliationChange sv actor jid affiliation = .error e := by
  unfold setAffiliation at h ⊢
  cases hc : r.affiliationChange sv actor jid affiliation with
  | error e' =>
    rw [hc] at h
    cases h
    exact ⟨rfl, rfl⟩
  | ok change =>
    rw [hc] at h
    cases h

theorem setRole_error {env : Env} {nick : String}
    {role : Option String} {e : Error} (h : (r.setRole sv env actor nick role).2 = .error e) :
    (r.setRole sv env actor nick role).1 = r := by
  unfold setRole at h ⊢
  cases hc : r.roleChange sv actor nick role with
  | error e' => rfl
  | ok change =>
    rw [hc] at h
    cases h

@[simp] theorem applyAffiliation_affiliations (env : Env) (r : Room) (target : Jid)
    (affiliation : Option Affiliation) (data : DataArg) :
    (r.applyAffiliation env target affiliation data).affiliations =
      r.affiliations.set target.bareParts.join affiliation := by
  simp [applyAffiliation, storeAffiliation]

section

variable {sv : Server} {r : Room}

theorem Housed.applyAffiliation_get (h : r.Housed) (env : Env) (target : Jid)
    (affiliation : Option Affiliation) (data : DataArg) (nick : String) :
    (r.applyAffiliation env target affiliation data).occupants.get nick =
      (r.occupants.get nick).bind (withRole (roleAfterChange target affiliation
        (affiliationRank affiliation <
          affiliationRank (r.affiliations.get target.bareParts.join))
        ((r.storeAffiliation target.bareParts.join affiliation data).getDefaultRole env
          affiliation))) := by
  unfold Room.applyAffiliation
  have hs : (r.storeAffiliation target.bareParts.join affiliation data).Housed := h.of_eq rfl rfl
  exact hs.updateRoles_get env.order _ nick

theorem isAdmin_bare {jid b : String} (h : Jid.bare jid = some b) :
    sv.isAdmin b = sv.isAdmin jid := by
  simp only [Server.isAdmin, h, Jid.bare_bare h, Option.any_some]

theorem parseAffiliation_owner {affiliation : Option String}
    (h : parseAffiliation affiliation ≠ some (some .owner)) : affiliation ≠ some "owner" := by
  rintro rfl
  exact h rfl

theorem getDefaultRole_outcast (env : Env) : r.getDefaultRole env (some .outcast) = none := by
  simp [getDefaultRole, affiliationRank]

/-! ## Reserving a nick -/

variable (r sv) in
theorem reserveNick_affiliationChange (env : Env) (jid : String) (nick : Option String)
    (who : Actor) (target : String) (affiliation : Option String) :
    (r.reserveNick sv env jid nick).affiliationChange sv who target affiliation =
      r.affiliationChange sv who target affiliation := by
  have h : (r.reserveNick sv env jid nick).affiliations = r.affiliations := by simp
  generalize r.reserveNick sv env jid nick = r' at h
  -- the tables agree, and nothing else of the room is read
  cases r
  cases r'
  cases h
  rfl

variable (r sv) in
theorem reserveNick_getAffiliation (env : Env) (jid : String) (nick : Option String) :
    (r.reserveNick sv env jid nick).getAffiliation sv = r.getAffiliation sv := by
  funext jid'
  simp only [getAffiliation, storedAffiliation, reserveNick_affiliations]

theorem Housed.holdsReserved_iff (h : r.Housed) {jid n : String} :
    r.holdsReserved jid n = true ↔
      ∃ o, r.occupants.get (r.occupantJid n) = some o ∧ o.bareJid ≠ some jid := by
  simp [Room.holdsReserved, h.getOccupantByNick, Option.any_eq_true]

theorem Housed.reserveNick_get (h : r.Housed) (env : Env) {jid n : String} {o : Occupant}
    (ho : r.occupants.get (r.occupantJid n) = some o) (hne : o.bareJid ≠ some jid) (m : String) :
    (r.reserveNick sv env jid (some n)).occupants.get m =
      if m = r.occupantJid n then none else r.occupants.get m := by
  have hholds : r.holdsReserved jid n = true := h.holdsReserved_iff.mpr ⟨o, ho, hne⟩
  have hchange : r.roleChange sv .service (r.occupantJid n) none = .ok (o, none) := by
    simp [roleChange, h.getOccupantByNick, ho, parseRole, roleDenied]
  simp only [Room.reserveNick, hholds, if_true, Room.setRole, hchange]
  rw [h.setRole_get env.order ho]
  rfl

/-- Whoever is left under a nick that was reserved is the user it was reserved for. -/
theorem Housed.reserveNick_holder (h : r.Housed) (env : Env) {jid n : String} {o : Occupant}
    (ho : (r.reserveNick sv env jid (some n)).occupants.get (r.occupantJid n) = some o) :
    o.bareJid = some jid := by
  by_contra hne
  obtain ⟨o', ho', hb⟩ := (h.reserveNick sv env jid (some n)).2 _ o ho
  rw [hb] at hne
  rw [h.reserveNick_get env ho' hne, if_pos rfl] at ho
  cases ho

end

end Room

end Prosody.Muc
