import Prosody.Muc.Room

/-! # Consistent rooms

Two tables have to be kept in step: the occupants by nick, and `_jid_nick` from the address of
a client to the nick it is under. Every change goes through `save_occupant`. -/

namespace Prosody.Muc

namespace Room

/-! ## What saving an occupant does -/

section

variable (ord : KeyOrder String) (r : Room) (o : Occupant)

theorem saveOccupant_get_of_ne {n : String} (h : n ≠ o.nick) :
    (r.saveOccupant ord o).occupants.get n = r.occupants.get n :=
  Table.get_set_of_ne _ h _

theorem saveOccupant_get_live (hr : o.role ≠ none) {j : String} (hj : o.Live j) :
    (r.saveOccupant ord o).occupants.get o.nick = some o.copy := by
  have hlive : o.copy.liveSessions ord ≠ [] := by
    intro hnil
    exact (Occupant.liveSessions_eq_nil ord).mp hnil j (Occupant.copy_live.mpr hj)
  simp [saveOccupant, hr, hlive]

theorem saveOccupant_get_gone (h : o.role = none ∨ ∀ j, ¬ o.Live j) :
    (r.saveOccupant ord o).occupants.get o.nick = none := by
  have hlive : (if o.copy.role = none then [] else o.copy.liveSessions ord) = [] := by
    split
    · rfl
    · rename_i hr
      rw [Occupant.liveSessions_eq_nil]
      intro j hj
      exact h.resolve_left hr j (Occupant.copy_live.mp hj)
  simp only [saveOccupant, hlive, if_true, Occupant.copy_nick, Table.get_set_self]

theorem saveOccupant_jidNick_live (hr : o.role ≠ none) {j : String} (hj : o.Live j) :
    (r.saveOccupant ord o).jidNick.get j = some o.nick := by
  have hmem : j ∈ o.copy.liveSessions ord :=
    (Occupant.mem_liveSessions ord).mpr (Occupant.copy_live.mpr hj)
  simp [saveOccupant, Table.get_setEach, hr, hmem]

/-- A client without an available session is in the index only under another nick. -/
theorem saveOccupant_jidNick_other {j : String} (h : o.role = none ∨ ¬ o.Live j) :
    (r.saveOccupant ord o).jidNick.get j =
      if ((r.occupants.get o.nick).bind fun old => old.sessions.get j).isSome then none
      else r.jidNick.get j := by
  have hmem : j ∉ (if o.copy.role = none then [] else o.copy.liveSessions ord) := by
    split
    · exact List.not_mem_nil
    · rename_i hr
      intro hj
      exact h.resolve_left hr (Occupant.copy_live.mp ((Occupant.mem_liveSessions ord).mp hj))
  simp only [saveOccupant, Table.get_setEach, hmem, if_false, Occupant.copy_nick]
  cases hold : r.occupants.get o.nick with
  | none => simp
  | some old =>
    have hkeys : j ∈ ord.keys old.sessions.keys ↔ (old.sessions.get j).isSome := by
      rw [ord.mem_keys, Table.mem_keys, Option.isSome_iff_exists]
    simp only [hkeys, Option.bind_some]

end

variable {r : Room}

theorem saveOccupant_cases {ord : KeyOrder String} {o o' : Occupant} {n : String}
    (h : (r.saveOccupant ord o).occupants.get n = some o') :
    (n = o.nick ∧ o' = o.copy ∧ o.role ≠ none ∧ ∃ j, o.Live j) ∨
      (n ≠ o.nick ∧ r.occupants.get n = some o') := by
  by_cases hn : n = o.nick
  · left
    subst hn
    by_cases hkept : o.role ≠ none ∧ ∃ j, o.Live j
    · obtain ⟨hr, j, hj⟩ := hkept
      rw [saveOccupant_get_live ord r o hr hj] at h
      exact ⟨rfl, (Option.some.inj h).symm, hr, j, hj⟩
    · have hgone : o.role = none ∨ ∀ j, ¬ o.Live j := by
        by_contra hc
        push Not at hc
        exact hkept ⟨hc.1, hc.2⟩
      rw [saveOccupant_get_gone ord r o hgone] at h
      cases h
  · right
    rw [saveOccupant_get_of_ne ord r o hn] at h
    exact ⟨hn, h⟩

/-! ## What saving leaves alone -/

structure SameConfig (r r' : Room) : Prop where
  jid : r'.jid = r.jid
  affiliations : r'.affiliations = r.affiliations
  affiliationData : r'.affiliationData = r.affiliationData
  membersOnly : r'.membersOnly = r.membersOnly
  moderated : r'.moderated = r.moderated

theorem SameConfig.refl (r : Room) : r.SameConfig r := ⟨rfl, rfl, rfl, rfl, rfl⟩

theorem SameConfig.trans {r₁ r₂ r₃ : Room} (h : r₁.SameConfig r₂) (h' : r₂.SameConfig r₃) :
    r₁.SameConfig r₃ :=
  ⟨h'.jid.trans h.jid, h'.affiliations.trans h.affiliations,
    h'.affiliationData.trans h.affiliationData, h'.membersOnly.trans h.membersOnly,
    h'.moderated.trans h.moderated⟩

theorem sameConfig_saveOccupant (ord : KeyOrder String) (r : Room) (o : Occupant) :
    r.SameConfig (r.saveOccupant ord o) := ⟨rfl, rfl, rfl, rfl, rfl⟩

theorem sameConfig_updateRole (ord : KeyOrder String)
    (newRole : Occupant → Option (Option Role)) (r : Room) (n : String) :
    r.SameConfig (updateRole ord newRole r n) := by
  unfold updateRole
  split
  · exact SameConfig.refl r
  · split
    · exact SameConfig.refl r
    · exact sameConfig_saveOccupant ord r _

theorem sameConfig_updateRoles (ord : KeyOrder String) (r : Room)
    (newRole : Occupant → Option (Option Role)) : r.SameConfig (r.updateRoles ord newRole) := by
  unfold updateRoles
  exact List.foldlRecOn _ _ (SameConfig.refl r) fun r' h n _ =>
    h.trans (sameConfig_updateRole ord newRole r' n)

theorem sameConfig_setRole (sv : Server) (env : Env) (r : Room) (actor : Actor) (nick : String)
    (role : Option String) : r.SameConfig (r.setRole sv env actor nick role).1 := by
  unfold setRole
  split
  · exact SameConfig.refl r
  · exact sameConfig_saveOccupant _ r _

theorem sameConfig_reserveNick (sv : Server) (env : Env) (r : Room) (jid : String)
    (nick : Option String) : r.SameConfig (r.reserveNick sv env jid nick) := by
  cases nick with
  | none => exact SameConfig.refl r
  | some nick =>
    dsimp only [reserveNick]
    split
    · exact sameConfig_setRole sv env r _ _ _
    · exact SameConfig.refl r

theorem sameConfig_handleKickable (env : Env) (r : Room) (realJid : String) :
    r.SameConfig (r.handleKickable env realJid) := by
  unfold handleKickable
  split
  · exact SameConfig.refl r
  · exact sameConfig_saveOccupant _ r _

theorem sameConfig_handleNormalPresence (sv : Server) (env : Env) (r : Room) (stanza : Presence)
    (verdict : Verdict) : r.SameConfig (r.handleNormalPresence sv env stanza verdict) := by
  unfold handleNormalPresence leaveRoom changeNick
  dsimp only
  repeat' first | exact ⟨rfl, rfl, rfl, rfl, rfl⟩ | split

theorem sameConfig_handlePresenceToOccupant (sv : Server) (env : Env) (r : Room)
    (stanza : Presence) (verdict : Verdict) :
    r.SameConfig (r.handlePresenceToOccupant sv env stanza verdict) := by
  unfold handlePresenceToOccupant
  split
  · exact sameConfig_handleKickable env r _
  · split
    · exact sameConfig_handleNormalPresence sv env r stanza verdict
    · exact SameConfig.refl r

@[simp] theorem updateRoles_affiliations (ord : KeyOrder String) (r : Room)
    (newRole : Occupant → Option (Option Role)) :
    (r.updateRoles ord newRole).affiliations = r.affiliations :=
  (sameConfig_updateRoles ord r newRole).affiliations

@[simp] theorem setRole_affiliations (sv : Server) (env : Env) (r : Room) (actor : Actor)
    (nick : String) (role : Option String) :
    (r.setRole sv env actor nick role).1.affiliations = r.affiliations :=
  (sameConfig_setRole sv env r actor nick role).affiliations

@[simp] theorem reserveNick_affiliations (sv : Server) (env : Env) (r : Room) (jid : String)
    (nick : Option String) : (r.reserveNick sv env jid nick).affiliations = r.affiliations :=
  (sameConfig_reserveNick sv env r jid nick).affiliations

theorem sameConfig_applyAffiliation (env : Env) (r : Room) (target : Jid)
    (a : Option Affiliation) (data : DataArg) :
    (r.storeAffiliation target.bareParts.join a data).SameConfig
      (r.applyAffiliation env target a data) := sameConfig_updateRoles _ _ _

theorem setAffiliation_jid (sv : Server) (env : Env) (r : Room) (actor : Actor) (jid : String)
    (affiliation : Option String) (data : DataArg) :
    (r.setAffiliation sv env actor jid affiliation data).1.jid = r.jid := by
  unfold setAffiliation
  split
  · rfl
  · exact (sameConfig_applyAffiliation env r _ _ data).jid

theorem step_jid (sv : Server) (env : Env) (r : Room) (op : Op) :
    (r.step sv (env, op)).jid = r.jid := by
  cases op with
  | presence stanza verdict =>
    dsimp only [Room.step]
    split
    · exact (sameConfig_handlePresenceToOccupant sv env r stanza verdict).jid
    · rfl
  | kick realJid => exact (sameConfig_handleKickable env r realJid).jid
  | setRole actor nick role => exact (sameConfig_setRole sv env r actor nick role).jid
  | setAffiliation actor jid affiliation data => exact setAffiliation_jid sv env r _ jid _ data
  | adminSet actor item =>
    dsimp only [Room.step]
    unfold handleAdminQuerySet
    split
    · rfl
    · rw [setAffiliation_jid]
      exact (sameConfig_reserveNick sv env r _ _).jid
    · exact (sameConfig_setRole sv env r _ _ _).jid
  | setMembersOnly membersOnly =>
    dsimp only [Room.step]
    unfold setMembersOnly
    split
    · rfl
    · dsimp only
      split
      · exact (sameConfig_updateRoles _ _ _).jid
      · rfl
  | setModerated moderated => rfl
  | clear => exact (sameConfig_updateRoles _ _ _).jid

/-! ## The two tables in step -/

theorem addressed_iff {nick : String} : r.addressed nick = true ↔
      ∃ parts, Jid.split nick = some parts ∧ parts.resource.isSome ∧
        parts.bareParts.join = r.jid := by
  simp [addressed, Option.any_eq_true]

/-- The two tables agree. -/
structure Whole (r : Room) : Prop where
  present : ∀ n o, r.occupants.get n = some o → o.Present
  nick : ∀ n o, r.occupants.get n = some o → o.nick = n
  index : ∀ j n, r.jidNick.get j = some n ↔ ∃ o, r.occupants.get n = some o ∧ o.Live j

/-- The two tables agree, and every occupant is one that may be stored in this room. -/
structure Consistent (r : Room) : Prop where
  room : Jid.bare r.jid = some r.jid
  present : ∀ n o, r.occupants.get n = some o → o.Present
  nick : ∀ n o, r.occupants.get n = some o → o.nick = n
  addressed : ∀ n o, r.occupants.get n = some o → r.addressed n
  outside : ∀ n o, r.occupants.get n = some o → ∃ b, o.bareJid = some b ∧ b ≠ r.jid
  index : ∀ j n, r.jidNick.get j = some n ↔ ∃ o, r.occupants.get n = some o ∧ o.Live j

theorem Consistent.whole (h : r.Consistent) : r.Whole := ⟨h.present, h.nick, h.index⟩

theorem roleChange_ok {sv : Server} {actor : Actor} {nick : String}
    {role : Option String} {o : Occupant} {role' : Option Role}
    (h : r.roleChange sv actor nick role = .ok (o, role')) :
    actor ≠ .nobody ∧ r.getOccupantByNick nick = some o ∧ parseRole role = some role' ∧
      r.roleDenied sv actor o role' = false := by
  unfold roleChange at h
  split at h
  · cases h
  · rename_i hactor
    split at h
    · cases h
    · cases h
    · rename_i o' role'' ho hrole
      split at h
      · cases h
      · rename_i hdenied
        cases h
        exact ⟨hactor, ho, hrole, by simpa using hdenied⟩

namespace Whole

variable {r : Room} {o : Occupant} {j : String}

theorem getOccupantByNick (h : r.Whole) (n : String) :
    r.getOccupantByNick n = r.occupants.get n := by
  unfold Room.getOccupantByNick
  cases ho : r.occupants.get n with
  | none => rfl
  | some o => rw [Option.map_some, (h.present n o ho).copy_eq]

theorem getOccupantByRealJid (h : r.Whole) :
    r.getOccupantByRealJid j = some o ↔ r.occupants.get o.nick = some o ∧ o.Live j := by
  unfold Room.getOccupantByRealJid
  constructor
  · intro hj
    obtain ⟨n, hn, ho⟩ := Option.bind_eq_some_iff.mp hj
    rw [h.getOccupantByNick] at ho
    obtain rfl := h.nick n o ho
    obtain ⟨o', ho', hl⟩ := (h.index j o.nick).mp hn
    obtain rfl : o' = o := by simpa [ho] using ho'.symm
    exact ⟨ho, hl⟩
  · rintro ⟨ho, hl⟩
    have hn := (h.index j o.nick).mpr ⟨o, ho, hl⟩
    rw [hn, Option.bind_some, h.getOccupantByNick, ho]

theorem getOccupantByRealJid_none (h : r.Whole) (hj : r.getOccupantByRealJid j = none) :
    r.jidNick.get j = none := by
  cases hn : r.jidNick.get j with
  | none => rfl
  | some n =>
    obtain ⟨o, ho, hl⟩ := (h.index j n).mp hn
    obtain rfl := h.nick n o ho
    rw [h.getOccupantByRealJid.mpr ⟨ho, hl⟩] at hj
    cases hj

theorem stored_session (h : r.Whole) (n j : String) :
    ((r.occupants.get n).bind fun old => old.sessions.get j).isSome ↔
      r.jidNick.get j = some n := by
  rw [h.index j n, Option.isSome_iff_exists]
  constructor
  · rintro ⟨pr, hpr⟩
    obtain ⟨old, ho, hpr⟩ := Option.bind_eq_some_iff.mp hpr
    exact ⟨old, ho, pr, hpr, (h.present _ old ho).live j pr hpr⟩
  · rintro ⟨old, ho, pr, hpr, -⟩
    exact ⟨pr, Option.bind_eq_some_iff.mpr ⟨old, ho, hpr⟩⟩

/-- A client that the occupant has after saving exactly if it had it before stays where it
is. -/
theorem saveOccupant_jidNick (h : r.Whole) (ord : KeyOrder String)
    (hj : (o.role ≠ none ∧ o.Live j) ↔ r.jidNick.get j = some o.nick) :
    (r.saveOccupant ord o).jidNick.get j = r.jidNick.get j := by
  by_cases hl : o.role ≠ none ∧ o.Live j
  · rw [saveOccupant_jidNick_live ord r o hl.1 hl.2, hj.mp hl]
  · have hother : o.role = none ∨ ¬ o.Live j := by
      by_contra hc
      push Not at hc
      exact hl hc
    have hnot : ¬ ((r.occupants.get o.nick).bind fun old => old.sessions.get j).isSome :=
      fun hold => hl (hj.mpr ((h.stored_session _ _).mp hold))
    rw [saveOccupant_jidNick_other ord r o hother, if_neg hnot]

/-- Saving keeps the tables in step if it takes no session from another occupant. An occupant
without a role is only removed. -/
theorem saveOccupant (h : r.Whole) (ord : KeyOrder String) (hs : o.role ≠ none → o.Savable)
    (hfree : o.role ≠ none → ∀ j n, o.Live j → r.jidNick.get j = some n → n = o.nick) :
    (r.saveOccupant ord o).Whole := by
  have hget : ∀ n o', (r.saveOccupant ord o).occupants.get n = some o' →
      (n = o.nick ∧ o' = o.copy ∧ o.role ≠ none ∧ ∃ j, o.Live j) ∨
        (n ≠ o.nick ∧ r.occupants.get n = some o') := fun n o' ho' => saveOccupant_cases ho'
  refine ⟨?_, ?_, ?_⟩
  · intro n o' ho'
    rcases hget n o' ho' with ⟨-, rfl, hr, j, hj⟩ | ⟨-, ho'⟩
    · exact (hs hr).copy_present hj hr
    · exact h.present n o' ho'
  · intro n o' ho'
    rcases hget n o' ho' with ⟨rfl, rfl, -⟩ | ⟨-, ho'⟩
    · rfl
    · exact h.nick n o' ho'
  · intro j n
    by_cases hl : o.role ≠ none ∧ o.Live j
    · -- the session is stored with this occupant
      obtain ⟨hr, hj⟩ := hl
      rw [saveOccupant_jidNick_live ord r o hr hj]
      constructor
      · rintro ⟨⟩
        exact ⟨o.copy, saveOccupant_get_live ord r o hr hj, Occupant.copy_live.mpr hj⟩
      · rintro ⟨o', ho', hl'⟩
        rcases hget n o' ho' with ⟨rfl, -⟩ | ⟨-, ho'⟩
        · rfl
        · rw [hfree hr j n hj ((h.index j n).mpr ⟨o', ho', hl'⟩)]
    · have hother : o.role = none ∨ ¬ o.Live j := by
        by_cases hr : o.role = none
        · exact Or.inl hr
        · exact Or.inr fun hj => hl ⟨hr, hj⟩
      rw [saveOccupant_jidNick_other ord r o hother]
      constructor
      · intro hn
        split at hn
        · cases hn
        · rename_i hne
          have hne' : n ≠ o.nick := by
            rintro rfl
            exact hne ((h.stored_session _ _).mpr hn)
          obtain ⟨o', ho', hl'⟩ := (h.index j n).mp hn
          refine ⟨o', ?_, hl'⟩
          rw [saveOccupant_get_of_ne ord r o hne']
          exact ho'
      · rintro ⟨o', ho', hl'⟩
        rcases hget n o' ho' with ⟨-, rfl, hr, -⟩ | ⟨hne, ho'⟩
        · exact absurd ⟨hr, Occupant.copy_live.mp hl'⟩ hl
        · have hn := (h.index j n).mpr ⟨o', ho', hl'⟩
          have hnot : ¬ ((r.occupants.get o.nick).bind fun old => old.sessions.get j).isSome := by
            rw [h.stored_session, hn]
            rintro ⟨⟩
            exact hne rfl
          rw [if_neg hnot, hn]

theorem of_eq {r' : Room} (h : r.Whole) (ho : r'.occupants = r.occupants)
    (hi : r'.jidNick = r.jidNick) : r'.Whole := by
  constructor <;> simp only [ho, hi]
  · exact h.present
  · exact h.nick
  · exact h.index

/-! ## Changes of roles and affiliations -/

theorem saveRole (h : r.Whole) (ord : KeyOrder String) {n : String}
    (ho : r.occupants.get n = some o) (role : Option Role) :
    (r.saveOccupant ord { o with role := role }).Whole := by
  obtain rfl := h.nick n o ho
  refine h.saveOccupant ord (fun _ => (h.present _ o ho).savable.setRole role) fun _ j n hl hn => ?_
  have hindex := (h.index j o.nick).mpr ⟨o, ho, hl⟩
  simpa [hn] using hindex

theorem updateRole (h : r.Whole) (ord : KeyOrder String)
    (newRole : Occupant → Option (Option Role)) (n : String) :
    (Room.updateRole ord newRole r n).Whole := by
  unfold Room.updateRole
  rw [h.getOccupantByNick]
  cases ho : r.occupants.get n with
  | none => exact h
  | some o =>
    dsimp only
    cases newRole o with
    | none => exact h
    | some role => exact h.saveRole ord ho role

/-- The loops over the occupants that change roles. -/
theorem updateRoles (h : r.Whole) (ord : KeyOrder String)
    (newRole : Occupant → Option (Option Role)) : (r.updateRoles ord newRole).Whole := by
  unfold Room.updateRoles
  exact List.foldlRecOn _ _ h fun r hr n _ => hr.updateRole ord newRole n

theorem setRole (h : r.Whole) (sv : Server) (env : Env) (actor : Actor) (nick : String)
    (role : Option String) : (r.setRole sv env actor nick role).1.Whole := by
  unfold Room.setRole
  cases hc : r.roleChange sv actor nick role with
  | error e => exact h
  | ok change =>
    obtain ⟨o, role'⟩ := change
    have ho := (roleChange_ok hc).2.1
    rw [h.getOccupantByNick] at ho
    exact h.saveRole env.order ho role'

theorem setAffiliation (h : r.Whole) (sv : Server) (env : Env) (actor : Actor) (jid : String)
    (affiliation : Option String) (data : DataArg) :
    (r.setAffiliation sv env actor jid affiliation data).1.Whole := by
  unfold Room.setAffiliation
  cases r.affiliationChange sv actor jid affiliation with
  | error e => exact h
  | ok change =>
    apply Whole.updateRoles
    exact h.of_eq rfl rfl

theorem setMembersOnly (h : r.Whole) (sv : Server) (env : Env) (membersOnly : Bool) :
    (r.setMembersOnly sv env membersOnly).Whole := by
  unfold Room.setMembersOnly
  split
  · exact h
  · dsimp only
    split
    · apply Whole.updateRoles
      exact h.of_eq rfl rfl
    · exact h.of_eq rfl rfl

theorem reserveNick (h : r.Whole) (sv : Server) (env : Env) (jid : String)
    (nick : Option String) : (r.reserveNick sv env jid nick).Whole := by
  cases nick with
  | none => exact h
  | some nick =>
    dsimp only [Room.reserveNick]
    split
    · exact h.setRole sv env .service _ none
    · exact h

theorem handleAdminQuerySet (h : r.Whole) (sv : Server) (env : Env) (actor : String)
    (item : Option AdminItem) : (r.handleAdminQuerySet sv env actor item).1.Whole := by
  unfold Room.handleAdminQuerySet
  split
  · exact h
  · exact (h.reserveNick sv env _ _).setAffiliation sv env _ _ _ _
  · exact h.setRole sv env _ _ _

/-- Operations that concern no session keep the tables in step. -/
theorem step_inside (h : r.Whole) (sv : Server) (env : Env) {op : Op}
    (hop : ∀ stanza verdict, op ≠ .presence stanza verdict) (hkick : ∀ realJid, op ≠ .kick realJid) :
    (r.step sv (env, op)).Whole := by
  cases op with
  | presence stanza verdict => exact absurd rfl (hop stanza verdict)
  | kick realJid => exact absurd rfl (hkick realJid)
  | setRole actor nick role => exact h.setRole sv env actor nick role
  | setAffiliation actor jid affiliation data => exact h.setAffiliation sv env actor jid _ data
  | adminSet actor item => exact h.handleAdminQuerySet sv env actor item
  | setMembersOnly membersOnly => exact h.setMembersOnly sv env membersOnly
  | setModerated moderated => exact h.of_eq rfl rfl
  | clear => exact h.updateRoles env.order _

end Whole

/-! ## Rooms whose occupants have nicks of the room -/

/-- An occupant that may be saved: it takes no session from another occupant. -/
structure Admissible (r : Room) (o : Occupant) : Prop where
  savable : o.Savable
  addressed : r.addressed o.nick
  outside : ∃ b, o.bareJid = some b ∧ b ≠ r.jid
  free : ∀ j n, o.Live j → r.jidNick.get j = some n → n = o.nick

theorem Consistent.saveAdmissible (h : r.Consistent) (ord : KeyOrder String)
    {o : Occupant} (hadm : o.role ≠ none → r.Admissible o) : (r.saveOccupant ord o).Consistent := by
  have hw := h.whole.saveOccupant ord (fun hr => (hadm hr).savable) fun hr => (hadm hr).free
  refine ⟨h.room, hw.present, hw.nick, ?_, ?_, hw.index⟩
  · intro n o' ho'
    rcases saveOccupant_cases ho' with ⟨rfl, -, hr, -⟩ | ⟨-, ho'⟩
    · exact (hadm hr).addressed
    · exact h.addressed n o' ho'
  · intro n o' ho'
    rcases saveOccupant_cases ho' with ⟨-, rfl, hr, -⟩ | ⟨-, ho'⟩
    · exact (hadm hr).outside
    · exact h.outside n o' ho'

theorem consistent_new {jid : String} (h : Jid.bare jid = some jid) (membersOnly moderated : Bool) :
    (Room.new jid membersOnly moderated).Consistent := by
  refine ⟨h, ?_, ?_, ?_, ?_, ?_⟩ <;> simp [Room.new]

theorem Consistent.of_eq {r' : Room} (h : r.Consistent) (hj : r'.jid = r.jid)
    (ho : r'.occupants = r.occupants) (hi : r'.jidNick = r.jidNick) : r'.Consistent := by
  have haddr : ∀ n, r'.addressed n = r.addressed n := by
    intro n
    simp [Room.addressed, hj]
  have hw := h.whole.of_eq ho hi
  refine ⟨?_, hw.present, hw.nick, ?_, ?_, hw.index⟩
  · rw [hj]
    exact h.room
  · rw [ho]
    exact fun n o hn => (haddr n).trans (h.addressed n o hn)
  · rw [ho, hj]
    exact h.outside

end Room

end Prosody.Muc
