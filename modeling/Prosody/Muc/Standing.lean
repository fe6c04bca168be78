import Prosody.Muc.Authority

/-! # The standing of those who are in the room

Who may be in a room is a matter of affiliations. Joins are refused by them, and
`set_affiliation` removes occupants on account of the affiliation that it has just set. -/

namespace Prosody.Muc

namespace Room

/-- The affiliation of an occupant, `get_affiliation(occupant.bare_jid)`. -/
def standing (sv : Server) (r : Room) (o : Occupant) : Option Affiliation :=
  o.bareJid.bind (r.getAffiliation sv)

/-- The affiliations of all occupants are among those allowed. -/
def Everyone (sv : Server) (allowed : Option Affiliation → Prop) (r : Room) : Prop :=
  ∀ n o, r.occupants.get n = some o → allowed (r.standing sv o)

/-- Nobody who is banned, by name or with a whole host, is in the room. -/
def NoBanned (sv : Server) (r : Room) : Prop := r.Everyone sv (· ≠ some .outcast)

def MembersHold (sv : Server) (r : Room) : Prop :=
  r.membersOnly → r.Everyone sv (0 < affiliationRank ·)

variable {sv : Server} {r r' : Room} {o : Occupant} {n : String}

/-! ## Affiliations of bare addresses -/

theorem storedAffiliation_bare {jid b : String} (h : Jid.bare jid = some b) :
    r.storedAffiliation b = r.storedAffiliation jid := by
  obtain ⟨parts, hs, hb⟩ := Jid.split_bare h
  simp only [storedAffiliation, hs, hb, Option.bind_some]
  rfl

theorem getAffiliation_bare {jid b : String} (h : Jid.bare jid = some b) :
    r.getAffiliation sv b = r.getAffiliation sv jid := by
  unfold getAffiliation Server.isAdmin
  rw [storedAffiliation_bare h, h, Jid.bare_bare h]

theorem standing_of_bare {jid : String} (h : o.bareJid = Jid.bare jid) :
    r.standing sv o = r.getAffiliation sv jid := by
  unfold standing
  rw [h]
  cases hb : Jid.bare jid with
  | none =>
    have hs : Jid.split jid = none := by
      unfold Jid.bare at hb
      simpa using hb
    simp [getAffiliation, Server.isAdmin, hb, storedAffiliation, hs]
  | some b => exact getAffiliation_bare hb

theorem standing_congr {o' : Occupant} (ha : r'.affiliations = r.affiliations)
    (hb : o'.bareJid = o.bareJid) : r'.standing sv o' = r.standing sv o := by
  unfold standing
  rw [hb]
  congr 1
  funext jid
  unfold getAffiliation storedAffiliation
  rw [ha]

/-- The address of an occupant is a bare one. -/
theorem Housed.bareJid_split (h : r.Housed) (ho : r.occupants.get n = some o) {b : String}
    (hb : o.bareJid = some b) :
    ∃ parts : Jid, Jid.split b = some parts ∧ parts.WellFormed ∧ parts.bareParts.join = b := by
  obtain ⟨j, hj⟩ := h.live n o ho
  have hbare := h.bare_of_live ho hj
  rw [hb] at hbare
  obtain ⟨parts, -, hs⟩ := Jid.split_bare hbare
  obtain ⟨hwf, hjoin⟩ := Jid.split_eq_some hs
  exact ⟨parts.bareParts, hs, hwf, hjoin⟩

/-! ## Steps that leave the affiliations as they are -/

variable {allowed : Option Affiliation → Prop}

/-- Those who are in the room afterwards were in the room before, under whatever nick, or have
been let in. -/
def Arrives (sv : Server) (r r' : Room) : Prop :=
  ∀ n o', r'.occupants.get n = some o' →
    (∃ m o, r.occupants.get m = some o ∧ o'.bareJid = o.bareJid) ∨
      ∃ stanza : Presence, o'.bareJid = Jid.bare stanza.sender ∧ r.joinForbidden sv stanza = false

theorem Keeps.arrives (h : r.Keeps r') : Arrives sv r r' := by
  intro n o' ho'
  obtain ⟨o, ho, hb⟩ := h n o' ho'
  exact Or.inl ⟨n, o, ho, hb⟩

theorem Everyone.arrives (h : r.Everyone sv allowed) (ha : Arrives sv r r')
    (haff : r'.affiliations = r.affiliations)
    (hjoin : ∀ stanza, r.joinForbidden sv stanza = false →
      allowed (r.getAffiliation sv stanza.sender)) : r'.Everyone sv allowed := by
  intro n o' ho'
  rcases ha n o' ho' with ⟨m, o, ho, hb⟩ | ⟨stanza, hb, hopen⟩
  · rw [standing_congr haff hb]
    exact h m o ho
  · rw [standing_congr (o := o') haff rfl, standing_of_bare hb]
    exact hjoin stanza hopen

theorem Everyone.keeps (h : r.Everyone sv allowed) (hk : r.Keeps r')
    (ha : r'.affiliations = r.affiliations) : r'.Everyone sv allowed := by
  intro n o' ho'
  obtain ⟨o, ho, hb⟩ := hk n o' ho'
  rw [standing_congr ha hb]
  exact h n o ho

theorem joinForbidden_false {stanza : Presence} (h : r.joinForbidden sv stanza = false) :
    r.getAffiliation sv stanza.sender ≠ some .outcast ∧
      (r.membersOnly → 0 < affiliationRank (r.getAffiliation sv stanza.sender)) := by
  simp only [joinForbidden, decide_eq_false_iff_not] at h
  push Not at h
  exact h

theorem Housed.arrives_presence (h : r.Housed) (env : Env) (stanza : Presence)
    (verdict : Verdict) :
    Arrives sv r (r.handlePresenceToOccupant sv env stanza verdict) := by
  unfold handlePresenceToOccupant
  split
  · exact (h.handleKickable env _).2.arrives
  · split
    · intro n o' ho'
      rcases (h.handleNormalPresence sv env stanza verdict).2 n o' ho' with
        ⟨o, ho, hb⟩ | ⟨hadmits, hb⟩
      · exact Or.inl ⟨n, o, ho, hb⟩
      · cases horig : r.getOccupantByRealJid stanza.sender with
        | none => exact Or.inr ⟨stanza, hb, hadmits.2.2.2 horig⟩
        | some orig =>
          obtain ⟨-, hget, hl⟩ := h.getOccupantByRealJid horig
          exact Or.inl ⟨_, orig, hget, hb.trans (h.bare_of_live hget hl)⟩
    · exact (Keeps.refl r).arrives

/-! ## Steps that change an affiliation -/

/-- The operation sets the affiliation of `target`, in the room that the arguments name last. -/
inductive Writes (sv : Server) (env : Env) (r : Room) :
    Op → Jid → Option Affiliation → DataArg → Room → Prop where
  | setAffiliation {actor : Actor} {jid : String} {affiliation : Option String} {data : DataArg}
      {target : Jid} {affiliation' : Option Affiliation}
      (h : r.affiliationChange sv actor jid affiliation = .ok (target, affiliation')) :
      Writes sv env r (.setAffiliation actor jid affiliation data) target affiliation' data r
  | adminSet {actor jid affiliation : String} {item : Option AdminItem} {nick : Option String}
      {target : Jid} {affiliation' : Option Affiliation}
      (hc : r.adminCommand sv item = .ok (.affiliation jid nick affiliation))
      (h : r.affiliationChange sv (.user actor) jid (some affiliation) =
        .ok (target, affiliation')) :
      Writes sv env r (.adminSet actor item) target affiliation' (reservation nick)
        (r.reserveNick sv env jid nick)

variable {data : DataArg} {env : Env} {target : Jid} {op : Op} {a : Option Affiliation}

theorem Writes.sameConfig (hw : Writes sv env r op target a data r') : r.SameConfig r' := by
  cases hw with
  | setAffiliation => exact SameConfig.refl r
  | adminSet => exact sameConfig_reserveNick sv env r _ _

theorem Writes.step (hw : Writes sv env r op target a data r') :
    r.step sv (env, op) = r'.applyAffiliation env target a data := by
  cases hw with
  | setAffiliation h =>
    dsimp only [Room.step]
    rw [Room.setAffiliation, h]
  | adminSet hc h =>
    dsimp only [Room.step]
    rw [Room.handleAdminQuerySet, hc]
    dsimp only
    rw [Room.setAffiliation, reserveNick_affiliationChange, h]

theorem Writes.room (h : r.Housed) (hw : Writes sv env r op target a data r') :
    r'.Housed ∧ r.Keeps r' ∧ r.SameConfig r' := by
  refine ⟨?_, ?_, hw.sameConfig⟩
  · cases hw with
    | setAffiliation => exact h
    | adminSet => exact (h.reserveNick sv env _ _).1
  · cases hw with
    | setAffiliation => exact Keeps.refl r
    | adminSet => exact (h.reserveNick sv env _ _).2

theorem Writes.change (hw : Writes sv env r op target a data r') :
    ∃ actor jid affiliation, r.affiliationChange sv actor jid affiliation = .ok (target, a) := by
  cases hw with
  | setAffiliation h => exact ⟨_, _, _, h⟩
  | adminSet _ h => exact ⟨_, _, _, h⟩

theorem Writes.wellFormed (hw : Writes sv env r op target a data r') : target.WellFormed := by
  obtain ⟨actor, jid, affiliation, hc⟩ := hw.change
  exact (Jid.split_eq_some (affiliationChange_ok hc).2.1).1

theorem Writes.not_admin (hw : Writes sv env r op target a data r') (ha : a ≠ some .owner) :
    sv.isAdmin target.bareParts.join = false := by
  obtain ⟨actor, jid, affiliation, hc⟩ := hw.change
  obtain ⟨hadmin, hs, hp, -⟩ := affiliationChange_ok hc
  have hbare : Jid.bare jid = some target.bareParts.join := by rw [Jid.bare, hs]; rfl
  have hne : affiliation ≠ some "owner" := by
    apply parseAffiliation_owner
    rw [hp]
    intro heq
    exact ha (Option.some.inj heq)
  rw [isAdmin_bare hbare]
  simpa [hne] using hadmin

theorem Writes.unique {target' : Jid} {a' : Option Affiliation}
    {data' : DataArg} {r₁ r₂ : Room} (hw : Writes sv env r op target a data r₁)
    (hw' : Writes sv env r op target' a' data' r₂) : target' = target ∧ a' = a ∧ r₂ = r₁ := by
  cases hw with
  | setAffiliation h =>
    cases hw' with
    | setAffiliation h' =>
      rw [h] at h'
      cases h'
      exact ⟨rfl, rfl, rfl⟩
  | adminSet hc h =>
    cases hw' with
    | adminSet hc' h' =>
      rw [hc] at hc'
      cases hc'
      rw [h] at h'
      cases h'
      exact ⟨rfl, rfl, rfl⟩

/-- The affiliations and their data are as they were. -/
def SameStanding (r r' : Room) : Prop :=
  r'.affiliations = r.affiliations ∧ r'.affiliationData = r.affiliationData

theorem SameConfig.standing (h : r.SameConfig r') : r.SameStanding r' :=
  ⟨h.affiliations, h.affiliationData⟩

theorem Housed.step_cases (h : r.Housed) (sv : Server) (env : Env) (op : Op) :
    (∃ target a data r', Writes sv env r op target a data r' ∧
      r.step sv (env, op) = r'.applyAffiliation env target a data) ∨
    ((∀ target a data r', ¬ Writes sv env r op target a data r') ∧
      Arrives sv r (r.step sv (env, op)) ∧ r.SameStanding (r.step sv (env, op))) := by
  cases op with
  | presence stanza verdict =>
    refine Or.inr ⟨fun _ _ _ _ => nofun, ?_⟩
    dsimp only [Room.step]
    split
    · exact ⟨h.arrives_presence env stanza verdict,
        (sameConfig_handlePresenceToOccupant sv env r stanza verdict).standing⟩
    · exact ⟨(Keeps.refl r).arrives, rfl, rfl⟩
  | kick realJid =>
    exact Or.inr ⟨fun _ _ _ _ => nofun, (h.handleKickable env realJid).2.arrives,
      (sameConfig_handleKickable env r realJid).standing⟩
  | setRole actor nick role =>
    exact Or.inr ⟨fun _ _ _ _ => nofun, (h.setRole sv env actor nick role).2.arrives,
      (sameConfig_setRole sv env r actor nick role).standing⟩
  | setAffiliation actor jid affiliation data =>
    dsimp only [Room.step]
    cases hc : r.affiliationChange sv actor jid affiliation with
    | error e =>
      right
      rw [Room.setAffiliation, hc]
      refine ⟨?_, (Keeps.refl r).arrives, rfl, rfl⟩
      intro target a data r' hw
      cases hw with
      | setAffiliation hok => rw [hc] at hok; cases hok
    | ok change =>
      left
      rw [Room.setAffiliation, hc]
      exact ⟨change.1, change.2, data, r, .setAffiliation hc, rfl⟩
  | adminSet actor item =>
    dsimp only [Room.step]
    unfold Room.handleAdminQuerySet
    cases hcmd : r.adminCommand sv item with
    | error e =>
      refine Or.inr ⟨?_, (Keeps.refl r).arrives, rfl, rfl⟩
      intro target a data r' hw
      cases hw with
      | adminSet hok => rw [hcmd] at hok; cases hok
    | ok command =>
      cases command with
      | role nick role =>
        refine Or.inr ⟨?_, (h.setRole sv env _ _ _).2.arrives,
          (sameConfig_setRole sv env r _ _ _).standing⟩
        intro target a data r' hw
        cases hw with
        | adminSet hok => rw [hcmd] at hok; cases hok
      | affiliation jid nick affiliation =>
        dsimp only
        rw [Room.setAffiliation, reserveNick_affiliationChange]
        cases hc : r.affiliationChange sv (.user actor) jid (some affiliation) with
        | error e =>
          right
          obtain ⟨-, hk⟩ := h.reserveNick sv env jid nick
          refine ⟨?_, hk.arrives, (sameConfig_reserveNick sv env r jid nick).standing⟩
          intro target a data r' hw
          cases hw with
          | adminSet hok hok' =>
            rw [hcmd] at hok
            cases hok
            rw [hc] at hok'
            cases hok'
        | ok change => exact Or.inl ⟨_, _, _, _, .adminSet hcmd hc, rfl⟩
  | setMembersOnly membersOnly =>
    refine Or.inr ⟨fun _ _ _ _ => nofun, (h.setMembersOnly sv env membersOnly).2.arrives, ?_⟩
    dsimp only [Room.step, Room.setMembersOnly]
    split
    · exact ⟨rfl, rfl⟩
    · split
      · exact (sameConfig_updateRoles _ _ _).standing
      · exact ⟨rfl, rfl⟩
  | setModerated moderated =>
    exact Or.inr ⟨fun _ _ _ _ => nofun, (Keeps.of_eq rfl).arrives, rfl, rfl⟩
  | clear =>
    exact Or.inr ⟨fun _ _ _ _ => nofun, (h.keeps_updateRoles env.order _).arrives,
      (sameConfig_updateRoles _ _ _).standing⟩

/-! ## The members-only flag -/

@[simp] theorem applyAffiliation_membersOnly (env : Env) (target : Jid) (a : Option Affiliation)
    (data : DataArg) : (r.applyAffiliation env target a data).membersOnly = r.membersOnly :=
  (sameConfig_applyAffiliation env r target a data).membersOnly

theorem setAffiliation_membersOnly (env : Env) (actor : Actor) (jid : String)
    (affiliation : Option String) (data : DataArg) :
    (r.setAffiliation sv env actor jid affiliation data).1.membersOnly = r.membersOnly := by
  unfold setAffiliation
  split
  · rfl
  · exact applyAffiliation_membersOnly env _ _ data

theorem step_membersOnly (env : Env) (h : ∀ b, op ≠ .setMembersOnly b) :
    (r.step sv (env, op)).membersOnly = r.membersOnly := by
  cases op with
  | presence stanza verdict =>
    dsimp only [Room.step]
    split
    · exact (sameConfig_handlePresenceToOccupant sv env r stanza verdict).membersOnly
    · rfl
  | kick realJid => exact (sameConfig_handleKickable env r realJid).membersOnly
  | setRole actor nick role => exact (sameConfig_setRole sv env r actor nick role).membersOnly
  | setAffiliation actor jid affiliation data =>
    exact setAffiliation_membersOnly env actor jid affiliation data
  | adminSet actor item =>
    dsimp only [Room.step]
    unfold Room.handleAdminQuerySet
    split
    · rfl
    · rw [setAffiliation_membersOnly]
      exact (sameConfig_reserveNick sv env r _ _).membersOnly
    · exact (sameConfig_setRole sv env r _ _ _).membersOnly
  | setMembersOnly membersOnly => exact absurd rfl (h membersOnly)
  | setModerated moderated => rfl
  | clear => exact (sameConfig_updateRoles _ _ _).membersOnly

end Room

end Prosody.Muc
