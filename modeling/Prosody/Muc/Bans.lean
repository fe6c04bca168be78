import Prosody.Muc.Standing

/-! # Bans and membership

What `set_affiliation` makes of the occupants. It removes those whom it concerns by the default
role of the affiliation that it sets, and an affiliation that is taken away may leave behind
the ban of a host, or a room for members. -/

namespace Prosody.Muc

namespace Room

variable {sv : Server} {r r' : Room} {o : Occupant} {n : String} {env : Env} {target : Jid}
  {a : Option Affiliation} {data : DataArg}

/-! ## Occupants after a change of affiliation -/

/-- The change is about the user, or bans the user's host. -/
def Concerned (target : Jid) (a : Option Affiliation) (o : Occupant) : Prop :=
  o.bareJid = some target.bareParts.join ∨
    (target.node = none ∧ a = some .outcast ∧
      (o.bareJid.bind Jid.split).map Jid.host = some target.host)

theorem roleAfterChange_eq (target : Jid) (a : Option Affiliation) (isDowngrade : Bool)
    (role : Option Role) (o : Occupant) :
    roleAfterChange target a isDowngrade role o = none ∨
      roleAfterChange target a isDowngrade role o = some role := by
  unfold roleAfterChange
  dsimp only
  split
  · exact Or.inr rfl
  · exact Or.inl rfl

theorem Housed.applyAffiliation_stays (h : r.Housed) {o' : Occupant}
    (ho' : (r.applyAffiliation env target a data).occupants.get n = some o') :
    ∃ o, r.occupants.get n = some o ∧ o'.bareJid = o.bareJid ∧
      (Concerned target a o →
        affiliationRank a < affiliationRank (r.affiliations.get target.bareParts.join) →
        r.getDefaultRole env a ≠ none) := by
  rw [h.applyAffiliation_get] at ho'
  obtain ⟨o, ho, hrole⟩ := Option.bind_eq_some_iff.mp ho'
  refine ⟨o, ho, withRole_bareJid hrole, ?_⟩
  intro hconcerned hdown hdefault
  have hdefault' : (r.storeAffiliation target.bareParts.join a data).getDefaultRole env a = none :=
    hdefault
  have hnone : roleAfterChange target a (affiliationRank a <
      affiliationRank (r.affiliations.get target.bareParts.join)) none o = some none := by
    unfold roleAfterChange
    rw [if_pos ⟨hconcerned, h.role n o ho, Or.inl (by simpa using hdown)⟩]
  rw [hdefault', withRole, hnone] at hrole
  cases hrole

theorem Housed.applyAffiliation_lasts (h : r.Housed) (target : Jid) (data : DataArg)
    (ho : r.occupants.get n = some o) (hdefault : r.getDefaultRole env a ≠ none) :
    ∃ o', (r.applyAffiliation env target a data).occupants.get n = some o' ∧
      o'.bareJid = o.bareJid := by
  have hdefault' : (r.storeAffiliation target.bareParts.join a data).getDefaultRole env a ≠ none :=
    hdefault
  obtain ⟨role, hrole⟩ := Option.ne_none_iff_exists'.mp hdefault'
  rw [h.applyAffiliation_get, ho, Option.bind_some, hrole]
  rcases roleAfterChange_eq target a (affiliationRank a <
      affiliationRank (r.affiliations.get target.bareParts.join)) (some role) o with hr | hr
  · exact ⟨o, by rw [withRole, hr], rfl⟩
  · exact ⟨{ o with role := some role }, by rw [withRole, hr], rfl⟩

theorem applyAffiliation_getAffiliation (jid : String) :
    (r.applyAffiliation env target a data).getAffiliation sv jid =
      if sv.isAdmin jid then some .owner
      else (Jid.split jid).bind fun parts =>
        ((r.affiliations.set target.bareParts.join a).get parts.bareParts.join).or
          (if (r.affiliations.set target.bareParts.join a).get parts.host = some .outcast then
            some .outcast else none) := by
  unfold getAffiliation storedAffiliation
  rw [applyAffiliation_affiliations]

theorem outcast_lt {a : Option Affiliation} (h : a ≠ some .outcast) :
    affiliationRank (some .outcast) < affiliationRank a := by
  rcases a with _ | a
  · decide
  · cases a with
    | outcast => exact absurd rfl h
    | member | admin | owner => decide

theorem none_lt {a : Option Affiliation} (h : a ≠ some .outcast) (h' : a ≠ none) :
    affiliationRank none < affiliationRank a := by
  rcases a with _ | a
  · exact absurd rfl h'
  · cases a with
    | outcast => exact absurd rfl h
    | member | admin | owner => decide

/-! ## Bans -/

/-- A user of a banned host who is in the room is left with no affiliation but a role. -/
def LeavesUnder (r r' : Room) (env : Env) (target : Jid) : Prop :=
  target.node ≠ none ∧ r.affiliations.get target.host = some .outcast ∧
    r.getDefaultRole env none ≠ none ∧
    ∃ n o, r'.occupants.get n = some o ∧ o.bareJid = some target.bareParts.join

/-- The operation takes away the affiliation that kept the ban of a host from an occupant. -/
def Exposes (sv : Server) (r : Room) : Env × Op → Prop
  | (env, op) =>
    ∃ target data r', Writes sv env r op target none data r' ∧ LeavesUnder r r' env target

theorem NoBanned.applyAffiliation (h : r.Housed) (hb : r.NoBanned sv) (hwf : target.WellFormed)
    (hkeeps : a = none → ¬ LeavesUnder r r env target) :
    (r.applyAffiliation env target a data).NoBanned sv := by
  intro n o' ho' hout
  obtain ⟨o, ho, hbare, hstay⟩ := h.applyAffiliation_stays ho'
  have hold := hb n o ho
  unfold standing at hout hold
  rw [hbare] at hout
  cases hbj : o.bareJid with
  | none =>
    rw [hbj] at hout
    cases hout
  | some b =>
    obtain ⟨parts, hs, hparts, hjoin⟩ := h.bareJid_split ho hbj
    rw [hbj, Option.bind_some, applyAffiliation_getAffiliation] at hout
    rw [hbj, Option.bind_some, getAffiliation, storedAffiliation] at hold
    split at hout
    · cases hout
    rename_i hadmin
    rw [if_neg hadmin] at hold
    simp only [hs, Option.bind_some, hjoin] at hout hold
    have hown : r.affiliations.get b ≠ some .outcast := by
      intro hget
      simp [hget] at hold
    by_cases hbt : b = target.bareParts.join
    · have hconcerned : Concerned target a o := Or.inl (by rw [hbj, hbt])
      rw [hbt, Table.get_set_self] at hout
      cases a with
      | some a =>
        -- banned by name
        rw [Option.some_or] at hout
        rw [hout] at hstay
        refine hstay (hout ▸ hconcerned) ?_ (getDefaultRole_outcast env)
        rw [← hbt]
        exact outcast_lt hown
      | none =>
        -- without an affiliation of its own, under the ban of its host
        have htarget : parts = target.bareParts := by
          have hs' := Jid.split_join hwf.bareParts
          rw [← hbt, hs] at hs'
          exact Option.some.inj hs'
        have hhost : parts.host = target.host := by rw [htarget]; rfl
        rw [Option.none_or] at hout
        have hset : (r.affiliations.set target.bareParts.join none).get parts.host =
            some .outcast := by
          by_contra hne
          rw [if_neg hne] at hout
          cases hout
        have hne : parts.host ≠ target.bareParts.join := by
          intro heq
          rw [heq, Table.get_set_self] at hset
          cases hset
        rw [Table.get_set_of_ne _ hne] at hset
        have hsome : r.affiliations.get b ≠ none := by
          intro hget
          simp [hget, hset] at hold
        have hdefault := hstay hconcerned (by rw [← hbt]; exact none_lt hown hsome)
        refine hkeeps rfl ⟨?_, by rwa [hhost] at hset, hdefault, n, o, ho, by rw [hbj, hbt]⟩
        intro hnode
        apply hne
        rw [hhost]
        simp [Jid.join, Jid.bareParts, hnode]
    · rw [Table.get_set_of_ne _ hbt] at hout
      by_cases hht : parts.host = target.bareParts.join
      · -- banned with its whole host
        obtain ⟨hnode, hhost⟩ := Jid.node_of_bareParts_join hparts.host hht.symm
        rw [hht, Table.get_set_self] at hout
        have hnone : r.affiliations.get b = none := by
          cases hget : r.affiliations.get b with
          | none => rfl
          | some a' =>
            rw [hget, Option.some_or] at hout
            rw [hget] at hown
            exact absurd hout hown
        have ha : a = some .outcast := by
          by_contra hne
          rw [hnone, if_neg hne] at hout
          cases hout
        have hhostBan : r.affiliations.get target.bareParts.join ≠ some .outcast := by
          intro hget
          rw [hnone, hht, hget] at hold
          exact hold rfl
        refine hstay (Or.inr ⟨hnode, ha, ?_⟩) ?_ ?_
        · rw [hbj, Option.bind_some, hs, hhost]
          rfl
        · rw [ha]
          exact outcast_lt hhostBan
        · rw [ha]
          exact getDefaultRole_outcast env
      · rw [Table.get_set_of_ne _ hht] at hout
        exact hold hout

theorem LeavesUnder.banned (h : r.Housed) (hwf : target.WellFormed)
    (hadmin : sv.isAdmin target.bareParts.join = false) (hl : LeavesUnder r r env target) :
    ¬ (r.applyAffiliation env target none data).NoBanned sv := by
  obtain ⟨hnode, hhost, hdefault, n, o, ho, hb⟩ := hl
  obtain ⟨o', ho', hb'⟩ := h.applyAffiliation_lasts target data ho hdefault
  intro hall
  apply hall n o' ho'
  unfold standing
  have hne : target.bareParts.join ≠ target.host := Jid.join_ne_host target.bareParts hnode hwf.host
  rw [hb', hb, Option.bind_some, applyAffiliation_getAffiliation, hadmin,
    if_neg Bool.false_ne_true, Jid.split_join hwf.bareParts, Option.bind_some]
  have hbare : target.bareParts.bareParts = target.bareParts := rfl
  have hhost' : target.bareParts.host = target.host := rfl
  rw [hbare, Table.get_set_self, hhost', Table.get_set_of_ne _ hne.symm, hhost]
  rfl

/-- A step keeps those who are banned out, unless it exposes somebody to the ban of a host. -/
theorem NoBanned.step (h : r.Housed) (hb : r.NoBanned sv) (input : Env × Op) :
    (r.step sv input).NoBanned sv ↔ ¬ Exposes sv r input := by
  obtain ⟨env, op⟩ := input
  rcases h.step_cases sv env op with ⟨target, a, data, r', hw, heq⟩ | ⟨hnone, harr, haff, -⟩
  · obtain ⟨hh, hk, hconf⟩ := hw.room h
    have hunder : LeavesUnder r' r' env target ↔ LeavesUnder r r' env target := by
      unfold LeavesUnder getDefaultRole
      rw [hconf.affiliations, hconf.membersOnly, hconf.moderated]
    rw [heq]
    constructor
    · rintro hafter ⟨target', data', r'', hw', hl⟩
      obtain ⟨rfl, rfl, rfl⟩ := hw.unique hw'
      exact LeavesUnder.banned hh hw.wellFormed (hw.not_admin (by simp)) (hunder.mpr hl) hafter
    · intro hex
      refine NoBanned.applyAffiliation hh (Everyone.keeps hb hk hconf.affiliations) hw.wellFormed ?_
      rintro rfl hl
      exact hex ⟨target, data, r', hw, hunder.mp hl⟩
  · constructor
    · rintro - ⟨target, data, r', hw, -⟩
      exact hnone _ _ _ _ hw
    · intro _
      exact Everyone.arrives hb harr haff fun stanza hopen => (joinForbidden_false hopen).1

/-- In every room and every run, bans are effective throughout exactly if no step takes away the
affiliation of an occupant under the ban of its host. -/
theorem bans_effective_iff (h : Founded sv r) (inputs : List (Env × Op)) :
    Machine.Always (Room.step sv) (NoBanned sv) r inputs ↔
      Machine.Guarded (Room.step sv) (fun r input => ¬ Exposes sv r input) r inputs := by
  obtain ⟨hh, hcreator⟩ := h.housed
  refine Machine.always_iff_guarded (P := fun r : Room => r.Housed ∧ r.NoBanned sv) (fun r hr => hr.2)
    (fun r input hr hok => ⟨hr.1.step sv input.1 input.2, (hr.2.step hr.1 input).mpr hok⟩)
    (fun r input hr hafter => (hr.2.step hr.1 input).mp hafter) ⟨hh, ?_⟩ inputs
  intro n o ho
  obtain ⟨stanza, hb, hopen⟩ := hcreator n o ho
  rw [standing_of_bare hb]
  exact (joinForbidden_false hopen).1

theorem not_writes_none {actor : Actor} {jid : String} {affiliation : Option String}
    {data data' : DataArg} {r' : Room} (h : parseAffiliation affiliation ≠ some none) :
    ¬ Writes sv env r (.setAffiliation actor jid affiliation data) target none data' r' := by
  intro hw
  cases hw with
  | setAffiliation hc => exact h (affiliationChange_ok hc).2.2.1

/-- Romeo and Juliet join, and the host of Romeo is banned. -/
def banishment : List (Env × Op) :=
  [(ascending, .presence (joinAs "romeo@montague/orchard" "romeo") .pass),
    (ascending, .presence (joinAs "juliet@capulet/balcony" "rose") .pass),
    (ascending, .setAffiliation .service "montague" (some "outcast") .keep)]

theorem bans_effective_garden :
    Machine.Always (Room.step plainServer) (NoBanned plainServer)
      (Room.new "garden@verona" false false) banishment := by
  refine (bans_effective_iff (.new _ _ _) banishment).mpr ⟨?_, ?_, ?_, trivial⟩
  · exact fun ⟨_, _, _, hw, _⟩ => nomatch hw
  · exact fun ⟨_, _, _, hw, _⟩ => nomatch hw
  · exact fun ⟨_, _, _, hw, _⟩ => not_writes_none (by decide) hw

/-- The host of Romeo is banned while he himself is a member. -/
def exile : Room :=
  Machine.run (Room.step plainServer) (Room.new "garden@verona" false false)
    [(ascending, .setAffiliation .service "montague" (some "outcast") .keep),
      (ascending, .setAffiliation .service "romeo@montague" (some "member") .keep),
      (ascending, .presence (joinAs "romeo@montague/orchard" "romeo") .pass)]

/-- When he is a member no longer, he is banned and still there. -/
theorem banned_occupant_stays :
    let r := exile.step plainServer
      (ascending, .setAffiliation .service "romeo@montague" (some "none") .keep)
    (r.occupants.get "garden@verona/romeo").map Occupant.role = some (some .participant) ∧
      (r.occupants.get "garden@verona/romeo").map (r.standing plainServer) =
        some (some .outcast) := by
  decide +kernel

/-! ## Members -/

/-- The operation takes the membership from an occupant, who is given the role of a participant
or a visitor. -/
def Retains (sv : Server) (r : Room) : Env × Op → Prop
  | (env, op) =>
    ∃ target data r', Writes sv env r op target none data r' ∧ r.membersOnly ∧
      r.getDefaultRole env none ≠ none ∧
      ∃ n o, r'.occupants.get n = some o ∧ o.bareJid = some target.bareParts.join

theorem Housed.member_stored (h : r.Housed) (ho : r.occupants.get n = some o) {b : String}
    (hb : o.bareJid = some b) (hpos : 0 < affiliationRank (r.standing sv o))
    (hadmin : sv.isAdmin b = false) :
    ∃ a, r.affiliations.get b = some a ∧ a ≠ .outcast := by
  obtain ⟨parts, hs, -, hjoin⟩ := h.bareJid_split ho hb
  unfold standing at hpos
  rw [hb, Option.bind_some, getAffiliation, hadmin, if_neg Bool.false_ne_true,
    storedAffiliation, hs, Option.bind_some, hjoin] at hpos
  cases hget : r.affiliations.get b with
  | none =>
    rw [hget, Option.none_or] at hpos
    split at hpos
    · exact absurd hpos (by decide)
    · exact absurd hpos (by decide)
  | some a =>
    rw [hget, Option.some_or] at hpos
    refine ⟨a, rfl, ?_⟩
    rintro rfl
    exact absurd hpos (by decide)

theorem rank_pos {a : Affiliation} (h : a ≠ .outcast) : 0 < affiliationRank (some a) :=
  none_lt (a := some a) (fun heq => h (Option.some.inj heq)) (Option.some_ne_none a)

theorem Everyone.applyAffiliation (h : r.Housed) (hm : r.Everyone sv (0 < affiliationRank ·))
    (hgoes : a = none → r.getDefaultRole env none ≠ none →
      ∀ n o, r.occupants.get n = some o → o.bareJid ≠ some target.bareParts.join) :
    (r.applyAffiliation env target a data).Everyone sv (0 < affiliationRank ·) := by
  intro n o' ho'
  obtain ⟨o, ho, hbare, hstay⟩ := h.applyAffiliation_stays ho'
  have hold := hm n o ho
  cases hbj : o.bareJid with
  | none =>
    unfold standing at hold
    rw [hbj] at hold
    exact absurd hold (lt_irrefl _)
  | some b =>
    obtain ⟨parts, hs, -, hjoin⟩ := h.bareJid_split ho hbj
    unfold standing
    rw [hbare, hbj, Option.bind_some, applyAffiliation_getAffiliation]
    split
    · decide
    rename_i hadmin
    obtain ⟨a₀, hget, ha₀⟩ := h.member_stored ho hbj hold (by simpa using hadmin)
    simp only [hs, Option.bind_some, hjoin]
    by_cases hbt : b = target.bareParts.join
    · have hconcerned : Concerned target a o := Or.inl (by rw [hbj, hbt])
      have hrank : 0 < affiliationRank (r.affiliations.get target.bareParts.join) := by
        rw [← hbt, hget]
        exact rank_pos ha₀
      cases a with
      | none => exact absurd (by rw [hbj, hbt]) (hgoes rfl (hstay hconcerned hrank) n o ho)
      | some a =>
        rw [hbt, Table.get_set_self, Option.some_or]
        apply rank_pos
        rintro rfl
        exact hstay hconcerned (lt_trans (by decide) hrank) (getDefaultRole_outcast env)
    · rw [Table.get_set_of_ne _ hbt, hget, Option.some_or]
      exact rank_pos ha₀

theorem not_member_of_lasts (data : DataArg) (h : r.Housed) (hwf : target.WellFormed)
    (hadmin : sv.isAdmin target.bareParts.join = false)
    (hdefault : r.getDefaultRole env none ≠ none) (ho : r.occupants.get n = some o)
    (hb : o.bareJid = some target.bareParts.join) :
    ¬ (r.applyAffiliation env target none data).Everyone sv (0 < affiliationRank ·) := by
  obtain ⟨o', ho', hb'⟩ := h.applyAffiliation_lasts target data ho hdefault
  intro hall
  have hpos := hall n o' ho'
  unfold standing at hpos
  have hbare : target.bareParts.bareParts = target.bareParts := rfl
  rw [hb', hb, Option.bind_some, applyAffiliation_getAffiliation, hadmin,
    if_neg Bool.false_ne_true, Jid.split_join hwf.bareParts, Option.bind_some, hbare,
    Table.get_set_self, Option.none_or] at hpos
  split at hpos
  · exact absurd hpos (by decide)
  · exact absurd hpos (by decide)

/-- The loop of `set_members_only` leaves the members. -/
theorem Housed.updateRoles_members (h : r.Housed) (ord : KeyOrder String) :
    (r.updateRoles ord fun o => if affiliationRank (r.standing sv o) ≤ 0 then some none
      else none).Everyone sv (0 < affiliationRank ·) := by
  intro n o' ho'
  rw [h.updateRoles_get] at ho'
  obtain ⟨o, ho, hrole⟩ := Option.bind_eq_some_iff.mp ho'
  rw [standing_congr (r := r) (updateRoles_affiliations _ _ _) (withRole_bareJid hrole)]
  by_contra hle
  rw [withRole, if_pos (not_lt.mp hle)] at hrole
  cases hrole

/-- Switching the room to members only removes everybody else. -/
theorem Housed.setMembersOnly_members (h : r.Housed) (env : Env) (hm : r.MembersHold sv)
    (membersOnly : Bool) : (r.setMembersOnly sv env membersOnly).MembersHold sv := by
  unfold Room.setMembersOnly
  split
  · exact hm
  · have hset : Housed { r with membersOnly := membersOnly } := h.of_eq rfl rfl
    dsimp only
    split
    · exact fun _ => hset.updateRoles_members env.order
    · rename_i hoff
      exact fun hon => absurd hon hoff

/-- A step keeps a room for members to its members, unless it retains somebody. -/
theorem MembersHold.step (h : r.Housed) (hm : r.MembersHold sv) (input : Env × Op) :
    (r.step sv input).MembersHold sv ↔ ¬ Retains sv r input := by
  obtain ⟨env, op⟩ := input
  rcases h.step_cases sv env op with ⟨target, a, data, r', hw, heq⟩ | ⟨hnone, harr, haff, -⟩
  · obtain ⟨hh, hk, hconf⟩ := hw.room h
    have hdefault : r'.getDefaultRole env none = r.getDefaultRole env none := by
      unfold getDefaultRole
      rw [hconf.membersOnly, hconf.moderated]
    rw [heq]
    constructor
    · rintro hafter ⟨target', data', r'', hw', hon, hrole, n, o, ho, hb⟩
      obtain ⟨rfl, rfl, rfl⟩ := hw.unique hw'
      refine not_member_of_lasts data hh hw.wellFormed (hw.not_admin (by simp))
        (by rwa [hdefault]) ho hb (hafter ?_)
      rw [applyAffiliation_membersOnly, hconf.membersOnly, hon]
    · intro hret hon
      rw [applyAffiliation_membersOnly, hconf.membersOnly] at hon
      refine Everyone.applyAffiliation hh (Everyone.keeps (hm hon) hk hconf.affiliations) ?_
      rintro rfl hrole n o ho hb
      exact hret ⟨target, data, r', hw, hon, by rwa [← hdefault], n, o, ho, hb⟩
  · constructor
    · rintro - ⟨target, data, r', hw, -⟩
      exact hnone _ _ _ _ hw
    · intro _
      by_cases hflag : ∃ membersOnly, op = .setMembersOnly membersOnly
      · obtain ⟨membersOnly, rfl⟩ := hflag
        exact h.setMembersOnly_members env hm membersOnly
      · intro hon
        rw [step_membersOnly env fun b heq => hflag ⟨b, heq⟩] at hon
        exact Everyone.arrives (hm hon) harr haff fun stanza hopen => (joinForbidden_false hopen).2 hon

/-- In every room and every run, and whichever handler for the default role comes first, a room
for members has only members exactly if no step retains an occupant who loses the
membership. -/
theorem members_hold_iff (h : Founded sv r) (inputs : List (Env × Op)) :
    Machine.Always (Room.step sv) (MembersHold sv) r inputs ↔
      Machine.Guarded (Room.step sv) (fun r input => ¬ Retains sv r input) r inputs := by
  obtain ⟨hh, hcreator⟩ := h.housed
  refine Machine.always_iff_guarded (P := fun r : Room => r.Housed ∧ r.MembersHold sv)
    (fun r hr => hr.2)
    (fun r input hr hok => ⟨hr.1.step sv input.1 input.2, (hr.2.step hr.1 input).mpr hok⟩)
    (fun r input hr hafter => (hr.2.step hr.1 input).mp hafter) ⟨hh, ?_⟩ inputs
  intro hon n o ho
  obtain ⟨stanza, hb, hopen⟩ := hcreator n o ho
  rw [standing_of_bare hb]
  exact (joinForbidden_false hopen).2 hon

/-- Romeo joins as a member, Juliet is refused, and Romeo is banned. -/
def expulsion : List (Env × Op) :=
  [(ascending, .setAffiliation .service "romeo@montague" (some "member") .keep),
    (ascending, .presence (joinAs "romeo@montague/orchard" "romeo") .pass),
    (ascending, .presence (joinAs "juliet@capulet/balcony" "rose") .pass),
    (ascending, .setAffiliation .service "romeo@montague" (some "outcast") .keep)]

theorem members_hold_garden :
    Machine.Always (Room.step plainServer) (MembersHold plainServer)
      (Room.new "garden@verona" true false) expulsion := by
  refine (members_hold_iff (.new _ _ _) expulsion).mpr ⟨?_, ?_, ?_, ?_, trivial⟩
  · exact fun ⟨_, _, _, hw, _⟩ => not_writes_none (by decide) hw
  · exact fun ⟨_, _, _, hw, _⟩ => nomatch hw
  · exact fun ⟨_, _, _, hw, _⟩ => nomatch hw
  · exact fun ⟨_, _, _, hw, _⟩ => not_writes_none (by decide) hw

/-- Romeo is in a room for members as one of them. -/
def club : Room :=
  Machine.run (Room.step plainServer) (Room.new "garden@verona" true false)
    [(ascending, .setAffiliation .service "romeo@montague" (some "member") .keep),
      (ascending, .presence (joinAs "romeo@montague/orchard" "romeo") .pass)]

/-- The general handler for the default role comes first, and makes a participant of him when
he is a member no longer. -/
theorem stranger_stays :
    let r := club.step plainServer ({ ascending with membersOnlyFirst := false },
      .setAffiliation .service "romeo@montague" (some "none") .keep)
    r.membersOnly = true ∧
      (r.occupants.get "garden@verona/romeo").map Occupant.role = some (some .participant) ∧
      (r.occupants.get "garden@verona/romeo").map (r.standing plainServer) = some none := by
  decide +kernel

end Room

end Prosody.Muc
