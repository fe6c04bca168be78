import Prosody.Muc.Authority

/-! # The authority of admin requests

A `muc#admin` request may reserve a nick, which kicks whoever holds it, before the permission
to change the affiliation is checked. -/

namespace Prosody.Muc

namespace Room

/-! ## What a request may do -/

/-- The sender is an owner, an admin or a moderator in the room. -/
def Entitled (sv : Server) (r : Room) (actor : String) : Prop :=
  r.getAffiliation sv actor = some .owner ∨ r.getAffiliation sv actor = some .admin ∨
    ∃ o, r.getOccupantByRealJid actor = some o ∧ o.role = some .moderator

/-- The occupant is an owner or an admin. -/
def Governs (sv : Server) (r : Room) (o : Occupant) : Prop :=
  o.bareJid.bind (r.getAffiliation sv) = some .owner ∨
    o.bareJid.bind (r.getAffiliation sv) = some .admin

/-- The occupant `o` of the room `r` is gone from `r'` or has a lower role there. -/
def Lowered (r r' : Room) (nick : String) (o : Occupant) : Prop :=
  r.occupants.get nick = some o ∧
    ∀ o', r'.occupants.get nick = some o' → roleRank o'.role < roleRank o.role

structure RespectsAuthority (sv : Server) (r : Room) (actor : String)
    (result : Room × Except Error Unit) : Prop where
  error : ∀ e, result.2 = .error e → result.1.affiliations = r.affiliations ∧
    result.1.affiliationData = r.affiliationData ∧ result.1.occupants = r.occupants
  entitled : ∀ nick o, r.Lowered result.1 nick o → r.Entitled sv actor
  governed : ∀ nick o, r.Lowered result.1 nick o → r.Governs sv o →
    r.getAffiliation sv actor = some .owner

/-! ## The requests that go wrong -/

/-- The holder of the nick that is reserved is kicked although the change of affiliation is
refused, or although only an owner may kick the holder. -/
def KicksHolder (sv : Server) (r : Room) (actor jid : String) (nick : Option String)
    (affiliation : String) : Prop :=
  ∃ n o, nick = some n ∧ r.occupants.get (r.occupantJid n) = some o ∧ o.bareJid ≠ some jid ∧
    ((∃ e, r.affiliationChange sv (.user actor) jid (some affiliation) = .error e) ∨
      (r.Governs sv o ∧ r.getAffiliation sv actor ≠ some .owner))

/-- Somebody who is no owner bans a host with an owner or admin in the room. -/
def BansGovernor (sv : Server) (r : Room) (actor jid affiliation : String) : Prop :=
  ∃ target, r.affiliationChange sv (.user actor) jid (some affiliation) =
      .ok (target, some .outcast) ∧
    target.node = none ∧ r.affiliations.get target.host ≠ some .outcast ∧
    r.getAffiliation sv actor ≠ some .owner ∧
    ∃ nick o, r.occupants.get nick = some o ∧ r.Governs sv o ∧
      (o.bareJid.bind Jid.split).map Jid.host = some target.host

/-- The request neither kicks the holder of a nick that way nor bans such a host. -/
def WellMeant (sv : Server) (r : Room) (actor : String) (item : Option AdminItem) : Prop :=
  ∀ jid nick affiliation, r.adminCommand sv item = .ok (.affiliation jid nick affiliation) →
    ¬ r.KicksHolder sv actor jid nick affiliation ∧ ¬ r.BansGovernor sv actor jid affiliation

section

variable {sv : Server} {r : Room} {actor : String}

/-- A request that leaves every occupant in its role is always in order. -/
theorem respectsAuthority_of_same {result : Room × Except Error Unit}
    (ha : result.1.affiliations = r.affiliations)
    (hd : result.1.affiliationData = r.affiliationData)
    (ho : result.1.occupants = r.occupants) : r.RespectsAuthority sv actor result := by
  have hnot : ∀ nick o, ¬ r.Lowered result.1 nick o := by
    rintro nick o ⟨hget, hlow⟩
    rw [ho] at hlow
    exact lt_irrefl _ (hlow o hget)
  exact ⟨fun _ _ => ⟨ha, hd, ho⟩, fun nick o hl => absurd hl (hnot nick o),
    fun nick o hl => absurd hl (hnot nick o)⟩

/-! ## Changes of roles -/

theorem Consistent.setRole_respects (h : r.Consistent) (env : Env) (nick : String)
    (role : Option String) :
    r.RespectsAuthority sv actor (r.setRole sv env (.user actor) nick role) := by
  unfold Room.setRole
  cases hc : r.roleChange sv (.user actor) nick role with
  | error e => exact respectsAuthority_of_same rfl rfl rfl
  | ok change =>
    obtain ⟨o, role'⟩ := change
    obtain ⟨-, ho, -, hd⟩ := roleChange_ok hc
    rw [h.whole.getOccupantByNick] at ho
    simp only [roleDenied, decide_eq_false_iff_not] at hd
    push Not at hd
    obtain ⟨howner, hadmin, -, hmod⟩ := hd
    obtain ⟨o', ho', hrole⟩ := Option.bind_eq_some_iff.mp hmod
    have hentitled : r.Entitled sv actor := Or.inr (Or.inr ⟨o', ho', hrole⟩)
    refine ⟨fun e he => (by cases he), fun _ _ _ => hentitled, ?_⟩
    rintro m o₁ ⟨hget, hlow⟩ hgov
    by_cases hm : m = nick
    · subst hm
      rw [ho] at hget
      cases hget
      rcases hgov with hgov | hgov
      · exact absurd hgov howner
      · exact absurd hgov hadmin
    · dsimp only at hlow
      rw [h.saveRole_get env.order ho, if_neg hm] at hlow
      exact absurd (hlow o₁ hget) (lt_irrefl _)

/-! ## Changes of affiliations -/

theorem roleAfterChange_lowered {target : Jid} {affiliation : Option Affiliation}
    {isDowngrade : Bool} {role : Option Role} {o : Occupant}
    (h : ∀ o', withRole (roleAfterChange target affiliation isDowngrade role) o = some o' →
      roleRank o'.role < roleRank o.role) :
    isDowngrade = true ∧ (o.bareJid = some target.bareParts.join ∨
      (target.node = none ∧ affiliation = some .outcast ∧
        (o.bareJid.bind Jid.split).map Jid.host = some target.host)) := by
  unfold withRole at h
  cases hr : roleAfterChange target affiliation isDowngrade role o with
  | none =>
    rw [hr] at h
    exact absurd (h o rfl) (lt_irrefl _)
  | some role' =>
    rw [hr] at h
    unfold roleAfterChange at hr
    dsimp only at hr
    split at hr
    · rename_i hc
      cases hr
      refine ⟨?_, hc.1⟩
      rcases hc.2.2 with hdown | hup
      · exact hdown
      · -- a role that is raised is not lowered
        cases role with
        | none => exact absurd hup (Nat.not_lt_zero _)
        | some role => exact absurd (h _ rfl) (Nat.lt_asymm hup)
    · cases hr

variable {jid : String}

theorem target_not_governs {affiliation : Option String} {target : Jid}
    {affiliation' : Option Affiliation} {o : Occupant}
    (hc : r.affiliationChange sv (.user actor) jid affiliation = .ok (target, affiliation'))
    (hactor : r.getAffiliation sv actor ≠ some .owner)
    (ho : o.bareJid = some target.bareParts.join) : ¬ r.Governs sv o := by
  obtain ⟨hadmin, hs, hp, hd⟩ := affiliationChange_ok hc
  have hbare : Jid.bare jid = some target.bareParts.join := by rw [Jid.bare, hs]; rfl
  rcases affiliationDenied_none hd with ⟨howner, -⟩ | ⟨-, h1, h2, h3, h4⟩
  · exact absurd howner hactor
  · have hne : affiliation ≠ some "owner" := by
      apply parseAffiliation_owner
      rw [hp]
      intro heq
      exact h1 (Option.some.inj heq)
    have hno : sv.isAdmin target.bareParts.join = false := by
      rw [isAdmin_bare hbare]
      simpa [hne] using hadmin
    have hstored : ∀ a, a ≠ Affiliation.outcast → r.affiliations.get target.bareParts.join ≠ some a →
        r.getAffiliation sv target.bareParts.join ≠ some a := by
      intro a ha hget
      unfold getAffiliation
      rw [hno, if_neg Bool.false_ne_true, Ne, storedAffiliation_iff ha]
      rintro ⟨b, hb, hg⟩
      rw [Jid.bare_bare hbare] at hb
      cases hb
      exact hget hg
    unfold Governs
    rw [ho, Option.bind_some]
    rintro (hgov | hgov)
    · exact hstored _ (by decide) h3 hgov
    · exact hstored _ (by decide) h4 hgov

theorem Consistent.applyAffiliation_respects (h : r.Consistent) (env : Env)
    {affiliation : Option String} {target : Jid} {affiliation' : Option Affiliation}
    (data : DataArg)
    (hc : r.affiliationChange sv (.user actor) jid affiliation = .ok (target, affiliation'))
    (nick : String) (o : Occupant)
    (hlow : r.Lowered (r.applyAffiliation env target affiliation' data) nick o) :
    r.Entitled sv actor ∧ (r.Governs sv o → r.getAffiliation sv actor ≠ some .owner →
        affiliation' = some .outcast ∧ target.node = none ∧
          r.affiliations.get target.host ≠ some .outcast ∧
          (o.bareJid.bind Jid.split).map Jid.host = some target.host) := by
  obtain ⟨-, -, -, hd⟩ := affiliationChange_ok hc
  constructor
  · rcases affiliationDenied_none hd with ⟨howner, -⟩ | ⟨hadmin, -⟩
    · exact Or.inl howner
    · exact Or.inr (Or.inl hadmin)
  · intro hgov hactor
    obtain ⟨hget, hafter⟩ := hlow
    rw [h.housed.applyAffiliation_get, hget, Option.bind_some] at hafter
    obtain ⟨hdown, hconcerned⟩ := roleAfterChange_lowered hafter
    rcases hconcerned with hself | ⟨hnode, hout, hhost⟩
    · exact absurd hgov (target_not_governs hc hactor hself)
    · refine ⟨hout, hnode, ?_, hhost⟩
      have hjoin : target.bareParts.join = target.host := by
        simp [Jid.bareParts, Jid.join, hnode]
      rw [hjoin, hout, decide_eq_true_iff] at hdown
      intro hbanned
      rw [hbanned] at hdown
      exact lt_irrefl _ hdown

/-! ## Reserving a nick -/

variable {nick : Option String}

theorem reserveNick_free (env : Env) (hfree : ∀ n, nick = some n → r.holdsReserved jid n = false) :
    r.reserveNick sv env jid nick = r := by
  cases nick with
  | none => rfl
  | some n => simp [reserveNick, hfree n rfl]

theorem Consistent.reserveNick_cases (h : r.Consistent) (sv : Server) (env : Env) (jid : String)
    (nick : Option String) : (∃ n o, nick = some n ∧ r.occupants.get (r.occupantJid n) = some o ∧
      o.bareJid ≠ some jid) ∨ r.reserveNick sv env jid nick = r := by
  refine or_iff_not_imp_left.mpr fun hkick => reserveNick_free env fun n hn => ?_
  rw [← Bool.not_eq_true, h.housed.holdsReserved_iff]
  rintro ⟨o, ho, hne⟩
  exact hkick ⟨n, o, hn, ho, hne⟩

/-! ## Requests as a whole -/

variable {affiliation : String}

theorem Consistent.affiliation_respects (h : r.Consistent) (env : Env)
    (hk : ¬ r.KicksHolder sv actor jid nick affiliation)
    (hb : ¬ r.BansGovernor sv actor jid affiliation) :
    r.RespectsAuthority sv actor ((r.reserveNick sv env jid nick).setAffiliation sv env
      (.user actor) jid (some affiliation) (reservation nick)) := by
  have hcong := r.reserveNick_affiliationChange sv env jid nick (.user actor) jid
    (some affiliation)
  have hgov := r.reserveNick_getAffiliation sv env jid nick
  have hcons := h.reserveNick sv env jid nick
  rcases h.reserveNick_cases sv env jid nick with ⟨n, o, rfl, ho, hne⟩ | hsame
  · cases hc : r.affiliationChange sv (.user actor) jid (some affiliation) with
    | error e => exact absurd ⟨n, o, rfl, ho, hne, Or.inl ⟨e, hc⟩⟩ hk
    | ok change =>
      obtain ⟨target, affiliation'⟩ := change
      rw [hc] at hcong
      simp only [Room.setAffiliation, hcong]
      have hentitled : r.Entitled sv actor := by
        rcases affiliationDenied_none (affiliationChange_ok hc).2.2.2 with ⟨howner, -⟩ | ⟨hadmin, -⟩
        · exact Or.inl howner
        · exact Or.inr (Or.inl hadmin)
      refine ⟨fun e he => (by cases he), fun _ _ _ => hentitled, ?_⟩
      rintro m o' ⟨hget, hlow⟩ hgo
      by_contra hactor
      by_cases hm : m = r.occupantJid n
      · -- the holder that was kicked
        rw [hm, ho] at hget
        cases hget
        exact hk ⟨n, o, rfl, ho, hne, Or.inr ⟨hgo, hactor⟩⟩
      · have hget' : (r.reserveNick sv env jid (some n)).occupants.get m = some o' := by
          rw [h.housed.reserveNick_get env ho hne, if_neg hm, hget]
        obtain ⟨-, hban⟩ := hcons.applyAffiliation_respects env (reservation (some n)) hcong m o'
          ⟨hget', hlow⟩
        rw [Governs, hgov] at hban
        obtain ⟨rfl, hnode, hbanned, hhost⟩ := hban hgo hactor
        rw [reserveNick_affiliations] at hbanned
        exact hb ⟨target, hc, hnode, hbanned, hactor, m, o', hget, hgo, hhost⟩
  · rw [hsame]
    cases hc : r.affiliationChange sv (.user actor) jid (some affiliation) with
    | error e =>
      simp only [Room.setAffiliation, hc]
      exact respectsAuthority_of_same rfl rfl rfl
    | ok change =>
      obtain ⟨target, affiliation'⟩ := change
      simp only [Room.setAffiliation, hc]
      have hall := h.applyAffiliation_respects env (reservation nick) hc
      refine ⟨fun e he => (by cases he), fun m o hl => (hall m o hl).1, ?_⟩
      intro m o hl hgo
      by_contra hactor
      obtain ⟨rfl, hnode, hbanned, hhost⟩ := (hall m o hl).2 hgo hactor
      exact hb ⟨target, hc, hnode, hbanned, hactor, m, o, hl.1, hgo, hhost⟩

theorem Consistent.kicksHolder_breaks (h : r.Consistent) (env : Env)
    (hk : r.KicksHolder sv actor jid nick affiliation) :
    ¬ r.RespectsAuthority sv actor ((r.reserveNick sv env jid nick).setAffiliation sv env
      (.user actor) jid (some affiliation) (reservation nick)) := by
  intro hr
  have hcong := r.reserveNick_affiliationChange sv env jid nick (.user actor) jid
    (some affiliation)
  have hcons := h.reserveNick sv env jid nick
  obtain ⟨n, o, rfl, ho, hne, hwrong⟩ := hk
  have hgone : (r.reserveNick sv env jid (some n)).occupants.get (r.occupantJid n) = none := by
    rw [h.housed.reserveNick_get env ho hne, if_pos rfl]
  cases hc : r.affiliationChange sv (.user actor) jid (some affiliation) with
  | error e =>
    rw [hc] at hcong
    simp only [Room.setAffiliation, hcong] at hr
    have hocc := (hr.error e rfl).2.2
    dsimp only at hocc
    rw [hocc, ho] at hgone
    cases hgone
  | ok change =>
    obtain ⟨target, affiliation'⟩ := change
    rw [hc] at hcong
    simp only [Room.setAffiliation, hcong] at hr
    rcases hwrong with ⟨e, he⟩ | ⟨hgo, hactor⟩
    · rw [hc] at he
      cases he
    · refine hactor (hr.governed (r.occupantJid n) o ⟨ho, ?_⟩ hgo)
      intro o' ho'
      dsimp only at ho'
      rw [hcons.housed.applyAffiliation_get, hgone] at ho'
      cases ho'

theorem Consistent.bansGovernor_breaks (h : r.Consistent) (env : Env)
    (hb : r.BansGovernor sv actor jid affiliation) :
    ¬ r.RespectsAuthority sv actor ((r.reserveNick sv env jid nick).setAffiliation sv env
      (.user actor) jid (some affiliation) (reservation nick)) := by
  intro hr
  have hcong := r.reserveNick_affiliationChange sv env jid nick (.user actor) jid
    (some affiliation)
  have hcons := h.reserveNick sv env jid nick
  obtain ⟨target, hc, hnode, hbanned, hactor, m, o, ho, hgo, hhost⟩ := hb
  rw [hc] at hcong
  simp only [Room.setAffiliation, hcong] at hr
  refine hactor (hr.governed m o ⟨ho, ?_⟩ hgo)
  intro o' ho'
  exfalso
  dsimp only at ho'
  rw [hcons.housed.applyAffiliation_get] at ho'
  -- the occupant is still there, or the request has kicked it already
  have hstill : (r.reserveNick sv env jid nick).occupants.get m = some o := by
    obtain ⟨o₁, ho₁, -⟩ := Option.bind_eq_some_iff.mp ho'
    rw [ho₁]
    rcases h.reserveNick_cases sv env jid nick with ⟨n, o₂, rfl, ho₂, hne⟩ | hsame
    · rw [h.housed.reserveNick_get env ho₂ hne] at ho₁
      split at ho₁
      · cases ho₁
      · rw [← ho₁, ho]
    · rw [hsame, ho] at ho₁
      rw [ho₁]
  have hjoin : target.bareParts.join = target.host := by
    simp [Jid.bareParts, Jid.join, hnode]
  have hdown : affiliationRank (some .outcast) < affiliationRank (r.affiliations.get target.host) := by
    cases hget : r.affiliations.get target.host with
    | none => decide
    | some a =>
      cases a with
      | outcast => exact absurd hget hbanned
      | member => decide
      | admin => decide
      | owner => decide
  have hrole := (h.present m o ho).role
  rw [hstill, Option.bind_some, getDefaultRole_outcast, reserveNick_affiliations, hjoin] at ho'
  simp [withRole, roleAfterChange, hdown, hrole, hnode, hhost] at ho'

end

/-- A request of any kind, from anybody, respects the authority in the room exactly when it is
well meant. -/
theorem adminRequests_respect_iff {sv : Server} {r : Room} (h : Reachable sv r) (env : Env)
    (actor : String) (item : Option AdminItem) :
    r.RespectsAuthority sv actor (r.handleAdminQuerySet sv env actor item) ↔
      r.WellMeant sv actor item := by
  have hc := h.consistent
  unfold handleAdminQuerySet WellMeant
  cases hcmd : r.adminCommand sv item with
  | error e =>
    refine iff_of_true (respectsAuthority_of_same rfl rfl rfl) ?_
    intro jid nick affiliation hcmd
    cases hcmd
  | ok cmd =>
    cases cmd with
    | role nick role =>
      refine iff_of_true (hc.setRole_respects env _ _) ?_
      intro jid nick affiliation hcmd
      cases hcmd
    | affiliation jid nick affiliation =>
      constructor
      · rintro hr _ _ _ ⟨⟩
        exact ⟨fun hk => hc.kicksHolder_breaks env hk hr,
          fun hb => hc.bansGovernor_breaks env hb hr⟩
      · intro hw
        obtain ⟨hk, hb⟩ := hw jid nick affiliation rfl
        exact hc.affiliation_respects env hk hb

/-! ## A participant who reserves the nick of the owner -/

/-- Romeo asks to make Mercutio a member under the nick that Juliet uses. -/
def reserveJuliet : AdminItem :=
  { jid := some "mercutio@escalus"
    nick := some "juliet"
    affiliation := some "member"
    role := none }

theorem adminRequests_respect_garden :
    garden.RespectsAuthority plainServer "juliet@capulet/balcony"
      (garden.handleAdminQuerySet plainServer ascending "juliet@capulet/balcony"
        (some { reserveJuliet with nick := some "mercutio" })) := by
  refine (adminRequests_respect_iff garden_reachable _ _ _).mpr ?_
  intro jid nick affiliation h
  have hcommand : garden.adminCommand plainServer
      (some { reserveJuliet with nick := some "mercutio" }) =
      .ok (.affiliation "mercutio@escalus" (some "mercutio") "member") := rfl
  cases hcommand.symm.trans h
  constructor
  · rintro ⟨_, o, ⟨⟩, ho, -⟩
    have hfree : garden.occupants.get (garden.occupantJid "mercutio") = none := by decide +kernel
    cases hfree.symm.trans ho
  · rintro ⟨target, hban, -⟩
    have hmember : (garden.affiliationChange plainServer (.user "juliet@capulet/balcony")
        "mercutio@escalus" (some "member")).toOption.map Prod.snd = some (some .member) := by
      decide +kernel
    rw [hban] at hmember
    cases hmember

/-- He gets an error, and Juliet, who owns the room, is gone. -/
theorem participant_kicks_owner : Reachable plainServer garden ∧
    ¬ garden.RespectsAuthority plainServer "romeo@montague/orchard"
      (garden.handleAdminQuerySet plainServer ascending "romeo@montague/orchard"
        (some reserveJuliet)) := by
  refine ⟨garden_reachable, ?_⟩
  intro h
  have herr : (garden.handleAdminQuerySet plainServer ascending "romeo@montague/orchard"
      (some reserveJuliet)).2 = .error notAllowed := by decide +kernel
  have hocc := (h.error _ herr).2.2
  have hgone : ((garden.handleAdminQuerySet plainServer ascending "romeo@montague/orchard"
      (some reserveJuliet)).1.occupants.get "garden@verona/juliet").isSome = false := by
    decide +kernel
  rw [hocc] at hgone
  have hthere : (garden.occupants.get "garden@verona/juliet").isSome = true := by decide +kernel
  rw [hthere] at hgone
  cases hgone

end Room

end Prosody.Muc
