import Prosody.Muc.Register
import Prosody.Muc.Occupancy

/-! # Reserved nicks are exclusive

The reservations are kept with the affiliations, read through the cache of the room, and
enforced when somebody enters or changes nick. -/

namespace Prosody.Muc

namespace Room

variable {sv : Server} {env : Env} {r r' : Room} {target : Jid} {a : Option Affiliation}
  {data : DataArg} {nick jid jid' n : String} {ord : KeyOrder String}

/-! ## The map of reservations -/

/-- No two addresses hold the same nick. -/
def UniqueNicks (r : Room) : Prop :=
  ∀ jid jid' nick, r.getRegisteredNick jid = some nick → r.getRegisteredNick jid' = some nick →
    jid = jid'

def DataHeld (r : Room) : Prop :=
  ∀ jid, r.affiliationData.get jid ≠ none → r.affiliations.get jid ≠ none

theorem reserveFor_get (h : r.UniqueNicks) (reserved : Table String String)
    (hr : ∀ nick jid, reserved.get nick = some jid → r.getRegisteredNick jid = some nick)
    (jid : String) :
    (∀ nick jid', (r.reserveFor reserved jid).get nick = some jid' →
        r.getRegisteredNick jid' = some nick) ∧
      (∀ nick, r.getRegisteredNick jid = some nick →
        (r.reserveFor reserved jid).get nick = some jid) ∧
      ∀ nick jid', reserved.get nick = some jid' →
        (r.reserveFor reserved jid).get nick = some jid' := by
  unfold reserveFor
  cases hj : r.getRegisteredNick jid with
  | none => exact ⟨hr, nofun, fun _ _ hget => hget⟩
  | some nick =>
    refine ⟨?_, ?_, ?_⟩
    · intro m jid' hget
      dsimp only at hget
      rw [Table.get_set] at hget
      split at hget
      · rename_i hm
        cases hget
        rw [hm, hj]
      · exact hr m jid' hget
    · rintro m ⟨⟩
      exact Table.get_set_self _ _ _
    · intro m jid' hget
      dsimp only
      rw [Table.get_set]
      split
      · rename_i hm
        rw [hm] at hget
        rw [h jid jid' nick hj (hr _ _ hget)]
      · exact hget

theorem computeReservedNicks_get (h : r.UniqueNicks) (hd : r.DataHeld) (ord : KeyOrder String) :
    (r.computeReservedNicks ord).get nick = some jid ↔ r.getRegisteredNick jid = some nick := by
  obtain ⟨hsound, hcomplete⟩ := Lists.foldl_through (f := r.reserveFor)
    (P := fun done reserved =>
      (∀ nick jid, reserved.get nick = some jid → r.getRegisteredNick jid = some nick) ∧
        ∀ nick jid, done jid → r.getRegisteredNick jid = some nick → reserved.get nick = some jid)
    (fun done reserved j hr => by
      obtain ⟨hsound, hown, hold⟩ := reserveFor_get h reserved hr.1 j
      refine ⟨hsound, ?_⟩
      rintro nick jid (hdone | rfl) hj
      · exact hold nick jid (hr.2 nick jid hdone hj)
      · exact hown nick hj)
    (ord.keys r.affiliations.keys) (s := ∅) ⟨by simp, fun _ _ hf => hf.elim⟩
  refine ⟨hsound nick jid, fun hj => hcomplete nick jid ((ord.mem_keys _ _).mpr ?_) hj⟩
  rw [Table.mem_keys]
  have hdata : r.affiliationData.get jid ≠ none := by
    intro hnone
    simp [getRegisteredNick, hnone] at hj
  exact Option.ne_none_iff_exists'.mp (hd jid hdata)

theorem computeReservedNicks_congr (h : r.UniqueNicks) (hd : r.DataHeld)
    (ord ord' : KeyOrder String) : r.computeReservedNicks ord = r.computeReservedNicks ord' := by
  apply Table.ext
  intro nick
  apply Option.ext
  intro jid
  rw [computeReservedNicks_get h hd, computeReservedNicks_get h hd]

theorem SameStanding.getRegisteredNick (h : r.SameStanding r') :
    r'.getRegisteredNick = r.getRegisteredNick := by
  funext jid
  unfold Room.getRegisteredNick
  rw [h.2]

theorem SameStanding.computeReservedNicks (h : r.SameStanding r') (ord : KeyOrder String) :
    r'.computeReservedNicks ord = r.computeReservedNicks ord := by
  have hfor : r'.reserveFor = r.reserveFor := by
    funext reserved jid
    unfold reserveFor
    rw [h.getRegisteredNick]
  unfold Room.computeReservedNicks
  rw [h.1, hfor]

/-! ## Reservations after a change of affiliation -/

/-- The reservation of an address once its affiliation was set. -/
def newReservation (a : Option Affiliation) (data : DataArg) (old : Option String) :
    Option String :=
  match a, data with
  | none, _ => none
  | some _, .keep => old
  | some _, .clear => none
  | some _, .fields data => data.get "reserved_nickname"

theorem applyAffiliation_affiliationData (env : Env) (r : Room) (target : Jid)
    (a : Option Affiliation) (data : DataArg) :
    (r.applyAffiliation env target a data).affiliationData =
      (r.storeAffiliation target.bareParts.join a data).affiliationData :=
  (sameConfig_applyAffiliation env r target a data).affiliationData

theorem applyAffiliation_getRegisteredNick (jid : String) :
    (r.applyAffiliation env target a data).getRegisteredNick jid =
      if jid = target.bareParts.join then newReservation a data (r.getRegisteredNick jid)
      else r.getRegisteredNick jid := by
  unfold Room.getRegisteredNick newReservation
  rw [applyAffiliation_affiliationData]
  unfold storeAffiliation
  dsimp only
  cases a with
  | none =>
    rw [if_pos rfl, Table.get_set]
    split
    · rfl
    · rfl
  | some a =>
    rw [if_neg (Option.some_ne_none a)]
    cases data with
    | keep =>
      dsimp only
      split
      · rfl
      · rfl
    | clear =>
      dsimp only
      rw [Table.get_set]
      split
      · rfl
      · rfl
    | fields data =>
      dsimp only
      rw [Table.get_set]
      split
      · split
        · rename_i hempty
          rw [hempty]
          rfl
        · rfl
      · rfl

theorem DataHeld.applyAffiliation (h : r.DataHeld) :
    (r.applyAffiliation env target a data).DataHeld := by
  intro jid
  rw [applyAffiliation_affiliations, applyAffiliation_affiliationData]
  unfold storeAffiliation
  dsimp only
  intro hdata
  by_cases hj : jid = target.bareParts.join
  · rw [hj, Table.get_set_self]
    rintro rfl
    rw [if_pos rfl, hj, Table.get_set_self] at hdata
    exact hdata rfl
  · rw [Table.get_set_of_ne _ hj]
    apply h
    cases a with
    | none =>
      rw [if_pos rfl, Table.get_set_of_ne _ hj] at hdata
      exact hdata
    | some a =>
      rw [if_neg (Option.some_ne_none a)] at hdata
      cases data with
      | keep => exact hdata
      | clear =>
        dsimp only at hdata
        rwa [Table.get_set_of_ne _ hj] at hdata
      | fields data =>
        dsimp only at hdata
        rwa [Table.get_set_of_ne _ hj] at hdata

theorem newReservation_keep (a : Option Affiliation) : newReservation a .keep none = none := by
  cases a <;> rfl

theorem newReservation_cases {old : Option String} (h : newReservation a data old = some nick) :
    old = some nick ∨ newReservation a data none = some nick := by
  cases a with
  | none => cases h
  | some a =>
    cases data with
    | keep => exact Or.inl h
    | clear => cases h
    | fields data => exact Or.inr h

/-! ## Nicks of the room -/

theorem occupantJid_inj (h : r.occupantJid nick = r.occupantJid n) : nick = n := by
  have hl := congrArg String.toList h
  simp only [occupantJid, String.toList_append] at hl
  exact String.toList_injective (List.append_cancel_left hl)

theorem addressed_bare {recipient : String} (h : r.addressed recipient) :
    Jid.bare recipient = some r.jid := by
  obtain ⟨parts, hs, -, hb⟩ := addressed_iff.mp h
  rw [Jid.bare, hs, Option.map_some, hb]

theorem addressed_resource (h : r.addressed (r.occupantJid nick)) :
    Jid.resourceOf (r.occupantJid nick) = some nick := by
  obtain ⟨parts, hs, hres, hb⟩ := addressed_iff.mp h
  obtain ⟨resource, hres⟩ := Option.isSome_iff_exists.mp hres
  have hjoin := Jid.join_split hs
  rw [Jid.join_of_resource hres, hb] at hjoin
  rw [Jid.resourceOf, hs, Option.bind_some, hres, occupantJid_inj (r := r) hjoin]

theorem kickOthers_spec (h : r.Housed) (sv : Server) (env : Env) (userJid requiredNick : String) :
    (r.kickOthers sv env userJid requiredNick).Housed ∧
      r.Keeps (r.kickOthers sv env userJid requiredNick) ∧
      r.SameConfig (r.kickOthers sv env userJid requiredNick) := by
  unfold kickOthers
  refine List.foldlRecOn (motive := fun r' => r'.Housed ∧ r.Keeps r' ∧ r.SameConfig r') _ _
    ⟨h, Keeps.refl r, SameConfig.refl r⟩ fun r' hr n _ => ?_
  split
  · obtain ⟨hh, hk⟩ := hr.1.setRole sv env .service n none
    exact ⟨hh, hr.2.1.trans hk, hr.2.2.trans (sameConfig_setRole sv env r' _ _ _)⟩
  · exact hr

/-- The operations that fire `muc-set-affiliation`. -/
theorem changesAffiliation_iff {op : Op} :
    r.changesAffiliation sv env op = true ↔
      ∃ target a data r', Writes sv env r op target a data r' := by
  cases op with
  | setAffiliation actor jid affiliation data =>
    unfold changesAffiliation
    dsimp only
    rw [setAffiliation]
    cases hc : r.affiliationChange sv actor jid affiliation with
    | error e =>
      refine iff_of_false (by simp [Except.isOk, Except.toBool]) ?_
      rintro ⟨_, _, _, _, hw⟩
      cases hw with
      | setAffiliation hok => rw [hc] at hok; cases hok
    | ok change => exact iff_of_true rfl ⟨_, _, _, _, .setAffiliation hc⟩
  | adminSet actor item =>
    unfold changesAffiliation
    dsimp only
    cases hcmd : r.adminCommand sv item with
    | error e =>
      refine iff_of_false (by simp) ?_
      rintro ⟨_, _, _, _, hw⟩
      cases hw with
      | adminSet hok => rw [hcmd] at hok; cases hok
    | ok command =>
      cases command with
      | role nick role =>
        refine iff_of_false (by simp) ?_
        rintro ⟨_, _, _, _, hw⟩
        cases hw with
        | adminSet hok => rw [hcmd] at hok; cases hok
      | affiliation jid nick affiliation =>
        dsimp only
        rw [setAffiliation, reserveNick_affiliationChange]
        cases hc : r.affiliationChange sv (.user actor) jid (some affiliation) with
        | error e =>
          refine iff_of_false (by simp [Except.isOk, Except.toBool]) ?_
          rintro ⟨_, _, _, _, hw⟩
          cases hw with
          | adminSet hok hok' =>
            rw [hcmd] at hok
            cases hok
            rw [hc] at hok'
            cases hok'
        | ok change => exact iff_of_true rfl ⟨_, _, _, _, .adminSet hcmd hc⟩
  | presence => exact iff_of_false Bool.false_ne_true (by rintro ⟨_, _, _, _, hw⟩; cases hw)
  | kick => exact iff_of_false Bool.false_ne_true (by rintro ⟨_, _, _, _, hw⟩; cases hw)
  | setRole => exact iff_of_false Bool.false_ne_true (by rintro ⟨_, _, _, _, hw⟩; cases hw)
  | setMembersOnly => exact iff_of_false Bool.false_ne_true (by rintro ⟨_, _, _, _, hw⟩; cases hw)
  | setModerated => exact iff_of_false Bool.false_ne_true (by rintro ⟨_, _, _, _, hw⟩; cases hw)
  | clear => exact iff_of_false Bool.false_ne_true (by rintro ⟨_, _, _, _, hw⟩; cases hw)

end Room

namespace NickRoom

variable {sv : Server} {cfg : RegisterConfig} {env : Env} {s : NickRoom} {r : Room}
  {ord : KeyOrder String} {nick jid : String}

/-- The three facts about reservations. -/
structure Exclusive (s : NickRoom) : Prop where
  unique : s.room.UniqueNicks
  cache : ∀ reserved ord, s.reservedNicks = some reserved →
    reserved = s.room.computeReservedNicks ord
  used : ∀ n o jid nick, s.room.occupants.get n = some o →
    s.room.getRegisteredNick jid = some nick → n = s.room.occupantJid nick →
    o.bareJid = some jid

structure Orderly (s : NickRoom) : Prop extends Exclusive s where
  housed : s.room.Housed
  held : s.room.DataHeld

/-! ## The cache -/

theorem Orderly.getReservedNicks (h : s.Orderly) (ord ord' : KeyOrder String) :
    s.getReservedNicks ord = s.room.computeReservedNicks ord' := by
  unfold NickRoom.getReservedNicks
  cases hc : s.reservedNicks with
  | none => exact Room.computeReservedNicks_congr h.unique h.held ord ord'
  | some reserved => exact h.cache reserved ord' hc

theorem Orderly.getRegisteredJid (h : s.Orderly) (ord : KeyOrder String) :
    s.getRegisteredJid ord nick = some jid ↔ s.room.getRegisteredNick jid = some nick := by
  unfold NickRoom.getRegisteredJid
  rw [h.getReservedNicks ord ord, Room.computeReservedNicks_get h.unique h.held]

theorem Orderly.refresh (h : s.Orderly) (ord : KeyOrder String) : (s.refresh ord).Orderly where
  unique := h.unique
  cache reserved ord' hc := by
    obtain rfl := Option.some.inj hc
    exact h.getReservedNicks ord ord'
  used := h.used
  housed := h.housed
  held := h.held

theorem Orderly.withRoom (h : s.Orderly) (hh : r.Housed) (hs : s.room.SameStanding r)
    (hused : ∀ n o jid nick, r.occupants.get n = some o → s.room.getRegisteredNick jid = some nick →
      n = r.occupantJid nick → o.bareJid = some jid) :
    Orderly { s with room := r } where
  unique := by
    unfold Room.UniqueNicks
    rw [hs.getRegisteredNick]
    exact h.unique
  cache reserved ord hc := by
    rw [hs.computeReservedNicks]
    exact h.cache reserved ord hc
  used n o jid nick ho hreg hn := by
    rw [hs.getRegisteredNick] at hreg
    exact hused n o jid nick ho hreg hn
  housed := hh
  held := by
    unfold Room.DataHeld
    rw [hs.1, hs.2]
    exact h.held

theorem Orderly.keeps (h : s.Orderly) (hh : r.Housed) (hs : s.room.SameStanding r)
    (hk : s.room.Keeps r) (hjid : r.jid = s.room.jid) : Orderly { s with room := r } := by
  refine h.withRoom hh hs fun n o jid nick ho hreg hn => ?_
  obtain ⟨o', ho', hb⟩ := hk n o ho
  rw [hb]
  refine h.used n o' jid nick ho' hreg ?_
  rw [hn, Room.occupantJid, Room.occupantJid, hjid]

/-! ## Affiliations -/

variable {data : DataArg} {a : Option Affiliation}

theorem Orderly.applyAffiliation (h : s.Orderly) {target : Jid}
    (hfree : ∀ nick, Room.newReservation a data none = some nick →
      (∀ jid, s.room.getRegisteredNick jid = some nick → jid = target.bareParts.join) ∧
      ∀ o, s.room.occupants.get (s.room.occupantJid nick) = some o →
        o.bareJid = some target.bareParts.join) :
    Orderly { room := s.room.applyAffiliation env target a data, reservedNicks := none } := by
  -- where a reservation comes from
  have hreg : ∀ jid nick,
      (s.room.applyAffiliation env target a data).getRegisteredNick jid = some nick →
      s.room.getRegisteredNick jid = some nick ∨
        (jid = target.bareParts.join ∧ Room.newReservation a data none = some nick) := by
    intro jid nick hjid
    rw [Room.applyAffiliation_getRegisteredNick] at hjid
    split at hjid
    · rename_i heq
      rcases Room.newReservation_cases hjid with hold | hnew
      · exact Or.inl hold
      · exact Or.inr ⟨heq, hnew⟩
    · exact Or.inl hjid
  have hs : (s.room.storeAffiliation target.bareParts.join a data).Housed := h.housed.of_eq rfl rfl
  refine ⟨⟨?_, nofun, ?_⟩, hs.updateRoles env.order _, Room.DataHeld.applyAffiliation h.held⟩
  · intro jid jid' nick hj hj'
    rcases hreg jid nick hj with hold | ⟨rfl, hnew⟩
    · rcases hreg jid' nick hj' with hold' | ⟨rfl, hnew'⟩
      · exact h.unique jid jid' nick hold hold'
      · exact (hfree nick hnew').1 jid hold
    · rcases hreg jid' nick hj' with hold' | ⟨rfl, -⟩
      · exact ((hfree nick hnew).1 jid' hold').symm
      · rfl
  · intro n o' jid nick ho' hj hn
    obtain ⟨o, ho, hb⟩ := ((Room.Keeps.of_eq rfl).trans (hs.keeps_updateRoles env.order _)) n o' ho'
    have hn' : n = s.room.occupantJid nick := by
      rw [hn]
      unfold Room.occupantJid
      rw [(Room.sameConfig_applyAffiliation env s.room target a data).jid]
      rfl
    rw [hb]
    rcases hreg jid nick hj with hold | ⟨rfl, hnew⟩
    · exact h.used n o jid nick ho hold hn'
    · rw [hn'] at ho
      exact (hfree nick hnew).2 o ho

theorem Orderly.setAffiliation (h : s.Orderly) {actor : Actor} {affiliation : Option String}
    (hfree : ∀ target a nick, s.room.affiliationChange sv actor jid affiliation = .ok (target, a) →
      Room.newReservation a data none = some nick →
      (∀ jid, s.room.getRegisteredNick jid = some nick → jid = target.bareParts.join) ∧
      ∀ o, s.room.occupants.get (s.room.occupantJid nick) = some o →
        o.bareJid = some target.bareParts.join) :
    (s.setAffiliation sv env actor jid affiliation data).1.Orderly := by
  unfold NickRoom.setAffiliation Room.setAffiliation
  cases hc : s.room.affiliationChange sv actor jid affiliation with
  | error e => exact h
  | ok change =>
    obtain ⟨target, a⟩ := change
    exact h.applyAffiliation fun nick hnew => hfree target a nick hc hnew

/-! ## Registrations -/

theorem Orderly.register (h : s.Orderly) {userJid desiredNick : String}
    (hbare : Jid.bare userJid = some userJid) (affiliation : Option Affiliation) :
    (s.register sv cfg env userJid affiliation desiredNick).1.Orderly := by
  unfold NickRoom.register
  split
  · exact h
  rename_i hholds
  dsimp only
  split
  · exact h.refresh env.order
  rename_i hreserved
  -- the room after the kicks, if there are any
  have hsaves : ∀ s' : NickRoom, s'.Orderly → s.room.Keeps s'.room → s.room.SameConfig s'.room →
      (s'.setAffiliation sv env .service userJid (affiliationName (affiliation.or (some .member)))
        (.fields (registrationData desiredNick))).1.Orderly := by
    intro s' horderly hk hc
    refine horderly.setAffiliation fun target a nick hchange hnew => ?_
    have htarget : target.bareParts.join = userJid := by
      have hsplit := (Room.affiliationChange_ok hchange).2.1
      rw [Jid.bare, hsplit] at hbare
      exact Option.some.inj hbare
    have hnick : nick = desiredNick := by
      cases a with
      | none => cases hnew
      | some a =>
        have hdata : (registrationData desiredNick).get "reserved_nickname" = some nick := hnew
        rw [registrationData, Table.get_set_self] at hdata
        exact (Option.some.inj hdata).symm
    subst hnick
    rw [htarget]
    constructor
    · intro jid hreg
      rw [hc.standing.getRegisteredNick, ← h.getRegisteredJid env.order] at hreg
      by_contra hne
      rw [hreg] at hreserved
      exact hreserved (by simpa using hne)
    · intro o ho
      obtain ⟨o', ho', hb⟩ := hk _ o ho
      rw [hb]
      by_contra hne
      refine hholds ((h.housed.holdsReserved_iff).mpr ⟨o', ?_, hne⟩)
      rwa [Room.occupantJid, hc.jid] at ho'
  obtain ⟨hkick, hkeeps, hsame⟩ := Room.kickOthers_spec h.housed sv env userJid
    (s.room.occupantJid desiredNick)
  have hkicked := (h.refresh env.order).keeps hkick hsame.standing hkeeps hsame.jid
  split
  · split
    · exact hsaves _ hkicked hkeeps hsame
    · exact hsaves _ (h.refresh env.order) (Room.Keeps.refl _) (Room.SameConfig.refl _)
  · split
    · exact hkicked
    · exact h.refresh env.order

theorem Orderly.handleRegisterIq (h : s.Orderly) (sender : String) (query : RegisterQuery) :
    (s.handleRegisterIq sv cfg env sender query).1.Orderly := by
  unfold NickRoom.handleRegisterIq
  cases hb : Jid.bare sender with
  | none => exact h
  | some userJid =>
    dsimp only
    split
    · exact h
    · split
      · exact h
      · cases query with
        | get => exact h
        | remove =>
          refine h.setAffiliation fun target a nick _ hnew => ?_
          cases a with
          | none => cases hnew
          | some a => cases hnew
        | form data =>
          cases data with
          | none => exact h
          | some field =>
            dsimp only
            split
            · exact h
            · exact h.register (Jid.bare_bare hb) _

/-! ## Presences -/

variable {stanza : Presence}

/-- Where the policy lets a presence pass, the nick it ends up under is reserved for its sender
or for nobody. -/
theorem Orderly.enforceNickPolicy (h : s.Orderly) {joins : Bool}
    {dest : Occupant} (haddr : s.room.addressed stanza.recipient)
    (hdest : dest.nick = stanza.recipient)
    (hv : s.enforceNickPolicy cfg ord stanza joins dest ≠ .handled)
    (hn : (s.enforceNickPolicy cfg ord stanza joins dest).nick stanza.recipient =
      s.room.occupantJid nick)
    (hreg : s.room.getRegisteredNick jid = some nick) : Jid.bare stanza.sender = some jid := by
  have hroom := Room.addressed_bare haddr
  -- the policy has looked up the nick that was asked for
  have hasked : ∀ reservedBy : Option String,
      reservedBy = (Jid.resourceOf stanza.recipient).bind (s.getRegisteredJid ord) →
      ¬ (reservedBy ≠ none ∧ reservedBy ≠ Jid.bare stanza.sender) →
      stanza.recipient = s.room.occupantJid nick → Jid.bare stanza.sender = some jid := by
    intro reservedBy hby hnot heq
    rw [heq] at haddr hby
    rw [Room.addressed_resource haddr, Option.bind_some,
      (h.getRegisteredJid ord).mpr hreg] at hby
    by_contra hne
    refine hnot ⟨by simp [hby], ?_⟩
    rw [hby]
    exact fun heq' => hne heq'.symm
  unfold NickRoom.enforceNickPolicy at hv hn
  dsimp only at hv hn
  rw [hdest, hroom] at hv hn
  split at hv
  · exact absurd rfl hv
  rename_i hnot
  rw [if_neg hnot] at hn
  split at hv
  · rename_i henforce
    rw [if_pos henforce] at hn
    cases hown : (Jid.bare stanza.sender).bind s.room.getRegisteredNick with
    | none =>
      rw [hown] at hn
      exact hasked _ rfl hnot hn
    | some own =>
      rw [hown] at hv hn
      dsimp only at hv hn
      split at hv
      · -- the nick of the sender's own reservation
        rename_i hjoins
        rw [if_pos hjoins] at hn
        obtain ⟨b, hb, hb'⟩ := Option.bind_eq_some_iff.mp hown
        have heq : own = nick := Room.occupantJid_inj (r := s.room) hn
        rw [heq] at hb'
        rw [hb, h.unique b jid nick hb' hreg]
      · rename_i hjoins
        rw [if_neg hjoins] at hn
        split at hv
        · exact absurd rfl hv
        · rename_i hsame
          rw [if_neg hsame] at hn
          exact hasked _ rfl hnot hn
  · rename_i henforce
    rw [if_neg henforce] at hn
    exact hasked _ rfl hnot hn

variable {others : Others}

theorem Orderly.consult (h : s.Orderly) {joins : Bool} {dest : Occupant}
    (haddr : s.room.addressed stanza.recipient) (hdest : dest.nick = stanza.recipient)
    (hv : (s.consult cfg ord stanza joins dest others).2 ≠ .handled)
    (hn : (s.consult cfg ord stanza joins dest others).2.nick stanza.recipient =
      s.room.occupantJid nick)
    (hreg : s.room.getRegisteredNick jid = some nick) : Jid.bare stanza.sender = some jid := by
  cases others with
  | before => exact absurd rfl hv
  | after => exact absurd rfl hv
  | pass => exact h.enforceNickPolicy haddr hdest hv hn hreg

theorem consult_fst (cfg : RegisterConfig) (ord : KeyOrder String) (s : NickRoom)
    (stanza : Presence) (joins : Bool) (dest : Occupant) (others : Others) :
    (s.consult cfg ord stanza joins dest others).1 = s ∨
      (s.consult cfg ord stanza joins dest others).1 = s.refresh ord := by
  cases others with
  | before => exact Or.inl rfl
  | after => exact Or.inr rfl
  | pass => exact Or.inr rfl

theorem fireEvent_fst (sv : Server) (cfg : RegisterConfig) (env : Env) (s : NickRoom)
    (stanza : Presence) (others : Others) :
    (s.fireEvent sv cfg env stanza others).1 = s ∨
      (s.fireEvent sv cfg env stanza others).1 = s.refresh env.order := by
  unfold fireEvent
  dsimp only
  split
  · exact consult_fst _ _ _ _ _ _ _
  · exact consult_fst _ _ _ _ _ _ _
  · exact consult_fst _ _ _ _ _ _ _
  · exact Or.inl rfl

theorem Orderly.fireEvent (h : s.Orderly) {n : String} (haddr : s.room.addressed stanza.recipient)
    (hadmits : Room.Housed.Admits sv s.room stanza (s.fireEvent sv cfg env stanza others).2 n)
    (hn : n = s.room.occupantJid nick) (hreg : s.room.getRegisteredNick jid = some nick) :
    Jid.bare stanza.sender = some jid := by
  obtain ⟨hnick, hv, ht, -⟩ := hadmits
  rw [hnick] at hn
  unfold NickRoom.fireEvent at hv hn
  dsimp only at hv hn
  cases hd : s.room.destination sv env stanza (s.room.getOccupantByRealJid stanza.sender) with
  | leave => exact absurd (Room.Housed.destination_leave hd) ht
  | update =>
    obtain ⟨o, ho, hon, -⟩ := Room.Housed.destination_update hd
    rw [hd, ho] at hv hn
    exact h.consult haddr hon hv hn hreg
  | enter dest isFirst =>
    obtain ⟨-, hdest, -⟩ := h.housed.destination_enter hd
    rw [hd] at hv hn
    cases ho : s.room.getOccupantByRealJid stanza.sender with
    | none =>
      rw [ho] at hv hn
      exact h.consult haddr hdest hv hn hreg
    | some orig =>
      rw [ho] at hv hn
      exact h.consult haddr hdest hv hn hreg

theorem Orderly.handlePresenceToOccupant (h : s.Orderly)
    (haddr : s.room.addressed stanza.recipient) :
    (s.handlePresenceToOccupant sv cfg env stanza others).Orderly := by
  unfold NickRoom.handlePresenceToOccupant
  split
  · obtain ⟨hh, hk⟩ := h.housed.handleKickable env stanza.sender
    have hsame := Room.sameConfig_handleKickable env s.room stanza.sender
    exact h.keeps hh hsame.standing hk hsame.jid
  split
  swap
  · exact h
  unfold NickRoom.handleNormalPresence
  split
  · exact h
  dsimp only
  have hcache : Orderly { room := s.room, reservedNicks :=
      (s.fireEvent sv cfg env stanza others).1.reservedNicks } := by
    rcases fireEvent_fst sv cfg env s stanza others with heq | heq
    · rw [heq]
      exact h
    · rw [heq]
      exact h.refresh env.order
  obtain ⟨hh, hocc⟩ := h.housed.handleNormalPresence sv env stanza
    (s.fireEvent sv cfg env stanza others).2
  have hsame := Room.sameConfig_handleNormalPresence sv env s.room stanza
    (s.fireEvent sv cfg env stanza others).2
  refine hcache.withRoom hh hsame.standing fun n o jid nick ho hreg hn => ?_
  have hn' : n = s.room.occupantJid nick := by
    rw [hn, Room.occupantJid, Room.occupantJid, hsame.jid]
  rcases hocc n o ho with ⟨o', ho', hb⟩ | ⟨hadmits, hb⟩
  · rw [hb]
    exact h.used n o' jid nick ho' hreg hn'
  · rw [hb]
    exact h.fireEvent haddr hadmits hn' hreg

/-! ## Runs -/

/-- The step of an admin who reserves a nick that somebody else has reserved. -/
def Doubles (sv : Server) (s : NickRoom) : Env × NickOp → Prop
  | (env, .change operation) =>
    ∃ target a nick r', Room.Writes sv env s.room operation.op target (some a)
        (Room.reservation (some nick)) r' ∧
      ∃ jid, jid ≠ target.bareParts.join ∧ s.room.getRegisteredNick jid = some nick
  | _ => False

theorem newReservation_some {nick? : Option String}
    (h : Room.newReservation a (Room.reservation nick?) none = some nick) :
    a ≠ none ∧ nick? = some nick := by
  cases a with
  | none => cases h
  | some a =>
    cases nick? with
    | none => cases h
    | some nick' =>
      have hdata : ((∅ : AffiliationData).set "reserved_nickname" (some nick')).get
          "reserved_nickname" = some nick := h
      rw [Table.get_set_self] at hdata
      exact ⟨Option.some_ne_none a, hdata⟩

theorem Orderly.writes (h : s.Orderly) {op : Room.Op} (hplain : op.Plain) {target : Jid}
    (hw : Room.Writes sv env s.room op target a data r)
    (hdouble : ∀ nick, data = Room.reservation (some nick) → a ≠ none → ∀ jid,
      s.room.getRegisteredNick jid = some nick → jid = target.bareParts.join) :
    Orderly { room := r.applyAffiliation env target a data, reservedNicks := none } := by
  obtain ⟨hh, hk, hc⟩ := hw.room h.housed
  refine (h.keeps hh hc.standing hk hc.jid).applyAffiliation fun nick hnew => ?_
  cases hw with
  | setAffiliation hok =>
    have hdata : data = .keep := hplain
    rw [hdata] at hnew
    cases a with
    | none => cases hnew
    | some a => cases hnew
  | adminSet hcmd hok =>
    rename_i actor jid affiliation item nick?
    obtain ⟨ha, rfl⟩ := newReservation_some hnew
    constructor
    · intro jid' hreg
      dsimp only at hreg
      rw [hc.standing.getRegisteredNick] at hreg
      exact hdouble nick rfl ha jid' hreg
    · intro o ho
      have ho' : (s.room.reserveNick sv env jid (some nick)).occupants.get
          (s.room.occupantJid nick) = some o := by
        rwa [Room.occupantJid, hc.jid] at ho
      have hb := h.housed.reserveNick_holder env ho'
      obtain ⟨parts, hs, -, hjoin⟩ := hh.bareJid_split ho' hb
      obtain ⟨-, hsplit, -, -⟩ := Room.affiliationChange_ok hok
      rw [hs] at hsplit
      rw [hb, ← Option.some.inj hsplit, hjoin]

theorem Orderly.change (h : s.Orderly) (operation : Room.PlainOp)
    (hok : ¬ Doubles sv s (env, .change operation)) :
    (s.step sv cfg (env, .change operation)).Orderly := by
  obtain ⟨op, hplain⟩ := operation
  dsimp only [step]
  rcases h.housed.step_cases sv env op with ⟨target, a, data, r, hw, heq⟩ | ⟨hnone, -, hs⟩
  · rw [if_pos (Room.changesAffiliation_iff.mpr ⟨target, a, data, r, hw⟩), heq]
    refine h.writes hplain hw fun nick hdata ha jid hreg => ?_
    obtain ⟨a', rfl⟩ := Option.ne_none_iff_exists'.mp ha
    by_contra hne
    exact hok ⟨target, a', nick, r, hdata ▸ hw, jid, hne, hreg⟩
  · have hno : ¬ s.room.changesAffiliation sv env op = true := by
      rw [Room.changesAffiliation_iff]
      rintro ⟨target, a, data, r, hw⟩
      exact hnone target a data r hw
    rw [if_neg hno]
    have hop : ∀ stanza verdict, op ≠ .presence stanza verdict := by
      rintro stanza verdict rfl
      exact hplain
    exact h.keeps (h.housed.step sv env op) hs (h.housed.keeps_step sv env hop)
      (Room.step_jid sv env s.room op)

/-- A nick that is reserved twice stays so. -/
theorem Doubles.not_exclusive {input : Env × NickOp} (hd : Doubles sv s input) :
    ¬ (s.step sv cfg input).Exclusive := by
  obtain ⟨env, op⟩ := input
  cases op with
  | presence stanza others => exact hd.elim
  | register sender query => exact hd.elim
  | change operation =>
    obtain ⟨target, a, nick, r, hw, jid, hne, hreg⟩ := hd
    intro hex
    have hstep : (s.step sv cfg (env, .change operation)).room =
        r.applyAffiliation env target (some a) (Room.reservation (some nick)) :=
      hw.step
    have hsame : r.getRegisteredNick jid = some nick := by
      rw [hw.sameConfig.standing.getRegisteredNick, hreg]
    refine hne (hex.unique jid target.bareParts.join nick ?_ ?_)
    · rw [hstep, Room.applyAffiliation_getRegisteredNick, if_neg hne, hsame]
    · rw [hstep, Room.applyAffiliation_getRegisteredNick, if_pos rfl]
      exact Table.get_set_self _ _ _

theorem prepare_unreserved (sv : Server) (env : Env) (jid : String) (stanza : Presence)
    (membersOnly moderated : Bool) :
    (∀ j, ((Room.new jid false false).prepare sv env stanza membersOnly
        moderated).getRegisteredNick j = none) ∧
      ((Room.new jid false false).prepare sv env stanza membersOnly moderated).DataHeld := by
  have hnone : ∀ (r : Room), r.affiliationData = ∅ → ∀ j, r.getRegisteredNick j = none := by
    intro r hr j
    rw [Room.getRegisteredNick, hr]
    rfl
  have hheld : ∀ (r : Room), r.affiliationData = ∅ → r.DataHeld := by
    intro r hr j hj
    rw [hr] at hj
    exact absurd (Table.get_empty j) hj
  unfold Room.prepare
  rw [Room.setMembersOnly_empty (r := Room.new jid false false) rfl]
  dsimp only
  split
  · exact ⟨hnone _ rfl, hheld _ rfl⟩
  · rename_i b _
    unfold Room.setAffiliation
    split
    · exact ⟨hnone _ rfl, hheld _ rfl⟩
    · refine ⟨fun j => ?_, Room.DataHeld.applyAffiliation (hheld _ rfl)⟩
      rw [Room.applyAffiliation_getRegisteredNick, hnone _ rfl, Room.newReservation_keep, ite_self]

theorem Opened.orderly (h : Opened sv cfg s) : s.Orderly := by
  cases h with
  | new jid membersOnly moderated =>
    refine ⟨⟨nofun, nofun, nofun⟩, Room.housed_new jid membersOnly moderated, ?_⟩
    intro j hj
    exact absurd (Table.get_empty j) hj
  | created jid env stanza membersOnly moderated others ht =>
    obtain ⟨hfree, hheld⟩ := prepare_unreserved sv env jid stanza membersOnly moderated
    obtain ⟨hocc, hidx, -⟩ := Room.prepare_empty (r := Room.new jid false false) rfl sv env stanza
      membersOnly moderated
    have hfounded := fun verdict =>
      (Room.Founded.created jid env stanza membersOnly moderated verdict :
        Room.Founded sv _).housed.1
    unfold handleFirstPresence
    dsimp only
    simp only [Room.handleFirstPresence_eq] at hfounded ⊢
    generalize (Room.new jid false false).prepare sv env stanza membersOnly moderated = r
      at hfree hheld hocc hidx hfounded
    have hr : Orderly { room := r, reservedNicks := none } := by
      refine ⟨⟨?_, nofun, ?_⟩, (Room.housed_new jid false false).of_eq hocc hidx, hheld⟩
      · intro j _ nick hj
        rw [hfree] at hj
        cases hj
      · intro n o j nick _ hj
        rw [hfree] at hj
        cases hj
    generalize hcons : consult cfg env.order { room := r, reservedNicks := none } stanza true
      (r.newOccupant sv env (Jid.bare stanza.sender) stanza.recipient) others = event
    have hcache : Orderly { room := r, reservedNicks := event.1.reservedNicks } := by
      rcases consult_fst cfg env.order { room := r, reservedNicks := none } stanza true
        (r.newOccupant sv env (Jid.bare stanza.sender) stanza.recipient) others with heq | heq
      · rw [← hcons, heq]
        exact hr
      · rw [← hcons, heq]
        exact hr.refresh env.order
    refine hcache.withRoom (hfounded event.2) ?_ fun n o j nick _ hj _ => ?_
    · dsimp only
      split
      · exact ⟨rfl, rfl⟩
      · exact ⟨rfl, rfl⟩
    · dsimp only at hj
      rw [hfree] at hj
      cases hj

theorem Orderly.step (h : s.Orderly) (input : Env × NickOp) (hok : ¬ Doubles sv s input) :
    (s.step sv cfg input).Orderly := by
  obtain ⟨env, op⟩ := input
  cases op with
  | presence stanza others =>
    dsimp only [NickRoom.step]
    split
    · rename_i haddr
      exact h.handlePresenceToOccupant haddr
    · exact h
  | register sender query => exact h.handleRegisterIq sender query
  | change operation => exact h.change operation hok

/-- In every run the three facts hold throughout exactly if no admin reserves a nick for one
user that is reserved for another. -/
theorem nicks_exclusive_iff (h : Opened sv cfg s) (inputs : List (Env × NickOp)) :
    Machine.Always (NickRoom.step sv cfg) Exclusive s inputs ↔
      Machine.Guarded (NickRoom.step sv cfg) (fun s input => ¬ Doubles sv s input) s inputs :=
  Machine.always_iff_guarded (P := Orderly) (fun _ hs => hs.toExclusive)
    (fun _ input hs hok => hs.step input hok) (fun _ _ _ hex hd => hd.not_exclusive hex)
    h.orderly inputs

def openRegistration : RegisterConfig := { allowUnaffiliated := true, enforceNick := false }

def balcony : NickRoom :=
  handleFirstPresence Room.plainServer openRegistration Room.ascending
    (Room.new "garden@verona" false false) (Room.joinAs "juliet@capulet/balcony" "juliet") false
    false .pass

theorem nicks_exclusive_balcony :
    Machine.Always (NickRoom.step Room.plainServer openRegistration) Exclusive balcony
      [(Room.ascending, .register "romeo@montague/orchard" (.form (some (some "bard"))))] :=
  (nicks_exclusive_iff (.created "garden@verona" Room.ascending _ false false .pass rfl) _).mpr
    ⟨id, trivial⟩

/-- Romeo registers a nick, and Juliet reserves it for Benvolio. -/
theorem nick_reserved_twice :
    let s := Machine.run (NickRoom.step Room.plainServer openRegistration) balcony
      [(Room.ascending, .register "romeo@montague/orchard" (.form (some (some "bard")))),
        (Room.ascending, .change
          { op := .adminSet "juliet@capulet/balcony"
              (some ⟨some "benvolio@montague", some "bard", some "member", none⟩)
            plain := trivial })]
    s.room.getRegisteredNick "romeo@montague" = some "bard" ∧
      s.room.getRegisteredNick "benvolio@montague" = some "bard" ∧ ¬ s.Exclusive := by
  have hboth : ∀ s : NickRoom, s.room.getRegisteredNick "romeo@montague" = some "bard" →
      s.room.getRegisteredNick "benvolio@montague" = some "bard" → ¬ s.Exclusive :=
    fun s hr hb hex => absurd (hex.unique _ _ _ hr hb) (by decide)
  intro s
  have hr : s.room.getRegisteredNick "romeo@montague" = some "bard" := by decide +kernel
  have hb : s.room.getRegisteredNick "benvolio@montague" = some "bard" := by decide +kernel
  exact ⟨hr, hb, hboth s hr hb⟩

end NickRoom

end Prosody.Muc
