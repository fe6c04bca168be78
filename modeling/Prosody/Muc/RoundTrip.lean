import Prosody.Library.Separator
import Prosody.Muc.Frame
import Prosody.Muc.Occupancy

/-! # Freezing a room and restoring it

A room comes back as it was if all of it is frozen and restoring takes every entry for what it
is. The new storage format leaves out what was registered with the affiliations. -/

namespace Prosody.Muc

/-! ## Presences as they are stored -/

theorem Presence.filterMucX_set (pr : Presence) (sender recipient : String) :
    Presence.filterMucX { pr.filterMucX with sender := sender, recipient := recipient } =
      { pr.filterMucX with sender := sender, recipient := recipient } := by
  simp [Presence.filterMucX]

namespace Occupant

/-- The presences of the occupant have been stripped of what is meant for the room. -/
def Filtered (o : Occupant) : Prop :=
  ∀ j pr, o.sessions.get j = some pr → pr.filterMucX = pr

variable {o : Occupant}

/-- Saving `o` stores `o'` under its nick. -/
def Stores (o o' : Occupant) : Prop := o.role ≠ none ∧ (∃ j, o.Live j) ∧ o' = o.copy

theorem Filtered.of_sessions {o' : Occupant} (h : o.Filtered)
    (hs : ∀ j pr, o'.sessions.get j = some pr → o.sessions.get j = some pr) : o'.Filtered :=
  fun j pr hj => h j pr (hs j pr hj)

theorem Filtered.copy (h : o.Filtered) : o.copy.Filtered :=
  h.of_sessions fun _ _ hj => (copy_get.mp hj).1

theorem Filtered.setRole (h : o.Filtered) (role : Option Role) :
    Filtered { o with role := role } := h

theorem Filtered.setSession (h : o.Filtered) (ord : KeyOrder String) (j : String)
    (pr : Presence) : (o.setSession ord j pr).Filtered := by
  intro k p hk
  rw [setSession_get] at hk
  split at hk
  · cases hk
    exact pr.filterMucX_set _ _
  · exact h k p hk

theorem Filtered.removeSession (h : o.Filtered) (ord : KeyOrder String) (j : String) :
    (o.removeSession ord j).Filtered := by
  refine h.of_sessions fun k pr hk => ?_
  rw [removeSession_get] at hk
  split at hk
  · cases hk
  · exact hk

end Occupant

namespace Room

/-- The presences of all occupants have been stripped. -/
def Filtered (r : Room) : Prop := ∀ n o, r.occupants.get n = some o → o.Filtered

namespace Filtered

variable {sv : Server} {env : Env} {r r' : Room} {o : Occupant} {stanza : Presence}

theorem of_eq (h : r.Filtered) (ho : r'.occupants = r.occupants) : r'.Filtered := by
  intro n o
  rw [ho]
  exact h n o

theorem saveOccupant (h : r.Filtered) (ord : KeyOrder String) (ho : o.Filtered) :
    (r.saveOccupant ord o).Filtered := by
  intro n o' ho'
  rcases saveOccupant_cases ho' with ⟨-, rfl, -, -⟩ | ⟨-, ho'⟩
  · exact ho.copy
  · exact h n o' ho'

theorem getOccupantByNick (h : r.Filtered) {n : String}
    (ho : r.getOccupantByNick n = some o) : o.Filtered := by
  obtain ⟨o', ho', rfl⟩ := Option.map_eq_some_iff.mp ho
  exact (h n o' ho').copy

theorem getOccupantByRealJid (h : r.Filtered) {j : String}
    (ho : r.getOccupantByRealJid j = some o) : o.Filtered := by
  obtain ⟨n, -, ho'⟩ := Option.bind_eq_some_iff.mp ho
  exact h.getOccupantByNick ho'

theorem updateRoles (h : r.Filtered) (ord : KeyOrder String)
    (newRole : Occupant → Option (Option Role)) : (r.updateRoles ord newRole).Filtered := by
  unfold Room.updateRoles
  refine List.foldlRecOn _ _ h fun r hr n _ => ?_
  unfold Room.updateRole
  split
  · exact hr
  · rename_i o ho
    split
    · exact hr
    · exact hr.saveOccupant ord ((hr.getOccupantByNick ho).setRole _)

theorem setRole (h : r.Filtered) (sv : Server) (env : Env) (actor : Actor) (nick : String)
    (role : Option String) : (r.setRole sv env actor nick role).1.Filtered := by
  unfold Room.setRole
  split
  · exact h
  · rename_i o role' hc
    exact h.saveOccupant env.order ((h.getOccupantByNick (roleChange_ok hc).2.1).setRole role')

theorem setAffiliation (h : r.Filtered) (sv : Server) (env : Env) (actor : Actor) (jid : String)
    (affiliation : Option String) (data : DataArg) :
    (r.setAffiliation sv env actor jid affiliation data).1.Filtered := by
  unfold Room.setAffiliation
  split
  · exact h
  · apply updateRoles
    exact h.of_eq rfl

theorem setMembersOnly (h : r.Filtered) (sv : Server) (env : Env) (membersOnly : Bool) :
    (r.setMembersOnly sv env membersOnly).Filtered := by
  unfold Room.setMembersOnly
  split
  · exact h
  · dsimp only
    split
    · apply updateRoles
      exact h.of_eq rfl
    · exact h.of_eq rfl

theorem reserveNick (h : r.Filtered) (sv : Server) (env : Env) (jid : String)
    (nick : Option String) : (r.reserveNick sv env jid nick).Filtered := by
  cases nick with
  | none => exact h
  | some nick =>
    dsimp only [Room.reserveNick]
    split
    · exact h.setRole sv env .service _ none
    · exact h

theorem handleAdminQuerySet (h : r.Filtered) (sv : Server) (env : Env) (actor : String)
    (item : Option AdminItem) : (r.handleAdminQuerySet sv env actor item).1.Filtered := by
  unfold Room.handleAdminQuerySet
  split
  · exact h
  · exact (h.reserveNick sv env _ _).setAffiliation sv env _ _ _ _
  · exact h.setRole sv env _ _ _

theorem kickOthers (h : r.Filtered) (sv : Server) (env : Env) (userJid nick : String) :
    (r.kickOthers sv env userJid nick).Filtered := by
  unfold Room.kickOthers
  refine List.foldlRecOn _ _ h fun r hr n _ => ?_
  split
  · exact hr.setRole sv env .service n none
  · exact hr

theorem handleKickable (h : r.Filtered) (env : Env) (realJid : String) :
    (r.handleKickable env realJid).Filtered := by
  unfold Room.handleKickable
  split
  · exact h
  · rename_i o ho
    have hs := (h.getOccupantByRealJid ho).setSession env.order realJid
      { type := some "unavailable", sender := "", recipient := "", tags := [⟨"status", none⟩] }
    dsimp only
    split
    · exact h.saveOccupant env.order hs
    · exact h.saveOccupant env.order hs

theorem leaveRoom (h : r.Filtered) (env : Env) (stanza : Presence) (ho : o.Filtered) :
    (r.leaveRoom env stanza o).Filtered := by
  unfold Room.leaveRoom
  dsimp only
  split
  · rw [Occupant.setSession_setRole]
    exact h.saveOccupant env.order (ho.setSession env.order stanza.sender stanza)
  · exact h.saveOccupant env.order (ho.setSession env.order stanza.sender stanza)

theorem leftBehind (ho : o.Filtered) (env : Env) (stanza : Presence) (isFirst : Bool) :
    (leftBehind env stanza o isFirst).Filtered := by
  have hs := ho.setSession env.order stanza.sender (generatedUnavail o.nick stanza.sender)
  unfold Room.leftBehind
  split
  · exact hs
  · exact hs.removeSession env.order stanza.sender

theorem changeNick (h : r.Filtered) (env : Env) (stanza : Presence) {orig dest : Occupant}
    (ho : orig.Filtered) (hd : dest.Filtered) (isFirst : Bool) :
    (r.changeNick env stanza orig dest isFirst).Filtered := by
  rw [changeNick_eq]
  exact (h.saveOccupant env.order (leftBehind ho env stanza isFirst)).saveOccupant env.order
    (hd.setSession env.order stanza.sender stanza)

theorem apply (ho : o.Filtered) (verdict : Verdict) : (verdict.apply o).Filtered := by
  intro j pr hj
  rw [Verdict.apply_sessions] at hj
  exact ho j pr hj

theorem newOccupant (sv : Server) (env : Env) (r : Room) (bareJid : Option String)
    (nick : String) : (r.newOccupant sv env bareJid nick).Filtered := by
  intro j pr hj
  simp [Room.newOccupant, Occupant.new] at hj

theorem destination (h : r.Filtered) {orig : Option Occupant} {dest : Occupant} {isFirst : Bool}
    (hd : r.destination sv env stanza orig = .enter dest isFirst) : dest.Filtered := by
  unfold Room.destination at hd
  split at hd
  · cases hd
  · split at hd
    · cases hd
    · split at hd
      · cases hd
        exact newOccupant sv env r _ _
      · rename_i o ho
        cases hd
        exact h.getOccupantByNick ho

theorem handlePresenceToOccupant (h : r.Filtered) (sv : Server) (env : Env) (stanza : Presence)
    (verdict : Verdict) : (r.handlePresenceToOccupant sv env stanza verdict).Filtered := by
  unfold Room.handlePresenceToOccupant
  split
  · exact h.handleKickable env _
  split
  swap
  · exact h
  unfold Room.handleNormalPresence
  dsimp only
  split
  · exact h
  split
  · -- a newcomer
    rename_i dest isFirst _ hd
    have hdest := apply (h.destination hd) verdict
    split
    · exact h
    · split
      · exact h
      · exact h.saveOccupant env.order (hdest.setSession env.order stanza.sender stanza)
  · rename_i orig dest isFirst ho hd
    split
    · exact h
    · split
      · exact h
      · exact h.changeNick env stanza (h.getOccupantByRealJid ho) (apply (h.destination hd) verdict)
          isFirst
  · rename_i orig ho _
    have horig := apply (h.getOccupantByRealJid ho) verdict
    split
    · exact h
    · split
      · exact h
      · exact h.saveOccupant env.order (horig.setSession env.order stanza.sender stanza)
  · rename_i orig ho _
    split
    · exact h
    · exact h.leaveRoom env stanza (h.getOccupantByRealJid ho)
  · exact h

theorem step (h : r.Filtered) (sv : Server) (env : Env) (op : Op) :
    (r.step sv (env, op)).Filtered := by
  cases op with
  | presence stanza verdict =>
    dsimp only [Room.step]
    split
    · exact h.handlePresenceToOccupant sv env stanza verdict
    · exact h
  | kick realJid => exact h.handleKickable env realJid
  | setRole actor nick role => exact h.setRole sv env actor nick role
  | setAffiliation actor jid affiliation data => exact h.setAffiliation sv env actor jid _ data
  | adminSet actor item => exact h.handleAdminQuerySet sv env actor item
  | setMembersOnly membersOnly => exact h.setMembersOnly sv env membersOnly
  | setModerated moderated => exact h.of_eq rfl
  | clear => exact h.updateRoles env.order _

end Filtered

/-! ## Addresses in the tables -/

variable {sv : Server} {env : Env} {r r' : Room} {target : Jid} {a : Option Affiliation}
  {data : DataArg}

def BareKeys (r : Room) : Prop := ∀ jid a, r.affiliations.get jid = some a → Jid.bare jid = some jid

theorem BareKeys.of_eq (h : r.BareKeys) (ha : r'.affiliations = r.affiliations) : r'.BareKeys := by
  intro jid a
  rw [ha]
  exact h jid a

theorem BareKeys.applyAffiliation (h : r.BareKeys) (ht : target.WellFormed) :
    (r.applyAffiliation env target a data).BareKeys := by
  intro jid a' hj
  rw [(sameConfig_applyAffiliation env r target a data).affiliations] at hj
  change (r.affiliations.set target.bareParts.join a).get jid = some a' at hj
  rw [Table.get_set] at hj
  split at hj
  · rename_i heq
    rw [heq, Jid.bare, Jid.split_join ht.bareParts]
    rfl
  · exact h jid a' hj

theorem BareKeys.setAffiliation (h : r.BareKeys) (actor : Actor) (jid : String)
    (affiliation : Option String) (data : DataArg) :
    (r.setAffiliation sv env actor jid affiliation data).1.BareKeys := by
  unfold Room.setAffiliation
  split
  · exact h
  · rename_i target a hc
    exact h.applyAffiliation (Jid.split_eq_some (affiliationChange_ok hc).2.1).1

theorem BareKeys.step (h : r.BareKeys) (hh : r.Housed) (op : Op) :
    (r.step sv (env, op)).BareKeys := by
  rcases hh.step_cases sv env op with ⟨target, a, data, r', hw, heq⟩ | ⟨-, -, hsame⟩
  · rw [heq]
    exact (h.of_eq hw.sameConfig.affiliations).applyAffiliation hw.wellFormed
  · exact h.of_eq hsame.1

theorem BareKeys.restoreConfig (h : r.BareKeys) (newFormat : Bool) :
    (Room.restoreConfig (r.freeze newFormat)).BareKeys := by
  cases newFormat with
  | false => exact h
  | true =>
    intro jid a ha
    change (r.affiliations.filter fun jid _ => (Jid.split jid).any fun parts =>
      ¬ underscored parts ∧ parts.resource = none).get jid = some a at ha
    rw [Table.get_filter, Option.filter_eq_some_iff] at ha
    exact h jid a ha.1

theorem occupantJid_cases (hroom : Jid.bare r.jid = some r.jid) (nick : String) :
    r.addressed (r.occupantJid nick) ∨ Jid.split (r.occupantJid nick) = none := by
  cases hs : Jid.split (r.occupantJid nick) with
  | none => exact Or.inr rfl
  | some parts =>
    left
    obtain ⟨hwf, hjoin⟩ := Jid.split_eq_some hs
    obtain ⟨room, hr, -⟩ := Jid.split_bare hroom
    obtain ⟨hwfr, -⟩ := Jid.split_eq_some hr
    rw [Jid.bare, hr, Option.map_some] at hroom
    have hslash : '/' ∉ r.jid.toList := by
      have hfree := hwfr.slash_notMem
      rwa [Option.some.inj hroom] at hfree
    have hchars := congrArg String.toList hjoin
    cases hres : parts.resource with
    | none =>
      -- without a resource there would be no slash in it
      have hbare : parts.bareParts = parts := by
        simp only [Jid.bareParts, ← hres]
      have hfree := hwf.slash_notMem
      rw [hbare, hjoin] at hfree
      simp [occupantJid] at hfree
    | some resource =>
      rw [Jid.join_of_resource hres] at hchars
      simp only [occupantJid, String.toList_append, List.append_assoc] at hchars
      obtain ⟨heq, -⟩ := Separator.append_cons_inj_left hwf.slash_notMem hslash hchars
      exact addressed_iff.mpr ⟨parts, hs, by simp [hres], String.toList_injective heq⟩

/-- What a room is like by the time it is frozen. -/
structure Freezable (r : Room) : Prop extends Storable r where
  filtered : r.Filtered
  bareKeys : r.BareKeys

theorem Storable.of_whole (h : r.Storable) (hw : r'.Whole) (hjid : r'.jid = r.jid)
    (hocc : ∀ n o', r'.occupants.get n = some o' →
      (∃ o, r.occupants.get n = some o ∧ o'.bareJid = o.bareJid) ∨
        ((r.addressed n ∨ Jid.split n = none) ∧ ∃ b, o'.bareJid = some b ∧ b ≠ r.jid)) :
    r'.Storable := by
  refine { hw with room := by rw [hjid, h.room], outside := ?_, nicks := ?_ }
  · intro n o' ho'
    rw [hjid]
    rcases hocc n o' ho' with ⟨o, ho, hb⟩ | ⟨-, hout⟩
    · rw [hb]
      exact h.outside n o ho
    · exact hout
  · intro n o' ho'
    have haddr : r'.addressed n = r.addressed n := by simp [Room.addressed, hjid]
    rw [haddr]
    rcases hocc n o' ho' with ⟨o, ho, -⟩ | ⟨ha, -⟩
    · exact h.nicks n o ho
    · exact ha

theorem Freezable.keeps (h : r.Freezable) (hw : r'.Whole) (hjid : r'.jid = r.jid)
    (hk : r.Keeps r') (hf : r'.Filtered) (hb : r'.BareKeys) : r'.Freezable :=
  { h.toStorable.of_whole hw hjid fun n o' ho' => Or.inl (hk n o' ho') with
    filtered := hf
    bareKeys := hb }

theorem Freezable.setAffiliation (h : r.Freezable) (actor : Actor) (jid : String)
    (affiliation : Option String) (data : DataArg) :
    (r.setAffiliation sv env actor jid affiliation data).1.Freezable :=
  h.keeps (h.toWhole.setAffiliation sv env actor jid _ data)
    (setAffiliation_jid sv env r _ jid _ data)
    (h.toWhole.housed.setAffiliation sv env actor jid affiliation data).2
    (h.filtered.setAffiliation sv env actor jid _ data)
    (h.bareKeys.setAffiliation actor jid _ data)

theorem Freezable.kickOthers (h : r.Freezable) (userJid nick : String) :
    (r.kickOthers sv env userJid nick).Freezable := by
  obtain ⟨-, hk, hc⟩ := kickOthers_spec h.toWhole.housed sv env userJid nick
  exact h.keeps (NickRoom.whole_kickOthers h.toWhole userJid nick) hc.jid hk
    (h.filtered.kickOthers sv env userJid nick) (h.bareKeys.of_eq hc.affiliations)

theorem Freezable.step (h : r.Freezable) (sv : Server) (env : Env) {op : Op}
    (hop : ∀ stanza verdict, op ≠ .presence stanza verdict) :
    (r.step sv (env, op)).Freezable :=
  h.keeps (h.toWhole.step sv env hop) (step_jid sv env r op)
    (h.toWhole.housed.keeps_step sv env hop) (h.filtered.step sv env op)
    (h.bareKeys.step h.toWhole.housed op)

/-! ## Restored rooms -/

theorem sameConfig_saveRestored (ord : KeyOrder String) (occupants : Table String Occupant)
    (nicks : List String) (r : Room) :
    r.SameConfig (nicks.foldl (saveRestored ord occupants) r) := by
  refine List.foldlRecOn _ _ (SameConfig.refl r) fun r' h n _ => h.trans ?_
  unfold saveRestored
  split
  · exact SameConfig.refl r'
  · exact sameConfig_saveOccupant ord r' _

theorem saveOccupant_get_self (ord : KeyOrder String) (r : Room) (o : Occupant) {o' : Occupant} :
    (r.saveOccupant ord o).occupants.get o.nick = some o' ↔ o.Stores o' := by
  constructor
  · intro hget
    rcases saveOccupant_cases hget with ⟨-, heq, hr, hlive⟩ | ⟨hne, -⟩
    · exact ⟨hr, hlive, heq⟩
    · exact absurd rfl hne
  · rintro ⟨hr, ⟨j, hj⟩, rfl⟩
    exact saveOccupant_get_live ord r o hr hj

theorem saveRestored_get {ord : KeyOrder String} {occupants : Table String Occupant}
    (hnick : ∀ n o, occupants.get n = some o → o.nick = n) {nicks : List String} {r : Room}
    {n : String} {o : Occupant} :
    (nicks.foldl (saveRestored ord occupants) r).occupants.get n = some o ↔
      (n ∈ nicks ∧ ∃ o', occupants.get n = some o' ∧ o'.Stores o) ∨
      ((n ∈ nicks → occupants.get n = none) ∧ r.occupants.get n = some o) := by
  induction nicks generalizing r with
  | nil => simp
  | cons m nicks ih =>
    rw [List.foldl_cons, ih, List.mem_cons]
    unfold saveRestored
    cases ho : occupants.get m with
    | none =>
      by_cases hn : n = m
      · subst hn
        simp [ho]
      · simp [hn]
    | some o' =>
      by_cases hn : n = m
      · subst hn
        have hself : (r.saveOccupant ord o').occupants.get o'.nick = some o ↔ o'.Stores o :=
          saveOccupant_get_self ord r o'
        rw [hnick n o' ho] at hself
        rw [hself]
        by_cases hmem : n ∈ nicks <;> simp [ho, hmem]
      · have hm := hnick m o' ho
        rw [saveOccupant_get_of_ne ord r o' (by rwa [hm])]
        simp [hn]

/-! ## Rooms that come back as they were -/

/-- No address that is stored starts with an underscore. -/
structure NoUnderscore (r : Room) : Prop where
  affiliations : ∀ jid a, r.affiliations.get jid = some a → jid.toList.head? ≠ some '_'
  sessions : ∀ n o j pr, r.occupants.get n = some o → o.sessions.get j = some pr →
    j.toList.head? ≠ some '_'

/-- The entry of every session is taken for one. -/
def Recognised (r : Room) : Prop := ∀ n o j pr, r.occupants.get n = some o →
  o.sessions.get j = some pr → Loose r.jid j

/-- The entry of every occupant is taken for one. -/
def Named (r : Room) : Prop := ∀ n o, r.occupants.get n = some o → NickKey r.jid n

/-- Nothing of the room is left out in the new storage format. -/
structure FitsNewFormat (r : Room) : Prop where
  data : r.affiliationData = ∅
  hosts : ∀ jid a parts, r.affiliations.get jid = some a → Jid.split jid = some parts →
    underscored parts = false

theorem restore_affiliationData (env : Env) (frozen : Frozen) (state : Option (Table String Saved)) :
    (restore env frozen state).affiliationData = frozen.affiliationData := by
  cases state with
  | none => rfl
  | some state => exact (sameConfig_saveRestored env.order _ _ _).affiliationData

theorem head_of_no_node {jid : String} {parts : Jid} (hs : Jid.split jid = some parts)
    (hn : parts.node = none) : jid.toList.head? = parts.host.toList.head? := by
  obtain ⟨hwf, hjoin⟩ := Jid.split_eq_some hs
  have hhost := hwf.host.toList_ne_nil
  rw [← hjoin, Jid.toList_join, hn, Option.map_none, Option.getD_none, List.nil_append,
    Jid.hostChars, List.head?_append_of_ne_nil _ hhost]

section

variable {ord : KeyOrder String} {n j : String} {o : Occupant} {newFormat : Bool}

theorem Storable.recognised (h : r.Storable) (hu : r.NoUnderscore) : r.Recognised := by
  intro n o j pr ho hj
  obtain ⟨b, hb, hne⟩ := h.outside n o ho
  have hbare := (h.present n o ho).bare j pr hj
  rw [hb] at hbare
  obtain ⟨parts, hs, -⟩ := Jid.split_bare hbare
  refine ⟨parts, hs, ?_, isNickOf_outside h.room hs hbare hne⟩
  rintro ⟨hnode, hscore⟩
  apply hu.sessions n o j pr ho hj
  rw [head_of_no_node hs hnode]
  simpa [underscored] using hscore

theorem Freezable.restored_session (h : r.Freezable) {ord' : KeyOrder String} {pr : Presence}
    (ho : (restoreState ord' r.jid (r.freezeState ord)).get n = some o)
    (hj : o.sessions.get j = some pr) :
    ∃ o', r.occupants.get n = some o' ∧ o'.sessions.get j = some pr := by
  have hres := restoreState_restored (h.toStorable.restorable ord) ord'
  obtain ⟨-, -, -, -, pr', hstate, hsender, heq⟩ := hres.session n o j pr ho hj
  obtain ⟨m, o', ho', hj'⟩ := (h.toStorable.freezeState ord).origin j _ hstate
  have hpresent := h.present m o' ho'
  have hm := hpresent.sender j pr' hj'
  rw [hsender, h.nick m o' ho'] at hm
  subst hm
  have hpr : pr = pr' := by
    rw [heq, h.filtered n o' ho' j pr' hj', ← hsender, ← hpresent.recipient j pr' hj']
  exact ⟨o', ho', by rw [hpr, hj']⟩

theorem Freezable.restored_occupant (h : r.Freezable) (hl : r.Recognised)
    (ord ord' : KeyOrder String) (ho : r.occupants.get n = some o) (hn : NickKey r.jid n) :
    (restoreState ord' r.jid (r.freezeState ord)).get n = some o := by
  have hup := h.toStorable.freezeState ord
  have hres := restoreState_restored (h.toStorable.restorable ord) ord'
  have hmem : n ∈ ord.keys r.occupants.keys := by
    rw [ord.mem_keys, Table.mem_keys]
    exact ⟨o, ho⟩
  have hkey : ∀ k data, (r.freezeState ord).get k = some data →
      k ∈ ord'.keys (r.freezeState ord).keys := by
    intro k data hk
    rw [ord'.mem_keys, Table.mem_keys]
    exact ⟨data, hk⟩
  have hstate := hup.occupant n o hmem ho
  obtain ⟨o', ho', hb, hrole, hjid⟩ := hres.entry n _ _ _ (hkey n _ hstate) hn hstate
  have hsessions : o'.sessions = o.sessions := by
    apply Table.ext
    intro j
    apply Option.ext
    intro pr
    constructor
    · intro hj
      obtain ⟨o₂, ho₂, hj₂⟩ := h.restored_session ho' hj
      rw [ho] at ho₂
      rwa [Option.some.inj ho₂]
    · intro hj
      have hpr := hup.session n o j pr hmem ho hj
      obtain ⟨o₂, ho₂, hsome⟩ :=
        hres.complete j pr (hkey j _ hpr) (hl n o j pr ho hj) hpr
      rw [(h.present n o ho).sender j pr hj, h.nick n o ho, ho'] at ho₂
      obtain rfl := Option.some.inj ho₂
      obtain ⟨pr', hj'⟩ := Option.isSome_iff_exists.mp hsome
      obtain ⟨o₃, ho₃, hj₃⟩ := h.restored_session ho' hj'
      rw [ho] at ho₃
      rw [← Option.some.inj ho₃, hj] at hj₃
      rw [hj', Option.some.inj hj₃]
  have hnick : o'.nick = o.nick := by rw [hres.nick n o' ho', h.nick n o ho]
  rw [ho']
  obtain ⟨b, nick, sessions, role, jid⟩ := o
  obtain ⟨b', nick', sessions', role', jid'⟩ := o'
  simp_all

theorem restore_get (h : r.Freezable) (env : Env) (ord : KeyOrder String) (newFormat : Bool) :
    (restore env (r.freeze newFormat) (some (r.freezeState ord))).occupants.get n = some o ↔
      ∃ o', (restoreState env.order r.jid (r.freezeState ord)).get n = some o' ∧ o'.Stores o := by
  have hres := restoreState_restored (h.toStorable.restorable ord) env.order
  dsimp only [Room.restore]
  have hfrozen : (r.freeze newFormat).jid = r.jid := rfl
  rw [hfrozen, saveRestored_get hres.nick]
  have hmem : ∀ o', (restoreState env.order r.jid (r.freezeState ord)).get n = some o' →
      n ∈ env.order.keys (restoreState env.order r.jid (r.freezeState ord)).keys := by
    intro o' ho'
    rw [env.order.mem_keys, Table.mem_keys]
    exact ⟨o', ho'⟩
  constructor
  · rintro (⟨-, hex⟩ | ⟨-, hempty⟩)
    · exact hex
    · simp [restoreConfig, Room.new] at hempty
  · rintro ⟨o', ho', hs⟩
    exact Or.inl ⟨hmem o' ho', o', ho', hs⟩

theorem Freezable.restore_occupants (h : r.Freezable) (hl : r.Recognised) (hn : r.Named)
    (env : Env) (ord : KeyOrder String) (newFormat : Bool) :
    (restore env (r.freeze newFormat) (some (r.freezeState ord))).occupants = r.occupants := by
  have hres := restoreState_restored (h.toStorable.restorable ord) env.order
  apply Table.ext
  intro n
  apply Option.ext
  intro o
  rw [restore_get h]
  constructor
  · rintro ⟨o', ho', hr, -, rfl⟩
    obtain ⟨o₂, ho₂, -⟩ := (h.toStorable.freezeState ord).origin n _ (hres.fields n o' ho' hr)
    have hback := h.restored_occupant hl ord env.order ho₂ (hn n o₂ ho₂)
    rw [ho'] at hback
    rw [Option.some.inj hback, (h.present n o₂ ho₂).copy_eq, ho₂]
  · intro ho
    have hpresent := h.present n o ho
    obtain ⟨j, -, hlive⟩ := hpresent.primary
    exact ⟨o, h.restored_occupant hl ord env.order ho (hn n o ho), hpresent.role, ⟨j, hlive⟩,
      hpresent.copy_eq.symm⟩

theorem Freezable.restore_affiliations (h : r.Freezable) (env : Env) (ord : KeyOrder String)
    (newFormat : Bool) :
    (restore env (r.freeze newFormat) (some (r.freezeState ord))).affiliations =
        r.affiliations ↔
      (newFormat = true → ∀ jid a parts, r.affiliations.get jid = some a →
        Jid.split jid = some parts → underscored parts = false) := by
  have hkept : (restore env (r.freeze newFormat) (some (r.freezeState ord))).affiliations =
      (restoreConfig (r.freeze newFormat)).affiliations :=
    (sameConfig_saveRestored env.order _ _ _).affiliations
  rw [hkept]
  cases newFormat with
  | false => exact iff_of_true rfl (fun hf => absurd hf Bool.false_ne_true)
  | true =>
    have hfilter : (restoreConfig (r.freeze true)).affiliations =
        r.affiliations.filter fun jid _ =>
          (Jid.split jid).any fun parts => ¬ underscored parts ∧ parts.resource = none := rfl
    rw [hfilter]
    constructor
    · intro heq _ jid a parts ha hs
      rw [← heq, Table.get_filter, Option.filter_eq_some_iff, hs] at ha
      simpa using (by simpa using ha.2 : _ ∧ _).1
    · intro hhosts
      apply Table.ext
      intro jid
      rw [Table.get_filter]
      cases ha : r.affiliations.get jid with
      | none => rfl
      | some a =>
        obtain ⟨parts, hs, hb⟩ := Jid.split_bare (h.bareKeys jid a ha)
        rw [hs] at hb
        have hres : parts.resource = none := by rw [Option.some.inj hb, Jid.bareParts]
        simp [hs, hhosts rfl jid a parts ha hs, hres]

/-- A room comes back as it was exactly if its occupants are recognised by their nicks, their
sessions are recognised and, in the new format, nothing is left out. -/
theorem Freezable.restore_eq_iff (h : r.Freezable) (env : Env) (ord : KeyOrder String)
    (newFormat : Bool) :
    restore env (r.freeze newFormat) (some (r.freezeState ord)) = r ↔
      r.Named ∧ r.Recognised ∧ (newFormat = true → r.FitsNewFormat) := by
  have hconfig : (restoreConfig (r.freeze newFormat)).SameConfig
      (restore env (r.freeze newFormat) (some (r.freezeState ord))) :=
    sameConfig_saveRestored env.order _ _ _
  have hdata : (restore env (r.freeze newFormat) (some (r.freezeState ord))).affiliationData =
      if newFormat then ∅ else r.affiliationData := restore_affiliationData env _ _
  constructor
  · intro heq
    have hres := restoreState_restored (h.toStorable.restorable ord) env.order
    refine ⟨?_, ?_, ?_⟩
    · intro n o ho
      rw [← heq] at ho
      obtain ⟨o', ho', hr, -⟩ := (restore_get h env ord newFormat).mp ho
      exact hres.named n o' ho' hr
    · intro n o j pr ho hj
      rw [← heq] at ho
      obtain ⟨o', ho', -, -, rfl⟩ := (restore_get h env ord newFormat).mp ho
      exact (hres.session n o' j pr ho' (Occupant.copy_get.mp hj).1).1
    · rintro rfl
      refine ⟨?_, (h.restore_affiliations env ord true).mp (congrArg Room.affiliations heq) rfl⟩
      rw [heq] at hdata
      simpa using hdata
  · rintro ⟨hn, hl, hfits⟩
    have hocc := h.restore_occupants hl hn env ord newFormat
    have hwhole := (h.toStorable.restore rfl env ord newFormat).whole
    have haff := (h.restore_affiliations env ord newFormat).mpr fun hnew => (hfits hnew).hosts
    have hindex : (restore env (r.freeze newFormat) (some (r.freezeState ord))).jidNick =
        r.jidNick := by
      apply Table.ext
      intro j
      apply Option.ext
      intro n
      rw [hwhole.index, h.index, hocc]
    have hdata' : (restore env (r.freeze newFormat) (some (r.freezeState ord))).affiliationData =
        r.affiliationData := by
      rw [hdata]
      split
      · rename_i hnew
        exact (hfits hnew).data.symm
      · rfl
    have hjid : _ = r.jid := hconfig.jid
    have hmembers : _ = r.membersOnly := hconfig.membersOnly
    have hmoderated : _ = r.moderated := hconfig.moderated
    generalize restore env (r.freeze newFormat) (some (r.freezeState ord)) = r'
      at hocc haff hindex hdata' hjid hmembers hmoderated
    obtain ⟨_, _, _, _, _, _, _⟩ := r
    obtain ⟨_, _, _, _, _, _, _⟩ := r'
    simp_all

theorem Freezable.restored (h : r.Freezable) (h' : r'.Freezable) (hjid : r.jid = r'.jid)
    (env : Env) (ord : KeyOrder String) (newFormat : Bool) :
    (restore env (r.freeze newFormat) (some (r'.freezeState ord))).Freezable := by
  have hres := restoreState_restored (h'.toStorable.restorable ord) env.order
  have hconfig : (restoreConfig (r.freeze newFormat)).SameConfig
      (restore env (r.freeze newFormat) (some (r'.freezeState ord))) :=
    sameConfig_saveRestored env.order _ _ _
  refine { (h'.toStorable.restore hjid env ord newFormat).storable with
    filtered := ?_
    bareKeys := (h.bareKeys.restoreConfig newFormat).of_eq hconfig.affiliations }
  intro n o ho
  dsimp only [Room.restore] at ho
  have hfrozen : (r.freeze newFormat).jid = r'.jid := hjid
  rw [hfrozen, saveRestored_get hres.nick] at ho
  rcases ho with ⟨-, o', ho', -, -, rfl⟩ | ⟨-, hempty⟩
  · refine Occupant.Filtered.copy fun j pr hj => ?_
    obtain ⟨-, -, -, -, pr', -, -, heq⟩ := hres.session n o' j pr ho' hj
    rw [heq]
    exact pr'.filterMucX_set _ _
  · simp [Room.restoreConfig, Room.new] at hempty

/-- Without a live state a room comes back empty. -/
theorem Freezable.restoredConfig (h : r.Freezable) (env : Env) (newFormat : Bool) :
    (restore env (r.freeze newFormat) none).Freezable := by
  have hnew := (consistent_new h.room r.membersOnly r.moderated).storable
  exact
    { hnew.of_whole (hnew.toWhole.of_eq rfl rfl) rfl fun n o ho => Or.inl ⟨o, ho, rfl⟩ with
      filtered := by simp [Filtered, restore, restoreConfig, Room.new]
      bareKeys := h.bareKeys.restoreConfig newFormat }

end

end Room

/-! ## Rooms as they come about -/

namespace NickRoom

variable {sv : Server} {cfg : RegisterConfig} {env : Env} {s : NickRoom} {stanza : Presence}
  {others : Others}

/-- What is promised of a presence: it comes from outside the room. -/
def Routed (roomJid : String) : Env × NickOp → Prop
  | (_, .presence stanza _) => ∃ b, Jid.bare stanza.sender = some b ∧ b ≠ roomJid
  | _ => True

/-- A newcomer is put under the registered nick together with another client of the same user,
which stays under the nick that was asked for. -/
def Splits (sv : Server) (cfg : RegisterConfig) (s : NickRoom) : Env × NickOp → Prop
  | (env, .presence stanza others) =>
    s.room.addressed stanza.recipient ∧ s.room.occupants.get stanza.recipient ≠ none ∧
      ∃ nick, Displaces sv cfg env.order s stanza others nick
  | _ => False

theorem whole_of_not_splits (h : s.room.Whole) (input : Env × NickOp)
    (hs : ¬ Splits sv cfg s input) : (s.step sv cfg input).room.Whole := by
  by_cases hd : DisplacesStep sv cfg s input
  · obtain ⟨env, op⟩ := input
    cases op with
    | presence stanza others =>
      obtain ⟨haddr, nick, hdisplaces⟩ := hd
      have hfree : s.room.occupants.get stanza.recipient = none := by
        by_contra hne
        exact hs ⟨haddr, hne, nick, hdisplaces⟩
      have hj := hdisplaces.joins
      dsimp only [NickRoom.step]
      rw [if_pos haddr, room_handlePresenceToOccupant]
      unfold Room.handlePresenceToOccupant
      rw [if_neg (by simp [hj.type]), if_pos (Or.inl hj.type)]
      exact hj.whole h hfree env _
    | register sender query => exact hd.elim
    | change operation => exact hd.elim
  · exact whole_step h input hd

/-- Newcomers end up under the nick that they asked for or under a nick of the room. -/
theorem consult_nick (cfg : RegisterConfig) (ord : KeyOrder String) (others : Others)
    (haddr : s.room.addressed stanza.recipient) (dest : Occupant)
    (hdest : dest.nick = stanza.recipient) :
    (s.consult cfg ord stanza true dest others).2.nick stanza.recipient = stanza.recipient ∨
      ∃ nick, (s.consult cfg ord stanza true dest others).2.nick stanza.recipient =
        s.room.occupantJid nick := by
  cases others with
  | before => exact Or.inl rfl
  | after => exact Or.inl rfl
  | pass =>
    dsimp only [consult]
    rcases enforceNickPolicy_join cfg ord haddr hdest with
      ⟨-, heq⟩ | ⟨-, ⟨heq, -⟩ | ⟨nick, -, -, heq⟩⟩
    · rw [heq]
      exact Or.inl rfl
    · rw [heq]
      exact Or.inl rfl
    · rw [heq]
      exact Or.inr ⟨nick, rfl⟩

theorem fireEvent_nick (h : s.room.Housed) (sv : Server) (cfg : RegisterConfig) (env : Env)
    (others : Others) (haddr : s.room.addressed stanza.recipient) :
    (s.fireEvent sv cfg env stanza others).2.nick stanza.recipient = stanza.recipient ∨
      ∃ nick, (s.fireEvent sv cfg env stanza others).2.nick stanza.recipient =
        s.room.occupantJid nick := by
  cases ho : s.room.getOccupantByRealJid stanza.sender with
  | some orig => exact Or.inl (fireEvent_change ho _)
  | none =>
    unfold fireEvent
    dsimp only
    rw [ho]
    cases hd : s.room.destination sv env stanza none with
    | leave =>
      left
      change Room.Verdict.nick (if others = .pass then .pass else .handled) _ = _
      split <;> rfl
    | update =>
      left
      change Room.Verdict.nick (if others = .pass then .pass else .handled) _ = _
      split <;> rfl
    | enter dest isFirst =>
      exact consult_nick cfg env.order others haddr dest (h.destination_enter hd).2.1

theorem nick_cases (h : s.room.Storable) {n : String}
    (hn : n = stanza.recipient ∨ ∃ nick, n = s.room.occupantJid nick)
    (haddr : s.room.addressed stanza.recipient) :
    s.room.addressed n ∨ Jid.split n = none := by
  rcases hn with rfl | ⟨nick, rfl⟩
  · exact Or.inl haddr
  · exact Room.occupantJid_cases h.room nick

theorem freezable_step (h : s.room.Freezable) {input : Env × NickOp}
    (hr : Routed s.room.jid input) (hs : ¬ Splits sv cfg s input) :
    (s.step sv cfg input).room.Freezable := by
  have hw := whole_of_not_splits h.toWhole input hs
  obtain ⟨env, op⟩ := input
  cases op with
  | presence stanza others =>
    dsimp only [NickRoom.step] at hw ⊢
    split at hw
    · rename_i haddr
      rw [if_pos haddr, room_handlePresenceToOccupant]
      rw [room_handlePresenceToOccupant] at hw
      have hnick := fireEvent_nick h.toWhole.housed sv cfg env others haddr
      generalize (s.fireEvent sv cfg env stanza others).2 = verdict at hw hnick
      have hconfig := Room.sameConfig_handlePresenceToOccupant sv env s.room stanza verdict
      refine { h.toStorable.of_whole hw hconfig.jid fun n o' ho' => ?_ with
        filtered := h.filtered.handlePresenceToOccupant sv env stanza verdict
        bareKeys := h.bareKeys.of_eq hconfig.affiliations }
      unfold Room.handlePresenceToOccupant at ho'
      split at ho'
      · exact Or.inl ((h.toWhole.housed.handleKickable env _).2 n o' ho')
      · split at ho'
        · rcases (h.toWhole.housed.handleNormalPresence sv env stanza verdict).2 n o' ho' with
            hold | ⟨hadmits, hb⟩
          · exact Or.inl hold
          · obtain ⟨b, hbare, hne⟩ := hr
            rw [← hadmits.1] at hnick
            exact Or.inr ⟨nick_cases h.toStorable hnick haddr, b, hb.trans hbare, hne⟩
        · exact Or.inl ⟨o', ho', rfl⟩
    · rename_i haddr
      rw [if_neg haddr]
      exact h
  | register sender query =>
    exact handleRegisterIq_room sender query (fun r userJid nick hr => hr.kickOthers userJid nick)
      (fun r actor jid affiliation data hr => hr.setAffiliation actor jid affiliation data) h
  | change operation =>
    refine h.step sv env fun stanza verdict heq => ?_
    have hplain := operation.plain
    rw [heq] at hplain
    exact hplain

theorem freezable_new {jid : String} (h : Jid.bare jid = some jid) (membersOnly moderated : Bool) :
    (Room.new jid membersOnly moderated).Freezable :=
  { (Room.consistent_new h membersOnly moderated).storable with
    filtered := by simp [Room.Filtered, Room.new]
    bareKeys := by simp [Room.BareKeys, Room.new] }

theorem freezable_prepare {r : Room} (h : r.Freezable) (sv : Server) (env : Env) (stanza : Presence)
    (membersOnly moderated : Bool) :
    (r.prepare sv env stanza membersOnly moderated).Freezable := by
  have hmembers : (r.step sv (env, .setMembersOnly membersOnly)).Freezable := h.step sv env nofun
  have hset : ((r.step sv (env, .setMembersOnly membersOnly)).step sv
      (env, .setModerated moderated)).Freezable := hmembers.step sv env nofun
  unfold Room.prepare
  dsimp only
  split
  · exact hset
  · exact hset.setAffiliation .service _ _ .keep

theorem freezable_created {r : Room} (h : r.Freezable) (hempty : r.occupants = ∅)
    (cfg : RegisterConfig) (env : Env) (membersOnly moderated : Bool) (others : Others)
    (haddr : r.addressed stanza.recipient)
    (hout : ∃ b, Jid.bare stanza.sender = some b ∧ b ≠ r.jid) (ht : stanza.type = none) :
    (handleFirstPresence sv cfg env r stanza membersOnly moderated others).room.Freezable := by
  have hprepared := freezable_prepare h sv env stanza membersOnly moderated
  have hjid := (Room.prepare_empty hempty sv env stanza membersOnly moderated).2.2
  have haddr' : (r.prepare sv env stanza membersOnly moderated).addressed stanza.recipient := by
    simpa [Room.addressed, hjid] using haddr
  have hnick := consult_nick (s := ⟨r.prepare sv env stanza membersOnly moderated, none⟩) cfg
    env.order others haddr' ((r.prepare sv env stanza membersOnly moderated).newOccupant sv env
      (Jid.bare stanza.sender) stanza.recipient) rfl
  unfold handleFirstPresence
  dsimp only
  generalize (consult cfg env.order
    ⟨r.prepare sv env stanza membersOnly moderated, none⟩ stanza true _ others).2 = verdict at hnick ⊢
  obtain ⟨⟨hw, hsame⟩, hocc⟩ := h.toWhole.handleFirstPresence sv env verdict membersOnly moderated
    hempty ht
  refine { h.toStorable.of_whole hw hsame fun n o ho => ?_ with filtered := ?_, bareKeys := ?_ }
  · obtain ⟨rfl, hb⟩ := hocc n o ho
    obtain ⟨b, hbare, hne⟩ := hout
    have hcases := nick_cases (s := ⟨r.prepare sv env stanza membersOnly moderated, none⟩)
      hprepared.toStorable hnick haddr'
    rw [show (r.prepare sv env stanza membersOnly moderated).addressed
      (verdict.nick stanza.recipient) = r.addressed (verdict.nick stanza.recipient) by
        simp [Room.addressed, hjid]] at hcases
    exact Or.inr ⟨hcases, b, hb.trans hbare, hne⟩
  · rw [Room.handleFirstPresence_eq]
    dsimp only
    split
    · exact hprepared.filtered
    · refine hprepared.filtered.saveOccupant env.order (Occupant.Filtered.setSession ?_ _ _ _)
      exact Room.Filtered.apply (Room.Filtered.newOccupant sv env _ _ _) verdict
  · rw [Room.handleFirstPresence_eq]
    dsimp only
    split
    · exact hprepared.bareKeys
    · exact hprepared.bareKeys.of_eq rfl

/-- Rooms that are created, restored and changed, as long as no occupant is split. -/
inductive Reached (sv : Server) (cfg : RegisterConfig) : NickRoom → Prop where
  | new {jid : String} (membersOnly moderated : Bool) (h : Jid.bare jid = some jid) :
      Reached sv cfg { room := Room.new jid membersOnly moderated, reservedNicks := none }
  | created {jid : String} (env : Env) {stanza : Presence} (membersOnly moderated : Bool)
      (others : Others) (h : Jid.bare jid = some jid)
      (haddr : (Room.new jid false false).addressed stanza.recipient)
      (hout : ∃ b, Jid.bare stanza.sender = some b ∧ b ≠ jid) (ht : stanza.type = none) :
      Reached sv cfg (handleFirstPresence sv cfg env (Room.new jid false false) stanza membersOnly
        moderated others)
  | restored {s s' : NickRoom} (env : Env) (ord : KeyOrder String) (newFormat : Bool)
      (h : Reached sv cfg s) (h' : Reached sv cfg s') (hjid : s.room.jid = s'.room.jid) :
      Reached sv cfg
        { room := Room.restore env (s.room.freeze newFormat) (some (s'.room.freezeState ord))
          reservedNicks := none }
  | restoredConfig {s : NickRoom} (env : Env) (newFormat : Bool) (h : Reached sv cfg s) :
      Reached sv cfg
        { room := Room.restore env (s.room.freeze newFormat) none, reservedNicks := none }
  | setAffiliation {s : NickRoom} (env : Env) (actor : Actor) (jid : String)
      (affiliation : Option String) (data : DataArg) (h : Reached sv cfg s) :
      Reached sv cfg (s.setAffiliation sv env actor jid affiliation data).1
  | step {s : NickRoom} {input : Env × NickOp} (h : Reached sv cfg s)
      (hr : Routed s.room.jid input) (hs : ¬ Splits sv cfg s input) :
      Reached sv cfg (s.step sv cfg input)

theorem room_setAffiliation (env : Env) (s : NickRoom) (actor : Actor) (jid : String)
    (affiliation : Option String) (data : DataArg) :
    (s.setAffiliation sv env actor jid affiliation data).1.room =
      (s.room.setAffiliation sv env actor jid affiliation data).1 := by
  unfold NickRoom.setAffiliation
  split <;> rename_i heq <;> rw [heq]

theorem Reached.freezable (h : Reached sv cfg s) : s.room.Freezable := by
  induction h with
  | new membersOnly moderated h => exact freezable_new h membersOnly moderated
  | created env membersOnly moderated others h haddr hout ht =>
    exact freezable_created (freezable_new h false false) rfl cfg env membersOnly moderated others
      haddr hout ht
  | restored env ord newFormat _ _ hjid ih ih' => exact ih.restored ih' hjid env ord newFormat
  | restoredConfig env newFormat _ ih => exact ih.restoredConfig env newFormat
  | setAffiliation env actor jid affiliation data _ ih =>
    rw [room_setAffiliation]
    exact ih.setAffiliation actor jid affiliation data
  | step _ hr hs ih => exact freezable_step ih hr hs

/-- A room is restored as it was exactly if its occupants are recognised by their nicks and, in
the new storage format, nothing is left out. -/
theorem restored_iff (h : Reached sv cfg s) (hu : s.room.NoUnderscore) (env : Env)
    (ord : KeyOrder String) (newFormat : Bool) :
    Room.restore env (s.room.freeze newFormat) (some (s.room.freezeState ord)) = s.room ↔
      s.room.Named ∧ (newFormat = true → s.room.FitsNewFormat) := by
  rw [h.freezable.restore_eq_iff env ord newFormat]
  exact and_congr_right fun _ =>
    and_iff_right (h.freezable.toStorable.recognised hu)

theorem orchard_reached : Reached Room.plainServer enforcedRegistration orchard := by
  have hnew : Reached Room.plainServer enforcedRegistration
      { room := Room.new "garden@verona" false false, reservedNicks := none } :=
    .new false false (by decide)
  have hregistered : Reached Room.plainServer enforcedRegistration (NickRoom.step Room.plainServer
      enforcedRegistration { room := Room.new "garden@verona" false false, reservedNicks := none }
      (Room.ascending, .register "romeo@montague/orchard" (.form (some (some "bard"))))) :=
    hnew.step trivial id
  rw [orchard, Machine.run_cons, Machine.run_cons, Machine.run_nil]
  refine hregistered.step ?_ ?_
  · exact ⟨"romeo@montague", by decide, by decide +kernel⟩
  · rintro ⟨-, htaken, -⟩
    exact htaken (by decide +kernel)

theorem orchard_noUnderscore : orchard.room.NoUnderscore := by
  have hkeys : ∀ jid ∈ orchard.room.affiliations.keys, jid.toList.head? ≠ some '_' := by
    decide +kernel
  have hsessions : ∀ n ∈ orchard.room.occupants.keys, (orchard.room.occupants.get n).all fun o =>
      ∀ j ∈ o.sessions.keys, j.toList.head? ≠ some '_' := by
    decide +kernel
  constructor
  · intro jid a ha
    exact hkeys jid ((Table.mem_keys _ _).mpr ⟨a, ha⟩)
  · intro n o j pr ho hj
    have hall := hsessions n ((Table.mem_keys _ _).mpr ⟨o, ho⟩)
    rw [ho] at hall
    exact of_decide_eq_true hall j ((Table.mem_keys _ _).mpr ⟨pr, hj⟩)

theorem orchard_named : orchard.room.Named := by
  have hkeys : ∀ n ∈ orchard.room.occupants.keys, (Jid.split n).any fun parts =>
      ¬ (parts.node = none ∧ Room.underscored parts = true) ∧
        Room.isNickOf orchard.room.jid parts = true := by
    decide +kernel
  intro n o ho
  obtain ⟨parts, hsplit, hnick⟩ :=
    (Option.any_eq_true _ _).mp (hkeys n ((Table.mem_keys _ _).mpr ⟨o, ho⟩))
  exact ⟨parts, hsplit, of_decide_eq_true hnick⟩

theorem restored_orchard : Room.restore Room.ascending (orchard.room.freeze false)
    (some (orchard.room.freezeState Room.ascending.order)) = orchard.room :=
  (restored_iff orchard_reached orchard_noUnderscore Room.ascending Room.ascending.order false).mpr
    ⟨orchard_named, nofun⟩

/-- The nick that Romeo has registered is gone after a restart with the new storage format. -/
theorem registered_nick_lost :
    Reached Room.plainServer enforcedRegistration orchard ∧ orchard.room.NoUnderscore ∧
      orchard.room.getRegisteredNick "romeo@montague" = some "bard" ∧
      (Room.restore Room.ascending (orchard.room.freeze true)
        (some (orchard.room.freezeState Room.ascending.order))).getRegisteredNick
          "romeo@montague" = none := by
  refine ⟨orchard_reached, orchard_noUnderscore, by decide +kernel, ?_⟩
  rw [Room.getRegisteredNick, Room.restore_affiliationData]
  rfl

end NickRoom

end Prosody.Muc
