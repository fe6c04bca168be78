import Prosody.Muc.Housing

/-! # Clients that enter, move and leave

The presence handlers of a room keep its tables in step, and a presence moves nobody but its
sender, as long as no handler of the room's events puts a newcomer where somebody else is. -/

namespace Prosody.Muc

namespace Room

/-- Every client but `realJid` is where it was. -/
def Undisturbed (r : Room) (realJid : String) (r' : Room) : Prop :=
  ∀ j, j ≠ realJid → r'.jidNick.get j = r.jidNick.get j

theorem Undisturbed.refl (r : Room) (realJid : String) : r.Undisturbed realJid r := fun _ _ => rfl

theorem Undisturbed.trans {r₁ r₂ r₃ : Room} {realJid : String} (h : r₁.Undisturbed realJid r₂)
    (h' : r₂.Undisturbed realJid r₃) : r₁.Undisturbed realJid r₃ :=
  fun j hj => (h' j hj).trans (h j hj)

variable {r r' : Room} {o : Occupant} {realJid : String}

/-! ## Sessions that are set and saved -/

/-- What `set_session` needs of the occupant that a client is put into. -/
structure Enterable (r : Room) (realJid : String) (o : Occupant) : Prop extends o.Sound where
  primary : o.PrimaryLive ∨ o.jid = none
  session : Jid.bare realJid = o.bareJid
  index : ∀ j, o.Live j ↔ r.jidNick.get j = some o.nick
  role : ∀ j, o.Live j → o.role ≠ none

theorem Whole.enterable (h : r.Whole) (ho : r.occupants.get o.nick = some o)
    (hb : Jid.bare realJid = o.bareJid) : r.Enterable realJid o :=
  { (h.present _ o ho).toSound with
    primary := Or.inl (h.present _ o ho).primary
    session := hb
    index := by
      intro j
      rw [h.index j o.nick]
      constructor
      · exact fun hl => ⟨o, ho, hl⟩
      · rintro ⟨o', ho', hl⟩
        rw [ho] at ho'
        rwa [Option.some.inj ho']
    role := fun _ _ => (h.present _ o ho).role }

theorem Whole.enterable_new (h : r.Whole) (sv : Server) (env : Env) {nick nick' : String}
    (hfree : r.occupants.get nick' = none) :
    r.Enterable realJid { r.newOccupant sv env (Jid.bare realJid) nick with nick := nick' } := by
  have hempty : ∀ j, ¬ Occupant.Live
      { r.newOccupant sv env (Jid.bare realJid) nick with nick := nick' } j := by
    rintro j ⟨pr, hpr, -⟩
    simp [Room.newOccupant, Occupant.new] at hpr
  refine { Occupant.sound_new _ nick' _ with
    primary := Or.inr rfl
    session := rfl
    index := ?_
    role := fun j hl => absurd hl (hempty j) }
  intro j
  refine iff_of_false (hempty j) fun hn => ?_
  obtain ⟨o, ho, -⟩ := (h.index j nick').mp hn
  rw [hfree] at ho
  cases ho

variable {pr : Presence}

theorem Whole.saveSession (h : r.Whole) (ord : KeyOrder String)
    (he : r.Enterable realJid o) (ht : pr.type = none ∨ pr.type = some "unavailable")
    (hfree : ∀ n, r.jidNick.get realJid = some n → n = o.nick) (role : Option Role)
    (hrole : role = none → ∀ j, j ≠ realJid → ¬ o.Live j) :
    (r.saveOccupant ord { o.setSession ord realJid pr with role := role }).Whole ∧
      r.Undisturbed realJid
        (r.saveOccupant ord { o.setSession ord realJid pr with role := role }) := by
  have hs := he.toSound.setSession_savable ord he.primary he.session ht
  constructor
  · refine h.saveOccupant ord (fun _ => hs.setRole role) fun _ j n hl hn => ?_
    have hl' := (Occupant.setSession_live ord).mp hl
    by_cases hj : j = realJid
    · subst hj
      simpa using hfree n hn
    · rw [if_neg hj] at hl'
      simpa [hn] using (he.index j).mp hl'
  · intro j hj
    refine h.saveOccupant_jidNick ord ?_
    have hl : Occupant.Live { o.setSession ord realJid pr with role := role } j ↔ o.Live j := by
      change (o.setSession ord realJid pr).Live j ↔ o.Live j
      rw [Occupant.setSession_live, if_neg hj]
    rw [hl]
    change role ≠ none ∧ o.Live j ↔ r.jidNick.get j = some (o.setSession ord realJid pr).nick
    rw [Occupant.setSession_nick, ← he.index j]
    exact ⟨fun hlive => hlive.2, fun hlive => ⟨fun hn => hrole hn j hj hlive, hlive⟩⟩

theorem Whole.keepSession (h : r.Whole) (ord : KeyOrder String)
    (he : r.Enterable realJid o) (ht : pr.type = none ∨ pr.type = some "unavailable")
    (hfree : ∀ n, r.jidNick.get realJid = some n → n = o.nick) :
    (r.saveOccupant ord (o.setSession ord realJid pr)).Whole ∧
      r.Undisturbed realJid (r.saveOccupant ord (o.setSession ord realJid pr)) := by
  refine h.saveSession ord he ht hfree (o.setSession ord realJid pr).role fun hn j _ hl => ?_
  rw [Occupant.setSession_role] at hn
  exact he.role j hl hn

theorem Whole.session (h : r.Whole) (ho : r.getOccupantByRealJid realJid = some o) :
    r.Enterable realJid o ∧ ∀ n, r.jidNick.get realJid = some n → n = o.nick := by
  obtain ⟨hget, hl⟩ := h.getOccupantByRealJid.mp ho
  constructor
  · obtain ⟨pr, hpr, -⟩ := hl
    exact h.enterable hget ((h.present _ o hget).bare _ pr hpr)
  · intro n hn
    have hindex := (h.index realJid o.nick).mpr ⟨o, hget, hl⟩
    simpa [hn] using hindex

theorem Enterable.last_of_primary (he : r.Enterable realJid o) (ord : KeyOrder String)
    (ht : pr.type = some "unavailable")
    (hp : (o.setSession ord realJid pr).jid = some realJid) {j : String} (hj : j ≠ realJid) :
    ¬ o.Live j := by
  intro hl
  have hl' : (o.setSession ord realJid pr).Live j := by
    rw [Occupant.setSession_live, if_neg hj]
    exact hl
  obtain ⟨p, hp', hlive⟩ := Occupant.setSession_primary ord (Or.inr ht) he.primary hl'
  rw [hp] at hp'
  obtain rfl := Option.some.inj hp'
  rw [Occupant.setSession_live, if_pos rfl, ht] at hlive
  cases hlive

theorem Whole.handleKickable (h : r.Whole) (env : Env) (realJid : String) :
    (r.handleKickable env realJid).Whole ∧
      r.Undisturbed realJid (r.handleKickable env realJid) := by
  unfold Room.handleKickable
  cases ho : r.getOccupantByRealJid realJid with
  | none => exact ⟨h, Undisturbed.refl r realJid⟩
  | some o =>
    obtain ⟨he, hfree⟩ := h.session ho
    dsimp only
    split
    · rename_i hlast
      exact h.saveSession env.order he (Or.inr rfl) hfree none fun _ j hj =>
        he.last_of_primary env.order rfl hlast hj
    · exact h.keepSession env.order he (Or.inr rfl) hfree

theorem live_unique {j k : String} (hcard : o.sessions.keys.card ≤ 1) (hj : o.Live j)
    (hk : o.Live k) : j = k := by
  obtain ⟨pr, hpr, -⟩ := hj
  obtain ⟨pr', hpr', -⟩ := hk
  exact Finset.card_le_one.mp hcard j ((Table.mem_keys _ _).mpr ⟨pr, hpr⟩) k
    ((Table.mem_keys _ _).mpr ⟨pr', hpr'⟩)

variable {stanza : Presence}

theorem Whole.leaveRoom (h : r.Whole) (env : Env)
    (ho : r.getOccupantByRealJid stanza.sender = some o) (ht : stanza.type = some "unavailable") :
    (r.leaveRoom env stanza o).Whole ∧ r.Undisturbed stanza.sender (r.leaveRoom env stanza o) := by
  obtain ⟨he, hfree⟩ := h.session ho
  obtain ⟨-, hl⟩ := h.getOccupantByRealJid.mp ho
  unfold Room.leaveRoom
  dsimp only
  split
  · rename_i hlast
    rw [Occupant.setSession_setRole]
    exact h.saveSession env.order he (Or.inr ht) hfree none fun _ j hj hlive =>
      hj (live_unique hlast hlive hl)
  · exact h.keepSession env.order he (Or.inr ht) hfree

/-- A client that is not in the room, or in the room under another nick that it has just left,
enters a new or an existing occupant. -/
theorem Whole.enter (h : r.Whole) (env : Env)
    (he : r.Enterable stanza.sender o) (ht : stanza.type = none)
    (hnone : r.jidNick.get stanza.sender = none) :
    (r.saveOccupant env.order (o.setSession env.order stanza.sender stanza)).Whole ∧
      r.Undisturbed stanza.sender
        (r.saveOccupant env.order (o.setSession env.order stanza.sender stanza)) := by
  refine h.keepSession env.order he (Or.inl ht) fun n hn => ?_
  rw [hnone] at hn
  cases hn

theorem Whole.existing_enterable (h : r.Whole) {n : String}
    (ho : r.occupants.get n = some o) (hc : nickConflict stanza o false = false) :
    r.Enterable stanza.sender o := by
  have hn := h.nick _ o ho
  have hb : (Verdict.pass.apply o).bareJid = Jid.bare stanza.sender :=
    h.housed.bare_of_noConflict (by simp) (fun _ => ho) hc
  rw [← hn] at ho
  exact h.enterable ho hb.symm

variable {orig : Occupant}

theorem Whole.saveOccupant_left (h : r.Whole) {ord : KeyOrder String} {left : Occupant}
    (ho : r.getOccupantByRealJid realJid = some orig) (hn : left.nick = orig.nick)
    (hl : ¬ left.Live realJid) (hr : (r.saveOccupant ord left).Whole) :
    (r.saveOccupant ord left).jidNick.get realJid = none := by
  have hold := h.getOccupantByRealJid.mp ho
  have hindex := (h.index realJid orig.nick).mpr ⟨orig, hold⟩
  cases hj : (r.saveOccupant ord left).jidNick.get realJid with
  | none => rfl
  | some n =>
    exfalso
    obtain ⟨o, hget, hlive⟩ := (hr.index realJid n).mp hj
    rcases saveOccupant_cases hget with ⟨-, rfl, -, -⟩ | ⟨hne, hget⟩
    · -- what is stored under the old nick is the copy that was saved
      exact hl (Occupant.copy_live.mp hlive)
    · have hother := (h.index realJid n).mpr ⟨o, hget, hlive⟩
      rw [hindex] at hother
      exact hne ((Option.some.inj hother).symm.trans hn.symm)

theorem Enterable.saveOccupant (h : r.Whole) {ord : KeyOrder String} {other : Occupant}
    (he : r.Enterable realJid o) (hne : o.nick ≠ other.nick)
    (hr : (r.saveOccupant ord other).Whole) :
    (r.saveOccupant ord other).Enterable realJid o := by
  refine { he.toSound with
    primary := he.primary
    session := he.session
    index := ?_
    role := he.role }
  intro j
  rw [he.index j, h.index j o.nick, hr.index j o.nick, saveOccupant_get_of_ne ord r other hne]

/-- The occupant that a client leaves for another nick, without the client. -/
def leftBehind (env : Env) (stanza : Presence) (orig : Occupant) (isFirst : Bool) : Occupant :=
  if isFirst ∧ orig.sessions.keys.card ≤ 1 then
    orig.setSession env.order stanza.sender (generatedUnavail orig.nick stanza.sender)
  else (orig.setSession env.order stanza.sender
    (generatedUnavail orig.nick stanza.sender)).removeSession env.order stanza.sender

theorem changeNick_eq (env : Env) (r : Room) (stanza : Presence) (orig dest : Occupant)
    (isFirst : Bool) :
    r.changeNick env stanza orig dest isFirst =
      (r.saveOccupant env.order (leftBehind env stanza orig isFirst)).saveOccupant env.order
        (dest.setSession env.order stanza.sender stanza) := rfl

theorem Enterable.leftBehind (he : r.Enterable stanza.sender orig) (env : Env) (isFirst : Bool) :
    (leftBehind env stanza orig isFirst).Savable ∧
      (leftBehind env stanza orig isFirst).nick = orig.nick ∧
      (leftBehind env stanza orig isFirst).role = orig.role ∧
      ∀ j, (leftBehind env stanza orig isFirst).Live j ↔ j ≠ stanza.sender ∧ orig.Live j := by
  have hs : (orig.setSession env.order stanza.sender
      (generatedUnavail orig.nick stanza.sender)).Savable :=
    he.toSound.setSession_savable env.order he.primary he.session (Or.inr rfl)
  have hlive : ∀ j, (orig.setSession env.order stanza.sender
      (generatedUnavail orig.nick stanza.sender)).Live j ↔ j ≠ stanza.sender ∧ orig.Live j := by
    intro j
    rw [Occupant.setSession_live]
    by_cases hj : j = stanza.sender
    · simp [hj, generatedUnavail]
    · simp [hj]
  unfold Room.leftBehind
  split
  · exact ⟨hs, by simp, by simp, hlive⟩
  · refine ⟨hs.removeSession env.order, by simp, by simp, fun j => ?_⟩
    rw [Occupant.removeSession_live, hlive]
    tauto

theorem Whole.changeNick (h : r.Whole) (env : Env) {dest : Occupant}
    (ho : r.getOccupantByRealJid stanza.sender = some orig)
    (he : r.Enterable stanza.sender dest) (hne : dest.nick ≠ orig.nick)
    (ht : stanza.type = none) (isFirst : Bool) : (r.changeNick env stanza orig dest isFirst).Whole ∧
      r.Undisturbed stanza.sender (r.changeNick env stanza orig dest isFirst) := by
  obtain ⟨heo, -⟩ := h.session ho
  obtain ⟨hsav, hnick, hrole, hlive⟩ := heo.leftBehind env isFirst
  rw [changeNick_eq]
  generalize Room.leftBehind env stanza orig isFirst = left at hsav hnick hrole hlive
  have hsaved : (r.saveOccupant env.order left).Whole := by
    refine h.saveOccupant env.order (fun _ => hsav) fun _ j n hl hn => ?_
    have hindex := (heo.index j).mp ((hlive j).mp hl).2
    rw [hn] at hindex
    exact (Option.some.inj hindex).trans hnick.symm
  have hleft : r.Undisturbed stanza.sender (r.saveOccupant env.order left) := by
    intro j hj
    refine h.saveOccupant_jidNick env.order ?_
    rw [hrole, hlive, hnick, ← heo.index j]
    exact ⟨fun hl => hl.2.2, fun hl => ⟨heo.role j hl, hj, hl⟩⟩
  have hne' : dest.nick ≠ left.nick := by rwa [hnick]
  have hgone : ¬ left.Live stanza.sender := fun hl => ((hlive _).mp hl).1 rfl
  obtain ⟨hwhole, hframe⟩ := hsaved.enter env (he.saveOccupant h hne' hsaved) ht
    (h.saveOccupant_left ho hnick hgone hsaved)
  exact ⟨hwhole, hleft.trans hframe⟩

/-! ## Presences as a whole -/

/-- The handlers leave the nick as it was asked for, or give a newcomer a free one instead of a
free one. -/
structure Settled (r : Room) (stanza : Presence) (verdict : Verdict) : Prop where
  newcomer : ∀ o, r.getOccupantByRealJid stanza.sender = some o →
    verdict.nick stanza.recipient = stanza.recipient
  free : verdict.nick stanza.recipient ≠ stanza.recipient →
    r.occupants.get (verdict.nick stanza.recipient) = none ∧
      r.occupants.get stanza.recipient = none

variable {verdict : Verdict}

theorem Verdict.apply_eq (h : verdict.nick o.nick = o.nick) : verdict.apply o = o := by
  cases verdict with
  | handled => rfl
  | pass => rfl
  | rename nick =>
    have hn : nick = o.nick := h
    subst hn
    rfl

theorem Verdict.apply_new {sv : Server} {env : Env} {b : Option String} {nick : String}
    (verdict : Verdict) :
    verdict.apply (r.newOccupant sv env b nick) =
      { r.newOccupant sv env b nick with nick := verdict.nick nick } := by
  cases verdict <;> rfl

theorem Whole.destination_cases (h : r.Whole) (sv : Server) (env : Env) (stanza : Presence)
    (orig : Option Occupant) :
    (stanza.type = some "unavailable" ∧ r.destination sv env stanza orig = .leave) ∨
    (∃ o, orig = some o ∧ o.nick = stanza.recipient ∧
      r.destination sv env stanza orig = .update) ∨
    ((∀ o, orig = some o → o.nick ≠ stanza.recipient) ∧
      ((r.occupants.get stanza.recipient = none ∧ r.destination sv env stanza orig =
          .enter (r.newOccupant sv env (Jid.bare stanza.sender) stanza.recipient) true) ∨
        ∃ o, r.occupants.get stanza.recipient = some o ∧
          r.destination sv env stanza orig = .enter o false)) := by
  by_cases ht : stanza.type = some "unavailable"
  · left
    exact ⟨ht, by simp [Room.destination, ht]⟩
  · by_cases hu : ∃ o, orig = some o ∧ o.nick = stanza.recipient
    · right; left
      obtain ⟨o, rfl, hn⟩ := hu
      exact ⟨o, rfl, hn, by simp [Room.destination, ht, hn]⟩
    · right; right
      have hne : ∀ o, orig = some o → o.nick ≠ stanza.recipient := fun o ho hn => hu ⟨o, ho, hn⟩
      have hany : ¬ orig.any (fun o => o.nick = stanza.recipient) = true := by
        rw [Option.any_eq_true]
        rintro ⟨o, ho, hn⟩
        exact hne o ho (by simpa using hn)
      refine ⟨hne, ?_⟩
      simp only [Room.destination, ht, hany, if_false, h.getOccupantByNick]
      cases ho : r.occupants.get stanza.recipient with
      | none => exact Or.inl ⟨rfl, rfl⟩
      | some o => exact Or.inr ⟨o, rfl, rfl⟩

theorem Whole.enterable_newcomer (h : r.Whole) {sv : Server} {env : Env}
    (hfree : verdict.nick stanza.recipient ≠ stanza.recipient →
      r.occupants.get (verdict.nick stanza.recipient) = none)
    (hget : r.occupants.get stanza.recipient = none) : r.Enterable stanza.sender (verdict.apply
      (r.newOccupant sv env (Jid.bare stanza.sender) stanza.recipient)) := by
  rw [Verdict.apply_new]
  refine h.enterable_new sv env ?_
  by_cases hn : verdict.nick stanza.recipient = stanza.recipient
  · rwa [hn]
  · exact hfree hn

theorem Whole.handleNormalPresence (h : r.Whole) (sv : Server) (env : Env)
    (hv : r.Settled stanza verdict) (ht : stanza.type = none ∨ stanza.type = some "unavailable") :
    (r.handleNormalPresence sv env stanza verdict).Whole ∧
      r.Undisturbed stanza.sender (r.handleNormalPresence sv env stanza verdict) := by
  have hsame : r.Whole ∧ r.Undisturbed stanza.sender r := ⟨h, Undisturbed.refl r _⟩
  unfold Room.handleNormalPresence
  dsimp only
  split
  · exact hsame
  cases ho : r.getOccupantByRealJid stanza.sender with
  | none =>
    have hnone := h.getOccupantByRealJid_none ho
    rcases h.destination_cases sv env stanza none with
      ⟨-, hd⟩ | ⟨o, hn, -⟩ | ⟨-, hd⟩
    · rw [hd]
      exact hsame
    · cases hn
    · have htype : stanza.type = none := by
        refine ht.resolve_right fun hu => ?_
        simp [Room.destination, hu] at hd
      rcases hd with ⟨hget, hd⟩ | ⟨o, hget, hd⟩ <;> rw [hd] <;> dsimp only
      · split
        · exact hsame
        · split
          · exact hsame
          · exact h.enter env (h.enterable_newcomer (fun hn => (hv.free hn).1) hget) htype hnone
      · have hnick := h.nick _ o hget
        have hkept : verdict.nick o.nick = o.nick := by
          rw [hnick]
          by_contra hn
          rw [(hv.free hn).2] at hget
          cases hget
        rw [Verdict.apply_eq hkept]
        split
        · exact hsame
        · split
          · exact hsame
          · rename_i hc
            exact h.enter env (h.existing_enterable hget (by simpa using hc)) htype hnone
  | some orig =>
    obtain ⟨he, hfree⟩ := h.session ho
    have hkept := hv.newcomer orig ho
    rcases h.destination_cases sv env stanza (some orig) with
      ⟨hu, hd⟩ | ⟨o, hn, hnick, hd⟩ | ⟨hne, hd⟩
    · rw [hd]
      dsimp only
      split
      · exact hsame
      · exact h.leaveRoom env ho hu
    · obtain rfl := Option.some.inj hn
      rw [hd]
      dsimp only
      rw [Verdict.apply_eq (by rw [hnick, hkept])]
      split
      · exact hsame
      · split
        · exact hsame
        · exact h.keepSession env.order he ht hfree
    · have htype : stanza.type = none := by
        refine ht.resolve_right fun hu => ?_
        simp [Room.destination, hu] at hd
      have hne' : stanza.recipient ≠ orig.nick := fun hn => hne orig rfl hn.symm
      rcases hd with ⟨hget, hd⟩ | ⟨o, hget, hd⟩ <;> rw [hd] <;> dsimp only
      · split
        · exact hsame
        · split
          · exact hsame
          · refine h.changeNick env ho
              (h.enterable_newcomer (fun hn => absurd hkept hn) hget) ?_ htype true
            rw [Verdict.apply_nick]
            change verdict.nick stanza.recipient ≠ orig.nick
            rwa [hkept]
      · have hnick := h.nick _ o hget
        rw [Verdict.apply_eq (by rw [hnick, hkept])]
        split
        · exact hsame
        · split
          · exact hsame
          · rename_i hc
            exact h.changeNick env ho (h.existing_enterable hget (by simpa using hc))
              (by rwa [hnick]) htype false

theorem Whole.handlePresenceToOccupant (h : r.Whole) (sv : Server) (env : Env)
    (hv : r.Settled stanza verdict) : (r.handlePresenceToOccupant sv env stanza verdict).Whole ∧
      r.Undisturbed stanza.sender (r.handlePresenceToOccupant sv env stanza verdict) := by
  unfold Room.handlePresenceToOccupant
  split
  · exact h.handleKickable env _
  · split
    · rename_i ht
      exact h.handleNormalPresence sv env hv ht
    · exact ⟨h, Undisturbed.refl r _⟩

theorem Whole.handleFirstPresence (h : r.Whole) (sv : Server) (env : Env)
    (verdict : Verdict) (membersOnly moderated : Bool) (hempty : r.occupants = ∅)
    (ht : stanza.type = none) :
    ((r.handleFirstPresence sv env stanza membersOnly moderated verdict).Whole ∧
      (r.handleFirstPresence sv env stanza membersOnly moderated verdict).jid = r.jid) ∧
      ∀ n o, (r.handleFirstPresence sv env stanza membersOnly moderated
          verdict).occupants.get n = some o →
        n = verdict.nick stanza.recipient ∧ o.bareJid = Jid.bare stanza.sender := by
  rw [handleFirstPresence_eq]
  dsimp only
  obtain ⟨hocc, hidx, hjid⟩ := prepare_empty hempty sv env stanza membersOnly moderated
  generalize r.prepare sv env stanza membersOnly moderated = r' at hocc hidx hjid
  have hw : r'.Whole := h.of_eq (hocc.trans hempty.symm) hidx
  split
  · exact ⟨⟨hw, hjid⟩, fun n o ho => by simp [hocc] at ho⟩
  · have hfree : ∀ n, r'.occupants.get n = none := fun n => by simp [hocc]
    have hnone : r'.jidNick.get stanza.sender = none := by
      cases hn : r'.jidNick.get stanza.sender with
      | none => rfl
      | some n =>
        obtain ⟨o, ho, -⟩ := (hw.index stanza.sender n).mp hn
        rw [hfree] at ho
        cases ho
    have he : r'.Enterable stanza.sender (verdict.apply
        (r'.newOccupant sv env (Jid.bare stanza.sender) stanza.recipient)) :=
      hw.enterable_newcomer (fun _ => hfree _) (hfree _)
    refine ⟨⟨(hw.enter env he ht hnone).1, hjid⟩, fun n o ho => ?_⟩
    rcases saveOccupant_cases ho with ⟨rfl, rfl, -, -⟩ | ⟨-, hold⟩
    · constructor
      · rw [Occupant.setSession_nick, Verdict.apply_nick]
        rfl
      · change (Occupant.setSession env.order _ stanza.sender stanza).bareJid = _
        rw [Occupant.setSession_bareJid, Verdict.apply_bareJid]
        rfl
    · rw [hfree] at hold
      cases hold

/-! ## Occupants with nicks of the room -/

/-- What the router promises of a presence, and what the handlers of the room's events do not
do in a run. -/
def RoutedPresence (roomJid : String) (stanza : Presence) (verdict : Verdict) : Prop :=
  (∃ b, Jid.bare stanza.sender = some b ∧ b ≠ roomJid) ∧ ∀ nick, verdict ≠ .rename nick

theorem RoutedPresence.nick_eq {roomJid : String}
    (h : RoutedPresence roomJid stanza verdict) (nick : String) : verdict.nick nick = nick := by
  cases verdict with
  | handled => rfl
  | pass => rfl
  | rename nick' => exact absurd rfl (h.2 nick')

theorem RoutedPresence.settled {roomJid : String}
    (h : RoutedPresence roomJid stanza verdict) : r.Settled stanza verdict :=
  ⟨fun _ _ => h.nick_eq _, fun hn => absurd (h.nick_eq _) hn⟩

theorem Consistent.of_whole (h : r.Consistent) (hw : r'.Whole) (hjid : r'.jid = r.jid)
    (hocc : ∀ n o', r'.occupants.get n = some o' →
      (∃ o, r.occupants.get n = some o ∧ o'.bareJid = o.bareJid) ∨
        (r.addressed n ∧ ∃ b, o'.bareJid = some b ∧ b ≠ r.jid)) : r'.Consistent := by
  refine ⟨by rw [hjid, h.room], hw.present, hw.nick, ?_, ?_, hw.index⟩
  · intro n o' ho'
    have haddr : r'.addressed n = r.addressed n := by simp [Room.addressed, hjid]
    rw [haddr]
    rcases hocc n o' ho' with ⟨o, ho, -⟩ | ⟨ha, -⟩
    · exact h.addressed n o ho
    · exact ha
  · intro n o' ho'
    rw [hjid]
    rcases hocc n o' ho' with ⟨o, ho, hb⟩ | ⟨-, hout⟩
    · rw [hb]
      exact h.outside n o ho
    · exact hout

theorem Consistent.of_keeps (h : r.Consistent) (hw : r'.Whole) (hc : r.SameConfig r')
    (hk : r.Keeps r') : r'.Consistent :=
  h.of_whole hw hc.jid fun n o' ho' => Or.inl (hk n o' ho')

theorem Consistent.handlePresenceToOccupant (h : r.Consistent) (sv : Server) (env : Env)
    (haddr : r.addressed stanza.recipient) (hr : RoutedPresence r.jid stanza verdict) :
    (r.handlePresenceToOccupant sv env stanza verdict).Consistent := by
  obtain ⟨hw, -⟩ := h.whole.handlePresenceToOccupant sv env (hr.settled (r := r))
  have hjid := (sameConfig_handlePresenceToOccupant sv env r stanza verdict).jid
  refine h.of_whole hw hjid fun n o' ho' => ?_
  unfold Room.handlePresenceToOccupant at ho'
  split at ho'
  · exact Or.inl ((h.housed.handleKickable env _).2 n o' ho')
  · split at ho'
    · rcases (h.housed.handleNormalPresence sv env stanza verdict).2 n o' ho' with
        hold | ⟨hadmits, hb⟩
      · exact Or.inl hold
      · refine Or.inr ⟨?_, ?_⟩
        · rw [hadmits.1, hr.nick_eq]
          exact haddr
        · obtain ⟨b, hbare, hne⟩ := hr.1
          exact ⟨b, hb.trans hbare, hne⟩
    · exact Or.inl ⟨o', ho', rfl⟩

theorem Whole.step (h : r.Whole) (sv : Server) (env : Env) {op : Op}
    (hop : ∀ stanza verdict, op ≠ .presence stanza verdict) : (r.step sv (env, op)).Whole := by
  by_cases hkick : ∃ realJid, op = .kick realJid
  · obtain ⟨realJid, rfl⟩ := hkick
    exact (h.handleKickable env realJid).1
  · exact h.step_inside sv env hop fun realJid heq => hkick ⟨realJid, heq⟩

theorem Consistent.setRole (h : r.Consistent) (sv : Server) (env : Env) (actor : Actor)
    (nick : String) (role : Option String) : (r.setRole sv env actor nick role).1.Consistent :=
  h.of_keeps (h.whole.setRole sv env actor nick role) (sameConfig_setRole sv env r actor nick role)
    (h.housed.setRole sv env actor nick role).2

theorem Consistent.reserveNick (h : r.Consistent) (sv : Server) (env : Env) (jid : String)
    (nick : Option String) : (r.reserveNick sv env jid nick).Consistent :=
  h.of_keeps (h.whole.reserveNick sv env jid nick) (sameConfig_reserveNick sv env r jid nick)
    (h.housed.reserveNick sv env jid nick).2

theorem Consistent.setAffiliation (h : r.Consistent) (sv : Server) (env : Env) (actor : Actor)
    (jid : String) (affiliation : Option String) (data : DataArg) :
    (r.setAffiliation sv env actor jid affiliation data).1.Consistent :=
  h.of_whole (h.whole.setAffiliation sv env actor jid _ data) (setAffiliation_jid sv env r _ jid _ data)
    fun n o' ho' => Or.inl ((h.housed.setAffiliation sv env actor jid affiliation data).2 n o' ho')

theorem Consistent.handleFirstPresence (h : r.Consistent) (sv : Server) (env : Env)
    (membersOnly moderated : Bool) (hempty : r.occupants = ∅) (haddr : r.addressed stanza.recipient)
    (hr : RoutedPresence r.jid stanza verdict) (ht : stanza.type = none) :
    (r.handleFirstPresence sv env stanza membersOnly moderated verdict).Consistent := by
  obtain ⟨hw, hocc⟩ := h.whole.handleFirstPresence sv env verdict membersOnly moderated
    hempty ht
  refine h.of_whole hw.1 hw.2 fun n o' ho' => ?_
  obtain ⟨rfl, hb⟩ := hocc n o' ho'
  refine Or.inr ⟨?_, ?_⟩
  · rw [hr.nick_eq]
    exact haddr
  · obtain ⟨b, hbare, hne⟩ := hr.1
    exact ⟨b, hb.trans hbare, hne⟩

end Room

end Prosody.Muc
