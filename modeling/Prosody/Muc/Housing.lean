import Prosody.Muc.Consistency

/-! # Occupants whose nicks handlers change

A handler of the room's events may put an occupant under another nick. What is stored then
may no longer be in step with `_jid_nick`, but an occupant still belongs to one user. -/

namespace Prosody.Muc

/-- Every session of the occupant has its bare address. -/
def Occupant.Own (o : Occupant) : Prop :=
  ∀ j pr, o.sessions.get j = some pr → Jid.bare j = o.bareJid

namespace Occupant

variable {o : Occupant}

theorem copy_copy (o : Occupant) : o.copy.copy = o.copy := by
  have hs : o.copy.copy.sessions = o.copy.sessions := by
    apply Table.ext
    intro j
    apply Option.ext
    intro pr
    rw [copy_get, copy_get]
    constructor
    · exact fun h => h.1
    · exact fun h => ⟨h, h.2⟩
  exact congrArg (fun sessions => { o.copy with sessions := sessions }) hs

theorem Own.copy (h : o.Own) : o.copy.Own := fun j pr hj => h j pr (copy_get.mp hj).1

theorem Own.setRole (h : o.Own) (role : Option Role) : Own { o with role := role } := h

theorem Own.setSession (h : o.Own) (ord : KeyOrder String) {j : String} (hj : Jid.bare j = o.bareJid)
    (pr : Presence) : (o.setSession ord j pr).Own := by
  intro k p hk
  rw [setSession_get] at hk
  rw [setSession_bareJid]
  split at hk
  · rename_i heq
    rw [heq]
    exact hj
  · exact h k p hk

theorem Own.removeSession (h : o.Own) (ord : KeyOrder String) (j : String) :
    (o.removeSession ord j).Own := by
  intro k p hk
  rw [removeSession_get] at hk
  rw [removeSession_bareJid]
  split at hk
  · cases hk
  · exact h k p hk

end Occupant

namespace Room

/-- What becomes of an occupant in a loop that changes roles. -/
def withRole (newRole : Occupant → Option (Option Role)) (o : Occupant) : Option Occupant :=
  match newRole o with
  | none => some o
  | some none => none
  | some (some role) => some { o with role := some role }

def Verdict.nick (verdict : Verdict) (recipient : String) : String :=
  match verdict with
  | .rename nick => nick
  | .handled | .pass => recipient

@[simp] theorem Verdict.apply_nick (verdict : Verdict) (o : Occupant) :
    (verdict.apply o).nick = verdict.nick o.nick := by
  cases verdict <;> rfl

@[simp] theorem Verdict.apply_bareJid (verdict : Verdict) (o : Occupant) :
    (verdict.apply o).bareJid = o.bareJid := by
  cases verdict <;> rfl

@[simp] theorem Verdict.apply_sessions (verdict : Verdict) (o : Occupant) :
    (verdict.apply o).sessions = o.sessions := by
  cases verdict <;> rfl

theorem Verdict.apply_own {o : Occupant} (h : o.Own) (verdict : Verdict) : (verdict.apply o).Own := by
  intro j pr hj
  rw [Verdict.apply_sessions] at hj
  rw [Verdict.apply_bareJid]
  exact h j pr hj

/-- What holds of a room whatever handlers do to nicks. -/
structure Housed (r : Room) : Prop where
  nick : ∀ n o, r.occupants.get n = some o → o.nick = n
  copied : ∀ n o, r.occupants.get n = some o → o.copy = o
  role : ∀ n o, r.occupants.get n = some o → o.role ≠ none
  live : ∀ n o, r.occupants.get n = some o → ∃ j, o.Live j
  own : ∀ n o, r.occupants.get n = some o → o.Own
  index : ∀ j n, r.jidNick.get j = some n → ∃ o, r.occupants.get n = some o ∧ o.Live j

variable {r : Room} {o o' : Occupant} {n m j : String}

theorem Whole.housed (h : r.Whole) : r.Housed where
  nick := h.nick
  copied n o ho := (h.present n o ho).copy_eq
  role n o ho := (h.present n o ho).role
  live n o ho := by
    obtain ⟨j, -, hl⟩ := (h.present n o ho).primary
    exact ⟨j, hl⟩
  own n o ho := (h.present n o ho).bare
  index j n hn := (h.index j n).mp hn

theorem Consistent.housed (h : r.Consistent) : r.Housed := h.whole.housed

theorem housed_new (jid : String) (membersOnly moderated : Bool) :
    (Room.new jid membersOnly moderated).Housed := by
  constructor <;> intro _ _ h <;> simp [Room.new] at h

namespace Housed

theorem saveOccupant (h : r.Housed) (ord : KeyOrder String) (ho : o.Own) :
    (r.saveOccupant ord o).Housed := by
  constructor
  · intro n o' hget
    rcases saveOccupant_cases hget with ⟨rfl, rfl, -, -⟩ | ⟨-, hget⟩
    · rfl
    · exact h.nick n o' hget
  · intro n o' hget
    rcases saveOccupant_cases hget with ⟨-, rfl, -, -⟩ | ⟨-, hget⟩
    · exact o.copy_copy
    · exact h.copied n o' hget
  · intro n o' hget
    rcases saveOccupant_cases hget with ⟨-, rfl, hr, -⟩ | ⟨-, hget⟩
    · exact hr
    · exact h.role n o' hget
  · intro n o' hget
    rcases saveOccupant_cases hget with ⟨-, rfl, -, j, hj⟩ | ⟨-, hget⟩
    · exact ⟨j, Occupant.copy_live.mpr hj⟩
    · exact h.live n o' hget
  · intro n o' hget
    rcases saveOccupant_cases hget with ⟨-, rfl, -, -⟩ | ⟨-, hget⟩
    · exact ho.copy
    · exact h.own n o' hget
  · intro j n hn
    by_cases hkept : o.role ≠ none ∧ o.Live j
    · rw [saveOccupant_jidNick_live ord r o hkept.1 hkept.2] at hn
      obtain rfl := Option.some.inj hn
      exact ⟨o.copy, saveOccupant_get_live ord r o hkept.1 hkept.2,
        Occupant.copy_live.mpr hkept.2⟩
    · have hgone : o.role = none ∨ ¬ o.Live j := by
        by_contra hc
        push Not at hc
        exact hkept hc
      rw [saveOccupant_jidNick_other ord r o hgone] at hn
      split at hn
      · cases hn
      · rename_i hold
        obtain ⟨o', hget, hl⟩ := h.index j n hn
        have hne : n ≠ o.nick := by
          rintro rfl
          obtain ⟨pr, hpr, -⟩ := hl
          exact hold (by simp [hget, hpr])
        exact ⟨o', by rwa [saveOccupant_get_of_ne ord r o hne], hl⟩

theorem of_eq {r' : Room} (h : r.Housed) (ho : r'.occupants = r.occupants)
    (hj : r'.jidNick = r.jidNick) : r'.Housed := by
  constructor <;> simp only [ho, hj]
  · exact h.nick
  · exact h.copied
  · exact h.role
  · exact h.live
  · exact h.own
  · exact h.index

theorem getOccupantByNick (h : r.Housed) (n : String) :
    r.getOccupantByNick n = r.occupants.get n := by
  unfold Room.getOccupantByNick
  cases ho : r.occupants.get n with
  | none => rfl
  | some o => rw [Option.map_some, h.copied n o ho]

theorem getOccupantByRealJid (h : r.Housed) (hj : r.getOccupantByRealJid j = some o) :
    r.jidNick.get j = some o.nick ∧ r.occupants.get o.nick = some o ∧ o.Live j := by
  unfold Room.getOccupantByRealJid at hj
  obtain ⟨n, hn, ho⟩ := Option.bind_eq_some_iff.mp hj
  rw [h.getOccupantByNick] at ho
  obtain ⟨o', ho', hl⟩ := h.index j n hn
  rw [ho, Option.some_inj] at ho'
  subst ho'
  rw [h.nick n o ho]
  exact ⟨hn, ho, hl⟩

theorem bare_of_live (h : r.Housed) (ho : r.occupants.get n = some o) (hj : o.Live j) :
    Jid.bare j = o.bareJid := by
  obtain ⟨pr, hpr, -⟩ := hj
  exact h.own n o ho j pr hpr

/-! ## Changes of roles -/

theorem setRole_get (h : r.Housed) (ord : KeyOrder String) (ho : r.occupants.get n = some o)
    (role : Option Role) (m : String) :
    (r.saveOccupant ord { o with role := role }).occupants.get m =
      if m = n then role.map (fun role => { o with role := some role })
      else r.occupants.get m := by
  obtain rfl := h.nick n o ho
  by_cases hm : m = o.nick
  · rw [if_pos hm, hm]
    cases role with
    | none => exact saveOccupant_get_gone ord r _ (Or.inl rfl)
    | some role =>
      obtain ⟨j, hj⟩ := h.live _ o ho
      have hget := saveOccupant_get_live ord r { o with role := some role } (by simp) hj
      have hcopy : Occupant.copy { o with role := some role } = { o with role := some role } :=
        congrArg (fun o => { o with role := some role }) (h.copied _ o ho)
      rw [hcopy] at hget
      exact hget
  · rw [if_neg hm]
    exact saveOccupant_get_of_ne ord r _ hm

theorem updateRole_get (h : r.Housed) (ord : KeyOrder String)
    (newRole : Occupant → Option (Option Role)) (n m : String) :
    (Room.updateRole ord newRole r n).occupants.get m =
      if m = n then (r.occupants.get n).bind (withRole newRole) else r.occupants.get m := by
  unfold Room.updateRole
  rw [h.getOccupantByNick]
  cases ho : r.occupants.get n with
  | none =>
    dsimp only
    split
    · rename_i hm
      rw [hm, ho]
      rfl
    · rfl
  | some o =>
    dsimp only
    cases hr : newRole o with
    | none =>
      dsimp only
      split
      · rename_i hm
        simp [hm, ho, withRole, hr]
      · rfl
    | some role =>
      dsimp only
      rw [h.setRole_get ord ho]
      cases role <;> simp [withRole, hr]

theorem updateRole (h : r.Housed) (ord : KeyOrder String)
    (newRole : Occupant → Option (Option Role)) (n : String) :
    (Room.updateRole ord newRole r n).Housed := by
  unfold Room.updateRole
  rw [h.getOccupantByNick]
  cases ho : r.occupants.get n with
  | none => exact h
  | some o =>
    dsimp only
    cases newRole o with
    | none => exact h
    | some role => exact h.saveOccupant ord (h.own n o ho)

theorem updateRoles (h : r.Housed) (ord : KeyOrder String)
    (newRole : Occupant → Option (Option Role)) : (r.updateRoles ord newRole).Housed := by
  unfold Room.updateRoles
  exact List.foldlRecOn _ _ h fun r hr n _ => hr.updateRole ord newRole n

theorem updateRoles_get (h : r.Housed) (ord : KeyOrder String)
    (newRole : Occupant → Option (Option Role)) (m : String) :
    (r.updateRoles ord newRole).occupants.get m = (r.occupants.get m).bind (withRole newRole) := by
  unfold Room.updateRoles
  have hgen : ∀ (nicks : List String) (r : Room), r.Housed → nicks.Nodup →
      (nicks.foldl (Room.updateRole ord newRole) r).occupants.get m =
        if m ∈ nicks then (r.occupants.get m).bind (withRole newRole)
        else r.occupants.get m := by
    intro nicks
    induction nicks with
    | nil =>
      intro r _ _
      rfl
    | cons n nicks ih =>
      intro r hr hnd
      obtain ⟨hn, hnd⟩ := List.nodup_cons.mp hnd
      rw [List.foldl_cons, ih _ (hr.updateRole ord newRole n) hnd, hr.updateRole_get]
      by_cases hm : m = n
      · subst hm
        simp [hn]
      · simp [hm]
  rw [hgen _ r h (ord.nodup _)]
  split
  · rfl
  · rename_i hm
    have hnone : r.occupants.get m = none := by
      cases ho : r.occupants.get m with
      | none => rfl
      | some o => exact absurd ((ord.mem_keys _ _).mpr ((Table.mem_keys _ _).mpr ⟨o, ho⟩)) hm
    rw [hnone]
    rfl

end Housed

/-! ## Who is in the room afterwards -/

/-- Nobody has come in, and nobody's place has gone to another user. -/
def Keeps (r r' : Room) : Prop :=
  ∀ n o', r'.occupants.get n = some o' →
    ∃ o, r.occupants.get n = some o ∧ o'.bareJid = o.bareJid

theorem Keeps.refl (r : Room) : r.Keeps r := fun _ o ho => ⟨o, ho, rfl⟩

theorem Keeps.of_eq {r' : Room} (h : r'.occupants = r.occupants) : r.Keeps r' := by
  intro n o ho
  rw [h] at ho
  exact ⟨o, ho, rfl⟩

theorem Keeps.trans {r₁ r₂ r₃ : Room} (h : r₁.Keeps r₂) (h' : r₂.Keeps r₃) : r₁.Keeps r₃ := by
  intro n o₃ h₃
  obtain ⟨o₂, h₂, hb⟩ := h' n o₃ h₃
  obtain ⟨o₁, h₁, hb'⟩ := h n o₂ h₂
  exact ⟨o₁, h₁, hb.trans hb'⟩

theorem Keeps.saveOccupant (ord : KeyOrder String) (ho : r.occupants.get o'.nick = some o)
    (hb : o'.bareJid = o.bareJid) : r.Keeps (r.saveOccupant ord o') := by
  intro n o₁ h₁
  rcases saveOccupant_cases h₁ with ⟨rfl, rfl, -, -⟩ | ⟨-, hget⟩
  · exact ⟨o, ho, hb⟩
  · exact ⟨o₁, hget, rfl⟩

theorem withRole_bareJid {newRole : Occupant → Option (Option Role)}
    (h : withRole newRole o = some o') : o'.bareJid = o.bareJid := by
  unfold withRole at h
  split at h
  · rw [Option.some.inj h]
  · cases h
  · rw [← Option.some.inj h]

namespace Housed

theorem keeps_updateRoles (h : r.Housed) (ord : KeyOrder String)
    (newRole : Occupant → Option (Option Role)) : r.Keeps (r.updateRoles ord newRole) := by
  intro n o' ho'
  rw [h.updateRoles_get] at ho'
  obtain ⟨o, ho, hrole⟩ := Option.bind_eq_some_iff.mp ho'
  exact ⟨o, ho, withRole_bareJid hrole⟩

/-! ## Presences -/

theorem handleKickable (h : r.Housed) (env : Env) (realJid : String) :
    (r.handleKickable env realJid).Housed ∧ r.Keeps (r.handleKickable env realJid) := by
  unfold Room.handleKickable
  cases ho : r.getOccupantByRealJid realJid with
  | none => exact ⟨h, Keeps.refl r⟩
  | some o =>
    obtain ⟨-, hget, hl⟩ := h.getOccupantByRealJid ho
    have hown := (h.own _ o hget).setSession env.order (h.bare_of_live hget hl)
      { type := some "unavailable", sender := "", recipient := "", tags := [⟨"status", none⟩] }
    dsimp only
    constructor
    · split
      · exact h.saveOccupant env.order (hown.setRole none)
      · exact h.saveOccupant env.order hown
    · split
      · refine Keeps.saveOccupant env.order (o := o) ?_ ?_ <;> simp [hget]
      · refine Keeps.saveOccupant env.order (o := o) ?_ ?_ <;> simp [hget]

variable {stanza : Presence}

theorem leaveRoom (h : r.Housed) (env : Env) {orig : Occupant}
    (ho : r.getOccupantByRealJid stanza.sender = some orig) :
    (r.leaveRoom env stanza orig).Housed ∧ r.Keeps (r.leaveRoom env stanza orig) := by
  obtain ⟨-, hget, hl⟩ := h.getOccupantByRealJid ho
  have hbare := h.bare_of_live hget hl
  unfold Room.leaveRoom
  dsimp only
  split
  · have hown : Occupant.Own { orig with role := none } := (h.own _ orig hget).setRole none
    refine ⟨h.saveOccupant env.order (hown.setSession env.order hbare stanza), ?_⟩
    refine Keeps.saveOccupant env.order (o := orig) ?_ ?_ <;> simp [hget]
  · refine ⟨h.saveOccupant env.order ((h.own _ orig hget).setSession env.order hbare stanza), ?_⟩
    refine Keeps.saveOccupant env.order (o := orig) ?_ ?_ <;> simp [hget]

variable {dest : Occupant}

theorem saveSession (h : r.Housed) (env : Env) (stanza : Presence)
    (hown : dest.Own) (hb : dest.bareJid = Jid.bare stanza.sender) :
    (r.saveOccupant env.order (dest.setSession env.order stanza.sender stanza)).Housed ∧
      ∀ n o', (r.saveOccupant env.order
          (dest.setSession env.order stanza.sender stanza)).occupants.get n = some o' →
        r.occupants.get n = some o' ∨ (n = dest.nick ∧ o'.bareJid = Jid.bare stanza.sender) := by
  refine ⟨h.saveOccupant env.order (hown.setSession env.order hb.symm stanza), fun n o' hget => ?_⟩
  rcases saveOccupant_cases hget with ⟨rfl, rfl, -, -⟩ | ⟨-, hget⟩
  · refine Or.inr ⟨by simp, ?_⟩
    change (dest.setSession env.order stanza.sender stanza).bareJid = _
    rw [Occupant.setSession_bareJid, hb]
  · exact Or.inl hget

theorem changeNick (h : r.Housed) (env : Env) {orig : Occupant}
    (ho : r.getOccupantByRealJid stanza.sender = some orig) (hown : dest.Own)
    (hb : dest.bareJid = Jid.bare stanza.sender) (isFirst : Bool) :
    (r.changeNick env stanza orig dest isFirst).Housed ∧
      ∀ n o', (r.changeNick env stanza orig dest isFirst).occupants.get n = some o' →
        (∃ o, r.occupants.get n = some o ∧ o'.bareJid = o.bareJid) ∨
          (n = dest.nick ∧ o'.bareJid = Jid.bare stanza.sender) := by
  obtain ⟨-, hget, hl⟩ := h.getOccupantByRealJid ho
  have horig := (h.own _ orig hget).setSession env.order (h.bare_of_live hget hl)
    (generatedUnavail orig.nick stanza.sender)
  unfold Room.changeNick
  dsimp only
  generalize hleft : (if isFirst = true ∧ orig.sessions.keys.card ≤ 1 then
    orig.setSession env.order stanza.sender (generatedUnavail orig.nick stanza.sender)
    else (orig.setSession env.order stanza.sender
      (generatedUnavail orig.nick stanza.sender)).removeSession env.order stanza.sender) = left
  have hfacts : left.Own ∧ left.nick = orig.nick ∧ left.bareJid = orig.bareJid := by
    rw [← hleft]
    split
    · exact ⟨horig, by simp, by simp⟩
    · exact ⟨horig.removeSession env.order _, by simp, by simp⟩
  obtain ⟨hleftOwn, hnick, hbare⟩ := hfacts
  have hkeeps : r.Keeps (r.saveOccupant env.order left) :=
    Keeps.saveOccupant env.order (by rwa [hnick]) hbare
  obtain ⟨hhoused, hcases⟩ := (h.saveOccupant env.order hleftOwn).saveSession env stanza hown hb
  refine ⟨hhoused, fun n o' hn => ?_⟩
  rcases hcases n o' hn with hn | hn
  · exact Or.inl (hkeeps n o' hn)
  · exact Or.inr hn

/-- Who is in the room after a presence: those who were, and the sender if it was let in. -/
def Admits (sv : Server) (r : Room) (stanza : Presence) (verdict : Verdict) (n : String) : Prop :=
  n = verdict.nick stanza.recipient ∧ verdict ≠ .handled ∧ stanza.type ≠ some "unavailable" ∧
    (r.getOccupantByRealJid stanza.sender = none → r.joinForbidden sv stanza = false)

variable {orig : Option Occupant}

theorem destination_leave {sv : Server} {env : Env}
    (hd : r.destination sv env stanza orig = .leave) : stanza.type = some "unavailable" := by
  unfold Room.destination at hd
  split at hd
  · rename_i ht
    exact ht
  · split at hd
    · cases hd
    · split at hd <;> cases hd

theorem destination_update {sv : Server} {env : Env}
    (hd : r.destination sv env stanza orig = .update) :
    ∃ o, orig = some o ∧ o.nick = stanza.recipient ∧ stanza.type ≠ some "unavailable" := by
  unfold Room.destination at hd
  split at hd
  · cases hd
  · rename_i ht
    split at hd
    · rename_i hu
      obtain ⟨o, ho, hn⟩ := (Option.any_eq_true _ _).mp hu
      exact ⟨o, ho, by simpa using hn, ht⟩
    · split at hd <;> cases hd

/-- The occupant that a presence goes to is a new one of the sender, or stored under the nick
that is asked for. -/
theorem destination_enter (h : r.Housed) {sv : Server} {env : Env}
    {isFirst : Bool} (hd : r.destination sv env stanza orig = .enter dest isFirst) :
    stanza.type ≠ some "unavailable" ∧ dest.nick = stanza.recipient ∧ dest.Own ∧
      (isFirst = true → dest.bareJid = Jid.bare stanza.sender) ∧
      (isFirst = false → r.occupants.get stanza.recipient = some dest) := by
  unfold Room.destination at hd
  split at hd
  · cases hd
  · rename_i ht
    split at hd
    · cases hd
    · split at hd
      · cases hd
        refine ⟨ht, rfl, ?_, fun _ => rfl, by simp⟩
        intro j pr hj
        simp [newOccupant, Occupant.new] at hj
      · rename_i o ho
        rw [h.getOccupantByNick] at ho
        cases hd
        exact ⟨ht, h.nick _ _ ho, h.own _ _ ho, by simp, fun _ => ho⟩

theorem bare_of_noConflict (h : r.Housed) {isFirst : Bool}
    {verdict : Verdict} (hnew : isFirst = true → dest.bareJid = Jid.bare stanza.sender)
    (hstored : isFirst = false → r.occupants.get n = some dest)
    (hc : nickConflict stanza (verdict.apply dest) isFirst = false) :
    (verdict.apply dest).bareJid = Jid.bare stanza.sender := by
  rw [Verdict.apply_bareJid]
  cases isFirst with
  | true => exact hnew rfl
  | false =>
    have hget := hstored rfl
    obtain ⟨j, hj⟩ := h.live _ _ hget
    have hbare := h.bare_of_live hget hj
    have heq : Jid.bare stanza.sender = dest.bareJid.bind Jid.bare := by
      simpa [nickConflict] using hc
    rw [heq]
    cases hb : dest.bareJid with
    | none => rfl
    | some b =>
      rw [hb] at hbare
      exact (Jid.bare_bare hbare).symm

theorem handleNormalPresence (h : r.Housed) (sv : Server) (env : Env) (stanza : Presence)
    (verdict : Verdict) :
    (r.handleNormalPresence sv env stanza verdict).Housed ∧
      ∀ n o', (r.handleNormalPresence sv env stanza verdict).occupants.get n = some o' →
        (∃ o, r.occupants.get n = some o ∧ o'.bareJid = o.bareJid) ∨
          (Admits sv r stanza verdict n ∧ o'.bareJid = Jid.bare stanza.sender) := by
  have hsame : ∀ n o', r.occupants.get n = some o' →
      (∃ o, r.occupants.get n = some o ∧ o'.bareJid = o.bareJid) ∨
        (Admits sv r stanza verdict n ∧ o'.bareJid = Jid.bare stanza.sender) :=
    fun n o' ho => Or.inl ⟨o', ho, rfl⟩
  unfold Room.handleNormalPresence
  dsimp only
  split
  · exact ⟨h, hsame⟩
  cases ho : r.getOccupantByRealJid stanza.sender with
  | none =>
    cases hd : r.destination sv env stanza none with
    | leave => exact ⟨h, hsame⟩
    | update =>
      obtain ⟨o, hn, -⟩ := destination_update hd
      cases hn
    | enter dest isFirst =>
      obtain ⟨ht, hnick, hown, hnew, hstored⟩ := h.destination_enter hd
      dsimp only
      split
      · exact ⟨h, hsame⟩
      · rename_i hopen
        push Not at hopen
        split
        · exact ⟨h, hsame⟩
        · rename_i hc
          rw [Bool.not_eq_true] at hc
          have hb := h.bare_of_noConflict hnew hstored hc
          obtain ⟨hhoused, hcases⟩ := h.saveSession env stanza (Verdict.apply_own hown verdict) hb
          refine ⟨hhoused, fun n o' hn => ?_⟩
          rcases hcases n o' hn with hn | ⟨rfl, hb'⟩
          · exact hsame n o' hn
          · refine Or.inr ⟨⟨by simp [hnick], hopen.1, ht, fun _ => ?_⟩, hb'⟩
            simpa using hopen.2
  | some orig =>
    have hadmits : ∀ n, n = verdict.nick stanza.recipient → verdict ≠ .handled →
        stanza.type ≠ some "unavailable" → Admits sv r stanza verdict n := by
      intro n hn hv ht
      exact ⟨hn, hv, ht, fun hnone => absurd hnone (by simp [ho])⟩
    cases hd : r.destination sv env stanza (some orig) with
    | leave =>
      dsimp only
      split
      · exact ⟨h, hsame⟩
      · obtain ⟨hhoused, hkeeps⟩ := h.leaveRoom env ho
        exact ⟨hhoused, fun n o' hn => Or.inl (hkeeps n o' hn)⟩
    | update =>
      obtain ⟨o, hn, hnick, ht⟩ := destination_update hd
      obtain rfl := Option.some.inj hn
      obtain ⟨-, hget, -⟩ := h.getOccupantByRealJid ho
      dsimp only
      split
      · exact ⟨h, hsame⟩
      · rename_i hv
        split
        · exact ⟨h, hsame⟩
        · rename_i hc
          rw [Bool.not_eq_true] at hc
          have hb := h.bare_of_noConflict (by simp) (fun _ => hget) hc
          obtain ⟨hhoused, hcases⟩ :=
            h.saveSession env stanza (Verdict.apply_own (h.own _ _ hget) verdict) hb
          refine ⟨hhoused, fun n o' hn => ?_⟩
          rcases hcases n o' hn with hn | ⟨rfl, hb'⟩
          · exact hsame n o' hn
          · exact Or.inr ⟨hadmits _ (by simp [hnick]) hv ht, hb'⟩
    | enter dest isFirst =>
      obtain ⟨ht, hnick, hown, hnew, hstored⟩ := h.destination_enter hd
      dsimp only
      split
      · exact ⟨h, hsame⟩
      · rename_i hv
        split
        · exact ⟨h, hsame⟩
        · rename_i hc
          rw [Bool.not_eq_true] at hc
          have hb := h.bare_of_noConflict hnew hstored hc
          obtain ⟨hhoused, hcases⟩ :=
            h.changeNick env ho (Verdict.apply_own hown verdict) hb isFirst
          refine ⟨hhoused, fun n o' hn => ?_⟩
          rcases hcases n o' hn with hn | ⟨rfl, hb'⟩
          · exact Or.inl hn
          · exact Or.inr ⟨hadmits _ (by simp [hnick]) hv ht, hb'⟩

/-! ## Roles, affiliations and configuration -/

theorem setRole (h : r.Housed) (sv : Server) (env : Env) (actor : Actor) (nick : String)
    (role : Option String) :
    (r.setRole sv env actor nick role).1.Housed ∧
      r.Keeps (r.setRole sv env actor nick role).1 := by
  unfold Room.setRole
  cases hc : r.roleChange sv actor nick role with
  | error e => exact ⟨h, Keeps.refl r⟩
  | ok change =>
    obtain ⟨o, role'⟩ := change
    have ho := (roleChange_ok hc).2.1
    rw [h.getOccupantByNick] at ho
    have hnick := h.nick _ _ ho
    refine ⟨h.saveOccupant env.order ((h.own _ o ho).setRole role'), ?_⟩
    exact Keeps.saveOccupant env.order (o := o) (by simp [hnick, ho]) rfl

theorem reserveNick (h : r.Housed) (sv : Server) (env : Env) (jid : String)
    (nick : Option String) :
    (r.reserveNick sv env jid nick).Housed ∧ r.Keeps (r.reserveNick sv env jid nick) := by
  cases nick with
  | none => exact ⟨h, Keeps.refl r⟩
  | some nick =>
    dsimp only [Room.reserveNick]
    split
    · exact h.setRole sv env .service _ none
    · exact ⟨h, Keeps.refl r⟩

theorem setAffiliation (h : r.Housed) (sv : Server) (env : Env) (actor : Actor) (jid : String)
    (affiliation : Option String) (data : DataArg) :
    (r.setAffiliation sv env actor jid affiliation data).1.Housed ∧
      r.Keeps (r.setAffiliation sv env actor jid affiliation data).1 := by
  unfold Room.setAffiliation
  cases r.affiliationChange sv actor jid affiliation with
  | error e => exact ⟨h, Keeps.refl r⟩
  | ok change =>
    have hs : (r.storeAffiliation change.1.bareParts.join change.2 data).Housed :=
      h.of_eq rfl rfl
    exact ⟨hs.updateRoles env.order _, (Keeps.of_eq rfl).trans (hs.keeps_updateRoles env.order _)⟩

theorem setMembersOnly (h : r.Housed) (sv : Server) (env : Env) (membersOnly : Bool) :
    (r.setMembersOnly sv env membersOnly).Housed ∧
      r.Keeps (r.setMembersOnly sv env membersOnly) := by
  unfold Room.setMembersOnly
  split
  · exact ⟨h, Keeps.refl r⟩
  · have hset : Housed { r with membersOnly := membersOnly } := h.of_eq rfl rfl
    dsimp only
    split
    · exact ⟨hset.updateRoles env.order _,
        (Keeps.of_eq rfl).trans (hset.keeps_updateRoles env.order _)⟩
    · exact ⟨hset, Keeps.of_eq rfl⟩

theorem handleAdminQuerySet (h : r.Housed) (sv : Server) (env : Env) (actor : String)
    (item : Option AdminItem) :
    (r.handleAdminQuerySet sv env actor item).1.Housed ∧
      r.Keeps (r.handleAdminQuerySet sv env actor item).1 := by
  unfold Room.handleAdminQuerySet
  split
  · exact ⟨h, Keeps.refl r⟩
  · rename_i jid nick affiliation _
    obtain ⟨hh, hk⟩ := h.reserveNick sv env jid nick
    obtain ⟨hh', hk'⟩ := hh.setAffiliation sv env (.user actor) jid (some affiliation)
      (reservation nick)
    exact ⟨hh', hk.trans hk'⟩
  · exact h.setRole sv env _ _ _

theorem step (h : r.Housed) (sv : Server) (env : Env) (op : Op) : (r.step sv (env, op)).Housed := by
  cases op with
  | presence stanza verdict =>
    dsimp only [Room.step]
    split
    · unfold Room.handlePresenceToOccupant
      split
      · exact (h.handleKickable env _).1
      · split
        · exact (h.handleNormalPresence sv env stanza verdict).1
        · exact h
    · exact h
  | kick realJid => exact (h.handleKickable env realJid).1
  | setRole actor nick role => exact (h.setRole sv env actor nick role).1
  | setAffiliation actor jid affiliation data => exact (h.setAffiliation sv env actor jid _ data).1
  | adminSet actor item => exact (h.handleAdminQuerySet sv env actor item).1
  | setMembersOnly membersOnly => exact (h.setMembersOnly sv env membersOnly).1
  | setModerated moderated => exact h.of_eq rfl rfl
  | clear => exact h.updateRoles env.order _

theorem keeps_step (h : r.Housed) (sv : Server) (env : Env) {op : Op}
    (hop : ∀ stanza verdict, op ≠ .presence stanza verdict) : r.Keeps (r.step sv (env, op)) := by
  cases op with
  | presence stanza verdict => exact absurd rfl (hop stanza verdict)
  | kick realJid => exact (h.handleKickable env realJid).2
  | setRole actor nick role => exact (h.setRole sv env actor nick role).2
  | setAffiliation actor jid affiliation data => exact (h.setAffiliation sv env actor jid _ data).2
  | adminSet actor item => exact (h.handleAdminQuerySet sv env actor item).2
  | setMembersOnly membersOnly => exact (h.setMembersOnly sv env membersOnly).2
  | setModerated moderated => exact Keeps.of_eq rfl
  | clear => exact h.keeps_updateRoles env.order _

end Housed

/-! ## New rooms -/

theorem updateRoles_empty {r : Room} (h : r.occupants = ∅) (ord : KeyOrder String)
    (newRole : Occupant → Option (Option Role)) : r.updateRoles ord newRole = r := by
  have hkeys : ord.keys r.occupants.keys = [] := by
    rw [List.eq_nil_iff_forall_not_mem]
    intro n hn
    rw [ord.mem_keys, h] at hn
    simp at hn
  rw [Room.updateRoles, hkeys]
  rfl

theorem setMembersOnly_empty {r : Room} (h : r.occupants = ∅) (sv : Server) (env : Env)
    (membersOnly : Bool) :
    r.setMembersOnly sv env membersOnly = { r with membersOnly := membersOnly } := by
  unfold Room.setMembersOnly
  split
  · rename_i heq
    rw [← heq]
  · dsimp only
    split
    · rw [updateRoles_empty]
      exact h
    · rfl

theorem setAffiliation_empty {r : Room} (h : r.occupants = ∅) (sv : Server) (env : Env)
    (actor : Actor) (jid : String) (affiliation : Option String) (data : DataArg) :
    ∃ affiliations affiliationData, (r.setAffiliation sv env actor jid affiliation data).1 =
      { r with affiliations := affiliations, affiliationData := affiliationData } := by
  unfold Room.setAffiliation
  cases r.affiliationChange sv actor jid affiliation with
  | error e => exact ⟨r.affiliations, r.affiliationData, rfl⟩
  | ok change =>
    obtain ⟨target, affiliation⟩ := change
    let stored := r.storeAffiliation target.bareParts.join affiliation data
    refine ⟨stored.affiliations, stored.affiliationData, ?_⟩
    dsimp only [Room.applyAffiliation]
    rw [updateRoles_empty]
    · rfl
    · exact h

/-- A room as it was created, through the server or by a first presence. -/
inductive Founded (sv : Server) : Room → Prop where
  | new (jid : String) (membersOnly moderated : Bool) :
      Founded sv (Room.new jid membersOnly moderated)
  | created (jid : String) (env : Env) (stanza : Presence) (membersOnly moderated : Bool)
      (verdict : Verdict) :
      Founded sv ((Room.new jid false false).handleFirstPresence sv env stanza membersOnly
        moderated verdict)

/-- The room that the first client joins, once the defaults are set and the creator is owner. -/
def prepare (sv : Server) (env : Env) (r : Room) (stanza : Presence)
    (membersOnly moderated : Bool) : Room :=
  let r := (r.setMembersOnly sv env membersOnly).setModerated moderated
  match Jid.bare stanza.sender with
  | none => r
  | some bareJid => (r.setAffiliation sv env .service bareJid (some "owner") .keep).1

theorem handleFirstPresence_eq (sv : Server) (env : Env) (stanza : Presence)
    (membersOnly moderated : Bool) (verdict : Verdict) :
    r.handleFirstPresence sv env stanza membersOnly moderated verdict =
      let r := r.prepare sv env stanza membersOnly moderated
      if verdict = .handled ∨ r.joinForbidden sv stanza then r
      else r.saveOccupant env.order
        ((verdict.apply (r.newOccupant sv env (Jid.bare stanza.sender)
          stanza.recipient)).setSession env.order stanza.sender stanza) := rfl

theorem prepare_empty (h : r.occupants = ∅) (sv : Server) (env : Env) (stanza : Presence)
    (membersOnly moderated : Bool) :
    (r.prepare sv env stanza membersOnly moderated).occupants = ∅ ∧
      (r.prepare sv env stanza membersOnly moderated).jidNick = r.jidNick ∧
      (r.prepare sv env stanza membersOnly moderated).jid = r.jid := by
  unfold prepare
  rw [setMembersOnly_empty h]
  dsimp only
  split
  · exact ⟨h, rfl, rfl⟩
  · obtain ⟨affiliations, affiliationData, heq⟩ := setAffiliation_empty
      (r := Room.setModerated { r with membersOnly := membersOnly } moderated) h sv env .service
      _ (some "owner") .keep
    rw [heq]
    exact ⟨h, rfl, rfl⟩

theorem Founded.housed {sv : Server} (h : Founded sv r) :
    r.Housed ∧ ∀ n o, r.occupants.get n = some o → ∃ stanza : Presence,
      o.bareJid = Jid.bare stanza.sender ∧ r.joinForbidden sv stanza = false := by
  cases h with
  | new jid membersOnly moderated =>
    exact ⟨housed_new jid membersOnly moderated, fun n o ho => by simp [Room.new] at ho⟩
  | created jid env stanza membersOnly moderated verdict =>
    rw [handleFirstPresence_eq]
    dsimp only
    obtain ⟨hocc, hidx, -⟩ := prepare_empty (r := Room.new jid false false) rfl sv env stanza
      membersOnly moderated
    generalize (Room.new jid false false).prepare sv env stanza membersOnly moderated = r
      at hocc hidx
    have hh : r.Housed := (housed_new jid false false).of_eq hocc hidx
    split
    · exact ⟨hh, fun n o ho => by simp [hocc] at ho⟩
    · rename_i hopen
      push Not at hopen
      have hown : (r.newOccupant sv env (Jid.bare stanza.sender) stanza.recipient).Own := by
        intro j pr hj
        simp [newOccupant, Occupant.new] at hj
      obtain ⟨hhoused, hcases⟩ := hh.saveSession env stanza
        (Verdict.apply_own hown verdict) (by simp [newOccupant, Occupant.new])
      refine ⟨hhoused, fun n o ho => ?_⟩
      rcases hcases n o ho with hold | ⟨-, hb⟩
      · simp [hocc] at hold
      · have hfree : r.joinForbidden sv stanza = false := by simpa using hopen.2
        exact ⟨stanza, hb, hfree⟩

end Room

end Prosody.Muc
