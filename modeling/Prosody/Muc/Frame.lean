import Prosody.Muc.Movement
import Prosody.Muc.Reserved

/-! # Presences move their senders only

Where registered nicks are enforced, a newcomer is put under the own registered nick after the
occupant for the nick that was asked for has been looked up. What is stored under either nick
is in danger. -/

namespace Prosody.Muc

namespace Room

variable {sv : Server} {env : Env} {r : Room} {stanza : Presence} {verdict : Verdict}

/-! ## Newcomers under another nick -/

/-- A client that is not in the room joins it, and nothing but a nick could stand in the
way. -/
structure Joins (sv : Server) (r : Room) (stanza : Presence) : Prop where
  type : stanza.type = none
  asks : stanza.hasMucX
  outside : r.getOccupantByRealJid stanza.sender = none
  allowed : r.joinForbidden sv stanza = false
  /-- What is stored under the nick belongs to the same user. -/
  own : ∀ o, r.occupants.get stanza.recipient = some o → o.bareJid = Jid.bare stanza.sender

theorem Joins.destination (h : r.Whole) (hj : r.Joins sv stanza) (env : Env) :
    (r.occupants.get stanza.recipient = none ∧ r.destination sv env stanza none =
      .enter (r.newOccupant sv env (Jid.bare stanza.sender) stanza.recipient) true) ∨
    ∃ o, r.occupants.get stanza.recipient = some o ∧
      r.destination sv env stanza none = .enter o false := by
  rcases h.destination_cases sv env stanza none with ⟨hu, -⟩ | ⟨o, hn, -⟩ | ⟨-, hd⟩
  · rw [hj.type] at hu
    cases hu
  · cases hn
  · exact hd

theorem no_conflict {o : Occupant} (hb : o.bareJid = Jid.bare stanza.sender) (isFirst : Bool) :
    nickConflict stanza (verdict.apply o) isFirst = false := by
  have hbare : Jid.bare stanza.sender = o.bareJid.bind Jid.bare := by
    rw [hb]
    cases hs : Jid.bare stanza.sender with
    | none => rfl
    | some b => exact (Jid.bare_bare hs).symm
  simp [nickConflict, hbare]

theorem Joins.saved (h : r.Whole) (hj : r.Joins sv stanza) (hv : verdict ≠ .handled)
    (env : Env) :
    ∃ dest : Occupant,
      r.handleNormalPresence sv env stanza verdict = r.saveOccupant env.order
        ((verdict.apply dest).setSession env.order stanza.sender stanza) ∧
      dest.nick = stanza.recipient ∧
      ((r.occupants.get stanza.recipient = none ∧
          dest = r.newOccupant sv env (Jid.bare stanza.sender) stanza.recipient) ∨
        r.occupants.get stanza.recipient = some dest) := by
  have hguard : ¬ (r.getOccupantByRealJid stanza.sender = none ∧ ¬ stanza.hasMucX ∧
      stanza.type = none) := fun hc => hc.2.1 hj.asks
  have hopen : ¬ (verdict = .handled ∨ r.joinForbidden sv stanza = true) := by
    rintro (heq | hforbidden)
    · exact hv heq
    · rw [hj.allowed] at hforbidden
      cases hforbidden
  rcases hj.destination h env with ⟨hget, hd⟩ | ⟨o, hget, hd⟩
  · refine ⟨r.newOccupant sv env (Jid.bare stanza.sender) stanza.recipient, ?_, rfl,
      Or.inl ⟨hget, rfl⟩⟩
    unfold Room.handleNormalPresence
    dsimp only
    rw [if_neg hguard, hj.outside, hd]
    dsimp only
    rw [if_neg hopen, no_conflict rfl, if_neg Bool.false_ne_true]
  · refine ⟨o, ?_, h.nick _ o hget, Or.inr hget⟩
    unfold Room.handleNormalPresence
    dsimp only
    rw [if_neg hguard, hj.outside, hd]
    dsimp only
    rw [if_neg hopen, no_conflict (hj.own o hget), if_neg Bool.false_ne_true]

theorem newOccupant_live (sv : Server) (env : Env) (b : Option String) (nick j : String)
    (verdict : Verdict) : ¬ (verdict.apply (r.newOccupant sv env b nick)).Live j := by
  rintro ⟨pr, hpr, -⟩
  rw [Verdict.apply_sessions] at hpr
  simp [newOccupant, Occupant.new] at hpr

/-- A newcomer who asks for a free nick leaves the tables in step, even where another occupant
is replaced. -/
theorem Joins.whole (h : r.Whole) (hj : r.Joins sv stanza)
    (hfree : r.occupants.get stanza.recipient = none) (env : Env) (verdict : Verdict) :
    (r.handleNormalPresence sv env stanza verdict).Whole := by
  by_cases hv : verdict = .handled
  · subst hv
    exact (h.handleNormalPresence sv env ⟨fun _ _ => rfl, fun hn => absurd rfl hn⟩
      (Or.inl hj.type)).1
  obtain ⟨dest, heq, -, hdest⟩ := hj.saved h hv env
  obtain rfl : dest = r.newOccupant sv env (Jid.bare stanza.sender) stanza.recipient := by
    rcases hdest with ⟨-, hnew⟩ | hget
    · exact hnew
    · rw [hfree] at hget
      cases hget
  rw [heq]
  refine h.saveOccupant env.order (fun _ => ?_) fun _ j n hl hn => ?_
  · rw [Verdict.apply_new]
    exact (Occupant.sound_new _ _ _).setSession_savable env.order (Or.inr rfl) rfl
      (Or.inl hj.type)
  · -- the only session is that of the newcomer, who is in no occupant yet
    rw [Occupant.setSession_live] at hl
    split at hl
    · rename_i hsender
      rw [hsender, h.getOccupantByRealJid_none hj.outside] at hn
      cases hn
    · exact absurd hl (newOccupant_live sv env _ stanza.recipient j verdict)

theorem Joins.disturbs (h : r.Whole) (hj : r.Joins sv stanza) (verdict : Verdict)
    (hv : verdict ≠ .handled)
    (hn : verdict.nick stanza.recipient ≠ stanza.recipient)
    (hocc : r.occupants.get stanza.recipient ≠ none ∨
      r.occupants.get (verdict.nick stanza.recipient) ≠ none) (env : Env) :
    ¬ r.Undisturbed stanza.sender (r.handleNormalPresence sv env stanza verdict) := by
  intro hframe
  obtain ⟨dest, heq, hnick, hdest⟩ := hj.saved h hv env
  rw [heq] at hframe
  have hnone := h.getOccupantByRealJid_none hj.outside
  -- somebody in the room is not the newcomer
  have hother : ∀ n o j, r.occupants.get n = some o → o.Live j →
      j ≠ stanza.sender ∧ r.jidNick.get j = some n := by
    intro n o j ho hl
    have hindex := (h.index j n).mpr ⟨o, ho, hl⟩
    refine ⟨?_, hindex⟩
    rintro rfl
    rw [hnone] at hindex
    cases hindex
  have hnick' : ((verdict.apply dest).setSession env.order stanza.sender stanza).nick =
      verdict.nick stanza.recipient := by
    rw [Occupant.setSession_nick, Verdict.apply_nick, hnick]
  rcases hdest with ⟨hfree, rfl⟩ | hget
  · -- the occupant under the new nick is replaced
    obtain ⟨o, ho⟩ := Option.ne_none_iff_exists'.mp (hocc.resolve_left (fun hc => hc hfree))
    obtain ⟨j, -, hl⟩ := (h.present _ o ho).primary
    obtain ⟨hne, hindex⟩ := hother _ o j ho hl
    have hdead : ¬ ((verdict.apply (r.newOccupant sv env (Jid.bare stanza.sender)
        stanza.recipient)).setSession env.order stanza.sender stanza).Live j := by
      rw [Occupant.setSession_live, if_neg hne]
      exact newOccupant_live sv env _ _ j verdict
    have hgone := saveOccupant_jidNick_other env.order r _ (Or.inr hdead)
    obtain ⟨pr, hpr, -⟩ := hl
    rw [hnick', ho, if_pos (by simp [hpr]), hframe j hne, hindex] at hgone
    cases hgone
  · -- the sessions under the nick that was asked for are taken along
    have hpresent := h.present _ dest hget
    obtain ⟨j, -, hl⟩ := hpresent.primary
    obtain ⟨hne, hindex⟩ := hother _ dest j hget hl
    have hlive : ((verdict.apply dest).setSession env.order stanza.sender stanza).Live j := by
      rw [Occupant.setSession_live, if_neg hne]
      obtain ⟨pr, hpr, ht⟩ := hl
      exact ⟨pr, by rw [Verdict.apply_sessions]; exact hpr, ht⟩
    have hrole : ((verdict.apply dest).setSession env.order stanza.sender stanza).role ≠ none := by
      rw [Occupant.setSession_role]
      cases verdict <;> exact hpresent.role
    have hmoved := saveOccupant_jidNick_live env.order r _ hrole hlive
    rw [hnick', hframe j hne, hindex] at hmoved
    exact hn (Option.some.inj hmoved).symm

theorem Whole.refused (h : r.Whole) (env : Env) (verdict : Verdict)
    (hout : r.getOccupantByRealJid stanza.sender = none) (hj : ¬ r.Joins sv stanza) :
    r.handlePresenceToOccupant sv env stanza verdict = r := by
  unfold Room.handlePresenceToOccupant
  split
  · rw [Room.handleKickable, hout]
  split
  swap
  · rfl
  rename_i ht
  unfold Room.handleNormalPresence
  dsimp only
  rw [hout]
  split
  · rfl
  rename_i hasks
  rcases h.destination_cases sv env stanza none with ⟨-, hd⟩ | ⟨o, hn, -⟩ | ⟨-, hd⟩
  · rw [hd]
  · cases hn
  · have htype : stanza.type = none := by
      refine ht.resolve_right fun hu => ?_
      simp [Room.destination, hu] at hd
    have hmucX : stanza.hasMucX := by
      by_contra hno
      exact hasks ⟨rfl, hno, htype⟩
    rcases hd with ⟨hget, hd⟩ | ⟨o, hget, hd⟩ <;> rw [hd] <;> dsimp only
    · split
      · rfl
      · rename_i hopen
        push Not at hopen
        exact absurd ⟨htype, hmucX, hout, by simpa using hopen.2, by simp [hget]⟩ hj
    · split
      · rfl
      · rename_i hopen
        push Not at hopen
        split
        · rfl
        · rename_i hc
          rw [Bool.not_eq_true] at hc
          have hb := h.housed.bare_of_noConflict (by simp) (fun _ => hget) hc
          rw [Verdict.apply_bareJid] at hb
          refine absurd ⟨htype, hmucX, hout, by simpa using hopen.2, ?_⟩ hj
          intro o' ho'
          rw [hget] at ho'
          rw [← Option.some.inj ho', hb]

/-- Without such a newcomer everybody else stays. -/
theorem Whole.undisturbed (h : r.Whole) (env : Env)
    (hchange : ∀ o, r.getOccupantByRealJid stanza.sender = some o →
      verdict.nick stanza.recipient = stanza.recipient)
    (hfree : r.Joins sv stanza → verdict ≠ .handled →
      verdict.nick stanza.recipient ≠ stanza.recipient →
      r.occupants.get stanza.recipient = none ∧
        r.occupants.get (verdict.nick stanza.recipient) = none) :
    (r.handlePresenceToOccupant sv env stanza verdict).Whole ∧
      r.Undisturbed stanza.sender (r.handlePresenceToOccupant sv env stanza verdict) := by
  by_cases hn : verdict.nick stanza.recipient = stanza.recipient
  · exact h.handlePresenceToOccupant sv env ⟨fun _ _ => hn, fun hne => absurd hn hne⟩
  have hout : r.getOccupantByRealJid stanza.sender = none := by
    cases ho : r.getOccupantByRealJid stanza.sender with
    | none => rfl
    | some o => exact absurd (hchange o ho) hn
  by_cases hsettled : r.occupants.get stanza.recipient = none ∧
      r.occupants.get (verdict.nick stanza.recipient) = none
  · exact h.handlePresenceToOccupant sv env ⟨hchange, fun _ => ⟨hsettled.2, hsettled.1⟩⟩
  have hv : verdict ≠ .handled := by
    rintro rfl
    exact hn rfl
  rw [h.refused env verdict hout fun hj => hsettled (hfree hj hv hn)]
  exact ⟨h, Undisturbed.refl r _⟩

end Room

namespace NickRoom

open Room (Undisturbed Whole Joins)

variable {sv : Server} {cfg : RegisterConfig} {env : Env} {s : NickRoom} {stanza : Presence}
  {others : Others} {ord : KeyOrder String} {dest : Occupant}

/-! ## What the policy decides -/

/-- The nick that a presence asks for is reserved for another user. -/
def ReservedByOther (ord : KeyOrder String) (s : NickRoom) (stanza : Presence) : Prop :=
  (Jid.resourceOf stanza.recipient).bind (s.getRegisteredJid ord) ≠ none ∧
    (Jid.resourceOf stanza.recipient).bind (s.getRegisteredJid ord) ≠ Jid.bare stanza.sender

theorem enforceNickPolicy_join (cfg : RegisterConfig) (ord : KeyOrder String)
    (haddr : s.room.addressed stanza.recipient)
    (hdest : dest.nick = stanza.recipient) :
    (s.ReservedByOther ord stanza ∧ s.enforceNickPolicy cfg ord stanza true dest = .handled) ∨
    (¬ s.ReservedByOther ord stanza ∧
      ((s.enforceNickPolicy cfg ord stanza true dest = .pass ∧
        (cfg.enforceNick → (Jid.bare stanza.sender).bind s.room.getRegisteredNick = none)) ∨
      ∃ nick, cfg.enforceNick ∧
        (Jid.bare stanza.sender).bind s.room.getRegisteredNick = some nick ∧
        s.enforceNickPolicy cfg ord stanza true dest = .rename (s.room.occupantJid nick))) := by
  unfold enforceNickPolicy
  dsimp only
  rw [hdest, Room.addressed_bare haddr]
  split
  · rename_i hres
    exact Or.inl ⟨hres, rfl⟩
  · rename_i hres
    refine Or.inr ⟨hres, ?_⟩
    split
    · rename_i henforce
      cases hown : (Jid.bare stanza.sender).bind s.room.getRegisteredNick with
      | none => exact Or.inl ⟨rfl, fun _ => rfl⟩
      | some nick => exact Or.inr ⟨nick, henforce, rfl, rfl⟩
    · rename_i henforce
      exact Or.inl ⟨rfl, fun hon => absurd hon henforce⟩

theorem enforceNickPolicy_change (nick : String) :
    (s.enforceNickPolicy cfg ord stanza false dest).nick nick = nick := by
  unfold enforceNickPolicy
  dsimp only
  repeat' first | rfl | split
  rename_i hjoins
  exact absurd hjoins Bool.false_ne_true

theorem consult_change (nick : String) :
    (s.consult cfg ord stanza false dest others).2.nick nick = nick := by
  cases others with
  | before => rfl
  | after => rfl
  | pass => exact enforceNickPolicy_change nick

theorem fireEvent_change {orig : Occupant}
    (ho : s.room.getOccupantByRealJid stanza.sender = some orig) (nick : String) :
    (s.fireEvent sv cfg env stanza others).2.nick nick = nick := by
  unfold fireEvent
  dsimp only
  rw [ho]
  cases hd : s.room.destination sv env stanza (some orig) with
  | leave =>
    change Room.Verdict.nick (if others = .pass then .pass else .handled) nick = nick
    split <;> rfl
  | update => exact consult_change nick
  | enter dest isFirst => exact consult_change nick

theorem fireEvent_join (cfg : RegisterConfig) (env : Env) (others : Others) (h : s.room.Whole)
    (hj : s.room.Joins sv stanza) :
    ∃ dest : Occupant, dest.nick = stanza.recipient ∧
      s.fireEvent sv cfg env stanza others = s.consult cfg env.order stanza true dest others := by
  unfold fireEvent
  dsimp only
  rw [hj.outside]
  rcases hj.destination h env with ⟨-, hd⟩ | ⟨o, hget, hd⟩
  · exact ⟨s.room.newOccupant sv env (Jid.bare stanza.sender) stanza.recipient, rfl, by rw [hd]⟩
  · exact ⟨o, h.nick _ o hget, by rw [hd]⟩

theorem room_handlePresenceToOccupant :
    (s.handlePresenceToOccupant sv cfg env stanza others).room =
      s.room.handlePresenceToOccupant sv env stanza
        (s.fireEvent sv cfg env stanza others).2 := by
  unfold handlePresenceToOccupant Room.handlePresenceToOccupant
  split
  · rfl
  · split
    · unfold handleNormalPresence
      split
      · rename_i hguard
        unfold Room.handleNormalPresence
        dsimp only
        rw [if_pos hguard]
      · rfl
    · rfl

/-! ## Newcomers who are put where somebody is -/

/-- A newcomer asks for another nick than the registered one, and there is an occupant under
one of the two: under the one that is asked for it is a session of the same user. -/
structure Displaces (sv : Server) (cfg : RegisterConfig) (ord : KeyOrder String) (s : NickRoom)
    (stanza : Presence) (others : Others) (nick : String) : Prop where
  joins : s.room.Joins sv stanza
  pass : others = .pass
  enforced : cfg.enforceNick
  asked : ¬ s.ReservedByOther ord stanza
  registered : (Jid.bare stanza.sender).bind s.room.getRegisteredNick = some nick
  other : s.room.occupantJid nick ≠ stanza.recipient
  taken : s.room.occupants.get stanza.recipient ≠ none ∨
    s.room.occupants.get (s.room.occupantJid nick) ≠ none

theorem frame_of_not_displaces (h : s.room.Whole)
    (haddr : s.room.addressed stanza.recipient)
    (hd : ∀ nick, ¬ Displaces sv cfg env.order s stanza others nick) :
    (s.handlePresenceToOccupant sv cfg env stanza others).room.Whole ∧
      s.room.Undisturbed stanza.sender
        (s.handlePresenceToOccupant sv cfg env stanza others).room := by
  rw [room_handlePresenceToOccupant]
  refine h.undisturbed env (fun o ho => fireEvent_change ho _) fun hj hv hn => ?_
  obtain ⟨dest, hdest, heq⟩ := fireEvent_join cfg env others h hj
  rw [heq] at hv hn ⊢
  cases others with
  | before => exact absurd rfl hv
  | after => exact absurd rfl hv
  | pass =>
    dsimp only [consult] at hv hn ⊢
    rcases enforceNickPolicy_join cfg env.order haddr hdest with
      ⟨-, hres⟩ | ⟨hasked, ⟨hpass, -⟩ | ⟨nick, henforced, hreg, hren⟩⟩
    · exact absurd hres hv
    · rw [hpass] at hn
      exact absurd rfl hn
    · rw [hren] at hn ⊢
      by_contra htaken
      refine hd nick ⟨hj, rfl, henforced, hasked, hreg, hn, ?_⟩
      by_contra hfree
      push Not at hfree
      exact htaken hfree

theorem Displaces.disturbs {nick : String} (h : s.room.Whole)
    (haddr : s.room.addressed stanza.recipient)
    (hd : Displaces sv cfg env.order s stanza others nick) :
    ¬ s.room.Undisturbed stanza.sender
      (s.handlePresenceToOccupant sv cfg env stanza others).room := by
  obtain ⟨hj, rfl, henforced, hasked, hreg, hother, htaken⟩ := hd
  obtain ⟨dest, hdest, heq⟩ := fireEvent_join cfg env .pass h hj
  have hverdict : (s.fireEvent sv cfg env stanza .pass).2 =
      .rename (s.room.occupantJid nick) := by
    rw [heq]
    dsimp only [consult]
    rcases enforceNickPolicy_join cfg env.order haddr hdest with
      ⟨hres, -⟩ | ⟨-, ⟨-, hnone⟩ | ⟨nick', -, hreg', hren⟩⟩
    · exact absurd hres hasked
    · rw [hnone henforced] at hreg
      cases hreg
    · rw [hreg] at hreg'
      rw [hren, Option.some.inj hreg']
  have hroom := hj.disturbs h (.rename (s.room.occupantJid nick)) nofun hother htaken env
  rw [room_handlePresenceToOccupant, hverdict]
  unfold Room.handlePresenceToOccupant
  rw [if_neg (by simp [hj.type]), if_pos (Or.inl hj.type)]
  exact hroom

/-! ## Runs -/

/-- A presence leaves everybody but its sender where they are. -/
def Frames (sv : Server) (cfg : RegisterConfig) (s : NickRoom) : Env × NickOp → Prop
  | (env, .presence stanza others) =>
    s.room.Undisturbed stanza.sender (s.step sv cfg (env, .presence stanza others)).room
  | _ => True

def DisplacesStep (sv : Server) (cfg : RegisterConfig) (s : NickRoom) : Env × NickOp → Prop
  | (env, .presence stanza others) =>
    s.room.addressed stanza.recipient ∧ ∃ nick, Displaces sv cfg env.order s stanza others nick
  | _ => False

/-- Every session of an occupant is one of the occupant's user. -/
def Unshared (s : NickRoom) : Prop :=
  ∀ n o j pr, s.room.occupants.get n = some o → o.sessions.get j = some pr →
    Jid.bare j = o.bareJid

theorem frames_iff (h : s.room.Whole) (input : Env × NickOp) :
    Frames sv cfg s input ↔ ¬ DisplacesStep sv cfg s input := by
  obtain ⟨env, op⟩ := input
  cases op with
  | presence stanza others =>
    dsimp only [Frames, DisplacesStep, NickRoom.step]
    split
    · rename_i haddr
      constructor
      · rintro hframe ⟨-, nick, hd⟩
        exact hd.disturbs h haddr hframe
      · intro hd
        exact (frame_of_not_displaces h haddr fun nick hn => hd ⟨haddr, nick, hn⟩).2
    · rename_i haddr
      exact iff_of_true (Undisturbed.refl _ _) fun hd => haddr hd.1
  | register sender query => exact iff_of_true trivial id
  | change operation => exact iff_of_true trivial id

theorem step_presence_room :
    (s.step sv cfg (env, .presence stanza others)).room =
      s.room.step sv (env, .presence stanza (s.fireEvent sv cfg env stanza others).2) := by
  dsimp only [NickRoom.step, Room.step]
  split
  · exact room_handlePresenceToOccupant
  · rfl

theorem handleRegisterIq_room {P : Room → Prop} (sender : String) (query : RegisterQuery)
    (hkick : ∀ r userJid nick, P r → P (r.kickOthers sv env userJid nick))
    (hset : ∀ (r : Room) actor jid affiliation data, P r →
      P (r.setAffiliation sv env actor jid affiliation data).1) (h : P s.room) :
    P (s.handleRegisterIq sv cfg env sender query).1.room := by
  have hsets : ∀ (s : NickRoom) actor jid affiliation data, P s.room →
      P (s.setAffiliation sv env actor jid affiliation data).1.room := by
    intro s actor jid affiliation data hs
    have hroom := hset s.room actor jid affiliation data hs
    unfold NickRoom.setAffiliation
    split
    · rename_i heq
      rwa [heq] at hroom
    · rename_i heq
      rwa [heq] at hroom
  unfold handleRegisterIq
  split
  · exact h
  · dsimp only
    split
    · exact h
    · split
      · exact h
      · split
        · exact h
        · exact hsets s _ _ _ _ h
        · exact h
        · split
          · exact h
          · -- the kicks, and then the registration
            unfold NickRoom.register
            split
            · exact h
            · dsimp only
              split
              · exact h
              · split
                · refine hsets _ _ _ _ _ ?_
                  split
                  · exact hkick _ _ _ h
                  · exact h
                · dsimp only
                  split
                  · exact hkick _ _ _ h
                  · exact h

theorem whole_kickOthers {r : Room} (h : r.Whole) (userJid nick : String) :
    (r.kickOthers sv env userJid nick).Whole := by
  unfold Room.kickOthers
  refine List.foldlRecOn _ _ h fun r hr n _ => ?_
  split
  · exact hr.setRole sv env .service n none
  · exact hr

theorem whole_step (h : s.room.Whole) (input : Env × NickOp)
    (hd : ¬ DisplacesStep sv cfg s input) : (s.step sv cfg input).room.Whole := by
  obtain ⟨env, op⟩ := input
  cases op with
  | presence stanza others =>
    dsimp only [NickRoom.step]
    split
    · rename_i haddr
      exact (frame_of_not_displaces h haddr fun nick hn => hd ⟨haddr, nick, hn⟩).1
    · exact h
  | register sender query =>
    exact handleRegisterIq_room sender query (fun r userJid nick hr => whole_kickOthers hr userJid nick)
      (fun r actor jid affiliation data hr => hr.setAffiliation sv env actor jid _ data) h
  | change operation =>
    refine h.step sv env fun stanza verdict heq => ?_
    have hplain := operation.plain
    rw [heq] at hplain
    exact hplain

theorem housed_step (h : s.room.Housed) (input : Env × NickOp) :
    (s.step sv cfg input).room.Housed := by
  obtain ⟨env, op⟩ := input
  cases op with
  | presence stanza others =>
    rw [step_presence_room]
    exact h.step sv env _
  | register sender query =>
    exact handleRegisterIq_room sender query
      (fun r userJid nick hr => (Room.kickOthers_spec hr sv env userJid nick).1)
      (fun r actor jid affiliation data hr => (hr.setAffiliation sv env actor jid _ data).1) h
  | change operation => exact h.step sv env _

theorem Opened.whole (h : Opened sv cfg s) : s.room.Whole := by
  cases h with
  | new jid membersOnly moderated => exact ⟨nofun, nofun, fun j n => ⟨nofun, nofun⟩⟩
  | created jid env stanza membersOnly moderated others ht =>
    have hnew : (Room.new jid false false).Whole := ⟨nofun, nofun, fun j n => ⟨nofun, nofun⟩⟩
    exact (hnew.handleFirstPresence sv env _ membersOnly moderated rfl ht).1.1

/-- In every run from a new room, and from a room as it was restored or left by other
operations: presences disturb nobody but their senders and occupants are not shared, exactly
if no newcomer is put where somebody is. -/
theorem presence_frame_iff (h : Opened sv cfg s ∨ Room.Reachable sv s.room)
    (inputs : List (Env × NickOp)) :
    Machine.Guarded (NickRoom.step sv cfg) (Frames sv cfg) s inputs ∧
        Machine.Always (NickRoom.step sv cfg) Unshared s inputs ↔
      Machine.Guarded (NickRoom.step sv cfg) (fun s input => ¬ DisplacesStep sv cfg s input) s
        inputs := by
  have hw : s.room.Whole := by
    rcases h with h | h
    · exact h.whole
    · exact h.consistent.whole
  have hown : Machine.Always (NickRoom.step sv cfg) Unshared s inputs := by
    refine (Machine.always_of_invariant (P := fun s : NickRoom => s.room.Housed)
      (fun s input hs => housed_step hs input) hw.housed inputs).mono fun s hs => ?_
    exact fun n o j pr ho hpr => hs.own n o ho j pr hpr
  rw [and_iff_left hown]
  exact Machine.guarded_congr (P := fun s : NickRoom => s.room.Whole)
    (fun s input _ hs hd => whole_step hs input hd) (fun s input _ hs => frames_iff hs input) hw

/-! ## Two clients of one user -/

def enforcedRegistration : RegisterConfig := { allowUnaffiliated := true, enforceNick := true }

/-- Romeo has registered a nick and joined with it. -/
def orchard : NickRoom :=
  Machine.run (NickRoom.step Room.plainServer enforcedRegistration)
    { room := Room.new "garden@verona" false false, reservedNicks := none }
    [(Room.ascending, .register "romeo@montague/orchard" (.form (some (some "bard")))),
      (Room.ascending, .presence (Room.joinAs "romeo@montague/orchard" "bard") .pass)]

/-- Romeo registers a nick and joins with it, Juliet joins, and Romeo leaves. -/
def visits : List (Env × NickOp) :=
  [(Room.ascending, .register "romeo@montague/orchard" (.form (some (some "bard")))),
    (Room.ascending, .presence (Room.joinAs "romeo@montague/orchard" "bard") .pass),
    (Room.ascending, .presence (Room.joinAs "juliet@capulet/balcony" "rose") .pass),
    (Room.ascending, .presence
      { Room.joinAs "romeo@montague/orchard" "bard" with type := some "unavailable" } .pass)]

/-- Nobody is put under another nick than the one that is asked for. -/
theorem presence_frame_orchard :
    Machine.Guarded (NickRoom.step Room.plainServer enforcedRegistration)
        (Frames Room.plainServer enforcedRegistration)
        { room := Room.new "garden@verona" false false, reservedNicks := none } visits ∧
      Machine.Always (NickRoom.step Room.plainServer enforcedRegistration) Unshared
        { room := Room.new "garden@verona" false false, reservedNicks := none } visits := by
  refine (presence_frame_iff (Or.inl (.new _ _ _)) visits).mpr ⟨id, ?_, ?_, ?_, trivial⟩
  · rintro ⟨-, nick, h⟩
    have hbard : (Jid.bare "romeo@montague/orchard").bind
        (Machine.run (NickRoom.step Room.plainServer enforcedRegistration)
          { room := Room.new "garden@verona" false false, reservedNicks := none }
          (visits.take 1)).room.getRegisteredNick = some "bard" := by
      decide +kernel
    obtain rfl := Option.some.inj (hbard.symm.trans h.registered)
    exact h.other (by decide +kernel)
  · rintro ⟨-, nick, h⟩
    have hnone : (Jid.bare "juliet@capulet/balcony").bind orchard.room.getRegisteredNick = none := by
      decide +kernel
    exact absurd (hnone.symm.trans h.registered) nofun
  · rintro ⟨-, nick, h⟩
    exact absurd h.joins.type nofun

/-- Another client of his joins under another nick, is given the registered one, and the first
client is in the room no longer. -/
theorem second_client_displaces :
    orchard.room.jidNick.get "romeo@montague/orchard" = some "garden@verona/bard" ∧
      (orchard.step Room.plainServer enforcedRegistration
        (Room.ascending, .presence (Room.joinAs "romeo@montague/street" "poet")
          .pass)).room.jidNick.get "romeo@montague/orchard" = none := by
  decide +kernel

end NickRoom

end Prosody.Muc
