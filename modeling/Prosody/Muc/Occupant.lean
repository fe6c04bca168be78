import Prosody.Library.Table
import Prosody.Util.Jid

/-! # Occupants of a room

The objects of `occupant.lib.lua`. An occupant is known in the room by its nick and has one
session for each connected client of the user, whose last presence it keeps. -/

namespace Prosody.Muc

/-- A child element, by what the room looks at. -/
structure Tag where
  name : String
  xmlns : Option String
  deriving DecidableEq

structure Presence where
  type : Option String
  sender : String
  recipient : String
  tags : List Tag
  deriving DecidableEq

def mucNs : String := "http://jabber.org/protocol/muc"

def mucUserNs : String := "http://jabber.org/protocol/muc#user"

/-- `filter_muc_x`. -/
def Presence.filterMucX (pr : Presence) : Presence :=
  { pr with tags := pr.tags.filter fun t => t.xmlns ≠ some mucNs ∧ t.xmlns ≠ some mucUserNs }

/-- `stanza:get_child("x", "http://jabber.org/protocol/muc")` finds an element. -/
def Presence.hasMucX (pr : Presence) : Bool :=
  pr.tags.any fun t => t.name = "x" ∧ t.xmlns = some mucNs

inductive Role where
  | visitor
  | participant
  | moderator
  deriving DecidableEq

/-- `valid_roles`, where a missing role is `none`. -/
def roleRank : Option Role → Nat
  | none => 0
  | some .visitor => 1
  | some .participant => 2
  | some .moderator => 3

structure Occupant where
  bareJid : Option String
  nick : String
  sessions : Table String Presence
  role : Option Role
  jid : Option String
  deriving DecidableEq

namespace Occupant

/-- `new_occupant`. -/
def new (bareRealJid : Option String) (nick : String) : Occupant :=
  { bareJid := bareRealJid
    nick := nick
    sessions := ∅
    role := none
    jid := none }

/-- `copy_occupant`, which drops unavailable presences unless they are the primary session. -/
def copy (o : Occupant) : Occupant :=
  { o with sessions :=
      o.sessions.filter fun fullJid pr => pr.type ≠ some "unavailable" ∨ some fullJid = o.jid }

/-- The presence of a session is available. -/
def Live (o : Occupant) (j : String) : Prop :=
  ∃ pr, o.sessions.get j = some pr ∧ pr.type = none

instance (o : Occupant) (j : String) : Decidable (o.Live j) :=
  decidable_of_iff ((o.sessions.get j).any (fun pr => pr.type = none) = true) <| by
    simp [Live, Option.any_eq_true]

/-- The sessions that `each_session` comes across with an available presence. -/
def liveSessions (ord : KeyOrder String) (o : Occupant) : List String :=
  (ord.keys o.sessions.keys).filter fun j => o.Live j

def chooseNewPrimary (ord : KeyOrder String) (o : Occupant) : Option String :=
  (o.liveSessions ord).head?

def setSession (ord : KeyOrder String) (o : Occupant) (realJid : String) (stanza : Presence) :
    Occupant :=
  let pr := { stanza.filterMucX with sender := o.nick, recipient := realJid }
  let o' := { o with sessions := o.sessions.set realJid (some pr) }
  if o.jid = none ∨ (pr.type = some "unavailable" ∧ o.jid = some realJid) then
    { o' with jid := (o'.chooseNewPrimary ord).or (some realJid) }
  else o'

def removeSession (ord : KeyOrder String) (o : Occupant) (realJid : String) : Occupant :=
  let o' := { o with sessions := o.sessions.set realJid none }
  if o.jid = some realJid then { o' with jid := o'.chooseNewPrimary ord } else o'

/-! ## What the operations do to the fields -/

@[simp] theorem copy_nick (o : Occupant) : o.copy.nick = o.nick := rfl

@[simp] theorem copy_role (o : Occupant) : o.copy.role = o.role := rfl

variable (ord : KeyOrder String)

@[simp] theorem setSession_bareJid (o : Occupant) (j : String) (pr : Presence) :
    (o.setSession ord j pr).bareJid = o.bareJid := by
  simp only [setSession]
  split <;> rfl

@[simp] theorem setSession_nick (o : Occupant) (j : String) (pr : Presence) :
    (o.setSession ord j pr).nick = o.nick := by
  simp only [setSession]
  split <;> rfl

@[simp] theorem setSession_role (o : Occupant) (j : String) (pr : Presence) :
    (o.setSession ord j pr).role = o.role := by
  simp only [setSession]
  split <;> rfl

theorem setSession_setRole (o : Occupant) (role : Option Role) (j : String) (pr : Presence) :
    setSession ord { o with role := role } j pr = { o.setSession ord j pr with role := role } := by
  unfold setSession
  dsimp only
  split
  · rfl
  · rfl

@[simp] theorem removeSession_bareJid (o : Occupant) (j : String) :
    (o.removeSession ord j).bareJid = o.bareJid := by
  simp only [removeSession]
  split <;> rfl

@[simp] theorem removeSession_nick (o : Occupant) (j : String) :
    (o.removeSession ord j).nick = o.nick := by
  simp only [removeSession]
  split <;> rfl

@[simp] theorem removeSession_role (o : Occupant) (j : String) :
    (o.removeSession ord j).role = o.role := by
  simp only [removeSession]
  split <;> rfl

variable {o : Occupant} {pr : Presence} {j : String}

theorem copy_get : o.copy.sessions.get j = some pr ↔
      o.sessions.get j = some pr ∧ (pr.type ≠ some "unavailable" ∨ some j = o.jid) := by
  simp [copy, Table.get_filter, Option.filter_eq_some_iff]

theorem setSession_get (o : Occupant) (j k : String) (pr : Presence) :
    (o.setSession ord j pr).sessions.get k =
      if k = j then some { pr.filterMucX with sender := o.nick, recipient := j }
      else o.sessions.get k := by
  simp only [setSession]
  split <;> simp only [Table.get_set]

theorem removeSession_get (o : Occupant) (j k : String) :
    (o.removeSession ord j).sessions.get k = if k = j then none else o.sessions.get k := by
  simp only [removeSession]
  split <;> simp only [Table.get_set]

theorem setSession_live {k : String} :
    (o.setSession ord j pr).Live k ↔ if k = j then pr.type = none else o.Live k := by
  simp only [Live, setSession_get]
  split <;> simp [Presence.filterMucX]

theorem removeSession_live {k : String} : (o.removeSession ord j).Live k ↔ k ≠ j ∧ o.Live k := by
  simp only [Live, removeSession_get]
  split <;> simp_all

theorem copy_live : o.copy.Live j ↔ o.Live j := by
  constructor
  · rintro ⟨pr, hpr, ht⟩
    exact ⟨pr, (copy_get.mp hpr).1, ht⟩
  · rintro ⟨pr, hpr, ht⟩
    exact ⟨pr, copy_get.mpr ⟨hpr, by simp [ht]⟩, ht⟩

theorem mem_liveSessions : j ∈ o.liveSessions ord ↔ o.Live j := by
  rw [liveSessions, List.mem_filter, ord.mem_keys, Table.mem_keys, decide_eq_true_iff]
  constructor
  · exact fun h => h.2
  · rintro ⟨pr, hpr, ht⟩
    exact ⟨⟨pr, hpr⟩, pr, hpr, ht⟩

theorem liveSessions_eq_nil : o.liveSessions ord = [] ↔ ∀ j, ¬ o.Live j := by
  rw [List.eq_nil_iff_forall_not_mem]
  simp only [mem_liveSessions]

theorem chooseNewPrimary_live (h : o.chooseNewPrimary ord = some j) : o.Live j :=
  (mem_liveSessions ord).mp (List.mem_of_mem_head? h)

theorem chooseNewPrimary_isSome (h : o.Live j) :
    ∃ k, o.chooseNewPrimary ord = some k ∧ o.Live k := by
  have hmem : j ∈ o.liveSessions ord := (mem_liveSessions ord).mpr h
  cases hl : o.liveSessions ord with
  | nil =>
    rw [hl] at hmem
    exact absurd hmem List.not_mem_nil
  | cons k ks =>
    have hk : o.chooseNewPrimary ord = some k := by simp [chooseNewPrimary, hl]
    exact ⟨k, hk, chooseNewPrimary_live ord hk⟩

/-! ## Occupants that may be saved, and occupants as they are stored -/

/-- Every session belongs to the user of the occupant and carries its addresses. -/
structure Sound (o : Occupant) : Prop where
  bare : ∀ j pr, o.sessions.get j = some pr → Jid.bare j = o.bareJid
  type : ∀ j pr, o.sessions.get j = some pr → pr.type = none ∨ pr.type = some "unavailable"
  sender : ∀ j pr, o.sessions.get j = some pr → pr.sender = o.nick
  recipient : ∀ j pr, o.sessions.get j = some pr → pr.recipient = j

def PrimaryLive (o : Occupant) : Prop := ∃ j, o.jid = some j ∧ o.Live j

/-- An occupant that handlers are done with: as long as a session is available, the primary
session is. -/
structure Savable (o : Occupant) : Prop extends Sound o where
  primary : ∀ j, o.Live j → o.PrimaryLive

/-- An occupant in the room. -/
structure Present (o : Occupant) : Prop extends Sound o where
  live : ∀ j pr, o.sessions.get j = some pr → pr.type = none
  primary : o.PrimaryLive
  role : o.role ≠ none

theorem Present.savable (h : o.Present) : o.Savable :=
  ⟨h.toSound, fun _ _ => h.primary⟩

theorem Sound.of_sessions {o' : Occupant} (h : o.Sound) (hb : o'.bareJid = o.bareJid)
    (hn : o'.nick = o.nick)
    (hs : ∀ j pr, o'.sessions.get j = some pr → o.sessions.get j = some pr) : o'.Sound where
  bare j pr hj := by
    rw [hb]
    exact h.bare j pr (hs j pr hj)
  type j pr hj := h.type j pr (hs j pr hj)
  sender j pr hj := by
    rw [hn]
    exact h.sender j pr (hs j pr hj)
  recipient j pr hj := h.recipient j pr (hs j pr hj)

theorem Sound.copy (h : o.Sound) : o.copy.Sound :=
  h.of_sessions rfl rfl fun _ _ hj => (copy_get.mp hj).1

theorem PrimaryLive.copy (h : o.PrimaryLive) : o.copy.PrimaryLive := by
  obtain ⟨j, hj, hl⟩ := h
  exact ⟨j, hj, copy_live.mpr hl⟩

/-- Copying a savable occupant with an available session leaves only available sessions. -/
theorem Savable.copy_present (h : o.Savable) (hj : o.Live j)
    (hr : o.role ≠ none) : o.copy.Present := by
  obtain ⟨p, hp, hl⟩ := h.primary j hj
  refine ⟨h.toSound.copy, ?_, PrimaryLive.copy ⟨p, hp, hl⟩, hr⟩
  intro k pr hk
  obtain ⟨hk, hkeep⟩ := copy_get.mp hk
  rcases h.type k pr hk with ht | ht
  · exact ht
  · rcases hkeep with hkeep | hkeep
    · exact absurd ht hkeep
    · obtain ⟨pr', hpr', ht'⟩ := hl
      obtain rfl : k = p := by simpa [hp] using hkeep
      obtain rfl : pr' = pr := by simpa [hk] using hpr'.symm
      exact ht'

theorem Present.copy_eq (h : o.Present) : o.copy = o := by
  have hs : o.copy.sessions = o.sessions := by
    apply Table.ext
    intro j
    apply Option.ext
    intro pr
    rw [copy_get]
    constructor
    · exact fun hj => hj.1
    · intro hj
      exact ⟨hj, Or.inl (by simp [h.live j pr hj])⟩
  exact congrArg (fun s => { o with sessions := s }) hs

theorem sound_new (bareRealJid : Option String) (nick : String) (role : Option Role) :
    Sound { new bareRealJid nick with role := role } := by
  constructor <;> intro j pr hj <;> simp [new] at hj

theorem Sound.setSession (h : o.Sound)
    (hb : Jid.bare j = o.bareJid) (ht : pr.type = none ∨ pr.type = some "unavailable") :
    (o.setSession ord j pr).Sound := by
  constructor <;> intro k p hk <;> rw [setSession_get] at hk <;>
    by_cases hkj : k = j <;> simp only [hkj, if_true, if_false] at hk
  · rw [hkj, setSession_bareJid, hb]
  · rw [setSession_bareJid]
    exact h.bare k p hk
  · cases hk
    exact ht
  · exact h.type k p hk
  · cases hk
    rw [setSession_nick]
  · rw [setSession_nick]
    exact h.sender k p hk
  · cases hk
    rw [hkj]
  · exact h.recipient k p hk

theorem setSession_primary
    (ht : pr.type = none ∨ pr.type = some "unavailable") (h : o.PrimaryLive ∨ o.jid = none)
    {k : String} (hk : (o.setSession ord j pr).Live k) : (o.setSession ord j pr).PrimaryLive := by
  by_cases hc : o.jid = none ∨ (pr.type = some "unavailable" ∧ o.jid = some j)
  · -- the primary session is chosen anew
    obtain ⟨p, hp, -⟩ := chooseNewPrimary_isSome ord hk
    have hchosen : (o.setSession ord j pr).jid =
        ((o.setSession ord j pr).chooseNewPrimary ord).or (some j) := by
      simp only [setSession, Presence.filterMucX, hc, if_true]
      rfl
    exact ⟨p, by rw [hchosen, hp]; rfl, chooseNewPrimary_live ord hp⟩
  · have hjid : (o.setSession ord j pr).jid = o.jid := by
      simp only [setSession, Presence.filterMucX, hc, if_false]
    push Not at hc
    rcases h with ⟨p, hp, hl⟩ | hnone
    · refine ⟨p, hjid.trans hp, (setSession_live ord).mpr ?_⟩
      by_cases hpj : p = j
      · rw [if_pos hpj]
        exact ht.resolve_right fun hu => hc.2 hu (hpj ▸ hp)
      · rwa [if_neg hpj]
    · exact absurd hnone hc.1

theorem Sound.setSession_savable (hs : o.Sound) (h : o.PrimaryLive ∨ o.jid = none)
    (hb : Jid.bare j = o.bareJid)
    (ht : pr.type = none ∨ pr.type = some "unavailable") : (o.setSession ord j pr).Savable :=
  ⟨hs.setSession ord hb ht, fun _ hk => setSession_primary ord ht h hk⟩

/-- With an unavailable presence only the other sessions remain, which is what `removeSession`
makes of it. -/
theorem Savable.removeSession (h : o.Savable) : (o.removeSession ord j).Savable := by
  have hsub : ∀ k pr, (o.removeSession ord j).sessions.get k = some pr →
      o.sessions.get k = some pr := by
    intro k pr hk
    rw [removeSession_get] at hk
    by_cases hkj : k = j
    · simp [hkj] at hk
    · simpa [hkj] using hk
  refine ⟨h.toSound.of_sessions (removeSession_bareJid ord o j) (removeSession_nick ord o j) hsub,
    ?_⟩
  intro k hk
  obtain ⟨p, hp, hl⟩ := h.primary k ((removeSession_live ord).mp hk).2
  by_cases hpj : o.jid = some j
  · obtain ⟨q, hq, hlq⟩ := chooseNewPrimary_isSome ord hk
    refine ⟨q, ?_, hlq⟩
    simp only [Occupant.removeSession, hpj, if_true] at hq ⊢
    exact hq
  · refine ⟨p, ?_, (removeSession_live ord).mpr ⟨?_, hl⟩⟩
    · simp only [Occupant.removeSession, hpj, if_false]
      exact hp
    · rintro rfl
      exact hpj hp

theorem Savable.setRole (h : o.Savable) (role : Option Role) : Savable { o with role := role } :=
  ⟨⟨h.bare, h.type, h.sender, h.recipient⟩, h.primary⟩

end Occupant

end Prosody.Muc
