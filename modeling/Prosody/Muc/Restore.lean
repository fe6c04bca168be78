import Prosody.Library.Lists
import Prosody.Muc.Movement

/-! # Restoring a frozen room

The live state of a room is frozen into one table, with an entry for each occupant and one for
each session, and put together again in whatever order the entries come up. -/

namespace Prosody.Muc

namespace Room

/-! ## What is frozen -/

variable {k : String} {state : Table String Saved}

variable {o : Occupant}

theorem freezeOccupant_get {ord : KeyOrder String} {nick : String} :
    (freezeOccupant ord state nick o).get k =
      if (o.sessions.get k).isSome then (o.sessions.get k).map .presence
      else if k = nick then some (.occupant o.bareJid o.role o.jid) else state.get k := by
  have hmem : k ∈ ord.keys o.sessions.keys ↔ (o.sessions.get k).isSome := by
    rw [ord.mem_keys, Table.mem_keys, Option.isSome_iff_exists]
  simp only [freezeOccupant, Table.get_setEach, Table.get_set, hmem]

/-- Where an entry of the frozen state comes from. -/
def Origin (r : Room) (k : String) : Saved → Prop
  | .occupant bareJid role jid =>
    ∃ o, r.occupants.get k = some o ∧ o.bareJid = bareJid ∧ o.role = role ∧ o.jid = jid
  | .presence pr => ∃ n o, r.occupants.get n = some o ∧ o.sessions.get k = some pr

/-- What freezing relies on: the two tables agree, the clients are outside the room, and nicks
are addresses in the room, if they are addresses at all. -/
structure Storable (r : Room) : Prop extends Whole r where
  room : Jid.bare r.jid = some r.jid
  outside : ∀ n o, r.occupants.get n = some o → ∃ b, o.bareJid = some b ∧ b ≠ r.jid
  nicks : ∀ n o, r.occupants.get n = some o → r.addressed n ∨ Jid.split n = none

variable {r : Room}

theorem Consistent.storable (h : r.Consistent) : r.Storable :=
  { h.whole with
    room := h.room
    outside := h.outside
    nicks := fun n o ho => Or.inl (h.addressed n o ho) }

variable {pr : Presence} {j : String}

theorem Storable.nick_ne_session (h : r.Storable) {n m : String} {o' : Occupant}
    (ho : r.occupants.get n = some o) (hj : o.sessions.get j = some pr)
    (ho' : r.occupants.get m = some o') : j ≠ m := by
  rintro rfl
  obtain ⟨b, hb, hne⟩ := h.outside n o ho
  have hbare := (h.present n o ho).bare j pr hj
  rw [hb] at hbare
  rcases h.nicks j o' ho' with haddr | hnone
  · obtain ⟨parts, hs, -, hroom⟩ := addressed_iff.mp haddr
    rw [Jid.bare, hs, Option.map_some, hroom] at hbare
    exact hne (Option.some.inj hbare).symm
  · rw [Jid.bare, hnone] at hbare
    cases hbare

theorem Storable.session_unique (h : r.Storable) {n m : String}
    {o' : Occupant} {pr' : Presence} (ho : r.occupants.get n = some o)
    (hj : o.sessions.get j = some pr) (ho' : r.occupants.get m = some o')
    (hj' : o'.sessions.get j = some pr') : n = m := by
  have hn := (h.index j n).mpr ⟨o, ho, pr, hj, (h.present n o ho).live j pr hj⟩
  have hm := (h.index j m).mpr ⟨o', ho', pr', hj', (h.present m o' ho').live j pr' hj'⟩
  rw [hn] at hm
  exact Option.some.inj hm

/-- The loop of `freeze`, once the occupants of `nicks` are in. -/
structure Frozen.Upto (r : Room) (nicks : String → Prop) (state : Table String Saved) : Prop where
  origin : ∀ k data, state.get k = some data → r.Origin k data
  session : ∀ n o j pr, nicks n → r.occupants.get n = some o → o.sessions.get j = some pr →
    state.get j = some (.presence pr)
  occupant : ∀ n o, nicks n → r.occupants.get n = some o →
    state.get n = some (.occupant o.bareJid o.role o.jid)

theorem Frozen.Upto.step (h : r.Storable) {nicks : String → Prop}
    (hs : Frozen.Upto r nicks state) (ord : KeyOrder String) (n : String) :
    Frozen.Upto r (fun m => nicks m ∨ m = n) (r.freezeNick ord state n) := by
  unfold Room.freezeNick
  rw [h.toWhole.getOccupantByNick]
  cases ho : r.occupants.get n with
  | none =>
    refine ⟨hs.origin, ?_, ?_⟩
    · rintro m o j pr (hm | rfl) hget hj
      · exact hs.session m o j pr hm hget hj
      · rw [ho] at hget
        cases hget
    · rintro m o (hm | rfl) hget
      · exact hs.occupant m o hm hget
      · rw [ho] at hget
        cases hget
  | some o =>
    refine ⟨?_, ?_, ?_⟩
    · intro k data hk
      dsimp only at hk
      rw [freezeOccupant_get] at hk
      split at hk
      · obtain ⟨pr, hpr, rfl⟩ := Option.map_eq_some_iff.mp hk
        exact ⟨n, o, ho, hpr⟩
      · split at hk
        · rename_i hkn
          cases hk
          rw [hkn]
          exact ⟨o, ho, rfl, rfl, rfl⟩
        · exact hs.origin k data hk
    · intro m o' j pr hm hget hj
      dsimp only
      rw [freezeOccupant_get]
      by_cases hmn : m = n
      · subst hmn
        obtain rfl : o' = o := by simpa [ho] using hget.symm
        simp [hj]
      · have hnone : o.sessions.get j = none := by
          cases hj' : o.sessions.get j with
          | none => rfl
          | some pr' => exact absurd (h.session_unique hget hj ho hj') hmn
        have hne := h.nick_ne_session hget hj ho
        rw [hnone]
        simpa [hne] using hs.session m o' j pr (hm.resolve_right hmn) hget hj
    · intro m o' hm hget
      dsimp only
      have hnone : o.sessions.get m = none := by
        cases hj : o.sessions.get m with
        | none => rfl
        | some pr => exact absurd rfl (h.nick_ne_session ho hj hget)
      rw [freezeOccupant_get, hnone]
      by_cases hmn : m = n
      · subst hmn
        obtain rfl : o' = o := by simpa [ho] using hget.symm
        simp
      · simpa [hmn] using hs.occupant m o' (hm.resolve_right hmn) hget

theorem Storable.freezeState (h : r.Storable) (ord : KeyOrder String) :
    Frozen.Upto r (fun n => n ∈ ord.keys r.occupants.keys) (r.freezeState ord) := by
  unfold Room.freezeState
  refine Lists.foldl_through (P := Frozen.Upto r) (fun _ _ n hs => hs.step h ord n) _ ?_
  exact ⟨by simp, fun _ _ _ _ hf => hf.elim, fun _ _ hf => hf.elim⟩

/-! ## What is put together again -/

/-- Restoring takes the entry under this address for the presence of a client. -/
def Loose (roomJid jid : String) : Prop :=
  ∃ parts, Jid.split jid = some parts ∧ ¬ (parts.node = none ∧ underscored parts = true) ∧
    isNickOf roomJid parts = false

/-- Restoring takes the entry under this address for an occupant. -/
def NickKey (roomJid nick : String) : Prop :=
  ∃ parts, Jid.split nick = some parts ∧ ¬ (parts.node = none ∧ underscored parts = true) ∧
    isNickOf roomJid parts = true

/-- A frozen state as it is needed for restoring the room `roomJid`: presences are available
and of clients outside the room, and every occupant has a primary session. -/
structure Restorable (roomJid : String) (state : Table String Saved) : Prop where
  presence : ∀ j pr, state.get j = some (.presence pr) →
    pr.type = none ∧ ∀ parts, Jid.split j = some parts → isNickOf roomJid parts = false
  occupant : ∀ n b role p, state.get n = some (.occupant b role p) → p ≠ none

/-- The loop over the frozen state, once the entries under `keys` are in. -/
structure Restored (roomJid : String) (state : Table String Saved) (keys : String → Prop)
    (occupants : Table String Occupant) : Prop where
  nick : ∀ n o, occupants.get n = some o → o.nick = n
  session : ∀ n o j pr, occupants.get n = some o → o.sessions.get j = some pr →
    Loose roomJid j ∧ pr.type = none ∧ pr.sender = n ∧ pr.recipient = j ∧
      ∃ pr', state.get j = some (.presence pr') ∧ pr'.sender = n ∧
        pr = { pr'.filterMucX with sender := n, recipient := j }
  complete : ∀ j pr, keys j → Loose roomJid j → state.get j = some (.presence pr) →
    ∃ o, occupants.get pr.sender = some o ∧ (o.sessions.get j).isSome
  fields : ∀ n o, occupants.get n = some o → o.role ≠ none →
    state.get n = some (.occupant o.bareJid o.role o.jid)
  /-- An occupant whose entry was taken for one has the fields of the entry. -/
  entry : ∀ n b role p, keys n → NickKey roomJid n →
    state.get n = some (.occupant b role p) →
    ∃ o, occupants.get n = some o ∧ o.bareJid = b ∧ o.role = role ∧ o.jid = p
  named : ∀ n o, occupants.get n = some o → o.role ≠ none → NickKey roomJid n

variable {roomJid : String} {keys : String → Prop} {occupants : Table String Occupant}

theorem Restored.skip (h : Restored roomJid state keys occupants)
    (hk : ¬ Loose roomJid k ∨ ∀ pr, state.get k ≠ some (.presence pr))
    (hk' : ¬ NickKey roomJid k ∨ ∀ b role p, state.get k ≠ some (.occupant b role p)) :
    Restored roomJid state (fun j => keys j ∨ j = k) occupants := by
  refine ⟨h.nick, h.session, ?_, h.fields, ?_, h.named⟩
  · rintro j pr (hj | rfl) hl hpr
    · exact h.complete j pr hj hl hpr
    · rcases hk with hk | hk
      · exact absurd hl hk
      · exact absurd hpr (hk pr)
  · rintro n b role p (hn | rfl) hkey ho
    · exact h.entry n b role p hn hkey ho
    · rcases hk' with hk' | hk'
      · exact absurd hkey hk'
      · exact absurd ho (hk' b role p)

theorem Restored.occupant (h : Restored roomJid state keys occupants)
    {b : Option String} {role : Option Role} {p : Option String} (hkey : NickKey roomJid k)
    (hk : state.get k = some (.occupant b role p)) :
    Restored roomJid state (fun j => keys j ∨ j = k) (restoreOccupant occupants k b role p) := by
  -- the sessions that are there already are kept
  have hkept : ∀ n o, (restoreOccupant occupants k b role p).get n = some o →
      (n ≠ k ∧ occupants.get n = some o) ∨
      (n = k ∧ o.nick = k ∧ o.bareJid = b ∧ o.role = role ∧ o.jid = p ∧
        ∀ j pr, o.sessions.get j = some pr →
          ∃ o', occupants.get k = some o' ∧ o'.sessions.get j = some pr) := by
    intro n o ho
    rw [restoreOccupant, Table.get_set] at ho
    by_cases hn : n = k
    · rw [if_pos hn] at ho
      right
      cases hold : occupants.get k with
      | none =>
        rw [hold] at ho
        cases ho
        exact ⟨hn, rfl, rfl, rfl, rfl, by simp [Occupant.new]⟩
      | some o' =>
        rw [hold] at ho
        cases ho
        exact ⟨hn, h.nick k o' hold, rfl, rfl, rfl, fun j pr hj => ⟨o', rfl, hj⟩⟩
    · rw [if_neg hn] at ho
      exact Or.inl ⟨hn, ho⟩
  refine ⟨?_, ?_, ?_, ?_, ?_, ?_⟩
  · intro n o ho
    rcases hkept n o ho with ⟨-, ho⟩ | ⟨rfl, hn, -⟩
    · exact h.nick n o ho
    · exact hn
  · intro n o j pr ho hj
    rcases hkept n o ho with ⟨-, ho⟩ | ⟨rfl, -, -, -, -, hsess⟩
    · exact h.session n o j pr ho hj
    · obtain ⟨o', ho', hj'⟩ := hsess j pr hj
      exact h.session n o' j pr ho' hj'
  · rintro j pr (hj | rfl) hl hpr
    · obtain ⟨o, ho, hsome⟩ := h.complete j pr hj hl hpr
      by_cases hn : pr.sender = k
      · rw [hn] at ho ⊢
        exact ⟨{ o with bareJid := b, role := role, jid := p }, by simp [restoreOccupant, ho], hsome⟩
      · refine ⟨o, ?_, hsome⟩
        rw [restoreOccupant, Table.get_set_of_ne _ hn]
        exact ho
    · rw [hk] at hpr
      cases hpr
  · intro n o ho hr
    rcases hkept n o ho with ⟨-, ho⟩ | ⟨rfl, -, hb, hrole, hp, -⟩
    · exact h.fields n o ho hr
    · rw [hb, hrole, hp]
      exact hk
  · intro n b' role' p' hn hkey' hget
    by_cases heq : n = k
    · rw [heq, hk] at hget
      cases hget
      rw [heq, restoreOccupant, Table.get_set_self]
      exact ⟨_, rfl, rfl, rfl, rfl⟩
    · obtain ⟨o, ho, hfields⟩ := h.entry n b' role' p' (hn.resolve_right heq) hkey' hget
      exact ⟨o, by rw [restoreOccupant, Table.get_set_of_ne _ heq]; exact ho, hfields⟩
  · intro n o ho hr
    rcases hkept n o ho with ⟨-, ho⟩ | ⟨rfl, -⟩
    · exact h.named n o ho hr
    · exact hkey

section

variable {ord : KeyOrder String} {n : String} {o : Occupant}

theorem restoreSession_cases (ho : (restoreSession ord occupants k pr).get n = some o) :
    (n ≠ pr.sender ∧ occupants.get n = some o) ∨
      (n = pr.sender ∧ ∃ old, (occupants.get n = some old ∨ old = Occupant.new none n) ∧
        o = old.setSession ord k pr) := by
  rw [restoreSession, Table.get_set] at ho
  by_cases hn : n = pr.sender
  · rw [if_pos hn] at ho
    refine Or.inr ⟨hn, _, ?_, (Option.some.inj ho).symm⟩
    subst hn
    cases hold : occupants.get pr.sender with
    | none => exact Or.inr rfl
    | some old => exact Or.inl rfl
  · rw [if_neg hn] at ho
    exact Or.inl ⟨hn, ho⟩

theorem restoreSession_get_of_some (ho : occupants.get n = some o) :
    (restoreSession ord occupants k pr).get n =
      some (if n = pr.sender then o.setSession ord k pr else o) := by
  rw [restoreSession, Table.get_set]
  by_cases hn : n = pr.sender
  · rw [if_pos hn, if_pos hn, ← hn, ho, Option.getD_some]
  · rw [if_neg hn, if_neg hn, ho]

/-- An available presence leaves the primary session as it is. -/
theorem Occupant.setSession_jid (htype : pr.type = none) (hjid : o.jid ≠ none) :
    (o.setSession ord k pr).jid = o.jid := by
  simp [Occupant.setSession, hjid, Presence.filterMucX, htype]

theorem Restored.nick_of_old (h : Restored roomJid state keys occupants)
    (ho : occupants.get n = some o ∨ o = Occupant.new none n) : o.nick = n := by
  rcases ho with ho | rfl
  · exact h.nick n o ho
  · rfl

theorem Restored.session_presence (hstate : Restorable roomJid state)
    (h : Restored roomJid state keys occupants) (hl : Loose roomJid k)
    (hk : state.get k = some (.presence pr)) {j : String} {pr' : Presence}
    (ho : (restoreSession ord occupants k pr).get n = some o) (hj : o.sessions.get j = some pr') :
    Loose roomJid j ∧ pr'.type = none ∧ pr'.sender = n ∧ pr'.recipient = j ∧
      ∃ pr₀, state.get j = some (.presence pr₀) ∧ pr₀.sender = n ∧
        pr' = { pr₀.filterMucX with sender := n, recipient := j } := by
  rcases restoreSession_cases ho with ⟨-, ho⟩ | ⟨rfl, old, hold, rfl⟩
  · exact h.session n o j pr' ho hj
  · rw [Occupant.setSession_get] at hj
    by_cases hjk : j = k
    · have hnick : old.nick = pr.sender := h.nick_of_old hold
      rw [if_pos hjk] at hj
      cases hj
      subst hjk
      exact ⟨hl, (hstate.presence j pr hk).1, hnick, rfl, pr, hk, rfl, by rw [hnick]⟩
    · rw [if_neg hjk] at hj
      rcases hold with hold | rfl
      · exact h.session _ old j pr' hold hj
      · simp [Occupant.new] at hj

theorem Restored.complete_presence (h : Restored roomJid state keys occupants)
    (hk : state.get k = some (.presence pr)) {j : String} {pr' : Presence} (hj : keys j ∨ j = k)
    (hl : Loose roomJid j) (hpr' : state.get j = some (.presence pr')) :
    ∃ o, (restoreSession ord occupants k pr).get pr'.sender = some o ∧
      (o.sessions.get j).isSome := by
  rcases hj with hj | rfl
  · obtain ⟨o, ho, hsome⟩ := h.complete j pr' hj hl hpr'
    refine ⟨_, restoreSession_get_of_some ho, ?_⟩
    split
    · rw [Occupant.setSession_get]
      split
      · rfl
      · exact hsome
    · exact hsome
  · cases hk.symm.trans hpr'
    refine ⟨_, Table.get_set_self _ _ _, ?_⟩
    rw [Occupant.setSession_get, if_pos rfl]
    rfl

/-- A new occupant has no role. -/
theorem restoreSession_role (ho : (restoreSession ord occupants k pr).get n = some o)
    (hr : o.role ≠ none) : ∃ old, occupants.get n = some old ∧ old.role ≠ none ∧
      (o = old ∨ o = old.setSession ord k pr) := by
  rcases restoreSession_cases ho with ⟨-, ho⟩ | ⟨rfl, old, hold, rfl⟩
  · exact ⟨o, ho, hr, Or.inl rfl⟩
  · rw [Occupant.setSession_role] at hr
    rcases hold with hold | rfl
    · exact ⟨old, hold, hr, Or.inr rfl⟩
    · exact absurd rfl hr

end

theorem Restored.presence (hstate : Restorable roomJid state)
    (h : Restored roomJid state keys occupants) (ord : KeyOrder String)
    (hl : Loose roomJid k) (hk : state.get k = some (.presence pr)) :
    Restored roomJid state (fun j => keys j ∨ j = k) (restoreSession ord occupants k pr) := by
  have htype := (hstate.presence k pr hk).1
  refine ⟨?_, fun n o j pr' => h.session_presence hstate hl hk,
    fun j pr' => h.complete_presence hk, ?_, ?_, ?_⟩
  · intro n o ho
    rcases restoreSession_cases ho with ⟨-, ho⟩ | ⟨rfl, old, hold, rfl⟩
    · exact h.nick n o ho
    · rw [Occupant.setSession_nick]
      exact h.nick_of_old hold
  · intro n o ho hr
    obtain ⟨old, hold, hrole, rfl | rfl⟩ := restoreSession_role ho hr
    · exact h.fields n o hold hr
    · have hf := h.fields n old hold hrole
      rw [Occupant.setSession_bareJid, Occupant.setSession_role,
        Occupant.setSession_jid htype (hstate.occupant _ _ _ _ hf)]
      exact hf
  · rintro n b role p (hn | rfl) hkey hget
    · obtain ⟨o, ho, rfl, rfl, rfl⟩ := h.entry n b role p hn hkey hget
      refine ⟨_, restoreSession_get_of_some ho, ?_⟩
      split
      · exact ⟨Occupant.setSession_bareJid .., Occupant.setSession_role ..,
          Occupant.setSession_jid htype (hstate.occupant n _ _ _ hget)⟩
      · exact ⟨rfl, rfl, rfl⟩
    · cases hk.symm.trans hget
  · intro n o ho hr
    obtain ⟨old, hold, hrole, -⟩ := restoreSession_role ho hr
    exact h.named n old hold hrole

theorem Restored.key (hstate : Restorable roomJid state)
    (h : Restored roomJid state keys occupants) (ord : KeyOrder String) (k : String) :
    Restored roomJid state (fun j => keys j ∨ j = k)
      (restoreKey ord roomJid state occupants k) := by
  unfold restoreKey
  cases hk : state.get k with
  | none => exact h.skip (Or.inr fun pr => by simp [hk]) (Or.inr fun b role p => by simp [hk])
  | some data =>
    dsimp only [restoreEntry]
    cases hs : Jid.split k with
    | none =>
      refine h.skip (Or.inl ?_) (Or.inl ?_)
      · rintro ⟨parts, hs', -⟩
        rw [hs] at hs'
        cases hs'
      · rintro ⟨parts, hs', -⟩
        rw [hs] at hs'
        cases hs'
    | some parts =>
      dsimp only
      split
      · rename_i hskip
        refine h.skip (Or.inl ?_) (Or.inl ?_)
        · rintro ⟨parts', hs', hkeep, -⟩
          rw [hs] at hs'
          cases hs'
          exact hkeep hskip
        · rintro ⟨parts', hs', hkeep, -⟩
          rw [hs] at hs'
          cases hs'
          exact hkeep hskip
      · rename_i hkeep
        cases data with
        | occupant b role p =>
          cases hnick : isNickOf roomJid parts with
          | true => exact h.occupant ⟨parts, hs, hkeep, hnick⟩ hk
          | false =>
            refine h.skip (Or.inr fun pr => by simp [hk]) (Or.inl ?_)
            rintro ⟨parts', hs', -, hnick'⟩
            rw [hs] at hs'
            cases hs'
            rw [hnick] at hnick'
            cases hnick'
        | presence pr =>
          have hnick := (hstate.presence k pr hk).2 parts hs
          rw [hnick]
          exact h.presence hstate ord ⟨parts, hs, hkeep, hnick⟩ hk

theorem restoreState_restored (hstate : Restorable roomJid state) (ord : KeyOrder String) :
    Restored roomJid state (fun k => k ∈ ord.keys state.keys) (restoreState ord roomJid state) := by
  unfold restoreState
  refine Lists.foldl_through (P := Restored roomJid state) (fun _ _ k h => h.key hstate ord k) _ ?_
  exact ⟨by simp, by simp, fun _ _ hf => hf.elim, by simp, fun _ _ _ _ hf => hf.elim, by simp⟩

/-! ## Restored rooms are consistent -/

theorem isNickOf_outside {b : String} {parts : Jid}
    (hroom : Jid.bare roomJid = some roomJid) (hs : Jid.split j = some parts)
    (hb : Jid.bare j = some b) (hne : b ≠ roomJid) : isNickOf roomJid parts = false := by
  obtain ⟨room, hr, -⟩ := Jid.split_bare hroom
  rw [Bool.eq_false_iff]
  intro hnick
  simp only [isNickOf, hr, Option.any_some, decide_eq_true_eq] at hnick
  obtain ⟨hhost, hnode, -⟩ := hnick
  have hbare : parts.bareParts = room.bareParts := by
    simp only [Jid.bareParts, hhost, hnode]
  apply hne
  rw [Jid.bare, hs, Option.map_some] at hb
  rw [Jid.bare, hr, Option.map_some] at hroom
  rw [← Option.some.inj hb, ← Option.some.inj hroom, hbare]

theorem Storable.restorable (h : r.Storable) (ord : KeyOrder String) :
    Restorable r.jid (r.freezeState ord) := by
  have hup := h.freezeState ord
  constructor
  · intro j pr hj
    obtain ⟨n, o, ho, hpr⟩ := hup.origin j _ hj
    refine ⟨(h.present n o ho).live j pr hpr, ?_⟩
    intro parts hs
    obtain ⟨b, hb, hne⟩ := h.outside n o ho
    have hbare := (h.present n o ho).bare j pr hpr
    exact isNickOf_outside h.room hs (hbare.trans hb) hne
  · intro n b role p hn
    obtain ⟨o, ho, -, -, rfl⟩ := hup.origin n _ hn
    obtain ⟨j, hj, -⟩ := (h.present n o ho).primary
    rw [hj]
    exact Option.some_ne_none j

/-- Clients of one user are restored alike. -/
theorem Loose.of_bare {b : String} (h : Loose roomJid j) (hj : Jid.bare j = some b)
    (hk : Jid.bare k = some b) (hroom : Jid.bare roomJid = some roomJid) (hne : b ≠ roomJid) :
    Loose roomJid k := by
  obtain ⟨parts, hs, hkeep, -⟩ := h
  obtain ⟨parts', hs', hb'⟩ := Jid.split_bare hj
  obtain ⟨partsk, hsk, hbk⟩ := Jid.split_bare hk
  rw [hs] at hs'
  cases hs'
  rw [hb'] at hbk
  obtain ⟨hnode, hhost, -⟩ := Jid.mk.inj (Option.some.inj hbk)
  refine ⟨partsk, hsk, ?_, isNickOf_outside hroom hsk hk hne⟩
  rintro ⟨hn, hu⟩
  apply hkeep
  rw [hnode, underscored, hhost]
  exact ⟨hn, hu⟩

theorem NickKey.addressed {nick : String} (h : NickKey r.jid nick)
    (hroom : Jid.bare r.jid = some r.jid) : r.addressed nick := by
  obtain ⟨parts, hs, -, hnick⟩ := h
  obtain ⟨room, hr, -⟩ := Jid.split_bare hroom
  simp only [isNickOf, hr, Option.any_some, decide_eq_true_eq] at hnick
  obtain ⟨hhost, hnode, hres⟩ := hnick
  have hbare : parts.bareParts = room.bareParts := by
    simp only [Jid.bareParts, hhost, hnode]
  refine addressed_iff.mpr ⟨parts, hs, hres, ?_⟩
  rw [Jid.bare, hr, Option.map_some] at hroom
  rw [hbare, Option.some.inj hroom]

/-- Once they have a role again, restored occupants are those of the frozen room. -/
theorem Storable.restored_admissible (h : r.Storable) (ord ord' : KeyOrder String) {n : String}
    (ho : (restoreState ord' r.jid (r.freezeState ord)).get n = some o) (hr : o.role ≠ none) :
    o.Savable ∧ r.addressed n ∧ ∃ b, o.bareJid = some b ∧ b ≠ r.jid := by
  have hup := h.freezeState ord
  have hres := restoreState_restored (h.restorable ord) ord'
  obtain ⟨o₂, ho₂, hbare, -, hjid⟩ := hup.origin n _ (hres.fields n o ho hr)
  obtain ⟨b, hb, hne⟩ := h.outside n o₂ ho₂
  have hpresent := h.present n o₂ ho₂
  -- a session of the restored occupant is one of the frozen one
  have hsession : ∀ j pr, o.sessions.get j = some pr → Jid.bare j = o₂.bareJid := by
    intro j pr hj
    obtain ⟨-, -, -, -, pr', hpr', hsender, -⟩ := hres.session n o j pr ho hj
    obtain ⟨m, o', ho', hpr''⟩ := hup.origin j _ hpr'
    have hm := (h.present m o' ho').sender j pr' hpr''
    rw [hsender, h.nick m o' ho'] at hm
    subst hm
    obtain rfl : o' = o₂ := by simpa [ho₂] using ho'.symm
    exact hpresent.bare j pr' hpr''
  refine ⟨⟨⟨?_, ?_, ?_, ?_⟩, ?_⟩, (hres.named n o ho hr).addressed h.room, b, hbare ▸ hb, hne⟩
  · intro j pr hj
    rw [hsession j pr hj, hbare]
  · intro j pr hj
    exact Or.inl (hres.session n o j pr ho hj).2.1
  · intro j pr hj
    rw [(hres.session n o j pr ho hj).2.2.1, hres.nick n o ho]
  · intro j pr hj
    exact (hres.session n o j pr ho hj).2.2.2.1
  · rintro j ⟨pr, hj, -⟩
    obtain ⟨p, hp, prp, hprp, htype⟩ := hpresent.primary
    have hloose : Loose r.jid p :=
      (hres.session n o j pr ho hj).1.of_bare ((hsession j pr hj).trans hb)
        ((hpresent.bare p prp hprp).trans hb) h.room hne
    have hmem : n ∈ ord.keys r.occupants.keys := by
      rw [ord.mem_keys, Table.mem_keys]
      exact ⟨o₂, ho₂⟩
    have hstate := hup.session n o₂ p prp hmem ho₂ hprp
    have hkey : p ∈ ord'.keys (r.freezeState ord).keys := by
      rw [ord'.mem_keys, Table.mem_keys]
      exact ⟨_, hstate⟩
    obtain ⟨o', ho', hsome⟩ := hres.complete p prp hkey hloose hstate
    rw [hpresent.sender p prp hprp, h.nick n o₂ ho₂, ho] at ho'
    cases ho'
    obtain ⟨pr', hpr'⟩ := Option.isSome_iff_exists.mp hsome
    exact ⟨p, by rw [← hjid, hp], pr', hpr', (hres.session n o p pr' ho hpr').2.1⟩

/-- The live state of a room may be restored together with any frozen configuration of it. -/
theorem Storable.restore {r' : Room} (h' : r'.Storable) (hjid : r.jid = r'.jid) (env : Env)
    (ord : KeyOrder String) (newFormat : Bool) :
    (restore env (r.freeze newFormat) (some (r'.freezeState ord))).Consistent := by
  have hres := restoreState_restored (h'.restorable ord) env.order
  have hadm : ∀ n o, (restoreState env.order r'.jid (r'.freezeState ord)).get n = some o →
      o.role ≠ none → o.Savable ∧ r'.addressed n ∧ ∃ b, o.bareJid = some b ∧ b ≠ r'.jid :=
    fun n o => h'.restored_admissible ord env.order
  rw [← hjid] at hres hadm
  have hroom : (restoreConfig (r.freeze newFormat)).Consistent :=
    (consistent_new (hjid ▸ h'.room) r.membersOnly r.moderated).of_eq rfl rfl rfl
  dsimp only [Room.restore]
  have hfrozen : (r.freeze newFormat).jid = r.jid := rfl
  rw [hfrozen]
  generalize restoreState env.order r.jid (r'.freezeState ord) = occupants at hres hadm ⊢
  generalize env.order.keys occupants.keys = nicks
  -- sessions that are saved already were frozen under the nick they have now
  have hgen : ∀ room : Room, room.Consistent → room.jid = r.jid →
      (∀ n o j, room.occupants.get n = some o → o.Live j →
        ∃ pr, (r'.freezeState ord).get j = some (.presence pr) ∧ pr.sender = n) →
      (nicks.foldl (saveRestored env.order occupants) room).Consistent := by
    induction nicks with
    | nil =>
      intro room hc _ _
      exact hc
    | cons n nicks ih =>
      intro room hc hj hfrom
      rw [List.foldl_cons]
      unfold saveRestored
      cases ho : occupants.get n with
      | none => exact ih room hc hj hfrom
      | some o =>
        have hn := hres.nick n o ho
        have hlive : ∀ j, o.Live j →
            ∃ pr, (r'.freezeState ord).get j = some (.presence pr) ∧ pr.sender = n := by
          rintro j ⟨pr, hpr, -⟩
          obtain ⟨-, -, -, -, pr', hpr', hsender, -⟩ := hres.session n o j pr ho hpr
          exact ⟨pr', hpr', hsender⟩
        have hsave : (room.saveOccupant env.order o).Consistent := by
          refine hc.saveAdmissible env.order fun hr => ?_
          obtain ⟨hsav, haddr, hout⟩ := hadm n o ho hr
          refine ⟨hsav, ?_, ?_, ?_⟩
          · rw [hn]
            simpa [Room.addressed, hj, hjid] using haddr
          · rw [hj]
            exact hout
          · intro j m hl hm
            obtain ⟨o', ho', hl'⟩ := (hc.index j m).mp hm
            obtain ⟨pr, hpr, hsm⟩ := hfrom m o' j ho' hl'
            obtain ⟨pr', hpr', hsn⟩ := hlive j hl
            rw [hpr] at hpr'
            cases hpr'
            rw [hn, ← hsn, ← hsm]
        refine ih _ hsave hj ?_
        intro m o' j ho' hl
        by_cases hm : m = o.nick
        · subst hm
          have hkeep : ¬ (o.role = none ∨ ∀ j, ¬ o.Live j) := by
            intro hgone
            rw [saveOccupant_get_gone _ _ _ hgone] at ho'
            cases ho'
          push Not at hkeep
          obtain ⟨hrole, j', hj'⟩ := hkeep
          rw [saveOccupant_get_live _ _ _ hrole hj'] at ho'
          cases ho'
          rw [hn]
          exact hlive j (Occupant.copy_live.mp hl)
        · rw [saveOccupant_get_of_ne _ _ _ hm] at ho'
          exact hfrom m o' j ho' hl
  refine hgen _ hroom rfl ?_
  intro n o j ho
  simp [restoreConfig, Room.new] at ho

theorem Consistent.restoreConfig (h : r.Consistent) (env : Env) (newFormat : Bool) :
    (Room.restore env (r.freeze newFormat) none).Consistent :=
  (consistent_new h.room r.membersOnly r.moderated).of_eq rfl rfl rfl

end Room

end Prosody.Muc
