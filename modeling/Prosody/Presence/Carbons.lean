import Mathlib.Data.String.Basic
import Prosody.Presence.TopResources

/-! # Messages to a user and their carbons

`plugins/mod_message.lua` decides which sessions of the user get a message, and
`plugins/mod_carbons.lua`, which runs first, foresees that decision by comparing priorities. Every
`session.send` succeeds. -/

namespace Prosody.Resources

open SessionManager (SessionId)

/-- The user's bare JID, or one of its full JIDs. -/
inductive Address where
  | bare
  | full (resource : String)
  deriving DecidableEq

structure Message where
  sender : String
  type : Option String
  body : Bool
  /-- `private` of carbons. -/
  isPrivate : Bool
  /-- The hint `no-copy`. -/
  noCopy : Bool
  /-- `x` of multi-user chat. -/
  mucUser : Bool
  deriving DecidableEq

/-- The session that a full JID belongs to. -/
def State.bound (s : State) : Address → Option SessionId
  | .bare => none
  | .full resource => s.user.bind fun user => user.sessions.get resource

/-! ## `mod_message` -/

inductive Delivery where
  | discarded
  | refused
  | delivered (recipients : List SessionId)
  /-- It is kept for later, or refused if that fails. -/
  | offline

def Delivery.recipients : Delivery → List SessionId
  | .delivered recipients => recipients
  | _ => []

def processToBare (ord : KeyOrder String) (s : State) (m : Message) (address : Address) :
    Delivery :=
  if m.type = some "error" then .discarded
  else if m.type = some "groupchat" then .refused
  else if m.type = some "headline" then
    match s.user with
    | none => .delivered []
    | some user =>
      if address = .bare then
        .delivered ((user.listed ord).filter fun id => (rank s.objects id).any (0 ≤ ·))
      else .delivered []
  else
    match s.user.bind User.topResources with
    | none => .offline
    | some recipients => .delivered recipients

/-- The handlers of `message/bare` and `message/full`. -/
def deliver (ord : KeyOrder String) (s : State) (m : Message) (address : Address) : Delivery :=
  match s.bound address with
  | some id => .delivered [id]
  | none => processToBare ord s m address

/-! ## `mod_carbons` -/

/-- Whether a client of the user sends the message, or the user is about to get it. -/
inductive Direction where
  | sent (origin : SessionId)
  | received (address : Address)

inductive CarbonKind where
  | sent
  | received
  deriving DecidableEq

def Direction.kind : Direction → CarbonKind
  | .sent _ => .sent
  | .received _ => .received

structure Carbon where
  recipient : SessionId
  sender : String
  type : String
  kind : CarbonKind
  copy : Message
  deriving DecidableEq

def Message.eligible (m : Message) : Bool :=
  let type := m.type.getD "normal"
  type = "chat" ∨ type = "normal" ∧ m.body

/-- The priority of the first of the top resources. -/
def User.topPriority (user : User) (objects : Table SessionId Session) : Option Int :=
  user.topResources.bind fun ids => ids.head?.bind fun id =>
    (objects.get id).bind Session.priority

def Direction.targetSession (s : State) : Direction → Option SessionId
  | .sent origin => some origin
  | .received address => s.bound address

/-- `top_priority`, where `none` stands for `false`. -/
def Direction.topPriority (s : State) (user : User) : Direction → Option (Option Int)
  | .sent _ => none
  | .received address =>
    match s.bound address with
    | some _ => none
    | none => some (user.topPriority s.objects)

/-- The sessions that the loop of `message_handler` sends a carbon to. -/
def getsCarbon (s : State) (user : User) (d : Direction) (id : SessionId) : Bool :=
  match s.objects.get id with
  | none => false
  | some session =>
    session.wantCarbons ∧ some id ≠ d.targetSession s ∧
      (d.kind = .sent ∨ some session.priority ≠ d.topPriority s user)

def messageHandler (ord : KeyOrder String) (s : State) (bareJid : String) (m : Message)
    (d : Direction) : List Carbon :=
  if ¬ m.eligible then []
  else
    match s.user with
    | none => []
    | some user =>
      if m.isPrivate then []
      else if m.noCopy then []
      else if d.kind ≠ .sent ∧ bareJid = m.sender ∧ m.mucUser then []
      else
        ((user.listed ord).filter (getsCarbon s user d)).map fun id =>
          { recipient := id
            sender := bareJid
            type := m.type.getD "normal"
            kind := d.kind
            copy := m }

/-! ## One copy for everybody -/

def State.Enabled (s : State) (id : SessionId) : Prop :=
  ∃ session, s.objects.get id = some session ∧ session.wantCarbons = true

def copies (carbons : List Carbon) (id : SessionId) : Nat :=
  (carbons.map Carbon.recipient).count id

/-- Who gets a message directly gets no carbon, and whoever else wants carbons gets one. The carbons
of a message to a bound resource go to nobody else. -/
structure Copied (ord : KeyOrder String) (s : State) (bareJid : String) (m : Message)
    (address : Address) : Prop where
  genuine : ∀ c ∈ messageHandler ord s bareJid m (.received address),
    c.kind = .received ∧ c.copy = m
  apart : ∀ id ∈ (deliver ord s m address).recipients,
    copies (messageHandler ord s bareJid m (.received address)) id = 0
  once : ∀ id, s.Enabled id → id ∉ (deliver ord s m address).recipients →
    copies (messageHandler ord s bareJid m (.received address)) id = 1
  exact : s.bound address ≠ none → ∀ id, ¬ s.Enabled id →
    copies (messageHandler ord s bareJid m (.received address)) id = 0

/-- The session is available with the given priority. -/
def State.PresentAt (s : State) (id : SessionId) (p : Int) : Prop :=
  ∃ session, s.objects.get id = some session ∧ session.presence = true ∧
    session.priority = some p

/-- The session that is addressed, or one of those with the highest priority. -/
def State.Receives (s : State) (address : Address) (id : SessionId) : Prop :=
  s.bound address = some id ∨
    s.bound address = none ∧ ∃ m, 0 ≤ m ∧ s.PresentAt id m ∧ ∀ id' p, s.PresentAt id' p → p ≤ m

/-- Each session that wants a carbon, and does not get the message itself, has sent presence, or else
the resource is bound or somebody is available with a non-negative priority. Unless nobody wants a
carbon, the message is not one of multi-user chat in the user's own name. -/
def CarbonsReach (s : State) (bareJid : String) (m : Message) (address : Address) : Prop :=
  ∀ id, s.Enabled id → ¬ s.Receives address id →
    ¬ (bareJid = m.sender ∧ m.mucUser = true) ∧
      (s.bound address ≠ none ∨ (∃ p, s.PresentAt id p) ∨ ∃ id' p, 0 ≤ p ∧ s.PresentAt id' p)

section

variable {s : State} {address : Address} {m : Message}

variable {user : User}

theorem State.Consistent.available_iff_presentAt (h : s.Consistent)
    (huser : s.user = some user) (id : SessionId) (p : Int) :
    s.Available user id p ↔ s.PresentAt id p := by
  constructor
  · rintro ⟨-, hsession⟩
    exact hsession
  · rintro ⟨session, hget, hsession⟩
    exact ⟨⟨_, h.listed user huser id session hget⟩, session, hget, hsession⟩

theorem Message.type_of_eligible (h : m.eligible = true) :
    m.type ≠ some "error" ∧ m.type ≠ some "groupchat" ∧ m.type ≠ some "headline" := by
  have htype : m.type.getD "normal" = "chat" ∨ m.type.getD "normal" = "normal" := by
    rcases of_decide_eq_true h with hchat | ⟨hnormal, -⟩
    · exact Or.inl hchat
    · exact Or.inr hnormal
  refine ⟨?_, ?_, ?_⟩
  all_goals
    intro heq
    rw [heq] at htype
    revert htype
    decide

/-- The top resources get what no bound resource gets. -/
theorem State.Consistent.mem_recipients (h : s.Consistent) (ord : KeyOrder String)
    (hm : m.eligible = true) (id : SessionId) :
    id ∈ (deliver ord s m address).recipients ↔ s.Receives address id := by
  unfold deliver State.Receives
  cases hbound : s.bound address with
  | some target => simp [Delivery.recipients, eq_comm]
  | none =>
    obtain ⟨herror, hgroupchat, hheadline⟩ := Message.type_of_eligible hm
    simp only [processToBare, if_neg herror, if_neg hgroupchat, if_neg hheadline]
    simp only [reduceCtorEq, false_or, true_and]
    cases huser : s.user with
    | none =>
      constructor
      · intro hid
        cases hid
      · rintro ⟨p, -, ⟨session, hget, -⟩, -⟩
        rw [h.absent huser id] at hget
        cases hget
    | some user =>
      have havailable := h.available_iff_presentAt huser
      rw [Option.bind_some]
      cases htop : user.topResources with
      | none =>
        constructor
        · intro hid
          cases hid
        · rintro ⟨p, hp, hid, -⟩
          have hlow := (h.fresh user huser).idle htop id p ((havailable id p).mpr hid)
          exact absurd hlow (not_lt.mpr hp)
      | some ids =>
        obtain ⟨-, p, hp, ⟨id', hid'⟩, hmax, hmem⟩ := (h.fresh user huser).top ids htop
        refine (hmem id).trans ?_
        constructor
        · intro hid
          refine ⟨p, hp, (havailable id p).mp hid, fun id'' q hq => ?_⟩
          exact hmax id'' q ((havailable id'' q).mpr hq)
        · rintro ⟨q, -, hid, hbest⟩
          have hle := hmax id q ((havailable id q).mpr hid)
          have hge := hbest id' p ((havailable id' p).mp hid')
          rw [le_antisymm hge hle]
          exact (havailable id q).mpr hid

theorem State.Consistent.topPriority_none (h : s.Consistent) (huser : s.user = some user) :
    user.topPriority s.objects = none ↔ ¬ ∃ id p, 0 ≤ p ∧ s.PresentAt id p := by
  have havailable := h.available_iff_presentAt huser
  unfold User.topPriority
  cases htop : user.topResources with
  | none =>
    refine iff_of_true rfl ?_
    rintro ⟨id, p, hp, hid⟩
    have hlow := (h.fresh user huser).idle htop id p ((havailable id p).mpr hid)
    exact absurd hlow (not_lt.mpr hp)
  | some ids =>
    obtain ⟨-, p, hp, ⟨id', hid'⟩, -, hmem⟩ := (h.fresh user huser).top ids htop
    have hne : ids ≠ [] := List.ne_nil_of_mem ((hmem id').mpr hid')
    obtain ⟨first, rest, rfl⟩ := List.exists_cons_of_ne_nil hne
    obtain ⟨session, hget, -, hpriority⟩ :=
      (havailable first p).mp ((hmem first).mp List.mem_cons_self)
    refine ⟨fun hnone => ?_, fun hno => absurd ⟨id', p, hp, (havailable id' p).mp hid'⟩ hno⟩
    simp [hget, hpriority] at hnone

/-- `mod_carbons` foresees which of the available sessions are top resources. -/
theorem State.Consistent.topPriority_eq (h : s.Consistent)
    (huser : s.user = some user) (hbound : s.bound address = none) {id : SessionId}
    {session : Session} (hget : s.objects.get id = some session) {p : Int}
    (hp : session.priority = some p) :
    user.topPriority s.objects = some p ↔ s.Receives address id := by
  have havailable := h.available_iff_presentAt huser
  have hpresent : session.presence = true := by rw [h.ordered id session hget, hp]; rfl
  have hat : ∀ q, s.PresentAt id q ↔ q = p := by
    intro q
    constructor
    · rintro ⟨session', hget', -, hq⟩
      rw [hget] at hget'
      obtain rfl := Option.some.inj hget'
      exact Option.some.inj (hq.symm.trans hp)
    · rintro rfl
      exact ⟨session, hget, hpresent, hp⟩
  unfold State.Receives User.topPriority
  simp only [hbound, reduceCtorEq, false_or, true_and, hat]
  cases htop : user.topResources with
  | none =>
    constructor
    · intro hno
      cases hno
    · rintro ⟨q, hq, hid, -⟩
      have hlow := (h.fresh user huser).idle htop id q
        ((havailable id q).mpr ((hat q).mpr hid))
      exact absurd hlow (not_lt.mpr hq)
  | some ids =>
    obtain ⟨-, best, hbest, ⟨id', hid'⟩, hmax, hmem⟩ := (h.fresh user huser).top ids htop
    have hne : ids ≠ [] := List.ne_nil_of_mem ((hmem id').mpr hid')
    obtain ⟨first, rest, rfl⟩ := List.exists_cons_of_ne_nil hne
    obtain ⟨session', hget', -, hpriority⟩ :=
      (havailable first best).mp ((hmem first).mp List.mem_cons_self)
    have hfirst : ((some (first :: rest)).bind fun ids => ids.head?.bind fun id =>
        (s.objects.get id).bind Session.priority) = some best := by
      simp [hget', hpriority]
    rw [hfirst, Option.some.injEq]
    constructor
    · rintro rfl
      exact ⟨best, hbest, rfl, fun id'' q hq => hmax id'' q ((havailable id'' q).mpr hq)⟩
    · rintro ⟨q, -, rfl, hle⟩
      refine le_antisymm (hle id' best ((havailable id' best).mp hid')) ?_
      exact hmax id q ((havailable id q).mpr ((hat q).mpr rfl))

/-- Whom the loop of `mod_carbons` picks. -/
theorem State.Consistent.getsCarbon_iff (h : s.Consistent)
    (huser : s.user = some user) (id : SessionId) :
    getsCarbon s user (.received address) id = true ↔ s.Enabled id ∧ ¬ s.Receives address id ∧
        (s.bound address ≠ none ∨ (∃ p, s.PresentAt id p) ∨ ∃ id' p, 0 ≤ p ∧ s.PresentAt id' p) := by
  unfold getsCarbon State.Enabled
  cases hget : s.objects.get id with
  | none => simp
  | some session =>
    simp only [Direction.targetSession, Direction.kind, Direction.topPriority, reduceCtorEq,
      false_or, decide_eq_true_eq, Option.some.injEq, exists_eq_left']
    refine and_congr_right fun _ => ?_
    cases hbound : s.bound address with
    | some target =>
      simp only [State.Receives, hbound, Option.some.injEq, reduceCtorEq, false_and, or_false]
      simp [eq_comm]
    | none =>
      simp only [reduceCtorEq, not_false_eq_true, true_and, Option.some.injEq, ne_eq,
        not_true_eq_false, false_or]
      cases hpriority : session.priority with
      | some p =>
        have hpresent : session.presence = true := by
          rw [h.ordered id session hget, hpriority]
          rfl
        rw [eq_comm, h.topPriority_eq huser hbound hget hpriority]
        have hat : ∃ p, s.PresentAt id p := ⟨p, session, hget, hpresent, hpriority⟩
        simp [hat]
      | none =>
        have hnot : ¬ ∃ p, s.PresentAt id p := by
          rintro ⟨p, session', hget', -, hp⟩
          rw [hget] at hget'
          obtain rfl := Option.some.inj hget'
          rw [hpriority] at hp
          cases hp
        have hreceives : ¬ s.Receives address id := by
          rintro (hown | ⟨-, p, -, hp, -⟩)
          · rw [hbound] at hown
            cases hown
          · exact hnot ⟨p, hp⟩
        rw [eq_comm, h.topPriority_none huser]
        simp [hnot, hreceives]

theorem count_filter_listed (h : s.Consistent) (huser : s.user = some user)
    (ord : KeyOrder String) (d : Direction) (id : SessionId) :
    ((user.listed ord).filter (getsCarbon s user d)).count id =
      if getsCarbon s user d id then 1 else 0 := by
  rw [((h.held.listed_nodup huser ord).filter _).count]
  refine if_congr (List.mem_filter.trans (and_iff_right_of_imp fun hgets => ?_)) rfl rfl
  unfold getsCarbon at hgets
  cases hget : s.objects.get id with
  | none => rw [hget] at hgets; cases hgets
  | some session => exact (State.mem_listed ord user id).mpr ⟨_, h.listed user huser id session hget⟩

theorem messageHandler_genuine (ord : KeyOrder String) (s : State) (bareJid : String) (m : Message)
    (address : Address) :
    ∀ c ∈ messageHandler ord s bareJid m (.received address),
      c.kind = .received ∧ c.copy = m := by
  intro c hc
  unfold messageHandler at hc
  split at hc
  · cases hc
  · split at hc
    · cases hc
    · split_ifs at hc
      · cases hc
      · cases hc
      · cases hc
      · obtain ⟨id, -, rfl⟩ := List.mem_map.mp hc
        exact ⟨rfl, rfl⟩

theorem messageHandler_own (ord : KeyOrder String) (s : State) {bareJid : String}
    (hown : bareJid = m.sender ∧ m.mucUser = true) (address : Address) :
    messageHandler ord s bareJid m (.received address) = [] := by
  unfold messageHandler
  split
  · rfl
  · split
    · rfl
    · have hkind : (Direction.received address).kind ≠ .sent := CarbonKind.noConfusion
      simp only [if_pos (And.intro hkind hown)]
      split
      · rfl
      · split <;> rfl

theorem State.Consistent.copies_eq (h : s.Consistent) (ord : KeyOrder String) {bareJid : String}
    (hm : m.eligible = true) (hprivate : m.isPrivate = false) (hnoCopy : m.noCopy = false)
    (hown : ¬ (bareJid = m.sender ∧ m.mucUser = true)) (huser : s.user = some user)
    (id : SessionId) : copies (messageHandler ord s bareJid m (.received address)) id =
      if getsCarbon s user (.received address) id then 1 else 0 := by
  have hskip : ¬ ((Direction.received address).kind ≠ .sent ∧ bareJid = m.sender ∧
      m.mucUser = true) := fun hskip => hown hskip.2
  unfold copies messageHandler
  simp only [hm, not_true_eq_false, if_false, huser, hprivate, hnoCopy, Bool.false_eq_true,
    if_neg hskip, List.map_map]
  rw [← count_filter_listed h huser ord]
  exact congrArg (List.count id) (List.map_id _)

end

/-- Everybody gets one copy of a message exactly if no session is missed for want of a priority. -/
theorem carbons_iff (ignorePriority : Bool) {ops : List (KeyOrder String × Op)} {s : State}
    (hrun : State.empty.run ignorePriority ops = some s) (ord : KeyOrder String)
    (bareJid : String) {m : Message} (hm : m.eligible = true) (hprivate : m.isPrivate = false)
    (hnoCopy : m.noCopy = false) (address : Address) :
    Copied ord s bareJid m address ↔ CarbonsReach s bareJid m address := by
  obtain ⟨s', hs', h⟩ := State.consistent_empty.run ignorePriority ops
  rw [hrun] at hs'
  obtain rfl := Option.some.inj hs'
  have hdirect : ∀ id, id ∈ (deliver ord s m address).recipients ↔ s.Receives address id :=
    h.mem_recipients ord hm
  cases huser : s.user with
  | none =>
    have hnobody : ∀ id, ¬ s.Enabled id := by
      rintro id ⟨session, hget, -⟩
      rw [h.absent huser id] at hget
      cases hget
    have hnil : messageHandler ord s bareJid m (.received address) = [] := by
      unfold messageHandler
      simp [huser]
    refine ⟨fun _ id hid => absurd hid (hnobody id), fun _ => ?_⟩
    exact ⟨messageHandler_genuine ord s bareJid m address, fun id _ => by rw [hnil]; rfl,
      fun id hid => absurd hid (hnobody id), fun _ id _ => by rw [hnil]; rfl⟩
  | some user =>
    constructor
    · intro hcopied id hid hmissed
      have honce := hcopied.once id hid (fun hin => hmissed ((hdirect id).mp hin))
      have hown : ¬ (bareJid = m.sender ∧ m.mucUser = true) := by
        intro hown
        rw [messageHandler_own ord s hown] at honce
        cases honce
      refine ⟨hown, ?_⟩
      rw [h.copies_eq ord hm hprivate hnoCopy hown huser] at honce
      have hgets : getsCarbon s user (.received address) id = true := by
        by_contra hno
        rw [if_neg hno] at honce
        cases honce
      exact ((h.getsCarbon_iff huser id).mp hgets).2.2
    · intro hreach
      by_cases hown : bareJid = m.sender ∧ m.mucUser = true
      · have hnil := messageHandler_own ord s hown address
        refine ⟨messageHandler_genuine ord s bareJid m address, fun id _ => by rw [hnil]; rfl,
          fun id hid hmissed => ?_, fun _ id _ => by rw [hnil]; rfl⟩
        exact absurd hown (hreach id hid fun hin => hmissed ((hdirect id).mpr hin)).1
      · have hcopies : ∀ id, copies (messageHandler ord s bareJid m (.received address)) id =
            if getsCarbon s user (.received address) id then 1 else 0 :=
          h.copies_eq ord hm hprivate hnoCopy hown huser
        refine ⟨messageHandler_genuine ord s bareJid m address, fun id hin => ?_,
          fun id hid hmissed => ?_, fun _ id hno => ?_⟩
        · rw [hcopies, if_neg]
          exact fun hgets => ((h.getsCarbon_iff huser id).mp hgets).2.1 ((hdirect id).mp hin)
        · have hnot : ¬ s.Receives address id := fun hin => hmissed ((hdirect id).mpr hin)
          rw [hcopies, if_pos]
          exact (h.getsCarbon_iff huser id).mpr ⟨hid, hnot, (hreach id hid hnot).2⟩
        · rw [hcopies, if_neg]
          exact fun hgets => hno ((h.getsCarbon_iff huser id).mp hgets).1

def wherefore : Message :=
  { sender := "romeo@montague.lit/orchard"
    type := some "chat"
    body := true
    isPrivate := false
    noCopy := false
    mucUser := false }

/-- A resource that enables carbons before it sends any presence. -/
def silentBalcony : List (KeyOrder String × Op) :=
  [(KeyOrder.inserted String, .bind 1 "balcony" .kickOld "" true),
    (KeyOrder.inserted String, .toggleCarbons 1 true)]

/-- Another resource of the user is available. -/
def chamber : List (KeyOrder String × Op) :=
  [(KeyOrder.inserted String, .bind 2 "chamber" .kickOld "" true),
    (KeyOrder.inserted String, .presence 2 true (some "5"))]

theorem carbons_chamber :
    ∃ s, State.empty.run false (silentBalcony ++ chamber) = some s ∧
      Copied (KeyOrder.inserted String) s "juliet@capulet.lit" wherefore .bare := by
  have hrun : State.empty.run false (silentBalcony ++ chamber) = some _ := rfl
  refine ⟨_, hrun, (carbons_iff false hrun _ _ (by decide) rfl rfl _).mpr ?_⟩
  exact fun id _ _ => ⟨by decide, Or.inr (Or.inr ⟨2, 5, by decide, _, rfl, rfl, rfl⟩)⟩

/-- Nobody gets the message itself, and the session without a priority is taken for one that does. -/
theorem silent_session_gets_no_carbon :
    ∃ s, State.empty.run false silentBalcony = some s ∧
      ¬ Copied (KeyOrder.inserted String) s "juliet@capulet.lit" wherefore .bare := by
  refine ⟨_, rfl, fun h => ?_⟩
  exact absurd (h.once 1 ⟨_, rfl, rfl⟩ (by decide)) (by decide)

end Prosody.Resources
