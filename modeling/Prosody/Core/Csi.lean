import Mathlib.Data.List.Forall2
import Prosody.Util.Queue
import Prosody.Xml.Stanza

/-! # Queueing for inactive clients (`plugins/mod_csi_simple.lua`) -/

namespace Prosody.Csi

open UtilQueue (Queue)
open Xml (Node Text)

/-! ## The pump -/

structure Pump where
  q : Queue Node
  flush : Bool

/-- The number that the queue leaves in the place of an item. -/
def zero : Node := .text ['0']

/-- The items of so many calls of `pop`, up to the one that returns nothing. -/
def drain : ℕ → Queue Node → List Node × Queue Node
  | 0, q => ([], q)
  | n + 1, q =>
    match UtilQueue.pop zero q with
    | (.item (some item), q') => ((item :: (drain n q').1), (drain n q').2)
    | (_, q') => ([], q')

namespace Pump

def new (size : ℕ) : Pump := ⟨UtilQueue.new size false, true⟩

def pause (p : Pump) : Pump := { p with flush := false }

/-- `q:flush`, with what is given to `output`. -/
def flushed (p : Pump) : List Node × Pump :=
  let drained := drain (p.q.items + 1) p.q
  (drained.1, { p with q := drained.2 })

def resume (p : Pump) : List Node × Pump := flushed { p with flush := true }

def push (p : Pump) (item : Node) : List Node × Pump :=
  match UtilQueue.push p.q item with
  | (.full, q) =>
    let r := flushed { p with q := q }
    (r.1 ++ [item], r.2)
  | (_, q) => if p.flush then flushed { p with q := q } else ([], { p with q := q })

def held (p : Pump) : List Node := (UtilQueue.itemsFrom p.q 0).filterMap Prod.snd

end Pump

/-! ## Sessions -/

inductive Activity
  | active
  | inactive
deriving DecidableEq

/-- What was given to `session.send`, with the answer of the importance hook. -/
structure Given where
  item : Node
  important : Bool

structure Session where
  bareJid : Text
  /-- The session has a user. -/
  username : Bool
  state : Option Activity
  pump : Option Pump
  /-- What the original `send` was given. -/
  passed : List Node
  given : List Given

def Session.new (bareJid : Text) (username : Bool) : Session :=
  ⟨bareJid, username, none, none, [], []⟩

def Session.held (s : Session) : List Node := (s.pump.map Pump.held).getD []

/-- A stanza that has no namespace of its own and is no `iq`. -/
def Delayable : Node → Prop
  | .text _ => False
  | .elem name attr _ => attr.get "xmlns".toList = none ∧ name ≠ "iq".toList

instance : DecidablePred Delayable
  | .text _ => .isFalse id
  | .elem name attr _ =>
    inferInstanceAs (Decidable (attr.get "xmlns".toList = none ∧ name ≠ "iq".toList))

def delay (bareJid stamp : Text) : Node :=
  .elem "delay".toList
    (((((∅ : Table Text Text).set "xmlns".toList (some "urn:xmpp:delay".toList)).set
      "from".toList (some bareJid)).set "stamp".toList (some stamp))) []

def addDirectChild (child : Node) : Node → Node
  | .text s => .text s
  | .elem name attr children => .elem name attr (children ++ [child])

/-- `session.send` once the session has a pump. -/
def sendVia (pump : Pump) (item : Node) (important : Bool) (stamp : Text) (s : Session) : Session :=
  if s.state = some .active ∨ important then
    let r := pump.flushed
    { s with pump := some r.2, passed := s.passed ++ r.1 ++ [item] }
  else
    let item := if Delayable item then addDirectChild (delay s.bareJid stamp) item else item
    let r := pump.push item
    { s with pump := some r.2, passed := s.passed ++ r.1 }

def send (item : Node) (important : Bool) (stamp : Text) (s : Session) : Session :=
  let s := { s with given := s.given ++ [Given.mk item important] }
  match s.pump with
  | none => { s with passed := s.passed ++ [item] }
  | some pump => sendVia pump item important stamp s

def clientInactive (queueSize : ℕ) (s : Session) : Session :=
  { s with pump := some (s.pump.getD (Pump.new queueSize)).pause }

def clientActive (s : Session) : Session :=
  match s.pump with
  | none => s
  | some pump => { s with pump := some pump.resume.2, passed := s.passed ++ pump.resume.1 }

inductive Input
  | indicate (activity : Activity)
  | send (item : Node) (important : Bool) (stamp : Text)

/-- Indications count if the session has a user. -/
def step (queueSize : ℕ) (s : Session) : Input → Session
  | .indicate .active =>
    if s.username then clientActive { s with state := some .active } else s
  | .indicate .inactive =>
    if s.username then clientInactive queueSize { s with state := some .inactive } else s
  | .send item important stamp => send item important stamp s

/-! ## Nothing is lost -/

/-- What a session has to pass on for what it is given: the same, with a delay if it is of a kind
that gains one in the queue. -/
def Gains (delayed : Node → Prop) (bareJid : Text) (g : Given) (item : Node) : Prop :=
  item = g.item ∨ g.important = false ∧ delayed g.item ∧
    ∃ stamp, item = addDirectChild (delay bareJid stamp) g.item

/-- Everything is passed on in order, but for a few unimportant items at the end that are held
while the client is not active. -/
structure Faithful (delayed : Node → Prop) (queueSize : ℕ) (s : Session) : Prop where
  complete : List.Forall₂ (Gains delayed s.bareJid) s.given (s.passed ++ s.held)
  held_le : s.held.length ≤ queueSize
  held_unimportant : ∀ g ∈ s.given.drop s.passed.length, g.important = false
  active_holds : s.state = some .active → s.held = []

/-! ## The queue -/

section Queues

variable {size : ℕ} {q : Queue Node} {item : Node} {xs : List Node}

/-- The queue holds the items, or cannot hold any. -/
def Keeps (size : ℕ) (q : Queue Node) (xs : List Node) : Prop :=
  UtilQueue.Holds size false q xs ∨ size = 0 ∧ q.size = 0 ∧ q.items = 0 ∧ q.allowWrapping = false ∧
    xs = []

theorem keeps_new (size : ℕ) : Keeps size (UtilQueue.new size false) [] := by
  obtain rfl | hpos := Nat.eq_zero_or_pos size
  · exact .inr ⟨rfl, rfl, rfl, rfl, rfl⟩
  · exact .inl (UtilQueue.holds_new false hpos)

theorem Keeps.items_eq (h : Keeps size q xs) : q.items = xs.length ∧ xs.length ≤ size := by
  obtain ⟨start, h⟩ | ⟨-, -, hitems, -, rfl⟩ := h
  · exact ⟨h.items_eq, h.items_eq ▸ h.items_le⟩
  · exact ⟨hitems, Nat.zero_le size⟩

theorem Keeps.held (h : Keeps size q xs) (flush : Bool) : Pump.held ⟨q, flush⟩ = xs := by
  unfold Pump.held
  obtain ⟨start, h⟩ | ⟨-, -, hitems, -, rfl⟩ := h
  · rw [h.itemsFrom_eq 0, List.drop_zero]
    refine List.ext_getElem? fun i => ?_
    simp [List.mapIdx_eq_zipIdx_map, List.filterMap_map]
  · rw [UtilQueue.itemsFrom, if_pos (Nat.le_of_eq hitems)]
    rfl

theorem Keeps.push (h : Keeps size q xs) (item : Node) :
    xs.length < size ∧
        (∃ q', UtilQueue.push q item = (.pushed, q') ∧ Keeps size q' (xs ++ [item])) ∨
      UtilQueue.push q item = (.full, q) := by
  obtain ⟨start, h⟩ | ⟨rfl, hsize, hitems, hwrap, rfl⟩ := h
  · obtain ⟨hreply, hholds⟩ := UtilQueue.push_simulates h item
    simp only [UtilQueue.listStep, Bool.false_eq_true, if_false] at hreply hholds
    split_ifs at hreply hholds with hroom
    · exact .inl ⟨hroom, _, Prod.ext hreply rfl, .inl hholds⟩
    · right
      have hfull : q.size ≤ q.items := by
        rw [h.size_eq, h.items_eq]
        exact not_lt.mp hroom
      simp [UtilQueue.push, hfull, h.wrap_eq]
  · right
    simp [UtilQueue.push, hsize, hitems, hwrap]

theorem Keeps.pop (h : Keeps size q (item :: xs)) :
    ∃ q', UtilQueue.pop zero q = (.item (some item), q') ∧ Keeps size q' xs := by
  obtain ⟨start, h⟩ | ⟨-, -, -, -, hnil⟩ := h
  · obtain ⟨hreply, hholds⟩ := UtilQueue.pop_simulates h zero
    exact ⟨_, Prod.ext hreply rfl, .inl hholds⟩
  · exact absurd hnil (List.cons_ne_nil item xs)

theorem Keeps.drain (h : Keeps size q xs) {n : ℕ} (hn : xs.length < n) :
    (drain n q).1 = xs ∧ Keeps size (drain n q).2 [] := by
  induction xs generalizing n q with
  | nil =>
    obtain ⟨n, rfl⟩ := Nat.exists_eq_succ_of_ne_zero (Nat.ne_of_gt hn)
    have hpop : UtilQueue.pop zero q = (.item none, q) := if_pos h.items_eq.1
    rw [Csi.drain, hpop]
    exact ⟨rfl, h⟩
  | cons item xs ih =>
    obtain ⟨n, rfl⟩ := Nat.exists_eq_succ_of_ne_zero (Nat.ne_of_gt (Nat.zero_lt_of_lt hn))
    obtain ⟨q', hpop, hrest⟩ := h.pop
    obtain ⟨hdrained, hempty⟩ := ih hrest (Nat.lt_of_succ_lt_succ hn)
    rw [Csi.drain, hpop]
    exact ⟨congrArg (item :: ·) hdrained, hempty⟩

theorem Keeps.flushed {p : Pump} (h : Keeps size p.q xs) :
    p.flushed.1 = xs ∧ Keeps size p.flushed.2.q [] ∧ p.flushed.2.flush = p.flush := by
  have hlt : xs.length < p.q.items + 1 := Nat.lt_succ_of_le h.items_eq.1.ge
  obtain ⟨hdrained, hempty⟩ := h.drain hlt
  exact ⟨hdrained, hempty, rfl⟩

theorem Keeps.pushed {p : Pump} (h : Keeps size p.q xs) (hpaused : p.flush = false)
    (item : Node) :
    ∃ passed ys, (p.push item).1 = passed ∧ Keeps size (p.push item).2.q ys ∧
      (p.push item).2.flush = false ∧ passed ++ ys = xs ++ [item] := by
  unfold Pump.push
  obtain ⟨-, q', hpush, hkeeps⟩ | hpush := h.push item
  · rw [hpush]
    simp only [if_neg (Bool.eq_false_iff.mp hpaused)]
    exact ⟨[], xs ++ [item], rfl, hkeeps, hpaused, rfl⟩
  · rw [hpush]
    obtain ⟨hflushed, hempty, hsame⟩ := h.flushed (p := p)
    refine ⟨xs ++ [item], [], ?_, hempty, hsame.trans hpaused, List.append_nil _⟩
    exact congrArg (· ++ [item]) hflushed

end Queues

/-! ## Sessions -/

section Sessions

variable {delayed : Node → Prop} {size : ℕ} {s : Session} {xs : List Node} {item : Node}
  {important : Bool} {stamp : Text}

/-- The pump holds the items, and is open if and only if the client is active. -/
structure Holding (size : ℕ) (s : Session) (xs : List Node) : Prop where
  pump : ∀ p, s.pump = some p →
    Keeps size p.q xs ∧ (p.flush = true ↔ s.state = some .active)
  without : s.pump = none → xs = []
  active : s.state = some .active → xs = []

/-- What is passed on and what is held is what was given. -/
structure Inv (size : ℕ) (s : Session) (xs : List Node) : Prop extends Holding size s xs where
  complete : List.Forall₂ (Gains Delayable s.bareJid) s.given (s.passed ++ xs)
  unimportant : ∀ g ∈ s.given.drop s.passed.length, g.important = false

theorem Holding.held (h : Holding size s xs) : s.held = xs := by
  unfold Session.held
  cases hpump : s.pump with
  | none => exact (h.without hpump).symm
  | some p => exact (h.pump p hpump).1.held p.flush

theorem Inv.faithful (h : Inv size s xs) : Faithful Delayable size s := by
  have hheld := h.held
  refine ⟨hheld ▸ h.complete, ?_, h.unimportant, fun hactive => hheld.trans (h.active hactive)⟩
  rw [hheld]
  cases hpump : s.pump with
  | none =>
    rw [h.without hpump]
    exact Nat.zero_le size
  | some p => exact (h.pump p hpump).1.items_eq.2

theorem inv_new (bareJid : Text) (username : Bool) : Inv size (Session.new bareJid username) [] :=
  ⟨⟨nofun, fun _ => rfl, nofun⟩, .nil, nofun⟩

theorem drop_length {passed : List Node} {given : List Given}
    (h : List.Forall₂ (Gains delayed s.bareJid) given passed) : given.drop passed.length = [] :=
  List.drop_eq_nil_of_le h.length_eq.le

theorem Inv.passAll (h : Inv size s xs) {s' : Session} (hholding : Holding size s' [])
    (hjid : s'.bareJid = s.bareJid) (hgiven : s'.given = s.given)
    (hpassed : s'.passed = s.passed ++ xs) : Inv size s' [] := by
  have hcomplete : List.Forall₂ (Gains Delayable s'.bareJid) s'.given s'.passed := by
    rw [hjid, hgiven, hpassed]
    exact h.complete
  refine ⟨hholding, by rwa [List.append_nil], ?_⟩
  rw [drop_length hcomplete]
  exact nofun

theorem Inv.clientActive (h : Inv size s xs) :
    ∃ ys, Inv size (clientActive { s with state := some .active }) ys := by
  unfold Csi.clientActive
  cases hpump : s.pump with
  | none =>
    have hnone := h.without hpump
    subst hnone
    exact ⟨[], ⟨⟨nofun, fun _ => rfl, fun _ => rfl⟩, h.complete, h.unimportant⟩⟩
  | some p =>
    obtain ⟨hkeeps, -⟩ := h.pump p hpump
    have hopen : Keeps size ({ p with flush := true } : Pump).q xs := hkeeps
    obtain ⟨hflushed, hempty, hflush⟩ := hopen.flushed
    refine ⟨[], h.passAll ⟨?_, nofun, fun _ => rfl⟩ rfl rfl (congrArg (s.passed ++ ·) hflushed)⟩
    intro p' hp'
    obtain rfl := Option.some.inj hp'
    exact ⟨hempty, fun _ => rfl, fun _ => hflush⟩

theorem Inv.clientInactive (h : Inv size s xs) :
    Inv size (clientInactive size { s with state := some .inactive }) xs := by
  refine ⟨⟨?_, nofun, nofun⟩, h.complete, h.unimportant⟩
  intro p hp
  obtain rfl := Option.some.inj hp
  refine ⟨?_, nofun, nofun⟩
  change Keeps size (s.pump.getD (Pump.new size)).q xs
  cases hpump : s.pump with
  | none =>
    rw [h.without hpump]
    exact keeps_new size
  | some p => exact (h.pump p hpump).1

theorem Inv.direct (h : Inv size s xs) {s' : Session} (hholding : Holding size s' [])
    (hjid : s'.bareJid = s.bareJid) (hgiven : s'.given = s.given ++ [Given.mk item important])
    (hpassed : s'.passed = s.passed ++ xs ++ [item]) : Inv size s' [] := by
  have hcomplete : List.Forall₂ (Gains Delayable s'.bareJid) s'.given s'.passed := by
    rw [hjid, hgiven, hpassed]
    exact List.rel_append h.complete (.cons (.inl rfl) .nil)
  refine ⟨hholding, by rwa [List.append_nil], ?_⟩
  rw [drop_length hcomplete]
  exact nofun

theorem Inv.queued (h : Inv size s xs) {s' : Session} {passed ys : List Node} {queued : Node}
    (hholding : Holding size s' ys) (hjid : s'.bareJid = s.bareJid)
    (hgiven : s'.given = s.given ++ [Given.mk item false])
    (hpassed : s'.passed = s.passed ++ passed) (hall : passed ++ ys = xs ++ [queued])
    (hgains : Gains Delayable s.bareJid ⟨item, false⟩ queued) : Inv size s' ys := by
  refine ⟨hholding, ?_, ?_⟩
  · rw [hjid, hgiven, hpassed, List.append_assoc, hall, ← List.append_assoc]
    exact List.rel_append h.complete (.cons hgains .nil)
  · intro g hg
    rw [hgiven, hpassed, List.length_append, ← List.drop_drop] at hg
    have hg := List.mem_of_mem_drop hg
    rw [List.drop_append] at hg
    obtain hg | hg := List.mem_append.mp hg
    · exact h.unimportant g hg
    · rw [List.mem_singleton.mp (List.mem_of_mem_drop hg)]

theorem Inv.sendVia (h : Inv size s xs) {p : Pump} (hpump : s.pump = some p) :
    ∃ ys, Inv size (sendVia p item important stamp
      { s with given := s.given ++ [Given.mk item important] }) ys := by
  obtain ⟨hkeeps, hflush⟩ := h.pump p hpump
  by_cases hdirect : s.state = some .active ∨ important = true
  · obtain ⟨hflushed, hempty, hsame⟩ := hkeeps.flushed
    rw [Csi.sendVia, if_pos hdirect]
    refine ⟨[], h.direct ⟨?_, fun _ => rfl, fun _ => rfl⟩ rfl rfl ?_⟩
    · intro p' hp'
      obtain rfl := Option.some.inj hp'
      rw [hsame]
      exact ⟨hempty, hflush⟩
    · exact congrArg (s.passed ++ · ++ [item]) hflushed
  · obtain ⟨hactive, himportant⟩ := not_or.mp hdirect
    have hpaused : p.flush = false := Bool.eq_false_iff.mpr fun hf => hactive (hflush.mp hf)
    obtain ⟨passed, ys, hpushed, hrest, hstill, hall⟩ := hkeeps.pushed hpaused
      (if Delayable item then addDirectChild (delay s.bareJid stamp) item else item)
    obtain rfl := Bool.eq_false_iff.mpr himportant
    rw [Csi.sendVia, if_neg hdirect]
    refine ⟨ys, h.queued ⟨?_, nofun, fun h' => absurd h' hactive⟩ rfl rfl
      (congrArg (s.passed ++ ·) hpushed) hall ?_⟩
    · intro p' hp'
      obtain rfl := Option.some.inj hp'
      refine ⟨hrest, fun hopen => ?_, fun h' => absurd h' hactive⟩
      exact absurd (hstill.symm.trans hopen) nofun
    · split_ifs with hdelayable
      · exact .inr ⟨rfl, hdelayable, stamp, rfl⟩
      · exact .inl rfl

theorem Inv.send (h : Inv size s xs) : ∃ ys, Inv size (send item important stamp s) ys := by
  unfold Csi.send
  cases hpump : s.pump with
  | none =>
    have hnone := h.without hpump
    refine ⟨[], h.direct ⟨nofun, fun _ => rfl, fun _ => rfl⟩ rfl rfl ?_⟩
    rw [hnone, List.append_nil]
  | some p =>
    have hsent := @Inv.sendVia size s xs item important stamp h p hpump
    rw [hpump] at hsent
    exact hsent

theorem inv_step (s : Session) (a : Input) (h : ∃ xs, Inv size s xs) :
    ∃ ys, Inv size (step size s a) ys := by
  obtain ⟨xs, h⟩ := h
  cases a with
  | indicate activity =>
    cases activity with
    | active =>
      simp only [step]
      split_ifs
      · exact h.clientActive
      · exact ⟨xs, h⟩
    | inactive =>
      simp only [step]
      split_ifs
      · exact ⟨xs, h.clientInactive⟩
      · exact ⟨xs, h⟩
  | send item important stamp => exact h.send

/-- The client gets everything in order, but for what is held while it is not active. -/
theorem faithful_always (queueSize : ℕ) (bareJid : Text) (username : Bool) (inputs : List Input) :
    Machine.Always (step queueSize) (Faithful Delayable queueSize)
      (Session.new bareJid username) inputs :=
  (Machine.always_of_invariant inv_step ⟨[], inv_new bareJid username⟩ inputs).mono
    fun _ h => h.choose_spec.faithful

def IsMessageOrPresence : Node → Prop
  | .text _ => False
  | .elem name _ _ => name = "message".toList ∨ name = "presence".toList

/-- A stanza of another kind, which is not important to an inactive client. -/
def others : List Input :=
  [.indicate .inactive, .send (.elem "other".toList ∅ []) false "now".toList, .indicate .active]

theorem other_gains_a_delay :
    ¬ Machine.Always (step 256) (Faithful IsMessageOrPresence 256)
      (Session.new "user@host".toList true) others := by
  intro h
  have hfaithful := Machine.always_iff.mp h others List.prefix_rfl
  have hcomplete := hfaithful.complete
  rw [hfaithful.active_holds rfl, List.append_nil] at hcomplete
  change List.Forall₂ (Gains IsMessageOrPresence "user@host".toList)
    [⟨.elem "other".toList ∅ [], false⟩]
    [.elem "other".toList ∅ [delay "user@host".toList "now".toList]] at hcomplete
  obtain ⟨hgains, -⟩ := List.forall₂_cons.mp hcomplete
  obtain hsame | ⟨-, hkind, -⟩ := hgains
  · cases hsame
  · obtain hmessage | hpresence := hkind
    · exact absurd hmessage (by decide)
    · exact absurd hpresence (by decide)

end Sessions

end Prosody.Csi
