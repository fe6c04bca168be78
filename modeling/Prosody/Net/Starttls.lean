import Mathlib.Data.List.TakeWhile
import Prosody.Library.Runs
import Prosody.Net.ServerEpoll

/-! # The STARTTLS boundary

What is written before `starttls` leaves in the clear and what is written after it does not, as
long as nobody writes and nothing arrives while `starttls` waits for the write buffer. -/

namespace Prosody.ServerEpoll

variable {β : Type}

/-! ## Traces -/

namespace Event

/-- The bytes of a `write`. -/
def written : Event β → List β
  | write data => data
  | _ => []

def cleared : Event β → List β
  | sent false data => data
  | _ => []

def arrived : Event β → List β
  | received false data => data
  | _ => []

def isStarttls : Event β → Bool
  | starttls => true
  | _ => false

def isSent : Event β → Bool
  | sent _ _ => true
  | _ => false

end Event

/-- The bytes that are written before `starttls` is called. -/
def given (log : List (Event β)) : List β :=
  (log.takeWhile fun e => !e.isStarttls).flatMap Event.written

def cleared (log : List (Event β)) : List β :=
  log.flatMap Event.cleared

/-- The boundary: the bytes sent in the clear are bytes written before `starttls`, in order, and
all of them when the handshake starts, and no byte that was received in the clear after
`starttls` is passed on. -/
structure Boundary (log : List (Event β)) : Prop where
  sent : cleared log <+: given log
  handshake : ∀ pre post, log = pre ++ .handshake :: post → cleared pre = given log
  incoming : ∀ data, .incoming false true data ∈ log → data = []

/-- After these events `starttls` has been called, but sending in the clear goes on: the write
buffer has not been flushed, or `onwritable` has just called the listener's `onconnect` and is
about to send. -/
def Pending (pre : List (Event β)) : Prop :=
  .starttls ∈ pre ∧ .disconnect ∉ pre ∧
    (.prepared ∉ pre ∨ .connect true ∈ pre ∧ ∀ e ∈ pre, e.isSent = false)

/-- Nothing is written and nothing arrives while `starttls` is pending. -/
def Undisturbed (log : List (Event β)) : Prop :=
  ∀ pre e post, log = pre ++ e :: post → Pending pre → e.written = [] ∧ e.arrived = []

variable {log : List (Event β)} {e : Event β}

theorem given_append_of_mem (h : .starttls ∈ log) (es : List (Event β)) :
    given (log ++ es) = given log := by
  have hnot : ¬ ∀ x ∈ log, (!x.isStarttls) = true := fun hall => by
    simpa [Event.isStarttls] using hall _ h
  rw [given, given, List.takeWhile_append, if_neg]
  intro hlength
  have hall := List.takeWhile_eq_self_iff.mp
    ((List.takeWhile_prefix _).eq_of_length hlength)
  exact hnot hall

theorem given_append_of_notMem (h : .starttls ∉ log) (e : Event β) :
    given (log ++ [e]) = given log ++ e.written := by
  have hall : ∀ x ∈ log, (!x.isStarttls) = true := by
    intro x hx
    cases x with
    | starttls => exact absurd hx h
    | _ => rfl
  have hself : log.takeWhile (fun e => !e.isStarttls) = log := List.takeWhile_eq_self_iff.mpr hall
  rw [given, given, List.takeWhile_append_of_pos hall, hself, List.flatMap_append]
  cases e <;> simp [Event.isStarttls, Event.written]

theorem given_append (h : e.written = []) : given (log ++ [e]) = given log := by
  by_cases hmem : .starttls ∈ log
  · exact given_append_of_mem hmem [e]
  · rw [given_append_of_notMem hmem, h, List.append_nil]

theorem given_grows (log : List (Event β)) (e : Event β) : given log <+: given (log ++ [e]) := by
  by_cases hmem : .starttls ∈ log
  · rw [given_append_of_mem hmem]
  · rw [given_append_of_notMem hmem]
    exact List.prefix_append _ _

theorem cleared_append (log : List (Event β)) (e : Event β) :
    cleared (log ++ [e]) = cleared log ++ e.cleared := by
  simp [cleared]

theorem Undisturbed.of_append {es : List (Event β)} (h : Undisturbed (log ++ es)) :
    Undisturbed log := by
  intro pre e post hlog
  exact h pre e (post ++ es) (by rw [hlog, List.append_assoc, List.cons_append])

theorem Undisturbed.last (h : Undisturbed (log ++ [e])) (hpending : Pending log) :
    e.written = [] ∧ e.arrived = [] :=
  h log e [] rfl hpending

/-- An event at which the boundary stays, given that nothing is added to what is sent in the
clear. -/
theorem Boundary.append (h : Boundary log) (hcalled : .handshake ∈ log → .starttls ∈ log)
    (hcleared : cleared (log ++ [e]) <+: given (log ++ [e]))
    (hhandshake : e = .handshake → cleared log = given (log ++ [e]))
    (hincoming : ∀ data, e = .incoming false true data → data = []) : Boundary (log ++ [e]) := by
  refine ⟨hcleared, ?_, ?_⟩
  · intro pre post hsplit
    rcases List.eq_nil_or_concat post with rfl | ⟨post, last, rfl⟩
    · obtain ⟨rfl, hlast⟩ := List.append_inj' hsplit rfl
      exact hhandshake (List.cons.inj hlast).1
    · have hsplit' : log ++ [e] = (pre ++ .handshake :: post) ++ [last] := by
        rw [hsplit, List.concat_eq_append, List.append_assoc, List.cons_append]
      obtain ⟨hlog, -⟩ := List.append_inj' hsplit' rfl
      have hmem : .handshake ∈ log := by
        rw [hlog]
        exact List.mem_append_right _ List.mem_cons_self
      rw [given_append_of_mem (hcalled hmem)]
      exact h.handshake pre post hlog
  · intro data hdata
    rcases List.mem_append.mp hdata with hold | hnew
    · exact h.incoming data hold
    · exact hincoming data (List.mem_singleton.mp hnew).symm

/-- Events that neither send in the clear nor pass anything on. -/
def Event.isQuiet : Event β → Bool
  | handshake | sent _ _ | incoming _ _ _ => false
  | _ => true

theorem Boundary.append_quiet (h : Boundary log) (hcalled : .handshake ∈ log → .starttls ∈ log)
    (hquiet : e.isQuiet = true) : Boundary (log ++ [e]) := by
  refine h.append hcalled ?_ ?_ ?_
  · have hnone : e.cleared = [] := by
      cases e <;> first | rfl | cases hquiet
    rw [cleared_append, hnone, List.append_nil]
    exact h.sent.trans (given_grows log e)
  · rintro rfl
    cases hquiet
  · rintro data rfl
    cases hquiet

/-! ## The invariant -/

/-- The part of an interface that the boundary depends on. -/
structure Core (β : Type) where
  writebuffer : List (List β)
  onreadable : Handler
  onwritable : Handler
  ondrain : Drain
  connected : Bool
  tls : Bool
  encrypted : Bool
  destroyed : Bool
  canStarttls : Bool
  log : List (Event β)

namespace Interface

def core (s : Interface β) : Core β where
  writebuffer := s.writebuffer
  onreadable := s.onreadable
  onwritable := s.onwritable
  ondrain := s.ondrain
  connected := s.connected
  tls := s.tls
  encrypted := s.encrypted
  destroyed := s.destroyed
  canStarttls := s.canStarttls
  log := s.log

end Interface

/-- In the clear the write buffer holds the rest of what was written before `starttls`. -/
structure Core.Clear (c : Core β) : Prop where
  tls : c.tls = false
  encrypted : c.encrypted = false
  onreadable : c.onreadable = .default
  onwritable : c.onwritable = .default
  fresh : .prepared ∉ c.log
  buffered : given c.log = cleared c.log ++ c.writebuffer.flatten

/-- The handshake is about to start. If `onwritable` is still about to send, then nothing. -/
structure Core.Prepared (c : Core β) : Prop where
  tls : c.tls = false
  encrypted : c.encrypted = false
  onreadable : c.onreadable = .tlshandshake
  onwritable : c.onwritable = .tlshandshake
  ondrain : c.ondrain ≠ .starttls
  called : .starttls ∈ c.log
  complete : cleared c.log = given c.log
  connecting : .connect true ∈ c.log → (∀ e ∈ c.log, e.isSent = false) →
    c.writebuffer.flatten = []

structure Core.Secure (c : Core β) : Prop where
  tls : c.tls = true
  encrypted : c.encrypted = true
  ondrain : c.ondrain ≠ .starttls
  called : .starttls ∈ c.log

inductive Phase (c : Core β) : Prop
  | clear (h : c.Clear)
  | prepared (h : c.Prepared)
  | secure (h : c.Secure)

structure Good (s : Core β) : Prop where
  boundary : Boundary s.log
  called : s.canStarttls = false ↔ .starttls ∈ s.log
  ended : s.destroyed = true ↔ .disconnect ∈ s.log
  started : .handshake ∈ s.log → s.tls = true ∧ .starttls ∈ s.log
  draining : s.ondrain = .starttls → .starttls ∈ s.log
  unsent : s.connected = false → ∀ e ∈ s.log, e.isSent = false
  phase : s.destroyed = false → Phase s

variable {c : Core β}

theorem Good.hasStarted (h : Good c) : .handshake ∈ c.log → .starttls ∈ c.log :=
  fun hs => (h.started hs).2

theorem Good.live (h : Good c) (hs : c.destroyed = false) : .disconnect ∉ c.log :=
  fun hd => by
    rw [h.ended.mpr hd] at hs
    cases hs

/-! ## Events -/

theorem Good.append {c c' : Core β} (h : Good c) {e : Event β} (hlog : c'.log = c.log ++ [e])
    (hboundary : Boundary c'.log) (he : e ≠ .starttls ∧ e ≠ .disconnect ∧ e ≠ .handshake)
    (hcan : c'.canStarttls = c.canStarttls) (hdestroyed : c'.destroyed = c.destroyed)
    (htls : c'.tls = c.tls) (hdrain : c'.ondrain = .starttls → c.ondrain = .starttls)
    (hsent : c'.connected = false → c.connected = false ∧ e.isSent = false)
    (hphase : c'.destroyed = false → Phase c') : Good c' := by
  have hmem : ∀ x : Event β, x ≠ e → (x ∈ c'.log ↔ x ∈ c.log) := by
    intro x hx
    simp [hlog, hx]
  have hold : ∀ x : Event β, x ∈ c.log → x ∈ c'.log := fun x hx => by
    rw [hlog]
    exact List.mem_append_left _ hx
  constructor
  · exact hboundary
  · rw [hcan]
    exact h.called.trans (hmem _ he.1.symm).symm
  · rw [hdestroyed]
    exact h.ended.trans (hmem _ he.2.1.symm).symm
  · intro hs
    have hs' := h.started ((hmem _ he.2.2.symm).mp hs)
    exact ⟨htls.trans hs'.1, hold _ hs'.2⟩
  · intro hs
    exact hold _ (h.draining (hdrain hs))
  · intro hs x hx
    obtain ⟨hc, hnone⟩ := hsent hs
    rw [hlog] at hx
    rcases List.mem_append.mp hx with hx | hx
    · exact h.unsent hc x hx
    · rw [List.mem_singleton.mp hx]
      exact hnone
  · exact hphase

theorem Good.emit_quiet {c' : Core β} (h : Good c) {e : Event β}
    (hcore : c' = { c with connected := c'.connected, log := c.log ++ [e] })
    (hboundary : Boundary (c.log ++ [e]))
    (he : e ≠ .starttls ∧ e ≠ .disconnect ∧ e ≠ .handshake) (hprepared : e ≠ .prepared)
    (hwritten : e.written = []) (hcleared : e.cleared = []) (hnone : e.isSent = false)
    (hconnected : c'.connected = false → c.connected = false)
    (hconnect : e = .connect true → c.onwritable = .default) : Good c' := by
  have hgiven : given (c.log ++ [e]) = given c.log := given_append hwritten
  have hsame : cleared (c.log ++ [e]) = cleared c.log := by
    rw [cleared_append, hcleared, List.append_nil]
  rw [hcore]
  refine h.append rfl hboundary he rfl rfl rfl id (fun hs => ⟨hconnected hs, hnone⟩) fun hs => ?_
  cases h.phase hs with
  | clear hp =>
    refine .clear ⟨hp.tls, hp.encrypted, hp.onreadable, hp.onwritable, ?_, ?_⟩
    · intro hmem
      rcases List.mem_append.mp hmem with hold | hnew
      · exact hp.fresh hold
      · exact hprepared (List.mem_singleton.mp hnew).symm
    · rw [hgiven, hsame]
      exact hp.buffered
  | prepared hp =>
    refine .prepared ⟨hp.tls, hp.encrypted, hp.onreadable, hp.onwritable, hp.ondrain,
      List.mem_append_left _ hp.called, ?_, ?_⟩
    · rw [hgiven, hsame]
      exact hp.complete
    · intro hc hall
      rcases List.mem_append.mp hc with hold | hnew
      · exact hp.connecting hold fun x hx => hall x (List.mem_append_left _ hx)
      · have hw := hconnect (List.mem_singleton.mp hnew).symm
        rw [hp.onwritable] at hw
        cases hw
  | secure hp =>
    exact .secure ⟨hp.tls, hp.encrypted, hp.ondrain, List.mem_append_left _ hp.called⟩

/-- A write while `starttls` is not pending, or of nothing. -/
theorem Good.write (h : Good c) {data : List β} (hquiet : Undisturbed (c.log ++ [Event.write data])) :
    Good { c with log := c.log ++ [.write data], writebuffer := c.writebuffer ++ [data] } := by
  have hcleared : cleared (c.log ++ [Event.write data]) = cleared c.log := by
    rw [cleared_append]
    exact List.append_nil _
  have hflat : (c.writebuffer ++ [data]).flatten = c.writebuffer.flatten ++ data := by simp
  refine h.append rfl (h.boundary.append_quiet h.hasStarted rfl) ⟨by simp, by simp, by simp⟩ rfl
    rfl rfl id (fun hs => ⟨hs, rfl⟩) fun hs => ?_
  cases h.phase hs with
  | clear hp =>
    refine .clear ⟨hp.tls, hp.encrypted, hp.onreadable, hp.onwritable, ?_, ?_⟩
    · simpa using hp.fresh
    · show given (c.log ++ [Event.write data]) =
        cleared (c.log ++ [Event.write data]) ++ (c.writebuffer ++ [data]).flatten
      rw [hcleared, hflat, ← List.append_assoc, ← hp.buffered]
      by_cases hs' : .starttls ∈ c.log
      · obtain ⟨hwritten, -⟩ := hquiet.last ⟨hs', h.live hs, Or.inl hp.fresh⟩
        have hdata : data = [] := hwritten
        rw [given_append_of_mem hs', hdata, List.append_nil]
      · exact given_append_of_notMem hs' _
  | prepared hp =>
    refine .prepared ⟨hp.tls, hp.encrypted, hp.onreadable, hp.onwritable, hp.ondrain,
      List.mem_append_left _ hp.called, ?_, ?_⟩
    · show cleared (c.log ++ [Event.write data]) = given (c.log ++ [Event.write data])
      rw [hcleared, given_append_of_mem hp.called]
      exact hp.complete
    · intro hc hnone
      have hc' : .connect true ∈ c.log := by simpa using hc
      have hnone' : ∀ x ∈ c.log, x.isSent = false := fun x hx =>
        hnone x (List.mem_append_left _ hx)
      obtain ⟨hwritten, -⟩ := hquiet.last ⟨hp.called, h.live hs, Or.inr ⟨hc', hnone'⟩⟩
      have hdata : data = [] := hwritten
      show (c.writebuffer ++ [data]).flatten = []
      rw [hflat, hdata, List.append_nil]
      exact hp.connecting hc' hnone'
  | secure hp =>
    exact .secure ⟨hp.tls, hp.encrypted, hp.ondrain, List.mem_append_left _ hp.called⟩

/-- The field `ondrain` is set to something else than `starttls`. -/
theorem Good.setDrain (h : Good c) {d : Drain} (hd : d ≠ .starttls) :
    Good { c with ondrain := d } := by
  refine ⟨h.boundary, h.called, h.ended, h.started, fun hs => absurd hs hd, h.unsent, fun hs => ?_⟩
  cases h.phase hs with
  | clear hp =>
    exact .clear ⟨hp.tls, hp.encrypted, hp.onreadable, hp.onwritable, hp.fresh, hp.buffered⟩
  | prepared hp =>
    exact .prepared ⟨hp.tls, hp.encrypted, hp.onreadable, hp.onwritable, hd, hp.called,
      hp.complete, hp.connecting⟩
  | secure hp => exact .secure ⟨hp.tls, hp.encrypted, hd, hp.called⟩

theorem Good.setConnected (h : Good c) : Good { c with connected := true } := by
  refine ⟨h.boundary, h.called, h.ended, h.started, h.draining, ?_, fun hs => ?_⟩
  · intro hs
    cases hs
  · cases h.phase hs with
    | clear hp =>
      exact .clear ⟨hp.tls, hp.encrypted, hp.onreadable, hp.onwritable, hp.fresh, hp.buffered⟩
    | prepared hp =>
      exact .prepared ⟨hp.tls, hp.encrypted, hp.onreadable, hp.onwritable, hp.ondrain, hp.called,
        hp.complete, hp.connecting⟩
    | secure hp => exact .secure ⟨hp.tls, hp.encrypted, hp.ondrain, hp.called⟩

/-- `starttls` is called for the first time. -/
theorem Good.callStarttls (h : Good c) (hcan : c.canStarttls = true) :
    Good { c with canStarttls := false, log := c.log ++ [.starttls] } ∧
      (c.destroyed = false →
        Core.Clear { c with canStarttls := false, log := c.log ++ [.starttls] }) := by
  have hnot : .starttls ∉ c.log := fun hs => by
    rw [h.called.mpr hs] at hcan
    cases hcan
  have hmem : ∀ x : Event β, x ≠ .starttls → (x ∈ c.log ++ [Event.starttls] ↔ x ∈ c.log) := by
    intro x hx
    simp [hx]
  have hphase : c.destroyed = false →
      Core.Clear { c with canStarttls := false, log := c.log ++ [.starttls] } := by
    intro hs
    cases h.phase hs with
    | clear hp =>
      refine ⟨hp.tls, hp.encrypted, hp.onreadable, hp.onwritable,
        (hmem _ (by simp)).not.mpr hp.fresh, ?_⟩
      show given (c.log ++ [Event.starttls]) =
        cleared (c.log ++ [Event.starttls]) ++ c.writebuffer.flatten
      rw [given_append rfl, cleared_append, hp.buffered]
      simp [Event.cleared]
    | prepared hp => exact absurd hp.called hnot
    | secure hp => exact absurd hp.called hnot
  refine ⟨⟨?_, ?_, ?_, ?_, ?_, ?_, fun hs => .clear (hphase hs)⟩, hphase⟩
  · exact h.boundary.append_quiet h.hasStarted rfl
  · simp
  · exact h.ended.trans (hmem _ (by simp)).symm
  · intro hs
    exact absurd (h.hasStarted ((hmem _ (by simp)).mp hs)) hnot
  · intro _
    simp
  · intro hs x hx
    rcases List.mem_append.mp hx with hold | hnew
    · exact h.unsent hs x hold
    · rw [List.mem_singleton.mp hnew]
      rfl

/-- `starttls` waits for the write buffer. -/
theorem Good.wait {c : Core β} (h : Good c) (hcalled : .starttls ∈ c.log)
    (hclear : c.destroyed = false → c.Clear) : Good { c with ondrain := .starttls } := by
  refine ⟨h.boundary, h.called, h.ended, h.started, fun _ => hcalled, h.unsent, fun hs => ?_⟩
  have hp := hclear hs
  exact .clear ⟨hp.tls, hp.encrypted, hp.onreadable, hp.onwritable, hp.fresh, hp.buffered⟩

theorem Good.prepare (h : Good c) (hcalled : .starttls ∈ c.log)
    (hdrain : c.ondrain ≠ .starttls) (hclear : c.destroyed = false → c.Clear)
    (hempty : c.writebuffer = []) : Good { c with
      onwritable := .tlshandshake
      onreadable := .tlshandshake
      log := c.log ++ [.prepared] } := by
  refine h.append rfl (h.boundary.append_quiet h.hasStarted rfl) ⟨by simp, by simp, by simp⟩ rfl
    rfl rfl id (fun hs => ⟨hs, rfl⟩) fun hs => ?_
  have hp := hclear hs
  refine .prepared ⟨hp.tls, hp.encrypted, rfl, rfl, hdrain, List.mem_append_left _ hcalled, ?_, ?_⟩
  · show cleared (c.log ++ [Event.prepared]) = given (c.log ++ [Event.prepared])
    rw [given_append rfl, cleared_append, hp.buffered, hempty]
    rfl
  · intro _ _
    simp [hempty]

theorem Good.send (h : Good c) (hconnected : c.connected = true)
    (hlive : c.destroyed = false) (hidle : c.Prepared → c.writebuffer.flatten = [])
    {out : List β} {rest : List (List β)} (hsplit : c.writebuffer.flatten = out ++ rest.flatten) :
    Good { c with log := c.log ++ [.sent c.encrypted out], writebuffer := rest } := by
  have hgiven : given (c.log ++ [Event.sent c.encrypted out]) = given c.log := given_append rfl
  have hphase : cleared (c.log ++ [Event.sent c.encrypted out]) <+: given c.log ∧
      Phase { c with log := c.log ++ [.sent c.encrypted out], writebuffer := rest } := by
    rw [cleared_append]
    cases h.phase hlive with
    | clear hp =>
      have hcleared : Event.cleared (.sent c.encrypted out) = out := by
        rw [hp.encrypted]
        rfl
      have hbuffered : given c.log = cleared c.log ++ out ++ rest.flatten := by
        rw [hp.buffered, hsplit, List.append_assoc]
      rw [hcleared]
      refine ⟨hbuffered ▸ List.prefix_append _ _, .clear ⟨hp.tls, hp.encrypted, hp.onreadable,
        hp.onwritable, by simpa using hp.fresh, ?_⟩⟩
      show given (c.log ++ [Event.sent c.encrypted out]) =
        cleared (c.log ++ [Event.sent c.encrypted out]) ++ rest.flatten
      rw [hgiven, cleared_append, hcleared]
      exact hbuffered
    | prepared hp =>
      have hnone := hidle hp
      rw [hsplit] at hnone
      obtain ⟨rfl, -⟩ := List.append_eq_nil_iff.mp hnone
      have hcleared : Event.cleared (.sent c.encrypted ([] : List β)) = [] := by
        rw [hp.encrypted]
        rfl
      rw [hcleared, List.append_nil]
      refine ⟨h.boundary.sent, .prepared ⟨hp.tls, hp.encrypted, hp.onreadable, hp.onwritable,
        hp.ondrain, List.mem_append_left _ hp.called, ?_, fun _ hall => ?_⟩⟩
      · show cleared (c.log ++ [Event.sent c.encrypted []]) =
          given (c.log ++ [Event.sent c.encrypted []])
        rw [hgiven, cleared_append, hcleared, List.append_nil]
        exact hp.complete
      · have hsent := hall (.sent c.encrypted []) (by simp)
        cases hsent
    | secure hp =>
      have hcleared : Event.cleared (.sent c.encrypted out) = [] := by
        rw [hp.encrypted]
        rfl
      rw [hcleared, List.append_nil]
      exact ⟨h.boundary.sent,
        .secure ⟨hp.tls, hp.encrypted, hp.ondrain, List.mem_append_left _ hp.called⟩⟩
  refine h.append rfl (h.boundary.append h.hasStarted ?_ (by simp) (by simp))
    ⟨by simp, by simp, by simp⟩ rfl rfl rfl id (fun hs => ?_) fun _ => hphase.2
  · rw [hgiven]
    exact hphase.1
  · rw [show c.connected = false from hs] at hconnected
    cases hconnected

theorem Good.wrap (h : Good c) (hp : c.Prepared) :
    Good { c with tls := true, encrypted := true, log := c.log ++ [.handshake] } := by
  have hmem : ∀ x : Event β, x ≠ .handshake → (x ∈ c.log ++ [Event.handshake] ↔ x ∈ c.log) := by
    intro x hx
    simp [hx]
  have hgiven : given (c.log ++ [Event.handshake]) = given c.log := given_append rfl
  constructor
  · refine h.boundary.append h.hasStarted ?_ (fun _ => ?_) (by simp)
    · rw [hgiven, cleared_append]
      simpa [Event.cleared] using h.boundary.sent
    · rw [hgiven]
      exact hp.complete
  · exact h.called.trans (hmem _ (by simp)).symm
  · exact h.ended.trans (hmem _ (by simp)).symm
  · intro _
    exact ⟨rfl, List.mem_append_left _ hp.called⟩
  · intro hs
    exact List.mem_append_left _ (h.draining hs)
  · intro hs x hx
    rcases List.mem_append.mp hx with hold | hnew
    · exact h.unsent hs x hold
    · rw [List.mem_singleton.mp hnew]
      rfl
  · intro _
    exact .secure ⟨rfl, rfl, hp.ondrain, List.mem_append_left _ hp.called⟩

theorem Good.setHandlers (h : Good c) (htls : c.tls = true) (r w : Handler) :
    Good { c with onreadable := r, onwritable := w } := by
  refine ⟨h.boundary, h.called, h.ended, h.started, h.draining, h.unsent, fun hs => ?_⟩
  cases h.phase hs with
  | clear hp =>
    rw [hp.tls] at htls
    cases htls
  | prepared hp =>
    rw [hp.tls] at htls
    cases htls
  | secure hp => exact .secure ⟨hp.tls, hp.encrypted, hp.ondrain, hp.called⟩

theorem Good.dead (h : Good c) (hdead : c.destroyed = true) (b : Bool) :
    Good { c with encrypted := b } := by
  refine ⟨h.boundary, h.called, h.ended, h.started, h.draining, h.unsent, fun hs => ?_⟩
  rw [show c.destroyed = false from hs] at hdead
  cases hdead

/-! ## Methods -/

/-- The invariant, as long as `starttls` has not been disturbed. -/
def Interface.Inv (s : Interface β) : Prop :=
  Undisturbed s.log → Good s.core

namespace Interface

variable {s t : Interface β}

theorem Inv.of_core (h : s.Inv) (hcore : t.core = s.core) : t.Inv := by
  have hlog : t.log = s.log := congrArg Core.log hcore
  intro hquiet
  rw [hcore]
  exact h (hlog ▸ hquiet)

@[simp] theorem set_core (s : Interface β) (r w : Option Bool) : (s.set r w).core = s.core := by
  unfold Interface.set
  split <;> rfl

@[simp] theorem add_core (s : Interface β) (r w : Bool) : (s.add r w).core = s.core := by
  unfold Interface.add
  split <;> rfl

theorem new_inv : (new : Interface β).Inv := by
  intro _
  constructor
  · exact ⟨List.prefix_rfl, fun pre post h => by simp [new, core] at h, fun data h => by cases h⟩
  · simp [new, core]
  · simp [new, core]
  · intro h
    cases h
  · intro h
    cases h
  · intro _ e he
    cases he
  · intro _
    exact .clear ⟨rfl, rfl, rfl, rfl, by simp [new, core], by simp [new, core, given, cleared]⟩

theorem abort_inv (h : s.Inv) : s.abort.Inv := by
  unfold abort disconnect destroy
  cases hdestroyed : s.destroyed with
  | true => simpa [hdestroyed] using h
  | false =>
    simp only [Bool.false_eq_true, if_false, emit, hdestroyed]
    intro hquiet
    have hg := h hquiet.of_append
    have hmem : ∀ x : Event β, x ≠ .disconnect → (x ∈ s.log ++ [Event.disconnect] ↔ x ∈ s.log) := by
      intro x hx
      simp [hx]
    constructor
    · exact hg.boundary.append_quiet hg.hasStarted rfl
    · exact hg.called.trans (hmem _ (by simp)).symm
    · simp [core]
    · intro hs
      have hs' := hg.started ((hmem _ (by simp)).mp hs)
      exact ⟨hs'.1, List.mem_append_left _ hs'.2⟩
    · intro hs
      exact List.mem_append_left _ (hg.draining hs)
    · intro hs x hx
      rcases List.mem_append.mp hx with hold | hnew
      · exact hg.unsent hs x hold
      · rw [List.mem_singleton.mp hnew]
        rfl
    · intro hs
      cases hs

theorem write_inv (h : s.Inv) (data : List β) : (s.write data).Inv := by
  unfold Interface.write
  cases hcan : s.canWrite with
  | false => simpa [hcan] using h
  | true =>
    have hwritten : ({ s.emit (.write data) with
        writebuffer := s.writebuffer ++ [data] } : Interface β).Inv :=
      fun hquiet => (h hquiet.of_append).write hquiet
    simp only [Bool.not_true, Bool.false_eq_true, if_false]
    split
    · exact hwritten
    · exact hwritten.of_core (set_core _ _ _)

theorem closeNow_inv (h : s.Inv) : s.closeNow.Inv := by
  unfold closeNow
  split
  · have hset : (s.set (some false) (some true)).Inv := h.of_core (set_core _ _ _)
    exact fun hquiet => (hset hquiet).setDrain (by simp)
  · have hdone : ({ s with canWrite := false, canClose := false } : Interface β).Inv :=
      h.of_core rfl
    exact abort_inv hdone

theorem starttlsNow_inv (h : ({ s with canStarttls := false } : Interface β).Inv)
    (hcalled : Undisturbed s.log → .starttls ∈ s.log)
    (hclear : Undisturbed s.log → s.destroyed = false →
      Core.Clear ({ s with canStarttls := false } : Interface β).core) : s.starttlsNow.Inv := by
  unfold starttlsNow
  simp only
  split
  · refine Inv.of_core (s := { s with canStarttls := false, ondrain := .starttls }) ?_
      (set_core _ _ _)
    exact fun hquiet => (h hquiet).wait (hcalled hquiet) (hclear hquiet)
  · rename_i hempty
    have hempty : s.writebuffer = [] := by simpa using hempty
    refine Inv.of_core (s := { s with
      canStarttls := false
      ondrain := if s.ondrain = .starttls then .default else s.ondrain
      onwritable := .tlshandshake
      onreadable := .tlshandshake
      log := s.log ++ [.prepared] }) ?_ ((set_core _ _ _).trans ?_)
    · intro hquiet
      have hdrain : (if s.ondrain = .starttls then Drain.default else s.ondrain) ≠ .starttls := by
        split
        · simp
        · assumption
      have hg := (h hquiet.of_append).setDrain hdrain
      refine hg.prepare (hcalled hquiet.of_append) hdrain (fun hs => ?_) hempty
      have hp := hclear hquiet.of_append hs
      exact ⟨hp.tls, hp.encrypted, hp.onreadable, hp.onwritable, hp.fresh, hp.buffered⟩
    · split <;> simp [core, emit, *]

theorem call_inv (h : s.Inv) (c : Call β) : (s.call c).Inv := by
  cases c with
  | write data => exact write_inv h data
  | starttls =>
    simp only [call]
    split
    · rename_i hcan
      refine starttlsNow_inv (fun hquiet => ?_) ?_ fun hquiet hs => ?_
      · exact ((h hquiet.of_append).callStarttls hcan).1
      · intro _
        simp [emit]
      · exact ((h hquiet.of_append).callStarttls hcan).2 hs
    · exact h
  | close =>
    simp only [call]
    split
    · exact closeNow_inv h
    · exact h
  | pause => exact h.of_core (set_core _ _ _)
  | resume => exact h.of_core (set_core _ _ _)
  | pauseWrites => exact h.of_core (set_core _ _ _)
  | resumeWrites =>
    simp only [call]
    split
    · exact h.of_core (set_core _ _ _)
    · exact h.of_core rfl

theorem listen_inv (h : s.Inv) (calls : List (Call β)) : (s.listen calls).Inv := by
  unfold listen
  split
  · exact h
  · exact List.foldlRecOn (motive := Inv) _ _ h fun _ ht c _ => call_inv ht c

/-! ## What calls leave alone -/

/-- Calls add events to the trace that are not sendings, and do not change the socket. -/
structure Extends (s t : Interface β) : Prop where
  log : ∃ es, t.log = s.log ++ es ∧ ∀ e ∈ es, e.isSent = false
  encrypted : t.encrypted = s.encrypted
  connected : t.connected = s.connected
  tls : t.tls = s.tls

theorem Extends.refl (s : Interface β) : Extends s s := ⟨⟨[], by simp, by simp⟩, rfl, rfl, rfl⟩

theorem Extends.trans {u : Interface β} (h : Extends s t) (h' : Extends t u) : Extends s u := by
  obtain ⟨es, hes, hnone⟩ := h.log
  obtain ⟨es', hes', hnone'⟩ := h'.log
  refine ⟨⟨es ++ es', by rw [hes', hes, List.append_assoc], fun e he => ?_⟩,
    h'.encrypted.trans h.encrypted, h'.connected.trans h.connected, h'.tls.trans h.tls⟩
  rcases List.mem_append.mp he with he | he
  · exact hnone e he
  · exact hnone' e he

theorem Extends.of_eq (hlog : t.log = s.log) (hencrypted : t.encrypted = s.encrypted)
    (hconnected : t.connected = s.connected) (htls : t.tls = s.tls) : Extends s t :=
  ⟨⟨[], by simp [hlog], by simp⟩, hencrypted, hconnected, htls⟩

theorem Extends.set (h : Extends s t) (r w : Option Bool) : Extends s (t.set r w) := by
  have hcore := set_core t r w
  exact h.trans (.of_eq (congrArg Core.log hcore) (congrArg Core.encrypted hcore)
    (congrArg Core.connected hcore) (congrArg Core.tls hcore))

theorem Extends.emit (s : Interface β) {e : Event β} (he : e.isSent = false) :
    Extends s (s.emit e) :=
  ⟨⟨[e], rfl, by simp [he]⟩, rfl, rfl, rfl⟩

theorem Extends.abort (h : Extends s t) : Extends s t.abort := by
  refine h.trans ?_
  unfold Interface.abort disconnect destroy
  cases hdestroyed : t.destroyed with
  | true => simpa [hdestroyed] using Extends.refl t
  | false =>
    simp only [Bool.false_eq_true, if_false, Interface.emit, hdestroyed]
    exact ⟨⟨[.disconnect], rfl, by simp [Event.isSent]⟩, rfl, rfl, rfl⟩

theorem write_extends (s : Interface β) (data : List β) : Extends s (s.write data) := by
  unfold Interface.write
  split
  · exact Extends.refl s
  have hemit : Extends s (s.emit (.write data)) := Extends.emit s rfl
  simp only
  split
  · exact ⟨hemit.log, rfl, rfl, rfl⟩
  · refine Extends.set ?_ _ _
    exact ⟨hemit.log, rfl, rfl, rfl⟩

theorem closeNow_extends (s : Interface β) : Extends s s.closeNow := by
  unfold closeNow
  split
  · have hset := (Extends.refl s).set (some false) (some true)
    exact ⟨hset.log, hset.encrypted, hset.connected, hset.tls⟩
  · have hdone : Extends s { s with canWrite := false, canClose := false } := .of_eq rfl rfl rfl rfl
    exact hdone.abort

theorem starttlsNow_extends (s : Interface β) : Extends s s.starttlsNow := by
  unfold starttlsNow
  simp only
  split
  · refine Extends.set ?_ _ _
    exact .of_eq rfl rfl rfl rfl
  · refine Extends.set ?_ _ _
    split <;> exact ⟨⟨[.prepared], rfl, by simp [Event.isSent]⟩, rfl, rfl, rfl⟩

theorem call_extends (s : Interface β) (c : Call β) : Extends s (s.call c) := by
  cases c with
  | write data => exact write_extends s data
  | starttls =>
    simp only [call]
    split
    · exact (Extends.emit s rfl).trans (starttlsNow_extends _)
    · exact Extends.refl s
  | close =>
    simp only [call]
    split
    · exact closeNow_extends s
    · exact Extends.refl s
  | pause => exact (Extends.refl s).set _ _
  | resume => exact (Extends.refl s).set _ _
  | pauseWrites =>
    refine Extends.set ?_ _ _
    exact .of_eq rfl rfl rfl rfl
  | resumeWrites =>
    simp only [call]
    split
    · refine Extends.set ?_ _ _
      exact .of_eq rfl rfl rfl rfl
    · exact .of_eq rfl rfl rfl rfl

theorem listen_extends (s : Interface β) (calls : List (Call β)) : Extends s (s.listen calls) := by
  unfold listen
  split
  · exact Extends.refl s
  · exact List.foldlRecOn (motive := Extends s) _ _ (Extends.refl s)
      fun t ht c _ => ht.trans (call_extends t c)

/-! ## Events of the poller -/

theorem onconnect_inv (h : s.Inv) (writing : Bool)
    (hwriting : writing = true → s.onwritable = .default) (calls : List (Call β)) :
    (s.onconnect writing calls).Inv := by
  unfold onconnect
  split
  · exact h
  rename_i hconnected
  have hmark : ({ s with connected := true } : Interface β).Inv := fun hquiet =>
    (h hquiet).setConnected
  split
  · exact hmark
  refine listen_inv (fun hquiet => ?_) calls
  have hg := hmark hquiet.of_append
  refine hg.emit_quiet (e := .connect writing) rfl
    (hg.boundary.append_quiet hg.hasStarted rfl) ⟨by simp, by simp, by simp⟩ (by simp) rfl rfl rfl
    id fun heq => ?_
  cases heq
  exact hwriting rfl

theorem onconnect_log (s : Interface β) (writing : Bool) (calls : List (Call β)) :
    ∃ es, (s.onconnect writing calls).log = s.log ++ es ∧ ∀ e ∈ es, e.isSent = false := by
  unfold onconnect
  split
  · exact ⟨[], by simp, by simp⟩
  split
  · exact ⟨[], by simp, by simp⟩
  · obtain ⟨es, hes, hnone⟩ :=
      (listen_extends (({ s with connected := true } : Interface β).emit (.connect writing)) calls).log
    refine ⟨.connect writing :: es, ?_, ?_⟩
    · rw [hes]
      simp [emit]
    · simpa [Event.isSent] using hnone

theorem onconnect_encrypted (s : Interface β) (writing : Bool) (calls : List (Call β)) :
    (s.onconnect writing calls).encrypted = s.encrypted := by
  unfold onconnect
  split
  · rfl
  split
  · rfl
  · exact (listen_extends _ calls).encrypted

theorem passOn_inv (h : s.Inv) {late : Bool} {data : List β} (calls : List (Call β))
    (hlate : Undisturbed s.log → s.encrypted = false → late = true → data = []) :
    (s.passOn late data calls).Inv := by
  unfold passOn
  split
  · exact h
  refine listen_inv (fun hquiet => ?_) calls
  have hg := h hquiet.of_append
  refine hg.emit_quiet (e := .incoming s.encrypted late data) rfl ?_ ⟨by simp, by simp, by simp⟩
    (by simp) rfl rfl rfl id (by simp)
  refine hg.boundary.append hg.hasStarted ?_ (by simp) ?_
  · rw [given_append rfl, cleared_append]
    simpa [Event.cleared] using hg.boundary.sent
  · intro data' heq
    simp only [Event.incoming.injEq] at heq
    obtain ⟨hencrypted, hl, rfl⟩ := heq
    exact hlate hquiet.of_append hencrypted hl

theorem scheduleRead_inv (h : s.Inv) (dirty : Bool) : (s.scheduleRead dirty).Inv := by
  unfold scheduleRead
  split
  · exact h
  split
  · exact h.of_core (set_core _ _ _)
  · exact h.of_core rfl

theorem receive_inv (h : s.Inv) (hdefault : s.onreadable = .default) (hlive : s.destroyed = false)
    (env : Env β) : (s.receive env).Inv := by
  have hreceived : ∀ data, (s.emit (.received s.encrypted data)).Inv := fun data hquiet => by
    have hg := h hquiet.of_append
    exact hg.emit_quiet rfl (hg.boundary.append_quiet hg.hasStarted rfl)
      ⟨by simp, by simp, by simp⟩ (by simp) rfl rfl rfl id (by simp)
  have hpassed : ∀ data, (((s.emit (.received s.encrypted data)).onconnect false
      env.connect).passOn (!s.canStarttls) data env.incoming).Inv := by
    intro data
    refine passOn_inv (onconnect_inv (hreceived data) false (by simp) _) _ fun hquiet hclear hlate => ?_
    rw [onconnect_encrypted] at hclear
    obtain ⟨es, hes, -⟩ := onconnect_log (s.emit (.received s.encrypted data)) false env.connect
    rw [hes] at hquiet
    have hquiet := hquiet.of_append
    have hg := h hquiet.of_append
    have hcan : s.canStarttls = false := by simpa using hlate
    have hcalled : .starttls ∈ s.log := hg.called.mp hcan
    cases hg.phase hlive with
    | clear hp =>
      have harrived := (hquiet.last ⟨hcalled, hg.live hlive, Or.inl hp.fresh⟩).2
      have hencrypted : s.encrypted = false := hclear
      rw [hencrypted] at harrived
      exact harrived
    | prepared hp =>
      have hreadable : s.onreadable = .tlshandshake := hp.onreadable
      rw [hdefault] at hreadable
      cases hreadable
    | secure hp =>
      have hencrypted : s.encrypted = true := hp.encrypted
      rw [show s.encrypted = false from hclear] at hencrypted
      cases hencrypted
  unfold receive
  simp only
  split
  · exact scheduleRead_inv (hpassed _) _
  · rename_i data error _
    have hpartly : (if data ≠ [] then ((s.emit (.received s.encrypted data)).onconnect false
        env.connect).passOn (!s.canStarttls) data env.incoming
        else s.emit (.received s.encrypted data)).Inv := by
      split
      · exact hpassed data
      · exact hreceived data
    cases error with
    | wantread => exact scheduleRead_inv (hpartly.of_core (set_core _ _ _)) _
    | wantwrite => exact scheduleRead_inv (hpartly.of_core (set_core _ _ _)) _
    | timeout => exact scheduleRead_inv hpartly _
    | other => exact abort_inv hpartly

theorem drained_inv (h : s.Inv) (env : Env β) : (s.drained env).Inv := by
  unfold drained
  split
  · exact listen_inv h _
  · rename_i hdrain
    have hcalled : Undisturbed s.log → .starttls ∈ s.log := fun hquiet =>
      (h hquiet).draining hdrain
    refine starttlsNow_inv (fun hquiet => ?_) hcalled fun hquiet hs => ?_
    · have hcan : s.canStarttls = false := (h hquiet).called.mpr (hcalled hquiet)
      have hcore : ({ s with canStarttls := false } : Interface β).core = s.core := by
        simp [core, hcan]
      rw [hcore]
      exact h hquiet
    · cases (h hquiet).phase hs with
      | clear hp =>
        exact ⟨hp.tls, hp.encrypted, hp.onreadable, hp.onwritable, hp.fresh, hp.buffered⟩
      | prepared hp => exact absurd hdrain hp.ondrain
      | secure hp => exact absurd hdrain hp.ondrain
  · exact closeNow_inv h

theorem onconnect_connected (s : Interface β) (writing : Bool) (calls : List (Call β)) :
    (s.onconnect writing calls).connected = true := by
  unfold onconnect
  split
  · assumption
  split
  · rfl
  · exact (listen_extends _ calls).connected

/-- When `onwritable` is about to send, nothing is left for the handshake to come. -/
theorem onconnect_idle (h : s.Inv) (hdefault : s.onwritable = .default)
    (hlive : s.destroyed = false) (calls : List (Call β))
    (hquiet : Undisturbed (s.onconnect true calls).log)
    (hp : (s.onconnect true calls).core.Prepared) :
    (s.onconnect true calls).writebuffer.flatten = [] := by
  cases hconnected : s.connected with
  | true =>
    simp only [onconnect, hconnected, if_true] at hp
    have hwritable : s.onwritable = .tlshandshake := hp.onwritable
    rw [hdefault] at hwritable
    cases hwritable
  | false =>
    obtain ⟨es, hes, hnone⟩ := onconnect_log s true calls
    have hg := h (by rw [hes] at hquiet; exact hquiet.of_append)
    refine hp.connecting ?_ ?_
    · show .connect true ∈ (s.onconnect true calls).log
      unfold onconnect
      rw [if_neg (by simp [hconnected]), if_neg (by simp [hlive])]
      obtain ⟨es, hes, -⟩ :=
        (listen_extends (({ s with connected := true } : Interface β).emit (.connect true))
          calls).log
      rw [hes]
      simp [emit]
    · intro e he
      have he : e ∈ (s.onconnect true calls).log := he
      rw [hes] at he
      rcases List.mem_append.mp he with hold | hnew
      · exact hg.unsent hconnected e hold
      · exact hnone e hnew

theorem send_inv (h : s.Inv) (hdefault : s.onwritable = .default) (hlive : s.destroyed = false)
    (env : Env β) : (s.send env).Inv := by
  have hinv := onconnect_inv h true (fun _ => hdefault) env.connect
  have hidle := onconnect_idle h hdefault hlive env.connect
  have hconnected := onconnect_connected s true env.connect
  unfold Interface.send
  simp only
  generalize s.onconnect true env.connect = t at hinv hidle hconnected ⊢
  cases hdestroyed : t.destroyed with
  | true => exact hinv
  | false =>
    have hsent : ∀ out rest, t.writebuffer.flatten = out ++ List.flatten rest →
        ({ t.emit (.sent t.encrypted out) with writebuffer := rest } : Interface β).Inv :=
      fun out rest hsplit hquiet =>
        (hinv hquiet.of_append).send hconnected hdestroyed (hidle hquiet.of_append) hsplit
    simp only [Bool.false_eq_true, if_false]
    split
    · refine drained_inv (Inv.of_core (hsent t.writebuffer.flatten [] (by simp)) ?_) env
      have hcore := set_core (t.emit (.sent t.encrypted t.writebuffer.flatten)) none (some false)
      simp only [core, Core.mk.injEq] at hcore ⊢
      simp [hcore]
    · rename_i count error _
      have hpartly : (t.sendPartly t.writebuffer.flatten count).Inv := by
        cases count with
        | none => exact hsent [] t.writebuffer (by simp)
        | some count =>
          exact (hsent (t.writebuffer.flatten.take count) [t.writebuffer.flatten.drop count]
            (by simp)).of_core rfl
      cases error with
      | wantread => exact hpartly.of_core (set_core _ _ _)
      | wantwrite => exact hpartly.of_core (set_core _ _ _)
      | timeout => exact hpartly.of_core (set_core _ _ _)
      | other => exact abort_inv hpartly

theorem tlshandshake_inv (h : s.Inv)
    (hhandler : s.onreadable = .tlshandshake ∨ s.onwritable = .tlshandshake)
    (hlive : s.destroyed = false) (env : Env β) : (s.tlshandshake env).Inv := by
  unfold tlshandshake
  simp only
  by_cases htls : s.tls = true
  · rw [if_neg (by simp [htls])]
    split
    · have hdone : ({ s with
          writeTimeout := false
          readTimeout := false
          onwritable := .default
          onreadable := .default } : Interface β).Inv :=
        fun hquiet => (h hquiet).setHandlers htls _ _
      refine Inv.of_core ?_ (set_core _ _ _)
      exact (listen_inv hdone env.status).of_core rfl
    · exact h.of_core (set_core _ _ _)
    · exact h.of_core (set_core _ _ _)
    · exact abort_inv (h.of_core rfl)
  · rw [if_pos (by simp [htls])]
    -- whether the library wraps the connection or not, the trace goes on in the same way
    have hwrapped : ({ s with
        writeTimeout := false
        readTimeout := false
        tls := true
        encrypted := true
        log := s.log ++ [.handshake]
        watched := none } : Interface β).Inv := fun hquiet => by
      have hg := h hquiet.of_append
      cases hg.phase hlive with
      | clear hp =>
        rcases hhandler with hr | hw
        · rw [show s.onreadable = .default from hp.onreadable] at hr
          cases hr
        · rw [show s.onwritable = .default from hp.onwritable] at hw
          cases hw
      | prepared hp => exact hg.wrap hp
      | secure hp =>
        exact absurd hp.tls htls
    split
    · have hdead := abort_inv hwrapped
      intro hquiet
      have hlog : ({ s with
          writeTimeout := false
          readTimeout := false
          tls := true
          encrypted := true
          log := s.log ++ [.handshake]
          watched := none } : Interface β).abort.log =
        s.log ++ [Event.handshake] ++ [Event.disconnect] := by
        simp [abort, disconnect, destroy, emit, hlive]
      have hg := (hdead (by rw [hlog]; simpa [abort, disconnect, destroy, emit, del, hlive] using
        hquiet)).dead (by simp [core, abort, disconnect, destroy, emit, hlive]) s.encrypted
      simpa [core, abort, disconnect, destroy, emit, del, hlive] using hg
    · have hlistened := listen_inv hwrapped env.starttls
      have hextends := listen_extends ({ s with
        writeTimeout := false
        readTimeout := false
        tls := true
        encrypted := true
        log := s.log ++ [.handshake]
        watched := none } : Interface β) env.starttls
      refine Inv.of_core (fun hquiet => ?_) (add_core _ _ _)
      exact ((hlistened hquiet).setDrain (by simp)).setHandlers hextends.tls _ _

theorem readable_inv (h : s.Inv) (hlive : s.destroyed = false) (env : Env β) :
    (s.readable env).Inv := by
  unfold readable
  split
  · rename_i hdefault
    exact receive_inv h hdefault hlive env
  · rename_i hhandler
    exact tlshandshake_inv h (Or.inl hhandler) hlive env
  · exact h

theorem writable_inv (h : s.Inv) (hlive : s.destroyed = false) (env : Env β) :
    (s.writable env).Inv := by
  unfold writable
  split
  · rename_i hdefault
    exact send_inv h hdefault hlive env
  · rename_i hhandler
    exact tlshandshake_inv h (Or.inr hhandler) hlive env
  · exact h

theorem step_inv (h : s.Inv) (i : Input β) : (s.step i).Inv := by
  cases i with
  | call c => exact call_inv h c
  | readable env =>
    simp only [step]
    split
    · exact h
    · rename_i hlive
      exact readable_inv h (by simpa using hlive) env
  | writable env =>
    simp only [step]
    split
    · exact h
    · rename_i hlive
      exact writable_inv h (by simpa using hlive) env
  | retry dirty env =>
    simp only [step]
    split
    · simp only [retry]
      refine Inv.of_core ?_ (set_core _ _ _)
      split
      · rename_i hread
        have hlive : s.destroyed = false := by
          cases hdestroyed : s.destroyed with
          | false => rfl
          | true => simp [hdestroyed] at hread
        have hretried : ({ s with pausefor := false } : Interface β).Inv := h.of_core rfl
        exact readable_inv hretried hlive env
      · exact h.of_core rfl
    · exact h
  | timeout =>
    simp only [step]
    split
    · exact abort_inv h
    · exact h

end Interface

/-! ## Runs -/

/-- As long as nothing is written and nothing arrives while `starttls` is pending, every run
keeps the boundary. -/
theorem boundary_of_undisturbed (inputs : List (Input β))
    (h : Undisturbed (Machine.run Interface.step (Interface.new : Interface β) inputs).log) :
    Boundary (Machine.run Interface.step (Interface.new : Interface β) inputs).log := by
  have hinv : (Machine.run Interface.step (Interface.new : Interface β) inputs).Inv :=
    Machine.run_invariant (P := Interface.Inv) (fun _ i hs => Interface.step_inv hs i)
      Interface.new_inv inputs
  exact (hinv h).boundary

instance [DecidableEq β] (pre : List (Event β)) : Decidable (Pending pre) :=
  inferInstanceAs (Decidable (_ ∧ _ ∧ (_ ∨ _ ∧ _)))

/-- Whether `starttls` has been disturbed can be decided event by event. -/
theorem undisturbed_iff (log : List (Event β)) :
    Undisturbed log ↔ ∀ i : Fin log.length, Pending (log.take i) →
      (log.get i).written = [] ∧ (log.get i).arrived = [] := by
  constructor
  · intro h i
    refine h (log.take i) (log.get i) (log.drop (i + 1)) ?_
    rw [List.get_eq_getElem, List.getElem_cons_drop, List.take_append_drop]
  · rintro h pre e post rfl hpending
    have hi : pre.length < (pre ++ e :: post).length := by simp
    have hat := h ⟨pre.length, hi⟩
    simp only [List.take_left', List.get_eq_getElem] at hat
    simpa using hat (by simpa using hpending)

instance [DecidableEq β] (log : List (Event β)) : Decidable (Undisturbed log) :=
  decidable_of_iff' _ (undisturbed_iff log)

/-- An event at which all goes well and the listener does nothing. -/
def calm : Env Char where
  received := .all []
  dirty := false
  sent := .all
  wrapped := true
  handshake := .ok
  connect := []
  incoming := []
  drain := []
  starttls := []
  status := []

/-- A client asks for TLS, and is told to proceed. -/
def request : Input Char :=
  .readable { calm with
    received := .all "<starttls/>".toList
    incoming := [.write "<proceed/>".toList, .starttls] }

/-- The answer is flushed, and the handshake starts and ends. -/
theorem boundary_of_undisturbed_handshake :
    Boundary (Machine.run Interface.step (Interface.new : Interface Char)
      [request, .writable calm, .writable calm, .readable calm]).log :=
  boundary_of_undisturbed _ (by decide +kernel)

/-- What the client sends before the answer has been flushed is passed on. -/
theorem late_data_passed_on :
    ¬ Boundary (Machine.run Interface.step (Interface.new : Interface Char)
      [request, .readable { calm with received := .all "<iq/>".toList }]).log := by
  intro h
  have hlate := h.incoming "<iq/>".toList (by decide +kernel)
  exact absurd hlate (by decide)

end Prosody.ServerEpoll
