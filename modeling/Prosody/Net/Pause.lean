import Prosody.Net.Output

/-! # Pausing a connection

What undoes `pause` of `net/server_epoll.lua`. The poller hands out the events that it has gathered
one by one, so that a connection may change between the time when its event is gathered and the
time when it is handled. -/

namespace Prosody.ServerEpoll

variable {β : Type}

/-- A connection with what its owner has asked for. -/
structure Owned (β : Type) where
  conn : Interface β
  /-- `pause` has been called, and `resume` has not been called since. -/
  paused : Bool
  /-- The poller has gathered that the connection is readable. -/
  gathered : Bool
  /-- `onincoming` has been called while the connection was paused. -/
  disturbed : Bool

def Owned.new : Owned β := ⟨.new, false, false, false⟩

/-- What happens to a connection. Errors and hangups are gathered as readable, whatever the poller
watches the connection for. -/
inductive Happening (β : Type) where
  | gather (hangup : Bool)
  | input (i : Input β)

def Call.pausing (paused : Bool) : Call β → Bool
  | .pause => true
  | .resume => false
  | _ => paused

def pausedAfter (paused : Bool) (heard : List (Interface β × Call β)) : Bool :=
  heard.foldl (fun paused h => h.2.pausing paused) paused

def Event.isIncoming : Event β → Bool
  | incoming .. => true
  | _ => false

namespace Interface

variable (s : Interface β)

def incomings : ℕ := s.log.countP Event.isIncoming

/-- The poller watches whether the connection is readable. -/
def reads : Bool := s.watched.any Prod.fst

/-- The calls made in `readable` before `onincoming` is called. -/
def heardBefore (env : Env β) : List (Interface β × Call β) :=
  (s.emit (.received s.encrypted env.received.data)).heardConnecting false env.connect

end Interface

namespace Owned

/-- `onincoming` is called at most once for an input, after what is called in `onconnect`. -/
def pausedAtIncoming (o : Owned β) : Input β → Bool
  | .readable env => pausedAfter o.paused (o.conn.heardBefore env)
  | .retry _ env =>
    pausedAfter o.paused (Interface.heardBefore { o.conn with pausefor := false } env)
  | _ => o.paused

def advance (o : Owned β) (i : Input β) : Owned β where
  conn := o.conn.step i
  paused := pausedAfter o.paused (o.conn.heardStep i)
  gathered := o.gathered
  disturbed := o.disturbed ||
    (o.pausedAtIncoming i && decide (o.conn.incomings < (o.conn.step i).incomings))

/-- The poller reports a connection as readable once it has gathered that it is. -/
def step (o : Owned β) : Happening β → Owned β
  | .gather hangup =>
    { o with gathered := o.gathered || o.conn.reads || o.conn.watched.isSome && hangup }
  | .input (.readable env) =>
    if o.gathered then advance { o with gathered := false } (.readable env) else o
  | .input i => o.advance i

end Owned

/-! ## What keeps a pause -/

/-- `pause` comes when no event has been gathered and no timer of `pausefor` is running, and
`starttls` does not come while the connection is paused unless it has to wait. -/
def CalmCall (gathered paused : Bool) (s : Interface β) : Call β → Prop
  | .pause => s.destroyed = false → gathered = false ∧ s.pausefor = false
  | .starttls =>
    s.destroyed = false → s.canStarttls = true → paused = true → s.writebuffer ≠ []
  | _ => True

def CalmCalls (gathered : Bool) : Bool → List (Interface β × Call β) → Prop
  | _, [] => True
  | paused, (s, c) :: heard =>
    CalmCall gathered paused s c ∧ CalmCalls gathered (c.pausing paused) heard

/-- Something comes with the result of `conn:receive`. -/
def Received.arrives : Received β → Prop
  | .all _ => True
  | .partly data _ => data ≠ []

namespace Interface

variable (s : Interface β)

/-- The connection when the listener has been told of it, and when it got what was received. -/
def connecting (env : Env β) : Interface β :=
  (s.emit (.received s.encrypted env.received.data)).onconnect false env.connect

def passing (env : Env β) : Interface β :=
  (s.connecting env).passOn (!s.canStarttls) env.received.data env.incoming

/-- The listener does not pause the connection just before it gets what was received, nor when the
read has asked for more or has left something in the TLS library. -/
structure CalmReceiving (gathered paused : Bool) (env : Env β) : Prop where
  calls : CalmCalls gathered paused (s.heardReceiving env)
  before : env.received.arrives → (s.connecting env).destroyed = false →
    pausedAfter paused (s.heardBefore env) = false
  after : env.received.arrives → (s.passing env).destroyed = false →
    pausedAfter paused (s.heardReceiving env) = true →
      env.dirty = false ∧ ∀ data, env.received ≠ .partly data .wantread

/-- A paused connection neither starts TLS nor is asked to read in order to write. -/
structure CalmSending (gathered paused : Bool) (env : Env β) : Prop where
  calls : CalmCalls gathered paused (s.heardSending env)
  after : (s.onconnect true env.connect).destroyed = false →
    (env.sent = .all ∧ (s.onconnect true env.connect).ondrain = .starttls ∨
        ∃ count, env.sent = .partly count .wantread) →
      pausedAfter paused (s.heardConnecting true env.connect) = false

/-- A connection is not paused in the handshake, unless this waits for writing. -/
structure CalmHandshaking (gathered paused : Bool) (env : Env β) : Prop where
  calls : CalmCalls gathered paused (s.heardHandshaking env)
  after : (s.tlshandshake env).destroyed = false →
    (s.tls = true → env.handshake ≠ .failed .wantwrite) →
      pausedAfter paused (s.heardHandshaking env) = false

def CalmReadable (gathered paused : Bool) (env : Env β) : Prop :=
  match s.onreadable with
  | .default => s.CalmReceiving gathered paused env
  | .tlshandshake => s.CalmHandshaking gathered paused env
  | .noop => True

def CalmWritable (gathered paused : Bool) (env : Env β) : Prop :=
  match s.onwritable with
  | .default => s.CalmSending gathered paused env
  | .tlshandshake => s.CalmHandshaking gathered paused env
  | .noop => True

end Interface

namespace Owned

/-- What happens to a paused connection does not make it read. -/
def Calm (o : Owned β) : Happening β → Prop
  | .gather hangup => hangup = true → o.conn.destroyed = false → o.paused = false
  | .input (.call c) => CalmCall o.gathered o.paused o.conn c
  | .input (.readable env) =>
    o.gathered = true → o.conn.destroyed = false → o.conn.CalmReadable false o.paused env
  | .input (.writable env) =>
    o.conn.destroyed = false → o.conn.CalmWritable o.gathered o.paused env
  | .input (.retry dirty env) =>
    o.conn.pausefor = true → o.conn.destroyed = false → dirty = true →
      Interface.CalmReadable { o.conn with pausefor := false } o.gathered o.paused env ∧
        ((Interface.readable { o.conn with pausefor := false } env).destroyed = false →
          pausedAfter o.paused
            (Interface.heardReadable { o.conn with pausefor := false } env) = false)
  | .input .timeout => True

end Owned

/-! ## Single operations -/

structure Gauge where
  destroyed : Bool
  pausefor : Bool
  reads : Bool
  incomings : ℕ

/-- While the connection is paused nothing is about to read from it. -/
def Gauge.Rest (gathered paused : Bool) (g : Gauge) : Prop :=
  paused = true → g.destroyed = false →
    gathered = false ∧ g.pausefor = false ∧ g.reads = false

/-- Nothing is passed on, and a connection that is destroyed stays so. -/
structure Gauge.Silent (g g' : Gauge) : Prop where
  destroyed : g'.destroyed = false → g.destroyed = false
  incomings : g'.incomings = g.incomings

/-- Nor is anything done to read. -/
structure Gauge.Idle (g g' : Gauge) : Prop extends Gauge.Silent g g' where
  pausefor : g.pausefor = false → g'.pausefor = false
  reads : g.reads = false → g'.reads = false

section

variable {g g' g'' : Gauge} {gathered paused : Bool}

theorem Gauge.Silent.trans (h : g.Silent g') (h' : g'.Silent g'') : g.Silent g'' :=
  ⟨fun hlive => h.destroyed (h'.destroyed hlive), h'.incomings.trans h.incomings⟩

theorem Gauge.Idle.refl (g : Gauge) : g.Idle g := ⟨⟨id, rfl⟩, id, id⟩

theorem Gauge.Idle.of_eq (h : g' = g) : g.Idle g' := h ▸ .refl g

theorem Gauge.Idle.trans (h : g.Idle g') (h' : g'.Idle g'') : g.Idle g'' :=
  ⟨h.toSilent.trans h'.toSilent, fun hp => h'.pausefor (h.pausefor hp),
    fun hr => h'.reads (h.reads hr)⟩

theorem Gauge.Rest.idle (h : g.Rest gathered paused) (hidle : g.Idle g') :
    g'.Rest gathered paused := by
  intro hpaused hlive
  obtain ⟨hgathered, hpausefor, hreads⟩ := h hpaused (hidle.destroyed hlive)
  exact ⟨hgathered, hidle.pausefor hpausefor, hidle.reads hreads⟩

/-- A connection that is not paused, or is gone, may read. -/
theorem Gauge.rest_of (h : g.destroyed = false → paused = false) : g.Rest gathered paused :=
  fun hpaused hlive => absurd ((h hlive).symm.trans hpaused) nofun

end

theorem pausedAfter_append {paused : Bool} {heard heard' : List (Interface β × Call β)} :
    pausedAfter paused (heard ++ heard') = pausedAfter (pausedAfter paused heard) heard' :=
  List.foldl_append

theorem calmCalls_append {gathered paused : Bool} {heard heard' : List (Interface β × Call β)} :
    CalmCalls gathered paused (heard ++ heard') ↔
      CalmCalls gathered paused heard ∧
        CalmCalls gathered (pausedAfter paused heard) heard' := by
  induction heard generalizing paused with
  | nil => simp [CalmCalls, pausedAfter]
  | cons h heard ih => simp [CalmCalls, pausedAfter, ih, and_assoc]

namespace Interface

variable {s : Interface β} {gathered paused : Bool}

def gauge (s : Interface β) : Gauge := ⟨s.destroyed, s.pausefor, s.reads, s.incomings⟩

theorem emit_idle {e : Event β} (he : e.isIncoming = false) : s.gauge.Idle (s.emit e).gauge :=
  .of_eq (by simp [gauge, emit, reads, incomings, List.countP_append, he])

theorem set_none_idle (w : Option Bool) : s.gauge.Idle (s.set none w).gauge := by
  apply Gauge.Idle.of_eq
  unfold set
  cases hwatched : s.watched with
  | none => rfl
  | some flags => simp [gauge, reads, incomings, hwatched]

theorem set_gauge (r w : Option Bool) :
    (s.set r w).gauge = { s.gauge with reads := (s.set r w).reads } := by
  unfold set
  cases s.watched with
  | none => rfl
  | some flags => rfl

theorem set_silent (r w : Option Bool) : s.gauge.Silent (s.set r w).gauge := by
  rw [set_gauge]
  exact ⟨id, rfl⟩

theorem set_false_reads (w : Option Bool) : (s.set (some false) w).reads = false := by
  unfold set
  cases hwatched : s.watched with
  | none => simp [reads, hwatched]
  | some flags => simp [reads]

theorem set_false_idle (w : Option Bool) : s.gauge.Idle (s.set (some false) w).gauge := by
  rw [set_gauge, set_false_reads]
  exact ⟨⟨id, rfl⟩, id, fun _ => rfl⟩

theorem destroy_idle : s.gauge.Idle s.destroy.gauge := by
  unfold destroy
  split_ifs
  · exact .refl _
  · exact ⟨⟨nofun, rfl⟩, id, fun _ => rfl⟩

theorem disconnect_idle : s.gauge.Idle s.disconnect.gauge := by
  unfold disconnect
  split_ifs
  · exact .refl _
  · exact emit_idle rfl

theorem abort_idle : s.gauge.Idle s.abort.gauge := disconnect_idle.trans destroy_idle

theorem closeNow_idle : s.gauge.Idle s.closeNow.gauge := by
  unfold closeNow
  split_ifs
  · have hset := @set_false_idle β s (some true)
    exact hset
  · have hdisconnect := @disconnect_idle β { s with canWrite := false, canClose := false }
    exact hdisconnect.trans destroy_idle

theorem write_idle (data : List β) : s.gauge.Idle (s.write data).gauge := by
  have hemit : s.gauge.Idle (s.emit (.write data)).gauge := emit_idle rfl
  simp only [write]
  split_ifs
  · exact .refl _
  · exact hemit
  · have hset := @set_none_idle β
      { s.emit (.write data) with writebuffer := s.writebuffer ++ [data], writeTimeout := true }
      (some true)
    exact hemit.trans hset

theorem starttlsNow_idle (h : s.writebuffer ≠ []) : s.gauge.Idle s.starttlsNow.gauge := by
  have hset := @set_none_idle β { s with canStarttls := false, ondrain := .starttls } (some true)
  simp only [starttlsNow, h, ne_eq, not_false_eq_true, if_true]
  exact hset

theorem starttlsNow_silent : s.gauge.Silent s.starttlsNow.gauge := by
  by_cases h : s.writebuffer = []
  · have hset : ∀ t : Interface β, t.gauge = s.gauge → s.gauge.Silent
        (({ t.emit .prepared with
          onwritable := .tlshandshake
          onreadable := .tlshandshake } : Interface β).set (some true) (some true)).gauge := by
      intro t ht
      have hemit : t.gauge.Idle (gauge { t.emit .prepared with
          onwritable := .tlshandshake
          onreadable := .tlshandshake }) := emit_idle rfl
      rw [← ht]
      exact hemit.toSilent.trans (set_silent _ _)
    simp only [starttlsNow, if_neg (not_not.mpr h)]
    split_ifs
    · exact hset { s with canStarttls := false, ondrain := .default } rfl
    · exact hset { s with canStarttls := false } rfl
  · exact (starttlsNow_idle h).toSilent

theorem resumeWrites_idle : s.gauge.Idle (s.call .resumeWrites).gauge := by
  have hset := @set_none_idle β { s with writeLock := false, writeTimeout := true } (some true)
  simp only [call]
  split_ifs
  · exact hset
  · exact .refl _

theorem call_close_idle : s.gauge.Idle (s.call .close).gauge := by
  simp only [call]
  split_ifs
  · exact closeNow_idle
  · exact .refl _

theorem pauseWrites_idle : s.gauge.Idle (s.call .pauseWrites).gauge := by
  have hset := @set_none_idle β { s with writeLock := true, writeTimeout := false } (some false)
  exact hset

theorem call_starttls_silent : s.gauge.Silent (s.call .starttls).gauge := by
  have hemit : s.gauge.Idle (s.emit .starttls).gauge := emit_idle rfl
  simp only [call]
  split_ifs
  · exact hemit.toSilent.trans starttlsNow_silent
  · exact (Gauge.Idle.refl _).toSilent

theorem call_starttls_idle (h : s.canStarttls = true → s.writebuffer ≠ []) :
    s.gauge.Idle (s.call .starttls).gauge := by
  have hemit : s.gauge.Idle (s.emit .starttls).gauge := emit_idle rfl
  simp only [call]
  split_ifs with hcan
  · exact hemit.trans (starttlsNow_idle (h hcan))
  · exact .refl _

theorem call_silent (c : Call β) : s.gauge.Silent (s.call c).gauge := by
  cases c with
  | write data => exact (write_idle data).toSilent
  | starttls => exact call_starttls_silent
  | close => exact call_close_idle.toSilent
  | pause => exact set_silent _ _
  | resume => exact set_silent _ _
  | pauseWrites => exact pauseWrites_idle.toSilent
  | resumeWrites => exact resumeWrites_idle.toSilent

theorem call_rest {c : Call β} (h : s.gauge.Rest gathered paused)
    (hcalm : CalmCall gathered paused s c) :
    (s.call c).gauge.Rest gathered (c.pausing paused) := by
  cases c with
  | write data => exact h.idle (write_idle data)
  | close => exact h.idle call_close_idle
  | pauseWrites => exact h.idle pauseWrites_idle
  | resumeWrites => exact h.idle resumeWrites_idle
  | resume => exact Gauge.rest_of fun _ => rfl
  | starttls =>
    intro hpaused hlive
    have hbefore := call_starttls_silent.destroyed hlive
    have hidle := call_starttls_idle fun hcan => hcalm hbefore hcan hpaused
    exact h.idle hidle hpaused hlive
  | pause =>
    intro _ hlive
    have hbefore : s.destroyed = false := (set_silent (some false) none).destroyed hlive
    obtain ⟨hgathered, hpausefor⟩ := hcalm hbefore
    exact ⟨hgathered, (set_false_idle none).pausefor hpausefor, set_false_reads none⟩

/-! ## Listeners -/

theorem calls_silent (cs : List (Call β)) : s.gauge.Silent (cs.foldl call s).gauge := by
  induction cs generalizing s with
  | nil => exact (Gauge.Idle.refl _).toSilent
  | cons c cs ih => exact (call_silent c).trans ih

theorem calls_rest {cs : List (Call β)} (h : s.gauge.Rest gathered paused)
    (hcalm : CalmCalls gathered paused (s.calls cs)) :
    (cs.foldl call s).gauge.Rest gathered (pausedAfter paused (s.calls cs)) := by
  induction cs generalizing s paused with
  | nil => exact h
  | cons c cs ih => exact ih (call_rest h hcalm.1) hcalm.2

theorem listen_silent (cs : List (Call β)) : s.gauge.Silent (s.listen cs).gauge := by
  unfold listen
  split_ifs
  · exact (Gauge.Idle.refl _).toSilent
  · exact calls_silent cs

theorem listen_rest {cs : List (Call β)} (h : s.gauge.Rest gathered paused)
    (hcalm : CalmCalls gathered paused (s.heard cs)) :
    (s.listen cs).gauge.Rest gathered (pausedAfter paused (s.heard cs)) := by
  unfold listen heard at *
  split_ifs at hcalm ⊢
  · exact h
  · exact calls_rest h hcalm

theorem onconnect_silent (writing : Bool) (cs : List (Call β)) :
    s.gauge.Silent (s.onconnect writing cs).gauge := by
  unfold onconnect
  split_ifs
  · exact (Gauge.Idle.refl _).toSilent
  · exact (Gauge.Idle.refl _).toSilent
  · have hemit := @emit_idle β { s with connected := true } (.connect writing) rfl
    exact hemit.toSilent.trans (listen_silent cs)

theorem onconnect_rest {writing : Bool} {cs : List (Call β)} (h : s.gauge.Rest gathered paused)
    (hcalm : CalmCalls gathered paused (s.heardConnecting writing cs)) :
    (s.onconnect writing cs).gauge.Rest gathered
      (pausedAfter paused (s.heardConnecting writing cs)) := by
  unfold onconnect
  unfold heardConnecting at hcalm ⊢
  by_cases hconnected : s.connected = true
  · rw [if_pos hconnected, if_pos (by simp [hconnected])]
    exact h
  · rw [if_neg hconnected]
    by_cases hdestroyed : s.destroyed = true
    · rw [if_pos hdestroyed, if_pos (by simp [hdestroyed])]
      exact h
    · have hlistens : ¬ (s.connected || s.destroyed) = true := by simp [hconnected, hdestroyed]
      have hconnecting := @emit_idle β { s with connected := true } (.connect writing) rfl
      rw [if_neg hlistens] at hcalm
      rw [if_neg hdestroyed, if_neg hlistens]
      exact listen_rest (h.idle hconnecting) hcalm

theorem passOn_destroyed {late : Bool} {data : List β} {cs : List (Call β)}
    (h : s.destroyed = true) : s.passOn late data cs = s := if_pos h

theorem passOn_rest {late : Bool} {data : List β} {cs : List (Call β)}
    (h : s.gauge.Rest gathered paused)
    (hcalm : CalmCalls gathered paused (s.heardIncoming late data cs)) :
    (s.passOn late data cs).gauge.Rest gathered
      (pausedAfter paused (s.heardIncoming late data cs)) := by
  unfold passOn
  unfold heardIncoming at hcalm ⊢
  split_ifs at hcalm ⊢
  · exact h
  · exact listen_rest h hcalm

/-! ## Reading -/

variable {env : Env β}

theorem scheduleRead_silent (dirty : Bool) : s.gauge.Silent (s.scheduleRead dirty).gauge := by
  unfold scheduleRead
  split_ifs
  · exact (Gauge.Idle.refl _).toSilent
  · have hset := @set_silent β { s with readTimeout := false, pausefor := true } (some false) none
    exact ⟨hset.destroyed, hset.incomings⟩
  · exact (Gauge.Idle.refl _).toSilent

theorem scheduleRead_rest {dirty : Bool} (h : s.gauge.Rest gathered paused)
    (hafter : s.destroyed = false → paused = true → dirty = false) :
    (s.scheduleRead dirty).gauge.Rest gathered paused := by
  intro hpaused hlive
  have hbefore : s.destroyed = false := (scheduleRead_silent dirty).destroyed hlive
  have hdirty := hafter hbefore hpaused
  have hsame : (s.scheduleRead dirty).gauge = s.gauge := by
    simp [scheduleRead, hbefore, hdirty, gauge, reads, incomings]
  rw [hsame]
  exact h hpaused hbefore

/-- What `receive` does once the listener has got what was received. -/
def concluding (s : Interface β) (env : Env β) : Interface β :=
  match env.received with
  | .all _ | .partly _ .timeout => s.scheduleRead env.dirty
  | .partly _ .wantread => (s.set (some true) none).scheduleRead env.dirty
  | .partly _ .wantwrite => (s.set none (some true)).scheduleRead env.dirty
  | .partly _ .other => s.abort

theorem receive_of_arrives (h : env.received.arrives) :
    s.receive env = (s.passing env).concluding env ∧
      s.heardReceiving env = s.heardReceived env.received.data env := by
  unfold receive concluding passing connecting heardReceiving
  cases hreceived : env.received with
  | all data => exact ⟨rfl, rfl⟩
  | partly data error =>
    rw [hreceived] at h
    have hne : data ≠ [] := h
    refine ⟨?_, if_pos hne⟩
    simp only [if_pos hne, Received.data]
    cases error with
    | wantread => rfl
    | wantwrite => rfl
    | timeout => rfl
    | other => rfl

theorem receive_of_not_arrives (h : ¬ env.received.arrives) :
    s.receive env = (s.emit (.received s.encrypted [])).concluding env ∧
      s.heardReceiving env = [] := by
  unfold receive concluding heardReceiving
  cases hreceived : env.received with
  | all data =>
    rw [hreceived] at h
    exact absurd trivial h
  | partly data error =>
    rw [hreceived] at h
    obtain rfl : data = [] := not_not.mp h
    refine ⟨?_, if_neg (not_not.mpr rfl)⟩
    cases error with
    | wantread => rfl
    | wantwrite => rfl
    | timeout => rfl
    | other => rfl

theorem concluding_silent : s.gauge.Silent (s.concluding env).gauge := by
  unfold concluding
  cases env.received with
  | all data => exact scheduleRead_silent _
  | partly data error =>
    cases error with
    | wantread => exact (set_silent _ _).trans (scheduleRead_silent _)
    | wantwrite => exact (set_silent _ _).trans (scheduleRead_silent _)
    | timeout => exact scheduleRead_silent _
    | other => exact abort_idle.toSilent

theorem concluding_rest (h : s.gauge.Rest gathered paused)
    (hafter : s.destroyed = false → paused = true →
      env.dirty = false ∧ ∀ data, env.received ≠ .partly data .wantread) :
    (s.concluding env).gauge.Rest gathered paused := by
  have hdirty : s.destroyed = false → paused = true → env.dirty = false :=
    fun hlive hpaused => (hafter hlive hpaused).1
  unfold concluding
  cases hreceived : env.received with
  | all data => exact scheduleRead_rest h hdirty
  | partly data error =>
    cases error with
    | wantread =>
      refine Gauge.rest_of fun hlive => Bool.eq_false_iff.mpr fun hpaused => ?_
      have hbefore := ((set_silent _ _).trans (scheduleRead_silent _)).destroyed hlive
      exact (hafter hbefore hpaused).2 data hreceived
    | wantwrite =>
      exact scheduleRead_rest (h.idle (set_none_idle _))
        fun hlive => hdirty ((set_none_idle _).destroyed hlive)
    | timeout => exact scheduleRead_rest h hdirty
    | other => exact h.idle abort_idle

theorem received_idle (data : List β) :
    s.gauge.Idle (s.emit (.received s.encrypted data)).gauge := emit_idle rfl

theorem receive_rest (hp : s.destroyed = false → paused = false)
    (hcalm : s.CalmReceiving gathered paused env) :
    (s.receive env).gauge.Rest gathered (pausedAfter paused (s.heardReceiving env)) := by
  have hfirst : s.gauge.Rest gathered paused := Gauge.rest_of hp
  have hrest := hfirst.idle (received_idle env.received.data)
  by_cases harrives : env.received.arrives
  · obtain ⟨hreceive, hheard⟩ := receive_of_arrives (s := s) harrives
    have hcalls := hcalm.calls
    have hafter := hcalm.after harrives
    rw [hheard] at hcalls hafter
    rw [hreceive, hheard]
    rw [heardReceived, calmCalls_append] at hcalls
    rw [heardReceived, pausedAfter_append] at hafter ⊢
    exact concluding_rest (passOn_rest (onconnect_rest hrest hcalls.1) hcalls.2) hafter
  · obtain ⟨hreceive, hheard⟩ := receive_of_not_arrives (s := s) harrives
    rw [hreceive, hheard]
    refine Gauge.rest_of fun hlive => hp ?_
    exact ((received_idle []).toSilent.trans concluding_silent).destroyed hlive

theorem receive_incomings (hcalm : s.CalmReceiving gathered paused env)
    (hpaused : pausedAfter paused (s.heardBefore env) = true) :
    (s.receive env).incomings = s.incomings := by
  by_cases harrives : env.received.arrives
  · have hgone : (s.connecting env).destroyed = true := by
      cases hlive : (s.connecting env).destroyed with
      | true => rfl
      | false => exact absurd ((hcalm.before harrives hlive).symm.trans hpaused) nofun
    have hconnecting : s.gauge.Silent (s.connecting env).gauge :=
      (received_idle env.received.data).toSilent.trans (onconnect_silent false env.connect)
    rw [(receive_of_arrives harrives).1, passing, passOn_destroyed hgone]
    exact (hconnecting.trans concluding_silent).incomings
  · rw [(receive_of_not_arrives harrives).1]
    exact ((received_idle []).toSilent.trans concluding_silent).incomings

/-! ## Writing -/

theorem flushed_idle : s.gauge.Idle s.flushed.gauge :=
  (emit_idle (e := .sent s.encrypted s.writebuffer.flatten) rfl).trans (set_none_idle (some false))

theorem drained_silent : s.gauge.Silent (s.drained env).gauge := by
  unfold drained
  cases s.ondrain with
  | default => exact listen_silent env.drain
  | starttls => exact starttlsNow_silent
  | close => exact closeNow_idle.toSilent

theorem drained_rest (h : s.gauge.Rest gathered paused)
    (hcalls : CalmCalls gathered paused (s.heardDrained env))
    (hstarttls : s.destroyed = false → s.ondrain = .starttls → paused = false) :
    (s.drained env).gauge.Rest gathered (pausedAfter paused (s.heardDrained env)) := by
  unfold drained
  unfold heardDrained at hcalls ⊢
  cases hdrain : s.ondrain with
  | default =>
    rw [hdrain] at hcalls
    exact listen_rest h hcalls
  | starttls =>
    exact Gauge.rest_of fun hlive => hstarttls (starttlsNow_silent.destroyed hlive) hdrain
  | close => exact h.idle closeNow_idle

theorem sendPartly_idle (data : List β) (count : Option ℕ) :
    s.gauge.Idle (s.sendPartly data count).gauge := by
  unfold sendPartly
  cases count with
  | none => exact emit_idle rfl
  | some count => exact emit_idle (e := .sent s.encrypted (data.take count)) rfl

/-- What `send` does after `onconnect`. -/
def sending (s : Interface β) (env : Env β) : Interface β :=
  match env.sent with
  | .all => s.flushed.drained env
  | .partly count .wantread =>
    (s.sendPartly s.writebuffer.flatten count).set (some true) none
  | .partly count .other => (s.sendPartly s.writebuffer.flatten count).abort
  | .partly count _ => (s.sendPartly s.writebuffer.flatten count).set none (some true)

theorem send_eq : s.send env =
    if (s.onconnect true env.connect).destroyed then s.onconnect true env.connect
    else (s.onconnect true env.connect).sending env := by
  unfold send sending
  simp only
  split_ifs
  · rfl
  · cases env.sent with
    | all => rfl
    | partly count error =>
      cases error with
      | wantread => rfl
      | wantwrite => rfl
      | timeout => rfl
      | other => rfl

theorem sending_silent : s.gauge.Silent (s.sending env).gauge := by
  unfold sending
  cases env.sent with
  | all => exact flushed_idle.toSilent.trans drained_silent
  | partly count error =>
    have hpartly := @sendPartly_idle β s s.writebuffer.flatten count
    cases error with
    | wantread => exact hpartly.toSilent.trans (set_silent _ _)
    | wantwrite => exact hpartly.toSilent.trans (set_silent _ _)
    | timeout => exact hpartly.toSilent.trans (set_silent _ _)
    | other => exact (hpartly.trans abort_idle).toSilent

theorem send_silent : s.gauge.Silent (s.send env).gauge := by
  rw [send_eq]
  split_ifs
  · exact onconnect_silent true env.connect
  · exact (onconnect_silent true env.connect).trans sending_silent

theorem sending_rest (h : s.gauge.Rest gathered paused)
    (hcalls : env.sent = .all → CalmCalls gathered paused (s.flushed.heardDrained env))
    (hafter : s.destroyed = false →
      (env.sent = .all ∧ s.ondrain = .starttls ∨ ∃ count, env.sent = .partly count .wantread) →
        paused = false) :
    (s.sending env).gauge.Rest gathered
      (pausedAfter paused (match env.sent with
        | .all => s.flushed.heardDrained env
        | .partly _ _ => [])) := by
  have hlives : (s.sending env).destroyed = false → s.destroyed = false := sending_silent.destroyed
  unfold sending at *
  cases hsent : env.sent with
  | all =>
    have hdrain : s.flushed.ondrain = s.ondrain := by
      change (((s.emit _).set none (some false)).ondrain) = _
      unfold set
      cases (s.emit (.sent s.encrypted s.writebuffer.flatten)).watched with
      | none => rfl
      | some flags => rfl
    refine drained_rest (h.idle flushed_idle) (hcalls hsent) ?_
    intro hlive hstarttls
    exact hafter (flushed_idle.destroyed hlive) (.inl ⟨hsent, hdrain.symm.trans hstarttls⟩)
  | partly count error =>
    have hpartly := @sendPartly_idle β s s.writebuffer.flatten count
    cases error with
    | wantread =>
      rw [hsent] at hlives
      exact Gauge.rest_of fun hlive => hafter (hlives hlive) (.inr ⟨count, hsent⟩)
    | wantwrite => exact h.idle (hpartly.trans (set_none_idle _))
    | timeout => exact h.idle (hpartly.trans (set_none_idle _))
    | other => exact h.idle (hpartly.trans abort_idle)

theorem send_rest (h : s.gauge.Rest gathered paused) (hcalm : s.CalmSending gathered paused env) :
    (s.send env).gauge.Rest gathered (pausedAfter paused (s.heardSending env)) := by
  obtain ⟨hcalls, hafter⟩ := hcalm
  unfold heardSending at hcalls ⊢
  rw [calmCalls_append] at hcalls
  obtain ⟨hconnecting, hrest⟩ := hcalls
  rw [send_eq, pausedAfter_append]
  have hconnected := onconnect_rest h hconnecting
  simp only at hrest ⊢
  split_ifs at hrest ⊢ with hgone
  · exact hconnected
  · refine sending_rest hconnected ?_ hafter
    intro hall
    rw [hall] at hrest
    exact hrest

/-! ## The handshake -/

theorem add_silent (r w : Bool) : s.gauge.Silent (s.add r w).gauge := by
  unfold add
  split_ifs
  · exact (Gauge.Idle.refl _).toSilent
  · exact ⟨id, rfl⟩

theorem wrapped_silent : s.gauge.Silent s.wrapped.gauge := by
  have hemit := @emit_idle β
    { s with tls := true, writeTimeout := false, readTimeout := false } .handshake rfl
  exact ⟨hemit.destroyed, hemit.incomings⟩

theorem tlshandshake_silent : s.gauge.Silent (s.tlshandshake env).gauge := by
  unfold tlshandshake
  simp only
  split_ifs
  · have hdel : s.gauge.Silent (gauge (del (emit
        { s with tls := true, writeTimeout := false, readTimeout := false } .handshake))) :=
      @wrapped_silent β s
    exact hdel.trans abort_idle.toSilent
  · have hlisten := (@wrapped_silent β s).trans (listen_silent env.starttls)
    have hadd : ∀ t : Interface β, t.gauge = (s.wrapped.listen env.starttls).gauge →
        s.gauge.Silent (t.add true true).gauge :=
      fun t ht => hlisten.trans (ht ▸ add_silent true true)
    exact hadd _ rfl
  · cases env.handshake with
    | ok =>
      have hlisten := @listen_silent β
        { s with
          writeTimeout := false
          readTimeout := false
          onwritable := .default
          onreadable := .default } env.status
      have hset : ∀ t : Interface β, s.gauge.Silent t.gauge →
          s.gauge.Silent (t.set (some true) (some true)).gauge :=
        fun t ht => ht.trans (set_silent _ _)
      exact hset _ hlisten
    | failed error =>
      have hset := @set_silent β { s with writeTimeout := false, readTimeout := false }
      cases error with
      | wantread => exact hset (some true) (some false)
      | wantwrite => exact hset (some false) (some true)
      | timeout =>
        exact (@abort_idle β { s with writeTimeout := false, readTimeout := false }).toSilent
      | other =>
        exact (@abort_idle β { s with writeTimeout := false, readTimeout := false }).toSilent

theorem tlshandshake_wantwrite_idle (htls : s.tls = true)
    (hwantwrite : env.handshake = .failed .wantwrite) :
    s.gauge.Idle (s.tlshandshake env).gauge ∧ s.heardHandshaking env = [] := by
  have hset := @set_false_idle β { s with writeTimeout := false, readTimeout := false } (some true)
  have hwrapped : ¬ (!s.tls) = true := by simp [htls]
  simp only [tlshandshake, heardHandshaking, if_neg hwrapped, hwantwrite]
  exact ⟨hset, trivial⟩

theorem tlshandshake_rest (h : s.gauge.Rest gathered paused)
    (hcalm : s.CalmHandshaking gathered paused env) :
    (s.tlshandshake env).gauge.Rest gathered (pausedAfter paused (s.heardHandshaking env)) := by
  by_cases hwantwrite : s.tls = true ∧ env.handshake = .failed .wantwrite
  · obtain ⟨hidle, hheard⟩ := tlshandshake_wantwrite_idle hwantwrite.1 hwantwrite.2
    rw [hheard]
    exact h.idle hidle
  · exact Gauge.rest_of fun hlive =>
      hcalm.after hlive fun htls heq => hwantwrite ⟨htls, heq⟩

/-! ## Inputs -/

theorem readable_rest (hp : s.destroyed = false → paused = false)
    (hcalm : s.CalmReadable gathered paused env) :
    (s.readable env).gauge.Rest gathered (pausedAfter paused (s.heardReadable env)) := by
  unfold readable heardReadable
  unfold CalmReadable at hcalm
  cases hhandler : s.onreadable with
  | default =>
    rw [hhandler] at hcalm
    exact receive_rest hp hcalm
  | tlshandshake =>
    rw [hhandler] at hcalm
    exact tlshandshake_rest (Gauge.rest_of hp) hcalm
  | noop => exact Gauge.rest_of hp

theorem readable_incomings (hcalm : s.CalmReadable gathered paused env)
    (hpaused : pausedAfter paused (s.heardBefore env) = true) :
    (s.readable env).incomings = s.incomings := by
  unfold readable
  unfold CalmReadable at hcalm
  cases hhandler : s.onreadable with
  | default =>
    rw [hhandler] at hcalm
    exact receive_incomings hcalm hpaused
  | tlshandshake => exact tlshandshake_silent.incomings
  | noop => rfl

theorem writable_rest (h : s.gauge.Rest gathered paused)
    (hcalm : s.CalmWritable gathered paused env) :
    (s.writable env).gauge.Rest gathered (pausedAfter paused (s.heardWritable env)) := by
  unfold writable heardWritable
  unfold CalmWritable at hcalm
  cases hhandler : s.onwritable with
  | default =>
    rw [hhandler] at hcalm
    exact send_rest h hcalm
  | tlshandshake =>
    rw [hhandler] at hcalm
    exact tlshandshake_rest h hcalm
  | noop => exact h

theorem writable_silent : s.gauge.Silent (s.writable env).gauge := by
  unfold writable
  cases s.onwritable with
  | default => exact send_silent
  | tlshandshake => exact tlshandshake_silent
  | noop => exact (Gauge.Idle.refl _).toSilent

end Interface

/-! ## Runs -/

namespace Owned

variable {o : Owned β} {env : Env β}

/-- No `onincoming` has come while the connection was paused, and none is about to. -/
structure Quiet (o : Owned β) : Prop where
  rest : o.conn.gauge.Rest o.gathered o.paused
  undisturbed : o.disturbed = false

theorem quiet_new : Quiet (Owned.new : Owned β) := ⟨nofun, rfl⟩

theorem Quiet.advance (h : o.Quiet) {i : Input β}
    (hrest : (o.conn.step i).gauge.Rest o.gathered (pausedAfter o.paused (o.conn.heardStep i)))
    (hsilent : o.pausedAtIncoming i = true → (o.conn.step i).incomings = o.conn.incomings) :
    (o.advance i).Quiet := by
  refine ⟨hrest, ?_⟩
  change (o.disturbed || _) = false
  rw [h.undisturbed, Bool.false_or, Bool.and_eq_false_iff, decide_eq_false_iff_not]
  by_cases hpaused : o.pausedAtIncoming i = true
  · exact .inr (hsilent hpaused).not_gt
  · exact .inl (Bool.eq_false_iff.mpr hpaused)

theorem Quiet.gather (h : o.Quiet) {hangup : Bool} (hcalm : o.Calm (.gather hangup)) :
    (o.step (.gather hangup)).Quiet := by
  refine ⟨?_, h.undisturbed⟩
  intro hpaused hlive
  obtain ⟨hgathered, hpausefor, hreads⟩ := h.rest hpaused hlive
  refine ⟨?_, hpausefor, hreads⟩
  have hreads : o.conn.reads = false := hreads
  have hhangup : hangup = false :=
    Bool.eq_false_iff.mpr fun hhangup => absurd ((hcalm hhangup hlive).symm.trans hpaused) nofun
  change (o.gathered || o.conn.reads || o.conn.watched.isSome && hangup) = false
  rw [hgathered, hreads, hhangup]
  simp

theorem Quiet.call (h : o.Quiet) {c : Call β} (hcalm : o.Calm (.input (.call c))) :
    (o.step (.input (.call c))).Quiet :=
  h.advance (Interface.call_rest h.rest hcalm) fun _ => (Interface.call_silent c).incomings

theorem Quiet.writable (h : o.Quiet) (hcalm : o.Calm (.input (.writable env))) :
    (o.step (.input (.writable env))).Quiet := by
  refine h.advance ?_ fun _ => ?_
  · unfold Interface.step Interface.heardStep
    simp only
    split_ifs with hgone
    · exact h.rest
    · exact Interface.writable_rest h.rest (hcalm (Bool.eq_false_iff.mpr hgone))
  · unfold Interface.step
    simp only
    split_ifs
    · rfl
    · exact Interface.writable_silent.incomings

theorem Quiet.timeout (h : o.Quiet) : (o.step (.input .timeout)).Quiet := by
  have hidle : o.conn.gauge.Idle (o.conn.step .timeout).gauge := by
    unfold Interface.step
    simp only
    split_ifs
    · exact Interface.abort_idle
    · exact .refl _
  exact h.advance (h.rest.idle hidle) fun _ => hidle.incomings

theorem Quiet.readable (h : o.Quiet) (hcalm : o.Calm (.input (.readable env))) :
    (o.step (.input (.readable env))).Quiet := by
  change Quiet
    (if o.gathered then Owned.advance { o with gathered := false } (.readable env) else o)
  split_ifs with hgathered
  · have hp : o.conn.destroyed = false → o.paused = false := fun hlive =>
      Bool.eq_false_iff.mpr fun hpaused =>
        absurd ((h.rest hpaused hlive).1.symm.trans hgathered) nofun
    have hcleared : Quiet { o with gathered := false } := ⟨Gauge.rest_of hp, h.undisturbed⟩
    refine hcleared.advance ?_ fun hpaused => ?_
    · unfold Interface.step Interface.heardStep
      simp only
      split_ifs with hgone
      · exact Gauge.rest_of hp
      · exact Interface.readable_rest hp (hcalm hgathered (Bool.eq_false_iff.mpr hgone))
    · unfold Interface.step
      simp only
      split_ifs with hgone
      · rfl
      · exact Interface.readable_incomings (hcalm hgathered (Bool.eq_false_iff.mpr hgone)) hpaused
  · exact h

theorem Quiet.retry (h : o.Quiet) {dirty : Bool} (hcalm : o.Calm (.input (.retry dirty env))) :
    (o.step (.input (.retry dirty env))).Quiet := by
  by_cases hpausefor : o.conn.pausefor = true
  · have hp : o.conn.destroyed = false → o.paused = false := fun hlive =>
      Bool.eq_false_iff.mpr fun hpaused =>
        absurd ((h.rest hpaused hlive).2.1.symm.trans hpausefor) nofun
    by_cases hread : o.conn.destroyed = false ∧ dirty = true
    · obtain ⟨hlive, rfl⟩ := hread
      obtain ⟨hreadable, hresumed⟩ := hcalm hpausefor hlive rfl
      have hstep : o.conn.step (.retry true env) =
          (Interface.readable { o.conn with pausefor := false } env).set (some true) none := by
        simp [Interface.step, Interface.retry, hpausefor, hlive]
      have hheard : o.conn.heardStep (.retry true env) =
          Interface.heardReadable { o.conn with pausefor := false } env := by
        simp [Interface.heardStep, hpausefor, hlive]
      refine h.advance ?_ fun hpaused => ?_
      · rw [hstep, hheard]
        exact Gauge.rest_of fun hafter =>
          hresumed ((Interface.set_silent (some true) none).destroyed hafter)
      · rw [hstep]
        exact ((Interface.set_silent (some true) none).incomings).trans
          (Interface.readable_incomings hreadable hpaused)
    · have hnone : (!o.conn.destroyed && dirty) = false := by
        cases hgone : o.conn.destroyed with
        | true => rfl
        | false =>
          cases dirty with
          | true => exact absurd ⟨hgone, rfl⟩ hread
          | false => rfl
      have hstep : o.conn.step (.retry dirty env) =
          Interface.set { o.conn with pausefor := false } (some true) none := by
        simp [Interface.step, Interface.retry, hpausefor, hnone]
      have hheard : o.conn.heardStep (.retry dirty env) = [] := by
        simp [Interface.heardStep, hpausefor, hnone]
      have hsilent := @Interface.set_silent β { o.conn with pausefor := false } (some true) none
      refine h.advance ?_ fun _ => ?_
      · rw [hstep, hheard]
        exact Gauge.rest_of fun hafter => hp (hsilent.destroyed hafter)
      · rw [hstep]
        exact hsilent.incomings
  · have hstep : o.conn.step (.retry dirty env) = o.conn := if_neg hpausefor
    have hheard : o.conn.heardStep (.retry dirty env) = [] := by
      simp [Interface.heardStep, hpausefor]
    refine h.advance ?_ fun _ => by rw [hstep]
    rw [hstep, hheard]
    exact h.rest

/-- Some data is received while the owner pauses the connection in `onincoming`. -/
def interrupted (dirty : Bool) : Env ℕ where
  received := .all [1]
  dirty := dirty
  sent := .all
  wrapped := true
  handshake := .ok
  connect := []
  incoming := [.pause]
  drain := []
  starttls := []
  status := []

/-- The TLS library holds more data when the connection is paused, which is read by the timer of
`pausefor`. -/
def buffered : List (Happening ℕ) :=
  [.gather false, .input (.readable (interrupted true)),
    .input (.retry true (interrupted false))]

end Owned

end Prosody.ServerEpoll
