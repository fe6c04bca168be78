import Prosody.Library.Runs
import Prosody.Net.Starttls

/-! # Output of a connection

What is given to `write` is sent in order and once, and `close` ends the connection when all of it
has been sent, unless `starttls` takes the place of the waiting `close`. -/

namespace Prosody.ServerEpoll

variable {β : Type}

/-! ## Traces -/

/-- The bytes that the socket takes. -/
def Event.taken : Event β → List β
  | sent _ data => data
  | _ => []

def taken (log : List (Event β)) : List β := log.flatMap Event.taken

def accepted (log : List (Event β)) : List β := log.flatMap Event.written

/-- All that has been accepted is sent or waits, in order. A connection can be closed, and what has
been closed waits for its buffer alone; only what has been closed is destroyed. -/
structure Delivers (s : Interface β) : Prop where
  complete : taken s.log ++ s.writebuffer.flatten = accepted s.log
  closes : (s.call .close).canWrite = false
  closed : s.canWrite = false → (s.writebuffer = [] ↔ s.destroyed)
  cut : s.destroyed → s.canWrite = false

/-! ## The calls of an input -/

namespace Interface

variable (s : Interface β)

/-- Calls one after the other, each with the interface as it finds it. -/
def calls : Interface β → List (Call β) → List (Interface β × Call β)
  | _, [] => []
  | s, c :: cs => (s, c) :: calls (s.call c) cs

/-- The calls made in `listen`. -/
def heard (cs : List (Call β)) : List (Interface β × Call β) :=
  if s.destroyed then [] else s.calls cs

/-- The calls made in `onconnect`. -/
def heardConnecting (writing : Bool) (cs : List (Call β)) : List (Interface β × Call β) :=
  if s.connected || s.destroyed then []
  else ({ s with connected := true }.emit (.connect writing)).heard cs

/-- The calls made in `passOn`. -/
def heardIncoming (late : Bool) (data : List β) (cs : List (Call β)) :
    List (Interface β × Call β) :=
  if s.destroyed then [] else (s.emit (.incoming s.encrypted late data)).heard cs

/-- The calls made when `data` has been received. -/
def heardReceived (data : List β) (env : Env β) : List (Interface β × Call β) :=
  let received := s.emit (.received s.encrypted data)
  received.heardConnecting false env.connect ++
    (received.onconnect false env.connect).heardIncoming (!s.canStarttls) data env.incoming

/-- The calls made in `receive`. -/
def heardReceiving (env : Env β) : List (Interface β × Call β) :=
  match env.received with
  | .all data => s.heardReceived data env
  | .partly data _ => if data ≠ [] then s.heardReceived data env else []

/-- The interface when everything in the buffer has been sent. -/
def flushed : Interface β :=
  { (s.emit (.sent s.encrypted s.writebuffer.flatten)).set none (some false) with
    writebuffer := []
    writeTimeout := false }

/-- The calls made in `drained`. -/
def heardDrained (env : Env β) : List (Interface β × Call β) :=
  match s.ondrain with
  | .default => s.heard env.drain
  | _ => []

/-- The calls made in `send`. -/
def heardSending (env : Env β) : List (Interface β × Call β) :=
  s.heardConnecting true env.connect ++
    let s := s.onconnect true env.connect
    if s.destroyed then []
    else match env.sent with
      | .all => s.flushed.heardDrained env
      | .partly _ _ => []

/-- The interface that `on("starttls")` finds. -/
def wrapped : Interface β :=
  { ({ s with tls := true, writeTimeout := false, readTimeout := false }.emit .handshake).del with
    encrypted := true }

/-- The calls made in `tlshandshake`. -/
def heardHandshaking (env : Env β) : List (Interface β × Call β) :=
  if !s.tls then if env.wrapped then s.wrapped.heard env.starttls else []
  else match env.handshake with
    | .ok =>
      ({ s with
        writeTimeout := false
        readTimeout := false
        onwritable := .default
        onreadable := .default } : Interface β).heard env.status
    | .failed _ => []

def heardReadable (env : Env β) : List (Interface β × Call β) :=
  match s.onreadable with
  | .default => s.heardReceiving env
  | .tlshandshake => s.heardHandshaking env
  | .noop => []

def heardWritable (env : Env β) : List (Interface β × Call β) :=
  match s.onwritable with
  | .default => s.heardSending env
  | .tlshandshake => s.heardHandshaking env
  | .noop => []

/-- All calls that an input leads to. -/
def heardStep : Input β → List (Interface β × Call β)
  | .call c => [(s, c)]
  | .readable env => if s.destroyed then [] else s.heardReadable env
  | .writable env => if s.destroyed then [] else s.heardWritable env
  | .retry dirty env =>
    if s.pausefor && !s.destroyed && dirty then
      ({ s with pausefor := false } : Interface β).heardReadable env
    else []
  | .timeout => []

/-! ## What is needed of them -/

/-- TLS has been prepared, and the connection has not been wrapped or is just being wrapped. -/
def Preparing : Prop := s.onwritable = .tlshandshake ∧ (s.tls = false ∨ s.watched = none)

/-- `starttls` does not come while `close` waits for the buffer, and `close` does not have to wait
for it while TLS is being prepared. -/
def Timely : Call β → Prop
  | .starttls => s.canStarttls = true → s.canWrite = true ∨ s.destroyed = true
  | .close => s.canClose = true → s.writebuffer = [] ∨ ¬ s.Preparing
  | _ => True

/-- Nothing that the socket and the TLS library are asked for fails for good, and no timeout
expires. -/
def Lasting : Input β → Prop
  | .call _ => True
  | .readable env | .writable env | .retry _ env =>
    (∀ data, env.received ≠ .partly data .other) ∧ (∀ count, env.sent ≠ .partly count .other) ∧
      env.wrapped = true ∧ env.handshake ≠ .failed .timeout ∧ env.handshake ≠ .failed .other
  | .timeout => False

/-- The condition on an input of a run. -/
def Steady (i : Input β) : Prop :=
  Lasting i ∧ ∀ heard ∈ s.heardStep i, heard.1.Timely heard.2

end Interface

/-! ## The invariant -/

structure Shape (β : Type) where
  buffer : List (List β)
  taken : List β
  accepted : List β
  canWrite : Bool
  canClose : Bool
  destroyed : Bool
  ondrain : Drain
  onreadable : Handler
  onwritable : Handler
  tls : Bool
  unwatched : Bool

/-- The buffer holds the rest of what was accepted, and a `close` that waits is not lost. -/
structure Shape.Kept (c : Shape β) : Prop where
  complete : c.taken ++ c.buffer.flatten = c.accepted
  same : c.onreadable = c.onwritable
  shut : c.canClose = false → c.canWrite = false
  cut : c.destroyed = true → c.canWrite = false ∧ c.buffer = []
  waits : c.canWrite = false → c.destroyed = false → c.buffer ≠ [] ∧ c.ondrain = .close ∧
    ¬ (c.onwritable = .tlshandshake ∧ (c.tls = false ∨ c.unwatched = true))

namespace Shape.Kept

variable {c : Shape β}

theorem write (h : c.Kept) (hopen : c.canWrite = true) (data : List β) :
    Kept { c with buffer := c.buffer ++ [data], accepted := c.accepted ++ data } where
  complete := by
    rw [← h.complete]
    simp
  same := h.same
  shut := h.shut
  cut hdestroyed := by
    have hclosed := (h.cut hdestroyed).1
    rw [hopen] at hclosed
    cases hclosed
  waits hclosed := by
    have hclosed : c.canWrite = false := hclosed
    rw [hopen] at hclosed
    cases hclosed

/-- `close` has to wait for the buffer. -/
theorem wait (h : c.Kept) (hne : c.buffer ≠ [])
    (hnot : ¬ (c.onwritable = .tlshandshake ∧ (c.tls = false ∨ c.unwatched = true))) :
    Kept { c with canWrite := false, ondrain := .close } where
  complete := h.complete
  same := h.same
  shut _ := rfl
  cut hdestroyed := absurd (h.cut hdestroyed).2 hne
  waits _ _ := ⟨hne, rfl, hnot⟩

theorem gone (h : c.Kept) (hempty : c.buffer = []) (b : Bool) :
    Kept { c with
      canWrite := false
      canClose := false
      destroyed := true
      onreadable := .noop
      onwritable := .noop
      unwatched := b } where
  complete := h.complete
  same := rfl
  shut _ := rfl
  cut _ := ⟨rfl, hempty⟩
  waits _ hlive := by cases hlive

/-- `close` does nothing to a connection that is destroyed. -/
theorem again (h : c.Kept) (hdead : c.destroyed = true) (hempty : c.buffer = []) :
    Kept { c with canWrite := false, canClose := false } where
  complete := h.complete
  same := h.same
  shut _ := rfl
  cut _ := ⟨rfl, hempty⟩
  waits _ hlive := by
    have hlive : c.destroyed = false := hlive
    rw [hdead] at hlive
    cases hlive

/-- While no `close` waits, `ondrain` and the handlers may change. -/
theorem change (h : c.Kept) (hopen : c.canWrite = true ∨ c.destroyed = true) (d : Drain)
    (handler : Handler) (tls unwatched : Bool) :
    Kept { c with
      ondrain := d
      onreadable := handler
      onwritable := handler
      tls := tls
      unwatched := unwatched } where
  complete := h.complete
  same := rfl
  shut := h.shut
  cut := h.cut
  waits hclosed hlive := by
    have hclosed : c.canWrite = false := hclosed
    have hlive : c.destroyed = false := hlive
    rw [hclosed, hlive] at hopen
    cases hopen with
    | inl hopen => cases hopen
    | inr hdead => cases hdead

theorem sendPartly (h : c.Kept) (hlive : c.destroyed = false) (n : ℕ) :
    Kept { c with
      taken := c.taken ++ c.buffer.flatten.take n
      buffer := [c.buffer.flatten.drop n] } where
  complete := by
    rw [← h.complete]
    simp
  same := h.same
  shut := h.shut
  cut hdestroyed := by
    have hdestroyed : c.destroyed = true := hdestroyed
    rw [hlive] at hdestroyed
    cases hdestroyed
  waits hclosed _ := ⟨List.cons_ne_nil _ _, (h.waits hclosed hlive).2⟩

theorem flush (h : c.Kept) (hopen : c.canWrite = true) :
    Kept { c with taken := c.taken ++ c.buffer.flatten, buffer := [] } where
  complete := by
    rw [← h.complete]
    simp
  same := h.same
  shut := h.shut
  cut hdestroyed := ⟨(h.cut hdestroyed).1, rfl⟩
  waits hclosed := by
    have hclosed : c.canWrite = false := hclosed
    rw [hopen] at hclosed
    cases hclosed

theorem flushGone (h : c.Kept) :
    Kept { c with
      taken := c.taken ++ c.buffer.flatten
      buffer := []
      canWrite := false
      canClose := false
      destroyed := true
      onreadable := .noop
      onwritable := .noop
      unwatched := true } where
  complete := by
    rw [← h.complete]
    simp
  same := rfl
  shut _ := rfl
  cut _ := ⟨rfl, rfl⟩
  waits _ hlive := by cases hlive

theorem settle (h : c.Kept) : Kept { c with onreadable := .default, onwritable := .default } where
  complete := h.complete
  same := rfl
  shut := h.shut
  cut := h.cut
  waits hclosed hlive := by
    obtain ⟨hne, hdrain, -⟩ := h.waits hclosed hlive
    exact ⟨hne, hdrain, fun hp => by cases hp.1⟩

end Shape.Kept

namespace Interface

def shape (s : Interface β) : Shape β where
  buffer := s.writebuffer
  taken := ServerEpoll.taken s.log
  accepted := accepted s.log
  canWrite := s.canWrite
  canClose := s.canClose
  destroyed := s.destroyed
  ondrain := s.ondrain
  onreadable := s.onreadable
  onwritable := s.onwritable
  tls := s.tls
  unwatched := s.watched.isNone

def Kept (s : Interface β) : Prop := s.shape.Kept

variable {s t : Interface β}

theorem Kept.of_eq {c : Shape β} (h : c.Kept) (hshape : t.shape = c) : t.Kept := by
  unfold Kept
  rwa [hshape]

theorem Kept.of_shape (h : s.Kept) (hshape : t.shape = s.shape) : t.Kept := by
  unfold Kept
  rwa [hshape]

@[simp] theorem set_shape (s : Interface β) (r w : Option Bool) : (s.set r w).shape = s.shape := by
  unfold set
  split
  · rename_i heq
    simp [shape, heq]
  · rfl

theorem emit_shape (s : Interface β) {e : Event β} (htaken : e.taken = [])
    (hwritten : e.written = []) : (s.emit e).shape = s.shape := by
  simp [shape, emit, ServerEpoll.taken, accepted, htaken, hwritten]

theorem new_kept : (new : Interface β).Kept where
  complete := rfl
  same := rfl
  shut h := by cases h
  cut h := by cases h
  waits h := by cases h

/-! ## Calls -/

theorem write_kept (h : s.Kept) (data : List β) : (s.write data).Kept := by
  unfold write
  split
  · exact h
  · rename_i hcan
    have hopen : s.canWrite = true := by simpa using hcan
    have hwritten : ({ s.emit (.write data) with
        writebuffer := s.writebuffer ++ [data] } : Interface β).Kept := by
      have hkept := Shape.Kept.write h hopen data
      unfold Kept
      convert hkept using 1
      simp [shape, emit, ServerEpoll.taken, accepted, Event.taken, Event.written]
    simp only
    split
    · exact hwritten
    · exact hwritten.of_shape ((set_shape _ _ _).trans rfl)

theorem abort_shape (hlive : s.destroyed = false) :
    s.abort.shape = { s.shape with
      canClose := false
      destroyed := true
      onreadable := .noop
      onwritable := .noop
      unwatched := true } := by
  have hdisconnect : s.disconnect = s.emit .disconnect := if_neg (by simp [hlive])
  have hlive' : (s.emit .disconnect).destroyed = false := hlive
  rw [abort, hdisconnect, destroy, if_neg (by simp [hlive'])]
  simp [shape, emit, ServerEpoll.taken, accepted, Event.taken, Event.written]

theorem abort_dead (hdead : s.destroyed = true) : s.abort = s := by
  simp [abort, disconnect, destroy, hdead]

theorem closeNow_kept (h : s.Kept) (ht : s.writebuffer = [] ∨ ¬ s.Preparing) :
    s.closeNow.Kept := by
  unfold closeNow
  split
  · rename_i hne
    have hnot : ¬ s.Preparing := ht.resolve_left hne
    have hkept := Shape.Kept.wait h hne (by
      simpa only [Preparing, shape, Option.isNone_iff_eq_none] using hnot)
    have hset := set_shape s (some false) (some true)
    simp only [shape, Shape.mk.injEq] at hset
    refine Kept.of_eq hkept ?_
    simp only [shape, hset]
  · rename_i hempty
    have hempty : s.writebuffer = [] := by simpa using hempty
    by_cases hdestroyed : s.destroyed = true
    · have hdead := abort_dead (s := { s with canWrite := false, canClose := false }) hdestroyed
      exact Kept.of_eq (Shape.Kept.again h hdestroyed hempty) ((congrArg shape hdead).trans rfl)
    · rw [Bool.not_eq_true] at hdestroyed
      exact Kept.of_eq (Shape.Kept.gone h hempty true)
        (abort_shape (s := { s with canWrite := false, canClose := false }) hdestroyed)

theorem starttlsNow_kept (h : s.Kept) (hopen : s.canWrite = true ∨ s.destroyed = true) :
    s.starttlsNow.Kept := by
  unfold starttlsNow
  simp only
  have hsame : s.onreadable = s.onwritable := h.same
  split
  · refine Kept.of_shape ?_ (set_shape _ _ _)
    refine Kept.of_eq (Shape.Kept.change h hopen .starttls s.onwritable s.tls s.watched.isNone) ?_
    simp only [shape, hsame]
  · refine Kept.of_shape ?_ (set_shape _ _ _)
    refine Kept.of_eq (Shape.Kept.change h hopen
      (if s.ondrain = .starttls then .default else s.ondrain) .tlshandshake s.tls
      s.watched.isNone) ?_
    split
    · simp [shape, emit, ServerEpoll.taken, accepted, Event.taken, Event.written]
    · simp [shape, emit, ServerEpoll.taken, accepted, Event.taken, Event.written]

theorem call_kept (h : s.Kept) {c : Call β} (ht : s.Timely c) : (s.call c).Kept := by
  cases c with
  | write data => exact write_kept h data
  | starttls =>
    simp only [call]
    split
    · rename_i hcan
      exact starttlsNow_kept (h.of_shape (emit_shape s rfl rfl)) (ht hcan)
    · exact h
  | close =>
    simp only [call]
    split
    · rename_i hcan
      exact closeNow_kept h (ht hcan)
    · exact h
  | pause => exact h.of_shape (set_shape _ _ _)
  | resume => exact h.of_shape (set_shape _ _ _)
  | pauseWrites => exact h.of_shape ((set_shape _ _ _).trans rfl)
  | resumeWrites =>
    simp only [call]
    split
    · exact h.of_shape ((set_shape _ _ _).trans rfl)
    · exact h.of_shape rfl

variable {cs : List (Call β)}

theorem calls_kept (h : s.Kept)
    (ht : ∀ heard ∈ s.calls cs, heard.1.Timely heard.2) : (cs.foldl call s).Kept := by
  induction cs generalizing s with
  | nil => exact h
  | cons c cs ih =>
    exact ih (call_kept h (ht (s, c) List.mem_cons_self))
      fun heard hmem => ht heard (List.mem_cons_of_mem _ hmem)

theorem listen_kept (h : s.Kept)
    (ht : ∀ heard ∈ s.heard cs, heard.1.Timely heard.2) : (s.listen cs).Kept := by
  unfold listen
  unfold heard at ht
  split
  · exact h
  · rename_i hlive
    rw [if_neg hlive] at ht
    exact calls_kept h ht

theorem onconnect_kept (h : s.Kept) {writing : Bool}
    (ht : ∀ heard ∈ s.heardConnecting writing cs, heard.1.Timely heard.2) :
    (s.onconnect writing cs).Kept := by
  unfold onconnect
  unfold heardConnecting at ht
  by_cases hconnected : s.connected = true
  · rw [if_pos hconnected]
    exact h
  · rw [if_neg hconnected]
    by_cases hdestroyed : s.destroyed = true
    · rw [if_pos hdestroyed]
      exact h.of_shape rfl
    · rw [if_neg hdestroyed]
      rw [if_neg (by simp [hconnected, hdestroyed])] at ht
      have hemitted := emit_shape { s with connected := true } (e := .connect writing) rfl rfl
      exact listen_kept (h.of_shape (hemitted.trans rfl)) ht

theorem passOn_kept (h : s.Kept) {late : Bool} {data : List β}
    (ht : ∀ heard ∈ s.heardIncoming late data cs, heard.1.Timely heard.2) :
    (s.passOn late data cs).Kept := by
  unfold passOn
  unfold heardIncoming at ht
  split
  · exact h
  · rename_i hlive
    rw [if_neg hlive] at ht
    exact listen_kept (h.of_shape (emit_shape _ rfl rfl)) ht

theorem scheduleRead_kept (h : s.Kept) (dirty : Bool) : (s.scheduleRead dirty).Kept := by
  unfold scheduleRead
  split
  · exact h
  · split
    · exact h.of_shape ((set_shape _ _ _).trans rfl)
    · exact h.of_shape rfl

/-! ## Events of the poller -/

variable {env : Env β}

theorem received_kept (h : s.Kept) {data : List β}
    (ht : ∀ heard ∈ s.heardReceived data env, heard.1.Timely heard.2) :
    (((s.emit (.received s.encrypted data)).onconnect false env.connect).passOn (!s.canStarttls)
      data env.incoming).Kept := by
  unfold heardReceived at ht
  refine passOn_kept (onconnect_kept (h.of_shape (emit_shape _ rfl rfl)) fun heard hmem => ?_)
    fun heard hmem => ?_
  · exact ht heard (List.mem_append_left _ hmem)
  · exact ht heard (List.mem_append_right _ hmem)

theorem receive_kept (h : s.Kept) (hlasting : ∀ data, env.received ≠ .partly data .other)
    (ht : ∀ heard ∈ s.heardReceiving env, heard.1.Timely heard.2) : (s.receive env).Kept := by
  unfold receive
  unfold heardReceiving at ht
  cases hreceived : env.received with
  | all data =>
    simp only [hreceived] at ht ⊢
    exact scheduleRead_kept (received_kept h ht) _
  | partly data error =>
    simp only [hreceived] at ht ⊢
    have hpassed : (if data ≠ [] then ((s.emit (.received s.encrypted data)).onconnect false
        env.connect).passOn (!s.canStarttls) data env.incoming
        else s.emit (.received s.encrypted data)).Kept := by
      split
      · rename_i hne
        rw [if_pos hne] at ht
        exact received_kept h ht
      · exact h.of_shape (emit_shape _ rfl rfl)
    cases error with
    | wantread => exact scheduleRead_kept (hpassed.of_shape (set_shape _ _ _)) _
    | wantwrite => exact scheduleRead_kept (hpassed.of_shape (set_shape _ _ _)) _
    | timeout => exact scheduleRead_kept hpassed _
    | other => exact absurd hreceived (hlasting data)

theorem flushed_shape (s : Interface β) :
    s.flushed.shape = { s.shape with
      taken := s.shape.taken ++ s.shape.buffer.flatten
      buffer := [] } := by
  have hset := set_shape (s.emit (.sent s.encrypted s.writebuffer.flatten)) none (some false)
  simp only [shape, Shape.mk.injEq] at hset
  simp only [flushed, shape, hset]
  simp [emit, ServerEpoll.taken, accepted, Event.taken, Event.written]

/-- When everything has been sent, a `close` that waits is done. -/
theorem drained_kept (h : s.Kept) (hlive : s.destroyed = false)
    (ht : ∀ heard ∈ s.flushed.heardDrained env, heard.1.Timely heard.2) :
    (s.flushed.drained env).Kept := by
  have hflushed := flushed_shape s
  have hdrain : s.flushed.ondrain = s.ondrain := congrArg Shape.ondrain hflushed
  unfold drained
  unfold heardDrained at ht
  rw [hdrain] at ht ⊢
  have hopen : s.ondrain ≠ .close → s.canWrite = true := by
    intro hne
    by_contra hclosed
    rw [Bool.not_eq_true] at hclosed
    exact hne (h.waits hclosed hlive).2.1
  have hkept : s.ondrain ≠ .close → s.flushed.Kept := fun hne =>
    Kept.of_eq (Shape.Kept.flush h (hopen hne)) hflushed
  cases hd : s.ondrain with
  | default =>
    simp only [hd] at ht ⊢
    exact listen_kept (hkept (by simp [hd])) ht
  | starttls =>
    refine starttlsNow_kept (hkept (by simp [hd])) (.inl ?_)
    exact (congrArg Shape.canWrite hflushed).trans (hopen (by simp [hd]))
  | close =>
    have hempty : s.flushed.writebuffer = [] := rfl
    have hlive' : s.flushed.destroyed = false := (congrArg Shape.destroyed hflushed).trans hlive
    unfold closeNow
    simp only
    rw [if_neg (by simp [hempty])]
    refine Kept.of_eq (Shape.Kept.flushGone h)
      ((abort_shape (s := { s.flushed with canWrite := false, canClose := false }) hlive').trans ?_)
    have hfields := hflushed
    simp only [shape, Shape.mk.injEq] at hfields ⊢
    simp [hfields]

theorem sendPartly_kept (h : s.Kept) (hlive : s.destroyed = false) (count : Option ℕ) :
    (s.sendPartly s.writebuffer.flatten count).Kept := by
  cases count with
  | none =>
    refine Kept.of_eq h ?_
    simp [sendPartly, shape, emit, ServerEpoll.taken, accepted, Event.taken, Event.written]
  | some count =>
    refine Kept.of_eq (Shape.Kept.sendPartly h hlive count) ?_
    simp [sendPartly, shape, emit, ServerEpoll.taken, accepted, Event.taken, Event.written]

theorem send_kept (h : s.Kept) (hlasting : ∀ count, env.sent ≠ .partly count .other)
    (ht : ∀ heard ∈ s.heardSending env, heard.1.Timely heard.2) : (s.send env).Kept := by
  unfold send
  unfold heardSending at ht
  have hconnected : (s.onconnect true env.connect).Kept :=
    onconnect_kept h fun heard hmem => ht heard (List.mem_append_left _ hmem)
  have hafter := fun heard hmem => ht heard (List.mem_append_right _ hmem)
  simp only at hafter ⊢
  split
  · exact hconnected
  · rename_i hdestroyed
    have hlive : (s.onconnect true env.connect).destroyed = false := by simpa using hdestroyed
    rw [if_neg hdestroyed] at hafter
    cases hsent : env.sent with
    | all =>
      rw [hsent] at hafter
      exact drained_kept hconnected hlive hafter
    | partly count error =>
      have hpartly := sendPartly_kept hconnected hlive count
      cases error with
      | wantread => exact hpartly.of_shape (set_shape _ _ _)
      | wantwrite => exact hpartly.of_shape (set_shape _ _ _)
      | timeout => exact hpartly.of_shape (set_shape _ _ _)
      | other => exact absurd hsent (hlasting count)

/-- While the connection is being wrapped, it is prepared for TLS or destroyed. -/
def Wrapping (s : Interface β) : Prop :=
  s.destroyed = true ∨ s.onwritable = .tlshandshake ∧ s.watched = none

theorem destroy_destroyed (s : Interface β) : s.destroy.destroyed = true := by
  unfold destroy
  split
  · assumption
  · rfl

theorem Wrapping.set (h : s.Wrapping) (r w : Option Bool) : (s.set r w).Wrapping := by
  unfold Interface.set
  split
  · rename_i hwatched
    exact h.imp id fun hprepared => by rw [hprepared.2] at hwatched; cases hwatched
  · exact h

theorem Wrapping.call (h : s.Wrapping) (c : Call β) : (s.call c).Wrapping := by
  cases c with
  | write data =>
    simp only [Interface.call, write]
    split
    · exact h
    · split
      · exact h
      · exact Wrapping.set (s := { s.emit (.write data) with
          writebuffer := s.writebuffer ++ [data], writeTimeout := true }) h _ _
  | starttls =>
    simp only [Interface.call]
    split
    · unfold starttlsNow
      simp only
      split
      · exact Wrapping.set (s := { s.emit .starttls with
          canStarttls := false, ondrain := .starttls }) h _ _
      · refine Wrapping.set ?_ _ _
        split
        · exact h.imp id fun hprepared => ⟨rfl, hprepared.2⟩
        · exact h.imp id fun hprepared => ⟨rfl, hprepared.2⟩
    · exact h
  | close =>
    simp only [Interface.call]
    split
    · unfold closeNow
      simp only
      split
      · exact h.set (some false) (some true)
      · exact .inl (destroy_destroyed _)
    · exact h
  | pause => exact h.set _ _
  | resume => exact h.set _ _
  | pauseWrites => exact Wrapping.set (s := { s with writeLock := true, writeTimeout := false }) h _ _
  | resumeWrites =>
    simp only [Interface.call]
    split
    · exact Wrapping.set (s := { s with writeLock := false, writeTimeout := true }) h _ _
    · exact h

theorem Wrapping.listen (h : s.Wrapping) (cs : List (Call β)) : (s.listen cs).Wrapping := by
  unfold Interface.listen
  split
  · exact h
  · clear * - h
    induction cs generalizing s with
    | nil => exact h
    | cons c cs ih => exact ih (h.call c)

theorem tlshandshake_kept (h : s.Kept) (hlive : s.destroyed = false)
    (hhandler : s.onwritable = .tlshandshake) (hwrapped : env.wrapped = true)
    (htimeout : env.handshake ≠ .failed .timeout) (hother : env.handshake ≠ .failed .other)
    (ht : ∀ heard ∈ s.heardHandshaking env, heard.1.Timely heard.2) :
    (s.tlshandshake env).Kept := by
  unfold tlshandshake
  unfold heardHandshaking at ht
  simp only
  by_cases htls : s.tls = true
  · rw [if_neg (by simp [htls])] at ht ⊢
    cases hhandshake : env.handshake with
    | ok =>
      rw [hhandshake] at ht
      refine Kept.of_shape ?_ (set_shape _ _ _)
      refine Kept.of_shape (s := _) (listen_kept ?_ ht) rfl
      exact Kept.of_eq (Shape.Kept.settle h) rfl
    | failed error =>
      cases error with
      | wantread =>
        exact h.of_shape ((congrArg shape rfl).trans
          (set_shape { s with writeTimeout := false, readTimeout := false } _ _))
      | wantwrite =>
        exact h.of_shape ((congrArg shape rfl).trans
          (set_shape { s with writeTimeout := false, readTimeout := false } _ _))
      | timeout => exact absurd hhandshake htimeout
      | other => exact absurd hhandshake hother
  · have htls : s.tls = false := by simpa using htls
    rw [if_pos (by simp [htls]), if_pos hwrapped] at ht
    rw [if_pos (by simp [htls]), if_neg (by simp [hwrapped])]
    have hopen : s.canWrite = true := by
      by_contra hclosed
      rw [Bool.not_eq_true] at hclosed
      exact (h.waits hclosed hlive).2.2 ⟨hhandler, .inl htls⟩
    have hsame : s.onreadable = s.onwritable := h.same
    have hbegun : s.wrapped.Kept := by
      refine Kept.of_eq (Shape.Kept.change h (.inl hopen) s.ondrain s.onwritable true true) ?_
      simp [wrapped, shape, emit, del, ServerEpoll.taken, accepted, Event.taken, Event.written, hsame]
    have hheard : (s.wrapped.listen env.starttls).Kept := listen_kept hbegun ht
    have hbegins : s.wrapped.Wrapping := .inr ⟨hhandler, rfl⟩
    change Kept (add { s.wrapped.listen env.starttls with
      ondrain := .default
      onwritable := .tlshandshake
      onreadable := .tlshandshake
      writeTimeout := true } true true)
    have hwrapping := hbegins.listen env.starttls
    generalize s.wrapped.listen env.starttls = t at hheard hwrapping
    have hstill : t.canWrite = true ∨ t.destroyed = true := by
      by_contra hnot
      simp only [not_or, Bool.not_eq_true] at hnot
      obtain ⟨hclosed, hlive⟩ := hnot
      obtain ⟨hprepared, hnone⟩ := hwrapping.resolve_left (by simp [hlive])
      exact (hheard.waits hclosed hlive).2.2 ⟨hprepared, .inr (by simp [shape, hnone])⟩
    unfold add
    split
    · exact Kept.of_eq (Shape.Kept.change hheard hstill .default .tlshandshake t.tls
        t.watched.isNone) rfl
    · exact Kept.of_eq (Shape.Kept.change hheard hstill .default .tlshandshake t.tls false) rfl

/-! ## Inputs -/

theorem readable_kept (h : s.Kept) (hlive : s.destroyed = false)
    (hlasting : Lasting (.readable env))
    (ht : ∀ heard ∈ s.heardReadable env, heard.1.Timely heard.2) : (s.readable env).Kept := by
  obtain ⟨hreceived, hsent, hwrapped, htimeout, hother⟩ := hlasting
  have hsame : s.onreadable = s.onwritable := h.same
  unfold readable
  unfold heardReadable at ht
  cases hhandler : s.onreadable with
  | default =>
    rw [hhandler] at ht
    exact receive_kept h hreceived ht
  | tlshandshake =>
    rw [hhandler] at ht
    exact tlshandshake_kept h hlive (hsame ▸ hhandler) hwrapped htimeout hother ht
  | noop => exact h

theorem writable_kept (h : s.Kept) (hlive : s.destroyed = false)
    (hlasting : Lasting (.writable env))
    (ht : ∀ heard ∈ s.heardWritable env, heard.1.Timely heard.2) : (s.writable env).Kept := by
  obtain ⟨hreceived, hsent, hwrapped, htimeout, hother⟩ := hlasting
  unfold writable
  unfold heardWritable at ht
  cases hhandler : s.onwritable with
  | default =>
    rw [hhandler] at ht
    exact send_kept h hsent ht
  | tlshandshake =>
    rw [hhandler] at ht
    exact tlshandshake_kept h hlive hhandler hwrapped htimeout hother ht
  | noop => exact h

theorem step_kept (h : s.Kept) {i : Input β} (hsteady : s.Steady i) : (s.step i).Kept := by
  obtain ⟨hlasting, ht⟩ := hsteady
  cases i with
  | call c => exact call_kept h (ht (s, c) (List.mem_singleton.mpr rfl))
  | readable env =>
    simp only [heardStep] at ht
    simp only [step]
    split
    · exact h
    · rename_i hlive
      rw [if_neg hlive] at ht
      exact readable_kept h (by simpa using hlive) hlasting ht
  | writable env =>
    simp only [heardStep] at ht
    simp only [step]
    split
    · exact h
    · rename_i hlive
      rw [if_neg hlive] at ht
      exact writable_kept h (by simpa using hlive) hlasting ht
  | retry dirty env =>
    simp only [heardStep] at ht
    simp only [step]
    split
    · rename_i hpaused
      have hretried : ({ s with pausefor := false } : Interface β).Kept := h.of_shape rfl
      refine Kept.of_shape ?_ (set_shape _ _ _)
      simp only
      split
      · rename_i hread
        simp only [Bool.and_eq_true, Bool.not_eq_true'] at hread
        rw [if_pos (by simp [hpaused, hread])] at ht
        exact readable_kept hretried hread.1 hlasting ht
      · exact hretried
    · exact h
  | timeout => exact absurd hlasting id

theorem closeNow_canWrite (s : Interface β) : s.closeNow.canWrite = false := by
  unfold closeNow
  split
  · rfl
  · by_cases hdestroyed : s.destroyed = true
    · exact congrArg Interface.canWrite
        (abort_dead (s := { s with canWrite := false, canClose := false }) hdestroyed)
    · rw [Bool.not_eq_true] at hdestroyed
      exact congrArg Shape.canWrite
        (abort_shape (s := { s with canWrite := false, canClose := false }) hdestroyed)

theorem Kept.delivers (h : s.Kept) : Delivers s where
  complete := h.complete
  closes := by
    simp only [call]
    split
    · exact closeNow_canWrite s
    · rename_i hcan
      have hcan : s.canClose = false := by simpa using hcan
      exact h.shut hcan
  closed hclosed := by
    constructor
    · intro hempty
      by_contra hnot
      rw [Bool.not_eq_true] at hnot
      exact (h.waits hclosed hnot).1 hempty
    · exact fun hdestroyed => (h.cut hdestroyed).2
  cut hdestroyed := (h.cut hdestroyed).1

/-! ## After a close -/

/-- Nothing can be written any more, and so much has been accepted. -/
def Shut (all : List β) (s : Interface β) : Prop :=
  s.shape.canWrite = false ∧ s.shape.accepted = all

variable {all : List β}

theorem Shut.of_shape (h : s.Shut all) (hshape : t.shape = s.shape) : t.Shut all := by
  unfold Shut
  rwa [hshape]

theorem Shut.of_eq (h : s.Shut all) (hwrite : t.canWrite = false) (hlog : t.log = s.log) :
    t.Shut all := by
  refine ⟨hwrite, ?_⟩
  rw [← h.2]
  simp only [shape, hlog]

theorem Shut.emit (h : s.Shut all) {e : Event β} (hwritten : e.written = []) :
    (s.emit e).Shut all := by
  refine ⟨h.1, ?_⟩
  rw [← h.2]
  simp [shape, Interface.emit, accepted, hwritten]

theorem Shut.abort (h : s.Shut all) : s.abort.Shut all := by
  have hdisconnect : s.disconnect.Shut all := by
    unfold disconnect
    split
    · exact h
    · exact h.emit rfl
  unfold Interface.abort destroy
  split
  · exact hdisconnect
  · exact hdisconnect.of_eq hdisconnect.1 rfl

theorem Shut.starttlsNow (h : s.Shut all) : s.starttlsNow.Shut all := by
  unfold Interface.starttlsNow
  simp only
  split
  · refine Shut.of_shape ?_ (set_shape _ _ _)
    exact h.of_eq h.1 rfl
  · refine Shut.of_shape ?_ (set_shape _ _ _)
    refine Shut.of_eq (s := s.emit .prepared) (h.emit rfl) ?_ ?_
    · split <;> exact h.1
    · split <;> rfl

theorem Shut.closeNow (h : s.Shut all) : s.closeNow.Shut all := by
  unfold Interface.closeNow
  split
  · have hset : (s.set (some false) (some true)).Shut all := h.of_shape (set_shape _ _ _)
    exact hset.of_eq rfl rfl
  · exact Shut.abort (s := { s with canWrite := false, canClose := false }) (h.of_eq rfl rfl)

theorem Shut.call (h : s.Shut all) (c : Call β) : (s.call c).Shut all := by
  cases c with
  | write data =>
    simp only [Interface.call, write]
    rw [if_pos (by simp [show s.canWrite = false from h.1])]
    exact h
  | starttls =>
    simp only [Interface.call]
    split
    · exact (h.emit rfl).starttlsNow
    · exact h
  | close =>
    simp only [Interface.call]
    split
    · exact h.closeNow
    · exact h
  | pause => exact h.of_shape (set_shape _ _ _)
  | resume => exact h.of_shape (set_shape _ _ _)
  | pauseWrites => exact h.of_shape ((set_shape _ _ _).trans rfl)
  | resumeWrites =>
    simp only [Interface.call]
    split
    · exact h.of_shape ((set_shape _ _ _).trans rfl)
    · exact h.of_shape rfl

theorem Shut.listen (h : s.Shut all) (cs : List (Call β)) : (s.listen cs).Shut all := by
  unfold Interface.listen
  split
  · exact h
  · clear * - h
    induction cs generalizing s with
    | nil => exact h
    | cons c cs ih => exact ih (h.call c)

theorem Shut.onconnect (h : s.Shut all) (writing : Bool) (cs : List (Call β)) :
    (s.onconnect writing cs).Shut all := by
  unfold Interface.onconnect
  split
  · exact h
  · split
    · exact h.of_eq h.1 rfl
    · exact Shut.listen (Shut.emit (s := { s with connected := true }) (h.of_eq h.1 rfl) rfl) cs

theorem Shut.passOn (h : s.Shut all) (late : Bool) (data : List β) (cs : List (Call β)) :
    (s.passOn late data cs).Shut all := by
  unfold Interface.passOn
  split
  · exact h
  · exact (h.emit rfl).listen cs

theorem Shut.scheduleRead (h : s.Shut all) (dirty : Bool) : (s.scheduleRead dirty).Shut all := by
  unfold Interface.scheduleRead
  split
  · exact h
  · split
    · exact h.of_shape ((set_shape _ _ _).trans rfl)
    · exact h.of_shape rfl

theorem Shut.receive (h : s.Shut all) (env : Env β) : (s.receive env).Shut all := by
  unfold Interface.receive
  have hreceived : ∀ data, (s.emit (.received s.encrypted data)).Shut all := fun _ => h.emit rfl
  split
  · exact (((hreceived _).onconnect _ _).passOn _ _ _).scheduleRead _
  · rename_i data error _
    have hpassed : (if data ≠ [] then ((s.emit (.received s.encrypted data)).onconnect false
        env.connect).passOn (!s.canStarttls) data env.incoming
        else s.emit (.received s.encrypted data)).Shut all := by
      split
      · exact ((hreceived _).onconnect _ _).passOn _ _ _
      · exact hreceived _
    cases error with
    | wantread => exact (hpassed.of_shape (set_shape _ _ _)).scheduleRead _
    | wantwrite => exact (hpassed.of_shape (set_shape _ _ _)).scheduleRead _
    | timeout => exact hpassed.scheduleRead _
    | other => exact hpassed.abort

theorem Shut.send (h : s.Shut all) (env : Env β) : (s.send env).Shut all := by
  unfold Interface.send
  have hconnected := h.onconnect true env.connect
  simp only
  generalize s.onconnect true env.connect = t at hconnected
  split
  · exact hconnected
  · split
    · have hflushed : t.flushed.Shut all := by
        refine ⟨?_, ?_⟩
        · exact (congrArg Shape.canWrite (flushed_shape t)).trans hconnected.1
        · exact (congrArg Shape.accepted (flushed_shape t)).trans hconnected.2
      change (t.flushed.drained env).Shut all
      unfold drained
      split
      · exact hflushed.listen _
      · exact hflushed.starttlsNow
      · exact hflushed.closeNow
    · rename_i count error _
      have hpartly : (t.sendPartly t.writebuffer.flatten count).Shut all := by
        cases count with
        | none => exact hconnected.emit rfl
        | some count => exact Shut.of_eq (hconnected.emit rfl) hconnected.1 rfl
      cases error with
      | wantread => exact hpartly.of_shape (set_shape _ _ _)
      | wantwrite => exact hpartly.of_shape (set_shape _ _ _)
      | timeout => exact hpartly.of_shape (set_shape _ _ _)
      | other => exact hpartly.abort

theorem Shut.tlshandshake (h : s.Shut all) (env : Env β) : (s.tlshandshake env).Shut all := by
  unfold Interface.tlshandshake
  have hbegun : s.wrapped.Shut all :=
    Shut.of_eq (s := s.emit .handshake) (h.emit rfl) h.1 rfl
  simp only
  split
  · split
    · exact Shut.abort (Shut.of_eq (s := s.emit .handshake) (h.emit rfl) h.1 rfl)
    · have hheard := hbegun.listen env.starttls
      unfold add
      split
      · exact hheard.of_eq hheard.1 rfl
      · exact hheard.of_eq hheard.1 rfl
  · split
    · refine Shut.of_shape ?_ (set_shape _ _ _)
      have hheard := Shut.listen (s := { s with
        writeTimeout := false
        readTimeout := false
        onwritable := .default
        onreadable := .default }) (h.of_eq h.1 rfl) env.status
      exact hheard.of_eq hheard.1 rfl
    · exact h.of_shape ((congrArg shape rfl).trans
        (set_shape { s with writeTimeout := false, readTimeout := false } _ _))
    · exact h.of_shape ((congrArg shape rfl).trans
        (set_shape { s with writeTimeout := false, readTimeout := false } _ _))
    · exact Shut.abort (s := { s with writeTimeout := false, readTimeout := false })
        (h.of_eq h.1 rfl)

theorem Shut.readable (h : s.Shut all) (env : Env β) : (s.readable env).Shut all := by
  unfold Interface.readable
  split
  · exact h.receive env
  · exact h.tlshandshake env
  · exact h

theorem Shut.step (h : s.Shut all) (i : Input β) : (s.step i).Shut all := by
  cases i with
  | call c => exact h.call c
  | readable env =>
    simp only [Interface.step]
    split
    · exact h
    · exact h.readable env
  | writable env =>
    simp only [Interface.step, writable]
    split
    · exact h
    · split
      · exact h.send env
      · exact h.tlshandshake env
      · exact h
  | retry dirty env =>
    simp only [Interface.step]
    split
    · have hretried : ({ s with pausefor := false } : Interface β).Shut all := h.of_eq h.1 rfl
      refine Shut.of_shape ?_ (set_shape _ _ _)
      simp only
      split
      · exact hretried.readable env
      · exact hretried
    · exact h
  | timeout =>
    simp only [Interface.step]
    split
    · exact h.abort
    · exact h

end Interface

/-! ## Runs -/

/-- In a run in which nothing fails and no `starttls` takes the place of a `close` that waits, the
output is complete and in order, and a connection that has been closed is destroyed when all has
been sent; after a `close`, nothing is accepted. -/
theorem output_complete {inputs : List (Input β)}
    (h : Machine.Guarded Interface.step Interface.Steady (Interface.new : Interface β) inputs) :
    Machine.Always Interface.step Delivers (Interface.new : Interface β) inputs ∧
      ∀ pre post, inputs = pre ++ post →
        (Machine.run Interface.step (Interface.new : Interface β) pre).canWrite = false →
        accepted (Machine.run Interface.step (Interface.new : Interface β) inputs).log =
          accepted (Machine.run Interface.step (Interface.new : Interface β) pre).log := by
  constructor
  · refine Machine.Always.mono (fun s hs => Interface.Kept.delivers hs) ?_
    exact Machine.always_of_guarded (fun s i hs hi => Interface.step_kept hs hi)
      Interface.new_kept h
  · rintro pre post rfl hclosed
    rw [Machine.run_append]
    generalize Machine.run Interface.step (Interface.new : Interface β) pre = s at hclosed
    have hshut : s.Shut (accepted s.log) := ⟨hclosed, rfl⟩
    exact (Machine.run_invariant (P := Interface.Shut (accepted s.log))
      (fun _ i hs => hs.step i) hshut post).2

/-! ## A close that is forgotten -/

/-- What the socket takes of a farewell: the first half, then the rest. -/
def farewell : List (Input Char) :=
  [.call (.write "good".toList), .call (.write "bye".toList), .call .close,
    .writable { calm with sent := .partly (some 4) .timeout }, .writable calm]

theorem output_complete_farewell :
    Machine.Always Interface.step Delivers (Interface.new : Interface Char) farewell := by
  refine (output_complete ?_).1
  have hquiet : ∀ (s : Interface Char) (i : Input Char), s.heardStep i = [] →
      ∀ heard ∈ s.heardStep i, heard.1.Timely heard.2 := by
    intro s i hnone heard hmem
    rw [hnone] at hmem
    cases hmem
  refine ⟨⟨trivial, ?_⟩, ⟨trivial, ?_⟩, ⟨trivial, ?_⟩, ⟨?_, hquiet _ _ rfl⟩,
    ⟨?_, hquiet _ _ rfl⟩, trivial⟩
  · intro heard hmem
    obtain rfl := List.mem_singleton.mp hmem
    trivial
  · intro heard hmem
    obtain rfl := List.mem_singleton.mp hmem
    trivial
  · intro heard hmem
    obtain rfl := List.mem_singleton.mp hmem
    refine fun _ => .inr fun hp => ?_
    cases hp.1
  · refine ⟨fun data h => ?_, fun count h => ?_, rfl, fun h => ?_, fun h => ?_⟩ <;> cases h
  · refine ⟨fun data h => ?_, fun count h => ?_, rfl, fun h => ?_, fun h => ?_⟩ <;> cases h

/-- `starttls` after `close`: everything has been sent, and the connection stays. -/
theorem close_forgotten :
    ¬ Delivers (Machine.run Interface.step (Interface.new : Interface Char)
      [.call (.write "bye".toList), .call .close, .call .starttls, .writable calm]) := by
  intro h
  exact absurd ((h.closed (by decide +kernel)).mp (by decide +kernel)) (by decide +kernel)

end Prosody.ServerEpoll
