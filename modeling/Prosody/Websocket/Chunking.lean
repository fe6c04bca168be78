import Prosody.Websocket.Filter
import Prosody.Websocket.Wire

/-! # Messages of websockets, read in pieces -/

namespace Prosody.Websocket

/-! ## The messages of a stream of frames -/

namespace Frame

/-- The frame neither breaks the protocol nor ends the connection. -/
def Accepted (begun : Bool) (frame : Frame) : Prop :=
  frame.RSV1 = false ∧ frame.RSV2 = false ∧ frame.RSV3 = false ∧
    (frame.opcode = 0x0 ∧ begun = true ∨ frame.opcode = 0x1 ∧ begun = false ∨
      (frame.opcode = 0x9 ∨ frame.opcode = 0xA) ∧ frame.FIN = true ∧ frame.length ≤ 125)

instance (begun : Bool) (frame : Frame) : Decidable (frame.Accepted begun) :=
  inferInstanceAs (Decidable (_ ∧ _))

/-- The message that the frame leaves unfinished. -/
def next (begun : Option Bytes) (frame : Frame) : Option Bytes :=
  if 0x8 ≤ frame.opcode then begun
  else if frame.FIN then none
  else some (begun.getD [] ++ frame.data)

def completed (begun : Option Bytes) (frame : Frame) : List Bytes :=
  if frame.opcode < 0x8 ∧ frame.FIN then [begun.getD [] ++ frame.data] else []

end Frame

/-- The text messages that are complete before the connection ends. -/
def messages : Option Bytes → List Frame → List Bytes
  | _, [] => []
  | begun, frame :: frames =>
    if frame.Accepted begun.isSome then frame.completed begun ++ messages (frame.next begun) frames
    else []

def Survives : Option Bytes → List Frame → Prop
  | _, [] => True
  | begun, frame :: frames => frame.Accepted begun.isSome ∧ Survives (frame.next begun) frames

instance decidableSurvives :
    (begun : Option Bytes) → (frames : List Frame) → Decidable (Survives begun frames)
  | _, [] => .isTrue trivial
  | begun, frame :: frames =>
    @instDecidableAnd _ _ _ (decidableSurvives (frame.next begun) frames)

/-- The message that accepted frames leave unfinished. -/
def leftBegun (begun : Option Bytes) (frames : List Frame) : Option Bytes :=
  frames.foldl Frame.next begun

variable {L : Lua} {X : Xml} {w : Session} {begun : Option Bytes} {frame : Frame}

theorem messages_append {frames more : List Frame} (h : Survives begun frames) :
    messages begun (frames ++ more) =
      messages begun frames ++ messages (leftBegun begun frames) more := by
  induction frames generalizing begun with
  | nil => rfl
  | cons frame frames ih =>
    rw [List.cons_append, messages, messages, if_pos h.1, if_pos h.1, ih h.2, List.append_assoc]
    rfl

theorem survives_append {frames more : List Frame} :
    Survives begun (frames ++ more) ↔
      Survives begun frames ∧ Survives (leftBegun begun frames) more := by
  induction frames generalizing begun with
  | nil => simp [Survives, leftBegun]
  | cons frame frames ih =>
    rw [List.cons_append, Survives, Survives, ih, and_assoc]
    rfl

/-! ## Frames are handled as they should be -/

/-- The message begun is the one in the buffer. -/
def Session.Begun (w : Session) (begun : Option Bytes) : Prop :=
  w.dataBuffer.map List.flatten = begun

theorem close_drops (w : Session) (code : ℕ) (message : String)
    (h : (ofString message).length ≤ 123) :
    ∃ w', w.close L code message = (w', .drop) := by
  have hlength : (Numbers.toBigEndian 2 code ++ ofString message).length ≤ 125 := by
    rw [List.length_append, Numbers.length_toBigEndian]
    omega
  have hbuild : (L.buildClose code (ofString message)).isSome := by
    rw [Lua.buildClose, Lua.buildFrame, if_neg]
    · rfl
    · rintro (h | ⟨-, h⟩)
      · exact absurd (show (0x0F : UInt8) < 0x8 from h) (by decide)
      · exact absurd hlength (not_le.mpr h)
  obtain ⟨bytes, hbytes⟩ := Option.isSome_iff_exists.mp hbuild
  exact ⟨_, by rw [Session.close, hbytes]⟩

theorem refusal_length {message : String} (h : w.refusal frame = some (some message)) :
    (ofString message).length ≤ 123 := by
  unfold Session.refusal at h
  simp only [ite_eq_iff, Option.some.injEq, reduceCtorEq, and_false, false_or, or_false] at h
  obtain ⟨-, rfl⟩ | ⟨-, ⟨-, rfl⟩ | ⟨-, -, ⟨-, rfl⟩ | ⟨-, ⟨-, rfl⟩ | ⟨-, ⟨-, rfl⟩ |
    ⟨-, ⟨-, rfl⟩ | ⟨-, ⟨-, rfl⟩ | ⟨-, ⟨-, rfl⟩ | ⟨-, -, rfl⟩⟩⟩⟩⟩⟩⟩⟩ := h <;> decide

theorem refusal_ne_raise (hlength : frame.length = frame.data.length) :
    w.refusal frame ≠ some none := by
  have hstatus : ¬ (frame.opcode = 0x8 ∧ 2 ≤ frame.length ∧ (parseClose frame.data).1 = none) := by
    rintro ⟨-, hlong, hnone⟩
    have hdata : 2 ≤ frame.data.length := by omega
    simp [parseClose, hdata] at hnone
  intro h
  unfold Session.refusal at h
  simp only [if_neg hstatus, ite_eq_iff, Option.some.injEq, reduceCtorEq, and_false, or_false] at h

/-- A frame that is not refused is one that is accepted, a binary frame or a request to close. -/
theorem refusal_eq_none (hbegun : w.Begun begun) (h : w.refusal frame = none) :
    frame.Accepted begun.isSome ∨ frame.opcode = 0x2 ∨ frame.opcode = 0x8 := by
  have hsome : begun.isSome = w.dataBuffer.isSome := by rw [← hbegun, Option.isSome_map]
  unfold Session.refusal at h
  simp only [ite_eq_iff, reduceCtorEq, and_false, false_or, and_true] at h
  obtain ⟨hrsv, -, -, -, -, hlong, hwhole, hreserved, hcontinued, hfirst⟩ := h
  by_cases hbinary : frame.opcode = 0x2
  · exact .inr (.inl hbinary)
  by_cases hclose : frame.opcode = 0x8
  · exact .inr (.inr hclose)
  simp only [not_or, Bool.not_eq_true] at hrsv
  obtain ⟨hrsv1, hrsv2, hrsv3⟩ := hrsv
  refine .inl ⟨hrsv1, hrsv2, hrsv3, ?_⟩
  by_cases hcontinuation : frame.opcode = 0x0
  · refine .inl ⟨hcontinuation, ?_⟩
    rw [hsome, Option.isSome_iff_ne_none]
    exact fun hnone => hcontinued ⟨hcontinuation, hnone⟩
  by_cases htext : frame.opcode = 0x1
  · refine .inr (.inl ⟨htext, ?_⟩)
    rw [hsome, Option.isSome_eq_false_iff, Option.isNone_iff_eq_none]
    by_contra hne
    exact hfirst ⟨.inl htext, hne⟩
  have hcontrol : frame.opcode = 0x9 ∨ frame.opcode = 0xA := by
    clear * - hreserved hbinary hclose hcontinuation htext
    simp only [UInt8.lt_iff_toNat_lt, ← UInt8.toNat_inj, UInt8.reduceToNat] at *
    omega
  have hhigh : (0x8 : UInt8) ≤ frame.opcode := by
    rcases hcontrol with h | h <;> rw [h] <;> decide
  refine .inr (.inr ⟨hcontrol, ?_, ?_⟩)
  · by_contra hfin
    exact hwhole ⟨hhigh, by simpa using hfin⟩
  · by_contra hlarge
    exact hlong ⟨hhigh, not_le.mp hlarge⟩

theorem refusal_of_accepted (hbegun : w.Begun begun) (h : frame.Accepted begun.isSome) :
    w.refusal frame = none := by
  have hsome : begun.isSome = w.dataBuffer.isSome := by rw [← hbegun, Option.isSome_map]
  obtain ⟨hrsv1, hrsv2, hrsv3, hkind⟩ := h
  unfold Session.refusal
  rw [hsome] at hkind
  rcases hkind with ⟨hop, hb⟩ | ⟨hop, hb⟩ | ⟨hop | hop, hfin, hlen⟩
  · have hne : w.dataBuffer ≠ none := Option.isSome_iff_ne_none.mp hb
    simp [hrsv1, hrsv2, hrsv3, hop, hne]
  · have hnone : w.dataBuffer = none := by simpa using hb
    simp [hrsv1, hrsv2, hrsv3, hop, hnone]
  · simp [hrsv1, hrsv2, hrsv3, hop, hfin, hlen]
  · simp [hrsv1, hrsv2, hrsv3, hop, hfin, hlen]

/-- A frame that is not accepted makes the filter return nothing. -/
theorem handleFrame_refused (hbegun : w.Begun begun) (hlength : frame.length = frame.data.length)
    (h : ¬ frame.Accepted begun.isSome) : ∃ w', w.handleFrame L frame = (w', .drop) := by
  unfold Session.handleFrame
  cases hrefusal : w.refusal frame with
  | some reason =>
    cases reason with
    | none => exact absurd hrefusal (refusal_ne_raise hlength)
    | some message => exact close_drops w 1002 message (refusal_length hrefusal)
  | none =>
    rcases refusal_eq_none hbegun hrefusal with haccepted | hop | hop
    · exact absurd haccepted h
    · simpa [hop] using close_drops w 1003 "Only text frames are supported" (by decide)
    · simpa [hop] using close_drops w 1000 "Goodbye" (by decide)

/-- A pong can be built for the frame. -/
def Answerable (L : Lua) (frame : Frame) : Prop :=
  frame.opcode = 0x9 → frame.key ≠ none → L.unpack = true

theorem finish_spec {buffer : List Bytes} (hop : frame.opcode < 0x8)
    (hbuffer : buffer.flatten = begun.getD [] ++ frame.data) :
    ∃ w', w.finish frame buffer = (w', .pass (frame.completed begun).flatten) ∧
      w'.Begun (frame.next begun) := by
  have hlow : ¬ (0x8 : UInt8) ≤ frame.opcode := UInt8.not_le.mpr hop
  unfold Session.finish Frame.completed Frame.next
  by_cases hfin : frame.FIN = true
  · refine ⟨{ w with dataBuffer := none }, ?_, ?_⟩
    · simp [hfin, hop, hbuffer]
    · simp [Session.Begun, hfin, hlow]
  · refine ⟨{ w with dataBuffer := some buffer }, ?_, ?_⟩
    · simp [hfin]
    · simp [Session.Begun, hfin, hlow, hbuffer]

theorem buildFrame_isSome (hpong : L.unpack = true ∨ frame.key = none) (hop : frame.opcode = 0xA)
    (hlength : frame.data.length ≤ 125) : (L.buildFrame frame).isSome := by
  rw [Lua.buildFrame, if_neg]
  · cases hkey : frame.key with
    | none => rfl
    | some key =>
      rw [hkey] at hpong
      simp [hpong.resolve_right (by simp)]
  · rintro (h | ⟨-, h⟩)
    · rw [hop] at h
      exact absurd h (by decide)
    · omega

theorem handleFrame_accepted (hbegun : w.Begun begun) (hlength : frame.length = frame.data.length)
    (hpong : Answerable L frame) (h : frame.Accepted begun.isSome) :
    ∃ w', w.handleFrame L frame = (w', .pass (frame.completed begun).flatten) ∧
      w'.Begun (frame.next begun) := by
  have hrefusal := refusal_of_accepted hbegun h
  obtain ⟨-, -, -, hkind⟩ := h
  unfold Session.handleFrame
  simp only [hrefusal]
  rcases hkind with ⟨hop, hb⟩ | ⟨hop, hb⟩ | ⟨hop | hop, -, hlen⟩
  · rw [if_pos hop]
    refine finish_spec (by rw [hop]; decide) ?_
    rw [← hbegun]
    cases w.dataBuffer <;> simp
  · rw [if_neg (by rw [hop]; decide), if_pos hop]
    refine finish_spec (by rw [hop]; decide) ?_
    obtain rfl : begun = none := by simpa using hb
    simp
  · obtain ⟨pong, hbuild⟩ := Option.isSome_iff_exists.mp
      (@buildFrame_isSome L { frame with opcode := 0xA } (by
        by_cases hkey : frame.key = none
        · exact .inr hkey
        · exact .inl (hpong hop hkey)) rfl (by simp only; omega))
    refine ⟨{ w with sent := w.sent ++ [.write pong] }, ?_, ?_⟩
    · simp [hop, hbuild, Frame.completed]
    · simpa [Session.Begun, Frame.next, hop] using hbegun
  · refine ⟨w, ?_, ?_⟩
    · simp [hop, Frame.completed]
    · simpa [Session.Begun, Frame.next, hop] using hbegun

/-! ## Frames that arrive in pieces -/

def textOf (frames : List Wire) : Bytes := (frames.map Wire.bytes).flatten

theorem Wire.bytes_length_pos (f : Wire) : 2 ≤ f.bytes.length := by
  simp only [Wire.bytes, Wire.header, List.cons_append, List.length_cons]
  omega

/-- The frames that are whole within the first `n` bytes. -/
def whole : ℕ → List Wire → List Wire
  | _, [] => []
  | n, f :: fs => if f.bytes.length ≤ n then f :: whole (n - f.bytes.length) fs else []

/-- How many bytes have come before the read that completes the last frame. -/
def beforeLast (frames : List Wire) : ℕ → List Bytes → ℕ
  | n, [] => n
  | n, r :: reads =>
    if (textOf frames).length ≤ n + r.length then n else beforeLast frames (n + r.length) reads

/-- The length of the frame is read for what it is, and it can be answered. -/
structure Supported (L : Lua) (f : Wire) : Prop where
  valid : f.Valid
  read : ¬ L.Misreads f.bytes
  answerable : Answerable L f.frame

variable {f : Wire} {frames : List Wire} {b c u : Bytes}

theorem Supported.not_misreads (h : Supported L f)
    (hb : announced b = none ∨ announced b = some (f.header.length, f.payload.length)) :
    ¬ L.Misreads b := by
  rintro ⟨pos, n, hann, hmis⟩
  rcases hb with hnone | hsome
  · rw [hnone] at hann
    cases hann
  · rw [hsome] at hann
    obtain ⟨rfl, rfl⟩ := Prod.mk.inj (Option.some.inj hann)
    have hwhole : announced f.bytes = some (f.header.length, f.payload.length) :=
      h.valid.announced f.body
    refine h.read ⟨_, _, hwhole, ?_⟩
    have hlength : f.bytes.length = f.header.length + f.payload.length := by
      rw [Wire.bytes, List.length_append, Wire.length_body]
    split at hmis
    · exact hmis
    · exact hmis
    · exact hmis
    · exact hmis.imp_right fun hhalf => ⟨hhalf.1, by omega⟩

theorem parseFrame_whole (h : Supported L f) (hheld : L.Holds (f.bytes ++ c)) :
    L.parseFrame (f.bytes ++ c) = some (f.frame, (f.bytes.length : ℤ)) ∧
      sub (f.bytes ++ c) (L.number (f.bytes.length + 1)) (-1) = c := by
  have hann : announced (f.bytes ++ c) = some (f.header.length, f.payload.length) := by
    rw [Wire.bytes, List.append_assoc]
    exact h.valid.announced _
  have hnext : L.number (f.bytes.length + 1) = f.bytes.length + 1 := by
    refine number_of_held hheld (by omega) ?_
    rw [List.length_append]
    omega
  constructor
  · rw [parseFrame_eq_exact hheld (h.not_misreads (.inr hann))]
    exact h.valid.parseFrame L.unpack c
  · have hfirst : ¬ (f.bytes.length : ℤ) + 1 < 0 := by omega
    have hlast : ((f.bytes ++ c).length : ℤ) + -1 + 1 = (f.bytes ++ c).length := by omega
    rw [hnext]
    simp only [sub, if_neg hfirst, if_pos (show (-1 : ℤ) < 0 by decide), hlast, Int.toNat_natCast,
      List.take_length]
    rw [show ((f.bytes.length : ℤ) + 1).toNat - 1 = f.bytes.length by omega, List.drop_left]

theorem turn_whole (h : Supported L f) (hheld : L.Holds w.frameBuffer)
    (hb : w.frameBuffer = f.bytes ++ c) {w' : Session} {outcome : Outcome}
    (hhandle : ({ w with frameBuffer := c } : Session).handleFrame L f.frame = (w', outcome)) :
    (∀ data, outcome = .pass data → w.turn L X = .again w' (X.filterOpenClose data)) ∧
      (outcome = .drop → w.turn L X = .dropped w') := by
  rw [hb] at hheld
  obtain ⟨hparse, hrest⟩ := parseFrame_whole h hheld
  rw [Session.turn, hb, hparse]
  simp only [hrest, hhandle]
  constructor
  · rintro data rfl
    rfl
  · rintro rfl
    rfl

theorem turn_short (h : Supported L f) (hheld : L.Holds w.frameBuffer)
    (hb : w.frameBuffer <+: f.bytes) (hshort : w.frameBuffer.length < f.bytes.length) :
    w.turn L X = .done := by
  have hann : announced w.frameBuffer = none ∨
      announced w.frameBuffer = some (f.header.length, f.payload.length) := by
    by_cases hheader : w.frameBuffer.length < f.header.length
    · exact .inl (h.valid.announced_short hb hheader)
    · obtain ⟨c, hc⟩ := List.prefix_of_prefix_length_le (List.prefix_append f.header f.body) hb
        (not_lt.mp hheader)
      rw [← hc]
      exact .inr (h.valid.announced c)
  have hparse : L.parseFrame w.frameBuffer = none := by
    rw [parseFrame_eq_exact hheld (h.not_misreads hann)]
    exact h.valid.parseFrame_short L.unpack hb hshort
  rw [Session.turn, hparse]

theorem turn_empty (hb : w.frameBuffer = []) : w.turn L X = .done := by
  rw [Session.turn, hb]
  rfl

def Xml.stream (X : Xml) (texts : List Bytes) : Bytes := (texts.map X.filterOpenClose).flatten

@[simp] theorem stream_nil : X.stream [] = [] := rfl

theorem stream_append (xs ys : List Bytes) : X.stream (xs ++ ys) = X.stream xs ++ X.stream ys := by
  simp [Xml.stream]

theorem filterOpenClose_flatten_completed :
    X.filterOpenClose (frame.completed begun).flatten = X.stream (frame.completed begun) := by
  unfold Frame.completed
  split
  · simp [Xml.stream]
  · rw [List.flatten_nil, Xml.filterOpenClose, if_pos (by decide)]
    rfl

/-- The state of the filter between reads: it has none of the frames whole that are still to come. -/
structure Waits (w : Session) (u : Bytes) (begun : Option Bytes) (frames : List Wire) : Prop where
  buffer : w.frameBuffer ++ u = textOf frames
  begun : w.Begun begun
  none : whole w.frameBuffer.length frames = []

/-- The loop passes on what is complete, or nothing if a frame ends the connection. -/
theorem loop_spec (hsupported : ∀ f ∈ frames, Supported L f) (hheld : L.Holds w.frameBuffer)
    (hb : w.frameBuffer ++ u = textOf frames) (hbegun : w.Begun begun)
    (hlast : Survives begun (frames.dropLast.map Wire.frame)) {fuel : ℕ}
    (hfuel : w.frameBuffer.length < fuel) (cache : List Bytes) :
    let done := whole w.frameBuffer.length frames
    if Survives begun (done.map Wire.frame) then
      ∃ w', w.loop L X fuel cache =
          some (w', .data (cache.flatten ++ X.stream (messages begun (done.map Wire.frame)))) ∧
        Waits w' u (leftBegun begun (done.map Wire.frame)) (frames.drop done.length)
    else
      done = frames ∧ u = [] ∧ ∃ w', w.loop L X fuel cache = some (w', .nothing) ∧
        w'.frameBuffer = [] := by
  induction frames generalizing w begun fuel cache with
  | nil =>
    obtain ⟨hempty, rfl⟩ := List.append_eq_nil_iff.mp hb
    obtain ⟨fuel, rfl⟩ : ∃ k, fuel = k + 1 := ⟨fuel - 1, by omega⟩
    simp only [whole, List.map_nil, Survives, if_true]
    exact ⟨w, by rw [Session.loop, turn_empty hempty]; simp [messages], hb, hbegun, rfl⟩
  | cons f frames ih =>
    have hf := hsupported f List.mem_cons_self
    obtain ⟨fuel, rfl⟩ : ∃ k, fuel = k + 1 := ⟨fuel - 1, by omega⟩
    by_cases hwhole : f.bytes.length ≤ w.frameBuffer.length
    · obtain ⟨c, hc⟩ : ∃ c, w.frameBuffer = f.bytes ++ c := by
        have hpre : f.bytes <+: w.frameBuffer ++ u := by
          rw [hb, textOf, List.map_cons, List.flatten_cons]
          exact List.prefix_append _ _
        obtain ⟨c, hc⟩ := List.prefix_of_prefix_length_le hpre (List.prefix_append _ u) hwhole
        exact ⟨c, hc.symm⟩
      have hrest : c ++ u = textOf frames := by
        rw [hc, textOf, List.map_cons, List.flatten_cons, List.append_assoc] at hb
        exact List.append_cancel_left hb
      have hdone : whole w.frameBuffer.length (f :: frames) = f :: whole c.length frames := by
        rw [whole, if_pos hwhole, hc, List.length_append, Nat.add_sub_cancel_left]
      have hheldc : L.Holds c := hheld.mono (by rw [hc, List.length_append]; omega)
      simp only [hdone]
      by_cases haccepted : f.frame.Accepted begun.isSome
      · obtain ⟨w', hhandle, hbegun'⟩ := handleFrame_accepted
          (w := { w with frameBuffer := c }) hbegun rfl hf.answerable haccepted
        have hturn := (turn_whole (X := X) hf hheld hc hhandle).1 _ rfl
        have hkept : w'.frameBuffer = c := by
          have := handleFrame_frameBuffer (L := L) { w with frameBuffer := c } f.frame
          rwa [hhandle] at this
        rw [filterOpenClose_flatten_completed] at hturn
        have hlast' : Survives (f.frame.next begun) (frames.dropLast.map Wire.frame) := by
          cases frames with
          | nil => trivial
          | cons g frames => exact hlast.2
        have hless : w'.frameBuffer.length < fuel := by
          have := f.bytes_length_pos
          rw [hc, List.length_append] at hfuel
          rw [hkept]
          omega
        have hrun := ih (fun g hg => hsupported g (List.mem_cons_of_mem _ hg)) (w := w')
          (by rwa [hkept]) (by rwa [hkept]) hbegun' hlast' hless
          (cache ++ [X.stream (f.frame.completed begun)])
        simp only [hkept] at hrun
        have hloop : w.loop L X (fuel + 1) cache =
            w'.loop L X fuel (cache ++ [X.stream (f.frame.completed begun)]) := by
          rw [Session.loop, hturn]
        have hsurvives : Survives begun ((f :: whole c.length frames).map Wire.frame) ↔
            Survives (f.frame.next begun) ((whole c.length frames).map Wire.frame) :=
          and_iff_right haccepted
        rw [hloop, if_congr hsurvives rfl rfl]
        split
        · rename_i hleft
          rw [if_pos hleft] at hrun
          obtain ⟨w'', hw'', hwaits⟩ := hrun
          refine ⟨w'', ?_, hwaits⟩
          rw [hw'', List.map_cons, messages, if_pos haccepted, stream_append]
          simp
        · rename_i hleft
          rw [if_neg hleft] at hrun
          obtain ⟨hall, hu, w'', hw'', hempty⟩ := hrun
          exact ⟨by rw [hall], hu, w'', hw'', hempty⟩
      · obtain ⟨w', hhandle⟩ := handleFrame_refused (L := L) (w := { w with frameBuffer := c })
          hbegun (show f.frame.length = _ from rfl) haccepted
        have hturn := (turn_whole (X := X) hf hheld hc hhandle).2 rfl
        have hkept : w'.frameBuffer = c := by
          have := handleFrame_frameBuffer (L := L) { w with frameBuffer := c } f.frame
          rwa [hhandle] at this
        obtain rfl : frames = [] := by
          cases frames with
          | nil => rfl
          | cons g frames => exact absurd hlast.1 haccepted
        obtain ⟨rfl, rfl⟩ := List.append_eq_nil_iff.mp hrest
        rw [if_neg fun h => haccepted h.1]
        exact ⟨rfl, rfl, w', by rw [Session.loop, hturn], hkept⟩
    · have hdone : whole w.frameBuffer.length (f :: frames) = [] := by
        rw [whole, if_neg hwhole]
      have hpre : w.frameBuffer <+: f.bytes := by
        refine List.prefix_of_prefix_length_le ⟨u, hb⟩ ?_ (by omega)
        rw [textOf, List.map_cons, List.flatten_cons]
        exact List.prefix_append _ _
      simp only [hdone, List.map_nil, Survives, if_true, List.length_nil, List.drop_zero]
      refine ⟨w, ?_, hb, hbegun, hdone⟩
      rw [Session.loop, turn_short hf hheld hpre (by omega)]
      simp [messages]

/-! ## All reads of a connection -/

def Passed.bytes : Passed → Bytes
  | .data text => text
  | .nothing | .raised => []

/-- The filter, with rounds enough for all frames. -/
def Session.filter (L : Lua) (X : Xml) (w : Session) (data : Bytes) : Option (Session × Passed) :=
  (w.receive data).loop L X ((w.receive data).frameBuffer.length + 1) []

def feedAll (L : Lua) (X : Xml) : Session → List Bytes → Option (Session × Bytes)
  | w, [] => some (w, [])
  | w, r :: reads =>
    (w.filter L X r).bind fun p => (feedAll L X p.1 reads).map fun q => (q.1, p.2.bytes ++ q.2)

theorem textOf_append (fs gs : List Wire) : textOf (fs ++ gs) = textOf fs ++ textOf gs := by
  simp [textOf]

theorem whole_append (n : ℕ) (fs gs : List Wire) :
    whole ((textOf fs).length + n) (fs ++ gs) = fs ++ whole n gs := by
  induction fs with
  | nil => simp [textOf]
  | cons f fs ih =>
    have hlength : (textOf (f :: fs)).length = f.bytes.length + (textOf fs).length := by
      simp [textOf]
    rw [List.cons_append, whole, hlength, if_pos (by omega),
      show f.bytes.length + (textOf fs).length + n - f.bytes.length = (textOf fs).length + n by
        omega, ih, List.cons_append]

theorem whole_drop (n : ℕ) (fs : List Wire) :
    whole n fs ++ fs.drop (whole n fs).length = fs := by
  induction fs generalizing n with
  | nil => rfl
  | cons f fs ih =>
    rw [whole]
    split
    · rw [List.length_cons, List.drop_succ_cons, List.cons_append, ih]
    · rfl

theorem whole_of_le {n : ℕ} {fs : List Wire} (h : (textOf fs).length ≤ n) : whole n fs = fs := by
  have hwhole := whole_append (n - (textOf fs).length) fs []
  rwa [List.append_nil, Nat.add_sub_cancel' h, whole, List.append_nil] at hwhole

theorem beforeLast_append (fs gs : List Wire) (n : ℕ) (reads : List Bytes) :
    beforeLast (fs ++ gs) ((textOf fs).length + n) reads =
      (textOf fs).length + beforeLast gs n reads := by
  induction reads generalizing n with
  | nil => rfl
  | cons r reads ih =>
    have hsame : (textOf (fs ++ gs)).length ≤ (textOf fs).length + n + r.length ↔
        (textOf gs).length ≤ n + r.length := by
      rw [textOf_append, List.length_append]
      omega
    rw [beforeLast, beforeLast, if_congr hsame rfl rfl]
    split
    · rfl
    · rw [add_assoc, ih]

theorem feedAll_nothing {reads : List Bytes} (hw : w.frameBuffer = []) (h : reads.flatten = []) :
    ∃ w', feedAll L X w reads = some (w', []) := by
  induction reads generalizing w with
  | nil => exact ⟨w, rfl⟩
  | cons r reads ih =>
    rw [List.flatten_cons] at h
    obtain ⟨rfl, hrest⟩ := List.append_eq_nil_iff.mp h
    have hempty : (w.receive []).frameBuffer = [] := by rw [Session.receive, hw]; rfl
    have hfilter : w.filter L X [] = some (w.receive [], .data []) := by
      rw [Session.filter, Session.loop, turn_empty hempty]
      rfl
    obtain ⟨w', hw'⟩ := ih hempty hrest
    exact ⟨w', by rw [feedAll, hfilter, Option.bind_some, hw']; rfl⟩

/-- What the reads pass on of frames: all, or those before the read that completes the last one. -/
theorem feedAll_spec (hsupported : ∀ f ∈ frames, Supported L f) (hheld : L.Holds (textOf frames))
    {reads : List Bytes} (hwaits : Waits w reads.flatten begun frames)
    (hlast : Survives begun (frames.dropLast.map Wire.frame)) :
    ∃ w', feedAll L X w reads = some (w', X.stream (messages begun
      ((if Survives begun (frames.map Wire.frame) then frames
        else whole (beforeLast frames w.frameBuffer.length reads) frames).map Wire.frame))) := by
  induction reads generalizing w begun frames with
  | nil =>
    obtain ⟨hbuffer, hbegun, hnone⟩ := hwaits
    rw [List.flatten_nil, List.append_nil] at hbuffer
    rw [hbuffer, whole_of_le le_rfl] at hnone
    subst hnone
    exact ⟨w, by simp [feedAll, messages, Survives]⟩
  | cons r reads ih =>
    obtain ⟨hbuffer, hbegun, hnone⟩ := hwaits
    rw [List.flatten_cons, ← List.append_assoc] at hbuffer
    have hlength := congrArg List.length hbuffer
    simp only [List.length_append] at hlength
    have hreceived : (w.receive r).frameBuffer.length = w.frameBuffer.length + r.length :=
      List.length_append
    have hloop := loop_spec (X := X) (w := w.receive r) hsupported
      (hheld.mono (by omega)) hbuffer hbegun hlast (Nat.lt_succ_self _) []
    have hsplit := whole_drop (w.receive r).frameBuffer.length frames
    simp only at hloop
    generalize hdone : whole (w.receive r).frameBuffer.length frames = done at hloop hsplit
    by_cases hsurvives : Survives begun (done.map Wire.frame)
    · rw [if_pos hsurvives] at hloop
      obtain ⟨w', hfilter, hwaits'⟩ := hloop
      generalize hmore : frames.drop done.length = more at hwaits' hsplit
      subst hsplit
      have hlast' : Survives (leftBegun begun (done.map Wire.frame))
          (more.dropLast.map Wire.frame) := by
        by_cases hnil : more = []
        · subst hnil
          trivial
        · rw [List.dropLast_append_of_ne_nil hnil, List.map_append, survives_append] at hlast
          exact hlast.2
      have hheld' : L.Holds (textOf more) := hheld.mono (by
        rw [textOf_append, List.length_append]
        omega)
      obtain ⟨w'', hw''⟩ := ih (fun f hf => hsupported f (List.mem_append_right _ hf)) hheld'
        hwaits' hlast'
      refine ⟨w'', ?_⟩
      have hboth : Survives begun ((done ++ more).map Wire.frame) ↔
          Survives (leftBegun begun (done.map Wire.frame)) (more.map Wire.frame) := by
        rw [List.map_append, survives_append]
        exact and_iff_right hsurvives
      have hbufferlen := congrArg List.length hwaits'.buffer
      rw [textOf_append, List.length_append] at hlength
      rw [List.length_append] at hbufferlen
      rw [feedAll, Session.filter, hfilter, Option.bind_some, hw'']
      simp only [Option.map_some, Passed.bytes, List.flatten_nil, List.nil_append]
      rw [← stream_append, ← messages_append hsurvives, ← List.map_append]
      by_cases hall : Survives (leftBegun begun (done.map Wire.frame)) (more.map Wire.frame)
      · rw [if_pos hall, if_pos (hboth.mpr hall)]
      · have hmany : ¬ (textOf (done ++ more)).length ≤ w.frameBuffer.length + r.length := by
          intro hlong
          rw [hreceived, whole_of_le hlong] at hdone
          obtain rfl : more = [] := List.append_right_eq_self.mp hdone
          exact hall trivial
        rw [if_neg hall, if_neg fun h => hall (hboth.mp h), beforeLast, if_neg hmany]
        rw [show w.frameBuffer.length + r.length =
          (textOf done).length + w'.frameBuffer.length by omega, beforeLast_append, whole_append]
    · rw [if_neg hsurvives] at hloop
      obtain ⟨rfl, hrest, w', hfilter, hempty⟩ := hloop
      obtain ⟨w'', hw''⟩ := feedAll_nothing (L := L) (X := X) hempty hrest
      have hlong : (textOf done).length ≤ w.frameBuffer.length + r.length := by
        rw [hrest, List.length_nil] at hlength
        omega
      refine ⟨w'', ?_⟩
      rw [feedAll, Session.filter, hfilter, Option.bind_some, hw'', if_neg hsurvives, beforeLast,
        if_pos hlong, hnone]
      rfl

/-- The messages that only the read completes which also completes the last frame. -/
def completedLast (frames : List Wire) (reads : List Bytes) : List Bytes :=
  (messages none (frames.map Wire.frame)).drop
    (messages none ((whole (beforeLast frames 0 reads) frames).map Wire.frame)).length

theorem messages_prefix (frames more : List Frame) :
    messages begun frames <+: messages begun (frames ++ more) := by
  induction frames generalizing begun with
  | nil => exact List.nil_prefix
  | cons frame frames ih =>
    rw [List.cons_append, messages, messages]
    split
    · exact (List.prefix_append_right_inj _).mpr ih
    · exact List.prefix_refl _

/-- Whatever the pieces: what is passed on are the complete messages, just if none of them but empty
ones comes in the same read as the frame that ends the connection. -/
theorem passed_on_in_pieces (L : Lua) (X : Xml) {frames : List Wire}
    (hsupported : ∀ f ∈ frames, Supported L f) (hheld : L.Holds (textOf frames))
    (hlast : Survives none (frames.dropLast.map Wire.frame)) {reads : List Bytes}
    (hreads : reads.flatten = textOf frames) :
    (feedAll L X new reads).map Prod.snd =
        some (X.stream (messages none (frames.map Wire.frame))) ↔
      (¬ Survives none (frames.map Wire.frame) →
        ∀ m ∈ completedLast frames reads, X.filterOpenClose m = []) := by
  have hnone : whole 0 frames = [] := by
    cases frames with
    | nil => rfl
    | cons f frames =>
      have := f.bytes_length_pos
      rw [whole, if_neg (by omega)]
  have hwaits : Waits new reads.flatten none frames := ⟨hreads, rfl, hnone⟩
  obtain ⟨w', hw'⟩ := feedAll_spec (X := X) hsupported hheld hwaits hlast
  rw [hw', Option.map_some, Option.some_inj]
  by_cases hsurvives : Survives none (frames.map Wire.frame)
  · simp [hsurvives]
  · have hpre : messages none ((whole (beforeLast frames 0 reads) frames).map Wire.frame) <+:
        messages none (frames.map Wire.frame) := by
      conv_rhs => rw [← whole_drop (beforeLast frames 0 reads) frames, List.map_append]
      exact messages_prefix _ _
    have hsplit : messages none (frames.map Wire.frame) =
        messages none ((whole (beforeLast frames 0 reads) frames).map Wire.frame) ++
          completedLast frames reads := by
      rw [completedLast]
      exact (List.prefix_iff_eq_append.mp hpre).symm
    rw [if_neg hsurvives, hsplit, stream_append]
    change X.stream (messages none ((whole (beforeLast frames 0 reads) frames).map Wire.frame)) =
      _ ↔ _
    rw [List.self_eq_append_right, Xml.stream, List.flatten_eq_nil_iff]
    simp [hsurvives]

/-! ## A message and a close frame -/

def greeting : Wire where
  FIN := true
  RSV1 := false
  RSV2 := false
  RSV3 := false
  opcode := ⟨0x1, by decide⟩
  form := .inHeader
  key := some [0x01, 0x02, 0x03, 0x04]
  payload := ofString "hi"

def farewell : Wire := { greeting with opcode := ⟨0x8, by decide⟩, payload := [] }

theorem supported_of_short {f : Wire} (hform : f.form = .inHeader)
    (hlength : f.payload.length ≤ 125) (hkey : ∀ key ∈ f.key, key.length = 4) :
    Supported ⟨.integers, true⟩ f where
  valid := ⟨by rw [hform]; exact hlength, hkey⟩
  read := by
    have hv : f.Valid := ⟨by rw [hform]; exact hlength, hkey⟩
    rw [misreads_integers]
    rintro ⟨pos, n, hann, hlarge⟩
    obtain ⟨-, hpos, -, -⟩ := announced_bounds hann
    rw [Wire.bytes, hv.announced] at hann
    obtain ⟨rfl, rfl⟩ := Prod.mk.inj (Option.some.inj hann)
    omega
  answerable _ _ := rfl

theorem passed_on_in_pieces_greeting :
    (feedAll ⟨.integers, true⟩ noXml new [greeting.bytes, farewell.bytes]).map Prod.snd =
      some (noXml.stream [greeting.payload]) := by
  refine (@passed_on_in_pieces ⟨.integers, true⟩ noXml [greeting, farewell]
    ?_ ?_ ?_ _ rfl).mpr fun _ => ?_
  · intro f hf
    rcases List.mem_pair.mp hf with rfl | rfl
    · exact supported_of_short rfl (by decide) (by decide)
    · exact supported_of_short rfl (by decide) (by decide)
  · change (textOf [greeting, farewell]).length + 1 < 2 ^ 63
    decide
  · decide
  · decide +kernel

/-- Read together with the close frame, the message is lost. -/
theorem one_read_loses_message :
    (feedAll ⟨.integers, true⟩ noXml new [greeting.bytes ++ farewell.bytes]).map Prod.snd = some [] ∧
      (feedAll ⟨.integers, true⟩ noXml new [greeting.bytes, farewell.bytes]).map Prod.snd =
        some greeting.payload ∧
      messages none [greeting.frame, farewell.frame] = [greeting.payload] := by
  decide +kernel

end Prosody.Websocket
