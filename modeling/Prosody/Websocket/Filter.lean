import Mathlib.Data.List.Infix
import Mathlib.Logic.Function.Basic
import Mathlib.Logic.Relation
import Prosody.Websocket.Frames

/-! # What websockets pass on to streams (`plugins/mod_websocket.lua`) -/

namespace Prosody.Websocket

def ofString (s : String) : Bytes := s.toList.map fun c => UInt8.ofNat c.toNat

/-! ## Opening and closing streams -/

def xmlnsFraming : String := "urn:ietf:params:xml:ns:xmpp-framing"
def xmlnsStreams : String := "http://etherx.jabber.org/streams"

structure Element where
  name : String
  attr : String → Option String

/-- `util.xml.parse` and the serialization of a start tag. -/
structure Xml where
  parse : Bytes → Option Element
  topTag : Element → Bytes

def Xml.filterOpenClose (X : Xml) (data : Bytes) : Bytes :=
  if ¬ ofString xmlnsFraming <:+: data then data
  else
    match X.parse data with
    | none => data
    | some oc =>
      if oc.attr "xmlns" ≠ some xmlnsFraming then data
      else if oc.name = "close" then ofString "</stream:stream>"
      else if oc.name = "open" then
        X.topTag {
          name := "stream:stream"
          attr := Function.update (Function.update oc.attr "xmlns" none) "xmlns:stream"
            (some xmlnsStreams) }
      else data

/-! ## Frames -/

inductive Sent
  | write (data : Bytes)
  | close
deriving DecidableEq

structure Session where
  dataBuffer : Option (List Bytes)
  frameBuffer : Bytes
  sent : List Sent
deriving DecidableEq

def new : Session where
  dataBuffer := none
  frameBuffer := []
  sent := []

inductive Outcome
  /-- A string is returned. -/
  | pass (data : Bytes)
  /-- `false` or `nil` is returned. -/
  | drop
  /-- An error is raised. -/
  | raise
deriving DecidableEq

variable (L : Lua) (X : Xml)

def Session.close (w : Session) (code : ℕ) (message : String) : Session × Outcome :=
  match L.buildClose code (ofString message) with
  | none => (w, .raise)
  | some frame => ({ w with sent := w.sent ++ [.write frame, .close] }, .drop)

/-- Why a frame is refused: by the text that it is answered with, or none if an error is raised. -/
def Session.refusal (w : Session) (frame : Frame) : Option (Option String) :=
  let status := (parseClose frame.data).1
  if frame.RSV1 ∨ frame.RSV2 ∨ frame.RSV3 then some (some "Reserved bits not zero")
  else if frame.opcode = 0x8 ∧ frame.length = 1 then
    some (some "Close frame with payload, but too short for status code")
  else if frame.opcode = 0x8 ∧ 2 ≤ frame.length ∧ status = none then some none
  else if frame.opcode = 0x8 ∧ 2 ≤ frame.length ∧ ∃ code ∈ status, code < 1000 then
    some (some "Closed with invalid status code")
  else if frame.opcode = 0x8 ∧ 2 ≤ frame.length ∧
      ∃ code ∈ status, (1003 < code ∧ code < 1007 ∨ 1011 < code) ∧ code < 3000 then
    some (some "Closed with reserved status code")
  else if 0x8 ≤ frame.opcode ∧ 125 < frame.length then some (some "Payload too large")
  else if 0x8 ≤ frame.opcode ∧ ¬ frame.FIN then some (some "Fragmented control frame")
  else if 0x2 < frame.opcode ∧ frame.opcode < 0x8 ∨ 0xA < frame.opcode then
    some (some "Reserved opcode")
  else if frame.opcode = 0x0 ∧ w.dataBuffer = none then
    some (some "Unexpected continuation frame")
  else if (frame.opcode = 0x1 ∨ frame.opcode = 0x2) ∧ w.dataBuffer ≠ none then
    some (some "Continuation frame expected")
  else none

/-- The data of a message is passed on with its last frame. -/
def Session.finish (w : Session) (frame : Frame) (buffer : List Bytes) : Session × Outcome :=
  if frame.FIN then ({ w with dataBuffer := none }, .pass buffer.flatten)
  else ({ w with dataBuffer := some buffer }, .pass [])

def Session.handleFrame (w : Session) (frame : Frame) : Session × Outcome :=
  match w.refusal frame with
  | some none => (w, .raise)
  | some (some message) => w.close L 1002 message
  | none =>
    if frame.opcode = 0x0 then w.finish frame (w.dataBuffer.getD [] ++ [frame.data])
    else if frame.opcode = 0x1 then w.finish frame [frame.data]
    else if frame.opcode = 0x2 then w.close L 1003 "Only text frames are supported"
    else if frame.opcode = 0x8 then w.close L 1000 "Goodbye"
    else if frame.opcode = 0x9 then
      match L.buildFrame { frame with opcode := 0xA } with
      | none => (w, .raise)
      | some pong => ({ w with sent := w.sent ++ [.write pong] }, .pass [])
    else (w, .pass [])

/-! ## The filter -/

inductive Turn
  /-- There is no whole frame. -/
  | done
  | dropped (w : Session)
  | raised (w : Session)
  | again (w : Session) (data : Bytes)
deriving DecidableEq

def Session.turn (w : Session) : Turn :=
  match L.parseFrame w.frameBuffer with
  | none => .done
  | some (frame, length) =>
    let w := { w with frameBuffer := sub w.frameBuffer (L.number (length + 1)) (-1) }
    match w.handleFrame L frame with
    | (w, .pass data) => .again w (X.filterOpenClose data)
    | (w, .drop) => .dropped w
    | (w, .raise) => .raised w

inductive Passed
  | data (data : Bytes)
  | nothing
  | raised
deriving DecidableEq

def Session.loop : ℕ → Session → List Bytes → Option (Session × Passed)
  | 0, _, _ => none
  | fuel + 1, w, cache =>
    match w.turn L X with
    | .done => some (w, .data cache.flatten)
    | .dropped w => some (w, .nothing)
    | .raised w => some (w, .raised)
    | .again w data => Session.loop fuel w (cache ++ [data])

def Session.receive (w : Session) (data : Bytes) : Session :=
  { w with frameBuffer := w.frameBuffer ++ data }

/-! ## Progress -/

/-- The loop goes from one state on to another one. -/
def Next (w w' : Session) : Prop := ∃ data, w.turn L X = .again w' data

variable {L X} {w w' : Session} {data : Bytes}

theorem close_frameBuffer (w : Session) (code : ℕ) (message : String) :
    (w.close L code message).1.frameBuffer = w.frameBuffer := by
  unfold Session.close
  split <;> rfl

theorem finish_frameBuffer (w : Session) (frame : Frame) (buffer : List Bytes) :
    (w.finish frame buffer).1.frameBuffer = w.frameBuffer := by
  unfold Session.finish
  split <;> rfl

theorem handleFrame_frameBuffer (w : Session) (frame : Frame) :
    (w.handleFrame L frame).1.frameBuffer = w.frameBuffer := by
  unfold Session.handleFrame
  split
  · rfl
  · exact close_frameBuffer w _ _
  · split_ifs
    · exact finish_frameBuffer w _ _
    · exact finish_frameBuffer w _ _
    · exact close_frameBuffer w _ _
    · exact close_frameBuffer w _ _
    · split <;> rfl
    · rfl

/-- As long as numbers are exact, a round is the one with numbers without limits. -/
theorem turn_eq_exact (hheld : L.Holds w.frameBuffer) (hread : ¬ L.Misreads w.frameBuffer) :
    w.turn L X = w.turn ⟨.exact, L.unpack⟩ X := by
  have hframes := parseFrame_eq_exact hheld hread
  rw [Session.turn, Session.turn, ← hframes]
  cases hparse : L.parseFrame w.frameBuffer with
  | none => rfl
  | some found =>
    obtain ⟨frame, n⟩ := found
    obtain ⟨hlow, hhigh, -⟩ := (sound_iff hheld).mpr hread frame n hparse
    have hnext : L.number (n + 1) = n + 1 := number_of_held hheld (by omega) hhigh
    simp only [hnext]
    rfl

theorem next_congr (hheld : L.Holds w.frameBuffer) (hread : ¬ L.Misreads w.frameBuffer) :
    Next L X w w' ↔ Next ⟨.exact, L.unpack⟩ X w w' := by
  rw [Next, Next, turn_eq_exact hheld hread]

theorem length_sub_rest {s : Bytes} {n : ℤ} (hlow : 0 ≤ n) :
    (sub s (n + 1) (-1)).length = s.length - n.toNat := by
  have hfirst : ¬ n + 1 < 0 := by omega
  have hlast : (s.length : ℤ) + -1 + 1 = s.length := by omega
  simp only [sub, if_neg hfirst, if_pos (show (-1 : ℤ) < 0 by decide), hlast, List.length_drop,
    List.length_take]
  omega

theorem next_exact_length (unpack : Bool) (h : Next ⟨.exact, unpack⟩ X w w') :
    w'.frameBuffer.length < w.frameBuffer.length := by
  obtain ⟨data, h⟩ := h
  unfold Session.turn at h
  split at h
  · cases h
  · rename_i frame n hparse
    obtain ⟨hlow, hhigh, -⟩ := exact_sound unpack w.frameBuffer frame n hparse
    have hrest : (sub w.frameBuffer (Lua.number ⟨.exact, unpack⟩ (n + 1)) (-1)).length =
        w.frameBuffer.length - n.toNat := length_sub_rest (by omega)
    have hkept := handleFrame_frameBuffer (L := ⟨.exact, unpack⟩)
      { w with frameBuffer := sub w.frameBuffer (Lua.number ⟨.exact, unpack⟩ (n + 1)) (-1) } frame
    simp only at h
    split at h
    · rename_i w'' result heq
      rw [heq] at hkept
      injection h with hw
      rw [← hw, hkept, hrest]
      omega
    · cases h
    · cases h

theorem Lua.Holds.mono {bytes bytes' : Bytes} (h : L.Holds bytes)
    (hle : bytes'.length ≤ bytes.length) : L.Holds bytes' := by
  unfold Lua.Holds at h ⊢
  split at h
  · trivial
  · omega
  · omega
  · omega

open Relation (ReflTransGen)

theorem reached_length (unpack : Bool) (h : ReflTransGen (Next ⟨.exact, unpack⟩ X) w w') :
    w'.frameBuffer.length ≤ w.frameBuffer.length := by
  induction h with
  | refl => exact le_rfl
  | tail _ hnext ih => exact (next_exact_length unpack hnext).le.trans ih

/-- The loop comes to an end where nothing is misread. -/
theorem loop_ends (hheld : L.Holds w.frameBuffer)
    (hread : ∀ w', ReflTransGen (Next ⟨.exact, L.unpack⟩ X) w w' → ¬ L.Misreads w'.frameBuffer)
    (cache : List Bytes) : ∃ fuel result, w.loop L X fuel cache = some result := by
  induction hn : w.frameBuffer.length using Nat.strong_induction_on generalizing w cache with
  | _ n ih =>
    cases hturn : w.turn L X with
    | done => exact ⟨1, _, by rw [Session.loop, hturn]⟩
    | dropped w' => exact ⟨1, _, by rw [Session.loop, hturn]⟩
    | raised w' => exact ⟨1, _, by rw [Session.loop, hturn]⟩
    | again w' data =>
      have hnext : Next ⟨.exact, L.unpack⟩ X w w' :=
        (next_congr hheld (hread w .refl)).mp ⟨data, hturn⟩
      have hless := next_exact_length L.unpack hnext
      obtain ⟨fuel, result, hloop⟩ := ih w'.frameBuffer.length (hn ▸ hless)
        (hheld.mono hless.le) (fun w'' h => hread w'' (.head hnext h)) (cache ++ [data]) rfl
      exact ⟨fuel + 1, result, by rw [Session.loop, hturn]; exact hloop⟩

/-- Every frame parsed in the loop is as announced, and the loop comes to an end. -/
structure Progress (L : Lua) (X : Xml) (w : Session) : Prop where
  sound : ∀ w', ReflTransGen (Next L X) w w' → L.Sound w'.frameBuffer
  ends : ∃ fuel result, w.loop L X fuel [] = some result

/-- Where the loop makes progress, it goes from frame to frame as they were announced. -/
theorem Progress.reached (hheld : L.Holds w.frameBuffer)
    (hsound : ∀ w', ReflTransGen (Next L X) w w' → L.Sound w'.frameBuffer)
    (h : ReflTransGen (Next ⟨.exact, L.unpack⟩ X) w w') : ReflTransGen (Next L X) w w' := by
  induction h with
  | refl => exact .refl
  | tail hreach hnext ih =>
    have hheld' := hheld.mono (reached_length L.unpack hreach)
    have hread := (sound_iff hheld').mp (hsound _ ih)
    exact ih.tail ((next_congr hheld' hread).mpr hnext)

theorem progress_iff (hheld : L.Holds w.frameBuffer) :
    Progress L X w ↔
      ∀ w', ReflTransGen (Next ⟨.exact, L.unpack⟩ X) w w' → ¬ L.Misreads w'.frameBuffer := by
  constructor
  · intro h w' hreach
    have hheld' := hheld.mono (reached_length L.unpack hreach)
    exact (sound_iff hheld').mp (h.sound w' (Progress.reached hheld h.sound hreach))
  · intro h
    refine ⟨fun w' hreach => ?_, loop_ends hheld h []⟩
    have hexact : ReflTransGen (Next ⟨.exact, L.unpack⟩ X) w w' := by
      induction hreach with
      | refl => exact .refl
      | tail _ hnext ih =>
        have hheld' := hheld.mono (reached_length L.unpack ih)
        exact ih.tail ((next_congr hheld' (h _ ih)).mp hnext)
    exact (sound_iff (hheld.mono (reached_length L.unpack hexact))).mpr (h w' hexact)

/-- The parser and the filter make progress on every input whose lengths Lua does not misread. -/
theorem input_progress (L : Lua) (X : Xml) (w : Session) (data : Bytes)
    (hheld : L.Holds (w.receive data).frameBuffer) :
    (L.Sound (w.receive data).frameBuffer ↔ ¬ L.Misreads (w.receive data).frameBuffer) ∧
      (Progress L X (w.receive data) ↔
        ∀ w', ReflTransGen (Next ⟨.exact, L.unpack⟩ X) (w.receive data) w' →
          ¬ L.Misreads w'.frameBuffer) :=
  ⟨sound_iff hheld, progress_iff hheld⟩

/-! ## A length with the top bit set -/

def noXml : Xml where
  parse _ := none
  topTag _ := []

/-- A pong that announces `2 ^ 64 - 14` bytes. -/
def hugePong : Bytes :=
  [0x8A, 0xFF, 0xFF, 0xFF, 0xFF, 0xFF, 0xFF, 0xFF, 0xFF, 0xF2, 0x00, 0x00, 0x00, 0x00]

/-- A text frame of two bytes. -/
def hello : Bytes := [0x81, 0x82, 0x00, 0x00, 0x00, 0x00, 0x68, 0x69]

theorem input_progress_hello : Progress ⟨.integers, true⟩ noXml (new.receive hello) := by
  have hheld : Lua.Holds ⟨.integers, true⟩ (new.receive hello).frameBuffer := by
    change (new.receive hello).frameBuffer.length + 1 < 2 ^ 63
    decide
  refine (input_progress ⟨.integers, true⟩ noXml new hello hheld).2.mpr fun w' hreach => ?_
  have hfirst : (new.receive hello).turn ⟨.exact, true⟩ noXml = .again new [0x68, 0x69] := by
    decide +kernel
  rcases hreach.cases_head with rfl | ⟨w, ⟨data, hnext⟩, hrest⟩
  · rw [misreads_integers]
    rintro ⟨pos, n, h, hlarge⟩
    obtain ⟨rfl, rfl⟩ := Prod.mk.inj (Option.some.inj h)
    revert hlarge
    decide
  · rw [hfirst] at hnext
    injection hnext with hw
    subst hw
    rcases hrest.cases_head with rfl | ⟨w, ⟨data, hnext⟩, -⟩
    · rw [misreads_integers]
      rintro ⟨pos, n, h, -⟩
      cases h
    · cases hnext

/-- The parser returns a frame of length 0, and the loop does not come to an end. -/
theorem huge_pong_never_ends :
    ¬ Lua.Sound ⟨.integers, true⟩ hugePong ∧
      ∀ fuel cache, (new.receive hugePong).loop ⟨.integers, true⟩ noXml fuel cache = none := by
  have hturn : (new.receive hugePong).turn ⟨.integers, true⟩ noXml =
      .again (new.receive hugePong) [] := by decide +kernel
  constructor
  · intro h
    have hparse : (Lua.parseFrame ⟨.integers, true⟩ hugePong).map Prod.snd = some 0 := by
      decide +kernel
    obtain ⟨⟨frame, n⟩, hframe, rfl⟩ := Option.map_eq_some_iff.mp hparse
    exact absurd (h frame 0 hframe).1 (by decide)
  · intro fuel
    induction fuel with
    | zero => exact fun _ => rfl
    | succ fuel ih =>
      intro cache
      rw [Session.loop, hturn]
      exact ih _

end Prosody.Websocket
