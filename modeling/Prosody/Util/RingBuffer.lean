import Mathlib.Algebra.Group.Nat.Defs
import Prosody.Library.Circular
import Prosody.Library.Simulation

/-! # The ring buffer (`util-src/ringbuffer.c`) -/

namespace Prosody.Ringbuffer

abbrev Bytes := List UInt8

/-! ## The buffer -/

/-- What a `size_t` keeps of a number. -/
def sizeT (n : ℕ) : ℕ := n % 2 ^ 64

def sizeSub (a b : ℕ) : ℕ := sizeT (a + (2 ^ 64 - b))

structure LuaString where
  bytes : Bytes
  length_lt : bytes.length < 2 ^ 63

/-- A `lua_Integer` that is not negative. -/
structure Count where
  val : ℕ
  val_lt : val < 2 ^ 63

structure RingBuffer where
  rpos : ℕ
  wpos : ℕ
  alen : ℕ
  blen : ℕ
  buffer : Bytes

/-- `rb_new`, where the memory may hold anything. -/
def rbNew (memory : Bytes) : RingBuffer := ⟨0, 0, memory.length, 0, memory⟩

def writechar (b : RingBuffer) (c : UInt8) : RingBuffer :=
  { b with
    blen := sizeT (b.blen + 1)
    wpos := sizeT (b.wpos + 1)
    buffer := b.buffer.set (b.wpos % b.alen) c }

def modpos (b : RingBuffer) : RingBuffer :=
  { b with rpos := b.rpos % b.alen, wpos := b.wpos % b.alen }

/-- Bytes one after the other, unless some of them are outside of the allocation. -/
def slice (b : RingBuffer) (start len : ℕ) : Option Bytes :=
  if start + len ≤ b.buffer.length then some ((b.buffer.drop start).take len) else none

/-! ## What is called from Lua -/

inductive Reply
  | nothing
  | nil
  | boolean (b : Bool)
  | number (n : ℤ)
  | string (s : Bytes)
deriving DecidableEq

/-- `lua_pushinteger` of a `size_t`. -/
def pushinteger (n : ℕ) : Reply := .number ((n : ℤ).bmod (2 ^ 64))

def consume (b : RingBuffer) (r : ℕ) : RingBuffer :=
  modpos { b with blen := sizeSub b.blen r, rpos := sizeT (b.rpos + r) }

def rbDiscard (b : RingBuffer) (r : ℕ) : Reply × RingBuffer :=
  if b.blen < r then (.boolean false, b) else (.boolean true, consume b r)

/-- The oldest bytes, unless memory outside of the allocation would be read. -/
def front (b : RingBuffer) (r : ℕ) : Option Bytes :=
  if b.alen < sizeT (b.rpos + r) then
    (slice b b.rpos (sizeSub b.alen b.rpos)).bind fun s =>
      (slice b 0 (sizeSub r (sizeSub b.alen b.rpos))).map (s ++ ·)
  else slice b b.rpos r

/-- There is no reply where memory outside of the allocation would be read. -/
def rbRead (b : RingBuffer) (r : ℕ) (peek : Bool) : Option Reply × RingBuffer :=
  if b.blen < r then (some .nil, b)
  else
    match front b r with
    | none => (none, b)
    | some s => (some (.string s), if peek then b else consume b r)

def rbWrite (b : RingBuffer) (s : Bytes) : Reply × RingBuffer :=
  if b.alen < sizeT (s.length + b.blen) then (.nil, b)
  else (pushinteger s.length, modpos (s.foldl writechar b))

inductive Call
  | write (s : LuaString)
  | read (r : Count) (peek : Bool)
  | discard (r : Count)
  | length
  | free

def step (b : RingBuffer) : Call → Option Reply × RingBuffer
  | .write s => ((rbWrite b s.bytes).map some id)
  | .read r peek => rbRead b r.val peek
  | .discard r => ((rbDiscard b r.val).map some id)
  | .length => (some (pushinteger b.blen), b)
  | .free => (some (pushinteger (sizeSub b.alen b.blen)), b)

/-! ## The queue it stands for -/

/-- A queue of at most `n` bytes, the oldest one first. -/
def queueStep (n : ℕ) (content : Bytes) : Call → Option Reply × Bytes
  | .write s =>
    if content.length + s.bytes.length ≤ n then
      (some (.number s.bytes.length), content ++ s.bytes)
    else (some .nil, content)
  | .read r peek =>
    if r.val ≤ content.length then
      (some (.string (content.take r.val)), if peek then content else content.drop r.val)
    else (some .nil, content)
  | .discard r =>
    if r.val ≤ content.length then (some (.boolean true), content.drop r.val)
    else (some (.boolean false), content)
  | .length => (some (.number content.length), content)
  | .free => (some (.number (n - content.length : ℕ)), content)

/-! ## The positions agree with the length -/

theorem sizeT_of_lt {n : ℕ} (h : n < 2 ^ 64) : sizeT n = n := Nat.mod_eq_of_lt h

theorem sizeSub_of_le {a b : ℕ} (hab : b ≤ a) (ha : a < 2 ^ 64) : sizeSub a b = a - b := by
  have hsum : a + (2 ^ 64 - b) = (a - b) + 2 ^ 64 := by omega
  rw [sizeSub, sizeT, hsum, Nat.add_mod_right, Nat.mod_eq_of_lt (by omega)]

theorem pushinteger_of_lt {n : ℕ} (h : n < 2 ^ 63) : pushinteger n = .number n := by
  rw [pushinteger, Int.bmod_eq_of_le] <;> omega

def byteAt (b : RingBuffer) (k : ℕ) : UInt8 := b.buffer[k]?.getD 0

/-- The positions are inside the allocation and as far apart as there are bytes. -/
structure Positioned (b : RingBuffer) : Prop where
  rpos_lt : b.rpos < b.alen
  wpos_eq : b.wpos = (b.rpos + b.blen) % b.alen
  blen_le : b.blen ≤ b.alen
  buffer_length : b.buffer.length = b.alen
  alen_lt : b.alen < 2 ^ 63

theorem Positioned.wpos_lt {b : RingBuffer} (h : Positioned b) : b.wpos < b.alen := by
  rw [h.wpos_eq]
  exact Nat.mod_lt _ (Nat.lt_of_le_of_lt (Nat.zero_le _) h.rpos_lt)

def content (b : RingBuffer) : Bytes := Circular.window (byteAt b) b.alen b.rpos b.blen

/-- The buffer of size `n` stands for the bytes. -/
structure Holds (n : ℕ) (b : RingBuffer) (bytes : Bytes) : Prop extends Positioned b where
  size : b.alen = n
  content_eq : content b = bytes

theorem Holds.length {n : ℕ} {b : RingBuffer} {bytes : Bytes} (h : Holds n b bytes) :
    bytes.length = b.blen := by
  rw [← h.content_eq]
  exact Circular.length_window

/-! ## Reading -/

section Reading

variable {n r : ℕ} {b : RingBuffer} {bytes : Bytes}

theorem Holds.consume (h : Holds n b bytes) (hr : r ≤ b.blen) :
    Holds n (consume b r) (bytes.drop r) := by
  have hblen := h.blen_le
  have hrpos := h.rpos_lt
  have halen := h.alen_lt
  have hsub : sizeSub b.blen r = b.blen - r := sizeSub_of_le hr (by omega)
  have hadd : sizeT (b.rpos + r) = b.rpos + r := sizeT_of_lt (by omega)
  have hpos : 0 < b.alen := by omega
  refine ⟨⟨Nat.mod_lt _ hpos, ?_, ?_, h.buffer_length, halen⟩, h.size, ?_⟩
  · change b.wpos % b.alen = (sizeT (b.rpos + r) % b.alen + sizeSub b.blen r) % b.alen
    have hsum : b.rpos + r + (b.blen - r) = b.rpos + b.blen := by omega
    rw [hsub, hadd, Nat.mod_add_mod, hsum, h.wpos_eq, Nat.mod_mod]
  · change sizeSub b.blen r ≤ b.alen
    omega
  · change Circular.window (byteAt b) b.alen (sizeT (b.rpos + r) % b.alen) (sizeSub b.blen r) = _
    rw [hsub, hadd, Circular.window_mod, ← h.content_eq, content, Circular.drop_window]

theorem slice_eq (h : Positioned b) {start len : ℕ} (hlen : start + len ≤ b.alen) :
    slice b start len = some (Circular.window (byteAt b) b.alen start len) := by
  rw [slice, if_pos (by rw [h.buffer_length]; exact hlen)]
  refine congrArg some (List.ext_getElem? fun i => ?_)
  rw [List.getElem?_take, List.getElem?_drop, Circular.getElem?_window]
  split_ifs with hi
  · have hlt : start + i < b.buffer.length := by
      rw [h.buffer_length]
      omega
    rw [Nat.mod_eq_of_lt (by omega), byteAt, List.getElem?_eq_getElem hlt, Option.getD_some]
  · rfl

theorem window_split {get : ℕ → UInt8} {m start len : ℕ} (hstart : start ≤ m)
    (hlen : m - start ≤ len) :
    Circular.window get m start len =
      Circular.window get m start (m - start) ++ Circular.window get m 0 (len - (m - start)) := by
  have hsplit := List.take_append_drop (m - start) (Circular.window get m start len)
  have hsum : start + (m - start) = m := by omega
  have hzero : ∀ k, Circular.window get m m k = Circular.window get m 0 k := by
    intro k
    rw [← Circular.window_mod, Nat.mod_self]
  rw [Circular.take_window hlen, Circular.drop_window, hsum, hzero] at hsplit
  exact hsplit.symm

theorem front_eq (h : Positioned b) (hr : r ≤ b.blen) :
    front b r = some ((content b).take r) := by
  have hblen := h.blen_le
  have hrpos := h.rpos_lt
  have halen := h.alen_lt
  have hadd : sizeT (b.rpos + r) = b.rpos + r := sizeT_of_lt (by omega)
  have hsub : sizeSub b.alen b.rpos = b.alen - b.rpos := sizeSub_of_le (by omega) (by omega)
  rw [front, hadd, content, Circular.take_window hr]
  split_ifs with hwrap
  · have hsub' : sizeSub r (b.alen - b.rpos) = r - (b.alen - b.rpos) :=
      sizeSub_of_le (by omega) (by omega)
    rw [hsub, hsub', slice_eq h (by omega), Option.bind_some,
      slice_eq h (by omega), Option.map_some,
      ← window_split (by omega) (by omega)]
  · exact slice_eq h (by omega)

theorem Holds.front (h : Holds n b bytes) (hr : r ≤ b.blen) : front b r = some (bytes.take r) := by
  rw [front_eq h.toPositioned hr, h.content_eq]

theorem rbRead_eq (h : Holds n b bytes) (hr : r ≤ b.blen) (peek : Bool) :
    rbRead b r peek = (some (.string (bytes.take r)), if peek then b else consume b r) := by
  rw [rbRead, if_neg (by omega), h.front hr]

end Reading

/-! ## Writing -/

section Writing

variable {n : ℕ} {b : RingBuffer} {bytes : Bytes}

theorem byteAt_set {b : RingBuffer} {pos : ℕ} {c : UInt8} (hpos : pos < b.buffer.length) :
    byteAt { b with buffer := b.buffer.set pos c } = Function.update (byteAt b) pos c := by
  funext k
  rw [byteAt, Function.update_apply]
  split_ifs with hk
  · rw [hk, List.getElem?_set_self hpos, Option.getD_some]
  · rw [List.getElem?_set_ne (Ne.symm hk)]
    rfl

/-- While bytes are written only the write position may be outside of the allocation. -/
structure Written (b b' : RingBuffer) (s : Bytes) : Prop where
  rpos_eq : b'.rpos = b.rpos
  alen_eq : b'.alen = b.alen
  wpos_eq : b'.wpos = b.wpos + s.length
  blen_eq : b'.blen = b.blen + s.length
  buffer_length : b'.buffer.length = b.alen
  content_eq : content b' = content b ++ s

theorem Written.nil (h : Positioned b) : Written b b [] :=
  ⟨rfl, rfl, rfl, rfl, h.buffer_length, (List.append_nil _).symm⟩

theorem Written.writechar {b' : RingBuffer} {s : Bytes} (h : Positioned b) (hb : Written b b' s)
    (c : UInt8) (hroom : b.blen + s.length < b.alen) : Written b (writechar b' c) (s ++ [c]) := by
  have hwpos := h.wpos_lt
  have halen := h.alen_lt
  have hpos : b'.wpos % b'.alen = (b.rpos + (b.blen + s.length)) % b.alen := by
    rw [hb.wpos_eq, hb.alen_eq, h.wpos_eq, Nat.mod_add_mod, Nat.add_assoc]
  have hblen : sizeT (b'.blen + 1) = b.blen + s.length + 1 := by
    rw [hb.blen_eq, sizeT_of_lt (by omega)]
  refine ⟨hb.rpos_eq, hb.alen_eq, ?_, ?_, ?_, ?_⟩
  · change sizeT (b'.wpos + 1) = _
    rw [hb.wpos_eq, sizeT_of_lt (by omega), List.length_append, List.length_singleton,
      Nat.add_assoc]
  · change sizeT (b'.blen + 1) = _
    rw [hblen, List.length_append, List.length_singleton, Nat.add_assoc]
  · exact (List.length_set).trans hb.buffer_length
  · have hold : Circular.window (byteAt b') b.alen b.rpos (b.blen + s.length) = content b ++ s := by
      rw [← hb.content_eq, content, hb.alen_eq, hb.rpos_eq, hb.blen_eq]
    have hlt : b'.wpos % b'.alen < b'.buffer.length := by
      rw [hb.buffer_length, hb.alen_eq]
      exact Nat.mod_lt _ (by omega)
    have hget : byteAt (Ringbuffer.writechar b' c) =
        Function.update (byteAt b') ((b.rpos + (b.blen + s.length)) % b.alen) c := by
      rw [← hpos, ← byteAt_set hlt]
      rfl
    change Circular.window (byteAt (Ringbuffer.writechar b' c)) b'.alen b'.rpos
      (sizeT (b'.blen + 1)) = _
    rw [hget, hblen, hb.alen_eq, hb.rpos_eq, Circular.window_push hroom, hold, List.append_assoc]

theorem Written.foldl (h : Positioned b) {s : Bytes} (hroom : b.blen + s.length ≤ b.alen) :
    Written b (s.foldl Ringbuffer.writechar b) s := by
  induction s using List.reverseRecOn with
  | nil => exact Written.nil h
  | append_singleton s c ih =>
    rw [List.length_append, List.length_singleton] at hroom
    rw [List.foldl_append]
    exact (ih (by omega)).writechar h c (by omega)

theorem Holds.write (h : Holds n b bytes) {s : Bytes} (hroom : b.blen + s.length ≤ b.alen) :
    Holds n (modpos (s.foldl writechar b)) (bytes ++ s) := by
  have hb := Written.foldl h.toPositioned hroom
  have hrpos := h.rpos_lt
  have hmod : (b.rpos % b.alen) = b.rpos := Nat.mod_eq_of_lt hrpos
  generalize s.foldl writechar b = b' at hb
  refine ⟨⟨?_, ?_, ?_, ?_, ?_⟩, hb.alen_eq.trans h.size, ?_⟩
  · exact Nat.mod_lt _ (by rw [hb.alen_eq]; omega)
  · change b'.wpos % b'.alen = (b'.rpos % b'.alen + b'.blen) % b'.alen
    rw [hb.wpos_eq, hb.alen_eq, hb.rpos_eq, hb.blen_eq, hmod, h.wpos_eq, Nat.mod_add_mod,
      Nat.add_assoc]
  · change b'.blen ≤ b'.alen
    rw [hb.blen_eq, hb.alen_eq]
    exact hroom
  · exact hb.buffer_length.trans hb.alen_eq.symm
  · change b'.alen < 2 ^ 63
    rw [hb.alen_eq]
    exact h.alen_lt
  · change Circular.window (byteAt b') b'.alen (b'.rpos % b'.alen) b'.blen = _
    rw [Circular.window_mod, ← h.content_eq, ← hb.content_eq, content]

end Writing

/-! ## The buffer is the queue -/

section Queue

variable {n : ℕ} {b : RingBuffer} {bytes : Bytes}

theorem write_simulates (h : Holds n b bytes) (s : LuaString) :
    (step b (.write s)).1 = (queueStep n bytes (.write s)).1 ∧
      Holds n (step b (.write s)).2 (queueStep n bytes (.write s)).2 := by
  have hlen := h.length
  have hsize := h.size
  have hblen := h.blen_le
  have halen := h.alen_lt
  have hs := s.length_lt
  have hsum : sizeT (s.bytes.length + b.blen) = s.bytes.length + b.blen := sizeT_of_lt (by omega)
  simp only [step, queueStep, rbWrite, hsum]
  by_cases hroom : bytes.length + s.bytes.length ≤ n
  · rw [if_pos hroom, if_neg (by omega), pushinteger_of_lt hs]
    exact ⟨rfl, h.write (by omega)⟩
  · rw [if_neg hroom, if_pos (by omega)]
    exact ⟨rfl, h⟩

theorem read_simulates (h : Holds n b bytes) (r : Count) (peek : Bool) :
    (step b (.read r peek)).1 = (queueStep n bytes (.read r peek)).1 ∧
      Holds n (step b (.read r peek)).2 (queueStep n bytes (.read r peek)).2 := by
  have hlen := h.length
  simp only [step, queueStep]
  by_cases hr : r.val ≤ bytes.length
  · rw [if_pos hr, rbRead_eq h (by omega)]
    refine ⟨rfl, ?_⟩
    cases peek with
    | true => exact h
    | false => exact h.consume (by omega)
  · rw [if_neg hr, rbRead, if_pos (by omega)]
    exact ⟨rfl, h⟩

theorem discard_simulates (h : Holds n b bytes) (r : Count) :
    (step b (.discard r)).1 = (queueStep n bytes (.discard r)).1 ∧
      Holds n (step b (.discard r)).2 (queueStep n bytes (.discard r)).2 := by
  have hlen := h.length
  simp only [step, queueStep, rbDiscard]
  by_cases hr : r.val ≤ bytes.length
  · rw [if_pos hr, if_neg (by omega)]
    exact ⟨rfl, h.consume (by omega)⟩
  · rw [if_neg hr, if_pos (by omega)]
    exact ⟨rfl, h⟩

theorem simulates_queue (n : ℕ) : Machine.Simulates step (queueStep n) (Holds n) := by
  intro b bytes call h
  have hlen := h.length
  have hsize := h.size
  have hblen := h.blen_le
  have halen := h.alen_lt
  cases call with
  | write s => exact write_simulates h s
  | read r peek => exact read_simulates h r peek
  | discard r => exact discard_simulates h r
  | length => exact ⟨by rw [step, queueStep, pushinteger_of_lt (by omega), hlen], h⟩
  | free =>
    refine ⟨?_, h⟩
    rw [step, queueStep, hlen, ← hsize, sizeSub_of_le hblen (by omega),
      pushinteger_of_lt (by omega)]

theorem holds_rbNew {memory : Bytes} (hpos : 0 < memory.length) (hlt : memory.length < 2 ^ 63) :
    Holds memory.length (rbNew memory) [] :=
  ⟨⟨hpos, (Nat.zero_mod _).symm, Nat.zero_le _, rfl, hlt⟩, rfl, rfl⟩

/-- Nobody can tell the ring buffer from a queue, and its positions stay inside the allocation. -/
theorem buffer_is_a_queue {memory : Bytes} (hpos : 0 < memory.length)
    (hlt : memory.length < 2 ^ 63) (calls : List Call) :
    Machine.replies step (rbNew memory) calls = Machine.replies (queueStep memory.length) [] calls ∧
      Machine.Always (Machine.next step) (fun b => Positioned b ∧ b.alen = memory.length)
        (rbNew memory) calls := by
  have hnew := holds_rbNew hpos hlt
  refine ⟨(simulates_queue _).replies hnew calls, Machine.always_iff.mpr fun pre _ => ?_⟩
  have hold := (simulates_queue _).run hnew pre
  exact ⟨hold.toPositioned, hold.size⟩

def hello : LuaString := ⟨[104, 105, 33], by decide⟩

/-- The last two of the three bytes are read across the end of the allocation. -/
theorem wrapped_is_a_queue :
    Machine.replies step (rbNew [0, 0, 0, 0])
        [.write hello, .read ⟨2, by decide⟩ false, .write hello, .read ⟨4, by decide⟩ false] =
      [some (.number 3), some (.string [104, 105]), some (.number 3),
        some (.string [33, 104, 105, 33])] :=
  (@buffer_is_a_queue [0, 0, 0, 0] (by decide) (by decide) _).1

end Queue

end Prosody.Ringbuffer
