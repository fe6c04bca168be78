import Mathlib.Data.List.Basic
import Prosody.Library.Numbers

/-! # Frames of websockets (`net/websocket/frames.lua`) -/

namespace Prosody.Websocket

open Numbers

abbrev Bytes := List UInt8

/-! ## The numbers of Lua -/

inductive Format
  /-- Numbers without limits, as a standard for the others. -/
  | exact
  /-- Integers of 64 bits, with `string.unpack`. -/
  | integers
  /-- Doubles, with `struct` or with the unsigned results of `bit32`. -/
  | doubles
  /-- Doubles, with the signed results of `bit`. -/
  | signed
deriving DecidableEq

structure Lua where
  format : Format
  /-- Whether there is a global function `unpack`. -/
  unpack : Bool

def Lua.number (L : Lua) (n : ℤ) : ℤ :=
  match L.format with
  | .exact => n
  | .integers => wrap n
  | .doubles | .signed => double n

/-- What `lshift` and additions make of four bytes that are the number `n`. -/
def signedHalf (n : ℕ) : ℤ := Int.bmod n (2 ^ 32)

def readUint16be (bytes : Bytes) : ℕ := bigEndian bytes

def Lua.readUint64be (L : Lua) (bytes : Bytes) : ℤ :=
  match L.format with
  | .exact => bigEndian bytes
  | .integers => wrap (bigEndian bytes)
  | .doubles => double (bigEndian bytes)
  | .signed =>
    double (signedHalf (bigEndian (bytes.take 4)) * 2 ^ 32 +
      signedHalf (bigEndian (bytes.drop 4)))

/-- The bytes from position `i` to position `j`, which count from the end if they are negative. -/
def sub (s : Bytes) (i j : ℤ) : Bytes :=
  let first := if i < 0 then s.length + i + 1 else i
  let last := if j < 0 then s.length + j + 1 else j
  (s.take last.toNat).drop (first.toNat - 1)

/-! ## Parsing -/

structure Header where
  FIN : Bool
  RSV1 : Bool
  RSV2 : Bool
  RSV3 : Bool
  opcode : UInt8
  MASK : Bool
  length : ℤ
  key : Option Bytes
deriving DecidableEq

structure Frame extends Header where
  data : Bytes
deriving DecidableEq

def lengthBytes (byte2 : UInt8) : ℕ :=
  if byte2 &&& 0x7F = 126 then 2 else if byte2 &&& 0x7F = 127 then 8 else 0

def isMasked (byte2 : UInt8) : Bool := 0 < byte2 &&& 0x80

def headerLength (byte2 : UInt8) : ℕ :=
  2 + lengthBytes byte2 + if isMasked byte2 then 4 else 0

def Lua.parseFrameHeader (L : Lua) (frame : Bytes) : Option (Header × ℕ) :=
  match frame with
  | byte1 :: byte2 :: _ =>
    if frame.length < headerLength byte2 then none
    else
      some ({
        FIN := 0 < byte1 &&& 0x80
        RSV1 := 0 < byte1 &&& 0x40
        RSV2 := 0 < byte1 &&& 0x20
        RSV3 := 0 < byte1 &&& 0x10
        opcode := byte1 &&& 0x0F
        MASK := isMasked byte2
        length :=
          if lengthBytes byte2 = 2 then readUint16be ((frame.drop 2).take 2)
          else if lengthBytes byte2 = 8 then L.readUint64be ((frame.drop 2).take 8)
          else (byte2 &&& 0x7F).toNat
        key :=
          if isMasked byte2 then some ((frame.drop (lengthBytes byte2 + 2)).take 4) else none },
        headerLength byte2)
  | _ => none

/-- The bytes of `str` from `first` to `last`, each with the byte of the key whose turn it is. -/
def applyMask (str key : Bytes) (first last : ℤ) : Bytes :=
  (sub str first last).mapIdx fun counter b => key.getD (counter % key.length) 0 ^^^ b

def Lua.parseFrameBody (L : Lua) (frame : Bytes) (header : Header) (pos : ℕ) : Bytes :=
  match header.key with
  | some key => applyMask frame key pos (L.number (L.number (pos + header.length) - 1))
  | none => sub frame pos (L.number (L.number (pos + header.length) - 1))

def Lua.parseFrame (L : Lua) (frame : Bytes) : Option (Frame × ℤ) :=
  match L.parseFrameHeader frame with
  | none => none
  | some (result, pos) =>
    if (frame.length : ℤ) < L.number (pos + result.length) then none
    else
      some ({ result with data := L.parseFrameBody frame result (pos + 1) },
        L.number (pos + result.length))

/-! ## Building -/

/-- The frame of a description, unless an assertion fails or there is no `unpack` for its key.
No caller asks for a mask without a key. -/
def Lua.buildFrame (L : Lua) (desc : Frame) : Option Bytes :=
  if 0x0F < desc.opcode ∨ 0x8 ≤ desc.opcode ∧ 125 < desc.data.length then none
  else
    let b1 := desc.opcode ||| (if desc.FIN then 0x80 else 0) ||| (if desc.RSV1 then 0x40 else 0) |||
      (if desc.RSV2 then 0x20 else 0) ||| (if desc.RSV3 then 0x10 else 0)
    let size := desc.data.length
    let b2 : UInt8 := if size ≤ 125 then UInt8.ofNat size else if size ≤ 0xFFFF then 126 else 127
    let extra := if size ≤ 125 then [] else toBigEndian (if size ≤ 0xFFFF then 2 else 8) size
    match desc.key with
    | none => some ([b1, b2] ++ extra ++ desc.data)
    | some key =>
      if L.unpack then
        some ([b1, b2 ||| 0x80] ++ extra ++ key ++ applyMask desc.data key 1 desc.data.length)
      else none

def parseClose (data : Bytes) : Option ℕ × Option Bytes :=
  if 2 ≤ data.length then
    (some (readUint16be (data.take 2)), if 2 < data.length then some (data.drop 2) else none)
  else (none, none)

/-- The close frame of a code and a text of at most 123 bytes. -/
def Lua.buildClose (L : Lua) (code : ℕ) (message : Bytes) : Option Bytes :=
  L.buildFrame {
    FIN := true
    RSV1 := false
    RSV2 := false
    RSV3 := false
    opcode := 0x8
    MASK := false
    length := 0
    key := none
    data := toBigEndian 2 code ++ message }

/-! ## What a header announces -/

/-- How many bytes the header has that `frame` begins with, and how many the payload has. -/
def announced (frame : Bytes) : Option (ℕ × ℕ) :=
  match frame with
  | _ :: byte2 :: _ =>
    if frame.length < headerLength byte2 then none
    else
      some (headerLength byte2,
        if lengthBytes byte2 = 0 then (byte2 &&& 0x7F).toNat
        else bigEndian ((frame.drop 2).take (lengthBytes byte2)))
  | _ => none

/-- What is returned of `bytes` takes up at least two bytes, no more than there are, and its data is
as long as announced. -/
def Lua.Sound (L : Lua) (bytes : Bytes) : Prop :=
  ∀ frame n, L.parseFrame bytes = some (frame, n) →
    2 ≤ n ∧ n ≤ bytes.length ∧ ∃ pos, announced bytes = some (pos, frame.data.length)

/-- The payload length announced is one of which the numbers of Lua make something else. -/
def Lua.Misreads (L : Lua) (bytes : Bytes) : Prop :=
  ∃ pos n, announced bytes = some (pos, n) ∧
    match L.format with
    | .exact | .doubles => False
    | .integers => 2 ^ 63 ≤ pos + n
    | .signed => 2 ^ 63 ≤ n ∨ 2 ^ 31 ≤ n % 2 ^ 32 ∧ pos + n ≤ bytes.length + 2 ^ 32

theorem misreads_integers {unpack : Bool} {bytes : Bytes} :
    Lua.Misreads ⟨.integers, unpack⟩ bytes ↔
      ∃ pos n, announced bytes = some (pos, n) ∧ 2 ^ 63 ≤ pos + n :=
  Iff.rfl

theorem misreads_signed {unpack : Bool} {bytes : Bytes} :
    Lua.Misreads ⟨.signed, unpack⟩ bytes ↔ ∃ pos n, announced bytes = some (pos, n) ∧
      (2 ^ 63 ≤ n ∨ 2 ^ 31 ≤ n % 2 ^ 32 ∧ pos + n ≤ bytes.length + 2 ^ 32) :=
  Iff.rfl

/-- The string is not longer than Lua's numbers count exactly. -/
def Lua.Holds (L : Lua) (bytes : Bytes) : Prop :=
  match L.format with
  | .exact => True
  | .integers => bytes.length + 1 < 2 ^ 63
  | .doubles | .signed => bytes.length < 2 ^ 53

/-- What is read for a payload length. -/
def Lua.reading (L : Lua) (n : ℕ) : ℤ :=
  match L.format with
  | .exact => n
  | .integers => wrap n
  | .doubles => double n
  | .signed => double (signedHalf (n / 2 ^ 32) * 2 ^ 32 + signedHalf (n % 2 ^ 32))

variable {L : Lua} {bytes : Bytes} {pos n : ℕ}

theorem lengthBytes_cases (byte2 : UInt8) :
    lengthBytes byte2 = 0 ∨ lengthBytes byte2 = 2 ∨ lengthBytes byte2 = 8 := by
  unfold lengthBytes
  split_ifs <;> simp

theorem headerLength_bounds (byte2 : UInt8) : 2 ≤ headerLength byte2 ∧ headerLength byte2 ≤ 14 := by
  unfold headerLength
  rcases lengthBytes_cases byte2 with h | h | h <;> rw [h] <;> split_ifs <;> omega

theorem lengthBytes_le (byte2 : UInt8) : 2 + lengthBytes byte2 ≤ headerLength byte2 := by
  unfold headerLength
  omega

theorem announced_bounds (h : announced bytes = some (pos, n)) :
    2 ≤ pos ∧ pos ≤ 14 ∧ pos ≤ bytes.length ∧ n < 2 ^ 64 := by
  unfold announced at h
  split at h
  · rename_i byte2 _
    split at h
    · cases h
    · rename_i hlen
      obtain ⟨rfl, rfl⟩ := Prod.mk.inj (Option.some.inj h)
      obtain ⟨hlow, hhigh⟩ := headerLength_bounds byte2
      refine ⟨hlow, hhigh, by omega, ?_⟩
      split
      · have := (byte2 &&& 0x7F).toNat_lt
        omega
      · refine (bigEndian_lt _).trans_le ?_
        rw [show (2 : ℕ) ^ 64 = 256 ^ 8 by norm_num]
        refine Nat.pow_le_pow_right (by omega) ?_
        rw [List.length_take]
        rcases lengthBytes_cases byte2 with h | h | h <;> omega
  · cases h

theorem parseFrameHeader_of_none (h : announced bytes = none) : L.parseFrameHeader bytes = none := by
  unfold announced at h
  unfold Lua.parseFrameHeader
  split at h
  · split at h
    · rename_i hlen
      simp only [if_pos hlen]
    · cases h
  · rfl

theorem signedHalf_eq {k : ℕ} (h : k < 2 ^ 32) :
    signedHalf k = if k < 2 ^ 31 then (k : ℤ) else k - 2 ^ 32 := by
  unfold signedHalf
  split
  · exact Int.bmod_eq_of_le_mul_two (by omega) (by omega)
  · rw [← Int.sub_bmod_right]
    exact Int.bmod_eq_of_le_mul_two (by push_cast; omega) (by push_cast; omega)

/-- Lengths of less than 32 bits are read as they are. -/
theorem reading_of_lt (h : n < 2 ^ 31) : L.reading n = n := by
  unfold Lua.reading
  split
  · rfl
  · exact wrap_of_lt (by omega) (by omega)
  · exact double_of_lt (by omega) (by omega)
  · rw [Nat.div_eq_of_lt (by omega), Nat.mod_eq_of_lt (by omega), signedHalf_eq (by omega),
      signedHalf_eq (by omega), if_pos (by omega), if_pos h]
    simp only [Nat.cast_zero, zero_mul, zero_add]
    exact double_of_lt (by omega) (by omega)

theorem readUint64be_eq (hlen : bytes.length = 8) :
    L.readUint64be bytes = L.reading (bigEndian bytes) := by
  unfold Lua.readUint64be Lua.reading
  split
  · rfl
  · rfl
  · rfl
  · have hsplit : bigEndian bytes =
        bigEndian (bytes.take 4) * 2 ^ 32 + bigEndian (bytes.drop 4) := by
      conv_lhs => rw [← List.take_append_drop 4 bytes]
      rw [bigEndian_append, List.length_drop, hlen]
      norm_num
    have hlow : bigEndian (bytes.drop 4) < 2 ^ 32 := by
      have := bigEndian_lt (bytes.drop 4)
      rw [List.length_drop, hlen] at this
      exact this.trans_eq (by norm_num)
    have hdiv : bigEndian bytes / 2 ^ 32 = bigEndian (bytes.take 4) := by omega
    have hmod : bigEndian bytes % 2 ^ 32 = bigEndian (bytes.drop 4) := by omega
    rw [hdiv, hmod]

theorem parseFrameHeader_of_some (h : announced bytes = some (pos, n)) :
    ∃ header : Header, ∀ L : Lua,
      L.parseFrameHeader bytes = some ({ header with length := L.reading n }, pos) := by
  unfold announced at h
  split at h
  · rename_i byte1 byte2 rest
    split at h
    · cases h
    · rename_i hlen
      obtain ⟨rfl, rfl⟩ := Prod.mk.inj (Option.some.inj h)
      refine ⟨{
        FIN := 0 < byte1 &&& 0x80
        RSV1 := 0 < byte1 &&& 0x40
        RSV2 := 0 < byte1 &&& 0x20
        RSV3 := 0 < byte1 &&& 0x10
        opcode := byte1 &&& 0x0F
        MASK := isMasked byte2
        length := 0
        key := if isMasked byte2 then
          some (((byte1 :: byte2 :: rest).drop (lengthBytes byte2 + 2)).take 4) else none },
        fun L => ?_⟩
      have hfits := lengthBytes_le byte2
      simp only [Lua.parseFrameHeader, if_neg hlen]
      congr 3
      rcases lengthBytes_cases byte2 with hb | hb | hb
      · have := (byte2 &&& 0x7F).toNat_lt
        simp only [hb, if_true]
        exact (reading_of_lt (by omega)).symm
      · have hsmall : readUint16be (((byte1 :: byte2 :: rest).drop 2).take 2) < 256 ^ 2 :=
          (bigEndian_lt _).trans_le (Nat.pow_le_pow_right (by omega) (List.length_take_le _ _))
        simp only [hb, if_true]
        exact (reading_of_lt (by omega)).symm
      · simp only [hb]
        refine readUint64be_eq ?_
        rw [List.length_take, List.length_drop]
        omega
  · cases h

theorem parseFrame_of_none (h : announced bytes = none) : L.parseFrame bytes = none := by
  rw [Lua.parseFrame, parseFrameHeader_of_none h]

theorem length_sub {s : Bytes} {j : ℤ} (hlow : 0 ≤ j) (hhigh : j ≤ s.length) :
    (sub s (pos + 1 : ℕ) j).length = j.toNat - pos := by
  have hfirst : ¬ ((pos + 1 : ℕ) : ℤ) < 0 := by omega
  simp only [sub, if_neg hfirst, if_neg (not_lt.mpr hlow), List.length_drop, List.length_take]
  omega

theorem length_parseFrameBody (L : Lua) (header : Header) :
    (L.parseFrameBody bytes header pos).length =
      (sub bytes pos (L.number (L.number (pos + header.length) - 1))).length := by
  unfold Lua.parseFrameBody
  split
  · exact List.length_mapIdx
  · rfl

/-- The numbers that come up in parsing a frame are what they are meant to be. -/
structure Lua.Reads (L : Lua) (pos n : ℕ) : Prop where
  length : L.reading n = n
  total : L.number (pos + n) = pos + n
  last : L.number (L.number ((pos + 1 : ℕ) + n) - 1) = pos + n

theorem exact_reads (unpack : Bool) (pos n : ℕ) : Lua.Reads ⟨.exact, unpack⟩ pos n where
  length := rfl
  total := rfl
  last := by
    simp only [Lua.number]
    push_cast
    ring

theorem parseFrame_of_reads (h : announced bytes = some (pos, n)) (hreads : L.Reads pos n) :
    L.parseFrame bytes = (Lua.mk .exact L.unpack).parseFrame bytes := by
  obtain ⟨header, hheader⟩ := parseFrameHeader_of_some h
  have hexact := exact_reads L.unpack pos n
  have hbody : L.parseFrameBody bytes { header with length := n } (pos + 1) =
      (Lua.mk .exact L.unpack).parseFrameBody bytes { header with length := n } (pos + 1) := by
    simp only [Lua.parseFrameBody, hreads.last, hexact.last]
  rw [Lua.parseFrame, Lua.parseFrame, hheader, hheader]
  simp only [hreads.length, hreads.total, hexact.length, hexact.total, hbody]

theorem parseFrame_of_short (h : announced bytes = some (pos, n))
    (hshort : (bytes.length : ℤ) < L.number (pos + L.reading n)) : L.parseFrame bytes = none := by
  obtain ⟨header, hheader⟩ := parseFrameHeader_of_some h
  rw [Lua.parseFrame, hheader]
  exact if_pos hshort

theorem wrap_wrap_sub (n : ℤ) : wrap (wrap (n + 1) - 1) = wrap n := by
  rw [wrap, wrap, wrap, Int.bmod_sub_bmod, add_sub_cancel_right]

theorem double_of_le {n : ℤ} (hlow : -2 ^ 53 < n) (hhigh : n ≤ 2 ^ 53) : double n = n := by
  rcases hhigh.lt_or_eq with hlt | rfl
  · exact double_of_lt hlow hlt
  · decide +kernel

/-- Doubles either are exact or tell that there is more to come. -/
theorem double_reads_or_waits {v : ℤ} (hpos : 2 ≤ pos) (hle : pos ≤ bytes.length)
    (hheld : bytes.length < 2 ^ 53) (hv : 0 ≤ v) :
    double v = v ∧ double (pos + v) = pos + v ∧ double (double ((pos + 1 : ℕ) + v) - 1) = pos + v ∨
      (bytes.length : ℤ) < double (pos + double v) ∧ (bytes.length : ℤ) < pos + v := by
  by_cases hsmall : pos + v < 2 ^ 53
  · refine .inl ⟨double_of_lt (by omega) (by omega), double_of_lt (by omega) hsmall, ?_⟩
    have hnext : double ((pos + 1 : ℕ) + v) = (pos + 1 : ℕ) + v :=
      double_of_le (by omega) (by push_cast; omega)
    rw [hnext, show ((pos + 1 : ℕ) : ℤ) + v - 1 = pos + v by push_cast; ring]
    exact double_of_lt (by omega) hsmall
  · refine .inr ⟨?_, by omega⟩
    have hlarge : 2 ^ 53 ≤ pos + double v := by
      by_cases hfits : v < 2 ^ 53
      · rw [double_of_lt (by omega) hfits]
        omega
      · have := le_double (not_lt.mp hfits)
        omega
    have := le_double hlarge
    omega

theorem number_of_held (hheld : L.Holds bytes) {n : ℤ} (hlow : 0 ≤ n) (hhigh : n ≤ bytes.length) :
    L.number (n + 1) = n + 1 := by
  obtain ⟨format, unpack⟩ := L
  cases format with
  | exact => rfl
  | integers =>
    have hheld : bytes.length + 1 < 2 ^ 63 := hheld
    exact wrap_of_lt (by omega) (by omega)
  | doubles =>
    have hheld : bytes.length < 2 ^ 53 := hheld
    exact double_of_le (by omega) (by omega)
  | signed =>
    have hheld : bytes.length < 2 ^ 53 := hheld
    exact double_of_le (by omega) (by omega)

theorem reads_or_waits (hheld : L.Holds bytes) (hread : ¬ L.Misreads bytes)
    (h : announced bytes = some (pos, n)) :
    L.Reads pos n ∨ (bytes.length : ℤ) < L.number (pos + L.reading n) ∧ bytes.length < pos + n := by
  obtain ⟨hlow, hhigh, hle, hbound⟩ := announced_bounds h
  obtain ⟨format, unpack⟩ := L
  cases format with
  | exact => exact .inl (exact_reads unpack pos n)
  | integers =>
    have hsmall : pos + n < 2 ^ 63 := not_le.mp fun hlarge =>
      hread (misreads_integers.mpr ⟨pos, n, h, hlarge⟩)
    have htotal : wrap (pos + n) = pos + n := wrap_of_lt (by omega) (by omega)
    refine .inl ⟨wrap_of_lt (by omega) (by omega), htotal, ?_⟩
    simp only [Lua.number]
    push_cast
    rw [show (pos : ℤ) + 1 + n = (pos + n) + 1 by ring, wrap_wrap_sub, htotal]
  | doubles =>
    have hheld : bytes.length < 2 ^ 53 := hheld
    rcases double_reads_or_waits hlow hle hheld (Int.natCast_nonneg n) with ⟨hv, ht, hl⟩ | ⟨hw, hn⟩
    · exact .inl ⟨hv, ht, hl⟩
    · exact .inr ⟨hw, by omega⟩
  | signed =>
    have hheld : bytes.length < 2 ^ 53 := hheld
    have hsmall : n < 2 ^ 63 := not_le.mp fun hlarge =>
      hread (misreads_signed.mpr ⟨pos, n, h, .inl hlarge⟩)
    have hhi : signedHalf (n / 2 ^ 32) = (n / 2 ^ 32 : ℕ) := by
      rw [signedHalf_eq (by omega), if_pos (by omega)]
    have hlo := signedHalf_eq (show n % 2 ^ 32 < 2 ^ 32 from Nat.mod_lt _ (by norm_num))
    by_cases hhalf : n % 2 ^ 32 < 2 ^ 31
    · have hreading : Lua.reading ⟨.signed, unpack⟩ n = double n := by
        have hsum : ((n / 2 ^ 32 : ℕ) : ℤ) * 2 ^ 32 + (n % 2 ^ 32 : ℕ) = n := by omega
        simp only [Lua.reading, hhi, hlo, if_pos hhalf, hsum]
      rcases double_reads_or_waits hlow hle hheld (Int.natCast_nonneg n) with ⟨hv, ht, hl⟩ | ⟨hw, hn⟩
      · exact .inl ⟨hreading.trans hv, ht, hl⟩
      · refine .inr ⟨?_, by omega⟩
        rw [hreading]
        exact hw
    · have hmore : bytes.length + 2 ^ 32 < pos + n := not_le.mp fun hfits =>
        hread (misreads_signed.mpr ⟨pos, n, h, .inr ⟨not_lt.mp hhalf, hfits⟩⟩)
      have hreading : Lua.reading ⟨.signed, unpack⟩ n = double (n - 2 ^ 32) := by
        have hsum : ((n / 2 ^ 32 : ℕ) : ℤ) * 2 ^ 32 + ((n % 2 ^ 32 : ℕ) - 2 ^ 32) = n - 2 ^ 32 := by
          omega
        simp only [Lua.reading, hhi, hlo, if_neg hhalf, hsum]
      refine .inr ⟨?_, by omega⟩
      rw [hreading]
      have hv : (0 : ℤ) ≤ n - 2 ^ 32 := by omega
      rcases double_reads_or_waits hlow hle hheld hv with ⟨hv, ht, -⟩ | ⟨hw, -⟩
      · simp only [Lua.number, hv, ht]
        omega
      · exact hw

/-- Where lengths are not misread, frames are parsed as they are with numbers without limits. -/
theorem parseFrame_eq_exact (hheld : L.Holds bytes) (hread : ¬ L.Misreads bytes) :
    L.parseFrame bytes = (Lua.mk .exact L.unpack).parseFrame bytes := by
  cases h : announced bytes with
  | none => rw [parseFrame_of_none h, parseFrame_of_none h]
  | some a =>
    obtain ⟨pos, n⟩ := a
    rcases reads_or_waits hheld hread h with hreads | ⟨hshort, hfew⟩
    · exact parseFrame_of_reads h hreads
    · rw [parseFrame_of_short h hshort, parseFrame_of_short h]
      simp only [Lua.number, Lua.reading]
      omega

theorem exact_sound (unpack : Bool) (bytes : Bytes) : Lua.Sound ⟨.exact, unpack⟩ bytes := by
  intro frame total hparse
  cases h : announced bytes with
  | none =>
    rw [parseFrame_of_none h] at hparse
    cases hparse
  | some a =>
    obtain ⟨pos, n⟩ := a
    obtain ⟨header, hheader⟩ := parseFrameHeader_of_some h
    obtain ⟨hlow, -, hle, -⟩ := announced_bounds h
    have hexact := exact_reads unpack pos n
    rw [Lua.parseFrame, hheader] at hparse
    simp only [hexact.length, hexact.total] at hparse
    split at hparse
    · cases hparse
    · rename_i hfits
      obtain ⟨rfl, rfl⟩ := Prod.mk.inj (Option.some.inj hparse)
      refine ⟨by omega, by omega, pos, ?_⟩
      simp only [length_parseFrameBody]
      rw [hexact.last, length_sub (by omega) (by omega)]
      congr 3
      omega

/-- A length that is misread makes the parser go back, or take data of another length. -/
theorem not_sound_of_reading (h : announced bytes = some (pos, n)) {v : ℤ} (hv : v.toNat ≠ n)
    (hret : L.number (pos + L.reading n) ≤ bytes.length)
    (hgo : L.number (pos + L.reading n) < 2 ∨ L.number (pos + L.reading n) = pos + v ∧
      L.number (L.number ((pos + 1 : ℕ) + L.reading n) - 1) = pos + v) : ¬ L.Sound bytes := by
  intro hsound
  obtain ⟨header, hheader⟩ := parseFrameHeader_of_some h
  have hparse := hsound { header with
      length := L.reading n
      data := L.parseFrameBody bytes { header with length := L.reading n } (pos + 1) }
    (L.number (pos + L.reading n)) (by
      rw [Lua.parseFrame, hheader]
      exact if_neg (not_lt.mpr hret))
  obtain ⟨hlow, hhigh, pos', hlength⟩ := hparse
  rcases hgo with hback | ⟨htotal, hlast⟩
  · omega
  · rw [htotal] at hlow hhigh
    rw [h] at hlength
    have hdata := (Prod.mk.inj (Option.some.inj hlength)).2
    simp only [length_parseFrameBody] at hdata
    rw [hlast, length_sub (by omega) (by omega)] at hdata
    omega

theorem not_sound_of_misreads (hheld : L.Holds bytes) (hread : L.Misreads bytes) :
    ¬ L.Sound bytes := by
  obtain ⟨pos, n, h, hlarge⟩ := hread
  obtain ⟨hlow, hhigh, hle, hbound⟩ := announced_bounds h
  obtain ⟨format, unpack⟩ := L
  cases format with
  | exact => exact hlarge.elim
  | doubles => exact hlarge.elim
  | integers =>
    simp only at hlarge
    by_cases hsmall : n < 2 ^ 63
    · have hreading : Lua.reading ⟨.integers, unpack⟩ n = n := wrap_of_lt (by omega) (by omega)
      have htotal : Lua.number ⟨.integers, unpack⟩ (pos + n) = pos + n - 2 ^ 64 :=
        wrap_of_ge (by omega) (by omega)
      refine not_sound_of_reading h (v := -1) (by omega) ?_ (.inl ?_) <;>
        rw [hreading, htotal] <;> omega
    · have hreading : Lua.reading ⟨.integers, unpack⟩ n = n - 2 ^ 64 :=
        wrap_of_ge (by omega) (by omega)
      have htotal : Lua.number ⟨.integers, unpack⟩ (pos + (n - 2 ^ 64)) = pos + (n - 2 ^ 64) :=
        wrap_of_lt (by omega) (by omega)
      refine not_sound_of_reading h (v := n - 2 ^ 64) (by omega) ?_ (.inr ⟨?_, ?_⟩)
      · rw [hreading, htotal]
        omega
      · rw [hreading, htotal]
      · rw [hreading]
        have hnext : Lua.number ⟨.integers, unpack⟩ ((pos + 1 : ℕ) + (n - 2 ^ 64)) =
            (pos + 1 : ℕ) + (n - 2 ^ 64) := wrap_of_lt (by omega) (by omega)
        rw [hnext, show ((pos + 1 : ℕ) : ℤ) + (n - 2 ^ 64) - 1 = pos + (n - 2 ^ 64) by
          push_cast; ring, htotal]
  | signed =>
    have hheld : bytes.length < 2 ^ 53 := hheld
    simp only at hlarge
    have hhi := signedHalf_eq (show n / 2 ^ 32 < 2 ^ 32 by omega)
    have hlo := signedHalf_eq (show n % 2 ^ 32 < 2 ^ 32 from Nat.mod_lt _ (by norm_num))
    obtain ⟨v, hv, hother, hfits, hless⟩ : ∃ v : ℤ, Lua.reading ⟨.signed, unpack⟩ n = double v ∧
        v.toNat ≠ n ∧ pos + v ≤ bytes.length ∧ v < 2 ^ 53 := by
      refine ⟨_, rfl, ?_⟩
      rw [hhi, hlo]
      split_ifs <;> omega
    by_cases hsmall : -2 ^ 53 < v
    · have hreading : Lua.reading ⟨.signed, unpack⟩ n = v := hv.trans (double_of_lt hsmall hless)
      have htotal : Lua.number ⟨.signed, unpack⟩ (pos + v) = pos + v :=
        double_of_lt (by omega) (by omega)
      have hnext : Lua.number ⟨.signed, unpack⟩ ((pos + 1 : ℕ) + v) = (pos + 1 : ℕ) + v :=
        double_of_le (by omega) (by push_cast; omega)
      refine not_sound_of_reading h hother ?_ (.inr ⟨?_, ?_⟩)
      · rw [hreading, htotal]
        exact hfits
      · rw [hreading, htotal]
      · rw [hreading, hnext, show ((pos + 1 : ℕ) : ℤ) + v - 1 = pos + v by push_cast; ring, htotal]
    · have hneg : Lua.number ⟨.signed, unpack⟩ (pos + Lua.reading ⟨.signed, unpack⟩ n) < 2 := by
        have := double_le (not_lt.mp hsmall)
        rw [hv]
        by_cases hnear : -2 ^ 53 < pos + double v
        · have := double_of_lt hnear (by omega)
          simp only [Lua.number]
          omega
        · have := double_le (not_lt.mp hnear)
          simp only [Lua.number]
          omega
      have hfew : (2 : ℤ) ≤ bytes.length := by exact_mod_cast hlow.trans hle
      exact not_sound_of_reading h hother (hneg.le.trans hfew) (.inl hneg)

/-- The parser makes progress just where it does not misread the length. -/
theorem sound_iff (hheld : L.Holds bytes) : L.Sound bytes ↔ ¬ L.Misreads bytes := by
  constructor
  · exact fun hsound hread => not_sound_of_misreads hheld hread hsound
  · intro hread frame n hparse
    rw [parseFrame_eq_exact hheld hread] at hparse
    exact exact_sound L.unpack bytes frame n hparse

end Prosody.Websocket
