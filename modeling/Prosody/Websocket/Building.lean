import Prosody.Websocket.Wire

/-! # Building frames of websockets (`net/websocket/frames.lua`) -/

namespace Prosody.Websocket

open Numbers

/-! ## Platforms -/

/-- What a bit library makes of `n / 2 ^ 32`, which it may round either way. -/
structure Rounding where
  high : ℕ → ℕ
  near : ∀ n, high n = n / 2 ^ 32 ∨ high n = n / 2 ^ 32 + 1

inductive Packing
  /-- `string.pack`, where numbers are integers of 64 bits. -/
  | string
  | struct
  /-- None of them, and the bit library is `bit32`. -/
  | bit32 (rounding : Rounding)
  /-- None of them, and the bit library is `bit`. -/
  | bit (rounding : Rounding)

structure Platform where
  packing : Packing
  /-- Whether there is a global function `unpack`. -/
  unpack : Bool

def Platform.lua (p : Platform) : Lua where
  format :=
    match p.packing with
    | .string => .integers
    | .struct | .bit32 _ => .doubles
    | .bit _ => .signed
  unpack := p.unpack

/-! ## Building -/

/-- The bytes that mask a payload. -/
abbrev Key := { key : Bytes // key.length = 4 }

structure Desc where
  opcode : ℤ
  FIN : Bool
  RSV1 : Bool
  RSV2 : Bool
  RSV3 : Bool
  MASK : Bool
  key : Option Key
  data : Bytes

def packUint16be (x : ℕ) : Bytes := toBigEndian 2 x

def getByte (x n : ℕ) : UInt8 := UInt8.ofNat (x / 2 ^ n)

def Packing.packUint64be (P : Packing) (x : ℕ) : Bytes :=
  let packed (h : ℕ) : Bytes :=
    [getByte h 24, getByte h 16, getByte h 8, getByte h 0,
      getByte x 24, getByte x 16, getByte x 8, getByte x 0]
  match P with
  | .string | .struct => toBigEndian 8 x
  | .bit32 rounding | .bit rounding => packed (rounding.high x)

/-- The frame of a description, with the bytes that `random_bytes` returns, unless it raises. -/
def Platform.buildFrame (p : Platform) (random : Key) (desc : Desc) : Option Bytes :=
  if desc.opcode < 0 ∨ 0xF < desc.opcode then none
  else if 0x8 ≤ desc.opcode ∧ 125 < desc.data.length then none
  else
    let b1 := UInt8.ofNat desc.opcode.toNat ||| (if desc.FIN then 0x80 else 0) |||
      (if desc.RSV1 then 0x40 else 0) ||| (if desc.RSV2 then 0x20 else 0) |||
      (if desc.RSV3 then 0x10 else 0)
    let size := desc.data.length
    let b2 : UInt8 := if size ≤ 125 then UInt8.ofNat size else if size ≤ 0xFFFF then 126 else 127
    let lengthExtra :=
      if size ≤ 125 then []
      else if size ≤ 0xFFFF then packUint16be size
      else p.packing.packUint64be size
    let masked (key : Key) : Bytes :=
      [b1, b2 ||| 0x80] ++ lengthExtra ++ key.val ++ applyMask desc.data key.val 1 size
    if desc.MASK then
      match desc.key with
      | some key => if p.unpack then some (masked key) else none
      | none => some (masked random)
    else some ([b1, b2] ++ lengthExtra ++ desc.data)

/-- The assertions hold. -/
structure Desc.Accepted (desc : Desc) : Prop where
  opcode : 0 ≤ desc.opcode ∧ desc.opcode ≤ 0xF
  control : 0x8 ≤ desc.opcode → desc.data.length ≤ 125

/-- What is built is parsed to what was described, together with whatever follows, and nothing is
parsed before all of it is there. -/
def Platform.RoundTrips (p : Platform) (random : Key) (desc : Desc) : Prop :=
  ∃ bytes, p.buildFrame random desc = some bytes ∧
    (∀ t, ∃ frame, p.lua.parseFrame (bytes ++ t) = some (frame, (bytes.length : ℤ)) ∧
      (frame.opcode.toNat : ℤ) = desc.opcode ∧ frame.FIN = desc.FIN ∧ frame.RSV1 = desc.RSV1 ∧
      frame.RSV2 = desc.RSV2 ∧ frame.RSV3 = desc.RSV3 ∧ frame.MASK = desc.MASK ∧
      frame.data = desc.data) ∧
    ∀ b, b <+: bytes → b.length < bytes.length → p.lua.parseFrame b = none

/-! ## When frames survive -/

/-- The upper half that is written for a long payload is the one to which the lower half is added
when it is read. -/
def Platform.Rereads (p : Platform) (n : ℕ) : Prop :=
  match p.packing with
  | .string | .struct => True
  | .bit32 rounding => 0xFFFF < n → rounding.high n = n / 2 ^ 32
  | .bit rounding =>
    0xFFFF < n → rounding.high n = n / 2 ^ 32 + if 2 ^ 31 ≤ n % 2 ^ 32 then 1 else 0

/-- The numbers that come up for a frame of this length are exact. -/
def Platform.Counts (p : Platform) (total : ℤ) : Prop :=
  p.lua.number total = total ∧ p.lua.number (p.lua.number (total + 1) - 1) = total

def Desc.headerSize (desc : Desc) : ℕ :=
  2 + (if desc.data.length ≤ 125 then 0 else if desc.data.length ≤ 0xFFFF then 2 else 8) +
    if desc.MASK then 4 else 0

/-- The number that is written for the length of a payload. -/
def Packing.written (P : Packing) (n : ℕ) : ℕ :=
  match P with
  | .string | .struct => n
  | .bit32 rounding | .bit rounding =>
    if n ≤ 0xFFFF then n else rounding.high n * 2 ^ 32 + n % 2 ^ 32

namespace Desc

def usedKey (desc : Desc) (random : Key) : Option Key :=
  if desc.MASK then some (desc.key.getD random) else none

instance neZero_sixteen : NeZero 16 := ⟨by decide⟩

/-- A frame with the header that is built, whatever its payload. -/
def wire (desc : Desc) (random : Key) (written : ℕ) : Wire where
  FIN := desc.FIN
  RSV1 := desc.RSV1
  RSV2 := desc.RSV2
  RSV3 := desc.RSV3
  opcode := Fin.ofNat 16 desc.opcode.toNat
  form :=
    if desc.data.length ≤ 125 then .inHeader
    else if desc.data.length ≤ 0xFFFF then .twoBytes
    else .eightBytes
  key := (desc.usedKey random).map Subtype.val
  payload := List.replicate written 0

def body (desc : Desc) (random : Key) : Bytes :=
  (desc.usedKey random).elim desc.data fun key =>
    desc.data.mapIdx fun i b => key.val.getD (i % key.val.length) 0 ^^^ b

variable {desc : Desc} {random : Key}

theorem length_body (desc : Desc) (random : Key) :
    (desc.body random).length = desc.data.length := by
  unfold body
  cases desc.usedKey random with
  | none => rfl
  | some key => exact List.length_mapIdx

theorem isSome_usedKey (desc : Desc) (random : Key) :
    (desc.usedKey random).isSome = desc.MASK := by
  unfold usedKey
  cases desc.MASK <;> rfl

theorem lengthSize_wire (desc : Desc) (random : Key) (written : ℕ) :
    (desc.wire random written).lengthSize =
      if desc.data.length ≤ 125 then 0 else if desc.data.length ≤ 0xFFFF then 2 else 8 := by
  unfold wire Wire.lengthSize
  split_ifs <;> rfl

theorem length_header (desc : Desc) (random : Key) (written : ℕ) :
    (desc.wire random written).header.length = desc.headerSize := by
  have hsize := lengthSize_wire desc random written
  have hkey : ((desc.wire random written).key.getD []).length = if desc.MASK then 4 else 0 := by
    unfold wire usedKey
    cases desc.MASK with
    | false => rfl
    | true => exact (desc.key.getD random).property
  rw [Wire.header, List.length_cons, List.length_cons, List.length_append, length_toBigEndian,
    hsize, hkey, headerSize]
  omega

end Desc

theorem Packing.written_of_le {n : ℕ} (P : Packing) (h : n ≤ 0xFFFF) : P.written n = n := by
  unfold Packing.written
  split <;> simp [h]

def Packing.half (P : Packing) (n : ℕ) : ℕ :=
  match P with
  | .string | .struct => n / 2 ^ 32
  | .bit32 rounding | .bit rounding => rounding.high n

theorem Packing.half_near (P : Packing) (n : ℕ) :
    P.half n = n / 2 ^ 32 ∨ P.half n = n / 2 ^ 32 + 1 := by
  cases P with
  | string => exact .inl rfl
  | struct => exact .inl rfl
  | bit32 rounding => exact rounding.near n
  | bit rounding => exact rounding.near n

theorem Packing.written_eq (P : Packing) {n : ℕ} (h : 0xFFFF < n) :
    P.written n = P.half n * 2 ^ 32 + n % 2 ^ 32 := by
  unfold Packing.written Packing.half
  split
  · omega
  · omega
  · rw [if_neg (by omega)]
  · rw [if_neg (by omega)]

theorem packUint64be_eq (P : Packing) {n : ℕ} (h : 0xFFFF < n) :
    P.packUint64be n = toBigEndian 8 (P.written n) := by
  have hbyte : ∀ a b : ℕ, a % 256 = b % 256 → UInt8.ofNat a = UInt8.ofNat b := by
    intro a b hab
    apply UInt8.toNat.inj
    rw [UInt8.toNat_ofNat', UInt8.toNat_ofNat']
    exact hab
  have hpacked : ∀ hi : ℕ,
      [getByte hi 24, getByte hi 16, getByte hi 8, getByte hi 0,
        getByte n 24, getByte n 16, getByte n 8, getByte n 0] =
      toBigEndian 8 (hi * 2 ^ 32 + n % 2 ^ 32) := by
    intro hi
    simp only [toBigEndian, List.nil_append, List.cons_append, getByte, List.cons.injEq, and_true]
    exact ⟨hbyte _ _ (by omega), hbyte _ _ (by omega), hbyte _ _ (by omega), hbyte _ _ (by omega),
      hbyte _ _ (by omega), hbyte _ _ (by omega), hbyte _ _ (by omega), hbyte _ _ (by omega)⟩
  have hwritten := P.written_eq h
  cases P with
  | string => rfl
  | struct => rfl
  | bit32 rounding =>
    rw [hwritten]
    exact hpacked _
  | bit rounding =>
    rw [hwritten]
    exact hpacked _

theorem written_lt (P : Packing) {n : ℕ} (h : n < 2 ^ 53) : P.written n < 256 ^ 8 := by
  by_cases hsmall : n ≤ 0xFFFF
  · rw [P.written_of_le hsmall]
    omega
  · have := P.half_near n
    rw [P.written_eq (by omega)]
    omega

section

variable {p : Platform} {random : Key} {desc : Desc} {n : ℕ}

theorem Desc.wire_valid (hlen : desc.data.length < 2 ^ 53) :
    (desc.wire random (p.packing.written desc.data.length)).Valid where
  length := by
    unfold Desc.wire
    simp only [List.length_replicate]
    split_ifs with hshort hmid
    · simp only
      rw [p.packing.written_of_le (by omega)]
      exact hshort
    · simp only
      rw [p.packing.written_of_le hmid]
      omega
    · exact written_lt p.packing hlen
  key := by
    intro key hkey
    obtain ⟨k, -, rfl⟩ := Option.mem_map.mp hkey
    exact k.property

/-- What `build_frame` puts in front of the payload. -/
theorem wire_header (hacc : desc.Accepted) :
    (desc.wire random (p.packing.written desc.data.length)).header =
      (UInt8.ofNat desc.opcode.toNat ||| (if desc.FIN then 0x80 else 0) |||
        (if desc.RSV1 then 0x40 else 0) ||| (if desc.RSV2 then 0x20 else 0) |||
        (if desc.RSV3 then 0x10 else 0)) ::
      ((if desc.data.length ≤ 125 then UInt8.ofNat desc.data.length
        else if desc.data.length ≤ 0xFFFF then 126 else 127) ||| if desc.MASK then 0x80 else 0) ::
      ((if desc.data.length ≤ 125 then []
        else if desc.data.length ≤ 0xFFFF then packUint16be desc.data.length
        else p.packing.packUint64be desc.data.length) ++
        ((desc.usedKey random).map Subtype.val).getD []) := by
  have hopcode : ((Fin.ofNat 16 desc.opcode.toNat : Fin 16) : ℕ) = desc.opcode.toNat := by
    have := hacc.opcode
    exact Nat.mod_eq_of_lt (by omega)
  have hmasked :
      (desc.wire random (p.packing.written desc.data.length)).key.isSome = desc.MASK := by
    rw [← Desc.isSome_usedKey desc random]
    exact Option.isSome_map
  have hcode : UInt8.ofNat (desc.wire random (p.packing.written desc.data.length)).lengthCode =
      if desc.data.length ≤ 125 then UInt8.ofNat desc.data.length
      else if desc.data.length ≤ 0xFFFF then 126 else 127 := by
    unfold Desc.wire Wire.lengthCode
    split_ifs with hshort hmid
    · simp only [List.length_replicate]
      rw [p.packing.written_of_le (by omega)]
    · rfl
    · rfl
  have hextra : toBigEndian (desc.wire random (p.packing.written desc.data.length)).lengthSize
      (p.packing.written desc.data.length) =
      if desc.data.length ≤ 125 then []
      else if desc.data.length ≤ 0xFFFF then packUint16be desc.data.length
      else p.packing.packUint64be desc.data.length := by
    rw [Desc.lengthSize_wire]
    split_ifs with hshort hmid
    · rfl
    · rw [p.packing.written_of_le hmid]
      rfl
    · rw [packUint64be_eq p.packing (by omega)]
  rw [Wire.header, Wire.byte1, Wire.byte2, hmasked, hcode]
  simp only [Desc.wire, List.length_replicate] at hextra ⊢
  rw [hextra, hopcode]
  rfl

theorem applyMask_all (data key : Bytes) :
    applyMask data key 1 data.length =
      data.mapIdx fun i b => key.getD (i % key.length) 0 ^^^ b := by
  have hlow : ¬ (data.length : ℤ) < 0 := by omega
  unfold applyMask sub
  simp [hlow]

theorem buildFrame_eq (hacc : desc.Accepted)
    (hunpack : desc.MASK → desc.key.isSome → p.unpack) :
    p.buildFrame random desc =
      some ((desc.wire random (p.packing.written desc.data.length)).header ++
        desc.body random) := by
  have hop := hacc.opcode
  have hassert : ¬ (desc.opcode < 0 ∨ 0xF < desc.opcode) := by omega
  have hcontrol : ¬ (0x8 ≤ desc.opcode ∧ 125 < desc.data.length) := by
    have := hacc.control
    omega
  rw [wire_header hacc]
  unfold Platform.buildFrame
  rw [if_neg hassert, if_neg hcontrol]
  cases hmask : desc.MASK with
  | false => simp [Desc.usedKey, Desc.body, hmask]
  | true =>
    cases hkey : desc.key with
    | none =>
      simp only [Desc.usedKey, Desc.body, hmask, hkey, applyMask_all]
      simp
    | some key =>
      rw [hkey] at hunpack
      simp only [Desc.usedKey, Desc.body, hmask, hkey, applyMask_all, hunpack hmask rfl]
      simp

/-! ## Parsing what was built -/

theorem parseFrameHeader_wire {f : Wire} (hv : f.Valid) (L : Lua) (c : Bytes) :
    L.parseFrameHeader (f.header ++ c) =
      some ({ f.frame.toHeader with length := L.reading f.payload.length }, f.header.length) := by
  obtain ⟨header, hheader⟩ := parseFrameHeader_of_some (hv.announced c)
  have hexact := (hheader ⟨.exact, true⟩).symm.trans (hv.parseFrameHeader true c)
  rw [hheader L]
  obtain ⟨hfields, -⟩ := Prod.mk.inj (Option.some.inj hexact)
  rw [← hfields]

theorem sub_body {f : Wire} {body t : Bytes} {last : ℤ} (hlow : 0 ≤ last) :
    sub (f.header ++ body ++ t) (f.header.length + 1 : ℕ) last =
      (body ++ t).take (last.toNat - f.header.length) := by
  have hfirst : ¬ ((f.header.length + 1 : ℕ) : ℤ) < 0 := by omega
  simp only [sub, if_neg hfirst, if_neg (not_lt.mpr hlow), Int.toNat_natCast, Nat.add_sub_cancel]
  rw [List.append_assoc, List.drop_take, List.drop_left]

theorem unmasked_body (desc : Desc) (random : Key) :
    ((desc.usedKey random).elim (desc.body random) fun key =>
      (desc.body random).mapIdx fun i b => key.val.getD (i % key.val.length) 0 ^^^ b) =
      desc.data := by
  unfold Desc.body
  cases desc.usedKey random with
  | none => rfl
  | some key =>
    refine List.ext_getElem (by simp) fun i hi hi' => ?_
    simp only [Option.elim_some, List.getElem_mapIdx]
    rw [← UInt8.xor_assoc, UInt8.xor_self, UInt8.zero_xor]

theorem parseFrame_built (hlen : desc.data.length < 2 ^ 53) (t : Bytes) :
    let wire := desc.wire random (p.packing.written desc.data.length)
    let length := p.lua.reading (p.packing.written desc.data.length)
    p.lua.parseFrame (wire.header ++ desc.body random ++ t) =
      if ((desc.headerSize + desc.data.length + t.length : ℕ) : ℤ) <
          p.lua.number (desc.headerSize + length) then none
      else
        some ({ wire.frame.toHeader with
            length := length
            data := p.lua.parseFrameBody (wire.header ++ desc.body random ++ t)
              { wire.frame.toHeader with length := length } (desc.headerSize + 1) },
          p.lua.number (desc.headerSize + length)) := by
  intro wire length
  have hheader := parseFrameHeader_wire (@Desc.wire_valid p random _ hlen) p.lua
    (desc.body random ++ t)
  rw [← List.append_assoc] at hheader
  have hpayload : (desc.wire random (p.packing.written desc.data.length)).payload.length =
      p.packing.written desc.data.length := List.length_replicate
  rw [Desc.length_header, hpayload] at hheader
  have hsize : (wire.header ++ desc.body random ++ t).length =
      desc.headerSize + desc.data.length + t.length := by
    rw [List.length_append, List.length_append, Desc.length_body, Desc.length_header]
  rw [Lua.parseFrame, hheader, hsize]

/-- Nothing is parsed of less than what was built if the length is read as it is. -/
theorem parseFrame_built_short (hlen : desc.data.length < 2 ^ 53)
    (hreading : p.lua.reading (p.packing.written desc.data.length) = desc.data.length)
    (htotal : p.lua.number (desc.headerSize + desc.data.length) =
      desc.headerSize + desc.data.length) {b : Bytes}
    (hb : b <+: (desc.wire random (p.packing.written desc.data.length)).header ++ desc.body random)
    (hshort : b.length < desc.headerSize + desc.data.length) : p.lua.parseFrame b = none := by
  have hv := @Desc.wire_valid p random _ hlen
  have hpos := Desc.length_header desc random (p.packing.written desc.data.length)
  by_cases hheader : b.length < desc.headerSize
  · refine parseFrame_of_none (hv.announced_short ?_ (hpos ▸ hheader))
    exact (List.prefix_of_prefix_length_le hb (List.prefix_append _ _)
      (by omega)).trans (List.prefix_append _ _)
  · have hpre := List.prefix_of_prefix_length_le (List.prefix_append _ (desc.body random)) hb
      (by omega)
    obtain ⟨c, rfl⟩ := hpre
    have hpayload : (desc.wire random (p.packing.written desc.data.length)).payload.length =
        p.packing.written desc.data.length := List.length_replicate
    refine parseFrame_of_short (hv.announced c) ?_
    rw [hpayload, hreading, hpos, htotal]
    exact_mod_cast hshort

/-! ## The length -/

theorem counts_of_lt {total : ℕ} (h : total < 2 ^ 53) : p.Counts total := by
  obtain ⟨packing, unpack⟩ := p
  cases packing with
  | string =>
    exact ⟨wrap_of_lt (by omega) (by omega), by
      simp only [Platform.lua, Lua.number]
      rw [wrap_wrap_sub]
      exact wrap_of_lt (by omega) (by omega)⟩
  | _ =>
    have hexact : double total = total := double_of_lt (by omega) (by omega)
    have hnext : double (total + 1) = total + 1 := double_of_le (by omega) (by omega)
    refine ⟨hexact, ?_⟩
    simp only [Platform.lua, Lua.number]
    rw [hnext, add_sub_cancel_right, hexact]

/-- By how much the length that is read is off. -/
theorem reading_written (hlen : n < 2 ^ 53) :
    ∃ off : ℤ, p.lua.reading (p.packing.written n) = p.lua.number (n + off) ∧
      (off = 0 ∨ off = 2 ^ 32 ∨ off = -2 ^ 32) ∧ (off = 0 ↔ p.Rereads n) := by
  by_cases hsmall : n ≤ 0xFFFF
  · refine ⟨0, ?_, .inl rfl, iff_of_true rfl ?_⟩
    · rw [p.packing.written_of_le hsmall, reading_of_lt (by omega), add_zero]
      exact (counts_of_lt hlen).1.symm
    · unfold Platform.Rereads
      split
      · trivial
      · trivial
      · omega
      · omega
  · have hlong : 0xFFFF < n := by omega
    have hwritten := p.packing.written_eq hlong
    have hnear := p.packing.half_near n
    obtain ⟨packing, unpack⟩ := p
    cases packing with
    | string => exact ⟨0, by rw [add_zero]; rfl, .inl rfl, iff_of_true rfl trivial⟩
    | struct => exact ⟨0, by rw [add_zero]; rfl, .inl rfl, iff_of_true rfl trivial⟩
    | bit32 rounding =>
      simp only [Packing.half] at hwritten hnear
      refine ⟨(rounding.high n - n / 2 ^ 32 : ℤ) * 2 ^ 32, ?_, by omega, ?_⟩
      · simp only [Platform.lua, Lua.reading, Lua.number, hwritten]
        congr 1
        push_cast
        omega
      · simp only [Platform.Rereads, hlong, forall_const]
        omega
    | bit rounding =>
      simp only [Packing.half] at hwritten hnear
      have hhigh : (rounding.high n * 2 ^ 32 + n % 2 ^ 32) / 2 ^ 32 = rounding.high n := by omega
      have hlow : (rounding.high n * 2 ^ 32 + n % 2 ^ 32) % 2 ^ 32 = n % 2 ^ 32 := by omega
      refine ⟨(rounding.high n - n / 2 ^ 32 - if 2 ^ 31 ≤ n % 2 ^ 32 then 1 else 0 : ℤ) * 2 ^ 32,
        ?_, ?_, ?_⟩
      · simp only [Platform.lua, Lua.reading, Lua.number, hwritten, hhigh, hlow]
        rw [signedHalf_eq (k := rounding.high n) (by omega), if_pos (by omega),
          signedHalf_eq (k := n % 2 ^ 32) (by omega)]
        congr 1
        split_ifs <;> omega
      · split_ifs <;> omega
      · simp only [Platform.Rereads, hlong, forall_const]
        split_ifs <;> omega

theorem number_near {k : ℤ} (hlow : -2 ^ 54 < k) (hhigh : k < 2 ^ 54) :
    p.lua.number k ≤ k + 1 ∧ k ≤ p.lua.number k + 1 := by
  obtain ⟨packing, unpack⟩ := p
  cases packing with
  | string =>
    have : wrap k = k := wrap_of_lt (by omega) (by omega)
    simp only [Platform.lua, Lua.number]
    omega
  | _ => exact double_near hlow hhigh

/-- The end of the frame is found only if the length of the payload is read as it is. -/
theorem rereads_of_total (hlen : n < 2 ^ 53) {pos : ℕ} (hpos : pos ≤ 14)
    (htotal : p.lua.number (pos + p.lua.reading (p.packing.written n)) = pos + n) :
    p.Rereads n := by
  obtain ⟨off, hreading, hoff, hiff⟩ := @reading_written p n hlen
  rw [← hiff]
  have hread := @number_near p (n + off) (by omega) (by omega)
  rw [← hreading] at hread
  have hend := @number_near p (pos + p.lua.reading (p.packing.written n)) (by omega) (by omega)
  omega

theorem reading_of_rereads (hlen : n < 2 ^ 53) (h : p.Rereads n) :
    p.lua.reading (p.packing.written n) = n := by
  obtain ⟨off, hreading, -, hiff⟩ := @reading_written p n hlen
  rw [hreading, hiff.mpr h, add_zero]
  exact (counts_of_lt hlen).1

theorem headerSize_le (desc : Desc) : desc.headerSize ≤ 14 := by
  unfold Desc.headerSize
  split_ifs <;> omega

/-! ## Frames that survive -/

theorem parseFrameBody_built {last : ℤ} (hlow : 0 ≤ last) (written : ℕ) (length : ℤ) (t : Bytes)
    (hlast : p.lua.number (p.lua.number ((desc.headerSize + 1 : ℕ) + length) - 1) = last) :
    p.lua.parseFrameBody ((desc.wire random written).header ++ desc.body random ++ t)
        { (desc.wire random written).frame.toHeader with length := length } (desc.headerSize + 1) =
      ((desc.usedKey random).elim ((desc.body random ++ t).take (last.toNat - desc.headerSize))
        fun key => ((desc.body random ++ t).take (last.toNat - desc.headerSize)).mapIdx
          fun i b => key.val.getD (i % key.val.length) 0 ^^^ b) := by
  have hsub := @sub_body (desc.wire random written) (desc.body random) t last hlow
  rw [Desc.length_header] at hsub
  have hkey : (desc.wire random written).frame.key = (desc.usedKey random).map Subtype.val := rfl
  unfold Lua.parseFrameBody
  simp only [hkey, hlast, applyMask, hsub]
  cases desc.usedKey random with
  | none => rfl
  | some key => rfl

theorem Platform.roundTrips_of_exact (hacc : desc.Accepted) (hlen : desc.data.length < 2 ^ 53)
    (hunpack : desc.MASK → desc.key.isSome → p.unpack) (hrereads : p.Rereads desc.data.length)
    (hcounts : p.Counts (desc.headerSize + desc.data.length)) : p.RoundTrips random desc := by
  have hreading := reading_of_rereads hlen hrereads
  obtain ⟨htotal, hnext⟩ := hcounts
  have hlast : p.lua.number
      (p.lua.number ((desc.headerSize + 1 : ℕ) + (desc.data.length : ℤ)) - 1) =
        (desc.headerSize + desc.data.length : ℕ) := by
    rw [show ((desc.headerSize + 1 : ℕ) + (desc.data.length : ℤ)) =
      desc.headerSize + desc.data.length + 1 by push_cast; ring, hnext]
    push_cast
    ring
  have hsize : ((desc.wire random (p.packing.written desc.data.length)).header ++
      desc.body random).length = desc.headerSize + desc.data.length := by
    rw [List.length_append, Desc.length_header, Desc.length_body]
  refine ⟨_, buildFrame_eq hacc hunpack, fun t => ?_, fun b hb hshort => ?_⟩
  · have hparse := @parseFrame_built p random desc hlen t
    simp only [hreading, htotal] at hparse
    rw [if_neg (by omega), parseFrameBody_built (by omega) _ _ t hlast, ← Nat.cast_add, ← hsize]
      at hparse
    obtain ⟨hfin, hrsv1, hrsv2, hrsv3, hopcode⟩ := Wire.byte1_bits
      (Fin.ofNat 16 desc.opcode.toNat) desc.FIN desc.RSV1 desc.RSV2 desc.RSV3
    have hop := hacc.opcode
    refine ⟨_, hparse, ?_, rfl, rfl, rfl, rfl, ?_, ?_⟩
    · show ((UInt8.ofNat ((Fin.ofNat 16 desc.opcode.toNat : Fin 16) : ℕ)).toNat : ℤ) = desc.opcode
      rw [UInt8.toNat_ofNat']
      simp only [Fin.val_ofNat]
      omega
    · exact Option.isSome_map.trans (Desc.isSome_usedKey desc random)
    · simp only [hsize, Int.toNat_natCast, Nat.add_sub_cancel_left,
        List.take_left' (Desc.length_body desc random)]
      exact unmasked_body desc random
  · rw [hsize] at hshort
    exact parseFrame_built_short hlen hreading htotal hb hshort

theorem Platform.exact_of_roundTrips (hacc : desc.Accepted) (hlen : desc.data.length < 2 ^ 53)
    (h : p.RoundTrips random desc) :
    (desc.MASK → desc.key.isSome → p.unpack) ∧ p.Rereads desc.data.length ∧
      p.Counts (desc.headerSize + desc.data.length) := by
  obtain ⟨bytes, hbuild, hparse, -⟩ := h
  have hunpack : desc.MASK → desc.key.isSome → p.unpack := by
    intro hmask hkey
    obtain ⟨key, hkey⟩ := Option.isSome_iff_exists.mp hkey
    by_contra hno
    simp [Platform.buildFrame, hmask, hkey, hno] at hbuild
  obtain rfl := Option.some.inj (hbuild.symm.trans (buildFrame_eq hacc hunpack))
  have hpos := headerSize_le desc
  have hsize : ((desc.wire random (p.packing.written desc.data.length)).header ++
      desc.body random).length = desc.headerSize + desc.data.length := by
    rw [List.length_append, Desc.length_header, Desc.length_body]
  have hend : ∀ t, p.lua.number
      (desc.headerSize + p.lua.reading (p.packing.written desc.data.length)) =
        desc.headerSize + desc.data.length ∧
      (p.lua.parseFrameBody ((desc.wire random (p.packing.written desc.data.length)).header ++
        desc.body random ++ t)
        { (desc.wire random (p.packing.written desc.data.length)).frame.toHeader with
          length := p.lua.reading (p.packing.written desc.data.length) }
        (desc.headerSize + 1)).length = desc.data.length := by
    intro t
    obtain ⟨frame, hframe, -, -, -, -, -, -, hdata⟩ := hparse t
    have hbuilt := @parseFrame_built p random desc hlen t
    dsimp only at hbuilt
    rw [hframe] at hbuilt
    split at hbuilt
    · cases hbuilt
    · obtain ⟨rfl, htotal⟩ := Prod.mk.inj (Option.some.inj hbuilt)
      rw [hsize] at htotal
      exact ⟨by rw [← htotal]; push_cast; rfl, congrArg List.length hdata⟩
  have hrereads := rereads_of_total hlen hpos (hend []).1
  have hreading := reading_of_rereads hlen hrereads
  rw [hreading] at hend
  refine ⟨hunpack, hrereads, (hend []).1, ?_⟩
  by_cases hsmall : desc.headerSize + desc.data.length < 2 ^ 53
  · exact_mod_cast (counts_of_lt hsmall).2
  · -- a payload of this size shows where its last byte is looked for
    obtain ⟨last, hlast⟩ : ∃ last, p.lua.number (p.lua.number
        ((desc.headerSize + 1 : ℕ) + (desc.data.length : ℤ)) - 1) = last := ⟨_, rfl⟩
    have hnext := @number_near p ((desc.headerSize + 1 : ℕ) + desc.data.length) (by omega)
      (by omega)
    have hback := @number_near p (p.lua.number
      ((desc.headerSize + 1 : ℕ) + (desc.data.length : ℤ)) - 1) (by omega) (by omega)
    rw [hlast] at hback
    have hdata := (hend (List.replicate last.toNat 0)).2
    rw [parseFrameBody_built (by omega) _ _ _ hlast] at hdata
    have htake : (List.take (last.toNat - desc.headerSize)
        (desc.body random ++ List.replicate last.toNat 0)).length = desc.data.length := by
      rw [← hdata]
      cases desc.usedKey random with
      | none => rfl
      | some key => exact List.length_mapIdx.symm
    rw [List.length_take, List.length_append, List.length_replicate, Desc.length_body] at htake
    rw [show (desc.headerSize : ℤ) + desc.data.length + 1 =
      (desc.headerSize + 1 : ℕ) + desc.data.length by push_cast; ring, hlast]
    omega

/-- Frames survive just where there is an `unpack` for the key, the upper half of a long length is
written as it is read, and the length of the whole frame is exact. -/
theorem Platform.roundTrips_exactly (p : Platform) (random : Key) (desc : Desc) (hacc : desc.Accepted)
    (hlen : desc.data.length < 2 ^ 53) :
    p.RoundTrips random desc ↔
      (desc.MASK → desc.key.isSome → p.unpack) ∧ p.Rereads desc.data.length ∧
        p.Counts (desc.headerSize + desc.data.length) :=
  ⟨Platform.exact_of_roundTrips hacc hlen,
    fun h => Platform.roundTrips_of_exact hacc hlen h.1 h.2.1 h.2.2⟩

end

section

def salutation (MASK : Bool) : Desc where
  opcode := 0x1
  FIN := true
  RSV1 := false
  RSV2 := false
  RSV3 := false
  MASK := MASK
  key := some ⟨[1, 2, 3, 4], rfl⟩
  data := ofString "hello"

theorem greeting_accepted (MASK : Bool) : (salutation MASK).Accepted where
  opcode := show (0 : ℤ) ≤ 0x1 ∧ (0x1 : ℤ) ≤ 0xF by decide
  control := show (0x8 : ℤ) ≤ 0x1 → _ from fun h => absurd h (by decide)

/-- The numbers of Lua 5.3 are packed by the language itself, but its `unpack` is no global. -/
theorem unmasked_greeting_roundTrips :
    Platform.RoundTrips ⟨.string, false⟩ ⟨[0, 0, 0, 0], rfl⟩ (salutation false) :=
  (Platform.roundTrips_exactly _ _ _ (greeting_accepted false) (by decide)).mpr
    ⟨fun h => absurd h (by decide), trivial, counts_of_lt (by decide)⟩

theorem masked_greeting_not_roundTrips :
    ¬ Platform.RoundTrips ⟨.string, false⟩ ⟨[0, 0, 0, 0], rfl⟩ (salutation true) := by
  rintro ⟨bytes, hbuild, -⟩
  have hraises : Platform.buildFrame ⟨.string, false⟩ ⟨[0, 0, 0, 0], rfl⟩ (salutation true) = none :=
    rfl
  rw [hraises] at hbuild
  cases hbuild

end

end Prosody.Websocket
