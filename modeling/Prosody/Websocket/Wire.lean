import Prosody.Websocket.Filter

/-! # Websocket frames as clients send them -/

namespace Prosody.Websocket

open Numbers

/-- Where the length of a payload stands. -/
inductive LengthForm
  | inHeader
  | twoBytes
  | eightBytes
deriving DecidableEq

/-- A frame, before its payload is masked. -/
structure Wire where
  FIN : Bool
  RSV1 : Bool
  RSV2 : Bool
  RSV3 : Bool
  opcode : Fin 16
  form : LengthForm
  key : Option Bytes
  payload : Bytes

namespace Wire

/-- The length fits where it stands, and keys have four bytes. -/
structure Valid (f : Wire) : Prop where
  length : match f.form with
    | .inHeader => f.payload.length ≤ 125
    | .twoBytes => f.payload.length < 256 ^ 2
    | .eightBytes => f.payload.length < 256 ^ 8
  key : ∀ key ∈ f.key, key.length = 4

def byte1 (f : Wire) : UInt8 :=
  UInt8.ofNat f.opcode ||| (if f.FIN then 0x80 else 0) ||| (if f.RSV1 then 0x40 else 0) |||
    (if f.RSV2 then 0x20 else 0) ||| (if f.RSV3 then 0x10 else 0)

def lengthCode (f : Wire) : ℕ :=
  match f.form with
  | .inHeader => f.payload.length
  | .twoBytes => 126
  | .eightBytes => 127

def byte2 (f : Wire) : UInt8 := UInt8.ofNat f.lengthCode ||| (if f.key.isSome then 0x80 else 0)

def lengthSize (f : Wire) : ℕ :=
  match f.form with
  | .inHeader => 0
  | .twoBytes => 2
  | .eightBytes => 8

def header (f : Wire) : Bytes :=
  f.byte1 :: f.byte2 :: (toBigEndian f.lengthSize f.payload.length ++ f.key.getD [])

def body (f : Wire) : Bytes :=
  f.key.elim f.payload fun key =>
    f.payload.mapIdx fun i b => key.getD (i % key.length) 0 ^^^ b

def bytes (f : Wire) : Bytes := f.header ++ f.body

def frame (f : Wire) : Frame where
  FIN := f.FIN
  RSV1 := f.RSV1
  RSV2 := f.RSV2
  RSV3 := f.RSV3
  opcode := UInt8.ofNat f.opcode
  MASK := f.key.isSome
  length := f.payload.length
  key := f.key
  data := f.payload

variable {f : Wire}

theorem byte1_bits : ∀ (opcode : Fin 16) (FIN RSV1 RSV2 RSV3 : Bool),
    let b : UInt8 := UInt8.ofNat opcode ||| (if FIN then 0x80 else 0) |||
      (if RSV1 then 0x40 else 0) ||| (if RSV2 then 0x20 else 0) ||| (if RSV3 then 0x10 else 0)
    decide (0 < b &&& 0x80) = FIN ∧ decide (0 < b &&& 0x40) = RSV1 ∧
      decide (0 < b &&& 0x20) = RSV2 ∧ decide (0 < b &&& 0x10) = RSV3 ∧
      b &&& 0x0F = UInt8.ofNat opcode := by
  decide +kernel

theorem byte2_bits : ∀ (code : Fin 128) (masked : Bool),
    let b : UInt8 := UInt8.ofNat code ||| (if masked then 0x80 else 0)
    isMasked b = masked ∧ b &&& 0x7F = UInt8.ofNat code ∧
      lengthBytes b = if code.val = 126 then 2 else if code.val = 127 then 8 else 0 := by
  decide +kernel

theorem Valid.lengthCode_lt (hv : f.Valid) : f.lengthCode < 128 := by
  have hlength := hv.length
  unfold lengthCode
  cases hform : f.form with
  | inHeader =>
    simp only [hform] at hlength ⊢
    omega
  | twoBytes => simp
  | eightBytes => simp

theorem Valid.byte2_eq (hv : f.Valid) :
    isMasked f.byte2 = f.key.isSome ∧ f.byte2 &&& 0x7F = UInt8.ofNat f.lengthCode ∧
      lengthBytes f.byte2 = f.lengthSize := by
  obtain ⟨hmask, hcode, hsize⟩ := byte2_bits ⟨f.lengthCode, hv.lengthCode_lt⟩ f.key.isSome
  refine ⟨hmask, hcode, hsize.trans ?_⟩
  have hlength := hv.length
  cases hform : f.form with
  | inHeader =>
    simp only [hform] at hlength
    simp only [lengthCode, lengthSize, hform]
    rw [if_neg (by omega), if_neg (by omega)]
  | twoBytes => simp [lengthCode, lengthSize, hform]
  | eightBytes => simp [lengthCode, lengthSize, hform]

theorem Valid.length_header (hv : f.Valid) : f.header.length = headerLength f.byte2 := by
  obtain ⟨hmask, -, hsize⟩ := hv.byte2_eq
  have hkey := hv.key
  rw [headerLength, hmask, hsize, header]
  cases hk : f.key with
  | none =>
    simp
    omega
  | some key =>
    rw [hk] at hkey
    simp [hkey key rfl]
    omega

theorem length_body (f : Wire) : f.body.length = f.payload.length := by
  unfold body
  cases f.key with
  | none => rfl
  | some key => exact List.length_mapIdx

theorem Valid.length_eq (hv : f.Valid) (c : Bytes) :
    (if lengthBytes f.byte2 = 0 then (f.byte2 &&& 0x7F).toNat
      else bigEndian (((f.header ++ c).drop 2).take (lengthBytes f.byte2))) = f.payload.length := by
  obtain ⟨-, hcode, hsize⟩ := hv.byte2_eq
  have hlength := hv.length
  have htake : ((f.header ++ c).drop 2).take f.lengthSize =
      toBigEndian f.lengthSize f.payload.length := by
    simp only [header, List.cons_append, List.drop_succ_cons, List.drop_zero, List.append_assoc]
    exact List.take_left' (length_toBigEndian _ _)
  rw [hcode, hsize, htake]
  cases hform : f.form with
  | inHeader =>
    simp only [hform] at hlength
    simp only [lengthSize, lengthCode, hform, if_true]
    rw [UInt8.toNat_ofNat', Nat.mod_eq_of_lt (by omega)]
  | twoBytes =>
    simp only [hform] at hlength
    simp only [lengthSize, hform]
    exact bigEndian_toBigEndian hlength
  | eightBytes =>
    simp only [hform] at hlength
    simp only [lengthSize, hform]
    exact bigEndian_toBigEndian hlength

theorem Valid.announced (hv : f.Valid) (c : Bytes) :
    announced (f.header ++ c) = some (f.header.length, f.payload.length) := by
  have hlength := hv.length_eq c
  have hheader := hv.length_header
  have hlong : ¬ (f.header ++ c).length < headerLength f.byte2 := by
    rw [List.length_append]
    omega
  rw [header, List.cons_append, List.cons_append] at hlength hlong ⊢
  rw [Websocket.announced, if_neg hlong, hlength, ← hheader, header]

theorem Valid.announced_short (hv : f.Valid) {b : Bytes} (hb : b <+: f.bytes)
    (hshort : b.length < f.header.length) : Websocket.announced b = none := by
  obtain ⟨t, ht⟩ := hb
  rw [hv.length_header] at hshort
  rcases b with - | ⟨b1, - | ⟨b2, b⟩⟩
  · rfl
  · rfl
  · rw [bytes, header] at ht
    simp only [List.cons_append] at ht
    obtain ⟨-, ht⟩ := List.cons.inj ht
    obtain ⟨rfl, -⟩ := List.cons.inj ht
    exact if_pos hshort

theorem Valid.key_eq (hv : f.Valid) (c : Bytes) :
    (if isMasked f.byte2 then some (((f.header ++ c).drop (lengthBytes f.byte2 + 2)).take 4)
      else none) = f.key := by
  obtain ⟨hmask, -, hsize⟩ := hv.byte2_eq
  have hkey := hv.key
  rw [hmask, hsize]
  cases hk : f.key with
  | none => rfl
  | some key =>
    rw [hk] at hkey
    simp only [header, hk, Option.getD_some, List.cons_append, List.append_assoc,
      Option.isSome_some, if_true, List.drop_succ_cons]
    rw [List.drop_left' (length_toBigEndian _ _), List.take_left' (hkey key rfl)]

theorem Valid.parseFrameHeader (hv : f.Valid) (unpack : Bool) (c : Bytes) :
    Lua.parseFrameHeader ⟨.exact, unpack⟩ (f.header ++ c) =
      some (f.frame.toHeader, f.header.length) := by
  obtain ⟨hfin, hrsv1, hrsv2, hrsv3, hopcode⟩ := byte1_bits f.opcode f.FIN f.RSV1 f.RSV2 f.RSV3
  have hlength := hv.length_eq c
  have hkey := hv.key_eq c
  have hmask := hv.byte2_eq.1
  have hheader := hv.length_header
  have hlong : ¬ (f.header ++ c).length < headerLength f.byte2 := by
    rw [List.length_append]
    omega
  have hcases : f.header ++ c =
      f.byte1 :: f.byte2 :: (toBigEndian f.lengthSize f.payload.length ++ f.key.getD [] ++ c) := rfl
  rw [hcases] at hlength hkey hlong ⊢
  rw [Lua.parseFrameHeader, if_neg hlong, hkey, hmask, ← hheader]
  congr 3
  refine Eq.trans ?_ (congrArg Nat.cast hlength)
  simp only [Lua.readUint64be, readUint16be]
  rcases lengthBytes_cases f.byte2 with hb | hb | hb <;> simp [hb]

theorem data_eq (f : Wire) (unpack : Bool) (c : Bytes) :
    Lua.parseFrameBody ⟨.exact, unpack⟩ (f.bytes ++ c) f.frame.toHeader (f.header.length + 1) =
      f.payload := by
  have hlast : Lua.number ⟨.exact, unpack⟩ (Lua.number ⟨.exact, unpack⟩
      ((f.header.length + 1 : ℕ) + f.frame.length) - 1) =
      (f.header.length + f.payload.length : ℕ) := by
    simp only [Lua.number, frame]
    push_cast
    ring
  have hsub : sub (f.bytes ++ c) (f.header.length + 1 : ℕ)
      (f.header.length + f.payload.length : ℕ) = f.body := by
    have hfirst : ¬ ((f.header.length + 1 : ℕ) : ℤ) < 0 := by omega
    have hlow : ¬ ((f.header.length + f.payload.length : ℕ) : ℤ) < 0 := by omega
    simp only [sub, if_neg hfirst, if_neg hlow, Int.toNat_natCast, Nat.add_sub_cancel]
    rw [bytes, List.append_assoc, List.take_length_add_append, List.drop_left,
      List.take_left' (length_body f)]
  unfold Lua.parseFrameBody
  rw [hlast]
  cases hk : f.key with
  | none =>
    simp only [frame, hk, hsub]
    simp [body, hk]
  | some key =>
    simp only [frame, hk, applyMask, hsub]
    simp only [body, hk, Option.elim_some]
    refine List.ext_getElem (by simp) fun i hi hi' => ?_
    simp only [List.getElem_mapIdx]
    rw [← UInt8.xor_assoc, UInt8.xor_self, UInt8.zero_xor]

theorem Valid.parseFrame (hv : f.Valid) (unpack : Bool) (c : Bytes) :
    Lua.parseFrame ⟨.exact, unpack⟩ (f.bytes ++ c) = some (f.frame, (f.bytes.length : ℤ)) := by
  have hheader := hv.parseFrameHeader unpack (f.body ++ c)
  rw [← List.append_assoc, ← bytes] at hheader
  have hlength : f.bytes.length = f.header.length + f.payload.length := by
    rw [bytes, List.length_append, length_body]
  have htotal : Lua.number ⟨.exact, unpack⟩ (f.header.length + f.frame.length) = f.bytes.length := by
    simp only [Lua.number, frame]
    omega
  rw [Lua.parseFrame, hheader]
  simp only [htotal, data_eq]
  rw [if_neg (by rw [List.length_append]; omega)]
  rfl

theorem Valid.parseFrame_short (hv : f.Valid) (unpack : Bool) {b : Bytes} (hb : b <+: f.bytes)
    (hshort : b.length < f.bytes.length) : Lua.parseFrame ⟨.exact, unpack⟩ b = none := by
  by_cases hheader : b.length < f.header.length
  · exact parseFrame_of_none (hv.announced_short hb hheader)
  · obtain ⟨t, ht⟩ := hb
    obtain ⟨c, rfl⟩ : ∃ c, b = f.header ++ c := by
      have hpre : f.header <+: b ++ t := ht ▸ List.prefix_append _ _
      obtain ⟨c, hc⟩ := List.prefix_of_prefix_length_le hpre (List.prefix_append b t) (by omega)
      exact ⟨c, hc.symm⟩
    refine parseFrame_of_short (hv.announced c) ?_
    rw [bytes, List.length_append, List.length_append, length_body] at hshort
    simp only [Lua.number, Lua.reading, List.length_append]
    omega

end Wire

end Prosody.Websocket
