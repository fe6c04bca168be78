import Mathlib.Data.List.Basic

/-! # Base64

`Lbase64_encode` and `Lbase64_decode` of `encodings.c`, on strings of bytes. -/

namespace Prosody.Base64

/-- The bytes of `code`. -/
def code : List UInt8 :=
  "ABCDEFGHIJKLMNOPQRSTUVWXYZabcdefghijklmnopqrstuvwxyz0123456789+/".toList.map fun c =>
    UInt8.ofNat c.toNat

/-- The byte `=`. -/
def pad : UInt8 := 61

/-- The bytes that decoding passes over. -/
def blank (c : UInt8) : Bool := c ∈ ([10, 13, 9, 32, 12, 8] : List UInt8)

/-- The byte of `code` at a position. -/
def sextet (v : Nat) : UInt8 := code.getD v 0

/-- `base64_encode`. -/
def encodeTuple (c1 c2 c3 : UInt8) (n : Nat) : List UInt8 :=
  let tuple := c3.toNat + 256 * (c2.toNat + 256 * c1.toNat)
  let s := [sextet (tuple / 64 / 64 / 64 % 64), sextet (tuple / 64 / 64 % 64),
    sextet (tuple / 64 % 64), sextet (tuple % 64)]
  s.take (n + 1) ++ List.replicate (3 - n) pad

def encode : List UInt8 → List UInt8
  | c1 :: c2 :: c3 :: s => encodeTuple c1 c2 c3 3 ++ encode s
  | [c1, c2] => encodeTuple c1 c2 0 2
  | [c1] => encodeTuple c1 0 0 1
  | [] => []

/-- `base64_decode`, with as many values as have been read. -/
def decodeTuple (t : List Nat) : List UInt8 :=
  let tuple := t.getD 3 0 + 64 * (t.getD 2 0 + 64 * (t.getD 1 0 + 64 * t.getD 0 0))
  let s := [UInt8.ofNat (tuple / 256 / 256), UInt8.ofNat (tuple / 256), UInt8.ofNat tuple]
  s.take (t.length - 1)

/-- The loop of the decoder, with the values that it has read since it last wrote something. -/
def decodeFrom (t : List Nat) : List UInt8 → Option (List UInt8)
  | [] => some []
  | c :: s =>
    if c = 0 then some []
    else if c = pad then (decodeFrom [] s).map (decodeTuple t ++ ·)
    else if blank c then decodeFrom t s
    else
      match code.idxOf? c with
      | none => none
      | some v =>
        if t.length = 3 then (decodeFrom [] s).map (decodeTuple (t ++ [v]) ++ ·)
        else decodeFrom (t ++ [v]) s

def decode (s : List UInt8) : Option (List UInt8) := decodeFrom [] s

/-! ## Decoding is inverse to encoding -/

theorem code_spec : ∀ v < 64, sextet v ≠ 0 ∧ sextet v ≠ pad ∧ blank (sextet v) = false ∧
    code.idxOf? (sextet v) = some v := by decide +kernel

theorem decodeFrom_sextet {t : List Nat} {v : Nat} (hv : v < 64) (s : List UInt8) :
    decodeFrom t (sextet v :: s) =
      if t.length = 3 then (decodeFrom [] s).map (decodeTuple (t ++ [v]) ++ ·)
      else decodeFrom (t ++ [v]) s := by
  obtain ⟨hzero, hpad, hblank, hcode⟩ := code_spec v hv
  rw [decodeFrom, if_neg hzero, if_neg hpad, hblank, if_neg Bool.false_ne_true, hcode]

theorem decodeFrom_pad (t : List Nat) (s : List UInt8) :
    decodeFrom t (pad :: s) = (decodeFrom [] s).map (decodeTuple t ++ ·) := by
  rw [decodeFrom, if_neg (by decide), if_pos rfl]

theorem ofNat_eq {c : UInt8} {n : Nat} (h : n % 256 = c.toNat) : UInt8.ofNat n = c := by
  rw [← UInt8.toNat_inj, UInt8.toNat_ofNat', ← h]

theorem tuple_eq {tuple : Nat} (h : tuple < 256 * 256 * 256) :
    tuple % 64 + 64 * (tuple / 64 % 64 + 64 * (tuple / 64 / 64 % 64 +
      64 * (tuple / 64 / 64 / 64 % 64))) = tuple := by
  omega

theorem decodeFrom_encodeTuple (c1 c2 c3 : UInt8) (s : List UInt8) :
    decodeFrom [] (encodeTuple c1 c2 c3 3 ++ s) = (decodeFrom [] s).map ([c1, c2, c3] ++ ·) := by
  have h1 := c1.toNat_lt
  have h2 := c2.toNat_lt
  have h3 := c3.toNat_lt
  unfold encodeTuple
  dsimp only
  generalize htuple : c3.toNat + 256 * (c2.toNat + 256 * c1.toNat) = tuple
  have hlt : tuple < 256 * 256 * 256 := by omega
  have hmod : ∀ n, n % 64 < 64 := fun n => Nat.mod_lt n (by decide)
  simp only [List.take_succ_cons, List.take_nil, Nat.sub_self, List.replicate_zero, List.append_nil,
    List.cons_append, List.nil_append]
  rw [decodeFrom_sextet (hmod _), if_neg (by simp), decodeFrom_sextet (hmod _), if_neg (by simp),
    decodeFrom_sextet (hmod _), if_neg (by simp), decodeFrom_sextet (hmod _), if_pos (by simp)]
  congr 2
  have hback : decodeTuple ([] ++ [tuple / 64 / 64 / 64 % 64] ++ [tuple / 64 / 64 % 64] ++
      [tuple / 64 % 64] ++ [tuple % 64]) =
        [UInt8.ofNat (tuple / 256 / 256), UInt8.ofNat (tuple / 256), UInt8.ofNat tuple] := by
    have heq := tuple_eq hlt
    simp only [decodeTuple, List.nil_append, List.cons_append, List.getD_cons_zero,
      List.getD_cons_succ, List.length_cons, List.length_nil, heq]
    rfl
  rw [hback, ofNat_eq (c := c1) (by omega), ofNat_eq (c := c2) (by omega),
    ofNat_eq (c := c3) (by omega)]
  rfl

theorem decodeFrom_encodeTuple_two (c1 c2 : UInt8) :
    decodeFrom [] (encodeTuple c1 c2 0 2) = some [c1, c2] := by
  have h1 := c1.toNat_lt
  have h2 := c2.toNat_lt
  unfold encodeTuple
  dsimp only
  generalize htuple : (0 : UInt8).toNat + 256 * (c2.toNat + 256 * c1.toNat) = tuple
  have hzero : (0 : UInt8).toNat = 0 := rfl
  have hlt : tuple < 256 * 256 * 256 := by omega
  have hlast : tuple % 64 = 0 := by omega
  have hmod : ∀ n, n % 64 < 64 := fun n => Nat.mod_lt n (by decide)
  simp only [List.take_succ_cons, List.take_zero, Nat.reduceSub, List.replicate_one,
    List.cons_append, List.nil_append]
  rw [decodeFrom_sextet (hmod _), if_neg (by simp), decodeFrom_sextet (hmod _), if_neg (by simp),
    decodeFrom_sextet (hmod _), if_neg (by simp), decodeFrom_pad, decodeFrom, Option.map_some]
  have hback : decodeTuple ([] ++ [tuple / 64 / 64 / 64 % 64] ++ [tuple / 64 / 64 % 64] ++
      [tuple / 64 % 64]) = [UInt8.ofNat (tuple / 256 / 256), UInt8.ofNat (tuple / 256)] := by
    have heq := tuple_eq hlt
    rw [hlast] at heq
    simp only [decodeTuple, List.nil_append, List.cons_append, List.getD_cons_zero,
      List.getD_cons_succ, List.getD_nil, List.length_cons, List.length_nil, heq]
    rfl
  rw [hback, ofNat_eq (c := c1) (by omega), ofNat_eq (c := c2) (by omega), List.append_nil]

theorem decodeFrom_encodeTuple_one (c1 : UInt8) :
    decodeFrom [] (encodeTuple c1 0 0 1) = some [c1] := by
  have h1 := c1.toNat_lt
  unfold encodeTuple
  dsimp only
  generalize htuple : (0 : UInt8).toNat + 256 * ((0 : UInt8).toNat + 256 * c1.toNat) = tuple
  have hzero : (0 : UInt8).toNat = 0 := rfl
  have hlt : tuple < 256 * 256 * 256 := by omega
  have hlast : tuple % 64 = 0 := by omega
  have hthird : tuple / 64 % 64 = 0 := by omega
  have hmod : ∀ n, n % 64 < 64 := fun n => Nat.mod_lt n (by decide)
  simp only [List.take_succ_cons, List.take_zero, Nat.reduceSub, List.replicate_succ,
    List.replicate_zero, List.cons_append, List.nil_append]
  rw [decodeFrom_sextet (hmod _), if_neg (by simp), decodeFrom_sextet (hmod _), if_neg (by simp),
    decodeFrom_pad, decodeFrom_pad, decodeFrom, Option.map_some, Option.map_some]
  have hback : decodeTuple ([] ++ [tuple / 64 / 64 / 64 % 64] ++ [tuple / 64 / 64 % 64]) =
      [UInt8.ofNat (tuple / 256 / 256)] := by
    have heq := tuple_eq hlt
    rw [hlast, hthird] at heq
    simp only [decodeTuple, List.nil_append, List.cons_append, List.getD_cons_zero,
      List.getD_cons_succ, List.getD_nil, List.length_cons, List.length_nil, heq]
    rfl
  have hnil : decodeTuple [] = [] := rfl
  rw [hback, hnil, ofNat_eq (c := c1) (by omega), List.append_nil, List.append_nil]

theorem decode_encode (s : List UInt8) : decode (encode s) = some s := by
  unfold decode
  induction s using encode.induct with
  | case1 c1 c2 c3 s ih => rw [encode, decodeFrom_encodeTuple, ih, Option.map_some]; rfl
  | case2 c1 c2 => exact decodeFrom_encodeTuple_two c1 c2
  | case3 c1 => exact decodeFrom_encodeTuple_one c1
  | case4 => rfl

theorem encodeTuple_not_blank (c1 c2 c3 : UInt8) (n : Nat) :
    ∀ c ∈ encodeTuple c1 c2 c3 n, blank c = false := by
  intro c hc
  have hsextet : ∀ m, blank (sextet (m % 64)) = false := fun m =>
    (code_spec (m % 64) (Nat.mod_lt m (by decide))).2.2.1
  rcases List.mem_append.mp hc with hc | hc
  · have hmem := List.mem_of_mem_take hc
    simp only [List.mem_cons, List.not_mem_nil, or_false] at hmem
    rcases hmem with rfl | rfl | rfl | rfl
    · exact hsextet _
    · exact hsextet _
    · exact hsextet _
    · exact hsextet _
  · rw [List.eq_of_mem_replicate hc]
    decide

theorem encode_not_blank (s : List UInt8) : ∀ c ∈ encode s, blank c = false := by
  induction s using encode.induct with
  | case1 c1 c2 c3 s ih =>
    intro c hc
    rw [encode] at hc
    rcases List.mem_append.mp hc with hc | hc
    · exact encodeTuple_not_blank c1 c2 c3 3 c hc
    · exact ih c hc
  | case2 c1 c2 => exact encodeTuple_not_blank c1 c2 0 2
  | case3 c1 => exact encodeTuple_not_blank c1 0 0 1
  | case4 => exact fun c hc => absurd hc List.not_mem_nil

end Prosody.Base64
