import Prosody.Library.Bits
import Prosody.Util.Base64

/-! # Base64 of strings of every length -/

namespace Prosody.Base64

/-! ## The encoder as it counts -/

/-- The loop over the blocks of three bytes, as long as `n--` is not zero, and what is behind them.
A negative `n` wraps to the greatest one, and there are always bytes for the rounds that it counts
(`rounds_le`). -/
def encodeLoop (n : Int32) : List UInt8 → List UInt8 × List UInt8
  | c1 :: c2 :: c3 :: s =>
    if n = 0 then ([], c1 :: c2 :: c3 :: s)
    else (encodeTuple c1 c2 c3 3 ++ (encodeLoop (n - 1) s).1, (encodeLoop (n - 1) s).2)
  | s => ([], s)

def encodeTail (l : ℕ) (s : List UInt8) : List UInt8 :=
  if l % 3 = 1 then encodeTuple (s.getD 0 0) 0 0 1
  else if l % 3 = 2 then encodeTuple (s.getD 0 0) (s.getD 1 0) 0 2
  else []

/-- `Lbase64_encode`. The number of blocks is converted to an `int`. -/
def lbase64Encode (s : List UInt8) : List UInt8 :=
  let l := s.length
  let blocks := encodeLoop (Int32.ofNat (l / 3)) s
  blocks.1 ++ encodeTail l blocks.2

/-! ## RFC 4648 -/

/-- The characters of groups of six bits. -/
def groups : List Bool → List UInt8
  | a :: b :: c :: d :: e :: f :: bits => sextet (Bits.ofBits [a, b, c, d, e, f]) :: groups bits
  | _ => []

/-- The bits of a string, with zero bits up to a whole group, and the characters of the groups, with
pads up to a whole quantum of four. -/
def rfc4648 (s : List UInt8) : List UInt8 :=
  let bits := Bits.ofBytes s
  let chars := groups (bits ++ List.replicate ((6 - bits.length % 6) % 6) false)
  chars ++ List.replicate ((4 - chars.length % 4) % 4) pad

/-- A text with blanks inserted. -/
inductive Spaced : List UInt8 → List UInt8 → Prop
  | nil : Spaced [] []
  | kept (c : UInt8) {r e : List UInt8} : Spaced r e → Spaced (c :: r) (c :: e)
  | inserted {c : UInt8} {r e : List UInt8} : blank c = true → Spaced r e → Spaced r (c :: e)

/-- What encoding and decoding do with a string. -/
structure Coded (s : List UInt8) : Prop where
  encodes : lbase64Encode s = rfc4648 s
  inverse : ∀ e, Spaced (lbase64Encode s) e → decode e = some s
  refuses : decode s = none ↔
    ∃ c ∈ s.takeWhile (· ≠ 0), c ∉ code ∧ c ≠ pad ∧ blank c = false

/-! ## Groups of bits -/

theorem groups_append {g : List Bool} (h : g.length = 6) (bits : List Bool) :
    groups (g ++ bits) = sextet (Bits.ofBits g) :: groups bits := by
  match g, h with
  | [a, b, c, d, e, f], _ => rfl

variable {l : List Bool}

/-- The groups of `k` times six bits, by the number that the bits spell. -/
theorem groups_succ {k : ℕ} (h : l.length = 6 * (k + 1)) :
    ∃ l', l'.length = 6 * k ∧ Bits.ofBits l' = Bits.ofBits l % 2 ^ (6 * k) ∧
      ∀ bits, groups (l ++ bits) = sextet (Bits.ofBits l / 2 ^ (6 * k)) :: groups (l' ++ bits) := by
  have hlast : (l.drop 6).length = 6 * k := by
    rw [List.length_drop, h]
    omega
  have hlt := Bits.ofBits_lt (l.drop 6)
  have hsplit := Bits.ofBits_append (l.take 6) (l.drop 6)
  rw [List.take_append_drop, hlast] at hsplit
  rw [hlast] at hlt
  refine ⟨l.drop 6, hlast, ?_, fun bits => ?_⟩
  · rw [hsplit, Nat.add_comm, Nat.add_mul_mod_self_right, Nat.mod_eq_of_lt hlt]
  · have hfirst : (l.take 6).length = 6 := by
      rw [List.length_take]
      omega
    conv_lhs => rw [← List.take_append_drop 6 l, List.append_assoc, groups_append hfirst,
      Bits.ofBits_take, h]
    rfl

theorem groups_two (h : l.length = 12) :
    groups l = [sextet (Bits.ofBits l / 64), sextet (Bits.ofBits l % 64)] := by
  obtain ⟨l1, h1, hn1, hg1⟩ := groups_succ (k := 1) h
  obtain ⟨l2, h2, hn2, hg2⟩ := groups_succ (k := 0) h1
  obtain rfl := List.length_eq_zero_iff.mp h2
  have hrun := hg1 []
  rw [hg2, hn1, List.append_nil] at hrun
  rw [hrun]
  simp only [Nat.mul_zero, Nat.mul_one, Nat.reducePow, Nat.div_one]
  rfl

theorem groups_three (h : l.length = 18) : groups l =
    [sextet (Bits.ofBits l / 64 / 64), sextet (Bits.ofBits l / 64 % 64),
      sextet (Bits.ofBits l % 64)] := by
  obtain ⟨l1, h1, hn1, hg1⟩ := groups_succ (k := 2) h
  obtain ⟨l2, h2, hn2, hg2⟩ := groups_succ (k := 1) h1
  obtain ⟨l3, h3, hn3, hg3⟩ := groups_succ (k := 0) h2
  obtain rfl := List.length_eq_zero_iff.mp h3
  have hrun := hg1 []
  rw [hg2, hg3, hn2, hn1, List.append_nil] at hrun
  rw [hrun]
  generalize Bits.ofBits l = n
  have hfirst : n / 2 ^ (6 * 2) = n / 64 / 64 := by omega
  have hsecond : n % 2 ^ (6 * 2) / 2 ^ (6 * 1) = n / 64 % 64 := by omega
  have hthird : n % 2 ^ (6 * 2) % 2 ^ (6 * 1) / 2 ^ (6 * 0) = n % 64 := by omega
  rw [hfirst, hsecond, hthird]
  rfl

theorem groups_four (h : l.length = 24) (bits : List Bool) :
    groups (l ++ bits) = [sextet (Bits.ofBits l / 64 / 64 / 64 % 64),
      sextet (Bits.ofBits l / 64 / 64 % 64), sextet (Bits.ofBits l / 64 % 64),
      sextet (Bits.ofBits l % 64)] ++ groups bits := by
  have hlt := Bits.ofBits_lt l
  rw [h] at hlt
  obtain ⟨l1, h1, hn1, hg1⟩ := groups_succ (k := 3) h
  obtain ⟨l2, h2, hn2, hg2⟩ := groups_succ (k := 2) h1
  obtain ⟨l3, h3, hn3, hg3⟩ := groups_succ (k := 1) h2
  obtain ⟨l4, h4, hn4, hg4⟩ := groups_succ (k := 0) h3
  obtain rfl := List.length_eq_zero_iff.mp h4
  rw [hg1, hg2, hg3, hg4, hn3, hn2, hn1]
  generalize Bits.ofBits l = n at hlt
  have hfirst : n / 2 ^ (6 * 3) = n / 64 / 64 / 64 % 64 := by omega
  have hsecond : n % 2 ^ (6 * 3) / 2 ^ (6 * 2) = n / 64 / 64 % 64 := by omega
  have hthird : n % 2 ^ (6 * 3) % 2 ^ (6 * 2) / 2 ^ (6 * 1) = n / 64 % 64 := by omega
  have hfourth : n % 2 ^ (6 * 3) % 2 ^ (6 * 2) % 2 ^ (6 * 1) / 2 ^ (6 * 0) = n % 64 := by omega
  rw [hfirst, hsecond, hthird, hfourth]
  rfl

theorem ofBits_replicate (k : ℕ) : Bits.ofBits (List.replicate k false) = 0 := by
  induction k with
  | zero => rfl
  | succ k ih => rw [List.replicate_succ, Bits.ofBits_cons, ih, Bool.toNat_false, Nat.zero_mul]

theorem rfc4648_eq {s chars : List UInt8} {fill : ℕ} (hfill : (6 - 8 * s.length % 6) % 6 = fill)
    (hchars : groups (Bits.ofBytes s ++ List.replicate fill false) = chars) :
    rfc4648 s = chars ++ List.replicate ((4 - chars.length % 4) % 4) pad := by
  subst hfill hchars
  rw [← Bits.length_ofBytes]
  rfl

/-- Encoding writes the characters of the groups, and the pads. -/
theorem encode_eq_rfc4648 (s : List UInt8) : encode s = rfc4648 s := by
  induction s using encode.induct with
  | case1 c1 c2 c3 s ih =>
    have hbits : Bits.ofBytes (c1 :: c2 :: c3 :: s) =
        Bits.ofBytes [c1, c2, c3] ++ Bits.ofBytes s := by
      unfold Bits.ofBytes
      rw [← List.flatMap_append]
      rfl
    have hlength : (Bits.ofBytes [c1, c2, c3]).length = 24 := Bits.length_ofBytes _
    have htuple : Bits.ofBits (Bits.ofBytes [c1, c2, c3]) =
        c3.toNat + 256 * (c2.toNat + 256 * c1.toNat) := by
      rw [Bits.ofBits_ofBytes]
      simp [Numbers.bigEndian]
      omega
    have hfill : (24 + (Bits.ofBytes s).length) % 6 = (Bits.ofBytes s).length % 6 := by omega
    have hpad (n : ℕ) : (4 + n) % 4 = n % 4 := by omega
    rw [encode, ih]
    unfold rfc4648
    simp only [hbits, List.append_assoc, groups_four hlength, List.length_append, hlength, hfill,
      htuple, List.length_cons, List.length_nil, hpad]
    rfl
  | case2 c1 c2 =>
    have h1 := c1.toNat_lt
    have h2 := c2.toNat_lt
    have hlength : (Bits.ofBytes [c1, c2] ++ List.replicate 2 false).length = 18 := by
      rw [List.length_append, Bits.length_ofBytes, List.length_replicate]
      rfl
    have hvalue : Bits.ofBits (Bits.ofBytes [c1, c2] ++ List.replicate 2 false) =
        (c1.toNat * 256 + c2.toNat) * 4 := by
      rw [Bits.ofBits_append, ofBits_replicate, Bits.ofBits_ofBytes]
      simp [Numbers.bigEndian]
    have hfill : (6 - 8 * [c1, c2].length % 6) % 6 = 2 := by simp
    have hzero : (0 : UInt8).toNat = 0 := rfl
    generalize htuple : (0 : UInt8).toNat + 256 * (c2.toNat + 256 * c1.toNat) = tuple
    have hfirst : tuple / 64 / 64 / 64 % 64 = (c1.toNat * 256 + c2.toNat) * 4 / 64 / 64 := by
      omega
    have hsecond : tuple / 64 / 64 % 64 = (c1.toNat * 256 + c2.toNat) * 4 / 64 % 64 := by omega
    have hthird : tuple / 64 % 64 = (c1.toNat * 256 + c2.toNat) * 4 % 64 := by omega
    rw [rfc4648_eq hfill (groups_three hlength), hvalue, encode, encodeTuple, htuple, hfirst,
      hsecond, hthird]
    rfl
  | case3 c1 =>
    have h1 := c1.toNat_lt
    have hlength : (Bits.ofBytes [c1] ++ List.replicate 4 false).length = 12 := by
      rw [List.length_append, Bits.length_ofBytes, List.length_replicate]
      rfl
    have hvalue : Bits.ofBits (Bits.ofBytes [c1] ++ List.replicate 4 false) = c1.toNat * 16 := by
      rw [Bits.ofBits_append, ofBits_replicate, Bits.ofBits_ofBytes]
      simp [Numbers.bigEndian]
    have hfill : (6 - 8 * [c1].length % 6) % 6 = 4 := by simp
    have hzero : (0 : UInt8).toNat = 0 := rfl
    generalize htuple : (0 : UInt8).toNat + 256 * ((0 : UInt8).toNat + 256 * c1.toNat) = tuple
    have hfirst : tuple / 64 / 64 / 64 % 64 = c1.toNat * 16 / 64 := by omega
    have hsecond : tuple / 64 / 64 % 64 = c1.toNat * 16 % 64 := by omega
    rw [rfc4648_eq hfill (groups_two hlength), hvalue, encode, encodeTuple, htuple, hfirst,
      hsecond]
    rfl
  | case4 => rfl

/-! ## Decoding -/

theorem decodeFrom_spaced {r e : List UInt8} (h : Spaced r e) (t : List ℕ) :
    decodeFrom t e = decodeFrom t r := by
  induction h generalizing t with
  | nil => rfl
  | kept c _ ih =>
    rw [decodeFrom, decodeFrom]
    simp only [ih]
  | @inserted c r e hc _ ih =>
    have hzero : c ≠ 0 := by
      rintro rfl
      exact absurd hc (by decide)
    have hpad : c ≠ pad := by
      rintro rfl
      exact absurd hc (by decide)
    rw [decodeFrom, if_neg hzero, if_neg hpad, if_pos hc, ih]

/-- A byte that decoding refuses. -/
def Stray (c : UInt8) : Prop := c ∉ code ∧ c ≠ pad ∧ blank c = false

theorem decodeFrom_none (t : List ℕ) (s : List UInt8) :
    decodeFrom t s = none ↔ ∃ c ∈ s.takeWhile (· ≠ 0), Stray c := by
  induction s generalizing t with
  | nil => exact iff_of_false (by simp [decodeFrom]) (by simp)
  | cons c s ih =>
    by_cases hzero : c = 0
    · rw [decodeFrom, if_pos hzero, hzero]
      exact iff_of_false (by simp) (by simp)
    · have htake : (c :: s).takeWhile (· ≠ 0) = c :: s.takeWhile (· ≠ 0) :=
        List.takeWhile_cons_of_pos (by simpa using hzero)
      have hskip (h : ¬ Stray c) : (∃ d ∈ (c :: s).takeWhile (· ≠ 0), Stray d) ↔
          ∃ d ∈ s.takeWhile (· ≠ 0), Stray d := by
        rw [htake]
        simp [h]
      rw [decodeFrom, if_neg hzero]
      by_cases hpad : c = pad
      · rw [if_pos hpad, Option.map_eq_none_iff, ih, hskip fun h => h.2.1 hpad]
      · rw [if_neg hpad]
        by_cases hblank : blank c = true
        · rw [if_pos hblank, ih, hskip fun h => absurd h.2.2 (by rw [hblank]; decide)]
        · rw [if_neg hblank]
          cases hcode : code.idxOf? c with
          | none =>
            refine iff_of_true rfl ⟨c, ?_, List.idxOf?_eq_none_iff.mp hcode, hpad, ?_⟩
            · rw [htake]
              exact List.mem_cons_self
            · exact Bool.not_eq_true _ ▸ hblank
          | some v =>
            have hmem : c ∈ code := by
              by_contra hnot
              rw [List.idxOf?_eq_none_iff.mpr hnot] at hcode
              exact absurd hcode (by simp)
            rw [hskip fun h => h.1 hmem]
            dsimp only
            split
            · rw [Option.map_eq_none_iff, ih]
            · rw [ih]

/-! ## The number of blocks -/

theorem length_encodeTuple (c1 c2 c3 : UInt8) {n : ℕ} (h : n ≤ 3) :
    (encodeTuple c1 c2 c3 n).length = 4 := by
  rw [encodeTuple, List.length_append, List.length_take, List.length_replicate]
  simp only [List.length_cons, List.length_nil]
  omega

theorem length_encode (s : List UInt8) :
    (encode s).length = 4 * (s.length / 3) + if s.length % 3 = 0 then 0 else 4 := by
  induction s using encode.induct with
  | case1 c1 c2 c3 s ih =>
    have hmod : (s.length + 1 + 1 + 1) % 3 = s.length % 3 := by omega
    have hdiv : (s.length + 1 + 1 + 1) / 3 = s.length / 3 + 1 := by omega
    rw [encode, List.length_append, length_encodeTuple _ _ _ (le_refl 3), ih, List.length_cons,
      List.length_cons, List.length_cons, hmod, hdiv]
    omega
  | case2 c1 c2 =>
    rw [encode, length_encodeTuple _ _ _ (by decide : 2 ≤ 3)]
    simp
  | case3 c1 =>
    rw [encode, length_encodeTuple _ _ _ (by decide : 1 ≤ 3)]
    simp
  | case4 => rfl

/-- The rounds that an `int` counts: `n--` goes on behind zero only from the greatest one down. -/
def rounds (n : Int32) : ℕ := n.toBitVec.toNat

theorem rounds_zero : rounds 0 = 0 := rfl

theorem rounds_sub_one {n : Int32} (h : n ≠ 0) : rounds n = rounds (n - 1) + 1 := by
  have hbits : n.toBitVec ≠ 0#32 := fun hzero => h (Int32.toBitVec_inj.mp hzero)
  rw [rounds, rounds, Int32.toBitVec_sub]
  have hone : (1 : Int32).toBitVec = 1#32 := rfl
  rw [hone]
  bv_omega

theorem rounds_ofNat (k : ℕ) : rounds (Int32.ofNat k) = k % 2 ^ 32 := BitVec.toNat_ofNat k 32

/-- The loop has a block for each of its rounds. -/
theorem rounds_le (s : List UInt8) : rounds (Int32.ofNat (s.length / 3)) ≤ s.length / 3 := by
  rw [rounds_ofNat]
  exact Nat.mod_le _ _

def encodeBlocks : ℕ → List UInt8 → List UInt8 × List UInt8
  | n + 1, c1 :: c2 :: c3 :: s =>
    (encodeTuple c1 c2 c3 3 ++ (encodeBlocks n s).1, (encodeBlocks n s).2)
  | _, s => ([], s)

theorem encodeBlocks_zero (s : List UInt8) : encodeBlocks 0 s = ([], s) := by
  match s with
  | [] => rfl
  | _ :: _ => rfl

theorem encodeLoop_eq (n : Int32) (s : List UInt8) :
    encodeLoop n s = encodeBlocks (rounds n) s := by
  induction s using encode.induct generalizing n with
  | case1 c1 c2 c3 s ih =>
    by_cases h : n = 0
    · rw [encodeLoop, if_pos h, h, rounds_zero, encodeBlocks_zero]
    · rw [encodeLoop, if_neg h, rounds_sub_one h, encodeBlocks, ih]
  | case2 c1 c2 => cases hn : rounds n <;> rfl
  | case3 c1 => cases hn : rounds n <;> rfl
  | case4 => cases hn : rounds n <;> rfl

theorem length_encodeBlocks (n : ℕ) (s : List UInt8) : (encodeBlocks n s).1.length ≤ 4 * n := by
  induction n generalizing s with
  | zero => rw [encodeBlocks_zero]; exact le_refl _
  | succ n ih =>
    match s with
    | [] => exact Nat.zero_le _
    | [_] => exact Nat.zero_le _
    | [_, _] => exact Nat.zero_le _
    | c1 :: c2 :: c3 :: s =>
      rw [encodeBlocks, List.length_append, length_encodeTuple _ _ _ (le_refl 3)]
      have := ih s
      omega

theorem length_encodeTail (l : ℕ) (s : List UInt8) :
    (encodeTail l s).length = if l % 3 = 0 then 0 else 4 := by
  obtain hr | hr | hr : l % 3 = 0 ∨ l % 3 = 1 ∨ l % 3 = 2 := by omega
  · rw [encodeTail, hr]
    rfl
  · rw [encodeTail, if_pos hr, hr, length_encodeTuple _ _ _ (by decide : 1 ≤ 3)]
    rfl
  · rw [encodeTail, hr, if_neg (by decide), if_pos rfl,
      length_encodeTuple _ _ _ (by decide : 2 ≤ 3)]
    rfl

theorem lbase64Encode_eq (s : List UInt8) : lbase64Encode s =
    (encodeBlocks (s.length / 3 % 2 ^ 32) s).1 ++
      encodeTail s.length (encodeBlocks (s.length / 3 % 2 ^ 32) s).2 := by
  rw [lbase64Encode, encodeLoop_eq, rounds_ofNat]

theorem encodeBlocks_all (s : List UInt8) : (encodeBlocks (s.length / 3) s).1 ++
    encodeTail s.length (encodeBlocks (s.length / 3) s).2 = encode s := by
  induction s using encode.induct with
  | case1 c1 c2 c3 s ih =>
    have hmod : (s.length + 1 + 1 + 1) % 3 = s.length % 3 := by omega
    have hdiv : (s.length + 1 + 1 + 1) / 3 = s.length / 3 + 1 := by omega
    rw [List.length_cons, List.length_cons, List.length_cons, hdiv, encodeBlocks, encode, ← ih,
      List.append_assoc, encodeTail, encodeTail, hmod]
  | case2 c1 c2 =>
    have hdiv : [c1, c2].length / 3 = 0 := by simp
    rw [hdiv, encodeBlocks_zero, encode, encodeTail, if_neg (by simp), if_pos (by simp)]
    rfl
  | case3 c1 =>
    have hdiv : [c1].length / 3 = 0 := by simp
    rw [hdiv, encodeBlocks_zero, encode, encodeTail, if_pos (by simp)]
    rfl
  | case4 => rfl

theorem lbase64Encode_of_lt {s : List UInt8} (h : s.length < 3 * 2 ^ 32) :
    lbase64Encode s = encode s := by
  rw [lbase64Encode_eq, Nat.mod_eq_of_lt (by omega), encodeBlocks_all]

/-- A string of too many blocks is not encoded to its end. -/
theorem lbase64Encode_of_le {s : List UInt8} (h : 3 * 2 ^ 32 ≤ s.length) :
    lbase64Encode s ≠ encode s := by
  intro heq
  have hfew : s.length / 3 % 2 ^ 32 < s.length / 3 := by omega
  have hlength := congrArg List.length heq
  rw [lbase64Encode_eq, List.length_append, length_encodeTail, length_encode] at hlength
  have hblocks := length_encodeBlocks (s.length / 3 % 2 ^ 32) s
  omega

theorem coded_iff (s : List UInt8) : Coded s ↔ s.length < 3 * 2 ^ 32 := by
  constructor
  · intro h
    by_contra hlong
    refine lbase64Encode_of_le (not_lt.mp hlong) ?_
    rw [h.encodes, encode_eq_rfc4648]
  · intro h
    have hencode := lbase64Encode_of_lt h
    refine ⟨by rw [hencode, encode_eq_rfc4648], fun e he => ?_, decodeFrom_none [] s⟩
    rw [hencode] at he
    rw [decode, decodeFrom_spaced he]
    exact decode_encode s

/-- A string of as many blocks as make the number of them zero. -/
theorem long_not_coded : ¬ Coded (List.replicate (3 * 2 ^ 32) 0) := by
  intro h
  refine lbase64Encode_of_le (s := List.replicate (3 * 2 ^ 32) 0) ?_ ?_
  · rw [List.length_replicate]
  · rw [h.encodes, encode_eq_rfc4648]

end Prosody.Base64
