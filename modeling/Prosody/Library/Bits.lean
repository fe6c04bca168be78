import Mathlib.Algebra.Group.Nat.Defs
import Mathlib.Data.Nat.Basic
import Mathlib.Tactic.Ring
import Prosody.Library.Numbers

/-! # Numbers in bits, the most significant one first -/

namespace Bits

def ofBits (l : List Bool) : ℕ := l.foldl (fun n b => 2 * n + b.toNat) 0

def toBits : ℕ → ℕ → List Bool
  | 0, _ => []
  | k + 1, n => toBits k (n / 2) ++ [decide (n % 2 = 1)]

theorem foldl_ofBits (l : List Bool) (n : ℕ) :
    l.foldl (fun n b => 2 * n + b.toNat) n = n * 2 ^ l.length + ofBits l := by
  induction l generalizing n with
  | nil => simp [ofBits]
  | cons b l ih =>
    rw [ofBits, List.foldl_cons, List.foldl_cons, ih, ih, List.length_cons, pow_succ]
    ring

theorem ofBits_append (l m : List Bool) : ofBits (l ++ m) = ofBits l * 2 ^ m.length + ofBits m := by
  rw [ofBits, List.foldl_append, foldl_ofBits, ← ofBits]

theorem ofBits_cons (b : Bool) (l : List Bool) :
    ofBits (b :: l) = b.toNat * 2 ^ l.length + ofBits l := by
  rw [ofBits, List.foldl_cons, foldl_ofBits, Nat.mul_zero, Nat.zero_add]

theorem ofBits_lt (l : List Bool) : ofBits l < 2 ^ l.length := by
  induction l with
  | nil => exact Nat.one_pos
  | cons b l ih =>
    have hb : b.toNat ≤ 1 := b.toNat_le
    rw [ofBits_cons, List.length_cons, pow_succ]
    calc b.toNat * 2 ^ l.length + ofBits l
        < b.toNat * 2 ^ l.length + 2 ^ l.length := by omega
      _ = (b.toNat + 1) * 2 ^ l.length := by ring
      _ ≤ 2 * 2 ^ l.length := Nat.mul_le_mul_right _ (by omega)
      _ = 2 ^ l.length * 2 := Nat.mul_comm _ _

/-- So many bits spell a number in one way. -/
theorem ofBits_inj {l m : List Bool} (hlength : l.length = m.length) (h : ofBits l = ofBits m) :
    l = m := by
  induction l generalizing m with
  | nil => exact (List.length_eq_zero_iff.mp hlength.symm).symm
  | cons b l ih =>
    obtain ⟨c, m, rfl⟩ := List.exists_cons_of_length_eq_add_one hlength.symm
    have hlength' : l.length = m.length := Nat.succ_injective hlength
    rw [ofBits_cons, ofBits_cons, hlength'] at h
    have hl := ofBits_lt l
    have hm := ofBits_lt m
    rw [hlength'] at hl
    cases b with
    | false =>
      cases c with
      | false =>
        rw [Bool.toNat_false, Nat.zero_mul, Nat.zero_add, Nat.zero_add] at h
        rw [ih hlength' h]
      | true =>
        rw [Bool.toNat_false, Bool.toNat_true] at h
        omega
    | true =>
      cases c with
      | false =>
        rw [Bool.toNat_false, Bool.toNat_true] at h
        omega
      | true => rw [ih hlength' (Nat.add_left_cancel h)]

/-- The first bits are what is left behind the others. -/
theorem ofBits_take (l : List Bool) (n : ℕ) :
    ofBits (l.take n) = ofBits l / 2 ^ (l.length - n) := by
  have hsplit := ofBits_append (l.take n) (l.drop n)
  have hlt := ofBits_lt (l.drop n)
  rw [List.take_append_drop, List.length_drop] at hsplit
  rw [List.length_drop] at hlt
  rw [hsplit, Nat.add_comm, Nat.add_mul_div_right _ _ (Nat.two_pow_pos _), Nat.div_eq_of_lt hlt,
    Nat.zero_add]

theorem take_eq_take_iff {l m : List Bool} (hlength : l.length = m.length) (n : ℕ) :
    l.take n = m.take n ↔ ofBits l / 2 ^ (l.length - n) = ofBits m / 2 ^ (l.length - n) := by
  rw [← ofBits_take]
  conv_rhs => rw [hlength, ← ofBits_take]
  constructor
  · exact fun h => congrArg ofBits h
  · refine ofBits_inj ?_
    rw [List.length_take, List.length_take, hlength]

@[simp] theorem length_toBits (k n : ℕ) : (toBits k n).length = k := by
  induction k generalizing n with
  | zero => rfl
  | succ k ih => rw [toBits, List.length_append, ih]; rfl

theorem ofBits_toBits {k n : ℕ} (h : n < 2 ^ k) : ofBits (toBits k n) = n := by
  induction k generalizing n with
  | zero =>
    rw [pow_zero] at h
    rw [toBits, ofBits]
    exact (Nat.lt_one_iff.mp h).symm
  | succ k ih =>
    rw [pow_succ] at h
    have hlast : (decide (n % 2 = 1)).toNat = n % 2 := by
      rcases Nat.mod_two_eq_zero_or_one n with h0 | h1
      · rw [h0]; rfl
      · rw [h1]; rfl
    have hbit : ofBits [decide (n % 2 = 1)] = n % 2 := by
      rw [ofBits_cons, hlast]
      simp [ofBits]
    rw [toBits, ofBits_append, ih (by omega), hbit, List.length_singleton, pow_one]
    omega

def ofBytes (bytes : List UInt8) : List Bool := bytes.flatMap fun b => toBits 8 b.toNat

theorem length_ofBytes (bytes : List UInt8) : (ofBytes bytes).length = 8 * bytes.length := by
  induction bytes with
  | nil => rfl
  | cons b bytes ih =>
    rw [ofBytes, List.flatMap_cons, List.length_append, length_toBits, ← ofBytes, ih,
      List.length_cons]
    ring

theorem ofBits_ofBytes (bytes : List UInt8) :
    ofBits (ofBytes bytes) = Prosody.Numbers.bigEndian bytes := by
  induction bytes with
  | nil => rfl
  | cons b bytes ih =>
    have hpow : (2 : ℕ) ^ (8 * bytes.length) = 256 ^ bytes.length := by rw [pow_mul]; rfl
    rw [ofBytes, List.flatMap_cons, ofBits_append, ofBits_toBits b.toNat_lt, ← ofBytes, ih,
      length_ofBytes, hpow, Prosody.Numbers.bigEndian_cons]

end Bits
