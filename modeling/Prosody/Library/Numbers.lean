import Mathlib.Data.Nat.Log
import Mathlib.Data.Int.Order.Basic
import Mathlib.Tactic.Linarith
import Mathlib.Tactic.Ring

/-! # Bytes as numbers, and what 64-bit integers and doubles keep of a number -/

namespace Prosody.Numbers

/-- The number that bytes spell, the most significant one first. -/
def bigEndian (bytes : List UInt8) : ℕ :=
  bytes.foldl (fun n b => n * 256 + b.toNat) 0

theorem foldl_bigEndian (bytes : List UInt8) (n : ℕ) :
    bytes.foldl (fun n b => n * 256 + b.toNat) n = n * 256 ^ bytes.length + bigEndian bytes := by
  induction bytes generalizing n with
  | nil => simp [bigEndian]
  | cons b bytes ih =>
    rw [bigEndian, List.foldl_cons, List.foldl_cons, ih, ih, List.length_cons, pow_succ]
    ring

theorem bigEndian_cons (b : UInt8) (bytes : List UInt8) :
    bigEndian (b :: bytes) = b.toNat * 256 ^ bytes.length + bigEndian bytes := by
  rw [bigEndian, List.foldl_cons, foldl_bigEndian, zero_mul, zero_add]

theorem bigEndian_append (xs ys : List UInt8) :
    bigEndian (xs ++ ys) = bigEndian xs * 256 ^ ys.length + bigEndian ys := by
  rw [bigEndian, List.foldl_append, foldl_bigEndian, ← bigEndian]

theorem bigEndian_lt (bytes : List UInt8) : bigEndian bytes < 256 ^ bytes.length := by
  induction bytes with
  | nil => simp [bigEndian]
  | cons b bytes ih =>
    rw [bigEndian_cons, List.length_cons, pow_succ]
    have hb : b.toNat < 256 := b.toNat_lt
    calc b.toNat * 256 ^ bytes.length + bigEndian bytes
        < b.toNat * 256 ^ bytes.length + 256 ^ bytes.length := by omega
      _ = (b.toNat + 1) * 256 ^ bytes.length := by ring
      _ ≤ 256 * 256 ^ bytes.length := Nat.mul_le_mul_right _ hb
      _ = 256 ^ bytes.length * 256 := by ring

/-- So many bytes spell a number in one way. -/
theorem bigEndian_inj {xs ys : List UInt8} (hlength : xs.length = ys.length)
    (h : bigEndian xs = bigEndian ys) : xs = ys := by
  induction xs generalizing ys with
  | nil => exact (List.length_eq_zero_iff.mp hlength.symm).symm
  | cons x xs ih =>
    obtain ⟨y, ys, rfl⟩ := List.exists_cons_of_length_eq_add_one hlength.symm
    have hlength' : xs.length = ys.length := Nat.succ_injective hlength
    have hxs := bigEndian_lt xs
    have hys := bigEndian_lt ys
    rw [bigEndian_cons, bigEndian_cons, hlength'] at h
    rw [hlength'] at hxs
    have hhead : x.toNat = y.toNat := by
      have hdiv := congrArg (fun n => n / 256 ^ ys.length) h
      beta_reduce at hdiv
      rw [Nat.add_comm, Nat.add_mul_div_right _ _ (by positivity), Nat.div_eq_of_lt hxs,
        Nat.add_comm (y.toNat * _), Nat.add_mul_div_right _ _ (by positivity),
        Nat.div_eq_of_lt hys, Nat.zero_add, Nat.zero_add] at hdiv
      exact hdiv
    rw [hhead] at h
    rw [UInt8.toNat_inj.mp hhead, ih hlength' (Nat.add_left_cancel h)]

/-- The last `k` bytes of a number, the most significant one first. -/
def toBigEndian : ℕ → ℕ → List UInt8
  | 0, _ => []
  | k + 1, n => toBigEndian k (n / 256) ++ [UInt8.ofNat n]

@[simp] theorem length_toBigEndian (k n : ℕ) : (toBigEndian k n).length = k := by
  induction k generalizing n with
  | zero => rfl
  | succ k ih => simp [toBigEndian, ih]

theorem bigEndian_toBigEndian {k n : ℕ} (h : n < 256 ^ k) : bigEndian (toBigEndian k n) = n := by
  induction k generalizing n with
  | zero =>
    rw [pow_zero] at h
    simp [toBigEndian, bigEndian]
    omega
  | succ k ih =>
    rw [pow_succ] at h
    have hlast : (UInt8.ofNat n).toNat = n % 256 := by simp
    rw [toBigEndian, bigEndian_append, ih (Nat.div_lt_of_lt_mul (by omega)),
      List.length_singleton, pow_one, bigEndian_cons, hlast]
    simp [bigEndian]
    omega

/-! ## Integers of 64 bits -/

/-- The integer of 64 bits, wrapped around. -/
def wrap (n : ℤ) : ℤ := n.bmod (2 ^ 64)

variable {n : ℤ}

theorem wrap_of_lt (hlow : -2 ^ 63 ≤ n) (hhigh : n < 2 ^ 63) : wrap n = n := by
  refine Int.bmod_eq_of_le_mul_two ?_ ?_ <;> omega

theorem wrap_of_ge (hlow : 2 ^ 63 ≤ n) (hhigh : n < 3 * 2 ^ 63) : wrap n = n - 2 ^ 64 := by
  rw [wrap, ← Int.sub_bmod_right]
  refine Int.bmod_eq_of_le_mul_two ?_ ?_ <;> push_cast <;> omega

/-! ## Integers that are doubles -/

/-- The number nearest to `n` among those of 53 significant bits, an even one of two. -/
def nearest (n : ℕ) : ℕ :=
  let unit := 2 ^ (n.log2 - 52)
  if 2 * (n % unit) < unit ∨ 2 * (n % unit) = unit ∧ n / unit % 2 = 0 then n / unit * unit
  else (n / unit + 1) * unit

def double (n : ℤ) : ℤ := n.sign * nearest n.natAbs

theorem nearest_of_lt {n : ℕ} (h : n < 2 ^ 53) : nearest n = n := by
  have hlog : n.log2 - 52 = 0 := by
    have : n.log2 < 53 ∨ n = 0 := by
      by_cases hn : n = 0
      · exact .inr hn
      · exact .inl ((Nat.log2_lt hn).mpr h)
    rcases this with hlt | rfl
    · omega
    · decide
  simp [nearest, hlog, Nat.mod_one]

theorem le_nearest {n : ℕ} (h : 2 ^ 53 ≤ n) : 2 ^ 53 ≤ nearest n := by
  have hn : n ≠ 0 := by omega
  have hlog : 53 ≤ n.log2 := (Nat.le_log2 hn).mpr h
  obtain ⟨e, he⟩ : ∃ e, n.log2 = e + 53 := ⟨n.log2 - 53, by omega⟩
  have hunit : n.log2 - 52 = e + 1 := by omega
  have hquot : 2 ^ 52 ≤ n / 2 ^ (e + 1) := by
    rw [Nat.le_div_iff_mul_le (by positivity), ← pow_add]
    have := Nat.log2_self_le hn
    rwa [he, show e + 53 = 52 + (e + 1) by omega] at this
  have htwo : 2 ≤ 2 ^ (e + 1) := by
    rw [pow_succ]
    have : 0 < 2 ^ e := by positivity
    omega
  have hbelow : 2 ^ 53 ≤ n / 2 ^ (e + 1) * 2 ^ (e + 1) := Nat.mul_le_mul hquot htwo
  simp only [nearest, hunit]
  split
  · exact hbelow
  · exact hbelow.trans (Nat.mul_le_mul_right _ (Nat.le_succ _))

theorem double_of_lt (hlow : -2 ^ 53 < n) (hhigh : n < 2 ^ 53) : double n = n := by
  rw [double, nearest_of_lt (by omega)]
  exact Int.sign_mul_natAbs n

theorem nearest_near {n : ℕ} (h : n < 2 ^ 54) : nearest n ≤ n + 1 ∧ n ≤ nearest n + 1 := by
  by_cases hsmall : n < 2 ^ 53
  · rw [nearest_of_lt hsmall]
    omega
  · have hn : n ≠ 0 := by omega
    have hlow : 53 ≤ n.log2 := (Nat.le_log2 hn).mpr (not_lt.mp hsmall)
    have hhigh : n.log2 < 54 := (Nat.log2_lt hn).mpr h
    have hunit : n.log2 - 52 = 1 := by omega
    simp only [nearest, hunit, pow_one]
    split <;> omega

theorem double_near (hlow : -2 ^ 54 < n) (hhigh : n < 2 ^ 54) :
    double n ≤ n + 1 ∧ n ≤ double n + 1 := by
  have hnear := nearest_near (n := n.natAbs) (by omega)
  rcases Int.lt_trichotomy n 0 with hneg | rfl | hpos
  · rw [double, Int.sign_eq_neg_one_of_neg hneg]
    omega
  · simp [double]
  · rw [double, Int.sign_eq_one_of_pos hpos]
    omega

theorem le_double (h : 2 ^ 53 ≤ n) : 2 ^ 53 ≤ double n := by
  have hnear := le_nearest (n := n.natAbs) (by omega)
  rw [double, Int.sign_eq_one_of_pos (by omega), one_mul]
  exact_mod_cast hnear

theorem double_le (h : n ≤ -2 ^ 53) : double n ≤ -2 ^ 53 := by
  have hnear : 2 ^ 53 ≤ nearest n.natAbs := le_nearest (by omega)
  rw [double, Int.sign_eq_neg_one_of_neg (by omega)]
  omega

end Prosody.Numbers
