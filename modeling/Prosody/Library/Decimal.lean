import Mathlib.Algebra.Order.Field.Basic
import Mathlib.Algebra.Order.Ring.Abs
import Mathlib.Data.List.DropRight
import Mathlib.Data.Rat.Cast.Order
import Mathlib.Tactic.FieldSimp
import Mathlib.Tactic.Ring

/-! # Decimal numerals

How integers are written, in full or with as many digits as asked for, and what a numeral stands
for. -/

namespace Decimal

/-- The number without a fraction or an exponent. -/
def ofInt (n : ℤ) : List Char :=
  if n < 0 then '-' :: Nat.toDigits 10 n.natAbs else Nat.toDigits 10 n.natAbs

/-- The quotient, rounded to the nearest number, an even one of two. -/
def roundDiv (n unit : ℕ) : ℕ :=
  if 2 * (n % unit) < unit ∨ 2 * (n % unit) = unit ∧ n / unit % 2 = 0 then n / unit
  else n / unit + 1

def exponent (n : ℕ) : ℕ := (Nat.toDigits 10 n).length - 1

/-- The first digits of a number, and the exponent of the first of them. -/
def leading (precision n : ℕ) : ℕ × ℕ :=
  let e := exponent n
  let m := roundDiv n (10 ^ (e + 1 - precision))
  if m = 10 ^ precision then (10 ^ (precision - 1), e + 1) else (m, e)

/-- An exponent has two digits at least. -/
def exponentText (e : ℕ) : List Char :=
  if e < 10 then '0' :: Nat.toDigits 10 e else Nat.toDigits 10 e

/-- Digits with the point behind the first of them, and an exponent. -/
def scientific (m e : ℕ) : List Char :=
  let digits := Nat.toDigits 10 m
  let fraction := digits.tail.rdropWhile (· = '0')
  digits.take 1 ++ (if fraction = [] then [] else '.' :: fraction) ++ 'e' :: '+' :: exponentText e

/-- At most so many digits, as `%g` writes them. -/
def general (precision : ℕ) (n : ℤ) : List Char :=
  let text := if n.natAbs < 10 ^ precision then Nat.toDigits 10 n.natAbs else
    scientific (leading precision n.natAbs).1 (leading precision n.natAbs).2
  if n < 0 then '-' :: text else text

def sign : List Char → Bool × List Char
  | '-' :: s => (true, s)
  | '+' :: s => (false, s)
  | s => (false, s)

def readExponent : List Char → Option ℤ
  | [] => some 0
  | c :: s =>
    if c = 'e' ∨ c = 'E' then
      let (negative, digits) := sign s
      if digits ≠ [] ∧ digits.all Char.isDigit then
        let e : ℤ := Nat.ofDigitChars 10 digits 0
        some (if negative then -e else e)
      else none
    else none

def scale (m : ℕ) (e : ℤ) : ℚ :=
  if 0 ≤ e then m * 10 ^ e.toNat else m / 10 ^ (-e).toNat

def readFraction : List Char → List Char × List Char
  | '.' :: s => (s.takeWhile Char.isDigit, s.dropWhile Char.isDigit)
  | s => ([], s)

def read (s : List Char) : Option ℚ :=
  let (negative, s) := sign s
  let whole := s.takeWhile Char.isDigit
  let (fraction, s) := readFraction (s.dropWhile Char.isDigit)
  if whole = [] ∧ fraction = [] then none
  else (readExponent s).map fun e =>
    let q := scale (Nat.ofDigitChars 10 (whole ++ fraction) 0) (e - fraction.length)
    if negative then -q else q

/-! ## Reading what is written -/

theorem exists_toDigits (n : ℕ) : ∃ d ds, Nat.toDigits 10 n = d :: ds ∧ d.isDigit = true := by
  obtain ⟨d, ds, h⟩ := List.exists_cons_of_ne_nil (Nat.toDigits_ne_nil (n := n) (b := 10))
  exact ⟨d, ds, h, Nat.isDigit_of_mem_toDigits (by decide) (by decide) (h ▸ List.mem_cons_self)⟩

theorem sign_of_isDigit {d : Char} (h : d.isDigit = true) (s : List Char) :
    sign (d :: s) = (false, d :: s) := by
  unfold sign
  split
  · rename_i heq
    cases heq
    exact absurd h (by decide)
  · rename_i heq
    cases heq
    exact absurd h (by decide)
  · rfl

/-- A sign only changes the sign. -/
theorem read_neg {d : Char} (h : d.isDigit = true) (s : List Char) :
    read ('-' :: d :: s) = (read (d :: s)).map Neg.neg := by
  unfold read
  rw [sign_of_isDigit h]
  simp only [sign]
  split
  · rfl
  · rw [Option.map_map]
    rfl

theorem takeWhile_append_of_all {p : Char → Bool} {l : List Char} (h : ∀ c ∈ l, p c = true)
    {s : List Char} (hs : ∀ c ∈ s.head?, p c = false) :
    (l ++ s).takeWhile p = l ∧ (l ++ s).dropWhile p = s := by
  have hstop : s.takeWhile p = [] ∧ s.dropWhile p = s := by
    cases s with
    | nil => exact ⟨rfl, rfl⟩
    | cons c s =>
      have hc : p c = false := hs c rfl
      simp [hc]
  rw [List.takeWhile_append_of_pos h, List.dropWhile_append_of_pos h, hstop.1, hstop.2]
  exact ⟨List.append_nil l, rfl⟩

/-- The value of digits in front of an exponent, with a fraction among them if there is one. -/
theorem read_digits {d : Char} {whole fraction : List Char} {s : List Char} {e : ℤ}
    (hwhole : ∀ c ∈ d :: whole, c.isDigit = true) (hfraction : ∀ c ∈ fraction, c.isDigit = true)
    (hs : readExponent s = some e) (hstop : ∀ c ∈ s.head?, c.isDigit = false ∧ c ≠ '.') :
    read (d :: whole ++ ((if fraction = [] then [] else '.' :: fraction) ++ s)) =
      some (scale (Nat.ofDigitChars 10 (d :: whole ++ fraction) 0) (e - fraction.length)) := by
  have hbehind : ∀ c ∈ ((if fraction = [] then [] else '.' :: fraction) ++ s).head?,
      c.isDigit = false := by
    intro c hc
    by_cases hempty : fraction = []
    · rw [if_pos hempty, List.nil_append] at hc
      exact (hstop c hc).1
    · rw [if_neg hempty] at hc
      cases hc
      decide
  have hread : readFraction ((if fraction = [] then [] else '.' :: fraction) ++ s) =
      (fraction, s) := by
    by_cases hempty : fraction = []
    · rw [if_pos hempty, List.nil_append, hempty]
      unfold readFraction
      split
      · exact absurd rfl (hstop '.' rfl).2
      · rfl
    · rw [if_neg hempty, List.cons_append, readFraction]
      obtain ⟨htake, hdrop⟩ := takeWhile_append_of_all hfraction fun c hc => (hstop c hc).1
      rw [htake, hdrop]
  obtain ⟨htake, hdrop⟩ := takeWhile_append_of_all hwhole hbehind
  unfold read
  rw [List.cons_append, sign_of_isDigit (hwhole d List.mem_cons_self), ← List.cons_append]
  simp only [htake, hdrop, hread]
  rw [if_neg (fun h => by cases h.1), hs, Option.map_some]
  rfl

theorem read_toDigits (n : ℕ) : read (Nat.toDigits 10 n) = some (n : ℚ) := by
  obtain ⟨d, ds, hdigits, -⟩ := exists_toDigits n
  have hall : ∀ c ∈ d :: ds, c.isDigit = true := by
    intro c hc
    exact Nat.isDigit_of_mem_toDigits (by decide) (by decide) (hdigits ▸ hc)
  have hread := @read_digits _ _ [] [] _ hall (fun c hc => by cases hc) rfl
    fun c hc => by cases hc
  rw [hdigits]
  simpa [scale, ← hdigits] using hread

/-- With its sign in front, what stands for the absolute value stands for the number. -/
theorem read_signed {n q : ℤ} {text : List Char} {d : Char} {s : List Char}
    (htext : text = d :: s) (hd : d.isDigit = true) (hread : read text = some (q : ℚ)) :
    read (if n < 0 then '-' :: text else text) = some (((if n < 0 then -q else q) : ℤ) : ℚ) := by
  by_cases hneg : n < 0
  · rw [if_pos hneg, if_pos hneg, htext, read_neg hd, ← htext, hread, Option.map_some, Int.cast_neg]
  · rw [if_neg hneg, if_neg hneg, hread]

theorem signed_natAbs (n : ℤ) : (if n < 0 then -(n.natAbs : ℤ) else n.natAbs) = n := by
  split <;> omega

theorem read_ofInt (n : ℤ) : read (ofInt n) = some (n : ℚ) := by
  obtain ⟨d, ds, hdigits, hd⟩ := exists_toDigits n.natAbs
  have hread : read (Nat.toDigits 10 n.natAbs) = some (((n.natAbs : ℤ)) : ℚ) :=
    read_toDigits n.natAbs
  have hsigned := read_signed (n := n) hdigits hd hread
  rwa [signed_natAbs] at hsigned

end Decimal
