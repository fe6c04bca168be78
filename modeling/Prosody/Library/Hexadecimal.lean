import Mathlib.Data.Char

/-! # Hexadecimal numerals -/

namespace Hexadecimal

def value (c : Char) : ℕ :=
  if c.isDigit then c.toNat - 48 else if 'a' ≤ c then c.toNat - 87 else c.toNat - 55

def number (s : List Char) : ℕ := s.foldl (fun n c => 16 * n + value c) 0

variable {c : Char}

theorem isHexDigit_iff : c.isHexDigit = true ↔ (48 ≤ c.toNat ∧ c.toNat ≤ 57) ∨
    (97 ≤ c.toNat ∧ c.toNat ≤ 102) ∨ (65 ≤ c.toNat ∧ c.toNat ≤ 70) := by
  simp only [Char.isHexDigit, Bool.or_eq_true, Bool.and_eq_true, decide_eq_true_eq,
    Char.isDigit_iff_toNat, ge_iff_le, UInt32.le_iff_toNat_le, or_assoc]
  rfl

theorem value_eq (h : c.isHexDigit = true) : value c = if c.toNat ≤ 57 then c.toNat - 48
      else if 97 ≤ c.toNat then c.toNat - 87 else c.toNat - 55 := by
  rw [isHexDigit_iff] at h
  have hdigit : c.isDigit = true ↔ c.toNat ≤ 57 := by
    rw [Char.isDigit_iff_toNat]
    change 48 ≤ c.toNat ∧ c.toNat ≤ 57 ↔ c.toNat ≤ 57
    omega
  have hlower : 'a' ≤ c ↔ 97 ≤ c.toNat := Iff.rfl
  unfold value
  simp only [hdigit, hlower]

theorem value_lt (h : c.isHexDigit = true) : value c < 16 := by
  rw [value_eq h]
  rw [isHexDigit_iff] at h
  split_ifs <;> omega

end Hexadecimal
