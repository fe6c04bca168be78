import Mathlib.Algebra.Group.Nat.Defs
import Mathlib.Data.Nat.Basic
import Mathlib.Tactic.Ring

/-! # Validation of UTF-8

`utf8_decode`, `check_utf8`, `Lutf8_valid` and `Lutf8_length` of `encodings.c`. What a pointer
points at is a list of bytes that ends with the NUL behind the string. Reading from the empty list
is reading behind that NUL, and has no result. -/

namespace Prosody.Utf8

def maxUnicode : ℕ := 0x10FFFF

def limits : List ℕ := [0xFF, 0x7F, 0x7FF, 0xFFFF]

/-- Where the loop over the continuation bytes ends: `c`, `res`, `count`, and what is behind. -/
structure Sequence where
  c : ℕ
  res : ℕ
  count : ℕ
  rest : List UInt8

/-- The loop over the continuation bytes, with `none` inside for an invalid one. -/
def continuation (c res count : ℕ) : List UInt8 → Option (Option Sequence)
  | [] => if c &&& 0x40 = 0 then some (some ⟨c, res, count, []⟩) else none
  | cc :: rest =>
    if c &&& 0x40 = 0 then some (some ⟨c, res, count, cc :: rest⟩)
    else if cc.toNat &&& 0xC0 ≠ 0x80 then some none
    else continuation (c <<< 1) ((res <<< 6 ||| cc.toNat &&& 0x3F) % 2 ^ 32) (count + 1) rest

/-- What the value of a sequence is checked for. -/
def Sequence.check (s : Sequence) : Option (ℕ × List UInt8) :=
  let res := (s.res ||| (s.c &&& 0x7F) <<< (s.count * 5)) % 2 ^ 32
  if s.count > 3 ∨ res > maxUnicode ∨ res ≤ limits.getD s.count 0 ∨
    (0xD800 ≤ res ∧ res ≤ 0xDFFF) then none
  else some (res, s.rest)

/-- The value that is decoded, and the pointer behind it. -/
def utf8Decode : List UInt8 → Option (Option (ℕ × List UInt8))
  | [] => none
  | s :: rest =>
    let c := s.toNat
    if c < 0x80 then some (some (c, rest))
    else (continuation c 0 0 rest).map fun r => r.bind Sequence.check

theorem continuation_length (c res count : ℕ) (rest : List UInt8) (s : Sequence)
    (h : continuation c res count rest = some (some s)) : s.rest.length ≤ rest.length := by
  induction rest generalizing c res count with
  | nil =>
    rw [continuation] at h
    split at h
    · cases h
      exact le_refl _
    · exact absurd h (by simp)
  | cons cc rest ih =>
    rw [continuation] at h
    split at h
    · cases h
      exact le_refl _
    · split at h
      · exact absurd h (by simp)
      · exact (ih _ _ _ h).trans (Nat.le_succ _)

theorem utf8Decode_length {memory : List UInt8} {n : ℕ} {rest : List UInt8}
    (h : utf8Decode memory = some (some (n, rest))) : rest.length < memory.length := by
  cases memory with
  | nil => exact absurd h (by simp [utf8Decode])
  | cons s tail =>
    rw [utf8Decode] at h
    split at h
    · cases h
      exact Nat.lt_succ_self _
    · obtain ⟨r, hr, hcheck⟩ := Option.map_eq_some_iff.mp h
      obtain ⟨sq, rfl, hsq⟩ := Option.bind_eq_some_iff.mp hcheck
      have hlength := continuation_length _ _ _ _ _ hr
      unfold Sequence.check at hsq
      dsimp only at hsq
      split at hsq
      · exact absurd hsq (by simp)
      · cases hsq
        exact Nat.lt_succ_of_le hlength

/-- The loop of `check_utf8`: whether all of the memory decodes, up to the NUL at its end. -/
def checkFrom (memory : List UInt8) : Option Bool :=
  if memory = [] then some true
  else
    match _h : utf8Decode memory with
    | none => none
    | some none => some false
    | some (some (_, rest)) => checkFrom rest
termination_by memory.length
decreasing_by exact utf8Decode_length _h

/-- The length of a string, where it is valid. -/
def checkUtf8 (s : List UInt8) : Option (Option ℕ) :=
  (checkFrom (s ++ [0])).map fun valid => if valid then some s.length else none

def valid (s : List UInt8) : Option Bool := (checkUtf8 s).map Option.isSome

/-- The length of a string in bytes, or nil. -/
def length (s : List UInt8) : Option (Option ℕ) := checkUtf8 s

end Prosody.Utf8
