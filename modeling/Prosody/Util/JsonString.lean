import Prosody.Util.JsonText

/-! # Strings

The pieces that strings are written with, and how they come through the two passes over the
escapes. -/

namespace Prosody.Json

/-! ## Pieces -/

def utf8 (c : Char) : Text := (String.utf8EncodeChar c).map fun b => Char.ofNat b.toNat

/-- Four hexadecimal digits. -/
structure Hex where
  digits : Text
  length : digits.length = 4
  hex : digits.all Char.isHexDigit = true

def Hex.code (x : Hex) : ℕ := Hexadecimal.number x.digits

/-- A part of a string. Control characters are let through. -/
inductive Piece
  | raw (c : Char) (h : c ≠ '"' ∧ c ≠ '\\')
  | simple (c : Char) (h : c ∈ ['"', '\\', '/', 'b', 'f', 'n', 'r', 't'])
  | unicode (x : Hex) (h : x.code < 0xD800 ∨ 0xDFFF < x.code)
  | pair (lead trail : Hex) (hlead : 0xD800 ≤ lead.code ∧ lead.code < 0xDC00)
      (htrail : 0xDC00 ≤ trail.code ∧ trail.code < 0xE000)

def escaped (c : Char) : Char :=
  if c = 'b' then Char.ofNat 8
  else if c = 'f' then Char.ofNat 12
  else if c = 'n' then '\n'
  else if c = 'r' then '\r'
  else if c = 't' then '\t'
  else c

namespace Piece

def text : Piece → Text
  | raw c _ => [c]
  | simple c _ => ['\\', c]
  | unicode x _ => '\\' :: 'u' :: x.digits
  | pair lead trail _ _ => '\\' :: 'u' :: (lead.digits ++ '\\' :: 'u' :: trail.digits)

/-- The bytes that a part stands for. -/
def denotes : Piece → Text
  | raw c _ => [c]
  | simple c _ => [escaped c]
  | unicode x _ => utf8 (Char.ofNat x.code)
  | pair lead trail _ _ =>
    utf8 (Char.ofNat (0x10000 + (lead.code - 0xD800) * 0x400 + (trail.code - 0xDC00)))

/-- The text behind the first pass. -/
def passed : Piece → Text
  | raw c _ => [c]
  | simple c _ => firstEscape c
  | unicode x _ => '\\' :: 'u' :: x.digits
  | pair lead trail _ _ => '\\' :: 'u' :: (lead.digits ++ '\\' :: 'u' :: trail.digits)

end Piece

/-! ### Digits -/

variable {c : Char}

theorem value_eq_thirteen (h : c.isHexDigit = true) : Hexadecimal.value c = 13 ↔ c = 'd' ∨ c = 'D' := by
  have hd : c = 'd' ↔ c.toNat = 100 := Char.toNat_inj.symm
  have hD : c = 'D' ↔ c.toNat = 68 := Char.toNat_inj.symm
  rw [Hexadecimal.value_eq h, hd, hD]
  rw [Hexadecimal.isHexDigit_iff] at h
  split_ifs <;> omega

namespace Hex

variable (x : Hex)

theorem exists_digits : ∃ a b c d, x.digits = [a, b, c, d] ∧ a.isHexDigit = true ∧ b.isHexDigit = true ∧
    c.isHexDigit = true ∧ d.isHexDigit = true := by
  obtain ⟨digits, hlength, hhex⟩ := x
  match digits, hlength with
  | [a, b, c, d], _ =>
    rw [List.all_eq_true] at hhex
    exact ⟨a, b, c, d, rfl, hhex a (by simp), hhex b (by simp), hhex c (by simp),
      hhex d (by simp)⟩

theorem code_lt : x.code < 0x10000 := by
  obtain ⟨a, b, c, d, hdigits, ha, hb, hc, hd⟩ := x.exists_digits
  have := Hexadecimal.value_lt ha
  have := Hexadecimal.value_lt hb
  have := Hexadecimal.value_lt hc
  have := Hexadecimal.value_lt hd
  unfold code
  rw [hdigits]
  simp only [Hexadecimal.number, List.foldl_cons, List.foldl_nil]
  omega

/-- The pattern finds the codes that are set aside for pairs. -/
theorem isSurrogate_iff (trail : Bool) :
    isSurrogate trail ('\\' :: 'u' :: x.digits) = true ↔
      0xD800 ≤ x.code ∧ x.code ≤ 0xDFFF ∧ (0xDC00 ≤ x.code ↔ trail = true) := by
  obtain ⟨a, b, c, d, hdigits, ha, hb, hc, hd⟩ := x.exists_digits
  have := Hexadecimal.value_lt ha
  have := Hexadecimal.value_lt hb
  have := Hexadecimal.value_lt hc
  have := Hexadecimal.value_lt hd
  have hcode : x.code =
      16 * (16 * (16 * Hexadecimal.value a + Hexadecimal.value b) + Hexadecimal.value c) + Hexadecimal.value d := by
    unfold code
    rw [hdigits]
    simp [Hexadecimal.number]
  rw [hdigits, hcode]
  simp only [isSurrogate, hb, hc, hd, Bool.and_true, Bool.and_eq_true, decide_eq_true_eq,
    beq_iff_eq, ← value_eq_thirteen ha]
  cases trail with
  | true => simp only [decide_eq_true_eq, iff_true]; omega
  | false => simp only [decide_eq_false_iff_not, Bool.false_eq_true, iff_false]; omega

end Hex

/-! ### Bytes -/

theorem bytes_eq {ms ns : List ℕ} (h : List.Forall₂ (fun m n => m % 256 = n) ms ns) :
    (ms.map UInt8.ofNat).map (fun b => Char.ofNat b.toNat) = ns.map Char.ofNat := by
  induction h with
  | nil => rfl
  | cons hmod _ ih =>
    rw [List.map_cons, List.map_cons, List.map_cons, ih, UInt8.toNat_ofNat', hmod]

theorem toNat_lt (c : Char) : c.toNat < 0x110000 := by
  have hvalid : c.toNat < 0xD800 ∨ 0xDFFF < c.toNat ∧ c.toNat < 0x110000 := c.valid
  omega

theorem utf8_eq (c : Char) : utf8 c =
    if c.toNat < 0x80 then [Char.ofNat c.toNat]
    else if c.toNat < 0x800 then
      [Char.ofNat (0x80 + 0x40 + c.toNat / 64), Char.ofNat (0x80 + c.toNat % 64)]
    else if c.toNat < 0x10000 then [Char.ofNat (0x80 + 0x40 + 0x20 + c.toNat / 4096),
      Char.ofNat (0x80 + c.toNat % 4096 / 64), Char.ofNat (0x80 + c.toNat % 64)]
    else [Char.ofNat (0xF0 + c.toNat / 64 / 64 / 64), Char.ofNat (0x80 + c.toNat / 64 / 64 % 64),
      Char.ofNat (0x80 + c.toNat / 64 % 64), Char.ofNat (0x80 + c.toNat % 64)] := by
  have hvalid := toNat_lt c
  have hval : c.val.toNat = c.toNat := rfl
  unfold utf8 String.utf8EncodeChar
  simp only [hval]
  by_cases h1 : c.toNat < 0x80
  · rw [if_pos (by omega), if_pos h1]
    exact bytes_eq (.cons (by omega) .nil)
  rw [if_neg (by omega), if_neg h1]
  by_cases h2 : c.toNat < 0x800
  · rw [if_pos (by omega), if_pos h2]
    exact bytes_eq (.cons (by omega) (.cons (by omega) .nil))
  rw [if_neg (by omega), if_neg h2]
  by_cases h3 : c.toNat < 0x10000
  · rw [if_pos (by omega), if_pos h3]
    exact bytes_eq (.cons (by omega) (.cons (by omega) (.cons (by omega) .nil)))
  · rw [if_neg (by omega), if_neg h3]
    exact bytes_eq (.cons (by omega) (.cons (by omega) (.cons (by omega) (.cons (by omega) .nil))))

theorem toNat_ofNat {n : ℕ} (h : n < 0xD800 ∨ 0xDFFF < n ∧ n < 0x110000) :
    (Char.ofNat n).toNat = n := by
  rw [Char.ofNat, dif_pos h]
  rfl

theorem high_of_mem_utf8 {d : Char} (h : 0x80 ≤ c.toNat) (hd : d ∈ utf8 c) : 0x80 ≤ d.toNat := by
  have hbyte : ∃ n, d = Char.ofNat n ∧ 0x80 ≤ n ∧ n < 0xD800 := by
    rw [utf8_eq, if_neg (by omega)] at hd
    have hvalid := toNat_lt c
    split_ifs at hd <;> simp only [List.mem_cons, List.not_mem_nil, or_false] at hd
    · rcases hd with rfl | rfl
      · exact ⟨_, rfl, by omega, by omega⟩
      · exact ⟨_, rfl, by omega, by omega⟩
    · rcases hd with rfl | rfl | rfl
      · exact ⟨_, rfl, by omega, by omega⟩
      · exact ⟨_, rfl, by omega, by omega⟩
      · exact ⟨_, rfl, by omega, by omega⟩
    · rcases hd with rfl | rfl | rfl | rfl
      · exact ⟨_, rfl, by omega, by omega⟩
      · exact ⟨_, rfl, by omega, by omega⟩
      · exact ⟨_, rfl, by omega, by omega⟩
      · exact ⟨_, rfl, by omega, by omega⟩
  obtain ⟨n, rfl, hlow, hlt⟩ := hbyte
  rwa [toNat_ofNat (.inl hlt)]

theorem codepointToUtf8_eq {code : ℕ} (h : code < 0xD800 ∨ 0xDFFF < code) (hlt : code < 0x10000) :
    codepointToUtf8 code = utf8 (Char.ofNat code) := by
  rw [utf8_eq, toNat_ofNat (by omega)]
  unfold codepointToUtf8
  by_cases h1 : code < 0x80
  · rw [if_pos h1, if_pos h1]
  by_cases h2 : code < 0x800
  · rw [if_neg h1, if_neg h1, if_pos h2, if_pos h2]
  · rw [if_neg h1, if_neg h1, if_neg h2, if_neg h2, if_pos hlt]

theorem unescapeSurrogate_eq {lead trail : Hex} (hlead : 0xD800 ≤ lead.code ∧ lead.code < 0xDC00)
    (htrail : 0xDC00 ≤ trail.code ∧ trail.code < 0xE000) (s : Text) :
    unescapeSurrogate ('\\' :: 'u' :: (lead.digits ++ '\\' :: 'u' :: trail.digits) ++ s) =
      utf8 (Char.ofNat (0x10000 + (lead.code - 0xD800) * 0x400 + (trail.code - 0xDC00))) := by
  obtain ⟨a, b, c, d, hl, -⟩ := lead.exists_digits
  obtain ⟨a', b', c', d', ht, -⟩ := trail.exists_digits
  have hcode : lead.code * 0x400 + trail.code - 0x35FDC00 =
      0x10000 + (lead.code - 0xD800) * 0x400 + (trail.code - 0xDC00) := by
    omega
  rw [utf8_eq, toNat_ofNat (by omega), if_neg (by omega), if_neg (by omega), if_neg (by omega),
    ← hcode]
  unfold Hex.code unescapeSurrogate
  rw [hl, ht]
  rfl

/-! ## Replacing -/

section Gsub

variable {found : Text → Option (Option Text × ℕ)}

theorem gsub_skip (s t : Text) : gsub found s.length (s ++ t) = gsub found 0 t := by
  induction s with
  | nil => rfl
  | cons c s ih => exact ih

theorem gsub_none {c : Char} {s : Text} (h : found (c :: s) = none) :
    gsub found 0 (c :: s) = (gsub found 0 s).map (c :: ·) := by
  rw [gsub, h]

theorem gsub_found {c : Char} {s t r : Text}
    (h : found (c :: (s ++ t)) = some (some r, s.length + 1)) :
    gsub found 0 (c :: s ++ t) = (gsub found 0 t).map (r ++ ·) := by
  rw [List.cons_append, gsub, h]
  simp only [Option.bind_some, Nat.add_sub_cancel]
  rw [gsub_skip]

/-- Nothing is found where nothing can begin. -/
theorem gsub_plain {s : Text} (h : ∀ c ∈ s, ∀ t, found (c :: t) = none) (t : Text) :
    gsub found 0 (s ++ t) = (gsub found 0 t).map (s ++ ·) := by
  induction s with
  | nil => simp
  | cons c s ih =>
    rw [List.cons_append, gsub_none (h c List.mem_cons_self _),
      ih fun d hd => h d (List.mem_cons_of_mem c hd), Option.map_map]
    rfl

end Gsub

theorem surrogateAt_of_ne (h : c ≠ '\\') (s : Text) : surrogateAt (c :: s) = none := by
  unfold surrogateAt
  rw [if_neg]
  rintro ⟨hlead, -⟩
  unfold isSurrogate at hlead
  split at hlead
  · rename_i heq
    rw [List.take_succ_cons] at heq
    exact h (List.cons.inj heq).1
  · cases hlead

theorem escapeAt_of_ne (h : c ≠ '\\') (s : Text) : escapeAt (c :: s) = none := by
  unfold escapeAt
  rw [if_neg]
  intro htake
  rw [List.take_succ_cons] at htake
  exact h (List.cons.inj htake).1

/-! ### Pieces come through -/

/-- The digits that the first pass puts in the place of a letter. -/
def escapeCode (c : Char) : Hex :=
  if c = '"' then ⟨"0022".toList, rfl, rfl⟩
  else if c = '\\' then ⟨"005c".toList, rfl, rfl⟩
  else if c = '/' then ⟨"002f".toList, rfl, rfl⟩
  else if c = 'b' then ⟨"0008".toList, rfl, rfl⟩
  else if c = 'f' then ⟨"000C".toList, rfl, rfl⟩
  else if c = 'n' then ⟨"000A".toList, rfl, rfl⟩
  else if c = 'r' then ⟨"000D".toList, rfl, rfl⟩
  else ⟨"0009".toList, rfl, rfl⟩

theorem escapeCode_spec (h : c ∈ ['"', '\\', '/', 'b', 'f', 'n', 'r', 't']) :
    firstEscape c = '\\' :: 'u' :: (escapeCode c).digits ∧ (escapeCode c).code < 0x80 ∧
      utf8 (Char.ofNat (escapeCode c).code) = [escaped c] := by
  simp only [List.mem_cons, List.not_mem_nil, or_false] at h
  rcases h with rfl | rfl | rfl | rfl | rfl | rfl | rfl | rfl <;>
    exact ⟨rfl, by decide, by rfl⟩

namespace Hex

variable (x : Hex)

theorem ne_of_mem {c : Char} (h : c ∈ x.digits) : c ≠ '\\' ∧ c ≠ '"' := by
  have hhex : c.isHexDigit = true := List.all_eq_true.mp x.hex c h
  constructor <;> rintro rfl <;> cases hhex

theorem firstEscapes_append (t : Text) :
    firstEscapes ('\\' :: 'u' :: (x.digits ++ t)) =
      '\\' :: 'u' :: (x.digits ++ firstEscapes t) := by
  rw [firstEscapes, if_pos rfl,
    Json.firstEscapes_append fun c hc => (x.ne_of_mem hc).1]
  rfl

theorem take_append (t : Text) :
    ('\\' :: 'u' :: (x.digits ++ t)).take 6 = '\\' :: 'u' :: x.digits := by
  rw [List.take_succ_cons, List.take_succ_cons, List.take_append_of_le_length x.length.ge,
    List.take_of_length_le x.length.le]

theorem drop_append (t : Text) : ('\\' :: 'u' :: (x.digits ++ t)).drop 6 = t := by
  rw [List.drop_succ_cons, List.drop_succ_cons, List.drop_append_of_le_length x.length.ge,
    List.drop_of_length_le x.length.le, List.nil_append]

theorem plain_of_mem {c : Char} (h : c ∈ 'u' :: x.digits) : c ≠ '\\' := by
  rcases List.mem_cons.mp h with rfl | h
  · decide
  · exact (x.ne_of_mem h).1

theorem surrogatePass (h : x.code < 0xD800 ∨ 0xDFFF < x.code) (t : Text) :
    gsub surrogateAt 0 ('\\' :: 'u' :: x.digits ++ t) =
      (gsub surrogateAt 0 t).map ('\\' :: 'u' :: x.digits ++ ·) := by
  have hnone : surrogateAt ('\\' :: ('u' :: x.digits ++ t)) = none := by
    unfold surrogateAt
    rw [if_neg]
    rintro ⟨hlead, -⟩
    have htake := x.take_append t
    rw [List.cons_append, htake, x.isSurrogate_iff] at hlead
    omega
  rw [List.cons_append, gsub_none hnone,
    gsub_plain fun c hc t => surrogateAt_of_ne (x.plain_of_mem hc) t, Option.map_map]
  rfl

theorem escapePass (h : x.code < 0xD800 ∨ 0xDFFF < x.code) (t : Text) :
    gsub escapeAt 0 ('\\' :: 'u' :: x.digits ++ t) =
      (gsub escapeAt 0 t).map (utf8 (Char.ofNat x.code) ++ ·) := by
  refine gsub_found ?_
  have hunescape : unescape x.digits = some (utf8 (Char.ofNat x.code)) := by
    unfold unescape
    rw [if_pos ⟨x.length, x.hex⟩]
    change (if 0xD800 ≤ x.code ∧ x.code ≤ 0xDFFF then none else some (codepointToUtf8 x.code)) = _
    rw [if_neg (by omega), codepointToUtf8_eq h x.code_lt]
  have hdigits : (x.digits ++ t).take 4 = x.digits := by
    rw [List.take_append_of_le_length x.length.ge, List.take_of_length_le x.length.le]
  unfold escapeAt
  simp only [List.cons_append, List.take_succ_cons, List.take_zero, if_true, List.drop_succ_cons,
    List.drop_zero, hdigits, hunescape, List.length_cons]
  rw [Nat.add_comm]

end Hex

theorem surrogateAt_pair {lead trail : Hex} (hlead : 0xD800 ≤ lead.code ∧ lead.code < 0xDC00)
    (htrail : 0xDC00 ≤ trail.code ∧ trail.code < 0xE000) (t : Text) :
    surrogateAt ('\\' :: 'u' :: (lead.digits ++ '\\' :: 'u' :: (trail.digits ++ t))) =
      some (some (utf8 (Char.ofNat
        (0x10000 + (lead.code - 0xD800) * 0x400 + (trail.code - 0xDC00)))), 12) := by
  have hl : isSurrogate false ('\\' :: 'u' :: lead.digits) = true := by
    rw [lead.isSurrogate_iff]
    simp only [Bool.false_eq_true, iff_false]
    omega
  have ht : isSurrogate true ('\\' :: 'u' :: trail.digits) = true := by
    rw [trail.isSurrogate_iff]
    simp only [iff_true]
    omega
  have hbytes := unescapeSurrogate_eq hlead htrail t
  simp only [List.cons_append, List.append_assoc] at hbytes
  unfold surrogateAt
  rw [lead.take_append, lead.drop_append, trail.take_append, if_pos ⟨hl, ht⟩, hbytes]

namespace Piece

/-- The text behind the pass over the pairs. -/
def half : Piece → Text
  | raw c _ => [c]
  | simple c _ => firstEscape c
  | unicode x _ => '\\' :: 'u' :: x.digits
  | pair lead trail hlead htrail => (pair lead trail hlead htrail).denotes

theorem firstEscapes_append (p : Piece) (t : Text) :
    firstEscapes (p.text ++ t) = p.passed ++ firstEscapes t := by
  cases p with
  | raw c h => exact firstEscapes_cons h.2 t
  | simple c h =>
    change firstEscapes ('\\' :: c :: t) = _
    rw [firstEscapes, if_pos rfl]
    rfl
  | unicode x h => exact x.firstEscapes_append t
  | pair lead trail hlead htrail =>
    change firstEscapes ('\\' :: 'u' :: (lead.digits ++ '\\' :: 'u' :: trail.digits ++ t)) = _
    rw [List.append_assoc, lead.firstEscapes_append, List.cons_append, List.cons_append,
      trail.firstEscapes_append]
    simp [passed]

theorem surrogatePass (p : Piece) (t : Text) :
    gsub surrogateAt 0 (p.passed ++ t) = (gsub surrogateAt 0 t).map (p.half ++ ·) := by
  cases p with
  | raw c h => exact gsub_none (surrogateAt_of_ne h.2 t)
  | simple c h =>
    obtain ⟨hescape, hcode, -⟩ := escapeCode_spec h
    rw [half, passed, hescape]
    exact (escapeCode c).surrogatePass (by omega) t
  | unicode x h => exact x.surrogatePass h t
  | pair lead trail hlead htrail =>
    have hfound := surrogateAt_pair hlead htrail t
    have hlength : (lead.digits ++ '\\' :: 'u' :: trail.digits).length = 10 := by
      rw [List.length_append, List.length_cons, List.length_cons, lead.length, trail.length]
    refine gsub_found ?_
    rw [List.length_cons, hlength]
    simpa [half, denotes] using hfound

theorem escapePass (p : Piece) (t : Text) :
    gsub escapeAt 0 (p.half ++ t) = (gsub escapeAt 0 t).map (p.denotes ++ ·) := by
  cases p with
  | raw c h => exact gsub_none (escapeAt_of_ne h.2 t)
  | simple c h =>
    obtain ⟨hescape, hcode, hdenotes⟩ := escapeCode_spec h
    rw [half, hescape, denotes, ← hdenotes]
    exact (escapeCode c).escapePass (by omega) t
  | unicode x h => exact x.escapePass h t
  | pair lead trail hlead htrail =>
    refine gsub_plain (fun c hc t => escapeAt_of_ne ?_ t) t
    rintro rfl
    refine absurd (high_of_mem_utf8 ?_ hc) (by decide)
    rw [toNat_ofNat (by omega)]
    omega

/-! ### Strings are read -/

theorem ne_of_mem_passed {p : Piece} {c : Char} (h : c ∈ p.passed) : c ≠ '"' := by
  cases p with
  | raw d hd =>
    rw [List.mem_singleton.mp h]
    exact hd.1
  | simple d hd =>
    rw [passed, (escapeCode_spec hd).1] at h
    rintro rfl
    simp only [List.mem_cons, Char.reduceEq, false_or] at h
    exact ((escapeCode d).ne_of_mem h).2 rfl
  | unicode x hx =>
    rintro rfl
    simp only [passed, List.mem_cons, Char.reduceEq, false_or] at h
    exact (x.ne_of_mem h).2 rfl
  | pair lead trail hlead htrail =>
    rintro rfl
    simp only [passed, List.mem_cons, List.mem_append, Char.reduceEq, false_or] at h
    rcases h with h | h
    · exact (lead.ne_of_mem h).2 rfl
    · exact (trail.ne_of_mem h).2 rfl

end Piece

theorem firstEscapes_pieces (ps : List Piece) (t : Text) :
    firstEscapes (ps.flatMap Piece.text ++ t) = ps.flatMap Piece.passed ++ firstEscapes t := by
  induction ps with
  | nil => rfl
  | cons p ps ih =>
    rw [List.flatMap_cons, List.flatMap_cons, List.append_assoc, p.firstEscapes_append, ih,
      List.append_assoc]

theorem gsub_pieces {found : Text → Option (Option Text × ℕ)} {before behind : Piece → Text}
    (h : ∀ p t, gsub found 0 (before p ++ t) = (gsub found 0 t).map (behind p ++ ·))
    (ps : List Piece) : gsub found 0 (ps.flatMap before) = some (ps.flatMap behind) := by
  induction ps with
  | nil => rw [List.flatMap_nil, List.flatMap_nil, gsub]
  | cons p ps ih =>
    rw [List.flatMap_cons, List.flatMap_cons, h, ih]
    rfl

theorem readString_pieces (ps : List Piece) (t : Text) :
    readString (ps.flatMap Piece.passed ++ '"' :: t) = .value (ps.flatMap Piece.denotes) t := by
  have hall : ∀ c ∈ ps.flatMap Piece.passed, decide (c ≠ '"') = true := by
    intro c hc
    obtain ⟨p, -, hc⟩ := List.mem_flatMap.mp hc
    exact decide_eq_true (Piece.ne_of_mem_passed hc)
  obtain ⟨htake, hdrop⟩ := Decimal.takeWhile_append_of_all (s := '"' :: t) hall
    fun c hc => by cases hc; decide
  unfold readString
  rw [htake, hdrop, gsub_pieces Piece.surrogatePass, Option.bind_some,
    gsub_pieces Piece.escapePass]

def quoted (ps : List Piece) : Text := '"' :: (ps.flatMap Piece.text ++ ['"'])

theorem firstEscapes_quoted (ps : List Piece) (rest : Text) :
    firstEscapes (quoted ps ++ rest) =
      '"' :: (ps.flatMap Piece.passed ++ '"' :: firstEscapes rest) := by
  rw [quoted, List.cons_append, List.append_assoc, List.singleton_append,
    firstEscapes_cons (by decide), firstEscapes_pieces, firstEscapes_cons (by decide)]

theorem readsAs_quoted (lua : Lua) (ps : List Piece) :
    ReadsAs lua (quoted ps) (.string (ps.flatMap Piece.denotes)) := by
  intro rest _
  refine ⟨firstEscapes rest, ?_, rfl⟩
  rw [firstEscapes_quoted, value_string (skipWhitespace_cons (by decide) _), readString_pieces]
  rfl

/-! ## Members -/

def memberText (before : Blank) (key : List Piece) (after : Blank) (text : Text) : Text :=
  before.1 ++ (quoted key ++ (after.1 ++ ':' :: text))

theorem names_memberText (before : Blank) (key : List Piece) (after : Blank) (text rest : Text) :
    Names (firstEscapes (memberText before key after text ++ rest))
      (key.flatMap Piece.denotes) (firstEscapes (text ++ rest)) := by
  refine ⟨_, after.1 ++ ':' :: firstEscapes (text ++ rest), ?_, readString_pieces key _, ?_⟩
  · unfold memberText
    rw [List.append_assoc, List.append_assoc, List.append_assoc, List.cons_append,
      before.firstEscapes_append, firstEscapes_quoted, after.firstEscapes_append,
      firstEscapes_cons (by decide)]
    refine skipWhitespace_of_dropWhile ?_
    rw [before.dropWhile_append]
    exact dropWhile_cons (by decide) _
  · refine skipWhitespace_of_dropWhile ?_
    rw [after.dropWhile_append]
    exact dropWhile_cons (by decide) _

theorem readsMember_of_readsAs {lua : Lua} {text : Text} {v : Value} (h : ReadsAs lua text v)
    (before : Blank) (key : List Piece) (after : Blank) :
    ReadsMember lua (memberText before key after text) (key.flatMap Piece.denotes, v) := by
  intro rest hends
  obtain ⟨mid, hread, hmid⟩ := h rest hends
  exact ⟨_, mid, names_memberText before key after text rest, hread, hmid⟩

theorem failsMember_of_fails {lua : Lua} {text : Text} (h : Fails lua text) (before : Blank)
    (key : List Piece) (after : Blank) : FailsMember lua (memberText before key after text) := by
  intro rest hends
  exact ⟨_, _, names_memberText before key after text rest, h rest hends⟩

/-! ## Strings are written -/

theorem isHexDigit_hexDigit : ∀ n < 16, (hexDigit n).isHexDigit = true ∧ Hexadecimal.value (hexDigit n) = n := by
  decide

/-- The code of a control character, in digits. -/
def control (c : Char) (h : c.toNat < 32) : Hex where
  digits := ['0', '0', hexDigit (c.toNat / 16), hexDigit (c.toNat % 16)]
  length := rfl
  hex := by
    have hhigh := (isHexDigit_hexDigit (c.toNat / 16) (by omega)).1
    have hlow := (isHexDigit_hexDigit (c.toNat % 16) (by omega)).1
    simp [hhigh, hlow, show '0'.isHexDigit = true from rfl]

theorem control_code (c : Char) (h : c.toNat < 32) : (control c h).code = c.toNat := by
  have hhigh := (isHexDigit_hexDigit (c.toNat / 16) (by omega)).2
  have hlow := (isHexDigit_hexDigit (c.toNat % 16) (by omega)).2
  have hzero : Hexadecimal.value '0' = 0 := rfl
  simp only [Hex.code, control, Hexadecimal.number, List.foldl_cons, List.foldl_nil, hhigh, hlow, hzero]
  omega

theorem exists_piece (c : Char) : ∃ p : Piece, p.text = escapes c ∧ p.denotes = [c] := by
  unfold escapes
  by_cases hquote : c = '"'
  · exact ⟨.simple '"' (by decide), (if_pos hquote).symm, by rw [hquote]; rfl⟩
  rw [if_neg hquote]
  by_cases hback : c = '\\'
  · exact ⟨.simple '\\' (by decide), (if_pos hback).symm, by rw [hback]; rfl⟩
  rw [if_neg hback]
  by_cases h8 : c.toNat = 8
  · exact ⟨.simple 'b' (by decide), (if_pos h8).symm, by rw [← Char.ofNat_toNat c, h8]; rfl⟩
  rw [if_neg h8]
  by_cases h12 : c.toNat = 12
  · exact ⟨.simple 'f' (by decide), (if_pos h12).symm, by rw [← Char.ofNat_toNat c, h12]; rfl⟩
  rw [if_neg h12]
  by_cases hn : c = '\n'
  · exact ⟨.simple 'n' (by decide), (if_pos hn).symm, by rw [hn]; rfl⟩
  rw [if_neg hn]
  by_cases hr : c = '\r'
  · exact ⟨.simple 'r' (by decide), (if_pos hr).symm, by rw [hr]; rfl⟩
  rw [if_neg hr]
  by_cases ht : c = '\t'
  · exact ⟨.simple 't' (by decide), (if_pos ht).symm, by rw [ht]; rfl⟩
  rw [if_neg ht]
  by_cases hcontrol : c.toNat < 32
  · have hcode := control_code c hcontrol
    refine ⟨.unicode (control c hcontrol) (by omega), (if_pos hcontrol).symm, ?_⟩
    rw [Piece.denotes, hcode, Char.ofNat_toNat, utf8_eq, if_pos (by omega), Char.ofNat_toNat]
  · exact ⟨.raw c ⟨hquote, hback⟩, (if_neg hcontrol).symm, rfl⟩

theorem exists_pieces (s : Text) :
    ∃ ps : List Piece, quoted ps = stringsave s ∧ ps.flatMap Piece.denotes = s := by
  induction s with
  | nil => exact ⟨[], rfl, rfl⟩
  | cons c s ih =>
    obtain ⟨p, htext, hdenotes⟩ := exists_piece c
    obtain ⟨ps, htexts, hs⟩ := ih
    refine ⟨p :: ps, ?_, ?_⟩
    · unfold quoted stringsave at *
      rw [List.flatMap_cons, List.flatMap_cons, htext, List.append_assoc, List.append_assoc,
        (List.cons.inj htexts).2]
    · rw [List.flatMap_cons, hdenotes, hs]
      rfl

/-- Bytes are read as they have been written. -/
theorem readsAs_stringsave (lua : Lua) (s : Text) : ReadsAs lua (stringsave s) (.string s) := by
  obtain ⟨ps, htext, hs⟩ := exists_pieces s
  rw [← htext, ← hs]
  exact readsAs_quoted lua ps

theorem readsMember_stringsave {lua : Lua} {text : Text} {v : Value} (h : ReadsAs lua text v)
    (s : Text) : ReadsMember lua (stringsave s ++ ':' :: text) (s, v) := by
  obtain ⟨ps, htext, hs⟩ := exists_pieces s
  have hread := readsMember_of_readsAs h ⟨[], rfl⟩ ps ⟨[], rfl⟩
  rw [hs] at hread
  rw [← htext]
  exact hread

end Prosody.Json
