import Prosody.Util.Utf8

/-! # Which strings are valid UTF-8 -/

namespace Prosody.Utf8

/-- The encodings of characters, one behind the other. A character is no surrogate, and is not
above `0x10FFFF`. -/
def WellFormed (s : List UInt8) : Prop := ∃ cs : List Char, s = cs.flatMap String.utf8EncodeChar

/-! ## The bytes of a character -/

/-- The last `k` bytes of a number that is encoded. -/
def tailBytes : ℕ → ℕ → List UInt8
  | 0, _ => []
  | k + 1, n => UInt8.ofNat (0x80 + n / 64 ^ k % 64) :: tailBytes k n

theorem tailBytes_one (n : ℕ) : tailBytes 1 n = [UInt8.ofNat (0x80 + n % 64)] := by
  rw [tailBytes, tailBytes, pow_zero, Nat.div_one]

theorem tailBytes_two (n : ℕ) :
    tailBytes 2 n = [UInt8.ofNat (0x80 + n / 64 % 64), UInt8.ofNat (0x80 + n % 64)] := by
  rw [tailBytes, tailBytes_one, pow_one]

theorem tailBytes_three (n : ℕ) : tailBytes 3 n = [UInt8.ofNat (0x80 + n / 4096 % 64),
    UInt8.ofNat (0x80 + n / 64 % 64), UInt8.ofNat (0x80 + n % 64)] := by
  rw [tailBytes, tailBytes_two]
  rfl

/-- How many bytes follow the first one. -/
def tails (n : ℕ) : ℕ :=
  if n < 0x80 then 0 else if n < 0x800 then 1 else if n < 0x10000 then 2 else 3

def lead (n : ℕ) : ℕ :=
  if n < 0x80 then n
  else if n < 0x800 then 0xC0 + n / 64
  else if n < 0x10000 then 0xE0 + n / 64 ^ 2
  else 0xF0 + n / 64 ^ 3

def Scalar (n : ℕ) : Prop := n < 0xD800 ∨ 0xDFFF < n ∧ n < 0x110000

theorem toNat_scalar (c : Char) : Scalar c.toNat := c.valid

variable {n : ℕ}

theorem toNat_ofNat (h : Scalar n) : (Char.ofNat n).toNat = n := by
  rw [Char.ofNat, dif_pos (show n.isValidChar from h)]
  rfl

theorem ofNat_cons {m : ℕ} {l l' : List UInt8} (h : m = n) (hl : l = l') :
    UInt8.ofNat m :: l = UInt8.ofNat n :: l' := by rw [h, hl]

theorem utf8EncodeChar_eq (c : Char) :
    String.utf8EncodeChar c = UInt8.ofNat (lead c.toNat) :: tailBytes (tails c.toNat) c.toNat := by
  have hbound : c.toNat < 0xD800 ∨ 0xDFFF < c.toNat ∧ c.toNat < 0x110000 := toNat_scalar c
  have hval : c.val.toNat = c.toNat := rfl
  unfold String.utf8EncodeChar lead tails
  simp only [hval]
  by_cases h1 : c.toNat < 0x80
  · rw [if_pos (by omega), if_pos h1, if_pos h1, tailBytes]
  rw [if_neg (by omega), if_neg h1, if_neg h1]
  by_cases h2 : c.toNat < 0x800
  · rw [if_pos (by omega), if_pos h2, if_pos h2, tailBytes_one]
    exact ofNat_cons (by omega) (ofNat_cons (by omega) rfl)
  rw [if_neg (by omega), if_neg h2, if_neg h2]
  by_cases h3 : c.toNat < 0x10000
  · rw [if_pos (by omega), if_pos h3, if_pos h3, tailBytes_two]
    exact ofNat_cons (by omega) (ofNat_cons (by omega) (ofNat_cons (by omega) rfl))
  · rw [if_neg (by omega), if_neg h3, if_neg h3, tailBytes_three]
    exact ofNat_cons (by omega)
      (ofNat_cons (by omega) (ofNat_cons (by omega) (ofNat_cons (by omega) rfl)))

theorem tailBytes_mod (k n : ℕ) : tailBytes k (n % 64 ^ k) = tailBytes k n := by
  have hmod (j : ℕ) : ∀ k ≤ j, tailBytes k (n % 64 ^ j) = tailBytes k n := by
    intro k
    induction k with
    | zero => exact fun _ => rfl
    | succ k ih =>
      intro hk
      obtain ⟨d, rfl⟩ := Nat.exists_eq_add_of_lt hk
      have hbyte : n % 64 ^ (k + d + 1) / 64 ^ k % 64 = n / 64 ^ k % 64 := by
        rw [show 64 ^ (k + d + 1) = 64 ^ k * (64 * 64 ^ d) by ring, Nat.mod_mul_right_div_self,
          Nat.mod_mul_right_mod]
      rw [tailBytes, tailBytes, hbyte, ih (by omega)]
  exact hmod k k (le_refl k)

/-! ## The bits of a byte -/

theorem tail_iff : ∀ n < 256, (n &&& 0xC0 = 0x80 ↔ 0x80 ≤ n ∧ n < 0xC0) ∧
    (0x80 ≤ n → n < 0xC0 → n &&& 0x3F = n - 0x80) := by decide +kernel

/-- How many bits are set in front of the first byte of a character tells how many bytes follow. -/
def first (k : ℕ) : ℕ := 256 - 2 ^ (7 - k)

theorem lead_bits : ∀ k < 4, ∀ n < 256, first k ≤ n ∧ n < first (k + 1) →
    (∀ i < k, (n <<< i) &&& 0x40 ≠ 0) ∧ (n <<< k) &&& 0x40 = 0 ∧
      ((n <<< k) &&& 0x7F) <<< (k * 5) = (n - first k) * 64 ^ k := by decide +kernel

/-! ## The loop over the continuation bytes -/

theorem shift_or {res x : ℕ} (hx : x < 64) : res <<< 6 ||| x = res * 64 + x := by
  rw [Nat.shiftLeft_eq, Nat.mul_comm, ← Nat.two_pow_add_eq_or_of_lt (i := 6) hx]

variable {k : ℕ}

/-- The loop reads as many continuation bytes as bits are set behind the first one. -/
theorem continuation_iff {c : ℕ} (hset : ∀ i < k, (c <<< i) &&& 0x40 ≠ 0)
    (hstop : (c <<< k) &&& 0x40 = 0) {res : ℕ} (hres : (res + 1) * 64 ^ k ≤ 2 ^ 32) (count : ℕ)
    (rest : List UInt8) (s : Sequence) : continuation c res count rest = some (some s) ↔
      ∃ n rest', rest = tailBytes k n ++ rest' ∧ n / 64 ^ k = res ∧
        s = ⟨c <<< k, n, count + k, rest'⟩ := by
  induction k generalizing c res count rest with
  | zero =>
    change c &&& 0x40 = 0 at hstop
    have hrun : continuation c res count rest = some (some ⟨c, res, count, rest⟩) := by
      cases rest with
      | nil => rw [continuation, if_pos hstop]
      | cons cc rest => rw [continuation, if_pos hstop]
    rw [hrun]
    constructor
    · rintro h
      obtain rfl := Option.some.inj (Option.some.inj h)
      exact ⟨res, rest, rfl, by rw [pow_zero, Nat.div_one], rfl⟩
    · rintro ⟨n, rest', rfl, rfl, rfl⟩
      rw [pow_zero, Nat.div_one]
      rfl
  | succ k ih =>
    have hfirst : ¬ c &&& 0x40 = 0 := hset 0 (Nat.succ_pos k)
    have hnext (i : ℕ) : (c <<< 1) <<< i = c <<< (i + 1) := by
      rw [← Nat.shiftLeft_add, Nat.add_comm]
    cases rest with
    | nil =>
      rw [continuation, if_neg hfirst]
      refine iff_of_false (by simp) ?_
      rintro ⟨n, rest', h, -⟩
      exact absurd h (by simp [tailBytes])
    | cons cc rest =>
      rw [continuation, if_neg hfirst]
      obtain ⟨htail, hlow⟩ := tail_iff cc.toNat cc.toNat_lt
      by_cases hcc : cc.toNat &&& 0xC0 = 0x80
      · obtain ⟨hge, hlt⟩ := htail.mp hcc
        have hvalue : (res <<< 6 ||| cc.toNat &&& 0x3F) % 2 ^ 32 =
            res * 64 + (cc.toNat - 0x80) := by
          rw [hlow hge hlt, shift_or (by omega), Nat.mod_eq_of_lt]
          have hone : 1 ≤ 64 ^ k := Nat.one_le_two_pow.trans (Nat.pow_le_pow_left (by decide) k)
          have hle : (res + 1) * 64 ≤ (res + 1) * 64 ^ (k + 1) :=
            Nat.mul_le_mul_left _ (by rw [pow_succ]; omega)
          omega
        rw [if_neg (not_not.mpr hcc), hvalue, ih]
        · constructor
          · rintro ⟨n, rest', rfl, hn, rfl⟩
            refine ⟨n, rest', ?_, ?_, ?_⟩
            · have hbyte : 0x80 + n / 64 ^ k % 64 = cc.toNat := by omega
              rw [tailBytes, hbyte, UInt8.ofNat_toNat]
              rfl
            · rw [pow_succ, ← Nat.div_div_eq_div_mul, hn]
              omega
            · rw [hnext, Nat.add_assoc, Nat.add_comm 1]
          · rintro ⟨n, rest', hrest, hn, rfl⟩
            rw [tailBytes, List.cons_append] at hrest
            obtain ⟨rfl, rfl⟩ := List.cons.inj hrest
            refine ⟨n, rest', rfl, ?_, ?_⟩
            · rw [pow_succ, ← Nat.div_div_eq_div_mul] at hn
              rw [UInt8.toNat_ofNat', Nat.mod_eq_of_lt (by omega)]
              omega
            · rw [hnext, Nat.add_assoc, Nat.add_comm 1]
        · intro i hi
          rw [hnext]
          exact hset (i + 1) (Nat.succ_lt_succ hi)
        · rw [hnext]
          exact hstop
        · refine le_trans ?_ hres
          rw [pow_succ, ← Nat.mul_assoc, Nat.mul_right_comm]
          exact Nat.mul_le_mul_right _ (by omega)
      · rw [if_pos hcc]
        refine iff_of_false (by simp) ?_
        rintro ⟨n, rest', h, -⟩
        rw [tailBytes, List.cons_append] at h
        refine hcc (htail.mpr ?_)
        rw [(List.cons.inj h).1, UInt8.toNat_ofNat', Nat.mod_eq_of_lt (by omega)]
        omega

variable {rest : List UInt8}

/-- A NUL is no continuation byte. -/
theorem continuation_isSome (h : 0 ∈ rest) (c res count : ℕ) :
    continuation c res count rest ≠ none := by
  induction rest generalizing c res count with
  | nil => exact absurd h List.not_mem_nil
  | cons cc rest ih =>
    rw [continuation]
    split
    · exact Option.some_ne_none _
    · split
      · exact Option.some_ne_none _
      · next hcc =>
          rcases List.mem_cons.mp h with rfl | h
          · exact absurd (by decide) hcc
          · exact ih h _ _ _

/-- As many bytes are counted, at least, as bits are set. -/
theorem le_continuation {c : ℕ} (hset : ∀ i < k, (c <<< i) &&& 0x40 ≠ 0) {res count : ℕ}
    {s : Sequence} (h : continuation c res count rest = some (some s)) : count + k ≤ s.count := by
  induction rest generalizing c res count k with
  | nil =>
    rw [continuation] at h
    split at h
    · next hstop =>
        cases h
        cases k with
        | zero => exact le_refl _
        | succ k => exact absurd hstop (hset 0 (Nat.succ_pos k))
    · exact absurd h (by simp)
  | cons cc rest ih =>
    rw [continuation] at h
    split at h
    · next hstop =>
        cases h
        cases k with
        | zero => exact le_refl _
        | succ k => exact absurd hstop (hset 0 (Nat.succ_pos k))
    · split at h
      · exact absurd h (by simp)
      · cases k with
        | zero =>
          have hle := ih (k := 0) (fun i hi => absurd hi (by simp)) h
          omega
        | succ k =>
          have hle := ih (k := k) (fun i hi => ?_) h
          · omega
          · rw [← Nat.shiftLeft_add, Nat.add_comm]
            exact hset (i + 1) (Nat.succ_lt_succ hi)

/-! ## Decoding one character -/

theorem tailBytes_add (k m t : ℕ) (h : m < 64 ^ k) :
    tailBytes k (t * 64 ^ k + m) = tailBytes k m := by
  rw [← tailBytes_mod, Nat.add_comm, Nat.add_mul_mod_self_right, Nat.mod_eq_of_lt h]

theorem check_eq {c m : ℕ} (hk : k < 4) (hc : c < 256) (hrange : first k ≤ c ∧ c < first (k + 1))
    (hm : m < 64 ^ k) (rest : List UInt8) (n : ℕ) (rest' : List UInt8) :
    (Sequence.mk (c <<< k) m k rest).check = some (n, rest') ↔
      n = (c - first k) * 64 ^ k + m ∧ rest = rest' ∧ limits.getD k 0 < n ∧ Scalar n := by
  obtain ⟨-, -, htop⟩ := lead_bits k hk c hc hrange
  have hpow : 64 ^ k = 2 ^ (6 * k) := by rw [pow_mul]; rfl
  have hle : 64 ^ k ≤ 64 ^ 3 := Nat.pow_le_pow_right (by decide) (Nat.le_of_lt_succ hk)
  have hmul : (c - first k) * 64 ^ k ≤ 255 * 64 ^ 3 := Nat.mul_le_mul (by omega) hle
  have hvalue : (m ||| ((c <<< k) &&& 0x7F) <<< (k * 5)) % 2 ^ 32 = (c - first k) * 64 ^ k + m := by
    have hor : m ||| (c - first k) * 64 ^ k = (c - first k) * 64 ^ k + m := by
      rw [hpow] at hm ⊢
      rw [Nat.mul_comm, Nat.two_pow_add_eq_or_of_lt hm, Nat.or_comm]
    rw [htop, hor, Nat.mod_eq_of_lt (by omega)]
  unfold Sequence.check
  simp only [hvalue]
  generalize (c - first k) * 64 ^ k + m = v
  have hcount : ¬ k > 3 := by omega
  have hscalar : Scalar v ↔ ¬ (v > maxUnicode ∨ (0xD800 ≤ v ∧ v ≤ 0xDFFF)) := by
    unfold Scalar maxUnicode
    omega
  split
  · next hbad =>
      refine iff_of_false (by simp) ?_
      rintro ⟨rfl, -, hlimit, hs⟩
      rw [hscalar] at hs
      omega
  · next hgood =>
      rw [Option.some_inj, Prod.mk.injEq]
      constructor
      · rintro ⟨rfl, rfl⟩
        exact ⟨rfl, rfl, by omega, hscalar.mpr (by omega)⟩
      · exact fun h => ⟨h.1.symm, h.2.1⟩

/-- Decoding behind a first byte that announces `k` others. -/
theorem utf8Decode_range (hk : k < 4) {b : UInt8}
    (hrange : first k ≤ b.toNat ∧ b.toNat < first (k + 1)) (tail : List UInt8) (n : ℕ)
    (rest : List UInt8) : utf8Decode (b :: tail) = some (some (n, rest)) ↔
      limits.getD k 0 < n ∧ Scalar n ∧ n / 64 ^ k = b.toNat - first k ∧
        tail = tailBytes k n ++ rest := by
  obtain ⟨hset, hstop, -⟩ := lead_bits k hk b.toNat b.toNat_lt hrange
  have hascii : ¬ b.toNat < 0x80 := by
    have hfirst : ∀ k < 4, 0x80 ≤ first k := by decide
    exact not_lt.mpr ((hfirst k hk).trans hrange.1)
  have hpos : 0 < 64 ^ k := Nat.pow_pos (by decide)
  have hres : (0 + 1) * 64 ^ k ≤ 2 ^ 32 := by
    rw [Nat.zero_add, Nat.one_mul]
    exact (Nat.pow_le_pow_right (by decide) (Nat.le_of_lt_succ hk)).trans (by decide)
  have hrun := continuation_iff hset hstop hres 0 tail
  rw [utf8Decode]
  simp only [if_neg hascii, Option.map_eq_some_iff]
  constructor
  · rintro ⟨r, hr, hcheck⟩
    obtain ⟨s, rfl, hs⟩ := Option.bind_eq_some_iff.mp hcheck
    obtain ⟨m, rest', rfl, hm, rfl⟩ := (hrun s).mp hr
    rw [Nat.zero_add] at hs
    have hlt : m < 64 ^ k := (Nat.div_eq_zero_iff_lt hpos).mp hm
    obtain ⟨rfl, rfl, hlimit, hscalar⟩ := (check_eq hk b.toNat_lt hrange hlt _ _ _).mp hs
    refine ⟨hlimit, hscalar, ?_, ?_⟩
    · rw [Nat.add_comm, Nat.add_mul_div_right _ _ hpos, Nat.div_eq_of_lt hlt, Nat.zero_add]
    · rw [tailBytes_add _ _ _ hlt]
  · rintro ⟨hlimit, hscalar, htop, rfl⟩
    have hlt : n % 64 ^ k < 64 ^ k := Nat.mod_lt _ hpos
    refine ⟨some ⟨b.toNat <<< k, n % 64 ^ k, 0 + k, rest⟩, (hrun _).mpr ?_, ?_⟩
    · exact ⟨n % 64 ^ k, rest, by rw [tailBytes_mod], Nat.div_eq_of_lt hlt, rfl⟩
    · rw [Option.bind_some, Nat.zero_add, check_eq hk b.toNat_lt hrange hlt]
      refine ⟨?_, rfl, hlimit, hscalar⟩
      rw [← htop, Nat.mul_comm, Nat.div_add_mod]

theorem lead_lt (h : Scalar n) : lead n < 0xF5 := by
  unfold Scalar at h
  unfold lead
  split_ifs <;> omega

/-- The least number of a length, and its first bits, are those of one first byte. -/
theorem lead_iff {b : ℕ} (hk : k < 4) (hrange : first k ≤ b ∧ b < first (k + 1)) :
    limits.getD k 0 < n ∧ n / 64 ^ k = b - first k ↔ b = lead n := by
  unfold lead
  obtain rfl | rfl | rfl | rfl : k = 0 ∨ k = 1 ∨ k = 2 ∨ k = 3 := by omega
  all_goals
    simp only [limits, first, List.getD_cons_zero, List.getD_cons_succ] at hrange ⊢
    split_ifs <;> omega

theorem tails_eq (hk : k < 4) (hrange : first k ≤ lead n ∧ lead n < first (k + 1)) :
    tails n = k := by
  unfold lead at hrange
  unfold tails
  obtain rfl | rfl | rfl | rfl : k = 0 ∨ k = 1 ∨ k = 2 ∨ k = 3 := by omega
  all_goals
    simp only [first] at hrange
    split_ifs at hrange ⊢ <;> omega

theorem set_bits : ∀ n < 256, 0xF8 ≤ n → ∀ i < 4, (n <<< i) &&& 0x40 ≠ 0 := by decide +kernel

/-- Longer sequences than those of characters are read, but not accepted. -/
theorem utf8Decode_long {b : UInt8} (hb : 0xF8 ≤ b.toNat) (tail : List UInt8)
    (r : ℕ × List UInt8) : utf8Decode (b :: tail) ≠ some (some r) := by
  intro h
  have hascii : ¬ b.toNat < 0x80 := by omega
  rw [utf8Decode] at h
  simp only [if_neg hascii, Option.map_eq_some_iff] at h
  obtain ⟨q, hq, hcheck⟩ := h
  obtain ⟨s, rfl, hs⟩ := Option.bind_eq_some_iff.mp hcheck
  have hcount := le_continuation (set_bits b.toNat b.toNat_lt hb) hq
  unfold Sequence.check at hs
  rw [if_pos (.inl (by omega))] at hs
  exact absurd hs (by simp)

theorem utf8Decode_iff (memory : List UInt8) (n : ℕ) (rest : List UInt8) :
    utf8Decode memory = some (some (n, rest)) ↔
      Scalar n ∧ memory = UInt8.ofNat (lead n) :: tailBytes (tails n) n ++ rest := by
  cases memory with
  | nil => exact iff_of_false (by simp [utf8Decode]) fun h => absurd h.2 (by simp)
  | cons b tail =>
    have hcons : b :: tail = UInt8.ofNat (lead n) :: tailBytes (tails n) n ++ rest ↔
        b = UInt8.ofNat (lead n) ∧ tail = tailBytes (tails n) n ++ rest := by
      rw [List.cons_append, List.cons.injEq]
    rw [hcons]
    have hb := b.toNat_lt
    have hbyte (h : Scalar n) : b = UInt8.ofNat (lead n) ↔ b.toNat = lead n := by
      have hlead := lead_lt h
      rw [← UInt8.toNat_inj, UInt8.toNat_ofNat', Nat.mod_eq_of_lt (by omega)]
    by_cases hascii : b.toNat < 0x80
    · rw [utf8Decode]
      simp only [if_pos hascii, Option.some_inj, Prod.mk.injEq]
      constructor
      · rintro ⟨rfl, rfl⟩
        have hs : Scalar b.toNat := .inl (by omega)
        rw [hbyte hs, lead, if_pos hascii, tails, if_pos hascii]
        exact ⟨hs, rfl, rfl⟩
      · rintro ⟨hs, hlead, rfl⟩
        rw [hbyte hs] at hlead
        have hn : n < 0x80 := by
          unfold lead at hlead
          split_ifs at hlead <;> omega
        rw [lead, if_pos hn] at hlead
        rw [tails, if_pos hn]
        exact ⟨hlead, rfl⟩
    · by_cases hlong : 0xF8 ≤ b.toNat
      · refine iff_of_false (utf8Decode_long hlong tail _) ?_
        rintro ⟨hs, hlead, -⟩
        rw [hbyte hs] at hlead
        have := lead_lt hs
        omega
      · obtain ⟨k, hk, hrange⟩ : ∃ k < 4, first k ≤ b.toNat ∧ b.toNat < first (k + 1) := by
          simp only [first]
          rcases Nat.lt_or_ge b.toNat 0xC0 with h | h
          · exact ⟨0, by decide, by omega, by omega⟩
          rcases Nat.lt_or_ge b.toNat 0xE0 with h' | h'
          · exact ⟨1, by decide, by omega, by omega⟩
          rcases Nat.lt_or_ge b.toNat 0xF0 with h'' | h''
          · exact ⟨2, by decide, by omega, by omega⟩
          · exact ⟨3, by decide, by omega, by omega⟩
        rw [utf8Decode_range hk hrange]
        constructor
        · rintro ⟨hlimit, hs, htop, htail⟩
          have hlead := (lead_iff hk hrange).mp ⟨hlimit, htop⟩
          rw [hbyte hs, tails_eq hk (hlead ▸ hrange)]
          exact ⟨hs, hlead, htail⟩
        · rintro ⟨hs, hlead, htail⟩
          rw [hbyte hs] at hlead
          rw [tails_eq hk (hlead ▸ hrange)] at htail
          obtain ⟨hlimit, htop⟩ := (lead_iff hk hrange).mpr hlead
          exact ⟨hlimit, hs, htop, htail⟩

theorem utf8Decode_eq_iff (memory : List UInt8) (n : ℕ) (rest : List UInt8) :
    utf8Decode memory = some (some (n, rest)) ↔
      ∃ c : Char, c.toNat = n ∧ memory = String.utf8EncodeChar c ++ rest := by
  rw [utf8Decode_iff]
  constructor
  · rintro ⟨hs, rfl⟩
    refine ⟨Char.ofNat n, toNat_ofNat hs, ?_⟩
    rw [utf8EncodeChar_eq, toNat_ofNat hs]
  · rintro ⟨c, rfl, rfl⟩
    rw [utf8EncodeChar_eq]
    exact ⟨toNat_scalar c, rfl⟩

theorem utf8Decode_isSome {memory : List UInt8} (h : 0 ∈ memory) : utf8Decode memory ≠ none := by
  cases memory with
  | nil => exact absurd h List.not_mem_nil
  | cons b tail =>
    rw [utf8Decode]
    split
    · exact Option.some_ne_none _
    · next hascii =>
        have htail : 0 ∈ tail := by
          rcases List.mem_cons.mp h with rfl | h
          · exact absurd (by decide) hascii
          · exact h
        rw [Ne, Option.map_eq_none_iff]
        exact continuation_isSome htail _ _ _

/-! ## Checking a string -/

/-- Only the character NUL has the byte NUL, and it is this byte. -/
theorem zero_mem_utf8EncodeChar {c : Char} (h : 0 ∈ String.utf8EncodeChar c) :
    String.utf8EncodeChar c = [0] := by
  have htail (k n : ℕ) : 0 ∉ tailBytes k n := by
    induction k with
    | zero => exact List.not_mem_nil
    | succ k ih =>
      rw [tailBytes, List.mem_cons, not_or]
      refine ⟨fun h0 => ?_, ih⟩
      have hbyte := congrArg UInt8.toNat h0
      rw [UInt8.toNat_ofNat', Nat.mod_eq_of_lt (by omega)] at hbyte
      change 0 = _ at hbyte
      omega
  have hlt := lead_lt (toNat_scalar c)
  rw [utf8EncodeChar_eq] at h ⊢
  have hlead := congrArg UInt8.toNat ((List.mem_cons.mp h).resolve_right (htail _ _))
  rw [UInt8.toNat_ofNat', Nat.mod_eq_of_lt (by omega)] at hlead
  have hzero : c.toNat = 0 := by
    unfold lead at hlead
    change 0 = _ at hlead
    split_ifs at hlead <;> omega
  rw [hzero]
  rfl

/-- A string is decoded up to its end, or to the NUL behind it. -/
theorem rest_eq {c : Char} {s : List UInt8} (h : s ++ [0] = String.utf8EncodeChar c ++ rest) :
    (s = [] ∧ String.utf8EncodeChar c = [0] ∧ rest = []) ∨
      ∃ tail, s = String.utf8EncodeChar c ++ tail ∧ rest = tail ++ [0] := by
  rcases List.eq_nil_or_concat rest with rfl | ⟨tail, b, rfl⟩
  · rw [List.append_nil] at h
    have hzero := zero_mem_utf8EncodeChar (c := c) (by rw [← h]; simp)
    rw [hzero] at h
    exact .inl ⟨@List.append_cancel_right _ s _ [] h, hzero, rfl⟩
  · rw [List.concat_eq_append, ← List.append_assoc] at h
    obtain ⟨hs, hb⟩ := List.append_inj' h rfl
    exact .inr ⟨tail, hs, by rw [List.concat_eq_append, hb]⟩

theorem checkFrom_nil : checkFrom [] = some true := by
  rw [checkFrom, if_pos rfl]

theorem checkFrom_encode (c : Char) (rest : List UInt8) :
    checkFrom (String.utf8EncodeChar c ++ rest) = checkFrom rest := by
  have hdecode := (utf8Decode_eq_iff _ _ rest).mpr ⟨c, rfl, rfl⟩
  rw [checkFrom, if_neg]
  · split
    · next h => rw [hdecode] at h; exact absurd h (by simp)
    · next h => rw [hdecode] at h; exact absurd h (by simp)
    · next h =>
        rw [hdecode] at h
        obtain ⟨rfl, rfl⟩ := Prod.mk.inj (Option.some.inj (Option.some.inj h))
        rfl
  · rw [utf8EncodeChar_eq]
    simp

theorem checkFrom_of_invalid {memory : List UInt8} (h : utf8Decode memory = some none) :
    checkFrom memory = some false := by
  have hne : memory ≠ [] := fun hnil => by rw [hnil] at h; exact absurd h (by simp [utf8Decode])
  rw [checkFrom, if_neg hne]
  split
  · next h' => rw [h] at h'; exact absurd h' (by simp)
  · rfl
  · next h' => rw [h] at h'; exact absurd h' (by simp)

theorem wellFormed_cons (c : Char) (s : List UInt8) :
    WellFormed (String.utf8EncodeChar c ++ s) ↔ WellFormed s := by
  have hdecode := (utf8Decode_eq_iff _ _ s).mpr ⟨c, rfl, rfl⟩
  constructor
  · rintro ⟨cs, hcs⟩
    rw [hcs] at hdecode
    cases cs with
    | nil => exact absurd hdecode (by simp [utf8Decode])
    | cons d ds =>
      have hfirst := (utf8Decode_eq_iff _ _ (ds.flatMap String.utf8EncodeChar)).mpr ⟨d, rfl, rfl⟩
      rw [List.flatMap_cons, hfirst] at hdecode
      exact ⟨ds, (Prod.mk.inj (Option.some.inj (Option.some.inj hdecode))).2.symm⟩
  · rintro ⟨cs, rfl⟩
    exact ⟨c :: cs, List.flatMap_cons.symm⟩

/-- The check of a string reads nothing behind its NUL, and accepts what is well-formed. -/
theorem checkFrom_eq (s : List UInt8) :
    ∃ valid : Bool, checkFrom (s ++ [0]) = some valid ∧ (valid = true ↔ WellFormed s) := by
  induction hn : s.length using Nat.strong_induction_on generalizing s with
  | h n ih =>
    cases hdecode : utf8Decode (s ++ [0]) with
    | none => exact absurd hdecode (utf8Decode_isSome (by simp))
    | some r =>
      cases r with
      | none =>
        refine ⟨false, checkFrom_of_invalid hdecode, iff_of_false (by decide) ?_⟩
        rintro ⟨cs, rfl⟩
        cases cs with
        | nil => exact absurd hdecode (by decide)
        | cons c cs =>
          rw [List.flatMap_cons, List.append_assoc,
            (utf8Decode_eq_iff _ _ _).mpr ⟨c, rfl, rfl⟩] at hdecode
          exact absurd hdecode (by simp)
      | some r =>
        obtain ⟨c, hc, hmemory⟩ := (utf8Decode_eq_iff _ r.1 r.2).mp hdecode
        rcases rest_eq hmemory with ⟨rfl, hzero, hrest⟩ | ⟨tail, rfl, hrest⟩
        · refine ⟨true, ?_, iff_of_true rfl ⟨[], rfl⟩⟩
          rw [hmemory, checkFrom_encode, hrest, checkFrom_nil]
        · have hlt : tail.length < n := by
            rw [← hn, List.length_append, utf8EncodeChar_eq, List.length_cons]
            omega
          obtain ⟨valid, hvalid, hiff⟩ := ih tail.length hlt tail rfl
          refine ⟨valid, ?_, hiff.trans (wellFormed_cons c tail).symm⟩
          rw [List.append_assoc, checkFrom_encode, hvalid]

/-- What `valid` and `length` say of a string, having read nothing behind its NUL. -/
theorem valid_iff_wellFormed (s : List UInt8) :
    (∃ b, valid s = some b ∧ (b = true ↔ WellFormed s)) ∧
      ∃ r, length s = some r ∧ (r.isSome = true ↔ WellFormed s) ∧ ∀ n ∈ r, n = s.length := by
  obtain ⟨b, hcheck, hb⟩ := checkFrom_eq s
  have hlength : checkUtf8 s = some (if b then some s.length else none) := by
    rw [checkUtf8, hcheck, Option.map_some]
  have hsome : (if b then some s.length else none).isSome = b := by
    cases b with
    | false => rfl
    | true => rfl
  refine ⟨⟨b, ?_, hb⟩, _, hlength, by rw [hsome, hb], ?_⟩
  · rw [valid, hlength, Option.map_some, hsome]
  · intro n hn
    split at hn
    · exact (Option.some.inj hn).symm
    · exact absurd hn (by simp)

end Prosody.Utf8
