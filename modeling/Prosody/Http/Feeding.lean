import Prosody.Http.Parser

/-! # Rounds of the parser

A call of `feed` as a derivation, one rule for each way in which a round of the loop ends. Every round
uses up something, so that the loop ends. -/

namespace Prosody.Httpstream

/-! ## Searching -/

variable {pattern : Bytes}

theorem indexOf_eq_some_iff {s : Bytes} {i : ℕ} : indexOf pattern s = some i ↔
      i ≤ s.length ∧ pattern <+: s.drop i ∧ ∀ j < i, ¬ pattern <+: s.drop j := by
  induction s generalizing i with
  | nil =>
    unfold indexOf
    by_cases hp : pattern = []
    · subst hp
      simp only [if_true, Option.some.injEq, List.length_nil, List.nil_prefix, true_and]
      constructor
      · rintro rfl
        exact ⟨Nat.le_refl 0, fun j hj => absurd hj (Nat.not_lt_zero j)⟩
      · rintro ⟨hi, -⟩
        omega
    · simp [hp]
  | cons c s ih =>
    rw [indexOf]
    by_cases hp : pattern <+: c :: s
    · rw [if_pos hp]
      constructor
      · intro h
        obtain rfl := Option.some.inj h
        exact ⟨Nat.zero_le _, hp, fun j hj => absurd hj (Nat.not_lt_zero j)⟩
      · rintro ⟨-, -, hmin⟩
        cases i with
        | zero => rfl
        | succ i => exact absurd hp (hmin 0 (Nat.succ_pos i))
    · rw [if_neg hp]
      cases i with
      | zero =>
        constructor
        · intro h
          cases hs : indexOf pattern s <;> simp [hs] at h
        · rintro ⟨-, h, -⟩
          exact absurd h hp
      | succ i =>
        rw [Option.map_eq_some_iff]
        constructor
        · rintro ⟨j, hj, heq⟩
          obtain rfl : j = i := by omega
          obtain ⟨hlen, hat, hmin⟩ := ih.mp hj
          refine ⟨Nat.succ_le_succ hlen, hat, fun k hk => ?_⟩
          cases k with
          | zero => exact hp
          | succ k => exact hmin k (by omega)
        · rintro ⟨hlen, hat, hmin⟩
          exact ⟨i, ih.mpr ⟨Nat.le_of_succ_le_succ hlen, hat,
            fun k hk => hmin (k + 1) (by omega)⟩, rfl⟩

theorem indexOf_length {s : Bytes} {i : ℕ} (h : indexOf pattern s = some i) :
    i + pattern.length ≤ s.length := by
  obtain ⟨hlen, hat, -⟩ := indexOf_eq_some_iff.mp h
  have := hat.length_le
  rw [List.length_drop] at this
  omega

theorem indexOf_append {s : Bytes} {i : ℕ} (h : indexOf pattern s = some i) (t : Bytes) :
    indexOf pattern (s ++ t) = some i := by
  have hlen := indexOf_length h
  obtain ⟨hi, hat, hmin⟩ := indexOf_eq_some_iff.mp h
  rw [indexOf_eq_some_iff]
  refine ⟨by rw [List.length_append]; omega, ?_, fun j hj hprefix => hmin j hj ?_⟩
  · rw [List.drop_append_of_le_length hi]
    exact hat.trans (List.prefix_append _ _)
  · rw [List.drop_append_of_le_length (by omega)] at hprefix
    refine List.prefix_of_prefix_length_le hprefix (List.prefix_append _ _) ?_
    rw [List.length_drop]
    omega

theorem indexOf_of_append {s t : Bytes} {i : ℕ} (h : indexOf pattern (s ++ t) = some i)
    (hlen : i + pattern.length ≤ s.length) : indexOf pattern s = some i := by
  obtain ⟨-, hat, hmin⟩ := indexOf_eq_some_iff.mp h
  rw [indexOf_eq_some_iff]
  refine ⟨by omega, ?_, fun j hj hprefix => hmin j hj ?_⟩
  · rw [List.drop_append_of_le_length (by omega)] at hat
    refine List.prefix_of_prefix_length_le hat (List.prefix_append _ _) ?_
    rw [List.length_drop]
    omega
  · rw [List.drop_append_of_le_length (by omega)]
    exact hprefix.trans (List.prefix_append _ _)

theorem after_length_le (s : Bytes) (n : ℤ) : (after s n).length ≤ s.length := by
  unfold after
  split
  · simp
  · split
    · exact Nat.le_refl _
    · simp

theorem stripTrailers_length_le (s : Bytes) : (stripTrailers s).length ≤ s.length := by
  unfold stripTrailers
  split
  · simp
  · exact Nat.le_refl _

/-! ## What a round uses up -/

@[simp] theorem concat_string (s : Bytes) : (Buffer.string s).concat = s := rfl

@[simp] theorem concat_insert (b : Buffer) (data : Bytes) :
    (b.insert data).concat = b.concat ++ data := by
  cases b with
  | table parts => simp [Buffer.insert, Buffer.concat]
  | string s => simp [Buffer.insert, Buffer.concat]

def weight (p : Parser) : ℕ := 2 * p.buf.concat.length + if p.state.isSome then 1 else 0

/-- The loop goes on after such a round. -/
inductive Turn.GoesOn : Turn → Parser → Prop
  | next (p : Parser) : GoesOn (.next p) p
  | success (p : Parser) (packet : Packet) : GoesOn (.call p (.success packet)) p

variable {packet : Packet} {p' : Parser}

theorem takeChunk_weight {p : Parser} {buf : Bytes} {size start : ℕ}
    (hbuf : buf ≠ []) (h : (takeChunk p packet buf size start).GoesOn p') :
    weight p' < 2 * buf.length + 1 := by
  have hpos := List.length_pos_iff.mpr hbuf
  unfold takeChunk at h
  simp only at h
  split at h
  · cases h
    have := stripTrailers_length_le buf
    simp only [weight, concat_string, Option.isSome_none]
    simp only [Bool.false_eq_true, if_false]
    omega
  · split at h
    · cases h
      simp only [weight, concat_string, List.length_drop, Option.isSome_some, if_true]
      omega
    · cases h

theorem readChunk_weight {p : Parser} (h : (readChunk p packet).GoesOn p') :
    weight p' < 2 * p.buf.concat.length + 1 := by
  unfold readChunk at h
  simp only at h
  split at h
  · cases h
  · rename_i hfound
    have hbuf : p.buf.concat ≠ [] := by
      intro hempty
      rw [hempty] at hfound
      exact hfound rfl
    split at h
    · split at h
      · exact takeChunk_weight hbuf h
      · cases h
    · split at h
      · cases h
      · exact takeChunk_weight hbuf h

theorem readBody_weight {o : Options} {p : Parser}
    (h : (readBody o p packet).GoesOn p') : weight p' < 2 * p.buf.concat.length + 1 := by
  unfold readBody at h
  split at h
  · unfold readChunked at h
    split at h
    · exact readChunk_weight h
    · split at h
      · cases h
      · split at h
        · cases h
        · exact readChunk_weight h
  · split at h
    · cases h
    · split at h
      · split at h
        · cases h
          simp [weight, Buffer.concat]
        · unfold takeBody at h
          simp only at h
          split at h
          · cases h
          · rename_i n _
            cases h
            have := after_length_le p.buf.concat n
            simp only [weight, concat_string, Option.isSome_none, Bool.false_eq_true, if_false]
            omega
      · cases h

theorem turn_weight {L : Lua} {o : Options} {p : Parser} (h : (turn L o p).GoesOn p') :
    weight p' < weight p := by
  unfold turn at h
  split at h
  · rename_i packet hstate
    have := readBody_weight h
    simpa only [weight, hstate, Option.isSome_some, if_true] using this
  · simp only at h
    split at h
    · cases h
    · rename_i i hfound
      have hlen := indexOf_length hfound
      have hfour : crlfcrlf.length = 4 := rfl
      split at h
      · cases h
      · have := readBody_weight h
        simp only [concat_string, List.length_drop] at this
        unfold weight
        unfold weight at this
        omega

/-! ## Derivations -/

section

variable {σ : Type*} {L : Lua} {o : Options} {callback : σ → Call → σ × Bool}

variable (L o callback) in
/-- What the loop leaves, and whether an error was raised. -/
inductive Loops : Parser → σ → Parser × σ × Bool → Prop
  | empty {p s} (h : p.buflen = 0) : Loops p s (p, s, false)
  | stop {p s p'} (hne : p.buflen ≠ 0) (h : turn L o p = .stop p') : Loops p s (p', s, false)
  | raise {p s p'} (hne : p.buflen ≠ 0) (h : turn L o p = .raise p') : Loops p s (p', s, true)
  | next {p s p' out} (hne : p.buflen ≠ 0) (h : turn L o p = .next p') (rest : Loops p' s out) :
      Loops p s out
  | raised {p s p' c} (hne : p.buflen ≠ 0) (h : turn L o p = .call p' c)
      (hc : (callback s c).2 = true) : Loops p s (p', (callback s c).1, true)
  | failure {p s p' reason} (hne : p.buflen ≠ 0) (h : turn L o p = .call p' (.failure reason))
      (hc : (callback s (.failure reason)).2 = false) :
      Loops p s (p', (callback s (.failure reason)).1, false)
  | success {p s p' packet out} (hne : p.buflen ≠ 0) (h : turn L o p = .call p' (.success packet))
      (hc : (callback s (.success packet)).2 = false)
      (rest : Loops p' (callback s (.success packet)).1 out) : Loops p s out

theorem loop_loops {fuel : ℕ} {p : Parser} {s : σ} {out : Parser × σ × Bool}
    (h : loop L o callback fuel p s = some out) : Loops L o callback p s out := by
  induction fuel generalizing p s with
  | zero => cases h
  | succ fuel ih =>
    rw [loop] at h
    split at h
    · rename_i hempty
      cases h
      exact .empty hempty
    · rename_i hne
      split at h
      · rename_i hturn
        cases h
        exact .stop hne hturn
      · rename_i hturn
        cases h
        exact .raise hne hturn
      · rename_i hturn
        exact .next hne hturn (ih h)
      · rename_i c hturn
        simp only at h
        split at h
        · rename_i hraised
          cases h
          exact .raised hne hturn hraised
        · rename_i hraised
          rw [Bool.not_eq_true] at hraised
          cases c with
          | success packet => exact .success hne hturn hraised (ih h)
          | failure reason =>
            cases h
            exact .failure hne hturn hraised

variable (L o callback) in
theorem loop_ends {fuel : ℕ} {p : Parser} (h : weight p < fuel) (s : σ) :
    ∃ out, loop L o callback fuel p s = some out := by
  induction fuel generalizing p s with
  | zero => exact absurd h (Nat.not_lt_zero _)
  | succ fuel ih =>
    rw [loop]
    split
    · exact ⟨_, rfl⟩
    · cases hturn : turn L o p with
      | stop p' => exact ⟨_, rfl⟩
      | raise p' => exact ⟨_, rfl⟩
      | next p' =>
        have hless : weight p' < weight p := turn_weight (by rw [hturn]; exact .next p')
        exact ih (by omega) s
      | call p' c =>
        simp only
        split
        · exact ⟨_, rfl⟩
        · cases c with
          | success packet =>
            have hless : weight p' < weight p :=
              turn_weight (by rw [hturn]; exact .success p' packet)
            exact ih (by omega) _
          | failure reason => exact ⟨_, rfl⟩

theorem weight_lt_fuel (p : Parser) : weight p < fuel p := by
  unfold weight fuel
  split <;> omega

variable (L o callback) in
theorem feed_loops {p : Parser} (herror : p.error = false) {s : σ} {data : Bytes}
    (hlimit : (insert p data).buflen ≤ o.buflimit) :
    ∃ out, feed L o callback p s data = some out ∧
      Loops L o callback (insert p data) s out := by
  obtain ⟨out, hout⟩ := loop_ends L o callback (weight_lt_fuel (insert p data)) s
  refine ⟨out, ?_, loop_loops hout⟩
  rw [feed, if_neg (by simp [herror])]
  simp only
  rw [if_neg (by omega)]
  exact hout

end

/-! ## Pieces -/

/-- The calls of the callbacks in their order. -/
def log (calls : List Call) (c : Call) : List Call × Bool := (calls ++ [c], false)

/-- A piece is fed; whether an error has been raised is remembered. -/
def feedOne (L : Lua) (o : Options) (fed : Parser × List Call × Bool) (data : Bytes) :
    Parser × List Call × Bool :=
  match feed L o log fed.1 fed.2.1 data with
  | none => fed
  | some (p, calls, raised) => (p, calls, fed.2.2 || raised)

def feedAll (L : Lua) (o : Options) (pieces : List Bytes) : Parser × List Call × Bool :=
  pieces.foldl (feedOne L o) (new, [], false)

/-- Numbers in decimal digits, and no absolute URLs. -/
def plainLua : Lua where
  tonumber s := if s ≠ [] ∧ s.all Char.isDigit then some (.int (s.foldl
    (fun n c => 10 * n + Hexadecimal.value c) 0)) else none
  urlParse _ := none

end Prosody.Httpstream
