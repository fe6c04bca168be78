import Mathlib.Algebra.Group.Int.Defs
import Mathlib.Data.Nat.Find
import Prosody.Util.RingBuffer

/-! # Searching the ring buffer (`util-src/ringbuffer.c`) -/

namespace Prosody.Ringbuffer

/-! ## `find` -/

/-- A position of the array that is read, counted from the read position. -/
def readAt (b : RingBuffer) (i : ℕ) : ℕ := sizeT (b.rpos + i) % b.alen

/-- Whether the bytes from `i` on are those of the string, and the positions that are read. -/
def agree (b : RingBuffer) : ℕ → Bytes → Bool × List ℕ
  | _, [] => (true, [])
  | i, c :: s =>
    if byteAt b (readAt b i) = c then
      (agree b (i + 1) s).map id (readAt b i :: ·)
    else (false, [readAt b i])

/-- The first byte, where an empty string has its terminator, and then the others. -/
def matchAt (b : RingBuffer) (s : Bytes) (i : ℕ) : Bool × List ℕ :=
  agree b i (s.headD 0 :: s.tail)

/-- The loop over `i`, where `rest` rounds are left. -/
def scan (b : RingBuffer) (s : Bytes) : (rest i : ℕ) → Option ℕ × List ℕ
  | 0, _ => (none, [])
  | rest + 1, i =>
    if (matchAt b s i).1 then (some (sizeT (i + s.length)), (matchAt b s i).2)
    else (scan b s rest (i + 1)).map id ((matchAt b s i).2 ++ ·)

/-- What an `int` keeps of a `size_t`, as a `size_t` again. -/
def throughInt (n : ℕ) : ℕ := (((n : ℤ).bmod (2 ^ 32)) % 2 ^ 64).toNat

/-- The result, unless the loop never ends, and the positions that are read. -/
def find (b : RingBuffer) (s : Bytes) : Option ℕ × List ℕ :=
  if b.rpos = b.wpos then (some 0, [])
  else
    let bound := sizeSub b.blen s.length
    let scanned := scan b s (bound + 1) 0
    let result := match scanned.1 with
      | some m => some (throughInt m)
      | none => if bound = 2 ^ 64 - 1 then none else some 0
    (result, scanned.2)

def rbFind (b : RingBuffer) (s : Bytes) : Option Reply :=
  (find b s).1.map fun m => if 0 < m then pushinteger m else .nothing

/-- `luaL_checkinteger` makes a `size_t` of the number again. -/
def rbReaduntil (b : RingBuffer) (s : Bytes) : Option Reply × RingBuffer :=
  match (find b s).1 with
  | none => (none, b)
  | some m => if 0 < m then rbRead b m false else (some .nothing, b)

inductive Request
  | call (c : Call)
  | find (s : LuaString)
  | readuntil (s : LuaString)

def serve (b : RingBuffer) : Request → Option Reply × RingBuffer
  | .call c => step b c
  | .find s => (rbFind b s.bytes, b)
  | .readuntil s => rbReaduntil b s.bytes

/-! ## What it should find -/

/-- The string occurs in the content at offset `i`. -/
def OccursAt (content s : Bytes) (i : ℕ) : Prop := s <+: content.drop i

def FirstAt (content s : Bytes) (i : ℕ) : Prop :=
  OccursAt content s i ∧ ∀ k < i, ¬ OccursAt content s k

/-- The first occurrence is found and read, and nothing but the content is looked at. -/
structure Searched (b : RingBuffer) (s : Bytes) : Prop where
  found : ∀ i, FirstAt (content b) s i →
    rbFind b s = some (.number (i + s.length)) ∧
      (rbReaduntil b s).1 = some (.string ((content b).take (i + s.length))) ∧
      content (rbReaduntil b s).2 = (content b).drop (i + s.length)
  missing : ¬ s <:+: content b → rbFind b s = some .nothing ∧ rbReaduntil b s = (some .nothing, b)
  inside : ∀ k ∈ (find b s).2, ∃ i < b.blen, k = (b.rpos + i) % b.alen

/-- Nothing is stored, the buffer is full without the string, or the string is not longer than what
is stored and ends where an `int` can say so. -/
def Searchable (b : RingBuffer) (s : Bytes) : Prop :=
  b.blen = 0 ∨ b.blen = b.alen ∧ ¬ s <:+: content b ∨
    b.blen < b.alen ∧ s.length ≤ b.blen ∧ ∀ i, FirstAt (content b) s i → i + s.length < 2 ^ 31

section Occurrences

variable {content s : Bytes} {i : ℕ}

theorem exists_firstAt (h : s <:+: content) : ∃ i, FirstAt content s i := by
  classical
  obtain ⟨before, after, rfl⟩ := h
  have hoccurs : ∃ i, OccursAt (before ++ s ++ after) s i := by
    refine ⟨before.length, ?_⟩
    rw [OccursAt, List.append_assoc, List.drop_left]
    exact List.prefix_append s after
  exact ⟨Nat.find hoccurs, Nat.find_spec hoccurs, fun k hk => Nat.find_min hoccurs hk⟩

theorem OccursAt.isInfix (h : OccursAt content s i) : s <:+: content :=
  (List.IsPrefix.isInfix h).trans (List.drop_suffix i content).isInfix

theorem OccursAt.le_length (h : OccursAt content s i) (hs : s ≠ []) :
    i + s.length ≤ content.length := by
  have hle := h.length_le
  have hpos := List.length_pos_iff.mpr hs
  rw [List.length_drop] at hle
  omega

end Occurrences

/-! ## One round of the loop -/

section Rounds

variable {b : RingBuffer} {s : Bytes} {i k : ℕ}

theorem readAt_eq (h : Positioned b) (hi : i < 2 ^ 63) : readAt b i = (b.rpos + i) % b.alen := by
  have hrpos := h.rpos_lt
  have halen := h.alen_lt
  rw [readAt, sizeT_of_lt (by omega)]

theorem drop_content (h : Positioned b) (hi : i < b.blen) :
    (content b).drop i = byteAt b (readAt b i) :: (content b).drop (i + 1) := by
  have hblen := h.blen_le
  have halen := h.alen_lt
  have hlen : b.blen - i = b.blen - (i + 1) + 1 := by omega
  rw [content, Circular.drop_window, hlen, Circular.window_cons, readAt_eq h (by omega),
    Circular.drop_window, Nat.add_assoc]

theorem agree_iff (h : Positioned b) (hi : i + s.length ≤ b.blen) :
    (agree b i s).1 = true ↔ OccursAt (content b) s i := by
  induction s generalizing i with
  | nil => exact iff_of_true rfl List.nil_prefix
  | cons c s ih =>
    rw [List.length_cons] at hi
    rw [OccursAt, drop_content h (by omega), List.cons_prefix_cons, agree]
    by_cases hc : byteAt b (readAt b i) = c
    · rw [if_pos hc]
      exact (ih (by omega)).trans (and_iff_right hc.symm).symm
    · rw [if_neg hc]
      exact iff_of_false Bool.false_ne_true fun hboth => hc hboth.1.symm

theorem agree_read (hk : k ∈ (agree b i s).2) : ∃ j, i ≤ j ∧ j < i + s.length ∧ k = readAt b j := by
  induction s generalizing i with
  | nil => cases hk
  | cons c s ih =>
    rw [List.length_cons]
    have hhere : k = readAt b i → ∃ j, i ≤ j ∧ j < i + (s.length + 1) ∧ k = readAt b j :=
      fun heq => ⟨i, Nat.le_refl i, by omega, heq⟩
    rw [agree] at hk
    split_ifs at hk
    · obtain heq | hmem := List.mem_cons.mp hk
      · exact hhere heq
      · obtain ⟨j, hle, hlt, heq⟩ := ih hmem
        exact ⟨j, by omega, by omega, heq⟩
    · exact hhere (List.mem_singleton.mp hk)

theorem readAt_mem_matchAt : readAt b i ∈ (matchAt b s i).2 := by
  rw [matchAt, agree]
  split_ifs
  · exact List.mem_cons_self
  · exact List.mem_singleton_self _

theorem mem_agree_of_agree (hagree : (agree b i s).1 = true) {j : ℕ} (hj : j < s.length) :
    readAt b (i + j) ∈ (agree b i s).2 := by
  induction s generalizing i j with
  | nil => exact absurd hj (Nat.not_lt_zero j)
  | cons c s ih =>
    rw [agree] at hagree ⊢
    split_ifs at hagree ⊢
    · cases j with
      | zero => exact List.mem_cons_self
      | succ j =>
        have hsum : i + (j + 1) = i + 1 + j := by omega
        rw [hsum]
        exact List.mem_cons_of_mem _ (ih hagree (Nat.lt_of_succ_lt_succ hj))

theorem matchAt_eq (hs : s ≠ []) : matchAt b s i = agree b i s := by
  cases s with
  | nil => exact absurd rfl hs
  | cons c s => rfl

theorem matchAt_iff (h : Positioned b) (hs : s ≠ []) (hi : i + s.length ≤ b.blen) :
    (matchAt b s i).1 = true ↔ OccursAt (content b) s i := by
  rw [matchAt_eq hs]
  exact agree_iff h hi

end Rounds

/-! ## The loop -/

section Loop

variable {b : RingBuffer} {s : Bytes} {rest start i k : ℕ}

theorem scan_found (hle : start ≤ i) (hlt : i < start + rest) (hmatch : (matchAt b s i).1 = true)
    (hno : ∀ e, start ≤ e → e < i → ¬ (matchAt b s e).1 = true) :
    (scan b s rest start).1 = some (sizeT (i + s.length)) := by
  induction rest generalizing start with
  | zero => omega
  | succ rest ih =>
    rw [scan]
    obtain rfl | hlater := Nat.eq_or_lt_of_le hle
    · rw [if_pos hmatch]
    · rw [if_neg (hno start (Nat.le_refl start) hlater)]
      exact ih hlater (by omega) fun e he => hno e (by omega)

theorem scan_none (hno : ∀ e, start ≤ e → e < start + rest → ¬ (matchAt b s e).1 = true) :
    (scan b s rest start).1 = none := by
  induction rest generalizing start with
  | zero => rfl
  | succ rest ih =>
    rw [scan, if_neg (hno start (Nat.le_refl start) (by omega))]
    exact ih fun e he hlt => hno e (by omega) (by omega)

theorem scan_read (hk : k ∈ (scan b s rest start).2) :
    ∃ i, start ≤ i ∧ i < start + rest ∧ k ∈ (matchAt b s i).2 := by
  induction rest generalizing start with
  | zero => cases hk
  | succ rest ih =>
    have hhere : k ∈ (matchAt b s start).2 →
        ∃ i, start ≤ i ∧ i < start + (rest + 1) ∧ k ∈ (matchAt b s i).2 :=
      fun hmem => ⟨start, Nat.le_refl start, by omega, hmem⟩
    rw [scan] at hk
    split_ifs at hk
    · exact hhere hk
    · obtain hmem | hmem := List.mem_append.mp hk
      · exact hhere hmem
      · obtain ⟨i, hle, hlt, hread⟩ := ih hmem
        exact ⟨i, by omega, by omega, hread⟩

/-- The loop reads what a round does, unless an earlier one matches. -/
theorem mem_scan (hle : start ≤ i) (hlt : i < start + rest)
    (hno : ∀ e, start ≤ e → e < i → ¬ (matchAt b s e).1 = true) (hk : k ∈ (matchAt b s i).2) :
    k ∈ (scan b s rest start).2 := by
  induction rest generalizing start with
  | zero => omega
  | succ rest ih =>
    rw [scan]
    obtain rfl | hlater := Nat.eq_or_lt_of_le hle
    · split_ifs
      · exact hk
      · exact List.mem_append_left _ hk
    · rw [if_neg (hno start (Nat.le_refl start) hlater)]
      exact List.mem_append_right _ (ih hlater (by omega) fun e he => hno e (by omega))

end Loop

/-! ## A full buffer is taken for an empty one -/

section Same

variable {b : RingBuffer} {s : Bytes}

theorem rpos_eq_wpos_iff (h : Positioned b) :
    b.rpos = b.wpos ↔ b.blen = 0 ∨ b.blen = b.alen := by
  have hrpos : b.rpos % b.alen = b.rpos := Nat.mod_eq_of_lt h.rpos_lt
  have hblen := h.blen_le
  rw [h.wpos_eq]
  constructor
  · intro hsame
    by_contra hneither
    rw [not_or] at hneither
    rw [← hrpos, Nat.mod_add_mod] at hsame
    exact Circular.mod_ne (by omega) (by omega) hsame
  · rintro (hempty | hfull)
    · rw [hempty, Nat.add_zero, hrpos]
    · rw [hfull, Nat.add_mod_right, hrpos]

theorem searched_iff_of_same (hsame : b.rpos = b.wpos) : Searched b s ↔ ¬ s <:+: content b := by
  have hfind : find b s = (some 0, []) := if_pos hsame
  have hrbFind : rbFind b s = some .nothing := by
    rw [rbFind, hfind]
    rfl
  constructor
  · intro hsearched hinfix
    obtain ⟨i, hfirst⟩ := exists_firstAt hinfix
    have hfound := (hsearched.found i hfirst).1
    rw [hrbFind] at hfound
    cases hfound
  · intro hno
    refine ⟨fun i hfirst => absurd hfirst.1.isInfix hno, fun _ => ⟨hrbFind, ?_⟩, fun k hk => ?_⟩
    · rw [rbReaduntil, hfind]
      rfl
    · rw [hfind] at hk
      cases hk

end Same

/-! ## A string that is not longer than the content -/

section Short

variable {b : RingBuffer} {s : Bytes} {i p : ℕ}

theorem throughInt_of_lt (hp : p < 2 ^ 31) : throughInt p = p := by
  have hbmod : (p : ℤ).bmod (2 ^ 32) = p := Int.bmod_eq_of_le (by omega) (by omega)
  unfold throughInt
  rw [hbmod]
  omega

theorem pushinteger_throughInt : pushinteger (throughInt p) = .number ((p : ℤ).bmod (2 ^ 32)) := by
  have hlow := @Int.le_bmod p (2 ^ 32) (by omega)
  have hhigh := @Int.bmod_lt p (2 ^ 32) (by omega)
  have hnonneg : 0 ≤ (p : ℤ).bmod (2 ^ 32) % 2 ^ 64 := Int.emod_nonneg _ (by decide)
  unfold pushinteger throughInt
  rw [Int.toNat_of_nonneg hnonneg]
  refine congrArg Reply.number ?_
  generalize (p : ℤ).bmod (2 ^ 32) = v at *
  have hcast : (2 ^ 64 : ℤ) = ((2 ^ 64 : ℕ) : ℤ) := by omega
  rw [hcast, Int.emod_bmod, Int.bmod_eq_of_le] <;> omega

variable (h : Positioned b) (hs : s ≠ []) (hne : b.rpos ≠ b.wpos) (hle : s.length ≤ b.blen)
include h hs hne hle

theorem find_first (hfirst : FirstAt (content b) s i) :
    (find b s).1 = some (throughInt (i + s.length)) := by
  have hblen := h.blen_le
  have halen := h.alen_lt
  have hend : i + s.length ≤ b.blen := by
    have hlen := hfirst.1.le_length hs
    rwa [content, Circular.length_window] at hlen
  have hbound : sizeSub b.blen s.length = b.blen - s.length := sizeSub_of_le hle (by omega)
  have hmatch : (matchAt b s i).1 = true := (matchAt_iff h hs hend).mpr hfirst.1
  have hscan := @scan_found b s (sizeSub b.blen s.length + 1) 0 i (by omega) (by omega) hmatch
    fun e _ he hbefore => hfirst.2 e he ((matchAt_iff h hs (by omega)).mp hbefore)
  rw [find, if_neg hne]
  dsimp only
  rw [hscan, sizeT_of_lt (by omega)]

theorem find_missing (hno : ¬ s <:+: content b) : (find b s).1 = some 0 := by
  have hblen := h.blen_le
  have halen := h.alen_lt
  have hbound : sizeSub b.blen s.length = b.blen - s.length := sizeSub_of_le hle (by omega)
  have hscan := @scan_none b s (sizeSub b.blen s.length + 1) 0 fun e _ he hmatch =>
    hno ((matchAt_iff h hs (by omega)).mp hmatch).isInfix
  rw [find, if_neg hne]
  dsimp only
  rw [hscan]
  exact if_neg (by omega)

theorem find_inside {k : ℕ} (hk : k ∈ (find b s).2) : ∃ i < b.blen, k = (b.rpos + i) % b.alen := by
  have hblen := h.blen_le
  have halen := h.alen_lt
  have hbound : sizeSub b.blen s.length = b.blen - s.length := sizeSub_of_le hle (by omega)
  rw [find, if_neg hne] at hk
  obtain ⟨i, -, hi, hround⟩ := scan_read hk
  rw [matchAt_eq hs] at hround
  obtain ⟨j, -, hj, rfl⟩ := agree_read hround
  exact ⟨j, by omega, readAt_eq h (by omega)⟩

theorem searched_iff_of_short :
    Searched b s ↔ ∀ i, FirstAt (content b) s i → i + s.length < 2 ^ 31 := by
  have hpos := List.length_pos_iff.mpr hs
  have hholds : Holds b.alen b (content b) := ⟨h, rfl, rfl⟩
  constructor
  · intro hsearched i hfirst
    have hfound := (hsearched.found i hfirst).1
    have hhigh := @Int.bmod_lt (i + s.length : ℕ) (2 ^ 32) (by omega)
    rw [rbFind, find_first h hs hne hle hfirst, Option.map_some, pushinteger_throughInt] at hfound
    split_ifs at hfound
    · have heq := Reply.number.inj (Option.some.inj hfound)
      omega
    · cases hfound
  · intro hends
    refine ⟨fun i hfirst => ?_, fun hno => ?_, fun k => find_inside h hs hne hle⟩
    · have hlt := hends i hfirst
      have hlen := hfirst.1.le_length hs
      have hread : i + s.length ≤ b.blen := by
        rwa [content, Circular.length_window] at hlen
      have hfind := find_first h hs hne hle hfirst
      rw [throughInt_of_lt hlt] at hfind
      rw [rbFind, rbReaduntil, hfind]
      dsimp only [Option.map_some]
      rw [if_pos (by omega), if_pos (by omega), rbRead_eq hholds hread,
        pushinteger_of_lt (by omega)]
      exact ⟨rfl, rfl, (hholds.consume hread).content_eq⟩
    · have hfind := find_missing h hs hne hle hno
      rw [rbFind, rbReaduntil, hfind]
      exact ⟨rfl, rfl⟩

end Short

/-! ## A string that is longer than the content -/

section Long

variable {b : RingBuffer} {s : Bytes}

/-- The byte behind the content is always looked at: by the round that starts there, or by an
earlier one that matches. -/
theorem readAt_blen_mem_find (hs : s.length < 2 ^ 63) (hne : b.rpos ≠ b.wpos)
    (hlong : b.blen < s.length) : readAt b b.blen ∈ (find b s).2 := by
  classical
  have hbound : sizeSub b.blen s.length = b.blen + (2 ^ 64 - s.length) := by
    rw [sizeSub, sizeT_of_lt (by omega)]
  rw [find, if_neg hne]
  change _ ∈ (scan b s (sizeSub b.blen s.length + 1) 0).2
  by_cases hearly : ∃ e < b.blen, (matchAt b s e).1 = true
  · obtain ⟨hlt, hmatch⟩ := Nat.find_spec hearly
    have hleast : ∀ e < Nat.find hearly, ¬ (matchAt b s e).1 = true :=
      fun e he hbefore => Nat.find_min hearly he ⟨he.trans hlt, hbefore⟩
    have hnil : s ≠ [] := List.length_pos_iff.mp (by omega)
    generalize Nat.find hearly = e at *
    refine mem_scan (Nat.zero_le e) (by omega) (fun e' _ => hleast e') ?_
    have hbehind : b.blen = e + (b.blen - e) := by omega
    rw [matchAt_eq hnil] at hmatch ⊢
    rw [hbehind]
    exact mem_agree_of_agree hmatch (by omega)
  · refine mem_scan (Nat.zero_le b.blen) (by omega) (fun e _ he hmatch => ?_) readAt_mem_matchAt
    exact hearly ⟨e, he, hmatch⟩

theorem not_searched_of_long (h : Positioned b) (hs : s.length < 2 ^ 63) (hne : b.rpos ≠ b.wpos)
    (hlong : b.blen < s.length) : ¬ Searched b s := by
  intro hsearched
  have hblen := h.blen_le
  have halen := h.alen_lt
  have hnotfull : b.blen ≠ b.alen := fun hfull => hne ((rpos_eq_wpos_iff h).mpr (.inr hfull))
  obtain ⟨i, hi, heq⟩ := hsearched.inside _ (readAt_blen_mem_find hs hne hlong)
  rw [readAt_eq h (by omega)] at heq
  exact Circular.mod_ne (by omega) (by omega) heq.symm

end Long

/-! ## The search is right exactly where the condition holds -/

variable {b : RingBuffer}

theorem searched_iff {s : Bytes} (h : Positioned b) (hs : s ≠ [])
    (hlt : s.length < 2 ^ 63) : Searched b s ↔ Searchable b s := by
  have hsame := rpos_eq_wpos_iff h
  have hlen : (content b).length = b.blen := Circular.length_window
  have hpos := List.length_pos_iff.mpr hs
  have hblen := h.blen_le
  have hrpos := h.rpos_lt
  rw [Searchable]
  obtain hempty | hsome := Nat.eq_zero_or_pos b.blen
  · rw [searched_iff_of_same (hsame.mpr (.inl hempty))]
    refine iff_of_true (fun hinfix => ?_) (.inl hempty)
    have hle := hinfix.length_le
    omega
  · obtain hfull | hroom := Nat.eq_or_lt_of_le hblen
    · rw [searched_iff_of_same (hsame.mpr (.inr hfull))]
      constructor
      · intro hno
        exact .inr (.inl ⟨hfull, hno⟩)
      · rintro (hempty | ⟨-, hno⟩ | ⟨hlt', -⟩)
        · omega
        · exact hno
        · omega
    · have hne : b.rpos ≠ b.wpos := by
        rw [Ne, hsame]
        omega
      obtain hlong | hle := Nat.lt_or_ge b.blen s.length
      · refine iff_of_false (not_searched_of_long h hlt hne hlong) ?_
        rintro (hempty | ⟨hfull, -⟩ | ⟨-, hle, -⟩)
        · omega
        · omega
        · omega
      · rw [searched_iff_of_short h hs hne hle]
        constructor
        · intro hends
          exact .inr (.inr ⟨hroom, hle, hends⟩)
        · rintro (hempty | ⟨hfull, -⟩ | ⟨-, -, hends⟩)
          · omega
          · omega
          · exact hends

theorem Positioned.rbRead (h : Positioned b) (r : ℕ) (peek : Bool) :
    Positioned (rbRead b r peek).2 := by
  have hholds : Holds b.alen b (content b) := ⟨h, rfl, rfl⟩
  obtain hr | hr := Nat.lt_or_ge b.blen r
  · rw [Ringbuffer.rbRead, if_pos hr]
    exact h
  · rw [rbRead_eq hholds hr]
    cases peek with
    | true => exact h
    | false => exact (hholds.consume hr).toPositioned

theorem Positioned.serve (h : Positioned b) (request : Request) :
    Positioned (serve b request).2 := by
  cases request with
  | call c => exact (simulates_queue b.alen b (content b) c ⟨h, rfl, rfl⟩).2.toPositioned
  | find s => exact h
  | readuntil s =>
    change Positioned (rbReaduntil b s.bytes).2
    rw [rbReaduntil]
    cases (Ringbuffer.find b s.bytes).1 with
    | none => exact h
    | some m =>
      dsimp only
      split_ifs
      · exact h.rbRead m false
      · exact h

theorem positioned_run (h : Positioned b) (requests : List Request) :
    Positioned (Machine.run (Machine.next serve) b requests) := by
  have hstep : ∀ b request, Positioned b → Positioned (Machine.next serve b request) :=
    fun _ request hb => hb.serve request
  exact Machine.run_invariant hstep h requests

/-- In whatever state the requests leave the buffer. -/
theorem search_is_right_iff {memory : Bytes} (hpos : 0 < memory.length)
    (hlt : memory.length < 2 ^ 63) (requests : List Request) {s : LuaString} (hs : s.bytes ≠ []) :
    Searched (Machine.run (Machine.next serve) (rbNew memory) requests) s.bytes ↔
      Searchable (Machine.run (Machine.next serve) (rbNew memory) requests) s.bytes :=
  searched_iff (positioned_run (holds_rbNew hpos hlt).toPositioned requests) hs s.length_lt

def abab : LuaString := ⟨[97, 98, 97, 98], by decide⟩

/-- The `b` of a buffer with room for more. -/
theorem search_is_right_abab :
    Searched (Machine.run (Machine.next serve) (rbNew [0, 0, 0, 0, 0]) [.call (.write abab)])
      [98] := by
  refine (@search_is_right_iff [0, 0, 0, 0, 0] (by decide) (by decide) [.call (.write abab)]
    ⟨[98], by decide⟩ (by decide)).mpr (.inr (.inr ⟨by decide, by decide, fun i hi => ?_⟩))
  have hlength := hi.1.length_le
  rw [List.length_drop, show (content _).length = 4 by decide, List.length_singleton] at hlength
  show i + 1 < 2 ^ 31
  omega

/-- The first byte of a full buffer is not found, and where only a `b` is left `ba` is found, with
the byte behind it. -/
theorem full_and_stale :
    ¬ Searched (Machine.run (Machine.next serve) (rbNew [0, 0, 0, 0]) [.call (.write abab)]) [97] ∧
      ¬ Searched (Machine.run (Machine.next serve) (rbNew [0, 0, 0, 0])
        [.call (.write abab), .call (.discard ⟨3, by decide⟩)]) [98, 97] := by
  constructor
  · intro hsearched
    have hnone : ∀ k < 0, ¬ OccursAt [97, 98, 97, 98] [97] k := fun k hk =>
      absurd hk (Nat.not_lt_zero k)
    have hfound := (hsearched.found 0 ⟨⟨[98, 97, 98], rfl⟩, hnone⟩).1
    exact absurd hfound (by decide)
  · intro hsearched
    obtain ⟨hfound, -⟩ := hsearched.missing (by decide)
    exact absurd hfound (by decide +kernel)

end Prosody.Ringbuffer
