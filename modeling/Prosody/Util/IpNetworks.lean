import Mathlib.Order.Bounds.Basic
import Prosody.Util.Ip

/-! # The networks that addresses are in (`util/ip.lua`) -/

namespace Prosody.Ip

/-! ## The specification

Addresses are compared as numbers of 128 bits, those of IPv4 as `::ffff:0:0/96` maps them. -/

def value (ip : Ip) : ℕ :=
  (if ip.proto = .IPv4 then 0xFFFF * 2 ^ 32 else 0) + Numbers.bigEndian ip.packed

/-- The first `n` of 128 bits agree. -/
def Agree (n : ℕ) (a b : Ip) : Prop := a.value / 2 ^ (128 - n) = b.value / 2 ^ (128 - n)

instance (n : ℕ) (a b : Ip) : Decidable (Agree n a b) := inferInstanceAs (Decidable (_ = _))

/-- How many of 128 bits a network fixes, by the bits it is given with. -/
def counted (net : Ip) : Option ℕ → ℕ
  | none => 128
  | some n => min 128 (if net.proto = .IPv4 then n + 96 else n)

def Within (ip net : Ip) (bits : Option ℕ) : Prop := Agree (counted net bits) ip net

instance (ip net : Ip) (bits : Option ℕ) : Decidable (Within ip net bits) :=
  inferInstanceAs (Decidable (Agree _ _ _))

def scopeOf (ip : Ip) : ℕ :=
  if ip.proto = .IPv4 then
    if Within ip loopback4 (some 8) ∨ Within ip linklocal4 (some 16) then 0x2 else 0xE
  else if Within ip loopback none ∨ Within ip linklocal (some 10) then 0x2
  else if Within ip sitelocal (some 10) then 0x5
  else if Within ip multicast (some 10) then ip.value / 2 ^ 112 % 0x10
  else 0xE

structure Policy where
  net : Ip
  bits : ℕ
  precedence : ℕ
  label : ℕ

/-- The policy table, its default row apart. -/
def policies : List Policy := [⟨loopback, 128, 50, 0⟩, ⟨sixtofour, 16, 30, 2⟩, ⟨teredo, 32, 5, 5⟩,
  ⟨uniquelocal, 7, 3, 13⟩, ⟨sitelocal, 10, 1, 11⟩, ⟨sixbone, 16, 1, 12⟩,
  ⟨defaultunicast, 96, 1, 3⟩, ⟨ipv6mapped, 96, 35, 4⟩]

def policyOf (ip : Ip) : Policy :=
  (policies.find? fun p => Within ip p.net (some p.bits)).getD ⟨defaultunicast, 0, 40, 1⟩

def Private (ip : Ip) : Prop :=
  scopeOf ip ≠ 0xE ∨ ip.proto = .IPv4 ∧ (Within ip rfc1918_8 (some 8) ∨
    Within ip rfc1918_12 (some 12) ∨ Within ip rfc1918_16 (some 16) ∨ Within ip rfc6598 (some 10))

/-- Two addresses and a length of prefixes are classified by the networks that are named. -/
structure Classified (a b : Ip) (bits : Option ℕ) : Prop where
  matching : a.matches' b bits = true ↔ Within a b bits
  common : IsGreatest {n | n ≤ 128 ∧ Agree n a b} (commonPrefixLength a b)
  scope : a.scope = scopeOf a
  isPrivate : a.isPrivate = true ↔ Private a
  label : a.label = (policyOf a).label
  precedence : a.precedence = (policyOf a).precedence

/-! ## Bits and numbers -/

theorem hex2bits_byte (b : UInt8) :
    hex2bits (b.toNat / 16) ++ hex2bits (b.toNat % 16) = Bits.toBits 8 b.toNat := by
  have hlt := b.toNat_lt
  apply Bits.ofBits_inj
  · rw [List.length_append, hex2bits, hex2bits, Bits.length_toBits, Bits.length_toBits,
      Bits.length_toBits]
  · rw [Bits.ofBits_append, hex2bits, hex2bits, Bits.ofBits_toBits (by omega),
      Bits.ofBits_toBits (by omega), Bits.ofBits_toBits hlt, Bits.length_toBits]
    omega

theorem bits_eq (ip : Ip) : ip.bits = Bits.ofBytes ip.packed := by
  unfold bits Bits.ofBytes
  exact congrArg (List.flatMap · ip.packed) (funext hex2bits_byte)

variable {ip : Ip}

theorem length_v4 (h : ip.proto = .IPv4) : ip.packed.length = 4 := by
  have hl := ip.length
  rw [h] at hl
  exact hl

theorem length_v6 (h : ip.proto = .IPv6) : ip.packed.length = 16 := by
  have hl := ip.length
  rw [h] at hl
  exact hl

theorem proto_v6 (h : ip.proto ≠ .IPv4) : ip.proto = .IPv6 := by
  cases hp : ip.proto with
  | IPv4 => exact absurd hp h
  | IPv6 => rfl

theorem toV4mapped_packed (h : ip.proto = .IPv4) :
    ip.toV4mapped.packed = List.replicate 10 0 ++ [255, 255] ++ ip.packed := by
  obtain ⟨proto, packed, length⟩ := ip
  cases h
  rfl

@[simp] theorem toV4mapped_proto (ip : Ip) : ip.toV4mapped.proto = .IPv6 := by
  obtain ⟨proto, packed, length⟩ := ip
  cases proto with
  | IPv4 => rfl
  | IPv6 => rfl

/-- The bits that stand before those of an address in its 128-bit form. -/
def mapping : Proto → List Bool
  | .IPv4 => Bits.ofBytes (List.replicate 10 0 ++ [255, 255])
  | .IPv6 => []

theorem toV4mapped_bits (h : ip.proto = .IPv4) : ip.toV4mapped.bits = mapping .IPv4 ++ ip.bits := by
  rw [bits_eq, bits_eq, toV4mapped_packed h, mapping, Bits.ofBytes, List.flatMap_append]
  rfl

theorem bitsFull_eq (ip : Ip) : ip.bitsFull = mapping ip.proto ++ ip.bits := by
  cases h : ip.proto with
  | IPv4 => rw [bitsFull, if_pos h, toV4mapped_bits h]
  | IPv6 => rw [bitsFull, if_neg (by rw [h]; decide), mapping, List.nil_append]

theorem length_mapping : (mapping .IPv4).length = 96 := rfl

theorem length_bits (ip : Ip) : ip.bits.length = 8 * ip.packed.length := by
  rw [bits_eq, Bits.length_ofBytes]

theorem length_bitsFull (ip : Ip) : ip.bitsFull.length = 128 := by
  rw [bitsFull_eq, List.length_append, length_bits]
  cases h : ip.proto with
  | IPv4 => rw [length_v4 h, length_mapping]
  | IPv6 => rw [length_v6 h]; rfl

theorem ofBits_bitsFull (ip : Ip) : Bits.ofBits ip.bitsFull = ip.value := by
  rw [bitsFull_eq, Bits.ofBits_append, length_bits, bits_eq, Bits.ofBits_ofBytes, value]
  cases h : ip.proto with
  | IPv4 =>
    rw [length_v4 h, if_pos rfl, mapping, Bits.ofBits_ofBytes]
    rfl
  | IPv6 =>
    rw [if_neg (by decide)]
    exact congrArg (· + _) (Nat.zero_mul _)

theorem agree_iff (n : ℕ) (a b : Ip) :
    Agree n a b ↔ a.bitsFull.take n = b.bitsFull.take n := by
  rw [Bits.take_eq_take_iff ((length_bitsFull a).trans (length_bitsFull b).symm),
    ofBits_bitsFull, ofBits_bitsFull, length_bitsFull, Agree]

variable {a b : Ip}

theorem Agree.mono {m n : ℕ} (h : Agree n a b) (hle : m ≤ n) : Agree m a b := by
  rw [agree_iff] at h ⊢
  rw [← Nat.min_eq_left hle, ← List.take_take, h, List.take_take]

/-! ## Matches -/

theorem packed_eq_iff (a b : Ip) : a.packed = b.packed ↔ a.proto = b.proto ∧ Agree 128 a b := by
  constructor
  · intro h
    have hproto : a.proto = b.proto := by
      have ha := a.length
      have hb := b.length
      rw [← h] at hb
      cases hpa : a.proto with
      | IPv4 =>
        cases hpb : b.proto with
        | IPv4 => rfl
        | IPv6 => rw [hpa] at ha; rw [hpb] at hb; exact absurd (ha.symm.trans hb) (by decide)
      | IPv6 =>
        cases hpb : b.proto with
        | IPv6 => rfl
        | IPv4 => rw [hpa] at ha; rw [hpb] at hb; exact absurd (ha.symm.trans hb) (by decide)
    refine ⟨hproto, ?_⟩
    rw [Agree, value, value, hproto, h]
  · rintro ⟨hproto, h⟩
    have hlength : a.packed.length = b.packed.length := by
      cases hp : b.proto with
      | IPv4 => rw [length_v4 hp, length_v4 (hproto.trans hp)]
      | IPv6 => rw [length_v6 hp, length_v6 (hproto.trans hp)]
    rw [Agree, Nat.sub_self, pow_zero, Nat.div_one, Nat.div_one, value, value, hproto] at h
    exact Numbers.bigEndian_inj hlength (Nat.add_left_cancel h)

theorem full_iff (b : Ip) (bits : Option ℕ) :
    counted b bits = 128 ↔ ∀ n ∈ bits, n ≥ 128 ∨ b.proto = .IPv4 ∧ n ≥ 32 := by
  cases bits with
  | none => exact ⟨fun _ n h => absurd h (by simp), fun _ => rfl⟩
  | some n =>
    rw [counted]
    constructor
    · intro h m hm
      obtain rfl := Option.some.inj hm
      split at h
      · next hp => exact .inr ⟨hp, by omega⟩
      · exact .inl (by omega)
    · intro h
      rcases h n rfl with h | ⟨hp, h⟩
      · split <;> omega
      · rw [if_pos hp]
        omega

/-- What the matches of prefixes compare. -/
theorem take_mapping (a b : Ip) (n : ℕ) (ha : a.proto = .IPv4) (hb : b.proto = .IPv4) :
    a.bits.take n = b.bits.take n ↔ Agree (n + 96) a b := by
  rw [agree_iff, bitsFull_eq, bitsFull_eq, ha, hb, Nat.add_comm, ← length_mapping,
    List.take_length_add_append, List.take_length_add_append]
  exact (List.append_cancel_left_eq _ _ _).symm.to_iff

theorem matches'_iff (a b : Ip) (bits : Option ℕ) : a.matches' b bits = true ↔
    if counted b bits = 128 then a.proto = b.proto ∧ Agree 128 a b
    else bits = some 0 ∨ Within a b bits := by
  by_cases hfull : counted b bits = 128
  · rw [if_pos hfull, ← packed_eq_iff]
    rw [full_iff] at hfull
    cases bits with
    | none => exact decide_eq_true_iff
    | some n => rw [matches', if_pos (hfull n rfl), decide_eq_true_iff]
  · rw [if_neg hfull]
    rw [full_iff] at hfull
    cases bits with
    | none => exact absurd (fun n h => absurd h (by simp)) hfull
    | some n =>
      have hn : ¬ (n ≥ 128 ∨ b.proto = .IPv4 ∧ n ≥ 32) := fun h =>
        hfull fun m hm => Option.some.inj hm ▸ h
      rw [matches', if_neg hn]
      by_cases hzero : n < 1
      · rw [if_pos hzero]
        exact iff_of_true rfl (.inl (by rw [Nat.lt_one_iff.mp hzero]))
      · rw [if_neg hzero, or_iff_right (fun h => hzero (by rw [Option.some.inj h]; decide)),
          Within, counted]
        by_cases hb : b.proto = .IPv4
        · have hlt : n < 32 := Nat.lt_of_not_le fun h => hn (.inr ⟨hb, h⟩)
          rw [if_pos hb, Nat.min_eq_right (by omega)]
          by_cases ha : a.proto = .IPv4
          · rw [if_neg (not_not.mpr (ha.trans hb.symm)), decide_eq_true_iff]
            exact take_mapping a b n ha hb
          · rw [if_pos fun h => ha (h.trans hb), if_neg ha, decide_eq_true_iff, agree_iff,
              bitsFull, bitsFull, if_neg ha, if_pos hb]
        · have hlt : n < 128 := Nat.lt_of_not_le fun h => hn (.inl h)
          rw [if_neg hb, Nat.min_eq_right (by omega), agree_iff, bitsFull, bitsFull, if_neg hb]
          by_cases ha : a.proto = .IPv4
          · rw [if_pos fun h => hb (h.symm.trans ha), if_pos ha, if_pos ha, decide_eq_true_iff]
          · rw [if_neg (not_not.mpr ((proto_v6 ha).trans (proto_v6 hb).symm)), if_neg ha,
              decide_eq_true_iff]

/-- Two addresses that a match compares as the numbers they are. -/
structure Comparable (a b : Ip) (bits : Option ℕ) : Prop where
  full : counted b bits = 128 → Agree 128 a b → a.proto = b.proto
  empty : bits = some 0 → b.proto = .IPv4 → Agree 96 a b

theorem Comparable.of_proto (h : a.proto = b.proto) (bits : Option ℕ) : Comparable a b bits := by
  refine ⟨fun _ _ => h, fun _ hb => ?_⟩
  have hzero := take_mapping a b 0 (h.trans hb) hb
  rw [Nat.zero_add] at hzero
  exact hzero.mp rfl

theorem matches'_iff_within (a b : Ip) (bits : Option ℕ) :
    (a.matches' b bits = true ↔ Within a b bits) ↔ Comparable a b bits := by
  rw [matches'_iff]
  by_cases hfull : counted b bits = 128
  · have hempty : bits = some 0 → b.proto = .IPv4 → Agree 96 a b := by
      rintro rfl hb
      rw [counted, if_pos hb] at hfull
      exact absurd hfull (by decide)
    rw [if_pos hfull, Within, hfull]
    constructor
    · exact fun h => ⟨fun _ hagree => (h.mpr hagree).1, hempty⟩
    · exact fun h => ⟨And.right, fun hagree => ⟨h.full hfull hagree, hagree⟩⟩
  · rw [if_neg hfull]
    constructor
    · intro h
      refine ⟨fun hf => absurd hf hfull, fun hzero hb => ?_⟩
      have hwithin := h.mp (.inl hzero)
      rw [Within, hzero, counted, if_pos hb] at hwithin
      exact hwithin
    · intro h
      refine ⟨fun hm => hm.elim (fun hzero => ?_) id, .inr⟩
      rw [Within, hzero, counted]
      by_cases hb : b.proto = .IPv4
      · rw [if_pos hb]
        exact h.empty hzero hb
      · rw [if_neg hb, agree_iff]
        rfl

theorem matches'_eq (h : a.proto = b.proto) (bits : Option ℕ) :
    a.matches' b bits = true ↔ Within a b bits :=
  (matches'_iff_within a b bits).mpr (Comparable.of_proto h bits)

/-! ## Common prefixes -/

theorem agree_iff_getElem (n : ℕ) (a b : Ip) :
    Agree n a b ↔ ∀ i < n, a.bitsFull[i]? = b.bitsFull[i]? := by
  rw [agree_iff]
  constructor
  · intro h i hi
    have heq := congrArg (fun l : List Bool => l[i]?) h
    beta_reduce at heq
    rwa [List.getElem?_take, List.getElem?_take, if_pos hi, if_pos hi] at heq
  · intro h
    apply List.ext_getElem?
    intro i
    rw [List.getElem?_take, List.getElem?_take]
    by_cases hi : i < n
    · rw [if_pos hi, if_pos hi, h i hi]
    · rw [if_neg hi, if_neg hi]

theorem commonPrefixLength_greatest (a b : Ip) :
    IsGreatest {n | n ≤ 128 ∧ Agree n a b} (commonPrefixLength a b) := by
  rw [commonPrefixLength]
  cases h : (List.range 128).find? fun i => decide (a.bitsFull[i]? ≠ b.bitsFull[i]?) with
  | none =>
    have hall : ∀ i < 128, a.bitsFull[i]? = b.bitsFull[i]? := fun i hi =>
      not_not.mp (of_decide_eq_false
        (Bool.eq_false_iff.mpr (List.find?_eq_none.mp h i (List.mem_range.mpr hi))))
    exact ⟨⟨Nat.le_refl _, (agree_iff_getElem _ _ _).mpr hall⟩, fun n hn => hn.1⟩
  | some k =>
    obtain ⟨hdiffer, hmem, hbefore⟩ := List.find?_range_eq_some.mp h
    have hagree : Agree k a b := (agree_iff_getElem _ _ _).mpr fun i hi =>
      not_not.mp (of_decide_eq_false (by simpa using hbefore i hi))
    refine ⟨⟨(List.mem_range.mp hmem).le, hagree⟩, fun n hn => ?_⟩
    refine Nat.le_of_not_lt fun hlt => ?_
    exact of_decide_eq_true hdiffer ((agree_iff_getElem _ _ _).mp hn.2 k hlt)

/-! ## Classes -/

theorem value_toV4mapped (h : ip.proto = .IPv4) : ip.toV4mapped.value = ip.value := by
  rw [← ofBits_bitsFull, ← ofBits_bitsFull, bitsFull, bitsFull, if_pos h,
    if_neg (by rw [toV4mapped_proto]; decide)]

theorem policyOf_toV4mapped (h : ip.proto = .IPv4) : policyOf ip.toV4mapped = policyOf ip := by
  have hrow : (fun p : Policy => decide (Within ip.toV4mapped p.net (some p.bits))) =
      fun p => decide (Within ip p.net (some p.bits)) := funext fun p => by
    rw [decide_eq_decide, Within, Within, Agree, Agree, value_toV4mapped h]
  rw [policyOf, policyOf, hrow]

/-- An address of IPv6 is only another name of the loopback. -/
theorem packed_eq_loopback (h : ip.proto = .IPv6) :
    ip.packed = loopback.packed ↔ Within ip loopback none := by
  rw [packed_eq_iff, and_iff_right (h.trans rfl : ip.proto = loopback.proto)]
  rfl

theorem getD_find?_cons (f : Policy → Bool) (p default : Policy) (l : List Policy) :
    ((p :: l).find? f).getD default = if f p then p else (l.find? f).getD default := by
  rw [List.find?_cons]
  cases f p with
  | true => rfl
  | false => rfl

/-- Both chains of matches read one column of the policy table. -/
theorem column_policyOf (h : ip.proto = .IPv6) (column : Policy → ℕ) : column (policyOf ip) =
      if ip.packed = loopback.packed then column ⟨loopback, 128, 50, 0⟩
      else if ip.matches' sixtofour (some 16) then column ⟨sixtofour, 16, 30, 2⟩
      else if ip.matches' teredo (some 32) then column ⟨teredo, 32, 5, 5⟩
      else if ip.matches' uniquelocal (some 7) then column ⟨uniquelocal, 7, 3, 13⟩
      else if ip.matches' sitelocal (some 10) then column ⟨sitelocal, 10, 1, 11⟩
      else if ip.matches' sixbone (some 16) then column ⟨sixbone, 16, 1, 12⟩
      else if ip.matches' defaultunicast (some 96) then column ⟨defaultunicast, 96, 1, 3⟩
      else if ip.matches' ipv6mapped (some 96) then column ⟨ipv6mapped, 96, 35, 4⟩
      else column ⟨defaultunicast, 0, 40, 1⟩ := by
  have hm (net : Ip) (hnet : net.proto = .IPv6) (n : ℕ) :
      ip.matches' net (some n) = true ↔ Within ip net (some n) := matches'_eq (h.trans hnet.symm) _
  have hloopback : Within ip loopback none ↔ Within ip loopback (some 128) := Iff.rfl
  simp only [policyOf, policies, getD_find?_cons, apply_ite column, decide_eq_true_iff,
    packed_eq_loopback h, hloopback, hm sixtofour rfl, hm teredo rfl, hm uniquelocal rfl,
    hm sitelocal rfl, hm sixbone rfl, hm defaultunicast rfl, hm ipv6mapped rfl, List.find?_nil,
    Option.getD_none]

theorem label_eq (ip : Ip) : ip.label = (policyOf ip).label := by
  unfold label
  by_cases h : ip.proto = .IPv4
  · rw [if_pos h, ← policyOf_toV4mapped h]
    exact (column_policyOf (toV4mapped_proto ip) Policy.label).symm
  · rw [if_neg h]
    exact (column_policyOf (proto_v6 h) Policy.label).symm

theorem precedence_eq (ip : Ip) : ip.precedence = (policyOf ip).precedence := by
  unfold precedence
  by_cases h : ip.proto = .IPv4
  · rw [if_pos h, ← policyOf_toV4mapped h]
    exact (column_policyOf (toV4mapped_proto ip) Policy.precedence).symm
  · rw [if_neg h]
    exact (column_policyOf (proto_v6 h) Policy.precedence).symm

theorem second_byte (h : ip.proto = .IPv6) :
    (ip.packed.getD 1 0).toNat % 0x10 = ip.value / 2 ^ 112 % 0x10 := by
  have hlength := length_v6 h
  rw [value, if_neg (by rw [h]; decide), Nat.zero_add]
  obtain ⟨b, tail, hp⟩ := List.exists_cons_of_length_eq_add_one hlength
  rw [hp, List.length_cons] at hlength
  obtain ⟨c, rest, rfl⟩ := List.exists_cons_of_length_eq_add_one (Nat.succ_injective hlength)
  have hrest : rest.length = 14 := Nat.succ_injective (Nat.succ_injective hlength)
  have hlt := Numbers.bigEndian_lt rest
  rw [hp, Numbers.bigEndian_cons, Numbers.bigEndian_cons, List.length_cons, hrest]
  rw [hrest] at hlt
  change c.toNat % _ = _
  omega

theorem scope_v6 (h : ip.proto = .IPv6) : ip.scope = scopeOf ip := by
  have hm (net : Ip) (hnet : net.proto = .IPv6) (n : ℕ) :
      ip.matches' net (some n) = true ↔ Within ip net (some n) := matches'_eq (h.trans hnet.symm) _
  have hv4 : ip.proto ≠ .IPv4 := by rw [h]; decide
  rw [scope, if_neg hv4, scopeOf, if_neg hv4]
  simp only [v6scope, packed_eq_loopback h, hm linklocal rfl, hm sitelocal rfl, hm multicast rfl,
    second_byte h]
  by_cases hloopback : Within ip loopback none
  · rw [if_pos hloopback, if_pos (.inl hloopback)]
  · rw [if_neg hloopback]
    simp only [hloopback, false_or]

theorem packed_inj : a.packed = b.packed ↔ a = b := by
  constructor
  · intro h
    have hproto := ((packed_eq_iff a b).mp h).1
    obtain ⟨proto, packed, length⟩ := a
    obtain ⟨proto', packed', length'⟩ := b
    cases hproto
    cases h
    rfl
  · rintro rfl
    rfl

/-- Networks with different numbers in front are apart. -/
theorem apart {net net' : Ip} {n n' : ℕ} (h : Agree n ip net)
    (hne : ¬ Agree (min n n') net net') : ¬ Agree n' ip net' := fun h' =>
  hne ((h.mono (Nat.min_le_left n n')).symm.trans (h'.mono (Nat.min_le_right n n')))

theorem scope_v4 (h : ip.proto = .IPv4) :
    ip.scope = scopeOf ip ↔ (Within ip linklocal4 (some 16) → ip = linklocal4) := by
  have hcode : ip.scope = if Within ip loopback4 (some 8) ∨ ip = linklocal4 then 0x2 else 0xE := by
    have hnone : ip.matches' linklocal4 none = true ↔ ip = linklocal4 :=
      decide_eq_true_iff.trans packed_inj
    have hsome : ip.matches' loopback4 (some 8) = true ↔ Within ip loopback4 (some 8) :=
      matches'_eq h _
    simp only [scope, if_pos h, v4scope, hnone, hsome]
    by_cases hl : Within ip loopback4 (some 8)
    · rw [if_pos hl, if_pos (.inl hl)]
    · rw [if_neg hl]
      simp only [hl, false_or]
  rw [hcode, scopeOf, if_pos h]
  constructor
  · intro heq hwithin
    have hlow := heq.trans (if_pos (.inr hwithin))
    by_contra hne
    have hapart : ¬ Within ip loopback4 (some 8) := apart hwithin (by decide)
    rw [if_neg (by rw [not_or]; exact ⟨hapart, hne⟩)] at hlow
    exact absurd hlow (by decide)
  · intro himp
    have hiff : ip = linklocal4 ↔ Within ip linklocal4 (some 16) :=
      ⟨fun heq => heq ▸ rfl, himp⟩
    simp only [hiff]

theorem isPrivate_iff (ip : Ip) : ip.isPrivate = true ↔
    ip.scope ≠ 0xE ∨ ip.proto = .IPv4 ∧ (Within ip rfc1918_8 (some 8) ∨
      Within ip rfc1918_12 (some 12) ∨ ip = rfc1918_16 ∨ Within ip rfc6598 (some 10)) := by
  have hnone : ip.matches' rfc1918_16 none = true ↔ ip = rfc1918_16 :=
    decide_eq_true_iff.trans packed_inj
  unfold isPrivate
  by_cases hscope : ip.scope = 0xE
  · rw [or_iff_right (not_not.mpr hscope)]
    by_cases hp : ip.proto = .IPv4
    · have hm (net : Ip) (hnet : net.proto = .IPv4) (n : ℕ) :
          ip.matches' net (some n) = true ↔ Within ip net (some n) :=
        matches'_eq (hp.trans hnet.symm) _
      rw [if_pos ⟨hscope, hp⟩, and_iff_right hp, Bool.or_eq_true, Bool.or_eq_true, Bool.or_eq_true,
        hm rfc1918_8 rfl, hm rfc1918_12 rfl, hm rfc6598 rfl, hnone, or_assoc, or_assoc]
    · rw [if_neg fun h => hp h.2, decide_eq_true_iff]
      exact iff_of_false (not_not.mpr hscope) fun h => hp h.1
  · rw [if_neg fun h => hscope h.1, decide_eq_true_iff]
    exact iff_of_true hscope (.inl hscope)

/-! ## When addresses are classified -/

/-- The addresses for which the missing lengths of prefixes make no difference, and the pairs that
are compared as the numbers they are. -/
structure Classifiable (a b : Ip) (bits : Option ℕ) : Prop where
  comparable : Comparable a b bits
  linklocal : a.proto = .IPv4 → Within a linklocal4 (some 16) → a = linklocal4
  rfc1918 : a.proto = .IPv4 → Within a rfc1918_16 (some 16) → a = rfc1918_16

theorem scope_iff (a : Ip) :
    a.scope = scopeOf a ↔ (a.proto = .IPv4 → Within a linklocal4 (some 16) → a = linklocal4) := by
  by_cases h : a.proto = .IPv4
  · rw [scope_v4 h]
    exact ⟨fun hw _ => hw, fun hw => hw h⟩
  · exact iff_of_true (scope_v6 (proto_v6 h)) fun h' => absurd h' h

theorem Classified.rfc1918 {bits : Option ℕ} (hc : Classified a b bits)
    (h : a.proto = .IPv4) (hwithin : Within a rfc1918_16 (some 16)) : a = rfc1918_16 := by
  have hapart (net : Ip) (n : ℕ) (hne : ¬ Agree (min 112 n) rfc1918_16 net) : ¬ Agree n a net :=
    apart hwithin hne
  have hprivate : a.isPrivate = true :=
    hc.isPrivate.mpr (.inr ⟨h, .inr (.inr (.inl hwithin))⟩)
  rcases (isPrivate_iff a).mp hprivate with hscope | ⟨-, h8 | h12 | h16 | h10⟩
  · rw [hc.scope, scopeOf, if_pos h] at hscope
    refine absurd (if_neg ?_) hscope
    rintro (hl | hl)
    · exact hapart loopback4 104 (by decide) hl
    · exact hapart linklocal4 112 (by decide) hl
  · exact absurd h8 (hapart rfc1918_8 104 (by decide))
  · exact absurd h12 (hapart rfc1918_12 108 (by decide))
  · exact h16
  · exact absurd h10 (hapart rfc6598 106 (by decide))

theorem classified_iff (a b : Ip) (bits : Option ℕ) :
    Classified a b bits ↔ Classifiable a b bits := by
  constructor
  · intro hc
    exact ⟨(matches'_iff_within a b bits).mp hc.matching, (scope_iff a).mp hc.scope, hc.rfc1918⟩
  · intro hc
    have hscope := (scope_iff a).mpr hc.linklocal
    refine ⟨(matches'_iff_within a b bits).mpr hc.comparable, commonPrefixLength_greatest a b,
      hscope, ?_, label_eq a, precedence_eq a⟩
    rw [isPrivate_iff, hscope, Private]
    refine or_congr Iff.rfl (and_congr_right fun h => ?_)
    have hbase : a = rfc1918_16 ↔ Within a rfc1918_16 (some 16) :=
      ⟨fun heq => heq ▸ rfl, hc.rfc1918 h⟩
    rw [hbase]

/-- A host of `192.168.0.0/16` is not private to the code, and one of `169.254.0.0/16` is global. -/
theorem hosts_not_classified :
    ¬ Classified (v4 192 168 1 1) (v4 192 168 0 0) (some 16) ∧
      ¬ Classified (v4 169 254 1 1) (v4 169 254 0 0) (some 16) := by
  refine ⟨fun h => ?_, fun h => ?_⟩
  · have hprivate := h.isPrivate.mpr (.inr ⟨rfl, .inr (.inr (.inl (by decide)))⟩)
    exact absurd hprivate (by decide)
  · exact absurd h.scope (by decide)

end Prosody.Ip
