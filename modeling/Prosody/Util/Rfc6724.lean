import Mathlib.Data.Prod.Lex
import Prosody.Library.ExchangeSort
import Prosody.Util.IpNetworks

/-! # Address selection (`util/rfc6724.lua`) -/

namespace Prosody.Rfc6724

def commonPrefixLength (ipA ipB : Ip) : ℕ :=
  let len := Ip.commonPrefixLength ipA ipB
  if len < 64 then len else 64

def tSort {κ : Type} (t : List κ) (comp : κ → κ → Bool) : List κ := ExchangeSort.sort comp t

/-- The comparison of `source`. -/
def sourceComp (dest ipA ipB : Ip) : Bool :=
  -- rule 1
  if dest.packed = ipA.packed then true
  else if dest.packed = ipB.packed then false
  -- rule 2
  else if ipA.scope < ipB.scope then if ipA.scope < dest.scope then false else true
  else if ipA.scope > ipB.scope then if ipB.scope < dest.scope then true else false
  -- rule 6
  else if ipA.label = dest.label ∧ ipB.label ≠ dest.label then true
  else if ipB.label = dest.label ∧ ipA.label ≠ dest.label then false
  -- rule 8
  else if commonPrefixLength ipA dest > commonPrefixLength ipB dest then true
  else false

/-- The source of a destination if there is one, and the candidates as they are sorted then. -/
def source (dest : Ip) (candidates : List Ip) : Option Ip × List Ip :=
  let candidates := tSort candidates (sourceComp dest)
  (candidates.head?, candidates)

variable {κ : Type} [DecidableEq κ]

/-- The comparison of `destination`. Its table of sources is by the objects of addresses. -/
def destinationComp (address sourceAddrs : κ → Ip) (a b : κ) : Bool :=
  let ipA := address a
  let ipB := address b
  let ipAsource := sourceAddrs a
  let ipBsource := sourceAddrs b
  -- rule 2
  if ipA.scope = ipAsource.scope ∧ ipB.scope ≠ ipBsource.scope then true
  else if ipA.scope ≠ ipAsource.scope ∧ ipB.scope = ipBsource.scope then false
  -- rule 5
  else if ipAsource.label = ipA.label ∧ ipBsource.label ≠ ipB.label then true
  else if ipBsource.label = ipB.label ∧ ipAsource.label ≠ ipA.label then false
  -- rule 6
  else if ipA.precedence > ipB.precedence then true
  else if ipA.precedence < ipB.precedence then false
  -- rule 8
  else if ipA.scope < ipB.scope then true
  else if ipA.scope > ipB.scope then false
  -- rule 9
  else if commonPrefixLength ipA ipAsource > commonPrefixLength ipB ipBsource then true
  else if commonPrefixLength ipA ipAsource < commonPrefixLength ipB ipBsource then false
  -- rule 10
  else true

/-- The loop over the candidates. The sources stay in the order that the last one sorted them. -/
def assign (address : κ → Ip) : List κ → List Ip → (κ → Option Ip) → κ → Option Ip
  | [], _, sourceAddrs => sourceAddrs
  | ip :: candidates, sources, sourceAddrs =>
    let chosen := source (address ip) sources
    assign address candidates chosen.2 (Function.update sourceAddrs ip chosen.1)

/-- The candidates in order, unless a comparison raises because it finds no source. -/
def destination (address : κ → Ip) (candidates : List κ) (sources : List Ip) : Option (List κ) :=
  if sources = [] ∧ 2 ≤ candidates.length then none
  else
    let sourceAddrs := assign address candidates sources fun _ => none
    some (tSort candidates
      (destinationComp address fun ip => (sourceAddrs ip).getD (address ip)))

/-! ## The orders of the rules

The first of two addresses with different keys is the one that the rules prefer.
-/

/-- Scopes that reach the one wanted are better than smaller ones, and then the nearest. -/
def reach (wanted scope : ℕ) : ℕ ×ₗ ℕ :=
  if scope < wanted then toLex (1, wanted - scope) else toLex (0, scope - wanted)

/-- Zero for what is preferred. -/
def flag (p : Prop) [Decidable p] : ℕ := if p then 0 else 1

def sourceKey (dest ip : Ip) : ℕ ×ₗ (ℕ ×ₗ ℕ) ×ₗ ℕ ×ₗ ℕ :=
  toLex (flag (dest.packed = ip.packed),
    toLex (reach dest.scope ip.scope,
      toLex (flag (ip.label = dest.label), 64 - commonPrefixLength ip dest)))

def destinationKey (source ip : Ip) : ℕ ×ₗ ℕ ×ₗ ℕᵒᵈ ×ₗ ℕ ×ₗ ℕ :=
  toLex (flag (ip.scope = source.scope),
    toLex (flag (source.label = ip.label),
      toLex (OrderDual.toDual ip.precedence,
        toLex (ip.scope, 64 - commonPrefixLength ip source))))

/-- A source that no other one beats. -/
def Chosen (dest : Ip) (sources : List Ip) (s : Ip) : Prop :=
  s ∈ sources ∧ ∀ c ∈ sources, ¬ sourceKey dest c < sourceKey dest s

theorem commonPrefixLength_le (ipA ipB : Ip) : commonPrefixLength ipA ipB ≤ 64 := by
  unfold commonPrefixLength
  dsimp only
  split
  · next h => exact h.le
  · exact le_refl _

theorem commonPrefixLength_comm (ipA ipB : Ip) :
    commonPrefixLength ipA ipB = commonPrefixLength ipB ipA := by
  unfold commonPrefixLength Ip.commonPrefixLength
  simp only [ne_comm]

theorem flag_lt (p q : Prop) [Decidable p] [Decidable q] : flag p < flag q ↔ p ∧ ¬ q := by
  unfold flag
  split_ifs <;> simp [*]

theorem flag_inj (p q : Prop) [Decidable p] [Decidable q] : flag p = flag q ↔ (p ↔ q) := by
  unfold flag
  split_ifs <;> simp [*]

theorem reach_lt (d s s' : ℕ) : reach d s < reach d s' ↔ (s < s' ∧ d ≤ s) ∨ (s' < s ∧ s' < d) := by
  unfold reach
  split_ifs
  all_goals
    rw [Prod.Lex.toLex_lt_toLex]
    omega

theorem reach_inj {d s s' : ℕ} (h : reach d s = reach d s') : s = s' := by
  have hlt := h.not_lt
  have hgt := h.not_gt
  rw [reach_lt] at hlt hgt
  omega

/-- One rule: the keys behind it only matter where it does not decide. -/
theorem rule_le {α β : Type*} [LinearOrder α] [LinearOrder β] {x y : α} {p q : β} {comp : Bool}
    (hlt : x < y → comp = true) (hgt : y < x → comp = false)
    (heq : x = y → if comp then p ≤ q else q ≤ p) :
    if comp then toLex (x, p) ≤ toLex (y, q) else toLex (y, q) ≤ toLex (x, p) := by
  simp only [Prod.Lex.toLex_le_toLex]
  rcases lt_trichotomy x y with h | h | h
  · rw [if_pos (hlt h)]
    exact .inl h
  · have hrest := heq h
    by_cases hc : comp = true
    · rw [if_pos hc] at hrest ⊢
      exact .inr ⟨h, hrest⟩
    · rw [if_neg hc] at hrest ⊢
      exact .inr ⟨h.symm, hrest⟩
  · rw [if_neg (by rw [hgt h]; decide)]
    exact .inl h

theorem decide_toLex_le {α β : Type*} [LinearOrder α] [LinearOrder β] (x y : α) (p q : β) :
    decide (toLex (x, p) ≤ toLex (y, q)) =
      if x < y then true else if y < x then false else decide (p ≤ q) := by
  rw [Bool.eq_iff_iff, decide_eq_true_iff, Prod.Lex.toLex_le_toLex]
  rcases lt_trichotomy x y with h | rfl | h
  · rw [if_pos h]
    exact iff_of_true (.inl h) rfl
  · rw [if_neg (lt_irrefl _), if_neg (lt_irrefl _), decide_eq_true_iff]
    simp
  · rw [if_neg h.not_gt, if_pos h]
    refine iff_of_false ?_ (by decide)
    rintro (h' | ⟨rfl, -⟩)
    · exact h.not_gt h'
    · exact lt_irrefl _ h

theorem sourceComp_spec (dest a b : Ip) :
    if sourceComp dest a b then sourceKey dest a ≤ sourceKey dest b
    else sourceKey dest b ≤ sourceKey dest a := by
  have hla := commonPrefixLength_le a dest
  have hlb := commonPrefixLength_le b dest
  unfold sourceComp sourceKey
  refine rule_le (fun h => ?_) (fun h => ?_) fun h => ?_
  · rw [flag_lt] at h
    rw [if_pos h.1]
  · rw [flag_lt] at h
    rw [if_neg h.2, if_pos h.1]
  · rw [flag_inj] at h
    by_cases ha : dest.packed = a.packed
    · obtain rfl := Ip.packed_inj.mp (ha.symm.trans (h.mp ha))
      rw [ite_self]
    · rw [if_neg ha, if_neg fun hb => ha (h.mpr hb)]
      refine rule_le (fun h => ?_) (fun h => ?_) fun h => ?_
      · rw [reach_lt] at h
        split_ifs <;> first | rfl | omega
      · rw [reach_lt] at h
        split_ifs <;> first | rfl | omega
      · have hscope := reach_inj h
        rw [if_neg hscope.not_lt, if_neg hscope.not_gt]
        refine rule_le (fun h => ?_) (fun h => ?_) fun h => ?_
        · rw [flag_lt] at h
          rw [if_pos h]
        · rw [flag_lt] at h
          rw [if_neg fun h' => h.2 h'.1, if_pos h]
        · rw [flag_inj] at h
          have hla' : ¬ (a.label = dest.label ∧ b.label ≠ dest.label) := fun h' => h'.2 (h.mp h'.1)
          have hlb' : ¬ (b.label = dest.label ∧ a.label ≠ dest.label) := fun h' => h'.2 (h.mpr h'.1)
          rw [if_neg hla', if_neg hlb']
          split_ifs <;> first | contradiction | omega

variable {dest : Ip}

theorem sourceComp_true {a b : Ip} (h : sourceComp dest a b = true) :
    sourceKey dest a ≤ sourceKey dest b := by
  have hspec := sourceComp_spec dest a b
  rwa [if_pos h] at hspec

theorem sourceComp_false {a b : Ip} (h : sourceComp dest a b = false) :
    sourceKey dest b ≤ sourceKey dest a := by
  have hspec := sourceComp_spec dest a b
  rwa [if_neg (by rw [h]; decide)] at hspec

/-- A source of a non-empty list is one that no other beats. -/
theorem source_chosen (dest : Ip) {candidates : List Ip} (h : candidates ≠ []) :
    ∃ s, (source dest candidates).1 = some s ∧ Chosen dest candidates s := by
  obtain ⟨a, l, rfl⟩ := List.exists_cons_of_ne_nil h
  have hfirst : (source dest (a :: l)).1 = some (ExchangeSort.sweep (sourceComp dest) a l).1 := by
    rw [source, tSort, ExchangeSort.sort_cons]
    rfl
  refine ⟨_, hfirst, ?_, fun c hc => not_lt.mpr ?_⟩
  · exact (ExchangeSort.sweep_perm _ a l).subset List.mem_cons_self
  · have htrue (x y : Ip) : sourceComp dest x y = true → sourceKey dest x ≤ sourceKey dest y :=
      sourceComp_true
    have hfalse (x y : Ip) : sourceComp dest x y = false → sourceKey dest y ≤ sourceKey dest x :=
      sourceComp_false
    exact ExchangeSort.sweep_le htrue hfalse a l c hc

theorem source_perm (dest : Ip) (candidates : List Ip) :
    (source dest candidates).2.Perm candidates :=
  ExchangeSort.sort_perm _ _

theorem Chosen.perm {s : Ip} {l m : List Ip} (h : Chosen dest l s) (hperm : l.Perm m) :
    Chosen dest m s :=
  ⟨hperm.subset h.1, fun c hc => h.2 c (hperm.symm.subset hc)⟩

omit [DecidableEq κ] in
theorem destinationComp_eq (address sourceAddrs : κ → Ip) (a b : κ) :
    destinationComp address sourceAddrs a b =
      decide (destinationKey (sourceAddrs a) (address a) ≤
        destinationKey (sourceAddrs b) (address b)) := by
  have hla := commonPrefixLength_le (address a) (sourceAddrs a)
  have hlb := commonPrefixLength_le (address b) (sourceAddrs b)
  rw [destinationKey, destinationKey, decide_toLex_le, decide_toLex_le, decide_toLex_le,
    decide_toLex_le]
  simp only [flag_lt, OrderDual.toDual_lt_toDual, destinationComp]
  have hlast : (if commonPrefixLength (address a) (sourceAddrs a) >
        commonPrefixLength (address b) (sourceAddrs b) then true
      else if commonPrefixLength (address a) (sourceAddrs a) <
        commonPrefixLength (address b) (sourceAddrs b) then false else true) =
      decide (64 - commonPrefixLength (address a) (sourceAddrs a) ≤
        64 - commonPrefixLength (address b) (sourceAddrs b)) := by
    split_ifs
    · exact (decide_eq_true (by omega)).symm
    · exact (decide_eq_false (by omega)).symm
    · exact (decide_eq_true (by omega)).symm
  rw [hlast]
  simp only [and_comm, ne_eq, gt_iff_lt]

variable {sources : List Ip}

/-- The rules for destinations do not tell two chosen sources apart. -/
theorem Chosen.destinationKey_eq {s s' : Ip} (h : Chosen dest sources s)
    (h' : Chosen dest sources s') : destinationKey s dest = destinationKey s' dest := by
  have hkey : sourceKey dest s = sourceKey dest s' :=
    le_antisymm (not_lt.mp (h.2 s' h'.1)) (not_lt.mp (h'.2 s h.1))
  have hl := commonPrefixLength_le s dest
  have hl' := commonPrefixLength_le s' dest
  simp only [sourceKey, toLex_inj, Prod.mk.injEq, flag_inj] at hkey
  obtain ⟨-, hscope, hlabel, hprefix⟩ := hkey
  have hlen : commonPrefixLength dest s = commonPrefixLength dest s' := by
    rw [commonPrefixLength_comm dest, commonPrefixLength_comm dest]
    omega
  have hflag : flag (s.label = dest.label) = flag (s'.label = dest.label) :=
    (flag_inj _ _).mpr hlabel
  rw [destinationKey, destinationKey, reach_inj hscope, hflag, hlen]

/-! ## The table of sources -/

theorem assign_chosen (address : κ → Ip) (hne : sources ≠ [])
    {candidates : List κ} {sources' : List Ip} (hperm : sources'.Perm sources)
    {sourceAddrs : κ → Option Ip} {c : κ}
    (h : c ∈ candidates ∨ ∃ s, sourceAddrs c = some s ∧ Chosen (address c) sources s) :
    ∃ s, assign address candidates sources' sourceAddrs c = some s ∧
      Chosen (address c) sources s := by
  induction candidates generalizing sources' sourceAddrs with
  | nil => exact h.resolve_left (by simp)
  | cons ip candidates ih =>
    refine ih ((source_perm (address ip) sources').trans hperm) ?_
    by_cases hc : c = ip
    · rw [← hc, Function.update_self]
      have hne' : sources' ≠ [] := fun hnil => hne (List.Perm.nil_eq (hnil ▸ hperm)).symm
      obtain ⟨s, hs, hchosen⟩ := source_chosen (address c) hne'
      exact .inr ⟨s, hs, hchosen.perm hperm⟩
    · rw [Function.update_of_ne hc]
      exact h.imp_left fun hmem => (List.mem_cons.mp hmem).resolve_left hc

/-- Each candidate has a source that no other one beats. -/
def Choice (address : κ → Ip) (candidates : List κ) (sources : List Ip) (choice : κ → Ip) : Prop :=
  ∀ c ∈ candidates, Chosen (address c) sources (choice c)

/-- Which candidate the rules prefer. -/
def key (address choice : κ → Ip) (c : κ) : ℕ ×ₗ ℕ ×ₗ ℕᵒᵈ ×ₗ ℕ ×ₗ ℕ :=
  destinationKey (choice c) (address c)

/-- What `destination` returns, by the keys that any chosen sources give. -/
theorem destination_eq {address : κ → Ip} {candidates : List κ}
    {choice : κ → Ip} (hchoice : Choice address candidates sources choice) :
    destination address candidates sources = some (ExchangeSort.sort
      (fun a b => decide (key address choice a ≤ key address choice b)) candidates) := by
  have hne : candidates ≠ [] → sources ≠ [] := by
    intro hcandidates
    obtain ⟨c, l, rfl⟩ := List.exists_cons_of_ne_nil hcandidates
    exact List.ne_nil_of_mem (hchoice c List.mem_cons_self).1
  have hraise : ¬ (sources = [] ∧ 2 ≤ candidates.length) := by
    rintro ⟨hnil, hlength⟩
    refine hne (fun h => ?_) hnil
    rw [h, List.length_nil] at hlength
    omega
  have hkey (c : κ) (hc : c ∈ candidates) :
      destinationKey ((assign address candidates sources (fun _ => none) c).getD (address c))
        (address c) = key address choice c := by
    obtain ⟨s, hs, hchosen⟩ : ∃ s, assign address candidates sources (fun _ => none) c = some s ∧
        Chosen (address c) sources s :=
      assign_chosen address (hne (List.ne_nil_of_mem hc)) (List.Perm.refl sources) (.inl hc)
    rw [hs, Option.getD_some, hchosen.destinationKey_eq (hchoice c hc), key]
  rw [destination, if_neg hraise, Option.some_inj, tSort]
  refine ExchangeSort.sort_congr candidates fun a ha b hb => ?_
  rw [destinationComp_eq, hkey a ha, hkey b hb]

/-! ## What the selection keeps -/

/-- The selection of addresses, its candidates in the order of the rules and, where these do not
tell two of them apart, in the order of their places. -/
structure Selected (address : κ → Ip) (candidates : List κ) (sources : List Ip) (choice : κ → Ip) :
    Prop where
  total : ∀ sourceAddrs a b, destinationComp address sourceAddrs a b = true ∨
    destinationComp address sourceAddrs b a = true
  trans : ∀ sourceAddrs a b c, destinationComp address sourceAddrs a b = true →
    destinationComp address sourceAddrs b c = true → destinationComp address sourceAddrs a c = true
  sorted : ∃ result, destination address candidates sources = some result ∧
    result.Perm candidates ∧
    result.Pairwise fun a b => key address choice a ≤ key address choice b
  -- the same run, with the place of each candidate beside it
  stable : ∃ result, destination (fun p : κ × ℕ => address p.1) candidates.zipIdx sources =
      some result ∧ destination address candidates sources = some (result.map Prod.fst) ∧
    result.Pairwise fun p q => key address choice p.1 = key address choice q.1 → p.2 < q.2
  source : ∀ dest l, l ≠ [] → ∃ s, (source dest l).1 = some s ∧ Chosen dest l s

/-- The candidates that are not told apart turn whole: the number of those up to each divides the
number of better ones between it and the next. -/
def Settled (address : κ → Ip) (candidates : List κ) (choice : κ → Ip) : Prop :=
  ExchangeSort.Settled (key address choice) candidates

theorem selected_iff (address : κ → Ip) (candidates : List κ) (sources : List Ip) (choice : κ → Ip)
    (hchoice : Choice address candidates sources choice) :
    Selected address candidates sources choice ↔ Settled address candidates choice := by
  have hplaces : Choice (fun p : κ × ℕ => address p.1) candidates.zipIdx sources
      fun p => choice p.1 := fun p hp => by
    refine hchoice p.1 ?_
    rw [← List.zipIdx_map_fst 0 candidates]
    exact List.mem_map_of_mem hp
  have hmap : ExchangeSort.sort (fun a b => decide (key address choice a ≤ key address choice b))
      candidates = (ExchangeSort.sort (fun p q : κ × ℕ => decide (key address choice p.1 ≤
        key address choice q.1)) candidates.zipIdx).map Prod.fst := by
    conv_lhs => rw [← List.zipIdx_map_fst 0 candidates]
    exact ExchangeSort.sort_map Prod.fst candidates.zipIdx fun _ _ _ _ => rfl
  constructor
  · intro h
    obtain ⟨result, hresult, -, hstable⟩ := h.stable
    rw [destination_eq hplaces] at hresult
    obtain rfl := Option.some.inj hresult
    exact (ExchangeSort.sort_zipIdx_iff (fun _ _ => rfl) candidates).mp hstable
  · intro h
    refine ⟨fun sourceAddrs a b => ?_, fun sourceAddrs a b c => ?_, ?_, ?_, source_chosen⟩
    · rw [destinationComp_eq, destinationComp_eq, decide_eq_true_iff, decide_eq_true_iff]
      exact le_total _ _
    · rw [destinationComp_eq, destinationComp_eq, destinationComp_eq, decide_eq_true_iff,
        decide_eq_true_iff, decide_eq_true_iff]
      exact le_trans
    · refine ⟨_, destination_eq hchoice, ExchangeSort.sort_perm _ _, ?_⟩
      refine ExchangeSort.sort_pairwise (fun a b hab => of_decide_eq_true hab) (fun a b hab => ?_) _
      exact (not_le.mp (of_decide_eq_false hab)).le
    · refine ⟨_, destination_eq hplaces, ?_, ?_⟩
      · rw [destination_eq hchoice, hmap]
        rfl
      · exact (ExchangeSort.sort_zipIdx_iff (fun _ _ => rfl) candidates).mpr h

/-- Two hosts without IPv6 before one that the source reaches with its own label. -/
def mixedHosts : List Ip := [.v4 198 51 100 121, .v4 198 51 100 122,
  .v6 [0x20, 0x01, 0x0d, 0xb8, 0, 1] (by decide)]

def mixedSource : Ip := .v6 [0x20, 0x01, 0x0d, 0xb8, 0, 2] (by decide)

theorem mixedChoice {candidates : List Ip} :
    Choice id candidates [mixedSource] fun _ => mixedSource := fun c _ =>
  ⟨List.mem_singleton_self _, fun s hs => by rw [List.mem_singleton.mp hs]; exact lt_irrefl _⟩

/-- With the better address before the others, nothing is moved. -/
theorem mixed_selected_reverse : Selected id mixedHosts.reverse [mixedSource] fun _ => mixedSource := by
  refine (selected_iff id mixedHosts.reverse [mixedSource] (fun _ => mixedSource) mixedChoice).mpr ?_
  exact ExchangeSort.settled_of_pairwise (by decide +kernel)

/-- The better address takes the first of the others, which are no longer in order. -/
theorem mixed_not_selected : ¬ Selected id mixedHosts [mixedSource] fun _ => mixedSource := by
  intro h
  obtain ⟨result, hresult, -, hstable⟩ := h.stable
  have hrun : destination (fun p : Ip × ℕ => p.1) mixedHosts.zipIdx [mixedSource] =
      some [(mixedHosts[2], 2), (mixedHosts[1], 1), (mixedHosts[0], 0)] := by decide +kernel
  obtain rfl := Option.some.inj (hresult.symm.trans hrun)
  have hlast := List.rel_of_pairwise_cons hstable.tail (List.mem_singleton_self _)
  exact absurd (hlast (by decide +kernel)) (by decide)

end Prosody.Rfc6724
