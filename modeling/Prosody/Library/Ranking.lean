import Mathlib.Data.Finset.Max
import Mathlib.Data.List.Perm.Basic

/-! # Lists in the order of a score

A list of names, each of which may stand for several items, is in the order of the scores of items
if items can be found for its entries whose scores do not increase. -/

namespace Ranking

variable {ι η σ : Type*} [DecidableEq ι] [DecidableEq η] [LinearOrder σ]
variable (name : ι → η) (score : ι → σ)

/-- The items come with the names, in the order of their scores. -/
structure Ranked (items : List ι) (names : List η) : Prop where
  names_eq : items.map name = names
  sorted : items.Pairwise fun a b => score b ≤ score a

variable {name score}

theorem exists_best {items : List ι} {n : η} (h : n ∈ items.map name) :
    ∃ a ∈ items, name a = n ∧ ∀ b ∈ items, name b = n → score b ≤ score a := by
  obtain ⟨a, ha, rfl⟩ := List.mem_map.mp h
  have hne : (items.toFinset.filter fun b => name b = name a).Nonempty :=
    ⟨a, Finset.mem_filter.mpr ⟨List.mem_toFinset.mpr ha, rfl⟩⟩
  obtain ⟨b, hb, hbest⟩ := Finset.exists_max_image _ score hne
  obtain ⟨hmem, hname⟩ := Finset.mem_filter.mp hb
  refine ⟨b, List.mem_toFinset.mp hmem, hname, fun c hc hcname => ?_⟩
  exact hbest c (Finset.mem_filter.mpr ⟨List.mem_toFinset.mpr hc, hcname⟩)

/-- Names that are in an order are ranked if that order is one of the scores of all their items. -/
theorem exists_ranked {before : η → η → Prop} {names : List η} (hsorted : names.Pairwise before)
    {items : List ι} (hperm : names.Perm (items.map name))
    (hbefore : ∀ a ∈ items, ∀ b ∈ items, name a ≠ name b → before (name a) (name b) →
      score b ≤ score a) :
    ∃ ranked, ranked.Perm items ∧ Ranked name score ranked names := by
  induction names generalizing items with
  | nil =>
    have hnil : items = [] := List.map_eq_nil_iff.mp (List.nil_perm.mp hperm)
    exact ⟨[], hnil ▸ List.Perm.nil, rfl, List.Pairwise.nil⟩
  | cons n names ih =>
    obtain ⟨hfirst, htail⟩ := List.pairwise_cons.mp hsorted
    obtain ⟨a, ha, rfl, hbest⟩ := @exists_best _ _ _ _ _ _ _ score _ _
      (hperm.mem_iff.mp List.mem_cons_self)
    have hsplit : items.Perm (a :: items.erase a) := List.perm_cons_erase ha
    have hrest : names.Perm ((items.erase a).map name) :=
      (hperm.trans (hsplit.map name)).cons_inv
    obtain ⟨ranked, hranked, hnames, hpairwise⟩ := ih htail hrest fun b hb c hc =>
      hbefore b (List.mem_of_mem_erase hb) c (List.mem_of_mem_erase hc)
    refine ⟨a :: ranked, (hranked.cons a).trans hsplit.symm, by rw [List.map_cons, hnames],
      List.pairwise_cons.mpr ⟨fun b hb => ?_, hpairwise⟩⟩
    have hb' : b ∈ items := List.mem_of_mem_erase (hranked.mem_iff.mp hb)
    by_cases hname : name b = name a
    · exact hbest b hb' hname
    · exact hbefore a ha b hb' (Ne.symm hname)
        (hfirst (name b) (hnames ▸ List.mem_map_of_mem hb))

end Ranking
