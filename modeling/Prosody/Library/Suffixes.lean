import Mathlib.Data.List.Infix

/-! # The longest suffix

A scan from the end of a list keeps elements as long as what is kept satisfies a condition. -/

/-- No longer suffix satisfies the condition, which the empty list need not satisfy. -/
structure LongestSuffix {α : Type*} (fits : List α → Prop) (xs kept : List α) : Prop where
  suffix : kept <:+ xs
  kept_fits : kept ≠ [] → fits kept
  longest : ∀ ys, ys <:+ xs → fits ys → ys.length ≤ kept.length

section

variable {α : Type*} {fits : List α → Prop} {xs kept ys : List α} {x : α}

/-- What satisfies the condition still does so without its first element. -/
def SuffixClosed (fits : List α → Prop) : Prop := ∀ x xs, xs ≠ [] → fits (x :: xs) → fits xs

theorem SuffixClosed.of_suffix (h : SuffixClosed fits) (hne : ys ≠ []) (hsuffix : ys <:+ xs)
    (hfits : fits xs) : fits ys := by
  obtain ⟨dropped, rfl⟩ := hsuffix
  induction dropped with
  | nil => exact hfits
  | cons x dropped ih => exact ih (h x _ (List.append_ne_nil_of_right_ne_nil dropped hne) hfits)

theorem LongestSuffix.stop (hclosed : SuffixClosed fits) (hkept : kept ≠ [] → fits kept)
    (hstop : ¬ fits (x :: kept)) : LongestSuffix fits (xs ++ x :: kept) kept := by
  have hsuffix : x :: kept <:+ xs ++ x :: kept := List.suffix_append xs (x :: kept)
  refine ⟨(List.suffix_cons x kept).trans hsuffix, hkept, fun ys hys hfits => ?_⟩
  by_contra hlonger
  have hmore : x :: kept <:+ ys :=
    List.suffix_of_suffix_length_le hsuffix hys (Nat.succ_le_of_lt (Nat.lt_of_not_le hlonger))
  exact hstop (hclosed.of_suffix (List.cons_ne_nil x kept) hmore hfits)

theorem LongestSuffix.congr {fits' : List α → Prop} (h : LongestSuffix fits xs kept)
    (hiff : ∀ ys, ys <:+ xs → (fits ys ↔ fits' ys)) : LongestSuffix fits' xs kept :=
  ⟨h.suffix, fun hne => (hiff kept h.suffix).mp (h.kept_fits hne),
    fun ys hys hfits => h.longest ys hys ((hiff ys hys).mpr hfits)⟩

theorem LongestSuffix.all (hkept : kept ≠ [] → fits kept) : LongestSuffix fits kept kept :=
  ⟨List.suffix_rfl, hkept, fun _ hys _ => hys.length_le⟩

end
