import Mathlib.Data.List.Basic
import Mathlib.Data.Nat.Basic
import Mathlib.Order.Lattice

/-! # Visits that take turns

Visits are numbered in the order of their arrivals. Each wants a key, and those of a key are let in
one after the other: whoever comes waits until all before have left. -/

namespace Turns

inductive Stage
  | waiting
  | inside
  | left
  deriving DecidableEq

variable {κ : Type*}

structure Fair (visits : ℕ → Option (κ × Stage)) : Prop where
  alone : ∀ i j k, visits i = some (k, .inside) → visits j = some (k, .inside) → i = j
  /-- Whoever has come in, does so after all before have left. -/
  inOrder : ∀ i j k stage stage', i < j → visits i = some (k, stage) →
    visits j = some (k, stage') → stage' ≠ .waiting → stage = .left
  /-- Whoever waits, does so for one that wants the same. -/
  prompt : ∀ i k, visits i = some (k, .waiting) →
    ∃ j < i, ∃ stage, visits j = some (k, stage) ∧ stage ≠ .left

/-- The visits of each key that have not left, the one inside first. -/
structure Lines (visits : ℕ → Option (κ × Stage)) (line : κ → List ℕ) : Prop where
  mem_iff : ∀ k i, i ∈ line k ↔ ∃ stage, visits i = some (k, stage) ∧ stage ≠ .left
  sorted : ∀ k, (line k).Pairwise (· < ·)
  inside_iff : ∀ k i, visits i = some (k, .inside) ↔ (line k).head? = some i
  left : ∀ k i, visits i = some (k, .left) → ∀ j ∈ line k, i < j

variable {visits : ℕ → Option (κ × Stage)} {line : κ → List ℕ} {k : κ} {i : ℕ}

theorem head?_le {l : List ℕ} (hsorted : l.Pairwise (· < ·)) (h : l.head? = some i) {j : ℕ}
    (hj : j ∈ l) : i ≤ j := by
  cases l with
  | nil => cases h
  | cons i' l =>
    cases h
    rcases List.mem_cons.mp hj with rfl | hmem
    · exact le_rfl
    · exact ((List.pairwise_cons.mp hsorted).1 j hmem).le

theorem Lines.fair (h : Lines visits line) : Fair visits where
  alone i j k hi hj :=
    Option.some.inj (((h.inside_iff k i).mp hi).symm.trans ((h.inside_iff k j).mp hj))
  inOrder i j k stage stage' hlt hi hj hentered := by
    by_contra hstage
    have hmem : i ∈ line k := (h.mem_iff k i).mpr ⟨stage, hi, hstage⟩
    cases stage' with
    | waiting => exact hentered rfl
    | inside =>
      exact absurd (head?_le (h.sorted k) ((h.inside_iff k j).mp hj) hmem) (not_le.mpr hlt)
    | left => exact absurd (h.left k j hj i hmem) (not_lt.mpr hlt.le)
  prompt i k hi := by
    have hmem : i ∈ line k := (h.mem_iff k i).mpr ⟨.waiting, hi, by decide⟩
    obtain ⟨j, hhead⟩ : ∃ j, (line k).head? = some j :=
      ⟨_, List.head?_eq_some_head (List.ne_nil_of_mem hmem)⟩
    have hj : visits j = some (k, .inside) := (h.inside_iff k j).mpr hhead
    have hne : j ≠ i := by
      rintro rfl
      rw [hi] at hj
      cases hj
    exact ⟨j, lt_of_le_of_ne (head?_le (h.sorted k) hhead hmem) hne, .inside, hj, by decide⟩

variable [DecidableEq κ]

theorem Lines.arrive (h : Lines visits line) (k : κ) {n : ℕ}
    (hnew : ∀ i, n ≤ i → visits i = none) {stage : Stage}
    (hstage : stage = if line k = [] then .inside else .waiting) :
    Lines (Function.update visits n (some (k, stage)))
      (Function.update line k (line k ++ [n])) := by
  have hleft : stage ≠ .left := by
    rw [hstage]
    split <;> decide
  have hlt : ∀ {i x}, visits i = some x → i < n := by
    intro i x hi
    by_contra hge
    rw [hnew i (not_lt.mp hge)] at hi
    cases hi
  have hmemlt : ∀ {k' i}, i ∈ line k' → i < n := by
    intro k' i hi
    obtain ⟨stage', hi', -⟩ := (h.mem_iff k' i).mp hi
    exact hlt hi'
  constructor
  · intro k' i
    by_cases hi : i = n
    · subst hi
      rw [Function.update_self]
      by_cases hk : k' = k
      · subst hk
        rw [Function.update_self]
        exact ⟨fun _ => ⟨stage, rfl, hleft⟩, fun _ => by simp⟩
      · rw [Function.update_of_ne hk]
        refine ⟨fun hmem => absurd (hmemlt hmem) (lt_irrefl i), ?_⟩
        rintro ⟨stage', heq, -⟩
        cases heq
        exact absurd rfl hk
    · rw [Function.update_of_ne hi, ← h.mem_iff k' i]
      by_cases hk : k' = k
      · subst hk
        rw [Function.update_self, List.mem_append, List.mem_singleton]
        exact or_iff_left hi
      · rw [Function.update_of_ne hk]
  · intro k'
    by_cases hk : k' = k
    · subst hk
      rw [Function.update_self]
      refine List.pairwise_append.mpr ⟨h.sorted k', List.pairwise_singleton _ _, ?_⟩
      intro i hi j hj
      rw [List.mem_singleton.mp hj]
      exact hmemlt hi
    · rw [Function.update_of_ne hk]
      exact h.sorted k'
  · intro k' i
    by_cases hk : k' = k
    · subst hk
      rw [Function.update_self, List.head?_append]
      by_cases hi : i = n
      · subst hi
        rw [Function.update_self, hstage]
        cases hline : line k' with
        | nil => simp
        | cons j rest =>
          have hj : j < i := hmemlt (hline ▸ List.mem_cons_self)
          simp [hj.ne]
      · rw [Function.update_of_ne hi, h.inside_iff k' i]
        cases hline : line k' with
        | nil => simp [Ne.symm hi]
        | cons j rest => simp
    · rw [Function.update_of_ne hk, ← h.inside_iff k' i]
      by_cases hi : i = n
      · subst hi
        rw [Function.update_self, hnew i le_rfl]
        refine ⟨fun heq => ?_, fun heq => by cases heq⟩
        cases heq
        exact absurd rfl hk
      · rw [Function.update_of_ne hi]
  · intro k' i hi j hj
    have hi' : visits i = some (k', .left) := by
      by_cases heq : i = n
      · subst heq
        rw [Function.update_self] at hi
        cases hi
        exact absurd rfl hleft
      · rwa [Function.update_of_ne heq] at hi
    by_cases hk : k' = k
    · subst hk
      rw [Function.update_self, List.mem_append, List.mem_singleton] at hj
      rcases hj with hj | rfl
      · exact h.left k' i hi' j hj
      · exact hlt hi'
    · rw [Function.update_of_ne hk] at hj
      exact h.left k' i hi' j hj

theorem Lines.leave (h : Lines visits line) {rest : List ℕ} (hline : line k = i :: rest)
    {visits' : ℕ → Option (κ × Stage)}
    (hleft : visits' i = some (k, .left))
    (hnext : ∀ j, rest.head? = some j → visits' j = some (k, .inside))
    (hother : ∀ j, j ≠ i → rest.head? ≠ some j → visits' j = visits j) :
    Lines visits' (Function.update line k rest) := by
  have hsorted := h.sorted k
  rw [hline] at hsorted
  obtain ⟨hfirst, htail⟩ := List.pairwise_cons.mp hsorted
  have hwanted : ∀ {j}, j ∈ i :: rest → ∃ stage, visits j = some (k, stage) ∧ stage ≠ .left := by
    intro j hj
    exact (h.mem_iff k j).mp (hline ▸ hj)
  have hcases : ∀ j, j = i ∨ (j ≠ i ∧ rest.head? = some j) ∨ visits' j = visits j := by
    intro j
    by_cases hi : j = i
    · exact .inl hi
    · by_cases hhead : rest.head? = some j
      · exact .inr (.inl ⟨hi, hhead⟩)
      · exact .inr (.inr (hother j hi hhead))
  have hrest : ∀ {j}, rest.head? = some j → j ∈ rest := fun hhead => List.mem_of_mem_head? hhead
  have hsame : ∀ {k' j stage}, k' ≠ k →
      (visits' j = some (k', stage) ↔ visits j = some (k', stage)) := by
    intro k' j stage hk
    have hdiffers : ∀ {stage'}, visits j = some (k, stage') → visits j ≠ some (k', stage) := by
      intro stage' hj heq
      rw [hj] at heq
      cases heq
      exact hk rfl
    rcases hcases j with rfl | ⟨-, hhead⟩ | heq
    · obtain ⟨stage', hj, -⟩ := hwanted List.mem_cons_self
      rw [hleft]
      exact iff_of_false (fun heq => by cases heq; exact hk rfl) (hdiffers hj)
    · obtain ⟨stage', hj, -⟩ := hwanted (List.mem_cons_of_mem _ (hrest hhead))
      rw [hnext j hhead]
      exact iff_of_false (fun heq => by cases heq; exact hk rfl) (hdiffers hj)
    · rw [heq]
  constructor
  · intro k' j
    by_cases hk : k' = k
    · subst hk
      rw [Function.update_self]
      constructor
      · intro hj
        rcases hcases j with rfl | ⟨-, hhead⟩ | heq
        · exact absurd (hfirst j hj) (lt_irrefl j)
        · exact ⟨.inside, hnext j hhead, by decide⟩
        · rw [heq]
          exact hwanted (List.mem_cons_of_mem _ hj)
      · rintro ⟨stage, hj, hstage⟩
        rcases hcases j with rfl | ⟨-, hhead⟩ | heq
        · rw [hleft] at hj
          cases hj
          exact absurd rfl hstage
        · exact hrest hhead
        · rw [heq] at hj
          have hmem : j ∈ line k' := (h.mem_iff k' j).mpr ⟨stage, hj, hstage⟩
          rw [hline] at hmem
          rcases List.mem_cons.mp hmem with rfl | hmem
          · rw [hleft, hj] at heq
            cases heq
            exact absurd rfl hstage
          · exact hmem
    · rw [Function.update_of_ne hk, h.mem_iff k' j]
      exact exists_congr fun stage => and_congr_left fun _ => (hsame hk).symm
  · intro k'
    by_cases hk : k' = k
    · subst hk
      rw [Function.update_self]
      exact htail
    · rw [Function.update_of_ne hk]
      exact h.sorted k'
  · intro k' j
    by_cases hk : k' = k
    · subst hk
      rw [Function.update_self]
      refine ⟨fun hj => ?_, hnext j⟩
      rcases hcases j with rfl | ⟨-, hhead⟩ | heq
      · rw [hleft] at hj
        cases hj
      · exact hhead
      · rw [heq, h.inside_iff k' j, hline] at hj
        cases hj
        have hinside := (h.inside_iff k' i).mpr (hline ▸ rfl)
        rw [hleft, hinside] at heq
        cases heq
    · rw [Function.update_of_ne hk, ← h.inside_iff k' j]
      exact hsame hk
  · intro k' j hj m hm
    by_cases hk : k' = k
    · subst hk
      rw [Function.update_self] at hm
      rcases hcases j with rfl | ⟨-, hhead⟩ | heq
      · exact hfirst m hm
      · rw [hnext j hhead] at hj
        cases hj
      · rw [heq] at hj
        exact h.left k' j hj m (hline ▸ List.mem_cons_of_mem _ hm)
    · rw [Function.update_of_ne hk] at hm
      exact h.left k' j ((hsame hk).mp hj) m hm

end Turns
