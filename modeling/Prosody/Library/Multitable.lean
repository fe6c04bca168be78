import Prosody.Library.Table

/-! # Tables of tables of tables

Values under three keys. Removing a value also removes the tables that become empty. -/

abbrev Multitable (κ₁ κ₂ κ₃ ν : Type*) := Table κ₁ (Table κ₂ (Table κ₃ ν))

namespace Table

variable {κ ν : Type*}

/-- A table that may have become empty. -/
def prune (t : Table κ ν) : Option (Table κ ν) := if t.keys.card = 0 then none else some t

end Table

namespace Multitable

variable {κ₁ κ₂ κ₃ ν : Type*} [DecidableEq κ₁] [DecidableEq κ₂] [DecidableEq κ₃]

def find (t : Multitable κ₁ κ₂ κ₃ ν) (a : κ₁) (b : κ₂) (c : κ₃) : Option ν :=
  (Table.get t a).bind fun ta => (ta.get b).bind fun tb => tb.get c

def put (t : Multitable κ₁ κ₂ κ₃ ν) (a : κ₁) (b : κ₂) (c : κ₃) (v : Option ν) :
    Multitable κ₁ κ₂ κ₃ ν :=
  let ta := (Table.get t a).getD ∅
  let tb := (ta.get b).getD ∅
  Table.set t a (some (ta.set b (some (tb.set c v))))

def remove (t : Multitable κ₁ κ₂ κ₃ ν) (a : κ₁) (b : κ₂) (c : κ₃) : Multitable κ₁ κ₂ κ₃ ν :=
  match Table.get t a with
  | none => t
  | some ta => Table.set t a (Table.prune (match ta.get b with
    | none => ta
    | some tb => ta.set b (tb.set c none).prune))

def paths (ord₁ : KeyOrder κ₁) (ord₂ : KeyOrder κ₂) (ord₃ : KeyOrder κ₃)
    (t : Multitable κ₁ κ₂ κ₃ ν) : List (κ₁ × κ₂ × κ₃) :=
  (ord₁.keys (Finmap.keys t)).flatMap fun a =>
    ((Table.get t a).map fun ta => (ord₂.keys ta.keys).flatMap fun b =>
      ((ta.get b).map fun tb => (ord₃.keys tb.keys).map fun c => (a, b, c)).getD []).getD []

/-- The values under any first key. -/
def search (ord₁ : KeyOrder κ₁) (t : Multitable κ₁ κ₂ κ₃ ν) (b : κ₂) (c : κ₃) : List ν :=
  (ord₁.keys (Finmap.keys t)).filterMap fun a => t.find a b c

structure Pruned (t : Multitable κ₁ κ₂ κ₃ ν) : Prop where
  outer : ∀ a ta, Table.get t a = some ta → ta.keys ≠ ∅
  inner : ∀ a ta b tb, Table.get t a = some ta → ta.get b = some tb → tb.keys ≠ ∅

variable {t : Multitable κ₁ κ₂ κ₃ ν}

@[simp] theorem find_empty (a : κ₁) (b : κ₂) (c : κ₃) :
    find (∅ : Multitable κ₁ κ₂ κ₃ ν) a b c = none := by
  simp [find]

theorem find_put (t : Multitable κ₁ κ₂ κ₃ ν) (a a' : κ₁) (b b' : κ₂) (c c' : κ₃) (v : Option ν) :
    (t.put a b c v).find a' b' c' = if a' = a ∧ b' = b ∧ c' = c then v else t.find a' b' c' := by
  unfold find put
  simp only [Table.get_set]
  by_cases ha : a' = a
  · subst ha
    simp only [if_true, Option.bind_some, true_and, Table.get_set]
    by_cases hb : b' = b
    · subst hb
      simp only [if_true, Option.bind_some, true_and, Table.get_set]
      by_cases hc : c' = c
      · simp [hc]
      · rw [if_neg hc, if_neg hc]
        cases hta : Table.get t a' with
        | none => simp
        | some ta => cases htb : ta.get b' <;> simp [htb]
    · rw [if_neg hb, if_neg (by simp [hb])]
      cases hta : Table.get t a' <;> simp
  · rw [if_neg ha, if_neg (by simp [ha])]

theorem get_prune {κ ν : Type*} [DecidableEq κ] (t : Table κ ν) (k : κ) :
    (t.prune.bind fun t => t.get k) = t.get k := by
  unfold Table.prune
  split
  · rename_i hempty
    rw [Table.get_of_keys_eq_empty (Finset.card_eq_zero.mp hempty)]
    rfl
  · rfl

theorem find_remove (t : Multitable κ₁ κ₂ κ₃ ν) (a a' : κ₁) (b b' : κ₂) (c c' : κ₃) :
    (t.remove a b c).find a' b' c' =
      if a' = a ∧ b' = b ∧ c' = c then none else t.find a' b' c' := by
  have hprune : ∀ (u : Table κ₂ (Table κ₃ ν)) (b' : κ₂) (c' : κ₃),
      (u.prune.bind fun ta => (ta.get b').bind fun tb => tb.get c') =
        (u.get b').bind fun tb => tb.get c' := by
    intro u b' c'
    have hget := get_prune u b'
    rw [← hget, Option.bind_assoc]
  unfold remove
  cases hta : Table.get t a with
  | none =>
    simp only
    split
    · rename_i heq
      rw [heq.1, find, hta]
      rfl
    · rfl
  | some ta =>
    simp only [find, Table.get_set]
    by_cases ha : a' = a
    · subst ha
      simp only [if_true, true_and, hprune, hta, Option.bind_some]
      cases htb : ta.get b with
      | none =>
        simp only
        split
        · rename_i heq
          rw [heq.1, htb]
          rfl
        · rfl
      | some tb =>
        simp only [Table.get_set]
        by_cases hb : b' = b
        · subst hb
          simp only [if_true, true_and, get_prune, Table.get_set, htb, Option.bind_some]
        · rw [if_neg hb, if_neg (by simp [hb])]
    · rw [if_neg ha, if_neg (by simp [ha])]

theorem keys_ne_empty {κ ν : Type*} [DecidableEq κ] {t : Table κ ν} {k : κ} {v : ν}
    (h : t.get k = some v) : t.keys ≠ ∅ := by
  intro hempty
  rw [Table.get_of_keys_eq_empty hempty] at h
  cases h

omit [DecidableEq κ₃] in
theorem Pruned.empty : (∅ : Multitable κ₁ κ₂ κ₃ ν).Pruned where
  outer a ta h := by simp at h
  inner a ta b tb h := by simp at h

theorem Pruned.put (h : t.Pruned) (a : κ₁) (b : κ₂) (c : κ₃) (v : ν) :
    (t.put a b c (some v)).Pruned := by
  have hinner : ∀ b' tb, (((Table.get t a).getD ∅).get b') = some tb → tb.keys ≠ ∅ := by
    intro b' tb htb
    cases hta : Table.get t a with
    | none =>
      rw [hta] at htb
      simp at htb
    | some ta =>
      rw [hta] at htb
      exact h.inner a ta b' tb hta htb
  constructor
  · intro a' ta hta
    unfold Multitable.put at hta
    rw [Table.get_set] at hta
    split at hta
    · obtain rfl := Option.some.inj hta
      exact keys_ne_empty (Table.get_set_self _ b _)
    · exact h.outer a' ta hta
  · intro a' ta b' tb hta htb
    unfold Multitable.put at hta
    rw [Table.get_set] at hta
    split at hta
    · obtain rfl := Option.some.inj hta
      rw [Table.get_set] at htb
      split at htb
      · obtain rfl := Option.some.inj htb
        exact keys_ne_empty (Table.get_set_self _ c _)
      · exact hinner b' tb htb
    · exact h.inner a' ta b' tb hta htb

theorem prune_eq_some {κ ν : Type*} {t u : Table κ ν} (h : t.prune = some u) :
    u = t ∧ t.keys ≠ ∅ := by
  unfold Table.prune at h
  split at h
  · cases h
  · rename_i hne
    exact ⟨(Option.some.inj h).symm, fun hempty => hne (Finset.card_eq_zero.mpr hempty)⟩

theorem Pruned.remove (h : t.Pruned) (a : κ₁) (b : κ₂) (c : κ₃) : (t.remove a b c).Pruned := by
  unfold Multitable.remove
  cases hta : Table.get t a with
  | none => exact h
  | some ta =>
    simp only
    constructor
    · intro a' ta' hta'
      rw [Table.get_set] at hta'
      split at hta'
      · obtain ⟨rfl, hne⟩ := prune_eq_some hta'
        exact hne
      · exact h.outer a' ta' hta'
    · intro a' ta' b' tb' hta' htb'
      rw [Table.get_set] at hta'
      split at hta'
      · obtain ⟨rfl, -⟩ := prune_eq_some hta'
        cases htb : ta.get b with
        | none =>
          rw [htb] at htb'
          exact h.inner a ta b' tb' hta htb'
        | some tb =>
          rw [htb] at htb'
          simp only [Table.get_set] at htb'
          split at htb'
          · obtain ⟨rfl, hne⟩ := prune_eq_some htb'
            exact hne
          · exact h.inner a ta b' tb' hta htb'
      · exact h.inner a' ta' b' tb' hta' htb'

theorem mem_paths (ord₁ : KeyOrder κ₁) (ord₂ : KeyOrder κ₂) (ord₃ : KeyOrder κ₃) (a : κ₁) (b : κ₂)
    (c : κ₃) : (a, b, c) ∈ t.paths ord₁ ord₂ ord₃ ↔ ∃ v, t.find a b c = some v := by
  unfold paths find
  simp only [List.mem_flatMap, KeyOrder.mem_keys, Table.mem_keys]
  constructor
  · rintro ⟨a', ⟨ta, hta⟩, hmem⟩
    rw [hta, Option.map_some, Option.getD_some] at hmem
    obtain ⟨b', hb', hmem⟩ := List.mem_flatMap.mp hmem
    rw [KeyOrder.mem_keys, Table.mem_keys] at hb'
    obtain ⟨tb, htb⟩ := hb'
    rw [htb, Option.map_some, Option.getD_some] at hmem
    obtain ⟨c', hc', heq⟩ := List.mem_map.mp hmem
    rw [KeyOrder.mem_keys, Table.mem_keys] at hc'
    obtain ⟨v, hv⟩ := hc'
    cases heq
    exact ⟨v, by rw [hta, Option.bind_some, htb, Option.bind_some, hv]⟩
  · rintro ⟨v, hv⟩
    obtain ⟨ta, hta, hv⟩ := Option.bind_eq_some_iff.mp hv
    obtain ⟨tb, htb, hv⟩ := Option.bind_eq_some_iff.mp hv
    refine ⟨a, ⟨ta, hta⟩, ?_⟩
    rw [hta, Option.map_some, Option.getD_some]
    refine List.mem_flatMap.mpr ⟨b, ?_, ?_⟩
    · rw [KeyOrder.mem_keys, Table.mem_keys]
      exact ⟨tb, htb⟩
    · rw [htb, Option.map_some, Option.getD_some]
      refine List.mem_map.mpr ⟨c, ?_, rfl⟩
      rw [KeyOrder.mem_keys, Table.mem_keys]
      exact ⟨v, hv⟩

theorem mem_search (ord₁ : KeyOrder κ₁) (b : κ₂) (c : κ₃) (v : ν) :
    v ∈ t.search ord₁ b c ↔ ∃ a, t.find a b c = some v := by
  unfold search
  rw [List.mem_filterMap]
  constructor
  · rintro ⟨a, -, ha⟩
    exact ⟨a, ha⟩
  · rintro ⟨a, ha⟩
    refine ⟨a, ?_, ha⟩
    rw [KeyOrder.mem_keys]
    obtain ⟨ta, hta, -⟩ := Option.bind_eq_some_iff.mp ha
    exact (Table.mem_keys t a).mpr ⟨ta, hta⟩

end Multitable
