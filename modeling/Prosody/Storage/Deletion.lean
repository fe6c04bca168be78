import Prosody.Storage.Archive

/-! # Deleting what is found

A query finds the items that meet all of its criteria and deletes those that meet any. -/

namespace Prosody.Archive

variable {τ β : Type*} [LinearOrder τ]

theorem filterBy_eq {α γ : Type*} (criterion : Option γ) (p : γ → α → Bool) (items : List α) :
    filterBy criterion p items = items.filter fun item => criterion.all fun c => p c item := by
  cases criterion with
  | none => simp [filterBy]
  | some c => rfl

def Criteria.all (c : Criteria τ) (item : Item τ β) : Bool :=
  (c.key.all fun key => item.key = some key) && (c.qwith.all fun qwith => item.withJid = some qwith) &&
    (c.qstart.all fun qstart => item.when ≥ qstart) && c.qend.all fun qend => item.when ≤ qend

def Criteria.any (c : Criteria τ) (item : Item τ β) : Bool :=
  (c.key.any fun key => item.key = some key) || (c.qwith.any fun qwith => item.withJid = some qwith) ||
    (c.qstart.any fun qstart => item.when ≥ qstart) || c.qend.any fun qend => item.when ≤ qend

variable {c : Criteria τ}

theorem Criteria.any_of_all (h : ¬ c.Empty) {item : Item τ β}
    (hall : c.all item = true) : c.any item = true := by
  simp only [Criteria.all, Criteria.any, Bool.and_eq_true, Bool.or_eq_true] at hall ⊢
  obtain ⟨⟨⟨hkey, hwith⟩, hstart⟩, hend⟩ := hall
  cases hk : c.key with
  | some key => simp_all
  | none =>
    cases hw : c.qwith with
    | some qwith => simp_all
    | none =>
      cases hs : c.qstart with
      | some qstart => simp_all
      | none =>
        cases he : c.qend with
        | some qend => simp_all
        | none => exact absurd ⟨hk, hw, hs, he⟩ h

theorem Internal.select_eq (q : Query τ) (items : List (Item τ β)) :
    select q items = items.filter q.toCriteria.all := by
  simp only [select, filterBy_eq, List.filter_filter]
  congr 1
  funext item
  simp only [Criteria.all]
  cases q.key <;> cases q.qwith <;> cases q.qstart <;> cases q.qend <;> simp [Bool.and_comm]

theorem survivors_query (c : Criteria τ) (items : List (Item τ β)) :
    survivors c.query items = items.filter fun item => !c.any item := by
  have ht : ∀ items : List (Item τ β), truncateItems c.query items = items := fun _ => rfl
  simp only [survivors, ht, filterBy_eq, List.filter_filter]
  congr 1
  funext item
  simp only [Criteria.any, Criteria.query]
  cases c.key <;> cases c.qwith <;> cases c.qstart <;> cases c.qend <;>
    simp [← not_le, Bool.and_comm]

/-! ## What a query finds and deletes -/

omit [LinearOrder τ] in
theorem query_empty : c.query.Empty ↔ c.Empty := by
  simp [Query.Empty, Criteria.query]

theorem survivors_eq_self {items : List (Item τ β)}
    (h : items.length - (survivors c.query items).length = 0) : survivors c.query items = items := by
  rw [survivors_query] at h ⊢
  have hle := List.length_filter_le (fun item => !c.any item) items
  have hlength : (items.filter fun item => !c.any item).length = items.length := by omega
  exact List.filter_eq_self.mpr (List.length_filter_eq_length_iff.mp hlength)

theorem Internal.delete_query (h : ¬ c.Empty) (items : List (Item τ β)) :
    delete c.query items = (survivors c.query items,
      .count (items.length - (survivors c.query items).length)) := by
  unfold delete
  rw [if_neg fun he => h (query_empty.mp he)]
  dsimp only
  split
  · rename_i hzero
    rw [survivors_eq_self hzero, Nat.sub_self]
  · rfl

theorem Memory.delete_query (h : ¬ c.Empty) {store : Option (Memory τ β)}
    (hfilters : (store.getD empty).Filters) :
    ((delete c.query store).1.getD empty).items = survivors c.query (store.getD empty).items ∧
      (delete c.query store).2 = .count ((store.getD empty).items.length -
        (survivors c.query (store.getD empty).items).length) := by
  have hne : ¬ c.query.Empty := fun he => h (query_empty.mp he)
  cases store with
  | none =>
    have hnone : survivors c.query ([] : List (Item τ β)) = [] := by rw [survivors_query]; rfl
    simp [delete, hne, empty, hnone]
  | some a =>
    rw [Option.getD_some] at hfilters
    simp only [delete, if_neg hne, hfilters, not_true_eq_false, false_and, if_false,
      Option.getD_some]
    split
    · rename_i hzero
      exact ⟨(survivors_eq_self hzero).symm, by rw [hzero]⟩
    · exact ⟨rfl, rfl⟩

theorem Memory.delete_raised (h : ¬ c.Empty) {store : Option (Memory τ β)}
    (hfilters : ¬ (store.getD empty).Filters) : (delete c.query store).2 = .raised := by
  cases store with
  | none => exact absurd (Table.get_empty "filter") hfilters
  | some a =>
    have hne : ¬ c.query.Empty := fun he => h (query_empty.mp he)
    rw [delete, if_neg hne, if_pos ⟨hfilters, h⟩]

/-- The stored items that `find` returns. -/
def Internal.foundItems (q : Query τ) (items : List (Item τ β)) : List (Item τ β) :=
  (found q items).map Prod.fst

theorem Internal.foundItems_query (c : Criteria τ) (items : List (Item τ β)) :
    foundItems c.query items = items.filter c.all := by
  simp [foundItems, found, arrange, select_eq, Criteria.query]

theorem Memory.find_query (hkey : c.key = none) (store : Option (Memory τ β)) :
    find c.query store = some ((store.getD empty).items.filter c.all) := by
  have haccepts : (accepts c.query : Item τ β → Bool) = c.all := by
    funext item
    simp only [accepts, Criteria.all, hkey, Criteria.query, Option.all_none, Bool.true_and]
    cases c.qwith.all fun qwith => item.withJid = some qwith <;> simp
  simp [find, scanned, Criteria.query, ← haccepts]

variable [DecidableEq β]

/-- The query deletes what it finds, and says how much that is. -/
def Internal.DeletesFound (c : Criteria τ) (items : List (Item τ β)) : Prop :=
  delete c.query items = (items.filter (· ∉ foundItems c.query items),
    .count (foundItems c.query items).length)

def Memory.DeletesFound (c : Criteria τ) (store : Option (Memory τ β)) : Prop :=
  ∃ found, find c.query store = some found ∧
    ((delete c.query store).1.getD empty).items =
      (store.getD empty).items.filter (· ∉ found) ∧
    (delete c.query store).2 = .count found.length

/-- No item meets some of the criteria but not all of them. -/
def Criteria.Uniform (c : Criteria τ) (items : List (Item τ β)) : Prop :=
  ∀ item ∈ items, c.any item = true → c.all item = true

theorem survivors_iff (h : ¬ c.Empty) (items : List (Item τ β)) :
    (survivors c.query items = items.filter (· ∉ items.filter c.all) ∧
      items.length - (survivors c.query items).length = (items.filter c.all).length) ↔
    c.Uniform items := by
  rw [survivors_query]
  constructor
  · rintro ⟨heq, -⟩ item hmem hany
    by_contra hall
    have hkept : item ∈ items.filter (· ∉ items.filter c.all) := by
      simp [hmem, Bool.eq_false_of_not_eq_true hall]
    rw [← heq] at hkept
    simp [hany] at hkept
  · intro hu
    have hsame : ∀ item ∈ items, c.any item = c.all item := by
      intro item hmem
      rw [Bool.eq_iff_iff]
      exact ⟨hu item hmem, Criteria.any_of_all h⟩
    constructor
    · refine List.filter_congr fun item hmem => ?_
      rw [hsame item hmem]
      cases hall : c.all item <;> simp [hmem, hall]
    · have hcount := List.length_eq_length_filter_add (l := items) c.any
      rw [List.filter_congr hsame] at hcount
      omega

/-- A query deletes what it finds exactly if no item meets some of its criteria but not all, and
none has the key `filter` in memory. -/
theorem deletes_found_iff (c : Criteria τ) (h : ¬ c.Empty) (items : List (Item τ β))
    (store : Option (Memory τ β)) :
    (Internal.DeletesFound c items ↔ c.Uniform items) ∧
      (c.key = none →
        (Memory.DeletesFound c store ↔ (store.getD Memory.empty).Filters ∧
          c.Uniform (store.getD Memory.empty).items)) := by
  constructor
  · unfold Internal.DeletesFound
    rw [Internal.delete_query h, Internal.foundItems_query, ← survivors_iff h, Prod.mk.injEq,
      Deleted.count.injEq]
  · intro hkey
    unfold Memory.DeletesFound
    by_cases hfilters : (store.getD Memory.empty).Filters
    · obtain ⟨hitems, hcount⟩ := Memory.delete_query h hfilters
      rw [Memory.find_query hkey, hitems, hcount, ← survivors_iff h, and_iff_right hfilters]
      simp
    · refine iff_of_false ?_ fun hboth => hfilters hboth.1
      rintro ⟨found, -, -, hcount⟩
      rw [Memory.delete_raised h hfilters] at hcount
      cases hcount

/-! ## Three messages -/

def message (key : String) (when : Nat) (withJid : String) : Item Nat Unit :=
  { key := some key, value := { attr := ∅, body := () }, when := when, withJid := some withJid }

def letters : List (Item Nat Unit) :=
  [message "a" 1 "juliet@capulet", message "b" 5 "romeo@montague", message "c" 9 "juliet@capulet"]

theorem deletes_found_letters :
    Internal.DeletesFound ⟨none, some "juliet@capulet", none, none⟩ letters ∧
      Memory.DeletesFound ⟨none, some "juliet@capulet", none, none⟩ (some ⟨letters, ∅, false⟩) := by
  have huniform : Criteria.Uniform ⟨none, some "juliet@capulet", none, none⟩ letters := by
    unfold Criteria.Uniform
    decide
  obtain ⟨hinternal, hmemory⟩ := deletes_found_iff ⟨none, some "juliet@capulet", none, none⟩
    (by decide) letters (some ⟨letters, ∅, false⟩)
  exact ⟨hinternal.mpr huniform, (hmemory rfl).mpr ⟨by decide, huniform⟩⟩

/-- One letter is from days 4 to 6, but none is before day 4 and after day 6. -/
theorem range_deletes_all :
    Internal.foundItems (Criteria.query ⟨none, none, some 4, some 6⟩) letters =
        [message "b" 5 "romeo@montague"] ∧
      Internal.delete (Criteria.query ⟨none, none, some 4, some 6⟩) letters = ([], .count 3) ∧
      ¬ Internal.DeletesFound ⟨none, none, some 4, some 6⟩ letters := by
  unfold Internal.DeletesFound
  decide

end Prosody.Archive
