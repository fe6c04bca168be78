import Mathlib.Data.List.Perm.Basic
import Mathlib.Data.List.Rotate
import Mathlib.Data.List.TakeWhile
import Mathlib.Order.Lattice

/-! # Exchange sort

Each round compares the first element with all others in turn, and exchanges the two whenever they
are out of order. The result is sorted, but not stable: every element that is exchanged jumps over
those in between.
-/

namespace ExchangeSort

variable {α β : Type*}

/-- One round: the first element afterwards, and the others. -/
def sweep (comp : α → α → Bool) : α → List α → α × List α
  | a, [] => (a, [])
  | a, b :: l =>
    if comp a b then ((sweep comp a l).1, b :: (sweep comp a l).2)
    else ((sweep comp b l).1, a :: (sweep comp b l).2)

def rounds (comp : α → α → Bool) : ℕ → List α → List α
  | 0, l => l
  | _ + 1, [] => []
  | n + 1, a :: l => (sweep comp a l).1 :: rounds comp n (sweep comp a l).2

def sort (comp : α → α → Bool) (l : List α) : List α := rounds comp (l.length - 1) l

/-! ## Permutations -/

theorem sweep_perm (comp : α → α → Bool) (a : α) (l : List α) :
    ((sweep comp a l).1 :: (sweep comp a l).2).Perm (a :: l) := by
  induction l generalizing a with
  | nil => exact List.Perm.refl _
  | cons b l ih =>
    rw [sweep]
    by_cases h : comp a b = true
    · rw [if_pos h]
      exact (List.Perm.swap _ _ _).trans (((ih a).cons b).trans (List.Perm.swap _ _ _))
    · rw [if_neg h]
      exact (List.Perm.swap _ _ _).trans ((ih b).cons a)

theorem length_sweep (comp : α → α → Bool) (a : α) (l : List α) :
    (sweep comp a l).2.length = l.length :=
  Nat.succ_injective (sweep_perm comp a l).length_eq

theorem rounds_perm (comp : α → α → Bool) (n : ℕ) (l : List α) : (rounds comp n l).Perm l := by
  induction n generalizing l with
  | zero => exact List.Perm.refl _
  | succ n ih =>
    cases l with
    | nil => exact List.Perm.refl _
    | cons a l => exact ((ih _).cons _).trans (sweep_perm comp a l)

theorem sort_perm (comp : α → α → Bool) (l : List α) : (sort comp l).Perm l := rounds_perm _ _ _

theorem sort_cons (comp : α → α → Bool) (a : α) (l : List α) :
    sort comp (a :: l) = (sweep comp a l).1 :: sort comp (sweep comp a l).2 := by
  rw [sort, sort, length_sweep, List.length_cons, Nat.add_sub_cancel]
  cases hl : l.length with
  | zero =>
    obtain rfl := List.length_eq_zero_iff.mp hl
    rfl
  | succ n => rfl

/-- A property that holds of one element, and of all if it holds of what a round leaves, holds. -/
theorem induction_on {motive : List α → Prop} (comp : α → α → Bool) (l : List α) (nil : motive [])
    (cons : ∀ a l, motive (sweep comp a l).2 → motive (a :: l)) : motive l := by
  induction hn : l.length generalizing l with
  | zero =>
    obtain rfl := List.length_eq_zero_iff.mp hn
    exact nil
  | succ n ih =>
    obtain ⟨a, l, rfl⟩ := List.exists_cons_of_length_eq_add_one hn
    exact cons a l (ih _ ((length_sweep comp a l).trans (Nat.succ_injective hn)))

variable {comp : α → α → Bool}

theorem sweep_map {γ : Type*} (f : α → γ) {comp' : γ → γ → Bool} (a : α)
    (l : List α) (h : ∀ x ∈ a :: l, ∀ y ∈ a :: l, comp' (f x) (f y) = comp x y) :
    sweep comp' (f a) (l.map f) = (f (sweep comp a l).1, (sweep comp a l).2.map f) := by
  induction l generalizing a with
  | nil => rfl
  | cons b l ih =>
    have ha : ∀ x ∈ a :: l, ∀ y ∈ a :: l, comp' (f x) (f y) = comp x y := fun x hx y hy =>
      h x (List.cons_subset_cons a (List.subset_cons_self b l) hx) y
        (List.cons_subset_cons a (List.subset_cons_self b l) hy)
    have hb : ∀ x ∈ b :: l, ∀ y ∈ b :: l, comp' (f x) (f y) = comp x y := fun x hx y hy =>
      h x (List.mem_cons_of_mem a hx) y (List.mem_cons_of_mem a hy)
    rw [List.map_cons, sweep, sweep, h a (by simp) b (by simp)]
    by_cases hc : comp a b = true
    · rw [if_pos hc, if_pos hc, ih a ha, List.map_cons]
    · rw [if_neg hc, if_neg hc, ih b hb, List.map_cons]

/-- Only the comparisons decide where an element goes. -/
theorem sort_map {γ : Type*} (f : α → γ) {comp' : γ → γ → Bool}
    (l : List α) (h : ∀ x ∈ l, ∀ y ∈ l, comp' (f x) (f y) = comp x y) :
    sort comp' (l.map f) = (sort comp l).map f := by
  induction l using induction_on comp with
  | nil => rfl
  | cons a l ih =>
    have hsub : ∀ x ∈ (sweep comp a l).2, x ∈ a :: l := fun x hx =>
      (sweep_perm comp a l).subset (List.mem_cons_of_mem _ hx)
    rw [List.map_cons, sort_cons, sort_cons, sweep_map f a l h, List.map_cons,
      ih fun x hx y hy => h x (hsub x hx) y (hsub y hy)]

theorem sort_congr {comp' : α → α → Bool} (l : List α)
    (h : ∀ x ∈ l, ∀ y ∈ l, comp' x y = comp x y) : sort comp' l = sort comp l := by
  have hmap := sort_map id l h
  rwa [List.map_id, List.map_id] at hmap

/-! ## Order -/

section Order

variable [LinearOrder β] {key : α → β} {comp : α → α → Bool}

theorem sweep_le (htrue : ∀ a b, comp a b = true → key a ≤ key b)
    (hfalse : ∀ a b, comp a b = false → key b ≤ key a) (a : α) (l : List α) :
    ∀ x ∈ a :: l, key (sweep comp a l).1 ≤ key x := by
  induction l generalizing a with
  | nil =>
    intro x hx
    rw [List.mem_singleton.mp hx]
    exact le_refl _
  | cons b l ih =>
    intro x hx
    rw [sweep]
    by_cases hc : comp a b = true
    · rw [if_pos hc]
      rcases List.mem_cons.mp hx with rfl | hx
      · exact ih x x List.mem_cons_self
      · rcases List.mem_cons.mp hx with rfl | hx
        · exact (ih a a List.mem_cons_self).trans (htrue a x hc)
        · exact ih a x (List.mem_cons_of_mem a hx)
    · rw [if_neg hc]
      have hle := hfalse a b (Bool.not_eq_true _ ▸ hc)
      rcases List.mem_cons.mp hx with rfl | hx
      · exact (ih b b List.mem_cons_self).trans hle
      · exact ih b x hx

theorem sort_pairwise (htrue : ∀ a b, comp a b = true → key a ≤ key b)
    (hfalse : ∀ a b, comp a b = false → key b ≤ key a) (l : List α) :
    (sort comp l).Pairwise fun a b => key a ≤ key b := by
  induction l using induction_on comp with
  | nil => exact List.Pairwise.nil
  | cons a l ih =>
    rw [sort_cons, List.pairwise_cons]
    refine ⟨fun x hx => sweep_le htrue hfalse a l x ?_, ih⟩
    exact (sweep_perm comp a l).subset
      (List.mem_cons_of_mem _ ((sort_perm comp _).subset hx))

/-! ## Elements of one key -/

variable (key) in
/-- In which order the elements with the key `k` come out: every smaller element takes the first of
those in front of it behind the others. -/
def turned (k : β) : List α → List α → List α
  | front, [] => front
  | front, x :: l =>
    if key x = k then turned k (front ++ [x]) l
    else if key x < k then turned k (front.rotate 1) l
    else turned k front l

variable (hcomp : ∀ a b, comp a b = decide (key a ≤ key b))
include hcomp

variable {k : β}

/-- Behind a smaller element, the elements of a key stay where they are. -/
theorem turned_sweep_of_lt {a : α} (ha : key a < k) (front l : List α) :
    turned key k front (sweep comp a l).2 = turned key k front l ∧ key (sweep comp a l).1 < k := by
  induction l generalizing a front with
  | nil => exact ⟨rfl, ha⟩
  | cons b l ih =>
    rw [sweep, hcomp]
    by_cases hc : key a ≤ key b
    · rw [if_pos (decide_eq_true hc)]
      refine ⟨?_, (ih ha front).2⟩
      rw [turned, turned, (ih ha _).1, (ih ha _).1, (ih ha _).1]
    · have hb : key b < k := (not_le.mp hc).trans ha
      have hexchange : ¬ decide (key a ≤ key b) = true := by simpa using hc
      rw [if_neg hexchange]
      refine ⟨?_, (ih hb front).2⟩
      rw [turned, if_neg ha.ne, if_pos ha, turned, if_neg hb.ne, if_pos hb, (ih hb _).1]

/-- The first element of a key goes where the first smaller element was. -/
theorem turned_sweep_of_eq {a : α} (ha : key a = k) (front l : List α) :
    turned key k (a :: front) l =
      if key (sweep comp a l).1 = k then (sweep comp a l).1 :: turned key k front (sweep comp a l).2
      else turned key k front (sweep comp a l).2 := by
  induction l generalizing front with
  | nil => rw [sweep, if_pos ha, turned, turned]
  | cons b l ih =>
    rw [sweep, hcomp]
    by_cases hc : key a ≤ key b
    · rw [if_pos (decide_eq_true hc), turned, turned]
      by_cases hb : key b = k
      · rw [if_pos hb, if_pos hb, List.cons_append, ih]
      · have hlt : ¬ key b < k := not_lt.mpr (ha ▸ hc)
        rw [if_neg hb, if_neg hb, if_neg hlt, if_neg hlt, ih]
    · have hb : key b < k := ha ▸ not_le.mp hc
      have hlt := turned_sweep_of_lt hcomp hb (front ++ [a]) l
      have hexchange : ¬ decide (key a ≤ key b) = true := by simpa using hc
      rw [if_neg hexchange, turned, if_neg hb.ne, if_pos hb, if_neg hlt.2.ne, turned,
        if_pos ha, hlt.1, List.rotate_cons_succ, List.rotate_zero]

/-- Nothing turns before the first element of a key. -/
theorem turned_sweep_of_gt {a : α} (ha : k < key a) (l : List α) : turned key k [] l =
      if key (sweep comp a l).1 = k then (sweep comp a l).1 :: turned key k [] (sweep comp a l).2
      else turned key k [] (sweep comp a l).2 := by
  induction l generalizing a with
  | nil => rw [sweep, if_neg ha.ne', turned]
  | cons b l ih =>
    rw [sweep, hcomp, turned]
    by_cases hc : key a ≤ key b
    · have hb : k < key b := ha.trans_le hc
      rw [if_pos (decide_eq_true hc), if_neg hb.ne', if_neg hb.not_gt, turned, if_neg hb.ne',
        if_neg hb.not_gt]
      exact ih ha
    · have hexchange : ¬ decide (key a ≤ key b) = true := by simpa using hc
      rw [if_neg hexchange, turned, if_neg ha.ne', if_neg ha.not_gt]
      rcases lt_trichotomy (key b) k with hb | hb | hb
      · have hlt := turned_sweep_of_lt hcomp hb [] l
        rw [if_neg hb.ne, if_pos hb, if_neg hlt.2.ne, hlt.1]
        rfl
      · rw [if_pos hb]
        exact turned_sweep_of_eq hcomp hb [] l
      · rw [if_neg hb.ne', if_neg hb.not_gt]
        exact ih hb

theorem filter_sort (k : β) (l : List α) :
    (sort comp l).filter (fun x => decide (key x = k)) = turned key k [] l := by
  induction l using induction_on comp with
  | nil => rfl
  | cons a l ih =>
    rw [sort_cons, List.filter_cons, ih, turned]
    rcases lt_trichotomy (key a) k with ha | ha | ha
    · have hlt := turned_sweep_of_lt hcomp ha [] l
      rw [if_neg (by simpa using hlt.2.ne), if_neg ha.ne, if_pos ha, hlt.1]
      rfl
    · rw [if_pos ha, List.nil_append, turned_sweep_of_eq hcomp ha]
      simp only [decide_eq_true_iff]
    · rw [if_neg ha.ne', if_neg ha.not_gt, turned_sweep_of_gt hcomp ha l]
      simp only [decide_eq_true_iff]

omit hcomp

/-! ## When the sort is stable -/

theorem turned_append (k : β) (front l m : List α) :
    turned key k front (l ++ m) = turned key k (turned key k front l) m := by
  induction l generalizing front with
  | nil => rfl
  | cons x l ih =>
    rw [List.cons_append, turned, turned]
    split
    · exact ih _
    · split
      · exact ih _
      · exact ih _

variable {l : List α}

theorem turned_of_ne (h : ∀ x ∈ l, key x ≠ k) (front : List α) :
    turned key k front l = front.rotate (l.countP fun x => decide (key x < k)) := by
  induction l generalizing front with
  | nil => exact (List.rotate_zero front).symm
  | cons x l ih =>
    have hl : ∀ y ∈ l, key y ≠ k := fun y hy => h y (List.mem_cons_of_mem x hy)
    rw [turned, if_neg (h x List.mem_cons_self), List.countP_cons]
    by_cases hx : key x < k
    · rw [if_pos hx, ih hl, List.rotate_rotate, if_pos (decide_eq_true hx), Nat.add_comm]
    · rw [if_neg hx, ih hl, if_neg (by simpa using hx), Nat.add_zero]

theorem turned_perm (k : β) (l : List α) :
    (turned key k [] l).Perm (l.filter fun x => decide (key x = k)) := by
  rw [← @filter_sort _ _ _ key (fun a b => decide (key a ≤ key b)) fun _ _ => rfl]
  exact (sort_perm _ l).filter _

/-- The last of different elements is at its place again only after whole turns. -/
theorem rotate_concat_iff {front front' : List α} {x : α} (hperm : front.Perm front')
    (hx : x ∉ front) (n : ℕ) :
    (front ++ [x]).rotate n = front' ++ [x] ↔ front = front' ∧ front.length + 1 ∣ n := by
  have hlength : (front ++ [x]).length = front.length + 1 := List.length_append
  constructor
  · intro h
    have hdvd : front.length + 1 ∣ n := by
      by_contra hn
      have hpos : 0 < n % (front.length + 1) := Nat.pos_of_ne_zero fun h0 =>
        hn (Nat.dvd_of_mod_eq_zero h0)
      have hlt : n % (front.length + 1) ≤ front.length :=
        Nat.le_of_lt_succ (Nat.mod_lt _ (Nat.succ_pos _))
      rw [List.rotate_eq_drop_append_take_mod, hlength, List.take_append_of_le_length hlt] at h
      have hlast := congrArg List.getLast? h
      have hne : front.take (n % (front.length + 1)) ≠ [] := by
        rw [Ne, List.take_eq_nil_iff, not_or]
        refine ⟨hpos.ne', fun hnil => ?_⟩
        have hzero : front.length = 0 := congrArg List.length hnil
        omega
      rw [List.getLast?_append_of_ne_nil _ hne, List.getLast?_concat] at hlast
      exact hx (List.mem_of_mem_take (List.mem_of_getLast? hlast))
    refine ⟨?_, hdvd⟩
    rw [← List.rotate_mod, hlength, Nat.mod_eq_zero_of_dvd hdvd, List.rotate_zero] at h
    exact List.append_cancel_right h
  · rintro ⟨rfl, hdvd⟩
    rw [← List.rotate_mod, hlength, Nat.mod_eq_zero_of_dvd hdvd, List.rotate_zero]

/-- The elements of one key that each smaller one turns come to their places again: what stands
between an element and the next of its key holds so many smaller elements that the number of those
of its key up to it divides them. -/
def SettledAt (key : α → β) (k : β) (l : List α) : Prop :=
  ∀ front x back, l = front ++ x :: back → key x = k →
    (front.countP fun y => decide (key y = k)) + 1 ∣
      (back.takeWhile fun y => decide (key y ≠ k)).countP fun y => decide (key y < k)

theorem exists_last {p : α → Prop} (h : ∃ x ∈ l, p x) :
    ∃ front x back, l = front ++ x :: back ∧ p x ∧ ∀ y ∈ back, ¬ p y := by
  induction l with
  | nil => exact absurd h (by simp)
  | cons a l ih =>
    by_cases hl : ∃ x ∈ l, p x
    · obtain ⟨front, x, back, rfl, hx, hback⟩ := ih hl
      exact ⟨a :: front, x, back, rfl, hx, hback⟩
    · obtain ⟨x, hx, hp⟩ := h
      rcases List.mem_cons.mp hx with rfl | hx
      · exact ⟨[], x, l, rfl, hp, fun y hy hpy => hl ⟨y, hy, hpy⟩⟩
      · exact absurd ⟨x, hx, hp⟩ hl

theorem takeWhile_append_stop {p : α → Bool} {x : α} (hx : p x = false) (l m : List α) :
    (l ++ x :: m).takeWhile p = l.takeWhile p := by
  induction l with
  | nil => rw [List.nil_append, List.takeWhile_cons_of_neg (by simp [hx]), List.takeWhile_nil]
  | cons a l ih =>
    rw [List.cons_append, List.takeWhile_cons, List.takeWhile_cons, ih]

/-- Only what is up to the last element of a key, and behind it, is asked. -/
theorem settledAt_append {front back : List α} {x : α} (hx : key x = k)
    (hback : ∀ y ∈ back, key y ≠ k) : SettledAt key k (front ++ x :: back) ↔ SettledAt key k front ∧
      (front.countP fun y => decide (key y = k)) + 1 ∣ back.countP fun y => decide (key y < k) := by
  have hstop : ∀ l m : List α, (l ++ x :: m).takeWhile (fun y => decide (key y ≠ k)) =
      l.takeWhile fun y => decide (key y ≠ k) :=
    takeWhile_append_stop (decide_eq_false (not_not.mpr hx))
  have hall : back.takeWhile (fun y => decide (key y ≠ k)) = back :=
    List.takeWhile_eq_self_iff.mpr fun y hy => decide_eq_true (hback y hy)
  constructor
  · intro h
    refine ⟨fun front' y back' heq hy => ?_, ?_⟩
    · have hy' := h front' y (back' ++ x :: back) (by rw [heq]; simp) hy
      rwa [hstop] at hy'
    · have hx' := h front x back rfl hx
      rwa [hall] at hx'
  · rintro ⟨hfront, hdvd⟩ front' y back' heq hy
    rcases List.append_eq_append_iff.mp heq with ⟨mid, rfl, hmid⟩ | ⟨mid, rfl, hmid⟩
    · cases mid with
      | nil =>
        obtain ⟨rfl, rfl⟩ := List.cons.inj hmid
        rw [hall, List.append_nil]
        exact hdvd
      | cons z mid =>
        obtain ⟨rfl, rfl⟩ := List.cons.inj hmid
        exact absurd hy (hback y (by simp))
    · cases mid with
      | nil =>
        obtain ⟨rfl, rfl⟩ := List.cons.inj hmid
        rw [hall]
        rw [List.append_nil] at hdvd
        exact hdvd
      | cons z mid =>
        obtain ⟨rfl, rfl⟩ := List.cons.inj hmid
        rw [List.append_eq, hstop]
        exact hfront front' y mid rfl hy

theorem turned_eq_filter_iff (k : β) (hl : l.Nodup) :
    turned key k [] l = l.filter (fun x => decide (key x = k)) ↔ SettledAt key k l := by
  induction hn : l.length using Nat.strong_induction_on generalizing l with
  | h n ih =>
    by_cases hex : ∃ x ∈ l, key x = k
    · obtain ⟨front, x, back, rfl, hx, hback⟩ := exists_last hex
      have hfront := ih front.length (by rw [← hn]; simp) hl.of_append_left rfl
      have hperm : (turned key k [] front).Perm (front.filter fun y => decide (key y = k)) :=
        turned_perm k front
      have hxfront : x ∉ turned key k [] front := fun hmem =>
        (List.nodup_append.mp hl).2.2 x (List.mem_of_mem_filter (hperm.subset hmem)) x
          List.mem_cons_self rfl
      have hlength : (turned key k [] front).length =
          front.countP fun y => decide (key y = k) := by
        rw [hperm.length_eq, List.countP_eq_length_filter]
      have hnone : back.filter (fun y => decide (key y = k)) = [] :=
        List.filter_eq_nil_iff.mpr fun y hy => by simpa using hback y hy
      rw [settledAt_append hx hback, ← hfront, ← hlength, ← rotate_concat_iff hperm hxfront,
        turned_append, turned, if_pos hx, turned_of_ne hback, List.filter_append,
        List.filter_cons_of_pos (by simpa using hx), hnone]
    · have hne : ∀ x ∈ l, key x ≠ k := fun x hx hk => hex ⟨x, hx, hk⟩
      refine iff_of_true ?_ ?_
      · rw [turned_of_ne hne, List.rotate_nil, List.filter_eq_nil_iff.mpr]
        exact fun x hx => by simpa using hne x hx
      · rintro front x back rfl hx
        exact absurd hx (hne x (by simp))

/-- For every element, the number of those of its key up to it divides the number of smaller ones
between it and the next of its key. -/
def Settled (key : α → β) (l : List α) : Prop :=
  ∀ front x back, l = front ++ x :: back →
    (front.countP fun y => decide (key y = key x)) + 1 ∣
      (back.takeWhile fun y => decide (key y ≠ key x)).countP fun y => decide (key y < key x)

theorem settled_of_pairwise {l : List α} (h : l.Pairwise fun x y => key x ≤ key y) :
    Settled key l := by
  rintro front x back rfl
  have hback : ∀ y ∈ back, key x ≤ key y :=
    (List.pairwise_cons.mp (List.pairwise_append.mp h).2.1).1
  have hnone : (back.takeWhile fun y => decide (key y ≠ key x)).countP
      (fun y => decide (key y < key x)) = 0 :=
    List.countP_eq_zero.mpr fun y hy => by simpa using hback y (List.takeWhile_subset _ hy)
  rw [hnone]
  exact Nat.dvd_zero _

theorem settled_iff (l : List α) : Settled key l ↔ ∀ k, SettledAt key k l := by
  constructor
  · rintro h k front x back heq rfl
    exact h front x back heq
  · exact fun h front x back heq => h (key x) front x back heq rfl

theorem settled_map {γ : Type*} (f : γ → α) (l : List γ) :
    Settled key (l.map f) ↔ Settled (fun y => key (f y)) l := by
  constructor
  · rintro h front x back rfl
    have hx := h (front.map f) (f x) (back.map f) (by rw [List.map_append, List.map_cons])
    rwa [List.takeWhile_map, List.countP_map, List.countP_map] at hx
  · intro h front x back heq
    obtain ⟨front', rest, rfl, rfl, hrest⟩ := List.map_eq_append_iff.mp heq
    obtain ⟨x', back', rfl, rfl, rfl⟩ := List.map_eq_cons_iff.mp hrest
    rw [List.takeWhile_map, List.countP_map, List.countP_map]
    exact h front' x' back' rfl

theorem zipIdx_pairwise (l : List α) : l.zipIdx.Pairwise fun p q => p.2 < q.2 := by
  have h : (l.zipIdx.map Prod.snd).Pairwise (· < ·) := by
    rw [List.zipIdx_map_snd]
    exact List.pairwise_lt_range'
  exact List.pairwise_map.mp h

/-- Elements of one key come out in the order of their places exactly when the list is settled. -/
theorem sort_zipIdx_iff {comp : α × ℕ → α × ℕ → Bool}
    (hcomp : ∀ p q, comp p q = decide (key p.1 ≤ key q.1)) (l : List α) :
    ((sort comp l.zipIdx).Pairwise fun p q => key p.1 = key q.1 → p.2 < q.2) ↔ Settled key l := by
  have hnodup : l.zipIdx.Nodup :=
    (zipIdx_pairwise l).imp fun hlt heq => absurd (congrArg Prod.snd heq) hlt.ne
  have hsettled : Settled key l ↔ Settled (fun p : α × ℕ => key p.1) l.zipIdx := by
    rw [← settled_map Prod.fst, List.zipIdx_map_fst]
  rw [hsettled, settled_iff]
  constructor
  · intro h k
    rw [← turned_eq_filter_iff k hnodup, ← filter_sort hcomp]
    refine List.Perm.eq_of_pairwise (fun p q _ _ hp hq => absurd hp hq.not_gt) ?_
      ((zipIdx_pairwise l).filter _) ((sort_perm comp _).filter _)
    rw [List.pairwise_filter]
    refine h.imp fun hpq hp hq => hpq ?_
    rw [of_decide_eq_true hp, of_decide_eq_true hq]
  · intro h
    have hfilter (k : β) : (sort comp l.zipIdx).Pairwise fun p q =>
        decide (key p.1 = k) = true → decide (key q.1 = k) = true → p.2 < q.2 := by
      rw [← List.pairwise_filter, filter_sort hcomp, (turned_eq_filter_iff k hnodup).mpr (h k)]
      exact (zipIdx_pairwise l).filter _
    rw [List.pairwise_iff_getElem]
    intro i j hi hj hij heq
    exact List.pairwise_iff_getElem.mp (hfilter _) i j hi hj hij (decide_eq_true heq)
      (decide_eq_true rfl)

end Order

end ExchangeSort
