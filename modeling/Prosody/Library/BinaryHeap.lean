import Mathlib.Logic.Function.Basic
import Mathlib.Order.Lattice

/-! # Binary heaps with a hole

A heap is a function from positions to elements, where the children of `k` stand at `2 * k` and
`2 * k + 1`. An element that is being placed leaves a hole, which moves up or down. -/

namespace BinaryHeap

variable {α : Type*} [LinearOrder α]

/-- An element is not above another one, where both are there. -/
def Le (x y : Option α) : Prop := ∀ p, x = some p → ∀ q, y = some q → p ≤ q

theorem le_some {p q : α} (h : p ≤ q) : Le (some p) (some q) := by
  intro p' hp q' hq
  rw [← Option.some.inj hp, ← Option.some.inj hq]
  exact h

theorem le_none {x : Option α} : Le x none := by
  intro p _ q hq
  cases hq

theorem Le.trans {x y : Option α} {m : α} (hx : Le x (some m)) (hy : Le (some m) y) : Le x y :=
  fun p hp q hq => (hx p hp m rfl).trans (hy m rfl q hq)

def Ordered (a : ℕ → Option α) : Prop := ∀ j, 2 ≤ j → Le (a (j / 2)) (a j)

/-- Only the element at `k` may be out of order. -/
structure OrderedBut (a : ℕ → Option α) (k : ℕ) : Prop where
  order : ∀ j, 2 ≤ j → j ≠ k → j / 2 ≠ k → Le (a (j / 2)) (a j)
  bridge : 2 ≤ k → ∀ c, c / 2 = k → Le (a (k / 2)) (a c)

variable {a : ℕ → Option α} {k c : ℕ} {p q : α}

theorem Ordered.but (h : Ordered a) (hq : a k = some q) : OrderedBut a k := by
  refine ⟨fun j hj _ _ => h j hj, fun hk2 c hc => ?_⟩
  have hparent := h k hk2
  have hchild := h c (by omega)
  rw [hq] at hparent
  rw [hc, hq] at hchild
  exact hparent.trans hchild

theorem OrderedBut.update (h : OrderedBut a k) (x : Option α) :
    OrderedBut (Function.update a k x) k := by
  refine ⟨fun j hj hne hne' => ?_, fun hk c hc => ?_⟩
  · rw [Function.update_of_ne hne, Function.update_of_ne hne']
    exact h.order j hj hne hne'
  · rw [Function.update_of_ne (by omega), Function.update_of_ne (by omega)]
    exact h.bridge hk c hc

theorem OrderedBut.fill (h : OrderedBut a k) (hk : 1 ≤ k)
    (hparent : 2 ≤ k → Le (a (k / 2)) (some p))
    (hchildren : ∀ c, c / 2 = k → Le (some p) (a c)) : Ordered (Function.update a k (some p)) := by
  intro j hj
  by_cases hjk : j = k
  · subst hjk
    rw [Function.update_self, Function.update_of_ne (by omega)]
    exact hparent hj
  · rw [Function.update_of_ne hjk]
    by_cases hparentk : j / 2 = k
    · rw [hparentk, Function.update_self]
      exact hchildren j hparentk
    · rw [Function.update_of_ne hparentk]
      exact h.order j hj hjk hparentk

theorem OrderedBut.up (h : OrderedBut a k) (hk : 2 ≤ k) (hq : a (k / 2) = some q) :
    OrderedBut (Function.update a k (some q)) (k / 2) := by
  refine ⟨fun j hj hne hne' => ?_, fun hk2 c hc => ?_⟩
  · have hjk : j ≠ k := by
      rintro rfl
      exact hne' rfl
    rw [Function.update_of_ne hjk]
    by_cases hparent : j / 2 = k
    · rw [hparent, Function.update_self, ← hq]
      exact h.bridge hk j hparent
    · rw [Function.update_of_ne hparent]
      exact h.order j hj hjk hparent
  · have hgrand := h.order (k / 2) hk2 (by omega) (by omega)
    rw [hq] at hgrand
    rw [Function.update_of_ne (by omega)]
    by_cases hck : c = k
    · rw [hck, Function.update_self]
      exact hgrand
    · have hsibling := h.order c (by omega) hck (by omega)
      rw [hc, hq] at hsibling
      rw [Function.update_of_ne hck]
      exact hgrand.trans hsibling

theorem OrderedBut.down (h : OrderedBut a k) (hk : 1 ≤ k) (hc : c / 2 = k) (hq : a c = some q)
    (hleast : ∀ c', c' / 2 = k → Le (some q) (a c')) :
    OrderedBut (Function.update a k (some q)) c := by
  refine ⟨fun j hj hne hne' => ?_, fun hc2 d hd => ?_⟩
  · by_cases hjk : j = k
    · subst hjk
      rw [Function.update_self, Function.update_of_ne (by omega), ← hq]
      exact h.bridge hj c hc
    · rw [Function.update_of_ne hjk]
      by_cases hparent : j / 2 = k
      · rw [hparent, Function.update_self]
        exact hleast j hparent
      · rw [Function.update_of_ne hparent]
        exact h.order j hj hjk hparent
  · have hchild := h.order d (by omega) (by omega) (by omega)
    rw [hd, hq] at hchild
    rw [hc, Function.update_self, Function.update_of_ne (by omega)]
    exact hchild

theorem Ordered.root_le (h : Ordered a)
    (hfilled : ∀ j, 2 ≤ j → ∀ q, a j = some q → ∃ p, a (j / 2) = some p) {j : ℕ} (hj : 1 ≤ j) :
    Le (a 1) (a j) := by
  induction j using Nat.strongRecOn with
  | ind j ih =>
    obtain rfl | hj2 := Nat.eq_or_lt_of_le hj
    · intro p hp q hq
      rw [hp] at hq
      exact (Option.some.inj hq).le
    · intro p hp q hq
      obtain ⟨m, hm⟩ := hfilled j hj2 q hq
      exact (ih (j / 2) (by omega) (by omega) p hp m hm).trans (h j hj2 m hm q hq)

end BinaryHeap
