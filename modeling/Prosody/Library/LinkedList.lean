import Mathlib.Data.List.Nodup
import Mathlib.Logic.Function.Basic

/-! # Doubly linked lists

The nodes are references, and the links are two functions on them, which assignments update. -/

namespace LinkedList

variable {ρ : Type*} [DecidableEq ρ]

/-- The link of a node is assigned, where there is a node. -/
def assign (f : ρ → Option ρ) (node v : Option ρ) : ρ → Option ρ :=
  node.elim f fun m => Function.update f m v

/-- The links of the nodes of a segment, between a node before it and one behind it. -/
def Segment (next prev : ρ → Option ρ) : Option ρ → List ρ → Option ρ → Prop
  | _, [], _ => True
  | before, m :: ms, after =>
    prev m = before ∧ next m = ms.head?.or after ∧ Segment next prev (some m) ms after

variable {next prev next' prev' : ρ → Option ρ} {before after v : Option ρ} {ms a b : List ρ}
  {m : ρ}

theorem assign_of_ne {node : Option ρ} (h : node ≠ some m) : assign next node v m = next m := by
  cases node with
  | none => rfl
  | some n =>
    have hne : m ≠ n := fun heq => h (congrArg some heq.symm)
    exact Function.update_of_ne hne v next

omit [DecidableEq ρ] in
theorem segment_append :
    Segment next prev before (a ++ b) after ↔
      Segment next prev before a (b.head?.or after) ∧
        Segment next prev (a.getLast?.or before) b after := by
  induction a generalizing before with
  | nil => exact (iff_of_eq (true_and _)).symm
  | cons m a ih =>
    have hlast : (m :: a).getLast?.or before = a.getLast?.or (some m) := by
      rw [List.getLast?_cons]
      cases a.getLast? <;> rfl
    rw [List.cons_append, Segment, Segment, ih, hlast, List.head?_append, Option.or_assoc,
      and_assoc, and_assoc]

omit [DecidableEq ρ] in
theorem Segment.congr (h : Segment next prev before ms after) (hnext : ∀ m ∈ ms, next' m = next m)
    (hprev : ∀ m ∈ ms, prev' m = prev m) : Segment next' prev' before ms after := by
  induction ms generalizing before with
  | nil => trivial
  | cons m ms ih =>
    obtain ⟨hp, hn, hrest⟩ := h
    have htail := ih hrest (fun k hk => hnext k (List.mem_cons_of_mem m hk))
      fun k hk => hprev k (List.mem_cons_of_mem m hk)
    exact ⟨(hprev m List.mem_cons_self).trans hp, (hnext m List.mem_cons_self).trans hn, htail⟩

theorem Segment.assign_next (h : Segment next prev before ms after) (hnodup : ms.Nodup)
    (after' : Option ρ) : Segment (assign next ms.getLast? after') prev before ms after' := by
  obtain rfl | ⟨init, p, rfl⟩ := ms.eq_nil_or_concat'
  · trivial
  · obtain ⟨hinit, hp, -⟩ := segment_append.mp h
    have hfresh : p ∉ init := fun hmem =>
      (List.nodup_append.mp hnodup).2.2 p hmem p (List.mem_singleton_self p) rfl
    rw [List.getLast?_concat]
    refine segment_append.mpr ⟨hinit.congr (fun k hk => ?_) fun _ _ => rfl, hp, ?_, trivial⟩
    · exact Function.update_of_ne (ne_of_mem_of_not_mem hk hfresh) after' next
    · exact Function.update_self p after' next

theorem Segment.assign_prev (h : Segment next prev before ms after) (hnodup : ms.Nodup)
    (before' : Option ρ) : Segment next (assign prev ms.head? before') before' ms after := by
  cases ms with
  | nil => trivial
  | cons m ms =>
    obtain ⟨-, hn, hrest⟩ := h
    have hfresh : m ∉ ms := (List.nodup_cons.mp hnodup).1
    have hp : assign prev (some m) before' m = before' := by
      rw [assign, Option.elim_some, Function.update_self]
    refine ⟨hp, hn, hrest.congr (fun _ _ => rfl) fun k hk => ?_⟩
    exact Function.update_of_ne (ne_of_mem_of_not_mem hk hfresh) before' prev

omit [DecidableEq ρ] in
theorem Segment.neighbours (h : Segment next prev none (a ++ m :: b) none) :
    prev m = a.getLast? ∧ next m = b.head? := by
  obtain ⟨-, hp, hn, -⟩ := segment_append.mp h
  rw [Option.or_none] at hp hn
  exact ⟨hp, hn⟩

theorem Segment.unlink (h : Segment next prev none (a ++ m :: b) none)
    (hnodup : (a ++ m :: b).Nodup) :
    Segment (assign next a.getLast? b.head?) (assign prev b.head? a.getLast?) none (a ++ b)
      none := by
  obtain ⟨ha, -, -, hb⟩ := segment_append.mp h
  obtain ⟨hanodup, hmb, hdisjoint⟩ := List.nodup_append.mp hnodup
  have hbnodup := (List.nodup_cons.mp hmb).2
  have hleft := ha.assign_next hanodup b.head?
  have hright := hb.assign_prev hbnodup a.getLast?
  refine segment_append.mpr ⟨?_, ?_⟩
  · rw [Option.or_none]
    refine hleft.congr (fun _ _ => rfl) fun k hk => assign_of_ne fun hhead => ?_
    exact hdisjoint k hk k (List.mem_cons_of_mem m (List.mem_of_head? hhead)) rfl
  · rw [Option.or_none]
    refine hright.congr (fun k hk => assign_of_ne fun hlast => ?_) fun _ _ => rfl
    exact hdisjoint k (List.mem_of_getLast? hlast) k (List.mem_cons_of_mem m hk) rfl

theorem Segment.push (h : Segment next prev none ms none) (hnodup : ms.Nodup) (hm : m ∉ ms) :
    Segment (Function.update next m ms.head?)
      (Function.update (assign prev ms.head? (some m)) m none) none (m :: ms) none := by
  refine ⟨Function.update_self m _ _, ?_, ?_⟩
  · rw [Function.update_self, Option.or_none]
  · refine (h.assign_prev hnodup (some m)).congr (fun k hk => ?_) fun k hk => ?_
    · exact Function.update_of_ne (ne_of_mem_of_not_mem hk hm) _ _
    · exact Function.update_of_ne (ne_of_mem_of_not_mem hk hm) _ _

end LinkedList
