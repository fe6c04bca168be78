import Mathlib.Data.List.Infix

/-! # Runs of deterministic machines

A machine is a step function on states and inputs. Whatever the environment decides,
such as the result of a write, is part of the input. A run is a left fold, and the rules
below are the induction principles for properties of every state that a run visits. -/

namespace Machine

variable {σ α : Type*}

/-- The state a machine reaches from `s` on the inputs `as`. -/
def run (step : σ → α → σ) (s : σ) (as : List α) : σ :=
  as.foldl step s

@[simp] theorem run_nil (step : σ → α → σ) (s : σ) : run step s [] = s := rfl

@[simp] theorem run_cons (step : σ → α → σ) (s : σ) (a : α) (as : List α) :
    run step s (a :: as) = run step (step s a) as := rfl

theorem run_append (step : σ → α → σ) (s : σ) (as bs : List α) :
    run step s (as ++ bs) = run step (run step s as) bs :=
  List.foldl_append

/-- `P` holds in every state the run visits, the first and the last included. -/
def Always (step : σ → α → σ) (P : σ → Prop) : σ → List α → Prop
  | s, [] => P s
  | s, a :: as => P s ∧ Always step P (step s a) as

/-- Every input of the run meets the condition in the state that receives it. -/
def Guarded (step : σ → α → σ) (ok : σ → α → Prop) : σ → List α → Prop
  | _, [] => True
  | s, a :: as => ok s a ∧ Guarded step ok (step s a) as

section

variable {step : σ → α → σ} {P Q : σ → Prop} {ok : σ → α → Prop}

theorem Always.head {s : σ} {as : List α} (h : Always step P s as) : P s := by
  cases as with
  | nil => exact h
  | cons a as => exact h.1

theorem Always.mono (h : ∀ s, P s → Q s) {s : σ} {as : List α}
    (hP : Always step P s as) : Always step Q s as := by
  induction as generalizing s with
  | nil => exact h s hP
  | cons a as ih => exact ⟨h s hP.1, ih hP.2⟩

/-- `Always` speaks of the states reached by the prefixes of the input. -/
theorem always_iff {s : σ} {as : List α} :
    Always step P s as ↔ ∀ pre, pre <+: as → P (run step s pre) := by
  induction as generalizing s with
  | nil =>
    constructor
    · intro h pre hpre
      rw [List.prefix_nil.mp hpre]
      exact h
    · intro h
      exact h [] List.prefix_rfl
  | cons a as ih =>
    constructor
    · rintro ⟨hs, htail⟩ pre hpre
      cases pre with
      | nil => exact hs
      | cons b pre =>
        obtain ⟨rfl, hrest⟩ := List.cons_prefix_cons.mp hpre
        exact ih.mp htail pre hrest
    · intro h
      refine ⟨h [] List.nil_prefix, ih.mpr ?_⟩
      intro pre hpre
      exact h (a :: pre) (List.cons_prefix_cons.mpr ⟨rfl, hpre⟩)

/-- An invariant kept by every step that meets the condition holds along guarded runs. -/
theorem always_of_guarded (hstep : ∀ s a, P s → ok s a → P (step s a))
    {s : σ} {as : List α} (hs : P s) (h : Guarded step ok s as) : Always step P s as := by
  induction as generalizing s with
  | nil => exact hs
  | cons a as ih => exact ⟨hs, ih (hstep s a hs h.1) h.2⟩

/-- An invariant kept by every step holds along every run. -/
theorem always_of_invariant (hstep : ∀ s a, P s → P (step s a)) {s : σ} (hs : P s)
    (as : List α) : Always step P s as := by
  induction as generalizing s with
  | nil => exact hs
  | cons a as ih => exact ⟨hs, ih (hstep s a hs)⟩

theorem run_invariant (hstep : ∀ s a, P s → P (step s a)) {s : σ} (hs : P s)
    (as : List α) : P (run step s as) :=
  always_iff.mp (always_of_invariant hstep hs as) as List.prefix_rfl

theorem Guarded.mono {ok' : σ → α → Prop} (h : ∀ s a, ok s a → ok' s a) {s : σ} {as : List α}
    (hg : Guarded step ok s as) : Guarded step ok' s as := by
  induction as generalizing s with
  | nil => trivial
  | cons a as ih => exact ⟨h s a hg.1, ih hg.2⟩

/-- The condition holds at the end of every prefix. -/
theorem Guarded.of_prefix {s : σ} {as pre : List α} {a : α} (h : Guarded step ok s as)
    (hpre : pre ++ [a] <+: as) : ok (run step s pre) a := by
  induction as generalizing s pre with
  | nil => exact absurd (List.prefix_nil.mp hpre) (by simp)
  | cons b as ih =>
    cases pre with
    | nil =>
      obtain ⟨rfl, -⟩ := List.cons_prefix_cons.mp hpre
      exact h.1
    | cons c pre =>
      obtain ⟨rfl, hrest⟩ := List.cons_prefix_cons.mp hpre
      rw [run_cons]
      exact ih h.2 hrest

/-- An invariant that also speaks of the inputs received so far holds after every prefix of
a guarded run. -/
theorem history_of_guarded {P : List α → σ → Prop}
    (hstep : ∀ h s a, P h s → ok s a → P (h ++ [a]) (step s a)) {h : List α} {s : σ}
    {as : List α} (hs : P h s) (hg : Guarded step ok s as) :
    ∀ pre, pre <+: as → P (h ++ pre) (run step s pre) := by
  induction as generalizing h s with
  | nil =>
    intro pre hpre
    rw [List.prefix_nil.mp hpre]
    simpa using hs
  | cons a as ih =>
    intro pre hpre
    cases pre with
    | nil => simpa using hs
    | cons b pre =>
      obtain ⟨rfl, hrest⟩ := List.cons_prefix_cons.mp hpre
      simpa using ih (hstep h s b hs hg.1) hg.2 pre hrest

/-- An invariant that also speaks of the inputs received so far holds after every run. -/
theorem history_invariant {P : List α → σ → Prop}
    (hstep : ∀ h s a, P h s → P (h ++ [a]) (step s a)) {s : σ} (hs : P [] s) (as : List α) :
    P as (run step s as) := by
  induction as using List.reverseRecOn with
  | nil => exact hs
  | append_singleton as a ih =>
    rw [run_append]
    exact hstep as _ a ih

/-- If a step that breaks the condition breaks `Q` at once, a run along which `Q`
always holds has met the condition at every step. -/
theorem guarded_of_always (hstep : ∀ s a, P s → ok s a → P (step s a))
    (hneed : ∀ s a, P s → Q (step s a) → ok s a) {s : σ} {as : List α} (hs : P s)
    (h : Always step Q s as) : Guarded step ok s as := by
  induction as generalizing s with
  | nil => exact trivial
  | cons a as ih =>
    have hok : ok s a := hneed s a hs h.2.head
    exact ⟨hok, ih (hstep s a hs hok) h.2⟩

/-- A condition that holds of every step that meets another one where an invariant holds. -/
theorem Guarded.imp_of_invariant {ok' : σ → α → Prop}
    (hstep : ∀ s a, P s → ok s a → P (step s a) ∧ ok' s a) {s : σ} {as : List α} (hs : P s)
    (h : Guarded step ok s as) : Guarded step ok' s as := by
  induction as generalizing s with
  | nil => trivial
  | cons a as ih =>
    obtain ⟨hnext, hok'⟩ := hstep s a hs h.1
    exact ⟨hok', ih hnext h.2⟩

/-- Two conditions on steps that agree wherever an invariant holds, which one of them keeps. -/
theorem guarded_congr {ok' : σ → α → Prop} {as : List α}
    (hstep : ∀ s, ∀ a ∈ as, P s → ok s a → P (step s a))
    (hiff : ∀ s, ∀ a ∈ as, P s → (ok' s a ↔ ok s a)) {s : σ} (hs : P s) :
    Guarded step ok' s as ↔ Guarded step ok s as := by
  induction as generalizing s with
  | nil => exact Iff.rfl
  | cons a as ih =>
    have hhead : a ∈ a :: as := List.mem_cons_self
    have htail : ∀ b, b ∈ as → b ∈ a :: as := fun b hb => List.mem_cons_of_mem a hb
    have hrest := @ih (fun s b hb => hstep s b (htail b hb)) fun s b hb => hiff s b (htail b hb)
    unfold Guarded
    rw [hiff s a hhead hs]
    exact and_congr_right fun hok => hrest (hstep s a hhead hs hok)

/-- The condition is exact: `Q` holds throughout a run if and only if every step meets it. -/
theorem always_iff_guarded (hPQ : ∀ s, P s → Q s)
    (hstep : ∀ s a, P s → ok s a → P (step s a))
    (hneed : ∀ s a, P s → Q (step s a) → ok s a) {s : σ} (hs : P s) (as : List α) :
    Always step Q s as ↔ Guarded step ok s as :=
  ⟨guarded_of_always hstep hneed hs, fun h => (always_of_guarded hstep hs h).mono hPQ⟩

/-- The condition is exact along runs of steps that are legal. -/
theorem always_iff_guarded_of_legal {legal : σ → α → Prop} (hPQ : ∀ s, P s → Q s)
    (hstep : ∀ s a, P s → legal s a → ok s a → P (step s a))
    (hneed : ∀ s a, P s → legal s a → Q (step s a) → ok s a) {s : σ} (hs : P s) {as : List α}
    (h : Guarded step legal s as) : Always step Q s as ↔ Guarded step ok s as := by
  induction as generalizing s with
  | nil => exact iff_of_true (hPQ s hs) trivial
  | cons a as ih =>
    constructor
    · rintro ⟨-, htail⟩
      have hok : ok s a := hneed s a hs h.1 htail.head
      exact ⟨hok, (ih (hstep s a hs h.1 hok) h.2).mp htail⟩
    · rintro ⟨hok, htail⟩
      exact ⟨hPQ s hs, (ih (hstep s a hs h.1 hok) h.2).mpr htail⟩

end

end Machine
