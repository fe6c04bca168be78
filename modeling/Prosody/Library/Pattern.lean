import Mathlib.Data.List.Basic

/-! # Patterns that are matched by backtracking

Patterns of classes of characters, with greedy and lazy repetition and captures. A pattern has a
list of matches, and those come first that backtracking tries first. -/

namespace Pattern

variable {α : Type*}

inductive Item (α : Type*)
  /-- One character of a class. -/
  | one (p : α → Bool)
  /-- At most one character, and rather one than none. -/
  | opt (p : α → Bool)
  /-- As many characters as possible. -/
  | many (p : α → Bool)
  /-- As few characters as possible. -/
  | few (p : α → Bool)
  /-- A part whose text is captured. -/
  | group (items : List (Item α))
  /-- The end of the text. -/
  | stop

/-- The text that is matched, what is captured of it, and the text behind. -/
structure Found (α : Type*) where
  text : List α
  captures : List (List α) := []
  rest : List α

namespace Found

def cons (c : α) (f : Found α) : Found α := { f with text := c :: f.text }

/-- One match, and another one in the text behind it. -/
def append (f g : Found α) : Found α := ⟨f.text ++ g.text, f.captures ++ g.captures, g.rest⟩

def capture (f : Found α) : Found α := { f with captures := f.text :: f.captures }

end Found

def many (p : α → Bool) : List α → List (Found α)
  | [] => [{ text := [], rest := [] }]
  | c :: s =>
    if p c then (many p s).map (Found.cons c) ++ [{ text := [], rest := c :: s }]
    else [{ text := [], rest := c :: s }]

def one (p : α → Bool) : List α → List (Found α)
  | [] => []
  | c :: s => if p c then [{ text := [c], rest := s }] else []

mutual

def Item.found : Item α → List α → List (Found α)
  | .one p, s => one p s
  | .opt p, s => one p s ++ [{ text := [], rest := s }]
  | .many p, s => many p s
  | .few p, s => (many p s).reverse
  | .group items, s => (found items s).map Found.capture
  | .stop, s => if s.isEmpty then [{ text := [], rest := s }] else []

/-- The matches of a pattern at the start of a text. -/
def found : List (Item α) → List α → List (Found α)
  | [], s => [{ text := [], rest := s }]
  | item :: items, s => (item.found s).flatMap fun f => (found items f.rest).map f.append

end

def anchored (items : List (Item α)) (s : List α) : Option (Found α) := (found items s).head?

/-- The first match anywhere, with the text in front of it. -/
def search (items : List (Item α)) : List α → Option (List α × Found α)
  | [] => (anchored items []).map ([], ·)
  | c :: s =>
    match anchored items (c :: s) with
    | some f => some ([], f)
    | none => (search items s).map (Prod.map (c :: ·) id)

def word [DecidableEq α] (w : List α) : List (Item α) := w.map fun c => .one (decide <| · = c)

/-! ## Matches are parts of the text -/

variable {f : Found α} {s : List α} {p : α → Bool}

theorem many_spec (h : f ∈ many p s) :
    s = f.text ++ f.rest ∧ (∀ c ∈ f.text, p c) ∧ f.captures = [] := by
  induction s generalizing f with
  | nil =>
    obtain rfl := List.mem_singleton.mp h
    exact ⟨rfl, fun c hc => absurd hc List.not_mem_nil, rfl⟩
  | cons c s ih =>
    have hnone : f = { text := [], rest := c :: s } →
        c :: s = f.text ++ f.rest ∧ (∀ c ∈ f.text, p c) ∧ f.captures = [] := by
      rintro rfl
      exact ⟨rfl, fun c hc => absurd hc List.not_mem_nil, rfl⟩
    rw [many] at h
    split_ifs at h with hc
    · obtain h | h := List.mem_append.mp h
      · obtain ⟨g, hg, rfl⟩ := List.mem_map.mp h
        obtain ⟨htext, hclass, hcaptures⟩ := ih hg
        exact ⟨congrArg (c :: ·) htext, List.forall_mem_cons.mpr ⟨hc, hclass⟩, hcaptures⟩
      · exact hnone (List.mem_singleton.mp h)
    · exact hnone (List.mem_singleton.mp h)

/-- Every beginning of characters of the class is tried. -/
theorem mem_many {a : List α} (h : ∀ c ∈ a, p c) (rest : List α) :
    { text := a, rest := rest } ∈ many p (a ++ rest) := by
  induction a with
  | nil =>
    cases rest with
    | nil => exact List.mem_singleton_self _
    | cons c rest =>
      rw [List.nil_append, many]
      split_ifs
      · exact List.mem_append_right _ (List.mem_singleton_self _)
      · exact List.mem_singleton_self _
  | cons c a ih =>
    rw [List.cons_append, many, if_pos (h c List.mem_cons_self)]
    refine List.mem_append_left _ (List.mem_map.mpr ⟨{ text := a, rest := rest }, ?_, rfl⟩)
    exact ih fun d hd => h d (List.mem_cons_of_mem _ hd)

theorem one_spec (h : f ∈ one p s) :
    ∃ c, p c ∧ f = { text := [c], rest := f.rest } ∧ s = c :: f.rest := by
  cases s with
  | nil => exact absurd h List.not_mem_nil
  | cons c s =>
    rw [one] at h
    split_ifs at h with hc
    · obtain rfl := List.mem_singleton.mp h
      exact ⟨c, hc, rfl, rfl⟩
    · exact absurd h List.not_mem_nil

variable {items : List (Item α)}

theorem mem_found_cons {item : Item α} :
    f ∈ found (item :: items) s ↔ ∃ g ∈ item.found s, ∃ h ∈ found items g.rest, g.append h = f := by
  rw [found, List.mem_flatMap]
  simp only [List.mem_map]

theorem mem_group : f ∈ (Item.group items).found s ↔ ∃ g ∈ found items s, g.capture = f := by
  rw [Item.found, List.mem_map]

mutual

theorem Item.text_append_rest {item : Item α} {s : List α} {f : Found α}
    (h : f ∈ item.found s) : s = f.text ++ f.rest := by
  cases item with
  | one p =>
    rw [Item.found] at h
    obtain ⟨c, -, hf, hs⟩ := one_spec h
    rw [hf]
    exact hs
  | opt p =>
    rw [Item.found] at h
    obtain h | h := List.mem_append.mp h
    · obtain ⟨c, -, hf, hs⟩ := one_spec h
      rw [hf]
      exact hs
    · obtain rfl := List.mem_singleton.mp h
      rfl
  | many p =>
    rw [Item.found] at h
    exact (many_spec h).1
  | few p =>
    rw [Item.found] at h
    exact (many_spec (List.mem_reverse.mp h)).1
  | group items =>
    obtain ⟨g, hg, rfl⟩ := mem_group.mp h
    have htext : s = g.text ++ g.rest := text_append_rest hg
    exact htext
  | stop =>
    rw [Item.found] at h
    split_ifs at h
    · obtain rfl := List.mem_singleton.mp h
      rfl
    · exact absurd h List.not_mem_nil

/-- A match and what stands behind it make up the text. -/
theorem text_append_rest {items : List (Item α)} {s : List α} {f : Found α}
    (h : f ∈ found items s) : s = f.text ++ f.rest := by
  cases items with
  | nil =>
    rw [found] at h
    obtain rfl := List.mem_singleton.mp h
    rfl
  | cons item items =>
    obtain ⟨g, hg, k, hk, rfl⟩ := mem_found_cons.mp h
    have hitem := Item.text_append_rest hg
    have hitems := text_append_rest hk
    rw [hitem, hitems]
    exact (List.append_assoc ..).symm

end

/-! ## What is captured -/

theorem one_captures (h : f ∈ (Item.one p).found s) :
    f.captures = [] ∧ ∃ c, p c ∧ f.text = [c] := by
  rw [Item.found] at h
  obtain ⟨c, hc, hf, -⟩ := one_spec h
  rw [hf]
  exact ⟨rfl, c, hc, rfl⟩

theorem opt_captures (h : f ∈ (Item.opt p).found s) : f.captures = [] := by
  rw [Item.found] at h
  obtain h | h := List.mem_append.mp h
  · obtain ⟨c, hc, hf, -⟩ := one_spec h
    rw [hf]
  · rw [List.mem_singleton.mp h]

theorem many_captures (h : f ∈ (Item.many p).found s) : f.captures = [] ∧ ∀ c ∈ f.text, p c := by
  rw [Item.found] at h
  obtain ⟨-, hclass, hcaptures⟩ := many_spec h
  exact ⟨hcaptures, hclass⟩

theorem stop_spec (h : f ∈ (Item.stop : Item α).found s) : f = { text := [], rest := [] } := by
  rw [Item.found] at h
  split_ifs at h with hs
  · rw [List.mem_singleton.mp h, List.isEmpty_iff.mp hs]
  · exact absurd h List.not_mem_nil

theorem mem_found_singleton {item : Item α} : f ∈ found [item] s ↔ f ∈ item.found s := by
  rw [mem_found_cons]
  have hself : ∀ g : Found α, g.append { text := [], rest := g.rest } = g := fun g => by
    rw [Found.append, List.append_nil, List.append_nil]
  constructor
  · rintro ⟨g, hg, k, hk, rfl⟩
    rw [found] at hk
    rw [List.mem_singleton.mp hk, hself]
    exact hg
  · intro h
    refine ⟨f, h, _, ?_, hself f⟩
    rw [found]
    exact List.mem_singleton_self _

theorem group_many_captures
    (h : f ∈ (Item.group [.many p]).found s) : f.captures = [f.text] ∧ ∀ c ∈ f.text, p c := by
  obtain ⟨g, hg, rfl⟩ := mem_group.mp h
  obtain ⟨hcaptures, hclass⟩ := many_captures (mem_found_singleton.mp hg)
  exact ⟨congrArg (g.text :: ·) hcaptures, hclass⟩

theorem group_one_captures (h : f ∈ (Item.group [.one p]).found s) : f.captures = [f.text] := by
  obtain ⟨g, hg, rfl⟩ := mem_group.mp h
  exact congrArg (g.text :: ·) (one_captures (mem_found_singleton.mp hg)).1

theorem mem_word_append [DecidableEq α] {w : List α} (h : f ∈ found (word w ++ items) s) :
    ∃ t, ∃ g ∈ found items t, f = { g with text := w ++ g.text } := by
  induction w generalizing s f with
  | nil => exact ⟨s, f, h, rfl⟩
  | cons c w ih =>
    obtain ⟨g, hg, k, hk, rfl⟩ := mem_found_cons.mp h
    obtain ⟨hcaptures, d, hd, htext⟩ := one_captures hg
    obtain rfl := of_decide_eq_true hd
    obtain ⟨t, l, hl, rfl⟩ := ih hk
    refine ⟨t, l, hl, ?_⟩
    rw [Found.append, hcaptures, htext]
    rfl

/-! ## Searching -/

theorem anchored_mem (h : anchored items s = some f) : f ∈ found items s := List.mem_of_mem_head? h

theorem search_nil : search items s = some ([], f) ↔ anchored items s = some f := by
  cases s with
  | nil =>
    rw [search]
    constructor
    · intro h
      obtain ⟨g, hg, heq⟩ := Option.map_eq_some_iff.mp h
      rw [hg, (Prod.mk.inj heq).2]
    · intro h
      rw [h, Option.map_some]
  | cons c s =>
    rw [search]
    cases hstart : anchored items (c :: s) with
    | some g =>
      constructor
      · intro h
        exact congrArg some (Prod.mk.inj (Option.some.inj h)).2
      · intro h
        exact congrArg (fun f => some ([], f)) (Option.some.inj h)
    | none =>
      constructor
      · intro h
        obtain ⟨⟨a, g⟩, -, heq⟩ := Option.map_eq_some_iff.mp h
        exact absurd (Prod.mk.inj heq).1 (List.cons_ne_nil c a)
      · intro h
        cases h

end Pattern
