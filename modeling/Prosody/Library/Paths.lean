import Mathlib.Data.List.Infix

/-! # Paths in a tree of directories

A path consists of components with separators between them. One dot stays in a directory, two dots
go up, and everything else is a name. A place is the list of the directories above it and its own
name; the root is its own parent. -/

namespace Paths

variable {α : Type*} [DecidableEq α] (slash dot : α)

/-- The components of a path, where `component` has been read of the first one. -/
def components : List α → List α → List (List α)
  | component, [] => if component = [] then [] else [component]
  | component, c :: s =>
    if c = slash then
      if component = [] then components [] s else component :: components [] s
    else components (component ++ [c]) s

def enter (place : List (List α)) (component : List α) : List (List α) :=
  if component = [dot] then place
  else if component = [dot, dot] then place.dropLast
  else place ++ [component]

def walk (place components : List (List α)) : List (List α) := components.foldl (enter dot) place

/-- What a path names for who is at `cwd`; the empty path names nothing. -/
def place (cwd : List (List α)) (path : List α) : Option (List (List α)) :=
  if path = [] then none
  else some (walk dot (if path.head? = some slash then [] else cwd) (components slash [] path))

/-- A component that names something in a directory. -/
structure Name (component : List α) : Prop where
  ne_nil : component ≠ []
  ne_dot : component ≠ [dot]
  ne_dots : component ≠ [dot, dot]
  slash : slash ∉ component

variable {slash dot}

/-! ## Components -/

theorem components_slash (component s t : List α) :
    components slash component (s ++ slash :: t) =
      components slash component s ++ components slash [] t := by
  induction s generalizing component with
  | nil =>
    rw [List.nil_append, components, components, if_pos rfl]
    split_ifs with h
    · rfl
    · rfl
  | cons c s ih =>
    rw [List.cons_append, components, components]
    split_ifs with hc h
    · exact ih []
    · rw [ih [], List.cons_append]
    · exact ih (component ++ [c])

theorem components_plain (component s : List α) (hs : slash ∉ s) :
    components slash component s = if component ++ s = [] then [] else [component ++ s] := by
  induction s generalizing component with
  | nil => rw [components, List.append_nil]
  | cons c s ih =>
    have hc : c ≠ slash := fun h => hs (h ▸ List.mem_cons_self)
    rw [components, if_neg hc, ih _ fun h => hs (List.mem_cons_of_mem c h)]
    simp

/-- The words that are joined come back out, empty ones apart. -/
theorem components_intercalate (words : List (List α)) (h : ∀ w ∈ words, slash ∉ w) :
    components slash [] (List.intercalate [slash] words) = words.filter (· ≠ []) := by
  induction words with
  | nil => rfl
  | cons w words ih =>
    have hw := components_plain [] w (h w List.mem_cons_self)
    have hwords := ih fun v hv => h v (List.mem_cons_of_mem w hv)
    rw [List.nil_append] at hw
    cases words with
    | nil =>
      rw [List.intercalate_singleton, hw]
      by_cases hnil : w = [] <;> simp [hnil]
    | cons v words =>
      rw [List.intercalate_cons_cons, List.append_assoc, List.singleton_append,
        components_slash, hw, hwords]
      by_cases hnil : w = []
      · subst hnil
        rfl
      · rw [if_neg hnil, List.singleton_append, List.filter_cons (x := w),
          if_pos (by simpa using hnil)]

theorem mem_components {component s w : List α} (hcomponent : slash ∉ component)
    (h : w ∈ components slash component s) : w ≠ [] ∧ slash ∉ w := by
  induction s generalizing component with
  | nil =>
    rw [components] at h
    split_ifs at h with hnil
    · exact absurd h List.not_mem_nil
    · obtain rfl := List.mem_singleton.mp h
      exact ⟨hnil, hcomponent⟩
  | cons c s ih =>
    rw [components] at h
    split_ifs at h with hc hnil
    · exact ih List.not_mem_nil h
    · obtain rfl | h := List.mem_cons.mp h
      · exact ⟨hnil, hcomponent⟩
      · exact ih List.not_mem_nil h
    · refine ih (fun hmem => ?_) h
      rcases List.mem_append.mp hmem with hmem | hmem
      · exact hcomponent hmem
      · exact hc (List.mem_singleton.mp hmem).symm

theorem length_components {component s w : List α} (h : w ∈ components slash component s) :
    w.length ≤ component.length + s.length := by
  induction s generalizing component with
  | nil =>
    rw [components] at h
    split_ifs at h
    · exact absurd h List.not_mem_nil
    · rw [List.mem_singleton.mp h]
      exact Nat.le_add_right _ _
  | cons c s ih =>
    rw [components] at h
    rw [List.length_cons]
    split_ifs at h with hc hnil
    · have := ih h
      rw [List.length_nil] at this
      omega
    · rcases List.mem_cons.mp h with rfl | h
      · omega
      · have := ih h
        rw [List.length_nil] at this
        omega
    · have := ih h
      rw [List.length_append, List.length_singleton] at this
      omega

/-! ## Walks -/

theorem walk_concat (place comps : List (List α)) (c : List α) :
    walk dot place (comps ++ [c]) = enter dot (walk dot place comps) c := by
  rw [walk, List.foldl_append]
  rfl

/-- A walk ends below a directory that is above or at its start, on names that it takes. -/
theorem walk_spec (place comps : List (List α)) :
    ∃ k names, walk dot place comps = place.take k ++ names ∧ ∀ n ∈ names, n ∈ comps := by
  induction comps using List.reverseRecOn with
  | nil => exact ⟨place.length, [], by simp [walk], fun n hn => absurd hn List.not_mem_nil⟩
  | append_singleton comps c ih =>
    obtain ⟨k, names, hwalk, hnames⟩ := ih
    have hnames' : ∀ n ∈ names, n ∈ comps ++ [c] := fun n hn =>
      List.mem_append_left _ (hnames n hn)
    rw [walk_concat, hwalk, enter]
    split_ifs with hdot hdots
    · exact ⟨k, names, rfl, hnames'⟩
    · rcases List.eq_nil_or_concat names with rfl | ⟨front, last, rfl⟩
      · refine ⟨min k place.length - 1, [], ?_, fun n hn => absurd hn List.not_mem_nil⟩
        rw [List.append_nil, List.append_nil, List.dropLast_eq_take, List.length_take,
          List.take_take]
        congr 1
        omega
      · refine ⟨k, front, ?_, fun n hn => hnames' n (by simp [hn])⟩
        rw [List.concat_eq_append, ← List.append_assoc, List.dropLast_concat]
    · refine ⟨k, names ++ [c], (List.append_assoc _ _ _), fun n hn => ?_⟩
      rcases List.mem_append.mp hn with hn | hn
      · exact hnames' n hn
      · exact List.mem_append_right _ hn

/-- Who ends one step below the start has taken that step. -/
theorem mem_of_walk {place comps : List (List α)} {n : List α}
    (h : walk dot place comps = place ++ [n]) : n ∈ comps := by
  obtain ⟨k, names, hwalk, hnames⟩ := @walk_spec _ _ dot place comps
  rw [hwalk] at h
  rcases List.eq_nil_or_concat names with rfl | ⟨front, last, rfl⟩
  · have hlength := congrArg List.length h
    simp only [List.append_nil, List.length_take, List.length_append, List.length_singleton]
      at hlength
    omega
  · rw [List.concat_eq_append, ← List.append_assoc] at h
    obtain rfl := (List.append_singleton_inj.mp h).2
    exact hnames last (by simp)

/-- Names lead down. -/
theorem walk_of_names (place : List (List α)) {comps : List (List α)}
    (h : ∀ c ∈ comps, Name slash dot c) : walk dot place comps = place ++ comps := by
  induction comps generalizing place with
  | nil => exact (List.append_nil place).symm
  | cons c comps ih =>
    have hc := h c List.mem_cons_self
    rw [walk, List.foldl_cons, ← walk, enter, if_neg hc.ne_dot, if_neg hc.ne_dots,
      ih _ fun w hw => h w (List.mem_cons_of_mem c hw), List.append_assoc, List.singleton_append]

/-- A path behind another one is walked from where that one leads. -/
theorem place_append {cwd dir : List (List α)} {base : List α}
    (hbase : place slash dot cwd base = some dir) (s : List α) :
    place slash dot cwd (base ++ slash :: s) =
      some (walk dot dir (components slash [] s)) := by
  have hnil : base ≠ [] := fun hnil => by
    rw [place, if_pos hnil] at hbase
    cases hbase
  rw [place, if_neg hnil] at hbase
  have hdir := Option.some.inj hbase
  rw [place, if_neg (List.append_ne_nil_of_left_ne_nil hnil _), List.head?_append_of_ne_nil _ hnil,
    components_slash, walk, List.foldl_append, ← walk, ← walk, hdir]

end Paths
