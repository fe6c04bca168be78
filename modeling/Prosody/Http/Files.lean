import Prosody.Http.Parser
import Prosody.Library.Paths

/-! # Paths of served files (`mod_http_files.lua`) -/

namespace Prosody.HttpFiles

open Httpstream (Bytes urldecode preprocessPath)

def dot : Bytes := ['.']

def dotDot : Bytes := ['.', '.']

/-- `forbidden_chars_pattern`, not on Windows. -/
def forbidden (c : Char) : Bool := c = '/' || c = Char.ofNat 0

/-- `path:gmatch("([^/]+)")` -/
def components (path : Bytes) : List Bytes := Paths.components '/' [] path

/-- The loop over the components. The variable `c` is the length of `out`. -/
def gather : List Bytes → List Bytes → Option (List Bytes)
  | out, [] => some out
  | out, component :: rest =>
    let component := urldecode component
    if component.any forbidden then none
    else if component = dotDot then
      if out.length ≤ 0 then none else gather out.dropLast rest
    else if component ≠ dot then gather (out ++ [component]) rest
    else gather out rest

def sanitizePath (path : Bytes) : Option Bytes :=
  (gather [] (components path)).map fun out =>
    '/' :: List.intercalate ['/'] (if path.getLast? = some '/' then out ++ [[]] else out)

/-- The path of the file that is served, from a path within `basePath`. -/
def fullPath (basePath path : Bytes) : Option Bytes :=
  (sanitizePath path).map fun path => basePath ++ path

/-- The file that a request asks for, at a route of some length. -/
def requested (basePath target : Bytes) (basePathLen : ℕ) : Option Bytes :=
  (preprocessPath target).bind fun path => fullPath basePath (path.drop (basePathLen - 1))

/-! ## Where paths lead -/

/-- Where components lead from a directory. -/
def walk (place : List Bytes) (components : List Bytes) : List Bytes :=
  Paths.walk '.' place components

/-- What a path names for who is at `cwd`. -/
def place (cwd : List Bytes) (path : Bytes) : Option (List Bytes) := Paths.place '/' '.' cwd path

/-- A component that names something in a directory, for the functions of C too. -/
structure Plain (component : Bytes) : Prop extends Paths.Name '/' '.' component where
  nul : Char.ofNat 0 ∉ component

def isName (component : Bytes) : Bool := component ≠ dot ∧ component ≠ dotDot

/-- Somewhere on the way there have been more steps up than down. -/
def Climbs (depth : ℕ) (components : List Bytes) : Prop :=
  ∃ front, front <+: components ∧ depth + front.countP isName < front.count dotDot

def decoded (path : Bytes) : List Bytes := (components path).map urldecode

/-! ## Components -/

theorem urldecode_ne_nil {s : Bytes} (h : s ≠ []) : urldecode s ≠ [] := by
  unfold urldecode
  split
  · split_ifs <;> simp
  · simp
  · exact absurd rfl h

variable {path : Bytes}

theorem ne_nil_of_mem_decoded {w : Bytes} (h : w ∈ decoded path) : w ≠ [] := by
  obtain ⟨c, hc, rfl⟩ := List.mem_map.mp h
  exact urldecode_ne_nil (Paths.mem_components List.not_mem_nil hc).1

/-! ## The loop -/

theorem climbs_nil (depth : ℕ) : ¬ Climbs depth [] := by
  rintro ⟨front, hfront, h⟩
  rw [List.prefix_nil.mp hfront] at h
  exact absurd h (by simp)

theorem climbs_cons (depth : ℕ) (c : Bytes) (rest : List Bytes) :
    Climbs depth (c :: rest) ↔ ∃ front, front <+: rest ∧
      depth + (c :: front).countP isName < (c :: front).count dotDot := by
  constructor
  · rintro ⟨front, hfront, h⟩
    rcases List.prefix_cons_iff.mp hfront with rfl | ⟨front, rfl, hprefix⟩
    · exact absurd h (by simp)
    · exact ⟨front, hprefix, h⟩
  · rintro ⟨front, hfront, h⟩
    exact ⟨c :: front, (List.prefix_cons_inj c).mpr hfront, h⟩

theorem climbs_dotDot (depth : ℕ) (rest : List Bytes) :
    Climbs depth (dotDot :: rest) ↔ depth = 0 ∨ Climbs (depth - 1) rest := by
  have hname : ¬ isName dotDot := by decide
  rw [climbs_cons]
  simp only [List.countP_cons_of_neg hname, List.count_cons_self]
  constructor
  · rintro ⟨front, hfront, h⟩
    by_cases hdepth : depth = 0
    · exact Or.inl hdepth
    · exact Or.inr ⟨front, hfront, by omega⟩
  · rintro (rfl | ⟨front, hfront, h⟩)
    · exact ⟨[], List.nil_prefix, Nat.zero_lt_one⟩
    · exact ⟨front, hfront, by omega⟩

theorem climbs_dot (depth : ℕ) (rest : List Bytes) :
    Climbs depth (dot :: rest) ↔ Climbs depth rest := by
  have hname : ¬ isName dot := by decide
  have hne : dot ≠ dotDot := by decide
  rw [climbs_cons]
  simp only [List.countP_cons_of_neg hname, List.count_cons_of_ne hne]
  rfl

variable {c : Bytes}

theorem climbs_name (depth : ℕ) (hname : isName c) (rest : List Bytes) :
    Climbs depth (c :: rest) ↔ Climbs (depth + 1) rest := by
  have hne : c ≠ dotDot := (of_decide_eq_true hname).2
  rw [climbs_cons]
  simp only [List.countP_cons_of_pos hname, List.count_cons_of_ne hne, Climbs, Nat.add_assoc,
    Nat.add_comm 1]

/-- What is refused: a component with a character that is not allowed, or a way out. -/
def Refused (depth : ℕ) (components : List Bytes) : Prop :=
  (∃ c ∈ components, ∃ x ∈ c, forbidden x) ∨ Climbs depth components

theorem refused_nil (depth : ℕ) : ¬ Refused depth [] := by
  rintro (⟨c, hc, -⟩ | h)
  · exact absurd hc List.not_mem_nil
  · exact climbs_nil depth h

theorem refused_of_forbidden (depth : ℕ) (h : c.any forbidden) (rest : List Bytes) :
    Refused depth (c :: rest) :=
  Or.inl ⟨c, List.mem_cons_self, List.any_eq_true.mp h⟩

theorem refused_cons {depth : ℕ} (h : ¬ c.any forbidden) (rest : List Bytes) :
    Refused depth (c :: rest) ↔ (∃ c ∈ rest, ∃ x ∈ c, forbidden x) ∨ Climbs depth (c :: rest) := by
  have hc : ¬ ∃ x ∈ c, forbidden x := fun hx => h (List.any_eq_true.mpr hx)
  rw [Refused, List.exists_mem_cons_iff]
  simp only [hc, false_or]

theorem gather_spec (out comps : List Bytes) :
    (gather out comps = none ↔ Refused out.length (comps.map urldecode)) ∧
      ∀ out', gather out comps = some out' → out' = walk out (comps.map urldecode) := by
  induction comps generalizing out with
  | nil =>
    exact ⟨iff_of_false (by simp [gather]) (refused_nil _),
      fun out' h => (Option.some.inj h).symm⟩
  | cons c comps ih =>
    rw [gather, List.map_cons, walk, Paths.walk, List.foldl_cons, ← Paths.walk, ← walk,
      Paths.enter, ← dotDot, ← dot]
    by_cases hforbidden : (urldecode c).any forbidden
    · rw [if_pos hforbidden]
      exact ⟨iff_of_true rfl (refused_of_forbidden _ hforbidden _), fun out' h => by cases h⟩
    · rw [if_neg hforbidden, refused_cons hforbidden]
      by_cases hup : urldecode c = dotDot
      · have hne : dotDot ≠ dot := by decide
        rw [hup, climbs_dotDot, if_pos rfl, if_neg hne, if_pos rfl]
        by_cases hout : out.length ≤ 0
        · rw [if_pos hout]
          exact ⟨iff_of_true rfl (Or.inr (Or.inl (Nat.le_zero.mp hout))),
            fun out' h => by cases h⟩
        · have hlength : out.length ≠ 0 := fun h => hout (Nat.le_zero.mpr h)
          have hrest := ih out.dropLast
          rw [List.length_dropLast] at hrest
          rw [if_neg hout, or_iff_right hlength]
          exact hrest
      · rw [if_neg hup]
        by_cases hdot : urldecode c = dot
        · rw [hdot, climbs_dot, if_neg (not_not_intro rfl), if_pos rfl]
          exact ih out
        · have hname : isName (urldecode c) := decide_eq_true ⟨hdot, hup⟩
          have hrest := ih (out ++ [urldecode c])
          rw [List.length_append, List.length_singleton] at hrest
          rw [climbs_name _ hname, if_pos hdot, if_neg hdot, if_neg hup]
          exact hrest

/-! ## What is left -/

theorem plain_of_decoded (hne : c ≠ []) (hdot : c ≠ dot) (hup : c ≠ dotDot)
    (hforbidden : ¬ ∃ x ∈ c, forbidden x) : Plain c :=
  ⟨⟨hne, hdot, hup, fun h => hforbidden ⟨_, h, rfl⟩⟩, fun h => hforbidden ⟨_, h, rfl⟩⟩

theorem walk_plain {place comps : List Bytes} (hplace : ∀ c ∈ place, Plain c)
    (hcomps : ∀ c ∈ comps, c ≠ [] ∧ ¬ ∃ x ∈ c, forbidden x) : ∀ c ∈ walk place comps, Plain c := by
  induction comps generalizing place with
  | nil => exact hplace
  | cons c comps ih =>
    rw [walk, Paths.walk, List.foldl_cons, ← Paths.walk, ← walk]
    refine ih (fun w hw => ?_) fun w hw => hcomps w (List.mem_cons_of_mem c hw)
    unfold Paths.enter at hw
    split_ifs at hw with hdot hup
    · exact hplace w hw
    · exact hplace w (List.mem_of_mem_dropLast hw)
    · rcases List.mem_append.mp hw with hw | hw
      · exact hplace w hw
      · obtain rfl := List.mem_singleton.mp hw
        obtain ⟨hne, hforbidden⟩ := hcomps w List.mem_cons_self
        exact plain_of_decoded hne hdot hup hforbidden

/-- What the result of `sanitizePath` consists of. -/
def trailing (path : Bytes) : List Bytes := if path.getLast? = some '/' then [[]] else []

theorem sanitizePath_none (path : Bytes) :
    sanitizePath path = none ↔ Refused 0 (decoded path) := by
  rw [sanitizePath, Option.map_eq_none_iff]
  exact (gather_spec [] (components path)).1

theorem sanitizePath_some {out : Bytes} (h : sanitizePath path = some out) :
    out = '/' :: List.intercalate ['/'] (walk [] (decoded path) ++ trailing path) ∧
      ∀ c ∈ walk [] (decoded path), Plain c := by
  have hnot : ¬ Refused 0 (decoded path) := fun hrefused => by
    rw [(sanitizePath_none path).mpr hrefused] at h
    cases h
  obtain ⟨gathered, hgather, rfl⟩ := Option.map_eq_some_iff.mp h
  obtain rfl := (gather_spec [] (components path)).2 gathered hgather
  refine ⟨?_, walk_plain (fun c hc => absurd hc List.not_mem_nil) fun c hc => ?_⟩
  · rw [decoded, trailing]
    split_ifs
    · rfl
    · rw [List.append_nil]
  · exact ⟨ne_nil_of_mem_decoded hc, fun hx => hnot (Or.inl ⟨c, hc, hx⟩)⟩

theorem components_result (hplain : ∀ c ∈ walk [] (decoded path), Plain c) :
    components (List.intercalate ['/'] (walk [] (decoded path) ++ trailing path)) =
      walk [] (decoded path) := by
  have hself : (walk [] (decoded path)).filter (· ≠ []) = walk [] (decoded path) :=
    List.filter_eq_self.mpr fun c hc => by simpa using (hplain c hc).ne_nil
  have htrailing : (trailing path).filter (· ≠ []) = [] := by
    unfold trailing
    split_ifs <;> rfl
  rw [components, Paths.components_intercalate, List.filter_append, hself, htrailing, List.append_nil]
  intro w hw
  rcases List.mem_append.mp hw with hw | hw
  · exact (hplain w hw).slash
  · unfold trailing at hw
    split_ifs at hw
    · obtain rfl := List.mem_singleton.mp hw
      exact List.not_mem_nil
    · exact absurd hw List.not_mem_nil

theorem place_append {cwd dir : List Bytes} {base out : Bytes}
    (hbase : place cwd base = some dir) (h : sanitizePath path = some out) :
    place cwd (base ++ out) = some (dir ++ walk [] (decoded path)) := by
  obtain ⟨rfl, hplain⟩ := sanitizePath_some h
  rw [place, Paths.place_append hbase, ← components, components_result hplain,
    Paths.walk_of_names _ fun c hc => (hplain c hc).toName]

/-- A path is refused exactly when its components, decoded, lead out of the root or have a character
that is not allowed; otherwise the result is where they lead, and names what is below the directory
that it is joined to, whatever a request asks for. -/
theorem served_paths_confined :
    (∀ path, (sanitizePath path = none ↔ Refused 0 (decoded path)) ∧
      ∀ out, sanitizePath path = some out →
        out = '/' :: List.intercalate ['/'] (walk [] (decoded path) ++ trailing path) ∧
          ∀ c ∈ walk [] (decoded path), Plain c) ∧
    ∀ basePath cwd dir target basePathLen file, place cwd basePath = some dir →
      requested basePath target basePathLen = some file →
        ∃ below, place cwd file = some (dir ++ below) ∧ ∀ c ∈ below, Plain c := by
  refine ⟨fun path => ⟨sanitizePath_none path, fun out h => sanitizePath_some h⟩, ?_⟩
  intro basePath cwd dir target basePathLen file hbase hfile
  obtain ⟨path, -, hpath⟩ := Option.bind_eq_some_iff.mp hfile
  obtain ⟨out, hout, rfl⟩ := Option.map_eq_some_iff.mp hpath
  exact ⟨_, place_append hbase hout, (sanitizePath_some hout).2⟩

example : sanitizePath "/a/%2e%2e/b//./c%25/".toList = some "/b/c%/".toList := by decide

example : sanitizePath "/a/%2e./..".toList = none := by decide

end Prosody.HttpFiles
