import Prosody.Util.JsonReading

/-! # What is refused, and how

Most texts are read, or refused with a message. The others are told apart here without their being
read to the end: by what comes next where a value is expected, and by the members of an object that
ends. -/

namespace Prosody.Json

/-! ## Objects that cannot be restored -/

/-- `ipairs` cannot be called with it. -/
def breaks (lua : Lua) : Value → Bool
  | .number _ => true
  | .boolean b => b
  | .string _ => !lua.modern
  | _ => false

/-- What stands for the rest of the table is no table. -/
def Special (lua : Lua) (o : List (Value × Value)) : Prop :=
  ∃ name, (name = arrayName ∨ name = hashName) ∧ ∃ v, get o name = some v ∧ breaks lua v = true

theorem ipairs_eq_none_iff {lua : Lua} {v w : Value} (h : truthy (some v) = some w) :
    ipairs lua w = none ↔ breaks lua v = true := by
  cases v with
  | null => cases h; simp [ipairs, breaks]
  | boolean b =>
    cases b with
    | true => cases h; simp [ipairs, breaks]
    | false => cases h
  | number q => cases h; simp [ipairs, breaks]
  | string s => cases h; cases hm : lua.modern <;> simp [ipairs, breaks, hm]
  | array vs => cases h; simp [ipairs, breaks]
  | table es => cases h; simp [ipairs, breaks]

theorem get_foldl_insert (vs : List Value) (o : List (Value × Value)) (s : Text) :
    get (vs.foldl insert o) (.string s) = get o (.string s) := by
  induction vs generalizing o with
  | nil => rfl
  | cons v vs ih =>
    rw [List.foldl_cons, ih]
    exact get_set_of_ne (fun h => by cases h) v

/-- What a member stands for can be gone through, unless it is one of those that break. -/
theorem truthy_cases (lua : Lua) (m : Option Value) :
    truthy m = none ∧ (∀ v, m = some v → breaks lua v = false) ∨
      ∃ v, m = some v ∧ truthy m = some v := by
  cases m with
  | none => exact .inl ⟨rfl, fun v h => by cases h⟩
  | some v =>
    cases v with
    | boolean b =>
      cases b with
      | true => exact .inr ⟨_, rfl, rfl⟩
      | false => exact .inl ⟨rfl, fun v h => by cases h; rfl⟩
    | null => exact .inr ⟨_, rfl, rfl⟩
    | number q => exact .inr ⟨_, rfl, rfl⟩
    | string s => exact .inr ⟨_, rfl, rfl⟩
    | array vs => exact .inr ⟨_, rfl, rfl⟩
    | table es => exact .inr ⟨_, rfl, rfl⟩

theorem restore_eq_none_iff (lua : Lua) (name : Value)
    (add : List (Value × Value) → List Value → List (Value × Value)) (o : List (Value × Value)) :
    restore lua name add o = none ↔ ∃ v, get o name = some v ∧ breaks lua v = true := by
  unfold restore
  rcases truthy_cases lua (get o name) with ⟨hnone, hbreaks⟩ | ⟨v, hv, htruthy⟩
  · rw [hnone]
    refine iff_of_false (fun h => by cases h) ?_
    rintro ⟨v, hv, hbad⟩
    rw [hbreaks v hv] at hbad
    cases hbad
  · rw [htruthy]
    simp only [Option.map_eq_none_iff]
    rw [hv] at htruthy
    rw [ipairs_eq_none_iff htruthy, hv]
    exact ⟨fun h => ⟨v, rfl, h⟩, fun ⟨w, hw, h⟩ => Option.some.inj hw ▸ h⟩

theorem get_restore_array {lua : Lua} {o o' : List (Value × Value)} {s : Text}
    (h : restore lua arrayName (fun o vs => vs.foldl insert o) o = some o')
    (hs : arrayName ≠ .string s) : get o' (.string s) = get o (.string s) := by
  unfold restore at h
  split at h
  · cases h
    rfl
  · obtain ⟨vs, -, rfl⟩ := Option.map_eq_some_iff.mp h
    rw [get_foldl_insert]
    exact get_erase_of_ne hs

theorem fixobject_eq_none_iff (lua : Lua) (o : List (Value × Value)) :
    fixobject lua o = none ↔ Special lua o := by
  unfold fixobject Special
  cases hfix : restore lua arrayName (fun o vs => vs.foldl insert o) o with
  | none =>
    refine iff_of_true rfl ⟨arrayName, .inl rfl, ?_⟩
    exact (restore_eq_none_iff _ _ _ _).mp hfix
  | some o' =>
    have hget : get o' hashName = get o hashName :=
      get_restore_array hfix (by unfold arrayName; simp)
    rw [Option.bind_some, restore_eq_none_iff, hget]
    constructor
    · rintro ⟨v, hv, hbad⟩
      exact ⟨hashName, .inr rfl, v, hv, hbad⟩
    · rintro ⟨name, rfl | rfl, hv⟩
      · rw [(restore_eq_none_iff _ _ _ _).mpr hv] at hfix
        cases hfix
      · exact hv

theorem closeObject_cases (lua : Lua) (o : List (Value × Value)) (t : Text) :
    (Special lua o ∧ closeObject lua o t = .raised) ∨
      ∃ o', fixobject lua o = some o' ∧ closeObject lua o t = .value (.table o') t := by
  unfold closeObject
  cases hfix : fixobject lua o with
  | none => exact .inl ⟨(fixobject_eq_none_iff lua o).mp hfix, rfl⟩
  | some o' => exact .inr ⟨o', rfl, rfl⟩

/-! ## Places -/

/-- What is read next: a value, the members of an object, or the elements of an array. -/
inductive Place
  | value (s : Text)
  | members (s : Text) (o : List (Value × Value))
  | elements (s : Text) (a : List Value)

def Place.size : Place → ℕ
  | .value s => 2 * s.length
  | .members s _ => 2 * s.length + 1
  | .elements s _ => 2 * s.length + 1

def Place.read (lua : Lua) : Place → Outcome Value
  | .value s => Json.value lua s
  | .members s o => object lua s o
  | .elements s a => Json.elements lua s a

/-- What begins with a digit or a minus sign. -/
def Numeric (s : Text) : Prop := ∃ b ∈ s.head?, b.isDigit = true ∨ b = '-'

/-- What can be read at a place, and what is left behind it. -/
inductive Reads (lua : Lua) : Place → Value → Text → Prop
  | null {s rest} (h : skipWhitespace s = "null".toList ++ rest) : Reads lua (.value s) .null rest
  | true {s rest} (h : skipWhitespace s = "true".toList ++ rest) :
      Reads lua (.value s) (.boolean true) rest
  | false {s rest} (h : skipWhitespace s = "false".toList ++ rest) :
      Reads lua (.value s) (.boolean false) rest
  | string {s t x rest} (h : skipWhitespace s = '"' :: t) (hx : readString t = .value x rest) :
      Reads lua (.value s) (.string x) rest
  | number {s q} (h : Numeric (skipWhitespace s))
      (hq : Decimal.read ((skipWhitespace s).takeWhile numberChar) = some q) :
      Reads lua (.value s) (.number q) ((skipWhitespace s).dropWhile numberChar)
  | object {s t v rest} (h : skipWhitespace s = '{' :: t) (ht : Reads lua (.members t []) v rest) :
      Reads lua (.value s) v rest
  | empty {s rest} (h : skipWhitespace s = '[' :: ']' :: rest) :
      Reads lua (.value s) (.array []) rest
  | array {s t v rest} (h : skipWhitespace s = '[' :: t) (hne : t.head? ≠ some ']')
      (ht : Reads lua (.elements t []) v rest) : Reads lua (.value s) v rest
  | close {s o rest} (h : skipWhitespace s = '}' :: rest) :
      Reads lua (.members s o) (.table o) rest
  | lastMember {s o key u val mid t o'} (hkey : Names s key u) (hval : Reads lua (.value u) val mid)
      (h : skipWhitespace mid = '}' :: t) (ho : fixobject lua (set o (.string key) val) = some o') :
      Reads lua (.members s o) (.table o') t
  | member {s o key u val mid t v rest} (hkey : Names s key u)
      (hval : Reads lua (.value u) val mid) (h : skipWhitespace mid = ',' :: t)
      (ht : Reads lua (.members t (set o (.string key) val)) v rest) :
      Reads lua (.members s o) v rest
  | lastElement {s a val mid t} (hval : Reads lua (.value s) val mid)
      (h : skipWhitespace mid = ']' :: t) : Reads lua (.elements s a) (.array (a ++ [val])) t
  | element {s a val mid t v rest} (hval : Reads lua (.value s) val mid)
      (h : skipWhitespace mid = ',' :: t) (ht : Reads lua (.elements t (a ++ [val])) v rest) :
      Reads lua (.elements s a) v rest

/-- A place from which one comes to a value that begins like a number and is none, or to the end of
an object that cannot be restored. -/
inductive Wrong (lua : Lua) : Place → Prop
  | number {s} (h : Numeric (skipWhitespace s))
      (hq : Decimal.read ((skipWhitespace s).takeWhile numberChar) = none) : Wrong lua (.value s)
  | object {s t} (h : skipWhitespace s = '{' :: t) (ht : Wrong lua (.members t [])) :
      Wrong lua (.value s)
  | array {s t} (h : skipWhitespace s = '[' :: t) (hne : t.head? ≠ some ']')
      (ht : Wrong lua (.elements t [])) : Wrong lua (.value s)
  | memberValue {s o key u} (hkey : Names s key u) (hval : Wrong lua (.value u)) :
      Wrong lua (.members s o)
  | special {s o key u val mid t} (hkey : Names s key u) (hval : Reads lua (.value u) val mid)
      (h : skipWhitespace mid = '}' :: t) (ho : Special lua (set o (.string key) val)) :
      Wrong lua (.members s o)
  | member {s o key u val mid t} (hkey : Names s key u) (hval : Reads lua (.value u) val mid)
      (h : skipWhitespace mid = ',' :: t)
      (ht : Wrong lua (.members t (set o (.string key) val))) : Wrong lua (.members s o)
  | elementValue {s a} (hval : Wrong lua (.value s)) : Wrong lua (.elements s a)
  | element {s a val mid t} (hval : Reads lua (.value s) val mid)
      (h : skipWhitespace mid = ',' :: t) (ht : Wrong lua (.elements t (a ++ [val]))) :
      Wrong lua (.elements s a)

/-! ## Reading comes to them -/

section Places

variable {lua : Lua}

theorem readWord_cases (word : Text) (v : Value) (error : String) (s : Text) :
    (∃ rest, s = word ++ rest ∧ readWord word v error s = .value v rest) ∨
      readWord word v error s = failed error := by
  unfold readWord
  by_cases hword : s.take word.length = word
  · rw [if_pos hword]
    refine .inl ⟨_, ?_, rfl⟩
    conv_lhs => rw [← List.take_append_drop word.length s, hword]
  · rw [if_neg hword]
    exact .inr rfl

theorem value_of_numeric {s : Text} (h : Numeric (skipWhitespace s)) :
    value lua s = readNumber (skipWhitespace s) := by
  obtain ⟨b, hb, hdigit⟩ := h
  obtain ⟨t, ht⟩ := List.head?_eq_some_iff.mp hb
  rw [value_number ht hdigit, ht]

/-- Refused with a message. -/
def Refused (r : Outcome Value) : Prop := ∃ m, r = .failure (.message m)

theorem refused_failed (m : String) : Refused (failed m) := ⟨m.toList, rfl⟩

/-- How a value can begin. -/
inductive Begins (lua : Lua) (s : Text) : Prop
  | object {t} (h : skipWhitespace s = '{' :: t)
  | empty {t} (h : skipWhitespace s = '[' :: ']' :: t)
  | array {t} (h : skipWhitespace s = '[' :: t) (hne : t.head? ≠ some ']')
  | string {t} (h : skipWhitespace s = '"' :: t)
  | number (h : Numeric (skipWhitespace s))
  | word {v rest} (h : Reads lua (.value s) v rest) (hv : value lua s = .value v rest)
  | other (h : Refused (value lua s))

theorem begins (lua : Lua) (s : Text) : Begins lua s := by
  cases hskip : skipWhitespace s with
  | nil =>
    refine .other ?_
    unfold value
    simp only [readValue, hskip]
    exact refused_failed _
  | cons b t =>
    by_cases hobject : b = '{'
    · exact .object (hobject ▸ hskip)
    by_cases harray : b = '['
    · subst harray
      by_cases hempty : t.head? = some ']'
      · obtain ⟨rest, rfl⟩ := List.head?_eq_some_iff.mp hempty
        exact .empty hskip
      · exact .array hskip hempty
    by_cases hstring : b = '"'
    · exact .string (hstring ▸ hskip)
    by_cases hnumber : b.isDigit = true ∨ b = '-'
    · refine .number ⟨b, ?_, hnumber⟩
      rw [hskip]
      rfl
    by_cases hnull : b = 'n'
    · subst hnull
      rcases readWord_cases "ull".toList .null "null parse failed" t with
        ⟨rest, rfl, hread⟩ | hread
      · exact .word (.null hskip) ((value_null hskip).trans hread)
      · exact .other ((value_null hskip).trans hread ▸ refused_failed _)
    by_cases htrue : b = 't'
    · subst htrue
      rcases readWord_cases "rue".toList (.boolean true) "true parse failed" t with
        ⟨rest, rfl, hread⟩ | hread
      · exact .word (.true hskip) ((value_true hskip).trans hread)
      · exact .other ((value_true hskip).trans hread ▸ refused_failed _)
    by_cases hfalse : b = 'f'
    · subst hfalse
      rcases readWord_cases "alse".toList (.boolean false) "false parse failed" t with
        ⟨rest, rfl, hread⟩ | hread
      · exact .word (.false hskip) ((value_false hskip).trans hread)
      · exact .other ((value_false hskip).trans hread ▸ refused_failed _)
    · refine .other ?_
      unfold value
      simp only [readValue, hskip]
      rw [if_neg hobject, if_neg harray, if_neg hstring, if_neg hnumber, if_neg hnull,
        if_neg htrue, if_neg hfalse]
      exact refused_failed _

theorem readString_cases (s : Text) :
    (∃ x rest, readString s = .value x rest) ∨ ∃ m, readString s = .failure (.message m) := by
  unfold readString
  split
  · exact .inr ⟨_, rfl⟩
  · split
    · exact .inr ⟨_, rfl⟩
    · exact .inl ⟨_, _, rfl⟩

theorem object_cases (lua : Lua) (s : Text) (o : List (Value × Value)) :
    (∃ key u, Names s key u) ∨ (∃ t, skipWhitespace s = '}' :: t) ∨ Refused (object lua s o) := by
  unfold object
  rw [readObject]
  split
  · rename_i t hskip
    rcases readString_cases t with ⟨key, rest, hread⟩ | ⟨m, hread⟩
    · by_cases hcolon : ∃ u, skipWhitespace rest = ':' :: u
      · obtain ⟨u, hcolon⟩ := hcolon
        exact .inl ⟨key, u, t, rest, hskip, hread, hcolon⟩
      · refine .inr (.inr ?_)
        rw [hread]
        simp only [Outcome.bind]
        split
        · rename_i heq
          exact absurd ⟨_, heq⟩ hcolon
        · exact refused_failed _
    · rw [hread]
      exact .inr (.inr ⟨m, rfl⟩)
  · exact .inr (.inl ⟨_, ‹_›⟩)
  · exact .inr (.inr (refused_failed _))

theorem behind_cases (close : Char) (rest : Text) :
    (∃ t, skipWhitespace rest = close :: t) ∨ (∃ t, skipWhitespace rest = ',' :: t) ∨
      (∀ t, skipWhitespace rest ≠ close :: t) ∧ ∀ t, skipWhitespace rest ≠ ',' :: t := by
  by_cases hclose : ∃ t, skipWhitespace rest = close :: t
  · exact .inl hclose
  by_cases hcomma : ∃ t, skipWhitespace rest = ',' :: t
  · exact .inr (.inl hcomma)
  · exact .inr (.inr ⟨fun t h => hclose ⟨t, h⟩, fun t h => hcomma ⟨t, h⟩⟩)

theorem size_value {s t : Text} {c : Char} (h : skipWhitespace s = c :: t) :
    2 * t.length + 1 < 2 * s.length := by
  have := length_of_skipWhitespace h
  omega

theorem length_of_value {s rest : Text} {v : Value} (h : value lua s = .value v rest) :
    rest.length < s.length := (shorter lua _).1 h

/-- Whatever is read has been there. -/
theorem reads_of_read {p : Place} {v : Value} {rest : Text} (h : p.read lua = .value v rest) :
    Reads lua p v rest := by
  induction hsize : p.size using Nat.strong_induction_on generalizing p v rest with
  | h n ih =>
    subst hsize
    cases p with
    | value s =>
      cases begins lua s with
      | object hskip =>
        refine .object hskip (ih _ (size_value hskip) ?_ rfl)
        exact (value_object hskip).symm.trans h
      | empty hskip =>
        cases (value_empty hskip).symm.trans h
        exact .empty hskip
      | array hskip hne =>
        refine .array hskip hne (ih _ (size_value hskip) ?_ rfl)
        exact (value_array hskip hne).symm.trans h
      | string hskip =>
        obtain ⟨x, mid, hread, hv⟩ := bind_eq_value ((value_string hskip).symm.trans h)
        cases hv
        exact .string hskip hread
      | number hnumber =>
        have hread := (value_of_numeric hnumber).symm.trans h
        unfold readNumber at hread
        split at hread
        · cases hread
        · rename_i hq
          cases hread
          exact .number hnumber hq
      | word hreads hv =>
        cases hv.symm.trans h
        exact hreads
      | other hrefused =>
        obtain ⟨m, hm⟩ := hrefused
        cases hm.symm.trans h
    | members s o =>
      rcases object_cases lua s o with ⟨key, u, hkey⟩ | ⟨t, hclose⟩ | ⟨m, hm⟩
      · obtain ⟨val, mid, hval, hafter⟩ := bind_eq_value ((object_member hkey).symm.trans h)
        have hu := hkey.length
        have hmid := length_of_value hval
        have hreads : Reads lua (.value u) val mid :=
          ih _ (by simp only [Place.size]; omega) hval rfl
        rcases behind_cases '}' mid with ⟨t, ht⟩ | ⟨t, ht⟩ | ⟨hclose, hcomma⟩
        · rw [afterMember_close ht] at hafter
          rcases closeObject_cases lua (set o (.string key) val) t with
            ⟨-, hraised⟩ | ⟨o', ho, hvalue⟩
          · cases hraised.symm.trans hafter
          · cases hvalue.symm.trans hafter
            exact .lastMember hkey hreads ht ho
        · rw [afterMember_comma ht] at hafter
          have := length_of_skipWhitespace ht
          exact .member hkey hreads ht (ih _ (by simp only [Place.size]; omega) hafter rfl)
        · cases (afterMember_other hclose hcomma).symm.trans hafter
      · cases (object_close hclose).symm.trans h
        exact .close hclose
      · cases hm.symm.trans h
    | elements s a =>
      obtain ⟨val, mid, hval, hafter⟩ := bind_eq_value (elements_eq.symm.trans h)
      have hmid := length_of_value hval
      have hreads : Reads lua (.value s) val mid :=
        ih _ (by simp only [Place.size]; omega) hval rfl
      rcases behind_cases ']' mid with ⟨t, ht⟩ | ⟨t, ht⟩ | ⟨hclose, hcomma⟩
      · cases (afterElement_close ht).symm.trans hafter
        exact .lastElement hreads ht
      · rw [afterElement_comma ht] at hafter
        have := length_of_skipWhitespace ht
        exact .element hreads ht (ih _ (by simp only [Place.size]; omega) hafter rfl)
      · cases (afterElement_other hclose hcomma).symm.trans hafter

/-- Whatever is there is read. -/
theorem read_of_reads {p : Place} {v : Value} {rest : Text} (h : Reads lua p v rest) :
    p.read lua = .value v rest := by
  induction h with
  | null h => exact (value_null h).trans rfl
  | true h => exact (value_true h).trans rfl
  | false h => exact (value_false h).trans rfl
  | string h hx => rw [Place.read, value_string h, hx]; rfl
  | number h hq => rw [Place.read, value_of_numeric h, readNumber, hq]
  | object h _ ih => exact (value_object h).trans ih
  | empty h => exact value_empty h
  | array h hne _ ih => exact (value_array h hne).trans ih
  | close h => exact object_close h
  | lastMember hkey _ h ho ih =>
    rw [Place.read] at ih
    rw [Place.read, object_member hkey, ih]
    simp only [Outcome.bind]
    rw [afterMember_close h, closeObject, ho]
  | member hkey _ h _ ih iht =>
    rw [Place.read] at ih
    rw [Place.read, object_member hkey, ih]
    exact (afterMember_comma h).trans iht
  | lastElement _ h ih =>
    rw [Place.read] at ih
    rw [Place.read, elements_eq, ih]
    exact afterElement_close h
  | element _ h _ ih iht =>
    rw [Place.read] at ih
    rw [Place.read, elements_eq, ih]
    exact (afterElement_comma h).trans iht

/-- Refused without a message, or an error. -/
def Bad (r : Outcome Value) : Prop := r = .raised ∨ ∃ rest, r = .failure (.place rest)

theorem not_bad_value (v : Value) (rest : Text) : ¬ Bad (.value v rest) := by
  rintro (h | ⟨t, h⟩) <;> cases h

theorem not_bad_refused {r : Outcome Value} (h : Refused r) : ¬ Bad r := by
  obtain ⟨m, rfl⟩ := h
  rintro (h | ⟨t, h⟩) <;> cases h

theorem bad_bind {r : Outcome Value} {f : Value → Text → Outcome Value} :
    Bad (r.bind f) ↔ Bad r ∨ ∃ v rest, r = .value v rest ∧ Bad (f v rest) := by
  cases r with
  | value v rest =>
    constructor
    · exact fun h => .inr ⟨v, rest, rfl, h⟩
    · rintro (h | ⟨v, rest, h, hbad⟩)
      · exact absurd h (not_bad_value v rest)
      · cases h
        exact hbad
  | failure f => simp [Outcome.bind, Bad]
  | raised => simp [Outcome.bind, Bad]
  | out => simp [Outcome.bind, Bad]

theorem wrong_of_bad {p : Place} (h : Bad (p.read lua)) : Wrong lua p := by
  induction hsize : p.size using Nat.strong_induction_on generalizing p with
  | h n ih =>
    subst hsize
    cases p with
    | value s =>
      rw [Place.read] at h
      cases begins lua s with
      | object hskip =>
        rw [value_object hskip] at h
        exact .object hskip (ih _ (size_value hskip) h rfl)
      | empty hskip =>
        rw [value_empty hskip] at h
        exact absurd h (not_bad_value _ _)
      | array hskip hne =>
        rw [value_array hskip hne] at h
        exact .array hskip hne (ih _ (size_value hskip) h rfl)
      | @string t hskip =>
        rw [value_string hskip] at h
        rcases readString_cases t with ⟨x, rest, hread⟩ | ⟨m, hread⟩
        · rw [hread] at h
          exact absurd h (not_bad_value _ _)
        · rw [hread] at h
          exact absurd h (not_bad_refused ⟨m, rfl⟩)
      | number hnumber =>
        rw [value_of_numeric hnumber, readNumber] at h
        cases hq : Decimal.read ((skipWhitespace s).takeWhile numberChar) with
        | none => exact .number hnumber hq
        | some q =>
          rw [hq] at h
          exact absurd h (not_bad_value _ _)
      | word _ hv =>
        rw [hv] at h
        exact absurd h (not_bad_value _ _)
      | other hrefused => exact absurd h (not_bad_refused hrefused)
    | members s o =>
      rw [Place.read] at h
      rcases object_cases lua s o with ⟨key, u, hkey⟩ | ⟨t, hclose⟩ | hrefused
      · have hu := hkey.length
        rw [object_member hkey, bad_bind] at h
        rcases h with hbad | ⟨val, mid, hval, hafter⟩
        · exact .memberValue hkey (ih _ (by simp only [Place.size]; omega) hbad rfl)
        have hmid := length_of_value hval
        have hreads : Reads lua (.value u) val mid := reads_of_read hval
        rcases behind_cases '}' mid with ⟨t, ht⟩ | ⟨t, ht⟩ | ⟨hclose, hcomma⟩
        · rw [afterMember_close ht] at hafter
          rcases closeObject_cases lua (set o (.string key) val) t with
            ⟨hspecial, -⟩ | ⟨o', -, hvalue⟩
          · exact .special hkey hreads ht hspecial
          · rw [hvalue] at hafter
            exact absurd hafter (not_bad_value _ _)
        · rw [afterMember_comma ht] at hafter
          have := length_of_skipWhitespace ht
          exact .member hkey hreads ht (ih _ (by simp only [Place.size]; omega) hafter rfl)
        · rw [afterMember_other hclose hcomma] at hafter
          exact absurd hafter (not_bad_refused (refused_failed _))
      · rw [object_close hclose] at h
        exact absurd h (not_bad_value _ _)
      · exact absurd h (not_bad_refused hrefused)
    | elements s a =>
      rw [Place.read, elements_eq, bad_bind] at h
      rcases h with hbad | ⟨val, mid, hval, hafter⟩
      · exact .elementValue (ih _ (Nat.lt_succ_self _) hbad rfl)
      have hmid := length_of_value hval
      have hreads : Reads lua (.value s) val mid := reads_of_read hval
      rcases behind_cases ']' mid with ⟨t, ht⟩ | ⟨t, ht⟩ | ⟨hclose, hcomma⟩
      · rw [afterElement_close ht] at hafter
        exact absurd hafter (not_bad_value _ _)
      · rw [afterElement_comma ht] at hafter
        have := length_of_skipWhitespace ht
        exact .element hreads ht (ih _ (by simp only [Place.size]; omega) hafter rfl)
      · rw [afterElement_other hclose hcomma] at hafter
        exact absurd hafter (not_bad_refused (refused_failed _))

theorem bad_of_wrong {p : Place} (h : Wrong lua p) : Bad (p.read lua) := by
  induction h with
  | number h hq =>
    rw [Place.read, value_of_numeric h, readNumber, hq]
    exact .inr ⟨_, rfl⟩
  | object h _ ih =>
    rw [Place.read, value_object h]
    exact ih
  | array h hne _ ih =>
    rw [Place.read, value_array h hne]
    exact ih
  | memberValue hkey _ ih =>
    rw [Place.read, object_member hkey]
    exact bad_bind.mpr (.inl ih)
  | @special s o key u val mid t hkey hval h ho =>
    rw [Place.read, object_member hkey]
    refine bad_bind.mpr (.inr ⟨val, mid, read_of_reads hval, ?_⟩)
    rw [afterMember_close h, closeObject, (fixobject_eq_none_iff _ _).mpr ho]
    exact .inl rfl
  | member hkey hval h _ ih =>
    rw [Place.read, object_member hkey]
    refine bad_bind.mpr (.inr ⟨_, _, read_of_reads hval, ?_⟩)
    rw [afterMember_comma h]
    exact ih
  | elementValue _ ih =>
    rw [Place.read, elements_eq]
    exact bad_bind.mpr (.inl ih)
  | element hval h _ ih =>
    rw [Place.read, elements_eq]
    refine bad_bind.mpr (.inr ⟨_, _, read_of_reads hval, ?_⟩)
    rw [afterElement_comma h]
    exact ih

end Places

def Answered (r : Result) : Prop := (∃ v, r = .value v) ∨ ∃ m, r = .failure (.message m)

/-- Texts are read, or refused with a message, unless they come to a value that begins like a number
and is none, or to the end of an object with such members. -/
theorem decode_answered_iff (lua : Lua) (json : Text) :
    Answered (decode lua json) ↔ ¬ Wrong lua (.value (firstEscapes json)) := by
  have hwrong : Wrong lua (.value (firstEscapes json)) ↔ Bad (value lua (firstEscapes json)) :=
    ⟨bad_of_wrong (p := .value _), wrong_of_bad (p := .value _)⟩
  have hout := value_ne_out lua (firstEscapes json)
  rw [hwrong, decode_eq]
  cases hread : value lua (firstEscapes json) with
  | value v rest =>
    refine iff_of_true ?_ (not_bad_value v rest)
    simp only
    split
    · exact .inl ⟨v, rfl⟩
    · exact .inr ⟨_, rfl⟩
  | failure f =>
    cases f with
    | message m => exact iff_of_true (.inr ⟨m, rfl⟩) (not_bad_refused ⟨m, rfl⟩)
    | place rest =>
      refine iff_of_false ?_ (not_not_intro (.inr ⟨rest, rfl⟩))
      rintro (⟨v, h⟩ | ⟨m, h⟩) <;> cases h
  | raised =>
    refine iff_of_false ?_ (not_not_intro (.inl rfl))
    rintro (⟨v, h⟩ | ⟨m, h⟩) <;> cases h
  | out => exact absurd hread hout

/-- Nothing is said about a lone sign. -/
theorem sign_not_answered :
    ¬ Answered (decode (.keeping true) ['-']) := by
  rintro (⟨v, h⟩ | ⟨m, h⟩) <;> cases h

end Prosody.Json
