import Prosody.Util.Json

/-! # Reading JSON

The readers without their fuel, and the texts at which they go wrong. -/

namespace Prosody.Json

/-! ## What is left is shorter -/

theorem length_skipWhitespace (s : Text) : (skipWhitespace s).length ≤ s.length := by
  have hle := (List.dropWhile_suffix isSpace (l := s)).length_le
  unfold skipWhitespace
  split
  · exact le_rfl
  · rename_i heq
    rwa [heq] at hle

theorem length_of_skipWhitespace {s t : Text} {c : Char} (h : skipWhitespace s = c :: t) :
    t.length < s.length := by
  have := length_skipWhitespace s
  rw [h, List.length_cons] at this
  omega

theorem length_of_readString {s rest : Text} {v : Text} (h : readString s = .value v rest) :
    rest.length < s.length := by
  have hle := (List.dropWhile_suffix (· ≠ '"') (l := s)).length_le
  unfold readString at h
  split at h
  · cases h
  · rename_i heq
    split at h
    · cases h
    · cases h
      rw [heq, List.length_cons] at hle
      omega

theorem length_of_readNumber {s rest : Text} {v : Value} (h : readNumber s = .value v rest) :
    rest.length < s.length := by
  have hsplit := List.takeWhile_append_dropWhile (p := numberChar) (l := s)
  unfold readNumber at h
  split at h
  · cases h
  · rename_i q hread
    cases h
    have hne : s.takeWhile numberChar ≠ [] := by
      intro hnil
      rw [hnil] at hread
      cases hread
    have hpos := List.length_pos_of_ne_nil hne
    have hlength := congrArg List.length hsplit
    rw [List.length_append] at hlength
    omega

theorem length_of_readWord {word s rest : Text} {v w : Value} {error : String}
    (h : readWord word v error s = .value w rest) : rest.length ≤ s.length := by
  unfold readWord at h
  split at h
  · cases h
    rw [List.length_drop]
    omega
  · cases h

theorem bind_eq_value {α β : Type} {r : Outcome α} {f : α → Text → Outcome β} {v : β}
    {rest : Text} (h : r.bind f = .value v rest) :
    ∃ u mid, r = .value u mid ∧ f u mid = .value v rest := by
  cases r with
  | value u mid => exact ⟨u, mid, rfl, h⟩
  | failure _ => cases h
  | raised => cases h
  | out => cases h

theorem length_of_closeObject {lua : Lua} {o : List (Value × Value)} {s rest : Text} {v : Value}
    (h : closeObject lua o s = .value v rest) : rest = s := by
  unfold closeObject at h
  split at h
  · cases h
  · cases h
    rfl

theorem shorter (lua : Lua) (n : ℕ) :
    (∀ {s v rest}, readValue lua n s = .value v rest → rest.length < s.length) ∧
    (∀ {s o v rest}, readObject lua n s o = .value v rest → rest.length < s.length) ∧
    (∀ {start s a v rest}, s.length ≤ start.length → readArray lua n start s a = .value v rest →
      rest.length < start.length) := by
  induction n with
  | zero =>
    refine ⟨fun h => ?_, fun h => ?_, fun _ h => ?_⟩ <;> cases h
  | succ n ih =>
    obtain ⟨hvalue, hobject, harray⟩ := ih
    refine ⟨?_, ?_, ?_⟩
    · intro s v rest h
      unfold readValue at h
      split at h
      · cases h
      · rename_i b t hskip
        have ht := length_of_skipWhitespace hskip
        have hbt := length_skipWhitespace s
        rw [hskip] at hbt
        split at h
        · exact (hobject h).trans ht
        split at h
        · exact (harray le_rfl h).trans ht
        split at h
        · obtain ⟨x, mid, hread, hv⟩ := bind_eq_value h
          cases hv
          exact (length_of_readString hread).trans ht
        split at h
        · exact (length_of_readNumber h).trans_le hbt
        split at h
        · exact (length_of_readWord h).trans_lt ht
        split at h
        · exact (length_of_readWord h).trans_lt ht
        split at h
        · exact (length_of_readWord h).trans_lt ht
        · cases h
    · intro s o v rest h
      unfold readObject at h
      split at h
      · rename_i t hskip
        have ht := length_of_skipWhitespace hskip
        obtain ⟨key, rest', hread, h⟩ := bind_eq_value h
        have hrest := length_of_readString hread
        split at h
        · rename_i u hcolon
          have hu := length_of_skipWhitespace hcolon
          obtain ⟨val, behind, hval, h⟩ := bind_eq_value h
          have hbehind := hvalue hval
          simp only at h
          split at h
          · rename_i w hw
            have := length_of_skipWhitespace hw
            rw [length_of_closeObject h]
            omega
          · rename_i w hw
            have := length_of_skipWhitespace hw
            have := hobject h
            omega
          · cases h
        · cases h
      · rename_i t hskip
        cases h
        exact length_of_skipWhitespace hskip
      · cases h
    · intro start s a v rest hle h
      unfold readArray at h
      split at h
      · rename_i val mid hval
        have hmid := hvalue hval
        split at h
        · rename_i t ht
          cases h
          have := length_of_skipWhitespace ht
          omega
        · rename_i t ht
          have := length_of_skipWhitespace ht
          exact harray (by omega) h
        · cases h
      · split at h
        · cases h
          exact Nat.lt_succ_self _
        · cases h
      · cases h
      · cases h

/-! ## The fuel -/

/-- The same comes of both, and it is something. -/
def Agree {α : Type} (r r' : Outcome α) : Prop := r = r' ∧ r ≠ .out

theorem Agree.same {α : Type} {r : Outcome α} (h : r ≠ .out) : Agree r r := ⟨rfl, h⟩

theorem Agree.bind {α β : Type} {r r' : Outcome α} {f g : α → Text → Outcome β}
    (h : Agree r r') (hnext : ∀ v rest, r = .value v rest → Agree (f v rest) (g v rest)) :
    Agree (r.bind f) (r'.bind g) := by
  obtain ⟨rfl, hout⟩ := h
  cases r with
  | value v rest => exact hnext v rest rfl
  | failure e => exact Agree.same (fun h => by cases h)
  | raised => exact Agree.same (fun h => by cases h)
  | out => exact absurd rfl hout

theorem failed_ne_out {α : Type} (s : String) : (failed s : Outcome α) ≠ .out := by
  intro h
  cases h

theorem readString_ne_out (s : Text) : readString s ≠ .out := by
  unfold readString
  split
  · exact failed_ne_out _
  · split
    · exact failed_ne_out _
    · exact fun h => by cases h

theorem readNumber_ne_out (s : Text) : readNumber s ≠ .out := by
  unfold readNumber
  split <;> exact fun h => by cases h

theorem readWord_ne_out (word : Text) (v : Value) (error : String) (s : Text) :
    readWord word v error s ≠ .out := by
  unfold readWord
  split
  · exact fun h => by cases h
  · exact failed_ne_out _

theorem closeObject_ne_out (lua : Lua) (o : List (Value × Value)) (s : Text) :
    closeObject lua o s ≠ .out := by
  unfold closeObject
  split <;> exact fun h => by cases h

/-- Fuel for two readers at each character is enough. -/
theorem agree (lua : Lua) (n : ℕ) :
    (∀ m s, 2 * s.length < n → 2 * s.length < m →
      Agree (readValue lua n s) (readValue lua m s)) ∧
    (∀ m s o, 2 * s.length + 1 < n → 2 * s.length + 1 < m →
      Agree (readObject lua n s o) (readObject lua m s o)) ∧
    (∀ m start s a, 2 * s.length + 1 < n → 2 * s.length + 1 < m →
      Agree (readArray lua n start s a) (readArray lua m start s a)) := by
  induction n with
  | zero => exact ⟨by omega, by omega, by omega⟩
  | succ n ih =>
    obtain ⟨hvalue, hobject, harray⟩ := ih
    refine ⟨?_, ?_, ?_⟩
    · intro m s hn hm
      obtain ⟨m, rfl⟩ : ∃ k, m = k + 1 := ⟨m - 1, by omega⟩
      simp only [readValue]
      split
      · exact Agree.same (failed_ne_out _)
      · rename_i b t hskip
        have ht := length_of_skipWhitespace hskip
        split
        · exact hobject m t [] (by omega) (by omega)
        split
        · exact harray m t t [] (by omega) (by omega)
        split
        · exact Agree.bind (Agree.same (readString_ne_out t))
            fun _ _ _ => Agree.same fun h => by cases h
        split
        · exact Agree.same (readNumber_ne_out _)
        split
        · exact Agree.same (readWord_ne_out _ _ _ _)
        split
        · exact Agree.same (readWord_ne_out _ _ _ _)
        split
        · exact Agree.same (readWord_ne_out _ _ _ _)
        · exact Agree.same (failed_ne_out _)
    · intro m s o hn hm
      obtain ⟨m, rfl⟩ : ∃ k, m = k + 1 := ⟨m - 1, by omega⟩
      simp only [readObject]
      split
      · rename_i t hskip
        have ht := length_of_skipWhitespace hskip
        refine Agree.bind (Agree.same (readString_ne_out t)) fun key rest hread => ?_
        have hrest := length_of_readString hread
        split
        · rename_i u hcolon
          have hu := length_of_skipWhitespace hcolon
          refine Agree.bind (hvalue m u (by omega) (by omega)) fun val behind hval => ?_
          have hbehind := (shorter lua n).1 hval
          split
          · exact Agree.same (closeObject_ne_out _ _ _)
          · rename_i w hw
            have := length_of_skipWhitespace hw
            exact hobject m w _ (by omega) (by omega)
          · exact Agree.same (failed_ne_out _)
        · exact Agree.same (failed_ne_out _)
      · exact Agree.same fun h => by cases h
      · exact Agree.same (failed_ne_out _)
    · intro m start s a hn hm
      obtain ⟨m, rfl⟩ : ∃ k, m = k + 1 := ⟨m - 1, by omega⟩
      simp only [readArray]
      obtain ⟨hsame, hout⟩ := hvalue m s (by omega) (by omega)
      rw [← hsame]
      split
      · rename_i val mid hval
        have hmid := (shorter lua n).1 hval
        split
        · exact Agree.same fun h => by cases h
        · rename_i t ht
          have := length_of_skipWhitespace ht
          exact harray m start t _ (by omega) (by omega)
        · exact Agree.same (failed_ne_out _)
      · split <;> exact Agree.same fun h => by cases h
      · exact Agree.same fun h => by cases h
      · rename_i hval
        exact absurd hval hout

/-- A value, with as much fuel as it takes. -/
def value (lua : Lua) (s : Text) : Outcome Value := readValue lua (2 * s.length + 1) s

def object (lua : Lua) (s : Text) (o : List (Value × Value)) : Outcome Value :=
  readObject lua (2 * s.length + 2) s o

/-- An array that is known not to be empty. -/
def elements (lua : Lua) (s : Text) (a : List Value) : Outcome Value :=
  readArray lua (2 * s.length + 2) [] s a

theorem readValue_eq (lua : Lua) {n : ℕ} {s : Text} (h : 2 * s.length < n) :
    readValue lua n s = value lua s :=
  ((agree lua n).1 _ s h (Nat.lt_succ_self _)).1

theorem readObject_eq (lua : Lua) {n : ℕ} {s : Text} (o : List (Value × Value))
    (h : 2 * s.length + 1 < n) : readObject lua n s o = object lua s o :=
  ((agree lua n).2.1 _ s o h (Nat.lt_succ_self _)).1

theorem value_ne_out (lua : Lua) (s : Text) : value lua s ≠ .out :=
  ((agree lua _).1 _ s (Nat.lt_succ_self _) (Nat.lt_succ_self _)).2

/-- Where an array starts decides nothing, unless with the bracket that closes it. -/
theorem readArray_start (lua : Lua) {n : ℕ} {start : Text} (hstart : start.head? ≠ some ']')
    (s : Text) (a : List Value) : readArray lua n start s a = readArray lua n [] s a := by
  induction n generalizing s a with
  | zero => rfl
  | succ n ih =>
    simp only [readArray]
    cases readValue lua n s with
    | value val rest =>
      simp only
      split
      · rfl
      · exact ih _ _
      · rfl
    | failure f =>
      simp only
      split
      · exact absurd rfl hstart
      · rfl
    | raised => rfl
    | out => rfl

theorem readArray_eq (lua : Lua) {n : ℕ} {start s : Text} (hstart : start.head? ≠ some ']')
    (a : List Value) (h : 2 * s.length + 1 < n) :
    readArray lua n start s a = elements lua s a := by
  rw [readArray_start lua hstart]
  exact ((agree lua n).2.2 _ [] s a h (Nat.lt_succ_self _)).1

theorem decode_eq (lua : Lua) (json : Text) :
    decode lua json =
      match value lua (firstEscapes json) with
      | .value v rest =>
        if rest.all isSpace then .value v else .failure (.message "garbage at eof".toList)
      | .failure f => .failure f
      | .raised => .raised
      | .out => .out := rfl

/-! ### What the readers do -/

def afterMember (lua : Lua) (o : List (Value × Value)) (rest : Text) : Outcome Value :=
  match skipWhitespace rest with
  | '}' :: t => closeObject lua o t
  | ',' :: t => object lua t o
  | _ => failed "object eof"

def afterElement (lua : Lua) (a : List Value) (rest : Text) : Outcome Value :=
  match skipWhitespace rest with
  | ']' :: t => .value (.array a) t
  | ',' :: t => elements lua t a
  | _ => failed "array eof"

section Readers

variable {lua : Lua} {s t rest : Text} {o : List (Value × Value)} {a : List Value}

theorem afterMember_close (h : skipWhitespace rest = '}' :: t) :
    afterMember lua o rest = closeObject lua o t := by
  simp only [afterMember, h]

theorem afterMember_comma (h : skipWhitespace rest = ',' :: t) :
    afterMember lua o rest = object lua t o := by
  simp only [afterMember, h]

theorem afterMember_other (hclose : ∀ t, skipWhitespace rest ≠ '}' :: t)
    (hcomma : ∀ t, skipWhitespace rest ≠ ',' :: t) :
    afterMember lua o rest = failed "object eof" := by
  unfold afterMember
  split
  · rename_i heq
    exact absurd heq (hclose _)
  · rename_i heq
    exact absurd heq (hcomma _)
  · rfl

theorem afterElement_close (h : skipWhitespace rest = ']' :: t) :
    afterElement lua a rest = .value (.array a) t := by
  simp only [afterElement, h]

theorem afterElement_comma (h : skipWhitespace rest = ',' :: t) :
    afterElement lua a rest = elements lua t a := by
  simp only [afterElement, h]

theorem afterElement_other (hclose : ∀ t, skipWhitespace rest ≠ ']' :: t)
    (hcomma : ∀ t, skipWhitespace rest ≠ ',' :: t) :
    afterElement lua a rest = failed "array eof" := by
  unfold afterElement
  split
  · rename_i heq
    exact absurd heq (hclose _)
  · rename_i heq
    exact absurd heq (hcomma _)
  · rfl

theorem value_object (h : skipWhitespace s = '{' :: t) : value lua s = object lua t [] := by
  have ht := length_of_skipWhitespace h
  unfold value
  simp only [readValue, h, if_true]
  exact readObject_eq lua [] (by omega)

theorem value_array (h : skipWhitespace s = '[' :: t) (ht : t.head? ≠ some ']') :
    value lua s = elements lua t [] := by
  have hlt := length_of_skipWhitespace h
  unfold value
  simp only [readValue, h, if_true]
  exact readArray_eq lua ht [] (by omega)

theorem value_bracket (h : skipWhitespace s = ']' :: t) :
    value lua s = failed "value expected" := by
  unfold value
  simp only [readValue, h]
  rfl

theorem value_empty (h : skipWhitespace s = '[' :: ']' :: rest) :
    value lua s = .value (.array []) rest := by
  have ht := length_of_skipWhitespace h
  have hread : readValue lua (2 * s.length - 1) (']' :: rest) = failed "value expected" := by
    rw [readValue_eq lua (by omega)]
    exact value_bracket rfl
  obtain ⟨k, hk⟩ : ∃ k, 2 * s.length = k + 1 := ⟨2 * s.length - 1, by omega⟩
  unfold value
  simp only [readValue, h, if_true]
  rw [hk, readArray, show k = 2 * s.length - 1 by omega, hread]
  rfl

theorem value_string (h : skipWhitespace s = '"' :: t) :
    value lua s = (readString t).bind fun x rest => .value (.string x) rest := by
  unfold value
  simp only [readValue, h]
  rfl

theorem value_number {b : Char} (h : skipWhitespace s = b :: t) (hb : b.isDigit = true ∨ b = '-') :
    value lua s = readNumber (b :: t) := by
  unfold value
  simp only [readValue, h]
  rw [if_neg, if_neg, if_neg, if_pos hb] <;>
    (rintro rfl; exact absurd hb (by decide))

theorem value_null (h : skipWhitespace s = 'n' :: t) :
    value lua s = readWord "ull".toList .null "null parse failed" t := by
  unfold value
  simp only [readValue, h]
  rfl

theorem value_true (h : skipWhitespace s = 't' :: t) :
    value lua s = readWord "rue".toList (.boolean true) "true parse failed" t := by
  unfold value
  simp only [readValue, h]
  rfl

theorem value_false (h : skipWhitespace s = 'f' :: t) :
    value lua s = readWord "alse".toList (.boolean false) "false parse failed" t := by
  unfold value
  simp only [readValue, h]
  rfl

theorem object_close (h : skipWhitespace s = '}' :: t) :
    object lua s o = .value (.table o) t := by
  unfold object
  simp only [readObject, h]

/-- A name and the colon behind it come next, and this is left. -/
def Names (s key u : Text) : Prop :=
  ∃ t rest, skipWhitespace s = '"' :: t ∧ readString t = .value key rest ∧
    skipWhitespace rest = ':' :: u

theorem Names.length {key u : Text} (h : Names s key u) : u.length < s.length := by
  obtain ⟨t, rest, hskip, hread, hcolon⟩ := h
  have := length_of_skipWhitespace hskip
  have := length_of_readString hread
  have := length_of_skipWhitespace hcolon
  omega

theorem object_member {key u : Text} (h : Names s key u) :
    object lua s o = (value lua u).bind fun val => afterMember lua (set o (.string key) val) := by
  have hu := h.length
  obtain ⟨t, rest, hskip, hread, hcolon⟩ := h
  unfold object
  rw [readObject]
  simp only [hskip, hread, Outcome.bind, hcolon]
  rw [readValue_eq lua (by omega)]
  cases hval : value lua u with
  | value val behind =>
    have hbehind := (shorter lua _).1 hval
    simp only
    split
    · rename_i w hw
      exact (afterMember_close hw).symm
    · rename_i w hw
      have := length_of_skipWhitespace hw
      rw [afterMember_comma hw]
      exact readObject_eq lua _ (by omega)
    · rename_i hclose hcomma
      exact (afterMember_other hclose hcomma).symm
  | failure f => rfl
  | raised => rfl
  | out => rfl

theorem elements_eq :
    elements lua s a = (value lua s).bind fun val => afterElement lua (a ++ [val]) := by
  unfold elements
  rw [readArray, readValue_eq lua (by omega)]
  cases hval : value lua s with
  | value val behind =>
    have hbehind := (shorter lua _).1 hval
    simp only [Outcome.bind]
    split
    · rename_i w hw
      exact (afterElement_close hw).symm
    · rename_i w hw
      have := length_of_skipWhitespace hw
      rw [afterElement_comma hw]
      exact readArray_eq lua (by decide) _ (by omega)
    · rename_i hclose hcomma
      exact (afterElement_other hclose hcomma).symm
  | failure f => rfl
  | raised => rfl
  | out => rfl

end Readers

end Prosody.Json
