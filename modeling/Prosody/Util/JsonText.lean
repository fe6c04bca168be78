import Prosody.Util.JsonReading

/-! # Texts of values

What is read of a text that has been written for a value, whatever comes behind it. -/

namespace Prosody.Json

/-! ## The first escapes -/

variable {c : Char}

theorem firstEscapes_cons (h : c ≠ '\\') (s : Text) :
    firstEscapes (c :: s) = c :: firstEscapes s := by
  cases s with
  | nil => rfl
  | cons d s => rw [firstEscapes, if_neg h]

theorem firstEscapes_append {s : Text} (h : ∀ c ∈ s, c ≠ '\\') (t : Text) :
    firstEscapes (s ++ t) = s ++ firstEscapes t := by
  induction s with
  | nil => rfl
  | cons c s ih =>
    rw [List.cons_append, firstEscapes_cons (h c List.mem_cons_self),
      ih fun d hd => h d (List.mem_cons_of_mem c hd)]
    rfl

theorem exists_firstEscape (c : Char) : ∃ t, firstEscape c = '\\' :: t := by
  unfold firstEscape
  repeat' split
  all_goals exact ⟨_, rfl⟩

/-- What a text begins with stays. -/
theorem head?_firstEscapes (s : Text) : (firstEscapes s).head? = s.head? := by
  cases s with
  | nil => rfl
  | cons c s =>
    by_cases hc : c = '\\'
    · subst hc
      cases s with
      | nil => rfl
      | cons d s =>
        obtain ⟨t, ht⟩ := exists_firstEscape d
        rw [firstEscapes, if_pos rfl, ht]
        rfl
    · rw [firstEscapes_cons hc]
      rfl

/-! ## Whitespace -/

theorem skipWhitespace_of_dropWhile {s t : Text} (h : s.dropWhile isSpace = c :: t) :
    skipWhitespace s = c :: t := by
  unfold skipWhitespace
  rw [h]

theorem dropWhile_cons (h : isSpace c = false) (s : Text) : (c :: s).dropWhile isSpace = c :: s :=
  List.dropWhile_cons_of_neg (by rw [h]; exact Bool.false_ne_true)

theorem skipWhitespace_cons (h : isSpace c = false) (s : Text) : skipWhitespace (c :: s) = c :: s :=
  skipWhitespace_of_dropWhile (dropWhile_cons h s)

theorem value_congr {lua : Lua} {s s' : Text} (h : skipWhitespace s = skipWhitespace s') :
    value lua s = value lua s' := by
  have hs : 2 * s.length < 2 * s.length + 2 * s'.length + 1 := by omega
  have hs' : 2 * s'.length < 2 * s.length + 2 * s'.length + 1 := by omega
  rw [← readValue_eq lua hs, ← readValue_eq lua hs']
  simp only [readValue, h]

/-- Texts that consist of whitespace. -/
abbrev Blank := {s : Text // s.all isSpace = true}

namespace Blank

variable (blank : Blank)

theorem isSpace_of_mem {c : Char} (h : c ∈ blank.1) : isSpace c = true :=
  List.all_eq_true.mp blank.2 c h

theorem firstEscapes_append (s : Text) : firstEscapes (blank.1 ++ s) = blank.1 ++ firstEscapes s :=
  Json.firstEscapes_append (fun c hc hback => by
    have hspace := blank.isSpace_of_mem hc
    rw [hback] at hspace
    cases hspace) s

theorem dropWhile_append (s : Text) :
    (blank.1 ++ s).dropWhile isSpace = s.dropWhile isSpace :=
  List.dropWhile_append_of_pos fun _ hc => blank.isSpace_of_mem hc

end Blank

/-! ## Values with something behind them -/

/-- No number goes on with this. -/
def Ends (rest : Text) : Prop := ∀ c ∈ rest.head?, numberChar c = false

theorem Ends.nil : Ends [] := fun c hc => by cases hc

theorem Ends.cons (h : numberChar c = false) (s : Text) : Ends (c :: s) := by
  intro d hd
  cases hd
  exact h

theorem numberChar_of_isSpace (h : isSpace c = true) : numberChar c = false := by
  rcases of_decide_eq_true h with rfl | rfl | rfl | rfl <;> decide

theorem Ends.blank (blank : Blank) {rest : Text} (h : Ends rest) : Ends (blank.1 ++ rest) := by
  obtain ⟨s, hs⟩ := blank
  cases s with
  | nil => exact h
  | cons c s =>
    refine Ends.cons (numberChar_of_isSpace ?_) _
    exact List.all_eq_true.mp hs c List.mem_cons_self

/-- Of the text, the value is read, and no more of what is behind it than whitespace. -/
def ReadsAs (lua : Lua) (text : Text) (v : Value) : Prop :=
  ∀ rest, Ends rest → ∃ mid, value lua (firstEscapes (text ++ rest)) = .value v mid ∧
    mid.dropWhile isSpace = (firstEscapes rest).dropWhile isSpace

/-- Nothing is read of the text. -/
def Fails (lua : Lua) (text : Text) : Prop :=
  ∀ rest, Ends rest → value lua (firstEscapes (text ++ rest)) = failed "value expected"

section Values

variable {lua : Lua} {text : Text} {v : Value}

/-- There is no value in whitespace. -/
theorem value_of_dropWhile {s : Text} (h : s.dropWhile isSpace = []) :
    value lua s = failed "value expected" := by
  have hskip : skipWhitespace s = s := by
    unfold skipWhitespace
    rw [h]
  unfold value
  simp only [readValue, hskip]
  cases s with
  | nil => rfl
  | cons c s =>
    have hspace : isSpace c = true := List.dropWhile_eq_nil_iff.mp h c List.mem_cons_self
    rcases of_decide_eq_true hspace with rfl | rfl | rfl | rfl <;> rfl

theorem value_blank (blank : Blank) (s : Text) : value lua (blank.1 ++ s) = value lua s := by
  cases hdrop : s.dropWhile isSpace with
  | nil =>
    rw [value_of_dropWhile hdrop, value_of_dropWhile]
    rw [blank.dropWhile_append, hdrop]
  | cons c t =>
    refine value_congr ?_
    rw [skipWhitespace_of_dropWhile hdrop, skipWhitespace_of_dropWhile]
    rw [blank.dropWhile_append, hdrop]

theorem decode_of_readsAs (h : ReadsAs lua text v) : decode lua text = .value v := by
  obtain ⟨mid, hread, hmid⟩ := h [] Ends.nil
  rw [List.append_nil] at hread
  have hall : mid.all isSpace = true := by
    rw [List.all_eq_true]
    exact List.dropWhile_eq_nil_iff.mp hmid
  rw [decode_eq, hread]
  simp only
  rw [if_pos hall]

theorem decode_of_fails (h : Fails lua text) :
    decode lua text = .failure (.message "value expected".toList) := by
  have hread := h [] Ends.nil
  rw [List.append_nil] at hread
  rw [decode_eq, hread]
  rfl

/-- What is left begins with what has been put there. -/
theorem ReadsAs.behind (h : ReadsAs lua text v) {c : Char} (hnumber : numberChar c = false)
    (hspace : isSpace c = false) (hback : c ≠ '\\') (rest : Text) :
    ∃ mid, value lua (firstEscapes (text ++ c :: rest)) = .value v mid ∧
      skipWhitespace mid = c :: firstEscapes rest := by
  obtain ⟨mid, hread, hmid⟩ := h (c :: rest) (Ends.cons hnumber rest)
  rw [firstEscapes_cons hback, dropWhile_cons hspace] at hmid
  exact ⟨mid, hread, skipWhitespace_of_dropWhile hmid⟩

end Values

/-! ### Words and numbers -/

theorem readsAs_null (lua : Lua) : ReadsAs lua "null".toList .null := by
  intro rest _
  refine ⟨firstEscapes rest, ?_, rfl⟩
  rw [firstEscapes_append (by simp)]
  have hskip := skipWhitespace_cons (c := 'n') (by decide) ("ull".toList ++ firstEscapes rest)
  exact (value_null hskip).trans rfl

theorem readsAs_true (lua : Lua) : ReadsAs lua "true".toList (.boolean true) := by
  intro rest _
  refine ⟨firstEscapes rest, ?_, rfl⟩
  rw [firstEscapes_append (by simp)]
  have hskip := skipWhitespace_cons (c := 't') (by decide) ("rue".toList ++ firstEscapes rest)
  exact (value_true hskip).trans rfl

theorem readsAs_false (lua : Lua) : ReadsAs lua "false".toList (.boolean false) := by
  intro rest _
  refine ⟨firstEscapes rest, ?_, rfl⟩
  rw [firstEscapes_append (by simp)]
  have hskip := skipWhitespace_cons (c := 'f') (by decide) ("alse".toList ++ firstEscapes rest)
  exact (value_false hskip).trans rfl

theorem isSpace_of_number {b : Char} (h : b.isDigit = true ∨ b = '-') : isSpace b = false := by
  cases hspace : isSpace b with
  | false => rfl
  | true =>
    rcases of_decide_eq_true hspace with rfl | rfl | rfl | rfl <;> exact absurd h (by decide)

theorem readsAs_number (lua : Lua) {text : Text} {q : ℚ} (hread : Decimal.read text = some q)
    (hchars : ∀ c ∈ text, numberChar c = true) {b : Char} {t : Text} (htext : text = b :: t)
    (hb : b.isDigit = true ∨ b = '-') : ReadsAs lua text (.number q) := by
  intro rest hends
  have hback : ∀ c ∈ text, c ≠ '\\' := by
    rintro c hc rfl
    cases hchars _ hc
  obtain ⟨htake, hdrop⟩ := Decimal.takeWhile_append_of_all (s := firstEscapes rest) hchars
    fun c hc => hends c (head?_firstEscapes rest ▸ hc)
  refine ⟨firstEscapes rest, ?_, rfl⟩
  have hskip : skipWhitespace (text ++ firstEscapes rest) = b :: (t ++ firstEscapes rest) := by
    rw [htext, List.cons_append]
    exact skipWhitespace_cons (isSpace_of_number hb) _
  rw [firstEscapes_append hback, value_number hskip hb, ← List.cons_append, ← htext, readNumber,
    htake, hread, hdrop]

/-! ### Whitespace around values -/

theorem readsAs_spaced {lua : Lua} {text : Text} {v : Value} (h : ReadsAs lua text v)
    (before after : Blank) : ReadsAs lua (before.1 ++ (text ++ after.1)) v := by
  intro rest hends
  obtain ⟨mid, hread, hmid⟩ := h (after.1 ++ rest) (hends.blank after)
  rw [after.firstEscapes_append, after.dropWhile_append] at hmid
  refine ⟨mid, ?_, hmid⟩
  rw [List.append_assoc, List.append_assoc, before.firstEscapes_append, value_blank, hread]

theorem fails_spaced {lua : Lua} {text : Text} (h : Fails lua text) (before after : Blank) :
    Fails lua (before.1 ++ (text ++ after.1)) := by
  intro rest hends
  rw [List.append_assoc, List.append_assoc, before.firstEscapes_append, value_blank]
  exact h _ (hends.blank after)

/-! ### Elements and members -/

theorem commas_cons (t t' : Text) (texts : List Text) :
    commas (t :: t' :: texts) = t ++ ',' :: commas (t' :: texts) := by
  simp [commas]

theorem commas_single (t : Text) : commas [t] = t := by
  simp [commas]

section Lists

variable {lua : Lua}

variable {texts : List Text} {vs : List Value}

theorem elements_of_readsAs
    (h : List.Forall₂ (ReadsAs lua) texts vs) (hne : texts ≠ []) (rest : Text) (a : List Value) :
    elements lua (firstEscapes (commas texts ++ ']' :: rest)) a =
      .value (.array (a ++ vs)) (firstEscapes rest) := by
  induction h generalizing a with
  | nil => exact absurd rfl hne
  | @cons t v texts vs hread htail ih =>
    cases htail with
    | nil =>
      obtain ⟨mid, hvalue, hmid⟩ := hread.behind (c := ']') (by decide) (by decide) (by decide)
        rest
      rw [commas_single, elements_eq, hvalue]
      exact afterElement_close hmid
    | @cons t' v' texts vs hread' htail =>
      obtain ⟨mid, hvalue, hmid⟩ := hread.behind (c := ',') (by decide) (by decide) (by decide)
        (commas (t' :: texts) ++ ']' :: rest)
      rw [commas_cons, List.append_assoc, List.cons_append, elements_eq, hvalue]
      simp only [Outcome.bind]
      rw [afterElement_comma hmid, ih (List.cons_ne_nil _ _), List.append_assoc]
      rfl

/-- The text of a member: its name is read, the colon, and the value. -/
def ReadsMember (lua : Lua) (text : Text) (member : Text × Value) : Prop :=
  ∀ rest, Ends rest → ∃ u mid, Names (firstEscapes (text ++ rest)) member.1 u ∧
    value lua u = .value member.2 mid ∧
    mid.dropWhile isSpace = (firstEscapes rest).dropWhile isSpace

/-- The members of an object, one after the other. -/
def build (o : List (Value × Value)) (ms : List (Text × Value)) : List (Value × Value) :=
  ms.foldl (fun o m => set o (.string m.1) m.2) o

variable {text : Text}

theorem ReadsMember.behind {m : Text × Value} (h : ReadsMember lua text m) {c : Char}
    (hnumber : numberChar c = false) (hspace : isSpace c = false) (hback : c ≠ '\\')
    (rest : Text) (o : List (Value × Value)) :
    ∃ mid, object lua (firstEscapes (text ++ c :: rest)) o =
        afterMember lua (set o (.string m.1) m.2) mid ∧
      skipWhitespace mid = c :: firstEscapes rest := by
  obtain ⟨u, mid, hnames, hread, hmid⟩ := h (c :: rest) (Ends.cons hnumber rest)
  rw [firstEscapes_cons hback, dropWhile_cons hspace] at hmid
  refine ⟨mid, ?_, skipWhitespace_of_dropWhile hmid⟩
  rw [object_member hnames, hread]
  rfl

variable {ms : List (Text × Value)}

theorem object_of_readsMember
    (h : List.Forall₂ (ReadsMember lua) texts ms) (hne : texts ≠ []) (rest : Text)
    (o : List (Value × Value)) : object lua (firstEscapes (commas texts ++ '}' :: rest)) o =
      closeObject lua (build o ms) (firstEscapes rest) := by
  induction h generalizing o with
  | nil => exact absurd rfl hne
  | @cons t m texts ms hread htail ih =>
    cases htail with
    | nil =>
      obtain ⟨mid, hobject, hmid⟩ := hread.behind (c := '}') (by decide) (by decide)
        (by decide) rest o
      rw [commas_single, hobject]
      exact afterMember_close hmid
    | @cons t' m' texts ms hread' htail =>
      obtain ⟨mid, hobject, hmid⟩ := hread.behind (c := ',') (by decide) (by decide)
        (by decide) (commas (t' :: texts) ++ '}' :: rest) o
      rw [commas_cons, List.append_assoc, List.cons_append, hobject, afterMember_comma hmid,
        ih (List.cons_ne_nil _ _)]
      rfl

/-- No value begins with the bracket that closes an array. -/
theorem ReadsAs.head?_ne {v : Value} (h : ReadsAs lua text v) {c : Char}
    (hc : numberChar c = false) (rest : Text) :
    (firstEscapes (text ++ c :: rest)).head? ≠ some ']' := by
  intro hhead
  obtain ⟨t, ht⟩ := List.head?_eq_some_iff.mp hhead
  obtain ⟨mid, hread, -⟩ := h (c :: rest) (Ends.cons hc rest)
  rw [ht, value_bracket (skipWhitespace_cons (by decide) t)] at hread
  cases hread

theorem readsAs_array
    (h : List.Forall₂ (ReadsAs lua) texts vs) : ReadsAs lua (arraysave texts) (.array vs) := by
  intro rest _
  refine ⟨firstEscapes rest, ?_, rfl⟩
  rw [arraysave, List.cons_append, List.append_assoc, List.singleton_append,
    firstEscapes_cons (by decide)]
  have hskip := skipWhitespace_cons (c := '[') (by decide)
    (firstEscapes (commas texts ++ ']' :: rest))
  cases h with
  | nil =>
    rw [commas, List.intercalate_nil, List.nil_append, firstEscapes_cons (by decide)] at hskip ⊢
    exact value_empty hskip
  | @cons t v texts vs hread htail =>
    rw [value_array hskip, elements_of_readsAs (.cons hread htail) (List.cons_ne_nil _ _)]
    · rfl
    · cases texts with
      | nil =>
        rw [commas_single]
        exact hread.head?_ne (by decide) rest
      | cons t' texts =>
        rw [commas_cons, List.append_assoc, List.cons_append]
        exact hread.head?_ne (by decide) _

theorem readsAs_object {o : List (Value × Value)}
    (h : List.Forall₂ (ReadsMember lua) texts ms) (ho : fixobject lua (build [] ms) = some o) :
    ReadsAs lua ('{' :: (commas texts ++ ['}'])) (.table o) := by
  intro rest _
  refine ⟨firstEscapes rest, ?_, rfl⟩
  rw [List.cons_append, List.append_assoc, List.singleton_append, firstEscapes_cons (by decide),
    value_object (skipWhitespace_cons (by decide) _)]
  cases h with
  | nil =>
    cases ho
    rw [commas, List.intercalate_nil, List.nil_append, firstEscapes_cons (by decide)]
    exact object_close (skipWhitespace_cons (by decide) _)
  | cons hread htail =>
    rw [object_of_readsMember (.cons hread htail) (List.cons_ne_nil _ _), closeObject, ho]

/-! ### Elements and members of which nothing is read -/

theorem elements_of_fails
    (h : List.Forall₂ (ReadsAs lua) texts vs) (hfails : Fails lua text) (texts' : List Text)
    (rest : Text) (a : List Value) :
    elements lua (firstEscapes (commas (texts ++ text :: texts') ++ ']' :: rest)) a =
      failed "value expected" := by
  induction h generalizing a with
  | nil =>
    rw [List.nil_append, elements_eq]
    cases texts' with
    | nil =>
      rw [commas_single, hfails _ (Ends.cons (by decide) rest)]
      rfl
    | cons t texts' =>
      rw [commas_cons, List.append_assoc, List.cons_append,
        hfails _ (Ends.cons (by decide) _)]
      rfl
  | @cons t v texts vs hread htail ih =>
    obtain ⟨t', texts'', htexts⟩ : ∃ t' texts'', texts ++ text :: texts' = t' :: texts'' :=
      List.exists_cons_of_ne_nil (by simp)
    obtain ⟨mid, hvalue, hmid⟩ := hread.behind (c := ',') (by decide) (by decide) (by decide)
      (commas (t' :: texts'') ++ ']' :: rest)
    rw [List.cons_append, htexts, commas_cons, List.append_assoc, List.cons_append, elements_eq,
      hvalue]
    simp only [Outcome.bind]
    rw [afterElement_comma hmid, ← htexts]
    exact ih _

/-- The text of a member of whose value nothing is read. -/
def FailsMember (lua : Lua) (text : Text) : Prop :=
  ∀ rest, Ends rest → ∃ key u, Names (firstEscapes (text ++ rest)) key u ∧
    value lua u = failed "value expected"

theorem object_of_fails (h : FailsMember lua text) {rest : Text} (hends : Ends rest)
    (o : List (Value × Value)) :
    object lua (firstEscapes (text ++ rest)) o = failed "value expected" := by
  obtain ⟨key, u, hnames, hread⟩ := h rest hends
  rw [object_member hnames, hread]
  rfl

theorem members_of_fails
    (h : List.Forall₂ (ReadsMember lua) texts ms) (hfails : FailsMember lua text)
    (texts' : List Text) (rest : Text) (o : List (Value × Value)) :
    object lua (firstEscapes (commas (texts ++ text :: texts') ++ '}' :: rest)) o =
      failed "value expected" := by
  induction h generalizing o with
  | nil =>
    rw [List.nil_append]
    cases texts' with
    | nil =>
      rw [commas_single]
      exact object_of_fails hfails (Ends.cons (by decide) rest) o
    | cons t texts' =>
      rw [commas_cons, List.append_assoc, List.cons_append]
      exact object_of_fails hfails (Ends.cons (by decide) _) o
  | @cons t m texts ms hread htail ih =>
    obtain ⟨t', texts'', htexts⟩ : ∃ t' texts'', texts ++ text :: texts' = t' :: texts'' :=
      List.exists_cons_of_ne_nil (by simp)
    obtain ⟨mid, hobject, hmid⟩ := hread.behind (c := ',') (by decide) (by decide) (by decide)
      (commas (t' :: texts'') ++ '}' :: rest) o
    rw [List.cons_append, htexts, commas_cons, List.append_assoc, List.cons_append, hobject,
      afterMember_comma hmid, ← htexts]
    exact ih _

theorem fails_array
    (h : List.Forall₂ (ReadsAs lua) texts vs) (hfails : Fails lua text) (texts' : List Text)
    (hhead : ∀ c ∈ text.head?, c ≠ ']') (hne : text ≠ []) :
    Fails lua (arraysave (texts ++ text :: texts')) := by
  intro rest _
  rw [arraysave, List.cons_append, List.append_assoc, List.singleton_append,
    firstEscapes_cons (by decide), value_array (skipWhitespace_cons (by decide) _),
    elements_of_fails h hfails]
  cases h with
  | nil =>
    obtain ⟨c, t, rfl⟩ := List.exists_cons_of_ne_nil hne
    rw [head?_firstEscapes]
    intro hbracket
    refine hhead c rfl ?_
    cases texts' with
    | nil =>
      rw [List.nil_append, commas_single, List.cons_append] at hbracket
      exact Option.some.inj hbracket
    | cons t' texts' =>
      rw [List.nil_append, commas_cons, List.cons_append, List.cons_append] at hbracket
      exact Option.some.inj hbracket
  | @cons t v texts vs hread htail =>
    obtain ⟨t', texts'', htexts⟩ : ∃ t' texts'', texts ++ text :: texts' = t' :: texts'' :=
      List.exists_cons_of_ne_nil (by simp)
    rw [List.cons_append, htexts, commas_cons, List.append_assoc, List.cons_append]
    exact hread.head?_ne (by decide) _

theorem fails_object (h : List.Forall₂ (ReadsMember lua) texts ms) (hfails : FailsMember lua text)
    (texts' : List Text) : Fails lua ('{' :: (commas (texts ++ text :: texts') ++ ['}'])) := by
  intro rest _
  rw [List.cons_append, List.append_assoc, List.singleton_append, firstEscapes_cons (by decide),
    value_object (skipWhitespace_cons (by decide) _)]
  exact members_of_fails h hfails texts' rest []

/-- Between brackets, whitespace alone is no array. -/
theorem fails_blank {blank : Blank} (h : blank.1 ≠ []) :
    Fails lua ('[' :: (blank.1 ++ [']'])) := by
  intro rest _
  rw [List.cons_append, List.append_assoc, List.singleton_append, firstEscapes_cons (by decide),
    blank.firstEscapes_append, firstEscapes_cons (by decide)]
  rw [value_array (skipWhitespace_cons (by decide) _), elements_eq, value_blank blank,
    value_bracket (skipWhitespace_cons (by decide) _)]
  · rfl
  · obtain ⟨c, t, ht⟩ := List.exists_cons_of_ne_nil h
    have hspace := blank.isSpace_of_mem (c := c) (ht ▸ List.mem_cons_self)
    rw [ht]
    rintro hbracket
    cases hbracket
    cases hspace

end Lists

end Prosody.Json
