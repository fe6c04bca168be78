import Prosody.Util.JsonString

/-! # The grammar of JSON

Texts as they are made of their parts, and what they denote. -/

namespace Prosody.Json

/-! ## Numbers -/

inductive Sign
  | absent
  | plus
  | minus

def Sign.text : Sign → Text
  | absent => []
  | plus => ['+']
  | minus => ['-']

inductive Exponent
  | absent
  | given (e : Char) (he : e = 'e' ∨ e = 'E') (sign : Sign) (digits : Text)
      (h : digits ≠ [] ∧ digits.all Char.isDigit = true)

namespace Exponent

def text : Exponent → Text
  | absent => []
  | given e _ sign digits _ => e :: (sign.text ++ digits)

def value : Exponent → ℤ
  | absent => 0
  | given _ _ .minus digits _ => -(Nat.ofDigitChars 10 digits 0 : ℤ)
  | given _ _ _ digits _ => Nat.ofDigitChars 10 digits 0

end Exponent

/-- A number as it is written: its digits, those of its fraction, if any, and an exponent. Zeros are
let through in front. -/
structure Numeral where
  negative : Bool
  first : Char
  others : Text
  whole : ∀ c ∈ first :: others, c.isDigit = true
  fraction : Text
  behind : ∀ c ∈ fraction, c.isDigit = true
  exponent : Exponent

namespace Numeral

variable (n : Numeral)

def unsigned : Text :=
  n.first :: n.others ++
    ((if n.fraction = [] then [] else '.' :: n.fraction) ++ n.exponent.text)

def text : Text := if n.negative then '-' :: n.unsigned else n.unsigned

def value : ℚ :=
  let digits : ℕ := Nat.ofDigitChars 10 (n.first :: n.others ++ n.fraction) 0
  (if n.negative then -1 else 1) * (digits * 10 ^ (n.exponent.value - n.fraction.length))

/-- The number is an integer that fits exactly. -/
def Fits : Prop := ∃ z : ℤ, n.value = z ∧ z.natAbs ≤ 2 ^ 53

end Numeral

theorem scale_eq (m : ℕ) (e : ℤ) : Decimal.scale m e = m * (10 : ℚ) ^ e := by
  unfold Decimal.scale
  split
  · rename_i he
    obtain ⟨k, rfl⟩ := Int.eq_ofNat_of_zero_le he
    rw [Int.toNat_natCast, zpow_natCast]
  · rename_i he
    obtain ⟨k, hk⟩ := Int.eq_ofNat_of_zero_le (a := -e) (by omega)
    rw [hk, Int.toNat_natCast, show e = -(k : ℤ) by omega, zpow_neg, zpow_natCast,
      div_eq_mul_inv]

theorem readExponent_text (x : Exponent) : Decimal.readExponent x.text = some x.value := by
  cases x with
  | absent => rfl
  | given e he sign digits h =>
    obtain ⟨d, ds, hdigits⟩ := List.exists_cons_of_ne_nil h.1
    have hd : d.isDigit = true :=
      List.all_eq_true.mp h.2 d (hdigits ▸ List.mem_cons_self)
    unfold Exponent.text Decimal.readExponent
    simp only [if_pos he]
    cases sign with
    | absent =>
      have hsign : Decimal.sign digits = (false, digits) := by
        rw [hdigits]
        exact Decimal.sign_of_isDigit hd ds
      simp [Sign.text, hsign, h.1, h.2, Exponent.value]
    | plus => simp [Sign.text, Decimal.sign, h.1, h.2, Exponent.value]
    | minus => simp [Sign.text, Decimal.sign, h.1, h.2, Exponent.value]

theorem stop_exponent (x : Exponent) : ∀ c ∈ x.text.head?, c.isDigit = false ∧ c ≠ '.' := by
  intro c hc
  cases x with
  | absent => cases hc
  | given e he sign digits h =>
    cases hc
    rcases he with rfl | rfl <;> decide

theorem numberChar_exponent (x : Exponent) : ∀ c ∈ x.text, numberChar c = true := by
  intro c hc
  cases x with
  | absent => cases hc
  | given e he sign digits h =>
    rw [Exponent.text, List.mem_cons, List.mem_append] at hc
    rcases hc with rfl | hc | hc
    · rcases he with rfl | rfl <;> decide
    · cases sign with
      | absent => cases hc
      | plus => rw [List.mem_singleton.mp hc]; decide
      | minus => rw [List.mem_singleton.mp hc]; decide
    · simp [numberChar, List.all_eq_true.mp h.2 c hc]

namespace Numeral

variable (n : Numeral)

theorem read_text : Decimal.read n.text = some n.value := by
  have hread := Decimal.read_digits n.whole n.behind (readExponent_text n.exponent)
    (stop_exponent n.exponent)
  rw [scale_eq] at hread
  have hfirst : n.first.isDigit = true := n.whole _ List.mem_cons_self
  unfold text value
  cases n.negative with
  | true =>
    have hneg : Decimal.read ('-' :: n.unsigned) = (Decimal.read n.unsigned).map Neg.neg :=
      Decimal.read_neg hfirst _
    rw [if_pos rfl, hneg, unsigned, hread, Option.map_some, if_pos rfl, neg_one_mul]
  | false =>
    rw [if_neg Bool.false_ne_true, unsigned, hread, if_neg Bool.false_ne_true, one_mul]

theorem numberChar_text : ∀ c ∈ n.text, numberChar c = true := by
  have hdigit : ∀ c : Char, c.isDigit = true → numberChar c = true := by
    intro c hc
    simp [numberChar, hc]
  have hunsigned : ∀ c ∈ n.unsigned, numberChar c = true := by
    intro c hc
    rw [unsigned, List.mem_append, List.mem_append] at hc
    rcases hc with hc | hc | hc
    · exact hdigit c (n.whole c hc)
    · split at hc
      · cases hc
      · rcases List.mem_cons.mp hc with rfl | hc
        · decide
        · exact hdigit c (n.behind c hc)
    · exact numberChar_exponent n.exponent c hc
  intro c hc
  unfold text at hc
  split at hc
  · rcases List.mem_cons.mp hc with rfl | hc
    · decide
    · exact hunsigned c hc
  · exact hunsigned c hc

theorem exists_text : ∃ b t, n.text = b :: t ∧ (b.isDigit = true ∨ b = '-') := by
  unfold text
  split
  · exact ⟨'-', _, rfl, .inr rfl⟩
  · exact ⟨n.first, _, rfl, .inl (n.whole _ List.mem_cons_self)⟩

end Numeral

/-! ## Texts -/

/-- A name with the whitespace around it. -/
structure Key where
  before : Blank
  name : List Piece
  after : Blank

def Key.denotes (key : Key) : Text := key.name.flatMap Piece.denotes

/-- How a text is made. Whitespace can be around each value. -/
inductive Tree
  | null
  | true
  | false
  | number (n : Numeral) (h : n.Fits)
  | string (s : List Piece)
  | emptyArray (blank : Blank)
  | array (items : List Tree)
  | emptyObject (blank : Blank)
  | object (members : List (Key × Tree))
  | spaced (before : Blank) (t : Tree) (after : Blank)

namespace Tree

mutual

def text : Tree → Text
  | null => "null".toList
  | true => "true".toList
  | false => "false".toList
  | number n _ => n.text
  | string s => quoted s
  | emptyArray blank => '[' :: (blank.1 ++ [']'])
  | array items => arraysave (texts items)
  | emptyObject blank => '{' :: (blank.1 ++ ['}'])
  | object members => '{' :: (commas (memberTexts members) ++ ['}'])
  | spaced before t after => before.1 ++ (text t ++ after.1)
termination_by structural t => t

def texts : List Tree → List Text
  | [] => []
  | t :: ts => text t :: texts ts
termination_by structural ts => ts

def memberTexts : List (Key × Tree) → List Text
  | [] => []
  | (key, t) :: ms => memberText key.before key.name key.after (text t) :: memberTexts ms
termination_by structural ms => ms

end

mutual

/-- What the grammar says the text stands for. Of members of one name, the last one counts. -/
def denotes : Tree → Value
  | null => .null
  | true => .boolean Bool.true
  | false => .boolean Bool.false
  | number n _ => .number n.value
  | string s => .string (s.flatMap Piece.denotes)
  | emptyArray _ => .array []
  | array items => .array (values items)
  | emptyObject _ => .table []
  | object members => .table (build [] (memberValues members))
  | spaced _ t _ => denotes t
termination_by structural t => t

def values : List Tree → List Value
  | [] => []
  | t :: ts => denotes t :: values ts
termination_by structural ts => ts

def memberValues : List (Key × Tree) → List (Text × Value)
  | [] => []
  | (key, t) :: ms => (key.denotes, denotes t) :: memberValues ms
termination_by structural ms => ms

end

mutual

/-- No member has a name with a meaning of its own. -/
def Plain : Tree → Prop
  | array items => AllPlain items
  | object members => MembersPlain members
  | spaced _ t _ => Plain t
  | _ => True
termination_by structural t => t

def AllPlain : List Tree → Prop
  | [] => True
  | t :: ts => Plain t ∧ AllPlain ts
termination_by structural ts => ts

def MembersPlain : List (Key × Tree) → Prop
  | [] => True
  | (key, t) :: ms => (specialKeys key.denotes = Bool.false ∧ Plain t) ∧ MembersPlain ms
termination_by structural ms => ms

end

mutual

/-- No array consists of whitespace. -/
def Compact : Tree → Prop
  | emptyArray blank => blank.1 = []
  | array items => AllCompact items
  | object members => MembersCompact members
  | spaced _ t _ => Compact t
  | _ => True
termination_by structural t => t

def AllCompact : List Tree → Prop
  | [] => True
  | t :: ts => Compact t ∧ AllCompact ts
termination_by structural ts => ts

def MembersCompact : List (Key × Tree) → Prop
  | [] => True
  | (_, t) :: ms => Compact t ∧ MembersCompact ms
termination_by structural ms => ms

end

/-! ### Parts -/

theorem texts_eq (ts : List Tree) : texts ts = ts.map text := by
  induction ts with
  | nil => rfl
  | cons t ts ih => rw [texts, ih, List.map_cons]

theorem memberTexts_eq (ms : List (Key × Tree)) :
    memberTexts ms = ms.map fun m => memberText m.1.before m.1.name m.1.after m.2.text := by
  induction ms with
  | nil => rfl
  | cons m ms ih => rw [memberTexts, ih, List.map_cons]

theorem values_eq (ts : List Tree) : values ts = ts.map denotes := by
  induction ts with
  | nil => rfl
  | cons t ts ih => rw [values, ih, List.map_cons]

theorem memberValues_eq (ms : List (Key × Tree)) :
    memberValues ms = ms.map fun m => (m.1.denotes, m.2.denotes) := by
  induction ms with
  | nil => rfl
  | cons m ms ih => rw [memberValues, ih, List.map_cons]

theorem allPlain_iff (ts : List Tree) : AllPlain ts ↔ ∀ t ∈ ts, t.Plain := by
  induction ts with
  | nil => simp [AllPlain]
  | cons t ts ih => rw [AllPlain, ih, List.forall_mem_cons]

theorem membersPlain_iff (ms : List (Key × Tree)) :
    MembersPlain ms ↔ ∀ m ∈ ms, specialKeys m.1.denotes = Bool.false ∧ m.2.Plain := by
  induction ms with
  | nil => simp [MembersPlain]
  | cons m ms ih => rw [MembersPlain, ih, List.forall_mem_cons]

theorem allCompact_iff (ts : List Tree) : AllCompact ts ↔ ∀ t ∈ ts, t.Compact := by
  induction ts with
  | nil => simp [AllCompact]
  | cons t ts ih => rw [AllCompact, ih, List.forall_mem_cons]

theorem membersCompact_iff (ms : List (Key × Tree)) :
    MembersCompact ms ↔ ∀ m ∈ ms, m.2.Compact := by
  induction ms with
  | nil => simp [MembersCompact]
  | cons m ms ih => rw [MembersCompact, ih, List.forall_mem_cons]

/-! ### What is read of them -/

/-- What holds of a tree if it holds of its parts holds of every tree. -/
theorem parts {motive : Tree → Prop} (null : motive null) (true : motive true)
    (false : motive false) (number : ∀ n h, motive (number n h)) (string : ∀ s, motive (string s))
    (emptyArray : ∀ blank, motive (emptyArray blank))
    (array : ∀ items, (∀ t ∈ items, motive t) → motive (array items))
    (emptyObject : ∀ blank, motive (emptyObject blank))
    (object : ∀ members, (∀ m ∈ members, motive m.2) → motive (object members))
    (spaced : ∀ before t after, motive t → motive (spaced before t after)) (t : Tree) :
    motive t :=
  @Tree.rec motive (fun ts => ∀ t ∈ ts, motive t) (fun ms => ∀ m ∈ ms, motive m.2)
    (fun m => motive m.2) null true false number string emptyArray array emptyObject object spaced
    (List.forall_mem_nil _) (fun _ _ ht hts => List.forall_mem_cons.mpr ⟨ht, hts⟩)
    (List.forall_mem_nil _) (fun _ _ hm hms => List.forall_mem_cons.mpr ⟨hm, hms⟩)
    (fun _ _ ht => ht) t

/-- A text does not begin with the bracket that closes an array. -/
theorem exists_text (T : Tree) : ∃ c s, T.text = c :: s ∧ c ≠ ']' := by
  induction T using parts with
  | null => exact ⟨_, _, rfl, by decide⟩
  | true => exact ⟨_, _, rfl, by decide⟩
  | false => exact ⟨_, _, rfl, by decide⟩
  | number n h =>
    obtain ⟨b, t, htext, hb⟩ := n.exists_text
    refine ⟨b, t, htext, ?_⟩
    rintro rfl
    exact absurd hb (by decide)
  | string s => exact ⟨_, _, rfl, by decide⟩
  | emptyArray blank => exact ⟨_, _, rfl, by decide⟩
  | array items _ => exact ⟨_, _, rfl, by decide⟩
  | emptyObject blank => exact ⟨_, _, rfl, by decide⟩
  | object members _ => exact ⟨_, _, rfl, by decide⟩
  | spaced before t after ih =>
    rw [text]
    obtain ⟨c, s, hs, hc⟩ := ih
    cases hbefore : before.1 with
    | nil => exact ⟨c, s ++ after.1, by rw [hs]; rfl, hc⟩
    | cons d ds =>
      refine ⟨d, _, rfl, ?_⟩
      have hspace := before.isSpace_of_mem (c := d) (hbefore ▸ List.mem_cons_self)
      rintro rfl
      cases hspace

/-- The first in a list that is not as it should be. -/
theorem exists_first {α : Type} {p : α → Prop} {l : List α} (h : ¬ ∀ x ∈ l, p x) :
    ∃ before x after, l = before ++ x :: after ∧ (∀ y ∈ before, p y) ∧ ¬ p x := by
  induction l with
  | nil => exact absurd (List.forall_mem_nil _) h
  | cons x l ih =>
    by_cases hx : p x
    · obtain ⟨before, y, after, rfl, hbefore, hy⟩ :=
        ih fun hl => h (List.forall_mem_cons.mpr ⟨hx, hl⟩)
      exact ⟨x :: before, y, after, rfl, List.forall_mem_cons.mpr ⟨hx, hbefore⟩, hy⟩
    · exact ⟨[], x, l, rfl, List.forall_mem_nil _, hx⟩

def Read (lua : Lua) (T : Tree) : Prop :=
  (T.Compact → ReadsAs lua T.text T.denotes) ∧ (¬ T.Compact → Fails lua T.text)

section Reading

variable {lua : Lua}

theorem forall₂_texts {ts : List Tree} (h : ∀ t ∈ ts, t.Read lua) (hc : ∀ t ∈ ts, t.Compact) :
    List.Forall₂ (ReadsAs lua) (ts.map text) (ts.map denotes) := by
  rw [List.forall₂_map_left_iff, List.forall₂_map_right_iff, List.forall₂_same]
  exact fun t ht => (h t ht).1 (hc t ht)

theorem forall₂_memberTexts {ms : List (Key × Tree)} (h : ∀ m ∈ ms, m.2.Read lua)
    (hc : ∀ m ∈ ms, m.2.Compact) :
    List.Forall₂ (ReadsMember lua) (memberTexts ms) (memberValues ms) := by
  rw [memberTexts_eq, memberValues_eq, List.forall₂_map_left_iff, List.forall₂_map_right_iff,
    List.forall₂_same]
  exact fun m hm => readsMember_of_readsAs ((h m hm).1 (hc m hm)) _ _ _

theorem read_array {items : List Tree} (h : ∀ t ∈ items, t.Read lua) :
    (array items).Read lua := by
  unfold Read Compact text denotes
  rw [texts_eq, values_eq, allCompact_iff]
  refine ⟨fun hc => readsAs_array (forall₂_texts h hc), fun hc => ?_⟩
  obtain ⟨before, t, after, rfl, hbefore, ht⟩ := exists_first hc
  obtain ⟨c, s, htext, hne⟩ := t.exists_text
  rw [List.map_append, List.map_cons]
  refine fails_array (forall₂_texts (fun x hx => h x (List.mem_append_left _ hx)) hbefore)
    ((h t (by simp)).2 ht) _ ?_ ?_
  · rw [htext]
    intro d hd
    cases hd
    exact hne
  · rw [htext]
    exact List.cons_ne_nil _ _

/-- Members without such names are the members of the object. -/
theorem fixobject_build {ms : List (Text × Value)} (h : ∀ m ∈ ms, specialKeys m.1 = Bool.false) :
    fixobject lua (build [] ms) = some (build [] ms) := by
  have hget : ∀ s : Text, specialKeys s = Bool.true → ∀ o : List (Value × Value),
      get o (.string s) = none → get (build o ms) (.string s) = none := by
    intro s hs
    induction ms with
    | nil => exact fun o ho => ho
    | cons m ms ih =>
      intro o ho
      refine ih (fun m hm => h m (List.mem_cons_of_mem _ hm)) _ ?_
      rw [get_set_of_ne _ m.2, ho]
      intro heq
      cases heq
      rw [h m List.mem_cons_self] at hs
      cases hs
  have harray : get (build [] ms) arrayName = none := hget _ (by decide) [] rfl
  have hhash : get (build [] ms) hashName = none := hget _ (by decide) [] rfl
  unfold fixobject restore
  rw [harray]
  simp only [truthy, Option.bind_some]
  rw [hhash]

theorem read_object {members : List (Key × Tree)} (h : ∀ m ∈ members, m.2.Read lua)
    (hplain : ∀ m ∈ members, specialKeys m.1.denotes = Bool.false) :
    (object members).Read lua := by
  unfold Read Compact text denotes
  rw [membersCompact_iff]
  refine ⟨fun hc => ?_, fun hc => ?_⟩
  · refine readsAs_object (forall₂_memberTexts h hc) (fixobject_build ?_)
    rw [memberValues_eq, List.forall_mem_map]
    exact hplain
  · obtain ⟨before, m, after, rfl, hbefore, hm⟩ := exists_first hc
    have hread := forall₂_memberTexts (fun x hx => h x (List.mem_append_left _ hx)) hbefore
    have hfails : Fails lua m.2.text := (h m (by simp)).2 hm
    rw [memberTexts_eq] at hread ⊢
    rw [List.map_append, List.map_cons]
    exact fails_object hread (failsMember_of_fails hfails _ _ _) _

theorem read_of_plain (lua : Lua) (T : Tree) (h : T.Plain) : T.Read lua := by
  induction T using parts with
  | null => exact ⟨fun _ => readsAs_null lua, fun h => absurd trivial h⟩
  | true => exact ⟨fun _ => readsAs_true lua, fun h => absurd trivial h⟩
  | false => exact ⟨fun _ => readsAs_false lua, fun h => absurd trivial h⟩
  | number n h =>
    obtain ⟨b, t, htext, hb⟩ := n.exists_text
    exact ⟨fun _ => readsAs_number lua n.read_text n.numberChar_text htext hb,
      fun h => absurd trivial h⟩
  | string s => exact ⟨fun _ => readsAs_quoted lua s, fun h => absurd trivial h⟩
  | emptyArray blank =>
    refine ⟨fun hblank => ?_, fun hblank => fails_blank hblank⟩
    have hempty : ReadsAs lua (arraysave []) (.array []) := readsAs_array .nil
    rw [text, show blank.1 = [] from hblank]
    exact hempty
  | array items ih => exact read_array fun t ht => ih t ht ((allPlain_iff items).mp h t ht)
  | emptyObject blank =>
    refine ⟨fun _ rest hends => ⟨firstEscapes rest, ?_, rfl⟩, fun h => absurd trivial h⟩
    rw [text, List.cons_append, List.append_assoc, List.singleton_append,
      firstEscapes_cons (by decide), blank.firstEscapes_append, firstEscapes_cons (by decide),
      value_object (skipWhitespace_cons (by decide) _)]
    refine object_close (skipWhitespace_of_dropWhile ?_)
    rw [blank.dropWhile_append]
    exact dropWhile_cons (by decide) _
  | object members ih =>
    have hmembers := (membersPlain_iff members).mp h
    exact read_object (fun m hm => ih m hm (hmembers m hm).2) fun m hm => (hmembers m hm).1
  | spaced before t after ih =>
    obtain ⟨hreads, hfails⟩ := ih h
    exact ⟨fun hc => readsAs_spaced (hreads hc) before after,
      fun hc => fails_spaced (hfails hc) before after⟩

end Reading

/-- What the grammar says the text stands for is read, unless whitespace is all there is between the
brackets of an array. -/
theorem decode_text_iff (lua : Lua) (T : Tree) (h : T.Plain) :
    decode lua T.text = .value T.denotes ↔ T.Compact := by
  obtain ⟨hreads, hfails⟩ := read_of_plain lua T h
  by_cases hc : T.Compact
  · exact iff_of_true (decode_of_readsAs (hreads hc)) hc
  · refine iff_of_false ?_ hc
    rw [decode_of_fails (hfails hc)]
    exact fun h => by cases h

def tight : Blank := ⟨[], rfl⟩

def space : Blank := ⟨[' '], rfl⟩

def one : Numeral where
  negative := Bool.false
  first := '1'
  others := []
  whole := List.forall_mem_singleton.mpr rfl
  fraction := []
  behind := List.forall_mem_nil _
  exponent := .absent

theorem one_value : one.value = 1 := by
  have hdigits : Nat.ofDigitChars 10 ['1'] 0 = 1 := rfl
  norm_num [Numeral.value, one, Exponent.value, hdigits]

/-- An object with an array in it, and with whitespace in some places. -/
def sample : Tree :=
  object [(⟨space, [.raw 'a' (by decide)], space⟩,
    spaced space (array [number one ⟨1, by rw [one_value]; norm_num, by decide⟩,
      spaced space (string [.simple 'n' (by decide)]) tight, emptyArray tight]) space)]

theorem sample_decoded :
    sample.text = "\x7b \"a\" : [1, \"\\n\",[]] \x7d".toList ∧
      decode (.keeping Bool.true) sample.text = .value (.table [(.string ['a'],
        .array [.number one.value, .string ['\n'], .array []])]) :=
  ⟨rfl, (decode_text_iff (.keeping Bool.true) sample
    ⟨⟨by decide, trivial, trivial, trivial, trivial⟩, trivial⟩).mpr
    ⟨⟨trivial, trivial, rfl, trivial⟩, trivial⟩⟩

/-- An array that consists of a blank. -/
theorem blank_not_decoded :
    ¬ ∀ (lua : Lua) (T : Tree), T.Plain → decode lua T.text = .value T.denotes := by
  intro h
  have hdecode := h (.keeping Bool.true) (emptyArray space) trivial
  cases hdecode

end Tree

end Prosody.Json
