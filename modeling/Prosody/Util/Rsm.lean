import Mathlib.Data.Rat.Cast.Defs
import Prosody.Library.Decimal
import Prosody.Xml.Builder

/-! # Result set management (`util/rsm.lua`) -/

namespace Prosody.Rsm

open Xml (Text Node Builder)

/-- How numbers are read and written. An integer of up to 14 digits is read as what it was. -/
structure Lua where
  tonumber : Text → Option ℚ
  tostring : ℚ → Text
  /-- What `tostring` makes of a table. -/
  address : Text
  exact : ∀ n : ℤ, n.natAbs < 10 ^ 14 → tonumber (tostring n) = some (n : ℚ)

inductive Field
  | after
  | before
  | max
  | index
  | first
  | last
  | count
  deriving DecidableEq

namespace Field

def all : List Field := [after, before, max, index, first, last, count]

def name : Field → Text
  | after => "after".toList
  | before => "before".toList
  | max => "max".toList
  | index => "index".toList
  | first => "first".toList
  | last => "last".toList
  | count => "count".toList

/-- `element_parsers[name]` -/
def ofName (name : Text) : Option Field := all.find? fun field => field.name = name

end Field

inductive Value
  | text (s : Text)
  | number (n : ℚ)
  | true
  /-- The table for `first`. -/
  | first (index : Option ℚ) (text : Option Text)
  deriving DecidableEq

section

variable (lua : Lua)

def elementParser : Field → Node → Option Value
  | .after, st => st.getText.map .text
  | .before, st => st.getText.map fun text => if text = [] then .true else .text text
  | .max, st => (st.getText.bind lua.tonumber).map .number
  | .index, st => (st.getText.bind lua.tonumber).map .number
  | .first, st => some (.first ((st.attr.get "index".toList).bind lua.tonumber) st.getText)
  | .last, st => st.getText.map .text
  | .count, st => (st.getText.bind lua.tonumber).map .number

/-- `rs[name] = parser(tag)`, if there is a parser. -/
def parseTag (rs : Table Field Value) (tag : Node) : Table Field Value :=
  match Field.ofName tag.name with
  | none => rs
  | some field => rs.set field (elementParser lua field tag)

def parse (set : Node) : Table Field Value := set.childtags.foldl (parseTag lua) ∅

def tostring : Value → Text
  | .text s => s
  | .number n => lua.tostring n
  | .true => "true".toList
  | .first _ _ => lua.address

/-- The generators, where `check_attr` raises an error if an attribute is a number. -/
def elementGenerator : Field → Value → Builder → Option Builder
  | .first, .first (some _) _, _ => none
  | .first, .first none text, st => some ((st.tag "first".toList ∅).text text).up
  | .first, data, st => some ((st.tag "first".toList ∅).text (some (tostring lua data))).up
  | .before, .true, st => some (st.tag "before".toList ∅).up
  | .before, data, st => some ((st.tag "before".toList ∅).text (some (tostring lua data))).up
  | field, data, st => some ((st.tag field.name ∅).text (some (tostring lua data))).up

def xmlnsRsm : Text := "http://jabber.org/protocol/rsm".toList

/-- The loop of `generate` over the fields that `pairs` enumerates. -/
def generateLoop (t : Table Field Value) : List Field → Builder → Option Builder
  | [], st => some st
  | field :: fields, st =>
    match t.get field with
    | none => generateLoop t fields st
    | some data => (elementGenerator lua field data st).bind (generateLoop t fields)

def generate (pairs : KeyOrder Field) (t : Table Field Value) : Option Node :=
  (generateLoop lua t (pairs.keys t.keys)
    (Builder.stanza "set".toList ((∅ : Table Text Text).set "xmlns".toList (some xmlnsRsm)))).map
    Builder.node

end

variable {lua : Lua} {pairs : KeyOrder Field}

theorem ofName_name (field : Field) : Field.ofName field.name = some field := by
  cases field <;> decide

/-! ## What is generated -/

/-- `check_attr` raises an error. -/
def Raises (field : Field) (data : Value) : Prop :=
  field = .first ∧ ∃ n text, data = .first (some n) text

/-- The text of a generated element. -/
def content (lua : Lua) : Field → Value → Option Text
  | .first, .first _ text => text
  | .before, .true => none
  | _, data => some (tostring lua data)

def element (lua : Lua) (t : Table Field Value) (field : Field) : Node :=
  Node.leaf field.name ∅ ((t.get field).bind (content lua field))

variable {field : Field} {data : Value}

theorem elementGenerator_of_raises (h : Raises field data)
    (st : Builder) : elementGenerator lua field data st = none := by
  obtain ⟨rfl, n, text, rfl⟩ := h
  rfl

theorem elementGenerator_eq (h : ¬ Raises field data)
    (st : Builder) : elementGenerator lua field data st =
      some (st.addChild (Node.leaf field.name ∅ (content lua field data))) := by
  have htext : ∀ (name : Text) (text : Option Text),
      some ((st.tag name ∅).text text).up = some (st.addChild (Node.leaf name ∅ text)) :=
    fun name text => congrArg some (Builder.textTag_eq st name text)
  cases field with
  | first =>
    cases data with
    | first index text =>
      cases index with
      | none => exact htext _ _
      | some n => exact absurd ⟨rfl, n, text, rfl⟩ h
    | text s => exact htext _ _
    | number n => exact htext _ _
    | true => exact htext _ _
  | before =>
    cases data with
    | true => rfl
    | text s => exact htext _ _
    | number n => exact htext _ _
    | first index text => exact htext _ _
  | after => exact htext _ _
  | max => exact htext _ _
  | index => exact htext _ _
  | last => exact htext _ _
  | count => exact htext _ _

variable {t : Table Field Value}

theorem generateLoop_eq {fields : List Field}
    (hkeys : ∀ field ∈ fields, ∃ data, t.get field = some data ∧ ¬ Raises field data)
    (st : Builder) :
    generateLoop lua t fields st = some (st.addChildren (fields.map (element lua t))) := by
  induction fields generalizing st with
  | nil => rfl
  | cons field fields ih =>
    obtain ⟨data, hdata, hquiet⟩ := hkeys field List.mem_cons_self
    rw [generateLoop, hdata]
    dsimp only
    rw [elementGenerator_eq hquiet, Option.bind_some,
      ih fun f hf => hkeys f (List.mem_cons_of_mem field hf), List.map_cons, element, hdata]
    rfl

theorem generateLoop_of_raises
    (hdata : t.get field = some data) (h : Raises field data) {fields : List Field}
    (hmem : field ∈ fields) (st : Builder) : generateLoop lua t fields st = none := by
  induction fields generalizing st with
  | nil => exact absurd hmem List.not_mem_nil
  | cons f fields ih =>
    rw [generateLoop]
    rcases List.mem_cons.mp hmem with rfl | hmem
    · rw [hdata]
      dsimp only
      rw [elementGenerator_of_raises h, Option.bind_none]
    · cases t.get f with
      | none => exact ih hmem st
      | some other => exact Option.bind_eq_none_iff.mpr fun next _ => ih hmem next

/-- The element around what is generated. -/
def generated (lua : Lua) (pairs : KeyOrder Field) (t : Table Field Value) : Node :=
  .elem "set".toList ((∅ : Table Text Text).set "xmlns".toList (some xmlnsRsm))
    ((pairs.keys t.keys).map (element lua t))

theorem generate_eq (h : ∀ field data, t.get field = some data → ¬ Raises field data) :
    generate lua pairs t = some (generated lua pairs t) := by
  have hkeys : ∀ field ∈ pairs.keys t.keys, ∃ data, t.get field = some data ∧
      ¬ Raises field data := fun field hmem => by
    obtain ⟨data, hdata⟩ := (t.mem_keys field).mp ((pairs.mem_keys _ _).mp hmem)
    exact ⟨data, hdata, h field data hdata⟩
  rw [generate, generateLoop_eq hkeys, Option.map_some, Builder.stanza, Builder.addChildren_root]
  rfl

theorem generate_of_raises (hdata : t.get field = some data) (h : Raises field data) :
    generate lua pairs t = none := by
  have hmem : field ∈ pairs.keys t.keys :=
    (pairs.mem_keys _ _).mpr ((t.mem_keys field).mpr ⟨data, hdata⟩)
  rw [generate, generateLoop_of_raises hdata h hmem, Option.map_none]

/-! ## What is parsed -/

theorem parse_generated (t : Table Field Value) (field : Field) :
    (parse lua (generated lua pairs t)).get field =
      (t.get field).bind fun data =>
        elementParser lua field (Node.leaf field.name ∅ (content lua field data)) := by
  have htags : (generated lua pairs t).childtags = (pairs.keys t.keys).map (element lua t) := by
    refine Node.childtags_eq fun c hc => ?_
    obtain ⟨key, -, rfl⟩ := List.mem_map.mp hc
    exact ⟨rfl, Or.inr (Table.get_empty _)⟩
  have hstep : ∀ (rs : Table Field Value) (key : Field), parseTag lua rs (element lua t key) =
      rs.set key (elementParser lua key (element lua t key)) := fun rs key => by
    rw [parseTag, element, Node.name_leaf, ofName_name]
  have hparse : parse lua (generated lua pairs t) = Table.setEach ∅ (pairs.keys t.keys)
      fun key => elementParser lua key (element lua t key) := by
    rw [parse, htags, List.foldl_map, Table.setEach]
    simp only [hstep]
  rw [hparse, Table.get_setEach]
  split_ifs with hmem
  · obtain ⟨data, hdata⟩ := (t.mem_keys field).mp ((pairs.mem_keys _ _).mp hmem)
    rw [element, hdata, Option.bind_some, Option.bind_some]
  · have hnone : t.get field = none := Option.eq_none_iff_forall_ne_some.mpr fun data hdata =>
      hmem ((pairs.mem_keys _ _).mpr ((t.mem_keys field).mpr ⟨data, hdata⟩))
    rw [hnone]
    exact Table.get_empty field

/-- The element that counts for a field. -/
def lastTag (field : Field) (set : Node) : Option Node :=
  (set.childtags.filter fun tag => Field.ofName tag.name = some field).getLast?

theorem get_foldl_parseTag (tags : List Node) (field : Field) :
    (tags.foldl (parseTag lua) ∅).get field =
      ((tags.filter fun tag => Field.ofName tag.name = some field).getLast?).bind
        (elementParser lua field) := by
  induction tags using List.reverseRecOn with
  | nil => exact Table.get_empty field
  | append_singleton tags tag ih =>
    rw [List.foldl_append, List.foldl_cons, List.foldl_nil, List.filter_append, parseTag]
    cases hname : Field.ofName tag.name with
    | none => simpa [hname] using ih
    | some other =>
      dsimp only
      rw [Table.get_set]
      by_cases heq : field = other
      · rw [if_pos heq, heq]
        simp [hname]
      · rw [if_neg heq]
        simpa [hname, Ne.symm heq] using ih

theorem parse_get (set : Node) (field : Field) :
    (parse lua set).get field = (lastTag field set).bind (elementParser lua field) :=
  get_foldl_parseTag set.childtags field

variable {tag : Node}

theorem lastTag_spec {set : Node} (h : lastTag field set = some tag) :
    tag ∈ set.childtags ∧ Field.ofName tag.name = some field := by
  obtain ⟨hmem, hname⟩ := List.mem_filter.mp (List.mem_of_getLast? h)
  exact ⟨hmem, of_decide_eq_true hname⟩

/-! ## There and back -/

def Reads (lua : Lua) (tag : Node) (n : ℚ) : Prop :=
  (Field.ofName tag.name ∈ [some .max, some .index, some .count] ∧
      tag.getText.bind lua.tonumber = some n) ∨
    (Field.ofName tag.name = some .first ∧
      (tag.attr.get "index".toList).bind lua.tonumber = some n)

/-- Every number that is read is an integer of up to 14 digits. -/
def Plain (lua : Lua) (set : Node) : Prop :=
  ∀ tag ∈ set.childtags, ∀ n, Reads lua tag n → ∃ m : ℤ, n = m ∧ m.natAbs < 10 ^ 14

theorem parser_number {n : ℚ} {m : ℤ} (hn : n = m) (hm : m.natAbs < 10 ^ 14)
    (hread : tag.getText.bind lua.tonumber = some n)
    (h : (tag.getText.bind lua.tonumber).map Value.number = some data) (name : Text) :
    ((Node.leaf name ∅ (some (tostring lua data))).getText.bind lua.tonumber).map Value.number =
      some data := by
  rw [hread, Option.map_some] at h
  obtain rfl := Option.some.inj h
  rw [Node.getText_leaf, Option.bind_some, tostring, Option.getD_some, hn, lua.exact m hm]
  rfl

theorem parser_text (h : tag.getText.map Value.text = some data) (name : Text) :
    (Node.leaf name ∅ (some (tostring lua data))).getText.map Value.text = some data := by
  obtain ⟨text, -, rfl⟩ := Option.map_eq_some_iff.mp h
  rw [Node.getText_leaf]
  rfl

/-- What has been parsed is parsed again, unless it is the first item. -/
theorem parser_again {set : Node} (hplain : Plain lua set)
    (htag : lastTag field set = some tag) (hfirst : field ≠ .first)
    (h : elementParser lua field tag = some data) :
    elementParser lua field (Node.leaf field.name ∅ (content lua field data)) = some data := by
  obtain ⟨hmem, hname⟩ := lastTag_spec htag
  have hnumber : field ∈ [Field.max, .index, .count] →
      (tag.getText.bind lua.tonumber).map Value.number = some data →
      ((Node.leaf field.name ∅ (some (tostring lua data))).getText.bind lua.tonumber).map
        Value.number = some data := by
    intro hnum hread
    obtain ⟨n, hn, -⟩ := Option.map_eq_some_iff.mp hread
    have hlist : Field.ofName tag.name ∈ [some .max, some .index, some Field.count] := by
      rw [hname]
      exact List.mem_map_of_mem (f := some) hnum
    obtain ⟨m, heq, hm⟩ := hplain tag hmem n (Or.inl ⟨hlist, hn⟩)
    exact parser_number heq hm hn hread _
  cases field with
  | first => exact absurd rfl hfirst
  | after => exact parser_text h _
  | last => exact parser_text h _
  | max => exact hnumber (by decide) h
  | index => exact hnumber (by decide) h
  | count => exact hnumber (by decide) h
  | before =>
    obtain ⟨text, -, heq⟩ := Option.map_eq_some_iff.mp h
    split_ifs at heq with hempty
    · rw [← heq, elementParser, Node.getText_leaf]
      rfl
    · rw [← heq, elementParser, Node.getText_leaf]
      exact congrArg some (if_neg hempty)

/-- The first item comes back if it has no index, and a text. -/
theorem first_again (text : Option Text) :
    elementParser lua .first (Node.leaf Field.first.name ∅
        (content lua .first (.first none text))) = some (.first none text) ↔ text.isSome := by
  rw [elementParser, Node.getText_leaf, Node.attr_leaf, Table.get_empty, Option.bind_none, content]
  cases text <;> simp

/-- What is parsed can be generated and parsed again, with the same result, exactly if the last
`first` has no index that is a number and no elements in it. -/
theorem comes_back_iff (lua : Lua) (pairs : KeyOrder Field) (set : Node) (h : Plain lua set) :
    (generate lua pairs (parse lua set)).map (parse lua) = some (parse lua set) ↔
      ∀ tag, lastTag .first set = some tag →
        (tag.attr.get "index".toList).bind lua.tonumber = none ∧ tag.tags = [] := by
  have hfirst : ∀ tag, lastTag .first set = some tag → (parse lua set).get .first =
      some (.first ((tag.attr.get "index".toList).bind lua.tonumber) tag.getText) :=
    fun tag htag => by rw [parse_get, htag]; rfl
  have htext : ∀ tag : Node, tag.getText.isSome ↔ tag.tags = [] := fun tag => by
    unfold Node.getText
    split_ifs with hempty <;> simp [hempty]
  constructor
  · intro hback tag htag
    have hdata := hfirst tag htag
    cases hindex : (tag.attr.get "index".toList).bind lua.tonumber with
    | some n =>
      rw [hindex] at hdata
      rw [generate_of_raises hdata ⟨rfl, n, _, rfl⟩] at hback
      cases hback
    | none =>
      rw [hindex] at hdata
      have hquiet : ∀ field data,
          (parse lua set).get field = some data → ¬ Raises field data := by
        rintro field data hget ⟨rfl, n, text, rfl⟩
        rw [hdata] at hget
        cases hget
      rw [generate_eq hquiet, Option.map_some] at hback
      have hagain := congrArg (fun t => Table.get t Field.first) (Option.some.inj hback)
      rw [parse_generated, hdata, Option.bind_some] at hagain
      exact ⟨rfl, (htext tag).mp ((first_again _).mp hagain)⟩
  · intro hlast
    have hquiet : ∀ field data, (parse lua set).get field = some data → ¬ Raises field data := by
      rintro field data hget ⟨rfl, n, text, rfl⟩
      obtain ⟨tag, htag, -⟩ := Option.bind_eq_some_iff.mp ((parse_get set _).symm.trans hget)
      rw [hfirst tag htag, (hlast tag htag).1] at hget
      cases hget
    rw [generate_eq hquiet, Option.map_some]
    refine congrArg some (Table.ext fun field => ?_)
    rw [parse_generated]
    cases hget : (parse lua set).get field with
    | none => rfl
    | some data =>
      obtain ⟨tag, htag, hparser⟩ :=
        Option.bind_eq_some_iff.mp ((parse_get set field).symm.trans hget)
      rw [Option.bind_some]
      by_cases hfield : field = .first
      · subst hfield
        obtain ⟨hindex, htags⟩ := hlast tag htag
        rw [hfirst tag htag, hindex] at hget
        rw [← Option.some.inj hget]
        exact (first_again _).mpr ((htext tag).mpr htags)
      · exact parser_again h htag hfield hparser

/-! ## The first page of an archive -/

def Lua.decimal : Lua where
  tonumber := Decimal.read
  tostring n := Decimal.ofInt n.num
  address := "table: 0x0".toList
  exact n _ := by rw [Rat.num_intCast, Decimal.read_ofInt]

def declared : KeyOrder Field where
  keys s := Field.all.filter (· ∈ s)
  mem_keys s field := by
    have hall : field ∈ Field.all := by cases field <;> decide
    simp [hall]
  nodup s := List.Nodup.filter _ (by decide)

/-- An element `set` with the first item at an index, if any. -/
def firstPage (index : Option Text) : Node :=
  .elem "set".toList ((∅ : Table Text Text).set "xmlns".toList (some xmlnsRsm))
    [.elem "first".toList ((∅ : Table Text Text).set "index".toList index) [.text "a".toList],
      Node.leaf "max".toList ∅ (some "20".toList)]

theorem childtags_firstPage (index : Option Text) :
    (firstPage index).childtags = (firstPage index).children := by
  refine Node.childtags_eq fun c hc => ?_
  rcases List.mem_cons.mp hc with rfl | hc
  · refine ⟨rfl, Or.inr ?_⟩
    rw [Node.xmlns, Node.attr_elem, Table.get_set, if_neg (by decide), Table.get_empty]
  · rw [List.mem_singleton.mp hc]
    exact ⟨rfl, Or.inr (Table.get_empty _)⟩

theorem plain_firstPage {index : Option Text}
    (h : ∀ n, index.bind Lua.decimal.tonumber = some n → n = ((0 : ℤ) : ℚ)) :
    Plain .decimal (firstPage index) := by
  intro tag htag n hreads
  rw [childtags_firstPage] at htag
  rcases List.mem_cons.mp htag with rfl | htag
  · rw [Reads, Node.name_elem] at hreads
    rcases hreads with ⟨hname, -⟩ | ⟨-, hindex⟩
    · exact absurd hname (by decide)
    · rw [Node.attr_elem, Table.get_set_self] at hindex
      exact ⟨0, h n hindex, by decide⟩
  · obtain rfl := List.mem_singleton.mp htag
    rcases hreads with ⟨-, hread⟩ | ⟨hname, -⟩
    · have htwenty : Lua.decimal.tonumber "20".toList = some ((20 : ℤ) : ℚ) :=
        Decimal.read_ofInt 20
      rw [Node.getText_leaf, Option.bind_some, Option.getD_some, htwenty] at hread
      exact ⟨20, (Option.some.inj hread).symm, by decide⟩
    · exact absurd hname (by decide)

theorem firstPage_comes_back :
    (generate .decimal declared (parse .decimal (firstPage none))).map (parse .decimal) =
        some (parse .decimal (firstPage none)) ↔
      ∀ tag, lastTag .first (firstPage none) = some tag →
        (tag.attr.get "index".toList).bind Lua.decimal.tonumber = none ∧ tag.tags = [] :=
  comes_back_iff .decimal declared (firstPage none) (plain_firstPage fun n h => by cases h)

/-- With the index of the first item nothing can be generated. -/
theorem firstPage_raises :
    Plain .decimal (firstPage (some "0".toList)) ∧
      generate .decimal declared (parse .decimal (firstPage (some "0".toList))) = none := by
  have hzero : Lua.decimal.tonumber "0".toList = some ((0 : ℤ) : ℚ) := Decimal.read_ofInt 0
  refine ⟨plain_firstPage fun n h => ?_, ?_⟩
  · rw [Option.bind_some, hzero] at h
    exact (Option.some.inj h).symm
  · have hlast : lastTag .first (firstPage (some "0".toList)) =
        some (.elem "first".toList ((∅ : Table Text Text).set "index".toList (some "0".toList))
          [.text "a".toList]) := by
      rw [lastTag, childtags_firstPage]
      rfl
    have hget : (parse .decimal (firstPage (some "0".toList))).get .first =
        some (.first (some ((0 : ℤ) : ℚ)) (some "a".toList)) := by
      rw [parse_get, hlast, Option.bind_some, elementParser, Node.attr_elem, Table.get_set_self,
        Option.bind_some, hzero]
      rfl
    exact generate_of_raises hget ⟨rfl, _, _, rfl⟩

end Prosody.Rsm
