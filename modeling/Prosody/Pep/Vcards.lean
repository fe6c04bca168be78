import Prosody.Pep.VcardLegacy

/-! # vCards through both conversions (`mod_vcard_legacy.lua`) -/

namespace Prosody.Pep.Vcard

open Prosody.Xml
open Node (leaf Own getText getChildText getChild_eq children_elem findText)
open Builder (up_addChildren_tag addChildren_append)

/-! ### What a vCard says -/

inductive Mark
  | home | work
  deriving DecidableEq

namespace Mark

def temp : Mark → Text
  | .home => "HOME".toList
  | .work => "WORK".toList

def v4 : Mark → Text
  | .home => "home".toList
  | .work => "work".toList

end Mark

/-- The properties that `simple_map` translates. -/
inductive Simple
  | nickname | title | role | categories | note | url | bday

namespace Simple

def v4 : Simple → Text
  | .nickname => "nickname".toList
  | .title => "title".toList
  | .role => "role".toList
  | .categories => "categories".toList
  | .note => "note".toList
  | .url => "url".toList
  | .bday => "bday".toList

def temp (kind : Simple) : Text := upper kind.v4

def type : Simple → Text
  | .url => "uri".toList
  | .bday => "date".toList
  | _ => "text".toList

end Simple

inductive NamePart
  | family | given | middle | honorific | suffix
  deriving DecidableEq

namespace NamePart

def temp : NamePart → Text
  | .family => "FAMILY".toList
  | .given => "GIVEN".toList
  | .middle => "MIDDLE".toList
  | .honorific => "PREFIX".toList
  | .suffix => "SUFFIX".toList

def v4 : NamePart → Text
  | .family => "surname".toList
  | .given => "given".toList
  | .middle => "additional".toList
  | .honorific => "prefix".toList
  | .suffix => "suffix".toList

def all : List NamePart := [.family, .given, .middle, .honorific, .suffix]

end NamePart

inductive AddressPart
  | pobox | extadd | street | locality | region | pcode | ctry
  deriving DecidableEq

namespace AddressPart

def temp : AddressPart → Text
  | .pobox => "POBOX".toList
  | .extadd => "EXTADD".toList
  | .street => "STREET".toList
  | .locality => "LOCALITY".toList
  | .region => "REGION".toList
  | .pcode => "PCODE".toList
  | .ctry => "CTRY".toList

def v4 : AddressPart → Text
  | .pobox => "pobox".toList
  | .extadd => "ext".toList
  | .street => "street".toList
  | .locality => "locality".toList
  | .region => "region".toList
  | .pcode => "code".toList
  | .ctry => "country".toList

def all : List AddressPart := [.pobox, .extadd, .street, .locality, .region, .pcode, .ctry]

end AddressPart

/-- The content of one child of a vcard-temp vCard. The parts of `N` and `ADR` are empty where
they are absent; categories may be given as keywords, each an element of its own. -/
inductive Element
  | fn (text : Text)
  | n (part : NamePart → Text)
  | simple (kind : Simple) (text : Text)
  | keywords (first : Text) (rest : List Text)
  | email (userid : Option Text) (mark : Option Mark)
  | tel (number : Option Text) (mark : Option Mark)
  | adr (part : AddressPart → Text) (mark : Option Mark)

/-- A child carries this mark and no other. -/
def Marked (node : Node) (mark : Option Mark) : Prop :=
  ∀ m : Mark, (node.getChild m.temp none).isSome = decide (mark = some m)

namespace Element

def name : Element → Text
  | .fn _ => "FN".toList
  | .n _ => "N".toList
  | .simple kind _ => kind.temp
  | .keywords _ _ => "CATEGORIES".toList
  | .email _ _ => "EMAIL".toList
  | .tel _ _ => "TEL".toList
  | .adr _ _ => "ADR".toList

/-- The texts and the mark that can be read off a child. -/
def Content : Element → Node → Prop
  | .fn text, node => node.getText = some text
  | .n part, node => ∀ p : NamePart, (node.getChildText p.temp).getD [] = part p
  | .simple _ text, node => node.getText = some text
  | .keywords first rest, node => node.tags.map getText = (first :: rest).map some
  | .email userid mark, node => node.getChildText "USERID".toList = userid ∧ Marked node mark
  | .tel number mark, node => node.getChildText "NUMBER".toList = number ∧ Marked node mark
  | .adr part mark, node =>
    (∀ p : AddressPart, (node.getChildText p.temp).getD [] = part p) ∧ Marked node mark

/-- This child of a vCard has this content. -/
def Says (e : Element) (node : Node) : Prop := node.name = e.name ∧ e.Content node

def fn? : Element → Option Text
  | .fn text => some text
  | _ => none

def n? : Element → Option (NamePart → Text)
  | .n part => some part
  | _ => none

/-- A property that has a value; an address always has. -/
def valued : Element → Bool
  | .fn _ => false
  | .n _ => false
  | .email userid _ => userid.isSome
  | .tel number _ => number.isSome
  | _ => true

/-- A telephone number without the number. -/
def stray : Element → Bool
  | .tel none _ => true
  | _ => false

def isKeywords : Element → Bool
  | .keywords _ _ => true
  | _ => false

end Element

/-- A vcard-temp vCard with one `FN`, one `N` and any properties, in any order. -/
structure VCard where
  node : Node
  elements : List Element
  content : List.Forall₂ Element.Says elements node.childtags
  fn : Text
  n : NamePart → Text
  fn_once : elements.filterMap Element.fn? = [fn]
  n_once : elements.filterMap Element.n? = [n]

/-! ### The same in vcard4 -/

def parameters (mark : Option Mark) : Node :=
  .elem "parameters".toList ∅ [.elem "type".toList ∅
    (mark.toList.map fun m => leaf "text".toList ∅ (some m.v4))]

/-- The vcard4 elements for the parts of a name or of an address. -/
def parts {ι : Type} (key : ι → Text) (value : ι → Text) (all : List ι) : List Node :=
  all.map fun p => leaf (key p) ∅ (some (value p))

def Element.vcard4 : Element → Option Node
  | .simple kind text => some (.elem kind.v4 ∅ [leaf kind.type ∅ (some text)])
  | .email (some userid) mark =>
    some (.elem "email".toList ∅ [leaf "text".toList ∅ (some userid), parameters mark])
  | .tel (some number) mark =>
    some (.elem "tel".toList ∅
      [leaf "uri".toList ∅ (some ("tel:".toList ++ number)), parameters mark])
  | .adr part mark =>
    some (.elem "adr".toList ∅ (parts AddressPart.v4 part AddressPart.all ++ [parameters mark]))
  | _ => none

/-! ### Elements made of leaves -/

theorem leaf_getD (name : Text) (attr : Table Text Text) (text : Option Text) :
    leaf name attr text = leaf name attr (some (text.getD [])) := rfl

theorem own_leaf (name : Text) (text : Option Text) (ns : Option Text) :
    Own ns (leaf name ∅ text) := ⟨rfl, .inr rfl⟩

theorem own_elem (name : Text) (children : List Node) (ns : Option Text) :
    Own ns (.elem name ∅ children) := ⟨rfl, .inr rfl⟩

theorem own_parts {ι : Type} {key value : ι → Text} {all : List ι} {ns : Option Text} :
    ∀ c ∈ parts key value all, Own ns c := by
  intro c hc
  obtain ⟨p, -, rfl⟩ := List.mem_map.mp hc
  exact own_leaf _ _ _

theorem find?_parts {ι : Type} {key value : ι → Text} (hkey : Function.Injective key) {p : ι}
    {all : List ι} (hp : p ∈ all) :
    (parts key value all).find? (fun c => key p = c.name) =
      some (leaf (key p) ∅ (some (value p))) := by
  induction all with
  | nil => cases hp
  | cons q all ih =>
    rw [parts, List.map_cons, List.find?_cons]
    by_cases h : p = q
    · subst h
      simp
    · have hne : key p ≠ key q := fun hk => h (hkey hk)
      have hmem : p ∈ all := (List.mem_cons.mp hp).resolve_left h
      rw [Node.name_leaf, decide_eq_false hne]
      exact ih hmem

theorem getChildText_parts {ι : Type} {key value : ι → Text} (hkey : Function.Injective key)
    {all : List ι} {p : ι} (hp : p ∈ all) (name : Text) {rest : List Node}
    (hrest : ∀ c ∈ rest, Own none c) :
    (Node.elem name ∅ (parts key value all ++ rest)).getChildText (key p) = some (value p) := by
  have hown : ∀ c ∈ (Node.elem name ∅ (parts key value all ++ rest)).children,
      Own (Node.elem name ∅ (parts key value all ++ rest)).xmlns c := by
    intro c hc
    rcases List.mem_append.mp hc with hc | hc
    · exact own_parts c hc
    · exact hrest c hc
  rw [getChildText, getChild_eq hown, children_elem, List.find?_append, find?_parts hkey hp]
  simp

theorem getChildText_all {ι : Type} {key value : ι → Text} (hkey : Function.Injective key)
    {all : List ι} {p : ι} (hp : p ∈ all) (name : Text) :
    (Node.elem name ∅ (parts key value all)).getChildText (key p) = some (value p) := by
  have h := @getChildText_parts ι key value hkey all p hp name [] (List.forall_mem_nil _)
  rwa [List.append_nil] at h

/-! ### Marks -/

def markTags (mark : Option Mark) : List Node := mark.toList.map fun m => .elem m.temp ∅ []

variable {mark : Option Mark}

theorem own_markTags {ns : Option Text} : ∀ c ∈ markTags mark, Own ns c := by
  intro c hc
  obtain ⟨m, -, rfl⟩ := List.mem_map.mp hc
  exact own_elem _ _ _

theorem marked_elem {name : Text} {children : List Node} (mark : Option Mark)
    (hown : ∀ c ∈ children, Own none c) (hname : ∀ c ∈ children, ∀ m : Mark, c.name ≠ m.temp) :
    Marked (.elem name ∅ (children ++ markTags mark)) mark := by
  intro m
  have hall : ∀ c ∈ (Node.elem name ∅ (children ++ markTags mark)).children,
      Own (Node.elem name ∅ (children ++ markTags mark)).xmlns c := by
    intro c hc
    rcases List.mem_append.mp hc with hc | hc
    · exact hown c hc
    · exact own_markTags c hc
  have hnone : children.find? (fun c => m.temp = c.name) = none := by
    rw [List.find?_eq_none]
    intro c hc
    rw [decide_eq_true_eq]
    exact (hname c hc m).symm
  rw [getChild_eq hall, children_elem, List.find?_append, hnone]
  rcases mark with _ | _ | _ <;> cases m <;> rfl

/-- The mark is found where the vcard4 element has it. -/
theorem findText_parameters (name : Text) (children : List Node) (mark : Option Mark)
    (hown : ∀ c ∈ children, Own none c) (hname : ∀ c ∈ children, c.name ≠ "parameters".toList) :
    (Node.elem name ∅ (children ++ [parameters mark])).findText
      ["parameters".toList, "type".toList, "text".toList] = mark.map Mark.v4 := by
  have hall : ∀ c ∈ (Node.elem name ∅ (children ++ [parameters mark])).children,
      Own (Node.elem name ∅ (children ++ [parameters mark])).xmlns c := by
    intro c hc
    rcases List.mem_append.mp hc with hc | hc
    · exact hown c hc
    · rw [List.mem_singleton.mp hc]
      exact own_elem _ _ _
  have hnone : children.find? (fun c => "parameters".toList = c.name) = none := by
    rw [List.find?_eq_none]
    intro c hc
    rw [decide_eq_true_eq]
    exact (hname c hc).symm
  have hfind : (Node.elem name ∅ (children ++ [parameters mark])).getChild
      "parameters".toList none = some (parameters mark) := by
    rw [getChild_eq hall, children_elem, List.find?_append, hnone]
    rfl
  change ((Node.elem name ∅ (children ++ [parameters mark])).getChild
    "parameters".toList none).bind (findText ["type".toList, "text".toList]) = _
  rw [hfind]
  rcases mark with _ | _ | _ <;> rfl

variable {tag : Node}

theorem endMarked_eq (b : Builder) (name : Text) (cs : List Node)
    (h : tag.findText ["parameters".toList, "type".toList, "text".toList] = mark.map Mark.v4) :
    endMarked ((b.tag name ∅).addChildren cs) tag =
      b.addChild (.elem name ∅ (cs ++ markTags mark)) := by
  rw [← up_addChildren_tag, addChildren_append]
  unfold endMarked
  rw [h]
  rcases mark with _ | _ | _ <;> rfl

theorem endParameters_eq (b : Builder) (h : Marked tag mark) :
    endParameters b tag = (b.addChild (parameters mark)).up := by
  have hhome := h .home
  have hwork := h .work
  unfold endParameters
  change (tag.getChild "HOME".toList none).isSome = _ at hhome
  change (tag.getChild "WORK".toList none).isSome = _ at hwork
  rw [hhome, hwork]
  rcases mark with _ | _ | _ <;> rfl

theorem endParameters_tag (b : Builder) (name : Text) (cs : List Node)
    (h : Marked tag mark) : endParameters ((b.tag name ∅).addChildren cs) tag =
      b.addChild (.elem name ∅ (cs ++ [parameters mark])) := by
  rw [endParameters_eq _ h, ← up_addChildren_tag, addChildren_append]
  rfl

/-! ### The ladder of the set handler -/

theorem simple_lookup (kind : Simple) :
    simpleMap.lookup kind.v4 = some kind.type ∧ lower kind.temp = kind.v4 ∧
      upper kind.v4 = kind.temp := by
  cases kind <;> decide

theorem namePart_temp_injective : Function.Injective NamePart.temp := by
  intro p q h
  cases p <;> cases q <;> first | rfl | exact absurd h (by decide)

theorem namePart_v4_injective : Function.Injective NamePart.v4 := by
  intro p q h
  cases p <;> cases q <;> first | rfl | exact absurd h (by decide)

theorem addressPart_temp_injective : Function.Injective AddressPart.temp := by
  intro p q h
  cases p <;> cases q <;> first | rfl | exact absurd h (by decide)

theorem addressPart_v4_injective : Function.Injective AddressPart.v4 := by
  intro p q h
  cases p <;> cases q <;> first | rfl | exact absurd h (by decide)

theorem namePart_mem_all (p : NamePart) : p ∈ NamePart.all := by
  cases p <;> decide

theorem addressPart_mem_all (p : AddressPart) : p ∈ AddressPart.all := by
  cases p <;> decide

theorem getText_none_of_tags {node : Node} {ts : List (Option Text)} {t : Option Text}
    (h : node.tags.map getText = t :: ts) : node.getText = none := by
  have hne : node.tags ≠ [] := by
    rintro hnil
    rw [hnil] at h
    cases h
  exact if_neg hne

variable {part : AddressPart → Text}

theorem addChildren_addressParts (b : Builder)
    (h : ∀ p : AddressPart, (tag.getChildText p.temp).getD [] = part p) :
    (((((((b.textTag "pobox".toList (tag.getChildText "POBOX".toList)).textTag
      "ext".toList (tag.getChildText "EXTADD".toList)).textTag
      "street".toList (tag.getChildText "STREET".toList)).textTag
      "locality".toList (tag.getChildText "LOCALITY".toList)).textTag
      "region".toList (tag.getChildText "REGION".toList)).textTag
      "code".toList (tag.getChildText "PCODE".toList)).textTag
      "country".toList (tag.getChildText "CTRY".toList)) =
      b.addChildren (parts AddressPart.v4 part AddressPart.all) := by
  have hleaf : ∀ p : AddressPart, leaf p.v4 ∅ (tag.getChildText p.temp) =
      leaf p.v4 ∅ (some (part p)) := by
    intro p
    rw [leaf_getD, h p]
  simp only [Builder.textTag_eq]
  simp only [parts, AddressPart.all, List.map_cons, List.map_nil, ← hleaf,
    Builder.addChildren_cons, Builder.addChildren_nil]
  rfl

theorem setTag_simple (b : Builder) {kind : Simple} {t : Text}
    (hname : tag.name = kind.temp) (ht : tag.getText = some t) :
    setTag b tag = b.addChild (.elem kind.v4 ∅ [leaf kind.type ∅ (some t)]) := by
  obtain ⟨hlookup, hlower, -⟩ := simple_lookup kind
  unfold setTag
  rw [hname, hlower, hlookup, ht]
  dsimp only
  rw [Builder.textTag_eq, Builder.addChild_eq, up_addChildren_tag]

theorem setTag_keywords (b : Builder) (hname : tag.name = "CATEGORIES".toList)
    (ht : tag.getText = none) : setTag b tag = b := by
  have hlookup : simpleMap.lookup (lower "CATEGORIES".toList) = some "text".toList := by decide
  unfold setTag
  rw [hname, hlookup, ht]

theorem setTag_other (b : Builder)
    (h : simpleMap.lookup (lower tag.name) = none) : setTag b tag = setOther b tag := by
  unfold setTag
  rw [h]

theorem setTag_email (b : Builder) {userid : Option Text}
    (hname : tag.name = "EMAIL".toList) (ht : tag.getChildText "USERID".toList = userid)
    (hmark : Marked tag mark) :
    setTag b tag = b.addChildren (Element.email userid mark).vcard4.toList := by
  rw [setTag_other b (by rw [hname]; decide), setOther, if_pos hname, ht]
  cases userid with
  | none => rfl
  | some t =>
    dsimp only
    rw [Builder.textTag_eq, Builder.addChild_eq, endParameters_tag _ _ _ hmark]
    rfl

theorem setTag_tel_some (b : Builder) {t : Text}
    (hname : tag.name = "TEL".toList) (ht : tag.getChildText "NUMBER".toList = some t)
    (hmark : Marked tag mark) :
    setTag b tag = b.addChildren (Element.tel (some t) mark).vcard4.toList := by
  rw [setTag_other b (by rw [hname]; decide), setOther, if_neg (by rw [hname]; decide),
    if_pos hname, ht]
  dsimp only
  rw [Builder.textTag_eq, Builder.addChild_eq, endParameters_tag _ _ _ hmark]
  rfl

theorem setTag_tel_none (b : Builder)
    (hname : tag.name = "TEL".toList) (ht : tag.getChildText "NUMBER".toList = none)
    (hmark : Marked tag mark) : setTag b tag = (b.addChild (parameters mark)).up := by
  rw [setTag_other b (by rw [hname]; decide), setOther, if_neg (by rw [hname]; decide),
    if_pos hname, ht]
  dsimp only
  rw [endParameters_eq _ hmark]

theorem setTag_adr (b : Builder) (hname : tag.name = "ADR".toList)
    (hpart : ∀ p : AddressPart, (tag.getChildText p.temp).getD [] = part p)
    (hmark : Marked tag mark) :
    setTag b tag = b.addChildren (Element.adr part mark).vcard4.toList := by
  rw [setTag_other b (by rw [hname]; decide), setOther, if_neg (by rw [hname]; decide),
    if_neg (by rw [hname]; decide), if_neg (by rw [hname]; decide),
    if_neg (by rw [hname]; decide), if_pos hname, addChildren_addressParts _ hpart,
    endParameters_tag _ _ _ hmark]
  rfl

theorem setTag_none (b : Builder)
    (hname : tag.name = "FN".toList ∨ tag.name = "N".toList) : setTag b tag = b := by
  rcases hname with hname | hname <;>
  · rw [setTag_other b (by rw [hname]; decide), setOther, if_neg (by rw [hname]; decide),
      if_neg (by rw [hname]; decide), if_neg (by rw [hname]; decide),
      if_neg (by rw [hname]; decide), if_neg (by rw [hname]; decide)]

theorem setTag_spec (b : Builder) {e : Element} (h : e.Says tag) :
    (e.stray = false → setTag b tag = b.addChildren e.vcard4.toList) ∧
      (e.stray = true → ∃ mark, setTag b tag = (b.addChild (parameters mark)).up) := by
  obtain ⟨hname, hcontent⟩ := h
  cases e with
  | fn t => exact ⟨fun _ => setTag_none b (.inl hname), fun h => (by cases h)⟩
  | n part => exact ⟨fun _ => setTag_none b (.inr hname), fun h => (by cases h)⟩
  | simple kind t => exact ⟨fun _ => setTag_simple b hname hcontent, fun h => (by cases h)⟩
  | keywords first rest =>
    exact ⟨fun _ => setTag_keywords b hname (getText_none_of_tags hcontent),
      fun h => (by cases h)⟩
  | email userid mark =>
    exact ⟨fun _ => setTag_email b hname hcontent.1 hcontent.2, fun h => (by cases h)⟩
  | tel number mark =>
    cases number with
    | none =>
      exact ⟨fun h => (by cases h),
        fun _ => ⟨mark, setTag_tel_none b hname hcontent.1 hcontent.2⟩⟩
    | some t =>
      exact ⟨fun _ => setTag_tel_some b hname hcontent.1 hcontent.2, fun h => (by cases h)⟩
  | adr part mark =>
    exact ⟨fun _ => setTag_adr b hname hcontent.1 hcontent.2, fun h => (by cases h)⟩

/-! ### The ladder of the get handler -/

theorem getChildText_leaf (name key : Text) (t : Text) {rest : List Node}
    (hrest : ∀ c ∈ rest, Own none c) :
    (Node.elem name ∅ (leaf key ∅ (some t) :: rest)).getChildText key = some t := by
  have hkey : Function.Injective fun _ : Unit => key := fun _ _ _ => rfl
  have hp : () ∈ [()] := List.mem_singleton.mpr rfl
  exact @getChildText_parts Unit _ (fun _ => t) hkey [()] () hp name rest hrest

theorem own_parameters {ns : Option Text} : ∀ c ∈ [parameters mark], Own ns c := by
  intro c hc
  rw [List.mem_singleton.mp hc]
  exact own_elem _ _ _

theorem getTag_simple (b : Builder) (kind : Simple) (t : Text) :
    getTag b (.elem kind.v4 ∅ [leaf kind.type ∅ (some t)]) =
      b.addChild (leaf kind.temp ∅ (some t)) := by
  obtain ⟨hlookup, -, hupper⟩ := simple_lookup kind
  have hread := getChildText_leaf kind.v4 kind.type t (List.forall_mem_nil (Own none))
  unfold getTag
  rw [Node.name_elem, hlookup]
  dsimp only
  rw [hread, hupper]
  dsimp only
  rw [Builder.textTag_eq]

theorem getTag_other (b : Builder) (h : simpleMap.lookup tag.name = none) :
    getTag b tag = getOther b tag := by
  unfold getTag
  rw [h]

theorem findText_leaf (name key : Text) (t : Text) (mark : Option Mark)
    (hkey : key ≠ "parameters".toList) :
    (Node.elem name ∅ [leaf key ∅ (some t), parameters mark]).findText
      ["parameters".toList, "type".toList, "text".toList] = mark.map Mark.v4 := by
  refine findText_parameters name [leaf key ∅ (some t)] mark ?_ ?_
  · intro c hc
    rw [List.mem_singleton.mp hc]
    exact own_leaf _ _ _
  · intro c hc
    rw [List.mem_singleton.mp hc]
    exact hkey

/-- The mark of a vcard4 element, as the get handler asks for it. -/
def Kind (tag : Node) (mark : Option Mark) : Prop :=
  tag.findText ["parameters".toList, "type".toList, "text".toList] = mark.map Mark.v4

theorem getTag_email (b : Builder) {t : Text}
    (hname : tag.name = "email".toList) (ht : tag.getChildText "text".toList = some t)
    (hkind : Kind tag mark) :
    getTag b tag = b.addChild (.elem "EMAIL".toList ∅ ([leaf "USERID".toList ∅ (some t),
      .elem "INTERNET".toList ∅ []] ++ markTags mark)) := by
  rw [getTag_other b (by rw [hname]; decide), getOther, if_pos hname, ht]
  dsimp only
  rw [Builder.up_tag, Builder.textTag_eq, Builder.addChild_eq, Builder.addChild_eq,
    ← addChildren_append, endMarked_eq _ _ _ hkind]
  rfl

theorem getTag_tel (b : Builder) {t : Text} (hname : tag.name = "tel".toList)
    (ht : tag.getChildText "uri".toList = some ("tel:".toList ++ t)) (hkind : Kind tag mark) :
    getTag b tag = b.addChild (.elem "TEL".toList ∅
      ([leaf "NUMBER".toList ∅ (some t)] ++ markTags mark)) := by
  have htake : ("tel:".toList ++ t).take 4 = "tel:".toList := rfl
  have hdrop : ("tel:".toList ++ t).drop 4 = t := rfl
  rw [getTag_other b (by rw [hname]; decide), getOther, if_neg (by rw [hname]; decide),
    if_pos hname, ht]
  dsimp only
  rw [if_pos htake, hdrop, Builder.textTag_eq, Builder.addChild_eq, endMarked_eq _ _ _ hkind]

theorem getTag_adr (b : Builder) (hname : tag.name = "adr".toList)
    (hpart : ∀ p : AddressPart, tag.getChildText p.v4 = some (part p)) (hkind : Kind tag mark) :
    getTag b tag = b.addChild (.elem "ADR".toList ∅
      (parts AddressPart.temp part AddressPart.all ++ markTags mark)) := by
  have h1 : tag.getChildText "pobox".toList = some (part .pobox) := hpart .pobox
  have h2 : tag.getChildText "ext".toList = some (part .extadd) := hpart .extadd
  have h3 : tag.getChildText "street".toList = some (part .street) := hpart .street
  have h4 : tag.getChildText "locality".toList = some (part .locality) := hpart .locality
  have h5 : tag.getChildText "region".toList = some (part .region) := hpart .region
  have h6 : tag.getChildText "code".toList = some (part .pcode) := hpart .pcode
  have h7 : tag.getChildText "country".toList = some (part .ctry) := hpart .ctry
  rw [getTag_other b (by rw [hname]; decide), getOther, if_neg (by rw [hname]; decide),
    if_neg (by rw [hname]; decide), if_pos hname, h1, h2, h3, h4, h5, h6, h7,
    ← endMarked_eq _ _ _ hkind]
  simp only [Builder.textTag_eq]
  rfl

/-- What is no property of a vcard4 is passed over. -/
theorem getTag_none (b : Builder)
    (hname : tag.name = "fn".toList ∨ tag.name = "n".toList ∨ tag.name = "parameters".toList) :
    getTag b tag = b := by
  rcases hname with hname | hname | hname <;>
  · rw [getTag_other b (by rw [hname]; decide), getOther, if_neg (by rw [hname]; decide),
      if_neg (by rw [hname]; decide), if_neg (by rw [hname]; decide)]

theorem getTag_spec {e : Element} {v : Node} (h : e.vcard4 = some v) :
    ∃ r, e.Says r ∧ ∀ b, getTag b v = b.addChild r := by
  cases e with
  | fn t => cases h
  | n part => cases h
  | simple kind t =>
    cases h
    have ht : (leaf kind.temp ∅ (some t)).getText = some t := Node.getText_leaf _ _ _
    exact ⟨_, ⟨rfl, ht⟩, fun b => getTag_simple b kind t⟩
  | keywords first rest => cases h
  | email userid mark =>
    cases userid with
    | none => cases h
    | some t =>
      cases h
      have ht := getChildText_leaf "email".toList "text".toList t (@own_parameters mark none)
      have hkind := findText_leaf "email".toList "text".toList t mark (by decide)
      refine ⟨_, ⟨rfl, ?_, ?_⟩, fun b => getTag_email b rfl ht hkind⟩
      · refine getChildText_leaf _ _ _ fun c hc => ?_
        rcases List.mem_cons.mp hc with rfl | hc
        · exact own_elem _ _ _
        · exact own_markTags c hc
      · refine marked_elem mark ?_ ?_
        · intro c hc
          rcases List.mem_pair.mp hc with rfl | rfl
          · exact own_leaf _ _ _
          · exact own_elem _ _ _
        · intro c hc m
          rcases List.mem_pair.mp hc with rfl | rfl
          · rw [Node.name_leaf]
            cases m <;> decide
          · rw [Node.name_elem]
            cases m <;> decide
  | tel number mark =>
    cases number with
    | none => cases h
    | some t =>
      cases h
      have ht := getChildText_leaf "tel".toList "uri".toList ("tel:".toList ++ t)
        (@own_parameters mark none)
      have hkind := findText_leaf "tel".toList "uri".toList ("tel:".toList ++ t) mark
        (by decide)
      refine ⟨_, ⟨rfl, ?_, ?_⟩, fun b => getTag_tel b rfl ht hkind⟩
      · exact getChildText_leaf _ _ _ own_markTags
      · refine marked_elem mark ?_ ?_
        · intro c hc
          rw [List.mem_singleton.mp hc]
          exact own_leaf _ _ _
        · intro c hc m
          rw [List.mem_singleton.mp hc, Node.name_leaf]
          cases m <;> decide
  | adr part mark =>
    cases h
    have hpart : ∀ p : AddressPart, (Node.elem "adr".toList ∅
        (parts AddressPart.v4 part AddressPart.all ++ [parameters mark])).getChildText p.v4 =
          some (part p) := fun p =>
      getChildText_parts addressPart_v4_injective (addressPart_mem_all p) _ own_parameters
    have hkind := findText_parameters "adr".toList (parts AddressPart.v4 part AddressPart.all)
      mark own_parts (by
        intro c hc
        obtain ⟨p, -, rfl⟩ := List.mem_map.mp hc
        rw [Node.name_leaf]
        cases p <;> decide)
    refine ⟨_, ⟨rfl, ?_, ?_⟩, fun b => getTag_adr b rfl hpart hkind⟩
    · intro p
      rw [getChildText_parts addressPart_temp_injective (addressPart_mem_all p) _ own_markTags]
      rfl
    · refine marked_elem mark own_parts ?_
      intro c hc m
      obtain ⟨p, -, rfl⟩ := List.mem_map.mp hc
      rw [Node.name_leaf]
      cases p <;> cases m <;> decide

end Prosody.Pep.Vcard
