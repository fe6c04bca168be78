import Prosody.Xml.Reading

/-! # The parser's turns over the text of tags -/

namespace Prosody.Xml

variable {L : Lua} {pairs : KeyOrder Text} {σ : Type*} {H : Handlers σ}

/-! ## Turns -/

theorem takeWhile_append_of_mem {a b : Text} {c : Char} (h : c ∈ a) :
    (a ++ b).takeWhile (· ≠ c) = a.takeWhile (· ≠ c) ∧
      (a ++ b).dropWhile (· ≠ c) = a.dropWhile (· ≠ c) ++ b := by
  obtain ⟨a₁, a₂, rfl, ha₁⟩ := List.eq_append_cons_of_mem h
  rw [List.append_assoc, List.cons_append, (takeWhile_ne ha₁).1, (takeWhile_ne ha₁).2,
    (takeWhile_ne ha₁).1, (takeWhile_ne ha₁).2]
  exact ⟨rfl, rfl⟩

variable {data : Text}

theorem turn_lt {p : Parser σ} : turn L H (some p) ('<' :: data) = if '>' ∈ '<' :: data then
        some (p.markup L H (data.takeWhile (· ≠ '>')), (('<' :: data).dropWhile (· ≠ '>')).tail)
      else none := by
  simp only [turn, Option.bind_some]
  rw [if_neg (List.cons_ne_nil _ _), if_pos List.head?_cons, List.tail_cons]

theorem turn_ne {p : Parser σ} {x : Char} (hx : x ≠ '<') : turn L H (some p) (x :: data) =
      if '<' ∈ x :: data then
        some (p.text L H ((x :: data).takeWhile (· ≠ '<')), (x :: data).dropWhile (· ≠ '<'))
      else none := by
  simp only [turn, Option.bind_some]
  rw [if_neg (List.cons_ne_nil _ _), if_neg (by simpa using hx)]

variable {rest : Text}

theorem turn_more {p p' : Option (Parser σ)} (h : turn L H p data = some (p', rest)) (c : Text) :
    turn L H p (data ++ c) = some (p', rest ++ c) := by
  cases p with
  | none => cases h
  | some p =>
    cases data with
    | nil => cases h
    | cons x data =>
      rw [List.cons_append]
      by_cases hx : x = '<'
      · subst hx
        rw [turn_lt] at h ⊢
        split_ifs at h with hgt
        obtain ⟨rfl, rfl⟩ := Prod.mk.inj (Option.some.inj h)
        have hmem : '>' ∈ data := (List.mem_cons.mp hgt).resolve_left (by decide)
        have hdrop := (takeWhile_append_of_mem (b := c) hgt).2
        rw [List.cons_append] at hdrop
        have hin : '>' ∈ '<' :: (data ++ c) := List.mem_append_left c hgt
        rw [if_pos hin, (takeWhile_append_of_mem hmem).1, hdrop, List.tail_append_of_ne_nil]
        intro hnil
        obtain ⟨a, b, hab, ha⟩ := List.eq_append_cons_of_mem hgt
        rw [hab, (takeWhile_ne ha).2] at hnil
        cases hnil
      · rw [turn_ne hx] at h ⊢
        split_ifs at h with htext
        obtain ⟨rfl, rfl⟩ := Prod.mk.inj (Option.some.inj h)
        have hboth := takeWhile_append_of_mem (b := c) htext
        rw [List.cons_append] at hboth
        have hin : '<' ∈ x :: (data ++ c) := List.mem_append_left c htext
        rw [if_pos hin, hboth.1, hboth.2]

theorem turn_shorter {p p' : Option (Parser σ)}
    (h : turn L H p data = some (p', rest)) : rest.length < data.length := by
  have hle : ∀ (a : Text) (c : Char), (a.dropWhile (· ≠ c)).length ≤ a.length := fun a c =>
    (List.dropWhile_suffix _).length_le
  cases p with
  | none => cases h
  | some p =>
    cases data with
    | nil => cases h
    | cons x data =>
      by_cases hx : x = '<'
      · subst hx
        rw [turn_lt] at h
        split_ifs at h
        obtain ⟨-, rfl⟩ := Prod.mk.inj (Option.some.inj h)
        have := hle ('<' :: data) '>'
        rw [List.length_tail]
        simp only [List.length_cons] at this ⊢
        omega
      · rw [turn_ne hx] at h
        split_ifs at h
        obtain ⟨-, rfl⟩ := Prod.mk.inj (Option.some.inj h)
        have := hle data '<'
        rw [List.dropWhile_cons_of_pos (by simpa using hx), List.length_cons]
        omega

theorem turn_steady : Pieces.Steady (turn L H) where
  more h c := turn_more h c
  shorter h := turn_shorter h

theorem turn_markup {p : Parser σ} {elem : Text} (h : '>' ∉ elem) :
    turn L H (some p) ('<' :: (elem ++ '>' :: rest)) = some (p.markup L H elem, rest) := by
  have hgt : '>' ∉ '<' :: elem := by simp [h]
  have hdrop := (takeWhile_ne (t := rest) hgt).2
  rw [List.cons_append] at hdrop
  rw [turn_lt, if_pos (by simp), (takeWhile_ne h).1, hdrop, List.tail_cons]

theorem turn_text {p : Parser σ} {s : Text} (hs : s ≠ []) (hrest : rest.head? = some '<') :
    turn L H (some p) (xmlEscape s ++ rest) =
      some (some { p with state := H.characterData p.state s }, rest) := by
  obtain ⟨rest, rfl⟩ : ∃ t, rest = '<' :: t := by
    cases rest with
    | nil => cases hrest
    | cons c t => exact ⟨t, by rw [Option.some.inj hrest]⟩
  have hplain : '<' ∉ xmlEscape s := fun h => (xmlEscape_quiet h).1 rfl
  obtain ⟨c, t, ht⟩ : ∃ c t, xmlEscape s = c :: t := by
    refine List.exists_cons_of_ne_nil fun hnil => ?_
    have := length_le_xmlEscape s
    rw [hnil, List.length_nil, Nat.le_zero] at this
    exact hs (List.length_eq_zero_iff.mp this)
  have hc : c ≠ '<' := by
    rintro rfl
    exact hplain (by rw [ht]; exact List.mem_cons_self)
  have hboth := takeWhile_ne (t := rest) hplain
  rw [ht, List.cons_append] at hboth ⊢
  rw [turn_ne hc, if_pos (by simp), hboth.1, hboth.2, ← ht, Parser.text, xmlUnescape_xmlEscape]
  rfl

/-! ## Tags -/

section Tag

variable {bound : Text → Prop} {attr : Table Text Text} {parentns : Option Text} {ns : List Scope}
  {name u : Text}

/-- What the namespaces in scope of an element's children are, given those around it. -/
def inner (L : Lua) (pairs : KeyOrder Text) (attr : Table Text Text) (parentns : Option Text)
    (tag : Text) (ns : List Scope) : List Scope :=
  ⟨L.declarations (attrsRead pairs attr parentns), some tag⟩ :: ns

theorem startTag_eq (hname : IsName name) (hbound : Unbound (within bound attr) name)
    (hshape : AttrShaped bound attr) (hcovers : Covers bound ns)
    (hxml : (ns.findSome? fun scope => scope.decls.get "xml".toList) = some xmlUri)
    (hu : lookup (L.declarations (attrsRead pairs attr parentns)) ns [] = .uri u) :
    ∃ new, Hands attr new ∧ ∀ state,
      Parser.startTag L H ⟨ns, state⟩ (name ++ attrsText attr parentns (pairs.keys attr.keys) 0) =
        some ⟨inner L pairs attr parentns (u ++ nsSeparator :: name) ns,
          H.startElement state (u ++ nsSeparator :: name) new⟩ := by
  obtain ⟨new, hnew, hands⟩ := @newAttr_hands L pairs bound attr parentns ns hshape hcovers hxml
  refine ⟨new, hands, fun state => ?_⟩
  have hparse := parseTag_attrsOf (L := L) hname
    fun p (hp : p ∈ attrsWritten pairs attr parentns) => isName_written hshape hp
  unfold Parser.startTag
  rw [attrsText_eq, ← attrsWritten, hparse, Option.bind_some, ← attrsRead, Lua.push]
  simp only
  rw [hnew, Option.bind_some, applyNs_default hshape hcovers hbound hu]
  rfl

theorem attrsOf_gt {ps : List (Text × Text)} (hps : ∀ p ∈ ps, IsName p.1) : '>' ∉ attrsOf ps := by
  intro h
  obtain ⟨t, ht, hgt⟩ := List.mem_flatten.mp h
  obtain ⟨p, hp, rfl⟩ := List.mem_map.mp ht
  have hname : '>' ∉ p.1 := fun h => ((hps p hp).plain _ h).1.2.1 rfl
  have hvalue : '>' ∉ xmlEscape p.2 := fun h => (xmlEscape_quiet h).2.1 rfl
  simp [attrText, hname, hvalue] at hgt

theorem attrsOf_getLast? (ps : List (Text × Text)) :
    attrsOf ps = [] ∨ (attrsOf ps).getLast? = some '\'' := by
  induction ps using List.reverseRecOn with
  | nil => exact .inl rfl
  | append_singleton ps p _ =>
    have hlast : attrsOf (ps ++ [p]) =
        attrsOf ps ++ ' ' :: (p.1 ++ '=' :: '\'' :: xmlEscape p.2) ++ ['\''] := by
      simp [attrsOf, attrText]
    rw [hlast, List.getLast?_concat]
    exact .inr rfl

def tagText (pairs : KeyOrder Text) (name : Text) (attr : Table Text Text)
    (parentns : Option Text) : Text :=
  name ++ attrsText attr parentns (pairs.keys attr.keys) 0

theorem tagText_plain (hname : IsName name) (hshape : AttrShaped bound attr) :
    '>' ∉ tagText pairs name attr parentns ∧
      (∃ c t, tagText pairs name attr parentns = c :: t ∧ c ≠ '!' ∧ c ≠ '?' ∧ c ≠ '/') ∧
      (tagText pairs name attr parentns).getLast? ≠ some '/' := by
  have htext : tagText pairs name attr parentns =
      name ++ attrsOf (attrsWritten pairs attr parentns) := by
    rw [tagText, attrsText_eq, attrsWritten]
  rw [htext]
  refine ⟨?_, ?_, ?_⟩
  · have hgt : '>' ∉ name := fun h => (hname.plain _ h).1.2.1 rfl
    have hattrs : '>' ∉ attrsOf (attrsWritten pairs attr parentns) :=
      attrsOf_gt fun p hp => isName_written hshape hp
    simp [hgt, hattrs]
  · obtain ⟨c, t, rfl⟩ := List.exists_cons_of_ne_nil hname.ne_nil
    obtain ⟨-, -, -, hslash, hbang, hquestion, -⟩ := hname.plain c List.mem_cons_self
    exact ⟨c, t ++ attrsOf _, rfl, hbang, hquestion, hslash⟩
  · intro hlast
    rcases attrsOf_getLast? (attrsWritten pairs attr parentns) with hnil | hquote
    · rw [hnil, List.append_nil] at hlast
      exact (hname.plain _ (List.mem_of_getLast? hlast)).2.2.2.1 rfl
    · rw [List.getLast?_append, hquote] at hlast
      cases hlast

theorem markup_start (hname : IsName name) (hshape : AttrShaped bound attr) {p : Parser σ} :
    p.markup L H (tagText pairs name attr parentns) =
      p.startTag L H (tagText pairs name attr parentns) := by
  obtain ⟨-, ⟨c, t, ht, hbang, hquestion, hslash⟩, hlast⟩ :=
    @tagText_plain pairs bound attr parentns name hname hshape
  rw [Parser.markup, if_neg, if_neg, if_neg hlast]
  · simp [ht, hslash]
  · simp [ht, hbang, hquestion]

theorem markup_empty (hname : IsName name) (hshape : AttrShaped bound attr) {p : Parser σ} :
    p.markup L H (tagText pairs name attr parentns ++ ['/']) =
      (p.startTag L H (tagText pairs name attr parentns)).bind (Parser.endTag H) := by
  obtain ⟨-, ⟨c, t, ht, hbang, hquestion, hslash⟩, -⟩ :=
    @tagText_plain pairs bound attr parentns name hname hshape
  rw [Parser.markup, if_neg, if_neg, if_pos, List.dropLast_concat]
  · simp
  · simp [ht, hslash]
  · simp [ht, hbang, hquestion]

theorem markup_end {tag : Text} {p : Parser σ} {scope : Scope} (hns : p.ns = scope :: ns) :
    p.markup L H ('/' :: tag) = some ⟨ns, H.endElement p.state scope.tag⟩ := by
  rw [Parser.markup, if_neg (by simp), if_pos (by simp), Parser.endTag, hns]

end Tag

end Prosody.Xml
