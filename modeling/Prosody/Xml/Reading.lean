import Prosody.Library.Lists
import Prosody.Xml.Attributes

/-! # What a tag declares and what its attributes are read as -/

namespace Prosody.Xml

variable {L : Lua} {pairs : KeyOrder Text} {bound : Text → Prop} {attr : Table Text Text}
  {parentns : Option Text}

/-- Attributes whose keys are brought back. -/
def AttrShaped (bound : Text → Prop) (attr : Table Text Text) : Prop :=
  ∀ k v, attr.get k = some v → k = "xmlns".toList ∨ KeyShaped (within bound attr) k

def attrsWritten (pairs : KeyOrder Text) (attr : Table Text Text) (parentns : Option Text) :
    List (Text × Text) :=
  written attr parentns (pairs.keys attr.keys) 0

/-- The keys of an element that have a namespace, with their numbers. -/
def attrsNumbered (pairs : KeyOrder Text) (attr : Table Text Text) : List (ℕ × Text) :=
  numbered (pairs.keys attr.keys) 0

variable {k : Text}

theorem mem_keys_iff : k ∈ pairs.keys attr.keys ↔ ∃ v, attr.get k = some v := by
  rw [pairs.mem_keys, Table.mem_keys]

theorem namespaced_eq_card :
    namespaced (pairs.keys attr.keys) = (attr.keys.filter fun k => nsSeparator ∈ k).card := by
  have hnodup := (pairs.nodup attr.keys).filter fun k => decide (nsSeparator ∈ k)
  rw [namespaced, List.countP_eq_length_filter, ← List.toFinset_card_of_nodup hnodup]
  congr 1
  ext k
  simp [pairs.mem_keys]

theorem within_numbered {e : ℕ × Text} (h : e ∈ attrsNumbered pairs attr) :
    within bound attr (nsPrefix e.1) := by
  obtain ⟨hlow, hhigh, -, -⟩ := mem_numbered h
  rw [namespaced_eq_card, Nat.zero_add] at hhigh
  exact .inr ⟨e.1, hlow, hhigh, rfl⟩

/-! ## The names that are written -/

theorem WritesPlain.cases (hshape : AttrShaped bound attr) {p : Text × Text}
    (hk : k ∈ pairs.keys attr.keys) (h : WritesPlain attr parentns p k) :
    p.1 = k ∧ attr.get k = some p.2 ∧ (k = "xmlns".toList ∨ xmlAttr k ∨
        IsName k ∧ declared k = none ∧ Unbound (within bound attr) k) := by
  obtain ⟨hsep, -, rfl⟩ := h
  obtain ⟨v, hv⟩ := mem_keys_iff.mp hk
  refine ⟨rfl, by simp [hv], ?_⟩
  rcases hshape k v hv with hxmlns | hkey
  · exact .inl hxmlns
  · cases hkey with
    | xml h => exact .inr (.inl h)
    | namespaced h => exact absurd h hsep
    | plain hname hdecl hbound => exact .inr (.inr ⟨hname, hdecl, hbound⟩)

theorem isName_written (hshape : AttrShaped bound attr) {p : Text × Text}
    (hp : p ∈ attrsWritten pairs attr parentns) : IsName p.1 := by
  have hcolon : ∀ c ∈ [':'], Quiet c ∧ c ≠ '=' ∧ isSpace c = false ∧ c ≠ '/' ∧ c ≠ '!' ∧ c ≠ '?' ∧
      c ≠ nsSeparator := by
    simp [Quiet, isQuote, isSpace, nsSeparator]
  rcases mem_written.mp hp with ⟨k, hk, hplain⟩ | ⟨e, he, hdecl | hattr⟩
  · obtain ⟨hname, -, rfl | hxml | hshaped⟩ := hplain.cases hshape hk
    · rw [hname]
      exact ⟨by simp, by simp [Quiet, isQuote, isSpace, nsSeparator]⟩
    · rw [hname]
      exact isName_of_xmlAttr hxml
    · rw [hname]
      exact hshaped.1
  · have hxmlns : IsName "xmlns:".toList := by
      exact ⟨by simp, by simp [Quiet, isQuote, isSpace, nsSeparator]⟩
    rw [hdecl]
    exact hxmlns.append (isName_nsPrefix e.1).plain
  · obtain ⟨-, -, hmem, hsep⟩ := mem_numbered he
    obtain ⟨v, hv⟩ := mem_keys_iff.mp hmem
    have hlocal : IsName (splitNs e.2).2 := by
      rcases hshape e.2 v hv with hxmlns | hkey
      · rw [hxmlns] at hsep
        exact absurd hsep (by decide)
      · cases hkey with
        | xml h =>
          exact absurd hsep fun hmem => ((isName_of_xmlAttr h).plain _ hmem).2.2.2.2.2.2 rfl
        | namespaced _ hname => exact hname
        | plain hname => exact absurd hsep fun hmem => (hname.plain _ hmem).2.2.2.2.2.2 rfl
    rw [hattr]
    refine (isName_nsPrefix e.1).append fun c hc => ?_
    rcases List.mem_cons.mp hc with rfl | hc
    · exact hcolon _ List.mem_cons_self
    · exact hlocal.plain c hc

theorem nsPrefix_ne_nil (n : ℕ) : nsPrefix n ≠ [] := List.cons_ne_nil _ _

/-- A name that is written for a key without a namespace is not one that is invented. -/
theorem WritesPlain.fst_ne (hshape : AttrShaped bound attr) {p : Text × Text}
    (hk : k ∈ pairs.keys attr.keys) (h : WritesPlain attr parentns p k) {e : ℕ × Text}
    (he : e ∈ attrsNumbered pairs attr) :
    p.1 ≠ "xmlns:".toList ++ nsPrefix e.1 ∧ p.1 ≠ nsPrefix e.1 ++ ':' :: (splitNs e.2).2 := by
  obtain ⟨hname, -, hcases⟩ := h.cases hshape hk
  rw [hname]
  constructor
  · intro heq
    have hdecl := declared_xmlns (nsPrefix e.1)
    rw [← heq] at hdecl
    rcases hcases with rfl | hxml | hshaped
    · exact nsPrefix_ne_nil e.1 (Option.some.inj hdecl).symm
    · rw [declared_of_xmlAttr hxml] at hdecl
      cases hdecl
    · rw [hshaped.2.1] at hdecl
      cases hdecl
  · intro heq
    have hfront := (takeWhile_ne (t := (splitNs e.2).2) (colon_notMem_nsPrefix e.1)).1
    rw [← heq] at hfront
    have hfirst : (k.takeWhile (· ≠ ':')).head? = some 'n' := by
      rw [hfront]
      rfl
    rcases hcases with rfl | hxml | hshaped
    · exact absurd hfirst (by decide)
    · rcases hxml with rfl | rfl | rfl | rfl <;> exact absurd hfirst (by decide)
    · have hcolon : ':' ∈ k := by
        rw [heq]
        simp
      exact (hshaped.2.2 hcolon).1 (hfront ▸ within_numbered he)

/-- No name is written twice with different values. -/
theorem written_functional (hshape : AttrShaped bound attr) {p q : Text × Text}
    (hp : p ∈ attrsWritten pairs attr parentns) (hq : q ∈ attrsWritten pairs attr parentns)
    (hname : p.1 = q.1) : p.2 = q.2 := by
  rcases mem_written.mp hp with ⟨k, hk, hplain⟩ | ⟨e, he, hnum⟩
  · rcases mem_written.mp hq with ⟨k', hk', hplain'⟩ | ⟨e', he', hnum'⟩
    · obtain ⟨hpk, hpv, -⟩ := hplain.cases hshape hk
      obtain ⟨hqk, hqv, -⟩ := hplain'.cases hshape hk'
      rw [← hpk, hname, hqk, hqv] at hpv
      exact (Option.some.inj hpv).symm
    · obtain ⟨hdecl, hattr⟩ := hplain.fst_ne hshape hk he'
      rcases hnum' with rfl | rfl
      · exact absurd hname hdecl
      · exact absurd hname hattr
  · rcases mem_written.mp hq with ⟨k', hk', hplain'⟩ | ⟨e', he', hnum'⟩
    · obtain ⟨hdecl, hattr⟩ := hplain'.fst_ne hshape hk' he
      rcases hnum with rfl | rfl
      · exact absurd hname.symm hdecl
      · exact absurd hname.symm hattr
    · have hsame : e.1 = e'.1 → e.2 = e'.2 := by
        intro hid
        refine numbered_inj (i := e.1) he ?_
        rw [hid]
        exact he'
      rcases hnum with rfl | rfl <;> rcases hnum' with rfl | rfl
      · rw [hsame (nsPrefix_inj (List.append_cancel_left hname))]
      · have := congrArg declared hname
        rw [declared_xmlns, declared_nsPrefix] at this
        cases this
      · have := congrArg declared hname
        rw [declared_xmlns, declared_nsPrefix] at this
        cases this
      · have := congrArg (List.takeWhile (· ≠ ':')) hname
        rw [(takeWhile_ne (colon_notMem_nsPrefix _)).1,
          (takeWhile_ne (colon_notMem_nsPrefix _)).1] at this
        rw [hsame (nsPrefix_inj this)]

theorem get_tableOf {ps : List (Text × Text)}
    (hps : ∀ p ∈ ps, ∀ q ∈ ps, p.1 = q.1 → p.2 = q.2) {v : Text} :
    (tableOf ps).get k = some v ↔ (k, v) ∈ ps := by
  have hsome : ∀ p ∈ ps, ∀ q ∈ ps, p.1 = q.1 → some p.2 = some q.2 := fun p hp q hq h =>
    congrArg some (hps p hp q hq h)
  constructor
  · intro h
    by_cases hex : ∃ p ∈ ps, p.1 = k
    · obtain ⟨p, hp, rfl⟩ := hex
      rw [tableOf, Table.get_assign_of_mem hsome hp] at h
      rw [← Option.some.inj h]
      exact hp
    · rw [tableOf, Table.get_assign_of_forall_ne fun p hp hk => hex ⟨p, hp, hk⟩,
        Table.get_empty] at h
      cases h
  · intro h
    exact Table.get_assign_of_mem hsome h

/-- The attributes that the parser gets from the tag. -/
def attrsRead (pairs : KeyOrder Text) (attr : Table Text Text) (parentns : Option Text) :
    Table Text Text :=
  tableOf (attrsWritten pairs attr parentns)

theorem get_attrsRead (hshape : AttrShaped bound attr) {v : Text} :
    (attrsRead pairs attr parentns).get k = some v ↔ (k, v) ∈ attrsWritten pairs attr parentns :=
  get_tableOf fun _ hp _ hq => written_functional hshape hp hq

/-! ## Declarations -/

/-- The attribute that declares a prefix. -/
def xmlnsName (p : Text) : Text := if p = [] then "xmlns".toList else "xmlns:".toList ++ p

/-- The namespace that a tag declares for a prefix. -/
def Declares (pairs : KeyOrder Text) (attr : Table Text Text) (parentns : Option Text)
    (p u : Text) : Prop :=
  p = [] ∧ attr.get "xmlns".toList = some u ∧ some u ≠ parentns ∨
    ∃ e ∈ attrsNumbered pairs attr, p = nsPrefix e.1 ∧ u = (splitNs e.2).1

variable {u p : Text}

theorem declares_of_written (hshape : AttrShaped bound attr)
    (h : (k, u) ∈ attrsWritten pairs attr parentns) (hdecl : declared k = some p) :
    Declares pairs attr parentns p u ∧ k = xmlnsName p := by
  rcases mem_written.mp h with ⟨k', hk, hplain⟩ | ⟨e, he, heq | heq⟩
  · obtain ⟨rfl, hget, rfl | hxml | hshaped⟩ := hplain.cases hshape hk
    · obtain rfl : [] = p := Option.some.inj hdecl
      refine ⟨.inl ⟨rfl, hget, fun hparent => hplain.2.1 ⟨rfl, ?_⟩⟩, rfl⟩
      rw [hget]
      exact hparent
    · rw [declared_of_xmlAttr hxml] at hdecl
      cases hdecl
    · rw [hshaped.2.1] at hdecl
      cases hdecl
  · obtain ⟨rfl, rfl⟩ := Prod.mk.inj heq
    rw [declared_xmlns] at hdecl
    obtain rfl := Option.some.inj hdecl
    exact ⟨.inr ⟨e, he, rfl, rfl⟩, (if_neg (nsPrefix_ne_nil e.1)).symm⟩
  · obtain ⟨rfl, rfl⟩ := Prod.mk.inj heq
    rw [declared_nsPrefix] at hdecl
    cases hdecl

theorem written_of_declares (h : Declares pairs attr parentns p u) :
    ∃ k, (k, u) ∈ attrsWritten pairs attr parentns ∧ declared k = some p := by
  rcases h with ⟨rfl, hget, hparent⟩ | ⟨e, he, rfl, rfl⟩
  · have hvalue : (attr.get "xmlns".toList).getD [] = u := by
      rw [hget]
      rfl
    refine ⟨"xmlns".toList, mem_written.mpr (.inl ⟨_, mem_keys_iff.mpr ⟨u, hget⟩, ?_⟩), rfl⟩
    exact ⟨by decide, fun h => hparent (hvalue ▸ h.2), by rw [hvalue]⟩
  · exact ⟨_, mem_written.mpr (.inr ⟨e, he, .inl rfl⟩), declared_xmlns _⟩

theorem get_declarations (hshape : AttrShaped bound attr) :
    (L.declarations (attrsRead pairs attr parentns)).get p = some u ↔
      Declares pairs attr parentns p u := by
  have hmem : ∀ k, k ∈ (L.pairs.keys (attrsRead pairs attr parentns).keys).filter
      (fun k => (declared k).isSome) ↔
        (∃ v, (k, v) ∈ attrsWritten pairs attr parentns) ∧ ∃ q, declared k = some q := by
    intro k
    rw [List.mem_filter, mem_keys_iff, Option.isSome_iff_exists]
    simp only [get_attrsRead hshape]
  have hname : ∀ k, (∃ v, (k, v) ∈ attrsWritten pairs attr parentns) ∧
      (∃ q, declared k = some q) → k = xmlnsName ((declared k).getD []) := by
    rintro k ⟨⟨v, hv⟩, q, hq⟩
    rw [hq]
    exact (declares_of_written hshape hv hq).2
  constructor
  · intro h
    by_cases hex : ∃ k ∈ (L.pairs.keys (attrsRead pairs attr parentns).keys).filter
        (fun k => (declared k).isSome), (declared k).getD [] = p
    · obtain ⟨k, hk, rfl⟩ := hex
      obtain ⟨⟨v, hv⟩, q, hq⟩ := (hmem k).mp hk
      rw [Lua.declarations, Table.get_assign_of_mem _ hk, (get_attrsRead hshape).mpr hv] at h
      · obtain rfl := Option.some.inj h
        rw [hq]
        exact (declares_of_written hshape hv hq).1
      · intro k hk k' hk' hsame
        rw [hname k ((hmem k).mp hk), hname k' ((hmem k').mp hk'), hsame]
    · rw [Lua.declarations, Table.get_assign_of_forall_ne fun k hk hp => hex ⟨k, hk, hp⟩,
        Table.get_empty] at h
      cases h
  · intro h
    obtain ⟨k, hk, hdecl⟩ := written_of_declares h
    have hin := (hmem k).mpr ⟨⟨u, hk⟩, p, hdecl⟩
    have hp : (declared k).getD [] = p := by
      rw [hdecl]
      rfl
    rw [← (get_attrsRead hshape).mpr hk, ← hp]
    refine Table.get_assign_of_mem ?_ hin
    intro k hk k' hk' hsame
    rw [hname k ((hmem k).mp hk), hname k' ((hmem k').mp hk'), hsame]

/-! ## Names in scope -/

/-- The prefixes that names are kept from take in those of the scopes around. -/
structure Covers (bound : Text → Prop) (ns : List Scope) : Prop where
  default : bound []
  scope : ∀ p, (ns.findSome? fun scope => scope.decls.get p) ≠ none → bound p

variable {ns : List Scope}

theorem declarations_eq_none (hshape : AttrShaped bound attr) (hbound : bound [])
    (hp : ¬ within bound attr p) :
    (L.declarations (attrsRead pairs attr parentns)).get p = none := by
  refine Option.eq_none_iff_forall_not_mem.mpr fun u hu => hp ?_
  rcases (get_declarations hshape).mp hu with ⟨rfl, -, -⟩ | ⟨e, he, rfl, -⟩
  · exact .inl hbound
  · exact within_numbered he

theorem lookup_missing (hshape : AttrShaped bound attr) (hcovers : Covers bound ns)
    (hp : ¬ within bound attr p) (hindex : p ≠ "__index".toList) :
    lookup (L.declarations (attrsRead pairs attr parentns)) ns p = .missing := by
  have hscope : (ns.findSome? fun scope => scope.decls.get p) = none := by
    by_contra h
    exact hp (.inl (hcovers.scope p h))
  unfold lookup
  rw [declarations_eq_none hshape hcovers.default hp]
  simp only [if_neg hindex]
  rw [hscope]

theorem prefix_missing (hshape : AttrShaped bound attr) (hcovers : Covers bound ns) {name : Text}
    (hname : Unbound (within bound attr) name) :
    (if ':' ∈ name then
      lookup (L.declarations (attrsRead pairs attr parentns)) ns (name.takeWhile (· ≠ ':'))
      else .missing) = .missing := by
  split_ifs with hcolon
  · exact lookup_missing hshape hcovers (hname hcolon).1 (hname hcolon).2
  · rfl

/-- A name whose prefix is not in scope is left as it is, -/
theorem applyNs_unbound (hshape : AttrShaped bound attr) (hcovers : Covers bound ns) {name : Text}
    (hname : Unbound (within bound attr) name) :
    applyNs (L.declarations (attrsRead pairs attr parentns)) ns name false = some name := by
  unfold applyNs
  simp only [prefix_missing hshape hcovers hname]
  rfl

/-- or gets the default namespace if it is a tag's. -/
theorem applyNs_default (hshape : AttrShaped bound attr) (hcovers : Covers bound ns) {name : Text}
    (hname : Unbound (within bound attr) name)
    (hu : lookup (L.declarations (attrsRead pairs attr parentns)) ns [] = .uri u) :
    applyNs (L.declarations (attrsRead pairs attr parentns)) ns name true =
      some (u ++ nsSeparator :: name) := by
  unfold applyNs
  simp only [prefix_missing hshape hcovers hname, if_true, hu]

/-- The default namespace of an element is the one it has or that of its parent. -/
theorem lookup_default (hshape : AttrShaped bound attr)
    (hparent : ∀ u, parentns = some u → (ns.findSome? fun scope => scope.decls.get []) = some u)
    (hu : attr.get "xmlns".toList = some u ∨ attr.get "xmlns".toList = none ∧
      (ns.findSome? fun scope => scope.decls.get []) = some u) :
    lookup (L.declarations (attrsRead pairs attr parentns)) ns [] = .uri u := by
  have hnil : ∀ v, (L.declarations (attrsRead pairs attr parentns)).get [] = some v ↔
      attr.get "xmlns".toList = some v ∧ some v ≠ parentns := by
    intro v
    rw [get_declarations hshape]
    constructor
    · rintro (⟨-, h⟩ | ⟨e, -, hnil, -⟩)
      · exact h
      · exact absurd hnil.symm (nsPrefix_ne_nil e.1)
    · exact fun h => .inl ⟨rfl, h⟩
  unfold lookup
  cases hdecl : (L.declarations (attrsRead pairs attr parentns)).get [] with
  | some v =>
    have hv := ((hnil v).mp hdecl).1
    rcases hu with hu | ⟨hnone, -⟩
    · rw [hv] at hu
      rw [Option.some.inj hu]
    · rw [hnone] at hv
      cases hv
  | none =>
    have hscope : (ns.findSome? fun scope => scope.decls.get []) = some u := by
      rcases hu with hu | ⟨-, hscope⟩
      · refine hparent u ?_
        by_contra hne
        have := (hnil u).mpr ⟨hu, fun h => hne h.symm⟩
        rw [hdecl] at this
        cases this
      · exact hscope
    simp only
    rw [if_neg (by decide), hscope]

/-! ## Attributes -/

instance (k : Text) : Decidable (xmlAttr k) := inferInstanceAs (Decidable (_ ∨ _))

/-- The name under which handlers get an attribute. -/
def handed (k : Text) : Text := if xmlAttr k then xmlUri ++ nsSeparator :: k.drop 4 else k

theorem xmlNamespace_handed (h : xmlAttr k) : Stream.xmlNamespace (handed k) = some k := by
  rcases h with rfl | rfl | rfl | rfl <;> decide

/-- The name under which an attribute other than `xmlns` is written. -/
def Names (pairs : KeyOrder Text) (attr : Table Text Text) (w k : Text) : Prop :=
  nsSeparator ∉ k ∧ w = k ∨
    ∃ i, (i, k) ∈ attrsNumbered pairs attr ∧ w = nsPrefix i ++ ':' :: (splitNs k).2

theorem applyNs_prefixed {decls : Table Text Text} {t : Text} (hp : ':' ∉ p)
    (hu : lookup decls ns p = .uri u) (dodefault : Bool) :
    applyNs decls ns (p ++ ':' :: t) dodefault = some (u ++ nsSeparator :: t) := by
  unfold applyNs
  rw [(takeWhile_ne hp).1, (takeWhile_ne hp).2, if_pos (by simp)]
  simp only [hu, List.tail_cons]

theorem lookup_declared (hshape : AttrShaped bound attr) (h : Declares pairs attr parentns p u) :
    lookup (L.declarations (attrsRead pairs attr parentns)) ns p = .uri u := by
  unfold lookup
  rw [(get_declarations hshape).mpr h]

theorem lookup_xml (hshape : AttrShaped bound attr)
    (hxml : (ns.findSome? fun scope => scope.decls.get "xml".toList) = some xmlUri) :
    lookup (L.declarations (attrsRead pairs attr parentns)) ns "xml".toList = .uri xmlUri := by
  have hnone : (L.declarations (attrsRead pairs attr parentns)).get "xml".toList = none := by
    refine Option.eq_none_iff_forall_not_mem.mpr fun u hu => ?_
    rcases (get_declarations hshape).mp hu with ⟨hnil, -, -⟩ | ⟨e, -, hfront, -⟩
    · exact absurd hnil (by decide)
    · exact absurd (congrArg List.head? hfront) (by simp [nsPrefix])
  unfold lookup
  rw [hnone]
  simp only
  rw [if_neg (by decide), hxml]

/-- A key with a namespace is not one of those that keep their prefix. -/
theorem KeyShaped.of_separator (h : KeyShaped bound k) (hsep : nsSeparator ∈ k) :
    ¬ xmlAttr k ∧ Stream.xmlNamespace k = none := by
  have hnot : ∀ {k : Text}, IsName k → nsSeparator ∉ k := fun h hmem =>
    (h.plain _ hmem).2.2.2.2.2.2 rfl
  cases h with
  | xml h => exact absurd hsep (hnot (isName_of_xmlAttr h))
  | namespaced _ _ hxml => exact ⟨fun h => hnot (isName_of_xmlAttr h) hsep, hxml⟩
  | plain hname => exact absurd hsep (hnot hname)

theorem applyNs_names (hshape : AttrShaped bound attr) (hcovers : Covers bound ns)
    (hxml : (ns.findSome? fun scope => scope.decls.get "xml".toList) = some xmlUri) {w : Text}
    (hnames : Names pairs attr w k) (hkey : KeyShaped (within bound attr) k) :
    applyNs (L.declarations (attrsRead pairs attr parentns)) ns w false = some (handed k) := by
  rcases hnames with ⟨hsep, rfl⟩ | ⟨i, hi, rfl⟩
  · cases hkey with
    | namespaced h => exact absurd h hsep
    | plain hname hdecl hbound =>
      rw [applyNs_unbound hshape hcovers hbound, handed, if_neg]
      intro h
      have hscope : within bound attr "xml".toList :=
        .inl (hcovers.scope _ (by rw [hxml]; simp))
      rcases h with rfl | rfl | rfl | rfl <;> exact (hbound (by decide)).1 hscope
    | xml h =>
      have hprefixed : w = "xml".toList ++ ':' :: w.drop 4 := by
        rcases h with rfl | rfl | rfl | rfl <;> rfl
      rw [handed, if_pos h]
      nth_rewrite 1 [hprefixed]
      exact applyNs_prefixed (by decide) (lookup_xml hshape hxml) false
  · have hsep := (mem_numbered hi).2.2.2
    rw [applyNs_prefixed (colon_notMem_nsPrefix i)
      (lookup_declared hshape (.inr ⟨(i, k), hi, rfl, rfl⟩)), splitNs_join hsep, handed,
      if_neg (hkey.of_separator hsep).1]

theorem Names.eq {w w' : Text} (h : Names pairs attr w k) (h' : Names pairs attr w' k) :
    w = w' := by
  rcases h with ⟨hsep, rfl⟩ | ⟨i, hi, rfl⟩
  · rcases h' with ⟨-, rfl⟩ | ⟨j, hj, rfl⟩
    · rfl
    · exact absurd (mem_numbered hj).2.2.2 hsep
  · rcases h' with ⟨hsep, -⟩ | ⟨j, hj, rfl⟩
    · exact absurd (mem_numbered hi).2.2.2 hsep
    · rw [numbered_eq (pairs.nodup _) hi hj]

/-- No name is written for two keys. -/
theorem Names.key_eq (hshape : AttrShaped bound attr) {w k' v v' : Text}
    (hk : k ≠ "xmlns".toList ∧ attr.get k = some v)
    (hk' : k' ≠ "xmlns".toList ∧ attr.get k' = some v')
    (h : Names pairs attr w k) (h' : Names pairs attr w k') : k = k' := by
  have hplain : ∀ {k v}, k ≠ "xmlns".toList ∧ attr.get k = some v → nsSeparator ∉ k →
      WritesPlain attr none (k, (attr.get k).getD []) k := fun hk hsep =>
    ⟨hsep, fun h => hk.1 h.1, rfl⟩
  rcases h with ⟨hsep, rfl⟩ | ⟨i, hi, rfl⟩
  · rcases h' with ⟨-, rfl⟩ | ⟨j, hj, hw⟩
    · rfl
    · exact absurd hw ((hplain hk hsep).fst_ne hshape (mem_keys_iff.mpr ⟨v, hk.2⟩) hj).2
  · rcases h' with ⟨hsep, hw⟩ | ⟨j, hj, hw⟩
    · exact absurd hw.symm ((hplain hk' hsep).fst_ne hshape (mem_keys_iff.mpr ⟨v', hk'.2⟩) hi).2
    · have hfront := congrArg (List.takeWhile (· ≠ ':')) hw
      rw [(takeWhile_ne (colon_notMem_nsPrefix i)).1,
        (takeWhile_ne (colon_notMem_nsPrefix j)).1] at hfront
      rw [nsPrefix_inj hfront] at hi
      exact numbered_inj hi hj

/-- What is written besides declarations. -/
theorem written_iff (hshape : AttrShaped bound attr) {w v : Text} :
    (w, v) ∈ attrsWritten pairs attr parentns ∧ declared w = none ↔
      ∃ k, k ≠ "xmlns".toList ∧ attr.get k = some v ∧ Names pairs attr w k := by
  constructor
  · rintro ⟨hw, hdecl⟩
    rcases mem_written.mp hw with ⟨k, hk, hplain⟩ | ⟨e, he, heq | heq⟩
    · obtain ⟨rfl, hget, -⟩ := hplain.cases hshape hk
      refine ⟨w, ?_, hget, .inl ⟨hplain.1, rfl⟩⟩
      rintro rfl
      cases hdecl
    · rw [(Prod.mk.inj heq).1, declared_xmlns] at hdecl
      cases hdecl
    · obtain ⟨-, -, hmem, hsep⟩ := mem_numbered he
      obtain ⟨v', hv'⟩ := mem_keys_iff.mp hmem
      obtain ⟨rfl, rfl⟩ := Prod.mk.inj heq
      refine ⟨e.2, ?_, by rw [hv']; rfl, .inr ⟨e.1, he, rfl⟩⟩
      rintro hxmlns
      rw [hxmlns] at hsep
      exact absurd hsep (by decide)
  · rintro ⟨k, hne, hget, hnames⟩
    have hvalue : (attr.get k).getD [] = v := by
      rw [hget]
      rfl
    rcases hnames with ⟨hsep, rfl⟩ | ⟨i, hi, rfl⟩
    · refine ⟨mem_written.mpr (.inl ⟨w, mem_keys_iff.mpr ⟨v, hget⟩, hsep, ?_, by rw [hvalue]⟩), ?_⟩
      · exact fun h => hne h.1
      · rcases hshape w v hget with hxmlns | hkey
        · exact absurd hxmlns hne
        · cases hkey with
          | xml h => exact declared_of_xmlAttr h
          | namespaced h => exact absurd h hsep
          | plain _ hdecl => exact hdecl
    · exact ⟨mem_written.mpr (.inr ⟨_, hi, .inr (by rw [hvalue])⟩), declared_nsPrefix _ _⟩

theorem exists_names {v : Text} (hget : attr.get k = some v) : ∃ w, Names pairs attr w k := by
  by_cases hsep : nsSeparator ∈ k
  · obtain ⟨i, hi⟩ := exists_numbered (mem_keys_iff.mpr ⟨v, hget⟩) hsep 0
    exact ⟨_, .inr ⟨i, hi, rfl⟩⟩
  · exact ⟨k, .inl ⟨hsep, rfl⟩⟩

theorem eq_handed {x : Text} (h : Stream.xmlNamespace x = some k) :
    xmlAttr k ∧ x = handed k ∧ nsSeparator ∈ x := by
  unfold Stream.xmlNamespace at h
  split_ifs at h with h1 h2 h3 h4
  · subst h1
    obtain rfl := Option.some.inj h
    decide
  · subst h2
    obtain rfl := Option.some.inj h
    decide
  · subst h3
    obtain rfl := Option.some.inj h
    decide
  · subst h4
    obtain rfl := Option.some.inj h
    decide

theorem handed_injOn {k' : Text} (hk : KeyShaped bound k) (hk' : KeyShaped bound k')
    (h : handed k = handed k') : k = k' := by
  have hmixed : ∀ {k k' : Text}, KeyShaped bound k' → xmlAttr k → ¬ xmlAttr k' →
      handed k ≠ handed k' := by
    intro k k' hk' hxml hplain h
    have hname := xmlNamespace_handed hxml
    rw [h, handed, if_neg hplain] at hname
    rw [(hk'.of_separator (eq_handed hname).2.2).2] at hname
    cases hname
  by_cases hxml : xmlAttr k
  · by_cases hxml' : xmlAttr k'
    · have hname := xmlNamespace_handed hxml
      rw [h, xmlNamespace_handed hxml'] at hname
      exact (Option.some.inj hname).symm
    · exact absurd h (hmixed hk' hxml hxml')
  · by_cases hxml' : xmlAttr k'
    · exact absurd h.symm (hmixed hk hxml' hxml)
    · rw [handed, if_neg hxml, handed, if_neg hxml'] at h
      exact h

/-- Handlers get these attributes: all but `xmlns`, each one once. -/
structure Hands (attr : Table Text Text) (new : Attr) : Prop where
  nodup : new.names.Nodup
  mem : ∀ x, x ∈ new.names ↔ ∃ k, k ≠ "xmlns".toList ∧ (∃ v, attr.get k = some v) ∧ x = handed k
  get : ∀ k v, k ≠ "xmlns".toList → attr.get k = some v → new.values.get (handed k) = some v
  rest : ∀ x, x ∉ new.names → new.values.get x = none

theorem newAttr_hands (hshape : AttrShaped bound attr) (hcovers : Covers bound ns)
    (hxml : (ns.findSome? fun scope => scope.decls.get "xml".toList) = some xmlUri) :
    ∃ new, L.newAttr (L.declarations (attrsRead pairs attr parentns)) ns
      (attrsRead pairs attr parentns) = some new ∧ Hands attr new := by
  -- what is left without the declarations, and the key that each name was written for
  let rest := (attrsRead pairs attr parentns).filter fun k _ => (declared k).isNone
  have hrest : ∀ w v, rest.get w = some v ↔
      ∃ k, k ≠ "xmlns".toList ∧ attr.get k = some v ∧ Names pairs attr w k := by
    intro w v
    rw [← @written_iff pairs bound attr parentns hshape, Table.get_filter,
      Option.filter_eq_some_iff, get_attrsRead hshape, Option.isNone_iff_eq_none]
  have hexists : ∀ w ∈ L.pairs.keys rest.keys, ∃ k, k ≠ "xmlns".toList ∧
      (∃ v, attr.get k = some v ∧ rest.get w = some v) ∧ Names pairs attr w k := by
    intro w hw
    obtain ⟨v, hv⟩ := mem_keys_iff.mp hw
    obtain ⟨k, hne, hget, hnames⟩ := (hrest w v).mp hv
    exact ⟨k, hne, ⟨v, hget, hv⟩, hnames⟩
  choose! key hne hvalue hnames using hexists
  have hshaped : ∀ w ∈ L.pairs.keys rest.keys, KeyShaped (within bound attr) (key w) := by
    intro w hw
    obtain ⟨v, hget, -⟩ := hvalue w hw
    exact (hshape _ v hget).resolve_left (hne w hw)
  have hinj : ∀ w ∈ L.pairs.keys rest.keys, ∀ w' ∈ L.pairs.keys rest.keys,
      handed (key w) = handed (key w') → w = w' := by
    intro w hw w' hw' h
    have hsame := handed_injOn (hshaped w hw) (hshaped w' hw') h
    exact (hnames w hw).eq (hsame ▸ hnames w' hw')
  have hnew : L.newAttr (L.declarations (attrsRead pairs attr parentns)) ns
      (attrsRead pairs attr parentns) =
        some ⟨(L.pairs.keys rest.keys).map fun w => handed (key w),
          Table.assign (fun w => handed (key w)) rest.get ∅ (L.pairs.keys rest.keys)⟩ := by
    have hmap : (L.pairs.keys rest.keys).mapM (fun w =>
        (applyNs (L.declarations (attrsRead pairs attr parentns)) ns w false).map fun k' =>
          (k', rest.get w)) =
          some ((L.pairs.keys rest.keys).map fun w => (handed (key w), rest.get w)) := by
      refine Lists.mapM_eq_some fun w hw => ?_
      rw [applyNs_names hshape hcovers hxml (hnames w hw) (hshaped w hw)]
      rfl
    unfold Lua.newAttr
    simp only
    rw [hmap]
    simp [Table.assign, List.foldl_map, Function.comp_def]
  have hmem : ∀ {k v}, k ≠ "xmlns".toList → attr.get k = some v →
      ∃ w ∈ L.pairs.keys rest.keys, key w = k ∧ rest.get w = some v := by
    intro k v hk hget
    obtain ⟨w, hw⟩ := @exists_names pairs attr _ _ hget
    have hv := (hrest w v).mpr ⟨k, hk, hget, hw⟩
    have hin : w ∈ L.pairs.keys rest.keys := mem_keys_iff.mpr ⟨v, hv⟩
    obtain ⟨v', hget', -⟩ := hvalue w hin
    exact ⟨w, hin, (hnames w hin).key_eq hshape ⟨hne w hin, hget'⟩ ⟨hk, hget⟩ hw, hv⟩
  refine ⟨_, hnew, ⟨(L.pairs.nodup _).map_on hinj, ?_, ?_, ?_⟩⟩
  · intro x
    rw [List.mem_map]
    constructor
    · rintro ⟨w, hw, rfl⟩
      obtain ⟨v, hget, -⟩ := hvalue w hw
      exact ⟨key w, hne w hw, ⟨v, hget⟩, rfl⟩
    · rintro ⟨k, hk, ⟨v, hget⟩, rfl⟩
      obtain ⟨w, hw, rfl, -⟩ := hmem hk hget
      exact ⟨w, hw, rfl⟩
  · intro k v hk hget
    obtain ⟨w, hw, rfl, hv⟩ := hmem hk hget
    rw [← hv]
    refine Table.get_assign_of_mem (fun w hw w' hw' h => ?_) hw
    rw [hinj w hw w' hw' h]
  · intro x hx
    rw [Table.get_assign_of_forall_ne, Table.get_empty]
    rintro w hw rfl
    exact hx (List.mem_map_of_mem hw)

/-! ## The attributes of the `xml` namespace -/

variable {t : Table Text Text}

variable {names : List Text}

theorem get_renameAttrs_of_ne {x : Text} (hnew : ∀ k ∈ names, Stream.xmlNamespace k ≠ some x)
    (hold : x ∈ names → Stream.xmlNamespace x = none) :
    (Stream.renameAttrs names t).get x = t.get x := by
  induction names generalizing t with
  | nil => rfl
  | cons k names ih =>
    rw [Stream.renameAttrs, List.foldl_cons, ← Stream.renameAttrs,
      ih (fun k' hk' => hnew k' (List.mem_cons_of_mem _ hk')) fun hx =>
        hold (List.mem_cons_of_mem _ hx)]
    cases hk : Stream.xmlNamespace k with
    | none => rfl
    | some xmlk =>
      have hxk : x ≠ k := by
        rintro rfl
        rw [hold List.mem_cons_self] at hk
        cases hk
      have hxmlk : x ≠ xmlk := by
        rintro rfl
        exact hnew k List.mem_cons_self hk
      rw [Option.elim_some, Table.get_set_of_ne _ hxk, Table.get_set_of_ne _ hxmlk]

theorem xmlNamespace_of_xmlAttr (h : xmlAttr k) : Stream.xmlNamespace k = none := by
  rcases h with rfl | rfl | rfl | rfl <;> decide

theorem xmlNamespace_inj {k' x : Text} (h : Stream.xmlNamespace k = some x)
    (h' : Stream.xmlNamespace k' = some x) : k = k' := by
  rw [(eq_handed h).2.1, (eq_handed h').2.1]

theorem get_renameAttrs_of_mem {x : Text}
    (hnodup : names.Nodup) (hk : k ∈ names) (hx : Stream.xmlNamespace k = some x) :
    (Stream.renameAttrs names t).get x = t.get k ∧ (Stream.renameAttrs names t).get k = none := by
  have hplain := xmlNamespace_of_xmlAttr (eq_handed hx).1
  have hne : x ≠ k := by
    rintro rfl
    rw [hplain] at hx
    cases hx
  induction names generalizing t with
  | nil => cases hk
  | cons k' names ih =>
    obtain ⟨hfresh, hnodup⟩ := List.nodup_cons.mp hnodup
    rw [Stream.renameAttrs, List.foldl_cons, ← Stream.renameAttrs]
    rcases List.mem_cons.mp hk with rfl | hk
    · rw [hx, Option.elim_some]
      constructor
      · rw [get_renameAttrs_of_ne, Table.get_set_of_ne _ hne, Table.get_set_self]
        · intro k' hk' hx'
          exact hfresh (xmlNamespace_inj hx hx' ▸ hk')
        · exact fun _ => hplain
      · rw [get_renameAttrs_of_ne, Table.get_set_self]
        · intro k' _ hk'
          rw [xmlNamespace_of_xmlAttr (eq_handed hk').1] at hx
          cases hx
        · exact fun hmem => absurd hmem hfresh
    · obtain ⟨hget, hnone⟩ := ih (t := (Stream.xmlNamespace k').elim t fun xmlk =>
        (t.set xmlk (t.get k')).set k' none) hnodup hk
      refine ⟨?_, hnone⟩
      rw [hget]
      cases hk' : Stream.xmlNamespace k' with
      | none => rfl
      | some xmlk =>
        have hkk' : k ≠ k' := fun h => hfresh (h ▸ hk)
        have hkxml : k ≠ xmlk := by
          rintro rfl
          rw [xmlNamespace_of_xmlAttr (eq_handed hk').1] at hx
          cases hx
        rw [Option.elim_some, Table.get_set_of_ne _ hkk', Table.get_set_of_ne _ hkxml]

theorem get_renameAttrs_xmlns :
    (Stream.renameAttrs names t).get "xmlns".toList = t.get "xmlns".toList := by
  refine get_renameAttrs_of_ne (fun k _ hk => ?_) fun _ => by decide
  exact absurd (eq_handed hk).1 (by decide)

theorem Hands.notMem {new : Attr} (hnew : Hands attr new) (hget : attr.get k = none)
    (hk : Stream.xmlNamespace k = none) : k ∉ new.names := by
  intro hmem
  obtain ⟨k', -, ⟨v, hv⟩, hkk'⟩ := (hnew.mem k).mp hmem
  by_cases hxml : xmlAttr k'
  · rw [hkk', xmlNamespace_handed hxml] at hk
    cases hk
  · rw [handed, if_neg hxml] at hkk'
    rw [hkk', hv] at hget
    cases hget

/-- The element gets the attributes it had. -/
theorem get_renameAttrs (hshape : AttrShaped bound attr) {new : Attr} (hnew : Hands attr new)
    (ht : ∀ x, x ≠ "xmlns".toList → t.get x = new.values.get x)
    (hk : k ≠ "xmlns".toList) : (Stream.renameAttrs new.names t).get k = attr.get k := by
  have htarget : ¬ xmlAttr k → ∀ k' ∈ new.names, Stream.xmlNamespace k' ≠ some k :=
    fun hplain _ _ h => hplain (eq_handed h).1
  cases hget : attr.get k with
  | some v =>
    have hmem : handed k ∈ new.names := (hnew.mem _).mpr ⟨k, hk, ⟨v, hget⟩, rfl⟩
    have hvalue := hnew.get k v hk hget
    by_cases hxml : xmlAttr k
    · have hne : handed k ≠ "xmlns".toList := by
        rcases hxml with rfl | rfl | rfl | rfl <;> decide
      rw [(get_renameAttrs_of_mem hnew.nodup hmem (xmlNamespace_handed hxml)).1, ht _ hne, hvalue]
    · have hkey := (hshape k v hget).resolve_left hk
      have hnone : Stream.xmlNamespace k = none := by
        cases hns : Stream.xmlNamespace k with
        | none => rfl
        | some y =>
          rw [(hkey.of_separator (eq_handed hns).2.2).2] at hns
          cases hns
      rw [handed, if_neg hxml] at hvalue
      rw [get_renameAttrs_of_ne (htarget hxml) fun _ => hnone, ht k hk, hvalue]
  | none =>
    cases hns : Stream.xmlNamespace k with
    | none =>
      have hfresh := hnew.notMem hget hns
      rw [get_renameAttrs_of_ne, ht k hk, hnew.rest k hfresh]
      · intro k' hk' hk''
        obtain ⟨hxml, rfl, -⟩ := eq_handed hk''
        obtain ⟨k₂, hne, ⟨v, hv⟩, hsame⟩ := (hnew.mem _).mp hk'
        have hkey := (hshape k₂ v hv).resolve_left hne
        rw [handed_injOn (.xml hxml) hkey hsame, hv] at hget
        cases hget
      · exact fun _ => hns
    | some y =>
      have hplain : ¬ xmlAttr k := fun h => by
        rw [xmlNamespace_of_xmlAttr h] at hns
        cases hns
      by_cases hmem : k ∈ new.names
      · exact (get_renameAttrs_of_mem hnew.nodup hmem hns).2
      · rw [get_renameAttrs_of_ne (htarget hplain) fun h => absurd h hmem, ht k hk,
          hnew.rest k hmem]

end Prosody.Xml
