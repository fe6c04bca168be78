import Mathlib.Data.Char
import Mathlib.Data.List.Lex
import Prosody.Xml.Turns

/-! # Stanzas come back as they were sent -/

namespace Prosody.Xml

variable {L : Lua} {pairs : KeyOrder Text} {C : Callbacks} {d : Text}

/-! ## Elements as they are built -/

namespace Stream

/-- Children are added to the innermost open element. -/
def add (s : Stream) (children : List Node) : Stream :=
  match s.opened with
  | [] => s
  | o :: os => { s with opened := { o with children := o.children ++ children } :: os }

def enter (s : Stream) (name : Text) (attr : Table Text Text) (depth : ℕ) : Stream :=
  { s with opened := ⟨name, attr, []⟩ :: s.opened, nonStreamnsDepth := depth }

variable {s : Stream} {children children' : List Node}

theorem add_nil : s.add [] = s := by
  unfold add
  split
  · rfl
  · rename_i o os h
    rw [List.append_nil, ← h]

theorem add_add : (s.add children).add children' = s.add (children ++ children') := by
  cases h : s.opened with
  | nil => simp [add, h]
  | cons o os => simp [add, h]

theorem flush_of_nil (h : s.chardata = []) : s.flush = s := by
  unfold flush
  split
  · rfl
  · rw [if_pos h]

theorem chardata_flush (hopen : s.opened ≠ []) : s.flush.chardata = [] := by
  obtain ⟨o, os, ho⟩ := List.exists_cons_of_ne_nil hopen
  rw [flush, ho]
  simp only
  split_ifs with h
  · exact h
  · rfl

theorem flush_text {t : Text} (hopen : s.opened ≠ []) (h : s.chardata = [t]) :
    s.flush = { s with chardata := [] }.add [.text t] := by
  cases ho : s.opened with
  | nil => exact absurd ho hopen
  | cons o os => simp [flush, add, ho, h]

theorem flush_kept (s : Stream) :
    s.flush.nonStreamnsDepth = s.nonStreamnsDepth ∧ s.flush.notopen = s.notopen ∧
      s.flush.events = s.events ∧ (s.flush.opened = [] ↔ s.opened = []) := by
  unfold flush
  split
  · exact ⟨rfl, rfl, rfl, Iff.rfl⟩
  · rename_i o os h
    split_ifs <;> simp [h]

theorem add_kept (s : Stream) (children : List Node) :
    (s.add children).nonStreamnsDepth = s.nonStreamnsDepth ∧
      (s.add children).chardata = s.chardata ∧ ((s.add children).opened = [] ↔ s.opened = []) := by
  unfold add
  split
  · exact ⟨rfl, rfl, Iff.rfl⟩
  · rename_i o os h
    simp [h]

theorem flush_depth (s : Stream) (n : ℕ) :
    { s with nonStreamnsDepth := n }.flush = { s.flush with nonStreamnsDepth := n } := by
  cases s with
  | mk opened chardata depth notopen events =>
    cases opened with
    | nil => rfl
    | cons o os =>
      by_cases h : chardata = [] <;> simp [flush, h]

theorem splitTag_join {u name : Text} (hu : nsSeparator ∉ u) (hname : name ≠ []) :
    splitTag (u ++ nsSeparator :: name) = (u, name) := by
  rw [splitTag, splitNs_append hu, if_neg hname]

theorem Hands.xmlns_none {attr : Table Text Text} {new : Attr} (h : Hands attr new) :
    new.values.get "xmlns".toList = none := by
  refine h.rest _ fun hmem => ?_
  obtain ⟨k, hk, -, hsame⟩ := (h.mem _).mp hmem
  unfold handed at hsame
  split_ifs at hsame with hxml
  · have := congrArg (nsSeparator ∈ ·) hsame
    simp [nsSeparator] at this
  · exact hk hsame.symm

variable {bound : Text → Prop} {attr : Table Text Text} {new : Attr} {u name : Text}

theorem renameAttrs_eq (hshape : AttrShaped bound attr) (hnew : Hands attr new)
    (hu : ∀ v, attr.get "xmlns".toList = some v → v = u)
    (hforeign : s.Foreign C u ↔ ∃ v, attr.get "xmlns".toList = some v) :
    renameAttrs new.names (if s.Foreign C u then new.values.set "xmlns".toList (some u)
      else new.values) = attr := by
  ext k : 1
  by_cases hk : k = "xmlns".toList
  · subst hk
    rw [get_renameAttrs_xmlns]
    split_ifs with h
    · obtain ⟨v, hv⟩ := hforeign.mp h
      rw [Table.get_set_self, hv, hu v hv]
    · rw [Hands.xmlns_none hnew]
      exact (Option.eq_none_iff_forall_not_mem.mpr fun v hv => h (hforeign.mpr ⟨v, hv⟩)).symm
  · refine get_renameAttrs hshape hnew (fun x hx => ?_) hk
    split_ifs
    · rw [Table.get_set_of_ne _ hx]
    · rfl

/-- How deep the stream is outside of the default namespace after a start tag. -/
def depthOf (C : Callbacks) (s : Stream) (u : Text) : ℕ :=
  if s.Foreign C u then s.nonStreamnsDepth + 1 else s.nonStreamnsDepth

theorem foreign_flush : s.flush.Foreign C u ↔ s.Foreign C u := by
  rw [Foreign, Foreign, (flush_kept s).1]

/-- The session is told of an element that may not stand at the top level. -/
def topLevel (s : Stream) (u name : Text) : Stream :=
  if u = "jabber:client".toList ∧ ¬ isStanzaName name then s.emit .invalidTopLevelElement else s

theorem startElement_enter (s : Stream) (tagname : Text) (new : Attr)
    (hopen : s.opened = [] → s.notopen = false) :
    s.startElement C tagname new =
      (if s.opened = [] then topLevel s (splitTag tagname).1 (splitTag tagname).2
        else s.flush).enter (splitTag tagname).2
        (renameAttrs new.names
          (if s.Foreign C (splitTag tagname).1 then
            new.values.set "xmlns".toList (some (splitTag tagname).1)
          else new.values))
        (depthOf C s (splitTag tagname).1) := by
  have hdepth : (if s.flush.Foreign C (splitTag tagname).1 then
      { s.flush with nonStreamnsDepth := s.flush.nonStreamnsDepth + 1 } else s.flush) =
        { s.flush with nonStreamnsDepth := depthOf C s (splitTag tagname).1 } := by
    unfold depthOf
    rw [← (flush_kept s).1]
    split_ifs with h h' h'
    · rfl
    · exact absurd (foreign_flush.mp h) h'
    · exact absurd (foreign_flush.mpr h') h
    · rfl
  unfold startElement
  simp only [foreign_flush] at hdepth ⊢
  rw [hdepth]
  by_cases hnil : s.opened = []
  · have hflush : s.flush = s := by rw [flush, hnil]
    simp only [hflush]
    rw [if_pos hnil, if_pos hnil, if_neg (by simp [hopen hnil])]
    unfold topLevel
    split_ifs <;> simp [emit, enter, hnil]
  · have hopened : s.flush.opened ≠ [] := fun h => hnil ((flush_kept s).2.2.2.mp h)
    rw [if_neg hopened, if_neg hnil, enter]

theorem startElement_eq (hshape : AttrShaped bound attr) (hnew : Hands attr new)
    (hsep : nsSeparator ∉ u) (hname : name ≠ [])
    (hu : ∀ v, attr.get "xmlns".toList = some v → v = u)
    (hforeign : s.Foreign C u ↔ ∃ v, attr.get "xmlns".toList = some v)
    (hopen : s.opened = [] → s.notopen = false) :
    s.startElement C (u ++ nsSeparator :: name) new =
      (if s.opened = [] then topLevel s u name else s.flush).enter name attr (depthOf C s u) := by
  rw [startElement_enter s _ new hopen, splitTag_join hsep hname,
    renameAttrs_eq hshape hnew hu hforeign]

theorem flushed_for_end {s₁ s₂ : Stream} {n : ℕ}
    (h : s₂.flush = (s₁.enter name attr n).add children) :
    { s₂ with nonStreamnsDepth := s₂.nonStreamnsDepth - 1 }.flush =
      { s₁ with opened := ⟨name, attr, children⟩ :: s₁.opened, nonStreamnsDepth := n - 1 } := by
  have hadd : (s₁.enter name attr n).add children =
      { s₁ with opened := ⟨name, attr, children⟩ :: s₁.opened, nonStreamnsDepth := n } := rfl
  rw [flush_depth, ← (flush_kept s₂).1, h, hadd]

theorem endElement_inner {s₁ s₂ : Stream} {n : ℕ} {tag : Option Text}
    (h : s₂.flush = (s₁.enter name attr n).add children) (hopen : s₁.opened ≠ []) :
    s₂.endElement C tag =
      { s₁ with nonStreamnsDepth := n - 1 }.add [.elem name attr children] := by
  obtain ⟨o, os, ho⟩ := List.exists_cons_of_ne_nil hopen
  unfold endElement
  simp only [flushed_for_end h, ho]
  rfl

theorem endElement_last {s₁ s₂ : Stream} {n : ℕ} {tag : Option Text}
    (h : s₂.flush = (s₁.enter name attr n).add children) (hopen : s₁.opened = []) :
    s₂.endElement C tag = { s₁ with nonStreamnsDepth := n - 1 }.emit
      (if tag = some C.streamErrorTag then .streamError (.elem name attr children)
        else .handlestanza (.elem name attr children)) := by
  unfold endElement
  simp only [flushed_for_end h, hopen]
  simp [emit, Open.close]

theorem endElement_root {s₁ s₂ : Stream} {n : ℕ} {tag : Text}
    (h : s₂.flush = (s₁.enter name attr n).add children) (hopen : s₁.opened = [])
    (htag : tag ≠ C.streamErrorTag) :
    s₂.endElement C (some tag) =
      { s₁ with nonStreamnsDepth := n - 1 }.emit (.handlestanza (.elem name attr children)) := by
  have hne : some tag ≠ some C.streamErrorTag := fun h => htag (Option.some.inj h)
  rw [endElement_last h hopen, if_neg hne]

end Stream

/-! ## Trees as streams build them -/

def Node.IsText : Node → Prop
  | .text _ => True
  | .elem _ _ _ => False

/-- An element or an ancestor inside the stanza is outside of the default namespace. -/
def Outside (d : Text) (attr : Table Text Text) (outer : Prop) : Prop :=
  outer ∨ ∃ u, attr.get "xmlns".toList = some u ∧ u ≠ d

/-- What a stream with a default namespace builds, inside of these prefixes, with an ancestor
outside of the default namespace or without. -/
inductive Shaped (d : Text) : (Text → Prop) → Prop → Node → Prop
  | text {bound outer s} (hs : s ≠ []) : Shaped d bound outer (.text s)
  | elem {bound outer name attr children}
      (hname : IsName name)
      (hbound : Unbound (within bound attr) name)
      (hattr : AttrShaped bound attr)
      (hxmlns : (∃ u, attr.get "xmlns".toList = some u) ↔ Outside d attr outer)
      (hsep : ∀ u, attr.get "xmlns".toList = some u → nsSeparator ∉ u)
      (hmerged : children.IsChain fun a b => ¬ (a.IsText ∧ b.IsText))
      (hchildren : ∀ child ∈ children,
        Shaped d (within bound attr) (Outside d attr outer) child) :
      Shaped d bound outer (.elem name attr children)

/-- The state of the parser where an element or a text is to come. -/
structure Around (d : Text) (bound : Text → Prop) (outer : Prop) (parentns : Option Text)
    (p : Parser Stream) : Prop where
  covers : Covers bound p.ns
  xml : (p.ns.findSome? fun scope => scope.decls.get "xml".toList) = some xmlUri
  depth : 0 < p.state.nonStreamnsDepth ↔ outer
  parent : ∀ u, parentns = some u → (p.ns.findSome? fun scope => scope.decls.get []) = some u
  inside : ¬ outer → (p.ns.findSome? fun scope => scope.decls.get []) = some d

section Element

variable {bound : Text → Prop} {outer : Prop} {parentns : Option Text} {p : Parser Stream}
  {name : Text} {attr : Table Text Text} {children : List Node}

def namespaceOf (d : Text) (attr : Table Text Text) : Text := (attr.get "xmlns".toList).getD d

theorem Around.lookup_default (h : Around d bound outer parentns p) (hattr : AttrShaped bound attr)
    (hxmlns : (∃ u, attr.get "xmlns".toList = some u) ↔ Outside d attr outer) :
    lookup (L.declarations (attrsRead pairs attr parentns)) p.ns [] =
      .uri (namespaceOf d attr) := by
  refine Prosody.Xml.lookup_default hattr h.parent ?_
  cases hget : attr.get "xmlns".toList with
  | some u => exact .inl (by rw [namespaceOf, hget]; rfl)
  | none =>
    have houter : ¬ outer := fun houter => by
      obtain ⟨u, hu⟩ := hxmlns.mpr (.inl houter)
      rw [hget] at hu
      cases hu
    exact .inr ⟨rfl, by rw [h.inside houter, namespaceOf, hget]; rfl⟩

theorem Around.foreign (hd : C.defaultNs = some d) (h : Around d bound outer parentns p)
    (hxmlns : (∃ u, attr.get "xmlns".toList = some u) ↔ Outside d attr outer) :
    p.state.Foreign C (namespaceOf d attr) ↔ ∃ u, attr.get "xmlns".toList = some u := by
  rw [hxmlns, Stream.Foreign, h.depth, hd, Outside, or_comm]
  refine or_congr_right ⟨fun hne => ?_, ?_⟩
  · cases hget : attr.get "xmlns".toList with
    | some u =>
      rw [namespaceOf, hget] at hne
      exact ⟨u, rfl, fun hu => hne (congrArg some hu)⟩
    | none =>
      rw [namespaceOf, hget] at hne
      exact absurd rfl hne
  · rintro ⟨u, hget, hu⟩ heq
    rw [namespaceOf, hget] at heq
    exact hu (Option.some.inj heq)

theorem findSome_of_lookup {decls : Table Text Text} {ns : List Scope} {q u : Text}
    {tag : Option Text} (h : lookup decls ns q = .uri u) :
    ((⟨decls, tag⟩ :: ns).findSome? fun scope => scope.decls.get q) = some u := by
  unfold lookup at h
  cases hget : decls.get q with
  | some v =>
    rw [hget] at h
    rw [List.findSome?_cons_of_isSome (by simp [hget]), hget, Field.uri.inj h]
  | none =>
    rw [hget] at h
    simp only at h
    split_ifs at h
    cases hns : ns.findSome? fun scope => scope.decls.get q with
    | none =>
      rw [hns] at h
      cases h
    | some v =>
      rw [hns] at h
      rw [List.findSome?_cons_of_isNone (by simp [hget]), hns, Field.uri.inj h]

theorem Around.inner (hd : C.defaultNs = some d) (h : Around d bound outer parentns p)
    (hattr : AttrShaped bound attr)
    (hxmlns : (∃ u, attr.get "xmlns".toList = some u) ↔ Outside d attr outer) {tag : Text}
    {state : Stream}
    (hdepth : state.nonStreamnsDepth = Stream.depthOf C p.state (namespaceOf d attr)) :
    Around d (within bound attr) (Outside d attr outer) (attr.get "xmlns".toList)
      ⟨inner L pairs attr parentns tag p.ns, state⟩ where
  covers := by
    refine ⟨.inl h.covers.default, fun q hq => ?_⟩
    by_contra hwithin
    have hnone : (p.ns.findSome? fun scope => scope.decls.get q) = none := by
      by_contra hscope
      exact hwithin (.inl (h.covers.scope q hscope))
    refine hq ?_
    rw [Prosody.Xml.inner, List.findSome?_cons_of_isNone, hnone]
    rw [declarations_eq_none hattr h.covers.default hwithin]
    rfl
  xml := findSome_of_lookup (lookup_xml hattr h.xml)
  depth := by
    have hforeign := (h.foreign hd hxmlns).trans hxmlns
    rw [hdepth, Stream.depthOf]
    split_ifs with hcase
    · exact ⟨fun _ => hforeign.mp hcase, fun _ => Nat.succ_pos _⟩
    · rw [h.depth]
      exact ⟨fun houter => .inl houter, fun hout => absurd (hforeign.mpr hout) hcase⟩
  parent := by
    intro u hu
    have hlookup : lookup (L.declarations (attrsRead pairs attr parentns)) p.ns [] =
        .uri (namespaceOf d attr) := h.lookup_default hattr hxmlns
    rw [namespaceOf, hu] at hlookup
    exact findSome_of_lookup hlookup
  inside := by
    intro hout
    have hlookup : lookup (L.declarations (attrsRead pairs attr parentns)) p.ns [] =
        .uri (namespaceOf d attr) := h.lookup_default hattr hxmlns
    have hget : attr.get "xmlns".toList = none :=
      Option.eq_none_iff_forall_not_mem.mpr fun u hu => hout (hxmlns.mp ⟨u, hu⟩)
    rw [namespaceOf, hget] at hlookup
    exact findSome_of_lookup hlookup

end Element

/-! ## Reading trees -/

/-- Wherever its text is read, the node is added to the innermost open element. -/
def Comes (L : Lua) (pairs : KeyOrder Text) (C : Callbacks) (d : Text) (bound : Text → Prop)
    (outer : Prop) (node : Node) : Prop :=
  ∀ parentns p rest, Around d bound outer parentns p → p.state.opened ≠ [] →
    (node.IsText → p.state.chardata = [] ∧ rest.head? = some '<') →
      ∃ state, Pieces.Turns (turn L (saxHandlers C))
          (some p, node.dostring pairs parentns ++ rest) (some ⟨p.ns, state⟩, rest) ∧
        state.flush = p.state.flush.add [node] ∧ (¬ node.IsText → state.chardata = [])

section Reading

variable {bound : Text → Prop} {outer : Prop} {parentns : Option Text}

variable {children : List Node}

theorem Around.of_flush {p : Parser Stream} {state : Stream}
    (h : Around d bound outer parentns p) (hflush : state.flush = p.state.flush.add children) :
    Around d bound outer parentns ⟨p.ns, state⟩ where
  covers := h.covers
  xml := h.xml
  depth := by
    rw [← (Stream.flush_kept state).1, hflush, (Stream.add_kept _ _).1, (Stream.flush_kept _).1]
    exact h.depth
  parent := h.parent
  inside := h.inside

theorem opened_of_flush {s s' : Stream} (hopen : s.opened ≠ [])
    (hflush : s'.flush = s.flush.add children) : s'.opened ≠ [] := by
  intro hnil
  have hadd := (Stream.flush_kept s').2.2.2.mpr hnil
  rw [hflush, (Stream.add_kept _ _).2.2] at hadd
  exact hopen ((Stream.flush_kept s).2.2.2.mp hadd)

theorem text_comes {t : Text} (ht : t ≠ []) : Comes L pairs C d bound outer (.text t) := by
  intro parentns p rest _ hopen htext
  obtain ⟨hdata, hrest⟩ := htext trivial
  have hadded : p.state.characterData t = { p.state with chardata := [t] } := by
    rw [Stream.characterData, if_neg hopen, hdata]
    rfl
  refine ⟨p.state.characterData t, .single (turn_text ht hrest), ?_, fun h => absurd trivial h⟩
  have hflush := Stream.flush_text (s := { p.state with chardata := [t] }) hopen rfl
  rw [hadded, hflush, Stream.flush_of_nil hdata, ← hdata]

/-- The text of a node that is not a text starts with a tag. -/
theorem dostring_head? {node : Node} (h : ¬ node.IsText) (parentns : Option Text) (rest : Text) :
    (node.dostring pairs parentns ++ rest).head? = some '<' := by
  cases node with
  | text s => exact absurd trivial h
  | elem name attr children =>
    rw [Node.dostring]
    rfl

theorem children_come (hcome : ∀ child ∈ children, Comes L pairs C d bound outer child)
    (hmerged : children.IsChain fun a b => ¬ (a.IsText ∧ b.IsText)) {p : Parser Stream}
    {rest : Text} (hp : Around d bound outer parentns p) (hopen : p.state.opened ≠ [])
    (hdata : ∀ child, children.head? = some child → child.IsText → p.state.chardata = [])
    (hrest : rest.head? = some '<') : ∃ state, Pieces.Turns (turn L (saxHandlers C))
        (some p, Node.dostringAll pairs parentns children ++ rest) (some ⟨p.ns, state⟩, rest) ∧
      state.flush = p.state.flush.add children := by
  induction children generalizing p with
  | nil =>
    refine ⟨p.state, .refl _, Stream.add_nil.symm⟩
  | cons child children ih =>
    have hnext : child.IsText →
        (Node.dostringAll pairs parentns children ++ rest).head? = some '<' := by
      intro htext
      cases children with
      | nil => exact hrest
      | cons child' children =>
        have hother : ¬ child'.IsText := fun htext' =>
          (List.isChain_cons_cons.mp hmerged).1 ⟨htext, htext'⟩
        rw [Node.dostringAll, List.append_assoc]
        exact dostring_head? hother _ _
    obtain ⟨state, hturns, hflush, hclear⟩ := hcome child List.mem_cons_self parentns p
      (Node.dostringAll pairs parentns children ++ rest) hp hopen fun htext =>
        ⟨hdata child rfl htext, hnext htext⟩
    have hdata' : ∀ child', children.head? = some child' → child'.IsText →
        state.chardata = [] := by
      intro child' hhead htext'
      cases children with
      | nil => cases hhead
      | cons child₂ children =>
        obtain rfl := Option.some.inj hhead
        exact hclear fun htext => (List.isChain_cons_cons.mp hmerged).1 ⟨htext, htext'⟩
    obtain ⟨state', hturns', hflush'⟩ := ih (fun c hc => hcome c (List.mem_cons_of_mem _ hc))
      hmerged.tail (p := ⟨p.ns, state⟩) (hp.of_flush hflush) (opened_of_flush hopen hflush) hdata'
    refine ⟨state', ?_, ?_⟩
    · rw [Node.dostringAll, List.append_assoc]
      exact hturns.trans hturns'
    · rw [hflush']
      simp only
      rw [hflush, Stream.add_add]
      rfl

/-- An element is read: its children are added to it, and it ends. -/
theorem element_turns (hd : C.defaultNs = some d) {name : Text} {attr : Table Text Text}
    {children : List Node} (hname : IsName name) (hbound : Unbound (within bound attr) name)
    (hattr : AttrShaped bound attr)
    (hxmlns : (∃ u, attr.get "xmlns".toList = some u) ↔ Outside d attr outer)
    (hsep : nsSeparator ∉ namespaceOf d attr)
    (hmerged : children.IsChain fun a b => ¬ (a.IsText ∧ b.IsText))
    (hcome : ∀ child ∈ children,
      Comes L pairs C d (within bound attr) (Outside d attr outer) child)
    {p : Parser Stream} (hp : Around d bound outer parentns p)
    (hroot : p.state.opened = [] → p.state.notopen = false ∧ p.state.chardata = []) (rest : Text) :
    ∃ state : Stream, Pieces.Turns (turn L (saxHandlers C))
        (some p, (Node.elem name attr children).dostring pairs parentns ++ rest)
        (some ⟨p.ns, state.endElement C (some (namespaceOf d attr ++ nsSeparator :: name))⟩, rest) ∧
      state.flush = ((if p.state.opened = [] then p.state.topLevel (namespaceOf d attr) name
        else p.state.flush).enter name attr
          (Stream.depthOf C p.state (namespaceOf d attr))).add children := by
  obtain ⟨new, hnew, hstart⟩ := @startTag_eq L pairs Stream (saxHandlers C) bound attr parentns p.ns
    name _ hname hbound hattr hp.covers hp.xml (hp.lookup_default hattr hxmlns)
  have hu : ∀ v, attr.get "xmlns".toList = some v → v = namespaceOf d attr := by
    intro v hv
    rw [namespaceOf, hv]
    rfl
  have helement := Stream.startElement_eq hattr hnew hsep hname.ne_nil hu (hp.foreign hd hxmlns)
    fun h => (hroot h).1
  -- where the children are added
  let base := if p.state.opened = [] then p.state.topLevel (namespaceOf d attr) name
    else p.state.flush
  let start := base.enter name attr (Stream.depthOf C p.state (namespaceOf d attr))
  have hclear : start.chardata = [] := by
    change base.chardata = []
    by_cases hnil : p.state.opened = []
    · simp only [base, if_pos hnil]
      rw [Stream.topLevel]
      split_ifs
      · exact (hroot hnil).2
      · exact (hroot hnil).2
    · simp only [base, if_neg hnil]
      exact Stream.chardata_flush hnil
  have hinner : Around d (within bound attr) (Outside d attr outer) (attr.get "xmlns".toList)
      ⟨inner L pairs attr parentns (namespaceOf d attr ++ nsSeparator :: name) p.ns, start⟩ :=
    hp.inner hd hattr hxmlns rfl
  have hpush : Parser.startTag L (saxHandlers C) p (tagText pairs name attr parentns) =
      some ⟨inner L pairs attr parentns (namespaceOf d attr ++ nsSeparator :: name) p.ns,
        start⟩ := by
    have hread := hstart p.state
    rw [show (saxHandlers C).startElement = Stream.startElement C from rfl, helement] at hread
    exact hread
  have hgt := (@tagText_plain pairs bound attr parentns name hname hattr).1
  by_cases hchildren : children = []
  · subst hchildren
    have htext : (Node.elem name attr []).dostring pairs parentns ++ rest =
        '<' :: ((tagText pairs name attr parentns ++ ['/']) ++ '>' :: rest) := by
      rw [Node.dostring, if_pos rfl]
      simp [tagText]
    refine ⟨start, ?_, ?_⟩
    · rw [htext]
      refine .single ?_
      rw [turn_markup (by simp [hgt]), markup_empty hname hattr, hpush]
      rfl
    · rw [Stream.flush_of_nil hclear, Stream.add_nil]
  · have htext : (Node.elem name attr children).dostring pairs parentns ++ rest =
        '<' :: (tagText pairs name attr parentns ++ '>' ::
          (Node.dostringAll pairs (attr.get "xmlns".toList) children ++
            '<' :: (('/' :: name) ++ '>' :: rest))) := by
      rw [Node.dostring, if_neg hchildren]
      simp [tagText]
    obtain ⟨state, hturns, hflush⟩ := children_come hcome hmerged hinner (List.cons_ne_nil _ _)
      (fun _ _ _ => hclear) (show ('<' :: (('/' :: name) ++ '>' :: rest)).head? = some '<' from rfl)
    refine ⟨state, ?_, ?_⟩
    · rw [htext]
      refine .head ?_ (hturns.trans (.single ?_))
      · rw [turn_markup hgt, markup_start hname hattr, hpush]
      · have hname' : '>' ∉ '/' :: name := by
          have : '>' ∉ name := fun h => (hname.plain _ h).1.2.1 rfl
          simp [this]
        rw [turn_markup hname', markup_end rfl]
        rfl
    · rw [hflush, Stream.flush_of_nil hclear]

theorem depthOf_sub (s : Stream) (u : Text) : Stream.depthOf C s u - 1 = s.nonStreamnsDepth := by
  rw [Stream.depthOf]
  split_ifs with h
  · rfl
  · have hzero : ¬ 0 < s.nonStreamnsDepth := fun hpos => h (.inr hpos)
    omega

theorem sep_namespaceOf (hd : nsSeparator ∉ d) {attr : Table Text Text}
    (hsep : ∀ u, attr.get "xmlns".toList = some u → nsSeparator ∉ u) :
    nsSeparator ∉ namespaceOf d attr := by
  unfold namespaceOf
  cases hget : attr.get "xmlns".toList with
  | none => exact hd
  | some u => exact hsep u hget

/-- Every tree of the shape is read where its text stands, by induction on how it is built. -/
theorem Shaped.comes (hd : C.defaultNs = some d) (hdsep : nsSeparator ∉ d) {node : Node}
    (h : Shaped d bound outer node) : Comes L pairs C d bound outer node := by
  induction h with
  | text hs => exact text_comes hs
  | elem hname hbound hattr hxmlns hsep hmerged _ ih =>
    intro parentns p rest hp hopen _
    obtain ⟨state, hturns, hflush⟩ := element_turns hd hname hbound hattr hxmlns
      (sep_namespaceOf hdsep hsep) hmerged ih hp (fun h => absurd h hopen) rest
    rw [if_neg hopen] at hflush
    have hopen' : p.state.flush.opened ≠ [] := fun h =>
      hopen ((Stream.flush_kept _).2.2.2.mp h)
    rw [Stream.endElement_inner hflush hopen', depthOf_sub,
      ← (Stream.flush_kept p.state).1] at hturns
    have hclear : ∀ children, (p.state.flush.add children).chardata = [] := fun children =>
      (Stream.add_kept _ _).2.1.trans (Stream.chardata_flush hopen)
    exact ⟨_, hturns, Stream.flush_of_nil (hclear _), fun _ => hclear _⟩

end Reading

/-! ## The round trip -/

/-- The parser between two stanzas of a stream with a default namespace. -/
structure Between (d : Text) (p : Parser Stream) : Prop where
  opened : p.state.opened = []
  notopen : p.state.notopen = false
  chardata : p.state.chardata = []
  depth : p.state.nonStreamnsDepth = 0
  xml : (p.ns.findSome? fun scope => scope.decls.get "xml".toList) = some xmlUri
  default : (p.ns.findSome? fun scope => scope.decls.get []) = some d

/-- The prefixes in scope, the empty one among them. -/
def InScope (ns : List Scope) (q : Text) : Prop :=
  q = [] ∨ (ns.findSome? fun scope => scope.decls.get q) ≠ none

theorem Between.around {p : Parser Stream} (h : Between d p) :
    Around d (InScope p.ns) False none p where
  covers := ⟨.inl rfl, fun _ hq => .inr hq⟩
  xml := h.xml
  depth := by simp [h.depth]
  parent := by simp
  inside := fun _ => h.default

/-- What the session is told besides the stanza. -/
def topLevelErrors (d : Text) (name : Text) (attr : Table Text Text) : List Event :=
  if namespaceOf d attr = "jabber:client".toList ∧ ¬ Stream.isStanzaName name then
    [.invalidTopLevelElement]
  else []

variable {name : Text}

theorem topLevel_eq {s : Stream} {attr : Table Text Text} : s.topLevel (namespaceOf d attr) name =
      { s with events := s.events ++ topLevelErrors d name attr } := by
  rw [Stream.topLevel, topLevelErrors]
  split_ifs
  · rfl
  · rw [List.append_nil]

/-- However the text of a stanza is cut, the session gets the stanza back, once. -/
theorem stanza_comes_back (L : Lua) (pairs : KeyOrder Text) (C : Callbacks)
    (hd : C.defaultNs = some d) (hdsep : nsSeparator ∉ d) {p : Parser Stream} (hp : Between d p)
    {name : Text} {attr : Table Text Text} {children : List Node}
    (hstanza : Shaped d (InScope p.ns) False (.elem name attr children))
    (herror : namespaceOf d attr ++ nsSeparator :: name ≠ C.streamErrorTag) {pieces : List Text}
    (hpieces : pieces.flatten = (Node.elem name attr children).tostring pairs) :
    parse L (saxHandlers C) (some p, []) pieces =
      (some { p with state := { p.state with
        events := p.state.events ++ topLevelErrors d name attr ++
          [.handlestanza (.elem name attr children)] } }, []) := by
  cases hstanza with
  | elem hname hbound hattr hxmlns hsep hmerged hchildren =>
    obtain ⟨state, hturns, hflush⟩ := @element_turns L pairs C d _ _ none hd _ _ _ hname hbound
      hattr hxmlns (sep_namespaceOf hdsep hsep) hmerged
      (fun child hchild => (hchildren child hchild).comes hd hdsep) _ hp.around
      (fun _ => ⟨hp.notopen, hp.chardata⟩) []
    rw [if_pos hp.opened, topLevel_eq] at hflush
    rw [Stream.endElement_root hflush hp.opened herror, depthOf_sub] at hturns
    have hwhole : Pieces.Turns (turn L (saxHandlers C)) (some p, [] ++ pieces.flatten)
        (some { p with state := { p.state with
          events := p.state.events ++ topLevelErrors d name attr ++
            [.handlestanza (.elem name attr children)] } }, []) := by
      rw [hpieces, List.nil_append, Node.tostring, ← List.append_nil (Node.dostring _ _ _)]
      exact hturns
    exact Pieces.feedAll_eq turn_steady rfl hwhole rfl

/-! ## A stanza that comes back, and two that do not -/

def streamsNs : Text := "http://etherx.jabber.org/streams".toList

def clientCallbacks : Callbacks :=
  ⟨streamsNs, "stream".toList, "error".toList, some "jabber:client".toList⟩

def lua : Lua := ⟨KeyOrder.inserted (List Char), fun _ => none⟩

/-- After the header of a client's stream. -/
def clientStream : Parser Stream :=
  ⟨[⟨((∅ : Table Text Text).set [] (some "jabber:client".toList)).set "stream".toList
      (some streamsNs), some (streamsNs ++ nsSeparator :: "stream".toList)⟩, baseScope],
    ⟨[], [], 0, false, []⟩⟩

/-- A message with a language, a body and an extension with a namespaced attribute. -/
def greeting : Node :=
  .elem "message".toList ((∅ : Table Text Text).set "xml:lang".toList (some "en".toList))
    [.elem "body".toList ∅ [.text "You & me".toList],
      .elem "x".toList (((∅ : Table Text Text).set "xmlns".toList (some "u".toList)).set
        ("v".toList ++ nsSeparator :: "k".toList) (some "'".toList)) []]

theorem unbound_of_colon {bound : Text → Prop} (h : ':' ∉ name) : Unbound bound name :=
  fun hcolon => absurd hcolon h

theorem isName_of_plain (hne : name ≠ []) (h : ∀ c ∈ name, c.isAlpha = true) : IsName name where
  ne_nil := hne
  plain c hc := by
    have hdiff : ∀ d : Char, d.isAlpha = false → c ≠ d := by
      rintro d hd rfl
      rw [h c hc] at hd
      cases hd
    refine ⟨⟨hdiff _ (by decide), hdiff _ (by decide), ?_⟩, hdiff _ (by decide), ?_,
      hdiff _ (by decide), hdiff _ (by decide), hdiff _ (by decide), hdiff _ (by decide)⟩
    · simp [isQuote, hdiff '\'' (by decide), hdiff '"' (by decide)]
    · simp [isSpace, hdiff ' ' (by decide), hdiff '\t' (by decide), hdiff '\n' (by decide),
        hdiff '\r' (by decide), hdiff (Char.ofNat 11) (by decide),
        hdiff (Char.ofNat 12) (by decide)]

theorem shaped_leaf {bound : Text → Prop} {u : Text} {attr : Table Text Text}
    (hname : name ≠ [] ∧ ∀ c ∈ name, c.isAlpha = true) (hattr : AttrShaped bound attr)
    (hu : attr.get "xmlns".toList = some u) (hd : u ≠ d) (hsep : nsSeparator ∉ u) (outer : Prop) :
    Shaped d bound outer (.elem name attr []) := by
  have hcolon : ':' ∉ name := fun h => absurd (hname.2 _ h) (by decide)
  refine .elem (isName_of_plain hname.1 hname.2) (unbound_of_colon hcolon) hattr ?_ ?_ .nil ?_
  · exact ⟨fun _ => .inr ⟨u, hu, hd⟩, fun _ => ⟨u, hu⟩⟩
  · intro v hv
    rw [hu] at hv
    exact Option.some.inj hv ▸ hsep
  · intro child hchild
    cases hchild

theorem xmlns_iff_outside {outer : Prop} {attr : Table Text Text} (houter : ¬ outer)
    (hnone : attr.get "xmlns".toList = none) :
    (∃ u, attr.get "xmlns".toList = some u) ↔ Outside d attr outer := by
  constructor
  · rintro ⟨u, hu⟩
    rw [hnone] at hu
    cases hu
  · rintro (h | ⟨u, hu, -⟩)
    · exact absurd h houter
    · exact ⟨u, hu⟩

theorem greeting_shaped :
    Shaped "jabber:client".toList (InScope clientStream.ns) False greeting := by
  have hinside := @xmlns_iff_outside "jabber:client".toList False
    ((∅ : Table Text Text).set "xml:lang".toList (some "en".toList)) not_false (by decide)
  refine .elem (isName_of_plain (by decide) (by simp)) (unbound_of_colon (by decide)) ?_
    hinside ?_ ?_ ?_
  · intro k v hk
    rw [Table.get_set, Table.get_empty] at hk
    split_ifs at hk with hlang
    exact .inr (.xml (.inl hlang))
  · intro u hu
    cases hu
  · exact .cons_cons (fun h => h.1) (.singleton _)
  · intro child hchild
    rcases List.mem_cons.mp hchild with rfl | hchild
    · refine .elem (isName_of_plain (by decide) (by simp)) (unbound_of_colon (by decide)) ?_ ?_ ?_
        (.singleton _) ?_
      · intro k v hk
        cases hk
      · refine xmlns_iff_outside (fun hout => ?_) rfl
        obtain ⟨u, hu⟩ := hinside.mpr hout
        cases hu
      · intro u hu
        cases hu
      · intro child hchild
        rw [List.mem_singleton.mp hchild]
        exact .text (by decide)
    · rw [List.mem_singleton.mp hchild]
      refine shaped_leaf ⟨by decide, by simp⟩ ?_ (u := "u".toList) (by decide) (by decide)
        (by decide) _
      intro k v hk
      rw [Table.get_set, Table.get_set, Table.get_empty] at hk
      split_ifs at hk with hkey hxmlns
      · subst hkey
        have hlocal : IsName "k".toList := isName_of_plain (by decide) (by simp)
        exact .inr (.namespaced (by decide) hlocal (by decide))
      · exact .inl hxmlns

theorem greeting_comes_back :
    parse lua (saxHandlers clientCallbacks) (some clientStream, [])
        [(greeting.tostring lua.pairs).take 12, (greeting.tostring lua.pairs).drop 12] =
      (some { clientStream with state := { clientStream.state with
        events := [] ++ topLevelErrors "jabber:client".toList "message".toList
          ((∅ : Table Text Text).set "xml:lang".toList (some "en".toList)) ++
            [.handlestanza greeting] } }, []) :=
  stanza_comes_back lua lua.pairs clientCallbacks rfl (by decide)
    ⟨rfl, rfl, rfl, rfl, by decide, by decide⟩ greeting_shaped (by decide) <| by
      simp only [List.flatten_cons, List.flatten_nil, List.append_nil, List.take_append_drop]
      rfl

/-- The stanzas that a client's stream makes of some text. -/
def received (text : Text) : List Node :=
  (parse lua (saxHandlers clientCallbacks) (some clientStream, []) [text]).1.elim [] fun p =>
    p.state.events.filterMap fun e =>
      match e with
      | .handlestanza stanza => some stanza
      | _ => none

/-- A stream error sent as a stanza is not received as one, and a name with a colon is taken into
the namespace of an attribute whose prefix it happens to have. -/
theorem stanzas_do_not_come_back :
    (Shaped "jabber:client".toList (InScope clientStream.ns) False
        (.elem "error".toList ((∅ : Table Text Text).set "xmlns".toList (some streamsNs)) []) ∧
      received ((Node.elem "error".toList
        ((∅ : Table Text Text).set "xmlns".toList (some streamsNs)) []).tostring lua.pairs) = []) ∧
    ∃ stanza, received "<a xmlns:q='u' q:k='v'><ns1:b/></a>".toList = [stanza] ∧
      received (stanza.tostring lua.pairs) ≠ [stanza] := by
  refine ⟨⟨?_, ?_⟩, ?_⟩
  · refine shaped_leaf ⟨by decide, by simp⟩ ?_ (u := streamsNs) (by decide) (by decide)
      (by decide) _
    intro k v hk
    rw [Table.get_set, Table.get_empty] at hk
    split_ifs at hk with hxmlns
    exact .inl hxmlns
  · exact List.length_eq_zero_iff.mp (by decide +kernel)
  · obtain ⟨stanza, hstanza⟩ : ∃ stanza,
        received "<a xmlns:q='u' q:k='v'><ns1:b/></a>".toList = [stanza] :=
      List.length_eq_one_iff.mp (by decide +kernel)
    refine ⟨stanza, hstanza, fun hagain => ?_⟩
    have hdiffer : ((received "<a xmlns:q='u' q:k='v'><ns1:b/></a>".toList).flatMap fun stanza =>
        received (stanza.tostring lua.pairs)).map (Node.tostring lua.pairs) ≠
          (received "<a xmlns:q='u' q:k='v'><ns1:b/></a>".toList).map
            (Node.tostring lua.pairs) := by
      decide +kernel
    rw [hstanza] at hdiffer
    exact hdiffer (by rw [List.flatMap_singleton, hagain])

end Prosody.Xml
