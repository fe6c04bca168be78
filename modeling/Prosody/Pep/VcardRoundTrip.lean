import Prosody.Pep.Vcards

/-! # Round trips of vCards (`mod_vcard_legacy.lua`) -/

namespace Prosody.Pep.Vcard

open Prosody.Xml
open Node (leaf Own getText getChildText children_elem)
open Builder (up_addChildren_tag addChildren_append)

/-! ### What is promised -/

/-- Every translated property is a child of the `<vcard/>` of the item, in the order they
came in. -/
def Holds (vcard : VCard) (item : Node) : Prop :=
  ∃ v4, item.tags.head? = some v4 ∧ v4.name = "vcard".toList ∧
    List.Sublist (vcard.elements.filterMap Element.vcard4) v4.children

/-- The answer has the name and the properties that had a value, with what they said, and then
nothing but photos. -/
def Returns (vcard : VCard) (answer : Node) : Prop :=
  ∃ fn n returned photos, answer.children = fn :: n :: (returned ++ photos) ∧
    (Element.fn vcard.fn).Says fn ∧ (Element.n vcard.n).Says n ∧
    List.Forall₂ Element.Says (vcard.elements.filter Element.valued) returned ∧
    ∀ photo ∈ photos, photo.name = "PHOTO".toList

/-- One item is published that holds every translated property, and from it the vCard is
returned. -/
def RoundTrips (service : Service) (avatars : List Avatar) (stored : Option Node)
    (vcard : VCard) : Prop :=
  ∃ item answer,
    set service vcard.node = .ok [⟨"urn:xmpp:vcard4".toList, "current".toList, item⟩] ∧
    Holds vcard item ∧ get (some item) avatars stored = some answer ∧ Returns vcard answer

/-- From the first telephone number without a number on no property has a value, and no
categories are given as keywords. -/
def VCard.Unbroken (vcard : VCard) : Prop :=
  (∀ e ∈ vcard.elements, e.isKeywords = false) ∧
    ∀ e ∈ vcard.elements.dropWhile (fun e => !e.stray), e.valued = false

/-! ### A whole vCard through the set handler -/

variable {es : List Element} {cs : List Node}

/-- Once the cursor has left the `<vcard/>`, what follows goes into the item. -/
theorem foldl_setTag_outside (root : Frame) (h : List.Forall₂ Element.Says es cs) :
    ∃ more, cs.foldl setTag ⟨root, []⟩ = ⟨{ root with children := root.children ++ more }, []⟩ := by
  induction h generalizing root with
  | nil => exact ⟨[], by simp⟩
  | @cons e c es cs hec _ ih =>
    have hstep : ∃ new, setTag ⟨root, []⟩ c =
        ⟨{ root with children := root.children ++ new }, []⟩ := by
      obtain ⟨hplain, hstray⟩ := setTag_spec ⟨root, []⟩ hec
      cases hs : e.stray with
      | false =>
        rw [hplain hs, Builder.addChildren_root]
        exact ⟨_, rfl⟩
      | true =>
        obtain ⟨mark, heq⟩ := hstray hs
        exact ⟨[parameters mark], heq⟩
    obtain ⟨new, hnew⟩ := hstep
    obtain ⟨more, hmore⟩ := ih { root with children := root.children ++ new }
    refine ⟨new ++ more, ?_⟩
    rw [List.foldl_cons, hnew, hmore]
    simp

/-- The properties up to the first telephone number without a number become children of the
open element. -/
theorem foldl_setTag (root frame : Frame) (h : List.Forall₂ Element.Says es cs) :
    ∃ tail more, (cs.foldl setTag ⟨root, [frame]⟩).node = .elem root.name root.attr
        (root.children ++ Node.elem frame.name frame.attr (frame.children ++
          ((es.takeWhile fun e => !e.stray).filterMap Element.vcard4 ++ tail)) :: more) ∧
      ∀ c ∈ tail, ∃ mark, c = parameters mark := by
  induction h generalizing frame with
  | nil => exact ⟨[], [], by simp [Builder.node_inner, Frame.addDirectChild, Frame.node], by simp⟩
  | @cons e c es cs hec htail ih =>
    obtain ⟨hplain, hstray⟩ := setTag_spec ⟨root, [frame]⟩ hec
    cases hs : e.stray with
    | false =>
      have hstep := hplain hs
      rw [Builder.addChildren_inner] at hstep
      obtain ⟨tail, more, heq, hall⟩ :=
        ih { frame with children := frame.children ++ e.vcard4.toList }
      refine ⟨tail, more, ?_, hall⟩
      rw [List.foldl_cons, hstep, heq]
      cases hv : e.vcard4 <;> simp [hs, hv]
    | true =>
      obtain ⟨mark, hstep⟩ := hstray hs
      have hleft : setTag ⟨root, [frame]⟩ c =
          ⟨root.addDirectChild (frame.addDirectChild (parameters mark)).node, []⟩ := hstep
      obtain ⟨more, hmore⟩ := foldl_setTag_outside
        (root.addDirectChild (frame.addDirectChild (parameters mark)).node) htail
      refine ⟨[parameters mark], more, ?_, fun c hc => ⟨mark, List.mem_singleton.mp hc⟩⟩
      rw [List.foldl_cons, hleft, hmore]
      simp [Builder.node_root, Frame.addDirectChild, Frame.node, hs]

variable {e : Element}

theorem name_ne_photo {c : Node} (h : e.Says c) : c.name ≠ "PHOTO".toList := by
  rw [h.1]
  cases e with
  | simple kind t =>
    intro heq
    cases kind <;> cases heq
  | _ =>
    intro heq
    cases heq

theorem foldlM_setProperty (service : Service) (c : Conversion)
    (h : List.Forall₂ Element.Says es cs) : cs.foldlM (setProperty service) c =
      .ok { c with vcard4 := cs.foldl setTag c.vcard4 } := by
  induction h generalizing c with
  | nil => rfl
  | @cons e tag es cs htag _ ih =>
    have hstep : setProperty service c tag = .ok { c with vcard4 := setTag c.vcard4 tag } := by
      rw [setProperty, if_neg (name_ne_photo htag)]
    rw [List.foldlM_cons, hstep]
    exact ih _

theorem find?_once {α : Type} {f : Element → Option α} {name : Text} {a : α}
    (hf : ∀ e c, Element.Says e c → (decide (name = c.name) = (f e).isSome))
    (h : List.Forall₂ Element.Says es cs) (honce : es.filterMap f = [a]) :
    ∃ e c, f e = some a ∧ e.Says c ∧ cs.find? (fun c => name = c.name) = some c := by
  induction h with
  | nil => cases honce
  | @cons e c es cs hec _ ih =>
    have hc := hf e c hec
    rw [List.find?_cons, hc]
    cases he : f e with
    | none =>
      rw [List.filterMap_cons_none he] at honce
      exact ih honce
    | some b =>
      rw [List.filterMap_cons_some he, List.cons.injEq] at honce
      exact ⟨e, c, by rw [he, honce.1], hec, rfl⟩

theorem fn_name {c : Node} (h : e.Says c) : decide ("FN".toList = c.name) = e.fn?.isSome := by
  rw [h.1]
  cases e with
  | simple kind t => cases kind <;> rfl
  | _ => rfl

theorem n_name {c : Node} (h : e.Says c) : decide ("N".toList = c.name) = e.n?.isSome := by
  rw [h.1]
  cases e with
  | simple kind t => cases kind <;> rfl
  | _ => rfl

/-- The name, in both vocabularies. -/
def fnNode (fn : Text) : Node := .elem "fn".toList ∅ [leaf "text".toList ∅ (some fn)]

def nNode (n : NamePart → Text) : Node :=
  .elem "n".toList ∅ (parts NamePart.v4 n NamePart.all)

theorem VCard.getChildText_fn (vcard : VCard) :
    vcard.node.getChildText "FN".toList = some vcard.fn := by
  obtain ⟨e, c, he, hsays, hfind⟩ :=
    find?_once (fun _ _ => fn_name) vcard.content vcard.fn_once
  rw [getChildText, Node.getChild_eq_childtags, hfind]
  cases e with
  | fn t =>
    cases he
    exact hsays.2
  | _ => cases he

theorem VCard.getChild_n (vcard : VCard) :
    ∃ c, vcard.node.getChild "N".toList none = some c ∧
      ∀ p : NamePart, (c.getChildText p.temp).getD [] = vcard.n p := by
  obtain ⟨e, c, he, hsays, hfind⟩ :=
    find?_once (fun _ _ => n_name) vcard.content vcard.n_once
  refine ⟨c, by rw [Node.getChild_eq_childtags, hfind], ?_⟩
  cases e with
  | n part =>
    cases he
    exact hsays.2
  | _ => cases he

/-- The frame of the item, and that of the `<vcard/>` in it. -/
def itemFrame : Frame :=
  ⟨"item".toList, attrs [("xmlns".toList, some "http://jabber.org/protocol/pubsub".toList),
    ("id".toList, some "current".toList)], []⟩

def vcardFrame (vcard : VCard) : Frame :=
  ⟨"vcard".toList, attrs [("xmlns".toList, some "urn:ietf:params:xml:ns:vcard-4.0".toList)],
    [fnNode vcard.fn, nNode vcard.n]⟩

theorem setNames_eq (vcard : VCard) :
    setNames vcard.node = ⟨itemFrame, [vcardFrame vcard]⟩ := by
  obtain ⟨c, hc, hpart⟩ := vcard.getChild_n
  have hleaf : ∀ p : NamePart, leaf p.v4 ∅ (c.getChildText p.temp) =
      leaf p.v4 ∅ (some (vcard.n p)) := by
    intro p
    rw [leaf_getD, hpart p]
  have hn : nNode vcard.n = .elem "n".toList ∅
      (NamePart.all.map fun p => leaf p.v4 ∅ (c.getChildText p.temp)) := by
    rw [nNode, parts]
    simp only [hleaf]
  unfold setNames vcardFrame
  rw [hc, vcard.getChildText_fn, hn]
  simp only [Builder.textTag_eq]
  rfl

theorem set_spec (service : Service) (vcard : VCard)
    (succeeds : ∀ p, service.publish p = none) :
    ∃ item tail more, set service vcard.node =
        .ok [⟨"urn:xmpp:vcard4".toList, "current".toList, item⟩] ∧
      item.children = Node.elem (vcardFrame vcard).name (vcardFrame vcard).attr
        (fnNode vcard.fn :: nNode vcard.n ::
          ((vcard.elements.takeWhile fun e => !e.stray).filterMap Element.vcard4 ++ tail)) ::
            more ∧
      ∀ c ∈ tail, ∃ mark, c = parameters mark := by
  obtain ⟨tail, more, heq, htail⟩ := foldl_setTag itemFrame (vcardFrame vcard) vcard.content
  refine ⟨_, tail, more, ?_, congrArg Node.children heq, htail⟩
  unfold set
  rw [foldlM_setProperty service _ vcard.content, setNames_eq]
  change ((Conversion.publish service ⟨_, []⟩ _).bind fun c => .ok c.published) = _
  rw [Conversion.publish, succeeds]
  rfl

/-! ### What was published through the get handler -/

theorem own_vcard4 {v : Node} (h : e.vcard4 = some v) (ns : Option Text) : Own ns v := by
  cases e with
  | email userid mark =>
    cases userid with
    | none => cases h
    | some t =>
      cases h
      exact own_elem _ _ _
  | tel number mark =>
    cases number with
    | none => cases h
    | some t =>
      cases h
      exact own_elem _ _ _
  | simple kind t =>
    cases h
    exact own_elem _ _ _
  | adr part mark =>
    cases h
    exact own_elem _ _ _
  | _ => cases h

theorem foldl_getTag (es : List Element) :
    ∃ rs, List.Forall₂ Element.Says (es.filter fun e => e.vcard4.isSome) rs ∧
      ∀ b, (es.filterMap Element.vcard4).foldl getTag b = b.addChildren rs := by
  induction es with
  | nil => exact ⟨[], .nil, fun b => rfl⟩
  | cons e es ih =>
    obtain ⟨rs, hsays, hfold⟩ := ih
    cases he : e.vcard4 with
    | none =>
      refine ⟨rs, ?_, ?_⟩
      · simpa [he] using hsays
      · intro b
        rw [List.filterMap_cons_none he]
        exact hfold b
    | some v =>
      obtain ⟨r, hr, hget⟩ := getTag_spec he
      refine ⟨r :: rs, ?_, ?_⟩
      · simpa [he] using List.Forall₂.cons hr hsays
      · intro b
        rw [List.filterMap_cons_some he, List.foldl_cons, hget, hfold]
        rfl

variable {tail : List Node}

theorem foldl_getTag_tail (b : Builder)
    (h : ∀ c ∈ tail, ∃ mark, c = parameters mark) : tail.foldl getTag b = b := by
  induction tail with
  | nil => rfl
  | cons c tail ih =>
    obtain ⟨mark, rfl⟩ := h _ List.mem_cons_self
    rw [List.foldl_cons, getTag_none b (.inr (.inr rfl))]
    exact ih fun c hc => h c (List.mem_cons_of_mem _ hc)

/-- The `<vcard/>` that the set handler makes, read back. -/
theorem getVcard_spec (vcard : VCard) (b : Builder)
    (htail : ∀ c ∈ tail, ∃ mark, c = parameters mark) :
    ∃ fn n rs, getVcard b (.elem (vcardFrame vcard).name (vcardFrame vcard).attr
        (fnNode vcard.fn :: nNode vcard.n :: (es.filterMap Element.vcard4 ++ tail))) =
          b.addChildren (fn :: n :: rs) ∧
      (Element.fn vcard.fn).Says fn ∧ (Element.n vcard.n).Says n ∧
      List.Forall₂ Element.Says (es.filter fun e => e.vcard4.isSome) rs := by
  obtain ⟨rs, hsays, hfold⟩ := foldl_getTag es
  have hown : ∀ c ∈ fnNode vcard.fn :: nNode vcard.n :: (es.filterMap Element.vcard4 ++ tail),
      ∀ ns, Own ns c := by
    intro c hc ns
    rcases List.mem_cons.mp hc with rfl | hc
    · exact own_elem _ _ _
    rcases List.mem_cons.mp hc with rfl | hc
    · exact own_elem _ _ _
    rcases List.mem_append.mp hc with hc | hc
    · obtain ⟨e, -, he⟩ := List.mem_filterMap.mp hc
      exact own_vcard4 he ns
    · obtain ⟨mark, rfl⟩ := htail c hc
      exact own_elem _ _ _
  generalize hv : Node.elem (vcardFrame vcard).name (vcardFrame vcard).attr
    (fnNode vcard.fn :: nNode vcard.n :: (es.filterMap Element.vcard4 ++ tail)) = v4
  have hchildren : v4.children =
      fnNode vcard.fn :: nNode vcard.n :: (es.filterMap Element.vcard4 ++ tail) := by
    rw [← hv]
    rfl
  have hall : ∀ c ∈ v4.children, Own v4.xmlns c := fun c hc => hown c (hchildren ▸ hc) _
  have hfn : v4.getChild "fn".toList none = some (fnNode vcard.fn) := by
    rw [Node.getChild_eq hall, hchildren]
    rfl
  have hn : v4.getChild "n".toList none = some (nNode vcard.n) := by
    rw [Node.getChild_eq hall, hchildren]
    rfl
  have htext : (fnNode vcard.fn).getChildText "text".toList = some vcard.fn :=
    getChildText_leaf _ _ _ (List.forall_mem_nil _)
  have hpart : ∀ p : NamePart, (nNode vcard.n).getChildText p.v4 = some (vcard.n p) :=
    fun p => getChildText_all namePart_v4_injective (namePart_mem_all p) _
  have h1 : (nNode vcard.n).getChildText "surname".toList = some (vcard.n .family) :=
    hpart .family
  have h2 : (nNode vcard.n).getChildText "given".toList = some (vcard.n .given) := hpart .given
  have h3 : (nNode vcard.n).getChildText "additional".toList = some (vcard.n .middle) :=
    hpart .middle
  have h4 : (nNode vcard.n).getChildText "prefix".toList = some (vcard.n .honorific) :=
    hpart .honorific
  have h5 : (nNode vcard.n).getChildText "suffix".toList = some (vcard.n .suffix) :=
    hpart .suffix
  refine ⟨leaf "FN".toList ∅ (some vcard.fn),
    .elem "N".toList ∅ (parts NamePart.temp vcard.n NamePart.all), rs, ?_, ?_, ?_, hsays⟩
  · have hnames : ∀ b : Builder, (fnNode vcard.fn :: nNode vcard.n ::
        (es.filterMap Element.vcard4 ++ tail)).foldl getTag b = b.addChildren rs := by
      intro b
      rw [List.foldl_cons, getTag_none b (.inl rfl), List.foldl_cons,
        getTag_none b (.inr (.inl rfl)), List.foldl_append, hfold, foldl_getTag_tail _ htail]
    unfold getVcard
    rw [Node.childtags_eq hall, hchildren, hnames, hfn, hn]
    simp only [Option.bind_some]
    rw [htext, h1, h2, h3, h4, h5]
    simp only [Builder.textTag_eq]
    rfl
  · exact ⟨rfl, Node.getText_leaf _ _ _⟩
  · refine ⟨rfl, fun p => ?_⟩
    rw [getChildText_all namePart_temp_injective (namePart_mem_all p)]
    rfl

theorem getAvatar_spec (avatar : Avatar) :
    ∃ photo, photo.name = "PHOTO".toList ∧ ∀ b, getAvatar b avatar = b.addChild photo := by
  have hclose : ∀ cs, ∃ photo, photo.name = "PHOTO".toList ∧ ∀ b : Builder,
      ((b.tag "PHOTO".toList ∅).addChildren cs).up = b.addChild photo :=
    fun cs => ⟨_, rfl, fun b => up_addChildren_tag b _ _ cs⟩
  have htype : ∃ cs, ∀ b : Builder, (if avatar.type.isSome then
      b.textTag "TYPE".toList avatar.type else b) = b.addChildren cs := by
    by_cases h : avatar.type.isSome
    · exact ⟨_, fun b => by rw [if_pos h, Builder.textTag_eq, Builder.addChild_eq]⟩
    · exact ⟨[], fun b => if_neg h⟩
  have hurl : ∃ ds, ∀ b : Builder, (if avatar.url.isSome then
      b.textTag "EXTVAL".toList avatar.url else b) = b.addChildren ds := by
    by_cases h : avatar.url.isSome
    · exact ⟨_, fun b => by rw [if_pos h, Builder.textTag_eq, Builder.addChild_eq]⟩
    · exact ⟨[], fun b => if_neg h⟩
  obtain ⟨cs, hcs⟩ := htype
  have hdata : ∃ ds, ∀ b : Builder,
      getAvatar b avatar = ((b.tag "PHOTO".toList ∅).addChildren (cs ++ ds)).up := by
    unfold getAvatar
    cases avatar.data with
    | some text =>
      refine ⟨[leaf "BINVAL".toList ∅ text], fun b => ?_⟩
      rw [addChildren_append, ← hcs]
      dsimp only
      rw [Builder.textTag_eq, Builder.addChild_eq]
    | none =>
      obtain ⟨ds, hds⟩ := hurl
      refine ⟨ds, fun b => ?_⟩
      rw [addChildren_append, ← hcs, ← hds]
  obtain ⟨ds, hds⟩ := hdata
  obtain ⟨photo, hname, hphoto⟩ := hclose (cs ++ ds)
  exact ⟨photo, hname, fun b => (hds b).trans (hphoto b)⟩

theorem foldl_getAvatar (avatars : List Avatar) :
    ∃ photos, (∀ photo ∈ photos, photo.name = "PHOTO".toList) ∧
      ∀ b, avatars.foldl getAvatar b = b.addChildren photos := by
  induction avatars with
  | nil => exact ⟨[], by simp, fun b => rfl⟩
  | cons avatar avatars ih =>
    obtain ⟨photo, hname, hphoto⟩ := getAvatar_spec avatar
    obtain ⟨photos, hnames, hphotos⟩ := ih
    refine ⟨photo :: photos, ?_, ?_⟩
    · intro p hp
      rcases List.mem_cons.mp hp with rfl | hp
      · exact hname
      · exact hnames p hp
    · intro b
      rw [List.foldl_cons, hphoto, hphotos]
      rfl

theorem get_spec (vcard : VCard) {item : Node} {more : List Node}
    (hitem : item.children = Node.elem (vcardFrame vcard).name (vcardFrame vcard).attr
      (fnNode vcard.fn :: nNode vcard.n :: (es.filterMap Element.vcard4 ++ tail)) :: more)
    (htail : ∀ c ∈ tail, ∃ mark, c = parameters mark) (avatars : List Avatar)
    (stored : Option Node) : ∃ answer fn n rs photos, get (some item) avatars stored = some answer ∧
      answer.children = fn :: n :: (rs ++ photos) ∧
      (Element.fn vcard.fn).Says fn ∧ (Element.n vcard.n).Says n ∧
      List.Forall₂ Element.Says (es.filter fun e => e.vcard4.isSome) rs ∧
      ∀ photo ∈ photos, photo.name = "PHOTO".toList := by
  let vcardTemp := Builder.stanza "vCard".toList
    (attrs [("xmlns".toList, some "vcard-temp".toList)])
  obtain ⟨fn, n, rs, hget, hfn, hn, hrs⟩ := getVcard_spec vcard vcardTemp htail
  obtain ⟨photos, hphotos, hfold⟩ := foldl_getAvatar avatars
  have hhead : item.tags.head? = some (.elem (vcardFrame vcard).name (vcardFrame vcard).attr
      (fnNode vcard.fn :: nNode vcard.n :: (es.filterMap Element.vcard4 ++ tail))) := by
    rw [Node.tags, hitem]
    rfl
  have hchildren : (avatars.foldl getAvatar (vcardTemp.addChildren (fn :: n :: rs))).node.children
      = fn :: n :: (rs ++ photos) := by
    rw [hfold, ← addChildren_append]
    change (Builder.addChildren ⟨_, []⟩ _).node.children = _
    rw [Builder.addChildren_root]
    rfl
  have htags :
      (avatars.foldl getAvatar (vcardTemp.addChildren (fn :: n :: rs))).node.tags ≠ [] := by
    cases fn with
    | text t => cases hfn.1
    | elem name attr children =>
      rw [Node.tags, hchildren]
      exact List.cons_ne_nil _ _
  refine ⟨_, fn, n, rs, photos, ?_, hchildren, hfn, hn, hrs, hphotos⟩
  unfold get
  dsimp only
  rw [hhead, Option.map_some, Option.map_some, hget, if_neg htags]

/-! ### When nothing is lost -/

theorem isSome_vcard4 (e : Element) : e.vcard4.isSome = (e.valued && !e.isKeywords) := by
  cases e with
  | email userid mark => cases userid <;> rfl
  | tel number mark => cases number <;> rfl
  | _ => rfl

theorem countP_valued (es : List Element) :
    es.countP Element.valued =
      es.countP (fun e => e.vcard4.isSome) + es.countP Element.isKeywords := by
  induction es with
  | nil => rfl
  | cons e es ih =>
    have hkeywords : e.isKeywords = true → e.valued = true := by
      intro h
      cases e with
      | keywords first rest => rfl
      | _ => cases h
    rw [List.countP_cons, List.countP_cons, List.countP_cons, ih, isSome_vcard4]
    cases hv : e.valued <;> cases hk : e.isKeywords
    · simp
    · rw [hkeywords hk] at hv
      cases hv
    · simp
      omega
    · simp
      omega

variable {vcard : VCard}

theorem filterMap_of_unbroken (h : vcard.Unbroken) : vcard.elements.filterMap Element.vcard4 =
        (vcard.elements.takeWhile fun e => !e.stray).filterMap Element.vcard4 ∧
      vcard.elements.filter Element.valued =
        (vcard.elements.takeWhile fun e => !e.stray).filter fun e => e.vcard4.isSome := by
  obtain ⟨hkeywords, hvalued⟩ := h
  have hsplit := List.takeWhile_append_dropWhile (p := fun e : Element => !e.stray)
    (l := vcard.elements)
  have hnone : (vcard.elements.dropWhile fun e => !e.stray).filterMap Element.vcard4 = [] := by
    refine List.filterMap_eq_nil_iff.mpr fun e he => ?_
    rw [← Option.not_isSome_iff_eq_none, isSome_vcard4, hvalued e he, Bool.false_and]
    exact Bool.false_ne_true
  have hempty : (vcard.elements.dropWhile fun e => !e.stray).filter Element.valued = [] := by
    refine List.filter_eq_nil_iff.mpr fun e he => ?_
    rw [hvalued e he]
    decide
  constructor
  · conv_lhs => rw [← hsplit, List.filterMap_append, hnone, List.append_nil]
  · conv_lhs => rw [← hsplit, List.filter_append, hempty, List.append_nil]
    refine List.filter_congr fun e he => ?_
    rw [isSome_vcard4, hkeywords e ((List.takeWhile_sublist _).subset he)]
    simp

theorem roundTrips_of_unbroken (service : Service) (succeeds : ∀ p, service.publish p = none)
    (avatars : List Avatar) (stored : Option Node) (h : vcard.Unbroken) :
    RoundTrips service avatars stored vcard := by
  obtain ⟨hmap, hfilter⟩ := filterMap_of_unbroken h
  obtain ⟨item, tail, more, hset, hitem, htail⟩ := set_spec service vcard succeeds
  obtain ⟨answer, fn, n, rs, photos, hget, hchildren, hfn, hn, hrs, hphotos⟩ :=
    get_spec vcard hitem htail avatars stored
  have hholds : Holds vcard item := by
    refine ⟨.elem (vcardFrame vcard).name (vcardFrame vcard).attr
      (fnNode vcard.fn :: nNode vcard.n ::
        ((vcard.elements.takeWhile fun e => !e.stray).filterMap Element.vcard4 ++ tail)), ?_,
      rfl, ?_⟩
    · rw [Node.tags, hitem]
      rfl
    · rw [hmap]
      exact ((List.sublist_append_left _ tail).cons (nNode vcard.n)).cons (fnNode vcard.fn)
  refine ⟨item, answer, hset, hholds, hget, fn, n, rs, photos, hchildren, hfn, hn, ?_, hphotos⟩
  rw [hfilter]
  exact hrs

theorem unbroken_of_roundTrips (service : Service) (succeeds : ∀ p, service.publish p = none)
    (avatars : List Avatar) (stored : Option Node)
    (h : RoundTrips service avatars stored vcard) : vcard.Unbroken := by
  obtain ⟨item, answer, hset, -, hget, fn, n, returned, photos, hchildren, -, -, hreturned,
    hphotos⟩ := h
  obtain ⟨item', tail, more, hset', hitem, htail⟩ := set_spec service vcard succeeds
  rw [hset'] at hset
  cases hset
  obtain ⟨answer', fn', n', rs, photos', hget', hchildren', -, -, hrs, hphotos'⟩ :=
    get_spec vcard hitem htail avatars stored
  rw [hget'] at hget
  cases hget
  rw [hchildren'] at hchildren
  -- photos apart, the answer has as many children as properties were found
  have hphoto : ∀ {ps : List Node}, (∀ p ∈ ps, p.name = "PHOTO".toList) →
      ps.filter (fun p => p.name ≠ "PHOTO".toList) = [] := by
    intro ps hps
    exact List.filter_eq_nil_iff.mpr fun p hp hne => of_decide_eq_true hne (hps p hp)
  have hkept : ∀ {es : List Element} {cs : List Node}, List.Forall₂ Element.Says es cs →
      cs.filter (fun p => p.name ≠ "PHOTO".toList) = cs := by
    intro es cs hcs
    induction hcs with
    | nil => rfl
    | cons hec _ ih => rw [List.filter_cons_of_pos (by exact decide_eq_true (name_ne_photo hec)), ih]
  have hsame : rs = returned := by
    have heq := congrArg (fun l : List Node => (l.drop 2).filter
      fun p => p.name ≠ "PHOTO".toList) hchildren
    simp only [List.drop_succ_cons, List.drop_zero, List.filter_append] at heq
    rw [hkept hrs, hkept hreturned, hphoto hphotos, hphoto hphotos', List.append_nil,
      List.append_nil] at heq
    exact heq
  have hlength := hreturned.length_eq
  rw [← hsame, ← hrs.length_eq, ← List.countP_eq_length_filter, ← List.countP_eq_length_filter,
    countP_valued] at hlength
  have hsplit : ∀ f : Element → Bool, vcard.elements.countP f =
      (vcard.elements.takeWhile fun e => !e.stray).countP f +
        (vcard.elements.dropWhile fun e => !e.stray).countP f := by
    intro f
    rw [← List.countP_append, List.takeWhile_append_dropWhile]
  have hsome := hsplit fun e => e.vcard4.isSome
  have hkeywords := hsplit Element.isKeywords
  have hdrop := countP_valued (vcard.elements.dropWhile fun e => !e.stray)
  have hnone : vcard.elements.countP Element.isKeywords = 0 := by omega
  have hlost : (vcard.elements.dropWhile fun e => !e.stray).countP Element.valued = 0 := by omega
  constructor
  · intro e he
    exact Bool.eq_false_iff.mpr (List.countP_eq_zero.mp hnone e he)
  · intro e he
    exact Bool.eq_false_iff.mpr (List.countP_eq_zero.mp hlost e he)

theorem roundTrips_iff_unbroken (service : Service) (succeeds : ∀ p, service.publish p = none)
    (avatars : List Avatar) (stored : Option Node) (vcard : VCard) :
    RoundTrips service avatars stored vcard ↔ vcard.Unbroken :=
  ⟨unbroken_of_roundTrips service succeeds avatars stored,
    roundTrips_of_unbroken service succeeds avatars stored⟩

/-! ### Two vCards -/

def tempAttr : Table Text Text := attrs [("xmlns".toList, some "vcard-temp".toList)]

def fnAnn : Node := leaf "FN".toList tempAttr (some "Ann".toList)

def emptyN : Node := leaf "N".toList tempAttr none

def homeTel (number : Option Text) : Node :=
  .elem "TEL".toList tempAttr (leaf "HOME".toList tempAttr none ::
    number.toList.map fun t => leaf "NUMBER".toList tempAttr (some t))

def noteHi : Node := leaf "NOTE".toList tempAttr (some "hi".toList)

/-- A name, a telephone number at home and a note. -/
def ann (number : Option Text) : VCard where
  node := .elem "vCard".toList tempAttr [fnAnn, emptyN, homeTel number, noteHi]
  elements := [.fn "Ann".toList, .n fun _ => [], .tel number (some .home),
    .simple .note "hi".toList]
  content := by
    have hn : (Element.n fun _ => []).Says emptyN := ⟨rfl, fun p => by cases p <;> rfl⟩
    have htel : (Element.tel number (some .home)).Says (homeTel number) := by
      refine ⟨rfl, ?_, fun m => ?_⟩
      · cases number with
        | none => rfl
        | some t => exact Node.getText_leaf "NUMBER".toList tempAttr (some t)
      · cases number <;> cases m <;> rfl
    exact .cons ⟨rfl, rfl⟩ (.cons hn (.cons htel (.cons ⟨rfl, rfl⟩ .nil)))
  fn := "Ann".toList
  n := fun _ => []
  fn_once := rfl
  n_once := rfl

def accepting : Service where
  publish := fun _ => none
  base64Decode := some
  sha1 := id

theorem ann_unbroken (t : Text) : (ann (some t)).Unbroken := by
  constructor
  · intro e he
    simp only [ann, List.mem_cons, List.not_mem_nil, or_false] at he
    rcases he with rfl | rfl | rfl | rfl <;> rfl
  · intro e he
    cases he

theorem ann_roundTrips : RoundTrips accepting [] none (ann (some "1".toList)) :=
  (roundTrips_iff_unbroken accepting (fun _ => rfl) [] none _).mpr (ann_unbroken _)

/-- The note after the telephone number without a number lands outside the `<vcard/>`. -/
theorem ann_not_roundTrips : ¬ RoundTrips accepting [] none (ann none) := by
  intro h
  have hlost := (unbroken_of_roundTrips accepting (fun _ => rfl) [] none h).2
    (.simple .note "hi".toList) (.tail _ (.head _))
  cases hlost

end Prosody.Pep.Vcard
