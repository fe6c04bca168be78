import Prosody.Library.Runs
import Prosody.Xml.RoundTrip

/-! # Trees from the handlers of a stream -/

namespace Prosody.Xml

inductive Sax
  | startElement (tagname : Text) (attr : Attr)
  | characterData (data : Text)
  | endElement (tagname : Text)

/-- Starts and ends match, and character data comes anywhere. -/
inductive WellNested : List Sax → Prop
  | nil : WellNested []
  | characterData (data : Text) {es : List Sax} (h : WellNested es) :
      WellNested (.characterData data :: es)
  | element (tagname : Text) (attr : Attr) {inner es : List Sax} (hinner : WellNested inner)
      (h : WellNested es) :
      WellNested (.startElement tagname attr :: (inner ++ .endElement tagname :: es))

namespace Stream

variable (C : Callbacks)

def handle (s : Stream) : Sax → Stream
  | .startElement tagname attr => s.startElement C tagname attr
  | .characterData data => s.characterData data
  | .endElement tagname => s.endElement C (some tagname)

/-- New handlers, for a session whose stream is to be opened. -/
def new : Stream := ⟨[], [], 0, true, []⟩

/-- `reset` leaves the depth as it is. -/
def reset (s : Stream) : Stream := { s with opened := [], chardata := [] }

/-- What happens to the handlers and their session. -/
inductive Call
  | sax (e : Sax)
  | reset
  | notopen (notopen : Bool)

def call (s : Stream) : Call → Stream
  | .sax e => s.handle C e
  | .reset => s.reset
  | .notopen notopen => { s with notopen }

/-- A stream that has been opened just now, whatever was before. -/
def JustOpened (s : Stream) : Prop :=
  ∃ (calls : List Call) (attr : Attr), (Machine.run (call C) new calls).opened = [] ∧
    (Machine.run (call C) new calls).notopen = true ∧
    s = (Machine.run (call C) new calls).startElement C C.openingTag attr

/-- The stack, the buffer and the depth are as they were at first. -/
structure Idle (s : Stream) : Prop where
  opened : s.opened = []
  chardata : s.chardata = []
  depth : s.nonStreamnsDepth = 0

end Stream

/-! ## The trees that events spell -/

inductive Item
  | characterData (data : Text)
  | element (tagname : Text) (attr : Attr) (content : List Item)

mutual

def Item.events : Item → List Sax
  | .characterData data => [.characterData data]
  | .element tagname attr content =>
    .startElement tagname attr :: (Item.eventsAll content ++ [.endElement tagname])

def Item.eventsAll : List Item → List Sax
  | [] => []
  | item :: items => item.events ++ Item.eventsAll items

end

def joinText (t : Text) : List Node → List Node
  | .text u :: nodes => .text (t ++ u) :: nodes
  | nodes => .text t :: nodes

namespace Callbacks

variable (C : Callbacks)

/-- One of the namespaces is not the default one. -/
def Outside (namespaces : List Text) : Prop := ∃ u ∈ namespaces, some u ≠ C.defaultNs

instance (namespaces : List Text) : Decidable (C.Outside namespaces) :=
  inferInstanceAs (Decidable (∃ u ∈ namespaces, some u ≠ C.defaultNs))

/-- The attributes of an element below elements of the namespaces `above`. -/
def attrs (above : List Text) (tagname : Text) (attr : Attr) : Table Text Text :=
  if C.Outside ((Stream.splitTag tagname).1 :: above) then
    (Stream.renameAttrs attr.names attr.values).set "xmlns".toList
      (some (Stream.splitTag tagname).1)
  else Stream.renameAttrs attr.names attr.values

end Callbacks

mutual

/-- An element and what is in it, below elements of the namespaces `above`. -/
def Item.tree (C : Callbacks) (above : List Text) : Item → Node
  | .characterData data => .text data
  | .element tagname attr content =>
    .elem (Stream.splitTag tagname).2 (C.attrs above tagname attr)
      (Item.trees C ((Stream.splitTag tagname).1 :: above) content)

/-- The children of an element, with adjacent character data in one. -/
def Item.trees (C : Callbacks) (above : List Text) : List Item → List Node
  | [] => []
  | .characterData data :: items => joinText data (Item.trees C above items)
  | .element tagname attr content :: items =>
    Item.tree C above (.element tagname attr content) :: Item.trees C above items

end

/-- How the session hears of what stands at the top level. -/
def Item.delivery (C : Callbacks) : Item → List Event
  | .characterData _ => []
  | .element tagname attr content =>
    (if (Stream.splitTag tagname).1 = "jabber:client".toList ∧
        ¬ Stream.isStanzaName (Stream.splitTag tagname).2 then [.invalidTopLevelElement]
      else []) ++
    [if tagname = C.streamErrorTag then
        .streamError (Item.tree C [] (.element tagname attr content))
      else .handlestanza (Item.tree C [] (.element tagname attr content))]

theorem WellNested.exists_items {es : List Sax} (h : WellNested es) :
    ∃ items, Item.eventsAll items = es := by
  induction h with
  | nil => exact ⟨[], rfl⟩
  | characterData data h ih =>
    obtain ⟨items, rfl⟩ := ih
    exact ⟨.characterData data :: items, rfl⟩
  | element tagname attr hinner h ihinner ih =>
    obtain ⟨content, rfl⟩ := ihinner
    obtain ⟨items, rfl⟩ := ih
    refine ⟨.element tagname attr content :: items, ?_⟩
    rw [Item.eventsAll, Item.events]
    simp

/-! ## Text in front of text -/

theorem joinText_joinText (t u : Text) (nodes : List Node) :
    joinText t (joinText u nodes) = joinText (t ++ u) nodes := by
  cases nodes with
  | nil => rfl
  | cons node nodes =>
    cases node with
    | text v => rw [joinText, joinText, joinText, List.append_assoc]
    | elem name attr children => rfl

def joinBuffer (chardata : List Text) (nodes : List Node) : List Node :=
  if chardata = [] then nodes else joinText chardata.flatten nodes

theorem joinBuffer_append (chardata : List Text) (data : Text) (nodes : List Node) :
    joinBuffer (chardata ++ [data]) nodes = joinBuffer chardata (joinText data nodes) := by
  have hne : chardata ++ [data] ≠ [] := by simp
  rw [joinBuffer, joinBuffer, if_neg hne, List.flatten_append, List.flatten_singleton]
  split_ifs with h
  · rw [h]
    rfl
  · exact (joinText_joinText _ _ _).symm

theorem joinBuffer_elem (chardata : List Text) (name : Text) (attr : Table Text Text)
    (children nodes : List Node) :
    joinBuffer chardata [] ++ .elem name attr children :: nodes =
      joinBuffer chardata (.elem name attr children :: nodes) := by
  unfold joinBuffer
  split_ifs with h
  · rfl
  · rfl

/-! ## Inside an element -/

namespace Stream

variable {C : Callbacks} {s : Stream}

theorem flush_eq (hopen : s.opened ≠ []) :
    s.flush = { s with chardata := [] }.add (joinBuffer s.chardata []) := by
  cases s with
  | mk opened chardata depth notopen events =>
    obtain ⟨o, os, rfl⟩ := List.exists_cons_of_ne_nil hopen
    by_cases h : chardata = []
    · simp [flush, add, joinBuffer, h]
    · simp [flush, add, joinBuffer, joinText, h]

theorem add_unbuffered (h : s.chardata = []) (nodes : List Node) :
    { s with chardata := [] }.add (joinBuffer s.chardata nodes) = s.add nodes := by
  cases s
  cases h
  rfl

/-- The depth counts the elements from the first one on that is outside of the default
namespace. -/
def Counts (C : Callbacks) (above : List Text) (s : Stream) : Prop :=
  0 < s.nonStreamnsDepth ↔ C.Outside above

variable {above : List Text}

theorem Counts.foreign (h : Counts C above s) (u : Text) :
    s.Foreign C u ↔ C.Outside (u :: above) := by
  have habove : 0 < s.nonStreamnsDepth ↔ C.Outside above := h
  rw [Foreign, habove]
  exact (List.exists_mem_cons_iff (fun u => some u ≠ C.defaultNs) u above).symm

theorem Counts.enter (h : Counts C above s) (s' : Stream) (u name : Text)
    (attr : Table Text Text) : Counts C (u :: above) (s'.enter name attr (depthOf C s u)) := by
  unfold Counts
  rw [← h.foreign u]
  change 0 < depthOf C s u ↔ _
  unfold depthOf
  split_ifs with hforeign
  · exact iff_of_true (Nat.succ_pos _) hforeign
  · exact iff_of_false (fun hpos => hforeign (Or.inr hpos)) hforeign

theorem renameAttrs_set_xmlns (names : List Text) (t : Table Text Text) (v : Option Text) :
    renameAttrs names (t.set "xmlns".toList v) = (renameAttrs names t).set "xmlns".toList v := by
  induction names generalizing t with
  | nil => rfl
  | cons k names ih =>
    have hcons (t : Table Text Text) : renameAttrs (k :: names) t =
        renameAttrs names ((xmlNamespace k).elim t fun xmlk =>
          (t.set xmlk (t.get k)).set k none) := rfl
    rw [hcons, hcons]
    cases hk : xmlNamespace k with
    | none => exact ih t
    | some xmlk =>
      have hkx : k ≠ "xmlns".toList := by
        rintro rfl
        have hnone : xmlNamespace "xmlns".toList = none := by decide
        exact absurd (hnone.symm.trans hk) (by simp)
      have hx : xmlk ≠ "xmlns".toList := by
        rintro rfl
        exact absurd (eq_handed hk).1 (by decide)
      rw [Option.elim_some, Option.elim_some, ← ih, Table.get_set_of_ne _ hkx,
        Table.set_comm _ hx.symm, Table.set_comm _ hkx.symm]

/-- What a start tag does, below elements of the namespaces `above`. -/
theorem Counts.startElement (h : Counts C above s) (tagname : Text)
    (attr : Attr) (hopen : s.opened = [] → s.notopen = false) : s.startElement C tagname attr =
      (if s.opened = [] then topLevel s (splitTag tagname).1 (splitTag tagname).2
        else s.flush).enter (splitTag tagname).2 (C.attrs above tagname attr)
        (depthOf C s (splitTag tagname).1) := by
  have hattrs : renameAttrs attr.names
      (if s.Foreign C (splitTag tagname).1 then
        attr.values.set "xmlns".toList (some (splitTag tagname).1)
      else attr.values) = C.attrs above tagname attr := by
    unfold Callbacks.attrs
    simp only [h.foreign]
    split_ifs with houtside
    · exact renameAttrs_set_xmlns _ _ _
    · rfl
  rw [startElement_enter s tagname attr hopen, hattrs]

theorem element_inner (h : Counts C above s) (hopen : s.opened ≠ [])
    {tagname : Text} {attr : Attr} {es : List Sax} {children : List Node}
    (hcontent : (Machine.run (handle C) (s.startElement C tagname attr) es).flush =
      { s.startElement C tagname attr with chardata := [] }.add
        (joinBuffer (s.startElement C tagname attr).chardata children)) :
    Machine.run (handle C) s (.startElement tagname attr :: (es ++ [Sax.endElement tagname])) =
      s.flush.add [.elem (splitTag tagname).2 (C.attrs above tagname attr) children] := by
  have hstart := h.startElement tagname attr (fun hnil => absurd hnil hopen)
  rw [if_neg hopen] at hstart
  have hopened : s.flush.opened ≠ [] := fun hnil => hopen ((flush_kept s).2.2.2.mp hnil)
  have hbuffer : (s.flush.enter (splitTag tagname).2 (C.attrs above tagname attr)
      (depthOf C s (splitTag tagname).1)).chardata = [] := chardata_flush hopen
  rw [hstart, add_unbuffered hbuffer] at hcontent
  have hend := @endElement_inner C _ _ _ _ _ (depthOf C s (splitTag tagname).1)
    (some tagname) hcontent hopened
  rw [depthOf_sub, ← (flush_kept s).1] at hend
  rw [Machine.run_cons, Machine.run_append, Machine.run_cons, Machine.run_nil, handle, hstart]
  exact hend

theorem added_kept (h : Counts C above s) (hopen : s.opened ≠ [])
    (node : Node) : Counts C above (s.flush.add [node]) ∧ (s.flush.add [node]).opened ≠ [] ∧
      (s.flush.add [node]).chardata = [] := by
  obtain ⟨hdepth, hbuffer, hnil⟩ := add_kept s.flush [node]
  refine ⟨?_, fun h => hopen ((flush_kept s).2.2.2.mp (hnil.mp h)), ?_⟩
  · rw [Counts, hdepth, (flush_kept s).1]
    exact h
  · rw [hbuffer, chardata_flush hopen]

/-- What is in an element becomes its children, behind those that it has. -/
theorem run_content (items : List Item) (above : List Text) (s : Stream)
    (hcounts : Counts C above s) (hopen : s.opened ≠ []) :
    (Machine.run (handle C) s (Item.eventsAll items)).flush =
      { s with chardata := [] }.add (joinBuffer s.chardata (Item.trees C above items)) := by
  match items with
  | [] => exact flush_eq hopen
  | .characterData data :: items =>
    have hdata : s.characterData data = { s with chardata := s.chardata ++ [data] } := by
      rw [characterData, if_neg hopen]
    have hrest :=
      run_content items above { s with chardata := s.chardata ++ [data] } hcounts hopen
    rw [Item.eventsAll, Item.events, List.singleton_append, Machine.run_cons, handle, hdata,
      hrest, joinBuffer_append, Item.trees]
  | .element tagname attr content :: items =>
    have hstart := hcounts.startElement tagname attr (fun hnil => absurd hnil hopen)
    rw [if_neg hopen] at hstart
    have hcontent := run_content content ((splitTag tagname).1 :: above)
      (s.startElement C tagname attr) (hstart ▸ hcounts.enter _ _ _ _)
      (hstart ▸ List.cons_ne_nil _ _)
    have helement := element_inner hcounts hopen hcontent
    rw [← Item.tree] at helement
    obtain ⟨hkept, hadded, hbuffer⟩ :=
      added_kept hcounts hopen (Item.tree C above (.element tagname attr content))
    have hrest := run_content items above _ hkept hadded
    rw [add_unbuffered hbuffer] at hrest
    rw [Item.eventsAll, Item.events, Machine.run_append, helement, hrest, add_add,
      flush_eq hopen, add_add, List.singleton_append, Item.tree, joinBuffer_elem, Item.trees,
      Item.tree]
termination_by sizeOf items

/-! ## At the top level -/

theorem Idle.counts (h : Idle s) : Counts C [] s :=
  iff_of_false (h.depth ▸ Nat.lt_irrefl 0) (fun ⟨_, hu, _⟩ => absurd hu List.not_mem_nil)

theorem topLevel_eq (s : Stream) (u name : Text) :
    topLevel s u name = { s with events := s.events ++
      if u = "jabber:client".toList ∧ ¬ isStanzaName name then [.invalidTopLevelElement]
      else [] } := by
  unfold topLevel
  split_ifs with h
  · rfl
  · rw [List.append_nil]

/-- The session hears of an element at the top level when it ends. -/
theorem element_delivered (h : Idle s) (hopen : s.notopen = false) (tagname : Text) (attr : Attr)
    (content : List Item) :
    Machine.run (handle C) s (Item.events (.element tagname attr content)) =
      { s with events := s.events ++ Item.delivery C (.element tagname attr content) } := by
  have hstart := h.counts.startElement (C := C) tagname attr (fun _ => hopen)
  rw [if_pos h.opened, topLevel_eq] at hstart
  have hcontent := run_content content [(splitTag tagname).1] (s.startElement C tagname attr)
    (hstart ▸ h.counts.enter _ _ _ _) (hstart ▸ List.cons_ne_nil _ _)
  have hbuffer : (s.startElement C tagname attr).chardata = [] := by
    rw [hstart]
    exact h.chardata
  rw [add_unbuffered hbuffer, hstart] at hcontent
  have hend := @endElement_last C _ _ _ _ _ (depthOf C s (splitTag tagname).1)
    (some tagname) hcontent h.opened
  rw [depthOf_sub] at hend
  rw [Item.events, Machine.run_cons, Machine.run_append, Machine.run_cons, Machine.run_nil, handle,
    hstart]
  refine hend.trans ?_
  rw [Item.delivery, Item.tree, emit]
  simp only [Option.some.injEq, List.append_assoc]

theorem run_delivers (items : List Item) (h : Idle s) (hopen : s.notopen = false) :
    Machine.run (handle C) s (Item.eventsAll items) =
      { s with events := s.events ++ items.flatMap (Item.delivery C) } := by
  induction items generalizing s with
  | nil => rw [List.flatMap_nil, List.append_nil, Item.eventsAll, Machine.run_nil]
  | cons item items ih =>
    have hitem : Machine.run (handle C) s item.events =
        { s with events := s.events ++ Item.delivery C item } := by
      cases item with
      | characterData data =>
        rw [Item.events, Machine.run_cons, Machine.run_nil, handle, characterData,
          if_pos h.opened, Item.delivery, List.append_nil]
      | element tagname attr content => exact element_delivered h hopen tagname attr content
    have hrest := ih (s := { s with events := s.events ++ Item.delivery C item })
      ⟨h.opened, h.chardata, h.depth⟩ hopen
    rw [Item.eventsAll, Machine.run_append, hitem, hrest, List.flatMap_cons, List.append_assoc]

/-! ## When a stream is opened -/

/-- Without an open element nothing is in the buffer. -/
def Clear (s : Stream) : Prop := s.opened = [] → s.chardata = []

theorem Clear.chardata_flush (h : Clear s) : s.flush.chardata = [] := by
  by_cases hnil : s.opened = []
  · rw [flush, hnil]
    exact h hnil
  · exact Stream.chardata_flush hnil

theorem Clear.call (h : Clear s) (c : Call) : Clear (s.call C c) := by
  cases c with
  | reset => exact fun _ => rfl
  | notopen b => exact h
  | sax e =>
    cases e with
    | startElement tagname attr =>
      intro _
      change (s.startElement C tagname attr).chardata = []
      have hflush := h.chardata_flush
      unfold startElement
      dsimp only
      split_ifs <;> exact hflush
    | characterData data =>
      intro hnil
      change (s.characterData data).chardata = []
      unfold characterData
      split_ifs with hopen
      · exact h hopen
      · exact absurd hnil (by simp [Stream.call, handle, characterData, hopen])
    | endElement tagname =>
      intro _
      have hflush : Clear { s with nonStreamnsDepth := s.nonStreamnsDepth - 1 } := h
      change (s.endElement C (some tagname)).chardata = []
      unfold endElement
      dsimp only
      split
      · exact hflush.chardata_flush
      · exact hflush.chardata_flush
      · exact hflush.chardata_flush

/-- The tag that opens a stream leaves nothing of what was before. -/
theorem startElement_opens (h : Clear s) (hopened : s.opened = []) (hnotopen : s.notopen = true)
    (attr : Attr) :
    Idle (s.startElement C C.openingTag attr) ∧
      (s.startElement C C.openingTag attr).notopen = false := by
  have hflush : s.flush = s := by rw [flush, hopened]
  unfold startElement
  rw [hflush]
  by_cases hforeign : s.Foreign C (splitTag C.openingTag).1
  · simp only [if_pos hforeign, if_pos hopened, if_pos hnotopen, if_true]
    exact ⟨⟨hopened, h hopened, rfl⟩, rfl⟩
  · simp only [if_neg hforeign, if_pos hopened, if_pos hnotopen, if_true]
    exact ⟨⟨hopened, h hopened, rfl⟩, rfl⟩

theorem JustOpened.idle (h : JustOpened C s) : Idle s ∧ s.notopen = false := by
  obtain ⟨calls, attr, hopened, hnotopen, rfl⟩ := h
  have hclear : Clear (Machine.run (call C) new calls) :=
    Machine.run_invariant (fun s c hs => hs.call c) (fun _ => rfl) calls
  exact startElement_opens hclear hopened hnotopen attr

end Stream

/-- Once a stream has been opened, the handlers deliver what is at the top level in order, each
element as the tree of its events, and are as they were before each of them. -/
theorem trees_delivered (C : Callbacks) (s : Stream) (es : List Sax)
    (hopened : s.JustOpened C) (hnested : WellNested es) :
    s.Idle ∧ ∃ items, Item.eventsAll items = es ∧
      (∀ front, front <+: items → Machine.run (Stream.handle C) s (Item.eventsAll front) =
        { s with events := s.events ++ front.flatMap (Item.delivery C) }) ∧
      ∀ above tagname attr, attr.values.get "xmlns".toList = none →
        ((C.attrs above tagname attr).get "xmlns".toList =
          if C.Outside ((Stream.splitTag tagname).1 :: above) then some (Stream.splitTag tagname).1
          else none) := by
  obtain ⟨hidle, hopen⟩ := hopened.idle
  obtain ⟨items, hitems⟩ := hnested.exists_items
  refine ⟨hidle, items, hitems, fun front _ => Stream.run_delivers front hidle hopen, ?_⟩
  intro above tagname attr hnone
  unfold Callbacks.attrs
  split_ifs with houtside
  · exact Table.get_set_self _ _ _
  · rw [get_renameAttrs_xmlns, hnone]

/-! ## A stream that is opened again in the midst of a stanza -/

/-- A stream is opened, a stanza of another namespace begins, and the stream is reset. -/
def interrupted : List Stream.Call :=
  [.sax (.startElement clientCallbacks.openingTag ⟨[], ∅⟩),
    .sax (.startElement (streamsNs ++ nsSeparator :: "features".toList) ⟨[], ∅⟩), .reset,
    .notopen true]

/-- The stream after its second header. -/
def restarted : Stream :=
  (Machine.run (Stream.call clientCallbacks) Stream.new interrupted).startElement clientCallbacks
    clientCallbacks.openingTag ⟨[], ∅⟩

/-- A message with a text in two pieces. -/
def spoken : List Sax :=
  .startElement ("jabber:client".toList ++ nsSeparator :: "message".toList) ⟨[], ∅⟩ ::
    ([.characterData "Wherefore ".toList, .characterData "art thou".toList] ++
      .endElement ("jabber:client".toList ++ nsSeparator :: "message".toList) :: [])

theorem spoken_delivered :
    restarted.Idle ∧ ∃ items, Item.eventsAll items = spoken ∧
      Machine.run (Stream.handle clientCallbacks) restarted (Item.eventsAll items) =
        { restarted with
          events := restarted.events ++ items.flatMap (Item.delivery clientCallbacks) } := by
  have hopened : restarted.JustOpened clientCallbacks :=
    ⟨interrupted, ⟨[], ∅⟩, rfl, rfl, rfl⟩
  have hnested : WellNested spoken :=
    .element _ _ (.characterData _ (.characterData _ .nil)) .nil
  obtain ⟨hidle, items, hitems, hrun, -⟩ :=
    trees_delivered clientCallbacks restarted spoken hopened hnested
  exact ⟨hidle, items, hitems, hrun items List.prefix_rfl⟩

end Prosody.Xml
