import Mathlib.Logic.Function.Basic
import Prosody.Library.Runs
import Prosody.Xml.Builder

/-! # Stanzas as objects (`util/stanza.lua`)

A stanza is a table, and two stanzas may have a third one among their children. Tables of attributes
are values here: none is changed in place but by `deserialize`, which renames attributes. -/

namespace Prosody.Xml

/-- Which table it is. -/
abbrev Ref := ℕ

inductive Child
  | text (s : Text)
  | elem (r : Ref)
  deriving DecidableEq

def Child.ref : Child → Option Ref
  | .text _ => none
  | .elem r => some r

def refs (children : List Child) : List Ref := children.filterMap Child.ref

@[simp] theorem refs_text (t : Text) (children : List Child) :
    refs (.text t :: children) = refs children := rfl

@[simp] theorem refs_elem (r : Ref) (children : List Child) :
    refs (.elem r :: children) = r :: refs children := rfl

@[simp] theorem refs_append (front back : List Child) :
    refs (front ++ back) = refs front ++ refs back := List.filterMap_append

/-- The children stand in the table itself, and those that are elements once more in `tags`. The
cursor is the last of `lastAdd`. -/
structure Stanza where
  name : Text
  attr : Table Text Text
  namespaces : Option (Table Text Text)
  tags : List Ref
  children : List Child
  lastAdd : Option (List Ref)

namespace Stanza

def new (name : Text) (attr : Table Text Text) (namespaces : Option (Table Text Text)) : Stanza :=
  ⟨name, attr, namespaces, [], [], none⟩

def addDirectChild (s : Stanza) (child : Child) : Stanza :=
  match child with
  | .elem r => { s with tags := s.tags ++ [r], children := s.children ++ [.elem r] }
  | .text t => { s with children := s.children ++ [.text t] }

@[simp] theorem children_addDirectChild (s : Stanza) (child : Child) :
    (s.addDirectChild child).children = s.children ++ [child] := by
  cases child with
  | text t => rfl
  | elem r => rfl

@[simp] theorem tags_addDirectChild (s : Stanza) (child : Child) :
    (s.addDirectChild child).tags = s.tags ++ refs [child] := by
  cases child with
  | text t => exact (List.append_nil _).symm
  | elem r => rfl

@[simp] theorem name_addDirectChild (s : Stanza) (child : Child) :
    (s.addDirectChild child).name = s.name := by
  cases child with
  | text t => rfl
  | elem r => rfl

@[simp] theorem attr_addDirectChild (s : Stanza) (child : Child) :
    (s.addDirectChild child).attr = s.attr := by
  cases child with
  | text t => rfl
  | elem r => rfl

/-- The element under the cursor, which is the stanza itself at first. -/
def cursor (s : Stanza) (self : Ref) : Ref := (s.lastAdd.bind List.getLast?).getD self

end Stanza

/-- What stands in every table, and the next table to be made. -/
structure Heap where
  stanzas : Ref → Stanza
  next : Ref

namespace Heap

def empty : Heap := ⟨fun _ => .new [] ∅ none, 0⟩

def alloc (h : Heap) (s : Stanza) : Heap × Ref :=
  (⟨Function.update h.stanzas h.next s, h.next + 1⟩, h.next)

def modify (h : Heap) (r : Ref) (f : Stanza → Stanza) : Heap :=
  { h with stanzas := Function.update h.stanzas r (f (h.stanzas r)) }

@[simp] theorem alloc_self (h : Heap) (s : Stanza) : (h.alloc s).1.stanzas h.next = s :=
  Function.update_self ..

theorem alloc_of_ne (h : Heap) {q : Ref} (hq : q ≠ h.next) (s : Stanza) :
    (h.alloc s).1.stanzas q = h.stanzas q := Function.update_of_ne hq _ _

@[simp] theorem modify_self (h : Heap) (r : Ref) (f : Stanza → Stanza) :
    (h.modify r f).stanzas r = f (h.stanzas r) := Function.update_self ..

theorem modify_of_ne (h : Heap) {q r : Ref} (hq : q ≠ r) (f : Stanza → Stanza) :
    (h.modify r f).stanzas q = h.stanzas q := Function.update_of_ne hq _ _

def stanza (h : Heap) (name : Text) (attr : Table Text Text)
    (namespaces : Option (Table Text Text)) : Heap × Ref :=
  h.alloc (.new name attr namespaces)

def addDirectChild (h : Heap) (self : Ref) (child : Child) : Heap :=
  h.modify self fun s => s.addDirectChild child

def addChild (h : Heap) (self : Ref) (child : Child) : Heap :=
  h.addDirectChild ((h.stanzas self).cursor self) child

def tag (h : Heap) (self : Ref) (name : Text) (attr : Table Text Text)
    (namespaces : Option (Table Text Text)) : Heap :=
  let (h, s) := h.stanza name attr namespaces
  (h.addChild self (.elem s)).modify self fun t =>
    { t with lastAdd := some (t.lastAdd.getD [] ++ [s]) }

def text (h : Heap) (self : Ref) (text : Option Text) : Heap :=
  if text.getD [] = [] then h else h.addChild self (.text (text.getD []))

def up (h : Heap) (self : Ref) : Heap :=
  h.modify self fun s => { s with lastAdd := s.lastAdd.map List.dropLast }

def reset (h : Heap) (self : Ref) : Heap := h.modify self fun s => { s with lastAdd := none }

end Heap

/-! ## `maptags` -/

/-- What a callback returns for a tag, knowing those that it was called for before. -/
abbrev Callback := List Ref → Ref → Option Ref

/-- The variables of the loop. Positions count from one. -/
structure Mapping where
  self : List Child
  tags : List Ref
  i : ℕ
  currTag : ℕ
  nTags : ℕ
  called : List Ref

namespace Mapping

/-- One iteration, unless it calls the callback with nil. -/
def iterate (callback : Callback) (m : Mapping) : Option Mapping :=
  match m.self[m.i - 1]?, m.tags[m.currTag - 1]? with
  | none, none => none
  | some (.elem r), some r' =>
    if r = r' then
      match callback m.called r with
      | none =>
        let m := { m with
          self := m.self.eraseIdx (m.i - 1), tags := m.tags.eraseIdx (m.currTag - 1),
          nTags := m.nTags - 1, i := m.i - 1, currTag := m.currTag - 1,
          called := m.called ++ [r] }
        some { m with currTag := m.currTag + 1, i := m.i + 1 }
      | some ret =>
        let m := { m with
          self := m.self.set (m.i - 1) (.elem ret), tags := m.tags.set (m.currTag - 1) ret,
          called := m.called ++ [r] }
        some { m with currTag := m.currTag + 1, i := m.i + 1 }
    else some { m with i := m.i + 1 }
  | _, _ => some { m with i := m.i + 1 }

theorem iterate_decreases {callback : Callback} {m m' : Mapping} (h : m.iterate callback = some m')
    {maxIterations : ℕ} (htags : 0 < m.nTags) (hi : ¬ m'.i > maxIterations) :
    maxIterations + 1 - m'.i + m'.nTags < maxIterations + 1 - m.i + m.nTags := by
  unfold iterate at h
  split at h
  · exact absurd h (by simp)
  · split at h
    · split at h
      · cases h
        dsimp only at hi ⊢
        omega
      · cases h
        dsimp only at hi ⊢
        omega
    · cases h
      dsimp only at hi ⊢
      omega
  · cases h
    dsimp only at hi ⊢
    omega

/-- The loop, which raises an error after too many iterations. -/
def loop (callback : Callback) (maxIterations : ℕ) (m : Mapping) : Option Mapping :=
  if _htags : m.currTag ≤ m.nTags ∧ 0 < m.nTags then
    match _hm : m.iterate callback with
    | none => none
    | some m' => if _hi : m'.i > maxIterations then none else loop callback maxIterations m'
  else some m
termination_by maxIterations + 1 - m.i + m.nTags
decreasing_by exact iterate_decreases _hm _htags.2 _hi

end Mapping

namespace Heap

/-- `maptags`, with the tags that the callback was called for. -/
def maptags (h : Heap) (self : Ref) (callback : Callback) : Option (Heap × List Ref) :=
  let s := h.stanzas self
  let start : Mapping := ⟨s.children, s.tags, 1, 1, s.tags.length, []⟩
  (start.loop callback (s.children.length + 1)).map fun m =>
    (h.modify self fun s => { s with children := m.self, tags := m.tags }, m.called)

def removeChildren (h : Heap) (self : Ref) (name xmlns : Option Text) : Option (Heap × List Ref) :=
  let xmlns := xmlns.or ((h.stanzas self).attr.get "xmlns".toList)
  h.maptags self fun _ tag =>
    if (name = none ∨ some (h.stanzas tag).name = name) ∧
      (h.stanzas tag).attr.get "xmlns".toList = xmlns then none
    else some tag

/-! ## Copies -/

/-- The children of a copy, one after the other. -/
def cloneChildren (clone : Heap → Ref → Option (Heap × Ref)) (new : Ref) :
    List Child → Heap → Option Heap
  | [], h => some h
  | .text t :: children, h => cloneChildren clone new children (h.addDirectChild new (.text t))
  | .elem r :: children, h =>
    (clone h r).bind fun (h, child) =>
      cloneChildren clone new children (h.addDirectChild new (.elem child))

/-- `clone` within a stack of some depth. -/
def clone : ℕ → Heap → Ref → Option (Heap × Ref)
  | 0, _, _ => none
  | depth + 1, h, r =>
    let stanza := h.stanzas r
    let (h, new) := h.stanza stanza.name stanza.attr stanza.namespaces
    (cloneChildren (clone depth) new stanza.children h).map fun h => (h, new)

def preserializeChildren (preserialize : Ref → Option Node) : List Child → Option (List Node)
  | [] => some []
  | .text t :: children =>
    (preserializeChildren preserialize children).map fun nodes => .text t :: nodes
  | .elem r :: children =>
    (preserialize r).bind fun node =>
      (preserializeChildren preserialize children).map fun nodes => node :: nodes

/-- `preserialize` within a stack of some depth. The tables that it makes are no stanzas; they are
known by nothing else, and are the tree that they hold. -/
def preserialize (h : Heap) : ℕ → Ref → Option Node
  | 0, _ => none
  | depth + 1, r =>
    (preserializeChildren (h.preserialize depth) (h.stanzas r).children).map fun children =>
      .elem (h.stanzas r).name (h.stanzas r).attr children

end Heap

/-- The name of an attribute with its namespace behind a separator, unless one of the two is
missing. -/
def unbar (att : Text) : Option Text :=
  let ns := att.takeWhile (· ≠ '|')
  let na := (att.dropWhile (· ≠ '|')).tail
  if ns = [] ∨ na = [] then none else some (ns ++ nsSeparator :: na)

/-- The attributes whose names are rewritten. -/
def barred (att : Text) : Bool := '|' ∈ att ∧ nsSeparator ∉ att

def unbarAttr (pairs : KeyOrder Text) (attr : Table Text Text) : Option (Table Text Text) :=
  let atts := (pairs.keys attr.keys).filter barred
  (atts.mapM fun att => (unbar att).map fun name => (name, attr.get att)).map fun attrx =>
    attrx.foldl (fun attr x => attr.set x.1 x.2)
      (atts.foldl (fun attr att => attr.set att none) attr)

mutual

/-- `deserialize` of a table, which becomes a stanza. -/
def deserialize (pairs : KeyOrder Text) : Node → Heap → Option (Heap × Child)
  | .text t, h => some (h, .text t)
  | .elem name attr children, h =>
    (unbarAttr pairs attr).bind fun attr =>
      let (h, stanza) := h.stanza name attr none
      (deserializeAll pairs children h).map fun (h, children) =>
        (h.modify stanza fun s =>
          { s with children := children, tags := refs children }, .elem stanza)

def deserializeAll (pairs : KeyOrder Text) : List Node → Heap → Option (Heap × List Child)
  | [], h => some (h, [])
  | node :: nodes, h =>
    (deserialize pairs node h).bind fun (h, child) =>
      (deserializeAll pairs nodes h).map fun (h, children) => (h, child :: children)

end

/-- `deserialize(preserialize(s))`. -/
def Heap.roundTrip (pairs : KeyOrder Text) (depth : ℕ) (h : Heap) (r : Ref) :
    Option (Heap × Child) :=
  (h.preserialize depth r).bind fun node => deserialize pairs node h

/-! ## Runs -/

inductive Op
  | stanza (name : Text) (attr : Table Text Text) (namespaces : Option (Table Text Text))
  | tag (r : Ref) (name : Text) (attr : Table Text Text) (namespaces : Option (Table Text Text))
  | text (r : Ref) (text : Option Text)
  | up (r : Ref)
  | reset (r : Ref)
  | addChild (r : Ref) (child : Child)
  | addDirectChild (r : Ref) (child : Child)
  | maptags (r : Ref) (callback : Callback)
  | removeChildren (r : Ref) (name xmlns : Option Text)
  | clone (depth : ℕ) (r : Ref)
  | roundTrip (depth : ℕ) (r : Ref)

/-- What an operation does, unless it raises an error. -/
def Op.apply (pairs : KeyOrder Text) (h : Heap) : Op → Option Heap
  | .stanza name attr namespaces => some (h.stanza name attr namespaces).1
  | .tag r name attr namespaces => some (h.tag r name attr namespaces)
  | .text r t => some (h.text r t)
  | .up r => some (h.up r)
  | .reset r => some (h.reset r)
  | .addChild r child => some (h.addChild r child)
  | .addDirectChild r child => some (h.addDirectChild r child)
  | .maptags r callback => (h.maptags r callback).map Prod.fst
  | .removeChildren r name xmlns => (h.removeChildren r name xmlns).map Prod.fst
  | .clone depth r => (h.clone depth r).map Prod.fst
  | .roundTrip depth r => (h.roundTrip pairs depth r).map Prod.fst

def Heap.step (pairs : KeyOrder Text) (h : Heap) (op : Op) : Heap := (op.apply pairs h).getD h

end Prosody.Xml
