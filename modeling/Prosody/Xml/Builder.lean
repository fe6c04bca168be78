import Prosody.Xml.Stanza
import Mathlib.Data.List.Find

/-! # Building and reading stanzas (`util/stanza.lua`) -/

namespace Prosody.Xml

namespace Node

def name : Node → Text
  | .text _ => []
  | .elem name _ _ => name

def attr : Node → Table Text Text
  | .text _ => ∅
  | .elem _ attr _ => attr

def children : Node → List Node
  | .text _ => []
  | .elem _ _ children => children

def xmlns (node : Node) : Option Text := node.attr.get "xmlns".toList

/-- `is_stanza`. -/
def isStanza : Node → Bool
  | .text _ => false
  | .elem _ _ _ => true

def tags (node : Node) : List Node := node.children.filter isStanza

/-- What `get_child` and `childtags` ask of a child. -/
def selects (owner : Node) (name xmlns : Option Text) (child : Node) : Bool :=
  (name = none ∨ name = some child.name) ∧
    ((xmlns = none ∧ owner.xmlns = child.xmlns) ∨ child.xmlns = xmlns)

def getChild (node : Node) (name : Text) (xmlns : Option Text) : Option Node :=
  node.tags.find? (node.selects (some name) xmlns)

/-- `childtags` without a name. -/
def childtags (node : Node) : List Node := node.tags.filter (node.selects none none)

/-- A piece of text among the children, as `table.concat` reads it. -/
def piece : Node → Text
  | .text s => s
  | .elem _ _ _ => []

def getText (node : Node) : Option Text :=
  if node.tags = [] then some (node.children.flatMap piece) else none

def getChildText (node : Node) (name : Text) : Option Text :=
  (node.getChild name none).bind getText

/-- `find` on a path of names that ends in `#`. -/
def findText : List Text → Node → Option Text
  | [], _ => none
  | [name], node => node.getChildText name
  | name :: path, node => (node.getChild name none).bind (findText path)

def leaf (name : Text) (attr : Table Text Text) (text : Option Text) : Node :=
  .elem name attr (if text.getD [] = [] then [] else [.text (text.getD [])])

end Node

/-- An element whose children are still being added. -/
structure Frame where
  name : Text
  attr : Table Text Text
  children : List Node

namespace Frame

def addDirectChild (frame : Frame) (child : Node) : Frame :=
  { frame with children := frame.children ++ [child] }

def node (frame : Frame) : Node := .elem frame.name frame.attr frame.children

end Frame

/-- A stanza with its cursor: `lastAdd` is the field `last_add`, innermost element first. An
element joins its parent when the cursor leaves it. -/
structure Builder where
  root : Frame
  lastAdd : List Frame

namespace Builder

def stanza (name : Text) (attr : Table Text Text) : Builder := ⟨⟨name, attr, []⟩, []⟩

def addChild (b : Builder) (child : Node) : Builder :=
  match b.lastAdd with
  | [] => { b with root := b.root.addDirectChild child }
  | frame :: frames => { b with lastAdd := frame.addDirectChild child :: frames }

def tag (b : Builder) (name : Text) (attr : Table Text Text) : Builder :=
  { b with lastAdd := ⟨name, attr, []⟩ :: b.lastAdd }

def text (b : Builder) (text : Option Text) : Builder :=
  if text.getD [] = [] then b else b.addChild (.text (text.getD []))

/-- With nothing left to leave, the cursor stays where it is. -/
def up (b : Builder) : Builder :=
  match b.lastAdd with
  | [] => b
  | frame :: frames => { b with lastAdd := frames }.addChild frame.node

def textTag (b : Builder) (name : Text) (text : Option Text) : Builder :=
  ((b.tag name ∅).text text).up

/-- The stanza as it is, wherever the cursor stands. -/
def node (b : Builder) : Node := (b.lastAdd.foldl (fun b _ => b.up) b).root.node

def addChildren (b : Builder) (children : List Node) : Builder := children.foldl addChild b

end Builder

/-! ### What the accessors find -/

namespace Node

@[simp] theorem name_elem (name : Text) (attr : Table Text Text) (children : List Node) :
    (elem name attr children).name = name := rfl

@[simp] theorem attr_elem (name : Text) (attr : Table Text Text) (children : List Node) :
    (elem name attr children).attr = attr := rfl

@[simp] theorem children_elem (name : Text) (attr : Table Text Text) (children : List Node) :
    (elem name attr children).children = children := rfl

@[simp] theorem name_leaf (name : Text) (attr : Table Text Text) (text : Option Text) :
    (leaf name attr text).name = name := rfl

@[simp] theorem attr_leaf (name : Text) (attr : Table Text Text) (text : Option Text) :
    (leaf name attr text).attr = attr := rfl

@[simp] theorem tags_leaf (name : Text) (attr : Table Text Text) (text : Option Text) :
    (leaf name attr text).tags = [] := by
  unfold leaf tags
  split <;> rfl

@[simp] theorem getText_leaf (name : Text) (attr : Table Text Text) (text : Option Text) :
    (leaf name attr text).getText = some (text.getD []) := by
  rw [getText, if_pos (tags_leaf name attr text)]
  unfold leaf
  split
  · rename_i h
    simp [h]
  · simp [piece]

/-- The child that a parent takes for its own: an element of the parent's namespace or of
none. -/
def Own (xmlns : Option Text) (child : Node) : Prop :=
  child.isStanza = true ∧ (child.xmlns = xmlns ∨ child.xmlns = none)

theorem selects_of_own {owner child : Node} (h : Own owner.xmlns child) (name : Option Text) :
    owner.selects name none child = decide (name = none ∨ name = some child.name) := by
  have hns : owner.xmlns = child.xmlns ∨ child.xmlns = none := h.2.imp_left Eq.symm
  simp [selects, hns]

theorem tags_eq_children {node : Node} (h : ∀ c ∈ node.children, Own node.xmlns c) :
    node.tags = node.children :=
  List.filter_eq_self.mpr fun c hc => (h c hc).1

theorem getChild_eq {node : Node} (h : ∀ c ∈ node.children, Own node.xmlns c) (name : Text) :
    node.getChild name none = node.children.find? (fun c => name = c.name) := by
  rw [getChild, tags_eq_children h]
  refine List.find?_congr fun c hc => ?_
  rw [selects_of_own (h c hc)]
  simp

theorem getChild_eq_childtags (node : Node) (name : Text) :
    node.getChild name none = node.childtags.find? (fun c => name = c.name) := by
  rw [getChild, childtags, List.find?_filter]
  refine List.find?_congr fun c _ => ?_
  simp [selects, and_comm]

theorem childtags_eq {node : Node} (h : ∀ c ∈ node.children, Own node.xmlns c) :
    node.childtags = node.children := by
  rw [childtags, tags_eq_children h]
  refine List.filter_eq_self.mpr fun c hc => ?_
  rw [selects_of_own (h c hc)]
  simp

end Node

/-! ### Where the cursor stands -/

namespace Builder

open Node

@[simp] theorem addChildren_nil (b : Builder) : b.addChildren [] = b := rfl

theorem addChildren_cons (b : Builder) (c : Node) (cs : List Node) :
    b.addChildren (c :: cs) = (b.addChild c).addChildren cs := rfl

@[simp] theorem addChildren_append (b : Builder) (cs ds : List Node) :
    b.addChildren (cs ++ ds) = (b.addChildren cs).addChildren ds := List.foldl_append

theorem addChild_eq (b : Builder) (c : Node) : b.addChild c = b.addChildren [c] := rfl

theorem addChildren_root (root : Frame) (cs : List Node) :
    addChildren ⟨root, []⟩ cs = ⟨{ root with children := root.children ++ cs }, []⟩ := by
  induction cs generalizing root with
  | nil => simp
  | cons c cs ih =>
    rw [addChildren_cons]
    change addChildren ⟨root.addDirectChild c, []⟩ cs = _
    rw [ih]
    simp [Frame.addDirectChild]

theorem addChildren_inner (root frame : Frame) (frames : List Frame) (cs : List Node) :
    addChildren ⟨root, frame :: frames⟩ cs =
      ⟨root, { frame with children := frame.children ++ cs } :: frames⟩ := by
  induction cs generalizing frame with
  | nil => simp
  | cons c cs ih =>
    rw [addChildren_cons]
    change addChildren ⟨root, frame.addDirectChild c :: frames⟩ cs = _
    rw [ih]
    simp [Frame.addDirectChild]

/-- An element opened, filled and left is one child more. -/
theorem up_addChildren_tag (b : Builder) (name : Text) (attr : Table Text Text)
    (cs : List Node) : ((b.tag name attr).addChildren cs).up = b.addChild (.elem name attr cs) := by
  rw [tag, addChildren_inner]
  rfl

theorem up_tag (b : Builder) (name : Text) (attr : Table Text Text) :
    (b.tag name attr).up = b.addChild (.elem name attr []) := rfl

theorem text_eq (b : Builder) (t : Option Text) :
    b.text t = b.addChildren (if t.getD [] = [] then [] else [.text (t.getD [])]) := by
  unfold text
  split
  · rfl
  · rfl

theorem textTag_eq (b : Builder) (name : Text) (t : Option Text) :
    b.textTag name t = b.addChild (leaf name ∅ t) := by
  rw [textTag, text_eq, up_addChildren_tag]
  rfl

theorem node_root (root : Frame) : node ⟨root, []⟩ = root.node := rfl

theorem node_inner (root frame : Frame) :
    node ⟨root, [frame]⟩ = (root.addDirectChild frame.node).node := rfl

end Builder

end Prosody.Xml
