import Mathlib.Data.Char
import Mathlib.Data.List.Lex
import Prosody.Xml.InStep

/-! # Copies of stanzas -/

namespace Prosody.Xml

/-! ## The tree that a stanza holds -/

mutual

/-- A child holds a tree, all tables of which are from `lo` up to `hi`. -/
def Holds (h : Heap) (lo hi : Ref) : Child → Node → Prop
  | .text t, .text s => t = s
  | .elem r, .elem name attr children => lo ≤ r ∧ r < hi ∧ (h.stanzas r).name = name ∧
      (h.stanzas r).attr = attr ∧ HoldsAll h lo hi (h.stanzas r).children children
  | .text _, .elem _ _ _ => False
  | .elem _, .text _ => False

def HoldsAll (h : Heap) (lo hi : Ref) : List Child → List Node → Prop
  | [], [] => True
  | child :: children, node :: nodes => Holds h lo hi child node ∧ HoldsAll h lo hi children nodes
  | [], _ :: _ => False
  | _ :: _, [] => False

end

mutual

/-- How deep a stack its copying takes. -/
def Node.depth : Node → ℕ
  | .text _ => 0
  | .elem _ _ children => Node.depthAll children + 1

def Node.depthAll : List Node → ℕ
  | [] => 0
  | node :: nodes => max node.depth (Node.depthAll nodes)

end

mutual

/-- No name of an attribute has a bar in it. -/
def Node.Unbarred : Node → Prop
  | .text _ => True
  | .elem _ attr children => (∀ att ∈ attr.keys, '|' ∉ att) ∧ Node.UnbarredAll children

def Node.UnbarredAll : List Node → Prop
  | [] => True
  | node :: nodes => node.Unbarred ∧ Node.UnbarredAll nodes

end

mutual

theorem Holds.frame {h h' : Heap} {lo hi lo' hi' : Ref}
    (hsame : ∀ q, lo ≤ q → q < hi → h'.stanzas q = h.stanzas q) (hlo : lo' ≤ lo) (hhi : hi ≤ hi') :
    (node : Node) → (c : Child) → Holds h lo hi c node → Holds h' lo' hi' c node
  | .text s, .text t, hc => hc
  | .text s, .elem r, hc => hc
  | .elem name attr children, .text t, hc => hc
  | .elem name attr children, .elem r, hc => by
    rw [Holds] at hc ⊢
    obtain ⟨hr, hr', hname, hattr, hchildren⟩ := hc
    rw [hsame r hr hr']
    exact ⟨hlo.trans hr, hr'.trans_le hhi, hname, hattr,
      HoldsAll.frame hsame hlo hhi children _ hchildren⟩

theorem HoldsAll.frame {h h' : Heap} {lo hi lo' hi' : Ref}
    (hsame : ∀ q, lo ≤ q → q < hi → h'.stanzas q = h.stanzas q) (hlo : lo' ≤ lo) (hhi : hi ≤ hi') :
    (nodes : List Node) → (cs : List Child) → HoldsAll h lo hi cs nodes →
      HoldsAll h' lo' hi' cs nodes
  | [], [], hc => hc
  | [], _ :: _, hc => hc
  | _ :: _, [], hc => hc
  | node :: nodes, c :: cs, hc => by
    rw [HoldsAll] at hc ⊢
    exact ⟨Holds.frame hsame hlo hhi node c hc.1, HoldsAll.frame hsame hlo hhi nodes cs hc.2⟩

end

variable {h : Heap}

theorem holdsAll_append {lo hi : Ref} {cs ds : List Child} {ns ms : List Node}
    (hc : HoldsAll h lo hi cs ns) (hd : HoldsAll h lo hi ds ms) :
    HoldsAll h lo hi (cs ++ ds) (ns ++ ms) := by
  induction cs generalizing ns with
  | nil =>
    cases ns with
    | nil => exact hd
    | cons n ns => exact hc.elim
  | cons c cs ih =>
    cases ns with
    | nil => exact hc.elim
    | cons n ns => exact ⟨hc.1, ih hc.2⟩

/-! ## What an operation leaves alone -/

/-- The tables that there were are as they were, `r` apart. -/
structure Heap.Keeps (h h' : Heap) (r : Ref) : Prop where
  next : h.next ≤ h'.next
  same : ∀ q < h.next, q ≠ r → h'.stanzas q = h.stanzas q

theorem Heap.Keeps.trans {h₁ h₂ h₃ : Heap} {r : Ref} (h : h₁.Keeps h₂ r) (h' : h₂.Keeps h₃ r) :
    h₁.Keeps h₃ r where
  next := h.next.trans h'.next
  same q hq hr := (h'.same q (hq.trans_le h.next) hr).trans (h.same q hq hr)

theorem Heap.keeps_modify (h : Heap) (r : Ref) (f : Stanza → Stanza) :
    h.Keeps (h.modify r f) r where
  next := le_refl _
  same _ _ hq := h.modify_of_ne hq f

/-! ## `clone` -/

/-- A copy of a tree stands in new tables, and the tables that there were are as they were. -/
structure CopyOf (h h' : Heap) (c : Child) (node : Node) : Prop where
  next : h.next ≤ h'.next
  same : ∀ q < h.next, h'.stanzas q = h.stanzas q
  holds : Holds h' h.next h'.next c node

theorem CopyOf.text (h : Heap) (t : Text) : CopyOf h h (.text t) (.text t) :=
  ⟨le_refl _, fun _ _ => rfl, rfl⟩

/-- A copy among the children of `new`, which has been made before. -/
theorem CopyOf.addDirectChild {h' : Heap} {c : Child} {node : Node} (hcopy : CopyOf h h' c node)
    {new : Ref} (hnew : new < h.next) {front : List Node}
    (hfront : HoldsAll h (new + 1) h.next (h.stanzas new).children front) :
    h.Keeps (h'.addDirectChild new c) new ∧
      ((h'.addDirectChild new c).stanzas new).name = (h.stanzas new).name ∧
      ((h'.addDirectChild new c).stanzas new).attr = (h.stanzas new).attr ∧
      HoldsAll (h'.addDirectChild new c) (new + 1) (h'.addDirectChild new c).next
        ((h'.addDirectChild new c).stanzas new).children (front ++ [node]) := by
  have hkeeps := h'.keeps_modify new fun s => s.addDirectChild c
  have hself : (h'.addDirectChild new c).stanzas new = (h.stanzas new).addDirectChild c := by
    rw [Heap.addDirectChild, Heap.modify_self, hcopy.same new hnew]
  refine ⟨⟨hcopy.next, fun q hq hne => ?_⟩, by rw [hself, Stanza.name_addDirectChild],
    by rw [hself, Stanza.attr_addDirectChild], ?_⟩
  · exact (hkeeps.same q (hq.trans_le hcopy.next) hne).trans (hcopy.same q hq)
  · rw [hself, Stanza.children_addDirectChild]
    refine holdsAll_append (hfront.frame (fun q hq hq' => ?_) (le_refl _) hcopy.next _ _)
      ⟨hcopy.holds.frame (fun q hq hq' => ?_) hnew (le_refl _) _ _, trivial⟩
    · exact (hkeeps.same q (hq'.trans_le hcopy.next) (Nat.lt_of_succ_le hq).ne').trans
        (hcopy.same q hq')
    · exact hkeeps.same q hq' (hnew.trans_le hq).ne'

variable {children : List Child}

variable {nodes : List Node}

/-- What copying each child does for the copy `new` of their parent, behind those that it has. -/
theorem cloneChildren_holds {clone : Heap → Ref → Option (Heap × Ref)} {new : Ref}
    (hclone : ∀ node ∈ nodes, ∀ h r, Holds h 0 h.next (.elem r) node →
      ∃ h' r', clone h r = some (h', r') ∧ CopyOf h h' (.elem r') node)
    {front : List Node} (hnew : new < h.next) (hold : HoldsAll h 0 new children nodes)
    (hfront : HoldsAll h (new + 1) h.next (h.stanzas new).children front) :
    ∃ h', Heap.cloneChildren clone new children h = some h' ∧ h.Keeps h' new ∧
      (h'.stanzas new).name = (h.stanzas new).name ∧ (h'.stanzas new).attr = (h.stanzas new).attr ∧
      HoldsAll h' (new + 1) h'.next (h'.stanzas new).children (front ++ nodes) := by
  induction children generalizing h front nodes with
  | nil =>
    cases nodes with
    | nil =>
      refine ⟨h, rfl, ⟨le_refl _, fun _ _ _ => rfl⟩, rfl, rfl, ?_⟩
      rw [List.append_nil]
      exact hfront
    | cons node nodes => exact hold.elim
  | cons c children ih =>
    cases nodes with
    | nil => exact hold.elim
    | cons node nodes =>
      obtain ⟨hc, hrest⟩ := hold
      have hnodes : ∀ n ∈ nodes, ∀ h r, Holds h 0 h.next (.elem r) n →
          ∃ h' r', clone h r = some (h', r') ∧ CopyOf h h' (.elem r') n :=
        fun n hn => hclone n (List.mem_cons_of_mem node hn)
      have hgo {h' : Heap} {c' : Child} (hcopy : CopyOf h h' c' node) :
          ∃ h'', Heap.cloneChildren clone new children (h'.addDirectChild new c') = some h'' ∧
            h.Keeps h'' new ∧ (h''.stanzas new).name = (h.stanzas new).name ∧
            (h''.stanzas new).attr = (h.stanzas new).attr ∧
            HoldsAll h'' (new + 1) h''.next (h''.stanzas new).children
              (front ++ node :: nodes) := by
        obtain ⟨hkeeps, hname, hattr, hchildren⟩ := hcopy.addDirectChild hnew hfront
        have hrest' : HoldsAll (h'.addDirectChild new c') 0 new children nodes :=
          hrest.frame (fun q _ hq => hkeeps.same q (hq.trans hnew) hq.ne) (le_refl _)
            (le_refl _) _ _
        obtain ⟨h'', hrun, hkeeps', hname', hattr', hall⟩ :=
          ih hnodes (hnew.trans_le hkeeps.next) hrest' hchildren
        refine ⟨h'', hrun, hkeeps.trans hkeeps', hname'.trans hname, hattr'.trans hattr, ?_⟩
        rwa [List.append_assoc] at hall
      cases c with
      | text t =>
        cases node with
        | text s =>
          obtain rfl : t = s := hc
          exact hgo (CopyOf.text h t)
        | elem name attr children => exact hc.elim
      | elem r =>
        have hold' : Holds h 0 h.next (.elem r) node :=
          hc.frame (fun _ _ _ => rfl) (le_refl _) hnew.le _ _
        obtain ⟨h', r', hrun, hcopy⟩ := hclone node List.mem_cons_self h r hold'
        rw [Heap.cloneChildren, hrun]
        exact hgo hcopy

theorem depth_le_depthAll {node : Node} (h : node ∈ nodes) : node.depth ≤ Node.depthAll nodes := by
  induction nodes with
  | nil => exact absurd h List.not_mem_nil
  | cons n nodes ih =>
    rw [Node.depthAll]
    rcases List.mem_cons.mp h with rfl | h
    · exact le_max_left _ _
    · exact (ih h).trans (le_max_right _ _)

theorem stanza_frame (h : Heap) (name : Text) (attr : Table Text Text)
    (namespaces : Option (Table Text Text)) :
    (∀ q < h.next, (h.stanza name attr namespaces).1.stanzas q = h.stanzas q) ∧
      (h.stanza name attr namespaces).1.stanzas h.next = .new name attr namespaces ∧
      (h.stanza name attr namespaces).1.next = h.next + 1 :=
  ⟨fun _ hq => h.alloc_of_ne hq.ne _, h.alloc_self _, rfl⟩

/-- `clone` of a stanza that holds a tree makes another one that holds it. -/
theorem clone_holds (depth : ℕ) (node : Node) (hdepth : node.depth ≤ depth) (h : Heap) (r : Ref)
    (hold : Holds h 0 h.next (.elem r) node) :
    ∃ h' r', h.clone depth r = some (h', r') ∧ CopyOf h h' (.elem r') node := by
  induction depth generalizing node h r with
  | zero =>
    cases node with
    | text s => exact hold.elim
    | elem name attr children => exact absurd hdepth (by simp [Node.depth])
  | succ depth ih =>
    cases node with
    | text s => exact hold.elim
    | elem name attr nodes =>
      rw [Node.depth] at hdepth
      obtain ⟨-, hr, hname, hattr, hchildren⟩ := hold
      have hclone : ∀ n ∈ nodes, ∀ h r, Holds h 0 h.next (.elem r) n →
          ∃ h' r', Heap.clone depth h r = some (h', r') ∧ CopyOf h h' (.elem r') n :=
        fun n hn => ih n ((depth_le_depthAll hn).trans (Nat.le_of_succ_le_succ hdepth))
      obtain ⟨hsame, hself, hnext⟩ := stanza_frame h (h.stanzas r).name (h.stanzas r).attr
        (h.stanzas r).namespaces
      have hold' := hchildren.frame (fun q _ hq => hsame q hq) (le_refl _) (le_refl _) _ _
      obtain ⟨h', hrun, hkeeps, hname', hattr', hall⟩ :=
        cloneChildren_holds hclone (by rw [hnext]; exact Nat.lt_succ_self h.next) hold'
          (by rw [hself]; exact trivial : HoldsAll _ _ _ _ [])
      rw [hself] at hname' hattr'
      refine ⟨h', h.next, ?_, (Nat.le_succ _).trans hkeeps.next, fun q hq => ?_, ?_⟩
      · rw [Heap.clone]
        exact congrArg (Option.map _) hrun
      · exact (hkeeps.same q (hq.trans (Nat.lt_succ_self _)) hq.ne).trans (hsame q hq)
      · refine ⟨le_refl _, Nat.lt_of_succ_le hkeeps.next, hname'.trans hname,
          hattr'.trans hattr, ?_⟩
        exact hall.frame (fun _ _ _ => rfl) (Nat.le_succ _) (le_refl _) _ _

/-! ## `preserialize` and `deserialize` -/

theorem preserializeChildren_holds {lo hi : Ref} {preserialize : Ref → Option Node}
    (hpre : ∀ node ∈ nodes, ∀ r, Holds h lo hi (.elem r) node → preserialize r = some node)
    (hold : HoldsAll h lo hi children nodes) :
    Heap.preserializeChildren preserialize children = some nodes := by
  induction children generalizing nodes with
  | nil =>
    cases nodes with
    | nil => rfl
    | cons node nodes => exact hold.elim
  | cons c children ih =>
    cases nodes with
    | nil => exact hold.elim
    | cons node nodes =>
      obtain ⟨hc, hrest⟩ := hold
      have hnodes := ih (fun n hn => hpre n (List.mem_cons_of_mem node hn)) hrest
      cases c with
      | text t =>
        cases node with
        | text s =>
          obtain rfl : t = s := hc
          rw [Heap.preserializeChildren, hnodes]
          rfl
        | elem name attr children => exact hc.elim
      | elem r =>
        rw [Heap.preserializeChildren, hpre node List.mem_cons_self r hc, hnodes]
        rfl

theorem preserialize_holds {lo hi : Ref} (depth : ℕ) (node : Node)
    (hdepth : node.depth ≤ depth) (r : Ref) (hold : Holds h lo hi (.elem r) node) :
    h.preserialize depth r = some node := by
  induction depth generalizing node r with
  | zero =>
    cases node with
    | text s => exact hold.elim
    | elem name attr children => exact absurd hdepth (by simp [Node.depth])
  | succ depth ih =>
    cases node with
    | text s => exact hold.elim
    | elem name attr nodes =>
      rw [Node.depth] at hdepth
      obtain ⟨-, -, rfl, rfl, hchildren⟩ := hold
      rw [Heap.preserialize, preserializeChildren_holds (fun n hn => ih n
        ((depth_le_depthAll hn).trans (Nat.le_of_succ_le_succ hdepth))) hchildren]
      rfl

/-- Names without bars are not rewritten. -/
theorem unbarAttr_eq (pairs : KeyOrder Text) {attr : Table Text Text}
    (h : ∀ att ∈ attr.keys, '|' ∉ att) : unbarAttr pairs attr = some attr := by
  have hnone : (pairs.keys attr.keys).filter barred = [] := by
    refine List.filter_eq_nil_iff.mpr fun att hatt => ?_
    have hbar := h att ((pairs.mem_keys attr.keys att).mp hatt)
    simp [barred, hbar]
  rw [unbarAttr, hnone]
  rfl

mutual

theorem deserialize_holds (pairs : KeyOrder Text) : (node : Node) → (h : Heap) → node.Unbarred →
    ∃ h' c, deserialize pairs node h = some (h', c) ∧ CopyOf h h' c node
  | .text t, h, _ => ⟨h, .text t, by rw [deserialize], CopyOf.text h t⟩
  | .elem name attr nodes, h, hbar => by
    rw [Node.Unbarred] at hbar
    obtain ⟨hsame, hself, hnext⟩ := stanza_frame h name attr none
    obtain ⟨h', cs, hrun, hle, hkept, hall⟩ :=
      deserializeAll_holds pairs nodes (h.stanza name attr none).1 hbar.2
    rw [hnext] at hle hkept hall
    refine ⟨h'.modify h.next fun s => { s with children := cs, tags := refs cs }, .elem h.next,
      ?_, (Nat.le_succ _).trans hle, fun q hq => ?_, ?_⟩
    · rw [deserialize, unbarAttr_eq pairs hbar.1, Option.bind_some]
      exact congrArg (Option.map _) hrun
    · exact ((h'.keeps_modify h.next _).same q (hq.trans (Nat.lt_of_succ_le hle)) hq.ne).trans
        ((hkept q (hq.trans (Nat.lt_succ_self _))).trans (hsame q hq))
    · rw [Holds, Heap.modify_self, hkept _ (Nat.lt_succ_self _), hself]
      refine ⟨le_refl _, Nat.lt_of_succ_le hle, rfl, rfl, ?_⟩
      exact hall.frame (fun q hq hq' => (h'.keeps_modify h.next _).same q hq'
        (Nat.lt_of_succ_le hq).ne') (Nat.le_succ _) (le_refl _) _ _

theorem deserializeAll_holds (pairs : KeyOrder Text) : (nodes : List Node) → (h : Heap) →
    Node.UnbarredAll nodes → ∃ h' cs, deserializeAll pairs nodes h = some (h', cs) ∧
      h.next ≤ h'.next ∧ (∀ q < h.next, h'.stanzas q = h.stanzas q) ∧
      HoldsAll h' h.next h'.next cs nodes
  | [], h, _ => ⟨h, [], by rw [deserializeAll], le_refl _, fun _ _ => rfl, trivial⟩
  | node :: nodes, h, hbar => by
    rw [Node.UnbarredAll] at hbar
    obtain ⟨h₁, c, hrun, hcopy⟩ := deserialize_holds pairs node h hbar.1
    obtain ⟨h₂, cs, hrun', hle, hkept, hall⟩ := deserializeAll_holds pairs nodes h₁ hbar.2
    refine ⟨h₂, c :: cs, ?_, hcopy.next.trans hle, fun q hq => ?_, ?_, ?_⟩
    · rw [deserializeAll, hrun, Option.bind_some]
      exact congrArg (Option.map _) hrun'
    · exact (hkept q (hq.trans_le hcopy.next)).trans (hcopy.same q hq)
    · exact hcopy.holds.frame (fun q _ hq => hkept q hq) (le_refl _) hle _ _
    · exact hall.frame (fun _ _ _ => rfl) hcopy.next (le_refl _) _ _

end

/-- `deserialize(preserialize(s))` of a stanza that holds a tree makes another one that holds it. -/
theorem roundTrip_holds (pairs : KeyOrder Text) (depth : ℕ) (node : Node)
    (hdepth : node.depth ≤ depth) (hbar : node.Unbarred) (h : Heap) (r : Ref)
    (hold : Holds h 0 h.next (.elem r) node) :
    ∃ h' c, h.roundTrip pairs depth r = some (h', c) ∧ CopyOf h h' c node := by
  rw [Heap.roundTrip, preserialize_holds depth node hdepth r hold, Option.bind_some]
  exact deserialize_holds pairs node h hbar

/-! ## Runs -/

/-- No stanza is below itself, from some stanza on. -/
def Heap.Finite (h : Heap) (r : Ref) : Prop := Acc (fun c p => c ∈ refs (h.stanzas p).children) r

theorem exists_holdsAll (hchildren : ∀ c ∈ refs children, ∃ node, Holds h 0 h.next (.elem c) node) :
    ∃ nodes, HoldsAll h 0 h.next children nodes := by
  induction children with
  | nil => exact ⟨[], trivial⟩
  | cons c children ih =>
    cases c with
    | text t =>
      obtain ⟨nodes, hnodes⟩ := ih hchildren
      exact ⟨.text t :: nodes, rfl, hnodes⟩
    | elem r =>
      obtain ⟨node, hnode⟩ := hchildren r List.mem_cons_self
      obtain ⟨nodes, hnodes⟩ := ih fun c hc => hchildren c (List.mem_cons_of_mem r hc)
      exact ⟨node :: nodes, hnode, hnodes⟩

/-- A stanza that is not below itself, nor is any below it, holds a tree. -/
theorem Heap.Sound.exists_holds (hs : h.Sound) {r : Ref} (hr : r < h.next)
    (hfinite : h.Finite r) : ∃ node, Holds h 0 h.next (.elem r) node := by
  induction hfinite with
  | intro r _ ih =>
    obtain ⟨nodes, hnodes⟩ := exists_holdsAll fun c hc => ih c hc (hs.closed r hr c hc)
    exact ⟨.elem (h.stanzas r).name (h.stanzas r).attr nodes, Nat.zero_le r, hr, rfl, rfl, hnodes⟩

/-- What holds of all stanzas: their lists are in step; `maptags` calls its callback once for each
element, in order, and replaces each by what it returns, without an error; and a stanza that is not
below itself is copied as the tree it holds, with a stack that is deep enough for it. -/
structure Consistent (pairs : KeyOrder Text) (h : Heap) : Prop where
  inStep : ∀ r, (h.stanzas r).InStep
  maptags : ∀ r callback, h.maptags r callback = some (h.modify r fun s =>
      { s with children := mapped callback [] (h.stanzas r).children,
               tags := refs (mapped callback [] (h.stanzas r).children) },
    refs (h.stanzas r).children)
  copies : ∀ r < h.next, h.Finite r → ∃ node, Holds h 0 h.next (.elem r) node ∧
    ∀ depth ≥ node.depth,
      (∃ h' r', h.clone depth r = some (h', r') ∧ CopyOf h h' (.elem r') node) ∧
      (node.Unbarred → ∃ h' c, h.roundTrip pairs depth r = some (h', c) ∧ CopyOf h h' c node)

theorem Heap.Sound.consistent (hs : h.Sound) (pairs : KeyOrder Text) : Consistent pairs h where
  inStep := hs.inStep
  maptags r callback := h.maptags_eq r callback (hs.inStep r)
  copies r hr hfinite := by
    obtain ⟨node, hold⟩ := hs.exists_holds hr hfinite
    exact ⟨node, hold, fun depth hdepth => ⟨clone_holds depth node hdepth h r hold,
      fun hbar => roundTrip_holds pairs depth node hdepth hbar h r hold⟩⟩

/-- In every run whose stanzas are given before they are used, everything is consistent, from the
first table on. -/
theorem run_consistent (pairs : KeyOrder Text) (ops : List Op)
    (hgiven : Machine.Guarded (Heap.step pairs) (fun h op => op.Given h) Heap.empty ops) :
    Machine.Always (Heap.step pairs) (Consistent pairs) Heap.empty ops := by
  have hsound : Machine.Always (Heap.step pairs) Heap.Sound Heap.empty ops :=
    Machine.always_of_guarded (fun h op hs hop => hs.step hop) Heap.sound_empty hgiven
  exact hsound.mono fun h hs => hs.consistent pairs

/-- A stanza with one child from `tag` and another from `add_child`, the second of which `maptags`
takes out. -/
def built : List Op :=
  [.stanza "message".toList ∅ none, .tag 0 "body".toList ∅ none, .up 0,
    .stanza "delay".toList ∅ none, .addChild 0 (.elem 2),
    .maptags 0 fun called c => if called = [] then some c else none]

theorem built_given :
    Machine.Guarded (Heap.step (KeyOrder.inserted Text)) (fun h op => op.Given h) Heap.empty
      built := by
  refine ⟨trivial, trivial, trivial, trivial, fun c hc => ?_, fun called c ret hc hret => ?_,
    trivial⟩
  · obtain rfl := List.mem_singleton.mp hc
    decide
  · dsimp only at hret
    split at hret
    · exact Option.some.inj hret ▸ hc
    · exact absurd hret (by simp)

theorem built_consistent :
    Machine.Always (Heap.step (KeyOrder.inserted Text)) (Consistent (KeyOrder.inserted Text))
      Heap.empty built :=
  run_consistent _ built built_given

/-! ## A stanza that is its own child -/

/-- However deep the stack, such a stanza is not copied. -/
theorem clone_of_own_child (depth : ℕ) {r : Ref}
    (hchildren : (h.stanzas r).children = [.elem r]) (hr : r < h.next) :
    h.clone depth r = none := by
  induction depth generalizing h with
  | zero => rfl
  | succ depth ih =>
    obtain ⟨hsame, -, hnext⟩ := stanza_frame h (h.stanzas r).name (h.stanzas r).attr
      (h.stanzas r).namespaces
    have hnone := ih (h := (h.stanza (h.stanzas r).name (h.stanzas r).attr
      (h.stanzas r).namespaces).1) (by rw [hsame r hr, hchildren])
      (hr.trans (hnext ▸ Nat.lt_succ_self h.next))
    rw [Heap.clone, hchildren]
    exact congrArg (fun o => ((Option.bind o _).map _ : Option (Heap × Ref))) hnone

/-- After `s:add_child(s)` for a new stanza. -/
def ownChild : Heap :=
  Machine.run (Heap.step (KeyOrder.inserted Text)) Heap.empty
    [.stanza "a".toList ∅ none, .addChild 0 (.elem 0)]

theorem ownChild_not_cloned : ¬ ∃ depth h' r', ownChild.clone depth 0 = some (h', r') := by
  rintro ⟨depth, h', r', hclone⟩
  rw [clone_of_own_child depth rfl Nat.zero_lt_one] at hclone
  exact absurd hclone (by simp)

end Prosody.Xml
