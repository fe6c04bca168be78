import Mathlib.Data.Nat.Basic
import Prosody.Xml.Objects

/-! # Both lists of children stay in step -/

namespace Prosody.Xml

/-- `tags` holds the children that are elements, in their order. -/
def Stanza.InStep (s : Stanza) : Prop := s.tags = refs s.children

/-! ## What `maptags` makes of the children -/

/-- The children after a callback was called for each element, in order. -/
def mapped (callback : Callback) : List Ref → List Child → List Child
  | _, [] => []
  | called, .text t :: children => .text t :: mapped callback called children
  | called, .elem r :: children =>
    match callback called r with
    | none => mapped callback (called ++ [r]) children
    | some ret => .elem ret :: mapped callback (called ++ [r]) children

theorem mapped_of_texts (callback : Callback) (called : List Ref) {children : List Child}
    (h : refs children = []) : mapped callback called children = children := by
  induction children with
  | nil => rfl
  | cons c children ih =>
    cases c with
    | text t => rw [mapped, ih h]
    | elem r => exact absurd h (by simp)

namespace Mapping

/-- Where the loop is when it has passed the children `done`. -/
def at' (done rest : List Child) (doneTags called : List Ref) : Mapping where
  self := done ++ rest
  tags := doneTags ++ refs rest
  i := done.length + 1
  currTag := doneTags.length + 1
  nTags := doneTags.length + (refs rest).length
  called := called

theorem getElem?_append_cons {α : Type*} (front back : List α) (x : α) :
    (front ++ x :: back)[front.length]? = some x := by
  rw [List.getElem?_append_right (le_refl _), Nat.sub_self]
  rfl

theorem iterate_text (callback : Callback) (done rest : List Child) (doneTags called : List Ref)
    (t : Text) (h : refs rest ≠ []) :
    (at' done (.text t :: rest) doneTags called).iterate callback =
      some (at' (done ++ [Child.text t]) rest doneTags called) := by
  obtain ⟨r, later, hr⟩ := List.exists_cons_of_ne_nil h
  have hself : (at' done (.text t :: rest) doneTags called).self[
      (at' done (.text t :: rest) doneTags called).i - 1]? = some (.text t) :=
    getElem?_append_cons done rest _
  have htags : (at' done (.text t :: rest) doneTags called).tags[
      (at' done (.text t :: rest) doneTags called).currTag - 1]? = some r := by
    change (doneTags ++ refs rest)[doneTags.length]? = _
    rw [hr]
    exact getElem?_append_cons doneTags later r
  rw [iterate, hself, htags]
  simp [at']

/-- Where an element stands, its place in `tags` is the current one. -/
theorem at'_elem (done rest : List Child) (doneTags called : List Ref) (r : Ref) :
    (at' done (.elem r :: rest) doneTags called).self[
        (at' done (.elem r :: rest) doneTags called).i - 1]? = some (.elem r) ∧
      (at' done (.elem r :: rest) doneTags called).tags[
        (at' done (.elem r :: rest) doneTags called).currTag - 1]? = some r :=
  ⟨getElem?_append_cons done rest _, getElem?_append_cons doneTags (refs rest) r⟩

variable {callback : Callback}

theorem iterate_none {called : List Ref} {r : Ref}
    (hcall : callback called r = none) (done rest : List Child) (doneTags : List Ref) :
    (at' done (.elem r :: rest) doneTags called).iterate callback =
      some (at' done rest doneTags (called ++ [r])) := by
  obtain ⟨hself, htags⟩ := at'_elem done rest doneTags called r
  have hcall' : callback (at' done (.elem r :: rest) doneTags called).called r = none := hcall
  rw [iterate, hself, htags]
  dsimp only
  rw [if_pos rfl, hcall']
  simp [at', List.eraseIdx_append_of_length_le]

theorem iterate_some {called : List Ref} {r ret : Ref}
    (hcall : callback called r = some ret) (done rest : List Child) (doneTags : List Ref) :
    (at' done (.elem r :: rest) doneTags called).iterate callback =
      some (at' (done ++ [Child.elem ret]) rest (doneTags ++ [ret]) (called ++ [r])) := by
  obtain ⟨hself, htags⟩ := at'_elem done rest doneTags called r
  have hcall' : callback (at' done (.elem r :: rest) doneTags called).called r = some ret := hcall
  rw [iterate, hself, htags]
  dsimp only
  rw [if_pos rfl, hcall']
  simp [at', Nat.add_assoc, Nat.add_comm 1]

theorem loop_step {maxIterations : ℕ} {m m' : Mapping}
    (htags : m.currTag ≤ m.nTags ∧ 0 < m.nTags) (h : m.iterate callback = some m')
    (hi : m'.i ≤ maxIterations) :
    m.loop callback maxIterations = m'.loop callback maxIterations := by
  rw [loop, dif_pos htags]
  split
  · next hnone => rw [h] at hnone; exact absurd hnone (by simp)
  · next hsome =>
      rw [h] at hsome
      obtain rfl := Option.some.inj hsome
      rw [dif_neg (Nat.not_lt.mpr hi)]

theorem loop_end (callback : Callback) (maxIterations : ℕ) {m : Mapping}
    (h : m.nTags < m.currTag) : m.loop callback maxIterations = some m := by
  rw [loop, dif_neg fun htags => Nat.not_le.mpr h htags.1]

/-- The loop ends without an error, having called the callback once for every element. -/
theorem loop_eq (callback : Callback) (maxIterations : ℕ) (done rest : List Child)
    (doneTags called : List Ref) (hmax : done.length + rest.length + 1 ≤ maxIterations) :
    ∃ m, (at' done rest doneTags called).loop callback maxIterations = some m ∧
      m.self = done ++ mapped callback called rest ∧
      m.tags = doneTags ++ refs (mapped callback called rest) ∧ m.called = called ++ refs rest := by
  induction rest generalizing done doneTags called with
  | nil =>
    refine ⟨_, loop_end callback maxIterations (Nat.lt_succ_self _), rfl, rfl, ?_⟩
    exact (List.append_nil called).symm
  | cons c rest ih =>
    rw [List.length_cons] at hmax
    cases c with
    | text t =>
      by_cases hrefs : refs rest = []
      · refine ⟨_, loop_end callback maxIterations ?_, ?_, ?_, ?_⟩
        · change doneTags.length + (refs (Child.text t :: rest)).length < doneTags.length + 1
          rw [refs_text, hrefs]
          exact Nat.lt_succ_self _
        · rw [mapped, mapped_of_texts _ _ hrefs]
          rfl
        · rw [mapped, mapped_of_texts _ _ hrefs]
          rfl
        · change called = _
          rw [refs_text, hrefs, List.append_nil]
      · have hpos : 0 < (refs rest).length := List.length_pos_of_ne_nil hrefs
        rw [loop_step ?_ (iterate_text callback done rest doneTags called t hrefs) ?_]
        · obtain ⟨m, hm, hself, htags, hcalled⟩ := ih (done ++ [Child.text t]) doneTags called (by
            rw [List.length_append, List.length_singleton]
            omega)
          refine ⟨m, hm, ?_, htags, hcalled⟩
          rw [hself, mapped, List.append_assoc]
          rfl
        · change _ + 1 ≤ _ + (refs rest).length ∧ 0 < _ + (refs rest).length
          omega
        · change (done ++ [Child.text t]).length + 1 ≤ _
          rw [List.length_append, List.length_singleton]
          omega
    | elem r =>
      have htags : (at' done (.elem r :: rest) doneTags called).currTag ≤
          (at' done (.elem r :: rest) doneTags called).nTags ∧
          0 < (at' done (.elem r :: rest) doneTags called).nTags := by
        change _ + 1 ≤ _ + ((refs rest).length + 1) ∧ 0 < _ + ((refs rest).length + 1)
        omega
      cases hcall : callback called r with
      | none =>
        rw [loop_step htags (iterate_none hcall done rest doneTags) (by
          change done.length + 1 ≤ _
          omega)]
        obtain ⟨m, hm, hself, htags, hcalled⟩ := ih done doneTags (called ++ [r]) (by omega)
        refine ⟨m, hm, ?_, ?_, ?_⟩
        · rw [hself, mapped, hcall]
        · rw [htags, mapped, hcall]
        · rw [hcalled, refs_elem, List.append_assoc]
          rfl
      | some ret =>
        rw [loop_step htags (iterate_some hcall done rest doneTags) (by
          change (done ++ [Child.elem ret]).length + 1 ≤ _
          rw [List.length_append, List.length_singleton]
          omega)]
        obtain ⟨m, hm, hself, htags, hcalled⟩ :=
          ih (done ++ [Child.elem ret]) (doneTags ++ [ret]) (called ++ [r]) (by
            rw [List.length_append, List.length_singleton]
            omega)
        refine ⟨m, hm, ?_, ?_, ?_⟩
        · rw [hself, mapped, hcall, List.append_assoc]
          rfl
        · rw [htags, mapped, hcall, List.append_assoc]
          rfl
        · rw [hcalled, refs_elem, List.append_assoc]
          rfl

end Mapping

/-- `maptags` of children in step: no error, one call for each element, and the children that the
callback leaves, in step again. -/
theorem Heap.maptags_eq (h : Heap) (self : Ref) (callback : Callback)
    (hstep : (h.stanzas self).InStep) :
    h.maptags self callback = some (h.modify self fun s =>
        { s with children := mapped callback [] (h.stanzas self).children,
                 tags := refs (mapped callback [] (h.stanzas self).children) },
      refs (h.stanzas self).children) := by
  obtain ⟨m, hm, hself, htags, hcalled⟩ := Mapping.loop_eq callback
    ((h.stanzas self).children.length + 1) [] (h.stanzas self).children [] []
    (by rw [List.length_nil, Nat.zero_add])
  have hstart : (⟨(h.stanzas self).children, (h.stanzas self).tags, 1, 1,
      (h.stanzas self).tags.length, []⟩ : Mapping) =
      Mapping.at' [] (h.stanzas self).children [] [] := by
    rw [hstep, Mapping.at', List.length_nil, List.length_nil, Nat.zero_add, Nat.zero_add]
    rfl
  rw [maptags, hstart, hm, Option.map_some, hself, htags, hcalled]
  rfl

/-! ## Operations keep the lists in step -/

/-- All lists are in step, and the children of every table are tables. -/
structure Heap.Sound (h : Heap) : Prop where
  inStep : ∀ r, (h.stanzas r).InStep
  closed : ∀ r < h.next, ∀ c ∈ refs (h.stanzas r).children, c < h.next

namespace Heap

theorem sound_empty : empty.Sound := ⟨fun _ => rfl, fun _ hr => absurd hr (Nat.not_lt_zero _)⟩

variable {h : Heap}

theorem Sound.stanza (hs : h.Sound) (name : Text) (attr : Table Text Text)
    (namespaces : Option (Table Text Text)) : (h.stanza name attr namespaces).1.Sound := by
  refine ⟨fun r => ?_, fun r hr c hc => ?_⟩
  · by_cases hne : r = h.next
    · rw [hne, Heap.stanza, alloc_self]
      rfl
    · rw [Heap.stanza, alloc_of_ne h hne]
      exact hs.inStep r
  · by_cases hne : r = h.next
    · rw [hne, Heap.stanza, alloc_self] at hc
      exact absurd hc List.not_mem_nil
    · rw [Heap.stanza, alloc_of_ne h hne] at hc
      exact (hs.closed r (Nat.lt_of_le_of_ne (Nat.le_of_lt_succ hr) hne) c hc).trans
        (Nat.lt_succ_self _)

theorem Sound.modify (hs : h.Sound) (r : Ref) (f : Stanza → Stanza)
    (hstep : (f (h.stanzas r)).InStep)
    (hclosed : r < h.next → ∀ c ∈ refs (f (h.stanzas r)).children, c < h.next) :
    (h.modify r f).Sound := by
  refine ⟨fun q => ?_, fun q hq c hc => ?_⟩
  · by_cases hne : q = r
    · rw [hne, modify_self]
      exact hstep
    · rw [modify_of_ne h hne]
      exact hs.inStep q
  · by_cases hne : q = r
    · subst hne
      rw [modify_self] at hc
      exact hclosed hq c hc
    · rw [modify_of_ne h hne] at hc
      exact hs.closed q hq c hc

theorem Sound.cursor (hs : h.Sound) (r : Ref) (f : Stanza → Option (List Ref)) :
    (h.modify r fun s => { s with lastAdd := f s }).Sound :=
  hs.modify r _ (hs.inStep r) fun hr => hs.closed r hr

theorem Sound.addDirectChild (hs : h.Sound) (self : Ref) {child : Child}
    (hchild : ∀ c ∈ refs [child], c < h.next) : (h.addDirectChild self child).Sound := by
  refine hs.modify self _ ?_ fun hself c hc => ?_
  · rw [Stanza.InStep, Stanza.tags_addDirectChild, Stanza.children_addDirectChild, refs_append,
      hs.inStep self]
  · rw [Stanza.children_addDirectChild, refs_append] at hc
    rcases List.mem_append.mp hc with hc | hc
    · exact hs.closed self hself c hc
    · exact hchild c hc

theorem Sound.tag (hs : h.Sound) (self : Ref) (name : Text) (attr : Table Text Text)
    (namespaces : Option (Table Text Text)) : (h.tag self name attr namespaces).Sound := by
  have hadd : ((h.stanza name attr namespaces).1.addChild self (.elem h.next)).Sound := by
    refine (hs.stanza name attr namespaces).addDirectChild _ fun c hc => ?_
    rw [List.mem_singleton.mp hc]
    exact Nat.lt_succ_self _
  exact hadd.cursor self fun t => some (t.lastAdd.getD [] ++ [h.next])

theorem Sound.text (hs : h.Sound) (self : Ref) (text : Option Text) : (h.text self text).Sound := by
  unfold Heap.text
  split
  · exact hs
  · exact hs.addDirectChild _ fun c hc => absurd hc List.not_mem_nil

theorem mem_refs_mapped {callback : Callback} {P : Ref → Prop}
    (hcall : ∀ called c ret, P c → callback called c = some ret → P ret) {called : List Ref}
    {children : List Child} (hP : ∀ c ∈ refs children, P c) :
    ∀ c ∈ refs (mapped callback called children), P c := by
  induction children generalizing called with
  | nil => exact fun c hc => absurd hc List.not_mem_nil
  | cons d children ih =>
    cases d with
    | text t => exact ih hP
    | elem r =>
      have hrest : ∀ c ∈ refs children, P c := fun c hc => hP c (List.mem_cons_of_mem r hc)
      rw [mapped]
      cases hr : callback called r with
      | none => exact ih hrest
      | some ret =>
        intro c hc
        rcases List.mem_cons.mp hc with rfl | hc
        · exact hcall called r c (hP r List.mem_cons_self) hr
        · exact ih hrest c hc

theorem Sound.maptags {h' : Heap} (hs : h.Sound) {self : Ref} {callback : Callback}
    (hcall : ∀ called c ret, c < h.next → callback called c = some ret → ret < h.next)
    {calls : List Ref} (hrun : h.maptags self callback = some (h', calls)) : h'.Sound := by
  rw [h.maptags_eq self callback (hs.inStep self)] at hrun
  obtain ⟨rfl, -⟩ := Prod.mk.inj (Option.some.inj hrun)
  exact hs.modify self _ rfl fun hself => mem_refs_mapped hcall (hs.closed self hself)

/-- A copy is a new table, and leaves all lists in step. -/
structure Copied (h h' : Heap) (new : List Ref) : Prop where
  sound : h'.Sound
  next : h.next ≤ h'.next
  new : ∀ r ∈ new, r < h'.next

theorem cloneChildren_sound {clone : Heap → Ref → Option (Heap × Ref)}
    (hclone : ∀ h r h' r', h.Sound → clone h r = some (h', r') → Copied h h' [r'])
    {new : Ref} {children : List Child} {h' : Heap} (hs : h.Sound)
    (hrun : cloneChildren clone new children h = some h') : h'.Sound ∧ h.next ≤ h'.next := by
  induction children generalizing h with
  | nil =>
    obtain rfl := Option.some.inj hrun
    exact ⟨hs, le_refl _⟩
  | cons c children ih =>
    cases c with
    | text t =>
      have hadd : (h.addDirectChild new (.text t)).Sound :=
        hs.addDirectChild new fun c hc => absurd hc List.not_mem_nil
      obtain ⟨hsound, hnext⟩ := ih hadd hrun
      exact ⟨hsound, hnext⟩
    | elem r =>
      obtain ⟨⟨h₁, r'⟩, hr, hrest⟩ := Option.bind_eq_some_iff.mp hrun
      have hcopied := hclone h r h₁ r' hs hr
      have hadd : (h₁.addDirectChild new (.elem r')).Sound :=
        hcopied.sound.addDirectChild new hcopied.new
      obtain ⟨hsound, hnext⟩ := ih hadd hrest
      exact ⟨hsound, hcopied.next.trans hnext⟩

theorem clone_sound (depth : ℕ) (h : Heap) (r : Ref) (h' : Heap) (r' : Ref) (hs : h.Sound)
    (hrun : h.clone depth r = some (h', r')) : Copied h h' [r'] := by
  induction depth generalizing h r h' r' with
  | zero => exact absurd hrun (by simp [clone])
  | succ depth ih =>
    rw [clone] at hrun
    obtain ⟨h₁, hchildren, heq⟩ := Option.map_eq_some_iff.mp hrun
    obtain ⟨rfl, rfl⟩ := Prod.mk.inj heq
    obtain ⟨hsound, hnext⟩ := cloneChildren_sound ih (hs.stanza _ _ _) hchildren
    refine ⟨hsound, (Nat.le_succ _).trans hnext, fun q hq => ?_⟩
    rw [List.mem_singleton.mp hq]
    exact Nat.lt_of_succ_le hnext

end Heap

mutual

theorem deserialize_sound (pairs : KeyOrder Text) : (node : Node) → (h : Heap) → (h' : Heap) →
    (c : Child) → h.Sound → deserialize pairs node h = some (h', c) → h.Copied h' (refs [c])
  | .text t, h, h', c, hs, hrun => by
    rw [deserialize] at hrun
    obtain ⟨rfl, rfl⟩ := Prod.mk.inj (Option.some.inj hrun)
    exact ⟨hs, le_refl _, fun r hr => absurd hr List.not_mem_nil⟩
  | .elem name attr nodes, h, h', c, hs, hrun => by
    rw [deserialize] at hrun
    obtain ⟨attr', -, hrest⟩ := Option.bind_eq_some_iff.mp hrun
    obtain ⟨⟨h₁, cs⟩, hnodes, heq⟩ := Option.map_eq_some_iff.mp hrest
    obtain ⟨rfl, rfl⟩ := Prod.mk.inj heq
    have hall := deserializeAll_sound pairs nodes _ h₁ cs (hs.stanza name attr' none) hnodes
    refine ⟨hall.sound.modify h.next _ rfl fun _ => hall.new, (Nat.le_succ _).trans hall.next,
      fun q hq => ?_⟩
    rw [List.mem_singleton.mp hq]
    exact Nat.lt_of_succ_le hall.next

theorem deserializeAll_sound (pairs : KeyOrder Text) : (nodes : List Node) → (h : Heap) →
    (h' : Heap) → (cs : List Child) → h.Sound → deserializeAll pairs nodes h = some (h', cs) →
      h.Copied h' (refs cs)
  | [], h, h', cs, hs, hrun => by
    rw [deserializeAll] at hrun
    obtain ⟨rfl, rfl⟩ := Prod.mk.inj (Option.some.inj hrun)
    exact ⟨hs, le_refl _, fun r hr => absurd hr List.not_mem_nil⟩
  | node :: nodes, h, h', cs, hs, hrun => by
    rw [deserializeAll] at hrun
    obtain ⟨⟨h₁, c⟩, hnode, hrest⟩ := Option.bind_eq_some_iff.mp hrun
    obtain ⟨⟨h₂, cs'⟩, hnodes, heq⟩ := Option.map_eq_some_iff.mp hrest
    obtain ⟨rfl, rfl⟩ := Prod.mk.inj heq
    have hcopied := deserialize_sound pairs node h h₁ c hs hnode
    have hall := deserializeAll_sound pairs nodes h₁ h₂ cs' hcopied.sound hnodes
    refine ⟨hall.sound, hcopied.next.trans hall.next, fun q hq => ?_⟩
    rw [← List.singleton_append, refs_append] at hq
    rcases List.mem_append.mp hq with hq | hq
    · exact (hcopied.new q hq).trans_le hall.next
    · exact hall.new q hq

end

/-- The tables that an operation is given, or that its callback returns, exist. -/
def Op.Given (h : Heap) : Op → Prop
  | .addChild _ child => ∀ c ∈ refs [child], c < h.next
  | .addDirectChild _ child => ∀ c ∈ refs [child], c < h.next
  | .maptags _ callback =>
    ∀ called c ret, c < h.next → callback called c = some ret → ret < h.next
  | _ => True

theorem Heap.Sound.step {pairs : KeyOrder Text} {h : Heap} (hs : h.Sound) {op : Op}
    (hgiven : op.Given h) : (h.step pairs op).Sound := by
  unfold Heap.step
  cases hop : op.apply pairs h with
  | none => exact hs
  | some h' =>
    rw [Option.getD_some]
    cases op with
    | stanza name attr namespaces =>
      obtain rfl := Option.some.inj hop
      exact hs.stanza name attr namespaces
    | tag r name attr namespaces =>
      obtain rfl := Option.some.inj hop
      exact hs.tag r name attr namespaces
    | text r t =>
      obtain rfl := Option.some.inj hop
      exact hs.text r t
    | up r =>
      obtain rfl := Option.some.inj hop
      exact hs.cursor r _
    | reset r =>
      obtain rfl := Option.some.inj hop
      exact hs.cursor r _
    | addChild r child =>
      obtain rfl := Option.some.inj hop
      exact hs.addDirectChild _ hgiven
    | addDirectChild r child =>
      obtain rfl := Option.some.inj hop
      exact hs.addDirectChild r hgiven
    | maptags r callback =>
      obtain ⟨⟨h₁, calls⟩, hrun, rfl⟩ := Option.map_eq_some_iff.mp hop
      exact hs.maptags hgiven hrun
    | removeChildren r name xmlns =>
      obtain ⟨⟨h₁, calls⟩, hrun, rfl⟩ := Option.map_eq_some_iff.mp hop
      refine hs.maptags (fun _ c ret hc hret => ?_) hrun
      split at hret
      · exact absurd hret (by simp)
      · exact Option.some.inj hret ▸ hc
    | clone depth r =>
      obtain ⟨⟨h₁, r'⟩, hrun, rfl⟩ := Option.map_eq_some_iff.mp hop
      exact (Heap.clone_sound depth h r h₁ r' hs hrun).sound
    | roundTrip depth r =>
      obtain ⟨⟨h₁, c⟩, hrun, rfl⟩ := Option.map_eq_some_iff.mp hop
      obtain ⟨node, -, hnode⟩ := Option.bind_eq_some_iff.mp hrun
      exact (deserialize_sound pairs node h h₁ c hs hnode).sound

end Prosody.Xml
