import Mathlib.Data.String.Basic
import Prosody.Library.Lists
import Prosody.Library.Runs
import Prosody.Pubsub.Service

/-! # The subscription index -/

namespace Prosody.Pubsub

/-! ## Entries of the index -/

namespace Index

def nodes (index : Index) (normal jid : Jid) : Finset NodeName :=
  (index.entry normal jid).getD ∅

variable {index index' : Index} {k k' j j' : Jid} {n n' : NodeName}

theorem entry_set (subs : Option (Table Jid (Finset NodeName))) :
    Index.entry (Table.set index k subs) k' j =
      if k' = k then subs.bind fun subs => subs.get j else index.entry k' j := by
  unfold Index.entry
  rw [Table.get_set]
  split <;> rfl

theorem entry_add : (index.add k j n).entry k' j' =
    if k' = k ∧ j' = j then some (insert n (index.nodes k j)) else index.entry k' j' := by
  unfold Index.add
  by_cases hk : k' = k
  · subst hk
    cases hsubs : Table.get index k' with
    | none => by_cases hj : j' = j <;> simp [Table.get_set, hj, nodes, entry, hsubs]
    | some subs =>
      cases hentry : subs.get j with
      | none =>
        by_cases hj : j' = j <;>
          simp [Table.get_set, hj, nodes, entry, hsubs, hentry]
      | some nodes =>
        by_cases hj : j' = j <;>
          simp [Table.get_set, hj, Index.nodes, entry, hsubs, hentry]
  · cases hsubs : Table.get index k with
    | none => simp [entry_set, hk]
    | some subs => cases hentry : subs.get j <;> simp [entry_set, hentry, hk]

theorem mem_nodes_add : n' ∈ (index.add k j n).nodes k' j' ↔
    k' = k ∧ j' = j ∧ n' = n ∨ n' ∈ index.nodes k' j' := by
  by_cases h : k' = k ∧ j' = j
  · obtain ⟨rfl, rfl⟩ := h
    simp [nodes, entry_add]
  · have h' : ¬ (k' = k ∧ j' = j ∧ n' = n) := fun ⟨hk, hj, _⟩ => h ⟨hk, hj⟩
    simp [nodes, entry_add, h, h']

theorem entry_remove : (index.remove k j n).entry k' j' =
    if k' = k ∧ j' = j then
      (index.entry k j).bind fun nodes =>
        if nodes.erase n = ∅ then none else some (nodes.erase n)
    else index.entry k' j' := by
  unfold Index.remove
  cases hsubs : Table.get index k with
  | none =>
    by_cases hk : k' = k
    · subst hk
      simp [entry, hsubs]
    · simp [hk]
  | some subs =>
    have hempty : ∀ subs : Table Jid (Finset NodeName), ∀ j,
        ((if subs.keys = ∅ then none else some subs).bind fun subs => subs.get j) =
          subs.get j := by
      intro subs j
      split
      · rename_i h
        simp [Table.get_of_keys_eq_empty h]
      · rfl
    simp only [entry_set, hempty]
    by_cases hk : k' = k
    · subst hk
      cases hentry : subs.get j with
      | none =>
        by_cases hj : j' = j
        · subst hj
          simp [entry, hsubs, hentry]
        · simp [entry, hsubs, hj]
      | some nodes => by_cases hj : j' = j <;> simp [Table.get_set, entry, hsubs, hentry, hj]
    · simp [hk]

theorem mem_nodes_remove : n' ∈ (index.remove k j n).nodes k' j' ↔
    n' ∈ index.nodes k' j' ∧ ¬ (k' = k ∧ j' = j ∧ n' = n) := by
  by_cases h : k' = k ∧ j' = j
  · obtain ⟨rfl, rfl⟩ := h
    cases hentry : index.entry k' j' with
    | none => simp [nodes, entry_remove, hentry]
    | some ns =>
      by_cases hns : ns.erase n = ∅
      · have hmem : ¬ (n' ∈ ns ∧ ¬ n' = n) := by
          rintro ⟨hmem, hne⟩
          have hmem' : n' ∈ ns.erase n := Finset.mem_erase.mpr ⟨hne, hmem⟩
          simp [hns] at hmem'
        simpa [nodes, entry_remove, hentry, hns] using hmem
      · simp [nodes, entry_remove, hentry, hns, and_comm]
  · have h' : ¬ (k' = k ∧ j' = j ∧ n' = n) := fun ⟨hk, hj, _⟩ => h ⟨hk, hj⟩
    simp [nodes, entry_remove, h, h']

theorem entry_remove_of_mem (h : n' ∈ index.nodes k j) (hne : n' ≠ n) :
    ((index.remove k j n).entry k j).isSome := by
  have hmem : n' ∈ (index.remove k j n).nodes k j :=
    mem_nodes_remove.mpr ⟨h, fun hn => hne hn.2.2⟩
  cases hentry : (index.remove k j n).entry k j with
  | none => simp [nodes, hentry] at hmem
  | some nodes => rfl

theorem restore_of_entry (h : (index.entry k j).isSome) (b : Bool) :
    ∃ index', index.restore k j n b = some index' ∧ ∀ k' j' n', n' ∈ index'.nodes k' j' ↔
      if k' = k ∧ j' = j ∧ n' = n then b = true else n' ∈ index.nodes k' j' := by
  obtain ⟨ns, hns⟩ := Option.isSome_iff_exists.mp h
  obtain ⟨subs, hsubs, hentry⟩ := Option.bind_eq_some_iff.mp hns
  refine ⟨Table.set index k
    (some (subs.set j (some (if b then insert n ns else ns.erase n)))), ?_, ?_⟩
  · simp only [restore, hsubs, hentry]
  · intro k' j' n'
    by_cases hkj : k' = k ∧ j' = j
    · obtain ⟨rfl, rfl⟩ := hkj
      cases b <;> by_cases hn : n' = n <;>
        simp [nodes, entry_set, hns, hn]
    · have hkjn : ¬ (k' = k ∧ j' = j ∧ n' = n) := fun hall => hkj ⟨hall.1, hall.2.1⟩
      rw [if_neg hkjn]
      by_cases hk : k' = k
      · subst hk
        have hj : j' ≠ j := fun hj => hkj ⟨rfl, hj⟩
        simp [nodes, Table.get_set_of_ne _ hj, entry, hsubs]
      · simp [nodes, entry_set, hk]

end Index

/-! ## Subscribers -/

variable {Data Item : Type} {config : Config Data Item} {s s' : Service Data Item}

/-- `nodes[n]` exists and `nodes[n].subscribers[j]` is set. -/
def Service.Subscribed (s : Service Data Item) (j : Jid) (n : NodeName) : Prop :=
  ∃ node, s.nodes.get n = some node ∧ (node.subscribers.get j).isSome

/-- The index holds the subscribers of the nodes, each under its normalized address. -/
structure Indexed (config : Config Data Item) (s : Service Data Item) : Prop where
  mem_iff : ∀ k j n, n ∈ s.subscriptions.nodes k j ↔
    config.normalizer.normalize j = some k ∧ s.Subscribed j n
  normal : ∀ j n, s.Subscribed j n → (config.normalizer.normalize j).isSome

theorem Indexed.congr (h : Indexed config s) (hindex : s'.subscriptions = s.subscriptions)
    (hsub : ∀ j n, s'.Subscribed j n ↔ s.Subscribed j n) : Indexed config s' where
  mem_iff := by
    intro k j n
    rw [hindex, hsub]
    exact h.mem_iff k j n
  normal := by
    intro j n hs
    exact h.normal j n ((hsub j n).mp hs)

section

variable {name : NodeName} {node : Node} {jid : Jid}

@[simp] theorem saveNodeToStore_nodes (node : Node) :
    (s.saveNodeToStore node).2.nodes = s.nodes := by
  unfold Service.saveNodeToStore
  split
  · rfl
  · simp only
    split <;> rfl

@[simp] theorem saveNodeToStore_subscriptions (node : Node) :
    (s.saveNodeToStore node).2.subscriptions = s.subscriptions := by
  unfold Service.saveNodeToStore
  split
  · rfl
  · simp only
    split <;> rfl

@[simp] theorem deleteNodeInStore_nodes : (s.deleteNodeInStore name).2.nodes = s.nodes := by
  unfold Service.deleteNodeInStore
  split
  · rfl
  · simp only
    split <;> rfl

@[simp] theorem deleteNodeInStore_subscriptions :
    (s.deleteNodeInStore name).2.subscriptions = s.subscriptions := by
  unfold Service.deleteNodeInStore
  split
  · rfl
  · simp only
    split <;> rfl

theorem subscribed_congr (h : s'.nodes = s.nodes) (j : Jid) (n : NodeName) :
    s'.Subscribed j n ↔ s.Subscribed j n := by
  simp [Service.Subscribed, h]

theorem subscribed_setNode (name : NodeName) (node : Node) (h : s'.nodes = s.nodes.set name (some node)) (j : Jid)
    (n : NodeName) :
    s'.Subscribed j n ↔
      if n = name then (node.subscribers.get j).isSome = true else s.Subscribed j n := by
  unfold Service.Subscribed
  rw [h, Table.get_set]
  split <;> simp

theorem subscribed_of_node (h : s.nodes.get name = some node) (j : Jid) :
    s.Subscribed j name ↔ (node.subscribers.get j).isSome = true := by
  simp [Service.Subscribed, h]

variable {t : Service Data Item}

theorem subscribed_setSubscriber (sub : Option Subscription) (hnode : s.nodes.get name = some node)
    (h : t.nodes = s.nodes.set name
      (some { node with subscribers := node.subscribers.set jid sub })) (j : Jid) (n : NodeName) :
    t.Subscribed j n ↔
      if n = name ∧ j = jid then sub.isSome = true else s.Subscribed j n := by
  rw [subscribed_setNode name _ h]
  by_cases hn : n = name
  · subst hn
    by_cases hj : j = jid
    · simp [hj]
    · simp [hj, Table.get_set_of_ne, subscribed_of_node hnode]
  · simp [hn]

theorem Indexed.setNode (h : Indexed config s) (node : Node) {old : Node} (hnode : s.nodes.get name = some old)
    (hsubs : node.subscribers = old.subscribers) (hnodes : s'.nodes = s.nodes.set name (some node))
    (hindex : s'.subscriptions = s.subscriptions) : Indexed config s' := by
  refine h.congr hindex fun j n => ?_
  rw [subscribed_setNode name node hnodes]
  split
  · rename_i hn
    subst hn
    rw [hsubs, subscribed_of_node hnode]
  · rfl

theorem Indexed.update (h : Indexed config s) (name : NodeName) {jid k : Jid} {b : Bool}
    (hk : config.normalizer.normalize jid = some k)
    (hindex : ∀ k' j n, n ∈ s'.subscriptions.nodes k' j ↔
      if k' = k ∧ j = jid ∧ n = name then b = true else n ∈ s.subscriptions.nodes k' j)
    (hsub : ∀ j n, s'.Subscribed j n ↔
      if n = name ∧ j = jid then b = true else s.Subscribed j n) : Indexed config s' where
  mem_iff := by
    intro k' j n
    rw [hindex, hsub]
    by_cases hn : n = name ∧ j = jid
    · obtain ⟨rfl, rfl⟩ := hn
      by_cases hk' : k' = k
      · simp [hk', hk]
      · have hne : ¬ config.normalizer.normalize j = some k' := by
          rw [hk]
          exact fun heq => hk' (Option.some.inj heq).symm
        simp [hk', h.mem_iff, hne]
    · have hn' : ¬ (k' = k ∧ j = jid ∧ n = name) := fun ⟨_, hj, hn'⟩ => hn ⟨hn', hj⟩
      rw [if_neg hn, if_neg hn', h.mem_iff]
  normal := by
    intro j n hs
    rw [hsub] at hs
    by_cases hn : n = name ∧ j = jid
    · simp [hn.2, hk]
    · rw [if_neg hn] at hs
      exact h.normal j n hs

theorem Indexed.subscribeNode (h : Indexed config s) (hnode : s.nodes.get name = some node)
    (hjid : (config.normalizer.normalize jid).isSome) (options : Option String) :
    Indexed config (s.subscribeNode config name node jid options).2 := by
  obtain ⟨k, hk⟩ := Option.isSome_iff_exists.mp hjid
  unfold Service.subscribeNode
  simp only [hk]
  split
  · refine h.update name (b := true) hk ?_ ?_
    · intro k' j n
      simp only [saveNodeToStore_subscriptions]
      rw [Index.mem_nodes_add]
      by_cases hn : k' = k ∧ j = jid ∧ n = name <;> simp [hn, Service.setSubscriber, Service.setNode]
    · refine subscribed_setSubscriber (some (options.elim .plain .withOptions)) hnode ?_
      rw [saveNodeToStore_nodes]
      rfl
  · simp only [Service.setSubscriber, Service.setNode, saveNodeToStore_subscriptions,
      saveNodeToStore_nodes, Table.set_set]
    have hentry : ((s.subscriptions.add k jid name).entry k jid).isSome := by
      simp [Index.entry_add]
    obtain ⟨index, hrestore, hmem⟩ := Index.restore_of_entry (n := name) hentry
      (node.subscribers.get jid).isSome
    simp only [hrestore]
    refine h.update name hk ?_
      (subscribed_setSubscriber (node.subscribers.get jid) hnode rfl)
    intro k' j n
    rw [hmem, Index.mem_nodes_add]
    split <;> simp_all

/-- The next write to the store succeeds, or there is no store. -/
def Service.WriteOk (s : Service Data Item) : Prop :=
  s.store = none ∨ s.writes.head?.getD true = true

/-- The address is subscribed to another node. -/
def Service.SubscribedElsewhere (s : Service Data Item) (j : Jid) (n : NodeName) : Prop :=
  ∃ n', n' ≠ n ∧ s.Subscribed j n'

theorem saveNodeToStore_ok_iff (node : Node) :
    (s.saveNodeToStore node).1 = true ↔ s.WriteOk := by
  unfold Service.saveNodeToStore Service.WriteOk
  cases hstore : s.store with
  | none => simp
  | some store =>
    simp only [Service.nextWrite]
    by_cases hw : s.writes.head?.getD true = true <;> simp [hw]

/-- Removing a subscription. If it cannot be saved, the index can be restored only if the
address has another entry left. -/
theorem Indexed.unsubscribeNode (h : Indexed config s) (hnode : s.nodes.get name = some node)
    {old : Subscription} (hold : node.subscribers.get jid = some old)
    (hsafe : s.WriteOk ∨ s.SubscribedElsewhere jid name) :
    Indexed config (s.unsubscribeNode config name node jid old).2 := by
  have hsub : s.Subscribed jid name := (subscribed_of_node hnode jid).mpr (by simp [hold])
  obtain ⟨k, hk⟩ := Option.isSome_iff_exists.mp (h.normal jid name hsub)
  unfold Service.unsubscribeNode Service.unindex
  simp only [hk, Option.bind_some]
  split
  · refine h.update name (b := false) hk ?_ ?_
    · intro k' j n
      simp only [saveNodeToStore_subscriptions]
      rw [Index.mem_nodes_remove]
      by_cases hn : k' = k ∧ j = jid ∧ n = name <;> simp [hn, Service.setSubscriber, Service.setNode]
    · refine subscribed_setSubscriber none hnode ?_
      rw [saveNodeToStore_nodes]
      rfl
  · rename_i hfail
    rw [saveNodeToStore_ok_iff] at hfail
    have helsewhere : s.SubscribedElsewhere jid name := hsafe.resolve_left hfail
    obtain ⟨n', hn', hs'⟩ := helsewhere
    have hentry : ((s.subscriptions.remove k jid name).entry k jid).isSome :=
      Index.entry_remove_of_mem ((h.mem_iff k jid n').mpr ⟨hk, hs'⟩) hn'
    obtain ⟨index, hrestore, hmem⟩ := Index.restore_of_entry (n := name) hentry true
    simp only [Service.setSubscriber, Service.setNode, saveNodeToStore_subscriptions,
      saveNodeToStore_nodes, Table.set_set, hrestore]
    refine h.update name (b := true) hk ?_
      (subscribed_setSubscriber (some old) hnode rfl)
    intro k' j n
    rw [hmem, Index.mem_nodes_remove]
    split <;> simp_all

theorem subscribed_createNode (name : NodeName) (options : NodeConfig) (j : Jid) (n : NodeName) :
    (s.createNode config name options).2.Subscribed j n ↔ s.Subscribed j n := by
  unfold Service.createNode
  cases hnode : s.nodes.get name with
  | some node => rfl
  | none =>
    have hnone : ¬ s.Subscribed j name := by
      rintro ⟨node, hget, -⟩
      rw [hnode] at hget
      cases hget
    simp only
    split
    · rw [subscribed_setNode (s := s) name
        { name := name, subscribers := ∅, config := options, affiliations := ∅,
          capabilities := none } (by simp [Service.setNode, Service.setData])]
      split
      · rename_i hn
        simp [hn, hnone]
      · rfl
    · refine subscribed_congr ?_ j n
      simp only [Service.setNode, saveNodeToStore_nodes, Table.set_set]
      rw [← hnode, Table.set_get_self]

theorem createNode_subscriptions (name : NodeName) (options : NodeConfig) :
    (s.createNode config name options).2.subscriptions = s.subscriptions := by
  unfold Service.createNode
  split
  · rfl
  · simp only
    split <;> simp [Service.setNode, Service.setData]

theorem Indexed.createNode (h : Indexed config s) (name : NodeName) (options : NodeConfig) :
    Indexed config (s.createNode config name options).2 :=
  h.congr (createNode_subscriptions name options) (subscribed_createNode name options)

variable {options : NodeConfig}

theorem createNode_get
    (h : s.createNode config name options = (.ok, t)) : ∃ node, t.nodes.get name = some node := by
  unfold Service.createNode at h
  cases hnode : s.nodes.get name with
  | some node => simp [hnode] at h
  | none =>
    simp only [hnode] at h
    split at h
    · cases h
      simp [Service.setNode, Service.setData]
    · cases h

theorem createNode_absent
    (h : s.createNode config name options = (.ok, t)) : s.nodes.get name = none := by
  unfold Service.createNode at h
  cases hnode : s.nodes.get name with
  | some node => simp [hnode] at h
  | none => rfl

theorem createNode_writeOk (h : s.createNode config name options = (.ok, t)) : s.WriteOk := by
  unfold Service.createNode at h
  cases hnode : s.nodes.get name with
  | some node => simp [hnode] at h
  | none =>
    simp only [hnode] at h
    split at h
    · rename_i hok
      exact (saveNodeToStore_ok_iff (s := s.setNode name _) _).mp hok
    · cases h

/-- `add_subscription` gets to the node: the address may be subscribed, and the node exists
or is created. -/
def Service.SubscribeReaches (config : Config Data Item) (s : Service Data Item)
    (name : NodeName) (actor : Actor) (jid : Jid) : Prop :=
  s.may config name actor (Service.capFor config actor jid .subscribe .subscribeOther) = true ∧
    s.mayUser config name jid .beSubscribed = true ∧
    ((s.nodes.get name).isSome = true ∨ config.autocreateOnSubscribe = true ∧ s.WriteOk)

variable {actor : Actor}

theorem Indexed.addSubscription (h : Indexed config s)
    (hjid : s.SubscribeReaches config name actor jid → (config.normalizer.normalize jid).isSome)
    (options : Option String) :
    Indexed config (s.addSubscription config name actor jid options).2 := by
  unfold Service.addSubscription
  split
  · exact h
  rename_i hmay
  split
  · exact h
  rename_i hbe
  have hreach := fun hlast => hjid ⟨by simpa using hmay, by simpa using hbe, hlast⟩
  cases hnode : s.nodes.get name with
  | some node => exact h.subscribeNode hnode (hreach (Or.inl (by simp [hnode]))) options
  | none =>
    simp only
    split
    · exact h
    rename_i hauto
    have hcreated := h.createNode name .empty
    rcases hcreate : s.createNode config name .empty with ⟨result, t⟩
    rw [hcreate] at hcreated
    cases result with
    | ok =>
      obtain ⟨node, hget⟩ := createNode_get hcreate
      simp only [hget]
      exact hcreated.subscribeNode hget
        (hreach (Or.inr ⟨by simpa using hauto, createNode_writeOk hcreate⟩)) options
    | failed error => exact hcreated
    | raised => exact hcreated

theorem Indexed.setAffiliation (h : Indexed config s) (name : NodeName) (jid : Jid) (actor : Actor)
    (affiliation : Option Affiliation) :
    Indexed config (s.setAffiliation config name actor jid affiliation).2 := by
  unfold Service.setAffiliation
  split
  · exact h
  cases hnode : s.nodes.get name with
  | none => exact h
  | some node =>
    cases hk : config.normalizer.normalize jid with
    | none => exact h
    | some k =>
      have hnormal : (config.normalizer.normalize k).isSome := by
        simp [config.normalizer.idempotent jid k hk]
      simp only
      split
      · exact h.setNode _ hnode rfl
          (by simp [Service.setNode]) (by simp [Service.setNode])
      · have hsaved : Indexed config
            ((s.setNode name (some
              { node with affiliations := node.affiliations.set k affiliation })).saveNodeToStore
              { node with affiliations := node.affiliations.set k affiliation }).2 :=
          h.setNode { node with affiliations := node.affiliations.set k affiliation } hnode rfl
            (by rw [saveNodeToStore_nodes]; rfl) (by rw [saveNodeToStore_subscriptions]; rfl)
        split
        · exact hsaved.addSubscription (fun _ => hnormal) none
        · split
          · exact hsaved.addSubscription (fun _ => hnormal) none
          · exact hsaved

theorem subscribed_setNode_none (name j : NodeName) (n : NodeName)
    (h : s'.nodes = s.nodes.set name none) :
    s'.Subscribed j n ↔ n ≠ name ∧ s.Subscribed j n := by
  unfold Service.Subscribed
  rw [h, Table.get_set]
  by_cases hn : n = name <;> simp [hn]

theorem Indexed.dropNode (h : Indexed config s) (hnone : ∀ j, ¬ s.Subscribed j name)
    (hnodes : s'.nodes = s.nodes.set name none) (hindex : s'.subscriptions = s.subscriptions) :
    Indexed config s' := by
  refine h.congr hindex fun j n => ?_
  rw [subscribed_setNode_none name j n hnodes]
  constructor
  · exact And.right
  · intro hs
    refine ⟨?_, hs⟩
    rintro rfl
    exact hnone j hs

/-- A call of `delete` gets to a node with subscribers. -/
def Service.DeleteReaches (config : Config Data Item) (s : Service Data Item) (name : NodeName)
    (actor : Actor) : Prop :=
  s.may config name actor .delete = true ∧ ∃ j, s.Subscribed j name

theorem Indexed.delete (h : Indexed config s) (hnone : ¬ s.DeleteReaches config name actor) :
    Indexed config (s.delete config name actor).2 := by
  unfold Service.delete
  split
  · exact h
  rename_i hmay
  have hnone : ∀ j, ¬ s.Subscribed j name := fun j hs => hnone ⟨by simpa using hmay, j, hs⟩
  cases hnode : s.nodes.get name with
  | none => exact h
  | some node =>
    simp only
    split
    · refine h.dropNode hnone ?_ ?_
      · simp [Service.broadcast, Service.setNode, Service.setData]
      · simp [Service.broadcast, Service.setNode, Service.setData]
    · refine h.dropNode hnone ?_ ?_
      · simp [Service.setNode, Service.setData]
      · simp [Service.setNode, Service.setData]

/-- A call of `remove_subscription` gets to the last subscription of an address and cannot
save its removal. -/
def Service.UnsubscribeFails (config : Config Data Item) (s : Service Data Item)
    (name : NodeName) (actor : Actor) (jid : Jid) : Prop :=
  s.may config name actor (Service.capFor config actor jid .unsubscribe .unsubscribeOther) = true ∧
    s.mayUser config name jid .beUnsubscribed = true ∧ s.Subscribed jid name ∧
    ¬ s.WriteOk ∧ ¬ s.SubscribedElsewhere jid name

theorem Indexed.removeSubscription (h : Indexed config s)
    (hsafe : ¬ s.UnsubscribeFails config name actor jid) :
    Indexed config (s.removeSubscription config name actor jid).2 := by
  unfold Service.removeSubscription
  split
  · exact h
  rename_i hmay
  split
  · exact h
  rename_i hbe
  cases hnode : s.nodes.get name with
  | none => exact h
  | some node =>
    cases hold : node.subscribers.get jid with
    | none =>
      simp only [hold]
      exact h
    | some old =>
      simp only [hold]
      refine h.unsubscribeNode hnode hold ?_
      by_contra hboth
      obtain ⟨hwrite, helse⟩ := not_or.mp hboth
      exact hsafe ⟨by simpa using hmay, by simpa using hbe,
        (subscribed_of_node hnode jid).mpr (by simp [hold]), hwrite, helse⟩

/-! ## Failed calls -/

theorem subscribeNode_failed (hnode : s.nodes.get name = some node) {options : Option String}
    {e : Error}
    (h : s.subscribeNode config name node jid options = (.failed e, t)) (j : Jid) (n : NodeName) :
    t.Subscribed j n ↔ s.Subscribed j n := by
  have hback : ∀ u : Service Data Item,
      u.nodes = s.nodes.set name (some
        { node with subscribers := node.subscribers.set jid (node.subscribers.get jid) }) →
      (u.Subscribed j n ↔ s.Subscribed j n) := by
    intro u hu
    rw [subscribed_setSubscriber _ hnode hu]
    split
    · rename_i hn
      rw [hn.1, hn.2, subscribed_of_node hnode]
    · rfl
  unfold Service.subscribeNode at h
  split at h
  · cases h
  · simp only at h
    split at h
    · cases h
    · split at h
      · cases h
        exact hback _ (by simp [Service.setSubscriber, Service.setNode])
      · cases h

theorem addSubscription_failed {options : Option String} {e : Error}
    (h : s.addSubscription config name actor jid options = (.failed e, t))
    (j : Jid) (n : NodeName) : t.Subscribed j n ↔ s.Subscribed j n := by
  unfold Service.addSubscription at h
  split at h
  · cases h
    rfl
  split at h
  · cases h
    rfl
  cases hnode : s.nodes.get name with
  | some node =>
    simp only [hnode] at h
    exact subscribeNode_failed hnode h j n
  | none =>
    simp only [hnode] at h
    split at h
    · cases h
      rfl
    have hcreated := @subscribed_createNode Data Item config s name .empty j n
    rcases hcreate : s.createNode config name .empty with ⟨result, u⟩
    rw [hcreate] at hcreated h
    cases result with
    | ok =>
      obtain ⟨node, hget⟩ := createNode_get hcreate
      simp only [hget] at h
      exact (subscribeNode_failed hget h j n).trans hcreated
    | failed error =>
      cases h
      exact hcreated
    | raised => cases h

theorem setAffiliation_failed {affiliation : Option Affiliation} {e : Error}
    (h : s.setAffiliation config name actor jid affiliation = (.failed e, t)) (j : Jid)
    (n : NodeName) : t.Subscribed j n ↔ s.Subscribed j n := by
  unfold Service.setAffiliation at h
  split at h
  · cases h
    rfl
  cases hnode : s.nodes.get name with
  | none =>
    simp only [hnode] at h
    cases h
    rfl
  | some node =>
    have hsame : ∀ (u : Service Data Item) (affiliations : Table Jid Affiliation),
        u.nodes = s.nodes.set name (some { node with affiliations := affiliations }) →
        (u.Subscribed j n ↔ s.Subscribed j n) := by
      intro u affiliations hu
      rw [subscribed_setNode name _ hu]
      split
      · rename_i hn
        rw [hn, subscribed_of_node hnode]
      · rfl
    simp only [hnode] at h
    split at h
    · cases h
    · rename_i k hk
      split at h
      · cases h
        exact hsame _ ((node.affiliations.set k affiliation).set k (node.affiliations.get k))
          (by simp [Service.setNode])
      · have hsaved := hsame
          ((s.setNode name (some
            { node with affiliations := node.affiliations.set k affiliation })).saveNodeToStore
            { node with affiliations := node.affiliations.set k affiliation }).2
          (node.affiliations.set k affiliation) (by rw [saveNodeToStore_nodes]; rfl)
        split at h
        · exact (addSubscription_failed h j n).trans hsaved
        · split at h
          · exact (addSubscription_failed h j n).trans hsaved
          · cases h

theorem Indexed.create (h : Indexed config s) (actor : Actor) (options : NodeConfig) :
    Indexed config (s.create config name actor options).2 := by
  unfold Service.create
  split
  · exact h
  have hcreated := h.createNode name options
  have hsub := fun j => @subscribed_createNode Data Item config s name options j name
  rcases hcreate : s.createNode config name options with ⟨result, t⟩
  rw [hcreate] at hcreated hsub
  cases result with
  | failed e => exact hcreated
  | raised => exact hcreated
  | ok =>
    cases actor with
    | service => exact hcreated
    | user owner =>
      have haffiliated := hcreated.setAffiliation name owner .service (some .owner)
      rcases hset : t.setAffiliation config name .service owner (some .owner) with ⟨result, u⟩
      simp only [hset]
      rw [hset] at haffiliated
      cases result with
      | ok => exact haffiliated
      | raised => exact haffiliated
      | failed e =>
        have hnone : ∀ j, ¬ u.Subscribed j name := by
          intro j hj
          obtain ⟨node, hget, -⟩ := (hsub j).mp ((setAffiliation_failed hset j name).mp hj)
          rw [createNode_absent hcreate] at hget
          cases hget
        exact haffiliated.dropNode hnone rfl rfl

/-! ## Items -/

/-- What a service keeps when only its items change. -/
structure SameButItems (s t : Service Data Item) : Prop where
  nodes : t.nodes = s.nodes
  affiliations : t.affiliations = s.affiliations
  subscriptions : t.subscriptions = s.subscriptions

/-- How an operation on the items of a node ends. -/
inductive ItemsSpec (s : Service Data Item) (name : NodeName) : Result × Service Data Item → Prop
  | failed (e : Error) : ItemsSpec s name (.failed e, s)
  | raised (hnode : (s.nodes.get name).isSome) (hdata : s.data.get name = none) :
    ItemsSpec s name (.raised, s)
  | ok (hnode : (s.nodes.get name).isSome) {t : Service Data Item} (hsame : SameButItems s t)
    (data : Data) (hdata : t.data = s.data.set name (some data)) : ItemsSpec s name (.ok, t)

theorem publishItem_items (hnode : s.nodes.get name = some node) (actor : Actor) (id : String)
    (item : Item) : ItemsSpec s name (s.publishItem config name node actor id item) := by
  have hsome := Option.isSome_of_eq_some hnode
  unfold Service.publishItem
  split
  · exact .failed _
  split
  · rename_i hdata
    exact .raised hsome hdata
  split
  · exact .failed _
  · exact .ok hsome ⟨rfl, rfl, rfl⟩ _ rfl

theorem retract_items (actor : Actor) (id : String) (notification : Option Item) :
    ItemsSpec s name (s.retract config name actor id notification) := by
  unfold Service.retract
  split
  · exact .failed _
  split
  · exact .failed _
  rename_i hnode
  have hsome := Option.isSome_of_eq_some hnode
  split
  · rename_i hdata
    exact .raised hsome hdata
  split
  · exact .failed _
  split
  · exact .failed _
  · simp only
    split <;> exact .ok hsome ⟨rfl, rfl, rfl⟩ _ rfl

theorem purge_items (actor : Actor) (notify : Bool) :
    ItemsSpec s name (s.purge config name actor notify) := by
  unfold Service.purge
  split
  · exact .failed _
  split
  · exact .failed _
  rename_i hnode
  simp only
  split <;> exact .ok (Option.isSome_of_eq_some hnode) ⟨rfl, rfl, rfl⟩ _ rfl

theorem ItemsSpec.same {out : Result × Service Data Item} (h : ItemsSpec s name out) :
    SameButItems s out.2 := by
  cases h with
  | failed e => exact ⟨rfl, rfl, rfl⟩
  | raised hnode hdata => exact ⟨rfl, rfl, rfl⟩
  | ok hnode hsame data hdata => exact hsame

theorem Indexed.items (h : Indexed config s) {out : Result × Service Data Item}
    (hout : ItemsSpec s name out) : Indexed config out.2 :=
  h.congr hout.same.subscriptions (subscribed_congr hout.same.nodes)

theorem Indexed.publish (h : Indexed config s) (actor : Actor) (id : String) (item : Item)
    (requested : Option (NodeConfig × Bool)) :
    Indexed config (s.publish config name actor id item requested).2 := by
  unfold Service.publish
  split
  · exact h
  cases hnode : s.nodes.get name with
  | some node =>
    simp only
    split
    · exact h
    · exact h.items (publishItem_items hnode actor id item)
  | none =>
    simp only
    split
    · exact h
    have hcreated := h.createNode name ((requested.map Prod.fst).getD .empty)
    rcases hcreate : s.createNode config name ((requested.map Prod.fst).getD .empty) with
      ⟨result, t⟩
    rw [hcreate] at hcreated
    cases result with
    | ok =>
      obtain ⟨node, hget⟩ := createNode_get hcreate
      simp only [hget]
      exact hcreated.items (publishItem_items hget actor id item)
    | failed e => exact hcreated
    | raised => exact hcreated

/-! ## Configuration -/

theorem mayUser_congr (haff : t.affiliations = s.affiliations)
    (hnode : s.nodes.get name = some node) {subs : Table Jid Subscription}
    (ht : t.nodes.get name = some { node with subscribers := subs }) (actor : Jid)
    (action : Action) : t.mayUser config name actor action = s.mayUser config name actor action := by
  simp [Service.mayUser, Service.getDefaultAffiliation, Service.nodeConfig, haff, hnode, ht]

/-- Along a list of subscribers, those that may not be subscribed are removed until one may
not be unsubscribed or a write fails, and that write is about an address with another
subscription. -/
def ExpelsSafely (may : Jid → Action → Bool) (elsewhere : Jid → Prop) :
    List Bool → List Jid → Prop
  | _, [] => True
  | writes, j :: js =>
    if may j .beSubscribed then ExpelsSafely may elsewhere writes js
    else if !may j .beUnsubscribed then True
    else
      match writes with
      | false :: _ => elsewhere j
      | writes => ExpelsSafely may elsewhere writes.tail js

/-- What a service keeps when it only touches its index. -/
structure SameButIndex (s t : Service Data Item) : Prop where
  nodes : t.nodes = s.nodes
  affiliations : t.affiliations = s.affiliations
  store : t.store = s.store
  writes : t.writes = s.writes

theorem unindex_same : SameButIndex s (s.unindex config name jid) := by
  unfold Service.unindex
  split <;> exact ⟨rfl, rfl, rfl, rfl⟩

theorem saveNodeToStore_affiliations (node : Node) :
    (s.saveNodeToStore node).2.affiliations = s.affiliations := by
  unfold Service.saveNodeToStore
  split
  · rfl
  · simp only
    split <;> rfl

theorem saveNodeToStore_writes (node : Node) :
    ((s.saveNodeToStore node).2.store = none ↔ s.store = none) ∧
      (s.store ≠ none → (s.saveNodeToStore node).2.writes = s.writes.tail) := by
  unfold Service.saveNodeToStore
  cases hstore : s.store with
  | none => simp [hstore]
  | some store =>
    by_cases hw : s.writes.head?.getD true = true <;> simp [Service.nextWrite, hw, hstore]

theorem removeSubscription_ok (h : s.removeSubscription config name actor jid = (.ok, t)) :
    ∃ node, s.nodes.get name = some node ∧ s.mayUser config name jid .beUnsubscribed = true ∧
      s.WriteOk ∧ t.nodes = s.nodes.set name
        (some { node with subscribers := node.subscribers.set jid none }) ∧
      t.affiliations = s.affiliations ∧ (t.store = none ↔ s.store = none) ∧
      (s.store ≠ none → t.writes = s.writes.tail) := by
  unfold Service.removeSubscription at h
  split at h
  · cases h
  split at h
  · cases h
  rename_i hbe
  cases hnode : s.nodes.get name with
  | none =>
    simp only [hnode] at h
    cases h
  | some node =>
    simp only [hnode] at h
    split at h
    · cases h
    rename_i old hold
    refine ⟨node, rfl, by simpa using hbe, ?_⟩
    unfold Service.unsubscribeNode at h
    simp only at h
    split at h
    · rename_i hok
      have hsame := @unindex_same Data Item config (s.setSubscriber name node jid none) name jid
      have hwrites := @saveNodeToStore_writes Data Item
        ((s.setSubscriber name node jid none).unindex config name jid)
        { node with subscribers := node.subscribers.set jid none }
      have hwrite := (saveNodeToStore_ok_iff _).mp hok
      simp only [Service.WriteOk, hsame.store, hsame.writes] at hwrite hwrites
      cases h
      refine ⟨hwrite, ?_, ?_, hwrites⟩
      · rw [saveNodeToStore_nodes, hsame.nodes]
        rfl
      · rw [saveNodeToStore_affiliations, hsame.affiliations]
        rfl
    · split at h <;> cases h

theorem Indexed.expelSubscribers {js : List Jid} (h : Indexed config s)
    (hsafe : s.store = none ∨
      ExpelsSafely (s.mayUser config name) (s.SubscribedElsewhere · name) s.writes js) :
    Indexed config (Service.expelSubscribers config name s js).2 := by
  induction js generalizing s with
  | nil => exact h
  | cons j js ih =>
    unfold Service.expelSubscribers
    by_cases hbe : s.mayUser config name j .beSubscribed = true
    · simp only [hbe, if_true]
      refine ih h ?_
      simpa [ExpelsSafely, hbe] using hsafe
    have hbe' : s.mayUser config name j .beSubscribed = false := by simpa using hbe
    simp only [hbe', Bool.false_eq_true, if_false]
    have hremove : ¬ s.UnsubscribeFails config name .service j := by
      rintro ⟨-, hun, -, hwrite, helse⟩
      rcases hsafe with hstore | hsafe
      · exact hwrite (Or.inl hstore)
      · have hhead : s.writes.head?.getD true = false := by
          simpa using fun hok => hwrite (Or.inr hok)
        cases hw : s.writes with
        | nil => simp [hw] at hhead
        | cons w ws =>
          have hw' : w = false := by simpa [hw] using hhead
          subst hw'
          simp only [ExpelsSafely, hbe', hun, hw] at hsafe
          exact helse hsafe
    have hremoved := h.removeSubscription hremove
    rcases hresult : s.removeSubscription config name .service j with ⟨result, t⟩
    rw [hresult] at hremoved
    cases result with
    | failed e => exact hremoved
    | raised => exact hremoved
    | ok =>
      obtain ⟨node, hnode, hun, hwrite, hnodes, haff, hstore, hwrites⟩ :=
        removeSubscription_ok hresult
      have hget : t.nodes.get name =
          some { node with subscribers := node.subscribers.set j none } := by
        rw [hnodes, Table.get_set_self]
      have hmay : t.mayUser config name = s.mayUser config name := by
        funext actor action
        exact mayUser_congr haff hnode hget actor action
      have helse : (fun j => t.SubscribedElsewhere j name) =
          fun j => s.SubscribedElsewhere j name := by
        funext i
        refine propext (exists_congr fun n => and_congr_right fun hn => ?_)
        rw [subscribed_setNode name _ hnodes, if_neg hn]
      refine ih hremoved ?_
      rw [hstore, hmay, helse]
      by_cases hnone : s.store = none
      · exact Or.inl hnone
      · rw [hwrites hnone]
        have hsafe := hsafe.resolve_left hnone
        have hhead := hwrite.resolve_left hnone
        cases hw : s.writes with
        | nil => simpa [ExpelsSafely, hbe', hun, hw] using Or.inr hsafe
        | cons w ws =>
          have hw' : w = true := by simpa [hw] using hhead
          subst hw'
          simpa [ExpelsSafely, hbe', hun, hw] using Or.inr hsafe

theorem Indexed.settleNodeConfig (h : Indexed config s) {order : KeyOrder Jid}
    {newConfig : NodeConfig}
    (hsafe : (Service.nodeConfig config node).accessModel ≠
        (Service.nodeConfig config { node with config := newConfig }).accessModel →
      s.store = none ∨
        ExpelsSafely (s.mayUser config name) (s.SubscribedElsewhere · name) s.writes
          (order.keys node.subscribers.keys)) :
    Indexed config (s.settleNodeConfig config order name node newConfig).2 := by
  have hloop : Indexed config
      (if (Service.nodeConfig config node).accessModel ≠
          (Service.nodeConfig config { node with config := newConfig }).accessModel then
        Service.expelSubscribers config name s (order.keys node.subscribers.keys)
      else (.ok, s)).2 := by
    split
    · rename_i hne
      exact h.expelSubscribers (hsafe hne)
    · exact h
  unfold Service.settleNodeConfig
  simp only
  generalize (if (Service.nodeConfig config node).accessModel ≠
      (Service.nodeConfig config { node with config := newConfig }).accessModel then
    Service.expelSubscribers config name s (order.keys node.subscribers.keys)
    else (.ok, s)) = looped at hloop ⊢
  obtain ⟨result, t⟩ := looped
  cases result with
  | failed e =>
    cases hnode : t.nodes.get name with
    | none => exact hloop
    | some node' => exact hloop.setNode { node' with config := node.config } hnode rfl rfl rfl
  | raised => exact hloop
  | ok =>
    simp only
    split
    · exact hloop.congr rfl (subscribed_congr rfl)
    split
    · split <;> exact hloop.congr rfl (subscribed_congr rfl)
    · exact hloop

/-- A call of `set_node_config` changes the access model, and a write fails when the last
subscription of an address that may no longer be subscribed is removed. -/
def Service.ConfigFails (config : Config Data Item) (s : Service Data Item)
    (order : KeyOrder Jid) (name : NodeName) (actor : Actor) (newConfig : NodeConfig) : Prop :=
  s.may config name actor .configure = true ∧
    config.checkNodeConfig name actor newConfig = true ∧ s.store ≠ none ∧ s.WriteOk ∧
    ∃ node, s.nodes.get name = some node ∧
      (Service.nodeConfig config node).accessModel ≠
        (Service.nodeConfig config { node with config := newConfig }).accessModel ∧
      ¬ ExpelsSafely
        ((s.setNode name (some { node with config := newConfig })).mayUser config name)
        (s.SubscribedElsewhere · name) s.writes.tail (order.keys node.subscribers.keys)

theorem Indexed.setNodeConfig (h : Indexed config s) {order : KeyOrder Jid}
    {newConfig : NodeConfig} (hsafe : ¬ s.ConfigFails config order name actor newConfig) :
    Indexed config (s.setNodeConfig config order name actor newConfig).2 := by
  unfold Service.setNodeConfig
  split
  · exact h
  rename_i hmay
  cases hnode : s.nodes.get name with
  | none => exact h
  | some node =>
    simp only
    split
    · exact h
    rename_i hcheck
    split
    · exact h.setNode node hnode rfl (by simp [Service.setNode]) (by simp [Service.setNode])
    rename_i hok
    have hwrite : s.WriteOk := by
      rw [Bool.not_eq_true, Bool.not_eq_false', saveNodeToStore_ok_iff] at hok
      exact hok
    obtain ⟨hstore, hwrites⟩ := @saveNodeToStore_writes Data Item
      (s.setNode name (some { node with config := newConfig })) { node with config := newConfig }
    have hnodes := @saveNodeToStore_nodes Data Item
      (s.setNode name (some { node with config := newConfig })) { node with config := newConfig }
    have haff := @saveNodeToStore_affiliations Data Item
      (s.setNode name (some { node with config := newConfig })) { node with config := newConfig }
    have hsaved := h.setNode { node with config := newConfig } hnode rfl hnodes
      (saveNodeToStore_subscriptions _)
    generalize ((s.setNode name (some
      { node with config := newConfig })).saveNodeToStore { node with config := newConfig }).2 = t
      at hstore hwrites hnodes haff hsaved ⊢
    have hmay' : t.mayUser config name =
        (s.setNode name (some { node with config := newConfig })).mayUser config name := by
      funext actor action
      simp only [Service.mayUser, Service.getDefaultAffiliation, hnodes, haff]
    have helse : (fun j => t.SubscribedElsewhere j name) =
        fun j => s.SubscribedElsewhere j name := by
      funext i
      refine propext (exists_congr fun n => and_congr_right fun hn => ?_)
      rw [subscribed_setNode name _ hnodes, if_neg hn]
    refine hsaved.settleNodeConfig fun hmodel => ?_
    rw [hmay', helse, hstore]
    by_contra hboth
    obtain ⟨hnone, hexpel⟩ := not_or.mp hboth
    rw [hwrites hnone] at hexpel
    exact hsafe ⟨by simpa using hmay, by simpa using hcheck, hnone, hwrite, node, hnode, hmodel,
      hexpel⟩

end

/-! ## The answer of `get_subscriptions` -/

/-- `service.subscriptions[normalize_jid(j)][j][n]` is set exactly if `nodes[n]` exists and
`nodes[n].subscribers[j]` is set. -/
def IndexAgrees (config : Config Data Item) (s : Service Data Item) : Prop :=
  ∀ j n, (∃ k, config.normalizer.normalize j = some k ∧ n ∈ s.subscriptions.nodes k j) ↔
    s.Subscribed j n

/-- `get_subscriptions` for an actor who may ask does not raise an error and returns each
current subscription of the address once. -/
def AnswersExactly (config : Config Data Item) (s : Service Data Item) : Prop :=
  ∀ order actor jid,
    s.may config none actor
      (Service.capFor config actor jid .getSubscriptions .getSubscriptionsOther) = true →
    ∃ entries, s.getSubscriptions config order actor jid = some (.ok entries) ∧ entries.Nodup ∧
      ∀ e, e ∈ entries ↔
        (∃ k, config.normalizer.normalize jid = some k ∧
          config.normalizer.normalize e.jid = some k) ∧
        s.Subscribed e.jid e.node ∧
        e.subscription = (s.nodes.get e.node).bind fun node => node.subscribers.get e.jid

theorem Indexed.agrees (h : Indexed config s) : IndexAgrees config s := by
  intro j n
  constructor
  · rintro ⟨k, -, hmem⟩
    exact ((h.mem_iff k j n).mp hmem).2
  · intro hs
    obtain ⟨k, hk⟩ := Option.isSome_iff_exists.mp (h.normal j n hs)
    exact ⟨k, hk, (h.mem_iff k j n).mpr ⟨hk, hs⟩⟩

theorem mem_bucketPairs {order : KeyOrder String} {subs : Table Jid (Finset NodeName)} {j : Jid}
    {n : NodeName} :
    (j, n) ∈ Service.bucketPairs order subs ↔ n ∈ (subs.get j).getD ∅ := by
  simp only [Service.bucketPairs, List.mem_flatMap, List.mem_map, order.mem_keys, Prod.mk.injEq]
  constructor
  · rintro ⟨j', -, n', hn, rfl, rfl⟩
    exact hn
  · intro hn
    refine ⟨j, ?_, n, hn, rfl, rfl⟩
    cases hget : subs.get j with
    | none => simp [hget] at hn
    | some nodes => exact (Table.mem_keys subs j).mpr ⟨nodes, hget⟩

theorem bucketPairs_nodup (order : KeyOrder String) (subs : Table Jid (Finset NodeName)) :
    (Service.bucketPairs order subs).Nodup := by
  refine List.nodup_flatMap.mpr ⟨?_, ?_⟩
  · intro j _
    exact (order.nodup _).map fun n n' h => (Prod.mk.inj h).2
  · refine (order.nodup _).imp fun hne => ?_
    intro p hp hp'
    obtain ⟨n, -, rfl⟩ := List.mem_map.mp hp
    obtain ⟨n', -, heq⟩ := List.mem_map.mp hp'
    exact hne (Prod.mk.inj heq).1.symm

/-- The entry of the answer for a pair of the index. -/
def Service.entryOf (s : Service Data Item) (p : Jid × NodeName) : Service.Entry :=
  { node := p.2
    jid := p.1
    subscription := (s.nodes.get p.2).bind fun node => node.subscribers.get p.1 }

theorem Indexed.answers (h : Indexed config s) : AnswersExactly config s := by
  intro order actor jid hmay
  unfold Service.getSubscriptions
  simp only [hmay, Bool.not_true, Bool.false_eq_true, if_false]
  cases hbucket : (config.normalizer.normalize jid).bind s.subscriptions.get with
  | none =>
    refine ⟨[], rfl, List.nodup_nil, ?_⟩
    rintro ⟨n, j, sub⟩
    simp only [List.not_mem_nil, false_iff]
    rintro ⟨⟨k, hk, hj⟩, hs, -⟩
    have hmem := (h.mem_iff k j n).mpr ⟨hj, hs⟩
    rw [hk] at hbucket
    have hget : Table.get s.subscriptions k = none := hbucket
    simp [Index.nodes, Index.entry, hget] at hmem
  | some subs =>
    obtain ⟨k, hk, hsubs⟩ := Option.bind_eq_some_iff.mp hbucket
    have hnodes : ∀ j, s.subscriptions.nodes k j = (subs.get j).getD ∅ := by
      intro j
      have hget : Table.get s.subscriptions k = some subs := hsubs
      simp [Index.nodes, Index.entry, hget]
    have hpairs : ∀ j n, (j, n) ∈ Service.bucketPairs order subs ↔
        config.normalizer.normalize j = some k ∧ s.Subscribed j n := by
      intro j n
      rw [mem_bucketPairs, ← hnodes, h.mem_iff]
    have hflat : s.flattenSubscriptions order subs =
        some ((Service.bucketPairs order subs).map s.entryOf) := by
      refine Lists.mapM_eq_some ?_
      rintro ⟨j, n⟩ hp
      obtain ⟨node, hnode, -⟩ := ((hpairs j n).mp hp).2
      simp [Service.entryOf, hnode]
    refine ⟨(Service.bucketPairs order subs).map s.entryOf,
      by simp only [hflat, Option.map_some], ?_, ?_⟩
    · refine (bucketPairs_nodup order subs).map ?_
      rintro ⟨j, n⟩ ⟨j', n'⟩ heq
      simp only [Service.entryOf, Service.Entry.mk.injEq] at heq
      rw [heq.1, heq.2.1]
    · rintro ⟨n, j, sub⟩
      simp only [List.mem_map, Prod.exists, hpairs, Service.entryOf, Service.Entry.mk.injEq]
      constructor
      · rintro ⟨j', n', ⟨hj, hs⟩, rfl, rfl, rfl⟩
        exact ⟨⟨k, hk, hj⟩, hs, rfl⟩
      · rintro ⟨⟨k', hk', hj⟩, hs, rfl⟩
        rw [hk] at hk'
        cases hk'
        exact ⟨j, n, ⟨hj, hs⟩, rfl, rfl, rfl⟩

/-! ## Runs -/

/-- The call leaves the index behind: it deletes a node with subscribers, subscribes an
address that cannot be normalized, or cannot save the removal of the last subscription of an
address. -/
def Call.LeavesIndex (config : Config Data Item) (s : Service Data Item) (c : Call Item) : Prop :=
  let s := { s with writes := c.writes }
  match c.op with
  | .delete name actor => s.DeleteReaches config name actor
  | .addSubscription name actor jid _ =>
    s.SubscribeReaches config name actor jid ∧ config.normalizer.normalize jid = none
  | .removeSubscription name actor jid => s.UnsubscribeFails config name actor jid
  | .setNodeConfig name actor newConfig => s.ConfigFails config c.order name actor newConfig
  | _ => False

theorem Indexed.step (h : Indexed config s) {c : Call Item} (hok : ¬ c.LeavesIndex config s) :
    Indexed config (s.step config c) := by
  have hs : Indexed config { s with writes := c.writes } := h.congr rfl (subscribed_congr rfl)
  obtain ⟨op, writes, order⟩ := c
  cases op with
  | create name actor options => exact hs.create actor options
  | delete name actor => exact hs.delete hok
  | addSubscription name actor jid options =>
    refine hs.addSubscription (fun hreach => ?_) options
    by_contra hnone
    exact hok ⟨hreach, by simpa using hnone⟩
  | removeSubscription name actor jid => exact hs.removeSubscription hok
  | setAffiliation name actor jid affiliation => exact hs.setAffiliation name jid actor affiliation
  | publish name actor id item requested => exact hs.publish actor id item requested
  | retract name actor id notification => exact hs.items (retract_items actor id notification)
  | purge name actor notify => exact hs.items (purge_items actor notify)
  | setNodeConfig name actor newConfig => exact hs.setNodeConfig hok

/-- Nobody is subscribed and the index is empty. -/
def Service.NoSubscribers (s : Service Data Item) : Prop :=
  s.subscriptions = ∅ ∧ ∀ n node, s.nodes.get n = some node → node.subscribers = ∅

theorem new_noSubscribers (config : Config Data Item) (order : KeyOrder NodeName)
    {store : Option (Table NodeName Node)}
    (hstore : ∀ nodes name node, store = some nodes → nodes.get name = some node →
      node.subscribers = ∅) :
    (Service.new config order store).NoSubscribers := by
  unfold Service.new
  refine List.foldlRecOn (motive := Service.NoSubscribers) _ _ ?_ ?_
  · exact ⟨rfl, fun n node hnode => by simp at hnode⟩
  · rintro s ⟨hsubs, hnodes⟩ name -
    cases hget : (store.getD ∅).get name with
    | none => exact ⟨hsubs, hnodes⟩
    | some stored =>
      refine ⟨hsubs, fun n node hnode => ?_⟩
      simp only [Service.setNode, Service.setData, Table.get_set] at hnode
      split at hnode
      · cases hnode
        cases store with
        | none => simp at hget
        | some nodes => exact hstore nodes name stored rfl hget
      · exact hnodes n node hnode

theorem new_indexed (config : Config Data Item) (order : KeyOrder NodeName)
    {store : Option (Table NodeName Node)}
    (hstore : ∀ nodes name node, store = some nodes → nodes.get name = some node →
      node.subscribers = ∅) :
    Indexed config (Service.new config order store) := by
  have hempty := new_noSubscribers config order hstore
  have hnone : ∀ j n, ¬ (Service.new config order store).Subscribed j n := by
    rintro j n ⟨node, hnode, hsome⟩
    rw [hempty.2 n node hnode] at hsome
    simp at hsome
  constructor
  · intro k j n
    have hnodes : (Service.new config order store).subscriptions.nodes k j = ∅ := by
      have hget : Table.get (Service.new config order store).subscriptions k = none := by
        rw [hempty.1]
        exact Table.get_empty k
      simp [Index.nodes, Index.entry, hget]
    simp [hnodes, hnone]
  · intro j n hs
    exact absurd hs (hnone j n)

/-- From a store without subscribers, and as long as no call leaves the index behind, the
index agrees with the nodes and `get_subscriptions` answers from it without raising an error. -/
theorem index_agrees (config : Config Data Item) (order : KeyOrder NodeName)
    (store : Option (Table NodeName Node))
    (hstore : ∀ nodes name node, store = some nodes → nodes.get name = some node →
      node.subscribers = ∅)
    (calls : List (Call Item))
    (hok : Machine.Guarded (Service.step config) (fun s c => ¬ c.LeavesIndex config s)
      (Service.new config order store) calls) :
    Machine.Always (Service.step config)
      (fun s => IndexAgrees config s ∧ AnswersExactly config s)
      (Service.new config order store) calls :=
  (Machine.always_of_guarded (fun _ _ h hok => h.step hok)
    (new_indexed config order hstore) hok).mono fun _ h => ⟨h.agrees, h.answers⟩

/-- A service with the default configuration and without stores. -/
def plainConfig : Config Unit String :=
  { normalizer := { normalize := some, idempotent := fun _ _ _ => rfl }
    nodeDefaults := .empty
    autocreateOnSubscribe := false
    autocreateOnPublish := false
    getAffiliation := fun _ _ _ => none
    capabilities := defaultCapabilities
    accessModels := fun _ _ => none
    itemcheck := fun _ => true
    checkNodeConfig := fun _ _ _ => true
    itemstore :=
      { new := fun _ _ => ()
        has := fun _ _ => false
        set := fun _ _ _ => some ()
        clear := none
        resize := fun _ _ => () } }

/-- A call to a service without a node store. -/
def plainCall (op : Op String) : Call String :=
  { op := op, writes := [], order := .ascending String }

/-- A subscription that is made and ended. -/
theorem index_agrees_unsubscribed :
    Machine.Always (Service.step plainConfig)
      (fun s => IndexAgrees plainConfig s ∧ AnswersExactly plainConfig s)
      (Service.new plainConfig (.ascending String) none)
      [plainCall (.create "news" .service .empty),
        plainCall (.addSubscription "news" (.user "romeo@verona") "romeo@verona" none),
        plainCall (.removeSubscription "news" (.user "romeo@verona") "romeo@verona")] := by
  refine index_agrees plainConfig (.ascending String) none (by simp) _ ⟨id, ?_, ?_, trivial⟩
  · rintro ⟨-, hnone⟩
    cases hnone
  · rintro ⟨-, -, -, hwrite, -⟩
    exact hwrite (Or.inl (by decide +kernel))

/-- A deleted node stays in the index entries of its subscribers. -/
theorem delete_leaves_index :
    ¬ Machine.Always (Service.step plainConfig)
      (fun s => IndexAgrees plainConfig s ∧ AnswersExactly plainConfig s)
      (Service.new plainConfig (.ascending String) none)
      [plainCall (.create "news" .service .empty),
        plainCall (.addSubscription "news" (.user "romeo@verona") "romeo@verona" none),
        plainCall (.delete "news" .service)] := by
  rintro ⟨-, -, -, hagrees, -⟩
  have hgone : ¬ Service.Subscribed
      (Machine.run (Service.step plainConfig) (Service.new plainConfig (.ascending String) none)
        [plainCall (.create "news" .service .empty),
          plainCall (.addSubscription "news" (.user "romeo@verona") "romeo@verona" none),
          plainCall (.delete "news" .service)]) "romeo@verona" "news" := by
    rintro ⟨node, hnode, -⟩
    have hnone : ((Machine.run (Service.step plainConfig)
        (Service.new plainConfig (.ascending String) none)
        [plainCall (.create "news" .service .empty),
          plainCall (.addSubscription "news" (.user "romeo@verona") "romeo@verona" none),
          plainCall (.delete "news" .service)]).nodes.get "news").isNone := by
      decide +kernel
    rw [hnode] at hnone
    cases hnone
  exact hgone ((hagrees "romeo@verona" "news").mp ⟨"romeo@verona", rfl, by decide +kernel⟩)

end Prosody.Pubsub
