import Prosody.Pubsub.Index

/-! # Failed calls of a service

Each operation changes the service before it writes to the store, and rolls back by hand if
the write fails. -/

namespace Prosody.Pubsub

/-! ## Rolling back the index -/

namespace Index

variable {index : Index} {k j : Jid} {n : NodeName}

theorem entry_eq (hsubs : Table.get index k = some subs) :
    index.entry k j = subs.get j := by
  simp [entry, hsubs]

/-- Writing an entry of an existing bucket changes nothing exactly if it is there already. -/
theorem set_entry_eq_iff {subs : Table Jid (Finset NodeName)} (hsubs : Table.get index k = some subs)
    (nodes : Finset NodeName) :
    Table.set index k (some (subs.set j (some nodes))) = index ↔
      index.entry k j = some nodes := by
  constructor
  · intro h
    rw [← h, entry_set]
    simp
  · intro h
    rw [entry_eq hsubs] at h
    rw [← h, Table.set_get_self, ← hsubs, Table.set_get_self]

/-- Taking back a removal works if the entry held another node. -/
theorem restore_remove_eq_iff (index : Index) (k j : Jid) (n : NodeName) :
    (index.remove k j n).restore k j n true = some index ↔
      ∃ nodes, index.entry k j = some nodes ∧ n ∈ nodes ∧ nodes ≠ {n} := by
  cases hsubs : Table.get index k with
  | none => simp [remove, restore, hsubs, entry]
  | some subs =>
    cases hnodes : subs.get j with
    | none =>
      have hempty : restore (index.remove k j n) k j n true = none := by
        by_cases hkeys : subs.keys = ∅ <;>
          simp [remove, restore, hsubs, hnodes, hkeys]
      simp [hempty, entry_eq hsubs, hnodes]
    | some nodes =>
      by_cases herase : nodes.erase n = ∅
      · have hempty : restore (index.remove k j n) k j n true = none := by
          by_cases hkeys : (subs.set j none).keys = ∅ <;>
            simp [remove, restore, hsubs, hnodes, herase, hkeys]
        have hsingle : n ∈ nodes → nodes = {n} := by
          intro hmem
          rw [← Finset.insert_erase hmem, herase]
          rfl
        simp only [hempty, entry_eq hsubs, hnodes]
        simpa using hsingle
      · have hkeys : (subs.set j (some (nodes.erase n))).keys ≠ ∅ := by
          intro hkeys
          have hget := Table.get_of_keys_eq_empty hkeys j
          simp at hget
        have hrestore : restore (index.remove k j n) k j n true =
            some (Table.set index k (some (subs.set j (some (insert n (nodes.erase n)))))) := by
          simp [remove, restore, hsubs, hnodes, herase, hkeys]
        rw [hrestore, Option.some_inj, set_entry_eq_iff hsubs, entry_eq hsubs, hnodes]
        constructor
        · intro h
          refine ⟨nodes, rfl, ?_, ?_⟩
          · rw [Option.some.inj h]
            exact Finset.mem_insert_self n _
          · rintro rfl
            simp at herase
        · rintro ⟨nodes', h, hmem, -⟩
          cases h
          rw [Finset.insert_erase hmem]

end Index

variable {Data Item : Type} {config : Config Data Item} {s t : Service Data Item}

/-- The nodes, the index and the items are as they were. -/
structure Service.SameState (s t : Service Data Item) : Prop where
  nodes : t.nodes = s.nodes
  subscriptions : t.subscriptions = s.subscriptions
  data : t.data = s.data

/-- The affiliations are as they were, too. -/
structure Service.TakenBack (s t : Service Data Item) : Prop extends s.SameState t where
  affiliations : t.affiliations = s.affiliations

/-- The write after the next `k` ones succeeds, or there is no store. -/
def Service.WriteOkAt (s : Service Data Item) (k : Nat) : Prop :=
  s.store = none ∨ (s.writes.drop k).head?.getD true = true

section

variable {name : NodeName} {node : Node} {jid : Jid}

@[simp] theorem saveNodeToStore_data (node : Node) :
    (s.saveNodeToStore node).2.data = s.data := by
  unfold Service.saveNodeToStore
  split
  · rfl
  · simp only
    split <;> rfl

@[simp] theorem deleteNodeInStore_data : (s.deleteNodeInStore name).2.data = s.data := by
  unfold Service.deleteNodeInStore
  split
  · rfl
  · simp only
    split <;> rfl

theorem writeOkAt_of_tail (hstore : t.store = none ↔ s.store = none)
    (hwrites : s.store ≠ none → t.writes = s.writes.tail) (k : Nat) :
    t.WriteOkAt k ↔ s.WriteOkAt (k + 1) := by
  unfold Service.WriteOkAt
  rw [hstore]
  by_cases hnone : s.store = none
  · simp [hnone]
  · simp [hnone, hwrites hnone, List.drop_tail]

theorem saveNodeToStore_writeOkAt (node : Node) (k : Nat) :
    (s.saveNodeToStore node).2.WriteOkAt k ↔ s.WriteOkAt (k + 1) :=
  writeOkAt_of_tail (saveNodeToStore_writes node).1 (saveNodeToStore_writes node).2 k

/-! ## Subscriptions -/

variable {out : Result × Service Data Item}

/-- Rolling back the end of a subscription: the index entry that is restored has not been
dropped, since it lists another node. -/
def Service.UnsubscribeRollsBack (config : Config Data Item) (s : Service Data Item)
    (name : NodeName) (jid : Jid) : Prop :=
  ∃ k nodes, config.normalizer.normalize jid = some k ∧
    s.subscriptions.entry k jid = some nodes ∧ name ∈ nodes ∧ nodes ≠ {name}

theorem unindex_writeOk :
    ((s.setSubscriber name node jid none).unindex config name jid).WriteOk ↔ s.WriteOkAt 0 := by
  have hsame : SameButIndex (s.setSubscriber name node jid none)
      ((s.setSubscriber name node jid none).unindex config name jid) := unindex_same
  simp only [Service.WriteOk, hsame.store, hsame.writes]
  rfl

/-- How `remove_subscription` ends once the subscription has been found. -/
structure UnsubscribeSpec (config : Config Data Item) (s : Service Data Item) (name : NodeName)
    (jid : Jid) (out : Result × Service Data Item) : Prop where
  ok : out.1 = .ok ↔ s.WriteOkAt 0
  nodes : ∀ e, out.1 = .failed e → out.2.nodes = s.nodes
  data : ∀ e, out.1 = .failed e → out.2.data = s.data
  subscriptions : ∀ e, out.1 = .failed e →
    (out.2.subscriptions = s.subscriptions ↔ s.UnsubscribeRollsBack config name jid)
  raised : out.1 = .raised → ¬ s.UnsubscribeRollsBack config name jid

theorem unsubscribeNode_spec (config : Config Data Item) (hnode : s.nodes.get name = some node)
    {old : Subscription} (hold : node.subscribers.get jid = some old) :
    UnsubscribeSpec config s name jid (s.unsubscribeNode config name node jid old) := by
  have hback : s.nodes.set name (some { node with
      subscribers := node.subscribers.set jid (some old) }) = s.nodes := by
    rw [← hold, Table.set_get_self, ← hnode, Table.set_get_self]
  unfold Service.unsubscribeNode
  simp only
  split
  · rename_i hok
    have hwrite := unindex_writeOk.mp ((saveNodeToStore_ok_iff _).mp hok)
    constructor <;> simp [hwrite]
  · rename_i hfail
    have hwrite : ¬ s.WriteOkAt 0 := fun hok =>
      hfail ((saveNodeToStore_ok_iff _).mpr (unindex_writeOk.mpr hok))
    cases hk : config.normalizer.normalize jid with
    | none =>
      have hrolls : ¬ s.UnsubscribeRollsBack config name jid := by
        rintro ⟨k, nodes, hk', -⟩
        rw [hk] at hk'
        cases hk'
      constructor <;> simp [hwrite, hrolls]
    | some k =>
      have hrestore := Index.restore_remove_eq_iff s.subscriptions k jid name
      have hrolls : s.UnsubscribeRollsBack config name jid ↔
          ∃ nodes, s.subscriptions.entry k jid = some nodes ∧ name ∈ nodes ∧ nodes ≠ {name} := by
        simp only [Service.UnsubscribeRollsBack, hk, Option.some.injEq]
        constructor
        · rintro ⟨k', nodes, rfl, hentry⟩
          exact ⟨nodes, hentry⟩
        · rintro ⟨nodes, hentry⟩
          exact ⟨k, nodes, rfl, hentry⟩
      rw [← hrestore] at hrolls
      simp only [Service.unindex, hk, Service.setSubscriber, Service.setNode, Option.bind_some,
        saveNodeToStore_subscriptions, saveNodeToStore_nodes, Table.set_set, hback]
      cases hindex : (s.subscriptions.remove k jid name).restore k jid name true with
      | none => constructor <;> simp [hwrite, hrolls, hindex]
      | some index => constructor <;> simp [hwrite, hrolls, hindex]

/-- The node that `create` makes. -/
def newNode (name : NodeName) (options : NodeConfig) : Node where
  name := name
  subscribers := ∅
  config := options
  affiliations := ∅
  capabilities := none

structure Created (config : Config Data Item) (s : Service Data Item) (name : NodeName)
    (options : NodeConfig) (t : Service Data Item) : Prop where
  nodes : t.nodes = s.nodes.set name (some (newNode name options))
  data : t.data = s.data.set name
    (some (config.itemstore.new (Service.nodeConfig config (newNode name options)) name))
  subscriptions : t.subscriptions = s.subscriptions
  affiliations : t.affiliations = s.affiliations
  writeOkAt : ∀ k, t.WriteOkAt k ↔ s.WriteOkAt (k + 1)

theorem createNode_of_writeOk (config : Config Data Item) (hnode : s.nodes.get name = none)
    (options : NodeConfig) (hwrite : s.WriteOkAt 0) :
    ∃ t, s.createNode config name options = (.ok, t) ∧ Created config s name options t := by
  have hok : ((s.setNode name (some (newNode name options))).saveNodeToStore
      (newNode name options)).1 = true :=
    (saveNodeToStore_ok_iff (s := s.setNode name (some (newNode name options))) _).mpr hwrite
  refine ⟨((s.setNode name (some (newNode name options))).saveNodeToStore
    (newNode name options)).2.setData name
      (some (config.itemstore.new (Service.nodeConfig config (newNode name options)) name)),
    ?_, ?_⟩
  · simp only [Service.createNode, hnode]
    exact if_pos hok
  · constructor
    · exact saveNodeToStore_nodes _
    · simp [Service.setData, Service.setNode]
    · exact saveNodeToStore_subscriptions _
    · exact saveNodeToStore_affiliations _
    · exact fun k => saveNodeToStore_writeOkAt _ k

theorem createNode_of_refused (config : Config Data Item) (hnode : s.nodes.get name = none)
    (options : NodeConfig) (hwrite : ¬ s.WriteOkAt 0) :
    ∃ t, s.createNode config name options = (.failed .internalServerError, t) ∧
      s.TakenBack t := by
  have hfail : ¬ ((s.setNode name (some (newNode name options))).saveNodeToStore
      (newNode name options)).1 = true := fun hok =>
    hwrite ((saveNodeToStore_ok_iff (s := s.setNode name (some (newNode name options))) _).mp hok)
  refine ⟨((s.setNode name (some (newNode name options))).saveNodeToStore
    (newNode name options)).2.setNode name none, ?_, ?_⟩
  · simp only [Service.createNode, hnode]
    exact if_neg hfail
  · refine ⟨⟨?_, ?_, ?_⟩, saveNodeToStore_affiliations _⟩
    · simp only [Service.setNode, saveNodeToStore_nodes, Table.set_set]
      rw [← hnode, Table.set_get_self]
    · simp [Service.setNode]
    · simp [Service.setNode]

variable {options : NodeConfig}

theorem Created.get (h : Created config s name options t) :
    t.nodes.get name = some (newNode name options) := by
  rw [h.nodes, Table.get_set_self]

def Service.Stocked (s : Service Data Item) : Prop :=
  ∀ name, (s.nodes.get name).isSome = (s.data.get name).isSome

def Node.affiliate (node : Node) (jid : Jid) (affiliation : Option Affiliation) : Node :=
  { node with affiliations := node.affiliations.set jid affiliation }

structure NodeSaved (s : Service Data Item) (name : NodeName) (node : Node)
    (t : Service Data Item) : Prop where
  nodes : t.nodes = s.nodes.set name (some node)
  data : t.data = s.data
  subscriptions : t.subscriptions = s.subscriptions
  affiliations : t.affiliations = s.affiliations
  writeOkAt : ∀ k, t.WriteOkAt k ↔ s.WriteOkAt (k + 1)

theorem nodeSaved (name : NodeName) (node : Node) :
    NodeSaved s name node ((s.setNode name (some node)).saveNodeToStore node).2 where
  nodes := saveNodeToStore_nodes node
  data := saveNodeToStore_data node
  subscriptions := saveNodeToStore_subscriptions node
  affiliations := saveNodeToStore_affiliations node
  writeOkAt k := saveNodeToStore_writeOkAt node k

theorem NodeSaved.get (h : NodeSaved s name node t) : t.nodes.get name = some node := by
  rw [h.nodes, Table.get_set_self]

theorem NodeSaved.mayUser (h : NodeSaved s name node t) (config : Config Data Item) :
    t.mayUser config name = (s.setNode name (some node)).mayUser config name := by
  funext actor action
  simp only [Service.mayUser, Service.getDefaultAffiliation, h.nodes, h.affiliations]
  rfl

variable {k : Jid}

/-- `set_affiliation` after its checks: a save that is refused is taken back, and otherwise the
address is subscribed if it must not be unsubscribed, or must not be subscribed. -/
theorem setAffiliation_eq {actor : Actor} (affiliation : Option Affiliation)
    (hmay : s.may config name actor .setAffiliation = true) (hnode : s.nodes.get name = some node)
    (hk : config.normalizer.normalize jid = some k) :
    ∃ t, NodeSaved s name (node.affiliate k affiliation) t ∧
      (¬ s.WriteOkAt 0 → ∃ u, s.TakenBack u ∧ s.setAffiliation config name actor jid affiliation =
        (.failed .internalServerError, u)) ∧
      (s.WriteOkAt 0 → s.setAffiliation config name actor jid affiliation =
        if !(node.subscribers.get k).isSome && !t.mayUser config name k .beUnsubscribed ||
            (node.subscribers.get k).isSome && !t.mayUser config name k .beSubscribed then
          t.addSubscription config name .service k none else (.ok, t)) := by
  have haffiliated := nodeSaved (s := s) name (node.affiliate k affiliation)
  have hok := saveNodeToStore_ok_iff (s := s.setNode name (some (node.affiliate k affiliation)))
    (node.affiliate k affiliation)
  have hcall : s.setAffiliation config name actor jid affiliation =
      let saved := (s.setNode name (some (node.affiliate k affiliation))).saveNodeToStore
        (node.affiliate k affiliation)
      if !saved.1 then
        (.failed .internalServerError,
          saved.2.setNode name (some ((node.affiliate k affiliation).affiliate k
            (node.affiliations.get k))))
      else if !(node.subscribers.get k).isSome &&
          !saved.2.mayUser config name k .beUnsubscribed then
        saved.2.addSubscription config name .service k none
      else if (node.subscribers.get k).isSome && !saved.2.mayUser config name k .beSubscribed then
        saved.2.addSubscription config name .service k none
      else (.ok, saved.2) := by
    simp only [Service.setAffiliation, hmay, hnode, hk, Bool.not_true, Bool.false_eq_true, if_false]
    rfl
  rcases hsave : (s.setNode name (some (node.affiliate k affiliation))).saveNodeToStore
    (node.affiliate k affiliation) with ⟨ok, t⟩
  rw [hsave] at haffiliated hok hcall
  refine ⟨t, haffiliated, ?_, ?_⟩
  · intro hwrite
    have hfalse : ok = false := by
      cases ok with
      | false => rfl
      | true => exact absurd (hok.mp rfl) hwrite
    refine ⟨_, ?_, by rw [hcall, hfalse]; rfl⟩
    have hback : t.nodes.set name (some ((node.affiliate k affiliation).affiliate k
        (node.affiliations.get k))) = s.nodes := by
      rw [haffiliated.nodes, Table.set_set]
      simp only [Node.affiliate, Table.set_set, Table.set_get_self]
      rw [← hnode, Table.set_get_self]
    exact ⟨⟨hback, haffiliated.subscriptions, haffiliated.data⟩, haffiliated.affiliations⟩
  · intro hwrite
    obtain rfl : ok = true := hok.mpr hwrite
    rw [hcall]
    cases (node.subscribers.get k).isSome <;> simp

theorem addSubscription_service (config : Config Data Item) (hnode : s.nodes.get name = some node)
    (jid : Jid) :
    s.addSubscription config name .service jid none =
      if s.mayUser config name jid .beSubscribed then s.subscribeNode config name node jid none
      else (.failed .forbidden, s) := by
  cases hmay : s.mayUser config name jid .beSubscribed <;>
    simp [Service.addSubscription, Service.may, hmay, hnode]

variable {affiliation : Option Affiliation}

theorem NodeSaved.subscribed (h : NodeSaved s name (node.affiliate k affiliation) t)
    (hnode : s.nodes.get name = some node) (j : Jid) :
    t.Subscribed j name ↔ s.Subscribed j name := by
  rw [subscribed_of_node h.get, subscribed_of_node hnode]
  rfl

/-- What an affiliation allows at a new node. -/
def Config.allows (config : Config Data Item) (affiliation : Affiliation) (action : Action) : Bool :=
  (config.capabilities affiliation action).getD false

/-- The loop of `set_node_config` after `k` removals: `subs` are the subscribers left. -/
structure Expelled (s : Service Data Item) (name : NodeName) (node : Node)
    (newConfig : NodeConfig) (k : Nat) (subs : Table Jid Subscription) (t : Service Data Item) :
    Prop where
  nodes : t.nodes = s.nodes.set name (some { node with config := newConfig, subscribers := subs })
  data : t.data = s.data
  affiliations : t.affiliations = s.affiliations
  writeOkAt : ∀ i, t.WriteOkAt i ↔ s.WriteOkAt (k + 1 + i)
  kept : ∀ j, (subs.get j).isSome → (node.subscribers.get j).isSome
  start : k = 0 → subs = node.subscribers ∧ t.subscriptions = s.subscriptions
  later : k ≠ 0 → subs ≠ node.subscribers

/-- The old configuration is put back. -/
def Service.restoreConfig (s : Service Data Item) (name : NodeName) (old : NodeConfig) :
    Service Data Item :=
  match s.nodes.get name with
  | some node => s.setNode name (some { node with config := old })
  | none => s

section

variable {newConfig : NodeConfig} {k : Nat} {subs : Table Jid Subscription}

theorem Expelled.get (h : Expelled s name node newConfig k subs t) :
    t.nodes.get name = some { node with config := newConfig, subscribers := subs } := by
  rw [h.nodes, Table.get_set_self]

theorem Expelled.mayUser (h : Expelled s name node newConfig k subs t)
    (config : Config Data Item) :
    t.mayUser config name =
      (s.setNode name (some { node with config := newConfig })).mayUser config name := by
  funext actor action
  have hget : (s.setNode name (some { node with config := newConfig })).nodes.get name =
      some { node with config := newConfig } := Table.get_set_self _ _ _
  exact mayUser_congr (s := s.setNode name (some { node with config := newConfig }))
    h.affiliations hget h.get actor action

theorem NodeSaved.expelled (h : NodeSaved s name { node with config := newConfig } t) :
    Expelled s name node newConfig 0 node.subscribers t where
  nodes := h.nodes
  data := h.data
  affiliations := h.affiliations
  writeOkAt i := by rw [h.writeOkAt, Nat.zero_add, Nat.add_comm]
  kept _ h := h
  start _ := ⟨rfl, h.subscriptions⟩
  later h := absurd rfl h

theorem removeSubscription_service (config : Config Data Item)
    (hnode : s.nodes.get name = some node) {old : Subscription}
    (hold : node.subscribers.get jid = some old) :
    s.removeSubscription config name .service jid =
      if s.mayUser config name jid .beUnsubscribed then s.unsubscribeNode config name node jid old
      else (.failed .forbidden, s) := by
  cases hmay : s.mayUser config name jid .beUnsubscribed <;>
    simp [Service.removeSubscription, Service.may, hmay, hnode, hold]

theorem unsubscribeNode_nodes (config : Config Data Item) (s : Service Data Item)
    (name : NodeName) (node : Node) (jid : Jid) (old : Subscription) :
    ∃ sub, (sub = none ∨ sub = some old) ∧
      (s.unsubscribeNode config name node jid old).2.nodes =
        s.nodes.set name (some { node with subscribers := node.subscribers.set jid sub }) ∧
      (s.unsubscribeNode config name node jid old).2.data = s.data ∧
      (s.unsubscribeNode config name node jid old).2.affiliations = s.affiliations := by
  have hsame : SameButIndex (s.setSubscriber name node jid none)
      ((s.setSubscriber name node jid none).unindex config name jid) := unindex_same
  have hdata : ((s.setSubscriber name node jid none).unindex config name jid).data = s.data := by
    unfold Service.unindex
    split <;> rfl
  unfold Service.unsubscribeNode
  simp only
  split
  · exact ⟨none, Or.inl rfl, (saveNodeToStore_nodes _).trans hsame.nodes,
      (saveNodeToStore_data _).trans hdata, (saveNodeToStore_affiliations _).trans hsame.affiliations⟩
  · refine ⟨some old, Or.inr rfl, ?_⟩
    simp only [Service.setSubscriber, Service.setNode, saveNodeToStore_nodes, unindex_same.nodes,
      Table.set_set]
    split <;> exact ⟨rfl, (saveNodeToStore_data _).trans hdata,
      (saveNodeToStore_affiliations _).trans hsame.affiliations⟩

theorem removeSubscription_data (config : Config Data Item) (s : Service Data Item)
    (name : NodeName) (actor : Actor) (jid : Jid) :
    (s.removeSubscription config name actor jid).2.data = s.data := by
  unfold Service.removeSubscription
  split
  · rfl
  split
  · rfl
  split
  · rfl
  split
  · rfl
  · obtain ⟨-, -, -, hdata, -⟩ := unsubscribeNode_nodes config s name _ jid _
    exact hdata

theorem Expelled.remove (h : Expelled s name node newConfig k subs t) {j : Jid}
    {old : Subscription} {u : Service Data Item} (hold : subs.get j = some old)
    (hremoved : t.removeSubscription config name .service j = (.ok, u)) :
    Expelled s name node newConfig (k + 1) (subs.set j none) u := by
  obtain ⟨node', hget, -, -, hnodes, haff, hstore, hwrites⟩ := removeSubscription_ok hremoved
  have hdata := removeSubscription_data config t name .service j
  rw [hremoved] at hdata
  rw [h.get] at hget
  cases hget
  constructor
  · rw [hnodes, h.nodes, Table.set_set]
  · exact hdata.trans h.data
  · exact haff.trans h.affiliations
  · intro i
    rw [writeOkAt_of_tail hstore hwrites, h.writeOkAt]
    rw [show k + 1 + (i + 1) = k + 1 + 1 + i by omega]
  · intro i hi
    by_cases hij : i = j
    · simp [hij] at hi
    · rw [Table.get_set_of_ne _ hij] at hi
      exact h.kept i hi
  · intro hk
    exact absurd hk (Nat.succ_ne_zero k)
  · intro _ heq
    have hj := h.kept j (by simp [hold])
    rw [← heq] at hj
    simp at hj

end

/-! ## Nodes and items -/

/-- The services have nodes of the same names, and items for the same names. -/
structure SameNames (s t : Service Data Item) : Prop where
  nodes : ∀ n, (t.nodes.get n).isSome = (s.nodes.get n).isSome
  data : ∀ n, (t.data.get n).isSome = (s.data.get n).isSome

theorem SameNames.refl (s : Service Data Item) : SameNames s s := ⟨fun _ => rfl, fun _ => rfl⟩

theorem SameNames.trans {u : Service Data Item} (h : SameNames s t) (h' : SameNames t u) :
    SameNames s u :=
  ⟨fun n => (h'.nodes n).trans (h.nodes n), fun n => (h'.data n).trans (h.data n)⟩

theorem SameNames.of_eq (hnodes : t.nodes = s.nodes) (hdata : t.data = s.data) : SameNames s t :=
  ⟨fun _ => by rw [hnodes], fun _ => by rw [hdata]⟩

theorem SameNames.replace (hsome : (s.nodes.get name).isSome)
    (hnodes : t.nodes = s.nodes.set name (some node)) (hdata : t.data = s.data) :
    SameNames s t := by
  refine ⟨fun n => ?_, fun _ => by rw [hdata]⟩
  rw [hnodes, Table.get_set]
  split
  · rename_i hn
    rw [hn, hsome]
    rfl
  · rfl

theorem Service.Stocked.congr (h : s.Stocked) (hsame : SameNames s t) : t.Stocked := by
  intro n
  rw [hsame.nodes, hsame.data]
  exact h n

theorem subscribeNode_nodes (config : Config Data Item) (s : Service Data Item)
    (name : NodeName) (node : Node) (jid : Jid) (options : Option String) :
    ∃ sub, (sub = some (options.elim .plain .withOptions) ∨ sub = node.subscribers.get jid) ∧
      (s.subscribeNode config name node jid options).2.nodes =
        s.nodes.set name (some { node with subscribers := node.subscribers.set jid sub }) ∧
      (s.subscribeNode config name node jid options).2.data = s.data ∧
      (s.subscribeNode config name node jid options).2.affiliations = s.affiliations := by
  unfold Service.subscribeNode
  simp only
  split
  · exact ⟨_, Or.inl rfl, rfl, rfl, rfl⟩
  · split
    · exact ⟨_, Or.inl rfl, saveNodeToStore_nodes _, saveNodeToStore_data _,
        saveNodeToStore_affiliations _⟩
    · refine ⟨_, Or.inr rfl, ?_⟩
      simp only [Service.setSubscriber, Service.setNode, saveNodeToStore_nodes, Table.set_set]
      split <;> exact ⟨rfl, saveNodeToStore_data _, saveNodeToStore_affiliations _⟩

theorem subscribeNode_sameNames (hnode : s.nodes.get name = some node) (jid : Jid)
    (options : Option String) :
    SameNames s (s.subscribeNode config name node jid options).2 := by
  obtain ⟨sub, -, hnodes, hdata, -⟩ := subscribeNode_nodes config s name node jid options
  exact .replace (by simp [hnode]) hnodes hdata

theorem unsubscribeNode_sameNames (hnode : s.nodes.get name = some node) (jid : Jid)
    (old : Subscription) :
    SameNames s (s.unsubscribeNode config name node jid old).2 := by
  obtain ⟨sub, -, hnodes, hdata, -⟩ := unsubscribeNode_nodes config s name node jid old
  exact .replace (by simp [hnode]) hnodes hdata

theorem removeSubscription_sameNames (config : Config Data Item) (s : Service Data Item)
    (name : NodeName) (actor : Actor) (jid : Jid) :
    SameNames s (s.removeSubscription config name actor jid).2 := by
  unfold Service.removeSubscription
  split
  · exact .refl s
  split
  · exact .refl s
  split
  · exact .refl s
  rename_i hnode
  split
  · exact .refl s
  · exact unsubscribeNode_sameNames hnode jid _

theorem expelSubscribers_sameNames (js : List Jid) :
    SameNames s (Service.expelSubscribers config name s js).2 := by
  induction js generalizing s with
  | nil => exact .refl s
  | cons j js ih =>
    unfold Service.expelSubscribers
    split
    · exact ih
    have hremoved := removeSubscription_sameNames config s name .service j
    rcases hresult : s.removeSubscription config name .service j with ⟨result, t⟩
    rw [hresult] at hremoved
    cases result with
    | ok => exact hremoved.trans ih
    | failed e => exact hremoved
    | raised => exact hremoved

theorem Service.Stocked.createNode (h : s.Stocked) (config : Config Data Item) (name : NodeName)
    (options : NodeConfig) :
    (s.createNode config name options).2.Stocked := by
  cases hnode : s.nodes.get name with
  | some node =>
    simp only [Service.createNode, hnode]
    exact h
  | none =>
    by_cases hwrite : s.WriteOkAt 0
    · obtain ⟨t, hcreate, hcreated⟩ := createNode_of_writeOk config hnode options hwrite
      rw [hcreate]
      intro n
      simp only [hcreated.nodes, hcreated.data, Table.get_set]
      split
      · rfl
      · exact h n
    · obtain ⟨t, hcreate, hsame⟩ := createNode_of_refused config hnode options hwrite
      rw [hcreate]
      exact h.congr (.of_eq hsame.nodes hsame.data)

theorem Service.Stocked.drop (h : s.Stocked) (hnodes : t.nodes = s.nodes.set name none)
    (hdata : t.data = s.data.set name none) : t.Stocked := by
  intro n
  simp only [hnodes, hdata, Table.get_set]
  split
  · rfl
  · exact h n

theorem Service.Stocked.addSubscription (h : s.Stocked) (actor : Actor) (jid : Jid)
    (options : Option String) :
    (s.addSubscription config name actor jid options).2.Stocked := by
  unfold Service.addSubscription
  split
  · exact h
  split
  · exact h
  cases hnode : s.nodes.get name with
  | some node => exact h.congr (subscribeNode_sameNames hnode jid options)
  | none =>
    simp only
    split
    · exact h
    have hcreated := h.createNode config name .empty
    rcases hcreate : s.createNode config name .empty with ⟨result, t⟩
    rw [hcreate] at hcreated
    cases result with
    | ok =>
      obtain ⟨node, hget⟩ := createNode_get hcreate
      simp only [hget]
      exact hcreated.congr (subscribeNode_sameNames hget jid options)
    | failed e => exact hcreated
    | raised => exact hcreated

theorem Service.Stocked.setAffiliation (h : s.Stocked) (config : Config Data Item)
    (name : NodeName) (actor : Actor) (jid : Jid) (affiliation : Option Affiliation) :
    (s.setAffiliation config name actor jid affiliation).2.Stocked := by
  cases hmay : s.may config name actor .setAffiliation with
  | false =>
    simp only [Service.setAffiliation, hmay]
    exact h
  | true =>
    cases hnode : s.nodes.get name with
    | none =>
      simp only [Service.setAffiliation, hmay, hnode]
      exact h
    | some node =>
      cases hk : config.normalizer.normalize jid with
      | none =>
        simp only [Service.setAffiliation, hmay, hnode, hk]
        exact h
      | some k =>
        obtain ⟨t, hsaved, hrefused, hok⟩ := setAffiliation_eq affiliation hmay hnode hk
        have hstock : t.Stocked :=
          h.congr (.replace (by simp [hnode]) hsaved.nodes hsaved.data)
        by_cases hwrite : s.WriteOkAt 0
        · rw [hok hwrite]
          split
          · exact hstock.addSubscription .service k none
          · exact hstock
        · obtain ⟨u, hsame, hcall⟩ := hrefused hwrite
          rw [hcall]
          exact h.congr (.of_eq hsame.nodes hsame.data)

theorem Service.Stocked.create (h : s.Stocked) (actor : Actor) (options : NodeConfig) :
    (s.create config name actor options).2.Stocked := by
  unfold Service.create
  split
  · exact h
  have hcreated := h.createNode config name options
  rcases hcreate : s.createNode config name options with ⟨result, t⟩
  rw [hcreate] at hcreated
  cases result with
  | failed e => exact hcreated
  | raised => exact hcreated
  | ok =>
    cases actor with
    | service => exact hcreated
    | user owner =>
      have hset := hcreated.setAffiliation config name .service owner
        (some .owner)
      rcases hresult : t.setAffiliation config name .service owner (some .owner) with
        ⟨result, u⟩
      simp only [hresult]
      rw [hresult] at hset
      cases result with
      | ok => exact hset
      | raised => exact hset
      | failed e => exact hset.drop rfl rfl

theorem Service.Stocked.delete (h : s.Stocked) (actor : Actor) :
    (s.delete config name actor).2.Stocked := by
  unfold Service.delete
  split
  · exact h
  split
  · exact h
  simp only
  split
  · exact h.drop (deleteNodeInStore_nodes) (deleteNodeInStore_data)
  · exact h.drop (deleteNodeInStore_nodes) (deleteNodeInStore_data)

theorem Service.Stocked.setData (h : s.Stocked) (hsome : (s.nodes.get name).isSome) (data : Data)
    (hnodes : t.nodes = s.nodes) (hdata : t.data = s.data.set name (some data)) : t.Stocked := by
  intro n
  rw [hnodes, hdata, Table.get_set]
  split
  · rename_i hn
    rw [hn, hsome]
    rfl
  · exact h n

theorem Service.Stocked.items (h : s.Stocked) (hout : ItemsSpec s name out) : out.2.Stocked := by
  cases hout with
  | failed e => exact h
  | raised hnode hdata => exact h
  | ok hnode hsame data hdata => exact h.setData hnode data hsame.nodes hdata

theorem Service.Stocked.publish (h : s.Stocked) (actor : Actor) (id : String) (item : Item)
    (requested : Option (NodeConfig × Bool)) :
    (s.publish config name actor id item requested).2.Stocked := by
  unfold Service.publish
  split
  · exact h
  cases hnode : s.nodes.get name with
  | some node =>
    simp only
    split
    · exact h
    · exact h.items (publishItem_items hnode actor id item)
  | none =>
    simp only
    split
    · exact h
    have hcreated := h.createNode config name
      ((requested.map Prod.fst).getD .empty)
    rcases hcreate : s.createNode config name ((requested.map Prod.fst).getD .empty) with
      ⟨result, t⟩
    rw [hcreate] at hcreated
    cases result with
    | ok =>
      obtain ⟨node, hget⟩ := createNode_get hcreate
      simp only [hget]
      exact hcreated.items (publishItem_items hget actor id item)
    | failed e => exact hcreated
    | raised => exact hcreated

theorem Service.Stocked.settleNodeConfig (h : s.Stocked) (hsome : (s.nodes.get name).isSome)
    (order : KeyOrder Jid) (newConfig : NodeConfig) :
    (s.settleNodeConfig config order name node newConfig).2.Stocked := by
  have hloop : SameNames s (if (Service.nodeConfig config node).accessModel ≠
      (Service.nodeConfig config { node with config := newConfig }).accessModel then
        Service.expelSubscribers config name s (order.keys node.subscribers.keys)
      else (.ok, s)).2 := by
    split
    · exact expelSubscribers_sameNames _
    · exact .refl s
  unfold Service.settleNodeConfig
  simp only
  generalize (if (Service.nodeConfig config node).accessModel ≠
      (Service.nodeConfig config { node with config := newConfig }).accessModel then
    Service.expelSubscribers config name s (order.keys node.subscribers.keys)
    else (.ok, s)) = looped at hloop ⊢
  obtain ⟨result, t⟩ := looped
  have hstock : t.Stocked := h.congr hloop
  have htsome : (t.nodes.get name).isSome := (hloop.nodes name).trans hsome
  cases result with
  | failed e =>
    simp only
    split
    · exact hstock.congr (.replace htsome rfl rfl)
    · exact hstock
  | raised => exact hstock
  | ok =>
    simp only
    split
    · exact hstock.setData htsome _ rfl rfl
    split
    · split
      · exact hstock.setData htsome _ rfl rfl
      · exact hstock
    · exact hstock

theorem Service.Stocked.setNodeConfig (h : s.Stocked) (order : KeyOrder Jid) (actor : Actor)
    (newConfig : NodeConfig) :
    (s.setNodeConfig config order name actor newConfig).2.Stocked := by
  unfold Service.setNodeConfig
  split
  · exact h
  cases hnode : s.nodes.get name with
  | none => exact h
  | some node =>
    have hsome : (s.nodes.get name).isSome := by simp [hnode]
    simp only
    split
    · exact h
    have hsaved := nodeSaved (s := s) name { node with config := newConfig }
    generalize hsave : (s.setNode name (some { node with config := newConfig })).saveNodeToStore
      { node with config := newConfig } = out at hsaved ⊢
    obtain ⟨ok, t⟩ := out
    have hstock : t.Stocked := h.congr (.replace hsome hsaved.nodes hsaved.data)
    have htsome : (t.nodes.get name).isSome := by
      have hget : t.nodes.get name = _ := hsaved.get
      simp [hget]
    cases ok with
    | false => exact hstock.congr (.replace htsome rfl rfl)
    | true => exact hstock.settleNodeConfig htsome order newConfig

theorem Service.Stocked.step (h : s.Stocked) (c : Call Item) : (s.step config c).Stocked := by
  obtain ⟨op, writes, order⟩ := c
  have hs : Service.Stocked { s with writes := writes } := h
  cases op with
  | create name actor options => exact hs.create actor options
  | delete name actor => exact hs.delete actor
  | addSubscription name actor jid options => exact hs.addSubscription actor jid options
  | removeSubscription name actor jid =>
    exact hs.congr (removeSubscription_sameNames config _ name actor jid)
  | setAffiliation name actor jid affiliation => exact hs.setAffiliation config name actor jid affiliation
  | publish name actor id item requested => exact hs.publish actor id item requested
  | retract name actor id notification => exact hs.items (retract_items actor id notification)
  | purge name actor notify => exact hs.items (purge_items actor notify)
  | setNodeConfig name actor newConfig => exact hs.setNodeConfig order actor newConfig

end

/-! ## Calls -/

end Prosody.Pubsub
