import Prosody.Pubsub.Atomicity

/-! # Who may stay subscribed

A subscriber of a node may be subscribed to it, as long as `set_affiliation` is not used
against a subscriber. -/

namespace Prosody.Pubsub

variable {Data Item : Type} {config : Config Data Item} {s t : Service Data Item}

/-- Every subscriber may be subscribed. -/
def Permitted (config : Config Data Item) (s : Service Data Item) : Prop :=
  ∀ n j, s.Subscribed j n → s.mayUser config n j .beSubscribed = true

/-- What the service puts into its nodes: no capabilities, and the affiliations of normalized
addresses. -/
structure Node.Plain (config : Config Data Item) (node : Node) : Prop where
  capabilities : node.capabilities = none
  normal : ∀ j a, node.affiliations.get j = some a → config.normalizer.normalize j = some j

/-- Every subscriber may be subscribed, and nodes are plain. -/
structure Sound (config : Config Data Item) (s : Service Data Item) : Prop where
  permitted : Permitted config s
  plain : ∀ n node, s.nodes.get n = some node → node.Plain config

/-! ## What permissions depend on -/

/-- The part of a node that permissions are computed from. -/
def Node.rules (config : Config Data Item) (node : Node) :
    Table Jid Affiliation × Option AccessModel × Option Capabilities :=
  (node.affiliations, (Service.nodeConfig config node).accessModel, node.capabilities)

theorem mayUser_of_rules (haff : t.affiliations = s.affiliations) {n : NodeName}
    (hrules : (t.nodes.get n).map (Node.rules config) = (s.nodes.get n).map (Node.rules config)) :
    t.mayUser config n = s.mayUser config n := by
  funext actor action
  cases ht : t.nodes.get n with
  | none =>
    rw [ht] at hrules
    have hs : s.nodes.get n = none := by simpa using hrules.symm
    simp [Service.mayUser, Service.getDefaultAffiliation, haff, ht, hs]
  | some node =>
    rw [ht] at hrules
    obtain ⟨node', hs, heq⟩ := Option.map_eq_some_iff.mp hrules.symm
    obtain ⟨haffs, hmodel, hcaps⟩ : node'.affiliations = node.affiliations ∧
        (Service.nodeConfig config node').accessModel =
          (Service.nodeConfig config node).accessModel ∧
        node'.capabilities = node.capabilities := by
      simpa [Node.rules] using heq
    simp [Service.mayUser, Service.getDefaultAffiliation, haff, ht, hs, haffs, hmodel, hcaps]

section

variable {name : NodeName} {node : Node} {jid : Jid}

/-- Only the node `name` is changed, and its subscribers may be subscribed. -/
theorem Sound.setNode (h : Sound config s) (haff : t.affiliations = s.affiliations)
    (hnodes : t.nodes = s.nodes.set name (some node)) (hplain : node.Plain config)
    (hsubs : ∀ j, (node.subscribers.get j).isSome → t.mayUser config name j .beSubscribed = true) :
    Sound config t := by
  constructor
  · intro n j hsub
    rw [subscribed_setNode name node hnodes] at hsub
    by_cases hn : n = name
    · subst hn
      exact hsubs j (by simpa using hsub)
    · rw [if_neg hn] at hsub
      rw [mayUser_of_rules haff (by rw [hnodes, Table.get_set_of_ne _ hn])]
      exact h.permitted n j hsub
  · intro n node' hget
    rw [hnodes, Table.get_set] at hget
    by_cases hn : n = name
    · rw [if_pos hn] at hget
      cases hget
      exact hplain
    · rw [if_neg hn] at hget
      exact h.plain n node' hget

theorem Sound.setSubscribers (h : Sound config s) (hnode : s.nodes.get name = some node)
    (haff : t.affiliations = s.affiliations) {subs : Table Jid Subscription}
    (hnodes : t.nodes = s.nodes.set name (some { node with subscribers := subs }))
    (hsubs : ∀ j, (subs.get j).isSome → (node.subscribers.get j).isSome ∨
      s.mayUser config name j .beSubscribed = true) : Sound config t := by
  have hmay : t.mayUser config name = s.mayUser config name := by
    refine mayUser_of_rules haff ?_
    rw [hnodes, Table.get_set_self, hnode]
    rfl
  have hplain := h.plain name node hnode
  refine h.setNode haff hnodes ⟨hplain.capabilities, hplain.normal⟩ fun j hj => ?_
  rw [hmay]
  rcases hsubs j hj with hold | hnew
  · exact h.permitted name j ((subscribed_of_node hnode j).mpr hold)
  · exact hnew

theorem Sound.congr (h : Sound config s) (haff : t.affiliations = s.affiliations)
    (hnodes : t.nodes = s.nodes) : Sound config t := by
  constructor
  · intro n j hsub
    rw [mayUser_of_rules haff (by rw [hnodes])]
    exact h.permitted n j ((subscribed_congr hnodes j n).mp hsub)
  · intro n node hget
    rw [hnodes] at hget
    exact h.plain n node hget

theorem Sound.drop (h : Sound config s) (haff : t.affiliations = s.affiliations)
    (hnodes : t.nodes = s.nodes.set name none) : Sound config t := by
  constructor
  · intro n j hsub
    obtain ⟨hn, hsub⟩ := (subscribed_setNode_none name j n hnodes).mp hsub
    rw [mayUser_of_rules haff (by rw [hnodes, Table.get_set_of_ne _ hn])]
    exact h.permitted n j hsub
  · intro n node hget
    rw [hnodes, Table.get_set] at hget
    by_cases hn : n = name
    · rw [if_pos hn] at hget
      cases hget
    · rw [if_neg hn] at hget
      exact h.plain n node hget

/-! ## Subscriptions -/

theorem Sound.subscribeNode (h : Sound config s) (hnode : s.nodes.get name = some node)
    (hmay : s.mayUser config name jid .beSubscribed = true) (options : Option String) :
    Sound config (s.subscribeNode config name node jid options).2 := by
  obtain ⟨sub, -, hnodes, -, haff⟩ := subscribeNode_nodes config s name node jid options
  refine h.setSubscribers hnode haff hnodes fun j hj => ?_
  by_cases hjid : j = jid
  · exact Or.inr (hjid ▸ hmay)
  · rw [Table.get_set_of_ne _ hjid] at hj
    exact Or.inl hj

theorem Sound.unsubscribeNode (h : Sound config s) (hnode : s.nodes.get name = some node)
    {old : Subscription} (hold : node.subscribers.get jid = some old) :
    Sound config (s.unsubscribeNode config name node jid old).2 := by
  obtain ⟨sub, hsub, hnodes, -, haff⟩ := unsubscribeNode_nodes config s name node jid old
  refine h.setSubscribers hnode haff hnodes fun j hj => Or.inl ?_
  by_cases hjid : j = jid
  · rw [hjid, hold]
    rfl
  · rwa [Table.get_set_of_ne _ hjid] at hj

theorem Sound.removeSubscription (h : Sound config s) (actor : Actor) :
    Sound config (s.removeSubscription config name actor jid).2 := by
  unfold Service.removeSubscription
  split
  · exact h
  split
  · exact h
  split
  · exact h
  rename_i hnode
  split
  · exact h
  rename_i hold
  exact h.unsubscribeNode hnode hold

/-! ## Nodes -/

theorem newNode_plain (name : NodeName) (options : NodeConfig) :
    (newNode name options).Plain config where
  capabilities := rfl
  normal j a ha := by simp [newNode] at ha

theorem Sound.createNode (h : Sound config s) (name : NodeName) (options : NodeConfig) :
    Sound config (s.createNode config name options).2 := by
  cases hnode : s.nodes.get name with
  | some node =>
    simp only [Service.createNode, hnode]
    exact h
  | none =>
    by_cases hwrite : s.WriteOkAt 0
    · obtain ⟨t, hcreate, hcreated⟩ := createNode_of_writeOk config hnode options hwrite
      rw [hcreate]
      refine h.setNode hcreated.affiliations hcreated.nodes (newNode_plain name options) ?_
      intro j hj
      simp [newNode] at hj
    · obtain ⟨t, hcreate, hsame⟩ := createNode_of_refused config hnode options hwrite
      rw [hcreate]
      exact h.congr hsame.affiliations hsame.nodes

/-- The node that `add_subscription` creates has the default access model, which the address
has been checked against. -/
theorem Created.mayUser_eq {name : NodeName} (h : Created config s name .empty t)
    (hnode : s.nodes.get name = none) : t.mayUser config name = s.mayUser config name := by
  funext actor action
  have hmodel : (Service.nodeConfig config (newNode name .empty)).accessModel =
      config.defaults.accessModel := rfl
  cases hdefault : config.defaults.accessModel with
  | none =>
    simp only [Service.mayUser, Service.getDefaultAffiliation, h.get, hnode, h.affiliations,
      Option.bind_some, Option.bind_none, hmodel, hdefault]
    simp [newNode]
  | some model =>
    simp only [Service.mayUser, Service.getDefaultAffiliation, h.get, hnode, h.affiliations,
      Option.bind_some, Option.bind_none, hmodel, hdefault]
    simp [newNode]

theorem Sound.addSubscription (h : Sound config s) (actor : Actor)
    (options : Option String) :
    Sound config (s.addSubscription config name actor jid options).2 := by
  unfold Service.addSubscription
  split
  · exact h
  split
  · exact h
  rename_i hbe
  have hmay : s.mayUser config name jid .beSubscribed = true := by simpa using hbe
  cases hnode : s.nodes.get name with
  | some node => exact h.subscribeNode hnode hmay options
  | none =>
    simp only
    split
    · exact h
    have hcreated := h.createNode name .empty
    by_cases hwrite : s.WriteOkAt 0
    · obtain ⟨t, hcreate, hnew⟩ := createNode_of_writeOk config hnode .empty hwrite
      rw [hcreate] at hcreated
      simp only [hcreate, hnew.get]
      refine hcreated.subscribeNode hnew.get ?_ options
      rw [hnew.mayUser_eq hnode]
      exact hmay
    · obtain ⟨t, hcreate, hsame⟩ := createNode_of_refused config hnode .empty hwrite
      rw [hcreate] at hcreated
      simp only [hcreate]
      exact hcreated

/-! ## Affiliations -/

/-- A permitted `set_affiliation` after which a subscriber may not be subscribed. -/
def Service.Strands (config : Config Data Item) (s : Service Data Item) (name : NodeName)
    (actor : Actor) (jid : Jid) (affiliation : Option Affiliation) : Prop :=
  s.may config name actor .setAffiliation = true ∧
    ∃ node k, s.nodes.get name = some node ∧ config.normalizer.normalize jid = some k ∧
      ∃ j, (node.subscribers.get j).isSome ∧
        (s.setNode name (some (node.affiliate k affiliation))).mayUser config name j
          .beSubscribed = false

theorem Node.Plain.affiliate {k : Jid} (h : node.Plain config)
    (hk : config.normalizer.normalize jid = some k) (affiliation : Option Affiliation) :
    (node.affiliate k affiliation).Plain config where
  capabilities := h.capabilities
  normal j a ha := by
    by_cases hjk : j = k
    · rw [hjk]
      exact config.normalizer.idempotent jid k hk
    · rw [Node.affiliate, Table.get_set_of_ne _ hjk] at ha
      exact h.normal j a ha

theorem Sound.setAffiliation (h : Sound config s) {actor : Actor}
    {affiliation : Option Affiliation} (hsafe : ¬ s.Strands config name actor jid affiliation) :
    Sound config (s.setAffiliation config name actor jid affiliation).2 := by
  cases hmay : s.may config name actor .setAffiliation with
  | false =>
    simp only [Service.setAffiliation, hmay]
    exact h
  | true =>
    cases hnode : s.nodes.get name with
    | none =>
      simp only [Service.setAffiliation, hmay, hnode]
      exact h
    | some node =>
      cases hk : config.normalizer.normalize jid with
      | none =>
        simp only [Service.setAffiliation, hmay, hnode, hk]
        exact h
      | some k =>
        obtain ⟨t, hsaved, hrefused, hok⟩ := setAffiliation_eq affiliation hmay hnode hk
        by_cases hwrite : s.WriteOkAt 0
        · have hsound : Sound config t := by
            refine h.setNode hsaved.affiliations hsaved.nodes
              ((h.plain name node hnode).affiliate hk affiliation) ?_
            intro j hj
            rw [hsaved.mayUser config]
            by_contra hnot
            exact hsafe ⟨hmay, node, k, hnode, hk, j, hj, by simpa using hnot⟩
          rw [hok hwrite]
          split
          · exact hsound.addSubscription .service none
          · exact hsound
        · obtain ⟨u, hsame, hcall⟩ := hrefused hwrite
          rw [hcall]
          exact h.congr hsame.affiliations hsame.nodes

/-- Nothing that follows takes the subscriber out. -/
theorem not_permitted_of_strands {actor : Actor} {affiliation : Option Affiliation}
    (hwrite : s.WriteOkAt 0) (hstrands : s.Strands config name actor jid affiliation) :
    ¬ Permitted config (s.setAffiliation config name actor jid affiliation).2 := by
  obtain ⟨hmay, node, k, hnode, hk, j, hj, hnot⟩ := hstrands
  obtain ⟨t, hsaved, -, hok⟩ := setAffiliation_eq affiliation hmay hnode hk
  rw [← hsaved.mayUser config] at hnot
  have hkept : ((node.affiliate k affiliation).subscribers.get j).isSome := hj
  have hsub : t.Subscribed j name := (subscribed_of_node hsaved.get j).mpr hj
  have hout : ∀ u : Service Data Item, u.mayUser config name = t.mayUser config name →
      u.Subscribed j name → ¬ Permitted config u := by
    intro u hmayu hsubu hpermitted
    have hyes := hpermitted name j hsubu
    rw [hmayu, hnot] at hyes
    cases hyes
  rw [hok hwrite]
  split
  · rw [addSubscription_service config hsaved.get]
    split
    · obtain ⟨sub, hsubk, hnodes, -, haff⟩ :=
        subscribeNode_nodes config t name (node.affiliate k affiliation) k none
      refine hout _ (mayUser_of_rules haff ?_) ?_
      · rw [hnodes, Table.get_set_self, hsaved.get]
        rfl
      · rw [subscribed_setNode name _ hnodes, if_pos rfl]
        by_cases hjk : j = k
        · subst hjk
          rcases hsubk with rfl | rfl
          · simp
          · simpa using hkept
        · simpa [Table.get_set_of_ne _ hjk] using hkept
    · exact hout t rfl hsub
  · exact hout t rfl hsub

/-! ## The other operations -/

theorem created_of_ok {options : NodeConfig} (h : s.createNode config name options = (.ok, t)) :
    Created config s name options t := by
  have hnode := createNode_absent h
  by_cases hwrite : s.WriteOkAt 0
  · obtain ⟨u, hcreate, hcreated⟩ := createNode_of_writeOk config hnode options hwrite
    rw [h] at hcreate
    cases hcreate
    exact hcreated
  · obtain ⟨u, hcreate, -⟩ := createNode_of_refused config hnode options hwrite
    rw [h] at hcreate
    cases hcreate

theorem Sound.create (h : Sound config s) (actor : Actor) (options : NodeConfig) :
    Sound config (s.create config name actor options).2 := by
  unfold Service.create
  split
  · exact h
  have hcreate := h.createNode name options
  rcases hresult : s.createNode config name options with ⟨result, t⟩
  rw [hresult] at hcreate
  cases actor with
  | service => cases result <;> exact hcreate
  | user jid =>
    cases result with
    | ok =>
      -- the new node has nobody who could be stranded
      have hsafe : ¬ t.Strands config name .service jid (some .owner) := by
        rintro ⟨-, node, k, hnode, -, j, hj, -⟩
        rw [(created_of_ok hresult).get] at hnode
        cases hnode
        simp [newNode] at hj
      have hset := hcreate.setAffiliation hsafe
      simp only
      split
      · rename_i heq
        rw [heq] at hset
        exact hset.drop rfl rfl
      · rename_i heq
        rw [heq] at hset
        exact hset
    | failed e => exact hcreate
    | raised => exact hcreate

theorem deleteNodeInStore_affiliations :
    (s.deleteNodeInStore name).2.affiliations = s.affiliations := by
  unfold Service.deleteNodeInStore
  split
  · rfl
  · simp only
    split <;> rfl

theorem Sound.delete (h : Sound config s) (actor : Actor) :
    Sound config (s.delete config name actor).2 := by
  unfold Service.delete
  split
  · exact h
  split
  · exact h
  simp only
  split
  · exact h.drop deleteNodeInStore_affiliations deleteNodeInStore_nodes
  · exact h.drop deleteNodeInStore_affiliations deleteNodeInStore_nodes

theorem Sound.items (h : Sound config s) {out : Result × Service Data Item}
    (hout : ItemsSpec s name out) : Sound config out.2 :=
  h.congr hout.same.affiliations hout.same.nodes

theorem Sound.publish (h : Sound config s) (actor : Actor) (id : String) (item : Item)
    (requested : Option (NodeConfig × Bool)) :
    Sound config (s.publish config name actor id item requested).2 := by
  unfold Service.publish
  split
  · exact h
  split
  · rename_i hnode
    split
    · exact h
    · exact h.items (publishItem_items hnode actor id item)
  split
  · exact h
  have hcreate := h.createNode name ((requested.map Prod.fst).getD .empty)
  split
  · rename_i heq
    rw [heq] at hcreate
    split
    · rename_i hnode
      exact hcreate.items (publishItem_items hnode actor id item)
    · exact hcreate
  · rename_i heq
    rw [heq] at hcreate
    exact hcreate

/-! ## Configuration -/

/-- The loop of `set_node_config` never breaks off half-way through a removal if the writes
succeed, and when it has gone through, those it has looked at and left may be subscribed. -/
theorem Expelled.expelSubscribers (config : Config Data Item) {newConfig : NodeConfig}
    {subs : Table Jid Subscription} {i : Nat} {js : List Jid}
    (h : Expelled s name node newConfig i subs t)
    (hwrites : ∀ i, s.WriteOkAt i) (hnodup : js.Nodup) (hjs : ∀ j ∈ js, (subs.get j).isSome) :
    ∃ i' subs', Expelled s name node newConfig i' subs'
        (Service.expelSubscribers config name t js).2 ∧
      (Service.expelSubscribers config name t js).1 ≠ .raised ∧
      (∀ j, (subs'.get j).isSome → (subs.get j).isSome) ∧
      ((Service.expelSubscribers config name t js).1 = .ok → ∀ j ∈ js, (subs'.get j).isSome →
        (s.setNode name (some { node with config := newConfig })).mayUser config name j
          .beSubscribed = true) := by
  induction js generalizing t i subs with
  | nil => exact ⟨i, subs, h, by simp [Service.expelSubscribers], fun _ hj => hj, by simp⟩
  | cons j js ih =>
    obtain ⟨hnotin, hnodup⟩ := List.nodup_cons.mp hnodup
    have hjs' : ∀ i ∈ js, (subs.get i).isSome := fun i hi => hjs i (List.mem_cons_of_mem j hi)
    unfold Service.expelSubscribers
    cases hbe : t.mayUser config name j .beSubscribed with
    | true =>
      obtain ⟨i', subs', hend, hraised, hkept, hok⟩ := ih h hnodup hjs'
      simp only [if_true]
      refine ⟨i', subs', hend, hraised, hkept, fun hresult k hk hsub => ?_⟩
      rcases List.mem_cons.mp hk with rfl | hk
      · rw [← h.mayUser config]
        exact hbe
      · exact hok hresult k hk hsub
    | false =>
      simp only [Bool.false_eq_true, if_false]
      obtain ⟨old, hold⟩ := Option.isSome_iff_exists.mp (hjs j List.mem_cons_self)
      have hcall := removeSubscription_service config h.get hold
      cases hun : t.mayUser config name j .beUnsubscribed with
      | false =>
        simp only [hun, Bool.false_eq_true, if_false] at hcall
        rw [hcall]
        exact ⟨i, subs, h, by simp, fun _ hj => hj, by simp⟩
      | true =>
        simp only [hun, if_true] at hcall
        have hresult := (unsubscribeNode_spec config h.get hold).ok.mpr
          ((h.writeOkAt 0).mpr (hwrites _))
        rw [← hcall] at hresult
        rcases hremoved : t.removeSubscription config name .service j with ⟨result, u⟩
        rw [hremoved] at hresult
        obtain rfl : result = .ok := hresult
        have hleft : ∀ i ∈ js, ((subs.set j none).get i).isSome := by
          intro i hi
          have hij : i ≠ j := by
            rintro rfl
            exact hnotin hi
          rw [Table.get_set_of_ne _ hij]
          exact hjs' i hi
        obtain ⟨i', subs', hend, hraised, hkept, hok⟩ :=
          ih (h.remove hold hremoved) hnodup hleft
        refine ⟨i', subs', hend, hraised, fun k hk => ?_, fun hresult k hk hsub => ?_⟩
        · have hk := hkept k hk
          by_cases hkj : k = j
          · simp [hkj] at hk
          · rwa [Table.get_set_of_ne _ hkj] at hk
        · rcases List.mem_cons.mp hk with rfl | hk
          · have hgone := hkept k hsub
            simp at hgone
          · exact hok hresult k hk hsub

/-- What follows the saving of a new configuration leaves only subscribers that it allows, or
goes back to the old one. -/
theorem Sound.settleNodeConfig (h : Sound config s) {newConfig : NodeConfig}
    (hnode : s.nodes.get name = some node)
    (hsaved : NodeSaved s name { node with config := newConfig } t)
    (hwrites : ∀ i, s.WriteOkAt i) (order : KeyOrder Jid) :
    Sound config (t.settleNodeConfig config order name node newConfig).2 := by
  have hstart := hsaved.expelled
  have hkeys : ∀ j, j ∈ order.keys node.subscribers.keys ↔ (node.subscribers.get j).isSome := by
    intro j
    rw [order.mem_keys, Table.mem_keys, Option.isSome_iff_exists]
  have hplain := h.plain name node hnode
  have hmodel : (Service.nodeConfig config node).accessModel =
      (Service.nodeConfig config { node with config := newConfig }).accessModel →
      (s.setNode name (some { node with config := newConfig })).mayUser config name =
        s.mayUser config name := by
    intro hsame
    refine mayUser_of_rules (s := s)
      (t := s.setNode name (some { node with config := newConfig })) rfl ?_
    rw [Service.setNode, Table.get_set_self, hnode]
    simp [Node.rules, hsame]
  -- the state after the loop, whether it has been run or not
  obtain ⟨i, subs, result, u, hlooped, hend, hraised, hok⟩ : ∃ i subs result u,
      (if (Service.nodeConfig config node).accessModel ≠
          (Service.nodeConfig config { node with config := newConfig }).accessModel then
        Service.expelSubscribers config name t (order.keys node.subscribers.keys)
      else (.ok, t)) = (result, u) ∧ Expelled s name node newConfig i subs u ∧
      result ≠ .raised ∧ (result = .ok → ∀ j, (subs.get j).isSome →
        (s.setNode name (some { node with config := newConfig })).mayUser config name j
          .beSubscribed = true) := by
    by_cases hsame : (Service.nodeConfig config node).accessModel =
        (Service.nodeConfig config { node with config := newConfig }).accessModel
    · refine ⟨0, node.subscribers, .ok, t, by simp [hsame], hstart, by simp, fun _ j hj => ?_⟩
      rw [hmodel hsame]
      exact h.permitted name j ((subscribed_of_node hnode j).mpr hj)
    · obtain ⟨i, subs, hend, hraised, hkept, hok⟩ := hstart.expelSubscribers config
        hwrites (order.nodup _) fun j hj => (hkeys j).mp hj
      refine ⟨i, subs, _, _, by rw [if_pos hsame], hend, hraised, fun hresult j hj => ?_⟩
      exact hok hresult j ((hkeys j).mpr (hkept j hj)) hj
  unfold Service.settleNodeConfig
  simp only
  rw [hlooped]
  cases result with
  | raised => exact absurd rfl hraised
  | failed e =>
    simp only [hend.get]
    refine h.setSubscribers hnode hend.affiliations ?_ fun j hj =>
      Or.inl (hend.kept j hj)
    simp only [Service.setNode, hend.nodes, Table.set_set]
  | ok =>
    have hsound : Sound config u := by
      refine h.setNode hend.affiliations hend.nodes ⟨hplain.capabilities, hplain.normal⟩ ?_
      intro j hj
      rw [hend.mayUser config]
      exact hok rfl j hj
    simp only
    split
    · exact hsound.congr rfl rfl
    split
    · split
      · exact hsound.congr rfl rfl
      · exact hsound
    · exact hsound

theorem Sound.setNodeConfig (h : Sound config s) (hwrites : ∀ i, s.WriteOkAt i)
    (order : KeyOrder Jid) (actor : Actor) (newConfig : NodeConfig) :
    Sound config (s.setNodeConfig config order name actor newConfig).2 := by
  unfold Service.setNodeConfig
  split
  · exact h
  split
  · exact h
  rename_i node hnode
  split
  · exact h
  have hsaved := nodeSaved (s := s) name { node with config := newConfig }
  have hok := (saveNodeToStore_ok_iff
    (s := s.setNode name (some { node with config := newConfig }))
    { node with config := newConfig }).mpr (hwrites 0)
  simp only [hok, Bool.not_true, Bool.false_eq_true, if_false]
  exact h.settleNodeConfig hnode hsaved hwrites order

end

/-! ## Calls -/

def Call.Succeeds (c : Call Item) : Prop :=
  ∀ w ∈ c.writes, w = true

/-- A permitted `set_affiliation` that strands a subscriber. -/
def Call.Strands (config : Config Data Item) (s : Service Data Item) (c : Call Item) : Prop :=
  match c.op with
  | .setAffiliation name actor jid affiliation => s.Strands config name actor jid affiliation
  | _ => False

/-- What a call has to respect. Afterwards every subscriber may be subscribed, whoever is made
an outcast, also by its bare address, is not subscribed, which is reported as a success, and
what is published is sent to those only who may be subscribed. -/
def Call.Respects (config : Config Data Item) (s : Service Data Item) (c : Call Item) : Prop :=
  Permitted config (s.step config c) ∧
    match c.op with
    | .setAffiliation name actor jid (some .outcast) =>
      s.may config name actor .setAffiliation = true → (s.nodes.get name).isSome →
        ∀ k, config.normalizer.normalize jid = some k →
          (s.call config c).1 = .ok ∧
            ∀ j, config.normalizer.normalize j = some k → ¬ (s.step config c).Subscribed j name
    | .publish _ _ _ _ _ =>
      ∃ sent, (s.step config c).broadcasts = s.broadcasts ++ sent ∧
        ∀ b ∈ sent, ∀ j, (b.subscribers.get j).isSome →
          (s.step config c).mayUser config b.node j .beSubscribed = true
    | _ => True

theorem Call.Succeeds.writeOkAt {c : Call Item} (h : c.Succeeds) (i : Nat) :
    Service.WriteOkAt { s with writes := c.writes } i := by
  refine Or.inr ?_
  cases hhead : (c.writes.drop i).head? with
  | none => rfl
  | some w => exact h w (List.mem_of_mem_drop (List.mem_of_head? hhead))

theorem Sound.step (h : Sound config s) {c : Call Item} (hc : c.Succeeds)
    (hsafe : ¬ c.Strands config s) : Sound config (s.step config c) := by
  have hs : Sound config { s with writes := c.writes } := h.congr rfl rfl
  have hwrites := hc.writeOkAt (s := s)
  obtain ⟨op, writes, order⟩ := c
  cases op with
  | create name actor options => exact hs.create actor options
  | delete name actor => exact hs.delete actor
  | addSubscription name actor jid options => exact hs.addSubscription actor options
  | removeSubscription name actor jid => exact hs.removeSubscription actor
  | setAffiliation name actor jid affiliation => exact hs.setAffiliation hsafe
  | publish name actor id item requested => exact hs.publish actor id item requested
  | retract name actor id notification => exact hs.items (retract_items actor id notification)
  | purge name actor notify => exact hs.items (purge_items actor notify)
  | setNodeConfig name actor newConfig => exact hs.setNodeConfig hwrites order actor newConfig

section

variable {name : NodeName} {node : Node} {jid : Jid}

theorem mayUser_of_affiliation {j : Jid} {a : Affiliation} (hget : t.nodes.get name = some node)
    (hcaps : node.capabilities = none)
    (ha : (node.affiliations.get j).or
      ((config.normalizer.normalize j).bind node.affiliations.get) = some a)
    (action : Action) : t.mayUser config name j action = config.allows a action := by
  simp [Service.mayUser, hget, hcaps, ha, Config.allows]

/-- An outcast, and all its resources. -/
theorem outcast_of_normalize {j k : Jid} (hplain : node.Plain config)
    (hj : config.normalizer.normalize j = some k) :
    ((node.affiliate k (some .outcast)).affiliations.get j).or
      ((config.normalizer.normalize j).bind
        (node.affiliate k (some .outcast)).affiliations.get) = some .outcast := by
  have hk : (node.affiliate k (some .outcast)).affiliations.get k = some .outcast :=
    Table.get_set_self _ _ _
  cases ha : (node.affiliate k (some .outcast)).affiliations.get j with
  | none =>
    rw [hj]
    simpa using hk
  | some a =>
    have hnormal := (hplain.affiliate hj (some .outcast)).normal j a ha
    rw [hj] at hnormal
    cases hnormal
    rw [hk] at ha
    cases ha
    rfl

theorem Sound.outcast (h : Sound config s) (hcaps : config.capabilities = defaultCapabilities)
    {actor : Actor} (hsafe : ¬ s.Strands config name actor jid (some .outcast))
    (hwrite : s.WriteOkAt 0) (hmay : s.may config name actor .setAffiliation = true)
    (hsome : (s.nodes.get name).isSome) {k : Jid} (hk : config.normalizer.normalize jid = some k) :
    (s.setAffiliation config name actor jid (some .outcast)).1 = .ok ∧
      ∀ j, config.normalizer.normalize j = some k →
        ¬ (s.setAffiliation config name actor jid (some .outcast)).2.Subscribed j name := by
  obtain ⟨node, hnode⟩ := Option.isSome_iff_exists.mp hsome
  have hplain := h.plain name node hnode
  obtain ⟨t, hsaved, -, hok⟩ := setAffiliation_eq (some .outcast) hmay hnode hk
  have hmayt : ∀ j, config.normalizer.normalize j = some k → ∀ action,
      t.mayUser config name j action = config.allows .outcast action := fun j hj =>
    mayUser_of_affiliation hsaved.get hplain.capabilities (outcast_of_normalize hplain hj)
  have hexcluded : config.allows .outcast .beSubscribed = false := by
    simp [Config.allows, hcaps, defaultCapabilities]
  have hnone : ∀ j, config.normalizer.normalize j = some k → node.subscribers.get j = none := by
    intro j hj
    by_contra hsub
    refine hsafe ⟨hmay, node, k, hnode, hk, j, Option.isSome_iff_ne_none.mpr hsub, ?_⟩
    rw [← hsaved.mayUser config, hmayt j hj, hexcluded]
  have hidem := config.normalizer.idempotent jid k hk
  have hleave : config.allows .outcast .beUnsubscribed = true := by
    simp [Config.allows, hcaps, defaultCapabilities]
  have hcall := hok hwrite
  rw [hnone k hidem, hmayt k hidem .beUnsubscribed, hleave] at hcall
  simp only [Option.isSome_none, Bool.not_false, Bool.not_true, Bool.and_false, Bool.false_and,
    Bool.or_self, Bool.false_eq_true, if_false] at hcall
  rw [hcall]
  refine ⟨rfl, fun j hj hsub => ?_⟩
  have hsome := (subscribed_of_node hsaved.get j).mp hsub
  have hgone := hnone j hj
  simp [Node.affiliate, hgone] at hsome

theorem publishItem_sent (config : Config Data Item) (hnode : s.nodes.get name = some node)
    (actor : Actor) (id : String) (item : Item) :
    ∃ sent, (s.publishItem config name node actor id item).2.broadcasts = s.broadcasts ++ sent ∧
      ∀ b ∈ sent, ∀ j, (b.subscribers.get j).isSome →
        (s.publishItem config name node actor id item).2.Subscribed j b.node := by
  unfold Service.publishItem
  split
  · exact ⟨[], by simp, by simp⟩
  split
  · exact ⟨[], by simp, by simp⟩
  split
  · exact ⟨[], by simp, by simp⟩
  · refine ⟨_, rfl, fun b hb j hj => ?_⟩
    rw [List.mem_singleton.mp hb] at hj ⊢
    exact (subscribed_of_node hnode j).mpr hj

theorem saveNodeToStore_broadcasts (node : Node) :
    (s.saveNodeToStore node).2.broadcasts = s.broadcasts := by
  unfold Service.saveNodeToStore
  split
  · rfl
  · simp only
    split <;> rfl

theorem createNode_broadcasts (config : Config Data Item) (s : Service Data Item)
    (name : NodeName) (options : NodeConfig) :
    (s.createNode config name options).2.broadcasts = s.broadcasts := by
  unfold Service.createNode
  split
  · rfl
  · simp only
    split <;> exact saveNodeToStore_broadcasts _

theorem publish_sent (config : Config Data Item) (s : Service Data Item) (name : NodeName)
    (actor : Actor) (id : String) (item : Item) (requested : Option (NodeConfig × Bool)) :
    ∃ sent, (s.publish config name actor id item requested).2.broadcasts = s.broadcasts ++ sent ∧
      ∀ b ∈ sent, ∀ j, (b.subscribers.get j).isSome →
        (s.publish config name actor id item requested).2.Subscribed j b.node := by
  unfold Service.publish
  split
  · exact ⟨[], by simp, by simp⟩
  split
  · rename_i hnode
    split
    · exact ⟨[], by simp, by simp⟩
    · exact publishItem_sent config hnode actor id item
  split
  · exact ⟨[], by simp, by simp⟩
  have hcreate := createNode_broadcasts config s name ((requested.map Prod.fst).getD .empty)
  split
  · rename_i heq
    rw [heq] at hcreate
    split
    · rename_i hnode
      obtain ⟨sent, hsent, hsubs⟩ := publishItem_sent config hnode actor id item
      exact ⟨sent, hsent.trans (by rw [hcreate]), hsubs⟩
    · exact ⟨[], by simpa using hcreate, by simp⟩
  · rename_i heq
    rw [heq] at hcreate
    exact ⟨[], by simpa using hcreate, by simp⟩

end

theorem Sound.respects_iff (h : Sound config s) (hcaps : config.capabilities = defaultCapabilities)
    {c : Call Item} (hc : c.Succeeds) : c.Respects config s ↔ ¬ c.Strands config s := by
  have hs : Sound config { s with writes := c.writes } := h.congr rfl rfl
  have hwrite := hc.writeOkAt (s := s) 0
  constructor
  · rintro ⟨hpermitted, -⟩ hstrands
    obtain ⟨op, writes, order⟩ := c
    cases op with
    | setAffiliation name actor jid affiliation =>
      exact not_permitted_of_strands (s := { s with writes := writes }) hwrite hstrands hpermitted
    | _ => exact hstrands
  · intro hsafe
    have hstep := h.step hc hsafe
    refine ⟨hstep.permitted, ?_⟩
    obtain ⟨op, writes, order⟩ := c
    cases op with
    | setAffiliation name actor jid affiliation =>
      simp only
      split
      · rename_i heq
        cases heq
        intro hmay hsome k hk
        exact hs.outcast hcaps hsafe hwrite hmay hsome hk
      · rename_i heq
        cases heq
      · trivial
    | publish name actor id item requested =>
      obtain ⟨sent, hsent, hsubs⟩ :=
        publish_sent config { s with writes := writes } name actor id item requested
      exact ⟨sent, hsent, fun b hb j hj => hstep.permitted b.node j (hsubs b hb j hj)⟩
    | _ => trivial

theorem new_nodes (config : Config Data Item) (order : KeyOrder NodeName)
    (store : Option (Table NodeName Node)) :
    ∀ n node, (Service.new config order store).nodes.get n = some node →
      ∃ nodes stored, store = some nodes ∧ nodes.get n = some stored ∧
        node = { stored with capabilities := none } := by
  unfold Service.new
  refine List.foldlRecOn (motive := fun s : Service Data Item => ∀ n node,
    s.nodes.get n = some node → ∃ nodes stored, store = some nodes ∧ nodes.get n = some stored ∧
      node = { stored with capabilities := none }) _ _ ?_ ?_
  · intro n node hnode
    simp at hnode
  · intro s hs name _
    cases hget : (store.getD ∅).get name with
    | none => exact hs
    | some stored =>
      intro n node hnode
      simp only [Service.setNode, Service.setData, Table.get_set] at hnode
      split at hnode
      · rename_i hn
        cases hnode
        cases store with
        | none => simp at hget
        | some nodes => exact ⟨nodes, stored, rfl, hn ▸ hget, rfl⟩
      · exact hs n node hnode

/-- With the default capabilities, and from a store that keeps to the permissions, every call of
a run respects them exactly if no call of it strands a subscriber. -/
theorem respects_iff_not_strands (config : Config Data Item)
    (hcaps : config.capabilities = defaultCapabilities) (order : KeyOrder NodeName)
    (store : Option (Table NodeName Node))
    (hstore : ∀ nodes name node j a, store = some nodes → nodes.get name = some node →
      node.affiliations.get j = some a → config.normalizer.normalize j = some j)
    (hnew : Permitted config (Service.new config order store)) (calls : List (Call Item))
    (hcalls : ∀ c ∈ calls, c.Succeeds) :
    Machine.Guarded (Service.step config) (fun s c => c.Respects config s)
        (Service.new config order store) calls ↔
      Machine.Guarded (Service.step config) (fun s c => ¬ c.Strands config s)
        (Service.new config order store) calls := by
  have hsound : Sound config (Service.new config order store) := by
    refine ⟨hnew, fun n node hnode => ?_⟩
    obtain ⟨nodes, stored, hsome, hget, rfl⟩ := new_nodes config order store n node hnode
    exact ⟨rfl, fun j a => hstore nodes n stored j a hsome hget⟩
  exact Machine.guarded_congr (P := Sound config) (fun s c hc h hsafe => h.step (hcalls c hc) hsafe)
    (fun s c hc h => h.respects_iff hcaps (hcalls c hc)) hsound

/-- A subscriber who is made a member. -/
theorem respects_member :
    Machine.Guarded (Service.step plainConfig) (fun s c => c.Respects plainConfig s)
      (Service.new plainConfig (.ascending String) none)
      [plainCall (.create "news" .service .empty),
        plainCall (.addSubscription "news" (.user "romeo@verona") "romeo@verona" none),
        plainCall (.setAffiliation "news" .service "romeo@verona" (some .member))] := by
  refine (respects_iff_not_strands plainConfig rfl (.ascending String) none ?_ ?_ _ ?_).mpr
    ⟨id, id, ?_, trivial⟩
  · rintro nodes name node j a ⟨⟩
  · rintro n j ⟨node, hnode, -⟩
    obtain ⟨nodes, stored, hnone, -⟩ := new_nodes plainConfig (.ascending String) none n node hnode
    cases hnone
  · intro c hc w hw
    simp only [List.mem_cons, List.not_mem_nil, or_false] at hc
    rcases hc with rfl | rfl | rfl <;> simp [plainCall] at hw
  · let s := Machine.run (Service.step plainConfig)
      (Service.new plainConfig (.ascending String) none)
      [plainCall (.create "news" .service .empty),
        plainCall (.addSubscription "news" (.user "romeo@verona") "romeo@verona" none)]
    have hsub : (s.nodes.get "news").all fun node => node.subscribers.keys = {"romeo@verona"} := by
      decide +kernel
    have hmay : (s.nodes.get "news").all fun node =>
        (s.setNode "news" (some (node.affiliate "romeo@verona" (some .member)))).mayUser plainConfig
          "news" "romeo@verona" .beSubscribed := by
      decide +kernel
    rintro ⟨-, node, k, hnode, hk, j, hj, hnot⟩
    change s.nodes.get "news" = some node at hnode
    rw [hnode] at hsub hmay
    obtain ⟨sub, hsome⟩ := Option.isSome_iff_exists.mp hj
    have hmem : j ∈ node.subscribers.keys := (Table.mem_keys _ _).mpr ⟨sub, hsome⟩
    rw [of_decide_eq_true hsub, Finset.mem_singleton] at hmem
    obtain rfl := hmem
    cases hk
    exact absurd (hmay.symm.trans hnot) (by decide)

/-- A subscriber who is made an outcast stays subscribed, and the call is forbidden after the
affiliation has been saved. -/
theorem outcast_stays_subscribed :
    let s := Machine.run (Service.step plainConfig)
      (Service.new plainConfig (.ascending String) none)
      [plainCall (.create "news" .service .empty),
        plainCall (.addSubscription "news" (.user "romeo@verona") "romeo@verona" none)]
    let c := plainCall (.setAffiliation "news" .service "romeo@verona" (some .outcast))
    (s.call plainConfig c).1 = .failed .forbidden ∧ ¬ Permitted plainConfig (s.step plainConfig c) := by
  intro s c
  refine ⟨by decide +kernel, fun hpermitted => ?_⟩
  have hsub : (((s.step plainConfig c).nodes.get "news").bind fun node =>
      node.subscribers.get "romeo@verona").isSome = true := by decide +kernel
  have hnot : (s.step plainConfig c).mayUser plainConfig "news" "romeo@verona" .beSubscribed =
      false := by decide +kernel
  obtain ⟨sub, hsub⟩ := Option.isSome_iff_exists.mp hsub
  obtain ⟨node, hnode, hget⟩ := Option.bind_eq_some_iff.mp hsub
  have hyes := hpermitted "news" "romeo@verona" ⟨node, hnode, by simp [hget]⟩
  rw [hnot] at hyes
  cases hyes

end Prosody.Pubsub
