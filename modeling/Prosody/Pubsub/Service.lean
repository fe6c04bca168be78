import Prosody.Library.Table

/-! # Publish-subscribe services

The service object of `util/pubsub.lua`. What the configuration supplies, such as the item
store and the normalization of addresses, is a parameter. -/

namespace Prosody.Pubsub

abbrev Jid := String

abbrev NodeName := String

/-- Who asks for an operation: the service itself (`true`) or a user. -/
inductive Actor where
  | service
  | user (jid : Jid)
  deriving DecidableEq

inductive Affiliation where
  | outcast
  | none
  | member
  | publisher
  | owner
  | other (name : String)
  deriving DecidableEq

/-- The capabilities that `may` is asked for. -/
inductive Action where
  | create
  | publish
  | retract
  | delete
  | getNodes
  | configure
  | getConfiguration
  | subscribe
  | unsubscribe
  | getSubscription
  | getSubscriptions
  | getItems
  | subscribeOther
  | unsubscribeOther
  | getSubscriptionOther
  | getSubscriptionsOther
  | beSubscribed
  | beUnsubscribed
  | setAffiliation
  deriving DecidableEq

/-- What each affiliation allows; absent entries are left to the next table. -/
abbrev Capabilities := Affiliation → Action → Option Bool

/-- `default_config.capabilities`. -/
def defaultCapabilities : Capabilities
  | .other _, _ => Option.none
  | .owner, _ => some true
  | .outcast, action =>
    match action with
    | .getSubscription | .getSubscriptions | .beUnsubscribed => some true
    | .delete | .configure | .getConfiguration => Option.none
    | _ => some false
  | .none, action =>
    match action with
    | .getNodes | .subscribe | .unsubscribe | .getSubscription | .getSubscriptions
    | .beSubscribed | .beUnsubscribed => some true
    | .delete | .configure | .getConfiguration => Option.none
    | _ => some false
  | .member, action =>
    match action with
    | .getNodes | .subscribe | .unsubscribe | .getSubscription | .getSubscriptions
    | .getItems | .beSubscribed | .beUnsubscribed => some true
    | .delete | .configure | .getConfiguration => Option.none
    | _ => some false
  | .publisher, action =>
    match action with
    | .publish | .retract | .getNodes | .getConfiguration | .subscribe | .unsubscribe
    | .getSubscription | .getSubscriptions | .getItems | .beSubscribed
    | .beUnsubscribed => some true
    | .delete | .configure => Option.none
    | _ => some false

/-! ## Nodes and their configuration -/

inductive AccessModel where
  | «open»
  | whitelist
  | other (name : String)
  deriving DecidableEq

inductive PublishModel where
  | publishers
  | subscribers
  | «open»
  | other (name : String)
  deriving DecidableEq

/-- The fields that a node configuration sets itself. -/
structure NodeConfig where
  persistItems : Option Bool
  maxItems : Option Nat
  accessModel : Option AccessModel
  publishModel : Option PublishModel
  deriving DecidableEq

def NodeConfig.empty : NodeConfig :=
  { persistItems := none, maxItems := none, accessModel := none, publishModel := none }

/-- `default_node_config`. -/
def defaultNodeConfig : NodeConfig :=
  { persistItems := some false
    maxItems := some 20
    accessModel := some .open
    publishModel := some .publishers }

/-- Looking up a configuration whose missing fields are those of `defaults`. -/
def NodeConfig.inherit (config defaults : NodeConfig) : NodeConfig :=
  { persistItems := config.persistItems.or defaults.persistItems
    maxItems := config.maxItems.or defaults.maxItems
    accessModel := config.accessModel.or defaults.accessModel
    publishModel := config.publishModel.or defaults.publishModel }

/-- A subscription: `true`, or its options. -/
inductive Subscription where
  | plain
  | withOptions (options : String)
  deriving DecidableEq

structure Node where
  name : NodeName
  subscribers : Table Jid Subscription
  config : NodeConfig
  affiliations : Table Jid Affiliation
  capabilities : Option Capabilities

/-- `config.normalize_jid`, which has no value for addresses that are not valid and leaves
normalized addresses alone. -/
structure Normalizer where
  normalize : Jid → Option Jid
  idempotent : ∀ jid normal, normalize jid = some normal → normalize normal = some normal

/-- The item store of a node: its operations and whether they succeed. -/
structure ItemStore (Data Item : Type) where
  new : NodeConfig → NodeName → Data
  has : Data → String → Bool
  set : Data → String → Option Item → Option Data
  clear : Option (Data → Data)
  resize : Data → Option Nat → Data

structure Config (Data Item : Type) where
  normalizer : Normalizer
  nodeDefaults : NodeConfig
  autocreateOnSubscribe : Bool
  autocreateOnPublish : Bool
  getAffiliation : Jid → Option NodeName → Action → Option Affiliation
  capabilities : Capabilities
  accessModels : AccessModel → Jid → Option Affiliation
  itemcheck : Item → Bool
  checkNodeConfig : NodeName → Actor → NodeConfig → Bool
  itemstore : ItemStore Data Item

/-- The index of subscriptions: by normalized address, address and node. -/
abbrev Index := Table Jid (Table Jid (Finset NodeName))

/-- The node defaults of the service, over those of the module. -/
def Config.defaults {Data Item : Type} (config : Config Data Item) : NodeConfig :=
  config.nodeDefaults.inherit defaultNodeConfig

structure Broadcast (Item : Type) where
  kind : String
  node : NodeName
  subscribers : Table Jid Subscription
  item : Option Item
  actor : Actor

/-- A service. `store` is the node store, if there is one, and `writes` says for the coming
writes to it whether they succeed. -/
structure Service (Data Item : Type) where
  affiliations : Table Jid Affiliation
  subscriptions : Index
  nodes : Table NodeName Node
  data : Table NodeName Data
  store : Option (Table NodeName Node)
  writes : List Bool
  broadcasts : List (Broadcast Item)

inductive Error where
  | forbidden
  | itemNotFound
  | conflict
  | notSubscribed
  | preconditionNotMet
  | invalidItem
  | notAcceptable
  | internalServerError
  | store
  deriving DecidableEq, Repr

/-- The end of an operation: success, an error that is returned, or one that is raised. -/
inductive Result where
  | ok
  | failed (error : Error)
  | raised
  deriving DecidableEq, Repr

variable {Data Item : Type}

namespace Service

variable (config : Config Data Item) (s : Service Data Item)

/-! ## Permissions -/

def nodeConfig (node : Node) : NodeConfig := node.config.inherit config.defaults

/-- `get_default_affiliation`. -/
def getDefaultAffiliation (node : Option NodeName) (actor : Jid) : Option Affiliation :=
  let accessModel :=
    match (node.bind s.nodes.get).bind fun node => (nodeConfig config node).accessModel with
    | some model => some model
    | none => config.defaults.accessModel
  match accessModel with
  | some .open => some .member
  | some .whitelist => some .outcast
  | some (.other name) => config.accessModels (.other name) actor
  | none => none

/-- `may` for a user: the affiliation with the node, or else with the service, or else by
default, looked up in the capabilities of the node and then of the service. -/
def mayUser (node : Option NodeName) (actor : Jid) (action : Action) : Bool :=
  let nodeObj := node.bind s.nodes.get
  let nodeAff := nodeObj.bind fun node =>
    (node.affiliations.get actor).or
      ((config.normalizer.normalize actor).bind node.affiliations.get)
  let serviceAff := (s.affiliations.get actor).or (config.getAffiliation actor node action)
  let defaultAff := (s.getDefaultAffiliation config node actor).getD .none
  let affiliation := (nodeAff.or serviceAff).getD defaultAff
  let nodeCan := (nodeObj.bind Node.capabilities).bind fun caps => caps affiliation action
  (nodeCan.or (config.capabilities affiliation action)).getD false

/-- `may`. -/
def may (node : Option NodeName) (actor : Actor) (action : Action) : Bool :=
  match actor with
  | .service => true
  | .user jid => s.mayUser config node jid action

/-- The capability that an actor needs for an operation on the address `jid`: `own` if the
address is its own and `other` if it is not. -/
def capFor (actor : Actor) (jid : Jid) (own other : Action) : Action :=
  match actor with
  | .service => own
  | .user actor =>
    if jid = actor ∨ config.normalizer.normalize actor = config.normalizer.normalize jid then own
    else other

/-! ## The node store -/

/-- The answer of the store to the next write, `true` if nothing is said about it. -/
def nextWrite : Bool × Service Data Item :=
  (s.writes.head?.getD true, { s with writes := s.writes.tail })

/-- `save_node_to_store`, which is only called if there is a store. -/
def saveNodeToStore (node : Node) : Bool × Service Data Item :=
  match s.store with
  | none => (true, s)
  | some store =>
    let (ok, s) := s.nextWrite
    if ok then
      (true, { s with store := some (store.set node.name (some { node with capabilities := none })) })
    else (false, s)

/-- `delete_node_in_store`. -/
def deleteNodeInStore (node : NodeName) : Bool × Service Data Item :=
  match s.store with
  | none => (true, s)
  | some store =>
    let (ok, s) := s.nextWrite
    if ok then (true, { s with store := some (store.set node none) }) else (false, s)

def setNode (name : NodeName) (node : Option Node) : Service Data Item :=
  { s with nodes := s.nodes.set name node }

def setData (name : NodeName) (data : Option Data) : Service Data Item :=
  { s with data := s.data.set name data }

/-- `new`, over the nodes of the node store, which are loaded in some order. -/
def new (order : KeyOrder NodeName) (store : Option (Table NodeName Node)) :
    Service Data Item :=
  let stored := store.getD ∅
  (order.keys stored.keys).foldl
    (fun s name =>
      match stored.get name with
      | some node =>
        (s.setNode name (some { node with capabilities := none })).setData name
          (some (config.itemstore.new (nodeConfig config node) name))
      | none => s)
    { affiliations := ∅
      subscriptions := ∅
      nodes := ∅
      data := ∅
      store := store
      writes := []
      broadcasts := [] }

end Service

/-! ## The index -/

/-- The entry of an address in the bucket of its normalized address. -/
def Index.entry (index : Index) (normal jid : Jid) : Option (Finset NodeName) :=
  (index.get normal).bind fun subs => subs.get jid

def Index.add (index : Index) (normal jid : Jid) (node : NodeName) : Index :=
  match index.get normal with
  | some subs =>
    match subs.get jid with
    | none => index.set normal (some (subs.set jid (some {node})))
    | some nodes => index.set normal (some (subs.set jid (some (insert node nodes))))
  | none => index.set normal (some ((∅ : Table Jid (Finset NodeName)).set jid (some {node})))

/-- Removing a node from the entry of an address, and the entry and the bucket if they are
then empty. -/
def Index.remove (index : Index) (normal jid : Jid) (node : NodeName) : Index :=
  match index.get normal with
  | some subs =>
    let subs :=
      match subs.get jid with
      | some nodes =>
        let nodes := nodes.erase node
        subs.set jid (if nodes = ∅ then none else some nodes)
      | none => subs
    index.set normal (if subs.keys = ∅ then none else some subs)
  | none => index

/-- `self.subscriptions[normal_jid][jid][node] = old_subscription and true or nil`, which
raises an error if there is no such entry. -/
def Index.restore (index : Index) (normal jid : Jid) (node : NodeName) (subscribed : Bool) :
    Option Index :=
  match index.get normal with
  | some subs =>
    match subs.get jid with
    | some nodes =>
      let nodes := if subscribed then insert node nodes else nodes.erase node
      some (index.set normal (some (subs.set jid (some nodes))))
    | none => none
  | none => none

namespace Service

variable (config : Config Data Item) (s : Service Data Item)

/-! ## Subscriptions -/

def setSubscriber (name : NodeName) (node : Node) (jid : Jid) (sub : Option Subscription) :
    Service Data Item :=
  s.setNode name (some { node with subscribers := node.subscribers.set jid sub })

/-- What `add_subscription` does once the node is there. -/
def subscribeNode (name : NodeName) (nodeObj : Node) (jid : Jid) (options : Option String) :
    Result × Service Data Item :=
  let oldSubscription := nodeObj.subscribers.get jid
  let subscription := options.elim .plain .withOptions
  let s := s.setSubscriber name nodeObj jid (some subscription)
  match config.normalizer.normalize jid with
  | none => (.raised, s)
  | some normal =>
    let s := { s with subscriptions := s.subscriptions.add normal jid name }
    let (ok, s) := s.saveNodeToStore
      { nodeObj with subscribers := nodeObj.subscribers.set jid (some subscription) }
    if ok then (.ok, s)
    else
      let s := s.setSubscriber name nodeObj jid oldSubscription
      match s.subscriptions.restore normal jid name oldSubscription.isSome with
      | some subscriptions =>
        (.failed .internalServerError, { s with subscriptions := subscriptions })
      | none => (.raised, s)

/-- The service with a node taken out of the index entry of an address. -/
def unindex (name : NodeName) (jid : Jid) : Service Data Item :=
  match config.normalizer.normalize jid with
  | some normal => { s with subscriptions := s.subscriptions.remove normal jid name }
  | none => s

/-- What `remove_subscription` does once the subscription has been found. -/
def unsubscribeNode (name : NodeName) (nodeObj : Node) (jid : Jid)
    (oldSubscription : Subscription) : Result × Service Data Item :=
  let s := (s.setSubscriber name nodeObj jid none).unindex config name jid
  let (ok, s) := s.saveNodeToStore
    { nodeObj with subscribers := nodeObj.subscribers.set jid none }
  if ok then (.ok, s)
  else
    let s := s.setSubscriber name nodeObj jid (some oldSubscription)
    match (config.normalizer.normalize jid).bind fun normal =>
        s.subscriptions.restore normal jid name true with
    | some subscriptions =>
      (.failed .internalServerError, { s with subscriptions := subscriptions })
    | none => (.raised, s)

/-- `remove_subscription`. -/
def removeSubscription (name : NodeName) (actor : Actor) (jid : Jid) :
    Result × Service Data Item :=
  if !s.may config name actor (capFor config actor jid .unsubscribe .unsubscribeOther) then
    (.failed .forbidden, s)
  else if !s.mayUser config name jid .beUnsubscribed then
    (.failed .forbidden, s)
  else
    match s.nodes.get name with
    | none => (.failed .itemNotFound, s)
    | some nodeObj =>
      match nodeObj.subscribers.get jid with
      | none => (.failed .notSubscribed, s)
      | some old => s.unsubscribeNode config name nodeObj jid old

/-- `create` after its permission check, without an owner. -/
def createNode (name : NodeName) (options : NodeConfig) : Result × Service Data Item :=
  match s.nodes.get name with
  | some _ => (.failed .conflict, s)
  | none =>
    let node : Node :=
      { name := name
        subscribers := ∅
        config := options
        affiliations := ∅
        capabilities := none }
    let s := s.setNode name (some node)
    let (ok, s) := s.saveNodeToStore node
    if ok then
      (.ok, s.setData name (some (config.itemstore.new (nodeConfig config node) name)))
    else (.failed .internalServerError, s.setNode name none)

/-- `add_subscription`. -/
def addSubscription (name : NodeName) (actor : Actor) (jid : Jid)
    (options : Option String) : Result × Service Data Item :=
  if !s.may config name actor (capFor config actor jid .subscribe .subscribeOther) then
    (.failed .forbidden, s)
  else if !s.mayUser config name jid .beSubscribed then
    (.failed .forbidden, s)
  else
    match s.nodes.get name with
    | some nodeObj => s.subscribeNode config name nodeObj jid options
    | none =>
      if !config.autocreateOnSubscribe then (.failed .itemNotFound, s)
      else
        match s.createNode config name .empty with
        | (.ok, s) =>
          match s.nodes.get name with
          | some nodeObj => s.subscribeNode config name nodeObj jid options
          | none => (.raised, s)
        | (result, s) => (result, s)

/-! ## Affiliations -/

/-- `set_affiliation`. Whether the address has to be subscribed or may no longer be, it is
added as a subscriber. -/
def setAffiliation (name : NodeName) (actor : Actor) (jid : Jid)
    (affiliation : Option Affiliation) : Result × Service Data Item :=
  if !s.may config name actor .setAffiliation then (.failed .forbidden, s)
  else
    match s.nodes.get name with
    | none => (.failed .itemNotFound, s)
    | some nodeObj =>
      match config.normalizer.normalize jid with
      | none => (.raised, s)
      | some jid =>
        let oldAffiliation := nodeObj.affiliations.get jid
        let node := { nodeObj with affiliations := nodeObj.affiliations.set jid affiliation }
        let s := s.setNode name (some node)
        let (ok, s) := s.saveNodeToStore node
        if !ok then
          (.failed .internalServerError,
            s.setNode name (some
              { node with affiliations := node.affiliations.set jid oldAffiliation }))
        else
          let jidSub := (node.subscribers.get jid).isSome
          if !jidSub && !s.mayUser config name jid .beUnsubscribed then
            s.addSubscription config name .service jid none
          else if jidSub && !s.mayUser config name jid .beSubscribed then
            s.addSubscription config name .service jid none
          else (.ok, s)

/-- `create`. -/
def create (name : NodeName) (actor : Actor) (options : NodeConfig) :
    Result × Service Data Item :=
  if !s.may config name actor .create then (.failed .forbidden, s)
  else
    match s.createNode config name options, actor with
    | (.ok, s), .user jid =>
      match s.setAffiliation config name .service jid (some .owner) with
      | (.failed error, s) => (.failed error, (s.setNode name none).setData name none)
      | (result, s) => (result, s)
    | (result, s), _ => (result, s)

/-! ## Deletion -/

def broadcast (kind : String) (name : NodeName) (node : Node) (item : Option Item)
    (actor : Actor) : Service Data Item :=
  { s with
    broadcasts := s.broadcasts ++
      [{ kind := kind, node := name, subscribers := node.subscribers, item := item,
         actor := actor }] }

/-- `delete`. The node is gone even if the store refuses. -/
def delete (name : NodeName) (actor : Actor) : Result × Service Data Item :=
  if !s.may config name actor .delete then (.failed .forbidden, s)
  else
    match s.nodes.get name with
    | none => (.failed .itemNotFound, s)
    | some nodeObj =>
      let s := (s.setNode name none).setData name none
      let (ok, s) := s.deleteNodeInStore name
      if ok then (.ok, s.broadcast "delete" name nodeObj none actor)
      else (.failed .store, s)

/-! ## Items -/

/-- `check_preconditions`. -/
def checkPreconditions (nodeConfig required : NodeConfig) : Bool :=
  required.persistItems.all (fun v => nodeConfig.persistItems = some v) &&
    required.maxItems.all (fun v => nodeConfig.maxItems = some v) &&
    required.accessModel.all (fun v => nodeConfig.accessModel = some v) &&
    required.publishModel.all (fun v => nodeConfig.publishModel = some v)

/-- What `publish` does once the node is there. -/
def publishItem (name : NodeName) (nodeObj : Node) (actor : Actor) (id : String) (item : Item) :
    Result × Service Data Item :=
  if !config.itemcheck item then (.failed .invalidItem, s)
  else
    match s.data.get name with
    | none => (.raised, s)
    | some data =>
      match config.itemstore.set data id (some item) with
      | none => (.failed .internalServerError, s)
      | some data =>
        (.ok, (s.setData name (some data)).broadcast "items" name nodeObj (some item) actor)

/-- The publish model of the node lets the actor publish. -/
def modelAllows (name : NodeName) (actor : Actor) : Bool :=
  match s.nodes.get name with
  | none => false
  | some nodeObj =>
    match (nodeConfig config nodeObj).publishModel, actor with
    | some .open, _ => true
    | some .subscribers, .user jid => (nodeObj.subscribers.get jid).isSome
    | _, _ => false

/-- The requested configuration, which comes with its `_defaults_only` mark, is met. -/
def meetsRequest (nodeObj : Node) (requested : Option (NodeConfig × Bool)) : Bool :=
  match requested with
  | some (required, false) => checkPreconditions (nodeConfig config nodeObj) required
  | _ => true

/-- `publish`. -/
def publish (name : NodeName) (actor : Actor) (id : String) (item : Item)
    (requested : Option (NodeConfig × Bool)) : Result × Service Data Item :=
  if !(s.may config name actor .publish || s.modelAllows config name actor) then
    (.failed .forbidden, s)
  else
    match s.nodes.get name with
    | some nodeObj =>
      if !meetsRequest config nodeObj requested then (.failed .preconditionNotMet, s)
      else s.publishItem config name nodeObj actor id item
    | none =>
      if !config.autocreateOnPublish then (.failed .itemNotFound, s)
      else
        match s.createNode config name ((requested.map Prod.fst).getD .empty) with
        | (.ok, s) =>
          match s.nodes.get name with
          | some nodeObj => s.publishItem config name nodeObj actor id item
          | none => (.raised, s)
        | (result, s) => (result, s)

/-- `retract`, with the stanza to be broadcast if there is one. -/
def retract (name : NodeName) (actor : Actor) (id : String) (notification : Option Item) :
    Result × Service Data Item :=
  if !s.may config name actor .retract then (.failed .forbidden, s)
  else
    match s.nodes.get name with
    | none => (.failed .itemNotFound, s)
    | some nodeObj =>
      match s.data.get name with
      | none => (.raised, s)
      | some data =>
        if !config.itemstore.has data id then (.failed .itemNotFound, s)
        else
          match config.itemstore.set data id none with
          | none => (.failed .internalServerError, s)
          | some data =>
            let s := s.setData name (some data)
            match notification with
            | some item => (.ok, s.broadcast "retract" name nodeObj (some item) actor)
            | none => (.ok, s)

/-- `purge`. -/
def purge (name : NodeName) (actor : Actor) (notify : Bool) : Result × Service Data Item :=
  if !s.may config name actor .retract then (.failed .forbidden, s)
  else
    match s.nodes.get name with
    | none => (.failed .itemNotFound, s)
    | some nodeObj =>
      let data :=
        match s.data.get name, config.itemstore.clear with
        | some data, some clear => clear data
        | _, _ => config.itemstore.new (nodeConfig config nodeObj) name
      let s := s.setData name (some data)
      (.ok, if notify then s.broadcast "purge" name nodeObj none actor else s)

/-! ## Configuration -/

/-- The loop of `set_node_config` over subscribers that the new access model excludes. -/
def expelSubscribers (name : NodeName) (s : Service Data Item) :
    List Jid → Result × Service Data Item
  | [] => (.ok, s)
  | jid :: jids =>
    if s.mayUser config name jid .beSubscribed then expelSubscribers name s jids
    else
      match s.removeSubscription config name .service jid with
      | (.ok, s) => expelSubscribers name s jids
      | (result, s) => (result, s)

/-- What `set_node_config` does once the new configuration has been saved. -/
def settleNodeConfig (order : KeyOrder Jid) (name : NodeName) (nodeObj : Node)
    (newConfig : NodeConfig) : Result × Service Data Item :=
  let old := nodeConfig config nodeObj
  let new := nodeConfig config { nodeObj with config := newConfig }
  let (result, s) :=
    if old.accessModel ≠ new.accessModel then
      expelSubscribers config name s (order.keys nodeObj.subscribers.keys)
    else (.ok, s)
  match result with
  | .failed error =>
    match s.nodes.get name with
    | some node => (.failed error, s.setNode name (some { node with config := nodeObj.config }))
    | none => (.failed error, s)
  | .raised => (.raised, s)
  | .ok =>
    if old.persistItems ≠ new.persistItems then
      (.ok, s.setData name (some (config.itemstore.new new name)))
    else if old.maxItems ≠ new.maxItems then
      match s.data.get name with
      | some data => (.ok, s.setData name (some (config.itemstore.resize data new.maxItems)))
      | none => (.raised, s)
    else (.ok, s)

/-- `set_node_config`. -/
def setNodeConfig (order : KeyOrder Jid) (name : NodeName) (actor : Actor)
    (newConfig : NodeConfig) : Result × Service Data Item :=
  if !s.may config name actor .configure then (.failed .forbidden, s)
  else
    match s.nodes.get name with
    | none => (.failed .itemNotFound, s)
    | some nodeObj =>
      if !config.checkNodeConfig name actor newConfig then (.failed .notAcceptable, s)
      else
        let node := { nodeObj with config := newConfig }
        let (ok, s) := (s.setNode name (some node)).saveNodeToStore node
        if !ok then (.failed .internalServerError, s.setNode name (some nodeObj))
        else s.settleNodeConfig config order name nodeObj newConfig

/-! ## Queries -/

/-- An entry of the answer of `get_subscriptions`. -/
structure Entry where
  node : NodeName
  jid : Jid
  subscription : Option Subscription
  deriving DecidableEq

/-- The addresses and nodes of a bucket of the index. -/
def bucketPairs (order : KeyOrder String) (subs : Table Jid (Finset NodeName)) :
    List (Jid × NodeName) :=
  (order.keys subs.keys).flatMap fun jid =>
    (order.keys ((subs.get jid).getD ∅)).map fun node => (jid, node)

/-- `flatten_subscriptions` without a node: the subscriptions of a bucket of the index. It
raises an error (`none`) at a node that does not exist. -/
def flattenSubscriptions (order : KeyOrder String) (subs : Table Jid (Finset NodeName)) :
    Option (List Entry) :=
  (bucketPairs order subs).mapM fun (jid, node) =>
    (s.nodes.get node).map fun nodeObj =>
      { node := node, jid := jid, subscription := nodeObj.subscribers.get jid }

/-- `get_subscriptions(nil, actor, jid)`. The outer `none` is a raised error. -/
def getSubscriptions (order : KeyOrder String) (actor : Actor) (jid : Jid) :
    Option (Except Error (List Entry)) :=
  if !s.may config none actor (capFor config actor jid .getSubscriptions .getSubscriptionsOther) then
    some (.error .forbidden)
  else
    match (config.normalizer.normalize jid).bind s.subscriptions.get with
    | none => some (.ok [])
    | some subs => (s.flattenSubscriptions order subs).map .ok

end Service

/-! ## Operations -/

inductive Op (Item : Type) where
  | create (name : NodeName) (actor : Actor) (options : NodeConfig)
  | delete (name : NodeName) (actor : Actor)
  | addSubscription (name : NodeName) (actor : Actor) (jid : Jid) (options : Option String)
  | removeSubscription (name : NodeName) (actor : Actor) (jid : Jid)
  | setAffiliation (name : NodeName) (actor : Actor) (jid : Jid) (affiliation : Option Affiliation)
  | publish (name : NodeName) (actor : Actor) (id : String) (item : Item)
      (requested : Option (NodeConfig × Bool))
  | retract (name : NodeName) (actor : Actor) (id : String) (notification : Option Item)
  | purge (name : NodeName) (actor : Actor) (notify : Bool)
  | setNodeConfig (name : NodeName) (actor : Actor) (newConfig : NodeConfig)

/-- A call of an operation: what the store answers to its writes, and the order in which
tables are enumerated. -/
structure Call (Item : Type) where
  op : Op Item
  writes : List Bool
  order : KeyOrder String

def Service.call (config : Config Data Item) (s : Service Data Item) (c : Call Item) :
    Result × Service Data Item :=
  let s := { s with writes := c.writes }
  match c.op with
  | .create name actor options => s.create config name actor options
  | .delete name actor => s.delete config name actor
  | .addSubscription name actor jid options => s.addSubscription config name actor jid options
  | .removeSubscription name actor jid => s.removeSubscription config name actor jid
  | .setAffiliation name actor jid affiliation =>
    s.setAffiliation config name actor jid affiliation
  | .publish name actor id item requested => s.publish config name actor id item requested
  | .retract name actor id notification => s.retract config name actor id notification
  | .purge name actor notify => s.purge config name actor notify
  | .setNodeConfig name actor newConfig => s.setNodeConfig config c.order name actor newConfig

def Service.step (config : Config Data Item) (s : Service Data Item) (c : Call Item) :
    Service Data Item :=
  (s.call config c).2

end Prosody.Pubsub
