import LaserDB.Cluster.LaserEntity
import LaserDB.Library.Overwrite

/-!
# The configuration of a server

`ConfigManager` of `common/laser/config_manager.cc`.  The tables of a new configuration replace the
old ones; nodes and data centres are only written over.
-/

namespace LaserDB

open ByteCodec LaserEntity Overwrite Function Option List

abbrev TableSchemasMap := UInt64 → Option LaserEntity.TableSchema

abbrev ConfigText := Option (Json Bytes)

structure Configs where
  databaseTableSchemaData : Option ConfigText
  clusterInfoData : Option ConfigText

structure Subscriber where
  groupName : Bytes
  nodeId : UInt32
  deriving DecidableEq

structure ClusterUpdate where
  shardList : NodeShardList
  tableSchemas : TableSchemasMap

structure ConfigManager where
  tableSchemas : TableSchemasMap
  clusterInfo : Option ClusterInfo
  nodeShardLists : UInt64 → Option NodeShardList
  dcs : Bytes → Option DataCenter
  useManuallySetConfig : Bool
  isEdgeNode : Bool
  updateSubscribers : UInt64 → Option Subscriber
  told : UInt64 → Option ClusterUpdate

section
variable [CityHash64]

namespace ConfigManager

variable (state : ConfigManager)

def start (useManuallySetConfig : Bool) (updateSubscribers : UInt64 → Option Subscriber) :
    ConfigManager where
  tableSchemas _ := none
  clusterInfo := none
  nodeShardLists _ := none
  dcs _ := none
  useManuallySetConfig := useManuallySetConfig
  isEdgeNode := false
  updateSubscribers := updateSubscribers
  told _ := none

def getTableSchemaHash (databaseName tableName : Bytes) : UInt64 :=
  CityHash64.withSeed tableName (CityHash64.withSeed databaseName 0)

def getNodeListHash (groupName : Bytes) (nodeId : UInt32) : UInt64 :=
  CityHash64.withSeed groupName nodeId.toUInt64

def subscribe (subscriber : Subscriber) : ConfigManager :=
  { state with
    updateSubscribers := update state.updateSubscribers
      (getNodeListHash subscriber.groupName subscriber.nodeId) (some subscriber) }

def getTableSchema (databaseName tableName : Bytes) : Option LaserEntity.TableSchema :=
  state.tableSchemas (getTableSchemaHash databaseName tableName)

def getNodeShardList (groupName : Bytes) (nodeId : UInt32) : Option NodeShardList :=
  state.nodeShardLists (getNodeListHash groupName nodeId)

/-- `getShardNumber` of a data centre looks it up and ends without a `return`: there is no value
that it returns. -/
def getShardNumber (dc : Bytes) : Option (Option UInt32) :=
  let _shardNumber := (state.dcs dc).map DataCenter.shardNumber
  none

def schemaEntries (databases : List DatabaseSchema) : List (UInt64 × LaserEntity.TableSchema) :=
  databases.flatMap fun database => database.tables.map fun table =>
    (getTableSchemaHash database.databaseName table.tableName,
      { table with databaseName := database.databaseName })

def readDatabases (value : ConfigText) : Option (List DatabaseSchema) :=
  (value.bind Json.asArray).bind fun items => items.mapM DatabaseSchema.deserialize

def updateDatabase (value : ConfigText) : ConfigManager :=
  match readDatabases value with
  | none => state
  | some databases =>
    { state with tableSchemas := writeAll (fun _ => none) (schemaEntries databases) }

def nodeHash (node : Bytes × NodeShardList) : UInt64 := getNodeListHash node.1 node.2.nodeId

def groupNodes (info : ClusterInfo) : List (Bytes × NodeShardList) :=
  info.groups.flatMap fun group => group.nodes.map fun node => (group.groupName, node)

def nodeEntries (info : ClusterInfo) : List (UInt64 × NodeShardList) :=
  (groupNodes info).map fun node => (nodeHash node, node.2)

def dcEntries (info : ClusterInfo) : List (Bytes × DataCenter) :=
  info.dcs.map fun dc => (dc.name, dc)

def readClusterInfo (value : ConfigText) : Option ClusterInfo :=
  value.bind ClusterInfo.deserialize

def updateClusterInfo (value : ConfigText) (groupName : Bytes) (nodeId : UInt32) : ConfigManager :=
  match readClusterInfo value with
  | none => state
  | some info =>
    { state with
      isEdgeNode := (groupNodes info).foldl (fun isEdgeNode node =>
        if node.1 = groupName ∧ node.2.nodeId = nodeId then node.2.isEdgeNode else isEdgeNode)
        state.isEdgeNode
      nodeShardLists := writeAll state.nodeShardLists (nodeEntries info)
      dcs := writeAll state.dcs (dcEntries info)
      clusterInfo := some info }

def initOverwriteConfig (configs : Configs) (groupName : Bytes) (nodeId : UInt32)
    (configFromServiceRouter : Bool) : ConfigManager :=
  let state := match configs.databaseTableSchemaData with
    | none => state
    | some value => state.updateDatabase value
  match configs.clusterInfoData with
  | none => state
  | some value =>
    if state.useManuallySetConfig && configFromServiceRouter then state
    else state.updateClusterInfo value groupName nodeId

def announcement (key : UInt64) : Option ClusterUpdate := do
  let _ ← state.updateSubscribers key
  let list ← state.nodeShardLists key
  return ⟨list, state.tableSchemas⟩

def notify (node : Bytes × NodeShardList) : ConfigManager :=
  match state.announcement (nodeHash node) with
  | none => state
  | some update => { state with told := Function.update state.told (nodeHash node) (some update) }

def upateDatabaseAndCluster : ConfigManager :=
  match state.clusterInfo with
  | none => state
  | some info => (groupNodes info).foldl notify state

def updateConfig (configs : Configs) (groupName : Bytes) (nodeId : UInt32)
    (configFromServiceRouter : Bool) : ConfigManager :=
  (state.initOverwriteConfig configs groupName nodeId configFromServiceRouter).upateDatabaseAndCluster

theorem foldl_notify (state : ConfigManager) (nodes : List (Bytes × NodeShardList)) :
    nodes.foldl notify state = { state with
      told := fun key => if key ∈ nodes.map nodeHash then (state.announcement key).or (state.told key)
        else state.told key } := by
  induction nodes generalizing state with
  | nil => rfl
  | cons node nodes ih =>
    have hnotify : state.notify node = { state with
        told := update state.told (nodeHash node)
          ((state.announcement (nodeHash node)).or (state.told (nodeHash node))) } := by
      unfold notify
      cases state.announcement (nodeHash node) with
      | none => rw [none_or, update_eq_self]
      | some update => rfl
    have hannouncement : (state.notify node).announcement = state.announcement := by
      rw [hnotify]
      rfl
    rw [foldl_cons, ih, hannouncement, hnotify]
    congr 1
    funext key
    rw [map_cons]
    dsimp only
    by_cases hkey : key = nodeHash node
    · rw [hkey, update_self, if_pos mem_cons_self, ← Option.or_assoc, Option.or_self]
      exact ite_self _
    · rw [update_of_ne hkey]
      exact if_congr (mem_cons.trans (or_iff_right hkey)).symm rfl rfl

structure ConfigUpdate where
  configs : Configs
  groupName : Bytes
  nodeId : UInt32
  configFromServiceRouter : Bool

def step (update : ConfigUpdate) (state : ConfigManager) : ConfigManager :=
  state.updateConfig update.configs update.groupName update.nodeId update.configFromServiceRouter

def run (state : ConfigManager) (updates : List ConfigUpdate) : ConfigManager :=
  Simulation.finalState step updates state

structure Held where
  tableSchemas : TableSchemasMap
  nodeShardLists : UInt64 → Option NodeShardList
  dcs : Bytes → Option DataCenter
  told : UInt64 → Option ClusterUpdate

def held (state : ConfigManager) : Held :=
  ⟨state.tableSchemas, state.nodeShardLists, state.dcs, state.told⟩

namespace ConfigUpdate

variable (update : ConfigUpdate)

def databases : Option (List DatabaseSchema) :=
  update.configs.databaseTableSchemaData.bind readDatabases

def clusterInfo : Option ClusterInfo :=
  update.configs.clusterInfoData.bind readClusterInfo

def heeded (manual : Bool) : Option ClusterInfo :=
  if manual && update.configFromServiceRouter then none else update.clusterInfo

def Parses : Prop :=
  (∀ text ∈ update.configs.databaseTableSchemaData, (readDatabases text).isSome) ∧
    ∀ text ∈ update.configs.clusterInfoData, (readClusterInfo text).isSome

/-- What a manager should hold after a configuration: its tables, nodes and data centres, and every
subscriber knows the shards of its node, which are none if the node is not there. -/
def held (subscribers : UInt64 → Option Subscriber) : Held :=
  let schemas := writeAll (fun _ => none) ((update.databases.map schemaEntries).getD [])
  let nodes := writeAll (fun _ => none) ((update.clusterInfo.map nodeEntries).getD [])
  { tableSchemas := schemas
    nodeShardLists := nodes
    dcs := writeAll (fun _ => none) ((update.clusterInfo.map dcEntries).getD [])
    told := fun key => (subscribers key).map fun subscriber =>
      ⟨(nodes key).getD ⟨subscriber.nodeId, [], [], false⟩, schemas⟩ }

/-- The configuration has tables and nodes, the latter are not ignored, and among them are all the
nodes of earlier configurations that were not ignored and all that subscribe. -/
structure Covers (update : ConfigUpdate) (manual : Bool) (subscribers : UInt64 → Option Subscriber)
    (history : List ConfigUpdate) : Prop where
  databases : update.configs.databaseTableSchemaData.isSome
  clusterInfo : update.configs.clusterInfoData.isSome
  heeded : (manual && update.configFromServiceRouter) = false
  nodes : ∀ earlier ∈ history, ∀ old ∈ earlier.heeded manual, ∀ info ∈ update.clusterInfo,
    ∀ node ∈ groupNodes old, nodeHash node ∈ (groupNodes info).map nodeHash
  subscribers : ∀ key, (subscribers key).isSome → ∀ info ∈ update.clusterInfo,
    key ∈ (groupNodes info).map nodeHash

end ConfigUpdate

variable {manual : Bool} {subscribers : UInt64 → Option Subscriber}

theorem initOverwriteConfig_eq (state : ConfigManager) (update : ConfigUpdate) :
    state.initOverwriteConfig update.configs update.groupName update.nodeId
        update.configFromServiceRouter =
      { state with
        tableSchemas := (update.databases.map fun databases =>
          writeAll (fun _ => none) (schemaEntries databases)).getD state.tableSchemas
        nodeShardLists := writeAll state.nodeShardLists
          (((update.heeded state.useManuallySetConfig).map nodeEntries).getD [])
        dcs := writeAll state.dcs
          (((update.heeded state.useManuallySetConfig).map dcEntries).getD [])
        clusterInfo := (update.heeded state.useManuallySetConfig).or state.clusterInfo
        isEdgeNode := (state.initOverwriteConfig update.configs update.groupName update.nodeId
          update.configFromServiceRouter).isEdgeNode } := by
  have hdatabase : (match update.configs.databaseTableSchemaData with
      | none => state
      | some text => state.updateDatabase text) = { state with
        tableSchemas := (update.databases.map fun databases =>
          writeAll (fun _ => none) (schemaEntries databases)).getD state.tableSchemas } := by
    unfold ConfigUpdate.databases updateDatabase
    cases update.configs.databaseTableSchemaData with
    | none => rfl
    | some text =>
      dsimp only [bind_some]
      cases readDatabases text <;> rfl
  unfold initOverwriteConfig
  rw [hdatabase]
  unfold ConfigUpdate.heeded ConfigUpdate.clusterInfo updateClusterInfo
  cases update.configs.clusterInfoData with
  | none => simp [writeAll]
  | some text =>
    dsimp only [bind_some]
    split_ifs
    · rfl
    · cases readClusterInfo text <;> rfl

theorem upateDatabaseAndCluster_eq (state : ConfigManager) :
    state.upateDatabaseAndCluster = { state with
      told := fun key =>
        if key ∈ ((state.clusterInfo.map groupNodes).getD []).map nodeHash then
          (state.announcement key).or (state.told key)
        else state.told key } := by
  unfold upateDatabaseAndCluster
  split
  · next hinfo =>
      have hnodes : (state.clusterInfo.map groupNodes).getD [] = [] := by rw [hinfo]; rfl
      rw [hnodes]
      rfl
  · next info hinfo =>
      have hnodes : (state.clusterInfo.map groupNodes).getD [] = groupNodes info := by
        rw [hinfo]
        rfl
      rw [hnodes]
      exact foldl_notify state (groupNodes info)

theorem nodeShardLists_step (update : ConfigUpdate) (state : ConfigManager) :
    (step update state).nodeShardLists = writeAll state.nodeShardLists
      (((update.heeded state.useManuallySetConfig).map nodeEntries).getD []) := by
  rw [step, updateConfig, upateDatabaseAndCluster_eq, initOverwriteConfig_eq]

theorem useManuallySetConfig_step (update : ConfigUpdate) (state : ConfigManager) :
    (step update state).useManuallySetConfig = state.useManuallySetConfig := by
  rw [step, updateConfig, upateDatabaseAndCluster_eq, initOverwriteConfig_eq]

theorem map_fst_nodeEntries (info : ClusterInfo) :
    (nodeEntries info).map Prod.fst = (groupNodes info).map nodeHash := map_map

/-- A manager has only nodes that were listed, no data centre, and has told subscribers only. -/
structure Within (manual : Bool) (subscribers : UInt64 → Option Subscriber)
    (listed : UInt64 → Prop) (state : ConfigManager) : Prop where
  useManuallySetConfig : state.useManuallySetConfig = manual
  updateSubscribers : state.updateSubscribers = subscribers
  nodes : ∀ key, (state.nodeShardLists key).isSome → listed key
  dcs : ∀ name, state.dcs name = none
  told : ∀ key, (state.told key).isSome → (subscribers key).isSome

omit [CityHash64] in
theorem within_start (listed : UInt64 → Prop) :
    Within manual subscribers listed (start manual subscribers) :=
  ⟨rfl, rfl, nofun, fun _ => rfl, nofun⟩

omit [CityHash64] in
theorem dcEntries_heeded (update : ConfigUpdate) (manual : Bool) :
    ((update.heeded manual).map dcEntries).getD [] = [] := by
  cases hinfo : update.heeded manual with
  | none => rfl
  | some info =>
    unfold ConfigUpdate.heeded at hinfo
    split_ifs at hinfo
    obtain ⟨text, -, hread⟩ := bind_eq_some_iff.mp hinfo
    obtain ⟨data, -, hread⟩ := bind_eq_some_iff.mp hread
    rw [map_some, getD_some, dcEntries, ClusterInfo.dcs_of_deserialize hread]
    rfl

variable {state : ConfigManager} {listed : UInt64 → Prop}

variable (hwithin : Within manual subscribers listed state)
include hwithin

theorem Within.init {update : ConfigUpdate}
    (hlisted : ∀ info ∈ update.heeded manual, ∀ node ∈ groupNodes info, listed (nodeHash node)) :
    Within manual subscribers listed (state.initOverwriteConfig update.configs update.groupName
      update.nodeId update.configFromServiceRouter) := by
  rw [initOverwriteConfig_eq, hwithin.useManuallySetConfig, dcEntries_heeded]
  refine ⟨rfl, hwithin.updateSubscribers, fun key hkey => ?_, hwithin.dcs, hwithin.told⟩
  cases hinfo : update.heeded manual with
  | none =>
    rw [hinfo] at hkey
    exact hwithin.nodes key hkey
  | some info =>
    rw [hinfo] at hkey
    by_cases hmem : key ∈ (nodeEntries info).map Prod.fst
    · rw [map_fst_nodeEntries] at hmem
      obtain ⟨node, hnode, rfl⟩ := mem_map.mp hmem
      exact hlisted info hinfo node hnode
    · have hread := @writeAll_of_notMem _ _ _ state.nodeShardLists _ _ hmem
      exact hwithin.nodes key (hread ▸ hkey)

theorem Within.notify :
    Within manual subscribers listed state.upateDatabaseAndCluster := by
  rw [upateDatabaseAndCluster_eq]
  refine ⟨hwithin.useManuallySetConfig, hwithin.updateSubscribers, hwithin.nodes, hwithin.dcs,
    fun key hkey => ?_⟩
  dsimp only at hkey
  split_ifs at hkey
  · rw [isSome_or, Bool.or_eq_true] at hkey
    rcases hkey with hannounced | htold
    · rw [announcement, hwithin.updateSubscribers] at hannounced
      cases hsubscriber : subscribers key with
      | none => rw [hsubscriber] at hannounced; cases hannounced
      | some subscriber => rfl
    · exact hwithin.told key htold
  · exact hwithin.told key hkey

theorem Within.run {updates : List ConfigUpdate}
    (hlisted : ∀ update ∈ updates, ∀ info ∈ update.heeded manual, ∀ node ∈ groupNodes info,
      listed (nodeHash node)) : Within manual subscribers listed (state.run updates) := by
  induction updates generalizing state with
  | nil => exact hwithin
  | cons update updates ih =>
    rw [forall_mem_cons] at hlisted
    exact ih (hwithin.init hlisted.1).notify hlisted.2

omit hwithin

variable {info : ClusterInfo}

theorem Within.nodeShardLists_eq (hwithin : Within manual subscribers
      (fun key => key ∈ (groupNodes info).map nodeHash) state) :
    writeAll state.nodeShardLists (nodeEntries info) =
      writeAll (fun _ => none) (nodeEntries info) := by
  funext key
  by_cases hmem : key ∈ (nodeEntries info).map Prod.fst
  · exact writeAll_of_mem hmem
  · rw [writeAll_of_notMem hmem, writeAll_of_notMem hmem]
    by_contra hsome
    refine hmem ?_
    rw [map_fst_nodeEntries]
    exact hwithin.nodes key (isSome_iff_ne_none.mpr hsome)

theorem Within.told_eq (hwithin : Within manual subscribers
      (fun key => key ∈ (groupNodes info).map nodeHash) state)
    (hinfo : state.clusterInfo = some info)
    (hnodes : state.nodeShardLists = writeAll (fun _ => none) (nodeEntries info))
    (hsubscribers : ∀ key, (subscribers key).isSome → key ∈ (groupNodes info).map nodeHash) :
    state.upateDatabaseAndCluster.told = fun key => (subscribers key).map fun subscriber =>
      ⟨(state.nodeShardLists key).getD ⟨subscriber.nodeId, [], [], false⟩, state.tableSchemas⟩ := by
  funext key
  rw [upateDatabaseAndCluster_eq, hinfo, map_some, getD_some]
  dsimp only
  cases hsubscriber : subscribers key with
  | none =>
    have htold : state.told key = none := by
      by_contra hsome
      have hsubscribed := hwithin.told key (isSome_iff_ne_none.mpr hsome)
      rw [hsubscriber] at hsubscribed
      cases hsubscribed
    have hannouncement : state.announcement key = none := by
      rw [announcement, hwithin.updateSubscribers, hsubscriber]
      rfl
    rw [htold, hannouncement]
    exact ite_self _
  | some subscriber =>
    have hlisted := hsubscribers key (by rw [hsubscriber]; rfl)
    have hnode : (state.nodeShardLists key).isSome := by
      rw [hnodes]
      exact isSome_writeAll (by rw [map_fst_nodeEntries]; exact hlisted)
    obtain ⟨list, hlist⟩ := isSome_iff_exists.mp hnode
    have hannouncement : state.announcement key = some ⟨list, state.tableSchemas⟩ := by
      rw [announcement, hwithin.updateSubscribers, hsubscriber, hlist]
      rfl
    rw [if_pos hlisted, hannouncement, hlist]
    rfl

/-- When the last configuration covers those before it, it alone says what is held and told. -/
theorem held_run (manual : Bool) (subscribers : UInt64 → Option Subscriber)
    (history : List ConfigUpdate) (last : ConfigUpdate) (hparses : last.Parses)
    (hcovers : last.Covers manual subscribers history) :
    ((start manual subscribers).run (history ++ [last])).held = last.held subscribers := by
  obtain ⟨database, hdatabase⟩ := isSome_iff_exists.mp hcovers.databases
  obtain ⟨databases, hdatabases⟩ := isSome_iff_exists.mp (hparses.1 database hdatabase)
  obtain ⟨cluster, hcluster⟩ := isSome_iff_exists.mp hcovers.clusterInfo
  obtain ⟨info, hread⟩ := isSome_iff_exists.mp (hparses.2 cluster hcluster)
  have hinfo : last.clusterInfo = some info := by
    rw [ConfigUpdate.clusterInfo, hcluster, bind_some, hread]
  have htables : last.databases = some databases := by
    rw [ConfigUpdate.databases, hdatabase, bind_some, hdatabases]
  have hheeded : last.heeded manual = some info := by
    rw [ConfigUpdate.heeded, hcovers.heeded, if_neg Bool.false_ne_true, hinfo]
  have hentries : dcEntries info = [] := by
    have hnone := dcEntries_heeded last manual
    rwa [hheeded] at hnone
  have hbefore : Within manual subscribers (fun key => key ∈ (groupNodes info).map nodeHash)
      ((start manual subscribers).run history) :=
    (within_start _).run fun earlier hearlier old hold node hnode =>
      hcovers.nodes earlier hearlier old hold info hinfo node hnode
  have hlast := initOverwriteConfig_eq ((start manual subscribers).run history) last
  rw [hbefore.useManuallySetConfig, hheeded, htables] at hlast
  have hafter := @Within.init _ _ _ _ _ hbefore last fun other hother node hnode => by
    cases hheeded.symm.trans hother
    exact mem_map_of_mem hnode
  have hrun : (start manual subscribers).run (history ++ [last]) =
      (((start manual subscribers).run history).initOverwriteConfig last.configs last.groupName
        last.nodeId last.configFromServiceRouter).upateDatabaseAndCluster :=
    Simulation.finalState_append _ history [last] _
  rw [hrun]
  generalize ((start manual subscribers).run history).initOverwriteConfig last.configs
    last.groupName last.nodeId last.configFromServiceRouter = after at hlast hafter
  have hnodes : after.nodeShardLists = writeAll (fun _ => none) (nodeEntries info) := by
    rw [hlast]
    exact hbefore.nodeShardLists_eq
  have htold := hafter.told_eq (by rw [hlast]; rfl) hnodes fun key hkey =>
    hcovers.subscribers key hkey info hinfo
  have hschemas : after.tableSchemas = writeAll (fun _ => none) (schemaEntries databases) := by
    rw [hlast]
    rfl
  have hdcs : after.dcs = fun _ => none := funext hafter.dcs
  have hkept : after.upateDatabaseAndCluster.held =
      ⟨after.tableSchemas, after.nodeShardLists, after.dcs, after.upateDatabaseAndCluster.told⟩ := by
    rw [upateDatabaseAndCluster_eq]
    rfl
  rw [hkept, htold, hschemas, hnodes, hdcs, ConfigUpdate.held, hinfo, htables]
  simp only [map_some, getD_some, hentries]
  rfl

def clusterDocument (nodes : List (Int64 × List Int64)) : Json Bytes :=
  .object [("ClusterName", .string [99]), ("ShardNumber", .int 4),
    ("Groups", .array [.object [("GroupName", .string [103]),
      ("Nodes", .array (nodes.map fun node => .object [("NodeId", .int node.1),
        ("LeaderShardList", .array (node.2.map .int)), ("FollowerShardList", .array [])]))]])]

def nodesUpdate (nodes : List (Int64 × List Int64)) : ConfigUpdate where
  configs := ⟨some (some (.array [])), some (some (clusterDocument nodes))⟩
  groupName := [103]
  nodeId := 1
  configFromServiceRouter := true

end ConfigManager

end

namespace ConfigManager

section
local instance clusterHash : CityHash64 := PartitionManager.referenceHash

def nodeSubscriber : UInt64 → Option Subscriber :=
  ((start false fun _ => none).subscribe ⟨[103], 1⟩).updateSubscribers

theorem parses_nodesUpdate_nil : (nodesUpdate []).Parses := by
  constructor <;> rintro text ⟨⟩ <;> rfl

theorem parses_nodesUpdate_single (shard : Int64) : (nodesUpdate [(1, [shard])]).Parses := by
  constructor <;> rintro text ⟨⟩ <;> rfl

theorem held_run_moved :
    ((start false nodeSubscriber).run ([nodesUpdate [(1, [0])]] ++ [nodesUpdate [(1, [2])]])).held =
      (nodesUpdate [(1, [2])]).held nodeSubscriber := by
  refine held_run false nodeSubscriber [nodesUpdate [(1, [0])]] (nodesUpdate [(1, [2])])
    (parses_nodesUpdate_single 2) ⟨rfl, rfl, rfl, ?_, ?_⟩
  · rintro earlier hearlier old hold info hinfo node hnode
    rw [mem_singleton.mp hearlier] at hold
    cases hold
    cases hinfo
    rw [mem_singleton.mp hnode]
    exact mem_singleton_self (getNodeListHash [103] 1)
  · rintro key hkey info hinfo
    cases hinfo
    by_cases hsame : key = getNodeListHash [103] 1
    · rw [hsame]
      exact mem_singleton_self (getNodeListHash [103] 1)
    · have hnone : nodeSubscriber key = none := update_of_ne hsame ..
      rw [hnone] at hkey
      cases hkey

/-- The node leaves the cluster: its shards are still there, and its subscriber is not told. -/
theorem held_run_fails :
    (∀ update ∈ [nodesUpdate [(1, [0])], nodesUpdate []], update.Parses) ∧
    ((start false nodeSubscriber).run [nodesUpdate [(1, [0])], nodesUpdate []]).getNodeShardList
      [103] 1 = some ⟨1, [0], [], false⟩ ∧
    ((start false nodeSubscriber).run [nodesUpdate [(1, [0])], nodesUpdate []]).held ≠
      (nodesUpdate []).held nodeSubscriber := by
  have hnode : ((start false nodeSubscriber).run
      [nodesUpdate [(1, [0])], nodesUpdate []]).getNodeShardList [103] 1 =
        some ⟨1, [0], [], false⟩ := by
    rw [run, Simulation.finalState, Simulation.finalState, Simulation.finalState, getNodeShardList,
      nodeShardLists_step, useManuallySetConfig_step, nodeShardLists_step]
    change writeAll (writeAll (fun _ => none) [(getNodeListHash [103] 1,
      NodeShardList.mk 1 [0] [] false)]) [] (getNodeListHash [103] 1) = _
    rw [writeAll_of_notMem not_mem_nil]
    refine writeAll_of_entry (mem_singleton_self _) fun other hother => ?_
    exact congrArg Prod.snd (mem_singleton.mp hother)
  refine ⟨?_, hnode, fun hheld => ?_⟩
  · simp only [forall_mem_cons]
    exact ⟨parses_nodesUpdate_single 0, parses_nodesUpdate_nil, nofun⟩
  · have hlists := congrFun (congrArg Held.nodeShardLists hheld) (getNodeListHash [103] 1)
    exact absurd (hnode.symm.trans hlists) nofun

end

end ConfigManager

end LaserDB
