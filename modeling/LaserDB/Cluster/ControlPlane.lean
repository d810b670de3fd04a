import LaserDB.Cluster.ConfigManager

/-!
# What the control plane publishes

The documents that `control/service/consul.go` and `control/service/shard_manager.go` write, and
what a server reads from them.
-/

namespace LaserDB

open ConfigManager

open Json

open List ByteCodec LaserEntity Overwrite
open ConfigManager (groupNodes nodeEntries nodeHash readClusterInfo schemaEntries
  updateClusterInfo updateDatabase)

/-- A table of the control plane.  Of each edge node it has the names that the group of the node
is found under. -/
structure TableItem where
  name : Bytes
  status : UInt32
  partitionNumber : UInt32
  ttl : UInt64
  configName : Bytes
  bindEdgeNodes : List (List Bytes × UInt32)
  edgeFlowRatio : UInt32
  dc : Bytes
  distDc : Bytes

structure DatabaseItem where
  name : Bytes
  tables : List TableItem
  distinct : (tables.map TableItem.name).Nodup

structure ShardItem where
  shardId : UInt32
  role : DBRole

structure NodeInfo where
  groupName : Bytes
  nodeId : UInt32
  active : UInt16
  shards : List ShardItem
  isEdgeNode : Bool

/-- The nodes of a group in the order of their numbers, as `UpdateClusterInfo` enters them. -/
structure GroupInfo where
  name : Bytes
  nodes : List NodeInfo
  sorted : nodes.Pairwise fun left right => left.nodeId < right.nodeId
  named : ∀ node ∈ nodes, node.groupName = name

structure ControlPlane where
  databases : List DatabaseItem
  distinct : (databases.map DatabaseItem.name).Nodup
  clusterName : Bytes
  shardTotal : UInt32
  groups : List GroupInfo
  sorted : groups.Pairwise fun left right => left.name < right.name
  groupToDc : Bytes → Option Bytes
  dcs : List DataCenter

namespace ControlPlane

def tableDisabled : UInt32 := 0

def nodeInactive : UInt16 := 0

/-- The engine `rocksdb`. -/
def engineName : Bytes := [114, 111, 99, 107, 115, 100, 98]

def uniqueId (node : List Bytes × UInt32) : Option Bytes :=
  match node.1 with
  | [group] => some (group ++ [35] ++
      (Nat.toDigits 10 node.2.toNat).map fun digit => UInt8.ofNat digit.toNat)
  | _ => none

def tableInfo (table : TableItem) : Json Bytes :=
  .object [("Engine", .string engineName), ("TableName", .string table.name),
    ("PartitionNumber", .ofNat table.partitionNumber.toNat), ("Ttl", .ofNat table.ttl.toNat),
    ("Loaders", .array []),
    ("ConfigName", .string (if table.configName = [] then defaultName else table.configName)),
    ("BindEdgeNodes", .array ((table.bindEdgeNodes.filterMap uniqueId).map .string)),
    ("EdgeFlowRatio", .ofNat table.edgeFlowRatio.toNat), ("Dc", .string table.dc),
    ("DistDc", .string table.distDc)]

def enabledTables (database : DatabaseItem) : List TableItem :=
  database.tables.filter fun table => table.status ≠ tableDisabled

def databaseInfo (database : DatabaseItem) : Json Bytes :=
  .object [("DatabaseName", .string database.name),
    ("Tables", .array ((enabledTables database).map tableInfo))]

def generateDatabaseTableSchemaJson (plane : ControlPlane) : Json Bytes :=
  .array (plane.databases.map databaseInfo)

def shardsOf (node : NodeInfo) (isLeader : Bool) : List UInt32 :=
  (node.shards.filter fun shard => (shard.role = .LEADER) = (isLeader = true)).map ShardItem.shardId

def shardNumbers (shards : List UInt32) : Json Bytes :=
  .array (shards.map fun shard => .ofNat shard.toNat)

def nodeVersionData (node : NodeInfo) : Json Bytes :=
  .object [("LeaderShardList", shardNumbers (shardsOf node true)),
    ("FollowerShardList", shardNumbers (shardsOf node false)),
    ("NodeId", .ofNat node.nodeId.toNat), ("IsEdgeNode", .bool node.isEdgeNode)]

def activeNodes (group : GroupInfo) : List NodeInfo :=
  group.nodes.filter fun node => node.groupName = group.name ∧ node.active ≠ nodeInactive

def groupVersionData (plane : ControlPlane) (group : GroupInfo) : Json Bytes :=
  .object [("GroupName", .string group.name),
    ("Dc", .string ((plane.groupToDc group.name).getD defaultName)),
    ("Nodes", .array ((activeNodes group).map nodeVersionData))]

def dataCenterData (dc : DataCenter) : Json Bytes :=
  .object [("Name", .string dc.name), ("ShardNumber", .ofNat dc.shardNumber.toNat)]

def convertNodeShardsToVersionData (plane : ControlPlane) : Json Bytes :=
  .object [("ClusterName", .string plane.clusterName),
    ("ShardNumber", .ofNat plane.shardTotal.toNat),
    ("Dcs", .array (plane.dcs.map dataCenterData)),
    ("Groups", .array (plane.groups.map plane.groupVersionData))]

def shardNumber (plane : ControlPlane) (name : Bytes) : Option UInt32 :=
  (plane.dcs.find? fun dc => dc.name = name).map DataCenter.shardNumber

end ControlPlane

def readTable (table : TableItem) : LaserEntity.TableSchema where
  databaseName := []
  tableName := table.name
  partitionNumber := (Int64.ofNat table.partitionNumber.toNat).toInt32
  ttl := if table.ttl.toNat < 2 ^ 63 then table.ttl else 0
  configName := if table.configName = [] then defaultName else table.configName
  bindEdgeNodes := table.bindEdgeNodes.filterMap ControlPlane.uniqueId
  edgeFlowRatio := (Int64.ofNat table.edgeFlowRatio.toNat).toInt32
  dc := defaultName
  distDc := defaultName

variable (value : UInt32)

theorem toUInt32_ofNat_toNat : toUInt32 (Int64.ofNat value.toNat) = value := by
  change (UInt64.ofNat value.toNat).toUInt32 = value
  apply UInt32.toNat_inj.mp
  simp

theorem toInt_toInt32_ofNat :
    (Int64.ofNat value.toNat).toInt32.toInt = value.toNat ↔ value.toNat < 2 ^ 31 := by
  have hvalue := value.toNat_lt
  have hint : (Int64.ofNat value.toNat).toInt = value.toNat := Int64.toInt_ofNat_of_lt (by omega)
  rw [Int64.toInt_toInt32, hint, Int.bmod_def]
  omega

theorem asInt_toNat :
    (ofNat value.toNat : Json σ).asInt = some (Int64.ofNat value.toNat) :=
  asInt_ofNat (value.toNat_lt.trans (by decide))

theorem deserialize_tableInfo (table : TableItem) :
    TableSchema.deserialize (ControlPlane.tableInfo table) = some (readTable table) := by
  have hnodes : ((table.bindEdgeNodes.filterMap ControlPlane.uniqueId).map string).mapM
      asString = some (table.bindEdgeNodes.filterMap ControlPlane.uniqueId) := by
    rw [mapM_map_eq_some fun _ _ => asString_string _, map_id']
  have httl : (((ofNat table.ttl.toNat : Json Bytes).asInt).map Int64.toUInt64).getD 0 =
      if table.ttl.toNat < 2 ^ 63 then table.ttl else 0 := by
    split_ifs with hvalue
    · rw [asInt_ofNat hvalue]
      exact UInt64.ofNat_toNat
    · rw [asInt_ofNat_of_le (Nat.not_lt.mp hvalue)]
      rfl
  simp only [ControlPlane.tableInfo, TableSchema.deserialize, isObject_object,
    getPtr_object_cons, getPtr_object_nil, String.reduceEq, if_true, if_false,
    Option.bind_some, Option.bind_none, asString_string, asArray_array, Option.getD_some, hnodes, httl, asInt_toNat,
    Option.map_some, Option.getD_none]
  rfl

def readNode (node : NodeInfo) : NodeShardList where
  nodeId := node.nodeId
  leaderShardList := ControlPlane.shardsOf node true
  followerShardList := ControlPlane.shardsOf node false
  isEdgeNode := node.isEdgeNode

variable (shards : List UInt32)

theorem mapM_asInt_shards :
    (shards.map fun shard => (ofNat shard.toNat : Json Bytes)).mapM asInt =
      some (shards.map fun shard => Int64.ofNat shard.toNat) :=
  mapM_map_eq_some fun shard _ => asInt_toNat shard

theorem map_toUInt32_shards :
    (shards.map fun shard => Int64.ofNat shard.toNat).map toUInt32 = shards := by
  rw [map_map]
  exact (map_congr_left fun shard _ => toUInt32_ofNat_toNat shard).trans (map_id' _)

theorem deserialize_nodeVersionData (node : NodeInfo) :
    NodeShardList.deserialize (ControlPlane.nodeVersionData node) = some (readNode node) := by
  simp [ControlPlane.nodeVersionData, ControlPlane.shardNumbers, NodeShardList.deserialize, readNode,
    asInt_toNat, mapM_asInt_shards, map_toUInt32_shards, toUInt32_ofNat_toNat, -map_map,
    -mapM_map]

def readDatabase (database : DatabaseItem) : DatabaseSchema :=
  ⟨database.name, (ControlPlane.enabledTables database).map readTable⟩

def readGroup (group : GroupInfo) : ClusterGroup :=
  ⟨group.name, defaultName, (ControlPlane.activeNodes group).map readNode⟩

theorem deserialize_databaseInfo (database : DatabaseItem) :
    DatabaseSchema.deserialize (ControlPlane.databaseInfo database) =
      some (readDatabase database) := by
  have htables := @Json.mapM_map_eq_some _ _ _ _ _ _ (ControlPlane.enabledTables database)
    fun table _ => deserialize_tableInfo table
  simp [ControlPlane.databaseInfo, DatabaseSchema.deserialize, readDatabase, htables]

variable (plane : ControlPlane)

theorem deserialize_groupVersionData (group : GroupInfo) :
    ClusterGroup.deserialize (plane.groupVersionData group) = some (readGroup group) := by
  have hnodes := @Json.mapM_map_eq_some _ _ _ _ _ _ (ControlPlane.activeNodes group)
    fun node _ => deserialize_nodeVersionData node
  simp [ControlPlane.groupVersionData, ClusterGroup.deserialize, readGroup, hnodes]

theorem readDatabases_published :
    readDatabases (some plane.generateDatabaseTableSchemaJson) =
      some (plane.databases.map readDatabase) :=
  mapM_map_eq_some fun database _ => deserialize_databaseInfo database

theorem readClusterInfo_published :
    readClusterInfo (some plane.convertNodeShardsToVersionData) =
      some ⟨plane.clusterName, plane.shardTotal, [], plane.groups.map readGroup⟩ := by
  have hgroups := @Json.mapM_map_eq_some _ _ _ _ _ _ plane.groups
    fun group _ => deserialize_groupVersionData plane group
  simp [readClusterInfo, ControlPlane.convertNodeShardsToVersionData,
    ClusterInfo.deserialize, asInt_toNat, toUInt32_ofNat_toNat, hgroups]

namespace ControlPlane

def tableNames (plane : ControlPlane) : Set (Bytes × Bytes) :=
  { names | ∃ database ∈ plane.databases, ∃ table ∈ enabledTables database,
    names = (database.name, table.name) }

def nodeNames (plane : ControlPlane) : Set (Bytes × UInt32) :=
  { names | ∃ group ∈ plane.groups, ∃ node ∈ activeNodes group, names = (group.name, node.nodeId) }

section
variable [CityHash64]

structure Apart (plane : ControlPlane) : Prop where
  tables : plane.tableNames.InjOn fun names => ConfigManager.getTableSchemaHash names.1 names.2
  nodes : plane.nodeNames.InjOn fun names => ConfigManager.getNodeListHash names.1 names.2

def received (plane : ControlPlane) (state : ConfigManager) (groupName : Bytes) (nodeId : UInt32) :
    ConfigManager :=
  (state.updateDatabase (some plane.generateDatabaseTableSchemaJson)).updateClusterInfo
    (some plane.convertNodeShardsToVersionData) groupName nodeId

def TableAgrees (manager : ConfigManager) (database : DatabaseItem) (table : TableItem) : Prop :=
  ∃ schema, manager.getTableSchema database.name table.name = some schema ∧
    schema.partitionNumber.toInt = table.partitionNumber.toNat ∧ schema.ttl = table.ttl ∧
    schema.dc = table.dc ∧ schema.distDc = table.distDc

def NodeAgrees (manager : ConfigManager) (group : GroupInfo) (node : NodeInfo) : Prop :=
  ∃ list, manager.getNodeShardList group.name node.nodeId = some list ∧
    list.leaderShardList = shardsOf node true ∧ list.followerShardList = shardsOf node false

def DcAgrees (plane : ControlPlane) (manager : ConfigManager) (dc : Bytes) : Prop :=
  manager.getShardNumber dc = some (plane.shardNumber dc)

structure Agrees (plane : ControlPlane) (manager : ConfigManager) : Prop where
  tables : ∀ database ∈ plane.databases, ∀ table ∈ enabledTables database,
    TableAgrees manager database table
  dcs : ∀ dc, plane.DcAgrees manager dc
  nodes : ∀ group ∈ plane.groups, ∀ node ∈ activeNodes group, NodeAgrees manager group node

section
variable {plane : ControlPlane} {state : ConfigManager} {groupName : Bytes} {nodeId : UInt32}

theorem tableSchemas_received : (plane.received state groupName nodeId).tableSchemas =
    writeAll (fun _ => none) (schemaEntries (plane.databases.map readDatabase)) := by
  rw [received, updateClusterInfo, readClusterInfo_published]
  dsimp only
  rw [updateDatabase, readDatabases_published]

theorem nodeShardLists_received : (plane.received state groupName nodeId).nodeShardLists =
    writeAll state.nodeShardLists (nodeEntries
      ⟨plane.clusterName, plane.shardTotal, [], plane.groups.map readGroup⟩) := by
  rw [received, updateClusterInfo, readClusterInfo_published]
  dsimp only
  rw [updateDatabase, readDatabases_published]

theorem mem_schemaEntries {entry : UInt64 × LaserEntity.TableSchema} :
    entry ∈ schemaEntries (plane.databases.map readDatabase) ↔
      ∃ database ∈ plane.databases, ∃ table ∈ enabledTables database,
        entry = (getTableSchemaHash database.name table.name,
          { readTable table with databaseName := database.name }) := by
  simp [schemaEntries, readDatabase, eq_comm, readTable]

theorem mem_nodeEntries {entry : UInt64 × NodeShardList} :
    entry ∈ nodeEntries
        ⟨plane.clusterName, plane.shardTotal, [], plane.groups.map readGroup⟩ ↔
      ∃ group ∈ plane.groups, ∃ node ∈ activeNodes group,
        entry = (getNodeListHash group.name node.nodeId, readNode node) := by
  simp [nodeEntries, groupNodes, nodeHash, readGroup, eq_comm, readNode, and_assoc]

theorem getTableSchema_received (hapart : plane.Apart) {database : DatabaseItem} {table : TableItem}
    (hdatabase : database ∈ plane.databases) (htable : table ∈ enabledTables database) :
    (plane.received state groupName nodeId).getTableSchema database.name table.name =
      some { readTable table with databaseName := database.name } := by
  rw [getTableSchema, tableSchemas_received]
  refine writeAll_of_entry (mem_schemaEntries.mpr ⟨database, hdatabase, table, htable, rfl⟩) ?_
  intro other hother
  obtain ⟨database', hdatabase', table', htable', hentry⟩ := mem_schemaEntries.mp hother
  obtain ⟨hhash, rfl⟩ := Prod.mk.inj hentry
  have hnames := hapart.tables ⟨database, hdatabase, table, htable, rfl⟩
    ⟨database', hdatabase', table', htable', rfl⟩ hhash
  obtain ⟨hname, htname⟩ := Prod.mk.inj hnames
  have hsame := inj_on_of_nodup_map plane.distinct hdatabase hdatabase' hname
  subst hsame
  rw [inj_on_of_nodup_map database.distinct (mem_of_mem_filter htable)
    (mem_of_mem_filter htable') htname]

theorem getNodeShardList_received (hapart : plane.Apart) {group : GroupInfo} {node : NodeInfo}
    (hgroup : group ∈ plane.groups) (hnode : node ∈ activeNodes group) :
    (plane.received state groupName nodeId).getNodeShardList group.name node.nodeId =
      some (readNode node) := by
  rw [getNodeShardList, nodeShardLists_received]
  refine writeAll_of_entry (mem_nodeEntries.mpr ⟨group, hgroup, node, hnode, rfl⟩) ?_
  intro other hother
  obtain ⟨group', hgroup', node', hnode', hentry⟩ := mem_nodeEntries.mp hother
  obtain ⟨hhash, rfl⟩ := Prod.mk.inj hentry
  have hnames := hapart.nodes ⟨group, hgroup, node, hnode, rfl⟩
    ⟨group', hgroup', node', hnode', rfl⟩ hhash
  obtain ⟨hname, hid⟩ := Prod.mk.inj hnames
  have hgroups : (plane.groups.map GroupInfo.name).Nodup :=
    pairwise_map.mpr (plane.sorted.imp ne_of_lt)
  have hsame := inj_on_of_nodup_map hgroups hgroup hgroup' hname
  subst hsame
  have hids : (group.nodes.map NodeInfo.nodeId).Nodup :=
    pairwise_map.mpr (group.sorted.imp UInt32.ne_of_lt)
  rw [inj_on_of_nodup_map hids (mem_of_mem_filter hnode) (mem_of_mem_filter hnode') hid]

structure Readable (table : TableItem) : Prop where
  partitionNumber : table.partitionNumber.toNat < 2 ^ 31
  ttl : table.ttl.toNat < 2 ^ 63
  dc : table.dc = defaultName
  distDc : table.distDc = defaultName

theorem tableAgrees_iff (hapart : plane.Apart) {database : DatabaseItem} {table : TableItem}
    (hdatabase : database ∈ plane.databases) (htable : table ∈ enabledTables database) :
    TableAgrees (plane.received state groupName nodeId) database table ↔ Readable table := by
  have hschema := @getTableSchema_received _ plane state groupName nodeId hapart _ _ hdatabase htable
  constructor
  · rintro ⟨schema, hread, hpartitions, httl, hdc, hdistDc⟩
    cases hschema.symm.trans hread
    refine ⟨(toInt_toInt32_ofNat _).mp hpartitions, ?_, hdc.symm, hdistDc.symm⟩
    by_contra hlarge
    have hzero : (0 : UInt64) = table.ttl := (if_neg hlarge).symm.trans httl
    rw [← hzero] at hlarge
    exact hlarge (by decide)
  · rintro ⟨hpartitions, httl, hdc, hdistDc⟩
    exact ⟨_, hschema, (toInt_toInt32_ofNat _).mpr hpartitions, if_pos httl, hdc.symm, hdistDc.symm⟩

theorem dcs_received : (plane.received state groupName nodeId).dcs = state.dcs := by
  rw [received, updateClusterInfo, readClusterInfo_published]
  dsimp only
  rw [updateDatabase, readDatabases_published]
  rfl

end

/-- The server has a table as it is published exactly if its data centres are the default ones and
its numbers are read as they are; it always has the published shards of a node, and never the shard
number of a data centre: none is stored, and none is returned. -/
theorem agrees_iff (plane : ControlPlane) (state : ConfigManager) (groupName : Bytes)
    (nodeId : UInt32) (hapart : plane.Apart) :
    (∀ database ∈ plane.databases, ∀ table ∈ enabledTables database,
      TableAgrees (plane.received state groupName nodeId) database table ↔ Readable table) ∧
    (∀ group ∈ plane.groups, ∀ node ∈ activeNodes group,
      NodeAgrees (plane.received state groupName nodeId) group node) ∧
    (plane.received state groupName nodeId).dcs = state.dcs ∧
    ∀ dc, ¬plane.DcAgrees (plane.received state groupName nodeId) dc := by
  refine ⟨fun database hdatabase table htable => tableAgrees_iff hapart hdatabase htable,
    fun group hgroup node hnode => ?_, dcs_received, fun dc hagrees => ?_⟩
  · exact ⟨readNode node, getNodeShardList_received hapart hgroup hnode, rfl, rfl⟩
  · cases hagrees

end

section
local instance planeHash : CityHash64 := PartitionManager.referenceHash

def onePlane (dc : Bytes) : ControlPlane where
  databases := [⟨[100], [⟨[116], 1, 4, 60, [], [], 0, dc, defaultName⟩], nodup_singleton _⟩]
  distinct := nodup_singleton _
  clusterName := [99]
  shardTotal := 4
  groups := [⟨[103], [⟨[103], 1, 1, [⟨0, .LEADER⟩, ⟨1, .FOLLOWER⟩], false⟩],
    pairwise_singleton _ _, by simp⟩]
  sorted := pairwise_singleton _ _
  groupToDc _ := none
  dcs := [⟨dc, 4⟩]

theorem onePlane_apart (dc : Bytes) : (onePlane dc).Apart := by
  constructor
  · rintro names ⟨database, hdatabase, table, htable, rfl⟩ names' ⟨database', hdatabase', table',
      htable', rfl⟩ -
    cases mem_singleton.mp hdatabase
    cases mem_singleton.mp hdatabase'
    cases mem_singleton.mp htable
    cases mem_singleton.mp htable'
    rfl
  · rintro names ⟨group, hgroup, node, hnode, rfl⟩ names' ⟨group', hgroup', node', hnode', rfl⟩ -
    cases mem_singleton.mp hgroup
    cases mem_singleton.mp hgroup'
    cases mem_singleton.mp hnode
    cases mem_singleton.mp hnode'
    rfl

theorem agrees_iff_default :
    (∀ database ∈ (onePlane defaultName).databases, ∀ table ∈ enabledTables database,
      TableAgrees ((onePlane defaultName).received (.start false fun _ => none) [103] 1)
        database table) ∧
    ∀ group ∈ (onePlane defaultName).groups, ∀ node ∈ activeNodes group,
      NodeAgrees ((onePlane defaultName).received (.start false fun _ => none) [103] 1)
        group node := by
  obtain ⟨htables, hnodes, -⟩ := agrees_iff (onePlane defaultName) (.start false fun _ => none)
    [103] 1 (onePlane_apart _)
  refine ⟨fun database hdatabase table htable => ?_, hnodes⟩
  refine (htables database hdatabase table htable).mpr ?_
  cases mem_singleton.mp hdatabase
  cases mem_singleton.mp htable
  exact ⟨by decide, by decide, rfl, rfl⟩

/-- The server takes a table of the data centre `bj` for one of the default data centre; and where
this makes no difference, it still does not find the number of shards. -/
theorem agrees_fails :
    (onePlane [98, 106]).Apart ∧
    (((onePlane [98, 106]).received (.start false fun _ => none) [103] 1).getTableSchema
      [100] [116]).map LaserEntity.TableSchema.dc = some defaultName ∧
    ∀ dc, ¬(onePlane dc).Agrees ((onePlane dc).received (.start false fun _ => none) [103] 1) := by
  have hschema := @getTableSchema_received _ (onePlane [98, 106]) (.start false fun _ => none) [103]
    1 (onePlane_apart _) _ _ (mem_singleton_self _) (mem_singleton_self _)
  refine ⟨onePlane_apart _, ?_, fun dc hagrees => ?_⟩
  · exact congrArg (Option.map LaserEntity.TableSchema.dc) hschema
  · exact nomatch hagrees.dcs dc

end

end ControlPlane

end LaserDB
