import LaserDB.Cluster.PartitionManager
import LaserDB.Library.Json

/-!
# Reading the configuration

The entities of `common/laser/laser_entity.cc` as they are read from a parsed document.
-/

namespace LaserDB.LaserEntity

open Json (asArray asInt asString)
open ByteCodec Json

/-- The name `default`. -/
def defaultName : Bytes := [100, 101, 102, 97, 117, 108, 116]

structure TableSchema where
  databaseName : Bytes
  tableName : Bytes
  partitionNumber : Int32
  ttl : UInt64
  configName : Bytes
  bindEdgeNodes : List Bytes
  edgeFlowRatio : Int32
  dc : Bytes
  distDc : Bytes
  deriving DecidableEq

structure DatabaseSchema where
  databaseName : Bytes
  tables : List TableSchema

structure DataCenter where
  name : Bytes
  shardNumber : UInt32
  deriving DecidableEq

structure ClusterGroup where
  groupName : Bytes
  dc : Bytes
  nodes : List NodeShardList

structure ClusterInfo where
  clusterName : Bytes
  shardNumber : UInt32
  dcs : List DataCenter
  groups : List ClusterGroup

/-- The conversion to `uint32_t`. -/
def toUInt32 (value : Int64) : UInt32 := value.toUInt64.toUInt32

def TableSchema.deserialize (data : Json Bytes) : Option TableSchema := do
  guard data.isObject
  let databaseName := ((data.getPtr "DatabaseName").bind asString).getD []
  let tableName ← (data.getPtr "TableName").bind asString
  let partitionNumber ← (data.getPtr "PartitionNumber").bind asInt
  let ttl := (((data.getPtr "Ttl").bind asInt).map Int64.toUInt64).getD 0
  let configName := ((data.getPtr "ConfigName").bind asString).getD []
  let bindEdgeNodes ← (((data.getPtr "BindEdgeNodes").bind asArray).getD []).mapM asString
  let edgeFlowRatio := (((data.getPtr "EdgeFlowRatio").bind asInt).map Int64.toInt32).getD 0
  return {
    databaseName := databaseName
    tableName := tableName
    partitionNumber := partitionNumber.toInt32
    ttl := ttl
    configName := configName
    bindEdgeNodes := bindEdgeNodes
    edgeFlowRatio := edgeFlowRatio
    dc := defaultName
    distDc := defaultName }

def DatabaseSchema.deserialize (data : Json Bytes) : Option DatabaseSchema := do
  guard data.isObject
  let databaseName ← (data.getPtr "DatabaseName").bind asString
  let tables ← (data.getPtr "Tables").bind asArray
  let tables ← tables.mapM TableSchema.deserialize
  return ⟨databaseName, tables⟩

def NodeShardList.deserialize (data : Json Bytes) : Option NodeShardList := do
  guard data.isObject
  let nodeId ← (data.getPtr "NodeId").bind asInt
  let leaderShardList ← (data.getPtr "LeaderShardList").bind asArray
  let leaderShardList ← leaderShardList.mapM asInt
  let followerShardList ← (data.getPtr "FollowerShardList").bind asArray
  let followerShardList ← followerShardList.mapM asInt
  let isEdgeNode := ((data.getPtr "IsEdgeNode").bind asBool).getD false
  return {
    nodeId := toUInt32 nodeId
    leaderShardList := leaderShardList.map toUInt32
    followerShardList := followerShardList.map toUInt32
    isEdgeNode := isEdgeNode }

def ClusterGroup.deserialize (data : Json Bytes) : Option ClusterGroup := do
  guard data.isObject
  let groupName ← (data.getPtr "GroupName").bind asString
  let nodes ← (data.getPtr "Nodes").bind asArray
  let nodes ← nodes.mapM NodeShardList.deserialize
  return ⟨groupName, defaultName, nodes⟩

def ClusterInfo.deserialize (data : Json Bytes) : Option ClusterInfo := do
  guard data.isObject
  let clusterName ← (data.getPtr "ClusterName").bind asString
  let shardNumber ← (data.getPtr "ShardNumber").bind asInt
  let groups ← (data.getPtr "Groups").bind asArray
  let groups ← groups.mapM ClusterGroup.deserialize
  return ⟨clusterName, toUInt32 shardNumber, [], groups⟩

theorem ClusterInfo.dcs_of_deserialize {data : Json Bytes} {info : ClusterInfo}
    (hinfo : ClusterInfo.deserialize data = some info) : info.dcs = [] := by
  simp only [ClusterInfo.deserialize, Option.bind_eq_bind, Option.bind_eq_some_iff] at hinfo
  obtain ⟨-, -, clusterName, -, shardNumber, -, groups, -, read, -, hinfo⟩ := hinfo
  cases hinfo
  rfl

end LaserDB.LaserEntity
