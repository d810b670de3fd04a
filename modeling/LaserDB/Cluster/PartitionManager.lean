import LaserDB.Ingest.PartitionId
import LaserDB.Library.KeyedSet

/-!
# The partitions of a node

`PartitionManager::updateShardList` of `common/laser/partition.cc` tells its subscriber how the
partitions of this node change.
-/

namespace LaserDB

open ByteCodec List KeyedSet

structure TableSchema where
  databaseName : Bytes
  tableName : Bytes
  partitionNumber : Nat
  partitionNumber_lt : partitionNumber < 2 ^ 31
  bindEdgeNodes : List Bytes
  dc : Bytes
  distDc : Bytes
  deriving DecidableEq

structure NodeShardList where
  nodeId : UInt32
  leaderShardList : List UInt32
  followerShardList : List UInt32
  isEdgeNode : Bool
  deriving DecidableEq

structure Partition where
  databaseName : Bytes
  tableName : Bytes
  partitionId : Nat
  srcShardId : UInt32
  shardId : UInt32
  role : DBRole
  dc : Bytes
  deriving DecidableEq

/-- `CityHash64WithSeed` of the library that the server is linked with: any function. -/
class CityHash64 where
  withSeed : Bytes → UInt64 → UInt64

section
variable [CityHash64]

def partitionHash (databaseName tableName : Bytes) (partitionId : Nat) : Int64 :=
  (CityHash64.withSeed tableName
    (CityHash64.withSeed databaseName (UInt64.ofNat partitionId))).toInt64

def Partition.getPartitionHash (partition : Partition) : Int64 :=
  partitionHash partition.databaseName partition.tableName partition.partitionId

abbrev PartitionPtrSet := KeyedSet Partition.getPartitionHash

def shardOf (hash : Int64) (shardNumber : UInt32) : UInt32 :=
  (longAbs hash % shardNumber.toUInt64.toInt64).toUInt64.toUInt32

/-- What a call meets: the shards of the node, the tables in the order of their map, which has
one entry for a name, and the shard numbers of the data centres. -/
structure ShardUpdate where
  list : NodeShardList
  tables : List TableSchema
  named : (tables.map fun table => (table.databaseName, table.tableName)).Nodup
  shardNumber : Bytes → Option UInt32

structure PartitionManager where
  groupName : Bytes
  nodeId : UInt32
  nodeDc : Bytes

namespace PartitionManager

variable (manager : PartitionManager) (update : ShardUpdate) (table : TableSchema)

def getShardId (hash : Int64) (shardNumber : Option UInt32) : Option UInt32 :=
  match shardNumber with
  | none => none
  | some shardNumber => if shardNumber = 0 then none else some (shardOf hash shardNumber)

/-- The group and the node as the tables name them, `group#node`. -/
def groupNodeId : Bytes :=
  manager.groupName ++ [35] ++
    (Nat.toDigits 10 manager.nodeId.toNat).map fun digit => UInt8.ofNat digit.toNat

def newPartition (update : ShardUpdate) (table : TableSchema) (partitionId : Nat) :
    Option Partition :=
  let isMigrate := manager.nodeDc = table.distDc ∧ manager.nodeDc ≠ table.dc
  let hash := partitionHash table.databaseName table.tableName partitionId
  match getShardId hash (update.shardNumber table.dc) with
  | none => none
  | some srcShardId =>
    match (if isMigrate then getShardId hash (update.shardNumber table.distDc)
      else some srcShardId) with
    | none => none
    | some shardId =>
      let isLeader := shardId ∈ update.list.leaderShardList
      let isFollower := shardId ∈ update.list.followerShardList
      let role := if isLeader ∧ isMigrate then DBRole.FOLLOWER else .LEADER
      let role := if isFollower then .FOLLOWER else role
      if isLeader ∨ isFollower then
        some ⟨table.databaseName, table.tableName, partitionId, srcShardId, shardId, role, table.dc⟩
      else none

def tablePartitions (update : ShardUpdate) (table : TableSchema) : List Partition :=
  if manager.nodeDc ≠ table.dc ∧ manager.nodeDc ≠ table.distDc then []
  else if update.list.isEdgeNode ∧ manager.groupNodeId ∉ table.bindEdgeNodes then []
  else (range table.partitionNumber).filterMap (manager.newPartition update table)

def newPartitions (update : ShardUpdate) : PartitionPtrSet :=
  empty.insertAll (update.tables.flatMap (manager.tablePartitions update))

structure Notification where
  mount : PartitionPtrSet
  unmount : PartitionPtrSet

def changed (partitions : PartitionPtrSet) (partition : Partition) : Bool :=
  match partitions.get partition.getPartitionHash with
  | none => false
  | some old => old.role ≠ partition.role ∨ old.dc ≠ partition.dc

def notification (partitions newPartitions : PartitionPtrSet) : Notification where
  mount := (newPartitions.difference partitions).insertAll
    (newPartitions.items.filter (changed partitions))
  unmount := partitions.difference newPartitions

def updateShardList (partitions : PartitionPtrSet) (update : ShardUpdate) :
    PartitionPtrSet × Notification :=
  (manager.newPartitions update, notification partitions (manager.newPartitions update))

/-- The subscriber removes what is unmounted and inserts or replaces what is mounted. -/
def subscriberStep (held : PartitionPtrSet) (told : Notification) : PartitionPtrSet :=
  (held.difference told.unmount).replaceAll told.mount

def step (state : PartitionPtrSet × PartitionPtrSet) (update : ShardUpdate) :
    PartitionPtrSet × PartitionPtrSet :=
  let result := manager.updateShardList state.1 update
  (result.1, subscriberStep state.2 result.2)

def run (updates : List ShardUpdate) : PartitionPtrSet × PartitionPtrSet :=
  updates.foldl manager.step (empty, empty)

end PartitionManager

/-- What the configuration gives to a node: a partition of a table of its data centre, or of one
that moves there, whose shard in that data centre is among the shards of the node.  It is a
leader only if the table is at home in the data centre and the shard is not also followed. -/
structure Assigned (manager : PartitionManager) (update : ShardUpdate) (table : TableSchema)
    (partition : Partition) : Prop where
  listed : table ∈ update.tables
  near : manager.nodeDc = table.dc ∨ manager.nodeDc = table.distDc
  bound : update.list.isEdgeNode = true → manager.groupNodeId ∈ table.bindEdgeNodes
  databaseName : partition.databaseName = table.databaseName
  tableName : partition.tableName = table.tableName
  partitionId : partition.partitionId < table.partitionNumber
  dc : partition.dc = table.dc
  source : ∃ shardNumber ≠ 0, update.shardNumber table.dc = some shardNumber ∧
    partition.srcShardId = shardOf partition.getPartitionHash shardNumber
  shard : ∃ shardNumber ≠ 0, update.shardNumber manager.nodeDc = some shardNumber ∧
    partition.shardId = shardOf partition.getPartitionHash shardNumber
  hosted : partition.shardId ∈ update.list.leaderShardList ∨
    partition.shardId ∈ update.list.followerShardList
  role : partition.role = if manager.nodeDc = table.dc ∧
      partition.shardId ∉ update.list.followerShardList then .LEADER else .FOLLOWER

variable (manager : PartitionManager)

namespace PartitionManager

omit [CityHash64] in
theorem getShardId_eq_some_iff {hash : Int64} {shardNumber : Option UInt32} {shardId : UInt32} :
    getShardId hash shardNumber = some shardId ↔
      ∃ count ≠ 0, shardNumber = some count ∧ shardId = shardOf hash count := by
  cases shardNumber with
  | none => simp [getShardId]
  | some count =>
    simp only [getShardId, Option.some.injEq]
    by_cases hzero : count = 0
    · simp [hzero]
    · simp only [hzero, if_false, Option.some.injEq]
      constructor
      · rintro rfl
        exact ⟨count, hzero, rfl, rfl⟩
      · rintro ⟨_, -, rfl, rfl⟩
        rfl

variable {manager : PartitionManager} {update : ShardUpdate}

section
variable {table : TableSchema} {partition : Partition}

structure Placed (manager : PartitionManager) (update : ShardUpdate) (table : TableSchema)
    (partitionId : Nat) (srcShardId shardId : UInt32) : Prop where
  source : getShardId (partitionHash table.databaseName table.tableName partitionId)
    (update.shardNumber table.dc) = some srcShardId
  shard : getShardId (partitionHash table.databaseName table.tableName partitionId)
    (update.shardNumber manager.nodeDc) = some shardId
  hosted : shardId ∈ update.list.leaderShardList ∨ shardId ∈ update.list.followerShardList

def roleOf (manager : PartitionManager) (update : ShardUpdate) (table : TableSchema)
    (shardId : UInt32) : DBRole :=
  if manager.nodeDc = table.dc ∧ shardId ∉ update.list.followerShardList then .LEADER
  else .FOLLOWER

abbrev Yields (manager : PartitionManager) (update : ShardUpdate) (table : TableSchema)
    (partitionId : Nat) (partition : Partition) : Prop :=
  ∃ srcShardId shardId, Placed manager update table partitionId srcShardId shardId ∧
    partition = ⟨table.databaseName, table.tableName, partitionId, srcShardId, shardId,
      roleOf manager update table shardId, table.dc⟩

theorem newPartition_eq_some_iff
    (hnear : manager.nodeDc = table.dc ∨ manager.nodeDc = table.distDc) {partitionId : Nat} :
    manager.newPartition update table partitionId = some partition ↔
      Yields manager update table partitionId partition := by
  have hplaced {src shard : UInt32} (hrole : DBRole)
      (hrule : shard ∈ update.list.leaderShardList ∨ shard ∈ update.list.followerShardList →
        hrole = roleOf manager update table shard)
      (hsource : getShardId (partitionHash table.databaseName table.tableName partitionId)
        (update.shardNumber table.dc) = some src)
      (hshard : getShardId (partitionHash table.databaseName table.tableName partitionId)
        (update.shardNumber manager.nodeDc) = some shard) :
      (if shard ∈ update.list.leaderShardList ∨ shard ∈ update.list.followerShardList then
          some (Partition.mk table.databaseName table.tableName partitionId src shard hrole table.dc)
        else none) = some partition ↔
      Yields manager update table partitionId partition := by
    rw [Option.ite_none_right_eq_some, Option.some.injEq]
    constructor
    · rintro ⟨hhosted, rfl⟩
      exact ⟨src, shard, ⟨hsource, hshard, hhosted⟩, by rw [hrule hhosted]⟩
    · rintro ⟨src', shard', hplaced, rfl⟩
      obtain rfl := Option.some.inj (hsource.symm.trans hplaced.source)
      obtain rfl := Option.some.inj (hshard.symm.trans hplaced.shard)
      exact ⟨hplaced.hosted, by rw [hrule hplaced.hosted]⟩
  unfold newPartition
  cases hsource : getShardId (partitionHash table.databaseName table.tableName partitionId)
      (update.shardNumber table.dc) with
  | none =>
    simp only [hsource]
    refine iff_of_false nofun ?_
    rintro ⟨src, shard, hplaced, -⟩
    cases hsource.symm.trans hplaced.source
  | some src =>
    by_cases hhome : manager.nodeDc = table.dc
    · have hstay : ¬(manager.nodeDc = table.distDc ∧ manager.nodeDc ≠ table.dc) :=
        fun hmigrate => hmigrate.2 hhome
      simp only [hsource, hstay, and_false, if_false]
      refine hplaced _ (fun hhosted => ?_) hsource (hhome ▸ hsource)
      simp [roleOf, hhome]
    · have hdist : manager.nodeDc = table.distDc := hnear.resolve_left hhome
      have haway : table.distDc ≠ table.dc := hdist ▸ hhome
      simp only [hsource, if_pos (And.intro hdist hhome)]
      cases hshard : getShardId (partitionHash table.databaseName table.tableName partitionId)
          (update.shardNumber table.distDc) with
      | none =>
        refine iff_of_false nofun ?_
        rintro ⟨src', shard, hplaced, -⟩
        cases hshard.symm.trans (hdist ▸ hplaced.shard)
      | some shard =>
        refine hplaced _ (fun hhosted => ?_) hsource (hdist ▸ hshard)
        rcases hhosted with hleader | hfollower
        · simp [roleOf, hleader, hdist, haway]
        · simp [roleOf, hhome, hfollower]

theorem assigned_iff :
    Assigned manager update table partition ↔
      table ∈ update.tables ∧ (manager.nodeDc = table.dc ∨ manager.nodeDc = table.distDc) ∧
        (update.list.isEdgeNode = true → manager.groupNodeId ∈ table.bindEdgeNodes) ∧
        ∃ partitionId < table.partitionNumber,
          Yields manager update table partitionId partition := by
  constructor
  · intro hassigned
    have hhash : partition.getPartitionHash = partitionHash table.databaseName table.tableName
        partition.partitionId := by
      rw [Partition.getPartitionHash, hassigned.databaseName, hassigned.tableName]
    refine ⟨hassigned.listed, hassigned.near, hassigned.bound, partition.partitionId,
      hassigned.partitionId, partition.srcShardId, partition.shardId,
      ⟨getShardId_eq_some_iff.mpr (hhash ▸ hassigned.source),
        getShardId_eq_some_iff.mpr (hhash ▸ hassigned.shard), hassigned.hosted⟩, ?_⟩
    obtain ⟨databaseName, tableName, partitionId, srcShardId, shardId, role, dc⟩ := partition
    have hdatabase : databaseName = table.databaseName := hassigned.databaseName
    have htable : tableName = table.tableName := hassigned.tableName
    have hdc : dc = table.dc := hassigned.dc
    have hrole : role = roleOf manager update table shardId := hassigned.role
    rw [hdatabase, htable, hdc, hrole]
  · rintro ⟨hlisted, hnear, hbound, partitionId, hid, src, shard, hplaced, rfl⟩
    exact ⟨hlisted, hnear, hbound, rfl, rfl, hid, rfl, getShardId_eq_some_iff.mp hplaced.source,
      getShardId_eq_some_iff.mp hplaced.shard, hplaced.hosted, rfl⟩

theorem mem_tablePartitions_iff (hlisted : table ∈ update.tables) :
    partition ∈ manager.tablePartitions update table ↔ Assigned manager update table partition := by
  rw [assigned_iff, tablePartitions]
  by_cases hnear : manager.nodeDc = table.dc ∨ manager.nodeDc = table.distDc
  swap
  · rw [if_pos (not_or.mp hnear)]
    exact iff_of_false not_mem_nil fun hassigned => hnear hassigned.2.1
  rw [if_neg (fun hfar => hnear.elim hfar.1 hfar.2)]
  by_cases hbound : update.list.isEdgeNode = true → manager.groupNodeId ∈ table.bindEdgeNodes
  swap
  · rw [if_pos (Classical.not_imp.mp hbound)]
    exact iff_of_false not_mem_nil fun hassigned => hbound hassigned.2.2.1
  rw [if_neg (fun hedge => hedge.2 (hbound hedge.1)), mem_filterMap]
  simp only [mem_range, newPartition_eq_some_iff hnear]
  exact ⟨fun hexists => ⟨hlisted, hnear, hbound, hexists⟩, fun hassigned => hassigned.2.2.2⟩

theorem assigned_unique {table' : TableSchema} {other : Partition}
    (hassigned : Assigned manager update table partition)
    (hother : Assigned manager update table' other)
    (hdatabase : partition.databaseName = other.databaseName)
    (htable : partition.tableName = other.tableName)
    (hid : partition.partitionId = other.partitionId) : partition = other := by
  have hsame : table = table' := by
    refine inj_on_of_nodup_map update.named hassigned.listed hother.listed ?_
    rw [Prod.mk.injEq, ← hassigned.databaseName, ← hassigned.tableName, ← hother.databaseName,
      ← hother.tableName]
    exact ⟨hdatabase, htable⟩
  subst hsame
  obtain ⟨-, -, -, id, -, src, shard, hplaced, rfl⟩ := assigned_iff.mp hassigned
  obtain ⟨-, -, -, id', -, src', shard', hplaced', rfl⟩ := assigned_iff.mp hother
  obtain rfl : id = id' := hid
  obtain rfl := Option.some.inj (hplaced.source.symm.trans hplaced'.source)
  obtain rfl := Option.some.inj (hplaced.shard.symm.trans hplaced'.shard)
  rfl

end

def IsAssigned (manager : PartitionManager) (update : ShardUpdate) (partition : Partition) : Prop :=
  ∃ table, Assigned manager update table partition

/-- Partitions of different names that two configurations give to the node have different
hashes. -/
def HashesDiffer (manager : PartitionManager) (update other : ShardUpdate) : Prop :=
  ∀ left right, IsAssigned manager update left → IsAssigned manager other right →
    left.getPartitionHash = right.getPartitionHash → left.databaseName = right.databaseName ∧
      left.tableName = right.tableName ∧ left.partitionId = right.partitionId

variable {partition : Partition}

theorem mem_newPartitions_iff (hdiffer : HashesDiffer manager update update) :
    partition ∈ (manager.newPartitions update).items ↔ IsAssigned manager update partition := by
  have hmem (partition : Partition) :
      partition ∈ update.tables.flatMap (manager.tablePartitions update) ↔
        IsAssigned manager update partition := by
    rw [mem_flatMap, IsAssigned]
    constructor
    · rintro ⟨table, hlisted, hpartition⟩
      exact ⟨table, (mem_tablePartitions_iff hlisted).mp hpartition⟩
    · rintro ⟨table, hassigned⟩
      exact ⟨table, hassigned.listed, (mem_tablePartitions_iff hassigned.listed).mpr hassigned⟩
  rw [KeyedSet.mem_iff_get, newPartitions, KeyedSet.get_insertAll, KeyedSet.get_empty,
    Option.none_or]
  constructor
  · exact fun hfind => (hmem partition).mp (mem_of_find?_eq_some hfind)
  · intro hassigned
    cases hfind : (update.tables.flatMap (manager.tablePartitions update)).find?
        fun item => item.getPartitionHash = partition.getPartitionHash with
    | none =>
      have hnone := find?_eq_none.mp hfind partition ((hmem partition).mpr hassigned)
      exact absurd (decide_eq_true rfl) hnone
    | some found =>
      have hhash : found.getPartitionHash = partition.getPartitionHash := by
        simpa using find?_some hfind
      have hfound := (hmem found).mp (mem_of_find?_eq_some hfind)
      obtain ⟨hdatabase, htable, hid⟩ := hdiffer found partition hfound hassigned hhash
      obtain ⟨_, hfound⟩ := hfound
      obtain ⟨_, hassigned⟩ := hassigned
      rw [assigned_unique hfound hassigned hdatabase htable hid]

variable (partitions new : PartitionPtrSet)

theorem get_mount (hash : Int64) :
    (notification partitions new).mount.get hash =
      match new.get hash, partitions.get hash with
      | none, _ => none
      | some partition, none => some partition
      | some partition, some old =>
        if old.role ≠ partition.role ∨ old.dc ≠ partition.dc then some partition else none := by
  have hchanged : ((new.items.filter (changed partitions)).find?
      fun item => item.getPartitionHash = hash) = (new.get hash).filter (changed partitions) :=
    get_filter new (changed partitions) hash
  rw [notification, get_insertAll, get_difference, hchanged]
  cases hnew : new.get hash with
  | none => simp
  | some partition =>
    rw [Option.filter_some, changed, key_of_get hnew]
    cases partitions.get hash <;> simp

theorem get_unmount (hash : Int64) :
    (notification partitions new).unmount.get hash =
      if new.get hash = none then partitions.get hash else none :=
  get_difference partitions new hash

theorem get_subscriberStep {held partitions new : PartitionPtrSet}
    (hheld : ∀ hash, held.get hash = partitions.get hash) (hash : Int64) :
    (subscriberStep held (notification partitions new)).get hash =
      match new.get hash, partitions.get hash with
      | none, _ => none
      | some partition, none => some partition
      | some partition, some old =>
        if old.role ≠ partition.role ∨ old.dc ≠ partition.dc then some partition
        else some old := by
  rw [subscriberStep, get_replaceAll, get_difference, get_mount, get_unmount, hheld]
  cases new.get hash with
  | none => cases partitions.get hash <;> simp
  | some partition =>
    cases partitions.get hash with
    | none => simp
    | some old =>
      by_cases hdiffers : old.role ≠ partition.role ∨ old.dc ≠ partition.dc
      · simp [hdiffers]
      · simp [hdiffers]

/-- From one configuration to the next, a partition that keeps its role and its data centre keeps
its shards. -/
def Steady (manager : PartitionManager) (old new : ShardUpdate) : Prop :=
  ∀ left right, IsAssigned manager old left → IsAssigned manager new right →
    left.getPartitionHash = right.getPartitionHash → left.role = right.role →
      left.dc = right.dc → left.shardId = right.shardId ∧ left.srcShardId = right.srcShardId

def InStep (manager : PartitionManager) (update : ShardUpdate) (held : PartitionPtrSet) : Prop :=
  ∀ partition, partition ∈ held.items ↔ IsAssigned manager update partition

variable {held : PartitionPtrSet}

theorem inStep_iff_get (hdiffer : HashesDiffer manager update update) :
    InStep manager update held ↔
      ∀ hash, held.get hash = (manager.newPartitions update).get hash := by
  rw [get_eq_iff, InStep]
  exact forall_congr' fun partition => by rw [mem_newPartitions_iff hdiffer]

theorem inStep_step_iff {old new : ShardUpdate} (hold : HashesDiffer manager old old)
    (hnew : HashesDiffer manager new new) (hboth : HashesDiffer manager old new)
    (hheld : InStep manager old held) :
    InStep manager new
        (subscriberStep held (notification (manager.newPartitions old)
          (manager.newPartitions new))) ↔
      Steady manager old new := by
  rw [inStep_iff_get hold] at hheld
  rw [inStep_iff_get hnew]
  simp only [get_subscriberStep hheld]
  constructor
  · intro hget left right hleft hright hhash hrole hdc
    have hleftGet := KeyedSet.get_of_mem ((mem_newPartitions_iff hold).mpr hleft)
    have hrightGet := KeyedSet.get_of_mem ((mem_newPartitions_iff hnew).mpr hright)
    have hplace := hget right.getPartitionHash
    rw [hrightGet, ← hhash, hleftGet] at hplace
    simp only [hrole, hdc, ne_eq, not_true_eq_false, or_self, if_false, Option.some.injEq] at hplace
    rw [hplace]
    exact ⟨rfl, rfl⟩
  · intro hsteady hash
    cases hright : (manager.newPartitions new).get hash with
    | none => rfl
    | some right =>
      cases hleft : (manager.newPartitions old).get hash with
      | none => rfl
      | some left =>
        dsimp only
        split
        · rfl
        · rename_i hsame
          push Not at hsame
          have hleftPlace := KeyedSet.key_of_get hleft
          have hleftMem := (mem_newPartitions_iff hold).mp (KeyedSet.mem_of_get hleft)
          have hrightMem := (mem_newPartitions_iff hnew).mp (KeyedSet.mem_of_get hright)
          have hhash := hleftPlace.trans (KeyedSet.key_of_get hright).symm
          obtain ⟨hdatabase, htable, hid⟩ := hboth left right hleftMem hrightMem hhash
          obtain ⟨hshard, hsource⟩ := hsteady left right hleftMem hrightMem hhash hsame.1 hsame.2
          cases left
          cases right
          simp only at hdatabase htable hid hshard hsource hsame
          rw [hdatabase, htable, hid, hshard, hsource, hsame.1, hsame.2]

theorem run_append_partitions (updates : List ShardUpdate) (update : ShardUpdate) :
    (manager.run (updates ++ [update])).1 = manager.newPartitions update := by
  rw [run, foldl_append]
  rfl

theorem run_append_held (updates : List ShardUpdate) (update : ShardUpdate) :
    (manager.run (updates ++ [update])).2 = subscriberStep (manager.run updates).2
        (notification (manager.run updates).1 (manager.newPartitions update)) := by
  rw [run, foldl_append]
  rfl

/-- The subscriber is in step after every update exactly if every change is steady. -/
theorem run_inStep_iff (manager : PartitionManager) (updates : List ShardUpdate)
    (hdiffer : ∀ update ∈ updates, ∀ other ∈ updates, HashesDiffer manager update other) :
    (∀ before update after, updates = before ++ update :: after →
        InStep manager update (manager.run (before ++ [update])).2) ↔
      ∀ before old new after, updates = before ++ old :: new :: after → Steady manager old new := by
  have hstep {before after : List ShardUpdate} {old new : ShardUpdate}
      (hupdates : updates = before ++ old :: new :: after)
      (hheld : InStep manager old (manager.run (before ++ [old])).2) :
      InStep manager new (manager.run (before ++ [old] ++ [new])).2 ↔ Steady manager old new := by
    have hold : old ∈ updates := by rw [hupdates]; simp
    have hnew : new ∈ updates := by rw [hupdates]; simp
    rw [run_append_held, run_append_partitions]
    exact inStep_step_iff (hdiffer old hold old hold) (hdiffer new hnew new hnew)
      (hdiffer old hold new hnew) hheld
  constructor
  · intro hall before old new after hupdates
    refine (hstep hupdates (hall before old (new :: after) hupdates)).mp ?_
    exact hall (before ++ [old]) new after (by rw [hupdates]; simp)
  · intro hsteady before
    induction before using reverseRecOn with
    | nil =>
      intro update after hupdates
      have hmem : update ∈ updates := by rw [hupdates]; simp
      rw [inStep_iff_get (hdiffer update hmem update hmem), run_append_held]
      intro hash
      have hempty : (manager.run []).2 = (manager.run []).1 := rfl
      rw [get_subscriberStep fun _ => by rw [hempty]]
      cases (manager.newPartitions update).get hash <;> rfl
    | append_singleton before old ih =>
      intro new after hupdates
      have hupdates' : updates = before ++ old :: new :: after := by rw [hupdates]; simp
      exact (hstep hupdates' (ih old (new :: after) hupdates')).mpr
        (hsteady before old new after hupdates')

/-- While the shard numbers stay, a partition of a data centre keeps its shards. -/
theorem steady_of_shardNumber {old new : ShardUpdate} (hnumber : old.shardNumber = new.shardNumber) :
    Steady manager old new := by
  rintro left right ⟨table, hleft⟩ ⟨table', hright⟩ hhash - hdc
  obtain ⟨count, -, hcount, hshard⟩ := hleft.shard
  obtain ⟨count', -, hcount', hshard'⟩ := hright.shard
  obtain ⟨source, -, hsource, hsrc⟩ := hleft.source
  obtain ⟨source', -, hsource', hsrc'⟩ := hright.source
  rw [hleft.dc, hright.dc] at hdc
  rw [hnumber, hcount', Option.some.injEq] at hcount
  rw [hnumber, hdc, hsource', Option.some.injEq] at hsource
  rw [hshard, hshard', hsrc, hsrc', hhash, hcount, hsource]
  exact ⟨rfl, rfl⟩

end PartitionManager

end

namespace PartitionManager

@[reducible] def referenceHash : CityHash64 := ⟨CityHash.reference⟩

section
local instance smallHash : CityHash64 := referenceHash

theorem partitionNumber_small (partitionNumber : Fin 3) : partitionNumber.val < 2 ^ 31 := by omega

/-- One table, on a node that leads the shards 0 and 1 but for those it follows. -/
def smallUpdate (partitionNumber : Fin 3) (followers : List UInt32) (shardNumber : UInt32) :
    ShardUpdate where
  list := ⟨1, [0, 1], followers, false⟩
  tables := [⟨[100], [98], partitionNumber, partitionNumber_small _, [], [99], [99]⟩]
  named := nodup_singleton _
  shardNumber := fun _ => some shardNumber

def singleManager : PartitionManager := ⟨[103], 1, [99]⟩

theorem hashesDiffer_small (followers followers' : List UInt32) (count count' : UInt32) :
    HashesDiffer singleManager (smallUpdate 2 followers count) (smallUpdate 2 followers' count') := by
  have hapart : partitionHash [100] [98] 0 ≠ partitionHash [100] [98] 1 := by decide +kernel
  have hname {partition : Partition} {followers : List UInt32} {count : UInt32}
      (hassigned : IsAssigned singleManager (smallUpdate 2 followers count) partition) :
      partition.databaseName = [100] ∧ partition.tableName = [98] ∧ partition.partitionId < 2 := by
    obtain ⟨table, hassigned⟩ := hassigned
    obtain rfl := mem_singleton.mp hassigned.listed
    exact ⟨hassigned.databaseName, hassigned.tableName, hassigned.partitionId⟩
  intro left right hleft hright hhash
  obtain ⟨hdatabase, htable, hid⟩ := hname hleft
  obtain ⟨hdatabase', htable', hid'⟩ := hname hright
  refine ⟨hdatabase.trans hdatabase'.symm, htable.trans htable'.symm, ?_⟩
  rw [Partition.getPartitionHash, Partition.getPartitionHash, hdatabase, hdatabase', htable,
    htable'] at hhash
  generalize left.partitionId = id at hid hhash ⊢
  generalize right.partitionId = id' at hid' hhash ⊢
  interval_cases id <;> interval_cases id'
  · rfl
  · exact absurd hhash hapart
  · exact absurd hhash.symm hapart
  · rfl

/-- Of two partitions on two shards one becomes a follower. -/
theorem run_inStep_roles :
    let updates := [smallUpdate 2 [] 2, smallUpdate 2 [1] 2]
    ((singleManager.run (updates.take 1)).2.items.map fun partition =>
        (partition.partitionId, partition.shardId, partition.role)) =
      [(0, 1, .LEADER), (1, 0, .LEADER)] ∧
    ((singleManager.run updates).2.items.map fun partition =>
        (partition.partitionId, partition.shardId, partition.role)) =
      [(1, 0, .LEADER), (0, 1, .FOLLOWER)] ∧
    InStep singleManager (smallUpdate 2 [1] 2) (singleManager.run updates).2 := by
  intro updates
  have hnumber (update : ShardUpdate) (hupdate : update ∈ updates) :
      ∃ followers, update = smallUpdate 2 followers 2 := by
    rcases mem_pair.mp hupdate with rfl | rfl
    · exact ⟨[], rfl⟩
    · exact ⟨[1], rfl⟩
  refine ⟨by decide +kernel, by decide +kernel, (run_inStep_iff singleManager updates ?_).mpr ?_
    [smallUpdate 2 [] 2] (smallUpdate 2 [1] 2) [] rfl⟩
  · intro update hupdate other hother
    obtain ⟨_, rfl⟩ := hnumber update hupdate
    obtain ⟨_, rfl⟩ := hnumber other hother
    exact hashesDiffer_small _ _ 2 2
  · intro before old new after hupdates
    obtain ⟨_, rfl⟩ := hnumber old (by rw [hupdates]; simp)
    obtain ⟨_, rfl⟩ := hnumber new (by rw [hupdates]; simp)
    exact steady_of_shardNumber rfl

/-- With other shard numbers the partition stays, and the subscriber keeps the old shards. -/
theorem run_inStep_fails :
    ((singleManager.run [smallUpdate 1 [] 1]).2.items.map fun partition =>
        (partition.partitionId, partition.shardId, partition.srcShardId, partition.role)) =
      [(0, 0, 0, .LEADER)] ∧
    ((singleManager.run [smallUpdate 1 [] 1, smallUpdate 1 [] 2]).2.items.map fun partition =>
        (partition.partitionId, partition.shardId, partition.srcShardId, partition.role)) =
      [(0, 0, 0, .LEADER)] ∧
    ((singleManager.newPartitions (smallUpdate 1 [] 2)).items.map fun partition =>
        (partition.partitionId, partition.shardId, partition.srcShardId, partition.role)) =
      [(0, 1, 1, .LEADER)] := by
  decide +kernel

end

end PartitionManager

/-- `getShardId` of the Go client, an `int64`. -/
def GoClient.getShardId (partitionHash : Int64) (shardNumber : UInt32) : Int64 :=
  if shardNumber = 0 then 4294967295 else longAbs partitionHash % shardNumber.toUInt64.toInt64

/-- What `GetPartitionId` of the Go client and of the job make of a hash. -/
def GoClient.partitionOf (key partitionNumber : Int64) : UInt32 :=
  (longAbs key % partitionNumber).toUInt64.toUInt32

def TransformJob.partitionOf (hash : Int64) (partitionNumber : Int32) : Int32 :=
  (longAbs hash % partitionNumber.toInt64).toInt32

theorem getPartitionId_eq (databaseName tableName : Bytes) (formatKey : LaserKeyFormatBase)
    (number : UInt32) (count : Int64) (dbname tablename primaryKey : JavaString) :
    PartitionManager.getPartitionId databaseName tableName formatKey number =
        shardOf (tableKeyHash databaseName tableName formatKey.primaryKeys) number ∧
      GoClient.getPartitionId databaseName tableName formatKey count =
        GoClient.partitionOf (tableKeyHash databaseName tableName formatKey.primaryKeys) count ∧
      ∃ hash, ∀ partitionNumber,
        TransformJob.getPartitionId dbname tablename primaryKey partitionNumber =
          TransformJob.partitionOf hash partitionNumber :=
  ⟨rfl, rfl, _, fun _ => rfl⟩

/-- The ids of a hash are below `number`, and the Go client has those of the server. -/
structure IdsSuit (hash : Int64) (number : Nat) : Prop where
  server : (shardOf hash (UInt32.ofNat number)).toNat < number
  partitionId : (GoClient.partitionOf hash (Int64.ofNat number)).toNat < number
  shardId : (GoClient.getShardId hash (UInt32.ofNat number)).toInt ∈ Set.Ico (0 : Int) number
  job : (TransformJob.partitionOf hash (Int32.ofNat number)).toInt ∈ Set.Ico (0 : Int) number
  samePartition : GoClient.partitionOf hash (Int64.ofNat number) =
    shardOf hash (UInt32.ofNat number)
  sameShard : (GoClient.getShardId hash (UInt32.ofNat number)).toInt =
    (shardOf hash (UInt32.ofNat number)).toNat

section
variable {hash : Int64} {number : Nat} (hpos : 0 < number) (hnumber : number < 2 ^ 31)
include hpos hnumber

theorem toInt_remainder :
    (longAbs hash % Int64.ofNat number).toInt = (longAbs hash).toInt.tmod number := by
  rw [Int64.toInt_mod, Int64.toInt_ofNat_of_lt (by omega)]

theorem remainder_nonneg_iff :
    0 ≤ (longAbs hash % Int64.ofNat number).toInt ↔ (hash = Int64.minValue → number ∣ 2 ^ 63) := by
  rw [toInt_remainder hpos hnumber]
  by_cases hmin : hash = Int64.minValue
  · have habs : (longAbs hash).toInt = -2 ^ 63 := by rw [hmin]; decide
    have hdvd : number ∣ 2 ^ 63 ↔ ((2 : Int) ^ 63) % number = 0 := by
      rw [← Int.dvd_iff_emod_eq_zero]
      exact Int.natCast_dvd_natCast.symm
    have hlow := Int.emod_nonneg (2 ^ 63) (Int.natCast_pos.mpr hpos).ne'
    rw [habs, Int.neg_tmod, Int.tmod_eq_emod_of_nonneg (by decide)]
    simp only [hmin, forall_const, hdvd]
    omega
  · have habs := longAbs_nonneg hmin
    simp only [hmin, false_imp_iff, iff_true]
    exact Int.tmod_nonneg _ habs

/-- The ids are in range just if the hash has an absolute value or `number` divides it. -/
theorem idsSuit_iff : IdsSuit hash number ↔ (hash = Int64.minValue → number ∣ 2 ^ 63) := by
  have hne : UInt32.ofNat number ≠ 0 := by
    intro heq
    have hzero := congrArg UInt32.toNat heq
    rw [UInt32.toNat_ofNat_of_lt' (by change _ < 2 ^ 32; omega)] at hzero
    exact hpos.ne' hzero
  have hserver : shardOf hash (UInt32.ofNat number) =
      (longAbs hash % Int64.ofNat number).toUInt64.toUInt32 := by
    rw [shardOf, divisor_eq (by omega)]
  have hshard : GoClient.getShardId hash (UInt32.ofNat number) =
      longAbs hash % Int64.ofNat number := by
    rw [GoClient.getShardId, if_neg hne, divisor_eq (by omega)]
  have hjob : TransformJob.partitionOf hash (Int32.ofNat number) =
      (longAbs hash % Int64.ofNat number).toInt32 := by
    rw [TransformJob.partitionOf, intDivisor_eq hnumber]
  have hhigh := Int.tmod_lt_of_pos (longAbs hash).toInt (Int.natCast_pos.mpr hpos)
  rw [← toInt_remainder hpos hnumber] at hhigh
  rw [← remainder_nonneg_iff hpos hnumber]
  constructor
  · intro hsuit
    exact hshard ▸ hsuit.shardId.1
  · intro hnonneg
    obtain ⟨hint, hnat⟩ := narrow_eq hnonneg (by omega)
    refine ⟨?_, ?_, ?_, ?_, hserver.symm, ?_⟩
    · rw [hserver]; omega
    · rw [GoClient.partitionOf]; omega
    · rw [hshard]; exact ⟨hnonneg, hhigh⟩
    · rw [hjob, hint]; exact ⟨hnonneg, hhigh⟩
    · rw [hserver, hshard, hnat]

end

theorem idsSuit_minValue_four : IdsSuit Int64.minValue 4 :=
  (idsSuit_iff (by decide) (by decide)).mpr fun _ => by decide

/-- The remainder is -2. -/
theorem idsSuit_not_minValue_three : ¬ IdsSuit Int64.minValue 3 ∧
    (shardOf Int64.minValue 3).toNat = 4294967294 ∧
    (GoClient.getShardId Int64.minValue 3).toInt = -2 ∧
    (TransformJob.partitionOf Int64.minValue 3).toInt = -2 :=
  ⟨fun hsuit => absurd hsuit.server (by decide +kernel), by decide +kernel⟩

end LaserDB
