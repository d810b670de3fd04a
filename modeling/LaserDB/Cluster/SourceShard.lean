import LaserDB.Cluster.PartitionManager

/-!
# Where a follower pulls from

A `ReplicationDB` sends its pulls to a shard of a data centre; it is told which in three steps,
between which it may pull.
-/

namespace LaserDB
open Option List

abbrev SentTo := Bytes × UInt32

/-- The part of a `ReplicationDB` that says whom it asks. -/
structure PullLink where
  role : DBRole
  shardId : UInt32
  srcDc : Bytes

variable {sent : SentTo}

namespace PullLink

def pullFromUpstream (link : PullLink) : List SentTo :=
  if link.role = .LEADER then [] else [(link.srcDc, link.shardId)]

theorem mem_pullFromUpstream {link : PullLink} :
    sent ∈ link.pullFromUpstream ↔ link.role ≠ .LEADER ∧ sent = (link.srcDc, link.shardId) := by
  unfold pullFromUpstream
  split_ifs with hrole <;> simp [hrole]

def changeRole (link : PullLink) (role : DBRole) : PullLink × List SentTo :=
  if link.role = role then (link, [])
  else ({ link with role := role }, pullFromUpstream { link with role := role })

def setPartition (link : PullLink) (old new : Partition) (afterRole afterDc : Bool) :
    PullLink × List SentTo :=
  let turned := if new.role ≠ old.role then link.changeRole new.role else (link, [])
  let moved := if new.dc ≠ old.dc then { turned.1 with srcDc := new.dc } else turned.1
  (if new.srcShardId ≠ old.srcShardId then { moved with shardId := new.srcShardId } else moved,
    turned.2 ++ (if afterRole then turned.1.pullFromUpstream else []) ++
      if afterDc then moved.pullFromUpstream else [])

end PullLink

variable {afterRole afterDc : Bool}

namespace Partition

def SameSource (left right : Partition) : Prop :=
  left.dc = right.dc ∧ left.srcShardId = right.srcShardId

def link (partition : Partition) : PullLink :=
  ⟨partition.role, partition.srcShardId, partition.dc⟩

variable (old new : Partition)

theorem turned_eq :
    (if new.role ≠ old.role then old.link.changeRole new.role else (old.link, [])) =
      ({ old with role := new.role }.link,
        if new.role ≠ old.role then { old with role := new.role }.link.pullFromUpstream else []) := by
  split_ifs with hrole
  · exact if_neg (Ne.symm hrole)
  · rw [not_not.mp hrole]

theorem setPartition_fst (afterRole afterDc : Bool) :
    (old.link.setPartition old new afterRole afterDc).1 = new.link := by
  simp only [PullLink.setPartition, turned_eq]
  by_cases hdc : new.dc = old.dc <;> by_cases hshard : new.srcShardId = old.srcShardId <;>
    simp [hdc, hshard, link]

theorem mem_setPartition {old new : Partition} (hsettled : new.SameSource old ∨ new.role = .LEADER ∨
      new.role = old.role ∧ afterRole = false ∧ afterDc = false)
    (hsent : sent ∈ (old.link.setPartition old new afterRole afterDc).2) :
    sent = (new.dc, new.srcShardId) := by
  simp only [PullLink.setPartition, turned_eq] at hsent
  simp only [link, mem_append, mem_ite_nil_right, PullLink.mem_pullFromUpstream] at hsent
  rcases hsettled with ⟨hdc, hshard⟩ | hleader | ⟨hrole, hafterRole, hafterDc⟩
  · simp only [hdc, hshard, ne_eq, not_true, if_false, ← or_and_right] at hsent ⊢
    exact hsent.2.2
  · split at hsent <;> simp [hleader] at hsent
  · simp [hrole, hafterRole, hafterDc] at hsent

end Partition

section
variable [CityHash64]

structure ConfiguredPartition (manager : PartitionManager) where
  update : ShardUpdate
  table : TableSchema
  partition : Partition
  assigned : Assigned manager update table partition

/-- A handler, and what the configuration last says of its partition. -/
structure SourceHandler (manager : PartitionManager) where
  latest : ConfiguredPartition manager
  partition : Partition
  db : Option PullLink

/-- What happens to a handler; the flags of `updateShardList` say whether the database pulls after
the change of its role and after that of its data centre. -/
inductive SourceStep (manager : PartitionManager) where
  | mount (next : ConfiguredPartition manager)
  | updateShardList (next : ConfiguredPartition manager) (afterRole afterDc : Bool)
  | exchangeBaseVersion
  | syncDestroyRocksDbEngine
  | pullFromUpstream
  | notifyWdtSender

namespace SourceHandler
variable {manager : PartitionManager}

def step (input : SourceStep manager) (state : SourceHandler manager) :
    SourceHandler manager × List SentTo :=
  match input with
  | .mount next => (⟨next, next.partition, none⟩, [])
  | .updateShardList next afterRole afterDc =>
    -- The subscriber only hears of a new role or data centre.
    if next.partition.role = state.latest.partition.role ∧
        next.partition.dc = state.latest.partition.dc then ({ state with latest := next }, [])
    else
      match state.db with
      | none => (⟨next, next.partition, none⟩, [])
      | some link =>
        let set := link.setPartition state.partition next.partition afterRole afterDc
        (⟨next, next.partition, some set.1⟩, set.2)
  | .exchangeBaseVersion =>
    let link := ⟨state.partition.role, state.partition.shardId, state.partition.dc⟩
    ({ state with db := some link }, link.pullFromUpstream)
  | .syncDestroyRocksDbEngine => ({ state with db := none }, [])
  | .pullFromUpstream => (state, (state.db.map (·.pullFromUpstream)).getD [])
  | .notifyWdtSender => (state, [(state.partition.dc, state.partition.srcShardId)])

def next (input : SourceStep manager) (state : SourceHandler manager) : SourceHandler manager :=
  (step input state).1

def IsSource (configured : ConfiguredPartition manager) (sent : SentTo) : Prop :=
  sent.1 = configured.table.dc ∧ ∃ shardNumber ≠ 0,
    configured.update.shardNumber configured.table.dc = some shardNumber ∧
      sent.2 = shardOf configured.partition.getPartitionHash shardNumber

def AsksSource (input : SourceStep manager) (state : SourceHandler manager) : Prop :=
  ∀ sent ∈ (step input state).2, IsSource (next input state).latest sent

/-- A database is loaded when the shard of the partition is its source shard.  A configuration
keeps the source, or changes the role or data centre as well and finds no database that pulls
before it knows the new source. -/
def Settled : SourceStep manager → SourceHandler manager → Prop
  | .updateShardList next afterRole afterDc, state =>
    next.partition.SameSource state.latest.partition ∨
      ¬(next.partition.role = state.latest.partition.role ∧
        next.partition.dc = state.latest.partition.dc) ∧
      (state.db = none ∨ next.partition.role = .LEADER ∨
        next.partition.role = state.partition.role ∧ afterRole = false ∧ afterDc = false)
  | .exchangeBaseVersion, state => state.partition.shardId = state.partition.srcShardId
  | _, _ => True

structure Linked (state : SourceHandler manager) : Prop where
  source : state.partition.SameSource state.latest.partition
  db : ∀ link ∈ state.db, link = state.partition.link

variable {configured : ConfiguredPartition manager}

variable {partition : Partition}

variable (hsame : partition.SameSource configured.partition)
include hsame

theorem isSource_of :
    IsSource configured (partition.dc, partition.srcShardId) := by
  rw [hsame.1, hsame.2]
  exact ⟨configured.assigned.dc, configured.assigned.source⟩

theorem isSource_of_pull
    (hsent : sent ∈ partition.link.pullFromUpstream) : IsSource configured sent := by
  rw [(PullLink.mem_pullFromUpstream.mp hsent).2]
  exact isSource_of hsame

omit hsame

variable {state : SourceHandler manager}

private theorem Linked.updateShardList (hlinked : state.Linked)
    (hsettled : Settled (.updateShardList configured afterRole afterDc) state) :
    AsksSource (.updateShardList configured afterRole afterDc) state ∧
      (next (.updateShardList configured afterRole afterDc) state).Linked := by
  obtain ⟨latest, partition, db⟩ := state
  simp only [AsksSource, next, step]
  by_cases htold : configured.partition.role = latest.partition.role ∧
      configured.partition.dc = latest.partition.dc
  · rw [if_pos htold]
    have hsame := hsettled.resolve_right fun hchanged => hchanged.1 htold
    exact ⟨nofun, ⟨hlinked.source.1.trans hsame.1.symm, hlinked.source.2.trans hsame.2.symm⟩,
      hlinked.db⟩
  · rw [if_neg htold]
    cases db with
    | none => exact ⟨nofun, ⟨rfl, rfl⟩, nofun⟩
    | some link =>
      obtain rfl : link = partition.link := hlinked.db link rfl
      refine ⟨fun sent hsent => ?_, ⟨rfl, rfl⟩, fun link hlink => ?_⟩
      · rw [Partition.mem_setPartition ?_ hsent]
        · exact isSource_of ⟨rfl, rfl⟩
        · rcases hsettled with ⟨hdc, hshard⟩ | ⟨-, hnone | hrole⟩
          · exact .inl ⟨hdc.trans hlinked.source.1.symm, hshard.trans hlinked.source.2.symm⟩
          · cases hnone
          · exact .inr hrole
      · rw [← some.inj hlink, Partition.setPartition_fst]

private theorem Linked.step (hlinked : state.Linked) (input : SourceStep manager)
    (hsettled : Settled input state) : AsksSource input state ∧ (next input state).Linked := by
  cases input with
  | mount configured => exact ⟨nofun, ⟨rfl, rfl⟩, nofun⟩
  | updateShardList configured afterRole afterDc => exact hlinked.updateShardList hsettled
  | exchangeBaseVersion =>
    have hlink : (⟨state.partition.role, state.partition.shardId, state.partition.dc⟩ : PullLink) =
        state.partition.link := by rw [Partition.link, hsettled]
    refine ⟨fun sent hsent => ?_, hlinked.source, fun link hdb => ?_⟩
    · rw [SourceHandler.step, hlink] at hsent
      exact isSource_of_pull hlinked.source hsent
    · exact (some.inj hdb).symm.trans hlink
  | syncDestroyRocksDbEngine => exact ⟨nofun, hlinked.source, nofun⟩
  | pullFromUpstream =>
    refine ⟨fun sent hsent => ?_, hlinked⟩
    cases hdb : state.db with
    | none => simp [SourceHandler.step, hdb] at hsent
    | some link =>
      simp only [SourceHandler.step, hdb, hlinked.db link hdb] at hsent
      exact isSource_of_pull hlinked.source hsent
  | notifyWdtSender =>
    refine ⟨fun sent hsent => ?_, hlinked⟩
    rw [mem_singleton.mp hsent]
    exact isSource_of hlinked.source

def mounted (configured : ConfiguredPartition manager) : SourceHandler manager :=
  ⟨configured, configured.partition, none⟩

theorem asks_source_of_settled (configured : ConfiguredPartition manager)
    (steps : List (SourceStep manager))
    (hsettled : Simulation.Guarded next Settled steps (mounted configured)) :
    Simulation.Guarded next AsksSource steps (mounted configured) := by
  have hstart : (mounted configured).Linked := ⟨⟨rfl, rfl⟩, nofun⟩
  exact Simulation.Guarded.of_invariant
    (fun input _ hlinked hsettled => hlinked.step input hsettled) hstart hsettled

end SourceHandler

end

namespace SourceHandler

theorem one_fits : 1 < 2 ^ 31 := by decide

def defaultDc : Bytes := "default".toUTF8.data.toList

def shardNumbers (srcShardNumber shardNumber : UInt32) (dc : Bytes) : UInt32 :=
  if dc = defaultDc then shardNumber else srcShardNumber

theorem shardNumbers_ne_zero {srcShardNumber shardNumber : UInt32} (hsource : srcShardNumber ≠ 0)
    (hshard : shardNumber ≠ 0) {dc : Bytes} : shardNumbers srcShardNumber shardNumber dc ≠ 0 := by
  unfold shardNumbers
  split_ifs
  · exact hshard
  · exact hsource

section
local instance sourceHash : CityHash64 := PartitionManager.referenceHash

/-- A partition of a table of the data centre `dc`, which stays there or moves to that of the
node; the node follows its shard. -/
def followed (dc : Bytes) (srcShardNumber shardNumber : UInt32) (hsource : srcShardNumber ≠ 0)
    (hshard : shardNumber ≠ 0) : ConfiguredPartition ⟨[103], 1, defaultDc⟩ :=
  let hash := partitionHash [100] [97] 0
  let table : TableSchema := ⟨[100], [97], 1, one_fits, [], dc, defaultDc⟩
  let number := shardNumbers srcShardNumber shardNumber
  { update :=
      { list := ⟨1, [], [shardOf hash shardNumber], false⟩
        tables := [table]
        named := nodup_singleton _
        shardNumber := fun name => some (number name) }
    table := table
    partition :=
      ⟨[100], [97], 0, shardOf hash (number dc), shardOf hash shardNumber, .FOLLOWER, dc⟩
    assigned :=
      { listed := mem_singleton_self table
        near := .inr rfl
        bound := nofun
        databaseName := rfl
        tableName := rfl
        partitionId := Nat.one_pos
        dc := rfl
        source := ⟨number dc, shardNumbers_ne_zero hsource hshard, rfl, rfl⟩
        shard := ⟨shardNumber, hshard, rfl, rfl⟩
        hosted := .inr (mem_singleton_self _)
        role := (if_neg fun hled => hled.2 (mem_singleton_self _)).symm } }

theorem asks_source_migrating :
    Simulation.Guarded next AsksSource
      [.exchangeBaseVersion, .updateShardList (followed [98] 4 4 nofun nofun) true true,
        .pullFromUpstream, .notifyWdtSender] (mounted (followed [98] 4 4 nofun nofun)) :=
  asks_source_of_settled _ _ ⟨rfl, .inl ⟨rfl, rfl⟩, trivial, trivial, trivial⟩

/-- With three shards here and four there the first pull goes to the shard of this data centre;
and in one data centre the pulls stay with the old shard when three shards become four. -/
theorem asks_source_fails :
    (step .exchangeBaseVersion (mounted (followed [98] 4 3 nofun nofun))).2 = [([98], 2)] ∧
      shardOf (partitionHash [100] [97] 0) 4 = 1 ∧
      ¬ Simulation.Guarded next AsksSource [.exchangeBaseVersion]
        (mounted (followed [98] 4 3 nofun nofun)) ∧
      ¬ Simulation.Guarded next AsksSource [.exchangeBaseVersion,
          .updateShardList (followed defaultDc 4 4 nofun nofun) true true, .pullFromUpstream]
        (mounted (followed defaultDc 3 3 nofun nofun)) := by
  have hhere : shardOf (partitionHash [100] [97] 0) 3 = 2 := by decide +kernel
  have hthere : shardOf (partitionHash [100] [97] 0) 4 = 1 := by decide +kernel
  have hsent : (step .exchangeBaseVersion (mounted (followed [98] 4 3 nofun nofun))).2 =
      [([98], 2)] := by rw [← hhere]; rfl
  have hwrong (number : UInt32) (hnumber : some 4 = some number)
      (hshard : (2 : UInt32) = shardOf (partitionHash [100] [97] 0) number) : False := by
    cases hnumber
    exact absurd (hshard.trans hthere) (by decide)
  refine ⟨hsent, hthere, fun hasks => ?_, fun hasks => ?_⟩
  · obtain ⟨-, number, -, hnumber, hshard⟩ := hasks.1 ([98], 2) (by simp [hsent])
    exact hwrong number hnumber hshard
  · obtain ⟨-, number, -, hnumber, hshard⟩ := hasks.2.2.1 (defaultDc, 2)
      (by rw [← hhere]; exact mem_singleton_self _)
    exact hwrong number hnumber hshard

end

end SourceHandler

end LaserDB
