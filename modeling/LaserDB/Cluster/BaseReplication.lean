import LaserDB.Cluster.PartitionLoad
import LaserDB.Engine.ReplicationDb

/-!
# Base data replication of a follower

A follower pulls updates from its leader (`server/engine/replication_db.cc`), and when they no
longer help the handler transfers the base data (`server/partition_handler.cc`).  The steps are the
operations on the two flags and the sections under the spin lock.
-/

namespace LaserDB

/-- Where a transfer writes: below the directory of the version, or below the one beside it that
replaces it afterwards. -/
inductive DataDir where
  | data (version : Version)
  | replicating (version : Version)
  deriving DecidableEq

structure BaseTransfer where
  version : Version
  directory : DataDir
  deriving DecidableEq

structure PulledDb where
  id : Nat
  version : Version
  role : DBRole
  forced : Bool
  pulls : Nat
  delayedPulls : Nat
  deriving DecidableEq

inductive LockHolder where
  | loading
  | loaded
  | changingRole (role : DBRole)
  deriving DecidableEq

/-- The part of a handler that base data replication uses.  `made` numbers the databases, and
`clobbered` records that the removal of a directory met a transfer that writes into it. -/
structure BaseReplication where
  role : DBRole
  baseVersion : Version
  db : Option PulledDb
  made : Nat
  replicating : Bool
  hasDelay : Bool
  transfers : List BaseTransfer
  retries : List Version
  lock : Option LockHolder
  clobbered : Bool
  deriving DecidableEq

inductive PullResponse where
  | exception
  | walRemoved
  | updates (version : Version) (applied reachedLimit : Bool)
  deriving DecidableEq

structure ReplicationMet where
  called : Bool
  removed : Bool
  received : Bool
  renamed : Bool
  opened : Bool

inductive ReplicationEvent where
  | response (answer : PullResponse)
  | pullTimer
  | versionCallback (version : Version)
  | transferEnd (index : Nat) (ok : Bool)
  | retryTimer
  | setPartition (role : DBRole)
  | forceBaseDataReplication
  | reloadRocksDbEngine

inductive ReplicationStep where
  | applyUpdates (response : PullResponse)
  | pullTimer
  | pullFromUpstream (id : Nat)
  | delayPullFromUpstream (id : Nat)
  | updateVersion (version : Version)
  | testAndSet (version : Version)
  | removeExistingDataDir (version : Version)
  | removeAll (version : Version) (directory : DataDir)
  | receiver (version : Version) (directory : DataDir)
  | transferEnd (index : Nat) (ok : Bool)
  | transferred (version : Version)
  | loadRocksDbEngine (version : Version)
  | clearReplicating
  | transferFailed (version : Version) (atStart : Bool)
  | delayBaseDataReplicate (version : Version) (atStart : Bool)
  | startFailed (version : Version)
  | retryTimer
  | clearDelay (version : Version)
  | setPartition (role : DBRole)
  | assignPartition (role : DBRole)
  | forceBaseDataReplication
  | reloadRocksDbEngine
  deriving DecidableEq

def ReplicationEvent.step : ReplicationEvent → ReplicationStep
  | .response answer => .applyUpdates answer
  | .pullTimer => .pullTimer
  | .versionCallback version => .updateVersion version
  | .transferEnd index ok => .transferEnd index ok
  | .retryTimer => .retryTimer
  | .setPartition role => .setPartition role
  | .forceBaseDataReplication => .forceBaseDataReplication
  | .reloadRocksDbEngine => .reloadRocksDbEngine

namespace ReplicationStep

def replicates : ReplicationStep → Bool
  | .removeExistingDataDir _ => true
  | .removeAll _ _ => true
  | .receiver _ _ => true
  | .transferred _ => true
  | .loadRocksDbEngine _ => true
  | .transferFailed _ _ => true
  | .delayBaseDataReplicate _ _ => true
  | .clearDelay _ => true
  | _ => false

def testsFlag : ReplicationStep → Bool
  | .testAndSet _ => true
  | _ => false

end ReplicationStep

namespace PulledDb

/-- A pull that `thriftServiceCall` refuses is delayed. -/
def pullFromUpstream (db : PulledDb) (called : Bool) : PulledDb :=
  if db.role = .LEADER then db
  else if called then { db with pulls := db.pulls + 1 }
  else { db with delayedPulls := db.delayedPulls + 1 }

/-- `startReplicator`: a follower begins to pull; `pullFromUpstream` leaves a leader alone. -/
def opened (id : Nat) (version : Version) (role : DBRole) (called : Bool) : PulledDb :=
  pullFromUpstream ⟨id, version, role, false, 0, 0⟩ called

def changeRole (db : PulledDb) (role : DBRole) (called : Bool) : PulledDb :=
  if db.role = role then db else pullFromUpstream { db with role := role } called

variable (db : PulledDb)

theorem pullFromUpstream_role (called : Bool) : (db.pullFromUpstream called).role = db.role := by
  unfold pullFromUpstream
  split_ifs <;> rfl

theorem pullFromUpstream_pulls (called : Bool) (hrole : db.role = .FOLLOWER) :
    0 < (db.pullFromUpstream called).pulls + (db.pullFromUpstream called).delayedPulls := by
  unfold pullFromUpstream
  rw [hrole, if_neg nofun]
  split_ifs
  · exact Nat.add_pos_left (Nat.succ_pos _) _
  · exact Nat.add_pos_right _ (Nat.succ_pos _)

theorem opened_role (id : Nat) (version : Version) (role : DBRole) (called : Bool) :
    (opened id version role called).role = role := pullFromUpstream_role _ called

theorem changeRole_role (role : DBRole) (called : Bool) :
    (db.changeRole role called).role = role := by
  unfold changeRole
  split
  · assumption
  · exact pullFromUpstream_role _ called

theorem changeRole_pulls (hrole : db.role ≠ .FOLLOWER) (called : Bool) :
    0 < (db.changeRole .FOLLOWER called).pulls + (db.changeRole .FOLLOWER called).delayedPulls := by
  rw [changeRole, if_neg hrole]
  exact pullFromUpstream_pulls _ called rfl

/-- How `applyUpdates` goes on after the response to a pull. -/
def applyUpdates (db : PulledDb) (response : PullResponse) : ReplicationStep :=
  if db.forced then .updateVersion db.version
  else
    match response with
    | .exception => .delayPullFromUpstream db.id
    | .walRemoved => .updateVersion db.version
    | .updates version applied reachedLimit =>
      if version ≠ db.version then .updateVersion version
      else if reachedLimit then .updateVersion version
      else if applied then .pullFromUpstream db.id
      else .delayPullFromUpstream db.id

theorem applyUpdates_cases (response : PullResponse) :
    (∃ version, db.applyUpdates response = .updateVersion version) ∨
      db.applyUpdates response = .pullFromUpstream db.id ∨
      db.applyUpdates response = .delayPullFromUpstream db.id := by
  unfold applyUpdates
  split_ifs
  · exact .inl ⟨_, rfl⟩
  · cases response with
    | exception => exact .inr (.inr rfl)
    | walRemoved => exact .inl ⟨_, rfl⟩
    | updates version applied reachedLimit =>
      dsimp only
      split_ifs
      · exact .inl ⟨_, rfl⟩
      · exact .inl ⟨_, rfl⟩
      · exact .inr (.inl rfl)
      · exact .inr (.inr rfl)

end PulledDb

namespace BaseReplication

def start (role : DBRole) (version : Version) (called : Bool) : BaseReplication where
  role := role
  baseVersion := version
  db := some (.opened 0 version role called)
  made := 1
  replicating := false
  hasDelay := false
  transfers := []
  retries := []
  lock := none
  clobbered := false

def onDb (state : BaseReplication) (id : Nat) (change : PulledDb → PulledDb) : BaseReplication :=
  { state with db := state.db.map fun db => if db.id = id then change db else db }

/-- `createRocksDbEngine` and, if the database can be opened, `exchangeBaseVersion`. -/
def loadRocksDbEngine (state : BaseReplication) (version : Version) (opened called : Bool) :
    BaseReplication :=
  if opened then
    { state with
      baseVersion := version
      db := some (.opened state.made version state.role called)
      made := state.made + 1 }
  else state

theorem loadRocksDbEngine_eq (state : BaseReplication) (version : Version) (opened called : Bool) :
    state.loadRocksDbEngine version opened called = { state with
      baseVersion := (state.loadRocksDbEngine version opened called).baseVersion
      db := (state.loadRocksDbEngine version opened called).db
      made := (state.loadRocksDbEngine version opened called).made } := by
  cases opened <;> rfl

def delayBaseDataReplicate (state : BaseReplication) (version : Version) : BaseReplication :=
  if state.hasDelay then state
  else { state with hasDelay := true, retries := state.retries ++ [version] }

def dataDir (state : BaseReplication) (version : Version) : DataDir :=
  if version = state.baseVersion then .replicating version else .data version

/-- One step of a thread, and where the thread stands then; a thread that meets the lock spins. -/
def step (state : BaseReplication) (met : ReplicationMet) :
    ReplicationStep → BaseReplication × List ReplicationStep
  | .applyUpdates response =>
    match state.db with
    | none => (state, [])
    | some db =>
      if db.pulls = 0 then (state, [])
      else ({ state with db := some { db with pulls := db.pulls - 1 } }, [db.applyUpdates response])
  | .pullTimer =>
    match state.db with
    | none => (state, [])
    | some db =>
      if db.delayedPulls = 0 then (state, [])
      else ({ state with db := some { db with delayedPulls := db.delayedPulls - 1 } },
        [.pullFromUpstream db.id])
  | .pullFromUpstream id => (state.onDb id fun db => db.pullFromUpstream met.called, [])
  | .delayPullFromUpstream id =>
    (state.onDb id fun db => { db with delayedPulls := db.delayedPulls + 1 }, [])
  | .updateVersion version =>
    if state.role ≠ .FOLLOWER then (state, []) else (state, [.testAndSet version])
  | .testAndSet version =>
    if state.replicating then (state, [])
    else ({ state with replicating := true }, [.removeExistingDataDir version])
  | .removeExistingDataDir version =>
    if state.lock.isSome then (state, [.removeExistingDataDir version])
    else (state, [.removeAll version (state.dataDir version)])
  | .removeAll version directory =>
    ({ state with
        clobbered := state.clobbered ||
          decide (∃ transfer ∈ state.transfers, transfer.directory = directory) },
      if met.removed then [.receiver version directory]
      else [.delayBaseDataReplicate version false])
  | .receiver version directory =>
    if met.received then
      ({ state with transfers := state.transfers ++ [⟨version, directory⟩] }, [])
    else (state, [.transferFailed version true])
  | .transferEnd index ok =>
    match state.transfers[index]? with
    | none => (state, [])
    | some transfer =>
      ({ state with transfers := state.transfers.eraseIdx index },
        [if ok then .transferred transfer.version
          else .transferFailed transfer.version false])
  | .transferred version =>
    if state.lock.isSome then (state, [.transferred version])
    else if version = state.baseVersion then
      if met.renamed then
        ({ state with db := none, lock := some .loading }, [.loadRocksDbEngine version])
      else ({ state with db := none }, [.transferFailed version false])
    else ({ state with lock := some .loading }, [.loadRocksDbEngine version])
  | .loadRocksDbEngine version =>
    ({ state.loadRocksDbEngine version met.opened met.called with lock := some .loaded },
      [.clearReplicating])
  | .clearReplicating => ({ state with replicating := false, lock := none }, [])
  | .transferFailed version atStart =>
    ({ state with replicating := false }, [.delayBaseDataReplicate version atStart])
  | .delayBaseDataReplicate version atStart =>
    (state.delayBaseDataReplicate version, if atStart then [.startFailed version] else [])
  | .startFailed version => (state.delayBaseDataReplicate version, [])
  | .retryTimer =>
    match state.retries with
    | [] => (state, [])
    | version :: retries => ({ state with retries := retries }, [.clearDelay version])
  | .clearDelay version => ({ state with hasDelay := false }, [.removeExistingDataDir version])
  | .setPartition role =>
    if state.lock.isSome then (state, [.setPartition role])
    else
      ({ state with
          db := if role ≠ state.role then state.db.map fun db => db.changeRole role met.called
            else state.db
          lock := some (.changingRole role) }, [.assignPartition role])
  | .assignPartition role => ({ state with role := role, lock := none }, [])
  | .forceBaseDataReplication =>
    if state.lock.isSome then (state, [.forceBaseDataReplication])
    else ({ state with db := state.db.map fun db => { db with forced := true } }, [])
  | .reloadRocksDbEngine =>
    if state.lock.isSome then (state, [.reloadRocksDbEngine])
    else ({ state with db := none }.loadRocksDbEngine state.baseVersion met.opened met.called, [])

def threads : WorkerPool.Machine BaseReplication ReplicationMet ReplicationEvent ReplicationStep where
  start event := [event.step]
  step := step

end BaseReplication

end LaserDB
