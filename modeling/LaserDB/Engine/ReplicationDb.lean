import LaserDB.Format.ValueLaws

/-!
# The database under the engine

`ReplicationDB` of `server/engine/replication_db.cc` as far as the engine uses it, over an ordered
map from record keys to record values.
-/

namespace LaserDB
open LaserValue

/-- The statuses of `laser.thrift` that the engine, the service and the replicator
return. -/
inductive Status where
  | OK
  | RS_NOT_FOUND
  | RS_CORRUPTION
  | RS_NOT_SUPPORTED
  | RS_INVALID_ARGUMENT
  | RS_IO_ERROR
  | RS_MERGE_INPROGRESS
  | RS_IN_COMPLETE
  | RS_SHUTDOWN_INPROGRESS
  | RS_TIMEDOUT
  | RS_ABORTED
  | RS_BUSY
  | RS_EXPIRED
  | RS_TRYAGAIN
  | RS_COMPACTION_TOO_LARGE
  | RS_ERROR
  | RS_EMPTY
  | RS_WRITE_IN_FOLLOWER
  | RS_KEY_EXPIRE
  | RS_KEY_EXISTS
  | RS_TRAFFIC_RESTRICTION
  | RS_OPERATION_DENIED
  | SERVICE_NOT_EXISTS_PARTITION
  | RP_SOURCE_NOT_FOUND
  | RP_SOURCE_READ_ERROR
  | RP_SOURCE_DB_REMOVED
  | RP_SOURCE_WAL_LOG_REMOVED
  | RP_ROLE_ERROR
  | UNKNOWN_ERROR
  deriving DecidableEq, Repr

inductive RocksDbFault where
  | corruption
  | notSupported
  | invalidArgument
  | ioError
  | mergeInProgress
  | incomplete
  | shutdownInProgress
  | timedOut
  | aborted
  | busy
  | expired
  | tryAgain
  | compactionTooLarge
  | other
  deriving DecidableEq, Repr

inductive RocksDbStatus where
  | ok
  | notFound
  | fault (fault : RocksDbFault)
  deriving DecidableEq, Repr

def convertRocksDbStatus : RocksDbStatus → Status
  | .ok => .OK
  | .notFound => .RS_NOT_FOUND
  | .fault .corruption => .RS_CORRUPTION
  | .fault .notSupported => .RS_NOT_SUPPORTED
  | .fault .invalidArgument => .RS_INVALID_ARGUMENT
  | .fault .ioError => .RS_IO_ERROR
  | .fault .mergeInProgress => .RS_MERGE_INPROGRESS
  | .fault .incomplete => .RS_IN_COMPLETE
  | .fault .shutdownInProgress => .RS_SHUTDOWN_INPROGRESS
  | .fault .timedOut => .RS_TIMEDOUT
  | .fault .aborted => .RS_ABORTED
  | .fault .busy => .RS_BUSY
  | .fault .expired => .RS_EXPIRED
  | .fault .tryAgain => .RS_TRYAGAIN
  | .fault .compactionTooLarge => .RS_COMPACTION_TOO_LARGE
  | .fault .other => .RS_ERROR

/-- What one call meets outside the engine: the clock, the errors of RocksDB,
and the records that `KeyMayExist` finds without reading a file. -/
structure Env where
  now : UInt64
  readFault : Bytes → Option RocksDbFault
  writeFault : Option RocksDbFault
  inMemory : Bytes → Bool

def Env.Healthy (env : Env) : Prop := (∀ key, env.readFault key = none) ∧ env.writeFault = none

def Env.at (now : UInt64) : Env := ⟨now, fun _ => none, none, fun _ => true⟩

theorem Env.at_healthy (now : UInt64) : (Env.at now).Healthy := ⟨fun _ => rfl, rfl⟩

inductive BatchWrite where
  | put (key value : Bytes)
  | delete (key : Bytes)
  deriving DecidableEq, Repr

abbrev RocksDbBatch := List BatchWrite

namespace RocksDbBatch

def iput {V : Type} [LaserValue V] (batch : RocksDbBatch) (key : LaserSerializer) (data : V) :
    RocksDbBatch := batch ++ [.put key.rawData (rawData data)]

def idelete (batch : RocksDbBatch) (key : LaserSerializer) : RocksDbBatch :=
  batch ++ [.delete key.rawData]

end RocksDbBatch

abbrev Store := OrderedMap Bytes Bytes

def BatchWrite.apply (store : Store) : BatchWrite → Store
  | .put key value => store.put key value
  | .delete key => store.erase key

def RocksDbBatch.apply (batch : RocksDbBatch) (store : Store) : Store :=
  batch.foldl BatchWrite.apply store

inductive DBRole where
  | LEADER
  | FOLLOWER
  deriving DecidableEq, Repr

structure ReplicationDB where
  role : DBRole
  store : Store

namespace ReplicationDB

def read {V : Type} [LaserValue V] (db : ReplicationDB) (env : Env) (value : V)
    (key : LaserSerializer) : Status × V :=
  match env.readFault key.rawData, db.store.get key.rawData with
  | some fault, _ => (convertRocksDbStatus (.fault fault), value)
  | none, none => (convertRocksDbStatus .notFound, value)
  | none, some bytes => (convertRocksDbStatus .ok, setRawBuffer value bytes)

def write (db : ReplicationDB) (env : Env) (batch : RocksDbBatch) : Status × ReplicationDB :=
  if db.role = .FOLLOWER then (.RS_WRITE_IN_FOLLOWER, db)
  else
    match env.writeFault with
    | some fault => (convertRocksDbStatus (.fault fault), db)
    | none => (convertRocksDbStatus .ok, { db with store := batch.apply db.store })

/-- `KeyMayExist` with its `value_found` flag, then the value when it was found. -/
def exist {V : Type} [LaserValue V] (db : ReplicationDB) (env : Env) (value : V)
    (key : LaserSerializer) : Bool × V :=
  match db.store.get key.rawData with
  | none => (false, value)
  | some bytes =>
    if env.inMemory key.rawData then (true, setRawBuffer value bytes)
    else (false, value)

/-- The loop over all records that start with `target`. -/
def iterate (db : ReplicationDB) (target : LaserSerializer) : List (Bytes × Bytes) :=
  db.store.scan target.rawData

end ReplicationDB

section
variable {V : Type} [LaserValue V]

def ReplicationDB.readFound (db : ReplicationDB) (env : Env) (value : V)
    (key : LaserSerializer) : Except Status V :=
  match db.read env value key with
  | (.OK, value) => .ok value
  | (status, _) => .error status

def ReplicationDB.readOptional (db : ReplicationDB) (env : Env) (value : V)
    (key : LaserSerializer) : Except Status (Option V) :=
  match db.read env value key with
  | (.OK, value) => .ok (some value)
  | (.RS_NOT_FOUND, _) => .ok none
  | (status, _) => .error status

/-- Decode, and return `failure` unless the decoder accepts.  A read behind the
buffer, which the decoder of the source does not notice, also ends the call. -/
def decodeOr (failure : Status) (value : V) : Except Status V :=
  match decode value with
  | (.accepted, value) => .ok value
  | _ => .error failure

end

/-- `ReplicationDB::delkey` up to its write; an absent key is left alone. -/
def ReplicationDB.delkeyPlan (db : ReplicationDB) (env : Env) (key : LaserKeyFormatBase) :
    Except Status (Option RocksDbBatch) := do
  let some value ← db.readOptional env (LaserValueFormatBase.ofBuffer []) key.toLaserSerializer
    | return none
  let value ← decodeOr .RS_IO_ERROR value
  let batch : RocksDbBatch :=
    if value.type = .SET ∨ value.type = .MAP ∨ value.type = .LIST then
      let target := LaserKeyFormat.ofKey key .COMPOSITE
      (db.iterate target.toLaserSerializer).foldl
        (fun batch entry => batch.idelete (LaserKeyFormatBase.ofBuffer entry.1).toLaserSerializer)
        []
    else []
  return some (batch.idelete key.toLaserSerializer)

def ReplicationDB.delkey (db : ReplicationDB) (env : Env) (key : LaserKeyFormatBase) :
    Status × ReplicationDB :=
  match db.delkeyPlan env key with
  | .error status => (status, db)
  | .ok none => (.OK, db)
  | .ok (some batch) => db.write env batch

end LaserDB
