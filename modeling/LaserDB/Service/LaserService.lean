import LaserDB.Engine.Call
import LaserDB.Library.Scatter

/-!
# Requests of the service

`LaserService` of `server/laser_service.cc`.  Engines are named by their pointers, `ε`; random
numbers are arguments, and during one request each engine meets one environment.
-/

namespace LaserDB

open RocksDbEngine Function List

structure TableKey where
  databaseName : Bytes
  tableName : Bytes
  key : LaserKey
  deriving DecidableEq, Repr

inductive Command where
  | get
  | set
  | setx
  | delkey
  | mget
  | mgetDetail
  | mset
  | msetDetail
  | mdel
  deriving DecidableEq, Repr

inductive TrafficRestrictionType where
  | KPS
  | QPS
  deriving DecidableEq, Repr

structure TrafficRestrictionLimitItem where
  type : TrafficRestrictionType
  limit : UInt32

structure TableTrafficRestrictionConfig where
  denyAll : Bool
  singleOperationLimits : Command → Option UInt32
  multipleOperationLimits : Command → Option TrafficRestrictionLimitItem

/-- The members of the service that a request reads; `getTableSchemaHash` and the
lookups of the partition and its open database are other components. -/
structure LaserService (ε : Type) where
  tableSchemaHash : Bytes → Bytes → UInt64
  trafficRestrictionConfig : UInt64 → Option TableTrafficRestrictionConfig
  partitionId : TableKey → Option UInt32
  databaseHandler : Bytes → Bytes → UInt32 → Option ε

/-- An item without key is one with `deny_by_traffic_restriction`. -/
structure DispatchRequestItem where
  index : Nat
  key : Option LaserKey

inductive LaserValueReply where
  | nullValue
  | stringValue (value : Bytes)
  | entryValue (status : Status) (value : Bytes)
  deriving DecidableEq, Repr

namespace LaserService
variable {ε : Type} (service : LaserService ε)

def tableRestriction (key : TableKey) : Option TableTrafficRestrictionConfig :=
  service.trafficRestrictionConfig (service.tableSchemaHash key.databaseName key.tableName)

def getDatabaseEngine (key : TableKey) : Except Status (Option ε) :=
  match service.partitionId key with
  | none => .error .SERVICE_NOT_EXISTS_PARTITION
  | some partitionId =>
    match service.databaseHandler key.databaseName key.tableName partitionId with
    | none => .error .SERVICE_NOT_EXISTS_PARTITION
    | some engine => .ok (some engine)

section
variable {α : Type} [DecidableEq ε] (envs : ε → Env)

/-- The traffic restriction of a request on one key, for a random number from 1
to 100. -/
def restrictSingle (key : TableKey) (command : Command) (random : UInt32) : Except Status Unit :=
  match service.tableRestriction key with
  | none => .ok ()
  | some restriction =>
    if restriction.denyAll then .error .RS_OPERATION_DENIED
    else
      match restriction.singleOperationLimits command with
      | some limit => if random > limit then .error .RS_TRAFFIC_RESTRICTION else .ok ()
      | none => .error .RS_OPERATION_DENIED

/-- `commonCallEngine` behind the traffic restriction. -/
def callEngine (key : TableKey) (func : ε → LaserKey → RocksDbEngine → Except Status α × RocksDbEngine)
    (engines : ε → RocksDbEngine) : Except Status α × (ε → RocksDbEngine) :=
  match service.getDatabaseEngine key with
  | .ok (some engine) =>
    let result := func engine key.key (engines engine)
    (result.1, update engines engine result.2)
  | .ok none => (.error .SERVICE_NOT_EXISTS_PARTITION, engines)
  | .error status => (.error status, engines)

def commonCallEngine (key : TableKey)
    (func : ε → LaserKey → RocksDbEngine → Except Status α × RocksDbEngine) (command : Command)
    (random : UInt32) (engines : ε → RocksDbEngine) : Except Status α × (ε → RocksDbEngine) :=
  match service.restrictSingle key command random with
  | .error status => (.error status, engines)
  | .ok () => service.callEngine key func engines

def okOr (status : Status) (value : α) : Except Status α :=
  if status = .OK then .ok value else .error status

def getBody (engine : ε) (key : LaserKey) (db : RocksDbEngine) :
    Except Status Bytes × RocksDbEngine :=
  let (status, value) := db.get (envs engine) (getFormatKey key)
  (okOr status value.value, db)

def get (envs : ε → Env) (key : TableKey) (random : UInt32) (engines : ε → RocksDbEngine) :
    Except Status Bytes × (ε → RocksDbEngine) :=
  service.commonCallEngine key (getBody envs) .get random engines

def delkeyBody (engine : ε) (key : LaserKey) (db : RocksDbEngine) :
    Except Status Unit × RocksDbEngine :=
  let (status, _, db) := db.delkey (envs engine) (getFormatKey key)
  (okOr status (), db)

def delkey (envs : ε → Env) (key : TableKey) (random : UInt32) (engines : ε → RocksDbEngine) :
    Except Status Unit × (ε → RocksDbEngine) :=
  service.commonCallEngine key (delkeyBody envs) .delkey random engines

def ssetBody (value : Bytes) (engine : ε) (key : LaserKey) (db : RocksDbEngine) :
    Except Status Nat × RocksDbEngine :=
  let (status, _, db) := db.set (envs engine) (getFormatKey key) value
  (okOr status value.length, db)

def sset (key : TableKey) (value : Bytes) (random : UInt32) (engines : ε → RocksDbEngine) :
    Except Status Nat × (ε → RocksDbEngine) :=
  service.commonCallEngine key (ssetBody envs value) .set random engines

def setxBody (options : SetOptions) (value : Bytes) (engine : ε) (key : LaserKey)
    (db : RocksDbEngine) : Except Status Nat × RocksDbEngine :=
  let (status, _, db) := db.setx (envs engine) (getFormatKey key) value options
  (okOr status value.length, db)

def setx (envs : ε → Env) (key : TableKey) (value : Bytes) (options : SetOptions)
    (random : UInt32) (engines : ε → RocksDbEngine) : Except Status Nat × (ε → RocksDbEngine) :=
  service.commonCallEngine key (setxBody envs options value) .setx random engines

end

variable [DecidableEq ε]

/-- The traffic restriction of a request on many keys, which is that of the first
key: an exception, or a limit to be drawn against for each key. -/
def restrictMultiple (keys : List TableKey) (command : Command) (random : UInt32) :
    Except Status (Option UInt32) :=
  let first := keys.headD ⟨[], [], ⟨[], []⟩⟩
  match service.tableRestriction first with
  | none => .ok none
  | some restriction =>
    if restriction.denyAll then .error .RS_OPERATION_DENIED
    else
      match restriction.multipleOperationLimits command with
      | none => .error .RS_OPERATION_DENIED
      | some limit =>
        if limit.type = .QPS then
          if random > limit.limit then .error .RS_TRAFFIC_RESTRICTION else .ok none
        else .ok (some limit.limit)

/-- The random number of the key at `index` is above the limit for keys. -/
def deniedAt (limit : Option UInt32) (randoms : Nat → UInt32) (index : Nat) : Bool :=
  limit.any fun limit => randoms index > limit

def dispatchKey (limit : Option UInt32) (randoms : Nat → UInt32)
    (state : Nat × List (ε × List DispatchRequestItem)) (key : TableKey) :
    Nat × List (ε × List DispatchRequestItem) :=
  let (index, dispatchKeys) := state
  match service.getDatabaseEngine key with
  | .ok none => (index, dispatchKeys)
  | .ok (some engine) =>
    if deniedAt limit randoms index then
      (index + 1, Scatter.push engine ⟨index, none⟩ dispatchKeys)
    else (index + 1, Scatter.push engine ⟨index, some key.key⟩ dispatchKeys)
  | .error _ => (index + 1, dispatchKeys)

def dispatchRequest (keys : List TableKey) (command : Command) (random : UInt32)
    (randoms : Nat → UInt32) : Except Status (List (ε × List DispatchRequestItem)) := do
  let limit ← service.restrictMultiple keys command random
  return (keys.foldl (service.dispatchKey limit randoms) (0, [])).2

def Dispatches (keys : List TableKey) (command : Command) (random : UInt32)
    (randoms : Nat → UInt32) (tasks : List (ε × List DispatchRequestItem)) : Prop :=
  ∃ inserted, service.dispatchRequest keys command random randoms = .ok inserted ∧
    tasks.Perm inserted

end LaserService

namespace Callback
variable {ε ρ : Type} [DecidableEq ε] (envs : ε → Env) (engines : ε → RocksDbEngine)

def eachItem (handle : ε → DispatchRequestItem → RocksDbEngine → ρ × RocksDbEngine)
    (tasks : List (ε × List DispatchRequestItem)) (state : (ε → RocksDbEngine) × List ρ) :
    (ε → RocksDbEngine) × List ρ :=
  tasks.foldl (fun state task =>
    task.2.foldl (fun state item =>
      let result := handle task.1 item (state.1 task.1)
      (update state.1 task.1 result.2, state.2.set item.index result.1)) state) state

def mgetItem (engine : ε) (item : DispatchRequestItem) (db : RocksDbEngine) :
    LaserValueReply × RocksDbEngine :=
  match item.key with
  | none => (.nullValue, db)
  | some key =>
    match db.get (envs engine) (getFormatKey key) with
    | (.OK, value) => (.stringValue value.value, db)
    | _ => (.nullValue, db)

def mget (engines : ε → RocksDbEngine) (keys : List TableKey)
    (tasks : List (ε × List DispatchRequestItem)) : (ε → RocksDbEngine) × List LaserValueReply :=
  eachItem (mgetItem envs) tasks (engines, replicate keys.length .nullValue)

def mgetDetailItem (engine : ε) (item : DispatchRequestItem) (db : RocksDbEngine) :
    LaserValueReply × RocksDbEngine :=
  match item.key with
  | none => (.entryValue .RS_TRAFFIC_RESTRICTION [], db)
  | some key =>
    match db.get (envs engine) (getFormatKey key) with
    | (.OK, value) => (.entryValue .OK value.value, db)
    | (status, _) => (.entryValue status [], db)

def mgetDetail (engines : ε → RocksDbEngine) (keys : List TableKey)
    (tasks : List (ε × List DispatchRequestItem)) : (ε → RocksDbEngine) × List LaserValueReply :=
  eachItem (mgetDetailItem envs) tasks
    (engines, replicate keys.length (.entryValue .UNKNOWN_ERROR []))

def mdelItem (engine : ε) (item : DispatchRequestItem) (db : RocksDbEngine) :
    LaserValueReply × RocksDbEngine :=
  match item.key with
  | none => (.entryValue .RS_TRAFFIC_RESTRICTION [], db)
  | some key =>
    let (status, _, db) := db.delkey (envs engine) (getFormatKey key)
    (.entryValue status [], db)

def mdel (engines : ε → RocksDbEngine) (keys : List TableKey)
    (tasks : List (ε × List DispatchRequestItem)) : (ε → RocksDbEngine) × List LaserValueReply :=
  eachItem (mdelItem envs) tasks
    (engines, replicate keys.length (.entryValue .UNKNOWN_ERROR []))

def passed (datas : List Bytes) (items : List DispatchRequestItem) :
    List (Nat × LaserKey × Bytes) :=
  items.filterMap fun item => item.key.map fun key => (item.index, key, datas.getD item.index [])

/-- A callback that hands the passed items of a task to the engine as one batch:
first the denied items are answered, then the others with the status of the
batch. -/
def eachBatch (batch : Env → RocksDbEngine → List LaserKeyFormatBase → List Bytes →
      Status × Unit × RocksDbEngine)
    (denied : ρ) (answer : Status → Nat → ρ) (envs : ε → Env) (datas : List Bytes)
    (tasks : List (ε × List DispatchRequestItem)) (state : (ε → RocksDbEngine) × List ρ) :
    (ε → RocksDbEngine) × List ρ :=
  tasks.foldl (fun state task =>
    let refused := task.2.foldl (fun values item =>
      if item.key.isNone then values.set item.index denied else values) state.2
    let pass := passed datas task.2
    let (status, _, db) := batch (envs task.1) (state.1 task.1)
      (pass.map fun item => getFormatKey item.2.1) (pass.map fun item => item.2.2)
    (update state.1 task.1 db,
      pass.foldl (fun values item => values.set item.1 (answer status item.1)) refused)) state

def msetAnswer (status : Status) (index : Nat) : Int64 :=
  if status ≠ .OK then -1 else Int64.ofNat index

def mset (envs : ε → Env) (engines : ε → RocksDbEngine) (datas : List Bytes)
    (tasks : List (ε × List DispatchRequestItem)) : (ε → RocksDbEngine) × List Int64 :=
  eachBatch (fun env db keys datas => db.mset env keys datas) (-1) msetAnswer envs datas tasks
    (engines, replicate datas.length (-1))

def msetDetail (options : SetOptions) (envs : ε → Env) (engines : ε → RocksDbEngine)
    (datas : List Bytes) (tasks : List (ε × List DispatchRequestItem)) :
    (ε → RocksDbEngine) × List LaserValueReply :=
  eachBatch (fun env db keys datas => db.msetx env keys datas options)
    (.entryValue .RS_TRAFFIC_RESTRICTION []) (fun status _ => .entryValue status []) envs datas
    tasks (engines, replicate datas.length (.entryValue .UNKNOWN_ERROR []))

end Callback

end LaserDB
