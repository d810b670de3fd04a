import LaserDB.Engine.ReplicationDb

/-!
# The engine: expiry, strings and counters

`RocksDbEngine` of `server/engine/rocksdb.cc`.  The reading half of a mutating call, named `…Plan`,
returns early with a status or yields the result and one batch.  Each call sees one reading of the
clock.
-/

namespace LaserDB
open LaserValue

structure RocksDbEngine where
  db : ReplicationDB
  ttl : UInt64

section
variable {V : Type} [LaserValue V]

def checkKeyExpire (env : Env) (value : V) : Bool :=
  let timestamp := getTimestamp value
  timestamp ≠ 0 && timestamp < env.now

def setExpire (env : Env) (value : V) (ttl : UInt64) : V :=
  if ttl = 0 then value else setTimestamp value (ttl + env.now)

def RocksDbEngine.setAutoExpire (engine : RocksDbEngine) (env : Env) (value : V) : V :=
  if engine.ttl = 0 then value else setExpire env value engine.ttl

/-- Read and decode a value that must exist and must not be expired; the start
of every read of a composite value. -/
def RocksDbEngine.readLive (engine : RocksDbEngine) (env : Env) (value : V)
    (key : LaserKeyFormatBase) : Except Status V := do
  let value ← engine.db.readFound env value key.toLaserSerializer
  let value ← decodeOr .RS_INVALID_ARGUMENT value
  if checkKeyExpire env value then throw .RS_KEY_EXPIRE
  return value

/-- The common body of `get`, `hlen` and `llen`: the value object is returned
also when the key is not found. -/
def RocksDbEngine.getValue (engine : RocksDbEngine) (env : Env) (value : V)
    (key : LaserKeyFormatBase) : Status × V :=
  match engine.db.read env value key.toLaserSerializer with
  | (.OK, value) =>
    match decode value with
    | (.accepted, value) => (if checkKeyExpire env value then .RS_KEY_EXPIRE else .OK, value)
    | (_, value) => (.RS_INVALID_ARGUMENT, value)
  | (status, value) => (if checkKeyExpire env value then .RS_KEY_EXPIRE else status, value)

end

namespace RocksDbEngine

variable (engine : RocksDbEngine) (env : Env) (key : LaserKeyFormatBase)

def commit {α : Type} (engine : RocksDbEngine) (env : Env) (fallback : α)
    (plan : Except Status (α × RocksDbBatch)) : Status × α × RocksDbEngine :=
  match plan with
  | .error status => (status, fallback, engine)
  | .ok (result, batch) =>
    match engine.db.write env batch with
    | (status, db) => (status, result, { engine with db := db })

def appendPlan (data : Bytes) : Except Status (UInt32 × RocksDbBatch) := do
  let oldValue ← engine.db.readOptional env LaserValueRawString.new key.toLaserSerializer
  let setData ← match oldValue with
    | some oldValue => do
        let oldValue ← decodeOr .RS_INVALID_ARGUMENT oldValue
        pure (oldValue.value ++ data)
    | none => pure data
  let value := engine.setAutoExpire env (LaserValueRawString.ofValue setData)
  return (UInt32.ofNat setData.length, RocksDbBatch.iput [] key.toLaserSerializer value.encode)

def append (data : Bytes) : Status × UInt32 × RocksDbEngine :=
  engine.commit env 0 (engine.appendPlan env key data)

def setPlan (data : Bytes) : Except Status (Unit × RocksDbBatch) :=
  let value := engine.setAutoExpire env (LaserValueRawString.ofValue data)
  .ok ((), RocksDbBatch.iput [] key.toLaserSerializer value.encode)

def set (data : Bytes) : Status × Unit × RocksDbEngine :=
  engine.commit env () (engine.setPlan env key data)

structure SetOptions where
  ttl : UInt64 := 0
  notExists : Bool := false
  deriving DecidableEq, Repr

def checkNotExists : Except Status Unit := do
  let oldValue ← engine.db.readOptional env LaserValueRawString.new key.toLaserSerializer
  match oldValue with
  | none => pure ()
  | some oldValue =>
    let oldValue ← decodeOr .RS_INVALID_ARGUMENT oldValue
    if checkKeyExpire env oldValue then pure () else throw .RS_KEY_EXISTS

def setxValue (data : Bytes) (options : SetOptions) : LaserValueRawString :=
  let value := LaserValueRawString.ofValue data
  if options.ttl > 0 then (setExpire env value options.ttl).encode
  else (engine.setAutoExpire env value).encode

def setxPlan (data : Bytes) (options : SetOptions) : Except Status (Unit × RocksDbBatch) := do
  if options.notExists then engine.checkNotExists env key
  return ((), RocksDbBatch.iput [] key.toLaserSerializer (engine.setxValue env data options))

def setx (data : Bytes) (options : SetOptions) : Status × Unit × RocksDbEngine :=
  engine.commit env () (engine.setxPlan env key data options)

def exist (engine : RocksDbEngine) (env : Env) (key : LaserKeyFormatBase) : Status × Bool :=
  match engine.db.exist env LaserValueRawString.new key.toLaserSerializer with
  | (false, _) => (.OK, false)
  | (true, value) =>
    match value.decode with
    | (.accepted, value) => (.OK, !checkKeyExpire env value)
    | _ => (.RS_INVALID_ARGUMENT, false)

def msetPlan (keys : List LaserKeyFormatBase) (datas : List Bytes) :
    Except Status (Unit × RocksDbBatch) :=
  if keys.length ≠ datas.length then .error .RS_INVALID_ARGUMENT
  else
    .ok ((), (keys.zip datas).foldl (fun batch (key, data) =>
      let value := engine.setAutoExpire env (LaserValueRawString.ofValue data)
      batch.iput key.toLaserSerializer value.encode) [])

def mset (keys : List LaserKeyFormatBase) (datas : List Bytes) : Status × Unit × RocksDbEngine :=
  engine.commit env () (engine.msetPlan env keys datas)

/-- A key that fails the `not_exists` test, for whatever reason, is skipped. -/
def msetxPlan (keys : List LaserKeyFormatBase) (datas : List Bytes) (options : SetOptions) :
    Except Status (Unit × RocksDbBatch) :=
  if keys.length ≠ datas.length then .error .RS_INVALID_ARGUMENT
  else
    .ok ((), (keys.zip datas).foldl (fun batch (key, data) =>
      if options.notExists && (engine.checkNotExists env key).toOption.isNone then batch
      else batch.iput key.toLaserSerializer (engine.setxValue env data options)) [])

def msetx (keys : List LaserKeyFormatBase) (datas : List Bytes) (options : SetOptions) :
    Status × Unit × RocksDbEngine :=
  engine.commit env () (engine.msetxPlan env keys datas options)

def get : Status × LaserValueRawString := engine.getValue env LaserValueRawString.new key

def setCounterByStepPlan (step : Int64) : Except Status (Int64 × RocksDbBatch) := do
  let oldCounter ← engine.db.readOptional env LaserValueCounter.new key.toLaserSerializer
  let count ← match oldCounter with
    | some oldCounter => do
        let oldCounter ← decodeOr .RS_INVALID_ARGUMENT oldCounter
        pure oldCounter.value
    | none => pure 0
  let count := count + step
  let value := engine.setAutoExpire env (LaserValueCounter.ofValue count)
  return (count, RocksDbBatch.iput [] key.toLaserSerializer value.encode)

def setCounterByStep (step : Int64) : Status × Int64 × RocksDbEngine :=
  engine.commit env 0 (engine.setCounterByStepPlan env key step)

def incr (step : UInt64) :
    Status × Int64 × RocksDbEngine := engine.setCounterByStep env key step.toInt64

def decr (step : UInt64) :
    Status × Int64 × RocksDbEngine := engine.setCounterByStep env key (-step).toInt64

def delkey (engine : RocksDbEngine) (env : Env) (key : LaserKeyFormatBase) :
    Status × Unit × RocksDbEngine :=
  match engine.db.delkey env key with
  | (status, db) => (status, (), { engine with db := db })

end RocksDbEngine

end LaserDB
