import LaserDB.Engine.Call
import LaserDB.Library.Linearize

/-!
# The calls on one key, step by step

The operations of the engine on one key as programs: every `Get`, every scan over a snapshot and the
batch at the end is a step of its own.
-/

namespace LaserDB

open RocksDbBatch (idelete iput)
open LaserKeyFormatMapData (ofKey)
open RocksDbEngine SizeMeta

/-- What a call asks of RocksDB; a `Get` may meet an error. -/
inductive Query where
  | get (fault : Option RocksDbFault) (key : Bytes)
  | scan (target : Bytes)

def Query.Answer : Query → Type
  | .get _ _ => Except RocksDbFault (Option Bytes)
  | .scan _ => List (Bytes × Bytes)

def ReplicationDB.answer (db : ReplicationDB) : (query : Query) → query.Answer
  | .get (some fault) _ => .error fault
  | .get none key => .ok (db.store.get key)
  | .scan target => db.store.scan target

abbrev Reads (α : Type) := ExceptT Status (Linearize.Program Query Query.Answer) α

/-- An engine on an empty database, for what depends on the TTL of the table only. -/
def RocksDbEngine.ofTtl (ttl : UInt64) : RocksDbEngine := ⟨⟨.LEADER, OrderedMap.empty⟩, ttl⟩

namespace Reads

section
variable {α β V : Type} [LaserValue V]

def ask (query : Query) : Reads query.Answer :=
  ExceptT.lift (.ask query .finish)

def ofExcept : Except Status α → Reads α
  | .ok value => pure value
  | .error status => throw status

def readOptional (env : Env) (value : V) (key : LaserSerializer) : Reads (Option V) := do
  match ← ask (.get (env.readFault key.rawData) key.rawData) with
  | .error fault => throw (convertRocksDbStatus (.fault fault))
  | .ok none => pure none
  | .ok (some bytes) => pure (some (LaserValue.setRawBuffer value bytes))

def readFound (env : Env) (value : V) (key : LaserSerializer) : Reads V := do
  match ← readOptional env value key with
  | some value => pure value
  | none => throw .RS_NOT_FOUND

def readLive (env : Env) (value : V) (key : LaserKeyFormatBase) : Reads V := do
  let value ← readFound env value key.toLaserSerializer
  let value ← ofExcept (decodeOr .RS_INVALID_ARGUMENT value)
  if checkKeyExpire env value then throw .RS_KEY_EXPIRE
  return value

def iterate (target : LaserSerializer) : Reads (List (Bytes × Bytes)) := ask (.scan target.rawData)

def eval (db : ReplicationDB) (reads : Reads α) : Except Status α :=
  Linearize.Program.eval db.answer reads.run

variable (db : ReplicationDB)

@[simp] theorem eval_pure (value : α) : eval db (pure value : Reads α) = .ok value := rfl

@[simp] theorem eval_throw (status : Status) :
    eval db (throw status : Reads α) = .error status := rfl

@[simp] theorem eval_bind (reads : Reads α) (next : α → Reads β) :
    eval db (reads >>= next) = eval db reads >>= fun value => eval db (next value) := by
  show Linearize.Program.eval db.answer (ExceptT.run reads >>= ExceptT.bindCont next) = _
  rw [Linearize.Program.eval_bind]
  show _ = Except.bind (Linearize.Program.eval db.answer (ExceptT.run reads)) _
  cases Linearize.Program.eval db.answer (ExceptT.run reads) with
  | error | ok => rfl

@[simp] theorem eval_ask (query : Query) : eval db (ask query) = .ok (db.answer query) := rfl

@[simp] theorem eval_ofExcept (result : Except Status α) : eval db (ofExcept result) = result := by
  cases result <;> rfl

@[simp] theorem eval_readOptional (env : Env) (value : V) (key : LaserSerializer) :
    eval db (readOptional env value key) = db.readOptional env value key := by
  simp only [readOptional, eval_bind, eval_ask, ReplicationDB.readOptional, ReplicationDB.read]
  cases env.readFault key.rawData with
  | some fault => cases fault <;> rfl
  | none => cases hget : db.store.get key.rawData <;> simp only [ReplicationDB.answer, hget] <;> rfl

@[simp] theorem eval_readFound (env : Env) (value : V) (key : LaserSerializer) :
    eval db (readFound env value key) = db.readFound env value key := by
  simp only [readFound, eval_bind, eval_readOptional, ReplicationDB.readOptional,
    ReplicationDB.readFound, ReplicationDB.read]
  cases env.readFault key.rawData with
  | some fault => cases fault <;> rfl
  | none => cases db.store.get key.rawData <;> rfl

@[simp] theorem eval_readLive (ttl : UInt64) (env : Env) (value : V) (key : LaserKeyFormatBase) :
    eval db (readLive env value key) = RocksDbEngine.readLive ⟨db, ttl⟩ env value key := by
  simp only [readLive, RocksDbEngine.readLive, eval_bind, eval_readFound, eval_ofExcept]
  congr 1
  funext value
  congr 1
  funext value
  split <;> rfl

@[simp] theorem eval_iterate (target : LaserSerializer) :
    eval db (iterate target) = .ok (db.iterate target) := rfl

end

section

variable (ttl : UInt64) (env : Env) (key : LaserKeyFormatBase)

def append (data : Bytes) : Reads (UInt32 × RocksDbBatch) := do
  let oldValue ← readOptional env LaserValueRawString.new key.toLaserSerializer
  let setData ← match oldValue with
    | some oldValue => do
        let oldValue ← ofExcept (decodeOr .RS_INVALID_ARGUMENT oldValue)
        pure (oldValue.value ++ data)
    | none => pure data
  let value := (ofTtl ttl).setAutoExpire env (LaserValueRawString.ofValue setData)
  return (UInt32.ofNat setData.length, RocksDbBatch.iput [] key.toLaserSerializer value.encode)

def checkNotExists : Reads Unit := do
  let oldValue ← readOptional env LaserValueRawString.new key.toLaserSerializer
  match oldValue with
  | none => pure ()
  | some oldValue =>
    let oldValue ← ofExcept (decodeOr .RS_INVALID_ARGUMENT oldValue)
    if checkKeyExpire env oldValue then pure () else throw .RS_KEY_EXISTS

def setx (data : Bytes) (options : SetOptions) : Reads (Unit × RocksDbBatch) := do
  if options.notExists then checkNotExists env key
  return ((), RocksDbBatch.iput [] key.toLaserSerializer
    ((ofTtl ttl).setxValue env data options))

def setCounterByStep (step : Int64) : Reads (Int64 × RocksDbBatch) := do
  let oldCounter ← readOptional env LaserValueCounter.new key.toLaserSerializer
  let count ← match oldCounter with
    | some oldCounter => do
        let oldCounter ← ofExcept (decodeOr .RS_INVALID_ARGUMENT oldCounter)
        pure oldCounter.value
    | none => pure 0
  let count := count + step
  let value := (ofTtl ttl).setAutoExpire env (LaserValueCounter.ofValue count)
  return (count, RocksDbBatch.iput [] key.toLaserSerializer value.encode)

def delkey : Reads (Option RocksDbBatch) := do
  let some value ← readOptional env (LaserValueFormatBase.ofBuffer []) key.toLaserSerializer
    | return none
  let value ← ofExcept (decodeOr .RS_IO_ERROR value)
  let batch ←
    if value.type = .SET ∨ value.type = .MAP ∨ value.type = .LIST then do
      let entries ← iterate (LaserKeyFormat.ofKey key .COMPOSITE).toLaserSerializer
      pure (entries.foldl (fun (batch : RocksDbBatch) entry =>
        batch.idelete (LaserKeyFormatBase.ofBuffer entry.1).toLaserSerializer) [])
    else pure []
  return some (RocksDbBatch.idelete batch key.toLaserSerializer)

variable (db : ReplicationDB) (ttl : UInt64) (env : Env) (key : LaserKeyFormatBase)

theorem eval_append (data : Bytes) :
    eval db (append ttl env key data) = appendPlan ⟨db, ttl⟩ env key data := by
  simp only [append, appendPlan, eval_bind, eval_readOptional]
  congr 1
  funext oldValue
  cases oldValue with
  | none => rfl
  | some oldValue =>
    simp only [eval_bind, eval_ofExcept]
    rfl

theorem eval_checkNotExists :
    eval db (checkNotExists env key) = RocksDbEngine.checkNotExists ⟨db, ttl⟩ env key := by
  simp only [checkNotExists, RocksDbEngine.checkNotExists, eval_bind, eval_readOptional]
  congr 1
  funext oldValue
  cases oldValue with
  | none => rfl
  | some oldValue =>
    simp only [eval_bind, eval_ofExcept]
    congr 1
    funext oldValue
    split <;> rfl

theorem eval_setx (data : Bytes) (options : SetOptions) :
    eval db (setx ttl env key data options) = setxPlan ⟨db, ttl⟩ env key data options := by
  simp only [setx, setxPlan]
  split
  · simp only [eval_bind, eval_checkNotExists db ttl]
    rfl
  · rfl

theorem eval_setCounterByStep (step : Int64) :
    eval db (setCounterByStep ttl env key step) = setCounterByStepPlan ⟨db, ttl⟩ env key step := by
  simp only [setCounterByStep, setCounterByStepPlan, eval_bind, eval_readOptional]
  congr 1
  funext oldCounter
  cases oldCounter with
  | none => rfl
  | some oldCounter =>
    simp only [eval_bind, eval_ofExcept]
    rfl

theorem eval_delkey : eval db (delkey env key) = db.delkeyPlan env key := by
  simp only [delkey, ReplicationDB.delkeyPlan, eval_bind, eval_readOptional]
  congr 1
  funext value
  cases value with
  | none => rfl
  | some value =>
    simp only [eval_bind, eval_ofExcept]
    congr 1
    funext value
    split <;> rfl

end

variable (ttl : UInt64) (env : Env) (key : LaserKeyFormatBase)

def hset (field value : Bytes) : Reads (Unit × RocksDbBatch) := do
  let metaData ← readOptional env (new : LaserValueMapMeta) key.toLaserSerializer
  let fieldValue := LaserValueRawString.ofValue value
  let mapDataKey := LaserKeyFormatMapData.ofKey key field
  match metaData with
  | some metaData =>
    let oldValue ← readOptional env LaserValueRawString.new mapDataKey.toLaserSerializer
    let metaData ← ofExcept (decodeOr .RS_INVALID_ARGUMENT metaData)
    let batch : RocksDbBatch :=
      match oldValue with
      | none =>
        let metaData := (ofTtl ttl).setAutoExpire env metaData.incrSize.encode
        RocksDbBatch.iput [] key.toLaserSerializer metaData
      | some _ => []
    let fieldValue := (ofTtl ttl).setAutoExpire env fieldValue
    return ((), batch.iput mapDataKey.toLaserSerializer fieldValue)
  | none =>
    let metaData := (ofTtl ttl).setAutoExpire env (new : LaserValueMapMeta).incrSize
    let batch := RocksDbBatch.iput [] key.toLaserSerializer metaData.encode
    return ((), batch.iput mapDataKey.toLaserSerializer fieldValue)

def hmsetIsNew (found : Bool) (field : Bytes) : Reads Bool :=
  if found then do
    let mapDataKey := LaserKeyFormatMapData.ofKey key field
    let oldValue ← readOptional env LaserValueRawString.new mapDataKey.toLaserSerializer
    pure oldValue.isNone
  else pure true

def hmsetLoop (ttl : UInt64) (env : Env) (key : LaserKeyFormatBase) (found : Bool) :
    List (Bytes × Bytes) → LaserValueMapMeta → RocksDbBatch → Reads RocksDbBatch
  | [], _, batch => pure batch
  | (field, value) :: rest, metaData, batch => do
      let fieldValue := (ofTtl ttl).setAutoExpire env (LaserValueRawString.ofValue value)
      let mapDataKey := LaserKeyFormatMapData.ofKey key field
      let isNew ← hmsetIsNew env key found field
      let metaData := if isNew then metaData.incrSize.encode else metaData
      let batch := if isNew then batch.iput key.toLaserSerializer metaData else batch
      hmsetLoop ttl env key found rest metaData
        (batch.iput mapDataKey.toLaserSerializer fieldValue)

def hmset (values : OrderedMap Bytes Bytes) : Reads (Unit × RocksDbBatch) := do
  let metaData ← readOptional env (new : LaserValueMapMeta) key.toLaserSerializer
  let found := metaData.isSome
  let metaData ← match metaData with
    | some metaData => ofExcept (decodeOr .RS_INVALID_ARGUMENT metaData)
    | none => pure new
  let metaData := (ofTtl ttl).setAutoExpire env metaData
  let batch ← hmsetLoop ttl env key found values.entries metaData []
  return ((), batch)

def hdel (field : Bytes) : Reads (Unit × RocksDbBatch) := do
  let metaData ← readFound env (new : LaserValueMapMeta) key.toLaserSerializer
  let metaData ← ofExcept (decodeOr .RS_INVALID_ARGUMENT metaData)
  let mapDataKey := LaserKeyFormatMapData.ofKey key field
  let _ ← readFound env LaserValueRawString.new mapDataKey.toLaserSerializer
  let batch := RocksDbBatch.idelete [] mapDataKey.toLaserSerializer
  return ((), batch.iput key.toLaserSerializer metaData.decrSize.encode)

def listPop (isLeft : Bool) : Reads (LaserValueRawString × RocksDbBatch) := do
  let metaData ← readLive env LaserValueListMeta.new key
  if metaData.getSize = 0 then throw .RS_EMPTY
  let (index, metaData) := if isLeft then metaData.popFront else metaData.popBack
  let batch := RocksDbBatch.iput [] key.toLaserSerializer metaData.encode
  let listDataKey := LaserKeyFormatListData.ofKey key (some index)
  let value ← readFound env LaserValueRawString.new listDataKey.toLaserSerializer
  let value ← ofExcept (decodeOr .RS_INVALID_ARGUMENT value)
  return (value, batch.idelete listDataKey.toLaserSerializer)

def listPush (value : Bytes) (isLeft : Bool) : Reads (Unit × RocksDbBatch) := do
  let metaData ← readOptional env LaserValueListMeta.new key.toLaserSerializer
  let metaData ← match metaData with
    | some metaData => ofExcept (decodeOr .RS_INVALID_ARGUMENT metaData)
    | none => pure LaserValueListMeta.new
  let metaData := (ofTtl ttl).setAutoExpire env metaData
  let (index, metaData) := if isLeft then metaData.pushFront else metaData.pushBack
  let batch := RocksDbBatch.iput [] key.toLaserSerializer metaData.encode
  let listDataKey := LaserKeyFormatListData.ofKey key (some index)
  let itemValue := (ofTtl ttl).setAutoExpire env (LaserValueRawString.ofValue value)
  return ((), batch.iput listDataKey.toLaserSerializer itemValue)

def sadd (member : Bytes) : Reads (Unit × RocksDbBatch) := do
  let metaData ← readOptional env (new : LaserValueSetMeta) key.toLaserSerializer
  let setDataMember := LaserKeyFormatSetData.ofKey key member
  let nullValue := (ofTtl ttl).setAutoExpire env LaserValueRawString.new
  match metaData with
  | some metaData =>
    let oldValue ← readOptional env LaserValueRawString.new setDataMember.toLaserSerializer
    let metaData ← ofExcept (decodeOr .RS_INVALID_ARGUMENT metaData)
    match oldValue with
    | none =>
      let batch := RocksDbBatch.iput [] key.toLaserSerializer metaData.incrSize.encode
      return ((), batch.iput setDataMember.toLaserSerializer nullValue)
    | some _ => return ((), [])
  | none =>
    let metaData := (ofTtl ttl).setAutoExpire env (new : LaserValueSetMeta).incrSize
    let batch := RocksDbBatch.iput [] key.toLaserSerializer metaData.encode
    return ((), batch.iput setDataMember.toLaserSerializer nullValue)

def sdel (member : Bytes) : Reads (Unit × RocksDbBatch) := do
  let metaData ← readFound env (new : LaserValueSetMeta) key.toLaserSerializer
  let setDataMember := LaserKeyFormatSetData.ofKey key member
  let _ ← readFound env LaserValueRawString.new setDataMember.toLaserSerializer
  let metaData ← ofExcept (decodeOr .RS_INVALID_ARGUMENT metaData)
  let batch := RocksDbBatch.iput [] key.toLaserSerializer metaData.decrSize.encode
  return ((), batch.idelete setDataMember.toLaserSerializer)

def zaddRound (found : Bool) (member : Bytes) (score : Int64) (zsetMeta : LaserValueZSetMeta)
    (batch : RocksDbBatch) : Reads (LaserValueZSetMeta × RocksDbBatch) := do
  if found then
    let zsetDataKey := LaserKeyFormatZSetData.ofKey key (some score)
    let membersValue ← readOptional env LaserValueZSet.new zsetDataKey.toLaserSerializer
    let zsetMeta ← ofExcept (decodeOr .RS_INVALID_ARGUMENT zsetMeta)
    match membersValue with
    | some membersValue =>
      let membersValue := membersValue.decode.2
      if member ∈ membersValue.members then
        let zsetMeta := ((ofTtl ttl).setAutoExpire env zsetMeta).encode
        return (zsetMeta, batch.iput key.toLaserSerializer zsetMeta)
      else
        return (ofTtl ttl).zaddWrite env key member score zsetMeta
          (membersValue.addMember member) batch
    | none => return (ofTtl ttl).zaddWrite env key member score zsetMeta LaserValueZSet.new batch
  else return (ofTtl ttl).zaddWrite env key member score zsetMeta LaserValueZSet.new batch

def zaddLoop (ttl : UInt64) (env : Env) (key : LaserKeyFormatBase) (found : Bool) :
    List (Bytes × Int64) → LaserValueZSetMeta → RocksDbBatch → Reads RocksDbBatch
  | [], _, batch => pure batch
  | (member, score) :: rest, zsetMeta, batch => do
      let (zsetMeta, batch) ← zaddRound ttl env key found member score zsetMeta batch
      zaddLoop ttl env key found rest zsetMeta batch

def zadd (memberScores : OrderedMap Bytes Int64) : Reads (Unit × RocksDbBatch) := do
  let zsetMeta ← readOptional env (new : LaserValueZSetMeta) key.toLaserSerializer
  let batch ← zaddLoop ttl env key zsetMeta.isSome memberScores.entries (zsetMeta.getD new) []
  return ((), batch)

variable (db : ReplicationDB) (ttl : UInt64) (env : Env) (key : LaserKeyFormatBase)

theorem eval_hset (field value : Bytes) :
    eval db (hset ttl env key field value) = hsetPlan ⟨db, ttl⟩ env key field value := by
  simp only [hset, hsetPlan, eval_bind, eval_readOptional]
  congr 1
  funext metaData
  cases metaData with
  | none => rfl
  | some metaData =>
    simp only [eval_bind, eval_readOptional, eval_ofExcept]
    rfl

variable (found : Bool)

theorem eval_hmsetIsNew (field : Bytes) :
    eval db (hmsetIsNew env key found field) =
      RocksDbEngine.hmsetIsNew ⟨db, ttl⟩ env key found field := by
  cases found with
  | false => rfl
  | true =>
    simp only [hmsetIsNew, RocksDbEngine.hmsetIsNew, if_true, eval_bind, eval_readOptional]
    rfl

theorem eval_hmsetLoop (values : List (Bytes × Bytes)) (metaData : LaserValueMapMeta)
    (batch : RocksDbBatch) :
    eval db (hmsetLoop ttl env key found values metaData batch) =
      RocksDbEngine.hmsetLoop ⟨db, ttl⟩ env key found values metaData batch := by
  induction values generalizing metaData batch with
  | nil => rfl
  | cons entry rest ih =>
    obtain ⟨field, value⟩ := entry
    simp only [hmsetLoop, RocksDbEngine.hmsetLoop, eval_bind, eval_hmsetIsNew db ttl, ih]
    rfl

theorem eval_hmset (values : OrderedMap Bytes Bytes) :
    eval db (hmset ttl env key values) = hmsetPlan ⟨db, ttl⟩ env key values := by
  simp only [hmset, hmsetPlan, eval_bind, eval_readOptional]
  congr 1
  funext metaData
  cases metaData with
  | none =>
    simp only [eval_bind, eval_pure, eval_hmsetLoop]
    rfl
  | some metaData =>
    simp only [eval_bind, eval_ofExcept, eval_hmsetLoop]
    rfl

theorem eval_hdel (field : Bytes) :
    eval db (hdel env key field) = hdelPlan ⟨db, ttl⟩ env key field := by
  simp only [hdel, hdelPlan, eval_bind, eval_readFound, eval_ofExcept]
  rfl

theorem eval_listPop (isLeft : Bool) :
    eval db (listPop env key isLeft) = listPopPlan ⟨db, ttl⟩ env key isLeft := by
  simp only [listPop, listPopPlan, eval_bind, eval_readLive db ttl]
  congr 1
  funext metaData
  split
  · rfl
  · simp only [eval_bind, eval_readFound, eval_ofExcept]
    rfl

theorem eval_listPush (value : Bytes) (isLeft : Bool) :
    eval db (listPush ttl env key value isLeft) = listPushPlan ⟨db, ttl⟩ env key value isLeft := by
  simp only [listPush, listPushPlan, eval_bind, eval_readOptional]
  congr 1
  funext metaData
  cases metaData with
  | none => rfl
  | some metaData =>
    simp only [eval_bind, eval_ofExcept]
    rfl

variable (member : Bytes)

theorem eval_sadd : eval db (sadd ttl env key member) = saddPlan ⟨db, ttl⟩ env key member := by
  simp only [sadd, saddPlan, eval_bind, eval_readOptional]
  congr 1
  funext metaData
  cases metaData with
  | none => rfl
  | some metaData =>
    simp only [eval_bind, eval_readOptional, eval_ofExcept]
    congr 1
    funext oldValue
    congr 1
    funext metaData
    cases oldValue <;> rfl

theorem eval_sdel : eval db (sdel env key member) = sdelPlan ⟨db, ttl⟩ env key member := by
  simp only [sdel, sdelPlan, eval_bind, eval_readFound, eval_ofExcept]
  rfl

theorem eval_zaddRound (score : Int64) (zsetMeta : LaserValueZSetMeta) (batch : RocksDbBatch) :
    eval db (zaddRound ttl env key found member score zsetMeta batch) =
      RocksDbEngine.zaddRound ⟨db, ttl⟩ env key found member score zsetMeta batch := by
  cases found with
  | false => rfl
  | true =>
    simp only [zaddRound, RocksDbEngine.zaddRound, if_true, eval_bind, eval_readOptional,
      eval_ofExcept]
    congr 1
    funext membersValue
    congr 1
    funext zsetMeta
    cases membersValue with
    | none => rfl
    | some membersValue =>
      dsimp only
      split <;> rfl

theorem eval_zaddLoop (memberScores : List (Bytes × Int64)) (zsetMeta : LaserValueZSetMeta)
    (batch : RocksDbBatch) :
    eval db (zaddLoop ttl env key found memberScores zsetMeta batch) =
      RocksDbEngine.zaddLoop ⟨db, ttl⟩ env key found memberScores zsetMeta batch := by
  induction memberScores generalizing zsetMeta batch with
  | nil => rfl
  | cons entry rest ih =>
    obtain ⟨member, score⟩ := entry
    simp only [zaddLoop, RocksDbEngine.zaddLoop, eval_bind, eval_zaddRound, ih]

theorem eval_zadd (memberScores : OrderedMap Bytes Int64) :
    eval db (zadd ttl env key memberScores) = zaddPlan ⟨db, ttl⟩ env key memberScores := by
  simp only [zadd, zaddPlan, eval_bind, eval_readOptional, eval_zaddLoop]
  rfl

end Reads

end LaserDB
