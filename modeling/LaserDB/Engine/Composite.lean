import LaserDB.Engine.RocksDb

/-!
# The engine: hashes, lists, sets and zsets

A composite value is a meta record under the plain key and one data record
for each field, element, member or score under a composite key.
-/

namespace LaserDB
open SizeMeta

namespace RocksDbEngine

variable (engine : RocksDbEngine) (env : Env) (key : LaserKeyFormatBase)

/-- When the hash exists its meta record is encoded before `setAutoExpire`. -/
def hsetPlan (field value : Bytes) : Except Status (Unit × RocksDbBatch) := do
  let metaData ← engine.db.readOptional env (new : LaserValueMapMeta) key.toLaserSerializer
  let fieldValue := LaserValueRawString.ofValue value
  let mapDataKey := LaserKeyFormatMapData.ofKey key field
  match metaData with
  | some metaData =>
    let oldValue ← engine.db.readOptional env LaserValueRawString.new mapDataKey.toLaserSerializer
    let metaData ← decodeOr .RS_INVALID_ARGUMENT metaData
    let batch : RocksDbBatch :=
      match oldValue with
      | none =>
        let metaData := engine.setAutoExpire env metaData.incrSize.encode
        RocksDbBatch.iput [] key.toLaserSerializer metaData
      | some _ => []
    let fieldValue := engine.setAutoExpire env fieldValue
    return ((), batch.iput mapDataKey.toLaserSerializer fieldValue)
  | none =>
    let metaData := engine.setAutoExpire env (new : LaserValueMapMeta).incrSize
    let batch := RocksDbBatch.iput [] key.toLaserSerializer metaData.encode
    return ((), batch.iput mapDataKey.toLaserSerializer fieldValue)

def hset (field value : Bytes) : Status × Unit × RocksDbEngine :=
  engine.commit env () (engine.hsetPlan env key field value)

/-- Whether `hmset` counts a field: always in a new hash, else when its record is
not found.  `found` says whether the meta record was read. -/
def hmsetIsNew (found : Bool) (field : Bytes) : Except Status Bool :=
  if found then do
    let mapDataKey := LaserKeyFormatMapData.ofKey key field
    let oldValue ← engine.db.readOptional env LaserValueRawString.new mapDataKey.toLaserSerializer
    pure oldValue.isNone
  else pure true

def hmsetLoop (engine : RocksDbEngine) (env : Env) (key : LaserKeyFormatBase) (found : Bool) :
    List (Bytes × Bytes) → LaserValueMapMeta → RocksDbBatch → Except Status RocksDbBatch
  | [], _, batch => .ok batch
  | (field, value) :: rest, metaData, batch => do
      let fieldValue := engine.setAutoExpire env (LaserValueRawString.ofValue value)
      let mapDataKey := LaserKeyFormatMapData.ofKey key field
      let isNew ← engine.hmsetIsNew env key found field
      let metaData := if isNew then metaData.incrSize.encode else metaData
      let batch := if isNew then batch.iput key.toLaserSerializer metaData else batch
      hmsetLoop engine env key found rest metaData
        (batch.iput mapDataKey.toLaserSerializer fieldValue)

def hmsetPlan (values : OrderedMap Bytes Bytes) : Except Status (Unit × RocksDbBatch) := do
  let metaData ← engine.db.readOptional env (new : LaserValueMapMeta) key.toLaserSerializer
  let found := metaData.isSome
  let metaData ← match metaData with
    | some metaData => decodeOr .RS_INVALID_ARGUMENT metaData
    | none => pure new
  let metaData := engine.setAutoExpire env metaData
  let batch ← engine.hmsetLoop env key found values.entries metaData []
  return ((), batch)

def hmset (values : OrderedMap Bytes Bytes) : Status × Unit × RocksDbEngine :=
  engine.commit env () (engine.hmsetPlan env key values)

def hdelPlan (field : Bytes) : Except Status (Unit × RocksDbBatch) := do
  let metaData ← engine.db.readFound env (new : LaserValueMapMeta) key.toLaserSerializer
  let metaData ← decodeOr .RS_INVALID_ARGUMENT metaData
  let mapDataKey := LaserKeyFormatMapData.ofKey key field
  let _ ← engine.db.readFound env LaserValueRawString.new mapDataKey.toLaserSerializer
  let batch := RocksDbBatch.idelete [] mapDataKey.toLaserSerializer
  return ((), batch.iput key.toLaserSerializer metaData.decrSize.encode)

def hdel (field : Bytes) : Status × Unit × RocksDbEngine :=
  engine.commit env () (engine.hdelPlan env key field)

def hget (field : Bytes) : Except Status LaserValueRawString := do
  let _ ← engine.readLive env (new : LaserValueMapMeta) key
  let mapDataKey := LaserKeyFormatMapData.ofKey key field
  let value ← engine.db.readFound env LaserValueRawString.new mapDataKey.toLaserSerializer
  decodeOr .RS_INVALID_ARGUMENT value

def hlen : Status × LaserValueMapMeta := engine.getValue env new key

/-- The loop of `hkeys` stops at the first key that is not decoded. -/
def hkeysLoop : List (Bytes × Bytes) → List LaserKeyFormatMapData →
    Status × List LaserKeyFormatMapData
  | [], keys => (.OK, keys)
  | entry :: rest, keys =>
    match (CompositeStringKey.ofBuffer entry.1).decode with
    | (.accepted, mapDataKey) => hkeysLoop rest (keys ++ [mapDataKey])
    | _ => (.RS_INVALID_ARGUMENT, keys)

def hkeys : Status × List LaserKeyFormatMapData :=
  match engine.readLive env (new : LaserValueMapMeta) key with
  | .error status => (status, [])
  | .ok _ =>
    let target := LaserKeyFormatMapData.ofKey key []
    hkeysLoop (engine.db.iterate target.toLaserSerializer) []

/-- One round of the loop of `hgetall`: what it enters into the result. -/
def hgetallEntry (entry : Bytes × Bytes) : Option (Bytes × LaserValueRawString) :=
  match (CompositeStringKey.ofBuffer entry.1).decode with
  | (.accepted, mapDataKey) =>
    match (LaserValueRawString.ofBuffer entry.2).decode with
    | (.accepted, mapValue) =>
      some (LaserKeyFormatMapData.getField mapDataKey, mapValue)
    | _ => none
  | _ => none

def hgetall : Except Status (OrderedMap Bytes LaserValueRawString) := do
  let _ ← engine.readLive env (new : LaserValueMapMeta) key
  let target := LaserKeyFormatMapData.ofKey key []
  let found := (engine.db.iterate target.toLaserSerializer).filterMap hgetallEntry
  return found.foldl (fun values entry => values.put entry.1 entry.2) OrderedMap.empty

def llen : Status × LaserValueListMeta := engine.getValue env LaserValueListMeta.new key

def lindex (index : Int64) : Except Status LaserValueRawString := do
  let listMeta ← engine.readLive env LaserValueListMeta.new key
  let targetIndex :=
    if index ≥ 0 then listMeta.start + index + 1 else listMeta.endIndex + index
  let listDataKey := LaserKeyFormatListData.ofKey key (some targetIndex)
  let value ← engine.db.readFound env LaserValueRawString.new listDataKey.toLaserSerializer
  decodeOr .RS_INVALID_ARGUMENT value

def listPopPlan (isLeft : Bool) : Except Status (LaserValueRawString × RocksDbBatch) := do
  let metaData ← engine.readLive env LaserValueListMeta.new key
  if metaData.getSize = 0 then throw .RS_EMPTY
  let (index, metaData) := if isLeft then metaData.popFront else metaData.popBack
  let batch := RocksDbBatch.iput [] key.toLaserSerializer metaData.encode
  let listDataKey := LaserKeyFormatListData.ofKey key (some index)
  let value ← engine.db.readFound env LaserValueRawString.new listDataKey.toLaserSerializer
  let value ← decodeOr .RS_INVALID_ARGUMENT value
  return (value, batch.idelete listDataKey.toLaserSerializer)

def listPop (isLeft : Bool) : Status × LaserValueRawString × RocksDbEngine :=
  engine.commit env LaserValueRawString.new (engine.listPopPlan env key isLeft)

def popFront : Status × LaserValueRawString × RocksDbEngine := engine.listPop env key true

def popBack : Status × LaserValueRawString × RocksDbEngine := engine.listPop env key false

/-- The `get` of a list meta record answers OK for a key that is not found. -/
def getList : Status × LaserValueListMeta :=
  match engine.getValue env LaserValueListMeta.new key with
  | (.RS_NOT_FOUND, value) => (.OK, value)
  | result => result

def lrangeEntry (targetIndexStart targetIndexEnd : Int64) (entry : Bytes × Bytes) :
    Option LaserValueRawString :=
  match LaserKeyFormatListData.decode (CompositeIntKey.ofBuffer entry.1) with
  | (.accepted, listDataKey) =>
    let index := LaserKeyFormatListData.getIndex listDataKey
    if index < targetIndexStart then none
    else if index > targetIndexEnd then none
    else
      match (LaserValueRawString.ofBuffer entry.2).decode with
      | (.accepted, listValue) => some listValue
      | _ => none
  | _ => none

/-- The two bounds are sums of an `int64_t` and a `uint64_t`. -/
def lrange (start endIndex : UInt64) : Except Status (List LaserValueRawString) := do
  let listMeta ← engine.readLive env LaserValueListMeta.new key
  let targetIndexStart := listMeta.start + start.toInt64 + 1
  let targetIndexEnd :=
    if endIndex > 0 then listMeta.start + endIndex.toInt64 else listMeta.endIndex - 1
  if endIndex > 0 ∧ endIndex ≤ start then throw .RS_INVALID_ARGUMENT
  if targetIndexStart > listMeta.endIndex ∨ targetIndexEnd > listMeta.endIndex then
    throw .RS_INVALID_ARGUMENT
  let target := LaserKeyFormatListData.ofKey key none
  return (engine.db.iterate target.toLaserSerializer).filterMap
    (lrangeEntry targetIndexStart targetIndexEnd)

def listPushPlan (value : Bytes) (isLeft : Bool) : Except Status (Unit × RocksDbBatch) := do
  let metaData ← engine.db.readOptional env LaserValueListMeta.new key.toLaserSerializer
  let metaData ← match metaData with
    | some metaData => decodeOr .RS_INVALID_ARGUMENT metaData
    | none => pure LaserValueListMeta.new
  let metaData := engine.setAutoExpire env metaData
  let (index, metaData) := if isLeft then metaData.pushFront else metaData.pushBack
  let batch := RocksDbBatch.iput [] key.toLaserSerializer metaData.encode
  let listDataKey := LaserKeyFormatListData.ofKey key (some index)
  let itemValue := engine.setAutoExpire env (LaserValueRawString.ofValue value)
  return ((), batch.iput listDataKey.toLaserSerializer itemValue)

def listPush (value : Bytes) (isLeft : Bool) : Status × Unit × RocksDbEngine :=
  engine.commit env () (engine.listPushPlan env key value isLeft)

def pushFront (value : Bytes) : Status × Unit × RocksDbEngine := engine.listPush env key value true

def pushBack (value : Bytes) : Status × Unit × RocksDbEngine := engine.listPush env key value false

/-- The value of a member record is never encoded: its bytes are empty. -/
def saddPlan (member : Bytes) : Except Status (Unit × RocksDbBatch) := do
  let metaData ← engine.db.readOptional env (new : LaserValueSetMeta) key.toLaserSerializer
  let setDataMember := LaserKeyFormatSetData.ofKey key member
  let nullValue := engine.setAutoExpire env LaserValueRawString.new
  match metaData with
  | some metaData =>
    let oldValue ←
      engine.db.readOptional env LaserValueRawString.new setDataMember.toLaserSerializer
    let metaData ← decodeOr .RS_INVALID_ARGUMENT metaData
    match oldValue with
    | none =>
      let batch := RocksDbBatch.iput [] key.toLaserSerializer metaData.incrSize.encode
      return ((), batch.iput setDataMember.toLaserSerializer nullValue)
    | some _ => return ((), [])
  | none =>
    let metaData := engine.setAutoExpire env (new : LaserValueSetMeta).incrSize
    let batch := RocksDbBatch.iput [] key.toLaserSerializer metaData.encode
    return ((), batch.iput setDataMember.toLaserSerializer nullValue)

def sadd (member : Bytes) : Status × Unit × RocksDbEngine :=
  engine.commit env () (engine.saddPlan env key member)

def hasMember (member : Bytes) : Status :=
  match engine.readLive env (new : LaserValueSetMeta) key with
  | .error status => status
  | .ok _ =>
    let setDataMember := LaserKeyFormatSetData.ofKey key member
    (engine.db.read env LaserValueRawString.new setDataMember.toLaserSerializer).1

def getSet : Status × LaserValueSetMeta := engine.getValue env new key

def sdelPlan (member : Bytes) : Except Status (Unit × RocksDbBatch) := do
  let metaData ← engine.db.readFound env (new : LaserValueSetMeta) key.toLaserSerializer
  let setDataMember := LaserKeyFormatSetData.ofKey key member
  let _ ← engine.db.readFound env LaserValueRawString.new setDataMember.toLaserSerializer
  let metaData ← decodeOr .RS_INVALID_ARGUMENT metaData
  let batch := RocksDbBatch.iput [] key.toLaserSerializer metaData.decrSize.encode
  return ((), batch.idelete setDataMember.toLaserSerializer)

def sdel (member : Bytes) : Status × Unit × RocksDbEngine :=
  engine.commit env () (engine.sdelPlan env key member)

def membersEntry (entry : Bytes × Bytes) : Option LaserKeyFormatSetData :=
  match (CompositeStringKey.ofBuffer entry.1).decode with
  | (.accepted, setDataMember) => some setDataMember
  | _ => none

def members : Except Status (List LaserKeyFormatSetData) := do
  let _ ← engine.readLive env (new : LaserValueSetMeta) key
  let target := LaserKeyFormatSetData.ofKey key []
  return (engine.db.iterate target.toLaserSerializer).filterMap membersEntry

/-- The end of one round of `zadd`: the meta record and the members of a score.
A record without members is new and counts. -/
def zaddWrite (member : Bytes) (score : Int64) (zsetMeta : LaserValueZSetMeta)
    (membersValue : LaserValueZSet) (batch : RocksDbBatch) : LaserValueZSetMeta × RocksDbBatch :=
  let (zsetMeta, membersValue) :=
    if membersValue.members.length = 0 then (zsetMeta.incrSize, membersValue.addMember member)
    else (zsetMeta, membersValue)
  let zsetMeta := (engine.setAutoExpire env zsetMeta).encode
  let batch := batch.iput key.toLaserSerializer zsetMeta
  let membersValue := (engine.setAutoExpire env membersValue).encode
  let zsetDataKey := LaserKeyFormatZSetData.ofKey key (some score)
  (zsetMeta, batch.iput zsetDataKey.toLaserSerializer membersValue)

/-- One round of `zadd`.  The members are read from the database, which does not
see the batch of this call. -/
def zaddRound (found : Bool) (member : Bytes) (score : Int64) (zsetMeta : LaserValueZSetMeta)
    (batch : RocksDbBatch) : Except Status (LaserValueZSetMeta × RocksDbBatch) := do
  if found then
    let zsetDataKey := LaserKeyFormatZSetData.ofKey key (some score)
    let membersValue ← engine.db.readOptional env LaserValueZSet.new zsetDataKey.toLaserSerializer
    let zsetMeta ← decodeOr .RS_INVALID_ARGUMENT zsetMeta
    match membersValue with
    | some membersValue =>
      let membersValue := membersValue.decode.2
      if member ∈ membersValue.members then
        let zsetMeta := (engine.setAutoExpire env zsetMeta).encode
        return (zsetMeta, batch.iput key.toLaserSerializer zsetMeta)
      else
        return engine.zaddWrite env key member score zsetMeta (membersValue.addMember member) batch
    | none => return engine.zaddWrite env key member score zsetMeta LaserValueZSet.new batch
  else return engine.zaddWrite env key member score zsetMeta LaserValueZSet.new batch

def zaddLoop (engine : RocksDbEngine) (env : Env) (key : LaserKeyFormatBase) (found : Bool) :
    List (Bytes × Int64) → LaserValueZSetMeta → RocksDbBatch → Except Status RocksDbBatch
  | [], _, batch => .ok batch
  | (member, score) :: rest, zsetMeta, batch => do
      let (zsetMeta, batch) ← engine.zaddRound env key found member score zsetMeta batch
      zaddLoop engine env key found rest zsetMeta batch

def zaddPlan (memberScores : OrderedMap Bytes Int64) : Except Status (Unit × RocksDbBatch) := do
  let zsetMeta ← engine.db.readOptional env (new : LaserValueZSetMeta) key.toLaserSerializer
  let batch ← engine.zaddLoop env key zsetMeta.isSome memberScores.entries (zsetMeta.getD new) []
  return ((), batch)

def zadd (memberScores : OrderedMap Bytes Int64) : Status × Unit × RocksDbEngine :=
  engine.commit env () (engine.zaddPlan env key memberScores)

/-- The records on which `rangeZset` runs its callback, in order.  A range with
both signs is read in two loops, the first of which has no upper end. -/
def rangeZset (min max : Int64) (key : LaserKeyFormatBase) (store : Store) :
    List (Bytes × Bytes) :=
  let keyMin := (LaserKeyFormatZSetData.ofKey key (some min)).rawData
  let keyMax := (LaserKeyFormatZSetData.ofKey key (some max)).rawData
  let keyZero := (LaserKeyFormatZSetData.ofKey key (some 0)).rawData
  if max < 0 then
    (store.seek keyMin).takeWhile fun entry => keyMin ≤ entry.1 ∧ entry.1 ≤ keyMax
  else if min < 0 ∧ max ≥ 0 then
    ((store.seek keyMin).takeWhile fun entry => keyMin ≤ entry.1) ++
      (store.seek keyZero).takeWhile fun entry => keyZero ≤ entry.1 ∧ entry.1 ≤ keyMax
  else
    (store.seek keyMin).takeWhile fun entry => keyMin ≤ entry.1 ∧ entry.1 ≤ keyMax

def scoreMembers (entry : Bytes × Bytes) : List (Int64 × Bytes) :=
  match LaserKeyFormatZSetData.decode (CompositeIntKey.ofBuffer entry.1) with
  | (.accepted, zsetDataKey) =>
    match (LaserValueZSet.ofBuffer entry.2).decode with
    | (.accepted, zsetValue) =>
      zsetValue.members.map fun member =>
        (LaserKeyFormatZSetData.getScore zsetDataKey, member)
    | _ => []
  | _ => []

def zrangeByScore (min max : Int64) : Except Status (List (Int64 × Bytes)) := do
  if min > max then return []
  let _ ← engine.readLive env (new : LaserValueZSetMeta) key
  return (rangeZset min max key engine.db.store).flatMap scoreMembers

/-- The callback of `zremRangeByScore`: the meta record loses one, the batch
gains a delete, the number grows. -/
def zremEntry (state : LaserValueZSetMeta × RocksDbBatch × Int64) (entry : Bytes × Bytes) :
    LaserValueZSetMeta × RocksDbBatch × Int64 :=
  match LaserKeyFormatZSetData.decode (CompositeIntKey.ofBuffer entry.1) with
  | (.accepted, zsetDataKey) =>
    (state.1.decrSize, state.2.1.idelete zsetDataKey.toLaserSerializer, state.2.2 + 1)
  | _ => state

def zremRangeByScorePlan (min max : Int64) : Except Status (Int64 × RocksDbBatch) := do
  let zsetMeta ← engine.readLive env (new : LaserValueZSetMeta) key
  let (zsetMeta, batch, number) :=
    (rangeZset min max key engine.db.store).foldl zremEntry (zsetMeta, [], 0)
  if zsetMeta.size = 0 then return (number, batch.idelete key.toLaserSerializer)
  return (number, batch.iput key.toLaserSerializer zsetMeta.encode)

def zremRangeByScore (min max : Int64) : Status × Int64 × RocksDbEngine :=
  if min > max then (.OK, 0, engine)
  else engine.commit env 0 (engine.zremRangeByScorePlan env key min max)

end RocksDbEngine

end LaserDB
