import LaserDB.Engine.Composite

/-!
# The engine: expiry times, and the calls as one interface

The remaining operations of `RocksDbEngine`, and the engine as a state machine
whose inputs are all of its public operations.
-/

namespace LaserDB
open LaserValue SizeMeta

namespace RocksDbEngine

variable (engine : RocksDbEngine) (env : Env) (batch : RocksDbBatch) (key : LaserKeyFormatBase)
  (timestamp : UInt64)

/-- A stored value with a new timestamp; the result of `decode` is not looked at. -/
def retimed {V : Type} [LaserValue V] (value : V) (timestamp : UInt64) : V :=
  encode (setTimestamp (decode value).2 timestamp)

/-- One round of the loops of `setMapExpire`, `setListExpire`, `setSetExpire` and
`zsetSetExpire`: records whose key or value is not decoded are passed over. -/
def expireEntry {V : Type} [LaserValue V] (decodesKey : Bytes → Bool) (ofBuffer : Bytes → V)
    (timestamp : UInt64) (entry : Bytes × Bytes) : Option BatchWrite :=
  if decodesKey entry.1 then
    match decode (ofBuffer entry.2) with
    | (.accepted, value) =>
      let value := encode (setTimestamp value timestamp)
      some (.put entry.1 (rawData value))
    | _ => none
  else none

def decodesStringKey (key : Bytes) : Bool :=
  (CompositeStringKey.ofBuffer key).decode.1 = .accepted

def setMapExpire : RocksDbBatch :=
  let target := LaserKeyFormatMapData.ofKey key []
  batch ++ (engine.db.iterate target.toLaserSerializer).filterMap
    (expireEntry decodesStringKey LaserValueRawString.ofBuffer timestamp)

def setListExpire : RocksDbBatch :=
  let target := LaserKeyFormatListData.ofKey key none
  batch ++ (engine.db.iterate target.toLaserSerializer).filterMap
    (expireEntry (fun key =>
      (LaserKeyFormatListData.decode (CompositeIntKey.ofBuffer key)).1 = .accepted)
      LaserValueRawString.ofBuffer timestamp)

def setSetExpire : RocksDbBatch :=
  let target := LaserKeyFormatSetData.ofKey key []
  batch ++ (engine.db.iterate target.toLaserSerializer).filterMap
    (expireEntry decodesStringKey LaserValueRawString.ofBuffer timestamp)

def zsetSetExpire : RocksDbBatch :=
  let target := LaserKeyFormatZSetData.ofKey key none
  batch ++ (engine.db.iterate target.toLaserSerializer).filterMap
    (expireEntry (fun key =>
      (LaserKeyFormatZSetData.decode (CompositeIntKey.ofBuffer key)).1 = .accepted)
      LaserValueZSet.ofBuffer timestamp)

def expireAtPlan : Except Status (Unit × RocksDbBatch) := do
  let value ← engine.db.readFound env (LaserValueFormatBase.ofBuffer []) key.toLaserSerializer
  let value ← decodeOr .RS_INVALID_ARGUMENT value
  let put {V : Type} [LaserValue V] (stored : V) : RocksDbBatch :=
    RocksDbBatch.iput [] key.toLaserSerializer (retimed stored timestamp)
  match value.type with
  | .RAW_STRING => return ((), put (LaserValueRawString.ofBuffer value.rawData))
  | .COUNTER => return ((), put (LaserValueCounter.ofBuffer value.rawData))
  | .MAP =>
    let batch := put (ofBuffer value.rawData : LaserValueMapMeta)
    return ((), engine.setMapExpire batch key timestamp)
  | .LIST =>
    let batch := put (LaserValueListMeta.ofBuffer value.rawData)
    return ((), engine.setListExpire batch key timestamp)
  | .SET =>
    let batch := put (ofBuffer value.rawData : LaserValueSetMeta)
    return ((), engine.setSetExpire batch key timestamp)
  | .ZSET =>
    let batch := put (ofBuffer value.rawData : LaserValueZSetMeta)
    return ((), engine.zsetSetExpire batch key timestamp)

def expireAt : Status × Unit × RocksDbEngine :=
  engine.commit env () (engine.expireAtPlan env key timestamp)

def expire (time : UInt64) : Status × Unit × RocksDbEngine :=
  engine.expireAt env key (time + env.now)

/-- A record that is not decoded leaves the timestamp unset in the source; here
it is 0 then. -/
def ttlOf : Status × Int64 :=
  match engine.db.read env (LaserValueFormatBase.ofBuffer []) key.toLaserSerializer with
  | (.RS_NOT_FOUND, _) => (.OK, -2)
  | (.OK, value) =>
    let value := value.decode.2
    let diffTime := (value.timestamp - env.now).toInt64
    if value.timestamp = 0 then (.OK, -1)
    else (.OK, if diffTime < 0 then 0 else diffTime)
  | (status, _) => (status, 0)

end RocksDbEngine

open RocksDbEngine

inductive Call where
  | append (key : LaserKey) (data : Bytes)
  | set (key : LaserKey) (data : Bytes)
  | setx (key : LaserKey) (data : Bytes) (options : SetOptions)
  | exist (key : LaserKey)
  | mset (keys : List LaserKey) (datas : List Bytes)
  | msetx (keys : List LaserKey) (datas : List Bytes) (options : SetOptions)
  | get (key : LaserKey)
  | incr (key : LaserKey) (step : UInt64)
  | decr (key : LaserKey) (step : UInt64)
  | hset (key : LaserKey) (field value : Bytes)
  | hmset (key : LaserKey) (values : OrderedMap Bytes Bytes)
  | hdel (key : LaserKey) (field : Bytes)
  | hget (key : LaserKey) (field : Bytes)
  | hlen (key : LaserKey)
  | hkeys (key : LaserKey)
  | hgetall (key : LaserKey)
  | llen (key : LaserKey)
  | lindex (key : LaserKey) (index : Int64)
  | popFront (key : LaserKey)
  | popBack (key : LaserKey)
  | getList (key : LaserKey)
  | lrange (key : LaserKey) (start endIndex : UInt64)
  | pushFront (key : LaserKey) (value : Bytes)
  | pushBack (key : LaserKey) (value : Bytes)
  | sadd (key : LaserKey) (member : Bytes)
  | hasMember (key : LaserKey) (member : Bytes)
  | getSet (key : LaserKey)
  | sdel (key : LaserKey) (member : Bytes)
  | members (key : LaserKey)
  | zadd (key : LaserKey) (memberScores : OrderedMap Bytes Int64)
  | zrangeByScore (key : LaserKey) (min max : Int64)
  | zremRangeByScore (key : LaserKey) (min max : Int64)
  | delkey (key : LaserKey)
  | expire (key : LaserKey) (time : UInt64)
  | expireAt (key : LaserKey) (timestamp : UInt64)
  | ttl (key : LaserKey)

inductive Payload where
  | nothing
  | length (value : UInt32)
  | number (value : Int64)
  | flag (value : Bool)
  | text (value : Bytes)
  | texts (values : List Bytes)
  | fields (values : OrderedMap Bytes Bytes)
  | scored (values : List (Int64 × Bytes))
  deriving DecidableEq

abbrev Reply := Status × Payload

def replyOf {α : Type} (payload : α → Payload) : Except Status α → Reply
  | .error status => (status, .nothing)
  | .ok value => (.OK, payload value)

def answer {α : Type} (payload : α → Payload) (result : Status × α × RocksDbEngine) :
    Reply × RocksDbEngine := ((result.1, payload result.2.1), result.2.2)

def Call.exec (call : Call) (env : Env) (engine : RocksDbEngine) : Reply × RocksDbEngine :=
  match call with
  | .append key data => answer .length (engine.append env (getFormatKey key) data)
  | .set key data => answer (fun _ => .nothing) (engine.set env (getFormatKey key) data)
  | .setx key data options =>
    answer (fun _ => .nothing) (engine.setx env (getFormatKey key) data options)
  | .exist key =>
    let (status, found) := engine.exist env (getFormatKey key)
    ((status, .flag found), engine)
  | .mset keys datas =>
    answer (fun _ => .nothing) (engine.mset env (keys.map getFormatKey) datas)
  | .msetx keys datas options =>
    answer (fun _ => .nothing) (engine.msetx env (keys.map getFormatKey) datas options)
  | .get key =>
    let (status, value) := engine.get env (getFormatKey key)
    ((status, .text value.value), engine)
  | .incr key step => answer .number (engine.incr env (getFormatKey key) step)
  | .decr key step => answer .number (engine.decr env (getFormatKey key) step)
  | .hset key field value =>
    answer (fun _ => .nothing) (engine.hset env (getFormatKey key) field value)
  | .hmset key values => answer (fun _ => .nothing) (engine.hmset env (getFormatKey key) values)
  | .hdel key field => answer (fun _ => .nothing) (engine.hdel env (getFormatKey key) field)
  | .hget key field =>
    (replyOf (fun value => .text value.value) (engine.hget env (getFormatKey key) field), engine)
  | .hlen key =>
    let (status, value) := engine.hlen env (getFormatKey key)
    ((status, .length value.size), engine)
  | .hkeys key =>
    let (status, keys) := engine.hkeys env (getFormatKey key)
    ((status, .texts (keys.map LaserKeyFormatMapData.getField)), engine)
  | .hgetall key =>
    (replyOf (fun values => .fields (values.mapValues (·.value)))
      (engine.hgetall env (getFormatKey key)), engine)
  | .llen key =>
    let (status, value) := engine.llen env (getFormatKey key)
    ((status, .number value.getSize), engine)
  | .lindex key index =>
    (replyOf (fun value => .text value.value) (engine.lindex env (getFormatKey key) index), engine)
  | .popFront key => answer (fun value => .text value.value) (engine.popFront env (getFormatKey key))
  | .popBack key => answer (fun value => .text value.value) (engine.popBack env (getFormatKey key))
  | .getList key =>
    let (status, value) := engine.getList env (getFormatKey key)
    ((status, .number value.getSize), engine)
  | .lrange key start endIndex =>
    (replyOf (fun values => .texts (values.map (·.value)))
      (engine.lrange env (getFormatKey key) start endIndex), engine)
  | .pushFront key value =>
    answer (fun _ => .nothing) (engine.pushFront env (getFormatKey key) value)
  | .pushBack key value =>
    answer (fun _ => .nothing) (engine.pushBack env (getFormatKey key) value)
  | .sadd key member => answer (fun _ => .nothing) (engine.sadd env (getFormatKey key) member)
  | .hasMember key member =>
    ((engine.hasMember env (getFormatKey key) member, .nothing), engine)
  | .getSet key =>
    let (status, value) := engine.getSet env (getFormatKey key)
    ((status, .length value.size), engine)
  | .sdel key member => answer (fun _ => .nothing) (engine.sdel env (getFormatKey key) member)
  | .members key =>
    (replyOf (fun members => .texts (members.map LaserKeyFormatSetData.getData))
      (engine.members env (getFormatKey key)), engine)
  | .zadd key memberScores =>
    answer (fun _ => .nothing) (engine.zadd env (getFormatKey key) memberScores)
  | .zrangeByScore key min max =>
    (replyOf .scored (engine.zrangeByScore env (getFormatKey key) min max), engine)
  | .zremRangeByScore key min max =>
    answer .number (engine.zremRangeByScore env (getFormatKey key) min max)
  | .delkey key => answer (fun _ => .nothing) (engine.delkey env (getFormatKey key))
  | .expire key time => answer (fun _ => .nothing) (engine.expire env (getFormatKey key) time)
  | .expireAt key timestamp =>
    answer (fun _ => .nothing) (engine.expireAt env (getFormatKey key) timestamp)
  | .ttl key =>
    let (status, value) := engine.ttlOf env (getFormatKey key)
    ((status, .number value), engine)

end LaserDB
