import LaserDB.Refinement.Keyed

/-!
# The batch of a call

The batch of a call on one key depends on the records of that key only, unless it is a
`zremRangeByScore` whose range has both signs.
-/

namespace LaserDB

open Call (exec)
open ByteCodec RocksDbEngine List OrderedMap

def committed {α : Type} (env : Env) (role : DBRole) (plan : Except Status (α × RocksDbBatch)) :
    RocksDbBatch :=
  match plan, role, env.writeFault with
  | .ok (_, batch), .LEADER, none => batch
  | _, _, _ => []

variable {call : Call}

namespace Call

def key : Call → Option LaserKey
  | .mset _ _ | .msetx _ _ _ => none
  | .append key _ | .set key _ | .setx key _ _ | .exist key | .get key | .incr key _ | .decr key _
  | .hset key _ _ | .hmset key _ | .hdel key _ | .hget key _ | .hlen key | .hkeys key
  | .hgetall key | .llen key | .lindex key _ | .popFront key | .popBack key | .getList key
  | .lrange key _ _ | .pushFront key _ | .pushBack key _ | .sadd key _ | .hasMember key _
  | .getSet key | .sdel key _ | .members key | .zadd key _ | .zrangeByScore key _ _
  | .zremRangeByScore key _ _ | .delkey key | .expire key _ | .expireAt key _ | .ttl key => some key

def keys : Call → List LaserKey
  | .mset keys _ | .msetx keys _ _ => keys
  | call => call.key.toList

/-- The type of value that a call is for; `delkey` and the calls about expiry
take every type. -/
def valueType : Call → Option ValueType
  | .append _ _ | .set _ _ | .setx _ _ _ | .exist _ | .mset _ _ | .msetx _ _ _ | .get _ =>
    some .RAW_STRING
  | .incr _ _ | .decr _ _ => some .COUNTER
  | .hset _ _ _ | .hmset _ _ | .hdel _ _ | .hget _ _ | .hlen _ | .hkeys _ | .hgetall _ => some .MAP
  | .llen _ | .lindex _ _ | .popFront _ | .popBack _ | .getList _ | .lrange _ _ _
  | .pushFront _ _ | .pushBack _ _ => some .LIST
  | .sadd _ _ | .hasMember _ _ | .getSet _ | .sdel _ _ | .members _ => some .SET
  | .zadd _ _ | .zrangeByScore _ _ _ | .zremRangeByScore _ _ _ => some .ZSET
  | .delkey _ | .expire _ _ | .expireAt _ _ | .ttl _ => none

def OneSided : Call → Prop
  | .zremRangeByScore _ min max => max < 0 ∨ 0 ≤ min
  | _ => True

instance (call : Call) : Decidable call.OneSided := by
  unfold OneSided
  split <;> infer_instance

/-- A range of scores, to read or to delete, lies on one side of 0. -/
def Narrow : Call → Prop
  | .zrangeByScore _ min max | .zremRangeByScore _ min max => max < 0 ∨ 0 ≤ min
  | _ => True

theorem Narrow.oneSided (hnarrow : call.Narrow) : call.OneSided := by
  cases call with
  | zremRangeByScore => exact hnarrow
  | _ => trivial

def batch (env : Env) (engine : RocksDbEngine) : Call → RocksDbBatch
  | .append key data =>
    committed env engine.db.role (engine.appendPlan env (getFormatKey key) data)
  | .set key data => committed env engine.db.role (engine.setPlan env (getFormatKey key) data)
  | .setx key data options =>
    committed env engine.db.role (engine.setxPlan env (getFormatKey key) data options)
  | .mset keys datas =>
    committed env engine.db.role (engine.msetPlan env (keys.map getFormatKey) datas)
  | .msetx keys datas options =>
    committed env engine.db.role (engine.msetxPlan env (keys.map getFormatKey) datas options)
  | .incr key step => committed env engine.db.role
      (engine.setCounterByStepPlan env (getFormatKey key) step.toInt64)
  | .decr key step => committed env engine.db.role
      (engine.setCounterByStepPlan env (getFormatKey key) (-step).toInt64)
  | .hset key field value =>
    committed env engine.db.role (engine.hsetPlan env (getFormatKey key) field value)
  | .hmset key values =>
    committed env engine.db.role (engine.hmsetPlan env (getFormatKey key) values)
  | .hdel key field => committed env engine.db.role (engine.hdelPlan env (getFormatKey key) field)
  | .popFront key => committed env engine.db.role (engine.listPopPlan env (getFormatKey key) true)
  | .popBack key => committed env engine.db.role (engine.listPopPlan env (getFormatKey key) false)
  | .pushFront key value =>
    committed env engine.db.role (engine.listPushPlan env (getFormatKey key) value true)
  | .pushBack key value =>
    committed env engine.db.role (engine.listPushPlan env (getFormatKey key) value false)
  | .sadd key member => committed env engine.db.role (engine.saddPlan env (getFormatKey key) member)
  | .sdel key member => committed env engine.db.role (engine.sdelPlan env (getFormatKey key) member)
  | .zadd key memberScores =>
    committed env engine.db.role (engine.zaddPlan env (getFormatKey key) memberScores)
  | .zremRangeByScore key min max =>
    if min > max then []
    else committed env engine.db.role (engine.zremRangeByScorePlan env (getFormatKey key) min max)
  | .delkey key => committed env engine.db.role
      ((engine.db.delkeyPlan env (getFormatKey key)).map fun batch => ((), batch.getD []))
  | .expire key time => committed env engine.db.role
      (engine.expireAtPlan env (getFormatKey key) (time + env.now))
  | .expireAt key timestamp =>
    committed env engine.db.role (engine.expireAtPlan env (getFormatKey key) timestamp)
  | _ => []

end Call

variable {engine : RocksDbEngine} {env : Env}

theorem commit_engine (fallback : α) (plan : Except Status (α × RocksDbBatch)) :
    (engine.commit env fallback plan).2.2 =
      engine.withStore ((committed env engine.db.role plan).apply engine.db.store) := by
  cases plan with
  | error status => rfl
  | ok result =>
    rcases engine with ⟨⟨role, store⟩, ttl⟩
    rcases env with ⟨now, readFault, writeFault, inMemory⟩
    cases role <;> cases writeFault <;> rfl

theorem delkey_engine (key : LaserKeyFormatBase) :
    (engine.delkey env key).2.2 = engine.withStore ((committed env engine.db.role
        ((engine.db.delkeyPlan env key).map fun batch => ((), batch.getD []))).apply
          engine.db.store) := by
  unfold RocksDbEngine.delkey ReplicationDB.delkey
  rcases engine.db.delkeyPlan env key with status | batch | batch
  · rfl
  · unfold committed
    cases engine.db.role <;> cases env.writeFault <;> rfl
  · rcases engine with ⟨⟨role, store⟩, ttl⟩
    rcases env with ⟨now, readFault, writeFault, inMemory⟩
    cases role <;> cases writeFault <;> rfl

theorem exec_engine (call : Call) :
    (call.exec env engine).2 =
      engine.withStore ((call.batch env engine).apply engine.db.store) := by
  cases call with
  | zremRangeByScore key min max =>
    simp only [exec, Call.batch, answer, zremRangeByScore]
    split
    · rfl
    · exact commit_engine _ _
  | delkey key => exact delkey_engine _
  | append | set | setx | mset | msetx | incr | decr | hset | hmset | hdel | popFront | popBack
  | pushFront | pushBack | sadd | sdel | zadd | expire | expireAt =>
    simp only [exec, Call.batch, answer, append, RocksDbEngine.set, setx, mset, msetx, incr,
      decr, setCounterByStep, hset, hmset, hdel, popFront, popBack, listPop, pushFront, pushBack,
      listPush, sadd, sdel, zadd, expire, expireAt, commit_engine]
  | exist | get | hget | hlen | hkeys | hgetall | llen | lindex | getList | lrange | hasMember
  | getSet | members | zrangeByScore | ttl => rfl

theorem rangeZset_oneSided (store : Store) (key : LaserKey) {min max : Int64}
    (hone : max < 0 ∨ 0 ≤ min) :
    rangeZset min max (getFormatKey key) store =
      ((slot store key).records.entries.filter fun entry =>
        intBytes .big min ≤ entry.1 ∧ entry.1 ≤ intBytes .big max).map
          fun entry => (key.stem ++ entry.1, entry.2) := by
  have hstraddle : ¬(min < 0 ∧ max ≥ 0) := by
    rintro ⟨hmin, hmax⟩
    rcases hone with hneg | hpos
    · exact Int64.not_le.mpr hneg hmax
    · exact Int64.not_le.mpr hmin hpos
  simp only [rangeZset, zsetData_rawData, if_neg hstraddle, ite_self,
    takeWhile_between, filter_between_append]
  rfl

variable {store : Store}

variable {options : SetOptions}

section
variable {key : LaserKey} (hslot : slot store key = slot engine.db.store key)
include hslot

variable {target : LaserSerializer}

section
variable {V : Type} [LaserValue V] (value : V)

theorem get_head_local :
    store.get (getFormatKey key).toLaserSerializer.rawData =
      engine.db.store.get (getFormatKey key).toLaserSerializer.rawData :=
  congrArg Slot.head hslot

theorem get_record_local (suffix : Bytes) :
    store.get (key.stem ++ suffix) = engine.db.store.get (key.stem ++ suffix) := by
  rw [← get_under, ← get_under]
  exact congrArg (fun slot => slot.records.get suffix) hslot

omit hslot in
theorem read_withStore (hget : store.get target.rawData = engine.db.store.get target.rawData) :
    (engine.withStore store).db.read env value target = engine.db.read env value target := by
  simp only [ReplicationDB.read, withStore_store, hget]

theorem readOptional_head_local :
    (engine.withStore store).db.readOptional env value (getFormatKey key).toLaserSerializer =
      engine.db.readOptional env value (getFormatKey key).toLaserSerializer := by
  simp only [ReplicationDB.readOptional, read_withStore value (get_head_local hslot)]

theorem readFound_head_local :
    (engine.withStore store).db.readFound env value (getFormatKey key).toLaserSerializer =
      engine.db.readFound env value (getFormatKey key).toLaserSerializer := by
  simp only [ReplicationDB.readFound, read_withStore value (get_head_local hslot)]

theorem getValue_local :
    (engine.withStore store).getValue env value (getFormatKey key) =
      engine.getValue env value (getFormatKey key) := by
  simp only [getValue, read_withStore value (get_head_local hslot)]

theorem exist_local :
    (engine.withStore store).exist env (getFormatKey key) =
      engine.exist env (getFormatKey key) := by
  simp only [exist, ReplicationDB.exist, withStore_store, get_head_local hslot]

theorem readLive_local :
    (engine.withStore store).readLive env value (getFormatKey key) =
      engine.readLive env value (getFormatKey key) := by
  simp only [readLive, readFound_head_local hslot]

variable {target : LaserSerializer} {suffix : Bytes}
  (htarget : target.rawData = key.stem ++ suffix)
include htarget

theorem readOptional_record_local :
    (engine.withStore store).db.readOptional env value target =
      engine.db.readOptional env value target := by
  have hget := get_record_local hslot suffix
  rw [← htarget] at hget
  simp only [ReplicationDB.readOptional, read_withStore value hget]

theorem readFound_record_local :
    (engine.withStore store).db.readFound env value target =
      engine.db.readFound env value target := by
  have hget := get_record_local hslot suffix
  rw [← htarget] at hget
  simp only [ReplicationDB.readFound, read_withStore value hget]

end

theorem iterate_local (htarget : target.rawData = key.stem) :
    (engine.withStore store).db.iterate target = engine.db.iterate target := by
  rw [iterate_eq _ htarget, iterate_eq _ htarget, withStore_store, hslot]

@[simp] theorem appendPlan_local (data : Bytes) :
    (engine.withStore store).appendPlan env (getFormatKey key) data =
      engine.appendPlan env (getFormatKey key) data := by
  simp only [appendPlan, readOptional_head_local hslot]
  rfl

theorem checkNotExists_local :
    (engine.withStore store).checkNotExists env (getFormatKey key) =
      engine.checkNotExists env (getFormatKey key) := by
  simp only [checkNotExists, readOptional_head_local hslot]

omit hslot in
theorem setxPlan_congr (hcheck : options.notExists = true →
      (engine.withStore store).checkNotExists env (getFormatKey key) =
        engine.checkNotExists env (getFormatKey key)) (data : Bytes) :
    (engine.withStore store).setxPlan env (getFormatKey key) data options =
      engine.setxPlan env (getFormatKey key) data options := by
  unfold setxPlan
  split
  · rw [hcheck ‹_›]
    rfl
  · rfl

@[simp] theorem setxPlan_local (data : Bytes) (options : SetOptions) :
    (engine.withStore store).setxPlan env (getFormatKey key) data options =
      engine.setxPlan env (getFormatKey key) data options :=
  setxPlan_congr (fun _ => checkNotExists_local hslot) data

@[simp] theorem setCounterByStepPlan_local (step : Int64) :
    (engine.withStore store).setCounterByStepPlan env (getFormatKey key) step =
      engine.setCounterByStepPlan env (getFormatKey key) step := by
  simp only [setCounterByStepPlan, readOptional_head_local hslot]
  rfl

@[simp] theorem hsetPlan_local (field value : Bytes) :
    (engine.withStore store).hsetPlan env (getFormatKey key) field value =
      engine.hsetPlan env (getFormatKey key) field value := by
  simp only [hsetPlan, readOptional_head_local hslot,
    readOptional_record_local hslot _ (mapData_rawData key field)]
  rfl

theorem hmsetLoop_local (found : Bool) (pairs : List (Bytes × Bytes))
    (metaData : LaserValueMapMeta) (batch : RocksDbBatch) :
    (engine.withStore store).hmsetLoop env (getFormatKey key) found pairs metaData batch =
      engine.hmsetLoop env (getFormatKey key) found pairs metaData batch := by
  induction pairs generalizing metaData batch with
  | nil => rfl
  | cons pair rest ih =>
    simp only [hmsetLoop, hmsetIsNew, readOptional_record_local hslot _ (mapData_rawData key _), ih]
    rfl

@[simp] theorem hmsetPlan_local (values : OrderedMap Bytes Bytes) :
    (engine.withStore store).hmsetPlan env (getFormatKey key) values =
      engine.hmsetPlan env (getFormatKey key) values := by
  simp only [hmsetPlan, readOptional_head_local hslot, hmsetLoop_local hslot]
  rfl

@[simp] theorem hdelPlan_local (field : Bytes) :
    (engine.withStore store).hdelPlan env (getFormatKey key) field =
      engine.hdelPlan env (getFormatKey key) field := by
  simp only [hdelPlan, readFound_head_local hslot,
    readFound_record_local hslot _ (mapData_rawData key field)]

@[simp] theorem listPopPlan_local (isLeft : Bool) :
    (engine.withStore store).listPopPlan env (getFormatKey key) isLeft =
      engine.listPopPlan env (getFormatKey key) isLeft := by
  simp only [listPopPlan, readLive_local hslot,
    readFound_record_local hslot _ (listData_rawData key _)]

@[simp] theorem listPushPlan_local (value : Bytes) (isLeft : Bool) :
    (engine.withStore store).listPushPlan env (getFormatKey key) value isLeft =
      engine.listPushPlan env (getFormatKey key) value isLeft := by
  simp only [listPushPlan, readOptional_head_local hslot]
  rfl

@[simp] theorem saddPlan_local (member : Bytes) :
    (engine.withStore store).saddPlan env (getFormatKey key) member =
      engine.saddPlan env (getFormatKey key) member := by
  simp only [saddPlan, readOptional_head_local hslot,
    readOptional_record_local hslot _ (setData_rawData key member)]
  rfl

@[simp] theorem sdelPlan_local (member : Bytes) :
    (engine.withStore store).sdelPlan env (getFormatKey key) member =
      engine.sdelPlan env (getFormatKey key) member := by
  simp only [sdelPlan, readFound_head_local hslot,
    readFound_record_local hslot _ (setData_rawData key member)]

theorem zaddLoop_local (found : Bool) (pairs : List (Bytes × Int64))
    (zsetMeta : LaserValueZSetMeta) (batch : RocksDbBatch) :
    (engine.withStore store).zaddLoop env (getFormatKey key) found pairs zsetMeta batch =
      engine.zaddLoop env (getFormatKey key) found pairs zsetMeta batch := by
  induction pairs generalizing zsetMeta batch with
  | nil => rfl
  | cons pair rest ih =>
    have hround : (engine.withStore store).zaddRound env (getFormatKey key) found pair.1 pair.2
        zsetMeta batch = engine.zaddRound env (getFormatKey key) found pair.1 pair.2 zsetMeta batch := by
      simp only [zaddRound, readOptional_record_local hslot _ (zsetData_rawData key pair.2)]
      rfl
    simp only [zaddLoop, hround, ih]

@[simp] theorem zaddPlan_local (memberScores : OrderedMap Bytes Int64) :
    (engine.withStore store).zaddPlan env (getFormatKey key) memberScores =
      engine.zaddPlan env (getFormatKey key) memberScores := by
  simp only [zaddPlan, readOptional_head_local hslot, zaddLoop_local hslot]

theorem zremRangeByScorePlan_local {min max : Int64} (hone : max < 0 ∨ 0 ≤ min) :
    (engine.withStore store).zremRangeByScorePlan env (getFormatKey key) min max =
      engine.zremRangeByScorePlan env (getFormatKey key) min max := by
  simp only [zremRangeByScorePlan, readLive_local hslot, rangeZset_oneSided _ _ hone,
    withStore_store, hslot]

@[simp] theorem delkeyPlan_local :
    (engine.withStore store).db.delkeyPlan env (getFormatKey key) =
      engine.db.delkeyPlan env (getFormatKey key) := by
  simp only [ReplicationDB.delkeyPlan, readOptional_head_local hslot,
    iterate_local hslot (compositeTarget_rawData key)]

@[simp] theorem expireAtPlan_local (timestamp : UInt64) :
    (engine.withStore store).expireAtPlan env (getFormatKey key) timestamp =
      engine.expireAtPlan env (getFormatKey key) timestamp := by
  simp only [expireAtPlan, readFound_head_local hslot, setMapExpire, setListExpire, setSetExpire,
    zsetSetExpire, iterate_local hslot (mapTarget_rawData key),
    iterate_local hslot (setTarget_rawData key), iterate_local hslot (listTarget_rawData key),
    iterate_local hslot (zsetTarget_rawData key)]

end

variable {keys : List LaserKey}

theorem msetxPlan_congr (hchecks : ∀ key ∈ keys, options.notExists = true →
      (engine.withStore store).checkNotExists env (getFormatKey key) =
        engine.checkNotExists env (getFormatKey key)) (datas : List Bytes) :
    (engine.withStore store).msetxPlan env (keys.map getFormatKey) datas options =
      engine.msetxPlan env (keys.map getFormatKey) datas options := by
  unfold msetxPlan
  split
  · rfl
  · congr 2
    apply foldl_ext
    intro batch pair hpair
    obtain ⟨key, hkey, hformat⟩ := mem_map.mp (of_mem_zip hpair).1
    cases hoption : options.notExists with
    | false => rfl
    | true =>
      simp only [← hformat, hchecks key hkey hoption]
      rfl

theorem msetxPlan_local (hslots : ∀ key ∈ keys, slot store key = slot engine.db.store key)
    (datas : List Bytes) (options : SetOptions) :
    (engine.withStore store).msetxPlan env (keys.map getFormatKey) datas options =
      engine.msetxPlan env (keys.map getFormatKey) datas options :=
  msetxPlan_congr (fun key hkey _ => checkNotExists_local (hslots key hkey)) datas

theorem batch_local (hone : call.OneSided)
    (hslots : ∀ key ∈ call.keys, slot store key = slot engine.db.store key) :
    call.batch env (engine.withStore store) = call.batch env engine := by
  have hslot {key : LaserKey} (hkeys : call.keys = [key]) :
      slot store key = slot engine.db.store key := hslots key (by simp [hkeys])
  cases call with
  | msetx keys datas options =>
    have hkeys : ∀ key ∈ keys, slot store key = slot engine.db.store key := hslots
    simp only [Call.batch, withStore_role, msetxPlan_local hkeys]
  | zremRangeByScore key min max =>
    simp only [Call.batch, withStore_role, zremRangeByScorePlan_local (hslot rfl) hone]
  | append | setx | incr | decr | hset | hmset | hdel | popFront | popBack | pushFront | pushBack
  | sadd | sdel | zadd | delkey | expire | expireAt =>
    have hsame := hslot rfl
    simp [Call.batch, hsame]
  | set | mset | exist | get | hget | hlen | hkeys | hgetall | llen | lindex | getList | lrange
  | hasMember | getSet | members | zrangeByScore | ttl => rfl

theorem write_status (batch : RocksDbBatch) :
    ((engine.withStore store).db.write env batch).1 = (engine.db.write env batch).1 := by
  rcases engine with ⟨⟨role, records⟩, ttl⟩
  rcases env with ⟨now, readFault, writeFault, inMemory⟩
  cases role <;> cases writeFault <;> rfl

theorem commit_reply (payload : α → Payload) (fallback : α)
    (plan : Except Status (α × RocksDbBatch)) :
    (answer payload ((engine.withStore store).commit env fallback plan)).1 =
      (answer payload (engine.commit env fallback plan)).1 := by
  cases plan with
  | error status => rfl
  | ok planned => exact congrArg (fun status => (status, payload planned.1)) (write_status planned.2)

theorem delkey_reply {key : LaserKey} (hslot : slot store key = slot engine.db.store key) :
    ((engine.withStore store).delkey env (getFormatKey key)).1 =
      (engine.delkey env (getFormatKey key)).1 := by
  simp only [RocksDbEngine.delkey, ReplicationDB.delkey, delkeyPlan_local hslot]
  rcases engine.db.delkeyPlan env (getFormatKey key) with status | _ | batch
  · rfl
  · rfl
  · exact write_status batch

theorem reply_local (hnarrow : call.Narrow)
    (hslots : ∀ key ∈ call.keys, slot store key = slot engine.db.store key) :
    (call.exec env (engine.withStore store)).1 = (call.exec env engine).1 := by
  have hslot {key : LaserKey} (hkeys : call.keys = [key]) :
      slot store key = slot engine.db.store key := hslots key (by simp [hkeys])
  cases call with
  | set | mset => exact commit_reply ..
  | msetx keys datas options =>
    have hkeys : ∀ key ∈ keys, slot store key = slot engine.db.store key := hslots
    simp only [exec, msetx, msetxPlan_local hkeys, commit_reply]
  | zremRangeByScore key min max =>
    simp only [exec, zremRangeByScore, zremRangeByScorePlan_local (hslot rfl) hnarrow]
    split
    · rfl
    · exact commit_reply ..
  | delkey => simp only [exec, answer, delkey_reply (hslot rfl)]
  | append | setx | incr | decr | hset | hmset | hdel | popFront | popBack | pushFront | pushBack
  | sadd | sdel | zadd | expire | expireAt =>
    have hsame := hslot rfl
    simp [exec, append, setx, incr, decr, setCounterByStep, hset, hmset, hdel, popFront,
      popBack, listPop, pushFront, pushBack, listPush, sadd, sdel, zadd, expire, expireAt, hsame,
      commit_reply]
  | exist => simp only [exec, exist_local (hslot rfl)]
  | get | hlen | llen | getList | getSet =>
    simp only [exec, RocksDbEngine.get, hlen, llen, getList, getSet, getValue_local (hslot rfl)]
  | hget key field =>
    simp only [exec, hget, readLive_local (hslot rfl),
      readFound_record_local (hslot rfl) _ (mapData_rawData key field)]
  | hkeys key | hgetall key =>
    simp only [exec, hkeys, hgetall, readLive_local (hslot rfl),
      iterate_local (hslot rfl) (mapTarget_rawData key)]
  | lindex key index =>
    simp only [exec, lindex, readLive_local (hslot rfl),
      readFound_record_local (hslot rfl) _ (listData_rawData key _)]
  | lrange key =>
    simp only [exec, lrange, readLive_local (hslot rfl),
      iterate_local (hslot rfl) (listTarget_rawData key)]
  | hasMember key member =>
    have hget := get_record_local (hslot rfl) (packedString member)
    rw [← setData_rawData] at hget
    simp only [exec, hasMember, readLive_local (hslot rfl), read_withStore _ hget]
  | members key =>
    simp only [exec, members, readLive_local (hslot rfl),
      iterate_local (hslot rfl) (setTarget_rawData key)]
  | zrangeByScore key min max =>
    simp only [exec, zrangeByScore, readLive_local (hslot rfl),
      rangeZset_oneSided _ _ hnarrow, withStore_store, hslot rfl]
  | ttl =>
    simp only [exec, ttlOf, read_withStore _ (get_head_local (hslot rfl))]

end LaserDB
