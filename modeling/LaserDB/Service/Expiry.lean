import LaserDB.Refinement.ReadBack
import LaserDB.Service.LaserService

/-!
# Expiry requests

The requests carry an `int64_t`, the engine keeps a `uint64_t` with 0 for no expiry, and `ttl`,
`exist` and the reads compare it with the clock each in its own way.
-/

namespace LaserDB

open LaserValue (decode getTimestamp setRawBuffer)
open LaserValueFormatBase (ofBuffer)
open ByteCodec RocksDbEngine LaserValue
open UInt64 (lt_iff_toNat_lt toNat_add toNat_inj toNat_zero)

namespace LaserService
variable {ε : Type} [DecidableEq ε] (service : LaserService ε)

def expireBody (envs : ε → Env) (time : Int64) (engine : ε) (key : LaserKey) (db : RocksDbEngine) :
    Except Status Unit × RocksDbEngine :=
  let (status, _, db) := db.expire (envs engine) (getFormatKey key) time.toUInt64
  (okOr status (), db)

def expire (envs : ε → Env) (key : TableKey) (time : Int64) (engines : ε → RocksDbEngine) :
    Except Status Unit × (ε → RocksDbEngine) :=
  service.callEngine key (expireBody envs time) engines

def expireAtBody (envs : ε → Env) (timeAt : Int64) (engine : ε) (key : LaserKey)
    (db : RocksDbEngine) : Except Status Unit × RocksDbEngine :=
  let (status, _, db) := db.expireAt (envs engine) (getFormatKey key) timeAt.toUInt64
  (okOr status (), db)

def expireAt (envs : ε → Env) (key : TableKey) (timeAt : Int64) (engines : ε → RocksDbEngine) :
    Except Status Unit × (ε → RocksDbEngine) :=
  service.callEngine key (expireAtBody envs timeAt) engines

def ttlBody (envs : ε → Env) (engine : ε) (key : LaserKey) (db : RocksDbEngine) :
    Except Status Int64 × RocksDbEngine :=
  let (status, ttl) := db.ttlOf (envs engine) (getFormatKey key)
  (okOr status ttl, db)

def ttl (envs : ε → Env) (key : TableKey) (engines : ε → RocksDbEngine) :
    Except Status Int64 × (ε → RocksDbEngine) :=
  service.callEngine key (ttlBody envs) engines

end LaserService

/-- The calls that read a value as a whole; a counter is read by adding 0 to it. -/
inductive ReadsWhole (key : LaserKey) : ValueType → Call → Prop
  | get : ReadsWhole key .RAW_STRING (.get key)
  | incr : ReadsWhole key .COUNTER (.incr key 0)
  | hlen : ReadsWhole key .MAP (.hlen key)
  | hgetall : ReadsWhole key .MAP (.hgetall key)
  | llen : ReadsWhole key .LIST (.llen key)
  | getSet : ReadsWhole key .SET (.getSet key)
  | members : ReadsWhole key .SET (.members key)
  | zrangeByScore {min max : Int64} (hle : min ≤ max) :
    ReadsWhole key .ZSET (.zrangeByScore key min max)

/-- Every read of the stored value as a whole answers the status. -/
def Answers (env : Env) (engine : RocksDbEngine) (key : LaserKey) (status : Status) : Prop :=
  ∃ bytes type timestamp, (slot engine.db.store key).head = some bytes ∧
    headOf bytes = some (type, timestamp) ∧
      ∀ call, ReadsWhole key type call → (call.exec env engine).1.1 = status

def accepts {V : Type} [LaserValue V] (fresh : V) (bytes : Bytes) : Bool :=
  (decode (setRawBuffer fresh bytes)).1 = .accepted

def decodes (bytes : Bytes) : ValueType → Bool
  | .RAW_STRING => accepts LaserValueRawString.new bytes
  | .COUNTER => accepts LaserValueCounter.new bytes
  | .MAP => accepts (SizeMeta.new : LaserValueMapMeta) bytes
  | .LIST => accepts LaserValueListMeta.new bytes
  | .SET => accepts (SizeMeta.new : LaserValueSetMeta) bytes
  | .ZSET => accepts (SizeMeta.new : LaserValueZSetMeta) bytes

def readStatus (type : ValueType) (decoded : Bool) (now timestamp : UInt64) : Status :=
  if decoded then if type ≠ .COUNTER ∧ Past now timestamp then .RS_KEY_EXPIRE else .OK
  else .RS_INVALID_ARGUMENT

def ReadableKey (env : Env) (engine : RocksDbEngine) (key : LaserKey) : Prop :=
  ∃ bytes value, (slot engine.db.store key).head = some bytes ∧
    decode (LaserValueFormatBase.ofBuffer bytes) = (.accepted, value) ∧
      checkKeyExpire env value = false

def StampedKey (engine : RocksDbEngine) (key : LaserKey) (timestamp : UInt64) : Prop :=
  ∃ bytes type, (slot engine.db.store key).head = some bytes ∧ headOf bytes = some (type, timestamp)

/-- A string that is not empty; the other values can be written again in any case. -/
def Legible (bytes : Bytes) (type : ValueType) : Prop :=
  type = .RAW_STRING → (LaserValueRawString.ofBuffer bytes).decode.2.value ≠ []

variable {env : Env} {engine : RocksDbEngine} {key : LaserKey} {bytes : Bytes} {type : ValueType}
  {timestamp : UInt64} {call : Call}

theorem checkKeyExpire_eq {V : Type} [LaserValue V] (value : V) :
    checkKeyExpire env value = decide (Past env.now (getTimestamp value)) :=
  (Bool.decide_and _ _).symm

section
variable {V : Type} [LaserValue V] {fresh : V} (henv : env.Healthy)
  (hhead : (slot engine.db.store key).head = some bytes) (hne : type ≠ .COUNTER)
  (hof : ∀ value, decode (setRawBuffer fresh bytes) = (.accepted, value) →
    headOf bytes = some (type, getTimestamp value))
  (hstored : headOf bytes = some (type, timestamp))
include henv hhead hne hof hstored

theorem getValue_status :
    (engine.getValue env fresh (getFormatKey key)).1 =
      readStatus type (accepts fresh bytes) env.now timestamp := by
  rw [getValue, read_head henv, hhead, accepts, readStatus]
  dsimp only
  rcases hdecode : decode (setRawBuffer fresh bytes) with ⟨verdict, value⟩
  cases verdict with
  | accepted =>
    cases (hof value hdecode).symm.trans hstored
    simp [checkKeyExpire, Past, hne]
  | _ => rfl

theorem readLive_status (payload : α → Payload) (result : α) :
    (replyOf payload (engine.readLive env fresh (getFormatKey key) >>= fun _ => pure result)).1 =
      readStatus type (accepts fresh bytes) env.now timestamp := by
  rw [accepts, readStatus]
  rcases hdecode : decode (setRawBuffer fresh bytes) with ⟨verdict, value⟩
  cases verdict with
  | accepted =>
    cases (hof value hdecode).symm.trans hstored
    rw [readLive_of_reads henv ⟨bytes, hhead, hdecode⟩, checkKeyExpire_eq]
    by_cases hpast : Past env.now (getTimestamp value)
    · simp [hpast, hne, replyOf, error_bind]
    · simp [hpast, replyOf, ok_bind, pure_eq_ok]
  | _ =>
    rw [readLive, readFound_head henv, hhead, foundOr, ok_bind, decodeOr, hdecode]
    rfl

end

theorem incr_status (henv : env.Healthy) (hleader : engine.db.role = .LEADER)
    (hhead : (slot engine.db.store key).head = some bytes) (step : Int64) :
    (engine.setCounterByStep env (getFormatKey key) step).1 =
      readStatus .COUNTER (accepts LaserValueCounter.new bytes) env.now timestamp := by
  rw [setCounterByStep, plan_counter henv, Slot.plan, hhead, accepts, readStatus]
  rcases hdecode : decode (setRawBuffer LaserValueCounter.new bytes) with ⟨verdict, value⟩
  cases verdict with
  | accepted =>
    simp [decodeOr, hdecode, commit_ok henv hleader]
  | _ => simp [decodeOr, hdecode, commit]

theorem exists_reads (key : LaserKey) (type : ValueType) : ∃ call, ReadsWhole key type call := by
  cases type with
  | RAW_STRING => exact ⟨_, .get⟩
  | COUNTER => exact ⟨_, .incr⟩
  | MAP => exact ⟨_, .hlen⟩
  | LIST => exact ⟨_, .llen⟩
  | SET => exact ⟨_, .getSet⟩
  | ZSET => exact ⟨_, .zrangeByScore (Int64.le_refl 0)⟩

theorem ReadsWhole.status (hreads : ReadsWhole key type call) (henv : env.Healthy)
    (hleader : engine.db.role = .LEADER) (hhead : (slot engine.db.store key).head = some bytes)
    (hstored : headOf bytes = some (type, timestamp)) :
    (call.exec env engine).1.1 = readStatus type (decodes bytes type) env.now timestamp := by
  have hsize (kind : ValueType) (value : SizeMeta kind)
      (hdecode : decode (setRawBuffer (SizeMeta.new : SizeMeta kind) bytes) = (.accepted, value)) :
      headOf bytes = some (kind, getTimestamp value) := (sizeMeta_headOf hdecode).1
  cases hreads with
  | get => exact getValue_status henv hhead (by decide) (fun _ => rawString_headOf) hstored
  | incr => exact incr_status henv hleader hhead 0
  | hlen => exact getValue_status henv hhead (by decide) (hsize .MAP) hstored
  | hgetall => exact readLive_status henv hhead (by decide) (hsize .MAP) hstored _ _
  | llen =>
    exact getValue_status henv hhead (by decide) (fun _ hdecode => (listMeta_headOf hdecode).1)
      hstored
  | getSet => exact getValue_status henv hhead (by decide) (hsize .SET) hstored
  | members => exact readLive_status henv hhead (by decide) (hsize .SET) hstored _ _
  | zrangeByScore hle =>
    change (replyOf _ (RocksDbEngine.zrangeByScore engine env _ _ _)).1 = _
    rw [RocksDbEngine.zrangeByScore, if_neg (Int64.not_lt.mpr hle)]
    exact readLive_status henv hhead (by decide) (hsize .ZSET) hstored _ _

section
variable (timestamp : UInt64)

theorem decodes_rawString (text : Bytes) :
    decodes (rawStringBytes timestamp text) .RAW_STRING = true ↔ text ≠ [] :=
  decide_eq_true_iff.trans (rawString_accepts_iff timestamp _ rfl)

omit timestamp in
theorem accepts_of_decode {V α : Type} [LaserValue V] {fresh : V} {value : α → V}
    (hdecode : ∃ buffer, decode (setRawBuffer fresh bytes) = (.accepted, value buffer)) :
    accepts fresh bytes = true := by
  obtain ⟨buffer, hdecode⟩ := hdecode
  exact decide_eq_true (congrArg Prod.fst hdecode)

theorem decodes_counter (value : Int64) :
    decodes (counterBytes timestamp value) .COUNTER = true :=
  accepts_of_decode (counter_decode _ rfl)

theorem accepts_sizeMeta (kind : ValueType) (size : UInt32) :
    accepts (SizeMeta.new : SizeMeta kind) (sizeMetaBytes kind timestamp size) = true :=
  accepts_of_decode (sizeMeta_decode _ rfl)

theorem decodes_listMeta (start endIndex : Int64) :
    decodes (listMetaBytes timestamp start endIndex) .LIST = true :=
  accepts_of_decode (listMeta_decode _ rfl)

end

theorem legible_of_ne (hne : type ≠ .RAW_STRING) : Legible bytes type :=
  fun htype => absurd htype hne

theorem decode_of_headOf (hof : headOf bytes = some (type, timestamp)) :
    ∃ head, (ofBuffer bytes).decode = (.accepted, head) ∧ head.type = type ∧
      head.timestamp = timestamp := by
  rcases hdecode : (ofBuffer bytes).decode with ⟨verdict, head⟩
  rw [headOf, hdecode] at hof
  cases verdict with
  | accepted =>
    cases hof
    exact ⟨head, rfl, rfl, rfl⟩
  | _ => cases hof

/-- What `expireAt` writes keeps the type, has the time and can be decoded, but for a string that
is empty. -/
theorem retimedHead_spec {raw : Bytes} {type : ValueType} {old : UInt64}
    (hof : headOf raw = some (type, old)) (timestamp : UInt64) :
    headOf (retimedHead type raw timestamp) = some (type, timestamp) ∧
      (decodes (retimedHead type raw timestamp) type = true ↔ Legible raw type) := by
  obtain ⟨head, hdecode, htype, -⟩ := decode_of_headOf hof
  have has : (ofBuffer raw).decodeAs type = (.accepted, head) := by
    simp [LaserValueFormatBase.decodeAs, hdecode, htype]
  have hsize (kind : ValueType) (hkind : type = kind) : ∃ size,
      rawData (retimed (SizeMeta.ofBuffer raw : SizeMeta kind) timestamp) =
        sizeMetaBytes kind timestamp size := by
    subst hkind
    refine ⟨_, (sizeMeta_encode_rawData _).trans (congrArg (sizeMetaBytes · timestamp _) ?_)⟩
    change (SizeMeta.decode _).2.type = _
    simp only [SizeMeta.decode, SizeMeta.ofBuffer, has]
    split <;> exact htype
  cases type with
  | RAW_STRING =>
    have hraw : retimedHead .RAW_STRING raw timestamp =
        rawStringBytes timestamp (LaserValueRawString.ofBuffer raw).decode.2.value := by
      refine (rawString_encode_rawData _).trans (congrArg (headBytes · timestamp ++ _) ?_)
      change (LaserValueRawString.decode _).2.type = _
      simp [LaserValueRawString.decode, LaserValueRawString.ofBuffer, hdecode, htype]
    rw [hraw, decodes_rawString]
    exact ⟨headOf_headBytes, fun htext _ => htext, fun hlegible => hlegible rfl⟩
  | COUNTER =>
    obtain ⟨value, hraw⟩ : ∃ value,
        retimedHead .COUNTER raw timestamp = counterBytes timestamp value := by
      refine ⟨_, (counter_encode_rawData _).trans (congrArg (headBytes · timestamp ++ _) ?_)⟩
      change (LaserValueCounter.decode _).2.type = _
      simp only [LaserValueCounter.decode, LaserValueCounter.ofBuffer, has]
      split <;> exact htype
    rw [hraw]
    exact ⟨headOf_headBytes, iff_of_true (decodes_counter _ _) (legible_of_ne (by decide))⟩
  | LIST =>
    obtain ⟨start, endIndex, hraw⟩ : ∃ start endIndex,
        retimedHead .LIST raw timestamp = listMetaBytes timestamp start endIndex := by
      refine ⟨_, _, (listMeta_encode_rawData _).trans (congrArg (headBytes · timestamp ++ _) ?_)⟩
      change (LaserValueListMeta.decode _).2.type = _
      simp only [LaserValueListMeta.decode, LaserValueListMeta.ofBuffer, has]
      split
      · exact htype
      · split <;> exact htype
    rw [hraw]
    exact ⟨headOf_headBytes, iff_of_true (decodes_listMeta _ _ _) (legible_of_ne (by decide))⟩
  | MAP | SET | ZSET =>
    obtain ⟨size, hraw⟩ := hsize _ rfl
    rw [retimedHead, hraw]
    exact ⟨headOf_headBytes, iff_of_true (accepts_sizeMeta _ _ _) (legible_of_ne (by decide))⟩

/-- A value in the store of a leader: its type, its time and whether the reads can decode it. -/
structure Stored (engine : RocksDbEngine) (key : LaserKey) (type : ValueType) (timestamp : UInt64)
    (legible : Prop) : Prop where
  leader : engine.db.role = .LEADER
  head : ∃ bytes, (slot engine.db.store key).head = some bytes ∧
    headOf bytes = some (type, timestamp) ∧ (decodes bytes type = true ↔ legible)

section
variable {legible : Prop} (hstored : Stored engine key type timestamp legible)
include hstored

theorem Stored.stamped : StampedKey engine key timestamp := by
  obtain ⟨bytes, hhead, hof, -⟩ := hstored.head
  exact ⟨bytes, type, hhead, hof⟩

theorem Stored.answers_iff (henv : env.Healthy) (status : Status) :
    ∃ decoded : Bool, (decoded = true ↔ legible) ∧
      (Answers env engine key status ↔ readStatus type decoded env.now timestamp = status) := by
  obtain ⟨bytes, hhead, hof, hlegible⟩ := hstored.head
  refine ⟨_, hlegible, ?_⟩
  constructor
  · rintro ⟨bytes', type', timestamp', hhead', hof', hall⟩
    cases hhead.symm.trans hhead'
    cases hof.symm.trans hof'
    obtain ⟨call, hreads⟩ := exists_reads key type
    exact (hreads.status henv hstored.leader hhead hof).symm.trans (hall call hreads)
  · intro hstatus
    exact ⟨bytes, type, timestamp, hhead, hof, fun call hreads =>
      (hreads.status henv hstored.leader hhead hof).trans hstatus⟩

theorem Stored.ok_iff (henv : env.Healthy) : Answers env engine key .OK ↔
    legible ∧ (type = .COUNTER ∨ ¬Past env.now timestamp) := by
  obtain ⟨decoded, hlegible, hanswers⟩ := hstored.answers_iff henv .OK
  rw [hanswers, ← hlegible, readStatus]
  split_ifs <;> simp_all
  tauto

theorem Stored.expired_iff (henv : env.Healthy) : Answers env engine key .RS_KEY_EXPIRE ↔
    legible ∧ type ≠ .COUNTER ∧ Past env.now timestamp := by
  obtain ⟨decoded, hlegible, hanswers⟩ := hstored.answers_iff henv .RS_KEY_EXPIRE
  rw [hanswers, ← hlegible, readStatus]
  split_ifs <;> simp_all

end

theorem headDecode_rawData (self : LaserValueFormatBase) :
    self.decode.2.rawData = self.rawData := by
  unfold LaserValueFormatBase.decode
  rcases htype : self.toLaserSerializer.resetOffset.unpackInt UInt8 .little with ⟨_ | type, buffer⟩
  all_goals have hraw : buffer.rawData = self.toLaserSerializer.resetOffset.rawData :=
    rawData_of_unpackInt htype
  · exact hraw
  · dsimp only
    rcases htime : buffer.unpackInt UInt64 .little with ⟨_ | timestamp, next⟩ <;>
      exact (rawData_of_unpackInt htime).trans hraw

theorem stored_of_expireAt (hhead : (slot engine.db.store key).head = some bytes) {old : UInt64}
    (hof : headOf bytes = some (type, old))
    (hok : (engine.expireAt env (getFormatKey key) timestamp).1 = .OK) :
    Stored (engine.expireAt env (getFormatKey key) timestamp).2.2 key type timestamp
      (Legible bytes type) := by
  have hheals := expireAtPlan_heals timestamp engine env (getFormatKey key)
  obtain ⟨hleader, heq, -⟩ := commit_healed hheals hok
  cases hplan : engine.expireAtPlan env (getFormatKey key) timestamp with
  | error status =>
    rw [RocksDbEngine.expireAt, hplan] at hok
    exact absurd hok (hheals.error status hplan)
  | ok result =>
    obtain ⟨bytes', value, hhead', hdecode, hafter⟩ := expireAt_head hplan
    cases hhead.symm.trans hhead'
    have hraw : value.rawData = bytes := by
      have hkept := headDecode_rawData (setRawBuffer (ofBuffer []) bytes)
      rwa [show LaserValueFormatBase.decode _ = _ from hdecode] at hkept
    cases (headOf_of_decode hdecode).symm.trans hof
    rw [hraw] at hafter
    rw [RocksDbEngine.expireAt, heq, hheals.ok result hplan, commit_ok env.healed_healthy hleader]
    exact ⟨hleader, _, hafter, retimedHead_spec hof timestamp⟩

theorem StampedKey.exists_value (hstamped : StampedKey engine key timestamp) :
    ∃ bytes value, (slot engine.db.store key).head = some bytes ∧
      decode (ofBuffer bytes) = (.accepted, value) ∧ value.timestamp = timestamp := by
  obtain ⟨bytes, type, hhead, hof⟩ := hstamped
  obtain ⟨value, hdecode, -, rfl⟩ := decode_of_headOf hof
  exact ⟨bytes, value, hhead, hdecode, rfl⟩

theorem StampedKey.readable_iff (hstamped : StampedKey engine key timestamp) :
    ReadableKey env engine key ↔ ¬Past env.now timestamp := by
  obtain ⟨bytes, value, hhead, hdecode, rfl⟩ := hstamped.exists_value
  have hcheck : checkKeyExpire env value = decide (Past env.now value.timestamp) :=
    checkKeyExpire_eq value
  rw [← decide_eq_false_iff_not, ← hcheck]
  constructor
  · rintro ⟨bytes', value', hhead', hdecode', hlive⟩
    cases hhead.symm.trans hhead'
    cases hdecode.symm.trans hdecode'
    exact hlive
  · exact fun hlive => ⟨bytes, value, hhead, hdecode, hlive⟩

def ttlAt (now timestamp : UInt64) : Int64 :=
  if timestamp = 0 then -1
  else if (timestamp - now).toInt64 < 0 then 0 else (timestamp - now).toInt64

theorem StampedKey.ttlOf_eq (henv : env.Healthy) (hstamped : StampedKey engine key timestamp) :
    engine.ttlOf env (getFormatKey key) = (.OK, ttlAt env.now timestamp) := by
  obtain ⟨bytes, value, hhead, hdecode, rfl⟩ := hstamped.exists_value
  have hvalue : (setRawBuffer (ofBuffer []) bytes).decode = (.accepted, value) := hdecode
  rw [ttlOf, read_head henv, hhead]
  dsimp only
  rw [hvalue, ttlAt]
  split <;> rfl

section
variable (now timestamp : UInt64)

theorem toInt_toInt64 (number : UInt64) :
    number.toInt64.toInt =
      if 2 * number.toNat < 2 ^ 64 then (number.toNat : Int) else number.toNat - 2 ^ 64 :=
  BitVec.toInt_eq_toNat_cond number.toBitVec

theorem toInt_ttlAt :
    (ttlAt now timestamp).toInt =
      if timestamp.toNat = 0 then -1
      else if (timestamp - now).toNat < 2 ^ 63 then ((timestamp - now).toNat : Int) else 0 := by
  have hdiff := toInt_toInt64 (timestamp - now)
  have hbound := (timestamp - now).toNat_lt
  have hzero : timestamp = 0 ↔ timestamp.toNat = 0 := toNat_inj.symm
  simp only [ttlAt, hzero, Int64.lt_iff_toInt_lt, apply_ite Int64.toInt, hdiff, Int64.toInt_zero]
  have hone : (-1 : Int64).toInt = -1 := by decide
  rw [hone]
  split_ifs <;> omega

/-- The timestamp is not that of a value without expiry, not the time itself, and the distance
between them is one that an `int64_t` has with its sign. -/
def TtlTells : Prop :=
  timestamp ≠ 0 ∧ timestamp ≠ now ∧ (now < timestamp → timestamp.toNat - now.toNat < 2 ^ 63) ∧
    (timestamp < now → now.toNat - timestamp.toNat ≤ 2 ^ 63)

/-- The same for a counter, which is readable at any time: `ttl` counts its time as left. -/
def CounterTells : Prop :=
  timestamp ≠ 0 ∧ timestamp ≠ now ∧ (now < timestamp → timestamp.toNat - now.toNat < 2 ^ 63) ∧
    (timestamp < now → 2 ^ 63 < now.toNat - timestamp.toNat)

theorem ttlAt_eq_neg_one_iff : ttlAt now timestamp = -1 ↔ timestamp = 0 := by
  have hone : (-1 : Int64).toInt = -1 := by decide
  rw [← Int64.toInt_inj, toInt_ttlAt, ← toNat_inj, hone, toNat_zero]
  split_ifs <;> simp_all

theorem ttlTells_iff :
    (¬Past now timestamp ↔ 0 < ttlAt now timestamp) ∧
        (Past now timestamp ↔ ttlAt now timestamp = 0) ↔
      TtlTells now timestamp := by
  have hdiff := UInt64.toNat_sub timestamp now
  have hnow := now.toNat_lt
  have hbound := timestamp.toNat_lt
  unfold TtlTells Past
  rw [Int64.lt_iff_toInt_lt, ← Int64.toInt_inj, toInt_ttlAt, ne_eq, ne_eq, ← toNat_inj,
    ← toNat_inj, lt_iff_toNat_lt, lt_iff_toNat_lt]
  rw [Int64.toInt_zero, toNat_zero]
  split_ifs <;> omega

theorem counterTells_iff : 0 < ttlAt now timestamp ↔ CounterTells now timestamp := by
  have hdiff := UInt64.toNat_sub timestamp now
  have hnow := now.toNat_lt
  have hbound := timestamp.toNat_lt
  unfold CounterTells
  rw [Int64.lt_iff_toInt_lt, toInt_ttlAt, ne_eq, ne_eq, ← toNat_inj, ← toNat_inj, lt_iff_toNat_lt,
    lt_iff_toNat_lt, Int64.toInt_zero, toNat_zero]
  split_ifs <;> omega

/-- When `ttl` and the reads tell the same of a value with the timestamp: a counter is readable at
any time, an empty string at none. -/
def AgreesAt (bytes : Bytes) : ValueType → Prop
  | .COUNTER => CounterTells now timestamp
  | type => (Legible bytes type → TtlTells now timestamp) ∧ (¬Legible bytes type → timestamp = 0)

theorem agreesAt_iff (bytes : Bytes) (type : ValueType) :
    (Legible bytes type ∧ (type = .COUNTER ∨ ¬Past now timestamp) ↔ 0 < ttlAt now timestamp) ∧
        (Legible bytes type ∧ type ≠ .COUNTER ∧ Past now timestamp ↔ ttlAt now timestamp = 0) ↔
      AgreesAt now timestamp bytes type := by
  have hne : 0 < ttlAt now timestamp → ttlAt now timestamp ≠ 0 := by
    intro hpos hzero
    rw [hzero] at hpos
    exact absurd hpos (by decide)
  have hleft : ¬0 < ttlAt now timestamp ∧ ttlAt now timestamp ≠ 0 ↔ timestamp = 0 := by
    rw [Int64.lt_iff_toInt_lt, ne_eq, ← Int64.toInt_inj, toInt_ttlAt, ← toNat_inj,
      Int64.toInt_zero, toNat_zero]
    split_ifs
    · simp [*]
    · omega
    · omega
  by_cases hcounter : type = .COUNTER
  · subst hcounter
    have hlegible : Legible bytes .COUNTER := legible_of_ne (by decide)
    simp only [AgreesAt, ← counterTells_iff, hlegible]
    tauto
  · have hagrees : AgreesAt now timestamp bytes type ↔
        (Legible bytes type → TtlTells now timestamp) ∧
          (¬Legible bytes type → timestamp = 0) := by
      unfold AgreesAt
      split
      · exact absurd rfl hcounter
      · exact Iff.rfl
    rw [hagrees, ← ttlTells_iff, ← hleft]
    by_cases hlegible : Legible bytes type
    · simp [hlegible, hcounter]
    · simp [hlegible]

/-- A value with the first timestamp does not outlive one with the second. -/
def NoLaterThan (first second : UInt64) : Prop :=
  second = 0 ∨ second.toNat = 2 ^ 64 - 1 ∨ first ≠ 0 ∧ first ≤ second

theorem past_imp_iff (first second : UInt64) :
    (∀ now, Past now second → Past now first) ↔ NoLaterThan first second := by
  unfold NoLaterThan
  constructor
  · intro hall
    by_cases hzero : second = 0
    · exact .inl hzero
    by_cases hmax : second.toNat = 2 ^ 64 - 1
    · exact .inr (.inl hmax)
    have hbound := second.toNat_lt
    have hnext : (second + 1).toNat = second.toNat + 1 := by
      rw [toNat_add]
      exact Nat.mod_eq_of_lt (by change second.toNat + 1 < _; omega)
    obtain ⟨hfirst, hlt⟩ := hall (second + 1) ⟨hzero, lt_iff_toNat_lt.mpr (by omega)⟩
    rw [lt_iff_toNat_lt] at hlt
    exact .inr (.inr ⟨hfirst, UInt64.le_iff_toNat_le.mpr (by omega)⟩)
  · rintro (rfl | hmax | ⟨hfirst, hle⟩) now ⟨hsecond, hlt⟩
    · exact absurd rfl hsecond
    · have hbound := now.toNat_lt
      rw [lt_iff_toNat_lt] at hlt
      omega
    · exact ⟨hfirst, UInt64.lt_of_le_of_lt hle hlt⟩

end

theorem ok_of_okOr {status : Status} (hok : LaserService.okOr status () = .ok ()) :
    status = .OK := by
  unfold LaserService.okOr at hok
  split at hok
  · assumption
  · cases hok

section
variable {ε : Type} [DecidableEq ε] (service : LaserService ε) {handle : ε} {key : TableKey}

/-- The reads and `ttl` tell the same of the key. -/
def LaserService.TtlAgrees (handle : ε) (key : TableKey) (envs : ε → Env)
    (engines : ε → RocksDbEngine) : Prop :=
  (Answers (envs handle) (engines handle) key.key .OK ↔
      ∃ left, (service.ttl envs key engines).1 = .ok left ∧ 0 < left) ∧
    (Answers (envs handle) (engines handle) key.key .RS_KEY_EXPIRE ↔
      (service.ttl envs key engines).1 = .ok 0)

variable {service} (hlocated : service.getDatabaseEngine key = .ok (some handle)) {envs : ε → Env}
  {engines : ε → RocksDbEngine} {time : Int64}
include hlocated

theorem callEngine_eq (engines : ε → RocksDbEngine)
    (func : ε → LaserKey → RocksDbEngine → Except Status α × RocksDbEngine) :
    (service.callEngine key func engines).1 = (func handle key.key (engines handle)).1 ∧
      (service.callEngine key func engines).2 handle = (func handle key.key (engines handle)).2 := by
  rw [LaserService.callEngine, hlocated]
  exact ⟨rfl, Function.update_self ..⟩

section
variable {bytes : Bytes} {type : ValueType} {old : UInt64}
  (hhead : (slot (engines handle).db.store key.key).head = some bytes)
  (hof : headOf bytes = some (type, old))
include hhead hof

theorem stored_expireAt (hok : (service.expireAt envs key time engines).1 = .ok ()) :
    Stored ((service.expireAt envs key time engines).2 handle) key.key type time.toUInt64
      (Legible bytes type) := by
  obtain ⟨hreply, hafter⟩ := callEngine_eq hlocated engines (LaserService.expireAtBody envs time)
  rw [LaserService.expireAt, hreply] at hok
  rw [LaserService.expireAt, hafter]
  exact stored_of_expireAt hhead hof (ok_of_okOr hok)

theorem stored_expire (hok : (service.expire envs key time engines).1 = .ok ()) :
    Stored ((service.expire envs key time engines).2 handle) key.key type
      (time.toUInt64 + (envs handle).now) (Legible bytes type) := by
  obtain ⟨hreply, hafter⟩ := callEngine_eq hlocated engines (LaserService.expireBody envs time)
  rw [LaserService.expire, hreply] at hok
  rw [LaserService.expire, hafter]
  exact stored_of_expireAt hhead hof (ok_of_okOr hok)

end

theorem ttl_of_stamped {timestamp : UInt64} (henv : (envs handle).Healthy)
    (hstamped : StampedKey (engines handle) key.key timestamp) :
    (service.ttl envs key engines).1 = .ok (ttlAt (envs handle).now timestamp) := by
  rw [LaserService.ttl, (callEngine_eq hlocated engines _).1, LaserService.ttlBody,
    hstamped.ttlOf_eq henv]
  rfl

theorem ttlAgrees_iff {bytes : Bytes} {type : ValueType} {timestamp : UInt64}
    (henv : (envs handle).Healthy)
    (hstored : Stored (engines handle) key.key type timestamp (Legible bytes type)) :
    service.TtlAgrees handle key envs engines ↔
      AgreesAt (envs handle).now timestamp bytes type := by
  rw [LaserService.TtlAgrees, ttl_of_stamped hlocated henv hstored.stamped, hstored.ok_iff henv,
    hstored.expired_iff henv, ← agreesAt_iff]
  simp only [Except.ok.injEq, exists_eq_left']

/-- When the expiry requests, `ttl` and the reads go together. -/
theorem expiry_agrees_iff (envs : ε → Env) (engines : ε → RocksDbEngine) (time : Int64)
    {bytes : Bytes} {type : ValueType} {old : UInt64}
    (hhead : (slot (engines handle).db.store key.key).head = some bytes)
    (hof : headOf bytes = some (type, old)) :
    ((service.expireAt envs key time engines).1 = .ok () → ∀ later, (later handle).Healthy →
      (service.TtlAgrees handle key later (service.expireAt envs key time engines).2 ↔
        AgreesAt (later handle).now time.toUInt64 bytes type)) ∧
    ((envs handle).Healthy → ((service.ttl envs key engines).1 = .ok (-1) ↔ old = 0)) ∧
    ((service.expireAt envs key time engines).1 = .ok () → time.toInt < (envs handle).now.toNat →
      (Answers (.at (envs handle).now) ((service.expireAt envs key time engines).2 handle) key.key
          .RS_KEY_EXPIRE ↔
        Legible bytes type ∧ type ≠ .COUNTER ∧ time ≠ 0 ∧
          (time < 0 → time.toUInt64 < (envs handle).now))) ∧
    ((service.expire envs key time engines).1 = .ok () → time < 0 →
      (Answers (.at (envs handle).now) ((service.expire envs key time engines).2 handle) key.key
          .RS_KEY_EXPIRE ↔
        Legible bytes type ∧ type ≠ .COUNTER ∧ -time.toInt < (envs handle).now.toNat)) ∧
    ∀ larger, time ≤ larger → (service.expire envs key time engines).1 = .ok () →
      (service.expire envs key larger engines).1 = .ok () →
      ((∀ later : Env, later.Healthy →
          Answers later ((service.expire envs key larger engines).2 handle) key.key
            .RS_KEY_EXPIRE →
          Answers later ((service.expire envs key time engines).2 handle) key.key
            .RS_KEY_EXPIRE) ↔
        (Legible bytes type → type ≠ .COUNTER →
          NoLaterThan (time.toUInt64 + (envs handle).now)
            (larger.toUInt64 + (envs handle).now))) := by
  have htime : time.toInt = _ := toInt_toInt64 time.toUInt64
  have hbound := time.toUInt64.toNat_lt
  have hnow := (envs handle).now.toNat_lt
  have hat : (Env.at (envs handle).now).now = (envs handle).now := rfl
  refine ⟨fun hok later hlater =>
      ttlAgrees_iff hlocated hlater (stored_expireAt hlocated hhead hof hok),
    fun henv => ?_, fun hok hpast => ?_, fun hok hneg => ?_, fun larger hle hok hlarger => ?_⟩
  · rw [ttl_of_stamped hlocated henv ⟨bytes, type, hhead, hof⟩, Except.ok.injEq,
      ttlAt_eq_neg_one_iff]
  · rw [(stored_expireAt hlocated hhead hof hok).expired_iff (Env.at_healthy _), hat]
    refine and_congr_right' (and_congr_right' ?_)
    rw [Past, ne_eq, ne_eq, ← toNat_inj, ← Int64.toInt_inj, Int64.lt_iff_toInt_lt,
      lt_iff_toNat_lt, Int64.toInt_zero, toNat_zero]
    split at htime <;> omega
  · rw [Int64.lt_iff_toInt_lt, Int64.toInt_zero] at hneg
    rw [(stored_expire hlocated hhead hof hok).expired_iff (Env.at_healthy _), hat]
    refine and_congr_right' (and_congr_right' ?_)
    rw [Past, ne_eq, ← toNat_inj, lt_iff_toNat_lt, toNat_zero, toNat_add]
    split at htime <;> omega
  · rw [← past_imp_iff]
    have htime := stored_expire hlocated hhead hof hok
    have hlarger := stored_expire hlocated hhead hof hlarger
    constructor
    · intro hall hlegible hcounter now hpast
      exact ((htime.expired_iff (Env.at_healthy now)).mp (hall (.at now) (Env.at_healthy now)
        ((hlarger.expired_iff (Env.at_healthy now)).mpr ⟨hlegible, hcounter, hpast⟩))).2.2
    · intro hall later hlater hexpired
      obtain ⟨hlegible, hcounter, hpast⟩ := (hlarger.expired_iff hlater).mp hexpired
      exact (htime.expired_iff hlater).mpr
        ⟨hlegible, hcounter, hall hlegible hcounter _ hpast⟩

end

/-- `exist` answers what the reads find. -/
def ExistAgrees (env : Env) (engine : RocksDbEngine) (key : LaserKey) : Prop :=
  ∃ found, engine.exist env (getFormatKey key) = (.OK, found) ∧
    (found = true ↔ ReadableKey env engine key)

/-- A record that `KeyMayExist` finds in memory is a string; the others are not readable. -/
def StringsInMemory (env : Env) (engine : RocksDbEngine) (key : LaserKey) : Prop :=
  ∀ bytes, (slot engine.db.store key).head = some bytes →
    if env.inMemory key.metaKey then
      ∃ value, decode (setRawBuffer LaserValueRawString.new bytes) = (.accepted, value)
    else ¬ReadableKey env engine key

section
variable {bytes : Bytes}

variable (hhead : (slot engine.db.store key).head = some bytes)
include hhead

theorem exist_eq :
    engine.exist env (getFormatKey key) =
      if env.inMemory key.metaKey then
        match decode (setRawBuffer LaserValueRawString.new bytes) with
        | (.accepted, value) => (.OK, !checkKeyExpire env value)
        | _ => (.RS_INVALID_ARGUMENT, false)
      else (.OK, false) := by
  change engine.db.store.get key.metaKey = some bytes at hhead
  simp only [exist, ReplicationDB.exist, getFormatKey_rawData, hhead]
  by_cases hmemory : env.inMemory key.metaKey = true
  · simp only [hmemory, if_true]
    rfl
  · simp only [hmemory]
    rfl

theorem existAgrees_of_memory (hmemory : env.inMemory key.metaKey = true) :
    ExistAgrees env engine key ↔ ∃ value, decode (setRawBuffer LaserValueRawString.new bytes) =
        (.accepted, value) := by
  simp only [ExistAgrees, exist_eq hhead, hmemory, if_true]
  split
  · rename_i value hdecode
    have hstamped : StampedKey engine key value.timestamp :=
      ⟨bytes, .RAW_STRING, hhead, rawString_headOf hdecode⟩
    have hlive : (!checkKeyExpire env value) = true ↔ ReadableKey env engine key := by
      rw [hstamped.readable_iff, Bool.not_eq_true', checkKeyExpire_eq, decide_eq_false_iff_not]
      rfl
    exact iff_of_true ⟨_, rfl, hlive⟩ ⟨value, hdecode⟩
  · rename_i hne
    refine iff_of_false ?_ fun ⟨value, hdecode⟩ => hne value hdecode
    rintro ⟨found, hreply, -⟩
    cases hreply

omit hhead

theorem existAgrees_iff : ExistAgrees env engine key ↔ StringsInMemory env engine key := by
  cases hhead : (slot engine.db.store key).head with
  | none =>
    have hgone : ¬ReadableKey env engine key := by
      rintro ⟨bytes, value, hfound, -⟩
      cases hhead.symm.trans hfound
    refine iff_of_true ⟨false, ?_, iff_of_false Bool.false_ne_true hgone⟩ ?_
    · change engine.db.store.get key.metaKey = none at hhead
      simp only [exist, ReplicationDB.exist, getFormatKey_rawData, hhead]
    · intro bytes hfound
      cases hhead.symm.trans hfound
  | some bytes =>
    simp only [StringsInMemory, hhead, Option.some.injEq, forall_eq']
    split
    · rename_i hmemory
      exact existAgrees_of_memory hhead hmemory
    · rename_i hmemory
      simp only [ExistAgrees, exist_eq hhead, hmemory]
      constructor
      · rintro ⟨found, hreply, hiff⟩ hreadable
        cases hreply
        exact Bool.false_ne_true (hiff.mpr hreadable)
      · intro hgone
        exact ⟨false, rfl, iff_of_false Bool.false_ne_true hgone⟩

end

def soleTable : LaserService Unit :=
  ⟨fun _ _ => 0, fun _ => none, fun _ => some 0, fun _ _ _ => some ()⟩

def storedKey : TableKey := ⟨[], [], ⟨[[97]], []⟩⟩

def storedText : Unit → RocksDbEngine :=
  fun _ => ((Call.set storedKey.key [98]).exec (.at 1) .fresh).2

theorem storedText_head :
    (slot (storedText ()).db.store storedKey.key).head = some (rawStringBytes 0 [98]) := by decide

theorem storedText_headOf : headOf (rawStringBytes 0 [98]) = some (.RAW_STRING, 0) :=
  headOf_headBytes

theorem storedText_legible : Legible (rawStringBytes 0 [98]) .RAW_STRING := fun _ => by decide

theorem expiry_agrees_stored :
    soleTable.TtlAgrees () storedKey (fun _ => .at 7)
      (soleTable.expireAt (fun _ => .at 5) storedKey 9 storedText).2 := by
  have hlocated : soleTable.getDatabaseEngine storedKey = .ok (some ()) := rfl
  refine ((expiry_agrees_iff hlocated (fun _ => .at 5) storedText 9 storedText_head
    storedText_headOf).1 (by decide) (fun _ => .at 7) (Env.at_healthy 7)).mpr ⟨fun _ => ?_, ?_⟩
  · exact ⟨by decide, by decide, by decide, by decide⟩
  · exact fun hlegible => absurd storedText_legible hlegible

def emptyText : Unit → RocksDbEngine :=
  fun _ => ((Call.set storedKey.key []).exec (.at 1) .fresh).2

/-- At its very timestamp a value is readable with `ttl` 0; an empty string has time left and is
not readable; the times 0 and -1 do not make a value expire; a wait that goes back to 0 keeps it
longer than no wait. -/
theorem expiry_disagrees :
    ¬soleTable.TtlAgrees () storedKey (fun _ => .at 9)
        (soleTable.expireAt (fun _ => .at 5) storedKey 9 storedText).2 ∧
      ¬soleTable.TtlAgrees () storedKey (fun _ => .at 7)
        (soleTable.expireAt (fun _ => .at 5) storedKey 9 emptyText).2 ∧
      (∀ time ∈ [0, -1], ¬Answers (.at 5)
        ((soleTable.expireAt (fun _ => .at 5) storedKey time storedText).2 ()) storedKey.key
          .RS_KEY_EXPIRE) ∧
      Answers (.at 6) ((soleTable.expire (fun _ => .at 5) storedKey 0 storedText).2 ())
        storedKey.key .RS_KEY_EXPIRE ∧
      ¬Answers (.at 6) ((soleTable.expire (fun _ => .at 5) storedKey (-5) storedText).2 ())
        storedKey.key .RS_KEY_EXPIRE := by
  have hlocated : soleTable.getDatabaseEngine storedKey = .ok (some ()) := rfl
  have hempty : (slot (emptyText ()).db.store storedKey.key).head = some (rawStringBytes 0 []) := by
    decide
  refine ⟨?_, ?_, ?_, ?_, ?_⟩
  · rw [ttlAgrees_iff hlocated (Env.at_healthy 9)
      (stored_expireAt hlocated storedText_head storedText_headOf (by decide))]
    exact fun hagrees => (hagrees.1 storedText_legible).2.1 rfl
  · rw [ttlAgrees_iff hlocated (Env.at_healthy 7)
      (stored_expireAt hlocated hempty headOf_headBytes (by decide))]
    exact fun hagrees => absurd (hagrees.2 fun hlegible => hlegible rfl (by decide)) (by decide)
  · intro time htime
    rw [(stored_expireAt hlocated storedText_head storedText_headOf
      (by fin_cases htime <;> decide)).expired_iff (Env.at_healthy 5)]
    fin_cases htime <;> exact fun hexpired => absurd hexpired.2.2 (by decide)
  · rw [(stored_expire hlocated storedText_head storedText_headOf (by decide)).expired_iff
      (Env.at_healthy 6)]
    exact ⟨storedText_legible, by decide, by decide⟩
  · rw [(stored_expire hlocated storedText_head storedText_headOf (by decide)).expired_iff
      (Env.at_healthy 6)]
    exact fun hexpired => absurd hexpired.2.2 (by decide)

def onDisk (now : UInt64) : Env := { Env.at now with inMemory := fun _ => false }

def storedHash : RocksDbEngine :=
  ((Call.hset storedKey.key [102] [98]).exec (.at 1) .fresh).2

/-- A string that was flushed to a file is not found, and a hash in memory is an error. -/
theorem exist_disagrees :
    ReadableKey (onDisk 2) (storedText ()) storedKey.key ∧
      (storedText ()).exist (onDisk 2) (getFormatKey storedKey.key) = (.OK, false) ∧
      ReadableKey (.at 2) storedHash storedKey.key ∧
      storedHash.exist (.at 2) (getFormatKey storedKey.key) = (.RS_INVALID_ARGUMENT, false) := by
  have htext : StampedKey (storedText ()) storedKey.key 0 :=
    ⟨rawStringBytes 0 [98], .RAW_STRING, by decide, by decide⟩
  have hhash : StampedKey storedHash storedKey.key 0 :=
    ⟨sizeMetaBytes .MAP 0 1, .MAP, by decide, by decide⟩
  rw [htext.readable_iff, hhash.readable_iff]
  decide

end LaserDB
