import LaserDB.Refinement.Keyed

/-!
# What the writes on one key put into their batches

For every write one equation says which slot writes it puts into its batch, with and without a table
TTL.
-/

namespace LaserDB

open List Option
open LaserValueFormatBase (decode decodeAs ofBuffer ofType)
open ByteCodec RocksDbEngine
open LaserValue (rawData setRawBuffer)

def headOf (bytes : Bytes) : Option (ValueType × UInt64) :=
  match (LaserValueFormatBase.ofBuffer bytes).decode with
  | (.accepted, head) => some (head.type, head.timestamp)
  | _ => none

def RocksDbEngine.stamp (engine : RocksDbEngine) (env : Env) (timestamp : UInt64) : UInt64 :=
  if engine.ttl = 0 then timestamp else engine.ttl + env.now

section
variable {V : Type} [LaserValue V] {failure : Status}

theorem decodeOr_eq_ok {value result : V} :
    decodeOr failure value = .ok result ↔ LaserValue.decode value = (.accepted, result) := by
  unfold decodeOr
  split
  · rename_i heq
    rw [heq, Except.ok.injEq, Prod.mk.injEq]
    exact ⟨fun hvalue => ⟨rfl, hvalue⟩, And.right⟩
  · rename_i hne
    constructor
    · intro herror
      cases herror
    · intro hdecode
      exact (hne result hdecode).elim

theorem rawData_setAutoExpire {engine : RocksDbEngine} {env : Env} (value : V) :
    rawData (engine.setAutoExpire env value) = rawData value := by
  unfold setAutoExpire setExpire
  split
  · rfl
  · simp only [rawData, LaserValue.setTimestamp, LaserValue.base_setBase]

end

variable {kind : ValueType}

variable (timestamp : UInt64)

section
variable (engine : RocksDbEngine) (env : Env)

theorem stamp_stamp :
    engine.stamp env (engine.stamp env timestamp) = engine.stamp env timestamp := by
  unfold RocksDbEngine.stamp
  split <;> rfl

theorem stamp_of_noTtl (httl : engine.ttl = 0) (timestamp : UInt64) :
    engine.stamp env timestamp = timestamp := if_pos httl

theorem rawString_stamped (value : LaserValueRawString) :
    engine.setAutoExpire env value =
      { value with timestamp := engine.stamp env value.timestamp } := by
  unfold setAutoExpire setExpire RocksDbEngine.stamp
  split <;> rfl

theorem counter_stamped (value : LaserValueCounter) :
    engine.setAutoExpire env value =
      { value with timestamp := engine.stamp env value.timestamp } := by
  unfold setAutoExpire setExpire RocksDbEngine.stamp
  split <;> rfl

theorem sizeMeta_stamped (value : SizeMeta kind) :
    engine.setAutoExpire env value =
      { value with timestamp := engine.stamp env value.timestamp } := by
  unfold setAutoExpire setExpire RocksDbEngine.stamp
  split <;> rfl

theorem listMeta_stamped (value : LaserValueListMeta) :
    engine.setAutoExpire env value =
      { value with timestamp := engine.stamp env value.timestamp } := by
  unfold setAutoExpire setExpire RocksDbEngine.stamp
  split <;> rfl

theorem zset_stamped (value : LaserValueZSet) :
    engine.setAutoExpire env value =
      { value with timestamp := engine.stamp env value.timestamp } := by
  unfold setAutoExpire setExpire RocksDbEngine.stamp
  split <;> rfl

variable {type : ValueType} {timestamp : UInt64} {bytes tail : Bytes}

theorem headOf_headBytes : headOf (headBytes type timestamp ++ tail) = some (type, timestamp) := by
  obtain ⟨buffer, hdecode, -⟩ :=
    headDecode_of_rawData (ofBuffer (headBytes type timestamp ++ tail)) rfl
  rw [headOf, hdecode]

variable {self head : LaserValueFormatBase}

theorem headOf_of_decode (hdecode : self.decode = (.accepted, head)) :
    headOf self.rawData = some (head.type, head.timestamp) := by
  have hbuffer : (ofBuffer self.rawData).toLaserSerializer.resetOffset =
      self.toLaserSerializer.resetOffset := rfl
  simp only [headOf, decode, hbuffer] at hdecode ⊢
  rcases htype : self.toLaserSerializer.resetOffset.unpackInt UInt8 .little with ⟨_ | type, buffer⟩
  · simp only [htype] at hdecode
    cases hdecode
  · simp only [htype] at hdecode ⊢
    rcases htime : buffer.unpackInt UInt64 .little with ⟨_ | timestamp, rest⟩
    · simp only [htime] at hdecode
      cases hdecode
    · simp only [htime] at hdecode ⊢
      cases hdecode
      rfl

theorem headOf_of_decodeAs (hdecode : self.decodeAs type = (.accepted, head)) :
    headOf self.rawData = some (type, head.timestamp) ∧ head.type = type := by
  unfold decodeAs at hdecode
  split at hdecode
  · rename_i found hfound
    split at hdecode
    · cases hdecode
    · rename_i htype
      cases hdecode
      rw [not_ne_iff] at htype
      exact ⟨htype ▸ headOf_of_decode hfound, htype⟩
  · rename_i hne _
    cases hdecode
    exact (hne rfl).elim

theorem rawString_headOf {value : LaserValueRawString}
    (hdecode : LaserValue.decode (setRawBuffer LaserValueRawString.new bytes) =
      (.accepted, value)) :
    headOf bytes = some (.RAW_STRING, value.timestamp) := by
  change LaserValueRawString.decode _ = _ at hdecode
  unfold LaserValueRawString.decode at hdecode
  split at hdecode
  · rename_i head hhead
    split at hdecode
    · cases hdecode
    · rename_i htype
      rw [not_ne_iff] at htype
      rcases hread : head.toLaserSerializer.unpackString [] with ⟨verdict, text, buffer⟩
      rw [hread] at hdecode
      cases hdecode
      exact htype ▸ headOf_of_decode hhead
  · rename_i hne _
    cases hdecode
    exact (hne rfl).elim

theorem sizeMeta_headOf {self value : SizeMeta kind}
    (hdecode : LaserValue.decode self = (.accepted, value)) :
    headOf self.rawData = some (kind, value.timestamp) ∧ value.type = kind := by
  change SizeMeta.decode _ = _ at hdecode
  unfold SizeMeta.decode at hdecode
  split at hdecode
  · rename_i head hhead
    split at hdecode
    · cases hdecode
    · cases hdecode
      obtain ⟨hof, htype⟩ := headOf_of_decodeAs hhead
      exact ⟨hof, htype⟩
  · rename_i hne _
    cases hdecode
    exact (hne rfl).elim

theorem listMeta_headOf {value : LaserValueListMeta}
    (hdecode : LaserValue.decode (setRawBuffer LaserValueListMeta.new bytes) = (.accepted, value)) :
    headOf bytes = some (.LIST, value.timestamp) ∧ value.type = .LIST := by
  change LaserValueListMeta.decode _ = _ at hdecode
  unfold LaserValueListMeta.decode at hdecode
  split at hdecode
  · rename_i head hhead
    split at hdecode
    · cases hdecode
    · dsimp only at hdecode
      split at hdecode
      · cases hdecode
      · cases hdecode
        exact headOf_of_decodeAs hhead
  · rename_i hne _
    cases hdecode
    exact (hne rfl).elim

end

def Env.healed (env : Env) : Env := { env with readFault := fun _ => none, writeFault := none }

theorem Env.healed_healthy (env : Env) : env.healed.Healthy := ⟨fun _ => rfl, rfl⟩

/-- The second plan does what the first one does if that succeeds, and no early return of the first
one is taken for success. -/
structure Heals {α : Type} (plan healed : Except Status α) : Prop where
  ok : ∀ result, plan = .ok result → healed = .ok result
  error : ∀ status, plan = .error status → status ≠ .OK

section
variable {α β : Type}

theorem Heals.of_ok (result : α) : Heals (.ok result) (.ok result) :=
  ⟨fun _ heq => heq, fun _ heq => nomatch heq⟩

theorem Heals.of_error {status : Status} (hstatus : status ≠ .OK) :
    Heals (.error status : Except Status α) (.error status) :=
  ⟨fun _ heq => (nomatch heq), fun _ heq => by cases heq; exact hstatus⟩

theorem Heals.bind {plan healed : Except Status α} {next next' : α → Except Status β}
    (hplan : Heals plan healed) (hnext : ∀ value, Heals (next value) (next' value)) :
    Heals (plan >>= next) (healed >>= next') := by
  cases plan with
  | error status =>
    have hne := hplan.error status rfl
    exact ⟨fun _ heq => (nomatch heq), fun _ heq => by cases heq; exact hne⟩
  | ok value =>
    rw [hplan.ok value rfl, ok_bind, ok_bind]
    exact hnext value

variable {V : Type} [LaserValue V] {env : Env}

variable (db : ReplicationDB)

theorem Heals.readOptional (value : V) (target : LaserSerializer) :
    Heals (db.readOptional env value target) (db.readOptional env.healed value target) := by
  unfold ReplicationDB.readOptional ReplicationDB.read
  have hhealed : env.healed.readFault target.rawData = none := rfl
  rw [hhealed]
  cases hfault : env.readFault target.rawData with
  | some fault =>
    cases fault <;> exact ⟨fun _ heq => (by cases heq), fun _ heq => by cases heq; decide⟩
  | none =>
    cases db.store.get target.rawData with
    | none => exact .of_ok none
    | some bytes => exact .of_ok (some (setRawBuffer value bytes))

theorem Heals.readFound (value : V) (target : LaserSerializer) :
    Heals (db.readFound env value target) (db.readFound env.healed value target) := by
  unfold ReplicationDB.readFound ReplicationDB.read
  have hhealed : env.healed.readFault target.rawData = none := rfl
  rw [hhealed]
  cases hfault : env.readFault target.rawData with
  | some fault =>
    cases fault <;> exact ⟨fun _ heq => (by cases heq), fun _ heq => by cases heq; decide⟩
  | none =>
    cases db.store.get target.rawData with
    | none => exact .of_error (by decide)
    | some bytes => exact .of_ok (setRawBuffer value bytes)

theorem Heals.decodeOr (value : V) :
    Heals (decodeOr .RS_INVALID_ARGUMENT value) (decodeOr .RS_INVALID_ARGUMENT value) := by
  unfold LaserDB.decodeOr
  split
  · exact .of_ok _
  · exact .of_error (by decide)

end

variable (values : OrderedMap Bytes Bytes)

variable (member : Bytes) (data : Bytes)

variable (field value : Bytes)

open Heals (readOptional)

section
variable (engine : RocksDbEngine) (env : Env) (key : LaserKeyFormatBase)

theorem appendPlan_heals :
    Heals (engine.appendPlan env key data) (engine.appendPlan env.healed key data) := by
  unfold appendPlan
  refine (readOptional engine.db _ _).bind fun found => ?_
  cases found with
  | none => exact .of_ok _
  | some oldValue => exact (Heals.decodeOr oldValue).bind fun value => .of_ok _

theorem setCounterByStepPlan_heals (step : Int64) :
    Heals (engine.setCounterByStepPlan env key step)
      (engine.setCounterByStepPlan env.healed key step) := by
  unfold setCounterByStepPlan
  refine (readOptional engine.db _ _).bind fun found => ?_
  cases found with
  | none => exact .of_ok _
  | some oldCounter => exact (Heals.decodeOr oldCounter).bind fun value => .of_ok _

theorem setxPlan_heals (options : SetOptions) :
    Heals (engine.setxPlan env key data options) (engine.setxPlan env.healed key data options) := by
  have hcheck : Heals (engine.checkNotExists env key) (engine.checkNotExists env.healed key) := by
    unfold checkNotExists
    refine (readOptional engine.db _ _).bind fun found => ?_
    cases found with
    | none => exact .of_ok _
    | some oldValue =>
      refine (Heals.decodeOr oldValue).bind fun value => ?_
      have hexpire : checkKeyExpire env.healed value = checkKeyExpire env value := rfl
      rw [hexpire]
      split
      · exact .of_ok _
      · exact .of_error (by decide)
  unfold setxPlan
  cases options.notExists with
  | false => exact .of_ok _
  | true => exact hcheck.bind fun _ => .of_ok _

theorem hsetPlan_heals :
    Heals (engine.hsetPlan env key field value) (engine.hsetPlan env.healed key field value) := by
  unfold hsetPlan
  refine (readOptional engine.db _ _).bind fun found => ?_
  cases found with
  | none => exact .of_ok _
  | some metaData =>
    refine (readOptional engine.db _ _).bind fun oldValue => ?_
    exact (Heals.decodeOr metaData).bind fun metaData => .of_ok _

theorem hmsetLoop_heals (found : Bool) (pairs : List (Bytes × Bytes)) (metaData : LaserValueMapMeta)
    (batch : RocksDbBatch) :
    Heals (engine.hmsetLoop env key found pairs metaData batch)
      (engine.hmsetLoop env.healed key found pairs metaData batch) := by
  induction pairs generalizing metaData batch with
  | nil => exact .of_ok batch
  | cons pair pairs ih =>
    unfold hmsetLoop
    refine .bind ?_ fun isNew => ih _ _
    unfold hmsetIsNew
    cases found with
    | false => exact .of_ok true
    | true => exact (readOptional engine.db _ _).bind fun oldValue => .of_ok _

theorem hmsetPlan_heals :
    Heals (engine.hmsetPlan env key values) (engine.hmsetPlan env.healed key values) := by
  unfold hmsetPlan
  refine (readOptional engine.db _ _).bind fun found => ?_
  have hloop (metaData : LaserValueMapMeta) :=
    hmsetLoop_heals engine env key found.isSome values.entries metaData []
  cases found with
  | none => exact (hloop _).bind fun batch => .of_ok _
  | some metaData =>
    exact (Heals.decodeOr metaData).bind fun metaData => (hloop _).bind fun batch => .of_ok _

theorem listPushPlan_heals (value : Bytes) (isLeft : Bool) :
    Heals (engine.listPushPlan env key value isLeft)
      (engine.listPushPlan env.healed key value isLeft) := by
  unfold listPushPlan
  refine (readOptional engine.db _ _).bind fun found => ?_
  cases found with
  | none => exact .of_ok _
  | some metaData => exact (Heals.decodeOr metaData).bind fun metaData => .of_ok _

theorem saddPlan_heals :
    Heals (engine.saddPlan env key member) (engine.saddPlan env.healed key member) := by
  unfold saddPlan
  refine (readOptional engine.db _ _).bind fun found => ?_
  cases found with
  | none => exact .of_ok _
  | some metaData =>
    refine (readOptional engine.db _ _).bind fun oldValue => ?_
    refine (Heals.decodeOr metaData).bind fun metaData => ?_
    cases oldValue <;> exact .of_ok _

theorem zaddRound_heals (found : Bool) (member : Bytes) (score : Int64)
    (zsetMeta : LaserValueZSetMeta) (batch : RocksDbBatch) :
    Heals (engine.zaddRound env key found member score zsetMeta batch)
      (engine.zaddRound env.healed key found member score zsetMeta batch) := by
  unfold zaddRound
  cases found with
  | false => exact .of_ok _
  | true =>
    refine (readOptional engine.db _ _).bind fun membersValue => ?_
    refine (Heals.decodeOr zsetMeta).bind fun zsetMeta => ?_
    cases membersValue with
    | none => exact .of_ok _
    | some membersValue =>
      dsimp only
      split <;> exact .of_ok _

theorem zaddPlan_heals (memberScores : OrderedMap Bytes Int64) :
    Heals (engine.zaddPlan env key memberScores) (engine.zaddPlan env.healed key memberScores) := by
  have hloop (found : Bool) (pairs : List (Bytes × Int64)) (zsetMeta : LaserValueZSetMeta)
      (batch : RocksDbBatch) : Heals (engine.zaddLoop env key found pairs zsetMeta batch)
        (engine.zaddLoop env.healed key found pairs zsetMeta batch) := by
    induction pairs generalizing zsetMeta batch with
    | nil => exact .of_ok batch
    | cons pair pairs ih =>
      unfold zaddLoop
      exact (zaddRound_heals engine env key found _ _ _ _).bind fun result => ih _ _
  unfold zaddPlan
  refine (readOptional engine.db _ _).bind fun zsetMeta => ?_
  exact (hloop _ _ _ _).bind fun batch => .of_ok _

theorem expireAtPlan_heals :
    Heals (engine.expireAtPlan env key timestamp) (engine.expireAtPlan env.healed key timestamp) := by
  unfold expireAtPlan
  refine (Heals.readFound engine.db _ _).bind fun found => ?_
  refine (Heals.decodeOr found).bind fun value => ?_
  cases value.type <;> exact .of_ok _

end

def Slot.Reads {V : Type} [LaserValue V] (slot : Slot) (fresh value : V) : Prop :=
  ∃ bytes, slot.head = some bytes ∧
    LaserValue.decode (LaserValue.setRawBuffer fresh bytes) = (.accepted, value)

def Slot.Finds {V : Type} [LaserValue V] (slot : Slot) (fresh : V) : Option V → Prop
  | none => slot.head = none
  | some value => slot.Reads fresh value

def Slot.plan {V α : Type} [LaserValue V] (slot : Slot) (key : LaserKey) (fresh : V)
    (result : Option V → α) (writes : Option V → Slot → List SlotWrite) :
    Except Status (α × RocksDbBatch) :=
  match slot.head with
  | none => .ok (result none, batchOf key (writes none slot))
  | some bytes =>
    decodeOr .RS_INVALID_ARGUMENT (LaserValue.setRawBuffer fresh bytes) >>= fun value =>
      .ok (result (some value), batchOf key (writes (some value) slot))

open SizeMeta (new incrSize)

section
variable {V α : Type} [LaserValue V] {slot : Slot} {key : LaserKey} {fresh : V}
  {result : Option V → α} {writes : Option V → Slot → List SlotWrite}

theorem Slot.plan_of_finds {found : Option V} (hfound : slot.Finds fresh found) :
    slot.plan key fresh result writes = .ok (result found, batchOf key (writes found slot)) := by
  cases found with
  | none => rw [Slot.plan, (hfound : slot.head = none)]
  | some value =>
    obtain ⟨bytes, hhead, hdecode⟩ := hfound
    simp only [Slot.plan, hhead, decodeOr_eq_ok.mpr hdecode, ok_bind]

theorem finds_sizeMeta {timestamp : UInt64} {size : UInt32}
    (hhead : slot.head = some (sizeMetaBytes kind timestamp size)) :
    ∃ buffer : LaserSerializer,
      slot.Finds (new : SizeMeta kind) (some ⟨⟨buffer, kind, timestamp⟩, size⟩) := by
  obtain ⟨buffer, hdecode⟩ := decodeOr_sizeMeta .RS_INVALID_ARGUMENT kind timestamp size
  exact ⟨buffer, _, hhead, decodeOr_eq_ok.mp hdecode⟩

theorem Slot.finds_of_plan {planned : α × RocksDbBatch}
    (hplan : slot.plan key fresh result writes = .ok planned) :
    ∃ found, slot.Finds fresh found ∧ planned = (result found, batchOf key (writes found slot)) := by
  unfold Slot.plan at hplan
  cases hhead : slot.head with
  | none =>
    rw [hhead] at hplan
    cases hplan
    exact ⟨none, hhead, rfl⟩
  | some bytes =>
    rw [hhead] at hplan
    obtain ⟨value, hdecode, heq⟩ := bind_eq_ok.mp hplan
    cases heq
    exact ⟨some value, ⟨bytes, hhead, decodeOr_eq_ok.mp hdecode⟩, rfl⟩

theorem Heals.finds {plan healed : Except Status (α × RocksDbBatch)} {value : α}
    {batch : RocksDbBatch} (hheals : Heals plan healed)
    (heq : healed = slot.plan key fresh result writes) (hplan : plan = .ok (value, batch)) :
    ∃ found, slot.Finds fresh found ∧ batch = batchOf key (writes found slot) := by
  obtain ⟨found, hfound, hplanned⟩ := Slot.finds_of_plan (heq ▸ hheals.ok _ hplan)
  exact ⟨found, hfound, congrArg Prod.snd hplanned⟩

end

section
variable (stamp : UInt64)

def appendWrites (data : Bytes) (found : Option LaserValueRawString) (_ : Slot) : List SlotWrite :=
  [.putHead (rawStringBytes stamp ((found.map (·.value)).getD [] ++ data))]

def counterWrites (step : Int64) (found : Option LaserValueCounter) (_ : Slot) : List SlotWrite :=
  [.putHead (counterBytes stamp ((found.map (·.value)).getD 0 + step))]

def hsetWrites (field value : Bytes) (found : Option LaserValueMapMeta) (slot : Slot) :
    List SlotWrite :=
  (match found with
    | none => [.putHead (sizeMetaBytes .MAP stamp 1)]
    | some metaData =>
      if slot.records.get (packedString field) = none then
        [.putHead (sizeMetaBytes metaData.type metaData.timestamp (metaData.size + 1))]
      else []) ++
    [.put (packedString field) (rawStringBytes 0 value)]

def saddWrites (member : Bytes) (found : Option LaserValueSetMeta) (slot : Slot) :
    List SlotWrite :=
  match found with
  | none => [.putHead (sizeMetaBytes .SET stamp 1), .put (packedString member) []]
  | some metaData =>
    if slot.records.get (packedString member) = none then
      [.putHead (sizeMetaBytes metaData.type metaData.timestamp (metaData.size + 1)),
        .put (packedString member) []]
    else []

end

def listPushWrites (engine : RocksDbEngine) (env : Env) (value : Bytes) (isLeft : Bool)
    (found : Option LaserValueListMeta) (_ : Slot) : List SlotWrite :=
  let metaData := found.getD LaserValueListMeta.new
  let pushed := if isLeft then metaData.pushFront else metaData.pushBack
  [.putHead (headBytes metaData.type (engine.stamp env metaData.timestamp) ++
      (intBytes .little pushed.2.start ++ intBytes .little pushed.2.endIndex)),
    .put (intBytes .big pushed.1) (rawStringBytes 0 value)]

/-- The writes of the loop of `hmset`; `known` tells the fields that are not counted. -/
def fieldWrites (known : Bytes → Bool) (type : ValueType) (stamp : UInt64) :
    UInt32 → List (Bytes × Bytes) → List SlotWrite
  | _, [] => []
  | size, (field, value) :: rest =>
    if known (packedString field) then
      .put (packedString field) (rawStringBytes 0 value) ::
        fieldWrites known type stamp size rest
    else
      .putHead (sizeMetaBytes type stamp (size + 1)) ::
        .put (packedString field) (rawStringBytes 0 value) ::
          fieldWrites known type stamp (size + 1) rest

def hmsetWrites (engine : RocksDbEngine) (env : Env) (values : OrderedMap Bytes Bytes)
    (found : Option LaserValueMapMeta) (slot : Slot) : List SlotWrite :=
  let metaData := found.getD SizeMeta.new
  fieldWrites (fun suffix => found.isSome && (slot.records.get suffix).isSome) metaData.type
    (engine.stamp env metaData.timestamp) metaData.size values.entries

def storedScore (bytes : Bytes) : LaserValueZSet :=
  (LaserValue.setRawBuffer LaserValueZSet.new bytes).decode.2

/-- The record of a score with one more member; `renew` is what happens to its timestamp. -/
def grownBytes (renew : UInt64 → UInt64) (bytes member : Bytes) : Bytes :=
  headBytes (storedScore bytes).type (renew (storedScore bytes).timestamp) ++
    (intBytes .little (UInt32.ofNat ((storedScore bytes).members.length + 1)) ++
      packedStrings ((storedScore bytes).members ++ [member]))

/-- The writes of the loop of `zadd`; `record` is what it reads of a score. -/
def scoreWrites (renew : UInt64 → UInt64) (record : Bytes → Option Bytes) (type : ValueType)
    (stamp : UInt64) : UInt32 → List (Bytes × Int64) → List SlotWrite
  | _, [] => []
  | size, (member, score) :: rest =>
    match record (intBytes .big score) with
    | none =>
      .putHead (sizeMetaBytes type stamp (size + 1)) ::
        .put (intBytes .big score) (zsetBytes (renew 0) [member]) ::
          scoreWrites renew record type stamp (size + 1) rest
    | some bytes =>
      .putHead (sizeMetaBytes type stamp size) ::
        ((if member ∈ (storedScore bytes).members then []
          else [.put (intBytes .big score) (grownBytes renew bytes member)]) ++
          scoreWrites renew record type stamp size rest)

def zaddWrites (engine : RocksDbEngine) (env : Env) (memberScores : OrderedMap Bytes Int64)
    (found : Option LaserValueZSetMeta) (slot : Slot) : List SlotWrite :=
  let metaData := found.getD SizeMeta.new
  scoreWrites (engine.stamp env)
    (fun suffix => if found.isSome then slot.records.get suffix else none) metaData.type
    (engine.stamp env metaData.timestamp) metaData.size memberScores.entries

def count32 {α : Type} (test : α → Bool) (pairs : List α) : UInt32 :=
  UInt32.ofNat (pairs.countP test)

def scoreRound (renew : UInt64 → UInt64) (record : Bytes → Option Bytes)
    (records : Store) (entry : Bytes × Int64) : Store :=
  match record (intBytes .big entry.2) with
  | none => records.put (intBytes .big entry.2) (zsetBytes (renew 0) [entry.1])
  | some bytes =>
    if entry.1 ∈ (storedScore bytes).members then records
    else records.put (intBytes .big entry.2) (grownBytes renew bytes entry.1)

section
variable (renew : UInt64 → UInt64)

theorem count32_cons_true {test : α → Bool} {first : α} {rest : List α}
    (htest : test first = true) (size : UInt32) :
    size + count32 test (first :: rest) = size + 1 + count32 test rest := by
  rw [count32, countP_cons_of_pos htest, UInt32.ofNat_add, count32]
  grind

theorem count32_cons_false {test : α → Bool} {first : α} {rest : List α}
    (htest : ¬test first = true) : count32 test (first :: rest) = count32 test rest := by
  rw [count32, countP_cons_of_neg htest, count32]

theorem applyAll_fieldWrites (known : Bytes → Bool) (type : ValueType) (stamp : UInt64)
    (size : UInt32) (entries : List (Bytes × Bytes)) (slot : Slot) :
    slot.applyAll (fieldWrites known type stamp size entries) =
      ⟨if entries.all fun entry => known (packedString entry.1) then slot.head
        else some (sizeMetaBytes type stamp
          (size + count32 (fun entry => !known (packedString entry.1)) entries)),
        slot.records.putAll
          (entries.map fun entry => (packedString entry.1, rawStringBytes 0 entry.2))⟩ := by
  induction entries generalizing size slot with
  | nil => rfl
  | cons entry rest ih =>
    obtain ⟨field, value⟩ := entry
    by_cases hknown : known (packedString field) = true
    · have hrest := ih size
        (SlotWrite.apply slot (.put (packedString field) (rawStringBytes 0 value)))
      rw [Slot.applyAll] at hrest
      rw [fieldWrites, if_pos hknown, Slot.applyAll, foldl_cons, hrest,
        count32_cons_false (by simpa using hknown), all_cons, hknown]
      rfl
    · have hrest := ih (size + 1) (SlotWrite.apply (SlotWrite.apply slot
        (.putHead (sizeMetaBytes type stamp (size + 1))))
        (.put (packedString field) (rawStringBytes 0 value)))
      rw [Slot.applyAll] at hrest
      rw [fieldWrites, if_neg hknown, Slot.applyAll, foldl_cons, foldl_cons, hrest,
        count32_cons_true (by simpa using hknown), all_cons]
      have hfalse : known (packedString field) = false := by simpa using hknown
      rw [hfalse]
      by_cases hall : (rest.all fun entry => known (packedString entry.1)) = true
      · have hzero :
            count32 (fun entry : Bytes × Bytes => !known (packedString entry.1)) rest = 0 := by
          rw [count32, List.countP_eq_zero.mpr]
          · rfl
          · simpa using hall
        simp [hall, hzero, SlotWrite.apply]
        rfl
      · simp [hall]
        rfl

theorem applyAll_scoreWrites (record : Bytes → Option Bytes) (type : ValueType) (stamp : UInt64)
    (size : UInt32) (entries : List (Bytes × Int64)) (slot : Slot) :
    slot.applyAll (scoreWrites renew record type stamp size entries) =
      ⟨if entries = [] then slot.head
        else some (sizeMetaBytes type stamp
          (size + count32 (fun entry => (record (intBytes .big entry.2)).isNone) entries)),
        entries.foldl (scoreRound renew record) slot.records⟩ := by
  induction entries generalizing size slot with
  | nil => rfl
  | cons entry rest ih =>
    obtain ⟨member, score⟩ := entry
    -- After a round the head is the one it has written, also when it was the last.
    have hround {size' : UInt32} {records : Store}
        (hsize : size + count32 (fun entry => (record (intBytes .big entry.2)).isNone)
          ((member, score) :: rest) =
          size' + count32 (fun entry => (record (intBytes .big entry.2)).isNone) rest)
        (hrecords : scoreRound renew record slot.records (member, score) = records) :
        (Slot.applyAll ⟨some (sizeMetaBytes type stamp size'), records⟩
          (scoreWrites renew record type stamp size' rest)) =
        ⟨some (sizeMetaBytes type stamp (size + count32
          (fun entry => (record (intBytes .big entry.2)).isNone) ((member, score) :: rest))),
          ((member, score) :: rest).foldl (scoreRound renew record) slot.records⟩ := by
      rw [ih, hsize, foldl_cons, hrecords]
      by_cases hnil : rest = []
      · subst hnil
        simp [count32]
      · rw [if_neg hnil]
    rw [if_neg (cons_ne_nil _ _), scoreWrites]
    cases hrecord : record (intBytes .big score) with
    | none =>
      refine hround (count32_cons_true (by simp [hrecord]) size) ?_
      simp only [scoreRound, hrecord]
      rfl
    | some bytes =>
      have hsize : size + count32 (fun entry => (record (intBytes .big entry.2)).isNone)
          ((member, score) :: rest) = size + count32
            (fun entry => (record (intBytes .big entry.2)).isNone) rest := by
        rw [count32_cons_false (by simp [hrecord])]
      dsimp only
      by_cases hmem : member ∈ (storedScore bytes).members
      · rw [if_pos hmem]
        refine hround hsize ?_
        simp only [scoreRound, hrecord, if_pos hmem]
      · rw [if_neg hmem]
        refine hround hsize ?_
        simp only [scoreRound, hrecord, if_neg hmem]
        rfl

end

section
variable {env : Env} {engine : RocksDbEngine} {key : LaserKey} (henv : env.Healthy)
include henv

theorem plan_append :
    engine.appendPlan env (getFormatKey key) data =
      (slot engine.db.store key).plan key LaserValueRawString.new
        (fun found => UInt32.ofNat ((found.map (·.value)).getD [] ++ data).length)
        (appendWrites (engine.stamp env 0) data) := by
  have hiput (text : Bytes) : RocksDbBatch.iput [] (getFormatKey key).toLaserSerializer
      (engine.setAutoExpire env (LaserValueRawString.ofValue text)).encode =
        batchOf key [.putHead (rawStringBytes (engine.stamp env 0) text)] := by
    rw [nil_eq_batchOf key, iput_head, rawString_stamped,
      rawData_rawString, rawString_encode_rawData]
    rfl
  unfold Slot.plan
  cases hhead : (slot engine.db.store key).head <;>
  · simp only [appendPlan, readOptional_head henv, hhead, map_none, map_some, ok_bind,
      pure_eq_ok, hiput]
    rfl

theorem plan_counter (step : Int64) :
    engine.setCounterByStepPlan env (getFormatKey key) step =
      (slot engine.db.store key).plan key LaserValueCounter.new
        (fun found => (found.map (·.value)).getD 0 + step)
        (counterWrites (engine.stamp env 0) step) := by
  have hiput (count : Int64) : RocksDbBatch.iput [] (getFormatKey key).toLaserSerializer
      (engine.setAutoExpire env (LaserValueCounter.ofValue count)).encode =
        batchOf key [.putHead (counterBytes (engine.stamp env 0) count)] := by
    rw [nil_eq_batchOf key, iput_head, counter_stamped, rawData_counter, counter_encode_rawData]
    rfl
  unfold Slot.plan
  cases hhead : (slot engine.db.store key).head <;>
  · simp only [setCounterByStepPlan, readOptional_head henv, hhead, map_none,
      map_some, ok_bind, pure_eq_ok, hiput]
    rfl

theorem plan_hset :
    engine.hsetPlan env (getFormatKey key) field value =
      (slot engine.db.store key).plan key (new : LaserValueMapMeta) (fun _ => ())
        (hsetWrites (engine.stamp env 0) field value) := by
  have hrecord := readOptional_record henv engine.db LaserValueRawString.new key
    (mapData_rawData key field)
  unfold Slot.plan
  cases hhead : (slot engine.db.store key).head with
  | none =>
    simp only [hsetPlan, readOptional_head henv, hhead, map_none, ok_bind, pure_eq_ok, nil_eq_batchOf key,
      iput_head, iput_record _ _ (mapData_rawData key field), sizeMeta_stamped]
    simp [hsetWrites, incrSize, new, ofType]
  | some bytes =>
    simp only [hsetPlan, readOptional_head henv, hhead, map_some, ok_bind, pure_eq_ok, hrecord]
    refine congrArg _ (funext fun metaData => ?_)
    cases hget : (slot engine.db.store key).records.get (packedString field) with
    | none =>
      simp only [map_none, nil_eq_batchOf key, iput_head, iput_record _ _ (mapData_rawData key field),
        rawData_setAutoExpire]
      simp [hsetWrites, hget, incrSize]
    | some old =>
      simp only [map_some, nil_eq_batchOf key, iput_record _ _ (mapData_rawData key field), rawData_setAutoExpire]
      simp [hsetWrites, hget]

theorem plan_sadd :
    engine.saddPlan env (getFormatKey key) member =
      (slot engine.db.store key).plan key (new : LaserValueSetMeta) (fun _ => ())
        (saddWrites (engine.stamp env 0) member) := by
  have hrecord := readOptional_record henv engine.db LaserValueRawString.new key
    (setData_rawData key member)
  have hnull : rawData LaserValueRawString.new = [] := rfl
  unfold Slot.plan
  cases hhead : (slot engine.db.store key).head with
  | none =>
    simp only [saddPlan, readOptional_head henv, hhead, map_none, ok_bind, pure_eq_ok, nil_eq_batchOf key,
      iput_head, iput_record _ _ (setData_rawData key member), sizeMeta_stamped,
      rawData_setAutoExpire, hnull]
    simp [saddWrites, incrSize, new, ofType]
  | some bytes =>
    simp only [saddPlan, readOptional_head henv, hhead, map_some, ok_bind, pure_eq_ok, hrecord]
    refine congrArg _ (funext fun metaData => ?_)
    cases hget : (slot engine.db.store key).records.get (packedString member) with
    | none =>
      simp only [map_none, nil_eq_batchOf key, iput_head, iput_record _ _ (setData_rawData key member),
        rawData_setAutoExpire, hnull]
      simp [saddWrites, hget, incrSize]
    | some old => simp [saddWrites, hget, batchOf]

theorem plan_push (value : Bytes) (isLeft : Bool) :
    engine.listPushPlan env (getFormatKey key) value isLeft =
      (slot engine.db.store key).plan key LaserValueListMeta.new (fun _ => ())
        (listPushWrites engine env value isLeft) := by
  unfold Slot.plan
  cases hhead : (slot engine.db.store key).head with
  | none =>
    simp only [listPushPlan, readOptional_head henv, hhead, map_none, ok_bind, pure_eq_ok,
      nil_eq_batchOf key, iput_head, iput_record _ _ (listData_rawData key _), listMeta_stamped,
      rawData_setAutoExpire]
    cases isLeft <;>
      simp [listPushWrites, LaserValueListMeta.pushFront, LaserValueListMeta.pushBack,
        LaserValueListMeta.new, ofType]
  | some bytes =>
    simp only [listPushPlan, readOptional_head henv, hhead, map_some, ok_bind, pure_eq_ok,
      nil_eq_batchOf key, iput_head, iput_record _ _ (listData_rawData key _), listMeta_stamped,
      rawData_setAutoExpire]
    refine congrArg _ (funext fun metaData => ?_)
    by_cases hends : metaData.start = metaData.endIndex <;> cases isLeft <;>
      simp [listPushWrites, LaserValueListMeta.pushFront, LaserValueListMeta.pushBack, hends]

theorem hmsetLoop_fieldWrites (found : Bool) (entries : List (Bytes × Bytes))
    (metaData : LaserValueMapMeta) (writes : List SlotWrite) :
    engine.hmsetLoop env (getFormatKey key) found entries metaData (batchOf key writes) =
      .ok (batchOf key (writes ++ fieldWrites
        (fun suffix => found && ((slot engine.db.store key).records.get suffix).isSome)
        metaData.type metaData.timestamp metaData.size entries)) := by
  induction entries generalizing metaData writes with
  | nil => simp [hmsetLoop, fieldWrites]
  | cons entry rest ih =>
    obtain ⟨field, value⟩ := entry
    have hnew : engine.hmsetIsNew env (getFormatKey key) found field = .ok (!(found &&
          ((slot engine.db.store key).records.get (packedString field)).isSome)) := by
      unfold hmsetIsNew
      cases found with
      | false => rfl
      | true =>
        simp only [↓reduceIte, readOptional_record henv _ _ _ (mapData_rawData key field),
          ok_bind, pure_eq_ok]
        cases (slot engine.db.store key).records.get (packedString field) <;> rfl
    simp only [hmsetLoop, hnew, ok_bind, fieldWrites]
    by_cases hknown : (found &&
        ((slot engine.db.store key).records.get (packedString field)).isSome) = true
    · simp only [hknown, Bool.not_true, Bool.false_eq_true, ↓reduceIte,
        iput_record _ _ (mapData_rawData key field), rawData_setAutoExpire, ih]
      simp
    · rw [Bool.not_eq_true] at hknown
      simp only [hknown, Bool.not_false, Bool.false_eq_true, ↓reduceIte, iput_head,
        iput_record _ _ (mapData_rawData key field), rawData_setAutoExpire, ih]
      simp only [rawData_sizeMeta, sizeMeta_encode_rawData, rawData_rawString,
        rawString_ofValue_rawData, append_assoc, cons_append, nil_append]
      rfl

theorem plan_hmset :
    engine.hmsetPlan env (getFormatKey key) values =
      (slot engine.db.store key).plan key (new : LaserValueMapMeta) (fun _ => ())
        (hmsetWrites engine env values) := by
  unfold Slot.plan
  cases hhead : (slot engine.db.store key).head <;>
  · simp only [hmsetPlan, readOptional_head henv, hhead, map_none, map_some, ok_bind,
      pure_eq_ok, nil_eq_batchOf key, hmsetLoop_fieldWrites henv, sizeMeta_stamped]
    rfl

variable (metaData : LaserValueZSetMeta)

omit henv in
theorem zaddWrite_new (score : Int64) (writes : List SlotWrite) :
    engine.zaddWrite env (getFormatKey key) member score metaData LaserValueZSet.new
        (batchOf key writes) =
      ((engine.setAutoExpire env metaData.incrSize).encode, batchOf key (writes ++
          [.putHead (sizeMetaBytes metaData.type (engine.stamp env metaData.timestamp)
              (metaData.size + 1)),
            .put (intBytes .big score) (zsetBytes (engine.stamp env 0) [member])])) := by
  simp only [zaddWrite, LaserValueZSet.new, length_nil, ↓reduceIte, iput_head,
    iput_record _ _ (zsetData_rawData key score), rawData_sizeMeta, sizeMeta_encode_rawData,
    rawData_zset, zset_encode_rawData, sizeMeta_stamped, zset_stamped, append_assoc,
    cons_append, nil_append]
  rfl

omit henv in
theorem zaddWrite_grown (bytes member : Bytes) (score : Int64) (writes : List SlotWrite) :
    engine.zaddWrite env (getFormatKey key) member score metaData
        ((storedScore bytes).addMember member) (batchOf key writes) =
      ((engine.setAutoExpire env metaData).encode, batchOf key (writes ++
          [.putHead (sizeMetaBytes metaData.type (engine.stamp env metaData.timestamp)
              metaData.size),
            .put (intBytes .big score) (grownBytes (engine.stamp env) bytes member)])) := by
  have hlength : ((storedScore bytes).addMember member).members.length ≠ 0 := by
    simp [LaserValueZSet.addMember]
  have hgrown : ((storedScore bytes).addMember member).members.length =
      (storedScore bytes).members.length + 1 := by
    simp [LaserValueZSet.addMember]
  simp only [zaddWrite, if_neg hlength, iput_head, iput_record _ _ (zsetData_rawData key score),
    rawData_sizeMeta, sizeMeta_encode_rawData, rawData_zset, zset_encode_rawData, sizeMeta_stamped,
    zset_stamped, append_assoc, cons_append, nil_append]
  rw [hgrown]
  rfl

/-- The meta data that a round of `zadd` goes on from. -/
private def roundMeta (found : Bool) (metaData : LaserValueZSetMeta) :
    Except Status LaserValueZSetMeta :=
  if found then decodeOr .RS_INVALID_ARGUMENT metaData else .ok metaData

omit henv in
theorem roundMeta_stamped (engine : RocksDbEngine) (env : Env) (found : Bool)
    {metaData : LaserValueZSetMeta}
    (htype : metaData.type = .ZSET) :
    ∃ next, roundMeta found (engine.setAutoExpire env metaData).encode = .ok next ∧
      next.type = .ZSET ∧ next.timestamp = engine.stamp env metaData.timestamp ∧
        next.size = metaData.size := by
  unfold roundMeta
  cases found with
  | false => exact ⟨_, rfl, by rw [sizeMeta_stamped]; exact ⟨htype, rfl, rfl⟩⟩
  | true =>
    have hraw : (engine.setAutoExpire env metaData).encode.rawData =
        sizeMetaBytes .ZSET (engine.stamp env metaData.timestamp) metaData.size := by
      rw [sizeMeta_encode_rawData, sizeMeta_stamped, htype]
    obtain ⟨buffer, hdecode⟩ := sizeMeta_decode _ hraw
    exact ⟨_, decodeOr_eq_ok.mpr hdecode, rfl, rfl, rfl⟩

theorem zaddLoop_scoreWrites (engine : RocksDbEngine) (key : LaserKey) (found : Bool)
    (entries : List (Bytes × Int64)) {metaData value : LaserValueZSetMeta}
    (hmeta : roundMeta found metaData = .ok value)
    (htype : value.type = .ZSET) (writes : List SlotWrite) :
    engine.zaddLoop env (getFormatKey key) found entries metaData (batchOf key writes) =
      .ok (batchOf key (writes ++ scoreWrites (engine.stamp env)
        (fun suffix => if found then (slot engine.db.store key).records.get suffix else none)
        .ZSET (engine.stamp env value.timestamp) value.size entries)) := by
  induction entries generalizing metaData value writes with
  | nil => simp [zaddLoop, scoreWrites]
  | cons entry rest ih =>
    obtain ⟨member, score⟩ := entry
    have hstep {object next : LaserValueZSetMeta} {writes' : List SlotWrite}
        (hround : engine.zaddRound env (getFormatKey key) found member score metaData
          (batchOf key writes) = .ok (object, batchOf key writes'))
        (hnext : roundMeta found object = .ok next) (hnextType : next.type = .ZSET)
        (htime : next.timestamp = engine.stamp env value.timestamp) :
        engine.zaddLoop env (getFormatKey key) found ((member, score) :: rest) metaData
            (batchOf key writes) =
          .ok (batchOf key (writes' ++ scoreWrites (engine.stamp env)
            (fun suffix => if found then (slot engine.db.store key).records.get suffix else none)
            .ZSET (engine.stamp env value.timestamp) next.size rest)) := by
      rw [zaddLoop, hround, ok_bind]
      dsimp only
      rw [ih hnext hnextType, htime, stamp_stamp]
    -- What the round reads of the score decides which of its three ends it takes.
    cases hrecord : (if found then (slot engine.db.store key).records.get (intBytes .big score)
        else none) with
    | none =>
      have hround : engine.zaddRound env (getFormatKey key) found member score metaData
          (batchOf key writes) = .ok (engine.zaddWrite env (getFormatKey key) member score value
            LaserValueZSet.new (batchOf key writes)) := by
        cases found with
        | false =>
          cases hmeta
          rfl
        | true =>
          have hdecode : decodeOr .RS_INVALID_ARGUMENT metaData = .ok value := hmeta
          have hget : (slot engine.db.store key).records.get (intBytes .big score) = none := hrecord
          simp only [zaddRound, ↓reduceIte,
            readOptional_record henv _ _ _ (zsetData_rawData key score), hget, ok_bind,
            hdecode, map_none, pure_eq_ok]
      rw [zaddWrite_new] at hround
      obtain ⟨next, hnext, hnextType, htime, hsize⟩ :=
        roundMeta_stamped engine env found (show value.incrSize.type = .ZSET from htype)
      rw [hstep hround hnext hnextType htime, hsize, htype]
      simp only [scoreWrites, hrecord, append_assoc, cons_append, nil_append]
      rfl
    | some bytes =>
      cases found with
      | false => cases hrecord
      | true =>
        have hdecode : decodeOr .RS_INVALID_ARGUMENT metaData = .ok value := hmeta
        have hget : (slot engine.db.store key).records.get (intBytes .big score) =
            some bytes := hrecord
        have hround : engine.zaddRound env (getFormatKey key) true member score metaData
            (batchOf key writes) =
            .ok (if member ∈ (storedScore bytes).members then
              ((engine.setAutoExpire env value).encode,
                (batchOf key writes).iput (getFormatKey key).toLaserSerializer
                  (engine.setAutoExpire env value).encode)
              else engine.zaddWrite env (getFormatKey key) member score value
                ((storedScore bytes).addMember member) (batchOf key writes)) := by
          simp only [zaddRound, ↓reduceIte,
            readOptional_record henv _ _ _ (zsetData_rawData key score), hget, ok_bind,
            hdecode, map_some, pure_eq_ok]
          exact (apply_ite Except.ok _ _ _).symm
        obtain ⟨next, hnext, hnextType, htime, hsize⟩ := roundMeta_stamped engine env true htype
        by_cases hmem : member ∈ (storedScore bytes).members
        · rw [if_pos hmem, iput_head, rawData_sizeMeta, sizeMeta_encode_rawData,
            sizeMeta_stamped, htype] at hround
          rw [sizeMeta_stamped, htype] at hnext
          rw [hstep hround hnext hnextType htime, hsize]
          simp [scoreWrites, hget, hmem]
        · rw [if_neg hmem, zaddWrite_grown, htype] at hround
          rw [hstep hround hnext hnextType htime, hsize]
          simp [scoreWrites, hget, hmem]

theorem plan_zadd {memberScores : OrderedMap Bytes Int64} (hne : memberScores.entries ≠ []) :
    engine.zaddPlan env (getFormatKey key) memberScores =
      (slot engine.db.store key).plan key (new : LaserValueZSetMeta) (fun _ => ())
        (zaddWrites engine env memberScores) := by
  unfold Slot.plan
  cases hhead : (slot engine.db.store key).head with
  | none =>
    have hmeta : roundMeta false (new : LaserValueZSetMeta) = .ok new := rfl
    have hloop := zaddLoop_scoreWrites henv engine key false memberScores.entries hmeta rfl []
    simp only [zaddPlan, readOptional_head henv, hhead, map_none, ok_bind, pure_eq_ok,
      isSome_none, getD_none, nil_eq_batchOf key, hloop]
    rfl
  | some bytes =>
    cases hdecode : decodeOr .RS_INVALID_ARGUMENT
        (setRawBuffer (new : LaserValueZSetMeta) bytes) with
    | error status =>
      obtain ⟨⟨member, score⟩, rest, hentries⟩ := exists_cons_of_ne_nil hne
      simp only [zaddPlan, readOptional_head henv, hhead, map_some, ok_bind,
        isSome_some, getD_some, hentries, zaddLoop, zaddRound, ↓reduceIte,
        readOptional_record henv _ _ _ (zsetData_rawData key score), hdecode, error_bind]
    | ok value =>
      have htype := (sizeMeta_headOf (decodeOr_eq_ok.mp hdecode)).2
      have hloop := zaddLoop_scoreWrites henv engine key true memberScores.entries hdecode htype []
      simp only [zaddPlan, readOptional_head henv, hhead, map_some, ok_bind, pure_eq_ok,
        isSome_some, getD_some, nil_eq_batchOf key, hloop, hdecode, zaddWrites, htype]
      rfl

end

def setxStamp (engine : RocksDbEngine) (env : Env) (ttl : UInt64) : UInt64 :=
  if ttl > 0 then ttl + env.now else engine.stamp env 0

theorem setxValue_rawData (engine : RocksDbEngine) (env : Env) (data : Bytes) (options : SetOptions) :
    (engine.setxValue env data options).rawData =
      rawStringBytes (setxStamp engine env options.ttl) data := by
  unfold setxValue setxStamp
  split
  · rename_i hpos
    have hne : options.ttl ≠ 0 := by
      intro hzero
      rw [hzero] at hpos
      exact absurd hpos (by decide)
    rw [rawString_encode_rawData, setExpire, if_neg hne]
    rfl
  · rw [rawString_encode_rawData, rawString_stamped]
    rfl

end LaserDB
