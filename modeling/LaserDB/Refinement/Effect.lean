import LaserDB.Refinement.Footprint
import LaserDB.Refinement.Plans
import LaserDB.Refinement.ZSetRange

/-!
# What a call does to the records of its key

For every call, what it can do to the slot of its key in any environment: with a table TTL, with
expired records, and when RocksDB fails.
-/

namespace LaserDB

open ByteCodec RocksDbEngine Function Option List OrderedMap SizeMeta
open LaserValue (rawData setRawBuffer)

/-- The records under a plain key: a string, a counter, or the meta record of a
composite value. -/
inductive MetaOf : ValueType → Bytes → Prop
  | string (timestamp : UInt64) (data : Bytes) : MetaOf .RAW_STRING (rawStringBytes timestamp data)
  | counter (timestamp : UInt64) (value : Int64) : MetaOf .COUNTER (counterBytes timestamp value)
  | map (timestamp : UInt64) (size : UInt32) : MetaOf .MAP (sizeMetaBytes .MAP timestamp size)
  | list (timestamp : UInt64) (start endIndex : Int64) :
      MetaOf .LIST (listMetaBytes timestamp start endIndex)
  | set (timestamp : UInt64) (size : UInt32) : MetaOf .SET (sizeMetaBytes .SET timestamp size)
  | zset (timestamp : UInt64) (size : UInt32) : MetaOf .ZSET (sizeMetaBytes .ZSET timestamp size)

def Slot.Has (slot : Slot) (type : ValueType) : Prop :=
  ∃ bytes, slot.head = some bytes ∧ MetaOf type bytes

def Slot.Of (slot : Slot) (type : ValueType) : Prop := slot = .absent ∨ slot.Has type

def Slot.Sound (slot : Slot) : Prop := ∃ type, slot.Of type

variable {type : ValueType}

variable {bytes : Bytes}

theorem MetaOf.exists_head (hmeta : MetaOf type bytes) :
    ∃ timestamp tail, bytes = headBytes type timestamp ++ tail := by
  cases hmeta <;> exact ⟨_, _, rfl⟩

variable {left right : ValueType}

theorem MetaOf.unique (hleft : MetaOf left bytes) (hright : MetaOf right bytes) : left = right := by
  obtain ⟨leftTime, leftTail, hleftBytes⟩ := hleft.exists_head
  obtain ⟨rightTime, rightTail, hrightBytes⟩ := hright.exists_head
  obtain ⟨_, hleftDecode, -⟩ :=
    headDecode_of_rawData (LaserValueFormatBase.ofBuffer bytes) hleftBytes
  obtain ⟨_, hrightDecode, -⟩ :=
    headDecode_of_rawData (LaserValueFormatBase.ofBuffer bytes) hrightBytes
  rw [hleftDecode] at hrightDecode
  exact congrArg (fun decoded => decoded.2.type) hrightDecode

theorem Slot.Has.unique {slot : Slot} (hleft : slot.Has left) (hright : slot.Has right) :
    left = right := by
  obtain ⟨bytes, hhead, hmeta⟩ := hleft
  obtain ⟨other, hother, hotherMeta⟩ := hright
  rw [hhead, some.injEq] at hother
  exact hmeta.unique (hother ▸ hotherMeta)

theorem Slot.Sound.absent_of_head {slot : Slot} (hsound : slot.Sound) (hhead : slot.head = none) :
    slot = .absent := by
  obtain ⟨type, rfl | ⟨bytes, hbytes, -⟩⟩ := hsound
  · rfl
  · rw [hhead] at hbytes
    cases hbytes

theorem Slot.Sound.exists_meta {slot : Slot} (hsound : slot.Sound)
    (hhead : slot.head = some bytes) : ∃ type, MetaOf type bytes := by
  obtain ⟨type, rfl | ⟨found, hfound, hmeta⟩⟩ := hsound
  · cases hhead
  · rw [hhead, some.injEq] at hfound
    exact ⟨type, hfound ▸ hmeta⟩

variable {V : Type}

variable {result : LaserValueRawString}

section
variable [LaserValue V] {failure : Status} {bytes : Bytes}

theorem not_decoded {fresh result : V} (hmeta : MetaOf type bytes)
    (hreject : ∀ timestamp tail, bytes = headBytes type timestamp ++ tail →
      (LaserValue.decode (setRawBuffer fresh bytes)).1 = .rejected) :
    decodeOr failure (setRawBuffer fresh bytes) ≠ .ok result := by
  intro hdecode
  obtain ⟨timestamp, tail, hbytes⟩ := hmeta.exists_head
  have hrejected := hreject timestamp tail hbytes
  rw [decodeOr_eq_ok.mp hdecode] at hrejected
  cases hrejected

theorem MetaOf.sized_of_decode {kind : ValueType} {result : SizeMeta kind}
    (hkind : kind = .MAP ∨ kind = .SET ∨ kind = .ZSET) (hmeta : MetaOf type bytes)
    (hdecode : decodeOr failure (setRawBuffer (new : SizeMeta kind) bytes) = .ok result) :
    ∃ timestamp, bytes = sizeMetaBytes kind timestamp result.size ∧ result.type = kind ∧
      result.timestamp = timestamp := by
  by_cases htype : type = kind
  · subst htype
    have hbytes : ∃ timestamp size, bytes = sizeMetaBytes type timestamp size := by
      rcases hkind with rfl | rfl | rfl <;> cases hmeta <;> exact ⟨_, _, rfl⟩
    obtain ⟨timestamp, size, rfl⟩ := hbytes
    obtain ⟨buffer, hresult⟩ := decodeOr_sizeMeta failure type timestamp size
    rw [hresult, Except.ok.injEq] at hdecode
    subst hdecode
    exact ⟨timestamp, rfl, rfl, rfl⟩
  · exact absurd hdecode
      (not_decoded hmeta fun _ _ hbytes => sizeMeta_decode_of_ne _ hbytes htype)

theorem Slot.Sound.sized_of_reads {slot : Slot} {kind : ValueType} {result : SizeMeta kind}
    (hkind : kind = .MAP ∨ kind = .SET ∨ kind = .ZSET) (hsound : slot.Sound)
    (hreads : slot.Reads (new : SizeMeta kind) result) :
    ∃ timestamp, slot.head = some (sizeMetaBytes kind timestamp result.size) ∧
      result.type = kind := by
  obtain ⟨bytes, hhead, hdecode⟩ := hreads
  obtain ⟨type, hmeta⟩ := hsound.exists_meta hhead
  have hok : decodeOr .RS_INVALID_ARGUMENT _ = .ok result := decodeOr_eq_ok.mpr hdecode
  obtain ⟨timestamp, rfl, htype, -⟩ := hmeta.sized_of_decode hkind hok
  exact ⟨timestamp, hhead, htype⟩

variable (hmeta : MetaOf type bytes)
include hmeta

theorem MetaOf.list_of_decode {result : LaserValueListMeta}
    (hdecode : decodeOr failure (setRawBuffer LaserValueListMeta.new bytes) = .ok result) :
    ∃ timestamp, bytes = listMetaBytes timestamp result.start result.endIndex ∧
      result.type = .LIST ∧ result.timestamp = timestamp := by
  by_cases htype : type = .LIST
  · subst htype
    cases hmeta with
    | list timestamp start endIndex =>
      obtain ⟨buffer, hresult⟩ := decodeOr_listMeta failure timestamp start endIndex
      rw [hresult, Except.ok.injEq] at hdecode
      subst hdecode
      exact ⟨timestamp, rfl, rfl, rfl⟩
  · exact absurd hdecode
      (not_decoded hmeta fun _ _ hbytes => listMeta_decode_of_ne _ hbytes htype)

theorem MetaOf.string_of_decode
    (hdecode : decodeOr failure (setRawBuffer LaserValueRawString.new bytes) =
      .ok result) : type = .RAW_STRING := by
  by_contra htype
  exact not_decoded hmeta (fun _ _ hbytes => rawString_decode_of_ne _ hbytes htype) hdecode

theorem MetaOf.counter_of_decode {result : LaserValueCounter}
    (hdecode : decodeOr failure (setRawBuffer LaserValueCounter.new bytes) =
      .ok result) : type = .COUNTER := by
  by_contra htype
  exact not_decoded hmeta (fun _ _ hbytes => counter_decode_of_ne _ hbytes htype) hdecode

end

variable {env : Env} {key : LaserKey} {suffix : Bytes}

section
variable [LaserValue V] {db : ReplicationDB} {value : V}

variable {target : LaserSerializer}

theorem readOptional_ok {found : Option V} :
    db.readOptional env value target = .ok found →
      found = (db.store.get target.rawData).map (setRawBuffer value) := by
  unfold ReplicationDB.readOptional ReplicationDB.read
  cases env.readFault target.rawData with
  | some fault =>
    intro hread
    cases fault <;> cases hread
  | none =>
    cases db.store.get target.rawData <;>
    · intro hread
      cases hread
      rfl

variable {found : V}

theorem readFound_ok :
    db.readFound env value target = .ok found → ∃ bytes, db.store.get target.rawData = some bytes ∧
        found = setRawBuffer value bytes := by
  unfold ReplicationDB.readFound ReplicationDB.read
  cases env.readFault target.rawData with
  | some fault =>
    intro hread
    cases fault <;> cases hread
  | none =>
    cases db.store.get target.rawData with
    | none =>
      intro hread
      cases hread
    | some bytes =>
      intro hread
      cases hread
      exact ⟨bytes, rfl, rfl⟩

theorem readOptional_head_ok {found : Option V}
    (hread : db.readOptional env value (getFormatKey key).toLaserSerializer = .ok found) :
    found = (slot db.store key).head.map (setRawBuffer value) := readOptional_ok hread

theorem readFound_head_ok
    (hread : db.readFound env value (getFormatKey key).toLaserSerializer = .ok found) :
    ∃ bytes, (slot db.store key).head = some bytes ∧
      found = setRawBuffer value bytes := readFound_ok hread

theorem readLive_ok {engine : RocksDbEngine}
    (hread : engine.readLive env value (getFormatKey key) = .ok found) :
    ∃ bytes, (slot engine.db.store key).head = some bytes ∧
      decodeOr .RS_INVALID_ARGUMENT (setRawBuffer value bytes) = .ok found := by
  simp only [readLive, bind_eq_ok] at hread
  obtain ⟨stored, hstored, decoded, hdecode, hfound⟩ := hread
  obtain ⟨bytes, hhead, rfl⟩ := readFound_head_ok hstored
  split at hfound
  · cases hfound
  · rw [pure_eq_ok, Except.ok.injEq] at hfound
    exact ⟨bytes, hhead, hfound ▸ hdecode⟩

variable {target : LaserSerializer} (htarget : target.rawData = key.stem ++ suffix)
include htarget

theorem readFound_record_ok (hread : db.readFound env value target = .ok found) :
    ∃ bytes, (slot db.store key).records.get suffix = some bytes := by
  obtain ⟨bytes, hget, -⟩ := readFound_ok hread
  rw [htarget] at hget
  exact ⟨bytes, (get_under _ _ _).trans hget⟩

end

inductive CountOf (kind : ValueType) : Slot → UInt32 → Prop
  | absent : CountOf kind .absent 0
  | stored {slot : Slot} {timestamp : UInt64} {size : UInt32}
      (hhead : slot.head = some (sizeMetaBytes kind timestamp size)) : CountOf kind slot size

/-- A hash or a set changes: its meta record counts the data records that come
and go, modulo 2^32, and at most `room` come. -/
structure Counted (kind : ValueType) (room : Nat) (before after : Slot) : Prop where
  counts : ∃ size size' timestamp, CountOf kind before size ∧
    after.head = some (sizeMetaBytes kind timestamp size') ∧
    size' + UInt32.ofNat before.records.size = size + UInt32.ofNat after.records.size
  grows : after.records.size ≤ before.records.size + room

section
variable {kind : ValueType} {slot before middle after : Slot} {size : UInt32}

theorem sizeMetaBytes_inj {timestamp timestamp' : UInt64} {size size' : UInt32}
    (heq : sizeMetaBytes kind timestamp size = sizeMetaBytes kind timestamp' size') :
    size = size' := by
  have htail := append_inj_right heq (by simp)
  exact intBytes_injective .little htail

variable {old : Bytes}

theorem CountOf.exists_head (hcount : CountOf kind slot size)
    (hget : slot.records.get suffix = some old) :
    ∃ timestamp, slot.head = some (sizeMetaBytes kind timestamp size) := by
  cases hcount with
  | absent => cases hget
  | stored hhead => exact ⟨_, hhead⟩

theorem Counted.put_new (hcount : CountOf kind slot size) (hget : slot.records.get suffix = none)
    (timestamp : UInt64) (value : Bytes) :
    Counted kind 1 slot
      ⟨some (sizeMetaBytes kind timestamp (size + 1)), slot.records.put suffix value⟩ := by
  have hsize := size_put slot.records suffix value
  rw [if_pos hget] at hsize
  refine ⟨⟨size, size + 1, timestamp, hcount, rfl, ?_⟩, hsize.le⟩
  rw [hsize, UInt32.ofNat_add]
  grind

variable {timestamp : UInt64}

variable (hhead : slot.head = some (sizeMetaBytes kind timestamp size))
include hhead

theorem Counted.put_old (hget : slot.records.get suffix = some old) (value : Bytes) :
    Counted kind 1 slot { slot with records := slot.records.put suffix value } := by
  have hsize := size_put slot.records suffix value
  rw [if_neg (by simp [hget])] at hsize
  exact ⟨⟨size, size, timestamp, .stored hhead, hhead, by rw [hsize]⟩,
    hsize.le.trans (Nat.le_succ _)⟩

theorem Counted.erase (hget : slot.records.get suffix = some old) (timestamp' : UInt64) :
    Counted kind 0 slot
      ⟨some (sizeMetaBytes kind timestamp' (size - 1)), slot.records.erase suffix⟩ := by
  have hsize := size_erase hget
  refine ⟨⟨size, size - 1, timestamp', .stored hhead, rfl, ?_⟩, ?_⟩
  · rw [hsize, UInt32.ofNat_add]
    grind
  · change (slot.records.erase suffix).size ≤ _
    omega

omit hhead

theorem Counted.mono {room room' : Nat} (hcounted : Counted kind room before after)
    (hle : room ≤ room') : Counted kind room' before after :=
  ⟨hcounted.counts, hcounted.grows.trans (by omega)⟩

theorem Counted.trans {room room' : Nat} (hfirst : Counted kind room before middle)
    (hsecond : Counted kind room' middle after) : Counted kind (room + room') before after := by
  obtain ⟨size, size', timestamp, hcount, hhead, hsum⟩ := hfirst.counts
  obtain ⟨next, next', timestamp', hnext, hafter, hsum'⟩ := hsecond.counts
  have hmiddle : next = size' := by
    cases hnext with
    | absent => cases hhead
    | stored hstored =>
      rw [hstored, some.injEq] at hhead
      exact sizeMetaBytes_inj hhead
  subst hmiddle
  refine ⟨⟨size, next', timestamp', hcount, hafter, by grind⟩, ?_⟩
  have hgrows := hfirst.grows
  have hgrows' := hsecond.grows
  omega

end

/-- The batch writes to the records of `key` only, and to this effect. -/
def Writes (key : LaserKey) (before : Slot) (effect : Slot → Slot → Prop) (batch : RocksDbBatch) :
    Prop :=
  ∃ writes, batch = batchOf key writes ∧ effect before (before.applyAll writes)

theorem Writes.imp {before : Slot} {effect effect' : Slot → Slot → Prop} {batch : RocksDbBatch}
    (hwrites : Writes key before effect batch)
    (himp : ∀ after, effect before after → effect' before after) :
    Writes key before effect' batch := by
  obtain ⟨writes, hbatch, heffect⟩ := hwrites
  exact ⟨writes, hbatch, himp _ heffect⟩

def OrSame (effect : Slot → Slot → Prop) (before after : Slot) : Prop :=
  after = before ∨ effect before after

variable {engine : RocksDbEngine} {batch : RocksDbBatch}

open Counted (put_new put_old erase)

section
variable (hsound : (slot engine.db.store key).Sound)
include hsound

theorem hset_writes {field value : Bytes}
    (hplan : engine.hsetPlan env (getFormatKey key) field value = .ok ((), batch)) :
    Writes key (slot engine.db.store key) (Counted .MAP 1) batch := by
  obtain ⟨found, hfound, rfl⟩ := (hsetPlan_heals field value engine env _).finds
    (plan_hset field value env.healed_healthy) hplan
  refine ⟨_, rfl, ?_⟩
  cases found with
  | none =>
    rw [hsound.absent_of_head hfound]
    exact put_new .absent rfl _ _
  | some metaData =>
    obtain ⟨timestamp, hhead, htype⟩ := hsound.sized_of_reads (by decide) hfound
    cases hget : (slot engine.db.store key).records.get (packedString field) with
    | none =>
      simp only [hsetWrites, hget, ↓reduceIte, htype]
      exact put_new (.stored hhead) hget _ _
    | some old =>
      simp only [hsetWrites, hget, reduceCtorEq, ↓reduceIte]
      exact put_old hhead hget _

theorem hdel_writes {field : Bytes}
    (hplan : engine.hdelPlan env (getFormatKey key) field = .ok ((), batch)) :
    Writes key (slot engine.db.store key) (Counted .MAP 0) batch := by
  simp only [hdelPlan, bind_eq_ok] at hplan
  obtain ⟨stored, hread, metaData, hdecode, old, hold, hplan⟩ := hplan
  obtain ⟨bytes, hslot, rfl⟩ := readFound_head_ok hread
  obtain ⟨type, hmeta⟩ := hsound.exists_meta hslot
  obtain ⟨timestamp, rfl, htype, -⟩ := hmeta.sized_of_decode (by decide) hdecode
  obtain ⟨value, hget⟩ := readFound_record_ok (mapData_rawData key field) hold
  simp only [pure_eq_ok, Except.ok.injEq, Prod.mk.injEq, true_and] at hplan
  rw [nil_eq_batchOf key,
    idelete_record _ (mapData_rawData key field), iput_head, rawData_sizeMeta,
    sizeMeta_encode_rawData, show metaData.decrSize.type = .MAP from htype] at hplan
  exact ⟨_, hplan.symm, erase hslot hget _⟩

omit hsound in
theorem counted_fieldWrites {known : Bytes → Bool} {stamp : UInt64} {size : UInt32}
    {pairs : List (Bytes × Bytes)} {current : Slot} (hnodup : (pairs.map Prod.fst).Nodup)
    (hknown : ∀ pair ∈ pairs, known (packedString pair.1) =
      (current.records.get (packedString pair.1)).isSome)
    (hcount : CountOf .MAP current size) :
    OrSame (Counted .MAP pairs.length) current
      (current.applyAll (fieldWrites known .MAP stamp size pairs)) := by
  induction pairs generalizing size current with
  | nil => exact .inl rfl
  | cons pair pairs ih =>
    obtain ⟨field, value⟩ := pair
    obtain ⟨hother, hnodup⟩ := nodup_cons.mp hnodup
    have hlater (head : Option Bytes) : ∀ later ∈ pairs, known (packedString later.1) =
        (Slot.records ⟨head, current.records.put (packedString field) (rawStringBytes 0 value)⟩
          |>.get (packedString later.1)).isSome := by
      intro later hmem
      have hne : packedString later.1 ≠ packedString field := fun heq =>
        hother (packedString_injective heq ▸ mem_map.mpr ⟨later, hmem, rfl⟩)
      rw [get_put_of_ne hne]
      exact hknown later (by simp [hmem])
    have hround {after last : Slot} (hstep : Counted .MAP 1 current after)
        (hrest : OrSame (Counted .MAP pairs.length) after last) :
        OrSame (Counted .MAP (pairs.length + 1)) current last := by
      rcases hrest with rfl | hrest
      · exact .inr (hstep.mono (by omega))
      · exact .inr (Nat.add_comm 1 _ ▸ hstep.trans hrest)
    have hfirst := hknown (field, value) (by simp)
    cases hget : current.records.get (packedString field) with
    | none =>
      rw [hget, isSome_none] at hfirst
      rw [fieldWrites, if_neg (by simp [hfirst])]
      exact hround (put_new hcount hget stamp _) (ih hnodup (hlater _) (.stored rfl))
    | some old =>
      rw [hget, isSome_some] at hfirst
      obtain ⟨timestamp, hhead⟩ := hcount.exists_head hget
      rw [fieldWrites, if_pos hfirst]
      exact hround (put_old hhead hget _) (ih hnodup (hlater _) (.stored hhead))

theorem hmset_writes {values : OrderedMap Bytes Bytes}
    (hplan : engine.hmsetPlan env (getFormatKey key) values = .ok ((), batch)) :
    Writes key (slot engine.db.store key) (OrSame (Counted .MAP values.size)) batch := by
  obtain ⟨found, hfound, rfl⟩ := (hmsetPlan_heals values engine env _).finds
    (plan_hmset values env.healed_healthy) hplan
  refine ⟨_, rfl, ?_⟩
  cases found with
  | none =>
    rw [hsound.absent_of_head hfound]
    exact counted_fieldWrites values.keys_nodup (fun _ _ => rfl) .absent
  | some metaData =>
    obtain ⟨timestamp, hhead, htype⟩ := hsound.sized_of_reads (by decide) hfound
    simp only [hmsetWrites, getD_some, htype]
    exact counted_fieldWrites values.keys_nodup (fun _ _ => rfl) (.stored hhead)

end

section
variable (hsound : (slot engine.db.store key).Sound)
include hsound

theorem sadd_writes {member : Bytes}
    (hplan : engine.saddPlan env (getFormatKey key) member = .ok ((), batch)) :
    Writes key (slot engine.db.store key) (OrSame (Counted .SET 1)) batch := by
  obtain ⟨found, hfound, rfl⟩ := (saddPlan_heals member engine env _).finds
    (plan_sadd member env.healed_healthy) hplan
  refine ⟨_, rfl, ?_⟩
  cases found with
  | none =>
    rw [hsound.absent_of_head hfound]
    exact .inr (put_new .absent rfl _ _)
  | some metaData =>
    obtain ⟨timestamp, hhead, htype⟩ := hsound.sized_of_reads (by decide) hfound
    cases hget : (slot engine.db.store key).records.get (packedString member) with
    | none =>
      simp only [saddWrites, hget, ↓reduceIte, htype]
      exact .inr (put_new (.stored hhead) hget _ _)
    | some old =>
      simp only [saddWrites, hget, reduceCtorEq, ↓reduceIte]
      exact .inl rfl

theorem sdel_writes {member : Bytes}
    (hplan : engine.sdelPlan env (getFormatKey key) member = .ok ((), batch)) :
    Writes key (slot engine.db.store key) (Counted .SET 0) batch := by
  simp only [sdelPlan, bind_eq_ok] at hplan
  obtain ⟨stored, hread, old, hold, metaData, hdecode, hplan⟩ := hplan
  obtain ⟨bytes, hslot, rfl⟩ := readFound_head_ok hread
  obtain ⟨type, hmeta⟩ := hsound.exists_meta hslot
  obtain ⟨timestamp, rfl, htype, -⟩ := hmeta.sized_of_decode (by decide) hdecode
  obtain ⟨value, hget⟩ := readFound_record_ok (setData_rawData key member) hold
  simp only [pure_eq_ok, Except.ok.injEq, Prod.mk.injEq, true_and] at hplan
  rw [nil_eq_batchOf key, iput_head,
    idelete_record _ (setData_rawData key member), rawData_sizeMeta,
    sizeMeta_encode_rawData, show metaData.decrSize.type = .SET from htype] at hplan
  exact ⟨_, hplan.symm, erase hslot hget _⟩

end

/-- The ends that the meta record tells; 0 and 0 for an absent key. -/
inductive EndsOf : Slot → Int64 → Int64 → Prop
  | absent : EndsOf .absent 0 0
  | stored {slot : Slot} {timestamp : UInt64} {start endIndex : Int64}
      (hhead : slot.head = some (listMetaBytes timestamp start endIndex)) :
      EndsOf slot start endIndex

def Pushed (isLeft : Bool) (before after : Slot) : Prop :=
  ∃ (metaData : LaserValueListMeta) (timestamp : UInt64) (value : Bytes),
    let pushed := if isLeft then metaData.pushFront else metaData.pushBack
    EndsOf before metaData.start metaData.endIndex ∧
    after = ⟨some (listMetaBytes timestamp pushed.2.start pushed.2.endIndex),
      before.records.put (intBytes .big pushed.1) value⟩

def Popped (isLeft : Bool) (before after : Slot) : Prop :=
  ∃ (metaData : LaserValueListMeta) (timestamp timestamp' : UInt64) (value : Bytes),
    let popped := if isLeft then metaData.popFront else metaData.popBack
    before.head = some (listMetaBytes timestamp metaData.start metaData.endIndex) ∧
    before.records.get (intBytes .big popped.1) = some value ∧
    after = ⟨some (listMetaBytes timestamp' popped.2.start popped.2.endIndex),
      before.records.erase (intBytes .big popped.1)⟩

variable (metaData : LaserValueListMeta)

theorem pop_type (isLeft : Bool) :
    (if isLeft then metaData.popFront else metaData.popBack).2.type = metaData.type := by
  cases isLeft <;> rfl

theorem listMeta_stored (htype : metaData.type = .LIST) :
    metaData.encode.rawData =
      listMetaBytes metaData.timestamp metaData.start metaData.endIndex := by
  rw [listMeta_encode_rawData, htype, listMetaBytes]

theorem push_writes {value : Bytes} {isLeft : Bool} (hsound : (slot engine.db.store key).Sound)
    (hplan : engine.listPushPlan env (getFormatKey key) value isLeft = .ok ((), batch)) :
    Writes key (slot engine.db.store key) (Pushed isLeft) batch := by
  obtain ⟨found, hfound, rfl⟩ := (listPushPlan_heals engine env _ value isLeft).finds
    (plan_push env.healed_healthy value isLeft) hplan
  refine ⟨_, rfl, found.getD LaserValueListMeta.new, ?_⟩
  cases found with
  | none => exact ⟨_, _, hsound.absent_of_head hfound ▸ .absent, rfl⟩
  | some metaData =>
    obtain ⟨bytes, hhead, hdecode⟩ := hfound
    obtain ⟨type, hmeta⟩ := hsound.exists_meta hhead
    have hok : decodeOr .RS_INVALID_ARGUMENT _ = .ok metaData := decodeOr_eq_ok.mpr hdecode
    obtain ⟨timestamp, rfl, htype, -⟩ := hmeta.list_of_decode hok
    refine ⟨engine.stamp env.healed metaData.timestamp, rawStringBytes 0 value, .stored hhead, ?_⟩
    simp only [listPushWrites, getD_some, htype]
    rfl

theorem pop_writes {isLeft : Bool} (hsound : (slot engine.db.store key).Sound)
    (hplan : engine.listPopPlan env (getFormatKey key) isLeft = .ok (result, batch)) :
    Writes key (slot engine.db.store key) (Popped isLeft) batch := by
  simp only [listPopPlan, bind_eq_ok] at hplan
  obtain ⟨metaData, hread, hplan⟩ := hplan
  obtain ⟨bytes, hslot, hdecode⟩ := readLive_ok hread
  obtain ⟨type, hmeta⟩ := hsound.exists_meta hslot
  obtain ⟨timestamp, rfl, htype, -⟩ := hmeta.list_of_decode hdecode
  split at hplan
  · cases hplan
  · simp only [pure_eq_ok, bind_eq_ok, Except.ok.injEq, Prod.mk.injEq] at hplan
    obtain ⟨stored, hstored, value, -, -, hplan⟩ := hplan
    obtain ⟨old, hget⟩ := readFound_record_ok (listData_rawData key _) hstored
    rw [nil_eq_batchOf key, iput_head,
      idelete_record _ (listData_rawData key _), rawData_listMeta,
      listMeta_stored _ ((pop_type metaData isLeft).trans htype)] at hplan
    exact ⟨_, hplan.symm, metaData, timestamp, _, old, hslot, hget, rfl⟩

def Rewritten (type : ValueType) (before after : Slot) : Prop :=
  after.Has type ∧ after.records = before.records

def Revised (type : ValueType) (before after : Slot) : Prop :=
  before.Of type ∧ Rewritten type before after

variable {options : SetOptions}

open RocksDbBatch (iput)

section
theorem metaOf_setAutoExpire (data : Bytes) :
    MetaOf .RAW_STRING
      (engine.setAutoExpire env (LaserValueRawString.ofValue data)).encode.rawData := by
  rw [rawString_stamped, rawString_encode_rawData]
  exact .string _ data

theorem metaOf_setxValue (data : Bytes) (options : SetOptions) :
    MetaOf .RAW_STRING (engine.setxValue env data options).rawData := by
  rw [setxValue_rawData]
  exact .string _ data

theorem iput_rewrites [LaserValue V] {value : V} {before : Slot}
    (hmeta : MetaOf type (rawData value)) :
    Writes key before (Rewritten type)
      (iput [] (getFormatKey key).toLaserSerializer value) := by
  rw [nil_eq_batchOf key, iput_head]
  exact ⟨_, rfl, ⟨_, rfl, hmeta⟩, rfl⟩

variable {data : Bytes}

theorem set_writes (hplan : engine.setPlan env (getFormatKey key) data = .ok ((), batch)) :
    Writes key (slot engine.db.store key) (Rewritten .RAW_STRING) batch := by
  simp only [setPlan, Except.ok.injEq, Prod.mk.injEq, true_and] at hplan
  exact hplan ▸ iput_rewrites (metaOf_setAutoExpire data)

variable (hsound : (slot engine.db.store key).Sound)
include hsound

theorem of_finds [LaserValue V] {fresh : V} {found : Option V}
    (hfound : (slot engine.db.store key).Finds fresh found)
    (htype : ∀ other bytes value, MetaOf other bytes →
      decodeOr .RS_INVALID_ARGUMENT (setRawBuffer fresh bytes) = .ok value → other = type) :
    (slot engine.db.store key).Of type := by
  cases found with
  | none => exact .inl (hsound.absent_of_head hfound)
  | some value =>
    obtain ⟨bytes, hhead, hdecode⟩ := hfound
    obtain ⟨other, hmeta⟩ := hsound.exists_meta hhead
    exact .inr ⟨bytes, hhead, htype other bytes value hmeta (decodeOr_eq_ok.mpr hdecode) ▸ hmeta⟩

theorem append_writes {result : UInt32}
    (hplan : engine.appendPlan env (getFormatKey key) data = .ok (result, batch)) :
    Writes key (slot engine.db.store key) (Revised .RAW_STRING) batch := by
  obtain ⟨found, hfound, rfl⟩ := (appendPlan_heals data engine env _).finds
    (plan_append data env.healed_healthy) hplan
  exact ⟨_, rfl, of_finds hsound hfound fun _ _ _ hmeta => hmeta.string_of_decode,
    ⟨_, rfl, .string _ _⟩, rfl⟩

theorem setCounterByStep_writes {step result : Int64}
    (hplan : engine.setCounterByStepPlan env (getFormatKey key) step = .ok (result, batch)) :
    Writes key (slot engine.db.store key) (Revised .COUNTER) batch := by
  obtain ⟨found, hfound, rfl⟩ := (setCounterByStepPlan_heals engine env _ step).finds
    (plan_counter env.healed_healthy step) hplan
  exact ⟨_, rfl, of_finds hsound hfound fun _ _ _ hmeta => hmeta.counter_of_decode,
    ⟨_, rfl, .counter _ _⟩, rfl⟩

theorem of_checkNotExists (hcheck : engine.checkNotExists env (getFormatKey key) = .ok ()) :
    (slot engine.db.store key).Of .RAW_STRING := by
  simp only [checkNotExists, bind_eq_ok] at hcheck
  obtain ⟨stored, hread, hcheck⟩ := hcheck
  have hstored := readOptional_head_ok hread
  cases hhead : (slot engine.db.store key).head with
  | none => exact .inl (hsound.absent_of_head hhead)
  | some bytes =>
    rw [hhead, map_some] at hstored
    subst hstored
    obtain ⟨value, hdecode, -⟩ := bind_eq_ok.mp hcheck
    obtain ⟨other, hmeta⟩ := hsound.exists_meta hhead
    exact .inr ⟨bytes, hhead, hmeta.string_of_decode hdecode ▸ hmeta⟩

theorem setx_writes
    (hplan : engine.setxPlan env (getFormatKey key) data options = .ok ((), batch)) :
    Writes key (slot engine.db.store key)
      (if options.notExists then Revised .RAW_STRING else Rewritten .RAW_STRING) batch := by
  have hput : Writes key (slot engine.db.store key) (Rewritten .RAW_STRING)
      (iput [] (getFormatKey key).toLaserSerializer
        (engine.setxValue env data options)) := iput_rewrites (metaOf_setxValue data options)
  unfold setxPlan at hplan
  split at hplan
  · rename_i hnotExists
    simp only [bind_eq_ok, pure_eq_ok, Except.ok.injEq, Prod.mk.injEq, true_and] at hplan
    obtain ⟨_, hcheck, rfl⟩ := hplan
    rw [if_pos hnotExists]
    exact hput.imp fun _ heffect => ⟨of_checkNotExists hsound hcheck, heffect⟩
  · rename_i hnotExists
    simp only [pure_eq_ok, Except.ok.injEq, Prod.mk.injEq, true_and] at hplan
    subst hplan
    rw [if_neg hnotExists]
    exact hput

end

def headWrites (pairs : List (LaserKey × Bytes)) : RocksDbBatch :=
  pairs.map fun pair => .put pair.1.metaKey pair.2

theorem slot_headWrites {pairs : List (LaserKey × Bytes)} (hkey : key.Valid)
    (hpairs : ∀ pair ∈ pairs, pair.1.Valid) (store : Store) :
    slot ((headWrites pairs).apply store) key = slot store key ∨ ∃ bytes, (key, bytes) ∈ pairs ∧
        slot ((headWrites pairs).apply store) key = { slot store key with head := some bytes } := by
  induction pairs generalizing store with
  | nil => exact .inl rfl
  | cons pair pairs ih =>
    have hrest := ih (fun other hother => hpairs other (by simp [hother]))
      ((batchOf pair.1 [.putHead pair.2]).apply store)
    have happly : (headWrites (pair :: pairs)).apply store =
        (headWrites pairs).apply ((batchOf pair.1 [.putHead pair.2]).apply store) := rfl
    rw [happly]
    by_cases hsame : key = pair.1
    · subst hsame
      rw [slot_batch_self] at hrest
      rcases hrest with hrest | ⟨bytes, hmem, hrest⟩
      · exact .inr ⟨pair.2, by simp, hrest⟩
      · exact .inr ⟨bytes, by simp [hmem], hrest⟩
    · rw [slot_batch_other (hpairs pair (by simp)) hkey hsame] at hrest
      rcases hrest with hrest | ⟨bytes, hmem, hrest⟩
      · exact .inl hrest
      · exact .inr ⟨bytes, by simp [hmem], hrest⟩

theorem foldl_iput (pairs : List (LaserKeyFormatBase × Bytes)) (skip : LaserKeyFormatBase → Bool)
    (value : Bytes → LaserValueRawString) (batch : RocksDbBatch) :
    pairs.foldl (fun batch pair =>
        if skip pair.1 then batch
        else iput batch pair.1.toLaserSerializer (value pair.2)) batch =
      batch ++ (pairs.filter fun pair => !skip pair.1).map fun pair =>
        .put pair.1.rawData (value pair.2).rawData := by
  induction pairs generalizing batch with
  | nil => simp
  | cons pair pairs ih =>
    rw [foldl_cons, ih]
    by_cases hskip : skip pair.1 <;> simp [hskip, iput]

def msetPairs (env : Env) (engine : RocksDbEngine) (pairs : List (LaserKey × Bytes)) :
    List (LaserKey × Bytes) :=
  pairs.map fun pair =>
    (pair.1, (engine.setAutoExpire env (LaserValueRawString.ofValue pair.2)).encode.rawData)

def msetxPairs (env : Env) (engine : RocksDbEngine) (options : SetOptions)
    (pairs : List (LaserKey × Bytes)) : List (LaserKey × Bytes) :=
  (pairs.filter fun pair =>
    !(options.notExists && (engine.checkNotExists env (getFormatKey pair.1)).toOption.isNone)).map
      fun pair => (pair.1, (engine.setxValue env pair.2 options).rawData)

variable (keys : List LaserKey)

theorem msetPlan_eq (datas : List Bytes) :
    engine.msetPlan env (keys.map getFormatKey) datas =
      if keys.length ≠ datas.length then .error .RS_INVALID_ARGUMENT
      else .ok ((), headWrites (msetPairs env engine (keys.zip datas))) := by
  have hfold := foldl_iput ((keys.map getFormatKey).zip datas) (fun _ => false)
    (fun data => (engine.setAutoExpire env (LaserValueRawString.ofValue data)).encode) []
  simp only [Bool.false_eq_true, ↓reduceIte] at hfold
  rw [msetPlan, hfold, List.zip_map_left, List.length_map, headWrites, msetPairs]
  simp [List.map_map, comp_def]

theorem msetxPlan_eq (datas : List Bytes) (options : SetOptions) :
    engine.msetxPlan env (keys.map getFormatKey) datas options =
      if keys.length ≠ datas.length then .error .RS_INVALID_ARGUMENT
      else .ok ((), headWrites (msetxPairs env engine options (keys.zip datas))) := by
  have hfold := foldl_iput ((keys.map getFormatKey).zip datas)
    (fun key => options.notExists && (engine.checkNotExists env key).toOption.isNone)
    (fun data => engine.setxValue env data options) []
  rw [msetxPlan, hfold, List.zip_map_left, List.length_map, List.filter_map, headWrites, msetxPairs]
  simp [List.map_map, comp_def]

variable {keys : List LaserKey} {datas : List Bytes} (hkeys : ∀ key ∈ keys, key.Valid)
  (hkey : key.Valid)
include hkeys hkey

theorem mset_effect (hplan : engine.msetPlan env (keys.map getFormatKey) datas = .ok ((), batch)) :
    OrSame (fun before after => key ∈ keys ∧ Rewritten .RAW_STRING before after)
      (slot engine.db.store key) (slot (batch.apply engine.db.store) key) := by
  rw [msetPlan_eq] at hplan
  split at hplan
  · cases hplan
  · cases hplan
    have hmem : ∀ pair ∈ msetPairs env engine (keys.zip datas), pair.1 ∈ keys ∧
        MetaOf .RAW_STRING pair.2 := by
      intro pair hpair
      obtain ⟨source, hsource, rfl⟩ := mem_map.mp hpair
      exact ⟨(of_mem_zip hsource).1, metaOf_setAutoExpire source.2⟩
    rcases slot_headWrites hkey (fun pair hpair => hkeys _ (hmem pair hpair).1) engine.db.store
      with hsame | ⟨bytes, hbytes, hafter⟩
    · exact .inl hsame
    · rw [hafter]
      exact .inr ⟨(hmem _ hbytes).1, ⟨bytes, rfl, (hmem _ hbytes).2⟩, rfl⟩

theorem msetx_effect (hsound : key ∈ keys → (slot engine.db.store key).Sound)
    (hplan : engine.msetxPlan env (keys.map getFormatKey) datas options = .ok ((), batch)) :
    OrSame (fun before after => key ∈ keys ∧
      (if options.notExists then Revised .RAW_STRING else Rewritten .RAW_STRING) before after)
      (slot engine.db.store key) (slot (batch.apply engine.db.store) key) := by
  rw [msetxPlan_eq] at hplan
  split at hplan
  · cases hplan
  · cases hplan
    have hmem : ∀ pair ∈ msetxPairs env engine options (keys.zip datas), pair.1 ∈ keys ∧
        MetaOf .RAW_STRING pair.2 ∧ (options.notExists →
          engine.checkNotExists env (getFormatKey pair.1) = .ok ()) := by
      intro pair hpair
      obtain ⟨source, hsource, rfl⟩ := mem_map.mp hpair
      obtain ⟨hsource, hcheck⟩ := mem_filter.mp hsource
      refine ⟨(of_mem_zip hsource).1, metaOf_setxValue source.2 options, ?_⟩
      intro hnotExists
      rw [hnotExists] at hcheck
      cases hresult : engine.checkNotExists env (getFormatKey source.1) with
      | error status => simp [hresult, Except.toOption] at hcheck
      | ok _ => rfl
    rcases slot_headWrites hkey (fun pair hpair => hkeys _ (hmem pair hpair).1) engine.db.store
      with hsame | ⟨bytes, hbytes, hafter⟩
    · exact .inl hsame
    · obtain ⟨hin, hmeta, hcheck⟩ := hmem _ hbytes
      have hrewritten : Rewritten .RAW_STRING (slot engine.db.store key)
          { slot engine.db.store key with head := some bytes } := ⟨⟨bytes, rfl, hmeta⟩, rfl⟩
      rw [hafter]
      refine .inr ⟨hin, ?_⟩
      split
      · rename_i hnotExists
        exact ⟨of_checkNotExists (hsound hin) (hcheck hnotExists), hrewritten⟩
      · exact hrewritten

end LaserDB
