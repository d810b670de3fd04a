import LaserDB.Format.ValueRoundTrip
import LaserDB.Refinement.Healed

/-!
# Reading back a written string

`get` after `set`, `hget` after `hset`, and a pop after a push at the same end, over every engine.
-/

variable {field value : Bytes}

namespace LaserDB

open ByteCodec RocksDbEngine OrderedMap LaserValue SizeMeta
open LaserValue (setRawBuffer)

inductive StringPlace where
  | string (key : LaserKey)
  | hashField (key : LaserKey) (field : Bytes)
  | listEnd (key : LaserKey) (isLeft : Bool)

namespace StringPlace

def write (value : Bytes) : StringPlace → Call
  | .string key => .set key value
  | .hashField key field => .hset key field value
  | .listEnd key isLeft => if isLeft then .pushFront key value else .pushBack key value

def read : StringPlace → Call
  | .string key => .get key
  | .hashField key field => .hget key field
  | .listEnd key isLeft => if isLeft then .popFront key else .popBack key

def reply (place : StringPlace) (value : Bytes) (engine : RocksDbEngine) (env later : Env) : Reply :=
  (place.read.exec later ((place.write value).exec env engine).2).1

def Countable (engine : RocksDbEngine) : StringPlace → Prop
  | .listEnd key _ => ∀ metaData,
      (slot engine.db.store key).Reads LaserValueListMeta.new metaData → metaData.getSize ≠ -2
  | _ => True

end StringPlace

theorem Slot.update_ok [LaserValue V] {slot : Slot} {fresh : V}
    {writes : Option V → Slot → List SlotWrite} (hok : (slot.update fresh writes).1 = .OK) :
    ∃ found : Option V, (slot.update fresh writes).2 = slot.applyAll (writes found slot) ∧
      (found = none ∧ slot.head = none ∨ ∃ value, found = some value ∧ slot.Reads fresh value) := by
  unfold Slot.update at hok ⊢
  cases hhead : slot.head with
  | none => exact ⟨none, rfl, .inl ⟨rfl, rfl⟩⟩
  | some bytes =>
    rw [hhead] at hok
    dsimp only at hok ⊢
    cases hdecode : decodeOr .RS_INVALID_ARGUMENT (setRawBuffer fresh bytes) with
    | error status =>
      rw [hdecode] at hok
      cases eq_of_decodeOr_error hdecode
      cases hok
    | ok value =>
      exact ⟨some value, rfl, .inr ⟨value, rfl, bytes, hhead, decodeOr_eq_ok.mp hdecode⟩⟩

variable {value : Bytes}

variable {env : Env} {engine : RocksDbEngine} {key : LaserKey}

section
theorem readLive_of_reads {V : Type} [LaserValue V] {fresh value : V} (henv : env.Healthy)
    (hreads : (slot engine.db.store key).Reads fresh value) :
    engine.readLive env fresh (getFormatKey key) =
      if checkKeyExpire env value then .error .RS_KEY_EXPIRE else .ok value := by
  obtain ⟨bytes, hhead, hdecode⟩ := hreads
  rw [readLive, readFound_head henv, hhead, foundOr, ok_bind, decodeOr_eq_ok.mpr hdecode, ok_bind]
  split <;> rfl

theorem reply_text_iff (timestamp : UInt64) (value : Bytes) :
    replyOf (fun found : LaserValueRawString => .text found.value)
        (decodeOr .RS_INVALID_ARGUMENT
          (setRawBuffer LaserValueRawString.new (rawStringBytes timestamp value))) =
      (.OK, .text value) ↔ value ≠ [] ∧ value.length < 2 ^ 32 := by
  rw [← rawString_accepted_iff timestamp
    (setRawBuffer LaserValueRawString.new (rawStringBytes timestamp value)) rfl]
  unfold decodeOr
  rcases hdecode : decode
    (setRawBuffer LaserValueRawString.new (rawStringBytes timestamp value)) with
      ⟨verdict, found⟩
  have hsame : LaserValueRawString.decode
    (setRawBuffer LaserValueRawString.new (rawStringBytes timestamp value)) =
      (verdict, found) := hdecode
  rw [hsame]
  cases verdict <;> simp [replyOf]

variable {timestamp : UInt64}

theorem get_reply_iff (henv : env.Healthy)
    (hhead : (slot engine.db.store key).head = some (rawStringBytes timestamp value))
    (hlive : ((Call.get key).exec env engine).1.1 ≠ .RS_KEY_EXPIRE) :
    ((Call.get key).exec env engine).1 = (.OK, .text value) ↔
      value ≠ [] ∧ value.length < 2 ^ 32 := by
  have hreply := reply_text_iff timestamp value
  simp only [Call.exec, RocksDbEngine.get, getValue, read_head henv, hhead] at hlive ⊢
  rw [← hreply, decodeOr]
  rcases hdecode : decode
    (setRawBuffer LaserValueRawString.new (rawStringBytes timestamp value)) with
      ⟨verdict, found⟩
  rw [hdecode] at hlive
  cases verdict with
  | accepted =>
    have hfresh : ¬checkKeyExpire env found = true := fun hexpired => hlive (if_pos hexpired)
    simp [hfresh, replyOf]
  | rejected | overrun => simp [replyOf]

theorem hget_reply_iff {metaData : LaserValueMapMeta} (henv : env.Healthy)
    (hreads : (slot engine.db.store key).Reads new metaData)
    (hrecord : (slot engine.db.store key).records.get (packedString field) =
      some (rawStringBytes timestamp value))
    (hlive : ((Call.hget key field).exec env engine).1.1 ≠ .RS_KEY_EXPIRE) :
    ((Call.hget key field).exec env engine).1 = (.OK, .text value) ↔
      value ≠ [] ∧ value.length < 2 ^ 32 := by
  simp only [Call.exec, hget, readLive_of_reads henv hreads] at hlive ⊢
  split at hlive
  · exact absurd rfl hlive
  · rename_i hexpired
    rw [if_neg hexpired, ok_bind, readFound_record henv _ _ _ (mapData_rawData key field), hrecord,
      foundOr, ok_bind]
    exact reply_text_iff timestamp value

theorem pop_reply_iff {isLeft : Bool} {metaData : LaserValueListMeta} (henv : env.Healthy)
    (hleader : engine.db.role = .LEADER)
    (hreads : (slot engine.db.store key).Reads LaserValueListMeta.new metaData)
    (hrecord : (slot engine.db.store key).records.get
      (intBytes .big (if isLeft then metaData.popFront else metaData.popBack).1) =
        some (rawStringBytes timestamp value))
    (hlive : ((StringPlace.listEnd key isLeft).read.exec env engine).1.1 ≠ .RS_KEY_EXPIRE) :
    ((StringPlace.listEnd key isLeft).read.exec env engine).1 = (.OK, .text value) ↔
      (value ≠ [] ∧ value.length < 2 ^ 32) ∧ metaData.getSize ≠ 0 := by
  have hexec : (StringPlace.listEnd key isLeft).read.exec env engine =
      answer (fun value => .text value.value) (engine.listPop env (getFormatKey key) isLeft) := by
    cases isLeft <;> rfl
  rw [hexec] at hlive ⊢
  simp only [listPop, listPopPlan, readLive_of_reads henv hreads] at hlive ⊢
  split at hlive
  · exact absurd rfl hlive
  · rename_i hexpired
    rw [if_neg hexpired, ok_bind]
    by_cases hsize : metaData.getSize = 0
    · rw [if_pos hsize, throw_eq_error, error_bind, commit_error]
      exact iff_of_false (fun heq => by cases heq) fun hall => hall.2 hsize
    · have htext := reply_text_iff timestamp value
      rw [if_neg hsize, readFound_record henv _ _ _ (listData_rawData key _), hrecord, foundOr,
        ok_bind, and_iff_left hsize, ← htext]
      cases hdecode : decodeOr .RS_INVALID_ARGUMENT
          (setRawBuffer LaserValueRawString.new (rawStringBytes timestamp value)) with
      | error status =>
        cases eq_of_decodeOr_error hdecode
        exact iff_of_false (fun heq => by cases heq) fun heq => by cases heq
      | ok found => rw [ok_bind, pure_eq_ok, commit_ok henv hleader, answer, replyOf]

end

theorem outcome_healed {call : Call} (hstamps : call.Stamps = true)
    (hok : (call.exec env engine).1.1 = .OK) :
    outcome env engine key call = outcome env.healed engine key call := by
  rw [outcome, outcome, (exec_healed hstamps hok).2]

theorem setPlan_eq (value : Bytes) :
    engine.setPlan env (getFormatKey key) value =
      .ok ((), batchOf key [.putHead (rawStringBytes (engine.stamp env 0) value)]) := by
  rw [setPlan, nil_eq_batchOf key, iput_head, rawString_stamped,
    rawData_rawString, rawString_encode_rawData]
  rfl

theorem slot_set (hok : ((Call.set key value).exec env engine).1.1 = .OK) :
    (slot ((Call.set key value).exec env engine).2.db.store key).head =
      some (rawStringBytes (engine.stamp env 0) value) := by
  obtain ⟨hleader, -⟩ := exec_healed rfl hok
  have hexec : (Call.set key value).exec env.healed engine = answer (fun _ => .nothing)
      (engine.commit env.healed () (engine.setPlan env.healed (getFormatKey key) value)) := rfl
  have hslot := congrArg Prod.snd
    ((outcome_healed rfl hok).trans (outcome_of_ok env.healed_healthy hleader hexec (setPlan_eq value)))
  change slot _ key = _ at hslot
  rw [hslot]
  rfl

theorem slot_of_outcome [LaserValue V] {fresh : V} {call : Call}
    {writes : Option V → Slot → List SlotWrite} (hstamps : call.Stamps = true)
    (hok : (call.exec env engine).1.1 = .OK)
    (houtcome : engine.db.role = .LEADER →
      outcome env.healed engine key call = (slot engine.db.store key).update fresh writes) :
    ∃ found : Option V, slot (call.exec env engine).2.db.store key =
        (slot engine.db.store key).applyAll (writes found (slot engine.db.store key)) ∧
      (found = none ∧ (slot engine.db.store key).head = none ∨
        ∃ value, found = some value ∧ (slot engine.db.store key).Reads fresh value) := by
  have hupdate := (outcome_healed hstamps hok).trans (houtcome (exec_healed hstamps hok).1)
  obtain ⟨hstatus, hslot⟩ := Prod.ext_iff.mp hupdate
  obtain ⟨found, hafter, hfound⟩ := Slot.update_ok (hstatus.symm.trans hok)
  exact ⟨found, hslot.trans hafter, hfound⟩

theorem slot_hset (hok : ((Call.hset key field value).exec env engine).1.1 = .OK) :
    (∃ metaData, (slot ((Call.hset key field value).exec env engine).2.db.store key).Reads
        (new : LaserValueMapMeta) metaData) ∧
      (slot ((Call.hset key field value).exec env engine).2.db.store key).records.get
        (packedString field) = some (rawStringBytes 0 value) := by
  have hexec : (Call.hset key field value).exec env.healed engine = answer (fun _ => .nothing)
      (engine.commit env.healed () (engine.hsetPlan env.healed (getFormatKey key) field value)) := rfl
  obtain ⟨found, hslot, hfound⟩ := slot_of_outcome rfl hok fun hleader =>
    outcome_of_plan env.healed_healthy hleader hexec (plan_hset field value env.healed_healthy)
  rw [hslot, hsetWrites.eq_def, Slot.applyAll_append]
  have hnew (timestamp : UInt64) (size : UInt32) (slot : Slot)
      (hhead : slot.head = some (sizeMetaBytes .MAP timestamp size)) :
      ∃ metaData, slot.Reads (new : LaserValueMapMeta) metaData := by
    obtain ⟨buffer, hdecode⟩ := sizeMeta_decode
      (setRawBuffer (new : LaserValueMapMeta)
        (sizeMetaBytes .MAP timestamp size)) rfl
    exact ⟨_, _, hhead, hdecode⟩
  refine ⟨?_, get_put_self _ _ _⟩
  rcases hfound with ⟨rfl, -⟩ | ⟨metaData, rfl, hreads⟩
  · exact hnew _ _ _ rfl
  · dsimp only
    split
    · obtain ⟨bytes, -, hdecode⟩ := id hreads
      rw [(sizeMeta_headOf hdecode).2]
      exact hnew _ _ _ rfl
    · obtain ⟨bytes, hhead, hdecode⟩ := hreads
      exact ⟨metaData, bytes, hhead, hdecode⟩

theorem pushed_popped (metaData after : LaserValueListMeta) (isLeft : Bool)
    (hstart : after.start = (if isLeft then metaData.pushFront else metaData.pushBack).2.start)
    (hend : after.endIndex = (if isLeft then metaData.pushFront else metaData.pushBack).2.endIndex) :
    (if isLeft then after.popFront else after.popBack).1 =
        (if isLeft then metaData.pushFront else metaData.pushBack).1 ∧
      (after.getSize ≠ 0 ↔ metaData.getSize ≠ -2) := by
  rcases metaData with ⟨head, start, endIndex⟩
  rcases after with ⟨head', start', endIndex'⟩
  by_cases hends : start = endIndex <;> cases isLeft <;>
    simp only [LaserValueListMeta.pushFront, LaserValueListMeta.pushBack,
      LaserValueListMeta.popFront, LaserValueListMeta.popBack, LaserValueListMeta.getSize, hends,
      ↓reduceIte, Bool.false_eq_true] at hstart hend ⊢ <;>
    grind

theorem slot_push {isLeft : Bool}
    (hok : (((StringPlace.listEnd key isLeft).write value).exec env engine).1.1 = .OK) :
    ∃ metaData : LaserValueListMeta,
      (slot (((StringPlace.listEnd key isLeft).write value).exec env engine).2.db.store key).Reads
        LaserValueListMeta.new metaData ∧
      (slot (((StringPlace.listEnd key isLeft).write value).exec env engine).2.db.store
        key).records.get (intBytes .big (if isLeft then metaData.popFront else metaData.popBack).1) =
          some (rawStringBytes 0 value) ∧
      (metaData.getSize ≠ 0 ↔ (StringPlace.listEnd key isLeft).Countable engine) := by
  have hexec : ((StringPlace.listEnd key isLeft).write value).exec env.healed engine =
      answer (fun _ => .nothing) (engine.listPush env.healed (getFormatKey key) value isLeft) := by
    cases isLeft <;> rfl
  have hstamps : ((StringPlace.listEnd key isLeft).write value).Stamps = true := by
    cases isLeft <;> rfl
  obtain ⟨found, hslot, hfound⟩ := slot_of_outcome hstamps hok
    fun hleader => outcome_of_plan env.healed_healthy hleader hexec
      (plan_push env.healed_healthy value isLeft)
  obtain ⟨metaData, hmeta, htype, hcount⟩ : ∃ metaData : LaserValueListMeta,
      found.getD LaserValueListMeta.new = metaData ∧ metaData.type = .LIST ∧
        (metaData.getSize ≠ -2 ↔ (StringPlace.listEnd key isLeft).Countable engine) := by
    rcases hfound with ⟨rfl, hhead⟩ | ⟨metaData, rfl, bytes, hhead, hdecode⟩
    · refine ⟨_, rfl, rfl, iff_of_true (by decide) ?_⟩
      rintro metaData ⟨bytes, hbytes, -⟩
      cases hhead.symm.trans hbytes
    · refine ⟨metaData, rfl, (listMeta_headOf hdecode).2, ?_, fun hall =>
        hall metaData ⟨bytes, hhead, hdecode⟩⟩
      rintro hsize found ⟨bytes', hbytes', hfound⟩
      cases hhead.symm.trans hbytes'
      cases hdecode.symm.trans hfound
      exact hsize
  rw [hslot, listPushWrites, hmeta, htype]
  obtain ⟨buffer, hdecode⟩ := listMeta_decode (setRawBuffer LaserValueListMeta.new
    (listMetaBytes (engine.stamp env metaData.timestamp)
      (if isLeft then metaData.pushFront else metaData.pushBack).2.start
      (if isLeft then metaData.pushFront else metaData.pushBack).2.endIndex)) rfl
  obtain ⟨hindex, hsize⟩ := pushed_popped metaData
    ⟨⟨buffer, .LIST, engine.stamp env metaData.timestamp⟩, _, _⟩ isLeft rfl rfl
  refine ⟨_, ⟨_, rfl, hdecode⟩, ?_, hsize.trans hcount⟩
  rw [hindex]
  exact get_put_self _ _ _

namespace StringPlace

theorem reply_iff (place : StringPlace) {env later : Env} (hlater : later.Healthy)
    (hok : ((place.write value).exec env engine).1.1 = .OK)
    (hlive : (place.reply value engine env later).1 ≠ .RS_KEY_EXPIRE) :
    place.reply value engine env later = (.OK, .text value) ↔
      (value ≠ [] ∧ value.length < 2 ^ 32) ∧ place.Countable engine := by
  cases place with
  | string key =>
    exact (get_reply_iff hlater (slot_set hok) hlive).trans (and_iff_left trivial).symm
  | hashField key field =>
    obtain ⟨⟨metaData, hreads⟩, hrecord⟩ := slot_hset hok
    exact (hget_reply_iff hlater hreads hrecord hlive).trans (and_iff_left trivial).symm
  | listEnd key isLeft =>
    obtain ⟨metaData, hreads, hrecord, hcount⟩ := slot_push hok
    have hstamps : ((StringPlace.listEnd key isLeft).write value).Stamps = true := by
      cases isLeft <;> rfl
    have hleader : (((StringPlace.listEnd key isLeft).write value).exec env engine).2.db.role =
        .LEADER := by
      rw [exec_engine]
      exact (exec_healed hstamps hok).1
    rw [← hcount]
    exact pop_reply_iff hlater hleader hreads hrecord hlive

/-- The codec reads back what it writes just if no string is empty or too long, and so do the reads
of strings. -/
theorem read_back_iff (timestamp : UInt64) (content : ValueContent) (place : StringPlace)
    (value : Bytes) :
    (content.RoundTrips timestamp ↔ content.Readable timestamp) ∧
      ∀ engine env later, later.Healthy → ((place.write value).exec env engine).1.1 = .OK →
        (place.reply value engine env later).1 ≠ .RS_KEY_EXPIRE →
        (place.reply value engine env later = (.OK, .text value) ↔
          (value ≠ [] ∧ value.length < 2 ^ 32) ∧ place.Countable engine) :=
  ⟨content.roundTrips_iff_readable timestamp,
    fun _ _ _ hlater hok hlive => place.reply_iff hlater hok hlive⟩

theorem read_back_letter :
    (ValueContent.zset [[98], [99]]).RoundTrips 7 ∧
      (listEnd ⟨[[97]], []⟩ true).reply [98] .fresh (.at 5) (.at 6) = (.OK, .text [98]) := by
  obtain ⟨hcodec, hreply⟩ := read_back_iff 7 (.zset [[98], [99]]) (listEnd ⟨[[97]], []⟩ true) [98]
  have hreadable : (ValueContent.zset [[98], [99]]).Readable 7 := by
    rw [ValueContent.Readable, if_pos (by decide)]
    simp [NoEmpty]
  refine ⟨hcodec.mpr hreadable, ?_⟩
  refine (hreply .fresh (.at 5) (.at 6) (Env.at_healthy 6) (by decide) (by decide)).mpr
    ⟨by decide, ?_⟩
  rintro metaData ⟨bytes, hhead, -⟩
  cases hhead

/-- The empty string is written and not read back. -/
theorem read_back_empty_fails :
    ¬(ValueContent.rawString []).RoundTrips 0 ∧ ¬(ValueContent.zset [[98], []]).RoundTrips 0 ∧
      ∀ place ∈ [string ⟨[[97]], []⟩, hashField ⟨[[97]], []⟩ [102], listEnd ⟨[[97]], []⟩ true],
        ((place.write []).exec (.at 5) .fresh).1.1 = .OK ∧
          (place.reply [] .fresh (.at 5) (.at 6)).1 = .RS_INVALID_ARGUMENT := by
  decide

end StringPlace

end LaserDB
