import LaserDB.Refinement.Effect

/-!
# The effect of every call

A call leaves the slot of each of its keys alone or has the effect of its kind on it, and it never
touches another key.
-/

namespace LaserDB

open LaserValue (decode encode rawData setRawBuffer)
open ByteCodec RocksDbEngine Option List OrderedMap LaserValue ReplicationDB

def Scored (before after : Slot) : Prop := before.Of .ZSET ∧ after.Has .ZSET

variable {engine : RocksDbEngine} {env : Env} {key : LaserKey} {batch : RocksDbBatch}

theorem zadd_writes {memberScores : OrderedMap Bytes Int64}
    (hplan : engine.zaddPlan env (getFormatKey key) memberScores = .ok ((), batch)) :
    Writes key (slot engine.db.store key)
      (fun before after => before.Sound → OrSame Scored before after) batch := by
  by_cases hentries : memberScores.entries = []
  · simp only [zaddPlan, hentries, zaddLoop, bind_eq_ok, pure_eq_ok] at hplan
    obtain ⟨_, -, _, ⟨⟩, ⟨⟩⟩ := hplan
    exact ⟨[], rfl, fun _ => .inl rfl⟩
  · obtain ⟨found, hfound, rfl⟩ := (zaddPlan_heals engine env _ memberScores).finds
      (plan_zadd env.healed_healthy hentries) hplan
    refine ⟨_, rfl, fun hsound => .inr ?_⟩
    obtain ⟨hof, htype⟩ : (slot engine.db.store key).Of .ZSET ∧
        (found.getD SizeMeta.new).type = .ZSET := by
      cases found with
      | none => exact ⟨.inl (hsound.absent_of_head hfound), rfl⟩
      | some metaData =>
        obtain ⟨timestamp, hhead, htype⟩ := hsound.sized_of_reads (by decide) hfound
        exact ⟨.inr ⟨_, hhead, .zset _ _⟩, htype⟩
    refine ⟨hof, ?_⟩
    simp only [zaddWrites, applyAll_scoreWrites, if_neg hentries, htype]
    exact ⟨_, rfl, .zset _ _⟩

theorem zrem_writes {min max result : Int64} (hone : max < 0 ∨ 0 ≤ min)
    (hplan : engine.zremRangeByScorePlan env (getFormatKey key) min max = .ok (result, batch)) :
    Writes key (slot engine.db.store key) (fun before _ => before.Sound → before.Has .ZSET)
      batch := by
  simp only [zremRangeByScorePlan, bind_eq_ok] at hplan
  obtain ⟨metaData, hread, hplan⟩ := hplan
  have hzset (hsound : (slot engine.db.store key).Sound) :
      (slot engine.db.store key).Has .ZSET := by
    obtain ⟨bytes, hhead, hdecode⟩ := readLive_ok hread
    obtain ⟨type, hmeta⟩ := hsound.exists_meta hhead
    obtain ⟨timestamp, rfl, -, -⟩ := hmeta.sized_of_decode (by decide) hdecode
    exact ⟨_, hhead, .zset _ _⟩
  rw [rangeZset_oneSided _ _ hone, zremLoop_eq, List.filter_map, List.nil_append,
    List.map_map] at hplan
  have hdeletes (entries : List (Bytes × Bytes)) :
      entries.map ((fun entry => BatchWrite.delete entry.1) ∘
        fun entry : Bytes × Bytes => (key.stem ++ entry.1, entry.2)) =
      batchOf key (entries.map fun entry => .drop entry.1) := by
    rw [batchOf, List.map_map]
    rfl
  rw [hdeletes] at hplan
  simp only [idelete_head, iput_head] at hplan
  split at hplan
  all_goals
    cases hplan
    exact ⟨_, rfl, hzset⟩

def Deleted (before after : Slot) : Prop :=
  after = .absent ∨ ∃ type, before.Has type ∧ ¬type.erasedByDelkey ∧
    after = { before with head := none }

theorem delkeyPlan_ok {found : Option RocksDbBatch}
    (hplan : engine.db.delkeyPlan env (getFormatKey key) = .ok found) :
    found = none ∧ (slot engine.db.store key).head = none ∨
      ∃ bytes value, (slot engine.db.store key).head = some bytes ∧
        decode (setRawBuffer (LaserValueFormatBase.ofBuffer []) bytes) = (.accepted, value) ∧
        found = some (batchOf key ((slot engine.db.store key).delkeyWrites value.type)) := by
  simp only [delkeyPlan, bind_eq_ok] at hplan
  obtain ⟨stored, hread, hplan⟩ := hplan
  have hhead := readOptional_head_ok hread
  cases hslot : (slot engine.db.store key).head with
  | none =>
    rw [hslot, map_none] at hhead
    subst hhead
    cases hplan
    exact .inl ⟨rfl, rfl⟩
  | some bytes =>
    rw [hslot, map_some] at hhead
    subst hhead
    simp only [bind_eq_ok, pure_eq_ok, Except.ok.injEq, delkeyBatch_eq] at hplan
    obtain ⟨value, hdecode, rfl⟩ := hplan
    exact .inr ⟨bytes, value, rfl, decodeOr_eq_ok.mp hdecode, rfl⟩

theorem delkeyPlan_error {status : Status}
    (hplan : engine.db.delkeyPlan env (getFormatKey key) = .error status) : status ≠ .OK := by
  have hread : engine.db.readOptional env (LaserValueFormatBase.ofBuffer [])
      (getFormatKey key).toLaserSerializer ≠ .error .OK := by
    unfold ReplicationDB.readOptional ReplicationDB.read
    cases env.readFault (getFormatKey key).toLaserSerializer.rawData with
    | some fault => cases fault <;> simp [convertRocksDbStatus]
    | none =>
      cases engine.db.store.get (getFormatKey key).toLaserSerializer.rawData <;>
        simp [convertRocksDbStatus]
  rintro rfl
  unfold delkeyPlan at hplan
  cases hfound : engine.db.readOptional env (LaserValueFormatBase.ofBuffer [])
      (getFormatKey key).toLaserSerializer with
  | error failure =>
    rw [hfound] at hplan
    cases hplan
    exact hread hfound
  | ok found =>
    rw [hfound] at hplan
    cases found with
    | none => cases hplan
    | some value =>
      simp only [ok_bind, decodeOr] at hplan
      split at hplan <;> cases hplan

theorem type_of_head {type : ValueType} {bytes : Bytes} {value : LaserValueFormatBase}
    (hmeta : MetaOf type bytes)
    (hdecode : decode
      (setRawBuffer (LaserValueFormatBase.ofBuffer []) bytes) = (.accepted, value)) :
    value.type = type ∧ value.rawData = bytes := by
  obtain ⟨timestamp, tail, hbytes⟩ := hmeta.exists_head
  obtain ⟨buffer, hhead, hraw, -⟩ := headDecode_of_rawData
    (setRawBuffer (LaserValueFormatBase.ofBuffer []) bytes) hbytes
  rw [show decode _ = _ from hhead] at hdecode
  cases hdecode
  exact ⟨rfl, hraw⟩

theorem delkey_writes
    (hplan : (engine.db.delkeyPlan env (getFormatKey key)).map
      (fun batch => ((), batch.getD [])) = .ok ((), batch)) :
    Writes key (slot engine.db.store key)
      (fun before after => before.Sound → OrSame Deleted before after) batch := by
  cases hfound : engine.db.delkeyPlan env (getFormatKey key) with
  | error status =>
    rw [hfound] at hplan
    cases hplan
  | ok found =>
    rw [hfound] at hplan
    rcases delkeyPlan_ok hfound with ⟨rfl, -⟩ | ⟨bytes, value, hhead, hdecode, rfl⟩
    · cases hplan
      exact ⟨[], rfl, fun _ => .inl rfl⟩
    · cases hplan
      refine ⟨_, rfl, fun hsound => .inr ?_⟩
      obtain ⟨type, hmeta⟩ := hsound.exists_meta hhead
      rw [(type_of_head hmeta hdecode).1, Slot.delkeyWrites]
      split
      · exact .inl (applyAll_dropAll _)
      · rename_i herased
        exact .inr ⟨type, ⟨bytes, hhead, hmeta⟩, herased, rfl⟩

theorem committed_of_ok {db : ReplicationDB} (hok : (db.write env batch).1 = .OK) :
    committed env db.role (.ok ((), batch)) = batch := by
  unfold write at hok
  unfold committed
  cases hrole : db.role with
  | FOLLOWER => simp [hrole] at hok
  | LEADER =>
    cases hfault : env.writeFault with
    | none => rfl
    | some fault => cases fault <;> simp [hrole, hfault, convertRocksDbStatus] at hok

theorem delkey_ok_absent (hok : ((Call.delkey key).exec env engine).1.1 = .OK)
    (hslot : (slot engine.db.store key).records = empty ∨
      ∃ type, (slot engine.db.store key).Has type ∧ type.erasedByDelkey) :
    slot ((Call.delkey key).exec env engine).2.db.store key = .absent := by
  have hdropped (type : ValueType) (herased : type.erasedByDelkey ∨
      (slot engine.db.store key).records = empty) :
      (slot engine.db.store key).applyAll ((slot engine.db.store key).delkeyWrites type) =
        .absent := by
    rw [Slot.delkeyWrites]
    split
    · exact applyAll_dropAll _
    · rename_i hkept
      have hempty := herased.resolve_left hkept
      change Slot.mk none _ = _
      rw [hempty]
      rfl
  rw [exec_engine, withStore_store, Call.batch]
  simp only [Call.exec, RocksDbEngine.delkey, ReplicationDB.delkey, answer] at hok
  cases hfound : engine.db.delkeyPlan env (getFormatKey key) with
  | error status =>
    rw [hfound] at hok
    exact absurd hok (delkeyPlan_error hfound)
  | ok found =>
    rw [hfound] at hok
    rcases delkeyPlan_ok hfound with ⟨rfl, hhead⟩ | ⟨bytes, value, hhead, hdecode, rfl⟩
    · have hempty := hslot.resolve_right (by
        rintro ⟨_, ⟨_, hbytes, _⟩, _⟩
        rw [hhead] at hbytes
        cases hbytes)
      have hnothing : committed env engine.db.role
          (Except.map (fun batch => ((), getD batch [])) (.ok none : Except Status _)) =
          [] := by
        unfold committed
        split <;> simp_all [Except.map]
      rw [hnothing]
      exact Slot.eq_absent hhead hempty
    · have hcommitted : committed env engine.db.role
          (Except.map (fun batch => ((), getD batch []))
            (.ok (some (batchOf key ((slot engine.db.store key).delkeyWrites value.type))) :
              Except Status _)) = _ := committed_of_ok hok
      rw [hcommitted, getD_some, slot_batch_self]
      refine hdropped value.type ?_
      rcases hslot with hempty | ⟨type, ⟨found, hfoundHead, hmeta⟩, herased⟩
      · exact .inr hempty
      · rw [hhead, some.injEq] at hfoundHead
        subst hfoundHead
        exact .inl ((type_of_head hmeta hdecode).1 ▸ herased)

/-- The same record with another expiry time; a string that the codec does not
give back may be lost. -/
inductive SameValue : ValueType → Bytes → Bytes → Prop
  | string (timestamp timestamp' : UInt64) (data data' : Bytes) :
      SameValue .RAW_STRING (rawStringBytes timestamp data) (rawStringBytes timestamp' data')
  | counter (timestamp timestamp' : UInt64) (value : Int64) :
      SameValue .COUNTER (counterBytes timestamp value) (counterBytes timestamp' value)
  | map (timestamp timestamp' : UInt64) (size : UInt32) :
      SameValue .MAP (sizeMetaBytes .MAP timestamp size) (sizeMetaBytes .MAP timestamp' size)
  | list (timestamp timestamp' : UInt64) (start endIndex : Int64) :
      SameValue .LIST (listMetaBytes timestamp start endIndex)
        (listMetaBytes timestamp' start endIndex)
  | set (timestamp timestamp' : UInt64) (size : UInt32) :
      SameValue .SET (sizeMetaBytes .SET timestamp size) (sizeMetaBytes .SET timestamp' size)
  | zset (timestamp timestamp' : UInt64) (size : UInt32) :
      SameValue .ZSET (sizeMetaBytes .ZSET timestamp size) (sizeMetaBytes .ZSET timestamp' size)

structure Retimed (before after : Slot) : Prop where
  head : ∃ type bytes bytes', before.head = some bytes ∧ after.head = some bytes' ∧
    SameValue type bytes bytes'
  names : ∀ suffix, after.records.get suffix = none ↔ before.records.get suffix = none
  size : after.records.size = before.records.size

section
/-- The record that `expireAt` writes under the plain key. -/
def retimedHead (type : ValueType) (raw : Bytes) (timestamp : UInt64) : Bytes :=
  match type with
  | .RAW_STRING => rawData (retimed (LaserValueRawString.ofBuffer raw) timestamp)
  | .COUNTER => rawData (retimed (LaserValueCounter.ofBuffer raw) timestamp)
  | .MAP => rawData (retimed (SizeMeta.ofBuffer raw : LaserValueMapMeta) timestamp)
  | .LIST => rawData (retimed (LaserValueListMeta.ofBuffer raw) timestamp)
  | .SET => rawData (retimed (SizeMeta.ofBuffer raw : LaserValueSetMeta) timestamp)
  | .ZSET => rawData (retimed (SizeMeta.ofBuffer raw : LaserValueZSetMeta) timestamp)

variable (timestamp timestamp' : UInt64)

theorem retimed_string (data : Bytes) :
    ∃ data', rawData
      (retimed (LaserValueRawString.ofBuffer (rawStringBytes timestamp data)) timestamp') =
        rawStringBytes timestamp' data' := by
  obtain ⟨buffer, hdecode, -⟩ := headDecode_of_rawData
    (LaserValueRawString.ofBuffer (rawStringBytes timestamp data)).toLaserValueFormatBase rfl
  rcases hread : buffer.unpackString [] with ⟨verdict, text, rest⟩
  refine ⟨text, ?_⟩
  simp only [retimed, decode, encode, LaserValueRawString.decode, hdecode,
    ne_eq, not_true_eq_false, ↓reduceIte, hread, rawData_rawString, rawString_encode_rawData]
  rfl

theorem retimed_counter (value : Int64) :
    rawData
      (retimed (LaserValueCounter.ofBuffer (counterBytes timestamp value)) timestamp') =
        counterBytes timestamp' value := by
  obtain ⟨buffer, hdecode⟩ :=
    counter_decode (LaserValueCounter.ofBuffer (counterBytes timestamp value)) rfl
  simp only [retimed, decode, encode, hdecode, rawData_counter, counter_encode_rawData]
  rfl

theorem retimed_sizeMeta (kind : ValueType) (timestamp timestamp' : UInt64) (size : UInt32) :
    rawData (retimed
      (SizeMeta.ofBuffer (sizeMetaBytes kind timestamp size) : SizeMeta kind) timestamp') =
        sizeMetaBytes kind timestamp' size := by
  obtain ⟨buffer, hdecode⟩ :=
    sizeMeta_decode (SizeMeta.ofBuffer (sizeMetaBytes kind timestamp size) : SizeMeta kind) rfl
  simp only [retimed, decode, encode, hdecode, rawData_sizeMeta, sizeMeta_encode_rawData]
  rfl

theorem retimed_listMeta (start endIndex : Int64) :
    rawData (retimed
      (LaserValueListMeta.ofBuffer (listMetaBytes timestamp start endIndex)) timestamp') =
        listMetaBytes timestamp' start endIndex := by
  obtain ⟨buffer, hdecode⟩ :=
    listMeta_decode (LaserValueListMeta.ofBuffer (listMetaBytes timestamp start endIndex)) rfl
  simp only [retimed, decode, encode, hdecode, rawData_listMeta, listMeta_encode_rawData]
  rfl

theorem retimedHead_sameValue {type : ValueType} {bytes : Bytes}
    (hmeta : MetaOf type bytes) (timestamp : UInt64) :
    SameValue type bytes (retimedHead type bytes timestamp) := by
  cases hmeta with
  | string =>
    obtain ⟨data', hraw⟩ := retimed_string _ timestamp _
    rw [retimedHead, hraw]
    exact .string _ _ _ _
  | counter =>
    rw [retimedHead, retimed_counter]
    exact .counter _ _ _
  | map =>
    rw [retimedHead, retimed_sizeMeta]
    exact .map _ _ _
  | list =>
    rw [retimedHead, retimed_listMeta]
    exact .list _ _ _ _
  | set =>
    rw [retimedHead, retimed_sizeMeta]
    exact .set _ _ _
  | zset =>
    rw [retimedHead, retimed_sizeMeta]
    exact .zset _ _ _

theorem expireLoop_puts [LaserValue V] (decodesKey : Bytes → Bool)
    (ofBuffer : Bytes → V) (timestamp : UInt64) (entries : List (Bytes × Bytes)) :
    ∃ puts : List (Bytes × Bytes),
      (entries.map fun entry => (key.stem ++ entry.1, entry.2)).filterMap
        (expireEntry decodesKey ofBuffer timestamp) =
          batchOf key (puts.map fun pair => .put pair.1 pair.2) ∧
      ∀ pair ∈ puts, pair.1 ∈ entries.map Prod.fst := by
  induction entries with
  | nil => exact ⟨[], rfl, by simp⟩
  | cons entry entries ih =>
    obtain ⟨puts, hputs, hmem⟩ := ih
    have hlater : ∀ pair ∈ puts, pair.1 ∈ (entry :: entries).map Prod.fst :=
      fun pair hpair => mem_cons_of_mem _ (hmem pair hpair)
    rw [map_cons, filterMap_cons, hputs]
    cases hentry : expireEntry decodesKey ofBuffer timestamp (key.stem ++ entry.1, entry.2) with
    | none => exact ⟨puts, rfl, hlater⟩
    | some write =>
      have hwrite : ∃ value, write = .put (key.stem ++ entry.1) value := by
        unfold expireEntry at hentry
        split at hentry
        · split at hentry
          · cases hentry
            exact ⟨_, rfl⟩
          · cases hentry
        · cases hentry
      obtain ⟨value, rfl⟩ := hwrite
      refine ⟨(entry.1, value) :: puts, rfl, ?_⟩
      intro pair hpair
      rcases mem_cons.mp hpair with rfl | hpair
      · simp
      · exact hlater pair hpair

theorem applyAll_puts {puts : List (Bytes × Bytes)} {slot : Slot}
    (hputs : ∀ pair ∈ puts, slot.records.get pair.1 ≠ none) :
    let after := slot.applyAll (puts.map fun pair => .put pair.1 pair.2)
    after.head = slot.head ∧ after.records.size = slot.records.size ∧
      ∀ suffix, after.records.get suffix = none ↔ slot.records.get suffix = none := by
  induction puts generalizing slot with
  | nil => exact ⟨rfl, rfl, fun _ => Iff.rfl⟩
  | cons pair puts ih =>
    have hpair := hputs pair (by simp)
    have hnames (suffix : Bytes) : (slot.records.put pair.1 pair.2).get suffix = none ↔
        slot.records.get suffix = none := by
      rw [get_put]
      split
      · rename_i heq
        rw [heq]
        exact iff_of_false (by simp) hpair
      · rfl
    have hsize := size_put slot.records pair.1 pair.2
    rw [if_neg hpair] at hsize
    have hkept : ∀ other ∈ puts,
        (Slot.mk slot.head (slot.records.put pair.1 pair.2)).records.get other.1 ≠ none :=
      fun other hother => (hnames other.1).not.mpr (hputs other (by simp [hother]))
    obtain ⟨hhead, hrest, hget⟩ := ih hkept
    exact ⟨hhead, hrest.trans hsize, fun suffix => (hget suffix).trans (hnames suffix)⟩

theorem expireAtPlan_ok {timestamp : UInt64}
    (hplan : engine.expireAtPlan env (getFormatKey key) timestamp = .ok ((), batch)) :
    ∃ (bytes : Bytes) (value : LaserValueFormatBase) (puts : List (Bytes × Bytes)),
      (slot engine.db.store key).head = some bytes ∧
      decode (setRawBuffer (LaserValueFormatBase.ofBuffer []) bytes) = (.accepted, value) ∧
      batch = batchOf key (.putHead (retimedHead value.type value.rawData timestamp) ::
        puts.map fun pair => .put pair.1 pair.2) ∧
      ∀ pair ∈ puts, (slot engine.db.store key).records.get pair.1 ≠ none := by
  simp only [expireAtPlan, bind_eq_ok] at hplan
  obtain ⟨stored, hread, value, hdecode, hplan⟩ := hplan
  obtain ⟨bytes, hhead, rfl⟩ := readFound_head_ok hread
  have hmem {puts : List (Bytes × Bytes)}
      (hputs : ∀ pair ∈ puts, pair.1 ∈ (slot engine.db.store key).records.entries.map Prod.fst) :
      ∀ pair ∈ puts, (slot engine.db.store key).records.get pair.1 ≠ none := by
    intro pair hpair hnone
    obtain ⟨entry, hentry, heq⟩ := mem_map.mp (hputs pair hpair)
    rw [← heq] at hnone
    exact get_eq_none_iff.mp hnone entry.2 hentry
  have hputs {written : Bytes} {more : RocksDbBatch}
      (hmore : ∃ puts : List (Bytes × Bytes),
        more = batchOf key (puts.map fun pair => .put pair.1 pair.2) ∧
        ∀ pair ∈ puts, pair.1 ∈ (slot engine.db.store key).records.entries.map Prod.fst)
      (hwritten : retimedHead value.type value.rawData timestamp = written)
      (hbatch : batchOf key ([] ++ [.putHead written]) ++ more = batch) :
      ∃ puts : List (Bytes × Bytes), batch = batchOf key
        (.putHead (retimedHead value.type value.rawData timestamp) ::
          puts.map fun pair => .put pair.1 pair.2) ∧
        ∀ pair ∈ puts, (slot engine.db.store key).records.get pair.1 ≠ none := by
    obtain ⟨puts, rfl, hnames⟩ := hmore
    subst hwritten
    exact ⟨puts, hbatch.symm, hmem hnames⟩
  refine ⟨bytes, value, ?_⟩
  simp only [hhead, decodeOr_eq_ok.mp hdecode, true_and]
  simp only [setMapExpire, setListExpire, setSetExpire, zsetSetExpire, nil_eq_batchOf key, iput_head,
    iterate_eq engine.db (mapTarget_rawData key), iterate_eq engine.db (setTarget_rawData key),
    iterate_eq engine.db (listTarget_rawData key),
    iterate_eq engine.db (zsetTarget_rawData key)] at hplan
  split at hplan
  all_goals
    rename_i htype
    simp only [pure_eq_ok, Except.ok.injEq, Prod.mk.injEq, true_and] at hplan
  · exact hputs ⟨[], rfl, by simp⟩ (by rw [htype]; rfl) hplan
  · exact hputs ⟨[], rfl, by simp⟩ (by rw [htype]; rfl) hplan
  all_goals exact hputs (expireLoop_puts _ _ _ _) (by rw [htype]; rfl) hplan

variable {timestamp : UInt64}
  (hplan : engine.expireAtPlan env (getFormatKey key) timestamp = .ok ((), batch))
include hplan

theorem expireAt_head :
    ∃ bytes value, (slot engine.db.store key).head = some bytes ∧
      decode (setRawBuffer (LaserValueFormatBase.ofBuffer []) bytes) = (.accepted, value) ∧
      (slot (batch.apply engine.db.store) key).head =
        some (retimedHead value.type value.rawData timestamp) := by
  obtain ⟨bytes, value, puts, hhead, hdecode, rfl, hputs⟩ := expireAtPlan_ok hplan
  have hslot : ∀ pair ∈ puts, (Slot.mk (some (retimedHead value.type value.rawData timestamp))
      (slot engine.db.store key).records).records.get pair.1 ≠ none := hputs
  refine ⟨bytes, value, hhead, hdecode, ?_⟩
  rw [slot_batch_self]
  exact (applyAll_puts hslot).1

theorem expireAt_writes :
    Writes key (slot engine.db.store key)
      (fun before after => before.Sound → Retimed before after) batch := by
  obtain ⟨bytes, value, puts, hhead, hdecode, rfl, hputs⟩ := expireAtPlan_ok hplan
  refine ⟨_, rfl, fun hsound => ?_⟩
  obtain ⟨type, hmeta⟩ := hsound.exists_meta hhead
  obtain ⟨htype, hraw⟩ := type_of_head hmeta hdecode
  rw [htype, hraw]
  have hslot : ∀ pair ∈ puts, (Slot.mk (some (retimedHead type bytes timestamp))
      (slot engine.db.store key).records).records.get pair.1 ≠ none := hputs
  obtain ⟨hafter, hsize, hnames⟩ := applyAll_puts hslot
  exact ⟨⟨type, bytes, _, hhead, hafter, retimedHead_sameValue hmeta timestamp⟩, hnames, hsize⟩

end

/-- What a call can do to the slot of one of its keys, when it does anything.
What `zremRangeByScore` leaves is said with the ranges of a zset. -/
def Call.Effect : Call → Slot → Slot → Prop
  | .append _ _ => Revised .RAW_STRING
  | .set _ _ | .mset _ _ => Rewritten .RAW_STRING
  | .setx _ _ options | .msetx _ _ options =>
    if options.notExists then Revised .RAW_STRING else Rewritten .RAW_STRING
  | .incr _ _ | .decr _ _ => Revised .COUNTER
  | .hset _ _ _ => Counted .MAP 1
  | .hmset _ values => Counted .MAP values.size
  | .hdel _ _ => Counted .MAP 0
  | .popFront _ => Popped true
  | .popBack _ => Popped false
  | .pushFront _ _ => Pushed true
  | .pushBack _ _ => Pushed false
  | .sadd _ _ => Counted .SET 1
  | .sdel _ _ => Counted .SET 0
  | .zadd _ _ => Scored
  | .zremRangeByScore _ _ _ => fun before _ => before.Has .ZSET
  | .delkey _ => Deleted
  | .expire _ _ | .expireAt _ _ => Retimed
  | _ => fun _ _ => False

variable {call : Call}

variable {effect : Slot → Slot → Prop}

theorem committed_writes {plan : Except Status (α × RocksDbBatch)} {before : Slot}
    (hplan : ∀ result batch, plan = .ok (result, batch) →
      Writes key before (fun before after => before.Sound → OrSame effect before after) batch) :
    Writes key before (fun before after => before.Sound → OrSame effect before after)
      (committed env engine.db.role plan) := by
  unfold committed
  split
  · exact hplan _ _ rfl
  · exact ⟨[], rfl, fun _ => .inl rfl⟩

theorem committed_always {plan : Except Status (α × RocksDbBatch)} {before : Slot}
    (hplan : ∀ result batch, plan = .ok (result, batch) → Writes key before effect batch) :
    Writes key before (fun before after => before.Sound → OrSame effect before after)
      (committed env engine.db.role plan) :=
  committed_writes fun _ _ hok => (hplan _ _ hok).imp fun _ heffect _ => .inr heffect

theorem batch_writes (engine : RocksDbEngine) (env : Env) (hcall : call.key = some key)
    (hone : call.OneSided)
    (hsound : ∀ type ∈ call.valueType, type ≠ .ZSET → (slot engine.db.store key).Sound) :
    Writes key (slot engine.db.store key)
      (fun before after => before.Sound → OrSame call.Effect before after)
      (call.batch env engine) := by
  cases call with
  | mset | msetx => cases hcall
  | append =>
    cases hcall
    exact committed_always fun _ _ => append_writes (hsound _ rfl (by decide))
  | set =>
    cases hcall
    exact committed_always fun _ _ => set_writes
  | setx =>
    cases hcall
    exact committed_always fun _ _ => setx_writes (hsound _ rfl (by decide))
  | incr | decr =>
    cases hcall
    exact committed_always fun _ _ => setCounterByStep_writes (hsound _ rfl (by decide))
  | hset =>
    cases hcall
    exact committed_always fun _ _ => hset_writes (hsound _ rfl (by decide))
  | hmset =>
    cases hcall
    exact committed_writes fun _ _ hplan =>
      (hmset_writes (hsound _ rfl (by decide)) hplan).imp fun _ heffect _ => heffect
  | hdel =>
    cases hcall
    exact committed_always fun _ _ => hdel_writes (hsound _ rfl (by decide))
  | popFront | popBack =>
    cases hcall
    exact committed_always fun _ _ => pop_writes (hsound _ rfl (by decide))
  | pushFront | pushBack =>
    cases hcall
    exact committed_always fun _ _ => push_writes (hsound _ rfl (by decide))
  | sadd =>
    cases hcall
    exact committed_writes fun _ _ hplan =>
      (sadd_writes (hsound _ rfl (by decide)) hplan).imp fun _ heffect _ => heffect
  | sdel =>
    cases hcall
    exact committed_always fun _ _ => sdel_writes (hsound _ rfl (by decide))
  | zadd =>
    cases hcall
    exact committed_writes fun _ _ => zadd_writes
  | zremRangeByScore =>
    cases hcall
    simp only [Call.batch]
    split
    · exact ⟨[], rfl, fun _ => .inl rfl⟩
    · exact committed_writes fun _ _ hplan => (zrem_writes hone hplan).imp fun _ heffect hsound =>
        .inr (heffect hsound)
  | delkey =>
    cases hcall
    exact committed_writes fun _ _ => delkey_writes
  | expire | expireAt =>
    cases hcall
    exact committed_writes fun _ _ hplan => (expireAt_writes hplan).imp fun _ heffect hsound =>
      .inr (heffect hsound)
  | exist | get | hget | hlen | hkeys | hgetall | llen | lindex | getList | lrange | hasMember
  | getSet | members | zrangeByScore | ttl => exact ⟨[], rfl, fun _ => .inl rfl⟩

theorem committed_slot {plan : Except Status (α × RocksDbBatch)}
    {goal : Slot → Prop} (hsame : goal (slot engine.db.store key))
    (hplan : ∀ result batch, plan = .ok (result, batch) →
      goal (slot (batch.apply engine.db.store) key)) :
    goal (slot ((committed env engine.db.role plan).apply engine.db.store) key) := by
  unfold committed
  split
  · exact hplan _ _ rfl
  · exact hsame

theorem call_effect (hkey : key.Valid) (hkeys : ∀ other ∈ call.keys, other.Valid)
    (hone : call.OneSided)
    (hsound : ∀ other ∈ call.keys, ∀ type ∈ call.valueType, type ≠ .ZSET →
      (slot engine.db.store other).Sound) :
    OrSame (fun before after => key ∈ call.keys ∧ (before.Sound → call.Effect before after))
      (slot engine.db.store key) (slot ((call.batch env engine).apply engine.db.store) key) := by
  cases hcall : call.key with
  | some own =>
    have hown : call.keys = [own] := by cases call <;> cases hcall <;> rfl
    have hmem : own ∈ call.keys := by simp [hown]
    obtain ⟨writes, hbatch, heffect⟩ :=
      batch_writes engine env hcall hone fun type htype => hsound own hmem type htype
    rw [hbatch]
    by_cases hsame : key = own
    · subst hsame
      rw [slot_batch_self]
      by_cases hkept : (slot engine.db.store key).applyAll writes = slot engine.db.store key
      · exact .inl hkept
      · exact .inr ⟨hmem, fun hsound => (heffect hsound).resolve_left hkept⟩
    · rw [slot_batch_other (hkeys own hmem) hkey hsame]
      exact .inl rfl
  | none =>
    cases call with
    | mset keys datas =>
      refine committed_slot (.inl rfl) fun _ _ hplan => ?_
      exact (mset_effect hkeys hkey hplan).imp id fun heffect => ⟨heffect.1, fun _ => heffect.2⟩
    | msetx keys datas options =>
      refine committed_slot (.inl rfl) fun _ _ hplan => ?_
      exact (msetx_effect hkeys hkey (fun hmem => hsound key hmem _ rfl (by decide)) hplan).imp id
        fun heffect => ⟨heffect.1, fun _ => heffect.2⟩
    | _ => cases hcall

end LaserDB
