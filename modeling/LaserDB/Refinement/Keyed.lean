import LaserDB.Refinement.Slot

/-!
# Calls on one key

What the calls do on a leader without a table TTL, on a RocksDB that answers, and the rule that
lifts the behaviour of single calls to runs on many keys.
-/

namespace LaserDB

open ByteCodec RocksDbEngine Function Option List OrderedMap LaserValue
open LaserValue (getTimestamp rawData setRawBuffer)
open RocksDbBatch (idelete)

structure RocksDbEngine.Plain (engine : RocksDbEngine) : Prop where
  leader : engine.db.role = .LEADER
  noTtl : engine.ttl = 0

def RocksDbEngine.withStore (engine : RocksDbEngine) (store : Store) : RocksDbEngine :=
  { engine with db := { engine.db with store := store } }

variable (engine : RocksDbEngine)

@[simp] theorem withStore_store (store : Store) :
    (engine.withStore store).db.store = store := rfl

@[simp] theorem withStore_role (store : Store) :
    (engine.withStore store).db.role = engine.db.role := rfl

theorem RocksDbEngine.Plain.withStore {engine : RocksDbEngine} (hplain : engine.Plain)
    (store : Store) : (engine.withStore store).Plain := ⟨hplain.leader, hplain.noTtl⟩

def RocksDbEngine.fresh : RocksDbEngine := ⟨⟨.LEADER, empty⟩, 0⟩

theorem RocksDbEngine.fresh_plain : RocksDbEngine.fresh.Plain := ⟨rfl, rfl⟩

theorem slot_empty (key : LaserKey) : slot empty key = .absent := rfl

variable {engine : RocksDbEngine} {env : Env} {key : LaserKey}

variable (db : ReplicationDB)

open RocksDbBatch (iput)

section
theorem write_eq (henv : env.Healthy) (hleader : engine.db.role = .LEADER) (batch : RocksDbBatch) :
    engine.db.write env batch = (.OK, (engine.withStore (batch.apply engine.db.store)).db) := by
  have hrole : engine.db.role ≠ .FOLLOWER := by
    rw [hleader]
    decide
  rw [ReplicationDB.write, if_neg hrole, henv.2]
  rfl

theorem commit_ok (henv : env.Healthy) (hleader : engine.db.role = .LEADER)
    (fallback result : α) (batch : RocksDbBatch) :
    engine.commit env fallback (.ok (result, batch)) =
      (.OK, result, engine.withStore (batch.apply engine.db.store)) := by
  simp only [commit, write_eq henv hleader]
  rfl

theorem answer_commit (henv : env.Healthy) (hleader : engine.db.role = .LEADER)
    {batch : RocksDbBatch} {plan : Except Status (Unit × RocksDbBatch)}
    (hplan : plan = .ok ((), batch)) :
    answer (fun _ => .nothing) (engine.commit env () plan) =
      ((.OK, .nothing), engine.withStore (batch.apply engine.db.store)) := by
  rw [hplan, commit_ok henv hleader, answer]

@[simp] theorem commit_error (fallback : α) (status : Status) :
    engine.commit env fallback (.error status) = (status, fallback, engine) := rfl

theorem checkKeyExpire_of_zero [LaserValue V] {value : V}
    (hzero : getTimestamp value = 0) : checkKeyExpire env value = false := by
  simp [checkKeyExpire, hzero]

variable (writes : List SlotWrite)

theorem iput_head [LaserValue V] (value : V) :
    iput (batchOf key writes) (getFormatKey key).toLaserSerializer value =
      batchOf key (writes ++ [.putHead (rawData value)]) := by
  simp only [iput, batchOf, map_append, getFormatKey_rawData]
  rfl

variable {target : LaserSerializer}

theorem iput_record [LaserValue V] (value : V) {suffix : Bytes}
    (htarget : target.rawData = key.stem ++ suffix) :
    iput (batchOf key writes) target value =
      batchOf key (writes ++ [.put suffix (rawData value)]) := by
  simp only [iput, batchOf, map_append, htarget]
  rfl

theorem idelete_head :
    idelete (batchOf key writes) (getFormatKey key).toLaserSerializer =
      batchOf key (writes ++ [.dropHead]) := by
  simp only [idelete, batchOf, map_append, getFormatKey_rawData]
  rfl

theorem idelete_record {suffix : Bytes} (htarget : target.rawData = key.stem ++ suffix) :
    idelete (batchOf key writes) target = batchOf key (writes ++ [.drop suffix]) := by
  simp only [idelete, batchOf, map_append, htarget]
  rfl

theorem iterate_eq (htarget : target.rawData = key.stem) :
    db.iterate target = (slot db.store key).records.entries.map
      fun entry => (key.stem ++ entry.1, entry.2) := by
  rw [ReplicationDB.iterate, htarget, scan_eq_under]
  rfl

end

section
variable (failure : Status)

theorem decodeOr_sizeMeta (kind : ValueType) (timestamp : UInt64) (size : UInt32) :
    ∃ buffer : LaserSerializer, decodeOr failure
        (setRawBuffer (SizeMeta.new : SizeMeta kind)
          (sizeMetaBytes kind timestamp size)) = .ok ⟨⟨buffer, kind, timestamp⟩, size⟩ := by
  obtain ⟨buffer, hdecode⟩ := sizeMeta_decode
    (setRawBuffer (SizeMeta.new : SizeMeta kind) (sizeMetaBytes kind timestamp size)) rfl
  refine ⟨buffer, ?_⟩
  simp only [decodeOr, decode, hdecode]

variable (timestamp : UInt64)

theorem decodeOr_listMeta (start endIndex : Int64) :
    ∃ buffer : LaserSerializer, decodeOr failure
        (setRawBuffer LaserValueListMeta.new (listMetaBytes timestamp start endIndex)) =
        .ok ⟨⟨buffer, .LIST, timestamp⟩, start, endIndex⟩ := by
  obtain ⟨buffer, hdecode⟩ := listMeta_decode
    (setRawBuffer LaserValueListMeta.new (listMetaBytes timestamp start endIndex)) rfl
  refine ⟨buffer, ?_⟩
  simp only [decodeOr, decode, hdecode]

theorem decodeOr_rawString {value : Bytes} (hvalue : RoundTrips value) :
    ∃ buffer : LaserSerializer, decodeOr failure
        (setRawBuffer LaserValueRawString.new (rawStringBytes timestamp value)) =
        .ok ⟨⟨buffer, .RAW_STRING, timestamp⟩, value⟩ := by
  obtain ⟨hne, hfit⟩ := (roundTrips_iff value).mp hvalue
  obtain ⟨buffer, hdecode⟩ := rawString_decode
    (setRawBuffer LaserValueRawString.new (rawStringBytes timestamp value)) rfl hne hfit
  refine ⟨buffer, ?_⟩
  simp only [decodeOr, decode, hdecode]

section
variable {V : Type} [LaserValue V] {fresh value : V} {bytes : Bytes} (henv : env.Healthy)
include henv

theorem readLive_absent (fresh : V) (hhead : (slot engine.db.store key).head = none) :
    engine.readLive env fresh (getFormatKey key) = .error .RS_NOT_FOUND := by
  simp only [readLive, readFound_head henv, hhead, foundOr, error_bind]

theorem getValue_absent (hhead : (slot engine.db.store key).head = none)
    (hzero : getTimestamp fresh = 0) :
    engine.getValue env fresh (getFormatKey key) = (.RS_NOT_FOUND, fresh) := by
  simp only [getValue, read_head henv, hhead, checkKeyExpire_of_zero hzero, Bool.false_eq_true,
    ↓reduceIte]

variable (hhead : (slot engine.db.store key).head = some bytes)
  (hdecode : decodeOr .RS_INVALID_ARGUMENT (setRawBuffer fresh bytes) = .ok value)
include hhead hdecode

theorem readLive_of_live (hlive : checkKeyExpire env value = false) :
    engine.readLive env fresh (getFormatKey key) = .ok value := by
  simp only [readLive, readFound_head henv, hhead, foundOr, ok_bind, hdecode, hlive,
    Bool.false_eq_true, ↓reduceIte, pure_eq_ok]

theorem readLive_of_decode (hzero : getTimestamp value = 0) :
    engine.readLive env fresh (getFormatKey key) = .ok value :=
  readLive_of_live henv hhead hdecode (checkKeyExpire_of_zero hzero)

theorem getValue_of_decode (hzero : getTimestamp value = 0) :
    engine.getValue env fresh (getFormatKey key) = (.OK, value) := by
  have hverdict : decode (setRawBuffer fresh bytes) = (.accepted, value) := by
    unfold decodeOr at hdecode
    split at hdecode
    · rename_i heq
      cases hdecode
      exact heq
    · cases hdecode
  simp only [getValue, read_head henv, hhead, hverdict, checkKeyExpire_of_zero hzero,
    Bool.false_eq_true, ↓reduceIte]

end

variable {kind : ValueType} {size : UInt32} (henv : env.Healthy)
  (hhead : (slot engine.db.store key).head = some (sizeMetaBytes kind 0 size))
include henv hhead

theorem readLive_sizeMeta :
    ∃ buffer : LaserSerializer, engine.readLive env (SizeMeta.new : SizeMeta kind)
      (getFormatKey key) = .ok ⟨⟨buffer, kind, 0⟩, size⟩ := by
  obtain ⟨buffer, hdecode⟩ := decodeOr_sizeMeta .RS_INVALID_ARGUMENT kind 0 size
  exact ⟨buffer, readLive_of_decode henv hhead hdecode rfl⟩

theorem getValue_sizeMeta :
    ∃ buffer : LaserSerializer, engine.getValue env (SizeMeta.new : SizeMeta kind)
      (getFormatKey key) = (.OK, ⟨⟨buffer, kind, 0⟩, size⟩) := by
  obtain ⟨buffer, hdecode⟩ := decodeOr_sizeMeta .RS_INVALID_ARGUMENT kind 0 size
  exact ⟨buffer, getValue_of_decode henv hhead hdecode rfl⟩

end

def Slot.dropAll (slot : Slot) : List SlotWrite :=
  slot.records.entries.map (fun entry => .drop entry.1) ++ [.dropHead]

theorem foldl_idelete (key : LaserKey) (entries : List (Bytes × Bytes)) (writes : List SlotWrite) :
    (entries.map fun entry => (key.stem ++ entry.1, entry.2)).foldl
      (fun batch entry =>
        idelete batch (LaserKeyFormatBase.ofBuffer entry.1).toLaserSerializer)
      (batchOf key writes) =
      batchOf key (writes ++ entries.map fun entry => .drop entry.1) := by
  induction entries generalizing writes with
  | nil => simp
  | cons entry entries ih =>
    rw [map_cons, foldl_cons, idelete_record writes rfl, ih]
    simp

/-- The value types whose data records `delkey` deletes. -/
def ValueType.erasedByDelkey (type : ValueType) : Prop := type = .SET ∨ type = .MAP ∨ type = .LIST

instance (type : ValueType) : Decidable type.erasedByDelkey :=
  inferInstanceAs (Decidable (_ ∨ _ ∨ _))

def Slot.delkeyWrites (slot : Slot) (type : ValueType) : List SlotWrite :=
  if type.erasedByDelkey then slot.dropAll else [.dropHead]

theorem delkey_exec_absent (henv : env.Healthy) (hhead : (slot engine.db.store key).head = none) :
    (Call.delkey key).exec env engine = ((.OK, .nothing), engine) := by
  simp only [Call.exec, RocksDbEngine.delkey, ReplicationDB.delkey, ReplicationDB.delkeyPlan,
    readOptional_head henv, hhead, map_none, ok_bind, pure_eq_ok, answer]

theorem delkeyBatch_eq (key : LaserKey) (type : ValueType) :
    idelete
      (if type = .SET ∨ type = .MAP ∨ type = .LIST then
        (db.iterate (LaserKeyFormat.ofKey (getFormatKey key) .COMPOSITE).toLaserSerializer).foldl
          (fun batch entry =>
            idelete batch (LaserKeyFormatBase.ofBuffer entry.1).toLaserSerializer) []
        else []) (getFormatKey key).toLaserSerializer =
      batchOf key ((slot db.store key).delkeyWrites type) := by
  by_cases herased : type.erasedByDelkey
  · have htype : type = .SET ∨ type = .MAP ∨ type = .LIST := herased
    have hloop := foldl_idelete key (slot db.store key).records.entries []
    rw [nil_append] at hloop
    rw [if_pos htype, Slot.delkeyWrites, if_pos herased, Slot.dropAll,
      iterate_eq db (compositeTarget_rawData key), nil_eq_batchOf key, hloop, idelete_head]
  · have htype : ¬(type = .SET ∨ type = .MAP ∨ type = .LIST) := herased
    rw [if_neg htype, Slot.delkeyWrites, if_neg herased, nil_eq_batchOf key, idelete_head]
    rfl

theorem delkey_exec (henv : env.Healthy) (hleader : engine.db.role = .LEADER) {type : ValueType}
    {timestamp : UInt64} {tail : Bytes}
    (hhead : (slot engine.db.store key).head = some (headBytes type timestamp ++ tail)) :
    (Call.delkey key).exec env engine = ((.OK, .nothing), engine.withStore
        ((batchOf key ((slot engine.db.store key).delkeyWrites type)).apply engine.db.store)) := by
  obtain ⟨buffer, hdecode, -⟩ := headDecode_of_rawData
    (setRawBuffer (LaserValueFormatBase.ofBuffer []) (headBytes type timestamp ++ tail))
    rfl
  simp only [Call.exec, RocksDbEngine.delkey, ReplicationDB.delkey, ReplicationDB.delkeyPlan,
    readOptional_head henv, hhead, map_some, ok_bind, decodeOr, decode, hdecode,
    pure_eq_ok, delkeyBatch_eq, write_eq henv hleader, answer]
  rfl

theorem get_foldl_erase (suffixes : List Bytes) (slot : Slot) (probe : Bytes) :
    (slot.applyAll (suffixes.map .drop)).records.get probe =
      if probe ∈ suffixes then none else slot.records.get probe := by
  induction suffixes generalizing slot with
  | nil => rfl
  | cons suffix suffixes ih =>
    have hrest := ih (SlotWrite.apply slot (.drop suffix))
    rw [map_cons, Slot.applyAll, foldl_cons]
    rw [Slot.applyAll] at hrest
    rw [hrest]
    simp only [SlotWrite.apply, get_erase, mem_cons]
    by_cases hmem : probe ∈ suffixes
    · simp [hmem]
    · simp [hmem]

theorem applyAll_dropAll (slot : Slot) : slot.applyAll slot.dropAll = .absent := by
  have hrecords : (slot.applyAll (slot.records.entries.map fun entry => .drop entry.1)).records =
      OrderedMap.empty := by
    apply OrderedMap.ext_get
    intro probe
    have hget := get_foldl_erase (slot.records.entries.map Prod.fst) slot probe
    rw [List.map_map] at hget
    rw [show (fun entry : Bytes × Bytes => SlotWrite.drop entry.1) = .drop ∘ Prod.fst from rfl,
      hget, get_empty]
    split
    · rfl
    · rename_i hmissing
      rw [get_eq_none_iff]
      intro value hmem
      exact hmissing (mem_map.mpr ⟨_, hmem, rfl⟩)
  rw [Slot.dropAll, Slot.applyAll, foldl_append]
  change SlotWrite.apply (slot.applyAll _) .dropHead = _
  rw [SlotWrite.apply, hrecords]
  rfl

theorem delkey_clears {model : Option μ} {encode : μ → Bytes} {type : ValueType}
    (henv : env.Healthy) (hleader : engine.db.role = .LEADER) (herased : type.erasedByDelkey)
    (hencode : ∀ value, ∃ timestamp tail, encode value = headBytes type timestamp ++ tail)
    (hhead : (slot engine.db.store key).head = model.map encode)
    (habsent : model = none → slot engine.db.store key = .absent) :
    ∃ writes, (Call.delkey key).exec env engine =
        ((.OK, .nothing), engine.withStore ((batchOf key writes).apply engine.db.store)) ∧
      (slot engine.db.store key).applyAll writes = .absent := by
  cases model with
  | none => exact ⟨[], delkey_exec_absent henv hhead, habsent rfl⟩
  | some value =>
    obtain ⟨timestamp, tail, hbytes⟩ := hencode value
    rw [map_some, hbytes] at hhead
    refine ⟨_, delkey_exec henv hleader hhead, ?_⟩
    rw [Slot.delkeyWrites, if_pos herased, applyAll_dropAll]

/-- Keys of one kind: the calls on them, the abstract value behind each key, and
the slots that hold it.  The last field says that one call does to its slot what
it does to the abstract value, and answers accordingly. -/
structure Kind (Op Model : Type) where
  call : LaserKey → Op → Call
  next : Op → Model → Model
  allows : Op → Model → Reply → Prop
  guard : LaserKey → Op → Model → Prop
  holds : LaserKey → Slot → Model → Prop
  step : ∀ {engine : RocksDbEngine} {env : Env} {key : LaserKey} {op : Op} {model : Model},
    env.Healthy → engine.Plain → key.Valid → holds key (slot engine.db.store key) model →
    guard key op model → ∃ reply writes, (call key op).exec env engine =
        (reply, engine.withStore ((batchOf key writes).apply engine.db.store)) ∧
      allows op model reply ∧ holds key ((slot engine.db.store key).applyAll writes) (next op model)

namespace Kind
variable {Op Model : Type} (kind : Kind Op Model)

abbrev Input (Op : Type) := Env × LaserKey × Op

def exec (input : Input Op) (engine : RocksDbEngine) : Reply × RocksDbEngine :=
  (kind.call input.2.1 input.2.2).exec input.1 engine

def nextAll (input : Input Op) (models : LaserKey → Model) : LaserKey → Model :=
  update models input.2.1 (kind.next input.2.2 (models input.2.1))

def allowsAll (input : Input Op) (models : LaserKey → Model) (reply : Reply) : Prop :=
  kind.allows input.2.2 (models input.2.1) reply

def guardAll (keys : LaserKey → Prop) (input : Input Op) (models : LaserKey → Model) : Prop :=
  input.1.Healthy ∧ keys input.2.1 ∧ input.2.1.Valid ∧
    kind.guard input.2.1 input.2.2 (models input.2.1)

/-- The slot of every valid key in `keys` holds the abstract value of the key. -/
def Holds (keys : LaserKey → Prop) (engine : RocksDbEngine) (models : LaserKey → Model) : Prop :=
  engine.Plain ∧ ∀ key, keys key → key.Valid →
    kind.holds key (slot engine.db.store key) (models key)

theorem simulates (keys : LaserKey → Prop) :
    Simulation.Simulates kind.exec kind.nextAll kind.allowsAll (kind.guardAll keys)
      (kind.Holds keys) := by
  rintro ⟨env, key, op⟩ engine models ⟨hplain, hholds⟩ ⟨henv, hkeys, hvalid, hguard⟩
  obtain ⟨reply, writes, hexec, hallows, hnext⟩ :=
    kind.step henv hplain hvalid (hholds key hkeys hvalid) hguard
  simp only [exec, hexec]
  refine ⟨hallows, hplain.withStore _, ?_⟩
  intro other hother hotherValid
  simp only [withStore_store, nextAll]
  by_cases hsame : other = key
  · subst hsame
    rw [slot_batch_self, update_self]
    exact hnext
  · rw [slot_batch_other hvalid hotherValid hsame, update_of_ne hsame]
    exact hholds other hother hotherValid

end Kind

end LaserDB
