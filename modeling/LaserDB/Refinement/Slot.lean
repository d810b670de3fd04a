import LaserDB.Engine.Call
import LaserDB.Library.Simulation

/-!
# The records of one key

The records of a key are the one under its plain name and those whose name starts with its composite
bytes.
-/

namespace LaserDB

open BatchWrite

open OrderedMap (empty get_erase_of_ne get_put_of_ne get_under under_erase_of_not_prefix under_put_of_not_prefix)
open ByteCodec List OrderedMap LaserValue ReplicationDB

/-- The records of one key, the data records without the stem of their names. -/
structure Slot where
  head : Option Bytes
  records : Store

def Slot.absent : Slot := ⟨none, empty⟩

theorem Slot.eq_absent {slot : Slot} (hhead : slot.head = none)
    (hrecords : slot.records = empty) : slot = .absent := by
  cases slot
  cases hhead
  cases hrecords
  rfl

def slot (store : Store) (key : LaserKey) : Slot :=
  ⟨store.get key.metaKey, store.under key.stem⟩

inductive SlotWrite where
  | putHead (value : Bytes)
  | dropHead
  | put (suffix value : Bytes)
  | drop (suffix : Bytes)
  deriving DecidableEq, Repr

namespace SlotWrite

def ofKey (key : LaserKey) : SlotWrite → BatchWrite
  | .putHead value => .put key.metaKey value
  | .dropHead => .delete key.metaKey
  | .put suffix value => .put (key.stem ++ suffix) value
  | .drop suffix => .delete (key.stem ++ suffix)

def apply (slot : Slot) : SlotWrite → Slot
  | .putHead value => { slot with head := some value }
  | .dropHead => { slot with head := none }
  | .put suffix value => { slot with records := slot.records.put suffix value }
  | .drop suffix => { slot with records := slot.records.erase suffix }

end SlotWrite

def Slot.applyAll (slot : Slot) (writes : List SlotWrite) : Slot :=
  writes.foldl SlotWrite.apply slot

theorem Slot.applyAll_append (slot : Slot) (first second : List SlotWrite) :
    slot.applyAll (first ++ second) = (slot.applyAll first).applyAll second :=
  foldl_append

def batchOf (key : LaserKey) (writes : List SlotWrite) : RocksDbBatch :=
  writes.map (SlotWrite.ofKey key)

theorem nil_eq_batchOf (key : LaserKey) : ([] : RocksDbBatch) = batchOf key [] := rfl

section

theorem append_ne_metaKey (left right : LaserKey) (suffix : Bytes) :
    left.stem ++ suffix ≠ right.metaKey := fun heq =>
  left.not_stem_isPrefix_metaKey right (heq ▸ prefix_append _ _)

variable {left right : LaserKey}

theorem stem_eq_of_metaKey_eq (heq : left.metaKey = right.metaKey) : left.stem = right.stem := by
  simp only [LaserKey.metaKey_eq, keyBytes, append_assoc] at heq
  simp only [LaserKey.stem_eq, keyBytes, append_assoc]
  rw [append_cancel_left heq]

theorem metaKey_ne (hleft : left.Valid) (hright : right.Valid) (hne : left ≠ right) :
    left.metaKey ≠ right.metaKey := by
  intro heq
  have hstem := stem_eq_of_metaKey_eq heq
  exact hne (LaserKey.eq_of_stem_isPrefix hleft hright (prefix_refl _) (hstem ▸ prefix_refl _))

theorem not_stem_isPrefix_append (hleft : left.Valid) (hright : right.Valid) (hne : left ≠ right)
    (suffix : Bytes) :
    ¬left.stem <+: right.stem ++ suffix := fun hstem =>
  hne (LaserKey.eq_of_stem_isPrefix hleft hright hstem (prefix_append _ _))

end

theorem slot_write_self (store : Store) (key : LaserKey) (write : SlotWrite) :
    slot (apply store (write.ofKey key)) key = write.apply (slot store key) := by
  have hstem := key.not_stem_isPrefix_metaKey key
  have hdata (suffix : Bytes) := (append_ne_metaKey key key suffix).symm
  cases write <;> simp only [SlotWrite.ofKey, apply, slot, SlotWrite.apply]
  case putHead value => rw [get_put_self, under_put_of_not_prefix hstem]
  case dropHead => rw [get_erase_self, under_erase_of_not_prefix hstem]
  case put suffix value => rw [get_put_of_ne (hdata _), under_put_append]
  case drop suffix => rw [get_erase_of_ne (hdata _), under_erase_append]

variable {key other : LaserKey}

theorem slot_write_other {store : Store} (hkey : key.Valid) (hother : other.Valid)
    (hne : other ≠ key) (write : SlotWrite) :
    slot (apply store (write.ofKey key)) other = slot store other := by
  have hmeta := metaKey_ne hother hkey hne
  have hdata (suffix : Bytes) := (append_ne_metaKey key other suffix).symm
  have hstem := other.not_stem_isPrefix_metaKey key
  have hstems := not_stem_isPrefix_append hother hkey hne
  cases write <;> simp only [SlotWrite.ofKey, apply, slot]
  case putHead value => rw [get_put_of_ne hmeta, under_put_of_not_prefix hstem]
  case dropHead => rw [get_erase_of_ne hmeta, under_erase_of_not_prefix hstem]
  case put suffix value => rw [get_put_of_ne (hdata _), under_put_of_not_prefix (hstems _)]
  case drop suffix => rw [get_erase_of_ne (hdata _), under_erase_of_not_prefix (hstems _)]

theorem slot_batch_self (store : Store) (key : LaserKey) (writes : List SlotWrite) :
    slot ((batchOf key writes).apply store) key = (slot store key).applyAll writes := by
  induction writes generalizing store with
  | nil => rfl
  | cons write writes ih =>
    have hrest := ih (apply store (write.ofKey key))
    rw [slot_write_self] at hrest
    exact hrest

theorem slot_batch_other (hkey : key.Valid) (hother : other.Valid) (hne : other ≠ key)
    (store : Store) (writes : List SlotWrite) :
    slot ((batchOf key writes).apply store) other = slot store other := by
  induction writes generalizing store with
  | nil => rfl
  | cons write writes ih =>
    have hrest := ih (apply store (write.ofKey key))
    rw [slot_write_other hkey hother hne] at hrest
    exact hrest

section
variable {ε α β : Type}

@[simp] theorem ok_bind (value : α) (next : α → Except ε β) :
    (Except.ok value >>= next) = next value := rfl

@[simp] theorem error_bind (failure : ε) (next : α → Except ε β) :
    ((Except.error failure : Except ε α) >>= next) = .error failure := rfl

theorem bind_eq_ok {plan : Except ε α} {next : α → Except ε β} {result : β} :
    (plan >>= next) = .ok result ↔ ∃ value, plan = .ok value ∧ next value = .ok result := by
  cases plan with
  | error | ok => simp

@[simp] theorem pure_eq_ok (value : α) : (pure value : Except ε α) = .ok value := rfl

@[simp] theorem throw_eq_error (failure : ε) : (throw failure : Except ε α) = .error failure := rfl

variable (key : LaserKey)

@[simp] theorem getFormatKey_rawData :
    (getFormatKey key).toLaserSerializer.rawData = key.metaKey := rfl

@[simp] theorem mapData_rawData (field : Bytes) :
    (LaserKeyFormatMapData.ofKey (getFormatKey key) field).toLaserSerializer.rawData =
      key.stem ++ packedString field := key.dataKey_eq (.field field)

@[simp] theorem setData_rawData (member : Bytes) :
    (LaserKeyFormatSetData.ofKey (getFormatKey key) member).toLaserSerializer.rawData =
      key.stem ++ packedString member := key.dataKey_eq (.member member)

@[simp] theorem listData_rawData (index : Int64) :
    (LaserKeyFormatListData.ofKey (getFormatKey key) (some index)).toLaserSerializer.rawData =
      key.stem ++ intBytes .big index := key.dataKey_eq (.index index)

@[simp] theorem zsetData_rawData (score : Int64) :
    (LaserKeyFormatZSetData.ofKey (getFormatKey key) (some score)).toLaserSerializer.rawData =
      key.stem ++ intBytes .big score := key.dataKey_eq (.score score)

@[simp] theorem mapTarget_rawData :
    (LaserKeyFormatMapData.ofKey (getFormatKey key) []).toLaserSerializer.rawData = key.stem := by
  rw [mapData_rawData, packedString_nil, append_nil]

@[simp] theorem setTarget_rawData :
    (LaserKeyFormatSetData.ofKey (getFormatKey key) []).toLaserSerializer.rawData = key.stem := by
  rw [setData_rawData, packedString_nil, append_nil]

@[simp] theorem zsetTarget_rawData :
    (LaserKeyFormatZSetData.ofKey (getFormatKey key) none).toLaserSerializer.rawData =
      key.stem := rfl

@[simp] theorem listTarget_rawData :
    (LaserKeyFormatListData.ofKey (getFormatKey key) none).toLaserSerializer.rawData =
      key.stem := rfl

@[simp] theorem compositeTarget_rawData :
    (LaserKeyFormat.ofKey (getFormatKey key) .COMPOSITE).toLaserSerializer.rawData = key.stem := by
  rw [LaserKey.stem_eq]
  exact keyFormat_ofKey_rawData (getFormatKey key) .COMPOSITE

end

variable {V : Type} [LaserValue V] {env : Env} (henv : env.Healthy) (db : ReplicationDB)
  (value : V) (key : LaserKey)
include henv

theorem read_eq (target : LaserSerializer) :
    db.read env value target =
      match db.store.get target.rawData with
      | none => (.RS_NOT_FOUND, value)
      | some bytes => (.OK, setRawBuffer value bytes) := by
  rw [ReplicationDB.read, henv.1]
  cases db.store.get target.rawData <;> rfl

def foundOr (record : Option Bytes) : Except Status V :=
  match record with
  | none => .error .RS_NOT_FOUND
  | some bytes => .ok (setRawBuffer value bytes)

theorem read_head :
    db.read env value (getFormatKey key).toLaserSerializer =
      match (slot db.store key).head with
      | none => (.RS_NOT_FOUND, value)
      | some bytes => (.OK, setRawBuffer value bytes) := read_eq henv db value _

theorem readOptional_head :
    db.readOptional env value (getFormatKey key).toLaserSerializer =
      .ok ((slot db.store key).head.map (setRawBuffer value)) := by
  rw [readOptional, read_eq henv, getFormatKey_rawData]
  simp only [slot]
  cases db.store.get key.metaKey <;> rfl

theorem readFound_head :
    db.readFound env value (getFormatKey key).toLaserSerializer =
      foundOr value (slot db.store key).head := by
  rw [readFound, read_eq henv, getFormatKey_rawData]
  simp only [slot, foundOr]
  cases db.store.get key.metaKey <;> rfl

variable {target : LaserSerializer} {suffix : Bytes}
  (htarget : target.rawData = key.stem ++ suffix)
include htarget

theorem readOptional_record :
    db.readOptional env value target =
      .ok (((slot db.store key).records.get suffix).map (setRawBuffer value)) := by
  rw [readOptional, read_eq henv, htarget]
  simp only [slot, get_under]
  cases db.store.get (key.stem ++ suffix) <;> rfl

theorem readFound_record :
    db.readFound env value target = foundOr value ((slot db.store key).records.get suffix) := by
  rw [readFound, read_eq henv, htarget]
  simp only [slot, get_under, foundOr]
  cases db.store.get (key.stem ++ suffix) <;> rfl

theorem read_record :
    db.read env value target =
      match (slot db.store key).records.get suffix with
      | none => (.RS_NOT_FOUND, value)
      | some bytes => (.OK, setRawBuffer value bytes) := by
  rw [read_eq henv, htarget]
  simp only [slot, get_under]

end LaserDB
