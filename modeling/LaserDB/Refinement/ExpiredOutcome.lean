import LaserDB.Refinement.Expired

/-!
# What the writes make of a slot

The status and the slot writes of every write on one key, with and without a table TTL.
-/

namespace LaserDB

open ByteCodec RocksDbEngine Option LaserValue SizeMeta

variable {env : Env} {engine : RocksDbEngine} {key : LaserKey} {bytes : Bytes} {type : ValueType}
  {timestamp : UInt64}

section
variable (henv : env.Healthy) (hleader : engine.db.role = .LEADER)
  (hhead : (slot engine.db.store key).head = some bytes)
  (hof : headOf bytes = some (type, timestamp)) (hpast : Past env.now timestamp)
include henv hleader hhead hof hpast

/-- A call that finds nothing without the key is as deleted just if it finds nothing with it. -/
theorem asDeleted_iff_notFound {call : Call}
    {plan : RocksDbEngine → Except Status (Unit × RocksDbBatch)}
    (hexec : ∀ engine, call.exec env engine =
      answer (fun _ => .nothing) (engine.commit env () (plan engine)))
    (hwithout : plan (engine.without key) = .error .RS_NOT_FOUND) :
    AsDeleted env engine key call ↔ plan engine = .error .RS_NOT_FOUND := by
  rw [AsDeleted, outcome_of_error (hexec _) hwithout, slot_without]
  cases hplan : plan engine with
  | error status =>
    rw [outcome_of_error (hexec _) hplan]
    constructor
    · rintro ⟨rfl, -⟩
      rfl
    · intro hstatus
      cases hstatus
      exact ⟨rfl, showsSame_absent hhead hof hpast⟩
  | ok result =>
    rw [status_of_ok henv hleader (hexec _) hplan]
    exact iff_of_false (fun hstatus => by cases hstatus.1) (by simp)

theorem asDeleted_hdel (field : Bytes) :
    AsDeleted env engine key (.hdel key field) ↔
      (∃ metaData, (slot engine.db.store key).Reads (new : LaserValueMapMeta) metaData) ∧
        (slot engine.db.store key).records.get (packedString field) = none := by
  rw [asDeleted_iff_notFound henv hleader hhead hof hpast (fun _ => rfl) (by
    simp only [hdelPlan, readFound_head henv, slot_without, Slot.absent, foundOr, error_bind])]
  simp only [hdelPlan, readFound_head henv, hhead, foundOr, ok_bind,
    readFound_record henv engine.db LaserValueRawString.new key (mapData_rawData key field)]
  cases hdecode : decodeOr .RS_INVALID_ARGUMENT (setRawBuffer (new : LaserValueMapMeta) bytes) with
  | error status =>
    rw [error_bind, eq_of_decodeOr_error hdecode]
    refine iff_of_false (by simp) ?_
    rintro ⟨⟨metaData, hreads⟩, -⟩
    rw [hreads.decodeOr_eq hhead] at hdecode
    cases hdecode
  | ok metaData =>
    rw [ok_bind, and_iff_right ⟨metaData, bytes, hhead, decodeOr_eq_ok.mp hdecode⟩]
    cases (slot engine.db.store key).records.get (packedString field) with
    | none => exact iff_of_true rfl rfl
    | some old => exact iff_of_false (by simp) (by simp)

theorem asDeleted_sdel (member : Bytes) :
    AsDeleted env engine key (.sdel key member) ↔
      (slot engine.db.store key).records.get (packedString member) = none := by
  rw [asDeleted_iff_notFound henv hleader hhead hof hpast (fun _ => rfl) (by
    simp only [sdelPlan, readFound_head henv, slot_without, Slot.absent, foundOr, error_bind])]
  simp only [sdelPlan, readFound_head henv, hhead, foundOr, ok_bind,
    readFound_record henv engine.db LaserValueRawString.new key (setData_rawData key member)]
  cases (slot engine.db.store key).records.get (packedString member) with
  | none => exact iff_of_true rfl rfl
  | some old =>
    rw [ok_bind]
    cases hdecode : decodeOr .RS_INVALID_ARGUMENT
        (setRawBuffer (new : LaserValueSetMeta) bytes) with
    | error status =>
      rw [error_bind, eq_of_decodeOr_error hdecode]
      exact iff_of_false (by simp) (by simp)
    | ok metaData => exact iff_of_false (by simp) (by simp)

end

theorem exec_setx (data : Bytes) (ttl : UInt64) :
    (Call.setx key data ⟨ttl, true⟩).exec env engine = answer (fun _ => .nothing)
      (engine.commit env () (engine.setxPlan env (getFormatKey key) data ⟨ttl, true⟩)) := rfl

variable (henv : env.Healthy) (hleader : engine.db.role = .LEADER)
include henv hleader

theorem outcome_setx (data : Bytes) (ttl : UInt64)
    (hcheck : engine.checkNotExists env (getFormatKey key) = .ok ()) :
    outcome env engine key (.setx key data ⟨ttl, true⟩) = (.OK, (slot engine.db.store key).applyAll
        [.putHead (rawStringBytes (setxStamp engine env ttl) data)]) := by
  have hplan : engine.setxPlan env (getFormatKey key) data ⟨ttl, true⟩ =
      .ok ((), batchOf key [.putHead (rawStringBytes (setxStamp engine env ttl) data)]) := by
    simp only [setxPlan, ↓reduceIte, hcheck, ok_bind, pure_eq_ok]
    rw [nil_eq_batchOf key, iput_head, rawData_rawString, setxValue_rawData]
    rfl
  exact outcome_of_ok henv hleader (exec_setx data ttl) hplan

theorem asDeleted_setx (hhead : (slot engine.db.store key).head = some bytes)
    (hof : headOf bytes = some (type, timestamp)) (hpast : Past env.now timestamp) (data : Bytes)
    (ttl : UInt64) :
    AsDeleted env engine key (.setx key data ⟨ttl, true⟩) ↔
      ∃ value, (slot engine.db.store key).Reads LaserValueRawString.new value := by
  have hdeletedCheck : (engine.without key).checkNotExists env (getFormatKey key) = .ok () := by
    simp only [checkNotExists, readOptional_head henv, slot_without, Slot.absent, map_none,
      ok_bind, pure_eq_ok]
  have hleader' : (engine.without key).db.role = .LEADER := hleader
  have hdeleted := outcome_setx henv hleader' data ttl hdeletedCheck
  rw [slot_without] at hdeleted
  cases hdecode : decodeOr .RS_INVALID_ARGUMENT (setRawBuffer LaserValueRawString.new bytes) with
  | error status =>
    refine iff_of_false ?_ ?_
    · rintro ⟨hstatus, -⟩
      have hplan : engine.setxPlan env (getFormatKey key) data ⟨ttl, true⟩ = .error status := by
        simp only [setxPlan, ↓reduceIte, checkNotExists, readOptional_head henv, hhead,
          map_some, ok_bind, hdecode, error_bind]
      rw [outcome_of_error (exec_setx data ttl) hplan, hdeleted,
        eq_of_decodeOr_error hdecode] at hstatus
      cases hstatus
    · rintro ⟨value, hreads⟩
      rw [hreads.decodeOr_eq hhead] at hdecode
      cases hdecode
  | ok value =>
    have hverdict := decodeOr_eq_ok.mp hdecode
    have htime : value.timestamp = timestamp := by
      have hhead' := (rawString_headOf hverdict).symm.trans hof
      simp only [some.injEq, Prod.mk.injEq] at hhead'
      exact hhead'.2
    have hexpired : checkKeyExpire env value = true := by
      simp [checkKeyExpire, getTimestamp, base, htime, hpast.1, hpast.2]
    have hcheck : engine.checkNotExists env (getFormatKey key) = .ok () := by
      simp only [checkNotExists, readOptional_head henv, hhead, map_some, ok_bind, hdecode,
        hexpired, ↓reduceIte, pure_eq_ok]
    refine iff_of_true ?_ ⟨value, bytes, hhead, hverdict⟩
    rw [AsDeleted, outcome_setx henv hleader data ttl hcheck, hdeleted]
    refine ⟨rfl, ?_⟩
    exact showsSame_iff.mpr (.inr ⟨rfl, fun heq => by cases heq⟩)

end LaserDB
