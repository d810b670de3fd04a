import LaserDB.Refinement.Compaction
import LaserDB.Refinement.Delkey

/-!
# What an expired key shows

A read takes a key whose timestamp has come for one that is not there; a write goes on from the old
record.
-/

namespace LaserDB

open LaserValue (decode getTimestamp setRawBuffer)
open ByteCodec RocksDbEngine Option List OrderedMap LaserValue

def Past (now timestamp : UInt64) : Prop := timestamp ≠ 0 ∧ timestamp < now

instance (now timestamp : UInt64) : Decidable (Past now timestamp) :=
  inferInstanceAs (Decidable (_ ∧ _))

def ValueType.isComposite : ValueType → Bool
  | .RAW_STRING | .COUNTER => false
  | .MAP | .LIST | .SET | .ZSET => true

/-- What there is to read under a key at the given time: nothing once it has expired, else its
meta record and, for a composite value, the data records. -/
def Slot.live (now : UInt64) (slot : Slot) : Option (Bytes × Option Store) :=
  slot.head.bind fun bytes =>
    match headOf bytes with
    | none => some (bytes, none)
    | some (type, timestamp) =>
      if Past now timestamp then none
      else some (bytes, if type.isComposite then some slot.records else none)

def RocksDbEngine.without (engine : RocksDbEngine) (key : LaserKey) : RocksDbEngine :=
  engine.withStore (engine.db.store.filter fun bytes _ => !decide (key.Owns bytes))

def ExpiredKey (env : Env) (engine : RocksDbEngine) (key : LaserKey) : Prop :=
  ∃ bytes value, (slot engine.db.store key).head = some bytes ∧
    decode (LaserValueFormatBase.ofBuffer bytes) = (.accepted, value) ∧
      checkKeyExpire env value = true

section
variable (engine : RocksDbEngine) (key : LaserKey)

theorem without_store : Without key engine.db.store (engine.without key).db.store := by
  intro bytes
  rw [RocksDbEngine.without, withStore_store, OrderedMap.get_filter]
  by_cases howns : key.Owns bytes
  all_goals cases engine.db.store.get bytes <;> simp [howns]

theorem slot_without : slot (engine.without key).db.store key = .absent := by
  refine Slot.eq_absent ?_ (ext_get fun suffix => ?_)
  · exact (without_store engine key key.metaKey).trans (if_pos (.inl rfl))
  · show ((engine.without key).db.store.under key.stem).get suffix = none
    have howns : key.Owns (key.stem ++ suffix) := .inr (prefix_append _ _)
    rw [get_under, without_store engine key, if_pos howns]

end

def ShowsSame (now : UInt64) (first second : Slot) : Prop :=
  ∀ later, now ≤ later → first.live later = second.live later

variable {bytes : Bytes}

section
variable {now later timestamp : UInt64} {type : ValueType} {tail tail' : Bytes}
  {records records' : Store}

theorem Past.mono (hle : now ≤ later) (hpast : Past now timestamp) : Past later timestamp :=
  ⟨hpast.1, UInt64.lt_of_lt_of_le hpast.2 hle⟩

theorem live_of_past {slot : Slot} (hhead : slot.head = some bytes)
    (hof : headOf bytes = some (type, timestamp)) (hpast : Past now timestamp) :
    slot.live now = none := by
  rw [Slot.live, hhead, bind_some, hof]
  exact if_pos hpast

theorem live_headBytes :
    Slot.live now ⟨some (headBytes type timestamp ++ tail), records⟩ =
      if Past now timestamp then none
      else some (headBytes type timestamp ++ tail,
        if type.isComposite then some records else none) := by
  rw [Slot.live, bind_some, headOf_headBytes]

theorem showsSame_iff :
    ShowsSame now ⟨some (headBytes type timestamp ++ tail), records⟩
        ⟨some (headBytes type timestamp ++ tail'), records'⟩ ↔
      Past now timestamp ∨ tail = tail' ∧ (type.isComposite = true → records = records') := by
  constructor
  · intro hshows
    have hnow := hshows now (UInt64.le_refl now)
    rw [live_headBytes, live_headBytes] at hnow
    by_cases hpast : Past now timestamp
    · exact .inl hpast
    · rw [if_neg hpast, if_neg hpast, some.injEq, Prod.mk.injEq] at hnow
      refine .inr ⟨append_cancel_left hnow.1, fun hcomposite => ?_⟩
      simpa [hcomposite] using hnow.2
  · rintro (hpast | ⟨rfl, hrecords⟩) later hlater
    · rw [live_headBytes, live_headBytes, if_pos (hpast.mono hlater), if_pos (hpast.mono hlater)]
    · rw [live_headBytes, live_headBytes]
      by_cases hcomposite : type.isComposite = true
      · rw [hrecords hcomposite]
      · simp only [hcomposite, Bool.false_eq_true, ↓reduceIte]

theorem showsSame_expired_iff {slot : Slot} {expired : UInt64} (hhead : slot.head = some bytes)
    (hof : headOf bytes = some (type, expired)) (hpast : Past now expired) {type' : ValueType} :
    ShowsSame now slot ⟨some (headBytes type' timestamp ++ tail), records⟩ ↔
      Past now timestamp := by
  constructor
  · intro hshows
    have hnow := hshows now (UInt64.le_refl now)
    rw [live_of_past hhead hof hpast, live_headBytes] at hnow
    by_contra hlive
    rw [if_neg hlive] at hnow
    cases hnow
  · intro hstamp later hlater
    rw [live_of_past hhead hof (hpast.mono hlater), live_headBytes, if_pos (hstamp.mono hlater)]

theorem showsSame_absent {slot : Slot} (hhead : slot.head = some bytes)
    (hof : headOf bytes = some (type, timestamp)) (hpast : Past now timestamp) :
    ShowsSame now slot .absent :=
  fun _ hlater => live_of_past hhead hof (hpast.mono hlater)

end

def Call.Suits (call : Call) (bytes : Bytes) : Prop :=
  match call.valueType with
  | some .RAW_STRING => ∃ value,
      decode (setRawBuffer LaserValueRawString.new bytes) = (.accepted, value)
  | some .MAP => ∃ value, decode
      (setRawBuffer (SizeMeta.new : LaserValueMapMeta) bytes) = (.accepted, value)
  | some .LIST => ∃ value, decode (setRawBuffer LaserValueListMeta.new bytes) = (.accepted, value)
  | some .SET => ∃ value, decode
      (setRawBuffer (SizeMeta.new : LaserValueSetMeta) bytes) = (.accepted, value)
  | some .ZSET => ∃ value, decode
      (setRawBuffer (SizeMeta.new : LaserValueZSetMeta) bytes) = (.accepted, value)
  | _ => False

variable {env : Env} {call : Call} {key : LaserKey}

section
theorem expiredAs_of_headOf {V : Type} [LaserValue V] {fresh value : V} {type : ValueType}
    (hdecode : decode (setRawBuffer fresh bytes) = (.accepted, value))
    (hof : headOf bytes = some (type, getTimestamp value)) :
    headOf bytes = some (type, getTimestamp value) ∧
      (Past env.now (getTimestamp value) → ExpiredAs fresh env bytes) := by
  refine ⟨hof, fun hpast => ⟨value, hdecode, ?_⟩⟩
  simp [checkKeyExpire, hpast.1, hpast.2]

theorem Call.Suits.headOf_eq (hsuits : call.Suits bytes) (env : Env) :
    ∃ type timestamp, call.valueType = some type ∧ headOf bytes = some (type, timestamp) ∧
      (Past env.now timestamp → call.FindsExpired env bytes) := by
  unfold Call.Suits at hsuits
  unfold Call.FindsExpired
  cases hvalue : call.valueType with
  | none =>
    rw [hvalue] at hsuits
    exact hsuits.elim
  | some type =>
    rw [hvalue] at hsuits
    cases type with
    | RAW_STRING =>
      obtain ⟨value, hdecode⟩ := hsuits
      exact ⟨_, _, rfl, expiredAs_of_headOf hdecode (rawString_headOf hdecode)⟩
    | COUNTER => exact hsuits.elim
    | LIST =>
      obtain ⟨value, hdecode⟩ := hsuits
      exact ⟨_, _, rfl, expiredAs_of_headOf hdecode (listMeta_headOf hdecode).1⟩
    | MAP | SET | ZSET =>
      obtain ⟨value, hdecode⟩ := hsuits
      exact ⟨_, _, rfl, expiredAs_of_headOf hdecode (sizeMeta_headOf hdecode).1⟩

theorem goneFor_of_live {slot : Slot} (hsuits : ∀ bytes, slot.head = some bytes → call.Suits bytes)
    (hlive : slot.live env.now = none) : GoneFor call env slot.head := by
  cases hhead : slot.head with
  | none => exact .inl rfl
  | some bytes =>
    obtain ⟨type, timestamp, -, hof, hexpired⟩ := (hsuits bytes hhead).headOf_eq env
    refine .inr ⟨bytes, rfl, hexpired ?_⟩
    rw [Slot.live, hhead, bind_some, hof] at hlive
    by_contra hpast
    simp [hpast] at hlive

theorem live_some {slot : Slot} {shown : Bytes × Option Store}
    (hsuits : ∀ bytes, slot.head = some bytes → call.Suits bytes)
    (hlive : slot.live env.now = some shown) :
    slot.head = some shown.1 ∧ ∃ type, call.valueType = some type ∧
      shown.2 = if type.isComposite then some slot.records else none := by
  cases hhead : slot.head with
  | none =>
    rw [Slot.live, hhead] at hlive
    cases hlive
  | some bytes =>
    obtain ⟨type, timestamp, hvalue, hof, -⟩ := (hsuits bytes hhead).headOf_eq env
    rw [Slot.live, hhead, bind_some, hof] at hlive
    dsimp only at hlive
    split at hlive
    · cases hlive
    · cases hlive
      exact ⟨rfl, type, hvalue, rfl⟩

/-- What a call that tests expiry replies depends only on what is live under its key. -/
theorem sameReply_of_live {engine : RocksDbEngine} {first second : Store}
    (hkey : call.key = some key) (htests : call.TestsExpiry) (hnarrow : call.Narrow)
    (hnotSetx : ∀ key data options, call ≠ .setx key data options)
    (hfirst : ∀ bytes, (slot first key).head = some bytes → call.Suits bytes)
    (hsecond : ∀ bytes, (slot second key).head = some bytes → call.Suits bytes)
    (hlive : (slot first key).live env.now = (slot second key).live env.now) :
    SameReply (call.exec env (engine.withStore first)).1
      (call.exec env (engine.withStore second)).1 := by
  cases hshown : (slot first key).live env.now with
  | none =>
    have hgone := goneFor_of_live hfirst hshown
    have hgone' := goneFor_of_live hsecond (hlive.symm.trans hshown)
    exact (testsExpiry_same hkey htests hgone hgone' hnotSetx).1
  | some shown =>
    obtain ⟨hhead, type, hvalue, hrecords⟩ := live_some hfirst hshown
    obtain ⟨hhead', type', hvalue', hrecords'⟩ := live_some hsecond (hlive.symm.trans hshown)
    cases hvalue.symm.trans hvalue'
    have hget : second.get key.metaKey = first.get key.metaKey := hhead'.trans hhead.symm
    by_cases hcomposite : type.isComposite = true
    · rw [hrecords, if_pos hcomposite, if_pos hcomposite, some.injEq] at hrecords'
      have hslots : ∀ own ∈ call.keys,
          slot first own = slot (engine.withStore second).db.store own := by
        rw [keys_of_key hkey]
        intro own hown
        cases mem_singleton.mp hown
        have hheads : (slot first key).head = (slot second key).head := hget.symm
        calc slot first key = ⟨(slot first key).head, (slot first key).records⟩ := rfl
          _ = slot second key := by rw [hheads, hrecords']
      have hreply : (call.exec env ((engine.withStore second).withStore first)).1 =
          (call.exec env (engine.withStore second)).1 := reply_local hnarrow hslots
      exact .inl hreply
    · -- A string is read off the meta record alone.
      left
      cases call with
      | exist =>
        cases hkey
        simp only [Call.exec, exist, ReplicationDB.exist, getFormatKey_rawData,
          withStore_store, hget]
      | get =>
        cases hkey
        simp only [Call.exec, RocksDbEngine.get, getValue, ReplicationDB.read,
          getFormatKey_rawData, withStore_store, hget]
      | setx key data options => exact absurd rfl (hnotSetx key data options)
      | msetx => cases hkey
      | _ =>
        first
        | exact htests.elim
        | (cases hvalue; exact absurd rfl hcomposite)

theorem sameReply_of_live_expired :
    let set := (timedEngine.after [(Env.at 1, .set timedKey [120])]).db.store
    SameReply ((Call.get timedKey).exec (Env.at 12) (timedEngine.withStore set)).1
      ((Call.get timedKey).exec (Env.at 12) (timedEngine.withStore empty)).1 := by
  intro set
  refine sameReply_of_live rfl trivial trivial nofun ?_ nofun (by decide)
  intro bytes hbytes
  cases hbytes
  exact ⟨_, rfl⟩

end

def outcome (env : Env) (engine : RocksDbEngine) (key : LaserKey) (call : Call) : Status × Slot :=
  ((call.exec env engine).1.1, slot (call.exec env engine).2.db.store key)

def AsDeleted (env : Env) (engine : RocksDbEngine) (key : LaserKey) (call : Call) : Prop :=
  (outcome env engine key call).1 = (outcome env (engine.without key) key call).1 ∧
    ShowsSame env.now (outcome env engine key call).2 (outcome env (engine.without key) key call).2

def Slot.update {V : Type} [LaserValue V] (slot : Slot) (fresh : V)
    (writes : Option V → Slot → List SlotWrite) : Status × Slot :=
  match slot.head with
  | none => (.OK, slot.applyAll (writes none slot))
  | some bytes =>
    match decodeOr .RS_INVALID_ARGUMENT (setRawBuffer fresh bytes) with
    | .ok value => (.OK, slot.applyAll (writes (some value) slot))
    | .error status => (status, slot)

theorem eq_of_decodeOr_error [LaserValue V] {failure status : Status} {value : V}
    (hdecode : decodeOr failure value = .error status) : status = failure := by
  unfold decodeOr at hdecode
  split at hdecode
  · cases hdecode
  · cases hdecode
    rfl

theorem Slot.Reads.decodeOr_eq [LaserValue V] {slot : Slot} {fresh value : V}
    {failure : Status} (hreads : slot.Reads fresh value) (hhead : slot.head = some bytes) :
    decodeOr failure (setRawBuffer fresh bytes) = .ok value := by
  obtain ⟨found, hfound, hdecode⟩ := hreads
  cases hhead.symm.trans hfound
  exact decodeOr_eq_ok.mpr hdecode

variable {engine : RocksDbEngine} {α : Type} {payload : α → Payload} {fallback : α}
  {plan : Except Status (α × RocksDbBatch)}

variable (henv : env.Healthy) (hleader : engine.db.role = .LEADER)
  (hexec : call.exec env engine = answer payload (engine.commit env fallback plan))
include henv hleader hexec

theorem outcome_of_ok {result : α} {writes : List SlotWrite}
    (hplan : plan = .ok (result, batchOf key writes)) :
    outcome env engine key call = (.OK, (slot engine.db.store key).applyAll writes) := by
  rw [outcome, hexec, hplan, commit_ok henv hleader]
  exact Prod.ext rfl (slot_batch_self _ _ _)

theorem status_of_ok {result : α} {batch : RocksDbBatch} (hplan : plan = .ok (result, batch)) :
    (outcome env engine key call).1 = .OK := by
  rw [outcome, hexec, hplan, commit_ok henv hleader]
  rfl

omit henv hleader in
theorem outcome_of_error {status : Status} (hplan : plan = .error status) :
    outcome env engine key call = (status, slot engine.db.store key) := by
  rw [outcome, hexec, hplan, commit_error]
  rfl

theorem outcome_of_plan [LaserValue V] {fresh : V}
    {writes : Option V → Slot → List SlotWrite} {result : Option V → α}
    (hplan : plan = (slot engine.db.store key).plan key fresh result writes) :
    outcome env engine key call = (slot engine.db.store key).update fresh writes := by
  unfold Slot.plan at hplan
  unfold Slot.update
  cases hhead : (slot engine.db.store key).head with
  | none =>
    rw [hhead] at hplan
    exact outcome_of_ok henv hleader hexec hplan
  | some bytes =>
    rw [hhead] at hplan
    dsimp only at hplan ⊢
    cases hdecode : decodeOr .RS_INVALID_ARGUMENT (setRawBuffer fresh bytes) with
    | error status =>
      rw [hdecode, error_bind] at hplan
      exact outcome_of_error hexec hplan
    | ok value =>
      rw [hdecode, ok_bind] at hplan
      exact outcome_of_ok henv hleader hexec hplan

omit henv hleader hexec

theorem asDeleted_iff_of_plan [LaserValue V] {fresh : V}
    {writes : RocksDbEngine → Option V → Slot → List SlotWrite} {result : Option V → α}
    {plan : RocksDbEngine → Except Status (α × RocksDbBatch)} (payload : α → Payload)
    (henv : env.Healthy) (hleader : engine.db.role = .LEADER)
    (hhead : (slot engine.db.store key).head = some bytes) (hexec : ∀ engine : RocksDbEngine,
      call.exec env engine = answer payload (engine.commit env fallback (plan engine)))
    (hplan : ∀ engine : RocksDbEngine,
      plan engine = (slot engine.db.store key).plan key fresh result (writes engine))
    (hwrites : ∀ store, writes (engine.withStore store) = writes engine) :
    AsDeleted env engine key call ↔ ∃ value, (slot engine.db.store key).Reads fresh value ∧
        ShowsSame env.now
          ((slot engine.db.store key).applyAll
            (writes engine (some value) (slot engine.db.store key)))
          (Slot.absent.applyAll (writes engine none .absent)) := by
  have hupdate (store : Store) : outcome env (engine.withStore store) key call =
      (slot store key).update fresh (writes engine) := by
    rw [← hwrites store]
    exact outcome_of_plan henv (show (engine.withStore store).db.role = .LEADER from hleader)
      (hexec _) (hplan _)
  have hcall : outcome env engine key call =
      (slot engine.db.store key).update fresh (writes engine) := hupdate engine.db.store
  have hdeleted := hupdate (engine.without key).db.store
  rw [slot_without] at hdeleted
  have hwithout : engine.withStore (engine.without key).db.store = engine.without key := rfl
  rw [hwithout] at hdeleted
  rw [AsDeleted, hcall, hdeleted]
  simp only [Slot.update, hhead, Slot.absent]
  constructor
  · rintro ⟨hstatus, hshows⟩
    cases hdecode : decodeOr .RS_INVALID_ARGUMENT (setRawBuffer fresh bytes) with
    | error status =>
      rw [hdecode, eq_of_decodeOr_error hdecode] at hstatus
      cases hstatus
    | ok value =>
      rw [hdecode] at hshows
      exact ⟨value, ⟨bytes, hhead, decodeOr_eq_ok.mp hdecode⟩, hshows⟩
  · rintro ⟨value, hreads, hshows⟩
    rw [hreads.decodeOr_eq hhead]
    exact ⟨rfl, hshows⟩

end LaserDB
