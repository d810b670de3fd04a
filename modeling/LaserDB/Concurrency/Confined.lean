import LaserDB.Concurrency.OneKey
import LaserDB.Refinement.Keyed

/-!
# A call writes to its own key

Whatever the database answers to the reads of a call, its batch holds records of its own key only.
-/

namespace LaserDB

open Reads

open RocksDbEngine OrderedMap
open Linearize (Finish)

def OnKey (key : LaserKey) (batch : RocksDbBatch) : Prop := ∃ writes, batch = batchOf key writes

namespace OnKey

variable {key : LaserKey} {batch : RocksDbBatch} {V : Type} [LaserValue V]

theorem nil (key : LaserKey) : OnKey key [] := ⟨[], rfl⟩

variable (hbatch : OnKey key batch)
include hbatch

theorem iput_head (value : V) :
    OnKey key (batch.iput (getFormatKey key).toLaserSerializer value) := by
  obtain ⟨writes, rfl⟩ := hbatch
  exact ⟨_, LaserDB.iput_head writes value⟩

variable {target : LaserSerializer}

theorem iput_record (value : V) {suffix : Bytes} (htarget : target.rawData = key.stem ++ suffix) :
    OnKey key (batch.iput target value) := by
  obtain ⟨writes, rfl⟩ := hbatch
  exact ⟨_, LaserDB.iput_record writes value htarget⟩

theorem idelete_head : OnKey key (batch.idelete (getFormatKey key).toLaserSerializer) := by
  obtain ⟨writes, rfl⟩ := hbatch
  exact ⟨_, LaserDB.idelete_head writes⟩

theorem idelete_record {suffix : Bytes} (htarget : target.rawData = key.stem ++ suffix) :
    OnKey key (batch.idelete target) := by
  obtain ⟨writes, rfl⟩ := hbatch
  exact ⟨_, LaserDB.idelete_record writes htarget⟩

theorem get_metaKey {other : LaserKey} (hne : other.metaKey ≠ key.metaKey) (store : Store) :
    (batch.apply store).get other.metaKey = store.get other.metaKey := by
  obtain ⟨writes, rfl⟩ := hbatch
  induction writes generalizing store with
  | nil => rfl
  | cons write writes ih =>
    refine (ih (BatchWrite.apply store (write.ofKey key))).trans ?_
    cases write with
    | putHead value => exact get_put_of_ne hne ..
    | dropHead => exact get_erase_of_ne hne ..
    | put suffix value =>
      exact get_put_of_ne (append_ne_metaKey key other suffix).symm ..
    | drop suffix => exact get_erase_of_ne (append_ne_metaKey key other suffix).symm ..

end OnKey

variable {batch : RocksDbBatch}

namespace Reads

section
variable {α β V : Type} [LaserValue V]

def Yields (post : α → Prop) (reads : Reads α) : Prop :=
  Linearize.Program.Always ReplicationDB.answer
    (fun result => ∀ value, result = .ok value → post value) reads.run

theorem yields_pure {post : α → Prop} {value : α} (hpost : post value) :
    Yields post (pure value : Reads α) := by
  intro other heq
  cases heq
  exact hpost

theorem yields_throw (post : α → Prop) (status : Status) :
    Yields post (throw status : Reads α) := by
  intro other heq
  cases heq

variable {next : α → Reads β} {post : β → Prop}

theorem yields_bind {middle : α → Prop} {reads : Reads α} (hreads : Yields middle reads)
    (hnext : ∀ value, middle value → Yields post (next value)) : Yields post (reads >>= next) := by
  refine Linearize.Program.Always.bind (Linearize.Program.Always.mono ?_ hreads)
  intro result hresult
  cases result with
  | error status => exact yields_throw post status
  | ok value => exact hnext value (hresult value rfl)

theorem yields_any (reads : Reads α) : Yields (fun _ => True) reads := by
  unfold Yields
  induction reads.run with
  | finish result => exact fun _ _ => trivial
  | ask query next ih => exact fun db => ih _

theorem yields_then {reads : Reads α} (hnext : ∀ value, Yields post (next value)) :
    Yields post (reads >>= next) :=
  yields_bind (yields_any reads) fun value _ => hnext value

theorem yields_iterate (target : LaserSerializer) :
    Yields (fun entries => ∀ entry ∈ entries, target.rawData <+: entry.1) (iterate target) := by
  intro db entries heq
  cases heq
  intro entry hentry
  exact (mem_scan_iff.mp hentry).2

end

variable (ttl : UInt64) (env : Env) (key : LaserKey)

theorem append_onKey (data : Bytes) :
    Yields (fun plan => OnKey key plan.2) (append ttl env (getFormatKey key) data) := by
  refine yields_then fun oldValue => ?_
  cases oldValue with
  | none => exact yields_then fun setData => yields_pure ((OnKey.nil key).iput_head _)
  | some oldValue =>
    refine yields_then fun oldValue => ?_
    exact yields_then fun setData => yields_pure ((OnKey.nil key).iput_head _)

theorem setx_onKey (data : Bytes) (options : SetOptions) :
    Yields (fun plan => OnKey key plan.2) (setx ttl env (getFormatKey key) data options) := by
  unfold setx
  split
  · exact yields_then fun _ => yields_pure ((OnKey.nil key).iput_head _)
  · exact yields_pure ((OnKey.nil key).iput_head _)

theorem setCounterByStep_onKey (step : Int64) :
    Yields (fun plan => OnKey key plan.2) (setCounterByStep ttl env (getFormatKey key) step) := by
  refine yields_then fun oldCounter => ?_
  cases oldCounter with
  | none => exact yields_then fun count => yields_pure ((OnKey.nil key).iput_head _)
  | some oldCounter =>
    refine yields_then fun oldCounter => ?_
    exact yields_then fun count => yields_pure ((OnKey.nil key).iput_head _)

theorem hset_onKey (field value : Bytes) :
    Yields (fun plan => OnKey key plan.2) (hset ttl env (getFormatKey key) field value) := by
  refine yields_then fun metaData => ?_
  cases metaData with
  | none =>
    exact yields_pure (((OnKey.nil key).iput_head _).iput_record _ (mapData_rawData key field))
  | some metaData =>
    refine yields_then fun oldValue => ?_
    refine yields_then fun metaData => ?_
    cases oldValue with
    | none =>
      exact yields_pure (((OnKey.nil key).iput_head _).iput_record _ (mapData_rawData key field))
    | some oldValue =>
      exact yields_pure ((OnKey.nil key).iput_record _ (mapData_rawData key field))

variable (found : Bool)

theorem hmsetLoop_onKey (values : List (Bytes × Bytes)) (metaData : LaserValueMapMeta)
    (hbatch : OnKey key batch) :
    Yields (OnKey key) (hmsetLoop ttl env (getFormatKey key) found values metaData batch) := by
  induction values generalizing metaData batch with
  | nil => exact yields_pure hbatch
  | cons entry rest ih =>
    obtain ⟨field, value⟩ := entry
    refine yields_then fun isNew => ?_
    cases isNew with
    | false => exact ih _ (hbatch.iput_record _ (mapData_rawData key field))
    | true => exact ih _ ((hbatch.iput_head _).iput_record _ (mapData_rawData key field))

theorem hmset_onKey (values : OrderedMap Bytes Bytes) :
    Yields (fun plan => OnKey key plan.2) (hmset ttl env (getFormatKey key) values) := by
  have hloop (found : Bool) (metaData : LaserValueMapMeta) :
      Yields (fun plan : Unit × RocksDbBatch => OnKey key plan.2) (do
        let batch ← hmsetLoop ttl env (getFormatKey key) found values.entries metaData []
        pure ((), batch)) :=
    yields_bind (hmsetLoop_onKey ttl env key found values.entries metaData (OnKey.nil key))
      fun batch hbatch => yields_pure hbatch
  refine yields_then fun metaData => ?_
  cases metaData with
  | none => exact yields_then fun metaData => hloop false _
  | some metaData => exact yields_then fun metaData => hloop true _

theorem hdel_onKey (field : Bytes) :
    Yields (fun plan => OnKey key plan.2) (hdel env (getFormatKey key) field) := by
  refine yields_then fun metaData => ?_
  refine yields_then fun metaData => ?_
  refine yields_then fun _ => ?_
  exact yields_pure (((OnKey.nil key).idelete_record (mapData_rawData key field)).iput_head _)

theorem listPop_onKey (isLeft : Bool) :
    Yields (fun plan => OnKey key plan.2) (listPop env (getFormatKey key) isLeft) := by
  have hpop (index : Int64) (metaData : LaserValueListMeta) :
      Yields (fun plan : LaserValueRawString × RocksDbBatch => OnKey key plan.2) (do
        let batch := RocksDbBatch.iput [] (getFormatKey key).toLaserSerializer metaData.encode
        let listDataKey := LaserKeyFormatListData.ofKey (getFormatKey key) (some index)
        let value ← readFound env LaserValueRawString.new listDataKey.toLaserSerializer
        let value ← ofExcept (decodeOr .RS_INVALID_ARGUMENT value)
        return (value, batch.idelete listDataKey.toLaserSerializer)) := by
    refine yields_then fun value => ?_
    refine yields_then fun value => ?_
    exact yields_pure (((OnKey.nil key).iput_head _).idelete_record (listData_rawData key index))
  refine yields_then fun metaData => ?_
  by_cases hempty : metaData.getSize = 0
  · rw [if_pos hempty]
    exact yields_then fun _ => hpop _ _
  · rw [if_neg hempty]
    exact hpop _ _

theorem listPush_onKey (value : Bytes) (isLeft : Bool) :
    Yields (fun plan => OnKey key plan.2) (listPush ttl env (getFormatKey key) value isLeft) := by
  refine yields_then fun metaData => ?_
  cases metaData with
  | none | some =>
    refine yields_then fun metaData => ?_
    exact yields_pure (((OnKey.nil key).iput_head _).iput_record _ (listData_rawData key _))

variable (member : Bytes)

theorem sadd_onKey :
    Yields (fun plan => OnKey key plan.2) (sadd ttl env (getFormatKey key) member) := by
  refine yields_then fun metaData => ?_
  cases metaData with
  | none =>
    exact yields_pure (((OnKey.nil key).iput_head _).iput_record _ (setData_rawData key member))
  | some metaData =>
    refine yields_then fun oldValue => ?_
    refine yields_then fun metaData => ?_
    cases oldValue with
    | none =>
      exact yields_pure (((OnKey.nil key).iput_head _).iput_record _ (setData_rawData key member))
    | some oldValue => exact yields_pure (OnKey.nil key)

theorem sdel_onKey :
    Yields (fun plan => OnKey key plan.2) (sdel env (getFormatKey key) member) := by
  refine yields_then fun metaData => ?_
  refine yields_then fun _ => ?_
  refine yields_then fun metaData => ?_
  exact yields_pure (((OnKey.nil key).iput_head _).idelete_record (setData_rawData key member))

theorem zaddWrite_onKey (score : Int64) (zsetMeta : LaserValueZSetMeta)
    (membersValue : LaserValueZSet) (hbatch : OnKey key batch) :
    OnKey key ((ofTtl ttl).zaddWrite env (getFormatKey key) member score zsetMeta membersValue
      batch).2 :=
  (hbatch.iput_head _).iput_record _ (zsetData_rawData key score)

theorem zaddRound_onKey (score : Int64) (zsetMeta : LaserValueZSetMeta) (hbatch : OnKey key batch) :
    Yields (fun result => OnKey key result.2)
      (zaddRound ttl env (getFormatKey key) found member score zsetMeta batch) := by
  cases found with
  | false => exact yields_pure (zaddWrite_onKey ttl env key member score zsetMeta _ hbatch)
  | true =>
    refine yields_then fun membersValue => ?_
    refine yields_then fun zsetMeta => ?_
    cases membersValue with
    | none => exact yields_pure (zaddWrite_onKey ttl env key member score zsetMeta _ hbatch)
    | some membersValue =>
      dsimp only
      split
      · exact yields_pure (hbatch.iput_head _)
      · exact yields_pure (zaddWrite_onKey ttl env key member score zsetMeta _ hbatch)

theorem zaddLoop_onKey (memberScores : List (Bytes × Int64)) (zsetMeta : LaserValueZSetMeta)
    (hbatch : OnKey key batch) :
    Yields (OnKey key)
      (zaddLoop ttl env (getFormatKey key) found memberScores zsetMeta batch) := by
  induction memberScores generalizing zsetMeta batch with
  | nil => exact yields_pure hbatch
  | cons entry rest ih =>
    obtain ⟨member, score⟩ := entry
    exact yields_bind (zaddRound_onKey ttl env key found member score zsetMeta hbatch)
      fun result hresult => ih result.1 hresult

theorem zadd_onKey (memberScores : OrderedMap Bytes Int64) :
    Yields (fun plan => OnKey key plan.2) (zadd ttl env (getFormatKey key) memberScores) := by
  refine yields_then fun zsetMeta => ?_
  refine yields_bind (zaddLoop_onKey ttl env key _ _ _ (OnKey.nil key)) fun batch hbatch => ?_
  exact yields_pure hbatch

theorem foldl_idelete_onKey {entries : List (Bytes × Bytes)}
    (hentries : ∀ entry ∈ entries, key.stem <+: entry.1) (hbatch : OnKey key batch) :
    OnKey key (entries.foldl (fun (batch : RocksDbBatch) entry =>
      batch.idelete (LaserKeyFormatBase.ofBuffer entry.1).toLaserSerializer) batch) := by
  induction entries generalizing batch with
  | nil => exact hbatch
  | cons entry rest ih =>
    obtain ⟨suffix, hsuffix⟩ := hentries entry List.mem_cons_self
    refine ih (fun other hother => hentries other (List.mem_cons_of_mem _ hother)) ?_
    exact hbatch.idelete_record hsuffix.symm

theorem delkey_onKey :
    Yields (fun plan => ∀ batch, plan = some batch → OnKey key batch)
      (delkey env (getFormatKey key)) := by
  refine yields_then fun value => ?_
  cases value with
  | none => exact yields_pure fun batch hbatch => nomatch hbatch
  | some value =>
    have hhead {batch : RocksDbBatch} (hbatch : OnKey key batch) :
        Yields (fun plan => ∀ batch, plan = some batch → OnKey key batch)
          (pure (some (batch.idelete (getFormatKey key).toLaserSerializer))) := by
      refine yields_pure fun other heq => ?_
      cases heq
      exact hbatch.idelete_head
    refine yields_then fun value => ?_
    dsimp only
    split
    · refine yields_bind (yields_iterate _) fun entries hentries => ?_
      refine yields_bind (yields_pure (foldl_idelete_onKey key hentries (OnKey.nil key))) ?_
      exact fun batch hbatch => hhead hbatch
    · exact yields_bind (yields_pure (OnKey.nil key)) fun batch hbatch => hhead hbatch

end Reads

def Confined (key : LaserKey) : Finish ReplicationDB Reply → Prop
  | .reply _ => True
  | .update action =>
    ∀ db (other : LaserKey), other.metaKey ≠ key.metaKey →
      (action db).2.store.get other.metaKey = db.store.get other.metaKey

section
variable {α : Type} {key : LaserKey} {env : Env}

private theorem write_get (hbatch : OnKey key batch) (db : ReplicationDB) {other : LaserKey}
    (hne : other.metaKey ≠ key.metaKey) :
    (db.write env batch).2.store.get other.metaKey = db.store.get other.metaKey := by
  unfold ReplicationDB.write
  split
  · rfl
  · split
    · rfl
    · exact hbatch.get_metaKey hne db.store

variable (payload : α → Payload)

theorem finishOf_confined (fallback : α) {plan : Except Status (α × RocksDbBatch)}
    (hplan : ∀ planned, plan = .ok planned → OnKey key planned.2) :
    Confined key (finishOf env payload fallback plan) := by
  cases plan with
  | error status => trivial
  | ok planned => exact fun db other hne => write_get (hplan planned rfl) db hne

theorem reads_confined (fallback : α) {reads : Reads (α × RocksDbBatch)}
    (hreads : reads.Yields fun plan => OnKey key plan.2) :
    Linearize.Program.Always ReplicationDB.answer (Confined key) (do
      let plan ← reads.run
      return finishOf env payload fallback plan) :=
  Linearize.Program.Always.bind
    (Linearize.Program.Always.mono (fun _ hplan => finishOf_confined payload fallback hplan) hreads)

theorem finishDelkey_confined {plan : Except Status (Option RocksDbBatch)}
    (hplan : ∀ planned, plan = .ok planned → ∀ batch, planned = some batch → OnKey key batch) :
    Confined key (finishDelkey env plan) := by
  rcases plan with status | _ | batch
  · trivial
  · trivial
  · exact fun db other hne => write_get (hplan _ rfl batch rfl) db hne

end

theorem KeyCall.program_confined (ttl : UInt64) (key : LaserKey) (env : Env) (call : KeyCall) :
    (call.program ttl key env).Always ReplicationDB.answer (Confined key) := by
  cases call with
  | set data =>
    refine finishOf_confined _ _ fun planned hplanned => ?_
    cases hplanned
    exact (OnKey.nil key).iput_head _
  | get => exact fun _ => trivial
  | append data => exact reads_confined _ _ (append_onKey ttl env key data)
  | setx data options => exact reads_confined _ _ (setx_onKey ttl env key data options)
  | incr step => exact reads_confined _ _ (setCounterByStep_onKey ttl env key step.toInt64)
  | decr step => exact reads_confined _ _ (setCounterByStep_onKey ttl env key (-step).toInt64)
  | hset field value => exact reads_confined _ _ (hset_onKey ttl env key field value)
  | hmset values => exact reads_confined _ _ (hmset_onKey ttl env key values)
  | hdel field => exact reads_confined _ _ (hdel_onKey env key field)
  | pushFront value => exact reads_confined _ _ (listPush_onKey ttl env key value true)
  | pushBack value => exact reads_confined _ _ (listPush_onKey ttl env key value false)
  | popFront => exact reads_confined _ _ (listPop_onKey env key true)
  | popBack => exact reads_confined _ _ (listPop_onKey env key false)
  | sadd member => exact reads_confined _ _ (sadd_onKey ttl env key member)
  | sdel member => exact reads_confined _ _ (sdel_onKey env key member)
  | zadd memberScores => exact reads_confined _ _ (zadd_onKey ttl env key memberScores)
  | delkey =>
    exact Linearize.Program.Always.bind (Linearize.Program.Always.mono
      (fun _ hplan => finishDelkey_confined hplan) (delkey_onKey env key))

end LaserDB
