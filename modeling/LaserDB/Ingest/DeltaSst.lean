import LaserDB.Refinement.CallEffect

/-!
# Loads of a delta

`ingestDeltaSst` of `server/engine/replication_db.cc`.  The statuses of its writes are dropped; the
model keeps them beside the result.
-/

namespace LaserDB

open LaserValueFormatBase (ofBuffer)
open List (append_assoc append_nil filter_append filter_singleton forall_mem_append forall_mem_cons
  length_append length_singleton map_append map_cons mem_cons_self mem_filter)
open ReplicationDB (delkeyPlan iterate readOptional)
open LaserKeyFormat (ofKey)
open ByteCodec RocksDbEngine Option OrderedMap LaserValue ReplicationDB

def LaserKeyFormatTypePrefix.ofType (keyType : KeyType) : LaserSerializer :=
  (LaserSerializer.ofBuffer []).packInt keyType.toUInt8 .little

abbrev DeltaKv := LaserKeyFormatBase × LaserValueFormatBase

/-- What a load of a delta meets: the flag for the size of a batch, the outside of each batch of
plain values, of each `delkey` and of each batch of a composite value, and the order in which the
unordered map of the composite values is walked. -/
structure DeltaEnv where
  deltaBatchLoadNumbers : UInt32
  chunk : Nat → Env
  delkey : Bytes → Env
  write : Bytes → Env
  order : List DeltaKv → List DeltaKv
  order_perm : ∀ kvs, (order kvs).Perm kvs

/-- The state of the scan over the plain records of the delta.  The statuses of the batches are
not part of the source, which drops them. -/
structure DeltaScan where
  db : ReplicationDB
  batch : RocksDbBatch
  batchNumbers : Nat
  deltaMetaKvs : List DeltaKv
  statuses : List Status

namespace ReplicationDB

def deltaScanStep (env : DeltaEnv) (scan : DeltaScan) (entry : Bytes × Bytes) : DeltaScan :=
  match (LaserKeyFormatBase.ofBuffer entry.1).decode,
    decode (LaserValueFormatBase.ofBuffer entry.2) with
  | (.accepted, baseKey), (.accepted, baseValue) =>
    let batch : RocksDbBatch := if scan.batchNumbers = 0 then [] else scan.batch
    if baseValue.type = .RAW_STRING ∨ baseValue.type = .COUNTER then
      let batchNumbers := scan.batchNumbers + 1
      let batch := batch.iput baseKey.toLaserSerializer baseValue
      if batchNumbers ≥ env.deltaBatchLoadNumbers.toNat then
        let result := scan.db.write (env.chunk scan.statuses.length) batch
        { scan with
          db := result.2, batch := batch, batchNumbers := 0
          statuses := scan.statuses ++ [result.1] }
      else { scan with batch := batch, batchNumbers := batchNumbers }
    else
      { scan with batch := batch, deltaMetaKvs := scan.deltaMetaKvs ++ [(baseKey, baseValue)] }
  | _, _ => scan

def deltaScanEnd (env : DeltaEnv) (scan : DeltaScan) : DeltaScan :=
  if scan.batchNumbers = 0 then scan
  else
    let result := scan.db.write (env.chunk scan.statuses.length) scan.batch
    { scan with db := result.2, statuses := scan.statuses ++ [result.1] }

def deltaReplace (env : DeltaEnv) (sourceDb : ReplicationDB)
    (load : ReplicationDB × List Status) (delta : DeltaKv) : ReplicationDB × List Status :=
  match load.1.delkey (env.delkey delta.1.rawData) delta.1 with
  | (.OK, db) =>
    let target := LaserKeyFormat.ofKey delta.1 .COMPOSITE
    let batch : RocksDbBatch := (sourceDb.iterate target.toLaserSerializer).foldl
        (fun batch entry => batch.iput (LaserKeyFormatBase.ofBuffer entry.1).toLaserSerializer
          (LaserValueFormatBase.ofBuffer entry.2))
        []
    let result := db.write (env.write delta.1.rawData)
      (batch.iput delta.1.toLaserSerializer delta.2)
    (result.2, load.2 ++ [.OK, result.1])
  | (status, db) => (db, load.2 ++ [status])

def loadDelta (env : DeltaEnv) (db sourceDb : ReplicationDB) : ReplicationDB × List Status :=
  let entries := sourceDb.iterate (LaserKeyFormatTypePrefix.ofType .DEFAULT)
  let scan := deltaScanEnd env (entries.foldl (deltaScanStep env) ⟨db, [], 0, [], []⟩)
  (env.order scan.deltaMetaKvs).foldl (deltaReplace env sourceDb) (scan.db, scan.statuses)

end ReplicationDB

open ReplicationDB (deltaReplace deltaScanStep deltaScanEnd)

structure DeltaDb where
  db : ReplicationDB
  keyed : ∀ entry ∈ db.iterate (LaserKeyFormatTypePrefix.ofType .DEFAULT),
    ∃ key : LaserKey, key.Valid ∧ entry.1 = key.metaKey
  typed : ∀ entry ∈ db.iterate (LaserKeyFormatTypePrefix.ofType .DEFAULT),
    ∃ type timestamp tail, entry.2 = headBytes type timestamp ++ tail

/-- The temporary database: whether it opens, what `preIngest` and `innerIngestBaseSst` answer,
and what it holds then. -/
structure DeltaSource where
  opens : Bool
  preIngest : Status
  innerIngest : Status
  delta : DeltaDb

def ReplicationDB.ingestDeltaSst (env : DeltaEnv) (source : DeltaSource) (db : ReplicationDB) :
    Status × ReplicationDB × List Status :=
  if source.opens then
    if source.preIngest ≠ .OK then (source.preIngest, db, [])
    else if source.innerIngest ≠ .OK then (source.innerIngest, db, [])
    else (.OK, db.loadDelta env source.delta.db)
  else (.RS_IO_ERROR, db, [])

def headType (bytes : Bytes) : Option ValueType :=
  match decode (LaserValueFormatBase.ofBuffer bytes) with
  | (.accepted, value) => some value.type
  | _ => none

def ValueType.isPlain (type : ValueType) : Bool := type = .RAW_STRING ∨ type = .COUNTER

/-- The data records of a key after a `delkey` that has answered OK. -/
def Slot.keptByDelkey (slot : Slot) : Store :=
  match slot.head.bind headType with
  | some type => if type.erasedByDelkey then empty else slot.records
  | none => slot.records

def DBRole.Takes (role : DBRole) (env : Env) : Prop := role = .LEADER ∧ env.writeFault = none

/-- A `delkey` of a key with these records answers OK. -/
def DBRole.Deletes (role : DBRole) (env : Env) (key : LaserKey) (slot : Slot) : Prop :=
  env.readFault key.metaKey = none ∧ ∀ bytes ∈ slot.head, headType bytes ≠ none ∧ role.Takes env

def DeltaEnv.Replaces (env : DeltaEnv) (role : DBRole) (key : LaserKey) (slot : Slot) : Prop :=
  role.Deletes (env.delkey key.metaKey) key slot ∧ role.Takes (env.write key.metaKey)

section
variable (db : ReplicationDB) (env : Env)

theorem convertRocksDbStatus_fault_ne (fault : RocksDbFault) :
    convertRocksDbStatus (.fault fault) ≠ .OK ∧
      convertRocksDbStatus (.fault fault) ≠ .RS_NOT_FOUND := by
  cases fault <;> decide

theorem write_of_takes (htakes : db.role.Takes env) (batch : RocksDbBatch) :
    db.write env batch = (.OK, { db with store := batch.apply db.store }) := by
  rw [write, htakes.1, htakes.2]
  rfl

theorem write_of_not_takes (htakes : ¬db.role.Takes env) (batch : RocksDbBatch) :
    (db.write env batch).1 ≠ .OK ∧ (db.write env batch).2 = db := by
  unfold write
  split
  · exact ⟨nofun, rfl⟩
  · rename_i hrole
    split
    · exact ⟨(convertRocksDbStatus_fault_ne _).1, rfl⟩
    · rename_i hfault
      refine absurd ⟨?_, hfault⟩ htakes
      cases hdb : db.role with
      | LEADER => rfl
      | FOLLOWER => exact absurd hdb hrole

variable (batch : RocksDbBatch)

theorem write_ok_iff : (db.write env batch).1 = .OK ↔ db.role.Takes env := by
  constructor
  · intro hok
    by_contra htakes
    exact (write_of_not_takes db env htakes batch).1 hok
  · intro htakes
    rw [write_of_takes db env htakes]

theorem write_role : (db.write env batch).2.role = db.role := by
  by_cases htakes : db.role.Takes env
  · rw [write_of_takes db env htakes]
  · rw [(write_of_not_takes db env htakes batch).2]

variable (key : LaserKey)

theorem delkeyPlan_eq :
    db.delkeyPlan env (getFormatKey key) =
      match env.readFault key.metaKey with
      | some fault => .error (convertRocksDbStatus (.fault fault))
      | none =>
        match (slot db.store key).head with
        | none => .ok none
        | some bytes =>
          match headType bytes with
          | none => .error .RS_IO_ERROR
          | some type => .ok (some (batchOf key ((slot db.store key).delkeyWrites type))) := by
  have hread : db.readOptional env (ofBuffer []) (getFormatKey key).toLaserSerializer =
        match env.readFault key.metaKey with
        | some fault => .error (convertRocksDbStatus (.fault fault))
        | none => .ok ((slot db.store key).head.map ofBuffer) := by
    rw [readOptional, ReplicationDB.read, getFormatKey_rawData]
    cases env.readFault key.metaKey with
    | some fault => cases fault <;> rfl
    | none =>
      simp only [slot]
      cases db.store.get key.metaKey <;> rfl
  rw [delkeyPlan, hread]
  cases env.readFault key.metaKey with
  | some fault => rfl
  | none =>
    cases (slot db.store key).head with
    | none => rfl
    | some bytes =>
      simp only [map_some, ok_bind, decodeOr, headType]
      cases hdecode : decode (ofBuffer bytes) with
      | mk verdict value =>
        cases verdict with
        | accepted => simp only [ok_bind, delkeyBatch_eq, pure_eq_ok]
        | rejected | overrun => rfl

theorem delkey_ok_iff :
    (db.delkey env (getFormatKey key)).1 = .OK ↔ db.role.Deletes env key (slot db.store key) := by
  rw [ReplicationDB.delkey, delkeyPlan_eq, DBRole.Deletes]
  cases env.readFault key.metaKey with
  | some fault => exact iff_of_false (convertRocksDbStatus_fault_ne fault).1 (by simp)
  | none =>
    cases (slot db.store key).head with
    | none => exact iff_of_true rfl ⟨rfl, by simp⟩
    | some bytes =>
      cases htype : headType bytes with
      | none => simp [htype]
      | some type => simp [htype, write_ok_iff]

theorem delkey_of_ok (hok : (db.delkey env (getFormatKey key)).1 = .OK) :
    slot (db.delkey env (getFormatKey key)).2.store key =
      ⟨none, (slot db.store key).keptByDelkey⟩ := by
  obtain ⟨hread, hhead⟩ := (delkey_ok_iff db env key).mp hok
  have hplan := delkeyPlan_eq db env key
  rw [hread] at hplan
  unfold ReplicationDB.delkey Slot.keptByDelkey
  cases hslot : (slot db.store key).head with
  | none =>
    simp only [hslot] at hplan
    rw [hplan, bind_none]
    exact congrArg (Slot.mk · (slot db.store key).records) hslot
  | some bytes =>
    obtain ⟨hfound, htakes⟩ := hhead bytes hslot
    obtain ⟨type, htype⟩ := ne_none_iff_exists'.mp hfound
    simp only [hslot, htype] at hplan
    rw [hplan, bind_some, htype]
    simp only [write_of_takes db env htakes, slot_batch_self, Slot.delkeyWrites]
    split
    · exact applyAll_dropAll _
    · rfl

theorem delkey_role : (db.delkey env (getFormatKey key)).2.role = db.role := by
  unfold ReplicationDB.delkey
  split
  · rfl
  · rfl
  · exact write_role db env _

theorem delkey_other {other : LaserKey} (hkey : key.Valid) (hother : other.Valid)
    (hne : other ≠ key) :
    slot (db.delkey env (getFormatKey key)).2.store other = slot db.store other := by
  have hwrite (writes : List SlotWrite) :
      slot (db.write env (batchOf key writes)).2.store other = slot db.store other := by
    by_cases htakes : db.role.Takes env
    · rw [write_of_takes db env htakes]
      exact slot_batch_other hkey hother hne db.store writes
    · rw [(write_of_not_takes db env htakes _).2]
  rw [ReplicationDB.delkey, delkeyPlan_eq]
  cases env.readFault key.metaKey with
  | some fault => rfl
  | none =>
    cases (slot db.store key).head with
    | none => rfl
    | some bytes =>
      cases htype : headType bytes with
      | none => simp only [htype]
      | some type => simp only [htype, hwrite]

end

structure IsKey (base : LaserKeyFormatBase) (key : LaserKey) : Prop where
  rawData : base.rawData = key.metaKey
  primaryKeys : base.primaryKeys = key.primaryKeys
  columns : base.columns = key.columns

variable {base : LaserKeyFormatBase}

theorem IsKey.unique {key other : LaserKey} (hkey : IsKey base key) (hother : IsKey base other) :
    key = other := by
  cases key
  cases other
  rw [LaserKey.mk.injEq]
  exact ⟨hkey.primaryKeys.symm.trans hother.primaryKeys, hkey.columns.symm.trans hother.columns⟩

open RocksDbBatch (idelete iput apply)

theorem delkey_congr {key : LaserKey} (hkey : IsKey base key) (db : ReplicationDB) (env : Env) :
    db.delkey env base = db.delkey env (getFormatKey key) := by
  have hread : db.readOptional env (ofBuffer []) base.toLaserSerializer =
      db.readOptional env (ofBuffer [])
        (getFormatKey key).toLaserSerializer := by
    rw [readOptional, readOptional, ReplicationDB.read,
      ReplicationDB.read, hkey.rawData, getFormatKey_rawData]
  have htarget : ofKey base .COMPOSITE = ofKey (getFormatKey key) .COMPOSITE := by
    rw [ofKey, hkey.primaryKeys, hkey.columns]
    rfl
  have hplan : db.delkeyPlan env base = db.delkeyPlan env (getFormatKey key) := by
    simp only [delkeyPlan, hread, htarget, idelete, hkey.rawData, getFormatKey_rawData]
  rw [ReplicationDB.delkey, ReplicationDB.delkey, hplan]

variable {env : DeltaEnv}

section
variable {sourceDb : ReplicationDB}

def Slot.overlaid (old : Store) (delta : Slot) (bytes : Bytes) : Slot :=
  ⟨some bytes, old.putAll delta.records.entries⟩

theorem foldl_iput_entries (key : LaserKey) (entries : List (Bytes × Bytes))
    (writes : List SlotWrite) :
    (entries.map fun entry => (key.stem ++ entry.1, entry.2)).foldl
        (fun (batch : RocksDbBatch) entry =>
          batch.iput (LaserKeyFormatBase.ofBuffer entry.1).toLaserSerializer
            (ofBuffer entry.2)) (batchOf key writes) =
      batchOf key (writes ++ entries.map fun entry => .put entry.1 entry.2) := by
  induction entries generalizing writes with
  | nil => simp
  | cons entry entries ih =>
    rw [map_cons, List.foldl_cons, iput_record writes _ rfl, ih]
    simp [rawData, base, ofBuffer, LaserSerializer.ofBuffer]

theorem replaceBatch_eq {key : LaserKey} (hkey : IsKey base key) (value : LaserValueFormatBase) :
    iput
        ((sourceDb.iterate (ofKey base .COMPOSITE).toLaserSerializer).foldl
          (fun (batch : RocksDbBatch) entry =>
            batch.iput (LaserKeyFormatBase.ofBuffer entry.1).toLaserSerializer
              (ofBuffer entry.2)) []) base.toLaserSerializer value =
      batchOf key (((slot sourceDb.store key).records.entries.map fun entry =>
        SlotWrite.put entry.1 entry.2) ++ [.putHead value.rawData]) := by
  have htarget : (ofKey base .COMPOSITE).toLaserSerializer.rawData = key.stem := by
    rw [keyFormat_ofKey_rawData, hkey.primaryKeys, hkey.columns, LaserKey.stem_eq]
  have hloop := foldl_iput_entries key (slot sourceDb.store key).records.entries []
  rw [List.nil_append] at hloop
  rw [iterate_eq sourceDb htarget, nil_eq_batchOf key, hloop]
  simp only [iput, hkey.rawData, batchOf, map_append, map_cons, List.map_nil]
  rfl

theorem applyAll_entries (slot : Slot) (entries : List (Bytes × Bytes)) :
    slot.applyAll (entries.map fun entry => .put entry.1 entry.2) =
      ⟨slot.head, slot.records.putAll entries⟩ := by
  induction entries generalizing slot with
  | nil => rfl
  | cons entry entries ih =>
    have hrest := ih ⟨slot.head, slot.records.put entry.1 entry.2⟩
    exact hrest

/-- What the round of one composite value does: it touches no other key, it answers OK to both
its writes exactly if they are taken, and then leaves the records of the delta over what
`delkey` has kept. -/
theorem deltaReplace_spec {key : LaserKey} (hvalid : key.Valid) {delta : DeltaKv}
    (hkey : IsKey delta.1 key) (db : ReplicationDB) (statuses : List Status) :
    ∃ added, (deltaReplace env sourceDb (db, statuses) delta).2 = statuses ++ added ∧
      (deltaReplace env sourceDb (db, statuses) delta).1.role = db.role ∧
      (∀ other : LaserKey, other.Valid → other ≠ key →
        slot (deltaReplace env sourceDb (db, statuses) delta).1.store other = slot db.store other) ∧
      ((∀ status ∈ added, status = .OK) ↔ env.Replaces db.role key (slot db.store key)) ∧
      ((∀ status ∈ added, status = .OK) →
        slot (deltaReplace env sourceDb (db, statuses) delta).1.store key =
          Slot.overlaid (slot db.store key).keptByDelkey (slot sourceDb.store key)
            delta.2.rawData) := by
  have hdelkey : db.delkey (env.delkey delta.1.rawData) delta.1 =
      db.delkey (env.delkey key.metaKey) (getFormatKey key) := by
    rw [delkey_congr hkey, hkey.rawData]
  have hok := delkey_ok_iff db (env.delkey key.metaKey) key
  have hslot := delkey_of_ok db (env.delkey key.metaKey) key
  have hrole := delkey_role db (env.delkey key.metaKey) key
  have hother (other : LaserKey) := @delkey_other db (env.delkey key.metaKey) key other hvalid
  unfold deltaReplace
  simp only [hdelkey, replaceBatch_eq hkey]
  generalize db.delkey (env.delkey key.metaKey) (getFormatKey key) = deleted at *
  obtain ⟨status, db'⟩ := deleted
  have htakes : db'.role.Takes (env.write key.metaKey) ↔ db.role.Takes (env.write key.metaKey) := by
    rw [show db'.role = db.role from hrole]
  by_cases hstatus : status = .OK
  · subst hstatus
    rw [hkey.rawData]
    dsimp only at hslot hrole hother ⊢
    refine ⟨_, rfl, (write_role db' _ _).trans hrole, fun other hvalid' hne => ?_, ?_, fun hall => ?_⟩
    · by_cases htaken : db'.role.Takes (env.write key.metaKey)
      · rw [write_of_takes db' _ htaken]
        exact (slot_batch_other hvalid hvalid' hne db'.store _).trans (hother other hvalid' hne)
      · rw [(write_of_not_takes db' _ htaken _).2]
        exact hother other hvalid' hne
    · simp only [forall_mem_cons, List.not_mem_nil, false_implies, implies_true, and_true,
        true_and, write_ok_iff, htakes, DeltaEnv.Replaces, hok.mp rfl]
    · have hwritten := hall _ (List.mem_cons_of_mem _ mem_cons_self)
      rw [write_of_takes db' _ ((write_ok_iff db' _ _).mp hwritten), slot_batch_self,
        Slot.applyAll_append, hslot rfl, applyAll_entries]
      rfl
  · have hleft : ¬db.role.Deletes (env.delkey key.metaKey) key (slot db.store key) :=
      fun hdeletes => hstatus (hok.mpr hdeletes)
    split
    · rename_i heq
      cases heq
      exact absurd rfl hstatus
    · rename_i heq
      cases heq
      refine ⟨_, rfl, hrole, hother, ?_, fun hall => absurd (hall _ mem_cons_self) hstatus⟩
      exact iff_of_false (fun hall => hstatus (hall _ mem_cons_self)) fun hboth => hleft hboth.1

/-- The loop over the composite values: a key that is not among them keeps its records, and the
others fare by the records that they have at the start. -/
theorem deltaReplace_foldl {kvs : List DeltaKv}
    (hkeys : ∀ kv ∈ kvs, ∃ key : LaserKey, key.Valid ∧ IsKey kv.1 key)
    (hnodup : (kvs.map fun kv => kv.1.rawData).Nodup) (db : ReplicationDB)
    (statuses : List Status) :
    ∃ added, (kvs.foldl (deltaReplace env sourceDb) (db, statuses)).2 = statuses ++ added ∧
      (∀ key : LaserKey, key.Valid → key.metaKey ∉ kvs.map (fun kv => kv.1.rawData) →
        slot (kvs.foldl (deltaReplace env sourceDb) (db, statuses)).1.store key =
          slot db.store key) ∧
      ((∀ status ∈ added, status = .OK) ↔ ∀ kv ∈ kvs, ∀ key : LaserKey, key.Valid → IsKey kv.1 key →
          env.Replaces db.role key (slot db.store key)) ∧
      ((∀ status ∈ added, status = .OK) → ∀ kv ∈ kvs, ∀ key : LaserKey, key.Valid → IsKey kv.1 key →
          slot (kvs.foldl (deltaReplace env sourceDb) (db, statuses)).1.store key =
            Slot.overlaid (slot db.store key).keptByDelkey (slot sourceDb.store key)
              kv.2.rawData) := by
  induction kvs generalizing db statuses with
  | nil => exact ⟨[], by simp, fun _ _ _ => rfl, by simp, by simp⟩
  | cons kv kvs ih =>
    obtain ⟨key, hvalid, hkey⟩ := hkeys kv mem_cons_self
    obtain ⟨hfresh, hnodup⟩ := List.nodup_cons.mp hnodup
    obtain ⟨first, hfirst, hrole, hother, hfirstOk, hfirstSlot⟩ :=
      @deltaReplace_spec env sourceDb key hvalid kv hkey db statuses
    rw [List.foldl_cons]
    generalize deltaReplace env sourceDb (db, statuses) kv = after at *
    obtain ⟨db', statuses'⟩ := after
    dsimp only at hfirst hrole hother hfirstOk hfirstSlot
    obtain ⟨rest, hrest, hrestOther, hrestOk, hrestSlot⟩ :=
      ih (fun other hother => hkeys other (List.mem_cons_of_mem _ hother)) hnodup db' statuses'
    have hne {other : DeltaKv} (hmem : other ∈ kvs) {key' : LaserKey}
        (hkey' : IsKey other.1 key') : key' ≠ key := by
      rintro rfl
      exact hfresh (List.mem_map.mpr ⟨other, hmem, hkey'.rawData.trans hkey.rawData.symm⟩)
    refine ⟨first ++ rest, by rw [hrest, hfirst, append_assoc], ?_, ?_, ?_⟩
    · intro other hvalid' hnotMem
      rw [map_cons, List.mem_cons, not_or, hkey.rawData] at hnotMem
      rw [hrestOther other hvalid' hnotMem.2]
      exact hother other hvalid' fun heq => hnotMem.1 (heq ▸ rfl)
    · rw [forall_mem_append, hfirstOk, hrestOk, forall_mem_cons, hrole]
      refine and_congr ⟨fun hreplaces other _ hkey' => hkey.unique hkey' ▸ hreplaces,
        fun hall => hall key hvalid hkey⟩ ?_
      refine forall₂_congr fun other hmem => forall_congr' fun key' => ?_
      refine forall₂_congr fun hvalid' hkey' => ?_
      rw [hother key' hvalid' (hne hmem hkey')]
    · intro hall
      rw [forall_mem_append] at hall
      rw [forall_mem_cons]
      constructor
      · intro other _ hkey'
        rw [← hkey.unique hkey', hrestOther key hvalid (hkey.rawData ▸ hfresh), hfirstSlot hall.1]
      · intro other hmem key' hvalid' hkey'
        rw [hrestSlot hall.2 other hmem key' hvalid' hkey', hother key' hvalid' (hne hmem hkey')]

end

structure IsRecord (entry : Bytes × Bytes) (kv : DeltaKv) : Prop where
  key : ∃ key : LaserKey, key.Valid ∧ IsKey kv.1 key
  rawKey : kv.1.rawData = entry.1
  rawValue : kv.2.rawData = entry.2

def isPlainRecord (entry : Bytes × Bytes) : Bool := (headType entry.2).any ValueType.isPlain

variable {written : List (Bytes × Bytes)} {live db : ReplicationDB} {statuses : List Status}

def DeltaEnv.chunkSize (env : DeltaEnv) : Nat := max 1 env.deltaBatchLoadNumbers.toNat

def DeltaScan.pending (scan : DeltaScan) : RocksDbBatch :=
  if scan.batchNumbers = 0 then [] else scan.batch

def putBatch (entries : List (Bytes × Bytes)) : RocksDbBatch :=
  entries.map fun entry => .put entry.1 entry.2

theorem apply_putBatch (entries : List (Bytes × Bytes)) (store : Store) :
    (putBatch entries).apply store = store.putAll entries := by
  rw [apply, putBatch, List.foldl_map]
  rfl

theorem putBatch_append (left right : List (Bytes × Bytes)) :
    putBatch (left ++ right) = putBatch left ++ putBatch right := map_append

variable {entry : Bytes × Bytes}

theorem deltaScanStep_of_record {key : LaserKey} (hvalid : key.Valid)
    (hentry : entry.1 = key.metaKey) {type : ValueType} {timestamp : UInt64} {tail : Bytes}
    (hvalue : entry.2 = headBytes type timestamp ++ tail) :
    isPlainRecord entry = type.isPlain ∧ ∃ kv, IsRecord entry kv ∧ ∀ scan : DeltaScan,
      deltaScanStep env scan entry =
        if type.isPlain then
          if scan.batchNumbers + 1 ≥ env.deltaBatchLoadNumbers.toNat then
            { scan with
              db := (scan.db.write (env.chunk scan.statuses.length)
                (scan.pending ++ putBatch [entry])).2
              batch := scan.pending ++ putBatch [entry]
              batchNumbers := 0
              statuses := scan.statuses ++ [(scan.db.write (env.chunk scan.statuses.length)
                (scan.pending ++ putBatch [entry])).1] }
          else
            { scan with
              batch := scan.pending ++ putBatch [entry], batchNumbers := scan.batchNumbers + 1 }
        else { scan with batch := scan.pending, deltaMetaKvs := scan.deltaMetaKvs ++ [kv] } := by
  have hfit : (LaserKeyFormatBase.ofBuffer entry.1).rawData.length < 2 ^ 32 := by
    have hstem : key.stem.length < 2 ^ 32 := hvalid.2
    rw [show (LaserKeyFormatBase.ofBuffer entry.1).rawData = key.metaKey from hentry,
      key.metaKey_eq]
    rw [key.stem_eq] at hstem
    exact hstem
  obtain ⟨keyBuffer, hkeyDecode, hkeyRaw, -⟩ := decode_of_rawData
    (LaserKeyFormatBase.ofBuffer entry.1) hfit hvalid.1.1 hvalid.1.2
    (hentry.trans (key.metaKey_eq.trans (append_nil _).symm))
  obtain ⟨valueBuffer, hvalueDecode, hvalueRaw, -⟩ :=
    headDecode_of_rawData (ofBuffer entry.2) hvalue
  have hdecode : decode (ofBuffer entry.2) =
      (.accepted, ⟨valueBuffer, type, timestamp⟩) := hvalueDecode
  have hplain : isPlainRecord entry = type.isPlain := by
    rw [isPlainRecord, headType, hdecode]
    rfl
  refine ⟨hplain, (⟨keyBuffer, key.primaryKeys, key.columns, .DEFAULT⟩,
    ⟨valueBuffer, type, timestamp⟩), ⟨⟨key, hvalid, hkeyRaw.trans hentry, rfl, rfl⟩, hkeyRaw, hvalueRaw⟩,
    fun scan => ?_⟩
  have hput (batch : RocksDbBatch) :
      batch.iput keyBuffer (⟨valueBuffer, type, timestamp⟩ : LaserValueFormatBase) =
        batch ++ putBatch [entry] := by
    have hkeyBytes : keyBuffer.rawData = entry.1 := hkeyRaw
    have hvalueBytes : valueBuffer.rawData = entry.2 := hvalueRaw
    rw [iput, hkeyBytes]
    exact congrArg (fun value => batch ++ [BatchWrite.put entry.1 value]) hvalueBytes
  simp only [deltaScanStep, hkeyDecode, hdecode, hput, ValueType.isPlain, decide_eq_true_eq]
  rfl

structure Flushed (env : DeltaEnv) (live : ReplicationDB) (written : List (Bytes × Bytes))
    (db : ReplicationDB) (statuses : List Status) : Prop where
  role : db.role = live.role
  untouched : ∀ probe, probe ∉ written.map Prod.fst → db.store.get probe = live.store.get probe
  taken : (∀ status ∈ statuses, status = .OK) ↔
    ∀ index < statuses.length, live.role.Takes (env.chunk index)
  loaded : (∀ status ∈ statuses, status = .OK) → db.store = live.store.putAll written

theorem Flushed.write (hflushed : Flushed env live written db statuses)
    (held : List (Bytes × Bytes)) :
    Flushed env live (written ++ held)
      (db.write (env.chunk statuses.length) (putBatch held)).2
      (statuses ++ [(db.write (env.chunk statuses.length) (putBatch held)).1]) where
  role := (write_role db _ _).trans hflushed.role
  untouched := by
    intro probe hprobe
    rw [map_append, List.mem_append, not_or] at hprobe
    rw [← hflushed.untouched probe hprobe.1]
    by_cases htakes : db.role.Takes (env.chunk statuses.length)
    · rw [write_of_takes db _ htakes, apply_putBatch]
      exact get_putAll_of_not_mem hprobe.2
    · rw [(write_of_not_takes db _ htakes _).2]
  taken := by
    rw [forall_mem_append, List.forall_mem_singleton, hflushed.taken, write_ok_iff,
      hflushed.role, length_append, length_singleton, Nat.forall_lt_succ_right]
  loaded := by
    intro hall
    rw [forall_mem_append, List.forall_mem_singleton, write_ok_iff] at hall
    rw [write_of_takes db _ hall.2, apply_putBatch, putAll_append, hflushed.loaded hall.1]

/-- The scan after the records that it has seen: those of full batches are written, the others
are held back. -/
structure Scanned (env : DeltaEnv) (live : ReplicationDB) (seen written held : List (Bytes × Bytes))
    (scan : DeltaScan) : Prop where
  flushed : Flushed env live written scan.db scan.statuses
  plain : seen.filter isPlainRecord = written ++ held
  pending : scan.pending = putBatch held
  numbers : held.length = scan.batchNumbers
  below : scan.batchNumbers < env.chunkSize
  chunks : written.length = scan.statuses.length * env.chunkSize
  metas : List.Forall₂ IsRecord (seen.filter fun entry => !isPlainRecord entry) scan.deltaMetaKvs

theorem Scanned.start (live : ReplicationDB) :
    Scanned env live [] [] [] ⟨live, [], 0, [], []⟩ where
  flushed := ⟨rfl, fun _ _ => rfl, by simp, fun _ => rfl⟩
  plain := rfl
  pending := rfl
  numbers := rfl
  below := by rw [DeltaEnv.chunkSize]; exact lt_max_of_lt_left Nat.one_pos
  chunks := (Nat.zero_mul _).symm
  metas := .nil

def IsMetaRecord (entry : Bytes × Bytes) : Prop :=
  (∃ key : LaserKey, key.Valid ∧ entry.1 = key.metaKey) ∧
    ∃ type timestamp tail, entry.2 = headBytes type timestamp ++ tail

theorem Scanned.step {live : ReplicationDB} {seen written held : List (Bytes × Bytes)}
    {scan : DeltaScan} (hscanned : Scanned env live seen written held scan)
    (hentry : IsMetaRecord entry) :
    ∃ written' held', Scanned env live (seen ++ [entry]) written' held'
      (deltaScanStep env scan entry) := by
  obtain ⟨⟨key, hvalid, hkey⟩, type, timestamp, tail, hvalue⟩ := hentry
  obtain ⟨hplain, kv, hrecord, hstep⟩ := @deltaScanStep_of_record env entry key hvalid hkey type
    timestamp tail hvalue
  rw [hstep scan, hscanned.pending, ← putBatch_append]
  have hbelow := hscanned.below
  have hnumbers := hscanned.numbers
  have hchunks := hscanned.chunks
  have hnew : (held ++ [entry]).length = scan.batchNumbers + 1 := by
    rw [length_append, hscanned.numbers, length_singleton]
  by_cases htype : type.isPlain
  · have hseen : (seen ++ [entry]).filter isPlainRecord = written ++ (held ++ [entry]) := by
      rw [filter_append, hscanned.plain, filter_singleton, hplain, htype, append_assoc]
      rfl
    have hmetas : (seen ++ [entry]).filter (fun entry => !isPlainRecord entry) =
        seen.filter fun entry => !isPlainRecord entry := by
      rw [filter_append, filter_singleton, hplain, htype]
      exact append_nil _
    rw [if_pos htype]
    by_cases hfull : scan.batchNumbers + 1 ≥ env.deltaBatchLoadNumbers.toNat
    · have hsize : scan.batchNumbers + 1 = env.chunkSize := by
        unfold DeltaEnv.chunkSize at hbelow ⊢
        omega
      rw [if_pos hfull]
      refine ⟨written ++ (held ++ [entry]), [], hscanned.flushed.write _, ?_, rfl, rfl, ?_, ?_, ?_⟩
      · rw [hseen, append_nil]
      · exact Nat.lt_of_lt_of_le Nat.one_pos (le_max_left _ _)
      · rw [length_append, hnew, hchunks, hsize, length_append, length_singleton,
          Nat.succ_mul]
      · rw [hmetas]
        exact hscanned.metas
    · rw [if_neg hfull]
      refine ⟨written, held ++ [entry], hscanned.flushed, hseen, ?_, hnew, ?_, hchunks, ?_⟩
      · rfl
      · change scan.batchNumbers + 1 < env.chunkSize
        unfold DeltaEnv.chunkSize
        omega
      · rw [hmetas]
        exact hscanned.metas
  · rw [if_neg htype]
    refine ⟨written, held, hscanned.flushed, ?_, ?_, hnumbers, hbelow, hchunks, ?_⟩
    · rw [filter_append, filter_singleton, hplain, Bool.eq_false_iff.mpr htype,
        hscanned.plain]
      exact append_nil _
    · by_cases hempty : scan.batchNumbers = 0
      · rw [DeltaScan.pending, if_pos hempty, List.eq_nil_of_length_eq_zero (hnumbers.trans hempty)]
        rfl
      · rw [DeltaScan.pending, if_neg hempty]
    · rw [filter_append, filter_singleton, hplain, Bool.eq_false_iff.mpr htype]
      exact List.rel_append hscanned.metas (.cons hrecord .nil)

theorem scanned_foldl (live : ReplicationDB) {entries : List (Bytes × Bytes)}
    (hentries : ∀ entry ∈ entries, IsMetaRecord entry) :
    ∃ written held, Scanned env live entries written held
      (entries.foldl (deltaScanStep env) ⟨live, [], 0, [], []⟩) := by
  induction entries using List.reverseRecOn with
  | nil => exact ⟨[], [], .start live⟩
  | append_singleton entries entry ih =>
    obtain ⟨written, held, hscanned⟩ :=
      ih fun other hother => hentries other (List.mem_append_left _ hother)
    rw [List.foldl_append]
    exact hscanned.step (hentries entry (by simp))

def DeltaEnv.chunks (env : DeltaEnv) (count : Nat) : Nat :=
  (count + env.chunkSize - 1) / env.chunkSize

theorem deltaScanEnd_spec (live : ReplicationDB) {entries : List (Bytes × Bytes)}
    (hentries : ∀ entry ∈ entries, IsMetaRecord entry) :
    let scan := deltaScanEnd env (entries.foldl (deltaScanStep env) ⟨live, [], 0, [], []⟩)
    Flushed env live (entries.filter isPlainRecord) scan.db scan.statuses ∧
      scan.statuses.length = env.chunks (entries.filter isPlainRecord).length ∧
      List.Forall₂ IsRecord (entries.filter fun entry => !isPlainRecord entry)
        scan.deltaMetaKvs := by
  obtain ⟨written, held, hscanned⟩ := @scanned_foldl env live entries hentries
  generalize entries.foldl (deltaScanStep env) ⟨live, [], 0, [], []⟩ = scan at *
  have hbelow := hscanned.below
  have hnumbers := hscanned.numbers
  have hlength : (entries.filter isPlainRecord).length =
      scan.batchNumbers + scan.statuses.length * env.chunkSize := by
    rw [hscanned.plain, length_append, hscanned.chunks, hnumbers, Nat.add_comm]
  have hpos : 0 < env.chunkSize := Nat.zero_lt_of_lt hbelow
  unfold deltaScanEnd DeltaEnv.chunks
  rw [hlength]
  by_cases hempty : scan.batchNumbers = 0
  · have hheld : held = [] := List.eq_nil_of_length_eq_zero (hnumbers.trans hempty)
    rw [if_pos hempty, hscanned.plain, hheld, append_nil, hempty, Nat.zero_add]
    refine ⟨hscanned.flushed, ?_, hscanned.metas⟩
    rw [Nat.add_sub_assoc hpos, Nat.mul_comm, Nat.mul_add_div hpos,
      Nat.div_eq_of_lt (Nat.sub_one_lt hpos.ne'), Nat.add_zero]
  · have hpending := hscanned.pending
    rw [DeltaScan.pending, if_neg hempty] at hpending
    rw [if_neg hempty, hscanned.plain, hpending]
    refine ⟨hscanned.flushed.write held, ?_, hscanned.metas⟩
    rw [length_append, length_singleton]
    have hsplit : scan.batchNumbers + scan.statuses.length * env.chunkSize + env.chunkSize - 1 =
        env.chunkSize * (scan.statuses.length + 1) + (scan.batchNumbers - 1) := by
      rw [Nat.mul_add, Nat.mul_one, Nat.mul_comm env.chunkSize]
      omega
    rw [hsplit, Nat.mul_add_div hpos, Nat.div_eq_of_lt (by omega), Nat.add_zero]

namespace DeltaDb

def entries (delta : DeltaDb) : List (Bytes × Bytes) :=
  delta.db.iterate (LaserKeyFormatTypePrefix.ofType .DEFAULT)

def Has (delta : DeltaDb) (key : LaserKey) (bytes : Bytes) : Prop :=
  (slot delta.db.store key).head = some bytes

variable (delta : DeltaDb)

theorem entries_meta : ∀ entry ∈ delta.entries, IsMetaRecord entry :=
  fun entry hentry => ⟨delta.keyed entry hentry, delta.typed entry hentry⟩

theorem mem_entries_iff (key : LaserKey) (bytes : Bytes) :
    (key.metaKey, bytes) ∈ delta.entries ↔ delta.Has key bytes := by
  have hstart : (LaserKeyFormatTypePrefix.ofType .DEFAULT).rawData <+: key.metaKey := by
    rw [key.metaKey_eq, keyBytes, append_assoc]
    exact List.prefix_append _ _
  rw [entries, iterate, mem_scan_iff, Has]
  exact and_iff_left hstart

theorem has_unique {key : LaserKey} {bytes bytes' : Bytes} (hhas : delta.Has key bytes)
    (hhas' : delta.Has key bytes') : bytes = bytes' :=
  some.inj (hhas.symm.trans hhas')

theorem not_plain_of_has {key : LaserKey} {bytes : Bytes} (hhas : delta.Has key bytes)
    (hnot : ¬isPlainRecord (key.metaKey, bytes)) (bytes' : Bytes) (hhas' : delta.Has key bytes') :
    ¬isPlainRecord (key.metaKey, bytes') :=
  delta.has_unique hhas hhas' ▸ hnot

theorem entries_keys_nodup : (delta.entries.map Prod.fst).Nodup := by
  rw [entries, iterate, scan_eq_filter]
  exact delta.db.store.keys_nodup.sublist (List.filter_sublist.map _)

end DeltaDb

theorem Flushed.records_eq (hflushed : Flushed env live written db statuses)
    (hmeta : ∀ entry ∈ written, IsMetaRecord entry) (key : LaserKey) :
    (slot db.store key).records = (slot live.store key).records := by
  refine ext_get fun suffix => ?_
  simp only [slot, get_under]
  refine hflushed.untouched _ fun hmem => ?_
  obtain ⟨entry, hentry, heq⟩ := List.mem_map.mp hmem
  obtain ⟨⟨other, -, hother⟩, -⟩ := hmeta entry hentry
  exact append_ne_metaKey key other suffix (heq.symm.trans hother)

theorem Flushed.slot_eq (hflushed : Flushed env live written db statuses)
    (hmeta : ∀ entry ∈ written, IsMetaRecord entry) {key : LaserKey}
    (hkey : key.metaKey ∉ written.map Prod.fst) : slot db.store key = slot live.store key := by
  have hhead : (slot db.store key).head = (slot live.store key).head :=
    hflushed.untouched key.metaKey hkey
  have hrecords := hflushed.records_eq hmeta key
  unfold slot at hhead hrecords ⊢
  rw [Slot.mk.injEq]
  exact ⟨hhead, hrecords⟩

theorem records_map {entries : List (Bytes × Bytes)} {kvs : List DeltaKv}
    (hrecords : List.Forall₂ IsRecord entries kvs) :
    kvs.map (fun kv => (kv.1.rawData, kv.2.rawData)) = entries ∧
      ∀ kv ∈ kvs, ∃ key : LaserKey, key.Valid ∧ IsKey kv.1 key := by
  induction hrecords with
  | nil => exact ⟨rfl, nofun⟩
  | cons hrecord _ ih =>
    rw [map_cons, ih.1, hrecord.rawKey, hrecord.rawValue, forall_mem_cons]
    exact ⟨rfl, hrecord.key, ih.2⟩

theorem exists_kv_iff {delta : DeltaDb} {kvs : List DeltaKv}
    (hrecords : List.Forall₂ IsRecord
      (delta.entries.filter fun entry => !isPlainRecord entry) kvs)
    {key : LaserKey} (hvalid : key.Valid) (bytes : Bytes) :
    (∃ kv ∈ kvs, IsKey kv.1 key ∧ kv.2.rawData = bytes) ↔
      delta.Has key bytes ∧ ¬isPlainRecord (key.metaKey, bytes) := by
  obtain ⟨hmap, hkeys⟩ := records_map hrecords
  have hmem : (key.metaKey, bytes) ∈ (delta.entries.filter fun entry => !isPlainRecord entry) ↔
      delta.Has key bytes ∧ ¬isPlainRecord (key.metaKey, bytes) := by
    rw [mem_filter, delta.mem_entries_iff, Bool.not_eq_true', Bool.not_eq_true]
  rw [← hmem, ← hmap, List.mem_map]
  constructor
  · rintro ⟨kv, hkv, hkey, rfl⟩
    exact ⟨kv, hkv, by rw [hkey.rawData]⟩
  · rintro ⟨kv, hkv, heq⟩
    obtain ⟨other, hother, hisKey⟩ := hkeys kv hkv
    rw [Prod.mk.injEq] at heq
    have hsame : other = key := by
      by_contra hne
      exact metaKey_ne hother hvalid hne (hisKey.rawData.symm.trans heq.1)
    exact ⟨kv, hkv, hsame ▸ hisKey, heq.2⟩

variable (env) in
/-- What a load of a delta does: which keys it leaves alone, when all its writes are taken, and
what it then leaves of a plain and of a composite value. -/
theorem loadDelta_spec (live : ReplicationDB) (delta : DeltaDb) :
    let result := live.loadDelta env delta.db
    (∀ key : LaserKey, key.Valid → (slot delta.db.store key).head = none →
        slot result.1.store key = slot live.store key) ∧
      ((∀ status ∈ result.2, status = .OK) ↔
        (∀ index < env.chunks (delta.entries.filter isPlainRecord).length,
            live.role.Takes (env.chunk index)) ∧
          ∀ key : LaserKey, key.Valid → ∀ bytes, delta.Has key bytes →
            ¬isPlainRecord (key.metaKey, bytes) →
            env.Replaces live.role key (slot live.store key)) ∧
      ((∀ status ∈ result.2, status = .OK) → ∀ key : LaserKey, key.Valid →
        ∀ bytes, delta.Has key bytes → slot result.1.store key =
          if isPlainRecord (key.metaKey, bytes) then ⟨some bytes, (slot live.store key).records⟩
          else Slot.overlaid (slot live.store key).keptByDelkey (slot delta.db.store key) bytes) := by
  obtain ⟨hflushed, hcount, hmetas⟩ := @deltaScanEnd_spec env live delta.entries delta.entries_meta
  rw [loadDelta, ← DeltaDb.entries]
  generalize deltaScanEnd env
    (delta.entries.foldl (deltaScanStep env) ⟨live, [], 0, [], []⟩) = scan at *
  obtain ⟨hmap, hkeys⟩ := records_map hmetas
  have hperm := env.order_perm scan.deltaMetaKvs
  have hplainMeta : ∀ entry ∈ delta.entries.filter isPlainRecord, IsMetaRecord entry :=
    fun entry hentry => delta.entries_meta entry (List.mem_of_mem_filter hentry)
  have hnodup : ((env.order scan.deltaMetaKvs).map fun kv => kv.1.rawData).Nodup := by
    refine (hperm.map _).nodup_iff.mpr ?_
    have hfst : (scan.deltaMetaKvs.map fun kv => kv.1.rawData) =
        (delta.entries.filter fun entry => !isPlainRecord entry).map Prod.fst := by
      rw [← hmap, List.map_map]
      rfl
    rw [hfst]
    exact delta.entries_keys_nodup.sublist (List.filter_sublist.map _)
  obtain ⟨added, hadded, hother, hok, hslot⟩ := @deltaReplace_foldl env delta.db
    (env.order scan.deltaMetaKvs) (fun kv hkv => hkeys kv (hperm.mem_iff.mp hkv)) hnodup scan.db
    scan.statuses
  have hlive {key : LaserKey} (hnotPlain : ∀ bytes, delta.Has key bytes →
      ¬isPlainRecord (key.metaKey, bytes)) : slot scan.db.store key = slot live.store key := by
    refine hflushed.slot_eq hplainMeta fun hmem => ?_
    obtain ⟨⟨_, bytes⟩, hentry, rfl⟩ := List.mem_map.mp hmem
    obtain ⟨hentry, hplain⟩ := mem_filter.mp hentry
    exact hnotPlain bytes ((delta.mem_entries_iff key bytes).mp hentry) hplain
  have hkv {key : LaserKey} (hvalid : key.Valid) (bytes : Bytes) :
      (∃ kv ∈ env.order scan.deltaMetaKvs, IsKey kv.1 key ∧ kv.2.rawData = bytes) ↔
        delta.Has key bytes ∧ ¬isPlainRecord (key.metaKey, bytes) := by
    rw [← exists_kv_iff hmetas hvalid]
    simp only [hperm.mem_iff]
  have hkept {key : LaserKey} (hvalid : key.Valid) (hplain : ∀ bytes, delta.Has key bytes →
      isPlainRecord (key.metaKey, bytes)) :
      key.metaKey ∉ (env.order scan.deltaMetaKvs).map fun kv => kv.1.rawData := by
    intro hmem
    obtain ⟨kv, hkvMem, hraw⟩ := List.mem_map.mp hmem
    obtain ⟨other, hotherValid, hisKey⟩ := hkeys kv (hperm.mem_iff.mp hkvMem)
    have hsame : other = key := by
      by_contra hne
      exact metaKey_ne hotherValid hvalid hne (hisKey.rawData.symm.trans hraw)
    obtain ⟨hhas, hnot⟩ := (hkv hvalid kv.2.rawData).mp ⟨kv, hkvMem, hsame ▸ hisKey, rfl⟩
    exact hnot (hplain _ hhas)
  refine ⟨?_, ?_, ?_⟩
  · intro key hvalid hnone
    have hnothing (bytes : Bytes) : ¬delta.Has key bytes := by
      rw [DeltaDb.Has, hnone]
      nofun
    rw [hother key hvalid (hkept hvalid fun bytes hhas => absurd hhas (hnothing bytes))]
    exact hlive fun bytes hhas => absurd hhas (hnothing bytes)
  · rw [hadded, forall_mem_append, hflushed.taken, hcount, hok, hflushed.role]
    refine and_congr_right fun _ => ⟨fun hall key hvalid bytes hhas hnot => ?_,
      fun hall kv hkvMem key hvalid hisKey => ?_⟩
    · obtain ⟨kv, hkvMem, hisKey, -⟩ := (hkv hvalid bytes).mpr ⟨hhas, hnot⟩
      rw [← hlive (delta.not_plain_of_has hhas hnot)]
      exact hall kv hkvMem key hvalid hisKey
    · obtain ⟨hhas, hnot⟩ := (hkv hvalid kv.2.rawData).mp ⟨kv, hkvMem, hisKey, rfl⟩
      rw [hlive (delta.not_plain_of_has hhas hnot)]
      exact hall key hvalid _ hhas hnot
  · intro hall key hvalid bytes hhas
    rw [hadded, forall_mem_append] at hall
    by_cases hplain : isPlainRecord (key.metaKey, bytes) = true
    · have hmem : (key.metaKey, bytes) ∈ delta.entries.filter isPlainRecord :=
        mem_filter.mpr ⟨(delta.mem_entries_iff key bytes).mpr hhas, hplain⟩
      have hhead : scan.db.store.get key.metaKey = some bytes := by
        rw [hflushed.loaded hall.1]
        exact get_putAll_of_mem (delta.entries_keys_nodup.sublist (List.filter_sublist.map _)) hmem
      rw [hother key hvalid (hkept hvalid fun other hotherHas => ?_), if_pos hplain,
        ← hflushed.records_eq hplainMeta key, ← hhead]
      · rfl
      · rw [delta.has_unique hotherHas hhas]
        exact hplain
    · obtain ⟨kv, hkvMem, hisKey, rfl⟩ := (hkv hvalid bytes).mpr ⟨hhas, hplain⟩
      rw [if_neg hplain, hslot hall.2 kv hkvMem key hvalid hisKey,
        hlive (delta.not_plain_of_has hhas hplain)]

/-- A load that answers OK leaves of each key of the delta the records of the delta and of any
other key what it had, and a load with a write that fails does not answer OK. -/
def ReplicationDB.DeltaReplaced (env : DeltaEnv) (source : DeltaSource) (live : ReplicationDB) :
    Prop :=
  let result := live.ingestDeltaSst env source
  (result.1 = .OK → ∀ key : LaserKey, key.Valid → slot result.2.1.store key =
      if (slot source.delta.db.store key).head = none then slot live.store key
      else slot source.delta.db.store key) ∧
    ((∃ status ∈ result.2.2, status ≠ .OK) → result.1 ≠ .OK)

/-- Every write is taken, a plain value of the delta meets no other data records than it has
itself, and a composite one only such as `delkey` deletes or the delta overwrites. -/
structure DeltaEnv.Suits (env : DeltaEnv) (live : ReplicationDB) (delta : DeltaDb) : Prop where
  batches : ∀ index < env.chunks (delta.entries.filter isPlainRecord).length,
    live.role.Takes (env.chunk index)
  plain : ∀ key : LaserKey, key.Valid → ∀ bytes, delta.Has key bytes →
    isPlainRecord (key.metaKey, bytes) →
      (slot live.store key).records = (slot delta.db.store key).records
  composite : ∀ key : LaserKey, key.Valid → ∀ bytes, delta.Has key bytes →
    ¬isPlainRecord (key.metaKey, bytes) → env.Replaces live.role key (slot live.store key) ∧
      ∀ suffix, (slot live.store key).keptByDelkey.get suffix ≠ none →
        (slot delta.db.store key).records.get suffix ≠ none

theorem Slot.overlaid_eq_iff (old : Store) {delta : Slot} {bytes : Bytes}
    (hhead : delta.head = some bytes) :
    Slot.overlaid old delta bytes = delta ↔
      ∀ suffix, old.get suffix ≠ none → delta.records.get suffix ≠ none := by
  obtain ⟨head, records⟩ := delta
  cases hhead
  rw [Slot.overlaid, Slot.mk.injEq, ← putAll_entries_eq_iff]
  exact and_iff_right rfl

variable {source : DeltaSource}

theorem ingestDeltaSst_of_ready (hopens : source.opens = true) (hpre : source.preIngest = .OK)
    (hinner : source.innerIngest = .OK) (env : DeltaEnv) (live : ReplicationDB) :
    live.ingestDeltaSst env source = (.OK, live.loadDelta env source.delta.db) := by
  simp only [ingestDeltaSst, hopens, hpre, hinner, ne_eq, not_true_eq_false, ↓reduceIte]

theorem ingestDeltaSst_of_not_ready
    (hready : ¬(source.opens = true ∧ source.preIngest = .OK ∧ source.innerIngest = .OK))
    (env : DeltaEnv) (live : ReplicationDB) : (live.ingestDeltaSst env source).1 ≠ .OK := by
  unfold ingestDeltaSst
  split
  · rename_i hopens
    split
    · assumption
    · rename_i hpre
      split
      · assumption
      · rename_i hinner
        exact absurd ⟨hopens, not_not.mp hpre, not_not.mp hinner⟩ hready
  · nofun

def DeltaEnv.steady (outside : Env) : DeltaEnv where
  deltaBatchLoadNumbers := 1000
  chunk := fun _ => outside
  delkey := fun _ => outside
  write := fun _ => outside
  order := id
  order_perm := List.Perm.refl

def deltaKey : LaserKey := ⟨[[97]], []⟩

theorem mem_iterate_single {key value : Bytes} {target : LaserSerializer}
    (hentry : entry ∈ (mk .LEADER (empty.put key value)).iterate target) :
    entry = (key, value) := by
  have hget := (mem_scan_iff.mp hentry).1
  rw [get_put] at hget
  split at hget
  · rename_i heq
    cases hget
    exact Prod.ext heq rfl
  · cases hget

def DeltaSource.single (type : ValueType) : DeltaSource where
  opens := true
  preIngest := .OK
  innerIngest := .OK
  delta := {
    db := ⟨.LEADER, empty.put deltaKey.metaKey (headBytes type 0)⟩
    keyed := fun entry hentry => ⟨deltaKey, by decide, by rw [mem_iterate_single hentry]⟩
    typed := fun entry hentry =>
      ⟨type, 0, [], by rw [mem_iterate_single hentry, append_nil]⟩ }

def ReplicationDB.single (type : ValueType) : ReplicationDB :=
  ⟨.LEADER, (empty.put deltaKey.metaKey (headBytes type 0)).put
    (deltaKey.stem ++ [7]) [1]⟩

def singleLoad (old new : ValueType) (outside : Env) : Status × ReplicationDB × List Status :=
  (single old).ingestDeltaSst (DeltaEnv.steady outside) (DeltaSource.single new)

end LaserDB
