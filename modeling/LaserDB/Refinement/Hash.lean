import LaserDB.Refinement.Plans

/-!
# Hashes are finite maps

A hash is stored as a meta record that counts the fields and one record for each field.
-/

namespace LaserDB

open OrderedMap (empty erase get_erase get_put size_erase size_put)
open ByteCodec RocksDbEngine Function Option List OrderedMap SizeMeta

inductive HashOp where
  | hset (field value : Bytes)
  | hmset (values : OrderedMap Bytes Bytes)
  | hdel (field : Bytes)
  | hget (field : Bytes)
  | hlen
  | hkeys
  | hgetall
  | delkey

abbrev HashModel := Option (OrderedMap Bytes Bytes)

namespace HashModel

def fields (model : HashModel) : OrderedMap Bytes Bytes := model.getD empty

def status : HashModel → Status
  | none => .RS_NOT_FOUND
  | some _ => .OK

def listing : HashModel → Reply
  | none => (.RS_NOT_FOUND, .nothing)
  | some map => (.OK, .fields map)

end HashModel

namespace HashOp

def call (key : LaserKey) : HashOp → Call
  | .hset field value => .hset key field value
  | .hmset values => .hmset key values
  | .hdel field => .hdel key field
  | .hget field => .hget key field
  | .hlen => .hlen key
  | .hkeys => .hkeys key
  | .hgetall => .hgetall key
  | .delkey => .delkey key

def next (op : HashOp) (model : HashModel) : HashModel :=
  match op with
  | .hset field value => some (model.fields.put field value)
  | .hmset values =>
    if values.entries = [] then model
    else some (values.entries.foldl (fun map pair => map.put pair.1 pair.2) model.fields)
  | .hdel field => model.map (erase · field)
  | .delkey => none
  | .hget _ | .hlen | .hkeys | .hgetall => model

def allows (op : HashOp) (model : HashModel) (reply : Reply) : Prop :=
  match op with
  | .hset _ _ | .hmset _ | .delkey => reply = (.OK, .nothing)
  | .hdel field =>
    reply = match model.fields.get field with
      | none => (.RS_NOT_FOUND, .nothing)
      | some _ => (.OK, .nothing)
  | .hget field =>
    reply = match model.fields.get field with
      | none => (.RS_NOT_FOUND, .nothing)
      | some value => (.OK, .text value)
  | .hlen => ∃ size : UInt32, reply = (model.status, .length size) ∧ size.toNat = model.fields.size
  | .hkeys => ∃ keys, reply = (model.status, .texts keys) ∧ keys.Nodup ∧
      ∀ field, field ∈ keys ↔ model.fields.get field ≠ none
  | .hgetall => reply = model.listing

/-- A field that is written has a record key that RocksDB takes and a value
that the string codec gives back; `hlen` counts up to 32 bits. -/
def guard (key : LaserKey) (op : HashOp) (model : HashModel) : Prop :=
  match op with
  | .hset field value => Storable (key.dataKey (.field field)) ∧ RoundTrips value
  | .hmset values =>
    ∀ pair ∈ values.entries, Storable (key.dataKey (.field pair.1)) ∧ RoundTrips pair.2
  | .hlen => model.fields.size < 2 ^ 32
  | _ => True

end HashOp

def hashMeta (size : Nat) : Bytes := sizeMetaBytes .MAP 0 (UInt32.ofNat size)

structure FieldRecords (key : LaserKey) (records : Store) (map : OrderedMap Bytes Bytes) :
    Prop where
  encodes : records.Encodes packedString fun field => (map.get field).map (rawStringBytes 0)
  readable : ∀ field value, map.get field = some value →
    Storable (key.dataKey (.field field)) ∧ RoundTrips value

structure HashHolds (key : LaserKey) (slot : Slot) (model : HashModel) : Prop where
  head : slot.head = model.map fun map => hashMeta map.size
  records : FieldRecords key slot.records model.fields

variable {pairs : List (Bytes × Bytes)} {map : OrderedMap Bytes Bytes}

variable {key : LaserKey} {model : HashModel}

variable {field value : Bytes}

section
variable {slot : Slot}

theorem hashHolds_absent (key : LaserKey) : HashHolds key .absent none where
  head := rfl
  records := ⟨OrderedMap.Encodes.empty, fun _ _ hget => by simp [HashModel.fields] at hget⟩

theorem HashHolds.get_record (hholds : HashHolds key slot model) (field : Bytes) :
    slot.records.get (packedString field) = (model.fields.get field).map (rawStringBytes 0) :=
  hholds.records.encodes.get_place field

def putField (map : OrderedMap Bytes Bytes) (field value : Bytes) : List SlotWrite :=
  (match map.get field with
    | none => [.putHead (hashMeta (map.size + 1))]
    | some _ => []) ++ [.put (packedString field) (rawStringBytes 0 value)]

theorem HashHolds.putField (hholds : HashHolds key slot model)
    (hstorable : Storable (key.dataKey (.field field))) (hvalue : RoundTrips value) :
    HashHolds key (slot.applyAll (putField model.fields field value))
      (some (model.fields.put field value)) := by
  have hrecords : FieldRecords key (slot.records.put (packedString field) (rawStringBytes 0 value))
      (model.fields.put field value) := by
    constructor
    · refine (hholds.records.encodes.put packedString_injective field _).congr ?_
      funext probe
      simp only [update_apply, get_put]
      split <;> rfl
    · intro probe found hget
      rw [get_put] at hget
      split at hget
      · rename_i heq
        cases hget
        exact heq ▸ ⟨hstorable, hvalue⟩
      · exact hholds.records.readable probe found hget
  unfold LaserDB.putField
  cases hget : model.fields.get field with
  | none =>
    refine ⟨?_, hrecords⟩
    change some (hashMeta (model.fields.size + 1)) = _
    rw [map_some, size_put, if_pos hget]
  | some old =>
    refine ⟨?_, hrecords⟩
    change slot.head = _
    rw [map_some, size_put, if_neg (by simp [hget]), hholds.head]
    cases model with
    | none => cases hget
    | some map => rfl

def putFields (map : OrderedMap Bytes Bytes) : List (Bytes × Bytes) → List SlotWrite
  | [] => []
  | pair :: rest => putField map pair.1 pair.2 ++ putFields (map.put pair.1 pair.2) rest

theorem HashHolds.putFields (hholds : HashHolds key slot model)
    (hpairs : ∀ pair ∈ pairs, Storable (key.dataKey (.field pair.1)) ∧ RoundTrips pair.2) :
    HashHolds key (slot.applyAll (putFields model.fields pairs))
      (if pairs = [] then model
        else some (pairs.foldl (fun map pair => map.put pair.1 pair.2) model.fields)) := by
  induction pairs generalizing slot model with
  | nil => exact hholds
  | cons pair rest ih =>
    obtain ⟨hstorable, hvalue⟩ := hpairs pair (by simp)
    have hfirst := hholds.putField hstorable hvalue
    have hrest := ih hfirst fun other hmem => hpairs other (by simp [hmem])
    rw [if_neg (by simp), LaserDB.putFields, Slot.applyAll, foldl_append, foldl_cons]
    split at hrest
    · rename_i hnil
      subst hnil
      exact hrest
    · exact hrest

def dropField (map : OrderedMap Bytes Bytes) (field : Bytes) : List SlotWrite :=
  match map.get field with
  | none => []
  | some _ => [.drop (packedString field), .putHead (hashMeta (map.size - 1))]

theorem HashHolds.dropField (hholds : HashHolds key slot (some map)) (field : Bytes) :
    HashHolds key (slot.applyAll (dropField map field)) (some (map.erase field)) := by
  unfold LaserDB.dropField
  cases hget : map.get field with
  | none =>
    rw [erase_of_get_eq_none hget]
    exact hholds
  | some value =>
    refine ⟨?_, ?_, ?_⟩
    · change some (hashMeta (map.size - 1)) = _
      rw [map_some, size_erase hget, Nat.add_sub_cancel]
    · refine (hholds.records.encodes.erase packedString_injective field).congr ?_
      funext probe
      simp only [update_apply, HashModel.fields, getD_some, get_erase]
      split <;> rfl
    · intro probe found hprobe
      simp only [HashModel.fields, getD_some, get_erase] at hprobe
      split at hprobe
      · cases hprobe
      · exact hholds.records.readable probe found hprobe

theorem HashHolds.eq_absent (hholds : HashHolds key slot none) : slot = .absent :=
  Slot.eq_absent hholds.head (OrderedMap.Encodes.eq_empty hholds.records.encodes)

end

open LaserKeyFormatMapData (ofKey getField)
open Call (exec)

section
variable {engine : RocksDbEngine} {env : Env} (henv : env.Healthy) (hplain : engine.Plain)
  (hholds : HashHolds key (slot engine.db.store key) model)
include henv hholds

include hplain

theorem hsetPlan_eq (field value : Bytes) :
    engine.hsetPlan env (getFormatKey key) field value =
      .ok ((), batchOf key (putField model.fields field value)) := by
  have hrecord := hholds.get_record field
  rw [plan_hset _ _ henv, stamp_of_noTtl _ _ hplain.noTtl]
  cases model with
  | none =>
    have hfound : (slot engine.db.store key).Finds (new : LaserValueMapMeta) none := hholds.head
    rw [Slot.plan_of_finds hfound]
    rfl
  | some map =>
    obtain ⟨buffer, hfound⟩ := finds_sizeMeta hholds.head
    rw [Slot.plan_of_finds hfound]
    simp only [HashModel.fields, getD_some] at hrecord ⊢
    cases hget : map.get field <;> simp [hsetWrites, hrecord, hget, putField, hashMeta]

omit henv hplain hholds in
theorem fieldWrites_eq {known : Bytes → Bool}
    (hknown : ∀ pair ∈ pairs, known (packedString pair.1) = (map.get pair.1).isSome)
    (hnodup : (pairs.map Prod.fst).Nodup) :
    fieldWrites known .MAP 0 (UInt32.ofNat map.size) pairs = putFields map pairs := by
  induction pairs generalizing map with
  | nil => rfl
  | cons pair rest ih =>
    obtain ⟨hother, hrest⟩ := nodup_cons.mp hnodup
    have hstill : ∀ later ∈ rest, known (packedString later.1) =
        ((map.put pair.1 pair.2).get later.1).isSome := by
      intro later hmem
      have hne : later.1 ≠ pair.1 := fun heq =>
        hother (heq ▸ mem_map.mpr ⟨later, hmem, rfl⟩)
      rw [get_put_of_ne hne]
      exact hknown later (by simp [hmem])
    have hfirst := hknown pair (by simp)
    have hput := size_put map pair.1 pair.2
    rw [putFields, ← ih hstill hrest]
    cases hget : map.get pair.1 with
    | none =>
      rw [if_pos hget] at hput
      simp [fieldWrites, hfirst, hget, putField, hput, hashMeta]
    | some old =>
      rw [if_neg (by simp [hget])] at hput
      simp [fieldWrites, hfirst, hget, putField, hput]

theorem hmsetPlan_eq (values : OrderedMap Bytes Bytes) :
    engine.hmsetPlan env (getFormatKey key) values =
      .ok ((), batchOf key (putFields model.fields values.entries)) := by
  rw [plan_hmset _ henv]
  cases model with
  | none =>
    have hfound : (slot engine.db.store key).Finds (new : LaserValueMapMeta) none := hholds.head
    rw [Slot.plan_of_finds hfound, hmsetWrites, stamp_of_noTtl _ _ hplain.noTtl]
    refine congrArg (fun writes => Except.ok ((), batchOf key writes)) ?_
    exact @fieldWrites_eq values.entries empty (fun _ => false) (fun _ _ => rfl) values.keys_nodup
  | some map =>
    obtain ⟨buffer, hfound⟩ := finds_sizeMeta hholds.head
    rw [Slot.plan_of_finds hfound, hmsetWrites, stamp_of_noTtl _ _ hplain.noTtl]
    refine congrArg (fun writes => Except.ok ((), batchOf key writes)) ?_
    refine fieldWrites_eq (fun pair _ => ?_) values.keys_nodup
    simp [hholds.get_record pair.1, HashModel.fields]

omit hplain in
theorem hdelPlan_eq (hmodel : model = some map) (field : Bytes) :
    engine.hdelPlan env (getFormatKey key) field =
      match map.get field with
      | none => .error .RS_NOT_FOUND
      | some _ => .ok ((), batchOf key
          [.drop (packedString field), .putHead (hashMeta (map.size - 1))]) := by
  subst hmodel
  have hhead := hholds.head
  have hrecord := hholds.get_record field
  obtain ⟨buffer, hdecode⟩ := decodeOr_sizeMeta .RS_INVALID_ARGUMENT .MAP 0 (UInt32.ofNat map.size)
  rw [map_some, hashMeta] at hhead
  simp only [HashModel.fields, getD_some] at hrecord
  simp only [hdelPlan, readFound_head henv, hhead, foundOr, ok_bind, hdecode, hrecord,
    readFound_record henv _ _ _ (mapData_rawData key field)]
  cases hget : map.get field with
  | none => rfl
  | some value =>
    have hpositive : 1 ≤ map.size := by
      rw [size_erase hget]
      omega
    simp only [map_some, ok_bind, pure_eq_ok]
    rw [nil_eq_batchOf key, idelete_record _ (mapData_rawData key field), iput_head]
    simp [decrSize, hashMeta, UInt32.ofNat_sub hpositive]

omit hplain

theorem hget_exec (field : Bytes) :
    (Call.hget key field).exec env engine = (match model.fields.get field with
        | none => (.RS_NOT_FOUND, .nothing)
        | some value => (.OK, .text value), engine) := by
  have hhead := hholds.head
  have hrecord := hholds.get_record field
  cases model with
  | none =>
    rw [map_none] at hhead
    simp only [exec, hget, readLive_absent henv _ hhead, error_bind, replyOf]
    rfl
  | some map =>
    obtain ⟨_, hlive⟩ := readLive_sizeMeta henv hholds.head
    simp only [exec, hget, hlive, ok_bind, hrecord,
      readFound_record henv _ _ _ (mapData_rawData key field)]
    cases hfield : HashModel.fields (some map) |>.get field with
    | none => rfl
    | some value =>
      obtain ⟨-, hvalue⟩ := hholds.records.readable field value hfield
      obtain ⟨buffer, hdecode⟩ := decodeOr_rawString .RS_INVALID_ARGUMENT 0 hvalue
      simp only [map_some, foundOr, ok_bind, hdecode, replyOf]

theorem hlen_exec :
    (Call.hlen key).exec env engine =
      ((model.status, .length (UInt32.ofNat model.fields.size)), engine) := by
  have hhead := hholds.head
  cases model with
  | none =>
    have hfresh : LaserValue.getTimestamp (new : LaserValueMapMeta) = 0 := rfl
    simp only [exec, hlen, getValue_absent henv hhead hfresh]
    rfl
  | some map =>
    obtain ⟨_, hvalue⟩ := getValue_sizeMeta henv hholds.head
    simp only [exec, hlen, hvalue]
    rfl

omit henv in
theorem hash_iterate :
    ∃ pairs : List (Bytes × Bytes),
      engine.db.iterate (ofKey (getFormatKey key) []).toLaserSerializer =
        pairs.map (fun pair => (key.stem ++ packedString pair.1, rawStringBytes 0 pair.2)) ∧
      (pairs.map Prod.fst).Nodup ∧
      ∀ field value, (field, value) ∈ pairs ↔ model.fields.get field = some value := by
  obtain ⟨pairs, hentries, hpairs⟩ := hholds.records.encodes.exists_pairs packedString_injective
  refine ⟨pairs, ?_, hpairs⟩
  rw [iterate_eq engine.db (mapTarget_rawData key), hentries, List.map_map]
  rfl

omit henv hholds in
theorem hkeysLoop_eq (hkey : key.NoEmptyPart)
    (hpairs : ∀ pair ∈ pairs, Storable (key.dataKey (.field pair.1)))
    (keys : List LaserKeyFormatMapData) :
    ∃ found, hkeysLoop
        (pairs.map fun pair => (key.stem ++ packedString pair.1, rawStringBytes 0 pair.2)) keys =
        (.OK, found) ∧
      found.map getField =
        keys.map getField ++ pairs.map Prod.fst := by
  induction pairs generalizing keys with
  | nil => exact ⟨keys, rfl, by simp⟩
  | cons pair rest ih =>
    have hfit := hpairs pair (by simp)
    rw [LaserKey.dataKey_eq] at hfit
    obtain ⟨buffer, hdecode⟩ := stringKey_decode hkey hfit
    obtain ⟨found, hloop, hfields⟩ := ih (fun other hmem => hpairs other (by simp [hmem]))
      (keys ++ [⟨⟨buffer, key.primaryKeys, key.columns, .COMPOSITE⟩, pair.1⟩])
    refine ⟨found, ?_, ?_⟩
    · rw [map_cons, hkeysLoop]
      simp only [hdecode]
      exact hloop
    · rw [hfields]
      simp [getField]

theorem hkeys_exec (hkey : key.Valid) :
    ∃ keys, (Call.hkeys key).exec env engine = ((model.status, .texts keys), engine) ∧
      keys.Nodup ∧ ∀ field, field ∈ keys ↔ model.fields.get field ≠ none := by
  obtain ⟨pairs, hiterate, hnodup, hmem⟩ := hash_iterate hholds
  refine ⟨pairs.map Prod.fst, ?_, hnodup, ?_⟩
  · have hhead := hholds.head
    obtain ⟨found, hloop, hfields⟩ := hkeysLoop_eq hkey.1
      (fun pair hpair => (hholds.records.readable _ _ ((hmem pair.1 pair.2).mp hpair)).1) []
    rw [map_nil, nil_append] at hfields
    cases model with
    | none =>
      have hpairs : pairs = [] := eq_nil_iff_forall_not_mem.mpr
        fun pair hpair => by cases (hmem pair.1 pair.2).mp hpair
      simp only [exec, hkeys, readLive_absent henv _ hhead, hpairs]
      rfl
    | some map =>
      obtain ⟨_, hlive⟩ := readLive_sizeMeta henv hholds.head
      simp only [exec, hkeys, hlive, hiterate, hloop, hfields]
      rfl
  · intro field
    rw [List.mem_map, ne_none_iff_exists']
    constructor
    · rintro ⟨pair, hpair, rfl⟩
      exact ⟨pair.2, (hmem pair.1 pair.2).mp hpair⟩
    · rintro ⟨value, hget⟩
      exact ⟨(field, value), (hmem field value).mpr hget, rfl⟩

omit henv hholds in
theorem hgetallEntry_eq (hkey : key.NoEmptyPart)
    (hstorable : Storable (key.dataKey (.field field))) (hvalue : RoundTrips value) :
    ∃ found : LaserValueRawString, found.value = value ∧
      hgetallEntry (key.stem ++ packedString field, rawStringBytes 0 value) =
        some (field, found) := by
  rw [LaserKey.dataKey_eq] at hstorable
  obtain ⟨_, hdecodeKey⟩ := stringKey_decode hkey hstorable
  obtain ⟨hne, hfit⟩ := (roundTrips_iff value).mp hvalue
  obtain ⟨buffer, hdecode⟩ :=
    rawString_decode (LaserValueRawString.ofBuffer (rawStringBytes 0 value)) rfl hne hfit
  refine ⟨⟨⟨buffer, .RAW_STRING, 0⟩, value⟩, rfl, ?_⟩
  simp only [hgetallEntry, hdecodeKey, hdecode]
  rfl

omit henv hholds in
theorem hgetallLoop_eq (hkey : key.NoEmptyPart)
    (hpairs : ∀ pair ∈ pairs, Storable (key.dataKey (.field pair.1)) ∧ RoundTrips pair.2) :
    ((pairs.map fun pair =>
        (key.stem ++ packedString pair.1, rawStringBytes 0 pair.2)).filterMap hgetallEntry).map
      (fun found => (found.1, found.2.value)) = pairs := by
  induction pairs with
  | nil => rfl
  | cons pair rest ih =>
    obtain ⟨hstorable, hvalue⟩ := hpairs pair (by simp)
    obtain ⟨found, hfound, hentry⟩ := hgetallEntry_eq hkey hstorable hvalue
    rw [map_cons, filterMap_cons_some hentry, map_cons, hfound,
      ih fun other hmem => hpairs other (by simp [hmem])]

theorem hgetall_exec (hkey : key.Valid) :
    (Call.hgetall key).exec env engine = (model.listing, engine) := by
  have hhead := hholds.head
  obtain ⟨pairs, hiterate, hnodup, hmem⟩ := hash_iterate hholds
  cases model with
  | none =>
    simp only [exec, hgetall, readLive_absent henv _ hhead, error_bind, replyOf]
    rfl
  | some map =>
    obtain ⟨_, hlive⟩ := readLive_sizeMeta henv hholds.head
    have hloop := hgetallLoop_eq hkey.1
      fun pair hpair => hholds.records.readable _ _ ((hmem pair.1 pair.2).mp hpair)
    have hvalues : (ofPairs ((pairs.map fun pair =>
        (key.stem ++ packedString pair.1, rawStringBytes 0 pair.2)).filterMap
          hgetallEntry)).mapValues (·.value) = map := by
      rw [mapValues_ofPairs, hloop]
      exact ofPairs_eq hnodup hmem
    simp only [exec, hgetall, hlive, ok_bind, hiterate, pure_eq_ok, replyOf]
    exact congrArg (fun map => ((Status.OK, Payload.fields map), engine)) hvalues

include hplain

theorem hdel_exec (field : Bytes) :
    (Call.hdel key field).exec env engine = (match model.fields.get field with
        | none => (.RS_NOT_FOUND, .nothing)
        | some _ => (.OK, .nothing), engine.withStore
        ((batchOf key (dropField model.fields field)).apply engine.db.store)) := by
  cases model with
  | none =>
    have hhead := hholds.head
    rw [map_none] at hhead
    simp only [exec, hdel, hdelPlan, readFound_head henv, hhead, foundOr, error_bind,
      commit_error, answer]
    rfl
  | some map =>
    have hplan := hdelPlan_eq henv hholds rfl field
    simp only [HashModel.fields, getD_some, dropField]
    cases hget : map.get field with
    | none =>
      rw [hget] at hplan
      simp only [exec, hdel, hplan, commit_error, answer]
      rfl
    | some value =>
      rw [hget] at hplan
      simp only [exec, hdel, hplan, commit_ok henv hplain.leader, answer]

theorem hash_step (hkey : key.Valid) {op : HashOp} (hguard : op.guard key model) :
    ∃ reply writes, (op.call key).exec env engine =
        (reply, engine.withStore ((batchOf key writes).apply engine.db.store)) ∧
      op.allows model reply ∧
      HashHolds key ((slot engine.db.store key).applyAll writes) (op.next model) := by
  cases op with
  | hset field value =>
    exact ⟨_, _, answer_commit henv hplain.leader (hsetPlan_eq henv hplain hholds field value), rfl,
      hholds.putField hguard.1 hguard.2⟩
  | hmset values =>
    exact ⟨_, _, answer_commit henv hplain.leader (hmsetPlan_eq henv hplain hholds values), rfl,
      hholds.putFields hguard⟩
  | hdel field =>
    refine ⟨_, _, hdel_exec henv hplain hholds field, rfl, ?_⟩
    cases model with
    | none => exact hholds
    | some map => exact hholds.dropField field
  | hget field =>
    exact ⟨_, [], hget_exec henv hholds field, rfl, hholds⟩
  | hlen =>
    exact ⟨_, [], hlen_exec henv hholds, ⟨_, rfl, UInt32.toNat_ofNat_of_lt' hguard⟩, hholds⟩
  | hkeys =>
    obtain ⟨keys, hexec, hkeys⟩ := hkeys_exec henv hholds hkey
    exact ⟨_, [], hexec, ⟨keys, rfl, hkeys⟩, hholds⟩
  | hgetall =>
    exact ⟨_, [], hgetall_exec henv hholds hkey, rfl, hholds⟩
  | delkey =>
    obtain ⟨writes, hexec, hclear⟩ := delkey_clears henv hplain.leader (by decide)
      (fun _ => ⟨0, _, rfl⟩) hholds.head fun hnone => HashHolds.eq_absent (hnone ▸ hholds)
    exact ⟨_, writes, hexec, rfl, hclear ▸ hashHolds_absent key⟩

end

def hashKind : Kind HashOp HashModel where
  call := HashOp.call
  next := HashOp.next
  allows := HashOp.allows
  guard := fun key op model => op.guard key model
  holds := HashHolds
  step := fun henv hplain hkey hholds hguard => hash_step henv hplain hholds hkey hguard

/-- In every run of calls on the keys in `keys`, used only as hashes, each call
answers as the finite map of its key says. -/
theorem hash_refines_map (keys : LaserKey → Prop) (engine : RocksDbEngine) (hplain : engine.Plain)
    (hfresh : ∀ key, keys key → key.Valid → slot engine.db.store key = .absent)
    (inputs : List (Kind.Input HashOp))
    (hguarded : Simulation.Guarded hashKind.nextAll (hashKind.guardAll keys) inputs
      fun _ => none) :
    Simulation.Conforms hashKind.exec hashKind.nextAll hashKind.allowsAll inputs engine
      fun _ => none := by
  refine (hashKind.simulates keys).conforms ⟨hplain, ?_⟩ hguarded
  intro key hkeys hvalid
  rw [hfresh key hkeys hvalid]
  exact hashHolds_absent key

/-- A field is set, counted, read and deleted. -/
theorem hash_refines_map_example :
    let key : LaserKey := ⟨[[97]], []⟩
    let env := Env.at 1
    Simulation.Conforms hashKind.exec hashKind.nextAll hashKind.allowsAll
      [(env, key, .hset [102] [118]), (env, key, .hlen), (env, key, .hget [102]),
        (env, key, .delkey)]
      RocksDbEngine.fresh fun _ => none := by
  intro key env
  refine hash_refines_map (fun _ => True) RocksDbEngine.fresh RocksDbEngine.fresh_plain
    (fun key _ _ => slot_empty key) _ ⟨?_, ?_, ?_, ?_, trivial⟩
  · exact ⟨Env.at_healthy 1, trivial, by decide, by decide, by decide⟩
  · exact ⟨Env.at_healthy 1, trivial, by decide, by change (_ : Nat) < _; decide⟩
  · exact ⟨Env.at_healthy 1, trivial, by decide, trivial⟩
  · exact ⟨Env.at_healthy 1, trivial, by decide, trivial⟩

/-- A field of the key `["", "a"]` is read from the key `["a", ""]`. -/
theorem hash_empty_string_shared :
    ¬Simulation.Conforms hashKind.exec hashKind.nextAll hashKind.allowsAll
      [(Env.at 1, ⟨[[], [97]], []⟩, .hset [102] [118]), (Env.at 1, ⟨[[97], []], []⟩, .hget [102])]
      RocksDbEngine.fresh fun _ => none := by
  rintro ⟨-, hreply, -⟩
  change (_ : Reply) = _ at hreply
  exact absurd hreply (by decide)

end LaserDB
