import LaserDB.Engine.ReplicationDb

/-!
# Files of the batch load

The MapReduce job writes records of three lengths, a key and a value; `convertIngestFile` of
`server/engine/replication_db.cc` reads them back.
-/

namespace LaserDB

open List ByteCodec LaserValue ReplicationDB

/-- A Java array of bytes: its length is an `int`. -/
structure BytesWritable where
  bytes : Bytes
  fits : bytes.length < 2 ^ 31

structure FileRecord where
  kvLength : UInt32
  key : Bytes
  value : Bytes
  deriving DecidableEq, Repr

/-- The layout `| kv_length | key_length | key | value_length | value |`. -/
def FileRecord.bytes (record : FileRecord) : Bytes :=
  intBytes .big record.kvLength ++ (intBytes .big (UInt32.ofNat record.key.length) ++
    (record.key ++ (intBytes .big (UInt32.ofNat record.value.length) ++ record.value)))

/-- What `KeyValueBinaryRecordWriter.write` appends; the sum of an `int` wraps. -/
def recordWriterWrite (key value : BytesWritable) : Bytes :=
  FileRecord.bytes
    ⟨UInt32.ofNat key.bytes.length + UInt32.ofNat value.bytes.length + 8, key.bytes, value.bytes⟩

def writtenFile (records : List (BytesWritable × BytesWritable)) : Bytes :=
  records.flatMap fun record => recordWriterWrite record.1 record.2

structure SstFileWriter where
  entries : List (Bytes × Bytes)
  sorted : entries.Pairwise fun left right => left.1 < right.1

variable (writer : SstFileWriter)

namespace SstFileWriter

def new : SstFileWriter := ⟨[], List.Pairwise.nil⟩

/-- A key that is not greater than the last one, and so than all, is refused. -/
def put (writer : SstFileWriter) (key value : Bytes) : RocksDbStatus × SstFileWriter :=
  if hgreater : ∀ entry ∈ writer.entries, entry.1 < key then
    (.ok, ⟨writer.entries ++ [(key, value)], by
      rw [pairwise_append]
      refine ⟨writer.sorted, pairwise_singleton .., ?_⟩
      intro entry hentry other hother
      rw [mem_singleton.mp hother]
      exact hgreater entry hentry⟩)
  else (.fault .invalidArgument, writer)

theorem entries_put (key value : Bytes) :
    (writer.put key value).2.entries =
      if ∀ entry ∈ writer.entries, entry.1 < key then writer.entries ++ [(key, value)]
      else writer.entries := by
  unfold put
  by_cases hgreater : ∀ entry ∈ writer.entries, entry.1 < key
  · rw [dif_pos hgreater, if_pos hgreater]
  · rw [dif_neg hgreater, if_neg hgreater]

def finish (writer : SstFileWriter) (fault : Option RocksDbFault) : RocksDbStatus :=
  if writer.entries = [] then .fault .invalidArgument
  else
    match fault with
    | some fault => .fault fault
    | none => .ok

end SstFileWriter

/-- What a conversion meets outside: whether the SST file and the input can be opened, and what
finishing the SST file ends in. -/
structure ConvertEnv where
  openFault : Option RocksDbFault
  inputOpens : Bool
  finishFault : Option RocksDbFault

def ConvertEnv.healthy : ConvertEnv := ⟨none, true, none⟩

namespace ReplicationDB

def readInt (fin : Bytes) : Option (UInt32 × Bytes) :=
  if fin.length < 4 then none else some (intOfBytes UInt32 .big (fin.take 4), fin.drop 4)

def readString (kvLen : UInt32) (fin : Bytes) : Option (UInt32 × Bytes × Bytes) :=
  match readInt fin with
  | none => none
  | some (length, fin) =>
    if length > kvLen then none
    else if fin.length < length.toNat then none
    else some (length, fin.take length.toNat, fin.drop length.toNat)

def ingestEntry (key value : Bytes) : Bytes × Bytes :=
  (key, rawData (LaserValueRawString.ofValue value))

/-- The `do … while` loop.  A round reads twelve bytes at least, so the length of the file is
enough fuel. -/
def convertLoop (length : Nat) :
    Nat → Nat → Bytes → SstFileWriter → Except Status SstFileWriter
  | 0, _, _, _ => .error .RS_ERROR
  | fuel + 1, offset, fin, writer =>
    match readInt fin with
    | none => .error .RS_ERROR
    | some (kvLen, fin) =>
      let offset := offset + 4
      if kvLen.toNat + offset > length then .error .RS_ERROR
      else
        match readString kvLen fin with
        | none => .error .RS_ERROR
        | some (keyLen, key, fin) =>
          let offset := offset + 4 + keyLen.toNat
          match readString kvLen fin with
          | none => .error .RS_ERROR
          | some (valLen, value, fin) =>
            let offset := offset + 4 + valLen.toNat
            let (sliceKey, sliceValue) := ingestEntry key value
            let writer := (writer.put sliceKey sliceValue).2
            if offset < length then convertLoop length fuel offset fin writer
            else .ok writer

/-- `"EMPTY_TABLE_KEY"` -/
def emptyTableKey : Bytes :=
  [69, 77, 80, 84, 89, 95, 84, 65, 66, 76, 69, 95, 75, 69, 89]

/-- `"EMPTY_TABLE_VALUE"` -/
def emptyTableValue : Bytes :=
  [69, 77, 80, 84, 89, 95, 84, 65, 66, 76, 69, 95, 86, 65, 76, 85, 69]

def convertIngestFile (env : ConvertEnv) (ingestFile : Bytes) : Status × SstFileWriter :=
  match env.openFault with
  | some fault => (convertRocksDbStatus (.fault fault), .new)
  | none =>
    if env.inputOpens then
      if ingestFile.length = 0 then
        let entry := ingestEntry emptyTableKey emptyTableValue
        let writer := (SstFileWriter.new.put entry.1 entry.2).2
        (if writer.finish env.finishFault = .ok then .OK else .RS_ERROR, writer)
      else
        match convertLoop ingestFile.length ingestFile.length 0 ingestFile .new with
        | .error status => (status, .new)
        | .ok writer =>
          (if writer.finish env.finishFault = .ok then .OK else .RS_ERROR, writer)
    else (.RS_ERROR, .new)

end ReplicationDB

open ReplicationDB (convertIngestFile ingestEntry convertLoop)

variable {record : FileRecord}

open UInt32 (ofNat toNat toNat_ofNat_of_lt')

variable {left right : FileRecord}

namespace FileRecord

def Fits (record : FileRecord) : Prop :=
  record.key.length ≤ record.kvLength.toNat ∧ record.value.length ≤ record.kvLength.toNat

def WellFormed (record : FileRecord) : Prop :=
  record.kvLength.toNat = 8 + record.key.length + record.value.length

theorem length_bytes (record : FileRecord) :
    record.bytes.length = 12 + record.key.length + record.value.length := by
  simp only [bytes, length_append, intBytes_length]
  change 4 + (4 + (_ + (4 + _))) = _
  omega

theorem WellFormed.fits (hformed : record.WellFormed) : record.Fits := by
  unfold WellFormed at hformed
  constructor <;> omega

def Small (record : FileRecord) : Prop :=
  record.key.length < 2 ^ 32 ∧ record.value.length < 2 ^ 32

theorem Fits.small (hfits : record.Fits) : record.Small := by
  have hlt := record.kvLength.toNat_lt
  exact ⟨hfits.1.trans_lt hlt, hfits.2.trans_lt hlt⟩

theorem ofNat_inj {left right : Nat} (hleft : left < 2 ^ 32) (hright : right < 2 ^ 32)
    (heq : ofNat left = ofNat right) : left = right := by
  have hnat := congrArg toNat heq
  rwa [toNat_ofNat_of_lt' hleft, toNat_ofNat_of_lt' hright] at hnat

theorem bytes_append_inj (hleft : left.Small) (hright : right.Small) {rest rest' : Bytes}
    (heq : left.bytes ++ rest = right.bytes ++ rest') : left = right ∧ rest = rest' := by
  simp only [bytes, append_assoc] at heq
  obtain ⟨hkv, heq⟩ := append_inj heq (by simp only [intBytes_length])
  obtain ⟨hkeyLength, heq⟩ := append_inj heq (by simp only [intBytes_length])
  obtain ⟨hkey, heq⟩ := append_inj heq
    (ofNat_inj hleft.1 hright.1 (intBytes_injective .big hkeyLength))
  obtain ⟨hvalueLength, heq⟩ := append_inj heq (by simp only [intBytes_length])
  obtain ⟨hvalue, hrest⟩ := append_inj heq
    (ofNat_inj hleft.2 hright.2 (intBytes_injective .big hvalueLength))
  refine ⟨?_, hrest⟩
  cases left
  cases right
  cases intBytes_injective .big hkv
  cases hkey
  cases hvalue
  rfl

end FileRecord

inductive Accepted : Bytes → List FileRecord → Prop
  | nil : Accepted [] []
  | cons {record : FileRecord} {rest : Bytes} {records : List FileRecord} (hfits : record.Fits)
      (hinside : record.kvLength.toNat + 4 ≤ (record.bytes ++ rest).length)
      (hrest : Accepted rest records) : Accepted (record.bytes ++ rest) (record :: records)

variable {records : List FileRecord} {file : Bytes}

namespace Accepted

theorem eq_flatMap (haccepted : Accepted file records) :
    file = records.flatMap FileRecord.bytes := by
  induction haccepted with
  | nil => rfl
  | cons _ _ _ ih => rw [flatMap_cons, ← ih]

theorem fits (haccepted : Accepted file records) : ∀ record ∈ records, record.Fits := by
  induction haccepted with
  | nil => nofun
  | cons hfits _ _ ih =>
    intro record hrecord
    rcases mem_cons.mp hrecord with rfl | hrest
    · exact hfits
    · exact ih record hrest

theorem unique {records others : List FileRecord} (haccepted : Accepted file records)
    (hothers : ∀ other ∈ others, other.Small) (hfile : file = others.flatMap FileRecord.bytes) :
    records = others := by
  induction haccepted generalizing others with
  | nil =>
    cases others with
    | nil => rfl
    | cons other others =>
      have hlength := congrArg length hfile
      rw [flatMap_cons, length_append, other.length_bytes, length_nil] at hlength
      omega
  | @cons record rest records hfits hinside hrest ih =>
    cases others with
    | nil =>
      have hlength := congrArg length hfile
      rw [length_append, record.length_bytes, flatMap_nil, length_nil] at hlength
      omega
    | cons other others =>
      rw [flatMap_cons] at hfile
      obtain ⟨rfl, htail⟩ := FileRecord.bytes_append_inj hfits.small
        (hothers other mem_cons_self) hfile
      rw [ih (fun other hother => hothers other (mem_cons_of_mem _ hother)) htail]

theorem of_wellFormed (hformed : ∀ record ∈ records, record.WellFormed) :
    Accepted (records.flatMap FileRecord.bytes) records := by
  induction records with
  | nil => exact .nil
  | cons record records ih =>
    have hrecord : record.WellFormed := hformed record mem_cons_self
    refine .cons hrecord.fits ?_ (ih fun other hother => hformed other (mem_cons_of_mem _ hother))
    rw [length_append, record.length_bytes]
    unfold FileRecord.WellFormed at hrecord
    omega

end Accepted

theorem readInt_append (value : UInt32) (rest : Bytes) :
    readInt (intBytes .big value ++ rest) = some (value, rest) := by
  have hlength : (intBytes .big value).length = 4 := intBytes_length .big value
  rw [readInt, if_neg (by rw [length_append, hlength]; omega),
    take_left' hlength, drop_left' hlength, intOfBytes_intBytes]

theorem readInt_eq_some {fin rest : Bytes} {value : UInt32}
    (hread : readInt fin = some (value, rest)) : fin = intBytes .big value ++ rest := by
  unfold readInt at hread
  split at hread
  · cases hread
  · rename_i hlong
    cases hread
    have hwidth : (fin.take 4).length = FixedWidth.width UInt32 := by
      rw [length_take]
      change min 4 fin.length = 4
      omega
    rw [intBytes_intOfBytes .big hwidth, take_append_drop]

theorem readString_append {kvLen : UInt32} {text : Bytes} (hfits : text.length ≤ kvLen.toNat)
    (rest : Bytes) :
    readString kvLen
        (intBytes .big (ofNat text.length) ++ (text ++ rest)) =
      some (ofNat text.length, text, rest) := by
  have hlength : (ofNat text.length).toNat = text.length :=
    toNat_ofNat_of_lt' (hfits.trans_lt kvLen.toNat_lt)
  have hle : ¬ofNat text.length > kvLen := by
    rw [gt_iff_lt, UInt32.lt_iff_toNat_lt, hlength]
    omega
  simp only [readString, readInt_append, if_neg hle, hlength]
  rw [if_neg (by rw [length_append]; omega), take_left, drop_left]

theorem readString_eq_some {kvLen length : UInt32} {fin text rest : Bytes}
    (hread : readString kvLen fin = some (length, text, rest)) :
    fin = intBytes .big (ofNat text.length) ++ (text ++ rest) ∧
      length.toNat = text.length ∧ text.length ≤ kvLen.toNat := by
  unfold readString at hread
  split at hread
  · cases hread
  · rename_i found tail hint
    split at hread
    · cases hread
    · rename_i hle
      split at hread
      · cases hread
      · rename_i hlong
        cases hread
        have htext : (tail.take length.toNat).length = length.toNat := by
          rw [length_take]
          omega
        refine ⟨?_, htext.symm, ?_⟩
        · rw [htext, UInt32.ofNat_toNat, take_append_drop]
          exact readInt_eq_some hint
        · rw [htext]
          rwa [gt_iff_lt, UInt32.lt_iff_toNat_lt, not_lt] at hle

/-- What the SST writer holds after a record; the status of `Put` is not looked at. -/
def putRecord (writer : SstFileWriter) (record : FileRecord) : SstFileWriter :=
  (writer.put (ingestEntry record.key record.value).1
    (ingestEntry record.key record.value).2).2

theorem convertLoop_cons (hfits : record.Fits) {rest : Bytes} {length offset : Nat}
    (hinside : record.kvLength.toNat + (offset + 4) ≤ length) (fuel : Nat)
    (writer : SstFileWriter) :
    convertLoop length (fuel + 1) offset (record.bytes ++ rest) writer =
      if offset + record.bytes.length < length then
        convertLoop length fuel (offset + record.bytes.length) rest
          (putRecord writer record)
      else .ok (putRecord writer record) := by
  have hkeyLength : (ofNat record.key.length).toNat = record.key.length :=
    toNat_ofNat_of_lt' hfits.small.1
  have hvalueLength : (ofNat record.value.length).toNat = record.value.length :=
    toNat_ofNat_of_lt' hfits.small.2
  have hoffset : offset + 4 + 4 + record.key.length + 4 + record.value.length =
      offset + record.bytes.length := by
    rw [record.length_bytes]
    omega
  simp only [convertLoop, FileRecord.bytes, append_assoc, readInt_append,
    if_neg (not_lt.mpr hinside), gt_iff_lt, readString_append hfits.1, readString_append hfits.2,
    hkeyLength, hvalueLength]
  rw [hoffset]
  rfl

variable {length fuel offset : Nat}

theorem exists_record_of_ok {fin : Bytes} {writer writer' : SstFileWriter}
    (hloop : convertLoop length fuel offset fin writer = .ok writer') :
    ∃ (record : FileRecord) (rest : Bytes), fin = record.bytes ++ rest ∧ record.Fits ∧
      record.kvLength.toNat + (offset + 4) ≤ length := by
  cases fuel with
  | zero => cases hloop
  | succ fuel =>
    unfold convertLoop at hloop
    split at hloop
    · cases hloop
    · rename_i kvLen afterKv hkv
      dsimp only at hloop
      split at hloop
      · cases hloop
      · rename_i hinside
        split at hloop
        · cases hloop
        · rename_i keyLen key afterKey hkey
          split at hloop
          · cases hloop
          · rename_i valLen value afterValue hvalue
            obtain ⟨hkeyBytes, -, hkeyFits⟩ := readString_eq_some hkey
            obtain ⟨hvalueBytes, -, hvalueFits⟩ := readString_eq_some hvalue
            refine ⟨⟨kvLen, key, value⟩, afterValue, ?_, ⟨hkeyFits, hvalueFits⟩, not_lt.mp hinside⟩
            rw [readInt_eq_some hkv, hkeyBytes, hvalueBytes]
            simp only [FileRecord.bytes, append_assoc]

theorem convertLoop_ne_ok (length fuel offset : Nat) (fin : Bytes) (writer : SstFileWriter) :
    convertLoop length fuel offset fin writer ≠ .error .OK := by
  induction fuel generalizing offset fin writer with
  | zero => nofun
  | succ fuel ih =>
    intro hloop
    simp only [convertLoop] at hloop
    repeat' split at hloop
    all_goals first | cases hloop | exact ih _ _ _ hloop

theorem convertLoop_eq_ok_iff {fin : Bytes} (hfin : fin ≠ [])
    (hlength : offset + fin.length = length) (hfuel : fin.length ≤ fuel)
    {writer writer' : SstFileWriter} :
    convertLoop length fuel offset fin writer = .ok writer' ↔
      ∃ records, Accepted fin records ∧ writer' = records.foldl putRecord writer := by
  induction fuel generalizing offset fin writer with
  | zero =>
    have hnil : fin = [] := eq_nil_of_length_eq_zero (Nat.le_zero.mp hfuel)
    exact absurd hnil hfin
  | succ fuel ih =>
    constructor
    · intro hloop
      obtain ⟨record, rest, rfl, hfits, hinside⟩ := exists_record_of_ok hloop
      rw [convertLoop_cons hfits hinside] at hloop
      have hinside' : record.kvLength.toNat + 4 ≤ (record.bytes ++ rest).length := by omega
      have hsize := record.length_bytes
      rw [length_append] at hlength hfuel
      split at hloop
      · have hrest : rest ≠ [] := by
          rintro rfl
          rw [length_nil] at hlength
          omega
        obtain ⟨records, haccepted, rfl⟩ := (ih hrest (by omega) (by omega)).mp hloop
        exact ⟨record :: records, .cons hfits hinside' haccepted, rfl⟩
      · have hrest : rest = [] := eq_nil_of_length_eq_zero (by omega)
        subst hrest
        cases hloop
        exact ⟨[record], .cons hfits hinside' .nil, rfl⟩
    · rintro ⟨records, haccepted, rfl⟩
      cases haccepted with
      | nil => exact absurd rfl hfin
      | @cons record rest records hfits hinside hrest =>
        rw [convertLoop_cons hfits (by omega)]
        have hsize := record.length_bytes
        rw [length_append] at hlength hfuel
        cases hrest with
        | nil =>
          rw [length_nil] at hlength
          rw [if_neg (by omega)]
          rfl
        | @cons next tail records hnext hnextInside htail =>
          have hne : next.bytes ++ tail ≠ [] := by
            intro hnil
            have hzero := congrArg List.length hnil
            rw [length_append, next.length_bytes, length_nil] at hzero
            omega
          have hpos : 0 < (next.bytes ++ tail).length := length_pos_of_ne_nil hne
          rw [if_pos (by omega)]
          exact (ih hne (by omega) (by omega)).mpr
            ⟨next :: records, .cons hnext hnextInside htail, rfl⟩

def FileRecord.entry (record : FileRecord) : Bytes × Bytes :=
  ingestEntry record.key record.value

/-- Each record has a greater key than all before it, or repeats one of them. -/
def Ascending (records : List FileRecord) : Prop :=
  ∀ before record after, records = before ++ record :: after →
    (∀ other ∈ before, other.key < record.key) ∨
      ∃ other ∈ before, other.key = record.key ∧ other.value = record.value

variable {writer : SstFileWriter}

theorem FileRecord.entry_eq_iff :
    left.entry = right.entry ↔ left.key = right.key ∧ left.value = right.value := by
  simp only [FileRecord.entry, ingestEntry, rawData_rawString,
    rawString_ofValue_rawData, rawStringBytes, Prod.mk.injEq, append_cancel_left_eq,
    packedString_injective.eq_iff]

theorem entries_putRecord (record : FileRecord) :
    (putRecord writer record).entries =
      if ∀ entry ∈ writer.entries, entry.1 < record.key then writer.entries ++ [record.entry]
      else writer.entries := by
  exact writer.entries_put record.key _

/-- What the writer holds comes from the records, and no key of a record is above it. -/
private structure HoldsRecords (writer : SstFileWriter) (records : List FileRecord) : Prop where
  from_records : ∀ entry ∈ writer.entries, ∃ record ∈ records, record.entry = entry
  above : ∀ record ∈ records, ∃ entry ∈ writer.entries, record.key ≤ entry.1

theorem HoldsRecords.greater_iff (hholds : HoldsRecords writer records) (key : Bytes) :
    (∀ entry ∈ writer.entries, entry.1 < key) ↔ ∀ record ∈ records, record.key < key := by
  constructor
  · intro hentries record hrecord
    obtain ⟨entry, hentry, hle⟩ := hholds.above record hrecord
    exact hle.trans_lt (hentries entry hentry)
  · intro hrecords entry hentry
    obtain ⟨record, hrecord, rfl⟩ := hholds.from_records entry hentry
    exact hrecords record hrecord

theorem holds_foldl (records : List FileRecord) :
    HoldsRecords (records.foldl putRecord .new) records := by
  induction records using reverseRecOn with
  | nil => exact ⟨nofun, nofun⟩
  | append_singleton before record ih =>
    rw [foldl_append, foldl_cons, foldl_nil]
    constructor
    · intro entry hentry
      rw [entries_putRecord] at hentry
      split at hentry
      · rcases mem_append.mp hentry with hold | hnew
        · obtain ⟨other, hother, heq⟩ := ih.from_records entry hold
          exact ⟨other, mem_append_left _ hother, heq⟩
        · exact ⟨record, by simp, (mem_singleton.mp hnew).symm⟩
      · obtain ⟨other, hother, heq⟩ := ih.from_records entry hentry
        exact ⟨other, mem_append_left _ hother, heq⟩
    · intro other hother
      rw [entries_putRecord]
      split
      · rcases mem_append.mp hother with hold | hnew
        · obtain ⟨entry, hentry, hle⟩ := ih.above other hold
          exact ⟨entry, mem_append_left _ hentry, hle⟩
        · rw [mem_singleton.mp hnew]
          exact ⟨record.entry, by simp, le_refl _⟩
      · rename_i hnot
        rcases mem_append.mp hother with hold | hnew
        · exact ih.above other hold
        · rw [mem_singleton.mp hnew]
          push Not at hnot
          exact hnot

theorem ascending_append_singleton {before : List FileRecord} :
    Ascending (before ++ [record]) ↔ Ascending before ∧
      ((∀ other ∈ before, other.key < record.key) ∨
        ∃ other ∈ before, other.key = record.key ∧ other.value = record.value) := by
  constructor
  · intro hascending
    refine ⟨fun pre middle post heq => ?_, hascending before record [] rfl⟩
    exact hascending pre middle (post ++ [record]) (by rw [heq]; simp)
  · rintro ⟨hbefore, hlast⟩ pre middle post heq
    rcases eq_nil_or_concat post with rfl | ⟨post, last, rfl⟩
    · obtain ⟨rfl, hsingle⟩ := append_inj' heq rfl
      cases hsingle
      exact hlast
    · rw [concat_eq_append, ← cons_append, ← append_assoc] at heq
      obtain ⟨rfl, -⟩ := append_inj' heq rfl
      exact hbefore pre middle post rfl

theorem forall_mem_foldl_iff (records : List FileRecord) :
    (∀ record ∈ records, record.entry ∈ (records.foldl putRecord .new).entries) ↔
      Ascending records := by
  induction records using reverseRecOn with
  | nil => exact iff_of_true nofun fun before record after heq => by simp at heq
  | append_singleton before record ih =>
    have hholds := holds_foldl before
    rw [ascending_append_singleton, ← ih, foldl_append, foldl_cons, foldl_nil, entries_putRecord]
    by_cases hgreater : ∀ entry ∈ (before.foldl putRecord .new).entries, entry.1 < record.key
    · have hkeys := (hholds.greater_iff record.key).mp hgreater
      rw [if_pos hgreater]
      constructor
      · intro hall
        refine ⟨fun other hother => ?_, .inl hkeys⟩
        rcases mem_append.mp (hall other (mem_append_left _ hother)) with hmem | hmem
        · exact hmem
        · have hkey := (FileRecord.entry_eq_iff.mp (mem_singleton.mp hmem)).1
          exact absurd (hkeys other hother) (hkey ▸ lt_irrefl _)
      · rintro ⟨hall, -⟩ other hother
        rcases mem_append.mp hother with hold | hnew
        · exact mem_append_left _ (hall other hold)
        · rw [mem_singleton.mp hnew]
          exact mem_append_right _ (mem_singleton_self _)
    · have hnotKeys : ¬∀ other ∈ before, other.key < record.key :=
        fun hkeys => hgreater ((hholds.greater_iff record.key).mpr hkeys)
      rw [if_neg hgreater]
      constructor
      · intro hall
        refine ⟨fun other hother => hall other (mem_append_left _ hother), .inr ?_⟩
        obtain ⟨other, hother, heq⟩ := hholds.from_records record.entry (hall record (by simp))
        exact ⟨other, hother, FileRecord.entry_eq_iff.mp heq⟩
      · rintro ⟨hall, hlast⟩ other hother
        rcases mem_append.mp hother with hold | hnew
        · exact hall other hold
        · obtain ⟨same, hsame, heq⟩ := hlast.resolve_left hnotKeys
          rw [mem_singleton.mp hnew, ← FileRecord.entry_eq_iff.mpr heq]
          exact hall same hsame

theorem entries_foldl (hsorted : records.Pairwise fun left right => left.key < right.key)
    (writer : SstFileWriter)
    (habove : ∀ entry ∈ writer.entries, ∀ record ∈ records, entry.1 < record.key) :
    (records.foldl putRecord writer).entries = writer.entries ++ records.map FileRecord.entry := by
  induction records generalizing writer with
  | nil => simp
  | cons record records ih =>
    obtain ⟨hfirst, hrest⟩ := pairwise_cons.mp hsorted
    have hput : (putRecord writer record).entries = writer.entries ++ [record.entry] := by
      rw [entries_putRecord, if_pos fun entry hentry => habove entry hentry record (by simp)]
    rw [foldl_cons, ih hrest, hput, map_cons, append_assoc, singleton_append]
    intro entry hentry other hother
    rw [hput] at hentry
    rcases mem_append.mp hentry with hold | hnew
    · exact habove entry hold other (mem_cons_of_mem _ hother)
    · rw [mem_singleton.mp hnew]
      exact hfirst other hother

theorem finish_of_ne_nil (hne : writer.entries ≠ []) : writer.finish none = .ok := by
  rw [SstFileWriter.finish, if_neg hne]

theorem foldl_entries_ne_nil (hne : records ≠ []) :
    (records.foldl putRecord .new).entries ≠ [] := by
  obtain ⟨record, rest, rfl⟩ := exists_cons_of_ne_nil hne
  obtain ⟨entry, hentry, -⟩ := (holds_foldl (record :: rest)).above record mem_cons_self
  exact ne_nil_of_mem hentry

theorem convertIngestFile_nil :
    convertIngestFile .healthy [] = (.OK, (SstFileWriter.new.put emptyTableKey
        (rawData (LaserValueRawString.ofValue emptyTableValue))).2) := by
  rfl

theorem convertIngestFile_ok_iff (hfile : file ≠ []) :
    convertIngestFile .healthy file = (.OK, writer) ↔
      ∃ records, Accepted file records ∧ writer = records.foldl putRecord .new := by
  have hlength : file.length ≠ 0 := by simpa using hfile
  have hloop := @convertLoop_eq_ok_iff file.length file.length 0 file hfile (by omega) le_rfl .new
  simp only [convertIngestFile, ConvertEnv.healthy, ↓reduceIte, if_neg hlength]
  cases hresult : convertLoop file.length file.length 0 file .new with
  | error status =>
    constructor
    · intro heq
      cases heq
      exact absurd hresult (convertLoop_ne_ok file.length file.length 0 file .new)
    · intro hrecords
      cases hresult.symm.trans (hloop.mpr hrecords)
  | ok found =>
    obtain ⟨records, haccepted, rfl⟩ := hloop.mp hresult
    have hfinish : (records.foldl putRecord .new).finish none = .ok := by
      refine finish_of_ne_nil (foldl_entries_ne_nil ?_)
      rintro rfl
      exact hfile haccepted.eq_flatMap
    simp only [hfinish, ↓reduceIte, Prod.mk.injEq, true_and]
    constructor
    · rintro rfl
      exact ⟨records, haccepted, rfl⟩
    · rintro ⟨others, hothers, rfl⟩
      rw [haccepted.unique (fun other hother => (hothers.fits other hother).small)
        hothers.eq_flatMap]

theorem healthy_of_convertIngestFile_ok {env : ConvertEnv}
    (hok : (convertIngestFile env file).1 = .OK) : env = .healthy := by
  obtain ⟨openFault, inputOpens, finishFault⟩ := env
  have hfinish (writer : SstFileWriter) (fault : RocksDbFault) :
      ¬writer.finish (some fault) = .ok := by
    unfold SstFileWriter.finish
    split <;> nofun
  cases openFault with
  | some fault => cases fault <;> cases hok
  | none =>
    cases inputOpens with
    | false => cases hok
    | true =>
      cases finishFault with
      | none => rfl
      | some fault =>
        simp only [convertIngestFile, ↓reduceIte, if_neg (hfinish _ _)] at hok
        split at hok
        · cases hok
        · split at hok
          · rename_i status hloop
            cases hok
            exact (convertLoop_ne_ok _ _ _ _ _ hloop).elim
          · cases hok

private def fileRecordOf (pair : BytesWritable × BytesWritable) : FileRecord :=
  ⟨UInt32.ofNat pair.1.bytes.length + UInt32.ofNat pair.2.bytes.length + 8, pair.1.bytes,
    pair.2.bytes⟩

theorem writtenFile_eq (records : List (BytesWritable × BytesWritable)) :
    writtenFile records = (records.map fileRecordOf).flatMap FileRecord.bytes := by
  rw [flatMap_map]
  rfl

section
variable (pair : BytesWritable × BytesWritable)

theorem fileRecordOf_small : (fileRecordOf pair).Small := by
  have hkey := pair.1.fits
  have hvalue := pair.2.fits
  constructor
  · change pair.1.bytes.length < 2 ^ 32
    omega
  · change pair.2.bytes.length < 2 ^ 32
    omega

theorem recordOf_kvLength :
    (fileRecordOf pair).kvLength.toNat =
      (pair.1.bytes.length + pair.2.bytes.length + 8) % 2 ^ 32 := by
  have hkey := pair.1.fits
  have hvalue := pair.2.fits
  simp only [fileRecordOf, UInt32.toNat_add, UInt32.toNat_ofNat']
  rw [show (8 : UInt32).toNat = 8 from rfl]
  omega

theorem recordOf_fits_iff :
    (fileRecordOf pair).Fits ↔ pair.1.bytes.length + pair.2.bytes.length + 8 < 2 ^ 32 := by
  have hkey := pair.1.fits
  have hvalue := pair.2.fits
  rw [FileRecord.Fits, recordOf_kvLength]
  change pair.1.bytes.length ≤ _ ∧ pair.2.bytes.length ≤ _ ↔ _
  omega

end

theorem recordOf_wellFormed {pair : BytesWritable × BytesWritable}
    (hsmall : pair.1.bytes.length + pair.2.bytes.length + 8 < 2 ^ 32) :
    (fileRecordOf pair).WellFormed := by
  rw [FileRecord.WellFormed, recordOf_kvLength, Nat.mod_eq_of_lt hsmall]
  change _ = 8 + pair.1.bytes.length + pair.2.bytes.length
  omega

theorem flatMap_bytes_ne_nil (hne : records ≠ []) :
    records.flatMap FileRecord.bytes ≠ [] := by
  obtain ⟨record, rest, rfl⟩ := exists_cons_of_ne_nil hne
  intro hnil
  have hlength := congrArg length hnil
  rw [flatMap_cons, length_append, record.length_bytes, length_nil] at hlength
  omega

def ReplicationDB.ConvertedWhole (file : Bytes) (writer : SstFileWriter) : Prop :=
  ∃ records : List FileRecord, file = records.flatMap FileRecord.bytes ∧
    (∀ record ∈ records, record.WellFormed) ∧ ∀ record ∈ records, record.entry ∈ writer.entries

theorem convert_whole_iff (env : ConvertEnv) (file : Bytes) :
    ((convertIngestFile env file).1 = .OK →
        ReplicationDB.ConvertedWhole file (convertIngestFile env file).2) ↔
      (env = .healthy → ∀ records, Accepted file records →
        (∀ record ∈ records, record.WellFormed) ∧ Ascending records) := by
  by_cases henv : env = .healthy
  swap
  · exact iff_of_true (fun hok => absurd (healthy_of_convertIngestFile_ok hok) henv)
      fun h => absurd h henv
  subst henv
  simp only [true_implies]
  by_cases hfile : file = []
  · subst hfile
    refine iff_of_true (fun _ => ⟨[], rfl, nofun, nofun⟩) fun records haccepted => ?_
    cases @Accepted.unique [] records [] haccepted nofun rfl
    exact ⟨nofun, fun before record after heq => by simp at heq⟩
  constructor
  · intro hwhole records haccepted
    have hconvert := (convertIngestFile_ok_iff hfile).mpr ⟨records, haccepted, rfl⟩
    rw [hconvert] at hwhole
    obtain ⟨others, hothers, hformed, hmem⟩ := hwhole rfl
    obtain rfl : records = others :=
      haccepted.unique (fun other hother => (hformed other hother).fits.small) hothers
    exact ⟨hformed, (forall_mem_foldl_iff records).mp hmem⟩
  · intro hsound hok
    have hpair : convertIngestFile .healthy file =
        (.OK, (convertIngestFile .healthy file).2) := Prod.ext hok rfl
    obtain ⟨records, haccepted, hwriter⟩ := (convertIngestFile_ok_iff hfile).mp hpair
    obtain ⟨hformed, hascending⟩ := hsound records haccepted
    rw [hwriter]
    exact ⟨records, haccepted.eq_flatMap, hformed, (forall_mem_foldl_iff records).mpr hascending⟩

/-- Round trip and validation hold exactly for files with a record and lengths that do not wrap,
and for files whose records say their lengths and ascend. -/
theorem ingestFile_iff {records : List (BytesWritable × BytesWritable)}
    (hsorted : records.Pairwise fun left right => left.1.bytes < right.1.bytes) (env : ConvertEnv)
    (file : Bytes) :
    ((∃ writer, convertIngestFile .healthy (writtenFile records) = (.OK, writer) ∧ writer.entries =
            records.map fun record => ingestEntry record.1.bytes record.2.bytes) ↔
        records ≠ [] ∧
          ∀ record ∈ records, record.1.bytes.length + record.2.bytes.length + 8 < 2 ^ 32) ∧
      (((convertIngestFile env file).1 = .OK →
          ReplicationDB.ConvertedWhole file (convertIngestFile env file).2) ↔
        (env = .healthy → ∀ records, Accepted file records →
          (∀ record ∈ records, record.WellFormed) ∧ Ascending records)) := by
  refine ⟨?_, convert_whole_iff env file⟩
  by_cases hnil : records = []
  · subst hnil
    refine iff_of_false ?_ (by simp)
    rintro ⟨writer, hconvert, hentries⟩
    rw [show writtenFile [] = [] from rfl, convertIngestFile_nil] at hconvert
    cases hconvert
    cases hentries
  · have hmap : records.map fileRecordOf ≠ [] := by simpa using hnil
    have hentries : ((records.map fileRecordOf).foldl putRecord .new).entries =
        records.map fun record => ingestEntry record.1.bytes record.2.bytes := by
      rw [entries_foldl (pairwise_map.mpr hsorted) .new nofun, map_map]
      rfl
    rw [writtenFile_eq]
    constructor
    · rintro ⟨writer, hconvert, -⟩
      obtain ⟨found, haccepted, -⟩ :=
        (convertIngestFile_ok_iff (flatMap_bytes_ne_nil hmap)).mp hconvert
      obtain rfl : found = records.map fileRecordOf := haccepted.unique
        (forall_mem_map.mpr fun pair _ => fileRecordOf_small pair) rfl
      exact ⟨hnil, fun pair hpair => (recordOf_fits_iff pair).mp
        (haccepted.fits _ (mem_map_of_mem hpair))⟩
    · rintro ⟨-, hsmall⟩
      refine ⟨_, (convertIngestFile_ok_iff (flatMap_bytes_ne_nil hmap)).mpr
        ⟨_, .of_wellFormed ?_, rfl⟩, hentries⟩
      exact forall_mem_map.mpr fun pair hpair => recordOf_wellFormed (hsmall pair hpair)

theorem ingestFile_two :
    let records : List (BytesWritable × BytesWritable) :=
      [(⟨[1], by decide⟩, ⟨[2], by decide⟩), (⟨[1, 0], by decide⟩, ⟨[], by decide⟩)]
    ∃ writer, convertIngestFile .healthy (writtenFile records) = (.OK, writer) ∧
      writer.entries = [ingestEntry [1] [2], ingestEntry [1, 0] []] :=
  (ingestFile_iff (pairwise_pair.mpr (by decide)) .healthy []).1.mpr
    ⟨cons_ne_nil _ _, by simp⟩

theorem accepted_short : Accepted (FileRecord.bytes ⟨1, [1], [2]⟩) [⟨1, [1], [2]⟩] := by
  have haccepted := @Accepted.cons ⟨1, [1], [2]⟩ [] [] ⟨le_rfl, le_rfl⟩ (by decide) .nil
  rwa [append_nil] at haccepted

/-- A length that is too small is taken, of two records in falling order the second is lost, and
a file without records gives the entry of an empty table. -/
theorem ingestFile_unsound :
    ((convertIngestFile .healthy (FileRecord.bytes ⟨1, [1], [2]⟩)).1 = .OK ∧
        ¬ReplicationDB.ConvertedWhole (FileRecord.bytes ⟨1, [1], [2]⟩)
          (convertIngestFile .healthy (FileRecord.bytes ⟨1, [1], [2]⟩)).2) ∧
      (convertIngestFile .healthy
          (writtenFile [(⟨[2], by decide⟩, ⟨[7], by decide⟩), (⟨[1], by decide⟩, ⟨[8], by decide⟩)])
        ).1 = .OK ∧
      (convertIngestFile .healthy
          (writtenFile [(⟨[2], by decide⟩, ⟨[7], by decide⟩), (⟨[1], by decide⟩, ⟨[8], by decide⟩)])
        ).2.entries = [ingestEntry [2] [7]] ∧
      (convertIngestFile .healthy (writtenFile [])).2.entries ≠ [] := by
  refine ⟨⟨by decide, fun hwhole => ?_⟩, by decide, by decide, by decide⟩
  have hformed := ((convert_whole_iff .healthy _).mp (fun _ => hwhole) rfl _ accepted_short).1
  exact absurd (hformed _ mem_cons_self) (by unfold FileRecord.WellFormed; decide)

end LaserDB
