import LaserDB.Ingest.CityHash
import LaserDB.Ingest.JavaKey

/-!
# The partition of a key

The job, the server and the Go client hash the primary key, the database and the table with
CityHash; the job takes the number of characters of each for the number of its bytes.
-/

namespace LaserDB

open ByteCodec List

/-- `Math.abs`, `std::abs` and `abs` of the Go client: the least number has no opposite. -/
def longAbs (value : Int64) : Int64 := if value < 0 then -value else value

def TransformJob.getPartitionId (dbname tablename primaryKey : JavaString)
    (partitionNumber : Int32) : Int32 :=
  let hash := CityHash.cityHash64WithSeed primaryKey.getBytes 0 primaryKey.length 0
  let hash := CityHash.cityHash64WithSeed dbname.getBytes 0 dbname.length hash
  let hash := CityHash.cityHash64WithSeed tablename.getBytes 0 tablename.length hash
  (longAbs hash % partitionNumber.toInt64).toInt32

/-- `LaserKeyFormatBase::getKeyHash`, and `GetKeyHash` of the Go client. -/
def getKeyHash (primaryKeys : List Bytes) : UInt64 :=
  primaryKeys.foldl (fun result key => CityHash.reference key result) 0

/-- The hash of a key in a table, before its absolute value is taken. -/
def tableKeyHash (databaseName tableName : Bytes) (primaryKeys : List Bytes) : Int64 :=
  (CityHash.reference tableName
    (CityHash.reference databaseName (getKeyHash primaryKeys))).toInt64

/-- `PartitionManager::getPartitionId`; the number of partitions becomes an `int64_t`. -/
def PartitionManager.getPartitionId (databaseName tableName : Bytes) (formatKey : LaserKeyFormatBase)
    (partitionNumber : UInt32) : UInt32 :=
  let key := tableKeyHash databaseName tableName formatKey.primaryKeys
  (longAbs key % partitionNumber.toUInt64.toInt64).toUInt64.toUInt32

/-- `lib.GetPartitionId`; the number of partitions is an `int`. -/
def GoClient.getPartitionId (dbName tableName : Bytes) (formatKey : LaserKeyFormatBase)
    (partitionNumber : Int64) : UInt32 :=
  let key := tableKeyHash dbName tableName formatKey.primaryKeys
  (longAbs key % partitionNumber).toUInt64.toUInt32

theorem leNat_lt_of_ascii {bytes : Bytes} (hascii : ∀ byte ∈ bytes, byte.toNat < 128) :
    leNat bytes * 2 < 256 ^ bytes.length := by
  induction bytes with
  | nil => simp [leNat]
  | cons byte rest ih =>
    obtain ⟨hbyte, hrest⟩ := forall_mem_cons.mp hascii
    have hlt := ih hrest
    rw [leNat, length_cons, pow_succ]
    omega

theorem fetch32_lt {s : Bytes} (hascii : ∀ byte ∈ s, byte.toNat < 128) (pos : Nat) :
    (CityHash.Reference.fetch32 s pos).toNat < 2 ^ 31 := by
  have hlt := leNat_lt_of_ascii fun byte (hbyte : byte ∈ (s.drop pos).take 4) =>
    hascii byte (mem_of_mem_drop (mem_of_mem_take hbyte))
  have hpow : 256 ^ ((s.drop pos).take 4).length ≤ 256 ^ 4 :=
    Nat.pow_le_pow_right (by decide) (length_take_le 4 _)
  have hnat : (CityHash.Reference.fetch32 s pos).toNat = leNat ((s.drop pos).take 4) :=
    UInt32.toNat_ofNat_of_lt' (by change _ < 2 ^ 32; omega)
  omega

def JavaString.Ascii (string : JavaString) : Prop := ∀ char ∈ string.text, char.val.toNat ≤ 127

theorem utf8Bytes_lt_of_ascii {text : List Char}
    (hascii : ∀ char ∈ text, char.val.toNat ≤ 127) : ∀ byte ∈ utf8Bytes text, byte.toNat < 128 := by
  intro byte hbyte
  obtain ⟨char, hchar, hbyte⟩ := mem_flatMap.mp hbyte
  have hle := hascii char hchar
  simp only [String.utf8EncodeChar, if_pos hle, mem_singleton] at hbyte
  rw [hbyte, UInt8.toNat_ofNat']
  omega

theorem JavaString.Ascii.hash_eq {string : JavaString} (hascii : string.Ascii) (seed : Int64) :
    (CityHash.cityHash64WithSeed string.getBytes 0 string.length seed).toUInt64 =
      CityHash.reference string.getBytes seed.toUInt64 := by
  have hbytes : ∀ byte ∈ string.getBytes, byte.toNat < 128 := utf8Bytes_lt_of_ascii hascii
  have hlength : string.length = string.getBytes.length :=
    (units_eq_bytes_iff string.text).2.mpr hascii
  rw [CityHash.reference, ← hlength]
  refine (CityHash.portAgrees_iff_cityHash64.mpr ((CityHash.toUInt64_cityHash64_iff ?_).mpr ?_)).2 seed
  · rw [hlength]
    exact string.fits
  · exact .inr (.inr ⟨fetch32_lt hbytes _, fetch32_lt hbytes _⟩)

section

theorem longAbs_nonneg {value : Int64} (hmin : value ≠ Int64.minValue) :
    0 ≤ (longAbs value).toInt := by
  have hvalue : value.toInt ≠ -2 ^ 63 := fun heq => hmin (Int64.toInt_inj.mp heq)
  have hlow := value.le_toInt
  have hhigh := value.toInt_lt
  unfold longAbs
  split
  · rename_i hneg
    rw [Int64.lt_iff_toInt_lt] at hneg
    rw [Int64.toInt_neg, Int.bmod_eq_of_le] <;> simp at * <;> omega
  · rename_i hneg
    rwa [Int64.lt_iff_toInt_lt, not_lt] at hneg

variable {count : Nat}

theorem toInt_mod {value divisor : Int64} (hvalue : 0 ≤ value.toInt)
    (hdivisor : divisor.toInt = count) : (value % divisor).toInt = value.toInt % count := by
  rw [Int64.toInt_mod, hdivisor, Int.tmod_eq_emod_of_nonneg hvalue]

theorem divisor_eq (hcount : count < 2 ^ 32) :
    (UInt32.ofNat count).toUInt64.toInt64 = Int64.ofNat count := by
  have hnat : (UInt32.ofNat count).toUInt64 = UInt64.ofNat count := by
    apply UInt64.toNat_inj.mp
    rw [UInt32.toNat_toUInt64, UInt32.toNat_ofNat_of_lt' hcount,
      UInt64.toNat_ofNat_of_lt' (by change _ < 2 ^ 64; omega)]
  rw [hnat]
  rfl

theorem intDivisor_eq (hcount : count < 2 ^ 31) :
    (Int32.ofNat count).toInt64 = Int64.ofNat count := by
  apply Int64.toInt_inj.mp
  rw [Int32.toInt_toInt64, Int32.toInt_ofNat_of_lt hcount, Int64.toInt_ofNat_of_lt (by omega)]

theorem narrow_eq {value : Int64} (hlow : 0 ≤ value.toInt) (hhigh : value.toInt < 2 ^ 31) :
    value.toInt32.toInt = value.toInt ∧ (value.toUInt64.toUInt32.toNat : Int) = value.toInt := by
  have hnat : value.toUInt64.toNat = value.toInt.toNat :=
    Int64.toNat_toUInt64_of_le (Int64.le_iff_toInt_le.mpr hlow)
  rw [Int64.toInt_toInt32, UInt64.toNat_toUInt32, hnat, Int.bmod_eq_of_le (by omega) (by omega),
    Nat.mod_eq_of_lt (by omega)]
  omega

variable {value : Int64} {count : Nat}

theorem remainder_eq (hvalue : 0 ≤ value.toInt) (hpos : 0 < count) (hcount : count < 2 ^ 31) :
    (value % (Int32.ofNat count).toInt64).toInt32.toInt =
      (value % Int64.ofNat count).toUInt64.toUInt32.toNat := by
  have hdivisor : (Int64.ofNat count).toInt = count := Int64.toInt_ofNat_of_lt (by omega)
  have hmod := toInt_mod hvalue hdivisor
  have hlow : 0 ≤ value.toInt % count := Int.emod_nonneg _ (by omega)
  have hhigh : value.toInt % count < count := Int.emod_lt_of_pos _ (by omega)
  rw [← hmod] at hlow hhigh
  obtain ⟨hint, hnat⟩ := narrow_eq hlow (by omega)
  rw [intDivisor_eq hcount, hint, hnat]

end

/-- The server and the Go client compute the same partition of a key, and so does the job for
ASCII strings and less than `2 ^ 31` partitions, unless the hash is the least number. -/
theorem partitionId_agrees (dbname tablename primaryKey : JavaString) {partitionNumber : Nat}
    (hpos : 0 < partitionNumber) (hnumber : partitionNumber < 2 ^ 32) :
    GoClient.getPartitionId dbname.getBytes tablename.getBytes (serverKey primaryKey [])
        (Int64.ofNat partitionNumber) =
      PartitionManager.getPartitionId dbname.getBytes tablename.getBytes (serverKey primaryKey [])
        (UInt32.ofNat partitionNumber) ∧
    (partitionNumber < 2 ^ 31 → dbname.Ascii → tablename.Ascii → primaryKey.Ascii →
      tableKeyHash dbname.getBytes tablename.getBytes [primaryKey.getBytes] ≠ Int64.minValue →
      (TransformJob.getPartitionId dbname tablename primaryKey (Int32.ofNat partitionNumber)).toInt =
        (PartitionManager.getPartitionId dbname.getBytes tablename.getBytes
          (serverKey primaryKey []) (UInt32.ofNat partitionNumber)).toNat) := by
  rw [PartitionManager.getPartitionId, divisor_eq hnumber]
  refine ⟨rfl, fun hsmall hdb htable hkey hmin => ?_⟩
  have hhash : CityHash.cityHash64WithSeed tablename.getBytes 0 tablename.length
      (CityHash.cityHash64WithSeed dbname.getBytes 0 dbname.length
        (CityHash.cityHash64WithSeed primaryKey.getBytes 0 primaryKey.length 0)) =
        tableKeyHash dbname.getBytes tablename.getBytes [primaryKey.getBytes] := by
    refine congrArg UInt64.toInt64 (htable.hash_eq _ |>.trans ?_)
    rw [hdb.hash_eq, hkey.hash_eq]
    rfl
  rw [TransformJob.getPartitionId, hhash]
  exact remainder_eq (longAbs_nonneg hmin) hpos hsmall

theorem partitionId_agrees_ascii :
    let dbname : JavaString := ⟨[Char.ofNat 100], by decide⟩
    let tablename : JavaString := ⟨[Char.ofNat 116], by decide⟩
    let primaryKey : JavaString := ⟨[Char.ofNat 97], by decide⟩
    (TransformJob.getPartitionId dbname tablename primaryKey (Int32.ofNat 16)).toInt =
      (PartitionManager.getPartitionId dbname.getBytes tablename.getBytes (serverKey primaryKey [])
        (UInt32.ofNat 16)).toNat :=
  (partitionId_agrees ⟨[Char.ofNat 100], by decide⟩ ⟨[Char.ofNat 116], by decide⟩
    ⟨[Char.ofNat 97], by decide⟩ (by decide) (by decide)).2 (by decide)
    (forall_mem_singleton.mpr (by decide)) (forall_mem_singleton.mpr (by decide))
    (forall_mem_singleton.mpr (by decide)) (by decide +kernel)

/-- Of the letter `e` with an acute accent the job hashes one byte of two. -/
theorem partitionId_differs :
    let dbname : JavaString := ⟨[Char.ofNat 100], by decide⟩
    let tablename : JavaString := ⟨[Char.ofNat 116], by decide⟩
    let primaryKey : JavaString := ⟨[Char.ofNat 233], by decide⟩
    (TransformJob.getPartitionId dbname tablename primaryKey (Int32.ofNat 10)).toInt ≠
      (PartitionManager.getPartitionId dbname.getBytes tablename.getBytes (serverKey primaryKey [])
        (UInt32.ofNat 10)).toNat := by
  decide +kernel

end LaserDB
