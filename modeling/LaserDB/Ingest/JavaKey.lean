import LaserDB.Refinement.Slot

/-!
# Keys of the MapReduce job

`LaserKVEncoder.getLaserKey` takes the length of a string in UTF-16 units and its bytes in UTF-8,
where `LaserKeyFormat` of the server counts bytes.
-/

namespace LaserDB

open List ByteCodec

def utf8Bytes (text : List Char) : Bytes := text.flatMap String.utf8EncodeChar

def utf16Units (char : Char) : Nat := if char.val.toNat ≤ 65535 then 1 else 2

/-- A Java string whose UTF-8 bytes an array can hold. -/
structure JavaString where
  text : List Char
  fits : (utf8Bytes text).length < 2 ^ 31

namespace JavaString

def getBytes (string : JavaString) : Bytes := utf8Bytes string.text

def length (string : JavaString) : Nat := (string.text.map utf16Units).sum

def PlainAscii (string : JavaString) : Prop :=
  string.text ≠ [] ∧ ∀ char ∈ string.text, char.val.toNat ≤ 127

end JavaString

namespace LaserKVEncoder

def putString (string : JavaString) : Bytes :=
  intBytes .little (UInt32.ofNat string.length) ++ string.getBytes

def bufferLength (key : JavaString) (columnKeys : List JavaString) : Nat :=
  1 + 4 + 4 + key.getBytes.length + 4 + 4 * columnKeys.length +
    (columnKeys.map fun column => column.getBytes.length).sum

/-- No bytes are written if the size of the buffer is not an `int`: the allocation or a `put`
then throws. -/
def getLaserKey (key : JavaString) (columnKeys : Option (List JavaString)) : Option Bytes :=
  let columnKeys := columnKeys.getD []
  if bufferLength key columnKeys < 2 ^ 31 then
    some (intBytes .little (1 : UInt8) ++ (intBytes .little (1 : UInt32) ++ putString key) ++
      (intBytes .little (UInt32.ofNat columnKeys.length) ++ columnKeys.flatMap putString))
  else none

end LaserKVEncoder

def serverKey (key : JavaString) (columnKeys : List JavaString) : LaserKeyFormatBase :=
  LaserKeyFormat.ofParts [key.getBytes] (columnKeys.map JavaString.getBytes)

section

theorem utf8EncodeChar_length (char : Char) :
    utf16Units char ≤ (String.utf8EncodeChar char).length ∧
      (utf16Units char = (String.utf8EncodeChar char).length ↔ char.val.toNat ≤ 127) := by
  unfold utf16Units String.utf8EncodeChar
  grind

theorem units_eq_bytes_iff (text : List Char) :
    (text.map utf16Units).sum ≤ (utf8Bytes text).length ∧
      ((text.map utf16Units).sum = (utf8Bytes text).length ↔
        ∀ char ∈ text, char.val.toNat ≤ 127) := by
  induction text with
  | nil => simp [utf8Bytes]
  | cons char text ih =>
    obtain ⟨hle, hiff⟩ := utf8EncodeChar_length char
    rw [utf8Bytes, flatMap_cons, length_append, map_cons, sum_cons, forall_mem_cons, ← hiff, ← ih.2]
    have hrest := ih.1
    unfold utf8Bytes at hrest ⊢
    omega

variable (string : JavaString)

theorem JavaString.getBytes_eq_nil_iff : string.getBytes = [] ↔ string.text = [] := by
  obtain ⟨text, hfits⟩ := string
  cases text <;> simp [getBytes, utf8Bytes]

theorem putString_length :
    (LaserKVEncoder.putString string).length = 4 + string.getBytes.length := by
  rw [LaserKVEncoder.putString, length_append, intBytes_length]
  rfl

theorem packed_length_le :
    (packedString string.getBytes).length ≤ (LaserKVEncoder.putString string).length ∧
      ((packedString string.getBytes).length = (LaserKVEncoder.putString string).length ↔
        string.text ≠ []) := by
  rw [packedString_length, putString_length, ne_eq, ← string.getBytes_eq_nil_iff]
  split
  · rename_i hnil
    simp [hnil]
  · rename_i hne
    simp [hne]

theorem javaStrings_length_le (strings : List JavaString) :
    (packedStrings (strings.map JavaString.getBytes)).length ≤
        (strings.flatMap LaserKVEncoder.putString).length ∧
      ((packedStrings (strings.map JavaString.getBytes)).length =
          (strings.flatMap LaserKVEncoder.putString).length ↔
        ∀ string ∈ strings, string.text ≠ []) := by
  induction strings with
  | nil => simp [packedStrings]
  | cons string strings ih =>
    obtain ⟨hle, hiff⟩ := packed_length_le string
    rw [packedStrings, map_cons, flatMap_cons, flatMap_cons, length_append,
      length_append, forall_mem_cons, ← hiff, ← ih.2]
    have hrest := ih.1
    unfold packedStrings at hrest ⊢
    omega

theorem putString_eq_iff :
    LaserKVEncoder.putString string = packedString string.getBytes ↔ string.PlainAscii := by
  have hascii := units_eq_bytes_iff string.text
  have hfits := string.fits
  constructor
  · intro heq
    have hne : string.text ≠ [] := (packed_length_le string).2.mp (congrArg length heq.symm)
    refine ⟨hne, hascii.2.mp ?_⟩
    rw [packedString_of_ne_nil (mt string.getBytes_eq_nil_iff.mp hne)] at heq
    have hint := intBytes_injective .little (append_cancel_right heq)
    have hnat := congrArg UInt32.toNat hint
    rwa [UInt32.toNat_ofNat_of_lt', UInt32.toNat_ofNat_of_lt'] at hnat
    · change (utf8Bytes string.text).length < 2 ^ 32
      omega
    · change (string.text.map utf16Units).sum < 2 ^ 32
      omega
  · rintro ⟨hne, hplain⟩
    rw [packedString_of_ne_nil (mt string.getBytes_eq_nil_iff.mp hne), LaserKVEncoder.putString]
    exact congrArg (fun length => intBytes .little (UInt32.ofNat length) ++ string.getBytes)
      (hascii.2.mpr hplain)

theorem putStrings_eq_iff {strings : List JavaString} (hne : ∀ string ∈ strings, string.text ≠ []) :
    strings.flatMap LaserKVEncoder.putString = packedStrings (strings.map JavaString.getBytes) ↔
      ∀ string ∈ strings, string.PlainAscii := by
  induction strings with
  | nil => simp [packedStrings]
  | cons string strings ih =>
    obtain ⟨hfirst, hrest⟩ := forall_mem_cons.mp hne
    rw [forall_mem_cons, ← putString_eq_iff, ← ih hrest, packedStrings, map_cons,
      flatMap_cons, flatMap_cons]
    constructor
    · exact fun heq => append_inj heq ((packed_length_le string).2.mpr hfirst).symm
    · rintro ⟨hhead, htail⟩
      rw [hhead, htail]
      rfl

end

private def jobKey (key : JavaString) (columnKeys : List JavaString) : Bytes :=
  intBytes .little (1 : UInt8) ++ (intBytes .little (1 : UInt32) ++ LaserKVEncoder.putString key) ++
    (intBytes .little (UInt32.ofNat columnKeys.length) ++
      columnKeys.flatMap LaserKVEncoder.putString)

variable (key : JavaString)

variable (columnKeys : List JavaString)

theorem serverKey_rawData :
    (serverKey key columnKeys).rawData = intBytes .little (1 : UInt8) ++
        (intBytes .little (1 : UInt32) ++ packedString key.getBytes) ++
        (intBytes .little (UInt32.ofNat columnKeys.length) ++
          packedStrings (columnKeys.map JavaString.getBytes)) := by
  rw [serverKey, keyFormat_ofParts_rawData, keyBytes, length_map]
  simp [packedStrings, KeyType.toUInt8]

theorem jobKey_eq_iff :
    jobKey key columnKeys = (serverKey key columnKeys).rawData ↔
      ∀ string ∈ key :: columnKeys, string.PlainAscii := by
  rw [serverKey_rawData, jobKey, forall_mem_cons]
  have hkey := packed_length_le key
  have hcolumns := javaStrings_length_le columnKeys
  constructor
  · intro heq
    have hlength := congrArg length heq
    simp only [length_append, intBytes_length] at hlength
    have hkeyNe : key.text ≠ [] := hkey.2.mp (by omega)
    have hcolumnsNe := hcolumns.2.mp (by omega)
    obtain ⟨hfront, hback⟩ := append_inj heq (by
      simp only [length_append, hkey.2.mpr hkeyNe])
    exact ⟨(putString_eq_iff key).mp (append_cancel_left (append_cancel_left hfront)),
      (putStrings_eq_iff hcolumnsNe).mp (append_cancel_left hback)⟩
  · rintro ⟨hfirst, hrest⟩
    rw [(putString_eq_iff key).mpr hfirst,
      (putStrings_eq_iff fun string hstring => (hrest string hstring).1).mpr hrest]

/-- The job writes the key of the server, a record under it is found by a read of the key, and
it decodes to the same strings. -/
structure LaserKVEncoder.Agrees (key : JavaString) (columnKeys : List JavaString) (bytes : Bytes) :
    Prop where
  written : LaserKVEncoder.getLaserKey key (some columnKeys) = some bytes
  same : bytes = (serverKey key columnKeys).rawData
  found : ∀ (db : ReplicationDB) (env : Env) (value : LaserValueRawString) (record : Bytes),
    env.Healthy → db.store.get bytes = some record →
      db.read env value (serverKey key columnKeys).toLaserSerializer =
        (.OK, LaserValue.setRawBuffer value record)
  decoded : ∃ base, (LaserKeyFormatBase.ofBuffer bytes).decode = (.accepted, base) ∧
    base.primaryKeys = [key.getBytes] ∧ base.columns = columnKeys.map JavaString.getBytes

theorem getLaserKey_eq :
    LaserKVEncoder.getLaserKey key (some columnKeys) =
      if LaserKVEncoder.bufferLength key columnKeys < 2 ^ 31 then some (jobKey key columnKeys)
      else none := rfl

theorem jobKey_length :
    (jobKey key columnKeys).length = LaserKVEncoder.bufferLength key columnKeys := by
  have hcolumns : (columnKeys.flatMap LaserKVEncoder.putString).length =
      4 * columnKeys.length + (columnKeys.map fun column => column.getBytes.length).sum := by
    induction columnKeys with
    | nil => rfl
    | cons column columnKeys ih =>
      rw [flatMap_cons, length_append, putString_length, ih, length_cons, map_cons, sum_cons]
      omega
  simp only [jobKey, length_append, intBytes_length, putString_length, hcolumns]
  change 1 + (4 + (4 + _)) + (4 + _) = _
  unfold LaserKVEncoder.bufferLength
  omega

/-- Job and server agree on a key exactly if the buffer can be allocated and every string is plain
ASCII. -/
theorem laserKey_agrees_iff (key : JavaString) (columnKeys : List JavaString) :
    (∃ bytes, LaserKVEncoder.Agrees key columnKeys bytes) ↔
      LaserKVEncoder.bufferLength key columnKeys < 2 ^ 31 ∧
        ∀ string ∈ key :: columnKeys, string.PlainAscii := by
  constructor
  · rintro ⟨bytes, hagrees⟩
    have hwritten := hagrees.written
    rw [getLaserKey_eq] at hwritten
    split at hwritten
    · rename_i hfits
      cases hwritten
      exact ⟨hfits, (jobKey_eq_iff key columnKeys).mp hagrees.same⟩
    · cases hwritten
  · rintro ⟨hfits, hplain⟩
    have hsame := (jobKey_eq_iff key columnKeys).mpr hplain
    have hnonempty (string : JavaString) (hstring : string ∈ key :: columnKeys) :
        string.getBytes ≠ [] := mt string.getBytes_eq_nil_iff.mp (hplain string hstring).1
    refine ⟨jobKey key columnKeys, by rw [getLaserKey_eq, if_pos hfits], hsame, ?_, ?_⟩
    · intro db env value record henv hget
      rw [ReplicationDB.read, henv.1, ← hsame, hget]
      rfl
    · obtain ⟨buffer, hdecode, -⟩ := decode_of_rawData
        (LaserKeyFormatBase.ofBuffer (jobKey key columnKeys))
        (show (jobKey key columnKeys).length < 2 ^ 32 by rw [jobKey_length]; omega)
        (forall_mem_singleton.mpr (hnonempty key mem_cons_self))
        (forall_mem_map.mpr fun column hcolumn =>
          hnonempty column (mem_cons_of_mem _ hcolumn))
        (show jobKey key columnKeys = _ ++ [] by
          rw [hsame, serverKey, keyFormat_ofParts_rawData, append_nil])
      exact ⟨_, hdecode, rfl, rfl⟩

/-- The letter `e` with an acute accent is two bytes and one unit, and for an empty column the job
writes a length and the server nothing. -/
theorem laserKey_differs :
    LaserKVEncoder.getLaserKey ⟨[Char.ofNat 233], by decide⟩ (some []) =
        some [1, 1, 0, 0, 0, 1, 0, 0, 0, 195, 169, 0, 0, 0, 0] ∧
      (serverKey ⟨[Char.ofNat 233], by decide⟩ []).rawData =
        [1, 1, 0, 0, 0, 2, 0, 0, 0, 195, 169, 0, 0, 0, 0] ∧
      LaserKVEncoder.getLaserKey ⟨[Char.ofNat 97], by decide⟩ (some [⟨[], by decide⟩]) =
        some [1, 1, 0, 0, 0, 1, 0, 0, 0, 97, 1, 0, 0, 0, 0, 0, 0, 0] ∧
      (serverKey ⟨[Char.ofNat 97], by decide⟩ [⟨[], by decide⟩]).rawData =
        [1, 1, 0, 0, 0, 1, 0, 0, 0, 97, 1, 0, 0, 0] := by
  decide

end LaserDB
