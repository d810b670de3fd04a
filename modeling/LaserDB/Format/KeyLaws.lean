import LaserDB.Format.Key
import LaserDB.Library.OrderedMap

/-!
# What the key encoding distinguishes

A key of non-empty strings is read back from any buffer that starts with its bytes, so such keys
never share a record.
-/

namespace LaserDB

open LaserKeyFormatZSetData

open List ByteCodec OrderedMap
open LaserSerializer (resetOffset_rest unpackInt unpackInt_complete unpackInt_of_rest unpackString)
open LaserKeyFormatBase (ofBuffer ofParts)

def NoEmpty (texts : List Bytes) : Prop := ∀ text ∈ texts, text ≠ []

instance (texts : List Bytes) : Decidable (NoEmpty texts) :=
  inferInstanceAs (Decidable (∀ text ∈ texts, text ≠ []))

variable {texts : List Bytes}

theorem noEmpty_cons {text : Bytes} : NoEmpty (text :: texts) ↔ text ≠ [] ∧ NoEmpty texts := by
  simp [NoEmpty]

theorem packedStrings_cons (text : Bytes) (texts : List Bytes) :
    packedStrings (text :: texts) = packedString text ++ packedStrings texts := rfl

theorem length_le_packedStrings (htexts : NoEmpty texts) :
    texts.length ≤ (packedStrings texts).length := by
  induction texts with
  | nil => simp
  | cons text texts ih =>
    obtain ⟨htext, hrest⟩ := noEmpty_cons.mp htexts
    have hlength := ih hrest
    rw [packedStrings_cons, length_append, packedString_length, if_neg htext, length_cons]
    omega

variable {tail : Bytes}

namespace LaserSerializer

theorem unpackStrings_of_rest {self : LaserSerializer} (hfit : self.rawData.length < 2 ^ 32)
    (htexts : NoEmpty texts) (hrest : self.rest = packedStrings texts ++ tail) (out : List Bytes) :
    ∃ next, self.unpackStrings texts.length out = (.accepted, out ++ texts, next) ∧
      next.rawData = self.rawData ∧ next.rest = tail := by
  induction texts generalizing self out with
  | nil => exact ⟨self, by simp [unpackStrings], rfl, by simpa [packedStrings] using hrest⟩
  | cons text texts ih =>
    obtain ⟨htext, hothers⟩ := noEmpty_cons.mp htexts
    have hlength := congrArg length hrest
    rw [rest, length_drop, packedStrings_cons, length_append, length_append,
      packedString_length, if_neg htext] at hlength
    rw [packedStrings_cons, packedString_of_ne_nil htext, append_assoc, append_assoc] at hrest
    obtain ⟨middle, hread, hraw, hmiddle⟩ := unpackString_of_rest [] hfit (by omega) hrest
    obtain ⟨next, hloop, hnextRaw, hnext⟩ := ih (by rwa [hraw]) hothers hmiddle (out ++ [text])
    refine ⟨next, ?_, hnextRaw.trans hraw, hnext⟩
    simp only [length_cons, unpackStrings, hread, nil_append, hloop, append_assoc, singleton_append]

def framedStrings (texts : List Bytes) : Bytes :=
  texts.flatMap fun text => intBytes .little (UInt32.ofNat text.length) ++ text

theorem unpackStrings_complete {self : LaserSerializer} (hfit : self.rawData.length < 2 ^ 32)
    {count : Nat} {out values : List Bytes} {next : LaserSerializer}
    (hread : self.unpackStrings count out = (.accepted, values, next)) :
    ∃ texts, values = out ++ texts ∧ next.rawData = self.rawData ∧
      self.rest = framedStrings texts ++ next.rest := by
  induction count generalizing self out with
  | zero =>
    simp only [unpackStrings, Prod.mk.injEq, true_and] at hread
    obtain ⟨rfl, rfl⟩ := hread
    exact ⟨[], by simp, rfl, by simp [framedStrings]⟩
  | succ count ih =>
    simp only [unpackStrings] at hread
    split at hread
    · rename_i text middle hstring
      obtain ⟨body, hbody, -, hraw, hrest⟩ := unpackString_complete hfit hstring
      obtain ⟨texts, hvalues, hnextRaw, hnext⟩ := ih (by rwa [hraw]) hread
      rw [nil_append] at hbody
      subst hbody
      refine ⟨text :: texts, by simp [hvalues], hnextRaw.trans hraw, ?_⟩
      rw [hrest, hnext]
      simp [framedStrings]
    · rename_i hfailed _
      simp only [Prod.mk.injEq] at hread
      exact (hfailed hread.1).elim

end LaserSerializer

variable {primaryKeys columns : List Bytes} {keyType : KeyType}

variable (self : LaserKeyFormatBase)

theorem decode_of_rawData (hfit : self.rawData.length < 2 ^ 32) (hkeys : NoEmpty primaryKeys)
    (hcolumns : NoEmpty columns)
    (hraw : self.rawData = keyBytes keyType primaryKeys columns ++ tail) :
    ∃ buffer : LaserSerializer, self.decode = (.accepted, ⟨buffer, self.primaryKeys ++ primaryKeys,
        self.columns ++ columns, intToKeyType keyType.toUInt8⟩) ∧
      buffer.rawData = self.rawData ∧ buffer.rest = tail := by
  have hlength := congrArg length hraw
  simp only [keyBytes, length_append, intBytes_length] at hlength
  have hkeysCount : (UInt32.ofNat primaryKeys.length).toNat = primaryKeys.length := by
    apply UInt32.toNat_ofNat_of_lt'
    have := length_le_packedStrings hkeys
    change _ < 2 ^ 32
    omega
  have hcolumnsCount : (UInt32.ofNat columns.length).toNat = columns.length := by
    apply UInt32.toNat_ofNat_of_lt'
    have := length_le_packedStrings hcolumns
    change _ < 2 ^ 32
    omega
  have hstart : self.toLaserSerializer.resetOffset.rest = intBytes .little keyType.toUInt8 ++
        (intBytes .little (UInt32.ofNat primaryKeys.length) ++ (packedStrings primaryKeys ++
          (intBytes .little (UInt32.ofNat columns.length) ++
            (packedStrings columns ++ tail)))) := by
    rw [resetOffset_rest, hraw]
    simp [keyBytes]
  obtain ⟨htype, hafterType⟩ := unpackInt_of_rest (by simpa using hfit) (by decide) hstart
  obtain ⟨hcount, hafterCount⟩ := unpackInt_of_rest (by simpa using hfit) (by decide) hafterType
  obtain ⟨middle, hloop, hmiddleRaw, hmiddle⟩ :=
    LaserSerializer.unpackStrings_of_rest (by simpa using hfit) hkeys hafterCount
      self.primaryKeys
  have hmiddleFit : middle.rawData.length < 2 ^ 32 := by
    rw [hmiddleRaw]
    simpa using hfit
  obtain ⟨hcount', hafterCount'⟩ := unpackInt_of_rest hmiddleFit (by decide) hmiddle
  obtain ⟨final, hloop', hfinalRaw, hfinal⟩ :=
    LaserSerializer.unpackStrings_of_rest (by simpa using hmiddleFit) hcolumns hafterCount'
      self.columns
  refine ⟨final, ?_, ?_, hfinal⟩
  · simp only [LaserKeyFormatBase.decode, htype, hcount, hkeysCount, hloop, hcount',
      hcolumnsCount, hloop']
  · rw [hfinalRaw, LaserSerializer.advance_rawData, hmiddleRaw]
    rfl

theorem decode_complete {decoded : LaserKeyFormatBase} (hfit : self.rawData.length < 2 ^ 32)
    (hdecode : self.decode = (.accepted, decoded)) :
    ∃ (typeInt : UInt8) (keysSize columnsSize : UInt32) (primaryKeys columns : List Bytes)
      (tail : Bytes), decoded.keyType = intToKeyType typeInt ∧
      decoded.primaryKeys = self.primaryKeys ++ primaryKeys ∧
      decoded.columns = self.columns ++ columns ∧
      self.rawData = intBytes .little typeInt ++
        (intBytes .little keysSize ++ (LaserSerializer.framedStrings primaryKeys ++
          (intBytes .little columnsSize ++ (LaserSerializer.framedStrings columns ++ tail)))) := by
  unfold LaserKeyFormatBase.decode at hdecode
  split at hdecode
  · simp at hdecode
  · rename_i typeInt afterType htype
    obtain ⟨htypeRaw, htypeRest⟩ := unpackInt_complete (by simpa using hfit) htype
    rw [LaserSerializer.resetOffset_rawData] at htypeRaw
    rw [resetOffset_rest] at htypeRest
    dsimp only at hdecode
    split at hdecode
    · simp at hdecode
    · rename_i keysSize afterCount hcount
      obtain ⟨hcountRaw, hcountRest⟩ := unpackInt_complete (by rwa [htypeRaw]) hcount
      have hcountFit : afterCount.rawData.length < 2 ^ 32 := by rwa [hcountRaw, htypeRaw]
      split at hdecode
      · rename_i keys afterKeys hkeys
        obtain ⟨primaryKeys, hkeysOut, hkeysRaw, hkeysRest⟩ :=
          LaserSerializer.unpackStrings_complete hcountFit hkeys
        have hkeysFit : afterKeys.rawData.length < 2 ^ 32 := by rwa [hkeysRaw]
        split at hdecode
        · simp at hdecode
        · rename_i columnsSize afterSecond hsecond
          obtain ⟨hsecondRaw, hsecondRest⟩ := unpackInt_complete hkeysFit hsecond
          rcases hcolumns : afterSecond.unpackStrings columnsSize.toNat self.columns with
            ⟨verdict, columnsOut, final⟩
          rw [hcolumns] at hdecode
          obtain ⟨rfl, rfl⟩ := Prod.mk.inj hdecode
          obtain ⟨columns, hcolumnsOut, -, hcolumnsRest⟩ :=
            LaserSerializer.unpackStrings_complete (by rwa [hsecondRaw]) hcolumns
          refine ⟨typeInt, keysSize, columnsSize, primaryKeys, columns, final.rest, rfl,
            hkeysOut, hcolumnsOut, ?_⟩
          rw [htypeRest, hcountRest, hkeysRest, hsecondRest, hcolumnsRest]
      · rename_i hfailed _
        exact (hfailed (Prod.mk.inj hdecode).1).elim

section

open LaserSerializer

theorem rawData_of_unpackInt [FixedWidth T] {self next : LaserSerializer}
    {order : ByteOrder} {value : Option T} (hread : self.unpackInt T order = (value, next)) :
    next.rawData = self.rawData := by
  have hraw := unpackInt_rawData T self order
  rwa [hread] at hraw

theorem rawData_of_unpackStrings {self next : LaserSerializer} {count : Nat}
    {out texts : List Bytes} {verdict : Verdict}
    (hread : self.unpackStrings count out = (verdict, texts, next)) :
    next.rawData = self.rawData := by
  have hraw := unpackStrings_rawData count self out
  rwa [hread] at hraw

theorem keyDecode_rawData : self.decode.2.rawData = self.rawData := by
  unfold LaserKeyFormatBase.decode
  split
  · rename_i htype
    exact (rawData_of_unpackInt htype).trans (resetOffset_rawData _)
  · rename_i htype
    have hfirst := (rawData_of_unpackInt htype).trans (resetOffset_rawData _)
    dsimp only
    split
    · rename_i hcount
      exact (rawData_of_unpackInt hcount).trans hfirst
    · rename_i hcount
      have hstart := (rawData_of_unpackInt hcount).trans hfirst
      split
      · rename_i hkeys
        have hmiddle := (rawData_of_unpackStrings hkeys).trans hstart
        split
        · rename_i hcolumnCount
          exact (rawData_of_unpackInt hcolumnCount).trans hmiddle
        · rename_i hcolumnCount
          have hlast := (rawData_of_unpackInt hcolumnCount).trans hmiddle
          exact (unpackStrings_rawData _ _ _).trans hlast
      · rename_i hkeys
        exact (rawData_of_unpackStrings hkeys).trans hstart

theorem zsetKeyDecode_rawData (self : LaserKeyFormatZSetData) :
    (decode self).2.rawData = self.rawData := by
  have hbase := keyDecode_rawData self.toLaserKeyFormatBase
  unfold decode
  split
  · rename_i hdecode
    rw [hdecode] at hbase
    split
    all_goals
      rename_i hscore
      exact (rawData_of_unpackInt hscore).trans hbase
  · rename_i hdecode
    rw [hdecode] at hbase
    exact hbase
end

def keySize (primaryKeys columns : List Bytes) : Nat :=
  9 + (primaryKeys.map fun text => 4 + text.length).sum +
    (columns.map fun text => 4 + text.length).sum

def KeyRoundTrips (keyType : KeyType) (primaryKeys columns : List Bytes) : Prop :=
  let encoded := (ofParts primaryKeys columns keyType).encode
  let result := (ofBuffer encoded.rawData).decode
  result.1 = .accepted ∧ result.2.primaryKeys = primaryKeys ∧ result.2.columns = columns ∧
    result.2.keyType = keyType

instance (keyType : KeyType) (primaryKeys columns : List Bytes) :
    Decidable (KeyRoundTrips keyType primaryKeys columns) :=
  inferInstanceAs (Decidable (_ ∧ _ ∧ _ ∧ _))

theorem framedStrings_length (texts : List Bytes) :
    (LaserSerializer.framedStrings texts).length = (texts.map fun text => 4 + text.length).sum := by
  induction texts with
  | nil => rfl
  | cons text texts ih =>
    simp only [LaserSerializer.framedStrings, flatMap_cons, length_append,
      intBytes_length, map_cons, sum_cons] at ih ⊢
    rw [ih]
    rfl

theorem packedStrings_length_le (texts : List Bytes) :
    (packedStrings texts).length ≤ (texts.map fun text => 4 + text.length).sum := by
  induction texts with
  | nil => simp [packedStrings]
  | cons text texts ih =>
    rw [packedStrings_cons, length_append, packedString_length, map_cons, sum_cons]
    split <;> omega

theorem packedStrings_length_lt (hempty : ¬NoEmpty texts) :
    (packedStrings texts).length < (texts.map fun text => 4 + text.length).sum := by
  induction texts with
  | nil => exact absurd (by simp [NoEmpty]) hempty
  | cons text texts ih =>
    rw [packedStrings_cons, length_append, packedString_length, map_cons, sum_cons]
    by_cases htext : text = []
    · have hrest := packedStrings_length_le texts
      rw [if_pos htext]
      omega
    · have hrest := ih fun hothers => hempty (noEmpty_cons.mpr ⟨htext, hothers⟩)
      rw [if_neg htext]
      omega

theorem keyBytes_length_le (keyType : KeyType) (primaryKeys columns : List Bytes) :
    (keyBytes keyType primaryKeys columns).length ≤ keySize primaryKeys columns := by
  have hkeys := packedStrings_length_le primaryKeys
  have hcolumns := packedStrings_length_le columns
  simp only [keyBytes, keySize, length_append, intBytes_length]
  change 1 + (4 + _) + (4 + _) ≤ _
  omega

theorem intToKeyType_toUInt8 : intToKeyType keyType.toUInt8 = keyType ↔ keyType ≠ .TTL_SORT := by
  cases keyType <;> decide

theorem keyRoundTrips_of_noEmpty (hsize : keySize primaryKeys columns < 2 ^ 32)
    (hkeys : NoEmpty primaryKeys) (hcolumns : NoEmpty columns) (htype : keyType ≠ .TTL_SORT) :
    KeyRoundTrips keyType primaryKeys columns := by
  have hfit := (keyBytes_length_le keyType primaryKeys columns).trans_lt hsize
  simp only [KeyRoundTrips, encode_rawData, ofParts]
  obtain ⟨buffer, hdecode, -⟩ := decode_of_rawData
    (ofBuffer (keyBytes keyType primaryKeys columns)) hfit hkeys hcolumns (append_nil _).symm
  rw [hdecode]
  exact ⟨rfl, rfl, rfl, intToKeyType_toUInt8.mpr htype⟩

theorem noEmpty_of_keyRoundTrips (hsize : keySize primaryKeys columns < 2 ^ 32)
    (hround : KeyRoundTrips keyType primaryKeys columns) :
    NoEmpty primaryKeys ∧ NoEmpty columns ∧ keyType ≠ .TTL_SORT := by
  have hfit := (keyBytes_length_le keyType primaryKeys columns).trans_lt hsize
  simp only [KeyRoundTrips, encode_rawData, ofParts] at hround
  obtain ⟨hverdict, hkeysEq, hcolumnsEq, htypeEq⟩ := hround
  obtain ⟨typeInt, keysSize, columnsSize, keys, cols, tail, htype, hkeysOut, hcolumnsOut, hraw⟩ :=
    decode_complete (ofBuffer (keyBytes keyType primaryKeys columns))
      hfit (Prod.ext hverdict rfl)
  have hkeys : primaryKeys = keys := hkeysEq.symm.trans hkeysOut
  have hcolumns : columns = cols := hcolumnsEq.symm.trans hcolumnsOut
  subst hkeys hcolumns
  have hlength := congrArg length hraw
  change (keyBytes keyType primaryKeys columns).length = _ at hlength
  simp only [keyBytes, length_append, intBytes_length, framedStrings_length] at hlength
  have hkeysLe := packedStrings_length_le primaryKeys
  have hcolumnsLe := packedStrings_length_le columns
  have hfirst : typeInt = keyType.toUInt8 := by
    have hhead := congrArg (take 1) hraw
    change (keyBytes keyType primaryKeys columns).take 1 = _ at hhead
    rw [keyBytes, append_assoc, take_left' (by rfl), take_left' (by rfl)] at hhead
    exact (intBytes_injective .little hhead).symm
  refine ⟨?_, ?_, ?_⟩
  · by_contra hempty
    have := packedStrings_length_lt hempty
    omega
  · by_contra hempty
    have := packedStrings_length_lt hempty
    omega
  · rw [← intToKeyType_toUInt8, ← hfirst, ← htype]
    exact htypeEq

/-- The key codec round-trips exactly on the keys without an empty string, and
two such keys never share their bytes. -/
theorem keyFormat_roundTrips_iff_noEmpty (keyType keyType' : KeyType)
    (primaryKeys columns primaryKeys' columns' : List Bytes)
    (hsize : keySize primaryKeys columns < 2 ^ 32) :
    (KeyRoundTrips keyType primaryKeys columns ↔
      NoEmpty primaryKeys ∧ NoEmpty columns ∧ keyType ≠ .TTL_SORT) ∧
    (NoEmpty primaryKeys → NoEmpty columns → NoEmpty primaryKeys' → NoEmpty columns' →
      (ofParts primaryKeys columns keyType).encode.rawData =
        (ofParts primaryKeys' columns' keyType').encode.rawData →
      primaryKeys = primaryKeys' ∧ columns = columns') := by
  refine ⟨⟨noEmpty_of_keyRoundTrips hsize, ?_⟩, ?_⟩
  · rintro ⟨hkeys, hcolumns, htype⟩
    exact keyRoundTrips_of_noEmpty hsize hkeys hcolumns htype
  · intro hkeys hcolumns hkeys' hcolumns' heq
    rw [encode_rawData, encode_rawData] at heq
    simp only [ofParts] at heq
    have hfit := (keyBytes_length_le keyType primaryKeys columns).trans_lt hsize
    obtain ⟨_, hdecode, -⟩ := decode_of_rawData
      (ofBuffer (keyBytes keyType primaryKeys columns)) hfit hkeys hcolumns
      (append_nil _).symm
    obtain ⟨_, hdecode', -⟩ := decode_of_rawData
      (ofBuffer (keyBytes keyType primaryKeys columns)) hfit hkeys' hcolumns'
      (heq.trans (append_nil _).symm)
    have hsame := congrArg Prod.snd (hdecode.symm.trans hdecode')
    exact ⟨congrArg LaserKeyFormatBase.primaryKeys hsame, congrArg LaserKeyFormatBase.columns hsame⟩

/-- The keys of the repository's own format test, and two keys whose strings
spell the same text. -/
theorem keyFormat_roundTrips_packTest :
    let primaryKeys := ["uid".toUTF8.data.toList, "page".toUTF8.data.toList]
    let columns := ["age".toUTF8.data.toList, "count".toUTF8.data.toList]
    KeyRoundTrips .DEFAULT primaryKeys columns ∧
      (ofParts [[97, 98]] [] .DEFAULT).encode.rawData ≠
        (ofParts [[97]] [[98]] .DEFAULT).encode.rawData := by
  intro primaryKeys columns
  refine ⟨?_, ?_⟩
  · exact (keyFormat_roundTrips_iff_noEmpty .DEFAULT .DEFAULT primaryKeys columns [] []
      (by decide)).1.mpr (by decide)
  · intro hsame
    have hparts := (keyFormat_roundTrips_iff_noEmpty .DEFAULT .DEFAULT [[97, 98]] [] [[97]] [[98]]
      (by decide)).2 (by decide) (by decide) (by decide) (by decide) hsame
    exact absurd hparts.1 (by decide)

/-- `["", "a"]` is not read back, and it shares its record with `["a", ""]`. -/
theorem keyFormat_empty_string_lost :
    ¬KeyRoundTrips .DEFAULT [[], [97]] [] ∧ (LaserKeyFormat.ofParts [[], [97]] []).rawData =
        (LaserKeyFormat.ofParts [[97], []] []).rawData := by
  decide

inductive DataPart where
  | field (field : Bytes)
  | member (member : Bytes)
  | index (index : Int64)
  | score (score : Int64)
  deriving DecidableEq, Repr

def Storable (bytes : Bytes) : Prop := bytes.length < 2 ^ 32

instance (bytes : Bytes) : Decidable (Storable bytes) := inferInstanceAs (Decidable (_ < _))

namespace LaserKey

def NoEmptyPart (key : LaserKey) : Prop := NoEmpty key.primaryKeys ∧ NoEmpty key.columns

instance (key : LaserKey) : Decidable key.NoEmptyPart :=
  inferInstanceAs (Decidable (_ ∧ _))

def metaKey (key : LaserKey) : Bytes := (getFormatKey key).rawData

def stem (key : LaserKey) : Bytes := (LaserKeyFormatMapData.ofKey (getFormatKey key) []).rawData

def Valid (key : LaserKey) : Prop := key.NoEmptyPart ∧ Storable key.stem

instance (key : LaserKey) : Decidable key.Valid := inferInstanceAs (Decidable (_ ∧ _))

def dataKey (key : LaserKey) : DataPart → Bytes
  | .field field => (LaserKeyFormatMapData.ofKey (getFormatKey key) field).rawData
  | .member member => (LaserKeyFormatSetData.ofKey (getFormatKey key) member).rawData
  | .index index => (LaserKeyFormatListData.ofKey (getFormatKey key) (some index)).rawData
  | .score score => (LaserKeyFormatZSetData.ofKey (getFormatKey key) (some score)).rawData

end LaserKey

def DataPart.suffix : DataPart → Bytes
  | .field name | .member name => packedString name
  | .index number | .score number => intBytes .big number

namespace LaserKey

variable (key : LaserKey)

theorem metaKey_eq : key.metaKey = keyBytes .DEFAULT key.primaryKeys key.columns := by
  simp [metaKey, getFormatKey]

theorem stem_eq : key.stem = keyBytes .COMPOSITE key.primaryKeys key.columns := by
  simp [stem, LaserKeyFormatMapData.ofKey, getFormatKey, LaserKeyFormat.ofParts,
    LaserKeyFormatBase.encode, ofParts]

theorem dataKey_eq (part : DataPart) : key.dataKey part = key.stem ++ part.suffix := by
  rw [stem_eq]
  cases part <;>
    simp [dataKey, DataPart.suffix, LaserKeyFormatMapData.ofKey, LaserKeyFormatSetData.ofKey,
      LaserKeyFormatListData.ofKey, ofKey, getFormatKey, packedNumber,
      LaserKeyFormat.ofParts, LaserKeyFormatBase.encode, ofParts]

theorem stem_isPrefix_dataKey (part : DataPart) : key.stem <+: key.dataKey part := by
  rw [dataKey_eq]
  exact prefix_append _ _

variable {left right : LaserKey}

theorem eq_of_stem_isPrefix_stem (hleft : left.Valid) (hright : right.Valid)
    (hstem : left.stem <+: right.stem) : left = right := by
  obtain ⟨tail, hbytes⟩ := hstem
  rw [stem_eq left] at hbytes
  obtain ⟨_, hdecode, -⟩ := decode_of_rawData (ofBuffer right.stem)
    hright.2 hleft.1.1 hleft.1.2 hbytes.symm
  obtain ⟨_, hdecode', -⟩ := decode_of_rawData (ofBuffer right.stem)
    hright.2 hright.1.1 hright.1.2 ((stem_eq right).trans (append_nil _).symm)
  have hsame := congrArg Prod.snd (hdecode.symm.trans hdecode')
  have hkeys : left.primaryKeys = right.primaryKeys := congrArg LaserKeyFormatBase.primaryKeys hsame
  have hcolumns : left.columns = right.columns := congrArg LaserKeyFormatBase.columns hsame
  cases left
  cases right
  simp_all

theorem eq_of_stem_isPrefix {bytes : Bytes} (hleft : left.Valid) (hright : right.Valid)
    (hleftStem : left.stem <+: bytes) (hrightStem : right.stem <+: bytes) : left = right := by
  rcases le_total left.stem.length right.stem.length with hle | hle
  · exact eq_of_stem_isPrefix_stem hleft hright
      (prefix_of_prefix_length_le hleftStem hrightStem hle)
  · exact (eq_of_stem_isPrefix_stem hright hleft
      (prefix_of_prefix_length_le hrightStem hleftStem hle)).symm

theorem metaKey_lt_stem (left right : LaserKey) : left.metaKey < right.stem := by
  rw [stem_eq, metaKey_eq]
  simp only [keyBytes, intBytes, leBytes, FixedWidth.width, FixedWidth.toNat, KeyType.toUInt8,
    cons_append, nil_append]
  exact cons_lt_cons_iff.mpr (.inl (by decide))

theorem not_stem_isPrefix_metaKey (left right : LaserKey) : ¬left.stem <+: right.metaKey := by
  rw [stem_eq, metaKey_eq]
  rintro ⟨tail, heq⟩
  have hhead := congrArg head? heq
  simp [keyBytes, intBytes, leBytes, FixedWidth.width, FixedWidth.toNat, KeyType.toUInt8] at hhead

end LaserKey

section
variable {key : LaserKey} (hkey : key.NoEmptyPart)
include hkey

theorem decode_of_stem (hfit : Storable (key.stem ++ tail)) :
    ∃ buffer : LaserSerializer, (ofBuffer (key.stem ++ tail)).decode =
        (.accepted, ⟨buffer, key.primaryKeys, key.columns, .COMPOSITE⟩) ∧
      buffer.rawData = key.stem ++ tail ∧ buffer.rest = tail := by
  rw [LaserKey.stem_eq] at hfit ⊢
  exact decode_of_rawData (ofBuffer _) hfit hkey.1 hkey.2 rfl

theorem stringKey_decode {text : Bytes} (hfit : Storable (key.stem ++ packedString text)) :
    ∃ buffer : LaserSerializer,
      (CompositeStringKey.ofBuffer (key.stem ++ packedString text)).decode =
        (.accepted, ⟨⟨buffer, key.primaryKeys, key.columns, .COMPOSITE⟩, text⟩) := by
  obtain ⟨buffer, hdecode, hraw, hrest⟩ := decode_of_stem hkey hfit
  have hbase : (CompositeStringKey.ofBuffer (key.stem ++ packedString text)).toLaserKeyFormatBase =
      ofBuffer (key.stem ++ packedString text) := rfl
  rcases eq_or_ne text [] with rfl | htext
  · have hshort : buffer.rawData.length < buffer.offset.toNat + FixedWidth.width UInt32 := by
      have hlength := congrArg length hrest
      simp only [LaserSerializer.rest, length_drop, packedString_nil, length_nil] at hlength
      change _ < _ + 4
      omega
    refine ⟨buffer, ?_⟩
    simp only [CompositeStringKey.decode, hbase, hdecode, unpackString, unpackInt, if_pos hshort]
    rfl
  · have hlength : text.length < 2 ^ 32 := by
      have hpacked := packedString_length text
      rw [if_neg htext] at hpacked
      rw [Storable, length_append] at hfit
      omega
    rw [packedString_of_ne_nil htext, ← append_nil (_ ++ text), append_assoc] at hrest
    obtain ⟨next, hread, -⟩ := LaserSerializer.unpackString_of_rest [] (hraw ▸ hfit) hlength hrest
    have hinitial : (CompositeStringKey.ofBuffer (key.stem ++ packedString text)).text = [] := rfl
    refine ⟨next, ?_⟩
    simp only [CompositeStringKey.decode, hbase, hdecode, hinitial, hread, nil_append]
    rfl

theorem intKey_unpack {number : Int64} (hfit : Storable (key.stem ++ intBytes .big number)) :
    ∃ buffer next : LaserSerializer, (ofBuffer (key.stem ++ intBytes .big number)).decode =
        (.accepted, ⟨buffer, key.primaryKeys, key.columns, .COMPOSITE⟩) ∧
      buffer.unpackInt Int64 .big = (some number, next) ∧
      next.rawData = key.stem ++ intBytes .big number := by
  obtain ⟨buffer, hdecode, hraw, hrest⟩ := decode_of_stem hkey hfit
  obtain ⟨hread, -⟩ := unpackInt_of_rest (hraw ▸ hfit) (by decide) (hrest.trans (append_nil _).symm)
  exact ⟨buffer, _, hdecode, hread, hraw⟩

omit hkey in
theorem intKey_base (bytes : Bytes) :
    (CompositeIntKey.ofBuffer bytes).toLaserKeyFormatBase = ofBuffer bytes := rfl

theorem zsetKey_decode {score : Int64} (hfit : Storable (key.stem ++ intBytes .big score)) :
    ∃ buffer : LaserSerializer, decode
        (CompositeIntKey.ofBuffer (key.stem ++ intBytes .big score)) =
        (.accepted, ⟨⟨buffer, key.primaryKeys, key.columns, .COMPOSITE⟩, some score⟩) ∧
      buffer.rawData = key.stem ++ intBytes .big score := by
  obtain ⟨buffer, next, hdecode, hread, hraw⟩ := intKey_unpack hkey hfit
  refine ⟨next, ?_, hraw⟩
  simp only [decode, intKey_base, hdecode, hread]

theorem listKey_decode {index : Int64} (hfit : Storable (key.stem ++ intBytes .big index)) :
    ∃ buffer : LaserSerializer, LaserKeyFormatListData.decode
        (CompositeIntKey.ofBuffer (key.stem ++ intBytes .big index)) =
        (.accepted, ⟨⟨buffer, key.primaryKeys, key.columns, .COMPOSITE⟩, some index⟩) := by
  obtain ⟨buffer, next, hdecode, hread, -⟩ := intKey_unpack hkey hfit
  refine ⟨next, ?_⟩
  simp only [LaserKeyFormatListData.decode, intKey_base, hdecode, hread]

end

def IsRecordKey (bytes : Bytes) : Prop :=
  (∃ key : LaserKey, bytes = key.metaKey) ∨
    ∃ (key : LaserKey) (part : DataPart), key.NoEmptyPart ∧ bytes = key.dataKey part

theorem valid_of_isPrefix {key : LaserKey} {bytes : Bytes} (hkey : key.NoEmptyPart)
    (hfit : Storable bytes) (hstem : key.stem <+: bytes) : key.Valid :=
  ⟨hkey, hstem.length_le.trans_lt hfit⟩

/-- The scan target of a key of non-empty strings starts its own data records
and no others, so that a prefix scan visits exactly these. -/
theorem scan_visits_own_records (left right : LaserKey) (hleft : left.NoEmptyPart)
    (hright : right.NoEmptyPart) :
    ((LaserKeyFormatSetData.ofKey (getFormatKey left) []).rawData = left.stem ∧
      (LaserKeyFormatListData.ofKey (getFormatKey left) none).rawData = left.stem ∧
      (LaserKeyFormatZSetData.ofKey (getFormatKey left) none).rawData = left.stem ∧
      (LaserKeyFormat.ofKey (getFormatKey left) .COMPOSITE).rawData = left.stem) ∧
    (∀ part, Storable (right.dataKey part) → left.stem <+: right.dataKey part → left = right) ∧
    (∀ part (other : LaserKey), right.dataKey part ≠ other.metaKey) ∧
    (∀ store : OrderedMap Bytes Bytes,
      (∀ entry ∈ store.entries, Storable entry.1 ∧ IsRecordKey entry.1) →
      ∀ entry, entry ∈ store.scan left.stem ↔
        entry ∈ store.entries ∧ ∃ part, entry.1 = left.dataKey part) := by
  have hown {key : LaserKey} {part : DataPart} (hkey : key.NoEmptyPart)
      (hfit : Storable (key.dataKey part)) (hstem : left.stem <+: key.dataKey part) :
      left = key :=
    LaserKey.eq_of_stem_isPrefix (valid_of_isPrefix hleft hfit hstem)
      (valid_of_isPrefix hkey hfit (key.stem_isPrefix_dataKey part)) hstem
      (key.stem_isPrefix_dataKey part)
  refine ⟨⟨rfl, rfl, rfl, ?_⟩, ?_, ?_, ?_⟩
  · rw [LaserKey.stem_eq, keyFormat_ofKey_rawData]
    rfl
  · intro part hfit hstem
    exact hown hright hfit hstem
  · intro part other heq
    exact right.not_stem_isPrefix_metaKey other (heq ▸ right.stem_isPrefix_dataKey part)
  · rintro store hstore ⟨bytes, value⟩
    rw [mem_scan_iff, ← mem_entries_iff]
    refine and_congr_right fun hmem => ?_
    obtain ⟨hfit, hrecord⟩ := hstore _ hmem
    constructor
    · intro hstem
      rcases hrecord with ⟨key, rfl⟩ | ⟨key, part, hkey, rfl⟩
      · exact absurd hstem (left.not_stem_isPrefix_metaKey key)
      · exact ⟨part, by rw [hown hkey hfit hstem]⟩
    · rintro ⟨part, rfl⟩
      exact left.stem_isPrefix_dataKey part

/-- A store with a field of the key `a`, a member of the key `ab` and the meta
record of `ab`. -/
theorem scan_visits_two_keys :
    let left : LaserKey := ⟨[[97]], []⟩
    let right : LaserKey := ⟨[[97, 98]], []⟩
    let store : OrderedMap Bytes Bytes := ((empty.put (left.dataKey (.field [98])) []).put
      (right.dataKey (.member [99])) []).put right.metaKey []
    (left.dataKey (.field [98]), []) ∈ store.scan left.stem ∧
      (right.dataKey (.member [99]), []) ∈ store.entries ∧
      (right.dataKey (.member [99]), []) ∉ store.scan left.stem ∧
      ¬left.stem <+: right.dataKey (.member [99]) ∧
      right.dataKey (.member [99]) ≠ right.metaKey := by
  intro left right store
  have hentries : ∀ entry ∈ store.entries, entry = (left.dataKey (.field [98]), []) ∨
      entry = (right.dataKey (.member [99]), []) ∨ entry = (right.metaKey, []) := by decide
  obtain ⟨-, hown, hmeta, hscan⟩ := scan_visits_own_records left right (by decide) (by decide)
  have hscan := hscan store fun entry hmem => by
    rcases hentries entry hmem with rfl | rfl | rfl
    · exact ⟨by decide, .inr ⟨left, .field [98], by decide, rfl⟩⟩
    · exact ⟨by decide, .inr ⟨right, .member [99], by decide, rfl⟩⟩
    · exact ⟨by decide, .inl ⟨right, rfl⟩⟩
  have hforeign : ¬left.stem <+: right.dataKey (.member [99]) := fun hstem =>
    absurd (hown (.member [99]) (by decide) hstem) (by decide)
  refine ⟨(hscan _).mpr ⟨by decide, .field [98], rfl⟩, by decide, ?_, hforeign, hmeta _ right⟩
  intro hmem
  obtain ⟨-, part, hkey⟩ := (hscan _).mp hmem
  rw [show right.dataKey (.member [99]) = left.dataKey part from hkey] at hforeign
  exact hforeign (left.stem_isPrefix_dataKey part)

end LaserDB
