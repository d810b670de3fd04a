import LaserDB.Format.Value

/-!
# What the value formats read back

The bytes each `encode` writes, and what each `decode` makes of them.
-/

namespace LaserDB

open ByteCodec LaserSerializer List LaserValue

def headBytes (type : ValueType) (timestamp : UInt64) : Bytes :=
  intBytes .little type.toUInt8 ++ intBytes .little timestamp

def rawStringBytes (timestamp : UInt64) (value : Bytes) : Bytes :=
  headBytes .RAW_STRING timestamp ++ packedString value

def counterBytes (timestamp : UInt64) (value : Int64) : Bytes :=
  headBytes .COUNTER timestamp ++ intBytes .little value

def zsetBytes (timestamp : UInt64) (members : List Bytes) : Bytes :=
  headBytes .ZSET timestamp ++
    (intBytes .little (UInt32.ofNat members.length) ++ packedStrings members)

def sizeMetaBytes (kind : ValueType) (timestamp : UInt64) (size : UInt32) : Bytes :=
  headBytes kind timestamp ++ intBytes .little size

def listMetaBytes (timestamp : UInt64) (start endIndex : Int64) : Bytes :=
  headBytes .LIST timestamp ++ (intBytes .little start ++ intBytes .little endIndex)

@[simp] theorem headBytes_length (type : ValueType) (timestamp : UInt64) :
    (headBytes type timestamp).length = 9 := by
  simp [headBytes, intBytes_length, FixedWidth.width]

variable (self : LaserValueFormatBase)

theorem headEncode_rawData : self.encode.rawData = headBytes self.type self.timestamp := by
  simp [LaserValueFormatBase.encode, headBytes]

@[simp] theorem rawString_encode_rawData (self : LaserValueRawString) :
    self.encode.rawData = headBytes self.type self.timestamp ++ packedString self.value := by
  simp [LaserValueRawString.encode, headEncode_rawData]

@[simp] theorem rawString_ofValue_rawData (value : Bytes) :
    (LaserValueRawString.ofValue value).rawData = rawStringBytes 0 value := by
  simp [LaserValueRawString.ofValue, rawStringBytes, LaserValueFormatBase.ofType]

@[simp] theorem counter_encode_rawData (self : LaserValueCounter) :
    self.encode.rawData = headBytes self.type self.timestamp ++ intBytes .little self.value := by
  simp [LaserValueCounter.encode, headEncode_rawData]

@[simp] theorem zset_encode_rawData (self : LaserValueZSet) :
    self.encode.rawData = headBytes self.type self.timestamp ++
      (intBytes .little (UInt32.ofNat self.members.length) ++ packedStrings self.members) := by
  simp [LaserValueZSet.encode, headEncode_rawData]

@[simp] theorem sizeMeta_encode_rawData {kind : ValueType} (self : SizeMeta kind) :
    self.encode.rawData = sizeMetaBytes self.type self.timestamp self.size := by
  simp [SizeMeta.encode, headEncode_rawData, sizeMetaBytes]

@[simp] theorem listMeta_encode_rawData (self : LaserValueListMeta) :
    self.encode.rawData = headBytes self.type self.timestamp ++
      (intBytes .little self.start ++ intBytes .little self.endIndex) := by
  simp [LaserValueListMeta.encode, headEncode_rawData]

@[simp] theorem rawData_rawString (self : LaserValueRawString) :
    rawData self = self.rawData := rfl

@[simp] theorem rawData_counter (self : LaserValueCounter) :
    rawData self = self.rawData := rfl

@[simp] theorem rawData_zset (self : LaserValueZSet) :
    rawData self = self.rawData := rfl

@[simp] theorem rawData_sizeMeta {kind : ValueType} (self : SizeMeta kind) :
    rawData self = self.rawData := rfl

@[simp] theorem rawData_listMeta (self : LaserValueListMeta) :
    rawData self = self.rawData := rfl

variable {timestamp : UInt64} {tail : Bytes} {type : ValueType}

theorem headDecode_of_rawData (hraw : self.rawData = headBytes type timestamp ++ tail) :
    ∃ buffer : LaserSerializer, self.decode = (.accepted, ⟨buffer, type, timestamp⟩) ∧
      buffer.rawData = self.rawData ∧ buffer.offset.toNat = 9 ∧ buffer.rest = tail := by
  have hstart : self.toLaserSerializer.resetOffset.rest =
      intBytes .little type.toUInt8 ++ (intBytes .little timestamp ++ tail) := by
    rw [resetOffset_rest, hraw, headBytes, append_assoc]
  obtain ⟨htype, hafterType⟩ := unpackInt_of_offset (by decide) (by change 0 + 1 < 2 ^ 32; decide) hstart
  obtain ⟨htime, hafterTime⟩ := unpackInt_of_offset (by decide) (by change 1 + 8 < 2 ^ 32; decide)
    hafterType
  refine ⟨_, ?_, ?_, ?_, hafterTime⟩
  · simp only [LaserValueFormatBase.decode, htype, htime, intToValueType_toUInt8]
  · rfl
  · rfl

theorem decodeAs_of_rawData (type : ValueType)
    (hraw : self.rawData = headBytes type timestamp ++ tail) :
    ∃ buffer : LaserSerializer, self.decodeAs type = (.accepted, ⟨buffer, type, timestamp⟩) ∧
      buffer.rawData = self.rawData ∧ buffer.offset.toNat = 9 ∧ buffer.rest = tail := by
  obtain ⟨buffer, hdecode, hbuffer⟩ := headDecode_of_rawData self hraw
  refine ⟨buffer, ?_, hbuffer⟩
  simp [LaserValueFormatBase.decodeAs, hdecode]

theorem decodeAs_of_ne {type expected : ValueType}
    (hraw : self.rawData = headBytes type timestamp ++ tail) (hne : type ≠ expected) :
    ∃ head, self.decodeAs expected = (.rejected, head) := by
  obtain ⟨buffer, hdecode, -⟩ := headDecode_of_rawData self hraw
  refine ⟨⟨buffer, type, timestamp⟩, ?_⟩
  simp only [LaserValueFormatBase.decodeAs, hdecode, hne, ne_eq, not_false_eq_true, ↓reduceIte]

section
variable {kind : ValueType} (self : SizeMeta kind)

theorem sizeMeta_decode {size : UInt32} (hraw : self.rawData = sizeMetaBytes kind timestamp size) :
    ∃ buffer : LaserSerializer, self.decode = (.accepted, ⟨⟨buffer, kind, timestamp⟩, size⟩) := by
  obtain ⟨buffer, hdecode, -, hoffset, hrest⟩ :=
    decodeAs_of_rawData self.toLaserValueFormatBase kind hraw
  obtain ⟨hsize, -⟩ := unpackInt_of_offset (by decide)
    (by rw [hoffset]; decide) (hrest.trans (append_nil _).symm)
  refine ⟨buffer.advance 4, ?_⟩
  simp only [SizeMeta.decode, hdecode, hsize]
  rfl

theorem sizeMeta_decode_of_ne (hraw : self.rawData = headBytes type timestamp ++ tail)
    (hne : type ≠ kind) : self.decode.1 = .rejected := by
  obtain ⟨head, hreject⟩ := decodeAs_of_ne self.toLaserValueFormatBase hraw hne
  simp only [SizeMeta.decode, hreject]

end

section
variable (self : LaserValueListMeta)

theorem listMeta_decode {start endIndex : Int64}
    (hraw : self.rawData = listMetaBytes timestamp start endIndex) :
    ∃ buffer : LaserSerializer,
      self.decode = (.accepted, ⟨⟨buffer, .LIST, timestamp⟩, start, endIndex⟩) := by
  obtain ⟨buffer, hdecode, -, hoffset, hrest⟩ :=
    decodeAs_of_rawData self.toLaserValueFormatBase .LIST hraw
  obtain ⟨hstart, hafter⟩ := unpackInt_of_offset (by decide) (by rw [hoffset]; decide) hrest
  have hnext : (buffer.advance (FixedWidth.width Int64)).offset.toNat = 17 := by
    rw [advance_offset (by rw [hoffset]; decide), hoffset]
    rfl
  obtain ⟨hend, -⟩ := unpackInt_of_offset (by decide) (by rw [hnext]; decide)
    (hafter.trans (append_nil _).symm)
  refine ⟨(buffer.advance 8).advance 8, ?_⟩
  simp only [LaserValueListMeta.decode, hdecode, hstart, hend]
  rfl

theorem listMeta_decode_of_ne (hraw : self.rawData = headBytes type timestamp ++ tail)
    (hne : type ≠ .LIST) : self.decode.1 = .rejected := by
  obtain ⟨head, hreject⟩ := decodeAs_of_ne self.toLaserValueFormatBase hraw hne
  simp only [LaserValueListMeta.decode, hreject]

end

section
variable (self : LaserValueCounter)

theorem counter_decode {value : Int64} (hraw : self.rawData = counterBytes timestamp value) :
    ∃ buffer : LaserSerializer,
      self.decode = (.accepted, ⟨⟨buffer, .COUNTER, timestamp⟩, value⟩) := by
  obtain ⟨buffer, hdecode, -, hoffset, hrest⟩ :=
    decodeAs_of_rawData self.toLaserValueFormatBase .COUNTER hraw
  obtain ⟨hvalue, -⟩ := unpackInt_of_offset (by decide)
    (by rw [hoffset]; decide) (hrest.trans (append_nil _).symm)
  refine ⟨buffer.advance 8, ?_⟩
  simp only [LaserValueCounter.decode, hdecode, hvalue]
  rfl

theorem counter_decode_of_ne (hraw : self.rawData = headBytes type timestamp ++ tail)
    (hne : type ≠ .COUNTER) : self.decode.1 = .rejected := by
  obtain ⟨head, hreject⟩ := decodeAs_of_ne self.toLaserValueFormatBase hraw hne
  simp only [LaserValueCounter.decode, hreject]

end

section
variable (self : LaserValueRawString)

theorem rawString_decode {value : Bytes} (hraw : self.rawData = rawStringBytes timestamp value)
    (hvalue : value ≠ []) (hfit : value.length < 2 ^ 32) :
    ∃ buffer : LaserSerializer,
      self.decode = (.accepted, ⟨⟨buffer, .RAW_STRING, timestamp⟩, value⟩) := by
  obtain ⟨buffer, hdecode, -, hoffset, hrest⟩ :=
    headDecode_of_rawData self.toLaserValueFormatBase hraw
  rw [packedString_of_ne_nil hvalue] at hrest
  nth_rewrite 2 [← append_nil value] at hrest
  have hread := unpackString_of_offset [] hfit (by rw [hoffset]; decide) hrest
  refine ⟨(buffer.advance 4).advance value.length, ?_⟩
  simp only [LaserValueRawString.decode, hdecode, ne_eq, not_true_eq_false, ↓reduceIte, hread,
    nil_append]

theorem rawString_decode_nil (hraw : self.rawData = rawStringBytes timestamp []) :
    self.decode.1 = .rejected := by
  obtain ⟨buffer, hdecode, hbuffer, hoffset, -⟩ :=
    headDecode_of_rawData self.toLaserValueFormatBase hraw
  have hshort : buffer.rawData.length < buffer.offset.toNat + FixedWidth.width UInt32 := by
    rw [hbuffer, hoffset, hraw, rawStringBytes, packedString_nil, append_nil, headBytes_length]
    decide
  simp only [LaserValueRawString.decode, hdecode, ne_eq, not_true_eq_false, ↓reduceIte,
    LaserSerializer.unpackString, LaserSerializer.unpackInt, if_pos hshort]

theorem rawString_decode_of_ne (hraw : self.rawData = headBytes type timestamp ++ tail)
    (hne : type ≠ .RAW_STRING) : self.decode.1 = .rejected := by
  obtain ⟨buffer, hdecode, -⟩ := headDecode_of_rawData self.toLaserValueFormatBase hraw
  simp [LaserValueRawString.decode, hdecode, hne]

end

theorem rawString_accepts_iff (timestamp : UInt64) (self : LaserValueRawString)
    {value : Bytes} (hraw : self.rawData = rawStringBytes timestamp value) :
    self.decode.1 = .accepted ↔ value ≠ [] := by
  constructor
  · rintro hverdict rfl
    rw [rawString_decode_nil _ hraw] at hverdict
    cases hverdict
  · intro hvalue
    obtain ⟨buffer, hdecode, -, hoffset, hrest⟩ :=
      headDecode_of_rawData self.toLaserValueFormatBase hraw
    rw [packedString_of_ne_nil hvalue] at hrest
    nth_rewrite 2 [← append_nil value] at hrest
    have hread := congrArg Prod.fst
      (LaserSerializer.unpackString_wraps [] (by rw [hoffset]; decide) hrest)
    simp only [LaserValueRawString.decode, hdecode, ne_eq, not_true_eq_false, ↓reduceIte, hread]

theorem rawString_accepted_iff (timestamp : UInt64) (self : LaserValueRawString)
    {value : Bytes} (hraw : self.rawData = rawStringBytes timestamp value) :
    self.decode.1 = .accepted ∧ self.decode.2.value = value ↔ value ≠ [] ∧ value.length < 2 ^ 32 := by
  constructor
  · rintro ⟨hverdict, hvalue⟩
    refine ⟨(rawString_accepts_iff timestamp self hraw).mp hverdict, ?_⟩
    obtain ⟨buffer, hdecode, -⟩ := headDecode_of_rawData _ hraw
    rcases hread : buffer.unpackString [] with ⟨verdict, text, next⟩
    simp only [LaserValueRawString.decode, hdecode, ne_eq, not_true_eq_false, ↓reduceIte,
      hread] at hverdict hvalue
    subst hverdict hvalue
    exact unpackString_length_lt hread
  · rintro ⟨hvalue, hfit⟩
    obtain ⟨buffer, hdecode⟩ := rawString_decode _ hraw hvalue hfit
    rw [hdecode]
    exact ⟨rfl, rfl⟩

def RoundTrips (value : Bytes) : Prop :=
  let result := (LaserValueRawString.ofBuffer (LaserValueRawString.ofValue value).rawData).decode
  result.1 = .accepted ∧ result.2.value = value

instance (value : Bytes) : Decidable (RoundTrips value) := inferInstanceAs (Decidable (_ ∧ _))

theorem roundTrips_iff (value : Bytes) :
    RoundTrips value ↔ value ≠ [] ∧ value.length < 2 ^ 32 :=
  rawString_accepted_iff 0 _ (rawString_ofValue_rawData value)

theorem zset_decode (self : LaserValueZSet) {members : List Bytes}
    (hraw : self.rawData = zsetBytes timestamp members) (hmembers : NoEmpty members)
    (hfit : (zsetBytes timestamp members).length < 2 ^ 32) :
    ∃ buffer : LaserSerializer, self.decode =
      (.accepted, ⟨⟨buffer, .ZSET, timestamp⟩, self.members ++ members⟩) := by
  obtain ⟨buffer, hdecode, hbuffer, hoffset, hrest⟩ :=
    decodeAs_of_rawData self.toLaserValueFormatBase .ZSET hraw
  have hbufferFit : buffer.rawData.length < 2 ^ 32 := by
    rwa [hbuffer, hraw]
  have hcount : (UInt32.ofNat members.length).toNat = members.length := by
    apply UInt32.toNat_ofNat_of_lt'
    have hle := length_le_packedStrings hmembers
    rw [zsetBytes, length_append, length_append] at hfit
    change _ < 2 ^ 32
    omega
  obtain ⟨hsize, hafter⟩ := unpackInt_of_rest hbufferFit (by decide) hrest
  obtain ⟨next, hloop, -⟩ := unpackStrings_of_rest (by simpa using hbufferFit) hmembers
    (hafter.trans (append_nil _).symm) self.members
  exact ⟨next, by simp only [LaserValueZSet.decode, hdecode, hsize, hcount, hloop]⟩

end LaserDB
