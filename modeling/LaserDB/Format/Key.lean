import LaserDB.Format.Serializer

/-!
# Key formats

The key classes of `common/laser/format.h`.  A plain key names a value, and its composite forms name
the data records of that value.
-/

namespace LaserDB

open ByteCodec

inductive KeyType where
  | DEFAULT
  | COMPOSITE
  | TTL_SORT
  deriving DecidableEq, Repr

def KeyType.toUInt8 : KeyType → UInt8
  | .DEFAULT => 1
  | .COMPOSITE => 2
  | .TTL_SORT => 3

def intToKeyType (type : UInt8) : KeyType :=
  if type = 2 then .COMPOSITE else .DEFAULT

structure LaserKeyFormatBase extends LaserSerializer where
  primaryKeys : List Bytes
  columns : List Bytes
  keyType : KeyType
  deriving DecidableEq, Repr

namespace LaserKeyFormatBase

def ofBuffer (buffer : Bytes) : LaserKeyFormatBase :=
  ⟨LaserSerializer.ofBuffer buffer, [], [], .DEFAULT⟩

def ofParts (primaryKeys columns : List Bytes) (keyType : KeyType) : LaserKeyFormatBase :=
  ⟨⟨[], 0⟩, primaryKeys, columns, keyType⟩

def encode (self : LaserKeyFormatBase) : LaserKeyFormatBase :=
  let buffer := self.toLaserSerializer.clear
  let buffer := buffer.packInt self.keyType.toUInt8 .little
  let buffer := buffer.packInt (UInt32.ofNat self.primaryKeys.length) .little
  let buffer := self.primaryKeys.foldl LaserSerializer.packString buffer
  let buffer := buffer.packInt (UInt32.ofNat self.columns.length) .little
  let buffer := self.columns.foldl LaserSerializer.packString buffer
  { self with toLaserSerializer := buffer }

/-- The strings read before a failure stay in the object, as in the source. -/
def decode (self : LaserKeyFormatBase) : Verdict × LaserKeyFormatBase :=
  match self.toLaserSerializer.resetOffset.unpackInt UInt8 .little with
  | (none, buffer) => (.rejected, { self with toLaserSerializer := buffer })
  | (some typeInt, buffer) =>
    let self := { self with keyType := intToKeyType typeInt }
    match buffer.unpackInt UInt32 .little with
    | (none, buffer) => (.rejected, { self with toLaserSerializer := buffer })
    | (some size, buffer) =>
      match buffer.unpackStrings size.toNat self.primaryKeys with
      | (.accepted, primaryKeys, buffer) =>
        let self := { self with primaryKeys := primaryKeys }
        match buffer.unpackInt UInt32 .little with
        | (none, buffer) => (.rejected, { self with toLaserSerializer := buffer })
        | (some size, buffer) =>
          match buffer.unpackStrings size.toNat self.columns with
          | (verdict, columns, buffer) =>
            (verdict, { self with columns := columns, toLaserSerializer := buffer })
      | (verdict, primaryKeys, buffer) =>
        (verdict, { self with primaryKeys := primaryKeys, toLaserSerializer := buffer })

end LaserKeyFormatBase

/-- The two constructors of `LaserKeyFormat` that build a key from its parts. -/
def LaserKeyFormat.ofParts (primaryKeys columns : List Bytes) : LaserKeyFormatBase :=
  (LaserKeyFormatBase.ofParts primaryKeys columns .DEFAULT).encode

def LaserKeyFormat.ofKey (key : LaserKeyFormatBase) (keyType : KeyType) : LaserKeyFormatBase :=
  (LaserKeyFormatBase.ofParts key.primaryKeys key.columns keyType).encode

/-- A composite key that ends in a string, the common body of
`LaserKeyFormatMapData` and `LaserKeyFormatSetData`. -/
structure CompositeStringKey extends LaserKeyFormatBase where
  text : Bytes
  deriving DecidableEq, Repr

namespace CompositeStringKey

def ofBuffer (buffer : Bytes) : CompositeStringKey :=
  ⟨LaserKeyFormatBase.ofBuffer buffer, []⟩

def encode (self : CompositeStringKey) : CompositeStringKey :=
  let base := self.toLaserKeyFormatBase.encode
  { self with
    toLaserKeyFormatBase :=
      { base with toLaserSerializer := base.toLaserSerializer.packString self.text } }

def ofKey (key : LaserKeyFormatBase) (text : Bytes) : CompositeStringKey :=
  encode ⟨LaserKeyFormatBase.ofParts key.primaryKeys key.columns .COMPOSITE, text⟩

/-- A missing string is accepted: `unpackString` fails and its result is ignored. -/
def decode (self : CompositeStringKey) : Verdict × CompositeStringKey :=
  match self.toLaserKeyFormatBase.decode with
  | (.accepted, base) =>
    match base.toLaserSerializer.unpackString self.text with
    | (verdict, text, buffer) =>
      (if verdict = .overrun then .overrun else .accepted,
        ⟨{ base with toLaserSerializer := buffer }, text⟩)
  | (verdict, base) => (verdict, { self with toLaserKeyFormatBase := base })

end CompositeStringKey

abbrev LaserKeyFormatMapData := CompositeStringKey

def LaserKeyFormatMapData.ofKey (key : LaserKeyFormatBase) (field : Bytes) :
    LaserKeyFormatMapData := CompositeStringKey.ofKey key field

def LaserKeyFormatMapData.getField (self : LaserKeyFormatMapData) : Bytes := self.text

abbrev LaserKeyFormatSetData := CompositeStringKey

def LaserKeyFormatSetData.ofKey (key : LaserKeyFormatBase) (data : Bytes) :
    LaserKeyFormatSetData := CompositeStringKey.ofKey key data

def LaserKeyFormatSetData.getData (self : LaserKeyFormatSetData) : Bytes := self.text

/-- A composite key that ends in an optional big-endian `int64_t`, the common
part of `LaserKeyFormatZSetData` and `LaserKeyFormatListData`. -/
structure CompositeIntKey extends LaserKeyFormatBase where
  number : Option Int64
  deriving DecidableEq, Repr

namespace CompositeIntKey

def ofBuffer (buffer : Bytes) : CompositeIntKey :=
  ⟨LaserKeyFormatBase.ofBuffer buffer, some 0⟩

def encode (self : CompositeIntKey) : CompositeIntKey :=
  let base := self.toLaserKeyFormatBase.encode
  match self.number with
  | none => { self with toLaserKeyFormatBase := base }
  | some number =>
    { self with
      toLaserKeyFormatBase :=
        { base with toLaserSerializer := base.toLaserSerializer.packInt number .big } }

def ofKey (key : LaserKeyFormatBase) (number : Option Int64) : CompositeIntKey :=
  encode ⟨LaserKeyFormatBase.ofParts key.primaryKeys key.columns .COMPOSITE, number⟩

end CompositeIntKey

abbrev LaserKeyFormatZSetData := CompositeIntKey

def LaserKeyFormatZSetData.ofKey (key : LaserKeyFormatBase) (score : Option Int64) :
    LaserKeyFormatZSetData := CompositeIntKey.ofKey key score

def LaserKeyFormatZSetData.decode (self : LaserKeyFormatZSetData) :
    Verdict × LaserKeyFormatZSetData :=
  match self.toLaserKeyFormatBase.decode with
  | (.accepted, base) =>
    match base.toLaserSerializer.unpackInt Int64 .big with
    | (some score, buffer) =>
      (.accepted, ⟨{ base with toLaserSerializer := buffer }, some score⟩)
    | (none, buffer) =>
      (.rejected, { self with toLaserKeyFormatBase := { base with toLaserSerializer := buffer } })
  | (verdict, base) => (verdict, { self with toLaserKeyFormatBase := base })

def LaserKeyFormatZSetData.getScore (self : LaserKeyFormatZSetData) : Int64 :=
  self.number.getD 0

abbrev LaserKeyFormatListData := CompositeIntKey

def LaserKeyFormatListData.ofKey (key : LaserKeyFormatBase) (index : Option Int64) :
    LaserKeyFormatListData := CompositeIntKey.ofKey key index

/-- A list key without an index is accepted and keeps the index it had. -/
def LaserKeyFormatListData.decode (self : LaserKeyFormatListData) :
    Verdict × LaserKeyFormatListData :=
  match self.toLaserKeyFormatBase.decode with
  | (.accepted, base) =>
    match base.toLaserSerializer.unpackInt Int64 .big with
    | (some index, buffer) =>
      (.accepted, ⟨{ base with toLaserSerializer := buffer }, some index⟩)
    | (none, buffer) =>
      (.accepted, { self with toLaserKeyFormatBase := { base with toLaserSerializer := buffer } })
  | (verdict, base) => (verdict, { self with toLaserKeyFormatBase := base })

def LaserKeyFormatListData.getIndex (self : LaserKeyFormatListData) : Int64 :=
  self.number.getD 0

/-- The part of the thrift `LaserKey` that names a value inside one table. -/
structure LaserKey where
  primaryKeys : List Bytes
  columns : List Bytes
  deriving DecidableEq, Repr

def getFormatKey (key : LaserKey) : LaserKeyFormatBase :=
  LaserKeyFormat.ofParts key.primaryKeys key.columns

def keyBytes (keyType : KeyType) (primaryKeys columns : List Bytes) : Bytes :=
  intBytes .little keyType.toUInt8 ++
    (intBytes .little (UInt32.ofNat primaryKeys.length) ++ packedStrings primaryKeys) ++
    (intBytes .little (UInt32.ofNat columns.length) ++ packedStrings columns)

@[simp] theorem encode_rawData (self : LaserKeyFormatBase) :
    self.encode.rawData = keyBytes self.keyType self.primaryKeys self.columns := by
  simp [LaserKeyFormatBase.encode, keyBytes]

@[simp] theorem keyFormat_ofParts_rawData (primaryKeys columns : List Bytes) :
    (LaserKeyFormat.ofParts primaryKeys columns).rawData =
      keyBytes .DEFAULT primaryKeys columns := by
  simp [LaserKeyFormat.ofParts, LaserKeyFormatBase.ofParts]

variable (key : LaserKeyFormatBase)

@[simp] theorem keyFormat_ofKey_rawData (keyType : KeyType) :
    (LaserKeyFormat.ofKey key keyType).rawData = keyBytes keyType key.primaryKeys key.columns := by
  simp [LaserKeyFormat.ofKey, LaserKeyFormatBase.ofParts]

@[simp] theorem compositeStringKey_rawData (text : Bytes) :
    (CompositeStringKey.ofKey key text).rawData =
      keyBytes .COMPOSITE key.primaryKeys key.columns ++ packedString text := by
  simp [CompositeStringKey.ofKey, CompositeStringKey.encode, LaserKeyFormatBase.ofParts]

def packedNumber : Option Int64 → Bytes
  | none => []
  | some number => intBytes .big number

@[simp] theorem compositeIntKey_rawData (number : Option Int64) :
    (CompositeIntKey.ofKey key number).rawData =
      keyBytes .COMPOSITE key.primaryKeys key.columns ++ packedNumber number := by
  cases number <;>
    simp [CompositeIntKey.ofKey, CompositeIntKey.encode, LaserKeyFormatBase.ofParts, packedNumber]

end LaserDB
