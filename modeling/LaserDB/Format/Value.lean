import LaserDB.Format.KeyLaws

/-!
# Value formats

The value classes of `common/laser/format.h`.
-/

namespace LaserDB

open ByteCodec

inductive ValueType where
  | RAW_STRING
  | COUNTER
  | MAP
  | LIST
  | SET
  | ZSET
  deriving DecidableEq, Repr

def ValueType.toUInt8 : ValueType → UInt8
  | .RAW_STRING => 1
  | .COUNTER => 2
  | .MAP => 3
  | .LIST => 4
  | .SET => 5
  | .ZSET => 6

def intToValueType (type : UInt8) : ValueType :=
  if type = 2 then .COUNTER
  else if type = 3 then .MAP
  else if type = 4 then .LIST
  else if type = 5 then .SET
  else if type = 6 then .ZSET
  else .RAW_STRING

@[simp] theorem intToValueType_toUInt8 (type : ValueType) :
    intToValueType type.toUInt8 = type := by
  cases type <;> decide

structure LaserValueFormatBase extends LaserSerializer where
  type : ValueType
  timestamp : UInt64
  deriving DecidableEq, Repr

namespace LaserValueFormatBase

def ofType (type : ValueType) : LaserValueFormatBase := ⟨⟨[], 0⟩, type, 0⟩

/-- The constructor from a buffer.  The source leaves the type and the timestamp
unset here; they are read only after a `decode` has set them. -/
def ofBuffer (buffer : Bytes) : LaserValueFormatBase :=
  ⟨LaserSerializer.ofBuffer buffer, .RAW_STRING, 0⟩

def encode (self : LaserValueFormatBase) : LaserValueFormatBase :=
  let buffer := self.toLaserSerializer.clear
  let buffer := buffer.packInt self.type.toUInt8 .little
  let buffer := buffer.packInt self.timestamp .little
  { self with toLaserSerializer := buffer }

def decode (self : LaserValueFormatBase) : Verdict × LaserValueFormatBase :=
  match self.toLaserSerializer.resetOffset.unpackInt UInt8 .little with
  | (none, buffer) => (.rejected, { self with toLaserSerializer := buffer })
  | (some intType, buffer) =>
    let self := { self with type := intToValueType intType }
    match buffer.unpackInt UInt64 .little with
    | (none, buffer) => (.rejected, { self with toLaserSerializer := buffer })
    | (some timestamp, buffer) =>
      (.accepted, { self with timestamp := timestamp, toLaserSerializer := buffer })

end LaserValueFormatBase

/-- A value class: its head, and its overrides of `encode` and `decode`. -/
class LaserValue (V : Type) where
  base : V → LaserValueFormatBase
  setBase : V → LaserValueFormatBase → V
  encode : V → V
  decode : V → Verdict × V
  base_setBase : ∀ value head, base (setBase value head) = head

namespace LaserValue
variable {V : Type} [LaserValue V]

def getType (value : V) : ValueType := (base value).type

def getTimestamp (value : V) : UInt64 := (base value).timestamp

def setTimestamp (value : V) (timestamp : UInt64) : V :=
  setBase value { base value with timestamp := timestamp }

def rawData (value : V) : Bytes := (base value).rawData

/-- Assign through `getRawBuffer`. -/
def setRawBuffer (value : V) (buffer : Bytes) : V :=
  setBase value { base value with rawData := buffer }

end LaserValue

instance : LaserValue LaserValueFormatBase where
  base := id
  setBase := fun _ head => head
  encode := LaserValueFormatBase.encode
  decode := LaserValueFormatBase.decode
  base_setBase := fun _ _ => rfl

structure LaserValueRawString extends LaserValueFormatBase where
  value : Bytes
  deriving DecidableEq, Repr

namespace LaserValueRawString

def new : LaserValueRawString := ⟨.ofType .RAW_STRING, []⟩

def ofBuffer (buffer : Bytes) : LaserValueRawString := ⟨.ofBuffer buffer, []⟩

def encode (self : LaserValueRawString) : LaserValueRawString :=
  let head := self.toLaserValueFormatBase.encode
  { self with
    toLaserValueFormatBase :=
      { head with toLaserSerializer := head.toLaserSerializer.packString self.value } }

def ofValue (value : Bytes) : LaserValueRawString := encode ⟨.ofType .RAW_STRING, value⟩

def decode (self : LaserValueRawString) : Verdict × LaserValueRawString :=
  match self.toLaserValueFormatBase.decode with
  | (.accepted, head) =>
    if head.type ≠ .RAW_STRING then (.rejected, ⟨head, []⟩)
    else
      match head.toLaserSerializer.unpackString [] with
      | (verdict, value, buffer) =>
        (verdict, ⟨{ head with toLaserSerializer := buffer }, value⟩)
  | (verdict, head) => (verdict, { self with toLaserValueFormatBase := head })

instance : LaserValue LaserValueRawString where
  base := toLaserValueFormatBase
  setBase := fun self head => { self with toLaserValueFormatBase := head }
  encode := encode
  decode := decode
  base_setBase := fun _ _ => rfl

end LaserValueRawString

/-- The two checks every other `decode` starts with: the head is readable and
has the type of the class. -/
def LaserValueFormatBase.decodeAs (expected : ValueType) (self : LaserValueFormatBase) :
    Verdict × LaserValueFormatBase :=
  match self.decode with
  | (.accepted, head) =>
    if head.type ≠ expected then (.rejected, head) else (.accepted, head)
  | (verdict, head) => (verdict, head)

structure LaserValueCounter extends LaserValueFormatBase where
  value : Int64
  deriving DecidableEq, Repr

namespace LaserValueCounter

def new : LaserValueCounter := ⟨.ofType .COUNTER, 0⟩

def encode (self : LaserValueCounter) : LaserValueCounter :=
  let head := self.toLaserValueFormatBase.encode
  { self with
    toLaserValueFormatBase :=
      { head with toLaserSerializer := head.toLaserSerializer.packInt self.value .little } }

def ofValue (value : Int64) : LaserValueCounter := encode ⟨.ofType .COUNTER, value⟩

def ofBuffer (buffer : Bytes) : LaserValueCounter := ⟨.ofBuffer buffer, 0⟩

def decode (self : LaserValueCounter) : Verdict × LaserValueCounter :=
  match self.toLaserValueFormatBase.decodeAs .COUNTER with
  | (.accepted, head) =>
    match head.toLaserSerializer.unpackInt Int64 .little with
    | (none, buffer) => (.rejected, ⟨{ head with toLaserSerializer := buffer }, self.value⟩)
    | (some value, buffer) => (.accepted, ⟨{ head with toLaserSerializer := buffer }, value⟩)
  | (verdict, head) => (verdict, { self with toLaserValueFormatBase := head })

instance : LaserValue LaserValueCounter where
  base := toLaserValueFormatBase
  setBase := fun self head => { self with toLaserValueFormatBase := head }
  encode := encode
  decode := decode
  base_setBase := fun _ _ => rfl

end LaserValueCounter

structure LaserValueZSet extends LaserValueFormatBase where
  members : List Bytes
  deriving DecidableEq, Repr

namespace LaserValueZSet

def new : LaserValueZSet := ⟨.ofType .ZSET, []⟩

def ofBuffer (buffer : Bytes) : LaserValueZSet := ⟨.ofBuffer buffer, []⟩

def addMember (self : LaserValueZSet) (member : Bytes) : LaserValueZSet :=
  { self with members := self.members ++ [member] }

def encode (self : LaserValueZSet) : LaserValueZSet :=
  let head := self.toLaserValueFormatBase.encode
  let buffer := head.toLaserSerializer.packInt (UInt32.ofNat self.members.length) .little
  let buffer := self.members.foldl LaserSerializer.packString buffer
  { self with toLaserValueFormatBase := { head with toLaserSerializer := buffer } }

/-- Members are added to those the object already holds, also before a failure. -/
def decode (self : LaserValueZSet) : Verdict × LaserValueZSet :=
  match self.toLaserValueFormatBase.decodeAs .ZSET with
  | (.accepted, head) =>
    match head.toLaserSerializer.unpackInt UInt32 .little with
    | (none, buffer) => (.rejected, ⟨{ head with toLaserSerializer := buffer }, self.members⟩)
    | (some size, buffer) =>
      match buffer.unpackStrings size.toNat self.members with
      | (verdict, members, buffer) =>
        (verdict, ⟨{ head with toLaserSerializer := buffer }, members⟩)
  | (verdict, head) => (verdict, { self with toLaserValueFormatBase := head })

instance : LaserValue LaserValueZSet where
  base := toLaserValueFormatBase
  setBase := fun self head => { self with toLaserValueFormatBase := head }
  encode := encode
  decode := decode
  base_setBase := fun _ _ => rfl

end LaserValueZSet

/-- A meta record that counts its data records, the common body of
`LaserValueMapMeta`, `LaserValueSetMeta` and `LaserValueZSetMeta`. -/
structure SizeMeta (kind : ValueType) extends LaserValueFormatBase where
  size : UInt32
  deriving DecidableEq, Repr

namespace SizeMeta
variable {kind : ValueType}

def new : SizeMeta kind := ⟨.ofType kind, 0⟩

def ofBuffer (buffer : Bytes) : SizeMeta kind := ⟨.ofBuffer buffer, 0⟩

def incrSize (self : SizeMeta kind) : SizeMeta kind := { self with size := self.size + 1 }

def decrSize (self : SizeMeta kind) : SizeMeta kind := { self with size := self.size - 1 }

def encode (self : SizeMeta kind) : SizeMeta kind :=
  let head := self.toLaserValueFormatBase.encode
  { self with
    toLaserValueFormatBase :=
      { head with toLaserSerializer := head.toLaserSerializer.packInt self.size .little } }

def decode (self : SizeMeta kind) : Verdict × SizeMeta kind :=
  match self.toLaserValueFormatBase.decodeAs kind with
  | (.accepted, head) =>
    match head.toLaserSerializer.unpackInt UInt32 .little with
    | (none, buffer) => (.rejected, ⟨{ head with toLaserSerializer := buffer }, self.size⟩)
    | (some size, buffer) => (.accepted, ⟨{ head with toLaserSerializer := buffer }, size⟩)
  | (verdict, head) => (verdict, { self with toLaserValueFormatBase := head })

instance : LaserValue (SizeMeta kind) where
  base := toLaserValueFormatBase
  setBase := fun self head => { self with toLaserValueFormatBase := head }
  encode := encode
  decode := decode
  base_setBase := fun _ _ => rfl

end SizeMeta

abbrev LaserValueMapMeta := SizeMeta .MAP
abbrev LaserValueSetMeta := SizeMeta .SET
abbrev LaserValueZSetMeta := SizeMeta .ZSET

/-- `start` and `endIndex` are the free places before and behind the elements. -/
structure LaserValueListMeta extends LaserValueFormatBase where
  start : Int64
  endIndex : Int64
  deriving DecidableEq, Repr

namespace LaserValueListMeta

def new : LaserValueListMeta := ⟨.ofType .LIST, 0, 0⟩

def ofBuffer (buffer : Bytes) : LaserValueListMeta := ⟨.ofBuffer buffer, 0, 0⟩

def getSize (self : LaserValueListMeta) : Int64 :=
  if self.endIndex = self.start then 0 else self.endIndex - self.start - 1

def popFront (self : LaserValueListMeta) : Int64 × LaserValueListMeta :=
  (self.start + 1, { self with start := self.start + 1 })

def pushFront (self : LaserValueListMeta) : Int64 × LaserValueListMeta :=
  let self :=
    if self.start = self.endIndex then { self with endIndex := self.endIndex + 1 } else self
  (self.start, { self with start := self.start - 1 })

def popBack (self : LaserValueListMeta) : Int64 × LaserValueListMeta :=
  (self.endIndex - 1, { self with endIndex := self.endIndex - 1 })

def pushBack (self : LaserValueListMeta) : Int64 × LaserValueListMeta :=
  let self := if self.start = self.endIndex then { self with start := self.start - 1 } else self
  (self.endIndex, { self with endIndex := self.endIndex + 1 })

def encode (self : LaserValueListMeta) : LaserValueListMeta :=
  let head := self.toLaserValueFormatBase.encode
  let buffer := head.toLaserSerializer.packInt self.start .little
  let buffer := buffer.packInt self.endIndex .little
  { self with toLaserValueFormatBase := { head with toLaserSerializer := buffer } }

def decode (self : LaserValueListMeta) : Verdict × LaserValueListMeta :=
  match self.toLaserValueFormatBase.decodeAs .LIST with
  | (.accepted, head) =>
    match head.toLaserSerializer.unpackInt Int64 .little with
    | (none, buffer) =>
      (.rejected, { self with toLaserValueFormatBase := { head with toLaserSerializer := buffer } })
    | (some start, buffer) =>
      let self := { self with start := start }
      match buffer.unpackInt Int64 .little with
      | (none, buffer) =>
        (.rejected,
          { self with toLaserValueFormatBase := { head with toLaserSerializer := buffer } })
      | (some endIndex, buffer) =>
        (.accepted, ⟨{ head with toLaserSerializer := buffer }, start, endIndex⟩)
  | (verdict, head) => (verdict, { self with toLaserValueFormatBase := head })

instance : LaserValue LaserValueListMeta where
  base := toLaserValueFormatBase
  setBase := fun self head => { self with toLaserValueFormatBase := head }
  encode := encode
  decode := decode
  base_setBase := fun _ _ => rfl

end LaserValueListMeta

end LaserDB
