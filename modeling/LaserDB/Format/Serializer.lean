import LaserDB.Library.ByteCodec

/-!
# The byte buffer under every key and value format

`LaserSerializer` of `common/laser/format.h`, a growing buffer that is read back through a 32-bit
offset.
-/

namespace LaserDB

open List ByteCodec
open FixedWidth (width)

structure LaserSerializer where
  rawData : Bytes
  offset : UInt32
  deriving DecidableEq, Repr

/-- Outcome of a read.  `overrun` marks a read that the source lets through
although it ends behind the buffer: its bound check wraps at 32 bits. -/
inductive Verdict where
  | accepted
  | rejected
  | overrun
  deriving DecidableEq, Repr

/-- The bytes `packString` appends: nothing at all for the empty string. -/
def packedString (text : Bytes) : Bytes :=
  if text.isEmpty then []
  else intBytes .little (UInt32.ofNat text.length) ++ text

def packedStrings (texts : List Bytes) : Bytes :=
  texts.flatMap packedString

@[simp] theorem packedString_nil : packedString [] = [] := rfl

open UInt32 (ofNat toNat_add ofNat_toNat)

theorem packedString_of_ne_nil {text : Bytes} (htext : text ≠ []) :
    packedString text = intBytes .little (ofNat text.length) ++ text := by
  rw [packedString, if_neg (by simpa using htext)]

theorem packedString_length (text : Bytes) :
    (packedString text).length = if text = [] then 0 else 4 + text.length := by
  by_cases htext : text = []
  · simp [htext]
  · rw [packedString_of_ne_nil htext, if_neg htext, length_append, intBytes_length]
    rfl

theorem packedString_injective : Function.Injective packedString := by
  intro left right heq
  by_cases hleft : left = []
  · by_cases hright : right = []
    · rw [hleft, hright]
    · have hlength := congrArg length heq
      simp only [packedString_length, hleft, hright, ↓reduceIte] at hlength
      omega
  · by_cases hright : right = []
    · have hlength := congrArg length heq
      simp [packedString_length, hleft, hright] at hlength
    · rw [packedString_of_ne_nil hleft, packedString_of_ne_nil hright] at heq
      exact (append_inj heq (by simp)).2

variable (count : Nat)

namespace LaserSerializer

def ofBuffer (buffer : Bytes) : LaserSerializer := ⟨buffer, 0⟩

def clear (self : LaserSerializer) : LaserSerializer := { self with rawData := [] }

def resetOffset (self : LaserSerializer) : LaserSerializer := { self with offset := 0 }

def packInt {T : Type} [FixedWidth T] (self : LaserSerializer) (value : T)
    (order : ByteOrder) : LaserSerializer :=
  { self with rawData := self.rawData ++ intBytes order value }

def packString (self : LaserSerializer) (text : Bytes) : LaserSerializer :=
  if text.isEmpty then self
  else
    let sized := self.packInt (UInt32.ofNat text.length) .little
    { sized with rawData := sized.rawData ++ text }

def unpackInt (T : Type) [FixedWidth T] (self : LaserSerializer) (order : ByteOrder) :
    Option T × LaserSerializer :=
  if self.rawData.length < self.offset.toNat + FixedWidth.width T then (none, self)
  else
    let bytes := (self.rawData.drop self.offset.toNat).take (FixedWidth.width T)
    (some (intOfBytes T order bytes),
      { self with offset := self.offset + UInt32.ofNat (FixedWidth.width T) })

/-- Append the next string to `result`.  The source compares the buffer length
with `offset_ + size`, a sum of two `uint32_t`. -/
def unpackString (self : LaserSerializer) (result : Bytes) :
    Verdict × Bytes × LaserSerializer :=
  match self.unpackInt UInt32 .little with
  | (none, self) => (.rejected, result, self)
  | (some size, self) =>
    if self.rawData.length < (self.offset + size).toNat then (.rejected, result, self)
    else if self.rawData.length < self.offset.toNat + size.toNat then
      (.overrun, result, self)
    else
      (.accepted, result ++ (self.rawData.drop self.offset.toNat).take size.toNat,
        { self with offset := self.offset + size })

/-- The counted loop of every list field: read `count` strings onto `out`. -/
def unpackStrings : Nat → LaserSerializer → List Bytes → Verdict × List Bytes × LaserSerializer
  | 0, self, out => (.accepted, out, self)
  | count + 1, self, out =>
    match self.unpackString [] with
    | (.accepted, text, self) => unpackStrings count self (out ++ [text])
    | (verdict, _, self) => (verdict, out, self)

variable (self : LaserSerializer)

@[simp] theorem clear_rawData : self.clear.rawData = [] := rfl

@[simp] theorem packInt_rawData [FixedWidth T] (value : T) (order : ByteOrder) :
    (self.packInt value order).rawData = self.rawData ++ intBytes order value := rfl

@[simp] theorem packString_rawData (text : Bytes) :
    (self.packString text).rawData = self.rawData ++ packedString text := by
  unfold packString packedString
  split <;> simp

@[simp] theorem foldl_packString_rawData (texts : List Bytes) :
    (texts.foldl packString self).rawData = self.rawData ++ packedStrings texts := by
  induction texts generalizing self with
  | nil => simp [packedStrings]
  | cons text texts ih => simp [ih, packedStrings]

@[simp] theorem unpackInt_rawData (T : Type) [FixedWidth T] (self : LaserSerializer)
    (order : ByteOrder) : (self.unpackInt T order).2.rawData = self.rawData := by
  unfold unpackInt
  split <;> rfl

variable (result : Bytes)

@[simp] theorem unpackString_rawData : (self.unpackString result).2.2.rawData = self.rawData := by
  have hsize := unpackInt_rawData UInt32 self .little
  unfold unpackString
  split
  · rename_i hread
    rw [hread] at hsize
    exact hsize
  · rename_i hread
    rw [hread] at hsize
    split
    · exact hsize
    · split <;> exact hsize

@[simp] theorem unpackStrings_rawData (self : LaserSerializer) (out : List Bytes) :
    (unpackStrings count self out).2.2.rawData = self.rawData := by
  induction count generalizing self out with
  | zero => rfl
  | succ count ih =>
    have htext := unpackString_rawData self []
    unfold unpackStrings
    split
    · rename_i hread
      rw [hread] at htext
      rw [ih, ← htext]
    · rename_i hread
      rw [hread] at htext
      exact htext

def rest (self : LaserSerializer) : Bytes := self.rawData.drop self.offset.toNat

def advance (self : LaserSerializer) (count : Nat) : LaserSerializer :=
  { self with offset := self.offset + UInt32.ofNat count }

@[simp] theorem advance_rawData :
    (self.advance count).rawData = self.rawData := rfl

@[simp] theorem resetOffset_rawData :
    self.resetOffset.rawData = self.rawData := rfl

@[simp] theorem resetOffset_rest :
    self.resetOffset.rest = self.rawData := rfl

@[simp] theorem ofBuffer_rawData (buffer : Bytes) : (ofBuffer buffer).rawData = buffer := rfl

variable {self : LaserSerializer}

theorem advance_offset {count : Nat} (hbound : self.offset.toNat + count < 2 ^ 32) :
    (self.advance count).offset.toNat = self.offset.toNat + count := by
  simp only [advance, toNat_add, UInt32.toNat_ofNat']
  omega

theorem advance_rest {count : Nat} (hbound : self.offset.toNat + count < 2 ^ 32) :
    (self.advance count).rest = self.rest.drop count := by
  rw [rest, advance_offset hbound, rest, drop_drop, advance_rawData]

theorem length_of_rest {front tail : Bytes} (hrest : self.rest = front ++ tail)
    (hfront : front ≠ []) :
    self.offset.toNat + front.length + tail.length = self.rawData.length := by
  have hlength := congrArg length hrest
  have hpos : 0 < front.length := length_pos_iff.mpr hfront
  rw [rest, length_drop, length_append] at hlength
  omega

variable {order : ByteOrder}

theorem unpackInt_of_offset [FixedWidth T] {value : T} {tail : Bytes}
    (hwidth : 0 < width T) (hoffset : self.offset.toNat + width T < 2 ^ 32)
    (hrest : self.rest = intBytes order value ++ tail) :
    self.unpackInt T order = (some value, self.advance (width T)) ∧
      (self.advance (width T)).rest = tail := by
  have hlength := length_of_rest hrest (intBytes_ne_nil order value hwidth)
  rw [intBytes_length] at hlength
  constructor
  · have henough : ¬self.rawData.length < self.offset.toNat + width T := by omega
    have hread : (self.rawData.drop self.offset.toNat).take (width T) = intBytes order value := by
      change self.rest.take _ = _
      rw [hrest, take_left' (intBytes_length order value)]
    rw [unpackInt, if_neg henough]
    simp only [hread, intOfBytes_intBytes]
    rfl
  · rw [advance_rest hoffset, hrest, drop_left' (intBytes_length order value)]

variable {text tail : Bytes}

/-- The length is written modulo 2^32, and as much of the text is read. -/
theorem unpackString_wraps (hsmall : self.offset.toNat + 4 < 2 ^ 32)
    (hrest : self.rest = intBytes .little (ofNat text.length) ++ (text ++ tail)) :
    self.unpackString result = (.accepted, result ++ text.take (ofNat text.length).toNat,
      (self.advance 4).advance text.length) := by
  obtain ⟨hint, hafter⟩ := unpackInt_of_offset (by decide) hsmall hrest
  change self.unpackInt UInt32 .little = (some _, self.advance 4) at hint
  change (self.advance 4).rest = _ at hafter
  have hsize : (ofNat text.length).toNat ≤ text.length := Nat.mod_le _ _
  have hstart := length_of_rest hrest (intBytes_ne_nil _ _ (by decide))
  rw [intBytes_length, length_append] at hstart
  change self.offset.toNat + 4 + (text.length + tail.length) = _ at hstart
  have hoffset : (self.advance 4).offset.toNat = self.offset.toNat + 4 := advance_offset hsmall
  have hsum : ((self.advance 4).offset + ofNat text.length).toNat ≤
      self.offset.toNat + 4 + text.length := by
    rw [toNat_add, hoffset]
    exact (Nat.mod_le _ _).trans (Nat.add_le_add_left hsize _)
  have hread : (self.rawData.drop (self.offset.toNat + 4)).take (ofNat text.length).toNat =
      text.take (ofNat text.length).toNat := by
    rw [← hoffset]
    change (self.advance 4).rest.take _ = _
    rw [hafter, take_append_of_le_length hsize]
  simp only [unpackString, hint, advance_rawData, hoffset, hread]
  rw [if_neg (by omega), if_neg (by omega)]
  rfl

theorem unpackString_of_offset (htext : text.length < 2 ^ 32)
    (hsmall : self.offset.toNat + 4 < 2 ^ 32)
    (hrest : self.rest = intBytes .little (ofNat text.length) ++ (text ++ tail)) :
    self.unpackString result =
      (.accepted, result ++ text, (self.advance 4).advance text.length) := by
  have hsize : (ofNat text.length).toNat = text.length := UInt32.toNat_ofNat_of_lt' htext
  rw [unpackString_wraps result hsmall hrest, hsize, take_length]

theorem unpackString_length_lt {self next : LaserSerializer} {value : Bytes}
    (hread : self.unpackString [] = (.accepted, value, next)) : value.length < 2 ^ 32 := by
  unfold unpackString at hread
  split at hread
  · simp at hread
  · rename_i size middle hint
    split_ifs at hread with hshort hover
    · simp at hread
    · simp at hread
    · simp only [Prod.mk.injEq, true_and, nil_append] at hread
      rw [← hread.1, length_take]
      exact (min_le_left _ _).trans_lt size.toNat_lt

variable {self : LaserSerializer} (hfit : self.rawData.length < 2 ^ 32)
include hfit

theorem unpackInt_of_rest [FixedWidth T] {value : T} {tail : Bytes}
    (hwidth : 0 < width T) (hrest : self.rest = intBytes order value ++ tail) :
    self.unpackInt T order = (some value, self.advance (width T)) ∧
      (self.advance (width T)).rest = tail := by
  have hlength := length_of_rest hrest (intBytes_ne_nil order value hwidth)
  rw [intBytes_length] at hlength
  exact unpackInt_of_offset hwidth (by omega) hrest

variable {next : LaserSerializer}

theorem unpackInt_complete [FixedWidth T] {value : T}
    (hread : self.unpackInt T order = (some value, next)) :
    next.rawData = self.rawData ∧ self.rest = intBytes order value ++ next.rest := by
  unfold unpackInt at hread
  split at hread
  · simp at hread
  · rename_i henough
    obtain ⟨hvalue, rfl⟩ := Prod.mk.inj hread
    rw [Option.some.injEq] at hvalue
    refine ⟨rfl, ?_⟩
    change self.rest = _ ++ (self.advance (width T)).rest
    have hlength : (self.rest.take (width T)).length = width T := by
      simp only [rest, length_take, length_drop]
      omega
    rw [advance_rest (by omega), ← hvalue]
    change _ = intBytes order (intOfBytes T order (self.rest.take (width T))) ++ _
    rw [intBytes_intOfBytes order hlength, take_append_drop]

theorem unpackString_of_rest (htext : text.length < 2 ^ 32)
    (hrest : self.rest = intBytes .little (ofNat text.length) ++ (text ++ tail)) :
    ∃ next, self.unpackString result = (.accepted, result ++ text, next) ∧
      next.rawData = self.rawData ∧ next.rest = tail := by
  have hstart := length_of_rest hrest (intBytes_ne_nil _ _ (by decide))
  rw [intBytes_length, length_append] at hstart
  change self.offset.toNat + 4 + (text.length + tail.length) = _ at hstart
  have hoffset : (self.advance 4).offset.toNat = self.offset.toNat + 4 := advance_offset (by omega)
  refine ⟨(self.advance 4).advance text.length,
    unpackString_of_offset result htext (by omega) hrest, rfl, ?_⟩
  have hwidth : (intBytes .little (ofNat text.length)).length = 4 := intBytes_length _ _
  rw [advance_rest (by omega), advance_rest (by omega), hrest, drop_left' hwidth, drop_left]

theorem unpackString_complete {result value : Bytes}
    (hread : self.unpackString result = (.accepted, value, next)) :
    ∃ text, value = result ++ text ∧ text.length < 2 ^ 32 ∧ next.rawData = self.rawData ∧
      self.rest = intBytes .little (ofNat text.length) ++ text ++ next.rest := by
  unfold unpackString at hread
  split at hread
  · simp at hread
  · rename_i size middle hint
    obtain ⟨hraw, hrest⟩ := unpackInt_complete hfit hint
    have hmiddle := length_of_rest hrest (intBytes_ne_nil _ _ (by decide))
    rw [intBytes_length] at hmiddle
    change self.offset.toNat + 4 + middle.rest.length = _ at hmiddle
    split_ifs at hread with hshort hover
    · simp at hread
    · simp at hread
    · simp only [Prod.mk.injEq, true_and] at hread
      obtain ⟨hvalue, rfl⟩ := hread
      have hlength : (middle.rest.take size.toNat).length = size.toNat := by
        simp only [rest, length_take, length_drop]
        omega
      have hsize : (ofNat (middle.rest.take size.toNat).length) = size := by
        rw [hlength, ofNat_toNat]
      refine ⟨middle.rest.take size.toNat, hvalue.symm, ?_, hraw, ?_⟩
      · rw [hlength]
        exact size.toNat_lt
      · have hnext : ({ middle with offset := middle.offset + size } : LaserSerializer) =
            middle.advance size.toNat := by
          simp [advance, ofNat_toNat]
        rw [hnext, hsize, advance_rest (by rw [hraw] at hover; omega), hrest, append_assoc,
          take_append_drop]

end LaserSerializer

theorem length_unpackStrings_le (buffer : LaserSerializer) (out : List Bytes) :
    (buffer.unpackStrings count out).2.1.length ≤ out.length + count := by
  induction count generalizing buffer out with
  | zero => simp [LaserSerializer.unpackStrings]
  | succ count ih =>
    rw [LaserSerializer.unpackStrings]
    split
    · rename_i text next _
      have hrest := ih next (out ++ [text])
      rw [length_append, length_singleton] at hrest
      omega
    · dsimp only
      omega

end LaserDB
