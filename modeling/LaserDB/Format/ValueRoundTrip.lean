import LaserDB.Format.ValueLaws

/-!
# Round trips of the value formats

A string comes back if its length has been written and fits 32 bits, the members of a zset if each
one stands where the reader looks for it.
-/

namespace LaserDB

open LaserSerializer

open List ByteCodec LaserValue SizeMeta
open UInt32 (ofNat toNat_ofNat_of_lt' toNat_add)
open FixedWidth (width)

namespace LaserSerializer

/-- Each text stands behind its length where the 32-bit offset of the reader points. -/
def StandsAt (buffer : Bytes) : UInt32 → List Bytes → Prop
  | _, [] => True
  | offset, text :: texts =>
    text.length < 2 ^ 32 ∧
      intBytes .little (UInt32.ofNat text.length) <+: buffer.drop offset.toNat ∧
      text <+: buffer.drop (offset + 4).toNat ∧
      StandsAt buffer (offset + 4 + UInt32.ofNat text.length) texts

variable (texts : List Bytes)

section
variable {self next : LaserSerializer}

theorem unpackInt_eq_some_iff [FixedWidth T] {order : ByteOrder} {value : T}
    (hwidth : 0 < width T) :
    self.unpackInt T order = (some value, next) ↔
      intBytes order value <+: self.rawData.drop self.offset.toNat ∧
        next = self.advance (width T) := by
  unfold unpackInt
  constructor
  · intro hread
    split_ifs at hread with hshort
    · simp at hread
    · obtain ⟨hvalue, hnext⟩ := Prod.mk.inj hread
      rw [Option.some.injEq] at hvalue
      have hlength : ((self.rawData.drop self.offset.toNat).take (width T)).length =
          width T := by
        rw [length_take, length_drop]
        omega
      refine ⟨?_, hnext.symm⟩
      rw [← hvalue, intBytes_intOfBytes order hlength]
      exact take_prefix _ _
  · rintro ⟨⟨tail, htail⟩, rfl⟩
    have hlength := congrArg length htail
    rw [length_append, intBytes_length, length_drop] at hlength
    have hread : (self.rawData.drop self.offset.toNat).take (width T) =
        intBytes order value := by
      rw [← htail, take_left' (intBytes_length order value)]
    rw [if_neg (by omega)]
    simp only [hread, intOfBytes_intBytes]
    rfl

theorem unpackString_eq_accepted_iff {text : Bytes} :
    self.unpackString [] = (.accepted, text, next) ↔ StandsAt self.rawData self.offset [text] ∧
        next = { self with offset := self.offset + 4 + ofNat text.length } := by
  unfold unpackString
  constructor
  · intro hread
    split at hread
    · simp at hread
    · rename_i size middle hsize
      obtain ⟨hbytes, rfl⟩ := (unpackInt_eq_some_iff (by decide)).mp hsize
      split_ifs at hread with hshort hover
      · simp at hread
      · simp at hread
      · simp only [Prod.mk.injEq, true_and, nil_append] at hread
        obtain ⟨htext, hnext⟩ := hread
        change ¬self.rawData.length < (self.offset + 4).toNat + size.toNat at hover
        have hlength : text.length = size.toNat := by
          rw [← htext, length_take, length_drop]
          change min size.toNat (self.rawData.length - (self.offset + 4).toNat) = size.toNat
          omega
        have hround : ofNat text.length = size := by
          rw [hlength, UInt32.ofNat_toNat]
        refine ⟨⟨?_, ?_, ?_, trivial⟩, ?_⟩
        · rw [hlength]
          exact size.toNat_lt
        · rw [hround]
          exact hbytes
        · rw [← htext]
          exact take_prefix _ _
        · rw [hround, ← hnext]
          rfl
  · rintro ⟨⟨hfit, hbytes, ⟨tail, htail⟩, -⟩, rfl⟩
    have hsize : self.unpackInt UInt32 .little =
        (some (ofNat text.length), self.advance 4) :=
      (unpackInt_eq_some_iff (by decide)).mpr ⟨hbytes, rfl⟩
    have hcount : (ofNat text.length).toNat = text.length := toNat_ofNat_of_lt' hfit
    have hlength := congrArg length htail
    rw [length_append, length_drop] at hlength
    have hstart := hbytes.length_le
    rw [intBytes_length, length_drop] at hstart
    change 4 ≤ _ at hstart
    have hmiddle : (self.offset + 4).toNat ≤ self.offset.toNat + 4 := by
      rw [toNat_add]
      exact Nat.mod_le _ _
    have hend : (self.offset + 4 + ofNat text.length).toNat ≤
        (self.offset + 4).toNat + text.length := by
      rw [toNat_add, hcount]
      exact Nat.mod_le _ _
    have hadvance : (self.advance 4).offset = self.offset + 4 := rfl
    simp only [hsize, hadvance, advance_rawData, hcount, nil_append]
    rw [if_neg (by omega), if_neg (by omega), ← htail, take_left]

theorem unpackStrings_append (count : Nat) (self : LaserSerializer) (out : List Bytes) :
    unpackStrings count self out =
      ((unpackStrings count self []).1, out ++ (unpackStrings count self []).2.1,
        (unpackStrings count self []).2.2) := by
  induction count generalizing self out with
  | zero => simp [unpackStrings]
  | succ count ih =>
    unfold unpackStrings
    split
    · rename_i text next _
      rw [ih next (out ++ [text]), ih next ([] ++ [text])]
      simp
    · simp

theorem unpackStrings_eq_accepted_iff :
    (self.unpackStrings texts.length []).1 = .accepted ∧
        (self.unpackStrings texts.length []).2.1 = texts ↔
      StandsAt self.rawData self.offset texts := by
  induction texts generalizing self with
  | nil => simp [unpackStrings, StandsAt]
  | cons text texts ih =>
    rw [length_cons, unpackStrings]
    constructor
    · intro hread
      split at hread
      · rename_i first next hfirst
        rw [unpackStrings_append] at hread
        obtain ⟨hverdict, htexts⟩ := hread
        simp only [nil_append, cons_append, cons.injEq] at htexts
        obtain ⟨rfl, hrest⟩ := htexts
        obtain ⟨⟨hfit, hsize, htext, -⟩, rfl⟩ := unpackString_eq_accepted_iff.mp hfirst
        exact ⟨hfit, hsize, htext, ih.mp ⟨hverdict, hrest⟩⟩
      · rename_i hne _
        obtain ⟨hverdict, -⟩ := hread
        dsimp only at hverdict
        subst hverdict
        exact (hne rfl).elim
    · rintro ⟨hfit, hsize, htext, hrest⟩
      have hfirst := unpackString_eq_accepted_iff.mpr
        ⟨(⟨hfit, hsize, htext, trivial⟩ : StandsAt self.rawData self.offset [text]), rfl⟩
      obtain ⟨hverdict, htexts⟩ := (@ih { self with
        offset := self.offset + 4 + ofNat text.length }).mpr hrest
      rw [hfirst]
      dsimp only
      rw [unpackStrings_append]
      exact ⟨hverdict, by rw [htexts]; rfl⟩

end

def placed (texts : List Bytes) : Nat := (texts.map fun text => 4 + text.length).sum

theorem StandsAt.placed_le {buffer : Bytes} (hfit : buffer.length < 2 ^ 32) {offset : UInt32}
    {texts : List Bytes} (htexts : texts ≠ []) (hstands : StandsAt buffer offset texts) :
    offset.toNat + placed texts ≤ buffer.length := by
  induction texts generalizing offset with
  | nil => exact absurd rfl htexts
  | cons text texts ih =>
    obtain ⟨hlength, hsize, htext, hrest⟩ := hstands
    have hstart := hsize.length_le
    rw [intBytes_length, length_drop] at hstart
    change 4 ≤ _ at hstart
    have hmiddle : (offset + 4).toNat = offset.toNat + 4 := by
      rw [toNat_add]
      exact Nat.mod_eq_of_lt (by change offset.toNat + 4 < _; omega)
    have hlong := htext.length_le
    rw [length_drop, hmiddle] at hlong
    have hend : (offset + 4 + ofNat text.length).toNat = offset.toNat + 4 + text.length := by
      rw [toNat_add, hmiddle, toNat_ofNat_of_lt' hlength]
      exact Nat.mod_eq_of_lt (by omega)
    have hplaced : placed (text :: texts) = 4 + text.length + placed texts := by
      simp [placed]
    by_cases hnil : texts = []
    · subst hnil
      have hzero : placed [] = 0 := rfl
      omega
    · have hle := ih hnil hrest
      omega

theorem length_packedStrings_le : (packedStrings texts).length ≤ placed texts := by
  induction texts with
  | nil => exact le_rfl
  | cons text texts ih =>
    have hfirst := packedString_length text
    have hplaced : placed (text :: texts) = 4 + text.length + placed texts := by
      simp [placed]
    rw [packedStrings_cons, length_append, hplaced]
    split_ifs at hfirst <;> omega

theorem length_packedStrings_lt {texts : List Bytes} (hempty : ¬NoEmpty texts) :
    (packedStrings texts).length < placed texts := by
  induction texts with
  | nil => exact absurd (by simp [NoEmpty]) hempty
  | cons text texts ih =>
    have hfirst := packedString_length text
    have hplaced : placed (text :: texts) = 4 + text.length + placed texts := by
      simp [placed]
    have hrest := length_packedStrings_le texts
    rw [packedStrings_cons, length_append, hplaced]
    by_cases htext : text = []
    · rw [if_pos htext] at hfirst
      omega
    · have hless := ih fun htexts => hempty (noEmpty_cons.mpr ⟨htext, htexts⟩)
      rw [if_neg htext] at hfirst
      omega

end LaserSerializer

inductive ValueContent where
  | rawString (value : Bytes)
  | counter (value : Int64)
  | mapMeta (size : UInt32)
  | listMeta (start endIndex : Int64)
  | setMeta (size : UInt32)
  | zsetMeta (size : UInt32)
  | zset (members : List Bytes)
  deriving DecidableEq, Repr

namespace ValueContent

def type : ValueContent → ValueType
  | .rawString _ => .RAW_STRING
  | .counter _ => .COUNTER
  | .mapMeta _ => .MAP
  | .listMeta _ _ => .LIST
  | .setMeta _ => .SET
  | .zsetMeta _ | .zset _ => .ZSET

def stored {V : Type} [LaserValue V] (timestamp : UInt64) (value : V) : Bytes :=
  rawData (encode (setTimestamp value timestamp))

def encode (timestamp : UInt64) : ValueContent → Bytes
  | .rawString value => stored timestamp { LaserValueRawString.new with value := value }
  | .counter value => stored timestamp { LaserValueCounter.new with value := value }
  | .mapMeta size => stored timestamp (⟨.ofType .MAP, size⟩ : LaserValueMapMeta)
  | .listMeta start endIndex =>
    stored timestamp { LaserValueListMeta.new with start := start, endIndex := endIndex }
  | .setMeta size => stored timestamp (⟨.ofType .SET, size⟩ : LaserValueSetMeta)
  | .zsetMeta size => stored timestamp (⟨.ofType .ZSET, size⟩ : LaserValueZSetMeta)
  | .zset members => stored timestamp { LaserValueZSet.new with members := members }

def seen {V : Type} [LaserValue V] (fresh : V) (content : V → ValueContent) :
    Verdict × ValueType × UInt64 × ValueContent :=
  match decode fresh with
  | (verdict, value) =>
    (verdict, getType value, getTimestamp value, content value)

def decode (shape : ValueContent) (buffer : Bytes) :
    Verdict × ValueType × UInt64 × ValueContent :=
  match shape with
  | .rawString _ => seen (LaserValueRawString.ofBuffer buffer) fun value => .rawString value.value
  | .counter _ => seen (LaserValueCounter.ofBuffer buffer) fun value => .counter value.value
  | .mapMeta _ => seen (ofBuffer buffer : LaserValueMapMeta) fun value => .mapMeta value.size
  | .listMeta _ _ =>
    seen (LaserValueListMeta.ofBuffer buffer) fun value => .listMeta value.start value.endIndex
  | .setMeta _ => seen (ofBuffer buffer : LaserValueSetMeta) fun value => .setMeta value.size
  | .zsetMeta _ =>
    seen (ofBuffer buffer : LaserValueZSetMeta) fun value => .zsetMeta value.size
  | .zset _ => seen (LaserValueZSet.ofBuffer buffer) fun value => .zset value.members

def RoundTrips (timestamp : UInt64) (content : ValueContent) : Prop :=
  content.decode (content.encode timestamp) = (.accepted, content.type, timestamp, content)

instance (timestamp : UInt64) (content : ValueContent) :
    Decidable (content.RoundTrips timestamp) := inferInstanceAs (Decidable (_ = _))

/-- No string is empty, and lengths and offsets fit 32 bits.  A zset record of 4 GiB and more is read
back only if the members stand where the wrapped offset points. -/
def Readable (timestamp : UInt64) : ValueContent → Prop
  | .rawString value => value ≠ [] ∧ value.length < 2 ^ 32
  | .zset members =>
    if (zsetBytes timestamp members).length < 2 ^ 32 then NoEmpty members
    else members.length < 2 ^ 32 ∧ LaserSerializer.StandsAt (zsetBytes timestamp members) 13 members
  | _ => True

variable (timestamp : UInt64)

variable (self : LaserValueZSet)

variable {members : List Bytes}

theorem zset_accepted_iff (hself : self.members = [])
    (hraw : self.rawData = zsetBytes timestamp members) :
    self.decode.1 = .accepted ∧ self.decode.2.members = members ↔ members.length < 2 ^ 32 ∧
        LaserSerializer.StandsAt (zsetBytes timestamp members) 13 members := by
  obtain ⟨buffer, hdecode, hbuffer, hoffset, hrest⟩ :=
    decodeAs_of_rawData self.toLaserValueFormatBase .ZSET hraw
  obtain ⟨hsize, -⟩ := unpackInt_of_offset (by decide)
    (by rw [hoffset]; decide) hrest
  have hplace : (buffer.advance 4).offset = 13 := by
    apply UInt32.toNat_inj.mp
    rw [advance_offset (by rw [hoffset]; decide), hoffset]
    rfl
  have hdata : (buffer.advance 4).rawData = zsetBytes timestamp members := hbuffer.trans hraw
  have hresult : self.decode.1 =
        ((buffer.advance 4).unpackStrings (ofNat members.length).toNat []).1 ∧
      self.decode.2.members =
        ((buffer.advance 4).unpackStrings (ofNat members.length).toNat []).2.1 := by
    change buffer.unpackInt UInt32 .little = (_, buffer.advance 4) at hsize
    rw [LaserValueZSet.decode, hdecode]
    dsimp only
    rw [hsize, hself]
    exact ⟨rfl, rfl⟩
  rw [hresult.1, hresult.2, ← hdata, ← hplace]
  constructor
  · rintro ⟨hverdict, hmembers⟩
    have hfit : members.length < 2 ^ 32 := by
      have hlength := length_unpackStrings_le (ofNat members.length).toNat
        (buffer.advance 4) []
      rw [hmembers] at hlength
      have hlt := (ofNat members.length).toNat_lt
      simp only [length_nil, Nat.zero_add] at hlength
      omega
    rw [toNat_ofNat_of_lt' hfit] at hverdict hmembers
    exact ⟨hfit, (unpackStrings_eq_accepted_iff members).mp ⟨hverdict, hmembers⟩⟩
  · rintro ⟨hfit, hstands⟩
    rw [toNat_ofNat_of_lt' hfit]
    exact (unpackStrings_eq_accepted_iff members).mpr hstands

theorem zset_accepted_iff_noEmpty (hself : self.members = [])
    (hraw : self.rawData = zsetBytes timestamp members)
    (hfit : (zsetBytes timestamp members).length < 2 ^ 32) :
    self.decode.1 = .accepted ∧ self.decode.2.members = members ↔ NoEmpty members := by
  constructor
  · intro hread
    obtain ⟨-, hstands⟩ := (zset_accepted_iff timestamp self hself hraw).mp hread
    by_contra hempty
    have hless := length_packedStrings_lt hempty
    have hne : members ≠ [] := by
      rintro rfl
      exact hempty (by simp [NoEmpty])
    have hplaced := hstands.placed_le hfit hne
    have hlength : (zsetBytes timestamp members).length = 13 + (packedStrings members).length := by
      rw [zsetBytes, length_append, length_append, headBytes_length, intBytes_length]
      change 9 + (4 + _) = _
      omega
    have hthirteen : (13 : UInt32).toNat = 13 := rfl
    omega
  · intro hmembers
    obtain ⟨buffer, hdecode⟩ := zset_decode self hraw hmembers hfit
    rw [hdecode, hself]
    exact ⟨rfl, rfl⟩

variable (content : ValueContent)

theorem encode_eq :
    content.encode timestamp =
      match content with
      | .rawString value => rawStringBytes timestamp value
      | .counter value => counterBytes timestamp value
      | .mapMeta size => sizeMetaBytes .MAP timestamp size
      | .listMeta start endIndex => listMetaBytes timestamp start endIndex
      | .setMeta size => sizeMetaBytes .SET timestamp size
      | .zsetMeta size => sizeMetaBytes .ZSET timestamp size
      | .zset members => zsetBytes timestamp members := by
  cases content with
  | rawString value => exact rawString_encode_rawData _
  | counter value => exact counter_encode_rawData _
  | listMeta start endIndex => exact listMeta_encode_rawData _
  | mapMeta size | setMeta size | zsetMeta size => exact sizeMeta_encode_rawData _
  | zset members => exact zset_encode_rawData _

theorem seen_of_decode [LaserValue V] {fresh value : V}
    (content : V → ValueContent) (hdecode : LaserValue.decode fresh = (.accepted, value)) :
    seen fresh content =
      (.accepted, LaserValue.getType value, LaserValue.getTimestamp value, content value) := by
  rw [seen, hdecode]

theorem roundTrips_rawString_iff (value : Bytes) :
    (rawString value).RoundTrips timestamp ↔ value ≠ [] ∧ value.length < 2 ^ 32 := by
  unfold RoundTrips
  rw [encode_eq]
  have haccepted := rawString_accepted_iff timestamp
    (.ofBuffer (rawStringBytes timestamp value)) rfl
  constructor
  · intro hread
    obtain ⟨hverdict, hseen⟩ := Prod.mk.inj hread
    refine haccepted.mp ⟨hverdict, ?_⟩
    exact rawString.inj (Prod.mk.inj (Prod.mk.inj hseen).2).2
  · intro hreadable
    obtain ⟨buffer, hdecode⟩ :=
      rawString_decode (.ofBuffer (rawStringBytes timestamp value)) rfl hreadable.1 hreadable.2
    exact seen_of_decode (fun value : LaserValueRawString => .rawString value.value) hdecode

theorem zset_decode_head (hraw : self.rawData = zsetBytes timestamp members) :
    self.decode.2.type = .ZSET ∧ self.decode.2.timestamp = timestamp := by
  obtain ⟨buffer, hdecode, -⟩ := decodeAs_of_rawData self.toLaserValueFormatBase .ZSET hraw
  rw [LaserValueZSet.decode, hdecode]
  dsimp only
  split
  · exact ⟨rfl, rfl⟩
  · exact ⟨rfl, rfl⟩

theorem roundTrips_zset_iff (members : List Bytes) :
    (zset members).RoundTrips timestamp ↔
      (LaserValueZSet.ofBuffer (zsetBytes timestamp members)).decode.1 = .accepted ∧
        (LaserValueZSet.ofBuffer (zsetBytes timestamp members)).decode.2.members = members := by
  unfold RoundTrips
  rw [encode_eq]
  constructor
  · intro hread
    obtain ⟨hverdict, hseen⟩ := Prod.mk.inj hread
    exact ⟨hverdict, zset.inj (Prod.mk.inj (Prod.mk.inj hseen).2).2⟩
  · rintro ⟨hverdict, hmembers⟩
    obtain ⟨htype, htime⟩ := zset_decode_head timestamp
      (LaserValueZSet.ofBuffer (zsetBytes timestamp members)) rfl
    exact Prod.ext hverdict (Prod.ext htype (Prod.ext htime (congrArg zset hmembers)))

theorem roundTrips_iff_readable : content.RoundTrips timestamp ↔ content.Readable timestamp := by
  cases content with
  | counter value =>
    obtain ⟨buffer, hdecode⟩ := counter_decode (.ofBuffer (counterBytes timestamp value)) rfl
    refine iff_of_true ?_ trivial
    rw [RoundTrips, encode_eq]
    exact seen_of_decode (fun value : LaserValueCounter => .counter value.value) hdecode
  | mapMeta size =>
    obtain ⟨buffer, hdecode⟩ := sizeMeta_decode (ofBuffer (sizeMetaBytes .MAP timestamp size)) rfl
    refine iff_of_true ?_ trivial
    rw [RoundTrips, encode_eq]
    exact seen_of_decode (fun value : LaserValueMapMeta => .mapMeta value.size) hdecode
  | setMeta size =>
    obtain ⟨buffer, hdecode⟩ := sizeMeta_decode (ofBuffer (sizeMetaBytes .SET timestamp size)) rfl
    refine iff_of_true ?_ trivial
    rw [RoundTrips, encode_eq]
    exact seen_of_decode (fun value : LaserValueSetMeta => .setMeta value.size) hdecode
  | zsetMeta size =>
    obtain ⟨buffer, hdecode⟩ := sizeMeta_decode (ofBuffer (sizeMetaBytes .ZSET timestamp size)) rfl
    refine iff_of_true ?_ trivial
    rw [RoundTrips, encode_eq]
    exact seen_of_decode (fun value : LaserValueZSetMeta => .zsetMeta value.size) hdecode
  | listMeta start endIndex =>
    obtain ⟨buffer, hdecode⟩ :=
      listMeta_decode (.ofBuffer (listMetaBytes timestamp start endIndex)) rfl
    refine iff_of_true ?_ trivial
    rw [RoundTrips, encode_eq]
    exact seen_of_decode
      (fun value : LaserValueListMeta => .listMeta value.start value.endIndex) hdecode
  | rawString value => exact roundTrips_rawString_iff timestamp value
  | zset members =>
    rw [roundTrips_zset_iff, Readable]
    split_ifs with hfit
    · exact zset_accepted_iff_noEmpty timestamp _ rfl rfl hfit
    · exact zset_accepted_iff timestamp _ rfl rfl

end ValueContent

end LaserDB
