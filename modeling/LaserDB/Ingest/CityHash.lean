import LaserDB.Library.ByteCodec

/-!
# CityHash

The server and the Go client hash with a library, CityHash64 in its version 1.1, whose words are
unsigned.  `CityHash.java` is a port of it to `long`, `int` and `byte`; indices and lengths of an
array, which are not negative, are `Nat`, and a length is an `int` where it is an operand.
-/

namespace LaserDB

open ByteCodec List

/-- What the loop over chunks of 64 bytes keeps. -/
structure CityHash.Chunk (W : Type) where
  x : W
  y : W
  z : W
  v : W × W
  w : W × W

namespace CityHash.Reference

def k0 : UInt64 := 0xc3a5c85c97cb3127

def k1 : UInt64 := 0xb492b66fbe98f273

def k2 : UInt64 := 0x9ae16a3b2f90404f

def bswap64 (x : UInt64) : UInt64 :=
  ((x &&& 0xff00000000000000) >>> 56) ||| ((x &&& 0x00ff000000000000) >>> 40) |||
    ((x &&& 0x0000ff0000000000) >>> 24) ||| ((x &&& 0x000000ff00000000) >>> 8) |||
    ((x &&& 0x00000000ff000000) <<< 8) ||| ((x &&& 0x0000000000ff0000) <<< 24) |||
    ((x &&& 0x000000000000ff00) <<< 40) ||| ((x &&& 0x00000000000000ff) <<< 56)

def fetch64 (s : Bytes) (pos : Nat) : UInt64 :=
  intOfBytes UInt64 .little ((s.drop pos).take 8)

def fetch32 (s : Bytes) (pos : Nat) : UInt32 :=
  intOfBytes UInt32 .little ((s.drop pos).take 4)

def rotate (val : UInt64) (shift : Nat) : UInt64 :=
  if shift = 0 then val
  else (val >>> UInt64.ofNat shift) ||| (val <<< UInt64.ofNat (64 - shift))

def shiftMix (val : UInt64) : UInt64 := val ^^^ (val >>> 47)

def hashLen16Mul (u v mul : UInt64) : UInt64 :=
  let a := (u ^^^ v) * mul
  let a := a ^^^ (a >>> 47)
  let b := (v ^^^ a) * mul
  let b := b ^^^ (b >>> 47)
  b * mul

/-- `hash128to64` of a low and a high word. -/
def hashLen16 (u v : UInt64) : UInt64 := hashLen16Mul u v 0x9ddfea08eb382d69

def hashLen0to16 (s : Bytes) (pos len : Nat) : UInt64 :=
  if len ≥ 8 then
    let mul := k2 + UInt64.ofNat len * 2
    let a := fetch64 s pos + k2
    let b := fetch64 s (pos + len - 8)
    let c := rotate b 37 * mul + a
    let d := (rotate a 25 + b) * mul
    hashLen16Mul c d mul
  else if len ≥ 4 then
    let mul := k2 + UInt64.ofNat len * 2
    let a := (fetch32 s pos).toUInt64
    hashLen16Mul (UInt64.ofNat len + (a <<< 3)) (fetch32 s (pos + len - 4)).toUInt64 mul
  else if len > 0 then
    let a := s.getD pos 0
    let b := s.getD (pos + len / 2) 0
    let c := s.getD (pos + len - 1) 0
    let y := a.toUInt32 + (b.toUInt32 <<< 8)
    let z := UInt32.ofNat len + (c.toUInt32 <<< 2)
    shiftMix (y.toUInt64 * k2 ^^^ z.toUInt64 * k0) * k2
  else k2

def hashLen17to32 (s : Bytes) (pos len : Nat) : UInt64 :=
  let mul := k2 + UInt64.ofNat len * 2
  let a := fetch64 s pos * k1
  let b := fetch64 s (pos + 8)
  let c := fetch64 s (pos + len - 8) * mul
  let d := fetch64 s (pos + len - 16) * k2
  hashLen16Mul (rotate (a + b) 43 + rotate c 30 + d) (a + rotate (b + k2) 18 + c) mul

def hashLen33to64 (s : Bytes) (pos len : Nat) : UInt64 :=
  let mul := k2 + UInt64.ofNat len * 2
  let a := fetch64 s pos * k2
  let b := fetch64 s (pos + 8)
  let c := fetch64 s (pos + len - 24)
  let d := fetch64 s (pos + len - 32)
  let e := fetch64 s (pos + 16) * k2
  let f := fetch64 s (pos + 24) * 9
  let g := fetch64 s (pos + len - 8)
  let h := fetch64 s (pos + len - 16) * mul
  let u := rotate (a + g) 43 + (rotate b 30 + c) * 9
  let v := ((a + g) ^^^ d) + f + 1
  let w := bswap64 ((u + v) * mul) + h
  let x := rotate (e + f) 42 + c
  let y := (bswap64 ((v + w) * mul) + g) * mul
  let z := e + f + c
  let a := bswap64 ((x + z) * mul + y) + b
  let b := shiftMix ((z + a) * mul + d + h) * mul
  b + x

def weakHashLen32WithSeeds (s : Bytes) (pos : Nat) (a b : UInt64) : UInt64 × UInt64 :=
  let w := fetch64 s pos
  let x := fetch64 s (pos + 8)
  let y := fetch64 s (pos + 16)
  let z := fetch64 s (pos + 24)
  let a := a + w
  let b := rotate (b + a + z) 21
  let c := a
  let a := a + x
  let a := a + y
  let b := b + rotate a 44
  (a + z, b + c)

def chunkRound (s : Bytes) (pos : Nat) (state : Chunk UInt64) : Chunk UInt64 :=
  let x := rotate (state.x + state.y + state.v.1 + fetch64 s (pos + 8)) 37 * k1
  let y := rotate (state.y + state.v.2 + fetch64 s (pos + 48)) 42 * k1
  let x := x ^^^ state.w.2
  let y := y + (state.v.1 + fetch64 s (pos + 40))
  let z := rotate (state.z + state.w.1) 33 * k1
  let v := weakHashLen32WithSeeds s pos (state.v.2 * k1) (x + state.w.1)
  let w := weakHashLen32WithSeeds s (pos + 32) (z + state.w.2) (y + fetch64 s (pos + 16))
  ⟨z, y, x, v, w⟩

def cityHash64 (s : Bytes) (pos len : Nat) : UInt64 :=
  if len ≤ 32 then
    if len ≤ 16 then hashLen0to16 s pos len else hashLen17to32 s pos len
  else if len ≤ 64 then hashLen33to64 s pos len
  else
    let x := fetch64 s (pos + len - 40)
    let y := fetch64 s (pos + len - 16) + fetch64 s (pos + len - 56)
    let z := hashLen16 (fetch64 s (pos + len - 48) + UInt64.ofNat len) (fetch64 s (pos + len - 24))
    let v := weakHashLen32WithSeeds s (pos + len - 64) (UInt64.ofNat len) z
    let w := weakHashLen32WithSeeds s (pos + len - 32) (y + k1) x
    let x := x * k1 + fetch64 s pos
    let state := (range' pos ((len - 1) / 64) 64).foldl (fun state pos => chunkRound s pos state)
      ⟨x, y, z, v, w⟩
    hashLen16 (hashLen16 state.v.1 state.w.1 + shiftMix state.y * k1 + state.z)
      (hashLen16 state.v.2 state.w.2 + state.x)

def cityHash64WithSeeds (s : Bytes) (pos len : Nat) (seed0 seed1 : UInt64) : UInt64 :=
  hashLen16 (cityHash64 s pos len - seed0) seed1

def cityHash64WithSeed (s : Bytes) (pos len : Nat) (seed : UInt64) : UInt64 :=
  cityHash64WithSeeds s pos len k2 seed

theorem mul_odd_injective {mul : UInt64} (hodd : mul.toNat % 2 = 1) :
    Function.Injective (· * mul) := by
  intro first second heq
  have hcoprime : Nat.Coprime (2 ^ 64) mul.toNat :=
    Nat.Coprime.pow_left _ (Nat.coprime_two_left.mpr (Nat.odd_iff.mpr hodd))
  have hnat : first.toNat * mul.toNat ≡ second.toNat * mul.toNat [MOD 2 ^ 64] := by
    simpa [UInt64.toNat_mul, Nat.ModEq] using congrArg UInt64.toNat heq
  have hmod := Nat.ModEq.cancel_right_of_coprime hcoprime hnat
  rw [Nat.ModEq, Nat.mod_eq_of_lt first.toNat_lt, Nat.mod_eq_of_lt second.toNat_lt] at hmod
  exact UInt64.toNat_inj.mp hmod

/-- A word without low bits whose mix has none either has no high bits. -/
theorem shiftMix_eq_self {value : UInt64} (hvalue : value.toUInt32 = 0)
    (hmix : (shiftMix value).toUInt32 = 0) : value.toNat < 2 ^ 47 ∧ shiftMix value = value := by
  rw [shiftMix, UInt64.toUInt32_xor, hvalue, UInt32.zero_xor] at hmix
  have hnat : value.toNat / 2 ^ 47 % 2 ^ 32 = 0 := by
    simpa [Nat.shiftRight_eq_div_pow] using congrArg UInt32.toNat hmix
  have hlt := value.toNat_lt
  have hzero : value >>> 47 = 0 := by
    rw [← UInt64.toNat_inj, UInt64.toNat_shiftRight, Nat.shiftRight_eq_div_pow]
    change value.toNat / 2 ^ 47 = 0
    omega
  exact ⟨by omega, by rw [shiftMix, hzero, UInt64.xor_zero]⟩

theorem shiftMix_xor (first second : UInt64) :
    shiftMix first ^^^ shiftMix second = shiftMix (first ^^^ second) := by
  rw [shiftMix, shiftMix, shiftMix, UInt64.shiftRight_xor]
  ac_rfl

theorem shiftMix_injective : Function.Injective shiftMix := by
  intro first second heq
  have hmix := shiftMix_xor first second
  rw [heq, UInt64.xor_self, shiftMix, eq_comm, UInt64.xor_eq_zero_iff] at hmix
  have hnat := congrArg UInt64.toNat hmix
  rw [UInt64.toNat_shiftRight, Nat.shiftRight_eq_div_pow] at hnat
  change (first ^^^ second).toNat = (first ^^^ second).toNat / 2 ^ 47 at hnat
  rw [← UInt64.xor_eq_zero_iff, ← UInt64.toNat_inj]
  change _ = 0
  omega

end CityHash.Reference

namespace CityHash

/-- What the server and the Go client call, on all bytes of a string. -/
def reference (s : Bytes) (seed : UInt64) : UInt64 :=
  Reference.cityHash64WithSeed s 0 s.length seed

def k0 : Int64 := 0xc3a5c85c97cb3127

def k1 : Int64 := 0xb492b66fbe98f273

def k2 : Int64 := 0x9ae16a3b2f90404f

/-- `>>>` of a `long`. -/
def ushr (value : Int64) (shift : Nat) : Int64 :=
  (value.toUInt64 >>> UInt64.ofNat shift).toInt64

def bswap64 (x : Int64) : Int64 :=
  ushr (x &&& 0xff00000000000000) 56 ||| ushr (x &&& 0x00ff000000000000) 40 |||
    ushr (x &&& 0x0000ff0000000000) 24 ||| ushr (x &&& 0x000000ff00000000) 8 |||
    ((x &&& 0x00000000ff000000) <<< 8) ||| ((x &&& 0x0000000000ff0000) <<< 24) |||
    ((x &&& 0x000000000000ff00) <<< 40) ||| ((x &&& 0x00000000000000ff) <<< 56)

def byteAt (b : Bytes) (i : Nat) : Int8 := (b.getD i 0).toInt8

/-- `b & 0xFF`, where the byte becomes an `int`. -/
def staticCastToInt (b : Int8) : Int32 := b.toInt32 &&& 0xFF

/-- The three lowest bytes are shifted as an `int`, the others as a `long`. -/
def toLongLE (b : Bytes) (i : Nat) : Int64 :=
  ((byteAt b (i + 7)).toInt64 <<< 56) + ((staticCastToInt (byteAt b (i + 6))).toInt64 <<< 48) +
    ((staticCastToInt (byteAt b (i + 5))).toInt64 <<< 40) +
    ((staticCastToInt (byteAt b (i + 4))).toInt64 <<< 32) +
    ((staticCastToInt (byteAt b (i + 3))).toInt64 <<< 24) +
    (staticCastToInt (byteAt b (i + 2)) <<< 16).toInt64 +
    (staticCastToInt (byteAt b (i + 1)) <<< 8).toInt64 + (staticCastToInt (byteAt b i) <<< 0).toInt64

def toIntLE (b : Bytes) (i : Nat) : Int32 :=
  (staticCastToInt (byteAt b (i + 3)) <<< 24) + (staticCastToInt (byteAt b (i + 2)) <<< 16) +
    (staticCastToInt (byteAt b (i + 1)) <<< 8) + (staticCastToInt (byteAt b i) <<< 0)

def fetch64 (s : Bytes) (pos : Nat) : Int64 := toLongLE s pos

def fetch32 (s : Bytes) (pos : Nat) : Int32 := toIntLE s pos

def rotate (val : Int64) (shift : Nat) : Int64 :=
  if shift = 0 then val else ushr val shift ||| (val <<< Int64.ofNat (64 - shift))

def shiftMix (val : Int64) : Int64 := val ^^^ ushr val 47

def hash128to64 (x : Int64 × Int64) : Int64 :=
  let kMul := 0x9ddfea08eb382d69
  let a := (x.1 ^^^ x.2) * kMul
  let a := a ^^^ ushr a 47
  let b := (x.2 ^^^ a) * kMul
  let b := b ^^^ ushr b 47
  b * kMul

def hashLen16 (u v : Int64) : Int64 := hash128to64 (u, v)

def hashLen16Mul (u v mul : Int64) : Int64 :=
  let a := (u ^^^ v) * mul
  let a := a ^^^ ushr a 47
  let b := (v ^^^ a) * mul
  let b := b ^^^ ushr b 47
  b * mul

def hashLen0to16 (s : Bytes) (pos len : Nat) : Int64 :=
  if len ≥ 8 then
    let mul := k2 + (Int32.ofNat len * 2).toInt64
    let a := fetch64 s pos + k2
    let b := fetch64 s (pos + len - 8)
    let c := rotate b 37 * mul + a
    let d := (rotate a 25 + b) * mul
    hashLen16Mul c d mul
  else if len ≥ 4 then
    let mul := k2 + (Int32.ofNat len * 2).toInt64
    let a := (fetch32 s pos).toInt64
    hashLen16Mul ((Int32.ofNat len).toInt64 + (a <<< 3)) (fetch32 s (pos + len - 4)).toInt64 mul
  else if len > 0 then
    let a := byteAt s pos
    let b := byteAt s (pos + len / 2)
    let c := byteAt s (pos + len - 1)
    let y := staticCastToInt a + (staticCastToInt b <<< 8)
    let z := Int32.ofNat len + (staticCastToInt c <<< 2)
    shiftMix (y.toInt64 * k2 ^^^ z.toInt64 * k0) * k2
  else k2

def hashLen17to32 (s : Bytes) (pos len : Nat) : Int64 :=
  let mul := k2 + (Int32.ofNat len * 2).toInt64
  let a := fetch64 s pos * k1
  let b := fetch64 s (pos + 8)
  let c := fetch64 s (pos + len - 8) * mul
  let d := fetch64 s (pos + len - 16) * k2
  hashLen16Mul (rotate (a + b) 43 + rotate c 30 + d) (a + rotate (b + k2) 18 + c) mul

def hashLen33to64 (s : Bytes) (pos len : Nat) : Int64 :=
  let mul := k2 + (Int32.ofNat len * 2).toInt64
  let a := fetch64 s pos * k2
  let b := fetch64 s (pos + 8)
  let c := fetch64 s (pos + len - 24)
  let d := fetch64 s (pos + len - 32)
  let e := fetch64 s (pos + 16) * k2
  let f := fetch64 s (pos + 24) * 9
  let g := fetch64 s (pos + len - 8)
  let h := fetch64 s (pos + len - 16) * mul
  let u := rotate (a + g) 43 + (rotate b 30 + c) * 9
  let v := ((a + g) ^^^ d) + f + 1
  let w := bswap64 ((u + v) * mul) + h
  let x := rotate (e + f) 42 + c
  let y := (bswap64 ((v + w) * mul) + g) * mul
  let z := e + f + c
  let a := bswap64 ((x + z) * mul + y) + b
  let b := shiftMix ((z + a) * mul + d + h) * mul
  b + x

def weakHashLen32WithSeeds (s : Bytes) (pos : Nat) (a b : Int64) : Int64 × Int64 :=
  let w := fetch64 s pos
  let x := fetch64 s (pos + 8)
  let y := fetch64 s (pos + 16)
  let z := fetch64 s (pos + 24)
  let a := a + w
  let b := rotate (b + a + z) 21
  let c := a
  let a := a + x
  let a := a + y
  let b := b + rotate a 44
  (a + z, b + c)

def chunkRound (s : Bytes) (pos : Nat) (state : Chunk Int64) : Chunk Int64 :=
  let x := rotate (state.x + state.y + state.v.1 + fetch64 s (pos + 8)) 37 * k1
  let y := rotate (state.y + state.v.2 + fetch64 s (pos + 48)) 42 * k1
  let x := x ^^^ state.w.2
  let y := y + (state.v.1 + fetch64 s (pos + 40))
  let z := rotate (state.z + state.w.1) 33 * k1
  let v := weakHashLen32WithSeeds s pos (state.v.2 * k1) (x + state.w.1)
  let w := weakHashLen32WithSeeds s (pos + 32) (z + state.w.2) (y + fetch64 s (pos + 16))
  ⟨z, y, x, v, w⟩

/-- The loop, for a positive multiple `len` of 64. -/
def chunkLoop (s : Bytes) (pos len : Nat) (state : Chunk Int64) : Chunk Int64 :=
  let state := chunkRound s pos state
  if 64 < len then chunkLoop s (pos + 64) (len - 64) state else state
termination_by len

def cityHash64 (s : Bytes) (pos len : Nat) : Int64 :=
  if len ≤ 32 then
    if len ≤ 16 then hashLen0to16 s pos len else hashLen17to32 s pos len
  else if len ≤ 64 then hashLen33to64 s pos len
  else
    let x := fetch64 s (pos + len - 40)
    let y := fetch64 s (pos + len - 16) + fetch64 s (pos + len - 56)
    let z := hashLen16 (fetch64 s (pos + len - 48) + (Int32.ofNat len).toInt64)
      (fetch64 s (pos + len - 24))
    let v := weakHashLen32WithSeeds s (pos + len - 64) (Int32.ofNat len).toInt64 z
    let w := weakHashLen32WithSeeds s (pos + len - 32) (y + k1) x
    let x := x * k1 + fetch64 s pos
    let blocks := (Int32.ofNat len - 1) &&& ~~~63
    let state := chunkLoop s pos blocks.toInt.toNat ⟨x, y, z, v, w⟩
    hashLen16 (hashLen16 state.v.1 state.w.1 + shiftMix state.y * k1 + state.z)
      (hashLen16 state.v.2 state.w.2 + state.x)

def cityHash64WithSeeds (s : Bytes) (pos len : Nat) (seed0 seed1 : Int64) : Int64 :=
  hashLen16 (cityHash64 s pos len - seed0) seed1

def cityHash64WithSeed (s : Bytes) (pos len : Nat) (seed : Int64) : Int64 :=
  cityHash64WithSeeds s pos len k2 seed

/-- An `int` becomes a `long`: the sign is extended. -/
def widenInt (value : UInt32) : UInt64 := value.toInt32.toInt64.toUInt64

theorem toNat_widenInt (value : UInt32) : (widenInt value).toNat =
    if value.toNat < 2 ^ 31 then value.toNat else value.toNat + (2 ^ 64 - 2 ^ 32) := by
  have hlt := value.toNat_lt
  have hbits : (widenInt value).toBitVec = value.toBitVec.signExtend 64 := by simp [widenInt]
  rw [← UInt64.toNat_toBitVec, hbits, BitVec.toNat_signExtend, BitVec.toNat_setWidth,
    BitVec.msb_eq_decide, UInt32.toNat_toBitVec]
  simp only [decide_eq_true_eq]
  split_ifs <;> omega

theorem widenInt_toUInt32 (value : UInt32) : (widenInt value).toUInt32 = value := by
  have hlt := value.toNat_lt
  rw [← UInt32.toNat_inj, UInt64.toNat_toUInt32, toNat_widenInt]
  split_ifs <;> omega

theorem widenInt_of_lt {value : UInt32} (hsmall : value.toNat < 2 ^ 31) :
    widenInt value = value.toUInt64 := by
  rw [← UInt64.toNat_inj, toNat_widenInt, if_pos hsmall, UInt32.toNat_toUInt64]

theorem toUInt64_toInt64 (value : Int32) : value.toInt64.toUInt64 = widenInt value.toUInt32 := rfl

theorem toUInt64_toInt64_ofNat {len : Nat} (hlen : len < 2 ^ 31) :
    (Int32.ofNat len).toInt64.toUInt64 = UInt64.ofNat len := by
  have hnat : (UInt32.ofNat len).toNat = len :=
    UInt32.toNat_ofNat_of_lt' (by change _ < 2 ^ 32; omega)
  rw [toUInt64_toInt64, Int32.toUInt32_ofNat', widenInt_of_lt (by omega), ← UInt64.toNat_inj,
    UInt32.toNat_toUInt64, hnat, UInt64.toNat_ofNat_of_lt' (by change _ < 2 ^ 64; omega)]

/-- `len * 2` of an `int` that is small. -/
theorem toUInt64_twice {len : Nat} (hlen : len < 2 ^ 30) :
    (Int32.ofNat len * 2).toInt64.toUInt64 = UInt64.ofNat len * 2 := by
  have hmul : Int32.ofNat len * 2 = Int32.ofNat (len * 2) := (Int32.ofNat_mul len 2).symm
  rw [hmul, toUInt64_toInt64_ofNat (by omega), UInt64.ofNat_mul]
  rfl

/-- Shifts by a `long` and by a word both take the number modulo 64. -/
theorem smod_64 (word : BitVec 64) : word.smod 64#64 = word % 64#64 := by
  have hmod : (word % 64#64).toNat = word.toNat % 64 := BitVec.toNat_umod
  have h64 : (64#64).toInt = 64 := rfl
  rw [← BitVec.toInt_inj, BitVec.toInt_smod, h64, Int.fmod_eq_emod_of_nonneg _ (by decide),
    BitVec.toInt_eq_toNat_of_lt (x := word % 64#64) (by omega), hmod, BitVec.toInt_eq_toNat_cond]
  split <;> omega

theorem toUInt64_shiftLeft (value shift : Int64) :
    (value <<< shift).toUInt64 = value.toUInt64 <<< shift.toUInt64 := by
  apply UInt64.toBitVec_inj.mp
  rw [UInt64.toBitVec_shiftLeft, Int64.toBitVec_toUInt64, Int64.toBitVec_shiftLeft]
  exact congrArg _ (smod_64 _)

@[simp] theorem toUInt64_rotate (val : Int64) (shift : Nat) :
    (rotate val shift).toUInt64 = Reference.rotate val.toUInt64 shift := by
  unfold rotate Reference.rotate
  split
  · rfl
  · rw [Int64.toUInt64_or, toUInt64_shiftLeft, Int64.toUInt64_ofNat']
    rfl

@[simp] theorem toUInt64_k0 : k0.toUInt64 = Reference.k0 := rfl

@[simp] theorem toUInt64_k1 : k1.toUInt64 = Reference.k1 := rfl

@[simp] theorem toUInt64_k2 : k2.toUInt64 = Reference.k2 := rfl

@[simp] theorem toUInt64_bswap64 (x : Int64) :
    (bswap64 x).toUInt64 = Reference.bswap64 x.toUInt64 := rfl

@[simp] theorem toUInt64_shiftMix (val : Int64) :
    (shiftMix val).toUInt64 = Reference.shiftMix val.toUInt64 := rfl

@[simp] theorem toUInt64_hashLen16Mul (u v mul : Int64) : (hashLen16Mul u v mul).toUInt64 =
    Reference.hashLen16Mul u.toUInt64 v.toUInt64 mul.toUInt64 := rfl

@[simp] theorem toUInt64_hashLen16 (u v : Int64) :
    (hashLen16 u v).toUInt64 = Reference.hashLen16 u.toUInt64 v.toUInt64 := rfl

theorem staticCastToInt_toInt8 (byte : UInt8) :
    staticCastToInt byte.toInt8 = byte.toUInt32.toInt32 := by
  apply Int32.toBitVec_inj.mp
  apply BitVec.eq_of_getLsbD_eq
  intro i hi
  have hmask : (255#32).getLsbD i = decide (i < 8) := by
    revert i
    decide
  simp [staticCastToInt, BitVec.getLsbD_signExtend, hmask, BitVec.getLsbD_setWidth]
  grind

theorem leNat_take_drop (s : Bytes) (pos width : Nat) :
    leNat ((s.drop pos).take (width + 1)) =
      (s.getD pos 0).toNat + 256 * leNat ((s.drop (pos + 1)).take width) := by
  rw [← drop_drop, getD_eq_getElem?_getD, ← head?_drop]
  cases s.drop pos with
  | nil => simp [leNat]
  | cons byte rest => rfl

theorem toUInt64_highByte (byte : UInt8) :
    (byte.toInt8.toInt64 <<< 56).toUInt64 = byte.toUInt64 <<< 56 := by
  apply UInt64.toBitVec_inj.mp
  apply BitVec.eq_of_getLsbD_eq
  intro i hi
  simp [BitVec.getLsbD_signExtend]
  grind

theorem toUInt64_longByte (byte : UInt8) :
    (staticCastToInt byte.toInt8).toInt64.toUInt64 = byte.toUInt64 := by
  have hlt := byte.toNat_lt
  rw [staticCastToInt_toInt8, toUInt64_toInt64, UInt32.toUInt32_toInt32, widenInt_of_lt]
  · simp
  · simp
    omega

theorem byte_shift_lt (byte : UInt8) {shift width : Nat} (hshift : 8 + shift ≤ width) :
    byte.toNat * 2 ^ shift < 2 ^ width :=
  calc byte.toNat * 2 ^ shift < 2 ^ 8 * 2 ^ shift :=
        Nat.mul_lt_mul_of_pos_right byte.toNat_lt (Nat.two_pow_pos shift)
    _ = 2 ^ (8 + shift) := (Nat.pow_add 2 8 shift).symm
    _ ≤ 2 ^ width := Nat.pow_le_pow_right (by decide) hshift

theorem toUInt32_staticCastToInt (byte : UInt8) :
    (staticCastToInt byte.toInt8).toUInt32 = byte.toUInt32 := by
  rw [staticCastToInt_toInt8, UInt32.toUInt32_toInt32]

theorem toNat_shiftLeft_int (byte : UInt8) {shift : Nat} (hshift : shift ≤ 24) :
    (byte.toUInt32 <<< UInt32.ofNat shift).toNat = byte.toNat * 2 ^ shift := by
  rw [UInt32.toNat_shiftLeft, UInt8.toNat_toUInt32, Nat.shiftLeft_eq,
    UInt32.toNat_ofNat_of_lt' (by change _ < 2 ^ 32; omega),
    Nat.mod_eq_of_lt (by omega : shift < 32), Nat.mod_eq_of_lt (byte_shift_lt byte (by omega))]

theorem toNat_intByte (byte : UInt8) (shift : Int32) {places : Nat} (hplaces : places ≤ 24)
    (hequal : (staticCastToInt byte.toInt8 <<< shift).toUInt32 =
      (staticCastToInt byte.toInt8).toUInt32 <<< UInt32.ofNat places) :
    (staticCastToInt byte.toInt8 <<< shift).toUInt32.toNat = byte.toNat * 2 ^ places := by
  rw [hequal, toUInt32_staticCastToInt, toNat_shiftLeft_int byte hplaces]

@[simp] theorem toUInt64_fetch64 (s : Bytes) (pos : Nat) :
    (fetch64 s pos).toUInt64 = Reference.fetch64 s pos := by
  have hword (byte : UInt8) {places : Nat} (hplaces : places ≤ 56) :
      (byte.toUInt64 <<< UInt64.ofNat places).toNat = byte.toNat * 2 ^ places := by
    rw [UInt64.toNat_shiftLeft, UInt8.toNat_toUInt64, Nat.shiftLeft_eq,
      UInt64.toNat_ofNat_of_lt' (by change _ < 2 ^ 64; omega),
      Nat.mod_eq_of_lt (by omega : places < 64), Nat.mod_eq_of_lt (byte_shift_lt byte (by omega))]
  have hhigh (byte : UInt8) :
      (byte.toInt8.toInt64 <<< 56).toUInt64.toNat = byte.toNat * 2 ^ 56 := by
    rw [toUInt64_highByte]
    exact hword byte (by decide)
  have hlong (byte : UInt8) (shift : Int64) {places : Nat} (hplaces : places ≤ 56)
      (hequal : shift.toUInt64 = UInt64.ofNat places) :
      ((staticCastToInt byte.toInt8).toInt64 <<< shift).toUInt64.toNat =
        byte.toNat * 2 ^ places := by
    rw [toUInt64_shiftLeft, toUInt64_longByte, hequal, hword byte hplaces]
  have hint (byte : UInt8) (shift : Int32) {places : Nat} (hplaces : places ≤ 16)
      (hequal : (staticCastToInt byte.toInt8 <<< shift).toUInt32 =
        (staticCastToInt byte.toInt8).toUInt32 <<< UInt32.ofNat places) :
      (staticCastToInt byte.toInt8 <<< shift).toInt64.toUInt64.toNat = byte.toNat * 2 ^ places := by
    rw [toUInt64_toInt64, toNat_widenInt, toNat_intByte byte shift (by omega) hequal,
      if_pos (byte_shift_lt byte (by omega))]
  have hnat : (Reference.fetch64 s pos).toNat = leNat ((s.drop pos).take 8) % 2 ^ 64 := rfl
  rw [← UInt64.toNat_inj, hnat]
  simp only [fetch64, toLongLE, byteAt, Int64.toUInt64_add, UInt64.toNat_add, hhigh,
    hlong _ 48 (by decide) rfl, hlong _ 40 (by decide) rfl, hlong _ 32 (by decide) rfl,
    hlong _ 24 (by decide) rfl, hint _ 16 (by decide) rfl, hint _ 8 (by decide) rfl,
    hint _ 0 (by decide) rfl, Nat.mod_add_mod, leNat_take_drop, take_zero, leNat, Nat.add_assoc,
    Nat.reduceAdd]
  congr 1
  omega

@[simp] theorem toUInt32_fetch32 (s : Bytes) (pos : Nat) :
    (fetch32 s pos).toUInt32 = Reference.fetch32 s pos := by
  have hnat : (Reference.fetch32 s pos).toNat = leNat ((s.drop pos).take 4) % 2 ^ 32 := rfl
  rw [← UInt32.toNat_inj, hnat]
  simp only [fetch32, toIntLE, byteAt, Int32.toUInt32_add, UInt32.toNat_add,
    toNat_intByte _ 24 (by decide) rfl, toNat_intByte _ 16 (by decide) rfl,
    toNat_intByte _ 8 (by decide) rfl, toNat_intByte _ 0 (by decide) rfl, Nat.mod_add_mod,
    leNat_take_drop, take_zero, leNat, Nat.add_assoc, Nat.reduceAdd]
  congr 1
  omega

variable {s : Bytes} {pos len : Nat}

theorem toUInt64_hashLen17to32 (hlen : len < 2 ^ 30) :
    (hashLen17to32 s pos len).toUInt64 = Reference.hashLen17to32 s pos len := by
  simp [hashLen17to32, Reference.hashLen17to32, toUInt64_twice hlen]

theorem toUInt64_hashLen33to64 (hlen : len < 2 ^ 30) :
    (hashLen33to64 s pos len).toUInt64 = Reference.hashLen33to64 s pos len := by
  have hnine : (9 : Int64).toUInt64 = 9 := rfl
  have hone : (1 : Int64).toUInt64 = 1 := rfl
  simp [hashLen33to64, Reference.hashLen33to64, toUInt64_twice hlen, hnine, hone]

/-- The words of a state of the port, unsigned. -/
def Chunk.toUInt64 (state : Chunk Int64) : Chunk UInt64 :=
  ⟨state.x.toUInt64, state.y.toUInt64, state.z.toUInt64, (state.v.1.toUInt64, state.v.2.toUInt64),
    (state.w.1.toUInt64, state.w.2.toUInt64)⟩

theorem toUInt64_weakHashLen32WithSeeds (s : Bytes) (pos : Nat) (a b : Int64) :
    ((weakHashLen32WithSeeds s pos a b).1.toUInt64, (weakHashLen32WithSeeds s pos a b).2.toUInt64) =
      Reference.weakHashLen32WithSeeds s pos a.toUInt64 b.toUInt64 := by
  simp [weakHashLen32WithSeeds, Reference.weakHashLen32WithSeeds]

theorem toUInt64_chunkRound (s : Bytes) (pos : Nat) (state : Chunk Int64) :
    (chunkRound s pos state).toUInt64 = Reference.chunkRound s pos state.toUInt64 := by
  simp [chunkRound, Reference.chunkRound, Chunk.toUInt64, toUInt64_weakHashLen32WithSeeds]

theorem toUInt64_chunkLoop (s : Bytes) (pos count : Nat) (state : Chunk Int64) :
    (chunkLoop s pos (64 * (count + 1)) state).toUInt64 =
      (range' pos (count + 1) 64).foldl (fun state pos => Reference.chunkRound s pos state)
        state.toUInt64 := by
  induction count generalizing pos state with
  | zero =>
    rw [chunkLoop, if_neg (by omega), toUInt64_chunkRound, range'_succ, foldl_cons, range'_zero,
      foldl_nil]
  | succ count ih =>
    have hless : 64 * (count + 1 + 1) - 64 = 64 * (count + 1) := by omega
    have hrange : range' pos (count + 1 + 1) 64 = pos :: range' (pos + 64) (count + 1) 64 :=
      range'_succ
    rw [chunkLoop, if_pos (by omega), hless, ih, toUInt64_chunkRound, hrange, foldl_cons]

theorem toUInt64_finish (state : Chunk Int64) :
    (hashLen16 (hashLen16 state.v.1 state.w.1 + shiftMix state.y * k1 + state.z)
        (hashLen16 state.v.2 state.w.2 + state.x)).toUInt64 =
      let state := state.toUInt64
      Reference.hashLen16
        (Reference.hashLen16 state.v.1 state.w.1 + Reference.shiftMix state.y * Reference.k1 +
          state.z)
        (Reference.hashLen16 state.v.2 state.w.2 + state.x) := by
  simp [Chunk.toUInt64]

theorem land_mask {value : Nat} (hvalue : value < 2 ^ 32) :
    value &&& 0xffffffc0 = 64 * (value / 64) := by
  apply Nat.eq_of_testBit_eq
  intro i
  have hmask : 0xffffffc0 = 2 ^ 6 * (2 ^ 26 - 1) := rfl
  have hblocks : 64 * (value / 64) = 2 ^ 6 * (value / 2 ^ 6) := rfl
  rw [Nat.testBit_and, hmask, hblocks, Nat.testBit_two_pow_mul, Nat.testBit_two_pow_mul,
    Nat.testBit_two_pow_sub_one, Nat.testBit_div_two_pow]
  by_cases hlow : 6 ≤ i
  · by_cases hhigh : i - 6 < 26
    · simp [hlow, hhigh]
    · have hbit : value.testBit i = false := Nat.testBit_lt_two_pow
        (lt_of_lt_of_le hvalue (Nat.pow_le_pow_right (by decide) (by omega)))
      simp [hlow, hbit]
  · simp [hlow]

/-- `(len - 1) & ~63`. -/
theorem blocks_eq (hpos : 0 < len) (hlen : len < 2 ^ 31) :
    ((Int32.ofNat len - 1) &&& ~~~63).toInt.toNat = 64 * ((len - 1) / 64) := by
  have hsub : Int32.ofNat len - 1 = Int32.ofNat (len - 1) := by
    have hsucc := Int32.ofNat_add (len - 1) 1
    rw [Nat.sub_add_cancel hpos] at hsucc
    rw [hsucc]
    exact Int32.add_sub_cancel _ _
  have hnat (value : Nat) (hvalue : value < 2 ^ 31) :
      (Int32.ofNat value).toUInt32.toNat = value := by
    rw [Int32.toUInt32_ofNat', UInt32.toNat_ofNat_of_lt' (by change _ < 2 ^ 32; omega)]
  have hword : ((Int32.ofNat len - 1) &&& ~~~63).toUInt32 =
      (Int32.ofNat (64 * ((len - 1) / 64))).toUInt32 := by
    rw [← UInt32.toNat_inj, hnat _ (by omega), hsub, Int32.toUInt32_and, UInt32.toNat_and,
      hnat _ (by omega)]
    exact land_mask (by omega)
  have hint : (Int32.ofNat len - 1) &&& ~~~63 = Int32.ofNat (64 * ((len - 1) / 64)) :=
    congrArg UInt32.toInt32 hword
  rw [hint, Int32.toInt_ofNat_of_lt (by omega), Int.toNat_natCast]

theorem toUInt64_blockHash (hlong : 64 < len) (hlen : len < 2 ^ 31) :
    (cityHash64 s pos len).toUInt64 = Reference.cityHash64 s pos len := by
  obtain ⟨count, hcount⟩ : ∃ count, (len - 1) / 64 = count + 1 := ⟨(len - 1) / 64 - 1, by omega⟩
  simp only [cityHash64, Reference.cityHash64, if_neg (show ¬len ≤ 32 by omega),
    if_neg (show ¬len ≤ 64 by omega), blocks_eq (Nat.zero_lt_of_lt hlong) hlen, hcount,
    toUInt64_finish, toUInt64_chunkLoop]
  simp [Chunk.toUInt64, toUInt64_weakHashLen32WithSeeds, toUInt64_toInt64_ofNat hlen]

/-- Of one to three bytes the sums are small enough for an `int`. -/
theorem toUInt64_hashLen1to3 (hpos : 0 < len) (hlen : len < 4) :
    (hashLen0to16 s pos len).toUInt64 = Reference.hashLen0to16 s pos len := by
  have hy (a b : UInt8) :
      (staticCastToInt a.toInt8 + (staticCastToInt b.toInt8 <<< 8)).toInt64.toUInt64 =
        (a.toUInt32 + (b.toUInt32 <<< 8)).toUInt64 := by
    have hword : (staticCastToInt a.toInt8 + (staticCastToInt b.toInt8 <<< 8)).toUInt32 =
        (staticCastToInt a.toInt8).toUInt32 + ((staticCastToInt b.toInt8).toUInt32 <<< 8) := rfl
    have hshift := toNat_shiftLeft_int b (show 8 ≤ 24 by decide)
    have ha := a.toNat_lt
    have hb := b.toNat_lt
    rw [toUInt64_toInt64, hword, toUInt32_staticCastToInt, toUInt32_staticCastToInt, widenInt_of_lt]
    change (a.toUInt32 + b.toUInt32 <<< UInt32.ofNat 8).toNat < _
    rw [UInt32.toNat_add, hshift, UInt8.toNat_toUInt32]
    omega
  have hz (c : UInt8) :
      (Int32.ofNat len + (staticCastToInt c.toInt8 <<< 2)).toInt64.toUInt64 =
        (UInt32.ofNat len + (c.toUInt32 <<< 2)).toUInt64 := by
    have hword : (Int32.ofNat len + (staticCastToInt c.toInt8 <<< 2)).toUInt32 =
        UInt32.ofNat len + ((staticCastToInt c.toInt8).toUInt32 <<< 2) := rfl
    have hshift := toNat_shiftLeft_int c (show 2 ≤ 24 by decide)
    have hc := c.toNat_lt
    rw [toUInt64_toInt64, hword, toUInt32_staticCastToInt, widenInt_of_lt]
    change (UInt32.ofNat len + c.toUInt32 <<< UInt32.ofNat 2).toNat < _
    rw [UInt32.toNat_add, hshift, UInt32.toNat_ofNat_of_lt' (by change _ < 2 ^ 32; omega)]
    omega
  simp [hashLen0to16, Reference.hashLen0to16, show ¬8 ≤ len by omega, show ¬4 ≤ len by omega, hpos,
    byteAt, -getD_eq_getElem?_getD, hy, hz]

theorem toUInt64_hashLen4to7 (hfour : 4 ≤ len) (hlen : len ≤ 7) :
    (hashLen0to16 s pos len).toUInt64 =
      Reference.hashLen16Mul (UInt64.ofNat len + widenInt (Reference.fetch32 s pos) <<< 3)
        (widenInt (Reference.fetch32 s (pos + len - 4))) (Reference.k2 + UInt64.ofNat len * 2) := by
  have hthree : (3 : Int64).toUInt64 = 3 := rfl
  have hwiden (pos : Nat) :
      (fetch32 s pos).toInt64.toUInt64 = widenInt (Reference.fetch32 s pos) := by
    rw [toUInt64_toInt64, toUInt32_fetch32]
  simp [hashLen0to16, show ¬8 ≤ len by omega, hfour, toUInt64_shiftLeft, hwiden,
    toUInt64_toInt64_ofNat (show len < 2 ^ 31 by omega),
    toUInt64_twice (show len < 2 ^ 30 by omega), hthree]

theorem toUInt64_hashLen8to16 (height : 8 ≤ len) (hlen : len < 2 ^ 30) :
    (hashLen0to16 s pos len).toUInt64 = Reference.hashLen0to16 s pos len := by
  simp [hashLen0to16, Reference.hashLen0to16, height, toUInt64_twice hlen]

theorem toUInt64_cityHash64 (hlen : len < 2 ^ 31) (hwords : len < 4 ∨ 7 < len) :
    (cityHash64 s pos len).toUInt64 = Reference.cityHash64 s pos len := by
  by_cases hlong : 64 < len
  · exact toUInt64_blockHash hlong hlen
  rw [cityHash64, Reference.cityHash64]
  split_ifs
  · rcases hwords with hfour | hseven
    · rcases Nat.eq_zero_or_pos len with rfl | hpos
      · rfl
      · exact toUInt64_hashLen1to3 hpos hfour
    · exact toUInt64_hashLen8to16 hseven (by omega)
  · exact toUInt64_hashLen17to32 (by omega)
  · exact toUInt64_hashLen33to64 (by omega)
  · omega

theorem hashLen16Mul_widen_iff {mul : UInt64} (hodd : mul.toNat % 2 = 1) (len : UInt64)
    (first last : UInt32) :
    Reference.hashLen16Mul (len + widenInt first <<< 3) (widenInt last) mul =
        Reference.hashLen16Mul (len + first.toUInt64 <<< 3) last.toUInt64 mul ↔
      first.toNat < 2 ^ 31 ∧ last.toNat < 2 ^ 31 := by
  constructor
  · intro heq
    set signed := (len + widenInt first <<< 3 ^^^ widenInt last) * mul with hsigned
    set unsigned := (len + first.toUInt64 <<< 3 ^^^ last.toUInt64) * mul with hunsigned
    have hhigh : widenInt last ^^^ Reference.shiftMix signed =
        last.toUInt64 ^^^ Reference.shiftMix unsigned :=
      Reference.mul_odd_injective hodd
        (Reference.shiftMix_injective (Reference.mul_odd_injective hodd heq))
    have hlow : (signed ^^^ unsigned).toUInt32 = 0 := by
      rw [UInt64.toUInt32_xor, UInt32.xor_eq_zero_iff, hsigned, hunsigned]
      simp [widenInt_toUInt32]
    have hmix : Reference.shiftMix (signed ^^^ unsigned) = widenInt last ^^^ last.toUInt64 := by
      rw [← Reference.shiftMix_xor, ← UInt64.xor_eq_zero_iff]
      rw [← UInt64.xor_eq_zero_iff] at hhigh
      rw [← hhigh]
      ac_rfl
    obtain ⟨hsmall, hself⟩ := Reference.shiftMix_eq_self hlow (by simp [hmix, widenInt_toUInt32])
    have hwiden : widenInt last = (signed ^^^ unsigned) ^^^ last.toUInt64 := by
      rw [← hself, hmix, UInt64.xor_assoc, UInt64.xor_self, UInt64.xor_zero]
    have hlast : last.toNat < 2 ^ 31 := by
      have hbound : (widenInt last).toNat < 2 ^ 47 := by
        rw [hwiden, UInt64.toNat_xor]
        exact Nat.xor_lt_two_pow hsmall (by have := last.toNat_lt; simp; omega)
      rw [toNat_widenInt] at hbound
      split_ifs at hbound <;> omega
    refine ⟨?_, hlast⟩
    rw [widenInt_of_lt hlast, UInt64.xor_right_inj] at hhigh
    have hshift := Reference.mul_odd_injective hodd (Reference.shiftMix_injective hhigh)
    rw [widenInt_of_lt hlast, UInt64.xor_left_inj, UInt64.add_right_inj] at hshift
    have hnat := congrArg UInt64.toNat hshift
    have hlt := first.toNat_lt
    have hpow : 2 ^ (UInt64.toNat 3 % 64) = 8 := rfl
    simp only [UInt64.toNat_shiftLeft, Nat.shiftLeft_eq, toNat_widenInt, hpow,
      UInt32.toNat_toUInt64] at hnat
    split_ifs at hnat <;> omega
  · rintro ⟨hfirst, hlast⟩
    rw [widenInt_of_lt hfirst, widenInt_of_lt hlast]

/-- The port returns the bits that the library returns, with and without a seed. -/
def PortAgrees (s : Bytes) (pos len : Nat) : Prop :=
  (cityHash64 s pos len).toUInt64 = Reference.cityHash64 s pos len ∧
    ∀ seed : Int64, (cityHash64WithSeed s pos len seed).toUInt64 =
      Reference.cityHash64WithSeed s pos len seed.toUInt64

theorem portAgrees_iff_cityHash64 : PortAgrees s pos len ↔
    (cityHash64 s pos len).toUInt64 = Reference.cityHash64 s pos len := by
  refine ⟨And.left, fun heq => ⟨heq, fun seed => ?_⟩⟩
  rw [cityHash64WithSeed, cityHash64WithSeeds, toUInt64_hashLen16, Int64.toUInt64_sub, heq,
    toUInt64_k2]
  rfl

theorem toUInt64_cityHash64_iff (hlen : len < 2 ^ 31) :
    (cityHash64 s pos len).toUInt64 = Reference.cityHash64 s pos len ↔ len < 4 ∨ 7 < len ∨
      (Reference.fetch32 s pos).toNat < 2 ^ 31 ∧
        (Reference.fetch32 s (pos + len - 4)).toNat < 2 ^ 31 := by
  by_cases hwords : len < 4 ∨ 7 < len
  · exact iff_of_true (toUInt64_cityHash64 hlen hwords) (hwords.imp_right .inl)
  obtain ⟨hfour, hseven⟩ := not_or.mp hwords
  have hodd : (Reference.k2 + UInt64.ofNat len * 2).toNat % 2 = 1 := by
    have hk2 : Reference.k2.toNat = 11160318154034397263 := rfl
    rw [UInt64.toNat_add, UInt64.toNat_mul, hk2]
    simp
  have hport : cityHash64 s pos len = hashLen0to16 s pos len := by
    rw [cityHash64, if_pos (by omega), if_pos (by omega)]
  rw [hport, toUInt64_hashLen4to7 (by omega) (by omega)]
  simpa [Reference.cityHash64, Reference.hashLen0to16, show len ≤ 32 by omega,
    show len ≤ 16 by omega, show 4 ≤ len by omega, show ¬8 ≤ len by omega, hfour, hseven] using
    hashLen16Mul_widen_iff hodd (UInt64.ofNat len) (Reference.fetch32 s pos)
      (Reference.fetch32 s (pos + len - 4))

/-- Of four to seven bytes the port agrees just on those whose first and last word are not
negative, and it agrees on all others. -/
theorem portAgrees_iff (s : Bytes) (pos len : Nat) (hlen : len < 2 ^ 31) :
    PortAgrees s pos len ↔ len < 4 ∨ 7 < len ∨
      (Reference.fetch32 s pos).toNat < 2 ^ 31 ∧
        (Reference.fetch32 s (pos + len - 4)).toNat < 2 ^ 31 :=
  portAgrees_iff_cityHash64.trans (toUInt64_cityHash64_iff hlen)

/-- A hundred bytes with all bits set, and five with the sign bit set in the second only. -/
theorem portAgrees_hundred : PortAgrees (replicate 100 0xff) 0 100 ∧
    PortAgrees [1, 0xff, 3, 4, 5] 0 5 :=
  ⟨(portAgrees_iff _ _ _ (by decide)).mpr (.inr (.inl (by decide))),
    (portAgrees_iff _ _ _ (by decide)).mpr (.inr (.inr (by decide)))⟩

theorem port_differs : ¬PortAgrees [0xff, 0xff, 0xff, 0xff] 0 4 :=
  fun hagrees => absurd hagrees.1 (by decide +kernel)

end CityHash

end LaserDB
