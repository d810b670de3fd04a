import Mathlib

/-!
# Fixed-width integers as byte strings

A byte string is a list of bytes, ordered as `memcmp` orders it.
-/

abbrev Bytes := List UInt8

instance instLinearOrderByte : LinearOrder UInt8 where
  le_refl := UInt8.le_refl
  le_trans := fun _ _ _ => UInt8.le_trans
  le_antisymm := fun _ _ => UInt8.le_antisymm
  le_total := UInt8.le_total
  lt_iff_le_not_ge := by
    intro left right
    rw [UInt8.lt_iff_toNat_lt, UInt8.le_iff_toNat_le, UInt8.le_iff_toNat_le]
    omega
  toDecidableLE := inferInstance
  toDecidableEq := inferInstance
  toDecidableLT := inferInstance

instance lawfulBytes : LawfulBEq Bytes := inferInstance

namespace ByteCodec
open List Nat

/-- The lowest `width` bytes of `value`, least significant first. -/
def leBytes : (width value : Nat) → Bytes
  | 0, _ => []
  | width + 1, value => UInt8.ofNat value :: leBytes width (value / 256)

def leNat : Bytes → Nat
  | [] => 0
  | byte :: rest => byte.toNat + 256 * leNat rest

variable (width value : Nat)

@[simp] theorem leBytes_length : (leBytes width value).length = width := by
  induction width generalizing value with
  | zero => rfl
  | succ width ih => simp [leBytes, ih]

theorem leNat_leBytes : leNat (leBytes width value) = value % 256 ^ width := by
  induction width generalizing value with
  | zero => simp [leBytes, leNat, mod_one]
  | succ width ih =>
    have hpow : 256 ^ (width + 1) = 256 * 256 ^ width := pow_succ' 256 width
    rw [leBytes, leNat, ih, UInt8.toNat_ofNat', hpow, mod_mul]

theorem leNat_leBytes_of_lt {width value : Nat} (hvalue : value < 256 ^ width) :
    leNat (leBytes width value) = value := by
  rw [leNat_leBytes, mod_eq_of_lt hvalue]

theorem leBytes_leNat (bytes : Bytes) : leBytes bytes.length (leNat bytes) = bytes := by
  induction bytes with
  | nil => rfl
  | cons byte rest ih =>
    have hbyte : byte.toNat < 256 := byte.toNat_lt_size
    have hdiv : (byte.toNat + 256 * leNat rest) / 256 = leNat rest := by omega
    have hmod : UInt8.ofNat (byte.toNat + 256 * leNat rest) = byte := by
      apply UInt8.toNat_inj.mp
      rw [UInt8.toNat_ofNat']
      omega
    rw [length_cons, leNat, leBytes, hdiv, hmod, ih]

/-- The lowest `width` bytes of `value`, most significant first. -/
def beBytes (width value : Nat) : Bytes := (leBytes width value).reverse

@[simp] theorem beBytes_length : (beBytes width value).length = width := by
  simp [beBytes]

theorem leBytes_succ_last :
    leBytes (width + 1) value = leBytes width value ++ [UInt8.ofNat (value / 256 ^ width)] := by
  induction width generalizing value with
  | zero => simp [leBytes]
  | succ width ih =>
    have hstep := ih (value / 256)
    rw [Nat.div_div_eq_div_mul, ← pow_succ'] at hstep
    rw [leBytes, hstep]
    rfl

theorem leBytes_mod : leBytes width (value % 256 ^ width) = leBytes width value := by
  have hround := leBytes_leNat (leBytes width value)
  rwa [leBytes_length, leNat_leBytes] at hround

theorem beBytes_succ :
    beBytes (width + 1) value =
      UInt8.ofNat (value / 256 ^ width) :: beBytes width (value % 256 ^ width) := by
  rw [beBytes, beBytes, leBytes_succ_last, leBytes_mod, reverse_append]
  rfl

theorem beBytes_lt_iff {width left right : Nat} (hleft : left < 256 ^ width)
    (hright : right < 256 ^ width) :
    beBytes width left < beBytes width right ↔ left < right := by
  induction width generalizing left right with
  | zero =>
    simp only [pow_zero, lt_one_iff] at hleft hright
    subst hleft hright
    simp
  | succ width ih =>
    have hbase : 0 < 256 ^ width := by positivity
    rw [pow_succ] at hleft hright
    have hleftTop : left / 256 ^ width < 256 := Nat.div_lt_of_lt_mul hleft
    have hrightTop : right / 256 ^ width < 256 := Nat.div_lt_of_lt_mul hright
    have hsplitLeft := Nat.div_add_mod left (256 ^ width)
    have hsplitRight := Nat.div_add_mod right (256 ^ width)
    have hrest := ih (mod_lt left hbase) (mod_lt right hbase)
    have htop : UInt8.ofNat (left / 256 ^ width) < UInt8.ofNat (right / 256 ^ width) ↔
        left / 256 ^ width < right / 256 ^ width := by
      rw [UInt8.lt_iff_toNat_lt, UInt8.toNat_ofNat', UInt8.toNat_ofNat',
        mod_eq_of_lt hleftTop, mod_eq_of_lt hrightTop]
    have hsame : UInt8.ofNat (left / 256 ^ width) = UInt8.ofNat (right / 256 ^ width) ↔
        left / 256 ^ width = right / 256 ^ width := by
      rw [← UInt8.toNat_inj, UInt8.toNat_ofNat', UInt8.toNat_ofNat',
        mod_eq_of_lt hleftTop, mod_eq_of_lt hrightTop]
    rw [beBytes_succ, beBytes_succ, cons_lt_cons_iff, htop, hsame, hrest]
    constructor
    · rintro (hlt | ⟨heq, hlt⟩)
      · exact lt_of_not_ge fun hge => absurd (Nat.div_le_div_right hge) (not_le.mpr hlt)
      · rw [← hsplitLeft, ← hsplitRight, heq]
        exact Nat.add_lt_add_left hlt _
    · intro hlt
      rcases (Nat.div_le_div_right (c := 256 ^ width) hlt.le).lt_or_eq with htopLt | htopEq
      · exact .inl htopLt
      · refine .inr ⟨htopEq, ?_⟩
        rw [← hsplitLeft, ← hsplitRight, htopEq] at hlt
        exact lt_of_add_lt_add_left hlt

class FixedWidth (T : Type) where
  width : Nat
  toNat : T → Nat
  ofNat : Nat → T
  toNat_lt : ∀ value, toNat value < 256 ^ width
  ofNat_toNat : ∀ value, ofNat (toNat value) = value
  toNat_ofNat : ∀ value, value < 256 ^ width → toNat (ofNat value) = value

instance : FixedWidth UInt8 where
  width := 1
  toNat := UInt8.toNat
  ofNat := UInt8.ofNat
  toNat_lt := fun value => value.toNat_lt_size
  ofNat_toNat := fun _ => UInt8.ofNat_toNat
  toNat_ofNat := fun _ hvalue => UInt8.toNat_ofNat_of_lt' hvalue

instance : FixedWidth UInt32 where
  width := 4
  toNat := UInt32.toNat
  ofNat := UInt32.ofNat
  toNat_lt := fun value => value.toNat_lt_size
  ofNat_toNat := fun _ => UInt32.ofNat_toNat
  toNat_ofNat := fun _ hvalue => UInt32.toNat_ofNat_of_lt' hvalue

instance : FixedWidth UInt64 where
  width := 8
  toNat := UInt64.toNat
  ofNat := UInt64.ofNat
  toNat_lt := fun value => value.toNat_lt_size
  ofNat_toNat := fun _ => UInt64.ofNat_toNat
  toNat_ofNat := fun _ hvalue => UInt64.toNat_ofNat_of_lt' hvalue

instance : FixedWidth Int64 where
  width := 8
  toNat := fun value => value.toUInt64.toNat
  ofNat := fun value => (UInt64.ofNat value).toInt64
  toNat_lt := fun value => value.toUInt64.toNat_lt_size
  ofNat_toNat := fun value => by simp
  toNat_ofNat := fun value hvalue => by
    simpa using UInt64.toNat_ofNat_of_lt' hvalue

inductive ByteOrder where
  | little
  | big
  deriving DecidableEq, Repr

variable {T : Type} [FixedWidth T]

def intBytes (order : ByteOrder) (value : T) : Bytes :=
  match order with
  | .little => leBytes (FixedWidth.width T) (FixedWidth.toNat value)
  | .big => beBytes (FixedWidth.width T) (FixedWidth.toNat value)

def intOfBytes (T : Type) [FixedWidth T] (order : ByteOrder) (bytes : Bytes) : T :=
  match order with
  | .little => FixedWidth.ofNat (leNat bytes)
  | .big => FixedWidth.ofNat (leNat bytes.reverse)

section
variable (order : ByteOrder)

@[simp] theorem intBytes_length (value : T) :
    (intBytes order value).length = FixedWidth.width T := by
  cases order <;> simp [intBytes]

@[simp] theorem intOfBytes_intBytes (value : T) :
    intOfBytes T order (intBytes order value) = value := by
  have hnat := leNat_leBytes_of_lt (FixedWidth.toNat_lt value)
  cases order with
  | little => rw [intBytes, intOfBytes, hnat, FixedWidth.ofNat_toNat]
  | big => rw [intBytes, intOfBytes, beBytes, reverse_reverse, hnat, FixedWidth.ofNat_toNat]

theorem intBytes_intOfBytes {bytes : Bytes} (hlength : bytes.length = FixedWidth.width T) :
    intBytes order (intOfBytes T order bytes) = bytes := by
  have hbound (text : Bytes) (htext : text.length = FixedWidth.width T) :
      FixedWidth.toNat (FixedWidth.ofNat (leNat text) : T) = leNat text := by
    apply FixedWidth.toNat_ofNat
    rw [← leBytes_leNat text, leNat_leBytes, htext]
    exact mod_lt _ (by positivity)
  cases order with
  | little => rw [intOfBytes, intBytes, hbound _ hlength, ← hlength, leBytes_leNat]
  | big =>
    have hreverse : bytes.reverse.length = FixedWidth.width T := by simpa using hlength
    rw [intOfBytes, intBytes, beBytes, hbound _ hreverse, ← hreverse, leBytes_leNat,
      reverse_reverse]

theorem intBytes_injective : Function.Injective (intBytes order : T → Bytes) := by
  intro left right heq
  have := congrArg (intOfBytes T order) heq
  simpa using this

theorem intBytes_ne_nil (value : T) (hwidth : 0 < FixedWidth.width T) :
    intBytes order value ≠ [] := by
  intro hnil
  have hlength := intBytes_length order value
  rw [hnil, length_nil] at hlength
  omega

end

theorem intBytes_big_lt_iff (left right : T) :
    intBytes .big left < intBytes .big right ↔ FixedWidth.toNat left < FixedWidth.toNat right :=
  beBytes_lt_iff (FixedWidth.toNat_lt left) (FixedWidth.toNat_lt right)

end ByteCodec
