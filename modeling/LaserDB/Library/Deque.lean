import Mathlib

/-!
# Double-ended queues on a ring of positions

The elements lie on consecutive positions of a ring of 2^64, from the one behind `start` to the one
before `endIndex`.
-/

structure Deque (ν : Type) where
  start : Int64
  elements : List ν

namespace Deque

open List Function Nat
open Int64 (le_iff_toInt_le toBitVec toBitVec_add toBitVec_ofNat' toBitVec_sub)
variable {ν : Type}

def offset (start index : Int64) : Nat := (index - start - 1).toUInt64.toNat

def get (deque : Deque ν) (index : Int64) : Option ν :=
  deque.elements[offset deque.start index]?

def endIndex (deque : Deque ν) : Int64 :=
  deque.start + Int64.ofNat deque.elements.length + 1

def pushFront (deque : Deque ν) (value : ν) : Deque ν :=
  ⟨deque.start - 1, value :: deque.elements⟩

def pushBack (deque : Deque ν) (value : ν) : Deque ν :=
  ⟨deque.start, deque.elements ++ [value]⟩

def popFront (deque : Deque ν) : Deque ν := ⟨deque.start + 1, deque.elements.tail⟩

def popBack (deque : Deque ν) : Deque ν := ⟨deque.start, deque.elements.dropLast⟩

def Fits (deque : Deque ν) : Prop := deque.elements.length + 1 < 2 ^ 64

def element (elements : List ν) : Int → Option ν
  | .ofNat place => elements[place]?
  | .negSucc place => elements.reverse[place]?

open Int64 (ofNat)

section

variable (start index : Int64)

theorem offset_eq :
    offset start index = (index.toBitVec - start.toBitVec - 1#64).toNat := rfl

theorem one_toBitVec : (1 : Int64).toBitVec = 1#64 := rfl

theorem offset_lt : offset start index < 2 ^ 64 := UInt64.toNat_lt _

theorem offset_injective (start : Int64) : Function.Injective (offset start) := by
  intro left right heq
  rw [offset_eq, offset_eq] at heq
  apply toBitVec.inj
  bv_omega

theorem offset_pred :
    offset (start - 1) index = if index = start then 0 else offset start index + 1 := by
  rw [offset_eq, offset_eq, toBitVec_sub, one_toBitVec]
  split
  · rename_i heq
    subst heq
    bv_omega
  · rename_i hne
    have hbits : index.toBitVec ≠ start.toBitVec := fun heq => hne (toBitVec.inj heq)
    bv_omega

theorem offset_add (start : Int64) {count : Nat} (hcount : count < 2 ^ 64) :
    offset start (start + ofNat count + 1) = count := by
  rw [offset_eq, toBitVec_add, toBitVec_add, one_toBitVec, toBitVec_ofNat']
  bv_omega

theorem offset_front : offset start (start + index + 1) = index.toBitVec.toNat := by
  rw [offset_eq, toBitVec_add, toBitVec_add, one_toBitVec]
  bv_omega

theorem offset_back (count : Nat) :
    offset start (start + ofNat count + 1 + index) =
      (count + index.toBitVec.toNat) % 2 ^ 64 := by
  rw [offset_eq, toBitVec_add, toBitVec_add, toBitVec_add, one_toBitVec, toBitVec_ofNat']
  bv_omega

end

variable {deque : Deque ν}

theorem get_pushFront (deque : Deque ν) (value : ν) :
    (deque.pushFront value).get = update deque.get deque.start (some value) := by
  funext index
  rw [update_apply, get, pushFront, offset_pred]
  split
  · rfl
  · rfl

variable (hfits : deque.Fits)
include hfits

theorem get_pushBack (value : ν) :
    (deque.pushBack value).get = update deque.get deque.endIndex (some value) := by
  have hend : offset deque.start deque.endIndex = deque.elements.length :=
    offset_add deque.start (lt_of_succ_lt hfits)
  funext index
  rw [update_apply]
  change (deque.elements ++ [value])[offset deque.start index]? = _
  by_cases hindex : index = deque.endIndex
  · rw [if_pos hindex, hindex, hend, getElem?_concat_length]
  · have hother : offset deque.start index ≠ deque.elements.length := fun heq =>
      hindex (offset_injective deque.start (heq.trans hend.symm))
    rw [if_neg hindex, get, getElem?_append]
    split
    · rfl
    · rw [getElem?_eq_none (by simp; omega), getElem?_eq_none (by omega)]

theorem get_start : deque.get deque.start = none := by
  have hoffset : offset deque.start deque.start = 2 ^ 64 - 1 := by
    rw [offset_eq]
    bv_omega
  have hlength : deque.elements.length + 1 < 2 ^ 64 := hfits
  rw [get, hoffset, getElem?_eq_none (by omega)]

theorem get_popFront :
    deque.popFront.get = update deque.get (deque.start + 1) none := by
  have hlength : deque.elements.length + 1 < 2 ^ 64 := hfits
  funext index
  have hshift := offset_pred (deque.start + 1) index
  rw [Int64.add_sub_cancel] at hshift
  rw [update_apply]
  split
  · rename_i heq
    subst heq
    apply get_start
    change deque.elements.tail.length + 1 < 2 ^ 64
    rw [length_tail]
    omega
  · rename_i hne
    rw [if_neg hne] at hshift
    rw [get, get, hshift, popFront, getElem?_tail]

theorem get_popBack (helements : deque.elements ≠ []) :
    deque.popBack.get = update deque.get (deque.endIndex - 1) none := by
  have hpositive : 0 < deque.elements.length := length_pos_iff.mpr helements
  have hlength : deque.elements.length + 1 < 2 ^ 64 := hfits
  have hlast : offset deque.start (deque.endIndex - 1) = deque.elements.length - 1 := by
    rw [offset_eq, endIndex, toBitVec_sub, toBitVec_add, toBitVec_add,
      one_toBitVec, toBitVec_ofNat']
    bv_omega
  funext index
  rw [update_apply]
  change deque.elements.dropLast[offset deque.start index]? = _
  rw [getElem?_dropLast]
  by_cases hindex : index = deque.endIndex - 1
  · rw [if_pos hindex, hindex, hlast, if_neg (by omega)]
  · have hother : offset deque.start index ≠ deque.elements.length - 1 := fun heq =>
      hindex (offset_injective deque.start (heq.trans hlast.symm))
    rw [if_neg hindex, get]
    split
    · rfl
    · rw [getElem?_eq_none (by omega)]

omit hfits

theorem endIndex_pushFront (deque : Deque ν) (value : ν) :
    (deque.pushFront value).endIndex = deque.endIndex := by
  apply toBitVec.inj
  simp only [endIndex, pushFront, length_cons, toBitVec_add, toBitVec_sub,
    one_toBitVec, toBitVec_ofNat']
  bv_omega

theorem endIndex_pushBack (deque : Deque ν) (value : ν) :
    (deque.pushBack value).endIndex = deque.endIndex + 1 := by
  apply toBitVec.inj
  simp only [endIndex, pushBack, length_append, length_singleton, toBitVec_add,
    one_toBitVec, toBitVec_ofNat']
  bv_omega

theorem endIndex_popFront (helements : deque.elements ≠ []) :
    deque.popFront.endIndex = deque.endIndex := by
  have hpositive : 0 < deque.elements.length := length_pos_iff.mpr helements
  apply toBitVec.inj
  simp only [endIndex, popFront, length_tail, toBitVec_add, one_toBitVec, toBitVec_ofNat']
  bv_omega

theorem endIndex_popBack (helements : deque.elements ≠ []) :
    deque.popBack.endIndex = deque.endIndex - 1 := by
  have hpositive : 0 < deque.elements.length := length_pos_iff.mpr helements
  apply toBitVec.inj
  simp only [endIndex, popBack, length_dropLast, toBitVec_add, toBitVec_sub,
    one_toBitVec, toBitVec_ofNat']
  bv_omega

theorem endIndex_ne_start (hfits : deque.Fits) : deque.endIndex ≠ deque.start := by
  intro heq
  have hend : offset deque.start deque.endIndex = deque.elements.length :=
    offset_add deque.start (lt_of_succ_lt hfits)
  have hlength : deque.elements.length + 1 < 2 ^ 64 := hfits
  rw [heq, offset_eq] at hend
  bv_omega

theorem endIndex_sub (deque : Deque ν) :
    deque.endIndex - deque.start - 1 = ofNat deque.elements.length := by
  apply toBitVec.inj
  simp only [endIndex, toBitVec_add, toBitVec_sub, one_toBitVec, toBitVec_ofNat']
  bv_omega

theorem ofNat_length_eq_zero (hfits : deque.Fits) :
    ofNat deque.elements.length = 0 ↔ deque.elements = [] := by
  have hlength : deque.elements.length + 1 < 2 ^ 64 := hfits
  rw [← length_eq_zero_iff]
  constructor
  · intro hzero
    have hbits := congrArg (fun size => size.toBitVec.toNat) hzero
    simp only [toBitVec_ofNat', BitVec.toNat_ofNat] at hbits
    change _ = 0 at hbits
    omega
  · intro hzero
    rw [hzero]
    rfl

variable {index : Int64}

theorem toInt_eq (index : Int64) :
    index.toInt = if 2 * index.toBitVec.toNat < 2 ^ 64 then (index.toBitVec.toNat : Int)
      else index.toBitVec.toNat - 2 ^ 64 := index.toBitVec.toInt_eq_toNat_cond

theorem get_front (hindex : 0 ≤ index) :
    deque.get (deque.start + index + 1) = element deque.elements index.toInt := by
  have hnonneg : 0 ≤ index.toInt := le_iff_toInt_le.mp hindex
  rw [get, offset_front]
  have hint := toInt_eq index
  split at hint
  · rw [hint]
    rfl
  · omega

theorem get_back (hfits : deque.Fits) (hindex : index < 0) :
    deque.get (deque.endIndex + index) = element deque.elements index.toInt := by
  have hneg : index.toInt < 0 := Int64.lt_iff_toInt_lt.mp hindex
  have hlength : deque.elements.length + 1 < 2 ^ 64 := hfits
  have hbits : index.toBitVec.toNat < 2 ^ 64 := index.toBitVec.isLt
  have hint := toInt_eq index
  rw [get, endIndex, offset_back]
  split at hint
  · omega
  · obtain ⟨place, hplace⟩ : ∃ place, index.toInt = .negSucc place := Int.eq_negSucc_of_lt_zero hneg
    rw [hplace]
    change _ = deque.elements.reverse[place]?
    have hsum : index.toBitVec.toNat + place + 1 = 2 ^ 64 := by omega
    by_cases hinside : place < deque.elements.length
    · rw [getElem?_reverse hinside]
      congr 1
      omega
    · have hreverse : deque.elements.reverse[place]? = none :=
        getElem?_eq_none (by simpa using hinside)
      rw [hreverse, getElem?_eq_none (by omega)]

def position (deque : Deque ν) (place : Nat) : Int64 := deque.start + Int64.ofNat place + 1

theorem toInt_add_ofNat {start : Int64} {count : Nat} (hcount : start.toInt + count < 2 ^ 63) :
    (start + ofNat count).toInt = start.toInt + count := by
  have hofInt : start + ofNat count = Int64.ofInt (start.toInt + count) := by
    rw [Int64.ofInt_add, Int64.ofInt_toInt]
    rfl
  have hlow := start.le_toInt
  rw [hofInt, Int64.toInt_ofInt_of_le (by omega) (by omega)]

theorem position_toInt {place : Nat} (hplace : deque.start.toInt + place + 1 < 2 ^ 63) :
    (deque.position place).toInt = deque.start.toInt + place + 1 := by
  have hnext : deque.position place = deque.start + ofNat (place + 1) := by
    rw [Int64.ofNat_add, ← Int64.add_assoc]
    rfl
  rw [hnext, toInt_add_ofNat (by push_cast; omega)]
  push_cast
  omega

theorem toInt64_eq_ofNat (value : UInt64) : value.toInt64 = ofNat value.toNat := by
  apply toBitVec.inj
  simp

theorem get_eq_some_iff (hfits : deque.Fits) {value : ν} :
    deque.get index = some value ↔
      ∃ place, deque.elements[place]? = some value ∧ index = deque.position place := by
  have hlength : deque.elements.length + 1 < 2 ^ 64 := hfits
  constructor
  · intro hget
    refine ⟨_, hget, ?_⟩
    apply offset_injective deque.start
    exact (offset_add deque.start (offset_lt _ _)).symm
  · rintro ⟨place, helement, rfl⟩
    have hplace : place < deque.elements.length := (List.getElem?_eq_some_iff.mp helement).1
    rw [get, position, offset_add deque.start (by omega), helement]

def slice (deque : Deque ν) (low high : Nat) : List (Int64 × ν) :=
  ((deque.elements.mapIdx fun place value => (deque.position place, value)).take high).drop low

theorem slice_values (deque : Deque ν) (low high : Nat) :
    (deque.slice low high).map Prod.snd = (deque.elements.take high).drop low := by
  have hvalues : (deque.elements.mapIdx fun place value => (deque.position place, value)).map
      Prod.snd = deque.elements := by
    apply ext_getElem?
    intro place
    simp
  rw [slice, map_drop, map_take, hvalues]

theorem mem_slice_iff {low high : Nat} {value : ν} :
    (index, value) ∈ deque.slice low high ↔
      ∃ place, low ≤ place ∧ place < high ∧ deque.elements[place]? = some value ∧
        index = deque.position place := by
  have hread (place : Nat) : (deque.slice low high)[place]? = some (index, value) ↔
      low + place < high ∧ deque.elements[low + place]? = some value ∧
        index = deque.position (low + place) := by
    rw [slice, getElem?_drop, getElem?_take, getElem?_mapIdx]
    split
    · simp_all [eq_comm]
    · simp_all
  rw [mem_iff_getElem?]
  constructor
  · rintro ⟨place, hplace⟩
    exact ⟨low + place, le_add_right _ _, (hread place).mp hplace⟩
  · rintro ⟨place, hlow, hplace⟩
    refine ⟨place - low, (hread _).mpr ?_⟩
    rwa [Nat.add_sub_cancel' hlow]

theorem slice_sorted (low high : Nat)
    (hnowrap : deque.start.toInt + deque.elements.length + 1 < 2 ^ 63) :
    (deque.slice low high).Pairwise fun left right => left.1.toInt < right.1.toInt := by
  apply List.Pairwise.drop
  apply List.Pairwise.take
  rw [pairwise_iff_getElem]
  intro first second hfirst hsecond hlt
  rw [length_mapIdx] at hfirst hsecond
  simp only [getElem_mapIdx]
  rw [position_toInt (by omega), position_toInt (by omega)]
  omega

theorem toInt_lt_of_toNat_lt {left right : Int64} (hsign : left.toInt < 0 ↔ right.toInt < 0)
    (hlt : left.toUInt64.toNat < right.toUInt64.toNat) : left.toInt < right.toInt := by
  have hleft := toInt_eq left
  have hright := toInt_eq right
  have hleftBound := left.toBitVec.isLt
  have hrightBound := right.toBitVec.isLt
  change left.toBitVec.toNat < right.toBitVec.toNat at hlt
  split at hleft <;> split at hright <;> omega

/-- The content listed in the order of the unsigned positions, cut to a range of
positions of one sign, is in the order of the queue. -/
theorem slice_eq_filter (hfits : deque.Fits)
    (hnowrap : deque.start.toInt + deque.elements.length + 1 < 2 ^ 63) {pairs : List (Int64 × ν)}
    (hmem : ∀ index value, (index, value) ∈ pairs ↔ deque.get index = some value)
    (hsorted : pairs.Pairwise fun left right => left.1.toUInt64.toNat < right.1.toUInt64.toNat)
    {low high : Nat} {first last : Int64} (hfirst : first.toInt = deque.start.toInt + low + 1)
    (hlast : last.toInt = deque.start.toInt + high) (hsign : last.toInt < 0 ∨ 0 ≤ first.toInt) :
    pairs.filter (fun pair => first ≤ pair.1 ∧ pair.1 ≤ last) = deque.slice low high := by
  have hinside (index : Int64) : first ≤ index ∧ index ≤ last ↔
      first.toInt ≤ index.toInt ∧ index.toInt ≤ last.toInt := by
    rw [le_iff_toInt_le, le_iff_toInt_le]
  have hascending : (pairs.filter fun pair => first ≤ pair.1 ∧ pair.1 ≤ last).Pairwise
      fun left right => left.1.toInt < right.1.toInt := by
    refine (hsorted.filter _).imp_of_mem ?_
    intro left right hleft hright hlt
    simp only [mem_filter, decide_eq_true_eq, hinside] at hleft hright
    exact toInt_lt_of_toNat_lt (by omega) hlt
  have hslice := slice_sorted low high hnowrap
  have hnodup {list : List (Int64 × ν)}
      (hlist : list.Pairwise fun left right => left.1.toInt < right.1.toInt) : list.Nodup :=
    hlist.imp fun hlt heq => by simp [heq] at hlt
  apply List.Perm.eq_of_pairwise _ hascending hslice
  · rw [perm_ext_iff_of_nodup (hnodup hascending) (hnodup hslice)]
    rintro ⟨index, value⟩
    simp only [mem_filter, decide_eq_true_eq, hmem, hinside, mem_slice_iff, get_eq_some_iff hfits]
    constructor
    · rintro ⟨⟨place, helement, rfl⟩, hrange⟩
      have hplace := (List.getElem?_eq_some_iff.mp helement).1
      rw [position_toInt (by omega)] at hrange
      exact ⟨place, by omega, by omega, helement, rfl⟩
    · rintro ⟨place, hlow, hhigh, helement, rfl⟩
      have hplace := (List.getElem?_eq_some_iff.mp helement).1
      refine ⟨⟨place, helement, rfl⟩, ?_⟩
      rw [position_toInt (by omega)]
      omega
  · intro left right _ _ hlt hgt
    omega

end Deque
