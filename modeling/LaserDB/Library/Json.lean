import Mathlib

/-!
# Documents

Values as a parser of JSON gives them.  A number beyond 64 bits is read as a floating-point one, of
which nothing is kept.
-/

inductive Json (σ : Type) where
  | null
  | bool (value : Bool)
  | int (value : Int64)
  | double
  | string (value : σ)
  | array (items : List (Json σ))
  | object (members : List (String × Json σ))

namespace Json
open List
variable {σ : Type}

def ofNat (value : Nat) : Json σ :=
  if value < 2 ^ 63 then .int (Int64.ofNat value) else .double

def getPtr (name : String) : Json σ → Option (Json σ)
  | .object members => members.lookup name
  | _ => none

def isObject : Json σ → Bool
  | .object _ => true
  | _ => false

def asBool : Json σ → Option Bool
  | .bool value => some value
  | _ => none

def asInt : Json σ → Option Int64
  | .int value => some value
  | _ => none

def asString : Json σ → Option σ
  | .string value => some value
  | _ => none

def asArray : Json σ → Option (List (Json σ))
  | .array items => some items
  | _ => none

@[simp] theorem isObject_object (members : List (String × Json σ)) :
    (object members).isObject = true := rfl

@[simp] theorem getPtr_object_cons (name key : String) (value : Json σ)
    (members : List (String × Json σ)) :
    (object ((key, value) :: members)).getPtr name =
      if name = key then some value else (object members).getPtr name := by
  simp only [getPtr]
  by_cases hname : name = key
  · rw [if_pos hname, lookup_cons, hname, BEq.rfl]
  · rw [if_neg hname, lookup_cons, beq_eq_false_iff_ne.mpr hname]

@[simp] theorem getPtr_object_nil (name : String) : (object [] : Json σ).getPtr name = none := rfl

@[simp] theorem asBool_bool (value : Bool) : (bool value : Json σ).asBool = some value := rfl

@[simp] theorem asString_string (value : σ) : (string value).asString = some value := rfl

@[simp] theorem asArray_array (items : List (Json σ)) : (array items).asArray = some items := rfl

theorem asInt_ofNat {value : Nat} (hvalue : value < 2 ^ 63) :
    (ofNat value : Json σ).asInt = some (Int64.ofNat value) := by
  rw [ofNat, if_pos hvalue]
  rfl

theorem asInt_ofNat_of_le {value : Nat} (hvalue : 2 ^ 63 ≤ value) :
    (ofNat value : Json σ).asInt = none := by
  rw [ofNat, if_neg (Nat.not_lt.mpr hvalue)]
  rfl

theorem mapM_map_eq_some {write : α → Json σ} {read : Json σ → Option β}
    {result : α → β} {items : List α} (hread : ∀ item ∈ items, read (write item) = some (result item)) :
    (items.map write).mapM read = some (items.map result) := by
  induction items with
  | nil => rfl
  | cons item items ih =>
    rw [forall_mem_cons] at hread
    simp [hread.1, ih hread.2]

end Json
