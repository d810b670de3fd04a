import LaserDB.Library.ByteCodec

/-!
# Integers as decimal text

A text is read as an integer of a range: blanks, an optional sign, at least one digit, blanks.
A natural number is written without leading zeros.
-/

namespace DecimalText
open List Nat

def ascii (text : List Char) : Bytes :=
  text.map fun char => UInt8.ofNat char.toNat

def isSpace (byte : UInt8) : Bool :=
  byte == 32 || (9 ≤ byte && byte ≤ 13)

def isDigit (byte : UInt8) : Bool :=
  48 ≤ byte && byte ≤ 57

def digitsValue (digits : Bytes) : Nat :=
  digits.foldl (fun value byte => 10 * value + (byte.toNat - 48)) 0

def splitSign : Bytes → Bool × Bytes
  | [] => (false, [])
  | byte :: rest =>
    if byte = 45 then (true, rest)
    else if byte = 43 then (false, rest)
    else (false, byte :: rest)

def parse (low high : Int) (text : Bytes) : Option Int :=
  let signed := splitSign (text.dropWhile isSpace)
  let digits := signed.2.takeWhile isDigit
  let rest := signed.2.dropWhile isDigit
  if digits = [] ∨ rest.all isSpace = false then none
  else
    let value : Int := if signed.1 then -(digitsValue digits : Int) else digitsValue digits
    if low ≤ value ∧ value ≤ high then some value else none

def print (number : Nat) : Bytes :=
  ascii (toDigits 10 number)

def printInt : Int → Bytes
  | .ofNat number => print number
  | .negSucc number => 45 :: print (number + 1)

section
variable {char : Char} (hdigit : char.isDigit = true)
include hdigit

theorem toNat_of_isDigit : 48 ≤ char.toNat ∧ char.toNat ≤ 57 := by
  simp only [Char.isDigit, ge_iff_le, Bool.and_eq_true, decide_eq_true_eq] at hdigit
  exact ⟨hdigit.1, hdigit.2⟩

theorem toNat_ofNat_char : (UInt8.ofNat char.toNat).toNat = char.toNat := by
  obtain ⟨-, hle⟩ := toNat_of_isDigit hdigit
  rw [UInt8.toNat_ofNat']
  omega

theorem isDigit_ofNat : isDigit (UInt8.ofNat char.toNat) = true := by
  obtain ⟨hge, hle⟩ := toNat_of_isDigit hdigit
  have hnat := toNat_ofNat_char hdigit
  simp only [isDigit, Bool.and_eq_true, decide_eq_true_eq, UInt8.le_iff_toNat_le, hnat]
  exact ⟨hge, hle⟩

end

theorem isDigit_of_mem_print {number : Nat} {byte : UInt8} (hbyte : byte ∈ print number) :
    isDigit byte = true := by
  obtain ⟨char, hchar, rfl⟩ := mem_map.mp hbyte
  exact isDigit_ofNat (isDigit_of_mem_toDigits (by omega) (by omega) hchar)

variable (number : Nat)

theorem print_ne_nil : print number ≠ [] := by
  intro hnil
  exact toDigits_ne_nil (map_eq_nil_iff.mp hnil)

theorem foldl_ascii (text : List Char) (value : Nat)
    (hdigits : ∀ char ∈ text, char.isDigit = true) :
    (ascii text).foldl (fun value byte => 10 * value + (byte.toNat - 48)) value =
      ofDigitChars 10 text value := by
  induction text generalizing value with
  | nil => rfl
  | cons char text ih =>
    obtain ⟨hchar, htext⟩ := forall_mem_cons.mp hdigits
    have hrest := ih (10 * value + (char.toNat - 48)) htext
    rw [← toNat_ofNat_char hchar] at hrest
    rw [ofDigitChars_cons, ← toNat_ofNat_char hchar]
    exact hrest

theorem digitsValue_print : digitsValue (print number) = number := by
  have hdigits : ∀ char ∈ toDigits 10 number, char.isDigit = true := fun char hchar =>
    isDigit_of_mem_toDigits (by omega) (by omega) hchar
  rw [digitsValue, print, foldl_ascii _ _ hdigits]
  exact ofDigitChars_toDigits (by omega) (by omega)

theorem isSpace_of_isDigit {byte : UInt8} (hdigit : isDigit byte = true) :
    isSpace byte = false ∧ byte ≠ 45 ∧ byte ≠ 43 := by
  simp only [isDigit, Bool.and_eq_true, decide_eq_true_eq, UInt8.le_iff_toNat_le] at hdigit
  simp only [isSpace, Bool.or_eq_false_iff, beq_eq_false_iff_ne, Bool.and_eq_false_iff,
    decide_eq_false_iff_not, UInt8.le_iff_toNat_le, ne_eq, ← UInt8.toNat_inj]
  simp only [UInt8.reduceToNat] at hdigit ⊢
  omega

theorem parse_print {low high : Int} (hlow : low ≤ 0) :
    parse low high (print number) = if (number : Int) ≤ high then some (number : Int) else none := by
  obtain ⟨first, rest, hprint⟩ := exists_cons_of_ne_nil (print_ne_nil number)
  have hall : ∀ byte ∈ print number, isDigit byte = true := fun byte => isDigit_of_mem_print
  obtain ⟨hspace, hminus, hplus⟩ := isSpace_of_isDigit (hall first (hprint ▸ mem_cons_self))
  have hskip : (print number).dropWhile isSpace = print number := by
    rw [hprint, dropWhile_cons_of_neg (by simp [hspace])]
  have hsign : splitSign (print number) = (false, print number) := by
    rw [hprint, splitSign, if_neg hminus, if_neg hplus]
  have htake : (print number).takeWhile isDigit = print number := takeWhile_eq_self_iff.mpr hall
  have hdrop : (print number).dropWhile isDigit = [] := dropWhile_eq_nil_iff.mpr hall
  have hrange : (low ≤ (number : Int) ∧ (number : Int) ≤ high) ↔ (number : Int) ≤ high :=
    and_iff_right (by omega)
  simp only [parse, hskip, hsign, htake, hdrop, digitsValue_print, print_ne_nil, all_nil,
    Bool.true_eq_false, or_self, if_false, Bool.false_eq_true, hrange]

end DecimalText
