import Mathlib

/-!
# Logs with sequence numbers

The entries of a log take consecutive sequence numbers, counted from one; an
entry takes as many as its weight.  The place of an entry is its index.
-/

namespace SequencedLog

open List

variable {α : Type} {weight : α → Nat}

def total (weight : α → Nat) (entries : List α) : Nat := (entries.map weight).sum

def startOf (weight : α → Nat) (entries : List α) (place : Nat) : Nat :=
  total weight (entries.take place) + 1

/-- The place of the first entry that does not end before a sequence number. -/
def placeOf (weight : α → Nat) : List α → Nat → Nat
  | [], _ => 0
  | entry :: rest, sequence =>
    if weight entry < sequence then placeOf weight rest (sequence - weight entry) + 1 else 0

@[simp] theorem total_append (first second : List α) :
    total weight (first ++ second) = total weight first + total weight second := by
  simp only [total, map_append, sum_append]

variable {place : Nat}

theorem startOf_append (entries more : List α) (hplace : place ≤ entries.length) :
    startOf weight (entries ++ more) place = startOf weight entries place := by
  unfold startOf
  rw [take_append_of_le_length hplace]

theorem startOf_of_prefix {first entries : List α} (hbegins : first <+: entries) :
    startOf weight entries first.length = total weight first + 1 := by
  unfold startOf
  rw [← List.prefix_iff_eq_take.mp hbegins]

theorem startOf_add {entries updates : List α} (hupdates : updates <+: entries.drop place) :
    startOf weight entries (place + updates.length) =
      startOf weight entries place + total weight updates := by
  have htake : entries.take (place + updates.length) = entries.take place ++ updates := by
    rw [take_add, ← List.prefix_iff_eq_take.mp hupdates]
  unfold startOf
  rw [htake, total_append]
  omega

variable {entries : List α}

theorem startOf_lt (hweight : ∀ entry, 0 < weight entry) {place later : Nat}
    (hlater : place < later) (hlength : later ≤ entries.length) :
    startOf weight entries place < startOf weight entries later := by
  obtain ⟨gap, rfl⟩ := Nat.exists_eq_add_of_lt hlater
  have hplace : place < entries.length := by omega
  have hbegins : (entries.drop place).take (gap + 1) <+: entries.drop place := take_prefix _ _
  have hsize : ((entries.drop place).take (gap + 1)).length = gap + 1 := by
    rw [length_take, length_drop]
    omega
  have hstart : startOf weight entries (place + _) = startOf weight entries place + _ :=
    startOf_add hbegins
  rw [hsize, drop_eq_getElem_cons hplace, take_succ_cons] at hstart
  have hpos := hweight entries[place]
  simp only [total, map_cons, sum_cons] at hstart
  rw [Nat.add_assoc, hstart]
  omega

theorem startOf_inj (hweight : ∀ entry, 0 < weight entry) {place other : Nat}
    (hplace : place ≤ entries.length) (hother : other ≤ entries.length)
    (heq : startOf weight entries place = startOf weight entries other) : place = other := by
  rcases Nat.lt_trichotomy place other with hlt | rfl | hlt
  · exact absurd heq (startOf_lt hweight hlt hother).ne
  · rfl
  · exact absurd heq (startOf_lt hweight hlt hplace).ne'

theorem startOf_length (entries : List α) :
    startOf weight entries entries.length = total weight entries + 1 :=
  startOf_of_prefix (prefix_refl entries)

theorem placeOf_startOf (hweight : ∀ entry, 0 < weight entry) (hplace : place ≤ entries.length) :
    placeOf weight entries (startOf weight entries place) = place := by
  induction entries generalizing place with
  | nil => exact (Nat.le_zero.mp hplace).symm
  | cons entry rest ih =>
    cases place with
    | zero =>
      have hpos := hweight entry
      simp only [placeOf, startOf, take_zero, total, map_nil, sum_nil]
      rw [if_neg (by omega)]
    | succ place =>
      have hstart : startOf weight (entry :: rest) (place + 1) =
          weight entry + startOf weight rest place := by
        simp only [startOf, total, take_succ_cons, map_cons, sum_cons]
        omega
      have hpos : 0 < startOf weight rest place := Nat.succ_pos _
      rw [hstart, placeOf, if_pos (by omega), Nat.add_sub_cancel_left,
        ih (Nat.le_of_succ_le_succ hplace)]

end SequencedLog
