import Mathlib

/-!
# Values grouped by key

Values are pushed one after another to the list under their key.  A key then has its values in the
order in which they came, and a key without values is not in the map.
-/

namespace Grouping
open List Function Nat

variable {κ ν : Type} [DecidableEq κ]

def pushBack (groups : κ → Option (List ν)) (key : κ) (value : ν) : κ → Option (List ν) :=
  update groups key (some ((groups key).getD [] ++ [value]))

def groupAll (entries : List (κ × ν)) : κ → Option (List ν) :=
  entries.foldl (fun groups entry => pushBack groups entry.1 entry.2) fun _ => none

def nonEmpty (values : List ν) : Option (List ν) :=
  match values with
  | [] => none
  | value :: rest => some (value :: rest)

def valuesAt (entries : List (κ × ν)) (key : κ) : List ν :=
  (entries.filter fun entry => entry.1 = key).map Prod.snd

theorem nonEmpty_of_ne_nil {values : List ν} (hvalues : values ≠ []) :
    nonEmpty values = some values := by
  obtain ⟨value, rest, rfl⟩ := exists_cons_of_ne_nil hvalues
  rfl

@[simp] theorem isSome_nonEmpty (values : List ν) :
    (nonEmpty values).isSome = true ↔ values ≠ [] := by
  cases values <;> simp [nonEmpty]

theorem nonEmpty_eq_none {values : List ν} : nonEmpty values = none ↔ values = [] := by
  cases values <;> simp [nonEmpty]

theorem nonEmpty_injective : Function.Injective (nonEmpty : List ν → Option (List ν)) := by
  intro left right heq
  cases left <;> cases right <;> simp_all [nonEmpty]

theorem groupAll_eq (entries : List (κ × ν)) (key : κ) :
    groupAll entries key = nonEmpty (valuesAt entries key) := by
  induction entries using reverseRecOn with
  | nil => rfl
  | append_singleton entries entry ih =>
    have hlast : groupAll (entries ++ [entry]) =
        pushBack (groupAll entries) entry.1 entry.2 := foldl_concat ..
    have hgetD (values : List ν) : (nonEmpty values).getD [] = values := by
      cases values <;> rfl
    rw [hlast, pushBack]
    by_cases hkey : key = entry.1
    · subst hkey
      rw [update_self, ih, hgetD, valuesAt, valuesAt, filter_append, map_append,
        filter_singleton, decide_eq_true rfl]
      exact (nonEmpty_of_ne_nil (by simp)).symm
    · rw [update_of_ne hkey, ih, valuesAt, valuesAt, filter_append]
      simp [Ne.symm hkey]

theorem valuesAt_flatMap (items : List α) (entries : α → List (κ × ν)) (key : κ) :
    valuesAt (items.flatMap entries) key = items.flatMap fun item => valuesAt (entries item) key := by
  simp [valuesAt, filter_flatMap, map_flatMap]

variable {α : Type} (count : α → Nat)

def repeated (items : List α) : List α :=
  items.flatMap fun item => replicate (count item) item

variable {count}

theorem repeated_cons (item : α) (items : List α) :
    repeated count (item :: items) = replicate (count item) item ++ repeated count items :=
  rfl

variable {items : List α}

theorem mem_repeated {item : α} : item ∈ repeated count items ↔ item ∈ items ∧ 0 < count item := by
  simp only [repeated, mem_flatMap, mem_replicate]
  constructor
  · rintro ⟨other, hother, hcount, rfl⟩
    exact ⟨hother, pos_of_ne_zero hcount⟩
  · rintro ⟨hitem, hcount⟩
    exact ⟨item, hitem, ne_of_gt hcount, rfl⟩

theorem repeated_congr {other : α → Nat} (hcount : ∀ item ∈ items, count item = other item) :
    repeated count items = repeated other items :=
  flatMap_congr fun item hitem => by rw [hcount item hitem]

theorem repeated_eq_nil : repeated count items = [] ↔ ∀ item ∈ items, count item = 0 := by
  simp only [eq_nil_iff_forall_not_mem, mem_repeated, not_and, not_lt, le_zero]

theorem length_filter_le_repeated (items : List α) :
    (items.filter fun item => 0 < count item).length ≤ (repeated count items).length := by
  induction items with
  | nil => simp
  | cons item items ih =>
    rw [repeated_cons, length_append, length_replicate, filter_cons]
    split_ifs with hcount
    · rw [length_cons]
      simp only [decide_eq_true_eq] at hcount
      omega
    · omega

theorem repeated_eq_filter_iff (items : List α) :
    repeated count items = items.filter (fun item => 0 < count item) ↔
      ∀ item ∈ items, count item ≤ 1 := by
  induction items with
  | nil => simp [repeated]
  | cons item items ih =>
    rw [repeated_cons, filter_cons, forall_mem_cons]
    obtain hzero | hone | hmore : count item = 0 ∨ count item = 1 ∨ 2 ≤ count item := by omega
    · simp [hzero, ih]
    · simp [hone, ih]
    · refine iff_of_false (fun heq => ?_) fun hall => by omega
      have hlength := congrArg length heq
      have hle := @length_filter_le_repeated _ count items
      rw [if_pos (by simp; omega), length_append, length_replicate, length_cons] at hlength
      omega

end Grouping
