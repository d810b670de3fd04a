import Mathlib

/-!
# Sets of items with a key

A set that compares its items by a key: of two items of one key the one that came first stays.
-/

structure KeyedSet {α κ : Type} (key : α → κ) where
  items : List α
  distinct : (items.map key).Nodup

namespace KeyedSet
open List Function Option

variable {α κ : Type} [DecidableEq κ] {key : α → κ}

def empty : KeyedSet key := ⟨[], nodup_nil⟩

def get (set : KeyedSet key) (place : κ) : Option α :=
  set.items.find? fun item => key item = place

variable {set : KeyedSet key} {item : α} {place : κ}

theorem key_of_get (hget : set.get place = some item) : key item = place := by
  simpa using find?_some hget

theorem mem_of_get (hget : set.get place = some item) :
    item ∈ set.items := mem_of_find?_eq_some hget

theorem get_of_mem (hitem : item ∈ set.items) : set.get (key item) = some item := by
  cases hget : set.get (key item) with
  | none => simpa using find?_eq_none.mp hget item hitem
  | some found =>
    have hkeys := key_of_get hget
    rw [inj_on_of_nodup_map set.distinct (mem_of_get hget) hitem hkeys]

theorem mem_iff_get :
    item ∈ set.items ↔ set.get (key item) = some item := ⟨get_of_mem, mem_of_get⟩

theorem get_eq_some_iff : set.get place = some item ↔ item ∈ set.items ∧ key item = place := by
  constructor
  · exact fun hget => ⟨mem_of_get hget, key_of_get hget⟩
  · rintro ⟨hitem, rfl⟩
    exact get_of_mem hitem

theorem get_eq_none_iff : set.get place = none ↔ ∀ item ∈ set.items, key item ≠ place := by
  simp [get]

theorem get_eq_iff {left right : KeyedSet key} :
    (∀ place, left.get place = right.get place) ↔ ∀ item, item ∈ left.items ↔ item ∈ right.items := by
  constructor
  · intro hget item
    rw [mem_iff_get, mem_iff_get, hget]
  · intro hmem place
    refine ext fun item => ?_
    rw [get_eq_some_iff, get_eq_some_iff, hmem]

@[simp] theorem get_empty (place : κ) : (empty : KeyedSet key).get place = none := rfl

def insert (set : KeyedSet key) (item : α) : KeyedSet key :=
  if hfresh : set.get (key item) = none then
    ⟨set.items ++ [item], by
      rw [map_append, nodup_append]
      refine ⟨set.distinct, nodup_singleton _, ?_⟩
      intro place hplace other hother heq
      obtain ⟨found, hfound, rfl⟩ := mem_map.mp hplace
      rw [map_singleton, mem_singleton] at hother
      exact get_eq_none_iff.mp hfresh found hfound (heq.trans hother)⟩
  else set

theorem get_insert (set : KeyedSet key) (item : α) (place : κ) :
    (set.insert item).get place =
      (set.get place).or (if key item = place then some item else none) := by
  unfold insert
  split
  · rename_i hfresh
    simp only [get, find?_append, find?_singleton, decide_eq_true_eq]
  · rename_i hfound
    by_cases hplace : key item = place
    · subst hplace
      obtain ⟨found, hget⟩ := ne_none_iff_exists'.mp hfound
      rw [hget, some_or]
    · rw [if_neg hplace, or_none]

def filter (set : KeyedSet key) (keep : α → Bool) : KeyedSet key where
  items := set.items.filter keep
  distinct := set.distinct.sublist (filter_sublist.map _)

theorem get_filter (set : KeyedSet key) (keep : α → Bool) (place : κ) :
    (set.filter keep).get place = (set.get place).filter keep := by
  refine ext fun item => ?_
  rw [get_eq_some_iff, filter, mem_filter, filter_eq_some_iff, get_eq_some_iff]
  exact and_right_comm

def difference (left right : KeyedSet key) : KeyedSet key :=
  left.filter fun item => (right.get (key item)).isNone

variable (left right : KeyedSet key)

theorem get_difference (place : κ) :
    (left.difference right).get place = if right.get place = none then left.get place else none := by
  rw [difference, get_filter]
  cases hget : left.get place with
  | none => simp
  | some item =>
    rw [filter_some, key_of_get hget]
    simp only [isNone_iff_eq_none]

def replaceAll (left right : KeyedSet key) : KeyedSet key where
  items := (left.difference right).items ++ right.items
  distinct := by
    rw [map_append, nodup_append]
    refine ⟨(left.difference right).distinct, right.distinct, ?_⟩
    intro place hplace other hother heq
    obtain ⟨item, hitem, rfl⟩ := mem_map.mp hplace
    obtain ⟨found, hfound, rfl⟩ := mem_map.mp hother
    have hnone : (right.get (key item)).isNone = true := (mem_filter.mp hitem).2
    exact get_eq_none_iff.mp (isNone_iff_eq_none.mp hnone) found hfound heq.symm

theorem get_replaceAll (place : κ) :
    (left.replaceAll right).get place = (right.get place).or (left.get place) := by
  have hsplit : (left.replaceAll right).get place =
      ((left.difference right).get place).or (right.get place) := find?_append
  rw [hsplit, get_difference]
  cases right.get place with
  | none => rw [if_pos rfl, or_none, none_or]
  | some found => rw [if_neg (by simp), none_or, some_or]

def insertAll (set : KeyedSet key) (items : List α) : KeyedSet key := items.foldl insert set

theorem get_insertAll (set : KeyedSet key) (items : List α) (place : κ) :
    (set.insertAll items).get place =
      (set.get place).or (items.find? fun item => key item = place) := by
  induction items generalizing set with
  | nil => simp [insertAll]
  | cons item items ih =>
    rw [insertAll, foldl_cons, ← insertAll, ih, get_insert, Option.or_assoc, find?_cons]
    by_cases hplace : key item = place
    · simp [hplace]
    · simp [hplace]

/-- A loop over a set whose body changes, for an item, only what is read at the key of the item. -/
theorem read_foldl {call : σ → α → σ} {read : σ → κ → β} {put : α → β → β}
    {good : σ → Prop} (set : KeyedSet key)
    (hcall : ∀ state, good state → ∀ item ∈ set.items, good (call state item) ∧
      read (call state item) = update (read state) (key item) (put item (read state (key item))))
    {state : σ} (hgood : good state) :
    good (set.items.foldl call state) ∧ ∀ place, read (set.items.foldl call state) place =
      (set.get place).elim (read state place) fun item => put item (read state place) := by
  obtain ⟨items, hdistinct⟩ := set
  simp only [get]
  induction items generalizing state with
  | nil => exact ⟨hgood, fun _ => rfl⟩
  | cons item items ih =>
    rw [map_cons, nodup_cons] at hdistinct
    obtain ⟨hnext, hread⟩ := hcall state hgood item mem_cons_self
    obtain ⟨hlast, hplaces⟩ := ih hnext hdistinct.2 fun state hgood other hother =>
      hcall state hgood other (mem_cons_of_mem item hother)
    refine ⟨hlast, fun place => ?_⟩
    rw [foldl_cons, hplaces, hread, find?_cons]
    by_cases hplace : key item = place
    · have hfind : items.find? (fun other => key other = place) = none := by
        rw [find?_eq_none]
        intro other hother hother'
        refine hdistinct.1 ?_
        rw [hplace, ← of_decide_eq_true hother']
        exact mem_map_of_mem hother
      rw [hfind, ← hplace, update_self, decide_eq_true rfl]
      rfl
    · rw [update_of_ne (Ne.symm hplace), decide_eq_false hplace]

end KeyedSet
