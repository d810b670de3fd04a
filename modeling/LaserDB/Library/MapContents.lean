import Mathlib

/-!
# What the values of a map hold

Every value of a map holds a bag of items, or something else that can be added up.
-/

namespace MapContents
open Option List AList
variable {κ β : Type}

structure Walk (κ : Type) where
  order : List κ → List κ
  perm : ∀ keys, (order keys).Perm keys

theorem Walk.nodup (walk : Walk κ) (map : AList fun _ : κ => β) : (walk.order map.keys).Nodup :=
  (walk.perm _).nodup_iff.mpr map.keys_nodup

variable {map : AList fun _ : κ => β}

variable {key other : κ}

section
variable {M : Type} [AddCommMonoid M]

def contents (bag : κ → β → M) (map : AList fun _ : κ => β) : M :=
  (map.entries.map fun entry => bag entry.1 entry.2).sum

variable [DecidableEq κ]

def itemsAt (bag : κ → β → M) (map : AList fun _ : κ => β) (key : κ) : M :=
  (map.lookup key).elim 0 (bag key)

variable {bag : κ → β → M}

theorem contents_insert (map : AList fun _ : κ => β) (key : κ) (value : β) :
    contents bag (map.insert key value) = bag key value + contents bag (map.erase key) := by
  rw [contents, entries_insert, map_cons, sum_cons]
  rfl

theorem itemsAt_add_contents_erase (map : AList fun _ : κ => β) (key : κ) :
    itemsAt bag map key + contents bag (map.erase key) = contents bag map := by
  by_cases hkey : key ∈ map.keys
  · obtain ⟨value, front, rest, -, hentries, herase⟩ := exists_of_kerase hkey
    have hlookup : map.lookup key = some value := by
      refine mem_lookup_iff.mpr ?_
      rw [hentries]
      exact mem_append_right _ mem_cons_self
    have herased : (map.erase key).entries = front ++ rest := herase
    rw [itemsAt, hlookup, contents, contents, herased, hentries]
    simp only [elim_some, map_append, sum_append, map_cons, sum_cons]
    exact add_left_comm _ _ _
  · have hlookup : map.lookup key = none := lookup_eq_none.mpr hkey
    have herased : (map.erase key).entries = map.entries := kerase_of_notMem_keys hkey
    rw [itemsAt, hlookup, contents, contents, herased, elim_none, zero_add]

theorem itemsAt_of_lookup {key : κ} {value : β} (hlookup : map.lookup key = some value) :
    itemsAt bag map key = bag key value := by
  rw [itemsAt, hlookup, elim_some]

theorem itemsAt_erase_of_ne (hne : other ≠ key) :
    itemsAt bag (map.erase key) other = itemsAt bag map other := by
  rw [itemsAt, itemsAt, lookup_erase_ne hne]

theorem itemsAt_insert_self (map : AList fun _ : κ => β) (key : κ) (value : β) :
    itemsAt bag (map.insert key value) key = bag key value :=
  itemsAt_of_lookup (lookup_insert map)

theorem itemsAt_insert_of_ne (hne : other ≠ key) (value : β) :
    itemsAt bag (map.insert key value) other = itemsAt bag map other := by
  rw [itemsAt, itemsAt, lookup_insert_ne hne]

end

variable {α : Type} {bag : κ → β → Multiset α}

variable [DecidableEq κ]

theorem contents_erase_le (map : AList fun _ : κ => β) (key : κ) :
    contents bag (map.erase key) ≤ contents bag map := by
  rw [← itemsAt_add_contents_erase map key]
  exact Multiset.le_add_left _ _

theorem contents_move_le {value : β}
    (hvalue : bag key value = itemsAt bag map key + itemsAt bag map other) :
    contents bag ((map.insert key value).erase other) ≤ contents bag map := by
  have hmoved : itemsAt bag (map.insert key value) other + _ = _ := itemsAt_add_contents_erase _ _
  rw [contents_insert] at hmoved
  by_cases hself : other = key
  · subst hself
    rw [itemsAt_insert_self] at hmoved
    rw [add_left_cancel hmoved]
    exact contents_erase_le map other
  · rw [itemsAt_insert_of_ne hself, hvalue, add_right_comm, itemsAt_add_contents_erase,
      add_comm (contents bag map)] at hmoved
    exact le_of_eq (add_left_cancel hmoved)

theorem sum_itemsAt_le {keys : List κ} (hkeys : keys.Nodup) (map : AList fun _ : κ => β) :
    (keys.map (itemsAt bag map)).sum ≤ contents bag map := by
  induction keys generalizing map with
  | nil => exact Multiset.zero_le _
  | cons key keys ih =>
    obtain ⟨hkey, hrest⟩ := nodup_cons.mp hkeys
    have hothers : keys.map (itemsAt bag map) = keys.map (itemsAt bag (map.erase key)) := by
      refine map_congr_left fun other hother => (itemsAt_erase_of_ne ?_).symm
      rintro rfl
      exact hkey hother
    rw [map_cons, sum_cons, hothers, ← itemsAt_add_contents_erase map key]
    exact add_le_add_right (ih hrest _) _

end MapContents
