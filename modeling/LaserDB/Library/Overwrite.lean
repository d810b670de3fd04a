import Mathlib

/-!
# Maps that are written over

A map that is written entry by entry holds the last value of each key, and what it held before
under the keys that were not written.
-/

namespace Overwrite
open Function List
variable {κ ν : Type} [DecidableEq κ]

def writeAll (map : κ → Option ν) (entries : List (κ × ν)) : κ → Option ν :=
  entries.foldl (fun map entry => update map entry.1 (some entry.2)) map

theorem writeAll_cases (entries : List (κ × ν)) (key : κ) :
    (∃ value, (key, value) ∈ entries ∧
      ∀ map : κ → Option ν, writeAll map entries key = some value) ∨
    key ∉ entries.map Prod.fst ∧ ∀ map : κ → Option ν, writeAll map entries key = map key := by
  induction entries using reverseRecOn with
  | nil => exact .inr ⟨not_mem_nil, fun _ => rfl⟩
  | append_singleton entries entry ih =>
    have hlast (map : κ → Option ν) : writeAll map (entries ++ [entry]) =
        update (writeAll map entries) entry.1 (some entry.2) := foldl_concat ..
    by_cases hkey : key = entry.1
    · subst hkey
      refine .inl ⟨entry.2, mem_append_right _ (mem_singleton_self _), fun map => ?_⟩
      rw [hlast, update_self]
    · rcases ih with ⟨value, hvalue, hread⟩ | ⟨hnew, hread⟩
      · refine .inl ⟨value, mem_append_left _ hvalue, fun map => ?_⟩
        rw [hlast, update_of_ne hkey, hread]
      · refine .inr ⟨?_, fun map => ?_⟩
        · rw [map_append, mem_append, map_singleton, mem_singleton]
          exact not_or.mpr ⟨hnew, hkey⟩
        · rw [hlast, update_of_ne hkey, hread]

variable {map : κ → Option ν} {entries : List (κ × ν)}

variable {key : κ}

theorem writeAll_of_notMem (hkey : key ∉ entries.map Prod.fst) :
    writeAll map entries key = map key := by
  rcases writeAll_cases entries key with ⟨value, hvalue, -⟩ | ⟨-, hread⟩
  · exact absurd (mem_map_of_mem hvalue) hkey
  · exact hread map

theorem writeAll_of_mem {map other : κ → Option ν} (hkey : key ∈ entries.map Prod.fst) :
    writeAll map entries key = writeAll other entries key := by
  rcases writeAll_cases entries key with ⟨value, -, hread⟩ | ⟨hnew, -⟩
  · rw [hread, hread]
  · exact absurd hkey hnew

theorem isSome_writeAll (hkey : key ∈ entries.map Prod.fst) :
    (writeAll map entries key).isSome := by
  rcases writeAll_cases entries key with ⟨value, -, hread⟩ | ⟨hnew, -⟩
  · rw [hread]
    rfl
  · exact absurd hkey hnew

theorem writeAll_of_entry {value : ν} (hentry : (key, value) ∈ entries)
    (hunique : ∀ other, (key, other) ∈ entries → other = value) :
    writeAll map entries key = some value := by
  rcases writeAll_cases entries key with ⟨found, hfound, hread⟩ | ⟨hnew, -⟩
  · rw [hread, hunique found hfound]
  · exact absurd (mem_map_of_mem hentry) hnew

end Overwrite
