import Mathlib

/-!
# Lines of input of the transform job

`KVSeparatorSupportColumnsKey.split` of the transform job.
-/

namespace LaserDB.TransformJob

open List

/-- `String.split` with a delimiter that is one plain character. -/
def javaSplit (delimiter : Char) (line : List Char) : List (List Char) :=
  match splitOn delimiter line with
  | [_] => [line]
  | parts => parts.rdropWhile (·.isEmpty)

/-- `String.trim` leaves nothing. -/
abbrev IsBlank (text : List Char) : Prop := ∀ char ∈ text, char.val.toNat ≤ 32

structure LaserKeyValue where
  primaryKey : List Char
  columnKeys : List (List Char)
  value : List Char
  deriving DecidableEq, Repr

/-- The loop over the parts behind the primary key. -/
def splitColumns : List (List Char) → List (List Char) × List Char
  | [] => ([], [])
  | [value] => ([], value)
  | column :: rest => (column :: (splitColumns rest).1, (splitColumns rest).2)

def split (line : List Char) (delimiter : Char) : Option LaserKeyValue :=
  match javaSplit delimiter line with
  | [] => none
  | primaryKey :: rest =>
    if IsBlank primaryKey then none
    else some ⟨primaryKey, (splitColumns rest).1, (splitColumns rest).2⟩

def LaserKeyValue.parts (record : LaserKeyValue) : List (List Char) :=
  record.primaryKey :: (record.columnKeys ++ [record.value])

def LaserKeyValue.line (record : LaserKeyValue) (delimiter : Char) : List Char :=
  [delimiter].intercalate record.parts

theorem splitColumns_append (columns : List (List Char)) (value : List Char) :
    splitColumns (columns ++ [value]) = (columns, value) := by
  induction columns with
  | nil => rfl
  | cons column columns ih =>
    cases columns with
    | nil => rfl
    | cons next columns =>
      rw [cons_append, cons_append, splitColumns, ← cons_append, ih]
      nofun

theorem length_splitColumns (parts : List (List Char)) :
    (splitColumns parts).1.length = parts.length - 1 := by
  fun_induction splitColumns parts with
  | case1 => rfl
  | case2 => rfl
  | case3 column rest hrest ih =>
    have hpos : 0 < rest.length := length_pos_iff.mpr hrest
    rw [length_cons, length_cons, ih]
    omega

theorem javaSplit_line {record : LaserKeyValue} {delimiter : Char}
    (hparts : ∀ part ∈ record.parts, delimiter ∉ part) :
    javaSplit delimiter (record.line delimiter) = record.parts.rdropWhile (·.isEmpty) := by
  have hsplit : splitOn delimiter (record.line delimiter) = record.parts :=
    splitOn_intercalate delimiter hparts nofun
  unfold javaSplit
  rw [hsplit]
  split
  · rename_i part hpart
    simp [LaserKeyValue.parts] at hpart
  · rfl

/-- An empty value is lost behind columns: the last column that is not empty takes its place. -/
theorem split_line_iff {record : LaserKeyValue} {delimiter : Char}
    (hparts : ∀ part ∈ record.parts, delimiter ∉ part) (hprimary : ¬IsBlank record.primaryKey) :
    split (record.line delimiter) delimiter = some record ↔
      record.value ≠ [] ∨ record.columnKeys = [] := by
  obtain ⟨primaryKey, columnKeys, value⟩ := record
  have hne : primaryKey ≠ [] := by
    rintro rfl
    exact hprimary nofun
  rw [split, javaSplit_line hparts, LaserKeyValue.parts]
  by_cases hvalue : value = []
  · subst hvalue
    rw [← cons_append, rdropWhile_concat_pos _ _ _ rfl]
    cases columnKeys with
    | nil => simp [rdropWhile_singleton, hne, hprimary, splitColumns]
    | cons column columns =>
      refine iff_of_false ?_ (by simp)
      have hlength := ( rdropWhile_prefix (·.isEmpty) (primaryKey :: column :: columns)).length_le
      intro hsplit
      split at hsplit
      · cases hsplit
      · rename_i rest hrest
        rw [hrest] at hlength
        split at hsplit
        · cases hsplit
        · have hcolumns := length_splitColumns rest
          simp only [Option.some.injEq, LaserKeyValue.mk.injEq] at hsplit
          rw [hsplit.2.1] at hcolumns
          simp only [length_cons] at hlength hcolumns
          omega
  · rw [← cons_append, rdropWhile_concat_neg _ _ _ (by simpa using hvalue)]
    simp [hprimary, splitColumns_append, hvalue]

theorem split_line_full :
    split (LaserKeyValue.line ⟨['a'], [['b']], ['c']⟩ ',') ',' = some ⟨['a'], [['b']], ['c']⟩ :=
  (split_line_iff (by decide) (by simp)).mpr (.inl nofun)

/-- The line of a record without columns. -/
theorem split_line_shifts :
    split (LaserKeyValue.line ⟨['a'], [['b']], []⟩ ',') ',' = some ⟨['a'], [], ['b']⟩ ∧
      split (LaserKeyValue.line ⟨['a'], [], ['b']⟩ ',') ',' = some ⟨['a'], [], ['b']⟩ := by
  constructor <;> rw [split, javaSplit_line (by decide)] <;>
    simp [LaserKeyValue.parts, rdropWhile, splitColumns]

end LaserDB.TransformJob
