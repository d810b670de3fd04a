import LaserDB.Service.LaserService

/-!
# Keys of Redis requests

The text of a key has a version, a database, a table, the primary keys and the columns.
-/

namespace LaserDB.RedisKey

open List

structure Flags where
  laserDatabaseName : Bytes
  laserTableName : Bytes
  delimiterFirst : UInt8
  delimiterSecond : UInt8

/-- `RedisCommandProcess::getLaserKey`; the positions are those of `REDIS_REQ_`. -/
def getLaserKey (flags : Flags) (key : Bytes) : Option TableKey :=
  if flags.laserDatabaseName ≠ [] ∧ flags.laserTableName ≠ [] then
    some ⟨flags.laserDatabaseName, flags.laserTableName, ⟨[key], []⟩⟩
  else
    match splitOn flags.delimiterFirst key with
    | _ :: databaseName :: tableName :: primaryKey :: rest =>
      some ⟨databaseName, tableName, splitOn flags.delimiterSecond primaryKey,
        match rest with
        | [] => []
        | columnKey :: _ => splitOn flags.delimiterSecond columnKey⟩
    | _ => none

section
variable {flags : Flags}

/-- The columns are left out if there are none. -/
def keyParts (flags : Flags) (version : Bytes) (key : TableKey) : List Bytes :=
  [version, key.databaseName, key.tableName,
      [flags.delimiterSecond].intercalate key.key.primaryKeys] ++
    if key.key.columns = [] then [] else [[flags.delimiterSecond].intercalate key.key.columns]

def keyText (flags : Flags) (version : Bytes) (key : TableKey) : Bytes :=
  [flags.delimiterFirst].intercalate (keyParts flags version key)

def Free (flags : Flags) (part : Bytes) : Prop :=
  flags.delimiterFirst ∉ part ∧ flags.delimiterSecond ∉ part

theorem splitOn_injective (delimiter : UInt8) :
    Function.Injective (splitOn delimiter : Bytes → List Bytes) := by
  intro text other heq
  rw [← @intercalate_splitOn _ text _ _ delimiter, heq, intercalate_splitOn]

theorem notMem_intercalate {first second : UInt8} (hne : first ≠ second)
    {parts : List Bytes} (hparts : ∀ part ∈ parts, first ∉ part) :
    first ∉ [second].intercalate parts := by
  induction parts with
  | nil => exact not_mem_nil
  | cons part parts ih =>
    obtain ⟨hpart, hparts⟩ := forall_mem_cons.mp hparts
    cases parts with
    | nil => simpa [intercalate_singleton] using hpart
    | cons next parts =>
      rw [intercalate_cons_cons, mem_append, mem_append, mem_singleton]
      exact not_or.mpr ⟨not_or.mpr ⟨hpart, hne⟩, ih hparts⟩

variable (hnames : flags.laserDatabaseName = [] ∨ flags.laserTableName = [])
include hnames

theorem getLaserKey_keyText (hdelimiters : flags.delimiterFirst ≠ flags.delimiterSecond)
    {version : Bytes} {key : TableKey} (hprimary : key.key.primaryKeys ≠ [])
    (hfree : ∀ part ∈ version :: key.databaseName :: key.tableName ::
      (key.key.primaryKeys ++ key.key.columns), Free flags part) :
    getLaserKey flags (keyText flags version key) = some key := by
  simp only [forall_mem_cons, forall_mem_append] at hfree
  obtain ⟨hversion, hdatabase, htable, hkeys, hcolumns⟩ := hfree
  have hjoined {parts : List Bytes} (hparts : ∀ part ∈ parts, Free flags part) :
      flags.delimiterFirst ∉ [flags.delimiterSecond].intercalate parts :=
    notMem_intercalate hdelimiters fun part hpart => (hparts part hpart).1
  have hread {parts : List Bytes} (hparts : ∀ part ∈ parts, Free flags part) (hne : parts ≠ []) :
      splitOn flags.delimiterSecond ([flags.delimiterSecond].intercalate parts) = parts :=
    splitOn_intercalate _ (fun part hpart => (hparts part hpart).2) hne
  have hsplit : splitOn flags.delimiterFirst (keyText flags version key) =
      keyParts flags version key := by
    refine splitOn_intercalate _ ?_ nofun
    unfold keyParts
    split <;> simp [hversion.1, hdatabase.1, htable.1, hjoined hkeys, hjoined hcolumns]
  rw [getLaserKey, if_neg (by tauto), hsplit, keyParts]
  obtain ⟨_, _, _, columns⟩ := key
  by_cases hnone : columns = []
  · subst hnone
    simp [hread hkeys hprimary]
  · simp [hread hkeys hprimary, hnone, hread hcolumns hnone]

theorem parts_of_getLaserKey {text : Bytes} {key : TableKey}
    (hkey : getLaserKey flags text = some key) :
    ∃ version primaryKey rest, splitOn flags.delimiterFirst text =
        version :: key.databaseName :: key.tableName :: primaryKey :: rest ∧
      splitOn flags.delimiterSecond primaryKey = key.key.primaryKeys ∧
      (rest.head?.map (splitOn flags.delimiterSecond)).getD [] = key.key.columns := by
  rw [getLaserKey, if_neg (by tauto)] at hkey
  split at hkey
  · rename_i version databaseName tableName primaryKey rest hparts
    cases hkey
    refine ⟨version, primaryKey, rest, hparts, rfl, ?_⟩
    cases rest <;> rfl
  · cases hkey

/-- A key is read back from its text, and of two texts with the version and the key in common
only the parts behind the columns may differ. -/
theorem getLaserKey_inverts (hdelimiters : flags.delimiterFirst ≠ flags.delimiterSecond) :
    (∀ version (key : TableKey), key.key.primaryKeys ≠ [] →
      (∀ part ∈ version :: key.databaseName :: key.tableName ::
        (key.key.primaryKeys ++ key.key.columns), Free flags part) →
      getLaserKey flags (keyText flags version key) = some key) ∧
    ∀ text other key, getLaserKey flags text = some key → getLaserKey flags other = some key →
      (splitOn flags.delimiterFirst text).head? = (splitOn flags.delimiterFirst other).head? →
      (text = other ↔ (splitOn flags.delimiterFirst text).drop 5 =
        (splitOn flags.delimiterFirst other).drop 5) := by
  refine ⟨fun version key => getLaserKey_keyText hnames hdelimiters,
    fun text other key htext hother hversion => ⟨fun heq => heq ▸ rfl, fun hunread => ?_⟩⟩
  obtain ⟨first, primaryKey, rest, hparts, hprimary, hcolumns⟩ := parts_of_getLaserKey hnames htext
  obtain ⟨first', primaryKey', rest', hparts', hprimary', hcolumns'⟩ :=
    parts_of_getLaserKey hnames hother
  apply splitOn_injective flags.delimiterFirst
  rw [hparts, hparts'] at hversion hunread ⊢
  rw [Option.some.inj hversion, splitOn_injective _ (hprimary.trans hprimary'.symm)]
  have hrest : rest = rest' := by
    rw [← hcolumns'] at hcolumns
    match rest, rest' with
    | [], [] => rfl
    | [], column :: _ => exact absurd hcolumns.symm (splitOn_ne_nil _ _)
    | column :: _, [] => exact absurd hcolumns (splitOn_ne_nil _ _)
    | column :: _, column' :: _ => exact congrArg₂ cons (splitOn_injective _ hcolumns) hunread
  rw [hrest]

end

/-- A key with an empty part, and two texts of one key that are not equal: they differ behind the
columns. -/
theorem getLaserKey_inverts_default :
    let flags : Flags := ⟨[], [], 1, 2⟩
    let key : TableKey := ⟨[100], [116], [[], [97]], [[]]⟩
    let text : Bytes := [49, 1, 100, 1, 116, 1, 97, 1, 98]
    getLaserKey flags (keyText flags [49] key) = some key ∧
      (splitOn flags.delimiterFirst text).drop 5 ≠
        (splitOn flags.delimiterFirst (text ++ [1])).drop 5 := by
  intro flags key text
  have hinverts := @getLaserKey_inverts flags (.inl rfl) (by decide)
  refine ⟨hinverts.1 [49] key (by decide) (by unfold Free; decide), fun hrest => ?_⟩
  have hsame := (hinverts.2 text (text ++ [1]) ⟨[100], [116], [[97]], [[98]]⟩ (by decide)
    (by decide) (by decide)).mpr hrest
  exact absurd hsame (by decide)

/-- The text of a key and the same text with a delimiter at its end. -/
theorem getLaserKey_ignores_rest :
    let flags : Flags := ⟨[], [], 1, 2⟩
    getLaserKey flags [49, 1, 100, 1, 116, 1, 97, 1, 98] = some ⟨[100], [116], [[97]], [[98]]⟩ ∧
      getLaserKey flags [49, 1, 100, 1, 116, 1, 97, 1, 98, 1] =
        some ⟨[100], [116], [[97]], [[98]]⟩ := by
  decide

end LaserDB.RedisKey
