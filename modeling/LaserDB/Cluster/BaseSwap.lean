import LaserDB.Cluster.BaseReplication

/-!
# Putting received base data in place

What the callback of `PartitionHandler::baseDataReplicate` does when a transfer has ended.
-/

namespace LaserDB
open Function

inductive BaseData where
  | previous
  | received
  deriving DecidableEq

structure SwapMet where
  transferred : Bool
  setAside : Bool
  putInPlace : Bool
  opened : Bool
  removed : Bool

/-- `closedEarly` records that a database was closed before its replacement was in its place. -/
structure BaseSwap where
  baseVersion : Version
  db : Option Version
  files : DataDir → Option BaseData
  deleting : Option BaseData
  retry : Option Version
  closedEarly : Bool

namespace BaseSwap

variable (state : BaseSwap) (version : Version)

/-- A handler that serves a version, after a transfer of this or another one. -/
def serving (baseVersion version : Version) (retry : Option Version) : BaseSwap where
  baseVersion := baseVersion
  db := some baseVersion
  files directory :=
    if directory = .data baseVersion then some .previous
    else if directory = .replicating version ∨ directory = .data version then some .received
    else none
  deleting := none
  retry := retry
  closedEarly := false

def syncDestroyRocksDbEngine (state : BaseSwap) : BaseSwap :=
  { state with
    db := none
    closedEarly := state.closedEarly ||
      decide (state.files (.data state.baseVersion) ≠ some .received) }

def loadRocksDbEngine (opened : Bool) : BaseSwap :=
  if opened then { state with baseVersion := version, db := some version } else state

def delayBaseDataReplicate : BaseSwap :=
  { state with retry := some (state.retry.getD version) }

/-- The callback.  The result of `loadRocksDbEngine` is ignored. -/
def receiverEnd (met : SwapMet) : BaseSwap :=
  if !met.transferred then state.delayBaseDataReplicate version
  else if version ≠ state.baseVersion then state.loadRocksDbEngine version met.opened
  else
    let closed := state.syncDestroyRocksDbEngine
    let old := closed.files (.data version)
    if old.isSome && !met.setAside then closed.delayBaseDataReplicate version
    else
      let aside := { closed with
        files := update closed.files (.data version) none
        deleting := old <|> closed.deleting }
      if !met.putInPlace then aside.delayBaseDataReplicate version
      else
        let swapped := { aside with
          files := update (update aside.files (.replicating version) none)
            (.data version) (aside.files (.replicating version)) }
        let loaded := swapped.loadRocksDbEngine version met.opened
        { loaded with deleting := if met.removed then none else loaded.deleting }

/-- How a retry begins. -/
def removeExistingDataDir : BaseSwap :=
  if version = state.baseVersion then
    { state with
      files := update state.files (.replicating version) none
      deleting := none }
  else { state with files := update state.files (.data version) none }

def Installed : Prop :=
  state.db = some version ∧ state.files (.data version) = some .received

def Serves : Prop :=
  state.db = some version ∧ state.files (.data version) = some .previous

def RetryFinds : Prop :=
  ∃ other ∈ state.retry, (state.removeExistingDataDir other).files (.data version) = some .previous

def Kept (state : BaseSwap) (baseVersion version : Version) : Prop :=
  state.Installed version ∨ state.Serves baseVersion ∨ state.RetryFinds baseVersion

theorem removeExistingDataDir_files {state : BaseSwap} {version : Version}
    (hversion : state.baseVersion = version) (other : Version) :
    (state.removeExistingDataDir other).files (.data version) = state.files (.data version) := by
  subst hversion
  unfold removeExistingDataDir
  split_ifs with hother
  · simp
  · simp [Ne.symm hother]

variable {baseVersion version : Version} {retry : Option Version} {met : SwapMet}

theorem kept_iff : ((serving baseVersion version retry).receiverEnd version met).Kept
    baseVersion version ↔ (met.transferred = true → version = baseVersion →
      met.setAside = true → met.putInPlace = true ∧ met.opened = true) := by
  obtain ⟨transferred, setAside, putInPlace, opened, removed⟩ := met
  by_cases hversion : version = baseVersion
  · subst hversion
    cases transferred <;> cases setAside <;> cases putInPlace <;> cases opened <;>
      simp [Kept, Installed, Serves, RetryFinds, removeExistingDataDir_files, receiverEnd, serving,
        delayBaseDataReplicate, syncDestroyRocksDbEngine, loadRocksDbEngine]
  · cases transferred <;> cases opened <;>
      simp [hversion, Kept, Installed, Serves, receiverEnd, serving, delayBaseDataReplicate,
        loadRocksDbEngine]

theorem closedEarly_iff :
    ((serving baseVersion version retry).receiverEnd version met).closedEarly = true ↔
      met.transferred = true ∧ version = baseVersion := by
  obtain ⟨transferred, setAside, putInPlace, opened, removed⟩ := met
  by_cases hversion : version = baseVersion <;> cases transferred <;> cases setAside <;>
    cases putInPlace <;> cases opened <;>
    simp [hversion, receiverEnd, serving, delayBaseDataReplicate, syncDestroyRocksDbEngine,
      loadRocksDbEngine]

/-- A swap keeps the data or a way back to it, and closes no database before its replacement is in
place, if nothing was received or what was received is not of the version that is served. -/
theorem swap_keeps_iff (baseVersion version : Version) (retry : Option Version) (met : SwapMet) :
    ((serving baseVersion version retry).receiverEnd version met).Kept baseVersion version ∧
        ((serving baseVersion version retry).receiverEnd version met).closedEarly = false ↔
      met.transferred = false ∨ version ≠ baseVersion := by
  have hclosed : ((serving baseVersion version retry).receiverEnd version met).closedEarly =
      false ↔ met.transferred = false ∨ version ≠ baseVersion := by
    rw [← Bool.not_eq_true, closedEarly_iff, not_and_or, Bool.not_eq_true]
  rw [kept_iff, hclosed, and_iff_right_iff_imp]
  rintro (hfailed | hother) htransferred hsame
  · exact absurd htransferred (by rw [hfailed]; exact Bool.false_ne_true)
  · exact absurd hsame hother

/-- The received data cannot be moved: the previous data is in the directory that the retry
removes. -/
theorem swap_keeps_fails : ¬((serving [1] [1] none).receiverEnd [1]
    ⟨true, true, false, true, true⟩).Kept [1] [1] := by
  intro hkept
  cases (kept_iff.mp hkept rfl rfl rfl).1

end BaseSwap

end LaserDB
