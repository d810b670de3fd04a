import LaserDB.Cluster.PartitionManager
import LaserDB.Library.WorkerPool

/-!
# The partitions that a server has mounted

`DatabaseManager::updatePartitions` of `server/database_manager.cc`.  Each notification is a task of
the loader pool, whose workers take the locks of the maps and monitors one after another.
-/

namespace LaserDB

open ByteCodec Function Option KeyedSet
open WorkerPool (Pool Action performAll submitted performTasks)
open PartitionManager (Notification notification)
open Function (update_apply update_eq_self update_idem update_of_ne update_self)

inductive FilterPrefix where
  | all
  | partition (partitionId : Nat)
  deriving DecidableEq

structure TableMonitor where
  databaseName : Bytes
  tableName : Bytes
  monitorPartitions : Finset Nat
  baseFilter : Finset FilterPrefix
  started : Bool
  deriving DecidableEq

/-- The sections of `addPartition` and `removePartition`, each under a lock of its own. -/
inductive MonitorChange where
  | insertPartition
  | addFilter
  | start
  | erasePartition
  | delFilter
  deriving DecidableEq

namespace TableMonitor

def new (databaseName tableName : Bytes) : TableMonitor :=
  ⟨databaseName, tableName, ∅, {.all}, false⟩

def change (partitionId : Nat) (monitor : TableMonitor) : MonitorChange → TableMonitor
  | .insertPartition =>
    { monitor with monitorPartitions := insert partitionId monitor.monitorPartitions }
  | .addFilter =>
    { monitor with baseFilter := insert (.partition partitionId) (monitor.baseFilter.erase .all) }
  | .start => { monitor with started := true }
  | .erasePartition =>
    { monitor with monitorPartitions := monitor.monitorPartitions.erase partitionId }
  | .delFilter => { monitor with baseFilter := monitor.baseFilter.erase (.partition partitionId) }

def addPartition : List MonitorChange := [.insertPartition, .addFilter, .start]

def removePartition : List MonitorChange := [.erasePartition, .delFilter]

def changeAll (partitionId : Nat) (monitor : TableMonitor) (changes : List MonitorChange) :
    TableMonitor :=
  changes.foldl (change partitionId) monitor

def Reports (monitor : TableMonitor) (partitionId : Nat) : Prop :=
  monitor.started = true ∧ (.all ∈ monitor.baseFilter ∨ .partition partitionId ∈ monitor.baseFilter)

/-- Between calls the filter is that of the partitions, and before the first one the monitor has
not been started. -/
def Tidy (monitor : TableMonitor) : Prop :=
  if monitor.started then
    ∀ filter, filter ∈ monitor.baseFilter ↔
      ∃ partitionId ∈ monitor.monitorPartitions, filter = .partition partitionId
  else monitor.monitorPartitions = ∅ ∧ monitor.baseFilter = {.all}

variable {monitor : TableMonitor}

theorem tidy_new (databaseName tableName : Bytes) : (new databaseName tableName).Tidy := by
  simp [Tidy, new]

theorem Tidy.addPartition (htidy : monitor.Tidy) (partitionId : Nat) :
    (monitor.changeAll partitionId addPartition).Tidy := by
  show ∀ filter, filter ∈ insert (FilterPrefix.partition partitionId)
      (monitor.baseFilter.erase .all) ↔
    ∃ other ∈ insert partitionId monitor.monitorPartitions, filter = .partition other
  intro filter
  unfold Tidy at htidy
  split at htidy
  · simp only [Finset.mem_insert, Finset.mem_erase, htidy, exists_eq_or_imp]
    refine or_congr_right ⟨fun hfilter => hfilter.2, fun hfilter => ⟨?_, hfilter⟩⟩
    obtain ⟨other, -, rfl⟩ := hfilter
    nofun
  · simp [htidy.1, htidy.2]

theorem Tidy.removePartition (htidy : monitor.Tidy) (partitionId : Nat) :
    (monitor.changeAll partitionId removePartition).Tidy := by
  have hmonitor : monitor.changeAll partitionId TableMonitor.removePartition = { monitor with
        monitorPartitions := monitor.monitorPartitions.erase partitionId
        baseFilter := monitor.baseFilter.erase (.partition partitionId) } := rfl
  rw [hmonitor]
  unfold Tidy at htidy ⊢
  dsimp only
  split at htidy
  · rename_i hstarted
    rw [if_pos hstarted]
    intro filter
    simp only [Finset.mem_erase, htidy]
    constructor
    · rintro ⟨hne, other, hother, rfl⟩
      exact ⟨other, ⟨fun hsame => hne (by rw [hsame]), hother⟩, rfl⟩
    · rintro ⟨other, ⟨hne, hother⟩, rfl⟩
      exact ⟨fun hsame => hne (FilterPrefix.partition.inj hsame), other, hother, rfl⟩
  · rename_i hstarted
    rw [if_neg hstarted, htidy.1, htidy.2]
    exact ⟨Finset.erase_empty _, Finset.erase_eq_of_notMem (by simp)⟩

theorem Tidy.reports_iff (htidy : monitor.Tidy) (partitionId : Nat) :
    monitor.Reports partitionId ↔ partitionId ∈ monitor.monitorPartitions := by
  unfold Tidy at htidy
  unfold Reports
  split at htidy
  · rename_i hstarted
    simp [hstarted, htidy]
  · rename_i hstarted
    simp [hstarted, htidy.1]

/-- What the changes tell about a partition that led before or not, and leads afterwards or not. -/
structure Tells (partitionId : Nat) (changes : List MonitorChange) (before after : Prop) : Prop where
  tidy : ∀ monitor : TableMonitor, monitor.Tidy → (monitor.changeAll partitionId changes).Tidy
  databaseName : ∀ monitor : TableMonitor,
    (monitor.changeAll partitionId changes).databaseName = monitor.databaseName
  tableName : ∀ monitor : TableMonitor,
    (monitor.changeAll partitionId changes).tableName = monitor.tableName
  other : ∀ monitor : TableMonitor, ∀ other ≠ partitionId,
    (other ∈ (monitor.changeAll partitionId changes).monitorPartitions ↔
      other ∈ monitor.monitorPartitions)
  self : ∀ monitor : TableMonitor, (partitionId ∈ monitor.monitorPartitions ↔ before) →
    (partitionId ∈ (monitor.changeAll partitionId changes).monitorPartitions ↔ after)

variable (partitionId : Nat)

theorem tells_addPartition (before : Prop) :
    Tells partitionId addPartition before True where
  tidy := fun _ htidy => htidy.addPartition partitionId
  databaseName := fun _ => rfl
  tableName := fun _ => rfl
  other := fun _ _ hne => by simp [changeAll, addPartition, change, hne]
  self := fun _ _ => by simp [changeAll, addPartition, change]

theorem tells_removePartition (before : Prop) :
    Tells partitionId removePartition before False where
  tidy := fun _ htidy => htidy.removePartition partitionId
  databaseName := fun _ => rfl
  tableName := fun _ => rfl
  other := fun _ _ hne => by simp [changeAll, removePartition, change, hne]
  self := fun _ _ => by simp [changeAll, removePartition, change]

theorem tells_nothing (before : Prop) : Tells partitionId [] before before :=
  ⟨fun _ htidy => htidy, fun _ => rfl, fun _ => rfl, fun _ _ _ => Iff.rfl, fun _ hself => hself⟩

end TableMonitor

section
variable [CityHash64]

def getTableHash (databaseName tableName : Bytes) : UInt64 :=
  CityHash64.withSeed tableName (CityHash64.withSeed databaseName 0)

def Partition.tableHash (partition : Partition) : UInt64 :=
  getTableHash partition.databaseName partition.tableName

def Partition.assignment (partition : Partition) : Bytes × Bytes × Nat × DBRole × Bytes :=
  (partition.databaseName, partition.tableName, partition.partitionId, partition.role, partition.dc)

/-- The handlers that were made, by number, each with its partition, and the two maps.  A handler
outlives its entry in the map while a worker refers to it. -/
structure Mounts where
  objects : List Partition
  partitionHandlers : Int64 → Option Nat
  tableMonitors : UInt64 → Option TableMonitor

namespace Mounts

def empty : Mounts := ⟨[], fun _ => none, fun _ => none⟩

def getOrCreatePartitionHandler (mounts : Mounts) (partition : Partition) : Nat × Mounts :=
  match mounts.partitionHandlers partition.getPartitionHash with
  | some handler => (handler, mounts)
  | none =>
    (mounts.objects.length, { mounts with
        objects := mounts.objects ++ [partition]
        partitionHandlers := update mounts.partitionHandlers
          partition.getPartitionHash (some mounts.objects.length) })

def getOrCreateTableMonitor (mounts : Mounts) (partition : Partition) : Mounts :=
  match mounts.tableMonitors partition.tableHash with
  | some _ => mounts
  | none =>
    { mounts with
      tableMonitors := update mounts.tableMonitors partition.tableHash
        (some (TableMonitor.new partition.databaseName partition.tableName)) }

def changeMonitor (mounts : Mounts) (partition : Partition) (change : MonitorChange) : Mounts :=
  { mounts with
    tableMonitors := update mounts.tableMonitors partition.tableHash
      ((mounts.tableMonitors partition.tableHash).map fun monitor =>
        monitor.change partition.partitionId change) }

def changeMonitorAll (mounts : Mounts) (partition : Partition) (changes : List MonitorChange) :
    Mounts :=
  changes.foldl (fun mounts change => mounts.changeMonitor partition change) mounts

def setPartition (mounts : Mounts) (handler : Nat) (partition : Partition) : Mounts :=
  { mounts with objects := mounts.objects.set handler partition }

def removePartitionHandler (mounts : Mounts) (partition : Partition) : Mounts :=
  { mounts with
    partitionHandlers := update mounts.partitionHandlers partition.getPartitionHash none }

def roleChanges (old new : DBRole) : List MonitorChange :=
  if old ≠ new then
    if new = .LEADER then TableMonitor.addPartition else TableMonitor.removePartition
  else if new = .LEADER then TableMonitor.addPartition else []

def updateRole (mounts : Mounts) (handler : Nat) (partition : Partition) : Mounts :=
  match mounts.objects[handler]? with
  | none => mounts
  | some old =>
    let mounts := mounts.changeMonitorAll partition (roleChanges old.role partition.role)
    if old.role ≠ partition.role then mounts.setPartition handler partition else mounts

def updateDc (mounts : Mounts) (handler : Nat) (partition : Partition) : Mounts :=
  match mounts.objects[handler]? with
  | none => mounts
  | some old => if old.dc ≠ partition.dc then mounts.setPartition handler partition else mounts

def mount (mounts : Mounts) (partition : Partition) : Mounts :=
  let result := mounts.getOrCreatePartitionHandler partition
  let mounts := result.2.getOrCreateTableMonitor partition
  (mounts.updateRole result.1 partition).updateDc result.1 partition

def unmount (mounts : Mounts) (partition : Partition) : Mounts :=
  let mounts := mounts.getOrCreateTableMonitor partition
  (mounts.changeMonitorAll partition TableMonitor.removePartition).removePartitionHandler partition

def updatePartitions (mounts : Mounts) (told : Notification) : Mounts :=
  told.unmount.items.foldl unmount (told.mount.items.foldl mount mounts)

def held (mounts : Mounts) (hash : Int64) : Option Partition :=
  (mounts.partitionHandlers hash).bind fun handler => mounts.objects[handler]?

end Mounts

structure DatabaseManager where
  mounts : Mounts
  metaInfoInited : Bool

/-- What a worker meets at the semaphore of the RocksDB configuration, which is posted after the
default options were set. -/
structure ConfigMet where
  posted : Bool
  defaultOptions : Bool
  set_of_posted : posted = true → defaultOptions = true

/-- The sections of `updatePartitions` between which other workers may run. -/
inductive UpdateInstruction where
  | updatePartitions (told : Notification)
  | awaitOptions (told : Notification)
  | mountAll (told : Notification)
  | mount (partition : Partition)
  | getOrCreateTableMonitor (partition : Partition) (handler : Nat)
  | compareRole (partition : Partition) (handler : Nat)
  | changeMonitor (partition : Partition) (change : MonitorChange)
  | setPartition (partition : Partition) (handler : Nat)
  | compareDc (partition : Partition) (handler : Nat)
  | unmount (partition : Partition)
  | removePartitionHandler (partition : Partition)

namespace DatabaseManager

def start : DatabaseManager := ⟨Mounts.empty, false⟩

def lockedSection (manager : DatabaseManager) (met : ConfigMet) :
    UpdateInstruction → DatabaseManager × List UpdateInstruction
  | .updatePartitions told =>
    if manager.metaInfoInited then (manager, [.mountAll told])
    else ({ manager with metaInfoInited := true }, [.awaitOptions told])
  | .awaitOptions told =>
    if !met.posted then (manager, [.awaitOptions told])
    else if !met.defaultOptions then (manager, [])
    else (manager, [.mountAll told])
  | .mountAll told =>
    (manager, told.mount.items.map .mount ++ told.unmount.items.map .unmount)
  | .mount partition =>
    let result := manager.mounts.getOrCreatePartitionHandler partition
    ({ manager with mounts := result.2 }, [.getOrCreateTableMonitor partition result.1])
  | .getOrCreateTableMonitor partition handler =>
    ({ manager with mounts := manager.mounts.getOrCreateTableMonitor partition },
      [.compareRole partition handler])
  | .compareRole partition handler =>
    match manager.mounts.objects[handler]? with
    | none => (manager, [.compareDc partition handler])
    | some old =>
      (manager, (Mounts.roleChanges old.role partition.role).map (.changeMonitor partition) ++
        (if old.role ≠ partition.role then [.setPartition partition handler] else []) ++
        [.compareDc partition handler])
  | .changeMonitor partition change =>
    ({ manager with mounts := manager.mounts.changeMonitor partition change }, [])
  | .setPartition partition handler =>
    ({ manager with mounts := manager.mounts.setPartition handler partition }, [])
  | .compareDc partition handler =>
    match manager.mounts.objects[handler]? with
    | none => (manager, [])
    | some old =>
      (manager, if old.dc ≠ partition.dc then [.setPartition partition handler] else [])
  | .unmount partition =>
    ({ manager with mounts := manager.mounts.getOrCreateTableMonitor partition },
      TableMonitor.removePartition.map (.changeMonitor partition) ++
        [.removePartitionHandler partition])
  | .removePartitionHandler partition =>
    ({ manager with mounts := manager.mounts.removePartitionHandler partition }, [])

def loader : WorkerPool.Machine DatabaseManager ConfigMet Notification UpdateInstruction where
  start told := [.updatePartitions told]
  step := lockedSection

/-- What a section and all that follows from it do without interruption. -/
def perform : UpdateInstruction → Mounts → Mounts
  | .updatePartitions told, mounts => mounts.updatePartitions told
  | .awaitOptions told, mounts => mounts.updatePartitions told
  | .mountAll told, mounts => mounts.updatePartitions told
  | .mount partition, mounts => mounts.mount partition
  | .getOrCreateTableMonitor partition handler, mounts =>
    ((mounts.getOrCreateTableMonitor partition).updateRole handler partition).updateDc handler
      partition
  | .compareRole partition handler, mounts =>
    (mounts.updateRole handler partition).updateDc handler partition
  | .changeMonitor partition change, mounts => mounts.changeMonitor partition change
  | .setPartition partition handler, mounts => mounts.setPartition handler partition
  | .compareDc partition handler, mounts => mounts.updateDc handler partition
  | .unmount partition, mounts => mounts.unmount partition
  | .removePartitionHandler partition, mounts => mounts.removePartitionHandler partition

theorem performAll_changeMonitor (partition : Partition) (changes : List MonitorChange)
    (mounts : Mounts) :
    performAll perform (changes.map (.changeMonitor partition)) mounts =
      mounts.changeMonitorAll partition changes := by
  rw [performAll, List.foldl_map]
  rfl

theorem loader_meaning : WorkerPool.Meaning loader DatabaseManager.mounts perform := by
  intro manager met instruction
  cases instruction <;> simp only [loader, lockedSection]
  case updatePartitions told =>
    split <;> rfl
  case awaitOptions told =>
    cases hposted : met.posted with
    | false => rfl
    | true =>
      rw [met.set_of_posted hposted]
      rfl
  case mountAll told =>
    rw [performAll, List.foldl_append, List.foldl_map, List.foldl_map]
    rfl
  case mount | getOrCreateTableMonitor => rfl
  case compareRole partition handler =>
    have hperform : perform (.compareRole partition handler) manager.mounts =
        (manager.mounts.updateRole handler partition).updateDc handler partition := rfl
    rw [hperform, Mounts.updateRole]
    cases manager.mounts.objects[handler]? with
    | none => rfl
    | some old =>
      dsimp only
      rw [WorkerPool.performAll_append, WorkerPool.performAll_append, performAll_changeMonitor]
      split <;> rfl
  case changeMonitor | setPartition => rfl
  case compareDc partition handler =>
    have hperform : perform (.compareDc partition handler) manager.mounts =
        manager.mounts.updateDc handler partition := rfl
    rw [hperform, Mounts.updateDc]
    cases manager.mounts.objects[handler]? with
    | none => rfl
    | some old =>
      dsimp only
      split <;> rfl
  case unmount partition =>
    rw [WorkerPool.performAll_append, performAll_changeMonitor]
    rfl
  case removePartitionHandler partition => rfl

end DatabaseManager

namespace Mounts

structure Sound (mounts : Mounts) : Prop where
  bound : ∀ hash handler, mounts.partitionHandlers hash = some handler →
    handler < mounts.objects.length
  apart : ∀ hash other handler, mounts.partitionHandlers hash = some handler →
    mounts.partitionHandlers other = some handler → hash = other

variable {mounts : Mounts} {partition : Partition}

theorem getOrCreateTableMonitor_eq : mounts.getOrCreateTableMonitor partition = { mounts with
      tableMonitors := update mounts.tableMonitors partition.tableHash
        (some ((mounts.tableMonitors partition.tableHash).getD
          (TableMonitor.new partition.databaseName partition.tableName))) } := by
  unfold getOrCreateTableMonitor
  split
  · rename_i monitor hmonitor
    rw [hmonitor, getD_some, ← hmonitor, update_eq_self]
  · rename_i hmonitor
    rw [hmonitor]
    rfl

theorem changeMonitorAll_eq (changes : List MonitorChange) :
    mounts.changeMonitorAll partition changes = { mounts with
        tableMonitors := update mounts.tableMonitors partition.tableHash
          ((mounts.tableMonitors partition.tableHash).map fun monitor =>
            monitor.changeAll partition.partitionId changes) } := by
  induction changes generalizing mounts with
  | nil =>
    have hsame : (fun monitor : TableMonitor =>
        monitor.changeAll partition.partitionId []) = id := rfl
    rw [hsame, map_id, id, update_eq_self]
    rfl
  | cons change changes ih =>
    have hstep := @ih (mounts.changeMonitor partition change)
    simp only [changeMonitor, update_self, update_idem, map_map] at hstep
    exact hstep

omit [CityHash64] in
theorem Sound.withMonitors (hsound : mounts.Sound) (monitors : UInt64 → Option TableMonitor) :
    Sound { mounts with tableMonitors := monitors } :=
  ⟨hsound.bound, hsound.apart⟩

theorem Sound.removePartitionHandler (hsound : mounts.Sound) (partition : Partition) :
    (mounts.removePartitionHandler partition).Sound := by
  have hkept {hash : Int64} {handler : Nat}
      (hentry : (mounts.removePartitionHandler partition).partitionHandlers hash = some handler) :
      mounts.partitionHandlers hash = some handler := by
    simp only [Mounts.removePartitionHandler, update_apply, ite_none_left_eq_some] at hentry
    exact hentry.2
  constructor
  · intro hash handler hentry
    exact hsound.bound hash handler (hkept hentry)
  · intro hash other handler hentry hother
    exact hsound.apart hash other handler (hkept hentry) (hkept hother)

theorem held_removePartitionHandler :
    (mounts.removePartitionHandler partition).held =
      update mounts.held partition.getPartitionHash none := by
  funext hash
  simp only [held, removePartitionHandler, update_apply]
  split <;> rfl

omit [CityHash64] in
theorem held_setPartition (hsound : mounts.Sound) {hash : Int64} {handler : Nat}
    (hhandler : mounts.partitionHandlers hash = some handler) :
    (mounts.setPartition handler partition).held = update mounts.held hash (some partition) := by
  funext other
  simp only [held, setPartition]
  by_cases hother : other = hash
  · subst hother
    rw [update_self, hhandler]
    exact List.getElem?_set_self (hsound.bound _ _ hhandler)
  · rw [update_of_ne hother]
    refine bind_congr fun object hobject => ?_
    rw [List.getElem?_set_ne]
    rintro rfl
    exact hother (hsound.apart _ _ _ hobject hhandler)

omit [CityHash64] in
theorem sound_made (hsound : mounts.Sound) (hash : Int64) (partition : Partition) :
    Sound ⟨mounts.objects ++ [partition],
      update mounts.partitionHandlers hash (some mounts.objects.length),
      mounts.tableMonitors⟩ := by
  have hentries {place : Int64} {handler : Nat} (hentry : update mounts.partitionHandlers
      hash (some mounts.objects.length) place = some handler) :
      place = hash ∧ handler = mounts.objects.length ∨
        mounts.partitionHandlers place = some handler ∧ handler < mounts.objects.length := by
    by_cases hplace : place = hash
    · rw [hplace, update_self, some.injEq] at hentry
      exact .inl ⟨hplace, hentry.symm⟩
    · rw [update_of_ne hplace] at hentry
      exact .inr ⟨hentry, hsound.bound place handler hentry⟩
  constructor
  · intro place handler hentry
    rw [List.length_append, List.length_singleton]
    rcases hentries hentry with ⟨-, rfl⟩ | ⟨-, hlt⟩ <;> omega
  · intro place other handler hentry hother
    rcases hentries hentry with ⟨rfl, rfl⟩ | ⟨hold, hlt⟩ <;>
      rcases hentries hother with ⟨rfl, hlast⟩ | ⟨hold', hlt'⟩
    · rfl
    · exact absurd hlt' (Nat.lt_irrefl _)
    · exact absurd hlast hlt.ne
    · exact hsound.apart place other handler hold hold'

theorem getOrCreatePartitionHandler_spec (hsound : mounts.Sound) (partition : Partition) :
    (mounts.getOrCreatePartitionHandler partition).2.Sound ∧
    (mounts.getOrCreatePartitionHandler partition).2.partitionHandlers
        partition.getPartitionHash =
      some (mounts.getOrCreatePartitionHandler partition).1 ∧
    (mounts.getOrCreatePartitionHandler partition).2.held =
      update mounts.held partition.getPartitionHash
        (some ((mounts.held partition.getPartitionHash).getD partition)) ∧
    (mounts.getOrCreatePartitionHandler partition).2.tableMonitors = mounts.tableMonitors := by
  unfold getOrCreatePartitionHandler
  cases hhandler : mounts.partitionHandlers partition.getPartitionHash with
  | some handler =>
    refine ⟨hsound, hhandler, ?_, rfl⟩
    have hobject : mounts.held partition.getPartitionHash =
        some (mounts.objects.get ⟨handler, hsound.bound _ _ hhandler⟩) := by
      rw [held, hhandler]
      exact List.getElem?_eq_getElem _
    rw [hobject, getD_some, ← hobject, update_eq_self]
  | none =>
    have hnone : mounts.held partition.getPartitionHash = none := by rw [held, hhandler]; rfl
    refine ⟨sound_made hsound _ _, update_self .., ?_, rfl⟩
    rw [hnone]
    funext hash
    by_cases hhash : hash = partition.getPartitionHash
    · subst hhash
      simp [held]
    · simp only [held, update_of_ne hhash]
      refine bind_congr fun handler hentry => ?_
      exact List.getElem?_append_left (hsound.bound hash handler hentry)

def mountedOver (old partition : Partition) : Partition :=
  if old.role ≠ partition.role ∨ old.dc ≠ partition.dc then partition else old

theorem updateHandler_spec (hsound : mounts.Sound) {handler : Nat} {hash : Int64} {old : Partition}
    (hhandler : mounts.partitionHandlers hash = some handler) (hold : mounts.held hash = some old) :
    ((mounts.updateRole handler partition).updateDc handler partition).Sound ∧
    ((mounts.updateRole handler partition).updateDc handler partition).held =
      update mounts.held hash (some (mountedOver old partition)) ∧
    ((mounts.updateRole handler partition).updateDc handler partition).tableMonitors =
      (mounts.changeMonitorAll partition (roleChanges old.role partition.role)).tableMonitors := by
  have hobject : mounts.objects[handler]? = some old := by
    rwa [held, hhandler] at hold
  have hlength : handler < mounts.objects.length := hsound.bound hash handler hhandler
  have hset (monitors : UInt64 → Option TableMonitor) :
      (setPartition { mounts with tableMonitors := monitors } handler partition).Sound ∧
      (setPartition { mounts with tableMonitors := monitors } handler partition).held =
        update mounts.held hash (some partition) := by
    refine ⟨⟨?_, hsound.apart⟩, held_setPartition (hsound.withMonitors monitors) hhandler⟩
    simpa [setPartition] using hsound.bound
  rw [updateRole, hobject]
  dsimp only
  rw [changeMonitorAll_eq]
  by_cases hrole : old.role ≠ partition.role
  · have hself (monitors : UInt64 → Option TableMonitor) : (setPartition { mounts with
        tableMonitors := monitors } handler partition).objects[handler]? = some partition :=
      List.getElem?_set_self hlength
    rw [if_pos hrole, updateDc, hself]
    dsimp only
    rw [if_neg (fun hdc => hdc rfl), mountedOver, if_pos (.inl hrole)]
    exact ⟨(hset _).1, (hset _).2, rfl⟩
  · rw [if_neg hrole, updateDc, hobject, mountedOver]
    dsimp only
    by_cases hdc : old.dc ≠ partition.dc
    · rw [if_pos hdc, if_pos (.inr hdc)]
      exact ⟨(hset _).1, (hset _).2, rfl⟩
    · rw [if_neg hdc, if_neg (not_or.mpr ⟨hrole, hdc⟩), ← hold, update_eq_self]
      exact ⟨hsound.withMonitors _, rfl, rfl⟩

theorem mount_spec (hsound : mounts.Sound) (partition : Partition) :
    let old := (mounts.held partition.getPartitionHash).getD partition
    (mounts.mount partition).Sound ∧
    (mounts.mount partition).held = update mounts.held partition.getPartitionHash
      (some (mountedOver old partition)) ∧
    (mounts.mount partition).tableMonitors = update mounts.tableMonitors partition.tableHash
        (some (((mounts.tableMonitors partition.tableHash).getD
          (TableMonitor.new partition.databaseName partition.tableName)).changeAll
            partition.partitionId (roleChanges old.role partition.role))) := by
  obtain ⟨hmade, hhandler, hheld, hmonitors⟩ := getOrCreatePartitionHandler_spec hsound partition
  have hold : (mounts.getOrCreatePartitionHandler partition).2.held partition.getPartitionHash =
      some ((mounts.held partition.getPartitionHash).getD partition) := by
    rw [hheld, update_self]
  have hspec (monitors : UInt64 → Option TableMonitor) :=
    @updateHandler_spec _ _ partition (hmade.withMonitors monitors) _ _ _ hhandler hold
  rw [mount, getOrCreateTableMonitor_eq]
  refine ⟨(hspec _).1, (hspec _).2.1.trans ?_, (hspec _).2.2.trans ?_⟩
  · exact (congrArg (update · _ _) hheld).trans (update_idem ..)
  · rw [changeMonitorAll_eq, hmonitors]
    simp only [update_self, update_idem, map_some]

theorem unmount_spec (hsound : mounts.Sound) (partition : Partition) :
    (mounts.unmount partition).Sound ∧
    (mounts.unmount partition).held = update mounts.held partition.getPartitionHash none ∧
    (mounts.unmount partition).tableMonitors = update mounts.tableMonitors partition.tableHash
        (some (((mounts.tableMonitors partition.tableHash).getD
          (TableMonitor.new partition.databaseName partition.tableName)).changeAll
            partition.partitionId TableMonitor.removePartition)) := by
  rw [unmount, getOrCreateTableMonitor_eq, changeMonitorAll_eq]
  refine ⟨(hsound.withMonitors _).removePartitionHandler partition, held_removePartitionHandler, ?_⟩
  simp only [removePartitionHandler, update_self, update_idem, map_some]

end Mounts

structure Unmixed (known : Partition → Prop) : Prop where
  name : ∀ left right, known left → known right →
    left.getPartitionHash = right.getPartitionHash → left.databaseName = right.databaseName ∧
      left.tableName = right.tableName ∧ left.partitionId = right.partitionId
  table : ∀ left right, known left → known right → left.tableHash = right.tableHash →
    left.databaseName = right.databaseName ∧ left.tableName = right.tableName

namespace Mounts

def Leads (mounts : Mounts) (databaseName tableName : Bytes) (partitionId : Nat) : Prop :=
  ∃ hash partition, mounts.held hash = some partition ∧ partition.role = .LEADER ∧
    partition.databaseName = databaseName ∧ partition.tableName = tableName ∧
    partition.partitionId = partitionId

def Keyed (known : Partition → Prop) (mounts : Mounts) : Prop :=
  ∀ hash partition, mounts.held hash = some partition →
    known partition ∧ partition.getPartitionHash = hash

structure Coherent (known : Partition → Prop) (mounts : Mounts) : Prop where
  sound : mounts.Sound
  keyed : mounts.Keyed known
  made : ∀ key monitor, mounts.tableMonitors key = some monitor → ∃ partition, known partition ∧
    partition.tableHash = key ∧ partition.databaseName = monitor.databaseName ∧
    partition.tableName = monitor.tableName
  tidy : ∀ key monitor, mounts.tableMonitors key = some monitor → monitor.Tidy
  watches : ∀ key monitor, mounts.tableMonitors key = some monitor → ∀ partitionId,
    partitionId ∈ monitor.monitorPartitions ↔
      mounts.Leads monitor.databaseName monitor.tableName partitionId
  monitored : ∀ hash partition, mounts.held hash = some partition → partition.role = .LEADER →
    mounts.tableMonitors partition.tableHash ≠ none

theorem coherent_empty (known : Partition → Prop) : Coherent known empty where
  sound := ⟨nofun, nofun⟩
  keyed := nofun
  made := nofun
  tidy := nofun
  watches := nofun
  monitored := nofun

variable {known : Partition → Prop} {mounts : Mounts} {partition : Partition}

variable {other : Partition}

variable (hdatabase : other.databaseName = partition.databaseName)
include hdatabase

theorem hash_of_names (htable : other.tableName = partition.tableName)
    (hid : other.partitionId = partition.partitionId) :
    other.getPartitionHash = partition.getPartitionHash := by
  rw [Partition.getPartitionHash, Partition.getPartitionHash, hdatabase, htable, hid]

theorem tableHash_of_names
    (htable : other.tableName = partition.tableName) : other.tableHash = partition.tableHash := by
  rw [Partition.tableHash, Partition.tableHash, hdatabase, htable]

omit hdatabase

theorem Keyed.leads_iff (hkeyed : mounts.Keyed known) (hunmixed : Unmixed known)
    (hknown : known partition) :
    mounts.Leads partition.databaseName partition.tableName partition.partitionId ↔
      ∃ other, mounts.held partition.getPartitionHash = some other ∧ other.role = .LEADER := by
  constructor
  · rintro ⟨hash, other, hother, hrole, hdatabase, htable, hid⟩
    rw [← (hkeyed hash other hother).2, hash_of_names hdatabase htable hid] at hother
    exact ⟨other, hother, hrole⟩
  · rintro ⟨other, hother, hrole⟩
    obtain ⟨hother', hhash⟩ := hkeyed _ other hother
    exact ⟨_, other, hother, hrole, hunmixed.name other partition hother' hknown hhash⟩

variable {partitionId : Nat}

theorem Keyed.leads_congr {next : Mounts} (hkeyed : mounts.Keyed known) (hnext : next.Keyed known)
    (hunmixed : Unmixed known) (hknown : known partition)
    (hheld : ∀ hash ≠ partition.getPartitionHash, next.held hash = mounts.held hash)
    {databaseName tableName : Bytes}
    (hother : ¬(databaseName = partition.databaseName ∧ tableName = partition.tableName ∧
      partitionId = partition.partitionId)) :
    next.Leads databaseName tableName partitionId ↔
      mounts.Leads databaseName tableName partitionId := by
  have hleads {left right : Mounts} (hleft : left.Keyed known)
      (hsame : ∀ hash ≠ partition.getPartitionHash, right.held hash = left.held hash) :
      left.Leads databaseName tableName partitionId →
        right.Leads databaseName tableName partitionId := by
    rintro ⟨hash, other, hentry, hrole, rfl, rfl, rfl⟩
    obtain ⟨hknown', rfl⟩ := hleft hash other hentry
    refine ⟨_, other, (hsame _ fun hhash => hother ?_).trans hentry, hrole, rfl, rfl, rfl⟩
    exact hunmixed.name other partition hknown' hknown hhash
  exact ⟨hleads hnext fun hash hne => (hheld hash hne).symm, hleads hkeyed hheld⟩

theorem Coherent.tableMonitor (hcoherent : mounts.Coherent known) (hunmixed : Unmixed known)
    (hknown : known partition)
    (hmonitor : monitor = (mounts.tableMonitors partition.tableHash).getD
      (TableMonitor.new partition.databaseName partition.tableName)) :
    monitor.databaseName = partition.databaseName ∧ monitor.tableName = partition.tableName ∧
      monitor.Tidy ∧ ∀ partitionId, partitionId ∈ monitor.monitorPartitions ↔
        mounts.Leads partition.databaseName partition.tableName partitionId := by
  cases hfound : mounts.tableMonitors partition.tableHash with
  | none =>
    rw [hfound, getD_none] at hmonitor
    subst hmonitor
    refine ⟨rfl, rfl, TableMonitor.tidy_new _ _, fun partitionId => ?_⟩
    refine iff_of_false (Finset.notMem_empty _) ?_
    rintro ⟨hash, other, hother, hrole, hdatabase, htable, -⟩
    refine hcoherent.monitored hash other hother hrole ?_
    rw [tableHash_of_names hdatabase htable, hfound]
  | some found =>
    rw [hfound, getD_some] at hmonitor
    subst hmonitor
    obtain ⟨other, hother, hkey, hdatabase, htable⟩ := hcoherent.made _ monitor hfound
    obtain ⟨hdatabase', htable'⟩ := hunmixed.table other partition hother hknown hkey
    rw [← hdatabase', ← htable', hdatabase, htable]
    exact ⟨rfl, rfl, hcoherent.tidy _ monitor hfound, hcoherent.watches _ monitor hfound⟩

omit [CityHash64] in
theorem role_mountedOver (old partition : Partition) :
    (mountedOver old partition).role = partition.role := by
  unfold mountedOver
  split
  · rfl
  · rename_i hsame
    push Not at hsame
    exact hsame.1

omit [CityHash64] in
theorem tells_roleChanges (held : Option Partition) (partition : Partition) :
    TableMonitor.Tells partition.partitionId
      (roleChanges (held.getD partition).role partition.role)
      (∃ other, held = some other ∧ other.role = .LEADER) (partition.role = .LEADER) := by
  unfold roleChanges
  cases hrole : partition.role with
  | LEADER =>
    simp only [if_true, ite_self, eq_self]
    exact TableMonitor.tells_addPartition _ _
  | FOLLOWER =>
    simp only [reduceCtorEq, if_false]
    split
    · exact TableMonitor.tells_removePartition _ _
    · rename_i hsame
      have hbefore : (∃ other, held = some other ∧ other.role = .LEADER) ↔ False := by
        refine iff_false_intro ?_
        rintro ⟨other, rfl, hleads⟩
        rw [getD_some, hleads] at hsame
        exact hsame nofun
      rw [hbefore]
      exact TableMonitor.tells_nothing _ _

variable (hunmixed : Unmixed known) (hcoherent : mounts.Coherent known)
include hunmixed hcoherent

variable (hknown : known partition)
include hknown

theorem Coherent.change {next : Mounts} {place : Option Partition} {changes : List MonitorChange}
    (hsound : next.Sound) (hheld : next.held = update mounts.held partition.getPartitionHash place)
    (hmonitors : next.tableMonitors = update mounts.tableMonitors partition.tableHash
      (some (((mounts.tableMonitors partition.tableHash).getD
        (TableMonitor.new partition.databaseName partition.tableName)).changeAll
          partition.partitionId changes))) (hplace : ∀ other, place = some other → known other ∧
      other.getPartitionHash = partition.getPartitionHash)
    (htells : TableMonitor.Tells partition.partitionId changes
      (∃ other, mounts.held partition.getPartitionHash = some other ∧ other.role = .LEADER)
      (∃ other, place = some other ∧ other.role = .LEADER)) : next.Coherent known := by
  obtain ⟨hdatabase, htable, htidy, hwatches⟩ := hcoherent.tableMonitor hunmixed hknown rfl
  generalize ((mounts.tableMonitors partition.tableHash).getD
    (TableMonitor.new partition.databaseName partition.tableName)) = base
    at hmonitors hdatabase htable htidy hwatches
  have hapart : ∀ hash ≠ partition.getPartitionHash, next.held hash = mounts.held hash := by
    intro hash hne
    rw [hheld, update_of_ne hne]
  have hself : next.held partition.getPartitionHash = place := by rw [hheld, update_self]
  have hkeyed : next.Keyed known := by
    intro hash other hother
    by_cases hhash : hash = partition.getPartitionHash
    · rw [hhash, hself] at hother
      rw [hhash]
      exact hplace other hother
    · rw [hapart hash hhash] at hother
      exact hcoherent.keyed hash other hother
  have hmonitor {key : UInt64} {monitor : TableMonitor}
      (hmonitor : next.tableMonitors key = some monitor) :
      key = partition.tableHash ∧ monitor = base.changeAll partition.partitionId changes ∨
        key ≠ partition.tableHash ∧ mounts.tableMonitors key = some monitor := by
    by_cases hkey : key = partition.tableHash
    · rw [hmonitors, hkey, update_self, some.injEq] at hmonitor
      exact .inl ⟨hkey, hmonitor.symm⟩
    · rw [hmonitors, update_of_ne hkey] at hmonitor
      exact .inr ⟨hkey, hmonitor⟩
  refine ⟨hsound, hkeyed, ?_, ?_, ?_, ?_⟩
  · intro key monitor hfound
    rcases hmonitor hfound with ⟨rfl, rfl⟩ | ⟨-, hold⟩
    · refine ⟨partition, hknown, rfl, ?_, ?_⟩
      · rw [htells.databaseName, hdatabase]
      · rw [htells.tableName, htable]
    · exact hcoherent.made key monitor hold
  · intro key monitor hfound
    rcases hmonitor hfound with ⟨rfl, rfl⟩ | ⟨-, hold⟩
    · exact htells.tidy base htidy
    · exact hcoherent.tidy key monitor hold
  · intro key monitor hfound partitionId
    rcases hmonitor hfound with ⟨rfl, rfl⟩ | ⟨hne, hold⟩
    · rw [htells.databaseName, htells.tableName, hdatabase, htable]
      by_cases hid : partitionId = partition.partitionId
      · subst hid
        rw [hkeyed.leads_iff hunmixed hknown, hself]
        refine htells.self base ?_
        rw [hwatches, hcoherent.keyed.leads_iff hunmixed hknown]
      · rw [htells.other base partitionId hid, hwatches]
        exact (hcoherent.keyed.leads_congr hkeyed hunmixed hknown hapart fun hsame =>
          hid hsame.2.2).symm
    · rw [hcoherent.watches key monitor hold]
      refine (hcoherent.keyed.leads_congr hkeyed hunmixed hknown hapart fun hsame => hne ?_).symm
      obtain ⟨other, -, hkey, hdatabase', htable'⟩ := hcoherent.made key monitor hold
      rw [← hkey]
      exact tableHash_of_names (hdatabase'.trans hsame.1) (htable'.trans hsame.2.1)
  · intro hash other hother hrole
    rw [hmonitors]
    by_cases hkey : other.tableHash = partition.tableHash
    · rw [hkey, update_self]
      exact some_ne_none _
    · rw [update_of_ne hkey]
      refine hcoherent.monitored hash other ((hapart hash ?_).symm.trans hother) hrole
      rintro rfl
      obtain ⟨hknown', hhash⟩ := hkeyed _ other hother
      obtain ⟨hdatabase', htable', -⟩ := hunmixed.name other partition hknown' hknown hhash
      exact hkey (tableHash_of_names hdatabase' htable')

theorem Coherent.mount :
    (mounts.mount partition).Coherent known := by
  obtain ⟨hsound, hheld, hmonitors⟩ := mount_spec hcoherent.sound partition
  refine hcoherent.change hunmixed hknown hsound hheld hmonitors ?_ ?_
  · rintro other ⟨⟩
    unfold mountedOver
    split
    · exact ⟨hknown, rfl⟩
    · cases hold : mounts.held partition.getPartitionHash with
      | none => exact ⟨hknown, rfl⟩
      | some old => exact hcoherent.keyed _ old hold
  · simp only [some.injEq, exists_eq_left', role_mountedOver]
    exact tells_roleChanges _ partition

theorem Coherent.unmount :
    (mounts.unmount partition).Coherent known := by
  obtain ⟨hsound, hheld, hmonitors⟩ := unmount_spec hcoherent.sound partition
  refine hcoherent.change hunmixed hknown hsound hheld hmonitors nofun ?_
  have hnone : (∃ other : Partition, none = some other ∧ other.role = .LEADER) ↔ False := by simp
  rw [hnone]
  exact TableMonitor.tells_removePartition _ _

omit hknown

variable {partitions : PartitionPtrSet}

theorem mountAll_spec (hknown : ∀ partition ∈ partitions.items, known partition) :
    (partitions.items.foldl mount mounts).Coherent known ∧ ∀ hash,
      (partitions.items.foldl mount mounts).held hash =
        (partitions.get hash).elim (mounts.held hash) fun partition =>
          some (mountedOver ((mounts.held hash).getD partition) partition) := by
  refine @KeyedSet.read_foldl _ _ _ _ _ _ mount held
    (fun partition old => some (mountedOver (old.getD partition) partition)) _ partitions
    (fun mounts hcoherent partition hmem => ?_) mounts hcoherent
  exact ⟨hcoherent.mount hunmixed (hknown partition hmem),
    (mount_spec hcoherent.sound partition).2.1⟩

theorem unmountAll_spec (hknown : ∀ partition ∈ partitions.items, known partition) :
    (partitions.items.foldl unmount mounts).Coherent known ∧ ∀ hash,
      (partitions.items.foldl unmount mounts).held hash =
        (partitions.get hash).elim (mounts.held hash) fun _ => none := by
  refine @KeyedSet.read_foldl _ _ _ _ _ _ unmount held (fun _ _ => none) _ partitions
    (fun mounts hcoherent partition hmem => ?_) mounts hcoherent
  exact ⟨hcoherent.unmount hunmixed (hknown partition hmem),
    (unmount_spec hcoherent.sound partition).2.1⟩

def Holds (mounts : Mounts) (partitions : PartitionPtrSet) : Prop :=
  ∀ hash, (mounts.held hash).map Partition.assignment =
    (partitions.get hash).map Partition.assignment

variable {old new : PartitionPtrSet}
omit hunmixed hcoherent

theorem mem_of_mount (hmount : partition ∈ (notification old new).mount.items) :
    partition ∈ new.items := by
  rw [mem_iff_get, PartitionManager.get_mount] at hmount
  refine mem_iff_get.mpr ?_
  cases hnew : new.get partition.getPartitionHash with
  | none => rw [hnew] at hmount; cases hmount
  | some found =>
    rw [hnew] at hmount
    cases hold : old.get partition.getPartitionHash with
    | none => rwa [hold] at hmount
    | some before =>
      rw [hold] at hmount
      exact (ite_none_right_eq_some.mp hmount).2

theorem mem_of_unmount (hunmount : partition ∈ (notification old new).unmount.items) :
    partition ∈ old.items :=
  (List.mem_filter.mp hunmount).1

include hunmixed hcoherent in
theorem Holds.updatePartitions (hold : ∀ partition ∈ old.items, known partition)
    (hnew : ∀ partition ∈ new.items, known partition) (hholds : mounts.Holds old) :
    (mounts.updatePartitions (notification old new)).Coherent known ∧
      (mounts.updatePartitions (notification old new)).Holds new := by
  have hmount : ∀ partition ∈ (notification old new).mount.items, known partition :=
    fun partition hpartition => hnew partition (mem_of_mount hpartition)
  have hunmount : ∀ partition ∈ (notification old new).unmount.items, known partition :=
    fun partition hpartition => hold partition (mem_of_unmount hpartition)
  obtain ⟨hmounted, hheld⟩ := mountAll_spec hunmixed hcoherent hmount
  obtain ⟨hunmounted, hheld'⟩ := unmountAll_spec hunmixed hmounted hunmount
  refine ⟨hunmounted, fun hash => ?_⟩
  rw [Mounts.updatePartitions, hheld', hheld, PartitionManager.get_mount,
    PartitionManager.get_unmount]
  have hhash := hholds hash
  cases hright : new.get hash with
  | none =>
    cases hleft : old.get hash with
    | none => simpa [hleft] using hhash
    | some left => simp
  | some right =>
    cases hleft : old.get hash with
    | none =>
      rw [hleft, map_none, map_eq_none_iff] at hhash
      simp [hhash, mountedOver]
    | some left =>
      rw [hleft, map_some, map_eq_some_iff] at hhash
      obtain ⟨held, hheld, hsame⟩ := hhash
      by_cases hchanged : left.role ≠ right.role ∨ left.dc ≠ right.dc
      · have hover : mountedOver held right = right := by
          simp only [Partition.assignment, Prod.mk.injEq] at hsame
          rw [mountedOver, hsame.2.2.2.1, hsame.2.2.2.2, if_pos hchanged]
        simp [hchanged, hheld, hover]
      · have hkept : left.assignment = right.assignment := by
          obtain ⟨hdatabase, htable, hid⟩ := hunmixed.name left right
            (hold left (mem_of_get hleft)) (hnew right (mem_of_get hright))
            ((key_of_get hleft).trans (key_of_get hright).symm)
          push Not at hchanged
          simp only [Partition.assignment, hdatabase, htable, hid, hchanged]
        simp [hchanged, hheld, hsame, hkept]

def Led (partitions : PartitionPtrSet) (monitor : TableMonitor) (partitionId : Nat) : Prop :=
  ∃ partition ∈ partitions.items, partition.role = .LEADER ∧
    partition.databaseName = monitor.databaseName ∧ partition.tableName = monitor.tableName ∧
    partition.partitionId = partitionId

structure InStep (mounts : Mounts) (partitions : PartitionPtrSet) : Prop where
  holds : mounts.Holds partitions
  watches : ∀ key monitor, mounts.tableMonitors key = some monitor → ∀ partitionId,
    (partitionId ∈ monitor.monitorPartitions ↔ Led partitions monitor partitionId) ∧
    (monitor.Reports partitionId ↔ Led partitions monitor partitionId)
  monitored : ∀ partition ∈ partitions.items, partition.role = .LEADER → ∃ monitor,
    mounts.tableMonitors partition.tableHash = some monitor ∧
      monitor.databaseName = partition.databaseName ∧ monitor.tableName = partition.tableName

theorem Holds.held_of_mem (hholds : mounts.Holds partitions) (hmem : partition ∈ partitions.items) :
    ∃ held, mounts.held partition.getPartitionHash = some held ∧
      held.databaseName = partition.databaseName ∧ held.tableName = partition.tableName ∧
      held.partitionId = partition.partitionId ∧ held.role = partition.role ∧
      held.dc = partition.dc := by
  have hhash := hholds partition.getPartitionHash
  rw [get_of_mem hmem, map_some, map_eq_some_iff] at hhash
  simpa only [Partition.assignment, Prod.mk.injEq] using hhash

theorem Holds.leads_iff (hholds : mounts.Holds partitions) :
    mounts.Leads monitor.databaseName monitor.tableName partitionId ↔
      Led partitions monitor partitionId := by
  constructor
  · rintro ⟨hash, partition, hheld, hrole, hdatabase, htable, hid⟩
    have hhash := hholds hash
    rw [hheld, map_some, eq_comm, map_eq_some_iff] at hhash
    obtain ⟨found, hfound, hsame⟩ := hhash
    simp only [Partition.assignment, Prod.mk.injEq] at hsame
    exact ⟨found, mem_of_get hfound, hsame.2.2.2.1.trans hrole, hsame.1.trans hdatabase,
      hsame.2.1.trans htable, hsame.2.2.1.trans hid⟩
  · rintro ⟨partition, hmem, hrole, hdatabase, htable, hid⟩
    obtain ⟨held, hheld, hsame⟩ := hholds.held_of_mem hmem
    exact ⟨_, held, hheld, hsame.2.2.2.1.trans hrole, hsame.1.trans hdatabase,
      hsame.2.1.trans htable, hsame.2.2.1.trans hid⟩

include hunmixed hcoherent in
theorem Coherent.inStep (hknown : ∀ partition ∈ partitions.items, known partition) (hholds : mounts.Holds partitions) :
    mounts.InStep partitions where
  holds := hholds
  watches := by
    intro key monitor hmonitor partitionId
    have hwatches : partitionId ∈ monitor.monitorPartitions ↔ Led partitions monitor partitionId :=
      (hcoherent.watches key monitor hmonitor partitionId).trans hholds.leads_iff
    exact ⟨hwatches, ((hcoherent.tidy key monitor hmonitor).reports_iff partitionId).trans hwatches⟩
  monitored := by
    intro partition hmem hrole
    obtain ⟨held, hheld, hsame⟩ := hholds.held_of_mem hmem
    have hmonitored := hcoherent.monitored _ held hheld (hsame.2.2.2.1.trans hrole)
    rw [tableHash_of_names hsame.1 hsame.2.1] at hmonitored
    obtain ⟨monitor, hmonitor⟩ := ne_none_iff_exists'.mp hmonitored
    obtain ⟨hdatabase, htable, -⟩ := hcoherent.tableMonitor hunmixed (hknown partition hmem)
      (by rw [hmonitor]; rfl : monitor = _)
    exact ⟨monitor, hmonitor, hdatabase, htable⟩

end Mounts

namespace DatabaseManager

def notifications : PartitionPtrSet → List PartitionPtrSet → List Notification
  | _, [] => []
  | old, new :: states => notification old new :: notifications new states

theorem updateAll_inStep {known : Partition → Prop} (hunmixed : Unmixed known) {mounts : Mounts}
    (hcoherent : mounts.Coherent known) {old : PartitionPtrSet} {states : List PartitionPtrSet}
    (hold : ∀ partition ∈ old.items, known partition)
    (hstates : ∀ partitions ∈ states, ∀ partition ∈ partitions.items, known partition)
    (hholds : mounts.Holds old) :
    ((notifications old states).foldl Mounts.updatePartitions mounts).InStep
      (states.getLastD old) := by
  induction states generalizing mounts old with
  | nil => exact hcoherent.inStep hunmixed hold hholds
  | cons new states ih =>
    rw [List.forall_mem_cons] at hstates
    obtain ⟨hnext, hholds'⟩ := hholds.updatePartitions hunmixed hcoherent hold hstates.1
    rw [List.getLastD_cons]
    exact ih hnext hstates.1 hstates.2 hholds'

theorem performTasks_loader (told : List Notification) (mounts : Mounts) :
    performTasks loader perform told mounts =
      told.foldl Mounts.updatePartitions mounts := by
  induction told generalizing mounts with
  | nil => rfl
  | cons first told ih =>
    rw [WorkerPool.performTasks_cons, ih]
    rfl

/-- When the loader runs one update at a time, the mounts are those of the last partitions. -/
theorem loader_inStep {count : Nat} (states : List PartitionPtrSet)
    (actions : List (Action count ConfigMet Notification))
    (hsubmitted : submitted actions = notifications empty states)
    (hfinished : ((Pool.start start).run loader actions).Finished)
    (hunmixed : Unmixed fun partition => ∃ partitions ∈ states, partition ∈ partitions.items)
    (hserial : WorkerPool.Serial loader (Pool.start start) actions) :
    ((Pool.start start).run loader actions).state.mounts.InStep
      (states.getLastD empty) := by
  rw [WorkerPool.view_of_finished loader_meaning hserial hfinished, hsubmitted, performTasks_loader]
  refine updateAll_inStep hunmixed (Mounts.coherent_empty _) nofun ?_ fun _ => rfl
  exact fun partitions hpartitions partition hpartition => ⟨partitions, hpartitions, hpartition⟩

end DatabaseManager

end

namespace DatabaseManager

section
local instance loaderHash : CityHash64 := PartitionManager.referenceHash

def singlePartition : Partition := ⟨[100], [97], 0, 0, 0, .LEADER, [99]⟩

def singleSet : PartitionPtrSet := empty.insert singlePartition

def nextPartition (role : DBRole) : Partition := ⟨[100], [97], 1, 1, 1, role, [99]⟩

/-- Two partitions that the node leads, and then only one of them, which it follows. -/
def handedOver : List PartitionPtrSet :=
  [singleSet.insert (nextPartition .LEADER), empty.insert (nextPartition .FOLLOWER)]

def configured : ConfigMet := ⟨true, true, fun _ => rfl⟩

def handOverRun : List (Action 2 ConfigMet Notification) :=
  let told := notifications empty handedOver
  (told.take 1).map .submit ++ List.replicate 18 (.run 0 configured) ++
    (told.drop 1).map .submit ++ List.replicate 14 (.run 1 configured)

theorem loader_inStep_handOver :
    ((Pool.start start).run loader handOverRun).state.mounts.InStep
      (empty.insert (nextPartition .FOLLOWER)) := by
  refine loader_inStep handedOver handOverRun rfl (by decide +kernel) ?_ (by decide +kernel)
  have hknown (partition : Partition) (hknown : ∃ partitions ∈ handedOver,
      partition ∈ partitions.items) :
      partition ∈ handedOver.flatMap KeyedSet.items := List.mem_flatMap.mpr hknown
  constructor
  · have hall : ∀ left ∈ handedOver.flatMap KeyedSet.items,
        ∀ right ∈ handedOver.flatMap KeyedSet.items,
        left.getPartitionHash = right.getPartitionHash → left.databaseName = right.databaseName ∧
          left.tableName = right.tableName ∧ left.partitionId = right.partitionId := by
      decide +kernel
    exact fun left right hleft hright => hall left (hknown left hleft) right (hknown right hright)
  · have hall : ∀ left ∈ handedOver.flatMap KeyedSet.items,
        left.databaseName = [100] ∧ left.tableName = [97] := by decide +kernel
    intro left right hleft hright _
    rw [(hall left (hknown left hleft)).1, (hall left (hknown left hleft)).2,
      (hall right (hknown right hright)).1, (hall right (hknown right hright)).2]
    exact ⟨rfl, rfl⟩

/-- Two workers: the second takes the partition off the map before the first has put it there. -/
def crossedRun : List (Action 2 ConfigMet Notification) :=
  (notifications empty [singleSet, empty]).map .submit ++
    [.run 0 configured, .run 1 configured, .run 0 configured] ++
    List.replicate 6 (.run 1 configured) ++ List.replicate 9 (.run 0 configured)

theorem loader_inStep_fails :
    submitted crossedRun = notifications empty [singleSet, empty] ∧
    ((Pool.start start).run loader crossedRun).Finished ∧
    ((Pool.start start).run loader crossedRun).state.mounts.held
      singlePartition.getPartitionHash = some singlePartition ∧
    ((Pool.start start).run loader crossedRun).state.mounts.tableMonitors
      singlePartition.tableHash = some ⟨[100], [97], {0}, {.partition 0}, true⟩ ∧
    ¬((Pool.start start).run loader crossedRun).state.mounts.InStep empty := by
  have hheld : ((Pool.start start).run loader crossedRun).state.mounts.held
      singlePartition.getPartitionHash = some singlePartition := by decide +kernel
  refine ⟨rfl, by decide +kernel, hheld, by decide +kernel, fun hstep => ?_⟩
  have hhash := hstep.holds singlePartition.getPartitionHash
  rw [hheld] at hhash
  cases hhash

end

end DatabaseManager

end LaserDB
