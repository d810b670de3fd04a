import LaserDB.Library.DecimalText
import LaserDB.Library.WorkerPool

/-!
# Batch operations on the nodes of a group

A request writes the inventory and the playbook, and then starts the playbook in the background.
-/

namespace LaserDB.Ansible
open WorkerPool Function List

structure NodeOperationParams where
  host : Bytes
  groupName : Bytes
  nodeId : UInt32
  dc : Bytes
  deriving DecidableEq, Repr

structure NodeBatchOperationParams where
  nodes : List NodeOperationParams
  roles : List Bytes
  tags : Bytes
  deriving DecidableEq, Repr

def supportedTags : List Bytes :=
  ["start", "stop", "restart", "upgrade", "enable", "disable"].map fun text =>
    DecimalText.ascii text.toList

def getOperationKey (param : NodeBatchOperationParams) : Bytes :=
  (param.nodes.head?.map NodeOperationParams.groupName).getD []

/-- `NewKey` of the ini library, of which only this is assumed: a new name that is not empty is
entered after the others. -/
class IniFile where
  newKey : List NodeOperationParams → NodeOperationParams → List NodeOperationParams
  newKey_new : ∀ entries node, node.host ≠ [] → node.host ∉ entries.map NodeOperationParams.host →
    newKey entries node = entries ++ [node]

section
variable [IniFile]
open IniFile

def generateAnsibleInventory (param : NodeBatchOperationParams) : List NodeOperationParams :=
  param.nodes.foldl newKey []

structure Started where
  param : NodeBatchOperationParams
  inventory : List NodeOperationParams
  roles : List Bytes
  deriving DecidableEq, Repr

inductive Answer
  | ansibleUnknownTags
  | ansibleParamsError
  | ansibleGroupHasTaskInProgress
  | ok (taskId : Bytes)
  deriving DecidableEq, Repr

structure Manager where
  operationCaches : Bytes → Option Nat := fun _ => none
  /-- the caches that were made, and which of them are done -/
  created : Nat := 0
  done : Nat → Bool := fun _ => false
  inventory : List NodeOperationParams := []
  playbook : List Bytes := []
  answers : List Answer := []
  started : List Started := []

inductive Step
  | ansibleOperation (param : NodeBatchOperationParams)
  | register (param : NodeBatchOperationParams)
  | writeInventory (param : NodeBatchOperationParams) (cache : Nat)
  | writePlaybook (param : NodeBatchOperationParams) (cache : Nat)
  | run (param : NodeBatchOperationParams) (cache : Nat)
  | finish (cache : Nat)
  deriving DecidableEq, Repr

def Manager.answer (manager : Manager) (answer : Answer) : Manager :=
  { manager with answers := answer :: manager.answers }

def Manager.finish (manager : Manager) (cache : Nat) : Manager :=
  { manager with done := update manager.done cache true }

def Manager.step (manager : Manager) (fails : Bool) : Step → Manager × List Step
  | .ansibleOperation param =>
    let taskId := getOperationKey param
    if param.tags ∉ supportedTags then (manager.answer .ansibleUnknownTags, [])
    else if taskId = [] then (manager.answer .ansibleParamsError, [])
    else if (manager.operationCaches taskId).any fun cache => !manager.done cache then
      (manager.answer .ansibleGroupHasTaskInProgress, [])
    else (manager.answer (.ok taskId), [.register param])
  | .register param =>
    ({ manager with
        operationCaches := update manager.operationCaches (getOperationKey param)
          (some manager.created)
        created := manager.created + 1 }, [.writeInventory param manager.created])
  | .writeInventory param cache =>
    if fails then (manager.finish cache, [])
    else ({ manager with inventory := generateAnsibleInventory param }, [.writePlaybook param cache])
  | .writePlaybook param cache =>
    if fails then (manager.finish cache, [])
    else ({ manager with playbook := param.roles }, [.run param cache])
  | .run param cache =>
    ({ manager with started := ⟨param, manager.inventory, manager.playbook⟩ :: manager.started },
      [.finish cache])
  | .finish cache => (manager.finish cache, [])

def machine : Machine Manager Bool NodeBatchOperationParams Step where
  start param := [.ansibleOperation param]
  step := Manager.step

structure Started.Own (started : Started) : Prop where
  nodes : ∀ node, node ∈ started.inventory ↔ node ∈ started.param.nodes
  roles : started.roles = started.param.roles

def Step.between : Step → Bool
  | .writePlaybook .. | .run .. => true
  | _ => false

/-- A file is written only when no other request is between its inventory and its start. -/
def Alone (others : Multiset Step) : Step → Prop
  | .writeInventory .. | .writePlaybook .. => ∀ other ∈ others, other.between = false
  | _ => True

instance (others : Multiset Step) : ∀ step, Decidable (Alone others step)
  | .writeInventory .. | .writePlaybook .. =>
    inferInstanceAs (Decidable (∀ other ∈ others, other.between = false))
  | .ansibleOperation _ | .register _ | .run .. | .finish _ => isTrue trivial

structure NodeBatchOperationParams.Distinct (param : NodeBatchOperationParams) : Prop where
  named : ∀ node ∈ param.nodes, node.host ≠ []
  nodup : (param.nodes.map NodeOperationParams.host).Nodup

section
variable {param : NodeBatchOperationParams}

theorem foldl_newKey {nodes entries : List NodeOperationParams}
    (hnamed : ∀ node ∈ nodes, node.host ≠ [])
    (hnodup : ((entries ++ nodes).map NodeOperationParams.host).Nodup) :
    nodes.foldl newKey entries = entries ++ nodes := by
  induction nodes generalizing entries with
  | nil => simp
  | cons node nodes ih =>
    obtain ⟨hhost, hnamed⟩ := forall_mem_cons.mp hnamed
    have hnew : node.host ∉ entries.map NodeOperationParams.host := by
      rw [map_append, nodup_append] at hnodup
      exact fun hmem => hnodup.2.2 _ hmem _ (by simp) rfl
    rw [foldl_cons, newKey_new _ _ hhost hnew, ih hnamed (by simpa using hnodup)]
    simp

theorem generateAnsibleInventory_eq (hdistinct : param.Distinct) :
    generateAnsibleInventory param = param.nodes :=
  foldl_newKey hdistinct.named (by simpa using hdistinct.nodup)

variable {manager : Manager} {step : Step} {others : Multiset Step}

def Manager.Wrote (manager : Manager) : Step → Prop
  | .writePlaybook param _ => manager.inventory = generateAnsibleInventory param
  | .run param _ => manager.inventory = generateAnsibleInventory param ∧ manager.playbook = param.roles
  | _ => True

structure Sound (manager : Manager) (steps : Multiset Step) : Prop where
  wrote : ∀ step ∈ steps, manager.Wrote step
  started : ∀ started ∈ manager.started,
    started.inventory = generateAnsibleInventory started.param ∧ started.roles = started.param.roles

theorem Manager.wrote_of_not_between (manager : Manager) (hothers : ∀ other ∈ others,
    other.between = false) : ∀ other ∈ others, manager.Wrote other := by
  intro other hother
  have hbetween := hothers other hother
  cases other <;> trivial

theorem Sound.move {next : Manager} {steps : List Step} (hsteps : ∀ other ∈ steps, next.Wrote other)
    (hothers : ∀ other ∈ others, next.Wrote other)
    (hstarted : ∀ started ∈ next.started, started.inventory =
      generateAnsibleInventory started.param ∧ started.roles = started.param.roles) :
    Sound next (Multiset.ofList steps + others) :=
  ⟨fun other hother => (Multiset.mem_add.mp hother).elim (hsteps other) (hothers other), hstarted⟩

theorem Sound.runStep (hsound : Sound manager (step ::ₘ others)) (fails : Bool)
    (halone : Alone others step) :
    Sound (manager.step fails step).1 (Multiset.ofList (manager.step fails step).2 + others) := by
  obtain ⟨hwrote, hothers⟩ := Multiset.forall_mem_cons.mp hsound.wrote
  have hfinish (cache : Nat) : Sound (manager.finish cache) (Multiset.ofList [] + others) :=
    .move (by simp) hothers hsound.started
  cases step <;> simp only [Manager.step]
  case ansibleOperation param =>
    split_ifs <;> exact .move (by simp [Manager.Wrote]) hothers hsound.started
  case register param => exact .move (by simp [Manager.Wrote]) hothers hsound.started
  case writeInventory param cache =>
    split_ifs
    · exact hfinish cache
    · exact .move (by simp [Manager.Wrote]) (Manager.wrote_of_not_between _ halone) hsound.started
  case writePlaybook param cache =>
    split_ifs
    · exact hfinish cache
    · exact .move (by simpa [Manager.Wrote] using hwrote) (Manager.wrote_of_not_between _ halone)
        hsound.started
  case run param cache =>
    exact .move (by simp [Manager.Wrote]) hothers
      (forall_mem_cons.mpr ⟨hwrote, hsound.started⟩)
  case finish cache => exact hfinish cache

end

/-- The runs in which `Alone` holds of every step. -/
def OneByOne {count : Nat} (actions : List (Action count Bool NodeBatchOperationParams)) : Prop :=
  Simulation.Guarded (fun action pool => pool.step machine action)
    (Pool.Allowed fun _ steps _ step => Alone (steps.erase step) step) actions (Pool.start {})

def startedIn {count : Nat} (actions : List (Action count Bool NodeBatchOperationParams)) :
    List Started :=
  ((Pool.start {}).run machine actions).state.started

/-- Every playbook runs on the nodes and with the roles of its own request when no file is written
between the inventory of another request and its start and the hosts of the request are different. -/
theorem own_of_oneByOne {count : Nat} (actions : List (Action count Bool NodeBatchOperationParams))
    (hactions : OneByOne actions) :
    ∀ started ∈ startedIn actions, started.param.Distinct → started.Own := by
  have hsound : Sound ((Pool.start {}).run machine actions).state
      ((Pool.start {}).run machine actions).steps := by
    refine Pool.invariant_run (fun manager steps param hsound => ?_)
      (fun manager fails step others hsound halone => hsound.runStep fails ?_) ?_ hactions
    · exact .move (by simp [machine, Manager.Wrote]) hsound.wrote hsound.started
    · rwa [Multiset.erase_cons_head] at halone
    · rw [Pool.steps_start]
      exact ⟨by simp, by simp [Pool.start]⟩
  intro started hstarted hdistinct
  obtain ⟨hinventory, hroles⟩ := hsound.started started hstarted
  rw [generateAnsibleInventory_eq hdistinct] at hinventory
  exact ⟨fun node => by rw [hinventory], hroles⟩

end

section

theorem replace_new (entries : List NodeOperationParams) (node : NodeOperationParams)
    (hhost : node.host ≠ []) (hnew : node.host ∉ entries.map NodeOperationParams.host) :
    (if node.host = [] then entries
      else if node.host ∈ entries.map NodeOperationParams.host then
        entries.map fun other => if other.host = node.host then node else other
      else entries ++ [node]) = entries ++ [node] := by
  rw [if_neg hhost, if_neg hnew]

/-- As the library documents it: an empty name is refused, and one that is there gets the new
value. -/
local instance replacing : IniFile where
  newKey entries node :=
    if node.host = [] then entries
    else if node.host ∈ entries.map NodeOperationParams.host then
      entries.map fun other => if other.host = node.host then node else other
    else entries ++ [node]
  newKey_new := replace_new

def stopNode (host groupName : String) : NodeBatchOperationParams where
  nodes := [⟨DecimalText.ascii host.toList, DecimalText.ascii groupName.toList, 1, []⟩]
  roles := []
  tags := DecimalText.ascii "stop".toList

/-- Two workers have registered their requests before the first of them writes. -/
def sharedRun : List (Action 2 Bool NodeBatchOperationParams) :=
  [.submit (stopNode "h1" "g1"), .submit (stopNode "h2" "g2"), .run 0 false, .run 1 false,
    .run 0 false, .run 1 false, .run 1 false, .run 0 false, .run 0 false, .run 0 false,
    .run 0 false, .run 1 false, .run 1 false, .run 0 false, .run 1 false, .run 1 false]

theorem own_sharedRun :
    startedIn sharedRun = [⟨stopNode "h2" "g2", (stopNode "h2" "g2").nodes, []⟩,
      ⟨stopNode "h1" "g1", (stopNode "h1" "g1").nodes, []⟩] ∧
    OneByOne sharedRun ∧ ∀ started ∈ startedIn sharedRun, started.Own := by
  have hshared : OneByOne sharedRun := by
    unfold OneByOne
    decide
  have hdistinct (host groupName : String) (hhost : DecimalText.ascii host.toList ≠ []) :
      (stopNode host groupName).Distinct :=
    ⟨forall_mem_singleton.mpr hhost, nodup_singleton _⟩
  have hstarted : startedIn sharedRun = [⟨stopNode "h2" "g2", (stopNode "h2" "g2").nodes, []⟩,
      ⟨stopNode "h1" "g1", (stopNode "h1" "g1").nodes, []⟩] := by decide
  refine ⟨hstarted, hshared, fun started hmem => own_of_oneByOne sharedRun hshared started hmem ?_⟩
  rw [hstarted, mem_pair] at hmem
  rcases hmem with rfl | rfl
  · exact hdistinct "h2" "g2" (by decide)
  · exact hdistinct "h1" "g1" (by decide)

/-- Two groups: the second request writes its inventory before the first starts its playbook. -/
def overlappingRun : List (Action 2 Bool NodeBatchOperationParams) :=
  [.submit (stopNode "h1" "g1"), .submit (stopNode "h2" "g2"), .run 0 false, .run 0 false,
    .run 0 false, .run 0 false, .run 0 false, .run 1 false, .run 1 false, .run 1 false, .run 1 false,
    .run 0 false]

theorem overlappingRun_reaches_other : ∃ started ∈ startedIn overlappingRun,
    started.param = stopNode "h1" "g1" ∧ started.inventory = (stopNode "h2" "g2").nodes := by
  decide

end

end LaserDB.Ansible
