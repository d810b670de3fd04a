import LaserDB.Library.ByteCodec
import LaserDB.Library.WorkerPool

/-!
# Base and delta loads of a partition

`loadBaseData` and `loadDeltaData` of `server/partition_handler.cc`.  A call that meets another load
leaves its request in a queue, from which whoever ends a load reads the next.
-/

namespace LaserDB

open List ByteCodec WorkerPool.Pool
open WorkerPool (Pool Action submitted)
open Multiset (coe_add coe_nil filterMap_add filterMap_coe mem_cons_of_mem mem_cons_self ofList)

abbrev Version := Bytes

inductive PartitionLoadInfo where
  | base (version : Version) (ingests : Bool)
  | delta (baseVersion : Version) (deltas : List (Version × Bool))
  deriving DecidableEq

def PartitionLoadInfo.Asks (version : Version) : PartitionLoadInfo → Prop
  | .base other _ => version = other
  | .delta _ _ => False

instance (version : Version) : DecidablePred (PartitionLoadInfo.Asks version)
  | .base other _ => inferInstanceAs (Decidable (version = other))
  | .delta _ _ => isFalse id

inductive PartitionLoadStatus where
  | BASE_LOADED
  | BASE_LOADING
  | DELTA_LOADED
  | DELTA_LOADING
  deriving DecidableEq

/-- What was loaded: a base, or a delta whose file belongs to the base `source`, into a database
with the base `database`. -/
inductive LoadEvent where
  | base (version : Version)
  | delta (database source version : Version)
  deriving DecidableEq

/-- The part of a handler that loads use.  `requests` and `events` only record: the calls in the
order in which they took the lock, and what was loaded. -/
structure PartitionLoads where
  baseVersion : Version
  database : Version
  deltaVersions : List Version
  status : PartitionLoadStatus
  loadQueue : List PartitionLoadInfo
  requests : List PartitionLoadInfo
  events : List LoadEvent
  deriving DecidableEq

inductive LoadInstruction where
  | call (info : PartitionLoadInfo)
  | load (info : PartitionLoadInfo)
  | ingestBaseData (version : Version) (ingests : Bool)
  | baseLoaded (version : Version) (ingested : Bool)
  | ingestDeltas (deltas : List (Version × Bool))
  | ingestDeltaData (source version : Version) (ingests : Bool) (deltas : List (Version × Bool))
  | pushDelta (version : Version) (deltas : List (Version × Bool))
  | deltaLoaded
  | triggerLoadData
  deriving DecidableEq

namespace PartitionLoads

def start (version : Version) (deltas : List Version) : PartitionLoads :=
  ⟨version, version, deltas, .BASE_LOADED, [], [], []⟩

def usableSlots : Nat := 10 - 1

def canLoadCheck (loads : PartitionLoads) : Bool :=
  loads.status = .BASE_LOADED ∨ loads.status = .DELTA_LOADED

def write (loads : PartitionLoads) (info : PartitionLoadInfo) : PartitionLoads :=
  if loads.loadQueue.length < usableSlots then
    { loads with loadQueue := loads.loadQueue ++ [info] }
  else loads

/-- The first section of `loadBaseData` and of `loadDeltaData`. -/
def enter (loads : PartitionLoads) : PartitionLoadInfo → PartitionLoads × List LoadInstruction
  | .base version ingests =>
    if loads.baseVersion = version then (loads, [.triggerLoadData])
    else if !loads.canLoadCheck then (loads.write (.base version ingests), [])
    else ({ loads with status := .BASE_LOADING }, [.ingestBaseData version ingests])
  | .delta baseVersion deltas =>
    if !loads.canLoadCheck then (loads.write (.delta baseVersion deltas), [])
    else if loads.baseVersion ≠ baseVersion then (loads, [.triggerLoadData])
    else ({ loads with status := .DELTA_LOADING }, [.ingestDeltas deltas])

def exchangeBaseVersion (loads : PartitionLoads) (version : Version) : PartitionLoads :=
  { loads with
    baseVersion := version
    database := version
    deltaVersions := []
    events := loads.events ++ [.base version] }

def step (loads : PartitionLoads) : LoadInstruction → PartitionLoads × List LoadInstruction
  | .call info => { loads with requests := loads.requests ++ [info] }.enter info
  | .load info => loads.enter info
  | .ingestBaseData version ingests => (loads, [.baseLoaded version ingests])
  | .baseLoaded version ingested =>
    let loads := if ingested then loads.exchangeBaseVersion version else loads
    ({ loads with status := .BASE_LOADED }, [.triggerLoadData])
  | .ingestDeltas [] => (loads, [.deltaLoaded])
  | .ingestDeltas ((version, ingests) :: deltas) =>
    if version ∈ loads.deltaVersions then (loads, [.ingestDeltas deltas])
    else (loads, [.ingestDeltaData loads.baseVersion version ingests deltas])
  | .ingestDeltaData source version ingests deltas =>
    if ingests then
      ({ loads with events := loads.events ++ [.delta loads.database source version] },
        [.pushDelta version deltas])
    else (loads, [.ingestDeltas deltas])
  | .pushDelta version deltas =>
    ({ loads with deltaVersions := loads.deltaVersions ++ [version] }, [.ingestDeltas deltas])
  | .deltaLoaded => ({ loads with status := .DELTA_LOADED }, [.triggerLoadData])
  | .triggerLoadData =>
    match loads.loadQueue with
    | [] => (loads, [])
    | info :: queue => ({ loads with loadQueue := queue }, [.load info])

def threads : WorkerPool.Machine PartitionLoads Unit PartitionLoadInfo LoadInstruction where
  start info := [.call info]
  step loads _ := loads.step

end PartitionLoads

structure Served where
  version : Version
  deltas : List Version
  events : List LoadEvent
  deriving DecidableEq

variable {deltas : List Version}

namespace Served

def ingest (served : Served) (delta : Version × Bool) : Served :=
  if delta.2 = true ∧ delta.1 ∉ served.deltas then
    { served with
      deltas := served.deltas ++ [delta.1]
      events := served.events ++ [.delta served.version served.version delta.1] }
  else served

/-- A request takes effect: another base that can be loaded is served from then on, without deltas,
and a delta of the served base that can be ingested and was not yet is added. -/
def take (served : Served) : PartitionLoadInfo → Served
  | .base version ingests =>
    if ingests = true ∧ version ≠ served.version then
      ⟨version, [], served.events ++ [.base version]⟩
    else served
  | .delta baseVersion deltas =>
    if baseVersion = served.version then deltas.foldl ingest served else served

def loaded (version : Version) : PartitionLoadInfo → Version
  | .base other true => other
  | _ => version

/-- The deltas are those that were there at first, or none once a base was loaded, and after them
those that were ingested since, each once. -/
def Since (deltas : List Version) (served : Served) : Prop :=
  ∃ kept added before, served.deltas = kept ++ added ∧
    served.events = before ++ added.map (.delta served.version served.version) ∧
    added.Nodup ∧ (∀ delta ∈ added, delta ∉ kept) ∧
    (kept = deltas ∧ before = [] ∨ kept = [] ∧ ∃ earlier, before = earlier ++ [.base served.version])

def Apart (served : Served) : Prop :=
  ∀ database source delta, .delta database source delta ∈ served.events → database = source

variable (served : Served)

theorem version_ingest (delta : Version × Bool) :
    (served.ingest delta).version = served.version := by
  unfold ingest
  split <;> rfl

theorem version_foldl_ingest (deltas : List (Version × Bool)) :
    (deltas.foldl ingest served).version = served.version := by
  induction deltas generalizing served with
  | nil => rfl
  | cons delta deltas ih => exact (ih _).trans (version_ingest served delta)

theorem version_take (info : PartitionLoadInfo) :
    (served.take info).version = loaded served.version info := by
  cases info with
  | base version ingests =>
    cases ingests with
    | false => simp [take, loaded]
    | true =>
      simp only [take, loaded]
      split
      · rfl
      · rename_i hsame
        simp only [true_and, ne_eq, not_not] at hsame
        exact hsame.symm
  | delta baseVersion deltas =>
    simp only [take, loaded]
    split
    · exact version_foldl_ingest served deltas
    · rfl

theorem version_foldl_take (requests : List PartitionLoadInfo) :
    (requests.foldl take served).version = requests.foldl loaded served.version := by
  induction requests generalizing served with
  | nil => rfl
  | cons info requests ih =>
    rw [foldl_cons, foldl_cons, ih, version_take]

variable {served : Served}

theorem Since.ingest (hsince : served.Since deltas) (delta : Version × Bool) :
    (served.ingest delta).Since deltas := by
  unfold Served.ingest
  split
  · rename_i hfresh
    obtain ⟨kept, added, before, hdeltas, hevents, hnodup, hkept, hbefore⟩ := hsince
    have hnew : delta.1 ∉ kept ∧ delta.1 ∉ added := by
      rw [hdeltas, mem_append, not_or] at hfresh
      exact hfresh.2
    refine ⟨kept, added ++ [delta.1], before, ?_, ?_, ?_, ?_, hbefore⟩
    · rw [hdeltas, append_assoc]
    · rw [hevents, append_assoc, map_append]
      rfl
    · exact nodup_append.mpr ⟨hnodup, nodup_singleton _, fun other hother last hlast =>
        mem_singleton.mp hlast ▸ fun hsame => hnew.2 (hsame ▸ hother)⟩
    · intro other hother
      rcases mem_append.mp hother with hadded | hlast
      · exact hkept other hadded
      · exact mem_singleton.mp hlast ▸ hnew.1
  · exact hsince

theorem Since.take (hsince : served.Since deltas) (info : PartitionLoadInfo) :
    (served.take info).Since deltas := by
  cases info with
  | base version ingests =>
    simp only [Served.take]
    split
    · exact ⟨[], [], served.events ++ [.base version], rfl, (append_nil _).symm,
        nodup_nil, nofun, .inr ⟨rfl, served.events, rfl⟩⟩
    · exact hsince
  | delta baseVersion requested =>
    simp only [Served.take]
    split
    · exact foldlRecOn requested Served.ingest hsince fun _ hsince delta _ =>
        hsince.ingest delta
    · exact hsince

theorem Apart.ingest (hapart : served.Apart) (delta : Version × Bool) :
    (served.ingest delta).Apart := by
  unfold Served.ingest
  split
  · intro database source version hevent
    rcases mem_append.mp hevent with hold | hnew
    · exact hapart database source version hold
    · cases mem_singleton.mp hnew
      rfl
  · exact hapart

theorem Apart.take (hapart : served.Apart) (info : PartitionLoadInfo) :
    (served.take info).Apart := by
  cases info with
  | base version ingests =>
    simp only [Served.take]
    split
    · intro database source delta hevent
      rcases mem_append.mp hevent with hold | hnew
      · exact hapart database source delta hold
      · cases mem_singleton.mp hnew
    · exact hapart
  | delta baseVersion requested =>
    simp only [Served.take]
    split
    · exact foldlRecOn requested Served.ingest hapart fun _ hapart delta _ =>
        hapart.ingest delta
    · exact hapart

end Served

def PartitionLoads.served (loads : PartitionLoads) : Served :=
  ⟨loads.baseVersion, loads.deltaVersions, loads.events⟩

namespace LoadInstruction

def finish : LoadInstruction → Served → Served
  | .call _, served => served
  | .load info, served => served.take info
  | .ingestBaseData version ingests, served => served.take (.base version ingests)
  | .baseLoaded version ingested, served => served.take (.base version ingested)
  | .ingestDeltas deltas, served => deltas.foldl Served.ingest served
  | .ingestDeltaData _ version ingests deltas, served =>
    deltas.foldl Served.ingest (served.ingest (version, ingests))
  | .pushDelta version deltas, served =>
    deltas.foldl Served.ingest { served with deltas := served.deltas ++ [version] }
  | .deltaLoaded, served => served
  | .triggerLoadData, served => served

def Fits (loads : PartitionLoads) : LoadInstruction → Prop
  | .call _ => False
  | .load _ => loads.canLoadCheck = true
  | .ingestBaseData version _ => loads.status = .BASE_LOADING ∧ version ≠ loads.baseVersion
  | .baseLoaded version _ => loads.status = .BASE_LOADING ∧ version ≠ loads.baseVersion
  | .ingestDeltas _ => loads.status = .DELTA_LOADING
  | .ingestDeltaData source version _ _ => loads.status = .DELTA_LOADING ∧
      source = loads.baseVersion ∧ version ∉ loads.deltaVersions
  | .pushDelta _ _ => loads.status = .DELTA_LOADING
  | .deltaLoaded => loads.status = .DELTA_LOADING
  | .triggerLoadData => loads.canLoadCheck = true

def ChangesOver : LoadInstruction → Prop
  | .load _ => True
  | .triggerLoadData => True
  | _ => False

instance : DecidablePred ChangesOver
  | .load _ => isTrue trivial
  | .triggerLoadData => isTrue trivial
  | .call _ | .ingestBaseData _ _ | .baseLoaded _ _ | .ingestDeltas _ | .ingestDeltaData _ _ _ _
  | .pushDelta _ _ | .deltaLoaded => isFalse id

def called : LoadInstruction → Option PartitionLoadInfo
  | .call info => some info
  | _ => none

end LoadInstruction

namespace PartitionLoads

/-- A thread is at work at the instruction: when it and the queue are done, every request has taken
effect in order. -/
structure Works (initial : Served) (loads : PartitionLoads) (instruction : LoadInstruction) :
    Prop where
  database : loads.database = loads.baseVersion
  fits : instruction.Fits loads
  leads : loads.loadQueue.foldl Served.take (instruction.finish loads.served) =
    loads.requests.foldl Served.take initial

structure Rests (initial : Served) (loads : PartitionLoads) : Prop where
  database : loads.database = loads.baseVersion
  canLoad : loads.canLoadCheck = true
  queue : loads.loadQueue = []
  served : loads.served = loads.requests.foldl Served.take initial

def Continues (initial : Served) (result : PartitionLoads × List LoadInstruction) : Prop :=
  (∃ instruction, result.2 = [instruction] ∧ result.1.Works initial instruction) ∨
    result.2 = [] ∧ result.1.Rests initial

variable {instruction : LoadInstruction}

section
variable {initial : Served} {loads : PartitionLoads} {info : PartitionLoadInfo}

theorem enter_of_canLoad (hdatabase : loads.database = loads.baseVersion)
    (hcan : loads.canLoadCheck = true)
    (hleads : loads.loadQueue.foldl Served.take (loads.served.take info) =
      loads.requests.foldl Served.take initial) : Continues initial (loads.enter info) := by
  left
  cases info with
  | base version ingests =>
    simp only [enter, hcan, Bool.not_true, Bool.false_eq_true, if_false]
    by_cases hversion : loads.baseVersion = version
    · rw [if_pos hversion]
      refine ⟨_, rfl, hdatabase, hcan, ?_⟩
      rwa [Served.take, if_neg (fun hother => hother.2 hversion.symm)] at hleads
    · rw [if_neg hversion]
      exact ⟨_, rfl, hdatabase, ⟨rfl, Ne.symm hversion⟩, hleads⟩
  | delta baseVersion deltas =>
    simp only [enter, hcan, Bool.not_true, Bool.false_eq_true, if_false]
    by_cases hversion : loads.baseVersion = baseVersion
    · rw [if_neg (fun hother => hother hversion)]
      refine ⟨_, rfl, hdatabase, rfl, ?_⟩
      rwa [Served.take, if_pos (show baseVersion = loads.served.version from hversion.symm)]
        at hleads
    · rw [if_pos hversion]
      refine ⟨_, rfl, hdatabase, hcan, ?_⟩
      rwa [Served.take, if_neg (show baseVersion ≠ loads.served.version from Ne.symm hversion)]
        at hleads

theorem enter_of_loading (hcan : loads.canLoadCheck = false)
    (hroom : loads.loadQueue.length < usableSlots) (hother : ¬info.Asks loads.baseVersion) :
    loads.enter info = ({ loads with loadQueue := loads.loadQueue ++ [info] }, []) := by
  cases info with
  | base version ingests =>
    have hversion : loads.baseVersion ≠ version := hother
    simp [enter, hcan, hversion, write, hroom]
  | delta baseVersion deltas => simp [enter, hcan, write, hroom]

theorem canLoadCheck_of_loading (hfits : instruction.Fits loads)
    (hchanges : ¬instruction.ChangesOver) : loads.canLoadCheck = false := by
  cases instruction with
  | call _ => exact hfits.elim
  | load | triggerLoadData => exact absurd trivial hchanges
  | ingestBaseData | baseLoaded | ingestDeltaData => simp [canLoadCheck, hfits.1]
  | ingestDeltas | pushDelta | deltaLoaded =>
    simp [canLoadCheck, show loads.status = .DELTA_LOADING from hfits]

theorem Works.step (hworks : loads.Works initial instruction) :
    Continues initial (loads.step instruction) := by
  obtain ⟨hdatabase, hfits, hleads⟩ := hworks
  cases instruction with
  | call info => exact hfits.elim
  | load info => exact enter_of_canLoad hdatabase hfits hleads
  | ingestBaseData | pushDelta => exact .inl ⟨_, rfl, hdatabase, hfits, hleads⟩
  | baseLoaded version ingested =>
    refine .inl ⟨_, rfl, ?_⟩
    cases ingested with
    | false =>
      rw [LoadInstruction.finish, Served.take, if_neg (by simp)] at hleads
      exact ⟨hdatabase, rfl, hleads⟩
    | true =>
      rw [LoadInstruction.finish, Served.take, if_pos ⟨rfl, hfits.2⟩] at hleads
      exact ⟨rfl, rfl, hleads⟩
  | ingestDeltas deltas =>
    cases deltas with
    | nil => exact .inl ⟨_, rfl, hdatabase, hfits, hleads⟩
    | cons delta deltas =>
      obtain ⟨version, ingests⟩ := delta
      simp only [PartitionLoads.step]
      by_cases hfound : version ∈ loads.deltaVersions
      · rw [if_pos hfound]
        refine .inl ⟨_, rfl, hdatabase, hfits, ?_⟩
        rwa [LoadInstruction.finish, foldl_cons, Served.ingest,
          if_neg (fun hfresh => hfresh.2 hfound)] at hleads
      · rw [if_neg hfound]
        exact .inl ⟨_, rfl, hdatabase, ⟨hfits, rfl, hfound⟩, hleads⟩
  | ingestDeltaData source version ingests deltas =>
    obtain ⟨hstatus, hsource, hfresh⟩ := hfits
    cases ingests with
    | false =>
      refine .inl ⟨_, rfl, hdatabase, hstatus, ?_⟩
      rwa [LoadInstruction.finish, Served.ingest, if_neg (by simp)] at hleads
    | true =>
      refine .inl ⟨_, rfl, hdatabase, hstatus, ?_⟩
      rw [LoadInstruction.finish, Served.ingest, if_pos ⟨rfl, hfresh⟩] at hleads
      simp only [PartitionLoads.step, if_true, hdatabase, hsource]
      exact hleads
  | deltaLoaded => exact .inl ⟨_, rfl, hdatabase, rfl, hleads⟩
  | triggerLoadData =>
    simp only [PartitionLoads.step]
    cases hqueue : loads.loadQueue with
    | nil =>
      rw [hqueue] at hleads
      exact .inr ⟨rfl, hdatabase, hfits, hqueue, hleads⟩
    | cons info queue =>
      rw [hqueue] at hleads
      exact .inl ⟨_, rfl, hdatabase, hfits, hleads⟩

/-- A call comes neither between the end of a load and the start of the next, nor while another
load is under way with a full queue or for the base that is still served. -/
def Enters (loads : PartitionLoads) (steps : Multiset LoadInstruction) (info : PartitionLoadInfo) :
    Prop :=
  (∀ instruction ∈ steps, ¬instruction.ChangesOver) ∧
    (loads.canLoadCheck = false → loads.loadQueue.length < usableSlots ∧
      ¬info.Asks loads.baseVersion)

instance (loads : PartitionLoads) (steps : Multiset LoadInstruction) (info : PartitionLoadInfo) :
    Decidable (loads.Enters steps info) :=
  inferInstanceAs (Decidable (_ ∧ _))

def Calm (loads : PartitionLoads) (steps : Multiset LoadInstruction) (_ : Unit)
    (instruction : LoadInstruction) : Prop :=
  ∀ info ∈ instruction.called, loads.Enters steps info

instance (loads : PartitionLoads) (steps : Multiset LoadInstruction) (met : Unit)
    (instruction : LoadInstruction) : Decidable (loads.Calm steps met instruction) :=
  inferInstanceAs (Decidable (∀ info ∈ instruction.called, loads.Enters steps info))

def Waiting (steps : Multiset LoadInstruction) : Prop :=
  ∀ instruction ∈ steps, ∃ info, instruction = .call info

def Ordered (initial : Served) (loads : PartitionLoads) (steps : Multiset LoadInstruction) : Prop :=
  Waiting steps ∧ loads.Rests initial ∨
    ∃ instruction others, steps = instruction ::ₘ others ∧ Waiting others ∧
      loads.Works initial instruction

variable {others : Multiset LoadInstruction}

theorem Continues.ordered {result : PartitionLoads × List LoadInstruction}
    (hcontinues : Continues initial result) (hothers : Waiting others) :
    Ordered initial result.1 (ofList result.2 + others) := by
  rcases hcontinues with ⟨instruction, hnext, hworks⟩ | ⟨hnext, hrests⟩
  · rw [hnext]
    exact .inr ⟨instruction, others, Multiset.singleton_add _ _, hothers, hworks⟩
  · rw [hnext, coe_nil, zero_add]
    exact .inl ⟨hothers, hrests⟩

theorem Works.enter (hworks : loads.Works initial instruction) (hchanges : ¬instruction.ChangesOver)
    (henters : loads.canLoadCheck = false → loads.loadQueue.length < usableSlots ∧
      ¬info.Asks loads.baseVersion) :
    (loads.step (.call info)).2 = [] ∧ (loads.step (.call info)).1.Works initial instruction := by
  have hcan := canLoadCheck_of_loading hworks.fits hchanges
  have henter : loads.step (.call info) = ({ loads with
      loadQueue := loads.loadQueue ++ [info]
      requests := loads.requests ++ [info] }, []) :=
    @enter_of_loading { loads with requests := loads.requests ++ [info] } info hcan
      (henters hcan).1 (henters hcan).2
  rw [henter]
  refine ⟨rfl, hworks.database, ?_, ?_⟩
  · have hfits := hworks.fits
    cases instruction <;> exact hfits
  · simp only [foldl_append, ← hworks.leads]
    rfl

theorem Rests.enter (hrests : loads.Rests initial) (info : PartitionLoadInfo) :
    Continues initial (loads.step (.call info)) := by
  refine enter_of_canLoad hrests.database hrests.canLoad ?_
  have hqueue : ({ loads with requests := loads.requests ++ [info] } : PartitionLoads).loadQueue =
      [] := hrests.queue
  rw [hqueue, foldl_append, ← hrests.served]
  rfl

theorem Ordered.step (hordered : Ordered initial loads (instruction ::ₘ others))
    (hcalm : loads.Calm (instruction ::ₘ others) () instruction) :
    Ordered initial (loads.step instruction).1
      (ofList (loads.step instruction).2 + others) := by
  rcases hordered with ⟨hwaiting, hrests⟩ | ⟨current, rest, hsteps, hwaiting, hworks⟩
  · obtain ⟨info, rfl⟩ := hwaiting instruction (mem_cons_self _ _)
    exact (hrests.enter info).ordered fun other hother =>
      hwaiting other (mem_cons_of_mem hother)
  · rcases Multiset.cons_eq_cons.mp hsteps with ⟨rfl, rfl⟩ | ⟨-, waiting, rfl, rfl⟩
    · exact hworks.step.ordered hwaiting
    · obtain ⟨info, rfl⟩ := hwaiting instruction (mem_cons_self _ _)
      have henters := hcalm info rfl
      obtain ⟨hnext, hworks'⟩ := hworks.enter
        (henters.1 current (mem_cons_of_mem (mem_cons_self _ _))) henters.2
      rw [hnext, coe_nil, zero_add]
      exact .inr ⟨current, waiting, rfl, fun other hother =>
        hwaiting other (mem_cons_of_mem hother), hworks'⟩

theorem Ordered.call {steps : Multiset LoadInstruction} (hordered : Ordered initial loads steps)
    (info : PartitionLoadInfo) : Ordered initial loads (ofList (threads.start info) + steps) := by
  have hcall {waiting : Multiset LoadInstruction} (hwaiting : Waiting waiting) :
      Waiting (.call info ::ₘ waiting) := by
    intro instruction hinstruction
    rcases Multiset.mem_cons.mp hinstruction with rfl | hold
    · exact ⟨info, rfl⟩
    · exact hwaiting instruction hold
  rcases hordered with ⟨hwaiting, hrests⟩ | ⟨current, others, rfl, hwaiting, hworks⟩
  · exact .inl ⟨hcall hwaiting, hrests⟩
  · exact .inr ⟨current, .call info ::ₘ others, Multiset.cons_swap _ _ _, hcall hwaiting, hworks⟩

variable {count : Nat}

abbrev Threads (count : Nat) := Pool count PartitionLoads PartitionLoadInfo LoadInstruction

def calls (pool : Threads count) : Multiset PartitionLoadInfo :=
  pool.steps.filterMap LoadInstruction.called + Multiset.ofList pool.queue

theorem called_enter (loads : PartitionLoads) (info : PartitionLoadInfo) :
    (loads.enter info).1.requests = loads.requests ∧
      (loads.enter info).2.filterMap LoadInstruction.called = [] := by
  cases info <;> simp only [enter, write] <;> split_ifs <;> exact ⟨rfl, rfl⟩

theorem called_step (loads : PartitionLoads) (instruction : LoadInstruction) :
    (loads.step instruction).1.requests = loads.requests ++ instruction.called.toList ∧
      (loads.step instruction).2.filterMap LoadInstruction.called = [] := by
  cases instruction with
  | call info => exact called_enter { loads with requests := loads.requests ++ [info] } info
  | load info =>
    show (loads.enter info).1.requests = loads.requests ++ [] ∧ _
    rw [append_nil]
    exact called_enter loads info
  | ingestBaseData | pushDelta | deltaLoaded => simp [step, LoadInstruction.called]
  | baseLoaded version ingested =>
    cases ingested <;> simp [step, LoadInstruction.called, exchangeBaseVersion]
  | ingestDeltas deltas =>
    cases deltas with
    | nil => simp [step, LoadInstruction.called]
    | cons delta deltas =>
      simp only [step]
      split <;> simp [LoadInstruction.called]
  | ingestDeltaData source version ingests deltas =>
    cases ingests <;> simp [step, LoadInstruction.called]
  | triggerLoadData =>
    simp only [step]
    split <;> simp [LoadInstruction.called]

variable (pool : Threads count)

theorem calls_step (action : Action count Unit PartitionLoadInfo) :
    ofList (pool.step threads action).state.requests + calls (pool.step threads action) =
      ofList pool.state.requests + calls pool + ofList (submitted [action]) := by
  cases action with
  | submit task =>
    have hqueue : calls (pool.step threads (.submit task)) = pool.steps.filterMap
      LoadInstruction.called + (ofList pool.queue + ofList [task]) := rfl
    rw [hqueue, calls, add_assoc, add_assoc]
    rfl
  | run worker met =>
    have hnone : submitted [Action.run worker met] =
        ([] : List PartitionLoadInfo) := rfl
    obtain ⟨others, hsteps, hupdate⟩ := pool.steps_update worker
    rw [hnone, coe_nil, add_zero]
    simp only [Pool.step]
    cases hworker : pool.workers worker with
    | nil =>
      cases hqueue : pool.queue with
      | nil => rfl
      | cons task queue =>
        have hstart : (ofList (threads.start task)).filterMap
            LoadInstruction.called = {task} := rfl
        have hsplit : ofList (task :: queue) = {task} + ofList queue := rfl
        rw [calls, calls, hupdate, hsteps, hworker, hqueue, coe_nil, zero_add,
          filterMap_add, hstart, hsplit]
        dsimp only
        ac_rfl
    | cons instruction rest =>
      obtain ⟨hrequests, hcalled⟩ := called_step pool.state instruction
      have hhead : (ofList (instruction :: rest)).filterMap LoadInstruction.called =
          ofList instruction.called.toList + ofList (rest.filterMap LoadInstruction.called) := by
        rw [filterMap_coe, coe_add, filterMap_cons]
        cases instruction.called <;> rfl
      have hnext : (ofList ((threads.step pool.state met instruction).2 ++ rest)
          ).filterMap LoadInstruction.called = ofList (rest.filterMap LoadInstruction.called) := by
        rw [filterMap_coe, filterMap_append]
        exact congrArg (fun called => ofList (called ++ _)) hcalled
      have hstate : (threads.step pool.state met instruction).1.requests = _ := hrequests
      rw [calls, calls, hupdate, hsteps, hworker, filterMap_add, filterMap_add,
        hhead, hnext, hstate, ← coe_add]
      dsimp only
      ac_rfl

theorem calls_run (actions : List (Action count Unit PartitionLoadInfo)) :
    ofList (pool.run threads actions).state.requests + calls (pool.run threads actions) =
      ofList pool.state.requests + calls pool + ofList (submitted actions) := by
  induction actions generalizing pool with
  | nil => exact (add_zero _).symm
  | cons action actions ih =>
    rw [WorkerPool.submitted_cons, ← coe_add, ← add_assoc, ← calls_step]
    exact ih (pool.step threads action)

theorem requests_perm {version : Version} {actions : List (Action count Unit PartitionLoadInfo)}
    (hfinished : ((Pool.start (start version deltas)).run threads actions).Finished) :
    ((Pool.start (start version deltas)).run threads actions).state.requests.Perm
      (submitted actions) := by
  have hcalls := calls_run (Pool.start (start version deltas)) actions
  have hnone {pool : Threads count} (hpool : pool.Finished) : calls pool = 0 := by
    rw [calls, hpool.1, Pool.steps_of_idle hpool.2]
    rfl
  rw [hnone hfinished, hnone ⟨rfl, fun _ => rfl⟩, add_zero, add_zero] at hcalls
  exact Multiset.coe_eq_coe.mp (hcalls.trans (zero_add _))

end

/-- The requests have taken effect one after another: nothing waits, the last base that was asked
for and could be loaded is served, and the deltas are those that were ingested into it since. -/
structure InOrder (version : Version) (deltas : List Version) (loads : PartitionLoads) : Prop where
  queue : loads.loadQueue = []
  served : loads.served = loads.requests.foldl Served.take (start version deltas).served
  baseVersion : loads.baseVersion = loads.requests.foldl Served.loaded version
  since : loads.served.Since deltas
  apart : loads.served.Apart

/-- When every call enters calmly, the loads take effect in the order of the requests. -/
theorem threads_inOrder {count : Nat} (version : Version) (deltas : List Version)
    (actions : List (Action count Unit PartitionLoadInfo))
    (hfinished : ((Pool.start (start version deltas)).run threads actions).Finished)
    (hcalm : Simulation.Guarded (fun action pool => pool.step threads action)
      (Pool.Allowed Calm) actions (Pool.start (start version deltas))) :
    InOrder version deltas
        ((Pool.start (start version deltas)).run threads actions).state ∧
      ((Pool.start (start version deltas)).run threads actions).state.requests.Perm
        (submitted actions) := by
  have hordered : Ordered (start version deltas).served _ _ :=
    invariant_run (fun _ _ info hordered => hordered.call info)
      (fun _ _ _ _ hordered hcalm => hordered.step hcalm)
      (.inl ⟨by rw [steps_start]; exact nofun, rfl, rfl, rfl, rfl⟩) hcalm
  refine ⟨?_, requests_perm hfinished⟩
  rw [steps_of_idle hfinished.2] at hordered
  rcases hordered with ⟨-, hrests⟩ | ⟨instruction, others, hsteps, -, -⟩
  · refine ⟨hrests.queue, hrests.served, ?_, ?_, ?_⟩
    · exact (congrArg Served.version hrests.served).trans (Served.version_foldl_take _ _)
    · rw [hrests.served]
      refine foldlRecOn _ Served.take ?_ fun _ hsince info _ => hsince.take info
      exact ⟨deltas, [], [], (append_nil _).symm, rfl, nodup_nil, nofun, .inl ⟨rfl, rfl⟩⟩
    · rw [hrests.served]
      exact foldlRecOn _ Served.take nofun fun _ hapart info _ => hapart.take info
  · exact absurd hsteps.symm (Multiset.cons_ne_zero)

def queuedRun : List (Action 2 Unit PartitionLoadInfo) :=
  [.submit (.base [2] true), .submit (.delta [2] [([7], true)]), .run 0 (), .run 1 (), .run 0 (),
    .run 1 ()] ++ replicate 11 (.run 0 ())

theorem threads_inOrder_queued :
    InOrder [1] [] ((Pool.start (start [1] [])).run threads queuedRun).state ∧
      ((Pool.start (start [1] [])).run threads queuedRun).state.requests.Perm
        (submitted queuedRun) :=
  threads_inOrder [1] [] queuedRun (by decide) (by decide)

/-- Three bases are asked for.  The second waits in the queue, and the third comes between the end
of the first and the read of the queue: the second is put back and loaded last. -/
def overtakenRun : List (Action 3 Unit PartitionLoadInfo) :=
  [.submit (.base [2] true), .submit (.base [3] true), .submit (.base [4] true), .run 0 (),
    .run 1 (), .run 2 (), .run 0 (), .run 1 (), .run 0 (), .run 0 (), .run 2 (), .run 0 (),
    .run 0 ()] ++ replicate 7 (.run 2 ())

theorem threads_inOrder_fails :
    ((Pool.start (start [1] [])).run threads overtakenRun).Finished ∧
    ((Pool.start (start [1] [])).run threads overtakenRun).state.requests =
      [.base [2] true, .base [3] true, .base [4] true] ∧
    ((Pool.start (start [1] [])).run threads overtakenRun).state.events =
      [.base [2], .base [4], .base [3]] ∧
    ¬InOrder [1] [] ((Pool.start (start [1] [])).run threads overtakenRun).state := by
  refine ⟨by decide, by decide, by decide, fun horder => ?_⟩
  exact absurd horder.baseVersion (by decide)

end PartitionLoads

end LaserDB
