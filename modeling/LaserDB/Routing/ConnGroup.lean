import LaserDB.Library.DecimalText
import LaserDB.Routing.GoPool

/-!
# The pools of the Go client

`GetConnection` looks a pool up under the text of the host followed by the port.  Goroutines
interleave at the locks of the table and of the pools.
-/

namespace LaserDB.ConnGroup
open WorkerPool GoPool Function Option List

inductive ThriftTransportType
  | header
  | framed
  | http2
  | rsocket
  deriving DecidableEq, Repr

structure ThriftConfig where
  host : Bytes
  port : Int
  transportType : ThriftTransportType
  deriving DecidableEq, Repr

def makeTransport (config : ThriftConfig) : ThriftConfig :=
  { config with transportType := if config.transportType = .framed then .framed else .header }

def ThriftConfig.key (config : ThriftConfig) : Bytes :=
  config.host ++ DecimalText.printInt config.port

structure Entry where
  /-- the configuration that the factory has captured -/
  factory : ThriftConfig
  options : Config
  pool : GoPool.Pool := {}

/-- What a connection was opened to: the first `created` connections are those of the factory. -/
def Entry.opened (entry : Entry) (conn : Nat) : Option ThriftConfig :=
  if conn < entry.pool.created then some (makeTransport entry.factory) else none

structure Group (κ : Type) where
  transport : Bytes → Option Entry := fun _ => none
  /-- the connections that the calls have returned -/
  returned : List (κ × Option ThriftConfig) := []

inductive Call (κ : Type)
  | getConnection (caller : κ) (options : Config)
  | close (caller : κ)

inductive Place (κ : Type)
  | lookup (caller : κ) (options : Config)
  | insert (caller : κ) (options : Config)
  | close (caller : κ)
  | inPool (caller : κ) (step : Step)

def aquired (pool : GoPool.Pool) (met : Met) : Step → Option Nat
  | .check pc => if met.good then some pc.conn else none
  | .create => if met.made then some pool.created else none
  | _ => none

variable {κ : Type}

def Entry.start (entry : Entry) (caller : κ) (call : GoPool.Call) : List (Place κ) :=
  ((GoPool.machine entry.options).start call).map (.inPool caller)

def Group.runSection (configs : κ → ThriftConfig) (group : Group κ) (met : Met) :
    Place κ → Group κ × List (Place κ)
  | .lookup caller options =>
    match group.transport (configs caller).key with
    | some entry => (group, entry.start caller .aquire)
    | none => (group, [.insert caller options])
  | .insert caller options =>
    match group.transport (configs caller).key with
    | some entry => (group, entry.start caller .aquire)
    | none =>
      let entry : Entry := { factory := configs caller, options := options }
      ({ group with
          transport := update group.transport (configs caller).key (some entry) },
        entry.start caller .aquire)
  | .close caller =>
    match group.transport (configs caller).key with
    | some entry => (group, entry.start caller .close)
    | none => (group, [])
  | .inPool caller step =>
    match group.transport (configs caller).key with
    | some entry =>
      let result := GoPool.runSection entry.options entry.pool met step
      let next := { entry with pool := result.1 }
      ({ transport := update group.transport (configs caller).key (some next)
         returned := ((aquired entry.pool met step).map fun conn =>
            (caller, next.opened conn)).toList ++ group.returned },
        result.2.map (.inPool caller))
    | none => (group, [])

def machine (configs : κ → ThriftConfig) : Machine (Group κ) Met (Call κ) (Place κ) where
  start
    | .getConnection caller options => [.lookup caller options]
    | .close caller => [.close caller]
  step := Group.runSection configs

def returned {count : Nat} (configs : κ → ThriftConfig) (actions : List (Action count Met (Call κ))) :
    List (κ × Option ThriftConfig) :=
  ((Pool.start {}).run (machine configs) actions).state.returned

variable {configs : κ → ThriftConfig} {group : Group κ} {entry : Entry} {key : Bytes} {caller : κ}
  {others : Multiset (Place κ)}

def Place.stepIn (configs : κ → ThriftConfig) (key : Bytes) : Place κ → Option Step
  | .inPool caller step => if (configs caller).key = key then some step else none
  | _ => none

def stepsIn (configs : κ → ThriftConfig) (key : Bytes) (places : Multiset (Place κ)) : Multiset Step :=
  places.filterMap (Place.stepIn configs key)

def Fits (configs : κ → ThriftConfig) (key : Bytes) (steps : Multiset Step) : Option Entry → Prop
  | none => steps = 0
  | some entry => (∃ first, (configs first).key = key ∧ entry.factory = configs first) ∧
      Balanced entry.options entry.pool steps

def OfSameKey (configs : κ → ThriftConfig) (answer : κ × Option ThriftConfig) : Prop :=
  ∃ first, (configs first).key = (configs answer.1).key ∧
    answer.2 = some (makeTransport (configs first))

structure Sound (configs : κ → ThriftConfig) (group : Group κ) (places : Multiset (Place κ)) : Prop where
  pools : ∀ key, Fits configs key (stepsIn configs key places) (group.transport key)
  returned : ∀ answer ∈ group.returned, OfSameKey configs answer

variable {place : Place κ}

theorem stepsIn_bare (hbare : place.stepIn configs key = none) :
    stepsIn configs key (place ::ₘ others) = stepsIn configs key others :=
  Multiset.filterMap_cons_none _ _ hbare

theorem sound_bare (hbare : ∀ key, place.stepIn configs key = none) :
    Sound configs group (place ::ₘ others) ↔ Sound configs group others := by
  constructor <;> exact fun hsound =>
    ⟨fun key => by simpa only [stepsIn_bare (hbare key)] using hsound.pools key, hsound.returned⟩

theorem stepsIn_self (caller : κ) (step : Step) :
    stepsIn configs (configs caller).key (.inPool caller step ::ₘ others) =
      step ::ₘ stepsIn configs (configs caller).key others :=
  Multiset.filterMap_cons_some _ _ _ (by simp [Place.stepIn])

open Multiset (ofList)

theorem stepsIn_inPool (steps : List Step) :
    stepsIn configs key (ofList (steps.map (.inPool caller)) + others) =
      if (configs caller).key = key then ofList steps + stepsIn configs key others
      else stepsIn configs key others := by
  have hmap : stepsIn configs key (ofList (steps.map (.inPool caller))) =
      if (configs caller).key = key then ofList steps else 0 := by
    simp only [stepsIn, Multiset.filterMap_coe, filterMap_map]
    split_ifs with hkey <;> simp [comp_def, Place.stepIn, hkey]
  rw [stepsIn, Multiset.filterMap_add]
  change stepsIn .. + stepsIn .. = _
  rw [hmap]
  split_ifs <;> simp

variable (hsound : Sound configs group (place ::ₘ others))
include hsound

theorem Sound.update {next : Group κ} {steps : List Step}
    (hother : ∀ key ≠ (configs caller).key, place.stepIn configs key = none ∧
      next.transport key = group.transport key)
    (hfits : Fits configs (configs caller).key (ofList steps +
      stepsIn configs (configs caller).key others) (next.transport (configs caller).key))
    (hreturned : ∀ answer ∈ next.returned, OfSameKey configs answer) :
    Sound configs next (ofList (steps.map (.inPool caller)) + others) := by
  refine ⟨fun key => ?_, hreturned⟩
  rw [stepsIn_inPool]
  split_ifs with hkey
  · exact hkey ▸ hfits
  · obtain ⟨hplace, hsame⟩ := hother key (Ne.symm hkey)
    rw [hsame, ← stepsIn_bare hplace]
    exact hsound.pools key

theorem Sound.start (hbare : ∀ key, place.stepIn configs key = none)
    (hentry : group.transport (configs caller).key = some entry) (call : GoPool.Call) :
    Sound configs group (ofList (entry.start caller call) + others) := by
  refine hsound.update (fun key _ => ⟨hbare key, rfl⟩) ?_ hsound.returned
  have hfits := hsound.pools (configs caller).key
  rw [hentry, stepsIn_bare (hbare _)] at hfits
  rw [hentry]
  exact ⟨hfits.1, hfits.2.begin call⟩

omit hsound

theorem aquired_lt {config : Config} {pool : GoPool.Pool} {met : Met} {step : Step}
    {steps : Multiset Step} {conn : Nat} (hbalanced : Balanced config pool (step ::ₘ steps))
    (haquired : aquired pool met step = some conn) :
    conn < (GoPool.runSection config pool met step).1.created := by
  unfold aquired at haquired
  split at haquired
  case h_1 pc =>
    obtain ⟨hgood, ⟨⟩⟩ := ite_none_right_eq_some.mp haquired
    simpa [GoPool.runSection, hgood] using hbalanced.fresh pc.conn (by simp [owned, Step.conns])
  case h_2 =>
    obtain ⟨hmade, ⟨⟩⟩ := ite_none_right_eq_some.mp haquired
    simp [GoPool.runSection, hmade]
  case h_3 => cases haquired

theorem Sound.inPool {step : Step} (hsound : Sound configs group (.inPool caller step ::ₘ others))
    (hentry : group.transport (configs caller).key = some entry) (met : Met) :
    Sound configs (group.runSection configs met (.inPool caller step)).1
      (ofList (group.runSection configs met (.inPool caller step)).2 + others) := by
  have hfits := hsound.pools (configs caller).key
  rw [hentry, stepsIn_self] at hfits
  obtain ⟨⟨first, hkey, hfactory⟩, hbalanced⟩ := hfits
  have hnext := hbalanced.runSection met
  simp only [Group.runSection, hentry]
  refine hsound.update (fun key hne => ⟨if_neg (Ne.symm hne), update_of_ne hne ..⟩) ?_ ?_
  · simp only [update_self]
    exact ⟨⟨first, hkey, hfactory⟩, hnext⟩
  · intro answer hanswer
    rcases mem_append.mp hanswer with hnew | hold
    · obtain ⟨conn, hconn, rfl⟩ := map_eq_some_iff.mp (mem_toList.mp hnew)
      refine ⟨first, hkey, ?_⟩
      rw [Entry.opened, if_pos (aquired_lt hbalanced hconn), hfactory]
    · exact hsound.returned answer hold

theorem Sound.runSection (hsound : Sound configs group (place ::ₘ others)) (met : Met) :
    Sound configs (group.runSection configs met place).1
      (ofList (group.runSection configs met place).2 + others) := by
  cases place with
  | lookup caller options =>
    simp only [Group.runSection]
    split
    case h_1 entry hentry => exact hsound.start (fun _ => rfl) hentry _
    case h_2 => exact (sound_bare fun _ => rfl).mpr ((sound_bare fun _ => rfl).mp hsound)
  | insert caller options =>
    simp only [Group.runSection]
    split
    case h_1 entry hentry => exact hsound.start (fun _ => rfl) hentry _
    case h_2 hnone =>
      refine hsound.update (fun key hne => ⟨rfl, update_of_ne hne ..⟩) ?_ hsound.returned
      have hfits := hsound.pools (configs caller).key
      rw [hnone, stepsIn_bare rfl] at hfits
      simp only [update_self]
      exact ⟨⟨caller, rfl, rfl⟩, (hfits : stepsIn .. = 0) ▸ balanced_start.begin _⟩
  | close caller =>
    simp only [Group.runSection]
    split
    case h_1 entry hentry => exact hsound.start (fun _ => rfl) hentry _
    case h_2 => exact (zero_add others).symm ▸ (sound_bare fun _ => rfl).mp hsound
  | inPool caller step =>
    cases hentry : group.transport (configs caller).key with
    | some entry => exact hsound.inPool hentry met
    | none =>
      have hfits := hsound.pools (configs caller).key
      rw [hentry, stepsIn_self] at hfits
      cases Multiset.cons_ne_zero hfits

theorem ofSameKey_returned {count : Nat} (actions : List (Action count Met (Call κ))) :
    ∀ answer ∈ returned configs actions, OfSameKey configs answer := by
  refine Sound.returned (Pool.invariant_run_all ?_ (fun _ met _ _ hsound => hsound.runSection met) ?_)
  · intro group places call hsound
    cases call <;> exact (sound_bare fun _ => rfl).mpr hsound
  · rw [Pool.steps_start]
    exact ⟨fun _ => rfl, by simp [Pool.start]⟩

def twoActive : Config := GoPool.newPoolOptions 2 2 false 1 1 1 Nat.one_pos

def oneByOne (first second : κ) : List (Action 1 Met (Call κ)) :=
  .submit (.getConnection first twoActive) :: replicate 5 (.run 0 {}) ++
    .submit (.getConnection second twoActive) :: replicate 4 (.run 0 {})

theorem mem_returned_oneByOne {first second : κ}
    (hkey : (configs first).key = (configs second).key) :
    (second, some (makeTransport (configs first))) ∈ returned configs (oneByOne first second) := by
  simp [returned, oneByOne, Pool.run, Simulation.finalState, Pool.step, Pool.start, machine,
    Group.runSection, hkey, Entry.start, GoPool.machine, twoActive, GoPool.newPoolOptions,
    GoPool.runSection, pruneBack, takeFront, aquired, Entry.opened]

theorem makeTransport_eq_iff (config : ThriftConfig) :
    makeTransport config = config ↔
      config.transportType = .header ∨ config.transportType = .framed := by
  cases config with
  | mk host port type => cases type <;> simp [makeTransport]

/-- Every call gets a connection to its own endpoint if and only if the transport types are those
that are implemented and callers with the same text of host and port have the same configuration. -/
theorem returned_own_endpoint_iff (configs : κ → ThriftConfig) :
    (∀ (count : Nat) (actions : List (Action count Met (Call κ))),
      ∀ answer ∈ returned configs actions, answer.2 = some (configs answer.1)) ↔
    (∀ caller, (configs caller).transportType = .header ∨ (configs caller).transportType = .framed) ∧
      ∀ first second, (configs first).key = (configs second).key → configs first = configs second := by
  constructor
  · intro hown
    have hshared (first second : κ) (hkey : (configs first).key = (configs second).key) :
        makeTransport (configs first) = configs second :=
      some.inj (hown 1 _ _ (mem_returned_oneByOne hkey))
    have hmade (caller : κ) : makeTransport (configs caller) = configs caller := hshared _ _ rfl
    exact ⟨fun caller => (makeTransport_eq_iff _).mp (hmade caller), fun first second hkey =>
      (hmade first).symm.trans (hshared first second hkey)⟩
  · rintro ⟨htypes, hkeys⟩ count actions answer hanswer
    obtain ⟨first, hkey, hopened⟩ := ofSameKey_returned actions answer hanswer
    rw [hopened, (makeTransport_eq_iff _).mpr (htypes first), hkeys _ _ hkey]

def sameText : Bool → ThriftConfig
  | true => ⟨DecimalText.ascii "laser".toList, 123, .header⟩
  | false => ⟨DecimalText.ascii "laser1".toList, 23, .header⟩

theorem returned_other_endpoint : (sameText true).key = (sameText false).key ∧
    (false, some (sameText true)) ∈ returned sameText (oneByOne true false) ∧
      sameText true ≠ sameText false := by
  have hkey : (sameText true).key = (sameText false).key := by decide
  exact ⟨hkey, mem_returned_oneByOne hkey, by decide⟩

end LaserDB.ConnGroup
