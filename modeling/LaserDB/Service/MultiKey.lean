import LaserDB.Service.LaserService
import LaserDB.Refinement.SetxBatch

/-!
# Requests on many keys

A request answers at each position, and leaves in each engine, what the requests on the single keys
would in the order of the list.
-/

namespace LaserDB

open Scatter

open List RocksDbEngine Function Nat
open Scatter (apart_of_perm collect inOrder itemsOf_perm jobsFrom jobsOf mapState nodup_places
  runAll runGroups)

namespace LaserService
variable {ε α ρ : Type} (service : LaserService ε)

def engineOf (key : TableKey) : Option ε :=
  match service.getDatabaseEngine key with
  | .ok engine => engine
  | .error _ => none

def routes (limit : Option UInt32) (randoms : Nat → UInt32) :
    Nat → List TableKey → List (Option (ε × DispatchRequestItem))
  | _, [] => []
  | index, key :: rest =>
    (service.engineOf key).map (fun engine =>
      (engine, ⟨index, if deniedAt limit randoms index then none else some key.key⟩)) ::
        routes limit randoms (index + 1) rest

def passedTo [DecidableEq ε] (limit : Option UInt32) (randoms : Nat → UInt32) (engine : ε) :
    Nat → List (TableKey × Bytes) → List (LaserKey × Bytes)
  | _, [] => []
  | index, kv :: rest =>
    if service.engineOf kv.1 = some engine ∧ ¬deniedAt limit randoms index then
      (kv.1.key, kv.2) :: passedTo limit randoms engine (index + 1) rest
    else passedTo limit randoms engine (index + 1) rest

/-- The requests on the single keys, one after another, each with the outcome of
the traffic restriction that its position had. -/
def oneByOne [DecidableEq ε]
    (body : Nat → ε → LaserKey → RocksDbEngine → Except Status α × RocksDbEngine)
    (limit : Option UInt32) (randoms : Nat → UInt32) :
    Nat → List TableKey → (ε → RocksDbEngine) → List (Except Status α) × (ε → RocksDbEngine)
  | _, [], engines => ([], engines)
  | index, key :: rest, engines =>
    let result := service.callEngine key (fun engine key db =>
      if deniedAt limit randoms index then (.error .RS_TRAFFIC_RESTRICTION, db)
      else body index engine key db) engines
    let tail := oneByOne body limit randoms (index + 1) rest result.2
    (result.1 :: tail.1, tail.2)

/-- Requests on single keys, one after another, each with a draw of its own. -/
def singles (request : Nat → TableKey → UInt32 → (ε → RocksDbEngine) →
      Except Status α × (ε → RocksDbEngine)) (draws : Nat → UInt32) :
    Nat → List TableKey → (ε → RocksDbEngine) → List (Except Status α) × (ε → RocksDbEngine)
  | _, [], engines => ([], engines)
  | index, key :: rest, engines =>
    let result := request index key (draws index) engines
    let tail := singles request draws (index + 1) rest result.2
    (result.1 :: tail.1, tail.2)

/-- What the traffic restriction of a request on many keys decides for the key at
`index`. -/
def verdictAt (keys : List TableKey) (command : Command) (random : UInt32)
    (randoms : Nat → UInt32) (index : Nat) : Except Status Unit :=
  match service.restrictMultiple keys command random with
  | .error status => .error status
  | .ok limit => if deniedAt limit randoms index then .error .RS_TRAFFIC_RESTRICTION else .ok ()

/-- The traffic restriction decides for the requests `single` on each of the keys
as it does for the request `command` on all of them. -/
def SameVerdicts (keys : List TableKey) (command single : Command) (random : UInt32)
    (randoms draws : Nat → UInt32) : Prop :=
  ∀ index key, keys[index]? = some key →
    service.restrictSingle key single (draws index) =
      service.verdictAt keys command random randoms index

/-- A request on many keys does what single requests did: it is refused where each
of them was, with the same status, and otherwise, in whatever order the hash map is
walked, answers at each position with the reply made of the outcome there. -/
def AsSingles [DecidableEq ε] (keys : List TableKey) (command : Command) (random : UInt32)
    (randoms : Nat → UInt32)
    (serve : List (ε × List DispatchRequestItem) → (ε → RocksDbEngine) × List ρ)
    (reply : Nat → Except Status α → ρ) (engines : ε → RocksDbEngine)
    (single : List (Except Status α) × (ε → RocksDbEngine)) : Prop :=
  match service.dispatchRequest keys command random randoms with
  | .error status => single = (keys.map fun _ => .error status, engines)
  | .ok inserted => ∀ tasks, tasks.Perm inserted → serve tasks = (single.2, single.1.mapIdx reply)

variable {service} {limit : Option UInt32} {randoms : Nat → UInt32} {index : Nat}
  {keys : List TableKey}

theorem getDatabaseEngine_cases (service : LaserService ε) (key : TableKey) :
    (∃ engine, service.getDatabaseEngine key = .ok (some engine)) ∨
      service.getDatabaseEngine key = .error .SERVICE_NOT_EXISTS_PARTITION := by
  unfold getDatabaseEngine
  split
  · exact .inr rfl
  · split
    · exact .inr rfl
    · exact .inl ⟨_, rfl⟩

theorem routes_length (service : LaserService ε) (limit : Option UInt32) (randoms : Nat → UInt32)
    (index : Nat) (keys : List TableKey) :
    (service.routes limit randoms index keys).length = keys.length := by
  induction keys generalizing index with
  | nil => rfl
  | cons key keys ih => exact congrArg succ (ih (index + 1))

theorem routes_getElem? (service : LaserService ε) (limit : Option UInt32)
    (randoms : Nat → UInt32) (index place : Nat) (keys : List TableKey) :
    (service.routes limit randoms index keys)[place]? =
      keys[place]?.map fun key => (service.engineOf key).map fun engine =>
        (engine, ⟨index + place,
          if deniedAt limit randoms (index + place) then none else some key.key⟩) := by
  induction keys generalizing index place with
  | nil => rfl
  | cons key keys ih =>
    cases place with
    | zero => rfl
    | succ place =>
      rw [routes, getElem?_cons_succ, ih, getElem?_cons_succ]
      simp only [add_assoc, add_comm 1]

theorem index_of_mem_jobs {job : Scatter.Job ε DispatchRequestItem}
    (hjob : job ∈ jobsFrom index (service.routes limit randoms index keys)) :
    job.load.index = job.place := by
  induction keys generalizing index with
  | nil => cases hjob
  | cons key keys ih =>
    rw [routes] at hjob
    cases hengine : service.engineOf key with
    | none =>
      rw [hengine] at hjob
      exact ih hjob
    | some engine =>
      rw [hengine] at hjob
      rcases mem_cons.mp hjob with rfl | hrest
      · rfl
      · exact ih hrest

variable [DecidableEq ε]

theorem foldl_dispatchKey (groups : List (ε × List DispatchRequestItem)) :
    (keys.foldl (service.dispatchKey limit randoms) (index, groups)).2 =
      (jobsFrom index (service.routes limit randoms index keys)).foldl
        (fun groups job => push job.owner job.load groups) groups := by
  induction keys generalizing index groups with
  | nil => rfl
  | cons key keys ih =>
    rw [foldl_cons, routes, engineOf, dispatchKey]
    rcases service.getDatabaseEngine_cases key with ⟨engine, hengine⟩ | hengine
    · rw [hengine]
      cases hdenied : deniedAt limit randoms index with
      | true | false => exact ih _
    · rw [hengine]
      exact ih groups

theorem dispatchRequest_ok {command : Command} {random : UInt32}
    (hlimit : service.restrictMultiple keys command random = .ok limit) :
    service.dispatchRequest keys command random randoms =
      .ok (collect (jobsFrom 0 (service.routes limit randoms 0 keys))) := by
  rw [dispatchRequest, hlimit]
  exact congrArg Except.ok (foldl_dispatchKey [])

theorem dispatchRequest_error {command : Command} {random : UInt32} {status : Status}
    (hlimit : service.restrictMultiple keys command random = .error status) :
    service.dispatchRequest keys command random randoms = .error status := by
  rw [dispatchRequest, hlimit]
  rfl

theorem Dispatches.perm {command : Command} {random : UInt32}
    {tasks : List (ε × List DispatchRequestItem)}
    (hdispatches : service.Dispatches keys command random randoms tasks) :
    ∃ limit, service.restrictMultiple keys command random = .ok limit ∧
      tasks.Perm (collect (jobsFrom 0 (service.routes limit randoms 0 keys))) := by
  obtain ⟨inserted, hinserted, hperm⟩ := hdispatches
  cases hlimit : service.restrictMultiple keys command random with
  | error status =>
    rw [dispatchRequest_error hlimit] at hinserted
    cases hinserted
  | ok limit =>
    rw [dispatchRequest_ok hlimit] at hinserted
    cases hinserted
    exact ⟨limit, rfl, hperm⟩

section
variable {command single : Command} {random : UInt32} {draws : Nat → UInt32}
  (hsame : service.SameVerdicts keys command single random randoms draws)
include hsame
omit [DecidableEq ε]

theorem SameVerdicts.refused {status : Status}
    (hrefused : service.restrictMultiple keys command random = .error status)
    (place : Nat) (key : TableKey) (hkey : keys[place]? = some key) :
    service.restrictSingle key single (draws (0 + place)) = .error status := by
  rw [zero_add, hsame place key hkey, verdictAt, hrefused]

theorem SameVerdicts.dispatched (hlimit : service.restrictMultiple keys command random = .ok limit)
    (place : Nat) (key : TableKey) (hkey : keys[place]? = some key) :
    service.restrictSingle key single (draws (0 + place)) =
      if deniedAt limit randoms (0 + place) then .error .RS_TRAFFIC_RESTRICTION else .ok () := by
  rw [zero_add, hsame place key hkey, verdictAt, hlimit]

end

end LaserService

open Prod (ext snd fst)

namespace Callback
open LaserService
variable {ε α ρ : Type} [DecidableEq ε]

/-- The handling of an item in terms of a request on one key and the reply made
of its outcome. -/
def handleWith (body : Nat → ε → LaserKey → RocksDbEngine → Except Status α × RocksDbEngine)
    (reply : Nat → Except Status α → ρ) (engine : ε) (item : DispatchRequestItem)
    (db : RocksDbEngine) : ρ × RocksDbEngine :=
  match item.key with
  | none => (reply item.index (.error .RS_TRAFFIC_RESTRICTION), db)
  | some key =>
    let result := body item.index engine key db
    (reply item.index result.1, result.2)

def replyAt (service : LaserService ε) (fallback : ρ) (reply : Nat → Except Status α → ρ) :
    Nat → List TableKey → List (Except Status α) → List ρ
  | index, key :: keys, outcome :: outcomes =>
    (if (service.engineOf key).isNone then fallback else reply index outcome) ::
      replyAt service fallback reply (index + 1) keys outcomes
  | _, _, _ => []

variable {service : LaserService ε}
  {body : Nat → ε → LaserKey → RocksDbEngine → Except Status α × RocksDbEngine}
  {reply : Nat → Except Status α → ρ} {fallback : ρ} {limit : Option UInt32}
  {randoms : Nat → UInt32} {keys : List TableKey} {tasks : List (ε × List DispatchRequestItem)}

theorem eachItem_eq_runAll (handle : ε → DispatchRequestItem → RocksDbEngine → ρ × RocksDbEngine)
    (tasks : List (ε × List DispatchRequestItem)) (state : (ε → RocksDbEngine) × List ρ) :
    eachItem handle tasks state = runAll handle (jobsOf DispatchRequestItem.index tasks) state := by
  rw [eachItem, runAll, jobsOf, foldl_flatMap]
  congr 1
  funext state task
  rw [foldl_map]
  rfl

theorem inOrder_routes (index : Nat) (engines : ε → RocksDbEngine) :
    inOrder (handleWith body reply) fallback (service.routes limit randoms index keys)
        engines =
      (replyAt service fallback reply index keys
          (service.oneByOne body limit randoms index keys engines).1,
        (service.oneByOne body limit randoms index keys engines).2) := by
  induction keys generalizing index engines with
  | nil => rfl
  | cons key keys ih =>
    have hkey := service.getDatabaseEngine_cases key
    rw [routes, oneByOne, callEngine]
    rcases hkey with ⟨engine, hengine⟩ | hengine
    · have hof : service.engineOf key = some engine := by rw [engineOf, hengine]
      rw [hof, hengine]
      cases hdenied : deniedAt limit randoms index with
      | true | false => simp [inOrder, handleWith, replyAt, hof, ih]
    · have hof : service.engineOf key = none := by rw [engineOf, hengine]
      simp [hof, hengine, inOrder, replyAt, ih]

theorem eachItem_oneByOne
    (hperm : tasks.Perm
      (collect (jobsFrom 0 (service.routes limit randoms 0 keys))))
    (engines : ε → RocksDbEngine) :
    eachItem (handleWith body reply) tasks (engines, replicate keys.length fallback) =
      ((service.oneByOne body limit randoms 0 keys engines).2, replyAt service fallback reply 0 keys
          (service.oneByOne body limit randoms 0 keys engines).1) := by
  rw [eachItem_eq_runAll, ← service.routes_length limit randoms 0 keys,
    runAll_groups (fun job => index_of_mem_jobs) hperm, inOrder_routes]

variable {denied : ρ} {answer : Status → Nat → ρ} {envs : ε → Env} {datas : List Bytes}
  {items : List DispatchRequestItem}

section
variable {batch : Env → RocksDbEngine → List LaserKeyFormatBase → List Bytes →
  Status × Unit × RocksDbEngine}

def batchGroup (batch : Env → RocksDbEngine → List LaserKeyFormatBase → List Bytes →
      Status × Unit × RocksDbEngine)
    (denied : ρ) (answer : Status → Nat → ρ) (envs : ε → Env) (datas : List Bytes) (engine : ε)
    (items : List DispatchRequestItem) (db : RocksDbEngine) : List ρ × RocksDbEngine :=
  let pass := passed datas items
  let result := batch (envs engine) db (pass.map fun item => getFormatKey item.2.1)
    (pass.map fun item => item.2.2)
  (items.map fun item => if item.key.isNone then denied else answer result.1 item.index, result.2.2)

theorem leave_passed (hnodup : (items.map DispatchRequestItem.index).Nodup)
    (denied : ρ) (answer : Nat → ρ) (values : List ρ) :
    (passed datas items).foldl (fun values item => values.set item.1 (answer item.1))
        (items.foldl (fun values item =>
          if item.key.isNone then values.set item.index denied else values) values) =
      leave DispatchRequestItem.index items
        (items.map fun item => if item.key.isNone then denied else answer item.index) values := by
  let set := fun (values : List ρ) (item : DispatchRequestItem) =>
    values.set item.index (if item.key.isNone then denied else answer item.index)
  have hdenied (values : List ρ) : items.foldl (fun values item =>
      if item.key.isNone then values.set item.index denied else values) values =
        (items.filter fun item => item.key.isNone).foldl set values := by
    rw [foldl_filter]
    congr 1
    funext values item
    cases hkey : item.key with
    | none => simp [set, hkey]
    | some key => simp
  have hpassed (values : List ρ) : (passed datas items).foldl
      (fun values item => values.set item.1 (answer item.1)) values =
        (items.filter fun item => !item.key.isNone).foldl set values := by
    rw [passed, foldl_filterMap, foldl_filter]
    congr 1
    funext values item
    cases hkey : item.key with
    | none => simp
    | some key => simp [set, hkey]
  have hperm : (items.filter (fun item => item.key.isNone) ++
      items.filter fun item => !item.key.isNone).Perm items := filter_append_perm _ _
  have hcomm : ∀ first ∈ items, ∀ second ∈ items, ∀ values,
      set (set values first) second = set (set values second) first := by
    intro first hfirst second hsecond values
    by_cases hsame : first.index = second.index
    · rw [inj_on_of_nodup_map hnodup hfirst hsecond hsame]
    · exact set_comm _ _ hsame
  rw [hdenied, hpassed, ← foldl_append, leave_map]
  exact hperm.foldl_eq' (fun first hfirst second hsecond values =>
    hcomm first (hperm.mem_iff.mp hfirst) second (hperm.mem_iff.mp hsecond) values) values

theorem eachBatch_eq_runGroups (hnodup : ∀ task ∈ tasks, (task.2.map DispatchRequestItem.index).Nodup)
    (state : (ε → RocksDbEngine) × List ρ) :
    eachBatch batch denied answer envs datas tasks state =
      runGroups DispatchRequestItem.index (batchGroup batch denied answer envs datas)
        tasks state := by
  induction tasks generalizing state with
  | nil => rfl
  | cons task tasks ih =>
    obtain ⟨htask, hnodup⟩ := forall_mem_cons.mp hnodup
    refine (ih hnodup _).trans (congrArg (runGroups _ _ tasks) ?_)
    refine ext rfl ?_
    exact leave_passed htask denied (answer _) state.2

end

variable {options : SetOptions}

section
variable {reply : Nat → Except Status Nat → ρ}

def pairsOf (datas : List Bytes) (items : List DispatchRequestItem) : List (LaserKey × Bytes) :=
  (passed datas items).map Prod.snd

private def fill (denied : ρ) (answer : Status → Nat → ρ) :
    List DispatchRequestItem → List Status → List ρ
  | [], _ => []
  | ⟨_, none⟩ :: items, statuses => denied :: fill denied answer items statuses
  | ⟨_, some _⟩ :: items, [] => fill denied answer items []
  | ⟨index, some _⟩ :: items, status :: statuses =>
    answer status index :: fill denied answer items statuses

omit [DecidableEq ε] in
theorem batchGroup_eq_fill (engine : ε) (db : RocksDbEngine) :
    batchGroup (fun env db keys datas => db.msetx env keys datas options) denied answer envs datas
        engine items db =
      let pairs := pairsOf datas items
      let result := db.msetx (envs engine) (pairs.map fun pair => getFormatKey pair.1)
        (pairs.map snd) options
      (fill denied answer items (replicate pairs.length result.1), result.2.2) := by
  have hfill (status : Status) : items.map (fun item =>
      if item.key.isNone then denied else answer status item.index) =
        fill denied answer items (replicate (pairsOf datas items).length status) := by
    induction items with
    | nil => rfl
    | cons item items ih =>
      rcases item with ⟨index, key⟩
      cases key with
      | none => exact congrArg (denied :: ·) ih
      | some key => exact congrArg (answer status index :: ·) ih
  simp only [batchGroup, pairsOf, map_map, hfill]
  rfl

theorem fill_injective (hanswer : ∀ index, Function.Injective (answer · index))
    {statuses statuses' : List Status} (hlength : statuses.length = (pairsOf datas items).length)
    (hlength' : statuses'.length = (pairsOf datas items).length)
    (heq : fill denied answer items statuses = fill denied answer items statuses') :
    statuses = statuses' := by
  induction items generalizing statuses statuses' with
  | nil => rw [length_eq_zero_iff.mp hlength, length_eq_zero_iff.mp hlength']
  | cons item items ih =>
    rcases item with ⟨index, key⟩
    cases key with
    | none => exact ih hlength hlength' (cons.inj heq).2
    | some key =>
      match statuses, statuses', hlength, hlength' with
      | status :: statuses, status' :: statuses', hlength, hlength' =>
        obtain ⟨hstatus, hrest⟩ := cons.inj heq
        rw [hanswer index hstatus, ih (succ.inj hlength) (succ.inj hlength') hrest]

theorem mapState_length (step : α → σ → ρ × σ) (items : List α) (state : σ) :
    (mapState step items state).1.length = items.length := by
  induction items generalizing state with
  | nil => rfl
  | cons item items ih => exact congrArg succ (ih _)

variable (hdenied : ∀ index, reply index (.error .RS_TRAFFIC_RESTRICTION) = denied)
  (hanswer : ∀ status index length, reply index (okOr status length) = answer status index)
include hdenied hanswer
omit [DecidableEq ε]

theorem mapState_eq_fill (engine : ε) (db : RocksDbEngine) :
    mapState (handleWith (fun index =>
        setxBody envs options (datas.getD index [])) reply engine) items db =
      (fill denied answer items (setxAll (envs engine) options (pairsOf datas items) db).1,
        (setxAll (envs engine) options (pairsOf datas items) db).2) := by
  induction items generalizing db with
  | nil => rfl
  | cons item items ih =>
    rcases item with ⟨index, key⟩
    cases key with
    | none =>
      simp only [mapState, handleWith, hdenied, ih]
      rfl
    | some key =>
      simp only [mapState, handleWith, setxBody, hanswer, ih]
      rfl

theorem batchGroup_eq_mapState (engine : ε) (db : RocksDbEngine)
    (hunhindered : Unhindered (envs engine) options db (pairsOf datas items)) :
    batchGroup (fun env db keys datas => db.msetx env keys datas options) denied answer envs datas
        engine items db =
      mapState (handleWith (fun index =>
        setxBody envs options (datas.getD index [])) reply engine) items db := by
  rw [mapState_eq_fill hdenied hanswer, batchGroup_eq_fill, setxAll_eq_msetx_iff.mpr hunhindered]

theorem unhindered_of_batchGroup_eq
    (hinjective : ∀ index, Function.Injective (answer · index)) {engine : ε} {db : RocksDbEngine}
    (heq : batchGroup (fun env db keys datas => db.msetx env keys datas options) denied answer envs
        datas engine items db =
      mapState (handleWith (fun index =>
        setxBody envs options (datas.getD index [])) reply engine) items db) :
    Unhindered (envs engine) options db (pairsOf datas items) := by
  rw [mapState_eq_fill hdenied hanswer, batchGroup_eq_fill] at heq
  obtain ⟨hstatuses, hdb⟩ := Prod.mk.inj heq
  refine setxAll_eq_msetx_iff.mp (ext ?_ hdb.symm)
  exact (fill_injective hinjective (by simp) (mapState_length _ _ _) hstatuses).symm

end

variable {engines : ε → RocksDbEngine}

section

def mgetReply : Except Status Bytes → LaserValueReply
  | .ok value => .stringValue value
  | .error _ => .nullValue

def entryReply : Except Status Bytes → LaserValueReply
  | .ok value => .entryValue .OK value
  | .error status => .entryValue status []

def statusReply : Except Status α → LaserValueReply
  | .ok _ => .entryValue .OK []
  | .error status => .entryValue status []

def msetReply (index : Nat) : Except Status α → Int64
  | .ok _ => Int64.ofNat index
  | .error _ => -1

section
omit [DecidableEq ε]

theorem mgetItem_eq :
    mgetItem envs = handleWith (fun _ => getBody envs) fun _ => mgetReply := by
  funext engine item db
  unfold mgetItem handleWith getBody
  cases item.key with
  | none => rfl
  | some key =>
    dsimp only
    rcases db.get (envs engine) (getFormatKey key) with ⟨status, value⟩
    cases status <;> rfl

theorem mgetDetailItem_eq :
    mgetDetailItem envs = handleWith (fun _ => getBody envs) fun _ => entryReply := by
  funext engine item db
  unfold mgetDetailItem handleWith getBody
  cases item.key with
  | none => rfl
  | some key =>
    dsimp only
    rcases db.get (envs engine) (getFormatKey key) with ⟨status, value⟩
    cases status <;> rfl

theorem mdelItem_eq :
    mdelItem envs = handleWith (fun _ => delkeyBody envs) fun _ => statusReply := by
  funext engine item db
  unfold mdelItem handleWith delkeyBody
  cases item.key with
  | none => rfl
  | some key =>
    dsimp only
    rcases db.delkey (envs engine) (getFormatKey key) with ⟨status, _, db⟩
    cases status <;> rfl

end

omit [DecidableEq ε] in
theorem replyAt_eq_iff {outcomes : List (Except Status α)} {index : Nat}
    (hlength : outcomes.length = keys.length) :
    replyAt service fallback reply index keys outcomes =
        outcomes.mapIdx (fun place outcome => reply (index + place) outcome) ↔
      ∀ place key outcome, keys[place]? = some key → outcomes[place]? = some outcome →
        service.engineOf key = none → reply (index + place) outcome = fallback := by
  induction keys generalizing index outcomes with
  | nil =>
    rw [length_eq_zero_iff.mp hlength]
    exact iff_of_true rfl nofun
  | cons key keys ih =>
    match outcomes, hlength with
    | outcome :: outcomes, hlength =>
      have hshift (place : Nat) : index + (place + 1) = index + 1 + place := by omega
      have hhead : (if (service.engineOf key).isNone then fallback else reply index outcome) =
          reply index outcome ↔ (service.engineOf key = none → reply index outcome = fallback) := by
        cases service.engineOf key with
        | none => simp [eq_comm]
        | some engine => simp
      have hmap : (outcomes.mapIdx fun place => reply (index + (place + 1))) =
          outcomes.mapIdx fun place => reply (index + 1 + place) := by
        congr 1
        funext place
        rw [hshift]
      rw [replyAt, mapIdx_cons, cons.injEq, add_zero, hhead, hmap, ih (succ.inj hlength)]
      constructor
      · rintro ⟨hfirst, hrest⟩ (_ | place) found reached hkey houtcome
        · cases hkey
          cases houtcome
          exact hfirst
        · rw [hshift]
          exact hrest place found reached hkey houtcome
      · intro hall
        refine ⟨hall 0 key outcome rfl rfl, fun place found reached hkey houtcome => ?_⟩
        rw [← hshift]
        exact hall (place + 1) found reached hkey houtcome

section
variable {single : Command} {draws : Nat → UInt32}

omit [DecidableEq ε] in
theorem singles_length {request : Nat → TableKey → UInt32 → (ε → RocksDbEngine) →
      Except Status α × (ε → RocksDbEngine)} (index : Nat) (engines : ε → RocksDbEngine) :
    (singles request draws index keys engines).1.length = keys.length := by
  induction keys generalizing index engines with
  | nil => rfl
  | cons key keys ih => exact congrArg succ (ih _ _)

theorem singles_refused {index : Nat} {status : Status}
    (hrefused : ∀ place key, keys[place]? = some key →
      service.restrictSingle key single (draws (index + place)) = .error status)
    (engines : ε → RocksDbEngine) :
    singles (fun index key => service.commonCallEngine key (body index) single) draws index keys
        engines = (keys.map fun _ => .error status, engines) := by
  induction keys generalizing index with
  | nil => rfl
  | cons key keys ih =>
    have hkey : service.restrictSingle key single (draws index) = .error status :=
      hrefused 0 key rfl
    have hrest := @ih (index + 1) fun place found hfound => by
      rw [add_assoc, add_comm 1]
      exact hrefused (place + 1) found hfound
    simp only [singles, commonCallEngine, hkey, hrest, map_cons]

variable {index : Nat} (hverdicts : ∀ place key, keys[place]? = some key →
  service.restrictSingle key single (draws (index + place)) =
    if deniedAt limit randoms (index + place) then .error .RS_TRAFFIC_RESTRICTION else .ok ())
include hverdicts

/-- Only at a key without partition do the single requests answer otherwise than
behind the partition: a denied one is denied before. -/
theorem replyAt_singles (engines : ε → RocksDbEngine) :
    let single := singles (fun index key => service.commonCallEngine key (body index) single) draws
      index keys engines
    let behind := service.oneByOne body limit randoms index keys engines
    replyAt service fallback reply index keys single.1 =
      replyAt service fallback reply index keys behind.1 ∧ single.2 = behind.2 := by
  induction keys generalizing index engines with
  | nil => exact ⟨rfl, rfl⟩
  | cons key keys ih =>
    have hkey := hverdicts 0 key rfl
    have hrest := @ih (index + 1) fun place found hfound => by
      rw [add_assoc, add_comm 1]
      exact hverdicts (place + 1) found hfound
    rw [add_zero] at hkey
    simp only [singles, oneByOne, replyAt, commonCallEngine, callEngine, hkey]
    rcases service.getDatabaseEngine_cases key with ⟨engine, hengine⟩ | hengine
    · rw [hengine]
      cases hdenied : deniedAt limit randoms index with
      | true =>
        obtain ⟨hreplies, hengines⟩ := hrest engines
        simp [update_eq_self, hreplies, hengines]
      | false =>
        obtain ⟨hreplies, hengines⟩ :=
          hrest (update engines engine (body index engine key.key (engines engine)).2)
        simp [hreplies, hengines]
    · have hof : service.engineOf key = none := by rw [engineOf, hengine]
      obtain ⟨hreplies, hengines⟩ := hrest engines
      rw [hengine]
      cases hdenied : deniedAt limit randoms index with
      | true | false => simp [hof, hreplies, hengines]

theorem singles_missing {place : Nat} {key : TableKey} {outcome : Except Status α}
    (hkey : keys[place]? = some key) (hmissing : service.engineOf key = none)
    (engines : ε → RocksDbEngine)
    (houtcome : (singles (fun index key => service.commonCallEngine key (body index) single) draws
      index keys engines).1[place]? = some outcome) :
    outcome = .error .RS_TRAFFIC_RESTRICTION ∨ outcome = .error .SERVICE_NOT_EXISTS_PARTITION := by
  induction keys generalizing place index engines with
  | nil => cases hkey
  | cons first keys ih =>
    cases place with
    | zero =>
      cases hkey
      cases houtcome
      have hverdict := hverdicts 0 key rfl
      rw [add_zero] at hverdict
      simp only [commonCallEngine, hverdict]
      cases deniedAt limit randoms index with
      | true => exact .inl rfl
      | false =>
        rcases service.getDatabaseEngine_cases key with ⟨engine, hengine⟩ | hengine
        · simp [engineOf, hengine] at hmissing
        · simp [callEngine, hengine]
    | succ place =>
      refine ih (fun place found hfound => ?_) hkey _ houtcome
      rw [add_assoc, add_comm 1]
      exact hverdicts (place + 1) found hfound

end

theorem oneByOne_missing {place : Nat} {key : TableKey} (hkey : keys[place]? = some key)
    (hmissing : service.engineOf key = none) (index : Nat) (engines : ε → RocksDbEngine) :
    (service.oneByOne body limit randoms index keys engines).1[place]? =
      some (.error .SERVICE_NOT_EXISTS_PARTITION) := by
  induction keys generalizing place index engines with
  | nil => cases hkey
  | cons first keys ih =>
    cases place with
    | zero =>
      cases hkey
      rcases service.getDatabaseEngine_cases key with ⟨engine, hengine⟩ | hengine
      · simp [engineOf, hengine] at hmissing
      · simp [oneByOne, callEngine, hengine]
    | succ place => exact ih hkey _ _

omit [DecidableEq ε] in
theorem replyAt_of_engines {reply : Except Status α → ρ}
    (hengines : ∀ key ∈ keys, (service.engineOf key).isSome) (index : Nat)
    {outcomes : List (Except Status α)} (hlength : outcomes.length = keys.length) :
    replyAt service fallback (fun _ => reply) index keys outcomes = outcomes.map reply := by
  have hmapIdx : (outcomes.mapIdx fun _ => reply) = outcomes.map reply :=
    ext_getElem? fun place => by simp
  refine ((replyAt_eq_iff hlength).mpr fun place key outcome hkey _ hmissing => ?_).trans hmapIdx
  have hsome := hengines key (mem_of_getElem? hkey)
  rw [hmissing] at hsome
  cases hsome

theorem oneByOne_length (index : Nat) (engines : ε → RocksDbEngine) :
    (service.oneByOne body limit randoms index keys engines).1.length = keys.length := by
  induction keys generalizing index engines with
  | nil => rfl
  | cons key keys ih => exact congrArg succ (ih _ _)

end

variable {reply : Nat → Except Status Nat → ρ}
  (hperm : tasks.Perm (collect (jobsFrom 0 (service.routes limit randoms 0 keys))))
include hperm

theorem eachBatch_eq_eachItem_iff :
    eachBatch (fun env db keys datas => db.msetx env keys datas options) denied answer envs datas
          tasks (engines, replicate keys.length fallback) =
        eachItem (handleWith (fun index =>
          setxBody envs options (datas.getD index [])) reply) tasks
          (engines, replicate keys.length fallback) ↔
      ∀ task ∈ tasks,
        batchGroup (fun env db keys datas => db.msetx env keys datas options) denied answer envs
            datas task.1 task.2 (engines task.1) =
          mapState (handleWith (fun index =>
            setxBody envs options (datas.getD index [])) reply task.1) task.2
            (engines task.1) := by
  obtain ⟨hdistinct, hapart, hnodup, hjobs⟩ := apart_of_perm
    (fun job => index_of_mem_jobs) (nodup_places 0 _) hperm
  have hbound : ∀ task ∈ tasks, ∀ item ∈ task.2, item.index < keys.length := by
    intro task htask item hitem
    obtain ⟨job, hjob, -, rfl⟩ := hjobs task htask item hitem
    have hlt := place_lt_of_mem hjob
    rw [routes_length, zero_add] at hlt
    rwa [index_of_mem_jobs hjob]
  rw [eachBatch_eq_runGroups hnodup, eachItem_eq_runAll, runAll_eq_runGroups]
  refine runGroups_eq_iff hdistinct hapart hnodup ?_ ?_ ?_
  · simpa only [length_replicate] using hbound
  · exact fun _ _ _ => length_map _
  · exact fun _ _ _ => mapState_length _ _ _

omit hperm in
theorem mset_eq_msetx (env : Env) (db : RocksDbEngine) (keys : List LaserKeyFormatBase)
    (datas : List Bytes) : db.mset env keys datas = db.msetx env keys datas {} := rfl

omit hperm [DecidableEq ε] in
theorem ssetBody_eq (value : Bytes) :
    ssetBody envs value = setxBody envs {} value := rfl

theorem mset_oneByOne (hdatas : datas.length = keys.length) :
    mset envs engines datas tasks =
      ((service.oneByOne (fun index => ssetBody envs (datas.getD index [])) limit
          randoms 0 keys engines).2,
        replyAt service (-1) msetReply 0 keys
          (service.oneByOne (fun index => ssetBody envs (datas.getD index [])) limit
            randoms 0 keys engines).1) := by
  have hanswer (status : Status) (index length : Nat) :
      msetReply index (okOr status length) = msetAnswer status index := by
    unfold okOr msetAnswer
    split <;> simp [msetReply, *]
  have hbatch : eachBatch (fun env db keys datas => db.msetx env keys datas {}) (-1) msetAnswer envs
        datas tasks (engines, replicate keys.length (-1)) =
      eachItem (handleWith (fun index => setxBody envs {} (datas.getD index []))
        msetReply) tasks (engines, replicate keys.length (-1)) :=
    (eachBatch_eq_eachItem_iff hperm).mpr fun task _ =>
      batchGroup_eq_mapState (fun _ => rfl) hanswer task.1 _ nofun
  simp only [mset, mset_eq_msetx, hdatas, hbatch, ssetBody_eq]
  rw [eachItem_oneByOne hperm]

variable {kvs : List (TableKey × Bytes)}

omit hperm in
theorem pairsOf_jobs {index : Nat} (engine : ε)
    (hdatas : ∀ place, datas.getD (index + place) [] = (kvs.map snd).getD place []) :
    pairsOf datas (((jobsFrom index
        (service.routes limit randoms index (kvs.map fst))).filter
          (·.owner = engine)).map Scatter.Job.load) =
      service.passedTo limit randoms engine index kvs := by
  induction kvs generalizing index with
  | nil => rfl
  | cons kv kvs ih =>
    have hdata : datas.getD index [] = kv.2 := hdatas 0
    have hrest := @ih (index + 1) fun place => by
      rw [add_assoc, add_comm 1, hdatas]
      rfl
    rw [map_cons, routes, passedTo]
    cases hengine : service.engineOf kv.1 with
    | none => exact hrest
    | some found =>
      rw [Option.map_some, jobsFrom, filter_cons]
      by_cases hsame : found = engine
      · subst hsame
        cases hdenied : deniedAt limit randoms index with
        | true => simpa [pairsOf, passed] using hrest
        | false =>
          rw [getD_eq_getElem?_getD] at hdata
          simpa [pairsOf, passed, hdata] using hrest
      · simpa [hsame] using hrest

theorem itemsOf_passedTo (hkeys : keys = kvs.map fst) (engine : ε) :
    pairsOf (kvs.map snd) (itemsOf tasks engine) =
      service.passedTo limit randoms engine 0 kvs := by
  rw [itemsOf_perm (distinct_collect _) hperm, itemsOf_collect, hkeys]
  exact pairsOf_jobs engine fun place => by rw [zero_add]

theorem forall_unhindered_iff (hkeys : keys = kvs.map fst) :
    (∀ task ∈ tasks, Unhindered (envs task.1) options (engines task.1)
        (pairsOf (kvs.map snd) task.2)) ↔
      ∀ engine, Unhindered (envs engine) options (engines engine)
        (service.passedTo limit randoms engine 0 kvs) := by
  have htask (task : ε × List DispatchRequestItem) (hmem : task ∈ tasks) :
      pairsOf (kvs.map snd) task.2 = service.passedTo limit randoms task.1 0 kvs := by
    rw [← itemsOf_passedTo hperm hkeys, itemsOf_perm (distinct_collect _) hperm,
      itemsOf_collect, items_eq hperm hmem]
  constructor
  · intro htasks engine
    by_cases hmem : engine ∈ tasks.map fst
    · obtain ⟨task, htaskMem, rfl⟩ := mem_map.mp hmem
      exact htask task htaskMem ▸ htasks task htaskMem
    · rw [← itemsOf_passedTo hperm hkeys, itemsOf_eq_nil hmem]
      exact fun _ => ⟨nofun, fun _ => List.Pairwise.nil⟩
  · intro hengines task hmem
    exact htask task hmem ▸ hengines task.1

omit hperm [DecidableEq ε] in
theorem statusReply_okOr (status : Status) (length : Nat) :
    statusReply (okOr status length) = .entryValue status [] := by
  unfold okOr
  split
  · simp [statusReply, *]
  · rfl

theorem msetDetail_eq_eachItem_iff (hkeys : keys = kvs.map fst) :
    msetDetail options envs engines (kvs.map snd) tasks = eachItem (handleWith (fun index =>
          setxBody envs options ((kvs.map snd).getD index []))
          fun _ => statusReply) tasks
          (engines, replicate keys.length (.entryValue .UNKNOWN_ERROR [])) ↔
      ∀ engine, Unhindered (envs engine) options (engines engine)
        (service.passedTo limit randoms engine 0 kvs) := by
  have hlength : (kvs.map snd).length = keys.length := by simp [hkeys]
  rw [← forall_unhindered_iff hperm hkeys, msetDetail, hlength, eachBatch_eq_eachItem_iff hperm]
  refine forall₂_congr fun task _ => ⟨?_, ?_⟩
  · exact unhindered_of_batchGroup_eq (fun _ => rfl) (fun status _ => statusReply_okOr status)
      fun _ _ _ heq => (LaserValueReply.entryValue.inj heq).1
  · exact batchGroup_eq_mapState (fun _ => rfl) (fun status _ => statusReply_okOr status) task.1 _

theorem msetDetail_missing (options : SetOptions) (envs : ε → Env) (engines : ε → RocksDbEngine)
    {index : Nat} {key : TableKey} (hkey : keys[index]? = some key)
    (hmissing : service.engineOf key = none) (datas : List Bytes)
    (hdatas : datas.length = keys.length) :
    (msetDetail options envs engines datas tasks).2[index]? =
      some (.entryValue .UNKNOWN_ERROR []) := by
  obtain ⟨-, -, hnodup, hjobs⟩ := apart_of_perm
    (fun job => index_of_mem_jobs) (nodup_places 0 _) hperm
  have hlt := (List.getElem?_eq_some_iff.mp hkey).1
  rw [msetDetail, eachBatch_eq_runGroups hnodup, runGroups_get_other,
    List.getElem?_replicate, if_pos (hdatas ▸ hlt)]
  intro task htask hindex
  obtain ⟨item, hitem, hplace⟩ := List.mem_map.mp hindex
  obtain ⟨job, hjob, -, rfl⟩ := hjobs task htask item hitem
  obtain ⟨place, hjobPlace, hroute⟩ := route_of_mem hjob
  rw [index_of_mem_jobs hjob, hjobPlace, zero_add] at hplace
  subst hplace
  rw [service.routes_getElem? limit randoms, hkey, Option.map_some, hmissing] at hroute
  cases hroute

end Callback

variable {ε : Type} [DecidableEq ε]

open Callback LaserService

section
variable {α ρ : Type} {service : LaserService ε} {keys : List TableKey} {command single : Command}
  {random : UInt32} {randoms draws : Nat → UInt32}
  {serve : List (ε × List DispatchRequestItem) → (ε → RocksDbEngine) × List ρ}
  {body : Nat → ε → LaserKey → RocksDbEngine → Except Status α × RocksDbEngine}
  {reply : Nat → Except Status α → ρ} {fallback : ρ} {engines : ε → RocksDbEngine}
  (hsame : service.SameVerdicts keys command single random randoms draws)
  (hserve : ∀ limit tasks,
    tasks.Perm (collect (jobsFrom 0 (service.routes limit randoms 0 keys))) →
      serve tasks = ((service.oneByOne body limit randoms 0 keys engines).2,
        replyAt service fallback reply 0 keys
          (service.oneByOne body limit randoms 0 keys engines).1))
include hsame hserve

/-- All is left to the positions whose key has no partition, which keep the entry
that every position starts with. -/
theorem asSingles_iff :
    let outcomes := singles (fun index key => service.commonCallEngine key (body index) single)
      draws 0 keys engines
    service.AsSingles keys command random randoms serve reply engines outcomes ↔
      ∀ limit, service.restrictMultiple keys command random = .ok limit →
        ∀ place key outcome, keys[place]? = some key → outcomes.1[place]? = some outcome →
          service.engineOf key = none → reply place outcome = fallback := by
  intro outcomes
  rw [AsSingles]
  cases hlimit : service.restrictMultiple keys command random with
  | error status =>
    rw [dispatchRequest_error hlimit]
    exact iff_of_true (singles_refused (hsame.refused hlimit) engines) nofun
  | ok limit =>
    have hreplies : replyAt service fallback reply 0 keys outcomes.1 = _ ∧ outcomes.2 = _ :=
      replyAt_singles (hsame.dispatched hlimit) engines
    have hmapIdx : replyAt service fallback reply 0 keys outcomes.1 =
        (outcomes.1.mapIdx fun place outcome => reply (0 + place) outcome) ↔ _ :=
      replyAt_eq_iff (singles_length 0 engines)
    simp only [Nat.zero_add] at hmapIdx
    simp only [dispatchRequest_ok hlimit, Except.ok.injEq, forall_eq']
    refine Iff.trans ⟨fun hall => ?_, fun heq tasks hperm => ?_⟩ hmapIdx
    · have hinserted := hall _ (List.Perm.refl _)
      rw [hserve limit _ (List.Perm.refl _), ← hreplies.1] at hinserted
      exact (Prod.mk.inj hinserted).2
    · rw [hserve limit tasks hperm, ← hreplies.1, ← hreplies.2, heq]

theorem asSingles_of_fallback (hfallback : ∀ index status, reply index (.error status) = fallback) :
    service.AsSingles keys command random randoms serve reply engines
      (singles (fun index key => service.commonCallEngine key (body index) single) draws 0 keys
        engines) := by
  refine (asSingles_iff hsame hserve).mpr fun limit hlimit place key outcome hkey houtcome
    hmissing => ?_
  rcases singles_missing (hsame.dispatched hlimit) hkey hmissing engines houtcome with rfl | rfl
  · exact hfallback _ _
  · exact hfallback _ _

variable (fallback) in
theorem asSingles_iff_partitions
    (htraffic : ∀ index, reply index (.error .RS_TRAFFIC_RESTRICTION) ≠ fallback)
    (hpartition : ∀ index, reply index (.error .SERVICE_NOT_EXISTS_PARTITION) ≠ fallback) :
    service.AsSingles keys command random randoms serve reply engines
        (singles (fun index key => service.commonCallEngine key (body index) single) draws 0 keys
          engines) ↔
      (∃ status, service.restrictMultiple keys command random = .error status) ∨
        ∀ key ∈ keys, (service.engineOf key).isSome := by
  refine (asSingles_iff hsame hserve).trans ?_
  cases hlimit : service.restrictMultiple keys command random with
  | error status => exact iff_of_true nofun (.inl ⟨status, rfl⟩)
  | ok limit =>
    simp only [Except.ok.injEq, forall_eq', reduceCtorEq, exists_false, false_or]
    constructor
    · intro hall key hkey
      rw [Option.isSome_iff_ne_none]
      intro hmissing
      obtain ⟨place, hplace⟩ := mem_iff_getElem?.mp hkey
      have hlt := (List.getElem?_eq_some_iff.mp hplace).1
      rw [← singles_length 0 engines] at hlt
      have hoverwritten := hall place key _ hplace (List.getElem?_eq_getElem hlt) hmissing
      rcases singles_missing (hsame.dispatched hlimit) hplace hmissing engines
        (List.getElem?_eq_getElem hlt) with houtcome | houtcome
      · exact htraffic place (houtcome ▸ hoverwritten)
      · exact hpartition place (houtcome ▸ hoverwritten)
    · intro hall place key outcome hkey houtcome hmissing
      have hsome := hall key (mem_of_getElem? hkey)
      rw [hmissing] at hsome
      cases hsome

end

/-- A service with one engine, of the partition 0 of the table `tableName`. -/
def oneTable (tableName : Bytes) : LaserService Unit where
  tableSchemaHash _ _ := 0
  trafficRestrictionConfig _ := none
  partitionId key := if key.tableName = tableName then some 0 else none
  databaseHandler _ _ _ := some ()

/-- A request on many keys for which the traffic restriction decides as for the
requests on the single keys does what these do, one after another: `mget` and `mset`
always, `mgetDetail` and `mdel` exactly when they are refused or every key has its
partition. -/
theorem multiKey_asSingles_iff (service : LaserService ε) (envs : ε → Env)
    (engines : ε → RocksDbEngine) (random : UInt32) (randoms draws : Nat → UInt32) :
    (∀ keys, service.SameVerdicts keys .mget .get random randoms draws →
      service.AsSingles keys .mget random randoms (mget envs engines keys) (fun _ => mgetReply)
        engines (singles (fun _ key => service.get envs key) draws 0 keys engines)) ∧
    (∀ keys, service.SameVerdicts keys .mgetDetail .get random randoms draws →
      (service.AsSingles keys .mgetDetail random randoms (mgetDetail envs engines keys)
          (fun _ => entryReply) engines
          (singles (fun _ key => service.get envs key) draws 0 keys engines) ↔
        (∃ status, service.restrictMultiple keys .mgetDetail random = .error status) ∨
          ∀ key ∈ keys, (service.engineOf key).isSome)) ∧
    (∀ kvs : List (TableKey × Bytes),
      service.SameVerdicts (kvs.map Prod.fst) .mset .set random randoms draws →
      service.AsSingles (kvs.map Prod.fst) .mset random randoms
        (mset envs engines (kvs.map Prod.snd)) msetReply engines
        (singles (fun index key => service.sset envs key ((kvs.map Prod.snd).getD index [])) draws 0
          (kvs.map Prod.fst) engines)) ∧
    (∀ keys, service.SameVerdicts keys .mdel .delkey random randoms draws →
      (service.AsSingles keys .mdel random randoms (mdel envs engines keys) (fun _ => statusReply)
          engines (singles (fun _ key => service.delkey envs key) draws 0 keys engines) ↔
        (∃ status, service.restrictMultiple keys .mdel random = .error status) ∨
          ∀ key ∈ keys, (service.engineOf key).isSome)) := by
  refine ⟨fun keys hsame => ?_, fun keys hsame => ?_, fun kvs hsame => ?_, fun keys hsame => ?_⟩
  · refine asSingles_of_fallback hsame (fun limit tasks hperm => ?_) fun _ _ => rfl
    rw [mget, mgetItem_eq, eachItem_oneByOne hperm]
  · refine asSingles_iff_partitions (.entryValue .UNKNOWN_ERROR []) hsame
      (fun limit tasks hperm => ?_) (by simp [entryReply]) (by simp [entryReply])
    rw [mgetDetail, mgetDetailItem_eq, eachItem_oneByOne hperm]
  · exact asSingles_of_fallback hsame (fun limit tasks hperm => mset_oneByOne hperm (by simp))
      fun _ _ => rfl
  · refine asSingles_iff_partitions (.entryValue .UNKNOWN_ERROR []) hsame
      (fun limit tasks hperm => ?_) (by simp [statusReply]) (by simp [statusReply])
    rw [mdel, mdelItem_eq, eachItem_oneByOne hperm]

/-- A table with a limit by keys, which lets the positions 0 and 2 pass and denies
position 1, and a table that is denied altogether. -/
theorem multiKey_asSingles_limited :
    let service : LaserService Unit := { oneTable [2] with
      tableSchemaHash := fun _ tableName => if tableName = [2] then 0 else 1
      trafficRestrictionConfig := fun hash =>
        some ⟨hash = 1, fun _ => some 50, fun _ => some ⟨.KPS, 50⟩⟩ }
    let draws : Nat → UInt32 := fun index => if index = 1 then 80 else 20
    let keys : List TableKey := [⟨[1], [2], ⟨[[97]], []⟩⟩, ⟨[1], [2], ⟨[[98]], []⟩⟩,
      ⟨[1], [2], ⟨[[98]], []⟩⟩]
    let closed : List TableKey := [⟨[1], [3], ⟨[[97]], []⟩⟩]
    let envs : Unit → Env := fun _ => Env.at 1
    let engines : Unit → RocksDbEngine := fun _ =>
      (RocksDbEngine.fresh.set (Env.at 1) (getFormatKey ⟨[[97]], []⟩) [7]).2.2
    let tasks : List (Unit × List DispatchRequestItem) :=
      [((), [⟨0, some ⟨[[97]], []⟩⟩, ⟨1, none⟩, ⟨2, some ⟨[[98]], []⟩⟩])]
    service.dispatchRequest keys .mgetDetail 1 draws = .ok tasks ∧
      (mgetDetail envs engines keys tasks).2 = [.entryValue .OK [7],
        .entryValue .RS_TRAFFIC_RESTRICTION [], .entryValue .RS_NOT_FOUND []] ∧
      service.AsSingles keys .mget 1 draws (mget envs engines keys) (fun _ => mgetReply) engines
        (singles (fun _ key => service.get envs key) draws 0 keys engines) ∧
      service.AsSingles keys .mgetDetail 1 draws (mgetDetail envs engines keys)
        (fun _ => entryReply) engines
        (singles (fun _ key => service.get envs key) draws 0 keys engines) ∧
      service.AsSingles keys .mset 1 draws (mset envs engines [[1], [2], [3]]) msetReply engines
        (singles (fun index key => service.sset envs key ([[1], [2], [3]].getD index [])) draws 0
          keys engines) ∧
      service.AsSingles closed .mdel 1 draws (mdel envs engines closed) (fun _ => statusReply)
        engines (singles (fun _ key => service.delkey envs key) draws 0 closed engines) := by
  intro service draws keys closed envs engines tasks
  obtain ⟨hmget, hmgetDetail, hmset, hmdel⟩ :=
    multiKey_asSingles_iff service envs engines 1 draws draws
  have hsame (command single : Command) :
      service.SameVerdicts keys command single 1 draws draws := by
    rintro (_ | _ | _ | place) key hkey <;> cases hkey <;> rfl
  have hclosed : service.SameVerdicts closed .mdel .delkey 1 draws draws := by
    rintro (_ | place) key hkey <;> cases hkey
    rfl
  refine ⟨rfl, by decide, hmget keys (hsame _ _), ?_, ?_, ?_⟩
  · exact (hmgetDetail keys (hsame _ _)).mpr (.inr (by decide))
  · exact hmset (keys.zip [[1], [2], [3]]) (hsame _ _)
  · exact (hmdel closed hclosed).mpr (.inl ⟨_, rfl⟩)

/-- For a key without partition `mgetDetail` and `mdel` have another status than
`get` and `delkey`. -/
theorem mgetDetail_hides_partition :
    let absent : TableKey := ⟨[1], [3], ⟨[[98]], []⟩⟩
    let service := oneTable [2]
    let envs : Unit → Env := fun _ => Env.at 1
    let engines : Unit → RocksDbEngine := fun _ => RocksDbEngine.fresh
    let draws : Nat → UInt32 := fun _ => 1
    service.SameVerdicts [absent] .mgetDetail .get 1 draws draws ∧
      service.SameVerdicts [absent] .mdel .delkey 1 draws draws ∧
      service.dispatchRequest [absent] .mgetDetail 1 draws = .ok [] ∧
      service.dispatchRequest [absent] .mdel 1 draws = .ok [] ∧
      (mgetDetail envs engines [absent] []).2 = [.entryValue .UNKNOWN_ERROR []] ∧
      (mdel envs engines [absent] []).2 = [.entryValue .UNKNOWN_ERROR []] ∧
      (service.get envs absent 1 engines).1 = .error .SERVICE_NOT_EXISTS_PARTITION ∧
      (service.delkey envs absent 1 engines).1 = .error .SERVICE_NOT_EXISTS_PARTITION ∧
      ¬service.AsSingles [absent] .mgetDetail 1 draws (mgetDetail envs engines [absent])
        (fun _ => entryReply) engines
        (singles (fun _ key => service.get envs key) draws 0 [absent] engines) ∧
      ¬service.AsSingles [absent] .mdel 1 draws (mdel envs engines [absent])
        (fun _ => statusReply) engines
        (singles (fun _ key => service.delkey envs key) draws 0 [absent] engines) := by
  intro absent service envs engines draws
  have hsame (command single : Command) :
      service.SameVerdicts [absent] command single 1 draws draws := by
    rintro (_ | place) key hkey <;> cases hkey
    rfl
  refine ⟨hsame _ _, hsame _ _, rfl, rfl, rfl, rfl, rfl, rfl, fun hsingles => ?_, fun hsingles => ?_⟩
  · cases hsingles [] (List.Perm.refl _)
  · cases hsingles [] (List.Perm.refl _)

/-- `msetDetail` does what `setx` does for one pair after another exactly when
every key has a partition and no test of `not_exists` comes in between. -/
theorem msetDetail_eq_setx_iff (service : LaserService ε) (envs : ε → Env)
    (engines : ε → RocksDbEngine) (options : SetOptions) (kvs : List (TableKey × Bytes))
    (random : UInt32) (randoms : Nat → UInt32) (tasks : List (ε × List DispatchRequestItem))
    (limit : Option UInt32)
    (hlimit : service.restrictMultiple (kvs.map Prod.fst) .msetDetail random = .ok limit)
    (hdispatches : service.Dispatches (kvs.map Prod.fst) .msetDetail random randoms tasks) :
    let single := service.oneByOne
      (fun index => setxBody envs options ((kvs.map Prod.snd).getD index [])) limit randoms 0
      (kvs.map Prod.fst) engines
    msetDetail options envs engines (kvs.map Prod.snd) tasks =
        (single.2, single.1.map statusReply) ↔
      (∀ kv ∈ kvs, (service.engineOf kv.1).isSome) ∧
        ∀ engine, Unhindered (envs engine) options (engines engine)
          (service.passedTo limit randoms engine 0 kvs) := by
  intro single
  obtain ⟨found, hfound, hperm⟩ := hdispatches.perm
  rw [hlimit] at hfound
  cases hfound
  have hitems : msetDetail options envs engines (kvs.map Prod.snd) tasks = _ ↔ _ :=
    msetDetail_eq_eachItem_iff hperm rfl
  rw [eachItem_oneByOne hperm] at hitems
  by_cases hengines : ∀ key ∈ kvs.map Prod.fst, (service.engineOf key).isSome
  · rw [replyAt_of_engines hengines 0 (oneByOne_length 0 engines)] at hitems
    rw [hitems, iff_and_self]
    exact fun _ kv hkv => hengines kv.1 (mem_map_of_mem hkv)
  · refine iff_of_false (fun heq => ?_) fun hall => hengines fun key hkey => ?_
    · simp only [not_forall, Bool.not_eq_true, Option.isSome_eq_false_iff, Option.isNone_iff_eq_none]
        at hengines
      obtain ⟨key, hkey, hmissing⟩ := hengines
      obtain ⟨place, hplace⟩ := mem_iff_getElem?.mp hkey
      have hfallback := msetDetail_missing hperm options envs engines hplace hmissing
        (kvs.map Prod.snd) (by simp)
      rw [heq, getElem?_map, oneByOne_missing hplace hmissing] at hfallback
      cases hfallback
    · obtain ⟨kv, hkv, rfl⟩ := mem_map.mp hkey
      exact hall.1 kv hkv

theorem msetDetail_eq_setx_fresh :
    let service := oneTable [2]
    let envs : Unit → Env := fun _ => Env.at 1
    let engines : Unit → RocksDbEngine := fun _ => RocksDbEngine.fresh
    let first : LaserKey := ⟨[[97]], []⟩
    let second : LaserKey := ⟨[[98]], []⟩
    let kvs : List (TableKey × Bytes) := [(⟨[1], [2], first⟩, [5]), (⟨[1], [2], second⟩, [6])]
    let single := service.oneByOne
      (fun index => setxBody envs ⟨0, true⟩ ((kvs.map Prod.snd).getD index [])) none (fun _ => 1) 0
      (kvs.map Prod.fst) engines
    msetDetail ⟨0, true⟩ envs engines (kvs.map Prod.snd)
        [((), [⟨0, some first⟩, ⟨1, some second⟩])] =
      (single.2, single.1.map statusReply) := by
  intro service envs engines first second kvs
  have hdispatches : service.Dispatches (kvs.map Prod.fst) .msetDetail 1 (fun _ => 1)
      [((), [⟨0, some first⟩, ⟨1, some second⟩])] := ⟨_, rfl, List.Perm.refl _⟩
  have hpassed (engine : Unit) : service.passedTo none (fun _ => 1) engine 0 kvs =
      [(first, [5]), (second, [6])] := rfl
  refine (msetDetail_eq_setx_iff service envs engines ⟨0, true⟩ kvs 1 (fun _ => 1) _ none rfl
    hdispatches).mpr ⟨by decide, fun engine _ => ?_⟩
  rw [hpassed, pairwise_pair]
  refine ⟨fun pair hpair => ?_, fun _ hsame => absurd hsame (by decide)⟩
  rcases mem_pair.mp hpair with rfl | rfl <;> exact .inl rfl

/-- `msetDetail` with `not_exists` answers OK for a key that it skips, and writes
a key twice that is listed twice. -/
theorem msetDetail_hides_existing :
    let service := oneTable [2]
    let envs : Unit → Env := fun _ => Env.at 1
    let first : LaserKey := ⟨[[97]], []⟩
    let second : LaserKey := ⟨[[98]], []⟩
    let engines : Unit → RocksDbEngine := fun _ =>
      (RocksDbEngine.fresh.set (Env.at 1) (getFormatKey first) [1]).2.2
    let single (kvs : List (TableKey × Bytes)) := service.oneByOne
      (fun index => setxBody envs ⟨0, true⟩ ((kvs.map Prod.snd).getD index [])) none (fun _ => 1) 0
      (kvs.map Prod.fst) engines
    let skipped : List (TableKey × Bytes) := [(⟨[1], [2], first⟩, [5])]
    let twice : List (TableKey × Bytes) := [(⟨[1], [2], second⟩, [5]), (⟨[1], [2], second⟩, [6])]
    (msetDetail ⟨0, true⟩ envs engines [[5]] [((), [⟨0, some first⟩])]).2 = [.entryValue .OK []] ∧
      (single skipped).1.map statusReply = [.entryValue .RS_KEY_EXISTS []] ∧
      (getBody envs () second ((msetDetail ⟨0, true⟩ envs engines [[5], [6]]
        [((), [⟨0, some second⟩, ⟨1, some second⟩])]).1 ())).1 = .ok [6] ∧
      (getBody envs () second ((single twice).2 ())).1 = .ok [5] := by
  refine ⟨by decide, by decide, by decide, by decide⟩

end LaserDB
