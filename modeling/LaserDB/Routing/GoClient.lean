import LaserDB.Engine.ReplicationDb
import LaserDB.Routing.GoGroup

/-!
# Requests of the Go client for several keys

`mset` and `mget` start one goroutine for each group of keys, all with the same pointer to the
options of the request.
-/

namespace LaserDB.GoClient
open List Function Option Prod Simulation
open DecimalText (ascii)
open Routing

structure CallOption where
  readMode : ReadMode
  connectionRetry : Nat
  timeoutRetry : Nat
  targetServerAddress : ServerAddress
  deriving DecidableEq, Repr

def checkTargetServerAddress (address : ServerAddress) : Bool :=
  0 < address.host.length && 0 < address.port

inductive CallStatus
  | service (status : Status)
  | RS_PART_FAILED
  | CLIENT_THRIFT_CALL_ERROR
  | CLIENT_THRIFT_CALL_TIMEOUT
  deriving DecidableEq, Repr

abbrev CallStatus.ok : CallStatus := .service .OK

structure CallResp (ε : Type) where
  idxes : List Nat
  status : CallStatus
  data : List ε
  deriving DecidableEq, Repr

/-- How a call of a server ends; an exception that is not a `LaserException` has no status. -/
inductive CallEnd (ε : Type)
  | timeout
  | exception (status : Option Status)
  | success (data : List ε)
  deriving DecidableEq, Repr

/-- What an attempt to call a server meets: what `Discover` returns each time it is asked, whether a
connection is got, and how the call ends. -/
structure Met (ε : Type) where
  discovered : Nat → Option ServerAddress := fun _ => none
  connected : Bool := true
  callEnd : CallEnd ε := .timeout

inductive Stored (ρ : Type)
  | value (value : ρ) (failed : Bool)
  | keep
  /-- the index is out of the range of the answer -/
  | crash
  deriving DecidableEq, Repr

structure MultiResult (ρ : Type) where
  values : List ρ
  nfailed : Nat := 0
  status : CallStatus := .ok
  deriving DecidableEq, Repr

/-- What the requests for several keys differ in: the answer for keys without a server, the values
of a new result, and what an answer stores. -/
structure MultiCall (ε ρ : Type) where
  unserved : Nat → CallStatus × List ε
  blank : ρ
  entry : CallStatus → List ε → Nat → Stored ρ
  status : CallStatus → CallStatus → CallStatus := fun _ status => status

def msetSync : MultiCall Int64 CallStatus where
  unserved count := (.ok, replicate count (-1))
  blank := .ok
  entry status data i :=
    if status ≠ .ok then .value status false
    else match data[i]? with
      | none => .crash
      | some res => .value (if res = -1 then .CLIENT_THRIFT_CALL_ERROR else .ok) false

structure EntryValue where
  status : CallStatus
  stringValue : Bytes
  deriving DecidableEq, Repr

/-- The loops of `MsetDetailSync` and `MgetDetailSync`; an entry has one of the `fine` statuses if
it has not failed. -/
def detailEntry (fine : List CallStatus) (status : CallStatus) (data : List (Option EntryValue))
    (i : Nat) : Stored (Option EntryValue) :=
  if status ≠ .ok then .value (some ⟨status, []⟩) true
  else if data.length = 0 then .value (some ⟨.service .RS_ERROR, []⟩) true
  else match data[i]? with
    | some (some entryValue) => .value (some entryValue) (decide (entryValue.status ∉ fine))
    | _ => .crash

def msetDetailSync : MultiCall (Option EntryValue) (Option EntryValue) where
  unserved _ := (.ok, [])
  blank := none
  entry := detailEntry [.ok, .service .RS_KEY_EXPIRE]

def mgetDetailSync : MultiCall (Option EntryValue) (Option EntryValue) where
  unserved _ := (.CLIENT_THRIFT_CALL_ERROR, [])
  blank := none
  entry := detailEntry [.ok, .service .RS_NOT_FOUND, .service .RS_KEY_EXPIRE]

def mgetSync {ρ : Type} (blank : ρ) : MultiCall ρ ρ where
  unserved _ := (.CLIENT_THRIFT_CALL_ERROR, [])
  blank := blank
  entry status data i :=
    if status ≠ .ok then .keep
    else match data[i]? with
      | none => .crash
      | some res => .value res false
  status status before := if status ≠ .ok then status else before

inductive Place
  | begun
  | assigned
  /-- in `commonCallWithRouteId` with its own copy of the options -/
  | calling (option : CallOption) (callTimes : Nat)
  | answered
  deriving DecidableEq, Repr

structure Attempt (β : Type) where
  index : Nat
  keys : List β
  server : Option ServerAddress
  deriving DecidableEq, Repr

structure Shared (β ε ρ : Type) where
  option : CallOption
  places : Nat → Place
  attempts : List (Attempt β)
  chs : List (Nat × CallResp ε)
  processed : List (Nat × CallResp ε)
  result : MultiResult ρ
  crashed : Bool

inductive Action (ε : Type)
  /-- the goroutine of a group goes on -/
  | go (index : Nat) (met : Met ε)
  /-- the answers are stored -/
  | collect

variable {β ε ρ : Type}

section
variable (call : MultiCall ε ρ)

/-- The loop of a `commonProcessMop`, over the positions and their places in the answer. -/
def store (resp : CallResp ε) : List (Nat × Nat) → MultiResult ρ → MultiResult ρ × Bool
  | [], result => (result, false)
  | (position, i) :: rest, result =>
    match call.entry resp.status resp.data i with
    | .value value failed =>
      store resp rest
        { result with
          values := result.values.set position value
          nfailed := result.nfailed + failed.toNat }
    | .keep => store resp rest result
    | .crash => (result, true)

def process (resp : CallResp ε) (result : MultiResult ρ) : MultiResult ρ × Bool :=
  store call resp resp.idxes.zipIdx { result with status := call.status resp.status result.status }

def AddressKeyMap.kvs (group : AddressKeyMap β) : List β := group.keyToIndexList.map fst

def AddressKeyMap.indexes (group : AddressKeyMap β) : List Nat := group.keyToIndexList.map snd

def Shared.answer (state : Shared β ε ρ) (index : Nat) (group : AddressKeyMap β) (status : CallStatus)
    (data : List ε) : Shared β ε ρ :=
  { state with
    places := update state.places index .answered
    chs := state.chs ++ [(index, ⟨group.indexes, status, data⟩)] }

def targetServer (option : CallOption) (met : Met ε) : Option ServerAddress :=
  if checkTargetServerAddress option.targetServerAddress then some option.targetServerAddress
  else (range (option.connectionRetry + 1)).findSome? met.discovered

def Shared.attempt (state : Shared β ε ρ) (index : Nat) (group : AddressKeyMap β)
    (option : CallOption) (callTimes : Nat) (met : Met ε) : Shared β ε ρ :=
  let server := targetServer option met
  let tried := { state with attempts := ⟨index, group.kvs, server⟩ :: state.attempts }
  if server.isSome && met.connected then
    match met.callEnd with
    | .timeout =>
      if callTimes ≤ option.timeoutRetry then
        { tried with places := update state.places index (.calling option (callTimes + 1)) }
      else tried.answer index group .CLIENT_THRIFT_CALL_TIMEOUT []
    | .exception status =>
      tried.answer index group (status.elim .CLIENT_THRIFT_CALL_ERROR .service) []
    | .success data => tried.answer index group .ok data
  else tried.answer index group .CLIENT_THRIFT_CALL_ERROR []

/-- The goroutine of a group goes on to the next access to the options or to the end of a call. -/
def Shared.go (state : Shared β ε ρ) (index : Nat) (key : Bytes) (group : AddressKeyMap β)
    (met : Met ε) : Shared β ε ρ :=
  match state.places index with
  | .begun =>
    if key = nilAddress then
      state.answer index group (call.unserved group.keyToIndexList.length).1
        (call.unserved group.keyToIndexList.length).2
    else match group.address with
      | none => { state with crashed := true }
      | some address =>
        { state with
          option := { state.option with targetServerAddress := address }
          places := update state.places index .assigned }
  | .assigned => { state with places := update state.places index (.calling state.option 1) }
  | .calling option callTimes => state.attempt index group option callTimes met
  | .answered => state

def Shared.collect (state : Shared β ε ρ) : Shared β ε ρ :=
  match state.chs with
  | [] => state
  | (index, resp) :: rest =>
    let stored := process call resp state.result
    { state with
      chs := rest
      result := stored.1
      crashed := stored.2
      processed := if stored.2 then state.processed else (index, resp) :: state.processed }

abbrev Groups (β : Type) := List (Sigma fun _ : Bytes => AddressKeyMap β)

def Shared.step (groups : Groups β) (action : Action ε) (state : Shared β ε ρ) : Shared β ε ρ :=
  if state.crashed then state
  else match action with
    | .go index met =>
      match groups[index]? with
      | none => state
      | some entry => state.go call index entry.1 entry.2 met
    | .collect => state.collect call

def initial (option : CallOption) (count : Nat) : Shared β ε ρ where
  option := option
  places := fun _ => .begun
  attempts := []
  chs := []
  processed := []
  result := { values := replicate count call.blank }
  crashed := false

def runGroups (groups : Groups β) (option : CallOption) (count : Nat) (schedule : List (Action ε)) :
    Shared β ε ρ :=
  finalState (fun action state => state.step call groups action) schedule
    (initial call option count)

def request {κ σ : Type} [DecidableEq κ] (client : Client κ σ β) (option : CallOption) (kvs : List β)
    (schedule : List (Action ε)) : Shared β ε ρ :=
  runGroups call (client.group option.readMode kvs).entries option kvs.length schedule

/-- The keys of a group are sent to the address of the group, and what is stored for an entry of an
answer is stored at the position of its key. -/
structure Delivered (groups : Groups β) (kvs : List β) (state : Shared β ε ρ) : Prop where
  sent : ∀ attempt ∈ state.attempts, ∃ entry address, groups[attempt.index]? = some entry ∧
    attempt.keys = entry.2.kvs ∧ entry.2.address = some address ∧ attempt.server = some address
  answered : ∀ index entry, groups[index]? = some entry → entry.1 ≠ nilAddress →
    state.places index = .answered → ∃ attempt ∈ state.attempts, attempt.index = index
  stored : ∀ answer ∈ state.processed, ∃ entry, groups[answer.1]? = some entry ∧
    ∀ i kv position, entry.2.keyToIndexList[i]? = some (kv, position) → kvs[position]? = some kv ∧
        ∀ value failed, call.entry answer.2.status answer.2.data i = .value value failed →
          state.result.values[position]? = some value

def OneServer (groups : Groups β) : Prop :=
  ∀ entry ∈ groups, ∀ address, entry.2.address = some address →
    checkTargetServerAddress address = true ∧
      ∀ other ∈ groups, ∀ otherAddress, other.2.address = some otherAddress → otherAddress = address

end

variable {call : MultiCall ε ρ}

section
variable {resp : CallResp ε}

theorem length_store (places : List (Nat × Nat)) (result : MultiResult ρ) :
    (store call resp places result).1.values.length = result.values.length := by
  induction places generalizing result with
  | nil => rfl
  | cons place places ih =>
    unfold store
    split
    · rw [ih, length_set]
    · exact ih _
    · rfl

variable {places : List (Nat × Nat)}

theorem store_other {position : Nat} (hposition : position ∉ places.map Prod.fst)
    (result : MultiResult ρ) :
    (store call resp places result).1.values[position]? = result.values[position]? := by
  induction places generalizing result with
  | nil => rfl
  | cons place places ih =>
    rw [map_cons, mem_cons, not_or] at hposition
    unfold store
    split
    · rw [ih hposition.2, getElem?_set_ne (Ne.symm hposition.1)]
    · exact ih hposition.2 _
    · rfl

theorem store_get {position i : Nat} {value : ρ} {failed : Bool} (hplaces : (places.map fst).Nodup)
    (hmem : (position, i) ∈ places)
    (hvalue : call.entry resp.status resp.data i = .value value failed) (result : MultiResult ρ)
    (hlength : position < result.values.length) (hdone : (store call resp places result).2 = false)
    : (store call resp places result).1.values[position]? = some value := by
  induction places generalizing result with
  | nil => exact absurd hmem not_mem_nil
  | cons place places ih =>
    obtain ⟨first, index⟩ := place
    obtain ⟨hfirst, hrest⟩ := nodup_cons.mp hplaces
    rcases mem_cons.mp hmem with heq | hlater
    · obtain ⟨rfl, rfl⟩ := mk.inj heq
      unfold store
      rw [hvalue]
      dsimp only
      rw [store_other hfirst, getElem?_set_self hlength]
    · unfold store at hdone ⊢
      split at hdone
      · exact ih hrest hlater _ (by rwa [length_set]) hdone
      · exact ih hrest hlater _ hlength hdone
      · cases hdone

end

variable {first second : Nat}

variable {kvs : List β} {groups : Groups β}

section
structure WellGrouped (kvs : List β) (groups : Groups β) : Prop where
  nodup : (groups.flatMap fun entry => entry.2.indexes).Nodup
  getElem : ∀ entry ∈ groups, ∀ pair ∈ entry.2.keyToIndexList, kvs[pair.2]? = some pair.1

theorem sum_keys (groups : Groups β) :
    (groups.map fun entry => entry.2.keys).sum =
      Multiset.ofList (groups.flatMap fun entry => entry.2.keyToIndexList) := by
  induction groups with
  | nil => rfl
  | cons entry groups ih =>
    rw [map_cons, sum_cons, ih, flatMap_cons, ← Multiset.coe_add]
    rfl

theorem wellGrouped_group [DecidableEq κ] (client : Client κ σ β) (readMode : ReadMode)
    (kvs : List β) : WellGrouped kvs (client.group readMode kvs).entries := by
  have hle := contents_group_le client readMode kvs
  rw [MapContents.contents, sum_keys] at hle
  constructor
  · have hindexes := Multiset.map_le_map (f := Prod.snd) hle
    rw [Multiset.map_coe, Multiset.map_coe, map_flatMap, zipIdx_map_snd] at hindexes
    exact Multiset.coe_nodup.mp
      (Multiset.nodup_of_le hindexes (Multiset.coe_nodup.mpr (nodup_range')))
  · intro entry hentry pair hpair
    have hmem := Multiset.mem_of_le hle
      (Multiset.mem_coe.mpr (mem_flatMap.mpr ⟨entry, hentry, hpair⟩))
    exact mem_zipIdx_iff_getElem?.mp (Multiset.mem_coe.mp hmem)

variable (hgroups : WellGrouped kvs groups)
include hgroups

theorem WellGrouped.nodup_indexes {entry} (hentry : entry ∈ groups) : entry.2.indexes.Nodup :=
  (nodup_flatMap.mp hgroups.nodup).1 entry hentry

theorem WellGrouped.lt_length {entry} (hentry : entry ∈ groups) {position : Nat}
    (hposition : position ∈ entry.2.indexes) : position < kvs.length := by
  obtain ⟨pair, hpair, rfl⟩ := List.mem_map.mp hposition
  obtain ⟨hlt, -⟩ := List.getElem?_eq_some_iff.mp (hgroups.getElem entry hentry pair hpair)
  exact hlt

theorem WellGrouped.disjoint {entry other}
    (hentry : groups[first]? = some entry) (hother : groups[second]? = some other)
    (hne : first ≠ second) : entry.2.indexes.Disjoint other.2.indexes := by
  have hpairwise := (List.nodup_flatMap.mp hgroups.nodup).2
  obtain ⟨hfirst, rfl⟩ := List.getElem?_eq_some_iff.mp hentry
  obtain ⟨hsecond, rfl⟩ := List.getElem?_eq_some_iff.mp hother
  rcases Nat.lt_or_gt_of_ne hne with hlt | hgt
  · exact pairwise_iff_getElem.mp hpairwise first second hfirst hsecond hlt
  · exact (pairwise_iff_getElem.mp hpairwise second first hsecond hfirst hgt).symm

end

variable {index : Nat}

variable {state : Shared β ε ρ}

variable {next : Shared β ε ρ}

section
structure Filed (call : MultiCall ε ρ) (kvs : List β) (groups : Groups β) (state : Shared β ε ρ) :
    Prop where
  length : state.result.values.length = kvs.length
  answers : ∀ answer ∈ state.chs ++ state.processed, state.places answer.1 = .answered ∧
    ∃ entry, groups[answer.1]? = some entry ∧ answer.2.idxes = entry.2.indexes
  nodup : ((state.chs ++ state.processed).map fst).Nodup
  stored : ∀ answer ∈ state.processed, ∀ i position, answer.2.idxes[i]? = some position →
    ∀ value failed, call.entry answer.2.status answer.2.data i = .value value failed →
      state.result.values[position]? = some value

theorem Filed.move (hfiled : Filed call kvs groups state)
    (hplaces : ∀ index, state.places index = .answered → next.places index = .answered)
    (hchs : next.chs = state.chs) (hprocessed : next.processed = state.processed)
    (hresult : next.result = state.result) : Filed call kvs groups next := by
  obtain ⟨hlength, hanswers, hnodup, hstored⟩ := hfiled
  refine ⟨by rwa [hresult], fun answer hanswer => ?_, by rwa [hchs, hprocessed], ?_⟩
  · rw [hchs, hprocessed] at hanswer
    exact ⟨hplaces _ (hanswers answer hanswer).1, (hanswers answer hanswer).2⟩
  · rw [hprocessed, hresult]
    exact hstored

theorem Filed.answer (hfiled : Filed call kvs groups state) {entry}
    (hentry : groups[index]? = some entry) (hplace : state.places index ≠ .answered)
    (status : CallStatus) (data : List ε) :
    Filed call kvs groups (state.answer index entry.2 status data) := by
  obtain ⟨hlength, hanswers, hnodup, hstored⟩ := hfiled
  have hperm (sent : Nat × CallResp ε) : (state.chs ++ [sent] ++ state.processed).Perm
      (sent :: (state.chs ++ state.processed)) := by
    rw [append_assoc]
    exact perm_middle
  have hnew : index ∉ (state.chs ++ state.processed).map fst := by
    intro hmem
    obtain ⟨answer, hanswer, rfl⟩ := mem_map.mp hmem
    exact hplace (hanswers answer hanswer).1
  refine ⟨hlength, fun answer hanswer => ?_, ?_, hstored⟩
  · rcases mem_cons.mp ((hperm _).mem_iff.mp hanswer) with rfl | hold
    · exact ⟨update_self .., entry, hentry, rfl⟩
    · have hother : answer.1 ≠ index := fun heq => hnew (heq ▸ mem_map_of_mem hold)
      refine ⟨?_, (hanswers answer hold).2⟩
      exact (update_of_ne hother ..).trans (hanswers answer hold).1
  · refine ((hperm _).map fst).nodup_iff.mpr ?_
    exact nodup_cons.mpr ⟨hnew, hnodup⟩

theorem update_answered {places : Nat → Place} (hplace : places index ≠ .answered)
    (place : Place) {other : Nat} (hother : places other = .answered) :
    update places index place other = .answered := by
  have hne : other ≠ index := by
    rintro rfl
    exact hplace hother
  rw [update_of_ne hne, hother]

theorem Filed.attempt (hfiled : Filed call kvs groups state) {entry}
    (hentry : groups[index]? = some entry) (hplace : state.places index ≠ .answered)
    (option : CallOption) (callTimes : Nat) (met : Met ε) :
    Filed call kvs groups (state.attempt index entry.2 option callTimes met) := by
  have htried : Filed call kvs groups
      { state with attempts := ⟨index, entry.2.kvs, targetServer option met⟩ :: state.attempts } :=
    hfiled.move (fun _ hother => hother) rfl rfl rfl
  unfold Shared.attempt
  dsimp only
  split
  · split
    · split
      · exact hfiled.move (fun _ hother => update_answered hplace _ hother) rfl rfl rfl
      · exact htried.answer hentry hplace _ _
    all_goals exact htried.answer hentry hplace _ _
  · exact htried.answer hentry hplace _ _

theorem Filed.go (hfiled : Filed call kvs groups state) {entry}
    (hentry : groups[index]? = some entry) (met : Met ε) :
    Filed call kvs groups (state.go call index entry.1 entry.2 met) := by
  unfold Shared.go
  split
  · next hbegun =>
      have hplace : state.places index ≠ .answered := by simp [hbegun]
      split_ifs
      · exact hfiled.answer hentry hplace _ _
      · split
        · exact hfiled.move (fun _ hother => hother) rfl rfl rfl
        · exact hfiled.move (fun _ hother => update_answered hplace _ hother) rfl rfl rfl
  · next hassigned =>
      have hplace : state.places index ≠ .answered := by simp [hassigned]
      exact hfiled.move (fun _ hother => update_answered hplace _ hother) rfl rfl rfl
  · next hcalling =>
      exact hfiled.attempt hentry (by simp [hcalling]) _ _ _
  · exact hfiled

theorem Filed.collect (hgroups : WellGrouped kvs groups) (hfiled : Filed call kvs groups state) :
    Filed call kvs groups (state.collect call) := by
  unfold Shared.collect
  split
  · exact hfiled
  · next index resp rest hchs =>
      obtain ⟨hlength, hanswers, hnodup, hstored⟩ := hfiled
      rw [hchs, cons_append] at hanswers hnodup
      obtain ⟨hplace, entry, hentry, hidxes⟩ := hanswers _ mem_cons_self
      obtain ⟨hnew, hrest⟩ := nodup_cons.mp hnodup
      have hmem := mem_of_getElem? hentry
      have hpositions : (resp.idxes.zipIdx.map fst).Nodup := by
        rw [zipIdx_map_fst, hidxes]
        exact hgroups.nodup_indexes hmem
      have hkept (answer) (hanswer : answer ∈ state.processed) (i position : Nat)
          (hposition : answer.2.idxes[i]? = some position) (value : ρ) (failed : Bool)
          (hvalue : call.entry answer.2.status answer.2.data i = .value value failed) :
          (process call resp state.result).1.values[position]? = some value := by
        obtain ⟨-, other, hother, hotherIdxes⟩ :=
          hanswers answer (mem_cons_of_mem _ (mem_append_right _ hanswer))
        have hne : answer.1 ≠ index := by
          intro heq
          exact hnew (mem_map.mpr ⟨answer, mem_append_right _ hanswer, heq⟩)
        have hdisjoint := hgroups.disjoint hother hentry hne
        refine (store_other ?_ _).trans (hstored answer hanswer i position hposition value failed hvalue)
        rw [zipIdx_map_fst, hidxes]
        exact hdisjoint (hotherIdxes ▸ mem_of_getElem? hposition)
      dsimp only
      split_ifs with hcrash
      · exact ⟨(length_store _ _).trans hlength, fun answer hanswer =>
          hanswers answer (mem_cons_of_mem _ hanswer), hrest, hkept⟩
      · have hperm : (rest ++ (index, resp) :: state.processed).Perm
            ((index, resp) :: (rest ++ state.processed)) := perm_middle
        refine ⟨(length_store _ _).trans hlength, fun answer hanswer =>
          hanswers answer (hperm.mem_iff.mp hanswer), (hperm.map fst).nodup_iff.mpr hnodup, ?_⟩
        intro answer hanswer i position hposition value failed hvalue
        rcases mem_cons.mp hanswer with rfl | hold
        · have hlt := hgroups.lt_length hmem (hidxes ▸ mem_of_getElem? hposition)
          exact store_get hpositions (mem_zipIdx_iff_getElem?.mpr hposition) hvalue _
            (hlength ▸ hlt) ((Bool.not_eq_true _).mp hcrash)
        · exact hkept answer hold i position hposition value failed hvalue

end

variable {option : CallOption}

section
/-- Between its assignment and the end of its call, the goroutine of a group has the address of the
group before it. -/
def PlaceSuits (option : CallOption) (attempts : List (Attempt β)) (index : Nat)
    (entry : Sigma fun _ : Bytes => AddressKeyMap β) : Place → Prop
  | .begun => True
  | .assigned => entry.2.address = some option.targetServerAddress
  | .calling own _ => entry.2.address = some own.targetServerAddress
  | .answered => entry.1 ≠ nilAddress → ∃ attempt ∈ attempts, attempt.index = index

theorem PlaceSuits.mono {option next : CallOption} {attempts later : List (Attempt β)} {entry}
    {place : Place} (hsuits : PlaceSuits option attempts index entry place)
    (hoption : entry.2.address = some option.targetServerAddress →
      entry.2.address = some next.targetServerAddress)
    (hattempts : ∀ attempt ∈ attempts, attempt ∈ later) :
    PlaceSuits next later index entry place := by
  cases place with
  | begun => exact trivial
  | assigned => exact hoption hsuits
  | calling own callTimes => exact hsuits
  | answered =>
    intro hkey
    obtain ⟨attempt, hattempt, hindex⟩ := hsuits hkey
    exact ⟨attempt, hattempts attempt hattempt, hindex⟩

structure Addressed (groups : Groups β) (state : Shared β ε ρ) : Prop where
  places : ∀ index entry, groups[index]? = some entry →
    PlaceSuits state.option state.attempts index entry (state.places index)
  sent : ∀ attempt ∈ state.attempts, ∃ entry address, groups[attempt.index]? = some entry ∧
    attempt.keys = entry.2.kvs ∧ entry.2.address = some address ∧ attempt.server = some address

theorem Addressed.update (haddressed : Addressed groups state) {place : Place} {entry}
    (hentry : groups[index]? = some entry) (hplaces : next.places = update state.places index place)
    (hoption : ∀ other ∈ groups, other.2.address = some state.option.targetServerAddress →
      other.2.address = some next.option.targetServerAddress)
    (hattempts : ∃ tried, next.attempts = tried ++ state.attempts ∧ ∀ attempt ∈ tried, ∃ address,
      attempt.index = index ∧ attempt.keys = entry.2.kvs ∧ entry.2.address = some address ∧
        attempt.server = some address)
    (hplace : PlaceSuits next.option next.attempts index entry place) : Addressed groups next := by
  obtain ⟨tried, happend, htried⟩ := hattempts
  constructor
  · intro other otherEntry hother
    rw [hplaces]
    by_cases hself : other = index
    · subst hself
      rw [hentry] at hother
      rw [update_self, ← some.inj hother]
      exact hplace
    · rw [update_of_ne hself]
      refine (haddressed.places other otherEntry hother).mono
        (hoption otherEntry (mem_of_getElem? hother)) fun attempt hattempt => ?_
      rw [happend]
      exact mem_append_right _ hattempt
  · intro attempt hattempt
    rw [happend] at hattempt
    rcases mem_append.mp hattempt with hnew | hold
    · obtain ⟨address, hindex, hkeys, haddress, hserver⟩ := htried attempt hnew
      exact ⟨entry, address, hindex ▸ hentry, hkeys, haddress, hserver⟩
    · exact haddressed.sent attempt hold

theorem Addressed.attempt (haddressed : Addressed groups state) {entry}
    (hentry : groups[index]? = some entry)
    (hoption : entry.2.address = some option.targetServerAddress)
    (hcheck : checkTargetServerAddress option.targetServerAddress = true) (callTimes : Nat)
    (met : Met ε) : Addressed groups (state.attempt index entry.2 option callTimes met) := by
  have hserver : targetServer option met = some option.targetServerAddress := by
    rw [targetServer, if_pos hcheck]
  have htried {next : Shared β ε ρ} {place : Place}
      (hplaces : next.places = Function.update state.places index place)
      (hnext : next.option = state.option)
      (hattempts : next.attempts =
        [⟨index, entry.2.kvs, some option.targetServerAddress⟩] ++ state.attempts)
      (hplace : PlaceSuits next.option next.attempts index entry place) : Addressed groups next := by
    refine haddressed.update hentry hplaces ?_ ⟨_, hattempts, ?_⟩ hplace
    · rw [hnext]
      exact fun _ _ haddress => haddress
    · intro attempt hattempt
      obtain rfl := mem_singleton.mp hattempt
      exact ⟨_, rfl, rfl, hoption, rfl⟩
  unfold Shared.attempt
  rw [hserver]
  dsimp only
  split
  · split
    · split
      · exact htried rfl rfl rfl hoption
      · exact htried rfl rfl rfl fun _ => ⟨_, mem_cons_self, rfl⟩
    all_goals exact htried rfl rfl rfl fun _ => ⟨_, mem_cons_self, rfl⟩
  · exact htried rfl rfl rfl fun _ => ⟨_, mem_cons_self, rfl⟩

theorem Addressed.go (hone : OneServer groups) (haddressed : Addressed groups state) {entry}
    (hentry : groups[index]? = some entry) (met : Met ε) :
    Addressed groups (state.go call index entry.1 entry.2 met) := by
  have hmem := mem_of_getElem? hentry
  have hplace := haddressed.places index entry hentry
  have hnone (tried : Attempt β) (htried : tried ∈ []) : ∃ address, tried.index = index ∧
      tried.keys = entry.2.kvs ∧ entry.2.address = some address ∧ tried.server = some address :=
    absurd htried not_mem_nil
  unfold Shared.go
  split
  · split_ifs with hkey
    · exact haddressed.update hentry rfl (fun _ _ haddress => haddress) ⟨[], rfl, hnone⟩
        fun hne => absurd hkey hne
    · split
      · exact ⟨haddressed.places, haddressed.sent⟩
      · next address haddress =>
          refine haddressed.update hentry rfl (fun other hother hotherAddress => ?_) ⟨[], rfl, hnone⟩
            haddress
          rw [hotherAddress, (hone entry hmem address haddress).2 other hother _ hotherAddress]
  · next hassigned =>
      rw [hassigned] at hplace
      exact haddressed.update hentry rfl (fun _ _ haddress => haddress) ⟨[], rfl, hnone⟩ hplace
  · next option callTimes hcalling =>
      rw [hcalling] at hplace
      exact haddressed.attempt hentry hplace (hone entry hmem _ hplace).1 callTimes met
  · exact haddressed

theorem Addressed.collect (haddressed : Addressed groups state) :
    Addressed groups (state.collect call) := by
  unfold Shared.collect
  split
  · exact haddressed
  · exact ⟨haddressed.places, haddressed.sent⟩

variable {count : Nat}

theorem invariant_runGroups {invariant : Shared β ε ρ → Prop}
    (hgo : ∀ state index entry met, invariant state → groups[index]? = some entry →
      invariant (state.go call index entry.1 entry.2 met))
    (hcollect : ∀ state, invariant state → invariant (state.collect call))
    (hstart : invariant (initial call option count)) (schedule : List (Action ε)) :
    invariant (runGroups call groups option count schedule) := by
  refine invariant_finalState (fun action state hstate _ => ?_) hstart
    (Simulation.Guarded.of_forall (fun _ _ => trivial) _ _)
  unfold Shared.step
  split
  · exact hstate
  · split
    · next index met =>
        split
        · exact hstate
        · next entry hentry => exact hgo state index entry met hstate hentry
    · exact hcollect state hstate

theorem filed_runGroups (hgroups : WellGrouped kvs groups) (option : CallOption)
    (schedule : List (Action ε)) :
    Filed call kvs groups (runGroups call groups option kvs.length schedule) := by
  refine invariant_runGroups (fun state index entry met hstate hentry => hstate.go hentry met)
    (fun state hstate => hstate.collect hgroups) ?_ schedule
  exact ⟨length_replicate, fun answer hanswer => absurd hanswer not_mem_nil,
    nodup_nil, fun answer hanswer => absurd hanswer not_mem_nil⟩

theorem addressed_runGroups (hone : OneServer groups) (option : CallOption) (count : Nat)
    (schedule : List (Action ε)) :
    Addressed groups (runGroups call groups option count schedule) := by
  refine invariant_runGroups (fun state index entry met hstate hentry => hstate.go hone hentry met)
    (fun state hstate => hstate.collect) ?_ schedule
  exact ⟨fun index entry hentry => trivial, fun attempt hattempt => absurd hattempt not_mem_nil⟩

theorem delivered_of_oneServer (hgroups : WellGrouped kvs groups) (hone : OneServer groups)
    (option : CallOption) (schedule : List (Action ε)) :
    Delivered call groups kvs (runGroups call groups option kvs.length schedule) := by
  have haddressed : Addressed groups (runGroups call groups option kvs.length schedule) :=
    addressed_runGroups hone option kvs.length schedule
  have hfiled : Filed call kvs groups (runGroups call groups option kvs.length schedule) :=
    filed_runGroups hgroups option schedule
  refine ⟨haddressed.sent, fun index entry hentry hkey hplace => ?_, fun answer hanswer => ?_⟩
  · have hsuits := haddressed.places index entry hentry
    rw [hplace] at hsuits
    exact hsuits hkey
  obtain ⟨-, entry, hentry, hidxes⟩ := hfiled.answers answer (mem_append_right _ hanswer)
  refine ⟨entry, hentry, fun i kv position hpair => ⟨?_, fun value failed hvalue => ?_⟩⟩
  · exact hgroups.getElem entry (mem_of_getElem? hentry) _ (mem_of_getElem? hpair)
  · refine hfiled.stored answer hanswer i position ?_ value failed hvalue
    rw [hidxes, AddressKeyMap.indexes, getElem?_map, hpair]
    rfl

theorem attempts_attempt (state : Shared β ε ρ) (index : Nat) (group : AddressKeyMap β)
    (option : CallOption) (callTimes : Nat) (met : Met ε) :
    (state.attempt index group option callTimes met).attempts =
      ⟨index, group.kvs, targetServer option met⟩ :: state.attempts := by
  unfold Shared.attempt
  dsimp only
  split
  · split
    · split <;> rfl
    · rfl
    · rfl
  · rfl

variable {address otherAddress : ServerAddress}

theorem attempts_overtaken {entry other} (hentry : groups[first]? = some entry)
    (hother : groups[second]? = some other) (hkey : entry.1 ≠ nilAddress)
    (hotherKey : other.1 ≠ nilAddress) (haddress : entry.2.address = some address)
    (hotherAddress : other.2.address = some otherAddress) (hne : first ≠ second)
    (option : CallOption) (count : Nat) (met : Met ε) :
    (runGroups call groups option count
      [.go first met, .go second met, .go first met, .go first met]).attempts =
        [⟨first, entry.2.kvs,
          targetServer { option with targetServerAddress := otherAddress } met⟩] := by
  simp [runGroups, finalState, Shared.step, Shared.go, initial, hentry, hother, hkey,
    hotherKey, haddress, hotherAddress, hne, Ne.symm hne, attempts_attempt]

theorem attempts_alone {entry} (hentry : groups[index]? = some entry)
    (hkey : entry.1 ≠ nilAddress) (haddress : entry.2.address = some address)
    (option : CallOption) (count : Nat) (met : Met ε) :
    (runGroups call groups option count [.go index met, .go index met, .go index met]).attempts =
      [⟨index, entry.2.kvs, targetServer { option with targetServerAddress := address } met⟩] := by
  simp [runGroups, finalState, Shared.step, Shared.go, initial, hentry, hkey, haddress,
    attempts_attempt]

theorem checked_of_delivered {entry} (hdelivered : Delivered call groups kvs
      (runGroups call groups option count [.go index {}, .go index {}, .go index {}]))
    (hentry : groups[index]? = some entry) (hkey : entry.1 ≠ nilAddress)
    (haddress : entry.2.address = some address) : checkTargetServerAddress address = true := by
  have hattempts := @attempts_alone _ _ _ call _ _ _ _ hentry hkey haddress option count {}
  obtain ⟨own, server, -, -, -, hserver⟩ := hdelivered.sent _ (hattempts ▸ mem_singleton_self _)
  by_contra hincomplete
  rw [targetServer, if_neg hincomplete] at hserver
  obtain ⟨time, -, hfound⟩ := exists_of_findSome?_eq_some hserver
  cases hfound

theorem address_eq_of_delivered {entry other} (hdelivered : Delivered call groups kvs
      (runGroups call groups option count [.go first {}, .go second {}, .go first {}, .go first {}]))
    (hentry : groups[first]? = some entry) (hother : groups[second]? = some other)
    (hkey : entry.1 ≠ nilAddress) (hotherKey : other.1 ≠ nilAddress)
    (haddress : entry.2.address = some address)
    (hotherAddress : other.2.address = some otherAddress)
    (hcomplete : checkTargetServerAddress otherAddress = true) : otherAddress = address := by
  by_cases hsame : first = second
  · subst hsame
    rw [hentry] at hother
    rw [← some.inj hother, haddress] at hotherAddress
    exact (some.inj hotherAddress).symm
  · have hattempts := @attempts_overtaken _ _ _ call _ _ _ _ _ _ _ hentry hother hkey hotherKey
      haddress hotherAddress hsame option count {}
    obtain ⟨own, server, hown, -, hownAddress, hserver⟩ :=
      hdelivered.sent _ (hattempts ▸ mem_singleton_self _)
    rw [targetServer, if_pos hcomplete] at hserver
    rw [hentry] at hown
    rw [← some.inj hown, haddress, ← hserver] at hownAddress
    exact (some.inj hownAddress).symm

/-- Every schedule is right exactly if all keys that have a server have the same one. -/
theorem delivered_request_iff {κ σ : Type} [DecidableEq κ] (call : MultiCall ε ρ)
    (client : Client κ σ β) (option : CallOption) (kvs : List β) :
    (∀ schedule, Delivered call (client.group option.readMode kvs).entries kvs
      (request call client option kvs schedule)) ↔
        OneServer (client.group option.readMode kvs).entries := by
  refine ⟨fun hall => ?_, fun hone schedule => ?_⟩
  · have hkeyed := keyed_group client option.readMode kvs
    unfold request at hall
    generalize client.group option.readMode kvs = groups at hall hkeyed ⊢
    have hkey {entry} {address : ServerAddress} (hentry : entry ∈ groups.entries)
        (haddress : entry.2.address = some address) : entry.1 ≠ nilAddress := by
      rw [hkeyed entry hentry, haddress]
      exact mapKey_some_ne_nilAddress address
    intro entry hentry address haddress
    obtain ⟨first, hfirst⟩ := mem_iff_getElem?.mp hentry
    have hcomplete := checked_of_delivered (hall _) hfirst (hkey hentry haddress) haddress
    refine ⟨hcomplete, fun other hother otherAddress hotherAddress => ?_⟩
    obtain ⟨second, hsecond⟩ := mem_iff_getElem?.mp hother
    have hotherComplete :=
      checked_of_delivered (hall _) hsecond (hkey hother hotherAddress) hotherAddress
    exact address_eq_of_delivered (hall _) hfirst hsecond (hkey hentry haddress)
      (hkey hother hotherAddress) haddress hotherAddress hotherComplete
  · exact delivered_of_oneServer (wellGrouped_group client option.readMode kvs) hone option schedule

end

def twoServers : Routing.Update where
  serviceName := [115]
  list :=
    [{ shardServer 1 with host := DecimalText.ascii "10.0.0.1".toList, port := 1234 },
      { shardServer 2 with host := DecimalText.ascii "10.0.0.2".toList, port := 1234 }]
  now := 0
  ttlInMs := 3000
  nonempty := cons_ne_nil _ _

def twoShards : Client (List Bytes × Int64) UInt64 Int64 where
  laserServiceName := [115]
  route shardId := some ⟨shardId, 0, false, 0, defaultDc⟩
  draws _ := 0
  hashing := SeededHash.free
  balancer := roundrobin
  edgeTable _ := (tableAfter SeededHash.free .go [twoServers], 0)
  shardTable _ := (tableAfter SeededHash.free .go [twoServers], 0)
  dcWalk := ⟨id, fun _ => .refl _⟩
  edgeWalk _ := ⟨id, fun _ => .refl _⟩
  routeWalk _ := ⟨id, fun _ => .refl _⟩

theorem groups_twoShards : (twoShards.group .leader [1, 2]).entries =
    [⟨ascii "10.0.0.1:1234".toList,
        ⟨some ⟨ascii "10.0.0.1".toList, 1234⟩, [(1, 0)]⟩⟩,
      ⟨ascii "10.0.0.2:1234".toList,
        ⟨some ⟨ascii "10.0.0.2".toList, 1234⟩, [(2, 1)]⟩⟩] := by
  decide

/-- The key of the first shard is sent to the server of the second. -/
theorem delivered_request_fails :
    let option : CallOption := ⟨.leader, 0, 0, ⟨[], 0⟩⟩
    let state := request (mgetSync (0 : Int64)) twoShards option [1, 2]
      [.go 0 {}, .go 1 {}, .go 0 {}, .go 0 {}]
    state.attempts = [⟨0, [1], some ⟨ascii "10.0.0.2".toList, 1234⟩⟩] ∧
      ¬ Delivered (mgetSync 0) (twoShards.group option.readMode [1, 2]).entries [1, 2] state := by
  intro option state
  have hattempts : state.attempts =
      [⟨0, [1], some ⟨ascii "10.0.0.2".toList, 1234⟩⟩] := by
    decide
  refine ⟨hattempts, fun hdelivered => ?_⟩
  obtain ⟨entry, address, hentry, -, haddress, hserver⟩ :=
    hdelivered.sent _ (hattempts ▸ mem_singleton_self _)
  rw [groups_twoShards] at hentry
  obtain rfl := some.inj hentry
  rw [← haddress] at hserver
  exact absurd hserver (by decide)

end LaserDB.GoClient
