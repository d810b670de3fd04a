import LaserDB.Routing.RouterDb

/-!
# Pulls of the servers of a service, and registrations

`ConsulRegistry` of both routers remembers the last index of consul that it has seen, and tells its
subscriber of servers with another one.  `fallback` of C++ replays registrations that failed.
-/

namespace LaserDB.Registry

open Simulation Routing Function Option

/-- A value that is no server is left out in C++, and is whatever `Unmarshal` makes of it in Go. -/
inductive Parser where
  | cpp (deserialize : Bytes → Option Server)
  | go (unmarshal : Bytes → Server)

def Parser.servers : Parser → List Bytes → List Server
  | .cpp deserialize, values => values.filterMap deserialize
  | .go unmarshal, values => values.map unmarshal

inductive Phase where
  | read
  | checked (isUpdate : Bool)
  | done
  deriving DecidableEq, Repr

structure Pull where
  values : List Bytes
  index : Nat
  phase : Phase

/-- The nodes of a service in consul, and what the registry has made of them. -/
structure State where
  values : List Bytes
  index : Nat
  lastIndex : Option Nat
  pulls : Nat → Option Pull
  notified : List (List Server)

inductive Event where
  | change (values : List Bytes) (growth : Nat)
  | discover (id : Nat)
  | check (id : Nat)
  | notify (id : Nat)

/-- `checkUpdate` of both registries. -/
def checkUpdate (lastIndex : Option Nat) (index : Nat) : Bool × Option Nat :=
  if index = lastIndex.getD 0 then (false, lastIndex) else (true, some index)

/-- The indexes of consul are positive. -/
def State.initial (values : List Bytes) (index : Nat) : State :=
  ⟨values, index + 1, none, fun _ => none, []⟩

def State.setPull (state : State) (id : Nat) (pull : Pull) : State :=
  { state with pulls := update state.pulls id (some pull) }

/-- `discover` asks consul, and `processDiscover` checks the index and notifies the subscriber. -/
def step (parser : Parser) : Event → State → State
  | .change values growth, state => { state with values, index := state.index + growth + 1 }
  | .discover id, state =>
    if (state.pulls id).isNone then state.setPull id ⟨state.values, state.index, .read⟩ else state
  | .check id, state =>
    match state.pulls id with
    | some ⟨values, index, .read⟩ =>
      let (isUpdate, lastIndex) := checkUpdate state.lastIndex index
      { state.setPull id ⟨values, index, .checked isUpdate⟩ with lastIndex }
    | _ => state
  | .notify id, state =>
    match state.pulls id with
    | some ⟨values, index, .checked isUpdate⟩ =>
      let state := state.setPull id ⟨values, index, .done⟩
      if values.isEmpty || !isUpdate then state
      else { state with notified := state.notified ++ [parser.servers values] }
    | _ => state

/-- No pull goes on behind one that has read later and has been checked. -/
def InOrder : Event → State → Prop
  | .check id, state | .notify id, state =>
    ∀ pull, state.pulls id = some pull → state.lastIndex.getD 0 ≤ pull.index
  | _, _ => True

structure Sound (parser : Parser) (state : State) : Prop where
  positive : 0 < state.index
  remembered : state.lastIndex.getD 0 ≤ state.index
  bounded : ∀ id pull, state.pulls id = some pull → 0 < pull.index ∧ pull.index ≤ state.index
  current : ∀ id pull, state.pulls id = some pull → pull.index = state.index →
    pull.values = state.values
  passed : ∀ id pull, state.pulls id = some pull → pull.phase ≠ .read →
    pull.index = state.index → state.lastIndex = some state.index
  told : state.lastIndex = some state.index → state.values ≠ [] →
    state.notified.getLast? = some (parser.servers state.values) ∨
      ∃ id pull, state.pulls id = some pull ∧ pull.phase = .checked true ∧ pull.index = state.index

variable {parser : Parser} {state : State}

theorem pulls_setPull {id other : Nat} {pull found : Pull}
    (hfound : (state.setPull id pull).pulls other = some found) :
    other = id ∧ found = pull ∨ other ≠ id ∧ state.pulls other = some found := by
  by_cases hother : other = id
  · subst hother
    exact .inl ⟨rfl, some.inj (hfound.symm.trans (update_self ..))⟩
  · exact .inr ⟨hother, (update_of_ne hother ..).symm.trans hfound⟩

/-- A pull goes on.  What decides is the pull of the current values: once it is checked its index
is remembered, and then the subscriber has them or is about to be told. -/
theorem Sound.advance (hsound : Sound parser state) {id : Nat} {pull : Pull}
    (hpull : state.pulls id = some pull) {phase : Phase} {lastIndex : Option Nat}
    {notified : List (List Server)} (hremembered : lastIndex.getD 0 ≤ state.index)
    (hpassed : pull.index = state.index → lastIndex = some state.index)
    (hkeeps : state.lastIndex = some state.index → lastIndex = some state.index)
    (htold : lastIndex = some state.index → state.values ≠ [] →
      notified.getLast? = some (parser.servers state.values) ∨
        phase = .checked true ∧ pull.index = state.index ∨
        ∃ other ≠ id, ∃ found, state.pulls other = some found ∧ found.phase = .checked true ∧
          found.index = state.index) :
    Sound parser { state.setPull id ⟨pull.values, pull.index, phase⟩ with lastIndex, notified } where
  positive := hsound.positive
  remembered := hremembered
  bounded := by
    intro other found hfound
    obtain ⟨rfl, rfl⟩ | ⟨-, hfound⟩ := pulls_setPull hfound
    · exact hsound.bounded other pull hpull
    · exact hsound.bounded other found hfound
  current := by
    intro other found hfound
    obtain ⟨rfl, rfl⟩ | ⟨-, hfound⟩ := pulls_setPull hfound
    · exact hsound.current other pull hpull
    · exact hsound.current other found hfound
  passed := by
    intro other found hfound hphase hindex
    obtain ⟨rfl, rfl⟩ | ⟨-, hfound⟩ := pulls_setPull hfound
    · exact hpassed hindex
    · exact hkeeps (hsound.passed other found hfound hphase hindex)
  told := by
    intro hlast hvalues
    rcases htold hlast hvalues with htold | ⟨hphase, hindex⟩ | ⟨other, hother, found, hfound, hrest⟩
    · exact .inl htold
    · exact .inr ⟨id, _, update_self .., hphase, hindex⟩
    · exact .inr ⟨other, found, (update_of_ne hother ..).trans hfound, hrest⟩

theorem Sound.change (hsound : Sound parser state) (values : List Bytes) (growth : Nat) :
    Sound parser { state with values, index := state.index + growth + 1 } := by
  have hremembered := hsound.remembered
  have hold (id : Nat) (pull : Pull) (hpull : state.pulls id = some pull) :
      pull.index ≠ state.index + growth + 1 := by
    have hle := (hsound.bounded id pull hpull).2
    omega
  refine ⟨Nat.succ_pos _, by dsimp only; omega, fun id pull hpull => ?_, fun id pull hpull hindex => ?_,
    fun id pull hpull _ hindex => ?_, fun hlast => ?_⟩
  · obtain ⟨hpos, hle⟩ := hsound.bounded id pull hpull
    exact ⟨hpos, by dsimp only; omega⟩
  · exact absurd hindex (hold id pull hpull)
  · exact absurd hindex (hold id pull hpull)
  · have hlast : state.lastIndex = some (state.index + growth + 1) := hlast
    rw [hlast, getD_some] at hremembered
    omega

theorem Sound.discover (hsound : Sound parser state) {id : Nat} (hnone : state.pulls id = none) :
    Sound parser (state.setPull id ⟨state.values, state.index, .read⟩) where
  positive := hsound.positive
  remembered := hsound.remembered
  bounded := by
    intro other found hfound
    obtain ⟨-, rfl⟩ | ⟨-, hfound⟩ := pulls_setPull hfound
    · exact ⟨hsound.positive, le_rfl⟩
    · exact hsound.bounded other found hfound
  current := by
    intro other found hfound
    obtain ⟨-, rfl⟩ | ⟨-, hfound⟩ := pulls_setPull hfound
    · exact fun _ => rfl
    · exact hsound.current other found hfound
  passed := by
    intro other found hfound hphase
    obtain ⟨-, rfl⟩ | ⟨-, hfound⟩ := pulls_setPull hfound
    · exact absurd rfl hphase
    · exact hsound.passed other found hfound hphase
  told := by
    intro hlast hvalues
    rcases hsound.told hlast hvalues with htold | ⟨other, found, hfound, hrest⟩
    · exact .inl htold
    · have hother : other ≠ id := by
        rintro rfl
        cases hnone.symm.trans hfound
      exact .inr ⟨other, found, (update_of_ne hother ..).trans hfound, hrest⟩

private theorem Sound.step (hsound : Sound parser state) {event : Event}
    (horder : InOrder event state) : Sound parser (step parser event state) := by
  cases event <;> simp only [Registry.step]
  case change values growth => exact hsound.change values growth
  case discover id =>
    split
    · rename_i hnone
      exact hsound.discover (isNone_iff_eq_none.mp hnone)
    · exact hsound
  case check id =>
    split
    · rename_i values index hpull
      have hlast := horder _ hpull
      obtain ⟨hpos, hle⟩ := hsound.bounded id _ hpull
      unfold checkUpdate
      split
      · rename_i hindex
        refine hsound.advance hpull hsound.remembered (fun hcurrent => ?_) (fun hseen => hseen)
          fun hlast hvalues => ?_
        · cases hseen : state.lastIndex with
          | none =>
            rw [hseen] at hindex
            exact absurd hindex hpos.ne'
          | some last =>
            rw [hseen] at hindex
            exact congrArg some (hindex.symm.trans hcurrent)
        · rcases hsound.told hlast hvalues with htold | ⟨other, found, hfound, hphase, hrest⟩
          · exact .inl htold
          · refine .inr (.inr ⟨other, ?_, found, hfound, hphase, hrest⟩)
            rintro rfl
            obtain rfl := some.inj (hpull.symm.trans hfound)
            cases hphase
      · refine hsound.advance hpull hle (congrArg some) (fun hseen => ?_)
          fun hlast _ => .inr (.inl ⟨rfl, some.inj hlast⟩)
        rw [hseen] at hlast
        exact congrArg some (le_antisymm hle hlast)
    · exact hsound
  case notify id =>
    split
    · rename_i values index isUpdate hpull
      have hlast := horder _ hpull
      have hle := (hsound.bounded id _ hpull).2
      have hcurrent := hsound.current id _ hpull
      have hpassed := hsound.passed id _ hpull nofun
      split
      · rename_i hsilent
        refine hsound.advance hpull hsound.remembered hpassed (fun hseen => hseen) fun hseen hvalues => ?_
        rcases hsound.told hseen hvalues with htold | ⟨other, found, hfound, hphase, hindex⟩
        · exact .inl htold
        · refine .inr (.inr ⟨other, ?_, found, hfound, hphase, hindex⟩)
          -- The pull of the current values would have told them.
          rintro rfl
          obtain rfl := some.inj (hpull.symm.trans hfound)
          cases hphase
          have hempty : values = [] := by simpa using hsilent
          exact hvalues ((hcurrent hindex).symm.trans hempty)
      · refine hsound.advance hpull hsound.remembered hpassed (fun hseen => hseen) fun hseen _ => ?_
        have hseen : state.lastIndex = some state.index := hseen
        rw [hseen] at hlast
        have hvalues : values = state.values := hcurrent (le_antisymm hle hlast)
        rw [hvalues, List.getLast?_concat]
        exact .inl rfl
    · exact hsound

/-- If all pulls have ended, and one of them has read what is in consul, the subscriber knows. -/
def Converged (parser : Parser) (state : State) : Prop :=
  (∀ id pull, state.pulls id = some pull → pull.phase = .done) →
    (∃ id pull, state.pulls id = some pull ∧ pull.index = state.index) → state.values ≠ [] →
      state.notified.getLast? = some (parser.servers state.values)

theorem pulls_converge {parser : Parser} {values : List Bytes} {index : Nat} {events : List Event}
    (horder : Guarded (step parser) InOrder events (.initial values index)) :
    Converged parser (finalState (step parser) events (.initial values index)) := by
  have hstart : Sound parser (.initial values index) := by
    constructor <;> simp [State.initial]
  have hsound := invariant_finalState (fun _ _ hsound => hsound.step) hstart horder
  rintro hdone ⟨id, pull, hpull, hindex⟩ hvalues
  have hphase : pull.phase ≠ .read := by simp [hdone id pull hpull]
  obtain hlast | ⟨other, waiting, hwaiting, hchecked, -⟩ :=
    hsound.told (hsound.passed id pull hpull hphase hindex) hvalues
  · exact hlast
  · cases (hdone other waiting hwaiting).symm.trans hchecked

theorem overtaken_stale (hne : parser.servers [[1]] ≠ parser.servers [[2]]) :
    ¬Converged parser (finalState (step parser) [.discover 0, .change [[2]] 0, .discover 1, .check 1,
      .notify 1, .check 0, .notify 0] (.initial [[1]] 0)) := by
  intro hconverged
  refine hne (some.inj (hconverged (fun id pull hpull => ?_) ⟨1, _, rfl, rfl⟩ nofun))
  match id with
  | 0 | 1 => exact (some.inj hpull) ▸ rfl
  | id + 2 => cases hpull

def serverAt (host : Bytes) : Server := ⟨host, 0, .thrift, .available, [], 0, [], [], [], [], false, []⟩

theorem pulls_converge_twice :
    Converged (.go serverAt) (finalState (step (.go serverAt))
      [.discover 0, .change [[2]] 0, .check 0, .discover 1, .notify 0, .check 1, .notify 1]
      (.initial [[1]] 0)) := by
  refine pulls_converge ?_
  simp [Guarded, step, InOrder, State.initial, State.setPull, checkUpdate]

/-- The second of two pulls is through before the first is checked. -/
theorem overtaken_pull_sticks :
    ¬(∀ events, Converged (.cpp (some ∘ serverAt))
        (finalState (step (.cpp (some ∘ serverAt))) events (.initial [[1]] 0))) ∧
      ¬∀ events, Converged (.go serverAt)
        (finalState (step (.go serverAt)) events (.initial [[1]] 0)) :=
  ⟨fun hall => overtaken_stale (by decide) (hall _), fun hall => overtaken_stale (by decide) (hall _)⟩

namespace Fallback

open List

inductive FallbackType
  | register | unregister

structure FallBackDetail where
  server : Server
  type : FallbackType

/-- What consul holds of the server when the call has gone through. -/
def FallBackDetail.left (detail : FallBackDetail) : Option Server :=
  match detail.type with
  | .register => some detail.server
  | .unregister => none

inductive Call
  | registerServer (server : Server)
  | unregisterServer (server : Server)
  | available (server : Server)
  | unavailable (server : Server)

def Call.detail : Call → FallBackDetail
  | .registerServer server => ⟨server, .register⟩
  | .unregisterServer server => ⟨server, .unregister⟩
  | .available server => ⟨{ server with status := .available }, .register⟩
  | .unavailable server => ⟨{ server with status := .unavailable }, .register⟩

/-- The key in consul of one server of a service with a name, its entry in `fallbacks_`, and the
replays that consul has not answered yet. -/
structure Registration where
  consul : Option Server := none
  fallback : Option FallBackDetail := none
  replays : List FallBackDetail := []

def Registration.answer (registry : Registration) (detail : FallBackDetail) (ok : Bool) :
    Registration :=
  if ok then { registry with consul := detail.left }
  else { registry with fallback := some detail }

inductive Event
  | call (call : Call) (ok : Bool)
  | fallback
  | replayed (index : Nat) (ok : Bool)

def step : Event → Registration → Registration
  | .call call ok, registry => registry.answer call.detail ok
  | .fallback, registry =>
    { registry with fallback := none, replays := registry.replays ++ registry.fallback.toList }
  | .replayed index ok, registry =>
    match registry.replays[index]? with
    | none => registry
    | some detail =>
      Registration.answer { registry with replays := registry.replays.eraseIdx index } detail ok

def Event.isCall : Event → Bool
  | .call .. => true
  | _ => false

/-- Consul answers the replays under way, and then those of one more round. -/
def Registration.rounds (registry : Registration) : List Event :=
  replicate registry.replays.length (.replayed 0 true) ++ [.fallback, .replayed 0 true]

/-- Whatever is tried again leaves the same as the call. -/
structure Registration.Agrees (registry : Registration) (left : Option Server) : Prop where
  fallback : ∀ detail ∈ registry.fallback, detail.left = left
  replays : ∀ detail ∈ registry.replays, detail.left = left
  consul : registry.consul = left ∨ registry.fallback ≠ none ∨ registry.replays ≠ []

variable {registry : Registration} {left : Option Server} {event : Event}

variable (hagrees : registry.Agrees left)
include hagrees

theorem Registration.Agrees.next (hcall : event.isCall = false) :
    (step event registry).Agrees left := by
  obtain ⟨hfallback, hreplays, hconsul⟩ := hagrees
  cases event with
  | call => cases hcall
  | fallback =>
    refine ⟨nofun, fun detail hdetail => ?_, ?_⟩
    · rcases mem_append.mp hdetail with hreplay | hentry
      · exact hreplays detail hreplay
      · exact hfallback detail (Option.mem_toList.mp hentry)
    · rcases hconsul with hconsul | hentry | hreplay
      · exact .inl hconsul
      · obtain ⟨detail, hdetail⟩ := Option.ne_none_iff_exists'.mp hentry
        exact .inr (.inr (by simp [step, hdetail]))
      · exact .inr (.inr (by simp [step, hreplay]))
  | replayed index ok =>
    simp only [step]
    cases hindex : registry.replays[index]? with
    | none => exact ⟨hfallback, hreplays, hconsul⟩
    | some detail =>
      have hleft := hreplays detail (mem_of_getElem? hindex)
      have hrest : ∀ other ∈ registry.replays.eraseIdx index, other.left = left :=
        fun other hother => hreplays other (mem_of_mem_eraseIdx hother)
      cases ok with
      | true => exact ⟨hfallback, hrest, .inl hleft⟩
      | false => exact ⟨fun other hother => by cases hother; exact hleft, hrest, .inr (.inl nofun)⟩

theorem Registration.Agrees.run {events : List Event}
    (hcalls : ∀ event ∈ events, event.isCall = false) :
    (finalState step events registry).Agrees left := by
  induction events generalizing registry with
  | nil => exact hagrees
  | cons event events ih =>
    obtain ⟨hevent, hrest⟩ := forall_mem_cons.mp hcalls
    exact ih (hagrees.next hevent) hrest

theorem finalState_rounds :
    finalState step registry.rounds registry = ⟨left, none, []⟩ := by
  obtain ⟨consul, fallback, replays⟩ := registry
  obtain ⟨hfallback, hreplays, hconsul⟩ := hagrees
  induction replays generalizing consul with
  | nil =>
    cases fallback with
    | none =>
      have heq : consul = left := hconsul.resolve_right (by simp)
      rw [heq]
      rfl
    | some detail => exact congrArg (Registration.mk · none []) (hfallback detail rfl)
  | cons detail replays ih =>
    obtain ⟨hdetail, hrest⟩ := forall_mem_cons.mp hreplays
    exact ih detail.left hfallback hrest (.inl hdetail)

omit hagrees

/-- Consul ends with what the last call leaves if all that is then to be tried again leaves the
same, or is replaced by the failed call itself. -/
theorem settles_of_agrees (before after : List Event) (call : Call) (ok : Bool)
    (hcalls : ∀ event ∈ after, event.isCall = false)
    (hreplays : ∀ detail ∈ (finalState step before {}).replays, detail.left = call.detail.left)
    (hfallback : ok = true →
      ∀ detail ∈ (finalState step before {}).fallback, detail.left = call.detail.left) :
    let stopped := finalState step (before ++ .call call ok :: after) {}
    finalState step stopped.rounds stopped = ⟨call.detail.left, none, []⟩ := by
  intro stopped
  have hlast : (step (.call call ok) (finalState step before {})).Agrees call.detail.left := by
    cases ok with
    | true => exact ⟨hfallback rfl, hreplays, .inl rfl⟩
    | false => exact ⟨fun _ hdetail => by cases hdetail; rfl, hreplays, .inr (.inl nofun)⟩
  have hstopped :
      stopped = finalState step after (step (.call call ok) (finalState step before {})) :=
    finalState_append step before (.call call ok :: after) {}
  exact finalState_rounds (hstopped ▸ hlast.run hcalls)

/-- Two calls fail, the first is under way again when a third goes through, and then fails again. -/
theorem settles_replayed :
    let call : Call := .available (serverAt [])
    let stopped := finalState step [.call call false, .fallback, .call call false, .call call true,
      .replayed 0 false, .fallback] {}
    stopped.replays = [call.detail] ∧
      finalState step stopped.rounds stopped = ⟨call.detail.left, none, []⟩ := by
  intro call
  refine ⟨rfl, settles_of_agrees [.call call false, .fallback, .call call false]
    [.replayed 0 false, .fallback] call true ?_ ?_ ?_⟩
  · exact forall_mem_cons.mpr ⟨rfl, forall_mem_singleton.mpr rfl⟩
  · exact forall_mem_singleton.mpr rfl
  · intro _ detail hdetail
    cases hdetail
    rfl

/-- The server is registered again after it was unregistered. -/
theorem unregistered_returns : finalState step [.call (.registerServer (serverAt [])) false,
    .call (.unregisterServer (serverAt [])) true, .fallback, .replayed 0 true] {} =
      ⟨serverAt [], none, []⟩ :=
  rfl

end Fallback

end LaserDB.Registry
