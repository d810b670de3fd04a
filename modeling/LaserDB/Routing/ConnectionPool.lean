import LaserDB.Library.SeededHash

/-!
# The connection pool

`ConnectionPool::getConnection` caches a connection under the hash of the address with the sum of
the port and a random index as the seed.
-/

namespace LaserDB.ConnectionPool
open Function Option List

/-- A call of `getConnection`, with the number that the random generator draws. -/
structure Call where
  addr : Bytes
  port : UInt16
  maxConnPerServer : Int32
  draw : Nat
  deriving DecidableEq, Repr

structure Connection where
  serial : Nat
  addr : Bytes
  port : UInt16
  deriving DecidableEq, Repr

/-- `secureRand32(0, max_conn_per_server)`, where no limit means one connection for each event
base. -/
def expandIndex (evbCount : Nat) (call : Call) : Nat :=
  let limit : Int := if call.maxConnPerServer = 0 then evbCount else call.maxConnPerServer.toInt
  call.draw % (limit % 2 ^ 32).toNat

/-- `port + expand_index`, an `int` that is taken as a seed. -/
def keySeed (evbCount : Nat) (call : Call) : Int64 :=
  Int64.ofInt (Int.bmod (call.port.toNat + expandIndex evbCount call) (2 ^ 32))

section
variable {κ : Type} [DecidableEq κ] (hashing : SeededHash κ) (codeNumber : κ → Nat) (evbCount : Nat)

def hashKey (call : Call) : κ :=
  hashing.hash call.addr (hashing.seed (keySeed evbCount call))

structure State (κ : Type) where
  threads : Nat → κ → Option Connection := fun _ _ => none
  failed : Nat → Bool := fun _ => false
  created : Nat := 0

inductive Event
  | getConnection (call : Call)
  /-- a connection fails -/
  | fail (serial : Nat)
  deriving DecidableEq, Repr

def threadId (key : κ) : Nat := codeNumber key % evbCount

/-- `ConnectionThreadBase::getConnection`: a good connection is used again, any other is replaced. -/
def getConnection (call : Call) (state : State κ) : Connection × State κ :=
  let key := hashKey hashing evbCount call
  let thread := threadId codeNumber evbCount key
  match (state.threads thread key).filter fun connection => !state.failed connection.serial with
  | some connection => (connection, state)
  | none =>
    let connection : Connection := ⟨state.created, call.addr, call.port⟩
    (connection, { state with
      threads := update state.threads thread
        (update (state.threads thread) key (some connection))
      created := state.created + 1 })

def results : List Event → State κ → List (Call × Connection)
  | [], _ => []
  | .getConnection call :: events, state =>
    let answer := getConnection hashing codeNumber evbCount call state
    (call, answer.1) :: results events answer.2
  | .fail serial :: events, state =>
    results events { state with failed := update state.failed serial true }

def Event.call? : Event → Option Call
  | .getConnection call => some call
  | .fail _ => none

def Delivered (events : List Event) : Prop :=
  ∀ result ∈ results hashing codeNumber evbCount events {},
    result.2.addr = result.1.addr ∧ result.2.port = result.1.port

def Separate (calls : List Call) : Prop :=
  ∀ first ∈ calls, ∀ second ∈ calls, first.addr = second.addr →
    keySeed evbCount first = keySeed evbCount second → first.port = second.port

end

section
variable {κ : Type} {hashing : SeededHash κ} {codeNumber : κ → Nat} {evbCount : Nat}

theorem hashKey_eq_iff {first second : Call} :
    hashKey hashing evbCount first = hashKey hashing evbCount second ↔
      first.addr = second.addr ∧ keySeed evbCount first = keySeed evbCount second := by
  rw [hashKey, hashKey, hashing.hash_injective.eq_iff, hashing.seed_injective.eq_iff]

variable [DecidableEq κ]

theorem getConnection_cases (call : Call) (state : State κ) :
    let key := hashKey hashing evbCount call
    (∃ connection, state.threads (threadId codeNumber evbCount key) key = some connection ∧
      getConnection hashing codeNumber evbCount call state = (connection, state)) ∨
    ∃ connection : Connection, connection.addr = call.addr ∧ connection.port = call.port ∧
      (getConnection hashing codeNumber evbCount call state).1 = connection ∧
      (getConnection hashing codeNumber evbCount call state).2.failed = state.failed ∧
      ∀ thread other, (getConnection hashing codeNumber evbCount call state).2.threads thread other =
        if thread = threadId codeNumber evbCount key ∧ other = key then some connection
        else state.threads thread other := by
  intro key
  unfold getConnection
  dsimp only
  split
  · next connection hfound =>
      exact .inl ⟨connection, (filter_eq_some_iff.mp hfound).1, rfl⟩
  · refine .inr ⟨_, rfl, rfl, rfl, rfl, fun thread other => ?_⟩
    by_cases hthread : thread = threadId codeNumber evbCount key
    · subst hthread
      by_cases hother : other = key
      · subst hother
        simp [key]
      · simp [key, hother]
    · simp [key, hthread]

private def CreatedFor (hashing : SeededHash κ) (evbCount : Nat) (calls : List Call)
    (state : State κ) : Prop :=
  ∀ thread key connection, state.threads thread key = some connection →
    ∃ call ∈ calls, hashKey hashing evbCount call = key ∧
      connection.addr = call.addr ∧ connection.port = call.port

variable {state : State κ} {calls : List Call}

private theorem CreatedFor.getConnection (hcreated : CreatedFor hashing evbCount calls state)
    {call : Call} (hcall : call ∈ calls) (hseparate : Separate evbCount calls) :
    let answer := getConnection hashing codeNumber evbCount call state
    CreatedFor hashing evbCount calls answer.2 ∧
      answer.1.addr = call.addr ∧ answer.1.port = call.port := by
  intro answer
  rcases @getConnection_cases κ hashing codeNumber evbCount _ call state with
    ⟨connection, hcached, hanswer⟩ | ⟨connection, haddr, hport, hanswer, -, hthreads⟩
  · obtain ⟨creator, hcreator, hkey, haddr, hport⟩ := hcreated _ _ _ hcached
    obtain ⟨hsame, hseed⟩ := hashKey_eq_iff.mp hkey
    simp only [answer, hanswer]
    exact ⟨hcreated, haddr.trans hsame,
      hport.trans (hseparate creator hcreator call hcall hsame hseed)⟩
  · refine ⟨fun thread key found hfound => ?_, hanswer ▸ haddr, hanswer ▸ hport⟩
    rw [hthreads] at hfound
    split_ifs at hfound with hplace
    · obtain rfl := some.inj hfound
      exact ⟨call, hcall, hplace.2.symm, haddr, hport⟩
    · exact hcreated thread key found hfound

theorem delivered_of_created (hseparate : Separate evbCount calls) (events : List Event)
    (hcalls : ∀ call ∈ events.filterMap Event.call?, call ∈ calls)
    (hcreated : CreatedFor hashing evbCount calls state) :
    ∀ result ∈ results hashing codeNumber evbCount events state,
      result.2.addr = result.1.addr ∧ result.2.port = result.1.port := by
  induction events generalizing state with
  | nil => exact fun _ hresult => by cases hresult
  | cons event events ih =>
    cases event with
    | getConnection call =>
      obtain ⟨hcall, hlater⟩ := forall_mem_cons.mp hcalls
      obtain ⟨hnext, hanswer⟩ := hcreated.getConnection hcall hseparate
      exact forall_mem_cons.mpr ⟨hanswer, ih hlater hnext⟩
    | fail serial => exact ih hcalls hcreated

theorem getConnection_after (call : Call) (state : State κ) :
    let answer := getConnection hashing codeNumber evbCount call state
    let key := hashKey hashing evbCount call
    answer.2.failed = state.failed ∧
      answer.2.threads (threadId codeNumber evbCount key) key = some answer.1 ∧
      ∀ thread other, other ≠ key → answer.2.threads thread other = state.threads thread other := by
  intro answer key
  rcases @getConnection_cases κ hashing codeNumber evbCount _ call state with
    ⟨found, hfound, hanswer⟩ | ⟨found, -, -, hanswer, hfailed, hthreads⟩
  · have hunchanged : answer = (found, state) := hanswer
    rw [hunchanged]
    exact ⟨rfl, hfound, fun _ _ _ => rfl⟩
  · refine ⟨hfailed, ?_, fun thread other hother => ?_⟩
    · simp only [answer, key, hthreads, hanswer, and_self, if_true]
    · simp only [answer, hthreads]
      exact if_neg fun hplace => hother hplace.2

section
variable (hgood : ∀ serial, state.failed serial = false)
include hgood

variable {connection : Connection}

theorem getConnection_of_good {call : Call}
    (hcached : state.threads (threadId codeNumber evbCount (hashKey hashing evbCount call))
      (hashKey hashing evbCount call) = some connection) :
    getConnection hashing codeNumber evbCount call state = (connection, state) := by
  simp [getConnection, hcached, hgood, Option.filter]

theorem results_of_cached {key : κ}
    (hcached : state.threads (threadId codeNumber evbCount key) key = some connection) :
    ∀ result ∈ results hashing codeNumber evbCount (calls.map .getConnection) state,
      hashKey hashing evbCount result.1 = key → result.2 = connection := by
  induction calls generalizing state with
  | nil => exact fun _ hresult => by cases hresult
  | cons call calls ih =>
    by_cases hkey : hashKey hashing evbCount call = key
    · subst hkey
      have hanswer := getConnection_of_good hgood hcached
      refine forall_mem_cons.mpr ⟨fun _ => congrArg Prod.fst hanswer, ?_⟩
      rw [hanswer]
      exact ih hgood hcached
    · obtain ⟨hfailed, -, hothers⟩ :=
        @getConnection_after κ hashing codeNumber evbCount _ call state
      refine forall_mem_cons.mpr ⟨fun hsame => absurd hsame hkey, ih ?_ ?_⟩
      · rw [hfailed]
        exact hgood
      · rw [hothers _ _ (Ne.symm hkey)]
        exact hcached

theorem results_same_key :
    ∀ first ∈ results hashing codeNumber evbCount (calls.map .getConnection) state,
      ∀ second ∈ results hashing codeNumber evbCount (calls.map .getConnection) state,
        hashKey hashing evbCount first.1 = hashKey hashing evbCount second.1 →
          first.2 = second.2 := by
  induction calls generalizing state with
  | nil => exact fun _ hresult => by cases hresult
  | cons call calls ih =>
    obtain ⟨hfailed, hcached, -⟩ := @getConnection_after κ hashing codeNumber evbCount _ call state
    rw [← hfailed] at hgood
    have hlater := @results_of_cached κ hashing _ _ _ _ calls hgood _ _ hcached
    intro first hfirst second hsecond hkey
    rcases mem_cons.mp hfirst with rfl | hfirst <;>
      rcases mem_cons.mp hsecond with rfl | hsecond
    · rfl
    · exact (hlater second hsecond hkey.symm).symm
    · exact hlater first hfirst hkey
    · exact ih hgood first hfirst second hsecond hkey

end

theorem results_map_fst (calls : List Call) (state : State κ) :
    (results hashing codeNumber evbCount (calls.map .getConnection) state).map Prod.fst = calls := by
  induction calls generalizing state with
  | nil => rfl
  | cons call calls ih => exact congrArg _ (ih _)

end

/-- Whenever connections fail, every call gets a connection to its own address and port exactly
when the calls to different ports of an address are separate. -/
theorem delivered_iff {κ : Type} [DecidableEq κ] (hashing : SeededHash κ) (codeNumber : κ → Nat)
    (evbCount : Nat) (calls : List Call) :
    (∀ events : List Event, events.filterMap Event.call? = calls →
      Delivered hashing codeNumber evbCount events) ↔ Separate evbCount calls := by
  constructor
  · intro hdelivered first hfirst second hsecond haddr hseed
    have hcalls : (calls.map Event.getConnection).filterMap Event.call? = calls := by
      rw [filterMap_map]
      exact filterMap_some
    have hresults := hdelivered (calls.map .getConnection) hcalls
    have hresult {call : Call} (hcall : call ∈ calls) : ∃ connection, (call, connection) ∈
        results hashing codeNumber evbCount (calls.map .getConnection) {} := by
      rw [← @results_map_fst κ hashing codeNumber evbCount _ calls {}] at hcall
      obtain ⟨⟨_, connection⟩, hmem, rfl⟩ := mem_map.mp hcall
      exact ⟨connection, hmem⟩
    obtain ⟨connection, hconnection⟩ := hresult hfirst
    obtain ⟨other, hother⟩ := hresult hsecond
    obtain rfl : connection = other := results_same_key (fun _ => rfl) _ hconnection _ hother
      (hashKey_eq_iff.mpr ⟨haddr, hseed⟩)
    exact (hresults _ hconnection).2.symm.trans (hresults _ hother).2
  · rintro hseparate events rfl
    refine delivered_of_created hseparate events (fun _ hcall => hcall) ?_
    exact fun _ _ _ hnone => by cases hnone

/-- Port 81 gets the connection that was made for port 80. -/
theorem delivered_fails :
    let calls : List Call := [⟨[97], 80, 2, 1⟩, ⟨[97], 81, 2, 0⟩]
    (results SeededHash.free (fun _ => 0) 1 (calls.map .getConnection) {}).map Prod.snd =
        [⟨0, [97], 80⟩, ⟨0, [97], 80⟩] ∧
      ¬ Delivered SeededHash.free (fun _ => 0) 1 (calls.map .getConnection) := by
  intro calls
  have hresults : results SeededHash.free (fun _ => 0) 1 (calls.map .getConnection) {} =
      [(⟨[97], 80, 2, 1⟩, ⟨0, [97], 80⟩), (⟨[97], 81, 2, 0⟩, ⟨0, [97], 80⟩)] := by
    decide
  refine ⟨congrArg _ hresults, fun hdelivered => ?_⟩
  have hsecond := hdelivered (⟨[97], 81, 2, 0⟩, ⟨0, [97], 80⟩) (by rw [hresults]; simp)
  exact absurd hsecond.2 (by decide)

end LaserDB.ConnectionPool
