import LaserDB.Concurrency.Programs

/-!
# Concurrent calls on one key

All calls but `set` and `get` hold the `ScopedKeyLock` of the key.
-/

namespace LaserDB

open Reads

open Linearize (next)
open Simulation (finalState)
open RocksDbEngine List LaserValue
open Linearize (Finish Object)

inductive KeyCall where
  | set (data : Bytes)
  | append (data : Bytes)
  | setx (data : Bytes) (options : SetOptions)
  | get
  | incr (step : UInt64)
  | decr (step : UInt64)
  | hset (field value : Bytes)
  | hmset (values : OrderedMap Bytes Bytes)
  | hdel (field : Bytes)
  | pushFront (value : Bytes)
  | pushBack (value : Bytes)
  | popFront
  | popBack
  | sadd (member : Bytes)
  | sdel (member : Bytes)
  | zadd (memberScores : OrderedMap Bytes Int64)
  | delkey

namespace KeyCall

def call (key : LaserKey) : KeyCall → Call
  | .set data => .set key data
  | .append data => .append key data
  | .setx data options => .setx key data options
  | .get => .get key
  | .incr step => .incr key step
  | .decr step => .decr key step
  | .hset field value => .hset key field value
  | .hmset values => .hmset key values
  | .hdel field => .hdel key field
  | .pushFront value => .pushFront key value
  | .pushBack value => .pushBack key value
  | .popFront => .popFront key
  | .popBack => .popBack key
  | .sadd member => .sadd key member
  | .sdel member => .sdel key member
  | .zadd memberScores => .zadd key memberScores
  | .delkey => .delkey key

def locks : KeyCall → Bool
  | .set _ => false
  | .get => false
  | _ => true

end KeyCall

section
variable {α : Type}

def finishOf (env : Env) (payload : α → Payload) (fallback : α) :
    Except Status (α × RocksDbBatch) → Finish ReplicationDB Reply
  | .error status => .reply (status, payload fallback)
  | .ok (result, batch) =>
    .update fun db =>
      let (status, db) := db.write env batch
      ((status, payload result), db)

def finishDelkey (env : Env) : Except Status (Option RocksDbBatch) → Finish ReplicationDB Reply
  | .error status => .reply (status, .nothing)
  | .ok none => .reply (.OK, .nothing)
  | .ok (some batch) =>
    .update fun db =>
      let (status, db) := db.write env batch
      ((status, .nothing), db)

def getReply (env : Env) : Except RocksDbFault (Option Bytes) → Reply
  | .error fault => (convertRocksDbStatus (.fault fault), .text [])
  | .ok none => (.RS_NOT_FOUND, .text [])
  | .ok (some bytes) =>
    match (LaserValueRawString.ofBuffer bytes).decode with
    | (.accepted, value) =>
      (if checkKeyExpire env value then .RS_KEY_EXPIRE else .OK, .text value.value)
    | (_, value) => (.RS_INVALID_ARGUMENT, .text value.value)

theorem finishOf_apply (env : Env) (payload : α → Payload) (fallback : α)
    (plan : Except Status (α × RocksDbBatch)) (db : ReplicationDB) (ttl : UInt64) :
    (finishOf env payload fallback plan).apply db =
      ((answer payload (commit ⟨db, ttl⟩ env fallback plan)).1,
        (answer payload (commit ⟨db, ttl⟩ env fallback plan)).2.db) := by
  cases plan with
  | error | ok => rfl

end

def KeyCall.program (ttl : UInt64) (key : LaserKey) (env : Env) :
    KeyCall → Linearize.Program Query Query.Answer (Finish ReplicationDB Reply)
  | .set data =>
    .finish (finishOf env (fun _ => .nothing) () ((ofTtl ttl).setPlan env (getFormatKey key) data))
  | .append data => do
      let plan ← (Reads.append ttl env (getFormatKey key) data).run
      return finishOf env .length 0 plan
  | .setx data options => do
      let plan ← (Reads.setx ttl env (getFormatKey key) data options).run
      return finishOf env (fun _ => .nothing) () plan
  | .get =>
    let rawKey := (getFormatKey key).toLaserSerializer.rawData
    .ask (.get (env.readFault rawKey) rawKey) fun found => .finish (.reply (getReply env found))
  | .incr step => do
      let plan ← (Reads.setCounterByStep ttl env (getFormatKey key) step.toInt64).run
      return finishOf env .number 0 plan
  | .decr step => do
      let plan ← (Reads.setCounterByStep ttl env (getFormatKey key) (-step).toInt64).run
      return finishOf env .number 0 plan
  | .hset field value => do
      let plan ← (Reads.hset ttl env (getFormatKey key) field value).run
      return finishOf env (fun _ => .nothing) () plan
  | .hmset values => do
      let plan ← (Reads.hmset ttl env (getFormatKey key) values).run
      return finishOf env (fun _ => .nothing) () plan
  | .hdel field => do
      let plan ← (Reads.hdel env (getFormatKey key) field).run
      return finishOf env (fun _ => .nothing) () plan
  | .pushFront value => do
      let plan ← (Reads.listPush ttl env (getFormatKey key) value true).run
      return finishOf env (fun _ => .nothing) () plan
  | .pushBack value => do
      let plan ← (Reads.listPush ttl env (getFormatKey key) value false).run
      return finishOf env (fun _ => .nothing) () plan
  | .popFront => do
      let plan ← (Reads.listPop env (getFormatKey key) true).run
      return finishOf env (fun value => .text value.value) LaserValueRawString.new plan
  | .popBack => do
      let plan ← (Reads.listPop env (getFormatKey key) false).run
      return finishOf env (fun value => .text value.value) LaserValueRawString.new plan
  | .sadd member => do
      let plan ← (Reads.sadd ttl env (getFormatKey key) member).run
      return finishOf env (fun _ => .nothing) () plan
  | .sdel member => do
      let plan ← (Reads.sdel env (getFormatKey key) member).run
      return finishOf env (fun _ => .nothing) () plan
  | .zadd memberScores => do
      let plan ← (Reads.zadd ttl env (getFormatKey key) memberScores).run
      return finishOf env (fun _ => .nothing) () plan
  | .delkey => do
      let plan ← (Reads.delkey env (getFormatKey key)).run
      return finishDelkey env plan

/-- The database as an object that is called on one key, each call with its own clock
and errors. -/
def keyObject (ttl : UInt64) (key : LaserKey) :
    Object Query Query.Answer ReplicationDB (Env × KeyCall) Reply where
  answer := ReplicationDB.answer
  program := fun (env, call) => call.program ttl key env
  locks := fun (_, call) => call.locks

def keyExec (ttl : UInt64) (key : LaserKey) (op : Env × KeyCall) (db : ReplicationDB) :
    Reply × ReplicationDB :=
  let result := (op.2.call key).exec op.1 ⟨db, ttl⟩
  (result.1, result.2.db)

open LaserValueRawString (new ofBuffer)

section
variable {α : Type} (ttl : UInt64) (key : LaserKey) (env : Env) (db : ReplicationDB)

theorem apply_reads (payload : α → Payload) (fallback : α)
    {reads : Reads (α × RocksDbBatch)} {plan : Except Status (α × RocksDbBatch)}
    (hreads : reads.eval db = plan) :
    (Linearize.Program.eval db.answer (do
      let plan ← reads.run
      return finishOf env payload fallback plan)).apply db =
      ((answer payload (commit ⟨db, ttl⟩ env fallback plan)).1,
        (answer payload (commit ⟨db, ttl⟩ env fallback plan)).2.db) := by
  rw [Linearize.Program.eval_bind]
  show (finishOf env payload fallback (reads.eval db)).apply db = _
  rw [hreads]
  exact finishOf_apply env payload fallback plan db ttl

theorem exec_get :
    (keyObject ttl key).exec (env, .get) db = keyExec ttl key (env, .get) db := by
  show (getReply env (db.answer (.get _ _)), db) = _
  simp only [keyExec, KeyCall.call, Call.exec, RocksDbEngine.get, RocksDbEngine.getValue,
    ReplicationDB.read]
  cases hfault : env.readFault (getFormatKey key).toLaserSerializer.rawData with
  | some fault => cases fault <;> rfl
  | none =>
    cases hget : db.store.get (getFormatKey key).toLaserSerializer.rawData with
    | none =>
      simp only [ReplicationDB.answer, hget]
      rfl
    | some bytes =>
      have hbuffer : setRawBuffer new bytes =
          ofBuffer bytes := rfl
      simp only [ReplicationDB.answer, hget, getReply, hbuffer]
      cases hdecode : (ofBuffer bytes).decode with
      | mk verdict value =>
        have hvalue : decode (ofBuffer bytes) = (verdict, value) := hdecode
        simp only [convertRocksDbStatus, hvalue]
        cases verdict <;> rfl

theorem keyObject_exec : (keyObject ttl key).exec = keyExec ttl key := by
  funext ⟨env, call⟩ db
  cases call with
  | get => exact exec_get ttl key env db
  | set data => exact finishOf_apply env _ () _ db ttl
  | append data =>
    exact apply_reads ttl env db _ _ (eval_append db ttl env (getFormatKey key) data)
  | setx data options =>
    exact apply_reads ttl env db _ _ (eval_setx db ttl env (getFormatKey key) data options)
  | incr step =>
    exact apply_reads ttl env db _ _
      (eval_setCounterByStep db ttl env (getFormatKey key) step.toInt64)
  | decr step =>
    exact apply_reads ttl env db _ _
      (eval_setCounterByStep db ttl env (getFormatKey key) (-step).toInt64)
  | hset field value =>
    exact apply_reads ttl env db _ _ (eval_hset db ttl env (getFormatKey key) field value)
  | hmset values =>
    exact apply_reads ttl env db _ _ (eval_hmset db ttl env (getFormatKey key) values)
  | hdel field =>
    exact apply_reads ttl env db _ _ (eval_hdel db ttl env (getFormatKey key) field)
  | pushFront value =>
    exact apply_reads ttl env db _ _ (eval_listPush db ttl env (getFormatKey key) value true)
  | pushBack value =>
    exact apply_reads ttl env db _ _ (eval_listPush db ttl env (getFormatKey key) value false)
  | popFront =>
    exact apply_reads ttl env db _ _ (eval_listPop db ttl env (getFormatKey key) true)
  | popBack =>
    exact apply_reads ttl env db _ _ (eval_listPop db ttl env (getFormatKey key) false)
  | sadd member =>
    exact apply_reads ttl env db _ _ (eval_sadd db ttl env (getFormatKey key) member)
  | sdel member =>
    exact apply_reads ttl env db _ _ (eval_sdel db ttl env (getFormatKey key) member)
  | zadd memberScores =>
    exact apply_reads ttl env db _ _ (eval_zadd db ttl env (getFormatKey key) memberScores)
  | delkey =>
    simp only [Object.exec, keyObject, KeyCall.program, Linearize.Program.eval_bind]
    show (finishDelkey env (eval db (delkey env (getFormatKey key)))).apply db = _
    rw [eval_delkey]
    simp only [keyExec, KeyCall.call, Call.exec, RocksDbEngine.delkey, ReplicationDB.delkey]
    cases db.delkeyPlan env (getFormatKey key) with
    | error status => rfl
    | ok batch => cases batch <;> rfl

end

theorem keyObject_singleStep (ttl : UInt64) (key : LaserKey) (op : Env × KeyCall)
    (hlocks : (keyObject ttl key).locks op = false) :
    Linearize.SingleStep ((keyObject ttl key).program op) := by
  obtain ⟨env, call⟩ := op
  cases call with
  | set data => exact trivial
  | get => exact fun found => ⟨getReply env found, rfl⟩
  | _ => cases hlocks

/-- The calls of any number of threads on a key, their reads, scans and batches
interleaved in any way, are linearizable when no `set` writes between the first read of
another call and its end. -/
theorem keyCalls_linearizable (ttl : UInt64) (key : LaserKey) (start : ReplicationDB)
    {steps : List (Linearize.Step (Env × KeyCall))}
    (hadmits : Simulation.Guarded (next (keyObject ttl key))
      (Linearize.Admits (keyObject ttl key)) steps (.start start)) :
    Linearize.Linearizable (keyExec ttl key) start
      (finalState (next (keyObject ttl key)) steps (.start start)).history
      (finalState (next (keyObject ttl key)) steps (.start start)).state := by
  rw [← keyObject_exec]
  exact Linearize.linearizable_finalState (keyObject_singleStep ttl key) start hadmits

def sharedKey : LaserKey := ⟨[[97]], []⟩

/-- The key holds the string `a`. -/
def sharedDb : ReplicationDB :=
  (keyExec 0 sharedKey (Env.at 1, .set [97]) ⟨.LEADER, OrderedMap.empty⟩).2

def appendC : Env × KeyCall := (Env.at 1, .append [99])

def setB : Env × KeyCall := (Env.at 1, .set [98])

def appendD : Env × KeyCall := (Env.at 1, .append [100])

def getIt : Env × KeyCall := (Env.at 1, .get)

/-- Two `append`s, a `get` between the read and the batch of the first, and a `set` while the
second has the lock and has not read. -/
def contendedSteps : List (Linearize.Step (Env × KeyCall)) :=
  [.invoke appendC, .invoke appendD, .invoke getIt, .acquire 0, .act 0, .act 2, .acquire 1, .act 0,
    .release 0, .acquire 1, .invoke setB, .act 3, .act 1, .respond 2, .act 1, .respond 3,
    .release 1, .respond 1, .respond 0]

/-- A `set` between the read and the batch of an `append`. -/
def overlappingSteps : List (Linearize.Step (Env × KeyCall)) :=
  [.invoke appendC, .acquire 0, .act 0, .invoke setB, .act 1, .respond 1, .act 0, .release 0,
    .respond 0]

theorem keyCalls_linearizable_contended :
    (finalState (next (keyObject 0 sharedKey)) contendedSteps (.start sharedDb)).history =
      [.invoke 0 appendC, .invoke 1 appendD, .invoke 2 getIt, .invoke 3 setB,
        .respond 2 (.OK, .text [97]), .respond 3 (.OK, .nothing), .respond 1 (.OK, .length 2),
        .respond 0 (.OK, .length 2)] ∧
    Linearize.Linearizable (keyExec 0 sharedKey) sharedDb
      (finalState (next (keyObject 0 sharedKey)) contendedSteps (.start sharedDb)).history
      (finalState (next (keyObject 0 sharedKey)) contendedSteps (.start sharedDb)).state := by
  refine ⟨rfl, keyCalls_linearizable 0 sharedKey sharedDb ⟨trivial, trivial, trivial, trivial, ?_, ?_,
    trivial, ?_, trivial, trivial, trivial, ?_, ?_, trivial, ?_, trivial, trivial, trivial, trivial,
    trivial⟩⟩
  -- The calls before the `set` either ask a question or hold the lock.
  all_goals
    intro op started action hcall hlocks
    cases hcall
  · cases hlocks
  · rintro (_ | _ | _ | _ | other) otherOp program hother <;> cases hother
  · cases hlocks

theorem overlappingSteps_history :
    (finalState (next (keyObject 0 sharedKey)) overlappingSteps
      (.start sharedDb)).history = [.invoke 0 appendC, .invoke 1 setB, .respond 1 (.OK, .nothing),
          .respond 0 (.OK, .length 2)] := by
  rfl

theorem order_of_two {order : List (Nat × ι × ρ)} {first second : ι}
    {firstReply secondReply : ρ} (hnodup : (order.map Prod.fst).Nodup)
    (hcalls : ∀ id op reply, (id, op, reply) ∈ order → id = 0 ∧ op = first ∨ id = 1 ∧ op = second)
    (hfirst : ∃ op, (0, op, firstReply) ∈ order) (hsecond : ∃ op, (1, op, secondReply) ∈ order) :
    order.map Prod.snd = [(first, firstReply), (second, secondReply)] ∨
      order.map Prod.snd = [(second, secondReply), (first, firstReply)] := by
  obtain ⟨firstOp, hfirst⟩ := hfirst
  obtain ⟨secondOp, hsecond⟩ := hsecond
  rcases order with
    _ | ⟨⟨i, op, reply⟩, _ | ⟨⟨j, otherOp, otherReply⟩, _ | ⟨⟨k, thirdOp, thirdReply⟩, rest⟩⟩⟩
  · cases hfirst
  · cases mem_singleton.mp hfirst
    cases mem_singleton.mp hsecond
  · have hi := hcalls i op reply (by simp)
    have hj := hcalls j otherOp otherReply (by simp)
    have hne : i ≠ j := by simpa using hnodup
    rcases hi with ⟨rfl, rfl⟩ | ⟨rfl, rfl⟩ <;> rcases hj with ⟨rfl, rfl⟩ | ⟨rfl, rfl⟩
    · exact absurd rfl hne
    · simp only [mem_cons, Prod.mk.injEq, not_mem_nil, or_false] at hfirst hsecond
      left
      simp_all
    · simp only [mem_cons, Prod.mk.injEq, not_mem_nil, or_false] at hfirst hsecond
      right
      simp_all
    · exact absurd rfl hne
  · have hi := hcalls i op reply (by simp)
    have hj := hcalls j otherOp otherReply (by simp)
    have hk := hcalls k thirdOp thirdReply (by simp)
    simp only [map_cons, nodup_cons, mem_cons, not_or] at hnodup
    omega

/-- The `set` in between is lost: no order of the two calls leaves `ac`. -/
theorem keyCalls_lost_set :
    ¬ Linearize.Linearizable (keyExec 0 sharedKey) sharedDb
      (finalState (next (keyObject 0 sharedKey)) overlappingSteps
        (.start sharedDb)).history
      (finalState (next (keyObject 0 sharedKey)) overlappingSteps
        (.start sharedDb)).state := by
  rintro ⟨order, hnodup, hinvoked, hresponded, -, hsequential⟩
  rw [overlappingSteps_history] at hinvoked hresponded
  have hcalls : ∀ id op reply, (id, op, reply) ∈ order →
      id = 0 ∧ op = appendC ∨ id = 1 ∧ op = setB := by
    intro id op reply hmem
    rcases mem_cons.mp (hinvoked id op reply hmem) with heq | hmem
    · cases heq
      exact .inl ⟨rfl, rfl⟩
    · rcases mem_cons.mp hmem with heq | hmem
      · cases heq
        exact .inr ⟨rfl, rfl⟩
      · rcases mem_cons.mp hmem with heq | hmem
        · cases heq
        · cases mem_singleton.mp hmem
  have hvalue : (finalState (next (keyObject 0 sharedKey)) overlappingSteps
      (.start sharedDb)).state.store.get (getFormatKey sharedKey).rawData =
        some (LaserValueRawString.ofValue [97, 99]).rawData := by
    rfl
  rcases order_of_two hnodup hcalls (hresponded 0 (.OK, .length 2) (by simp))
    (hresponded 1 (.OK, .nothing) (by simp)) with horder | horder
  · rw [horder] at hsequential
    obtain ⟨-, -, hfinal⟩ := hsequential
    rw [hfinal] at hvalue
    exact absurd hvalue (by decide)
  · rw [horder] at hsequential
    obtain ⟨-, -, hfinal⟩ := hsequential
    rw [hfinal] at hvalue
    exact absurd hvalue (by decide)

end LaserDB
