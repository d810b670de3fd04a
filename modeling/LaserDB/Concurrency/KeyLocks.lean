import LaserDB.Concurrency.Confined
import LaserDB.Library.ScopedLock

/-!
# The locks of `msetx`

`ScopedKeyLock` has no move constructor, so the destructor of the temporary of `emplace_back`
unlocks the key at once, and every copy in the vector unlocks it once more.
-/

namespace LaserDB

open List RocksDbEngine OrderedMap
open Linearize (Finish Program)
open ScopedLock (Script Thread Config System Step)

abbrev LockScript := Script Bytes ReplicationDB Reply

def lockName (key : LaserKey) : Bytes := (getFormatKey key).toLaserSerializer.rawData

variable (key : LaserKey)

theorem lockName_eq : lockName key = key.metaKey := getFormatKey_rawData key

/-- A call with one `ScopedKeyLock`, which writes to its own key. -/
structure LockedCall where
  key : LaserKey
  body : Program Query Query.Answer (Finish ReplicationDB Reply)
  confined : body.Always ReplicationDB.answer (Confined key)

def bodyScript (lock : Bytes) :
    Program Query Query.Answer (Finish ReplicationDB Reply) → LockScript
  | .finish (.reply reply) => .destroy lock (.done reply)
  | .finish (.update action) =>
    .access (fun db => (action db).2) fun db => .destroy lock (.done (action db).1)
  | .ask query next => .access id fun db => bodyScript lock (next (db.answer query))

def LockedCall.script (call : LockedCall) : LockScript :=
  .construct (lockName call.key) (bodyScript (lockName call.key) call.body)

def KeyCall.locked (ttl : UInt64) (key : LaserKey) (env : Env) (call : KeyCall) : LockedCall :=
  ⟨key, call.program ttl key env, call.program_confined ttl key env⟩

/-- The loop of `msetx` and its end.  `grows` says at which sizes the vector grows. -/
def msetxLoop (ttl : UInt64) (env : Env) (options : SetOptions) (grows : Nat → Bool) :
    List Bytes → RocksDbBatch → List (LaserKey × Bytes) → LockScript
  | held, batch, [] =>
    .access (fun db => (db.write env batch).2) fun db =>
      .destroyAll held (.done ((db.write env batch).1, .nothing))
  | held, batch, (key, data) :: rest =>
    let value := (ofTtl ttl).setxValue env data options
    let put := batch.iput (getFormatKey key).toLaserSerializer value
    .emplaceBack (grows held.length) held (lockName key) <|
      if options.notExists then
        .check (lockName key) fun db =>
          if (checkNotExists ⟨db, ttl⟩ env (getFormatKey key)).toOption.isNone then
            msetxLoop ttl env options grows (held ++ [lockName key]) batch rest
          else msetxLoop ttl env options grows (held ++ [lockName key]) put rest
      else msetxLoop ttl env options grows (held ++ [lockName key]) put rest

def msetxScript (ttl : UInt64) (env : Env) (keys : List LaserKey) (datas : List Bytes)
    (options : SetOptions) (grows : Nat → Bool) : LockScript :=
  if keys.length ≠ datas.length then .done (.RS_INVALID_ARGUMENT, .nothing)
  else msetxLoop ttl env options grows [] [] (keys.zip datas)

inductive LockingCall where
  | msetx (env : Env) (keys : List LaserKey) (datas : List Bytes) (options : SetOptions)
      (grows : Nat → Bool)
  | single (call : LockedCall)

def LockingCall.script (ttl : UInt64) : LockingCall → LockScript
  | .msetx env keys datas options grows => msetxScript ttl env keys datas options grows
  | .single call => call.script

def LockingCall.copies : LockingCall → Bool
  | .msetx _ _ _ _ _ => true
  | .single _ => false

def metaView (name : Bytes) : Setoid ReplicationDB where
  r first second :=
    ∀ key : LaserKey, name = lockName key → first.store.get name = second.store.get name
  iseqv := ⟨fun _ _ _ => rfl, fun hsame key hname => (hsame key hname).symm,
      fun hfirst hsecond key hname => (hfirst key hname).trans (hsecond key hname)⟩

section
variable (ttl : UInt64) (env : Env) (db : ReplicationDB)

theorem msetxLoop_run (options : SetOptions) (grows : Nat → Bool)
    (pairs : List (LaserKey × Bytes)) (held : List Bytes) (batch : RocksDbBatch) :
    (msetxLoop ttl env options grows held batch pairs).run db =
      let batch := (pairs.map fun pair => (getFormatKey pair.1, pair.2)).foldl
        (fun batch (key, data) =>
          if options.notExists && (checkNotExists ⟨db, ttl⟩ env key).toOption.isNone then batch
          else batch.iput key.toLaserSerializer (setxValue ⟨db, ttl⟩ env data options)) batch
      (((db.write env batch).1, .nothing), (db.write env batch).2) := by
  induction pairs generalizing held batch with
  | nil =>
    simp only [msetxLoop, Script.run, Script.destroyAll_run]
    rfl
  | cons pair pairs ih =>
    obtain ⟨key, data⟩ := pair
    simp only [msetxLoop, Script.emplaceBack_run, map_cons, foldl_cons]
    cases hoption : options.notExists with
    | false =>
      simp only [Bool.false_eq_true, if_false, Bool.false_and, ih, hoption]
      rfl
    | true =>
      simp only [if_true, Bool.true_and, Script.run]
      split
      · simp only [ih, hoption, Bool.true_and]
      · simp only [ih, hoption, Bool.true_and]
        rfl

theorem msetxScript_run (keys : List LaserKey) (datas : List Bytes) (options : SetOptions)
    (grows : Nat → Bool) :
    (msetxScript ttl env keys datas options grows).run db =
      (((Call.msetx keys datas options).exec env ⟨db, ttl⟩).1,
        ((Call.msetx keys datas options).exec env ⟨db, ttl⟩).2.db) := by
  simp only [msetxScript, Call.exec, msetx, msetxPlan, length_map]
  split
  · rfl
  · rw [msetxLoop_run, zip_map_left]
    rfl

theorem bodyScript_run (lock : Bytes)
    (body : Program Query Query.Answer (Finish ReplicationDB Reply)) :
    (bodyScript lock body).run db = (body.eval db.answer).apply db := by
  induction body with
  | finish finish => cases finish <;> rfl
  | ask query next ih => exact ih (db.answer query)

theorem KeyCall.locked_run (call : KeyCall) :
    (call.locked ttl key env).script.run db = keyExec ttl key (env, call) db := by
  rw [← keyObject_exec]
  exact bodyScript_run db (lockName key) (call.program ttl key env)

variable {held : List Bytes} {name : Bytes}

private def Covered (held : List Bytes) (batch : RocksDbBatch) : Prop :=
  ∀ write ∈ batch, ∃ name ∈ held, ∃ value, write = .put name value

private theorem Covered.get (batch : RocksDbBatch) (hcovered : Covered held batch)
    (hname : name ∉ held) (store : Store) : (batch.apply store).get name = store.get name := by
  induction batch generalizing store with
  | nil => rfl
  | cons write batch ih =>
    obtain ⟨other, hother, value, rfl⟩ := hcovered write mem_cons_self
    refine (ih (fun write hwrite => hcovered write (mem_cons_of_mem _ hwrite)) _).trans ?_
    exact get_put_of_ne (fun hsame => hname (hsame ▸ hother)) ..

section
variable {batch : RocksDbBatch} (hcovered : Covered held batch)
include hcovered

private theorem Covered.write_get {env : Env} (hname : name ∉ held) (db : ReplicationDB) :
    (db.write env batch).2.store.get name = db.store.get name := by
  unfold ReplicationDB.write
  split
  · rfl
  · split
    · rfl
    · exact hcovered.get batch hname db.store

private theorem Covered.mono (name : Bytes) : Covered (held ++ [name]) batch := by
  intro write hwrite
  obtain ⟨other, hother, hput⟩ := hcovered write hwrite
  exact ⟨other, mem_append_left _ hother, hput⟩

private theorem Covered.iput [LaserValue V] (value : V) :
    Covered (held ++ [lockName key]) (batch.iput (getFormatKey key).toLaserSerializer value) := by
  intro write hwrite
  rcases mem_append.mp hwrite with hwrite | hwrite
  · exact hcovered.mono (lockName key) write hwrite
  · rw [mem_singleton.mp hwrite]
    exact ⟨lockName key, mem_append_right _ mem_cons_self, _, rfl⟩

end

variable (options : SetOptions) (grows : Nat → Bool)

theorem msetxLoop_proper (pairs : List (LaserKey × Bytes)) (held seen : List Bytes)
    (batch : RocksDbBatch) (hcovered : Covered held batch) (hseen : ∀ name ∈ seen, name ∈ held)
    (objects : List Bytes) (hobjects : objects.Perm held) :
    (msetxLoop ttl env options grows held batch pairs).Proper metaView objects seen := by
  induction pairs generalizing held seen batch objects with
  | nil =>
    refine ⟨fun name hname db key _ => ?_, fun db => ?_⟩
    · exact (hcovered.write_get (fun hheld => hname (hobjects.mem_iff.mpr hheld)) db).symm
    · have hdone : ∀ objects : List Bytes, objects.Perm [] →
          (Script.done ((db.write env batch).1, .nothing) : LockScript).Proper metaView objects [] :=
        fun _ hperm => hperm.eq_nil
      refine Script.destroyAll_proper held (by simp) hdone objects ?_
      rwa [append_nil]
  | cons pair pairs ih =>
    obtain ⟨key, data⟩ := pair
    refine Script.emplaceBack_proper (grows held.length) hseen ?_ objects hobjects
    intro objects hperm
    have hgrown : ∀ name ∈ seen, name ∈ held ++ [lockName key] :=
      fun name hname => mem_append_left _ (hseen name hname)
    split
    · refine ⟨hperm.mem_iff.mpr (mem_append_right _ mem_cons_self), fun db => ?_⟩
      have hchecked : ∀ name ∈ lockName key :: seen, name ∈ held ++ [lockName key] := by
        intro name hname
        rcases mem_cons.mp hname with rfl | hname
        · exact mem_append_right _ mem_cons_self
        · exact hgrown name hname
      dsimp only
      split
      · exact ih _ _ _ (hcovered.mono _) hchecked objects hperm
      · exact ih _ _ _ (hcovered.iput key _) hchecked objects hperm
    · exact ih _ _ _ (hcovered.iput key _) hgrown objects hperm

theorem msetxLoop_bracketed (pairs : List (LaserKey × Bytes)) (held : List Bytes)
    (batch : RocksDbBatch) : (msetxLoop ttl env options grows held batch pairs).Bracketed := by
  induction pairs generalizing held batch with
  | nil => exact fun db => Script.destroyAll_bracketed held trivial
  | cons pair pairs ih =>
    obtain ⟨key, data⟩ := pair
    refine Script.emplaceBack_bracketed (grows held.length) held (lockName key) ?_
    split
    · intro db
      dsimp only
      split
      · exact ih _ _
      · exact ih _ _
    · exact ih _ _

variable (lock : Bytes)

theorem bodyScript_noCopy (body : Program Query Query.Answer (Finish ReplicationDB Reply)) :
    (bodyScript lock body).NoCopy := by
  induction body with
  | finish finish =>
    cases finish with
    | reply reply => exact trivial
    | update action => exact fun _ => trivial
  | ask query next ih => exact fun db => ih _

theorem bodyScript_releases (body : Program Query Query.Answer (Finish ReplicationDB Reply)) :
    (bodyScript lock body).Releases lock ∧ (bodyScript lock body).Bracketed := by
  induction body with
  | finish finish =>
    cases finish with
    | reply reply => exact ⟨.inl rfl, trivial⟩
    | update action => exact ⟨fun _ => .inl rfl, fun _ => trivial⟩
  | ask query next ih => exact ⟨fun db => (ih _).1, fun db => (ih _).2⟩

theorem bodyScript_proper {key : LaserKey}
    {body : Program Query Query.Answer (Finish ReplicationDB Reply)}
    (hbody : body.Always ReplicationDB.answer (Confined key)) :
    (bodyScript (lockName key) body).Proper metaView [lockName key] [] := by
  induction body with
  | finish finish =>
    cases finish with
    | reply reply => exact Script.proper_destroy_done metaView (lockName key) reply
    | update action =>
      refine ⟨fun name hname db other heq => ?_,
        fun db => Script.proper_destroy_done metaView (lockName key) (action db).1⟩
      subst heq
      have hne : other.metaKey ≠ key.metaKey := by
        intro hsame
        rw [lockName_eq, lockName_eq, hsame] at hname
        exact hname mem_cons_self
      rw [lockName_eq]
      exact (hbody db other hne).symm
  | ask query next ih =>
    exact ⟨fun name _ db => (metaView name).refl db, fun db => ih _ (hbody db)⟩

end

/-- Threads that call `msetx` and calls on one key. -/
def lockSystem (ttl : UInt64) : System Bytes ReplicationDB LockingCall Reply where
  view := metaView
  script := LockingCall.script ttl
  copies := LockingCall.copies
  noCopy := by
    intro op hcopies
    cases op with
    | msetx env keys datas options grows => cases hcopies
    | single call => exact bodyScript_noCopy _ call.body
  proper := by
    intro op
    cases op with
    | msetx env keys datas options grows =>
      simp only [LockingCall.script, msetxScript]
      split
      · rfl
      · exact msetxLoop_proper ttl env options grows _ [] [] [] (fun _ hwrite => nomatch hwrite)
          (fun _ hname => nomatch hname) [] (List.Perm.refl [])
    | single call => exact bodyScript_proper call.confined
  bracketed := by
    intro op
    cases op with
    | msetx env keys datas options grows =>
      simp only [LockingCall.script, msetxScript]
      split
      · trivial
      · exact msetxLoop_bracketed ttl env options grows _ [] []
    | single call => exact bodyScript_releases _ call.body

structure LocksHold (ttl : UInt64) (config : Config Bytes ReplicationDB LockingCall Reply) :
    Prop where
  /-- A thread that has checked a key is alone in its critical section until it writes. -/
  alone : ∀ (id other : Nat) thread otherThread name seen, config.threads[id]? = some thread →
    config.threads[other]? = some otherThread → (name, seen) ∈ thread.seen →
      name ∈ thread.objects ∧ (name ∈ otherThread.objects → other = id)
  /-- No two threads are in a critical section of the same key. -/
  exclusive : ∀ (id other : Nat) thread otherThread name, config.threads[id]? = some thread →
    config.threads[other]? = some otherThread → name ∈ thread.objects →
      name ∈ otherThread.objects → other = id
  /-- No destructor unlocks what another thread has locked. -/
  own : ∀ id name, ScopedLock.Destroys config id name →
    config.held name = none ∨ config.held name = some id
  terminates : ScopedLock.Terminates (lockSystem ttl) config
  /-- What a thread has checked is as it was then. -/
  steady : ∀ (id : Nat) thread key seen, config.threads[id]? = some thread →
    (lockName key, seen) ∈ thread.seen →
      config.state.store.get (lockName key) = seen.store.get (lockName key)

theorem locksHold_of_apart {ttl : UInt64} {config : Config Bytes ReplicationDB LockingCall Reply}
    (hlive : ScopedLock.Live (lockSystem ttl) config)
    (hapart : ScopedLock.Apart (lockSystem ttl) config) : LocksHold ttl config := by
  refine ⟨?_, ?_, ?_, hlive.terminates, ?_⟩
  · intro id other thread otherThread name seen hthread hother hseen
    have hname := (hlive.well id thread hthread).seen name (mem_map_of_mem hseen)
    exact ⟨hname, fun hotherName => hapart.alone hother hthread hotherName hname⟩
  · intro id other thread otherThread name hthread hother hname hotherName
    exact hapart.alone hother hthread hotherName hname
  · intro id name hdestroys
    exact hapart.destroys hlive hdestroys
  · intro id thread key seen hthread hseen
    exact (hapart.steady id thread hthread _ hseen key rfl).symm

theorem lockingCalls_terminate (ttl : UInt64) (start : ReplicationDB)
    (steps : List (Step LockingCall)) :
    ScopedLock.Terminates (lockSystem ttl)
      (Simulation.finalState (ScopedLock.next (lockSystem ttl)) steps (.start start)) :=
  ((ScopedLock.Live.start (lockSystem ttl) start).finalState steps).terminates

/-- The locks hold in every run in which no call is started on a key of an `msetx` at
work, and an `msetx` is started on a key only when the calls at work on it have its lock
already. -/
theorem msetx_locksHold_of_admitted (ttl : UInt64) (start : ReplicationDB)
    {steps : List (Step LockingCall)}
    (hadmits : Simulation.Guarded (ScopedLock.next (lockSystem ttl))
      (ScopedLock.Admits (lockSystem ttl)) steps (.start start)) :
    LocksHold ttl
      (Simulation.finalState (ScopedLock.next (lockSystem ttl)) steps (.start start)) := by
  have hlive := ScopedLock.Live.start (lockSystem ttl) start
  have hapart := ScopedLock.Apart.start (lockSystem ttl) start
  exact locksHold_of_apart (hlive.finalState steps) (hapart.finalState hlive hadmits)

section
variable {ttl : UInt64} {env : Env} {options : SetOptions} {grows : Nat → Bool} {name : Bytes}

theorem msetxLoop_takes (pairs : List (LaserKey × Bytes)) (held : List Bytes) (batch : RocksDbBatch)
    (htakes : (msetxLoop ttl env options grows held batch pairs).Takes name) :
    ∃ pair ∈ pairs, lockName pair.1 = name := by
  induction pairs generalizing held batch with
  | nil =>
    obtain ⟨db, htakes⟩ := htakes
    exact (Script.destroyAll_takes htakes).elim
  | cons pair pairs ih =>
    obtain ⟨key, data⟩ := pair
    have hlater : (∃ pair ∈ pairs, lockName pair.1 = name) →
        ∃ pair ∈ (key, data) :: pairs, lockName pair.1 = name := by
      rintro ⟨pair, hpair, hname⟩
      exact ⟨pair, mem_cons_of_mem _ hpair, hname⟩
    rcases Script.emplaceBack_takes htakes with hname | htakes
    · exact ⟨_, mem_cons_self, hname⟩
    · split at htakes
      · obtain ⟨db, htakes⟩ := htakes
        dsimp only at htakes
        split at htakes
        all_goals exact hlater (ih _ _ htakes)
      · exact hlater (ih _ _ htakes)

theorem msetxScript_takes {keys : List LaserKey} {datas : List Bytes}
    (htakes : (msetxScript ttl env keys datas options grows).Takes name) :
    ∃ key ∈ keys, lockName key = name := by
  unfold msetxScript at htakes
  split at htakes
  · exact htakes.elim
  · obtain ⟨⟨key, data⟩, hpair, hname⟩ := msetxLoop_takes _ _ _ htakes
    exact ⟨key, (of_mem_zip hpair).1, hname⟩

theorem bodyScript_takes {lock : Bytes}
    (body : Program Query Query.Answer (Finish ReplicationDB Reply)) :
    ¬ (bodyScript lock body).Takes name := by
  induction body with
  | finish finish =>
    cases finish with
    | reply reply => exact id
    | update action => exact fun ⟨_, htakes⟩ => htakes
  | ask query next ih => exact fun ⟨db, htakes⟩ => ih _ htakes

theorem LockedCall.script_takes {call : LockedCall} (htakes : call.script.Takes name) :
    lockName call.key = name := htakes.resolve_right (bodyScript_takes call.body)

end

def otherKey : LaserKey := ⟨[[98]], []⟩

def msetxTwice : LockingCall :=
  .msetx (Env.at 1) [sharedKey, sharedKey] [[120], [121]] { notExists := true } fun _ => true

def lockedSetx (key : LaserKey) : LockedCall :=
  KeyCall.locked 0 key (Env.at 1) (.setx [98] { notExists := true })

def emptyDb : ReplicationDB := ⟨.LEADER, empty⟩

def twoKeySteps : List (Step LockingCall) :=
  [.start msetxTwice, .start (.single (lockedSetx otherKey)), .run 0, .run 1, .run 0, .run 1,
    .run 0, .run 0, .run 1]

theorem msetx_locksHold_twoKeys :
    LocksHold 0
      (Simulation.finalState (ScopedLock.next (lockSystem 0)) twoKeySteps (.start emptyDb)) := by
  refine msetx_locksHold_of_admitted 0 emptyDb
    ⟨?_, ?_, trivial, trivial, trivial, trivial, trivial, trivial, trivial, trivial⟩
  · intro id thread hthread
    cases hthread
  · rintro (_ | id) thread hthread name htakes huses
    · cases hthread
      have htakes : (lockedSetx otherKey).script.Takes name := htakes
      have hsecond := LockedCall.script_takes htakes
      have hmsetx : (msetxScript 0 (Env.at 1) [sharedKey, sharedKey] [[120], [121]]
          { notExists := true } fun _ => true).Takes name := huses.resolve_left not_mem_nil
      obtain ⟨key, hkey, hfirst⟩ := msetxScript_takes hmsetx
      have hshared : key = sharedKey := by simpa using hkey
      subst hshared
      have hne : lockName sharedKey ≠ lockName otherKey := by decide
      exact absurd (hfirst.trans hsecond.symm) hne
    · cases hthread

/-- A `setx` of the key after the check of `msetx` and before its batch. -/
def overlappedSteps : List (Step LockingCall) :=
  [.start (.msetx (Env.at 1) [sharedKey] [[120]] { notExists := true } fun _ => true),
    .run 0, .run 0, .run 0, .run 0, .start (.single (lockedSetx sharedKey)), .run 1, .run 1,
    .run 1]

/-- Two calls are in the critical section of the key, the value that one has written is
overwritten by the other, which relied on its absence and then unlocks the key of the
first. -/
theorem msetx_overwrites_and_unlocks :
    let before := Simulation.finalState (ScopedLock.next (lockSystem 0)) overlappedSteps
      (.start emptyDb)
    let after := ScopedLock.next (lockSystem 0) (.run 0) before
    let name := lockName sharedKey
    (∃ thread other seen, before.threads[0]? = some thread ∧ before.threads[1]? = some other ∧
      (name, seen) ∈ thread.seen ∧ name ∈ other.objects ∧ seen.store.get name = none) ∧
    before.state.store.get name = some (LaserValueRawString.ofValue [98]).rawData ∧
    after.state.store.get name = some (LaserValueRawString.ofValue [120]).rawData ∧
    ScopedLock.Destroys after 0 name ∧ after.held name = some 1 := by
  refine ⟨⟨_, _, emptyDb, rfl, rfl, mem_cons_self, mem_cons_self, rfl⟩, ?_, ?_, ?_, ?_⟩
  · rfl
  · rfl
  · exact ⟨_, _, rfl, rfl⟩
  · rfl

end LaserDB
