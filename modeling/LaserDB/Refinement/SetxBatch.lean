import LaserDB.Refinement.Effect
import LaserDB.Library.Scatter

/-!
# `msetx` against `setx` one by one

`msetx` tests `not_exists` against the database before the batch; `setx` called for one pair after
another sees what the earlier calls wrote.
-/

namespace LaserDB

open List RocksDbEngine

def writeStatus (env : Env) (role : DBRole) : Status :=
  if role = .FOLLOWER then .RS_WRITE_IN_FOLLOWER
  else
    match env.writeFault with
    | some fault => convertRocksDbStatus (.fault fault)
    | none => .OK

/-- The `not_exists` test on a record that is there. -/
def checkRecord (env : Env) (bytes : Bytes) : Except Status Unit := do
  let oldValue ← decodeOr .RS_INVALID_ARGUMENT
    (LaserValue.setRawBuffer LaserValueRawString.new bytes)
  if checkKeyExpire env oldValue then pure () else throw .RS_KEY_EXISTS

/-- The calls of `setx` for one pair after another, and their statuses. -/
def setxAll (env : Env) (options : SetOptions) (pairs : List (LaserKey × Bytes))
    (engine : RocksDbEngine) : List Status × RocksDbEngine :=
  Scatter.mapState (fun pair engine =>
    let result := engine.setx env (getFormatKey pair.1) pair.2 options
    (result.1, result.2.2)) pairs engine

/-- Where the batch of `msetx` does what `setx` does one by one: without
`not_exists`, or when each key passes the test (one that fails it may do so with
the status of the write), and when what an earlier pair leaves lets a later one
on the same key pass, which takes a record that is written expired. -/
def Unhindered (env : Env) (options : SetOptions) (engine : RocksDbEngine)
    (pairs : List (LaserKey × Bytes)) : Prop :=
  options.notExists = true →
    let status := writeStatus env engine.db.role
    (∀ pair ∈ pairs, engine.checkNotExists env (getFormatKey pair.1) = .ok () ∨
      engine.checkNotExists env (getFormatKey pair.1) = .error status) ∧
    (status = .OK → pairs.Pairwise fun left right => left.1.metaKey = right.1.metaKey →
      checkRecord env (engine.setxValue env left.2 options).rawData = .ok ())

variable {env : Env} {engine : RocksDbEngine} {options : SetOptions} {key : LaserKey}
  {pairs : List (LaserKey × Bytes)}

theorem convert_fault_ne_ok (fault : RocksDbFault) :
    convertRocksDbStatus (.fault fault) ≠ .OK := by
  cases fault <;> nofun

theorem commit_write (env : Env) (engine : RocksDbEngine) (fallback result : α)
    (batch : RocksDbBatch) :
    engine.commit env fallback (.ok (result, batch)) = (writeStatus env engine.db.role, result,
        engine.withStore (if writeStatus env engine.db.role = .OK then batch.apply engine.db.store
          else engine.db.store)) := by
  rcases engine with ⟨⟨role, store⟩, ttl⟩
  unfold commit ReplicationDB.write writeStatus
  by_cases hrole : role = .FOLLOWER
  · simp [hrole, withStore]
  · cases hfault : env.writeFault with
    | none => simp [hrole, withStore, convertRocksDbStatus]
    | some fault => simp [hrole, withStore, convert_fault_ne_ok]

theorem checkNotExists_eq :
    engine.checkNotExists env (getFormatKey key) =
      match env.readFault key.metaKey with
      | some fault => .error (convertRocksDbStatus (.fault fault))
      | none =>
        match engine.db.store.get key.metaKey with
        | none => .ok ()
        | some bytes => checkRecord env bytes := by
  have hraw : (getFormatKey key).toLaserSerializer.rawData = key.metaKey := rfl
  unfold checkNotExists ReplicationDB.readOptional ReplicationDB.read
  rw [hraw]
  cases hfault : env.readFault key.metaKey with
  | some fault => cases fault <;> rfl
  | none =>
    cases engine.db.store.get key.metaKey with
    | none | some => rfl

theorem checkNotExists_ne_ok_status :
    engine.checkNotExists env (getFormatKey key) ≠ .error .OK := by
  rw [checkNotExists_eq]
  split
  · intro heq
    exact convert_fault_ne_ok _ (Except.error.inj heq)
  · split
    · nofun
    · unfold checkRecord decodeOr
      split
      · change (if _ then _ else _) ≠ _
        split <;> nofun
      · nofun

private def setxTest (env : Env) (options : SetOptions) (engine : RocksDbEngine) (key : LaserKey) :
    Except Status Unit :=
  if options.notExists then engine.checkNotExists env (getFormatKey key) else .ok ()

private def recordOf (env : Env) (options : SetOptions) (engine : RocksDbEngine)
    (pair : LaserKey × Bytes) : LaserKey × Bytes :=
  (pair.1, (engine.setxValue env pair.2 options).rawData)

theorem setx_eq (env : Env) (options : SetOptions) (engine : RocksDbEngine)
    (key : LaserKey) (data : Bytes) :
    engine.setx env (getFormatKey key) data options =
      match setxTest env options engine key with
      | .error status => (status, (), engine)
      | .ok () => (writeStatus env engine.db.role, (),
          engine.withStore (if writeStatus env engine.db.role = .OK then
            engine.db.store.put key.metaKey (engine.setxValue env data options).rawData
            else engine.db.store)) := by
  have hcommit := commit_write env engine () ()
    (RocksDbBatch.iput [] (getFormatKey key).toLaserSerializer (engine.setxValue env data options))
  rw [setx, setxPlan, setxTest]
  cases options.notExists with
  | false => exact hcommit
  | true =>
    cases hcheck : engine.checkNotExists env (getFormatKey key) with
    | error status => rfl
    | ok => exact hcommit

theorem checkNotExists_put {store : Store} {other : LaserKey} (bytes : Bytes) :
    (engine.withStore (store.put other.metaKey bytes)).checkNotExists env (getFormatKey key) =
      if key.metaKey = other.metaKey then
        match env.readFault key.metaKey with
        | some fault => .error (convertRocksDbStatus (.fault fault))
        | none => checkRecord env bytes
      else (engine.withStore store).checkNotExists env (getFormatKey key) := by
  rw [checkNotExists_eq, checkNotExists_eq]
  change (match env.readFault key.metaKey with
    | some fault => _
    | none =>
      match (store.put other.metaKey bytes).get key.metaKey with
      | none => _
      | some bytes => _) = _
  rw [OrderedMap.get_put]
  by_cases hsame : key.metaKey = other.metaKey
  · rw [if_pos hsame, if_pos hsame]
  · rw [if_neg hsame, if_neg hsame]
    rfl

theorem setxTest_put {store : Store} {other : LaserKey} {bytes : Bytes}
    (hother : setxTest env options (engine.withStore store) other = .ok ()) :
    setxTest env options (engine.withStore (store.put other.metaKey bytes)) key = .ok () ↔
      if key.metaKey = other.metaKey then
        options.notExists = true → checkRecord env bytes = .ok ()
      else setxTest env options (engine.withStore store) key = .ok () := by
  unfold setxTest at hother ⊢
  by_cases hexists : options.notExists = true
  · rw [if_pos hexists] at hother
    simp only [if_pos hexists, checkNotExists_put]
    by_cases hsame : key.metaKey = other.metaKey
    · rw [checkNotExists_eq, ← hsame] at hother
      cases hfault : env.readFault key.metaKey with
      | some fault =>
        rw [hfault] at hother
        cases hother
      | none => simp [hsame, hexists]
    · simp [hsame]
  · simp [hexists]

theorem msetx_eq :
    engine.msetx env (pairs.map fun pair => getFormatKey pair.1) (pairs.map Prod.snd) options =
      (writeStatus env engine.db.role, (),
        engine.withStore (if writeStatus env engine.db.role = .OK then
          (headWrites (msetxPairs env engine options pairs)).apply engine.db.store
          else engine.db.store)) := by
  have hplan : engine.msetxPlan env ((pairs.map Prod.fst).map getFormatKey) (pairs.map Prod.snd)
      options = _ := msetxPlan_eq (pairs.map Prod.fst) (pairs.map Prod.snd) options
  rw [map_map, length_map, length_map, if_neg (fun hne => hne rfl), zip_map', map_id'] at hplan
  exact (congrArg (engine.commit env ()) hplan).trans (commit_write env engine () () _)

theorem setxAll_unwritten (hstatus : writeStatus env engine.db.role ≠ .OK) :
    setxAll env options pairs engine = (pairs.map fun pair =>
        match setxTest env options engine pair.1 with
        | .error status => status
        | .ok () => writeStatus env engine.db.role, engine) := by
  induction pairs with
  | nil => rfl
  | cons pair pairs ih =>
    have hresult : engine.setx env (getFormatKey pair.1) pair.2 options =
        (match setxTest env options engine pair.1 with
          | .error status => status
          | .ok () => writeStatus env engine.db.role, (), engine) := by
      rw [setx_eq, if_neg hstatus]
      split <;> rfl
    rw [setxAll] at ih
    simp only [setxAll, Scatter.mapState, hresult, ih, map_cons]

private def Clear (env : Env) (options : SetOptions) (engine : RocksDbEngine)
    (pairs : List (LaserKey × Bytes)) : Prop :=
  (∀ pair ∈ pairs, setxTest env options engine pair.1 = .ok ()) ∧
    pairs.Pairwise fun left right => left.1.metaKey = right.1.metaKey → options.notExists = true →
        checkRecord env (engine.setxValue env left.2 options).rawData = .ok ()

private def afterPair (env : Env) (options : SetOptions) (engine : RocksDbEngine)
    (pair : LaserKey × Bytes) : RocksDbEngine :=
  engine.withStore (engine.db.store.put pair.1.metaKey (engine.setxValue env pair.2 options).rawData)

theorem clear_cons (pair : LaserKey × Bytes) :
    Clear env options engine (pair :: pairs) ↔ setxTest env options engine pair.1 = .ok () ∧
        Clear env options (afterPair env options engine pair) pairs := by
  have hput (hpair : setxTest env options engine pair.1 = .ok ()) (other : LaserKey) :
      setxTest env options (afterPair env options engine pair) other = .ok () ↔
        if other.metaKey = pair.1.metaKey then options.notExists = true →
          checkRecord env (engine.setxValue env pair.2 options).rawData = .ok ()
        else setxTest env options engine other = .ok () := setxTest_put hpair
  have hsame (other : LaserKey) (heq : other.metaKey = pair.1.metaKey) :
      setxTest env options engine other = setxTest env options engine pair.1 := by
    unfold setxTest
    rw [checkNotExists_eq, checkNotExists_eq, heq]
  unfold Clear
  rw [forall_mem_cons, pairwise_cons]
  constructor
  · rintro ⟨⟨hpair, hrest⟩, hfirst, hpairwise⟩
    refine ⟨hpair, fun other hother => (hput hpair other.1).mpr ?_, hpairwise⟩
    split
    · rename_i heq
      exact hfirst other hother heq.symm
    · exact hrest other hother
  · rintro ⟨hpair, hrest, hpairwise⟩
    refine ⟨⟨hpair, fun other hother => ?_⟩, fun other hother heq => ?_, hpairwise⟩
    · by_cases heq : other.1.metaKey = pair.1.metaKey
      · exact (hsame other.1 heq).trans hpair
      · have hother := (hput hpair other.1).mp (hrest other hother)
        rwa [if_neg heq] at hother
    · have hother := (hput hpair other.1).mp (hrest other hother)
      rwa [if_pos heq.symm] at hother

theorem setxAll_written (options : SetOptions) (pairs : List (LaserKey × Bytes))
    (hstatus : writeStatus env engine.db.role = .OK) :
    ((setxAll env options pairs engine).1 = replicate pairs.length .OK ↔
        Clear env options engine pairs) ∧
      (Clear env options engine pairs → (setxAll env options pairs engine).2 =
        engine.withStore ((headWrites (pairs.map (recordOf env options engine))).apply
          engine.db.store)) := by
  induction pairs generalizing engine with
  | nil =>
    exact ⟨iff_of_true rfl ⟨nofun, List.Pairwise.nil⟩, fun _ => rfl⟩
  | cons pair pairs ih =>
    obtain ⟨hstatuses, hstore⟩ := @ih (afterPair env options engine pair) hstatus
    rw [clear_cons]
    have hresult := setx_eq env options engine pair.1 pair.2
    rw [if_pos hstatus, hstatus] at hresult
    simp only [setxAll, Scatter.mapState, length_cons, replicate_succ]
    cases htest : setxTest env options engine pair.1 with
    | error status =>
      rw [htest] at hresult
      have hne : status ≠ .OK := by
        rintro rfl
        unfold setxTest at htest
        split at htest
        · exact checkNotExists_ne_ok_status htest
        · cases htest
      simp [hresult, hne]
    | ok =>
      rw [htest] at hresult
      simp only [hresult, true_and, cons.injEq]
      exact ⟨hstatuses, hstore⟩

theorem setxTest_ok_iff :
    setxTest env options engine key = .ok () ↔
      (options.notExists = true → engine.checkNotExists env (getFormatKey key) = .ok ()) := by
  unfold setxTest
  by_cases hexists : options.notExists = true
  · simp [hexists]
  · simp [hexists]

theorem clear_iff (hstatus : writeStatus env engine.db.role = .OK) :
    Clear env options engine pairs ↔ Unhindered env options engine pairs := by
  have hne (pair : LaserKey × Bytes) :
      engine.checkNotExists env (getFormatKey pair.1) ≠ .error .OK := checkNotExists_ne_ok_status
  simp only [Clear, Unhindered, setxTest_ok_iff, hstatus, hne, or_false, forall_const]
  constructor
  · rintro ⟨htests, hpairwise⟩ hexists
    exact ⟨fun pair hpair => htests pair hpair hexists,
      hpairwise.imp fun himp hsame => himp hsame hexists⟩
  · intro hclear
    by_cases hexists : options.notExists = true
    · exact ⟨fun pair hpair _ => (hclear hexists).1 pair hpair,
        (hclear hexists).2.imp fun himp hsame _ => himp hsame⟩
    · exact ⟨fun _ _ hnot => absurd hnot hexists,
        pairwise_of_forall fun _ _ _ hnot => absurd hnot hexists⟩

theorem msetxPairs_of_clear (hclear : Clear env options engine pairs) :
    msetxPairs env engine options pairs = pairs.map (recordOf env options engine) := by
  have hall : ∀ pair ∈ pairs,
      (!(options.notExists && (engine.checkNotExists env (getFormatKey pair.1)).toOption.isNone)) =
        true := by
    intro pair hpair
    have htest := setxTest_ok_iff.mp (hclear.1 pair hpair)
    cases hexists : options.notExists with
    | false => rfl
    | true => rw [htest hexists]; rfl
  rw [msetxPairs, filter_eq_self.mpr hall]
  rfl

theorem setxAll_eq_msetx_iff :
    let result := engine.msetx env (pairs.map fun pair => getFormatKey pair.1)
      (pairs.map Prod.snd) options
    setxAll env options pairs engine = (replicate pairs.length result.1, result.2.2) ↔
      Unhindered env options engine pairs := by
  rw [msetx_eq]
  by_cases hstatus : writeStatus env engine.db.role = .OK
  · obtain ⟨hstatuses, hstore⟩ := setxAll_written options pairs hstatus
    rw [← clear_iff hstatus, if_pos hstatus, hstatus]
    constructor
    · intro heq
      exact hstatuses.mp (congrArg Prod.fst heq)
    · intro hclear
      rw [msetxPairs_of_clear hclear, ← hstore hclear, ← hstatuses.mpr hclear]
  · rw [setxAll_unwritten hstatus, if_neg hstatus, Unhindered]
    have hstore : engine.withStore engine.db.store = engine := rfl
    rw [hstore]
    dsimp only
    rw [Prod.mk.injEq, and_iff_left rfl, eq_replicate_iff, length_map,
      and_iff_right rfl, forall_mem_map]
    by_cases hexists : options.notExists = true
    · simp only [hexists, true_imp_iff, hstatus, false_imp_iff, and_true, setxTest, if_true]
      refine forall₂_congr fun pair _ => ?_
      cases engine.checkNotExists env (getFormatKey pair.1) with
      | error | ok => simp
    · simp [hexists, setxTest]

end LaserDB
