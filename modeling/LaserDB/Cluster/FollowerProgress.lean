import LaserDB.Cluster.BaseReplication

/-!
# A follower goes on

A pull of a follower ends in the next pull, or in a callback that is to bring the next database,
which pulls again.
-/

namespace LaserDB

open Multiset (mem_add mem_cons mem_cons_self notMem_zero ofList)
open WorkerPool (Pool Action)
open Option Multiset WorkerPool.Pool Nat ReplicationStep

namespace ReplicationStep

def holds : ReplicationStep → Option LockHolder
  | .loadRocksDbEngine _ => some .loading
  | .clearReplicating => some .loaded
  | .assignPartition role => some (.changingRole role)
  | _ => none

def readsRole : ReplicationStep → Bool
  | .updateVersion _ => true
  | _ => false

def opensDb : ReplicationStep → Bool
  | .loadRocksDbEngine _ => true
  | .reloadRocksDbEngine => true
  | _ => false

def callsBack : ReplicationStep → Bool
  | .updateVersion _ => true
  | .testAndSet _ => true
  | _ => false

end ReplicationStep

namespace BaseReplication

def targetRole (state : BaseReplication) : DBRole :=
  match state.lock with
  | some (.changingRole role) => role
  | _ => state.role

/-- Every database can be opened, no callback tests the flag between a load and the clearing of the
flag, and none reads the role before the handler has noted that it follows. -/
def Steady (state : BaseReplication) (_ : Multiset ReplicationStep) (met : ReplicationMet)
    (step : ReplicationStep) : Prop :=
  (step.opensDb = true → met.opened = true) ∧
  (step.testsFlag = true → state.lock ≠ some .loaded) ∧
  (step.readsRole = true → state.targetRole = .FOLLOWER → state.role = .FOLLOWER)

instance (state : BaseReplication) (steps : Multiset ReplicationStep) (met : ReplicationMet)
    (step : ReplicationStep) : Decidable (state.Steady steps met step) :=
  inferInstanceAs (Decidable (_ ∧ _))

def Pending (state : BaseReplication) : Prop :=
  state.transfers ≠ [] ∨ state.retries ≠ [] ∨ ∃ db ∈ state.db, 0 < db.pulls + db.delayedPulls

instance (state : BaseReplication) : Decidable state.Pending :=
  inferInstanceAs (Decidable (_ ∨ _ ∨ ∃ db ∈ state.db, 0 < db.pulls + db.delayedPulls))

def Busy (state : BaseReplication) (steps : Multiset ReplicationStep) : Prop :=
  state.transfers ≠ [] ∨ state.retries ≠ [] ∨ ∃ step ∈ steps, step.replicates = true

end BaseReplication

def PulledDb.Pulls (db : PulledDb) (steps : Multiset ReplicationStep) : Prop :=
  0 < db.pulls + db.delayedPulls ∨ .pullFromUpstream db.id ∈ steps ∨
    .delayPullFromUpstream db.id ∈ steps

namespace BaseReplication

def Live (state : BaseReplication) (steps : Multiset ReplicationStep) : Prop :=
  state.Busy steps ∨ (∃ step ∈ steps, step.callsBack = true) ∨
    ∃ db, state.db = some db ∧ db.Pulls steps

def Delays (state : BaseReplication) (steps : Multiset ReplicationStep) : Prop :=
  state.hasDelay = true → state.retries ≠ [] ∨ ∃ version, .clearDelay version ∈ steps

structure Progress (state : BaseReplication) (steps : Multiset ReplicationStep) : Prop where
  holds : steps.filterMap holds = ofList state.lock.toList
  replicates : state.replicating = true → state.lock = some .loaded ∨ state.Busy steps
  delays : state.Delays steps
  absent : state.db = none → state.Busy steps
  role : ∀ db, state.db = some db → db.role = state.targetRole
  live : state.targetRole = .FOLLOWER → state.Live steps

theorem progress_start (role : DBRole) (version : Version) (called : Bool) :
    Progress (start role version called) 0 where
  holds := rfl
  replicates := nofun
  delays := nofun
  absent := nofun
  role := by
    rintro db hdb
    cases hdb
    exact PulledDb.opened_role 0 version role called
  live := by
    intro hrole
    exact .inr (.inr ⟨_, rfl, .inl (PulledDb.pullFromUpstream_pulls _ called hrole)⟩)

section
variable {state next : BaseReplication} {step : ReplicationStep}
  {steps others : Multiset ReplicationStep} {following : List ReplicationStep}

theorem Busy.keep (hbusy : state.Busy (step ::ₘ others)) (hstep : step.replicates = false)
    (htransfers : next.transfers = state.transfers) (hretries : next.retries = state.retries) :
    next.Busy (ofList following + others) := by
  rw [Busy, htransfers, hretries]
  refine hbusy.imp_right (Or.imp_right ?_)
  rintro ⟨other, hother, hreplicates⟩
  rcases mem_cons.mp hother with rfl | hold
  · rw [hstep] at hreplicates
    cases hreplicates
  · exact ⟨other, mem_add.mpr (.inr hold), hreplicates⟩

theorem busy_of_any (hany : following.any replicates = true) :
    next.Busy (ofList following + others) := by
  obtain ⟨other, hother, hreplicates⟩ := List.any_eq_true.mp hany
  exact .inr (.inr ⟨other, mem_add.mpr (.inl hother), hreplicates⟩)

theorem Delays.keep (hdelays : state.Delays (step ::ₘ others))
    (hstep : ∀ version, step ≠ .clearDelay version) (hretries : next.retries = state.retries)
    (hdelay : next.hasDelay = state.hasDelay) :
    next.Delays (ofList following + others) := by
  rw [Delays, hretries, hdelay]
  refine fun hflag => (hdelays hflag).imp_right ?_
  rintro ⟨version, hversion⟩
  rcases mem_cons.mp hversion with hsame | hold
  · exact absurd hsame.symm (hstep version)
  · exact ⟨version, mem_add.mpr (.inr hold)⟩

theorem filterMap_holds_cons (step : ReplicationStep) (others : Multiset ReplicationStep) :
    (step ::ₘ others).filterMap holds =
      ofList step.holds.toList + others.filterMap holds := by
  cases hholds : step.holds with
  | none => rw [filterMap_cons_none _ _ hholds]; exact (zero_add _).symm
  | some holder => rw [filterMap_cons_some _ _ _ hholds]; rfl

theorem filterMap_holds_add (following : List ReplicationStep) (others : Multiset ReplicationStep) :
    (ofList following + others).filterMap holds =
      ofList (following.filterMap holds) +
        others.filterMap holds := by
  rw [filterMap_add, filterMap_coe]

section
variable (hprogress : Progress state (step ::ₘ others))
include hprogress

theorem Progress.holds_keep
    (hfollowing : following.filterMap ReplicationStep.holds = step.holds.toList) :
    (ofList following + others).filterMap ReplicationStep.holds = ofList state.lock.toList := by
  rw [filterMap_holds_add, hfollowing, ← filterMap_holds_cons, hprogress.holds]

variable {holder : LockHolder}

theorem Progress.lock_of_holds (hholds : step.holds = some holder) :
    state.lock = some holder ∧ others.filterMap ReplicationStep.holds = 0 := by
  have hlock := hprogress.holds
  rw [filterMap_holds_cons, hholds] at hlock
  cases hstate : state.lock with
  | none =>
    rw [hstate] at hlock
    exact absurd hlock (cons_ne_zero)
  | some other =>
    rw [hstate] at hlock
    obtain ⟨rfl, hnone⟩ := (singleton_eq_cons_iff _).mp hlock.symm
    exact ⟨rfl, hnone⟩

theorem Progress.holds_take (hlock : state.lock = none)
    (hfollowing : following.filterMap ReplicationStep.holds = [holder]) :
    (ofList following + others).filterMap ReplicationStep.holds = ofList (some holder).toList := by
  have hholds := hprogress.holds
  rw [filterMap_holds_cons, hlock] at hholds
  rw [filterMap_holds_add, hfollowing, (add_eq_zero.mp hholds).2]
  rfl

end

theorem Pulls.keep {db : PulledDb} (hpulls : db.Pulls (step ::ₘ others))
    (hpull : step ≠ .pullFromUpstream db.id) (hdelay : step ≠ .delayPullFromUpstream db.id) :
    db.Pulls (ofList following + others) := by
  refine hpulls.imp_right (Or.imp (fun hmem => ?_) fun hmem => ?_)
  · exact mem_add.mpr (.inr ((mem_cons.mp hmem).resolve_left hpull.symm))
  · exact mem_add.mpr (.inr ((mem_cons.mp hmem).resolve_left hdelay.symm))

theorem Live.keep (hlive : state.Live (step ::ₘ others)) (hreplicates : step.replicates = false)
    (hcalls : step.callsBack = false) (htransfers : next.transfers = state.transfers)
    (hretries : next.retries = state.retries)
    (hpulls : ∀ old, state.db = some old → old.Pulls (step ::ₘ others) →
      ∃ new, next.db = some new ∧ new.Pulls (ofList following + others)) :
    next.Live (ofList following + others) := by
  rcases hlive with hbusy | ⟨other, hother, hcall⟩ | ⟨old, hold, hpull⟩
  · exact .inl (hbusy.keep hreplicates htransfers hretries)
  · rcases mem_cons.mp hother with rfl | hother
    · rw [hcalls] at hcall
      cases hcall
    · exact .inr (.inl ⟨other, mem_add.mpr (.inr hother), hcall⟩)
  · exact .inr (.inr (hpulls old hold hpull))

theorem Progress.keep (hprogress : Progress state (step ::ₘ others))
    (hreplicates : step.replicates = false) (htransfers : next.transfers = state.transfers)
    (hretries : next.retries = state.retries) (hdelay : next.hasDelay = state.hasDelay)
    (hholds : (ofList following + others).filterMap ReplicationStep.holds = ofList next.lock.toList)
    (hflag : next.replicating = true → state.replicating = true ∧
      (state.lock = some .loaded → next.lock = some .loaded))
    (habsent : next.db = none → state.db = none)
    (hrole : ∀ db, next.db = some db → db.role = next.targetRole)
    (hlive : next.targetRole = .FOLLOWER → next.Live (ofList following + others)) :
    Progress next (ofList following + others) where
  holds := hholds
  replicates hset := by
    obtain ⟨hset, hloaded⟩ := hflag hset
    exact (hprogress.replicates hset).imp hloaded fun hbusy =>
      hbusy.keep hreplicates htransfers hretries
  delays := by
    refine hprogress.delays.keep ?_ hretries hdelay
    rintro version rfl
    cases hreplicates
  absent hnone := (hprogress.absent (habsent hnone)).keep hreplicates htransfers hretries
  role := hrole
  live := hlive

theorem Progress.onDb {db : Option PulledDb} (hprogress : Progress state (step ::ₘ others))
    (hreplicates : step.replicates = false)
    (hholds : following.filterMap ReplicationStep.holds = step.holds.toList)
    (habsent : db = none → state.db = none)
    (hrole : ∀ new, db = some new → new.role = state.targetRole)
    (hlive : state.targetRole = .FOLLOWER →
      Live { state with db := db } (ofList following + others)) :
    Progress { state with db := db } (ofList following + others) :=
  hprogress.keep hreplicates rfl rfl rfl (hprogress.holds_keep hholds) (fun hset => ⟨hset, id⟩)
    habsent hrole hlive

theorem Progress.ofBusy (hbusy : next.Busy steps)
    (hholds : steps.filterMap ReplicationStep.holds = ofList next.lock.toList)
    (hdelays : next.Delays steps) (hrole : ∀ db, next.db = some db → db.role = next.targetRole) :
    Progress next steps :=
  ⟨hholds, fun _ => .inr hbusy, hdelays, fun _ => hbusy, hrole, fun _ => .inl hbusy⟩

theorem Progress.goOn {replicating clobbered : Bool} {transfers : List BaseTransfer}
    (hprogress : Progress state (step ::ₘ others))
    (hany : following.any ReplicationStep.replicates = true)
    (hholds : following.filterMap ReplicationStep.holds = step.holds.toList)
    (hclear : ∀ version, step ≠ .clearDelay version) :
    Progress { state with
        replicating := replicating
        transfers := transfers
        clobbered := clobbered } (ofList following + others) :=
  .ofBusy (busy_of_any hany) (hprogress.holds_keep hholds) (hprogress.delays.keep hclear rfl rfl)
    hprogress.role

theorem Progress.skip (hprogress : Progress state (step ::ₘ others))
    (hreplicates : step.replicates = false) (hcalls : step.callsBack = false)
    (hholds : step.holds = none) (hpull : ∀ id, step ≠ .pullFromUpstream id)
    (hdelay : ∀ id, step ≠ .delayPullFromUpstream id) :
    Progress state (ofList [] + others) := by
  refine hprogress.onDb hreplicates ?_ id hprogress.role fun hrole => ?_
  · rw [hholds]
    rfl
  · exact (hprogress.live hrole).keep hreplicates hcalls rfl rfl fun db hdb hpulls =>
      ⟨db, hdb, Pulls.keep hpulls (hpull _) (hdelay _)⟩

theorem Progress.event (hprogress : Progress state steps) (event : ReplicationEvent) :
    Progress state (ofList (threads.start event) + steps) := by
  have hsubset {step : ReplicationStep} (hstep : step ∈ steps) :
      step ∈ ofList (threads.start event) + steps := mem_add.mpr (.inr hstep)
  have hbusy (hbusy : state.Busy steps) :
      state.Busy (ofList (threads.start event) + steps) :=
    hbusy.imp_right (Or.imp_right fun ⟨step, hstep, hreplicates⟩ =>
      ⟨step, hsubset hstep, hreplicates⟩)
  refine ⟨?_, fun hflag => (hprogress.replicates hflag).imp_right hbusy, fun hdelay => ?_,
    fun hnone => hbusy (hprogress.absent hnone), hprogress.role, fun hrole => ?_⟩
  · rw [filterMap_holds_add, hprogress.holds]
    cases event <;> exact zero_add _
  · exact (hprogress.delays hdelay).imp_right fun ⟨version, hversion⟩ => ⟨version, hsubset hversion⟩
  · refine (hprogress.live hrole).imp hbusy (Or.imp ?_ ?_)
    · exact fun ⟨step, hstep, hcalls⟩ => ⟨step, hsubset hstep, hcalls⟩
    · exact fun ⟨db, hdb, hpulls⟩ => ⟨db, hdb, hpulls.imp_right (Or.imp hsubset hsubset)⟩

theorem Progress.pull {id : Nat} {change : PulledDb → PulledDb}
    (hprogress : Progress state (step ::ₘ others))
    (hstep : step = .pullFromUpstream id ∨ step = .delayPullFromUpstream id)
    (hrole : ∀ db, (change db).role = db.role)
    (hpulls : ∀ db, db.role = .FOLLOWER → 0 < (change db).pulls + (change db).delayedPulls) :
    Progress (state.onDb id change) (ofList [] + others) := by
  have hquiet : step.replicates = false ∧ step.callsBack = false ∧ step.holds = none := by
    rcases hstep with rfl | rfl <;> exact ⟨rfl, rfl, rfl⟩
  refine hprogress.onDb hquiet.1 (by rw [hquiet.2.2]; rfl) map_eq_none_iff.mp ?_ ?_
  · intro new hnew
    obtain ⟨db, hdb, rfl⟩ := map_eq_some_iff.mp hnew
    split_ifs
    · exact (hrole db).trans (hprogress.role db hdb)
    · exact hprogress.role db hdb
  · intro hfollower
    refine (hprogress.live hfollower).keep hquiet.1 hquiet.2.1 rfl rfl fun db hdb hold => ?_
    refine ⟨_, congrArg (Option.map _) hdb, ?_⟩
    dsimp only
    by_cases hid : db.id = id
    · rw [if_pos hid]
      exact .inl (hpulls db ((hprogress.role db hdb).trans hfollower))
    · rw [if_neg hid]
      refine Pulls.keep hold ?_ ?_ <;> rcases hstep with rfl | rfl <;> simp [Ne.symm hid]

variable {version : Version}

theorem Progress.delay (hprogress : Progress state (step ::ₘ others))
    (hholds : following.filterMap ReplicationStep.holds = step.holds.toList)
    (hclear : ∀ version, step ≠ .clearDelay version) :
    Progress (state.delayBaseDataReplicate version) (ofList following + others) := by
  unfold BaseReplication.delayBaseDataReplicate
  split_ifs with hflag
  · have hdelays := @Delays.keep state state step others following hprogress.delays hclear rfl rfl
    refine .ofBusy ?_ (hprogress.holds_keep hholds) hdelays hprogress.role
    rcases hdelays hflag with hretries | ⟨other, hother⟩
    · exact .inr (.inl hretries)
    · exact .inr (.inr ⟨_, hother, rfl⟩)
  · have hretries : state.retries ++ [version] ≠ [] := by simp
    exact .ofBusy (.inr (.inl hretries)) (hprogress.holds_keep hholds) (fun _ => .inl hretries)
      hprogress.role

theorem Progress.load (hprogress : Progress state (.loadRocksDbEngine version ::ₘ others)) :
    Progress { state.loadRocksDbEngine version true called with lock := some .loaded }
      (ofList [.clearReplicating] + others) := by
  obtain ⟨hlock, hnone⟩ := hprogress.lock_of_holds rfl
  refine ⟨?_, fun _ => .inl rfl, hprogress.delays.keep nofun rfl rfl, nofun, ?_, ?_⟩
  · rw [filterMap_holds_add, hnone]
    rfl
  · rintro db hdb
    cases hdb
    exact PulledDb.opened_role state.made version state.role called
  · intro hrole
    exact .inr (.inr ⟨_, rfl, .inl (PulledDb.pullFromUpstream_pulls _ called hrole)⟩)

theorem Progress.clear (hprogress : Progress state (.clearReplicating ::ₘ others)) :
    Progress { state with replicating := false, lock := none } (ofList [] + others) := by
  obtain ⟨hlock, hnone⟩ := hprogress.lock_of_holds rfl
  have htarget : state.targetRole = state.role := by rw [targetRole, hlock]
  refine hprogress.keep rfl rfl rfl rfl ?_ nofun id (fun db hdb => ?_) fun hrole => ?_
  · rw [filterMap_holds_add, hnone]
    rfl
  · exact (hprogress.role db hdb).trans htarget
  · exact (hprogress.live (htarget.trans hrole)).keep rfl rfl rfl rfl fun db hdb hpulls =>
      ⟨db, hdb, Pulls.keep hpulls nofun nofun⟩

theorem Progress.assign {role : DBRole}
    (hprogress : Progress state (.assignPartition role ::ₘ others)) :
    Progress { state with role := role, lock := none } (ofList [] + others) := by
  obtain ⟨hlock, hnone⟩ := hprogress.lock_of_holds rfl
  have htarget : state.targetRole = role := by rw [targetRole, hlock]
  refine hprogress.keep rfl rfl rfl rfl ?_ (fun hset => ⟨hset, ?_⟩) id (fun db hdb => ?_)
    fun hrole => ?_
  · rw [filterMap_holds_add, hnone]
    rfl
  · rw [hlock]
    exact nofun
  · exact (hprogress.role db hdb).trans htarget
  · exact (hprogress.live (htarget.trans hrole)).keep rfl rfl rfl rfl fun db hdb hpulls =>
      ⟨db, hdb, Pulls.keep hpulls nofun nofun⟩

theorem Progress.setPartition {role : DBRole}
    (hprogress : Progress state (.setPartition role ::ₘ others)) (hlock : state.lock = none) :
    Progress { state with
        db := if role ≠ state.role then state.db.map fun db => db.changeRole role called else state.db
        lock := some (.changingRole role) }
      (ofList [.assignPartition role] + others) := by
  have htarget : state.targetRole = state.role := by rw [targetRole, hlock]
  refine hprogress.keep rfl rfl rfl rfl (hprogress.holds_take hlock rfl) (fun hset => ⟨hset, ?_⟩)
    ?_ ?_ fun hrole => ?_
  · rw [hlock]
    exact nofun
  · dsimp only
    split_ifs
    · exact map_eq_none_iff.mp
    · exact id
  · dsimp only
    split_ifs with hchange
    · intro new hnew
      obtain ⟨db, hdb, rfl⟩ := map_eq_some_iff.mp hnew
      exact db.changeRole_role role called
    · intro db hdb
      rw [hprogress.role db hdb, htarget]
      exact (not_not.mp hchange).symm
  · have hfollower : role = .FOLLOWER := hrole
    by_cases hchange : role ≠ state.role
    · cases hdb : state.db with
      | none => exact .inl ((hprogress.absent hdb).keep rfl rfl rfl)
      | some db =>
        have hleader : db.role ≠ .FOLLOWER := by
          rw [hprogress.role db hdb, htarget, ← hfollower]
          exact hchange.symm
        refine .inr (.inr ⟨db.changeRole role called, by simp [hchange], .inl ?_⟩)
        rw [hfollower]
        exact db.changeRole_pulls hleader called
    · have hsame : state.targetRole = .FOLLOWER := htarget.trans ((not_not.mp hchange).symm.trans hfollower)
      exact (hprogress.live hsame).keep rfl rfl rfl rfl fun db hdb hpulls =>
        ⟨db, by rw [if_neg hchange, hdb], Pulls.keep hpulls nofun nofun⟩

theorem Progress.reload (hprogress : Progress state (.reloadRocksDbEngine ::ₘ others))
    (hlock : state.lock = none) :
    Progress ({ state with db := none }.loadRocksDbEngine state.baseVersion true called)
      (ofList [] + others) := by
  have htarget : state.targetRole = state.role := by rw [targetRole, hlock]
  refine hprogress.keep rfl rfl rfl rfl (hprogress.holds_keep rfl) (fun hset => ⟨hset, id⟩) nofun
    ?_ fun hrole => ?_
  · intro db hdb
    cases hdb
    exact (PulledDb.opened_role _ _ _ called).trans htarget.symm
  · have hfollower : state.role = .FOLLOWER := htarget.symm.trans hrole
    exact .inr (.inr ⟨_, rfl, .inl (PulledDb.pullFromUpstream_pulls _ called hfollower)⟩)

end

variable {state : BaseReplication}

theorem Progress.step {met : ReplicationMet} {step : ReplicationStep}
    {others : Multiset ReplicationStep} (hprogress : Progress state (step ::ₘ others))
    (hsteady : state.Steady (step ::ₘ others) met step) :
    Progress (state.step met step).1 (ofList (state.step met step).2 + others) := by
  obtain ⟨hopened, htests, hreads⟩ := hsteady
  cases step <;> simp only [BaseReplication.step]
  case applyUpdates response =>
    cases hdb : state.db with
    | none => exact hprogress.skip rfl rfl rfl nofun nofun
    | some db =>
      have hrole (new : PulledDb) (hnew : some { db with pulls := db.pulls - 1 } = some new) :
          new.role = state.targetRole := by
        cases hnew
        exact hprogress.role db hdb
      dsimp only
      split_ifs
      · exact hprogress.skip rfl rfl rfl nofun nofun
      · rcases db.applyUpdates_cases response with ⟨version, hnext⟩ | hnext | hnext <;> rw [hnext]
        · exact hprogress.onDb rfl rfl nofun hrole fun _ =>
            .inr (.inl ⟨.updateVersion version, mem_cons_self _ _, rfl⟩)
        · exact hprogress.onDb rfl rfl nofun hrole fun _ =>
            .inr (.inr ⟨_, rfl, .inr (.inl (mem_cons_self _ _))⟩)
        · exact hprogress.onDb rfl rfl nofun hrole fun _ =>
            .inr (.inr ⟨_, rfl, .inr (.inr (mem_cons_self _ _))⟩)
  case pullTimer =>
    cases hdb : state.db with
    | none => exact hprogress.skip rfl rfl rfl nofun nofun
    | some db =>
      dsimp only
      split_ifs
      · exact hprogress.skip rfl rfl rfl nofun nofun
      · refine hprogress.onDb rfl rfl nofun ?_ fun _ => .inr (.inr ⟨_, rfl, .inr (.inl ?_)⟩)
        · rintro new ⟨⟩
          exact hprogress.role db hdb
        · exact mem_cons_self _ _
  case pullFromUpstream id =>
    refine hprogress.pull (.inl rfl) (fun db => ?_) fun db hrole => ?_
    · exact db.pullFromUpstream_role met.called
    · exact db.pullFromUpstream_pulls met.called hrole
  case delayPullFromUpstream id =>
    exact hprogress.pull (.inr rfl) (fun _ => rfl) fun db _ => by dsimp only; omega
  case updateVersion version =>
    split_ifs with hrole
    · exact hprogress.onDb rfl rfl id hprogress.role fun htarget =>
        absurd (hreads rfl htarget) hrole
    · exact hprogress.onDb rfl rfl id hprogress.role fun _ =>
        .inr (.inl ⟨_, mem_cons_self _ _, rfl⟩)
  case testAndSet version =>
    split_ifs with hflag
    · have hbusy := (hprogress.replicates hflag).resolve_left (htests rfl)
      exact hprogress.onDb rfl rfl id hprogress.role fun _ => .inl (hbusy.keep rfl rfl rfl)
    · exact hprogress.goOn rfl rfl nofun
  case removeExistingDataDir version =>
    split_ifs
    · exact hprogress
    · exact hprogress.goOn rfl rfl nofun
  case removeAll version directory =>
    split_ifs <;> exact hprogress.goOn rfl rfl nofun
  case receiver version directory =>
    split_ifs
    · have htransfers : state.transfers ++ [⟨version, directory⟩] ≠ [] := by simp
      exact .ofBusy (.inl htransfers) (hprogress.holds_keep rfl)
        (hprogress.delays.keep nofun rfl rfl) hprogress.role
    · exact hprogress.goOn rfl rfl nofun
  case transferEnd index ok =>
    split
    · exact hprogress.skip rfl rfl rfl nofun nofun
    · split_ifs <;> exact hprogress.goOn rfl rfl nofun
  case transferred version =>
    split_ifs with hlock
    · exact hprogress
    · have hfree := not_isSome_iff_eq_none.mp hlock
      exact .ofBusy (busy_of_any rfl) (hprogress.holds_take hfree rfl)
        (hprogress.delays.keep nofun rfl rfl) nofun
    · exact .ofBusy (busy_of_any rfl) (hprogress.holds_keep rfl)
        (hprogress.delays.keep nofun rfl rfl) nofun
    · have hfree := not_isSome_iff_eq_none.mp hlock
      refine .ofBusy (busy_of_any rfl) (hprogress.holds_take hfree rfl)
        (hprogress.delays.keep nofun rfl rfl) fun db hdb => ?_
      rw [hprogress.role db hdb, targetRole, hfree]
      rfl
  case loadRocksDbEngine version =>
    simp only [hopened rfl]
    exact hprogress.load
  case clearReplicating => exact hprogress.clear
  case transferFailed version atStart => exact hprogress.goOn rfl rfl nofun
  case delayBaseDataReplicate version atStart =>
    exact hprogress.delay (by cases atStart <;> rfl) nofun
  case startFailed version => exact hprogress.delay rfl nofun
  case retryTimer =>
    split
    · exact hprogress.skip rfl rfl rfl nofun nofun
    · exact .ofBusy (busy_of_any rfl) (hprogress.holds_keep rfl)
        (fun _ => .inr ⟨_, mem_cons_self _ _⟩) hprogress.role
  case clearDelay version =>
    exact .ofBusy (busy_of_any rfl) (hprogress.holds_keep rfl) nofun hprogress.role
  case setPartition role =>
    split
    · exact hprogress
    · next hlock => exact hprogress.setPartition (not_isSome_iff_eq_none.mp hlock)
  case assignPartition role => exact hprogress.assign
  case forceBaseDataReplication =>
    split_ifs with hlock
    · exact hprogress
    · refine hprogress.onDb rfl rfl map_eq_none_iff.mp ?_ fun hrole => ?_
      · intro new hnew
        obtain ⟨db, hdb, rfl⟩ := map_eq_some_iff.mp hnew
        exact hprogress.role db hdb
      · exact (hprogress.live hrole).keep rfl rfl rfl rfl fun db hdb hpulls =>
          ⟨_, congrArg (Option.map _) hdb, Pulls.keep hpulls nofun nofun⟩
  case reloadRocksDbEngine =>
    simp only [hopened rfl]
    split_ifs with hlock
    · exact hprogress
    · exact hprogress.reload (not_isSome_iff_eq_none.mp hlock)

theorem Progress.pending (hprogress : Progress state 0) (hrole : state.role = .FOLLOWER) :
    state.Pending := by
  have hlock : state.lock = none := by
    cases hlock : state.lock with
    | none => rfl
    | some holder =>
      have hholds := congrArg card hprogress.holds
      rw [hlock] at hholds
      cases hholds
  have htarget : state.targetRole = .FOLLOWER := by rw [targetRole, hlock, ← hrole]
  rcases hprogress.live htarget with (htransfers | hretries | ⟨step, hstep, -⟩) |
    ⟨step, hstep, -⟩ | ⟨db, hdb, hpulls | hstep | hstep⟩
  · exact .inl htransfers
  · exact .inr (.inl hretries)
  · exact absurd hstep (notMem_zero _)
  · exact absurd hstep (notMem_zero _)
  · exact .inr (.inr ⟨db, hdb, hpulls⟩)
  all_goals exact absurd hstep (notMem_zero _)

def transferredRun (opened : Bool) : List (Action 1 ReplicationMet ReplicationEvent) :=
  [.submit (.response (.updates [2] true false)), .submit (.transferEnd 0 true)] ++
    List.replicate 12 (.run 0 ⟨true, true, true, true, opened⟩)

end BaseReplication

end LaserDB
