import LaserDB.Cluster.BaseReplication

/-!
# One base data transfer at a time

The flag `base_data_wdt_replicating_` keeps version callbacks from starting a second transfer, but a
failed transfer clears it before the retry, which does not take it.
-/

namespace LaserDB

open Multiset (countP_add countP_cons countP_eq_zero mem_add mem_cons mem_cons_of_mem ofList)
open WorkerPool (Pool Action)
open Multiset Nat ReplicationStep

namespace ReplicationStep

def startFails : ReplicationStep → Bool
  | .startFailed _ => true
  | _ => false

end ReplicationStep

namespace BaseReplication

/-- A version callback finds the flag clear only when nothing is under way, and a retry comes only
after the call that scheduled it has returned. -/
def Alone (state : BaseReplication) (steps : Multiset ReplicationStep) (_ : ReplicationMet)
    (step : ReplicationStep) : Prop :=
  (step.testsFlag = true → state.replicating = false → state.transfers = [] ∧ state.retries = [] ∧
    ∀ other ∈ steps, other.replicates = false) ∧
  (step = .retryTimer → ∀ other ∈ steps, other.startFails = false)

instance (state : BaseReplication) (steps : Multiset ReplicationStep) (met : ReplicationMet)
    (step : ReplicationStep) : Decidable (state.Alone steps met step) :=
  inferInstanceAs (Decidable (_ ∧ _))

structure Single (state : BaseReplication) (steps : Multiset ReplicationStep) : Prop where
  one : state.transfers.length + state.retries.length +
    steps.countP (fun step => step.replicates = true) ≤ 1
  delayed : state.hasDelay = true → state.retries ≠ [] ∨ ∃ version, .clearDelay version ∈ steps
  scheduled : state.retries ≠ [] → state.hasDelay = true
  startFailed : (∃ step ∈ steps, step.startFails = true) → state.retries ≠ []
  kept : state.clobbered = false

theorem single_start (role : DBRole) (version : Version) (called : Bool) :
    Single (start role version called) 0 :=
  ⟨zero_le _, nofun, fun hretries => absurd rfl hretries, by simp, rfl⟩

section
variable {state : BaseReplication} {steps others : Multiset ReplicationStep}

theorem Single.event (hsingle : Single state steps) (event : ReplicationEvent) :
    Single state (ofList (threads.start event) + steps) := by
  have hsteps : ofList (threads.start event) + steps = event.step ::ₘ steps := rfl
  have hevent : event.step.replicates = false ∧ event.step.startFails = false := by
    cases event <;> exact ⟨rfl, rfl⟩
  rw [hsteps]
  refine ⟨?_, ?_, hsingle.scheduled, ?_, hsingle.kept⟩
  · rw [countP_cons_of_neg _ (by rw [hevent.1]; exact Bool.false_ne_true)]
    exact hsingle.one
  · intro hdelay
    refine (hsingle.delayed hdelay).imp_right ?_
    rintro ⟨version, hversion⟩
    exact ⟨version, mem_cons_of_mem hversion⟩
  · rintro ⟨step, hstep, hfails⟩
    rcases mem_cons.mp hstep with rfl | hold
    · rw [hevent.2] at hfails
      cases hfails
    · exact hsingle.startFailed ⟨step, hold, hfails⟩

section
variable {step : ReplicationStep} (hsingle : Single state (step ::ₘ others))
include hsingle

theorem Single.keep {next : BaseReplication} {following : List ReplicationStep}
    (hretries : next.retries = state.retries) (hdelay : next.hasDelay = state.hasDelay)
    (hkept : next.clobbered = state.clobbered) (hclear : ∀ version, step ≠ .clearDelay version)
    (hcount : next.transfers.length + following.countP (fun step => step.replicates = true) ≤
      state.transfers.length + if step.replicates = true then 1 else 0)
    (hfails : following.any startFails = false) :
    Single next (ofList following + others) := by
  obtain ⟨hone, hdelayed, hscheduled, hfailed, hclobbered⟩ := hsingle
  rw [countP_cons] at hone
  refine ⟨?_, ?_, ?_, ?_, hkept.trans hclobbered⟩
  · rw [hretries, countP_add, coe_countP]
    omega
  · rw [hdelay, hretries]
    refine fun hdelay => (hdelayed hdelay).imp_right ?_
    rintro ⟨version, hversion⟩
    rcases mem_cons.mp hversion with hsame | hold
    · exact absurd hsame.symm (hclear version)
    · exact ⟨version, mem_add.mpr (.inr hold)⟩
  · rw [hretries, hdelay]
    exact hscheduled
  · rw [hretries]
    rintro ⟨other, hother, hstart⟩
    rcases mem_add.mp hother with hnew | hold
    · exact absurd hstart (List.any_eq_false.mp hfails other hnew)
    · exact hfailed ⟨other, mem_cons_of_mem hold, hstart⟩

theorem Single.alone (hstep : step.replicates = true) :
    state.transfers = [] ∧ state.retries = [] ∧ ∀ other ∈ others, other.replicates = false := by
  have hone := hsingle.one
  rw [countP_cons, if_pos hstep] at hone
  refine ⟨List.length_eq_zero_iff.mp (by omega), List.length_eq_zero_iff.mp (by omega), ?_⟩
  have hnone : others.countP (fun step => step.replicates = true) = 0 := by omega
  exact fun other hother => Bool.eq_false_iff.mpr (countP_eq_zero.mp hnone other hother)

theorem Single.hasDelay_of_replicates (hstep : step.replicates = true)
    (hclear : ∀ version, step ≠ .clearDelay version) : state.hasDelay = false := by
  obtain ⟨-, hretries, hothers⟩ := hsingle.alone hstep
  by_contra hdelay
  rcases hsingle.delayed (Bool.eq_true_of_not_eq_false hdelay) with hsome | ⟨version, hversion⟩
  · exact hsome hretries
  · rcases mem_cons.mp hversion with hsame | hother
    · exact hclear version hsame.symm
    · exact absurd (hothers _ hother) (by simp [replicates])

end

theorem startFails_of_mem {step : ReplicationStep} {next : List ReplicationStep}
    (hnext : next.any startFails = false)
    (hfails : ∃ other ∈ ofList next + others, other.startFails = true) :
    ∃ other ∈ step ::ₘ others, other.startFails = true := by
  obtain ⟨other, hother, hstart⟩ := hfails
  rcases mem_add.mp hother with hnew | hold
  · exact absurd hstart (List.any_eq_false.mp hnext other hnew)
  · exact ⟨other, mem_cons_of_mem hold, hstart⟩

variable {version : Version}

theorem Single.testAndSet (hsingle : Single state (.testAndSet version ::ₘ others))
    (htransfers : state.transfers = []) (hretries : state.retries = [])
    (hsteps : ∀ step ∈ testAndSet version ::ₘ others, step.replicates = false) :
    Single { state with replicating := true }
      (ofList [.removeExistingDataDir version] + others) := by
  have hnone : others.countP (fun step => step.replicates = true) = 0 :=
    countP_eq_zero.mpr fun step hstep =>
      Bool.eq_false_iff.mp (hsteps step (mem_cons_of_mem hstep))
  refine ⟨?_, ?_, hsingle.scheduled, fun hfails => ?_, hsingle.kept⟩
  · rw [htransfers, hretries, countP_add, hnone]
    exact le_refl 1
  · intro hdelay
    rcases hsingle.delayed hdelay with hsome | ⟨other, hother⟩
    · exact absurd hretries hsome
    · exact absurd (hsteps _ hother) (by simp [replicates])
  · exact hsingle.startFailed (startFails_of_mem rfl hfails)

theorem Single.delayBaseDataReplicate {atStart : Bool}
    (hsingle : Single state (.delayBaseDataReplicate version atStart ::ₘ others)) :
    Single (state.delayBaseDataReplicate version)
      (ofList (if atStart then [.startFailed version] else []) + others) := by
  obtain ⟨htransfers, hretries, hothers⟩ := hsingle.alone rfl
  have hdelay := hsingle.hasDelay_of_replicates rfl nofun
  have hnone : others.countP (fun step => step.replicates = true) = 0 :=
    countP_eq_zero.mpr fun step hstep => Bool.eq_false_iff.mp (hothers step hstep)
  rw [BaseReplication.delayBaseDataReplicate, hdelay, if_neg Bool.false_ne_true]
  have hsome : state.retries ++ [version] ≠ [] := by simp
  refine ⟨?_, fun _ => .inl hsome, fun _ => rfl, fun _ => hsome, hsingle.kept⟩
  have hnew : (ofList (if atStart then [ReplicationStep.startFailed version] else [])
      ).countP (fun step => step.replicates = true) = 0 := by cases atStart <;> rfl
  rw [countP_add, hnone, hnew, htransfers, hretries]
  exact le_refl 1

theorem Single.startFailedStep (hsingle : Single state (.startFailed version ::ₘ others)) :
    Single (state.delayBaseDataReplicate version) (ofList [] + others) := by
  have hretries := hsingle.startFailed ⟨_, mem_cons_self _ _, rfl⟩
  rw [BaseReplication.delayBaseDataReplicate, if_pos (hsingle.scheduled hretries)]
  exact hsingle.keep rfl rfl rfl nofun (le_refl _) rfl

theorem Single.retryTimer {retries : List Version} (hsingle : Single state (.retryTimer ::ₘ others))
    (hretries : state.retries = version :: retries)
    (hsteps : ∀ step ∈ retryTimer ::ₘ others, step.startFails = false) :
    Single { state with retries := retries } (ofList [.clearDelay version] + others) := by
  have hone := hsingle.one
  rw [hretries, countP_cons, List.length_cons] at hone
  have hnew : (ofList [clearDelay version]).countP
      (fun step => step.replicates = true) = 1 := rfl
  refine ⟨?_, fun _ => .inr ⟨version, by simp⟩, fun _ => ?_, ?_, hsingle.kept⟩
  · rw [countP_add, hnew]
    dsimp only
    omega
  · exact hsingle.scheduled (by rw [hretries]; exact List.cons_ne_nil _ _)
  · intro hfails
    obtain ⟨step, hstep, hstart⟩ := @startFails_of_mem _ .retryTimer _ rfl hfails
    rw [hsteps step hstep] at hstart
    cases hstart

theorem Single.clearDelay (hsingle : Single state (.clearDelay version ::ₘ others)) :
    Single { state with hasDelay := false }
      (ofList [.removeExistingDataDir version] + others) := by
  obtain ⟨-, hretries, -⟩ := hsingle.alone rfl
  have hnew : (ofList [ReplicationStep.removeExistingDataDir version]).countP
      (fun step => step.replicates = true) = 1 := rfl
  have hone := hsingle.one
  rw [countP_cons] at hone
  have hself : (if (ReplicationStep.clearDelay version).replicates = true then 1 else 0) = 1 := rfl
  refine ⟨?_, nofun, fun hsome => absurd hretries hsome, fun hfails => ?_, hsingle.kept⟩
  · rw [countP_add, hnew]
    dsimp only
    omega
  · exact hsingle.startFailed (startFails_of_mem rfl hfails)

theorem Single.step {met : ReplicationMet} {step : ReplicationStep}
    (hsingle : Single state (step ::ₘ others)) (halone : state.Alone (step ::ₘ others) met step) :
    Single (state.step met step).1 (ofList (state.step met step).2 + others) := by
  cases step <;> simp only [BaseReplication.step]
  case applyUpdates response =>
    split
    · exact hsingle.keep rfl rfl rfl nofun (le_refl _) rfl
    · next db hdb =>
        split_ifs
        · exact hsingle.keep rfl rfl rfl nofun (le_refl _) rfl
        · rcases db.applyUpdates_cases response with ⟨version, hnext⟩ | hnext | hnext <;>
            rw [hnext] <;> exact hsingle.keep rfl rfl rfl nofun (le_refl _) rfl
  case pullTimer =>
    split
    · exact hsingle.keep rfl rfl rfl nofun (le_refl _) rfl
    · split_ifs <;> exact hsingle.keep rfl rfl rfl nofun (le_refl _) rfl
  case pullFromUpstream | delayPullFromUpstream | clearReplicating | transferFailed | assignPartition =>
    exact hsingle.keep rfl rfl rfl nofun (le_refl _) rfl
  case updateVersion | removeExistingDataDir | transferred | setPartition | forceBaseDataReplication =>
    split_ifs <;> exact hsingle.keep rfl rfl rfl nofun (le_refl _) rfl
  case testAndSet version =>
    cases hflag : state.replicating with
    | true => exact hsingle.keep rfl rfl rfl nofun (le_refl _) rfl
    | false =>
      obtain ⟨htransfers, hretries, hsteps⟩ := halone.1 rfl hflag
      exact hsingle.testAndSet htransfers hretries hsteps
  case removeAll version directory =>
    obtain ⟨htransfers, -, -⟩ := hsingle.alone rfl
    have hkept : (state.clobbered ||
        decide (∃ transfer ∈ state.transfers, transfer.directory = directory)) =
        state.clobbered := by
      simp [htransfers]
    split_ifs <;> exact hsingle.keep rfl rfl hkept nofun (le_refl _) rfl
  case receiver version directory =>
    split_ifs
    · exact hsingle.keep rfl rfl rfl nofun (by simp [ReplicationStep.replicates]) rfl
    · exact hsingle.keep rfl rfl rfl nofun (le_refl _) rfl
  case transferEnd index ok =>
    split
    · exact hsingle.keep rfl rfl rfl nofun (le_refl _) rfl
    · next transfer htransfer =>
        have hindex := (List.getElem?_eq_some_iff.mp htransfer).1
        have hlength : (state.transfers.eraseIdx index).length + 1 ≤ state.transfers.length := by
          rw [List.length_eraseIdx_of_lt hindex]
          omega
        split_ifs <;> exact hsingle.keep rfl rfl rfl nofun hlength rfl
  case loadRocksDbEngine version =>
    rw [loadRocksDbEngine_eq]
    exact hsingle.keep rfl rfl rfl nofun (le_succ _) rfl
  case delayBaseDataReplicate version atStart => exact hsingle.delayBaseDataReplicate
  case startFailed version => exact hsingle.startFailedStep
  case retryTimer =>
    cases hretries : state.retries with
    | nil => exact hsingle.keep rfl rfl rfl nofun (le_refl _) rfl
    | cons version retries => exact hsingle.retryTimer hretries (halone.2 rfl)
  case clearDelay version => exact hsingle.clearDelay
  case reloadRocksDbEngine =>
    rw [loadRocksDbEngine_eq]
    split_ifs <;> exact hsingle.keep rfl rfl rfl nofun (le_refl _) rfl

end

/-- At most one transfer runs and one retry is scheduled, and no removal meets a transfer. -/
theorem threads_single {count : Nat} (role : DBRole) (version : Version) (called : Bool)
    (actions : List (Action count ReplicationMet ReplicationEvent))
    (halone : Simulation.Guarded (fun action pool => pool.step threads action)
      (Pool.Allowed Alone) actions (Pool.start (start role version called))) :
    ((Pool.start (start role version called)).run threads actions).state.transfers.length ≤ 1 ∧
    ((Pool.start (start role version called)).run threads actions).state.retries.length ≤ 1 ∧
    ((Pool.start (start role version called)).run threads actions).state.clobbered = false := by
  have hsingle : Single _ _ :=
    Pool.invariant_run (fun _ _ event hsingle => hsingle.event event)
      (fun _ _ _ _ hsingle halone => hsingle.step halone)
      (by rw [Pool.steps_start]; exact single_start role version called) halone
  exact ⟨by have := hsingle.one; omega, by have := hsingle.one; omega, hsingle.kept⟩

def retriedRun : List (Action 1 ReplicationMet ReplicationEvent) :=
  [.submit (.response (.updates [2] true false)), .submit (.transferEnd 0 false),
    .submit .retryTimer] ++ List.replicate 17 (.run 0 ⟨true, true, true, true, true⟩)

theorem threads_single_retried :
    ((Pool.start (start .FOLLOWER [1] true)).run threads retriedRun).state.transfers.length ≤
      1 ∧
    ((Pool.start (start .FOLLOWER [1] true)).run threads retriedRun).state.retries.length ≤
      1 ∧
    ((Pool.start (start .FOLLOWER [1] true)).run threads retriedRun).state.clobbered =
      false :=
  threads_single .FOLLOWER [1] true retriedRun (by decide)

/-- The options of the database change before the retry.  The reloaded database pulls, hears of the
new version and starts a transfer; then the retry removes what the transfer has written. -/
def reloadedRun : List (Action 1 ReplicationMet ReplicationEvent) :=
  [.submit (.response (.updates [2] true false)), .submit (.transferEnd 0 false),
    .submit .reloadRocksDbEngine, .submit (.response (.updates [2] true false)),
    .submit .retryTimer] ++ List.replicate 25 (.run 0 ⟨true, true, true, true, true⟩)

theorem threads_single_fails :
    ((Pool.start (start .FOLLOWER [1] true)).run threads reloadedRun).state.transfers =
      [⟨[2], .data [2]⟩] ∧
    ((Pool.start (start .FOLLOWER [1] true)).run threads reloadedRun).state.clobbered =
      true := by
  decide

end BaseReplication

end LaserDB
