import LaserDB.Replication.Follower

/-!
# The sequence numbers of one pull loop

With one follower, one loop and a log that loses nothing, the follower stands at the end of a batch
of its leader after every step.
-/

namespace LaserDB.Replication

open List Nat ReplicationSource
open ReplicationFollower (applyNext applyUpdates getLatestSequenceNumber settle)
open WriteBatch (count)
open SequencedLog (total)
open Simulation (finalState)
open ReplicationSource (getUpdates getIterHash)

/-- A pull whose reply of at most `length` batches is applied to its end. -/
def wholePull (length : Nat) (env : ServeEnv) : List Step :=
  .serve 0 env :: .receive 0 :: replicate (length + 1) (.apply 0 ⟨true, true⟩ true false)

section
variable {η : Type}

/-- A leader and a follower of the same version, and a leader that keeps its whole log, of which no
response has `2 ^ 32` records. -/
structure Paired (system : Replication η) : Prop where
  whole : system.source.log.removed = 0
  leader : system.source.role = .LEADER
  role : system.follower.role = .FOLLOWER
  version : system.follower.version = system.source.version
  unforced : system.follower.forceBaseDataReplication = false
  maxSize_pos : 0 < system.follower.maxSize
  counted : system.source.log.Counted system.follower.maxSize

/-- The steps of the loop, of its leader and of other followers.  What the leader writes can still
be counted in a response. -/
def InLoop (nodes : Set Int) : Step → Replication η → Prop
  | .source (.write batch), system => (system.source.log.write batch).Counted system.follower.maxSize
  | .source (.request _ request), system =>
    request.nodeHash ∈ nodes ∧ request.nodeHash ≠ system.follower.nodeHash
  | .source (.idle _), _ | .serve _ _, _ | .fail _ _, _ | .receive _, _ | .apply _ _ _ _, _
  | .fire _ _, _ => True
  | _, _ => False

variable [DecidableEq η] (cityHash64 : List Char → η)

def pulled (env : ServeEnv) (seqNo : Nat) (system : Replication η) :=
  getUpdates cityHash64 env (system.follower.getPullRequest seqNo) system.source

/-- The follower is at the end of a batch.  A reply that is applied as a whole takes it on by
the records in it, to just before the sequence number of the cached iterator; a leader that is
ahead sends something; and as many pulls as there are batches are enough. -/
def Advances (system : Replication η) : Prop :=
  (∃ place ≤ system.source.log.batches.length, system.follower.getLatestSequenceNumber =
    total WriteBatch.count (system.source.log.batches.take place)) ∧
  ∀ seqNo, system.follower.pending = [.pull seqNo] →
    (∀ env response, (pulled cityHash64 env seqNo system).1 = .ok response →
      let after := finalState (next cityHash64) (wholePull response.updates.length env) system
      after.follower.getLatestSequenceNumber =
          seqNo + total WriteBatch.count (response.updates.map Update.rawData) ∧
        (after.source.cachedIters (getIterHash cityHash64
          (after.follower.getLatestSequenceNumber + 1) after.follower.nodeHash)).isSome) ∧
    (∀ env, env.fault = none → seqNo < system.source.log.getLatestSequenceNumber →
      ∃ response, (pulled cityHash64 env seqNo system).1 = .ok response ∧ response.updates ≠ []) ∧
    ∀ envs : List ServeEnv, (∀ env ∈ envs, env.fault = none) →
      system.source.log.batches.length ≤ envs.length →
      (finalState (next cityHash64)
        (envs.flatMap (wholePull system.source.log.batches.length)) system).follower.applied =
          system.source.log.batches

variable {cityHash64} {system : Replication η}

variable {source : ReplicationSource η}

omit [DecidableEq η] in
theorem Paired.of_moved (hpaired : Paired system) {follower : ReplicationFollower}
    (hsource : ∃ cachedIters, source = { system.source with cachedIters := cachedIters })
    (hfollower : ∃ applied pending,
      follower = { system.follower with applied := applied, pending := pending }) :
    Paired ⟨source, follower⟩ := by
  obtain ⟨cachedIters, rfl⟩ := hsource
  obtain ⟨applied, pending, rfl⟩ := hfollower
  exact ⟨hpaired.whole, hpaired.leader, hpaired.role, hpaired.version, hpaired.unforced,
    hpaired.maxSize_pos, hpaired.counted⟩

variable {nodes : Set Int}

private theorem Paired.next (hpaired : Paired system) {step : Step}
    (hstep : InLoop nodes step system) :
    Paired (next cityHash64 step system) := by
  cases step with
  | source event =>
    cases event with
    | write batch =>
      exact ⟨hpaired.whole, hpaired.leader, hpaired.role, hpaired.version, hpaired.unforced,
        hpaired.maxSize_pos, hstep⟩
    | request env request => exact hpaired.of_moved (getUpdates_source _ _ _ _) ⟨_, _, rfl⟩
    | idle now => exact hpaired.of_moved ⟨_, rfl⟩ ⟨_, _, rfl⟩
    | truncate | changeRole => exact hstep.elim
  | changeRole | forceBaseDataReplication => exact hstep.elim
  | serve index env =>
    simp only [Replication.next]
    split
    · exact hpaired.of_moved (getUpdates_source _ _ _ _) ⟨_, _, rfl⟩
    · exact hpaired
  | _ =>
    simp only [Replication.next]
    split
    · exact hpaired.of_moved ⟨_, rfl⟩ ⟨_, _, rfl⟩
    · exact hpaired

omit [DecidableEq η] in
theorem Paired.admits (hpaired : Paired system) {step : Step} (hstep : InLoop nodes step system) :
    Admits nodes step system := by
  cases step with
  | source event =>
    cases event with
    | request env request => exact ⟨hstep.1, fun hown => absurd hown hstep.2⟩
    | _ => exact trivial
  | changeRole link role => exact hstep.elim
  | serve index env =>
    refine fun seqNo hpending => ⟨fun place hplace => ?_, hpaired.counted⟩
    rw [hpaired.whole] at hplace
    cases hplace
  | _ => exact trivial

/-- The system follows, the parts fit together, and the follower is one of the nodes. -/
structure Keeps (cityHash64 : List Char → η) (nodes : Set Int) (system : Replication η) : Prop where
  follows : system.Follows cityHash64
  paired : Paired system
  node : system.follower.nodeHash ∈ nodes

variable (hinjective : Function.Injective cityHash64) (hnodes : Unambiguous nodes)
include hinjective hnodes

theorem Keeps.finalState (hkeeps : Keeps cityHash64 nodes system) {steps : List Step}
    (hsteps : Simulation.Guarded (next cityHash64) (InLoop nodes) steps system) :
    Keeps cityHash64 nodes (finalState (next cityHash64) steps system) := by
  refine Simulation.invariant_finalState (fun step system hkeeps hstep => ?_) hkeeps hsteps
  refine ⟨hkeeps.follows.next hinjective hnodes hkeeps.node (hkeeps.paired.admits hstep),
    hkeeps.paired.next hstep, ?_⟩
  rw [next_nodeHash]
  exact hkeeps.node

omit hinjective hnodes

theorem finalState_applyAll (source : ReplicationSource η)
    (follower : ReplicationFollower) (hrole : follower.role = .FOLLOWER) {length : Nat}
    {updates : List Update} (hlength : updates.length ≤ length) :
    finalState (next cityHash64) (replicate (length + 1) (.apply 0 ⟨true, true⟩ true false))
        ⟨source, { follower with pending := [.applying updates] }⟩ =
      ⟨source, { follower with
        applied := follower.applied ++ updates.map Update.rawData
        pending := [.pull (total count
          (follower.applied ++ updates.map Update.rawData))] }⟩ := by
  induction updates generalizing follower length with
  | nil =>
    have hfirst : next cityHash64 (.apply 0 ⟨true, true⟩ true false)
        ⟨source, { follower with pending := [.applying []] }⟩ =
        ⟨source, { follower with pending := [.pull follower.getLatestSequenceNumber] }⟩ := by
      simp [next, applyNext, settle,
        ReplicationFollower.pullFromUpstream, getLatestSequenceNumber, hrole]
    rw [replicate_succ, finalState, hfirst, map_nil, append_nil]
    clear hlength
    induction length with
    | zero => rfl
    | succ length ih => exact ih
  | cons update rest ih =>
    obtain ⟨length, rfl⟩ := Nat.exists_eq_add_of_le' (Nat.one_le_of_lt hlength)
    have hrest := ih { follower with applied := follower.applied ++ [update.rawData] } hrole
      (Nat.le_of_succ_le_succ hlength)
    rw [append_assoc] at hrest
    exact hrest

variable {response : ReplicateResponse} {env : ServeEnv}

theorem getUpdates_cached {request : ReplicateRequest} (hseqNo : 0 ≤ request.seqNo)
    (hcounted : source.log.Counted request.maxSize)
    (hversion : request.version = source.version) (hleader : source.role = .LEADER)
    (hresponse : (getUpdates cityHash64 env request source).1 = .ok response) :
    response.version = source.version ∧
      ((getUpdates cityHash64 env request source).2.cachedIters (getIterHash cityHash64
        (asSequence (request.seqNo + 1) + total count (response.updates.map Update.rawData))
        request.nodeHash)).isSome := by
  obtain ⟨taken, htaken⟩ := getCachedIter_source cityHash64 env
    (asSequence (request.seqNo + 1)) request.nodeHash source
  have hfollower : ¬source.role = .FOLLOWER := by simp [hleader]
  simp only [getUpdates, hversion, ne_eq, not_true_eq_false, if_false, hfollower, htaken]
    at hresponse ⊢
  generalize openIter env (asSequence (request.seqNo + 1)) source.log _ = opened
    at hresponse ⊢
  obtain ⟨status, iter⟩ := opened
  have hput (source : ReplicationSource η) (seqNo : Nat) (found : Option TransactionLogIterator) :
      ((putCachedIter cityHash64 env seqNo request.nodeHash found
        source).cachedIters (getIterHash cityHash64 seqNo request.nodeHash)).isSome := by
    unfold putCachedIter
    dsimp only
    split
    · rename_i hsome
      rw [hsome]
      rfl
    · simp
  cases status with
  | fault fault => cases hresponse
  | _ =>
    simp only [ReplicationSource.answer] at hresponse ⊢
    split at hresponse
    · cases hresponse
    · rename_i hsent
      cases hresponse
      rw [if_neg hsent, map_rawData_of, ← asSequence_add (by omega),
        toNat_batchNumbers_readUpdates env.kept hcounted]
      exact ⟨rfl, hput _ _ _⟩

theorem finalState_wholePull (hpaired : Paired system) {seqNo length : Nat}
    (hpending : system.follower.pending = [.pull seqNo])
    (hresponse : (pulled cityHash64 env seqNo system).1 = .ok response)
    (hlength : response.updates.length ≤ length) :
    finalState (next cityHash64) (wholePull length env) system =
      ⟨(pulled cityHash64 env seqNo system).2, { system.follower with
          applied := system.follower.applied ++ response.updates.map Update.rawData
          pending := [.pull (total count
            (system.follower.applied ++ response.updates.map Update.rawData))] }⟩ := by
  have hversion := (getUpdates_cached (Int.natCast_nonneg _) hpaired.counted hpaired.version
    hpaired.leader hresponse).1
  rw [← hpaired.version] at hversion
  have hserve : next cityHash64 (.serve 0 env) system = ⟨(pulled cityHash64 env seqNo system).2,
        { system.follower with pending := [.reply (.ok response)] }⟩ := by
    unfold pulled at hresponse ⊢
    simp only [next, hpending, getElem?_cons_zero, hresponse, settle]
    rfl
  have hreceive (source : ReplicationSource η) : next cityHash64 (.receive 0)
      ⟨source, { system.follower with pending := [.reply (.ok response)] }⟩ =
        ⟨source, { system.follower with pending := [.applying response.updates] }⟩ := by
    simp [next, settle, applyUpdates, hpaired.unforced, hversion]
  rw [wholePull, finalState, finalState, hserve, hreceive]
  exact finalState_applyAll _ _ hpaired.role hlength

theorem inLoop_wholePull (length : Nat) (env : ServeEnv) (system : Replication η) :
    Simulation.Guarded (next cityHash64) (InLoop nodes) (wholePull length env) system := by
  refine ⟨trivial, trivial, ?_⟩
  generalize length + 1 = count
  generalize next cityHash64 (.receive 0) _ = system
  induction count generalizing system with
  | zero => exact trivial
  | succ count ih => exact ⟨trivial, ih _⟩

variable {seqNo : Nat}

theorem answers_of_paired (hfollows : system.Follows cityHash64) (hpaired : Paired system)
    (hpending : system.follower.pending = [.pull seqNo]) (hfault : env.fault = none) :
    ∃ response, (pulled cityHash64 env seqNo system).1 = .ok response ∧
      response.updates.length ≤ system.source.log.batches.length ∧
      (seqNo < system.source.log.getLatestSequenceNumber → response.updates ≠ []) := by
  have hseqNo : seqNo = system.follower.getLatestSequenceNumber :=
    hfollows.continues (.pull seqNo) (by simp [hpending])
  have haligned : system.source.log.Aligned seqNo := by
    rw [hseqNo]
    exact aligned_of_prefix hfollows.prefix_applied
  have hkept (place : Nat) : ¬place < system.source.log.removed := by
    rw [hpaired.whole]
    exact not_lt_zero place
  have hfits : system.source.Fits (system.follower.getPullRequest seqNo) :=
    ⟨⟨haligned, fun place hplace => absurd hplace (hkept place), hpaired.counted⟩,
      hpaired.maxSize_pos⟩
  have hanswers : ReplicationSource.Answers _ _ (pulled cityHash64 env seqNo system).1 :=
    getUpdates_own hfollows.placed hfits hfault hpaired.version hpaired.leader
  cases hreply : (pulled cityHash64 env seqNo system).1 with
  | error status =>
    rw [hreply] at hanswers
    obtain ⟨-, place, hplace, -⟩ := hanswers
    exact absurd hplace (hkept place)
  | ok response =>
    rw [hreply] at hanswers
    refine ⟨response, rfl, ?_⟩
    obtain ⟨place, -, -, hne, hupdates⟩ | ⟨hnil, hbehind⟩ := hanswers
    · have hlength := hupdates.length_le
      rw [length_map, length_drop] at hlength
      exact ⟨hlength.trans (sub_le _ _), fun _ => hne⟩
    · rw [hnil]
      exact ⟨zero_le _, fun hlt => absurd hlt (not_lt.mpr (Int.ofNat_le.mp hbehind))⟩

omit [DecidableEq η] in
private theorem Follows.behind (hfollows : system.Follows cityHash64)
    (hpending : system.follower.pending = [.pull seqNo])
    (hlt : system.follower.applied.length < system.source.log.batches.length) :
    seqNo < system.source.log.getLatestSequenceNumber := by
  have hseqNo : seqNo = system.follower.getLatestSequenceNumber :=
    hfollows.continues (.pull seqNo) (by simp [hpending])
  have hstart := SequencedLog.startOf_lt WriteBatch.count_pos hlt le_rfl
  rw [SequencedLog.startOf_of_prefix hfollows.prefix_applied, SequencedLog.startOf_length] at hstart
  exact hseqNo ▸ lt_of_succ_lt_succ hstart

theorem applied_of_pulls (hinjective : Function.Injective cityHash64) (hnodes : Unambiguous nodes)
    (hkeeps : Keeps cityHash64 nodes system) (hpending : system.follower.pending = [.pull seqNo]) {envs : List ServeEnv}
    (hfault : ∀ env ∈ envs, env.fault = none) {batches : List WriteBatch}
    (hbatches : system.source.log.batches = batches)
    (hlength : batches.length ≤ system.follower.applied.length + envs.length) :
    (finalState (next cityHash64) (envs.flatMap (wholePull batches.length))
      system).follower.applied = batches := by
  induction envs generalizing system seqNo with
  | nil =>
    subst hbatches
    exact hkeeps.follows.prefix_applied.eq_of_length_le hlength
  | cons env rest ih =>
    obtain ⟨response, hresponse, hfits, hsent⟩ :=
      answers_of_paired hkeeps.follows hkeeps.paired hpending (hfault env mem_cons_self)
    rw [hbatches] at hfits
    have hafter := hkeeps.finalState hinjective hnodes (inLoop_wholePull batches.length env system)
    rw [finalState_wholePull hkeeps.paired hpending hresponse hfits] at hafter
    rw [flatMap_cons, Simulation.finalState_append,
      finalState_wholePull hkeeps.paired hpending hresponse hfits]
    refine ih hafter rfl (fun other hmem => hfault other (mem_cons_of_mem _ hmem)) ?_ ?_
    · exact (congrArg _ (getUpdates_log _ _ _ _)).trans hbatches
    · rw [length_append, length_map]
      rw [length_cons] at hlength
      rcases lt_or_ge system.follower.applied.length batches.length with hlt | hge
      · have hpos := length_pos_iff.mpr (hsent (hkeeps.follows.behind hpending (hbatches ▸ hlt)))
        omega
      · omega

end

end LaserDB.Replication
