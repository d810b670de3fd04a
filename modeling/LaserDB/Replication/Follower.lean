import LaserDB.Replication.IterCache

/-!
# Following a leader

Requests, replies, batches and retries are pending items; each belongs to one pull loop, and nothing
tells the loops apart.
-/

namespace LaserDB

open List Nat ReplicationSource
open ReplicationSource (batchOf calm getUpdates getUpdates_log next_log)
open Simulation (finalState)
open SequencedLog (total startOf)

inductive ReplyError where
  | laserException (status : Status)
  | exception
  deriving DecidableEq, Repr

inductive Pending where
  | pull (seqNo : Nat)
  | reply (reply : Except ReplyError ReplicateResponse)
  | applying (updates : List Update)
  | retry

/-- What a follower meets outside when it pulls: whether its database is open and
whether the request can be sent. -/
structure Link where
  opened : Bool
  sent : Bool

/-- The side of `ReplicationDB` that follows a leader. -/
structure ReplicationFollower where
  version : Bytes
  nodeHash : Int
  maxSize : Nat
  role : DBRole
  applied : List WriteBatch
  pending : List Pending
  forceBaseDataReplication : Bool

namespace ReplicationFollower

def getLatestSequenceNumber (follower : ReplicationFollower) : Nat :=
  total WriteBatch.count follower.applied

def getPullRequest (follower : ReplicationFollower) (seqNo : Nat) : ReplicateRequest :=
  ⟨seqNo, follower.nodeHash, follower.maxSize, follower.version⟩

def pullFromUpstream (link : Link) (follower : ReplicationFollower) : List Pending :=
  if follower.role = .LEADER then []
  else if !link.opened then [.retry]
  else if link.sent then [.pull follower.getLatestSequenceNumber]
  else [.retry]

def applyUpdates (reply : Except ReplyError ReplicateResponse) (follower : ReplicationFollower) :
    List Pending :=
  if follower.forceBaseDataReplication then []
  else
    match reply with
    | .error (.laserException .RP_SOURCE_WAL_LOG_REMOVED) => []
    | .error _ => [.retry]
    | .ok response => if response.version ≠ follower.version then [] else [.applying response.updates]

/-- One round of the loop of `applyUpdates`, or what follows it: a batch that cannot be
written ends it with a delayed retry, and a follower too far behind stops pulling. -/
def applyNext (link : Link) (written reachMaxSeqNoDiffLimit : Bool) (updates : List Update)
    (follower : ReplicationFollower) : List WriteBatch × List Pending :=
  match updates with
  | [] =>
    (follower.applied, if reachMaxSeqNoDiffLimit then [] else follower.pullFromUpstream link)
  | update :: rest =>
    if written then (follower.applied ++ [update.rawData], [.applying rest])
    else (follower.applied, if reachMaxSeqNoDiffLimit then [] else [.retry])

def changeRole (link : Link) (role : DBRole) (follower : ReplicationFollower) :
    ReplicationFollower :=
  if follower.role = role then follower
  else
    let follower := { follower with role := role }
    { follower with pending := follower.pending ++ follower.pullFromUpstream link }

def startReplicator (link : Link) (role : DBRole) (follower : ReplicationFollower) :
    ReplicationFollower :=
  let follower := { follower with role := role }
  { follower with pending := follower.pullFromUpstream link }

def settle (follower : ReplicationFollower) (index : Nat) (items : List Pending) :
    ReplicationFollower :=
  { follower with pending := follower.pending.eraseIdx index ++ items }

end ReplicationFollower

structure Replication (η : Type) where
  source : ReplicationSource η
  follower : ReplicationFollower

namespace Replication

inductive Step where
  | source (event : ReplicationSource.Event)
  | serve (index : Nat) (env : ServeEnv)
  | fail (index : Nat) (error : ReplyError)
  | receive (index : Nat)
  | apply (index : Nat) (link : Link) (written reachMaxSeqNoDiffLimit : Bool)
  | fire (index : Nat) (link : Link)
  | changeRole (link : Link) (role : DBRole)
  | forceBaseDataReplication

variable {η : Type}

section
variable [DecidableEq η] (cityHash64 : List Char → η)

def next : Step → Replication η → Replication η
  | .source event, system => { system with source := system.source.next cityHash64 event }
  | .serve index env, system =>
    match system.follower.pending[index]? with
    | some (.pull seqNo) =>
      let (reply, source) := getUpdates cityHash64 env
        (system.follower.getPullRequest seqNo) system.source
      ⟨source, system.follower.settle index [.reply (reply.mapError .laserException)]⟩
    | _ => system
  | .fail index error, system =>
    match system.follower.pending[index]? with
    | some (.pull _) => { system with
        follower := system.follower.settle index [.reply (.error error)] }
    | _ => system
  | .receive index, system =>
    match system.follower.pending[index]? with
    | some (.reply reply) => { system with
        follower := system.follower.settle index (system.follower.applyUpdates reply) }
    | _ => system
  | .apply index link written reachMaxSeqNoDiffLimit, system =>
    match system.follower.pending[index]? with
    | some (.applying updates) =>
      let (applied, items) := system.follower.applyNext link written reachMaxSeqNoDiffLimit updates
      { system with follower := { system.follower.settle index items with applied := applied } }
    | _ => system
  | .fire index link, system =>
    match system.follower.pending[index]? with
    | some .retry => { system with
        follower := system.follower.settle index (system.follower.pullFromUpstream link) }
    | _ => system
  | .changeRole link role, system =>
    { system with follower := system.follower.changeRole link role }
  | .forceBaseDataReplication, system =>
    { system with follower := { system.follower with forceBaseDataReplication := true } }

end

variable {system : Replication η}

section
variable (cityHash64 : List Char → η)

def Continues (system : Replication η) : Pending → Prop
  | .pull seqNo => seqNo = system.follower.getLatestSequenceNumber
  | .reply (.ok response) =>
    response.updates.map Update.rawData <+:
      system.source.log.batches.drop system.follower.applied.length
  | .reply (.error _) => True
  | .applying updates =>
    updates.map Update.rawData <+:
      system.source.log.batches.drop system.follower.applied.length
  | .retry => True

/-- One loop at most, which carries on where the follower is, and a follower that
is a prefix of its leader. -/
structure Follows (system : Replication η) : Prop where
  placed : system.source.Placed cityHash64 system.follower.nodeHash
  prefix_applied : system.follower.applied <+: system.source.log.batches
  one_loop : system.follower.pending.length ≤ 1
  continues : ∀ item ∈ system.follower.pending, system.Continues item

/-- The follower is made a follower again only when nothing of an earlier loop is
pending, and its leader serves it from a log that still has what it needs, in responses
whose records can be counted. -/
def Admits (nodes : Set Int) : Step → Replication η → Prop
  | .source event, system => system.source.AdmitsOf system.follower.nodeHash nodes event
  | .serve index _, system =>
    ∀ seqNo, system.follower.pending[index]? = some (.pull seqNo) →
      system.source.log.Kept seqNo ∧ system.source.log.Counted system.follower.maxSize
  | .changeRole _ .FOLLOWER, system =>
    system.follower.role = .LEADER → system.follower.pending = []
  | _, _ => True

variable {cityHash64}

variable {item : Pending}

theorem Continues.of_eq (hcontinues : system.Continues item) {other : Replication η}
    (hsource : other.source = system.source)
    (happlied : other.follower.applied = system.follower.applied) : other.Continues item := by
  cases item with
  | retry => exact trivial
  | pull seqNo =>
    simp only [Continues, ReplicationFollower.getLatestSequenceNumber, happlied]
    exact hcontinues
  | applying updates =>
    simp only [Continues, hsource, happlied]
    exact hcontinues
  | reply reply =>
    cases reply with
    | error error => exact trivial
    | ok response =>
      simp only [Continues, hsource, happlied]
      exact hcontinues

variable {index : Nat}

variable {items : List Pending}

theorem eraseIdx_eq_nil (hlength : items.length ≤ 1) (hitem : items[index]? = some item) :
    items.eraseIdx index = [] := by
  obtain ⟨hindex, -⟩ := List.getElem?_eq_some_iff.mp hitem
  rw [← length_eq_zero_iff, length_eraseIdx_of_lt hindex]
  omega

private theorem Follows.settle (hfollows : system.Follows cityHash64)
    (hitem : system.follower.pending[index]? = some item) (hlength : items.length ≤ 1)
    (hitems : ∀ item ∈ items, system.Continues item) :
    Follows cityHash64 { system with follower := system.follower.settle index items } := by
  have hpending : (system.follower.settle index items).pending = items := by
    unfold ReplicationFollower.settle
    rw [eraseIdx_eq_nil hfollows.one_loop hitem, nil_append]
  refine ⟨hfollows.placed, hfollows.prefix_applied, ?_, ?_⟩
  · rw [hpending]
    exact hlength
  · intro other hother
    rw [hpending] at hother
    exact (hitems other hother).of_eq rfl rfl

theorem continues_pullFromUpstream (system : Replication η) (link : Link) :
    ∀ item ∈ system.follower.pullFromUpstream link, system.Continues item := by
  intro item hitem
  unfold ReplicationFollower.pullFromUpstream at hitem
  split at hitem
  · cases hitem
  · split at hitem
    · cases mem_singleton.mp hitem
      exact trivial
    · split at hitem
      · cases mem_singleton.mp hitem
        exact rfl
      · cases mem_singleton.mp hitem
        exact trivial

theorem length_pullFromUpstream (link : Link) (follower : ReplicationFollower) :
    (follower.pullFromUpstream link).length ≤ 1 := by
  unfold ReplicationFollower.pullFromUpstream
  split
  · exact zero_le 1
  · split
    · exact le_refl 1
    · split <;> exact le_refl 1

variable {source : ReplicationSource η}

section
variable (hfollows : system.Follows cityHash64)
include hfollows

variable (hitem : system.follower.pending[index]? = some item)
include hitem

theorem Follows.stop :
    Follows cityHash64 { system with follower := system.follower.settle index [] } :=
  hfollows.settle hitem (zero_le 1) fun _ hmem => absurd hmem not_mem_nil

private theorem Follows.single {new : Pending} (hnew : system.Continues new) :
    Follows cityHash64 { system with follower := system.follower.settle index [new] } := by
  refine hfollows.settle hitem (le_refl 1) ?_
  intro other hmem
  cases mem_singleton.mp hmem
  exact hnew

private theorem Follows.pull (link : Link) :
    Follows cityHash64 { system with
      follower := system.follower.settle index (system.follower.pullFromUpstream link) } :=
  hfollows.settle hitem (length_pullFromUpstream link system.follower)
    (continues_pullFromUpstream system link)

omit hitem

theorem Follows.of_source (hplaced : source.Placed cityHash64 system.follower.nodeHash)
    (hlog : system.source.log.batches <+: source.log.batches) :
    Follows cityHash64 { system with source := source } := by
  have hdrop := hlog.drop system.follower.applied.length
  refine ⟨hplaced, hfollows.prefix_applied.trans hlog, hfollows.one_loop, ?_⟩
  · intro item hitem
    have hcontinues := hfollows.continues item hitem
    cases item with
    | pull seqNo => exact hcontinues
    | retry => exact trivial
    | applying updates => exact hcontinues.trans hdrop
    | reply reply =>
      cases reply with
      | error error => exact trivial
      | ok response => exact hcontinues.trans hdrop

end

theorem aligned_of_prefix {log : WriteAheadLog} {applied : List WriteBatch}
    (hbegins : applied <+: log.batches) : log.Aligned (total WriteBatch.count applied) := by
  rcases lt_or_ge applied.length log.batches.length with hlt | hge
  · exact .inr ⟨applied.length, hlt, congrArg Nat.cast (SequencedLog.startOf_of_prefix hbegins)⟩
  · refine .inl ?_
    unfold WriteAheadLog.getLatestSequenceNumber
    rw [hbegins.eq_of_length_le hge]

theorem follows_startReplicator (hempty : ∀ hashKey, source.cachedIters hashKey = none)
    {follower : ReplicationFollower} (hstart : follower.applied <+: source.log.batches)
    (link : Link) (role : DBRole) :
    Follows cityHash64 ⟨source, follower.startReplicator link role⟩ := by
  refine ⟨?_, hstart, length_pullFromUpstream link _, ?_⟩
  · intro seqNo cached iter hcached
    rw [hempty] at hcached
    cases hcached
  · intro item hmem
    exact (continues_pullFromUpstream ⟨source, { follower with role := role }⟩ link item
      hmem).of_eq rfl rfl

end

section
variable [DecidableEq η] {cityHash64 : List Char → η} {nodes : Set Int}

theorem Follows.serve (hfollows : system.Follows cityHash64)
    (hinjective : Function.Injective cityHash64) (hnodes : ReplicationSource.Unambiguous nodes)
    (hnode : system.follower.nodeHash ∈ nodes) (index : Nat) (env : ServeEnv)
    (hadmits : Admits nodes (.serve index env) system) :
    Follows cityHash64 (next cityHash64 (.serve index env) system) := by
  simp only [next]
  split
  · rename_i seqNo hitem
    obtain ⟨hkept, hcounted⟩ := hadmits seqNo hitem
    have hseqNo : seqNo = system.follower.getLatestSequenceNumber :=
      hfollows.continues _ (mem_of_getElem? hitem)
    have hsited : system.source.Sited (system.follower.getPullRequest seqNo) := by
      refine ⟨?_, hkept, hcounted⟩
      rw [hseqNo]
      exact aligned_of_prefix hfollows.prefix_applied
    have hsource : Follows cityHash64 { system with source := (getUpdates
        cityHash64 env (system.follower.getPullRequest seqNo) system.source).2 } := by
      refine hfollows.of_source ?_ ?_
      · exact hfollows.placed.getUpdates hinjective hnodes hnode hnode fun _ => hsited
      · rw [getUpdates_log]
    refine hsource.single hitem ?_
    cases hreply : (getUpdates cityHash64 env
        (system.follower.getPullRequest seqNo) system.source).1 with
    | error status => exact trivial
    | ok response =>
      show response.updates.map Update.rawData <+: _
      dsimp only
      rw [getUpdates_log]
      have hplaced : system.source.Placed cityHash64
          (system.follower.getPullRequest seqNo).nodeHash := hfollows.placed
      rcases getUpdates_updates hplaced hsited hreply with
        hnil | ⟨place, hplace, hsequence, hupdates⟩
      · rw [hnil]
        exact nil_prefix
      · have hstart : system.source.log.sequence system.follower.applied.length = seqNo + 1 := by
          rw [hseqNo]
          exact SequencedLog.startOf_of_prefix hfollows.prefix_applied
        have heq : place = system.follower.applied.length :=
          SequencedLog.startOf_inj WriteBatch.count_pos hplace
            hfollows.prefix_applied.length_le
            ((Int.ofNat_inj.mp hsequence).trans hstart.symm)
        rw [← heq]
        exact hupdates
  · exact hfollows

theorem prefix_append_of_cons {applied batches updates : List WriteBatch}
    {batch : WriteBatch} (hbegins : applied <+: batches)
    (hupdates : batch :: updates <+: batches.drop applied.length) :
    applied ++ [batch] <+: batches ∧ updates <+: batches.drop (applied ++ [batch]).length := by
  obtain ⟨rest, rfl⟩ := hbegins
  rw [drop_left] at hupdates
  obtain ⟨more, rfl⟩ := hupdates
  have hsplit : applied ++ (batch :: updates ++ more) = (applied ++ [batch]) ++ (updates ++ more) := by
    simp only [append_assoc, cons_append, nil_append]
  rw [hsplit, drop_left]
  exact ⟨prefix_append _ _, prefix_append _ _⟩

section
variable (hfollows : system.Follows cityHash64)
include hfollows

private theorem Follows.apply (index : Nat) (link : Link) (written reachMaxSeqNoDiffLimit : Bool) :
    Follows cityHash64 (next cityHash64 (.apply index link written reachMaxSeqNoDiffLimit) system) := by
  simp only [next]
  split
  · rename_i updates hitem
    have hupdates := hfollows.continues _ (mem_of_getElem? hitem)
    cases updates with
    | nil =>
      cases reachMaxSeqNoDiffLimit with
      | true => exact hfollows.stop hitem
      | false => exact hfollows.pull hitem link
    | cons update rest =>
      cases written with
      | false =>
        cases reachMaxSeqNoDiffLimit with
        | true => exact hfollows.stop hitem
        | false => exact hfollows.single hitem trivial
      | true =>
        obtain ⟨happlied, hrest⟩ := prefix_append_of_cons hfollows.prefix_applied hupdates
        have hpending : (system.follower.settle index [.applying rest]).pending =
            [.applying rest] := by
          unfold ReplicationFollower.settle
          rw [eraseIdx_eq_nil hfollows.one_loop hitem, nil_append]
        refine ⟨hfollows.placed, happlied, hpending ▸ le_refl 1, ?_⟩
        intro item hmem
        have hmem' : item ∈ [Pending.applying rest] := hpending ▸ hmem
        cases mem_singleton.mp hmem'
        exact hrest
  · exact hfollows

theorem Follows.receive (index : Nat) :
    Follows cityHash64 (next cityHash64 (.receive index) system) := by
  simp only [next]
  split
  · rename_i reply hitem
    have hreply := hfollows.continues _ (mem_of_getElem? hitem)
    unfold ReplicationFollower.applyUpdates
    split
    · exact hfollows.stop hitem
    · split
      · exact hfollows.stop hitem
      · exact hfollows.single hitem trivial
      · split
        · exact hfollows.stop hitem
        · exact hfollows.single hitem hreply
  · exact hfollows

private theorem Follows.changeRole (link : Link) (role : DBRole)
    (hadmits : Admits nodes (.changeRole link role) system) :
    Follows cityHash64 (next cityHash64 (.changeRole link role) system) := by
  simp only [next, ReplicationFollower.changeRole]
  split
  · exact hfollows
  · rename_i hrole
    cases role with
    | LEADER =>
      have hnone : { system.follower with role := .LEADER }.pullFromUpstream link = [] := rfl
      rw [hnone, append_nil]
      exact ⟨hfollows.placed, hfollows.prefix_applied, hfollows.one_loop,
        fun item hmem => (hfollows.continues item hmem).of_eq rfl rfl⟩
    | FOLLOWER =>
      have hpending : system.follower.pending = [] := by
        refine hadmits ?_
        cases hold : system.follower.role with
        | LEADER => rfl
        | FOLLOWER => exact absurd hold hrole
      rw [hpending, nil_append]
      have hlength := length_pullFromUpstream link
        { system.follower with role := .FOLLOWER, pending := [] }
      have hcontinues := continues_pullFromUpstream
        ⟨system.source, { system.follower with role := .FOLLOWER, pending := [] }⟩ link
      exact ⟨hfollows.placed, hfollows.prefix_applied, hlength,
        fun item hmem => (hcontinues item hmem).of_eq rfl rfl⟩

theorem Follows.next (hinjective : Function.Injective cityHash64)
    (hnodes : ReplicationSource.Unambiguous nodes) (hnode : system.follower.nodeHash ∈ nodes)
    {step : Step} (hadmits : Admits nodes step system) :
    Follows cityHash64 (next cityHash64 step system) := by
  cases step with
  | source event =>
    exact hfollows.of_source (hfollows.placed.next hinjective hnodes hnode hadmits)
      (next_log cityHash64 event system.source)
  | serve index env => exact hfollows.serve hinjective hnodes hnode index env hadmits
  | fail index error =>
    simp only [Replication.next]
    split
    · rename_i hitem
      exact hfollows.single hitem trivial
    · exact hfollows
  | receive index => exact hfollows.receive index
  | apply index link written reachMax => exact hfollows.apply index link written reachMax
  | fire index link =>
    simp only [Replication.next]
    split
    · rename_i hitem
      exact hfollows.pull hitem link
    · exact hfollows
  | changeRole link role => exact hfollows.changeRole link role hadmits
  | forceBaseDataReplication =>
    exact ⟨hfollows.placed, hfollows.prefix_applied, hfollows.one_loop,
      fun item hmem => (hfollows.continues item hmem).of_eq rfl rfl⟩

end

theorem next_nodeHash (step : Step) (system : Replication η) :
    (Replication.next cityHash64 step system).follower.nodeHash = system.follower.nodeHash := by
  cases step with
  | source | forceBaseDataReplication => rfl
  | changeRole link role =>
    simp only [Replication.next, ReplicationFollower.changeRole]
    split <;> rfl
  | _ =>
    simp only [Replication.next]
    split <;> rfl

end

def oneBatch : WriteBatch := ReplicationSource.batchOf 1 Nat.one_pos

def oneBatchSource : ReplicationSource (List Char) :=
  ⟨[], .LEADER, ⟨[oneBatch], 0, by decide⟩, fun _ => none⟩

def emptyFollower : ReplicationFollower := ⟨[], 7, 100, .LEADER, [], [], false⟩

def upLink : Link := ⟨true, true⟩

def oneBatchBehind : Replication (List Char) :=
  ⟨oneBatchSource, emptyFollower.startReplicator upLink .FOLLOWER⟩

def oneAfterAnother : List Step :=
  [.serve 0 calm, .receive 0, .changeRole upLink .LEADER,
    .apply 0 upLink true false, .apply 0 upLink true false, .changeRole upLink .FOLLOWER,
    .serve 0 calm]

/-- The follower leads for a moment while its pull is on the way, and is sent the reply
to each of its two pulls. -/
def overlapping : List Step :=
  [.changeRole upLink .LEADER, .changeRole upLink .FOLLOWER,
    .serve 0 calm, .serve 0 calm, .receive 0, .receive 0,
    .apply 0 upLink true false, .apply 0 upLink true false]

end Replication

end LaserDB
