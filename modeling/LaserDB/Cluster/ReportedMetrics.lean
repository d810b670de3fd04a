import LaserDB.Engine.ReplicationDb
import LaserDB.Library.MapContents

/-!
# What the control plane makes of reported metrics

`processShards` marks the followers that are in step with their leader, a reduce request disables
shards, and `syncShardMetrics` merges what the nodes report into a cache.
-/

namespace LaserDB.ShardMetrics

structure ShardStatus where
  shardId : UInt32
  role : DBRole
  seqNo : UInt64
  baseVersionHash : UInt64
  noDiff : Bool
  hasLeader : Bool
  deriving DecidableEq

/-- The flag of a follower whose shard has a leader.  The difference is one of unsigned numbers,
and so is the successor. -/
def noDiffOf (status leader : ShardStatus) : Bool :=
  if status.baseVersionHash ≠ leader.baseVersionHash then true
  else
    let diffValue := (status.seqNo - leader.seqNo).toNat
    100 * diffValue ≤ 3 * (status.seqNo + 1).toNat || diffValue < 1000

def leaderOf (shards : List ShardStatus) (shardId : UInt32) : Option ShardStatus :=
  (shards.filter fun other => other.role = .LEADER ∧ other.shardId = shardId).getLast?

def mark (shards : List ShardStatus) (status : ShardStatus) : ShardStatus :=
  match status.role with
  | .LEADER => status
  | .FOLLOWER =>
    match leaderOf shards status.shardId with
    | none => { status with hasLeader := false }
    | some leader => { status with noDiff := noDiffOf status leader, hasLeader := true }

/-- The maps of `processShards` are keyed by the hash of a shard on a node, which is its own. -/
def processShards (shards : List ShardStatus) : List ShardStatus := shards.map (mark shards)

def distance (status leader : ShardStatus) : Nat :=
  Nat.dist status.seqNo.toNat leader.seqNo.toNat

def InSync (status leader : ShardStatus) : Prop :=
  status.baseVersionHash = leader.baseVersionHash ∧
    (distance status leader < 1000 ∨ 100 * distance status leader ≤ 3 * (status.seqNo.toNat + 1))

/-- The numbers for which the unsigned computation is right. -/
def NumbersSuit (status leader : ShardStatus) : Prop :=
  if leader.seqNo ≤ status.seqNo then
    status.seqNo.toNat + 1 < 2 ^ 64 ∨ distance status leader < 1000 ∨
      3 * 2 ^ 64 < 100 * distance status leader
  else
    1000 ≤ distance status leader ∧ distance status leader ≤ 2 ^ 64 - 1000 ∧
      3 * (status.seqNo.toNat + 1) < 100 * distance status leader

theorem noDiffOf_iff (status leader : ShardStatus) :
    (noDiffOf status leader = true ↔ InSync status leader) ↔
      status.baseVersionHash = leader.baseVersionHash ∧ NumbersSuit status leader := by
  unfold noDiffOf InSync
  by_cases hversion : status.baseVersionHash = leader.baseVersionHash
  · have hstatus := status.seqNo.toNat_lt
    have hleader := leader.seqNo.toNat_lt
    have hdiff : (status.seqNo - leader.seqNo).toNat =
        if leader.seqNo.toNat ≤ status.seqNo.toNat then status.seqNo.toNat - leader.seqNo.toNat
        else 2 ^ 64 + status.seqNo.toNat - leader.seqNo.toNat := by
      rw [UInt64.toNat_sub]
      split <;> omega
    have hnext : (status.seqNo + 1).toNat =
        if status.seqNo.toNat + 1 < 2 ^ 64 then status.seqNo.toNat + 1 else 0 := by
      rw [UInt64.toNat_add]
      split <;> simp only [UInt64.reduceToNat] <;> omega
    simp only [NumbersSuit, distance, Nat.dist, hversion, ne_eq, not_true, if_false, true_and,
      Bool.or_eq_true, decide_eq_true_eq, UInt64.le_iff_toNat_le]
    rw [hdiff, hnext]
    split_ifs <;> omega
  · simp [hversion]

section
variable {shards : List ShardStatus} (hone : ∀ first ∈ shards, ∀ second ∈ shards,
  first.role = .LEADER → second.role = .LEADER → first.shardId = second.shardId → first = second)
include hone

theorem leaderOf_eq {leader : ShardStatus} (hmem : leader ∈ shards)
    (hrole : leader.role = .LEADER) : leaderOf shards leader.shardId = some leader := by
  have hfound : leader ∈ shards.filter fun other =>
      other.role = .LEADER ∧ other.shardId = leader.shardId := by
    simp [hmem, hrole]
  obtain ⟨last, hlast⟩ : ∃ last, leaderOf shards leader.shardId = some last :=
    Option.isSome_iff_exists.mp (List.getLast?_isSome.mpr (List.ne_nil_of_mem hfound))
  obtain ⟨hlastMem, hlastRole, hid⟩ : last ∈ shards ∧ last.role = .LEADER ∧
      last.shardId = leader.shardId := by
    simpa using List.mem_of_getLast? hlast
  rw [hlast, hone last hlastMem leader hmem hlastRole hrole hid]

/-- A follower is marked rightly just if its base version is the leader's and the numbers suit;
without a leader it is always marked as having none. -/
theorem marks_iff {status : ShardStatus} (hmem : status ∈ shards)
    (hrole : status.role = .FOLLOWER) :
    mark shards status ∈ processShards shards ∧
    (∀ leader ∈ shards, leader.role = .LEADER → leader.shardId = status.shardId →
      (((mark shards status).noDiff = true ↔ InSync status leader) ∧
          (mark shards status).hasLeader = true ↔
        status.baseVersionHash = leader.baseVersionHash ∧ NumbersSuit status leader)) ∧
    ((∀ leader ∈ shards, leader.role = .LEADER → leader.shardId ≠ status.shardId) →
      (mark shards status).hasLeader = false) := by
  refine ⟨List.mem_map_of_mem hmem, fun leader hleader hlead hid => ?_, fun hnone => ?_⟩
  · have hfound := leaderOf_eq hone hleader hlead
    rw [hid] at hfound
    simp only [mark, hrole, hfound, and_true]
    exact noDiffOf_iff status leader
  · have hempty : leaderOf shards status.shardId = none := by
      simpa [leaderOf, List.filter_eq_nil_iff] using hnone
    simp only [mark, hrole, hempty]

end

def reported (role : DBRole) (seqNo baseVersionHash : UInt64) : ShardStatus :=
  ⟨0, role, seqNo, baseVersionHash, false, false⟩

theorem marks_ahead :
    let shards := [reported .LEADER 5 7, reported .FOLLOWER 6 7, reported .FOLLOWER 5000 7]
    ((mark shards (reported .FOLLOWER 6 7)).noDiff = true ∧
        (mark shards (reported .FOLLOWER 6 7)).hasLeader = true) ∧
      ¬(mark shards (reported .FOLLOWER 5000 7)).noDiff = true ∧
        (mark shards (reported .FOLLOWER 5000 7)).hasLeader = true := by
  intro shards
  obtain ⟨hnear, hnearLeader⟩ := ((marks_iff (by decide) (show reported .FOLLOWER 6 7 ∈ shards by decide)
    rfl).2.1 (reported .LEADER 5 7) (.head _) rfl rfl).mpr (by unfold NumbersSuit; decide)
  obtain ⟨hfar, hfarLeader⟩ := ((marks_iff (by decide)
    (show reported .FOLLOWER 5000 7 ∈ shards by decide) rfl).2.1 (reported .LEADER 5 7) (.head _) rfl
    rfl).mpr (by unfold NumbersSuit; decide)
  exact ⟨⟨hnear.mpr (by unfold InSync; decide), hnearLeader⟩,
    fun hmarked => absurd (hfar.mp hmarked) (by unfold InSync; decide), hfarLeader⟩

/-- A follower with another base version counts as in step, one that is behind by a single number
does not. -/
theorem marks_wrongly :
    processShards [reported .LEADER 5 7, reported .FOLLOWER 5 8, reported .FOLLOWER 4 7] =
      [reported .LEADER 5 7, { reported .FOLLOWER 5 8 with noDiff := true, hasLeader := true },
        { reported .FOLLOWER 4 7 with hasLeader := true }] := by
  decide

structure ShardInfo (F : Type) where
  shardId : UInt32
  role : DBRole
  /-- the metric of the mode that is reduced -/
  metric : F
  deriving DecidableEq

section
open List

/-- An order in which the entries of a map are walked. -/
abbrev Walk (β : Type) := { order : List β → List β // ∀ entries, (order entries).Perm entries }

structure NodeInfo (α F : Type) where
  address : α
  master : Bool
  shardInfo : List (ShardInfo F)

/-- A reduce request and what it finds: the nodes of its group with the shards that each of them
reported, how many followers a shard has in the cache, and the order of each walk over a map. -/
structure ReduceRequest (α F : Type) where
  reduceRate : UInt32
  nodes : List (NodeInfo α F)
  distinct : (nodes.map NodeInfo.address).Nodup
  specShardNum : UInt32 → UInt32
  total : Walk (ShardInfo F)
  current : α → Walk (ShardInfo F)
  reduce : α → Walk (ShardInfo F)

variable {α F : Type}

def NodeInfo.hostMetrics (node : NodeInfo α F) : List (ShardInfo F) :=
  node.shardInfo.filter fun info => info.role ≠ .LEADER

/-- `getAllHostShardInfo`. -/
def ReduceRequest.hosts (request : ReduceRequest α F) : List (NodeInfo α F) :=
  request.nodes.filter fun node => !node.master

theorem ReduceRequest.nodup_hosts (request : ReduceRequest α F) :
    (request.hosts.map NodeInfo.address).Nodup :=
  request.distinct.sublist (filter_sublist.map _)

variable [DecidableEq α]

/-- The shards that a host was last told to disable, in any order. -/
abbrev Disabled (α : Type) := α → Multiset UInt32

def disableShardList (host : α) (info : List UInt32) (disabled : Disabled α) : Disabled α :=
  Function.update disabled host info

/-- The old data is cleared first. -/
def disableShardMetricsHandle (result : AList fun _ : α => List (ShardInfo F))
    (disabled : Disabled α) : Disabled α :=
  result.entries.foldl (fun disabled entry =>
    disableShardList entry.1 (entry.2.map ShardInfo.shardId)
      (disableShardList entry.1 [] disabled)) disabled

theorem disableShardMetricsHandle_apply (result : AList fun _ : α => List (ShardInfo F))
    (disabled : Disabled α) (address : α) :
    disableShardMetricsHandle result disabled address =
      match result.lookup address with
      | none => disabled address
      | some shards => (shards.map ShardInfo.shardId : List UInt32) := by
  obtain ⟨entries, hnodup⟩ := result
  unfold disableShardMetricsHandle AList.lookup
  induction entries generalizing disabled with
  | nil => rfl
  | cons entry entries ih =>
    obtain ⟨hnew, hnodup⟩ := nodupKeys_cons.mp hnodup
    rw [foldl_cons, ih _ hnodup]
    by_cases haddress : address = entry.1
    · rw [haddress, dlookup_cons_eq, dlookup_eq_none.mpr hnew]
      exact Function.update_self ..
    · rw [dlookup_cons_ne _ _ haddress]
      cases dlookup address entries with
      | none =>
        exact (Function.update_of_ne haddress ..).trans (Function.update_of_ne haddress ..)
      | some shards => rfl

/-- What the loop over the hosts leaves at an address, from any map it started with. -/
theorem lookup_foldl (address : α) {hosts : List (NodeInfo α F)}
    (hnodup : (hosts.map NodeInfo.address).Nodup)
    (below : NodeInfo α F → Prop) [DecidablePred below] (shards : NodeInfo α F → List (ShardInfo F))
    (result : AList fun _ : α => List (ShardInfo F)) :
    let after := hosts.foldl (fun result host =>
      if below host then result else result.insert host.address (shards host)) result
    (∀ host ∈ hosts, host.address = address → ¬below host →
        after.lookup address = some (shards host)) ∧
      ((∀ host ∈ hosts, host.address = address → below host) →
        after.lookup address = result.lookup address) := by
  induction hosts generalizing result with
  | nil => exact ⟨nofun, fun _ => rfl⟩
  | cons host hosts ih =>
    obtain ⟨hnew, hnodup⟩ := nodup_cons.mp hnodup
    obtain ⟨hfound, hother⟩ := ih hnodup
      (if below host then result else result.insert host.address (shards host))
    rw [foldl_cons]
    refine ⟨fun found hmem haddress hpost => ?_, fun hbelow => ?_⟩
    · rcases mem_cons.mp hmem with rfl | hmem
      · refine (hother fun other hmem hsame => ?_).trans ?_
        · rw [haddress, ← hsame] at hnew
          exact absurd (mem_map_of_mem hmem) hnew
        · rw [if_neg hpost, ← haddress, AList.lookup_insert]
      · exact hfound found hmem haddress hpost
    · refine (hother fun other hmem => hbelow other (mem_cons_of_mem _ hmem)).trans ?_
      by_cases haddress : host.address = address
      · rw [if_pos (hbelow host mem_cons_self haddress)]
      · split
        · rfl
        · exact AList.lookup_insert_ne (Ne.symm haddress)

/- The numbers are those of `float64`: no law of arithmetic is asked of them. -/
variable [Zero F] [NatCast F] [Add F] [Sub F] [Mul F] [Div F] [LT F] [LE F] [DecidableLT F]
  [DecidableLE F]

def sumOf (infos : List (ShardInfo F)) : F := infos.foldl (fun value info => value + info.metric) 0

namespace ReduceRequest
variable (request : ReduceRequest α F)

def getTotalMetricsValue : F :=
  sumOf (request.total.1 (request.hosts.flatMap NodeInfo.hostMetrics))

def leftValuePerHost : F :=
  request.getTotalMetricsValue * ((request.reduceRate.toNat : F) / ((100 : Nat) : F)) /
    (request.hosts.length : F)

def currentHostMetricsValue (host : NodeInfo α F) : F :=
  sumOf ((request.current host.address).1 host.hostMetrics)

def checkShardCanDisable (info : ShardInfo F) (reduceShard : List (ShardInfo F))
    (shouldDisableValue : F) : Bool :=
  info.role ≠ .LEADER ∧ 0 < info.metric ∧ info.metric < shouldDisableValue ∧
    1 < request.specShardNum info.shardId -
      UInt32.ofNat (reduceShard.countP fun other => other.shardId = info.shardId)

def reduceLoop : List (ShardInfo F) → List (ShardInfo F) → F → List (ShardInfo F)
  | [], reduceShardList, _ => reduceShardList
  | info :: rest, reduceShardList, reduceValueLeft =>
    if request.checkShardCanDisable info reduceShardList reduceValueLeft then
      let reduceValueLeft := reduceValueLeft - info.metric
      if reduceValueLeft ≤ 0 then reduceShardList ++ [info]
      else reduceLoop rest (reduceShardList ++ [info]) reduceValueLeft
    else reduceLoop rest reduceShardList reduceValueLeft

/-- The shards that the request computes for a host. -/
def reduceShardList (host : NodeInfo α F) : List (ShardInfo F) :=
  request.reduceLoop ((request.reduce host.address).1 host.hostMetrics) []
    (request.currentHostMetricsValue host - request.leftValuePerHost)

def reduceMetricsHandle : AList fun _ : α => List (ShardInfo F) :=
  request.hosts.foldl (fun result host =>
    if request.currentHostMetricsValue host - request.leftValuePerHost < 0 then result
    else result.insert host.address (request.reduceShardList host)) ∅

end ReduceRequest

def ReduceRequest.reduceAction (request : ReduceRequest α F) (disabled : Disabled α) : Disabled α :=
  let result := if request.reduceRate ≠ 100 then request.reduceMetricsHandle else ∅
  disableShardMetricsHandle result disabled

def disabledAfter (requests : List (ReduceRequest α F)) : Disabled α :=
  requests.foldl (fun disabled request => request.reduceAction disabled) fun _ => 0

/-- The rate is 100 or the host is below its target: nothing is to be disabled. -/
def ReduceRequest.Spares (request : ReduceRequest α F) (host : NodeInfo α F) : Prop :=
  request.reduceRate = 100 ∨
    request.currentHostMetricsValue host - request.leftValuePerHost < 0

instance decidableSpares (request : ReduceRequest α F) (host : NodeInfo α F) :
    Decidable (request.Spares host) :=
  inferInstanceAs (Decidable (request.reduceRate = 100 ∨
    request.currentHostMetricsValue host - request.leftValuePerHost < 0))

/-- What the request is to leave disabled on a host. -/
def ReduceRequest.setting (request : ReduceRequest α F) (host : NodeInfo α F) : Multiset UInt32 :=
  if request.Spares host then 0 else (request.reduceShardList host).map ShardInfo.shardId

/-- The request posts a list to the host at an address. -/
def ReduceRequest.Posts (request : ReduceRequest α F) (address : α) (shards : List (ShardInfo F)) :
    Prop :=
  ∃ host ∈ request.hosts, host.address = address ∧ ¬request.Spares host ∧
    shards = request.reduceShardList host

/-- The last of the requests that posted a list to the host at an address posted one that is not
empty. -/
def Throttled (requests : List (ReduceRequest α F)) (address : α) : Prop :=
  ∃ before request after, requests = before ++ request :: after ∧
    (∃ shards ≠ [], request.Posts address shards) ∧
    ∀ later ∈ after, ∀ shards, ¬later.Posts address shards

namespace ReduceRequest
variable {request : ReduceRequest α F} {address : α}

theorem reduceAction_of_posts {shards : List (ShardInfo F)} (hposts : request.Posts address shards)
    (disabled : Disabled α) :
    request.reduceAction disabled address = (shards.map ShardInfo.shardId : List UInt32) := by
  obtain ⟨host, hhost, rfl, hspares, rfl⟩ := hposts
  obtain ⟨hrate, hpost⟩ := not_or.mp hspares
  have hlookup := (lookup_foldl host.address request.nodup_hosts
    (fun host => request.currentHostMetricsValue host - request.leftValuePerHost < 0)
    request.reduceShardList ∅).1 host hhost rfl hpost
  rw [reduceAction, if_pos hrate, disableShardMetricsHandle_apply, reduceMetricsHandle, hlookup]

theorem reduceAction_of_not_posts (hposts : ∀ shards, ¬request.Posts address shards)
    (disabled : Disabled α) : request.reduceAction disabled address = disabled address := by
  rw [reduceAction, disableShardMetricsHandle_apply]
  by_cases hrate : request.reduceRate = 100
  · rw [if_neg (not_not.mpr hrate)]
    rfl
  · have hlookup := (lookup_foldl address request.nodup_hosts
      (fun host => request.currentHostMetricsValue host - request.leftValuePerHost < 0)
      request.reduceShardList ∅).2 fun host hhost haddress => by
        by_contra hpost
        exact hposts _ ⟨host, hhost, haddress, not_or.mpr ⟨hrate, hpost⟩, rfl⟩
    rw [if_pos hrate, reduceMetricsHandle, hlookup]
    rfl

omit [DecidableEq α] in
theorem Posts.unique {shards others : List (ShardInfo F)} (hposts : request.Posts address shards)
    (hothers : request.Posts address others) : others = shards := by
  obtain ⟨host, hhost, haddress, -, rfl⟩ := hposts
  obtain ⟨other, hother, hsame, -, rfl⟩ := hothers
  rw [inj_on_of_nodup_map request.nodup_hosts hother hhost (hsame.trans haddress.symm)]

end ReduceRequest

theorem disabledAfter_concat (requests : List (ReduceRequest α F)) (last : ReduceRequest α F) :
    disabledAfter (requests ++ [last]) = last.reduceAction (disabledAfter requests) := by
  rw [disabledAfter, foldl_append]
  rfl

omit [DecidableEq α] in
theorem throttled_concat (requests : List (ReduceRequest α F)) (last : ReduceRequest α F)
    (address : α) : Throttled (requests ++ [last]) address ↔
      (∃ shards ≠ [], last.Posts address shards) ∨
        Throttled requests address ∧ ∀ shards, ¬last.Posts address shards := by
  constructor
  · rintro ⟨before, request, after, hsplit, hposted, hlater⟩
    rcases eq_nil_or_concat' after with rfl | ⟨between, final, rfl⟩
    · obtain ⟨-, hlast⟩ := append_inj' hsplit rfl
      cases hlast
      exact .inl hposted
    · rw [← cons_append, ← append_assoc] at hsplit
      obtain ⟨rfl, hlast⟩ := append_inj' hsplit rfl
      cases hlast
      refine .inr ⟨⟨before, request, between, rfl, hposted, fun later hmem => ?_⟩, ?_⟩
      · exact hlater later (mem_append_left _ hmem)
      · exact hlater last (by simp)
  · rintro (hposted | ⟨⟨before, request, after, rfl, hposted, hlater⟩, hlast⟩)
    · exact ⟨requests, last, [], rfl, hposted, nofun⟩
    · refine ⟨before, request, after ++ [last], by simp, hposted, fun later hmem => ?_⟩
      rcases mem_append.mp hmem with hmem | hmem
      · exact hlater later hmem
      · rw [mem_singleton.mp hmem]
        exact hlast

theorem disabledAfter_eq_zero_iff (requests : List (ReduceRequest α F)) (address : α) :
    disabledAfter requests address = 0 ↔ ¬Throttled requests address := by
  induction requests using reverseRecOn with
  | nil => exact iff_of_true rfl fun ⟨before, request, after, hsplit, _⟩ => by simp at hsplit
  | append_singleton requests last ih =>
    rw [disabledAfter_concat, throttled_concat]
    by_cases hposts : ∃ shards, last.Posts address shards
    · obtain ⟨shards, hposts⟩ := hposts
      rw [ReduceRequest.reduceAction_of_posts hposts, Multiset.coe_eq_zero, map_eq_nil_iff]
      constructor
      · rintro rfl (⟨others, hne, hothers⟩ | ⟨-, hnone⟩)
        · exact hne (hposts.unique hothers)
        · exact hnone _ hposts
      · intro hnot
        by_contra hne
        exact hnot (.inl ⟨shards, hne, hposts⟩)
    · have hnone (shards : List (ShardInfo F)) : ¬last.Posts address shards :=
        fun hshards => hposts ⟨shards, hshards⟩
      rw [ReduceRequest.reduceAction_of_not_posts hnone, ih, not_or]
      constructor
      · exact fun hthrottled =>
          ⟨fun ⟨shards, _, hshards⟩ => hnone shards hshards, fun hboth => hthrottled hboth.1⟩
      · exact fun hboth hthrottled => hboth.2 ⟨hthrottled, hnone⟩

/-- One host that carries two shards, each of which another host has too. -/
def twoShards (reduceRate : UInt32) : ReduceRequest Nat ℚ where
  reduceRate := reduceRate
  nodes := [⟨0, false, [⟨1, .FOLLOWER, 1⟩, ⟨2, .FOLLOWER, 3⟩]⟩]
  distinct := by decide
  specShardNum _ := 2
  total := ⟨id, .refl⟩
  current _ := ⟨id, .refl⟩
  reduce _ := ⟨id, .refl⟩

end

open List

variable {β F : Type} (getNodeHash : Bytes → UInt32 → UInt64)

/-- What a round gets from a node; `basicInfo` says where the node is and if it is available. -/
structure PulledNode (β F : Type) where
  groupName : Bytes
  nodeId : UInt32
  basicInfo : β
  shardMetrics : List (ShardInfo F)

/-- The two maps of a group have the same keys; here the group is a part of the key. -/
abbrev MetricsCache (β F : Type) := AList fun _ : Bytes × UInt64 => β × List (ShardInfo F)

def PulledNode.entry (pulled : PulledNode β F) : (_ : Bytes × UInt64) × β × List (ShardInfo F) :=
  ⟨(pulled.groupName, getNodeHash pulled.groupName pulled.nodeId), pulled.basicInfo,
    pulled.shardMetrics⟩

/-- The results of a round in the order in which they arrive. -/
def syncShardMetrics (cache : MetricsCache β F) (arrived : List (PulledNode β F)) : MetricsCache β F :=
  arrived.foldl (fun cache pulled =>
    cache.insert (pulled.entry getNodeHash).1 (pulled.entry getNodeHash).2) cache

def replicas (shardId : UInt32) (role : DBRole) (shards : List (ShardInfo F)) : Nat :=
  shards.countP fun info => info.shardId = shardId ∧ info.role = role

def getSpecShardNum (cache : MetricsCache β F) (shardId : UInt32) (role : DBRole) : UInt32 :=
  UInt32.ofNat (MapContents.contents (fun _ node => replicas shardId role node.2) cache)

def cacheAfter (rounds : List (List (PulledNode β F))) : MetricsCache β F :=
  rounds.foldl (syncShardMetrics getNodeHash) ∅

structure HoldsRound (cache : MetricsCache β F) (arrived : List (PulledNode β F)) : Prop where
  nodes : cache.entries.Perm (arrived.map (PulledNode.entry getNodeHash))
  counts : ∀ shardId role, getSpecShardNum cache shardId role =
    UInt32.ofNat (arrived.map fun pulled => replicas shardId role pulled.shardMetrics).sum

variable {getNodeHash} {arrived : List (PulledNode β F)}

theorem lookup_syncShardMetrics (cache : MetricsCache β F) (key : Bytes × UInt64) :
    (syncShardMetrics getNodeHash cache arrived).lookup key =
      (dlookup key (arrived.map (PulledNode.entry getNodeHash)).reverse).or (cache.lookup key) := by
  induction arrived generalizing cache with
  | nil => rfl
  | cons pulled arrived ih =>
    rw [map_cons, reverse_cons, dlookup_append, Option.or_assoc]
    refine (ih _).trans (congrArg _ ?_)
    by_cases hkey : key = (pulled.entry getNodeHash).1
    · rw [hkey, AList.lookup_insert, dlookup_cons_eq]
      rfl
    · rw [AList.lookup_insert_ne hkey, dlookup_cons_ne _ _ hkey]
      rfl

/-- The cache follows the node list just if no node of an earlier round has left it, as long as the
nodes of a group have different hashes. -/
theorem holdsRound_iff (rounds : List (List (PulledNode β F)))
    (hnodup : (arrived.map (PulledNode.entry getNodeHash)).NodupKeys) :
    HoldsRound getNodeHash (cacheAfter getNodeHash (rounds ++ [arrived])) arrived ↔
      ∀ pulled ∈ rounds.flatten,
        (pulled.entry getNodeHash).1 ∈ (arrived.map (PulledNode.entry getNodeHash)).keys := by
  set entries := arrived.map (PulledNode.entry getNodeHash)
  set earlier := (rounds.flatten.map (PulledNode.entry getNodeHash)).reverse
  have hlookup (key : Bytes × UInt64) :
      (cacheAfter getNodeHash (rounds ++ [arrived])).lookup key =
        (dlookup key entries).or (dlookup key earlier) := by
    have hrounds : rounds.foldl (syncShardMetrics getNodeHash) ∅ =
        syncShardMetrics getNodeHash ∅ rounds.flatten := foldl_flatten.symm
    rw [cacheAfter, foldl_append, hrounds]
    change (syncShardMetrics getNodeHash _ arrived).lookup key = _
    rw [lookup_syncShardMetrics, lookup_syncShardMetrics, AList.lookup_empty, Option.or_none,
      perm_dlookup key hnodup (reverse_perm _).symm]
  constructor
  · intro hholds pulled hpulled
    have hearlier : (pulled.entry getNodeHash).1 ∈ earlier.keys := by
      simp only [earlier, keys, map_reverse, mem_reverse]
      exact mem_map_of_mem (mem_map_of_mem hpulled)
    have hsame := hlookup (pulled.entry getNodeHash).1
    rw [AList.lookup, perm_dlookup _ (AList.nodupKeys _) hholds.nodes] at hsame
    by_contra hnone
    rw [← dlookup_eq_none] at hnone
    rw [hnone, Option.none_or, eq_comm, dlookup_eq_none] at hsame
    exact hsame hearlier
  · intro hstays
    have hperm : (cacheAfter getNodeHash (rounds ++ [arrived])).entries.Perm entries := by
      refine lookup_ext (AList.nodupKeys _) hnodup fun key value => ?_
      change value ∈ (cacheAfter getNodeHash (rounds ++ [arrived])).lookup key ↔ _
      rw [hlookup]
      cases hentry : dlookup key entries with
      | none =>
        have hnone : dlookup key earlier = none := by
          rw [dlookup_eq_none] at hentry ⊢
          simp only [earlier, keys, map_reverse, mem_reverse, map_map, mem_map]
          rintro ⟨pulled, hpulled, rfl⟩
          exact hentry (hstays pulled hpulled)
        rw [hnone]
        rfl
      | some other => rfl
    refine ⟨hperm, fun shardId role => ?_⟩
    rw [getSpecShardNum, MapContents.contents, (hperm.map _).sum_eq, map_map]
    rfl

def follower (nodeId : UInt32) : PulledNode Unit ℚ := ⟨[], nodeId, (), [⟨1, .FOLLOWER, 0⟩]⟩

theorem holdsRound_joined : HoldsRound (fun _ nodeId => nodeId.toUInt64)
    (cacheAfter (fun _ nodeId => nodeId.toUInt64) [[follower 1], [follower 2, follower 1]])
    [follower 2, follower 1] :=
  (holdsRound_iff [[follower 1]] (by unfold NodupKeys; decide)).mpr (by decide)

/-- A node that has left is counted on. -/
theorem departed_counted : getSpecShardNum (cacheAfter (fun _ nodeId => nodeId.toUInt64)
    [[follower 1, follower 2], [follower 1]]) 1 .FOLLOWER = 2 := by
  decide

end LaserDB.ShardMetrics
