import LaserDB.Library.MapContents
import LaserDB.Routing.Discover

/-!
# The groups of a request for several keys

`group` of the Go client puts the keys of a request under the addresses of the servers that it finds
for them.  The maps of the source are walked in any order.
-/

namespace LaserDB.GoClient
open DecimalText MapContents Routing List
open Multiset (coe_add coe_singleton le_add_right ofList)

structure ServerAddress where
  host : Bytes
  port : UInt16
  deriving DecidableEq, Repr

inductive ReadMode
  | leader | follower | mixed
  deriving DecidableEq, Repr

/-- The shard type of `getClientOption` -/
def ReadMode.shardType : ReadMode → ShardType
  | .leader => .leader
  | .follower => .follower
  | .mixed => .all

structure KeyRoute where
  shardId : Int64
  partitionHash : Int64
  bindEdgeNodes : Bool
  edgeFlowRatio : Int
  dc : Bytes
  deriving DecidableEq, Repr

structure RouteInfo where
  shardId : Int64
  partitionHash : Int64
  routeToEdgeNode : Bool
  dc : Bytes
  deriving DecidableEq, Repr

/-- `getRouteInfo`, with the number that was drawn. -/
def getRouteInfo (route : Option KeyRoute) (readMode : ReadMode) (draw : Nat) : RouteInfo :=
  match route with
  | none => ⟨0, 0, false, defaultDc⟩
  | some route =>
    ⟨route.shardId, route.partitionHash,
      decide (route.bindEdgeNodes = true ∧ readMode ≠ .leader ∧ (draw : Int) < route.edgeFlowRatio),
      route.dc⟩

abbrev KeyToIndex (β : Type) := β × Nat

structure AddressKeyMap (β : Type) where
  address : Option ServerAddress
  keyToIndexList : List (KeyToIndex β)
  deriving DecidableEq, Repr

structure DcGroupInfo (β : Type) where
  routeId2Indexs : AList fun _ : Int64 => List (KeyToIndex β) := ∅
  uniqueShardIds : List Int64 := []
  uniquePartitionHashes : List Int64 := []
  partitionHash2ShardIds : AList fun _ : Int64 => Int64 := ∅

/-- What the client meets: its configuration, the numbers it draws, the tables and the states of the
balancer when it looks up edge nodes and shards of a data centre, and the orders in which it walks
over maps. -/
structure Client (κ σ β : Type) where
  laserServiceName : Bytes
  route : β → Option KeyRoute
  draws : Nat → Nat
  hashing : SeededHash κ
  balancer : Balancer σ
  edgeTable : Bytes → RouterDb κ × σ
  shardTable : Bytes → RouterDb κ × σ
  dcWalk : Walk Bytes
  edgeWalk : Bytes → Walk Int64
  routeWalk : Bytes → Walk Int64

section
variable {β : Type}

def DcGroupInfo.add (info : DcGroupInfo β) (route : RouteInfo) (entry : KeyToIndex β) :
    DcGroupInfo β :=
  let routerId := if route.routeToEdgeNode then route.partitionHash else route.shardId
  match info.routeId2Indexs.lookup routerId with
  | some list =>
    { info with routeId2Indexs := info.routeId2Indexs.insert routerId (list ++ [entry]) }
  | none =>
    let routeId2Indexs := info.routeId2Indexs.insert routerId [entry]
    if route.routeToEdgeNode then
      { info with
        routeId2Indexs := routeId2Indexs
        uniquePartitionHashes := info.uniquePartitionHashes ++ [routerId]
        partitionHash2ShardIds :=
          info.partitionHash2ShardIds.insert route.partitionHash route.shardId }
    else
      { info with
        routeId2Indexs := routeId2Indexs
        uniqueShardIds := info.uniqueShardIds ++ [routerId] }

def addKey (infos : AList fun _ : Bytes => DcGroupInfo β) (route : RouteInfo)
    (entry : KeyToIndex β) : AList fun _ : Bytes => DcGroupInfo β :=
  infos.insert route.dc (((infos.lookup route.dc).getD {}).add route entry)

abbrev RouteServers := AList fun _ : Int64 => Option Server

/-- One round of the loop that moves the keys of a route without an edge node to its shard. -/
def fallBack (state : DcGroupInfo β × RouteServers) (partitionHash : Int64) :
    DcGroupInfo β × RouteServers :=
  let (info, edgeServers) := state
  match edgeServers.lookup partitionHash, info.partitionHash2ShardIds.lookup partitionHash with
  | some none, some shardId =>
    let list := (info.routeId2Indexs.lookup partitionHash).getD []
    let moved : DcGroupInfo β :=
      match info.routeId2Indexs.lookup shardId with
      | none =>
        { info with
          uniqueShardIds := info.uniqueShardIds ++ [shardId]
          routeId2Indexs := info.routeId2Indexs.insert shardId list }
      | some own =>
        { info with routeId2Indexs := info.routeId2Indexs.insert shardId (own ++ list) }
    ({ moved with routeId2Indexs := moved.routeId2Indexs.erase partitionHash },
      edgeServers.erase partitionHash)
  | _, _ => (info, edgeServers)

def nilAddress : Bytes := ascii "nil_address".toList

def mapKey : Option ServerAddress → Bytes
  | none => nilAddress
  | some address => address.host ++ ascii ":".toList ++ print address.port.toNat

def addressOf (server : Server) : ServerAddress := ⟨server.host, server.port⟩

def mergeRoute (info : DcGroupInfo β) (servers : RouteServers)
    (result : AList fun _ : Bytes => AddressKeyMap β) (routeId : Int64) :
    AList fun _ : Bytes => AddressKeyMap β :=
  match servers.lookup routeId with
  | none => result
  | some server =>
    let address := server.map addressOf
    let group := (result.lookup (mapKey address)).getD ⟨address, []⟩
    result.insert (mapKey address)
      { group with
        keyToIndexList := group.keyToIndexList ++ (info.routeId2Indexs.lookup routeId).getD [] }

variable {κ σ : Type} [DecidableEq κ] (client : Client κ σ β) (readMode : ReadMode)

/-- `BatchDiscover`, as a map. -/
def Client.discoverRoutes (table : RouterDb κ × σ) (dc : Bytes) (routeIds : List Int64) : RouteServers :=
  (batchDiscover client.hashing .go table.1 ⟨client.laserServiceName, .thrift, readMode.shardType, dc⟩
    client.balancer table.2 routeIds).foldl (fun servers found => servers.insert found.1 found.2) ∅

def Client.groupDc (result : AList fun _ : Bytes => AddressKeyMap β) (dc : Bytes)
    (info : DcGroupInfo β) : AList fun _ : Bytes => AddressKeyMap β :=
  let edgeServers :=
    client.discoverRoutes readMode (client.edgeTable dc) dc info.uniquePartitionHashes
  let fallen := ((client.edgeWalk dc).order edgeServers.keys).foldl fallBack (info, edgeServers)
  let shardServers :=
    client.discoverRoutes readMode (client.shardTable dc) dc fallen.1.uniqueShardIds
  let servers := fallen.2 ∪ shardServers
  ((client.routeWalk dc).order servers.keys).foldl (mergeRoute fallen.1 servers) result

def Client.groupInfos (kvs : List β) : AList fun _ : Bytes => DcGroupInfo β :=
  kvs.zipIdx.foldl (fun infos entry =>
    addKey infos (getRouteInfo (client.route entry.1) readMode (client.draws entry.2)) entry) ∅

def Client.group (kvs : List β) : AList fun _ : Bytes => AddressKeyMap β :=
  let infos := client.groupInfos readMode kvs
  (client.dcWalk.order infos.keys).foldl (fun result dc =>
    (infos.lookup dc).elim result (client.groupDc readMode result dc)) ∅

def DcGroupInfo.keys (info : DcGroupInfo β) : Multiset (KeyToIndex β) :=
  contents (fun _ => Multiset.ofList) info.routeId2Indexs

def AddressKeyMap.keys (group : AddressKeyMap β) : Multiset (KeyToIndex β) :=
  Multiset.ofList group.keyToIndexList

theorem ofList_getD {key : Int64} (map : AList fun _ : Int64 => List (KeyToIndex β)) :
    ofList ((map.lookup key).getD []) = itemsAt (fun _ => ofList) map key := by
  rw [itemsAt]
  cases map.lookup key <;> rfl

variable (info : DcGroupInfo β)

theorem DcGroupInfo.keys_add (route : RouteInfo) (entry : KeyToIndex β) :
    (info.add route entry).keys = {entry} + info.keys := by
  have hadded (routerId : Int64) :
      contents (fun _ => ofList) (info.routeId2Indexs.insert routerId
        ((info.routeId2Indexs.lookup routerId).getD [] ++ [entry])) = {entry} + info.keys := by
    rw [contents_insert, ← coe_add, ofList_getD, coe_singleton, add_right_comm,
      itemsAt_add_contents_erase, add_comm]
    rfl
  unfold DcGroupInfo.add
  dsimp only
  generalize (if route.routeToEdgeNode = true then route.partitionHash else route.shardId) = routerId
  have hrouter := hadded routerId
  split
  · next list hlist =>
      rw [hlist] at hrouter
      exact hrouter
  · next hnone =>
      rw [hnone] at hrouter
      split_ifs
      · exact hrouter
      · exact hrouter

variable (infos : AList fun _ : Bytes => DcGroupInfo β)

theorem contents_addKey (route : RouteInfo) (entry : KeyToIndex β) :
    contents (fun _ => DcGroupInfo.keys) (addKey infos route entry) =
      {entry} + contents (fun _ => DcGroupInfo.keys) infos := by
  have hitems : ((infos.lookup route.dc).getD {}).keys =
      itemsAt (fun _ => DcGroupInfo.keys) infos route.dc := by
    rw [itemsAt]
    cases infos.lookup route.dc <;> rfl
  rw [addKey, contents_insert, DcGroupInfo.keys_add, hitems, add_assoc, itemsAt_add_contents_erase]

theorem keys_fallBack_le (state : DcGroupInfo β × RouteServers) (partitionHash : Int64) :
    (fallBack state partitionHash).1.keys ≤ state.1.keys := by
  obtain ⟨info, edgeServers⟩ := state
  have hmove (shardId : Int64) (own : List (KeyToIndex β))
      (hown : ofList own = itemsAt (fun _ => ofList) info.routeId2Indexs shardId) :
      contents (fun _ => ofList) ((info.routeId2Indexs.insert shardId
        (own ++ (info.routeId2Indexs.lookup partitionHash).getD [])).erase partitionHash) ≤
          info.keys := by
    refine contents_move_le ?_
    rw [← coe_add, ofList_getD, hown]
  unfold fallBack
  dsimp only
  split
  · next shardId hedge hshard =>
      dsimp only
      split
      · next hnone =>
          exact hmove shardId [] (by rw [itemsAt, hnone]; rfl)
      · next own hown =>
          exact hmove shardId own (by rw [itemsAt, hown]; rfl)
  · exact le_rfl

theorem keys_foldl_fallBack_le (order : List Int64) (state : DcGroupInfo β × RouteServers) :
    (order.foldl fallBack state).1.keys ≤ state.1.keys := by
  induction order generalizing state with
  | nil => exact le_rfl
  | cons partitionHash order ih =>
    exact (ih _).trans (keys_fallBack_le state partitionHash)

theorem contents_mergeRoute_le (servers : RouteServers)
    (result : AList fun _ : Bytes => AddressKeyMap β) (routeId : Int64) :
    contents (fun _ => AddressKeyMap.keys) (mergeRoute info servers result routeId) ≤
      contents (fun _ => AddressKeyMap.keys) result + itemsAt (fun _ => ofList) info.routeId2Indexs routeId := by
  unfold mergeRoute
  split
  · exact le_add_right _ _
  · next server _ =>
      have hgroup : AddressKeyMap.keys ((result.lookup (mapKey (server.map addressOf))).getD
          ⟨server.map addressOf, []⟩) =
            itemsAt (fun _ => AddressKeyMap.keys) result (mapKey (server.map addressOf)) := by
        rw [itemsAt]
        cases result.lookup (mapKey (server.map addressOf)) <;> rfl
      refine le_of_eq ?_
      dsimp only
      rw [contents_insert, AddressKeyMap.keys]
      dsimp only
      rw [← coe_add, ofList_getD, add_right_comm]
      refine congrArg (· + _) ?_
      rw [← itemsAt_add_contents_erase result (mapKey (server.map addressOf)), ← hgroup]
      rfl

theorem contents_foldl_mergeRoute_le (servers : RouteServers) (order : List Int64)
    (result : AList fun _ : Bytes => AddressKeyMap β) :
    contents (fun _ => AddressKeyMap.keys) (order.foldl (mergeRoute info servers) result) ≤
      contents (fun _ => AddressKeyMap.keys) result +
        (order.map (itemsAt (fun _ => ofList) info.routeId2Indexs)).sum := by
  induction order generalizing result with
  | nil => simp
  | cons routeId order ih =>
    rw [foldl_cons, map_cons, sum_cons, ← add_assoc]
    exact (ih _).trans (add_le_add_left (contents_mergeRoute_le info servers result routeId) _)

omit [DecidableEq κ] in
theorem contents_groupInfos (kvs : List β) :
    contents (fun _ => DcGroupInfo.keys) (client.groupInfos readMode kvs) = ofList kvs.zipIdx := by
  unfold Client.groupInfos
  generalize kvs.zipIdx = entries
  induction entries using reverseRecOn with
  | nil => rfl
  | append_singleton entries entry ih =>
    rw [foldl_append, foldl_cons, foldl_nil, contents_addKey, ih, add_comm,
      ← coe_add, coe_singleton]

theorem contents_groupDc_le (result : AList fun _ : Bytes => AddressKeyMap β) (dc : Bytes)
    (info : DcGroupInfo β) :
    contents (fun _ => AddressKeyMap.keys) (client.groupDc readMode result dc info) ≤
      contents (fun _ => AddressKeyMap.keys) result + info.keys := by
  unfold Client.groupDc
  dsimp only
  refine (contents_foldl_mergeRoute_le _ _ _ _).trans (add_le_add_right ?_ _)
  exact (sum_itemsAt_le (Walk.nodup _ _) _).trans (keys_foldl_fallBack_le _ _)

theorem contents_foldl_groupDc_le (order : List Bytes)
    (result : AList fun _ : Bytes => AddressKeyMap β) :
    contents (fun _ => AddressKeyMap.keys) (order.foldl (fun result dc =>
      (infos.lookup dc).elim result (client.groupDc readMode result dc)) result) ≤
        contents (fun _ => AddressKeyMap.keys) result + (order.map (itemsAt (fun _ => DcGroupInfo.keys) infos)).sum := by
  induction order generalizing result with
  | nil => simp
  | cons dc order ih =>
    have hfirst : contents (fun _ => AddressKeyMap.keys)
        ((infos.lookup dc).elim result (client.groupDc readMode result dc)) ≤
          contents (fun _ => AddressKeyMap.keys) result + itemsAt (fun _ => DcGroupInfo.keys) infos dc := by
      rw [itemsAt]
      cases infos.lookup dc with
      | none => exact le_add_right _ _
      | some info => exact contents_groupDc_le client readMode result dc info
    rw [foldl_cons, map_cons, sum_cons, ← add_assoc]
    exact (ih _).trans (add_le_add_left hfirst _)

theorem contents_group_le (kvs : List β) :
    contents (fun _ => AddressKeyMap.keys) (client.group readMode kvs) ≤ ofList kvs.zipIdx := by
  unfold Client.group
  dsimp only
  rw [← contents_groupInfos client readMode kvs]
  refine (contents_foldl_groupDc_le client readMode _ _ _).trans ?_
  have hempty : contents (fun _ => AddressKeyMap.keys) (∅ : AList fun _ : Bytes => AddressKeyMap β) = 0 := rfl
  rw [hempty, zero_add]
  exact sum_itemsAt_le (Walk.nodup _ _) _

end

variable {β : Type}

def Keyed (result : AList fun _ : Bytes => AddressKeyMap β) : Prop :=
  ∀ entry ∈ result.entries, entry.1 = mapKey entry.2.address

theorem mapKey_some_ne_nilAddress (address : ServerAddress) : mapKey (some address) ≠ nilAddress := by
  intro heq
  have hcolon : 58 ∈ mapKey (some address) := by
    refine mem_append_left _ (mem_append_right _ ?_)
    decide
  rw [heq] at hcolon
  exact absurd hcolon (by decide)

variable {result : AList fun _ : Bytes => AddressKeyMap β}

variable {servers : RouteServers} {info : DcGroupInfo β}

private theorem Keyed.mergeRoute (hkeyed : Keyed result) (routeId : Int64) :
    Keyed (mergeRoute info servers result routeId) := by
  unfold GoClient.mergeRoute
  split
  · exact hkeyed
  · next server _ =>
      dsimp only
      intro entry hentry
      rw [AList.entries_insert] at hentry
      rcases mem_cons.mp hentry with rfl | hold
      · dsimp only
        cases hgroup : result.lookup (mapKey (server.map addressOf)) with
        | none => rfl
        | some group => exact hkeyed _ (AList.mem_lookup_iff.mp hgroup)
      · exact hkeyed entry ((kerase_sublist _ _).subset hold)

theorem Keyed.foldl_mergeRoute (hkeyed : Keyed result) (order : List Int64) :
    Keyed (order.foldl (GoClient.mergeRoute info servers) result) := by
  induction order generalizing result with
  | nil => exact hkeyed
  | cons routeId order ih => exact ih (hkeyed.mergeRoute routeId)

theorem keyed_group [DecidableEq κ] (client : Client κ σ β) (readMode : ReadMode)
    (kvs : List β) : Keyed (client.group readMode kvs) := by
  unfold Client.group
  dsimp only
  generalize client.groupInfos readMode kvs = infos
  generalize client.dcWalk.order infos.keys = order
  have hrun (result : AList fun _ : Bytes => AddressKeyMap β) (hkeyed : Keyed result) :
      Keyed (order.foldl (fun result dc =>
        (infos.lookup dc).elim result (client.groupDc readMode result dc)) result) := by
    induction order generalizing result with
    | nil => exact hkeyed
    | cons dc order ih =>
      refine ih _ ?_
      dsimp only
      cases infos.lookup dc with
      | none => exact hkeyed
      | some info => exact hkeyed.foldl_mergeRoute _
  exact hrun ∅ fun entry hentry => absurd hentry not_mem_nil

end LaserDB.GoClient
