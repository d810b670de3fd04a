import LaserDB.Library.DecimalText
import LaserDB.Library.Grouping
import LaserDB.Library.SeededHash
import LaserDB.Library.Simulation

/-!
# The routing table

`RouterDb` maps the hash of a route to its servers.  C++ and Go write the keys of partitions and of
shards in different orders.
-/

namespace LaserDB.Routing
open DecimalText

inductive ServerProtocol
  | http | thrift | redis
  deriving DecidableEq, Repr

inductive ServerStatus
  | available | unavailable
  deriving DecidableEq, Repr

inductive ShardType
  | all | leader | follower
  deriving DecidableEq, Repr

structure Server where
  host : Bytes
  port : UInt16
  protocol : ServerProtocol
  status : ServerStatus
  dc : Bytes
  updateTime : UInt64
  shardList : List UInt32
  availableShardList : List UInt32
  followerShardList : List UInt32
  followerAvailableShardList : List UInt32
  isEdgeNode : Bool
  partitionList : List Int64
  deriving DecidableEq, Repr

inductive Sdk
  | cpp | go
  deriving DecidableEq, Repr

structure Route where
  serviceName : Bytes
  protocol : ServerProtocol
  routeId : Int64
  type : ShardType
  dc : Bytes
  deriving DecidableEq, Repr

def toStringServerProtocol : ServerProtocol → Bytes
  | .http => ascii "http".toList
  | .thrift => ascii "thrift".toList
  | .redis => ascii "redis".toList

def toStringShardType : ShardType → Bytes
  | .all => print 0
  | .leader => print 1
  | .follower => print 2

def defaultDc : Bytes := ascii "default".toList

/-- `ROUTER_DEFAULT_SHARD_ID`, the shard of a service without shards. -/
def routerDefaultShardId : UInt32 := 4294967295

def shardRoute (shardId : UInt32) : Int64 := shardId.toUInt64.toInt64

structure Update where
  serviceName : Bytes
  list : List Server
  now : UInt64
  ttlInMs : UInt64
  nonempty : list ≠ []

/-- `pickServers`: the servers that are alive and available, all if there is none. -/
def pickServers (now ttlInMs : UInt64) (list : List Server) : List Server :=
  let result := list.filter fun server =>
    !(decide (server.updateTime + ttlInMs < now)) && server.status == .available
  if result = [] then list else result

/-- The data centre under which a server is entered; Go replaces an empty one. -/
def Sdk.serverDc (sdk : Sdk) (server : Server) : Bytes :=
  match sdk with
  | .cpp => server.dc
  | .go => if server.dc = [] then defaultDc else server.dc

/-- A server as it is stored. -/
def Sdk.stored (sdk : Sdk) (server : Server) : Server := { server with dc := sdk.serverDc server }

def Update.picked (sdk : Sdk) (update : Update) : List Server :=
  (pickServers update.now update.ttlInMs update.list).map sdk.stored

/-- The shards that a server leads; a server without shards has the default one. -/
def Server.leaderIds (server : Server) : List Int64 :=
  let available := server.availableShardList
  (if server.shardList = [] ∧ server.followerShardList = [] then
    available ++ [routerDefaultShardId] else available).map shardRoute

def Server.followerIds (server : Server) : List Int64 :=
  server.followerAvailableShardList.map shardRoute

section
variable {κ : Type} [DecidableEq κ] (hashing : SeededHash κ) (sdk : Sdk)

def getServiceKey (route : Route) : κ :=
  hashing.chain [route.dc, route.serviceName, toStringServerProtocol route.protocol,
    toStringShardType route.type] (hashing.seed route.routeId)

def entry (serviceName : Bytes) (server : Server) (type : ShardType) (routeId : Int64) :
    κ × Server :=
  (getServiceKey hashing ⟨serviceName, server.protocol, routeId, type, sdk.serverDc server⟩, server)

def partitionEntries (serviceName : Bytes) (server : Server) : List (κ × Server) :=
  if server.isEdgeNode then
    server.partitionList.map (entry hashing sdk serviceName server .follower)
  else []

def shardEntries (serviceName : Bytes) (server : Server) : List (κ × Server) :=
  if server.isEdgeNode then []
  else
    (server.leaderIds.flatMap fun routeId =>
      [entry hashing sdk serviceName server .leader routeId,
        entry hashing sdk serviceName server .all routeId]) ++
    server.followerIds.flatMap fun routeId =>
      [entry hashing sdk serviceName server .follower routeId,
        entry hashing sdk serviceName server .all routeId]

structure RouterDb (κ : Type) where
  services : κ → Option (List Server) := fun _ => none
  lastPartitionKeys : Bytes → κ → Bool := fun _ _ => false

/-- What a key holds after an update: C++ writes the partitions over the shards, Go the shards over
the partitions. -/
def Sdk.overlay {ν : Type} (sdk : Sdk) (partition shard rest : Option ν) : Option ν :=
  match sdk with
  | .cpp => partition.or (shard.or rest)
  | .go => shard.or (partition.or rest)

theorem Sdk.overlay_eq_some {sdk : Sdk} {partition shard rest : Option ν} {value : ν}
    (hvalue : sdk.overlay partition shard rest = some value) :
    partition = some value ∨ shard = some value ∨ rest = some value := by
  cases sdk <;> simp only [Sdk.overlay, Option.or_eq_some_iff] at hvalue <;> tauto

def updatePicked (serviceName : Bytes) (picked : List Server) (db : RouterDb κ) : RouterDb κ :=
  let partitionServers := Grouping.groupAll (picked.flatMap (partitionEntries hashing sdk serviceName))
  let shardServers := Grouping.groupAll (picked.flatMap (shardEntries hashing sdk serviceName))
  let cleaned (key : κ) := if db.lastPartitionKeys serviceName key then none else db.services key
  { services := fun key => sdk.overlay (partitionServers key) (shardServers key) (cleaned key)
    lastPartitionKeys :=
      Function.update db.lastPartitionKeys serviceName fun key => (partitionServers key).isSome }

/-- `updateServers`; Go leaves the table as it is if the list is empty. -/
def updateServers (serviceName : Bytes) (list : List Server) (now ttlInMs : UInt64)
    (db : RouterDb κ) : RouterDb κ :=
  if sdk = .go ∧ list = [] then db
  else updatePicked hashing sdk serviceName ((pickServers now ttlInMs list).map sdk.stored) db

def Update.apply (update : Update) (db : RouterDb κ) : RouterDb κ :=
  updateServers hashing sdk update.serviceName update.list update.now update.ttlInMs db

def selectServers (db : RouterDb κ) (route : Route) : Option (List Server) :=
  db.services (getServiceKey hashing route)

def tableAfter (updates : List Update) : RouterDb κ :=
  Simulation.finalState (Update.apply hashing sdk) updates {}

end

variable (sdk : Sdk)

def Server.roleIds (server : Server) (type : ShardType) : List Int64 :=
  match server.isEdgeNode, type with
  | true, .follower => server.partitionList
  | true, _ => []
  | false, .leader => server.leaderIds
  | false, .follower => server.followerIds
  | false, .all => server.leaderIds ++ server.followerIds

def multiplicity (route : Route) (server : Server) : Nat :=
  if server.protocol = route.protocol ∧ sdk.serverDc server = route.dc then
    (server.roleIds route.type).count route.routeId
  else 0

def Hosts (route : Route) (server : Server) : Prop :=
  0 < multiplicity sdk route server

instance (route : Route) : DecidablePred (Hosts sdk route) := fun server =>
  inferInstanceAs (Decidable (0 < multiplicity sdk route server))

def hosting (route : Route) (picked : List Server) : Option (List Server) :=
  Grouping.nonEmpty (picked.filter fun server => Hosts sdk route server)

def updatesOf (serviceName : Bytes) (updates : List Update) : List Update :=
  updates.filter fun update => update.serviceName = serviceName

def latestHosting (updates : List Update) (route : Route) : Option (List Server) :=
  ((updatesOf route.serviceName updates).getLast?).bind fun update =>
    hosting sdk route (update.picked sdk)

def HostedBy (edge : Bool) (route : Route) (update : Update) : Prop :=
  ∃ server ∈ update.picked sdk, server.isEdgeNode = edge ∧ Hosts sdk route server

/-- No list before had the route on a shard server, unless an edge node had it then or later. -/
def Forgotten (earlier : List Update) (route : Route) : Prop :=
  ∀ before update after, earlier = before ++ update :: after →
    HostedBy sdk false route update → ∃ later ∈ update :: after, HostedBy sdk true route later

structure Unambiguous (route : Route) (update : Update) : Prop where
  once : ∀ server ∈ update.picked sdk, multiplicity sdk route server ≤ 1
  oneKind : ¬ (HostedBy sdk true route update ∧ HostedBy sdk false route update)

def Current (updates : List Update) (route : Route) : Prop :=
  ∀ earlier latest, updatesOf route.serviceName updates = earlier ++ [latest] →
    Unambiguous sdk route latest ∧
      (hosting sdk route (latest.picked sdk) = none → Forgotten sdk earlier route)

end LaserDB.Routing
