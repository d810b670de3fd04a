import LaserDB.Routing.RouterDb

/-!
# The table after updates

A route is to be answered from the latest list of its service.
-/

namespace LaserDB.Routing
open Grouping Function

variable (serviceName : Bytes)

section
variable {κ : Type} {hashing : SeededHash κ} {sdk : Sdk}

theorem toStringServerProtocol_injective : Function.Injective toStringServerProtocol := by
  intro left right heq
  cases left <;> cases right <;> first | rfl | exact absurd heq (by decide)

theorem toStringShardType_injective : Function.Injective toStringShardType := by
  intro left right heq
  cases left <;> cases right <;> first | rfl | exact absurd heq (by decide)

theorem getServiceKey_injective : Function.Injective (getServiceKey hashing) := by
  rintro ⟨leftName, leftProtocol, leftId, leftType, leftDc⟩
    ⟨rightName, rightProtocol, rightId, rightType, rightDc⟩ heq
  rw [getServiceKey, getServiceKey] at heq
  obtain ⟨hstrings, hseed⟩ := SeededHash.chain_injective (by rfl) heq
  simp only [List.cons.injEq, and_true] at hstrings
  obtain ⟨rfl, rfl, hprotocol, htype⟩ := hstrings
  obtain rfl := toStringServerProtocol_injective hprotocol
  obtain rfl := toStringShardType_injective htype
  obtain rfl := hashing.seed_injective hseed
  rfl

theorem entry_eq_iff (server : Server) (type : ShardType) (routeId : Int64) (route : Route) :
    (entry hashing sdk serviceName server type routeId).1 = getServiceKey hashing route ↔
      (serviceName = route.serviceName ∧ server.protocol = route.protocol ∧
        sdk.serverDc server = route.dc) ∧ type = route.type ∧ routeId = route.routeId := by
  rw [entry, getServiceKey_injective.eq_iff]
  obtain ⟨routeName, routeProtocol, id, routeType, routeDc⟩ := route
  simp only [Route.mk.injEq]
  tauto

variable [DecidableEq κ]

def entriesAt (hashing : SeededHash κ) (route : Route) (entries : List (κ × Server)) : Nat :=
  entries.countP fun entry => entry.1 = getServiceKey hashing route

theorem entriesAt_map_entry (server : Server) (type : ShardType) (ids : List Int64)
    (route : Route) :
    entriesAt hashing route (ids.map (entry hashing sdk serviceName server type)) =
      if (serviceName = route.serviceName ∧ server.protocol = route.protocol ∧
          sdk.serverDc server = route.dc) ∧ type = route.type then
        ids.count route.routeId else 0 := by
  rw [entriesAt, List.countP_map, List.count_eq_countP]
  simp only [comp_def, entry_eq_iff]
  split_ifs with hroute
  · simp [hroute, beq_eq_decide]
  · refine List.countP_eq_zero.mpr fun id _ => ?_
    simp only [decide_eq_true_eq]
    exact fun h => hroute ⟨h.1, h.2.1⟩

theorem entriesAt_pairs (first second : Int64 → κ × Server) (ids : List Int64) (route : Route) :
    entriesAt hashing route (ids.flatMap fun id => [first id, second id]) =
      entriesAt hashing route (ids.map first) + entriesAt hashing route (ids.map second) := by
  induction ids with
  | nil => rfl
  | cons id ids ih =>
    simp only [entriesAt, List.flatMap_cons, List.map_cons, List.countP_append, List.countP_cons,
      List.countP_nil] at ih ⊢
    omega

theorem entriesAt_partitionEntries (server : Server) (route : Route) :
    entriesAt hashing route (partitionEntries hashing sdk serviceName server) =
      if serviceName = route.serviceName ∧ server.isEdgeNode = true then
        multiplicity sdk route server else 0 := by
  cases hedge : server.isEdgeNode with
  | false => simp [partitionEntries, hedge, entriesAt]
  | true =>
    rw [partitionEntries, if_pos hedge, entriesAt_map_entry]
    cases htype : route.type <;> simp [multiplicity, Server.roleIds, hedge, htype, ite_and]

theorem entriesAt_shardEntries (server : Server) (route : Route) :
    entriesAt hashing route (shardEntries hashing sdk serviceName server) =
      if serviceName = route.serviceName ∧ server.isEdgeNode = false then
        multiplicity sdk route server else 0 := by
  cases hedge : server.isEdgeNode with
  | true => simp [shardEntries, hedge, entriesAt]
  | false =>
    have happend (left right : List (κ × Server)) : entriesAt hashing route (left ++ right) =
      entriesAt hashing route left + entriesAt hashing route right := List.countP_append ..
    rw [shardEntries, if_neg (by simp [hedge]), happend, entriesAt_pairs, entriesAt_pairs]
    simp only [entriesAt_map_entry]
    cases htype : route.type <;>
      simp [multiplicity, Server.roleIds, hedge, htype, ite_and, List.count_append]
    split_ifs <;> rfl

theorem valuesAt_eq_replicate {server : Server} {entries : List (κ × Server)}
    (hserver : ∀ entry ∈ entries, entry.2 = server) (route : Route) :
    valuesAt entries (getServiceKey hashing route) =
      List.replicate (entriesAt hashing route entries) server := by
  refine List.eq_replicate_iff.mpr ⟨?_, fun value hvalue => ?_⟩
  · rw [valuesAt, List.length_map, entriesAt, List.countP_eq_length_filter]
  · obtain ⟨entry, hentry, rfl⟩ := List.mem_map.mp hvalue
    exact hserver entry (List.mem_of_mem_filter hentry)

end

variable {route : Route} {picked : List Server} {edge : Bool}

section
variable {sdk : Sdk}

def kindCount (sdk : Sdk) (edge : Bool) (route : Route) (server : Server) : Nat :=
  if server.isEdgeNode = edge then multiplicity sdk route server else 0

def ofKind (sdk : Sdk) (edge : Bool) (route : Route) (picked : List Server) : List Server :=
  repeated (kindCount sdk edge route) picked

theorem mem_ofKind {server : Server} :
    server ∈ ofKind sdk edge route picked ↔
      server ∈ picked ∧ server.isEdgeNode = edge ∧ Hosts sdk route server := by
  rw [ofKind, mem_repeated, kindCount, Hosts]
  split_ifs with hedge <;> simp [hedge]

theorem ofKind_eq_filter_iff (hother : ofKind sdk (!edge) route picked = []) :
    ofKind sdk edge route picked = picked.filter (fun server => Hosts sdk route server) ↔
      ∀ server ∈ picked, multiplicity sdk route server ≤ 1 := by
  have hcount : ∀ server ∈ picked,
      kindCount sdk edge route server = multiplicity sdk route server := by
    intro server hserver
    have hzero := repeated_eq_nil.mp hother server hserver
    unfold kindCount at hzero ⊢
    by_cases hkind : server.isEdgeNode = edge
    · rw [if_pos hkind]
    · rw [if_neg hkind, ← hzero, if_pos (Bool.eq_not_of_ne hkind)]
  rw [ofKind, repeated_congr hcount]
  exact repeated_eq_filter_iff picked

theorem overlay_ofKind_iff {written : Option (List Server)}
    (hkind : ofKind sdk edge route picked ≠ []) (hother : ofKind sdk (!edge) route picked = [])
    (hwritten : written = some (ofKind sdk edge route picked)) :
    written = hosting sdk route picked ↔ ∀ server ∈ picked, multiplicity sdk route server ≤ 1 := by
  rw [← ofKind_eq_filter_iff hother, hwritten, ← nonEmpty_of_ne_nil hkind, hosting]
  exact nonEmpty_injective.eq_iff

theorem hosting_eq_none_iff :
    hosting sdk route picked = none ↔
      ofKind sdk true route picked = [] ∧ ofKind sdk false route picked = [] := by
  simp only [hosting, nonEmpty_eq_none, List.eq_nil_iff_forall_not_mem, mem_ofKind, List.mem_filter,
    decide_eq_true_eq]
  constructor
  · exact fun hnone => ⟨fun server h => hnone server ⟨h.1, h.2.2⟩,
      fun server h => hnone server ⟨h.1, h.2.2⟩⟩
  · rintro ⟨hedges, hshards⟩ server ⟨hserver, hhosts⟩
    cases hedge : server.isEdgeNode with
    | true => exact hedges server ⟨hserver, hedge, hhosts⟩
    | false => exact hshards server ⟨hserver, hedge, hhosts⟩

theorem overlay_eq_hosting_iff (route : Route) (picked : List Server)
    (rest : Option (List Server)) :
    sdk.overlay (nonEmpty (ofKind sdk true route picked)) (nonEmpty (ofKind sdk false route picked))
        rest = hosting sdk route picked ↔
      ((∀ server ∈ picked, multiplicity sdk route server ≤ 1) ∧
        ¬ (ofKind sdk true route picked ≠ [] ∧ ofKind sdk false route picked ≠ [])) ∧
      (hosting sdk route picked = none → rest = none) := by
  by_cases hedges : ofKind sdk true route picked = [] <;>
    by_cases hshards : ofKind sdk false route picked = []
  · have hnone := hosting_eq_none_iff.mpr ⟨hedges, hshards⟩
    have hfilter := (ofKind_eq_filter_iff hedges).mp
      (hshards.trans (nonEmpty_eq_none.mp hnone).symm)
    have hrest : sdk.overlay (nonEmpty ([] : List Server)) (nonEmpty []) rest = rest := by
      cases sdk <;> simp [Sdk.overlay, nonEmpty]
    rw [hedges, hshards, hrest, hnone]
    simpa using fun _ => hfilter
  · have hwritten : sdk.overlay (nonEmpty (ofKind sdk true route picked))
        (nonEmpty (ofKind sdk false route picked)) rest = some (ofKind sdk false route picked) := by
      rw [hedges, nonEmpty_of_ne_nil hshards]
      cases sdk <;> simp [Sdk.overlay, nonEmpty]
    rw [overlay_ofKind_iff hshards hedges hwritten]
    simp [hedges, hosting_eq_none_iff, hshards]
  · have hwritten : sdk.overlay (nonEmpty (ofKind sdk true route picked))
        (nonEmpty (ofKind sdk false route picked)) rest = some (ofKind sdk true route picked) := by
      rw [hshards, nonEmpty_of_ne_nil hedges]
      cases sdk <;> simp [Sdk.overlay, nonEmpty]
    rw [overlay_ofKind_iff hedges hshards hwritten]
    simp [hshards, hosting_eq_none_iff, hedges]
  · refine iff_of_false (fun heq => ?_) fun hall => hall.1.2 ⟨hedges, hshards⟩
    -- Only one kind is written, so a server of the other kind is missing.
    obtain ⟨edge, hedge⟩ := List.exists_mem_of_ne_nil _ hedges
    obtain ⟨shard, hshard⟩ := List.exists_mem_of_ne_nil _ hshards
    have hhosting {server : Server} {kind : Bool} (hserver : server ∈ ofKind sdk kind route picked) :
        server ∈ picked.filter fun server => Hosts sdk route server := by
      obtain ⟨hmem, -, hhosts⟩ := mem_ofKind.mp hserver
      exact List.mem_filter.mpr ⟨hmem, by simpa using hhosts⟩
    rw [hosting, nonEmpty_of_ne_nil (List.ne_nil_of_mem (hhosting hedge)), nonEmpty_of_ne_nil hedges,
      nonEmpty_of_ne_nil hshards] at heq
    cases sdk with
    | cpp =>
      have hmem := hhosting hshard
      rw [← Option.some.inj heq] at hmem
      exact absurd ((mem_ofKind.mp hmem).2.1.symm.trans (mem_ofKind.mp hshard).2.1) (by decide)
    | go =>
      have hmem := hhosting hedge
      rw [← Option.some.inj heq] at hmem
      exact absurd ((mem_ofKind.mp hmem).2.1.symm.trans (mem_ofKind.mp hedge).2.1) (by decide)

end

variable (updates : List Update)

section
variable {κ : Type} (hashing : SeededHash κ) (sdk : Sdk)

def leftOver (db : RouterDb κ) (route : Route) : Option (List Server) :=
  if db.lastPartitionKeys route.serviceName (getServiceKey hashing route) then none
  else selectServers hashing db route

def OwnKeys (db : RouterDb κ) : Prop :=
  ∀ serviceName route, route.serviceName ≠ serviceName →
    db.lastPartitionKeys serviceName (getServiceKey hashing route) = false

variable {hashing sdk}

theorem snd_partitionEntries (server : Server) :
    ∀ entry ∈ partitionEntries hashing sdk serviceName server, entry.2 = server := by
  intro found hfound
  unfold partitionEntries at hfound
  split_ifs at hfound
  · obtain ⟨id, -, rfl⟩ := List.mem_map.mp hfound
    rfl
  · cases hfound

theorem snd_shardEntries (server : Server) :
    ∀ entry ∈ shardEntries hashing sdk serviceName server, entry.2 = server := by
  intro found hfound
  unfold shardEntries at hfound
  split_ifs at hfound
  · cases hfound
  · rcases List.mem_append.mp hfound with hleader | hfollower
    · obtain ⟨id, -, hpair⟩ := List.mem_flatMap.mp hleader
      rcases List.mem_pair.mp hpair with rfl | rfl <;> rfl
    · obtain ⟨id, -, hpair⟩ := List.mem_flatMap.mp hfollower
      rcases List.mem_pair.mp hpair with rfl | rfl <;> rfl

variable [DecidableEq κ]

theorem groupAll_servers {entries : Server → List (κ × Server)} {count : Server → Nat}
    (hserver : ∀ server, ∀ entry ∈ entries server, entry.2 = server)
    (hcount : ∀ server, entriesAt hashing route (entries server) = count server) :
    groupAll (picked.flatMap entries) (getServiceKey hashing route) =
      nonEmpty (repeated count picked) := by
  rw [groupAll_eq, valuesAt_flatMap, repeated]
  congr 2
  funext server
  rw [valuesAt_eq_replicate (hserver server), hcount]

theorem groupAll_same (route : Route) (picked : List Server) :
    groupAll (picked.flatMap (partitionEntries hashing sdk route.serviceName))
        (getServiceKey hashing route) = nonEmpty (ofKind sdk true route picked) ∧
      groupAll (picked.flatMap (shardEntries hashing sdk route.serviceName))
        (getServiceKey hashing route) = nonEmpty (ofKind sdk false route picked) := by
  constructor
  · refine groupAll_servers (snd_partitionEntries _) fun server => ?_
    rw [entriesAt_partitionEntries, kindCount]
    exact if_congr (and_iff_right rfl) rfl rfl
  · refine groupAll_servers (snd_shardEntries _) fun server => ?_
    rw [entriesAt_shardEntries, kindCount]
    exact if_congr (and_iff_right rfl) rfl rfl

theorem groupAll_other {serviceName : Bytes} (hother : route.serviceName ≠ serviceName)
    (picked : List Server) :
    groupAll (picked.flatMap (partitionEntries hashing sdk serviceName))
        (getServiceKey hashing route) = none ∧
      groupAll (picked.flatMap (shardEntries hashing sdk serviceName))
        (getServiceKey hashing route) = none := by
  have hnone : nonEmpty (repeated (fun _ => 0) picked) = none :=
    nonEmpty_eq_none.mpr (repeated_eq_nil.mpr fun _ _ => rfl)
  constructor
  · refine (groupAll_servers (snd_partitionEntries _) fun server => ?_).trans hnone
    rw [entriesAt_partitionEntries, if_neg fun h => hother h.1.symm]
  · refine (groupAll_servers (snd_shardEntries _) fun server => ?_).trans hnone
    rw [entriesAt_shardEntries, if_neg fun h => hother h.1.symm]

variable (update : Update)

variable (db : RouterDb κ)

theorem Update.apply_eq :
    update.apply hashing sdk db = updatePicked hashing sdk update.serviceName (update.picked sdk) db :=
  if_neg fun h => update.nonempty h.2

theorem selectServers_same (hservice : update.serviceName = route.serviceName) :
    selectServers hashing (update.apply hashing sdk db) route =
      sdk.overlay (nonEmpty (ofKind sdk true route (update.picked sdk)))
        (nonEmpty (ofKind sdk false route (update.picked sdk))) (leftOver hashing db route) := by
  obtain ⟨hpartition, hshard⟩ := @groupAll_same κ hashing sdk _ route (update.picked sdk)
  rw [Update.apply_eq, hservice, selectServers, updatePicked]
  dsimp only
  rw [hpartition, hshard]
  rfl

theorem lastPartitionKeys_same (hservice : update.serviceName = route.serviceName) :
    (update.apply hashing sdk db).lastPartitionKeys route.serviceName (getServiceKey hashing route) =
      (nonEmpty (ofKind sdk true route (update.picked sdk))).isSome := by
  rw [Update.apply_eq, hservice, updatePicked]
  dsimp only
  rw [update_self, (groupAll_same route (update.picked sdk)).1]

theorem selectServers_other {db : RouterDb κ} (hown : OwnKeys hashing db)
    (hservice : update.serviceName ≠ route.serviceName) :
    selectServers hashing (update.apply hashing sdk db) route = selectServers hashing db route ∧
      leftOver hashing (update.apply hashing sdk db) route = leftOver hashing db route := by
  obtain ⟨hpartition, hshard⟩ :=
    @groupAll_other route κ hashing sdk _ update.serviceName hservice.symm (update.picked sdk)
  have hselect : selectServers hashing (update.apply hashing sdk db) route =
      selectServers hashing db route := by
    rw [Update.apply_eq, selectServers, updatePicked]
    dsimp only
    rw [hpartition, hshard, hown _ _ hservice.symm]
    cases sdk <;> rfl
  have hkeys : (update.apply hashing sdk db).lastPartitionKeys route.serviceName =
      db.lastPartitionKeys route.serviceName := by
    rw [Update.apply_eq]
    exact update_of_ne hservice.symm _ _
  refine ⟨hselect, ?_⟩
  rw [leftOver, leftOver, hselect, hkeys]

theorem OwnKeys.apply {db : RouterDb κ} (hown : OwnKeys hashing db) :
    OwnKeys hashing (update.apply hashing sdk db) := by
  intro serviceName route hroute
  rw [Update.apply_eq, updatePicked]
  dsimp only
  by_cases hservice : serviceName = update.serviceName
  · subst hservice
    rw [update_self, (groupAll_other hroute (update.picked sdk)).1]
    rfl
  · rw [update_of_ne hservice]
    exact hown serviceName route hroute

theorem tableAfter_append :
    tableAfter hashing sdk (updates ++ [update]) =
      update.apply hashing sdk (tableAfter hashing sdk updates) :=
  Simulation.finalState_append _ updates [update] _

theorem ownKeys_tableAfter : OwnKeys hashing (tableAfter hashing sdk updates) := by
  induction updates using List.reverseRecOn with
  | nil => exact fun _ _ _ => rfl
  | append_singleton updates update ih =>
    rw [tableAfter_append]
    exact ih.apply update

theorem hostedBy_iff {update : Update} :
    HostedBy sdk edge route update ↔ ofKind sdk edge route (update.picked sdk) ≠ [] := by
  constructor
  · rintro ⟨server, hserver⟩
    exact List.ne_nil_of_mem (mem_ofKind.mpr hserver)
  · intro hkind
    obtain ⟨server, hserver⟩ := List.exists_mem_of_ne_nil _ hkind
    exact ⟨server, mem_ofKind.mp hserver⟩

theorem updatesOf_append (update : Update) :
    updatesOf serviceName (updates ++ [update]) =
      if update.serviceName = serviceName then updatesOf serviceName updates ++ [update]
      else updatesOf serviceName updates := by
  rw [updatesOf, updatesOf, List.filter_append, List.filter_singleton]
  split_ifs <;> simp_all

theorem forgotten_append_iff (earlier : List Update) (update : Update) (route : Route) :
    Forgotten sdk (earlier ++ [update]) route ↔ HostedBy sdk true route update ∨
        (¬ HostedBy sdk false route update ∧ Forgotten sdk earlier route) := by
  constructor
  · intro hforgotten
    by_cases hedge : HostedBy sdk true route update
    · exact .inl hedge
    · refine .inr ⟨fun hshard => ?_, fun before other after hsplit hother => ?_⟩
      · obtain ⟨later, hlater, hhosted⟩ := hforgotten earlier update [] rfl hshard
        exact hedge (List.mem_singleton.mp hlater ▸ hhosted)
      · obtain ⟨later, hlater, hhosted⟩ :=
          hforgotten before other (after ++ [update]) (by rw [hsplit]; simp) hother
        rw [← List.cons_append, List.mem_append, List.mem_singleton] at hlater
        rcases hlater with hlater | rfl
        · exact ⟨later, hlater, hhosted⟩
        · exact absurd hhosted hedge
  · intro hcases before other after hsplit hother
    rcases List.eq_nil_or_concat' after with rfl | ⟨rest, last, rfl⟩
    · obtain ⟨rfl, hlast⟩ := List.append_inj' hsplit rfl
      obtain rfl := List.singleton_inj.mp hlast
      exact ⟨update, List.mem_singleton_self _, hcases.resolve_right fun hnone => hnone.1 hother⟩
    · rw [← List.cons_append, ← List.append_assoc] at hsplit
      obtain ⟨rfl, hlast⟩ := List.append_inj' hsplit rfl
      obtain rfl := List.singleton_inj.mp hlast
      rcases hcases with hedge | ⟨-, hforgotten⟩
      · exact ⟨update, by simp, hedge⟩
      · obtain ⟨later, hlater, hhosted⟩ := hforgotten before other rest rfl hother
        exact ⟨later, by rw [← List.cons_append]; exact List.mem_append_left _ hlater, hhosted⟩

theorem leftOver_eq_none_iff (route : Route) :
    leftOver hashing (tableAfter hashing sdk updates) route = none ↔
      Forgotten sdk (updatesOf route.serviceName updates) route := by
  induction updates using List.reverseRecOn with
  | nil => exact iff_of_true rfl fun before update after hsplit => by simp [updatesOf] at hsplit
  | append_singleton updates update ih =>
    rw [tableAfter_append, updatesOf_append]
    by_cases hservice : update.serviceName = route.serviceName
    · rw [if_pos hservice, forgotten_append_iff, hostedBy_iff, hostedBy_iff, ← ih, leftOver,
        lastPartitionKeys_same _ _ hservice, selectServers_same _ _ hservice]
      by_cases hedges : ofKind sdk true route (update.picked sdk) = []
      · by_cases hshards : ofKind sdk false route (update.picked sdk) = []
        · rw [hedges, hshards]
          cases sdk <;> simp [Sdk.overlay, nonEmpty]
        · rw [hedges, nonEmpty_of_ne_nil hshards]
          cases sdk <;> simp [Sdk.overlay, nonEmpty, hshards]
      · rw [nonEmpty_of_ne_nil hedges]
        simp [hedges]
    · rw [if_neg hservice, (selectServers_other update (ownKeys_tableAfter updates) hservice).2, ih]

end

section
variable {κ : Type} [DecidableEq κ] (hashing : SeededHash κ) (sdk : Sdk)

/-- A route is answered from the latest list of its service, and from no other service's. -/
structure Follows (updates : List Update) (route : Route) : Prop where
  latest : selectServers hashing (tableAfter hashing sdk updates) route =
    latestHosting sdk updates route
  isolated : ∀ update : Update, update.serviceName ≠ route.serviceName →
    selectServers hashing (tableAfter hashing sdk (updates ++ [update])) route =
      selectServers hashing (tableAfter hashing sdk updates) route

variable {hashing sdk}

theorem latest_iff (route : Route) :
    selectServers hashing (tableAfter hashing sdk updates) route = latestHosting sdk updates route ↔
      Current sdk updates route := by
  induction updates using List.reverseRecOn with
  | nil => exact iff_of_true rfl fun earlier latest hsplit => by simp [updatesOf] at hsplit
  | append_singleton updates update ih =>
    by_cases hservice : update.serviceName = route.serviceName
    · have hlatest : latestHosting sdk (updates ++ [update]) route =
          hosting sdk route (update.picked sdk) := by
        rw [latestHosting, updatesOf_append, if_pos hservice, List.getLast?_concat]
        rfl
      have hcurrent : Current sdk (updates ++ [update]) route ↔
          Unambiguous sdk route update ∧ (hosting sdk route (update.picked sdk) = none →
            Forgotten sdk (updatesOf route.serviceName updates) route) := by
        rw [Current, updatesOf_append, if_pos hservice]
        constructor
        · exact fun hall => hall _ _ rfl
        · intro hboth earlier latest hsplit
          obtain ⟨rfl, hlast⟩ := List.append_inj' hsplit rfl
          obtain rfl := List.singleton_inj.mp hlast
          exact hboth
      have hunambiguous : Unambiguous sdk route update ↔
          (∀ server ∈ update.picked sdk, multiplicity sdk route server ≤ 1) ∧
            ¬ (ofKind sdk true route (update.picked sdk) ≠ [] ∧
              ofKind sdk false route (update.picked sdk) ≠ []) := by
        rw [← hostedBy_iff, ← hostedBy_iff]
        exact ⟨fun h => ⟨h.once, h.oneKind⟩, fun h => ⟨h.1, h.2⟩⟩
      rw [tableAfter_append, selectServers_same _ _ hservice, hlatest, hcurrent, hunambiguous,
        overlay_eq_hosting_iff, leftOver_eq_none_iff]
    · have hsame : updatesOf route.serviceName (updates ++ [update]) =
          updatesOf route.serviceName updates := by
        rw [updatesOf_append, if_neg hservice]
      rw [tableAfter_append,
        (selectServers_other update (ownKeys_tableAfter updates) hservice).1, latestHosting, hsame,
        Current, hsame]
      exact ih

/-- The table follows the latest list of a service exactly when that list is unambiguous about the
route and, if it does not have the route, nothing is left of earlier lists. -/
theorem follows_iff (updates : List Update) (route : Route) :
    Follows hashing sdk updates route ↔ Current sdk updates route := by
  refine ⟨fun hfollows => (latest_iff updates route).mp hfollows.latest, fun hcurrent =>
    ⟨(latest_iff updates route).mpr hcurrent, fun update hservice => ?_⟩⟩
  rw [tableAfter_append]
  exact (selectServers_other update (ownKeys_tableAfter updates) hservice).1

end

def shardServer (shardId : UInt32) : Server where
  host := [97]
  port := 1
  protocol := .thrift
  status := .available
  dc := defaultDc
  updateTime := 0
  shardList := [shardId]
  availableShardList := [shardId]
  followerShardList := []
  followerAvailableShardList := []
  isEdgeNode := false
  partitionList := []

def shardUpdate (shardId : UInt32) : Update where
  serviceName := [115]
  list := [shardServer shardId]
  now := 0
  ttlInMs := 3000
  nonempty := List.cons_ne_nil _ _

/-- A shard that no server leads any more is still answered. -/
theorem follows_moved_fails :
    let route : Route := ⟨[115], .thrift, 1, .leader, defaultDc⟩
    let updates := [shardUpdate 1, shardUpdate 2]
    ∀ sdk : Sdk, selectServers SeededHash.free (tableAfter SeededHash.free sdk updates) route =
          some [shardServer 1] ∧
        latestHosting sdk updates route = none ∧ ¬ Follows SeededHash.free sdk updates route := by
  intro route updates sdk
  have hselect : selectServers SeededHash.free (tableAfter SeededHash.free sdk updates) route =
      some [shardServer 1] := by
    cases sdk <;> decide
  have hlatest : latestHosting sdk updates route = none := by cases sdk <;> decide
  refine ⟨hselect, hlatest, fun hfollows => ?_⟩
  have hsame := hfollows.latest
  rw [hselect, hlatest] at hsame
  cases hsame

/-- Some list that the service published has all these servers for the route. -/
def Published (sdk : Sdk) (updates : List Update) (route : Route) (list : List Server) : Prop :=
  list ≠ [] ∧ ∃ update ∈ updates, update.serviceName = route.serviceName ∧
    ∀ server ∈ list, server ∈ update.picked sdk ∧ Hosts sdk route server

/-- What the table keeps of earlier lists is still a list of the same service. -/
theorem published_of_selected [DecidableEq κ] (hashing : SeededHash κ) {sdk : Sdk}
    {updates : List Update} {route : Route} {list : List Server}
    (hlist : selectServers hashing (tableAfter hashing sdk updates) route = some list) :
    Published sdk updates route list := by
  induction updates using List.reverseRecOn with
  | nil => cases hlist
  | append_singleton updates update ih =>
    have hlater (hold : selectServers hashing (tableAfter hashing sdk updates) route = some list) :
        Published sdk (updates ++ [update]) route list := by
      obtain ⟨hne, source, hsource, hservers⟩ := ih hold
      exact ⟨hne, source, List.mem_append_left _ hsource, hservers⟩
    rw [tableAfter_append] at hlist
    by_cases hservice : update.serviceName = route.serviceName
    · have hnew {edge : Bool} (hkind : nonEmpty (ofKind sdk edge route (update.picked sdk)) = some list) :
          Published sdk (updates ++ [update]) route list := by
        by_cases hnil : ofKind sdk edge route (update.picked sdk) = []
        · rw [nonEmpty_eq_none.mpr hnil] at hkind
          cases hkind
        · obtain rfl := Option.some.inj ((nonEmpty_of_ne_nil hnil).symm.trans hkind)
          refine ⟨hnil, update, by simp, hservice, fun server hserver => ?_⟩
          exact (mem_ofKind.mp hserver).imp_right And.right
      rw [selectServers_same _ _ hservice] at hlist
      rcases Sdk.overlay_eq_some hlist with hedge | hshard | hold
      · exact hnew hedge
      · exact hnew hshard
      · rw [leftOver] at hold
        split at hold
        · cases hold
        · exact hlater hold
    · rw [(selectServers_other update (ownKeys_tableAfter updates) hservice).1] at hlist
      exact hlater hlist

theorem published_moved :
    Published .go [shardUpdate 1, shardUpdate 2] ⟨[115], .thrift, 1, .leader, defaultDc⟩
      [shardServer 1] :=
  published_of_selected SeededHash.free (by decide)

end LaserDB.Routing
