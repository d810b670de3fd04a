import LaserDB.Routing.LatestList

/-!
# Discovery of several routes at once

`batchDiscover` chooses a server once for each list of servers and knows a list by a hash of the
texts of its addresses.
-/

namespace LaserDB.Routing
open SeededHash (free)
open DecimalText Function Option List

structure ClientOption where
  serviceName : Bytes
  protocol : ServerProtocol
  shardType : ShardType
  dc : Bytes
  deriving DecidableEq, Repr

def Server.address (server : Server) : Bytes × UInt16 := (server.host, server.port)

/-- `folly::to<std::string>(host, port)` -/
def Server.addressText (server : Server) : Bytes :=
  server.host ++ print server.port.toNat

structure Balancer (σ : Type) where
  select : σ → List Server → Option Server × σ
  mem : ∀ {state list server}, (select state list).1 = some server → server ∈ list

def Balancer.Picks {σ : Type} (balancer : Balancer σ) : Prop :=
  ∀ state list, list ≠ [] → (balancer.select state list).1 ≠ none

/-- `LoadBalanceRoundrobin`, with its counter of requests. -/
def roundrobin : Balancer UInt64 where
  select requests list := (list[requests.toNat % list.length]?, requests + 1)
  mem := mem_of_getElem?

theorem roundrobin_picks : roundrobin.Picks := by
  intro requests list hlist hnone
  have hlength := Nat.mod_lt requests.toNat (length_pos_iff.mpr hlist)
  exact absurd (getElem?_eq_none_iff.mp hnone) (Nat.not_le.mpr hlength)

/-- The data centre that a client asks for; Go replaces an empty one. -/
def Sdk.optionDc (sdk : Sdk) (option : ClientOption) : Bytes :=
  match sdk with
  | .cpp => option.dc
  | .go => if option.dc = [] then defaultDc else option.dc

/-- The data centre in which several routes are looked up; C++ takes the default one. -/
def Sdk.batchDc (sdk : Sdk) (option : ClientOption) : Bytes :=
  match sdk with
  | .cpp => defaultDc
  | .go => sdk.optionDc option

section
variable {κ : Type} [DecidableEq κ] (hashing : SeededHash κ) (sdk : Sdk) (db : RouterDb κ)
  (option : ClientOption)

/-- `ServerList::getHashCode` -/
def serverListHash (list : List Server) : κ :=
  hashing.chain (list.map Server.addressText) (hashing.seed 0)

def discoverList (routeId : Int64) : Option (List Server) :=
  selectServers hashing db
    ⟨option.serviceName, option.protocol, routeId, option.shardType, sdk.optionDc option⟩

def batchList (routeId : Int64) : Option (List Server) :=
  selectServers hashing db
    ⟨option.serviceName, option.protocol, routeId, option.shardType, sdk.batchDc option⟩

/-- The loop of `batchDiscover`; `selected` has the server that was taken for each hash code. -/
def batchLoop {σ : Type} (balancer : Balancer σ) :
    List Int64 → (κ → Option (Option Server)) → σ → List (Int64 × Option Server)
  | [], _, _ => []
  | routeId :: routeIds, selected, state =>
    match batchList hashing sdk db option routeId with
    | none => (routeId, none) :: batchLoop balancer routeIds selected state
    | some list =>
      match selected (serverListHash hashing list) with
      | some server => (routeId, server) :: batchLoop balancer routeIds selected state
      | none =>
        let taken := balancer.select state list
        (routeId, taken.1) :: batchLoop balancer routeIds
          (update selected (serverListHash hashing list) (some taken.1)) taken.2

def batchDiscover {σ : Type} (balancer : Balancer σ) (state : σ) (routeIds : List Int64) :
    List (Int64 × Option Server) :=
  batchLoop hashing sdk db option balancer routeIds (fun _ => none) state

/-- Each route gets a server of the list that `discover` uses, and none if there is no list. -/
def Agrees (results : List (Int64 × Option Server)) : Prop :=
  ∀ result ∈ results,
    match discoverList hashing sdk db option result.1 with
    | none => result.2 = none
    | some list => ∃ server, result.2 = some server ∧ server.address ∈ list.map Server.address

/-- The first of the lists that has the texts of `list`. -/
def firstAlike (routeIds : List Int64) (list : List Server) : Option (List Server) :=
  (routeIds.filterMap (batchList hashing sdk db option)).find? fun other =>
    other.map Server.addressText = list.map Server.addressText

/-- A route is looked up in the batch if it is discovered, and the first list with the same texts
has only addresses that serve the route. -/
def Consistent (routeIds : List Int64) : Prop :=
  ∀ routeId ∈ routeIds,
    match batchList hashing sdk db option routeId with
    | none => discoverList hashing sdk db option routeId = none
    | some list => ∃ target, discoverList hashing sdk db option routeId = some target ∧
        ∀ first, firstAlike hashing sdk db option routeIds list = some first →
          ∀ server ∈ first, server.address ∈ target.map Server.address

def Populated : Prop :=
  ∀ key list, db.services key = some list → list ≠ []

end

section
variable {κ : Type} [DecidableEq κ] {hashing : SeededHash κ} {sdk : Sdk} {db : RouterDb κ}
  {option : ClientOption}

private def firstCoded (hashing : SeededHash κ) (sdk : Sdk) (db : RouterDb κ) (option : ClientOption)
    (routeIds : List Int64) (code : κ) : Option (List Server) :=
  (routeIds.filterMap (batchList hashing sdk db option)).find? fun list =>
    serverListHash hashing list = code

theorem firstCoded_append (before after : List Int64) (code : κ) :
    firstCoded hashing sdk db option (before ++ after) code =
      (firstCoded hashing sdk db option before code).or
        (firstCoded hashing sdk db option after code) := by
  rw [firstCoded, filterMap_append, find?_append]
  rfl

variable {routeId : Int64} {list : List Server}

theorem firstCoded_cons (hlist : batchList hashing sdk db option routeId = some list)
    (after : List Int64) :
    firstCoded hashing sdk db option (routeId :: after) (serverListHash hashing list) = some list := by
  rw [firstCoded, filterMap_cons_some hlist]
  exact find?_cons_of_pos (by simp)

private def TakenFrom {σ : Type} (hashing : SeededHash κ) (sdk : Sdk) (db : RouterDb κ)
    (option : ClientOption) (balancer : Balancer σ) (before : List Int64)
    (selected : κ → Option (Option Server)) : Prop :=
  ∀ code, match firstCoded hashing sdk db option before code with
    | none => selected code = none
    | some first => ∃ state, selected code = some (balancer.select state first).1

/-- What a route gets: nothing if it has no list, or what was taken from the first list with the
hash code of its own. -/
private def Resolved {σ : Type} (hashing : SeededHash κ) (sdk : Sdk) (db : RouterDb κ)
    (option : ClientOption) (balancer : Balancer σ) (routeIds : List Int64)
    (result : Int64 × Option Server) : Prop :=
  match batchList hashing sdk db option result.1 with
  | none => result.2 = none
  | some list => ∃ first state,
      firstCoded hashing sdk db option routeIds (serverListHash hashing list) = some first ∧
        result.2 = (balancer.select state first).1

variable {σ : Type} {balancer : Balancer σ} {before : List Int64}
  {selected : κ → Option (Option Server)}
  (htaken : TakenFrom hashing sdk db option balancer before selected)
include htaken

private theorem TakenFrom.skip
    (hknown : ∀ list, batchList hashing sdk db option routeId = some list →
      selected (serverListHash hashing list) ≠ none) :
    TakenFrom hashing sdk db option balancer (before ++ [routeId]) selected := by
  intro code
  have hcode := htaken code
  rw [firstCoded_append]
  cases hfirst : firstCoded hashing sdk db option before code with
  | some first =>
    rw [hfirst] at hcode
    exact hcode
  | none =>
    rw [hfirst] at hcode
    cases hlist : batchList hashing sdk db option routeId with
    | none => simpa [firstCoded, hlist] using hcode
    | some list =>
      have hother : serverListHash hashing list ≠ code := fun heq =>
        hknown list hlist (heq ▸ hcode)
      simpa [firstCoded, hlist, hother] using hcode

variable (hlist : batchList hashing sdk db option routeId = some list)
include hlist

private theorem TakenFrom.take (hnew : selected (serverListHash hashing list) = none) (state : σ) :
    TakenFrom hashing sdk db option balancer (before ++ [routeId])
      (update selected (serverListHash hashing list)
        (some (balancer.select state list).1)) := by
  intro code
  have hcode := htaken code
  rw [firstCoded_append]
  by_cases hown : code = serverListHash hashing list
  · subst hown
    cases hfirst : firstCoded hashing sdk db option before (serverListHash hashing list) with
    | some first =>
      rw [hfirst, hnew] at hcode
      obtain ⟨_, hcode⟩ := hcode
      cases hcode
    | none =>
      rw [firstCoded_cons hlist, update_self]
      exact ⟨state, rfl⟩
  · rw [update_of_ne hown]
    cases hfirst : firstCoded hashing sdk db option before code with
    | some first =>
      rw [hfirst] at hcode
      exact hcode
    | none =>
      rw [hfirst] at hcode
      simpa [firstCoded, hlist, Ne.symm hown] using hcode

theorem TakenFrom.resolved {after : List Int64} {server : Option Server}
    (hselected : selected (serverListHash hashing list) = some server) :
    Resolved hashing sdk db option balancer (before ++ after) (routeId, server) := by
  have hcode := htaken (serverListHash hashing list)
  rw [Resolved, hlist]
  dsimp only
  rw [firstCoded_append]
  cases hfirst : firstCoded hashing sdk db option before (serverListHash hashing list) with
  | none =>
    rw [hfirst, hselected] at hcode
    cases hcode
  | some first =>
    rw [hfirst] at hcode
    obtain ⟨state, hstate⟩ := hcode
    exact ⟨first, state, rfl, some.inj (hselected.symm.trans hstate)⟩

omit hlist

omit htaken

theorem resolved_batchLoop (balancer : Balancer σ) (before routeIds : List Int64)
    (selected : κ → Option (Option Server)) (state : σ)
    (htaken : TakenFrom hashing sdk db option balancer before selected) :
    (batchLoop hashing sdk db option balancer routeIds selected state).map Prod.fst = routeIds ∧
      ∀ result ∈ batchLoop hashing sdk db option balancer routeIds selected state,
        Resolved hashing sdk db option balancer (before ++ routeIds) result := by
  induction routeIds generalizing before selected state with
  | nil => exact ⟨rfl, fun _ hresult => by cases hresult⟩
  | cons routeId routeIds ih =>
    have hsplit : before ++ routeId :: routeIds = (before ++ [routeId]) ++ routeIds := by simp
    rw [hsplit, batchLoop]
    split
    · next hnone =>
        obtain ⟨hids, hrest⟩ := ih (before ++ [routeId]) selected state
          (htaken.skip fun list hlist => by rw [hnone] at hlist; cases hlist)
        refine ⟨congrArg _ hids, forall_mem_cons.mpr ⟨?_, hrest⟩⟩
        rw [Resolved, hnone]
    · next list hlist =>
        split
        · next server hselected =>
            obtain ⟨hids, hrest⟩ := ih (before ++ [routeId]) selected state
              (htaken.skip fun other hother => by
                obtain rfl := some.inj (hlist.symm.trans hother)
                rw [hselected]
                exact some_ne_none _)
            refine ⟨congrArg _ hids, forall_mem_cons.mpr ⟨?_, hrest⟩⟩
            rw [append_assoc]
            exact htaken.resolved hlist hselected
        · next hnew =>
            have hnext := htaken.take hlist hnew state
            obtain ⟨hids, hrest⟩ := ih (before ++ [routeId]) _ (balancer.select state list).2 hnext
            refine ⟨congrArg _ hids, forall_mem_cons.mpr ⟨?_, hrest⟩⟩
            exact hnext.resolved hlist (update_self ..)

theorem resolved_batchDiscover (balancer : Balancer σ) (state : σ) (routeIds : List Int64) :
    (batchDiscover hashing sdk db option balancer state routeIds).map Prod.fst = routeIds ∧
      ∀ result ∈ batchDiscover hashing sdk db option balancer state routeIds,
        Resolved hashing sdk db option balancer routeIds result :=
  resolved_batchLoop balancer [] routeIds _ state fun _ => rfl

theorem firstAlike_eq (hunseeded : hashing.Unseeded) (routeIds : List Int64) (list : List Server) :
    firstAlike hashing sdk db option routeIds list =
      firstCoded hashing sdk db option routeIds (serverListHash hashing list) := by
  have htexts (other : List Server) : serverListHash hashing other = serverListHash hashing list ↔
      other.map Server.addressText = list.map Server.addressText :=
    (SeededHash.chain_seed_injective hunseeded 0).eq_iff
  simp only [firstAlike, firstCoded, htexts]

private def preferring (server : Server) : Balancer Unit where
  select _ list := (if server ∈ list then some server else list.head?, ())
  mem := by
    intro _ list found hfound
    dsimp only at hfound
    split_ifs at hfound with hmem
    · exact some.inj hfound ▸ hmem
    · exact mem_of_head? hfound

theorem preferring_picks (server : Server) : (preferring server).Picks := by
  intro _ list hlist
  simp only [preferring]
  split_ifs
  · exact some_ne_none _
  · exact fun hnone => hlist (head?_eq_none_iff.mp hnone)

theorem firstAlike_ne_nil (hpopulated : Populated db) {routeIds : List Int64} {code : κ}
    {first : List Server} (hfirst : firstCoded hashing sdk db option routeIds code = some first) :
    first ≠ [] := by
  obtain ⟨routeId, -, hlist⟩ := mem_filterMap.mp (mem_of_find?_eq_some hfirst)
  exact hpopulated _ _ hlist

/-- For every balancer that takes a server from each list, the batch agrees with single discovery
exactly when the lists are consistent. -/
theorem agrees_batch_iff (hunseeded : hashing.Unseeded) (hpopulated : Populated db)
    (routeIds : List Int64) :
    (∀ (σ : Type) (balancer : Balancer σ) (state : σ), balancer.Picks →
      Agrees hashing sdk db option
        (batchDiscover hashing sdk db option balancer state routeIds)) ↔
      Consistent hashing sdk db option routeIds := by
  constructor
  · intro hagrees routeId hrouteId
    have hresult (server : Server) : ∃ result : Option Server,
        Resolved hashing sdk db option (preferring server) routeIds (routeId, result) ∧
        match discoverList hashing sdk db option routeId with
        | none => result = none
        | some list => ∃ server, result = some server ∧ server.address ∈ list.map Server.address := by
      obtain ⟨hids, hresolved⟩ := @resolved_batchDiscover κ _ hashing sdk db option _
        (preferring server) () routeIds
      rw [← hids] at hrouteId
      obtain ⟨⟨_, result⟩, hmem, rfl⟩ := mem_map.mp hrouteId
      exact ⟨result, hids ▸ hresolved _ hmem,
        hagrees Unit (preferring server) () (preferring_picks server) _ hmem⟩
    split
    · next hnone =>
        obtain ⟨result, hresolved, hagree⟩ := hresult (shardServer 0)
        rw [Resolved, hnone] at hresolved
        dsimp only at hresolved
        cases hdiscover : discoverList hashing sdk db option routeId with
        | none => rfl
        | some target =>
          rw [hdiscover] at hagree
          obtain ⟨server, hserver, -⟩ := hagree
          cases hresolved.symm.trans hserver
    · next list hlist =>
        have htaken (server : Server) {result : Option Server}
            (hresolved : Resolved hashing sdk db option (preferring server) routeIds
              (routeId, result)) :
            ∃ first, firstAlike hashing sdk db option routeIds list = some first ∧
              result = ((preferring server).select () first).1 := by
          rw [Resolved, hlist] at hresolved
          obtain ⟨first, _, hfirst, hresult⟩ := hresolved
          exact ⟨first, (firstAlike_eq hunseeded routeIds list).trans hfirst, hresult⟩
        cases hdiscover : discoverList hashing sdk db option routeId with
        | none =>
          obtain ⟨result, hresolved, hagree⟩ := hresult (shardServer 0)
          obtain ⟨first, hfirst, hselect⟩ := htaken _ hresolved
          rw [hdiscover] at hagree
          rw [firstAlike_eq hunseeded] at hfirst
          exact absurd (hselect.symm.trans hagree)
            (preferring_picks _ _ _ (firstAlike_ne_nil hpopulated hfirst))
        | some target =>
          refine ⟨target, rfl, fun first hfirst server hserver => ?_⟩
          obtain ⟨result, hresolved, hagree⟩ := hresult server
          obtain ⟨other, hother, hselect⟩ := htaken _ hresolved
          obtain rfl := some.inj (hfirst.symm.trans hother)
          rw [hdiscover] at hagree
          obtain ⟨found, hfound, haddress⟩ := hagree
          have hself : ((preferring server).select () first).1 = some server := if_pos hserver
          obtain rfl := some.inj (hself.symm.trans (hselect.symm.trans hfound))
          exact haddress
  · intro hconsistent σ balancer state hpicks result hresult
    obtain ⟨hids, hresolved⟩ := @resolved_batchDiscover κ _ hashing sdk db option _ balancer state
      routeIds
    have hmem : result.1 ∈ routeIds := hids ▸ mem_map_of_mem hresult
    have hroute := hconsistent result.1 hmem
    have hresolved := hresolved result hresult
    rw [Resolved] at hresolved
    split at hresolved
    · next hnone =>
        rw [hnone] at hroute
        dsimp only at hroute
        rw [hroute]
        exact hresolved
    · next list hlist =>
        rw [hlist] at hroute
        obtain ⟨target, htarget, hserve⟩ := hroute
        obtain ⟨first, taken, hfirst, hresult⟩ := hresolved
        obtain ⟨server, hserver⟩ := ne_none_iff_exists'.mp
          (hpicks taken first (firstAlike_ne_nil hpopulated hfirst))
        rw [htarget]
        refine ⟨server, hresult.trans hserver, hserve first ?_ server (balancer.mem hserver)⟩
        rw [firstAlike_eq hunseeded, hfirst]

end

theorem populated_tableAfter [DecidableEq κ] (hashing : SeededHash κ) (sdk : Sdk)
    (updates : List Update) : Populated (tableAfter hashing sdk updates) := by
  induction updates using reverseRecOn with
  | nil => exact fun _ _ hnone => by cases hnone
  | append_singleton updates update ih =>
    intro key list hlist
    rw [tableAfter_append, Update.apply_eq, updatePicked] at hlist
    dsimp only at hlist
    have hgroup {entries : List (κ × Server)} (hgroup : Grouping.groupAll entries key = some list) :
        list ≠ [] := by
      rw [Grouping.groupAll_eq] at hgroup
      rintro rfl
      cases hvalues : Grouping.valuesAt entries key <;> simp [hvalues, Grouping.nonEmpty] at hgroup
    rcases Sdk.overlay_eq_some hlist with hpartition | hshard | hrest
    · exact hgroup hpartition
    · exact hgroup hshard
    · split_ifs at hrest
      exact ih key list hrest

def pairUpdate : Update where
  serviceName := [115]
  list := [shardServer 1, { shardServer 2 with host := [98] }]
  now := 0
  ttlInMs := 3000
  nonempty := cons_ne_nil _ _

/-- Two routes of one shard and one of another, each shard on a server of its own. -/
theorem agrees_batch_shards :
    let option : ClientOption := ⟨[115], .thrift, .leader, defaultDc⟩
    let db := tableAfter free .cpp [pairUpdate]
    (batchDiscover free .cpp db option roundrobin 0 [1, 2, 1]).map
        (fun result => result.2.map Server.address) =
      [some ([97], 1), some ([98], 1), some ([97], 1)] ∧
    Agrees free .cpp db option (batchDiscover free .cpp db option roundrobin 0 [1, 2, 1]) := by
  intro option db
  have hserves {list : List Server} (hown : firstAlike free .cpp db option [1, 2, 1] list =
      some list) : ∀ first ∈ firstAlike free .cpp db option [1, 2, 1] list, ∀ server ∈ first,
        server.address ∈ list.map Server.address := by
    intro first hfirst server hserver
    obtain rfl := some.inj (hown.symm.trans hfirst)
    exact mem_map_of_mem hserver
  have hconsistent : Consistent free .cpp db option [1, 2, 1] := by
    simp only [Consistent, forall_mem_cons]
    refine ⟨?_, ?_, ?_, nofun⟩
    · exact ⟨[shardServer 1], by decide, hserves (by decide)⟩
    · exact ⟨[{ shardServer 2 with host := [98] }], by decide, hserves (by decide)⟩
    · exact ⟨[shardServer 1], by decide, hserves (by decide)⟩
  exact ⟨by decide, (agrees_batch_iff SeededHash.free_unseeded (populated_tableAfter _ _ _)
    [1, 2, 1]).mpr hconsistent UInt64 roundrobin 0 roundrobin_picks⟩

def alikeUpdate : Update where
  serviceName := [115]
  list :=
    [{ shardServer 1 with host := ascii "10.0.0.1".toList, port := 1234 },
      { shardServer 2 with host := ascii "10.0.0.11".toList, port := 234 }]
  now := 0
  ttlInMs := 3000
  nonempty := cons_ne_nil _ _

/-- The second shard is sent to the server of the first. -/
theorem agrees_batch_fails :
    let option : ClientOption := ⟨[115], .thrift, .leader, defaultDc⟩
    ∀ sdk : Sdk,
      (batchDiscover free sdk (tableAfter free sdk [alikeUpdate]) option
          roundrobin 0 [1, 2]).map (fun result => result.2.map Server.address) =
        [some (ascii "10.0.0.1".toList, 1234), some (ascii "10.0.0.1".toList, 1234)] ∧
      ¬ Agrees free sdk (tableAfter free sdk [alikeUpdate]) option
        (batchDiscover free sdk (tableAfter free sdk [alikeUpdate]) option
          roundrobin 0 [1, 2]) := by
  intro option sdk
  have hresults : batchDiscover free sdk (tableAfter free sdk [alikeUpdate])
      option roundrobin 0 [1, 2] =
        [(1, some { shardServer 1 with host := ascii "10.0.0.1".toList, port := 1234 }),
          (2, some { shardServer 1 with host := ascii "10.0.0.1".toList, port := 1234 })] := by
    cases sdk <;> decide
  have hlist : discoverList free sdk (tableAfter free sdk [alikeUpdate])
      option 2 = some [{ shardServer 2 with host := ascii "10.0.0.11".toList, port := 234 }] := by
    cases sdk <;> decide
  rw [hresults]
  refine ⟨rfl, fun hagrees => ?_⟩
  have hsecond := hagrees _ (mem_cons_of_mem _ mem_cons_self)
  rw [hlist] at hsecond
  obtain ⟨server, hserver, haddress⟩ := hsecond
  obtain rfl := some.inj hserver
  exact absurd haddress (by decide)

-- C++ looks for the routes of a batch in the default data centre only.
example :
    let option : ClientOption := ⟨[115], .thrift, .leader, [98, 106]⟩
    let db := tableAfter SeededHash.free .cpp
      [{ shardUpdate 1 with list := [{ shardServer 1 with dc := [98, 106] }],
                            nonempty := cons_ne_nil _ _ }]
    (discoverList SeededHash.free .cpp db option 1).isSome = true ∧
      batchDiscover SeededHash.free .cpp db option roundrobin 0 [1] = [(1, none)] := by
  decide

end LaserDB.Routing
