import LaserDB.Service.MultiKey

/-!
# The traffic restriction of requests on many keys

A request is measured by the table of its first key, so a key of a table that forbids the command
gets through behind a key of another table, and the other way round.
-/

namespace LaserDB
open Option List

namespace LaserService
variable {ε : Type} [DecidableEq ε] (service : LaserService ε)

def Forbidden (command : Command) (key : TableKey) : Prop :=
  ∃ restriction, service.tableRestriction key = some restriction ∧
    (restriction.denyAll = true ∨ restriction.multipleOperationLimits command = none)

def Unrestricted (key : TableKey) : Prop := service.tableRestriction key = none

def Touched (keys : List TableKey) (command : Command) (random : UInt32)
    (randoms : Nat → UInt32) (index : Nat) : Prop :=
  ∃ tasks, service.dispatchRequest keys command random randoms = .ok tasks ∧
    ∃ task ∈ tasks, ∃ item ∈ task.2, item.index = index ∧ item.key ≠ none

/-- The request, or its position, is refused by the traffic restriction. -/
def Refused (keys : List TableKey) (command : Command) (random : UInt32)
    (randoms : Nat → UInt32) (index : Nat) : Prop :=
  (∃ status, service.dispatchRequest keys command random randoms = .error status) ∨
    ∃ tasks, service.dispatchRequest keys command random randoms = .ok tasks ∧
      ∃ task ∈ tasks, ∃ item ∈ task.2, item.index = index ∧ item.key = none

/-- What `folly::Random::rand32(1, 101)` can draw. -/
def Drawn (random : UInt32) : Prop := 1 ≤ random ∧ random ≤ 100

/-- Whatever is drawn, no key of a forbidden table is touched, and no key of an
unrestricted table is refused. -/
def RestrictionHolds (keys : List TableKey) (command : Command) : Prop :=
  ∀ random randoms, Drawn random → (∀ index, Drawn (randoms index)) →
    ∀ index key, keys[index]? = some key →
      (service.Forbidden command key → ¬service.Touched keys command random randoms index) ∧
      (service.Unrestricted key → ¬service.Refused keys command random randoms index)

/-- The restriction that a request is measured by. -/
def firstRestriction (keys : List TableKey) : Option TableTrafficRestrictionConfig :=
  service.tableRestriction (keys.headD ⟨[], [], ⟨[], []⟩⟩)

/-- The table of the first key lets some of the command through. -/
def FirstPasses (keys : List TableKey) (command : Command) : Prop :=
  ∀ restriction ∈ service.firstRestriction keys, restriction.denyAll = false ∧
    ∃ limit ∈ restriction.multipleOperationLimits command, 1 ≤ limit.limit

/-- The table of the first key turns some requests away as a whole. -/
def FirstRefuses (keys : List TableKey) (command : Command) : Prop :=
  ∃ restriction ∈ service.firstRestriction keys, restriction.denyAll = true ∨
    ∀ limit ∈ restriction.multipleOperationLimits command, limit.type = .QPS ∧ limit.limit < 100

/-- The table of the first key has some keys denied, by the number of keys. -/
def FirstDenies (keys : List TableKey) (command : Command) : Prop :=
  ∃ restriction ∈ service.firstRestriction keys, restriction.denyAll = false ∧
    ∃ limit ∈ restriction.multipleOperationLimits command, limit.type ≠ .QPS ∧ limit.limit < 100

/-- Every table among the keys is treated as the table of the first key. -/
structure SuitsFirst (keys : List TableKey) (command : Command) : Prop where
  forbidden : service.FirstPasses keys command →
    ∀ key ∈ keys, service.engineOf key ≠ none → ¬service.Forbidden command key
  refused : service.FirstRefuses keys command → ∀ key ∈ keys, ¬service.Unrestricted key
  denied : service.FirstDenies keys command →
    ∀ key ∈ keys, service.engineOf key ≠ none → ¬service.Unrestricted key

variable {service} {keys : List TableKey} {command : Command} {random : UInt32}
  {randoms : Nat → UInt32} {limit : Option UInt32} {index : Nat} {key : TableKey}

theorem item_iff (hkey : keys[index]? = some key) (property : Option LaserKey → Prop) :
    (∃ task ∈ Scatter.collect (Scatter.jobsFrom 0 (service.routes limit randoms 0 keys)),
        ∃ item ∈ task.2, item.index = index ∧ property item.key) ↔
      service.engineOf key ≠ none ∧
        property (if deniedAt limit randoms index then none else some key.key) := by
  have hroutes := service.routes_getElem? limit randoms 0 index keys
  rw [hkey, Nat.zero_add] at hroutes
  constructor
  · rintro ⟨task, htask, item, hitem, rfl, hproperty⟩
    obtain ⟨-, -, -, hjobs⟩ := Scatter.apart_of_perm (fun job => index_of_mem_jobs)
      (Scatter.nodup_places 0 (service.routes limit randoms 0 keys)) (List.Perm.refl _)
    obtain ⟨job, hjob, -, rfl⟩ := hjobs task htask item hitem
    obtain ⟨place, hplace, hroute⟩ := Scatter.route_of_mem hjob
    rw [Nat.zero_add, ← index_of_mem_jobs hjob] at hplace
    rw [← hplace, hroutes, map_some, some.injEq] at hroute
    obtain ⟨engine, hengine, hentry⟩ := map_eq_some_iff.mp hroute
    rw [hengine]
    rw [← (Prod.mk.inj hentry).2] at hproperty
    exact ⟨nofun, hproperty⟩
  · rintro ⟨hengine, hproperty⟩
    obtain ⟨engine, hengine⟩ := ne_none_iff_exists'.mp hengine
    rw [map_some, hengine, map_some] at hroutes
    obtain ⟨task, htask, hitem⟩ := Scatter.mem_collect _ (Scatter.mem_of_route hroutes)
    exact ⟨task, htask, _, hitem, rfl, hproperty⟩

variable (hlimit : service.restrictMultiple keys command random = .ok limit)
include hlimit

theorem touched_iff (hkey : keys[index]? = some key) :
    service.Touched keys command random randoms index ↔
      service.engineOf key ≠ none ∧ deniedAt limit randoms index = false := by
  rw [Touched, dispatchRequest_ok hlimit]
  simp only [Except.ok.injEq, exists_eq_left']
  rw [item_iff hkey (· ≠ none)]
  simp

theorem refused_iff (hkey : keys[index]? = some key) :
    service.Refused keys command random randoms index ↔
      service.engineOf key ≠ none ∧ deniedAt limit randoms index = true := by
  rw [Refused, dispatchRequest_ok hlimit]
  simp only [reduceCtorEq, exists_false, false_or, Except.ok.injEq, exists_eq_left']
  rw [item_iff hkey (· = none)]
  simp

omit hlimit

section
omit [DecidableEq ε]

theorem restrictMultiple_none (hnone : service.firstRestriction keys = none) (random : UInt32) :
    service.restrictMultiple keys command random = .ok none := by
  rw [firstRestriction] at hnone
  rw [restrictMultiple, hnone]

theorem restrictMultiple_some {restriction : TableTrafficRestrictionConfig}
    (hrestriction : service.firstRestriction keys = some restriction) (random : UInt32) :
    service.restrictMultiple keys command random =
      if restriction.denyAll then .error .RS_OPERATION_DENIED
      else (restriction.multipleOperationLimits command).elim (.error .RS_OPERATION_DENIED)
        fun entry => if entry.type = .QPS then
            if random > entry.limit then .error .RS_TRAFFIC_RESTRICTION else .ok none
          else .ok (some entry.limit) := by
  rw [firstRestriction] at hrestriction
  rw [restrictMultiple, hrestriction]
  dsimp only
  cases restriction.multipleOperationLimits command <;> rfl

theorem firstPasses (hlimit : service.restrictMultiple keys command random = .ok limit)
    (hrandom : Drawn random) (hrandoms : Drawn (randoms index))
    (hpassed : deniedAt limit randoms index = false) : service.FirstPasses keys command := by
  intro restriction hrestriction
  rw [restrictMultiple_some hrestriction] at hlimit
  split_ifs at hlimit with hdeny
  cases hentry : restriction.multipleOperationLimits command with
  | none => cases hentry ▸ hlimit
  | some entry =>
    rw [hentry, elim_some] at hlimit
    refine ⟨Bool.eq_false_iff.mpr hdeny, entry, rfl, ?_⟩
    split_ifs at hlimit with htype hover
    · exact UInt32.le_trans hrandom.1 (UInt32.not_lt.mp hover)
    · cases hlimit
      exact UInt32.le_trans hrandoms.1 (by simpa [deniedAt] using hpassed)

theorem firstDenies (hlimit : service.restrictMultiple keys command random = .ok limit)
    (hrandoms : Drawn (randoms index)) (hdenied : deniedAt limit randoms index = true) :
    service.FirstDenies keys command := by
  cases hrestriction : service.firstRestriction keys with
  | none =>
    cases (restrictMultiple_none hrestriction random).symm.trans hlimit
    cases hdenied
  | some restriction =>
    rw [restrictMultiple_some hrestriction] at hlimit
    split_ifs at hlimit with hdeny
    cases hentry : restriction.multipleOperationLimits command with
    | none => cases hentry ▸ hlimit
    | some entry =>
      rw [hentry, elim_some] at hlimit
      split_ifs at hlimit with htype hover
      · cases hlimit
        cases hdenied
      · cases hlimit
        exact ⟨restriction, hrestriction, Bool.eq_false_iff.mpr hdeny, entry, hentry, htype,
          UInt32.lt_of_lt_of_le (by simpa [deniedAt] using hdenied) hrandoms.2⟩

theorem firstRefuses {status : Status} (hrandom : Drawn random)
    (hrefused : service.restrictMultiple keys command random = .error status) :
    service.FirstRefuses keys command := by
  cases hrestriction : service.firstRestriction keys with
  | none => cases (restrictMultiple_none hrestriction random).symm.trans hrefused
  | some restriction =>
    refine ⟨restriction, hrestriction, or_iff_not_imp_left.mpr fun hdeny entry hentry => ?_⟩
    rw [restrictMultiple_some hrestriction, if_neg hdeny, hentry, elim_some] at hrefused
    split_ifs at hrefused with htype hover
    exact ⟨htype, UInt32.lt_of_lt_of_le hover hrandom.2⟩

/-- The lowest draw passes wherever some draw does. -/
theorem passes_lowest (hpasses : service.FirstPasses keys command) :
    ∃ limit, service.restrictMultiple keys command 1 = .ok limit ∧
      ∀ index, deniedAt limit (fun _ => 1) index = false := by
  cases hrestriction : service.firstRestriction keys with
  | none => exact ⟨none, restrictMultiple_none hrestriction 1, fun _ => rfl⟩
  | some restriction =>
    obtain ⟨hdeny, entry, hentry, hlimit⟩ := hpasses restriction hrestriction
    have hover := UInt32.not_lt.mpr hlimit
    rw [restrictMultiple_some hrestriction, hdeny, hentry, if_neg Bool.false_ne_true, elim_some]
    by_cases htype : entry.type = .QPS
    · exact ⟨none, by rw [if_pos htype, if_neg hover], fun _ => rfl⟩
    · exact ⟨some entry.limit, if_neg htype, fun _ => decide_eq_false hover⟩

/-- The highest draw is refused wherever some draw is. -/
theorem refuses_highest (hrefuses : service.FirstRefuses keys command) :
    ∃ status, service.restrictMultiple keys command 100 = .error status := by
  obtain ⟨restriction, hrestriction, hrefuses⟩ := hrefuses
  rw [restrictMultiple_some hrestriction]
  split_ifs with hdeny
  · exact ⟨_, rfl⟩
  · cases hentry : restriction.multipleOperationLimits command with
    | none => exact ⟨_, rfl⟩
    | some entry =>
      obtain ⟨htype, hlimit⟩ := hrefuses.resolve_left hdeny entry hentry
      exact ⟨_, by rw [elim_some, if_pos htype, if_pos hlimit]⟩

/-- Where keys are denied by their number, the highest draw is. -/
theorem denies_highest (hdenies : service.FirstDenies keys command) :
    ∃ limit, service.restrictMultiple keys command random = .ok limit ∧
      ∀ index, deniedAt limit (fun _ => 100) index = true := by
  obtain ⟨restriction, hrestriction, hdeny, entry, hentry, htype, hlimit⟩ := hdenies
  refine ⟨some entry.limit, ?_, fun _ => decide_eq_true hlimit⟩
  rw [restrictMultiple_some hrestriction, hdeny, Option.mem_def.mp hentry]
  simp [htype]

theorem drawn_lowest : Drawn 1 := ⟨by decide, by decide⟩

theorem drawn_highest : Drawn 100 := ⟨by decide, by decide⟩

end

theorem SuitsFirst.of_holds (hholds : service.RestrictionHolds keys command) :
    service.SuitsFirst keys command where
  forbidden hpasses key hkey hengine hforbidden := by
    obtain ⟨limit, hlimit, hpassed⟩ := passes_lowest hpasses
    obtain ⟨index, hindex⟩ := mem_iff_getElem?.mp hkey
    exact (hholds 1 _ drawn_lowest (fun _ => drawn_lowest) index key hindex).1 hforbidden
      ((touched_iff hlimit hindex).mpr ⟨hengine, hpassed index⟩)
  refused hrefuses key hkey hunrestricted := by
    obtain ⟨status, hstatus⟩ := refuses_highest hrefuses
    obtain ⟨index, hindex⟩ := mem_iff_getElem?.mp hkey
    exact (hholds 100 (fun _ => 1) drawn_highest (fun _ => drawn_lowest) index key hindex).2
      hunrestricted (.inl ⟨status, dispatchRequest_error hstatus⟩)
  denied hdenies key hkey hengine hunrestricted := by
    obtain ⟨limit, hlimit, hdenied⟩ := denies_highest hdenies
    obtain ⟨index, hindex⟩ := mem_iff_getElem?.mp hkey
    exact (hholds 1 _ drawn_lowest (fun _ => drawn_highest) index key hindex).2 hunrestricted
      ((refused_iff hlimit hindex).mpr ⟨hengine, hdenied index⟩)

/-- The traffic restriction holds for every key exactly when the restriction of
the first key's table does to the tables of the other keys what their own
restrictions would. -/
theorem restriction_holds_iff (service : LaserService ε) (keys : List TableKey)
    (command : Command) :
    service.RestrictionHolds keys command ↔ service.SuitsFirst keys command := by
  refine ⟨SuitsFirst.of_holds, fun hsuits random randoms hrandom hrandoms index key hindex => ?_⟩
  have hkey := mem_of_getElem? hindex
  cases hlimit : service.restrictMultiple keys command random with
  | error status =>
    refine ⟨fun _ htouched => ?_, fun hunrestricted _ =>
      hsuits.refused (firstRefuses hrandom hlimit) key hkey hunrestricted⟩
    obtain ⟨tasks, htasks, -⟩ := htouched
    rw [dispatchRequest_error hlimit] at htasks
    cases htasks
  | ok limit =>
    rw [touched_iff hlimit hindex, refused_iff hlimit hindex]
    constructor
    · rintro hforbidden ⟨hengine, hpassed⟩
      exact hsuits.forbidden (firstPasses hlimit hrandom (hrandoms index) hpassed) key hkey hengine
        hforbidden
    · rintro hunrestricted ⟨hengine, hdenied⟩
      exact hsuits.denied (firstDenies hlimit (hrandoms index) hdenied) key hkey hengine
        hunrestricted

/-- A forbidden key behind an unrestricted one is read, and an unrestricted key
behind a forbidden one is refused. -/
theorem restriction_by_first_key :
    let service : LaserService Unit := { oneTable [2] with
      tableSchemaHash := fun _ tableName => if tableName = [3] then 1 else 0
      trafficRestrictionConfig := fun hash =>
        if hash = 1 then some ⟨true, fun _ => none, fun _ => none⟩ else none
      partitionId := fun _ => some 0 }
    let free : TableKey := ⟨[1], [2], ⟨[[97]], []⟩⟩
    let denied : TableKey := ⟨[1], [3], ⟨[[98]], []⟩⟩
    let engines : Unit → RocksDbEngine := fun _ =>
      (RocksDbEngine.fresh.set (Env.at 1) (getFormatKey denied.key) [7]).2.2
    ¬service.RestrictionHolds [free, denied] .mget ∧
      ¬service.RestrictionHolds [denied, free] .mget ∧
      ∃ tasks, service.dispatchRequest [free, denied] .mget 1 (fun _ => 1) = .ok tasks ∧
        (Callback.mget (fun _ => Env.at 1) engines [free, denied] tasks).2 =
          [.nullValue, .stringValue [7]] := by
  intro service free denied engines
  refine ⟨fun hholds => ?_, fun hholds => ?_, _, rfl, by decide⟩
  · exact (hholds 1 _ drawn_lowest (fun _ => drawn_lowest) 1 denied rfl).1 ⟨_, rfl, .inl rfl⟩
      ⟨_, rfl, _, mem_cons_self, _, mem_cons_of_mem _ mem_cons_self, rfl, nofun⟩
  · exact (hholds 1 _ drawn_lowest (fun _ => drawn_lowest) 1 free rfl).2 rfl (.inl ⟨_, rfl⟩)

end LaserService

end LaserDB
