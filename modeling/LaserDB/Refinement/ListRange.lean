import LaserDB.Refinement.List

/-!
# Ranges of a list

`lrange` walks over the records of a list in the order of their names, in which the negative
positions come after the others.
-/

namespace LaserDB

open ByteCodec RocksDbEngine List Deque

/-- The elements from place `start` up to `stop`, for the end of the list when
`stop` is 0; a range that is empty or leaves the list is rejected. -/
def rangeReply (elements : List Bytes) (start stop : Nat) : Reply :=
  if 0 < stop ∧ stop ≤ start then (.RS_INVALID_ARGUMENT, .nothing)
  else if elements.length < start ∨ elements.length < stop then (.RS_INVALID_ARGUMENT, .nothing)
  else (.OK, .texts ((elements.take (if stop = 0 then elements.length else stop)).drop start))

def QueueModel.range (queue : QueueModel) (start stop : Nat) : Reply :=
  match queue with
  | none => (.RS_NOT_FOUND, .nothing)
  | some elements => rangeReply elements start stop

/-- The positions of the list and of the range are no larger than an `int64_t`,
the range does not end right behind the list, and if it lies in the list it does
not hold both a negative position and another. -/
def RangeReadable (deque : Deque Bytes) (start stop : Nat) : Prop :=
  deque.start.toInt + deque.elements.length + 1 < 2 ^ 63 ∧
  deque.start.toInt + start + 1 < 2 ^ 63 ∧ deque.start.toInt + stop < 2 ^ 63 ∧
  (stop = deque.elements.length + 1 → stop ≤ start) ∧
  (start ≤ deque.elements.length → stop ≤ deque.elements.length → stop = 0 ∨ start < stop →
    deque.start.toInt + (if stop = 0 then deque.elements.length else stop) < 0 ∨
      0 ≤ deque.start.toInt + start + 1)

instance (deque : Deque Bytes) (start stop : Nat) : Decidable (RangeReadable deque start stop) :=
  inferInstanceAs (Decidable (_ ∧ _ ∧ _ ∧ _ ∧ _))

open LaserKeyFormatListData (getIndex ofKey)

section
variable {engine : RocksDbEngine} {env : Env} {key : LaserKey} {deque : Deque Bytes}
  (hholds : ListHolds key (slot engine.db.store key) (some deque))

theorem lrangeEntry_eq (hkey : key.NoEmptyPart) (first last : Int64) {index : Int64}
    {value : Bytes} (hstorable : Storable (key.dataKey (.index 0))) (hvalue : RoundTrips value) :
    ∃ found : LaserValueRawString, found.value = value ∧
      lrangeEntry first last (key.stem ++ intBytes .big index, rawStringBytes 0 value) =
        if first ≤ index ∧ index ≤ last then some found else none := by
  have hfit : Storable (key.stem ++ intBytes .big index) := by
    rw [LaserKey.dataKey_eq] at hstorable
    simpa [Storable, DataPart.suffix] using hstorable
  obtain ⟨_, hdecodeKey⟩ := listKey_decode hkey hfit
  obtain ⟨hne, hlength⟩ := (roundTrips_iff value).mp hvalue
  obtain ⟨buffer, hdecode⟩ :=
    rawString_decode (LaserValueRawString.ofBuffer (rawStringBytes 0 value)) rfl hne hlength
  refine ⟨⟨⟨buffer, .RAW_STRING, 0⟩, value⟩, rfl, ?_⟩
  simp only [lrangeEntry, hdecodeKey, hdecode, getIndex, Option.getD_some]
  by_cases hfirst : index < first
  · rw [if_pos hfirst, if_neg fun hinside => Int64.not_le.mpr hfirst hinside.1]
  · by_cases hlast : index > last
    · rw [if_neg hfirst, if_pos hlast, if_neg fun hinside => Int64.not_le.mpr hlast hinside.2]
    · rw [if_neg hfirst, if_neg hlast, if_pos ⟨Int64.not_lt.mp hfirst, Int64.not_lt.mp hlast⟩]

theorem lrangeLoop_eq (hkey : key.NoEmptyPart) (first last : Int64)
    (hstorable : Storable (key.dataKey (.index 0))) {pairs : List (Int64 × Bytes)}
    (hpairs : ∀ pair ∈ pairs, RoundTrips pair.2) :
    ((pairs.map fun pair => (key.stem ++ intBytes .big pair.1, rawStringBytes 0 pair.2)).filterMap
        (lrangeEntry first last)).map (·.value) =
      (pairs.filter fun pair => first ≤ pair.1 ∧ pair.1 ≤ last).map Prod.snd := by
  induction pairs with
  | nil => rfl
  | cons pair rest ih =>
    obtain ⟨found, hfound, hentry⟩ :=
      lrangeEntry_eq hkey first last hstorable (hpairs pair (by simp))
    have hrest := ih fun other hmem => hpairs other (by simp [hmem])
    rw [map_cons, filterMap_cons, hentry, filter_cons]
    by_cases hinside : first ≤ pair.1 ∧ pair.1 ≤ last
    · simp only [hinside, and_self, ↓reduceIte, decide_true, map_cons, hfound, hrest]
    · simp only [hinside, ↓reduceIte, decide_false, Bool.false_eq_true, hrest]

include hholds

theorem list_iterate :
    ∃ pairs : List (Int64 × Bytes), engine.db.iterate
          (ofKey (getFormatKey key) none).toLaserSerializer =
        pairs.map (fun pair => (key.stem ++ intBytes .big pair.1, rawStringBytes 0 pair.2)) ∧
      (pairs.Pairwise fun left right => left.1.toUInt64.toNat < right.1.toUInt64.toNat) ∧
      ∀ index value, (index, value) ∈ pairs ↔ deque.get index = some value := by
  obtain ⟨pairs, hentries, -, hmem⟩ := hholds.records.exists_pairs (intBytes_injective .big)
  refine ⟨pairs, ?_, ?_, hmem⟩
  · rw [iterate_eq engine.db (listTarget_rawData key), hentries, map_map]
    rfl
  · have hsorted := (slot engine.db.store key).records.sorted
    rw [hentries, pairwise_map] at hsorted
    exact hsorted.imp fun hlt => (intBytes_big_lt_iff _ _).mp hlt

theorem lrange_values (hkey : key.NoEmptyPart) {start stop : Nat} {first last : Int64}
    (hnowrap : deque.start.toInt + deque.elements.length + 1 < 2 ^ 63)
    (hfirst : first.toInt = deque.start.toInt + start + 1)
    (hlast : last.toInt = deque.start.toInt + stop)
    (hsign : last.toInt < 0 ∨ 0 ≤ first.toInt) :
    ((engine.db.iterate
        (ofKey (getFormatKey key) none).toLaserSerializer).filterMap
      (lrangeEntry first last)).map (·.value) = (deque.elements.take stop).drop start := by
  obtain ⟨pairs, hiterate, hsorted, hmem⟩ := list_iterate hholds
  have hpairs : ∀ pair ∈ pairs, RoundTrips pair.2 := by
    intro pair hpair
    exact hholds.readable pair.2 (mem_of_getElem? ((hmem pair.1 pair.2).mp hpair))
  rw [hiterate, lrangeLoop_eq hkey first last (hholds.storable deque rfl) hpairs,
    slice_eq_filter (hholds.fits deque rfl) hnowrap hmem hsorted hfirst hlast hsign,
    slice_values]

variable (henv : env.Healthy)
include henv

theorem lrange_exec (hkey : key.NoEmptyPart) {start stop : UInt64}
    (hreadable : RangeReadable deque start.toNat stop.toNat) :
    (Call.lrange key start stop).exec env engine =
      (rangeReply deque.elements start.toNat stop.toNat, engine) := by
  obtain ⟨hnowrap, hstart, hstop, hend, hsign⟩ := hreadable
  obtain ⟨buffer, hlive⟩ := list_readLive henv hholds rfl
  have hfirst : (deque.start + start.toInt64 + 1).toInt = deque.start.toInt + start.toNat + 1 := by
    rw [toInt64_eq_ofNat]
    exact position_toInt hstart
  have hlast : (if stop > 0 then deque.start + stop.toInt64 else deque.endIndex - 1).toInt =
      deque.start.toInt + (if stop.toNat = 0 then deque.elements.length else stop.toNat) := by
    by_cases hzero : stop.toNat = 0
    · rw [if_neg (by simpa [UInt64.lt_iff_toNat_lt] using hzero), if_pos hzero, endIndex,
        Int64.add_sub_cancel, toInt_add_ofNat (by omega)]
    · rw [if_pos (by simpa [UInt64.lt_iff_toNat_lt] using Nat.pos_of_ne_zero hzero),
        if_neg hzero, toInt64_eq_ofNat, toInt_add_ofNat (by omega)]
  have hendIndex : deque.endIndex.toInt = deque.start.toInt + deque.elements.length + 1 :=
    position_toInt hnowrap
  have hempty : stop > 0 ∧ stop ≤ start ↔ 0 < stop.toNat ∧ stop.toNat ≤ start.toNat := by
    rw [gt_iff_lt, UInt64.lt_iff_toNat_lt, UInt64.le_iff_toNat_le]
    rfl
  have hbeyond (hproper : ¬(0 < stop.toNat ∧ stop.toNat ≤ start.toNat)) :
      (deque.start + start.toInt64 + 1 > deque.endIndex ∨
        (if stop > 0 then deque.start + stop.toInt64 else deque.endIndex - 1) > deque.endIndex) ↔
      deque.elements.length < start.toNat ∨ deque.elements.length < stop.toNat := by
    rw [gt_iff_lt, gt_iff_lt, Int64.lt_iff_toInt_lt, Int64.lt_iff_toInt_lt, hfirst, hlast,
      hendIndex]
    split <;> omega
  simp only [Call.exec, lrange, hlive, ok_bind, rangeReply, hempty]
  by_cases hproper : 0 < stop.toNat ∧ stop.toNat ≤ start.toNat
  · rw [if_pos hproper, if_pos hproper]
    rfl
  · rw [if_neg hproper, if_neg hproper]
    simp only [pure_eq_ok, hbeyond hproper]
    split
    · rfl
    · have hvalues := lrange_values hholds hkey hnowrap hfirst hlast (by omega)
      simp only [replyOf, hvalues]

end

/-- In every run of calls on the keys in `keys`, used only as lists, and at the
end of it, `lrange` gives the elements of its range in the order of the list. -/
theorem lrange_follows_queue (keys : LaserKey → Prop) (engine : RocksDbEngine)
    (hplain : engine.Plain)
    (hfresh : ∀ key, keys key → key.Valid → slot engine.db.store key = .absent)
    (inputs : List (Kind.Input ListOp))
    (hguarded : Simulation.Guarded listKind.nextAll (listKind.guardAll keys) inputs
      fun _ => none)
    (env : Env) (henv : env.Healthy) (key : LaserKey) (hkeys : keys key) (hvalid : key.Valid)
    (start stop : UInt64)
    (hreadable : ∀ deque ∈ Simulation.finalState listKind.nextAll inputs (fun _ => none) key,
      RangeReadable deque start.toNat stop.toNat) :
    let reached := Simulation.finalState (fun input engine => (listKind.exec input engine).2)
      inputs engine
    let model := Simulation.finalState listKind.nextAll inputs (fun _ => none) key
    (Call.lrange key start stop).exec env reached =
      (model.queue.range start.toNat stop.toNat, reached) := by
  intro reached model
  have hstart : listKind.Holds keys engine fun _ => none := by
    refine ⟨hplain, ?_⟩
    intro key hkeys hvalid
    rw [hfresh key hkeys hvalid]
    exact listHolds_absent key
  have hholds := ((listKind.simulates keys).finalState hstart hguarded).2 key hkeys hvalid
  change ListHolds key (slot reached.db.store key) model at hholds
  change ∀ deque ∈ model, _ at hreadable
  cases hmodel : model with
  | none =>
    rw [hmodel] at hholds
    simp only [Call.exec, lrange, readLive_absent henv _ hholds.head, error_bind, replyOf]
    rfl
  | some deque =>
    rw [hmodel] at hholds
    exact lrange_exec hholds henv hvalid.1 (hreadable deque hmodel)

/-- A list that was pushed from the back. -/
theorem lrange_follows_queue_example :
    let key : LaserKey := ⟨[[97]], []⟩
    let inputs : List (Kind.Input ListOp) :=
      [(Env.at 1, key, .pushBack [1]), (Env.at 1, key, .pushBack [2])]
    let reached := Simulation.finalState (fun input engine => (listKind.exec input engine).2)
      inputs RocksDbEngine.fresh
    (Call.lrange key 1 2).exec (Env.at 1) reached = ((.OK, .texts [[2]]), reached) := by
  intro key inputs reached
  have hguard (value : Bytes) (hvalue : RoundTrips value) (model : ListModel)
      (hroom : model.queue.elements.length + 2 < 2 ^ 64) :
      (Env.at 1).Healthy ∧ True ∧ key.Valid ∧ ListOp.guard key (.pushBack value) model :=
    ⟨Env.at_healthy 1, trivial, by decide, hvalue, by decide, hroom⟩
  refine lrange_follows_queue (fun _ => True) RocksDbEngine.fresh RocksDbEngine.fresh_plain
    (fun key _ _ => slot_empty key) inputs
    ⟨hguard [1] (by decide) _ (by decide), hguard [2] (by decide) _ (by decide), trivial⟩
    (Env.at 1) (Env.at_healthy 1) key trivial (by decide) 1 2 ?_
  intro deque hdeque
  cases hdeque
  decide

/-- A list that was pushed from both ends: the element on position -1 comes last. -/
theorem lrange_out_of_order :
    let key : LaserKey := ⟨[[97]], []⟩
    let inputs : List (Kind.Input ListOp) :=
      [(Env.at 1, key, .pushFront [1]), (Env.at 1, key, .pushBack [2]),
        (Env.at 1, key, .pushFront [3])]
    let reached := Simulation.finalState (fun input engine => (listKind.exec input engine).2)
      inputs RocksDbEngine.fresh
    let model := Simulation.finalState listKind.nextAll inputs (fun _ => none) key
    model.queue = some [[3], [1], [2]] ∧
      ((Call.lrange key 0 3).exec (Env.at 1) reached).1 = (.OK, .texts [[1], [2], [3]]) := by
  decide

end LaserDB
