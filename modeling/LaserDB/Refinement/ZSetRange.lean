import LaserDB.Refinement.Keyed

/-!
# Ranges of a zset

A range with both signs is read in two loops, the negative scores first, which runs on to the end of
the database.
-/

namespace LaserDB

open List OrderedMap
open RocksDbBatch (apply idelete iput)
open ByteCodec RocksDbEngine
open LaserKey (dataKey_eq)

/-- `LaserKeyFormatZSetData::decode` takes the record key. -/
def IsScoreKey (bytes : Bytes) : Prop :=
  (LaserKeyFormatZSetData.decode (CompositeIntKey.ofBuffer bytes)).1 = .accepted

instance (bytes : Bytes) : Decidable (IsScoreKey bytes) := inferInstanceAs (Decidable (_ = _))

def membersOf (value : Bytes) : List Bytes :=
  match (LaserValueZSet.ofBuffer value).decode with
  | (.accepted, zsetValue) => zsetValue.members
  | _ => []

/-- The score records with a score from `min` to `max`, in the order of the scores. -/
structure InRange (records : Store) (min max : Int64) (found : List (Int64 × Bytes)) : Prop where
  ascending : found.Pairwise fun left right => left.1 < right.1
  mem_iff : ∀ score value, (score, value) ∈ found ↔
    records.get (intBytes .big score) = some value ∧ min ≤ score ∧ score ≤ max

def shrunkMeta (timestamp : UInt64) (size : UInt32) (removed : Nat) : Option Bytes :=
  if size - UInt32.ofNat removed = 0 then none
  else some (sizeMetaBytes .ZSET timestamp (size - UInt32.ofNat removed))

/-- The two range calls see the score records of `key` in the range and nothing
else: `zrangeByScore` gives their members in the order of the scores, and
`zremRangeByScore` deletes them, counts them off the meta record, answers their
number and leaves all records of other keys as they are. -/
def ScoreRangeExact (env : Env) (engine : RocksDbEngine) (key : LaserKey) (timestamp : UInt64)
    (size : UInt32) (min max : Int64) : Prop :=
  ∃ found, InRange (slot engine.db.store key).records min max found ∧
    (Call.zrangeByScore key min max).exec env engine =
      ((.OK, .scored (found.flatMap fun record => (membersOf record.2).map (record.1, ·))),
        engine) ∧
    ∃ store, (Call.zremRangeByScore key min max).exec env engine =
        ((.OK, .number (Int64.ofNat found.length)), engine.withStore store) ∧
      store.get key.metaKey = shrunkMeta timestamp size found.length ∧
      (∀ score, store.get (key.dataKey (.score score)) =
        if min ≤ score ∧ score ≤ max then none
        else engine.db.store.get (key.dataKey (.score score))) ∧
      ∀ bytes, bytes ≠ key.metaKey → ¬key.stem <+: bytes →
        store.get bytes = engine.db.store.get bytes

/-- The range lies on one side of 0, or no record behind those of `key` has a
key that `LaserKeyFormatZSetData` decodes. -/
def RangeClosed (store : Store) (key : LaserKey) (min max : Int64) : Prop :=
  max < 0 ∨ 0 ≤ min ∨ ∀ bytes value, store.get bytes = some value →
    key.dataKey (.score min) ≤ bytes → ¬key.stem <+: bytes → ¬IsScoreKey bytes

variable {min max : Int64}

variable {records : List (Int64 × Bytes)}

open Int64 (lt_iff_toInt_lt le_iff_toInt_le toInt_zero ofNat)

section

theorem toInt_or_toNat (score : Int64) :
    score.toInt = score.toUInt64.toNat ∧ score.toUInt64.toNat < 2 ^ 63 ∨
      score.toInt = score.toUInt64.toNat - 2 ^ 64 ∧ 2 ^ 63 ≤ score.toUInt64.toNat ∧
        score.toUInt64.toNat < 2 ^ 64 := by
  have hbound := score.toUInt64.toNat_lt
  have hint : score.toInt = if 2 * score.toUInt64.toNat < 2 ^ 64 then (score.toUInt64.toNat : Int)
      else score.toUInt64.toNat - 2 ^ 64 := score.toBitVec.toInt_eq_toNat_cond
  split at hint <;> omega

theorem intBytes_le_iff (left right : Int64) :
    intBytes .big left ≤ intBytes .big right ↔ left.toUInt64.toNat ≤ right.toUInt64.toNat := by
  rw [← not_lt, intBytes_big_lt_iff]
  exact Nat.not_lt

def between (low high : Int64) (records : List (Int64 × Bytes)) : List (Int64 × Bytes) :=
  records.filter fun record => intBytes .big low ≤ intBytes .big record.1 ∧
    intBytes .big record.1 ≤ intBytes .big high

def behind (low : Int64) (records : List (Int64 × Bytes)) : List (Int64 × Bytes) :=
  records.filter fun record => intBytes .big low ≤ intBytes .big record.1

def ownRange (min max : Int64) (records : List (Int64 × Bytes)) : List (Int64 × Bytes) :=
  if min < 0 ∧ 0 ≤ max then behind min records ++ between 0 max records
  else between min max records

variable (hsorted : records.Pairwise fun left right => intBytes .big left.1 < intBytes .big right.1)
include hsorted

theorem ascending_of_sign {found : List (Int64 × Bytes)} (hfound : found.Sublist records)
    (hsign : ∀ left ∈ found, ∀ right ∈ found, left.1.toInt < 0 ↔ right.1.toInt < 0) :
    found.Pairwise fun left right => left.1 < right.1 := by
  refine (hsorted.sublist hfound).imp_of_mem ?_
  intro left right hleft hright hlt
  have hsame := hsign left hleft right hright
  have hleftInt := toInt_or_toNat left.1
  have hrightInt := toInt_or_toNat right.1
  have hunsigned : left.1.toUInt64.toNat < right.1.toUInt64.toNat :=
    (intBytes_big_lt_iff _ _).mp hlt
  rw [lt_iff_toInt_lt]
  omega

omit hsorted in
theorem mem_between {low high score : Int64} {value : Bytes} :
    (score, value) ∈ between low high records ↔ (score, value) ∈ records ∧
      low.toUInt64.toNat ≤ score.toUInt64.toNat ∧ score.toUInt64.toNat ≤ high.toUInt64.toNat := by
  simp only [between, mem_filter, decide_eq_true_eq, intBytes_le_iff]

omit hsorted in
theorem mem_behind {low score : Int64} {value : Bytes} :
    (score, value) ∈ behind low records ↔
      (score, value) ∈ records ∧ low.toUInt64.toNat ≤ score.toUInt64.toNat := by
  simp only [behind, mem_filter, decide_eq_true_eq, intBytes_le_iff]

theorem ownRange_inRange {store : Store} (hle : min ≤ max)
    (hmem : ∀ score value, (score, value) ∈ records ↔
      store.get (intBytes .big score) = some value) :
    InRange store min max (ownRange min max records) := by
  rw [le_iff_toInt_le] at hle
  have hmin := toInt_or_toNat min
  have hmax := toInt_or_toNat max
  unfold ownRange
  split
  · rename_i hstraddle
    rw [lt_iff_toInt_lt, le_iff_toInt_le, toInt_zero] at hstraddle
    have hnegative : ∀ record ∈ behind min records, record.1.toInt < 0 ∧
        min.toInt ≤ record.1.toInt := by
      intro record hrecord
      have hscore := toInt_or_toNat record.1
      have hbound := (mem_behind.mp hrecord).2
      omega
    have hpositive : ∀ record ∈ between 0 max records, 0 ≤ record.1.toInt ∧
        record.1.toInt ≤ max.toInt := by
      intro record hrecord
      have hscore := toInt_or_toNat record.1
      have hbound := (mem_between.mp hrecord).2
      omega
    refine ⟨?_, ?_⟩
    · rw [pairwise_append]
      refine ⟨ascending_of_sign hsorted filter_sublist ?_,
        ascending_of_sign hsorted filter_sublist ?_, ?_⟩
      · intro left hleft right hright
        have := hnegative left hleft
        have := hnegative right hright
        omega
      · intro left hleft right hright
        have := hpositive left hleft
        have := hpositive right hright
        omega
      · intro left hleft right hright
        have := hnegative left hleft
        have := hpositive right hright
        rw [lt_iff_toInt_lt]
        omega
    · intro score value
      have hscore := toInt_or_toNat score
      have hzero : (0 : Int64).toUInt64.toNat = 0 := rfl
      rw [mem_append, mem_behind, mem_between, ← and_or_left, hmem, le_iff_toInt_le,
        le_iff_toInt_le]
      refine and_congr_right fun _ => ?_
      omega
  · rename_i hside
    rw [lt_iff_toInt_lt, le_iff_toInt_le, toInt_zero] at hside
    refine ⟨?_, ?_⟩
    · refine ascending_of_sign hsorted filter_sublist ?_
      intro left hleft right hright
      have hleftScore := toInt_or_toNat left.1
      have hrightScore := toInt_or_toNat right.1
      have hleftBound := (mem_between.mp hleft).2
      have hrightBound := (mem_between.mp hright).2
      omega
    · intro score value
      have hscore := toInt_or_toNat score
      rw [mem_between, hmem, le_iff_toInt_le, le_iff_toInt_le]
      refine and_congr_right fun _ => ?_
      omega

end

variable {key : LaserKey}

section
variable {store : Store}

def scoreEntry (key : LaserKey) (record : Int64 × Bytes) : Bytes × Bytes :=
  (key.stem ++ intBytes .big record.1, record.2)

/-- The records behind those of `key` that the first loop of a range with both
signs runs over. -/
def strays (store : Store) (key : LaserKey) (min : Int64) : List (Bytes × Bytes) :=
  store.entries.filter fun entry =>
    key.stem ++ intBytes .big min ≤ entry.1 ∧ ¬key.stem <+: entry.1

variable
  (hentries : (slot store key).records.entries = records.map fun record => (intBytes .big record.1, record.2))
include hentries

theorem walk_between (low high : Int64) :
    ((store.seek (key.stem ++ intBytes .big low)).takeWhile fun entry =>
        key.stem ++ intBytes .big low ≤ entry.1 ∧ entry.1 ≤ key.stem ++ intBytes .big high) =
      (between low high records).map (scoreEntry key) := by
  have hunder : (store.under key.stem).entries = _ := hentries
  rw [takeWhile_between, filter_between_append, hunder, filter_map, map_map]
  rfl

theorem walk_behind (low : Int64) :
    ((store.seek (key.stem ++ intBytes .big low)).takeWhile fun entry =>
        key.stem ++ intBytes .big low ≤ entry.1) =
      (behind low records).map (scoreEntry key) ++ strays store key low := by
  have hunder : (store.under key.stem).entries = _ := hentries
  rw [takeWhile_from, filter_from_append, hunder, filter_map, map_map]
  rfl

theorem rangeZset_eq (min max : Int64) :
    rangeZset min max (getFormatKey key) store =
      if min < 0 ∧ 0 ≤ max then
        (behind min records).map (scoreEntry key) ++ strays store key min ++
          (between 0 max records).map (scoreEntry key)
      else (ownRange min max records).map (scoreEntry key) := by
  have hbetween := walk_between hentries
  have hbehind := walk_behind hentries
  simp only [rangeZset, zsetData_rawData, hbetween, hbehind, ownRange]
  by_cases hstraddle : min < 0 ∧ 0 ≤ max
  · rw [if_neg (Int64.not_lt.mpr hstraddle.2), if_pos hstraddle, if_pos hstraddle]
  · rw [if_neg hstraddle, if_neg hstraddle]
    split <;> rfl

end

section
theorem zsetKey_accepted (hkey : key.NoEmptyPart)
    (hstorable : Storable (key.dataKey (.score 0))) (score : Int64) :
    ∃ buffer : LaserSerializer, LaserKeyFormatZSetData.decode
        (CompositeIntKey.ofBuffer (key.stem ++ intBytes .big score)) =
        (.accepted, ⟨⟨buffer, key.primaryKeys, key.columns, .COMPOSITE⟩, some score⟩) := by
  have hfit : Storable (key.stem ++ intBytes .big score) := by
    rw [dataKey_eq] at hstorable
    simpa [Storable, DataPart.suffix] using hstorable
  obtain ⟨buffer, hdecode, -⟩ := zsetKey_decode hkey hfit
  exact ⟨buffer, hdecode⟩

theorem isScoreKey_own (hkey : key.NoEmptyPart)
    (hstorable : Storable (key.dataKey (.score 0))) (score : Int64) :
    IsScoreKey (key.stem ++ intBytes .big score) := by
  obtain ⟨_, hdecode⟩ := zsetKey_accepted hkey hstorable score
  rw [IsScoreKey, hdecode]

theorem scoreMembers_own (hkey : key.NoEmptyPart)
    (hstorable : Storable (key.dataKey (.score 0))) (record : Int64 × Bytes) :
    scoreMembers (scoreEntry key record) = (membersOf record.2).map (record.1, ·) := by
  obtain ⟨_, hdecode⟩ := zsetKey_accepted hkey hstorable record.1
  simp only [scoreMembers, scoreEntry, hdecode, LaserKeyFormatZSetData.getScore,
    Option.getD_some, membersOf]
  rcases (LaserValueZSet.ofBuffer record.2).decode with ⟨verdict, value⟩
  cases verdict <;> rfl

variable {entry : Bytes × Bytes}

theorem scoreMembers_stray (hentry : ¬IsScoreKey entry.1) : scoreMembers entry = [] := by
  unfold scoreMembers
  split
  · rename_i hdecode
    exact absurd (congrArg Prod.fst hdecode) hentry
  · rfl

theorem zremEntry_taken (hentry : IsScoreKey entry.1)
    (state : LaserValueZSetMeta × RocksDbBatch × Int64) :
    zremEntry state entry = (state.1.decrSize, state.2.1 ++ [.delete entry.1], state.2.2 + 1) := by
  have hraw := zsetKeyDecode_rawData (CompositeIntKey.ofBuffer entry.1)
  rw [IsScoreKey] at hentry
  rcases hdecode : LaserKeyFormatZSetData.decode (CompositeIntKey.ofBuffer entry.1) with
    ⟨verdict, found⟩
  rw [hdecode] at hentry hraw
  obtain rfl : verdict = .accepted := hentry
  simp only [zremEntry, hdecode, idelete]
  rw [show found.rawData = entry.1 from hraw]

theorem zremEntry_passed (hentry : ¬IsScoreKey entry.1)
    (state : LaserValueZSetMeta × RocksDbBatch × Int64) : zremEntry state entry = state := by
  unfold zremEntry
  split
  · rename_i hdecode
    exact absurd (congrArg Prod.fst hdecode) hentry
  · rfl

theorem zremLoop_eq (entries : List (Bytes × Bytes)) (metaData : LaserValueZSetMeta)
    (batch : RocksDbBatch) (number : Int64) :
    let taken := entries.filter fun entry => IsScoreKey entry.1
    entries.foldl zremEntry (metaData, batch, number) =
      ({ metaData with size := metaData.size - UInt32.ofNat taken.length },
        batch ++ taken.map (fun entry => .delete entry.1),
        number + ofNat taken.length) := by
  induction entries generalizing metaData batch number with
  | nil => simp
  | cons entry rest ih =>
    intro taken
    by_cases hentry : IsScoreKey entry.1
    · have htaken : taken = entry :: rest.filter fun entry => IsScoreKey entry.1 :=
        filter_cons_of_pos (by simpa using hentry)
      have hsize (count : Nat) : metaData.size - 1 - UInt32.ofNat count =
          metaData.size - UInt32.ofNat (count + 1) := by
        rw [UInt32.ofNat_add]
        grind
      have hnumber (count : Nat) : number + 1 + ofNat count =
          number + ofNat (count + 1) := by
        rw [Int64.ofNat_add]
        grind
      rw [foldl_cons, zremEntry_taken hentry, ih, htaken, length_cons, map_cons,
        append_assoc, ← hnumber, ← hsize]
      rfl
    · have htaken : taken = rest.filter fun entry => IsScoreKey entry.1 :=
        filter_cons_of_neg (by simpa using hentry)
      rw [foldl_cons, zremEntry_passed hentry, ih, htaken]

end

theorem apply_concat (batch : RocksDbBatch) (write : BatchWrite) (store : Store) :
    apply (batch ++ [write]) store = BatchWrite.apply (batch.apply store) write := by
  rw [apply, foldl_append]
  rfl

theorem get_deletes (keys : List Bytes) (store : Store) (probe : Bytes) :
    (apply (keys.map .delete) store).get probe =
      if probe ∈ keys then none else store.get probe := by
  induction keys generalizing store with
  | nil => rfl
  | cons key keys ih =>
    have hrest := ih (store.erase key)
    rw [get_erase] at hrest
    refine hrest.trans ?_
    by_cases hmem : probe ∈ keys
    · rw [if_pos hmem, if_pos (mem_cons_of_mem key hmem)]
    · rw [if_neg hmem]
      by_cases heq : probe = key
      · rw [if_pos heq, if_pos (by simp [heq])]
      · rw [if_neg heq, if_neg (by simp [heq, hmem])]

section
variable {engine : RocksDbEngine} {env : Env} {timestamp : UInt64} {size : UInt32}
  (henv : env.Healthy) (hleader : engine.db.role = .LEADER)
  (hmeta : engine.db.store.get key.metaKey = some (sizeMetaBytes .ZSET timestamp size))
  (hlive : ¬(timestamp ≠ 0 ∧ timestamp < env.now))
include henv hmeta hlive

theorem zset_readLive :
    ∃ buffer : LaserSerializer,
      engine.readLive env (SizeMeta.new : LaserValueZSetMeta) (getFormatKey key) =
        .ok ⟨⟨buffer, .ZSET, timestamp⟩, size⟩ := by
  obtain ⟨buffer, hdecode⟩ := decodeOr_sizeMeta .RS_INVALID_ARGUMENT .ZSET timestamp size
  refine ⟨buffer, readLive_of_live henv hmeta hdecode ?_⟩
  have hbool : (decide (timestamp ≠ 0) && decide (timestamp < env.now)) = false := by
    rw [← Bool.decide_and]
    exact decide_eq_false hlive
  exact hbool

theorem zrange_exec (hle : min ≤ max) :
    (Call.zrangeByScore key min max).exec env engine =
      ((.OK, .scored ((rangeZset min max (getFormatKey key) engine.db.store).flatMap
        scoreMembers)), engine) := by
  obtain ⟨buffer, hread⟩ := zset_readLive henv hmeta hlive
  simp only [Call.exec, zrangeByScore, if_neg (Int64.not_lt.mpr hle), hread, ok_bind, pure_eq_ok,
    replyOf]

include hleader

theorem zrem_exec (hle : min ≤ max) :
    let taken := (rangeZset min max (getFormatKey key) engine.db.store).filter
      fun entry => IsScoreKey entry.1
    ∃ store, (Call.zremRangeByScore key min max).exec env engine =
        ((.OK, .number (ofNat taken.length)), engine.withStore store) ∧
      store.get key.metaKey = shrunkMeta timestamp size taken.length ∧
      ∀ bytes, bytes ≠ key.metaKey → store.get bytes =
        if bytes ∈ taken.map Prod.fst then none else engine.db.store.get bytes := by
  intro taken
  obtain ⟨buffer, hread⟩ := zset_readLive henv hmeta hlive
  have hloop : (rangeZset min max (getFormatKey key) engine.db.store).foldl zremEntry
      (⟨⟨buffer, .ZSET, timestamp⟩, size⟩, [], 0) =
      (⟨⟨buffer, .ZSET, timestamp⟩, size - UInt32.ofNat taken.length⟩,
        taken.map (fun entry => .delete entry.1), ofNat taken.length) := by
    rw [zremLoop_eq, Int64.zero_add, nil_append]
  have hdeletes : taken.map (fun entry => BatchWrite.delete entry.1) =
      (taken.map Prod.fst).map .delete := by
    rw [map_map]
    rfl
  have hget (bytes : Bytes) := get_deletes (taken.map Prod.fst) engine.db.store bytes
  simp only [Call.exec, zremRangeByScore, if_neg (Int64.not_lt.mpr hle), zremRangeByScorePlan,
    hread, ok_bind, hloop, hdeletes, shrunkMeta]
  by_cases hzero : size - UInt32.ofNat taken.length = 0
  · simp only [hzero, ↓reduceIte, pure_eq_ok, commit_ok henv hleader, answer]
    refine ⟨_, rfl, ?_, ?_⟩
    · rw [idelete, apply_concat]
      exact get_erase_self _ _
    · intro bytes hbytes
      rw [idelete, apply_concat, ← hget]
      exact get_erase_of_ne hbytes
  · simp only [hzero, ↓reduceIte, pure_eq_ok, commit_ok henv hleader, answer]
    refine ⟨_, rfl, ?_, ?_⟩
    · rw [iput, apply_concat]
      refine (get_put_self _ _ _).trans ?_
      rw [rawData_sizeMeta, sizeMeta_encode_rawData]
    · intro bytes hbytes
      rw [iput, apply_concat, ← hget]
      exact get_put_of_ne hbytes

variable (hkey : key.NoEmptyPart) (hstorable : Storable (key.dataKey (.score 0)))
  (hentries : (slot engine.db.store key).records.entries = records.map fun record => (intBytes .big record.1, record.2))
include hkey hstorable hentries

omit henv hleader hmeta hlive in
theorem closed_walk (hclosed : RangeClosed engine.db.store key min max) :
    (rangeZset min max (getFormatKey key) engine.db.store).flatMap scoreMembers =
        (ownRange min max records).flatMap (fun record => (membersOf record.2).map (record.1, ·)) ∧
      ((rangeZset min max (getFormatKey key) engine.db.store).filter
          fun entry => IsScoreKey entry.1) =
        (ownRange min max records).map (scoreEntry key) := by
  have hmembers (own : List (Int64 × Bytes)) : (own.map (scoreEntry key)).flatMap scoreMembers =
      own.flatMap fun record => (membersOf record.2).map (record.1, ·) := by
    rw [flatMap_map]
    exact flatMap_congr fun record _ => scoreMembers_own hkey hstorable record
  have htaken (own : List (Int64 × Bytes)) : (own.map (scoreEntry key)).filter
      (fun entry => IsScoreKey entry.1) = own.map (scoreEntry key) := by
    rw [filter_eq_self]
    intro entry hentry
    obtain ⟨record, -, rfl⟩ := mem_map.mp hentry
    exact decide_eq_true (isScoreKey_own hkey hstorable record.1)
  rw [rangeZset_eq hentries]
  split
  · rename_i hstraddle
    have hstrays : ∀ entry ∈ strays engine.db.store key min, ¬IsScoreKey entry.1 := by
      intro entry hentry
      simp only [strays, mem_filter, decide_eq_true_eq] at hentry
      rcases hclosed with hmax | hmin | hnone
      · exact absurd hmax (Int64.not_lt.mpr hstraddle.2)
      · exact absurd hmin (Int64.not_le.mpr hstraddle.1)
      · refine hnone entry.1 entry.2 (mem_entries_iff.mp hentry.1) ?_ hentry.2.2
        rw [dataKey_eq]
        exact hentry.2.1
    have hnoMembers : (strays engine.db.store key min).flatMap scoreMembers = [] :=
      flatMap_eq_nil_iff.mpr fun entry hentry => scoreMembers_stray (hstrays entry hentry)
    have hnoTaken : (strays engine.db.store key min).filter (fun entry => IsScoreKey entry.1) = [] :=
      filter_eq_nil_iff.mpr fun entry hentry => by simpa using hstrays entry hentry
    rw [ownRange, if_pos hstraddle, flatMap_append, flatMap_append, flatMap_append,
      filter_append, filter_append, hnoMembers, hnoTaken, hmembers, hmembers, htaken,
      htaken, append_nil, append_nil, map_append]
    exact ⟨rfl, rfl⟩
  · exact ⟨hmembers _, htaken _⟩

variable (hle : min ≤ max)
  (hrange : InRange (slot engine.db.store key).records min max (ownRange min max records))
include hle hrange

theorem exact_of_closed (hclosed : RangeClosed engine.db.store key min max) :
    ScoreRangeExact env engine key timestamp size min max := by
  obtain ⟨hmembers, htaken⟩ := closed_walk hkey hstorable hentries hclosed
  obtain ⟨store, hexec, hshrunk, hget⟩ := zrem_exec henv hleader hmeta hlive hle
  rw [htaken, length_map] at hexec hshrunk
  have hdeleted (bytes : Bytes) : bytes ∈ ((ownRange min max records).map (scoreEntry key)).map
      Prod.fst ↔ ∃ record ∈ ownRange min max records, bytes = key.dataKey (.score record.1) := by
    rw [map_map, mem_map]
    refine exists_congr fun record => and_congr_right fun _ => ?_
    rw [dataKey_eq]
    exact eq_comm
  refine ⟨ownRange min max records, hrange, ?_, store, hexec, hshrunk, ?_, ?_⟩
  · rw [zrange_exec henv hmeta hlive hle, hmembers]
  · intro score
    have hother : key.dataKey (.score score) ≠ key.metaKey := by
      rw [dataKey_eq]
      exact append_ne_metaKey key key _
    have hrecord : (slot engine.db.store key).records.get (intBytes .big score) =
        engine.db.store.get (key.dataKey (.score score)) := by
      rw [dataKey_eq]
      exact get_under _ _ _
    rw [hget _ hother, htaken]
    by_cases hinside : min ≤ score ∧ score ≤ max
    · rw [if_pos hinside]
      split
      · rfl
      · rename_i hkept
        rw [Option.eq_none_iff_forall_ne_some]
        intro value hvalue
        refine hkept ((hdeleted _).mpr ⟨(score, value), ?_, rfl⟩)
        exact (hrange.mem_iff score value).mpr ⟨hrecord.trans hvalue, hinside⟩
    · rw [if_neg hinside, if_neg]
      rw [hdeleted]
      rintro ⟨⟨other, value⟩, hmem, heq⟩
      rw [dataKey_eq, dataKey_eq, append_cancel_left_eq] at heq
      obtain rfl : score = other := intBytes_injective .big heq
      exact hinside ((hrange.mem_iff score value).mp hmem).2
  · intro bytes hbytes hstem
    rw [hget bytes hbytes, htaken, if_neg]
    rw [hdeleted]
    rintro ⟨record, -, rfl⟩
    exact hstem (key.stem_isPrefix_dataKey _)

omit hkey hstorable hrange in
theorem closed_of_exact (hexact : ScoreRangeExact env engine key timestamp size min max) :
    RangeClosed engine.db.store key min max := by
  obtain ⟨found, -, -, store, hexec, -, -, hothers⟩ := hexact
  obtain ⟨store', hexec', -, hget⟩ := zrem_exec henv hleader hmeta hlive hle
  have hsame : store = store' :=
    congrArg (fun result => result.2.db.store) (hexec.symm.trans hexec')
  subst hsame
  by_contra hopen
  simp only [RangeClosed, not_or, not_forall, not_not] at hopen
  obtain ⟨hmax, hmin, bytes, value, hvalue, hbehind, hstem, hscore⟩ := hopen
  have hmeta' : bytes ≠ key.metaKey := by
    rintro rfl
    rw [dataKey_eq] at hbehind
    exact absurd ((le_append _ _).trans hbehind) (not_le.mpr (key.metaKey_lt_stem key))
  have htaken : bytes ∈ ((rangeZset min max (getFormatKey key) engine.db.store).filter
      fun entry => IsScoreKey entry.1).map Prod.fst := by
    refine mem_map.mpr ⟨(bytes, value), mem_filter.mpr ⟨?_, decide_eq_true hscore⟩, rfl⟩
    rw [rangeZset_eq hentries, if_pos ⟨Int64.not_le.mp hmin, Int64.not_lt.mp hmax⟩]
    refine mem_append_left _ (mem_append_right _ ?_)
    rw [dataKey_eq] at hbehind
    exact mem_filter.mpr ⟨mem_entries_iff.mpr hvalue, decide_eq_true ⟨hbehind, hstem⟩⟩
  have hkept := hothers bytes hmeta' hstem
  rw [hget bytes hmeta', if_pos htaken, hvalue] at hkept
  cases hkept

end

/-- On a zset key the two range calls see exactly the scores of their range if
and only if the range is closed. -/
theorem scoreRange_exact_iff_closed (env : Env) (engine : RocksDbEngine) (key : LaserKey)
    (timestamp : UInt64) (size : UInt32) (min max : Int64) (henv : env.Healthy)
    (hleader : engine.db.role = .LEADER) (hkey : key.NoEmptyPart)
    (hstorable : Storable (key.dataKey (.score 0)))
    (hmeta : engine.db.store.get key.metaKey = some (sizeMetaBytes .ZSET timestamp size))
    (hlive : ¬(timestamp ≠ 0 ∧ timestamp < env.now))
    (hscores : ∀ bytes value, engine.db.store.get bytes = some value → key.stem <+: bytes →
      ∃ score, bytes = key.dataKey (.score score))
    (hle : min ≤ max) :
    ScoreRangeExact env engine key timestamp size min max ↔
      RangeClosed engine.db.store key min max := by
  have hencodes : (slot engine.db.store key).records.Encodes (intBytes .big : Int64 → Bytes)
      fun score => ((slot engine.db.store key).records.get (intBytes .big score)).map id := by
    refine ⟨fun _ => Option.map_id_apply.symm, ?_⟩
    intro suffix value hvalue
    obtain ⟨score, hscore⟩ := hscores (key.stem ++ suffix) value
      ((get_under _ _ _).symm.trans hvalue) (prefix_append _ _)
    rw [dataKey_eq, append_cancel_left_eq] at hscore
    exact ⟨score, hscore⟩
  obtain ⟨records, hentries, -, hmem⟩ := hencodes.exists_pairs (intBytes_injective .big)
  have hsorted := (slot engine.db.store key).records.sorted
  rw [hentries, pairwise_map] at hsorted
  have hrange := ownRange_inRange hsorted hle hmem
  exact ⟨closed_of_exact henv hleader hmeta hlive hentries hle,
    exact_of_closed henv hleader hmeta hlive hkey hstorable hentries hle hrange⟩

/-- A range with both signs on the only key of the database. -/
theorem scoreRange_exact_on_last_key :
    let key : LaserKey := ⟨[[97]], []⟩
    let call := Call.zadd key (ofPairs [([98], -2), ([99], 1)])
    let engine := (call.exec (Env.at 1) RocksDbEngine.fresh).2
    ScoreRangeExact (Env.at 1) engine key 0 2 (-5) 5 := by
  intro key call engine
  have hentries : engine.db.store.entries =
      [(key.metaKey, sizeMetaBytes .ZSET 0 2), (key.dataKey (.score 1), zsetBytes 0 [[99]]),
        (key.dataKey (.score (-2)), zsetBytes 0 [[98]])] := by decide
  have hmem (bytes value : Bytes) (hget : engine.db.store.get bytes = some value) :
      bytes = key.metaKey ∨ bytes = key.dataKey (.score 1) ∨ bytes = key.dataKey (.score (-2)) := by
    rw [← mem_entries_iff, hentries] at hget
    simp only [mem_cons, Prod.mk.injEq, not_mem_nil, or_false] at hget
    exact hget.imp And.left (Or.imp And.left And.left)
  refine (scoreRange_exact_iff_closed (Env.at 1) engine key 0 2 (-5) 5 (Env.at_healthy 1) rfl
    (by decide) (by decide) (by decide) (by decide) ?_ (by decide)).mpr (.inr (.inr ?_))
  · intro bytes value hget hstem
    rcases hmem bytes value hget with rfl | rfl | rfl
    · exact absurd hstem (key.not_stem_isPrefix_metaKey key)
    · exact ⟨1, rfl⟩
    · exact ⟨-2, rfl⟩
  · intro bytes value hget hbehind hstem
    rcases hmem bytes value hget with rfl | rfl | rfl
    · exact absurd hbehind (by decide)
    · exact absurd (key.stem_isPrefix_dataKey _) hstem
    · exact absurd (key.stem_isPrefix_dataKey _) hstem

/-- A range with both signs on the key `a` shows a member of the key `b`, and
deletes its record. -/
theorem scoreRange_reaches_next_key :
    let key : LaserKey := ⟨[[97]], []⟩
    let other : LaserKey := ⟨[[98]], []⟩
    let first := ((Call.zadd key (ofPairs [([99], 0)])).exec (Env.at 1) RocksDbEngine.fresh).2
    let engine := ((Call.zadd other (ofPairs [([100], 7)])).exec (Env.at 1) first).2
    ((Call.zrangeByScore key (-1) 1).exec (Env.at 1) engine).1 =
        (.OK, .scored [(7, [100]), (0, [99])]) ∧
      ¬ScoreRangeExact (Env.at 1) engine key 0 1 (-1) 1 := by
  intro key other first engine
  refine ⟨by decide, ?_⟩
  rintro ⟨found, -, -, store, hexec, -, -, hothers⟩
  have hstore : store = ((Call.zremRangeByScore key (-1) 1).exec (Env.at 1) engine).2.db.store := by
    rw [hexec]
    rfl
  rw [hstore] at hothers
  exact absurd (hothers (other.dataKey (.score 7)) (by decide) (by decide)) (by decide)

end LaserDB
