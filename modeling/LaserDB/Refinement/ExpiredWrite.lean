import LaserDB.Refinement.ExpiredOutcome

/-!
# When a write to an expired key comes to the same as on a deleted one

What the writes of a call leave of an expired slot and of an empty one.
-/

namespace LaserDB

open List OrderedMap LaserValue SizeMeta
open OrderedMap (get get_empty get_putAll get_put_of_ne get_put_self)
open ByteCodec RocksDbEngine

def addedTo (entries : List (Bytes × Int64)) (suffix : Bytes) : List Bytes :=
  (entries.filter fun entry => intBytes .big entry.2 = suffix).map Prod.fst

def grow (renew : UInt64 → UInt64) (bytes : Bytes) (current : Option Bytes)
    (member : Bytes) : Option Bytes :=
  if member ∈ (storedScore bytes).members then current
  else some (grownBytes renew bytes member)

def freshScores (stamp : UInt64) (entries : List (Bytes × Int64)) : List (Bytes × Bytes) :=
  entries.map fun entry => (intBytes .big entry.2, zsetBytes stamp [entry.1])

/-- Adding members to a record leaves what adding them to no record does: the record holds none,
or it is the one that would be written and holds all of them. -/
def Replaced (stamp : UInt64) (bytes : Bytes) (members : List Bytes) : Prop :=
  ∃ last, members.getLast? = some last ∧
    ((storedScore bytes).type = .ZSET ∧ (storedScore bytes).members = [] ∨
      bytes = zsetBytes stamp [last] ∧ members ⊆ (storedScore bytes).members)

section
variable (renew : UInt64 → UInt64)

theorem count32_split (test : α → Bool) (pairs : List α) :
    count32 (fun _ => true) pairs = count32 (fun pair => !test pair) pairs + count32 test pairs := by
  have hlength := length_eq_countP_add_countP test (l := pairs)
  simp only [Bool.not_eq_true, Bool.decide_eq_false] at hlength
  rw [count32, count32, count32, ← UInt32.ofNat_add, countP_true, Nat.add_comm, hlength]

theorem size_add_count32_iff (test : α → Bool) (pairs : List α) (size : UInt32) :
    size + count32 (fun pair => !test pair) pairs = 0 + count32 (fun _ => true) pairs ↔
      size = count32 test pairs := by
  rw [count32_split test, UInt32.zero_add, UInt32.add_comm size]
  exact UInt32.add_right_inj _

variable {record : Bytes → Option Bytes}

theorem get_scoreRound_of_ne {suffix : Bytes} (records : Store) {entry : Bytes × Int64}
    (hne : intBytes .big entry.2 ≠ suffix) :
    (scoreRound renew record records entry).get suffix = records.get suffix := by
  unfold scoreRound
  split
  · exact get_put_of_ne hne.symm
  · split
    · rfl
    · exact get_put_of_ne hne.symm

theorem get_scoreRounds_none {suffix : Bytes} (hrecord : record suffix = none)
    (entries : List (Bytes × Int64)) (records : Store) :
    (entries.foldl (scoreRound renew record) records).get suffix =
      (records.putAll (freshScores (renew 0) entries)).get suffix := by
  induction entries generalizing records with
  | nil => rfl
  | cons entry rest ih =>
    rw [foldl_cons, ih]
    simp only [get_putAll, freshScores, map_cons]
    by_cases hsuffix : intBytes .big entry.2 = suffix
    · rw [filter_cons_of_pos (by simpa using hsuffix), map_cons, getLast?_cons]
      have hlast (last : Option Bytes) (first : Bytes) (old : Option Bytes) :
          last.or (some first) = (some (last.getD first)).or old := by
        cases last <;> rfl
      simp only [scoreRound, hsuffix, hrecord, get_put_self]
      exact hlast _ _ _
    · rw [filter_cons_of_neg (by simpa using hsuffix), get_scoreRound_of_ne _ _ hsuffix]

theorem get_scoreRounds_some {suffix bytes : Bytes} (hrecord : record suffix = some bytes)
    (entries : List (Bytes × Int64)) (records : Store) :
    (entries.foldl (scoreRound renew record) records).get suffix =
      (addedTo entries suffix).foldl (grow renew bytes) (records.get suffix) := by
  induction entries generalizing records with
  | nil => rfl
  | cons entry rest ih =>
    rw [foldl_cons, ih, addedTo, addedTo]
    by_cases hsuffix : intBytes .big entry.2 = suffix
    · rw [filter_cons_of_pos (by simpa using hsuffix), map_cons, foldl_cons, grow]
      simp only [scoreRound, hsuffix, hrecord]
      split
      · rfl
      · rw [get_put_self]
    · rw [filter_cons_of_neg (by simpa using hsuffix), get_scoreRound_of_ne _ _ hsuffix]

theorem foldl_grow (bytes : Bytes) (members : List Bytes) (current : Option Bytes) :
    members.foldl (grow renew bytes) current =
      (((members.filter fun member => member ∉ (storedScore bytes).members).getLast?).map
        (grownBytes renew bytes)).or current := by
  induction members generalizing current with
  | nil => rfl
  | cons member rest ih =>
    rw [foldl_cons, ih, grow]
    by_cases hmem : member ∈ (storedScore bytes).members
    · rw [if_pos hmem, filter_cons_of_neg (by simpa using hmem)]
    · rw [if_neg hmem, filter_cons_of_pos (by simpa using hmem), getLast?_cons]
      cases (rest.filter fun member => member ∉ (storedScore bytes).members).getLast? <;> rfl

theorem storedScore_length_lt (bytes : Bytes) : (storedScore bytes).members.length < 2 ^ 32 := by
  have hzero : (0 : Nat) < 2 ^ 32 := by decide
  unfold storedScore LaserValueZSet.decode
  split
  · split
    · exact hzero
    · rename_i size buffer _
      have hlength := length_unpackStrings_le size.toNat buffer
        (setRawBuffer LaserValueZSet.new bytes).members
      have hnone : (setRawBuffer LaserValueZSet.new bytes).members.length = 0 := rfl
      rw [hnone, Nat.zero_add] at hlength
      exact hlength.trans_lt size.toNat_lt
  · exact hzero

end

def StampPast (engine : RocksDbEngine) (env : Env) : Prop := Past env.now (engine.stamp env 0)

def LaserValueListMeta.PushesFirst (metaData : LaserValueListMeta) (isLeft : Bool) : Prop :=
  if isLeft then metaData.start = 0 ∧ (metaData.endIndex = 0 ∨ metaData.endIndex = 1)
  else metaData.endIndex = 0 ∧ (metaData.start = 0 ∨ metaData.start = -1)

private def pushed (metaData : LaserValueListMeta) (isLeft : Bool) : Int64 × LaserValueListMeta :=
  if isLeft then metaData.pushFront else metaData.pushBack

theorem pushed_first_iff (metaData : LaserValueListMeta) (isLeft : Bool) :
    (pushed metaData isLeft).2.start = -1 ∧ (pushed metaData isLeft).2.endIndex = 1 ↔
      metaData.PushesFirst isLeft := by
  unfold pushed LaserValueListMeta.PushesFirst LaserValueListMeta.pushFront
    LaserValueListMeta.pushBack
  cases isLeft with
  | true =>
    by_cases hends : metaData.start = metaData.endIndex
    all_goals
      simp only [↓reduceIte, hends]
      grind
  | false =>
    by_cases hends : metaData.start = metaData.endIndex
    all_goals
      simp only [Bool.false_eq_true, ↓reduceIte, hends]
      grind

theorem pushed_place {metaData : LaserValueListMeta} {isLeft : Bool}
    (hfirst : metaData.PushesFirst isLeft) : (pushed metaData isLeft).1 = 0 := by
  unfold pushed LaserValueListMeta.pushFront LaserValueListMeta.pushBack
  unfold LaserValueListMeta.PushesFirst at hfirst
  cases isLeft <;> by_cases hends : metaData.start = metaData.endIndex <;> simp_all

inductive KeyWrite where
  | append (data : Bytes)
  | incr (step : UInt64)
  | decr (step : UInt64)
  | hset (field value : Bytes)
  | hmset (values : OrderedMap Bytes Bytes)
  | hdel (field : Bytes)
  | pushFront (value : Bytes)
  | pushBack (value : Bytes)
  | sadd (member : Bytes)
  | sdel (member : Bytes)
  | zadd (memberScores : OrderedMap Bytes Int64)
  | setxNotExists (data : Bytes) (ttl : UInt64)

namespace KeyWrite

def call (key : LaserKey) : KeyWrite → Call
  | .append data => .append key data
  | .incr step => .incr key step
  | .decr step => .decr key step
  | .hset field value => .hset key field value
  | .hmset values => .hmset key values
  | .hdel field => .hdel key field
  | .pushFront value => .pushFront key value
  | .pushBack value => .pushBack key value
  | .sadd member => .sadd key member
  | .sdel member => .sdel key member
  | .zadd memberScores => .zadd key memberScores
  | .setxNotExists data ttl => .setx key data ⟨ttl, true⟩

/-- The old value has the type of the call, and nothing of it is left to go on from: the string
is empty, the counter 0, the field or member not there, or the table TTL renews a meta record
that already counts what the call overwrites.  Otherwise what is written must be past at once. -/
def Clean (engine : RocksDbEngine) (env : Env) (slot : Slot) : KeyWrite → Prop
  | .append _ => ∃ value, slot.Reads LaserValueRawString.new value ∧
      (StampPast engine env ∨ value.value = [])
  | .incr _ | .decr _ => ∃ value, slot.Reads LaserValueCounter.new value ∧
      (StampPast engine env ∨ value.value = 0)
  | .hset _ _ => (∃ metaData, slot.Reads (new : LaserValueMapMeta) metaData) ∧ StampPast engine env
  | .hmset values => ∃ metaData, slot.Reads (new : LaserValueMapMeta) metaData ∧
      (values.entries = [] ∨ StampPast engine env ∨ engine.ttl ≠ 0 ∧
        (∃ entry ∈ values.entries, slot.records.get (packedString entry.1) = none) ∧
        (∀ suffix, slot.records.get suffix ≠ none →
          ∃ entry ∈ values.entries, packedString entry.1 = suffix) ∧
        metaData.size = count32 (fun entry => (slot.records.get (packedString entry.1)).isSome)
          values.entries)
  | .hdel field => (∃ metaData, slot.Reads (new : LaserValueMapMeta) metaData) ∧
      slot.records.get (packedString field) = none
  | .pushFront _ => ∃ metaData, slot.Reads LaserValueListMeta.new metaData ∧
      (StampPast engine env ∨ engine.ttl ≠ 0 ∧ metaData.PushesFirst true ∧
        ∀ suffix, slot.records.get suffix ≠ none → suffix = intBytes .big (0 : Int64))
  | .pushBack _ => ∃ metaData, slot.Reads LaserValueListMeta.new metaData ∧
      (StampPast engine env ∨ engine.ttl ≠ 0 ∧ metaData.PushesFirst false ∧
        ∀ suffix, slot.records.get suffix ≠ none → suffix = intBytes .big (0 : Int64))
  | .sadd _ => (∃ metaData, slot.Reads (new : LaserValueSetMeta) metaData) ∧ StampPast engine env
  | .sdel member => slot.records.get (packedString member) = none
  | .zadd memberScores => memberScores.entries = [] ∨
      ∃ metaData, slot.Reads (new : LaserValueZSetMeta) metaData ∧
        (StampPast engine env ∨ engine.ttl ≠ 0 ∧
          metaData.size = count32 (fun entry => (slot.records.get (intBytes .big entry.2)).isSome)
            memberScores.entries ∧
          ∀ suffix bytes, slot.records.get suffix = some bytes →
            Replaced (engine.stamp env 0) bytes (addedTo memberScores.entries suffix))
  | .setxNotExists _ _ => ∃ value, slot.Reads LaserValueRawString.new value

end KeyWrite

section
variable {env : Env} {engine : RocksDbEngine} {key : LaserKey} {bytes : Bytes} {type : ValueType}
  {timestamp : UInt64} (henv : env.Healthy) (hleader : engine.db.role = .LEADER)
  (hhead : (slot engine.db.store key).head = some bytes)
  (hof : headOf bytes = some (type, timestamp)) (hpast : Past env.now timestamp)

omit henv hleader hhead hof in
theorem stamp_of_ttl (httl : engine.ttl ≠ 0) (old : UInt64) :
    engine.stamp env old = engine.stamp env 0 := by
  rw [RocksDbEngine.stamp, RocksDbEngine.stamp, if_neg httl, if_neg httl]

theorem get_freshScores (stamp : UInt64) (entries : List (Bytes × Int64)) (suffix : Bytes) :
    (empty.putAll (freshScores stamp entries)).get suffix =
      ((addedTo entries suffix).getLast?).map fun member => zsetBytes stamp [member] := by
  rw [get_putAll, get_empty, Option.or_none, freshScores, filter_map,
    map_map, addedTo, ← getLast?_map, map_map]
  refine congrArg (fun kept => (map _ kept).getLast?) (filter_congr fun entry _ => ?_)
  exact decide_eq_decide.mpr Iff.rfl

theorem grownBytes_eq_iff (httl : engine.ttl ≠ 0) (bytes member last : Bytes) :
    grownBytes (engine.stamp env) bytes member = zsetBytes (engine.stamp env 0) [last] ↔
      (storedScore bytes).type = .ZSET ∧ (storedScore bytes).members = [] ∧ member = last := by
  rw [grownBytes, stamp_of_ttl httl, zsetBytes]
  constructor
  · intro heq
    obtain ⟨hhead, htail⟩ := append_inj heq (by simp)
    obtain ⟨hcount, htexts⟩ := append_inj htail (by simp [intBytes_length])
    have htype : (storedScore bytes).type = .ZSET := by
      have hfirst : headOf (headBytes (storedScore bytes).type (engine.stamp env 0) ++ []) =
          some ((storedScore bytes).type, engine.stamp env 0) := headOf_headBytes
      rw [hhead, headOf_headBytes] at hfirst
      simpa using hfirst.symm
    have hlength : (storedScore bytes).members.length = 0 := by
      have hlt := storedScore_length_lt bytes
      have hone := congrArg UInt32.toNat (intBytes_injective .little hcount)
      rw [UInt32.toNat_ofNat', UInt32.toNat_ofNat', length_singleton] at hone
      omega
    have hnil := eq_nil_of_length_eq_zero hlength
    rw [hnil] at htexts
    refine ⟨htype, hnil, packedString_injective ?_⟩
    simpa [packedStrings] using htexts
  · rintro ⟨htype, hnil, rfl⟩
    rw [htype, hnil]
    rfl

theorem foldl_grow_eq_iff (httl : engine.ttl ≠ 0) (bytes : Bytes) (members : List Bytes) :
    members.foldl (grow (engine.stamp env) bytes) (some bytes) =
        (members.getLast?).map (fun member => zsetBytes (engine.stamp env 0) [member]) ↔
      Replaced (engine.stamp env 0) bytes members := by
  rw [foldl_grow]
  cases hlast : members.getLast? with
  | none =>
    rw [getLast?_eq_none_iff] at hlast
    subst hlast
    simp [Replaced]
  | some last =>
    have hreplaced : Replaced (engine.stamp env 0) bytes members ↔
        (storedScore bytes).type = .ZSET ∧ (storedScore bytes).members = [] ∨
          bytes = zsetBytes (engine.stamp env 0) [last] ∧
            members ⊆ (storedScore bytes).members := by
      simp [Replaced, hlast]
    rw [hreplaced]
    cases hgrown : (members.filter fun member =>
        member ∉ (storedScore bytes).members).getLast? with
    | none =>
      -- All members are there already, so the record is not empty.
      rw [getLast?_eq_none_iff, filter_eq_nil_iff] at hgrown
      have hsubset : members ⊆ (storedScore bytes).members := fun member hmember => by
        simpa using hgrown member hmember
      have hnonempty : (storedScore bytes).members ≠ [] :=
        ne_nil_of_mem (hsubset (mem_of_getLast? hlast))
      simp [hsubset, hnonempty]
    | some member =>
      have hmember : member ∈ members ∧ member ∉ (storedScore bytes).members := by
        simpa using mem_of_getLast? hgrown
      have hnot : ¬members ⊆ (storedScore bytes).members := fun hsubset =>
        hmember.2 (hsubset hmember.1)
      simp only [Option.map_some, Option.some_or, Option.some.injEq, grownBytes_eq_iff httl,
        hnot, and_false, or_false]
      refine and_congr_right fun _ => ⟨And.left, fun hnil => ⟨hnil, ?_⟩⟩
      simp only [hnil, not_mem_nil, not_false_eq_true, decide_true, filter_true] at hgrown
      exact Option.some.inj (hgrown.symm.trans hlast)

theorem showsSame_renewed_iff (hpast : Past env.now timestamp) {type type' : ValueType}
    {tail tail' : Bytes} {records records' : Store} (htype : type = type')
    (hcomposite : type.isComposite = true) :
    ShowsSame env.now ⟨some (headBytes type (engine.stamp env timestamp) ++ tail), records⟩
        ⟨some (headBytes type' (engine.stamp env 0) ++ tail'), records'⟩ ↔
      StampPast engine env ∨ engine.ttl ≠ 0 ∧ tail = tail' ∧ records = records' := by
  subst htype
  by_cases httl : engine.ttl = 0
  · have hold : engine.stamp env timestamp = timestamp := if_pos httl
    rw [hold, showsSame_expired_iff rfl headOf_headBytes hpast]
    exact ⟨.inl, fun hor => hor.resolve_right fun hother => hother.1 httl⟩
  · rw [stamp_of_ttl httl, showsSame_iff]
    exact or_congr Iff.rfl ⟨fun ⟨htail, hrecords⟩ => ⟨httl, htail, hrecords hcomposite⟩,
      fun ⟨_, htail, hrecords⟩ => ⟨htail, fun _ => hrecords⟩⟩

theorem eq_of_headOf {found : Bytes} {type' : ValueType} {timestamp' : UInt64} {slot : Slot}
    (hhead : slot.head = some bytes) (hof : headOf bytes = some (type, timestamp))
    (hfound : slot.head = some found) (hmeta : headOf found = some (type', timestamp')) :
    timestamp' = timestamp := by
  cases hhead.symm.trans hfound
  have heq := hmeta.symm.trans hof
  simp only [Option.some.injEq, Prod.mk.injEq] at heq
  exact heq.2

theorem sizeMeta_of_reads {kind : ValueType} {metaData : SizeMeta kind} {slot : Slot}
    (hreads : slot.Reads new metaData) (hhead : slot.head = some bytes)
    (hof : headOf bytes = some (type, timestamp)) :
    metaData.timestamp = timestamp ∧ metaData.type = kind := by
  obtain ⟨found, hfound, hdecode⟩ := hreads
  obtain ⟨hmeta, htype⟩ := sizeMeta_headOf hdecode
  exact ⟨eq_of_headOf hhead hof hfound hmeta, htype⟩

include henv hleader hhead

theorem asDeleted_append (data : Bytes) :
    AsDeleted env engine key (.append key data) ↔
      (KeyWrite.append data).Clean engine env (slot engine.db.store key) := by
  rw [asDeleted_iff_of_plan .length henv hleader hhead (fun _ => rfl)
    (fun _ => plan_append data henv) fun _ => rfl]
  refine exists_congr fun value => and_congr_right fun _ => ?_
  refine showsSame_iff.trans (or_congr Iff.rfl ?_)
  constructor
  · rintro ⟨htail, -⟩
    have htext := packedString_injective htail
    simpa using htext
  · intro hnil
    refine ⟨?_, nofun⟩
    simp [hnil]

theorem asDeleted_counter {call : Call} {step : Int64}
    (hexec : ∀ engine : RocksDbEngine, call.exec env engine =
      answer .number (engine.setCounterByStep env (getFormatKey key) step)) :
    AsDeleted env engine key call ↔
      ∃ value, (slot engine.db.store key).Reads LaserValueCounter.new value ∧
        (StampPast engine env ∨ value.value = 0) := by
  rw [asDeleted_iff_of_plan .number henv hleader hhead hexec (fun _ => plan_counter henv step)
    fun _ => rfl]
  refine exists_congr fun value => and_congr_right fun _ => ?_
  refine showsSame_iff.trans (or_congr Iff.rfl ?_)
  constructor
  · rintro ⟨htail, -⟩
    have hcount := intBytes_injective .little htail
    simpa using hcount
  · intro hzero
    refine ⟨?_, nofun⟩
    simp [hzero]

include hof hpast

theorem asDeleted_hset (field value : Bytes) :
    AsDeleted env engine key (.hset key field value) ↔
      (KeyWrite.hset field value).Clean engine env (slot engine.db.store key) := by
  rw [KeyWrite.Clean, ← exists_and_right,
    asDeleted_iff_of_plan (fun _ => .nothing) henv hleader hhead (fun _ => rfl)
    (fun _ => plan_hset field value henv) fun _ => rfl]
  refine exists_congr fun metaData => and_congr_right fun hreads => ?_
  obtain ⟨htime, -⟩ := sizeMeta_of_reads hreads hhead hof
  by_cases hget : (slot engine.db.store key).records.get (packedString field) = none
  · simp only [hsetWrites, hget, ↓reduceIte, htime]
    exact showsSame_expired_iff rfl headOf_headBytes hpast
  · simp only [hsetWrites, hget, ↓reduceIte]
    have hkept : ((slot engine.db.store key).applyAll
        ([] ++ [.put (packedString field) (rawStringBytes 0 value)])).head = some bytes := hhead
    exact showsSame_expired_iff hkept hof hpast

theorem asDeleted_sadd (member : Bytes) :
    AsDeleted env engine key (.sadd key member) ↔
      (KeyWrite.sadd member).Clean engine env (slot engine.db.store key) := by
  rw [KeyWrite.Clean, ← exists_and_right,
    asDeleted_iff_of_plan (fun _ => .nothing) henv hleader hhead (fun _ => rfl)
    (fun _ => plan_sadd member henv) fun _ => rfl]
  refine exists_congr fun metaData => and_congr_right fun hreads => ?_
  obtain ⟨htime, -⟩ := sizeMeta_of_reads hreads hhead hof
  by_cases hget : (slot engine.db.store key).records.get (packedString member) = none
  · simp only [saddWrites, hget, ↓reduceIte, htime]
    exact showsSame_expired_iff rfl headOf_headBytes hpast
  · simp only [saddWrites, hget, ↓reduceIte]
    exact showsSame_expired_iff hhead hof hpast

theorem asDeleted_push {call : Call} {value : Bytes} {isLeft : Bool}
    (hexec : ∀ engine : RocksDbEngine, call.exec env engine =
      answer (fun _ => .nothing) (engine.listPush env (getFormatKey key) value isLeft)) :
    AsDeleted env engine key call ↔
      ∃ metaData, (slot engine.db.store key).Reads LaserValueListMeta.new metaData ∧
        (StampPast engine env ∨ engine.ttl ≠ 0 ∧ metaData.PushesFirst isLeft ∧
          ∀ suffix, (slot engine.db.store key).records.get suffix ≠ none →
            suffix = intBytes .big (0 : Int64)) := by
  rw [asDeleted_iff_of_plan (fun _ => .nothing) henv hleader hhead hexec
    (fun _ => plan_push henv value isLeft) fun _ => rfl]
  refine exists_congr fun metaData => and_congr_right fun hreads => ?_
  obtain ⟨found, hfound, hdecode⟩ := hreads
  obtain ⟨hmeta, htype⟩ := listMeta_headOf hdecode
  have htime := eq_of_headOf hhead hof hfound hmeta
  refine (showsSame_renewed_iff (htime ▸ hpast) htype (by rw [htype]; rfl)).trans
    (or_congr Iff.rfl (and_congr_right fun _ => ?_))
  change (intBytes .little (pushed metaData isLeft).2.start ++
      intBytes .little (pushed metaData isLeft).2.endIndex =
    intBytes .little (pushed LaserValueListMeta.new isLeft).2.start ++
      intBytes .little (pushed LaserValueListMeta.new isLeft).2.endIndex) ∧
    ((slot engine.db.store key).records.put (intBytes .big (pushed metaData isLeft).1)
        (rawStringBytes 0 value) =
      empty.put (intBytes .big (pushed LaserValueListMeta.new isLeft).1)
        (rawStringBytes 0 value)) ↔ _
  have hnew : pushed LaserValueListMeta.new isLeft = (0, ⟨.ofType .LIST, -1, 1⟩) := by
    cases isLeft <;> rfl
  have hends : (intBytes .little (pushed metaData isLeft).2.start ++
      intBytes .little (pushed metaData isLeft).2.endIndex =
        intBytes .little (-1 : Int64) ++ intBytes .little (1 : Int64)) ↔
      metaData.PushesFirst isLeft := by
    rw [← pushed_first_iff]
    constructor
    · intro htail
      obtain ⟨hstart, hend⟩ := append_inj htail (by simp only [intBytes_length])
      exact ⟨intBytes_injective .little hstart, intBytes_injective .little hend⟩
    · rintro ⟨hstart, hend⟩
      rw [hstart, hend]
  rw [hnew, hends]
  refine and_congr_right fun hfirst => ?_
  rw [pushed_place hfirst]
  refine (putAll_eq_empty_iff _ [(_, _)]).trans ?_
  simp only [mem_singleton, exists_eq_left]
  exact forall_congr' fun suffix => imp_congr_right fun _ => eq_comm

theorem asDeleted_hmset (values : OrderedMap Bytes Bytes) :
    AsDeleted env engine key (.hmset key values) ↔
      (KeyWrite.hmset values).Clean engine env (slot engine.db.store key) := by
  rw [asDeleted_iff_of_plan (fun _ => .nothing) henv hleader hhead (fun _ => rfl)
    (fun _ => plan_hmset values henv) fun _ => rfl]
  refine exists_congr fun metaData => and_congr_right fun hreads => ?_
  obtain ⟨htime, htype⟩ := sizeMeta_of_reads hreads hhead hof
  simp only [hmsetWrites, applyAll_fieldWrites, Option.isSome_some, Option.isSome_none,
    Bool.true_and, Bool.false_and, Option.getD_some, Option.getD_none, htype, htime]
  by_cases hempty : values.entries = []
  · simp only [hempty, all_nil, ↓reduceIte, map_nil, true_or, iff_true]
    exact showsSame_absent hhead hof hpast
  have hsome : (values.entries.all fun _ => false) = false := by
    cases hentries : values.entries with
    | nil => exact absurd hentries hempty
    | cons entry rest => rfl
  simp only [hempty, false_or, hsome, Bool.false_eq_true, ↓reduceIte]
  by_cases hall : (values.entries.all fun entry =>
      ((slot engine.db.store key).records.get (packedString entry.1)).isSome) = true
  · -- No field is new: the meta record is not written.
    rw [if_pos hall]
    have hkept (records : Store) : (Slot.mk (slot engine.db.store key).head records).head =
        some bytes := hhead
    refine (showsSame_expired_iff (hkept _) hof hpast).trans ⟨.inl, fun hor => hor.resolve_right ?_⟩
    rintro ⟨-, ⟨entry, hentry, hnone⟩, -⟩
    have hknown := all_eq_true.mp hall entry hentry
    rw [hnone] at hknown
    cases hknown
  · rw [if_neg hall]
    have hnew : ∃ entry ∈ values.entries,
        (slot engine.db.store key).records.get (packedString entry.1) = none := by
      simpa using hall
    refine (showsSame_renewed_iff hpast rfl rfl).trans
      (or_congr Iff.rfl (and_congr_right fun _ => ?_))
    rw [and_iff_right hnew, and_comm]
    refine and_congr ?_ ?_
    · refine (putAll_eq_empty_iff _ _).trans ?_
      simp [mem_map]
    · rw [(intBytes_injective .little).eq_iff]
      exact size_add_count32_iff _ _ _

theorem asDeleted_zadd_nil {memberScores : OrderedMap Bytes Int64}
    (hempty : memberScores.entries = []) : AsDeleted env engine key (.zadd key memberScores) := by
  have hexec (engine : RocksDbEngine) : (Call.zadd key memberScores).exec env engine =
      answer (fun _ => .nothing)
        (engine.commit env () (engine.zaddPlan env (getFormatKey key) memberScores)) := rfl
  have hplan (engine : RocksDbEngine) : engine.zaddPlan env (getFormatKey key) memberScores =
      .ok ((), batchOf key []) := by
    simp only [zaddPlan, readOptional_head henv, hempty, zaddLoop, ok_bind, pure_eq_ok]
    rfl
  have hleader' : (engine.without key).db.role = .LEADER := hleader
  rw [AsDeleted, outcome_of_ok henv hleader (hexec _) (hplan _),
    outcome_of_ok henv hleader' (hexec _) (hplan _), slot_without]
  exact ⟨rfl, showsSame_absent hhead hof hpast⟩

theorem asDeleted_zadd (memberScores : OrderedMap Bytes Int64) :
    AsDeleted env engine key (.zadd key memberScores) ↔
      (KeyWrite.zadd memberScores).Clean engine env (slot engine.db.store key) := by
  by_cases hne : memberScores.entries = []
  · exact iff_of_true (asDeleted_zadd_nil henv hleader hhead hof hpast hne) (.inl hne)
  rw [asDeleted_iff_of_plan (fun _ => .nothing) henv hleader hhead (fun _ => rfl)
    (fun _ => plan_zadd henv hne) fun _ => rfl, KeyWrite.Clean, or_iff_right hne]
  refine exists_congr fun metaData => and_congr_right fun hreads => ?_
  obtain ⟨htime, htype⟩ := sizeMeta_of_reads hreads hhead hof
  simp only [zaddWrites, applyAll_scoreWrites, Option.isSome_some, Option.isSome_none, ↓reduceIte,
    Bool.false_eq_true, Option.getD_some, Option.getD_none, htype, htime, if_neg hne]
  refine (showsSame_renewed_iff hpast rfl rfl).trans
    (or_congr Iff.rfl (and_congr_right fun httl => and_congr ?_ ?_))
  · rw [(intBytes_injective .little).eq_iff]
    have hnone (record : Option Bytes) : record.isNone = !record.isSome := by
      cases record <;> rfl
    simp only [hnone]
    exact size_add_count32_iff _ _ _
  · have hfresh (suffix : Bytes) :
        (memberScores.entries.foldl (scoreRound (engine.stamp env) fun _ => none)
          Slot.absent.records).get suffix =
        ((addedTo memberScores.entries suffix).getLast?).map
          fun member => zsetBytes (engine.stamp env 0) [member] := by
      rw [get_scoreRounds_none _ rfl]
      exact get_freshScores _ _ _
    constructor
    · intro hrecords suffix bytes hget
      have hsame := congrArg (fun records => get records suffix) hrecords
      simp only [hfresh, get_scoreRounds_some _ hget, hget] at hsame
      exact (foldl_grow_eq_iff httl bytes _).mp hsame
    · intro hreplaced
      refine ext_get fun suffix => ?_
      rw [hfresh]
      cases hget : (slot engine.db.store key).records.get suffix with
      | none =>
        rw [get_scoreRounds_none _ hget, get_putAll, hget, ← get_freshScores, get_putAll, get_empty]
      | some bytes =>
        rw [get_scoreRounds_some _ hget, hget]
        exact (foldl_grow_eq_iff httl bytes _).mpr (hreplaced suffix bytes hget)

end

/-- A write on an expired key answers, and leaves to read, what it would on a deleted key
exactly if nothing of the old value is left to go on from. -/
theorem expiredWrite_asDeleted_iff {env : Env} (henv : env.Healthy) {engine : RocksDbEngine}
    (hleader : engine.db.role = .LEADER) {key : LaserKey} (hexpired : ExpiredKey env engine key)
    (write : KeyWrite) :
    AsDeleted env engine key (write.call key) ↔
      write.Clean engine env (slot engine.db.store key) := by
  obtain ⟨bytes, value, hhead, hdecode, hcheck⟩ := hexpired
  have hof : headOf bytes = some (value.type, value.timestamp) := by
    have hbase : (LaserValueFormatBase.ofBuffer bytes).decode = (.accepted, value) := hdecode
    rw [headOf, hbase]
  have hpast : Past env.now value.timestamp := by
    simp only [checkKeyExpire, Bool.and_eq_true, decide_eq_true_eq] at hcheck
    exact hcheck
  cases write with
  | append data => exact asDeleted_append henv hleader hhead data
  | incr step | decr step => exact asDeleted_counter henv hleader hhead fun _ => rfl
  | hset field value => exact asDeleted_hset henv hleader hhead hof hpast field value
  | hmset values => exact asDeleted_hmset henv hleader hhead hof hpast values
  | hdel field => exact asDeleted_hdel henv hleader hhead hof hpast field
  | pushFront value | pushBack value => exact asDeleted_push henv hleader hhead hof hpast fun _ => rfl
  | sadd member => exact asDeleted_sadd henv hleader hhead hof hpast member
  | sdel member => exact asDeleted_sdel henv hleader hhead hof hpast member
  | zadd memberScores => exact asDeleted_zadd henv hleader hhead hof hpast memberScores
  | setxNotExists data ttl => exact asDeleted_setx henv hleader hhead hof hpast data ttl

def expiredString : RocksDbEngine := ((Call.set timedKey [97]).exec (Env.at 1) timedEngine).2

theorem expiredWrite_asDeleted_setx :
    AsDeleted (Env.at 12) expiredString timedKey
      ((KeyWrite.setxNotExists [98] 0).call timedKey) := by
  refine (expiredWrite_asDeleted_iff ⟨fun _ => rfl, rfl⟩ rfl ?_ _).mpr ?_
  · exact ⟨_, _, rfl, rfl, rfl⟩
  · exact ⟨_, _, rfl, rfl⟩

def expiredHash : RocksDbEngine :=
  ((Call.hset timedKey [102] [97]).exec (Env.at 1) timedEngine).2

/-- A list of a table with a TTL of 10, with one element pushed at 1. -/
def expiredList : RocksDbEngine := ((Call.pushBack timedKey [97]).exec (Env.at 1) timedEngine).2

/-- At 12 all three have expired.  `append` brings the old string back, a field that `hset` has
set with success is not found, and the list has its old element again. -/
theorem expiredWrite_differs :
    ((Call.get timedKey).exec (Env.at 12) expiredString).1.1 = .RS_KEY_EXPIRE ∧
      ((Call.get timedKey).exec (Env.at 12)
        ((Call.append timedKey [98]).exec (Env.at 12) expiredString).2).1 = (.OK, .text [97, 98]) ∧
      ((Call.get timedKey).exec (Env.at 12)
        ((Call.append timedKey [98]).exec (Env.at 12) (expiredString.without timedKey)).2).1 =
          (.OK, .text [98]) ∧
      ((Call.hset timedKey [103] [98]).exec (Env.at 12) expiredHash).1.1 = .OK ∧
      ((Call.hget timedKey [103]).exec (Env.at 12)
        ((Call.hset timedKey [103] [98]).exec (Env.at 12) expiredHash).2).1.1 = .RS_KEY_EXPIRE ∧
      ((Call.hget timedKey [103]).exec (Env.at 12)
        ((Call.hset timedKey [103] [98]).exec (Env.at 12) (expiredHash.without timedKey)).2).1 =
          (.OK, .text [98]) ∧
      ((Call.lindex timedKey 0).exec (Env.at 12)
        ((Call.pushBack timedKey [98]).exec (Env.at 12) expiredList).2).1 = (.OK, .text [97]) ∧
      ((Call.lindex timedKey 0).exec (Env.at 12)
        ((Call.pushBack timedKey [98]).exec (Env.at 12) (expiredList.without timedKey)).2).1 =
          (.OK, .text [98]) := by
  decide

end LaserDB
