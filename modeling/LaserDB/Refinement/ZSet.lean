import LaserDB.Refinement.Plans

/-!
# Zsets are sets of scored members

A zset is a meta record that counts the scores and one record for each score with its members.
-/

namespace LaserDB

open List ByteCodec RocksDbEngine LaserSerializer Function OrderedMap SizeMeta

inductive ZSetOp where
  | zadd (memberScores : OrderedMap Bytes Int64)

abbrev ZSetModel := Option (Finset (Int64 × Bytes))

def ZSetModel.pairs (model : ZSetModel) : Finset (Int64 × Bytes) := model.getD ∅

def scoresOf (pairs : Finset (Int64 × Bytes)) : Finset Int64 := pairs.image Prod.fst

def scoreSize (pairs : Finset (Int64 × Bytes)) (score : Int64) : Nat :=
  13 + ∑ pair ∈ pairs.filter (fun pair => pair.1 = score), (4 + pair.2.length)

namespace ZSetOp

def call (key : LaserKey) : ZSetOp → Call
  | .zadd memberScores => .zadd key memberScores

def next (op : ZSetOp) (model : ZSetModel) : ZSetModel :=
  match op with
  | .zadd memberScores =>
    if memberScores.entries = [] then model
    else some (model.pairs ∪ (memberScores.entries.map Prod.swap).toFinset)

def allows (op : ZSetOp) (_ : ZSetModel) (reply : Reply) : Prop :=
  match op with
  | .zadd _ => reply = (.OK, .nothing)

/-- No member is empty, no two new members have the same score, and the record
of every score and the number of scores stay below 2^32. -/
def guard (op : ZSetOp) (model : ZSetModel) : Prop :=
  match op with
  | .zadd memberScores =>
    (∀ pair ∈ memberScores.entries, pair.1 ≠ []) ∧
    (∀ left ∈ memberScores.entries, ∀ right ∈ memberScores.entries,
      left.2 = right.2 → left.swap ∉ model.pairs → right.swap ∉ model.pairs → left = right) ∧
    (∀ score, scoreSize (next (.zadd memberScores) model).pairs score < 2 ^ 32) ∧
    (scoresOf (next (.zadd memberScores) model).pairs).card < 2 ^ 32

end ZSetOp

def zsetMeta (size : Nat) : Bytes := sizeMetaBytes .ZSET 0 (UInt32.ofNat size)

def scoreRecord (members : List Bytes) : Option Bytes :=
  match members with
  | [] => none
  | members => some (zsetBytes 0 members)

structure ScoreRecords (records : Store) (listing : Int64 → List Bytes)
    (pairs : Finset (Int64 × Bytes)) : Prop where
  encodes : records.Encodes (intBytes .big) fun score => scoreRecord (listing score)
  nodup : ∀ score, (listing score).Nodup
  mem_iff : ∀ score member, member ∈ listing score ↔ (score, member) ∈ pairs
  nonempty : ∀ score, NoEmpty (listing score)

structure ZSetHolds (slot : Slot) (model : ZSetModel) : Prop where
  head : slot.head = model.map fun pairs => zsetMeta (scoresOf pairs).card
  records : ∃ listing, ScoreRecords slot.records listing model.pairs
  scoreSize_lt : ∀ score, scoreSize model.pairs score < 2 ^ 32
  card_lt : (scoresOf model.pairs).card < 2 ^ 32

variable {listing : Int64 → List Bytes} {pairs : Finset (Int64 × Bytes)}

section
variable {slot : Slot}

theorem zsetHolds_absent : ZSetHolds .absent none where
  head := rfl
  records := ⟨fun _ => [], OrderedMap.Encodes.empty, fun _ => nodup_nil,
    fun _ _ => by simp [ZSetModel.pairs], fun _ => by simp [NoEmpty]⟩
  scoreSize_lt := fun score => by change 13 < 2 ^ 32; decide
  card_lt := by decide

variable {records : Store}

theorem ScoreRecords.mem_scoresOf (hrecords : ScoreRecords records listing pairs) (score : Int64) :
    score ∈ scoresOf pairs ↔ listing score ≠ [] := by
  rw [scoresOf, Finset.mem_image]
  constructor
  · rintro ⟨⟨_, member⟩, hpair, rfl⟩
    exact ne_nil_of_mem ((hrecords.mem_iff _ member).mpr hpair)
  · intro hne
    obtain ⟨member, hmember⟩ := exists_mem_of_ne_nil _ hne
    exact ⟨(score, member), (hrecords.mem_iff score member).mp hmember, rfl⟩

theorem ScoreRecords.zsetBytes_length_le (hrecords : ScoreRecords records listing pairs)
    (score : Int64) : (zsetBytes 0 (listing score)).length ≤ scoreSize pairs score := by
  have hfilter : pairs.filter (fun pair => pair.1 = score) =
      (listing score).toFinset.image (Prod.mk score) := by
    ext ⟨other, member⟩
    simp only [Finset.mem_filter, Finset.mem_image, mem_toFinset, hrecords.mem_iff, Prod.mk.injEq]
    constructor
    · rintro ⟨hpair, rfl⟩
      exact ⟨member, hpair, rfl, rfl⟩
    · rintro ⟨_, hpair, rfl, rfl⟩
      exact ⟨hpair, rfl⟩
  have hlength := packedStrings_length_le (listing score)
  rw [scoreSize, hfilter, Finset.sum_image (fun _ _ _ _ heq => (Prod.mk.inj heq).2),
    sum_toFinset _ (hrecords.nodup score), zsetBytes, length_append, length_append,
    headBytes_length, intBytes_length]
  change 9 + (4 + _) ≤ 13 + ((listing score).map fun text => 4 + text.length).sum
  omega

def addMember (listing : Int64 → List Bytes) (pair : Bytes × Int64) : Int64 → List Bytes :=
  if pair.1 ∈ listing pair.2 then listing
  else update listing pair.2 (listing pair.2 ++ [pair.1])

def addScore (listing : Int64 → List Bytes) (size : Nat) (pair : Bytes × Int64) : Nat :=
  if listing pair.2 = [] then size + 1 else size

def putScore (listing : Int64 → List Bytes) (size : Nat) (pair : Bytes × Int64) :
    List SlotWrite :=
  .putHead (zsetMeta (addScore listing size pair)) ::
    if pair.1 ∈ listing pair.2 then []
    else [.put (intBytes .big pair.2) (zsetBytes 0 (listing pair.2 ++ [pair.1]))]

def putScores (listing : Int64 → List Bytes) (size : Nat) : List (Bytes × Int64) → List SlotWrite
  | [] => []
  | pair :: rest =>
    putScore listing size pair ++ putScores (addMember listing pair) (addScore listing size pair) rest

theorem card_scoresOf_insert (hrecords : ScoreRecords records listing pairs) (pair : Bytes × Int64)
    : (scoresOf (insert pair.swap pairs)).card = addScore listing (scoresOf pairs).card pair := by
  have hscore := hrecords.mem_scoresOf pair.2
  rw [scoresOf, Finset.image_insert, addScore]
  split
  · rename_i hnil
    exact Finset.card_insert_of_notMem fun hmem => hscore.mp hmem hnil
  · rename_i hne
    exact congrArg Finset.card (Finset.insert_eq_of_mem (hscore.mpr hne))

variable {pair : Bytes × Int64}

theorem ScoreRecords.put (hrecords : ScoreRecords slot.records listing pairs)
    (hmember : pair.1 ≠ []) :
    ScoreRecords (slot.applyAll (putScore listing (scoresOf pairs).card pair)).records
      (addMember listing pair) (insert pair.swap pairs) := by
  obtain ⟨member, score⟩ := pair
  have hknown := hrecords.mem_iff score member
  by_cases hmem : member ∈ listing score
  · have hinsert : insert (score, member) pairs = pairs := Finset.insert_eq_of_mem (hknown.mp hmem)
    simp only [putScore, addMember, hmem, ↓reduceIte, Prod.swap_prod_mk, hinsert]
    exact hrecords
  · have hnew : (score, member) ∉ pairs := fun hpair => hmem (hknown.mpr hpair)
    have hlisting : addMember listing (member, score) =
        update listing score (listing score ++ [member]) := if_neg hmem
    rw [hlisting, putScore, if_neg hmem]
    refine ⟨?_, ?_, ?_, ?_⟩
    · refine (hrecords.encodes.put (intBytes_injective .big) score _).congr ?_
      funext probe
      simp only [update_apply]
      split
      · cases listing score <;> rfl
      · rfl
    · intro probe
      rw [update_apply]
      split
      · rw [← concat_eq_append]
        exact (hrecords.nodup score).concat hmem
      · exact hrecords.nodup probe
    · intro probe other
      rw [update_apply]
      split
      · rename_i hprobe
        subst hprobe
        simp [hrecords.mem_iff, or_comm]
      · rename_i hprobe
        simp [hrecords.mem_iff, hprobe]
    · intro probe
      rw [update_apply]
      split
      · intro text htext
        rcases mem_append.mp htext with hold | hnew
        · exact hrecords.nonempty score text hold
        · rw [mem_singleton.mp hnew]
          exact hmember
      · exact hrecords.nonempty probe

variable {entries : List (Bytes × Int64)}

theorem ScoreRecords.putAll (hrecords : ScoreRecords slot.records listing pairs)
    (hentries : ∀ pair ∈ entries, pair.1 ≠ []) :
    (∃ listing', ScoreRecords
      (slot.applyAll (putScores listing (scoresOf pairs).card entries)).records listing'
      (pairs ∪ (entries.map Prod.swap).toFinset)) ∧
    (slot.applyAll (putScores listing (scoresOf pairs).card entries)).head =
      if entries = [] then slot.head
      else some (zsetMeta (scoresOf (pairs ∪ (entries.map Prod.swap).toFinset)).card) := by
  induction entries generalizing slot listing pairs with
  | nil =>
    rw [map_nil, toFinset_nil, Finset.union_empty]
    exact ⟨⟨listing, hrecords⟩, rfl⟩
  | cons pair rest ih =>
    have hfirst := hrecords.put (hentries pair (by simp))
    have hcard := card_scoresOf_insert hrecords pair
    obtain ⟨hrest, hhead⟩ := ih hfirst fun other hmem => hentries other (by simp [hmem])
    have hpairs : insert pair.swap pairs ∪ (rest.map Prod.swap).toFinset =
        pairs ∪ ((pair :: rest).map Prod.swap).toFinset := by
      rw [map_cons, toFinset_cons, Finset.insert_union, Finset.union_insert]
    rw [hpairs, hcard] at hrest hhead
    rw [putScores, Slot.applyAll, foldl_append]
    refine ⟨hrest, hhead.trans ?_⟩
    rw [if_neg (cons_ne_nil pair rest)]
    by_cases hnil : rest = []
    · subst hnil
      rw [if_pos rfl, ← hpairs, map_nil, toFinset_nil, Finset.union_empty, hcard, putScore]
      split <;> rfl
    · rw [if_neg hnil]

variable {stored : Int64 → List Bytes} {records : Store}
  (hrecords : ScoreRecords records stored pairs) (hfits : ∀ score, scoreSize pairs score < 2 ^ 32)
include hrecords hfits

theorem storedScore_eq (score : Int64) :
    ∃ buffer : LaserSerializer, storedScore (zsetBytes 0 (stored score)) =
      ⟨⟨buffer, .ZSET, 0⟩, stored score⟩ := by
  obtain ⟨buffer, hdecode⟩ := zset_decode
    (LaserValue.setRawBuffer LaserValueZSet.new (zsetBytes 0 (stored score))) rfl
    (hrecords.nonempty score) ((hrecords.zsetBytes_length_le score).trans_lt (hfits score))
  exact ⟨buffer, by rw [storedScore, hdecode]; rfl⟩

variable {record : Bytes → Option Bytes} {renew : UInt64 → UInt64}

theorem scoreWrites_round (hrenew : ∀ time, renew time = time)
    (hrecord : record (intBytes .big pair.2) = scoreRecord (stored pair.2))
    (hgrown : stored pair.2 ⊆ listing pair.2)
    (huntouched : pair.1 ∉ stored pair.2 → listing pair.2 = stored pair.2) (size : Nat)
    (rest : List (Bytes × Int64)) :
    scoreWrites renew record .ZSET 0 (UInt32.ofNat size) (pair :: rest) =
      putScore listing size pair ++
        scoreWrites renew record .ZSET 0 (UInt32.ofNat (addScore listing size pair)) rest := by
  obtain ⟨member, score⟩ := pair
  obtain ⟨buffer, hscore⟩ := storedScore_eq hrecords hfits score
  dsimp only at hrecord hgrown huntouched
  cases hstored : stored score with
  | nil =>
    have hlisting : listing score = [] := (huntouched (by simp [hstored])).trans hstored
    rw [hstored] at hrecord
    simp [scoreWrites, hrecord, scoreRecord, putScore, addScore, hlisting, hrenew, zsetMeta]
  | cons first others =>
    rw [hstored] at hrecord hgrown huntouched hscore
    have hlisting : listing score ≠ [] := ne_nil_of_mem (hgrown (mem_cons_self ..))
    by_cases hmem : member ∈ first :: others
    · simp only [scoreWrites, hrecord, scoreRecord, hscore, if_pos hmem, putScore, addScore,
        if_neg hlisting, if_pos (hgrown hmem)]
      rfl
    · have hkept := huntouched hmem
      simp only [scoreWrites, hrecord, scoreRecord, hscore, if_neg hmem, putScore, addScore, hkept,
        grownBytes, hrenew]
      simp [zsetBytes, zsetMeta]

theorem scoreWrites_eq (hrenew : ∀ time, renew time = time)
    (hrecord : ∀ score, record (intBytes .big score) = scoreRecord (stored score)) (size : Nat)
    (hgrown : ∀ score, stored score ⊆ listing score)
    (huntouched : ∀ pair ∈ entries, pair.1 ∉ stored pair.2 → listing pair.2 = stored pair.2)
    (hdistinct : entries.Pairwise fun left right =>
      left.1 ∉ stored left.2 → right.1 ∉ stored right.2 → left.2 ≠ right.2) :
    scoreWrites renew record .ZSET 0 (UInt32.ofNat size) entries = putScores listing size entries := by
  induction entries generalizing listing size with
  | nil => rfl
  | cons pair rest ih =>
    obtain ⟨hfirst, hrest⟩ := pairwise_cons.mp hdistinct
    have hgrown' : ∀ score, stored score ⊆ addMember listing pair score := by
      intro score member hmember
      have hlisted := hgrown score hmember
      unfold addMember
      split
      · exact hlisted
      · rw [update_apply]
        split
        · rename_i hscore
          exact mem_append_left _ (hscore ▸ hlisted)
        · exact hlisted
    have huntouched' : ∀ other ∈ rest, other.1 ∉ stored other.2 →
        addMember listing pair other.2 = stored other.2 := by
      intro other hother hnew
      have hbefore := huntouched other (by simp [hother]) hnew
      unfold addMember
      split
      · exact hbefore
      · rename_i hmember
        have hne : other.2 ≠ pair.2 :=
          (hfirst other hother (fun hmem => hmember (hgrown _ hmem)) hnew).symm
        rw [update_of_ne hne, hbefore]
    rw [scoreWrites_round hrecords hfits hrenew (hrecord pair.2) (hgrown pair.2)
      (huntouched pair (by simp)), putScores, ih _ hgrown' huntouched' hrest]

end

section
variable {engine : RocksDbEngine} {env : Env} {key : LaserKey} {model : ZSetModel}
  (henv : env.Healthy) (hplain : engine.Plain) (hholds : ZSetHolds (slot engine.db.store key) model)
include henv hplain hholds

theorem zaddPlan_eq {memberScores : OrderedMap Bytes Int64}
    (hrecords : ScoreRecords (slot engine.db.store key).records listing model.pairs)
    (hguard : ZSetOp.guard (.zadd memberScores) model) :
    engine.zaddPlan env (getFormatKey key) memberScores = .ok ((), batchOf key
        (putScores listing (scoresOf model.pairs).card memberScores.entries)) := by
  obtain ⟨-, hscores, -⟩ := hguard
  have hdistinct : memberScores.entries.Pairwise fun left right =>
      left.1 ∉ listing left.2 → right.1 ∉ listing right.2 → left.2 ≠ right.2 := by
    have hkeys := memberScores.keys_nodup
    rw [List.Nodup, pairwise_map] at hkeys
    refine hkeys.imp_of_mem ?_
    intro left right hleft hright hne hleftNew hrightNew hscore
    rw [hrecords.mem_iff] at hleftNew hrightNew
    exact hne (congrArg Prod.fst (hscores left hleft right hright hscore hleftNew hrightNew))
  have hwrites {record : Bytes → Option Bytes}
      (hrecord : ∀ score, record (intBytes .big score) = scoreRecord (listing score)) :=
    scoreWrites_eq hrecords hholds.scoreSize_lt (stamp_of_noTtl engine env hplain.noTtl) hrecord
      (scoresOf model.pairs).card (fun _ => List.Subset.refl _) (fun _ _ _ => rfl) hdistinct
  by_cases hentries : memberScores.entries = []
  · simp only [zaddPlan, readOptional_head henv, hentries, zaddLoop, ok_bind, pure_eq_ok]
    rfl
  rw [plan_zadd henv hentries]
  cases model with
  | none =>
    have hfound : (slot engine.db.store key).Finds (new : LaserValueZSetMeta) none := hholds.head
    have hempty (score : Int64) : listing score = [] :=
      eq_nil_iff_forall_not_mem.mpr fun member hmember => by
        simpa [ZSetModel.pairs] using (hrecords.mem_iff score member).mp hmember
    rw [Slot.plan_of_finds hfound, zaddWrites, stamp_of_noTtl _ _ hplain.noTtl]
    refine congrArg (fun writes => Except.ok ((), batchOf key writes)) ?_
    exact hwrites fun score => by rw [hempty]; rfl
  | some pairs =>
    obtain ⟨buffer, hfound⟩ := finds_sizeMeta hholds.head
    rw [Slot.plan_of_finds hfound, zaddWrites, stamp_of_noTtl _ _ hplain.noTtl]
    refine congrArg (fun writes => Except.ok ((), batchOf key writes)) ?_
    exact hwrites hrecords.encodes.get_place

theorem zset_step {op : ZSetOp} (hguard : op.guard model) :
    ∃ reply writes, (op.call key).exec env engine =
        (reply, engine.withStore ((batchOf key writes).apply engine.db.store)) ∧
      op.allows model reply ∧
      ZSetHolds ((slot engine.db.store key).applyAll writes) (op.next model) := by
  obtain ⟨memberScores⟩ := op
  obtain ⟨listing, hrecords⟩ := hholds.records
  have hplan := zaddPlan_eq henv hplain hholds hrecords hguard
  obtain ⟨hmembers, -, hsizes, hcard⟩ := hguard
  obtain ⟨hnext, hhead⟩ := hrecords.putAll hmembers
  refine ⟨(.OK, .nothing), putScores listing (scoresOf model.pairs).card memberScores.entries,
    ?_, rfl, ?_⟩
  · simp only [ZSetOp.call, Call.exec, zadd, hplan, commit_ok henv hplain.leader, answer]
  · by_cases hnil : memberScores.entries = []
    · rw [ZSetOp.next, if_pos hnil, hnil]
      exact hholds
    · rw [if_neg hnil] at hhead
      rw [ZSetOp.next, if_neg hnil] at hsizes hcard ⊢
      exact ⟨hhead, hnext, hsizes, hcard⟩

end

def zsetKind : Kind ZSetOp ZSetModel where
  call := ZSetOp.call
  next := ZSetOp.next
  allows := ZSetOp.allows
  guard := fun _ op model => op.guard model
  holds := fun _ => ZSetHolds
  step := fun henv hplain _ hholds hguard => zset_step henv hplain hholds hguard

structure StoredZSet (store : Store) (key : LaserKey) (pairs : Finset (Int64 × Bytes)) : Prop where
  size : ∃ bytes, store.get key.metaKey = some bytes ∧
    ∃ found, (ofBuffer bytes : LaserValueZSetMeta).decode = (.accepted, found) ∧
      found.size.toNat = (scoresOf pairs).card
  members : ∀ score ∈ scoresOf pairs, ∃ bytes, store.get (key.dataKey (.score score)) = some bytes ∧
    ∃ found, (LaserValueZSet.ofBuffer bytes).decode = (.accepted, found) ∧
      found.members.Nodup ∧ ∀ member, member ∈ found.members ↔ (score, member) ∈ pairs
  others : ∀ bytes, key.stem <+: bytes → store.get bytes ≠ none →
    ∃ score ∈ scoresOf pairs, bytes = key.dataKey (.score score)

theorem ZSetHolds.storedZSet {store : Store} {key : LaserKey}
    (hholds : ZSetHolds (slot store key) (some pairs)) : StoredZSet store key pairs := by
  obtain ⟨listing, hrecords⟩ := hholds.records
  change ScoreRecords _ listing pairs at hrecords
  refine ⟨?_, ?_, ?_⟩
  · obtain ⟨buffer, hdecode⟩ :=
      sizeMeta_decode (ofBuffer (zsetMeta (scoresOf pairs).card) : LaserValueZSetMeta) rfl
    exact ⟨_, hholds.head, _, hdecode, UInt32.toNat_ofNat_of_lt' hholds.card_lt⟩
  · intro score hscore
    rw [hrecords.mem_scoresOf] at hscore
    have hget := hrecords.encodes.get_place score
    have hlength := (hrecords.zsetBytes_length_le score).trans_lt (hholds.scoreSize_lt score)
    obtain ⟨buffer, hdecode⟩ := zset_decode (LaserValueZSet.ofBuffer (zsetBytes 0 (listing score)))
      rfl (hrecords.nonempty score) hlength
    refine ⟨zsetBytes 0 (listing score), ?_, _, hdecode, ?_, ?_⟩
    · rw [LaserKey.dataKey_eq, ← get_under]
      refine hget.trans ?_
      cases hlisting : listing score with
      | nil => exact absurd hlisting hscore
      | cons first rest => rfl
    · exact hrecords.nodup score
    · exact hrecords.mem_iff score
  · rintro bytes ⟨suffix, rfl⟩ hpresent
    rw [← get_under, Option.ne_none_iff_exists'] at hpresent
    obtain ⟨value, hvalue⟩ := hpresent
    obtain ⟨score, rfl⟩ := hrecords.encodes.placed suffix value hvalue
    refine ⟨score, ?_, (LaserKey.dataKey_eq key (.score score)).symm⟩
    rw [hrecords.mem_scoresOf]
    intro hlisting
    have hget := (hrecords.encodes.get_place score).symm.trans hvalue
    rw [hlisting] at hget
    cases hget

theorem ZSetHolds.eq_absent {slot : Slot} (hholds : ZSetHolds slot none) : slot = .absent := by
  obtain ⟨listing, hrecords⟩ := hholds.records
  have hlisting : listing = fun _ => [] := by
    funext score
    rw [eq_nil_iff_forall_not_mem]
    intro member hmember
    exact absurd ((hrecords.mem_iff score member).mp hmember) (Finset.notMem_empty _)
  subst hlisting
  exact Slot.eq_absent hholds.head (OrderedMap.Encodes.eq_empty hrecords.encodes)

/-- In every run of `zadd` calls on the keys in `keys` each call answers OK, and
the records of each key are those of the pairs that were added to it. -/
theorem zadd_refines_pairs (keys : LaserKey → Prop) (engine : RocksDbEngine) (hplain : engine.Plain)
    (hfresh : ∀ key, keys key → key.Valid → slot engine.db.store key = .absent)
    (inputs : List (Kind.Input ZSetOp))
    (hguarded : Simulation.Guarded zsetKind.nextAll (zsetKind.guardAll keys) inputs
      fun _ => none) :
    Simulation.Conforms zsetKind.exec zsetKind.nextAll zsetKind.allowsAll inputs engine
      (fun _ => none) ∧
    let reached := Simulation.finalState (fun input engine => (zsetKind.exec input engine).2)
      inputs engine
    let models := Simulation.finalState zsetKind.nextAll inputs fun _ => none
    ∀ key, keys key → key.Valid → (models key = none → slot reached.db.store key = .absent) ∧
      ∀ pairs, models key = some pairs → StoredZSet reached.db.store key pairs := by
  have hstart : zsetKind.Holds keys engine fun _ => none := by
    refine ⟨hplain, ?_⟩
    intro key hkeys hvalid
    rw [hfresh key hkeys hvalid]
    exact zsetHolds_absent
  refine ⟨(zsetKind.simulates keys).conforms hstart hguarded, ?_⟩
  intro reached models key hkeys hvalid
  have hholds : ZSetHolds (slot reached.db.store key) (models key) :=
    ((zsetKind.simulates keys).finalState hstart hguarded).2 key hkeys hvalid
  refine ⟨?_, ?_⟩
  · intro hnone
    rw [hnone] at hholds
    exact hholds.eq_absent
  · intro pairs hpairs
    rw [hpairs] at hholds
    exact hholds.storedZSet

/-- Two members with different scores, then a third one with an old score. -/
theorem zadd_refines_pairs_example :
    let key : LaserKey := ⟨[[97]], []⟩
    let inputs : List (Kind.Input ZSetOp) :=
      [(Env.at 1, key, .zadd (ofPairs [([97], 1), ([98], -2)])),
        (Env.at 1, key, .zadd (ofPairs [([99], 1)]))]
    let reached := Simulation.finalState (fun input engine => (zsetKind.exec input engine).2)
      inputs RocksDbEngine.fresh
    StoredZSet reached.db.store key {(1, [97]), (-2, [98]), (1, [99])} := by
  intro key inputs reached
  have hsmall (pairs : Finset (Int64 × Bytes))
      (htotal : 13 + ∑ pair ∈ pairs, (4 + pair.2.length) < 2 ^ 32) (score : Int64) :
      scoreSize pairs score < 2 ^ 32 :=
    (Nat.add_le_add_left (Finset.sum_le_sum_of_subset (Finset.filter_subset _ _)) 13).trans_lt
      htotal
  have hrun := zadd_refines_pairs (fun _ => True) RocksDbEngine.fresh RocksDbEngine.fresh_plain
    (fun key _ _ => slot_empty key) inputs ⟨?_, ?_, trivial⟩
  · exact (hrun.2 key trivial (by decide)).2 _ (by decide)
  · exact ⟨Env.at_healthy 1, trivial, by decide, by decide, by decide, hsmall _ (by decide),
      by decide⟩
  · exact ⟨Env.at_healthy 1, trivial, by decide, by decide, by decide, hsmall _ (by decide),
      by decide⟩

/-- Two new members of one call with the same score: one is lost, and the score
is counted twice. -/
theorem zadd_same_score_lost :
    let key : LaserKey := ⟨[[97]], []⟩
    let call := Call.zadd key (ofPairs [([97], 1), ([98], 1)])
    let reached := (call.exec (Env.at 1) RocksDbEngine.fresh).2
    reached.db.store.get (key.dataKey (.score 1)) = some (zsetBytes 0 [[98]]) ∧
      reached.db.store.get key.metaKey = some (zsetMeta 2) ∧
      ¬StoredZSet reached.db.store key {(1, [97]), (1, [98])} := by
  intro key call reached
  have hmeta : reached.db.store.get key.metaKey = some (zsetMeta 2) := by decide
  refine ⟨by decide, hmeta, ?_⟩
  rintro ⟨⟨bytes, hget, found, hdecode, hsize⟩, -, -⟩
  obtain ⟨buffer, haccept⟩ := sizeMeta_decode (ofBuffer (zsetMeta 2) : LaserValueZSetMeta) rfl
  obtain rfl : bytes = zsetMeta 2 := Option.some.inj (hget.symm.trans hmeta)
  rw [haccept] at hdecode
  obtain rfl := (Prod.mk.inj hdecode).2
  change (UInt32.ofNat 2).toNat = _ at hsize
  exact absurd hsize (by decide)

end LaserDB
