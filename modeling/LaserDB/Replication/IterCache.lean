import LaserDB.Library.Simulation
import LaserDB.Replication.GetUpdates

/-!
# Where the cached iterators stand

While the requests of a node start where batches start, each of its iterators stands at the number
it is cached under.
-/

namespace LaserDB

open List Function Nat ReplicationSource Simulation
open TransactionLogIterator (load)
open SequencedLog (total startOf placeOf)

variable {iter : TransactionLogIterator} {log : WriteAheadLog} {seqNo : Nat}

variable (kept : Nat → Bool)

namespace WriteAheadLog

/-- The iterator stands at the batch that starts with a sequence number, or where
the next one will be written. -/
structure StandsAt (log : WriteAheadLog) (seqNo : Nat) (iter : TransactionLogIterator) : Prop where
  position_le : iter.position ≤ log.batches.length
  sequence_eq : log.sequence iter.position = seqNo
  lt_of_valid : iter.valid = true → iter.position < log.batches.length

theorem StandsAt.write (hstands : log.StandsAt seqNo iter) (batch : WriteBatch) :
    (log.write batch).StandsAt seqNo iter where
  position_le := by
    simp only [WriteAheadLog.write, length_append]
    exact le_add_right_of_le hstands.position_le
  sequence_eq := by
    rw [← hstands.sequence_eq]
    exact SequencedLog.startOf_append log.batches [batch] hstands.position_le
  lt_of_valid := by
    intro hvalid
    simp only [WriteAheadLog.write, length_append]
    exact Nat.lt_add_right _ (hstands.lt_of_valid hvalid)

theorem StandsAt.truncate (hstands : log.StandsAt seqNo iter) (count : Nat) :
    (log.truncate count).StandsAt seqNo iter :=
  ⟨hstands.position_le, hstands.sequence_eq, hstands.lt_of_valid⟩

theorem standsAt_load (log : WriteAheadLog) {position : Nat}
    (hposition : position ≤ log.batches.length) :
    log.StandsAt (log.sequence position) (.load kept log position) where
  position_le := hposition
  sequence_eq := rfl
  lt_of_valid := by
    intro hvalid
    simp only [load, Bool.and_eq_true, decide_eq_true_eq] at hvalid
    exact hvalid.1

theorem StandsAt.next_of_invalid (hstands : log.StandsAt seqNo iter) (kept : Nat → Bool)
    (hvalid : iter.valid = false) : log.StandsAt seqNo (iter.next kept log) := by
  have hload := standsAt_load kept log hstands.position_le
  rw [hstands.sequence_eq] at hload
  unfold TransactionLogIterator.next
  rw [hvalid]
  exact hload

def Aligned (log : WriteAheadLog) (seqNo : Int) : Prop :=
  log.getLatestSequenceNumber ≤ seqNo ∨ ∃ place < log.batches.length, log.sequence place = seqNo + 1

theorem Aligned.nonneg {seqNo : Int} (haligned : log.Aligned seqNo) : 0 ≤ seqNo := by
  rcases haligned with hbehind | ⟨place, -, hsequence⟩
  · omega
  · have hpos : 0 < log.sequence place := succ_pos _
    omega

def Kept (log : WriteAheadLog) (seqNo : Int) : Prop :=
  ∀ place < log.removed, log.sequence place = seqNo + 1 → log.removed = log.batches.length

/-- Batches in a row that one response can hold have less than `2 ^ 32` records together. -/
def Counted (log : WriteAheadLog) (maxSize : Nat) : Prop :=
  ∀ updates, updates <:+: log.batches → total WriteBatch.dataSize updates.dropLast < maxSize →
    total WriteBatch.count updates < 2 ^ 32

theorem Counted.of_total (htotal : log.getLatestSequenceNumber < 2 ^ 32) (maxSize : Nat) :
    log.Counted maxSize := by
  rintro updates ⟨before, after, hbatches⟩ -
  rw [getLatestSequenceNumber, ← hbatches, SequencedLog.total_append,
    SequencedLog.total_append] at htotal
  omega

end WriteAheadLog

theorem asSequence_add {value : Int} (hvalue : 0 ≤ value) (count : Nat) :
    asSequence (value + count) = asSequence value + count := by
  obtain ⟨number, rfl⟩ := Int.eq_ofNat_of_zero_le hvalue
  rfl

theorem natCast_asSequence {value : Int} (hvalue : 0 ≤ value) : (asSequence value : Int) = value := by
  obtain ⟨number, rfl⟩ := Int.eq_ofNat_of_zero_le hvalue
  rfl

theorem toDigits_injective : Function.Injective (toDigits 10) := by
  intro number other heq
  have hvalue := congrArg (fun digits => ofDigitChars 10 digits 0) heq
  simpa only [ofDigitChars_toDigits (by decide : 1 < 10) (by decide : 10 ≤ 10)] using hvalue

theorem minus_not_mem_toDigits (number : Nat) : '-' ∉ toDigits 10 number := by
  intro hmem
  exact absurd (isDigit_of_mem_toDigits (by decide) (by decide) hmem) (by decide)

theorem decimal_injective : Function.Injective decimal := by
  intro number other heq
  cases number with
  | ofNat number =>
    cases other with
    | ofNat other => rw [toDigits_injective heq]
    | negSucc other =>
      have hmem : '-' ∈ toDigits 10 number := by
        rw [show toDigits 10 number = _ from heq]
        exact mem_cons_self
      exact absurd hmem (minus_not_mem_toDigits number)
  | negSucc number =>
    cases other with
    | ofNat other =>
      have hmem : '-' ∈ toDigits 10 other := by
        rw [← show _ = toDigits 10 other from heq]
        exact mem_cons_self
      exact absurd hmem (minus_not_mem_toDigits other)
    | negSucc other => rw [succ_injective (toDigits_injective (cons.inj heq).2)]

namespace ReplicationSource

theorem collectUpdates_spec (log : WriteAheadLog) (maxSize : Nat) {updateSize : Nat}
    {rest : List WriteBatch} (hrest : rest = log.batches.drop iter.position)
    (hposition : iter.position ≤ log.batches.length)
    (hlt : iter.valid = true → iter.position < log.batches.length) {updates : List WriteBatch}
    {last : TransactionLogIterator}
    (hcollect : collectUpdates kept log maxSize updateSize iter rest = (updates, last)) :
    updates <+: rest ∧ last.position = iter.position + updates.length ∧
      last.position ≤ log.batches.length ∧
      (last.valid = true → last.position < log.batches.length) ∧
      (updateSize < maxSize → iter.valid = true → updates ≠ []) := by
  induction rest generalizing updateSize iter updates last with
  | nil =>
    cases hcollect
    refine ⟨prefix_refl _, rfl, hposition, hlt, ?_⟩
    intro _ hvalid
    have hnil := congrArg length hrest
    rw [length_drop, length_nil] at hnil
    have := hlt hvalid
    omega
  | cons batch rest ih =>
    rw [collectUpdates] at hcollect
    split at hcollect
    · rename_i hloop
      have hat := hlt hloop.2
      have hnext : iter.next kept log = .load kept log (iter.position + 1) := by
        simp only [TransactionLogIterator.next, hloop.2, if_true]
      have hdrop : rest = log.batches.drop (iter.position + 1) := by
        rw [drop_eq_getElem_cons hat] at hrest
        exact (cons.inj hrest).2
      have hstands : log.StandsAt _ (.load kept log (iter.position + 1)) :=
        WriteAheadLog.standsAt_load kept log (succ_le_of_lt hat)
      rw [hnext] at hcollect
      obtain ⟨hbegins, hlast, hle, hvalid, -⟩ :=
        ih hdrop hstands.position_le hstands.lt_of_valid rfl
      cases hcollect
      refine ⟨(prefix_cons_inj batch).mpr hbegins, ?_, hle, hvalid, fun _ _ => cons_ne_nil _ _⟩
      rw [hlast, length_cons]
      simp only [load]
      omega
    · rename_i hstop
      cases hcollect
      exact ⟨ nil_prefix, rfl, hposition, hlt, fun hsize hvalid => absurd ⟨hsize, hvalid⟩ hstop⟩

theorem collectUpdates_size (log : WriteAheadLog) (maxSize updateSize : Nat)
    (iter : TransactionLogIterator) (rest : List WriteBatch) :
    (collectUpdates kept log maxSize updateSize iter rest).1 <+: rest ∧
      ((collectUpdates kept log maxSize updateSize iter rest).1 ≠ [] → updateSize + total
        WriteBatch.dataSize (collectUpdates kept log maxSize updateSize iter rest).1.dropLast <
          maxSize) := by
  induction rest generalizing updateSize iter with
  | nil => exact ⟨prefix_rfl, fun hne => absurd rfl hne⟩
  | cons batch rest ih =>
    rw [collectUpdates]
    split
    · rename_i hloop
      obtain ⟨hbegins, hsize⟩ := ih (updateSize + batch.dataSize) (iter.next kept log)
      refine ⟨(prefix_cons_inj batch).mpr hbegins, fun _ => ?_⟩
      dsimp only
      rcases eq_or_ne (collectUpdates kept log maxSize (updateSize + batch.dataSize)
        (iter.next kept log) rest).1 [] with hnil | hne
      · rw [hnil]
        exact hloop.1
      · have hsize := hsize hne
        rw [dropLast_cons_of_ne_nil hne]
        simp only [total, map_cons, sum_cons] at hsize ⊢
        omega
    · exact ⟨ nil_prefix, fun hne => absurd rfl hne⟩

theorem toNat_batchNumbers (updates : List WriteBatch) :
    (batchNumbers updates).toNat = total WriteBatch.count updates % 2 ^ 32 := by
  unfold batchNumbers total
  induction updates with
  | nil => rfl
  | cons batch updates ih =>
    rw [map_cons, sum_cons, map_cons, sum_cons, UInt32.toNat_add, ih, UInt32.toNat_ofNat',
      ← Nat.add_mod]

theorem toNat_batchNumbers_readUpdates {maxSize : Nat} (hcounted : log.Counted maxSize)
    (iter : Option TransactionLogIterator) :
    (batchNumbers (readUpdates kept log maxSize iter).1).toNat =
      total WriteBatch.count (readUpdates kept log maxSize iter).1 := by
  cases iter with
  | none => rfl
  | some iter =>
    obtain ⟨hbegins, hsize⟩ :=
      collectUpdates_size kept log maxSize 0 iter (log.batches.drop iter.position)
    rw [zero_add] at hsize
    simp only [readUpdates, toNat_batchNumbers]
    rcases eq_or_ne (collectUpdates kept log maxSize 0 iter _).1 [] with hnil | hne
    · rw [hnil]
      rfl
    · exact mod_eq_of_lt (hcounted _ (hbegins.isInfix.trans (drop_suffix ..).isInfix) (hsize hne))

theorem readUpdates_spec (maxSize : Nat) (hstands : log.StandsAt seqNo iter) :
    ∃ updates last, readUpdates kept log maxSize (some iter) = (updates, some last) ∧
      updates <+: log.batches.drop iter.position ∧
      log.StandsAt (seqNo + total WriteBatch.count updates) last ∧
      (0 < maxSize → iter.valid = true → updates ≠ []) := by
  obtain ⟨hbegins, hlast, hle, hlt, hsome⟩ :=
    collectUpdates_spec kept log maxSize rfl hstands.position_le hstands.lt_of_valid rfl
  refine ⟨_, _, rfl, hbegins, ⟨hle, ?_, hlt⟩, hsome⟩
  have hstart : log.sequence (iter.position + _) = log.sequence iter.position + _ :=
    SequencedLog.startOf_add hbegins
  rw [hlast, hstart, hstands.sequence_eq]

variable {nodes : Set Int}

section
variable {η : Type} [DecidableEq η] (cityHash64 : List Char → η)

def Placed (node : Int) (source : ReplicationSource η) : Prop :=
  ∀ seqNo cached iter, source.cachedIters (getIterHash cityHash64 seqNo node) = some cached →
    cached.iter = some iter → source.log.StandsAt seqNo iter

/-- The requests of these nodes are never mixed up: the text of a sequence number
and a node hash gives the number back. -/
def Unambiguous (nodes : Set Int) : Prop :=
  ∀ node ∈ nodes, ∀ other ∈ nodes, ∀ seqNo otherSeqNo,
    iterText seqNo node = iterText otherSeqNo other → seqNo = otherSeqNo

variable {cityHash64} {node : Int} {source : ReplicationSource η}
  (hplaced : Placed cityHash64 node source) (hinjective : Function.Injective cityHash64)
  (hnodes : Unambiguous nodes) (hnode : node ∈ nodes)

omit [DecidableEq η] in
theorem Placed.of_subset (hplaced : Placed cityHash64 node source) {cachedIters : η → Option CachedIter}
    (hsubset : ∀ hashKey cached, cachedIters hashKey = some cached →
      source.cachedIters hashKey = some cached) :
    Placed cityHash64 node { source with cachedIters := cachedIters } :=
  fun seqNo cached iter hcached hiter => hplaced seqNo cached iter (hsubset _ _ hcached) hiter

theorem update_none_subset (cachedIters : η → Option CachedIter) (taken : η) :
    ∀ hashKey cached, update cachedIters taken none hashKey = some cached →
      cachedIters hashKey = some cached := by
  intro hashKey cached hcached
  by_cases heq : hashKey = taken
  · rw [heq, update_self] at hcached
    cases hcached
  · rwa [update_of_ne heq] at hcached

variable (env : ServeEnv)

theorem getCachedIter_spec (seqNo : Nat) (other : Int) (hplaced : Placed cityHash64 node source) :
    ∃ cachedIters, (getCachedIter cityHash64 env seqNo other source).2 =
        { source with cachedIters := cachedIters } ∧
      Placed cityHash64 node { source with cachedIters := cachedIters } ∧
      (other = node → ∀ iter, (getCachedIter cityHash64 env seqNo other source).1 = some iter →
        source.log.StandsAt seqNo iter ∧ iter.valid = true) := by
  unfold getCachedIter
  dsimp only
  cases hcached : source.cachedIters (getIterHash cityHash64 seqNo other) with
  | none =>
    refine ⟨source.cachedIters, rfl, hplaced, ?_⟩
    intro _ iter hiter
    cases hiter
  | some cached =>
    dsimp only
    have htaken := hplaced.of_subset
      (update_none_subset source.cachedIters (getIterHash cityHash64 seqNo other))
    cases hiter : cached.iter with
    | none =>
      refine ⟨_, rfl, htaken, ?_⟩
      intro _ iter hnone
      cases hnone
    | some iter =>
      dsimp only
      cases hvalid : iter.valid with
      | true =>
        refine ⟨_, rfl, htaken, ?_⟩
        intro hother found hfound
        cases hfound
        subst hother
        exact ⟨hplaced seqNo cached iter hcached hiter, hvalid⟩
      | false =>
        refine ⟨_, rfl, htaken, ?_⟩
        intro hother found hfound
        subst hother
        have hstands := hplaced seqNo cached iter hcached hiter
        by_cases hmoved : (iter.next env.kept source.log).valid = true
        · simp only [Bool.false_eq_true, if_false, hmoved, if_true] at hfound
          cases hfound
          exact ⟨hstands.next_of_invalid env.kept hvalid, hmoved⟩
        · simp only [Bool.false_eq_true, if_false, hmoved] at hfound
          cases hfound

include hplaced hinjective hnodes hnode in
theorem Placed.putCachedIter {other : Int} (hother : other ∈ nodes) (env : ServeEnv) (seqNo : Nat)
    {iter : Option TransactionLogIterator}
    (hiter : other = node → ∀ found, iter = some found → source.log.StandsAt seqNo found) :
    Placed cityHash64 node (putCachedIter cityHash64 env seqNo other iter source) := by
  unfold ReplicationSource.putCachedIter
  dsimp only
  split
  · exact hplaced
  · intro asked cached found hcached hfound
    by_cases heq : getIterHash cityHash64 asked node = getIterHash cityHash64 seqNo other
    · have htext : iterText asked node = iterText seqNo other := hinjective heq
      have hseq := hnodes node hnode other hother _ _ htext
      subst hseq
      have hnodeEq : other = node := decimal_injective (append_cancel_left htext).symm
      simp only [heq, update_self, Option.some.injEq] at hcached
      subst hcached
      exact hiter hnodeEq found hfound
    · simp only [update_of_ne heq] at hcached
      exact hplaced asked cached found hcached hfound

inductive Opened (env : ServeEnv) (log : WriteAheadLog) (seqNo : Int) :
    RocksDbStatus × Option TransactionLogIterator → Prop where
  | standing {iter : TransactionLogIterator} (hseqNo : 0 ≤ seqNo)
      (hstands : log.StandsAt (asSequence (seqNo + 1)) iter) (hvalid : iter.valid = true) :
      Opened env log seqNo (.ok, some iter)
  | behind (hbehind : log.getLatestSequenceNumber ≤ seqNo) : Opened env log seqNo (.notFound, none)
  | gone (hgone : ∃ place < log.removed, log.sequence place = seqNo + 1) :
      Opened env log seqNo (.ok, some (.load env.kept log log.batches.length))
  | failed {fault : RocksDbFault} (hfault : env.fault = some fault) :
      Opened env log seqNo (.fault fault, none)

theorem opened_getUpdatesSince {seqNo : Int} (haligned : log.Aligned seqNo) (hkept : log.Kept seqNo) :
    Opened env log seqNo (log.getUpdatesSince env (asSequence (seqNo + 1))) := by
  have hseqNo := haligned.nonneg
  have hexpected : (asSequence (seqNo + 1) : Int) = seqNo + 1 := natCast_asSequence (by omega)
  unfold WriteAheadLog.getUpdatesSince
  cases hfault : env.fault with
  | some fault => exact .failed hfault
  | none =>
    dsimp only
    by_cases hlatest : log.getLatestSequenceNumber < asSequence (seqNo + 1)
    · rw [if_pos hlatest]
      exact .behind (by omega)
    · rw [if_neg hlatest]
      rcases haligned with hbehind | ⟨place, hplace, hsequence⟩
      · omega
      · have hstart : log.sequence place = asSequence (seqNo + 1) := by omega
        have hplaceOf : placeOf WriteBatch.count log.batches (asSequence (seqNo + 1)) = place := by
          rw [← hstart]
          exact SequencedLog.placeOf_startOf WriteBatch.count_pos hplace.le
        rw [hplaceOf]
        by_cases hremoved : log.removed ≤ place
        · rw [max_eq_right hremoved]
          have hstands := WriteAheadLog.standsAt_load env.kept log hplace.le
          rw [hstart] at hstands
          refine .standing hseqNo hstands ?_
          simp only [load, hplace, hremoved, decide_true, Bool.true_or, Bool.and_self]
        · have hall := hkept place (by omega) hsequence
          rw [max_eq_left (by omega), hall]
          exact .gone ⟨place, by omega, hsequence⟩

/-- The answer to a request is the one that was asked for: the next batches, nothing
when there is nothing yet, or that the log was removed. -/
def Answers (source : ReplicationSource η) (request : ReplicateRequest) :
    Except Status ReplicateResponse → Prop
  | .ok response =>
    (∃ place < source.log.batches.length, source.log.sequence place = request.seqNo + 1 ∧
      response.updates ≠ [] ∧
      response.updates.map Update.rawData <+: source.log.batches.drop place) ∨
    (response.updates = [] ∧ source.log.getLatestSequenceNumber ≤ request.seqNo)
  | .error status =>
    status = .RP_SOURCE_WAL_LOG_REMOVED ∧
      ∃ place < source.log.removed, source.log.sequence place = request.seqNo + 1

theorem map_rawData_of (updates : List WriteBatch) :
    (updates.map Update.of).map Update.rawData = updates := by
  rw [map_map]
  exact map_id updates

theorem readUpdates_gone (log : WriteAheadLog) (maxSize : Nat) :
    ∃ last, readUpdates kept log maxSize (some (.load kept log log.batches.length)) =
      ([], some last) := by
  obtain ⟨updates, last, hread, hbegins, -, -⟩ :=
    readUpdates_spec kept maxSize (WriteAheadLog.standsAt_load kept log (le_refl _))
  have hnil : updates = [] := by
    rw [show (load kept log log.batches.length).position =
      log.batches.length from rfl, drop_length] at hbegins
    exact prefix_nil.mp hbegins
  rw [hnil] at hread
  exact ⟨last, hread⟩

variable {response : ReplicateResponse}

section
variable {env : ServeEnv} {request : ReplicateRequest}
  {opened : RocksDbStatus × Option TransactionLogIterator}

theorem answer_answers (hopened : Opened env source.log request.seqNo opened)
    (hmaxSize : 0 < request.maxSize) (hfault : env.fault = none) :
    Answers source request (answer cityHash64 env request source opened).1 := by
  cases hopened with
  | @standing iter hseqNo hstands hvalid =>
    obtain ⟨updates, last, hread, hbegins, -, hsome⟩ :=
      readUpdates_spec env.kept request.maxSize hstands
    have hne := hsome hmaxSize hvalid
    simp only [answer, hread, hne, false_and, if_false]
    refine .inl ⟨iter.position, hstands.lt_of_valid hvalid, ?_, ?_, ?_⟩
    · rw [hstands.sequence_eq, natCast_asSequence (by omega)]
    · exact fun hnil => hne (map_eq_nil_iff.mp hnil)
    · rwa [map_rawData_of]
  | behind hbehind =>
    simp only [answer, readUpdates, ne_eq, not_true_eq_false, and_false, if_false]
    exact .inr ⟨rfl, hbehind⟩
  | gone hgone =>
    obtain ⟨last, hread⟩ := readUpdates_gone env.kept source.log request.maxSize
    simp only [answer, hread, ne_eq, reduceCtorEq, not_false_eq_true, and_self, if_true]
    exact ⟨rfl, hgone⟩
  | failed hsome =>
    rw [hfault] at hsome
    cases hsome

variable (source) in
theorem answer_updates (hopened : Opened env source.log request.seqNo opened)
    (hresponse : (answer cityHash64 env request source opened).1 = .ok response) :
    response.updates = [] ∨ ∃ place ≤ source.log.batches.length,
      source.log.sequence place = request.seqNo + 1 ∧
        response.updates.map Update.rawData <+: source.log.batches.drop place := by
  cases hopened with
  | @standing iter hseqNo hstands hvalid =>
    obtain ⟨updates, last, hread, hbegins, -⟩ := readUpdates_spec env.kept request.maxSize hstands
    simp only [answer, hread] at hresponse
    split at hresponse
    · cases hresponse
    · cases hresponse
      refine .inr ⟨iter.position, hstands.position_le, ?_, ?_⟩
      · rw [hstands.sequence_eq, natCast_asSequence (by omega)]
      · rwa [map_rawData_of]
  | behind =>
    simp only [answer, readUpdates, ne_eq, not_true_eq_false, and_false, if_false] at hresponse
    cases hresponse
    exact .inl rfl
  | gone =>
    obtain ⟨last, hread⟩ := readUpdates_gone env.kept source.log request.maxSize
    simp only [answer, hread, ne_eq, reduceCtorEq, not_false_eq_true, and_self, if_true]
      at hresponse
  | failed => cases hresponse

variable (cityHash64 env request source opened) in
theorem answer_source :
    (answer cityHash64 env request source opened).2 = source ∨
      ((readUpdates env.kept source.log request.maxSize opened.2).1 ≠ [] ∨ opened.1 = .notFound) ∧
      (answer cityHash64 env request source opened).2 =
        putCachedIter cityHash64 env (asSequence (request.seqNo + 1 +
            (batchNumbers (readUpdates env.kept source.log request.maxSize opened.2).1).toNat))
          request.nodeHash (readUpdates env.kept source.log request.maxSize opened.2).2 source := by
  obtain ⟨status, iter⟩ := opened
  cases status with
  | fault fault => exact .inl rfl
  | ok =>
    simp only [answer]
    split
    · exact .inl rfl
    · rename_i hput
      exact .inr ⟨.inl fun hnil => hput ⟨hnil, fun heq => by cases heq⟩, rfl⟩
  | notFound =>
    refine .inr ⟨.inr rfl, ?_⟩
    simp only [answer, ne_eq, not_true_eq_false, and_false, if_false]

include hplaced hinjective hnodes hnode in
theorem Placed.answer (hrequest : request.nodeHash ∈ nodes)
    (hopened : request.nodeHash = node → Opened env source.log request.seqNo opened ∧
      source.log.Counted request.maxSize) :
    Placed cityHash64 node (answer cityHash64 env request source opened).2 := by
  rcases answer_source cityHash64 source env request opened with hsame | ⟨hcause, hput⟩
  · rw [hsame]
    exact hplaced
  · rw [hput]
    refine hplaced.putCachedIter hinjective hnodes hnode hrequest env _ ?_
    intro hown found hfound
    obtain ⟨hopened, hcounted⟩ := hopened hown
    rw [toNat_batchNumbers_readUpdates env.kept hcounted]
    cases hopened with
    | standing hseqNo hstands =>
      obtain ⟨updates, last, hread, -, hlast, -⟩ := readUpdates_spec env.kept request.maxSize hstands
      rw [hread] at hfound ⊢
      cases hfound
      rw [asSequence_add (by omega)]
      exact hlast
    | gone =>
      obtain ⟨last, hread⟩ := readUpdates_gone env.kept source.log request.maxSize
      rcases hcause with hne | heq
      · exact absurd (congrArg Prod.fst hread) hne
      · cases heq
    | behind | failed => cases hfound

end

/-- The iterator of the request ends up where its cache key says. -/
structure Sited (source : ReplicationSource η) (request : ReplicateRequest) : Prop where
  aligned : source.log.Aligned request.seqNo
  kept : source.log.Kept request.seqNo
  counted : source.log.Counted request.maxSize

structure Fits (source : ReplicationSource η) (request : ReplicateRequest) : Prop
    extends source.Sited request where
  maxSize_pos : 0 < request.maxSize

section
variable {env : ServeEnv} {request : ReplicateRequest}

variable (hown : Placed cityHash64 request.nodeHash source)
include hown

theorem opened_of_placed (hsited : source.Sited request) :
    Opened env source.log request.seqNo (openIter env (asSequence (request.seqNo + 1)) source.log
      (getCachedIter cityHash64 env (asSequence (request.seqNo + 1)) request.nodeHash source).1) := by
  obtain ⟨-, -, -, hfound⟩ :=
    getCachedIter_spec env (asSequence (request.seqNo + 1)) request.nodeHash hown
  cases hcached : (getCachedIter cityHash64 env (asSequence (request.seqNo + 1)) request.nodeHash
      source).1 with
  | none => exact opened_getUpdatesSince env hsited.aligned hsited.kept
  | some iter =>
    obtain ⟨hstands, hvalid⟩ := hfound rfl iter hcached
    exact .standing hsited.aligned.nonneg hstands hvalid

theorem getUpdates_own (hfits : source.Fits request) (hfault : env.fault = none)
    (hversion : request.version = source.version) (hleader : source.role = .LEADER) :
    Answers source request (getUpdates cityHash64 env request source).1 := by
  obtain ⟨cachedIters, hsource, -, -⟩ :=
    getCachedIter_spec env (asSequence (request.seqNo + 1)) request.nodeHash hown
  have hrole : source.role ≠ .FOLLOWER := by
    rw [hleader]
    decide
  unfold getUpdates
  rw [if_neg (not_not.mpr hversion), if_neg hrole]
  dsimp only
  rw [hsource]
  exact answer_answers (opened_of_placed hown hfits.toSited) hfits.maxSize_pos hfault

theorem getUpdates_updates (hsited : source.Sited request)
    (hresponse : (getUpdates cityHash64 env request source).1 = .ok response) :
    response.updates = [] ∨ ∃ place ≤ source.log.batches.length,
      source.log.sequence place = request.seqNo + 1 ∧
        response.updates.map Update.rawData <+: source.log.batches.drop place := by
  obtain ⟨cachedIters, hsource, -, -⟩ :=
    getCachedIter_spec env (asSequence (request.seqNo + 1)) request.nodeHash hown
  unfold getUpdates at hresponse
  split at hresponse
  · cases hresponse
    exact .inl rfl
  · split at hresponse
    · cases hresponse
    · dsimp only at hresponse
      rw [hsource] at hresponse
      have hopened : Opened env source.log request.seqNo _ := opened_of_placed hown hsited
      exact answer_updates { source with cachedIters := cachedIters } hopened hresponse

end

include hplaced hinjective hnodes hnode in
theorem Placed.getUpdates {env : ServeEnv} {request : ReplicateRequest}
    (hrequest : request.nodeHash ∈ nodes)
    (hown : request.nodeHash = node → source.Sited request) :
    Placed cityHash64 node (getUpdates cityHash64 env request source).2 := by
  obtain ⟨cachedIters, hsource, htaken, -⟩ :=
    getCachedIter_spec env (asSequence (request.seqNo + 1)) request.nodeHash hplaced
  unfold ReplicationSource.getUpdates
  split
  · exact hplaced
  · split
    · exact hplaced
    · dsimp only
      rw [hsource]
      refine htaken.answer hinjective hnodes hnode hrequest ?_
      intro heq
      subst heq
      exact ⟨opened_of_placed hplaced (hown rfl), (hown rfl).counted⟩

omit [DecidableEq η] in
theorem changeRole_log (role : DBRole) (source : ReplicationSource η) :
    (changeRole role source).log = source.log := by
  unfold changeRole
  split
  · rfl
  · cases role <;> rfl

variable (cityHash64) in
theorem getCachedIter_source (seqNo : Nat) (nodeHash : Int) (source : ReplicationSource η) :
    ∃ cachedIters,
      (getCachedIter cityHash64 env seqNo nodeHash source).2 =
        { source with cachedIters := cachedIters } := by
  unfold getCachedIter
  dsimp only
  split
  · exact ⟨_, rfl⟩
  · split
    · exact ⟨_, rfl⟩
    · split <;> exact ⟨_, rfl⟩

variable (cityHash64) in
theorem getUpdates_source (request : ReplicateRequest) (source : ReplicationSource η) :
    ∃ cachedIters,
      (getUpdates cityHash64 env request source).2 = { source with cachedIters := cachedIters } := by
  obtain ⟨taken, htaken⟩ :=
    getCachedIter_source cityHash64 env (asSequence (request.seqNo + 1)) request.nodeHash source
  unfold getUpdates
  split
  · exact ⟨_, rfl⟩
  · split
    · exact ⟨_, rfl⟩
    · dsimp only
      generalize openIter env (asSequence (request.seqNo + 1)) _ _ = opened
      rw [htaken]
      rcases answer_source cityHash64 { source with cachedIters := taken } env request opened with
        hsame | ⟨-, hanswer⟩
      · exact ⟨taken, hsame⟩
      · rw [hanswer]
        unfold putCachedIter
        dsimp only
        split <;> exact ⟨_, rfl⟩

variable (cityHash64) in
theorem getUpdates_log (request : ReplicateRequest) (source : ReplicationSource η) :
    (getUpdates cityHash64 env request source).2.log = source.log := by
  obtain ⟨cachedIters, hsource⟩ := getUpdates_source cityHash64 env request source
  rw [hsource]

variable (cityHash64) in
theorem next_log (event : Event) (source : ReplicationSource η) :
    source.log.batches <+: (next cityHash64 event source).log.batches := by
  cases event with
  | write batch => exact prefix_append _ _
  | truncate | idle => exact prefix_rfl
  | changeRole role =>
    simp only [next, changeRole_log]
    exact prefix_rfl
  | request env request =>
    simp only [next, getUpdates_log]
    exact prefix_rfl

omit [DecidableEq η] in
theorem Placed.changeRole (hplaced : Placed cityHash64 node source) (role : DBRole) :
    Placed cityHash64 node (changeRole role source) := by
  unfold ReplicationSource.changeRole
  split
  · exact hplaced
  · cases role with
    | LEADER => exact hplaced
    | FOLLOWER =>
      intro seqNo cached iter hcached
      cases hcached

def Admits (nodes : Set Int) : Event → ReplicationSource η → Prop
  | .request _ request, source => request.nodeHash ∈ nodes ∧ source.Fits request
  | _, _ => True

def AdmitsOf (node : Int) (nodes : Set Int) : Event → ReplicationSource η → Prop
  | .request _ request, source => request.nodeHash ∈ nodes ∧
      (request.nodeHash = node → source.Sited request)
  | _, _ => True

omit [DecidableEq η] in
theorem Admits.of_node {event : Event} (hadmits : Admits nodes event source) (node : Int) :
    AdmitsOf node nodes event source := by
  cases event with
  | request env request => exact ⟨hadmits.1, fun _ => hadmits.2.toSited⟩
  | _ => exact trivial

include hplaced hinjective hnodes hnode in
theorem Placed.next {event : Event} (hadmits : AdmitsOf node nodes event source) :
    Placed cityHash64 node (next cityHash64 event source) := by
  cases event with
  | write batch =>
    exact fun seqNo cached iter hcached hiter => (hplaced seqNo cached iter hcached hiter).write batch
  | truncate count =>
    exact fun seqNo cached iter hcached hiter =>
      (hplaced seqNo cached iter hcached hiter).truncate count
  | idle now =>
    refine hplaced.of_subset ?_
    intro hashKey cached hcached
    exact (Option.filter_eq_some_iff.mp hcached).1
  | changeRole role => exact hplaced.changeRole role
  | request env request =>
    exact hplaced.getUpdates hinjective hnodes hnode hadmits.1 hadmits.2

end

theorem unambiguous_of_length_eq
    (hlength : ∀ node ∈ nodes, ∀ other ∈ nodes, (decimal node).length = (decimal other).length) :
    Unambiguous nodes := by
  intro node hnode other hother seqNo otherSeqNo htext
  have hdecimal := (append_inj' htext (hlength node hnode other hother)).1
  exact Int.ofNat_inj.mp (decimal_injective hdecimal)

def freshSource (log : WriteAheadLog) : ReplicationSource (List Char) :=
  ⟨[], .LEADER, log, fun _ => none⟩

def batchOf (count : Nat) (hcount : 0 < count) : WriteBatch := ⟨[1], count, some 5, hcount⟩

def calm : ServeEnv := ⟨0, none, fun _ => false⟩

def threeBatches : WriteAheadLog :=
  ⟨[batchOf 1 (by decide), batchOf 20 (by decide), batchOf 5 (by decide)], 0, by decide⟩

def pull (seqNo : Nat) (nodeHash : Int) : ReplicateRequest := ⟨seqNo, nodeHash, 1, []⟩

def pulledOnce (nodeHash : Int) : ReplicationSource (List Char) :=
  finalState (next id) [.request calm (pull 0 nodeHash)] (freshSource threeBatches)

theorem fits_threeBatches {source : ReplicationSource (List Char)}
    (hlog : source.log = threeBatches) {place seqNo : Nat} (hplace : place < 3)
    (hsequence : threeBatches.sequence place = seqNo + 1) (nodeHash : Int) :
    source.Fits (pull seqNo nodeHash) where
  aligned := by
    rw [hlog]
    exact .inr ⟨place, hplace, congrArg Nat.cast hsequence⟩
  kept := by
    rw [hlog]
    exact fun other hother => absurd hother (not_lt_zero other)
  counted := by
    rw [hlog]
    exact .of_total (by decide) _
  maxSize_pos := one_pos

/-- Node 7 has read batches of `2 ^ 32 + 4` records, and one more has been written. -/
def wrapped : ReplicationSource (List Char) :=
  finalState (next id) [.request calm ⟨0, 7, 10, []⟩, .write (batchOf 9 (by decide))]
    (freshSource ⟨[batchOf 4 (by decide), batchOf (2 ^ 32 - 1) (by decide), batchOf 1 (by decide)], 0,
      by decide⟩)

theorem not_answers {source : ReplicationSource η} {seqNo : Nat} {nodeHash : Int}
    {response : ReplicateResponse} (place : Nat) (hplace : place ≤ source.log.batches.length)
    (hstart : source.log.sequence place = seqNo + 1) (hne : response.updates ≠ [])
    (hother : ¬response.updates.map Update.rawData <+: source.log.batches.drop place) :
    ¬Answers source (pull seqNo nodeHash) (.ok response) := by
  rintro (⟨found, hfound, hsequence, -, hbegins⟩ | ⟨hnil, -⟩)
  · have hsame : source.log.sequence found = source.log.sequence place := by
      rw [hstart]
      exact Int.ofNat_inj.mp hsequence
    rw [SequencedLog.startOf_inj WriteBatch.count_pos hfound.le hplace hsame] at hbegins
    exact hother hbegins
  · exact hne hnil

end ReplicationSource

end LaserDB
