import LaserDB.Refinement.Footprint

/-!
# Compaction

`ExpireFilter` of `server/engine/expire_filter.cc` drops a record when its own timestamp has come.
Two engines run side by side, one of which is compacted.
-/

namespace LaserDB

open RocksDbEngine List OrderedMap LaserValue SizeMeta

def ExpireFilter.filter (now : UInt64) (value : Bytes) : Bool :=
  match (LaserValueFormatBase.ofBuffer value).decode with
  | (.accepted, val) => !(val.timestamp > now || val.timestamp = 0)
  | _ => false

def RocksDbEngine.compact (engine : RocksDbEngine) (now : UInt64) (chosen : Bytes → Bool) :
    RocksDbEngine :=
  engine.withStore
    (engine.db.store.filter fun key value => !(chosen key && ExpireFilter.filter now value))

theorem ExpireFilter.filter_mono {now later : UInt64} (hle : now ≤ later) {value : Bytes}
    (hfilter : ExpireFilter.filter now value = true) : ExpireFilter.filter later value = true := by
  unfold ExpireFilter.filter at *
  split at hfilter
  · rename_i val hdecode
    simp only [Bool.not_or, Bool.and_eq_true, Bool.not_eq_true', decide_eq_false_iff_not] at *
    exact ⟨fun hlate => hfilter.1 (UInt64.lt_of_le_of_lt hle hlate), hfilter.2⟩
  · cases hfilter

def Status.Gone (status : Status) : Prop := status = .RS_NOT_FOUND ∨ status = .RS_KEY_EXPIRE

def SameReply (first second : Reply) : Prop :=
  first = second ∨ first.1.Gone ∧ second.1.Gone

/-- An engine, and what compactions have made of it up to `clock`. -/
structure Twin where
  clock : UInt64
  plain : RocksDbEngine
  compacted : RocksDbEngine

namespace Twin

def start (engine : RocksDbEngine) : Twin := ⟨0, engine, engine⟩

inductive Event where
  | call (env : Env) (call : Call)
  | compact (now : UInt64) (chosen : Bytes → Bool)

def next : Event → Twin → Twin
  | .call env call, twin =>
    { twin with
      plain := (call.exec env twin.plain).2
      compacted := (call.exec env twin.compacted).2 }
  | .compact now chosen, twin =>
    { twin with
      clock := if twin.clock < now then now else twin.clock
      compacted := twin.compacted.compact now chosen }

end Twin

def Settled (now : UInt64) (slot : Slot) : Prop :=
  (∀ bytes, slot.head = some bytes → ExpireFilter.filter now bytes = false) ∧
    ∀ suffix bytes, slot.records.get suffix = some bytes → ExpireFilter.filter now bytes = false

def ExpiredAs {V : Type} [LaserValue V] (fresh : V) (env : Env) (bytes : Bytes) : Prop :=
  ∃ value, decode (setRawBuffer fresh bytes) = (.accepted, value) ∧ checkKeyExpire env value = true

namespace Call

def Blind : Call → Prop
  | .set _ _ | .mset _ _ => True
  | .setx _ _ options | .msetx _ _ options => options.notExists = false
  | _ => False

/-- The call tests the meta record first and returns early, or goes on in the same way,
when that has expired. -/
def TestsExpiry : Call → Prop
  | .exist _ | .get _ | .hget _ _ | .hlen _ | .hkeys _ | .hgetall _ | .llen _ | .lindex _ _
  | .popFront _ | .popBack _ | .lrange _ _ _ | .hasMember _ _ | .getSet _ | .members _
  | .zrangeByScore _ _ _ | .zremRangeByScore _ _ _ | .setx _ _ _ | .msetx _ _ _ => True
  | _ => False

def FindsExpired (call : Call) (env : Env) (bytes : Bytes) : Prop :=
  match call.valueType with
  | some .RAW_STRING => ExpiredAs LaserValueRawString.new env bytes
  | some .MAP => ExpiredAs (new : LaserValueMapMeta) env bytes
  | some .LIST => ExpiredAs LaserValueListMeta.new env bytes
  | some .SET => ExpiredAs (new : LaserValueSetMeta) env bytes
  | some .ZSET => ExpiredAs (new : LaserValueZSetMeta) env bytes
  | _ => False

end Call

/-- The clock of a call has not been put back behind a compaction; and the call does not
depend on what is there, or for each of its keys no record is due, or the meta record has
expired and the call tests that. -/
def Twin.Admits : Twin.Event → Twin → Prop
  | .compact _ _, _ => True
  | .call env call, twin =>
    twin.clock ≤ env.now ∧ (call.Blind ∨ ∀ key ∈ call.keys,
        call.Narrow ∧ Settled env.now (slot twin.plain.db.store key) ∨
          call.TestsExpiry ∧ ∃ bytes, (slot twin.plain.db.store key).head = some bytes ∧
            call.FindsExpired env bytes)

structure Twin.Covers (twin : Twin) : Prop where
  engine : twin.compacted = twin.plain.withStore twin.compacted.db.store
  records : ∀ key, twin.compacted.db.store.get key = twin.plain.db.store.get key ∨
    twin.compacted.db.store.get key = none ∧ ∃ value, twin.plain.db.store.get key = some value ∧
        ExpireFilter.filter twin.clock value = true

variable {twin : Twin} {env : Env} {key : LaserKey}

section
theorem Twin.covers_start (engine : RocksDbEngine) : (Twin.start engine).Covers :=
  ⟨rfl, fun _ => .inl rfl⟩

theorem Twin.Covers.compact (hcovers : twin.Covers) (now : UInt64) (chosen : Bytes → Bool) :
    (Twin.next (.compact now chosen) twin).Covers := by
  have hclock : twin.clock ≤ (Twin.next (.compact now chosen) twin).clock ∧
      now ≤ (Twin.next (.compact now chosen) twin).clock := by
    simp only [Twin.next]
    split
    · exact ⟨UInt64.le_of_lt ‹_›, UInt64.le_refl now⟩
    · exact ⟨UInt64.le_refl twin.clock, UInt64.not_lt.mp ‹_›⟩
  refine ⟨?_, fun key => ?_⟩
  · show twin.compacted.compact now chosen = _
    rw [hcovers.engine]
    rfl
  · have hstore : (Twin.next (.compact now chosen) twin).compacted.db.store.get key =
        (twin.compacted.db.store.get key).filter
          fun value => !(chosen key && ExpireFilter.filter now value) :=
      get_filter ..
    rw [hstore]
    rcases hcovers.records key with heq | ⟨hnone, value, hvalue, hfilter⟩
    · rw [heq]
      show _ = twin.plain.db.store.get key ∨ _ = none ∧
        ∃ value, twin.plain.db.store.get key = some value ∧ _
      cases hvalue : twin.plain.db.store.get key with
      | none => exact .inl rfl
      | some value =>
        by_cases hdrop : (chosen key && ExpireFilter.filter now value) = true
        · refine .inr ⟨by rw [Option.filter_some, hdrop]; rfl, value, rfl, ?_⟩
          exact ExpireFilter.filter_mono hclock.2 (Bool.and_eq_true_iff.mp hdrop).2
        · rw [Bool.not_eq_true] at hdrop
          exact .inl (by rw [Option.filter_some, hdrop]; rfl)
    · refine .inr ⟨by rw [hnone]; rfl, value, hvalue, ?_⟩
      exact ExpireFilter.filter_mono hclock.1 hfilter

theorem get_apply (batch : RocksDbBatch) {first second : Store} {due : Bytes → Prop}
    (hrecords : ∀ key, second.get key = first.get key ∨
      second.get key = none ∧ ∃ value, first.get key = some value ∧ due value) (key : Bytes) :
    (batch.apply second).get key = (batch.apply first).get key ∨
      (batch.apply second).get key = none ∧
        ∃ value, (batch.apply first).get key = some value ∧ due value := by
  induction batch generalizing first second with
  | nil => exact hrecords key
  | cons write batch ih =>
    refine ih fun other => ?_
    cases write with
    | put name value =>
      simp only [BatchWrite.apply, get_put]
      split
      · exact .inl rfl
      · exact hrecords other
    | delete name =>
      simp only [BatchWrite.apply, get_erase]
      split
      · exact .inl rfl
      · exact hrecords other

theorem Twin.Covers.call (hcovers : twin.Covers) {call : Call}
    (hbatch : call.batch env twin.compacted = call.batch env twin.plain) :
    (Twin.next (.call env call) twin).Covers := by
  refine ⟨?_, fun key => ?_⟩
  · simp only [Twin.next, exec_engine, withStore_store]
    rw [hcovers.engine]
    rfl
  · simp only [Twin.next, exec_engine, withStore_store, hbatch]
    exact get_apply (call.batch env twin.plain) hcovers.records key

theorem Twin.Covers.slot_eq (hcovers : twin.Covers) {now : UInt64} (hclock : twin.clock ≤ now)
    (hsettled : Settled now (slot twin.plain.db.store key)) :
    slot twin.compacted.db.store key = slot twin.plain.db.store key := by
  have hdue {value : Bytes} (hfilter : ExpireFilter.filter twin.clock value = true)
      (hkept : ExpireFilter.filter now value = false) : False := by
    rw [ExpireFilter.filter_mono hclock hfilter] at hkept
    cases hkept
  have hhead : twin.compacted.db.store.get key.metaKey = twin.plain.db.store.get key.metaKey := by
    refine (hcovers.records key.metaKey).resolve_right ?_
    rintro ⟨-, value, hvalue, hfilter⟩
    exact hdue hfilter (hsettled.1 value hvalue)
  have hrecords : twin.compacted.db.store.under key.stem = twin.plain.db.store.under key.stem := by
    refine ext_get fun suffix => ?_
    rw [get_under, get_under]
    refine (hcovers.records (key.stem ++ suffix)).resolve_right ?_
    rintro ⟨-, value, hvalue, hfilter⟩
    refine hdue hfilter (hsettled.2 suffix value ?_)
    show (twin.plain.db.store.under key.stem).get suffix = some value
    rw [get_under, hvalue]
  simp only [slot, hhead, hrecords]

theorem Twin.Covers.head_cases (hcovers : twin.Covers) {bytes : Bytes}
    (hhead : (slot twin.plain.db.store key).head = some bytes) :
    (slot twin.compacted.db.store key).head = some bytes ∨
      (slot twin.compacted.db.store key).head = none := by
  rcases hcovers.records key.metaKey with heq | ⟨hnone, -⟩
  · exact .inl (heq.trans hhead)
  · exact .inr hnone

variable {V : Type} [LaserValue V] {fresh : V}

def GoneAs (fresh : V) (env : Env) (head : Option Bytes) : Prop :=
  head = none ∨ ∃ bytes, head = some bytes ∧ ExpiredAs fresh env bytes

private def Early (env : Env) (key : LaserKey) (status : Status) : Prop :=
  match env.readFault key.metaKey with
  | some fault => status = convertRocksDbStatus (.fault fault)
  | none => status.Gone

theorem sameReply_of_early {first second : Status} (hfirst : Early env key first)
    (hsecond : Early env key second) (payload : Payload) :
    SameReply (first, payload) (second, payload) := by
  unfold Early at hfirst hsecond
  cases hfault : env.readFault key.metaKey with
  | some fault =>
    rw [hfault] at hfirst hsecond
    exact .inl (by rw [hfirst, hsecond])
  | none =>
    rw [hfault] at hfirst hsecond
    exact .inr ⟨hfirst, hsecond⟩

variable {engine : RocksDbEngine}

theorem readLive_gone (hgone : GoneAs fresh env (slot engine.db.store key).head) :
    ∃ status, engine.readLive env fresh (getFormatKey key) = .error status ∧
      Early env key status := by
  have hfound : engine.db.readFound env fresh (getFormatKey key).toLaserSerializer =
      (env.readFault key.metaKey).elim
        ((slot engine.db.store key).head.elim (.error .RS_NOT_FOUND) fun bytes =>
          .ok (setRawBuffer fresh bytes))
        fun fault => .error (convertRocksDbStatus (.fault fault)) := by
    simp only [ReplicationDB.readFound, ReplicationDB.read, getFormatKey_rawData, slot]
    cases env.readFault key.metaKey with
    | some fault => cases fault <;> rfl
    | none => cases engine.db.store.get key.metaKey <;> rfl
  simp only [readLive, hfound]
  unfold Early
  cases env.readFault key.metaKey with
  | some fault => exact ⟨_, rfl, rfl⟩
  | none =>
    rcases hgone with hnone | ⟨bytes, hhead, value, hdecode, hexpired⟩
    · rw [hnone]
      exact ⟨_, rfl, .inl rfl⟩
    · rw [hhead]
      refine ⟨.RS_KEY_EXPIRE, ?_, .inr rfl⟩
      show (decodeOr .RS_INVALID_ARGUMENT (setRawBuffer fresh bytes) >>= _) = _
      simp only [decodeOr, hdecode, ok_bind, if_pos hexpired]
      rfl

theorem getValue_gone (hfresh : getTimestamp fresh = 0)
    (hgone : GoneAs fresh env (slot engine.db.store key).head) :
    match env.readFault key.metaKey with
    | some fault => engine.getValue env fresh (getFormatKey key) =
        (convertRocksDbStatus (.fault fault), fresh)
    | none => (engine.getValue env fresh (getFormatKey key)).1.Gone := by
  have hlive : checkKeyExpire env fresh = false := checkKeyExpire_of_zero hfresh
  simp only [getValue, ReplicationDB.read, getFormatKey_rawData]
  cases env.readFault key.metaKey with
  | some fault => cases fault <;> simp [convertRocksDbStatus, hlive]
  | none =>
    rcases hgone with hnone | ⟨bytes, hhead, value, hdecode, hexpired⟩
    · have hget : engine.db.store.get key.metaKey = none := hnone
      simp [hget, convertRocksDbStatus, hlive, Status.Gone]
    · have hget : engine.db.store.get key.metaKey = some bytes := hhead
      simp [hget, convertRocksDbStatus, hdecode, hexpired, Status.Gone]

theorem checkNotExists_gone
    (hgone : GoneAs LaserValueRawString.new env (slot engine.db.store key).head) :
    engine.checkNotExists env (getFormatKey key) =
      match env.readFault key.metaKey with
      | some fault => .error (convertRocksDbStatus (.fault fault))
      | none => .ok () := by
  simp only [checkNotExists, ReplicationDB.readOptional, ReplicationDB.read, getFormatKey_rawData]
  cases env.readFault key.metaKey with
  | some fault => cases fault <;> rfl
  | none =>
    rcases hgone with hnone | ⟨bytes, hhead, value, hdecode, hexpired⟩
    · have hget : engine.db.store.get key.metaKey = none := hnone
      rw [hget]
      rfl
    · have hget : engine.db.store.get key.metaKey = some bytes := hhead
      rw [hget]
      show (decodeOr .RS_INVALID_ARGUMENT (setRawBuffer LaserValueRawString.new bytes) >>= _) = _
      simp only [decodeOr, hdecode, ok_bind, if_pos hexpired]
      rfl

section
variable {plain compacted : RocksDbEngine}
  (hplain : GoneAs fresh env (slot plain.db.store key).head)
  (hcompacted : GoneAs fresh env (slot compacted.db.store key).head)
include hplain hcompacted

theorem replyOf_gone (payload : α → Payload) (first second : V → Except Status α) :
    SameReply (replyOf payload (plain.readLive env fresh (getFormatKey key) >>= first))
      (replyOf payload (compacted.readLive env fresh (getFormatKey key) >>= second)) := by
  obtain ⟨status, hread, hearly⟩ := readLive_gone hplain
  obtain ⟨status', hread', hearly'⟩ := readLive_gone hcompacted
  rw [hread, hread']
  exact sameReply_of_early hearly hearly' .nothing

theorem commit_gone (payload : α → Payload) (fallback : α)
    (first second : V → Except Status (α × RocksDbBatch)) :
    SameReply
      (answer payload (plain.commit env fallback
        (plain.readLive env fresh (getFormatKey key) >>= first))).1
      (answer payload (compacted.commit env fallback
        (compacted.readLive env fresh (getFormatKey key) >>= second))).1 := by
  obtain ⟨status, hread, hearly⟩ := readLive_gone hplain
  obtain ⟨status', hread', hearly'⟩ := readLive_gone hcompacted
  rw [hread, hread']
  exact sameReply_of_early hearly hearly' (payload fallback)

theorem getValue_same (hfresh : getTimestamp fresh = 0) (payload : V → Payload) :
    SameReply
      ((plain.getValue env fresh (getFormatKey key)).1,
        payload (plain.getValue env fresh (getFormatKey key)).2)
      ((compacted.getValue env fresh (getFormatKey key)).1,
        payload (compacted.getValue env fresh (getFormatKey key)).2) := by
  have hfirst := getValue_gone hfresh hplain
  have hsecond := getValue_gone hfresh hcompacted
  cases hfault : env.readFault key.metaKey with
  | some fault =>
    rw [hfault] at hfirst hsecond
    exact .inl (by rw [hfirst, hsecond])
  | none =>
    rw [hfault] at hfirst hsecond
    exact .inr ⟨hfirst, hsecond⟩

end

theorem exist_gone (hgone : GoneAs LaserValueRawString.new env (slot engine.db.store key).head) :
    engine.exist env (getFormatKey key) = (.OK, false) := by
  simp only [exist, ReplicationDB.exist, getFormatKey_rawData]
  rcases hgone with hnone | ⟨bytes, hhead, value, hdecode, hexpired⟩
  · have hget : engine.db.store.get key.metaKey = none := hnone
    rw [hget]
  · have hget : engine.db.store.get key.metaKey = some bytes := hhead
    have hvalue : (setRawBuffer LaserValueRawString.new bytes).decode =
        (.accepted, value) := hdecode
    rw [hget]
    by_cases hmemory : env.inMemory key.metaKey = true
    · simp [hmemory, hvalue, hexpired]
    · simp [hmemory]

theorem committed_gone {role : DBRole}
    (hgone : GoneAs fresh env (slot engine.db.store key).head)
    (next : V → Except Status (α × RocksDbBatch)) :
    committed env role (engine.readLive env fresh (getFormatKey key) >>= next) = [] := by
  obtain ⟨status, hread, -⟩ := readLive_gone hgone
  rw [hread]
  rfl

end

section
variable {call : Call}

def GoneFor (call : Call) (env : Env) (head : Option Bytes) : Prop :=
  head = none ∨ ∃ bytes, head = some bytes ∧ call.FindsExpired env bytes

theorem testsExpiry_same {plain compacted : RocksDbEngine} (hkey : call.key = some key)
    (htests : call.TestsExpiry)
    (hplain : GoneFor call env (slot plain.db.store key).head)
    (hcompacted : GoneFor call env (slot compacted.db.store key).head)
    (hnotSetx : ∀ key data options, call ≠ .setx key data options) :
    SameReply (call.exec env plain).1 (call.exec env compacted).1 ∧
      call.batch env compacted = call.batch env plain := by
  cases call with
  | exist =>
    cases hkey
    refine ⟨?_, rfl⟩
    simp only [Call.exec, exist_gone hplain, exist_gone hcompacted]
    exact .inl rfl
  | get =>
    cases hkey
    exact ⟨getValue_same hplain hcompacted rfl fun value => .text value.value, rfl⟩
  | hlen | getSet =>
    cases hkey
    exact ⟨getValue_same hplain hcompacted rfl fun value => .length value.size, rfl⟩
  | llen =>
    cases hkey
    exact ⟨getValue_same hplain hcompacted rfl fun value => .number value.getSize, rfl⟩
  | hget | hgetall | lindex | lrange | members =>
    cases hkey
    exact ⟨replyOf_gone hplain hcompacted _ _ _, rfl⟩
  | hkeys | hasMember =>
    cases hkey
    obtain ⟨status, hread, hearly⟩ := readLive_gone hplain
    obtain ⟨status', hread', hearly'⟩ := readLive_gone hcompacted
    refine ⟨?_, rfl⟩
    simp only [Call.exec, hkeys, hasMember, hread, hread']
    exact sameReply_of_early hearly hearly' _
  | zrangeByScore key min max =>
    cases hkey
    refine ⟨?_, rfl⟩
    simp only [Call.exec, zrangeByScore]
    split
    · exact .inl rfl
    · exact replyOf_gone hplain hcompacted _ _ _
  | popFront | popBack =>
    cases hkey
    refine ⟨commit_gone hplain hcompacted _ _ _ _, ?_⟩
    exact (committed_gone hcompacted _).trans (committed_gone hplain _).symm
  | zremRangeByScore key min max =>
    cases hkey
    simp only [Call.exec, Call.batch, zremRangeByScore]
    split
    · exact ⟨.inl rfl, rfl⟩
    · refine ⟨commit_gone hplain hcompacted _ _ _ _, ?_⟩
      exact (committed_gone hcompacted _).trans (committed_gone hplain _).symm
  | setx key data options => exact absurd rfl (hnotSetx key data options)
  | msetx => cases hkey
  | _ => exact htests.elim

theorem checkNotExists_same (hcovers : twin.Covers) (hclock : twin.clock ≤ env.now)
    (hkey : Settled env.now (slot twin.plain.db.store key) ∨
      ∃ bytes, (slot twin.plain.db.store key).head = some bytes ∧
        ExpiredAs LaserValueRawString.new env bytes) :
    (twin.plain.withStore twin.compacted.db.store).checkNotExists env (getFormatKey key) =
      twin.plain.checkNotExists env (getFormatKey key) := by
  rcases hkey with hsettled | ⟨bytes, hhead, hexpired⟩
  · exact checkNotExists_local (hcovers.slot_eq hclock hsettled)
  · have hplain : GoneAs LaserValueRawString.new env (slot twin.plain.db.store key).head :=
      .inr ⟨bytes, hhead, hexpired⟩
    have hcompacted : GoneAs LaserValueRawString.new env
        (slot (twin.plain.withStore twin.compacted.db.store).db.store key).head :=
      (hcovers.head_cases hhead).elim (fun hsame => .inr ⟨bytes, hsame, hexpired⟩) .inl
    rw [checkNotExists_gone hplain, checkNotExists_gone hcompacted]

theorem keys_of_key (hkey : call.key = some key) : call.keys = [key] := by
  cases call <;> cases hkey <;> rfl

theorem admitted_single (hcovers : twin.Covers) (hclock : twin.clock ≤ env.now)
    (hkey : call.key = some key) (hnotSetx : ∀ key data options, call ≠ .setx key data options)
    (hadmits : call.Narrow ∧ Settled env.now (slot twin.plain.db.store key) ∨
      call.TestsExpiry ∧ ∃ bytes, (slot twin.plain.db.store key).head = some bytes ∧
        call.FindsExpired env bytes) :
    SameReply (call.exec env twin.plain).1 (call.exec env twin.compacted).1 ∧
      call.batch env twin.compacted = call.batch env twin.plain := by
  rcases hadmits with ⟨hnarrow, hsettled⟩ | ⟨htests, bytes, hhead, hexpired⟩
  · have hslots : ∀ own ∈ call.keys,
        slot twin.compacted.db.store own = slot twin.plain.db.store own := by
      rw [keys_of_key hkey]
      intro own hown
      cases mem_singleton.mp hown
      exact hcovers.slot_eq hclock hsettled
    rw [hcovers.engine]
    exact ⟨.inl (reply_local hnarrow hslots).symm, batch_local hnarrow.oneSided hslots⟩
  · have hcompacted : GoneFor call env (slot twin.compacted.db.store key).head :=
      (hcovers.head_cases hhead).elim (fun hsame => .inr ⟨bytes, hsame, hexpired⟩) .inl
    exact testsExpiry_same hkey htests (.inr ⟨bytes, hhead, hexpired⟩) hcompacted hnotSetx

theorem Twin.Covers.admitted (hcovers : twin.Covers) (hadmits : Twin.Admits (.call env call) twin) :
    SameReply (call.exec env twin.plain).1 (call.exec env twin.compacted).1 ∧
      call.batch env twin.compacted = call.batch env twin.plain := by
  obtain ⟨hclock, hadmits⟩ := hadmits
  cases call with
  | set | mset =>
    rw [hcovers.engine]
    exact ⟨.inl (commit_reply ..).symm, rfl⟩
  | setx key data options =>
    have hcheck : options.notExists = true →
        (twin.plain.withStore twin.compacted.db.store).checkNotExists env (getFormatKey key) =
          twin.plain.checkNotExists env (getFormatKey key) := by
      intro hoption
      refine checkNotExists_same hcovers hclock ?_
      rcases hadmits with hblind | hkeys
      · rw [Call.Blind, hoption] at hblind
        cases hblind
      · exact (hkeys key mem_cons_self).imp And.right And.right
    rw [hcovers.engine]
    simp only [Call.exec, Call.batch, setx, withStore_role, setxPlan_congr hcheck]
    exact ⟨.inl (commit_reply ..).symm, trivial⟩
  | msetx keys datas options =>
    have hchecks : ∀ key ∈ keys, options.notExists = true →
        (twin.plain.withStore twin.compacted.db.store).checkNotExists env (getFormatKey key) =
          twin.plain.checkNotExists env (getFormatKey key) := by
      intro key hkey hoption
      refine checkNotExists_same hcovers hclock ?_
      rcases hadmits with hblind | hkeys
      · rw [Call.Blind, hoption] at hblind
        cases hblind
      · exact (hkeys key hkey).imp And.right And.right
    rw [hcovers.engine]
    simp only [Call.exec, Call.batch, msetx, withStore_role, msetxPlan_congr hchecks]
    exact ⟨.inl (commit_reply ..).symm, trivial⟩
  | _ =>
    refine admitted_single hcovers hclock rfl (fun _ _ _ hsetx => by cases hsetx) ?_
    exact (hadmits.resolve_left id) _ mem_cons_self

theorem Twin.Covers.next {event : Twin.Event} (hcovers : twin.Covers)
    (hadmits : Twin.Admits event twin) : (Twin.next event twin).Covers := by
  cases event with
  | compact now chosen => exact hcovers.compact now chosen
  | call env call => exact hcovers.call (hcovers.admitted hadmits).2

end

/-- In every run of admitted calls, with compactions at any time and on any records, each
admitted call replies what it would reply without compactions. -/
theorem compaction_invisible_of_admitted (engine : RocksDbEngine) {events : List Twin.Event}
    (hevents : Simulation.Guarded Twin.next Twin.Admits events (Twin.start engine)) {env : Env}
    {call : Call}
    (hcall : Twin.Admits (.call env call)
      (Simulation.finalState Twin.next events (Twin.start engine))) :
    SameReply
      (call.exec env (Simulation.finalState Twin.next events (Twin.start engine)).plain).1
      (call.exec env (Simulation.finalState Twin.next events (Twin.start engine)).compacted).1 := by
  have hstep : ∀ event twin, Twin.Covers twin → Twin.Admits event twin →
      (Twin.next event twin).Covers := fun _ _ hcovers hadmits => hcovers.next hadmits
  have hcovers := Simulation.invariant_finalState hstep (Twin.covers_start engine) hevents
  exact (hcovers.admitted hcall).1

def timedEngine : RocksDbEngine := ⟨⟨.LEADER, empty⟩, 10⟩

def timedKey : LaserKey := ⟨[[97]], []⟩

def droppedEvents : List Twin.Event :=
  [.call (Env.at 1) (.set timedKey [120]), .call (Env.at 5) (.get timedKey),
    .compact 12 fun _ => true]

theorem compaction_invisible_dropped :
    SameReply
      ((Call.get timedKey).exec (Env.at 12)
        (Simulation.finalState Twin.next droppedEvents (Twin.start timedEngine)).plain).1
      ((Call.get timedKey).exec (Env.at 12)
        (Simulation.finalState Twin.next droppedEvents (Twin.start timedEngine)).compacted).1 := by
  have hevents : Simulation.Guarded Twin.next Twin.Admits droppedEvents
      (Twin.start timedEngine) := by
    refine ⟨⟨by decide, .inl trivial⟩, ⟨by decide, .inr ?_⟩, trivial, trivial⟩
    intro key hkey
    cases mem_singleton.mp hkey
    refine .inl ⟨trivial, ?_, ?_⟩
    · intro bytes hhead
      cases hhead
      decide
    · intro suffix bytes hrecord
      cases hrecord
  refine compaction_invisible_of_admitted timedEngine hevents ⟨by decide, .inr ?_⟩
  intro key hkey
  cases mem_singleton.mp hkey
  exact .inr ⟨trivial, _, rfl, _, rfl, rfl⟩

/-- Two members are added at different times, and the record of the first is due before
the meta record is. -/
def partlyDueEvents : List Twin.Event :=
  [.call (Env.at 1) (.zadd timedKey (empty.put [109] 1)),
    .call (Env.at 5) (.zadd timedKey (empty.put [110] 2)), .compact 12 fun _ => true]

/-- The compaction takes a member out of a zset that has not expired. -/
theorem compaction_drops_live_member :
    let twin := Simulation.finalState Twin.next partlyDueEvents (Twin.start timedEngine)
    ((Call.zrangeByScore timedKey 0 5).exec (Env.at 12) twin.plain).1 =
        (.OK, .scored [(1, [109]), (2, [110])]) ∧
      ((Call.zrangeByScore timedKey 0 5).exec (Env.at 12) twin.compacted).1 =
        (.OK, .scored [(2, [110])]) ∧
      ¬ SameReply ((Call.zrangeByScore timedKey 0 5).exec (Env.at 12) twin.plain).1
        ((Call.zrangeByScore timedKey 0 5).exec (Env.at 12) twin.compacted).1 := by
  intro twin
  have hplain : ((Call.zrangeByScore timedKey 0 5).exec (Env.at 12) twin.plain).1 =
      (.OK, .scored [(1, [109]), (2, [110])]) := by
    decide
  have hcompacted : ((Call.zrangeByScore timedKey 0 5).exec (Env.at 12) twin.compacted).1 =
      (.OK, .scored [(2, [110])]) := by
    decide
  refine ⟨hplain, hcompacted, ?_⟩
  rw [hplain, hcompacted]
  rintro (heq | ⟨hgone | hgone, -⟩)
  · exact absurd heq (by decide)
  · cases hgone
  · cases hgone

end LaserDB
