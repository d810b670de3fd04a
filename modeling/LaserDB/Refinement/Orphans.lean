import LaserDB.Refinement.Delkey

/-!
# Data records and the meta record that accounts for them

As long as no string is written over a key with data records and no zset is deleted, every data
record has a meta record of the type that wrote it.
-/

namespace LaserDB

open ByteCodec RocksDbEngine Option List OrderedMap
open OrderedMap (empty)
open Int64 (lt_iff_toInt_lt maxValue minValue ne_of_lt not_le toInt_inj)

def Indexed (records : OrderedMap Bytes Bytes) (inside : Int64 → Prop) : Prop :=
  ∀ suffix, records.get suffix ≠ none ↔ ∃ index, inside index ∧ suffix = intBytes .big index

def Slot.Accounts (slot : Slot) (type : ValueType) : Prop :=
  slot.Has type ∧
    match type with
    | .RAW_STRING | .COUNTER => slot.records = empty
    | .MAP | .SET => slot.records.size < 2 ^ 32 ∧ ∃ timestamp,
        slot.head = some (sizeMetaBytes type timestamp (UInt32.ofNat slot.records.size))
    | .LIST => ∃ timestamp start endIndex,
        slot.head = some (listMetaBytes timestamp start endIndex) ∧ start < endIndex ∧
          Indexed slot.records fun index => start < index ∧ index < endIndex
    | .ZSET => True

/-- The call does not write a string over data records, does not delete a zset
with scores and does not run over the end of a counter. -/
def Call.Settles (call : Call) (before : Slot) : Prop :=
  match call with
  | .set _ _ | .mset _ _ => before.records = empty
  | .setx _ _ options | .msetx _ _ options =>
    options.notExists = false → before.records = empty
  | .delkey _ => before.Has .ZSET → before.records = empty
  | .hset _ _ _ | .sadd _ _ => before.records.size + 1 < 2 ^ 32
  | .hmset _ values => before.records.size + values.size < 2 ^ 32
  | .pushFront _ _ => ∀ endIndex, ¬EndsOf before Int64.minValue endIndex
  | .pushBack _ _ => ∀ start, ¬EndsOf before start Int64.maxValue
  | .zremRangeByScore _ _ _ => False
  | _ => True

variable {inside : Int64 → Prop}

section
variable {type kind : ValueType} {before after : Slot} {room : Nat}

theorem Accounts.of_has (haccounts : ∃ found, before.Accounts found)
    (hhas : before.Has type) : before.Accounts type := by
  obtain ⟨found, hfound⟩ := haccounts
  exact hfound.1.unique hhas ▸ hfound

def Slot.Settled (slot : Slot) : Prop := slot = .absent ∨ ∃ type, slot.Accounts type

theorem Slot.Settled.sound (hsettled : before.Settled) : before.Sound := by
  rcases hsettled with rfl | ⟨type, haccounts⟩
  · exact ⟨.MAP, .inl rfl⟩
  · exact ⟨type, .inr haccounts.1⟩

theorem Settled.of_of (hsettled : before.Settled) (hof : before.Of type) :
    before.records = empty ∨ before.Accounts type := by
  rcases hof with rfl | hhas
  · exact .inl rfl
  · rcases hsettled with rfl | haccounts
    · exact .inl rfl
    · exact .inr (Accounts.of_has haccounts hhas)

/-- What the effect of a call has to keep: the type of the value is the type of
the call, if it has one, and the type of the data records that were there. -/
structure Keeps (call : Call) (type : ValueType) (before after : Slot) : Prop where
  accounts : after.Accounts type
  own : ∀ found ∈ call.valueType, found = type
  earlier : before.records = empty ∨ before.Accounts type
  names : call.valueType = none → ∀ suffix, after.records.get suffix ≠ none →
    before.records.get suffix ≠ none

variable (htype : type = .RAW_STRING ∨ type = .COUNTER)
include htype

theorem rewritten_accounts (hempty : before.records = empty)
    (hrewritten : Rewritten type before after) : after.Accounts type := by
  obtain ⟨hhas, hrecords⟩ := hrewritten
  rcases htype with rfl | rfl
  all_goals exact ⟨hhas, hrecords.trans hempty⟩

theorem revised_accounts (hsettled : before.Settled) (hrevised : Revised type before after) :
    after.Accounts type ∧ (before.records = empty ∨ before.Accounts type) := by
  have hearlier := Settled.of_of hsettled hrevised.1
  have hempty : before.records = empty := by
    refine hearlier.elim id fun haccounts => ?_
    rcases htype with rfl | rfl
    · exact haccounts.2
    · exact haccounts.2
  exact ⟨rewritten_accounts htype hempty hrevised.2, hearlier⟩

omit htype

variable (hkind : kind = .MAP ∨ kind = .SET)
include hkind

theorem metaOf_sizeMeta (timestamp : UInt64)
    (size : UInt32) : MetaOf kind (sizeMetaBytes kind timestamp size) := by
  rcases hkind with rfl | rfl
  · exact .map _ _
  · exact .set _ _

theorem accounts_sized_iff :
    before.Accounts kind ↔ before.records.size < 2 ^ 32 ∧ ∃ timestamp,
      before.head = some (sizeMetaBytes kind timestamp (UInt32.ofNat before.records.size)) := by
  have hhas (hhead : ∃ timestamp,
      before.head = some (sizeMetaBytes kind timestamp (UInt32.ofNat before.records.size))) :
      before.Has kind := by
    obtain ⟨timestamp, hhead⟩ := hhead
    exact ⟨_, hhead, metaOf_sizeMeta hkind _ _⟩
  rcases hkind with rfl | rfl
  all_goals exact ⟨And.right, fun hsized => ⟨hhas hsized.2, hsized⟩⟩

theorem counted_accounts (hsettled : before.Settled)
    (hroom : before.records.size < 2 ^ 32 → before.records.size + room < 2 ^ 32)
    (hcounted : Counted kind room before after) :
    after.Accounts kind ∧ (before.records = empty ∨ before.Accounts kind) := by
  obtain ⟨⟨size, size', timestamp, hcount, hhead, hsum⟩, hgrows⟩ := hcounted
  have hbefore : (before.records = empty ∨ before.Accounts kind) ∧
      before.records.size < 2 ^ 32 ∧ size = UInt32.ofNat before.records.size := by
    cases hcount with
    | absent => exact ⟨.inl rfl, by decide, rfl⟩
    | stored hstored =>
      have hhas : before.Has kind := ⟨_, hstored, metaOf_sizeMeta hkind _ _⟩
      have hearlier := Settled.of_of hsettled (.inr hhas)
      rcases hsettled with rfl | haccounts
      · cases hstored
      · have haccounts := Accounts.of_has haccounts hhas
        obtain ⟨hlt, timestamp, hsize⟩ := (accounts_sized_iff hkind).mp haccounts
        rw [hstored, some.injEq] at hsize
        exact ⟨hearlier, hlt, sizeMetaBytes_inj hsize⟩
  obtain ⟨hearlier, hlt, hsize⟩ := hbefore
  have hsize' : size' = UInt32.ofNat after.records.size := by grind
  refine ⟨(accounts_sized_iff hkind).mpr ⟨by have := hroom hlt; omega, timestamp, ?_⟩, hearlier⟩
  rw [hhead, hsize']

omit hkind

variable {records : OrderedMap Bytes Bytes} {inside inside' : Int64 → Prop} {place : Int64}

variable (hindexed : Indexed records inside)
include hindexed

private theorem Indexed.put (hinside : ∀ index, inside' index ↔ index = place ∨ inside index)
    (value : Bytes) : Indexed (records.put (intBytes .big place) value) inside' := by
  intro suffix
  rw [get_put]
  by_cases hsame : suffix = intBytes .big place
  · rw [if_pos hsame]
    exact iff_of_true nofun ⟨place, (hinside place).mpr (.inl rfl), hsame⟩
  · rw [if_neg hsame, hindexed suffix]
    refine exists_congr fun index => and_congr_left fun hsuffix => ?_
    have hne : index ≠ place := fun heq => hsame (heq ▸ hsuffix)
    rw [hinside, or_iff_right hne]

private theorem Indexed.erase (hinside : ∀ index, inside' index ↔ index ≠ place ∧ inside index) :
    Indexed (records.erase (intBytes .big place)) inside' := by
  intro suffix
  rw [get_erase]
  by_cases hsame : suffix = intBytes .big place
  · rw [if_pos hsame]
    refine iff_of_false (fun hnone => hnone rfl) ?_
    rintro ⟨index, hindex, hsuffix⟩
    exact ((hinside index).mp hindex).1 (intBytes_injective .big (hsuffix.symm.trans hsame))
  · rw [if_neg hsame, hindexed suffix]
    refine exists_congr fun index => and_congr_left fun hsuffix => ?_
    have hne : index ≠ place := fun heq => hsame (heq ▸ hsuffix)
    rw [hinside, and_iff_right hne]

theorem Indexed.inside_of_get {value : Bytes}
    (hget : records.get (intBytes .big place) = some value) : inside place := by
  obtain ⟨index, hindex, hsuffix⟩ := (hindexed _).mp (by rw [hget]; nofun)
  exact intBytes_injective .big hsuffix ▸ hindex

omit hindexed

theorem indexed_empty : Indexed empty fun _ => False := by
  intro suffix
  exact iff_of_false (fun hnone => hnone rfl) fun ⟨_, hfalse, _⟩ => hfalse

theorem toInt_pred {index : Int64} (hindex : index ≠ minValue) :
    (index - 1).toInt = index.toInt - 1 := by
  have hne : index.toInt ≠ -2 ^ 63 := fun heq => hindex (Int64.toInt.inj heq)
  have hle := index.le_toInt
  have hlt := index.toInt_lt
  rw [Int64.toInt_sub, show (1 : Int64).toInt = 1 from rfl, Int.bmod]
  omega

theorem toInt_succ {index : Int64} (hindex : index ≠ maxValue) :
    (index + 1).toInt = index.toInt + 1 := by
  have hne : index.toInt ≠ 2 ^ 63 - 1 := fun heq => hindex (Int64.toInt.inj heq)
  have hle := index.le_toInt
  have hlt := index.toInt_lt
  rw [Int64.toInt_add, show (1 : Int64).toInt = 1 from rfl, Int.bmod]
  omega

theorem ne_minValue_of_lt {low index : Int64} (hlt : low < index) :
    index ≠ minValue := by
  rintro rfl
  exact not_le.mpr hlt (Int64.minValue_le low)

theorem ne_maxValue_of_lt {high index : Int64} (hlt : index < high) :
    index ≠ maxValue := by
  rintro rfl
  exact not_le.mpr hlt (Int64.le_maxValue high)

variable {start endIndex : Int64}

theorem listMetaBytes_inj {timestamp timestamp' : UInt64} {start' endIndex' : Int64}
    (heq : listMetaBytes timestamp start endIndex = listMetaBytes timestamp' start' endIndex') :
    start = start' ∧ endIndex = endIndex' := by
  have htail := append_inj_right heq (by simp)
  obtain ⟨hstart, hend⟩ := append_inj htail (by simp [intBytes_length])
  exact ⟨intBytes_injective .little hstart, intBytes_injective .little hend⟩

theorem accounts_list (hsettled : before.Settled) {timestamp : UInt64}
    (hhead : before.head = some (listMetaBytes timestamp start endIndex)) :
    before.Accounts .LIST ∧ start < endIndex ∧
      Indexed before.records fun index => start < index ∧ index < endIndex := by
  have hhas : before.Has .LIST := ⟨_, hhead, .list _ _ _⟩
  rcases hsettled with rfl | haccounts
  · cases hhead
  · have haccounts := Accounts.of_has haccounts hhas
    obtain ⟨-, timestamp', start', endIndex', hhead', hlt, hindexed⟩ := haccounts
    rw [hhead, some.injEq] at hhead'
    obtain ⟨rfl, rfl⟩ := listMetaBytes_inj hhead'
    exact ⟨⟨hhas, timestamp, start, endIndex, hhead, hlt, hindexed⟩, hlt, hindexed⟩

theorem accounts_put (hindexed : Indexed before.records inside) (hlt : start < endIndex)
    (hinside : ∀ index, start < index ∧ index < endIndex ↔ index = place ∨ inside index)
    (timestamp : UInt64) (value : Bytes) :
    Slot.Accounts ⟨some (listMetaBytes timestamp start endIndex),
      before.records.put (intBytes .big place) value⟩ .LIST :=
  ⟨⟨_, rfl, .list _ _ _⟩, timestamp, start, endIndex, rfl, hlt, hindexed.put hinside value⟩

theorem accounts_erase (hindexed : Indexed before.records inside) (hlt : start < endIndex)
    (hinside : ∀ index, start < index ∧ index < endIndex ↔ index ≠ place ∧ inside index)
    (timestamp : UInt64) :
    Slot.Accounts ⟨some (listMetaBytes timestamp start endIndex),
      before.records.erase (intBytes .big place)⟩ .LIST :=
  ⟨⟨_, rfl, .list _ _ _⟩, timestamp, start, endIndex, rfl, hlt, hindexed.erase hinside⟩

theorem accounts_first (hempty : before.records = empty) (timestamp : UInt64) (value : Bytes) :
    Slot.Accounts ⟨some (listMetaBytes timestamp (-1) 1),
      before.records.put (intBytes .big (0 : Int64)) value⟩ .LIST := by
  refine accounts_put (hempty ▸ indexed_empty) (by decide) (fun index => ?_) timestamp value
  rw [or_false, lt_iff_toInt_lt, lt_iff_toInt_lt, ← toInt_inj]
  change (-1 < index.toInt ∧ index.toInt < 1) ↔ index.toInt = 0
  omega

variable (hsettled : before.Settled)
include hsettled

theorem ends_cases (hends : EndsOf before start endIndex) :
    (before.records = empty ∧ start = 0 ∧ endIndex = 0) ∨
      (before.Accounts .LIST ∧ start < endIndex ∧
        Indexed before.records fun index => start < index ∧ index < endIndex) := by
  cases hends with
  | absent => exact .inl ⟨rfl, rfl, rfl⟩
  | stored hhead => exact .inr (accounts_list hsettled hhead)

theorem pushed_accounts {isLeft : Bool} (hpushed : Pushed isLeft before after)
    (hroom : ∀ start endIndex, EndsOf before start endIndex →
      if isLeft then start ≠ minValue else endIndex ≠ maxValue) :
    after.Accounts .LIST ∧ (before.records = empty ∨ before.Accounts .LIST) := by
  obtain ⟨metaData, timestamp, value, hends, rfl⟩ := hpushed
  have hroom := hroom _ _ hends
  rcases ends_cases hsettled hends with ⟨hempty, hstart, hend⟩ | ⟨haccounts, hlt, hindexed⟩
  · simp only [LaserValueListMeta.pushFront, LaserValueListMeta.pushBack, hstart, hend, ↓reduceIte,
      ite_self]
    exact ⟨accounts_first hempty timestamp value, .inl hempty⟩
  · refine ⟨?_, .inr haccounts⟩
    have hne := ne_of_lt hlt
    rw [lt_iff_toInt_lt] at hlt
    cases isLeft
    · have hsucc := toInt_succ hroom
      simp only [LaserValueListMeta.pushBack, if_neg hne, Bool.false_eq_true, ↓reduceIte]
      refine accounts_put hindexed ?_ (fun index => ?_) timestamp value
      all_goals simp only [lt_iff_toInt_lt, ← toInt_inj]; omega
    · have hpred := toInt_pred hroom
      simp only [LaserValueListMeta.pushFront, if_neg hne, ↓reduceIte]
      refine accounts_put hindexed ?_ (fun index => ?_) timestamp value
      all_goals simp only [lt_iff_toInt_lt, ← toInt_inj]; omega

theorem popped_accounts {isLeft : Bool} (hpopped : Popped isLeft before after) :
    after.Accounts .LIST ∧ before.Accounts .LIST := by
  obtain ⟨metaData, timestamp, timestamp', value, hhead, hget, rfl⟩ := hpopped
  obtain ⟨haccounts, hlt, hindexed⟩ := accounts_list hsettled hhead
  have hinside := hindexed.inside_of_get hget
  refine ⟨?_, haccounts⟩
  cases isLeft with
  | true =>
    simp only [LaserValueListMeta.popFront, ↓reduceIte] at hinside ⊢
    have hsucc := toInt_succ (ne_maxValue_of_lt hlt)
    refine accounts_erase hindexed hinside.2 (fun index => ?_) timestamp'
    rw [ne_eq, ← toInt_inj]
    simp only [lt_iff_toInt_lt]
    omega
  | false =>
    simp only [LaserValueListMeta.popBack, Bool.false_eq_true, ↓reduceIte] at hinside ⊢
    have hpred := toInt_pred (ne_minValue_of_lt hlt)
    refine accounts_erase hindexed hinside.1 (fun index => ?_) timestamp'
    rw [ne_eq, ← toInt_inj]
    simp only [lt_iff_toInt_lt]
    omega

omit hsettled

variable {call : Call}

theorem records_empty_of_names (hempty : before.records = empty)
    (hnames : ∀ suffix, after.records.get suffix = none ↔ before.records.get suffix = none) :
    after.records = empty := by
  apply OrderedMap.ext_get
  intro suffix
  rw [OrderedMap.get_empty, hnames, hempty, OrderedMap.get_empty]

theorem retimed_accounts (hsettled : before.Settled) (hretimed : Retimed before after) :
    ∃ type, after.Accounts type ∧ before.Accounts type := by
  obtain ⟨⟨type, bytes, bytes', hbytes, hbytes', hsame⟩, hnames, hsize⟩ := hretimed
  have haccounts : before.Accounts type := by
    rcases hsettled with rfl | haccounts
    · cases hbytes
    · exact Accounts.of_has haccounts ⟨bytes, hbytes, hsame.metaOf.1⟩
  have hhas : after.Has type := ⟨bytes', hbytes', hsame.metaOf.2⟩
  refine ⟨type, ⟨hhas, ?_⟩, haccounts⟩
  have hrecords := haccounts.2
  cases hsame with
  | string | counter => exact records_empty_of_names hrecords hnames
  | map | set =>
    obtain ⟨hlt, timestamp, hhead⟩ := hrecords
    rw [hbytes, some.injEq] at hhead
    rw [hsize, ← sizeMetaBytes_inj hhead]
    exact ⟨hlt, _, hbytes'⟩
  | list =>
    obtain ⟨-, hlt, hindexed⟩ := accounts_list hsettled hbytes
    refine ⟨_, _, _, hbytes', hlt, fun suffix => ?_⟩
    rw [ne_eq, hnames]
    exact hindexed suffix
  | zset => exact trivial

theorem deleted_absent (hsettled : before.Settled)
    (hsettles : before.Has .ZSET → before.records = empty)
    (hdeleted : Deleted before after) : after = .absent := by
  rcases hdeleted with habsent | ⟨type, hhas, herased, rfl⟩
  · exact habsent
  · have hempty : before.records = empty := by
      refine (Settled.of_of hsettled (.inr hhas)).elim id fun haccounts => ?_
      cases type with
      | RAW_STRING | COUNTER => exact haccounts.2
      | ZSET => exact hsettles hhas
      | MAP | LIST | SET => exact absurd (by decide) herased
    exact Slot.eq_absent rfl hempty

theorem accounts_zset (hhas : after.Has .ZSET) : after.Accounts .ZSET := ⟨hhas, trivial⟩

theorem effect_keeps (hsettled : before.Settled) (hsettles : call.Settles before)
    (heffect : call.Effect before after) :
    after = .absent ∨ ∃ type, Keeps call type before after := by
  have hown {type : ValueType} (hcall : call.valueType = some type)
      (hafter : after.Accounts type ∧ (before.records = empty ∨ before.Accounts type)) :
      after = .absent ∨ ∃ type, Keeps call type before after :=
    .inr ⟨type, hafter.1, fun found hfound => some.inj (hfound.symm.trans hcall),
      hafter.2, fun hnone => by rw [hcall] at hnone; cases hnone⟩
  have hset {options : SetOptions} (hcall : call.valueType = some .RAW_STRING)
      (hsettles : options.notExists = false → before.records = empty)
      (heffect : (if options.notExists then Revised .RAW_STRING else Rewritten .RAW_STRING)
        before after) :
      after = .absent ∨ ∃ type, Keeps call type before after := by
    apply hown hcall
    cases hexists : options.notExists with
    | true =>
      rw [hexists] at heffect
      exact revised_accounts (.inl rfl) hsettled heffect
    | false =>
      rw [hexists] at heffect
      have hempty := hsettles hexists
      exact ⟨rewritten_accounts (.inl rfl) hempty heffect, .inl hempty⟩
  cases call with
  | append => exact hown rfl (revised_accounts (.inl rfl) hsettled heffect)
  | incr | decr => exact hown rfl (revised_accounts (.inr rfl) hsettled heffect)
  | set | mset =>
    exact hown rfl ⟨rewritten_accounts (.inl rfl) hsettles heffect, .inl hsettles⟩
  | setx | msetx => exact hset rfl hsettles heffect
  | hset | hmset =>
    exact hown rfl (counted_accounts (.inl rfl) hsettled (fun _ => hsettles) heffect)
  | hdel => exact hown rfl (counted_accounts (.inl rfl) hsettled id heffect)
  | sadd => exact hown rfl (counted_accounts (.inr rfl) hsettled (fun _ => hsettles) heffect)
  | sdel => exact hown rfl (counted_accounts (.inr rfl) hsettled id heffect)
  | pushFront =>
    exact hown rfl (pushed_accounts hsettled heffect fun _ _ hends hmin =>
      hsettles _ (hmin ▸ hends))
  | pushBack =>
    exact hown rfl (pushed_accounts hsettled heffect fun _ _ hends hmax =>
      hsettles _ (hmax ▸ hends))
  | popFront | popBack =>
    obtain ⟨hafter, hbefore⟩ := popped_accounts hsettled heffect
    exact hown rfl ⟨hafter, .inr hbefore⟩
  | zadd =>
    exact hown rfl ⟨accounts_zset heffect.2, Settled.of_of hsettled heffect.1⟩
  | zremRangeByScore => cases hsettles
  | delkey => exact .inl (deleted_absent hsettled hsettles heffect)
  | expire | expireAt =>
    obtain ⟨type, hafter, hbefore⟩ := retimed_accounts hsettled heffect
    refine .inr ⟨type, hafter, nofun, .inr hbefore, fun _ suffix => ?_⟩
    rw [ne_eq, heffect.names]
    exact id
  | _ => cases heffect

end

structure Tracked where
  engine : RocksDbEngine
  writer : Bytes → Option ValueType

namespace Tracked
variable {tracked : Tracked} {env : Env} {call : Call} {key : LaserKey}

def next (input : Env × Call) (tracked : Tracked) : Tracked where
  engine := (input.2.exec input.1 tracked.engine).2
  writer bytes :=
    if (input.2.exec input.1 tracked.engine).2.db.store.get bytes =
        tracked.engine.db.store.get bytes then tracked.writer bytes
    else input.2.valueType.or (tracked.writer bytes)

def Admits (input : Env × Call) (tracked : Tracked) : Prop :=
  ∀ key ∈ input.2.keys, key.Valid ∧ input.2.Settles (slot tracked.engine.db.store key)

/-- Every data record has a meta record of the type that wrote it, which accounts
for it, and a key without meta record has no records at all. -/
structure NoOrphans (tracked : Tracked) : Prop where
  records : ∀ bytes value, tracked.engine.db.store.get bytes = some value →
    (∃ key : LaserKey, key.Valid ∧ bytes = key.metaKey) ∨
      ∃ (key : LaserKey) (type : ValueType), key.Valid ∧ key.stem <+: bytes ∧
        tracked.writer bytes = some type ∧ (slot tracked.engine.db.store key).Accounts type
  fresh : ∀ key : LaserKey, key.Valid → (slot tracked.engine.db.store key).head = none →
    slot tracked.engine.db.store key = .absent

structure Sound (tracked : Tracked) : Prop where
  owned : ∀ bytes, tracked.engine.db.store.get bytes ≠ none →
    ∃ key : LaserKey, key.Valid ∧ key.Owns bytes
  settled : ∀ key : LaserKey, key.Valid → (slot tracked.engine.db.store key).Settled
  written : ∀ (key : LaserKey) (type : ValueType), key.Valid →
    (slot tracked.engine.db.store key).Accounts type →
      ∀ suffix, (slot tracked.engine.db.store key).records.get suffix ≠ none →
        tracked.writer (key.stem ++ suffix) = some type

theorem Sound.noOrphans (hsound : tracked.Sound) : tracked.NoOrphans := by
  constructor
  · intro bytes value hget
    obtain ⟨key, hvalid, hmeta | ⟨suffix, rfl⟩⟩ := hsound.owned bytes (by rw [hget]; nofun)
    · exact .inl ⟨key, hvalid, hmeta⟩
    · have hrecord : (slot tracked.engine.db.store key).records.get suffix ≠ none := by
        simp only [slot, get_under, hget]
        nofun
      rcases hsound.settled key hvalid with habsent | ⟨type, haccounts⟩
      · rw [habsent] at hrecord
        exact absurd rfl hrecord
      · exact .inr ⟨key, type, hvalid, prefix_append _ _,
          hsound.written key type hvalid haccounts suffix hrecord, haccounts⟩
  · intro key hvalid hhead
    exact (hsound.settled key hvalid).sound.absent_of_head hhead

variable {engine : RocksDbEngine}

theorem sound_of_empty (hempty : engine.db.store = empty) (writer : Bytes → Option ValueType) :
    Sound ⟨engine, writer⟩ := by
  constructor
  · intro bytes hget
    rw [hempty] at hget
    exact absurd rfl hget
  · intro key _
    rw [hempty]
    exact .inl rfl
  · intro key type _ _ suffix hget
    rw [hempty] at hget
    exact absurd rfl hget

theorem oneSided_of_admits (hadmits : Admits (env, call) tracked) : call.OneSided := by
  cases call with
  | zremRangeByScore key => exact (hadmits key mem_cons_self).2.elim
  | _ => exact trivial

theorem batch_owned (env : Env) (hone : call.OneSided)
    (hsound : ∀ key ∈ call.keys, (slot engine.db.store key).Sound) {bytes : Bytes}
    (hbytes : bytes ∈ (call.batch env engine).map BatchWrite.target) :
    ∃ key ∈ call.keys, key.Owns bytes := by
  obtain ⟨write, hwrite, rfl⟩ := mem_map.mp hbytes
  have hheads {pairs : List (LaserKey × Bytes)} (hmem : ∀ pair ∈ pairs, pair.1 ∈ call.keys)
      (hwrite : write ∈ committed env engine.db.role (.ok ((), headWrites pairs))) :
      ∃ key ∈ call.keys, key.Owns write.target := by
    unfold committed at hwrite
    split at hwrite
    · rename_i hplan _ _
      cases hplan
      obtain ⟨pair, hpair, rfl⟩ := mem_map.mp hwrite
      exact ⟨pair.1, hmem pair hpair, .inl rfl⟩
    · cases hwrite
  cases hcall : call.key with
  | some own =>
    have hown : own ∈ call.keys := by cases call <;> cases hcall <;> exact mem_cons_self
    obtain ⟨writes, hbatch, -⟩ := batch_writes engine env hcall hone fun _ _ _ => hsound own hown
    rw [hbatch] at hwrite
    obtain ⟨slotWrite, -, rfl⟩ := mem_map.mp hwrite
    exact ⟨own, hown, owns_target_ofKey own slotWrite⟩
  | none =>
    cases call with
    | mset keys datas =>
      simp only [Call.batch, msetPlan_eq] at hwrite
      split at hwrite
      · cases hwrite
      · refine hheads (fun pair hpair => ?_) hwrite
        obtain ⟨source, hsource, rfl⟩ := mem_map.mp hpair
        exact (of_mem_zip hsource).1
    | msetx keys datas options =>
      simp only [Call.batch, msetxPlan_eq] at hwrite
      split at hwrite
      · cases hwrite
      · refine hheads (fun pair hpair => ?_) hwrite
        obtain ⟨source, hsource, rfl⟩ := mem_map.mp hpair
        exact (of_mem_zip (mem_of_mem_filter hsource)).1
    | _ => cases hcall

theorem step_slot (env : Env) (hsound : tracked.Sound)
    (hadmits : Admits (env, call) tracked) (hkey : key.Valid) :
    let before := slot tracked.engine.db.store key
    let after := slot (call.exec env tracked.engine).2.db.store key
    after = before ∨ after = .absent ∨ ∃ type, Keeps call type before after := by
  intro before after
  have heffect : OrSame (fun before after => key ∈ call.keys ∧
      (before.Sound → call.Effect before after)) before after := by
    simp only [after, exec_engine]
    exact call_effect hkey (fun other hother => (hadmits other hother).1)
      (oneSided_of_admits hadmits)
      fun other hother _ _ _ => (hsound.settled other (hadmits other hother).1).sound
  refine heffect.imp id fun heffect => ?_
  have hsettled := hsound.settled key hkey
  exact effect_keeps hsettled (hadmits key heffect.1).2 (heffect.2 hsettled.sound)

theorem Sound.next (env : Env) (hsound : tracked.Sound) (hadmits : Admits (env, call) tracked) :
    (next (env, call) tracked).Sound := by
  constructor
  · intro bytes hget
    by_cases hbytes : bytes ∈ (call.batch env tracked.engine).map BatchWrite.target
    · obtain ⟨key, hkey, howns⟩ := batch_owned env (oneSided_of_admits hadmits)
        (fun key hkey => (hsound.settled key (hadmits key hkey).1).sound) hbytes
      exact ⟨key, (hadmits key hkey).1, howns⟩
    · refine hsound.owned bytes ?_
      have hkept : ((call.batch env tracked.engine).apply tracked.engine.db.store).get bytes =
          tracked.engine.db.store.get bytes :=
        get_apply_kept fun write hwrite heq => hbytes (heq ▸ mem_map_of_mem hwrite)
      rw [← hkept]
      simp only [Tracked.next, exec_engine] at hget
      exact hget
  · intro key hkey
    rcases step_slot env hsound hadmits hkey with hsame | habsent | ⟨type, hkeeps⟩
    · exact hsame ▸ hsound.settled key hkey
    · exact .inl habsent
    · exact .inr ⟨type, hkeeps.accounts⟩
  · intro key type hkey haccounts suffix hget
    have hrecord (store : Store) : (slot store key).records.get suffix =
        store.get (key.stem ++ suffix) := get_under _ _ _
    have hearlier (hbefore : (slot tracked.engine.db.store key).records.get suffix ≠ none)
        (hnames : (slot tracked.engine.db.store key).records = empty ∨
          (slot tracked.engine.db.store key).Accounts type) :
        tracked.writer (key.stem ++ suffix) = some type := by
      rcases hnames with hempty | hbeforeAccounts
      · rw [hempty] at hbefore
        exact absurd rfl hbefore
      · exact hsound.written key type hkey hbeforeAccounts suffix hbefore
    change (if (call.exec env tracked.engine).2.db.store.get (key.stem ++ suffix) =
      tracked.engine.db.store.get (key.stem ++ suffix) then _ else _) = _
    change (slot (call.exec env tracked.engine).2.db.store key).records.get suffix ≠ none at hget
    rcases step_slot env hsound hadmits hkey with hsame | habsent | ⟨found, hkeeps⟩
    · rw [← hrecord, ← hrecord, hsame, if_pos rfl]
      rw [hsame] at hget
      exact hearlier hget (.inr (hsame ▸ haccounts))
    · rw [habsent] at hget
      exact absurd rfl hget
    · have htype : found = type := hkeeps.accounts.1.unique haccounts.1
      subst htype
      rw [← hrecord, ← hrecord]
      split
      · rename_i hkept
        exact hearlier (hkept ▸ hget) hkeeps.earlier
      · cases hcall : call.valueType with
        | some own => rw [some_or, hkeeps.own own hcall]
        | none => exact hearlier (hkeeps.names hcall suffix hget) hkeeps.earlier

/-- In every run of settled calls no data record is orphaned. -/
theorem noOrphans_of_settled (engine : RocksDbEngine) (hempty : engine.db.store = empty)
    (inputs : List (Env × Call))
    (hadmits : Simulation.Guarded next Admits inputs ⟨engine, fun _ => none⟩) :
    (Simulation.finalState next inputs ⟨engine, fun _ => none⟩).NoOrphans :=
  (Simulation.invariant_finalState (fun _ _ hsound hadmits => hsound.next _ hadmits)
    (sound_of_empty hempty _) hadmits).noOrphans

theorem noOrphans_after_delkey :
    let key : LaserKey := ⟨[[97]], []⟩
    let inputs : List (Env × Call) :=
      [(Env.at 1, .hset key [102] [1]), (Env.at 2, .delkey key), (Env.at 3, .set key [2])]
    (Simulation.finalState next inputs ⟨RocksDbEngine.fresh, fun _ => none⟩).NoOrphans := by
  intro key inputs
  have hvalid : key.Valid := by decide
  refine noOrphans_of_settled RocksDbEngine.fresh rfl inputs ⟨?_, ?_, ?_, trivial⟩
  · intro own hown
    rw [mem_singleton.mp hown]
    exact ⟨hvalid, show (0 + 1 : Nat) < 2 ^ 32 by decide⟩
  · intro own hown
    rw [mem_singleton.mp hown]
    refine ⟨hvalid, fun hzset => ?_⟩
    have hmap : (slot (next (Env.at 1, .hset key [102] [1])
        ⟨RocksDbEngine.fresh, fun _ => none⟩).engine.db.store key).Has .MAP :=
      ⟨sizeMetaBytes .MAP 0 1, by decide, .map 0 1⟩
    exact absurd (hmap.unique hzset) (by decide)
  · intro own hown
    rw [mem_singleton.mp hown]
    exact ⟨hvalid, show under _ _ = empty by decide⟩

/-- A string written over a hash leaves its field behind, which shows up in the
next hash of the key. -/
theorem set_orphans_field :
    let key : LaserKey := ⟨[[97]], []⟩
    let inputs : List (Env × Call) := [(Env.at 1, .hset key [102] [1]), (Env.at 2, .set key [2])]
    let orphaned := Simulation.finalState next inputs ⟨RocksDbEngine.fresh, fun _ => none⟩
    let later := orphaned.engine.after [(Env.at 3, .delkey key), (Env.at 4, .hset key [103] [3])]
    ¬orphaned.NoOrphans ∧ ((Call.hgetall key).exec (Env.at 5) later).1 =
        (.OK, .fields (ofPairs [([102], [1]), ([103], [3])])) := by
  intro key inputs orphaned later
  refine ⟨fun hnone => ?_, by decide⟩
  have hget : orphaned.engine.db.store.get (key.dataKey (.field [102])) ≠ none := by decide
  obtain ⟨value, hvalue⟩ := ne_none_iff_exists'.mp hget
  rcases hnone.records _ value hvalue with
    ⟨other, -, hmeta⟩ | ⟨other, type, hother, hstem, hwriter, haccounts⟩
  · exact key.not_stem_isPrefix_metaKey other (hmeta ▸ key.stem_isPrefix_dataKey _)
  · have hsame : other = key :=
      LaserKey.eq_of_stem_isPrefix hother (by decide) hstem (key.stem_isPrefix_dataKey _)
    rw [hsame] at haccounts
    have htype : orphaned.writer (key.dataKey (.field [102])) = some .MAP := by decide
    rw [hwriter, some.injEq] at htype
    subst htype
    have hstring : (slot orphaned.engine.db.store key).Has .RAW_STRING :=
      ⟨rawStringBytes 0 [2], by decide, .string 0 [2]⟩
    exact absurd (haccounts.1.unique hstring) (by decide)

end Tracked

end LaserDB
