import LaserDB.Refinement.CallEffect

/-!
# What `delkey` leaves behind

`delkey` finds the data records of a hash, a list or a set through the meta record, and looks for
none of a zset.
-/

namespace LaserDB

open BatchWrite

open OrderedMap (empty ofPairs)
open ByteCodec RocksDbEngine Option OrderedMap
open OrderedMap (ext_get get_empty get_erase get_put get_under le_append)

def RocksDbEngine.after (engine : RocksDbEngine) (inputs : List (Env × Call)) : RocksDbEngine :=
  Simulation.finalState (fun input engine => (input.2.exec input.1 engine).2) inputs engine

def Call.Follows (uses : LaserKey → ValueType) (call : Call) : Prop :=
  ∀ key ∈ call.keys, key.Valid ∧ ∀ type ∈ call.valueType, uses key = type

/-- What the slot of a key keeps to that is used with one type: data records come
with a meta record that tells the type.  Nothing is said of a zset. -/
def Slot.KeepsTo (slot : Slot) (type : ValueType) : Prop :=
  type ≠ .ZSET → slot.Of type ∧ (¬type.erasedByDelkey → slot.records = empty)

section
variable {type : ValueType} {before after : Slot}

theorem Slot.keepsTo_absent (type : ValueType) : Slot.absent.KeepsTo type :=
  fun _ => ⟨.inl rfl, fun _ => rfl⟩

theorem Slot.KeepsTo.sound (hkeeps : before.KeepsTo type) (htype : type ≠ .ZSET) : before.Sound :=
  ⟨type, (hkeeps htype).1⟩

theorem SameValue.metaOf {bytes bytes' : Bytes} (hsame : SameValue type bytes bytes') :
    MetaOf type bytes ∧ MetaOf type bytes' := by
  cases hsame
  · exact ⟨.string _ _, .string _ _⟩
  · exact ⟨.counter _ _, .counter _ _⟩
  · exact ⟨.map _ _, .map _ _⟩
  · exact ⟨.list _ _ _, .list _ _ _⟩
  · exact ⟨.set _ _, .set _ _⟩
  · exact ⟨.zset _ _, .zset _ _⟩

theorem effect_has {call : Call} (hcall : call.valueType = some type)
    (htype : type ≠ .ZSET) (heffect : call.Effect before after) :
    after.Has type ∧ (¬type.erasedByDelkey → after.records = before.records) := by
  have hrewritten {type : ValueType} (hafter : Rewritten type before after) :
      after.Has type ∧ (¬type.erasedByDelkey → after.records = before.records) :=
    ⟨hafter.1, fun _ => hafter.2⟩
  cases call with
  | append | incr | decr =>
    cases hcall
    exact hrewritten heffect.2
  | set | mset =>
    cases hcall
    exact hrewritten heffect
  | setx | msetx =>
    cases hcall
    simp only [Call.Effect] at heffect
    split at heffect
    · exact hrewritten heffect.2
    · exact hrewritten heffect
  | hset | hmset | hdel =>
    cases hcall
    obtain ⟨_, size, timestamp, -, hhead, -⟩ := heffect.counts
    exact ⟨⟨_, hhead, .map timestamp size⟩, fun herased => absurd (by decide) herased⟩
  | sadd | sdel =>
    cases hcall
    obtain ⟨_, size, timestamp, -, hhead, -⟩ := heffect.counts
    exact ⟨⟨_, hhead, .set timestamp size⟩, fun herased => absurd (by decide) herased⟩
  | pushFront | pushBack =>
    cases hcall
    obtain ⟨_, _, _, -, rfl⟩ := heffect
    exact ⟨⟨_, rfl, .list _ _ _⟩, fun herased => absurd (by decide) herased⟩
  | popFront | popBack =>
    cases hcall
    obtain ⟨_, _, _, _, -, -, rfl⟩ := heffect
    exact ⟨⟨_, rfl, .list _ _ _⟩, fun herased => absurd (by decide) herased⟩
  | zadd | zremRangeByScore =>
    cases hcall
    exact absurd rfl htype
  | delkey | expire | expireAt => cases hcall
  | exist | get | hget | hlen | hkeys | hgetall | llen | lindex | getList | lrange | hasMember
  | getSet | members | zrangeByScore | ttl => cases heffect

theorem deleted_keepsTo (hkeeps : before.KeepsTo type) (hdeleted : Deleted before after) :
    after.KeepsTo type := by
  intro htype
  obtain ⟨hof, hempty⟩ := hkeeps htype
  rcases hdeleted with rfl | ⟨found, hhas, herased, rfl⟩
  · exact Slot.keepsTo_absent type htype
  · have hfound : found = type := by
      rcases hof with rfl | hown
      · obtain ⟨_, hhead, -⟩ := hhas
        cases hhead
      · exact hhas.unique hown
    subst hfound
    have habsent : Slot.mk none before.records = .absent := Slot.eq_absent rfl (hempty herased)
    exact habsent ▸ Slot.keepsTo_absent found htype

theorem retimed_keepsTo (hkeeps : before.KeepsTo type) (hretimed : Retimed before after) :
    after.KeepsTo type := by
  intro htype
  obtain ⟨hof, hempty⟩ := hkeeps htype
  obtain ⟨found, bytes, bytes', hhead, hhead', hsame⟩ := hretimed.head
  have hfound : found = type := by
    rcases hof with rfl | hown
    · cases hhead
    · exact Slot.Has.unique ⟨bytes, hhead, hsame.metaOf.1⟩ hown
  subst hfound
  refine ⟨.inr ⟨bytes', hhead', hsame.metaOf.2⟩, fun herased => ext_get ?_⟩
  intro suffix
  exact (hretimed.names suffix).mpr (by rw [hempty herased]; rfl)

theorem effect_keepsTo {call : Call} (htypes : ∀ found ∈ call.valueType, type = found)
    (hkeeps : before.KeepsTo type) (heffect : before.Sound → call.Effect before after) :
    after.KeepsTo type := by
  intro htype
  have heffect := heffect (hkeeps.sound htype)
  cases hcall : call.valueType with
  | some found =>
    obtain rfl := htypes found hcall
    obtain ⟨hhas, hrecords⟩ := effect_has hcall htype heffect
    exact ⟨.inr hhas, fun herased => (hrecords herased).trans ((hkeeps htype).2 herased)⟩
  | none =>
    cases call with
    | delkey => exact deleted_keepsTo hkeeps heffect htype
    | expire | expireAt => exact retimed_keepsTo hkeeps heffect htype
    | ttl => cases heffect
    | _ => cases hcall

end

variable {store : Store} {key own : LaserKey} {bytes : Bytes}

variable {write : BatchWrite}

section

def LaserKey.Owns (key : LaserKey) (bytes : Bytes) : Prop :=
  bytes = key.metaKey ∨ key.stem <+: bytes

instance (key : LaserKey) (bytes : Bytes) : Decidable (key.Owns bytes) :=
  inferInstanceAs (Decidable (_ ∨ _))

def BatchWrite.target : BatchWrite → Bytes
  | .put key _ => key
  | .delete key => key

variable {store' : Store}

theorem get_apply_of_ne (hne : bytes ≠ write.target) :
    (apply store write).get bytes = store.get bytes := by
  cases write with
  | put => exact get_put_of_ne hne
  | delete => exact get_erase_of_ne hne

theorem get_apply_congr (write : BatchWrite) (hget : store'.get bytes = store.get bytes) :
    (apply store' write).get bytes = (apply store write).get bytes := by
  cases write with
  | put =>
    change (store'.put _ _).get bytes = (store.put _ _).get bytes
    rw [get_put, get_put, hget]
  | delete =>
    change (store'.erase _).get bytes = (store.erase _).get bytes
    rw [get_erase, get_erase, hget]

theorem owns_target_ofKey (key : LaserKey) (write : SlotWrite) :
    key.Owns (write.ofKey key).target := by
  cases write with
  | putHead | dropHead => exact .inl rfl
  | put | drop => exact .inr (List.prefix_append _ _)

theorem not_owns_of_owns (hown : own.Valid) (hkey : key.Valid) (hne : own ≠ key)
    (howns : own.Owns bytes) : ¬key.Owns bytes := by
  rintro (rfl | hstem)
  · rcases howns with hmeta | hprefix
    · exact metaKey_ne hkey hown hne.symm hmeta
    · exact own.not_stem_isPrefix_metaKey key hprefix
  · rcases howns with rfl | hprefix
    · exact key.not_stem_isPrefix_metaKey own hstem
    · exact hne (LaserKey.eq_of_stem_isPrefix hown hkey hprefix hstem)

/-- The second store is the first one without the records of `key`. -/
def Without (key : LaserKey) (store store' : Store) : Prop :=
  ∀ bytes, store'.get bytes = if key.Owns bytes then none else store.get bytes

theorem Without.slot_eq (hwithout : Without key store store') (hown : own.Valid)
    (hkey : key.Valid) (hne : own ≠ key) : slot store' own = slot store own := by
  have hget (bytes : Bytes) (howns : own.Owns bytes) : store'.get bytes = store.get bytes := by
    rw [hwithout, if_neg (not_owns_of_owns hown hkey hne howns)]
  have hrecords : store'.under own.stem = store.under own.stem := by
    apply ext_get
    intro suffix
    rw [get_under, get_under]
    exact hget _ (.inr (List.prefix_append _ _))
  rw [slot, slot, hget _ (.inl rfl), hrecords]

theorem Without.apply_filter (hwithout : Without key store store') (batch : RocksDbBatch) :
    Without key (batch.apply store)
      (RocksDbBatch.apply (batch.filter fun write => ¬key.Owns write.target) store') := by
  induction batch generalizing store store' with
  | nil => exact hwithout
  | cons write batch ih =>
    by_cases howns : key.Owns write.target
    · rw [List.filter_cons_of_neg (by simpa using howns)]
      have hstep : Without key (apply store write) store' := by
        intro bytes
        rw [hwithout]
        by_cases hbytes : key.Owns bytes
        · rw [if_pos hbytes, if_pos hbytes]
        · have hne : bytes ≠ write.target := fun heq => hbytes (heq ▸ howns)
          rw [if_neg hbytes, if_neg hbytes, get_apply_of_ne hne]
      exact ih hstep
    · rw [List.filter_cons_of_pos (by simpa using howns)]
      have hstep : Without key (apply store write) (apply store' write) := by
        intro bytes
        have hget := hwithout bytes
        by_cases hbytes : key.Owns bytes
        · have hne : bytes ≠ write.target := fun heq => howns (heq ▸ hbytes)
          rw [if_pos hbytes] at hget ⊢
          rw [get_apply_of_ne hne, hget]
        · rw [if_neg hbytes] at hget ⊢
          exact get_apply_congr write hget
      exact ih hstep

end

/-- The call without its part on `key`.  A call whose lists have different
lengths is turned away and does nothing. -/
def Call.without (key : LaserKey) (call : Call) : Option Call :=
  match call with
  | .mset keys datas =>
    if keys.length ≠ datas.length then none
    else
      let kept := (keys.zip datas).filter fun pair => pair.1 ≠ key
      some (.mset (kept.map Prod.fst) (kept.map Prod.snd))
  | .msetx keys datas options =>
    if keys.length ≠ datas.length then none
    else
      let kept := (keys.zip datas).filter fun pair => pair.1 ≠ key
      some (.msetx (kept.map Prod.fst) (kept.map Prod.snd) options)
  | call => if key ∈ call.keys then none else some call

variable {uses : LaserKey → ValueType} {engine : RocksDbEngine} {env : Env} {call : Call}

section
theorem filter_batchOf_self (key : LaserKey) (writes : List SlotWrite) :
    (batchOf key writes).filter (fun write => ¬key.Owns write.target) = [] := by
  rw [List.filter_eq_nil_iff]
  intro write hwrite
  obtain ⟨slotWrite, -, rfl⟩ := List.mem_map.mp hwrite
  simpa using owns_target_ofKey key slotWrite

theorem filter_batchOf_other (hown : own.Valid) (hkey : key.Valid) (hne : own ≠ key)
    (writes : List SlotWrite) :
    (batchOf own writes).filter (fun write => ¬key.Owns write.target) = batchOf own writes := by
  rw [List.filter_eq_self]
  intro write hwrite
  obtain ⟨slotWrite, -, rfl⟩ := List.mem_map.mp hwrite
  simpa using not_owns_of_owns hown hkey hne (owns_target_ofKey own slotWrite)

variable {pairs : List (LaserKey × Bytes)}

theorem filter_headWrites (hkey : key.Valid) (hpairs : ∀ pair ∈ pairs, pair.1.Valid) :
    (headWrites pairs).filter (fun write => ¬key.Owns write.target) =
      headWrites (pairs.filter fun pair => pair.1 ≠ key) := by
  rw [headWrites, List.filter_map, headWrites]
  congr 1
  apply List.filter_congr
  intro pair hpair
  by_cases hsame : pair.1 = key
  · simp [target, hsame, show key.Owns key.metaKey from .inl rfl]
  · have hnot : ¬key.Owns pair.1.metaKey :=
      not_owns_of_owns (hpairs pair hpair) hkey hsame (.inl rfl)
    simp [target, hsame, hnot]

theorem filter_committed {role : DBRole} (batch : RocksDbBatch) (keep : BatchWrite → Bool) :
    (committed env role (.ok ((), batch))).filter keep =
      committed env role (.ok ((), batch.filter keep)) := by
  rcases env with ⟨now, readFault, writeFault, inMemory⟩
  cases role <;> cases writeFault <;> rfl

theorem zip_kept (pairs : List (LaserKey × Bytes)) :
    (pairs.map Prod.fst).zip (pairs.map Prod.snd) = pairs := by
  rw [List.zip_map', List.map_id']

theorem msetPairs_kept (store : Store) (pairs : List (LaserKey × Bytes)) :
    (msetPairs env engine pairs).filter (fun pair => pair.1 ≠ key) =
      msetPairs env (engine.withStore store) (pairs.filter fun pair => pair.1 ≠ key) := by
  rw [msetPairs, List.filter_map]
  rfl

theorem msetxPairs_kept (options : SetOptions) (hslots : ∀ pair ∈ pairs, pair.1 ≠ key →
      slot store pair.1 = slot engine.db.store pair.1) :
    (msetxPairs env engine options pairs).filter (fun pair => pair.1 ≠ key) =
      msetxPairs env (engine.withStore store) options (pairs.filter fun pair => pair.1 ≠ key) := by
  rw [msetxPairs, msetxPairs, List.filter_map, List.filter_filter, List.filter_filter]
  congr 1
  apply List.filter_congr
  intro pair hpair
  by_cases hsame : pair.1 = key
  · simp [hsame]
  · rw [checkNotExists_local (hslots pair hpair hsame), Bool.and_comm]
    rfl

theorem batch_without (env : Env) (hkey : key.Valid) (hcall : call.Follows uses)
    (hone : call.OneSided)
    (hkeeps : ∀ own : LaserKey, own.Valid → (slot engine.db.store own).KeepsTo (uses own))
    (hwithout : Without key engine.db.store store) :
    (call.without key).elim [] (Call.batch env (engine.withStore store)) =
      (call.batch env engine).filter fun write => ¬key.Owns write.target := by
  cases hkind : call.key with
  | some own =>
    have hkeys : call.keys = [own] := by cases call <;> cases hkind <;> rfl
    have hrest : call.without key = if key ∈ call.keys then none else some call := by
      cases call <;> cases hkind <;> rfl
    obtain ⟨hown, htypes⟩ := hcall own (by simp [hkeys])
    obtain ⟨writes, hbatch, -⟩ := batch_writes engine env hkind hone
      fun type htype hne => (hkeeps own hown).sound (htypes type htype ▸ hne)
    rw [hrest, hbatch, hkeys]
    by_cases hsame : own = key
    · subst hsame
      rw [if_pos (by simp), filter_batchOf_self]
      rfl
    · have hslot : ∀ other ∈ call.keys, slot store other = slot engine.db.store other := by
        intro other hother
        rw [hkeys, List.mem_singleton] at hother
        rw [hother]
        exact hwithout.slot_eq hown hkey hsame
      rw [if_neg (by simpa using Ne.symm hsame), filter_batchOf_other hown hkey hsame, ← hbatch]
      exact batch_local hone hslot
  | none =>
    cases call with
    | mset keys datas =>
      simp only [Call.without, Call.batch, msetPlan_eq]
      split
      · rfl
      · have hvalid : ∀ pair ∈ msetPairs env engine (keys.zip datas), pair.1.Valid := by
          intro pair hpair
          obtain ⟨source, hsource, rfl⟩ := List.mem_map.mp hpair
          exact (hcall source.1 (List.of_mem_zip hsource).1).1
        rw [filter_committed, filter_headWrites hkey hvalid, msetPairs_kept store]
        simp only [elim_some, Call.batch, withStore_role, msetPlan_eq, List.length_map,
          ne_eq, not_true_eq_false, ↓reduceIte, zip_kept]
    | msetx keys datas options =>
      simp only [Call.without, Call.batch, msetxPlan_eq]
      split
      · rfl
      · have hvalid : ∀ pair ∈ msetxPairs env engine options (keys.zip datas), pair.1.Valid := by
          intro pair hpair
          obtain ⟨source, hsource, rfl⟩ := List.mem_map.mp hpair
          exact (hcall source.1 (List.of_mem_zip (List.mem_of_mem_filter hsource)).1).1
        have hslots : ∀ pair ∈ keys.zip datas, pair.1 ≠ key →
            slot store pair.1 = slot engine.db.store pair.1 := fun pair hpair hne =>
          hwithout.slot_eq (hcall pair.1 (List.of_mem_zip hpair).1).1 hkey hne
        rw [filter_committed, filter_headWrites hkey hvalid, msetxPairs_kept options hslots]
        simp only [elim_some, Call.batch, withStore_role, msetxPlan_eq, List.length_map,
          ne_eq, not_true_eq_false, ↓reduceIte, zip_kept]
    | _ => cases hkind

variable {min max : Int64}

theorem stem_le_of_mem_rangeZset {entry : Bytes × Bytes}
    (hentry : entry ∈ rangeZset min max (getFormatKey own) store) : own.stem ≤ entry.1 := by
  have hstart {score : Int64} (hle : own.stem ++ intBytes .big score ≤ entry.1) :
      own.stem ≤ entry.1 := (le_append _ _).trans hle
  have hbetween {low high : Int64} {entries : List (Bytes × Bytes)}
      (hmem : entry ∈ entries.takeWhile fun entry => own.stem ++ intBytes .big low ≤ entry.1 ∧
        entry.1 ≤ own.stem ++ intBytes .big high) : own.stem ≤ entry.1 := by
    have htaken := List.mem_takeWhile_imp hmem
    rw [decide_eq_true_eq] at htaken
    exact hstart htaken.1
  simp only [rangeZset, zsetData_rawData] at hentry
  split at hentry
  · exact hbetween hentry
  · split at hentry
    · rcases List.mem_append.mp hentry with hentry | hentry
      · have htaken := List.mem_takeWhile_imp hentry
        rw [decide_eq_true_eq] at htaken
        exact hstart htaken
      · exact hbetween hentry
    · exact hbetween hentry

theorem zrem_batch (hwrite : write ∈ Call.batch env engine (.zremRangeByScore own min max)) :
    write.target = own.metaKey ∨ ∃ bytes, write = .delete bytes ∧ own.stem ≤ bytes := by
  simp only [Call.batch] at hwrite
  split at hwrite
  · cases hwrite
  · unfold committed at hwrite
    split at hwrite
    · rename_i hplan _ _
      simp only [zremRangeByScorePlan, bind_eq_ok, zremLoop_eq, List.nil_append] at hplan
      obtain ⟨metaData, -, hplan⟩ := hplan
      have hdeleted {last : BatchWrite} (hlast : last.target = own.metaKey)
          (hmem : write ∈ ((rangeZset min max (getFormatKey own) engine.db.store).filter
            (fun entry => IsScoreKey entry.1)).map (fun entry => delete entry.1) ++
              [last]) :
          write.target = own.metaKey ∨ ∃ bytes, write = .delete bytes ∧ own.stem ≤ bytes := by
        rcases List.mem_append.mp hmem with hmem | hmem
        · obtain ⟨entry, hentry, rfl⟩ := List.mem_map.mp hmem
          exact .inr ⟨entry.1, rfl, stem_le_of_mem_rangeZset (List.mem_of_mem_filter hentry)⟩
        · rw [List.mem_singleton] at hmem
          exact .inl (hmem ▸ hlast)
      split at hplan
      all_goals
        cases hplan
        exact hdeleted rfl hwrite
    · cases hwrite

variable {batch : RocksDbBatch}

theorem get_apply_kept (hbatch : ∀ write ∈ batch, bytes ≠ write.target) :
    (batch.apply store).get bytes = store.get bytes := by
  induction batch generalizing store with
  | nil => rfl
  | cons write batch ih =>
    have hrest : (RocksDbBatch.apply batch (apply store write)).get bytes = _ :=
      ih fun other hother => hbatch other (by simp [hother])
    exact hrest.trans (get_apply_of_ne (hbatch write (by simp)))

theorem get_apply_deleted
    (hbatch : ∀ write ∈ batch, bytes ≠ write.target ∨ ∃ name, write = .delete name) :
    (batch.apply store).get bytes = none ∨ (batch.apply store).get bytes = store.get bytes := by
  induction batch generalizing store with
  | nil => exact .inr rfl
  | cons write batch ih =>
    have hrest : (RocksDbBatch.apply batch (apply store write)).get bytes = none ∨ _ :=
      ih fun other hother => hbatch other (by simp [hother])
    refine hrest.elim .inl fun hkept => ?_
    by_cases hne : bytes = write.target
    · obtain ⟨name, rfl⟩ := (hbatch write (by simp)).resolve_left fun hother => hother hne
      refine .inl (hkept.trans ?_)
      rw [hne]
      exact get_erase_self _ _
    · exact .inr (hkept.trans (get_apply_of_ne hne))

theorem zrem_shrinks (env : Env) (hown : own.Valid) (hkey : key.Valid) (hne : key ≠ own) :
    let after := slot ((Call.batch env engine (.zremRangeByScore own min max)).apply
      engine.db.store) key
    after.head = (slot engine.db.store key).head ∧ ∀ suffix, after.records.get suffix = none ∨
        after.records.get suffix = (slot engine.db.store key).records.get suffix := by
  refine ⟨get_apply_kept fun write hwrite => ?_, fun suffix => ?_⟩
  · rcases zrem_batch hwrite with htarget | ⟨bytes, rfl, hle⟩
    · rw [htarget]
      exact metaKey_ne hkey hown hne
    · exact ((LaserKey.metaKey_lt_stem key own).trans_le hle).ne
  · simp only [slot, get_under]
    refine get_apply_deleted fun write hwrite => ?_
    rcases zrem_batch hwrite with htarget | ⟨bytes, rfl, -⟩
    · rw [htarget]
      exact .inl (append_ne_metaKey key own suffix)
    · exact .inr ⟨bytes, rfl⟩

end

theorem KeepsTo.shrink {type : ValueType} {before after : Slot}
    (hkeeps : before.KeepsTo type) (hhead : after.head = before.head)
    (hrecords : ∀ suffix, after.records.get suffix = none ∨
      after.records.get suffix = before.records.get suffix) : after.KeepsTo type := by
  intro htype
  obtain ⟨hof, hplain⟩ := hkeeps htype
  have hempty (hbefore : before.records = empty) : after.records = empty := by
    apply ext_get
    intro suffix
    refine (hrecords suffix).elim id fun hsame => ?_
    rw [hsame, hbefore]
  refine ⟨?_, fun herased => hempty (hplain herased)⟩
  rcases hof with rfl | ⟨bytes, hbytes, hmeta⟩
  · exact .inl (Slot.eq_absent hhead (hempty rfl))
  · exact .inr ⟨bytes, hhead.trans hbytes, hmeta⟩

theorem step_keepsTo (env : Env) (hcall : call.Follows uses)
    (hkeeps : ∀ key : LaserKey, key.Valid → (slot engine.db.store key).KeepsTo (uses key))
    (hkey : key.Valid) :
    (slot ((call.batch env engine).apply engine.db.store) key).KeepsTo (uses key) := by
  by_cases hone : call.OneSided
  · have hsound : ∀ other ∈ call.keys, ∀ type ∈ call.valueType, type ≠ .ZSET →
        (slot engine.db.store other).Sound := by
      intro other hother type htype hne
      obtain ⟨hvalid, htypes⟩ := hcall other hother
      exact (hkeeps other hvalid).sound (htypes type htype ▸ hne)
    rcases call_effect hkey (fun other hother => (hcall other hother).1) hone hsound with
      hsame | ⟨hmem, heffect⟩
    · exact hsame ▸ hkeeps key hkey
    · exact effect_keepsTo (hcall key hmem).2 (hkeeps key hkey) heffect
  · cases call with
    | zremRangeByScore own min max =>
      obtain ⟨hown, htypes⟩ := hcall own List.mem_cons_self
      by_cases hsame : key = own
      · subst hsame
        exact fun hne => absurd (htypes _ rfl) hne
      · obtain ⟨hhead, hrecords⟩ := zrem_shrinks env hown hkey hsame
        exact KeepsTo.shrink (hkeeps key hkey) hhead hrecords
    | _ => exact absurd trivial hone

def RocksDbEngine.KeepsTo (engine : RocksDbEngine) (uses : LaserKey → ValueType) : Prop :=
  ∀ key : LaserKey, key.Valid → (slot engine.db.store key).KeepsTo (uses key)

theorem keepsTo_of_empty (hempty : engine.db.store = empty) : engine.KeepsTo uses := by
  intro key _
  rw [hempty, slot_empty]
  exact Slot.keepsTo_absent _

theorem exec_keepsTo (env : Env) (hcall : call.Follows uses) (hkeeps : engine.KeepsTo uses) :
    (call.exec env engine).2.KeepsTo uses := by
  intro key hkey
  rw [exec_engine]
  exact step_keepsTo env hcall hkeeps hkey

variable {inputs : List (Env × Call)}

theorem after_keepsTo (hkeeps : engine.KeepsTo uses)
    (hinputs : ∀ input ∈ inputs, input.2.Follows uses) : (engine.after inputs).KeepsTo uses := by
  induction inputs generalizing engine with
  | nil => exact hkeeps
  | cons input rest ih =>
    exact ih (exec_keepsTo input.1 (hinputs input List.mem_cons_self) hkeeps)
      fun other hother => hinputs other (List.mem_cons_of_mem _ hother)

/-- The calls of a run without their parts on `key`. -/
def inputsWithout (key : LaserKey) (inputs : List (Env × Call)) : List (Env × Call) :=
  inputs.filterMap fun input => (input.2.without key).map fun call => (input.1, call)

theorem exec_without (env : Env) (hkey : key.Valid) (hcall : call.Follows uses)
    (hone : call.OneSided) (hkeeps : engine.KeepsTo uses)
    (hwithout : Without key engine.db.store store) :
    ∃ store', (engine.withStore store).after (inputsWithout key [(env, call)]) =
        (call.exec env engine).2.withStore store' ∧
      Without key (call.exec env engine).2.db.store store' := by
  have hbatch := batch_without env hkey hcall hone hkeeps hwithout
  have happlied := hwithout.apply_filter (call.batch env engine)
  rw [← hbatch] at happlied
  refine ⟨_, ?_, by rw [exec_engine]; exact happlied⟩
  rw [exec_engine, inputsWithout]
  cases hkept : call.without key with
  | none => simp [hkept, RocksDbEngine.after, Simulation.finalState, RocksDbBatch.apply, withStore]
  | some kept =>
    simp [hkept, RocksDbEngine.after, Simulation.finalState, exec_engine, withStore]

theorem after_without (hkey : key.Valid) (hinputs : ∀ input ∈ inputs, input.2.Follows uses)
    (hone : ∀ input ∈ inputs, input.2.OneSided) (hkeeps : engine.KeepsTo uses)
    (hwithout : Without key engine.db.store store) :
    ∃ store', (engine.withStore store).after (inputsWithout key inputs) =
        (engine.after inputs).withStore store' ∧
      Without key (engine.after inputs).db.store store' := by
  induction inputs generalizing engine store with
  | nil => exact ⟨store, rfl, hwithout⟩
  | cons input rest ih =>
    have hcall := hinputs input List.mem_cons_self
    obtain ⟨store', hafter, hwithout'⟩ :=
      exec_without input.1 hkey hcall (hone input List.mem_cons_self) hkeeps hwithout
    obtain ⟨store'', hrest, hwithout''⟩ :=
      ih (fun other hother => hinputs other (List.mem_cons_of_mem _ hother))
        (fun other hother => hone other (List.mem_cons_of_mem _ hother))
        (exec_keepsTo input.1 hcall hkeeps) hwithout'
    refine ⟨store'', ?_, hwithout''⟩
    have hsplit : inputsWithout key (input :: rest) =
        inputsWithout key [input] ++ inputsWithout key rest :=
      List.filterMap_append (l := [input])
    rw [hsplit, RocksDbEngine.after, Simulation.finalState_append]
    exact (congrArg (RocksDbEngine.after · (inputsWithout key rest)) hafter).trans hrest

theorem without_empty (key : LaserKey) : Without key empty empty := by
  intro bytes
  rw [get_empty, ite_self]

theorem get_eq_none_of_absent (habsent : slot store key = .absent)
    (howns : key.Owns bytes) : store.get bytes = none := by
  rcases howns with rfl | ⟨suffix, rfl⟩
  · exact congrArg Slot.head habsent
  · rw [← get_under]
    exact congrArg (fun slot => slot.records.get suffix) habsent

theorem delkey_get_other (howns : ¬key.Owns bytes) :
    ((Call.delkey key).exec env engine).2.db.store.get bytes = engine.db.store.get bytes := by
  rw [exec_engine]
  refine get_apply_kept fun write hwrite heq => howns ?_
  have hcall : (Call.delkey key).key = some key := rfl
  obtain ⟨writes, hbatch, -⟩ := batch_writes engine env hcall trivial nofun
  rw [hbatch] at hwrite
  obtain ⟨slotWrite, -, rfl⟩ := List.mem_map.mp hwrite
  exact heq ▸ owns_target_ofKey key slotWrite

theorem delkey_eq_without
    (habsent : slot ((Call.delkey key).exec env engine).2.db.store key = .absent)
    (hwithout : Without key engine.db.store store) :
    ((Call.delkey key).exec env engine).2 = engine.withStore store := by
  have hstore : ((Call.delkey key).exec env engine).2.db.store = store := by
    apply ext_get
    intro bytes
    rw [hwithout]
    by_cases howns : key.Owns bytes
    · rw [if_pos howns]
      exact get_eq_none_of_absent habsent howns
    · rw [if_neg howns]
      exact delkey_get_other howns
  rw [exec_engine] at hstore ⊢
  exact congrArg engine.withStore hstore

/-- After any run in which each key has one type, a `delkey` that succeeds leaves
no record of a key without score records and touches no other key; where no range
of scores reached into another key, the run could as well have left the key out. -/
theorem delkey_erases (uses : LaserKey → ValueType) (engine : RocksDbEngine)
    (hempty : engine.db.store = empty) (history : List (Env × Call))
    (hhistory : ∀ input ∈ history, input.2.Follows uses) (env : Env) (key : LaserKey)
    (hvalid : key.Valid)
    (hscores : uses key = .ZSET → (slot (engine.after history).db.store key).records = empty)
    (hok : ((Call.delkey key).exec env (engine.after history)).1.1 = .OK) :
    let before := engine.after history
    let after := ((Call.delkey key).exec env before).2
    slot after.db.store key = .absent ∧
      (∀ bytes, ¬key.Owns bytes → after.db.store.get bytes = before.db.store.get bytes) ∧
      ((∀ input ∈ history, input.2.OneSided) →
        after = engine.after (inputsWithout key history)) := by
  intro before after
  have hkeeps := after_keepsTo (keepsTo_of_empty hempty) hhistory
  have hslot : (slot before.db.store key).records = empty ∨
      ∃ type, (slot before.db.store key).Has type ∧ type.erasedByDelkey := by
    by_cases hzset : uses key = .ZSET
    · exact .inl (hscores hzset)
    · obtain ⟨hof, hplain⟩ := hkeeps key hvalid hzset
      by_cases herased : (uses key).erasedByDelkey
      · refine hof.imp (fun habsent => ?_) fun hhas => ⟨uses key, hhas, herased⟩
        rw [habsent]
        rfl
      · exact .inl (hplain herased)
  have habsent : slot after.db.store key = .absent := delkey_ok_absent hok hslot
  refine ⟨habsent, fun bytes => delkey_get_other, fun hone => ?_⟩
  have hstart : Without key engine.db.store engine.db.store := hempty ▸ without_empty key
  obtain ⟨store, hafter, hwithout⟩ :=
    after_without hvalid hhistory hone (keepsTo_of_empty hempty) hstart
  exact (delkey_eq_without habsent hwithout).trans hafter.symm

theorem delkey_erases_hash :
    let key : LaserKey := ⟨[[97]], []⟩
    let other : LaserKey := ⟨[[98]], []⟩
    let history : List (Env × Call) := [(Env.at 1, .hset key [102] [1]), (Env.at 1, .hset other [103] [2])]
    let before := RocksDbEngine.fresh.after history
    let after := ((Call.delkey key).exec (Env.at 2) before).2
    slot after.db.store key = .absent ∧
      (∀ bytes, ¬key.Owns bytes → after.db.store.get bytes = before.db.store.get bytes) ∧
      ((∀ input ∈ history, input.2.OneSided) →
        after = RocksDbEngine.fresh.after (inputsWithout key history)) := by
  intro key other history
  have hhistory : ∀ input ∈ history, input.2.Follows fun _ => .MAP := by
    intro input hinput own hown
    have hvalid : ∀ input ∈ history, ∀ own ∈ input.2.keys, own.Valid := by decide
    have htype : ∀ input ∈ history, input.2.valueType = some .MAP := by decide
    refine ⟨hvalid input hinput own hown, fun type hfound => ?_⟩
    rw [htype input hinput] at hfound
    exact some.inj hfound
  exact delkey_erases (fun _ => .MAP) RocksDbEngine.fresh rfl history hhistory (Env.at 2) key
    (by decide) nofun (by decide)

/-- The score records of a deleted zset stay, and show up in the next zset of the
key. -/
theorem delkey_leaves_scores :
    let key : LaserKey := ⟨[[97]], []⟩
    let first := (Env.at 1, Call.zadd key (ofPairs [([99], 1)]))
    let second := (Env.at 3, Call.zadd key (ofPairs [([100], 2)]))
    let before := RocksDbEngine.fresh.after [first]
    let after := ((Call.delkey key).exec (Env.at 2) before).2
    let range := Call.zrangeByScore key 0 5
    ((Call.delkey key).exec (Env.at 2) before).1.1 = .OK ∧ slot after.db.store key ≠ .absent ∧
      (range.exec (Env.at 4) (after.after [second])).1 = (.OK, .scored [(1, [99]), (2, [100])]) ∧
      (range.exec (Env.at 4) (RocksDbEngine.fresh.after [second])).1 =
        (.OK, .scored [(2, [100])]) := by
  intro key first second before after range
  refine ⟨by decide, fun habsent => ?_, by decide, by decide⟩
  have hrecord : after.db.store.get (key.stem ++ intBytes .big (1 : Int64)) = none :=
    get_eq_none_of_absent habsent (.inr (List.prefix_append _ _))
  exact absurd hrecord (by decide)

/-- A call never learns of the calls on another key. -/
theorem reply_without (uses : LaserKey → ValueType) (engine : RocksDbEngine)
    (hempty : engine.db.store = empty) {history : List (Env × Call)}
    (hhistory : ∀ input ∈ history, input.2.Follows uses ∧ input.2.OneSided) {key : LaserKey}
    (hkey : key.Valid) (env : Env) {call : Call} (hnarrow : call.Narrow)
    (hother : ∀ own ∈ call.keys, own.Valid ∧ own ≠ key) :
    (call.exec env (engine.after history)).1 =
      (call.exec env (engine.after (inputsWithout key history))).1 := by
  obtain ⟨hfollows, hone⟩ := forall₂_and.mp hhistory
  obtain ⟨store, hafter, hwithout⟩ := after_without hkey hfollows hone (keepsTo_of_empty hempty)
    (hempty ▸ without_empty key)
  have hrest : engine.after (inputsWithout key history) = _ := hafter
  rw [hrest]
  refine (reply_local hnarrow fun own hown => ?_).symm
  exact hwithout.slot_eq (hother own hown).1 hkey (hother own hown).2

theorem reply_without_hset :
    let key : LaserKey := ⟨[[97]], []⟩
    let other : LaserKey := ⟨[[98]], []⟩
    let history := [(Env.at 1, Call.hset key [102] [118]), (Env.at 1, .hset other [102] [119])]
    let call := Call.hget other [102]
    (call.exec (Env.at 2) (fresh.after history)).1 =
      (call.exec (Env.at 2) (fresh.after (inputsWithout key history))).1 := by
  intro key other history call
  refine reply_without (fun _ => .MAP) fresh rfl ?_ (by decide) _ trivial (by decide)
  unfold Call.Follows
  decide

end LaserDB
