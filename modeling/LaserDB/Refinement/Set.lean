import LaserDB.Refinement.Plans

/-!
# Sets are finite sets

A set is stored as a meta record that counts the members and one record with
an empty value for each member.
-/

namespace LaserDB

open ByteCodec RocksDbEngine Function Option List SizeMeta

inductive SetOp where
  | sadd (member : Bytes)
  | sdel (member : Bytes)
  | hasMember (member : Bytes)
  | getSet
  | members
  | delkey

abbrev SetModel := Option (Finset Bytes)

/-- Membership as the content of a record: present, without a value. -/
def memberMark (members : Finset Bytes) (member : Bytes) : Option Unit :=
  if member ∈ members then some () else none

variable {members : Finset Bytes} {member : Bytes}

theorem memberMark_eq_some (mark : Unit) :
    memberMark members member = some mark ↔ member ∈ members := by
  unfold memberMark
  split <;> simp_all

theorem memberMark_eq_none : memberMark members member = none ↔ member ∉ members := by
  unfold memberMark
  split <;> simp_all

theorem memberMark_congr {left right : Finset Bytes} (hiff : member ∈ left ↔ member ∈ right) :
    memberMark left member = memberMark right member := by
  unfold memberMark
  split <;> simp_all

namespace SetModel

def content (model : SetModel) : Finset Bytes := model.getD ∅

def status : SetModel → Status
  | none => .RS_NOT_FOUND
  | some _ => .OK

def memberStatus (model : SetModel) (member : Bytes) : Status :=
  match memberMark model.content member with
  | some _ => .OK
  | none => .RS_NOT_FOUND

def Lists : SetModel → Reply → Prop
  | none, reply => reply = (.RS_NOT_FOUND, .nothing)
  | some members, reply => ∃ listed, reply = (.OK, .texts listed) ∧ listed.Nodup ∧
      ∀ member, member ∈ listed ↔ member ∈ members

end SetModel

namespace SetOp

def call (key : LaserKey) : SetOp → Call
  | .sadd member => .sadd key member
  | .sdel member => .sdel key member
  | .hasMember member => .hasMember key member
  | .getSet => .getSet key
  | .members => .members key
  | .delkey => .delkey key

def next (op : SetOp) (model : SetModel) : SetModel :=
  match op with
  | .sadd member => some (insert member model.content)
  | .sdel member => model.map (Finset.erase · member)
  | .delkey => none
  | .hasMember _ | .getSet | .members => model

def allows (op : SetOp) (model : SetModel) (reply : Reply) : Prop :=
  match op with
  | .sadd _ | .delkey => reply = (.OK, .nothing)
  | .sdel member | .hasMember member => reply = (model.memberStatus member, .nothing)
  | .getSet => ∃ size : UInt32, reply = (model.status, .length size) ∧
      size.toNat = model.content.card
  | .members => model.Lists reply

/-- A member that is added has a record key that RocksDB takes; the size counts
up to 32 bits. -/
def guard (key : LaserKey) (op : SetOp) (model : SetModel) : Prop :=
  match op with
  | .sadd member => Storable (key.dataKey (.member member))
  | .getSet => model.content.card < 2 ^ 32
  | _ => True

end SetOp

def setMeta (size : Nat) : Bytes := sizeMetaBytes .SET 0 (UInt32.ofNat size)

structure SetHolds (key : LaserKey) (slot : Slot) (model : SetModel) : Prop where
  head : slot.head = model.map fun members => setMeta members.card
  records : slot.records.Encodes packedString
    fun member => (memberMark model.content member).map fun _ => []
  storable : ∀ member ∈ model.content, Storable (key.dataKey (.member member))

variable {key : LaserKey} {model : SetModel}

section
variable {slot : Slot}

theorem setHolds_absent (key : LaserKey) : SetHolds key .absent none where
  head := rfl
  records := OrderedMap.Encodes.empty
  storable := by simp [SetModel.content]

theorem SetHolds.get_record (hholds : SetHolds key slot model) (member : Bytes) :
    slot.records.get (packedString member) = (memberMark model.content member).map fun _ => [] :=
  hholds.records.get_place member

def putMember (members : Finset Bytes) (member : Bytes) : List SlotWrite :=
  match memberMark members member with
  | some _ => []
  | none => [.putHead (setMeta (members.card + 1)), .put (packedString member) []]

def dropMember (members : Finset Bytes) (member : Bytes) : List SlotWrite :=
  match memberMark members member with
  | some _ => [.putHead (setMeta (members.card - 1)), .drop (packedString member)]
  | none => []

theorem SetHolds.putMember (hholds : SetHolds key slot model)
    (hstorable : Storable (key.dataKey (.member member))) :
    SetHolds key (slot.applyAll (putMember model.content member))
      (some (insert member model.content)) := by
  unfold LaserDB.putMember
  cases hmark : memberMark model.content member with
  | some mark =>
    rw [memberMark_eq_some mark] at hmark
    rw [Finset.insert_eq_self.mpr hmark]
    cases model with
    | none => simp [SetModel.content] at hmark
    | some members => exact hholds
  | none =>
    rw [memberMark_eq_none] at hmark
    refine ⟨?_, ?_, ?_⟩
    · change some (setMeta (model.content.card + 1)) = _
      rw [map_some, Finset.card_insert_of_notMem hmark]
    · refine (hholds.records.put packedString_injective member []).congr ?_
      funext probe
      by_cases hprobe : probe = member
      · simp [hprobe, memberMark, SetModel.content]
      · rw [update_of_ne hprobe, memberMark_congr]
        simp [SetModel.content, hprobe]
    · intro probe hprobe
      rcases Finset.mem_insert.mp hprobe with rfl | hprobe
      · exact hstorable
      · exact hholds.storable probe hprobe

theorem SetHolds.dropMember (hholds : SetHolds key slot (some members)) (member : Bytes) :
    SetHolds key (slot.applyAll (dropMember members member)) (some (members.erase member)) := by
  unfold LaserDB.dropMember
  cases hmark : memberMark members member with
  | some mark =>
    rw [memberMark_eq_some mark] at hmark
    refine ⟨?_, ?_, ?_⟩
    · change some (setMeta (members.card - 1)) = _
      rw [map_some, Finset.card_erase_of_mem hmark]
    · refine (hholds.records.erase packedString_injective member).congr ?_
      funext probe
      by_cases hprobe : probe = member
      · simp [hprobe, memberMark, SetModel.content]
      · rw [update_of_ne hprobe, memberMark_congr]
        simp [SetModel.content, hprobe]
    · intro probe hprobe
      exact hholds.storable probe (Finset.mem_of_mem_erase hprobe)
  | none =>
    rw [Finset.erase_eq_of_notMem (memberMark_eq_none.mp hmark)]
    exact hholds

theorem SetHolds.eq_absent (hholds : SetHolds key slot none) : slot = .absent :=
  Slot.eq_absent hholds.head (OrderedMap.Encodes.eq_empty hholds.records)

end

section
variable {engine : RocksDbEngine} {env : Env} (henv : env.Healthy) (hplain : engine.Plain)
  (hholds : SetHolds key (slot engine.db.store key) model)
include henv hholds

theorem saddPlan_eq (httl : engine.ttl = 0) (member : Bytes) :
    engine.saddPlan env (getFormatKey key) member =
      .ok ((), batchOf key (putMember model.content member)) := by
  have hrecord := hholds.get_record member
  rw [plan_sadd _ henv, stamp_of_noTtl _ _ httl]
  cases model with
  | none =>
    have hfound : (slot engine.db.store key).Finds (new : LaserValueSetMeta) none := hholds.head
    rw [Slot.plan_of_finds hfound]
    rfl
  | some members =>
    obtain ⟨buffer, hfound⟩ := finds_sizeMeta hholds.head
    rw [Slot.plan_of_finds hfound]
    simp only [SetModel.content, getD_some] at hrecord ⊢
    cases hmark : memberMark members member <;> simp [saddWrites, hrecord, hmark, putMember, setMeta]

theorem sdelPlan_eq (member : Bytes) :
    engine.sdelPlan env (getFormatKey key) member =
      match memberMark model.content member with
      | some _ => .ok ((), batchOf key (dropMember model.content member))
      | none => .error .RS_NOT_FOUND := by
  have hhead := hholds.head
  have hrecord := hholds.get_record member
  cases model with
  | none =>
    rw [map_none] at hhead
    simp only [sdelPlan, readFound_head henv, hhead, foundOr, error_bind]
    rfl
  | some members =>
    obtain ⟨buffer, hdecode⟩ :=
      decodeOr_sizeMeta .RS_INVALID_ARGUMENT .SET 0 (UInt32.ofNat members.card)
    rw [map_some, setMeta] at hhead
    simp only [SetModel.content, getD_some] at hrecord ⊢
    simp only [sdelPlan, readFound_head henv, hhead, foundOr, ok_bind, hrecord,
      readFound_record henv _ _ _ (setData_rawData key member), dropMember]
    cases hmark : memberMark members member with
    | some mark =>
      have hpositive : 1 ≤ members.card :=
        Finset.card_pos.mpr ⟨member, (memberMark_eq_some mark).mp hmark⟩
      simp only [map_some, ok_bind, hdecode, pure_eq_ok]
      rw [nil_eq_batchOf key, iput_head, idelete_record _ (setData_rawData key member)]
      simp [decrSize, setMeta, UInt32.ofNat_sub hpositive]
    | none => rfl

theorem hasMember_exec (member : Bytes) :
    (Call.hasMember key member).exec env engine =
      ((model.memberStatus member, .nothing), engine) := by
  have hhead := hholds.head
  have hrecord := hholds.get_record member
  cases model with
  | none =>
    rw [map_none] at hhead
    simp only [Call.exec, hasMember, readLive_absent henv _ hhead]
    rfl
  | some members =>
    obtain ⟨_, hlive⟩ := readLive_sizeMeta henv hholds.head
    simp only [Call.exec, hasMember, hlive, hrecord,
      read_record henv _ _ _ (setData_rawData key member), SetModel.memberStatus]
    cases memberMark (SetModel.content (some members)) member <;> rfl

theorem getSet_exec :
    (Call.getSet key).exec env engine =
      ((model.status, .length (UInt32.ofNat model.content.card)), engine) := by
  have hhead := hholds.head
  cases model with
  | none =>
    have hfresh : LaserValue.getTimestamp (new : LaserValueSetMeta) = 0 := rfl
    simp only [Call.exec, getSet, getValue_absent henv hhead hfresh]
    rfl
  | some members =>
    obtain ⟨_, hvalue⟩ := getValue_sizeMeta henv hholds.head
    simp only [Call.exec, getSet, hvalue]
    rfl

omit henv in
theorem set_iterate :
    ∃ listed : List Bytes,
      engine.db.iterate (LaserKeyFormatSetData.ofKey (getFormatKey key) []).toLaserSerializer =
        listed.map (fun member => (key.stem ++ packedString member, [])) ∧
      listed.Nodup ∧ ∀ member, member ∈ listed ↔ member ∈ model.content := by
  obtain ⟨pairs, hentries, hnodup, hmem⟩ := hholds.records.exists_pairs packedString_injective
  refine ⟨pairs.map Prod.fst, ?_, hnodup, ?_⟩
  · rw [iterate_eq engine.db (setTarget_rawData key), hentries, List.map_map, List.map_map]
    rfl
  · intro member
    rw [List.mem_map, ← memberMark_eq_some (), ← hmem]
    constructor
    · rintro ⟨pair, hpair, rfl⟩
      exact hpair
    · intro hpair
      exact ⟨_, hpair, rfl⟩

omit henv hholds in
theorem membersLoop_eq (hkey : key.NoEmptyPart) {listed : List Bytes}
    (hlisted : ∀ member ∈ listed, Storable (key.dataKey (.member member))) :
    ((listed.map fun member => (key.stem ++ packedString member, [])).filterMap
      membersEntry).map LaserKeyFormatSetData.getData = listed := by
  induction listed with
  | nil => rfl
  | cons member rest ih =>
    have hfit := hlisted member (by simp)
    rw [LaserKey.dataKey_eq] at hfit
    obtain ⟨buffer, hdecode⟩ := stringKey_decode hkey hfit
    have hentry : membersEntry (key.stem ++ packedString member, []) =
        some ⟨⟨buffer, key.primaryKeys, key.columns, .COMPOSITE⟩, member⟩ := by
      simp only [membersEntry, hdecode]
    rw [map_cons, filterMap_cons_some hentry, map_cons,
      ih fun other hother => hlisted other (by simp [hother])]
    rfl

theorem members_exec (hkey : key.Valid) :
    ∃ reply, (Call.members key).exec env engine = (reply, engine) ∧ model.Lists reply := by
  have hhead := hholds.head
  cases model with
  | none =>
    refine ⟨(.RS_NOT_FOUND, .nothing), ?_, rfl⟩
    simp only [Call.exec, members, readLive_absent henv _ hhead, error_bind, replyOf]
  | some held =>
    obtain ⟨listed, hiterate, hnodup, hmem⟩ := set_iterate hholds
    obtain ⟨_, hlive⟩ := readLive_sizeMeta henv hholds.head
    have hloop := membersLoop_eq hkey.1
      fun member hlisted => hholds.storable member ((hmem member).mp hlisted)
    refine ⟨(.OK, .texts listed), ?_, listed, rfl, hnodup, hmem⟩
    simp only [Call.exec, members, hlive, ok_bind, hiterate, pure_eq_ok, replyOf, hloop]

include hplain

theorem sdel_exec (member : Bytes) :
    (Call.sdel key member).exec env engine =
      ((model.memberStatus member, .nothing), engine.withStore
        ((batchOf key (dropMember model.content member)).apply engine.db.store)) := by
  simp only [Call.exec, sdel, sdelPlan_eq henv hholds, SetModel.memberStatus, dropMember]
  cases memberMark model.content member with
  | some mark => simp only [commit_ok henv hplain.leader, answer]
  | none => rfl

theorem set_step (hkey : key.Valid) {op : SetOp} (hguard : op.guard key model) :
    ∃ reply writes, (op.call key).exec env engine =
        (reply, engine.withStore ((batchOf key writes).apply engine.db.store)) ∧
      op.allows model reply ∧
      SetHolds key ((slot engine.db.store key).applyAll writes) (op.next model) := by
  cases op with
  | sadd member =>
    exact ⟨_, _, answer_commit henv hplain.leader (saddPlan_eq henv hholds hplain.noTtl member), rfl,
      hholds.putMember hguard⟩
  | sdel member =>
    refine ⟨_, _, sdel_exec henv hplain hholds member, rfl, ?_⟩
    cases model with
    | none => exact hholds
    | some held => exact hholds.dropMember member
  | hasMember member =>
    exact ⟨_, [], hasMember_exec henv hholds member, rfl, hholds⟩
  | getSet =>
    exact ⟨_, [], getSet_exec henv hholds, ⟨_, rfl, UInt32.toNat_ofNat_of_lt' hguard⟩, hholds⟩
  | members =>
    obtain ⟨reply, hexec, hlists⟩ := members_exec henv hholds hkey
    exact ⟨reply, [], hexec, hlists, hholds⟩
  | delkey =>
    obtain ⟨writes, hexec, hclear⟩ := delkey_clears henv hplain.leader (by decide)
      (fun _ => ⟨0, _, rfl⟩) hholds.head fun hnone => SetHolds.eq_absent (hnone ▸ hholds)
    exact ⟨_, writes, hexec, rfl, hclear ▸ setHolds_absent key⟩

end

def setKind : Kind SetOp SetModel where
  call := SetOp.call
  next := SetOp.next
  allows := SetOp.allows
  guard := fun key op model => op.guard key model
  holds := SetHolds
  step := fun henv hplain hkey hholds hguard => set_step henv hplain hholds hkey hguard

/-- In every run of calls on the keys in `keys`, used only as sets, each call
answers as the finite set of its key says. -/
theorem set_refines_finset (keys : LaserKey → Prop) (engine : RocksDbEngine) (hplain : engine.Plain)
    (hfresh : ∀ key, keys key → key.Valid → slot engine.db.store key = .absent)
    (inputs : List (Kind.Input SetOp))
    (hguarded : Simulation.Guarded setKind.nextAll (setKind.guardAll keys) inputs
      fun _ => none) :
    Simulation.Conforms setKind.exec setKind.nextAll setKind.allowsAll inputs engine
      fun _ => none := by
  refine (setKind.simulates keys).conforms ⟨hplain, ?_⟩ hguarded
  intro key hkeys hvalid
  rw [hfresh key hkeys hvalid]
  exact setHolds_absent key

/-- The empty member is added twice, counted once and removed. -/
theorem set_refines_finset_example :
    let key : LaserKey := ⟨[[97]], []⟩
    let env := Env.at 1
    Simulation.Conforms setKind.exec setKind.nextAll setKind.allowsAll
      [(env, key, .sadd []), (env, key, .sadd []), (env, key, .getSet), (env, key, .members),
        (env, key, .sdel []), (env, key, .hasMember [])]
      RocksDbEngine.fresh fun _ => none := by
  intro key env
  refine set_refines_finset (fun _ => True) RocksDbEngine.fresh RocksDbEngine.fresh_plain
    (fun key _ _ => slot_empty key) _ ⟨?_, ?_, ?_, ?_, ?_, ?_, trivial⟩
  all_goals refine ⟨Env.at_healthy 1, trivial, by decide, ?_⟩
  · change Storable _
    decide
  · change Storable _
    decide
  · change (_ : Nat) < _
    decide
  all_goals trivial

/-- A member of the key `["", "a"]` is one of the key `["a", ""]`. -/
theorem set_empty_string_shared :
    ¬Simulation.Conforms setKind.exec setKind.nextAll setKind.allowsAll
      [(Env.at 1, ⟨[[], [97]], []⟩, .sadd [109]), (Env.at 1, ⟨[[97], []], []⟩, .hasMember [109])]
      RocksDbEngine.fresh fun _ => none := by
  rintro ⟨-, hreply, -⟩
  change (_ : Reply) = _ at hreply
  exact absurd hreply (by decide)

end LaserDB
