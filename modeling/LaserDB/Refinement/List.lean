import LaserDB.Library.Deque
import LaserDB.Refinement.Plans

/-!
# Lists are double-ended queues

A list is stored as a meta record with its two ends and one record for each element, named by its
position.
-/

namespace LaserDB

open ByteCodec RocksDbEngine Function Option List Deque Nat

inductive ListOp where
  | pushFront (value : Bytes)
  | pushBack (value : Bytes)
  | popFront
  | popBack
  | lindex (index : Int64)
  | llen
  | getList
  | delkey

abbrev QueueModel := Option (List Bytes)

namespace QueueModel

def elements (queue : QueueModel) : List Bytes := queue.getD []

def status : QueueModel → Status
  | none => .RS_NOT_FOUND
  | some _ => .OK

def popped (queue : QueueModel) (value : Option Bytes) : Reply :=
  match queue, value with
  | none, _ => (.RS_NOT_FOUND, .text [])
  | some _, none => (.RS_EMPTY, .text [])
  | some _, some value => (.OK, .text value)

end QueueModel

namespace ListOp

def call (key : LaserKey) : ListOp → Call
  | .pushFront value => .pushFront key value
  | .pushBack value => .pushBack key value
  | .popFront => .popFront key
  | .popBack => .popBack key
  | .lindex index => .lindex key index
  | .llen => .llen key
  | .getList => .getList key
  | .delkey => .delkey key

def nextQueue (op : ListOp) (queue : QueueModel) : QueueModel :=
  match op with
  | .pushFront value => some (value :: queue.elements)
  | .pushBack value => some (queue.elements ++ [value])
  | .popFront => queue.map tail
  | .popBack => queue.map dropLast
  | .delkey => none
  | .lindex _ | .llen | .getList => queue

def allowsQueue (op : ListOp) (queue : QueueModel) (reply : Reply) : Prop :=
  match op with
  | .pushFront _ | .pushBack _ | .delkey => reply = (.OK, .nothing)
  | .popFront => reply = queue.popped queue.elements.head?
  | .popBack => reply = queue.popped queue.elements.getLast?
  | .lindex index =>
    reply = match element queue.elements index.toInt with
      | none => (.RS_NOT_FOUND, .nothing)
      | some value => (.OK, .text value)
  | .llen => ∃ size : Int64, reply = (queue.status, .number size) ∧
      size.toInt = queue.elements.length
  | .getList => ∃ size : Int64, reply = (.OK, .number size) ∧ size.toInt = queue.elements.length

end ListOp

abbrev ListModel := Option (Deque Bytes)

namespace ListModel

def queue (model : ListModel) : QueueModel := model.map elements

def get (model : ListModel) (index : Int64) : Option Bytes := model.bind (Deque.get · index)

/-- The first element of a new list lies on position 0, from whichever end it comes. -/
def push (model : ListModel) (isLeft : Bool) (value : Bytes) : Deque Bytes :=
  match model with
  | none => ⟨-1, [value]⟩
  | some deque => if isLeft then deque.pushFront value else deque.pushBack value

def pushIndex (model : ListModel) (isLeft : Bool) : Int64 :=
  match model with
  | none => 0
  | some deque => if isLeft then deque.start else deque.endIndex

end ListModel

def popDeque (deque : Deque Bytes) (isLeft : Bool) : Deque Bytes :=
  if deque.elements = [] then deque
  else if isLeft then deque.popFront else deque.popBack

def popIndex (deque : Deque Bytes) (isLeft : Bool) : Int64 :=
  if isLeft then deque.start + 1 else deque.endIndex - 1

def popValue (elements : List Bytes) (isLeft : Bool) : Option Bytes :=
  if isLeft then elements.head? else elements.getLast?

namespace ListOp

def next (op : ListOp) (model : ListModel) : ListModel :=
  match op with
  | .pushFront value => some (model.push true value)
  | .pushBack value => some (model.push false value)
  | .popFront => model.map (popDeque · true)
  | .popBack => model.map (popDeque · false)
  | .delkey => none
  | .lindex _ | .llen | .getList => model

/-- A pushed value is one that the string codec gives back, its record key is one
that RocksDB takes, and there is a position left for it; the length is an `int64_t`. -/
def guard (key : LaserKey) (op : ListOp) (model : ListModel) : Prop :=
  match op with
  | .pushFront value | .pushBack value =>
    RoundTrips value ∧ Storable (key.dataKey (.index 0)) ∧ model.queue.elements.length + 2 < 2 ^ 64
  | .llen | .getList => model.queue.elements.length < 2 ^ 63
  | _ => True

end ListOp

def listMeta (deque : Deque Bytes) : Bytes := listMetaBytes 0 deque.start deque.endIndex

structure ListHolds (key : LaserKey) (slot : Slot) (model : ListModel) : Prop where
  head : slot.head = model.map listMeta
  records : slot.records.Encodes (intBytes .big)
    fun index => (model.get index).map (rawStringBytes 0)
  fits : ∀ deque ∈ model, deque.Fits
  storable : ∀ deque ∈ model, Storable (key.dataKey (.index 0))
  readable : ∀ value ∈ model.queue.elements, RoundTrips value

variable {deque : Deque Bytes}

section
variable {key : LaserKey} {slot : Slot} {model : ListModel}

theorem listHolds_absent (key : LaserKey) : ListHolds key .absent none where
  head := rfl
  records := OrderedMap.Encodes.empty
  fits := by simp
  storable := by simp
  readable := by simp [ListModel.queue, QueueModel.elements]

theorem ListHolds.get_record (hholds : ListHolds key slot model) (index : Int64) :
    slot.records.get (intBytes .big index) = (model.get index).map (rawStringBytes 0) :=
  hholds.records.get_place index

def pushWrites (model : ListModel) (isLeft : Bool) (value : Bytes) : List SlotWrite :=
  [.putHead (listMeta (model.push isLeft value)),
    .put (intBytes .big (model.pushIndex isLeft)) (rawStringBytes 0 value)]

theorem get_push (hfits : ∀ deque ∈ model, deque.Fits) (isLeft : Bool) (value : Bytes) :
    (model.push isLeft value).get = update model.get (model.pushIndex isLeft) (some value) := by
  cases model with
  | none =>
    funext index
    have hshift := Deque.offset_pred 0 index
    rw [update_apply]
    change [value][Deque.offset (0 - 1) index]? = if index = 0 then _ else _
    rw [hshift]
    split <;> rfl
  | some deque =>
    cases isLeft with
    | true => exact Deque.get_pushFront deque value
    | false => exact Deque.get_pushBack (hfits deque rfl) value

theorem push_elements (isLeft : Bool) (value : Bytes) :
    (model.push isLeft value).elements =
      if isLeft then value :: model.queue.elements else model.queue.elements ++ [value] := by
  cases model <;> cases isLeft <;> rfl

theorem ListHolds.push (hholds : ListHolds key slot model) (isLeft : Bool) {value : Bytes}
    (hvalue : RoundTrips value) (hstorable : Storable (key.dataKey (.index 0)))
    (hroom : model.queue.elements.length + 2 < 2 ^ 64) :
    ListHolds key (slot.applyAll (pushWrites model isLeft value))
      (some (model.push isLeft value)) where
  head := rfl
  records := by
    refine (hholds.records.put (intBytes_injective .big) _ _).congr ?_
    funext index
    simp only [ListModel.get, bind_some, get_push hholds.fits, update_apply]
    split <;> rfl
  fits := by
    intro deque hdeque
    cases hdeque
    rw [Deque.Fits, push_elements]
    split <;> simp <;> omega
  storable := fun _ _ => hstorable
  readable := by
    intro other hmem
    change other ∈ (model.push isLeft value).elements at hmem
    rw [push_elements] at hmem
    have hcases : other = value ∨ other ∈ model.queue.elements := by
      split at hmem
      · simpa using hmem
      · simpa [or_comm] using hmem
    rcases hcases with rfl | hold
    · exact hvalue
    · exact hholds.readable other hold

def popWrites (deque : Deque Bytes) (isLeft : Bool) : List SlotWrite :=
  if deque.elements = [] then []
  else [.putHead (listMeta (popDeque deque isLeft)), .drop (intBytes .big (popIndex deque isLeft))]

theorem get_popDeque (hfits : deque.Fits) (helements : deque.elements ≠ []) (isLeft : Bool) :
    (popDeque deque isLeft).get = update deque.get (popIndex deque isLeft) none := by
  rw [popDeque, if_neg helements]
  cases isLeft with
  | true => exact get_popFront hfits
  | false => exact get_popBack hfits helements

theorem popDeque_elements (deque : Deque Bytes) (isLeft : Bool) :
    (popDeque deque isLeft).elements =
      if isLeft then deque.elements.tail else deque.elements.dropLast := by
  rw [popDeque]
  split
  · rename_i hnil
    cases isLeft <;> simp [hnil]
  · cases isLeft <;> rfl

theorem popDeque_sublist (deque : Deque Bytes) (isLeft : Bool) :
    (popDeque deque isLeft).elements.Sublist deque.elements := by
  rw [popDeque_elements]
  split
  · exact tail_sublist _
  · exact dropLast_sublist _

theorem ListHolds.pop (hholds : ListHolds key slot (some deque)) (isLeft : Bool) :
    ListHolds key (slot.applyAll (popWrites deque isLeft)) (some (popDeque deque isLeft)) := by
  unfold popWrites
  split
  · rename_i hnil
    rw [popDeque, if_pos hnil]
    exact hholds
  · rename_i helements
    have hfits : deque.Fits := hholds.fits deque rfl
    have hsublist := popDeque_sublist deque isLeft
    refine ⟨rfl, ?_, ?_, fun _ _ => hholds.storable deque rfl, ?_⟩
    · refine (hholds.records.erase (intBytes_injective .big) _).congr ?_
      funext index
      simp only [ListModel.get, bind_some, get_popDeque hfits helements, update_apply]
      split <;> rfl
    · intro other hother
      cases hother
      exact (succ_le_succ hsublist.length_le).trans_lt hfits
    · intro value hmem
      exact hholds.readable value (hsublist.subset hmem)

theorem ListHolds.eq_absent (hholds : ListHolds key slot none) : slot = .absent :=
  Slot.eq_absent hholds.head (OrderedMap.Encodes.eq_empty hholds.records)

end

section
variable {engine : RocksDbEngine} {env : Env} {key : LaserKey} {model : ListModel}
  (henv : env.Healthy) (hplain : engine.Plain)
  (hholds : ListHolds key (slot engine.db.store key) model)

theorem listMeta_push (metaData : LaserValueListMeta) (hfits : ∀ deque ∈ model, deque.Fits)
    (hstart : metaData.start = (model.elim 0 start))
    (hend : metaData.endIndex = (model.elim 0 endIndex)) (isLeft : Bool) (value : Bytes) :
    (if isLeft then metaData.pushFront else metaData.pushBack) = (model.pushIndex isLeft,
        { metaData with
          start := (model.push isLeft value).start
          endIndex := (model.push isLeft value).endIndex }) := by
  cases model with
  | none =>
    cases isLeft <;>
      simp_all [LaserValueListMeta.pushFront, LaserValueListMeta.pushBack, ListModel.push,
        ListModel.pushIndex, endIndex]
  | some deque =>
    have hne := endIndex_ne_start (hfits deque rfl)
    simp only [elim_some] at hstart hend
    cases isLeft with
    | true =>
      simp only [LaserValueListMeta.pushFront, hstart, hend, if_neg hne.symm,
        ListModel.push, ListModel.pushIndex, ↓reduceIte, endIndex_pushFront]
      rfl
    | false =>
      simp only [LaserValueListMeta.pushBack, hstart, hend, if_neg hne.symm,
        ListModel.push, ListModel.pushIndex, Bool.false_eq_true, ↓reduceIte,
        endIndex_pushBack]
      rfl

include henv hholds

theorem list_readLive (hmodel : model = some deque) :
    ∃ buffer : LaserSerializer, engine.readLive env LaserValueListMeta.new (getFormatKey key) =
        .ok ⟨⟨buffer, .LIST, 0⟩, deque.start, deque.endIndex⟩ := by
  obtain ⟨buffer, hdecode⟩ := decodeOr_listMeta .RS_INVALID_ARGUMENT 0 deque.start deque.endIndex
  have hhead := hholds.head
  rw [hmodel] at hhead
  exact ⟨buffer, readLive_of_decode henv hhead hdecode rfl⟩

theorem listPushPlan_eq (httl : engine.ttl = 0) (value : Bytes) (isLeft : Bool) :
    engine.listPushPlan env (getFormatKey key) value isLeft =
      .ok ((), batchOf key (pushWrites model isLeft value)) := by
  rw [plan_push henv]
  cases model with
  | none =>
    have hfound : (slot engine.db.store key).Finds LaserValueListMeta.new none := hholds.head
    have hmeta := listMeta_push LaserValueListMeta.new hholds.fits rfl rfl isLeft value
    rw [Slot.plan_of_finds hfound]
    simp only [listPushWrites, getD_none, hmeta, stamp_of_noTtl _ _ httl]
    rfl
  | some deque =>
    obtain ⟨buffer, hdecode⟩ := decodeOr_listMeta .RS_INVALID_ARGUMENT 0 deque.start deque.endIndex
    have hfound : (slot engine.db.store key).Finds LaserValueListMeta.new
        (some ⟨⟨buffer, .LIST, 0⟩, deque.start, deque.endIndex⟩) :=
      ⟨_, hholds.head, decodeOr_eq_ok.mp hdecode⟩
    have hmeta := listMeta_push ⟨⟨buffer, .LIST, 0⟩, deque.start, deque.endIndex⟩ hholds.fits
      rfl rfl isLeft value
    rw [Slot.plan_of_finds hfound]
    simp only [listPushWrites, getD_some, hmeta, stamp_of_noTtl _ _ httl]
    rfl

theorem readFound_element (index : Int64) :
    engine.db.readFound env LaserValueRawString.new
        (LaserKeyFormatListData.ofKey (getFormatKey key) (some index)).toLaserSerializer =
      foundOr LaserValueRawString.new ((model.get index).map (rawStringBytes 0)) := by
  rw [readFound_record henv _ _ _ (listData_rawData key index), hholds.get_record]

omit henv in
theorem decode_element {index : Int64} {value : Bytes} (hget : model.get index = some value) :
    ∃ found : LaserValueRawString, found.value = value ∧ decodeOr .RS_INVALID_ARGUMENT
        (LaserValue.setRawBuffer LaserValueRawString.new (rawStringBytes 0 value)) = .ok found := by
  have hmem : value ∈ model.queue.elements := by
    cases model with
    | none => cases hget
    | some deque => exact mem_of_getElem? hget
  obtain ⟨buffer, hdecode⟩ := decodeOr_rawString .RS_INVALID_ARGUMENT 0 (hholds.readable value hmem)
  exact ⟨_, rfl, hdecode⟩

theorem lindex_exec (index : Int64) :
    (Call.lindex key index).exec env engine = (match element model.queue.elements index.toInt with
        | none => (.RS_NOT_FOUND, .nothing)
        | some value => (.OK, .text value), engine) := by
  have hhead := hholds.head
  cases model with
  | none =>
    rw [map_none] at hhead
    simp only [Call.exec, lindex, readLive_absent henv _ hhead, error_bind, replyOf]
    have hnone : element (ListModel.queue none).elements index.toInt = none := by
      cases index.toInt <;> rfl
    rw [hnone]
  | some deque =>
    obtain ⟨buffer, hlive⟩ := list_readLive henv hholds rfl
    have hget : ListModel.get (some deque)
        (if index ≥ 0 then deque.start + index + 1 else deque.endIndex + index) =
        element deque.elements index.toInt := by
      split
      · rename_i hindex
        exact Deque.get_front hindex
      · rename_i hindex
        exact Deque.get_back (hholds.fits deque rfl) (Int64.not_le.mp hindex)
    simp only [Call.exec, lindex, hlive, ok_bind, readFound_element henv hholds, hget]
    change _ = (match Deque.element deque.elements index.toInt with
      | none => _
      | some value => _, engine)
    cases helement : element deque.elements index.toInt with
    | none => rfl
    | some value =>
      obtain ⟨found, hvalue, hdecode⟩ := decode_element hholds (hget.trans helement)
      simp only [map_some, foundOr, ok_bind, hdecode, replyOf, hvalue]

omit henv hholds in
theorem getSize_eq (hfits : deque.Fits) (head : LaserValueFormatBase) :
    LaserValueListMeta.getSize ⟨head, deque.start, deque.endIndex⟩ =
      Int64.ofNat deque.elements.length := by
  rw [LaserValueListMeta.getSize]
  simp only [if_neg (endIndex_ne_start hfits), endIndex_sub]

theorem list_getValue :
    ∃ found : LaserValueListMeta, engine.getValue env LaserValueListMeta.new (getFormatKey key) =
        (model.queue.status, found) ∧
      found.getSize = Int64.ofNat model.queue.elements.length := by
  have hhead := hholds.head
  cases model with
  | none => exact ⟨_, getValue_absent henv hhead rfl, rfl⟩
  | some deque =>
    obtain ⟨buffer, hdecode⟩ := decodeOr_listMeta .RS_INVALID_ARGUMENT 0 deque.start deque.endIndex
    exact ⟨_, getValue_of_decode henv hhead hdecode rfl, getSize_eq (hholds.fits deque rfl) _⟩

theorem llen_exec :
    (Call.llen key).exec env engine =
      ((model.queue.status, .number (Int64.ofNat model.queue.elements.length)), engine) := by
  obtain ⟨found, hvalue, hsize⟩ := list_getValue henv hholds
  simp only [Call.exec, llen, hvalue, hsize]

theorem getList_exec :
    (Call.getList key).exec env engine =
      ((.OK, .number (Int64.ofNat model.queue.elements.length)), engine) := by
  obtain ⟨found, hvalue, hsize⟩ := list_getValue henv hholds
  simp only [Call.exec, getList, hvalue]
  cases model <;> exact congrArg (fun size => ((Status.OK, Payload.number size), engine)) hsize

omit henv hholds in
theorem get_popIndex (hfits : deque.Fits) (isLeft : Bool) :
    deque.get (popIndex deque isLeft) = popValue deque.elements isLeft := by
  cases isLeft with
  | true =>
    have hfront : deque.get (deque.start + 0 + 1) = _ := get_front (by decide)
    rw [Int64.add_zero] at hfront
    exact hfront.trans head?_eq_getElem?.symm
  | false =>
    have hback : deque.get (deque.endIndex + -1) = _ := get_back hfits (by decide)
    rw [← Int64.sub_eq_add_neg] at hback
    change deque.get (deque.endIndex - 1) = deque.elements.getLast?
    rw [hback, ← head?_reverse, head?_eq_getElem?]
    rfl

omit henv hholds in
theorem listMeta_pop (helements : deque.elements ≠ []) (head : LaserValueFormatBase)
    (isLeft : Bool) :
    (if isLeft then LaserValueListMeta.popFront ⟨head, deque.start, deque.endIndex⟩
      else LaserValueListMeta.popBack ⟨head, deque.start, deque.endIndex⟩) =
      (popIndex deque isLeft,
        ⟨head, (popDeque deque isLeft).start, (popDeque deque isLeft).endIndex⟩) := by
  rw [popDeque, if_neg helements]
  cases isLeft with
  | true => simp only [↓reduceIte, endIndex_popFront helements]; rfl
  | false =>
    simp only [Bool.false_eq_true, ↓reduceIte, endIndex_popBack helements]
    rfl

theorem listPopPlan_eq (hmodel : model = some deque) (helements : deque.elements ≠ [])
    (isLeft : Bool) :
    ∃ found : LaserValueRawString, popValue deque.elements isLeft = some found.value ∧
      engine.listPopPlan env (getFormatKey key) isLeft =
        .ok (found, batchOf key (popWrites deque isLeft)) := by
  subst hmodel
  have hfits : deque.Fits := hholds.fits deque rfl
  obtain ⟨buffer, hlive⟩ := list_readLive henv hholds rfl
  obtain ⟨value, hpop⟩ : ∃ value, popValue deque.elements isLeft = some value := by
    cases isLeft with
    | true => exact ⟨_, head?_eq_some_head helements⟩
    | false => exact ⟨_, getLast?_eq_some_getLast helements⟩
  have hget := (get_popIndex hfits isLeft).trans hpop
  obtain ⟨found, hvalue, hdecode⟩ := decode_element hholds hget
  refine ⟨found, hvalue ▸ hpop, ?_⟩
  simp only [listPopPlan, hlive, ok_bind, getSize_eq hfits, Deque.ofNat_length_eq_zero hfits,
    helements, ↓reduceIte, listMeta_pop helements, readFound_element henv hholds, pure_eq_ok]
  change (foundOr _ ((deque.get (popIndex deque isLeft)).map _) >>= _) = _
  simp only [hget, map_some, foundOr, ok_bind, hdecode]
  rw [nil_eq_batchOf key, iput_head,
    idelete_record _ (listData_rawData key _), popWrites, if_neg helements]
  simp [listMeta, listMetaBytes]

include hplain

theorem listPop_answer (isLeft : Bool) :
    answer (fun value => .text value.value) (engine.listPop env (getFormatKey key) isLeft) =
      (model.queue.popped (popValue model.queue.elements isLeft), engine.withStore
        ((batchOf key (model.elim [] (popWrites · isLeft))).apply engine.db.store)) := by
  have hhead := hholds.head
  cases model with
  | none =>
    rw [map_none] at hhead
    simp only [listPop, listPopPlan, readLive_absent henv _ hhead, error_bind, commit_error, answer]
    rfl
  | some deque =>
    have hqueue : (ListModel.queue (some deque)).elements = deque.elements := rfl
    rw [hqueue, elim_some]
    by_cases helements : deque.elements = []
    · obtain ⟨buffer, hlive⟩ := list_readLive henv hholds rfl
      have hfits : deque.Fits := hholds.fits deque rfl
      simp only [listPop, listPopPlan, hlive, ok_bind, getSize_eq hfits, helements, ↓reduceIte,
        throw_eq_error, error_bind, answer, popWrites, popValue]
      cases isLeft <;> rfl
    · obtain ⟨found, hvalue, hplan⟩ := listPopPlan_eq henv hholds rfl helements isLeft
      simp only [listPop, hplan, commit_ok henv hplain.leader, answer, hvalue]
      rfl

omit henv hplain in
theorem holds_pop (isLeft : Bool) :
    ListHolds key ((slot engine.db.store key).applyAll (model.elim [] (popWrites · isLeft)))
      (model.map (popDeque · isLeft)) := by
  cases model with
  | none => exact hholds
  | some deque => exact hholds.pop isLeft

theorem list_step {op : ListOp} (hguard : op.guard key model) :
    ∃ reply writes, (op.call key).exec env engine =
        (reply, engine.withStore ((batchOf key writes).apply engine.db.store)) ∧
      op.allowsQueue model.queue reply ∧
      ListHolds key ((slot engine.db.store key).applyAll writes) (op.next model) := by
  have hsize (hlength : model.queue.elements.length < 2 ^ 63) :
      (Int64.ofNat model.queue.elements.length).toInt = model.queue.elements.length :=
    Int64.toInt_ofNat_of_lt hlength
  have hpush (value : Bytes) (isLeft : Bool) := listPushPlan_eq henv hholds hplain.noTtl value isLeft
  cases op with
  | pushFront value =>
    exact ⟨_, _, answer_commit henv hplain.leader (hpush value true), rfl,
      hholds.push true hguard.1 hguard.2.1 hguard.2.2⟩
  | pushBack value =>
    exact ⟨_, _, answer_commit henv hplain.leader (hpush value false), rfl,
      hholds.push false hguard.1 hguard.2.1 hguard.2.2⟩
  | popFront =>
    exact ⟨_, _, listPop_answer henv hplain hholds true, rfl, holds_pop hholds true⟩
  | popBack =>
    exact ⟨_, _, listPop_answer henv hplain hholds false, rfl, holds_pop hholds false⟩
  | lindex index =>
    exact ⟨_, [], lindex_exec henv hholds index, rfl, hholds⟩
  | llen =>
    exact ⟨_, [], llen_exec henv hholds, ⟨_, rfl, hsize hguard⟩, hholds⟩
  | getList =>
    exact ⟨_, [], getList_exec henv hholds, ⟨_, rfl, hsize hguard⟩, hholds⟩
  | delkey =>
    obtain ⟨writes, hexec, hclear⟩ := delkey_clears henv hplain.leader (by decide)
      (fun _ => ⟨0, _, rfl⟩) hholds.head fun hnone => ListHolds.eq_absent (hnone ▸ hholds)
    exact ⟨_, writes, hexec, rfl, hclear ▸ listHolds_absent key⟩

end

def listKind : Kind ListOp ListModel where
  call := ListOp.call
  next := ListOp.next
  allows := fun op model reply => op.allowsQueue model.queue reply
  guard := fun key op model => op.guard key model
  holds := ListHolds
  step := fun henv hplain _ hholds hguard => list_step henv hplain hholds hguard

namespace ListOp

def nextQueues (input : Kind.Input ListOp) (queues : LaserKey → QueueModel) :
    LaserKey → QueueModel :=
  update queues input.2.1 (input.2.2.nextQueue (queues input.2.1))

def allowsQueues (input : Kind.Input ListOp) (queues : LaserKey → QueueModel) (reply : Reply) :
    Prop :=
  input.2.2.allowsQueue (queues input.2.1) reply

/-- What a call on a list may write: a value that the string codec gives back,
under a record key that RocksDB takes. -/
def Writable (key : LaserKey) : ListOp → Prop
  | .pushFront value | .pushBack value => RoundTrips value ∧ Storable (key.dataKey (.index 0))
  | _ => True

def Admissible (keys : LaserKey → Prop) (input : Kind.Input ListOp) : Prop :=
  input.1.Healthy ∧ keys input.2.1 ∧ input.2.1.Valid ∧ input.2.2.Writable input.2.1

end ListOp

theorem next_queue (op : ListOp) (model : ListModel) :
    (op.next model).queue = op.nextQueue model.queue := by
  have hpush (isLeft : Bool) (value : Bytes) :
      ListModel.queue (some (model.push isLeft value)) =
        some (if isLeft then value :: model.queue.elements
          else model.queue.elements ++ [value]) :=
    congrArg some (push_elements isLeft value)
  have hpop (isLeft : Bool) :
      ListModel.queue (model.map (popDeque · isLeft)) =
        model.queue.map (if isLeft then tail else dropLast) := by
    cases model with
    | none => rfl
    | some deque =>
      refine (congrArg some (popDeque_elements deque isLeft)).trans ?_
      cases isLeft <;> rfl
  cases op with
  | pushFront value => exact hpush true value
  | pushBack value => exact hpush false value
  | popFront => exact hpop true
  | popBack => exact hpop false
  | _ => rfl

theorem nextQueue_length (op : ListOp) (queue : QueueModel) :
    (op.nextQueue queue).elements.length ≤ queue.elements.length + 1 := by
  cases op <;> cases queue <;> simp [ListOp.nextQueue, QueueModel.elements] <;> omega

theorem lists_guarded {keys : LaserKey → Prop} {inputs : List (Kind.Input ListOp)}
    (hshort : inputs.length < 2 ^ 62)
    (hinputs : ∀ input ∈ inputs, ListOp.Admissible keys input) :
    Simulation.Guarded listKind.nextAll (listKind.guardAll keys) inputs fun _ => none := by
  refine Simulation.Guarded.of_budget
    (fun used (models : LaserKey → ListModel) => ∀ key, (models key).queue.elements.length ≤ used)
    ?_ 0 hinputs (show 0 + inputs.length ≤ 2 ^ 62 by omega) fun _ => zero_le _
  rintro ⟨env, key, op⟩ models used hused hlengths ⟨henv, hkeys, hvalid, hwritable⟩
  refine ⟨⟨henv, hkeys, hvalid, ?_⟩, ?_⟩
  · have hlength := hlengths key
    have hroom : (models key).queue.elements.length + 2 < 2 ^ 64 := by omega
    cases op with
    | pushFront value | pushBack value => exact ⟨hwritable.1, hwritable.2, hroom⟩
    | llen | getList => exact hlength.trans_lt (by omega)
    | _ => exact trivial
  · intro other
    simp only [Kind.nextAll, update_apply]
    split
    · change ((op.next (models key)).queue).elements.length ≤ _
      rw [next_queue]
      exact (nextQueue_length op _).trans (succ_le_succ (hlengths key))
    · exact (hlengths other).trans (le_succ used)

/-- In every run of fewer than 2^62 calls on the keys in `keys`, used only as
lists, each call answers as the queue of its key says. -/
theorem list_refines_queue (keys : LaserKey → Prop) (engine : RocksDbEngine) (hplain : engine.Plain)
    (hfresh : ∀ key, keys key → key.Valid → slot engine.db.store key = .absent)
    (inputs : List (Kind.Input ListOp)) (hshort : inputs.length < 2 ^ 62)
    (hinputs : ∀ input ∈ inputs, ListOp.Admissible keys input) :
    Simulation.Conforms listKind.exec ListOp.nextQueues ListOp.allowsQueues inputs engine
      fun _ => none := by
  have hholds : listKind.Holds keys engine fun _ => none := by
    refine ⟨hplain, ?_⟩
    intro key hkeys hvalid
    rw [hfresh key hkeys hvalid]
    exact listHolds_absent key
  have hconforms := (listKind.simulates keys).conforms hholds (lists_guarded hshort hinputs)
  refine hconforms.map (fun (models : LaserKey → ListModel) key => (models key).queue) ?_ ?_
  · rintro ⟨env, key, op⟩ models
    funext other
    simp only [Kind.nextAll, ListOp.nextQueues, update_apply]
    split
    · exact next_queue op (models key)
    · rfl
  · intro input models reply hallows
    exact hallows

/-- Two pushes, two pops, the second of them from the other end, and a third on
the empty list. -/
theorem list_refines_queue_example :
    let key : LaserKey := ⟨[[97]], []⟩
    let env := Env.at 1
    Simulation.Conforms listKind.exec ListOp.nextQueues ListOp.allowsQueues
      [(env, key, .pushFront [1]), (env, key, .pushBack [2]), (env, key, .lindex (-1)),
        (env, key, .popFront), (env, key, .popBack), (env, key, .popBack)]
      RocksDbEngine.fresh fun _ => none := by
  intro key env
  refine list_refines_queue (fun _ => True) RocksDbEngine.fresh RocksDbEngine.fresh_plain
    (fun key _ _ => slot_empty key) _ (by decide) ?_
  have hwrite (value : Bytes) (hvalue : RoundTrips value) :
      RoundTrips value ∧ Storable (key.dataKey (.index 0)) := ⟨hvalue, by decide⟩
  simp only [forall_mem_cons, not_mem_nil, IsEmpty.forall_iff, implies_true, and_true]
  refine ⟨?_, ?_, ?_, ?_, ?_, ?_⟩
  · exact ⟨Env.at_healthy 1, trivial, by decide, hwrite [1] (by decide)⟩
  · exact ⟨Env.at_healthy 1, trivial, by decide, hwrite [2] (by decide)⟩
  all_goals exact ⟨Env.at_healthy 1, trivial, by decide, trivial⟩

/-- A pop on a key that was never written finds nothing, not an empty list. -/
theorem pop_of_absent_list :
    let reply := ((Call.popFront ⟨[[97]], []⟩).exec (Env.at 1) RocksDbEngine.fresh).1
    reply.1 ≠ .OK ∧ reply.1 ≠ .RS_EMPTY ∧ reply.1 = .RS_NOT_FOUND := by
  decide

end LaserDB
