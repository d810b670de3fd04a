import LaserDB.Refinement.ReadBack

/-!
# Strings are byte strings

A string is stored as one record, which every write replaces.
-/

namespace LaserDB

open RocksDbEngine Option LaserValueRawString

inductive StringOp where
  | set (data : Bytes)
  | append (data : Bytes)
  | get
  | delkey

namespace StringOp

def call (key : LaserKey) : StringOp → Call
  | .set data => .set key data
  | .append data => .append key data
  | .get => .get key
  | .delkey => .delkey key

def next (op : StringOp) (model : Option Bytes) : Option Bytes :=
  match op with
  | .set data => some data
  | .append data => some (model.getD [] ++ data)
  | .get => model
  | .delkey => none

def reply (op : StringOp) (model : Option Bytes) : Reply :=
  match op with
  | .set _ | .delkey => (.OK, .nothing)
  | .append data => (.OK, .length (UInt32.ofNat (model.getD [] ++ data).length))
  | .get => (if model.isSome then .OK else .RS_NOT_FOUND, .text (model.getD []))

end StringOp

structure StringHolds (slot : Slot) (model : Option Bytes) : Prop where
  slot_eq : slot = ⟨model.map (rawStringBytes 0), .empty⟩
  readable : ∀ value ∈ model, RoundTrips value

section
variable {engine : RocksDbEngine} {env : Env} {key : LaserKey} {model : Option Bytes}
  (hholds : StringHolds (slot engine.db.store key) model)
include hholds

theorem StringHolds.finds : ∃ found, (slot engine.db.store key).Finds new found ∧
    found.map (·.value) = model ∧ ∀ value ∈ found, LaserValue.getTimestamp value = 0 := by
  have hhead := congrArg Slot.head hholds.slot_eq
  cases model with
  | none => exact ⟨none, hhead, rfl, nofun⟩
  | some data =>
    obtain ⟨buffer, hdecode⟩ := decodeOr_rawString .RS_INVALID_ARGUMENT 0 (hholds.readable data rfl)
    refine ⟨some _, ⟨_, hhead, decodeOr_eq_ok.mp hdecode⟩, rfl, fun value hvalue => ?_⟩
    cases hvalue
    rfl

theorem get_string (henv : env.Healthy) :
    (Call.get key).exec env engine = (StringOp.get.reply model, engine) := by
  obtain ⟨found, hfinds, rfl, hzero⟩ := hholds.finds
  cases found with
  | none =>
    have hfresh : LaserValue.getTimestamp new = 0 := rfl
    simp only [Call.exec, RocksDbEngine.get, getValue_absent henv hfinds hfresh]
    rfl
  | some value =>
    obtain ⟨bytes, hhead, hdecode⟩ := hfinds
    have hread := getValue_of_decode henv hhead (decodeOr_eq_ok.mpr hdecode) (hzero value rfl)
    simp only [Call.exec, RocksDbEngine.get, hread]
    rfl

theorem string_step (henv : env.Healthy) (hplain : engine.Plain) {op : StringOp}
    (hguard : ∀ value ∈ op.next model, RoundTrips value) :
    ∃ writes, (op.call key).exec env engine =
        (op.reply model, engine.withStore ((batchOf key writes).apply engine.db.store)) ∧
      StringHolds ((slot engine.db.store key).applyAll writes) (op.next model) := by
  have hput (data : Bytes) : (slot engine.db.store key).applyAll [.putHead (rawStringBytes 0 data)] =
      ⟨some (rawStringBytes 0 data), .empty⟩ := by
    rw [hholds.slot_eq]
    rfl
  cases op with
  | set data =>
    have hplan : engine.setPlan env (getFormatKey key) data = _ := setPlan_eq data
    rw [stamp_of_noTtl _ _ hplain.noTtl] at hplan
    exact ⟨_, answer_commit henv hplain.leader hplan, hput data, hguard⟩
  | append data =>
    obtain ⟨found, hfinds, rfl, -⟩ := hholds.finds
    have hplan : engine.appendPlan env (getFormatKey key) data = _ := plan_append data henv
    rw [Slot.plan_of_finds hfinds, stamp_of_noTtl _ _ hplain.noTtl] at hplan
    refine ⟨_, ?_, hput _, hguard⟩
    simp only [StringOp.call, Call.exec, append, hplan, commit_ok henv hplain.leader, answer]
    rfl
  | get => exact ⟨[], get_string hholds henv, hholds⟩
  | delkey =>
    have hhead := congrArg Slot.head hholds.slot_eq
    cases model with
    | none => exact ⟨[], delkey_exec_absent henv hhead, hholds⟩
    | some data =>
      refine ⟨_, delkey_exec henv hplain.leader hhead, ?_, hguard⟩
      rw [hholds.slot_eq]
      rfl

end

def stringKind : Kind StringOp (Option Bytes) where
  call := StringOp.call
  next := StringOp.next
  allows := fun op model reply => reply = op.reply model
  guard := fun _ op model => ∀ value ∈ op.next model, RoundTrips value
  holds := fun _ => StringHolds
  step := by
    intro engine env key op model henv hplain _ hholds hguard
    obtain ⟨writes, hexec, hnext⟩ := string_step hholds henv hplain hguard
    exact ⟨_, writes, hexec, rfl, hnext⟩

/-- In every run of calls on the keys in `keys`, used only as strings, each call answers as the byte
string of its key says. -/
theorem string_refines_bytes (keys : LaserKey → Prop) (engine : RocksDbEngine)
    (hplain : engine.Plain)
    (hfresh : ∀ key, keys key → key.Valid → slot engine.db.store key = .absent)
    (inputs : List (Kind.Input StringOp))
    (hguarded : Simulation.Guarded stringKind.nextAll (stringKind.guardAll keys) inputs
      fun _ => none) :
    Simulation.Conforms stringKind.exec stringKind.nextAll stringKind.allowsAll inputs engine
      fun _ => none :=
  (stringKind.simulates keys).conforms
    ⟨hplain, fun key hkeys hvalid => ⟨hfresh key hkeys hvalid, nofun⟩⟩ hguarded

theorem string_refines_bytes_append :
    Simulation.Conforms stringKind.exec stringKind.nextAll stringKind.allowsAll
      [(Env.at 1, ⟨[[97]], []⟩, .append [120]), (Env.at 1, ⟨[[97]], []⟩, .get)]
      fresh fun _ => none := by
  have hvalue : ∀ value ∈ some [120], RoundTrips value := by decide
  exact string_refines_bytes (fun _ => True) fresh fresh_plain (fun key _ _ => slot_empty key) _
    ⟨⟨Env.at_healthy 1, trivial, by decide, hvalue⟩,
      ⟨Env.at_healthy 1, trivial, by decide, hvalue⟩, trivial⟩

end LaserDB
