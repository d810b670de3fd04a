import LaserDB.Engine.ReplicationDb
import LaserDB.Library.Simulation

/-!
# Sharing a checkpoint

`ReplicationDB::handleReplicateWdtRequest`: the senders of base data share one checkpoint directory,
which is removed when their count falls to zero.
-/

namespace LaserDB

open List

/-- What the checkpoint directory holds; `created` is the time at which the running
process took the checkpoint, and `none` for one that an earlier process left. -/
structure CheckpointDir where
  complete : Bool
  created : Option Nat
  deriving DecidableEq, Repr

/-- A sender at work: when it started, for which database object, and what the
directory held when it was given it. -/
structure WdtSender where
  start : Nat
  owner : Nat
  given : CheckpointDir
  deriving DecidableEq, Repr

/-- How `remove_all` ends: it removes the directory, or fails and leaves all of it or
a part of it. -/
inductive Removal where
  | removed
  | failed (complete : Bool)
  deriving DecidableEq, Repr

/-- A data directory, its database object, if there is one, and the senders of this
object and of earlier ones.  `clock` counts what has happened. -/
structure CheckpointState where
  clock : Nat
  owner : Nat
  opened : Bool
  dir : Option CheckpointDir
  checkpointRefCount : Nat
  senders : List WdtSender
  deriving DecidableEq, Repr

namespace CheckpointState

inductive Event where
  /-- A request for base data; a checkpoint that has to be taken may fail. -/
  | request (fault : Option RocksDbFault)
  /-- The callback of a sender. -/
  | complete (index : Nat) (success : Bool) (removal : Removal)
  /-- The database object is destroyed. -/
  | close
  /-- A new database object is made for the same directory. -/
  | reopen
  deriving DecidableEq, Repr

def checkpoint (fault : Option RocksDbFault) : Status :=
  convertRocksDbStatus ((fault.map RocksDbStatus.fault).getD .ok)

def shareDir (fault : Option RocksDbFault) (state : CheckpointState) :
    Except Status CheckpointDir :=
  match state.dir with
  | some dir => .ok dir
  | none =>
    match checkpoint fault with
    | .OK => .ok ⟨true, some state.clock⟩
    | status => .error status

def handleReplicateWdtRequest (fault : Option RocksDbFault) (state : CheckpointState) :
    Option Status × CheckpointState :=
  if state.opened = false then (some .RP_SOURCE_DB_REMOVED, state)
  else
    match shareDir fault state with
    | .error status => (some status, state)
    | .ok dir =>
      (none, { state with
        dir := some dir
        checkpointRefCount := (state.checkpointRefCount + 1) % 2 ^ 32
        senders := state.senders ++ [⟨state.clock, state.owner, dir⟩] })

def remove : Removal → CheckpointDir → Option CheckpointDir
  | .removed, _ => none
  | .failed complete, dir => some { dir with complete := dir.complete && complete }

/-- `checkpoint_ref_count_--`, and the directory goes with the last sender. -/
def release (removal : Removal) (state : CheckpointState) : CheckpointState :=
  let count := (state.checkpointRefCount + (2 ^ 32 - 1)) % 2 ^ 32
  { state with
    checkpointRefCount := count
    dir := if count = 0 then state.dir.bind (remove removal) else state.dir }

def senderCallback (sender : WdtSender) (success : Bool) (removal : Removal)
    (state : CheckpointState) : Status × CheckpointState :=
  if state.opened = false ∨ sender.owner ≠ state.owner then (.RP_SOURCE_DB_REMOVED, state)
  else (if success then .OK else .RP_SOURCE_READ_ERROR, release removal state)

def act : Event → CheckpointState → CheckpointState
  | .request fault, state => (handleReplicateWdtRequest fault state).2
  | .complete index success removal, state =>
    match state.senders[index]? with
    | none => state
    | some sender =>
      (senderCallback sender success removal
        { state with senders := state.senders.eraseIdx index }).2
  | .close, state => { state with opened := false }
  | .reopen, state =>
    if state.opened then state
    else { state with opened := true, owner := state.owner + 1, checkpointRefCount := 0 }

def next (event : Event) (state : CheckpointState) : CheckpointState :=
  { act event state with clock := state.clock + 1 }

def KeepsDirs (state : CheckpointState) : Prop :=
  ∀ sender ∈ state.senders, state.dir = some sender.given

/-- Whatever sender a request starts is given a complete checkpoint that this process
took no earlier than the oldest sender at work started, and a new one when there was no
sender. -/
def StartsWell (fault : Option RocksDbFault) (state : CheckpointState) : Prop :=
  ∀ sender, (next (.request fault) state).senders = state.senders ++ [sender] →
    sender.given.complete = true ∧ ∃ created, sender.given.created = some created ∧
      (∀ oldest ∈ state.senders ++ [sender],
        (∀ other ∈ state.senders ++ [sender], oldest.start ≤ other.start) →
          oldest.start ≤ created) ∧
      (state.senders = [] → created = state.clock)

/-- The sender for which the checkpoint was taken, if any, is still at work when a
request arrives; the count does not wrap around; the directory can be removed; and a new
object is made only where no directory is left. -/
def Admits : Event → CheckpointState → Prop
  | .request _, state => state.senders.length + 1 < 2 ^ 32 ∧
      (state.senders ≠ [] → ∃ sender ∈ state.senders, sender.given.created = some sender.start)
  | .complete _ _ removal, _ => removal = .removed
  | .close, _ => True
  | .reopen, state => state.opened = false → state.dir = none

structure Shared (state : CheckpointState) : Prop where
  keeps : state.KeepsDirs
  taken : ∀ sender ∈ state.senders,
    sender.given.complete = true ∧ ∃ created, sender.given.created = some created
  owned : state.opened = true → ∀ sender ∈ state.senders, sender.owner = state.owner
  counted : state.opened = true → state.checkpointRefCount = state.senders.length
  bounded : state.opened = true → state.senders.length < 2 ^ 32
  idle : state.opened = true → state.senders = [] → state.dir = none

variable {state : CheckpointState}

section
variable (hshared : state.Shared)
include hshared

variable {fault : Option RocksDbFault}

theorem Shared.given_dir (hopened : state.opened = true) {dir : CheckpointDir}
    (hdir : state.shareDir fault = .ok dir) :
    (∀ sender ∈ state.senders, sender.given = dir) ∧ dir.complete = true ∧
      ∃ created, dir.created = some created ∧ (state.senders = [] → created = state.clock) := by
  unfold CheckpointState.shareDir at hdir
  cases hstate : state.dir with
  | none =>
    have hnone : state.senders = [] := by
      refine eq_nil_iff_forall_not_mem.mpr ?_
      intro sender hsender
      have hkeeps := hshared.keeps sender hsender
      rw [hstate] at hkeeps
      cases hkeeps
    rw [hstate] at hdir
    dsimp only at hdir
    split at hdir
    · cases hdir
      rw [hnone]
      exact ⟨fun sender hsender => absurd hsender not_mem_nil, rfl, state.clock, rfl, fun _ => rfl⟩
    · cases hdir
  | some found =>
    rw [hstate] at hdir
    cases hdir
    have hgiven : ∀ sender ∈ state.senders, sender.given = dir := by
      intro sender hsender
      have hkeeps := hshared.keeps sender hsender
      rw [hstate] at hkeeps
      exact (Option.some.inj hkeeps).symm
    cases hsenders : state.senders with
    | nil =>
      have hidle := hshared.idle hopened hsenders
      rw [hstate] at hidle
      cases hidle
    | cons sender rest =>
      have hmem : sender ∈ state.senders := by
        rw [hsenders]
        exact mem_cons_self
      obtain ⟨hcomplete, created, hcreated⟩ := hshared.taken sender hmem
      rw [hgiven sender hmem] at hcomplete hcreated
      rw [← hsenders]
      exact ⟨hgiven, hcomplete, created, hcreated, fun hnil => by rw [hsenders] at hnil; cases hnil⟩

private theorem Shared.request (fault : Option RocksDbFault)
    (hbound : state.senders.length + 1 < 2 ^ 32) : (act (.request fault) state).Shared := by
  simp only [act, handleReplicateWdtRequest]
  split
  · exact hshared
  · rename_i hopened
    rw [Bool.not_eq_false] at hopened
    cases hdir : state.shareDir fault with
    | error status => exact hshared
    | ok dir =>
      obtain ⟨hgiven, hcomplete, created, hcreated, -⟩ := hshared.given_dir hopened hdir
      refine ⟨?_, ?_, ?_, ?_, ?_, ?_⟩
      · intro sender hsender
        rcases mem_append.mp hsender with hold | hnew
        · rw [hgiven sender hold]
        · cases mem_singleton.mp hnew
          rfl
      · intro sender hsender
        rcases mem_append.mp hsender with hold | hnew
        · exact hshared.taken sender hold
        · cases mem_singleton.mp hnew
          exact ⟨hcomplete, created, hcreated⟩
      · intro _ sender hsender
        rcases mem_append.mp hsender with hold | hnew
        · exact hshared.owned hopened sender hold
        · cases mem_singleton.mp hnew
          rfl
      · intro _
        simp only [hshared.counted hopened, length_append, length_singleton]
        exact Nat.mod_eq_of_lt hbound
      · intro _
        simp only [length_append, length_singleton]
        exact hbound
      · intro _ hnil
        exact absurd hnil (by simp)

private theorem Shared.complete (index : Nat) (success : Bool) :
    (act (.complete index success .removed) state).Shared := by
  simp only [act]
  cases hsender : state.senders[index]? with
  | none => exact hshared
  | some sender =>
    obtain ⟨hindex, -⟩ := List.getElem?_eq_some_iff.mp hsender
    have hlength := length_eraseIdx_of_lt hindex
    have hsub : ∀ other ∈ state.senders.eraseIdx index, other ∈ state.senders :=
      fun other hother => mem_of_mem_eraseIdx hother
    have howner := fun hopened => hshared.owned hopened sender (mem_of_getElem? hsender)
    dsimp only
    unfold senderCallback
    split
    · rename_i hgone
      have hclosed : state.opened ≠ true := by
        intro hopened
        rcases hgone with hclosed | hother
        · rw [hopened] at hclosed
          cases hclosed
        · exact hother (howner hopened)
      exact ⟨fun other hother => hshared.keeps other (hsub other hother),
        fun other hother => hshared.taken other (hsub other hother),
        fun hopened => absurd hopened hclosed, fun hopened => absurd hopened hclosed,
        fun hopened => absurd hopened hclosed, fun hopened => absurd hopened hclosed⟩
    · rename_i hlive
      have hopened : state.opened = true := by
        rw [← Bool.not_eq_false]
        exact fun hclosed => hlive (.inl hclosed)
      have hbound := hshared.bounded hopened
      have hcount : (state.checkpointRefCount + (2 ^ 32 - 1)) % 2 ^ 32 =
          (state.senders.eraseIdx index).length := by
        rw [hshared.counted hopened, hlength]
        omega
      unfold release
      dsimp only
      rw [hcount]
      have hless : (state.senders.eraseIdx index).length < 2 ^ 32 := by omega
      refine ⟨?_, fun other hother => hshared.taken other (hsub other hother),
        fun _ other hother => hshared.owned hopened other (hsub other hother), fun _ => rfl,
        fun _ => hless, ?_⟩
      · intro other hother
        have hpos := length_pos_of_mem hother
        dsimp only at hpos ⊢
        rw [if_neg (by omega)]
        exact hshared.keeps other (hsub other hother)
      · intro _ hnil
        dsimp only at hnil ⊢
        rw [hnil, length_nil, if_pos rfl]
        cases state.dir <;> rfl

private theorem Shared.next {event : Event} (hadmits : Admits event state) :
    (next event state).Shared := by
  have hact : (act event state).Shared := by
    cases event with
    | request fault => exact hshared.request fault hadmits.1
    | complete index success removal =>
      cases hadmits
      exact hshared.complete index success
    | close =>
      exact ⟨hshared.keeps, hshared.taken, Bool.noConfusion, Bool.noConfusion, Bool.noConfusion,
        Bool.noConfusion⟩
    | reopen =>
      simp only [act]
      split
      · exact hshared
      · rename_i hclosed
        rw [Bool.not_eq_true] at hclosed
        have hdir := hadmits hclosed
        have hnone : state.senders = [] := by
          refine eq_nil_iff_forall_not_mem.mpr ?_
          intro sender hsender
          have hkeeps := hshared.keeps sender hsender
          rw [hdir] at hkeeps
          cases hkeeps
        have hmem : ∀ sender, sender ∉ state.senders := by
          rw [hnone]
          exact fun sender => not_mem_nil
        exact ⟨hshared.keeps, hshared.taken, fun _ sender hsender => absurd hsender (hmem sender),
          fun _ => by rw [hnone]; rfl, fun _ => by rw [hnone]; decide, fun _ _ => hdir⟩
  exact ⟨hact.keeps, hact.taken, hact.owned, hact.counted, hact.bounded, hact.idle⟩

theorem Shared.startsWell (hadmits : Admits (.request fault) state) : state.StartsWell fault := by
  intro sender hsenders
  simp only [CheckpointState.next, act, handleReplicateWdtRequest] at hsenders
  split at hsenders
  · exact absurd hsenders.symm (by simp)
  · rename_i hopened
    rw [Bool.not_eq_false] at hopened
    cases hdir : state.shareDir fault with
    | error status =>
      rw [hdir] at hsenders
      exact absurd hsenders.symm (by simp)
    | ok dir =>
      obtain ⟨hgiven, hcomplete, created, hcreated, hidle⟩ := hshared.given_dir hopened hdir
      rw [hdir] at hsenders
      obtain rfl := singleton_inj.mp (append_cancel_left hsenders)
      refine ⟨hcomplete, created, hcreated, ?_, hidle⟩
      intro oldest _ holdest
      by_cases hnone : state.senders = []
      · rw [hidle hnone]
        exact holdest _ (mem_append_right _ (mem_singleton.mpr rfl))
      · obtain ⟨first, hfirst, htaken⟩ := hadmits.2 hnone
        rw [hgiven first hfirst, hcreated] at htaken
        rw [Option.some.inj htaken]
        exact holdest first (mem_append_left _ hfirst)

end

def fresh (clock owner : Nat) (dir : Option CheckpointDir) : CheckpointState :=
  ⟨clock, owner, true, dir, 0, []⟩

/-- From an empty data directory on, whatever requests, callbacks and changes of the
database object follow each other: no sender loses its directory, and every sender that
starts gets the checkpoint it should. -/
theorem shared_checkpoint_of_admitted (clock owner : Nat) {events : List Event}
    (hadmits : Simulation.Guarded next Admits events (fresh clock owner none))
    (fault : Option RocksDbFault) :
    (Simulation.finalState next events (fresh clock owner none)).KeepsDirs ∧
      (Admits (.request fault) (Simulation.finalState next events (fresh clock owner none)) →
        (Simulation.finalState next events (fresh clock owner none)).StartsWell fault) := by
  have hnone : ∀ sender, sender ∉ (fresh clock owner none).senders := fun _ => not_mem_nil
  have hstart : (fresh clock owner none).Shared :=
    ⟨fun sender hsender => absurd hsender (hnone sender),
      fun sender hsender => absurd hsender (hnone sender),
      fun _ sender hsender => absurd hsender (hnone sender), fun _ => rfl,
      fun _ => Nat.two_pow_pos 32, fun _ _ => rfl⟩
  have hshared := Simulation.invariant_finalState
    (fun event state (hstate : Shared state) hguard => hstate.next hguard) hstart hadmits
  exact ⟨hshared.keeps, hshared.startsWell⟩

/-- Two senders, of which the second is done, and then a third. -/
theorem shared_checkpoint_third_sender :
    StartsWell none (Simulation.finalState next
      [.request none, .request none, .complete 1 true .removed] (fresh 0 0 none)) := by
  have hadmits : Simulation.Guarded next Admits
      [.request none, .request none, .complete 1 true .removed] (fresh 0 0 none) :=
    ⟨⟨by decide, fun hsome => absurd rfl hsome⟩,
      ⟨by decide, fun _ => ⟨⟨0, 0, ⟨true, some 0⟩⟩, mem_cons_self, rfl⟩⟩, rfl, trivial⟩
  exact (shared_checkpoint_of_admitted 0 0 hadmits none).2
    ⟨by decide, fun _ => ⟨⟨0, 0, ⟨true, some 0⟩⟩, mem_cons_self, rfl⟩⟩

/-- A sender is given the directory that an earlier process left, or what a removal that
failed has left of it; and the callback of a new database object removes the directory
from under a sender of the old one. -/
theorem shared_checkpoint_stale :
    ¬ (fresh 0 0 (some ⟨false, none⟩)).StartsWell none ∧
      ¬ (Simulation.finalState next [.request none, .complete 0 true (.failed false)]
        (fresh 0 0 none)).StartsWell none ∧
      ¬ (Simulation.finalState next
        [.request none, .close, .reopen, .request none, .complete 1 true .removed]
        (fresh 0 0 none)).KeepsDirs := by
  refine ⟨fun hstarts => ?_, fun hstarts => ?_, fun hkeeps => ?_⟩
  · exact absurd (hstarts ⟨0, 0, ⟨false, none⟩⟩ rfl).1 (by decide)
  · exact absurd (hstarts ⟨2, 0, ⟨false, some 0⟩⟩ rfl).1 (by decide)
  · exact absurd (hkeeps ⟨0, 0, ⟨true, some 0⟩⟩ mem_cons_self) (by decide)

end CheckpointState

end LaserDB
