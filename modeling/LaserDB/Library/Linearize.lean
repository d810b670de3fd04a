import LaserDB.Library.Simulation

/-!
# Calls on a shared object

A call asks the object questions and ends with a reply or one atomic update.  A history is
linearizable when some order of the calls agrees with real time and explains every reply and the
final state.
-/

namespace Linearize

open List

inductive Program (Q : Type) (A : Q → Type) (α : Type) where
  | finish (value : α)
  | ask (query : Q) (next : A query → Program Q A α)

namespace Program

variable {Q : Type} {A : Q → Type} {α β : Type}

def bind : Program Q A α → (α → Program Q A β) → Program Q A β
  | .finish value, next => next value
  | .ask query continue_, next => .ask query fun answer => (continue_ answer).bind next

instance : Monad (Program Q A) where
  pure := .finish
  bind := bind

def eval (answers : (query : Q) → A query) : Program Q A α → α
  | .finish value => value
  | .ask query next => (next (answers query)).eval answers

variable (answers : (query : Q) → A query)

@[simp] theorem eval_pure (value : α) :
    (pure value : Program Q A α).eval answers = value := rfl

@[simp] theorem eval_bind (program : Program Q A α) (next : α → Program Q A β) :
    (program >>= next).eval answers = (next (program.eval answers)).eval answers := by
  show (program.bind next).eval answers = _
  induction program with
  | finish value => rfl
  | ask query continue_ ih => exact ih (answers query)

def Always {σ : Type} (answer : σ → (query : Q) → A query) (post : α → Prop) :
    Program Q A α → Prop
  | .finish value => post value
  | .ask query next => ∀ state, (next (answer state query)).Always answer post

variable {program : Program Q A α}

theorem Always.mono {answer : σ → (query : Q) → A query} {post weaker : α → Prop}
    (himp : ∀ value, post value → weaker value) (halways : program.Always answer post) :
    program.Always answer weaker := by
  induction program with
  | finish value => exact himp value halways
  | ask query continue_ ih => exact fun state => ih _ (halways state)

theorem Always.bind {answer : σ → (query : Q) → A query} {post : β → Prop}
    {next : α → Program Q A β}
    (halways : program.Always answer fun value => (next value).Always answer post) :
    (program >>= next).Always answer post := by
  show (program.bind next).Always answer post
  induction program with
  | finish value => exact halways
  | ask query continue_ ih => exact fun state => ih _ (halways state)

end Program

inductive Finish (σ ρ : Type) where
  | reply (value : ρ)
  | update (action : σ → ρ × σ)

def Finish.apply {σ ρ : Type} : Finish σ ρ → σ → ρ × σ
  | .reply value, state => (value, state)
  | .update action, state => action state

structure Object (Q : Type) (A : Q → Type) (σ ι ρ : Type) where
  answer : σ → (query : Q) → A query
  program : ι → Program Q A (Finish σ ρ)
  locks : ι → Bool

inductive Event (ι ρ : Type) where
  | invoke (id : Nat) (op : ι)
  | respond (id : Nat) (reply : ρ)

section
variable {σ ι ρ : Type}

def Sequential (exec : ι → σ → ρ × σ) : σ → List (ι × ρ) → σ → Prop
  | state, [], final => final = state
  | state, (op, reply) :: rest, final =>
    (exec op state).1 = reply ∧ Sequential exec (exec op state).2 rest final

/-- Some of the calls, among them all that have returned, in an order that explains
their replies and the final state and in which a call that returned before another was
invoked stands before it. -/
def Linearizable (exec : ι → σ → ρ × σ) (start : σ) (history : List (Event ι ρ)) (final : σ) :
    Prop :=
  ∃ order : List (Nat × ι × ρ), (order.map Prod.fst).Nodup ∧
    (∀ id op reply, (id, op, reply) ∈ order → .invoke id op ∈ history) ∧
    (∀ id reply, .respond id reply ∈ history → ∃ op, (id, op, reply) ∈ order) ∧
    (∀ first reply second op, List.Sublist [.respond first reply, .invoke second op] history →
        second ∈ order.map Prod.fst → List.Sublist [first, second] (order.map Prod.fst)) ∧
    Sequential exec start (order.map Prod.snd) final

theorem Sequential.concat {exec : ι → σ → ρ × σ} {start state : σ} {calls : List (ι × ρ)}
    (hcalls : Sequential exec start calls state) (op : ι) :
    Sequential exec start (calls ++ [(op, (exec op state).1)]) (exec op state).2 := by
  induction calls generalizing start with
  | nil =>
    cases hcalls
    exact ⟨rfl, rfl⟩
  | cons call rest ih => exact ⟨hcalls.1, ih hcalls.2⟩

end

variable {Q : Type} {A : Q → Type} {σ ι ρ : Type}

inductive Phase (Q : Type) (A : Q → Type) (σ ρ : Type) where
  /-- Waiting for the lock. -/
  | locking
  /-- At work; `started` once it has asked. -/
  | running (started : Bool) (program : Program Q A (Finish σ ρ))
  /-- Done, and still holding the lock. -/
  | releasing (reply : ρ)
  | returning (reply : ρ)
  | returned (reply : ρ)

def Phase.inside : Phase Q A σ ρ → Bool
  | .running _ _ => true
  | .releasing _ => true
  | _ => false

def Phase.reply? : Phase Q A σ ρ → Option ρ
  | .releasing reply => some reply
  | .returning reply => some reply
  | .returned reply => some reply
  | _ => none

/-- The calls by number, the lock, and what has been seen from outside.  `order` is
the order in which the calls have taken effect. -/
structure Config (Q : Type) (A : Q → Type) (σ ι ρ : Type) where
  state : σ
  locked : Bool
  calls : List (ι × Phase Q A σ ρ)
  history : List (Event ι ρ)
  order : List (Nat × ι × ρ)

def Config.start (state : σ) : Config Q A σ ι ρ := ⟨state, false, [], [], []⟩

inductive Step (ι : Type) where
  | invoke (op : ι)
  | acquire (id : Nat)
  | act (id : Nat)
  | release (id : Nat)
  | respond (id : Nat)

def Config.move (config : Config Q A σ ι ρ) (id : Nat) (op : ι) (phase : Phase Q A σ ρ) :
    Config Q A σ ι ρ := { config with calls := config.calls.set id (op, phase) }

variable (object : Object Q A σ ι ρ)

def Object.exec (op : ι) (state : σ) : ρ × σ :=
  ((object.program op).eval (object.answer state)).apply state

def Config.settle (config : Config Q A σ ι ρ) (id : Nat) (op : ι) (result : ρ × σ) :
    Config Q A σ ι ρ :=
  { config with
    state := result.2
    calls := config.calls.set id
      (op, if object.locks op then .releasing result.1 else .returning result.1)
    order := config.order ++ [(id, op, result.1)] }

/-- One question, or the end of the call; a call that has its reply takes effect with
its last question. -/
def Config.act (config : Config Q A σ ι ρ) (id : Nat) (op : ι) :
    Program Q A (Finish σ ρ) → Config Q A σ ι ρ
  | .finish finish => config.settle object id op (finish.apply config.state)
  | .ask query next =>
    match next (object.answer config.state query) with
    | .finish (.reply reply) => config.settle object id op (reply, config.state)
    | program => config.move id op (.running true program)

def next : Step ι → Config Q A σ ι ρ → Config Q A σ ι ρ
  | .invoke op, config =>
    { config with
      calls := config.calls ++
        [(op, if object.locks op then .locking else .running false (object.program op))]
      history := config.history ++ [.invoke config.calls.length op] }
  | .acquire id, config =>
    match config.calls[id]?, config.locked with
    | some (op, .locking), false =>
      { config.move id op (.running false (object.program op)) with locked := true }
    | _, _ => config
  | .act id, config =>
    match config.calls[id]? with
    | some (op, .running _ program) => config.act object id op program
    | _ => config
  | .release id, config =>
    match config.calls[id]? with
    | some (op, .releasing reply) => { config.move id op (.returning reply) with locked := false }
    | _ => config
  | .respond id, config =>
    match config.calls[id]? with
    | some (op, .returning reply) =>
      { config.move id op (.returned reply) with
        history := config.history ++ [.respond id reply] }
    | _ => config

/-- A call without the lock updates the object only while no call is between its first
question and its end. -/
def Admits : Step ι → Config Q A σ ι ρ → Prop
  | .act id, config =>
    ∀ op started action, config.calls[id]? = some (op, .running started (.finish (.update action))) →
      object.locks op = false → ∀ (other : Nat) otherOp program,
          config.calls[other]? ≠ some (otherOp, .running true program)
  | _, _ => True

/-- Calls without the lock ask at most one question, and then have their reply. -/
def SingleStep : Program Q A (Finish σ ρ) → Prop
  | .finish _ => True
  | .ask _ next => ∀ answer, ∃ reply, next answer = .finish (.reply reply)

/-- What has taken effect is in order, and seen from outside no earlier. -/
structure Orderly (start : σ) (config : Config Q A σ ι ρ) : Prop where
  nodup : (config.order.map Prod.fst).Nodup
  called : ∀ id op reply, (id, op, reply) ∈ config.order →
    ∃ phase, config.calls[id]? = some (op, phase) ∧ phase.reply? = some reply
  settled : ∀ id op phase reply, config.calls[id]? = some (op, phase) →
    phase.reply? = some reply → (id, op, reply) ∈ config.order
  invoked : ∀ (id : Nat) op phase, config.calls[id]? = some (op, phase) →
    .invoke id op ∈ config.history
  responded : ∀ id reply, .respond id reply ∈ config.history → ∃ op, (id, op, reply) ∈ config.order
  realTime : ∀ first reply second op,
    List.Sublist [.respond first reply, .invoke second op] config.history →
      second ∈ config.order.map Prod.fst → List.Sublist [first, second] (config.order.map Prod.fst)
  sequential : Sequential object.exec start (config.order.map Prod.snd) config.state

variable {object} {start : σ} {config : Config Q A σ ι ρ}

theorem Orderly.linearizable (horderly : Orderly object start config) :
    Linearizable object.exec start config.history config.state := by
  refine ⟨config.order, horderly.nodup, ?_, horderly.responded, horderly.realTime,
    horderly.sequential⟩
  intro id op reply hmem
  obtain ⟨phase, hcall, -⟩ := horderly.called id op reply hmem
  exact horderly.invoked id op phase hcall

variable {id : Nat}

theorem getElem?_set_of_some {calls : List α} {old : α}
    (hcall : calls[id]? = some old) (new : α) (other : Nat) :
    (calls.set id new)[other]? = if other = id then some new else calls[other]? := by
  obtain ⟨hlt, -⟩ := List.getElem?_eq_some_iff.mp hcall
  rw [List.getElem?_set]
  by_cases heq : id = other
  · subst heq
    rw [if_pos rfl, if_pos hlt, if_pos rfl]
  · rw [if_neg heq, if_neg (Ne.symm heq)]

variable {old phase : Phase Q A σ ρ} {op : ι}

variable (horderly : Orderly object start config)
include horderly

private theorem Orderly.move (hcall : config.calls[id]? = some (op, old))
    (hreply : phase.reply? = old.reply?) : Orderly object start (config.move id op phase) := by
  have hget := getElem?_set_of_some hcall (op, phase)
  refine ⟨horderly.nodup, ?_, ?_, ?_, horderly.responded, horderly.realTime, horderly.sequential⟩
  · intro other otherOp reply hmem
    obtain ⟨otherPhase, hother, hfound⟩ := horderly.called other otherOp reply hmem
    simp only [Config.move, hget]
    by_cases heq : other = id
    · subst heq
      rw [hcall] at hother
      cases hother
      exact ⟨phase, if_pos rfl, hreply.trans hfound⟩
    · exact ⟨otherPhase, (if_neg heq).trans hother, hfound⟩
  · intro other otherOp otherPhase reply hother hfound
    simp only [Config.move, hget] at hother
    split at hother
    · rename_i heq
      subst heq
      cases hother
      exact horderly.settled other op old reply hcall (hreply.symm.trans hfound)
    · exact horderly.settled other otherOp otherPhase reply hother hfound
  · intro other otherOp otherPhase hother
    simp only [Config.move, hget] at hother
    split at hother
    · rename_i heq
      subst heq
      cases hother
      exact horderly.invoked other op old hcall
    · exact horderly.invoked other otherOp otherPhase hother

private theorem Orderly.locked (locked : Bool) :
    Orderly object start { config with locked := locked } :=
  ⟨horderly.nodup, horderly.called, horderly.settled, horderly.invoked, horderly.responded,
    horderly.realTime, horderly.sequential⟩

private theorem Orderly.settle {old : Phase Q A σ ρ}
    (hcall : config.calls[id]? = some (op, old)) (hold : old.reply? = none) :
    Orderly object start (config.settle object id op (object.exec op config.state)) := by
  set phase : Phase Q A σ ρ := if object.locks op then
    .releasing (object.exec op config.state).1 else .returning (object.exec op config.state).1
    with hphase
  have hreply : phase.reply? = some (object.exec op config.state).1 := by
    rw [hphase]
    split <;> rfl
  have hget := getElem?_set_of_some hcall (op, phase)
  have hfresh : id ∉ config.order.map Prod.fst := by
    intro hmem
    obtain ⟨⟨other, otherOp, reply⟩, hentry, rfl⟩ := mem_map.mp hmem
    obtain ⟨otherPhase, hother, hfound⟩ := horderly.called other otherOp reply hentry
    rw [hcall] at hother
    cases hother
    rw [hold] at hfound
    cases hfound
  refine ⟨?_, ?_, ?_, ?_, ?_, ?_, ?_⟩
  · simp only [Config.settle, map_append, map_cons, map_nil]
    exact List.Nodup.append horderly.nodup (nodup_singleton id) (disjoint_singleton.mpr hfresh)
  · intro other otherOp reply hmem
    simp only [Config.settle, ← hphase, hget]
    rcases mem_append.mp hmem with hentry | hnew
    · obtain ⟨otherPhase, hother, hfound⟩ := horderly.called other otherOp reply hentry
      have hne : other ≠ id := by
        rintro rfl
        exact hfresh (mem_map.mpr ⟨_, hentry, rfl⟩)
      exact ⟨otherPhase, (if_neg hne).trans hother, hfound⟩
    · cases mem_singleton.mp hnew
      exact ⟨phase, if_pos rfl, hreply⟩
  · intro other otherOp otherPhase reply hother hfound
    simp only [Config.settle, ← hphase, hget] at hother
    split at hother
    · rename_i heq
      subst heq
      cases hother
      rw [hreply] at hfound
      cases hfound
      exact mem_append_right _ (mem_singleton.mpr rfl)
    · exact mem_append_left _ (horderly.settled other otherOp otherPhase reply hother hfound)
  · intro other otherOp otherPhase hother
    simp only [Config.settle, ← hphase, hget] at hother
    split at hother
    · rename_i heq
      subst heq
      cases hother
      exact horderly.invoked other op old hcall
    · exact horderly.invoked other otherOp otherPhase hother
  · intro other reply hmem
    obtain ⟨otherOp, hentry⟩ := horderly.responded other reply hmem
    exact ⟨otherOp, mem_append_left _ hentry⟩
  · intro first reply second otherOp hsublist hmem
    simp only [Config.settle, map_append, map_cons, map_nil] at hmem ⊢
    rcases mem_append.mp hmem with hentry | hnew
    · exact (horderly.realTime first reply second otherOp hsublist hentry).trans
        (sublist_append_left _ _)
    · cases mem_singleton.mp hnew
      have hrespond : Event.respond first reply ∈ config.history := hsublist.subset mem_cons_self
      obtain ⟨firstOp, hfirst⟩ := horderly.responded first reply hrespond
      have hmemFirst : first ∈ config.order.map Prod.fst := mem_map.mpr ⟨_, hfirst, rfl⟩
      exact List.Sublist.append (singleton_sublist.mpr hmemFirst) (List.Sublist.refl _)
  · simp only [Config.settle, map_append, map_cons, map_nil]
    exact horderly.sequential.concat op

omit horderly

theorem pair_sublist_concat {first second last : α} {events : List α}
    (hsublist : List.Sublist [first, second] (events ++ [last])) :
    List.Sublist [first, second] events ∨ second = last := by
  rcases sublist_append_iff.mp hsublist with ⟨left, right, hsplit, hleft, hright⟩
  cases right with
  | nil =>
    rw [append_nil] at hsplit
    exact .inl (hsplit ▸ hleft)
  | cons event rest =>
    have hlast : second ∈ event :: rest := by
      have hget := congrArg getLast? hsplit
      rw [getLast?_append_of_ne_nil _ (cons_ne_nil event rest)] at hget
      exact mem_of_getLast? hget.symm
    exact .inr (mem_singleton.mp (hright.subset hlast))

theorem call_append {calls : List α} {new call : α}
    (hcall : (calls ++ [new])[id]? = some call) :
    calls[id]? = some call ∨ id = calls.length ∧ call = new := by
  rw [getElem?_append] at hcall
  split at hcall
  · exact .inl hcall
  · obtain ⟨hlt, hget⟩ := List.getElem?_eq_some_iff.mp hcall
    rw [length_singleton] at hlt
    rw [getElem_singleton] at hget
    exact .inr ⟨by omega, hget.symm⟩

private theorem Orderly.invoke (horderly : Orderly object start config) (op : ι)
    {phase : Phase Q A σ ρ} (hphase : phase.reply? = none) :
    Orderly object start { config with
      calls := config.calls ++ [(op, phase)]
      history := config.history ++ [.invoke config.calls.length op] } := by
  have hold : ∀ (id : Nat) call, config.calls[id]? = some call →
      (config.calls ++ [(op, phase)])[id]? = some call := by
    intro id call hcall
    rw [List.getElem?_append_left (List.getElem?_eq_some_iff.mp hcall).1]
    exact hcall
  refine ⟨horderly.nodup, ?_, ?_, ?_, ?_, ?_, horderly.sequential⟩
  · intro id otherOp reply hmem
    obtain ⟨otherPhase, hcall, hreply⟩ := horderly.called id otherOp reply hmem
    exact ⟨otherPhase, hold id _ hcall, hreply⟩
  · intro id otherOp otherPhase reply hcall hreply
    rcases call_append hcall with hcall | ⟨-, hnew⟩
    · exact horderly.settled id otherOp otherPhase reply hcall hreply
    · cases hnew
      rw [hphase] at hreply
      cases hreply
  · intro id otherOp otherPhase hcall
    rcases call_append hcall with hcall | ⟨rfl, hnew⟩
    · exact mem_append_left _ (horderly.invoked id otherOp otherPhase hcall)
    · cases hnew
      exact mem_append_right _ (mem_singleton.mpr rfl)
  · intro id reply hmem
    rcases mem_append.mp hmem with hmem | hnew
    · exact horderly.responded id reply hmem
    · cases mem_singleton.mp hnew
  · intro first reply second otherOp hsublist hmem
    rcases pair_sublist_concat hsublist with hsublist | hnew
    · exact horderly.realTime first reply second otherOp hsublist hmem
    · cases hnew
      -- The new call has not taken effect.
      obtain ⟨⟨id, entryOp, entryReply⟩, hentry, hid⟩ := mem_map.mp hmem
      obtain ⟨otherPhase, hcall, -⟩ := horderly.called id entryOp entryReply hentry
      have hlt := (List.getElem?_eq_some_iff.mp hcall).1
      dsimp only at hid
      omega

variable {reply : ρ}

private theorem Orderly.respond (horderly : Orderly object start config)
    (hcall : config.calls[id]? = some (op, .returning reply)) :
    Orderly object start { config.move id op (.returned reply) with
      history := config.history ++ [.respond id reply] } := by
  have hmoved : Orderly object start (config.move id op (.returned reply)) :=
    horderly.move hcall rfl
  refine ⟨hmoved.nodup, hmoved.called, hmoved.settled, ?_, ?_, ?_, hmoved.sequential⟩
  · exact fun other otherOp phase hother =>
      mem_append_left _ (hmoved.invoked other otherOp phase hother)
  · intro other otherReply hmem
    rcases mem_append.mp hmem with hmem | hnew
    · exact hmoved.responded other otherReply hmem
    · cases mem_singleton.mp hnew
      exact ⟨op, horderly.settled id op _ reply hcall rfl⟩
  · intro first otherReply second otherOp hsublist hmem
    rcases pair_sublist_concat hsublist with hsublist | hnew
    · exact hmoved.realTime first otherReply second otherOp hsublist hmem
    · cases hnew

variable (object) in
def Config.Inside (config : Config Q A σ ι ρ) (id : Nat) : Prop :=
  ∃ op phase, config.calls[id]? = some (op, phase) ∧ phase.inside = true ∧ object.locks op = true

variable (object) in
/-- One call at most holds the lock, and every call at work will end as it would if it
ran alone from now on. -/
structure Sound (start : σ) (config : Config Q A σ ι ρ) : Prop where
  orderly : Orderly object start config
  waiting : ∀ (id : Nat) op, config.calls[id]? = some (op, .locking) → object.locks op = true
  releasing : ∀ (id : Nat) op reply, config.calls[id]? = some (op, .releasing reply) →
    object.locks op = true
  holding : ∀ id, config.Inside object id → config.locked = true
  alone : ∀ id other, config.Inside object id → config.Inside object other → id = other
  fresh : ∀ (id : Nat) op program, config.calls[id]? = some (op, .running false program) →
    program = object.program op
  faithful : ∀ (id : Nat) op program, config.calls[id]? = some (op, .running true program) →
    object.locks op = true ∧ program.eval (object.answer config.state) =
      (object.program op).eval (object.answer config.state)

variable (object) in
/-- What `Sound` says of one call. -/
def Phase.Fits (state : σ) (op : ι) : Phase Q A σ ρ → Prop
  | .locking => object.locks op = true
  | .running false program => program = object.program op
  | .running true program => object.locks op = true ∧
      program.eval (object.answer state) = (object.program op).eval (object.answer state)
  | .releasing _ => object.locks op = true
  | _ => True

private theorem Sound.fits (hsound : Sound object start config) {phase : Phase Q A σ ρ}
    (hcall : config.calls[id]? = some (op, phase)) : phase.Fits object config.state op := by
  cases phase with
  | locking => exact hsound.waiting id op hcall
  | running started program =>
    cases started with
    | false => exact hsound.fresh id op program hcall
    | true => exact hsound.faithful id op program hcall
  | releasing reply => exact hsound.releasing id op reply hcall
  | returning | returned => exact trivial

theorem Sound.of_fits (horderly : Orderly object start config)
    (hholding : ∀ id, config.Inside object id → config.locked = true)
    (halone : ∀ id other, config.Inside object id → config.Inside object other → id = other)
    (hfits : ∀ (id : Nat) op phase, config.calls[id]? = some (op, phase) →
      phase.Fits object config.state op) : Sound object start config where
  orderly := horderly
  waiting id op hcall := hfits id op _ hcall
  releasing id op _ hcall := hfits id op _ hcall
  holding := hholding
  alone := halone
  fresh id op _ hcall := hfits id op _ hcall
  faithful id op _ hcall := hfits id op _ hcall

section
variable (hcall : config.calls[id]? = some (op, old))
include hcall

variable {other : Nat}

theorem inside_move (hinside : (config.move id op phase).Inside object other) :
    other = id ∧ phase.inside = true ∧ object.locks op = true ∨
      other ≠ id ∧ config.Inside object other := by
  obtain ⟨otherOp, otherPhase, hother, hphase, hlocks⟩ := hinside
  simp only [Config.move, getElem?_set_of_some hcall] at hother
  split at hother
  · rename_i heq
    cases hother
    exact .inl ⟨heq, hphase, hlocks⟩
  · rename_i hne
    exact .inr ⟨hne, otherOp, otherPhase, hother, hphase, hlocks⟩

theorem inside_move_of_inside (hphase : phase.inside = true → old.inside = true)
    (hinside : (config.move id op phase).Inside object other) : config.Inside object other := by
  rcases inside_move hcall hinside with ⟨rfl, hnew, hlocks⟩ | ⟨-, hother⟩
  · exact ⟨op, old, hcall, hphase hnew, hlocks⟩
  · exact hother

theorem call_move {otherOp : ι} {otherPhase : Phase Q A σ ρ}
    (hother : (config.calls.set id (op, phase))[other]? = some (otherOp, otherPhase)) :
    otherOp = op ∧ otherPhase = phase ∨ config.calls[other]? = some (otherOp, otherPhase) := by
  rw [getElem?_set_of_some hcall] at hother
  split at hother
  · cases hother
    exact .inl ⟨rfl, rfl⟩
  · exact .inr hother

end

variable {program : Program Q A (Finish σ ρ)} {started : Bool}

section
variable (hsound : Sound object start config)
include hsound

variable {config' : Config Q A σ ι ρ}

theorem Sound.of_inside (hlocked : config'.locked = config.locked)
    (hinside : ∀ other, config'.Inside object other → config.Inside object other)
    (horderly : Orderly object start config')
    (hfits : ∀ (id : Nat) op phase, config'.calls[id]? = some (op, phase) →
      phase.Fits object config'.state op) : Sound object start config' :=
  .of_fits horderly (fun other hother => hlocked.trans (hsound.holding other (hinside other hother)))
    (fun first second hfirst hsecond =>
      hsound.alone first second (hinside first hfirst) (hinside second hsecond)) hfits

variable (hcall : config.calls[id]? = some (op, .running started program))
include hcall

private theorem Sound.settle
    (hothers : (object.exec op config.state).2 = config.state ∨ ∀ other otherOp otherProgram,
      config.calls[other]? = some (otherOp, .running true otherProgram) → other = id) :
    Sound object start (config.settle object id op (object.exec op config.state)) := by
  have hinside : ∀ other, (config.settle object id op (object.exec op config.state)).Inside object
      other → config.Inside object other := fun other hother =>
    inside_move_of_inside hcall (fun _ => rfl) hother
  refine hsound.of_inside rfl hinside (hsound.orderly.settle hcall rfl) ?_
  intro other otherOp phase hother
  simp only [Config.settle] at hother ⊢
  rw [getElem?_set_of_some hcall] at hother
  split at hother
  · cases hother
    split
    · assumption
    · exact trivial
  · rename_i hne
    rcases hothers with hstate | hnone
    · rw [hstate]
      exact hsound.fits hother
    · have hfits := hsound.fits hother
      cases phase with
      | running started otherProgram =>
        cases started with
        | false => exact hfits
        | true => exact absurd (hnone other otherOp otherProgram hother) hne
      | locking | releasing | returning | returned => exact hfits

theorem Sound.continue (hlocks : object.locks op = true) {next : Program Q A (Finish σ ρ)}
    (heval : next.eval (object.answer config.state) =
      (object.program op).eval (object.answer config.state)) :
    Sound object start (config.move id op (.running true next)) := by
  have hinside : ∀ other, (config.move id op (.running true next)).Inside object other →
      config.Inside object other := fun other hother =>
    inside_move_of_inside hcall (fun _ => rfl) hother
  refine hsound.of_inside rfl hinside (hsound.orderly.move hcall rfl) ?_
  intro other otherOp phase hother
  rcases call_move hcall hother with ⟨rfl, rfl⟩ | hother
  · exact ⟨hlocks, heval⟩
  · exact hsound.fits hother

theorem Sound.eval_eq :
    program.eval (object.answer config.state) =
      (object.program op).eval (object.answer config.state) := by
  cases started with
  | false => rw [hsound.fresh id op program hcall]
  | true => exact (hsound.faithful id op program hcall).2

private theorem Sound.act (hsingle : ∀ op, object.locks op = false → SingleStep (object.program op))
    (hadmits : Admits object (.act id) config) :
    Sound object start (config.act object id op program) := by
  have heval := hsound.eval_eq hcall
  cases program with
  | finish finish =>
    have hexec : finish.apply config.state = object.exec op config.state := by
      unfold Object.exec
      rw [← heval]
      rfl
    simp only [Config.act]
    rw [hexec]
    refine hsound.settle hcall ?_
    cases hlocks : object.locks op with
    | true =>
      refine .inr fun other otherOp otherProgram hother => ?_
      exact hsound.alone other id
        ⟨otherOp, _, hother, rfl, (hsound.faithful other otherOp otherProgram hother).1⟩
        ⟨op, _, hcall, rfl, hlocks⟩
    | false =>
      cases finish with
      | reply value =>
        rw [← hexec]
        exact .inl rfl
      | update action =>
        exact .inr fun other otherOp otherProgram hother =>
          absurd hother (hadmits op started action hcall hlocks other otherOp otherProgram)
  | ask query next =>
    have hnext : (next (object.answer config.state query)).eval (object.answer config.state) =
        (object.program op).eval (object.answer config.state) := heval
    have hlocks : ∀ program, next (object.answer config.state query) = program →
        (∀ value, program ≠ .finish (.reply value)) → object.locks op = true := by
      intro program hprogram hreply
      cases hlocks : object.locks op with
      | true => rfl
      | false =>
        cases started with
        | true =>
          have hlocked := (hsound.faithful id op _ hcall).1
          rw [hlocks] at hlocked
          cases hlocked
        | false =>
          have hone := hsingle op hlocks
          rw [← hsound.fresh id op _ hcall] at hone
          obtain ⟨value, hvalue⟩ := hone (object.answer config.state query)
          exact absurd (hprogram.symm.trans hvalue) (hreply value)
    simp only [Config.act]
    split
    · rename_i value hvalue
      have hexec : object.exec op config.state = (value, config.state) := by
        unfold Object.exec
        rw [← hnext, hvalue]
        rfl
      rw [← hexec]
      refine hsound.settle hcall (.inl ?_)
      rw [hexec]
    · rename_i program hreply
      exact hsound.continue hcall (hlocks _ rfl hreply) hnext

omit hcall

theorem Sound.pass (hcall : config.calls[id]? = some (op, old))
    (hcalls : config'.calls = config.calls.set id (op, phase))
    (hphase : phase.Fits object config.state op) (hstate : config'.state = config.state)
    (horderly : Orderly object start config')
    (hholding : ∀ other, config'.Inside object other → config'.locked = true)
    (halone : ∀ first second, config'.Inside object first → config'.Inside object second →
      first = second) : Sound object start config' := by
  refine .of_fits horderly hholding halone fun other otherOp otherPhase hother => ?_
  rw [hcalls] at hother
  rw [hstate]
  rcases call_move hcall hother with ⟨rfl, rfl⟩ | hother
  · exact hphase
  · exact hsound.fits hother

theorem Sound.acquire (hcall : config.calls[id]? = some (op, .locking))
    (hfree : config.locked = false) :
    Sound object start
      { config.move id op (.running false (object.program op)) with locked := true } := by
  have honly : ∀ other, Config.Inside object
      { config.move id op (.running false (object.program op)) with locked := true } other →
        other = id := by
    intro other hother
    rcases inside_move hcall hother with ⟨heq, -⟩ | ⟨-, hinside⟩
    · exact heq
    · have hlocked := hsound.holding other hinside
      rw [hfree] at hlocked
      cases hlocked
  have horderly : Orderly object start (config.move id op (.running false (object.program op))) :=
    hsound.orderly.move hcall rfl
  refine hsound.pass hcall rfl rfl rfl (horderly.locked true) (fun _ _ => rfl) ?_
  intro first second hfirst hsecond
  rw [honly first hfirst, honly second hsecond]

private theorem Sound.release (hcall : config.calls[id]? = some (op, .releasing reply)) :
    Sound object start { config.move id op (.returning reply) with locked := false } := by
  have hnone : ∀ other, ¬ Config.Inside object
      { config.move id op (.returning reply) with locked := false } other := by
    intro other hother
    rcases inside_move hcall hother with ⟨-, hphase, -⟩ | ⟨hne, hinside⟩
    · cases hphase
    · exact hne (hsound.alone other id hinside
        ⟨op, _, hcall, rfl, hsound.releasing id op reply hcall⟩)
  have horderly : Orderly object start (config.move id op (.returning reply)) :=
    hsound.orderly.move hcall rfl
  exact hsound.pass hcall rfl trivial rfl (horderly.locked false)
    (fun other hother => absurd hother (hnone other))
    (fun first _ hfirst => absurd hfirst (hnone first))

private theorem Sound.respond (hcall : config.calls[id]? = some (op, .returning reply)) :
    Sound object start { config.move id op (.returned reply) with
      history := config.history ++ [.respond id reply] } := by
  have hinside : ∀ other, Config.Inside object { config.move id op (.returned reply) with
      history := config.history ++ [.respond id reply] } other → config.Inside object other := by
    intro other hother
    rcases inside_move hcall hother with ⟨-, hphase, -⟩ | ⟨-, hinside⟩
    · cases hphase
    · exact hinside
  exact hsound.pass hcall rfl trivial rfl (hsound.orderly.respond hcall)
    (fun other hother => hsound.holding other (hinside other hother))
    (fun first second hfirst hsecond =>
      hsound.alone first second (hinside first hfirst) (hinside second hsecond))

private theorem Sound.invoke (op : ι) :
    Sound object start (Linearize.next object (.invoke op) config) := by
  have hphase : Phase.reply? (if object.locks op then .locking else
      .running false (object.program op) : Phase Q A σ ρ) = none := by
    split <;> rfl
  have hinside : ∀ other, (Linearize.next object (.invoke op) config).Inside object other →
      config.Inside object other := by
    rintro other ⟨otherOp, phase, hcall, hphase, hlocks⟩
    rcases call_append hcall with hcall | ⟨-, hnew⟩
    · exact ⟨otherOp, phase, hcall, hphase, hlocks⟩
    · cases hnew
      rw [if_pos hlocks] at hphase
      cases hphase
  refine hsound.of_inside rfl hinside (hsound.orderly.invoke op hphase) ?_
  intro other otherOp phase hcall
  rcases call_append hcall with hcall | ⟨-, hnew⟩
  · exact hsound.fits hcall
  · obtain ⟨rfl, rfl⟩ := Prod.mk.inj hnew
    split
    · assumption
    · rfl

theorem Sound.next (hsingle : ∀ op, object.locks op = false → SingleStep (object.program op))
    {step : Step ι} (hadmits : Admits object step config) :
    Sound object start (next object step config) := by
  cases step <;> simp only [Linearize.next]
  case invoke op => exact hsound.invoke op
  case acquire id =>
    split
    · next hcall hfree => exact hsound.acquire hcall hfree
    · exact hsound
  case act id =>
    split
    · next hcall => exact hsound.act hcall hsingle hadmits
    · exact hsound
  case release id =>
    split
    · next hcall => exact hsound.release hcall
    · exact hsound
  case respond id =>
    split
    · next hcall => exact hsound.respond hcall
    · exact hsound

end

variable (object) in
theorem sound_start (start : σ) : Sound object start (Config.start start) := by
  have hnone : ∀ (id : Nat) call, (Config.start start : Config Q A σ ι ρ).calls[id]? ≠ some call := by
    intro id call hcall
    cases hcall
  have hempty : ∀ id, ¬ (Config.start start : Config Q A σ ι ρ).Inside object id :=
    fun id ⟨op, phase, hcall, _⟩ => hnone id _ hcall
  refine .of_fits ⟨nodup_nil, ?_, ?_, ?_, ?_, ?_, rfl⟩ ?_ ?_ ?_
  · exact fun id op reply hmem => absurd hmem not_mem_nil
  · exact fun id op phase reply hcall => absurd hcall (hnone id _)
  · exact fun id op phase hcall => absurd hcall (hnone id _)
  · exact fun id reply hmem => absurd hmem not_mem_nil
  · exact fun first reply second op _ hmem => absurd hmem not_mem_nil
  · exact fun id hinside => absurd hinside (hempty id)
  · exact fun id other hinside => absurd hinside (hempty id)
  · exact fun id op phase hcall => absurd hcall (hnone id _)

theorem linearizable_finalState
    (hsingle : ∀ op, object.locks op = false → SingleStep (object.program op)) (start : σ)
    {steps : List (Step ι)}
    (hadmits : Simulation.Guarded (Linearize.next object) (Admits object) steps (Config.start start)) :
    Linearizable object.exec start
      (Simulation.finalState (Linearize.next object) steps (Config.start start)).history
      (Simulation.finalState (Linearize.next object) steps (Config.start start)).state := by
  have hstep : ∀ step config, Sound object start config → Admits object step config →
      Sound object start (Linearize.next object step config) :=
    fun step config hsound hguard => hsound.next hsingle hguard
  exact (Simulation.invariant_finalState hstep (sound_start object start)
    hadmits).orderly.linearizable

end Linearize
