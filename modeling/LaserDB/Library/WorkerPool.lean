import LaserDB.Library.Simulation

/-!
# A pool of workers

Tasks wait in a queue, and an idle worker takes the first.  An instruction may stand for others,
which the worker does next; workers interleave in any way.
-/

namespace WorkerPool

open Multiset (coe_add coe_nil ofList)
open Function List Multiset Finset

instance neZeroOne : NeZero 1 := ⟨by decide⟩

instance neZeroTwo : NeZero 2 := ⟨by decide⟩

/-- The instructions of a task, and what one instruction does to the shared state: the state
afterwards, and the instructions that it stands for from then on.  What the step meets outside of
the state is its second argument. -/
structure Machine (σ ω τ ι : Type) where
  start : τ → List ι
  step : σ → ω → ι → σ × List ι

structure Pool (count : Nat) (σ τ ι : Type) where
  state : σ
  queue : List τ
  workers : Fin count → List ι

inductive Action (count : Nat) (ω τ : Type) where
  | submit (task : τ)
  | run (worker : Fin count) (met : ω)

variable {count : Nat} {σ ω τ ι : Type}

def Pool.start (state : σ) : Pool count σ τ ι := ⟨state, [], fun _ => []⟩

def Pool.step (machine : Machine σ ω τ ι) (pool : Pool count σ τ ι) :
    Action count ω τ → Pool count σ τ ι
  | .submit task => { pool with queue := pool.queue ++ [task] }
  | .run worker met =>
    match pool.workers worker with
    | [] =>
      match pool.queue with
      | [] => pool
      | task :: queue =>
        ⟨pool.state, queue, update pool.workers worker (machine.start task)⟩
    | instruction :: rest =>
      let result := machine.step pool.state met instruction
      ⟨result.1, pool.queue, update pool.workers worker (result.2 ++ rest)⟩

def Pool.run (machine : Machine σ ω τ ι) (pool : Pool count σ τ ι) (actions : List (Action count ω τ)) :
    Pool count σ τ ι :=
  Simulation.finalState (fun action pool => pool.step machine action) actions pool

def submitted (actions : List (Action count ω τ)) : List τ :=
  actions.filterMap fun
    | .submit task => some task
    | .run _ _ => none

def Pool.Idle (pool : Pool count σ τ ι) : Prop := ∀ worker, pool.workers worker = []

def Pool.Finished (pool : Pool count σ τ ι) : Prop := pool.queue = [] ∧ pool.Idle

instance (pool : Pool count σ τ ι) : Decidable pool.Finished :=
  inferInstanceAs (Decidable (_ ∧ ∀ worker, pool.workers worker = []))

def Pool.Takes (pool : Pool count σ τ ι) : Action count ω τ → Prop
  | .submit _ => False
  | .run worker _ => pool.workers worker = [] ∧ pool.queue ≠ []

def Serial (machine : Machine σ ω τ ι) (pool : Pool count σ τ ι) (actions : List (Action count ω τ)) :
    Prop :=
  Simulation.Guarded (fun action pool => pool.step machine action)
    (fun action pool => pool.Takes action → pool.Idle) actions pool

instance decidableTakes (pool : Pool count σ τ ι) :
    (action : Action count ω τ) → Decidable (pool.Takes action)
  | .submit _ => isFalse id
  | .run _ _ => inferInstanceAs (Decidable (_ ∧ _))

instance decidableSerial (machine : Machine σ ω τ ι) (pool : Pool count σ τ ι)
    (actions : List (Action count ω τ)) : Decidable (Serial machine pool actions) :=
  have (action : Action count ω τ) (pool : Pool count σ τ ι) :
      Decidable (pool.Takes action → pool.Idle) :=
    inferInstanceAs (Decidable (pool.Takes action → ∀ worker, pool.workers worker = []))
  Simulation.decidableGuarded _ _ actions pool

theorem serial_of_one_worker (machine : Machine σ ω τ ι) (pool : Pool 1 σ τ ι)
    (actions : List (Action 1 ω τ)) : Serial machine pool actions := by
  induction actions generalizing pool with
  | nil => trivial
  | cons action actions ih =>
    refine ⟨?_, ih _⟩
    cases action with
    | submit task => exact False.elim
    | run worker met =>
      rintro ⟨hidle, -⟩ other
      rw [Subsingleton.elim other worker, hidle]

variable {machine : Machine σ ω τ ι} {pool : Pool count σ τ ι} {actions : List (Action count ω τ)}

section
def Pool.steps (pool : Pool count σ τ ι) : Multiset ι :=
  ∑ worker, ofList (pool.workers worker)

theorem Pool.steps_start (state : σ) : (Pool.start state : Pool count σ τ ι).steps = 0 :=
  sum_eq_zero fun _ _ => rfl

theorem Pool.steps_of_idle (hidle : pool.Idle) : pool.steps = 0 :=
  sum_eq_zero fun worker _ => by rw [hidle worker]; rfl

theorem Pool.steps_update (pool : Pool count σ τ ι) (worker : Fin count) :
    ∃ others, pool.steps = ofList (pool.workers worker) + others ∧
      ∀ (state : σ) (queue : List τ) (instructions : List ι),
        Pool.steps ⟨state, queue, update pool.workers worker instructions⟩ =
          ofList instructions + others := by
  refine ⟨∑ other ∈ univ.erase worker, ofList (pool.workers other),
    (add_sum_erase _ _ (mem_univ worker)).symm, fun state queue instructions => ?_⟩
  rw [Pool.steps, ← add_sum_erase _ _ (mem_univ worker)]
  dsimp only
  rw [update_self]
  refine congrArg _ (sum_congr rfl fun other hother => ?_)
  rw [update_of_ne (ne_of_mem_erase hother)]

/-- What an action does: a task is taken, or one of the instructions is done. -/
theorem Pool.step_cases (machine : Machine σ ω τ ι) (pool : Pool count σ τ ι)
    (action : Action count ω τ) :
    (pool.step machine action).state = pool.state ∧
        ((pool.step machine action).steps = pool.steps ∨ ∃ task,
          (pool.step machine action).steps = ofList (machine.start task) + pool.steps) ∨
      ∃ worker met instruction others, action = .run worker met ∧
        instruction ∈ (pool.workers worker).head? ∧ pool.steps = instruction ::ₘ others ∧
        (pool.step machine action).state = (machine.step pool.state met instruction).1 ∧
        (pool.step machine action).steps =
          ofList (machine.step pool.state met instruction).2 + others := by
  cases action with
  | submit task => exact .inl ⟨rfl, .inl rfl⟩
  | run worker met =>
    obtain ⟨others, hsteps, hupdate⟩ := pool.steps_update worker
    simp only [Pool.step]
    cases hworker : pool.workers worker with
    | nil =>
      cases hqueue : pool.queue with
      | nil => exact .inl ⟨rfl, .inl rfl⟩
      | cons task queue =>
        refine .inl ⟨rfl, .inr ⟨task, ?_⟩⟩
        rw [hupdate, hsteps, hworker, coe_nil, zero_add]
    | cons instruction rest =>
      refine .inr ⟨worker, met, instruction, ofList rest + others, rfl, ?_, ?_, rfl, ?_⟩
      · rw [hworker]
        rfl
      · rw [hsteps, hworker, ← cons_coe, cons_add]
      · rw [hupdate, ← coe_add, add_assoc]

/-- A condition on the instructions that are done, on the state and on what the workers have before
them then. -/
def Pool.Allowed (allowed : σ → Multiset ι → ω → ι → Prop) :
    Action count ω τ → Pool count σ τ ι → Prop
  | .submit _, _ => True
  | .run worker met, pool =>
    ∀ instruction ∈ (pool.workers worker).head?, allowed pool.state pool.steps met instruction

instance (allowed : σ → Multiset ι → ω → ι → Prop)
    [∀ state steps met instruction, Decidable (allowed state steps met instruction)] :
    ∀ (action : Action count ω τ) (pool : Pool count σ τ ι),
      Decidable (Pool.Allowed allowed action pool)
  | .submit _, _ => isTrue trivial
  | .run worker met, pool =>
    inferInstanceAs (Decidable (∀ instruction ∈ (pool.workers worker).head?,
      allowed pool.state pool.steps met instruction))

variable {invariant : σ → Multiset ι → Prop}
  (htask : ∀ state steps task, invariant state steps → invariant state (ofList (machine.start task) + steps))
include htask

/-- What every task and every allowed instruction preserves holds after every allowed run. -/
theorem Pool.invariant_run {allowed : σ → Multiset ι → ω → ι → Prop}
    (hstep : ∀ state met instruction others, invariant state (instruction ::ₘ others) →
      allowed state (instruction ::ₘ others) met instruction →
      invariant (machine.step state met instruction).1
        (ofList (machine.step state met instruction).2 + others))
    (hstart : invariant pool.state pool.steps)
    (hallowed : Simulation.Guarded (fun action pool => pool.step machine action)
      (Pool.Allowed allowed) actions pool) :
    invariant (pool.run machine actions).state (pool.run machine actions).steps := by
  refine @Simulation.invariant_finalState _ _ _ _ _ _
    (fun pool => invariant pool.state pool.steps) ?_ hstart hallowed
  intro action pool hpool hguard
  rcases pool.step_cases machine action with
    ⟨hstate, hsteps | ⟨task, hsteps⟩⟩ | ⟨worker, met, instruction, others, rfl, hhead, hsteps,
      hstate, hnext⟩
  · rw [hstate, hsteps]
    exact hpool
  · rw [hstate, hsteps]
    exact htask _ _ task hpool
  · have hinstruction := hguard instruction hhead
    rw [hstate, hnext]
    rw [hsteps] at hpool hinstruction
    exact hstep _ met instruction others hpool hinstruction

theorem Pool.invariant_run_all
    (hstep : ∀ state met instruction others, invariant state (instruction ::ₘ others) →
      invariant (machine.step state met instruction).1
        (ofList (machine.step state met instruction).2 + others))
    (hstart : invariant pool.state pool.steps) :
    invariant (pool.run machine actions).state (pool.run machine actions).steps := by
  have hallowed : Simulation.Guarded (fun action pool => pool.step machine action)
      (Pool.Allowed fun _ _ _ _ => True) actions pool := by
    refine Simulation.Guarded.of_forall (fun action pool => ?_) actions pool
    cases action with
    | submit task => exact trivial
    | run worker met => exact fun _ _ => trivial
  exact Pool.invariant_run htask (fun state met instruction others hbefore _ =>
    hstep state met instruction others hbefore) hstart hallowed

end

variable {ν : Type} {view : σ → ν} {perform : ι → ν → ν}

def performAll (perform : ι → ν → ν) (instructions : List ι) (value : ν) : ν :=
  instructions.foldl (fun value next => perform next value) value

theorem performAll_append (perform : ι → ν → ν) (first second : List ι) (value : ν) :
    performAll perform (first ++ second) value =
      performAll perform second (performAll perform first value) := foldl_append

def performTasks (machine : Machine σ ω τ ι) (perform : ι → ν → ν) (tasks : List τ) (value : ν) : ν :=
  performAll perform (tasks.flatMap machine.start) value

theorem performTasks_append (machine : Machine σ ω τ ι) (perform : ι → ν → ν) (first second : List τ)
    (value : ν) :
    performTasks machine perform (first ++ second) value =
      performTasks machine perform second (performTasks machine perform first value) := by
  rw [performTasks, flatMap_append, performAll_append]
  rfl

theorem performTasks_cons (machine : Machine σ ω τ ι) (perform : ι → ν → ν) (task : τ)
    (tasks : List τ) (value : ν) :
    performTasks machine perform (task :: tasks) value =
      performTasks machine perform tasks (performAll perform (machine.start task) value) := by
  rw [performTasks, flatMap_cons, performAll_append]
  rfl

def Meaning (machine : Machine σ ω τ ι) (view : σ → ν) (perform : ι → ν → ν) : Prop :=
  ∀ state met instruction, performAll perform (machine.step state met instruction).2
        (view (machine.step state met instruction).1) =
      perform instruction (view state)

def Pool.Left (pool : Pool count σ τ ι) (left : List ι) : Prop :=
  pool.Idle ∧ left = [] ∨
    ∃ worker, pool.workers worker = left ∧ ∀ other ≠ worker, pool.workers other = []

def Pool.Leads (machine : Machine σ ω τ ι) (view : σ → ν) (perform : ι → ν → ν)
    (pool : Pool count σ τ ι) (final : ν) : Prop :=
  ∃ left, pool.Left left ∧
    performTasks machine perform pool.queue (performAll perform left (view pool.state)) = final

variable {left : List ι} {worker : Fin count}

theorem Pool.Left.of_busy (hleft : pool.Left left) {instruction : ι} {rest : List ι}
    (hbusy : pool.workers worker = instruction :: rest) :
    left = instruction :: rest ∧ ∀ other ≠ worker, pool.workers other = [] := by
  rcases hleft with ⟨hidle, -⟩ | ⟨owner, howner, hothers⟩
  · rw [hidle worker] at hbusy
    cases hbusy
  · have hsame : worker = owner := by
      by_contra hne
      rw [hothers worker hne] at hbusy
      cases hbusy
    subst hsame
    exact ⟨howner.symm.trans hbusy, hothers⟩

theorem Pool.Left.of_idle (hleft : pool.Left left) (hidle : pool.Idle) : left = [] := by
  rcases hleft with ⟨-, hnil⟩ | ⟨owner, howner, -⟩
  · exact hnil
  · rw [← howner, hidle owner]

theorem Pool.left_update (hothers : ∀ other ≠ worker, pool.workers other = []) (state : σ)
    (queue : List τ) : Pool.Left ⟨state, queue, update pool.workers worker left⟩ left := by
  refine .inr ⟨worker, update_self .., fun other hne => ?_⟩
  exact (update_of_ne hne ..).trans (hothers other hne)

/-- A step leaves where the pool leads to, and a task that comes is put at the end. -/
theorem Pool.leads_step (hmeaning : Meaning machine view perform) {action : Action count ω τ}
    {final : ν} (hserial : pool.Takes action → pool.Idle)
    (hleads : pool.Leads machine view perform final) :
    (pool.step machine action).Leads machine view perform
      (performTasks machine perform (submitted [action]) final) := by
  obtain ⟨left, hleft, hfinal⟩ := hleads
  cases action with
  | submit task =>
    refine ⟨left, hleft, ?_⟩
    rw [← hfinal, ← performTasks_append]
    rfl
  | run worker met =>
    show (pool.step machine (.run worker met)).Leads machine view perform final
    simp only [Pool.step]
    cases hworker : pool.workers worker with
    | nil =>
      cases hqueue : pool.queue with
      | nil => exact ⟨left, hleft, hfinal⟩
      | cons task queue =>
        have hidle := hserial ⟨hworker, by rw [hqueue]; exact cons_ne_nil _ _⟩
        refine ⟨machine.start task, Pool.left_update (fun other _ => hidle other) _ _, ?_⟩
        rw [← hfinal, hleft.of_idle hidle, hqueue, performTasks_cons]
        rfl
    | cons instruction rest =>
      obtain ⟨rfl, hothers⟩ := hleft.of_busy hworker
      refine ⟨_, Pool.left_update hothers _ _, ?_⟩
      rw [← hfinal, performAll_append, hmeaning]
      rfl

theorem submitted_cons (action : Action count ω τ) (actions : List (Action count ω τ)) :
    submitted (action :: actions) = submitted [action] ++ submitted actions := by
  cases action <;> rfl

theorem Pool.leads_run (hmeaning : Meaning machine view perform) {final : ν}
    (hserial : Serial machine pool actions) (hleads : pool.Leads machine view perform final) :
    (pool.run machine actions).Leads machine view perform
      (performTasks machine perform (submitted actions) final) := by
  induction actions generalizing pool final with
  | nil => exact hleads
  | cons action actions ih =>
    rw [submitted_cons, performTasks_append]
    exact ih hserial.2 (Pool.leads_step hmeaning hserial.1 hleads)

theorem view_of_finished (hmeaning : Meaning machine view perform) {state : σ}
    (hserial : Serial machine (Pool.start state) actions)
    (hfinished : ((Pool.start state).run machine actions).Finished) :
    view ((Pool.start state).run machine actions).state =
      performTasks machine perform (submitted actions) (view state) := by
  have hstart : (@Pool.start count σ τ ι state).Leads machine view perform (view state) :=
    ⟨[], .inl ⟨fun _ => rfl, rfl⟩, rfl⟩
  obtain ⟨left, hleft, hfinal⟩ := Pool.leads_run hmeaning hserial hstart
  rw [hleft.of_idle hfinished.2, hfinished.1] at hfinal
  exact hfinal

end WorkerPool
