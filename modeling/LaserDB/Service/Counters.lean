import LaserDB.Refinement.Healed

/-!
# Counters

`incrBy` and `decrBy` take a signed step and hand it to the engine as an unsigned number.
-/

namespace LaserDB.Counters

open RocksDbEngine Simulation

inductive CounterCall
  | incrBy (step : Int64)
  | decrBy (step : Int64)

def CounterCall.call (key : LaserKey) : CounterCall → Call
  | incrBy step => .incr key step.toUInt64
  | decrBy step => .decr key step.toUInt64

def CounterCall.amount : CounterCall → Int
  | incrBy step => step.toInt
  | decrBy step => -step.toInt

structure State where
  engine : RocksDbEngine
  total : Int

section
variable (key : LaserKey) (input : Env × CounterCall) (state : State)

def State.exact : Int := state.total + input.2.amount

def answerOf : Reply × RocksDbEngine := (input.2.call key).exec input.1 state.engine

def next : State where
  engine := (answerOf key input state).2
  total := if (answerOf key input state).1.1 = .OK then state.exact input else state.total

def Fits (number : Int) : Prop := -2 ^ 63 ≤ number ∧ number < 2 ^ 63

/-- Only an exact sum that fits is answered, and a call that fails leaves the engine as it was. -/
def Exact : Prop :=
  let (reply, engine) := answerOf key input state
  (reply.1 = .OK → ∃ number, reply.2 = .number number ∧ number.toInt = state.exact input) ∧
    (reply.1 ≠ .OK → engine = state.engine)

def Holds : Prop :=
  state.engine.ttl = 0 ∧ ∃ found : Option LaserValueCounter,
    (slot state.engine.db.store key).Finds LaserValueCounter.new found ∧
      ((found.map LaserValueCounter.value).getD 0).toInt = state.total

end

section
variable {key : LaserKey} {input : Env × CounterCall} {state : State}

theorem answerOf_eq : answerOf key input state =
    answer .number (state.engine.setCounterByStep input.1 (getFormatKey key)
      (.ofInt input.2.amount)) := by
  obtain ⟨env, step | step⟩ := input <;>
    simp [answerOf, CounterCall.call, Call.exec, incr, decr, CounterCall.amount]

theorem setCounterByStep_failed {engine : RocksDbEngine} {env : Env}
    {key : LaserKeyFormatBase} {step : Int64}
    (hfailed : (engine.setCounterByStep env key step).1 ≠ .OK) :
    (engine.setCounterByStep env key step).2.2 = engine := by
  unfold setCounterByStep commit ReplicationDB.write at *
  cases hplan : engine.setCounterByStepPlan env key step with
  | error status => rfl
  | ok result =>
    simp only [hplan] at hfailed ⊢
    split_ifs at hfailed ⊢ with hrole
    · rfl
    · cases hfault : env.writeFault <;> simp_all [convertRocksDbStatus]

theorem finds_counter {slot : Slot} {timestamp : UInt64} {value : Int64}
    (hhead : slot.head = some (counterBytes timestamp value)) : ∃ found : Option LaserValueCounter,
      slot.Finds LaserValueCounter.new found ∧ (found.map (·.value)).getD 0 = value := by
  obtain ⟨buffer, hdecode⟩ := counter_decode
    (LaserValue.setRawBuffer LaserValueCounter.new (counterBytes timestamp value)) rfl
  exact ⟨some _, ⟨_, hhead, hdecode⟩, rfl⟩

theorem answerOf_ok (hholds : Holds key state) (hok : (answerOf key input state).1.1 = .OK) :
    ∃ store, answerOf key input state =
        ((.OK, .number (.ofInt (state.exact input))), state.engine.withStore store) ∧
      (slot store key).head = some (counterBytes 0 (.ofInt (state.exact input))) := by
  obtain ⟨httl, found, hfinds, htotal⟩ := hholds
  have hstamps : (input.2.call key).Stamps = true := by
    rcases input with ⟨env, step | step⟩ <;> rfl
  obtain ⟨hleader, heq⟩ := exec_healed hstamps hok
  have hsum : (found.map (·.value)).getD 0 + .ofInt input.2.amount =
      Int64.ofInt (state.exact input) := by
    rw [State.exact, Int64.ofInt_add, ← htotal, Int64.ofInt_toInt]
  refine ⟨(batchOf key (counterWrites (state.engine.stamp input.1.healed 0) (.ofInt input.2.amount)
    found (slot state.engine.db.store key))).apply state.engine.db.store,
    (heq.trans (@answerOf_eq key (input.1.healed, input.2) state)).trans ?_, ?_⟩
  · rw [setCounterByStep, plan_counter input.1.healed_healthy, Slot.plan_of_finds hfinds,
      commit_ok input.1.healed_healthy hleader, hsum]
    rfl
  · rw [slot_batch_self, counterWrites, hsum, stamp_of_noTtl _ _ httl]
    rfl

theorem step_exact (hholds : Holds key state) (hfits : Fits (state.exact input)) :
    Exact key input state ∧ Holds key (next key input state) := by
  by_cases hok : (answerOf key input state).1.1 = .OK
  · obtain ⟨store, heq, hhead⟩ := answerOf_ok hholds hok
    have hnumber : (Int64.ofInt (state.exact input)).toInt = state.exact input :=
      Int64.toInt_ofInt_of_le hfits.1 hfits.2
    obtain ⟨found, hfinds, hvalue⟩ := finds_counter hhead
    refine ⟨?_, ?_⟩
    · simp only [Exact, heq]
      exact ⟨fun _ => ⟨_, rfl, hnumber⟩, fun hne => absurd rfl hne⟩
    · simp only [Holds, next, heq, if_pos]
      exact ⟨hholds.1, found, hfinds, (congrArg Int64.toInt hvalue).trans hnumber⟩
  · have hsame : (answerOf key input state).2 = state.engine := by
      rw [answerOf_eq] at hok ⊢
      exact setCounterByStep_failed hok
    refine ⟨⟨fun hreply => absurd hreply hok, fun _ => hsame⟩, ?_⟩
    simp only [Holds, next, hsame, if_neg hok]
    exact hholds

end

theorem counters_exact (key : LaserKey) (engine : RocksDbEngine) (inputs : List (Env × CounterCall))
    (httl : engine.ttl = 0) (hnew : (slot engine.db.store key).head = none)
    (hfits : Guarded (next key) (fun input state => Fits (state.exact input)) inputs ⟨engine, 0⟩) :
    Guarded (next key) (Exact key) inputs ⟨engine, 0⟩ := by
  have hstart : Holds key ⟨engine, 0⟩ := ⟨httl, none, hnew, rfl⟩
  exact Guarded.of_invariant (fun _ _ hholds hfits => step_exact hholds hfits) hstart hfits

theorem counters_exact_negative : Guarded (next ⟨[[97]], []⟩) (Exact ⟨[[97]], []⟩)
    [(Env.at 1, .incrBy (-5)), (Env.at 1, .decrBy (-7))] ⟨RocksDbEngine.fresh, 0⟩ :=
  counters_exact ⟨[[97]], []⟩ RocksDbEngine.fresh _ rfl rfl (by simp only [Guarded, Fits]; decide)

/-- One more than the largest counter is answered as the smallest one. -/
theorem counter_wraps :
    let key : LaserKey := ⟨[[97]], []⟩
    let full := next key (Env.at 1, .incrBy Int64.maxValue) ⟨RocksDbEngine.fresh, 0⟩
    let input := (Env.at 1, .incrBy 1)
    full.exact input = 2 ^ 63 ∧
      (answerOf key input full).1 = (.OK, .number Int64.minValue) ∧ ¬Exact key input full := by
  intro key full input
  have hreply : (answerOf key input full).1 = (.OK, .number Int64.minValue) := by decide
  refine ⟨by decide, hreply, fun hexact => ?_⟩
  obtain ⟨number, hnumber, hsum⟩ := hexact.1 (congrArg Prod.fst hreply)
  cases (congrArg Prod.snd hreply).symm.trans hnumber
  exact absurd hsum (by decide)

end LaserDB.Counters
