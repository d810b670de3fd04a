import LaserDB.Service.Expiry

/-!
# The expiry of a table

An engine with a `ttl` stamps what it writes, if `setAutoExpire` comes before the bytes are encoded.
-/

namespace LaserDB

open ByteCodec RocksDbEngine List
open LaserValue (setRawBuffer decode)

/-- What a write on `key` has to leave behind, as long as nothing else changes the records of the
key. -/
def TtlRefreshed (env : Env) (engine : RocksDbEngine) (key : LaserKey) (call : Call) : Prop :=
  (∀ (later : Env) (current : RocksDbEngine), later.Healthy → current.db.role = .LEADER →
    slot current.db.store key = slot (call.exec env engine).2.db.store key →
    env.now ≤ later.now → later.now.toNat < env.now.toNat + engine.ttl.toNat →
      Answers later current key .OK ∧ ∃ left : Int64,
        current.ttlOf later (getFormatKey key) = (.OK, left) ∧
          left.toInt = env.now.toNat + engine.ttl.toNat - later.now.toNat) ∧
    ∀ suffix bytes, .put (key.stem ++ suffix) bytes ∈ call.batch env engine →
      ∃ type timestamp, headOf bytes = some (type, timestamp) ∧
        StampedKey (call.exec env engine).2 key timestamp

namespace Call

/-- The writes of one record, for which the clock is read once. -/
def WritesOne : Call → Bool
  | .append .. | .set .. | .incr .. | .decr .. => true
  | .setx _ _ options => options.ttl = 0
  | _ => false

/-- The text that the call leaves is not empty. -/
def LeavesText (slot : Slot) : Call → Prop
  | .set _ data | .setx _ data _ => data ≠ []
  | .append _ data => ((slot.head.map fun bytes =>
      (setRawBuffer LaserValueRawString.new bytes).decode.2.value).getD [] ++ data) ≠ []
  | _ => True

end Call

variable {env : Env} {engine : RocksDbEngine} {key : LaserKey} {call : Call}

theorem batch_of_ok [LaserValue V] {plan healed : Except Status (α × RocksDbBatch)} {fresh : V}
    {result : Option V → α} {writes : Option V → Slot → List SlotWrite} {fallback : α}
    (hheals : Heals plan healed)
    (heq : healed = (slot engine.db.store key).plan key fresh result writes)
    (hok : (engine.commit env fallback plan).1 = .OK) :
    ∃ found, (slot engine.db.store key).Finds fresh found ∧
      committed env engine.db.role plan =
        batchOf key (writes found (slot engine.db.store key)) := by
  obtain ⟨-, -, ⟨value, batch⟩, hplan, hcommitted⟩ := commit_healed hheals hok
  obtain ⟨found, hfinds, hbatch⟩ := hheals.finds heq hplan
  exact ⟨found, hfinds, hcommitted.trans hbatch⟩

theorem batch_eq_putHead (hone : call.WritesOne = true) (hkey : call.key = some key)
    (httl : engine.ttl ≠ 0) (hok : (call.exec env engine).1.1 = .OK)
    (htext : call.LeavesText (slot engine.db.store key)) :
    ∃ bytes type, call.batch env engine = batchOf key [.putHead bytes] ∧
      headOf bytes = some (type, engine.ttl + env.now) ∧ decodes bytes type = true := by
  have hstamp (timestamp : UInt64) : engine.stamp env.healed timestamp = engine.ttl + env.now :=
    if_neg httl
  have hstring {α : Type} {plan : Except Status (α × RocksDbBatch)} {text : Bytes} (hne : text ≠ [])
      (hplan : committed env engine.db.role plan =
        batchOf key [.putHead (rawStringBytes (engine.ttl + env.now) text)]) :
      ∃ bytes type, committed env engine.db.role plan = batchOf key [.putHead bytes] ∧
        headOf bytes = some (type, engine.ttl + env.now) ∧ decodes bytes type = true :=
    ⟨_, _, hplan, headOf_headBytes, (decodes_rawString _ _).mpr hne⟩
  cases call with
  | append key' data =>
    cases hkey
    obtain ⟨found, hfinds, hbatch⟩ := batch_of_ok (appendPlan_heals data engine env _)
      (plan_append data env.healed_healthy) hok
    have hold : (found.map (·.value)).getD [] = ((slot engine.db.store key).head.map fun bytes =>
        (setRawBuffer LaserValueRawString.new bytes).decode.2.value).getD [] := by
      cases found with
      | none =>
        rw [show (slot engine.db.store key).head = none from hfinds]
        rfl
      | some value =>
        obtain ⟨bytes, hhead, hdecode⟩ := hfinds
        rw [hhead]
        exact congrArg (·.2.value) hdecode.symm
    rw [hstamp, appendWrites, hold] at hbatch
    exact hstring htext hbatch
  | set key' data =>
    cases hkey
    have hheals : Heals (engine.setPlan env (getFormatKey key) data) _ := Heals.of_ok _
    have hcommit : (engine.commit env () _).1 = .OK := hok
    obtain ⟨-, -, result, hplan, hbatch⟩ := commit_healed hheals hcommit
    cases (setPlan_eq data).symm.trans hplan
    exact hstring htext (hstamp 0 ▸ hbatch)
  | setx key' data options =>
    cases hkey
    obtain ⟨-, -, ⟨_, batch⟩, hplan, hbatch⟩ :=
      commit_healed (setxPlan_heals data engine env _ options) hok
    have hput : RocksDbBatch.iput [] (getFormatKey key).toLaserSerializer
        (engine.setxValue env data options) =
          batchOf key [.putHead (rawStringBytes (engine.ttl + env.now) data)] := by
      rw [nil_eq_batchOf key, iput_head, rawData_rawString, setxValue_rawData,
        of_decide_eq_true hone, setxStamp, if_neg (by decide), ← hstamp 0]
      rfl
    refine hstring htext (hbatch.trans ?_)
    unfold setxPlan at hplan
    split at hplan
    · simp only [bind_eq_ok, pure_eq_ok, Except.ok.injEq, Prod.mk.injEq] at hplan
      obtain ⟨_, -, -, rfl⟩ := hplan
      exact hput
    · simp only [pure_eq_ok, Except.ok.injEq, Prod.mk.injEq] at hplan
      exact hplan.2.symm.trans hput
  | incr key' step | decr key' step =>
    cases hkey
    obtain ⟨found, -, hbatch⟩ := batch_of_ok (setCounterByStepPlan_heals engine env _ _)
      (plan_counter env.healed_healthy _) hok
    rw [hstamp] at hbatch
    exact ⟨_, .COUNTER, hbatch, headOf_headBytes, decodes_counter _ _⟩
  | _ => cases hone

theorem live_until {now later ttl : UInt64} (hsigned : ttl.toNat < 2 ^ 63)
    (hfits : now.toNat + ttl.toNat < 2 ^ 64) (hle : now ≤ later)
    (hlt : later.toNat < now.toNat + ttl.toNat) : ¬Past later (ttl + now) ∧
      (ttlAt later (ttl + now)).toInt = now.toNat + ttl.toNat - later.toNat := by
  have hsum := UInt64.toNat_add ttl now
  have hdiff := UInt64.toNat_sub (ttl + now) later
  rw [UInt64.le_iff_toNat_le] at hle
  rw [toInt_ttlAt, Past, UInt64.lt_iff_toNat_lt]
  split_ifs <;> omega

def tableEngine : RocksDbEngine := { RocksDbEngine.fresh with ttl := 10 }

def tableKey : LaserKey := ⟨[[97]], []⟩

def hashAt (now : UInt64) : RocksDbEngine :=
  ((Call.hset tableKey [102] [98]).exec (.at now) tableEngine).2

end LaserDB
