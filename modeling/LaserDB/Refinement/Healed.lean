import LaserDB.Refinement.ExpiredOutcome

/-!
# Writes that answer OK

A write that answers OK has reached the database of a leader, and no read on its way has failed.
So it is what the same call does when RocksDB answers every request.
-/

namespace LaserDB

open RocksDbEngine

def Call.Stamps : Call → Bool
  | .append .. | .set .. | .incr .. | .decr .. | .hset .. | .hmset .. | .pushFront .. | .pushBack ..
  | .sadd .. | .zadd .. => true
  | .setx _ _ options => options.ttl = 0
  | _ => false

variable {engine : RocksDbEngine} {env : Env}

theorem commit_healed {fallback : α} {plan healed : Except Status (α × RocksDbBatch)}
    (hheals : Heals plan healed) (hok : (engine.commit env fallback plan).1 = .OK) :
    engine.db.role = .LEADER ∧
      engine.commit env fallback plan = engine.commit env.healed fallback healed ∧
      ∃ result, plan = .ok result ∧ committed env engine.db.role plan = result.2 := by
  cases plan with
  | error status => exact absurd hok (hheals.error status rfl)
  | ok result =>
    rw [hheals.ok result rfl]
    rcases engine with ⟨⟨role, store⟩, ttl⟩
    rcases env with ⟨now, readFault, writeFault, inMemory⟩
    cases role with
    | FOLLOWER => cases hok
    | LEADER =>
      cases writeFault with
      | none => exact ⟨rfl, rfl, result, rfl, rfl⟩
      | some fault => cases fault <;> cases hok

theorem exec_healed {call : Call} (hstamps : call.Stamps = true)
    (hok : (call.exec env engine).1.1 = .OK) :
    engine.db.role = .LEADER ∧ call.exec env engine = call.exec env.healed engine := by
  have hanswer {α : Type} {payload : α → Payload} {fallback : α}
      {plan healed : Except Status (α × RocksDbBatch)} (hheals : Heals plan healed)
      (hcommit : (answer payload (engine.commit env fallback plan)).1.1 = .OK) :
      engine.db.role = .LEADER ∧ answer payload (engine.commit env fallback plan) =
        answer payload (engine.commit env.healed fallback healed) := by
    obtain ⟨hleader, heq, -⟩ := commit_healed hheals hcommit
    exact ⟨hleader, congrArg (answer payload) heq⟩
  cases call with
  | append key data => exact hanswer (appendPlan_heals data engine env _) hok
  | set key data => exact hanswer (Heals.of_ok _) hok
  | setx key data options => exact hanswer (setxPlan_heals data engine env _ options) hok
  | incr key step => exact hanswer (setCounterByStepPlan_heals engine env _ step.toInt64) hok
  | decr key step => exact hanswer (setCounterByStepPlan_heals engine env _ (-step).toInt64) hok
  | hset key field value => exact hanswer (hsetPlan_heals field value engine env _) hok
  | hmset key values => exact hanswer (hmsetPlan_heals values engine env _) hok
  | pushFront key value => exact hanswer (listPushPlan_heals engine env _ value true) hok
  | pushBack key value => exact hanswer (listPushPlan_heals engine env _ value false) hok
  | sadd key member => exact hanswer (saddPlan_heals member engine env _) hok
  | zadd key memberScores => exact hanswer (zaddPlan_heals engine env _ memberScores) hok
  | _ => cases hstamps

end LaserDB
