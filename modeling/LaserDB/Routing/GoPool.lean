import LaserDB.Library.WorkerPool

/-!
# The connection pool of the Go client

`Aquire` takes a connection from the front of the idle list or makes one; `Close` gives it back.
Connections are closed, checked and made outside of the lock.
-/

namespace LaserDB.GoPool
open List WorkerPool Option Nat
open Multiset (coe_add coe_nil coe_singleton cons_bind cons_coe mem_add mem_cons mem_cons_of_mem
  mem_cons_self notMem_zero ofList singleton_add singleton_bind zero_bind)

/-- The options of a pool, as `newPoolOptions` leaves them. -/
structure Config where
  maxIdle : Nat
  maxActive : Nat
  wait : Bool
  idleTimeout : Nat
  maxIdle_le : maxIdle ≤ maxActive
  maxActive_pos : 0 < maxActive

/-- `newPoolOptions`: limits that make no sense are replaced. -/
def newPoolOptions (maxIdle maxActive : Int) (wait : Bool) (idleTimeout : Int) (numCpu : Nat)
    (defaultMaxIdleTime : Nat) (hcpu : 0 < numCpu) : Config :=
  let active : Nat := if maxActive ≤ 0 then numCpu else maxActive.toNat
  { maxActive := active
    maxIdle := if maxIdle ≤ 0 ∨ (active : Int) < maxIdle then active else maxIdle.toNat
    wait := wait
    idleTimeout := if idleTimeout ≤ 0 then defaultMaxIdleTime else idleTimeout.toNat
    maxIdle_le := by
      split_ifs with hidle
      · exact le_rfl
      · omega
    maxActive_pos := by
      simp only [active]
      split_ifs
      · exact hcpu
      · omega }

structure PoolConn where
  conn : Nat
  activeTime : Nat
  deriving DecidableEq, Repr

structure Pool where
  active : Int := 0
  /-- the idle list, its front first -/
  idle : List PoolConn := []
  /-- the tokens in the channel, none before the channel is made -/
  queue : Option Nat := none
  /-- the connections that callers have acquired and not closed -/
  held : List PoolConn := []
  created : Nat := 0
  deriving DecidableEq, Repr

/-- What a section meets: the clock, what `Good` and the factory say, the connection that a caller
closes, its error and whether it has to be closed. -/
structure Met where
  now : Nat := 0
  good : Bool := true
  made : Bool := true
  index : Nat := 0
  err : Bool := false
  forceClose : Bool := false

inductive Call
  | aquire
  | close
  deriving DecidableEq, Repr

inductive Step
  | initQueue
  | receive
  /-- before the lock in `aquire` -/
  | enter
  /-- closes a connection that was idle for too long -/
  | prune (pc : PoolConn) (left : Nat)
  /-- asks a connection from the idle list whether it is good -/
  | check (pc : PoolConn)
  /-- closes a connection that is not good -/
  | drop (pc : PoolConn)
  /-- runs the factory -/
  | create
  /-- the factory has failed -/
  | refund
  /-- a caller chooses the connection to close -/
  | choose
  | release (pc : PoolConn) (err forceClose : Bool)
  /-- closes a connection in `release` -/
  | close (pc : PoolConn)
  deriving DecidableEq, Repr

def Pool.send (pool : Pool) : Pool :=
  { pool with queue := pool.queue.map (· + 1) }

def takeFront (config : Config) (pool : Pool) : Pool × List Step :=
  match pool.idle with
  | pc :: rest => ({ pool with idle := rest }, [.check pc])
  | [] =>
    if config.wait = false ∧ config.maxActive ≤ pool.active then (pool, [])
    else ({ pool with active := pool.active + 1 }, [.create])

def pruneBack (config : Config) (now left : Nat) (pool : Pool) : Pool × List Step :=
  match left, pool.idle.getLast? with
  | left + 1, some pc =>
    if pc.activeTime + config.idleTimeout < now then
      ({ pool with idle := pool.idle.dropLast }, [.prune pc left])
    else takeFront config pool
  | _, _ => takeFront config pool

def putBack (pool : Pool) (pc : PoolConn) (err : Bool) (now : Nat) : List PoolConn :=
  if err then pool.idle ++ [{ pc with activeTime := now }]
  else { pc with activeTime := now } :: pool.idle

def releaseSection (config : Config) (pool : Pool) (pc : PoolConn) (err forceClose : Bool) (now : Nat) :
    Pool × List Step :=
  if forceClose then (pool, [.close pc])
  else
    let idle := putBack pool pc err now
    match idle.getLast? with
    | some last =>
      if config.maxIdle < idle.length then
        ({ pool with idle := idle.dropLast }, [.close last])
      else ({ pool with idle := idle }.send, [])
    | none => ({ pool with idle := idle }.send, [])

def runSection (config : Config) (pool : Pool) (met : Met) : Step → Pool × List Step
  | .initQueue => ({ pool with queue := pool.queue.or (some config.maxActive) }, [.receive])
  | .receive =>
    match pool.queue with
    | some (tokens + 1) => ({ pool with queue := some tokens }, [.enter])
    | _ => (pool, [.receive])
  | .enter => pruneBack config met.now (if 0 < config.idleTimeout then pool.idle.length else 0) pool
  | .prune _ left => pruneBack config met.now left { pool with active := pool.active - 1 }
  | .check pc => if met.good then ({ pool with held := pc :: pool.held }, []) else (pool, [.drop pc])
  | .drop _ => takeFront config { pool with active := pool.active - 1 }
  | .create =>
    if met.made then
      ({ pool with held := ⟨pool.created, 0⟩ :: pool.held, created := pool.created + 1 }, [])
    else (pool, [.refund])
  | .refund => ({ pool with active := pool.active - 1 }.send, [])
  | .choose =>
    match pool.held[met.index]? with
    | some pc => ({ pool with held := pool.held.eraseIdx met.index },
        [.release pc met.err met.forceClose])
    | none => (pool, [])
  | .release pc err forceClose => releaseSection config pool pc err forceClose met.now
  | .close _ => ({ pool with active := pool.active - 1 }.send, [])

def machine (config : Config) : Machine Pool Met Call Step where
  start
    | .aquire => if config.wait then [.initQueue] else [.enter]
    | .close => [.choose]
  step := runSection config

def Step.holds : Step → Nat
  | .initQueue | .receive | .choose => 0
  | _ => 1

/-- The step has a connection that is not being closed, or a place for one. -/
def Step.uses : Step → Nat
  | .check _ | .create | .refund | .release .. => 1
  | _ => 0

def Step.closes : Step → Nat
  | .prune .. | .drop _ | .close _ => 1
  | _ => 0

def Step.conns : Step → Multiset Nat
  | .prune pc _ | .check pc | .drop pc | .release pc .. | .close pc => {pc.conn}
  | _ => 0

def Step.sends : Step → Bool
  | .refund | .release .. | .close _ => true
  | _ => false

/-- The connections in use, from the time a call takes one from the idle list or takes a place for
a new one until it is put back or closed. -/
def inUse (pool : Pool) (steps : Multiset Step) : Nat :=
  pool.held.length + (steps.map Step.uses).sum

def holders (pool : Pool) (steps : Multiset Step) : Nat :=
  pool.held.length + (steps.map Step.holds).sum

def owned (pool : Pool) (steps : Multiset Step) : Multiset Nat :=
  (pool.idle.map PoolConn.conn : Multiset Nat) + (pool.held.map PoolConn.conn : Multiset Nat) +
    steps.bind Step.conns

structure Accounted (config : Config) (pool : Pool) (steps : Multiset Step) : Prop where
  active_eq : pool.active = pool.idle.length + inUse pool steps + (steps.map Step.closes).sum
  active_le : pool.active ≤ config.maxActive
  idle_le : pool.idle.length ≤ config.maxIdle
  tokens : ∀ tokens, pool.queue = some tokens → tokens + holders pool steps = config.maxActive
  /-- a token that is sent finds room in the channel -/
  sends : ∀ step ∈ steps, step.sends = true → ∀ tokens, pool.queue = some tokens →
    tokens < config.maxActive
  /-- no connection is in two places -/
  exclusive : (owned pool steps).Nodup

def Step.waits : Step → Bool
  | .initQueue | .receive => true
  | _ => false

open Step (closes conns holds uses waits)

structure Balanced (config : Config) (pool : Pool) (steps : Multiset Step) : Prop where
  active_eq : pool.active = pool.idle.length + inUse pool steps + (steps.map closes).sum
  active_le : pool.active ≤ config.maxActive
  idle_le : pool.idle.length ≤ config.maxIdle
  tokens : ∀ tokens, pool.queue = some tokens → tokens + holders pool steps = config.maxActive
  unmade : config.wait = true → pool.queue = none → holders pool steps = 0
  nowait : config.wait = false → pool.queue = none ∧ ∀ step ∈ steps, step.waits = false
  exclusive : (owned pool steps).Nodup
  fresh : ∀ conn ∈ owned pool steps, conn < pool.created

section
variable {config : Config} {pool next : Pool} {step : Step} {steps : List Step}
  {others : Multiset Step}

def total (weight : Step → Nat) (steps : List Step) : Nat := (steps.map weight).sum

variable (weight : Step → Nat)

theorem sum_map_append (steps : List Step) (others : Multiset Step) :
    (((steps : Multiset Step) + others).map weight).sum =
      total weight steps + (others.map weight).sum := by
  simp [total]

theorem sum_map_cons (step : Step) (others : Multiset Step) :
    ((step ::ₘ others).map weight).sum = weight step + (others.map weight).sum := by
  simp

def ownedBy (pool : Pool) (steps : List Step) : Multiset Nat :=
  (pool.idle.map PoolConn.conn : Multiset Nat) + (pool.held.map PoolConn.conn : Multiset Nat) +
    (steps : Multiset Step).bind conns

theorem owned_append (pool : Pool) (steps : List Step) (others : Multiset Step) :
    owned pool ((steps : Multiset Step) + others) = ownedBy pool steps + others.bind conns := by
  rw [owned, ownedBy, Multiset.add_bind, ← add_assoc]

theorem owned_cons (pool : Pool) (step : Step) (others : Multiset Step) :
    owned pool (step ::ₘ others) = ownedBy pool [step] + others.bind conns :=
  owned_append pool [step] others

/-- What a section has to do to keep the balance: it sends `sent` tokens, and each of its numbers
changes as the pool's does. -/
structure Moves (config : Config) (pool next : Pool) (step : Step) (steps : List Step) (sent : Nat) :
    Prop where
  active : next.active + (pool.idle.length + pool.held.length + step.uses + step.closes) =
    pool.active + (next.idle.length + next.held.length + total uses steps + total closes steps)
  idle : next.idle.length ≤ config.maxIdle
  queue : next.queue = pool.queue.map (· + sent)
  holds : config.wait = true →
    next.held.length + total holds steps + sent = pool.held.length + step.holds
  waits : ∀ following ∈ steps, following.waits = false
  owned : ownedBy next steps ≤ ownedBy pool [step]
  created : next.created = pool.created

theorem Balanced.move {sent : Nat} (hbalanced : Balanced config pool (step ::ₘ others))
    (hmoves : Moves config pool next step steps sent)
    (hactive : next.active ≤ config.maxActive) : Balanced config next ((steps : Multiset Step) + others) := by
  obtain ⟨hsum, -, -, htokens, hunmade, hnowait, hexclusive, hfresh⟩ := hbalanced
  have howned : owned next ((steps : Multiset Step) + others) ≤ owned pool (step ::ₘ others) := by
    rw [owned_append, owned_cons]
    exact add_le_add_left hmoves.owned _
  have hholders (hwait : config.wait = true) :
      holders next ((steps : Multiset Step) + others) + sent = holders pool (step ::ₘ others) := by
    have hholds := hmoves.holds hwait
    rw [holders, holders, sum_map_append, sum_map_cons]
    omega
  refine ⟨?_, hactive, hmoves.idle, fun tokens hqueue => ?_, fun hwait hqueue => ?_,
    fun hwait => ⟨?_, ?_⟩, Multiset.nodup_of_le howned hexclusive, fun conn hconn => ?_⟩
  · have hchange := hmoves.active
    rw [inUse, sum_map_cons, sum_map_cons] at hsum
    rw [inUse, sum_map_append, sum_map_append]
    omega
  · rw [hmoves.queue] at hqueue
    obtain ⟨before, hbefore, rfl⟩ := map_eq_some_iff.mp hqueue
    cases hmode : config.wait with
    | false => rw [(hnowait hmode).1] at hbefore; cases hbefore
    | true =>
      have hbalance := htokens before hbefore
      have hchange := hholders hmode
      omega
  · rw [hmoves.queue, map_eq_none_iff] at hqueue
    have hnone := hunmade hwait hqueue
    have hchange := hholders hwait
    omega
  · rw [hmoves.queue, (hnowait hwait).1]
    rfl
  · intro following hfollowing
    rcases mem_add.mp hfollowing with hnew | hother
    · exact hmoves.waits following hnew
    · exact (hnowait hwait).2 following (mem_cons_of_mem hother)
  · rw [hmoves.created]
    exact hfresh conn (Multiset.mem_of_le howned hconn)

theorem map_add_zero (queue : Option Nat) : queue = queue.map (· + 0) := by
  cases queue <;> rfl

theorem uses_add_closes_le (steps : Multiset Step) :
    (steps.map uses).sum + (steps.map closes).sum ≤ (steps.map holds).sum := by
  induction steps using Multiset.induction with
  | empty => exact le_rfl
  | cons step steps ih =>
    have hstep : step.uses + step.closes ≤ step.holds := by
      cases step <;> simp [uses, closes, holds]
    rw [sum_map_cons, sum_map_cons, sum_map_cons]
    omega

theorem Balanced.holders_le {steps : Multiset Step} (hbalanced : Balanced config pool steps)
    (hwait : config.wait = true) : holders pool steps ≤ config.maxActive := by
  cases hqueue : pool.queue with
  | none =>
    rw [hbalanced.unmade hwait hqueue]
    exact zero_le _
  | some tokens =>
    have htokens := hbalanced.tokens tokens hqueue
    omega

variable {pc : PoolConn}

variable {rest : List PoolConn}

theorem takeFront_of_cons (hidle : pool.idle = pc :: rest) :
    takeFront config pool = ({ pool with idle := rest }, [.check pc]) := by
  rw [takeFront, hidle]

theorem takeFront_of_nil (hidle : pool.idle = []) :
    takeFront config pool =
      if config.wait = false ∧ config.maxActive ≤ pool.active then (pool, [])
      else ({ pool with active := pool.active + 1 }, [.create]) := by
  rw [takeFront, hidle]

theorem moves_check (hidle : pool.idle = pc :: rest) (hle : pool.idle.length ≤ config.maxIdle) :
    Moves config pool { pool with idle := rest } .enter [.check pc] 0 where
  active := by
    rw [hidle]
    simp [total, uses, closes]
    omega
  idle := by
    rw [hidle, length_cons] at hle
    exact le_of_succ_le hle
  queue := map_add_zero _
  holds := fun _ => rfl
  waits := by simp [waits]
  owned := by
    refine le_of_eq ?_
    simp only [ownedBy, hidle, map_cons, ← cons_coe, ← singleton_add]
    simp only [coe_nil, add_zero, singleton_bind, conns]
    abel
  created := rfl

theorem Balanced.active_lt (hbalanced : Balanced config pool (.enter ::ₘ others))
    (hidle : pool.idle = []) (hwait : config.wait = true) : pool.active < config.maxActive := by
  have hactive := hbalanced.active_eq
  have hholders := hbalanced.holders_le hwait
  have hconns := uses_add_closes_le others
  rw [inUse, hidle, sum_map_cons, sum_map_cons] at hactive
  rw [holders, sum_map_cons] at hholders
  simp only [uses, closes, holds, length_nil] at hactive hholders
  omega

theorem Balanced.takeFront (hbalanced : Balanced config pool (.enter ::ₘ others)) :
    Balanced config (takeFront config pool).1
      (((GoPool.takeFront config pool).2 : Multiset Step) + others) := by
  rcases hidle : pool.idle with _ | ⟨pc, rest⟩
  · rw [takeFront_of_nil hidle]
    split_ifs with hfull
    · refine hbalanced.move ⟨?_, hbalanced.idle_le, map_add_zero _, fun hwait => ?_, ?_, le_rfl, rfl⟩
        hbalanced.active_le
      · simp [total, uses, closes]
      · rw [hfull.1] at hwait
        cases hwait
      · simp
    · refine hbalanced.move ⟨?_, hbalanced.idle_le, map_add_zero _, fun _ => rfl, ?_, le_rfl, rfl⟩ ?_
      · simp [total, uses, closes]
        omega
      · simp [waits]
      · dsimp only
        cases hwait : config.wait with
        | false =>
          have hbelow := (not_and.mp hfull) hwait
          omega
        | true =>
          have hbelow := hbalanced.active_lt hidle hwait
          omega
  · rw [takeFront_of_cons hidle]
    exact hbalanced.move (moves_check hidle hbalanced.idle_le) hbalanced.active_le

theorem moves_prune {left : Nat} (hlast : pool.idle.getLast? = some pc)
    (hle : pool.idle.length ≤ config.maxIdle) :
    Moves config pool { pool with idle := pool.idle.dropLast } .enter [.prune pc left] 0 := by
  obtain ⟨front, hfront⟩ := getLast?_eq_some_iff.mp hlast
  have hdrop : pool.idle.dropLast = front := by rw [hfront, dropLast_concat]
  have hlength : pool.idle.length = front.length + 1 := by rw [hfront, length_append]; rfl
  refine ⟨?_, ?_, map_add_zero _, fun _ => rfl, ?_, le_of_eq ?_, rfl⟩
  · simp [total, uses, closes, hlength]
    omega
  · dsimp only
    rw [hdrop]
    omega
  · simp [waits]
  · simp only [ownedBy, hfront, dropLast_concat, map_append, map_cons, map_nil,
      ← coe_add, ← cons_coe, ← singleton_add]
    simp only [coe_nil, add_zero, singleton_bind, conns]
    abel

theorem Balanced.pruneBack (hbalanced : Balanced config pool (.enter ::ₘ others)) (now left : Nat) :
    Balanced config (pruneBack config now left pool).1
      (((GoPool.pruneBack config now left pool).2 : Multiset Step) + others) := by
  unfold GoPool.pruneBack
  split
  · next left pc hlast =>
      split_ifs
      · exact hbalanced.move (moves_prune hlast hbalanced.idle_le) hbalanced.active_le
      · exact hbalanced.takeFront
  · exact hbalanced.takeFront

theorem coe_singleton_add (step : Step) (others : Multiset Step) :
    (([step] : List Step) : Multiset Step) + others = step ::ₘ others := by
  rw [coe_singleton, singleton_add]

theorem Balanced.closed (hcloses : step.closes = 1) (huses : step.uses = 0)
    (hholds : step.holds = 1) (hbalanced : Balanced config pool (step ::ₘ others)) :
    Balanced config { pool with active := pool.active - 1 } (.enter ::ₘ others) := by
  rw [← coe_singleton_add]
  have huse : total uses [.enter] = 0 := rfl
  have hclose : total closes [.enter] = 0 := rfl
  have hhold : total holds [.enter] = 1 := rfl
  have hactive := hbalanced.active_le
  refine hbalanced.move ⟨?_, hbalanced.idle_le, map_add_zero _, fun _ => ?_, ?_, ?_, rfl⟩ ?_
  · rw [hcloses, huses, huse, hclose]
    dsimp only
    omega
  · rw [hhold, hholds]
  · simp [waits]
  · simp [ownedBy, conns]
  · dsimp only
    omega

theorem Balanced.refunded (hcounts : step.uses + step.closes = 1) (hholds : step.holds = 1)
    (hbalanced : Balanced config pool (step ::ₘ others)) :
    Balanced config { pool with active := pool.active - 1 }.send
      ((([] : List Step) : Multiset Step) + others) := by
  have hnone (weight : Step → Nat) : total weight [] = 0 := rfl
  have hactive := hbalanced.active_le
  have hmoves : Moves config pool { pool with active := pool.active - 1 }.send step [] 1 := by
    refine ⟨?_, hbalanced.idle_le, rfl, fun _ => ?_, ?_, ?_, rfl⟩
    · rw [hnone, hnone]
      simp only [Pool.send]
      omega
    · rw [hnone, hholds]
      rfl
    · simp
    · simp [ownedBy, Pool.send]
  refine hbalanced.move hmoves ?_
  simp only [Pool.send]
  omega

theorem Balanced.checked (hbalanced : Balanced config pool (.check pc ::ₘ others)) :
    Balanced config { pool with held := pc :: pool.held } ((([] : List Step) : Multiset Step) + others) ∧
      Balanced config pool ((([.drop pc] : List Step) : Multiset Step) + others) := by
  constructor
  · refine hbalanced.move ⟨?_, hbalanced.idle_le, map_add_zero _, fun _ => ?_, ?_, le_of_eq ?_, rfl⟩
      hbalanced.active_le
    · simp [total, uses, closes]
      omega
    · simp [total, holds]
    · simp
    · simp only [ownedBy, map_cons, ← cons_coe, ← singleton_add]
      simp only [coe_nil, add_zero, singleton_bind, conns, zero_bind]
      abel
  · exact hbalanced.move ⟨by simp [total, uses, closes], hbalanced.idle_le, map_add_zero _,
      fun _ => rfl, by simp [waits], le_rfl, rfl⟩ hbalanced.active_le

variable {err forceClose : Bool}

theorem Balanced.chosen {index : Nat} (hpc : pool.held[index]? = some pc)
    (hbalanced : Balanced config pool (.choose ::ₘ others)) :
    Balanced config { pool with held := pool.held.eraseIdx index }
      ((([.release pc err forceClose] : List Step) : Multiset Step) + others) := by
  obtain ⟨hindex, rfl⟩ := List.getElem?_eq_some_iff.mp hpc
  have hlength := length_eraseIdx_of_lt hindex
  have hperm := getElem_cons_eraseIdx_perm hindex
  refine hbalanced.move ⟨?_, hbalanced.idle_le, map_add_zero _, fun _ => ?_, ?_, le_of_eq ?_, rfl⟩
    hbalanced.active_le
  · simp [total, uses, closes, hlength]
    omega
  · simp [total, holds, hlength]
    omega
  · simp [waits]
  · have hconns := Multiset.coe_eq_coe.mpr (hperm.map PoolConn.conn)
    rw [map_cons, ← cons_coe, ← singleton_add] at hconns
    simp only [ownedBy, ← hconns, ← cons_coe, coe_nil]
    simp only [cons_bind, zero_bind, conns, add_zero]
    abel

theorem conn_putBack (pc : PoolConn) (err : Bool) (now : Nat) :
    ((putBack pool pc err now).map PoolConn.conn : Multiset Nat) =
      {pc.conn} + (pool.idle.map PoolConn.conn : Multiset Nat) := by
  unfold putBack
  split_ifs
  · simp only [map_append, map_cons, map_nil, ← coe_add, coe_singleton]
    exact add_comm _ _
  · simp only [map_cons, ← cons_coe, singleton_add]

theorem length_putBack (pc : PoolConn) (err : Bool) (now : Nat) :
    (putBack pool pc err now).length = pool.idle.length + 1 := by
  unfold putBack
  split_ifs <;> simp

variable {now : Nat} (hbalanced : Balanced config pool (.release pc err forceClose ::ₘ others))
include hbalanced

theorem Balanced.released
    (hroom : (putBack pool pc err now).length ≤ config.maxIdle) :
    Balanced config { pool with idle := putBack pool pc err now }.send
      ((([] : List Step) : Multiset Step) + others) := by
  have hlength := @length_putBack pool pc err now
  have hmoves : Moves config pool { pool with idle := putBack pool pc err now }.send
      (.release pc err forceClose) [] 1 := by
    refine ⟨?_, hroom, rfl, fun _ => rfl, by simp, le_of_eq ?_, rfl⟩
    · simp [total, uses, closes, Pool.send, hlength]
      omega
    · simp only [ownedBy, Pool.send, conn_putBack]
      simp only [← cons_coe, coe_nil, cons_bind, zero_bind, conns, add_zero]
      abel
  exact hbalanced.move hmoves hbalanced.active_le

theorem Balanced.overfull {last : PoolConn}
    (hlast : (putBack pool pc err now).getLast? = some last) :
    Balanced config { pool with idle := (putBack pool pc err now).dropLast }
      ((([.close last] : List Step) : Multiset Step) + others) := by
  obtain ⟨front, hfront⟩ := getLast?_eq_some_iff.mp hlast
  have hlength := @length_putBack pool pc err now
  have hconns := @conn_putBack pool pc err now
  rw [hfront, length_append, length_singleton] at hlength
  rw [hfront, map_append, ← coe_add] at hconns
  have hidle := hbalanced.idle_le
  rw [hfront, dropLast_concat]
  have hmoves : Moves config pool { pool with idle := front } (.release pc err forceClose)
      [.close last] 0 := by
    refine ⟨?_, by dsimp only; omega, map_add_zero _, fun _ => rfl, by simp [waits],
      le_of_eq ?_, rfl⟩
    · simp [total, uses, closes]
      omega
    · simp only [ownedBy, ← cons_coe, coe_nil, cons_bind, zero_bind, conns, add_zero]
      rw [add_right_comm, add_right_comm (ofList (pool.idle.map PoolConn.conn))]
      exact congrArg (· + _) (hconns.trans (add_comm _ _))
  exact hbalanced.move hmoves hbalanced.active_le

theorem Balanced.releaseSection (now : Nat) :
    Balanced config (releaseSection config pool pc err forceClose now).1
      (((GoPool.releaseSection config pool pc err forceClose now).2 : Multiset Step) + others) := by
  unfold GoPool.releaseSection
  split_ifs with hforce
  · exact hbalanced.move ⟨by simp [total, uses, closes], hbalanced.idle_le, map_add_zero _,
      fun _ => rfl, by simp [waits], le_rfl, rfl⟩ hbalanced.active_le
  · dsimp only
    split
    · next last hlast =>
        split_ifs with hfull
        · exact hbalanced.overfull hlast
        · exact hbalanced.released (not_lt.mp hfull)
    · next hnone =>
        have hlength := @length_putBack pool pc err now
        rw [getLast?_eq_none_iff.mp hnone] at hlength
        cases hlength

omit hbalanced

theorem Balanced.made (hbalanced : Balanced config pool (.create ::ₘ others)) :
    Balanced config
      { pool with held := ⟨pool.created, 0⟩ :: pool.held, created := pool.created + 1 }
      ((([] : List Step) : Multiset Step) + others) := by
  obtain ⟨hsum, hactive, hidle, htokens, hunmade, hnowait, hexclusive, hfresh⟩ := hbalanced
  have hholders : holders { pool with held := ⟨pool.created, 0⟩ :: pool.held,
                                      created := pool.created + 1 } others =
      holders pool (.create ::ₘ others) := by
    rw [holders, holders, sum_map_cons, length_cons]
    simp only [holds]
    omega
  have howned : owned { pool with held := ⟨pool.created, 0⟩ :: pool.held,
                                  created := pool.created + 1 } others =
      pool.created ::ₘ owned pool (.create ::ₘ others) := by
    rw [owned, owned, cons_bind, map_cons, ← cons_coe]
    simp only [conns, zero_add]
    rw [Multiset.add_cons, Multiset.cons_add]
  rw [coe_nil, zero_add]
  refine ⟨?_, hactive, hidle, ?_, ?_, fun hwait => ⟨(hnowait hwait).1, fun other hother =>
    (hnowait hwait).2 other (mem_cons_of_mem hother)⟩, ?_, ?_⟩
  · rw [inUse, sum_map_cons, sum_map_cons] at hsum
    rw [inUse]
    simp only [uses, closes, length_cons] at hsum ⊢
    omega
  · rw [hholders]
    exact htokens
  · rw [hholders]
    exact hunmade
  · rw [howned]
    exact Multiset.nodup_cons.mpr ⟨fun hmem => lt_irrefl _ (hfresh _ hmem), hexclusive⟩
  · rw [howned]
    intro conn hconn
    rcases mem_cons.mp hconn with rfl | hold
    · exact lt_succ_self _
    · exact lt_succ_of_lt (hfresh conn hold)

private structure SameConns (steps following : Multiset Step) : Prop where
  uses : (following.map uses).sum = (steps.map uses).sum
  closes : (following.map closes).sum = (steps.map closes).sum
  conns : following.bind conns = steps.bind conns

theorem Balanced.requeue {steps following : Multiset Step} {queue : Option Nat}
    (hbalanced : Balanced config pool steps) (hsame : SameConns steps following)
    (htokens : ∀ tokens, queue = some tokens → tokens + holders pool following = config.maxActive)
    (hunmade : config.wait = true → queue = none → holders pool following = 0)
    (hnowait : config.wait = false → queue = none ∧ ∀ step ∈ following, step.waits = false) :
    Balanced config { pool with queue := queue } following := by
  have howned : owned { pool with queue := queue } following = owned pool steps := by
    rw [owned, owned, hsame.conns]
  refine ⟨?_, hbalanced.active_le, hbalanced.idle_le, htokens, hunmade, hnowait,
    howned ▸ hbalanced.exclusive, howned ▸ hbalanced.fresh⟩
  rw [inUse, hsame.uses, hsame.closes]
  exact hbalanced.active_eq

private structure Bare (step : Step) : Prop where
  uses : step.uses = 0
  closes : step.closes = 0
  conns : step.conns = 0

theorem Bare.sameConns (hbare : Bare step) : SameConns others (step ::ₘ others) where
  uses := by rw [sum_map_cons, hbare.uses, zero_add]
  closes := by rw [sum_map_cons, hbare.closes, zero_add]
  conns := by rw [cons_bind, hbare.conns, zero_add]

theorem Bare.sameConns_cons {following : Step} (hbare : Bare step)
    (hfollowing : Bare following) : SameConns (step ::ₘ others) (following ::ₘ others) where
  uses := hfollowing.sameConns.uses.trans hbare.sameConns.uses.symm
  closes := hfollowing.sameConns.closes.trans hbare.sameConns.closes.symm
  conns := hfollowing.sameConns.conns.trans hbare.sameConns.conns.symm

theorem Balanced.wait_of_mem {steps : Multiset Step} (hbalanced : Balanced config pool steps)
    (hstep : step ∈ steps) (hwaits : step.waits = true) : config.wait = true := by
  cases hmode : config.wait with
  | true => rfl
  | false =>
    rw [(hbalanced.nowait hmode).2 step hstep] at hwaits
    cases hwaits

theorem Balanced.channelMade (hbalanced : Balanced config pool (.initQueue ::ₘ others)) :
    Balanced config { pool with queue := pool.queue.or (some config.maxActive) }
      ((([.receive] : List Step) : Multiset Step) + others) := by
  have hwait := hbalanced.wait_of_mem (mem_cons_self _ _) rfl
  have hsame : SameConns (.initQueue ::ₘ others) (.receive ::ₘ others) :=
    Bare.sameConns_cons ⟨rfl, rfl, rfl⟩ ⟨rfl, rfl, rfl⟩
  rw [coe_singleton_add]
  refine hbalanced.requeue hsame (fun tokens hqueue => ?_) (fun _ hqueue => ?_) (fun hmode => ?_)
  · have hholders : holders pool (.receive ::ₘ others) = holders pool (.initQueue ::ₘ others) := by
      rw [holders, holders, sum_map_cons, sum_map_cons]
      rfl
    rw [hholders]
    cases hbefore : pool.queue with
    | none =>
      rw [hbefore] at hqueue
      obtain rfl := some.inj hqueue
      rw [hbalanced.unmade hwait hbefore, add_zero]
    | some before =>
      rw [hbefore] at hqueue
      obtain rfl := some.inj hqueue
      exact hbalanced.tokens before hbefore
  · cases hbefore : pool.queue <;> simp [hbefore] at hqueue
  · rw [hwait] at hmode
    cases hmode

private theorem Balanced.received {tokens : Nat} (hqueue : pool.queue = some (tokens + 1))
    (hbalanced : Balanced config pool (.receive ::ₘ others)) :
    Balanced config { pool with queue := some tokens }
      ((([.enter] : List Step) : Multiset Step) + others) := by
  have hwait := hbalanced.wait_of_mem (mem_cons_self _ _) rfl
  have hsame : SameConns (.receive ::ₘ others) (.enter ::ₘ others) :=
    Bare.sameConns_cons ⟨rfl, rfl, rfl⟩ ⟨rfl, rfl, rfl⟩
  rw [coe_singleton_add]
  refine hbalanced.requeue hsame (fun left hleft => ?_) (fun _ hnone => absurd hnone (by simp))
    (fun hmode => ?_)
  · obtain rfl := some.inj hleft
    have hbefore := hbalanced.tokens _ hqueue
    rw [holders, sum_map_cons] at hbefore ⊢
    simp only [holds] at hbefore ⊢
    omega
  · rw [hwait] at hmode
    cases hmode

theorem Balanced.runSection (hbalanced : Balanced config pool (step ::ₘ others)) (met : Met) :
    Balanced config (runSection config pool met step).1
      (((GoPool.runSection config pool met step).2 : Multiset Step) + others) := by
  cases step <;> dsimp only [GoPool.runSection]
  case initQueue => exact hbalanced.channelMade
  case receive =>
    split
    · next tokens hqueue => exact hbalanced.received hqueue
    · rw [coe_singleton_add]
      exact hbalanced
  case enter => exact hbalanced.pruneBack _ _
  case prune pc left => exact (hbalanced.closed rfl rfl rfl).pruneBack _ _
  case check pc =>
    split_ifs
    · exact hbalanced.checked.1
    · exact hbalanced.checked.2
  case drop pc => exact (hbalanced.closed rfl rfl rfl).takeFront
  case create =>
    split_ifs
    · exact hbalanced.made
    · exact hbalanced.move ⟨by simp [total, uses, closes], hbalanced.idle_le,
        map_add_zero _, fun _ => rfl, by simp [waits], le_rfl, rfl⟩ hbalanced.active_le
  case refund | close => exact hbalanced.refunded rfl rfl
  case choose =>
    split
    · next pc hpc => exact hbalanced.chosen hpc
    · exact hbalanced.move ⟨by simp [total, uses, closes], hbalanced.idle_le,
        map_add_zero _, fun _ => rfl, by simp, le_rfl, rfl⟩ hbalanced.active_le
  case release pc err forceClose => exact hbalanced.releaseSection _

theorem Balanced.begin_bare {steps : Multiset Step} (hbalanced : Balanced config pool steps)
    (hbare : Bare step) (hholds : config.wait = true → step.holds = 0)
    (hwaits : config.wait = false → step.waits = false) :
    Balanced config pool ((([step] : List Step) : Multiset Step) + steps) := by
  have hholders (hwait : config.wait = true) : holders pool (step ::ₘ steps) = holders pool steps := by
    rw [holders, holders, sum_map_cons, hholds hwait, zero_add]
  rw [coe_singleton_add]
  refine hbalanced.requeue hbare.sameConns (fun tokens hqueue => ?_) (fun hwait hqueue => ?_)
    (fun hwait => ⟨(hbalanced.nowait hwait).1, fun other hother => ?_⟩)
  · cases hwait : config.wait with
    | true => rw [hholders hwait, hbalanced.tokens tokens hqueue]
    | false =>
      rw [(hbalanced.nowait hwait).1] at hqueue
      cases hqueue
  · rw [hholders hwait, hbalanced.unmade hwait hqueue]
  · rcases mem_cons.mp hother with rfl | hother
    · exact hwaits hwait
    · exact (hbalanced.nowait hwait).2 other hother

theorem Balanced.begin {steps : Multiset Step} (hbalanced : Balanced config pool steps) (call : Call) :
    Balanced config pool (((machine config).start call : Multiset Step) + steps) := by
  cases call with
  | aquire =>
    simp only [machine]
    split_ifs with hwait
    · exact hbalanced.begin_bare ⟨rfl, rfl, rfl⟩ (fun _ => rfl) fun hmode => by simp [hwait] at hmode
    · exact hbalanced.begin_bare ⟨rfl, rfl, rfl⟩ (fun hmode => absurd hmode hwait) fun _ => rfl
  | close => exact hbalanced.begin_bare ⟨rfl, rfl, rfl⟩ (fun _ => rfl) fun _ => rfl

theorem balanced_start : Balanced config {} 0 where
  active_eq := rfl
  active_le := by simp
  idle_le := zero_le _
  tokens := fun _ hqueue => by cases hqueue
  unmade := fun _ _ => rfl
  nowait := fun _ => ⟨rfl, fun _ hstep => absurd hstep (notMem_zero _)⟩
  exclusive := Multiset.nodup_zero
  fresh := fun _ hconn => absurd hconn (notMem_zero _)

theorem Balanced.accounted {steps : Multiset Step} (hbalanced : Balanced config pool steps) :
    Accounted config pool steps := by
  refine ⟨hbalanced.active_eq, hbalanced.active_le, hbalanced.idle_le, hbalanced.tokens,
    fun step hstep hsends tokens hqueue => ?_, hbalanced.exclusive⟩
  obtain ⟨others, rfl⟩ := Multiset.exists_cons_of_mem hstep
  have htokens := hbalanced.tokens tokens hqueue
  have hholds : step.holds = 1 := by
    cases step <;> first | rfl | exact absurd hsends Bool.false_ne_true
  rw [holders, sum_map_cons, hholds] at htokens
  omega

end

/-- Whatever the goroutines do and however they interleave, the accounts of the pool are in
order. -/
theorem accounted_run {count : Nat} (config : Config) (actions : List (Action count Met Call)) :
    let pool := (WorkerPool.Pool.start ({} : Pool)).run (machine config) actions
    Accounted config pool.state pool.steps := by
  intro pool
  refine Balanced.accounted ?_
  refine Pool.invariant_run_all (fun _ _ call hbalanced => hbalanced.begin call)
    (fun _ met _ _ hbalanced => hbalanced.runSection met) ?_
  rw [Pool.steps_start]
  exact balanced_start

end LaserDB.GoPool
