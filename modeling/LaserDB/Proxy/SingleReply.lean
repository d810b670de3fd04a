import LaserDB.Proxy.RedisCommands

/-!
# One reply to a request

`zadd` and `zrangebyscore` go on after they have refused an argument, and then answer twice.
-/

namespace LaserDB.RedisProtocol
open List

def Action.reply? : Action → Option Reply
  | .write reply => some reply
  | _ => none

def replies (actions : List Action) : List Reply :=
  actions.filterMap Action.reply?

/-- The request is answered once, and has changed nothing if its arguments were refused. -/
structure Answered (actions : List Action) : Prop where
  once : (replies actions).length = 1
  unchanged : ∀ reply ∈ replies actions, reply.aboutArguments = true →
    ∀ callback, Action.change callback ∉ actions
  returns : Action.throw ∉ actions

/-- The request is answered at all. -/
def Responds (actions : List Action) : Prop :=
  Action.throw ∉ actions ∧ replies actions ≠ []

theorem Answered.responds {actions : List Action} (hanswered : Answered actions) :
    Responds actions :=
  ⟨hanswered.returns, ne_nil_of_length_pos (hanswered.once ▸ Nat.one_pos)⟩

theorem Answered.write (reply : Reply) : Answered [.write reply] where
  once := rfl
  unchanged := by simp
  returns := by simp

theorem Answered.write_release (reply : Reply) : Answered [.write reply, .release] where
  once := rfl
  unchanged := by simp
  returns := by simp

variable {callback : Callback}

variable {reply : Reply}

theorem Answered.change_write (hreply : reply.aboutArguments = false) :
    Answered [.change callback, .write reply] where
  once := rfl
  unchanged := by simp [replies, Action.reply?, hreply]
  returns := by simp

theorem Answered.write_change (hreply : reply.aboutArguments = false) :
    Answered [.write reply, .change callback] where
  once := rfl
  unchanged := by simp [replies, Action.reply?, hreply]
  returns := by simp

variable {rest : List Action}

theorem Answered.withArguments {accepted : Bool} (hrest : Answered rest) :
    Answered (withArguments accepted rest) := by
  cases accepted with
  | true => exact hrest
  | false => exact .write _

theorem Answered.withNumber {number : Option β} {refusal : Reply}
    {rest : β → List Action} (hrest : ∀ value, Answered (rest value)) :
    Answered (withNumber number refusal rest) := by
  cases number with
  | some value => exact hrest value
  | none => exact .write _

variable {δ : Type} {handlers : Handlers δ}

section
variable (hall : ∀ callback, handlers.registered callback = true)
include hall

theorem whenRegistered_eq (rest : List Action) : whenRegistered handlers callback rest = rest :=
  if_pos (hall callback)

theorem whenEitherRegistered_eq (first second : Callback) (rest : List Action) :
    whenEitherRegistered handlers first second rest = rest := by
  simp [whenEitherRegistered, hall]

theorem call_eq (outcome : Option β) (rest : Option β → List Action) :
    call handlers callback outcome rest =
      (if outcome.isSome && callback.writes then [.change callback] else []) ++ rest outcome :=
  if_pos (hall callback)

theorem Answered.call_read (hreads : callback.writes = false) {outcome : Option β}
    {rest : Option β → List Action} (hrest : Answered (rest outcome)) :
    Answered (call handlers callback outcome rest) := by
  rw [call_eq hall, hreads, Bool.and_false]
  exact hrest

section
variable {β : Type} {success : β → Reply}
  (hsuccess : ∀ value, (success value).aboutArguments = false)
include hsuccess

variable {outcome : Option β}

theorem Answered.call_answer {failure : Reply} :
    Answered (call handlers callback outcome (answer success failure)) := by
  rw [call_eq hall]
  cases outcome with
  | none => exact .write failure
  | some value =>
    cases callback.writes with
    | false => exact .write (success value)
    | true => exact .change_write (hsuccess value)

theorem Answered.callCmd {failure : Reply} :
    Answered (callCmd handlers callback outcome success failure) := by
  rw [RedisProtocol.callCmd, whenRegistered_eq hall]
  exact .call_answer hall hsuccess

end

theorem Answered.write_call {outcome : Option β} (hreply : reply.aboutArguments = false)
    : Answered (.write reply :: call handlers callback outcome fun _ => []) := by
  rw [call_eq hall, append_nil]
  split_ifs
  · exact .write_change hreply
  · exact .write reply

theorem answered_incrbyfloatCmd (key : Bytes) (step : δ) :
    Answered (incrbyfloatCmd handlers key step) := by
  rw [incrbyfloatCmd, whenRegistered_eq hall, whenRegistered_eq hall]
  refine .call_read hall rfl ?_
  split
  · split
    · exact .write_call hall rfl
    · exact .write _
  · exact .write_call hall rfl

variable (key value : Bytes)

theorem answered_getsetCmd : Answered (getsetCmd handlers key value) := by
  rw [getsetCmd, whenRegistered_eq hall, whenRegistered_eq hall]
  refine .call_read hall rfl ?_
  cases handlers.backend.get key <;> exact .write_call hall rfl

theorem answered_setnxCmd : Answered (setnxCmd handlers key value) := by
  rw [setnxCmd, whenRegistered_eq hall, whenRegistered_eq hall]
  refine .call_read hall rfl ?_
  split
  · exact .write _
  · exact .call_answer hall fun _ => rfl

theorem answered_msetnxCmd (kvs : List (Bytes × Bytes)) : Answered (msetnxCmd handlers kvs) := by
  rw [msetnxCmd, whenRegistered_eq hall, whenRegistered_eq hall]
  refine .call_read hall rfl ?_
  split
  · split_ifs
    · exact .write _
    · exact .call_answer hall fun _ => rfl
  · exact .call_answer hall fun _ => rfl

theorem answered_zrangebyscoreCmd (key min max : Bytes) (flagScore : Bool) :
    Answered (zrangebyscoreCmd handlers key min max flagScore) := by
  rw [zrangebyscoreCmd, whenRegistered_eq hall]
  split
  · exact .write _
  · split_ifs
    · exact .write _
    · refine .call_read hall rfl ?_
      unfold answer
      split <;> exact .write _

theorem answered_zremrangebyscoreCmd (key strMin strMax : Bytes) :
    Answered (zremrangebyscoreCmd handlers key strMin strMax) := by
  rw [zremrangebyscoreCmd, whenRegistered_eq hall]
  split
  · exact .write _
  · split_ifs
    · exact .write _
    · exact .call_answer hall fun _ => rfl

theorem answered_hsetnxCmd (key field value : Bytes) :
    Answered (hsetnxCmd handlers key field value) := by
  rw [hsetnxCmd, whenEitherRegistered_eq hall]
  refine .call_read hall rfl ?_
  split
  · exact .write _
  · exact .call_answer hall fun _ => rfl

theorem answered_hincr {tryTo : Bytes → Option β} {toString : β → Bytes}
    {add : β → β → β} {success : β → Reply}
    (hsuccess : ∀ value, (success value).aboutArguments = false) (key field : Bytes) (step : β) :
    Answered (hincr handlers tryTo toString add success key field step) := by
  rw [hincr, whenEitherRegistered_eq hall]
  refine .call_read hall rfl ?_
  split
  · split
    · exact .call_answer hall fun _ => hsuccess _
    · exact .write _
  · exact .call_answer hall fun _ => hsuccess _

end

section
def Wellformed (doubles : Doubles δ) (arguments : List Bytes) : Command → Prop
  | .zadd => 3 ≤ arguments.length → arguments.length % 2 = 1 →
      ∀ entry ∈ pairs (arguments.drop 1), (doubles.tryTo entry.1).isSome = true
  | .zrangebyscore => arguments.length = 4 →
      toLowerAscii (arguments.getD 3 []) = text "withscores"
  | _ => True

theorem readScores_refused_iff (doubles : Doubles δ) (entries : List (Bytes × Bytes))
    (memberScores : List (Bytes × δ)) :
    (readScores doubles entries memberScores).2 = false ↔
      ∀ entry ∈ entries, (doubles.tryTo entry.1).isSome = true := by
  induction entries generalizing memberScores with
  | nil => simp [readScores]
  | cons entry entries ih =>
    rw [readScores, forall_mem_cons]
    split
    · next hscore => simp [hscore]
    · next value hscore => simp [ih, hscore]

theorem answered_append_iff (refused : Bool) (reply : Reply) (hrest : Answered rest) :
    Answered ((if refused then [.write reply] else []) ++ rest) ↔ refused = false := by
  cases refused with
  | false => exact iff_of_true hrest rfl
  | true =>
    refine iff_of_false (fun hboth => ?_) (by decide)
    have htwice : (replies (.write reply :: rest)).length = (replies rest).length + 1 := rfl
    have honce := hboth.once
    rw [if_pos rfl, singleton_append, htwice, hrest.once] at honce
    omega

theorem answered_withArguments_iff (accepted : Bool) (rest : List Action) :
    Answered (withArguments accepted rest) ↔ (accepted = true → Answered rest) := by
  cases accepted with
  | true => simp [withArguments]
  | false => exact iff_of_true (.write _) fun hfalse => absurd hfalse Bool.false_ne_true

variable (hall : ∀ callback, handlers.registered callback = true) (msg name : Bytes)
  (arguments : List Bytes)
include hall

theorem answered_zadd_iff :
    Answered (execute handlers .zadd msg (name :: arguments)) ↔
      Wellformed handlers.doubles arguments .zadd := by
  have hcmd (scores : List (Bytes × δ)) : Answered (zaddCmd handlers (arguments.getD 0 []) scores) :=
    .callCmd hall fun _ => rfl
  have hcount : (4 ≤ arguments.length + 1 && (arguments.length + 1) % 2 == 0) = true ↔
      3 ≤ arguments.length ∧ arguments.length % 2 = 1 := by
    simp only [Bool.and_eq_true, decide_eq_true_eq, beq_iff_eq]
    omega
  refine (answered_withArguments_iff _ _).trans ?_
  rw [length_cons, hcount, and_imp]
  refine imp_congr_right fun _ => imp_congr_right fun _ => ?_
  exact (answered_append_iff _ _ (hcmd _)).trans (readScores_refused_iff _ _ _)

theorem answered_zrangebyscore_iff :
    Answered (execute handlers .zrangebyscore msg (name :: arguments)) ↔
      Wellformed handlers.doubles arguments .zrangebyscore := by
  have hcmd (flagScore : Bool) := answered_zrangebyscoreCmd hall (arguments.getD 0 [])
    (arguments.getD 1 []) (arguments.getD 2 []) flagScore
  refine (answered_withArguments_iff _ _).trans ?_
  refine (imp_congr_right fun _ => answered_append_iff _ _ (hcmd _)).trans ?_
  simp only [Wellformed, length_cons, getD_cons_succ, decide_eq_true_eq]
  by_cases hfive : arguments.length = 4
  · simp [hfive]
  · simp [hfive]

theorem answered_execute_iff (cmd : Command) :
    Answered (execute handlers cmd msg (name :: arguments)) ↔
      Wellformed handlers.doubles arguments cmd := by
  cases cmd with
  | zadd => exact answered_zadd_iff hall msg name arguments
  | zrangebyscore => exact answered_zrangebyscore_iff hall msg name arguments
  | command | select | ping => exact iff_of_true (.write _) trivial
  | quit => exact iff_of_true (.write_release _) trivial
  | echo => exact iff_of_true (.withArguments (.write _)) trivial
  | config =>
    refine iff_of_true (.withArguments ?_) trivial
    split_ifs
    · exact .withArguments (.callCmd hall fun _ => rfl)
    · exact .withArguments (.callCmd hall fun _ => rfl)
    · exact .write _
  | expire | expireat | setex | psetex =>
    exact iff_of_true (.withArguments (.withNumber fun _ => .callCmd hall fun _ => rfl)) trivial
  | decrby =>
    refine iff_of_true (.withArguments (.withNumber fun step => ?_)) trivial
    rw [decrbyCmd, whenRegistered_eq hall]
    exact .call_answer hall fun _ => rfl
  | incrby =>
    refine iff_of_true (.withArguments (.withNumber fun step => ?_)) trivial
    rw [incrbyCmd, whenRegistered_eq hall]
    exact .call_answer hall fun _ => rfl
  | incrbyfloat =>
    exact iff_of_true (.withArguments (.withNumber (answered_incrbyfloatCmd hall _))) trivial
  | getset => exact iff_of_true (.withArguments (answered_getsetCmd hall _ _)) trivial
  | setnx => exact iff_of_true (.withArguments (answered_setnxCmd hall _ _)) trivial
  | msetnx => exact iff_of_true (.withArguments (answered_msetnxCmd hall _)) trivial
  | zremrangebyscore =>
    exact iff_of_true (.withArguments (answered_zremrangebyscoreCmd hall _ _ _)) trivial
  | hsetnx => exact iff_of_true (.withArguments (answered_hsetnxCmd hall _ _ _)) trivial
  | hincrby | hincrbyfloat =>
    exact iff_of_true
      (.withArguments (.withNumber fun _ => answered_hincr hall (fun _ => rfl) _ _ _)) trivial
  | _ => exact iff_of_true (.withArguments (.callCmd hall fun _ => rfl)) trivial

theorem responds_execute (cmd : Command) : Responds (execute handlers cmd msg (name :: arguments)) := by
  have hgoesOn (accepted refused : Bool) (reply : Reply) {rest : List Action}
      (hrest : Answered rest) :
      Responds (withArguments accepted ((if refused then [.write reply] else []) ++ rest)) := by
    obtain ⟨hreturns, hreplies⟩ := hrest.responds
    cases accepted <;> cases refused <;>
      simp_all [Responds, withArguments, replies, Action.reply?]
  cases cmd with
  | zadd => exact hgoesOn _ _ _ (.callCmd hall fun _ => rfl)
  | zrangebyscore => exact hgoesOn _ _ _ (answered_zrangebyscoreCmd hall _ _ _ _)
  | _ =>
    refine ((answered_execute_iff hall msg name arguments _).mpr ?_).responds
    exact trivial

theorem responds_finish : Responds (finish handlers msg name arguments) := by
  rw [finish]
  split
  · exact (Answered.write _).responds
  · exact responds_execute hall _ _ _ _

end

/-- A request to the proxy is answered once and a refused one changes nothing, exactly when `zadd`
is given numbers as scores and the fifth word of `zrangebyscore` is `withscores`. -/
theorem answered_finish_iff {δ : Type} (backend : Backend δ) (doubles : Doubles δ)
    (msg name : Bytes) (arguments : List Bytes) :
    Answered (finish (getOrCreateRedisProtocol backend doubles) msg name arguments) ↔
      ∀ cmd, cmdTable.lookup (toLowerAscii name) = some cmd → Wellformed doubles arguments cmd := by
  rw [finish]
  split
  · next hunknown => exact iff_of_true (.write _) fun cmd hcmd => by simp [hunknown] at hcmd
  · next cmd hcmd =>
      rw [answered_execute_iff fun _ => rfl]
      exact ⟨fun hwell other hother => Option.some.inj (hcmd.symm.trans hother) ▸ hwell,
        fun hwell => hwell cmd hcmd⟩

/-- A store that takes every sorted set and refuses everything else. -/
def sortedSetBackend : Backend Int where
  configGet _ := none
  configSet _ _ := none
  get _ := none
  set _ _ := none
  setex _ _ _ := none
  append _ _ := none
  existsKeys _ := none
  mget _ := none
  mset _ := none
  zadd _ memberScores := some (UInt32.ofNat memberScores.length)
  zrangebyscore _ _ _ := some []
  zremrangebyscore _ _ _ := none
  hget _ _ := none
  hset _ _ _ := none
  hmget _ _ := none
  hmset _ _ := none
  hgetall _ := none
  hkeys _ := none
  hlen _ := none
  hexists _ _ := none
  hdel _ _ := none
  del _ := none
  expire _ _ := none
  expireat _ _ := none
  ttl _ := none
  decr _ := none
  incr _ := none
  decrby _ _ := none
  incrby _ _ := none

def wholeDoubles : Doubles Int where
  tryTo := tryToInt64
  toString := DecimalText.printInt
  add := (· + ·)
  neg := (- ·)
  greater left right := right < left
  equal left right := left == right
  largestScore := 2 ^ 40

/-- `zadd k 1 a x b` is refused, adds `a` and is answered a second time. -/
theorem answered_zadd_fails :
    finish (getOrCreateRedisProtocol sortedSetBackend wholeDoubles) (text "b") (text "zadd")
        [text "k", text "1", text "a", text "x", text "b"] =
      [.write .zaddValueTypeError, .change .zadd, .write (.integer 1)] ∧
    ¬ Answered (finish (getOrCreateRedisProtocol sortedSetBackend wholeDoubles) (text "b")
        (text "zadd") [text "k", text "1", text "a", text "x", text "b"]) := by
  have hactions : finish (getOrCreateRedisProtocol sortedSetBackend wholeDoubles) (text "b")
      (text "zadd") [text "k", text "1", text "a", text "x", text "b"] =
        [.write .zaddValueTypeError, .change .zadd, .write (.integer 1)] := by
    decide
  refine ⟨hactions, fun hanswered => ?_⟩
  rw [hactions] at hanswered
  exact absurd hanswered.once (by decide)

end LaserDB.RedisProtocol
