import LaserDB.Proxy.RedisProtocol

/-!
# Recovery of the request parser

A header that cannot open a request is to be answered with an error and to leave the parser between
two requests.
-/

namespace LaserDB.RedisProtocol
open List
section
variable {δ : Type} (handlers : Handlers δ)

def Header (msg : Bytes) : Prop :=
  msg.head? = some 42 ∧ ∃ count, tryToInt32 msg.tail = some count ∧ 0 < count

def parserAfter (lines : List Bytes) : Parser :=
  (run handlers {} lines).parser

structure Recovers (lines : List Bytes) : Prop where
  returns : Action.throw ∉ (run handlers {} lines).actions
  /-- a malformed header is answered, and a request that follows is dispatched -/
  rejects : ∀ before header after, lines = before ++ header :: after →
    (parserAfter handlers before).curState = .startState → ¬ Header header →
      (∃ reply, reply.aboutArguments = true ∧
        (process handlers (parserAfter handlers before) header).actions = [.write reply]) ∧
      ∀ request : Request, request.words.length < 2 ^ 31 →
        Delivers (run handlers (process handlers (parserAfter handlers before) header).parser
          request.lines) [request.words]
  /-- an open request is dispatched and answered after some more lines -/
  answers : ∀ before after, lines = before ++ after →
    (parserAfter handlers before).curState = .continueState →
      ∃ count, ∀ more : List Bytes, count ≤ more.length →
        (run handlers (parserAfter handlers before) more).dispatched ≠ [] ∧
          replies (run handlers (parserAfter handlers before) more).actions ≠ []

def HeadersCounted (lines : List Bytes) : Prop :=
  ∀ before header after, lines = before ++ header :: after →
    (parserAfter handlers before).curState = .startState → header.head? = some 42 →
      ∃ count, tryToInt32 header.tail = some count ∧ 0 < count

variable {handlers}

theorem HeadersCounted.of_append {before after : List Bytes}
    (hcounted : HeadersCounted handlers (before ++ after)) : HeadersCounted handlers before := by
  intro first header rest hsplit
  refine hcounted first header (rest ++ after) ?_
  rw [hsplit, append_assoc, cons_append]

theorem parserAfter_append_singleton (lines : List Bytes) (line : Bytes) :
    parserAfter handlers (lines ++ [line]) =
      (process handlers (parserAfter handlers lines) line).parser := by
  rw [parserAfter, run_append]
  rfl

/-- An open request waits for a positive number of words that has not come yet. -/
structure Parser.Waiting (parser : Parser) : Prop where
  curState : parser.curState = .continueState
  fewer : (parser.cmdInfo.length : Int) < parser.cmdNum
  range : parser.cmdNum < 2 ^ 31

def Parser.missing (parser : Parser) : Nat :=
  2 * (parser.cmdNum.toNat - parser.cmdInfo.length) - parser.cmdSeq % 2

theorem tryToInt32_lt {bytes : Bytes} {count : Int} (hcount : tryToInt32 bytes = some count) :
    count < 2 ^ 31 := by
  simp only [tryToInt32, DecimalText.parse] at hcount
  split_ifs at hcount with _ hrange
  all_goals
    obtain rfl := Option.some.inj hcount
    omega

variable {parser : Parser}

section
variable (hall : ∀ callback, handlers.registered callback = true)
include hall

theorem process_waiting (hwaiting : parser.Waiting) (msg : Bytes) :
    Action.throw ∉ (process handlers parser msg).actions ∧
      ((process handlers parser msg).parser.Ready ∧
          (process handlers parser msg).dispatched ≠ [] ∧
          replies (process handlers parser msg).actions ≠ [] ∨
        (process handlers parser msg).parser.Waiting ∧
          (process handlers parser msg).parser.missing < parser.missing) := by
  obtain ⟨hcontinue, hfewer, hrange⟩ := hwaiting
  rw [process_continue hcontinue]
  by_cases heven : parser.cmdSeq % 2 = 0
  · rw [store_skip heven]
    refine ⟨not_mem_nil, .inr ⟨⟨hcontinue, hfewer, hrange⟩, ?_⟩⟩
    simp only [Parser.missing]
    omega
  · have hodd : parser.cmdSeq % 2 = 1 := by omega
    by_cases hlast : (parser.cmdInfo.length : Int) + 1 = parser.cmdNum
    · obtain ⟨hready, hdispatched, hresponds⟩ := store_end hall hodd
        (show _ = parser.cmdNum % 2 ^ 64 by omega) msg
      refine ⟨hresponds.1, .inl ⟨hready, ?_, hresponds.2⟩⟩
      rw [hdispatched]
      exact cons_ne_nil _ _
    · rw [store_keep hodd (by omega)]
      have hlength : (parser.cmdInfo ++ [msg]).length = parser.cmdInfo.length + 1 := by simp
      refine ⟨not_mem_nil, .inr ⟨⟨hcontinue, ?_, hrange⟩, ?_⟩⟩
      · simp only [hlength]
        omega
      · simp only [Parser.missing, hlength]
        omega

theorem answered_of_waiting (hwaiting : parser.Waiting) {more : List Bytes}
    (hmore : parser.missing ≤ more.length) :
    (run handlers parser more).dispatched ≠ [] ∧ replies (run handlers parser more).actions ≠ [] := by
  induction more generalizing parser with
  | nil =>
    have hpositive : 0 < parser.missing := by
      have hfewer := hwaiting.fewer
      simp only [Parser.missing]
      omega
    rw [length_nil] at hmore
    omega
  | cons line more ih =>
    rw [run]
    simp only [replies, filterMap_append]
    rcases (process_waiting hall hwaiting line).2 with
      ⟨-, hdispatched, hreplies⟩ | ⟨hlater, hmissing⟩
    · exact ⟨append_ne_nil_of_left_ne_nil hdispatched _, append_ne_nil_of_left_ne_nil hreplies _⟩
    · rw [length_cons] at hmore
      obtain ⟨hdispatched, hreplies⟩ := ih hlater (by omega)
      exact ⟨append_ne_nil_of_right_ne_nil _ hdispatched, append_ne_nil_of_right_ne_nil _ hreplies⟩

theorem parserAfter_of_counted {lines : List Bytes} (hcounted : HeadersCounted handlers lines) :
    ((parserAfter handlers lines).Ready ∨ (parserAfter handlers lines).Waiting) ∧
      Action.throw ∉ (run handlers {} lines).actions := by
  induction lines using reverseRecOn with
  | nil => exact ⟨.inl ⟨rfl, rfl⟩, not_mem_nil⟩
  | append_singleton lines line ih =>
    obtain ⟨hstate, hreturns⟩ := ih hcounted.of_append
    have hactions : (run handlers {} (lines ++ [line])).actions = (run handlers {} lines).actions ++
          (process handlers (parserAfter handlers lines) line).actions := by
      rw [run_append, run, run]
      exact congrArg _ (append_nil _)
    rw [parserAfter_append_singleton, hactions, mem_append, not_or, and_iff_right hreturns]
    rcases hstate with hready | hwaiting
    · rw [process_start hready.curState]
      by_cases hhead : line.head? = some 42
      · obtain ⟨count, hcount, hpositive⟩ := hcounted lines line [] rfl hready.curState hhead
        rw [start_counted hhead hcount]
        exact ⟨.inr ⟨rfl, hpositive, tryToInt32_lt hcount⟩, not_mem_nil⟩
      · rw [start, if_neg hhead]
        exact ⟨.inl hready, by simp⟩
    · obtain ⟨hnothrow, hnext⟩ := process_waiting hall hwaiting line
      exact ⟨hnext.imp And.left And.left, hnothrow⟩

end

theorem start_refused {msg : Bytes} (hhead : msg.head? ≠ some 42) :
    start parser msg = ⟨parser, [], [.write .formatError]⟩ :=
  if_neg hhead

end

/-- The parser recovers on a connection exactly when every header that begins with a star has a
positive count that fits. -/
theorem recovers_iff {δ : Type} (backend : Backend δ) (doubles : Doubles δ) (lines : List Bytes) :
    Recovers (getOrCreateRedisProtocol backend doubles) lines ↔
      HeadersCounted (getOrCreateRedisProtocol backend doubles) lines := by
  constructor
  · intro hrecovers before header after hsplit hstart hhead
    by_contra hmalformed
    obtain ⟨⟨reply, -, hreply⟩, -⟩ :=
      hrecovers.rejects before header after hsplit hstart fun hheader => hmalformed hheader.2
    rw [process_start hstart] at hreply
    cases hcount : tryToInt32 header.tail with
    | none =>
      rw [start_uncounted hhead hcount] at hreply
      cases hreply
    | some count =>
      rw [start_counted hhead hcount] at hreply
      cases hreply
  · intro hcounted
    have hstate {before after : List Bytes} (hsplit : lines = before ++ after) :=
      parserAfter_of_counted (fun _ => rfl) (hsplit ▸ hcounted).of_append
    refine ⟨(parserAfter_of_counted (fun _ => rfl) hcounted).2, ?_, ?_⟩
    · intro before header after hsplit hstart hmalformed
      have hhead : header.head? ≠ some 42 := fun hhead =>
        hmalformed ⟨hhead, hcounted before header after hsplit hstart hhead⟩
      have hready : (parserAfter (getOrCreateRedisProtocol backend doubles) before).Ready := by
        refine (hstate hsplit).1.resolve_right fun hwaiting => ?_
        rw [hwaiting.curState] at hstart
        cases hstart
      rw [process_start hstart, start_refused hhead]
      exact ⟨⟨.formatError, rfl, rfl⟩, fun request hcount =>
        delivers_request (fun _ => rfl) hready hcount⟩
    · intro before after hsplit hcontinue
      have hwaiting : (parserAfter (getOrCreateRedisProtocol backend doubles) before).Waiting := by
        refine (hstate hsplit).1.resolve_left fun hready => ?_
        rw [hready.curState] at hcontinue
        cases hcontinue
      exact ⟨_, fun more hmore => answered_of_waiting (fun _ => rfl) hwaiting hmore⟩

/-- After `*0` nothing is answered, not even a well-formed request. -/
theorem recovers_fails :
    let handlers := getOrCreateRedisProtocol sortedSetBackend wholeDoubles
    (run handlers {} (text "*0" :: Request.lines ⟨text "ping", []⟩)).actions = [] ∧
      (run handlers {} [text "*many"]).actions = [.throw] ∧ ¬ Recovers handlers [text "*0"] := by
  intro handlers
  refine ⟨by decide, by decide, fun hrecovers => ?_⟩
  have hmalformed : ¬ Header (text "*0") := by
    rintro ⟨-, count, hcount, hpositive⟩
    have hzero : tryToInt32 (text "*0").tail = some 0 := by decide
    obtain rfl := Option.some.inj (hzero.symm.trans hcount)
    omega
  obtain ⟨⟨reply, -, hreply⟩, -⟩ := hrecovers.rejects [] (text "*0") [] rfl rfl hmalformed
  have hsilent : (process handlers (parserAfter handlers []) (text "*0")).actions = [] := by decide
  rw [hsilent] at hreply
  cases hreply

end LaserDB.RedisProtocol
