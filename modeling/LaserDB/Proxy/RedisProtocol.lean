import LaserDB.Library.LineFraming
import LaserDB.Proxy.SingleReply

/-!
# Requests of the redis proxy

The first line of a request has the number of its words; then lines come two by two, of which the
first, the length of a word, is skipped.
-/

namespace LaserDB.RedisProtocol
open List DecimalText

inductive State
  | startState
  | continueState
  deriving DecidableEq, Repr

/-- What `RedisProtocol` keeps between two lines. -/
structure Parser where
  /-- an `int32_t` -/
  cmdNum : Int := -1
  /-- a `uint32_t` -/
  cmdSeq : Nat := 0
  curState : State := .startState
  cmdInfo : List Bytes := []
  deriving DecidableEq, Repr

/-- What some lines did: the requests that were handed to `end`, and what was done for them. -/
structure Outcome where
  parser : Parser
  dispatched : List (List Bytes)
  actions : List Action

section
variable {δ : Type} (handlers : Handlers δ)

/-- `RedisProtocol::start`: `t.value()` throws if the rest of the line is no number. -/
def start (parser : Parser) (msg : Bytes) : Outcome :=
  if msg.head? = some 42 then
    match tryToInt32 msg.tail with
    | none => ⟨parser, [], [.throw]⟩
    | some count =>
      ⟨{ parser with cmdNum := count, cmdInfo := [], curState := .continueState }, [], []⟩
  else ⟨parser, [], [.write .formatError]⟩

/-- `RedisProtocol::store`: the count is compared as a `size_t`. -/
def store (parser : Parser) (msg : Bytes) : Outcome :=
  let seq := (parser.cmdSeq + 1) % 2 ^ 32
  if seq % 2 = 0 then
    let info := parser.cmdInfo ++ [msg]
    let stored := { parser with cmdSeq := seq, cmdInfo := info }
    if (info.length : Int) = parser.cmdNum % 2 ^ 64 then
      let actions := finish handlers msg (info.headD []) info.tail
      if Action.throw ∈ actions then ⟨stored, [info], actions⟩
      else
        ⟨{ stored with curState := .startState, cmdNum := -1, cmdSeq := 0 }, [info], actions⟩
    else ⟨stored, [], []⟩
  else ⟨{ parser with cmdSeq := seq }, [], []⟩

def process (parser : Parser) (msg : Bytes) : Outcome :=
  match parser.curState with
  | .startState => start parser msg
  | .continueState => store handlers parser msg

def run : Parser → List Bytes → Outcome
  | parser, [] => ⟨parser, [], []⟩
  | parser, line :: lines =>
    let first := process handlers parser line
    let rest := run first.parser lines
    ⟨rest.parser, first.dispatched ++ rest.dispatched, first.actions ++ rest.actions⟩

/-- The pipeline: a line decoder in front of `process`. -/
def pipeline (chunks : List Bytes) : Outcome :=
  run handlers {} (LineFraming.decodeChunks 10 13 [] chunks).2

end

structure Request where
  name : Bytes
  arguments : List Bytes

def Request.words (request : Request) : List Bytes :=
  request.name :: request.arguments

def wordLines (words : List Bytes) : List Bytes :=
  words.flatMap fun word => [text "$" ++ print word.length, word]

def Request.lines (request : Request) : List Bytes :=
  (text "*" ++ print request.words.length) :: wordLines request.words

def Request.encode (request : Request) : Bytes :=
  request.lines.flatMap fun line => line ++ [13, 10]

structure Parser.Ready (parser : Parser) : Prop where
  curState : parser.curState = .startState
  cmdSeq : parser.cmdSeq = 0

variable {parser : Parser} {request : Request}

section
variable {δ : Type} {handlers : Handlers δ}

theorem run_append (parser : Parser) (first second : List Bytes) :
    run handlers parser (first ++ second) =
      ⟨(run handlers (run handlers parser first).parser second).parser,
        (run handlers parser first).dispatched ++
          (run handlers (run handlers parser first).parser second).dispatched,
        (run handlers parser first).actions ++
          (run handlers (run handlers parser first).parser second).actions⟩ := by
  induction first generalizing parser with
  | nil => rfl
  | cons line first ih =>
    rw [cons_append, run, run, ih]
    simp only [append_assoc]

theorem process_start (hstart : parser.curState = .startState) (msg : Bytes) :
    process handlers parser msg = start parser msg := by
  rw [process, hstart]

theorem process_continue (hcontinue : parser.curState = .continueState) (msg : Bytes) :
    process handlers parser msg = store handlers parser msg := by
  rw [process, hcontinue]

theorem start_counted {msg : Bytes} {count : Int} (hhead : msg.head? = some 42)
    (hcount : tryToInt32 msg.tail = some count) :
    start parser msg =
      ⟨{ parser with cmdNum := count, cmdInfo := [], curState := .continueState }, [], []⟩ := by
  rw [start, if_pos hhead, hcount]

theorem start_uncounted {msg : Bytes} (hhead : msg.head? = some 42)
    (hcount : tryToInt32 msg.tail = none) : start parser msg = ⟨parser, [], [.throw]⟩ := by
  rw [start, if_pos hhead, hcount]

theorem tryToInt32_print (number : Nat) :
    tryToInt32 (print number) = if number < 2 ^ 31 then some (number : Int) else none := by
  rw [tryToInt32, parse_print number (by norm_num)]
  refine if_congr ?_ rfl rfl
  omega

theorem store_skip (heven : parser.cmdSeq % 2 = 0) (msg : Bytes) :
    store handlers parser msg =
      ⟨{ parser with cmdSeq := (parser.cmdSeq + 1) % 2 ^ 32 }, [], []⟩ := by
  have hodd : (parser.cmdSeq + 1) % 2 ^ 32 % 2 ≠ 0 := by omega
  simp only [store, if_neg hodd]

theorem store_keep (hodd : parser.cmdSeq % 2 = 1)
    (hcount : (parser.cmdInfo.length : Int) + 1 ≠ parser.cmdNum % 2 ^ 64) (msg : Bytes) :
    store handlers parser msg =
      ⟨{ parser with cmdSeq := (parser.cmdSeq + 1) % 2 ^ 32,
                     cmdInfo := parser.cmdInfo ++ [msg] }, [], []⟩ := by
  have heven : (parser.cmdSeq + 1) % 2 ^ 32 % 2 = 0 := by omega
  have hlength : ((parser.cmdInfo ++ [msg]).length : Int) ≠ parser.cmdNum % 2 ^ 64 := by
    rw [length_append, length_singleton]
    exact_mod_cast hcount
  simp only [store, if_pos heven, if_neg hlength]

theorem store_end (hall : ∀ callback, handlers.registered callback = true)
    (hodd : parser.cmdSeq % 2 = 1)
    (hcount : (parser.cmdInfo.length : Int) + 1 = parser.cmdNum % 2 ^ 64) (msg : Bytes) :
    (store handlers parser msg).parser.Ready ∧
      (store handlers parser msg).dispatched = [parser.cmdInfo ++ [msg]] ∧
      Responds (store handlers parser msg).actions := by
  have heven : (parser.cmdSeq + 1) % 2 ^ 32 % 2 = 0 := by omega
  have hlength : ((parser.cmdInfo ++ [msg]).length : Int) = parser.cmdNum % 2 ^ 64 := by
    rw [length_append, length_singleton]
    exact_mod_cast hcount
  have hresponds := responds_finish hall msg ((parser.cmdInfo ++ [msg]).headD [])
    (parser.cmdInfo ++ [msg]).tail
  have hstore : store handlers parser msg =
      ⟨{ parser with cmdSeq := 0, cmdInfo := parser.cmdInfo ++ [msg], curState := .startState,
                     cmdNum := -1 }, [parser.cmdInfo ++ [msg]],
        finish handlers msg ((parser.cmdInfo ++ [msg]).headD []) (parser.cmdInfo ++ [msg]).tail⟩ := by
    simp only [store, if_pos heven, if_pos hlength, if_neg hresponds.1]
  rw [hstore]
  exact ⟨⟨rfl, rfl⟩, rfl, hresponds⟩

theorem run_keep (hcontinue : parser.curState = .continueState) (heven : parser.cmdSeq % 2 = 0)
    (hcount : (parser.cmdInfo.length : Int) + 1 ≠ parser.cmdNum % 2 ^ 64) (length word : Bytes)
    (lines : List Bytes) :
    run handlers parser (length :: word :: lines) =
      run handlers { parser with cmdSeq := (parser.cmdSeq + 2) % 2 ^ 32,
                                 cmdInfo := parser.cmdInfo ++ [word] } lines := by
  have hodd : (parser.cmdSeq + 1) % 2 ^ 32 % 2 = 1 := by omega
  have hseq : ((parser.cmdSeq + 1) % 2 ^ 32 + 1) % 2 ^ 32 = (parser.cmdSeq + 2) % 2 ^ 32 := by omega
  rw [run, process_continue hcontinue, store_skip heven, run,
    process_continue (by exact hcontinue), store_keep (by exact hodd) (by exact hcount)]
  simp only [hseq, nil_append]

structure Delivers (outcome : Outcome) (requests : List (List Bytes)) : Prop where
  dispatched : outcome.dispatched = requests
  ready : outcome.parser.Ready
  returns : Action.throw ∉ outcome.actions

theorem delivers_append {first second : List Bytes} {requests later : List (List Bytes)}
    (hfirst : Delivers (run handlers parser first) requests)
    (hsecond : Delivers (run handlers (run handlers parser first).parser second) later) :
    Delivers (run handlers parser (first ++ second)) (requests ++ later) := by
  rw [run_append]
  exact ⟨congrArg₂ (· ++ ·) hfirst.dispatched hsecond.dispatched, hsecond.ready,
    fun hthrow => (mem_append.mp hthrow).elim hfirst.returns hsecond.returns⟩

variable (hall : ∀ callback, handlers.registered callback = true)

section
include hall

theorem delivers_last (hcontinue : parser.curState = .continueState) (heven : parser.cmdSeq % 2 = 0)
    (hcount : (parser.cmdInfo.length : Int) + 1 = parser.cmdNum % 2 ^ 64) (length word : Bytes) :
    Delivers (run handlers parser [length, word]) [parser.cmdInfo ++ [word]] := by
  have hodd : (parser.cmdSeq + 1) % 2 ^ 32 % 2 = 1 := by omega
  have hstored : ({ parser with cmdSeq := (parser.cmdSeq + 1) % 2 ^ 32 } : Parser).cmdInfo =
    parser.cmdInfo := rfl
  obtain ⟨hready, hdispatched, hreturns, -⟩ :=
    @store_end { parser with cmdSeq := (parser.cmdSeq + 1) % 2 ^ 32 } _ handlers hall hodd hcount
      word
  rw [run, process_continue hcontinue, store_skip heven, run, process_continue (by exact hcontinue)]
  simp only [run, append_nil, nil_append]
  exact ⟨hdispatched, hready, hreturns⟩

theorem delivers_wordLines {word : Bytes} {words : List Bytes}
    (hcontinue : parser.curState = .continueState) (heven : parser.cmdSeq % 2 = 0)
    (hcount : parser.cmdNum = parser.cmdInfo.length + (words.length + 1))
    (hrange : parser.cmdNum < 2 ^ 31) :
    Delivers (run handlers parser (wordLines (word :: words)))
      [parser.cmdInfo ++ word :: words] := by
  induction words generalizing parser word with
  | nil =>
    rw [length_nil] at hcount
    exact delivers_last hall hcontinue heven (by omega) _ _
  | cons next words ih =>
    rw [length_cons] at hcount
    have hfewer : (parser.cmdInfo.length : Int) + 1 ≠ parser.cmdNum % 2 ^ 64 := by omega
    have hlines : wordLines (word :: next :: words) =
      (text "$" ++ print word.length) :: word :: wordLines (next :: words) := rfl
    have hinfo : parser.cmdInfo ++ word :: next :: words =
      (parser.cmdInfo ++ [word]) ++ next :: words := by simp
    rw [hlines, run_keep hcontinue heven hfewer, hinfo]
    refine ih hcontinue ?_ ?_ hrange
    · dsimp only
      omega
    · dsimp only
      rw [length_append, length_singleton]
      push_cast at hcount ⊢
      omega

theorem delivers_request (hready : parser.Ready) (hcount : request.words.length < 2 ^ 31) :
    Delivers (run handlers parser request.lines) [request.words] := by
  have hnumber : tryToInt32 (text "*" ++ print request.words.length).tail =
      some (request.words.length : Int) := by
    exact (tryToInt32_print _).trans (if_pos hcount)
  have hwords := @delivers_wordLines
    { parser with cmdNum := request.words.length, cmdInfo := [], curState := .continueState }
    _ handlers hall request.name request.arguments rfl (by simp [hready.cmdSeq]) (by simp [Request.words])
    (by dsimp only; omega)
  rw [Request.lines, run, process_start hready.curState, start_counted rfl hnumber]
  exact hwords

end

theorem throw_mem_of_count (hstart : parser.curState = .startState)
    (hcount : 2 ^ 31 ≤ request.words.length) (lines : List Bytes) :
    Action.throw ∈ (run handlers parser (request.lines ++ lines)).actions := by
  have hnumber : tryToInt32 (text "*" ++ print request.words.length).tail = none :=
    (tryToInt32_print _).trans (if_neg (by omega))
  rw [Request.lines, cons_append, run, process_start hstart, start_uncounted rfl hnumber]
  exact mem_append_left _ (mem_singleton_self _)

theorem process_words (parser : Parser) (msg : Bytes) :
    (∀ word ∈ (process handlers parser msg).parser.cmdInfo, word ∈ parser.cmdInfo ∨ word = msg) ∧
      ∀ words ∈ (process handlers parser msg).dispatched, ∀ word ∈ words,
        word ∈ parser.cmdInfo ∨ word = msg := by
  unfold process
  split
  · unfold start
    split_ifs
    · split <;> simp +contextual
    · simp +contextual
  · simp only [store]
    split_ifs <;> simp +contextual

theorem mem_of_mem_dispatched {lines words : List Bytes} {word : Bytes}
    (hwords : words ∈ (run handlers parser lines).dispatched) (hword : word ∈ words) :
    word ∈ parser.cmdInfo ∨ word ∈ lines := by
  induction lines generalizing parser with
  | nil => cases hwords
  | cons line lines ih =>
    obtain ⟨hkept, hdispatched⟩ := @process_words _ handlers parser line
    have hfirst (horigin : word ∈ parser.cmdInfo ∨ word = line) :
        word ∈ parser.cmdInfo ∨ word ∈ line :: lines :=
      horigin.imp_right fun (heq : word = line) => heq ▸ mem_cons_self
    rcases mem_append.mp hwords with hnow | hlater
    · exact hfirst (hdispatched words hnow word hword)
    · rcases ih hlater with hinfo | hline
      · exact hfirst (hkept word hinfo)
      · exact .inr (mem_cons_of_mem _ hline)

end

section

theorem encode_eq_lines (requests : List Request) :
    requests.flatMap Request.encode =
      (requests.flatMap Request.lines).flatMap fun line => line ++ [13, 10] := by
  rw [flatMap_assoc]
  rfl

theorem notMem_print (number : Nat) : (10 : UInt8) ∉ print number := by
  intro hmem
  exact absurd (isDigit_of_mem_print hmem) (by decide)

theorem notMem_header (mark : UInt8) (hmark : 10 ≠ mark) (number : Nat) :
    (10 : UInt8) ∉ [mark] ++ print number := by
  rw [mem_append, mem_singleton, not_or]
  exact ⟨hmark, notMem_print number⟩

theorem Request.notMem_lines (hwords : ∀ word ∈ request.words, 10 ∉ word) :
    ∀ line ∈ request.lines, (10 : UInt8) ∉ line := by
  intro line hline
  rcases mem_cons.mp hline with rfl | hline
  · exact notMem_header 42 (by decide) _
  · obtain ⟨word, hword, hpair⟩ := mem_flatMap.mp hline
    rcases mem_pair.mp hpair with rfl | rfl
    · exact notMem_header 36 (by decide) _
    · exact hwords line hword

variable {δ : Type} {handlers : Handlers δ}
  (hall : ∀ callback, handlers.registered callback = true)
include hall

theorem delivers_lines_iff (hready : parser.Ready) (requests : List Request) :
    Delivers (run handlers parser (requests.flatMap Request.lines)) (requests.map Request.words) ↔
      ∀ request ∈ requests, request.words.length < 2 ^ 31 := by
  induction requests generalizing parser with
  | nil => exact iff_of_true ⟨rfl, hready, not_mem_nil⟩ (by simp)
  | cons request requests ih =>
    rw [flatMap_cons, map_cons, forall_mem_cons]
    by_cases hcount : request.words.length < 2 ^ 31
    · have hfirst := delivers_request hall hready hcount
      rw [and_iff_right hcount, ← ih hfirst.ready]
      refine ⟨fun hdelivers => ?_, delivers_append hfirst⟩
      rw [run_append] at hdelivers
      have hsplit := hdelivers.dispatched
      rw [hfirst.dispatched] at hsplit
      exact ⟨cons_injective hsplit, hdelivers.ready, fun hthrow =>
        hdelivers.returns (mem_append_right _ hthrow)⟩
    · refine iff_of_false (fun hdelivers => hdelivers.returns ?_) fun hall => hcount hall.1
      exact throw_mem_of_count hready.curState (Nat.le_of_not_lt hcount) _

end

/-- However the stream is divided, the pipeline dispatches the requests that were sent exactly
when no word has a line feed and the counts fit. -/
theorem delivers_pipeline_iff {δ : Type} (backend : Backend δ) (doubles : Doubles δ)
    (requests : List Request) (chunks : List Bytes)
    (hchunks : chunks.flatten = requests.flatMap Request.encode) :
    Delivers (pipeline (getOrCreateRedisProtocol backend doubles) chunks)
        (requests.map Request.words) ↔
      ∀ request ∈ requests,
        request.words.length < 2 ^ 31 ∧ ∀ word ∈ request.words, (10 : UInt8) ∉ word := by
  by_cases hplain : ∀ request ∈ requests, ∀ word ∈ request.words, (10 : UInt8) ∉ word
  · have hlines : ∀ line ∈ requests.flatMap Request.lines, (10 : UInt8) ∉ line := by
      intro line hline
      obtain ⟨request, hrequest, hline⟩ := mem_flatMap.mp hline
      exact Request.notMem_lines (hplain request hrequest) line hline
    have hdecode : (LineFraming.decodeChunks 10 13 [] chunks).2 =
        requests.flatMap Request.lines := by
      have hends : (13 : UInt8) ≠ 10 := by decide
      rw [LineFraming.decodeChunks_eq, hchunks, encode_eq_lines, ← append_nil (flatMap _ _),
        LineFraming.decode_lines hlines hends]
      exact append_nil _
    rw [pipeline, hdecode, delivers_lines_iff (fun _ => rfl) ⟨rfl, rfl⟩]
    exact forall₂_congr fun request hrequest =>
      (and_iff_left (hplain request hrequest)).symm
  · refine iff_of_false (fun hdelivers => hplain fun request hrequest word hword => ?_)
      fun hboth => hplain fun request hrequest => (hboth request hrequest).2
    have hwords := mem_map_of_mem (f := Request.words) hrequest
    rw [← hdelivers.dispatched] at hwords
    rcases mem_of_mem_dispatched hwords hword with hnone | hline
    · cases hnone
    · rw [LineFraming.decodeChunks_eq] at hline
      exact LineFraming.notMem_of_mem_decode not_mem_nil hline

theorem delivers_pipeline_split :
    Delivers
      (pipeline (getOrCreateRedisProtocol sortedSetBackend wholeDoubles)
        [(Request.encode ⟨text "get", [text "\r"]⟩).take 7,
          (Request.encode ⟨text "get", [text "\r"]⟩).drop 7])
      [[text "get", text "\r"]] := by
  refine (delivers_pipeline_iff sortedSetBackend wholeDoubles [⟨text "get", [text "\r"]⟩] _ ?_).mpr ?_
  · simp
  · decide

/-- A value that is stored brings a request of its own. -/
theorem delivers_pipeline_fails :
    let request : Request := ⟨text "set", [text "k", text "x\r\n*1\r\n$4\r\nquit"]⟩
    (pipeline (getOrCreateRedisProtocol sortedSetBackend wholeDoubles) [request.encode]).dispatched =
        [[text "set", text "k", text "x"], [text "quit"]] ∧
      ¬ Delivers (pipeline (getOrCreateRedisProtocol sortedSetBackend wholeDoubles)
        [request.encode]) [request.words] := by
  intro request
  have hdispatched : (pipeline (getOrCreateRedisProtocol sortedSetBackend wholeDoubles)
      [request.encode]).dispatched = [[text "set", text "k", text "x"], [text "quit"]] := by
    decide
  refine ⟨hdispatched, fun hdelivers => ?_⟩
  have hsame := hdispatched.symm.trans hdelivers.dispatched
  exact absurd (congrArg length hsame) (by decide)

end LaserDB.RedisProtocol
