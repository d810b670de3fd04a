import Mathlib

/-!
# Lines of a stream

A decoder cuts a stream at each line feed, however the stream is divided.
-/

namespace LineFraming
open List

variable {α : Type} [DecidableEq α] (lf cr : α)

def strip (line : List α) : List α :=
  if line.getLast? = some cr then line.dropLast else line

def decode : List α → List α → List α × List (List α)
  | current, [] => (current, [])
  | current, unit :: rest =>
    if unit = lf then
      let result := decode [] rest
      (result.1, strip cr current :: result.2)
    else decode (current ++ [unit]) rest

def decodeChunks : List α → List (List α) → List α × List (List α)
  | current, [] => (current, [])
  | current, chunk :: chunks =>
    let first := decode lf cr current chunk
    let rest := decodeChunks first.1 chunks
    (rest.1, first.2 ++ rest.2)

variable {lf cr}

theorem decode_append (current first second : List α) :
    decode lf cr current (first ++ second) =
      ((decode lf cr (decode lf cr current first).1 second).1, (decode lf cr current first).2 ++
          (decode lf cr (decode lf cr current first).1 second).2) := by
  induction first generalizing current with
  | nil => rfl
  | cons unit first ih =>
    rw [cons_append, decode, decode]
    split_ifs
    · rw [ih]
      rfl
    · exact ih _

theorem decodeChunks_eq (current : List α) (chunks : List (List α)) :
    decodeChunks lf cr current chunks = decode lf cr current chunks.flatten := by
  induction chunks generalizing current with
  | nil => rfl
  | cons chunk chunks ih => rw [decodeChunks, ih, flatten_cons, decode_append]

theorem decode_of_notMem {current body : List α} (hbody : lf ∉ body) :
    decode lf cr current body = (current ++ body, []) := by
  induction body generalizing current with
  | nil => rw [append_nil]; rfl
  | cons unit body ih =>
    rw [mem_cons, not_or] at hbody
    rw [decode, if_neg fun heq => hbody.1 heq.symm, ih hbody.2, append_assoc]
    rfl

theorem decode_line {body rest : List α} (hbody : lf ∉ body) (hends : cr ≠ lf) :
    decode lf cr [] (body ++ cr :: lf :: rest) =
      ((decode lf cr [] rest).1, body :: (decode lf cr [] rest).2) := by
  have hline : lf ∉ body ++ [cr] := by
    rw [mem_append, mem_singleton, not_or]
    exact ⟨hbody, hends.symm⟩
  have hstrip : strip cr (body ++ [cr]) = body := by simp [strip]
  have hsplit : body ++ cr :: lf :: rest = (body ++ [cr]) ++ (lf :: rest) := by simp
  rw [hsplit, decode_append, decode_of_notMem hline, decode, if_pos rfl, nil_append, hstrip]
  rfl

theorem decode_lines {lines : List (List α)} {rest : List α} (hlines : ∀ line ∈ lines, lf ∉ line)
    (hends : cr ≠ lf) :
    decode lf cr [] ((lines.flatMap fun line => line ++ [cr, lf]) ++ rest) =
      ((decode lf cr [] rest).1, lines ++ (decode lf cr [] rest).2) := by
  induction lines with
  | nil => rfl
  | cons line lines ih =>
    obtain ⟨hline, hlater⟩ := List.forall_mem_cons.mp hlines
    rw [flatMap_cons, append_assoc, append_assoc, cons_append,
      cons_append, nil_append, decode_line hline hends, ih hlater]
    rfl

theorem mem_of_mem_strip {line : List α} {unit : α} (hunit : unit ∈ strip cr line) : unit ∈ line := by
  unfold strip at hunit
  split_ifs at hunit
  · exact mem_of_mem_dropLast hunit
  · exact hunit

theorem notMem_of_mem_decode {current stream line : List α} (hcurrent : lf ∉ current)
    (hline : line ∈ (decode lf cr current stream).2) : lf ∉ line := by
  induction stream generalizing current with
  | nil => cases hline
  | cons unit stream ih =>
    rw [decode] at hline
    split_ifs at hline with hunit
    · rcases List.mem_cons.mp hline with rfl | hlater
      · exact fun hmem => hcurrent (mem_of_mem_strip hmem)
      · exact ih not_mem_nil hlater
    · refine ih ?_ hline
      rw [mem_append, mem_singleton, not_or]
      exact ⟨hcurrent, fun heq => hunit heq.symm⟩

end LineFraming
