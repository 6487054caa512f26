import Mathlib

/-!
`qwen_vl_truncate`: the system part of a prompt is kept, and of the segments behind it
as many from the end as fit, each with the lengths its images expand to. The segments
are walked backwards, and the lengths are taken from the end of their list.
-/

namespace DashInfer.Vision

inductive TruncateError
  /-- `Wrong truncate_lengths was entered, should be {} but get {}` -/
  | lengths
  /-- `The number of bos in input_ids does not match the length of vision_sequence_lengths` -/
  | visions
  /-- `Range of input length should be [1, {}]` -/
  | range
  /-- an `IndexError` -/
  | index
deriving DecidableEq, Repr

/-- The variables of the loop over the tokens. -/
structure TruncateWalk where
  pointer : Nat
  size : Int
  realLengths : List Nat
  visionLengths : List Nat
deriving DecidableEq, Repr

/-- `input_ids[: system_length - 1 : -1]`. Without a system part the stop is the last
index, and nothing is left. -/
def revInputIds (inputIds : List Int) (systemLength : Nat) : List Int :=
  if systemLength = 0 then [] else (inputIds.drop systemLength).reverse

/-- The next segment, where the one before is used up. Its own length is not looked at. -/
def advance (revLengths : List Nat) (s : TruncateWalk) : Except TruncateError TruncateWalk :=
  if s.size = 0 then
    match revLengths[s.pointer + 1]? with
    | none => .error .index
    | some size => .ok { s with pointer := s.pointer + 1, size }
  else .ok s

/-- `rev_real_lengths[truncate_pointer] += vision_sequence_lengths.pop()`, and a token
less to go. -/
def charge (bosId : Int) (s : TruncateWalk) (id : Int) : Except TruncateError TruncateWalk :=
  if id = bosId then
    match s.visionLengths.getLast? with
    | none => .error .index
    | some length =>
        .ok { s with
          size := s.size - 1
          realLengths := s.realLengths.modify s.pointer (· + length)
          visionLengths := s.visionLengths.dropLast }
  else .ok { s with size := s.size - 1 }

def walkToken (bosId : Int) (revLengths : List Nat) (s : TruncateWalk) (id : Int) :
    Except TruncateError TruncateWalk := do
  let s ← advance revLengths s
  charge bosId s id

/-- `reserve_index`: the segments that fit, from the end. -/
def reserveIndex : Int → List Nat → Nat
  | _, [] => 0
  | window, length :: lengths =>
      if window - length < 0 then 0 else reserveIndex (window - length) lengths + 1

/-- `qwen_vl_truncate`. -/
def qwenVlTruncate (inputIds : List Int) (truncateLengths visionSequenceLengths : List Nat)
    (maxInputTokens bosId : Int) : Except TruncateError (List Int × Nat) :=
  if inputIds.length ≠ truncateLengths.sum then .error .lengths
  else if inputIds.count bosId ≠ visionSequenceLengths.length then .error .visions
  else
    match truncateLengths with
    | [] => .error .index
    | [_] => .error .index
    | systemLength :: second :: rest =>
        let revLengths := (second :: rest).reverse
        do
          let s ← (revInputIds inputIds systemLength).foldlM (walkToken bosId revLengths)
            ⟨0, revLengths.headD 0, revLengths, visionSequenceLengths⟩
          let index := reserveIndex (maxInputTokens - systemLength) s.realLengths
          if index = 0 then .error .range
          else
            let reserveLength := (revLengths.take index).sum
            let outputTokens := inputIds.take systemLength ++
              inputIds.drop (inputIds.length - reserveLength)
            .ok (outputTokens, outputTokens.count bosId)

/-! What truncation is for. -/

/-- The length a prompt expands to that keeps its system part and some tokens of its
end: the tokens, and the lengths of the images that start in them. -/
def expandedLength (inputIds : List Int) (systemLength : Nat) (visionSequenceLengths : List Nat)
    (bosId : Int) (kept : Nat) : Nat :=
  systemLength + kept +
    (visionSequenceLengths.take ((inputIds.take systemLength).count bosId)).sum +
    (visionSequenceLengths.drop (visionSequenceLengths.length -
      (inputIds.drop (inputIds.length - kept)).count bosId)).sum

/-- The tokens of the last segments. -/
def keptTokens (segments : List Nat) (count : Nat) : Nat := (segments.reverse.take count).sum

/-- The result of a truncation is right: the system part with the longest suffix of
segments that fits, and the images that start in it; an error only where not even the
last segment fits. -/
def TruncatesRight (inputIds : List Int) (truncateLengths visionSequenceLengths : List Nat)
    (maxInputTokens bosId : Int) : Except TruncateError (List Int × Nat) → Prop
  | .ok (outputTokens, visionCount) =>
      ∃ count ≤ truncateLengths.tail.length,
        outputTokens = inputIds.take (truncateLengths.headD 0) ++
          inputIds.drop (inputIds.length - keptTokens truncateLengths.tail count) ∧
        (expandedLength inputIds (truncateLengths.headD 0) visionSequenceLengths bosId
          (keptTokens truncateLengths.tail count) : Int) ≤ maxInputTokens ∧
        (∀ other ≤ truncateLengths.tail.length,
          (expandedLength inputIds (truncateLengths.headD 0) visionSequenceLengths bosId
            (keptTokens truncateLengths.tail other) : Int) ≤ maxInputTokens →
          keptTokens truncateLengths.tail other ≤ keptTokens truncateLengths.tail count) ∧
        visionCount = outputTokens.count bosId
  | .error _ =>
      truncateLengths.tail ≠ [] ∧
        maxInputTokens < expandedLength inputIds (truncateLengths.headD 0) visionSequenceLengths
          bosId (keptTokens truncateLengths.tail 1)

end DashInfer.Vision
