import Mathlib
import DashInfer.WeightFile.Header

/-!
`RotaryOp` on CUDA: the shapes, the three launches on the query, key and value
parts of the rows, and what a block of the kernel does. The operators of the
layers share the steps in the `LayerCacheManager`.
-/

namespace DashInfer.Rotary

open WeightFile (Failure)

/-- What `RotaryOp::Init` fixes; `sectionWidths` are the `mrope_section_0`, ..,
one for each axis of the positions. -/
structure RotaryOp where
  numHeads : Nat
  groupNum : Nat
  sizePerHead : Nat
  sectionWidths : List Nat
  xlogn : Int
deriving DecidableEq, Repr

namespace RotaryOp

variable (op : RotaryOp)

def hiddenSize : Nat := op.sizePerHead * op.numHeads

def kvStride : Nat := op.sizePerHead * op.groupNum

def qkvStride : Nat := op.hiddenSize + 2 * op.kvStride

def mropeSize : Nat := op.sectionWidths.length

/-- Where the sections start and end. -/
def mropeSection : List Nat := op.sectionWidths.scanl (· + ·) 0

end RotaryOp

/-- What `Reshape` fixes, in elements. -/
structure Shaped where
  batchSize : Nat
  seqLen : Nat
  mropePositionSize : Nat
deriving DecidableEq, Repr

/-- `RotaryOp::Reshape` for an input of this shape. -/
def RotaryOp.reshape (op : RotaryOp) (batchSize seqLen qkvStride : Nat) : Except Failure Shaped :=
  if qkvStride ≠ op.qkvStride then .error (.status "ALLSPARK_RUNTIME_ERROR")
  else .ok ⟨batchSize, seqLen, op.mropeSize * seqLen⟩

structure GenCtx where
  inputLen : Nat
  prefixLen : Nat
  step : Int
  realInputLen : Int
  extraEmbedding : List (String × List (List Int))
deriving DecidableEq, Repr

/-- The step with which a request is decoded. -/
def GenCtx.runStep (genCtx : GenCtx) : Int :=
  genCtx.realInputLen + (genCtx.step - genCtx.inputLen)

/-- One `rotary_launcher`. -/
structure RotaryLaunch where
  /-- Where the part starts in a row. -/
  partOffset : Nat
  hasInvFreq : Bool
  batchSize : Nat
  seqLen : Nat
  stepList : List Int
  numHeads : Nat
  sizePerHead : Nat
  qkvStride : Nat
  xlogn : Int
  positions : Option (List Int)
  mropeSize : Nat
  mropeSection : List Nat
deriving DecidableEq, Repr

/-- `RotaryOp::RunRotary`. Where a head is no multiple of 8, the launcher only
logs an error. -/
def RotaryOp.runRotary (op : RotaryOp) (seqLen runBatchSize : Nat) (runStep : List Int)
    (positions : Option (List Int)) : List RotaryLaunch :=
  let launch (partOffset : Nat) (hasInvFreq : Bool) (numHeads : Nat) (xlogn : Int) : RotaryLaunch :=
    { partOffset, hasInvFreq, batchSize := runBatchSize, seqLen, stepList := runStep, numHeads
      sizePerHead := op.sizePerHead, qkvStride := op.qkvStride, xlogn, positions
      mropeSize := op.mropeSize, mropeSection := op.mropeSection }
  if op.sizePerHead % 8 ≠ 0 then []
  else
    [launch 0 true op.numHeads op.xlogn,
      launch op.hiddenSize true op.groupNum (-1),
      launch (op.hiddenSize + op.kvStride) false op.groupNum (-1)]

/-- The cosines and sines of the frequencies at the positions, and
`logf(pos) / logf(xlogn)`. -/
structure Arith (R : Type) where
  cos : Nat → Int → R
  sin : Nat → Int → R
  logRatio : Int → Int → R

namespace RotaryLaunch

variable (ℓ : RotaryLaunch) (b : Nat)

/-- `block_num`. -/
def blocks : Nat := ℓ.batchSize * ℓ.seqLen

/-- `blockIdx.x * seq_stride`, a product of 32 bits without sign. -/
def rowOffset : Nat := b * ℓ.qkvStride % 2 ^ 32

def pos : Int := (b % ℓ.seqLen : Nat) + ℓ.stepList.getD (b / ℓ.seqLen) 0

/-- The first section that holds the frequency. -/
def section? (x : Nat) : Option Nat :=
  (List.range ℓ.mropeSize).find? fun s =>
    ℓ.mropeSection.getD s 0 ≤ x && x < ℓ.mropeSection.getD (s + 1) 0

def realPos (x : Nat) : Int :=
  match ℓ.positions with
  | none => ℓ.pos b
  | some positions =>
      match ℓ.section? x with
      | none => ℓ.pos b
      | some s => positions.getD (ℓ.pos b + s * ℓ.seqLen).toNat 0

variable {R : Type} [Ring R] (arith : Arith R) (input : Nat → R)

/-- The part of a row, at an offset, rotated with the positions of its
frequencies; without frequencies it is copied. -/
def rotateRow (offset freqs : Nat) (pos : Int) (realPos : Nat → Int) : List (Nat × R) :=
  let start := offset + ℓ.partOffset
  if ℓ.hasInvFreq then
    let scale := if 0 < ℓ.xlogn ∧ ℓ.xlogn < pos then arith.logRatio pos ℓ.xlogn else 1
    (List.range ℓ.numHeads).flatMap fun outerIdx =>
      (List.range ℓ.sizePerHead).map fun innerOffset =>
        let outerOffset := innerOffset + outerIdx * ℓ.sizePerHead
        let x := innerOffset % (ℓ.sizePerHead / 2)
        let v1 := input (start + outerOffset) * arith.cos (freqs + x) (realPos x)
        let v2 :=
          if innerOffset < ℓ.sizePerHead / 2 then
            -1 * input (start + outerOffset + ℓ.sizePerHead / 2) * arith.sin (freqs + x) (realPos x)
          else
            input (start + outerOffset - ℓ.sizePerHead / 2) * arith.sin (freqs + x) (realPos x)
        (start + outerOffset, (v1 + v2) * scale)
  else
    (List.range (ℓ.numHeads * ℓ.sizePerHead)).map fun o => (start + o, input (start + o))

/-- What a block of `rotary_opt_kernel` writes. -/
def block : List (Nat × R) :=
  ℓ.rotateRow arith input (ℓ.rowOffset b) (b / ℓ.seqLen * (ℓ.sizePerHead / 2)) (ℓ.pos b)
    (ℓ.realPos b)

end RotaryLaunch

/-- What a forward pass of one operator does: how many of the positions it
copies into `mrope_position_`, how many have room there, and its launches. -/
structure RotaryRun where
  copied : Nat
  room : Nat
  launches : List RotaryLaunch
deriving DecidableEq, Repr

namespace RotaryOp

variable (op : RotaryOp)

/-- `RotaryOp::RunContext`, with the cached steps. -/
def runContext (shaped : Shaped) (rotaryStep : Option (List Int)) (genCtx : GenCtx) :
    Except Failure (RotaryRun × List Int × GenCtx) :=
  if shaped.batchSize ≠ 1 then .error (.status "ALLSPARK_RUNTIME_ERROR")
  else
    let seqLen := shaped.seqLen + genCtx.prefixLen
    let rotaryStep := rotaryStep.getD [genCtx.step]
    if genCtx.extraEmbedding = [] ∨ op.mropeSize = 0 then
      .ok (⟨0, shaped.mropePositionSize, op.runRotary seqLen 1 rotaryStep none⟩, rotaryStep, genCtx)
    else
      match genCtx.extraEmbedding.lookup "positions" with
      | none => .error (.status "ALLSPARK_RUNTIME_ERROR")
      | some [] => .error .undefinedBehaviour
      | some (posTensor :: _) =>
          .ok (⟨posTensor.length, shaped.mropePositionSize,
              op.runRotary seqLen 1 rotaryStep (some posTensor)⟩, rotaryStep,
            { genCtx with realInputLen := posTensor.getD (genCtx.inputLen - 1) 0 + 1 })

/-- `RotaryOp::RunDecoder`. -/
def runDecoder (shaped : Shaped) (rotaryStep : Option (List Int)) (genCtxs : List GenCtx) :
    RotaryRun × List Int :=
  let rotaryStep := rotaryStep.getD (genCtxs.map GenCtx.runStep)
  (⟨0, shaped.mropePositionSize, op.runRotary shaped.seqLen genCtxs.length rotaryStep none⟩,
    rotaryStep)

/-- The operators of the layers, one after another. -/
def contextLayers (shaped : Shaped) : Nat → Option (List Int) → GenCtx →
    Except Failure (List RotaryRun × GenCtx)
  | 0, _, genCtx => .ok ([], genCtx)
  | layers + 1, rotaryStep, genCtx => do
      let (run, rotaryStep, genCtx) ← op.runContext shaped rotaryStep genCtx
      let (runs, genCtx) ← contextLayers shaped layers (some rotaryStep) genCtx
      return (run :: runs, genCtx)

/-- `AsModel::runDecoderContext`, as far as the rotary operators go; the input
of the layers has the rows of `new_input_ids`. -/
def runDecoderContext (layers : Nat) (genCtx : GenCtx) :
    Except Failure (List RotaryRun × GenCtx) := do
  let inLength := genCtx.inputLen - genCtx.prefixLen
  let shaped ← op.reshape 1 inLength op.qkvStride
  let (runs, genCtx) ← op.contextLayers shaped layers none { genCtx with step := genCtx.prefixLen }
  return (runs, { genCtx with step := (inLength : Int) + genCtx.prefixLen })

def decoderLayers (shaped : Shaped) (genCtxs : List GenCtx) : Nat → Option (List Int) →
    List RotaryRun
  | 0, _ => []
  | layers + 1, rotaryStep =>
      let result := op.runDecoder shaped rotaryStep genCtxs
      result.1 :: decoderLayers shaped genCtxs layers (some result.2)

/-- A decoding step on the requests in the list: the runs of the layers, and the
requests after it. -/
def decodeStep (layers : Nat) (genCtxs : List GenCtx) : List RotaryRun × List GenCtx :=
  (op.decoderLayers ⟨genCtxs.length, 1, op.mropeSize⟩ genCtxs layers none,
    genCtxs.map fun genCtx => { genCtx with step := genCtx.step + 1 })

end RotaryOp

end DashInfer.Rotary
