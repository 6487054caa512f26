import DashInfer.Lora.Tables
import DashInfer.Lib.Kernels

/-!
`SgmvLoraOpGPU::Forward`: the kernels it launches for the tables of a batch, as
matrix products, copies and fills over the memory of the device, and what they
are meant to leave in the output.
-/

namespace DashInfer.Lora

open DashInfer.Lib
open scoped BigOperators

/-- `ALIGN_UP_TO_16` and `INT_ROUND_UP_TO_16`. -/
def alignUpTo16 (p : Nat) : Nat := (p + 15) / 16 * 16

/-- `sgmv_tmp_size`: three pointers, three leading dimensions and a
`GemmCoord` to a problem. -/
def sgmvTmpSize (numProblems : Nat) : Nat := (8 * 3 + 8 * 3 + 12) * numProblems

namespace Batch

/-- `batchsize`, the first dimension of the input. -/
def size (batch : Batch) : Nat := if batch.isContext then 1 else batch.loraNames.length

/-- The rows of the input. -/
def rows (batch : Batch) : Nat := batch.size * batch.seqLen

/-- The LoRA of a row. -/
def rowName (batch : Batch) (row : Nat) : String :=
  batch.loraNames.getD (if batch.isContext then 0 else row) ""

end Batch

namespace SgmvOp

/-- The factors of a LoRA. -/
def weights (op : SgmvOp) (m : LoraManager) (name : String) : Tensor × Tensor :=
  ((m.getLoraTensorByName name (op.loraA ++ ".weight")).getD ⟨0, 0, 0⟩,
    (m.getLoraTensorByName name (op.loraB ++ ".weight")).getD ⟨0, 0, 0⟩)

/-- `lora_A_weight_ptrs_vec_` and `lora_B_weight_ptrs_vec_`: the factors of every
LoRA that starts a segment, `last` being the LoRA of the request before. -/
def weightTensors (op : SgmvOp) (m : LoraManager) : String → List String → List (Tensor × Tensor)
  | _, [] => []
  | last, name :: rest =>
      if name = "" ∨ last = name then weightTensors op m name rest
      else op.weights m name :: weightTensors op m name rest

/-- Where the part of a query, key or value starts in a row, in entries. -/
def partStart (op : SgmvOp) (qkvIdx : Nat) : Nat := (op.qkvWeightDims.take qkvIdx).sum

def qkvSum (op : SgmvOp) : Nat := op.qkvWeightDims.sum

end SgmvOp

/-- What `Forward` runs with, apart from the tables: the addresses of its tensors
and the device. -/
structure SgmvEnv where
  input : Nat
  output : Nat
  workspace : Nat
  /-- `dtype_` is `FLOAT16` or `BFLOAT16`. -/
  halfType : Bool
  CC : Nat
deriving DecidableEq, Repr

/-- `SgmvCutlass` has no kernel for another device or another type. -/
def SgmvEnv.runsGrouped (env : SgmvEnv) : Bool := env.halfType && decide (80 ≤ env.CC)

/-- The operands of one product, its pointers and leading dimensions. -/
structure SgmvProblem where
  m : Nat
  n : Nat
  k : Nat
  ptrX : Nat
  ptrW : Nat
  ptrY : Nat
  ldX : Nat
  ldW : Nat
  ldY : Nat
deriving DecidableEq, Repr

/-- The arguments of `sgmv_cutlass`. Exactly one of `is_k_tensor` and
`is_n_tensor` is set. -/
structure SgmvCall where
  y : Nat
  x : Nat
  w : List Nat
  s : List Nat
  ranks : List Nat
  isKTensor : Bool
  dIn : Nat
  dOut : Nat
  unsplit : Bool
  unsplitN : Nat
  maxRank : Nat

def precomputeSgmvArgs (typeSize : Nat) (c : SgmvCall) (i : Nat) : SgmvProblem :=
  let start := c.s.getD (i * 2) 0
  let rank := c.ranks.getD i 0
  let n := if c.isKTensor then c.dOut else rank
  let k := if c.isKTensor then rank else c.dIn
  { m := c.s.getD (i * 2 + 1) 0 - start
    n, k
    ptrX :=
      if c.isKTensor then
        if c.unsplit then c.x + start * (c.maxRank / 3) * typeSize
        else c.x + start * c.maxRank * typeSize
      else c.x + start * k * typeSize
    ptrW := c.w.getD i 0
    ptrY :=
      if c.isKTensor then
        if c.unsplit then c.y + start * c.unsplitN * typeSize else c.y + start * n * typeSize
      else c.y + start * c.maxRank * typeSize
    ldX := k
    ldW := if c.unsplit then c.unsplitN else n
    ldY := if c.unsplit then c.unsplitN else n }

/-- The tables of an operator, its device and the batch it runs on. -/
structure SgmvRun where
  op : SgmvOp
  env : SgmvEnv
  batch : Batch
  weights : List (Tensor × Tensor)
  /-- The members, in host memory. -/
  tables : Tables
  /-- Their copies on the device. -/
  device : Tables

namespace SgmvRun

variable (r : SgmvRun)

def numProblems : Nat := r.tables.loraAWeightPtrs.length

section Addresses

def tempBytes : Nat := r.batch.size * r.batch.seqLen * r.tables.maxLoraR * r.op.typeSize

def tempQkvBytes : Nat :=
  r.batch.size * r.batch.seqLen * (r.tables.maxLoraR / 3) * r.op.typeSize

/-- `ws_size_`. -/
def wsSize : Nat :=
  let wsSize := alignUpTo16 r.tempBytes + sgmvTmpSize r.numProblems
  if r.op.isAttentionSelf then
    alignUpTo16 (alignUpTo16 (alignUpTo16 wsSize + r.tempQkvBytes) + r.tempQkvBytes) +
      r.tempQkvBytes
  else wsSize

def temp : Nat := r.env.workspace

def buf : Nat := alignUpTo16 (r.temp + r.tempBytes)

/-- `temp_qkv_`. -/
def tempQkv : Nat → Nat
  | 0 => alignUpTo16 (r.buf + sgmvTmpSize r.numProblems)
  | qkvIdx + 1 => alignUpTo16 (tempQkv qkvIdx + r.tempQkvBytes)

def input : Extent := ⟨r.env.input, r.batch.rows * r.op.inFeatures * r.op.typeSize⟩

def output : Extent := ⟨r.env.output, r.batch.rows * r.tables.outFeatures * r.op.typeSize⟩

def workspace : Extent := ⟨r.env.workspace, r.wsSize⟩

def extent (tensor : Tensor) : Extent := ⟨tensor.dataPtr, tensor.rows * tensor.cols * r.op.typeSize⟩

def weightA (i : Nat) : Tensor := (r.weights.getD i (⟨0, 0, 0⟩, ⟨0, 0, 0⟩)).1

def weightB (i : Nat) : Tensor := (r.weights.getD i (⟨0, 0, 0⟩, ⟨0, 0, 0⟩)).2

end Addresses

section Problems

/-- The products of the cuBLAS path with `lora_A`. -/
def denseGemmA (i : Nat) : SgmvProblem :=
  let batchStart := r.tables.segmentedBatchIdx.getD (i * 2) 0
  let batchEnd := r.tables.segmentedBatchIdx.getD (i * 2 + 1) 0
  let n := r.tables.loraARanks.getD i 0
  { m := batchEnd - batchStart
    n
    k := r.op.inFeatures
    ptrX := r.env.input + r.op.inFeatures * batchStart * r.op.typeSize
    ptrW := (r.weightA i).dataPtr
    ptrY := r.temp + r.tables.maxLoraR * batchStart * r.op.typeSize
    ldX := r.op.inFeatures
    ldW := n
    ldY := n }

def sgmvA (i : Nat) : SgmvProblem :=
  precomputeSgmvArgs r.op.typeSize
    { y := r.temp, x := r.env.input, w := r.device.loraAWeightPtrs
      s := r.device.segmentedBatchIdx, ranks := r.device.loraARanks
      isKTensor := false, dIn := r.op.inFeatures, dOut := 0
      unsplit := false, unsplitN := 0, maxRank := r.tables.maxLoraR } i

/-- Away from attention layers `lora_A` and `lora_B` have one rank. -/
def denseGemmB (i : Nat) : SgmvProblem :=
  let batchStart := r.tables.segmentedBatchIdx.getD (i * 2) 0
  let batchEnd := r.tables.segmentedBatchIdx.getD (i * 2 + 1) 0
  let n := r.tables.outFeatures
  let k := r.tables.loraARanks.getD i 0
  { m := batchEnd - batchStart
    n, k
    ptrX := r.temp + r.tables.maxLoraR * batchStart * r.op.typeSize
    ptrW := (r.weightB i).dataPtr
    ptrY := r.env.output + r.tables.outFeatures * batchStart * r.op.typeSize
    ldX := k
    ldW := n
    ldY := n }

def sgmvB (i : Nat) : SgmvProblem :=
  precomputeSgmvArgs r.op.typeSize
    { y := r.env.output, x := r.temp, w := r.device.loraBWeightPtrs
      s := r.device.segmentedBatchIdx, ranks := r.device.loraARanks
      isKTensor := true, dIn := 0, dOut := r.tables.outFeatures
      unsplit := false, unsplitN := 0, maxRank := r.tables.maxLoraR } i

/-- The pointer into `lora_B` is that of the part already. -/
def denseGemmQkv (qkvIdx i : Nat) : SgmvProblem :=
  let batchStart := r.tables.segmentedBatchIdx.getD (i * 2) 0
  let batchEnd := r.tables.segmentedBatchIdx.getD (i * 2 + 1) 0
  let k := r.tables.loraBRanks.getD i 0
  { m := batchEnd - batchStart
    n := r.op.qkvWeightDims.getD qkvIdx 0
    k
    ptrX := r.tempQkv qkvIdx + r.tables.maxLoraR / 3 * batchStart * r.op.typeSize
    ptrW := (r.tables.loraBWeightParts.getD qkvIdx []).getD i 0 +
      r.op.partStart qkvIdx * r.op.typeSize
    ptrY := r.env.output + r.op.qkvSum * batchStart * r.op.typeSize +
      r.op.partStart qkvIdx * r.op.typeSize
    ldX := k
    ldW := r.op.qkvSum
    ldY := r.op.qkvSum }

def sgmvQkv (qkvIdx i : Nat) : SgmvProblem :=
  precomputeSgmvArgs r.op.typeSize
    { y := r.env.output + r.op.partStart qkvIdx * r.op.typeSize
      x := r.tempQkv qkvIdx
      w := r.device.loraBWeightParts.getD qkvIdx []
      s := r.device.segmentedBatchIdx, ranks := r.device.loraBRanks
      isKTensor := true, dIn := 0, dOut := r.op.qkvWeightDims.getD qkvIdx 0
      unsplit := true, unsplitN := r.op.qkvSum, maxRank := r.tables.maxLoraR } i

end Problems

section Kernels

variable {R : Type} [NonUnitalNonAssocSemiring R]

/-- The product a problem describes, between the tensors its operands belong to. -/
def product (p : SgmvProblem) (x w y : Extent) : Kernel R r.op.typeSize :=
  Kernel.gemm p.m p.n p.k ⟨p.ptrX, p.ldX, x⟩ ⟨p.ptrW, p.ldW, w⟩ ⟨p.ptrY, p.ldY, y⟩

def kernelA (i : Nat) : Kernel R r.op.typeSize :=
  r.product (if r.tables.useCublas then r.denseGemmA i else r.sgmvA i) r.input
    (r.extent (r.weightA i)) r.workspace

def kernelB (i : Nat) : Kernel R r.op.typeSize :=
  r.product (if r.tables.useCublas then r.denseGemmB i else r.sgmvB i) r.workspace
    (r.extent (r.weightB i)) r.output

def kernelQkv (qkvIdx i : Nat) : Kernel R r.op.typeSize :=
  r.product (if r.tables.useCublas then r.denseGemmQkv qkvIdx i else r.sgmvQkv qkvIdx i)
    r.workspace (r.extent (r.weightB i)) r.output

/-- A block of `do_split_qkv`: of each row of `temp_`, the third that belongs to the
part, the rows one behind the other. -/
def splitQkv (qkvIdx i : Nat) : Kernel R r.op.typeSize :=
  let start := r.device.segmentedBatchIdx.getD (i * 2) 0
  let rank := r.device.loraBRanks.getD i 0
  Kernel.copy (r.device.segmentedBatchIdx.getD (i * 2 + 1) 0 - start) rank
    ⟨r.temp + (r.tables.maxLoraR * start + qkvIdx * rank) * r.op.typeSize, 3 * rank, r.workspace⟩
    ⟨r.tempQkv qkvIdx + r.tables.maxLoraR / 3 * start * r.op.typeSize, rank, r.workspace⟩

/-- `cudaMemsetAsync` on some rows of the output. -/
def setZero (row rowCount : Nat) : Kernel R r.op.typeSize :=
  Kernel.fill rowCount r.tables.outFeatures
    ⟨r.env.output + row * r.tables.outFeatures * r.op.typeSize, r.tables.outFeatures, r.output⟩ 0

/-- The rows between the segments. -/
def setZeros : Nat → List Nat → List (Kernel R r.op.typeSize)
  | lastEndIdx, start :: stop :: rest =>
      (if start ≠ lastEndIdx then [r.setZero lastEndIdx (start - lastEndIdx)] else []) ++
        setZeros stop rest
  | lastEndIdx, _ =>
      if lastEndIdx ≠ r.batch.size then [r.setZero lastEndIdx (r.batch.size - lastEndIdx)] else []

def kernelsA : List (Kernel R r.op.typeSize) := (List.range r.numProblems).map r.kernelA

def kernelsSplit : List (Kernel R r.op.typeSize) :=
  (List.range r.numProblems).flatMap fun i => (List.range 3).map fun qkvIdx => r.splitQkv qkvIdx i

def kernelsQkv : List (Kernel R r.op.typeSize) :=
  (List.range 3).flatMap fun qkvIdx => (List.range r.numProblems).map fun i => r.kernelQkv qkvIdx i

def kernelsB : List (Kernel R r.op.typeSize) := (List.range r.numProblems).map r.kernelB

def kernelsZero : List (Kernel R r.op.typeSize) :=
  if r.tables.needSetZero then r.setZeros 0 r.tables.segmentedBatchIdx else []

/-- The kernels of `Forward`; none where it throws. -/
def forward : Option (List (Kernel R r.op.typeSize)) :=
  if r.tables.useCublas || r.env.runsGrouped then
    some (r.kernelsA ++
      (if r.op.isAttentionSelf then r.kernelsSplit ++ r.kernelsQkv else r.kernelsB) ++
      r.kernelsZero)
  else none

end Kernels

end SgmvRun

/-- `Forward` on the members that `Reshape` left. -/
def SgmvLora.run (op : SgmvOp) (m : LoraManager) (env : SgmvEnv) (batch : Batch) (s : SgmvLora) :
    SgmvRun where
  op := op
  env := env
  batch := batch
  weights := op.weightTensors m "" batch.loraNames
  tables := s.tables
  device := s.device

section Meaning

variable {R : Type} [NonUnitalNonAssocSemiring R]

/-- The part of a query, key or value that a column of the output belongs to. -/
def SgmvOp.qkvIdx (op : SgmvOp) (col : Nat) : Nat :=
  if col < op.partStart 1 then 0 else if col < op.partStart 2 then 1 else 2

/-- The column of `lora_A` that the columns of a part start from. -/
def SgmvOp.columnA (op : SgmvOp) (rank col : Nat) : Nat :=
  if op.isAttentionSelf then op.qkvIdx col * rank else 0

/-- An entry of `x A B`; in attention layers `A` is three matrices side by side, one
for each part of the columns of `B`. -/
def loraProduct (op : SgmvOp) (env : SgmvEnv) (a b : Tensor) (mem : Nat → R) (row col : Nat) : R :=
  ∑ l ∈ Finset.range b.rows,
    (∑ j ∈ Finset.range a.rows,
      mem (env.input + op.typeSize * (row * op.inFeatures + j)) *
        mem (a.dataPtr + op.typeSize * (j * a.cols + (op.columnA b.rows col + l)))) *
      mem (b.dataPtr + op.typeSize * (l * b.cols + col))

/-- What a batch is to leave in its output. -/
def loraOutput (op : SgmvOp) (m : LoraManager) (env : SgmvEnv) (batch : Batch) (mem : Nat → R)
    (row col : Nat) : R :=
  let name := batch.rowName row
  if name = "" then 0
  else loraProduct op env (op.weights m name).1 (op.weights m name).2 mem row col

/-- `Reshape` and `Forward` succeed, every operand stays inside its tensor, and each
row of the output is the row of the input times the factors of its LoRA. -/
def AppliesLora (op : SgmvOp) (m : LoraManager) (env : SgmvEnv) (batch : Batch) (s : SgmvLora)
    (mem : Nat → R) : Prop :=
  let r := (s.reshape op m batch true).1.run op m env batch
  (s.reshape op m batch true).2 = true ∧
    ∃ kernels : List (Kernel R op.typeSize), r.forward = some kernels ∧
      (∀ k ∈ kernels, k.Inside) ∧
      ∀ row < batch.rows, ∀ col < r.tables.outFeatures,
        Kernel.runAll kernels mem
            (env.output + op.typeSize * (row * r.tables.outFeatures + col)) =
          loraOutput op m env batch mem row col

end Meaning

end DashInfer.Lora
