import Mathlib
import DashInfer.Lib.Text

/-!
`merge_fp8_linears`: two block-scaled FP8 linears stacked into one. The codes are
stacked by rows and the scales by rows of blocks, and the merged linear is only
checked once it is in the state dict.
-/

namespace DashInfer.Quant

open Lib

abbrev Name := List UInt8

inductive Dtype
  | float8E4m3 | float32 | other
deriving DecidableEq, Repr

/-- A tensor object. `entry` is the exact value at a row and a column, for a code
the value it stands for. -/
structure Tensor where
  id : Nat
  dtype : Dtype
  shape : List Nat
  entry : Nat → Nat → ℚ

/-- The tensors by name. -/
abbrev StateDict := Name → Option Tensor

inductive Fp8Error
  /-- `FP8 block_size must contain two positive integers` -/
  | blockSize
  /-- `FP8 weight name must end with '.weight'` -/
  | weightName
  /-- `FP8 linear {} is missing {}`, a `KeyError` -/
  | missing (weightName : Name) (names : List Name)
  /-- `{} must be a 2D FP8 E4M3 tensor` -/
  | weightTensor (weightName : Name)
  /-- `{} must be a 2D FP32 tensor` -/
  | scaleTensor (scaleName : Name)
  /-- `{} must have shape {}, got {}` -/
  | scaleShape (scaleName : Name) (expected actual : List Nat)
  /-- `cannot merge FP8 linears with different K dimensions` -/
  | differentK
  /-- what `torch.cat` raises for sizes that do not match -/
  | cat
deriving DecidableEq, Repr

/-- `math.ceil(n / block)`. -/
def blocks (n block : Nat) : Nat := (n + block - 1) / block

/-- `weight_name[:-len(".weight")] + FP8_SCALE_SUFFIX`. -/
def scaleName (weightName : Name) : Name :=
  weightName.take (weightName.length - (text ".weight").length) ++ text ".weight_scale_inv"

/-- The checks of the two tensors of a linear. -/
def validateTensors (weightName : Name) (weight scale : Tensor) (blockN blockK : Nat) :
    Except Fp8Error (Nat × Nat) :=
  match weight.shape with
  | [nDim, kDim] =>
      if weight.dtype ≠ .float8E4m3 then .error (.weightTensor weightName)
      else if scale.dtype ≠ .float32 ∨ scale.shape.length ≠ 2 then
        .error (.scaleTensor (scaleName weightName))
      else if scale.shape ≠ [blocks nDim blockN, blocks kDim blockK] then
        .error (.scaleShape (scaleName weightName) [blocks nDim blockN, blocks kDim blockK]
          scale.shape)
      else .ok (nDim, kDim)
  | _ => .error (.weightTensor weightName)

/-- `validate_fp8_linear`. -/
def validateFp8Linear (stateDict : StateDict) (weightName : Name) (blockSize : List Int) :
    Except Fp8Error (Nat × Nat) :=
  match blockSize with
  | [blockN, blockK] =>
      if blockN ≤ 0 ∨ blockK ≤ 0 then .error .blockSize
      else if ¬ text ".weight" <:+ weightName then .error .weightName
      else
        match stateDict weightName, stateDict (scaleName weightName) with
        | some weight, some scale =>
            validateTensors weightName weight scale blockN.toNat blockK.toNat
        | weight, scale =>
            .error (.missing weightName
              ((if weight.isNone then [weightName] else []) ++
                if scale.isNone then [scaleName weightName] else []))
  | _ => .error .blockSize

/-- `torch.cat((first, second), dim=0)`, a new object. -/
def cat (id : Nat) (first second : Tensor) : Except Fp8Error Tensor :=
  match first.shape, second.shape with
  | [n, k], [m, k'] =>
      if k ≠ k' then .error .cat
      else .ok {
        id
        dtype := if first.dtype = second.dtype then first.dtype else .other
        shape := [n + m, k]
        entry := fun i j => if i < n then first.entry i j else second.entry (i - n) j }
  | _, _ => .error .cat

/-- `state_dict[name] = torch.cat((state_dict[first], state_dict[second]), dim=0)`. -/
def setCat (id : Nat) (name first second : Name) (stateDict : StateDict) :
    StateDict × Except Fp8Error Unit :=
  match stateDict first, stateDict second with
  | some a, some b =>
      match cat id a b with
      | .ok t => (Function.update stateDict name (some t), .ok ())
      | .error e => (stateDict, .error e)
  | _, _ => (stateDict, .error (.missing name []))

/-- `merge_fp8_linears`, with the state dict it leaves; `fresh` is the next
object. -/
def mergeFp8Linears (stateDict : StateDict) (fresh : Nat) (first second merged : Name)
    (blockSize : List Int) : StateDict × Except Fp8Error (Nat × Nat) :=
  match validateFp8Linear stateDict first blockSize with
  | .error e => (stateDict, .error e)
  | .ok firstShape =>
      match validateFp8Linear stateDict second blockSize with
      | .error e => (stateDict, .error e)
      | .ok secondShape =>
          if firstShape.2 ≠ secondShape.2 then (stateDict, .error .differentK)
          else
            match setCat fresh merged first second stateDict with
            | (stateDict, .error e) => (stateDict, .error e)
            | (stateDict, .ok ()) =>
                match setCat (fresh + 1) (scaleName merged) (scaleName first)
                  (scaleName second) stateDict with
                | (stateDict, .error e) => (stateDict, .error e)
                | (stateDict, .ok ()) => (stateDict, validateFp8Linear stateDict merged blockSize)

/-- The objects of a state dict are older than the next one. -/
def Older (fresh : Nat) (stateDict : StateDict) : Prop :=
  ∀ name t, stateDict name = some t → t.id < fresh

/-- Tensors of one type and shape. -/
def Tensor.Like (a b : Tensor) : Prop := a.dtype = b.dtype ∧ a.shape = b.shape

/-- State dicts that differ only in the contents of their tensors. -/
def SameLayout (a b : StateDict) : Prop := ∀ name, Option.Rel Tensor.Like (a name) (b name)

/-- The rows and the columns of a block. -/
def rowBlock (blockSize : List Int) : Nat := (blockSize.getD 0 0).toNat

def colBlock (blockSize : List Int) : Nat := (blockSize.getD 1 0).toNat

/-- The value of a linear at a position: the code times the scale of its block. -/
def dequantized (stateDict : StateDict) (weightName : Name) (blockSize : List Int)
    (i j : Nat) : Option ℚ := do
  let weight ← stateDict weightName
  let scale ← stateDict (scaleName weightName)
  return weight.entry i j * scale.entry (i / rowBlock blockSize) (j / colBlock blockSize)

/-- A merged linear has the values of its parts, and an error leaves the state
dict alone. -/
structure MergesExactly (stateDict : StateDict) (first second merged : Name)
    (blockSize : List Int) (result : StateDict × Except Fp8Error (Nat × Nat)) : Prop where
  first_rows : ∀ shape a n k, result.2 = .ok shape → stateDict first = some a →
    a.shape = [n, k] → ∀ i < n, ∀ j < k,
      dequantized result.1 merged blockSize i j = dequantized stateDict first blockSize i j
  second_rows : ∀ shape a b n m k k', result.2 = .ok shape → stateDict first = some a →
    stateDict second = some b → a.shape = [n, k] → b.shape = [m, k'] → ∀ i < m, ∀ j < k',
      dequantized result.1 merged blockSize (n + i) j =
        dequantized stateDict second blockSize i j
  raises : ∀ e, result.2 = .error e → result.1 = stateDict

end DashInfer.Quant
