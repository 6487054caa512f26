import DashInfer.Lib.Buffer

/-!
Dense tensors in host memory and the copies between them. Sizes and offsets
follow the C++ types: an `int` operation that leaves its range is undefined,
a conversion to `size_t` wraps, and so does a sum of two `size_t`.
-/

namespace DashInfer.Weight

open DashInfer.Lib

inductive DataType
  | undefined | float32 | float16 | int8 | int16 | int32 | int64 | string | bool | bfloat16
  | uint8 | float8e4m3 | float8e5m2 | pointer
deriving DecidableEq, Repr

inductive DataMode
  | dense | csc | ell
deriving DecidableEq, Repr

inductive SplitMode
  | noSplit | vSplit | hSplit | qkvSplit | kvSplit | hSplitQuantize | groupVSplit | mqaVSplit
  | batchVSplit | batchHSplit | batchKVSplit
deriving DecidableEq, Repr

def sizeofType : DataType → Nat
  | .pointer => 8
  | .int64 => 8
  | .float32 => 4
  | .int32 => 4
  | .float16 => 2
  | .bfloat16 => 2
  | .int16 => 2
  | .undefined => 0
  | _ => 1

structure RankInfo where
  rankId : Nat
  rankSize : Nat
deriving DecidableEq, Repr

structure TensorInfo where
  shape : List Int
  dtype : DataType
  mode : DataMode
  splitMode : SplitMode
  nnz : Int
  groupList : List Int
deriving DecidableEq, Repr

/-- How a load ends early: with an `AsException`, or with an operation the
language leaves undefined (an `int` overflow, an access outside a buffer). -/
inductive Fault
  | asException
  | undefinedBehaviour
deriving DecidableEq, Repr

def intMin : Int := -2 ^ 31

def intMax : Int := 2 ^ 31 - 1

/-- The result of an operation on `int` operands. -/
def cint (x : Int) : Except Fault Int :=
  if intMin ≤ x ∧ x ≤ intMax then .ok x else .error .undefinedBehaviour

/-- The conversion of a wider value to `int`. -/
def narrow (x : Int) : Int := Int.bmod x (2 ^ 32)

/-- The conversion to `size_t`. -/
def sizeT (x : Int) : Nat := (x % 2 ^ 64).toNat

/-- The number of elements; a shape without dimensions has none. -/
def count (shape : List Int) : Int := if shape.isEmpty then 0 else shape.prod

/-- A dense tensor: its shape, its element type and its bytes, row after
row. -/
structure AsTensor where
  shape : List Int
  dtype : DataType
  data : List UInt8
deriving DecidableEq, Repr

/-- A tensor whose memory was just allocated; `garbage` is what stands there. -/
def AsTensor.allocate (shape : List Int) (dtype : DataType) (garbage : Nat → UInt8) :
    AsTensor :=
  ⟨shape, dtype, (List.range (count shape * sizeofType dtype).toNat).map garbage⟩

def AsTensor.getStrideInByte (t : AsTensor) : Nat :=
  sizeT (t.shape.getLastD 0 * sizeofType t.dtype)

/-- The rows one `memcpy` each moves. -/
def memcpyRows (dst src : List UInt8) (rows : List Region) : Except Fault (List UInt8) :=
  match copyRegions src dst rows with
  | some data => .ok data
  | none => .error .undefinedBehaviour

/-- Copies `len` elements of a vector. -/
def deepCopyVectorPart (dst : AsTensor) (dstColOffset : Nat) (src : AsTensor)
    (srcColOffset len : Nat) : Except Fault AsTensor :=
  if dst.shape.length ≠ src.shape.length ∨ dst.shape.length ≠ 1 then .error .asException
  else if dst.dtype ≠ src.dtype then .error .asException
  else if sizeT (src.shape.getD 0 0) < sizeT (len + srcColOffset) ∨
      sizeT (dst.shape.getD 0 0) < sizeT (len + dstColOffset) then .error .asException
  else do
    let size := sizeofType dst.dtype
    let data ← memcpyRows dst.data src.data
      [⟨sizeT (dstColOffset * size), sizeT (srcColOffset * size), sizeT (len * size)⟩]
    return { dst with data := data }

def deepCopyVector (dst src : AsTensor) (srcColOffset : Nat) : Except Fault AsTensor :=
  if count src.shape < count dst.shape then .error .asException
  else deepCopyVectorPart dst 0 src srcColOffset (sizeT (dst.shape.getD 0 0))

/-- Copies a rectangle of `regionWidth` columns and `regionHeight` rows. -/
def deepCopyMatrix2DPart (dst : AsTensor) (dstColOffset dstRowOffset : Nat) (src : AsTensor)
    (srcColOffset srcRowOffset regionWidth regionHeight : Nat) : Except Fault AsTensor :=
  if dst.shape.length ≠ src.shape.length ∨ dst.shape.length ≠ 2 then .error .asException
  else if dst.dtype ≠ src.dtype then .error .asException
  else if sizeT (src.shape.getD 0 0) < sizeT (regionHeight + srcRowOffset) ∨
      sizeT (src.shape.getD 1 0) < sizeT (regionWidth + srcColOffset) ∨
      sizeT (dst.shape.getD 0 0) < sizeT (regionHeight + dstRowOffset) ∨
      sizeT (dst.shape.getD 1 0) < sizeT (regionWidth + dstColOffset) then
    .error .asException
  else do
    let size := sizeofType dst.dtype
    let data ← memcpyRows dst.data src.data
      ((List.range regionHeight).map fun i : Nat =>
        ⟨sizeT ((i + dstRowOffset) * dst.getStrideInByte + dstColOffset * size),
          sizeT ((i + srcRowOffset) * src.getStrideInByte + srcColOffset * size),
          sizeT (regionWidth * size)⟩)
    return { dst with data := data }

def deepCopyMatrix2D (dst src : AsTensor) (srcColOffset srcRowOffset : Nat) :
    Except Fault AsTensor :=
  if count src.shape < count dst.shape then .error .asException
  else deepCopyMatrix2DPart dst 0 0 src srcColOffset srcRowOffset (sizeT (dst.shape.getD 1 0))
    (sizeT (dst.shape.getD 0 0))

def memset (t : AsTensor) (val : UInt8) : AsTensor :=
  { t with data := List.replicate t.data.length val }

inductive DeviceType
  | cpu | cuda
deriving DecidableEq, Repr

/-- Copies `height` rows of a pitched buffer. The CUDA branch moves `width`
bytes of each row; the host branch moves `dst_stride` bytes. -/
def copyMatrix2D (dst : List UInt8) (dstOffset : Nat) (src : List UInt8) (srcOffset : Nat)
    (dstDevice srcDevice : DeviceType) (dstStride srcStride height width : Nat) :
    Except Fault (List UInt8) :=
  let len := if srcDevice = .cuda ∨ dstDevice = .cuda then width else dstStride
  memcpyRows dst src
    ((List.range height).map fun i => ⟨dstOffset + i * dstStride, srcOffset + i * srcStride, len⟩)

end DashInfer.Weight
