import DashInfer.Weight.Plane
import DashInfer.WeightFile.Sparse

/-!
The writer of weight files: a local header, a header line and the data for
each tensor, then a global header that ends the file.
-/

namespace DashInfer.WeightFile

open DashInfer.Lib
open DashInfer.Weight (DataType DataMode SplitMode TensorInfo Fault)

/-- The data of one tensor in a file. -/
inductive Payload
  | dense (data : List UInt8)
  | csc (colOffsets rowIndices data : List UInt8)
  | ell (rowIndices data : List UInt8)
deriving DecidableEq, Repr

def Payload.bytes : Payload → List UInt8
  | .dense data => data
  | .csc colOffsets rowIndices data => colOffsets ++ rowIndices ++ data
  | .ell rowIndices data => rowIndices ++ data

/-- The element type a word size is compressed with; half precision is a build
option. -/
def elementOf? (fp16 : Bool) (wordSize : Int) : Option Element :=
  if wordSize = 4 then some .float
  else if wordSize = 2 ∧ fp16 then some .half
  else none

/-- The `int` expressions of a conversion stay in range. -/
def FitsInt (row col nnz size : Nat) : Prop :=
  row * col ≤ 2 ^ 31 ∧ col + 1 < 2 ^ 31 ∧ nnz * size < 2 ^ 31

instance (row col nnz size : Nat) : Decidable (FitsInt row col nnz size) :=
  inferInstanceAs (Decidable (_ ∧ _ ∧ _))

def toCsc (e : Element) (matrix : List UInt8) (row col : Nat) : Except Failure (Nat × Payload) :=
  let nnz := getNnz e matrix row col
  if FitsInt row col nnz e.size then
    let arrays := denseToCscPadding e matrix row col
    .ok (nnz, .csc (arrays.colOffset.flatMap (littleEndian 4))
      (arrays.rowIdx.flatMap (littleEndian 4)) arrays.sparseMatrix.flatten)
  else .error .undefinedBehaviour

def toEll (e : Element) (matrix : List UInt8) (row col : Nat) : Except Failure (Nat × Payload) :=
  let nnz := getNnzEll e matrix row col
  if FitsInt row col nnz e.size then do
    let arrays ← denseToEllPadding e matrix row col nnz
    return (nnz, .ell (arrays.rowIdx.flatMap (littleEndian 2)) arrays.sparseMatrix.flatten)
  else .error .undefinedBehaviour

/-- The first two dimensions of a matrix and its element type; nothing is
written for a word size without a conversion. -/
def convertMatrix (fp16 : Bool) (a : TensorAttribute) (binData : List UInt8)
    (conversion : Element → List UInt8 → Nat → Nat → Except Failure (Nat × Payload)) :
    Except Failure (Option (TensorAttribute × Payload)) :=
  match a.shape with
  | row :: col :: _ =>
      if a.wordSize = 0 then .error .undefinedBehaviour
      else
        match elementOf? fp16 a.wordSize with
        | none => .ok none
        | some e =>
            if binData.length < row.toNat * col.toNat * e.size then .error .undefinedBehaviour
            else do
              let (nnz, payload) ← conversion e binData row.toNat col.toNat
              return some ({ a with nnz := nnz }, payload)
  | _ => .error .undefinedBehaviour

/-- What is written for a tensor, with the attributes its header shows. -/
def convert (fp16 : Bool) (a : TensorAttribute) (binData : List UInt8) :
    Except Failure (Option (TensorAttribute × Payload)) :=
  if a.sparseType = 0 then
    if a.shape = [] then .error .undefinedBehaviour else .ok (some (a, .dense binData))
  else if a.sparseType = 1 then convertMatrix fp16 a binData toCsc
  else if a.sparseType = 2 then convertMatrix fp16 a binData toEll
  else .error (.exception "not support sparse type")

def saveAllsparky (fp16 : Bool) (binData : List UInt8) (a : TensorAttribute) :
    Except Failure (List UInt8) := do
  match ← convert fp16 a binData with
  | none => return []
  | some (a, payload) => return createAllsparkyHeader a ++ payload.bytes

/-- A tensor handed to the writer: its dimensions count elements, and its bytes
are the word size times their number. -/
structure SavedTensor where
  name : List UInt8
  attr : TensorAttribute
  binData : List UInt8
  dims : ∀ d ∈ attr.shape, 0 ≤ d
  sized : (binData.length : Int) = attr.wordSize * attr.shape.prod

def localHeader (name : List UInt8) : List UInt8 :=
  text "AS" ++ littleEndian 2 0x01 ++ littleEndian 2 name.length ++ name

def saveAllsparkyTofile (fp16 : Bool) (t : SavedTensor) : Except Failure (List UInt8) := do
  let data ← saveAllsparky fp16 t.binData t.attr
  return localHeader t.name ++ data

def setGlobalHeader : List UInt8 := text "AS" ++ littleEndian 2 0 ++ littleEndian 2 0

/-- The file that is left after saving the tensors one by one. -/
def writeFile (fp16 : Bool) (tensors : List SavedTensor) : Except Failure (List UInt8) := do
  let parts ← tensors.mapM (saveAllsparkyTofile fp16)
  return parts.flatten ++ setGlobalHeader

end DashInfer.WeightFile

/-!
The loader of weight files. A stream is the list of the bytes that were not
read yet; the position in the file is the length of what was.
-/

namespace DashInfer.WeightFile

open DashInfer.Lib
open DashInfer.Weight

/-- How a rank loads its weights: by mapping the file or by reading it, with or
without the assertions of a debug build. `garbage` is what stands in the memory
allocated for a tensor. -/
structure LoadConfig where
  useMmap : Bool
  asserts : Bool
  place : Placement
  rankInfo : RankInfo
  garbage : List UInt8 → Nat → UInt8

/-- A tensor of the rank: what the file says about it, its data, and for dense
data the part the rank keeps. -/
structure LoadedTensor where
  name : List UInt8
  info : TensorInfo
  payload : Payload
  part : Option AsTensor
deriving DecidableEq, Repr

def sizeBytes (info : TensorInfo) : Int := sizeofType info.dtype * count info.shape

/-- `fread` into a vector of zeros whose size is an `int` expression; a short
read is not noticed. -/
def readVector (n : Int) (rest : List UInt8) : Except Failure (List UInt8 × List UInt8) :=
  if n < 0 then .error (.exception "cannot create std::vector larger than max_size()")
  else
    let data := rest.take n.toNat
    .ok (data ++ List.replicate (n.toNat - data.length) 0, rest.drop n.toNat)

/-- The part of a dense tensor the rank keeps. -/
def DenseWeightLoader.loadFromMemory (cfg : LoadConfig) (name : List UInt8) (info : TensorInfo)
    (whole : List UInt8) : Except Fault AsTensor := do
  let splitter ← getSplitterByMode cfg.place info.splitMode
  if ← splitter.isSplittable cfg.rankInfo info then
    splitter.shard cfg.rankInfo info ⟨info.shape, info.dtype, whole⟩ (cfg.garbage name)
  else .error .asException

/-- The arrays of a sparse tensor. Without elements the column offsets of a CSC
tensor have no memory, and the copy into them is undefined. -/
def SparseWeightLoader.loadFromFileStream (info : TensorInfo) (rest : List UInt8) :
    Except Failure (Payload × List UInt8) :=
  match info.shape with
  | _ :: cols :: _ =>
      match info.mode with
      | .csc => do
          let (colOffsets, rest) ← readVector ((cols + 1) * 4) rest
          let (rowIndices, rest) ← readVector (info.nnz * 4) rest
          let (val, rest) ← readVector (info.nnz * sizeofType info.dtype) rest
          if info.nnz = 0 ∧ colOffsets ≠ [] then .error .undefinedBehaviour
          else .ok (.csc colOffsets rowIndices val, rest)
      | .ell => do
          let (rowIndices, rest) ← readVector (info.nnz * 2) rest
          let (val, rest) ← readVector (info.nnz * sizeofType info.dtype) rest
          return (.ell rowIndices val, rest)
      | .dense => .error (.exception "unsupport sparse format")
  | _ => .error .undefinedBehaviour

/-- One dense tensor. Reading leaves the stream behind the data; the mapped
data is used in place and the stream stays at its start. -/
def loadDense (cfg : LoadConfig) (name : List UInt8) (info : TensorInfo) (rest : List UInt8) :
    Except Failure (LoadedTensor × List UInt8) :=
  if sizeBytes info < 0 then .error .undefinedBehaviour
  else
    let size := (sizeBytes info).toNat
    let whole := rest.take size
    if rest.length ≤ size then .error (.status "ALLSPARK_RUNTIME_ERROR")
    else if cfg.useMmap then
      match DenseWeightLoader.loadFromMemory cfg name info whole with
      | .ok part => .ok (⟨name, info, .dense whole, some part⟩, rest)
      | .error .asException => .error (.status "ALLSPARK_RUNTIME_ERROR")
      | .error .undefinedBehaviour => .error .undefinedBehaviour
    else if cfg.asserts ∧ count info.shape = 0 then .error (.exception "assert(0)")
    else
      match DenseWeightLoader.loadFromMemory cfg name info whole with
      | .ok part => .ok (⟨name, info, .dense whole, some part⟩, rest.drop size)
      | .error fault => .error (.splitter fault)

def loadTensor (cfg : LoadConfig) (name : List UInt8) (info : TensorInfo) (rest : List UInt8) :
    Except Failure (LoadedTensor × List UInt8) :=
  if info.mode = .dense then loadDense cfg name info rest
  else do
    let (payload, rest) ← SparseWeightLoader.loadFromFileStream info rest
    return (⟨name, info, payload, none⟩, rest)

/-- The headers of the next tensor, or `none` at a local header whose flag is
not 1. -/
def readHeader (rest : List UInt8) : Except Failure (Option (List UInt8 × TensorInfo × List UInt8)) :=
  if rest.length < 6 then .error (.exception "invalid weight file: no header")
  else if readLE ((rest.drop 2).take 2) ≠ 0x01 then .ok none
  else
    let nameLen := readLE ((rest.drop 4).take 2)
    let rest := rest.drop 6
    if rest.length < nameLen then .error (.exception "invalid weight file: io err")
    else
      let varname := rest.take nameLen
      let rest := rest.drop nameLen
      match fgets 255 rest with
      -- at the end of the file `fgets` returns a null pointer
      | [] => .error .undefinedBehaviour
      | line => do
          let info ← parseTensorInfo line
          return some (varname, info, rest.drop line.length)

/-- What a load leaves: the tensors in the order they were read, and the bytes
behind the header the loop stopped at. -/
structure LoadResult where
  processOrder : List LoadedTensor
  rest : List UInt8
deriving DecidableEq, Repr

/-- Assignment in the map of the rank: a name keeps its latest tensor. -/
def assign (map : List LoadedTensor) (t : LoadedTensor) : List LoadedTensor :=
  if t.name ∈ map.map LoadedTensor.name then map.map fun u => if u.name = t.name then t else u
  else map ++ [t]

def LoadResult.tensorMap (r : LoadResult) : List LoadedTensor := r.processOrder.foldl assign []

/-- The loop over the tensors. Every turn reads a local header, so the length
of the stream bounds the number of turns. -/
def loadLoop (cfg : LoadConfig) : Nat → List UInt8 → Except Failure LoadResult
  | 0, _ => .error .undefinedBehaviour
  | turns + 1, rest => do
      match ← readHeader rest with
      | none => return ⟨[], rest.drop 6⟩
      | some (name, info, rest) =>
          let (t, rest) ← loadTensor cfg name info rest
          let r ← loadLoop cfg turns rest
          return { r with processOrder := t :: r.processOrder }

def loadWeightForModel (cfg : LoadConfig) (file : List UInt8) : Except Failure LoadResult :=
  loadLoop cfg (file.length + 1) file

end DashInfer.WeightFile
