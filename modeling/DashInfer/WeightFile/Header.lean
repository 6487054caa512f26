import DashInfer.Lib.Text
import DashInfer.Weight.Tensor

/-!
The header line of one tensor in a weight file: a Python-like dictionary that
the writer prints and the loader scans for its keys.
-/

namespace DashInfer.WeightFile

open DashInfer.Lib
open DashInfer.Weight (DataType DataMode SplitMode TensorInfo Fault)

/-- How writing or loading ends early: with an exception, with an error status
or with an operation the language leaves undefined. -/
inductive Failure
  | exception (message : String)
  | status (code : String)
  | splitter (fault : Fault)
  | undefinedBehaviour
deriving DecidableEq, Repr

def byte (c : Char) : UInt8 := c.toNat.toUInt8

/-- The numbers of the enumerators. -/
def DataMode.code : DataMode → Int
  | .dense => 0
  | .csc => 1
  | .ell => 2

def SplitMode.code : SplitMode → Int
  | .noSplit => 0
  | .vSplit => 1
  | .hSplit => 2
  | .qkvSplit => 3
  | .kvSplit => 4
  | .hSplitQuantize => 5
  | .groupVSplit => 6
  | .mqaVSplit => 7
  | .batchVSplit => 8
  | .batchHSplit => 9
  | .batchKVSplit => 10

def SplitMode.ofCode? : Int → Option SplitMode
  | 0 => some .noSplit
  | 1 => some .vSplit
  | 2 => some .hSplit
  | 3 => some .qkvSplit
  | 4 => some .kvSplit
  | 5 => some .hSplitQuantize
  | 6 => some .groupVSplit
  | 7 => some .mqaVSplit
  | 8 => some .batchVSplit
  | 9 => some .batchHSplit
  | 10 => some .batchKVSplit
  | _ => none

/-- The type letter and the word size a data type is saved under. -/
def DataType.code : DataType → Option (UInt8 × Int)
  | .float32 => some (byte 'f', 4)
  | .float16 => some (byte 'f', 2)
  | .float8e4m3 => some (byte 'f', 1)
  | .int64 => some (byte 'i', 8)
  | .int32 => some (byte 'i', 4)
  | .int16 => some (byte 'i', 2)
  | .int8 => some (byte 'i', 1)
  | .uint8 => some (byte 'u', 1)
  | .bfloat16 => some (byte 'b', 2)
  | .bool => some (byte 'b', 1)
  | _ => none

/-- What a caller tells the writer about a tensor. The split mode is one of the
enumerators; every other field is any `int`. -/
structure TensorAttribute where
  sparseType : Int
  splitMode : SplitMode
  shape : List Int
  groupList : List Int
  dtype : UInt8
  wordSize : Int
  nnz : Int
deriving DecidableEq, Repr

/-- The elements of a tuple of `int`; a single one is followed by a comma. -/
def intTuple : List Int → List UInt8
  | [] => []
  | [d] => decimal d ++ text ","
  | d :: rest => decimal d ++ rest.flatMap fun x => text ", " ++ decimal x

def createAllsparkyHeader (a : TensorAttribute) : List UInt8 :=
  text "\x7b'descr': '" ++ text "<" ++ [a.dtype] ++ decimal a.wordSize ++
    text "', 'fortran_order': False, " ++
    text "'shape': (" ++ intTuple a.shape ++ text ")," ++
    text "'group_list': (" ++ intTuple a.groupList ++ text ")," ++
    text "'sparse_type': " ++ decimal a.sparseType ++ text "," ++
    text "'nnz': " ++ decimal a.nnz ++ text "," ++
    text "'split_type': " ++ decimal (SplitMode.code a.splitMode) ++ text "," ++ text "\x7d\n"

/-- The type letter and the word size. A size the letter does not have leaves
the `dtype` of the result without a value. -/
def parseDtype (type : UInt8) (wordSize : Int) : Except Failure DataType :=
  if type = byte 'f' then
    match wordSize with
    | 4 => .ok .float32
    | 2 => .ok .float16
    | 1 => .ok .float8e4m3
    | _ => .error .undefinedBehaviour
  else if type = byte 'i' then
    match wordSize with
    | 8 => .ok .int64
    | 4 => .ok .int32
    | 2 => .ok .int16
    | 1 => .ok .int8
    | _ => .error .undefinedBehaviour
  else if type = byte 'u' then
    match wordSize with
    | 1 => .ok .uint8
    | _ => .error .undefinedBehaviour
  else if type = byte 'b' then
    match wordSize with
    | 2 => .ok .bfloat16
    | 1 => .ok .bool
    | _ => .error .undefinedBehaviour
  else .error (.exception "weight header parse failed: dtype [1]")

def parseDescr (header : List UInt8) : Except Failure DataType :=
  match after? (text "descr") header with
  | none => .error (.exception "weight header parse failed: header [1]")
  | some found =>
      -- the scan continues nine characters after the start of the key
      if found.length < 4 then .error .undefinedBehaviour
      else
        match found.drop 4 with
        | [] => .error (.exception "weight header parse failed: no header [2]")
        | order :: value =>
            if order ≠ byte '<' then
              .error (.exception "weight header parse failed: no header [2]")
            else
              match value with
              | [] => .error (.exception "basic_string::substr")
              | type :: size => parseDtype type (atoi (size.takeWhile (· ≠ 39)))

/-- The numbers between the parentheses that follow a key. -/
def parseTuple (key : List UInt8) (header : List UInt8) : Except Failure (List Int) :=
  match after? key header with
  | none => .error (.exception "weight header parse failed: [3]")
  | some found =>
      if byte ')' ∈ found then
        .ok ((split (text ", ") (found.takeWhile (· ≠ byte ')'))).map atoi)
      else .error (.exception "weight header parse failed: [3]")

/-- The number that follows a key, up to a comma. -/
def parseField? (key : List UInt8) (header : List UInt8) : Option Int :=
  (after? key header).map fun found => atoi (found.takeWhile (· ≠ byte ','))

/-- The data mode; the source casts every other number too, and refuses the
tensor when it loads its data. -/
def parseMode (header : List UInt8) : Except Failure DataMode :=
  match parseField? (text "'sparse_type': ") header with
  | none => .error (.exception "weight header parse failed: [4]")
  | some 0 => .ok .dense
  | some 1 => .ok .csc
  | some 2 => .ok .ell
  | some _ => .error (.exception "unsupport sparse format")

def parseNnz (mode : DataMode) (header : List UInt8) : Except Failure Int :=
  if mode = .dense then .ok 0
  else
    match parseField? (text "'nnz': ") header with
    | none => .error (.exception "weight header parse failed: [5]")
    | some nnz => .ok nnz

/-- The split mode. A number that no enumerator has is cast as well; no writer
prints one, and the splitters refuse it. -/
def parseSplitMode (header : List UInt8) : Except Failure SplitMode :=
  match parseField? (text "'split_type': ") header with
  | none => .ok .noSplit
  | some code =>
      match SplitMode.ofCode? code with
      | some mode => .ok mode
      | none => .error (.exception "unsupported split mode.")

/-- The modes that come with a group list. -/
def ReadsGroups (mode : SplitMode) : Prop := mode = .groupVSplit ∨ mode = .mqaVSplit

instance (mode : SplitMode) : Decidable (ReadsGroups mode) := inferInstanceAs (Decidable (_ ∨ _))

def parseGroupList (splitMode : SplitMode) (header : List UInt8) : Except Failure (List Int) :=
  if ReadsGroups splitMode then
    parseTuple (text "'group_list': (") header
  else .ok []

/-- The parser of a header; a string ends at its first NUL. -/
def parseTensorInfo (line : List UInt8) : Except Failure TensorInfo := do
  let header := line.takeWhile (· ≠ 0)
  let dtype ← parseDescr header
  let shape ← parseTuple (text "'shape': (") header
  let mode ← parseMode header
  let nnz ← parseNnz mode header
  let splitMode ← parseSplitMode header
  let groupList ← parseGroupList splitMode header
  return ⟨shape, dtype, mode, splitMode, nnz, groupList⟩

/-- `fgets`: at most `limit` bytes, through the first newline. -/
def fgets : Nat → List UInt8 → List UInt8
  | 0, _ => []
  | _, [] => []
  | limit + 1, c :: rest => if c = byte '\n' then [c] else c :: fgets limit rest

end DashInfer.WeightFile
