import DashInfer.Weight.Tensor

/-!
The weight splitters: which tensors each split mode accepts, the shape of the
part one rank holds and the copies that fill it.
-/

namespace DashInfer.Weight

open DashInfer.Lib

/-- C++ `a % b` and `a / b` on signed operands. -/
abbrev rem (a b : Int) : Int := Int.tmod a b

abbrev quot (a b : Int) : Int := Int.tdiv a b

def dim (info : TensorInfo) (i : Nat) : Int := info.shape.getD i 0

def setDim (info : TensorInfo) (i : Nat) (d : Int) : List Int := info.shape.set i d

/-- The element counts of a list of `int`, added up in an `int`. -/
def totalLen (groups : List Int) : Except Fault Int :=
  groups.foldlM (fun total g => cint (total + g)) 0

namespace VerticalSplit

def isSplittable (rank : RankInfo) (info : TensorInfo) : Except Fault Bool :=
  match info.shape.length with
  | 2 => .ok (rem (dim info 1) rank.rankSize = 0)
  | 1 => .ok (rem (dim info 0) rank.rankSize = 0)
  | _ => .ok false

def setShape (rank : RankInfo) (info : TensorInfo) : Except Fault (List Int) :=
  match info.shape.length with
  | 2 => .ok (setDim info 1 (quot (dim info 1) rank.rankSize))
  | 1 => .ok (setDim info 0 (quot (dim info 0) rank.rankSize))
  | _ => .ok info.shape

def copyWeight (rank : RankInfo) (info : TensorInfo) (dst whole : AsTensor) :
    Except Fault AsTensor :=
  match info.shape.length with
  | 2 =>
      let rankOffset := narrow (quot (dim info 1) rank.rankSize * rank.rankId)
      deepCopyMatrix2D dst whole (sizeT rankOffset) 0
  | 1 =>
      let rankOffset := narrow (quot (dim info 0) rank.rankSize * rank.rankId)
      deepCopyVector dst whole (sizeT rankOffset)
  | _ => .ok dst

end VerticalSplit

namespace HorizontalSplit

def isSplittable (rank : RankInfo) (info : TensorInfo) : Except Fault Bool :=
  match info.shape.length with
  | 2 => .ok (rem (dim info 0) rank.rankSize = 0)
  | 1 => .ok (rem (dim info 0) rank.rankSize = 0)
  | _ => .ok false

def setShape (rank : RankInfo) (info : TensorInfo) : Except Fault (List Int) :=
  match info.shape.length with
  | 2 => .ok (setDim info 0 (quot (dim info 0) rank.rankSize))
  | _ => .ok info.shape

def copyWeight (rank : RankInfo) (info : TensorInfo) (dst whole : AsTensor) :
    Except Fault AsTensor :=
  match info.shape.length with
  | 2 =>
      let rows := narrow (quot (rank.rankId * dim info 0) rank.rankSize)
      deepCopyMatrix2D dst whole 0 (sizeT rows)
  | 1 =>
      -- the bias is added once for every rank, so only the first one keeps it
      if rank.rankId = 0 then deepCopyVector dst whole 0 else .ok (memset dst 0)
  | _ => .ok dst

end HorizontalSplit

namespace VSplitBatchGEMM

variable (batchGemmCnt : Nat)

def isSplittable (rank : RankInfo) (info : TensorInfo) : Except Fault Bool :=
  match info.shape.length with
  | 2 => do
      let parts ← cint (batchGemmCnt * rank.rankSize)
      return rem (dim info 1) parts = 0
  | 1 => do
      let parts ← cint (rank.rankSize * batchGemmCnt)
      return rem (dim info 0) parts = 0
  | _ => .ok false

def setShape (rank : RankInfo) (info : TensorInfo) : Except Fault (List Int) :=
  VerticalSplit.setShape rank info

/-- One of the stacked matrices. -/
def copySubGemm (rank : RankInfo) (whole : AsTensor) (width : Int) (height : Nat)
    (dst : AsTensor) (subGemmIdx : Nat) : Except Fault AsTensor := do
  let widthAfterDivRank := sizeT (quot width rank.rankSize)
  let baseIdx ← cint (subGemmIdx * width)
  let baseSrcIdx := sizeT baseIdx
  let baseDstIdx := sizeT (quot baseIdx rank.rankSize)
  deepCopyMatrix2DPart dst baseDstIdx 0 whole
    (sizeT (baseSrcIdx + sizeT (widthAfterDivRank * rank.rankId))) 0 widthAfterDivRank height

/-- One of the stacked vectors. -/
def copySubVec (rank : RankInfo) (whole : AsTensor) (width copyLen : Int)
    (dst : AsTensor) (subVecIdx : Nat) : Except Fault AsTensor := do
  let base ← cint (width * subVecIdx)
  let part ← cint (quot width rank.rankSize * rank.rankId)
  let srcIdx ← cint (base + part)
  let dstIdx ← cint (subVecIdx * quot width rank.rankSize)
  deepCopyVectorPart dst (sizeT dstIdx) whole (sizeT srcIdx) (sizeT copyLen)

def copyWeight (rank : RankInfo) (info : TensorInfo) (dst whole : AsTensor) :
    Except Fault AsTensor :=
  match info.shape.length with
  | 2 =>
      let subMatrixWidth := narrow (quot (dim info 1) batchGemmCnt)
      let subMatrixHeight := narrow (dim info 0)
      (List.range batchGemmCnt).foldlM
        (copySubGemm rank whole subMatrixWidth (sizeT subMatrixHeight)) dst
  | 1 =>
      let qkvSubWidth := narrow (quot (dim info 0) batchGemmCnt)
      let copyLen := narrow (quot (quot (dim info 0) rank.rankSize) batchGemmCnt)
      (List.range batchGemmCnt).foldlM (copySubVec rank whole qkvSubWidth copyLen) dst
  | _ => .ok dst

end VSplitBatchGEMM

namespace VSplitGroupList

def isSplittable (rank : RankInfo) (info : TensorInfo) : Except Fault Bool :=
  if info.groupList.any fun g => rem g rank.rankSize ≠ 0 then .ok false
  else do
    let total ← totalLen info.groupList
    match info.shape.length with
    | 2 => return rem (dim info 1) rank.rankSize = 0 ∧ dim info 1 = total
    | 1 => return rem (dim info 0) rank.rankSize = 0 ∧ dim info 0 = total
    | _ => return false

def setShape (rank : RankInfo) (info : TensorInfo) : Except Fault (List Int) :=
  VerticalSplit.setShape rank info

/-- One group: the running `prefix_sum` is an `int`, the group's own width a
`size_t`. -/
def copyGroup2D (rank : RankInfo) (whole : AsTensor) (height : Nat)
    (state : AsTensor × Int) (group : Int) : Except Fault (AsTensor × Int) := do
  let (dst, prefixSum) := state
  let now := sizeT group
  let widthAfterDivRank := now / rank.rankSize
  let baseSrcIdx := sizeT prefixSum
  let baseDstIdx := sizeT (quot prefixSum rank.rankSize)
  let dst ← deepCopyMatrix2DPart dst baseDstIdx 0 whole
    (sizeT (baseSrcIdx + sizeT (widthAfterDivRank * rank.rankId))) 0 widthAfterDivRank height
  return (dst, narrow (sizeT (prefixSum + now)))

def copyGroup1D (rank : RankInfo) (whole : AsTensor)
    (state : AsTensor × Int) (group : Int) : Except Fault (AsTensor × Int) := do
  let (dst, prefixSum) := state
  let now := sizeT group
  let part := now / rank.rankSize
  let copyLen := narrow part
  let srcIdx := sizeT (prefixSum + sizeT (part * rank.rankId))
  let dstIdx := sizeT (quot prefixSum rank.rankSize)
  let dst ← deepCopyVectorPart dst dstIdx whole srcIdx (sizeT copyLen)
  return (dst, narrow (sizeT (prefixSum + now)))

def copyWeight (rank : RankInfo) (info : TensorInfo) (dst whole : AsTensor) :
    Except Fault AsTensor :=
  match info.shape.length with
  | 2 => do
      let subMatrixHeight := narrow (dim info 0)
      let (dst, _) ← info.groupList.foldlM
        (copyGroup2D rank whole (sizeT subMatrixHeight)) (dst, (0 : Int))
      return dst
  | 1 => do
      let (dst, _) ← info.groupList.foldlM (copyGroup1D rank whole) (dst, (0 : Int))
      return dst
  | _ => .ok dst

end VSplitGroupList

namespace VSplitMQA

def isSplittable (rank : RankInfo) (info : TensorInfo) : Except Fault Bool :=
  if info.groupList.length ≠ 3 then .ok false
  else if rem (info.groupList.getD 0 0) rank.rankSize ≠ 0 then .ok false
  else do
    let total ← totalLen info.groupList
    match info.shape.length with
    | 2 => return dim info 1 = total
    | 1 => return dim info 0 = total
    | _ => return false

def shardWidth (rank : RankInfo) (info : TensorInfo) : Except Fault Int := do
  let keys ← cint (quot (info.groupList.getD 0 0) rank.rankSize + info.groupList.getD 1 0)
  cint (keys + info.groupList.getD 2 0)

def setShape (rank : RankInfo) (info : TensorInfo) : Except Fault (List Int) :=
  match info.shape.length with
  | 2 => (shardWidth rank info).map (setDim info 1)
  | 1 => (shardWidth rank info).map (setDim info 0)
  | _ => .ok info.shape

/-- What the loop keeps: the tensor and the two prefix sums, both `int`. -/
structure Progress where
  dst : AsTensor
  srcPrefixSum : Int
  dstPrefixSum : Int

/-- One group, through the copy for matrices or for vectors; only the first
group is divided among the ranks. -/
def copyGroup (rank : RankInfo)
    (copy : AsTensor → Nat → Nat → Nat → Except Fault AsTensor)
    (p : Progress) (group : Nat × Int) : Except Fault Progress := do
  let (i, g) := group
  let now := if i = 0 then sizeT (quot g rank.rankSize) else sizeT g
  let srcIdx :=
    if i = 0 then sizeT (p.srcPrefixSum + sizeT (now * rank.rankId)) else sizeT p.srcPrefixSum
  let dst ← copy p.dst (sizeT p.dstPrefixSum) srcIdx now
  let srcPrefixSum ← cint (p.srcPrefixSum + g)
  return ⟨dst, srcPrefixSum, narrow (sizeT (p.dstPrefixSum + now))⟩

def indexed (groups : List Int) : List (Nat × Int) := groups.zipIdx.map fun (g, i) => (i, g)

def copyWeight (rank : RankInfo) (info : TensorInfo) (dst whole : AsTensor) :
    Except Fault AsTensor :=
  match info.shape.length with
  | 2 => do
      let subMatrixHeight := narrow (dim info 0)
      let p ← (indexed info.groupList).foldlM
        (copyGroup rank fun dst dstIdx srcIdx now =>
          deepCopyMatrix2DPart dst dstIdx 0 whole srcIdx 0 now (sizeT subMatrixHeight))
        ⟨dst, 0, 0⟩
      return p.dst
  | 1 => do
      let p ← (indexed info.groupList).foldlM
        (copyGroup rank fun dst dstIdx srcIdx now =>
          deepCopyVectorPart dst dstIdx whole srcIdx (sizeT (narrow now)))
        ⟨dst, 0, 0⟩
      return p.dst
  | _ => .ok dst

end VSplitMQA

/-!
The machine arithmetic of the splitters on operands that stay in range, and
what fails outside of it.
-/

theorem cint_ok {x : Int} (h : intMin ≤ x ∧ x ≤ intMax) : cint x = .ok x := if_pos h

theorem cint_eq_ok {x y : Int} (h : cint x = .ok y) :
    y = x ∧ intMin ≤ x ∧ x ≤ intMax := by
  rw [cint] at h
  split at h
  case isTrue hx =>
      obtain rfl := Except.ok.inj h
      exact ⟨rfl, hx⟩
  case isFalse => cases h

theorem cint_natCast {n : Nat} (h : n < 2 ^ 31) : cint (n : Int) = .ok (n : Int) := by
  apply cint_ok
  simp only [intMin, intMax]
  omega

theorem narrow_natCast {n : Nat} (h : n < 2 ^ 31) : narrow (n : Int) = n := by
  rw [narrow, Int.bmod_def]
  omega

theorem sizeT_natCast {n : Nat} (h : n < 2 ^ 64) : sizeT (n : Int) = n := by
  rw [sizeT]
  omega

theorem quot_natCast (a b : Nat) : quot (a : Int) (b : Int) = ((a / b : Nat) : Int) := rfl

theorem rem_natCast (a b : Nat) : rem (a : Int) (b : Int) = ((a % b : Nat) : Int) := rfl

/-- Binding two loads: the first one's fault is the fault of both. -/
theorem bind_eq_ok {α β : Type} {x : Except Fault α} {f : α → Except Fault β} {b : β}
    (h : x >>= f = .ok b) : ∃ a, x = .ok a ∧ f a = .ok b := by
  cases x with
  | error e => cases h
  | ok a => exact ⟨a, rfl, h⟩

theorem ok_bind {α β : Type} (a : α) (f : α → Except Fault β) :
    (Except.ok a >>= f) = f a := rfl

end DashInfer.Weight
