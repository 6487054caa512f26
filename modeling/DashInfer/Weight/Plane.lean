import DashInfer.Weight.Sharding
import DashInfer.Weight.Splitter

/-!
The splitters of the batched expert weights, which copy one expert after
another through raw pointers, and the factory that picks a splitter by mode.
-/

namespace DashInfer.Weight

open DashInfer.Lib

/-- The device the copies of a shard run on, by the tensors they join. -/
structure Placement where
  dst : DeviceType
  src : DeviceType
deriving DecidableEq, Repr

namespace BatchColumns

/-- One of the `batchGemmCnt` matrices an expert's rows hold side by side. The
products of dimensions and indices are `int` until a `size_t` joins them. -/
def copySubGemm (place : Placement) (rank : RankInfo) (whole : AsTensor)
    (batchGemmCnt : Nat) (subMatrixWidth subMatrixHeight : Int) (dst : AsTensor)
    (idx : Nat × Nat) : Except Fault AsTensor := do
  let (batchGemmIdx, subGemmIdx) := idx
  let widthAfterDivRank := sizeT (quot subMatrixWidth rank.rankSize)
  let rowsBefore ← cint (batchGemmIdx * subMatrixHeight)
  let elementsBefore ← cint (rowsBefore * subMatrixWidth)
  let stackedBefore ← cint (elementsBefore * batchGemmCnt)
  let columnsBefore ← cint (subGemmIdx * subMatrixWidth)
  let base ← cint (stackedBefore + columnsBefore)
  let baseSrcIdx := sizeT (base + sizeT (widthAfterDivRank * rank.rankId))
  let baseDstIdx := sizeT (rowsBefore * widthAfterDivRank * batchGemmCnt +
    subGemmIdx * widthAfterDivRank)
  let dataSize := sizeofType whole.dtype
  let data ← copyMatrix2D dst.data (sizeT (baseDstIdx * dataSize)) whole.data
    (sizeT (baseSrcIdx * dataSize)) place.dst place.src dst.getStrideInByte
    whole.getStrideInByte (sizeT subMatrixHeight) (dst.getStrideInByte / batchGemmCnt)
  return { dst with data := data }

/-- The order of the two loops. -/
def indices (batch batchGemmCnt : Nat) : List (Nat × Nat) :=
  (List.range batch).flatMap fun b => (List.range batchGemmCnt).map fun s => (b, s)

def copy (place : Placement) (rank : RankInfo) (whole dst : AsTensor)
    (batch : Nat) (height width : Int) (batchGemmCnt : Nat) : Except Fault AsTensor :=
  let subMatrixWidth := narrow (quot width batchGemmCnt)
  (indices batch batchGemmCnt).foldlM
    (copySubGemm place rank whole batchGemmCnt subMatrixWidth height) dst

end BatchColumns

namespace BatchVerticalSplit

def isSplittable (rank : RankInfo) (info : TensorInfo) : Except Fault Bool :=
  match info.shape.length with
  | 3 => .ok (rem (dim info 2) rank.rankSize = 0)
  -- the branch of the scale matrix only returns early where it does not divide
  | _ => .ok false

def setShape (rank : RankInfo) (info : TensorInfo) : Except Fault (List Int) :=
  match info.shape.length with
  | 3 => .ok (setDim info 2 (quot (dim info 2) rank.rankSize))
  | 2 => .ok (setDim info 1 (quot (dim info 1) rank.rankSize))
  | _ => .ok info.shape

def copyWeight (place : Placement) (rank : RankInfo) (info : TensorInfo)
    (dst whole : AsTensor) : Except Fault AsTensor :=
  let batch := sizeT (narrow (dim info 0))
  match info.shape.length with
  | 3 => BatchColumns.copy place rank whole dst batch (narrow (dim info 1)) (dim info 2) 1
  | 2 => BatchColumns.copy place rank whole dst batch 1 (dim info 1) 1
  | _ => .ok dst

end BatchVerticalSplit

namespace BatchKVerticalSplit

def isSplittable (rank : RankInfo) (info : TensorInfo) : Except Fault Bool :=
  match info.shape.length with
  | 3 => .ok (rem (dim info 2) rank.rankSize = 0)
  | 2 => .ok (rem (dim info 1) rank.rankSize = 0)
  | _ => .ok false

def setShape (rank : RankInfo) (info : TensorInfo) : Except Fault (List Int) :=
  BatchVerticalSplit.setShape rank info

def copyWeight (place : Placement) (rank : RankInfo) (info : TensorInfo)
    (dst whole : AsTensor) : Except Fault AsTensor :=
  let batch := sizeT (narrow (dim info 0))
  match info.shape.length with
  | 3 => BatchColumns.copy place rank whole dst batch (narrow (dim info 1)) (dim info 2) 2
  | 2 => BatchColumns.copy place rank whole dst batch 1 (dim info 1) 2
  | _ => .ok dst

end BatchKVerticalSplit

namespace BatchHorizontalSplit

def isSplittable (rank : RankInfo) (info : TensorInfo) : Except Fault Bool :=
  match info.shape.length with
  | 3 => .ok (rem (dim info 1) rank.rankSize = 0)
  | _ => .ok false

def setShape (rank : RankInfo) (info : TensorInfo) : Except Fault (List Int) :=
  match info.shape.length with
  | 3 => .ok (setDim info 1 (quot (dim info 1) rank.rankSize))
  | _ => .ok info.shape

/-- The rows of one expert. -/
def copySubGemm (place : Placement) (rank : RankInfo) (whole : AsTensor)
    (subMatrixWidth subMatrixHeight : Int) (dst : AsTensor) (subGemmIdx : Nat) :
    Except Fault AsTensor := do
  let dstHeight := sizeT (quot subMatrixHeight rank.rankSize)
  let rowsBefore ← cint (subGemmIdx * subMatrixHeight)
  let elementsBefore ← cint (rowsBefore * subMatrixWidth)
  let baseSrcIdx := sizeT (elementsBefore + rank.rankId * dstHeight * subMatrixWidth)
  let baseDstIdx := sizeT (subGemmIdx * dstHeight * subMatrixWidth)
  let dataSize := sizeofType whole.dtype
  let data ← copyMatrix2D dst.data (sizeT (baseDstIdx * dataSize)) whole.data
    (sizeT (baseSrcIdx * dataSize)) place.dst place.src dst.getStrideInByte
    whole.getStrideInByte dstHeight dst.getStrideInByte
  return { dst with data := data }

def copyWeight (place : Placement) (rank : RankInfo) (info : TensorInfo)
    (dst whole : AsTensor) : Except Fault AsTensor :=
  match info.shape.length with
  | 3 =>
      (List.range (sizeT (narrow (dim info 0)))).foldlM
        (copySubGemm place rank whole (narrow (dim info 2)) (narrow (dim info 1))) dst
  | _ => .ok dst

end BatchHorizontalSplit

namespace NoSplit

def isSplittable (_ : RankInfo) (_ : TensorInfo) : Except Fault Bool := .ok true

def setShape (_ : RankInfo) (info : TensorInfo) : Except Fault (List Int) := .ok info.shape

def copyWeight (_ : RankInfo) (_ : TensorInfo) (_ whole : AsTensor) : Except Fault AsTensor :=
  .ok whole

end NoSplit

/-- A splitter: the check, the shape of a part and the copy that fills it. -/
structure WeightSplitter where
  isSplittable : RankInfo → TensorInfo → Except Fault Bool
  setShape : RankInfo → TensorInfo → Except Fault (List Int)
  copyWeight : RankInfo → TensorInfo → AsTensor → AsTensor → Except Fault AsTensor

def getSplitterByMode (place : Placement) : SplitMode → Except Fault WeightSplitter
  | .noSplit => .ok ⟨NoSplit.isSplittable, NoSplit.setShape, NoSplit.copyWeight⟩
  | .vSplit => .ok ⟨VerticalSplit.isSplittable, VerticalSplit.setShape, VerticalSplit.copyWeight⟩
  | .hSplit =>
      .ok ⟨HorizontalSplit.isSplittable, HorizontalSplit.setShape, HorizontalSplit.copyWeight⟩
  | .qkvSplit =>
      .ok ⟨VSplitBatchGEMM.isSplittable 3, VSplitBatchGEMM.setShape,
        VSplitBatchGEMM.copyWeight 3⟩
  | .kvSplit =>
      .ok ⟨VSplitBatchGEMM.isSplittable 2, VSplitBatchGEMM.setShape,
        VSplitBatchGEMM.copyWeight 2⟩
  | .groupVSplit =>
      .ok ⟨VSplitGroupList.isSplittable, VSplitGroupList.setShape, VSplitGroupList.copyWeight⟩
  | .mqaVSplit => .ok ⟨VSplitMQA.isSplittable, VSplitMQA.setShape, VSplitMQA.copyWeight⟩
  | .batchVSplit =>
      .ok ⟨BatchVerticalSplit.isSplittable, BatchVerticalSplit.setShape,
        BatchVerticalSplit.copyWeight place⟩
  | .batchHSplit =>
      .ok ⟨BatchHorizontalSplit.isSplittable, BatchHorizontalSplit.setShape,
        BatchHorizontalSplit.copyWeight place⟩
  | .batchKVSplit =>
      .ok ⟨BatchKVerticalSplit.isSplittable, BatchKVerticalSplit.setShape,
        BatchKVerticalSplit.copyWeight place⟩
  | .hSplitQuantize => .error .asException

end DashInfer.Weight

/-!
Matrices and vectors as rows of columns, and what it takes for a splitter to
divide their columns strip by strip: it then reassembles, whatever the memory
of the parts held before.
-/

namespace DashInfer.Weight

open DashInfer.Lib

/-- A weight matrix by its rows and columns, or a bias by its length. -/
inductive Plane
  | matrix (height width : Nat)
  | vector (width : Nat)
deriving DecidableEq, Repr

namespace Plane

def height : Plane → Nat
  | .matrix h _ => h
  | .vector _ => 1

def width : Plane → Nat
  | .matrix _ w => w
  | .vector w => w

/-- The shape of a tensor with the rows of the plane and `w` columns. -/
def shapeOf : Plane → Nat → List Int
  | .matrix h _, w => [(h : Int), (w : Int)]
  | .vector _, w => [(w : Int)]

def shape (p : Plane) : List Int := p.shapeOf p.width

/-- The partial copy the splitters use on such tensors. -/
def copy (p : Plane) (whole dst : AsTensor) (d s w : Nat) : Except Fault AsTensor :=
  match p with
  | .matrix h _ => deepCopyMatrix2DPart dst d 0 whole s 0 w h
  | .vector _ => deepCopyVectorPart dst d whole s w

/-- Every dimension is an `int`, and a tensor of `size` byte elements can be
allocated. -/
structure Sized (p : Plane) (size : Nat) : Prop where
  height_lt : p.height < 2 ^ 31
  width_lt : p.width < 2 ^ 31
  bytes_lt : p.height * (p.width * size) < 2 ^ 63

@[simp] theorem length_shapeOf_matrix (h w v : Nat) :
    ((Plane.matrix h w).shapeOf v).length = 2 := rfl

@[simp] theorem length_shapeOf_vector (w v : Nat) :
    ((Plane.vector w).shapeOf v).length = 1 := rfl

theorem copiesColumns {p : Plane} {whole : AsTensor} {dw : Nat}
    (hp : p.Sized (sizeofType whole.dtype)) (hshape : whole.shape = p.shape)
    (hdw : dw ≤ p.width) :
    CopiesColumns ⟨p.height, dw, p.width, sizeofType whole.dtype⟩ (p.shapeOf dw) whole
      (p.copy whole) := by
  obtain ⟨hh, hw, hb⟩ := hp
  cases p with
  | matrix h w =>
      have hd : h * (dw * sizeofType whole.dtype) ≤ h * (w * sizeofType whole.dtype) :=
        Nat.mul_le_mul_left _ (Nat.mul_le_mul_right _ hdw)
      simp only [height, width] at hh hw hb hdw
      have hsrc : h * (w * sizeofType whole.dtype) < 2 ^ 64 := by omega
      exact copiesColumns_matrix hshape hh (by omega) hw (lt_of_le_of_lt hd hsrc) hsrc
  | vector w =>
      simp only [width] at hw hdw
      exact copiesColumns_vector hshape (by omega) hw

theorem count_shapeOf (p : Plane) (w : Nat) : count (p.shapeOf w) = (p.height * w : Nat) := by
  cases p with
  | matrix h v => simp [count, shapeOf, height]
  | vector v => simp [count, shapeOf, height]

/-- A tensor just allocated for `w` columns. -/
theorem length_allocate (p : Plane) (w : Nat) (dtype : DataType) (garbage : Nat → UInt8) :
    (AsTensor.allocate (p.shapeOf w) dtype garbage).data.length =
      p.height * (w * sizeofType dtype) := by
  have hcast : ((p.height * w : Nat) : Int) * (sizeofType dtype : Int) =
      ((p.height * (w * sizeofType dtype) : Nat) : Int) := by
    push_cast
    ring
  rw [AsTensor.allocate, List.length_map, List.length_range, count_shapeOf, hcast,
    Int.toNat_natCast]

end Plane

/-- The part one rank receives: `SetShape` allocates it, `CopyWeight` fills
it. -/
def WeightSplitter.shard (splitter : WeightSplitter) (rank : RankInfo) (info : TensorInfo)
    (whole : AsTensor) (garbage : Nat → UInt8) : Except Fault AsTensor := do
  let shape ← splitter.setShape rank info
  splitter.copyWeight rank info (AsTensor.allocate shape info.dtype garbage) whole

/-- The parts of all ranks: those of the divided strips join to the whole
tensor, those of the shared ones agree. -/
structure Joins (ranks height size : Nat) (l : List Strip) (whole : List UInt8)
    (parts : Nat → List UInt8) : Prop where
  lengths : ∀ r < ranks, (parts r).length = height * (shardPitch l * size)
  joined : joinStrips ranks height (l.map (scale size)) parts = whole
  agree : ∀ i < height,
    SharedAgree ranks parts (i * (shardPitch l * size)) (l.map (scale size))

/-- The splitter divides the columns of the plane into these strips. -/
structure Divides (splitter : WeightSplitter) (ranks : Nat) (info : TensorInfo) (p : Plane)
    (l : List Strip) : Prop where
  pitch : wholePitch ranks l = p.width
  setShape : ∀ r < ranks, splitter.setShape ⟨r, ranks⟩ info = .ok (p.shapeOf (shardPitch l))
  copyWeight : ∀ r < ranks, ∀ dst whole,
    dst.shape = p.shapeOf (shardPitch l) → whole.shape = p.shape → dst.dtype = whole.dtype →
    splitter.copyWeight ⟨r, ranks⟩ info dst whole =
      callAll (p.copy whole) dst (stripCalls ranks r 0 0 l)

/-- The part of every rank holds its columns of the strips, row after row. -/
structure Holds (splitter : WeightSplitter) (ranks : Nat) (info : TensorInfo) (p : Plane)
    (l : List Strip) (whole : AsTensor) (garbage : Nat → Nat → UInt8)
    (parts : Nat → List UInt8) : Prop where
  shard : ∀ r < ranks, splitter.shard ⟨r, ranks⟩ info whole (garbage r) =
    .ok ⟨p.shapeOf (shardPitch l), whole.dtype, parts r⟩
  lengths : ∀ r < ranks,
    (parts r).length = p.height * (shardPitch l * sizeofType whole.dtype)
  filled : ∀ r < ranks, Filled whole.data (parts r)
    (stripRegions ⟨p.height, shardPitch (l.map (scale (sizeofType whole.dtype))),
      wholePitch ranks (l.map (scale (sizeofType whole.dtype)))⟩ ranks r 0 0
      (l.map (scale (sizeofType whole.dtype))))

/-- A splitter that divides columns strip by strip fills every part. -/
theorem Divides.holds {splitter : WeightSplitter} {ranks : Nat} {info : TensorInfo} {p : Plane}
    {l : List Strip} (h : Divides splitter ranks info p l) (hranks : 0 < ranks)
    (hp : p.Sized (sizeofType info.dtype)) {whole : AsTensor} (hshape : whole.shape = p.shape)
    (hdtype : whole.dtype = info.dtype)
    (hwhole : whole.data.length = p.height * (p.width * sizeofType info.dtype))
    (garbage : Nat → Nat → UInt8) :
    ∃ parts, Holds splitter ranks info p l whole garbage parts := by
  rw [← hdtype] at hp hwhole
  have hpart : ∀ r, ∃ data, r < ranks →
      splitter.shard ⟨r, ranks⟩ info whole (garbage r) =
        .ok ⟨p.shapeOf (shardPitch l), whole.dtype, data⟩ ∧
      data.length = p.height * (shardPitch l * sizeofType whole.dtype) ∧
      Filled whole.data data
        (stripRegions ⟨p.height, shardPitch (l.map (scale (sizeofType whole.dtype))),
          wholePitch ranks (l.map (scale (sizeofType whole.dtype)))⟩ ranks r 0 0
          (l.map (scale (sizeofType whole.dtype)))) := by
    intro r
    by_cases hr : r < ranks
    case neg => exact ⟨[], fun h => absurd h hr⟩
    have hcopy := Plane.copiesColumns hp hshape
      (h.pitch ▸ shardPitch_le_wholePitch hranks l)
    have hlen := p.length_allocate (shardPitch l) whole.dtype (garbage r)
    obtain ⟨data, hcall, hdata, hfilled⟩ := exists_part hcopy l hr
      (rfl : (AsTensor.allocate (p.shapeOf (shardPitch l)) whole.dtype (garbage r)).shape = _)
      rfl rfl h.pitch.symm hlen hwhole
    refine ⟨data, fun _ => ⟨?_, hdata.trans hlen, hfilled⟩⟩
    rw [WeightSplitter.shard, h.setShape r hr, ok_bind,
      h.copyWeight r hr _ whole rfl hshape hdtype.symm, ← hdtype, hcall]
    rfl
  choose parts hparts using hpart
  exact ⟨parts, fun r hr => (hparts r hr).1, fun r hr => (hparts r hr).2.1,
    fun r hr => (hparts r hr).2.2⟩

/-- A splitter that divides columns strip by strip reassembles. -/
theorem Divides.joins {splitter : WeightSplitter} {ranks : Nat} {info : TensorInfo} {p : Plane}
    {l : List Strip} (h : Divides splitter ranks info p l) (hranks : 0 < ranks)
    (hp : p.Sized (sizeofType info.dtype)) {whole : AsTensor} (hshape : whole.shape = p.shape)
    (hdtype : whole.dtype = info.dtype)
    (hwhole : whole.data.length = p.height * (p.width * sizeofType info.dtype))
    (garbage : Nat → Nat → UInt8) :
    ∃ parts : Nat → List UInt8,
      (∀ r < ranks, splitter.shard ⟨r, ranks⟩ info whole (garbage r) =
        .ok ⟨p.shapeOf (shardPitch l), info.dtype, parts r⟩) ∧
      Joins ranks p.height (sizeofType info.dtype) l whole.data parts := by
  obtain ⟨parts, hshard, hlengths, hfilled⟩ := h.holds hranks hp hshape hdtype hwhole garbage
  rw [← hdtype] at hwhole ⊢
  refine ⟨parts, hshard, hlengths, ?_, ?_⟩
  · refine joinStrips_filled hranks ?_ hfilled
    rw [wholePitch_scale, h.pitch, hwhole]
  · intro i hi
    have hagree := sharedAgree_filled (d := 0) (s := 0) hi hfilled
    rw [shardPitch_scale, Nat.add_zero] at hagree
    exact hagree

end DashInfer.Weight
