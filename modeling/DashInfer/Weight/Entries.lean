import DashInfer.Lib.Columns
import DashInfer.Weight.Reassembly

/-!
The tensors of a splitter as matrices. The entry at column `j` of a part is the
entry of the whole tensor at the column the strips send `j` to.
-/

namespace DashInfer.Weight

open DashInfer.Lib

variable {R : Type}

/-- The matrix a tensor holds, with its elements read by `value`. -/
def AsTensor.matrix (value : DataType → List UInt8 → R) (t : AsTensor) (h w : Nat) :
    Matrix (Fin h) (Fin w) R :=
  fun i j =>
    value t.dtype (slice t.data ((i.val * w + j.val) * sizeofType t.dtype) (sizeofType t.dtype))

/-- Entry `j` of a row of a filled part. -/
theorem slice_filled {whole out : List UInt8} {p : Pitches} {ranks r size d s i j : Nat}
    {l : List Strip}
    (h : Filled whole out (stripRegions p ranks r (d * size) (s * size) (l.map (scale size))))
    (hi : i < p.height) (hj : j < shardPitch l) :
    slice out (i * p.shard + (d + j) * size) size =
      slice whole (i * p.whole + (s + column ranks r l j) * size) size := by
  induction l generalizing d s j with
  | nil => exact absurd hj (Nat.not_lt_zero j)
  | cons t rest ih =>
      rw [List.map_cons] at h
      obtain hlt | ⟨k, hk, rfl⟩ := column_cases hj
      · have hrow := h.row hi
        have hwidth : (scale size t).width = t.width * size := rfl
        have hin : j * size + size ≤ t.width * size := by
          calc j * size + size = (j + 1) * size := (Nat.succ_mul j size).symm
            _ ≤ t.width * size := Nat.mul_le_mul_right _ hlt
        have hcell := congrArg (fun row => slice row (j * size) size) hrow
        rw [hwidth, start_scale] at hcell
        rw [slice_slice _ _ _ _ _ hin, slice_slice _ _ _ _ _ hin, Nat.add_assoc, Nat.add_assoc,
          ← Nat.add_mul, ← Nat.add_mul, ← Nat.add_mul, Nat.add_assoc s] at hcell
        rw [column_left hlt]
        exact hcell
      · have htail := h.tail
        have hwidth : d * size + (scale size t).width = (d + t.width) * size :=
          (Nat.add_mul _ _ _).symm
        rw [whole_scale, ← Nat.add_mul, hwidth] at htail
        rw [column_right, ← Nat.add_assoc, ← Nat.add_assoc]
        exact ih htail hk

section Parts

variable {splitter : WeightSplitter} {ranks : Nat} {info : TensorInfo} {h w : Nat}
  {l : List Strip} {whole : AsTensor} {garbage : Nat → Nat → UInt8} {parts : Nat → List UInt8}
  (value : DataType → List UInt8 → R)

/-- The entries of a part are those of its columns of the whole tensor. -/
theorem Holds.matrix_apply (hh : Holds splitter ranks info (.matrix h w) l whole garbage parts)
    (hw : wholePitch ranks l = w) {r : Nat} (hr : r < ranks) (shape : List Int) (i : Fin h)
    (j : Fin (shardPitch l)) (hj : column ranks r l j.val < w) :
    AsTensor.matrix value ⟨shape, whole.dtype, parts r⟩ h (shardPitch l) i j =
      whole.matrix value h w i ⟨column ranks r l j.val, hj⟩ := by
  have hfilled := hh.filled r hr
  have hzero : 0 * sizeofType whole.dtype = 0 := Nat.zero_mul _
  rw [← hzero] at hfilled
  have hcell := slice_filled hfilled i.isLt j.isLt
  rw [shardPitch_scale, wholePitch_scale, hw, Nat.zero_add, Nat.zero_add, ← Nat.mul_assoc,
    ← Nat.mul_assoc, ← Nat.add_mul, ← Nat.add_mul] at hcell
  rw [AsTensor.matrix, AsTensor.matrix]
  exact congrArg (value whole.dtype) hcell

/-- A part as wide as the whole tensor is the whole tensor. -/
theorem Holds.matrix_eq (hh : Holds splitter ranks info (.matrix h w) l whole garbage parts)
    (hw : wholePitch ranks l = w) (hpitch : shardPitch l = w) {r : Nat} (hr : r < ranks)
    (shape : List Int) :
    AsTensor.matrix value ⟨shape, whole.dtype, parts r⟩ h w = whole.matrix value h w := by
  subst hpitch
  ext i j
  have hself := column_eq_self hr hw.symm j.isLt
  have hj : column ranks r l j.val < shardPitch l := lt_of_eq_of_lt hself j.isLt
  rw [hh.matrix_apply value hw hr shape i j hj]
  exact congrArg (whole.matrix value h (shardPitch l) i) (Fin.ext hself)

end Parts

section Rows

variable {ranks size : Nat} {parts : Nat → List UInt8}

/-- A part of a tensor whose parts of one size follow one another. -/
theorem slice_flatMap_parts (hlen : ∀ r < ranks, (parts r).length = size) {r : Nat}
    (hr : r < ranks) : slice ((List.range ranks).flatMap parts) (r * size) size = parts r := by
  have huniform : ∀ row ∈ (List.range ranks).map parts, row.length = size := by
    intro row hrow
    obtain ⟨q, hq, rfl⟩ := List.mem_map.mp hrow
    exact hlen q (List.mem_range.mp hq)
  rw [List.flatMap_def]
  apply slice_flatten huniform
  rw [List.getElem?_map, List.getElem?_range hr]
  rfl

/-- The entries of a part that holds rows are those of its rows of the whole
tensor. -/
theorem matrix_rows_apply (value : DataType → List UInt8 → R) {whole : AsTensor} {m h w : Nat}
    (hlen : ∀ r < ranks, (parts r).length = m * (w * sizeofType whole.dtype))
    (hjoin : (List.range ranks).flatMap parts = whole.data) {r : Nat} (hr : r < ranks)
    (shape : List Int) (i : Fin m) (j : Fin w) (hi : r * m + i.val < h) :
    AsTensor.matrix value ⟨shape, whole.dtype, parts r⟩ m w i j =
      whole.matrix value h w ⟨r * m + i.val, hi⟩ j := by
  have hpart := slice_flatMap_parts hlen hr
  have hin : (i.val * w + j.val) * sizeofType whole.dtype + sizeofType whole.dtype ≤
      m * (w * sizeofType whole.dtype) := by
    have hrow : i.val * w + j.val + 1 ≤ m * w := by
      calc i.val * w + j.val + 1 ≤ i.val * w + w := by omega
        _ = (i.val + 1) * w := (Nat.succ_mul _ _).symm
        _ ≤ m * w := Nat.mul_le_mul_right _ i.isLt
    calc (i.val * w + j.val) * sizeofType whole.dtype + sizeofType whole.dtype
        = (i.val * w + j.val + 1) * sizeofType whole.dtype := (Nat.succ_mul _ _).symm
      _ ≤ m * w * sizeofType whole.dtype := Nat.mul_le_mul_right _ hrow
      _ = m * (w * sizeofType whole.dtype) := Nat.mul_assoc _ _ _
  have hoffset : r * (m * (w * sizeofType whole.dtype)) +
      (i.val * w + j.val) * sizeofType whole.dtype =
        ((r * m + i.val) * w + j.val) * sizeofType whole.dtype := by ring
  rw [hjoin] at hpart
  rw [AsTensor.matrix, AsTensor.matrix]
  dsimp only
  rw [← hpart, slice_slice _ _ _ _ _ hin, hoffset]

end Rows

end DashInfer.Weight
