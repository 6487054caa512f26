import DashInfer.Lib.Strips
import DashInfer.Weight.Splitter

/-!
A part of a weight is filled strip by strip: every mode that divides columns
calls one of the two partial copies with the columns of one strip, and the
sequence of calls moves exactly the runs that fill a shard.
-/

namespace DashInfer.Weight

open DashInfer.Lib

/-- A strip of elements as a strip of bytes. -/
def scale (size : Nat) (t : Strip) : Strip := ⟨t.width * size, t.shared⟩

theorem whole_scale (ranks size : Nat) (t : Strip) :
    (scale size t).whole ranks = t.whole ranks * size := by
  rw [Strip.whole, Strip.whole, scale]
  split
  · rfl
  · exact (Nat.mul_assoc _ _ _).symm

theorem start_scale (r size : Nat) (t : Strip) :
    (scale size t).start r = t.start r * size := by
  rw [Strip.start, Strip.start, scale]
  split
  · exact (Nat.zero_mul _).symm
  · exact (Nat.mul_assoc _ _ _).symm

theorem shardPitch_scale (size : Nat) (l : List Strip) :
    shardPitch (l.map (scale size)) = shardPitch l * size := by
  induction l with
  | nil => simp
  | cons t rest ih =>
      rw [List.map_cons, shardPitch_cons, shardPitch_cons, ih, Nat.add_mul]
      rfl

theorem wholePitch_scale (ranks size : Nat) (l : List Strip) :
    wholePitch ranks (l.map (scale size)) = wholePitch ranks l * size := by
  induction l with
  | nil => simp
  | cons t rest ih =>
      rw [List.map_cons, wholePitch_cons, wholePitch_cons, ih, Nat.add_mul, whole_scale]

/-- The rows and the row widths, in elements, of a part and of the whole
tensor. -/
structure Extent where
  height : Nat
  shard : Nat
  whole : Nat
  size : Nat

def Extent.pitches (e : Extent) : Pitches := ⟨e.height, e.shard * e.size, e.whole * e.size⟩

/-- The runs that move columns `[s, s + w)` of the whole tensor to column
`d` of the part. -/
def Extent.rows (e : Extent) (d s w : Nat) : List Region :=
  (List.range e.height).map fun i =>
    ⟨i * (e.shard * e.size) + d * e.size, i * (e.whole * e.size) + s * e.size, w * e.size⟩

/-- A call `copy dst d s w` moves the columns it names and keeps the shape. -/
def CopiesColumns (e : Extent) (shape : List Int) (whole : AsTensor)
    (copy : AsTensor → Nat → Nat → Nat → Except Fault AsTensor) : Prop :=
  ∀ dst d s w, dst.shape = shape → dst.dtype = whole.dtype → d + w ≤ e.shard → s + w ≤ e.whole →
    copy dst d s w =
      (memcpyRows dst.data whole.data (e.rows d s w)).map fun data => { dst with data := data }

/-- The calls that fill the part of one rank: target column, source column and
width, in elements. -/
def stripCalls (ranks r : Nat) : Nat → Nat → List Strip → List (Nat × Nat × Nat)
  | _, _, [] => []
  | d, s, t :: rest =>
      (d, s + t.start r, t.width) :: stripCalls ranks r (d + t.width) (s + t.whole ranks) rest

def callAll (copy : AsTensor → Nat → Nat → Nat → Except Fault AsTensor) (dst : AsTensor)
    (calls : List (Nat × Nat × Nat)) : Except Fault AsTensor :=
  calls.foldlM (fun dst c => copy dst c.1 c.2.1 c.2.2) dst

section Calls

variable {e : Extent} {shape : List Int} {whole : AsTensor}
  {copy : AsTensor → Nat → Nat → Nat → Except Fault AsTensor} {ranks r : Nat}

theorem regions_scale (d s : Nat) (t : Strip) :
    (scale e.size t).regions e.pitches r (d * e.size) (s * e.size) =
      e.rows d (s + t.start r) t.width := by
  refine List.map_congr_left fun i _ => ?_
  rw [start_scale, ← Nat.add_mul]
  rfl

/-- Calls that go through move the runs of the strips. -/
theorem callAll_stripCalls (hcopy : CopiesColumns e shape whole copy) {dst : AsTensor}
    {d s : Nat} {l : List Strip} (hr : r < ranks) (hshape : dst.shape = shape)
    (hdtype : dst.dtype = whole.dtype) (hd : d + shardPitch l ≤ e.shard)
    (hs : s + wholePitch ranks l ≤ e.whole) {data : List UInt8}
    (h : copyRegions whole.data dst.data
      (stripRegions e.pitches ranks r (d * e.size) (s * e.size) (l.map (scale e.size))) =
        some data) :
    callAll copy dst (stripCalls ranks r d s l) = .ok { dst with data := data } := by
  induction l generalizing dst d s with
  | nil =>
      obtain rfl := Option.some.inj h
      rfl
  | cons t rest ih =>
      rw [shardPitch_cons] at hd
      rw [wholePitch_cons] at hs
      have hstart := t.start_le hr
      rw [List.map_cons, stripRegions, copyRegions_append, Option.bind_eq_some_iff] at h
      obtain ⟨mid, hmid, hrest⟩ := h
      rw [regions_scale] at hmid
      rw [whole_scale, ← Nat.add_mul] at hrest
      have hwidth : d * e.size + (scale e.size t).width = (d + t.width) * e.size :=
        (Nat.add_mul _ _ _).symm
      rw [hwidth] at hrest
      rw [stripCalls, callAll, List.foldlM_cons,
        hcopy dst d (s + t.start r) t.width hshape hdtype (by omega) (by omega), memcpyRows, hmid]
      exact ih hshape hdtype (by omega) (by omega) hrest

/-- The calls of all strips fill a part, whatever its memory held before. -/
theorem exists_part (hcopy : CopiesColumns e shape whole copy) (l : List Strip) {dst : AsTensor}
    (hr : r < ranks) (hshape : dst.shape = shape) (hdtype : dst.dtype = whole.dtype)
    (hshard : e.shard = shardPitch l) (hpitch : e.whole = wholePitch ranks l)
    (hdst : dst.data.length = e.height * (e.shard * e.size))
    (hwhole : whole.data.length = e.height * (e.whole * e.size)) :
    ∃ data, callAll copy dst (stripCalls ranks r 0 0 l) = .ok { dst with data := data } ∧
      data.length = dst.data.length ∧
      Filled whole.data data
        (stripRegions ⟨e.height, shardPitch (l.map (scale e.size)),
          wholePitch ranks (l.map (scale e.size))⟩ ranks r 0 0 (l.map (scale e.size))) := by
  have hd := shardPitch_scale e.size l
  have hw := wholePitch_scale ranks e.size l
  rw [← hshard] at hd
  rw [← hpitch] at hw
  obtain ⟨data, hdata, hlen, hfilled⟩ := exists_filled (l.map (scale e.size)) e.height
    whole.data dst.data hr (by rw [hw]; exact hwhole) (by rw [hd]; exact hdst) (List.Perm.refl _)
  refine ⟨data, ?_, hlen, hfilled⟩
  rw [hd, hw] at hdata
  have hzero : 0 * e.size = 0 := Nat.zero_mul _
  refine callAll_stripCalls hcopy hr hshape hdtype ?_ ?_ ?_
  · omega
  · omega
  · rw [hzero]
    exact hdata

end Calls

section Copies

variable {h dw w size : Nat} {whole : AsTensor}

theorem getStrideInByte_matrix {t : AsTensor} {rows cols : Nat}
    (hshape : t.shape = [(rows : Int), (cols : Int)])
    (hbytes : cols * sizeofType t.dtype < 2 ^ 64) :
    t.getStrideInByte = cols * sizeofType t.dtype := by
  have hstride : ((cols : Int) * (sizeofType t.dtype : Int)) =
      ((cols * sizeofType t.dtype : Nat) : Int) := by push_cast; rfl
  rw [AsTensor.getStrideInByte, hshape]
  exact (congrArg sizeT hstride).trans (sizeT_natCast hbytes)

theorem sizeT_add {a b : Nat} (h : a + b < 2 ^ 64) : sizeT ((a : Int) + (b : Int)) = a + b := by
  rw [← Nat.cast_add, sizeT_natCast h]

theorem sizeT_mul {a b : Nat} (h : a * b < 2 ^ 64) : sizeT ((a : Int) * (b : Int)) = a * b := by
  rw [← Nat.cast_mul, sizeT_natCast h]

theorem sizeT_offset {i o pitch d size bound : Nat} (h : (i + o) * pitch + d * size ≤ bound)
    (hbound : bound < 2 ^ 64) :
    sizeT (((i : Int) + (o : Int)) * (pitch : Int) + (d : Int) * (size : Int)) =
      (i + o) * pitch + d * size := by
  have hcast : ((i : Int) + (o : Int)) * (pitch : Int) + (d : Int) * (size : Int) =
      (((i + o) * pitch + d * size : Nat) : Int) := by
    push_cast
    ring
  rw [hcast, sizeT_natCast (by omega)]

theorem sizeofType_le (t : DataType) : sizeofType t ≤ 8 := by
  cases t <;> decide

theorem mul_sizeofType_lt {k : Nat} (t : DataType) (hk : k < 2 ^ 31) :
    k * sizeofType t < 2 ^ 64 := by
  calc k * sizeofType t ≤ k * 8 := Nat.mul_le_mul_left _ (sizeofType_le t)
    _ < 2 ^ 64 := by omega

/-- The partial copy of `n` columns and `h` rows, from row `o` of the whole
matrix on. -/
theorem deepCopyMatrix2DPart_eq {H o d s n : Nat} {dst : AsTensor}
    (hshape : whole.shape = [(H : Int), (w : Int)]) (hdshape : dst.shape = [(h : Int), (dw : Int)])
    (hdtype : dst.dtype = whole.dtype) (hH : H < 2 ^ 31) (hdw : dw < 2 ^ 31) (hw : w < 2 ^ 31)
    (hdst : h * (dw * sizeofType whole.dtype) < 2 ^ 64)
    (hsrc : H * (w * sizeofType whole.dtype) < 2 ^ 64)
    (ho : h + o ≤ H) (hd : d + n ≤ dw) (hs : s + n ≤ w) :
    deepCopyMatrix2DPart dst d 0 whole s o n h =
      (memcpyRows dst.data whole.data ((List.range h).map fun i : Nat =>
        ⟨i * (dw * sizeofType whole.dtype) + d * sizeofType whole.dtype,
          (i + o) * (w * sizeofType whole.dtype) + s * sizeofType whole.dtype,
          n * sizeofType whole.dtype⟩)).map fun data => { dst with data := data } := by
  have hdstride : dst.getStrideInByte = dw * sizeofType whole.dtype := by
    rw [getStrideInByte_matrix hdshape (mul_sizeofType_lt _ hdw), hdtype]
  have hwstride := getStrideInByte_matrix hshape (mul_sizeofType_lt _ hw)
  have hrows : ((List.range h).map fun i : Nat =>
      (⟨sizeT (((i : Int) + ((0 : Nat) : Int)) * ((dw * sizeofType whole.dtype : Nat) : Int) +
          (d : Int) * (sizeofType whole.dtype : Int)),
        sizeT (((i : Int) + (o : Int)) * ((w * sizeofType whole.dtype : Nat) : Int) +
          (s : Int) * (sizeofType whole.dtype : Int)),
        sizeT ((n : Int) * (sizeofType whole.dtype : Int))⟩ : Region)) =
      (List.range h).map fun i : Nat =>
        ⟨i * (dw * sizeofType whole.dtype) + d * sizeofType whole.dtype,
          (i + o) * (w * sizeofType whole.dtype) + s * sizeofType whole.dtype,
          n * sizeofType whole.dtype⟩ := by
    refine List.map_congr_left fun i hi => ?_
    have hi := List.mem_range.mp hi
    rw [sizeT_offset (row_fits hi (Nat.mul_le_mul_right _ (by omega))) hdst,
      sizeT_offset (row_fits (by omega) (Nat.mul_le_mul_right _ (by omega))) hsrc,
      sizeT_mul (mul_sizeofType_lt _ (by omega)), Nat.add_zero]
  simp only [deepCopyMatrix2DPart, hdshape, hshape, hdtype, hdstride, hwstride]
  rw [if_neg (by simp), if_neg (by simp), if_neg]
  · rw [← hrows]
    rfl
  · simp only [List.getD_cons_zero, List.getD_cons_succ]
    rw [sizeT_natCast (by omega), sizeT_natCast (by omega), sizeT_natCast (by omega),
      sizeT_natCast (by omega), sizeT_add (by omega), sizeT_add (by omega), sizeT_add (by omega),
      sizeT_add (by omega)]
    omega

/-- The partial copy between matrices of one height moves whole columns. -/
theorem copiesColumns_matrix (hshape : whole.shape = [(h : Int), (w : Int)])
    (hh : h < 2 ^ 31) (hdw : dw < 2 ^ 31) (hw : w < 2 ^ 31)
    (hdst : h * (dw * sizeofType whole.dtype) < 2 ^ 64)
    (hsrc : h * (w * sizeofType whole.dtype) < 2 ^ 64) :
    CopiesColumns ⟨h, dw, w, sizeofType whole.dtype⟩ [(h : Int), (dw : Int)] whole
      fun dst d s n => deepCopyMatrix2DPart dst d 0 whole s 0 n h :=
  fun _ _ _ _ hdshape hdtype hd hs =>
    deepCopyMatrix2DPart_eq hshape hdshape hdtype hh hdw hw hdst hsrc (le_refl h) hd hs

/-- The partial copy between vectors moves columns of a single row. -/
theorem copiesColumns_vector (hshape : whole.shape = [(w : Int)])
    (hdw : dw < 2 ^ 31) (hw : w < 2 ^ 31) :
    CopiesColumns ⟨1, dw, w, sizeofType whole.dtype⟩ [(dw : Int)] whole
      fun dst d s n => deepCopyVectorPart dst d whole s n := by
  intro dst d s n hdshape hdtype hd hs
  dsimp only at hd hs
  simp only [deepCopyVectorPart, hdshape, hshape, hdtype]
  rw [if_neg (by simp), if_neg (by simp), if_neg]
  · rw [sizeT_mul (mul_sizeofType_lt _ (by omega)), sizeT_mul (mul_sizeofType_lt _ (by omega)),
      sizeT_mul (mul_sizeofType_lt _ (by omega))]
    simp only [Extent.rows, List.range_one, List.map_cons, List.map_nil, Nat.zero_mul,
      Nat.zero_add]
    rfl
  · simp only [List.getD_cons_zero]
    rw [sizeT_natCast (by omega), sizeT_natCast (by omega),
      sizeT_add (by omega), sizeT_add (by omega)]
    omega

end Copies

end DashInfer.Weight
