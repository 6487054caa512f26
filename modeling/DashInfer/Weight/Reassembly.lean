import DashInfer.Weight.Modes

/-!
HSPLIT divides the rows of a matrix, and keeps a bias whole on the first
rank.
-/

namespace DashInfer.Weight

open DashInfer.Lib

variable {ranks : Nat} {info : TensorInfo}

/-- The rows of a rank, in the types of the source. -/
theorem rank_rows {h r : Nat} (hh : h < 2 ^ 31) (hr : r < ranks) (hdvd : ranks ∣ h) :
    sizeT (narrow (quot (r * (h : Int)) ranks)) = r * (h / ranks) := by
  obtain ⟨k, rfl⟩ := hdvd
  have hranks : 0 < ranks := by omega
  have hcast : (r : Int) * ((ranks * k : Nat) : Int) = ((r * (ranks * k) : Nat) : Int) :=
    (Nat.cast_mul _ _).symm
  have hdiv : r * (ranks * k) / ranks = r * k := by
    rw [Nat.mul_left_comm, Nat.mul_div_cancel_left _ hranks]
  have hle : r * k ≤ ranks * k := Nat.mul_le_mul_right _ hr.le
  rw [hcast, quot_natCast, hdiv, Nat.mul_div_cancel_left _ hranks, narrow_natCast (by omega),
    sizeT_natCast (by omega)]

/-- The rows `[r * m, (r + 1) * m)` of the whole matrix. -/
theorem copyRows_matrix {whole dst : AsTensor} {m w r : Nat} (hr : r < ranks)
    (hwhole : whole.shape = [((ranks * m : Nat) : Int), (w : Int)])
    (hdst : dst.shape = [(m : Int), (w : Int)]) (hdtype : dst.dtype = whole.dtype)
    (hh : ranks * m < 2 ^ 31) (hw : w < 2 ^ 31)
    (hlen : dst.data.length = m * (w * sizeofType whole.dtype))
    (hdata : whole.data.length = ranks * m * (w * sizeofType whole.dtype))
    (hbytes : ranks * m * (w * sizeofType whole.dtype) < 2 ^ 63) :
    ∃ data, deepCopyMatrix2DPart dst 0 0 whole 0 (r * m) w m = .ok { dst with data := data } ∧
      data = slice whole.data (r * (m * (w * sizeofType whole.dtype)))
        (m * (w * sizeofType whole.dtype)) := by
  have hm : m ≤ ranks * m := Nat.le_mul_of_pos_left m (by omega)
  have hrm : r * m + m ≤ ranks * m := by
    calc r * m + m = (r + 1) * m := (Nat.succ_mul r m).symm
      _ ≤ ranks * m := Nat.mul_le_mul_right _ hr
  generalize hpitch : w * sizeofType whole.dtype = pitch at hlen hdata hbytes ⊢
  have hpart : m * pitch ≤ ranks * m * pitch := Nat.mul_le_mul_right _ hm
  have hcopy := deepCopyMatrix2DPart_eq (o := r * m) (d := 0) (s := 0) (n := w) hwhole hdst hdtype
    hh hw hw (by rw [hpitch]; omega) (by rw [hpitch]; omega) (by omega) (by omega) (by omega)
  simp only [Nat.zero_mul, Nat.add_zero, hpitch] at hcopy
  have hfits : ∀ c ∈ (List.range m).map fun i : Nat => (⟨i * pitch, (i + r * m) * pitch, pitch⟩ :
      Region), c.Fits dst.data.length whole.data.length := by
    intro c hc
    obtain ⟨i, hi, rfl⟩ := List.mem_map.mp hc
    have hi := List.mem_range.mp hi
    rw [hlen, hdata]
    exact ⟨row_fits hi (le_refl _), row_fits (by omega) (le_refl _)⟩
  obtain ⟨data, hout, hsize⟩ := copyRegions_isSome hfits
  have hap : ((List.range m).map fun i : Nat =>
      (⟨i * pitch, (i + r * m) * pitch, pitch⟩ : Region)).Pairwise
        fun c e => e.Apart c.dst c.len := by
    rw [List.pairwise_map]
    refine List.pairwise_lt_range.imp fun {i j} hij => Or.inl ?_
    have hzero : 0 + pitch ≤ pitch := by omega
    have hrow := row_lt (b := 0) hij hzero
    rwa [Nat.add_zero, Nat.add_zero] at hrow
  refine ⟨data, ?_, ?_⟩
  · rw [hcopy, memcpyRows, hout]
    rfl
  · have hrows : ∀ i ∈ List.range m, slice data (0 + i * pitch) pitch =
        slice whole.data (r * (m * pitch) + i * pitch) pitch := by
      intro i hi
      have hrow := slice_copyRegions hap hout ⟨i * pitch, (i + r * m) * pitch, pitch⟩
        (List.mem_map.mpr ⟨i, hi, rfl⟩)
      have hsrc : (i + r * m) * pitch = r * (m * pitch) + i * pitch := by ring
      rw [Nat.zero_add, ← hsrc]
      exact hrow
    calc data = slice data 0 (m * pitch) := by rw [← hlen, ← hsize, slice_all]
      _ = (List.range m).flatMap fun i => slice data (0 + i * pitch) pitch :=
        (flatMap_slice _ _ _ _).symm
      _ = _ := flatMap_congr hrows
      _ = slice whole.data (r * (m * pitch)) (m * pitch) := flatMap_slice _ _ _ _

/-- The splitter of HSPLIT. -/
def horizontalSplitter : WeightSplitter :=
  ⟨HorizontalSplit.isSplittable, HorizontalSplit.setShape, HorizontalSplit.copyWeight⟩

/-- The rows of the ranks follow one another in the whole matrix. -/
theorem hSplit_matrix {h w : Nat} {whole : AsTensor} (hranks : 0 < ranks)
    (hs : info.shape = (Plane.matrix h w).shape)
    (hp : (Plane.matrix h w).Sized (sizeofType info.dtype))
    (hdvd : ranks ∣ h) (hshape : whole.shape = (Plane.matrix h w).shape)
    (hdtype : whole.dtype = info.dtype)
    (hdata : whole.data.length = h * (w * sizeofType info.dtype))
    (garbage : Nat → Nat → UInt8) :
    ∃ parts : Nat → List UInt8,
      (∀ r < ranks, horizontalSplitter.shard ⟨r, ranks⟩ info whole (garbage r) =
        .ok ⟨(Plane.matrix (h / ranks) w).shape, info.dtype, parts r⟩) ∧
      (∀ r < ranks, (parts r).length = h / ranks * (w * sizeofType info.dtype)) ∧
      (List.range ranks).flatMap parts = whole.data := by
  obtain ⟨hh, hw, hb⟩ := hp
  simp only [Plane.height, Plane.width] at hh hw hb
  obtain ⟨m, rfl⟩ := hdvd
  have hm : ranks * m / ranks = m := Nat.mul_div_cancel_left m hranks
  have hmle : m ≤ ranks * m := Nat.le_mul_of_pos_left m hranks
  rw [← hdtype] at hdata hb ⊢
  have hsetShape : ∀ r, HorizontalSplit.setShape ⟨r, ranks⟩ info =
      .ok (Plane.matrix m w).shape := by
    intro r
    simp only [HorizontalSplit.setShape, hs, Plane.shape, Plane.length_shapeOf_matrix, setDim]
    rw [dim_first_matrix hs, quot_natCast, hm]
    rfl
  generalize hsize : m * (w * sizeofType whole.dtype) = size
  have htotal : ranks * size = whole.data.length := by
    rw [hdata, ← hsize, Nat.mul_assoc]
  refine ⟨fun r => slice whole.data (0 + r * size) size, fun r hr => ?_, fun r hr => ?_, ?_⟩
  · have halloc := (Plane.matrix m w).length_allocate w whole.dtype (garbage r)
    obtain ⟨data, hcopy, hslice⟩ := copyRows_matrix (w := w) hr hshape
      (rfl : (AsTensor.allocate (Plane.matrix m w).shape whole.dtype (garbage r)).shape = _)
      rfl hh hw halloc hdata hb
    have hcount : ¬ count whole.shape <
        count (AsTensor.allocate (Plane.matrix m w).shape whole.dtype (garbage r)).shape := by
      have hmul : m * w ≤ ranks * m * w := Nat.mul_le_mul_right _ hmle
      rw [hshape, AsTensor.allocate, Plane.shape, Plane.shape, Plane.count_shapeOf,
        Plane.count_shapeOf]
      simp only [Plane.height, Plane.width]
      omega
    have hcols : (AsTensor.allocate (Plane.matrix m w).shape whole.dtype (garbage r)).shape.getD 1 0 =
        (w : Int) := rfl
    have hrows : (AsTensor.allocate (Plane.matrix m w).shape whole.dtype (garbage r)).shape.getD 0 0 =
        (m : Int) := rfl
    have hlen : info.shape.length = 2 := by
      rw [hs]
      rfl
    simp only [WeightSplitter.shard, horizontalSplitter, hsetShape, ok_bind,
      HorizontalSplit.copyWeight, hlen, deepCopyMatrix2D]
    rw [dim_first_matrix hs, rank_rows hh hr ⟨m, rfl⟩, hm, ← hdtype, if_neg hcount, hcols, hrows,
      sizeT_natCast (by omega), sizeT_natCast (by omega), Nat.zero_add, ← hsize, ← hslice]
    exact hcopy
  · have hrow : r * size + size ≤ whole.data.length := by
      calc r * size + size = (r + 1) * size := (Nat.succ_mul r size).symm
        _ ≤ ranks * size := Nat.mul_le_mul_right _ hr
        _ = whole.data.length := htotal
    rw [length_slice _ _ _ (by omega), hm, hsize]
  · rw [flatMap_slice, htotal, slice_all]

/-- The first rank holds the bias, the others hold zeros. -/
theorem hSplit_vector {w : Nat} {whole : AsTensor}
    (hs : info.shape = (Plane.vector w).shape)
    (hp : (Plane.vector w).Sized (sizeofType info.dtype))
    (hshape : whole.shape = (Plane.vector w).shape) (hdtype : whole.dtype = info.dtype)
    (hdata : whole.data.length = w * sizeofType info.dtype)
    (garbage : Nat → Nat → UInt8) :
    ∃ parts : Nat → List UInt8,
      (∀ r < ranks, horizontalSplitter.shard ⟨r, ranks⟩ info whole (garbage r) =
        .ok ⟨(Plane.vector w).shape, info.dtype, parts r⟩) ∧
      parts 0 = whole.data ∧
      ∀ r, 0 < r → parts r = List.replicate whole.data.length 0 := by
  have hw := hp.width_lt
  rw [← hdtype] at hp hdata ⊢
  have hsetShape : ∀ r, HorizontalSplit.setShape ⟨r, ranks⟩ info =
      .ok (Plane.vector w).shape := by
    intro r
    simp only [HorizontalSplit.setShape, hs, Plane.shape, Plane.length_shapeOf_vector]
  have halloc : ∀ r, (AsTensor.allocate (Plane.vector w).shape whole.dtype
      (garbage r)).data.length = w * sizeofType whole.dtype := fun r => by
    rw [Plane.shape, Plane.length_allocate]
    exact Nat.one_mul _
  have hlen : info.shape.length = 1 := by
    rw [hs]
    rfl
  refine ⟨fun r => if r = 0 then whole.data else List.replicate whole.data.length 0,
    fun r _ => ?_, rfl, fun r hr => if_neg (by omega)⟩
  simp only [WeightSplitter.shard, horizontalSplitter, hsetShape, ok_bind,
    HorizontalSplit.copyWeight, hlen]
  rw [← hdtype]
  split
  case isTrue hr =>
      have hcopy := Plane.copiesColumns hp hshape (le_refl _)
        (AsTensor.allocate (Plane.vector w).shape whole.dtype (garbage r)) 0 0 w rfl rfl
        (by simp [Plane.width]) (by simp [Plane.width])
      have hrows : Extent.rows ⟨(Plane.vector w).height, (Plane.vector w).width,
          (Plane.vector w).width, sizeofType whole.dtype⟩ 0 0 w =
            [⟨0, 0, w * sizeofType whole.dtype⟩] := by
        simp [Extent.rows, Plane.height]
      rw [hrows, memcpyRows, copyRegions_cons,
        Region.copy_all hdata ((halloc r).trans rfl)] at hcopy
      rw [deepCopyVector_eq rfl hshape hw (le_refl _)]
      exact hcopy
  case isFalse hr =>
      rw [memset, halloc, hdata]
      rfl

end DashInfer.Weight

/-!
What the splitters accept, and that the parts of an accepted tensor reassemble
when no group has a negative width.
-/

namespace DashInfer.Weight

open DashInfer.Lib

/-- The one- and two-dimensional modes. -/
def SplitMode.Planar : SplitMode → Prop
  | .vSplit | .hSplit | .qkvSplit | .kvSplit | .groupVSplit | .mqaVSplit => True
  | _ => False

/-- The strips a vertical mode divides the columns into, in elements. -/
def SplitMode.strips (mode : SplitMode) (ranks : Nat) (info : TensorInfo) (p : Plane) :
    List Strip :=
  match mode with
  | .vSplit => [⟨p.width / ranks, false⟩]
  | .qkvSplit => List.replicate 3 ⟨p.width / (3 * ranks), false⟩
  | .kvSplit => List.replicate 2 ⟨p.width / (2 * ranks), false⟩
  | .groupVSplit => (info.groupList.map Int.toNat).map (groupStrip ranks)
  | .mqaVSplit =>
      mqaStrips ranks (info.groupList.getD 0 0).toNat (info.groupList.getD 1 0).toNat
        (info.groupList.getD 2 0).toNat
  | _ => []

/-- What the parts of a mode are to the whole tensor: rows that follow one
another, a bias on the first rank and zeros elsewhere, or columns that join
strip by strip. -/
def SplitMode.Covers (mode : SplitMode) (ranks : Nat) (info : TensorInfo) (p : Plane)
    (whole : List UInt8) (parts : Nat → List UInt8) : Prop :=
  match mode, p with
  | .hSplit, .matrix h w =>
      (∀ r < ranks, (parts r).length = h / ranks * (w * sizeofType info.dtype)) ∧
        (List.range ranks).flatMap parts = whole
  | .hSplit, .vector _ =>
      parts 0 = whole ∧ ∀ r, 0 < r → r < ranks → parts r = List.replicate whole.length 0
  | mode, p => Joins ranks p.height (sizeofType info.dtype) (mode.strips ranks info p) whole parts

/-- The shape of the part of one rank. -/
def SplitMode.partShape (mode : SplitMode) (ranks : Nat) (info : TensorInfo) (p : Plane) :
    List Int :=
  match mode, p with
  | .hSplit, .matrix h w => (Plane.matrix (h / ranks) w).shape
  | .hSplit, .vector w => (Plane.vector w).shape
  | mode, p => p.shapeOf (shardPitch (mode.strips ranks info p))

/-- Every rank receives its part, and the parts cover the whole tensor. -/
def Reassembles (mode : SplitMode) (splitter : WeightSplitter) (ranks : Nat) (info : TensorInfo)
    (p : Plane) (whole : AsTensor) (garbage : Nat → Nat → UInt8) : Prop :=
  ∃ parts : Nat → List UInt8,
    (∀ r < ranks, splitter.shard ⟨r, ranks⟩ info whole (garbage r) =
      .ok ⟨mode.partShape ranks info p, info.dtype, parts r⟩) ∧
    mode.Covers ranks info p whole.data parts

/-- No group has a negative width, in the modes that read the groups. -/
def SplitMode.ProperGroups (mode : SplitMode) (info : TensorInfo) : Prop :=
  mode = .groupVSplit ∨ mode = .mqaVSplit → ∀ g ∈ info.groupList, 0 ≤ g

section Accepted

variable {ranks : Nat} {info : TensorInfo} {p : Plane} {rank : RankInfo}

theorem dvd_of_rem {a b : Nat} (h : rem (a : Int) (b : Int) = 0) : b ∣ a := by
  rw [rem_natCast] at h
  exact Nat.dvd_of_mod_eq_zero (by exact_mod_cast h)

theorem ok_decide {q : Prop} [Decidable q]
    (h : (Except.ok (decide q) : Except Fault Bool) = .ok true) : q :=
  of_decide_eq_true (Except.ok.inj h)

theorem accepted_vSplit (hs : info.shape = p.shape)
    (h : VerticalSplit.isSplittable rank info = .ok true) : rank.rankSize ∣ p.width := by
  cases p with
  | matrix m w =>
      simp only [VerticalSplit.isSplittable, hs, Plane.shape, Plane.length_shapeOf_matrix] at h
      rw [dim_last_matrix hs] at h
      exact dvd_of_rem (ok_decide h)
  | vector w =>
      simp only [VerticalSplit.isSplittable, hs, Plane.shape, Plane.length_shapeOf_vector] at h
      rw [dim_vector hs] at h
      exact dvd_of_rem (ok_decide h)

theorem accepted_hSplit (hs : info.shape = p.shape)
    (h : HorizontalSplit.isSplittable rank info = .ok true) :
    (rank.rankSize : Int) ∣ dim info 0 := by
  cases p with
  | matrix m w =>
      simp only [HorizontalSplit.isSplittable, hs, Plane.shape,
        Plane.length_shapeOf_matrix] at h
      exact Int.dvd_of_tmod_eq_zero (ok_decide h)
  | vector w =>
      simp only [HorizontalSplit.isSplittable, hs, Plane.shape,
        Plane.length_shapeOf_vector] at h
      exact Int.dvd_of_tmod_eq_zero (ok_decide h)

theorem accepted_batchGemm {cnt : Nat} (hs : info.shape = p.shape)
    (h : VSplitBatchGEMM.isSplittable cnt rank info = .ok true) :
    cnt * rank.rankSize ∣ p.width := by
  cases p with
  | matrix m w =>
      simp only [VSplitBatchGEMM.isSplittable, hs, Plane.shape,
        Plane.length_shapeOf_matrix] at h
      obtain ⟨parts, hparts, h⟩ := bind_eq_ok h
      obtain ⟨rfl, -⟩ := cint_eq_ok hparts
      rw [dim_last_matrix hs, ← Nat.cast_mul] at h
      exact dvd_of_rem (ok_decide h)
  | vector w =>
      simp only [VSplitBatchGEMM.isSplittable, hs, Plane.shape,
        Plane.length_shapeOf_vector] at h
      obtain ⟨parts, hparts, h⟩ := bind_eq_ok h
      obtain ⟨rfl, -⟩ := cint_eq_ok hparts
      rw [dim_vector hs, ← Nat.cast_mul, Nat.mul_comm] at h
      exact dvd_of_rem (ok_decide h)

theorem foldlM_total {gs : List Int} {a t : Int}
    (h : gs.foldlM (fun total g => cint (total + g)) a = .ok t) : t = a + gs.sum := by
  induction gs generalizing a with
  | nil =>
      obtain rfl := Except.ok.inj h
      simp
  | cons g rest ih =>
      obtain ⟨b, hb, hrest⟩ := bind_eq_ok h
      obtain ⟨rfl, -⟩ := cint_eq_ok hb
      rw [ih hrest, List.sum_cons, Int.add_assoc]

theorem totalLen_eq {gs : List Int} {t : Int} (h : totalLen gs = .ok t) : t = gs.sum := by
  rw [foldlM_total h, Int.zero_add]

/-- What GROUP_VSPLIT accepts. -/
theorem accepted_groupVSplit (hs : info.shape = p.shape)
    (h : VSplitGroupList.isSplittable rank info = .ok true) :
    (∀ g ∈ info.groupList, rem g rank.rankSize = 0) ∧ ∃ t, totalLen info.groupList = .ok t ∧
      t = p.width := by
  rw [VSplitGroupList.isSplittable] at h
  split at h
  case isTrue => cases h
  case isFalse hany =>
      refine ⟨fun g hg => ?_, ?_⟩
      · by_contra hne
        exact hany (List.any_eq_true.mpr ⟨g, hg, decide_eq_true hne⟩)
      · obtain ⟨t, ht, h⟩ := bind_eq_ok h
        refine ⟨t, ht, ?_⟩
        cases p with
        | matrix m w =>
            simp only [hs, Plane.shape, Plane.length_shapeOf_matrix] at h
            rw [dim_last_matrix hs] at h
            exact (ok_decide h).2.symm
        | vector w =>
            simp only [hs, Plane.shape, Plane.length_shapeOf_vector] at h
            rw [dim_vector hs] at h
            exact (ok_decide h).2.symm

/-- What MQA_VSPLIT accepts. -/
theorem accepted_mqaVSplit (hs : info.shape = p.shape)
    (h : VSplitMQA.isSplittable rank info = .ok true) :
    ∃ q k v, info.groupList = [q, k, v] ∧ rem q rank.rankSize = 0 ∧
      totalLen [q, k, v] = .ok (p.width : Int) := by
  rw [VSplitMQA.isSplittable] at h
  split at h
  case isTrue => cases h
  case isFalse hlen =>
      split at h
      case isTrue => cases h
      case isFalse hrem =>
          obtain ⟨q, k, v, hgs⟩ := List.length_eq_three.mp (not_not.mp hlen)
          rw [hgs] at hrem h
          refine ⟨q, k, v, hgs, not_not.mp hrem, ?_⟩
          obtain ⟨t, ht, h⟩ := bind_eq_ok h
          cases p with
          | matrix m w =>
              simp only [hs, Plane.shape, Plane.length_shapeOf_matrix] at h
              rw [dim_last_matrix hs] at h
              rw [ht, ← ok_decide h]
              rfl
          | vector w =>
              simp only [hs, Plane.shape, Plane.length_shapeOf_vector] at h
              rw [dim_vector hs] at h
              rw [ht, ← ok_decide h]
              rfl

theorem map_toNat_cast {gs : List Int} (h : ∀ g ∈ gs, 0 ≤ g) :
    gs = (gs.map Int.toNat).map Nat.cast := by
  rw [List.map_map]
  refine (List.map_id gs).symm.trans (List.map_congr_left fun g hg => ?_)
  exact (Int.toNat_of_nonneg (h g hg)).symm

end Accepted

section Reassembly

variable {ranks : Nat} {info : TensorInfo} {p : Plane} {whole : AsTensor}
  {garbage : Nat → Nat → UInt8}

/-- The tensor a weight file holds for this header, in memory. -/
structure IsWhole (info : TensorInfo) (p : Plane) (whole : AsTensor) : Prop where
  shape : whole.shape = p.shape
  dtype : whole.dtype = info.dtype
  data : whole.data.length = p.height * (p.width * sizeofType info.dtype)

/-- A mode that divides columns reassembles by its strips. -/
theorem Divides.reassembles {mode : SplitMode} {splitter : WeightSplitter}
    (h : Divides splitter ranks info p (mode.strips ranks info p)) (hmode : mode ≠ .hSplit)
    (hranks : 0 < ranks) (hp : p.Sized (sizeofType info.dtype)) (hwhole : IsWhole info p whole) :
    Reassembles mode splitter ranks info p whole garbage := by
  obtain ⟨parts, hshard, hjoins⟩ :=
    h.joins hranks hp hwhole.shape hwhole.dtype hwhole.data garbage
  refine ⟨parts, ?_, ?_⟩
  · rw [SplitMode.partShape]
    · exact hshard
    · rintro - - rfl
      exact absurd rfl hmode
    · rintro - rfl
      exact absurd rfl hmode
  · rw [SplitMode.Covers]
    · exact hjoins
    · rintro - - rfl
      exact absurd rfl hmode
    · rintro - rfl
      exact absurd rfl hmode

/-- The strips of an accepted tensor without negative groups, in a mode that
divides columns. -/
theorem divides_of_properGroups {place : Placement} {mode : SplitMode}
    {splitter : WeightSplitter} (hmode : mode.Planar) (hne : mode ≠ .hSplit)
    (hget : getSplitterByMode place mode = .ok splitter) (hranks : 0 < ranks)
    (hs : info.shape = p.shape) (hp : p.Sized (sizeofType info.dtype))
    (hacc : splitter.isSplittable ⟨0, ranks⟩ info = .ok true)
    (hproper : mode.ProperGroups info) :
    Divides splitter ranks info p (mode.strips ranks info p) := by
  have hw := hp.width_lt
  cases mode with
  | vSplit =>
      obtain rfl := Except.ok.inj hget
      exact divides_vSplit hs hp (accepted_vSplit hs hacc)
  | hSplit => exact absurd rfl hne
  | qkvSplit =>
      obtain rfl := Except.ok.inj hget
      exact divides_batchGemm hs hp (by decide) hranks (accepted_batchGemm hs hacc)
  | kvSplit =>
      obtain rfl := Except.ok.inj hget
      exact divides_batchGemm hs hp (by decide) hranks (accepted_batchGemm hs hacc)
  | groupVSplit =>
      obtain rfl := Except.ok.inj hget
      obtain ⟨hrem, t, ht, htw⟩ := accepted_groupVSplit hs hacc
      have hgs := map_toNat_cast (hproper (Or.inl rfl))
      have hdvd : ∀ g ∈ info.groupList.map Int.toNat, ranks ∣ g := by
        intro g hg
        obtain ⟨x, hx, rfl⟩ := List.mem_map.mp hg
        have hx0 := hproper (Or.inl rfl) x hx
        have hxrem := hrem x hx
        rw [← Int.toNat_of_nonneg hx0] at hxrem
        exact dvd_of_rem hxrem
      have hsum : (info.groupList.map Int.toNat).sum = p.width := by
        have hcast : ((info.groupList.map Int.toNat).sum : Int) = (p.width : Int) := by
          rw [← htw, totalLen_eq ht, Nat.cast_list_sum, ← hgs]
        exact_mod_cast hcast
      exact divides_groupVSplit hs hp hranks hgs hdvd hsum
  | mqaVSplit =>
      obtain rfl := Except.ok.inj hget
      obtain ⟨q, k, v, hgs, hrem, ht⟩ := accepted_mqaVSplit hs hacc
      have hnonneg := hproper (Or.inr rfl)
      rw [hgs] at hnonneg
      obtain ⟨a, rfl⟩ := Int.eq_ofNat_of_zero_le (hnonneg q (by simp))
      obtain ⟨b, rfl⟩ := Int.eq_ofNat_of_zero_le (hnonneg k (by simp))
      obtain ⟨c, rfl⟩ := Int.eq_ofNat_of_zero_le (hnonneg v (by simp))
      have hsum : a + b + c = p.width := by
        have htotal := totalLen_eq ht
        simp only [List.sum_cons, List.sum_nil] at htotal
        omega
      rw [SplitMode.strips, hgs]
      exact divides_mqaVSplit hs hp hgs (dvd_of_rem hrem) hsum
  | noSplit => exact absurd hmode id
  | hSplitQuantize => exact absurd hmode id
  | batchVSplit => exact absurd hmode id
  | batchHSplit => exact absurd hmode id
  | batchKVSplit => exact absurd hmode id

/-- Every accepted tensor without negative groups reassembles. -/
theorem reassembles_of_properGroups {place : Placement} {mode : SplitMode}
    {splitter : WeightSplitter} (hmode : mode.Planar)
    (hget : getSplitterByMode place mode = .ok splitter) (hranks : 0 < ranks)
    (hs : info.shape = p.shape) (hp : p.Sized (sizeofType info.dtype))
    (hacc : splitter.isSplittable ⟨0, ranks⟩ info = .ok true) (hwhole : IsWhole info p whole)
    (hproper : mode.ProperGroups info) :
    Reassembles mode splitter ranks info p whole garbage := by
  by_cases hne : mode = .hSplit
  case neg =>
    have hdivides := divides_of_properGroups hmode hne hget hranks hs hp hacc hproper
    exact hdivides.reassembles hne hranks hp hwhole
  case pos =>
    subst hne
    obtain rfl := Except.ok.inj hget
    have hdvd := accepted_hSplit hs hacc
    obtain ⟨hshape, hdtype, hdata⟩ := hwhole
    cases p with
    | matrix h w =>
        rw [dim_first_matrix hs] at hdvd
        obtain ⟨parts, hshard, hlen, hjoin⟩ := hSplit_matrix hranks hs hp
          (Int.natCast_dvd_natCast.mp hdvd) hshape hdtype hdata garbage
        exact ⟨parts, hshard, hlen, hjoin⟩
    | vector w =>
        have hlen := hdata.trans (Nat.one_mul _)
        obtain ⟨parts, hshard, hfirst, hrest⟩ := @hSplit_vector ranks info w whole hs hp hshape
          hdtype hlen garbage
        exact ⟨parts, hshard, hfirst, fun r hr _ => hrest r hr⟩

end Reassembly

end DashInfer.Weight
