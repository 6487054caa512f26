import DashInfer.Weight.Plane

/-!
The strips each vertical mode divides a tensor into.
-/

namespace DashInfer.Weight

open DashInfer.Lib

variable {ranks : Nat} {info : TensorInfo} {p : Plane}

theorem deepCopyMatrix2D_eq {dst whole : AsTensor} {h dw w s : Nat}
    (hdst : dst.shape = (Plane.matrix h w).shapeOf dw)
    (hwhole : whole.shape = (Plane.matrix h w).shape) (hh : h < 2 ^ 31) (hw : w < 2 ^ 31)
    (hle : dw ≤ w) :
    deepCopyMatrix2D dst whole s 0 = deepCopyMatrix2DPart dst 0 0 whole s 0 dw h := by
  have hcount : ¬ count whole.shape < count dst.shape := by
    rw [hdst, hwhole, Plane.shape, Plane.count_shapeOf, Plane.count_shapeOf]
    have hmul : h * dw ≤ h * w := Nat.mul_le_mul_left _ hle
    simp only [Plane.height, Plane.width]
    omega
  rw [deepCopyMatrix2D, if_neg hcount, hdst]
  simp only [Plane.shapeOf, List.getD_cons_zero, List.getD_cons_succ]
  rw [sizeT_natCast (by omega), sizeT_natCast (by omega)]

theorem deepCopyVector_eq {dst whole : AsTensor} {dw w s : Nat}
    (hdst : dst.shape = (Plane.vector w).shapeOf dw)
    (hwhole : whole.shape = (Plane.vector w).shape) (hw : w < 2 ^ 31) (hle : dw ≤ w) :
    deepCopyVector dst whole s = deepCopyVectorPart dst 0 whole s dw := by
  have hcount : ¬ count whole.shape < count dst.shape := by
    rw [hdst, hwhole, Plane.shape, Plane.count_shapeOf, Plane.count_shapeOf]
    simp only [Plane.height, Plane.width]
    omega
  rw [deepCopyVector, if_neg hcount, hdst]
  simp only [Plane.shapeOf, List.getD_cons_zero]
  rw [sizeT_natCast (by omega)]

theorem dim_last_matrix {h w : Nat} (hs : info.shape = (Plane.matrix h w).shape) :
    dim info 1 = w := by
  rw [dim, hs]
  rfl

theorem dim_first_matrix {h w : Nat} (hs : info.shape = (Plane.matrix h w).shape) :
    dim info 0 = h := by
  rw [dim, hs]
  rfl

theorem dim_vector {w : Nat} (hs : info.shape = (Plane.vector w).shape) :
    dim info 0 = w := by
  rw [dim, hs]
  rfl

/-- The columns one rank starts at, in the types of the source. -/
theorem rank_offset {w r : Nat} (hw : w < 2 ^ 31) (hr : r < ranks) :
    sizeT (narrow (quot (w : Int) ranks * r)) = r * (w / ranks) := by
  have hle : r * (w / ranks) ≤ w := by
    calc r * (w / ranks) ≤ ranks * (w / ranks) := Nat.mul_le_mul_right _ hr.le
      _ ≤ w := Nat.mul_div_le w ranks
  have hcast : quot (w : Int) ranks * r = ((r * (w / ranks) : Nat) : Int) := by
    rw [quot_natCast, Nat.cast_mul, mul_comm]
  rw [hcast, narrow_natCast (by omega), sizeT_natCast (by omega)]

theorem setShape_vertical (hs : info.shape = p.shape) (rank : RankInfo) :
    VerticalSplit.setShape rank info = .ok (p.shapeOf (p.width / rank.rankSize)) := by
  cases p with
  | matrix h w =>
      simp only [VerticalSplit.setShape, setDim, hs, Plane.shape, Plane.length_shapeOf_matrix]
      rw [dim_last_matrix hs]
      rfl
  | vector w =>
      simp only [VerticalSplit.setShape, setDim, hs, Plane.shape, Plane.length_shapeOf_vector]
      rw [dim_vector hs]
      rfl

/-- VSPLIT has one strip. -/
theorem divides_vSplit (hs : info.shape = p.shape) {size : Nat} (hp : p.Sized size)
    (hdvd : ranks ∣ p.width) :
    Divides ⟨VerticalSplit.isSplittable, VerticalSplit.setShape, VerticalSplit.copyWeight⟩
      ranks info p [⟨p.width / ranks, false⟩] := by
  obtain ⟨hh, hw, -⟩ := hp
  refine ⟨?_, fun r _ => setShape_vertical hs _, fun r hr dst whole hdst hwhole hdtype => ?_⟩
  · simp [Strip.whole, Nat.mul_div_cancel' hdvd]
  · have hcall : callAll (p.copy whole) dst (stripCalls ranks r 0 0 [⟨p.width / ranks, false⟩]) =
        p.copy whole dst 0 (0 + r * (p.width / ranks)) (p.width / ranks) := by
      rw [stripCalls, callAll, List.foldlM_cons]
      simp only [stripCalls, List.foldlM_nil, Strip.start, Bool.false_eq_true, if_false]
      exact bind_pure _
    have hpitch : shardPitch [⟨p.width / ranks, false⟩] = p.width / ranks := by simp
    rw [hpitch] at hdst
    rw [hcall, Nat.zero_add]
    cases p with
    | matrix h w =>
        simp only [Plane.height, Plane.width] at hh hw hdst ⊢
        simp only [VerticalSplit.copyWeight, hs, Plane.shape, Plane.length_shapeOf_matrix]
        rw [dim_last_matrix hs, rank_offset hw hr,
          deepCopyMatrix2D_eq hdst hwhole hh hw (Nat.div_le_self _ _)]
        rfl
    | vector w =>
        simp only [Plane.width] at hw hdst ⊢
        simp only [VerticalSplit.copyWeight, hs, Plane.shape, Plane.length_shapeOf_vector]
        rw [dim_vector hs, rank_offset hw hr,
          deepCopyVector_eq hdst hwhole hw (Nat.div_le_self _ _)]
        rfl

theorem sizeT_quot {a b : Nat} (h : a < 2 ^ 31) : sizeT (quot (a : Int) (b : Int)) = a / b := by
  have hle := Nat.div_le_self a b
  rw [quot_natCast, sizeT_natCast (by omega)]

theorem stripCalls_replicate (r d s m : Nat) (t : Strip) :
    stripCalls ranks r d s (List.replicate m t) =
      (List.range m).map fun i =>
        (d + i * t.width, s + i * t.whole ranks + t.start r, t.width) := by
  induction m generalizing d s with
  | zero => rfl
  | succ m ih =>
      rw [List.replicate_succ, stripCalls, ih, List.range_succ_eq_map, List.map_cons, List.map_map]
      simp only [Nat.zero_mul, Nat.add_zero]
      congr 1
      refine List.map_congr_left fun i _ => ?_
      simp only [Function.comp_apply, Nat.succ_mul, Prod.mk.injEq, and_true]
      omega

theorem foldlM_congr {α β : Type} {f g : α → β → Except Fault α} {l : List β}
    (h : ∀ b ∈ l, ∀ a, f a b = g a b) (a : α) : l.foldlM f a = l.foldlM g a := by
  induction l generalizing a with
  | nil => rfl
  | cons b rest ih =>
      rw [List.foldlM_cons, List.foldlM_cons, h b (List.mem_cons_self ..)]
      exact bind_congr fun c => ih (fun d hd => h d (List.mem_cons_of_mem _ hd)) c

/-- The stacked modes have one strip for each stacked matrix. -/
theorem divides_batchGemm {cnt : Nat} (hs : info.shape = p.shape) {size : Nat} (hp : p.Sized size)
    (hcnt : 0 < cnt) (hranks : 0 < ranks) (hdvd : cnt * ranks ∣ p.width) :
    Divides ⟨VSplitBatchGEMM.isSplittable cnt, VSplitBatchGEMM.setShape,
        VSplitBatchGEMM.copyWeight cnt⟩
      ranks info p (List.replicate cnt ⟨p.width / (cnt * ranks), false⟩) := by
  obtain ⟨hh, hw, -⟩ := hp
  obtain ⟨k, hk⟩ := hdvd
  have hpart : p.width / (cnt * ranks) = k := by
    rw [hk, Nat.mul_div_cancel_left k (Nat.mul_pos hcnt hranks)]
  have hsub : p.width / cnt = ranks * k := by
    rw [hk, Nat.mul_assoc, Nat.mul_div_cancel_left _ hcnt]
  have hrank : p.width / ranks = cnt * k := by
    rw [hk, Nat.mul_comm cnt ranks, Nat.mul_assoc, Nat.mul_div_cancel_left _ hranks]
  have hcopyLen : p.width / ranks / cnt = k := by
    rw [hrank, Nat.mul_div_cancel_left _ hcnt]
  have hdiv : ranks * k / ranks = k := Nat.mul_div_cancel_left k hranks
  have hkw : ranks * k ≤ p.width := hsub ▸ Nat.div_le_self _ _
  have hkr : k ≤ ranks * k := Nat.le_mul_of_pos_left k hranks
  have hstack : ∀ {i}, i < cnt → i * (ranks * k) + ranks * k ≤ p.width := fun {i} hi => by
    calc i * (ranks * k) + ranks * k = (i + 1) * (ranks * k) := (Nat.succ_mul _ _).symm
      _ ≤ cnt * (ranks * k) := Nat.mul_le_mul_right _ hi
      _ = p.width := by rw [hk, Nat.mul_assoc]
  rw [hpart]
  refine ⟨?_, fun r _ => ?_, fun r hr dst whole hdst hwhole hdtype => ?_⟩
  · rw [hk, wholePitch, List.map_replicate, List.sum_replicate, smul_eq_mul]
    simp [Strip.whole, Nat.mul_assoc]
  · rw [shardPitch, List.map_replicate, List.sum_replicate, smul_eq_mul, ← hrank]
    exact setShape_vertical hs _
  · have hrk : r * k + k ≤ ranks * k := by
      calc r * k + k = (r + 1) * k := (Nat.succ_mul _ _).symm
        _ ≤ ranks * k := Nat.mul_le_mul_right _ hr
    rw [stripCalls_replicate, callAll, List.foldlM_map]
    simp only [Nat.zero_add, Strip.whole, Strip.start, Bool.false_eq_true, if_false]
    cases p with
    | matrix h w =>
        simp only [Plane.height, Plane.width] at hh hw hsub hkw hstack
        simp only [VSplitBatchGEMM.copyWeight, hs, Plane.shape, Plane.length_shapeOf_matrix]
        rw [dim_last_matrix hs, dim_first_matrix hs, quot_natCast, hsub, narrow_natCast (by omega),
          narrow_natCast hh, sizeT_natCast (by omega)]
        refine foldlM_congr (fun i hi dst => ?_) dst
        have hi := hstack (List.mem_range.mp hi)
        have hbase : ((i : Int) * ((ranks * k : Nat) : Int)) = ((i * (ranks * k) : Nat) : Int) :=
          (Nat.cast_mul _ _).symm
        have hdst : i * (ranks * k) / ranks = i * k := by
          rw [Nat.mul_left_comm, Nat.mul_div_cancel_left _ hranks]
        have hkcomm : k * r = r * k := Nat.mul_comm k r
        simp only [VSplitBatchGEMM.copySubGemm]
        rw [hbase, cint_natCast (by omega), ok_bind, sizeT_quot (by omega), sizeT_quot (by omega),
          hdiv, hdst, sizeT_natCast (by omega), sizeT_mul (by omega), sizeT_add (by omega), hkcomm]
        rfl
    | vector w =>
        simp only [Plane.width] at hw hsub hkw hstack hcopyLen
        simp only [VSplitBatchGEMM.copyWeight, hs, Plane.shape, Plane.length_shapeOf_vector]
        rw [dim_vector hs, quot_natCast, quot_natCast, quot_natCast, hsub, hcopyLen,
          narrow_natCast (by omega), narrow_natCast (by omega)]
        refine foldlM_congr (fun i hi dst => ?_) dst
        have hi := hstack (List.mem_range.mp hi)
        have hik : i * k ≤ i * (ranks * k) := Nat.mul_le_mul_left _ hkr
        have hbase : (((ranks * k : Nat) : Int) * (i : Int)) = ((i * (ranks * k) : Nat) : Int) := by
          rw [Nat.cast_mul i, mul_comm]
        have hpart : quot ((ranks * k : Nat) : Int) (ranks : Int) * (r : Int) =
            ((r * k : Nat) : Int) := by
          rw [quot_natCast, hdiv, Nat.cast_mul, mul_comm]
        have hsrc : ((i * (ranks * k) : Nat) : Int) + ((r * k : Nat) : Int) =
            ((i * (ranks * k) + r * k : Nat) : Int) := (Nat.cast_add _ _).symm
        have hdst : ((i : Int) * quot ((ranks * k : Nat) : Int) (ranks : Int)) =
            ((i * k : Nat) : Int) := by
          rw [quot_natCast, hdiv, Nat.cast_mul]
        simp only [VSplitBatchGEMM.copySubVec]
        rw [hbase, cint_natCast (by omega), ok_bind, hpart, cint_natCast (by omega), ok_bind, hsrc,
          cint_natCast (by omega), ok_bind, hdst, cint_natCast (by omega), ok_bind,
          sizeT_natCast (by omega), sizeT_natCast (by omega), sizeT_natCast (by omega)]
        rfl

/-- The part of one group that each rank holds. -/
def groupStrip (ranks g : Nat) : Strip := ⟨g / ranks, false⟩

theorem wholePitch_groups {gs : List Nat} (hdvd : ∀ g ∈ gs, ranks ∣ g) :
    wholePitch ranks (gs.map (groupStrip ranks)) = gs.sum := by
  induction gs with
  | nil => rfl
  | cons g rest ih =>
      rw [List.map_cons, wholePitch_cons, ih fun g hg => hdvd g (List.mem_cons_of_mem _ hg),
        List.sum_cons]
      congr 1
      exact Nat.mul_div_cancel' (hdvd g (List.mem_cons_self ..))

theorem shardPitch_groups {gs : List Nat} (hranks : 0 < ranks) (hdvd : ∀ g ∈ gs, ranks ∣ g) :
    shardPitch (gs.map (groupStrip ranks)) = gs.sum / ranks := by
  induction gs with
  | nil => simp
  | cons g rest ih =>
      obtain ⟨k, rfl⟩ := hdvd g (List.mem_cons_self ..)
      rw [List.map_cons, shardPitch_cons, ih fun g hg => hdvd g (List.mem_cons_of_mem _ hg),
        List.sum_cons, Nat.mul_add_div hranks, groupStrip, Nat.mul_div_cancel_left k hranks]

/-- The prefix sum after a group of natural width. -/
theorem narrow_prefix {a g : Nat} (h : a + g < 2 ^ 31) :
    narrow (sizeT ((a : Int) + (g : Int))) = ((a + g : Nat) : Int) := by
  rw [sizeT_add (by omega), narrow_natCast h]

section Groups

variable {whole : AsTensor} {r : Nat}

theorem copyGroup2D_natCast {h a g : Nat} {dst : AsTensor} (hr : r < ranks)
    (hsum : a + g < 2 ^ 31) :
    VSplitGroupList.copyGroup2D ⟨r, ranks⟩ whole h (dst, (a : Int)) (g : Int) =
      (deepCopyMatrix2DPart dst (a / ranks) 0 whole (a + r * (g / ranks)) 0 (g / ranks) h).map
        fun dst => (dst, ((a + g : Nat) : Int)) := by
  have hpart : r * (g / ranks) ≤ g :=
    (Nat.mul_le_mul_right _ hr.le).trans (Nat.mul_div_le g ranks)
  have hcomm : g / ranks * r = r * (g / ranks) := Nat.mul_comm _ _
  simp only [VSplitGroupList.copyGroup2D]
  rw [sizeT_natCast (by omega), sizeT_quot (by omega), sizeT_natCast (by omega),
    sizeT_mul (by omega), sizeT_add (by omega), narrow_prefix hsum, hcomm]
  rfl

theorem copyGroup1D_natCast {a g : Nat} {dst : AsTensor} (hr : r < ranks)
    (hsum : a + g < 2 ^ 31) :
    VSplitGroupList.copyGroup1D ⟨r, ranks⟩ whole (dst, (a : Int)) (g : Int) =
      (deepCopyVectorPart dst (a / ranks) whole (a + r * (g / ranks)) (g / ranks)).map
        fun dst => (dst, ((a + g : Nat) : Int)) := by
  have hpart : r * (g / ranks) ≤ g :=
    (Nat.mul_le_mul_right _ hr.le).trans (Nat.mul_div_le g ranks)
  have hdiv := Nat.div_le_self g ranks
  have hcomm : g / ranks * r = r * (g / ranks) := Nat.mul_comm _ _
  simp only [VSplitGroupList.copyGroup1D]
  rw [sizeT_natCast (by omega), sizeT_quot (by omega), narrow_natCast (by omega),
    sizeT_natCast (by omega), sizeT_mul (by omega), sizeT_add (by omega), narrow_prefix hsum,
    hcomm]
  rfl

/-- A pass over the groups makes the calls of their strips. -/
theorem foldlM_groups {copy : AsTensor → Nat → Nat → Nat → Except Fault AsTensor}
    {step : AsTensor × Int → Int → Except Fault (AsTensor × Int)} {gs : List Nat}
    (hranks : 0 < ranks) (hdvd : ∀ g ∈ gs, ranks ∣ g)
    (hstep : ∀ dst a g, a + g < 2 ^ 31 → step (dst, ((a : Nat) : Int)) ((g : Nat) : Int) =
      (copy dst (a / ranks) (a + r * (g / ranks)) (g / ranks)).map
        fun dst => (dst, ((a + g : Nat) : Int)))
    (dst : AsTensor) {a : Nat} (ha : ranks ∣ a) (hsum : a + gs.sum < 2 ^ 31) :
    ((gs.map Nat.cast).foldlM step (dst, (a : Int)) >>= fun state => pure state.1) =
      callAll copy dst (stripCalls ranks r (a / ranks) a (gs.map (groupStrip ranks))) := by
  induction gs generalizing dst a with
  | nil => rfl
  | cons g rest ih =>
      obtain ⟨k, rfl⟩ := hdvd g (List.mem_cons_self ..)
      obtain ⟨j, rfl⟩ := ha
      rw [List.sum_cons] at hsum
      rw [List.map_cons, List.map_cons, List.foldlM_cons, hstep _ _ _ (by omega), stripCalls,
        callAll, List.foldlM_cons]
      simp only [groupStrip, Strip.start, Strip.whole, Bool.false_eq_true, if_false]
      cases copy dst (ranks * j / ranks) (ranks * j + r * (ranks * k / ranks))
          (ranks * k / ranks) with
      | error e => rfl
      | ok mid =>
          have hnext := ih (fun g hg => hdvd g (List.mem_cons_of_mem _ hg)) mid
            (Dvd.intro (j + k) (Nat.mul_add ranks j k)) (by omega)
          have hdiv : (ranks * j + ranks * k) / ranks = ranks * j / ranks + ranks * k / ranks := by
            rw [Nat.mul_add_div hranks, Nat.mul_div_cancel_left j hranks]
          rw [hdiv] at hnext
          rw [Nat.mul_div_cancel' (Dvd.intro k rfl)]
          exact hnext

/-- GROUP_VSPLIT has one strip for each group. -/
theorem divides_groupVSplit (hs : info.shape = p.shape) {size : Nat} (hp : p.Sized size)
    (hranks : 0 < ranks) {gs : List Nat} (hgs : info.groupList = gs.map Nat.cast)
    (hdvd : ∀ g ∈ gs, ranks ∣ g) (hsum : gs.sum = p.width) :
    Divides ⟨VSplitGroupList.isSplittable, VSplitGroupList.setShape, VSplitGroupList.copyWeight⟩
      ranks info p (gs.map (groupStrip ranks)) := by
  obtain ⟨hh, hw, -⟩ := hp
  refine ⟨(wholePitch_groups hdvd).trans hsum, fun r _ => ?_,
    fun r hr dst whole hdst hwhole hdtype => ?_⟩
  · rw [shardPitch_groups hranks hdvd, hsum]
    exact setShape_vertical hs _
  · have hzero : 0 / ranks = 0 := Nat.zero_div _
    cases p with
    | matrix h w =>
        simp only [Plane.height, Plane.width] at hh hw hsum
        have hstep : ∀ dst a g, a + g < 2 ^ 31 →
            VSplitGroupList.copyGroup2D ⟨r, ranks⟩ whole h (dst, ((a : Nat) : Int))
              ((g : Nat) : Int) =
              ((Plane.matrix h w).copy whole dst (a / ranks) (a + r * (g / ranks))
                (g / ranks)).map fun dst => (dst, ((a + g : Nat) : Int)) :=
          fun dst a g hag => copyGroup2D_natCast hr hag
        have hfold := foldlM_groups hranks hdvd hstep dst (dvd_zero ranks) (by omega)
        simp only [VSplitGroupList.copyWeight, hs, Plane.shape, Plane.length_shapeOf_matrix]
        rw [dim_first_matrix hs, narrow_natCast hh, sizeT_natCast (by omega), hgs]
        rw [hzero] at hfold
        exact hfold
    | vector w =>
        simp only [Plane.width] at hw hsum
        have hstep : ∀ dst a g, a + g < 2 ^ 31 →
            VSplitGroupList.copyGroup1D ⟨r, ranks⟩ whole (dst, ((a : Nat) : Int))
              ((g : Nat) : Int) =
              ((Plane.vector w).copy whole dst (a / ranks) (a + r * (g / ranks))
                (g / ranks)).map fun dst => (dst, ((a + g : Nat) : Int)) :=
          fun dst a g hag => copyGroup1D_natCast hr hag
        have hfold := foldlM_groups hranks hdvd hstep dst (dvd_zero ranks) (by omega)
        simp only [VSplitGroupList.copyWeight, hs, Plane.shape, Plane.length_shapeOf_vector]
        rw [hgs]
        rw [hzero] at hfold
        exact hfold

end Groups

/-- The parts of the three MQA groups: the queries are divided, keys and
values are shared. -/
def mqaStrips (ranks q k v : Nat) : List Strip :=
  [⟨q / ranks, false⟩, ⟨k, true⟩, ⟨v, true⟩]

section Mqa

variable {r : Nat} {copy : AsTensor → Nat → Nat → Nat → Except Fault AsTensor}

theorem copyGroup_divided {dst : AsTensor} {g : Nat} (hr : r < ranks) (hg : g < 2 ^ 31) :
    VSplitMQA.copyGroup ⟨r, ranks⟩ copy ⟨dst, 0, 0⟩ (0, (g : Int)) =
      (copy dst 0 (r * (g / ranks)) (g / ranks)).map fun dst => ⟨dst, g, (g / ranks : Nat)⟩ := by
  have hpart : r * (g / ranks) ≤ g :=
    (Nat.mul_le_mul_right _ hr.le).trans (Nat.mul_div_le g ranks)
  have hdiv := Nat.div_le_self g ranks
  have hcomm : g / ranks * r = r * (g / ranks) := Nat.mul_comm _ _
  have hzero : sizeT 0 = 0 := rfl
  simp only [VSplitMQA.copyGroup, if_true, zero_add, hzero]
  rw [sizeT_quot hg, sizeT_mul (by omega), sizeT_natCast (by omega), cint_natCast hg,
    sizeT_natCast (by omega), narrow_natCast (by omega), hcomm]
  cases copy dst 0 (r * (g / ranks)) (g / ranks) <;> rfl

theorem copyGroup_shared {dst : AsTensor} {i a b g : Nat} (ha : a + g < 2 ^ 31)
    (hb : b + g < 2 ^ 31) :
    VSplitMQA.copyGroup ⟨r, ranks⟩ copy ⟨dst, a, b⟩ (i + 1, (g : Int)) =
      (copy dst b a g).map fun dst => ⟨dst, (a + g : Nat), (b + g : Nat)⟩ := by
  have hsrc : (a : Int) + (g : Int) = ((a + g : Nat) : Int) := (Nat.cast_add a g).symm
  simp only [VSplitMQA.copyGroup, Nat.succ_ne_zero, if_false]
  rw [sizeT_natCast (by omega), sizeT_natCast (by omega), sizeT_natCast (by omega), hsrc,
    cint_natCast ha, narrow_prefix hb]
  cases copy dst b a g <;> rfl

/-- The three steps make the calls of the three strips. -/
theorem foldlM_mqa {q k v : Nat} (dst : AsTensor) (hr : r < ranks) (hdvd : ranks ∣ q)
    (hsum : q + k + v < 2 ^ 31) :
    ((VSplitMQA.indexed [(q : Int), (k : Int), (v : Int)]).foldlM
        (VSplitMQA.copyGroup ⟨r, ranks⟩ copy) ⟨dst, 0, 0⟩ >>= fun p => pure p.dst) =
      callAll copy dst (stripCalls ranks r 0 0 (mqaStrips ranks q k v)) := by
  have hdiv := Nat.div_le_self q ranks
  have hindexed : VSplitMQA.indexed [(q : Int), (k : Int), (v : Int)] =
      [(0, (q : Int)), (0 + 1, (k : Int)), (1 + 1, (v : Int))] := rfl
  simp only [hindexed, mqaStrips, stripCalls, callAll, List.foldlM_cons, List.foldlM_nil,
    Strip.start, Strip.whole, if_true, Bool.false_eq_true, if_false, Nat.zero_add, Nat.add_zero]
  rw [copyGroup_divided hr (by omega), Nat.mul_div_cancel' hdvd]
  cases copy dst 0 (r * (q / ranks)) (q / ranks) with
  | error e => rfl
  | ok mid =>
      rw [Except.map, ok_bind, ok_bind, copyGroup_shared (by omega) (by omega)]
      cases copy mid (q / ranks) q k with
      | error e => rfl
      | ok last =>
          rw [Except.map, ok_bind, ok_bind, copyGroup_shared (by omega) (by omega)]
          cases copy last (q / ranks + k) (q + k) v <;> rfl

theorem shardWidth_mqa {q k v : Nat} (hs : info.groupList = [(q : Int), (k : Int), (v : Int)])
    (hsum : q + k + v < 2 ^ 31) :
    VSplitMQA.shardWidth ⟨r, ranks⟩ info = .ok ((q / ranks + k + v : Nat) : Int) := by
  have hdiv := Nat.div_le_self q ranks
  have hkeys : quot (q : Int) (ranks : Int) + (k : Int) = ((q / ranks + k : Nat) : Int) := by
    rw [quot_natCast, Nat.cast_add]
  have hvalues : ((q / ranks + k : Nat) : Int) + (v : Int) = ((q / ranks + k + v : Nat) : Int) :=
    (Nat.cast_add _ _).symm
  simp only [VSplitMQA.shardWidth, hs, List.getD_cons_zero, List.getD_cons_succ]
  rw [hkeys, cint_natCast (by omega), ok_bind, hvalues, cint_natCast (by omega)]

/-- MQA_VSPLIT has one divided and two shared strips. -/
theorem divides_mqaVSplit (hs : info.shape = p.shape) {size : Nat} (hp : p.Sized size)
    {q k v : Nat} (hgs : info.groupList = [(q : Int), (k : Int), (v : Int)])
    (hdvd : ranks ∣ q) (hsum : q + k + v = p.width) :
    Divides ⟨VSplitMQA.isSplittable, VSplitMQA.setShape, VSplitMQA.copyWeight⟩
      ranks info p (mqaStrips ranks q k v) := by
  obtain ⟨hh, hw, -⟩ := hp
  have hdiv := Nat.div_le_self q ranks
  have hpitch : shardPitch (mqaStrips ranks q k v) = q / ranks + k + v := by
    simp [mqaStrips, Nat.add_assoc]
  have hwidth : ∀ r, VSplitMQA.shardWidth ⟨r, ranks⟩ info =
      .ok ((q / ranks + k + v : Nat) : Int) := fun r => shardWidth_mqa hgs (by omega)
  refine ⟨?_, fun r _ => ?_, fun r hr dst whole hdst hwhole hdtype => ?_⟩
  · rw [← hsum]
    simp [mqaStrips, Strip.whole, Nat.mul_div_cancel' hdvd, Nat.add_assoc]
  · rw [hpitch]
    cases p with
    | matrix h w =>
        simp only [VSplitMQA.setShape, hwidth, hs, Plane.shape, Plane.length_shapeOf_matrix]
        rw [Except.map, setDim, hs]
        rfl
    | vector w =>
        simp only [VSplitMQA.setShape, hwidth, hs, Plane.shape, Plane.length_shapeOf_vector]
        rw [Except.map, setDim, hs]
        rfl
  · cases p with
    | matrix h w =>
        simp only [Plane.height, Plane.width] at hh hw hsum
        simp only [VSplitMQA.copyWeight, hs, Plane.shape, Plane.length_shapeOf_matrix]
        rw [dim_first_matrix hs, narrow_natCast hh, sizeT_natCast (by omega), hgs]
        exact foldlM_mqa dst hr hdvd (by omega)
    | vector w =>
        simp only [Plane.width] at hw hsum
        simp only [VSplitMQA.copyWeight, hs, Plane.shape, Plane.length_shapeOf_vector]
        rw [hgs, foldlM_mqa dst hr hdvd (by omega)]
        simp only [mqaStrips, stripCalls, callAll, List.foldlM_cons, List.foldlM_nil]
        rw [narrow_natCast (by omega), narrow_natCast (by omega), narrow_natCast (by omega),
          sizeT_natCast (by omega), sizeT_natCast (by omega), sizeT_natCast (by omega)]
        rfl

end Mqa

end DashInfer.Weight
