import DashInfer.Weight.BatchRows

/-!
What the batched splitters accept and when the parts they write, on any of the
copy paths, reassemble to the stacked weight.
-/

namespace DashInfer.Weight

open DashInfer.Lib

inductive BatchMode
  | vSplit
  | kvSplit
  | hSplit
deriving DecidableEq, Repr

namespace BatchMode

def splitMode : BatchMode → SplitMode
  | .vSplit => .batchVSplit
  | .kvSplit => .batchKVSplit
  | .hSplit => .batchHSplit

def splitter (place : Placement) : BatchMode → WeightSplitter
  | .vSplit =>
      ⟨BatchVerticalSplit.isSplittable, BatchVerticalSplit.setShape,
        BatchVerticalSplit.copyWeight place⟩
  | .kvSplit =>
      ⟨BatchKVerticalSplit.isSplittable, BatchKVerticalSplit.setShape,
        BatchKVerticalSplit.copyWeight place⟩
  | .hSplit =>
      ⟨BatchHorizontalSplit.isSplittable, BatchHorizontalSplit.setShape,
        BatchHorizontalSplit.copyWeight place⟩

/-- The splitter is the one the factory picks. -/
theorem getSplitterByMode_splitMode (place : Placement) (mode : BatchMode) :
    getSplitterByMode place mode.splitMode = .ok (mode.splitter place) := by
  cases mode <;> rfl

/-- The tensors a mode is for: only the vertical ones divide scales. -/
def Takes : BatchMode → Stack → Prop
  | .hSplit, .scales _ _ => False
  | _, _ => True

/-- The split dimension divides evenly. -/
def Even : BatchMode → Nat → Stack → Prop
  | .vSplit, ranks, s => ranks ∣ s.width
  | .kvSplit, ranks, s => 2 * ranks ∣ s.width
  | .hSplit, ranks, s => ranks ∣ s.height

/-- What the strips are the columns of: rows, or experts. -/
def height : BatchMode → Stack → Nat
  | .hSplit, s => s.batch
  | _, s => s.rows

def strips : BatchMode → Nat → Stack → List Strip
  | .vSplit, ranks, s => [⟨s.width / ranks, false⟩]
  | .kvSplit, ranks, s => List.replicate 2 ⟨s.width / (2 * ranks), false⟩
  | .hSplit, ranks, s => [⟨s.height / ranks * s.width, false⟩]

def partShape : BatchMode → Nat → Stack → List Int
  | .hSplit, ranks, s => (Stack.experts s.batch (s.height / ranks) s.width).shape
  | _, ranks, s => s.shapeOf (s.width / ranks)

end BatchMode

/-- The tensor in memory of a stacked weight. -/
structure IsStack (info : TensorInfo) (s : Stack) (whole : AsTensor) : Prop where
  shape : whole.shape = s.shape
  dtype : whole.dtype = info.dtype
  data : whole.data.length = s.rows * (s.width * sizeofType info.dtype)

/-- Exactly the evenly divided tensors are accepted, and every rank's part is
the same on all paths, whatever its memory held, and joins to the whole. -/
structure BatchReassembles (mode : BatchMode) (ranks : Nat) (info : TensorInfo) (s : Stack)
    (paths : Placement → Prop) : Prop where
  accepts : ∀ place, paths place → ∀ r < ranks,
    ((mode.splitter place).isSplittable ⟨r, ranks⟩ info = .ok true ↔ mode.Even ranks s)
  joins : mode.Even ranks s → ∀ whole, IsStack info s whole → ∃ parts : Nat → List UInt8,
    (∀ place, paths place → ∀ r < ranks, ∀ garbage,
      (mode.splitter place).shard ⟨r, ranks⟩ info whole garbage =
        .ok ⟨mode.partShape ranks s, info.dtype, parts r⟩) ∧
    Joins ranks (mode.height s) (sizeofType info.dtype) (mode.strips ranks s) whole.data parts

/-- When a mode does so. A matrix of scales is never accepted by the vertical
mode; the mode of keys and values accepts half a column and, on the host,
copies too much of a row; all of them index the elements by an `int`. -/
def BatchMode.Sound (mode : BatchMode) (ranks : Nat) (info : TensorInfo) (s : Stack)
    (paths : Placement → Prop) : Prop :=
  match mode, s with
  | .vSplit, .scales _ w => ¬ ranks ∣ w
  | .vSplit, s => ranks ∣ s.width → s.IndexFits 1
  | .kvSplit, s => ranks ∣ s.width →
      2 * ranks ∣ s.width ∧ s.IndexFits 2 ∧
        ((∃ place, paths place ∧ place.OnHost) →
          s.rows * (s.width * sizeofType info.dtype) = 0)
  | .hSplit, s => ranks ∣ s.height → s.IndexFits 1

section Parts

variable {ranks r : Nat} {info : TensorInfo} {s : Stack} {whole : AsTensor}
  {paths : Placement → Prop}

/-- Parts that are filled on every path are the same ones, and join. -/
theorem exists_parts {splitter : Placement → WeightSplitter} {l : List Strip} {height : Nat}
    {shape : List Int} (hranks : 0 < ranks) (hpaths : ∃ place, paths place)
    (hwhole : whole.data.length = height * (wholePitch ranks l * sizeofType info.dtype))
    (h : ∀ place, paths place → ∀ r < ranks, ∀ garbage, ∃ data,
      (splitter place).shard ⟨r, ranks⟩ info whole garbage = .ok ⟨shape, info.dtype, data⟩ ∧
      data.length = height * (shardPitch l * sizeofType info.dtype) ∧
      Filled whole.data data
        (stripRegions ⟨height, shardPitch (l.map (scale (sizeofType info.dtype))),
          wholePitch ranks (l.map (scale (sizeofType info.dtype)))⟩ ranks r 0 0
          (l.map (scale (sizeofType info.dtype))))) :
    ∃ parts : Nat → List UInt8,
      (∀ place, paths place → ∀ r < ranks, ∀ garbage,
        (splitter place).shard ⟨r, ranks⟩ info whole garbage = .ok ⟨shape, info.dtype, parts r⟩) ∧
      Joins ranks height (sizeofType info.dtype) l whole.data parts := by
  obtain ⟨place, hplace⟩ := hpaths
  have hpart : ∀ r, ∃ data, r < ranks →
      data.length = height * (shardPitch l * sizeofType info.dtype) ∧
      Filled whole.data data
        (stripRegions ⟨height, shardPitch (l.map (scale (sizeofType info.dtype))),
          wholePitch ranks (l.map (scale (sizeofType info.dtype)))⟩ ranks r 0 0
          (l.map (scale (sizeofType info.dtype)))) := by
    intro r
    by_cases hr : r < ranks
    case neg => exact ⟨[], fun hr' => absurd hr' hr⟩
    obtain ⟨data, -, hlen, hfilled⟩ := h place hplace r hr fun _ => 0
    exact ⟨data, fun _ => ⟨hlen, hfilled⟩⟩
  choose parts hparts using hpart
  refine ⟨parts, ?_, fun r hr => (hparts r hr).1, ?_, ?_⟩
  · intro other hother r hr garbage
    obtain ⟨data, hshard, hlen, hfilled⟩ := h other hother r hr garbage
    obtain ⟨hlen', hfilled'⟩ := hparts r hr
    rw [← shardPitch_scale] at hlen hlen'
    rw [hshard, hfilled.unique hfilled' hlen hlen']
  · refine joinStrips_filled hranks ?_ fun r hr => (hparts r hr).2
    rw [wholePitch_scale, hwhole]
  · intro i hi
    have hagree := @sharedAgree_filled _ _ _ _ _ _ 0 0 i hi fun r hr => (hparts r hr).2
    rw [shardPitch_scale, Nat.add_zero] at hagree
    exact hagree

theorem shard_eq_ok {splitter : WeightSplitter} {rank : RankInfo} {shape : List Int}
    {garbage : Nat → UInt8} {out : AsTensor}
    (hset : splitter.setShape rank info = .ok shape)
    (h : splitter.shard rank info whole garbage = .ok out) :
    splitter.copyWeight rank info (AsTensor.allocate shape info.dtype garbage) whole = .ok out := by
  rw [WeightSplitter.shard, hset, ok_bind] at h
  exact h

/-- The part of a rank under a mode that divides the columns. -/
theorem exists_columnsPart {splitter : WeightSplitter} {place : Placement} {cnt k : Nat}
    {garbage : Nat → UInt8} (hs : s.Sized (sizeofType info.dtype)) (hfits : s.IndexFits cnt)
    (hlen : place.OnHost → cnt = 1 ∨ s.rows * (s.width * sizeofType info.dtype) = 0)
    (hw : s.width = cnt * (ranks * k)) (hcnt : 0 < cnt) (hr : r < ranks)
    (hwhole : IsStack info s whole)
    (hset : splitter.setShape ⟨r, ranks⟩ info = .ok (s.shapeOf (cnt * k)))
    (hcopy : ∀ dst, splitter.copyWeight ⟨r, ranks⟩ info dst whole =
      BatchColumns.copy place ⟨r, ranks⟩ whole dst s.batch (s.height : Int) (s.width : Int) cnt) :
    ∃ data, splitter.shard ⟨r, ranks⟩ info whole garbage =
        .ok ⟨s.shapeOf (cnt * k), info.dtype, data⟩ ∧
      data.length = s.rows * (shardPitch (List.replicate cnt ⟨k, false⟩) *
        sizeofType info.dtype) ∧
      Filled whole.data data
        (stripRegions ⟨s.rows,
            shardPitch ((List.replicate cnt ⟨k, false⟩).map (scale (sizeofType info.dtype))),
            wholePitch ranks ((List.replicate cnt ⟨k, false⟩).map
              (scale (sizeofType info.dtype)))⟩
          ranks r 0 0 ((List.replicate cnt ⟨k, false⟩).map (scale (sizeofType info.dtype)))) := by
  have hpitch : shardPitch (List.replicate cnt ⟨k, false⟩) = cnt * k := by
    rw [shardPitch, List.map_replicate, List.sum_replicate, smul_eq_mul]
  have hdata := hwhole.data
  rw [← hwhole.dtype] at hs hlen hdata
  have halloc := s.length_allocate (cnt * k) whole.dtype garbage
  obtain ⟨data, hdone, hsize, hfilled⟩ := @exists_batchColumns s cnt ranks r k whole place hs hfits
    hlen hw hcnt hr hwhole.shape hdata
    (AsTensor.allocate (s.shapeOf (cnt * k)) whole.dtype garbage) rfl rfl halloc
  rw [← hwhole.dtype, List.map_replicate, hpitch]
  refine ⟨data, ?_, hsize.trans halloc, hfilled⟩
  rw [WeightSplitter.shard, hset, ok_bind, hcopy, ← hwhole.dtype, hdone]
  rfl

end Parts

section Calls

variable {ranks r : Nat} {info : TensorInfo} {s : Stack} {dst whole : AsTensor}
  {place : Placement}

theorem setShape_columns (hshape : info.shape = s.shape) :
    BatchVerticalSplit.setShape ⟨r, ranks⟩ info = .ok (s.shapeOf (s.width / ranks)) := by
  cases s with
  | experts b h w => simp [BatchVerticalSplit.setShape, setDim, dim, hshape, Stack.shape,
      Stack.shapeOf, Stack.width, quot_natCast]
  | scales b w => simp [BatchVerticalSplit.setShape, setDim, dim, hshape, Stack.shape,
      Stack.shapeOf, Stack.width, quot_natCast]

theorem copyWeight_vSplit (hshape : info.shape = s.shape) (hs : s.Sized (sizeofType info.dtype)) :
    BatchVerticalSplit.copyWeight place ⟨r, ranks⟩ info dst whole =
      BatchColumns.copy place ⟨r, ranks⟩ whole dst s.batch (s.height : Int) (s.width : Int) 1 := by
  obtain ⟨hb, hh, -, -⟩ := hs
  have hbatch : sizeT (s.batch : Int) = s.batch := sizeT_natCast (by omega)
  cases s with
  | experts b h w =>
      simp only [Stack.batch, Stack.height] at hb hh hbatch
      simp [BatchVerticalSplit.copyWeight, dim, hshape, Stack.shape, Stack.shapeOf, Stack.width,
        Stack.batch, Stack.height, narrow_natCast hb, narrow_natCast hh, hbatch]
  | scales b w =>
      simp only [Stack.batch, Stack.height] at hb hbatch
      simp [BatchVerticalSplit.copyWeight, dim, hshape, Stack.shape, Stack.shapeOf, Stack.width,
        Stack.batch, Stack.height, narrow_natCast hb, hbatch]

theorem copyWeight_kvSplit (hshape : info.shape = s.shape) (hs : s.Sized (sizeofType info.dtype)) :
    BatchKVerticalSplit.copyWeight place ⟨r, ranks⟩ info dst whole =
      BatchColumns.copy place ⟨r, ranks⟩ whole dst s.batch (s.height : Int) (s.width : Int) 2 := by
  obtain ⟨hb, hh, -, -⟩ := hs
  have hbatch : sizeT (s.batch : Int) = s.batch := sizeT_natCast (by omega)
  cases s with
  | experts b h w =>
      simp only [Stack.batch, Stack.height] at hb hh hbatch
      simp [BatchKVerticalSplit.copyWeight, dim, hshape, Stack.shape, Stack.shapeOf, Stack.width,
        Stack.batch, Stack.height, narrow_natCast hb, narrow_natCast hh, hbatch]
  | scales b w =>
      simp only [Stack.batch, Stack.height] at hb hbatch
      simp [BatchKVerticalSplit.copyWeight, dim, hshape, Stack.shape, Stack.shapeOf, Stack.width,
        Stack.batch, Stack.height, narrow_natCast hb, hbatch]

theorem copyWeight_hSplit {b h w : Nat} (hshape : info.shape = (Stack.experts b h w).shape)
    (hs : (Stack.experts b h w).Sized (sizeofType info.dtype)) :
    BatchHorizontalSplit.copyWeight place ⟨r, ranks⟩ info dst whole =
      (List.range b).foldlM
        (BatchHorizontalSplit.copySubGemm place ⟨r, ranks⟩ whole (w : Int) (h : Int)) dst := by
  obtain ⟨hb, hh, hw, -⟩ := hs
  simp only [Stack.batch, Stack.height, Stack.width] at hb hh hw
  have hbatch : sizeT (b : Int) = b := sizeT_natCast (by omega)
  simp [BatchHorizontalSplit.copyWeight, dim, hshape, Stack.shape, Stack.shapeOf, Stack.width,
    narrow_natCast hb, narrow_natCast hh, narrow_natCast hw, hbatch]

theorem ok_decide_iff {q : Prop} [Decidable q] :
    (Except.ok (decide q) : Except Fault Bool) = .ok true ↔ q :=
  ⟨ok_decide, fun h => congrArg Except.ok (decide_eq_true h)⟩

theorem rem_eq_zero_iff {a b : Nat} : rem (a : Int) (b : Int) = 0 ↔ b ∣ a :=
  ⟨dvd_of_rem, fun h => by rw [rem_natCast, Nat.mod_eq_zero_of_dvd h]; rfl⟩

theorem isSplittable_vSplit_experts {b h w : Nat} (rank : RankInfo)
    (hshape : info.shape = (Stack.experts b h w).shape) :
    BatchVerticalSplit.isSplittable rank info = .ok true ↔ rank.rankSize ∣ w := by
  simp only [BatchVerticalSplit.isSplittable, hshape, Stack.shape, Stack.shapeOf, dim]
  exact ok_decide_iff.trans rem_eq_zero_iff

theorem isSplittable_vSplit_scales {b w : Nat} (rank : RankInfo)
    (hshape : info.shape = (Stack.scales b w).shape) :
    BatchVerticalSplit.isSplittable rank info = .ok false := by
  simp only [BatchVerticalSplit.isSplittable, hshape, Stack.shape, Stack.shapeOf]
  rfl

theorem isSplittable_kvSplit (rank : RankInfo) (hshape : info.shape = s.shape) :
    BatchKVerticalSplit.isSplittable rank info = .ok true ↔ rank.rankSize ∣ s.width := by
  cases s with
  | experts b h w =>
      simp only [BatchKVerticalSplit.isSplittable, hshape, Stack.shape, Stack.shapeOf, dim]
      exact ok_decide_iff.trans rem_eq_zero_iff
  | scales b w =>
      simp only [BatchKVerticalSplit.isSplittable, hshape, Stack.shape, Stack.shapeOf, dim]
      exact ok_decide_iff.trans rem_eq_zero_iff

theorem isSplittable_hSplit {b h w : Nat} (rank : RankInfo)
    (hshape : info.shape = (Stack.experts b h w).shape) :
    BatchHorizontalSplit.isSplittable rank info = .ok true ↔ rank.rankSize ∣ h := by
  simp only [BatchHorizontalSplit.isSplittable, hshape, Stack.shape, Stack.shapeOf, dim]
  exact ok_decide_iff.trans rem_eq_zero_iff

theorem setShape_hSplit {b h w : Nat} (hshape : info.shape = (Stack.experts b h w).shape) :
    BatchHorizontalSplit.setShape ⟨r, ranks⟩ info =
      .ok (Stack.experts b (h / ranks) w).shape := by
  simp [BatchHorizontalSplit.setShape, setDim, dim, hshape, Stack.shape, Stack.shapeOf,
    Stack.width, quot_natCast]

end Calls

section Claim

variable {ranks : Nat} {info : TensorInfo} {s : Stack} {paths : Placement → Prop}

/-- A stacked weight of zeros. -/
def zeroStack (info : TensorInfo) (s : Stack) : AsTensor :=
  ⟨s.shape, info.dtype, List.replicate (s.rows * (s.width * sizeofType info.dtype)) 0⟩

theorem isStack_zeroStack : IsStack info s (zeroStack info s) :=
  ⟨rfl, rfl, List.length_replicate⟩

/-- What a part that was written says of the indices and the copied width. -/
theorem indexFits_of_shard {splitter : WeightSplitter} {place : Placement} {whole out : AsTensor}
    {r cnt k : Nat} {garbage : Nat → UInt8} (hs : s.Sized (sizeofType info.dtype))
    (hw : s.width = cnt * (ranks * k)) (hcnt : 0 < cnt) (hr : r < ranks)
    (hwhole : IsStack info s whole)
    (hset : splitter.setShape ⟨r, ranks⟩ info = .ok (s.shapeOf (cnt * k)))
    (hcopy : ∀ dst, splitter.copyWeight ⟨r, ranks⟩ info dst whole =
      BatchColumns.copy place ⟨r, ranks⟩ whole dst s.batch (s.height : Int) (s.width : Int) cnt)
    (h : splitter.shard ⟨r, ranks⟩ info whole garbage = .ok out) :
    s.IndexFits cnt ∧
      (place.OnHost → cnt = 1 ∨ s.rows * (s.width * sizeofType info.dtype) = 0) := by
  have hdone := shard_eq_ok hset h
  rw [hcopy] at hdone
  rw [← hwhole.dtype] at hs hdone ⊢
  exact @indexFits_of_copy s cnt ranks r k whole
    (AsTensor.allocate (s.shapeOf (cnt * k)) whole.dtype garbage) place hs hw hcnt hr hwhole.shape
    rfl rfl (s.length_allocate (cnt * k) whole.dtype garbage) out hdone

/-- A mode that divides columns reassembles where its copies fit. -/
theorem columns_join {splitter : Placement → WeightSplitter} {cnt k : Nat}
    (hs : s.Sized (sizeofType info.dtype)) (hfits : s.IndexFits cnt)
    (hlen : (∃ place, paths place ∧ place.OnHost) →
      cnt = 1 ∨ s.rows * (s.width * sizeofType info.dtype) = 0)
    (hw : s.width = cnt * (ranks * k)) (hcnt : 0 < cnt) (hranks : 0 < ranks)
    (hpaths : ∃ place, paths place)
    (hset : ∀ place r, (splitter place).setShape ⟨r, ranks⟩ info = .ok (s.shapeOf (cnt * k)))
    (hcopy : ∀ place r dst whole, (splitter place).copyWeight ⟨r, ranks⟩ info dst whole =
      BatchColumns.copy place ⟨r, ranks⟩ whole dst s.batch (s.height : Int) (s.width : Int) cnt)
    {whole : AsTensor} (hwhole : IsStack info s whole) :
    ∃ parts : Nat → List UInt8,
      (∀ place, paths place → ∀ r < ranks, ∀ garbage,
        (splitter place).shard ⟨r, ranks⟩ info whole garbage =
          .ok ⟨s.shapeOf (cnt * k), info.dtype, parts r⟩) ∧
      Joins ranks s.rows (sizeofType info.dtype) (List.replicate cnt ⟨k, false⟩) whole.data
        parts := by
  have hpitch : wholePitch ranks (List.replicate cnt ⟨k, false⟩) = s.width := by
    rw [wholePitch, List.map_replicate, List.sum_replicate, smul_eq_mul]
    exact hw.symm
  refine exists_parts hranks hpaths (by rw [hpitch]; exact hwhole.data) ?_
  intro place hplace r hr garbage
  exact exists_columnsPart hs hfits (fun hhost => hlen ⟨place, hplace, hhost⟩) hw hcnt hr hwhole
    (hset place r) fun dst => hcopy place r dst whole

/-- The columns of a part, of the `cnt` matrices side by side. -/
theorem width_div {cnt k : Nat} (hranks : 0 < ranks) (hw : s.width = cnt * (ranks * k)) :
    s.width / ranks = cnt * k := by
  rw [hw, Nat.mul_left_comm, Nat.mul_div_cancel_left _ hranks]

theorem vSplit_experts_iff {b h w : Nat} (hranks : 0 < ranks)
    (hshape : info.shape = (Stack.experts b h w).shape)
    (hs : (Stack.experts b h w).Sized (sizeofType info.dtype)) (hpaths : ∃ place, paths place) :
    BatchReassembles .vSplit ranks info (.experts b h w) paths ↔
      (ranks ∣ w → (Stack.experts b h w).IndexFits 1) := by
  have hwidth : ∀ {k}, w = ranks * k → (Stack.experts b h w).width = 1 * (ranks * k) :=
    fun hk => hk.trans (Nat.one_mul _).symm
  have hset : ∀ {k}, w = ranks * k → ∀ r, BatchVerticalSplit.setShape ⟨r, ranks⟩ info =
      .ok ((Stack.experts b h w).shapeOf (1 * k)) := fun {k} hk r => by
    rw [setShape_columns hshape, width_div hranks (hwidth hk)]
  constructor
  · rintro hre ⟨k, hk⟩
    obtain ⟨place, hplace⟩ := hpaths
    obtain ⟨parts, hparts, -⟩ := hre.joins ⟨k, hk⟩ _ isStack_zeroStack
    exact (indexFits_of_shard hs (hwidth hk) Nat.one_pos hranks isStack_zeroStack (hset hk 0)
      (fun _ => copyWeight_vSplit hshape hs) (hparts place hplace 0 hranks fun _ => 0)).1
  · intro hfits
    refine ⟨fun place _ r _ => isSplittable_vSplit_experts _ hshape, ?_⟩
    rintro ⟨k, hk⟩ whole hwhole
    have hstrips : BatchMode.strips .vSplit ranks (.experts b h w) =
        List.replicate 1 ⟨k, false⟩ := by
      rw [BatchMode.strips, width_div hranks (hwidth hk), Nat.one_mul]
      rfl
    have hpart : BatchMode.partShape .vSplit ranks (.experts b h w) =
        (Stack.experts b h w).shapeOf (1 * k) := by
      rw [← width_div hranks (hwidth hk)]
      rfl
    rw [hstrips, hpart]
    exact columns_join hs (hfits ⟨k, hk⟩) (fun _ => Or.inl rfl) (hwidth hk) Nat.one_pos hranks
      hpaths (fun _ => hset hk) (fun _ _ _ _ => copyWeight_vSplit hshape hs) hwhole

/-- The vertical mode refuses every matrix of scales. -/
theorem vSplit_scales_iff {b w : Nat} (hranks : 0 < ranks)
    (hshape : info.shape = (Stack.scales b w).shape) (hpaths : ∃ place, paths place) :
    BatchReassembles .vSplit ranks info (.scales b w) paths ↔ ¬ ranks ∣ w := by
  constructor
  · intro hre heven
    obtain ⟨place, hplace⟩ := hpaths
    have hacc := (hre.accepts place hplace 0 hranks).mpr heven
    simp only [BatchMode.splitter] at hacc
    rw [isSplittable_vSplit_scales _ hshape] at hacc
    cases hacc
  · intro hodd
    refine ⟨fun place _ r _ => ⟨fun hacc => ?_, fun heven => absurd heven hodd⟩,
      fun heven => absurd heven hodd⟩
    simp only [BatchMode.splitter] at hacc
    rw [isSplittable_vSplit_scales _ hshape] at hacc
    cases hacc

theorem kvSplit_iff (hranks : 0 < ranks) (hshape : info.shape = s.shape)
    (hs : s.Sized (sizeofType info.dtype)) (hpaths : ∃ place, paths place) :
    BatchReassembles .kvSplit ranks info s paths ↔ (ranks ∣ s.width →
      2 * ranks ∣ s.width ∧ s.IndexFits 2 ∧
        ((∃ place, paths place ∧ place.OnHost) →
          s.rows * (s.width * sizeofType info.dtype) = 0)) := by
  have hwidth : ∀ {k}, s.width = 2 * ranks * k → s.width = 2 * (ranks * k) :=
    fun hk => hk.trans (Nat.mul_assoc _ _ _)
  have hset : ∀ {k}, s.width = 2 * ranks * k → ∀ r,
      BatchKVerticalSplit.setShape ⟨r, ranks⟩ info = .ok (s.shapeOf (2 * k)) := fun {k} hk r => by
    rw [BatchKVerticalSplit.setShape, setShape_columns hshape, width_div hranks (hwidth hk)]
  constructor
  · intro hre hacc
    obtain ⟨place, hplace⟩ := hpaths
    obtain ⟨k, hk⟩ : BatchMode.Even .kvSplit ranks s :=
      (hre.accepts place hplace 0 hranks).mp ((isSplittable_kvSplit _ hshape).mpr hacc)
    obtain ⟨parts, hparts, -⟩ := hre.joins ⟨k, hk⟩ _ isStack_zeroStack
    have hneeds : ∀ place, paths place → s.IndexFits 2 ∧
        (place.OnHost → 2 = 1 ∨ s.rows * (s.width * sizeofType info.dtype) = 0) :=
      fun place hplace => indexFits_of_shard hs (hwidth hk) Nat.two_pos hranks isStack_zeroStack
        (hset hk 0) (fun _ => copyWeight_kvSplit hshape hs)
        (hparts place hplace 0 hranks fun _ => 0)
    refine ⟨⟨k, hk⟩, (hneeds place hplace).1, ?_⟩
    rintro ⟨host, hpath, hhost⟩
    exact ((hneeds host hpath).2 hhost).resolve_left (by decide)
  · intro hsound
    refine ⟨fun place _ r _ => ?_, ?_⟩
    · simp only [BatchMode.splitter]
      rw [isSplittable_kvSplit _ hshape]
      exact ⟨fun hacc => (hsound hacc).1, fun heven => Dvd.dvd.trans ⟨2, Nat.mul_comm _ _⟩ heven⟩
    · rintro ⟨k, hk⟩ whole hwhole
      obtain ⟨-, hfits, hhost⟩ := hsound ⟨2 * k, by rw [hk]; ring⟩
      have hdiv : s.width / (2 * ranks) = k := by
        rw [hk, Nat.mul_div_cancel_left _ (by omega)]
      have hstrips : BatchMode.strips .kvSplit ranks s = List.replicate 2 ⟨k, false⟩ := by
        rw [BatchMode.strips, hdiv]
      have hpart : BatchMode.partShape .kvSplit ranks s = s.shapeOf (2 * k) := by
        rw [← width_div hranks (hwidth hk)]
        rfl
      rw [hstrips, hpart]
      exact columns_join hs hfits (fun hex => Or.inr (hhost hex)) (hwidth hk) Nat.two_pos hranks
        hpaths (fun _ => hset hk) (fun _ _ _ _ => copyWeight_kvSplit hshape hs) hwhole

theorem hSplit_iff {b h w : Nat} (hranks : 0 < ranks)
    (hshape : info.shape = (Stack.experts b h w).shape)
    (hs : (Stack.experts b h w).Sized (sizeofType info.dtype)) (hpaths : ∃ place, paths place) :
    BatchReassembles .hSplit ranks info (.experts b h w) paths ↔
      (ranks ∣ h → (Stack.experts b h w).IndexFits 1) := by
  constructor
  · intro hre heven
    obtain ⟨place, hplace⟩ := hpaths
    obtain ⟨parts, hparts, -⟩ := hre.joins heven _ isStack_zeroStack
    have hdone := shard_eq_ok (setShape_hSplit hshape) (hparts place hplace 0 hranks fun _ => 0)
    simp only [BatchMode.splitter] at hdone
    rw [copyWeight_hSplit hshape hs] at hdone
    exact indexFits_of_rows hdone
  · intro hfits
    refine ⟨fun place _ r _ => isSplittable_hSplit _ hshape, ?_⟩
    rintro ⟨m, hm⟩ whole hwhole
    obtain rfl : h = ranks * m := hm
    have hdiv : ranks * m / ranks = m := Nat.mul_div_cancel_left m hranks
    have hfits := hfits ⟨m, rfl⟩
    simp only [BatchMode.strips, BatchMode.partShape, BatchMode.height, Stack.height, Stack.width,
      Stack.batch, hdiv]
    have hpitch : wholePitch ranks [⟨m * w, false⟩] = ranks * (m * w) := by
      simp [wholePitch, Strip.whole]
    have hshard : shardPitch [⟨m * w, false⟩] = m * w := by simp [shardPitch]
    have hlen := hwhole.data
    simp only [Stack.rows, Stack.batch, Stack.height, Stack.width] at hlen
    refine exists_parts hranks hpaths (by rw [hpitch, hlen]; ring) ?_
    intro place _ r hr garbage
    have halloc := (Stack.experts b m w).length_allocate w whole.dtype garbage
    rw [← hwhole.dtype] at hs hlen ⊢
    obtain ⟨data, hdone, hsize, hfilled⟩ := @exists_batchRows b ranks r m w whole place hs hfits hr
      hwhole.shape hlen (AsTensor.allocate (Stack.experts b m w).shape whole.dtype garbage) rfl rfl
      halloc
    refine ⟨data, ?_, ?_, ?_⟩
    · simp only [WeightSplitter.shard, BatchMode.splitter]
      rw [setShape_hSplit hshape, ok_bind, copyWeight_hSplit hshape (hwhole.dtype ▸ hs), hdiv,
        ← hwhole.dtype, hdone]
      rfl
    · rw [hsize, hshard]
      refine halloc.trans ?_
      simp only [Stack.rows, Stack.batch, Stack.height]
      ring
    · rw [shardPitch_scale, wholePitch_scale, hshard, hpitch, Nat.mul_assoc, Nat.mul_assoc,
        Nat.mul_assoc]
      simpa [scale, Nat.mul_assoc] using hfilled

/-- On a set of copy paths a batched mode accepts exactly what divides evenly
and reassembles it exactly when it is sound for the tensor. -/
theorem batchReassembles_iff {mode : BatchMode} (htakes : mode.Takes s) (hranks : 0 < ranks)
    (hshape : info.shape = s.shape) (hs : s.Sized (sizeofType info.dtype))
    (hpaths : ∃ place, paths place) :
    BatchReassembles mode ranks info s paths ↔ mode.Sound ranks info s paths := by
  cases mode with
  | vSplit =>
      cases s with
      | experts b h w => exact vSplit_experts_iff hranks hshape hs hpaths
      | scales b w => exact vSplit_scales_iff hranks hshape hpaths
  | kvSplit => exact kvSplit_iff hranks hshape hs hpaths
  | hSplit =>
      cases s with
      | experts b h w => exact hSplit_iff hranks hshape hs hpaths
      | scales b w => exact absurd htakes id

end Claim

/-- Two experts of keys and values, copied by the device, on two ranks. -/
theorem batchReassembles_iff_two_experts :
    BatchReassembles .kvSplit 2 ⟨[2, 3, 8], .float16, .dense, .batchKVSplit, 0, []⟩
        (.experts 2 3 8) (fun place => place.dst = .cuda) ↔
      BatchMode.Sound .kvSplit 2 ⟨[2, 3, 8], .float16, .dense, .batchKVSplit, 0, []⟩
        (.experts 2 3 8) fun place => place.dst = .cuda :=
  batchReassembles_iff trivial (by decide) rfl ⟨by decide, by decide, by decide, by decide⟩
    ⟨⟨.cuda, .cpu⟩, rfl⟩

/-- A row of scales that divides evenly is refused; the host writes past the
part of keys and values, and half a column is accepted; and a weight of more
than `2 ^ 31` elements overflows the `int` index of its last expert. -/
theorem batch_not_reassembles :
    BatchVerticalSplit.isSplittable ⟨0, 2⟩ ⟨[1, 2], .float32, .dense, .batchVSplit, 0, []⟩ =
        .ok false ∧
      ¬ BatchReassembles .vSplit 2 ⟨[1, 2], .float32, .dense, .batchVSplit, 0, []⟩
        (.scales 1 2) (fun _ => True) ∧
      ¬ BatchReassembles .kvSplit 2 ⟨[1, 1, 4], .float32, .dense, .batchKVSplit, 0, []⟩
        (.experts 1 1 4) (fun place => place.OnHost) ∧
      BatchKVerticalSplit.isSplittable ⟨0, 2⟩ ⟨[1, 1, 2], .float32, .dense, .batchKVSplit, 0, []⟩ =
        .ok true ∧
      ¬ BatchReassembles .hSplit 2
        ⟨[2, 65536, 65536], .float16, .dense, .batchHSplit, 0, []⟩
        (.experts 2 65536 65536) (fun _ => True) := by
  refine ⟨by decide, ?_, ?_, by decide, ?_⟩
  · intro h
    exact (vSplit_scales_iff (by decide) rfl ⟨⟨.cpu, .cpu⟩, trivial⟩).mp h (by decide)
  · intro h
    obtain ⟨-, -, hhost⟩ := (kvSplit_iff (by decide) rfl
      ⟨by decide, by decide, by decide, by decide⟩ ⟨⟨.cpu, .cpu⟩, rfl, rfl⟩).mp h (by decide)
    exact absurd (hhost ⟨⟨.cpu, .cpu⟩, ⟨rfl, rfl⟩, rfl, rfl⟩) (by decide)
  · intro h
    exact absurd ((hSplit_iff (by decide) rfl ⟨by decide, by decide, by decide, by decide⟩
      ⟨⟨.cpu, .cpu⟩, trivial⟩).mp h (by decide)) (by decide)

end DashInfer.Weight
