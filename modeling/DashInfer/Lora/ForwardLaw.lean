import DashInfer.Lora.Segments

/-!
`Reshape` and `Forward` compute the products of the batch, exactly when the
grouped kernels run on the device or, on the cuBLAS path, the layer has no value
columns that the doubled offset could spoil.
-/

namespace DashInfer.Lora

open DashInfer.Lib
open scoped BigOperators

/-- The tensors of a run share no memory with those it stores to. -/
structure Separate (r : SgmvRun) : Prop where
  aligned : 16 ∣ r.env.workspace
  workspace_input : r.input.Apart r.workspace
  output_input : r.input.Apart r.output
  output_workspace : r.workspace.Apart r.output
  weights : ∀ factors ∈ r.weights, ∀ tensor ∈ [factors.1, factors.2],
    (r.extent tensor).Apart r.workspace ∧ (r.extent tensor).Apart r.output

section Workspace

theorem le_alignUpTo16 (p : Nat) : p ≤ alignUpTo16 p := by
  unfold alignUpTo16
  omega

theorem alignUpTo16_add {a : Nat} (h : 16 ∣ a) (b : Nat) :
    alignUpTo16 (a + b) = a + alignUpTo16 b := by
  unfold alignUpTo16
  omega

variable (r : SgmvRun)

theorem SgmvRun.temp_le : r.temp + r.tempBytes ≤ r.tempQkv 0 := by
  have hbuf : r.temp + r.tempBytes ≤ r.buf := le_alignUpTo16 _
  have hqkv : r.buf + sgmvTmpSize r.numProblems ≤ r.tempQkv 0 := le_alignUpTo16 _
  omega

theorem SgmvRun.tempQkv_le (qkvIdx : Nat) :
    r.tempQkv qkvIdx + r.tempQkvBytes ≤ r.tempQkv (qkvIdx + 1) := le_alignUpTo16 _

theorem SgmvRun.tempQkv_mono {qkvIdx qkvIdx' : Nat} (h : qkvIdx < qkvIdx') :
    r.tempQkv qkvIdx + r.tempQkvBytes ≤ r.tempQkv qkvIdx' := by
  induction h with
  | refl => exact r.tempQkv_le qkvIdx
  | step _ ih => exact (ih.trans (Nat.le_add_right _ _)).trans (r.tempQkv_le _)

theorem SgmvRun.temp_within : r.temp + r.tempBytes ≤ r.env.workspace + r.wsSize := by
  have hfirst : r.tempBytes ≤ alignUpTo16 r.tempBytes := le_alignUpTo16 _
  have hsize : alignUpTo16 r.tempBytes ≤ r.wsSize := by
    unfold SgmvRun.wsSize
    split
    · have h1 := le_alignUpTo16 (alignUpTo16 r.tempBytes + sgmvTmpSize r.numProblems)
      have h2 := le_alignUpTo16
        (alignUpTo16 (alignUpTo16 r.tempBytes + sgmvTmpSize r.numProblems) + r.tempQkvBytes)
      have h3 := le_alignUpTo16 (alignUpTo16 (alignUpTo16 (alignUpTo16 r.tempBytes +
        sgmvTmpSize r.numProblems) + r.tempQkvBytes) + r.tempQkvBytes)
      dsimp only
      omega
    · exact Nat.le_add_right _ _
  unfold SgmvRun.temp
  omega

/-- The three blocks for the parts end where the workspace ends. -/
theorem SgmvRun.tempQkv_within (haligned : 16 ∣ r.env.workspace)
    (hself : r.op.isAttentionSelf = true) :
    r.tempQkv 2 + r.tempQkvBytes = r.env.workspace + r.wsSize := by
  simp only [SgmvRun.tempQkv, SgmvRun.buf, SgmvRun.temp, SgmvRun.wsSize, hself, if_true,
    alignUpTo16_add haligned, Nat.add_assoc]

theorem SgmvRun.tempQkv_le_end (haligned : 16 ∣ r.env.workspace)
    (hself : r.op.isAttentionSelf = true) {qkvIdx : Nat} (hq : qkvIdx < 3) :
    r.tempQkv qkvIdx + r.tempQkvBytes ≤ r.env.workspace + r.wsSize := by
  have hend := r.tempQkv_within haligned hself
  rcases Nat.lt_or_ge qkvIdx 2 with hlt | hge
  · have hmono := r.tempQkv_mono hlt
    omega
  · have heq : qkvIdx = 2 := by omega
    rw [heq, hend]

theorem SgmvRun.temp_le_tempQkv (qkvIdx : Nat) : r.temp + r.tempBytes ≤ r.tempQkv qkvIdx := by
  have h0 := r.temp_le
  rcases Nat.eq_zero_or_pos qkvIdx with rfl | hpos
  · exact h0
  · have hmono := r.tempQkv_mono hpos
    omega

end Workspace

section Rows

/-- Entries of a segment of rows, packed with a stride of at most the width of a row. -/
theorem packed_lt {w start stop rows ld i j : Nat} (hi : i < stop - start) (hstop : stop ≤ rows)
    (hj : j < ld) (hld : ld ≤ w) : w * start + (i * ld + j) < rows * w := by
  calc w * start + (i * ld + j) < w * start + (i + 1) * ld := by
        rw [Nat.succ_mul]
        omega
    _ ≤ w * start + (i + 1) * w := Nat.add_le_add_left (Nat.mul_le_mul_left _ hld) _
    _ = (start + (i + 1)) * w := by ring
    _ ≤ rows * w := Nat.mul_le_mul_right _ (by omega)

private theorem stride_unique {ld i i' j j' : Nat} (hj : j < ld) (hj' : j' < ld)
    (h : i * ld + j = i' * ld + j') : i = i' ∧ j = j' := by
  have hpos : 0 < ld := Nat.zero_lt_of_lt hj
  have hdiv : ∀ {i j : Nat}, j < ld → (i * ld + j) / ld = i := by
    intro i j hj
    rw [Nat.mul_comm, Nat.mul_add_div hpos, Nat.div_eq_of_lt hj, Nat.add_zero]
  have hi : i = i' := by
    rw [← hdiv (i := i) hj, h, hdiv hj']
  subst hi
  exact ⟨rfl, Nat.add_left_cancel h⟩

/-- The packed entries of different segments do not meet. -/
theorem packed_unique {names : List String} {segs : List Segment} (h : Segmented names segs)
    {w : Nat} (ld : Segment → Nat) (hld : ∀ g ∈ segs, ld g ≤ w) {g g' : Segment} (hg : g ∈ segs)
    (hg' : g' ∈ segs) {i i' j j' : Nat} (hi : i < g.stop - g.start) (hi' : i' < g'.stop - g'.start)
    (hj : j < ld g) (hj' : j' < ld g')
    (heq : w * g.start + (i * ld g + j) = w * g'.start + (i' * ld g' + j')) :
    g = g' ∧ i = i' ∧ j = j' := by
  have hw : 0 < w := Nat.zero_lt_of_lt (hj.trans_le (hld g hg))
  have hrow : ∀ {g : Segment} {i j : Nat}, g ∈ segs → i < g.stop - g.start → j < ld g →
      g.start ≤ (w * g.start + (i * ld g + j)) / w ∧
        (w * g.start + (i * ld g + j)) / w < g.stop := by
    intro g i j hg hi hj
    constructor
    · rw [Nat.le_div_iff_mul_le hw, Nat.mul_comm]
      exact Nat.le_add_right _ _
    · rw [Nat.div_lt_iff_lt_mul hw]
      exact packed_lt hi (Nat.le_refl _) hj (hld g hg)
  obtain rfl := h.unique hg hg' (hrow hg hi hj) (heq ▸ hrow hg' hi' hj')
  exact ⟨rfl, stride_unique hj hj' (Nat.add_left_cancel heq)⟩

variable {size base w rows : Nat}

/-- Some columns of a segment of rows stay inside the rows. -/
theorem rowBlock_within (start stop off : Nat) {b : Block}
    (hptr : b.ref.ptr = base + size * (w * start + off))
    (hrows : b.rows = stop - start) (hstop : stop ≤ rows) (hld : b.ref.ld ≤ w)
    (hcols : off + b.cols ≤ b.ref.ld) : b.Within size ⟨base, rows * w * size⟩ := by
  apply Block.within_of_lt hptr
  intro i hi j hj
  have hlt := packed_lt (hrows ▸ hi) hstop (show off + j < b.ref.ld by omega) hld
  omega

/-- Some columns of a matrix stay inside it. -/
theorem columns_within (off : Nat) {b : Block} (hptr : b.ref.ptr = base + size * off)
    (hcols : off + b.cols ≤ b.ref.ld) : b.Within size ⟨base, b.rows * b.ref.ld * size⟩ :=
  rowBlock_within 0 b.rows off (w := b.ref.ld) (by simpa using hptr) rfl (Nat.le_refl _)
    (Nat.le_refl _) hcols

end Rows

namespace Prepared

variable {r : SgmvRun} {m : LoraManager} {d : Nat} {segs : List Segment} {g : Segment}

section Sizes

variable (h : Prepared m d segs r)

include h

theorem outFeatures : r.tables.outFeatures = d := by
  rw [h.noted.columns]
  exact if_pos h.served.hasLora

theorem rows : r.batch.rows = r.batch.rowNames.length := h.served.rows_eq

variable (hg : g ∈ segs)

include hg

theorem stop_le : g.stop ≤ r.batch.rows := by
  rw [h.rows]
  exact (h.segmented.fits g hg).2.1

theorem name_ne : g.name ≠ "" := (h.segmented.fits g hg).2.2

theorem multiplies : r.op.Multiplies m d g.name :=
  (h.served.multiplies g.name (h.mem g hg)).resolve_left (h.name_ne hg)

theorem rowsA : (r.tensorA m g).rows = r.op.inFeatures := (h.multiplies hg).sizes.1

theorem colsB : (r.tensorB m g).cols = d := (h.multiplies hg).sizes.2.1

theorem colsA_le : (r.tensorA m g).cols ≤ r.tables.maxLoraR :=
  h.noted.maxRank g.name (h.mem g hg) (h.name_ne hg)

theorem colsA_plain (hself : r.op.isAttentionSelf = false) :
    (r.tensorA m g).cols = (r.tensorB m g).rows := by
  have hsizes := (h.multiplies hg).sizes.2.2
  rw [hself] at hsizes
  exact hsizes

theorem colsA_self (hself : r.op.isAttentionSelf = true) :
    (r.tensorA m g).cols = 3 * (r.tensorB m g).rows := by
  have hsizes := (h.multiplies hg).sizes.2.2
  rw [hself] at hsizes
  exact hsizes.trans (Nat.mul_comm _ _)

theorem rowsB_le (hself : r.op.isAttentionSelf = true) :
    (r.tensorB m g).rows ≤ r.tables.maxLoraR / 3 := by
  have hcols := h.colsA_self hg hself
  have hle := h.colsA_le hg
  omega

/-- The row of a segment's entry. -/
theorem rowName_eq {row : Nat} (hrow : g.start ≤ row ∧ row < g.stop) :
    r.batch.rowName row = g.name := by
  have hnamed := h.segmented.named g hg row hrow.1 hrow.2
  rw [Batch.rowName_eq (List.getElem?_eq_some_iff.mp hnamed).1] at hnamed
  exact Option.some.inj hnamed

end Sizes

section Blocks

variable (h : Prepared m d segs r) (hsep : Separate r) (hg : g ∈ segs)

include h hg

theorem input_within : Block.Within r.op.typeSize r.input
    ⟨⟨r.env.input + r.op.typeSize * (r.op.inFeatures * g.start), r.op.inFeatures, r.input⟩,
      g.stop - g.start, r.op.inFeatures⟩ :=
  rowBlock_within g.start g.stop 0 rfl rfl (h.stop_le hg) (Nat.le_refl _)
    (Nat.le_of_eq (Nat.zero_add _))

theorem tensorA_within : Block.Within r.op.typeSize (r.extent (r.tensorA m g))
    ⟨⟨(r.tensorA m g).dataPtr, (r.tensorA m g).cols, r.extent (r.tensorA m g)⟩,
      r.op.inFeatures, (r.tensorA m g).cols⟩ := by
  have hwithin : Block.Within r.op.typeSize _
      ⟨⟨(r.tensorA m g).dataPtr, (r.tensorA m g).cols, r.extent (r.tensorA m g)⟩,
        r.op.inFeatures, (r.tensorA m g).cols⟩ :=
    columns_within 0 rfl (Nat.le_of_eq (Nat.zero_add _))
  unfold SgmvRun.extent
  rw [h.rowsA hg]
  exact hwithin

theorem temp_block_within (off : Nat) {cols : Nat} (hcols : off + cols ≤ (r.tensorA m g).cols) :
    Block.Within r.op.typeSize ⟨r.temp, r.tempBytes⟩
      ⟨⟨r.temp + r.op.typeSize * (r.tables.maxLoraR * g.start + off), (r.tensorA m g).cols,
        r.workspace⟩, g.stop - g.start, cols⟩ :=
  rowBlock_within g.start g.stop off rfl rfl (h.stop_le hg) (h.colsA_le hg) hcols

theorem tempQkv_block_within (hself : r.op.isAttentionSelf = true) (qkvIdx : Nat) :
    Block.Within r.op.typeSize ⟨r.tempQkv qkvIdx, r.tempQkvBytes⟩
      ⟨⟨r.tempQkv qkvIdx + r.op.typeSize * (r.tables.maxLoraR / 3 * g.start),
        (r.tensorB m g).rows, r.workspace⟩, g.stop - g.start, (r.tensorB m g).rows⟩ :=
  rowBlock_within g.start g.stop 0 rfl rfl (h.stop_le hg) (h.rowsB_le hg hself)
    (Nat.le_of_eq (Nat.zero_add _))

/-- Columns of `lora_B`, with the stride of the operator's output. -/
theorem tensorB_within (off : Nat) {cols : Nat} (hcols : off + cols ≤ d) :
    Block.Within r.op.typeSize (r.extent (r.tensorB m g))
      ⟨⟨(r.tensorB m g).dataPtr + r.op.typeSize * off, d, r.extent (r.tensorB m g)⟩,
        (r.tensorB m g).rows, cols⟩ := by
  have hwithin : Block.Within r.op.typeSize _
      ⟨⟨(r.tensorB m g).dataPtr + r.op.typeSize * off, d, r.extent (r.tensorB m g)⟩,
        (r.tensorB m g).rows, cols⟩ := columns_within off rfl hcols
  unfold SgmvRun.extent
  rw [h.colsB hg]
  exact hwithin

theorem output_within (off : Nat) {cols : Nat} (hcols : off + cols ≤ d) :
    Block.Within r.op.typeSize r.output
      ⟨⟨r.env.output + r.op.typeSize * (d * g.start + off), d, r.output⟩,
        g.stop - g.start, cols⟩ := by
  unfold SgmvRun.output
  rw [h.outFeatures]
  exact rowBlock_within g.start g.stop off rfl rfl (h.stop_le hg) (Nat.le_refl _) hcols

theorem tensorA_apart (hsep : Separate r) :
    (r.extent (r.tensorA m g)).Apart r.workspace ∧ (r.extent (r.tensorA m g)).Apart r.output := by
  apply hsep.weights (r.op.weights m g.name)
  · rw [h.weights]
    exact List.mem_map_of_mem hg
  · exact List.mem_cons_self

theorem tensorB_apart (hsep : Separate r) :
    (r.extent (r.tensorB m g)).Apart r.workspace ∧ (r.extent (r.tensorB m g)).Apart r.output := by
  apply hsep.weights (r.op.weights m g.name)
  · rw [h.weights]
    exact List.mem_map_of_mem hg
  · exact List.mem_cons_of_mem _ List.mem_cons_self

end Blocks

section Phases

variable {R : Type} [NonUnitalNonAssocSemiring R] {mem : Nat → R}
variable (h : Prepared m d segs r)

include h

omit h in
/-- An entry of a product, its operands behind offsets into their tensors. -/
theorem product_value {p : SgmvProblem} {x w y : Extent} {baseX baseW cX cW : Nat}
    (hx : p.ptrX = baseX + r.op.typeSize * cX) (hw : p.ptrW = baseW + r.op.typeSize * cW)
    (i j : Nat) : (r.product p x w y).value mem i j = ∑ l ∈ Finset.range p.k,
      mem (baseX + r.op.typeSize * (cX + (i * p.ldX + l))) *
        mem (baseW + r.op.typeSize * (cW + (l * p.ldW + j))) := by
  change ∑ l ∈ Finset.range p.k, mem (MatrixRef.addr r.op.typeSize ⟨p.ptrX, p.ldX, x⟩ i l) *
    mem (MatrixRef.addr r.op.typeSize ⟨p.ptrW, p.ldW, w⟩ l j) = _
  apply Finset.sum_congr rfl
  intro l _
  rw [MatrixRef.addr_eq hx, MatrixRef.addr_eq hw]

section ProductsA

theorem kernelsA_target {k : Kernel R r.op.typeSize} (hk : k ∈ r.kernelsA) :
    k.target.Within r.op.typeSize ⟨r.temp, r.tempBytes⟩ := by
  rw [h.kernelsA_eq] at hk
  obtain ⟨g, hg, rfl⟩ := List.mem_map.mp hk
  exact h.temp_block_within hg 0 (Nat.le_of_eq (Nat.zero_add _))

theorem kernelsA_inside {k : Kernel R r.op.typeSize} (hk : k ∈ r.kernelsA) : k.Inside := by
  have htarget := h.kernelsA_target hk
  rw [h.kernelsA_eq] at hk
  obtain ⟨g, hg, rfl⟩ := List.mem_map.mp hk
  apply Kernel.inside_gemm
  · exact h.input_within hg
  · exact h.tensorA_within hg
  · exact htarget.mono (Nat.le_refl _) r.temp_within

theorem kernelsA_independent (hsep : Separate r) :
    Kernel.Independent (r.kernelsA : List (Kernel R r.op.typeSize)) := by
  apply Kernel.independent_of_apart (f := r.workspace) h.served.typeSize
  · intro k hk
    exact (h.kernelsA_target hk).mono (Nat.le_refl _) r.temp_within
  · intro k hk b hb
    rw [h.kernelsA_eq] at hk
    obtain ⟨g, hg, rfl⟩ := List.mem_map.mp hk
    rcases List.mem_cons.mp hb with rfl | hb
    · exact ⟨r.input, h.input_within hg, hsep.workspace_input⟩
    · obtain rfl := List.mem_singleton.mp hb
      exact ⟨_, h.tensorA_within hg, (h.tensorA_apart hg hsep).1⟩

/-- Entry `j` of row `i` of a segment, behind the products with `lora_A`. -/
theorem runAll_kernelsA (hsep : Separate r) (hg : g ∈ segs) {i j : Nat}
    (hi : i < g.stop - g.start) (hj : j < (r.tensorA m g).cols) :
    Kernel.runAll r.kernelsA mem
        (r.temp + r.op.typeSize * (r.tables.maxLoraR * g.start + (i * (r.tensorA m g).cols + j))) =
      ∑ l ∈ Finset.range r.op.inFeatures,
        mem (r.env.input + r.op.typeSize * ((g.start + i) * r.op.inFeatures + l)) *
          mem ((r.tensorA m g).dataPtr + r.op.typeSize * (l * (r.tensorA m g).cols + j)) := by
  have hindependent := h.kernelsA_independent (R := R) hsep
  rw [h.kernelsA_eq] at hindependent ⊢
  have hinj : ∀ g' ∈ segs, ∀ i' < g'.stop - g'.start, ∀ j' < (r.tensorA m g').cols,
      MatrixRef.addr r.op.typeSize ⟨(r.problemA m g').ptrY, (r.tensorA m g').cols, r.workspace⟩
          i' j' =
        r.temp + r.op.typeSize * (r.tables.maxLoraR * g.start + (i * (r.tensorA m g).cols + j)) →
      g' = g ∧ i' = i ∧ j' = j := by
    intro g' hg' i' hi' j' hj' heq
    rw [MatrixRef.addr_eq rfl] at heq
    have hentry := Nat.eq_of_mul_eq_mul_left h.served.typeSize (Nat.add_left_cancel heq)
    exact packed_unique h.segmented _ (fun g hg => h.colsA_le hg) hg' hg hi' hi hj' hj hentry
  apply Eq.trans (Kernel.runAll_map hindependent hg hi hj (MatrixRef.addr_eq rfl i j) hinj)
  have hw : (r.problemA m g).ptrW = (r.tensorA m g).dataPtr + r.op.typeSize * 0 := rfl
  rw [product_value rfl hw]
  apply Finset.sum_congr rfl
  intro l _
  have hrow : r.op.inFeatures * g.start + (i * r.op.inFeatures + l) =
      (g.start + i) * r.op.inFeatures + l := by ring
  dsimp only [SgmvRun.problemA]
  rw [hrow, Nat.zero_add]

end ProductsA

section Split

variable (hsep : Separate r) (hself : r.op.isAttentionSelf = true)

include hsep hself

omit [NonUnitalNonAssocSemiring R] in
theorem kernelsSplit_target {k : Kernel R r.op.typeSize} (hk : k ∈ r.kernelsSplit) :
    k.target.Within r.op.typeSize r.workspace ∧
      k.target.Within r.op.typeSize ⟨r.tempQkv 0, r.workspace.base + r.workspace.bytes -
        r.tempQkv 0⟩ := by
  rw [h.kernelsSplit_eq hself] at hk
  obtain ⟨⟨g, qkvIdx⟩, hmem, rfl⟩ := List.mem_map.mp hk
  obtain ⟨hg, hq⟩ := List.mem_product.mp hmem
  have hend := r.tempQkv_le_end hsep.aligned hself (List.mem_range.mp hq)
  have hstart := r.temp_le_tempQkv qkvIdx
  have hfirst : r.tempQkv 0 ≤ r.tempQkv qkvIdx := by
    rcases Nat.eq_zero_or_pos qkvIdx with rfl | hpos
    · exact Nat.le_refl _
    · exact (Nat.le_add_right _ _).trans (r.tempQkv_mono hpos)
  have hblock := h.tempQkv_block_within hg hself qkvIdx
  unfold SgmvRun.temp at hstart
  unfold SgmvRun.workspace
  constructor
  · apply hblock.mono
    · dsimp only
      omega
    · exact hend
  · apply hblock.mono hfirst
    dsimp only
    omega

omit [NonUnitalNonAssocSemiring R] hsep in
theorem kernelsSplit_source {k : Kernel R r.op.typeSize} (hk : k ∈ r.kernelsSplit) :
    ∀ b ∈ k.sources, b.Within r.op.typeSize ⟨r.temp, r.tempBytes⟩ ∧
      b.ref.tensor = r.workspace := by
  rw [h.kernelsSplit_eq hself] at hk
  obtain ⟨⟨g, qkvIdx⟩, hmem, rfl⟩ := List.mem_map.mp hk
  obtain ⟨hg, hq⟩ := List.mem_product.mp hmem
  have hq : qkvIdx < 3 := List.mem_range.mp hq
  intro b hb
  obtain rfl := List.mem_singleton.mp hb
  refine ⟨?_, rfl⟩
  dsimp only
  rw [← h.colsA_self hg hself]
  apply h.temp_block_within hg (qkvIdx * (r.tensorB m g).rows)
  rw [h.colsA_self hg hself]
  calc qkvIdx * (r.tensorB m g).rows + (r.tensorB m g).rows
      = (qkvIdx + 1) * (r.tensorB m g).rows := (Nat.succ_mul _ _).symm
    _ ≤ 3 * (r.tensorB m g).rows := Nat.mul_le_mul_right _ hq

omit [NonUnitalNonAssocSemiring R] in
theorem kernelsSplit_inside {k : Kernel R r.op.typeSize} (hk : k ∈ r.kernelsSplit) :
    k.Inside := by
  have htarget := (h.kernelsSplit_target hsep hself hk).1
  have hsource := h.kernelsSplit_source hself hk
  constructor
  · rw [h.kernelsSplit_eq hself] at hk
    obtain ⟨p, _, rfl⟩ := List.mem_map.mp hk
    exact htarget
  · intro b hb
    obtain ⟨hwithin, htensor⟩ := hsource b hb
    unfold Block.Inside
    rw [htensor]
    exact hwithin.mono (Nat.le_refl _) r.temp_within

omit [NonUnitalNonAssocSemiring R] in
theorem kernelsSplit_independent :
    Kernel.Independent (r.kernelsSplit : List (Kernel R r.op.typeSize)) := by
  apply Kernel.independent_of_apart h.served.typeSize
  · exact fun k hk => (h.kernelsSplit_target hsep hself hk).2
  · intro k hk b hb
    exact ⟨_, (h.kernelsSplit_source hself hk b hb).1, Or.inl r.temp_le⟩

omit [NonUnitalNonAssocSemiring R] in
/-- Behind `do_split_qkv`, each part has its third of a row. -/
theorem runAll_kernelsSplit (hg : g ∈ segs) {qkvIdx : Nat} (hq : qkvIdx < 3) {i j : Nat}
    (hi : i < g.stop - g.start) (hj : j < (r.tensorB m g).rows) :
    Kernel.runAll r.kernelsSplit mem (r.tempQkv qkvIdx + r.op.typeSize *
        (r.tables.maxLoraR / 3 * g.start + (i * (r.tensorB m g).rows + j))) =
      mem (r.temp + r.op.typeSize * (r.tables.maxLoraR * g.start +
        (i * (r.tensorA m g).cols + (qkvIdx * (r.tensorB m g).rows + j)))) := by
  have hindependent := h.kernelsSplit_independent (R := R) hsep hself
  rw [h.kernelsSplit_eq hself] at hindependent ⊢
  have hmem : (g, qkvIdx) ∈ segs ×ˢ List.range 3 :=
    List.mem_product.mpr ⟨hg, List.mem_range.mpr hq⟩
  have hinj : ∀ p ∈ segs ×ˢ List.range 3, ∀ i' < p.1.stop - p.1.start,
      ∀ j' < (r.tensorB m p.1).rows,
      MatrixRef.addr r.op.typeSize ⟨r.tempQkv p.2 + r.op.typeSize *
          (r.tables.maxLoraR / 3 * p.1.start), (r.tensorB m p.1).rows, r.workspace⟩ i' j' =
        r.tempQkv qkvIdx + r.op.typeSize *
          (r.tables.maxLoraR / 3 * g.start + (i * (r.tensorB m g).rows + j)) →
      p = (g, qkvIdx) ∧ i' = i ∧ j' = j := by
    rintro ⟨g', qkvIdx'⟩ hp i' hi' j' hj' heq
    obtain ⟨hg', hq'⟩ := List.mem_product.mp hp
    have hother := h.tempQkv_block_within hg' hself qkvIdx' i' hi' j' hj'
    have hthis := h.tempQkv_block_within hg hself qkvIdx i hi j hj
    have hpos := h.served.typeSize
    dsimp only at hother hthis heq hi' hj'
    rw [MatrixRef.addr_eq rfl] at hthis
    rw [heq] at hother
    dsimp only at hother hthis
    have hpart : qkvIdx' = qkvIdx := by
      rcases Nat.lt_trichotomy qkvIdx' qkvIdx with hlt | rfl | hlt
      · have hmono := r.tempQkv_mono hlt
        omega
      · rfl
      · have hmono := r.tempQkv_mono hlt
        omega
    subst hpart
    rw [MatrixRef.addr_eq rfl] at heq
    have hentry := Nat.eq_of_mul_eq_mul_left hpos (Nat.add_left_cancel heq)
    obtain ⟨rfl, rfl, rfl⟩ :=
      packed_unique h.segmented _ (fun g hg => h.rowsB_le hg hself) hg' hg hi' hi hj' hj hentry
    exact ⟨rfl, rfl, rfl⟩
  apply Eq.trans (Kernel.runAll_map hindependent hmem hi hj (MatrixRef.addr_eq rfl i j) hinj)
  change mem (MatrixRef.addr r.op.typeSize ⟨r.temp + r.op.typeSize * (r.tables.maxLoraR * g.start +
    qkvIdx * (r.tensorB m g).rows), 3 * (r.tensorB m g).rows, r.workspace⟩ i j) = _
  rw [MatrixRef.addr_eq rfl, h.colsA_self hg hself]
  congr 2
  ring

end Split

section ProductsB

variable (hself : r.op.isAttentionSelf = false)

include hself

omit hself in
theorem kernelsB_target {k : Kernel R r.op.typeSize} (hk : k ∈ r.kernelsB) :
    k.target.Within r.op.typeSize r.output := by
  rw [h.kernelsB_eq] at hk
  obtain ⟨g, hg, rfl⟩ := List.mem_map.mp hk
  have hout := h.output_within hg 0 (Nat.le_of_eq (Nat.zero_add d))
  rw [← h.outFeatures] at hout
  exact hout

theorem kernelsB_inside {k : Kernel R r.op.typeSize} (hk : k ∈ r.kernelsB) : k.Inside := by
  have htarget := h.kernelsB_target hk
  rw [h.kernelsB_eq] at hk
  obtain ⟨g, hg, rfl⟩ := List.mem_map.mp hk
  apply Kernel.inside_gemm
  · exact (h.temp_block_within hg 0 (Nat.le_of_eq (Nat.zero_add _))).mono
      (Nat.le_refl _) r.temp_within
  · have hwithin := h.tensorB_within hg 0 (Nat.le_of_eq (Nat.zero_add d))
    rw [← h.outFeatures, ← h.colsA_plain hg hself] at hwithin
    exact hwithin
  · exact htarget

theorem kernelsB_independent (hsep : Separate r) :
    Kernel.Independent (r.kernelsB : List (Kernel R r.op.typeSize)) := by
  apply Kernel.independent_of_apart (f := r.output) h.served.typeSize
  · exact fun k hk => h.kernelsB_target hk
  · intro k hk b hb
    have hinside := (h.kernelsB_inside hself hk).2 b hb
    rw [h.kernelsB_eq] at hk
    obtain ⟨g, hg, rfl⟩ := List.mem_map.mp hk
    refine ⟨_, hinside, ?_⟩
    rcases List.mem_cons.mp hb with rfl | hb
    · exact hsep.output_workspace
    · obtain rfl := List.mem_singleton.mp hb
      exact (h.tensorB_apart hg hsep).2

theorem runAll_kernelsB (hsep : Separate r) (hg : g ∈ segs) {i j : Nat}
    (hi : i < g.stop - g.start) (hj : j < d) :
    Kernel.runAll r.kernelsB mem (r.env.output + r.op.typeSize * (d * g.start + (i * d + j))) =
      ∑ l ∈ Finset.range (r.tensorB m g).rows,
        mem (r.temp + r.op.typeSize *
          (r.tables.maxLoraR * g.start + (i * (r.tensorA m g).cols + l))) *
          mem ((r.tensorB m g).dataPtr + r.op.typeSize * (l * d + j)) := by
  have hindependent := h.kernelsB_independent (R := R) hself hsep
  rw [h.kernelsB_eq] at hindependent ⊢
  have hinj : ∀ g' ∈ segs, ∀ i' < g'.stop - g'.start, ∀ j' < r.tables.outFeatures,
      MatrixRef.addr r.op.typeSize ⟨(r.problemB m g').ptrY, r.tables.outFeatures, r.output⟩
          i' j' =
        r.env.output + r.op.typeSize * (d * g.start + (i * d + j)) →
      g' = g ∧ i' = i ∧ j' = j := by
    intro g' hg' i' hi' j' hj' heq
    rw [MatrixRef.addr_eq rfl, h.outFeatures] at heq
    rw [h.outFeatures] at hj'
    have hentry := Nat.eq_of_mul_eq_mul_left h.served.typeSize (Nat.add_left_cancel heq)
    exact packed_unique h.segmented (fun _ => d) (fun _ _ => Nat.le_refl d) hg' hg hi' hi hj'
      hj hentry
  have haddr : MatrixRef.addr r.op.typeSize
      ⟨(r.problemB m g).ptrY, r.tables.outFeatures, r.output⟩ i j =
        r.env.output + r.op.typeSize * (d * g.start + (i * d + j)) := by
    rw [MatrixRef.addr_eq rfl, h.outFeatures]
  have hcol : j < r.tables.outFeatures := by
    rw [h.outFeatures]
    exact hj
  apply Eq.trans (Kernel.runAll_map hindependent hg hi hcol haddr hinj)
  have hw : (r.problemB m g).ptrW = (r.tensorB m g).dataPtr + r.op.typeSize * 0 := rfl
  rw [product_value rfl hw]
  dsimp only [SgmvRun.problemB]
  rw [h.colsA_plain hg hself, h.outFeatures]
  apply Finset.sum_congr rfl
  intro l _
  rw [Nat.zero_add]

end ProductsB

section ProductsQkv

/-- The columns of `lora_B` that the products read are those of their part, wherever
there are any and a product reads a row of them. -/
def RightColumns (m : LoraManager) (segs : List Segment) (r : SgmvRun) : Prop :=
  ∀ g ∈ segs, 0 < (r.tensorB m g).rows → ∀ qkvIdx < 3, 0 < r.op.qkvWeightDims.getD qkvIdx 0 →
    r.columnsB qkvIdx = r.op.partStart qkvIdx

variable (hself : r.op.isAttentionSelf = true)

include hself

omit [NonUnitalNonAssocSemiring R] in
theorem qkvSum : r.op.qkvSum = d := by
  obtain ⟨q, kv, hdims, hd⟩ := h.served.parts hself
  rw [SgmvOp.qkvSum, hdims, hd]
  simp [Nat.add_assoc]

omit [NonUnitalNonAssocSemiring R] in
theorem part_le {qkvIdx : Nat} (hq : qkvIdx < 3) :
    r.op.partStart qkvIdx + r.op.qkvWeightDims.getD qkvIdx 0 ≤ d := by
  obtain ⟨q, kv, hdims, hd⟩ := h.served.parts hself
  unfold SgmvOp.partStart
  rw [hdims, hd]
  interval_cases qkvIdx
  · simp
    omega
  · simp
  · simp

omit [NonUnitalNonAssocSemiring R] in
/-- A column belongs to one part. -/
theorem part_unique {qkvIdx qkvIdx' j j' : Nat} (hq : qkvIdx < 3) (hq' : qkvIdx' < 3)
    (hj : j < r.op.qkvWeightDims.getD qkvIdx 0) (hj' : j' < r.op.qkvWeightDims.getD qkvIdx' 0)
    (heq : r.op.partStart qkvIdx + j = r.op.partStart qkvIdx' + j') :
    qkvIdx = qkvIdx' ∧ j = j' := by
  obtain ⟨q, kv, hdims, hd⟩ := h.served.parts hself
  unfold SgmvOp.partStart at heq
  rw [hdims] at hj hj' heq
  interval_cases qkvIdx <;> interval_cases qkvIdx' <;>
    simp at hj hj' heq <;> omega

theorem kernelsQkv_target {k : Kernel R r.op.typeSize} (hk : k ∈ r.kernelsQkv) :
    k.target.Within r.op.typeSize r.output := by
  rw [h.kernelsQkv_eq hself] at hk
  obtain ⟨⟨qkvIdx, g⟩, hmem, rfl⟩ := List.mem_map.mp hk
  obtain ⟨hq, hg⟩ := List.mem_product.mp hmem
  have hout := h.output_within hg _ (h.part_le hself (List.mem_range.mp hq))
  rw [← h.qkvSum hself] at hout
  exact hout

theorem kernelsQkv_inside (hsep : Separate r) (hcolumns : RightColumns m segs r)
    {k : Kernel R r.op.typeSize} (hk : k ∈ r.kernelsQkv) : k.Inside := by
  have htarget := h.kernelsQkv_target hself hk
  rw [h.kernelsQkv_eq hself] at hk
  obtain ⟨⟨qkvIdx, g⟩, hmem, rfl⟩ := List.mem_map.mp hk
  obtain ⟨hq, hg⟩ := List.mem_product.mp hmem
  have hq : qkvIdx < 3 := List.mem_range.mp hq
  apply Kernel.inside_gemm
  · have hstart := r.temp_le_tempQkv qkvIdx
    unfold SgmvRun.temp at hstart
    apply (h.tempQkv_block_within hg hself qkvIdx).mono
    · exact (Nat.le_add_right _ _).trans hstart
    · exact r.tempQkv_le_end hsep.aligned hself hq
  · intro l hl j hj
    have hcols := hcolumns g hg (Nat.zero_lt_of_lt hl) qkvIdx hq (Nat.zero_lt_of_lt hj)
    have hwithin := h.tensorB_within hg _ (h.part_le hself hq) l hl j hj
    rw [← h.qkvSum hself] at hwithin
    dsimp only [SgmvRun.problemQkv]
    rw [hcols]
    exact hwithin
  · exact htarget

theorem kernelsQkv_independent (hsep : Separate r) (hcolumns : RightColumns m segs r) :
    Kernel.Independent (r.kernelsQkv : List (Kernel R r.op.typeSize)) := by
  apply Kernel.independent_of_apart (f := r.output) h.served.typeSize
  · exact fun k hk => h.kernelsQkv_target hself hk
  · intro k hk b hb
    have hinside := (h.kernelsQkv_inside hself hsep hcolumns hk).2 b hb
    rw [h.kernelsQkv_eq hself] at hk
    obtain ⟨⟨qkvIdx, g⟩, hmem, rfl⟩ := List.mem_map.mp hk
    obtain ⟨hq, hg⟩ := List.mem_product.mp hmem
    refine ⟨_, hinside, ?_⟩
    rcases List.mem_cons.mp hb with rfl | hb
    · exact hsep.output_workspace
    · obtain rfl := List.mem_singleton.mp hb
      exact (h.tensorB_apart hg hsep).2

theorem runAll_kernelsQkv (mem : Nat → R) (hsep : Separate r)
    (hcolumns : RightColumns m segs r) (hg : g ∈ segs)
    {qkvIdx i j : Nat} (hq : qkvIdx < 3) (hi : i < g.stop - g.start)
    (hj : j < r.op.qkvWeightDims.getD qkvIdx 0) :
    Kernel.runAll r.kernelsQkv mem (r.env.output + r.op.typeSize *
        (d * g.start + (i * d + (r.op.partStart qkvIdx + j)))) =
      ∑ l ∈ Finset.range (r.tensorB m g).rows,
        mem (r.tempQkv qkvIdx + r.op.typeSize *
          (r.tables.maxLoraR / 3 * g.start + (i * (r.tensorB m g).rows + l))) *
          mem ((r.tensorB m g).dataPtr + r.op.typeSize *
            (l * d + (r.op.partStart qkvIdx + j))) := by
  have hindependent := h.kernelsQkv_independent (R := R) hself hsep hcolumns
  rw [h.kernelsQkv_eq hself] at hindependent ⊢
  have hmem : (qkvIdx, g) ∈ List.range 3 ×ˢ segs :=
    List.mem_product.mpr ⟨List.mem_range.mpr hq, hg⟩
  have haddr : ∀ (g' : Segment) (qkvIdx' i' j' : Nat), MatrixRef.addr r.op.typeSize
      ⟨(r.problemQkv m g' qkvIdx').ptrY, r.op.qkvSum, r.output⟩ i' j' =
        r.env.output + r.op.typeSize *
          (d * g'.start + (i' * d + (r.op.partStart qkvIdx' + j'))) := by
    intro g' qkvIdx' i' j'
    rw [MatrixRef.addr_eq rfl, h.qkvSum hself]
    congr 2
    ring
  have hinj : ∀ p ∈ List.range 3 ×ˢ segs, ∀ i' < p.2.stop - p.2.start,
      ∀ j' < r.op.qkvWeightDims.getD p.1 0, MatrixRef.addr r.op.typeSize
          ⟨(r.problemQkv m p.2 p.1).ptrY, r.op.qkvSum, r.output⟩ i' j' =
        r.env.output + r.op.typeSize *
          (d * g.start + (i * d + (r.op.partStart qkvIdx + j))) →
      p = (qkvIdx, g) ∧ i' = i ∧ j' = j := by
    rintro ⟨qkvIdx', g'⟩ hp i' hi' j' hj' heq
    obtain ⟨hq', hg'⟩ := List.mem_product.mp hp
    have hq' : qkvIdx' < 3 := List.mem_range.mp hq'
    rw [haddr] at heq
    dsimp only at heq hi' hj'
    have hentry := Nat.eq_of_mul_eq_mul_left h.served.typeSize (Nat.add_left_cancel heq)
    have hpart := h.part_le hself hq
    have hpart' := h.part_le hself hq'
    obtain ⟨rfl, rfl, hcol⟩ := packed_unique h.segmented (fun _ => d)
      (fun _ _ => Nat.le_refl d) hg' hg hi' hi (by omega) (by omega) hentry
    obtain ⟨rfl, rfl⟩ := h.part_unique hself hq' hq hj' hj hcol
    exact ⟨rfl, rfl, rfl⟩
  apply Eq.trans (Kernel.runAll_map hindependent hmem hi hj (haddr g qkvIdx i j) hinj)
  rw [product_value (p := r.problemQkv m g qkvIdx) rfl rfl]
  apply Finset.sum_congr rfl
  intro l hl
  have hrank : 0 < (r.tensorB m g).rows := Nat.zero_lt_of_lt (Finset.mem_range.mp hl)
  have hcols := hcolumns g hg hrank qkvIdx hq (Nat.zero_lt_of_lt hj)
  dsimp only [SgmvRun.problemQkv]
  rw [hcols, h.qkvSum hself]
  congr 3
  ring

end ProductsQkv

section Zeros

omit h in
/-- The rows that are set to zero are those between the segments. -/
theorem mem_setZeros {segs : List Segment} {lastEndIdx : Nat}
    (hordered : segs.Pairwise fun g g' => g.stop ≤ g'.start)
    (hfits : ∀ g ∈ segs, lastEndIdx ≤ g.start ∧ g.start ≤ g.stop ∧ g.stop ≤ r.batch.size)
    (hlast : lastEndIdx ≤ r.batch.size) {k : Kernel R r.op.typeSize}
    (hk : k ∈ r.setZeros lastEndIdx (bounds segs)) :
    ∃ row rowCount, k = r.setZero row rowCount ∧ row + rowCount ≤ r.batch.size ∧
      ∀ x, row ≤ x → x < row + rowCount →
        lastEndIdx ≤ x ∧ ∀ g ∈ segs, ¬ (g.start ≤ x ∧ x < g.stop) := by
  induction segs generalizing lastEndIdx with
  | nil =>
      rw [bounds_nil, SgmvRun.setZeros] at hk
      split at hk
      · obtain rfl := List.mem_singleton.mp hk
        exact ⟨_, _, rfl, by omega, fun x hx _ => ⟨hx, fun _ hg => by cases hg⟩⟩
      · cases hk
      · intro start stop rest heq
        cases heq
  | cons g segs ih =>
      obtain ⟨hfirst, hrest⟩ := List.forall_mem_cons.mp hfits
      obtain ⟨hbefore, hordered⟩ := List.pairwise_cons.mp hordered
      rw [bounds_cons, SgmvRun.setZeros] at hk
      rcases List.mem_append.mp hk with hk | hk
      · split at hk
        · obtain rfl := List.mem_singleton.mp hk
          refine ⟨_, _, rfl, by omega, fun x hx hlt => ⟨hx, ?_⟩⟩
          intro g' hg' hin
          rcases List.mem_cons.mp hg' with rfl | hg'
          · omega
          · have hafter := hbefore g' hg'
            omega
        · cases hk
      · obtain ⟨row, rowCount, rfl, hcount, hrows⟩ := ih hordered
          (fun g' hg' => ⟨hbefore g' hg', (hrest g' hg').2⟩) hfirst.2.2 hk
        refine ⟨row, rowCount, rfl, hcount, fun x hx hlt => ?_⟩
        obtain ⟨hstop, hnot⟩ := hrows x hx hlt
        refine ⟨by omega, ?_⟩
        intro g' hg' hin
        rcases List.mem_cons.mp hg' with rfl | hg'
        · omega
        · exact hnot g' hg' hin

omit h in
/-- Every row between the segments is set to zero. -/
theorem exists_setZero {segs : List Segment} {lastEndIdx : Nat}
    (hordered : segs.Pairwise fun g g' => g.stop ≤ g'.start)
    {x : Nat} (hstart : lastEndIdx ≤ x) (hx : x < r.batch.size)
    (hnot : ∀ g ∈ segs, ¬ (g.start ≤ x ∧ x < g.stop)) :
    ∃ row rowCount, r.setZero (R := R) row rowCount ∈ r.setZeros lastEndIdx (bounds segs) ∧
      row ≤ x ∧ x < row + rowCount := by
  induction segs generalizing lastEndIdx with
  | nil =>
      refine ⟨lastEndIdx, r.batch.size - lastEndIdx, ?_, hstart, by omega⟩
      rw [bounds_nil, SgmvRun.setZeros, if_pos (by omega)]
      · exact List.mem_singleton_self _
      · intro start stop rest heq
        cases heq
  | cons g segs ih =>
      obtain ⟨hfirst, hrest⟩ := List.forall_mem_cons.mp hnot
      rw [bounds_cons]
      rcases Nat.lt_or_ge x g.start with hlt | hge
      · refine ⟨lastEndIdx, g.start - lastEndIdx, ?_, hstart, by omega⟩
        rw [SgmvRun.setZeros, if_pos (by omega)]
        exact List.mem_append_left _ (List.mem_singleton_self _)
      · obtain ⟨row, rowCount, hmem, hin⟩ :=
          ih (List.pairwise_cons.mp hordered).2 (show g.stop ≤ x by omega) hrest
        refine ⟨row, rowCount, ?_, hin⟩
        rw [SgmvRun.setZeros]
        exact List.mem_append_right _ hmem

/-- A batch with a row to set to zero is one of the decode phase. -/
theorem size_eq_rows : r.batch.size = r.batch.rows ∨ r.tables.needSetZero = false := by
  cases hcontext : r.batch.isContext with
  | false =>
      left
      rw [Batch.rows, h.served.decode hcontext, Nat.mul_one]
  | true =>
      right
      obtain ⟨only, honly⟩ := List.length_eq_one_iff.mp (h.served.context hcontext)
      obtain ⟨name, hname, hne⟩ := h.served.hasLora
      rw [honly] at hname
      obtain rfl := List.mem_singleton.mp hname
      have hzeros := h.noted.zeros
      rw [honly] at hzeros
      rw [Bool.eq_false_iff]
      intro hset
      exact hne (List.mem_singleton.mp (hzeros.mp hset)).symm

omit [NonUnitalNonAssocSemiring R] in
theorem segs_fit (hsize : r.batch.size = r.batch.rows) :
    ∀ g ∈ segs, 0 ≤ g.start ∧ g.start ≤ g.stop ∧ g.stop ≤ r.batch.size := by
  intro g hg
  rw [hsize]
  exact ⟨Nat.zero_le _, (h.segmented.fits g hg).1, h.stop_le hg⟩

/-- What the kernels that set rows to zero are. -/
theorem kernelsZero_cases {k : Kernel R r.op.typeSize} (hk : k ∈ r.kernelsZero) :
    ∃ row rowCount, k = r.setZero row rowCount ∧ row + rowCount ≤ r.batch.rows ∧
      ∀ x, row ≤ x → x < row + rowCount → ∀ g ∈ segs, ¬ (g.start ≤ x ∧ x < g.stop) := by
  unfold SgmvRun.kernelsZero at hk
  cases hset : r.tables.needSetZero with
  | false =>
      rw [hset] at hk
      cases hk
  | true =>
      rw [hset, if_pos rfl, h.bounds_eq] at hk
      have hsize := h.size_eq_rows.resolve_right (by rw [hset]; exact Bool.noConfusion)
      obtain ⟨row, rowCount, hzero, hcount, hrows⟩ :=
        mem_setZeros h.segmented.ordered (h.segs_fit hsize) (Nat.zero_le _) hk
      rw [hsize] at hcount
      exact ⟨row, rowCount, hzero, hcount, fun x hx hlt => (hrows x hx hlt).2⟩

theorem kernelsZero_inside {k : Kernel R r.op.typeSize} (hk : k ∈ r.kernelsZero) : k.Inside := by
  obtain ⟨row, rowCount, rfl, hcount, _⟩ := h.kernelsZero_cases hk
  refine ⟨?_, fun _ hb => by cases hb⟩
  apply rowBlock_within row (row + rowCount) 0 (w := r.tables.outFeatures)
  · change r.env.output + row * r.tables.outFeatures * r.op.typeSize = _
    ring
  · exact (Nat.add_sub_cancel_left _ _).symm
  · exact hcount
  · exact Nat.le_refl _
  · exact Nat.le_of_eq (Nat.zero_add _)

omit [NonUnitalNonAssocSemiring R] h in
/-- An entry of some rows of the output. -/
theorem setZero_addr (row i j : Nat) : MatrixRef.addr r.op.typeSize
    ⟨r.env.output + row * r.tables.outFeatures * r.op.typeSize, r.tables.outFeatures, r.output⟩
      i j = r.env.output + r.op.typeSize * ((row + i) * r.tables.outFeatures + j) := by
  rw [MatrixRef.addr]
  ring

/-- The rows of the segments are not set to zero. -/
theorem runAll_kernelsZero_of_segment (hg : g ∈ segs) {row col : Nat}
    (hrow : g.start ≤ row ∧ row < g.stop) (hcol : col < d) :
    Kernel.runAll r.kernelsZero mem (r.env.output + r.op.typeSize * (row * d + col)) =
      mem (r.env.output + r.op.typeSize * (row * d + col)) := by
  apply Kernel.runAll_of_notMem
  rintro ⟨k, hk, i, hi, j, hj, heq⟩
  obtain ⟨first, rowCount, rfl, hcount, hnot⟩ := h.kernelsZero_cases hk
  have hj : j < d := by
    rw [← h.outFeatures]
    exact hj
  have heq : r.env.output + r.op.typeSize * ((first + i) * d + j) =
      r.env.output + r.op.typeSize * (row * d + col) := by
    rw [← h.outFeatures] at heq ⊢
    exact (setZero_addr first i j).symm.trans heq
  have hentry := Nat.eq_of_mul_eq_mul_left h.served.typeSize (Nat.add_left_cancel heq)
  obtain ⟨rfl, _⟩ := stride_unique hj hcol hentry
  exact hnot _ (Nat.le_add_right _ _) (Nat.add_lt_add_left hi _) g hg hrow

/-- The other rows are. -/
theorem runAll_kernelsZero_plain {row col : Nat} (hrow : row < r.batch.rows) (hcol : col < d)
    (hplain : r.batch.rowName row = "") :
    Kernel.runAll r.kernelsZero mem (r.env.output + r.op.typeSize * (row * d + col)) = 0 := by
  have hnamed := Batch.rowName_eq (h.rows ▸ hrow)
  rw [hplain] at hnamed
  have hnot : ∀ g ∈ segs, ¬ (g.start ≤ row ∧ row < g.stop) := by
    intro g hg hin
    exact h.name_ne hg ((h.rowName_eq hg hin).symm.trans hplain)
  have hset : r.tables.needSetZero = true := by
    rw [h.noted.zeros]
    have hmem := List.mem_of_getElem? hnamed
    unfold Batch.rowNames at hmem
    split at hmem
    case isTrue hcontext =>
        obtain ⟨only, honly⟩ := List.length_eq_one_iff.mp (h.served.context hcontext)
        rw [honly] at hmem ⊢
        rw [(List.mem_replicate.mp hmem).2]
        exact List.mem_singleton_self _
    case isFalse => exact hmem
  have hsize := h.size_eq_rows.resolve_right (by rw [hset]; exact Bool.noConfusion)
  have hzeros : r.kernelsZero (R := R) = r.setZeros 0 (bounds segs) := by
    rw [SgmvRun.kernelsZero, hset, if_pos rfl, h.bounds_eq]
  obtain ⟨first, rowCount, hmem, hle, hlt⟩ := exists_setZero (R := R) (r := r)
    h.segmented.ordered (Nat.zero_le row) (hsize ▸ hrow) hnot
  rw [← hzeros] at hmem
  apply Kernel.runAll_of_mem
  · intro k hk b hb
    obtain ⟨_, _, rfl, _⟩ := h.kernelsZero_cases hk
    cases hb
  · refine ⟨_, hmem, row - first, ?_, col, ?_, ?_⟩
    · change row - first < rowCount
      omega
    · change col < r.tables.outFeatures
      rw [h.outFeatures]
      exact hcol
    · refine (setZero_addr first (row - first) col).trans ?_
      rw [h.outFeatures, Nat.add_sub_cancel' hle]
  · intro k hk i _ j _ _
    obtain ⟨_, _, rfl, _⟩ := h.kernelsZero_cases hk
    rfl

end Zeros

section Rows

omit [NonUnitalNonAssocSemiring R] in
/-- The stores before the last products leave `lora_B` alone. -/
theorem tensorB_kept (hsep : Separate r) (hg : g ∈ segs) {kernels : List (Kernel R r.op.typeSize)}
    (htargets : ∀ k ∈ kernels, k.target.Within r.op.typeSize r.workspace) {l col : Nat}
    (hl : l < (r.tensorB m g).rows) (hcol : col < d) :
    Kernel.runAll kernels mem ((r.tensorB m g).dataPtr + r.op.typeSize * (l * d + col)) =
      mem ((r.tensorB m g).dataPtr + r.op.typeSize * (l * d + col)) := by
  apply Kernel.runAll_of_notMem
  have hwithin := h.tensorB_within hg 0 (Nat.le_of_eq (Nat.zero_add d))
  have hmiss := Kernel.notMem_targets h.served.typeSize hwithin htargets
    (h.tensorB_apart hg hsep).1 hl hcol
  rw [MatrixRef.addr_eq rfl, Nat.zero_add] at hmiss
  exact hmiss

theorem kernelsA_workspace {k : Kernel R r.op.typeSize} (hk : k ∈ r.kernelsA) :
    k.target.Within r.op.typeSize r.workspace :=
  (h.kernelsA_target hk).mono (Nat.le_refl _) r.temp_within

omit h in
private theorem row_entry {row start col : Nat} (hrow : start ≤ row) :
    d * start + ((row - start) * d + col) = row * d + col := by
  rw [Nat.sub_mul, Nat.mul_comm d start, ← Nat.add_assoc,
    Nat.add_sub_cancel' (Nat.mul_le_mul_right d hrow)]

/-- A row of a segment, away from attention layers. -/
theorem runAll_plainLayer (hsep : Separate r) (hself : r.op.isAttentionSelf = false)
    (hg : g ∈ segs) {row col : Nat} (hrow : g.start ≤ row ∧ row < g.stop) (hcol : col < d) :
    Kernel.runAll r.kernelsB (Kernel.runAll r.kernelsA mem)
        (r.env.output + r.op.typeSize * (row * d + col)) =
      loraProduct r.op r.env (r.tensorA m g) (r.tensorB m g) mem row col := by
  have hi : row - g.start < g.stop - g.start := by omega
  rw [← row_entry hrow.1, h.runAll_kernelsB hself hsep hg hi hcol, loraProduct]
  apply Finset.sum_congr rfl
  intro l hl
  have hl : l < (r.tensorB m g).rows := Finset.mem_range.mp hl
  have hlA : l < (r.tensorA m g).cols := by
    rw [h.colsA_plain hg hself]
    exact hl
  have hcolumnA : r.op.columnA (r.tensorB m g).rows col = 0 := by
    rw [SgmvOp.columnA, hself]
    rfl
  rw [h.runAll_kernelsA hsep hg hi hlA, h.rowsA hg, h.colsB hg, hcolumnA,
    Nat.add_sub_cancel' hrow.1,
    h.tensorB_kept hsep hg (fun k hk => h.kernelsA_workspace hk) hl hcol, Nat.zero_add]

omit [NonUnitalNonAssocSemiring R] in
/-- The part of a column and its place there. -/
theorem exists_part (hself : r.op.isAttentionSelf = true) {col : Nat} (hcol : col < d) :
    r.op.qkvIdx col < 3 ∧ ∃ j < r.op.qkvWeightDims.getD (r.op.qkvIdx col) 0,
      col = r.op.partStart (r.op.qkvIdx col) + j := by
  obtain ⟨q, kv, hdims, hd⟩ := h.served.parts hself
  have h1 : r.op.partStart 1 = q := by simp [SgmvOp.partStart, hdims]
  have h2 : r.op.partStart 2 = q + kv := by simp [SgmvOp.partStart, hdims]
  unfold SgmvOp.qkvIdx
  rw [h1, h2]
  split
  case isTrue hq =>
      refine ⟨by omega, col, ?_, ?_⟩
      · simpa [hdims] using hq
      · simp [SgmvOp.partStart]
  case isFalse hq =>
      split
      case isTrue hk =>
          refine ⟨by omega, col - q, ?_, ?_⟩
          · simp only [hdims, List.getD_cons_succ, List.getD_cons_zero]
            omega
          · rw [h1]
            omega
      case isFalse hk =>
          refine ⟨by omega, col - (q + kv), ?_, ?_⟩
          · simp only [hdims, List.getD_cons_succ, List.getD_cons_zero]
            omega
          · rw [h2]
            omega

/-- A row of a segment in an attention layer. -/
theorem runAll_attentionLayer (hsep : Separate r) (hself : r.op.isAttentionSelf = true)
    (hcolumns : RightColumns m segs r) (hg : g ∈ segs) {row col : Nat}
    (hrow : g.start ≤ row ∧ row < g.stop) (hcol : col < d) :
    Kernel.runAll r.kernelsQkv (Kernel.runAll r.kernelsSplit (Kernel.runAll r.kernelsA mem))
        (r.env.output + r.op.typeSize * (row * d + col)) =
      loraProduct r.op r.env (r.tensorA m g) (r.tensorB m g) mem row col := by
  have hi : row - g.start < g.stop - g.start := by omega
  obtain ⟨hq, j, hj, hpart⟩ := h.exists_part hself hcol
  have hvalue := h.runAll_kernelsQkv hself (Kernel.runAll r.kernelsSplit
    (Kernel.runAll r.kernelsA mem)) hsep hcolumns hg hq hi hj
  rw [← hpart, row_entry hrow.1] at hvalue
  rw [hvalue, loraProduct]
  apply Finset.sum_congr rfl
  intro l hl
  have hl : l < (r.tensorB m g).rows := Finset.mem_range.mp hl
  have hlA : r.op.qkvIdx col * (r.tensorB m g).rows + l < (r.tensorA m g).cols := by
    rw [h.colsA_self hg hself]
    calc r.op.qkvIdx col * (r.tensorB m g).rows + l
        < (r.op.qkvIdx col + 1) * (r.tensorB m g).rows := by
          rw [Nat.succ_mul]
          omega
      _ ≤ 3 * (r.tensorB m g).rows := Nat.mul_le_mul_right _ hq
  have hcolumnA : r.op.columnA (r.tensorB m g).rows col =
      r.op.qkvIdx col * (r.tensorB m g).rows := by
    rw [SgmvOp.columnA, hself]
    rfl
  rw [h.runAll_kernelsSplit hsep hself hg hq hi hl, h.runAll_kernelsA hsep hg hi hlA, h.rowsA hg,
    h.colsB hg, hcolumnA, Nat.add_sub_cancel' hrow.1,
    h.tensorB_kept hsep hg (fun k hk => (h.kernelsSplit_target hsep hself hk).1) hl hcol,
    h.tensorB_kept hsep hg (fun k hk => h.kernelsA_workspace hk) hl hcol]

end Rows

end Phases

end Prepared

/-- Some LoRA of the batch has a rank below 8. -/
def Batch.HasSmallRank (op : SgmvOp) (m : LoraManager) (batch : Batch) : Prop :=
  ∃ name ∈ batch.loraNames, name ≠ "" ∧ (op.weights m name).2.rows < 8

instance (op : SgmvOp) (m : LoraManager) (batch : Batch) : Decidable (batch.HasSmallRank op m) :=
  inferInstanceAs (Decidable (∃ _ ∈ _, _))

/-- The doubled offset has nothing to spoil: there are no value columns, or no ranks. -/
def Batch.NoValues (op : SgmvOp) (m : LoraManager) (batch : Batch) : Prop :=
  op.qkvWeightDims.getD 2 0 = 0 ∨
    ∀ name ∈ batch.loraNames, name ≠ "" → (op.weights m name).2.rows = 0

instance (op : SgmvOp) (m : LoraManager) (batch : Batch) : Decidable (batch.NoValues op m) :=
  inferInstanceAs (Decidable (_ ∨ ∀ _ ∈ _, _))

namespace Prepared

variable {r : SgmvRun} {m : LoraManager} {d : Nat} {segs : List Segment}
variable {R : Type} [NonUnitalNonAssocSemiring R]
variable (h : Prepared m d segs r)

include h

theorem rightColumns (hself : r.op.isAttentionSelf = true)
    (hvalues : r.tables.useCublas = true → r.batch.NoValues r.op m) : RightColumns m segs r := by
  intro g hg hrank qkvIdx hq hcols
  unfold SgmvRun.columnsB
  split
  case isFalse => rfl
  case isTrue hcublas =>
      rcases hvalues hcublas with hnone | hzero
      · obtain ⟨q, kv, hdims, _⟩ := h.served.parts hself
        rw [hdims] at hnone hcols
        unfold SgmvOp.partStart
        interval_cases qkvIdx
        · rfl
        · simp only [List.getD_cons_succ, List.getD_cons_zero] at hnone hcols
          omega
        · simp only [List.getD_cons_succ, List.getD_cons_zero] at hnone hcols
          omega
      · have hrank0 : (r.tensorB m g).rows = 0 := hzero g.name (h.mem g hg) (h.name_ne hg)
        omega

/-- The value columns of `lora_B` end where the tensor does; with its start added
twice the pointer runs past it. -/
theorem not_inside (hself : r.op.isAttentionSelf = true) (hcublas : r.tables.useCublas = true)
    (hvalues : ¬ r.batch.NoValues r.op m) :
    ∃ k ∈ (r.kernelsQkv : List (Kernel R r.op.typeSize)), ¬ k.Inside := by
  unfold Batch.NoValues at hvalues
  push Not at hvalues
  obtain ⟨hcols, name, hname, hne, hrank⟩ := hvalues
  obtain ⟨g, hg, rfl⟩ := h.met name hname hne
  obtain ⟨q, kv, hdims, hd⟩ := h.served.parts hself
  rw [hdims] at hcols
  simp only [List.getD_cons_succ, List.getD_cons_zero] at hcols
  refine ⟨r.product (r.problemQkv m g 2) r.workspace (r.extent (r.tensorB m g)) r.output, ?_, ?_⟩
  · rw [h.kernelsQkv_eq hself]
    exact List.mem_map.mpr ⟨(2, g), List.mem_product.mpr ⟨by simp, hg⟩, rfl⟩
  · intro hinside
    obtain ⟨rank, hrank⟩ := Nat.exists_eq_succ_of_ne_zero hrank
    have hrank : (r.tensorB m g).rows = rank + 1 := hrank
    have hlastRow : rank < (r.tensorB m g).rows := by omega
    have hlastCol : kv - 1 < r.op.qkvWeightDims.getD 2 0 := by
      rw [hdims]
      simp only [List.getD_cons_succ, List.getD_cons_zero]
      omega
    have hblock := hinside.2 (Block.mk ⟨(r.problemQkv m g 2).ptrW, r.op.qkvSum,
      r.extent (r.tensorB m g)⟩ (r.tensorB m g).rows (r.op.qkvWeightDims.getD 2 0))
      (List.mem_cons_of_mem _ (List.mem_singleton_self _)) rank hlastRow (kv - 1) hlastCol
    have hstart : r.columnsB 2 = q + kv + (q + kv) := by
      simp [SgmvRun.columnsB, hcublas, SgmvOp.partStart, hdims]
    rw [MatrixRef.addr_eq rfl] at hblock
    have hend := hblock.2
    dsimp only [SgmvRun.extent] at hend
    rw [hstart, h.qkvSum hself, h.colsB hg, hrank, hd] at hend
    have hentries : r.op.typeSize * (q + kv + (q + kv) + (rank * (q + kv + kv) + (kv - 1)) + 1) ≤
        r.op.typeSize * ((rank + 1) * (q + kv + kv)) := by
      calc r.op.typeSize * (q + kv + (q + kv) + (rank * (q + kv + kv) + (kv - 1)) + 1)
          = r.op.typeSize * (q + kv + (q + kv) + (rank * (q + kv + kv) + (kv - 1))) +
              r.op.typeSize := Nat.mul_succ _ _
        _ ≤ (rank + 1) * (q + kv + kv) * r.op.typeSize := by omega
        _ = r.op.typeSize * ((rank + 1) * (q + kv + kv)) := Nat.mul_comm _ _
    have hle := Nat.le_of_mul_le_mul_left hentries h.served.typeSize
    rw [Nat.succ_mul] at hle
    omega

theorem forward_not_inside (hself : r.op.isAttentionSelf = true)
    (hcublas : r.tables.useCublas = true) (hvalues : ¬ r.batch.NoValues r.op m)
    {kernels : List (Kernel R r.op.typeSize)} (hforward : r.forward = some kernels) :
    ∃ k ∈ kernels, ¬ k.Inside := by
  obtain ⟨k, hk, hnot⟩ := h.not_inside (R := R) hself hcublas hvalues
  unfold SgmvRun.forward at hforward
  rw [hcublas, Bool.true_or, if_pos rfl, if_pos hself] at hforward
  obtain rfl := Option.some.inj hforward
  refine ⟨k, ?_, hnot⟩
  exact List.mem_append_left _ (List.mem_append_right _ (List.mem_append_right _ hk))

/-- The kernels of `Forward` compute what the batch asks for. -/
theorem forward_right (hsep : Separate r) (mem : Nat → R)
    (hvalues : r.op.isAttentionSelf = true → r.tables.useCublas = true →
      r.batch.NoValues r.op m)
    {kernels : List (Kernel R r.op.typeSize)} (hforward : r.forward = some kernels) :
    (∀ k ∈ kernels, k.Inside) ∧ ∀ row < r.batch.rows, ∀ col < d,
      Kernel.runAll kernels mem (r.env.output + r.op.typeSize * (row * d + col)) =
        loraOutput r.op m r.env r.batch mem row col := by
  unfold SgmvRun.forward at hforward
  split at hforward
  case isFalse => cases hforward
  case isTrue =>
      obtain rfl := Option.some.inj hforward
      constructor
      · intro k hk
        rcases List.mem_append.mp hk with hk | hk
        · rcases List.mem_append.mp hk with hk | hk
          · exact h.kernelsA_inside hk
          · split at hk
            case isTrue hself =>
                rcases List.mem_append.mp hk with hk | hk
                · exact h.kernelsSplit_inside hsep hself hk
                · exact h.kernelsQkv_inside hself hsep
                    (h.rightColumns hself (hvalues hself)) hk
            case isFalse hself => exact h.kernelsB_inside (Bool.eq_false_iff.mpr hself) hk
        · exact h.kernelsZero_inside hk
      · intro row hrow col hcol
        rw [Kernel.runAll_append, Kernel.runAll_append, loraOutput]
        by_cases hplain : r.batch.rowName row = ""
        · rw [if_pos hplain]
          exact h.runAll_kernelsZero_plain hrow hcol hplain
        · rw [if_neg hplain]
          obtain ⟨g, hg, hin⟩ := h.segmented.covered row _
            (Batch.rowName_eq (h.rows ▸ hrow)) hplain
          rw [h.runAll_kernelsZero_of_segment hg hin hcol, h.rowName_eq hg hin]
          split
          case isTrue hself =>
              rw [Kernel.runAll_append]
              exact h.runAll_attentionLayer hsep hself (h.rightColumns hself (hvalues hself)) hg
                hin hcol
          case isFalse hself =>
              exact h.runAll_plainLayer hsep (Bool.eq_false_iff.mpr hself) hg hin hcol

end Prepared

section Law

variable {op : SgmvOp} {m : LoraManager} {env : SgmvEnv} {batch : Batch} {d : Nat} {s : SgmvLora}
variable {R : Type} [NonUnitalNonAssocSemiring R] {mem : Nat → R}

/-- The batch is computed exactly when, on the cuBLAS path, an attention layer has no
value columns or no ranks, and the grouped kernels run where that path is not taken. -/
theorem appliesLora_iff (hserved : Served op m batch d)
    (hsep : Separate ((s.reshape op m batch true).1.run op m env batch)) :
    AppliesLora op m env batch s mem ↔
      if batch.HasSmallRank op m then op.isAttentionSelf = true → batch.NoValues op m
      else env.runsGrouped = true := by
  obtain ⟨hshaped, segs, h⟩ := hserved.prepared env s
  have hcublas : ((s.reshape op m batch true).1.run op m env batch).tables.useCublas = true ↔
      batch.HasSmallRank op m := h.noted.cublas
  constructor
  · rintro ⟨_, kernels, hforward, hinside, _⟩
    split
    case isTrue hsmall =>
        intro hself
        by_contra hvalues
        obtain ⟨k, hk, hnot⟩ :=
          h.forward_not_inside (R := R) hself (hcublas.mpr hsmall) hvalues hforward
        exact hnot (hinside k hk)
    case isFalse hsmall =>
        unfold SgmvRun.forward at hforward
        split at hforward
        case isFalse => cases hforward
        case isTrue hruns =>
            rcases Bool.or_eq_true_iff.mp hruns with hused | hgrouped
            · exact absurd (hcublas.mp hused) hsmall
            · exact hgrouped
  · intro hcondition
    have hruns : (((s.reshape op m batch true).1.run op m env batch).tables.useCublas ||
        env.runsGrouped) = true := by
      split at hcondition
      case isTrue hsmall => rw [hcublas.mpr hsmall, Bool.true_or]
      case isFalse => rw [hcondition, Bool.or_true]
    have hvalues : op.isAttentionSelf = true →
        ((s.reshape op m batch true).1.run op m env batch).tables.useCublas = true →
          batch.NoValues op m := by
      intro hself hused
      rw [if_pos (hcublas.mp hused)] at hcondition
      exact hcondition hself
    have hforward : ∃ kernels, ((s.reshape op m batch true).1.run op m env batch).forward
        (R := R) = some kernels := by
      unfold SgmvRun.forward
      exact ⟨_, if_pos hruns⟩
    obtain ⟨kernels, hkernels⟩ := hforward
    obtain ⟨hinside, hright⟩ := h.forward_right hsep mem hvalues hkernels
    refine ⟨hshaped, kernels, hkernels, hinside, ?_⟩
    rw [h.outFeatures]
    exact hright

end Law

section Example

/-- An attention layer with one column to a part, and a LoRA of this rank. -/
def oneColumnOp : SgmvOp where
  opName := "attention.self"
  inFeatures := 1
  isAttentionSelf := true
  qkvWeightDims := [1, 1, 1]
  typeSize := 2

def oneColumnLora (rank : Nat) : LoraManager where
  loraMaxNum := 1
  loras := [("lora", [("attention.self.lora_A.weight", ⟨1024, 1, rank * 3⟩),
    ("attention.self.lora_B.weight", ⟨2048, rank, 3⟩)])]

def twoRequests : Batch where
  isContext := false
  loraNames := ["", "lora"]
  seqLen := 1

def sgmvEnv : SgmvEnv where
  input := 256
  output := 512
  workspace := 4096
  halfType := true
  CC := 80

theorem oneColumnLora_served (rank : Nat) :
    Served oneColumnOp (oneColumnLora rank) twoRequests 3 where
  multiplies := by
    intro name hname
    rcases List.mem_cons.mp hname with rfl | hname
    · exact Or.inl rfl
    · obtain rfl := List.mem_singleton.mp hname
      exact Or.inr ⟨⟨1024, 1, rank * 3⟩, ⟨2048, rank, 3⟩, rfl, rfl, rfl, rfl, rfl, rfl, rfl⟩
  hasLora := ⟨"lora", by decide, by decide⟩
  context := fun h => Bool.noConfusion h
  decode := fun _ => rfl
  typeSize := by decide
  parts := fun _ => ⟨1, 1, rfl, rfl⟩

theorem oneColumnLora_separate :
    Separate (((⟨.cleared, .cleared⟩ : SgmvLora).reshape oneColumnOp (oneColumnLora 8) twoRequests
      true).1.run oneColumnOp (oneColumnLora 8) sgmvEnv twoRequests) where
  aligned := by decide
  workspace_input := by decide +kernel
  output_input := by decide +kernel
  output_workspace := by decide +kernel
  weights := by decide +kernel

/-- A rank of 8 takes the grouped path. -/
theorem appliesLora_iff_grouped : AppliesLora oneColumnOp (oneColumnLora 8) sgmvEnv twoRequests
    ⟨.cleared, .cleared⟩ (fun a => (a : Int)) :=
  (appliesLora_iff (oneColumnLora_served 8) oneColumnLora_separate).mpr (by decide +kernel)

/-- A rank of 1 takes the cuBLAS path, which reads the value column of `lora_B` from
behind its end. -/
theorem value_column_behind_loraB : ¬ AppliesLora oneColumnOp (oneColumnLora 1) sgmvEnv twoRequests
    ⟨.cleared, .cleared⟩ (fun a => (a : Int)) := by
  rintro ⟨_, kernels, hforward, hinside, _⟩
  obtain ⟨_, segs, h⟩ := (oneColumnLora_served 1).prepared sgmvEnv ⟨.cleared, .cleared⟩
  have hvalues : ¬ twoRequests.NoValues oneColumnOp (oneColumnLora 1) := by decide +kernel
  obtain ⟨k, hk, hnot⟩ := h.forward_not_inside rfl (by decide +kernel) hvalues hforward
  exact hnot (hinside k hk)

end Example

end DashInfer.Lora
