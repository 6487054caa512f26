import DashInfer.Weight.Stack

/-!
BATCH_VSPLIT and BATCH_KVSPLIT divide the columns of every expert; the second
mode's rows hold a key and a value matrix side by side.
-/

namespace DashInfer.Weight

open DashInfer.Lib

/-- The copies run through the host branch of `CopyMatrix2D`. -/
def Placement.OnHost (place : Placement) : Prop := place.dst = .cpu ∧ place.src = .cpu

instance (place : Placement) : Decidable place.OnHost :=
  inferInstanceAs (Decidable (_ ∧ _))

/-- The bytes of a row one copy moves: the host branch moves the whole row of
the shard. -/
def Placement.copyLen (place : Placement) (cnt width : Nat) : Nat :=
  if place.OnHost then cnt * width else width

theorem copyMatrix2D_eq (place : Placement) {dst src : List UInt8}
    {dstOffset srcOffset cnt width srcStride height : Nat} (hcnt : 0 < cnt) :
    copyMatrix2D dst dstOffset src srcOffset place.dst place.src (cnt * width) srcStride height
        (cnt * width / cnt) =
      memcpyRows dst src ((List.range height).map fun i =>
        ⟨dstOffset + i * (cnt * width), srcOffset + i * srcStride,
          place.copyLen cnt width⟩) := by
  have hwidth : cnt * width / cnt = width := Nat.mul_div_cancel_left width hcnt
  have hlen : (if place.src = .cuda ∨ place.dst = .cuda then cnt * width / cnt
      else cnt * width) = place.copyLen cnt width := by
    rw [hwidth]
    obtain ⟨d, s⟩ := place
    cases d <;> cases s <;> rfl
  rw [copyMatrix2D, hlen]

section Columns

variable {s : Stack} {cnt ranks r k : Nat} {whole : AsTensor} {place : Placement}

/-- The indices of one expert stay in range with those of the last one. -/
theorem index_lt (hfits : s.IndexFits cnt) (hw : s.width = cnt * (ranks * k)) (hcnt : 0 < cnt)
    {x j : Nat} (hx : x < s.batch) (hj : j < cnt) :
    x * s.height < 2 ^ 31 ∧
      x * s.height * (ranks * k) * cnt + j * (ranks * k) < 2 ^ 31 := by
  obtain hzero | ⟨hrows, helems⟩ := hfits
  · omega
  have hx1 : x ≤ s.batch - 1 := by omega
  have hrow : x * s.height ≤ (s.batch - 1) * s.height := Nat.mul_le_mul_right _ hx1
  have hsub : s.width / cnt = ranks * k := by rw [hw, Nat.mul_div_cancel_left _ hcnt]
  refine ⟨lt_of_le_of_lt hrow hrows, lt_of_le_of_lt ?_ helems⟩
  rw [hsub, hw]
  have hcols : j * (ranks * k) ≤ (cnt - 1) * (ranks * k) := Nat.mul_le_mul_right _ (by omega)
  calc x * s.height * (ranks * k) * cnt + j * (ranks * k)
      = x * s.height * (cnt * (ranks * k)) + j * (ranks * k) := by ring
    _ ≤ (s.batch - 1) * s.height * (cnt * (ranks * k)) + (cnt - 1) * (ranks * k) :=
        Nat.add_le_add (Nat.mul_le_mul_right _ hrow) hcols

/-- One copy of an expert whose indices stay in range. -/
theorem copySubGemm_eq (hs : s.Sized (sizeofType whole.dtype)) (hfits : s.IndexFits cnt)
    (hw : s.width = cnt * (ranks * k)) (hcnt : 0 < cnt) (hr : r < ranks)
    (hshape : whole.shape = s.shape) {dst : AsTensor} (hdst : dst.shape = s.shapeOf (cnt * k))
    (hdtype : dst.dtype = whole.dtype) {x j : Nat} (hx : x < s.batch) (hj : j < cnt) :
    BatchColumns.copySubGemm place ⟨r, ranks⟩ whole cnt ((ranks * k : Nat) : Int)
        (s.height : Int) dst (x, j) =
      (memcpyRows dst.data whole.data
        (subRows s cnt ranks r k (sizeofType whole.dtype)
          (place.copyLen cnt (k * sizeofType whole.dtype)) (x, j))).map
        fun data => { dst with data := data } := by
  obtain ⟨hrow, hbase⟩ := index_lt hfits hw hcnt hx hj
  have hranks : 0 < ranks := by omega
  have hsize := sizeofType_le whole.dtype
  have hwidth := hs.width_lt
  have hkr : k ≤ ranks * k := Nat.le_mul_of_pos_left k hranks
  have hsubw : ranks * k ≤ s.width := hw ▸ Nat.le_mul_of_pos_left _ hcnt
  have hrk : r * k + k ≤ ranks * k := by
    calc r * k + k = (r + 1) * k := (Nat.succ_mul _ _).symm
      _ ≤ ranks * k := Nat.mul_le_mul_right _ hr
  have hckw : cnt * k ≤ s.width := hw ▸ Nat.mul_le_mul_left _ hkr
  have hstride := stride_shapeOf hdst (by omega)
  have hwstride : whole.getStrideInByte = s.width * sizeofType whole.dtype :=
    stride_shapeOf hshape hwidth
  rw [hdtype] at hstride
  have hdiv : ranks * k / ranks = k := Nat.mul_div_cancel_left k hranks
  have hsub : j * (ranks * k) ≤ x * s.height * (ranks * k) * cnt + j * (ranks * k) := by omega
  have helem : x * s.height * (ranks * k) ≤ x * s.height * (ranks * k) * cnt :=
    Nat.le_mul_of_pos_right _ hcnt
  have hdstIdx : x * s.height * k * cnt + j * k ≤
      x * s.height * (ranks * k) * cnt + j * (ranks * k) :=
    Nat.add_le_add (Nat.mul_le_mul_right _ (Nat.mul_le_mul_left _ hkr))
      (Nat.mul_le_mul_left _ hkr)
  have hbytes : ∀ {m}, m < 2 ^ 32 → m * sizeofType whole.dtype < 2 ^ 64 := fun {m} hm => by
    calc m * sizeofType whole.dtype ≤ m * 8 := Nat.mul_le_mul_left _ hsize
      _ < 2 ^ 64 := by omega
  have h1 : (x : Int) * (s.height : Int) = ((x * s.height : Nat) : Int) :=
    (Nat.cast_mul _ _).symm
  have h2 : ((x * s.height : Nat) : Int) * ((ranks * k : Nat) : Int) =
      ((x * s.height * (ranks * k) : Nat) : Int) := (Nat.cast_mul _ _).symm
  have h3 : ((x * s.height * (ranks * k) : Nat) : Int) * (cnt : Int) =
      ((x * s.height * (ranks * k) * cnt : Nat) : Int) := (Nat.cast_mul _ _).symm
  have h4 : (j : Int) * ((ranks * k : Nat) : Int) = ((j * (ranks * k) : Nat) : Int) :=
    (Nat.cast_mul _ _).symm
  have h5 : ((x * s.height * (ranks * k) * cnt : Nat) : Int) + ((j * (ranks * k) : Nat) : Int) =
      ((x * s.height * (ranks * k) * cnt + j * (ranks * k) : Nat) : Int) :=
    (Nat.cast_add _ _).symm
  have h6 : ((x * s.height : Nat) : Int) * (k : Int) * (cnt : Int) + (j : Int) * (k : Int) =
      ((x * s.height * k * cnt + j * k : Nat) : Int) := by
    push_cast
    ring
  have hcomm : k * r = r * k := Nat.mul_comm k r
  have h7 : sizeT ((k : Int) * (r : Int)) = r * k := by
    rw [sizeT_mul (by omega), hcomm]
  have h8 : sizeT (((x * s.height : Nat) : Int) * (k : Int) * (cnt : Int) + (j : Int) * (k : Int)) =
      x * s.height * k * cnt + j * k := by
    rw [h6, sizeT_natCast (by omega)]
  have h9 : sizeT (s.height : Int) = s.height :=
    sizeT_natCast (lt_trans hs.height_lt (by norm_num))
  have h10 : sizeT (((x * s.height * k * cnt + j * k : Nat) : Int) *
      (sizeofType whole.dtype : Int)) =
      (x * s.height * k * cnt + j * k) * sizeofType whole.dtype := sizeT_mul (hbytes (by omega))
  have h11 : sizeT (((x * s.height * (ranks * k) * cnt + j * (ranks * k) + r * k : Nat) : Int) *
      (sizeofType whole.dtype : Int)) =
      (x * s.height * (ranks * k) * cnt + j * (ranks * k) + r * k) * sizeofType whole.dtype :=
    sizeT_mul (hbytes (by omega))
  simp only [BatchColumns.copySubGemm]
  rw [h1, cint_natCast hrow, ok_bind, h2, cint_natCast (by omega), ok_bind, h3,
    cint_natCast (by omega), ok_bind, h4, cint_natCast (by omega), ok_bind, h5,
    cint_natCast hbase, ok_bind, sizeT_quot (by omega), hdiv, h7,
    sizeT_add (by omega), h8, h9, h10, h11, hstride, hwstride,
    Nat.mul_assoc cnt k, copyMatrix2D_eq place hcnt]
  have hrows : ((List.range s.height).map fun i =>
      (⟨(x * s.height * k * cnt + j * k) * sizeofType whole.dtype +
          i * (cnt * (k * sizeofType whole.dtype)),
        (x * s.height * (ranks * k) * cnt + j * (ranks * k) + r * k) * sizeofType whole.dtype +
          i * (s.width * sizeofType whole.dtype),
        place.copyLen cnt (k * sizeofType whole.dtype)⟩ : Region)) =
      subRows s cnt ranks r k (sizeofType whole.dtype)
        (place.copyLen cnt (k * sizeofType whole.dtype)) (x, j) := by
    refine List.map_congr_left fun i _ => ?_
    rw [hw]
    simp only [Region.mk.injEq, and_true]
    constructor <;> ring
  rw [hrows]
  rfl

/-- The bytes the two branches copy of a row agree. -/
theorem subRows_copyLen {idx : Nat × Nat} {size : Nat}
    (hlen : place.OnHost → cnt = 1 ∨ s.rows * (s.width * size) = 0)
    (hw : s.width = cnt * (ranks * k)) (hcnt : 0 < cnt) (hranks : 0 < ranks)
    (hidx : idx.1 < s.batch) :
    subRows s cnt ranks r k size (place.copyLen cnt (k * size)) idx =
      subRows s cnt ranks r k size (k * size) idx := by
  rw [Placement.copyLen]
  split
  case isFalse => rfl
  case isTrue hhost =>
      rcases hlen hhost with rfl | hzero
      · rw [Nat.one_mul]
      · rw [hw, Stack.rows] at hzero
        rcases Nat.mul_eq_zero.mp hzero with hrows | hbytes
        · have hheight : s.height = 0 := by
            rcases Nat.mul_eq_zero.mp hrows with h | h
            · omega
            · exact h
          rw [subRows, subRows, hheight]
          rfl
        · have hks : k * size = 0 := by
            rcases Nat.mul_eq_zero.mp hbytes with h | h
            · have hk : k = 0 := by
                rcases Nat.mul_eq_zero.mp h with h | h
                · omega
                · rcases Nat.mul_eq_zero.mp h with h | h
                  · omega
                  · exact h
              rw [hk, Nat.zero_mul]
            · rw [h, Nat.mul_zero]
          rw [hks, Nat.mul_zero]

theorem mem_indices {batch : Nat} {idx : Nat × Nat} :
    idx ∈ BatchColumns.indices batch cnt ↔ idx.1 < batch ∧ idx.2 < cnt := by
  obtain ⟨x, j⟩ := idx
  simp [BatchColumns.indices]

/-- Within range, and where the copied width is the one asked for, the copies
fill the part of a rank. -/
theorem exists_batchColumns (hs : s.Sized (sizeofType whole.dtype)) (hfits : s.IndexFits cnt)
    (hlen : place.OnHost → cnt = 1 ∨ s.rows * (s.width * sizeofType whole.dtype) = 0)
    (hw : s.width = cnt * (ranks * k)) (hcnt : 0 < cnt) (hr : r < ranks)
    (hshape : whole.shape = s.shape)
    (hdata : whole.data.length = s.rows * (s.width * sizeofType whole.dtype))
    {dst : AsTensor} (hdst : dst.shape = s.shapeOf (cnt * k)) (hdtype : dst.dtype = whole.dtype)
    (hdstLen : dst.data.length = s.rows * (cnt * k * sizeofType whole.dtype)) :
    ∃ data, BatchColumns.copy place ⟨r, ranks⟩ whole dst s.batch (s.height : Int)
        (s.width : Int) cnt = .ok { dst with data := data } ∧
      data.length = dst.data.length ∧
      Filled whole.data data
        (stripRegions ⟨s.rows,
            shardPitch (List.replicate cnt ⟨k * sizeofType whole.dtype, false⟩),
            wholePitch ranks (List.replicate cnt ⟨k * sizeofType whole.dtype, false⟩)⟩
          ranks r 0 0 (List.replicate cnt ⟨k * sizeofType whole.dtype, false⟩)) := by
  have hshard : shardPitch (List.replicate cnt ⟨k * sizeofType whole.dtype, false⟩) =
      cnt * (k * sizeofType whole.dtype) := by
    rw [shardPitch, List.map_replicate, List.sum_replicate, smul_eq_mul]
  have hwhole : wholePitch ranks (List.replicate cnt ⟨k * sizeofType whole.dtype, false⟩) =
      cnt * (ranks * (k * sizeofType whole.dtype)) := by
    rw [wholePitch, List.map_replicate, List.sum_replicate, smul_eq_mul]
    rfl
  have hperm : ((BatchColumns.indices s.batch cnt).flatMap
      (subRows s cnt ranks r k (sizeofType whole.dtype) (k * sizeofType whole.dtype))).Perm
      (stripRegions ⟨s.rows,
          shardPitch (List.replicate cnt ⟨k * sizeofType whole.dtype, false⟩),
          wholePitch ranks (List.replicate cnt ⟨k * sizeofType whole.dtype, false⟩)⟩
        ranks r 0 0 (List.replicate cnt ⟨k * sizeofType whole.dtype, false⟩)) := by
    rw [hshard, hwhole]
    exact subRows_perm
  obtain ⟨data, hcopy, hsize, hfilled⟩ := exists_filled
    (List.replicate cnt ⟨k * sizeofType whole.dtype, false⟩) s.rows whole.data dst.data hr
    (by rw [hwhole, hdata, hw]; ring) (by rw [hshard, hdstLen]; ring) hperm
  refine ⟨data, ?_, hsize, hfilled⟩
  have hsub : narrow (quot (s.width : Int) (cnt : Int)) = ((ranks * k : Nat) : Int) := by
    have hdiv : s.width / cnt = ranks * k := by rw [hw, Nat.mul_div_cancel_left _ hcnt]
    have hle := Nat.div_le_self s.width cnt
    have hwidth := hs.width_lt
    rw [quot_natCast, narrow_natCast (by omega), hdiv]
  simp only [BatchColumns.copy, hsub]
  refine foldlM_regions (fun idx hidx dst hdst hdtype => ?_) hdst hdtype hcopy
  obtain ⟨hx, hj⟩ := mem_indices.mp hidx
  rw [copySubGemm_eq hs hfits hw hcnt hr hshape hdst hdtype hx hj,
    subRows_copyLen hlen hw hcnt (by omega) hx]

end Columns

/-- A fold that succeeds makes every one of its steps, from a state the steps
before have kept. -/
theorem step_of_foldlM {ι : Type} {step : AsTensor → ι → Except Fault AsTensor}
    {P : AsTensor → Prop} {l : List ι} {dst out : AsTensor}
    (hkeep : ∀ mid idx t, P mid → step mid idx = .ok t → P t) (hP : P dst)
    (h : l.foldlM step dst = .ok out) : ∀ idx ∈ l, ∃ mid t, P mid ∧ step mid idx = .ok t := by
  induction l generalizing dst with
  | nil => intro idx hidx; cases hidx
  | cons a rest ih =>
      rw [List.foldlM_cons] at h
      obtain ⟨mid, hmid, hrest⟩ := bind_eq_ok h
      intro idx hidx
      rcases List.mem_cons.mp hidx with rfl | hidx
      · exact ⟨dst, mid, hP, hmid⟩
      · exact ih (hkeep _ _ _ hP hmid) hrest idx hidx

theorem length_memcpyRows {dst src out : List UInt8} {rows : List Region}
    (h : memcpyRows dst src rows = .ok out) : out.length = dst.length := by
  rw [memcpyRows] at h
  split at h
  case h_1 data hdata =>
      obtain rfl := Except.ok.inj h
      exact length_copyRegions hdata
  case h_2 => cases h

/-- What a copy keeps of its destination. -/
def SameFrame (dst t : AsTensor) : Prop :=
  t.shape = dst.shape ∧ t.dtype = dst.dtype ∧ t.data.length = dst.data.length

section Conditions

variable {s : Stack} {cnt ranks r k : Nat} {whole dst : AsTensor} {place : Placement}

/-- A copy that succeeds has its indices in range. -/
theorem copySubGemm_ok {width height : Int} {mid t : AsTensor} {x j : Nat}
    (h : BatchColumns.copySubGemm place ⟨r, ranks⟩ whole cnt width height mid (x, j) = .ok t) :
    (x : Int) * height ≤ intMax ∧
      (x : Int) * height * width * cnt + (j : Int) * width ≤ intMax ∧ SameFrame mid t := by
  simp only [BatchColumns.copySubGemm] at h
  obtain ⟨a, ha, h⟩ := bind_eq_ok h
  obtain ⟨rfl, -, ha⟩ := cint_eq_ok ha
  obtain ⟨b, hb, h⟩ := bind_eq_ok h
  obtain ⟨rfl, -⟩ := cint_eq_ok hb
  obtain ⟨c, hc, h⟩ := bind_eq_ok h
  obtain ⟨rfl, -⟩ := cint_eq_ok hc
  obtain ⟨d, hd, h⟩ := bind_eq_ok h
  obtain ⟨rfl, -⟩ := cint_eq_ok hd
  obtain ⟨e, he, h⟩ := bind_eq_ok h
  obtain ⟨rfl, -, he⟩ := cint_eq_ok he
  obtain ⟨data, hdata, h⟩ := bind_eq_ok h
  obtain rfl := Except.ok.inj h
  exact ⟨ha, he, rfl, rfl, length_memcpyRows hdata⟩

/-- The copies of a part succeed only where the indices of the last expert
stay in range, and on the host only for a single matrix or no bytes. -/
theorem indexFits_of_copy (hs : s.Sized (sizeofType whole.dtype))
    (hw : s.width = cnt * (ranks * k)) (hcnt : 0 < cnt) (hr : r < ranks)
    (hshape : whole.shape = s.shape) (hdst : dst.shape = s.shapeOf (cnt * k))
    (hdtype : dst.dtype = whole.dtype)
    (hdstLen : dst.data.length = s.rows * (cnt * k * sizeofType whole.dtype)) {out : AsTensor}
    (h : BatchColumns.copy place ⟨r, ranks⟩ whole dst s.batch (s.height : Int) (s.width : Int)
      cnt = .ok out) :
    s.IndexFits cnt ∧
      (place.OnHost → cnt = 1 ∨ s.rows * (s.width * sizeofType whole.dtype) = 0) := by
  have hdiv : s.width / cnt = ranks * k := by rw [hw, Nat.mul_div_cancel_left _ hcnt]
  have hsub : narrow (quot (s.width : Int) (cnt : Int)) = ((ranks * k : Nat) : Int) := by
    have hle := Nat.div_le_self s.width cnt
    have hwidth := hs.width_lt
    rw [quot_natCast, narrow_natCast (by omega), hdiv]
  simp only [BatchColumns.copy, hsub] at h
  rcases Nat.eq_zero_or_pos s.batch with hb | hb
  · refine ⟨Or.inl hb, fun _ => Or.inr ?_⟩
    rw [Stack.rows, hb, Nat.zero_mul, Nat.zero_mul]
  · have hmem : (s.batch - 1, cnt - 1) ∈ BatchColumns.indices s.batch cnt :=
      mem_indices.mpr ⟨by dsimp only; omega, by dsimp only; omega⟩
    obtain ⟨mid, t, ⟨hmshape, hmdtype, hmlen⟩, hstep⟩ := step_of_foldlM (P := SameFrame dst)
      (fun mid idx t hmid hstep => by
        obtain ⟨-, -, hs, hd, hl⟩ := copySubGemm_ok (x := idx.1) (j := idx.2) hstep
        exact ⟨hs.trans hmid.1, hd.trans hmid.2.1, hl.trans hmid.2.2⟩)
      ⟨rfl, rfl, rfl⟩ h _ hmem
    obtain ⟨hrow, hlast, -⟩ := copySubGemm_ok hstep
    have hfits : s.IndexFits cnt := by
      refine Or.inr ⟨?_, ?_⟩
      · have hcast : (((s.batch - 1) * s.height : Nat) : Int) ≤ intMax := by
          push_cast
          exact hrow
        simp only [intMax] at hcast
        omega
      · have hcast : (((s.batch - 1) * s.height * s.width + (cnt - 1) * (s.width / cnt) : Nat) :
            Int) ≤ intMax := by
          rw [hdiv, hw]
          have hring : (s.batch - 1) * s.height * (cnt * (ranks * k)) + (cnt - 1) * (ranks * k) =
              (s.batch - 1) * s.height * (ranks * k) * cnt + (cnt - 1) * (ranks * k) := by ring
          rw [hring]
          push_cast at hlast ⊢
          exact hlast
        simp only [intMax] at hcast
        omega
    refine ⟨hfits, fun hhost => ?_⟩
    by_contra hne
    obtain ⟨hone, hbytes⟩ := not_or.mp hne
    have hrows : 0 < s.height := by
      by_contra h0
      refine hbytes ?_
      rw [Stack.rows, Nat.eq_zero_of_not_pos h0, Nat.mul_zero, Nat.zero_mul]
    have hks : 0 < k * sizeofType whole.dtype := by
      by_contra h0
      refine hbytes ?_
      have hring : s.rows * (cnt * (ranks * k) * sizeofType whole.dtype) =
          s.rows * (cnt * ranks) * (k * sizeofType whole.dtype) := by ring
      rw [hw, hring, Nat.eq_zero_of_not_pos h0, Nat.mul_zero]
    rw [copySubGemm_eq hs hfits hw hcnt hr hshape (hmshape.trans hdst) (hmdtype.trans hdtype)
      (by omega) (by omega)] at hstep
    obtain ⟨data, hrowsOk, -⟩ := map_eq_ok hstep
    -- the last row of the last expert
    have hlastFits := (memcpyRows_fits hrowsOk _ (List.mem_map.mpr
      ⟨s.height - 1, List.mem_range.mpr (by omega), rfl⟩)).1
    rw [hmlen, hdstLen, Placement.copyLen, if_pos hhost, Stack.rows] at hlastFits
    dsimp only at hlastFits
    have hrowAdd : (s.batch - 1) * s.height + (s.height - 1) + 1 = s.batch * s.height := by
      have hmul : (s.batch - 1) * s.height + s.height = s.batch * s.height := by
        rw [← Nat.succ_mul, Nat.succ_eq_add_one, Nat.sub_add_cancel hb]
      omega
    have hlen : s.batch * s.height * (cnt * k * sizeofType whole.dtype) =
        ((s.batch - 1) * s.height + (s.height - 1)) * (cnt * (k * sizeofType whole.dtype)) +
          cnt * (k * sizeofType whole.dtype) := by
      rw [← hrowAdd]
      ring
    have hside : 0 < (cnt - 1) * (k * sizeofType whole.dtype) :=
      Nat.mul_pos (by omega) hks
    rw [hlen] at hlastFits
    omega

end Conditions

end DashInfer.Weight

/-!
BATCH_HSPLIT divides the rows of every expert. The rows of an expert that a
rank takes follow one another, so the experts are the rows of one strip.
-/

namespace DashInfer.Weight

open DashInfer.Lib

section Rows

variable {ranks r m batch : Nat}

/-- The rows of expert `x` that rank `r` takes, of `pitch` bytes each. -/
def expertRows (ranks r m pitch x : Nat) : List Region :=
  (List.range m).map fun i =>
    ⟨x * (m * pitch) + i * pitch, x * (ranks * (m * pitch)) + r * (m * pitch) + i * pitch, pitch⟩

theorem expertRows_fits {pitch x : Nat} (hr : r < ranks) (hx : x < batch) :
    ∀ c ∈ expertRows ranks r m pitch x,
      c.Fits (batch * (m * pitch)) (batch * (ranks * (m * pitch))) := by
  intro c hc
  obtain ⟨i, hi, rfl⟩ := List.mem_map.mp hc
  have hrow : i * pitch + pitch ≤ m * pitch := row_fits (List.mem_range.mp hi) (le_refl _)
  have hrank : r * (m * pitch) + m * pitch ≤ ranks * (m * pitch) := row_fits hr (le_refl _)
  constructor
  · have hexpert := row_fits hx hrow
    dsimp only
    omega
  · have hinside : r * (m * pitch) + (i * pitch + pitch) ≤ ranks * (m * pitch) := by omega
    have hexpert := row_fits hx hinside
    dsimp only
    omega

/-- The rows of a part have disjoint targets. -/
theorem pairwise_expertRows {pitch : Nat} :
    ((List.range batch).flatMap (expertRows ranks r m pitch)).Pairwise
      fun c e => e.Apart c.dst c.len := by
  rw [List.pairwise_flatMap]
  constructor
  · intro x _
    rw [expertRows, List.pairwise_map]
    refine List.pairwise_lt_range.imp fun {i j} hij => Or.inl ?_
    have hrow := @row_lt pitch 0 0 i j pitch hij (by omega)
    dsimp only
    omega
  · refine List.pairwise_lt_range.imp fun {x y} hxy c hc e he => Or.inl ?_
    obtain ⟨i, hi, rfl⟩ := List.mem_map.mp hc
    obtain ⟨j, hj, rfl⟩ := List.mem_map.mp he
    have hrow : i * pitch + pitch ≤ m * pitch := row_fits (List.mem_range.mp hi) (le_refl _)
    exact @row_lt (m * pitch) (i * pitch) (j * pitch) x y pitch hxy hrow

/-- The rows of a part fill one strip, with an expert for a row. -/
theorem exists_expertRows {whole fresh : List UInt8} {pitch : Nat} (hr : r < ranks)
    (hwhole : whole.length = batch * (ranks * (m * pitch)))
    (hfresh : fresh.length = batch * (m * pitch)) :
    ∃ out, copyRegions whole fresh ((List.range batch).flatMap (expertRows ranks r m pitch)) =
        some out ∧ out.length = fresh.length ∧
      Filled whole out (stripRegions ⟨batch, m * pitch, ranks * (m * pitch)⟩ ranks r 0 0
        [⟨m * pitch, false⟩]) := by
  have hfits : ∀ c ∈ (List.range batch).flatMap (expertRows ranks r m pitch),
      c.Fits fresh.length whole.length := by
    intro c hc
    obtain ⟨x, hx, hc⟩ := List.mem_flatMap.mp hc
    rw [hfresh, hwhole]
    exact expertRows_fits hr (List.mem_range.mp hx) c hc
  obtain ⟨out, hout, hlen⟩ := copyRegions_isSome hfits
  refine ⟨out, hout, hlen, fun c hc => ?_⟩
  rw [stripRegions, stripRegions, List.append_nil, Strip.regions] at hc
  obtain ⟨x, hx, rfl⟩ := List.mem_map.mp hc
  simp only [Strip.start, Bool.false_eq_true, if_false, Nat.add_zero, Nat.zero_add]
  -- a strip's row is the rows of one expert, which follow one another
  rw [← flatMap_slice out, ← flatMap_slice whole]
  refine flatMap_congr fun i hi => ?_
  exact slice_copyRegions pairwise_expertRows hout
    ⟨x * (m * pitch) + i * pitch, x * (ranks * (m * pitch)) + r * (m * pitch) + i * pitch, pitch⟩
    (List.mem_flatMap.mpr ⟨x, hx, List.mem_map.mpr ⟨i, hi, rfl⟩⟩)

end Rows

section Copies

variable {b ranks r m w : Nat} {whole : AsTensor} {place : Placement}

/-- One expert whose `int` indices stay in range. -/
theorem hSplit_copySubGemm_eq (hs : (Stack.experts b (ranks * m) w).Sized (sizeofType whole.dtype))
    (hfits : (Stack.experts b (ranks * m) w).IndexFits 1) (hr : r < ranks)
    (hshape : whole.shape = (Stack.experts b (ranks * m) w).shape) {dst : AsTensor}
    (hdst : dst.shape = (Stack.experts b m w).shape) (hdtype : dst.dtype = whole.dtype)
    {x : Nat} (hx : x < b) :
    BatchHorizontalSplit.copySubGemm place ⟨r, ranks⟩ whole (w : Int) ((ranks * m : Nat) : Int)
        dst x =
      (memcpyRows dst.data whole.data
        (expertRows ranks r m (w * sizeofType whole.dtype) x)).map
          fun data => { dst with data := data } := by
  obtain ⟨hrow, helem⟩ : x * (ranks * m) < 2 ^ 31 ∧ x * (ranks * m) * w < 2 ^ 31 := by
    obtain hzero | ⟨hrows, helems⟩ := hfits
    · simp only [Stack.batch] at hzero
      omega
    · simp only [Stack.batch, Stack.height, Stack.width] at hrows helems
      have hle : x * (ranks * m) ≤ (b - 1) * (ranks * m) := Nat.mul_le_mul_right _ (by omega)
      have hlew : x * (ranks * m) * w ≤ (b - 1) * (ranks * m) * w := Nat.mul_le_mul_right _ hle
      omega
  have hranks : 0 < ranks := by omega
  have hbytes := hs.bytes_lt
  have hheight := hs.height_lt
  have hwidth := hs.width_lt
  simp only [Stack.rows, Stack.batch, Stack.height, Stack.width] at hbytes hheight hwidth
  have hm : m ≤ ranks * m := Nat.le_mul_of_pos_left m hranks
  have hstride := @stride_shapeOf (.experts b m w) dst w hdst hwidth
  have hwstride := @stride_shapeOf (.experts b (ranks * m) w) whole w hshape hwidth
  rw [hdtype] at hstride
  have hdiv : ranks * m / ranks = m := Nat.mul_div_cancel_left m hranks
  have h1 : (x : Int) * ((ranks * m : Nat) : Int) = ((x * (ranks * m) : Nat) : Int) :=
    (Nat.cast_mul _ _).symm
  have h2 : ((x * (ranks * m) : Nat) : Int) * (w : Int) = ((x * (ranks * m) * w : Nat) : Int) :=
    (Nat.cast_mul _ _).symm
  have h3 : ((x * (ranks * m) * w : Nat) : Int) + (r : Int) * (m : Int) * (w : Int) =
      ((x * (ranks * m) * w + r * m * w : Nat) : Int) := by
    push_cast
    ring
  have h4 : (x : Int) * (m : Int) * (w : Int) = ((x * m * w : Nat) : Int) := by
    push_cast
    ring
  have hrm : r * m ≤ ranks * m := Nat.mul_le_mul_right _ hr.le
  have hrmw : r * m * w < 2 ^ 31 * 2 ^ 31 :=
    lt_of_le_of_lt (Nat.mul_le_mul_right _ hrm) (Nat.mul_lt_mul'' hheight hwidth)
  have hxmw : x * m * w ≤ x * (ranks * m) * w :=
    Nat.mul_le_mul_right _ (Nat.mul_le_mul_left _ hm)
  have hsrcEnd : x * (ranks * m) * w + r * m * w ≤ b * (ranks * m) * w := by
    have hexpert := row_fits hx hrm
    calc x * (ranks * m) * w + r * m * w = (x * (ranks * m) + r * m) * w := by ring
      _ ≤ b * (ranks * m) * w := Nat.mul_le_mul_right _ hexpert
  have hsrcBytes : (x * (ranks * m) * w + r * m * w) * sizeofType whole.dtype < 2 ^ 63 := by
    calc (x * (ranks * m) * w + r * m * w) * sizeofType whole.dtype
        ≤ b * (ranks * m) * w * sizeofType whole.dtype := Nat.mul_le_mul_right _ hsrcEnd
      _ = b * (ranks * m) * (w * sizeofType whole.dtype) := by ring
      _ < 2 ^ 63 := hbytes
  have hdstBytes : x * m * w * sizeofType whole.dtype < 2 ^ 63 :=
    lt_of_le_of_lt (Nat.mul_le_mul_right _ (by omega)) hsrcBytes
  simp only [BatchHorizontalSplit.copySubGemm]
  rw [h1, cint_natCast hrow, ok_bind, h2, cint_natCast helem, ok_bind, sizeT_quot (by omega),
    hdiv, h3, h4, sizeT_natCast (by omega), sizeT_natCast (by omega), sizeT_mul (by omega),
    sizeT_mul (by omega), hstride, hwstride]
  have hcopy := @copyMatrix2D_eq place dst.data whole.data (x * m * w * sizeofType whole.dtype)
    ((x * (ranks * m) * w + r * m * w) * sizeofType whole.dtype) 1
    (w * sizeofType whole.dtype) (w * sizeofType whole.dtype) m Nat.one_pos
  have hlen : place.copyLen 1 (w * sizeofType whole.dtype) = w * sizeofType whole.dtype := by
    rw [Placement.copyLen, Nat.one_mul, ite_self]
  rw [hlen, Nat.one_mul, Nat.div_one] at hcopy
  rw [hcopy]
  have hrows : ((List.range m).map fun i =>
      (⟨x * m * w * sizeofType whole.dtype + i * (w * sizeofType whole.dtype),
        (x * (ranks * m) * w + r * m * w) * sizeofType whole.dtype +
          i * (w * sizeofType whole.dtype), w * sizeofType whole.dtype⟩ : Region)) =
      expertRows ranks r m (w * sizeofType whole.dtype) x := by
    refine List.map_congr_left fun i _ => ?_
    simp only [Region.mk.injEq, and_true]
    constructor <;> ring
  rw [hrows]
  rfl

/-- Within range the copies fill the part of a rank. -/
theorem exists_batchRows (hs : (Stack.experts b (ranks * m) w).Sized (sizeofType whole.dtype))
    (hfits : (Stack.experts b (ranks * m) w).IndexFits 1) (hr : r < ranks)
    (hshape : whole.shape = (Stack.experts b (ranks * m) w).shape)
    (hdata : whole.data.length = b * (ranks * m) * (w * sizeofType whole.dtype))
    {dst : AsTensor} (hdst : dst.shape = (Stack.experts b m w).shape)
    (hdtype : dst.dtype = whole.dtype)
    (hdstLen : dst.data.length = b * m * (w * sizeofType whole.dtype)) :
    ∃ data, (List.range b).foldlM (BatchHorizontalSplit.copySubGemm place ⟨r, ranks⟩ whole
        (w : Int) ((ranks * m : Nat) : Int)) dst = .ok { dst with data := data } ∧
      data.length = dst.data.length ∧
      Filled whole.data data
        (stripRegions ⟨b, m * (w * sizeofType whole.dtype),
          ranks * (m * (w * sizeofType whole.dtype))⟩ ranks r 0 0
          [⟨m * (w * sizeofType whole.dtype), false⟩]) := by
  obtain ⟨data, hcopy, hsize, hfilled⟩ := @exists_expertRows ranks r m b whole.data dst.data
    (w * sizeofType whole.dtype) hr (by rw [hdata]; ring) (by rw [hdstLen]; ring)
  refine ⟨data, ?_, hsize, hfilled⟩
  exact foldlM_regions (fun x hx dst hdst hdtype =>
    hSplit_copySubGemm_eq hs hfits hr hshape hdst hdtype (List.mem_range.mp hx)) hdst hdtype hcopy

/-- A copy that succeeds has its indices in range. -/
theorem hSplit_copySubGemm_ok {height width : Int} {mid t : AsTensor} {x : Nat}
    (h : BatchHorizontalSplit.copySubGemm place ⟨r, ranks⟩ whole width height mid x = .ok t) :
    (x : Int) * height ≤ intMax ∧ (x : Int) * height * width ≤ intMax := by
  simp only [BatchHorizontalSplit.copySubGemm] at h
  obtain ⟨a, ha, h⟩ := bind_eq_ok h
  obtain ⟨rfl, -, ha⟩ := cint_eq_ok ha
  obtain ⟨e, he, h⟩ := bind_eq_ok h
  obtain ⟨rfl, -, he⟩ := cint_eq_ok he
  exact ⟨ha, he⟩

/-- The copies of a part succeed only where the indices of the last expert
stay in range. -/
theorem indexFits_of_rows {h : Nat} {dst out : AsTensor}
    (hcopy : (List.range b).foldlM (BatchHorizontalSplit.copySubGemm place ⟨r, ranks⟩ whole
      (w : Int) (h : Int)) dst = .ok out) : (Stack.experts b h w).IndexFits 1 := by
  rcases Nat.eq_zero_or_pos b with hb | hb
  · exact Or.inl hb
  · obtain ⟨mid, t, -, hstep⟩ := step_of_foldlM (P := fun _ => True) (fun _ _ _ _ _ => trivial)
      trivial hcopy (b - 1) (List.mem_range.mpr (by omega))
    obtain ⟨hrow, hlast⟩ := hSplit_copySubGemm_ok hstep
    have hrowNat : (((b - 1) * h : Nat) : Int) ≤ intMax := by
      push_cast
      exact hrow
    have hlastNat : (((b - 1) * h * w : Nat) : Int) ≤ intMax := by
      push_cast
      exact hlast
    simp only [intMax] at hrowNat hlastNat
    refine Or.inr ⟨?_, ?_⟩
    · simp only [Stack.batch, Stack.height]
      omega
    · simp only [Stack.batch, Stack.height, Stack.width]
      omega

end Copies

end DashInfer.Weight
