import DashInfer.Cache.CopyLoop
import DashInfer.Cache.SwapStates
import Mathlib.Data.Int.Log
import Mathlib.Data.Rat.Floor

/-!
The host memory of the CPU tier. `init_cpu_union` takes the copy workspaces of
all ranks out of the budget and divides the rest into frames; the constructor
of `MemcpyWorkspace` then allocates a workspace of that size for each place in
the batch, although the size has the batch in it already.
-/

namespace DashInfer.Cache

open Lib
open Service (int32)

/-- The nearest integer, ties to even. -/
def roundHalfEven (x : ℚ) : ℤ :=
  if x - ⌊x⌋ < 1 / 2 then ⌊x⌋
  else if 1 / 2 < x - ⌊x⌋ then ⌊x⌋ + 1
  else if ⌊x⌋ % 2 = 0 then ⌊x⌋ else ⌊x⌋ + 1

/-- The distance of neighbouring `float` values at a number of this size. -/
def floatStep (x : ℚ) : ℚ := 2 ^ (max (Int.log 2 x) (-126) - 23)

/-- A nonnegative number as a `float`. -/
def toFloat (x : ℚ) : ℚ := roundHalfEven (x / floatStep x) * floatStep x

theorem toFloat_nonneg {x : ℚ} (h : 0 ≤ x) : 0 ≤ toFloat x := by
  have hstep : 0 < floatStep x := by
    unfold floatStep
    positivity
  have hfloor : 0 ≤ ⌊x / floatStep x⌋ := Int.floor_nonneg.mpr (div_nonneg h hstep.le)
  have hround : 0 ≤ roundHalfEven (x / floatStep x) := by
    unfold roundHalfEven
    split_ifs <;> omega
  exact mul_nonneg (Int.cast_nonneg hround) hstep.le

theorem toFloat_zero : toFloat 0 = 0 := by
  have hround : roundHalfEven (0 / floatStep 0) = 0 := by
    rw [zero_div]
    simp [roundHalfEven]
  unfold toFloat
  rw [hround, Int.cast_zero, zero_mul]

/-- What the sizes of the CPU tier depend on. The engine refuses a maximal
length or batch that is not positive. -/
structure HostSizes where
  /-- `MemAvailable` of the host, in kB. -/
  cpuAvailMem : Nat
  /-- The value taken for `CPU_CACHE_RATIO`, zero where it is not set. -/
  ratio : ℚ
  nranks : Nat
  engineMaxLength : Nat
  engineMaxBatch : Nat
  tokenPerSpan : Nat
  layerNum : Nat
  frameSize : Nat
  ratio_nonneg : 0 ≤ ratio
  nranks_pos : 0 < nranks
  engineMaxLength_pos : 0 < engineMaxLength
  engineMaxBatch_pos : 0 < engineMaxBatch
  tokenPerSpan_pos : 0 < tokenPerSpan
  layerNum_pos : 0 < layerNum
  frameSize_pos : 0 < frameSize

/-- What one rank allocates. -/
structure HostMemory where
  workspaceSize : Nat
  frames : Nat
deriving DecidableEq, Repr

namespace HostSizes

/-- `MemcpyWorkspace::CalcWorkspaceSize`: one factor after the other in `size_t`. -/
def calcWorkspaceSize (maxLength maxBatch tokenPerSpan framePerNode frameSize : Int) : Nat :=
  sizeT (sizeT (sizeT (sizeT ((int32 (maxLength + tokenPerSpan - 1)).tdiv tokenPerSpan) *
    sizeT maxBatch) * sizeT framePerNode) * sizeT frameSize)

def availableMemory (z : HostSizes) : Nat := sizeT (z.cpuAvailMem * 1024)

/-- `available_memory * ratio`, a `float`. -/
def budget (z : HostSizes) : ℚ := toFloat (toFloat z.availableMemory * z.ratio)

def cacheMemBytes (z : HostSizes) : Nat := ⌊z.budget⌋₊

def framePerNode (z : HostSizes) : Int := int32 (2 * z.layerNum)

/-- The workspace that the budget counts for a rank, and the size of one block
in the constructor of `MemcpyWorkspace`. -/
def blockSize (z : HostSizes) : Nat :=
  calcWorkspaceSize z.engineMaxLength z.engineMaxBatch z.tokenPerSpan z.framePerNode
    (int32 z.frameSize)

/-- `cpu_workspace_size * nranks`. -/
def workspaceBudget (z : HostSizes) : Nat := sizeT (z.blockSize * z.nranks)

def cacheMemPerWorker (z : HostSizes) : Nat := (z.cacheMemBytes - z.workspaceBudget) / z.nranks

/-- `max_frame_num`, as the frame manager's `int init_frames` gets it. -/
def initFrames (z : HostSizes) : Int := int32 (z.cacheMemPerWorker / z.frameSize : Nat)

/-- `init_cpu_union`; none when it throws. -/
def initCpuUnion (z : HostSizes) : Option HostMemory :=
  if 0 < z.ratio then
    if z.cacheMemBytes < z.workspaceBudget then none
    else some
      { workspaceSize := sizeT (z.blockSize * z.engineMaxBatch)
        frames := z.initFrames.toNat }
  else some { workspaceSize := 0, frames := 0 }

/-- What all ranks allocate. -/
def allocated (z : HostSizes) (m : HostMemory) : Nat :=
  z.nranks * (m.workspaceSize + m.frames * z.frameSize)

/-- The bytes of the budget that go neither to the workspaces it counts nor to
frames. -/
def unused (z : HostSizes) : Nat :=
  z.cacheMemBytes - z.workspaceBudget - z.nranks * (z.initFrames.toNat * z.frameSize)

/-- The workspace of a rank as the budget means it. -/
def workspace (z : HostSizes) : Nat :=
  (z.engineMaxLength + z.tokenPerSpan - 1) / z.tokenPerSpan * z.engineMaxBatch *
    (2 * z.layerNum) * z.frameSize

/-- No size leaves its machine type. -/
structure InRange (z : HostSizes) : Prop where
  length : z.engineMaxLength + z.tokenPerSpan ≤ 2 ^ 31
  batch : z.engineMaxBatch < 2 ^ 31
  framePerNode : 2 * z.layerNum < 2 ^ 31
  frameSize : z.frameSize < 2 ^ 31
  workspaces : z.workspace * z.engineMaxBatch < 2 ^ 64
  ranks : z.workspace * z.nranks < 2 ^ 64
  frames : z.cacheMemPerWorker / z.frameSize < 2 ^ 31

variable {z : HostSizes} {m : HostMemory}

theorem sizeT_of_lt {n : Nat} (h : n < 2 ^ 64) : sizeT n = n := by
  unfold sizeT
  omega

theorem budget_nonneg (z : HostSizes) : 0 ≤ z.budget :=
  toFloat_nonneg (mul_nonneg (toFloat_nonneg (Nat.cast_nonneg _)) z.ratio_nonneg)

/-- Whole bytes fit the budget when they fit `cache_mem_bytes`. -/
theorem le_budget_iff (z : HostSizes) (n : Nat) : (n : ℚ) ≤ z.budget ↔ n ≤ z.cacheMemBytes :=
  (Nat.le_floor_iff z.budget_nonneg).symm

theorem budget_of_zero (h : z.ratio = 0) : z.budget = 0 := by
  unfold budget
  rw [h, mul_zero, toFloat_zero]

theorem initFrames_le (z : HostSizes) : z.initFrames.toNat ≤ z.cacheMemPerWorker / z.frameSize := by
  unfold initFrames
  generalize z.cacheMemPerWorker / z.frameSize = q
  rw [int32_natCast_eq]
  split <;> omega

/-- The frames of all ranks fit what the counted workspaces leave. -/
theorem frames_le (z : HostSizes) :
    z.nranks * (z.initFrames.toNat * z.frameSize) ≤ z.cacheMemBytes - z.workspaceBudget := by
  calc z.nranks * (z.initFrames.toNat * z.frameSize)
      ≤ z.nranks * z.cacheMemPerWorker := by
        apply Nat.mul_le_mul_left
        exact (Nat.mul_le_mul_right _ z.initFrames_le).trans (Nat.div_mul_le_self _ _)
    _ ≤ z.cacheMemBytes - z.workspaceBudget := Nat.mul_div_le _ _

/-- Without wrapping, the frames leave less than one frame of each rank. -/
theorem unused_lt (h : z.InRange) : z.unused < z.nranks * z.frameSize := by
  have hframes : z.initFrames.toNat = z.cacheMemPerWorker / z.frameSize := by
    unfold initFrames
    rw [int32_natCast h.frames]
    rfl
  have hquot : z.cacheMemPerWorker / z.frameSize =
      (z.cacheMemBytes - z.workspaceBudget) / (z.nranks * z.frameSize) :=
    Nat.div_div_eq_div_mul ..
  have hrest := Nat.mod_lt (z.cacheMemBytes - z.workspaceBudget)
    (Nat.mul_pos z.nranks_pos z.frameSize_pos)
  have hdiv := Nat.div_add_mod (z.cacheMemBytes - z.workspaceBudget) (z.nranks * z.frameSize)
  unfold unused
  rw [hframes, hquot, Nat.mul_comm _ z.frameSize, ← Nat.mul_assoc]
  omega

/-- Without wrapping, the computed sizes are the meant ones. -/
theorem blockSize_eq (h : z.InRange) : z.blockSize = z.workspace := by
  obtain ⟨hlength, hbatch, hnode, hframe, hall, -, -⟩ := h
  have hsum : (z.engineMaxLength : Int) + z.tokenPerSpan - 1 =
      (z.engineMaxLength + z.tokenPerSpan - 1 : Nat) := by
    have := z.tokenPerSpan_pos
    omega
  have hspans : int32 ((z.engineMaxLength : Int) + z.tokenPerSpan - 1) =
      (z.engineMaxLength + z.tokenPerSpan - 1 : Nat) := by
    rw [hsum]
    exact int32_natCast (by omega)
  have hfactor : z.framePerNode = (2 * z.layerNum : Nat) := by
    unfold framePerNode
    exact int32_natCast (by omega)
  have hle : z.workspace < 2 ^ 64 :=
    (Nat.le_mul_of_pos_right _ z.engineMaxBatch_pos).trans_lt hall
  have hmul : ∀ {a b c : Nat}, a * b = c → 0 < b → c < 2 ^ 64 → a < 2 ^ 64 := by
    intro a b c hab hb hc
    exact ((Nat.le_mul_of_pos_right a hb).trans_eq hab).trans_lt hc
  have hnodes := hmul rfl z.frameSize_pos hle
  have hblocks := hmul rfl (Nat.mul_pos Nat.two_pos z.layerNum_pos) hnodes
  have hlengths := hmul rfl z.engineMaxBatch_pos hblocks
  unfold blockSize calcWorkspaceSize
  rw [hspans, hfactor, int32_natCast hframe, ← Int.ofNat_tdiv, sizeT_of_lt hlengths,
    sizeT_of_lt (by omega : z.engineMaxBatch < 2 ^ 64),
    sizeT_of_lt (by omega : 2 * z.layerNum < 2 ^ 64),
    sizeT_of_lt (by omega : z.frameSize < 2 ^ 64)]
  rw [← Int.natCast_mul (_ / _), sizeT_of_lt hblocks, ← Int.natCast_mul _ (2 * _),
    sizeT_of_lt hnodes, ← Int.natCast_mul]
  exact sizeT_of_lt hle

/-- A workspace holds a K and a V frame at least. -/
theorem frameSize_lt_workspace (z : HostSizes) : z.frameSize < z.workspace := by
  have hspans : 0 < (z.engineMaxLength + z.tokenPerSpan - 1) / z.tokenPerSpan := by
    apply Nat.div_pos _ z.tokenPerSpan_pos
    have := z.engineMaxLength_pos
    omega
  have hnodes : 2 ≤ (z.engineMaxLength + z.tokenPerSpan - 1) / z.tokenPerSpan *
      z.engineMaxBatch * (2 * z.layerNum) := by
    have hlayer := z.layerNum_pos
    have hpos := Nat.mul_pos hspans z.engineMaxBatch_pos
    calc 2 ≤ 2 * z.layerNum := by omega
      _ ≤ _ := Nat.le_mul_of_pos_left _ hpos
  have hle := Nat.mul_le_mul_right z.frameSize hnodes
  have hpos := z.frameSize_pos
  unfold workspace
  omega

end HostSizes

open HostSizes PrefixCacheManager

/-- What all ranks allocate fits the budget exactly when a second workspace for
the places of the batch finds room in what the budget leaves unused. It never
does so when no size wraps: then only a batch of one keeps the budget. -/
theorem hostMemory_withinBudget_iff {z : HostSizes} {m : HostMemory}
    (h : z.initCpuUnion = some m) :
    ((z.allocated m : ℚ) ≤ z.budget ↔
        z.ratio = 0 ∨
          z.nranks * sizeT (z.blockSize * z.engineMaxBatch) ≤ z.workspaceBudget + z.unused) ∧
      (z.InRange → ((z.allocated m : ℚ) ≤ z.budget ↔ z.ratio = 0 ∨ z.engineMaxBatch = 1)) := by
  have hbytes : (z.allocated m : ℚ) ≤ z.budget ↔ z.ratio = 0 ∨
      z.nranks * sizeT (z.blockSize * z.engineMaxBatch) ≤ z.workspaceBudget + z.unused := by
    unfold HostSizes.initCpuUnion at h
    split at h
    · next hratio =>
        split at h
        · cases h
        · next hfits =>
            cases h
            have hframes := z.frames_le
            rw [le_budget_iff]
            unfold allocated unused
            dsimp only
            rw [Nat.mul_add]
            constructor
            · intro hle
              exact Or.inr (by omega)
            · rintro (hzero | hle)
              · exact absurd hzero (ne_of_gt hratio)
              · omega
    · next hratio =>
        cases h
        have hzero : z.ratio = 0 := le_antisymm (not_lt.mp hratio) z.ratio_nonneg
        rw [budget_of_zero hzero]
        exact ⟨fun _ => Or.inl hzero, fun _ => by simp [allocated]⟩
  refine ⟨hbytes, fun hrange => hbytes.trans (or_congr_right ?_)⟩
  have hblock : sizeT (z.blockSize * z.engineMaxBatch) = z.workspace * z.engineMaxBatch := by
    rw [blockSize_eq hrange, ← Int.natCast_mul]
    exact sizeT_of_lt hrange.workspaces
  have hcounted : z.workspaceBudget = z.workspace * z.nranks := by
    unfold workspaceBudget
    rw [blockSize_eq hrange, ← Int.natCast_mul]
    exact sizeT_of_lt hrange.ranks
  rw [hblock, hcounted]
  constructor
  · intro hle
    by_contra hbatch
    have htwo : 2 ≤ z.engineMaxBatch := by
      have := z.engineMaxBatch_pos
      omega
    -- The second workspace alone is more than the frames can leave.
    have hsecond := Nat.mul_le_mul_left z.nranks (Nat.mul_le_mul_left z.workspace htwo)
    have hframe := Nat.mul_le_mul_left z.nranks z.frameSize_lt_workspace.le
    have hunused := unused_lt hrange
    have hcomm := Nat.mul_comm z.workspace z.nranks
    rw [Nat.mul_two, Nat.mul_add] at hsecond
    omega
  · intro hbatch
    rw [hbatch, Nat.mul_one, Nat.mul_comm]
    exact Nat.le_add_right _ _

/-- The frames of this model are those of the CPU union that `init_cpu_union`
builds over the same budget. -/
theorem initCpuUnion_frames {E : OrderedSet NodeId} {cfg : Config} {z : HostSizes}
    (hlength : z.engineMaxLength = cfg.maxLength) (hbatch : z.engineMaxBatch = cfg.maxBatch)
    (hspan : z.tokenPerSpan = cfg.tokenPerSpan) (hlayer : z.layerNum = cfg.layerNum)
    (hrange : z.InRange) :
    initCpuUnion E cfg (decide (0 < z.ratio)) z.cacheMemBytes z.frameSize z.nranks =
      z.initCpuUnion.map (fun m => CacheUnion.init E m.frames cfg.layerNum) := by
  have hblock : blockSpanNum cfg * z.frameSize = z.workspace := by
    unfold blockSpanNum Config.maxNumSpans Config.spanPerNode workspace
    rw [hlength, hbatch, hspan, hlayer]
  have hcounted : z.workspaceBudget = z.workspace * z.nranks := by
    unfold workspaceBudget
    rw [blockSize_eq hrange, ← Int.natCast_mul]
    exact sizeT_of_lt hrange.ranks
  have hframes : z.initFrames.toNat = z.cacheMemPerWorker / z.frameSize := by
    unfold initFrames
    rw [int32_natCast hrange.frames]
    rfl
  unfold initCpuUnion HostSizes.initCpuUnion
  rw [hblock, hcounted, hframes]
  unfold cacheMemPerWorker
  rw [hcounted]
  by_cases hratio : 0 < z.ratio
  · simp only [hratio, decide_true, if_true]
    split <;> rfl
  · simp only [hratio, decide_false, if_false]
    rfl

section Small

/-- 64 kB with a ratio of one half, two ranks, one layer with spans of 64
bytes, and a batch of one. -/
def batchOfOne : HostSizes where
  cpuAvailMem := 64
  ratio := 1 / 2
  nranks := 2
  engineMaxLength := 128
  engineMaxBatch := 1
  tokenPerSpan := 16
  layerNum := 1
  frameSize := 64
  ratio_nonneg := by norm_num
  nranks_pos := Nat.two_pos
  engineMaxLength_pos := by decide
  engineMaxBatch_pos := Nat.one_pos
  tokenPerSpan_pos := by decide
  layerNum_pos := Nat.one_pos
  frameSize_pos := by decide

/-- The same with a batch of four. -/
def batchOfFour : HostSizes :=
  { batchOfOne with engineMaxBatch := 4, engineMaxBatch_pos := by decide }

/-- A batch of one keeps the budget: 1024 bytes of workspace and 240 frames for
each rank. -/
theorem hostMemory_withinBudget_batchOfOne :
    batchOfOne.initCpuUnion = some { workspaceSize := 1024, frames := 240 } ∧
      (batchOfOne.allocated { workspaceSize := 1024, frames := 240 } : ℚ) ≤ batchOfOne.budget := by
  have hrun : batchOfOne.initCpuUnion = some { workspaceSize := 1024, frames := 240 } := by
    decide +kernel
  have hrange : batchOfOne.InRange :=
    ⟨by decide, by decide, by decide, by decide, by decide, by decide, by decide +kernel⟩
  exact ⟨hrun, ((hostMemory_withinBudget_iff hrun).2 hrange).mpr (Or.inr rfl)⟩

/-- With a batch of four each rank allocates four workspaces, where the budget
has counted one: 57344 bytes out of 32768. -/
theorem hostMemory_exceedsBudget : ∃ m, batchOfFour.initCpuUnion = some m ∧
    batchOfFour.budget = 32768 ∧ batchOfFour.allocated m = 57344 ∧
    ¬ (batchOfFour.allocated m : ℚ) ≤ batchOfFour.budget := by
  have hbudget : batchOfFour.budget = 32768 := by decide +kernel
  refine ⟨{ workspaceSize := 16384, frames := 192 }, by decide +kernel, hbudget, by decide, ?_⟩
  rw [hbudget]
  decide +kernel

end Small

end DashInfer.Cache
