import DashInfer.Service.TensorMessage
import Mathlib.Data.List.Basic

/-!
The copies of `swap_nodelist_to_cpu_impl` and `swap_nodelist_to_gpu_impl` with
the machine integers they are computed in. The spans of a node list go through
the GPU workspace in rounds of `copy_step` spans, to or from one block of the
CPU workspace in which they lie one after the other.
-/

namespace DashInfer.Cache

open Service (int32)

/-- The conversion of an integer to `size_t`. -/
def sizeT (x : Int) : Nat := (x % 2 ^ 64).toNat

/-- What the copies of a node list depend on: every node has a K and a V span
for each of `cacheNum` layers. -/
structure SwapSizes where
  nodeNum : Nat
  cacheNum : Nat
  /-- The length of `spanptr_tensor_device_`. -/
  spanptrLength : Nat
  gpuWorkspaceSize : Nat
  cpuWorkspaceSize : Nat
  spanSize : Nat
  cacheNum_pos : 0 < cacheNum
  spanSize_pos : 0 < spanSize

inductive SwapDirection where
  | toCpu
  | toGpu

/-- One round of the copy loop: the spans from number `start`, and the offset
into the CPU workspace and size in bytes of the transfer. -/
structure CopyRound where
  start : Int
  num : Int
  offset : Int
  bytes : Int
deriving DecidableEq, Repr

/-- The numbers of the spans that a round copies. -/
def CopyRound.spans (r : CopyRound) : List Int := 
  (List.range r.num.toNat).map fun k : Nat => r.start + k

/-- A swap that was carried out. -/
structure SwapCopies where
  /-- `span_num * span_size`. -/
  totalBytes : Int
  /-- The places written in the lists of span pointers. -/
  spanIndices : List Int
  rounds : List CopyRound
  /-- Where in the CPU workspace each span lies that is copied on its own. -/
  spanOffsets : List Int
deriving DecidableEq, Repr

inductive SwapFault where
  | tooManySpans
  | workspaceTooSmall
  /-- A vector of negative length. -/
  | lengthError
  | divisionByZero
deriving DecidableEq, Repr

/-- The loop over `copy_cnt`; none if the fuel does not suffice. -/
def copyLoop (totalCopyNum copyStep spanSize : Int) : Nat → Int → Option (List CopyRound)
  | 0, _ => none
  | fuel + 1, copyCnt =>
      if copyCnt < totalCopyNum then
        let copyNum := min copyStep (totalCopyNum - copyCnt)
        (copyLoop totalCopyNum copyStep spanSize fuel (int32 (copyCnt + copyStep))).map
          (⟨copyCnt, copyNum, int32 (copyCnt * spanSize), int32 (copyNum * spanSize)⟩ :: ·)
      else some []

namespace SwapSizes

/-- How many spans there are. -/
def total (z : SwapSizes) : Nat := z.nodeNum * z.cacheNum * 2

/-- `const int node_num`. -/
def nodeNumInt (z : SwapSizes) : Int := int32 z.nodeNum

/-- `span_num`. -/
def spanNum (z : SwapSizes) : Int := int32 (int32 (z.nodeNumInt * z.cacheNum) * 2)

/-- `const int span_size`. -/
def spanSizeInt (z : SwapSizes) : Int := int32 z.spanSize

/-- `span_num * span_size`. -/
def totalBytes (z : SwapSizes) : Int := int32 (z.spanNum * z.spanSizeInt)

def maxCopyNum (z : SwapSizes) : Int :=
  int32 (min z.gpuWorkspaceSize z.cpuWorkspaceSize / sizeT z.spanSizeInt : Nat)

def copyStep (z : SwapSizes) : Int := min z.maxCopyNum z.spanNum

/-- `idx` of a K span; its V span comes next. -/
def spanIndex (z : SwapSizes) (i j : Nat) : Int := int32 (int32 (int32 (i * z.cacheNum) + j) * 2)

/-- The places of the span list in the order in which the nodes give them. -/
def spanIndices (z : SwapSizes) : List Int :=
  (List.range z.nodeNumInt.toNat).flatMap fun i => (List.range z.cacheNum).flatMap fun j =>
    [z.spanIndex i j, int32 (z.spanIndex i j + 1)]

/-- The offsets of the copies made span by span: by the queued tasks of a swap
to the CPU, into the workspace beforehand in a swap to the GPU. -/
def spanOffsets (z : SwapSizes) : SwapDirection → List Int
  | .toCpu => z.spanIndices.map fun idx => int32 (idx * z.spanSizeInt)
  | .toGpu => (List.range z.spanNum.toNat).map fun i : Nat => int32 (i * z.spanSizeInt)

/-- `swap_nodelist_to_cpu_impl` and `swap_nodelist_to_gpu_impl`. -/
def swapNodelistImpl (direction : SwapDirection) (z : SwapSizes) (fuel : Nat) :
    Option (Except SwapFault SwapCopies) :=
  if z.nodeNumInt ≤ 0 then some (.ok ⟨0, [], [], []⟩)
  else if (z.spanptrLength : Int) < z.spanNum then some (.error .tooManySpans)
  else if z.spanNum < 0 then some (.error .lengthError)
  else if z.cpuWorkspaceSize < sizeT z.totalBytes then some (.error .workspaceTooSmall)
  else if z.spanSizeInt = 0 then some (.error .divisionByZero)
  else (copyLoop z.spanNum z.copyStep z.spanSizeInt fuel 0).map fun rounds =>
    .ok ⟨z.totalBytes, z.spanIndices, rounds, z.spanOffsets direction⟩

/-- Neither size check refuses the node list. -/
def Accepted (z : SwapSizes) : Prop :=
  z.spanNum ≤ z.spanptrLength ∧ sizeT z.totalBytes ≤ z.cpuWorkspaceSize

/-- What a swap should do: every span is listed and copied once in its turn,
each size and offset is what it stands for, and no copy leaves its workspace. -/
structure Exact (z : SwapSizes) (c : SwapCopies) : Prop where
  totalBytes : c.totalBytes = z.total * z.spanSize
  spanIndices : c.spanIndices = (List.range z.total).map fun k : Nat => (k : Int)
  spans : c.rounds.flatMap CopyRound.spans = (List.range z.total).map fun k : Nat => (k : Int)
  computed : ∀ r ∈ c.rounds, r.offset = r.start * z.spanSize ∧ r.bytes = r.num * z.spanSize
  inside : ∀ r ∈ c.rounds, 0 ≤ r.offset ∧ r.offset + r.bytes ≤ z.cpuWorkspaceSize ∧
    r.bytes ≤ z.gpuWorkspaceSize
  spanOffsets : c.spanOffsets = (List.range z.total).map fun k : Nat => (k * z.spanSize : Int)
  spanInside : ∀ offset ∈ c.spanOffsets, 0 ≤ offset ∧ offset + z.spanSize ≤ z.cpuWorkspaceSize

/-- The swap returns and is exact. -/
def SwapsExactly (direction : SwapDirection) (z : SwapSizes) : Prop :=
  ∃ fuel copies, z.swapNodelistImpl direction fuel = some (.ok copies) ∧ z.Exact copies

/-- How many spans fit in both workspaces, as far as an `int` tells. -/
def fitting (z : SwapSizes) : Nat := min z.gpuWorkspaceSize z.cpuWorkspaceSize / z.spanSize % 2 ^ 32

/-- The spans of a full round. -/
def roundSpans (z : SwapSizes) : Nat := min z.fitting z.total

/-- A node list is empty, or its bytes fit in an `int`, a span fits in the GPU
workspace, and rounding the spans up to full rounds stays in range too. -/
def InRange (z : SwapSizes) : Prop :=
  z.nodeNum = 0 ∨ (z.total * z.spanSize < 2 ^ 31 ∧ 0 < z.fitting ∧ z.fitting < 2 ^ 31 ∧
    (z.total + z.roundSpans - 1) / z.roundSpans * z.roundSpans < 2 ^ 31)

end SwapSizes

section Loop

variable {total step size : Nat}

theorem nextCount_le (hstep : 0 < step) {i : Nat} (hmore : i * step < total) :
    (i + 1) * step ≤ (total + step - 1) / step * step := by
  apply Nat.mul_le_mul_right
  rw [Nat.le_div_iff_mul_le hstep, Nat.add_mul]
  omega

theorem int32_natCast_eq (q : Nat) :
    int32 q = if q % 2 ^ 32 < 2 ^ 31 then (q % 2 ^ 32 : Int) else q % 2 ^ 32 - 2 ^ 32 := by
  unfold Service.int32
  rw [Int.bmod_def]
  split <;> split <;> omega

theorem int32_natCast {x : Nat} (hx : x < 2 ^ 31) : int32 x = x :=
  Service.int32_eq_self (by omega) (by omega)

theorem spans_natCast (start num : Nat) (offset bytes : Int) :
    CopyRound.spans ⟨start, num, offset, bytes⟩ =
      (List.range' start num).map (fun k : Nat => (k : Int)) := by
  simp [CopyRound.spans, List.range'_eq_map_range, Function.comp_def]

/-- From the start of a round on, the loop copies the spans that are left. -/
theorem copyLoop_ends (hstep : 0 < step) (hbytes : total * size < 2 ^ 31)
    (hlast : (total + step - 1) / step * step < 2 ^ 31) (fuel i : Nat)
    (hfuel : total - i * step < fuel) :
    ∃ rounds, copyLoop total step size fuel (i * step : Nat) = some rounds ∧
      rounds.flatMap CopyRound.spans =
        (List.range' (i * step) (total - i * step)).map (fun k : Nat => (k : Int)) ∧
      ∀ r ∈ rounds, 0 ≤ r.start ∧ r.num ≤ step ∧ r.start + r.num ≤ total ∧
        r.offset = r.start * size ∧ r.bytes = r.num * size := by
  induction fuel generalizing i with
  | zero => omega
  | succ fuel ih =>
      unfold copyLoop
      by_cases hmore : i * step < total
      · have hnext := nextCount_le hstep hmore
        have hcount : int32 ((i * step : Nat) + (step : Int)) = ((i + 1) * step : Nat) := by
          rw [← Nat.cast_add, ← Nat.succ_mul]
          exact int32_natCast (by rw [Nat.succ_eq_add_one]; omega)
        rw [Nat.add_mul, Nat.one_mul] at hcount hnext
        obtain ⟨rest, hloop, hspans, hrest⟩ := ih (i + 1) (by rw [Nat.add_mul]; omega)
        rw [Nat.add_mul, Nat.one_mul] at hloop hspans
        obtain ⟨num, hnum⟩ : ∃ num, num = min step (total - i * step) := ⟨_, rfl⟩
        have hcopyNum : min (step : Int) ((total : Int) - (i * step : Nat)) = num := by omega
        have hoffset : int32 ((i * step : Nat) * (size : Int)) = (i * step : Nat) * (size : Int) := by
          rw [← Nat.cast_mul]
          apply int32_natCast
          exact Nat.lt_of_le_of_lt (Nat.mul_le_mul_right _ (by omega)) hbytes
        have hround : int32 ((num : Int) * size) = num * size := by
          rw [← Nat.cast_mul]
          apply int32_natCast
          exact Nat.lt_of_le_of_lt (Nat.mul_le_mul_right _ (by omega)) hbytes
        rw [if_pos (by omega)]
        simp only [hcopyNum, hcount, hloop, hoffset, hround, Option.map_some]
        refine ⟨_, rfl, ?_, ?_⟩
        · rw [List.flatMap_cons, hspans]
          have hsplit : List.range' (i * step) (total - i * step) =
              List.range' (i * step) num ++
                List.range' (i * step + step) (total - (i * step + step)) := by
            by_cases hfull : step ≤ total - i * step
            · rw [show num = step from hnum.trans (Nat.min_eq_left hfull), List.range'_append_1,
                show step + (total - (i * step + step)) = total - i * step from by omega]
            · rw [show num = total - i * step from hnum.trans (Nat.min_eq_right (by omega)),
                show total - (i * step + step) = 0 from by omega, List.range'_zero,
                List.append_nil]
          rw [hsplit, List.map_append, spans_natCast]
        · intro r hr
          rcases List.mem_cons.mp hr with rfl | hr
          · refine ⟨?_, ?_, ?_, rfl, rfl⟩
            · exact Int.natCast_nonneg _
            · exact Int.ofNat_le.mpr (by omega)
            · exact Int.ofNat_le.mpr (by omega)
          · exact hrest r hr
      · rw [if_neg (by omega)]
        refine ⟨[], rfl, ?_, by simp⟩
        rw [Nat.sub_eq_zero_of_le (by omega)]
        rfl

end Loop

/-- A round copies a step at most, and something if the step is positive. -/
theorem copyLoop_num {total step size : Int} {fuel : Nat} {copyCnt : Int}
    {rounds : List CopyRound} (h : copyLoop total step size fuel copyCnt = some rounds) :
    ∀ r ∈ rounds, r.num ≤ step ∧ (0 < step → 0 < r.num) := by
  induction fuel generalizing copyCnt rounds with
  | zero => cases h
  | succ fuel ih =>
      unfold copyLoop at h
      split at h
      · next hmore =>
          obtain ⟨rest, hrest, rfl⟩ := Option.map_eq_some_iff.mp h
          intro r hr
          rcases List.mem_cons.mp hr with rfl | hr
          · refine ⟨Int.min_le_left _ _, fun hstep => ?_⟩
            exact Int.lt_min.mpr ⟨hstep, by omega⟩
          · exact ih hrest r hr
      · obtain rfl := Option.some.inj h
        simp

/-- Where no span number is negative, no round starts at a negative number. -/
theorem start_nonneg {total : Nat} {rounds : List CopyRound} {r : CopyRound} (hr : r ∈ rounds)
    (hnum : 0 < r.num)
    (hspans : rounds.flatMap CopyRound.spans = (List.range total).map fun k : Nat => (k : Int)) :
    0 ≤ r.start := by
  have hmem : r.start ∈ rounds.flatMap CopyRound.spans := by
    apply List.mem_flatMap.mpr
    refine ⟨r, hr, List.mem_map.mpr ⟨0, List.mem_range.mpr ?_, ?_⟩⟩
    · omega
    · exact Int.add_zero _
  rw [hspans] at hmem
  obtain ⟨k, -, hk⟩ := List.mem_map.mp hmem
  omega

/-- A loop that runs on starts with a round at its counter. -/
theorem copyLoop_head {total step size : Int} {fuel : Nat} {copyCnt : Int}
    {rounds : List CopyRound} (h : copyLoop total step size fuel copyCnt = some rounds)
    (hmore : copyCnt < total) :
    ∃ r rest fuel', rounds = r :: rest ∧ r.start = copyCnt ∧
      copyLoop total step size fuel' (int32 (copyCnt + step)) = some rest := by
  cases fuel with
  | zero => cases h
  | succ fuel =>
      unfold copyLoop at h
      rw [if_pos hmore] at h
      obtain ⟨rest, hrest, rfl⟩ := Option.map_eq_some_iff.mp h
      exact ⟨_, rest, fuel, rfl, rfl, hrest⟩

/-- The indices of the K and V spans of all layers of all nodes. -/
theorem flatMap_range_mul (n w : Nat) :
    ((List.range n).flatMap fun i => (List.range w).map fun j => i * w + j) =
      List.range (n * w) := by
  induction n with
  | zero => simp
  | succ n ih =>
      rw [List.range_succ, List.flatMap_append, ih, Nat.succ_mul, List.range_add]
      simp

theorem flatMap_range_pairs (n : Nat) :
    ((List.range n).flatMap fun k => [k * 2, k * 2 + 1]) = List.range (n * 2) :=
  flatMap_range_mul n 2

theorem flatMap_span_pairs (n w : Nat) :
    ((List.range n).flatMap fun i => (List.range w).flatMap fun j =>
      [(i * w + j) * 2, (i * w + j) * 2 + 1]) = List.range (n * w * 2) := by
  rw [← flatMap_range_pairs, ← flatMap_range_mul, List.flatMap_assoc]
  simp only [List.flatMap_map]

/-- The loop comes to every multiple of the step below the number of spans. -/
theorem copyLoop_counts {total step : Nat} {size : Int} {fuel : Nat} {rounds : List CopyRound}
    (htotal : total < 2 ^ 31) (hstep : step < 2 ^ 31)
    (h : copyLoop total step size fuel 0 = some rounds) (i : Nat) (hmore : i * step < total) :
    ∃ fuel' rest, copyLoop total step size fuel' (i * step : Nat) = some rest ∧
      ∀ r ∈ rest, r ∈ rounds := by
  induction i with
  | zero => exact ⟨fuel, rounds, by simpa using h, fun _ hr => hr⟩
  | succ i ih =>
      rw [Nat.add_mul, Nat.one_mul] at hmore ⊢
      obtain ⟨fuel', rest, hloop, hrest⟩ := ih (by omega)
      obtain ⟨r, rest', fuel'', rfl, -, hloop'⟩ := copyLoop_head hloop (by omega)
      rw [← Nat.cast_add, int32_natCast (by omega)] at hloop'
      exact ⟨fuel'', rest', hloop', fun r' hr' => hrest r' (List.mem_cons_of_mem _ hr')⟩

/-- Past the range of the counter, a round would start at a negative number. -/
theorem copyLoop_lastCount {total step : Nat} {size : Int} {fuel : Nat} {rounds : List CopyRound}
    (htotal : total < 2 ^ 31) (hpos : 0 < total) (hstep : 0 < step) (hle : step ≤ total)
    (h : copyLoop total step size fuel 0 = some rounds)
    (hstart : ∀ r ∈ rounds, 0 ≤ r.start) :
    (total + step - 1) / step * step < 2 ^ 31 := by
  by_contra hlast
  -- the last round of the loop is number `i`
  obtain ⟨i, hi⟩ : ∃ i, (total + step - 1) / step = i + 1 :=
    Nat.exists_eq_add_one.mpr (Nat.div_pos (by omega) hstep)
  have hmul := Nat.div_mul_le_self (total + step - 1) step
  rw [hi, Nat.add_mul, Nat.one_mul] at hlast hmul
  have hmore : i * step < total := by omega
  obtain ⟨fuel', rest, hloop, hrest⟩ := copyLoop_counts htotal (by omega) h i hmore
  obtain ⟨r, rest', fuel'', rfl, -, hloop'⟩ := copyLoop_head hloop (by omega)
  have hwrap : int32 ((i * step : Nat) + (step : Int)) < 0 := by
    rw [← Nat.cast_add, int32_natCast_eq]
    split <;> omega
  obtain ⟨r', rest'', _, rfl, hr', -⟩ := copyLoop_head hloop' (by omega)
  have := hstart r' (hrest r' (List.mem_cons_of_mem _ List.mem_cons_self))
  omega

namespace SwapSizes

section Values

attribute [local irreducible] Service.int32

variable {z : SwapSizes}

theorem total_pos (hnodes : z.nodeNum ≠ 0) : 0 < z.total :=
  Nat.mul_pos (Nat.mul_pos (Nat.pos_of_ne_zero hnodes) z.cacheNum_pos) Nat.two_pos

theorem total_lt (hbytes : z.total * z.spanSize < 2 ^ 31) : z.total < 2 ^ 31 :=
  Nat.lt_of_le_of_lt (Nat.le_mul_of_pos_right _ z.spanSize_pos) hbytes

theorem nodeNum_le : z.nodeNum ≤ z.total := by
  unfold total
  have h := Nat.le_mul_of_pos_right z.nodeNum z.cacheNum_pos
  omega

theorem nodeNumInt_eq (hbytes : z.total * z.spanSize < 2 ^ 31) : z.nodeNumInt = z.nodeNum :=
  int32_natCast (Nat.lt_of_le_of_lt nodeNum_le (total_lt hbytes))

theorem spanNum_eq (hbytes : z.total * z.spanSize < 2 ^ 31) : z.spanNum = z.total := by
  have htotal := total_lt hbytes
  unfold spanNum
  unfold total at htotal ⊢
  rw [nodeNumInt_eq hbytes, Service.int32_mul_left, ← Nat.cast_mul, ← Nat.cast_ofNat,
    ← Nat.cast_mul]
  exact int32_natCast htotal

theorem spanSizeInt_eq (hnodes : z.nodeNum ≠ 0) (hbytes : z.total * z.spanSize < 2 ^ 31) :
    z.spanSizeInt = z.spanSize :=
  int32_natCast (Nat.lt_of_le_of_lt (Nat.le_mul_of_pos_left _ (total_pos hnodes)) hbytes)

theorem totalBytes_eq (hnodes : z.nodeNum ≠ 0) (hbytes : z.total * z.spanSize < 2 ^ 31) :
    z.totalBytes = z.total * z.spanSize := by
  unfold totalBytes
  rw [spanNum_eq hbytes, spanSizeInt_eq hnodes hbytes, ← Nat.cast_mul]
  exact int32_natCast hbytes

theorem spanIndex_eq (hbytes : z.total * z.spanSize < 2 ^ 31) {i j : Nat} (hi : i < z.nodeNum)
    (hj : j < z.cacheNum) :
    z.spanIndex i j = ((i * z.cacheNum + j) * 2 : Nat) ∧
      int32 (z.spanIndex i j + 1) = ((i * z.cacheNum + j) * 2 + 1 : Nat) := by
  have htotal := total_lt hbytes
  have hlt : i * z.cacheNum + j < z.nodeNum * z.cacheNum := by
    have := Nat.mul_le_mul_right z.cacheNum (Nat.succ_le_of_lt hi)
    rw [Nat.succ_mul] at this
    omega
  unfold total at htotal
  have heq : z.spanIndex i j = ((i * z.cacheNum + j) * 2 : Nat) := by
    unfold spanIndex
    rw [← Nat.cast_mul, int32_natCast (by omega), ← Nat.cast_add, int32_natCast (by omega),
      ← Nat.cast_ofNat, ← Nat.cast_mul, int32_natCast (by omega)]
  refine ⟨heq, ?_⟩
  rw [heq, ← Nat.cast_one, ← Nat.cast_add, int32_natCast (by omega)]

theorem spanIndices_eq (hbytes : z.total * z.spanSize < 2 ^ 31) :
    z.spanIndices = (List.range z.total).map fun k : Nat => (k : Int) := by
  unfold spanIndices total
  rw [nodeNumInt_eq hbytes, Int.toNat_natCast, ← flatMap_span_pairs, List.map_flatMap]
  apply List.flatMap_congr
  intro i hi
  rw [List.map_flatMap]
  apply List.flatMap_congr
  intro j hj
  obtain ⟨hk, hv⟩ := spanIndex_eq hbytes (List.mem_range.mp hi) (List.mem_range.mp hj)
  rw [hk] at hv ⊢
  rw [hv]
  rfl

theorem spanOffsets_eq (hnodes : z.nodeNum ≠ 0) (hbytes : z.total * z.spanSize < 2 ^ 31)
    (direction : SwapDirection) :
    z.spanOffsets direction = (List.range z.total).map fun k : Nat => (k * z.spanSize : Int) := by
  have hoffset : ∀ k ∈ List.range z.total,
      int32 ((k : Int) * z.spanSizeInt) = (k * z.spanSize : Int) := by
    intro k hk
    have hlt := List.mem_range.mp hk
    rw [spanSizeInt_eq hnodes hbytes, ← Nat.cast_mul]
    apply int32_natCast
    exact Nat.lt_of_le_of_lt (Nat.mul_le_mul_right _ (Nat.le_of_lt hlt)) hbytes
  cases direction with
  | toCpu =>
      rw [spanOffsets, spanIndices_eq hbytes, List.map_map]
      apply List.map_congr_left
      intro k hk
      rw [Function.comp_apply, hoffset k hk]
  | toGpu =>
      rw [spanOffsets, spanNum_eq hbytes, Int.toNat_natCast]
      apply List.map_congr_left
      intro k hk
      rw [hoffset k hk]

theorem maxCopyNum_eq (hnodes : z.nodeNum ≠ 0) (hbytes : z.total * z.spanSize < 2 ^ 31) :
    z.maxCopyNum = if z.fitting < 2 ^ 31 then (z.fitting : Int) else z.fitting - 2 ^ 32 := by
  have hspan : z.spanSize < 2 ^ 31 :=
    Nat.lt_of_le_of_lt (Nat.le_mul_of_pos_left _ (total_pos hnodes)) hbytes
  have hsize : sizeT z.spanSizeInt = z.spanSize := by
    unfold sizeT
    rw [spanSizeInt_eq hnodes hbytes]
    omega
  unfold maxCopyNum fitting
  rw [hsize, int32_natCast_eq]
  split
  · omega
  · omega

theorem copyStep_eq (hbytes : z.total * z.spanSize < 2 ^ 31) (hnodes : z.nodeNum ≠ 0)
    (hfitting : z.fitting < 2 ^ 31) : z.copyStep = z.roundSpans := by
  unfold copyStep roundSpans
  rw [maxCopyNum_eq hnodes hbytes, if_pos hfitting, spanNum_eq hbytes]
  omega

/-- A full round fits in the GPU workspace. -/
theorem roundSpans_mul_le : z.roundSpans * z.spanSize ≤ z.gpuWorkspaceSize := by
  have hfitting : z.roundSpans ≤ min z.gpuWorkspaceSize z.cpuWorkspaceSize / z.spanSize :=
    Nat.le_trans (Nat.min_le_left _ _) (Nat.mod_le _ _)
  calc z.roundSpans * z.spanSize
      ≤ min z.gpuWorkspaceSize z.cpuWorkspaceSize / z.spanSize * z.spanSize :=
        Nat.mul_le_mul_right _ hfitting
    _ ≤ min z.gpuWorkspaceSize z.cpuWorkspaceSize := Nat.div_mul_le_self _ _
    _ ≤ z.gpuWorkspaceSize := Nat.min_le_left _ _

/-- Past the checks, a swap whose bytes are in range is its loop. -/
theorem swapNodelistImpl_eq (haccepted : z.Accepted) (hnodes : z.nodeNum ≠ 0)
    (hbytes : z.total * z.spanSize < 2 ^ 31) (direction : SwapDirection) (fuel : Nat) :
    z.swapNodelistImpl direction fuel =
      (copyLoop z.total z.copyStep z.spanSize fuel 0).map fun rounds =>
        .ok ⟨z.totalBytes, z.spanIndices, rounds, z.spanOffsets direction⟩ := by
  have hspan := z.spanSize_pos
  unfold swapNodelistImpl
  rw [if_neg (by rw [nodeNumInt_eq hbytes]; omega), if_neg (Int.not_lt.mpr haccepted.1),
    if_neg (by rw [spanNum_eq hbytes]; omega), if_neg (Nat.not_lt.mpr haccepted.2),
    spanSizeInt_eq hnodes hbytes, if_neg (by omega), spanNum_eq hbytes]

/-- Whatever a swap returns, its size in bytes is an `int`. -/
theorem totalBytes_lt {direction : SwapDirection} {fuel : Nat} {copies : SwapCopies}
    (h : z.swapNodelistImpl direction fuel = some (.ok copies)) : copies.totalBytes < 2 ^ 31 := by
  unfold swapNodelistImpl at h
  split at h
  · obtain rfl := Except.ok.inj (Option.some.inj h)
    exact Int.pow_pos (by omega)
  · split at h
    · simp at h
    · split at h
      · simp at h
      · split at h
        · simp at h
        · split at h
          · simp at h
          · obtain ⟨rounds, -, heq⟩ := Option.map_eq_some_iff.mp h
            obtain rfl := Except.ok.inj heq
            exact Service.int32_lt _

theorem inRange_of_swapsExactly (haccepted : z.Accepted) {direction : SwapDirection}
    (h : z.SwapsExactly direction) : z.InRange := by
  obtain ⟨fuel, copies, hcopies, hexact⟩ := h
  by_cases hnodes : z.nodeNum = 0
  · exact Or.inl hnodes
  have htotal := total_pos hnodes
  have hbytes : z.total * z.spanSize < 2 ^ 31 := by
    have hlt := totalBytes_lt hcopies
    rw [hexact.totalBytes] at hlt
    exact_mod_cast hlt
  rw [swapNodelistImpl_eq haccepted hnodes hbytes] at hcopies
  obtain ⟨rounds, hloop, heq⟩ := Option.map_eq_some_iff.mp hcopies
  obtain rfl := Except.ok.inj heq
  have hspans : rounds.flatMap CopyRound.spans =
    (List.range z.total).map fun k : Nat => (k : Int) := hexact.spans
  have hpos : 0 < z.copyStep := by
    by_contra hle
    have hnone : rounds.flatMap CopyRound.spans = [] := by
      apply List.flatMap_eq_nil_iff.mpr
      intro r hr
      have := (copyLoop_num hloop r hr).1
      simp [CopyRound.spans, Int.toNat_of_nonpos (show r.num ≤ 0 by omega)]
    rw [hnone] at hspans
    have hlength := congrArg List.length hspans
    simp only [List.length_nil, List.length_map, List.length_range] at hlength
    omega
  have hmax := maxCopyNum_eq hnodes hbytes
  have hfitting : 0 < z.fitting ∧ z.fitting < 2 ^ 31 := by
    have hle : z.copyStep ≤ z.maxCopyNum := Int.min_le_left _ _
    have hword : z.fitting < 2 ^ 32 := by
      unfold fitting
      exact Nat.mod_lt _ (Nat.two_pow_pos 32)
    rw [hmax] at hle
    split at hle <;> omega
  rw [copyStep_eq hbytes hnodes hfitting.2] at hloop hpos
  unfold InRange
  right
  refine ⟨hbytes, hfitting.1, hfitting.2, ?_⟩
  apply copyLoop_lastCount (total_lt hbytes) htotal (by omega) (Nat.min_le_right _ _) hloop
  intro r hr
  exact start_nonneg hr ((copyLoop_num hloop r hr).2 hpos) hspans

theorem swapsExactly_of_inRange (haccepted : z.Accepted) (direction : SwapDirection)
    (h : z.InRange) : z.SwapsExactly direction := by
  by_cases hnodes : z.nodeNum = 0
  · refine ⟨0, ⟨0, [], [], []⟩, ?_, ?_⟩
    · unfold swapNodelistImpl nodeNumInt
      rw [hnodes, int32_natCast (Nat.two_pow_pos 31)]
      rfl
    · have htotal : z.total = 0 := by simp [total, hnodes]
      constructor <;> simp [htotal]
  unfold InRange at h
  obtain ⟨hbytes, hfits, hfitting, hlast⟩ := h.resolve_left hnodes
  have htotal := total_pos hnodes
  have hstep : 0 < z.roundSpans := Nat.lt_min.mpr ⟨hfits, htotal⟩
  obtain ⟨rounds, hloop, hspans, hrounds⟩ :=
    copyLoop_ends hstep hbytes hlast (z.total + 1) 0 (by omega)
  rw [Nat.zero_mul, Nat.cast_zero, ← copyStep_eq hbytes hnodes hfitting] at hloop
  refine ⟨z.total + 1, ⟨z.totalBytes, z.spanIndices, rounds, z.spanOffsets direction⟩, ?_, ?_⟩
  · rw [swapNodelistImpl_eq haccepted hnodes hbytes, hloop]
    rfl
  · have hworkspace : z.total * z.spanSize ≤ z.cpuWorkspaceSize := by
      have hsize := haccepted.2
      unfold sizeT at hsize
      rw [totalBytes_eq hnodes hbytes, ← Nat.cast_mul] at hsize
      omega
    refine ⟨totalBytes_eq hnodes hbytes, spanIndices_eq hbytes, ?_,
      fun r hr => (hrounds r hr).2.2.2, ?_, spanOffsets_eq hnodes hbytes direction, ?_⟩
    · rw [hspans, Nat.zero_mul, Nat.sub_zero, List.range_eq_range']
    · intro r hr
      obtain ⟨hstart, hnum, hend, hoffset, hround⟩ := hrounds r hr
      rw [hoffset, hround, ← Int.add_mul]
      have hsize : (0 : Int) ≤ z.spanSize := Int.natCast_nonneg _
      have hcpu := Int.mul_le_mul_of_nonneg_right hend hsize
      have hgpu := Int.mul_le_mul_of_nonneg_right hnum hsize
      have hroom := roundSpans_mul_le (z := z)
      rw [← Nat.cast_mul] at hcpu hgpu
      exact ⟨Int.mul_nonneg hstart hsize, by omega, by omega⟩
    · intro offset hoffset
      rw [spanOffsets_eq hnodes hbytes] at hoffset
      obtain ⟨k, hk, rfl⟩ := List.mem_map.mp hoffset
      have hlast := Nat.mul_le_mul_right z.spanSize (Nat.succ_le_of_lt (List.mem_range.mp hk))
      rw [Nat.succ_mul] at hlast
      rw [← Nat.cast_mul]
      exact ⟨Int.natCast_nonneg _, by omega⟩

/-- A node list that the checks accept is copied span by span, in bounds and
with the right arithmetic, exactly if its sizes are in range. -/
theorem swapsExactly_iff (direction : SwapDirection) (z : SwapSizes) (haccepted : z.Accepted) :
    z.SwapsExactly direction ↔ z.InRange :=
  ⟨inRange_of_swapsExactly haccepted, swapsExactly_of_inRange haccepted direction⟩

end Values

/-- One node of two layers, which goes through the GPU workspace in two rounds. -/
def twoRounds : SwapSizes :=
  ⟨1, 2, 4, 8192, 16384, 4096, Nat.two_pos, Nat.two_pow_pos 12⟩

/-- One node of two layers, with a GPU workspace smaller than a span. -/
def smallWorkspace : SwapSizes :=
  ⟨1, 2, 4, 1024, 16384, 4096, Nat.two_pos, Nat.two_pow_pos 12⟩

/-- A prompt of 1024 nodes of 64 layers, whose spans have 32 KiB. -/
def longPrompt : SwapSizes :=
  ⟨1024, 64, 131072, 2 ^ 30, 2 ^ 32, 2 ^ 15, Nat.two_pow_pos 6, Nat.two_pow_pos 15⟩

theorem smallWorkspace_accepted : smallWorkspace.Accepted := by
  constructor <;> decide

theorem longPrompt_accepted : longPrompt.Accepted := by
  constructor <;> decide

theorem twoRounds_swapsExactly :
    twoRounds.Accepted ∧ twoRounds.SwapsExactly .toCpu ∧ twoRounds.SwapsExactly .toGpu := by
  have haccepted : twoRounds.Accepted := by
    constructor <;> decide
  have hrange : twoRounds.InRange := by
    unfold InRange
    decide
  exact ⟨haccepted, (swapsExactly_iff .toCpu twoRounds haccepted).mpr hrange,
    (swapsExactly_iff .toGpu twoRounds haccepted).mpr hrange⟩

/-- The loop makes no progress in a small workspace, and the size of a long
prompt wraps to zero and passes the check. -/
theorem swap_not_exact :
    (smallWorkspace.Accepted ∧ ¬ smallWorkspace.SwapsExactly .toCpu) ∧
      longPrompt.Accepted ∧ longPrompt.totalBytes = 0 ∧ ¬ longPrompt.SwapsExactly .toGpu := by
  refine ⟨⟨smallWorkspace_accepted, fun h => ?_⟩, longPrompt_accepted, by decide, fun h => ?_⟩
  · have hrange := inRange_of_swapsExactly smallWorkspace_accepted h
    revert hrange
    unfold InRange
    decide
  · have hrange := inRange_of_swapsExactly longPrompt_accepted h
    revert hrange
    unfold InRange
    decide

end SwapSizes

end DashInfer.Cache
