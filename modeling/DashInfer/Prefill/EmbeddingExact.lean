import Mathlib
import DashInfer.Prefill.EmbeddingCopy
import DashInfer.WeightFile.Sparse

/-!
When the context step puts exactly the right rows over the placeholders. On
CUDA it does wherever its `int` products and its buffer hold the rows. On the
CPU the rows of a run that the cached prefix cuts are read from a wrong byte.
-/

namespace DashInfer.Prefill

open Lib

variable {α β γ : Type}

section Backends

variable {info : RichEmbeddingInfo (List α)} {hidden device : Nat}

/-- The sizes of a CPU copy are values of `int`. -/
structure CpuCounts (hidden : Nat) (info : RichEmbeddingInfo (List α)) : Prop where
  target : info.startPos.toNat * hidden * wordSize < 2 ^ 31
  source : info.offset * hidden < 2 ^ 31
  size : (info.placeHolderCnt - info.offset) * hidden * wordSize < 2 ^ 31

/-- The sizes of a CUDA copy are values of `int`, and the tensor fits into
`embedding_device_`. -/
structure CudaCounts (hidden device : Nat) (info : RichEmbeddingInfo (List α)) : Prop where
  whole : info.placeHolderCnt * hidden < 2 ^ 31
  fits : info.placeHolderCnt * hidden ≤ device
  target : info.startPos.toNat * hidden < 2 ^ 31
  threads : (info.placeHolderCnt - info.offset) * hidden + threadPerBlock - 1 < 2 ^ 31

/-- The bytes of a tensor. -/
theorem flatten_bytes (bytes : α → List UInt8) (t : List (List α)) :
    t.flatten.flatMap bytes = (t.map fun row => row.flatMap bytes).flatten := by
  induction t with
  | nil => rfl
  | cons row rest ih => simp [ih]

theorem copyCpu_copies (bytes : α → List UInt8) (info : RichEmbeddingInfo (List α)) :
    Copies (copyCpu .float32 bytes hidden) (fun out => out) (fun _ => True)
      (fun info => decide (0 ≤ info.startPos)) (CpuCounts hidden)
      (rowsTarget (hidden * wordSize) (fun t => (t.map fun row => row.flatMap bytes).flatten)
        (· * hidden)) info := by
  have htarget : rowsTarget (hidden * wordSize)
      (fun t => (t.map fun row => row.flatMap bytes).flatten) (· * hidden) info =
        (info.embedding.flatten.flatMap bytes, ⟨info.startPos.toNat * hidden * wordSize,
          info.offset * hidden, (info.placeHolderCnt - info.offset) * hidden * wordSize⟩) := by
    unfold rowsTarget
    rw [flatten_bytes, Nat.mul_assoc, Nat.mul_assoc]
  constructor
  · intro hleft out
    unfold copyCpu
    rw [if_pos (by simpa using hleft)]
  · intro hleft out out' _ h
    unfold copyCpu at h
    rw [if_neg (by simpa using hleft), if_neg (by simp)] at h
    obtain ⟨dst, hdst, h⟩ := bind_eq_ok_iff.mp h
    obtain ⟨src, hsrc, h⟩ := bind_eq_ok_iff.mp h
    obtain ⟨len, hlen, h⟩ := bind_eq_ok_iff.mp h
    have hcopy := copied_eq_ok.mp h
    obtain ⟨htarget_lt, rfl⟩ := intProduct_eq_ok.mp hdst
    obtain ⟨hsource_lt, rfl⟩ := intProduct_eq_ok.mp hsrc
    obtain ⟨hsize_lt, rfl⟩ := intProduct_eq_ok.mp hlen
    rw [htarget]
    exact ⟨trivial, ⟨htarget_lt, hsource_lt, hsize_lt⟩, hcopy⟩
  · intro hleft out out' _ hgood hcopy
    rw [htarget] at hcopy
    refine ⟨out', ?_, rfl⟩
    unfold copyCpu
    rw [if_neg (by simpa using hleft), if_neg (by simp)]
    apply bind_eq_ok_iff.mpr ⟨_, intProduct_eq_ok.mpr ⟨hgood.target, rfl⟩, _⟩
    apply bind_eq_ok_iff.mpr ⟨_, intProduct_eq_ok.mpr ⟨hgood.source, rfl⟩, _⟩
    apply bind_eq_ok_iff.mpr ⟨_, intProduct_eq_ok.mpr ⟨hgood.size, rfl⟩, _⟩
    exact copied_eq_ok.mpr hcopy

/-- What the device buffer holds behind the upload is the tensor, as far as the
kernel reads. -/
theorem slice_upload {whole src len : Nat} {data dev dev' : List α}
    (h : Region.copy data dev ⟨0, 0, whole⟩ = some dev') (hle : src + len ≤ whole) :
    slice dev' src len = slice data src len := by
  have hall : slice dev' 0 whole = slice data 0 whole := Region.slice_copy h
  rw [← Nat.zero_add src, ← slice_slice dev' 0 whole src len hle, hall, slice_slice _ _ _ _ _ hle]

theorem slice_map (f : α → β) (b : List α) (o n : Nat) :
    slice (b.map f) o n = (slice b o n).map f := by
  rw [slice, slice, List.map_take, List.map_drop]

/-- The kernel's copy is one from the tensor itself. -/
theorem copy_upload (cast : α → β) {whole src len dst : Nat} {data dev dev' : List α} {out : List β}
    (h : Region.copy data dev ⟨0, 0, whole⟩ = some dev') (hle : src + len ≤ whole) :
    Region.copy (dev'.map cast) out ⟨dst, src, len⟩ =
      Region.copy (data.map cast) out ⟨dst, src, len⟩ := by
  have hfits : Region.Fits ⟨0, 0, whole⟩ dev.length data.length := by
    by_contra hne
    rw [Region.copy, if_neg hne] at h
    cases h
  obtain ⟨hdev, hdata⟩ := hfits
  dsimp only at hdev hdata
  have hlen := Region.length_copy h
  apply Region.copy_congr
  · dsimp only
    rw [slice_map, slice_map, slice_upload h hle]
  · rw [List.length_map]
    dsimp only
    omega
  · rw [List.length_map]
    dsimp only
    omega

theorem copyCuda_copies (cast : α → β) (hoffset : info.offset ≤ info.placeHolderCnt) :
    Copies (copyCuda cast hidden) CudaBuffers.out (fun s => s.device.length = device)
      (fun info => decide (0 ≤ info.startPos)) (CudaCounts hidden device)
      (rowsTarget hidden (fun t => (t.map fun row => row.map cast).flatten) (· * hidden)) info := by
  have htarget : rowsTarget hidden (fun t => (t.map fun row => row.map cast).flatten) (· * hidden)
      info = (info.embedding.flatten.map cast, ⟨info.startPos.toNat * hidden,
        info.offset * hidden, (info.placeHolderCnt - info.offset) * hidden⟩) := by
    unfold rowsTarget
    rw [List.map_flatten]
  have hread : info.offset * hidden + (info.placeHolderCnt - info.offset) * hidden =
      info.placeHolderCnt * hidden := by
    rw [← Nat.add_mul, Nat.add_sub_cancel' hoffset]
  constructor
  · intro hleft s
    unfold copyCuda
    rw [if_pos (by simpa using hleft)]
  · intro hleft s s' hs h
    unfold copyCuda at h
    rw [if_neg (by simpa using hleft)] at h
    obtain ⟨whole, hwhole, h⟩ := bind_eq_ok_iff.mp h
    obtain ⟨dev, hdev, h⟩ := bind_eq_ok_iff.mp h
    obtain ⟨dst, hdst, h⟩ := bind_eq_ok_iff.mp h
    obtain ⟨src, hsrc, h⟩ := bind_eq_ok_iff.mp h
    obtain ⟨len, hlen, h⟩ := bind_eq_ok_iff.mp h
    obtain ⟨threads, hthreads, h⟩ := bind_eq_ok_iff.mp h
    obtain ⟨out, hout, h⟩ := bind_eq_ok_iff.mp h
    cases h
    obtain ⟨hwhole_lt, rfl⟩ := intProduct_eq_ok.mp hwhole
    obtain ⟨htarget_lt, rfl⟩ := intProduct_eq_ok.mp hdst
    obtain ⟨-, rfl⟩ := intProduct_eq_ok.mp hsrc
    obtain ⟨-, rfl⟩ := intProduct_eq_ok.mp hlen
    obtain ⟨hthreads_lt, rfl⟩ := intProduct_eq_ok.mp hthreads
    have hup := copied_eq_ok.mp hdev
    have hcopy := copied_eq_ok.mp hout
    rw [copy_upload cast hup hread.le] at hcopy
    rw [htarget]
    refine ⟨(Region.length_copy hup).trans hs, ⟨hwhole_lt, ?_, htarget_lt, hthreads_lt⟩, hcopy⟩
    by_contra hlong
    rw [Region.copy, if_neg] at hup
    · cases hup
    · rintro ⟨hle, -⟩
      dsimp only at hle
      omega
  · intro hleft s out hs hgood hcopy
    rw [htarget] at hcopy
    have hdata : info.placeHolderCnt * hidden ≤ info.embedding.flatten.length := by
      have hle := (Region.fits_of_copy hcopy).2
      dsimp only at hle
      rw [List.length_map] at hle
      omega
    have hup : ∃ dev, Region.copy info.embedding.flatten s.device
        ⟨0, 0, info.placeHolderCnt * hidden⟩ = some dev := by
      refine ⟨_, if_pos ⟨?_, ?_⟩⟩
      · dsimp only
        rw [hs, Nat.zero_add]
        exact hgood.fits
      · dsimp only
        omega
    obtain ⟨dev, hup⟩ := hup
    rw [← copy_upload cast hup hread.le] at hcopy
    have hsize : (info.placeHolderCnt - info.offset) * hidden < 2 ^ 31 := by
      have hwhole := hgood.whole
      omega
    have hsource : info.offset * hidden < 2 ^ 31 := by
      have hwhole := hgood.whole
      omega
    refine ⟨⟨dev, out⟩, ?_, rfl⟩
    unfold copyCuda
    rw [if_neg (by simpa using hleft)]
    apply bind_eq_ok_iff.mpr ⟨_, intProduct_eq_ok.mpr ⟨hgood.whole, rfl⟩, _⟩
    apply bind_eq_ok_iff.mpr ⟨_, copied_eq_ok.mpr hup, _⟩
    apply bind_eq_ok_iff.mpr ⟨_, intProduct_eq_ok.mpr ⟨hgood.target, rfl⟩, _⟩
    apply bind_eq_ok_iff.mpr ⟨_, intProduct_eq_ok.mpr ⟨hsource, rfl⟩, _⟩
    apply bind_eq_ok_iff.mpr ⟨_, intProduct_eq_ok.mpr ⟨hsize, rfl⟩, _⟩
    apply bind_eq_ok_iff.mpr ⟨_, intProduct_eq_ok.mpr ⟨hgood.threads, rfl⟩, _⟩
    exact bind_eq_ok_iff.mpr ⟨_, copied_eq_ok.mpr hcopy, rfl⟩

end Backends

/-- How a `float` lies in memory. -/
structure FloatBytes (α : Type) where
  bytes : α → List UInt8
  four : ∀ x, (bytes x).length = wordSize

section Exact

variable {e : Embeddings α} {ids : List Int} {infos : List (RichEmbeddingInfo (List α))}
  {prefixLen hidden : Nat} {f : FloatBytes α} {cast : α → β} {out : List UInt8}
  {s : CudaBuffers α β}

/-- The entries are the placeholder runs, what is left of them covers the
placeholders behind the prefix, and both backends put the rows of exactly these
over those that are there. -/
structure PlaceholdersCovered (f : FloatBytes α) (cast : α → β) (hidden : Nat) (e : Embeddings α)
    (ids : List Int) (infos : List (RichEmbeddingInfo (List α))) (prefixLen : Nat)
    (out : List UInt8) (s : CudaBuffers α β) : Prop where
  records : RecordsRuns e.map ids infos
  leaves : LeavesRest e.map ids infos prefixLen
  cpu : ∃ out', forward (copyCpu .float32 f.bytes hidden) true 1 e.map ids prefixLen out = .ok out' ∧
    Overwritten (fun row => row.flatMap f.bytes) (hidden * wordSize) e.map ids prefixLen out out'
  cuda : ∃ s', forward (copyCuda cast hidden) true 1 e.map ids prefixLen s = .ok s' ∧
    Overwritten (fun row => row.map cast) hidden e.map ids prefixLen s.out s'.out

/-- The rows of a run are as wide as the model's, the copy's sizes are values of
`int` and fit into the device buffer, and the bytes of the tensor from the
element offset of the cut on are those from its byte offset on. -/
structure RunInRange (f : FloatBytes α) (hidden device prefixLen start len : Nat)
    (t : List (List α)) : Prop where
  width : ∀ row ∈ t, row.length = hidden
  whole : len * hidden < 2 ^ 31
  fits : len * hidden ≤ device
  target : (start - prefixLen) * hidden * wordSize < 2 ^ 31
  size : (len - (prefixLen - start)) * hidden * wordSize < 2 ^ 31
  threads : (len - (prefixLen - start)) * hidden + threadPerBlock - 1 < 2 ^ 31
  bytes : slice (t.flatten.flatMap f.bytes) ((prefixLen - start) * hidden)
      ((len - (prefixLen - start)) * hidden * wordSize) =
    slice (t.flatten.flatMap f.bytes) ((prefixLen - start) * hidden * wordSize)
      ((len - (prefixLen - start)) * hidden * wordSize)

theorem length_rowBytes (f : FloatBytes α) (row : List α) :
    (row.flatMap f.bytes).length = row.length * wordSize := by
  induction row with
  | nil => simp
  | cons x rest ih =>
      rw [List.flatMap_cons, List.length_append, f.four, ih, List.length_cons, Nat.succ_mul,
        Nat.add_comm]

theorem offset_le (h : parseExtraEmbedding e.map ids = .ok infos) :
    ∀ info ∈ infos.map (updateREInfo prefixLen), info.offset ≤ info.placeHolderCnt := by
  intro info hinfo
  obtain ⟨run, hrun, rfl⟩ := List.mem_map.mp hinfo
  obtain ⟨hnat, hoffset⟩ := (recordsRuns_of_parse h).whole run hrun
  rcases lt_or_ge (prefixLen : Int) (run.startPos + run.placeHolderCnt) with hlt | hge
  · rw [updateREInfo_left hnat hoffset hlt]
    dsimp only
    omega
  · rw [updateREInfo_cached (placeHolderCnt_pos h hrun) hnat hge]

/-- The CPU's copies are exact. -/
theorem forwardCpu_exact_iff (h : parseExtraEmbedding e.map ids = .ok infos)
    (hout : out.length = (ids.length - prefixLen) * (hidden * wordSize)) :
    (∃ out', forward (copyCpu .float32 f.bytes hidden) true 1 e.map ids prefixLen out = .ok out' ∧
        Overwritten (fun row => row.flatMap f.bytes) (hidden * wordSize) e.map ids prefixLen out
          out') ↔
      ∀ info ∈ leftOf prefixLen infos, CpuCounts hidden info ∧
        (∀ row ∈ info.embedding, row.length = hidden) ∧
        slice (info.embedding.flatten.flatMap f.bytes) (info.offset * hidden)
            ((info.placeHolderCnt - info.offset) * hidden * wordSize) =
          slice (info.embedding.flatten.flatMap f.bytes) (info.offset * hidden * wordSize)
            ((info.placeHolderCnt - info.offset) * hidden * wordSize) := by
  have hword : 0 < wordSize := by decide
  have hwidth : ∀ row row' : List α, row.length = row'.length →
      (row.flatMap f.bytes).length = (row'.flatMap f.bytes).length := by
    intro row row' heq
    rw [length_rowBytes, length_rowBytes, heq]
  have hstart : ∀ offset, offset * hidden ≤ offset * (hidden * wordSize) := by
    intro offset
    rw [← Nat.mul_assoc]
    exact Nat.le_mul_of_pos_right _ hword
  rw [forward_exact_iff (hidden * wordSize) (fun row => row.flatMap f.bytes) (· * hidden)
    (fun out => out) h hwidth hstart (fun info _ => copyCpu_copies f.bytes info) trivial hout]
  simp only [length_rowBytes, flatten_bytes, Nat.mul_assoc, Nat.mul_right_cancel_iff hword]

/-- CUDA's copies are exact. -/
theorem forwardCuda_exact_iff (h : parseExtraEmbedding e.map ids = .ok infos)
    (hout : s.out.length = (ids.length - prefixLen) * hidden) :
    (∃ s', forward (copyCuda cast hidden) true 1 e.map ids prefixLen s = .ok s' ∧
        Overwritten (fun row => row.map cast) hidden e.map ids prefixLen s.out s'.out) ↔
      ∀ info ∈ leftOf prefixLen infos, CudaCounts hidden s.device.length info ∧
        ∀ row ∈ info.embedding, row.length = hidden := by
  have hwidth : ∀ row row' : List α, row.length = row'.length →
      (row.map cast).length = (row'.map cast).length := by
    intro row row' heq
    rw [List.length_map, List.length_map, heq]
  rw [forward_exact_iff hidden (fun row => row.map cast) (· * hidden) CudaBuffers.out h hwidth
    (fun _ => Nat.le_refl _) (fun info hinfo => copyCuda_copies cast (offset_le h info hinfo)) rfl
    hout]
  simp only [List.length_map, and_true]

/-- What an exact context step says of a run. -/
theorem runInRange_of_covered (h : parseExtraEmbedding e.map ids = .ok infos)
    (hout : out.length = (ids.length - prefixLen) * (hidden * wordSize))
    (hs : s.out.length = (ids.length - prefixLen) * hidden)
    (hcovered : PlaceholdersCovered f cast hidden e ids infos prefixLen out s) {start len : Nat}
    {t : List (List α)} (ht : TensorOf e.map ids start len t) (hlt : prefixLen < start + len) :
    RunInRange f hidden s.device.length prefixLen start len t := by
  have hleft : (⟨(start - prefixLen : Nat), len, prefixLen - start, t⟩ :
      RichEmbeddingInfo (List α)) ∈ leftOf prefixLen infos :=
    (mem_leftOf h).mpr ⟨start, len, t, ht, hlt, rfl⟩
  obtain ⟨hcpu, hwidth, hbytes⟩ := (forwardCpu_exact_iff h hout).mp hcovered.cpu _ hleft
  obtain ⟨hcuda, -⟩ := (forwardCuda_exact_iff h hs).mp hcovered.cuda _ hleft
  have htarget := hcpu.target
  dsimp only at htarget hwidth hbytes
  rw [Int.toNat_natCast] at htarget
  exact ⟨hwidth, hcuda.whole, hcuda.fits, htarget, hcpu.size, hcuda.threads, hbytes⟩

/-- For every accepted prompt and every cached prefix, the operator covers the
placeholders exactly on both backends if and only if every run that is left
lies in range, and the prefix does not cut a run whose bytes tell the CPU's
offset from the right one. -/
theorem placeholdersCovered_iff (h : parseExtraEmbedding e.map ids = .ok infos)
    (hout : out.length = (ids.length - prefixLen) * (hidden * wordSize))
    (hs : s.out.length = (ids.length - prefixLen) * hidden) :
    PlaceholdersCovered f cast hidden e ids infos prefixLen out s ↔
      ∀ start len t, TensorOf e.map ids start len t → prefixLen < start + len →
        RunInRange f hidden s.device.length prefixLen start len t := by
  constructor
  · intro hcovered start len t ht hlt
    exact runInRange_of_covered h hout hs hcovered ht hlt
  · intro hruns
    refine ⟨recordsRuns_of_parse h, leavesRest_of_parse h prefixLen,
      (forwardCpu_exact_iff h hout).mpr ?_, (forwardCuda_exact_iff h hs).mpr ?_⟩
    · intro info hinfo
      obtain ⟨start, len, t, ht, hlt, rfl⟩ := (mem_leftOf h).mp hinfo
      have hrun := hruns start len t ht hlt
      have hwhole := hrun.whole
      have hsource : (prefixLen - start) * hidden ≤ len * hidden := Nat.mul_le_mul_right _ (by omega)
      refine ⟨⟨?_, ?_, hrun.size⟩, hrun.width, hrun.bytes⟩
      · dsimp only
        rw [Int.toNat_natCast]
        exact hrun.target
      · dsimp only
        omega
    · intro info hinfo
      obtain ⟨start, len, t, ht, hlt, rfl⟩ := (mem_leftOf h).mp hinfo
      have hrun := hruns start len t ht hlt
      refine ⟨⟨hrun.whole, hrun.fits, ?_, hrun.threads⟩, hrun.width⟩
      have htarget := hrun.target
      have hle : (start - prefixLen) * hidden ≤ (start - prefixLen) * hidden * wordSize :=
        Nat.le_mul_of_pos_right _ (by decide)
      dsimp only
      rw [Int.toNat_natCast]
      omega

end Exact

section Example

/-- A `float` by its bits. -/
def floatBits : FloatBytes UInt32 where
  bytes x := WeightFile.littleEndian wordSize x.toNat
  four x := WeightFile.length_littleEndian wordSize x.toNat

theorem matrix_twoRows : ∀ entry ∈ [("9", [[[(1 : UInt32)], [2]]])], ∀ t ∈ entry.2,
    ∃ w, ∀ row ∈ t, row.length = w := by
  intro entry hentry t ht
  refine ⟨1, ?_⟩
  rw [List.mem_singleton.mp hentry] at ht
  rw [List.mem_singleton.mp ht]
  decide

/-- One tensor of two rows for the placeholder `9`. -/
def twoRows : Embeddings UInt32 where
  map := [("9", [[[1], [2]]])]
  matrix := matrix_twoRows

theorem parse_twoRows : parseExtraEmbedding twoRows.map [9, 9] = .ok [⟨0, 2, 0, [[1], [2]]⟩] := by
  have hkey : twoRows.map.lookup (toString (9 : Int)) = some [[[1], [2]]] := by decide
  unfold parseExtraEmbedding
  rw [if_neg (by decide), parseFrom]
  simp only [hkey]
  simp [runLength, parseFrom]
  rfl

theorem tensorOf_twoRows : TensorOf twoRows.map [9, 9] 0 2 [[1], [2]] :=
  ((recordsRuns_of_parse parse_twoRows).paired _ List.mem_cons_self).1

/-- A prompt without a cached prefix. -/
theorem placeholdersCovered_iff_twoRows :
    PlaceholdersCovered floatBits id 1 twoRows [9, 9] [⟨0, 2, 0, [[1], [2]]⟩] 0
        (List.replicate 8 0) ⟨[0, 0], [0, 0]⟩ ↔
      ∀ start len t, TensorOf twoRows.map [9, 9] start len t → 0 < start + len →
        RunInRange floatBits 1 2 0 start len t :=
  placeholdersCovered_iff parse_twoRows rfl rfl

/-- Behind a prefix of one token the CPU takes the bytes from the second byte
of the first row on. -/
theorem cut_run_not_covered :
    parseExtraEmbedding twoRows.map [9, 9] = .ok [⟨0, 2, 0, [[1], [2]]⟩] ∧
      ¬ PlaceholdersCovered floatBits id 1 twoRows [9, 9] [⟨0, 2, 0, [[1], [2]]⟩] 1
        (List.replicate 4 0) ⟨[0, 0], [0]⟩ := by
  refine ⟨parse_twoRows, ?_⟩
  intro hcovered
  have hrun := runInRange_of_covered parse_twoRows rfl rfl hcovered tensorOf_twoRows (by decide)
  exact absurd hrun.bytes (by decide)

end Example

end DashInfer.Prefill
