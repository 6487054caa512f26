import Mathlib
import DashInfer.Lib.Fallible
import DashInfer.Prefill.Placeholders
import DashInfer.Service.TensorMessage

/-!
`RichEmbeddingOp::Forward` on the buffers of its two backends. The rows of the
new tokens lie one after another in the output; the copy of an entry takes its
offsets and its size from `int` products. CUDA passes the tensor through a
buffer of its own and counts in elements. The CPU counts in bytes, except for
the offset into the tensor, which it takes in elements.
-/

namespace DashInfer.Prefill

open Lib Service

variable {α β γ σ : Type}

inductive OpError where
  | param (e : ParamError)
  | runtimeError
  | overflow
  | outOfBounds
deriving DecidableEq

/-- A product of `int` operands that are not negative. -/
def intProduct (x : Nat) : Except OpError Nat :=
  if x < 2 ^ 31 then .ok x else .error .overflow

def copied (out : Option (List γ)) : Except OpError (List γ) :=
  match out with
  | none => .error .outOfBounds
  | some out => .ok out

/-- The checks, and the loop over the entries with a backend's copy. -/
def forward (step : σ → RichEmbeddingInfo (List α) → Except OpError σ) (isContext : Bool)
    (batchSize : Nat) (extra : TensorListMap (List α)) (inputIds : List Int) (prefixLen : Nat)
    (s : σ) : Except OpError σ :=
  if ¬ isContext then .ok s
  else if extra.isEmpty then .ok s
  else if batchSize ≠ 1 then .error .runtimeError
  else
    match parseExtraEmbedding extra inputIds with
    | .error e => .error (.param e)
    | .ok infos => (infos.map (updateREInfo prefixLen)).foldlM step s

/-- `SizeofType` of `FLOAT32`. -/
def wordSize : Nat := 4

/-- `bytes` is how a `float` lies in memory. -/
def copyCpu (dtype : DataType) (bytes : α → List UInt8) (hiddenSize : Nat) (out : List UInt8)
    (info : RichEmbeddingInfo (List α)) : Except OpError (List UInt8) :=
  if info.startPos < 0 then .ok out
  else if dtype ≠ .float32 then .error .runtimeError
  else do
    let dst ← intProduct (info.startPos.toNat * hiddenSize * wordSize)
    let src ← intProduct (info.offset * hiddenSize)
    let len ← intProduct ((info.placeHolderCnt - info.offset) * hiddenSize * wordSize)
    copied (Region.copy (info.embedding.flatten.flatMap bytes) out ⟨dst, src, len⟩)

/-- `embedding_device_` and the output. -/
structure CudaBuffers (α β : Type) where
  device : List α
  out : List β

/-- `THREAD_PER_BLOCK`. -/
def threadPerBlock : Nat := 256

/-- `cast` is the kernel's conversion to the type of the model. -/
def copyCuda (cast : α → β) (hiddenSize : Nat) (s : CudaBuffers α β)
    (info : RichEmbeddingInfo (List α)) : Except OpError (CudaBuffers α β) :=
  if info.startPos < 0 then .ok s
  else do
    let whole ← intProduct (info.placeHolderCnt * hiddenSize)
    let device ← copied (Region.copy info.embedding.flatten s.device ⟨0, 0, whole⟩)
    let dst ← intProduct (info.startPos.toNat * hiddenSize)
    let src ← intProduct (info.offset * hiddenSize)
    let len ← intProduct ((info.placeHolderCnt - info.offset) * hiddenSize)
    let _ ← intProduct (len + threadPerBlock - 1)
    let out ← copied (Region.copy (device.map cast) s.out ⟨dst, src, len⟩)
    .ok ⟨device, out⟩

/-- The rows of the placeholders behind the prefix are those of their tensors,
and every other row is the one that was there. -/
structure Overwritten (cells : List α → List γ) (w : Nat) (extra : TensorListMap (List α))
    (ids : List Int) (prefixLen : Nat) (out out' : List γ) : Prop where
  length : out'.length = out.length
  rows : ∀ start len t, TensorOf extra ids start len t → ∀ k row, t[k]? = some row →
    prefixLen ≤ start + k → slice out' ((start + k - prefixLen) * w) w = cells row
  others : ∀ i, prefixLen + i < ids.length → ¬ IsPlaceholder extra ids (prefixLen + i) →
    slice out' (i * w) w = slice out (i * w) w

/-- The tensors of a request are matrices of `float`. -/
structure Embeddings (α : Type) where
  map : TensorListMap (List α)
  matrix : ∀ entry ∈ map, ∀ t ∈ entry.2, ∃ w, ∀ row ∈ t, row.length = w

section Left

variable {R : Type} {extra : TensorListMap R} {ids : List Int}
  {infos : List (RichEmbeddingInfo R)} {prefixLen : Nat}

/-- The entries that the copies are made for. -/
def leftOf (prefixLen : Nat) (infos : List (RichEmbeddingInfo R)) : List (RichEmbeddingInfo R) :=
  (infos.map (updateREInfo prefixLen)).filter fun info => decide (0 ≤ info.startPos)

/-- An entry that is left is what `UpdateREInfo` made of a run. -/
theorem mem_leftOf (h : parseExtraEmbedding extra ids = .ok infos) {left : RichEmbeddingInfo R} :
    left ∈ leftOf prefixLen infos ↔ ∃ start len t, TensorOf extra ids start len t ∧
      prefixLen < start + len ∧
      left = ⟨(start - prefixLen : Nat), len, prefixLen - start, t⟩ := by
  have hruns := recordsRuns_of_parse h
  unfold leftOf
  rw [List.mem_filter, decide_eq_true_iff]
  constructor
  · rintro ⟨hmem, hstart⟩
    obtain ⟨info, hinfo, rfl⟩ := List.mem_map.mp hmem
    obtain ⟨hnat, hoffset⟩ := hruns.whole info hinfo
    have hcnt := placeHolderCnt_pos h hinfo
    have htensor := (hruns.paired info hinfo).1
    refine ⟨info.startPos.toNat, info.placeHolderCnt, info.embedding, htensor, ?_⟩
    rcases lt_or_ge (prefixLen : Int) (info.startPos + info.placeHolderCnt) with hlt | hge
    · exact ⟨by omega, updateREInfo_left hnat hoffset hlt⟩
    · rw [updateREInfo_cached hcnt hnat hge] at hstart
      exact absurd hstart (by simp)
  · rintro ⟨start, len, t, htensor, hlt, rfl⟩
    obtain ⟨id, tensors, hrun, hkey, hget⟩ := htensor
    obtain ⟨info, hinfo, hstart, rfl⟩ := hruns.runs start len id hrun
    obtain ⟨hnat, hoffset⟩ := hruns.whole info hinfo
    obtain ⟨id', tensors', hrun', hkey', hget'⟩ := (hruns.paired info hinfo).1
    have hto : info.startPos.toNat = start := by omega
    rw [hto] at hrun' hget'
    have hid := hrun.same 0 hrun.nonempty
    rw [hrun'.same 0 hrun'.nonempty] at hid
    cases hid
    rw [hkey] at hkey'
    cases hkey'
    rw [hget] at hget'
    cases hget'
    refine ⟨List.mem_map.mpr ⟨info, hinfo, ?_⟩, Int.natCast_nonneg _⟩
    rw [updateREInfo_left hnat hoffset (by omega), hto]

theorem leftOf_pairwise (h : parseExtraEmbedding extra ids = .ok infos) :
    (leftOf prefixLen infos).Pairwise fun a b =>
      a.startPos.toNat + (a.placeHolderCnt - a.offset) ≤ b.startPos.toNat := by
  have hruns := recordsRuns_of_parse h
  unfold leftOf
  rw [List.pairwise_filter, List.pairwise_map]
  apply List.Pairwise.imp_of_mem _ hruns.ordered
  intro a b ha hb hends hleft hleft'
  obtain ⟨hnat, hoffset⟩ := hruns.whole a ha
  obtain ⟨hnat', hoffset'⟩ := hruns.whole b hb
  unfold EndsBefore at hends
  rcases lt_or_ge (prefixLen : Int) (a.startPos + a.placeHolderCnt) with hlt | hge
  · rcases lt_or_ge (prefixLen : Int) (b.startPos + b.placeHolderCnt) with hlt' | hge'
    · rw [updateREInfo_left hnat hoffset hlt, updateREInfo_left hnat' hoffset' hlt']
      dsimp only
      omega
    · rw [updateREInfo_cached (placeHolderCnt_pos h hb) hnat' hge'] at hleft'
      exact absurd hleft' (by simp)
  · rw [updateREInfo_cached (placeHolderCnt_pos h ha) hnat hge] at hleft
    exact absurd hleft (by simp)

theorem TensorOf.length_eq (h : parseExtraEmbedding extra ids = .ok infos) {start len : Nat}
    {t : List R} (ht : TensorOf extra ids start len t) :
    0 < len ∧ t.length = len ∧ start + len ≤ ids.length := by
  have hleft : (⟨(start - 0 : Nat), len, 0 - start, t⟩ : RichEmbeddingInfo R) ∈ leftOf 0 infos := by
    apply (mem_leftOf h).mpr
    have hpos : 0 < len := by
      obtain ⟨id, tensors, hrun, -⟩ := ht
      exact hrun.nonempty
    exact ⟨start, len, t, ht, by omega, rfl⟩
  unfold leftOf at hleft
  rw [List.mem_filter] at hleft
  obtain ⟨info, hinfo, heq⟩ := List.mem_map.mp hleft.1
  have hupdate : updateREInfo 0 info = info := by
    unfold updateREInfo
    rw [if_pos rfl]
  rw [hupdate] at heq
  have hplaced := (parseExtraEmbedding_spec h).1 info hinfo
  have hcnt := placeHolderCnt_pos h hinfo
  have hstop := hplaced.stop
  have hrows := hplaced.rows
  subst heq
  dsimp only at hcnt hstop hrows
  exact ⟨hcnt, hrows, by omega⟩

end Left

section Loop

variable {extra : TensorListMap (List α)} {ids : List Int}
  {infos : List (RichEmbeddingInfo (List α))} {prefixLen : Nat}

theorem intProduct_eq_ok {x y : Nat} : intProduct x = .ok y ↔ x < 2 ^ 31 ∧ x = y := by
  unfold intProduct
  split
  next hlt => exact ⟨fun h => ⟨hlt, Except.ok.inj h⟩, fun h => by rw [h.2]⟩
  next hge =>
    constructor
    · intro h
      cases h
    · intro h
      exact absurd h.1 hge

theorem copied_eq_ok {out : Option (List γ)} {out' : List γ} :
    copied out = .ok out' ↔ out = some out' := by
  cases out with
  | none => simp [copied]
  | some out => simp [copied]

/-- An accepted prompt's context step is the loop over its entries. -/
theorem forward_eq (step : σ → RichEmbeddingInfo (List α) → Except OpError σ)
    (h : parseExtraEmbedding extra ids = .ok infos) (s : σ) :
    forward step true 1 extra ids prefixLen s =
      (infos.map (updateREInfo prefixLen)).foldlM step s := by
  unfold forward
  rw [if_neg (by simp)]
  split
  next hempty =>
    rw [parseExtraEmbedding, if_pos hempty] at h
    cases h
    rfl
  next => rw [if_neg (by simp), h]

/-- What is copied for an entry: rows of `w` cells, from the cell `start` of
what the entry's tensor is stored as. -/
def rowsTarget (w : Nat) (store : List (List α) → List γ) (start : Nat → Nat)
    (info : RichEmbeddingInfo (List α)) : List γ × Region :=
  (store info.embedding,
    ⟨info.startPos.toNat * w, start info.offset, (info.placeHolderCnt - info.offset) * w⟩)

variable {w : Nat} {store : List (List α) → List γ} {start : Nat → Nat} {out out' : List γ}

theorem rowsTarget_pairwise (h : parseExtraEmbedding extra ids = .ok infos) :
    ((leftOf prefixLen infos).map (rowsTarget w store start)).Pairwise
      fun c d => d.2.Apart c.2.dst c.2.len := by
  rw [List.pairwise_map]
  apply (leftOf_pairwise h).imp
  intro a b hle
  left
  calc a.startPos.toNat * w + (a.placeHolderCnt - a.offset) * w =
        (a.startPos.toNat + (a.placeHolderCnt - a.offset)) * w := (Nat.add_mul _ _ _).symm
    _ ≤ b.startPos.toNat * w := Nat.mul_le_mul_right w hle

/-- The targets lie inside the output. -/
theorem rowsTarget_inside (h : parseExtraEmbedding extra ids = .ok infos)
    {info : RichEmbeddingInfo (List α)} (hinfo : info ∈ leftOf prefixLen infos) :
    info.startPos.toNat * w + (info.placeHolderCnt - info.offset) * w ≤
      (ids.length - prefixLen) * w := by
  obtain ⟨start, len, t, ht, hlt, rfl⟩ := (mem_leftOf h).mp hinfo
  have hlen := ht.length_eq h
  dsimp only
  rw [← Nat.add_mul, Int.toNat_natCast]
  exact Nat.mul_le_mul_right w (by omega)

variable {cells : List α → List γ}

/-- The copies put the rows where they belong exactly if each reads its own
rows. -/
theorem overwritten_iff (h : parseExtraEmbedding extra ids = .ok infos)
    (hcopies : copyEach out ((leftOf prefixLen infos).map (rowsTarget w store start)) = some out') :
    Overwritten cells w extra ids prefixLen out out' ↔
      ∀ info ∈ leftOf prefixLen infos, ∀ k row, info.embedding[info.offset + k]? = some row →
        slice (store info.embedding) (start info.offset + k * w) w = cells row := by
  -- Row `k` of an entry's target is row `k` of what was read for it.
  have hread : ∀ info ∈ leftOf prefixLen infos, ∀ k < info.placeHolderCnt - info.offset,
      slice out' ((info.startPos.toNat + k) * w) w =
        slice (store info.embedding) (start info.offset + k * w) w := by
    intro info hinfo k hk
    have hcopy := slice_copyEach (rowsTarget_pairwise h) hcopies _ (List.mem_map_of_mem hinfo)
    have hinside : k * w + w ≤ (info.placeHolderCnt - info.offset) * w := by
      rw [← Nat.succ_mul]
      exact Nat.mul_le_mul_right w hk
    rw [Nat.add_mul, ← slice_slice out' _ _ _ _ hinside, ← slice_slice _ (start info.offset) _ _ _ hinside]
    exact congrArg (fun b => slice b (k * w) w) hcopy
  constructor
  · intro hover info hinfo k row hrow
    obtain ⟨first, len, t, ht, hlt, rfl⟩ := (mem_leftOf h).mp hinfo
    obtain ⟨-, hlen, -⟩ := ht.length_eq h
    obtain ⟨hk, -⟩ := List.getElem?_eq_some_iff.mp hrow
    dsimp only at hrow hk ⊢
    rw [← hread _ hinfo k (by dsimp only; omega)]
    have hat := hover.rows first len t ht _ row hrow (by omega)
    rw [Int.toNat_natCast, ← hat]
    congr 2
    omega
  · intro hrows
    refine ⟨length_copyEach hcopies, ?_, ?_⟩
    · intro first len t ht k row hrow hbehind
      obtain ⟨-, hlen, -⟩ := ht.length_eq h
      obtain ⟨hk, -⟩ := List.getElem?_eq_some_iff.mp hrow
      have hinfo : (⟨(first - prefixLen : Nat), len, prefixLen - first, t⟩ :
          RichEmbeddingInfo (List α)) ∈ leftOf prefixLen infos :=
        (mem_leftOf h).mpr ⟨first, len, t, ht, by omega, rfl⟩
      have hsplit : prefixLen - first + (k - (prefixLen - first)) = k := by omega
      have hself := hrows _ hinfo (k - (prefixLen - first)) row (by
        dsimp only
        rw [hsplit]
        exact hrow)
      rw [← hself, ← hread _ hinfo _ (by dsimp only; omega)]
      dsimp only
      rw [Int.toNat_natCast]
      congr 2
      omega
    · intro i hi hnot
      apply slice_copyEach_apart hcopies
      intro c hc
      obtain ⟨info, hinfo, rfl⟩ := List.mem_map.mp hc
      obtain ⟨first, len, t, ht, hlt, rfl⟩ := (mem_leftOf h).mp hinfo
      obtain ⟨id, tensors, hrun, -⟩ := ht
      unfold rowsTarget Region.Apart
      dsimp only
      rw [Int.toNat_natCast]
      rcases Nat.lt_or_ge i (first - prefixLen) with hbefore | hge
      · left
        rw [← Nat.succ_mul]
        exact Nat.mul_le_mul_right w hbefore
      · right
        rw [← Nat.add_mul]
        apply Nat.mul_le_mul_right
        by_contra hinside
        apply hnot
        refine ⟨id, ?_, hrun.key⟩
        have hsame := hrun.same (prefixLen + i - first) (by omega)
        rw [← hsame]
        congr 1
        omega

/-- The tensor of a run is a matrix. -/
theorem TensorOf.uniform {e : Embeddings α} {first len : Nat} {t : List (List α)}
    (ht : TensorOf e.map ids first len t) : ∃ v, ∀ row ∈ t, row.length = v := by
  obtain ⟨id, tensors, -, hkey, hget⟩ := ht
  obtain ⟨before, after, heq, -⟩ := List.lookup_eq_some_iff.mp hkey
  apply e.matrix (toString id, tensors) _ t (List.mem_of_getElem? hget)
  rw [heq]
  exact List.mem_append_right _ List.mem_cons_self

/-- Rows of `w` cells that are read from another start are the tensor's own
exactly if the runs of cells coincide. -/
theorem rows_iff_slice {t : List (List α)} (hw : ∀ row ∈ t, (cells row).length = w)
    (from' offset : Nat) (hle : offset ≤ t.length) :
    (∀ k row, t[offset + k]? = some row → slice (t.map cells).flatten (from' + k * w) w = cells row) ↔
      slice (t.map cells).flatten from' ((t.length - offset) * w) =
        slice (t.map cells).flatten (offset * w) ((t.length - offset) * w) := by
  have hmap : ∀ row ∈ t.map cells, row.length = w := by
    intro row hrow
    obtain ⟨row', hrow', rfl⟩ := List.mem_map.mp hrow
    exact hw row' hrow'
  have hown : ∀ k row, t[offset + k]? = some row →
      slice (t.map cells).flatten (offset * w + k * w) w = cells row := by
    intro k row hrow
    rw [← Nat.add_mul]
    apply slice_flatten hmap
    rw [List.getElem?_map, hrow, Option.map_some]
  constructor
  · intro h
    rw [← flatMap_slice, ← flatMap_slice]
    apply flatMap_congr
    intro k hk
    have hlt : offset + k < t.length := by
      have hk := List.mem_range.mp hk
      omega
    have hrow := List.getElem?_eq_getElem hlt
    rw [h k _ hrow, hown k _ hrow]
  · intro h k row hrow
    obtain ⟨hlt, -⟩ := List.getElem?_eq_some_iff.mp hrow
    have hinside : k * w + w ≤ (t.length - offset) * w := by
      rw [← Nat.succ_mul]
      exact Nat.mul_le_mul_right w (by omega)
    rw [← hown k row hrow, ← slice_slice _ _ _ _ _ hinside, h, slice_slice _ _ _ _ _ hinside]

/-- A backend's context step is exact if and only if every copy it makes is in
range, of rows as wide as the model's, and reads the rows it should. -/
theorem forward_exact_iff {e : Embeddings α} (w : Nat) (cells : List α → List γ)
    (start : Nat → Nat) (buf : σ → List γ) {Inv : σ → Prop}
    {step : σ → RichEmbeddingInfo (List α) → Except OpError σ}
    {Good : RichEmbeddingInfo (List α) → Prop} (h : parseExtraEmbedding e.map ids = .ok infos)
    (hcells : ∀ row row' : List α, row.length = row'.length →
      (cells row).length = (cells row').length)
    (hstart : ∀ offset, start offset ≤ offset * w)
    (hstep : ∀ info ∈ infos.map (updateREInfo prefixLen), Copies step buf Inv
      (fun info => decide (0 ≤ info.startPos)) Good
      (rowsTarget w (fun t => (t.map cells).flatten) start) info)
    {s : σ} (hs : Inv s) (hout : (buf s).length = (ids.length - prefixLen) * w) :
    (∃ s', forward step true 1 e.map ids prefixLen s = .ok s' ∧
        Overwritten cells w e.map ids prefixLen (buf s) (buf s')) ↔
      ∀ info ∈ leftOf prefixLen infos, Good info ∧
        (∀ row ∈ info.embedding, (cells row).length = w) ∧
        slice (info.embedding.map cells).flatten (start info.offset)
            ((info.placeHolderCnt - info.offset) * w) =
          slice (info.embedding.map cells).flatten (info.offset * w)
            ((info.placeHolderCnt - info.offset) * w) := by
  rw [forward_eq step h, foldlM_copies_iff hstep hs (Overwritten cells w e.map ids prefixLen (buf s))]
  change (∀ info ∈ leftOf prefixLen infos, Good info) ∧ (∃ out, copyEach (buf s)
    ((leftOf prefixLen infos).map (rowsTarget w _ start)) = some out ∧ _) ↔ _
  constructor
  · rintro ⟨hgood, out, hcopies, hover⟩ info hinfo
    have hrows := (overwritten_iff h hcopies).mp hover info hinfo
    have hfits := (fits_of_copyEach hcopies _ (List.mem_map_of_mem hinfo)).2
    obtain ⟨first, len, t, ht, hlt, rfl⟩ := (mem_leftOf h).mp hinfo
    obtain ⟨hpos, hlen, -⟩ := ht.length_eq h
    obtain ⟨v, hv⟩ := ht.uniform
    unfold rowsTarget at hfits
    dsimp only at hrows hfits ⊢
    have hat : prefixLen - first < t.length := by omega
    have hwidth : (cells t[prefixLen - first]).length = w := by
      have hread := hrows 0 t[prefixLen - first] (List.getElem?_eq_getElem hat)
      rw [Nat.zero_mul, Nat.add_zero] at hread
      rw [← hread]
      apply length_slice
      have hone : 1 * w ≤ (len - (prefixLen - first)) * w := Nat.mul_le_mul_right w (by omega)
      omega
    have hall : ∀ row ∈ t, (cells row).length = w := by
      intro row hrow
      rw [← hwidth]
      apply hcells
      rw [hv row hrow, hv _ (List.getElem_mem hat)]
    have hslice := (rows_iff_slice hall (start (prefixLen - first)) _ hat.le).mp hrows
    rw [hlen] at hslice
    exact ⟨hgood _ hinfo, hall, hslice⟩
  · intro hruns
    refine ⟨fun info hinfo => (hruns info hinfo).1, ?_⟩
    obtain ⟨out, hcopies, -⟩ : ∃ out, copyEach (buf s) ((leftOf prefixLen infos).map
        (rowsTarget w (fun t => (t.map cells).flatten) start)) = some out ∧ _ := by
      apply copyEach_isSome
      intro c hc
      obtain ⟨info, hinfo, rfl⟩ := List.mem_map.mp hc
      refine ⟨(rowsTarget_inside h hinfo).trans hout.ge, ?_⟩
      obtain ⟨first, len, t, ht, hlt, rfl⟩ := (mem_leftOf h).mp hinfo
      obtain ⟨-, hlen, -⟩ := ht.length_eq h
      have hall := (hruns _ hinfo).2.1
      unfold rowsTarget
      dsimp only at hall ⊢
      rw [length_flatten_uniform (w := w) (by simpa using hall), List.length_map, hlen]
      calc start (prefixLen - first) + (len - (prefixLen - first)) * w ≤
            (prefixLen - first) * w + (len - (prefixLen - first)) * w :=
              Nat.add_le_add_right (hstart _) _
        _ = len * w := by
              rw [← Nat.add_mul]
              congr 1
              omega
    refine ⟨out, hcopies, (overwritten_iff h hcopies).mpr ?_⟩
    intro info hinfo
    obtain ⟨-, hall, hslice⟩ := hruns info hinfo
    obtain ⟨first, len, t, ht, hlt, rfl⟩ := (mem_leftOf h).mp hinfo
    obtain ⟨-, hlen, -⟩ := ht.length_eq h
    dsimp only at hall hslice ⊢
    rw [← hlen] at hslice
    exact (rows_iff_slice hall _ _ (by omega)).mpr hslice

end Loop

end DashInfer.Prefill
