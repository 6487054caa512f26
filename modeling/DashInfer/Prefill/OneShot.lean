import Mathlib
import DashInfer.Cache.Replay
import DashInfer.Prefill.Chunks

/-!
Whether the context calls of a request amount to one start on its whole prompt.
A chunk carries neither the extra embeddings nor the format enforcer of the
request, and leaves `input_ids` cut for the check that the next call makes on
it: chunks are faithful on plain text alone.
-/

namespace DashInfer.Prefill

open Cache

variable {R F : Type}

/-- A context call that amounts to a start on the whole prompt: it brings the
prefill forward, feeds the rows of the whole prompt at its positions, shows no
token before the prefill is complete, and runs under the request's own LoRA,
response format and format enforcer. -/
structure AsOneShot (a : Admitted R F) (step : Step R F) : Prop where
  increases : step.before.prefillChunkLen < step.after.prefillChunkLen
  rows : ∃ whole, feed a.extraEmbedding a.inputIds 0 = .ok whole ∧
    step.started.rows = (whole.take step.started.genCtx.inputLen).drop step.started.prefixLen
  hidden : step.after.prefillChunkLen ≠ step.after.inputLen → shown step.after = []
  loraName : step.started.genCtx.genCfg.loraName = a.genCfg.loraName
  responseFormat : step.started.genCtx.genCfg.responseFormat = a.genCfg.responseFormat
  formatEnforcer : step.started.genCtx.formatEnforcer = (buildGenContext a.request).formatEnforcer

/-- The calls complete the prefill, and each of them amounts to a start on the
whole prompt. -/
def PrefillsAsOneShot (lim : Limits) (calls : Nat → Call) (a : Admitted R F) : Prop :=
  ∃ k steps last, prefills lim calls a.request k = .ok (steps, last) ∧
    last.prefillChunkLen = last.inputLen ∧ ∀ step ∈ steps, AsOneShot a step

/-- Where the context call of a number starts while the calls before it were
chunks. -/
def chunkStart (lim : Limits) (calls : Nat → Call) (a : Admitted R F) : Nat → Nat
  | 0 => cachedLen lim.cache (calls 0).found a.inputIds.length
  | k + 1 => chunkStart lim calls a k + lim.maxPrefillLength

def chunkLen (lim : Limits) (calls : Nat → Call) (a : Admitted R F) (k : Nat) : Nat :=
  chunkStart lim calls a k + lim.maxPrefillLength + 1

/-- The context call of this number is not the last. -/
def IsChunk (lim : Limits) (calls : Nat → Call) (a : Admitted R F) (k : Nat) : Prop :=
  isWarmupRequest a.requestId = false ∧ chunkLen lim calls a k < a.inputIds.length

instance (lim : Limits) (calls : Nat → Call) (a : Admitted R F) (k : Nat) :
    Decidable (IsChunk lim calls a k) :=
  inferInstanceAs (Decidable (_ ∧ _))

/-- The prefix that the chunk of this number finds filled. -/
def chunkPrefix (lim : Limits) (calls : Nat → Call) (a : Admitted R F) (k : Nat) : Nat :=
  cachedLen lim.cache (calls k).filled (chunkLen lim calls a k)

/-- The first context call finds a `hash_input` tensor for every run. -/
def HashInputsMatch (a : Admitted R F) : Prop :=
  createTensorForHash a.extraEmbedding a.inputIds = .ok ()

section Chunked

variable {lim : Limits} {calls : Nat → Call} {a : Admitted R F}

/-- The request after a number of chunks. -/
private def chunked (lim : Limits) (calls : Nat → Call) (a : Admitted R F) : Nat → Request R F
  | 0 => a.request
  | k + 1 =>
      { a.request with
        inputShape := chunkLen lim calls a k
        outputs := a.inputIds.take (chunkLen lim calls a k) ++ [(calls k).token]
        prefillChunkLen := chunkStart lim calls a k + lim.maxPrefillLength }

/-- The context call of a chunk. -/
private def chunkStep (lim : Limits) (calls : Nat → Call) (a : Admitted R F) (k : Nat) :
    Step R F where
  before := { chunked lim calls a k with prefillChunkLen := chunkStart lim calls a k }
  started :=
    { genCtx :=
        { genCfg := { a.genCfg with maxLength := chunkLen lim calls a k + 1 }
          inputLen := chunkLen lim calls a k
          formatEnforcer := none }
      prefixLen := chunkPrefix lim calls a k
      rows := ((a.inputIds.take (chunkLen lim calls a k)).drop
        (chunkPrefix lim calls a k)).map Row.token }
  after := chunked lim calls a (k + 1)

/-- The check of the call behind this number of chunks. -/
private def Checks (lim : Limits) (calls : Nat → Call) (a : Admitted R F) (k : Nat) : Prop :=
  createTensorForHash (chunked lim calls a k).extraEmbedding
    ((chunked lim calls a k).inputIds.take (chunked lim calls a k).inputShape) = .ok ()

@[simp] private theorem chunked_requestId (k : Nat) :
    (chunked lim calls a k).requestId = a.requestId := by
  cases k <;> rfl

@[simp] private theorem chunked_inputIds (k : Nat) :
    (chunked lim calls a k).inputIds = a.inputIds := by
  cases k <;> rfl

@[simp] private theorem chunked_genCfg (k : Nat) :
    (chunked lim calls a k).genCfg = a.genCfg := by
  cases k <;> rfl

@[simp] private theorem chunked_inputLen (k : Nat) :
    (chunked lim calls a k).inputLen = a.inputIds.length := by
  cases k <;> rfl

@[simp] private theorem chunked_originLen (k : Nat) :
    (chunked lim calls a k).originLen = a.inputIds.length := by
  cases k <;> rfl

@[simp] private theorem chunked_status (k : Nat) : (chunked lim calls a k).status = .init := by
  cases k <;> rfl

@[simp] private theorem chunked_extraEmbedding (k : Nat) :
    (chunked lim calls a k).extraEmbedding = a.extraEmbedding := by
  cases k <;> rfl

@[simp] private theorem chunked_formatEnforcer (k : Nat) :
    (chunked lim calls a k).formatEnforcer = a.request.formatEnforcer := by
  cases k <;> rfl

/-- A call starts at what `RefOnly` found, or where the chunk before it ended. -/
private theorem refOnly_chunked (k : Nat) :
    refOnly lim (calls k) (chunked lim calls a k) =
      { chunked lim calls a k with prefillChunkLen := chunkStart lim calls a k } := by
  cases k with
  | zero => rfl
  | succ k =>
      have hpos : (chunked lim calls a (k + 1)).prefillChunkLen ≠ 0 := by
        have hmax := lim.maxPrefillLength_pos
        simp only [chunked]
        omega
      unfold refOnly
      rw [if_neg hpos]
      rfl

/-- A call before the last one starts a chunk. -/
private theorem generateContinueContext_chunk {k : Nat} (hchunk : IsChunk lim calls a k)
    (hcheck : Checks lim calls a k) :
    generateContinueContext lim (calls k) (chunked lim calls a k) =
      .ok (chunkStep lim calls a k) := by
  obtain ⟨hwarm, hlen⟩ := hchunk
  have hrun : prefillChunkRequest lim (calls k)
      { chunked lim calls a k with prefillChunkLen := chunkStart lim calls a k } = _ :=
    prefillChunkRequest_chunk (chunkLen lim calls a k) (by simpa using hwarm) rfl
      (by simpa using hlen)
  unfold generateContinueContext
  rw [hcheck, refOnly_chunked]
  simp only [hrun]
  cases k <;> rfl

/-- Before its last call, a prefill is not complete. -/
private theorem chunkStart_lt {k : Nat} (hchunks : ∀ j < k, IsChunk lim calls a j) :
    chunkStart lim calls a k < a.inputIds.length := by
  cases k with
  | zero =>
      have hpos := a.inputIds_pos
      exact cachedLen_lt _ _ hpos
  | succ k =>
      have hlt := (hchunks k (Nat.lt_succ_self k)).2
      unfold chunkLen at hlt
      simp only [chunkStart]
      omega

private theorem not_complete {k : Nat} (hchunks : ∀ j < k, IsChunk lim calls a j) :
    (chunked lim calls a k).prefillChunkLen ≠ (chunked lim calls a k).inputLen := by
  rw [chunked_inputLen]
  cases k with
  | zero =>
      have hpos := a.inputIds_pos
      exact Nat.ne_of_lt hpos
  | succ k => exact Nat.ne_of_lt (chunkStart_lt hchunks)

/-- The last call starts the request on its whole prompt. -/
private theorem generateContinueContext_last {k : Nat} {whole : List (Row R)}
    (hchunks : ∀ j < k, IsChunk lim calls a j) (hlast : ¬ IsChunk lim calls a k)
    (hcheck : Checks lim calls a k)
    (hwhole : ∀ prefixLen, feed a.extraEmbedding a.inputIds prefixLen = .ok (whole.drop prefixLen))
    (hlen : whole.length ≤ a.inputIds.length) :
    ∃ step, generateContinueContext lim (calls k) (chunked lim calls a k) = .ok step ∧
      step.after.prefillChunkLen = step.after.inputLen ∧ AsOneShot a step := by
  have hcase : isWarmupRequest a.requestId = true ∧
      (chunked lim calls a k).inputShape = a.inputIds.length ∨
      isWarmupRequest a.requestId = false ∧
        a.inputIds.length ≤ chunkStart lim calls a k + lim.maxPrefillLength + 1 := by
    cases hwarm : isWarmupRequest a.requestId with
    | true =>
        left
        cases k with
        | zero => exact ⟨rfl, rfl⟩
        | succ k =>
            have hfirst := (hchunks 0 (Nat.succ_pos k)).1
            rw [hwarm] at hfirst
            cases hfirst
    | false => exact Or.inr ⟨rfl, Nat.le_of_not_lt (fun hlt => hlast ⟨hwarm, hlt⟩)⟩
  have hrun : prefillChunkRequest lim (calls k)
      { chunked lim calls a k with prefillChunkLen := chunkStart lim calls a k } = _ :=
    prefillChunkRequest_last (by simpa using hcase) (by simpa using hwhole _)
  unfold generateContinueContext
  rw [hcheck, refOnly_chunked]
  simp only [hrun]
  refine ⟨_, rfl, rfl, ?_⟩
  constructor
  · simpa using chunkStart_lt hchunks
  · refine ⟨whole, hwhole 0, ?_⟩
    simp [buildGenContext, List.take_of_length_le hlen]
  · intro hne
    exact absurd rfl hne
  · simp [buildGenContext]
  · simp [buildGenContext]
  · simp only [buildGenContext, chunked_genCfg, chunked_formatEnforcer]
    rfl

private theorem formatEnforcer_request :
    (buildGenContext a.request).formatEnforcer =
      if a.genCfg.IsJson then a.formatEnforcer else none := by
  show (if a.genCfg.IsJson then (if a.genCfg.IsJson then a.formatEnforcer else none) else none) = _
  split <;> rfl

/-- A chunk amounts to a start on the whole prompt when it needs no format
enforcer and feeds no placeholder. -/
private theorem asOneShot_chunkStep {k : Nat} {whole : List (Row R)}
    (hwhole : ∀ prefixLen, feed a.extraEmbedding a.inputIds prefixLen = .ok (whole.drop prefixLen))
    (hrows : ∀ i, (IsPlaceholder a.extraEmbedding a.inputIds i →
        ∃ row, whole[i]? = some (.extra row)) ∧
      (¬ IsPlaceholder a.extraEmbedding a.inputIds i →
        whole[i]? = a.inputIds[i]?.map Row.token)) :
    AsOneShot a (chunkStep lim calls a k) ↔
      ¬ a.genCfg.IsJson ∧ ∀ i, IsPlaceholder a.extraEmbedding a.inputIds i →
        chunkPrefix lim calls a k ≤ i → chunkLen lim calls a k ≤ i := by
  constructor
  · intro h
    constructor
    · intro hjson
      have hsome := a.formatEnforcer_isSome hjson
      have hnone : none = (buildGenContext a.request).formatEnforcer := h.formatEnforcer
      rw [formatEnforcer_request, if_pos hjson] at hnone
      rw [← hnone] at hsome
      cases hsome
    · intro i hplace hle
      by_contra hnot
      obtain ⟨other, hother, heq⟩ := h.rows
      rw [hwhole 0] at hother
      cases hother
      obtain ⟨row, hrow⟩ := (hrows i).1 hplace
      have hget := congrArg (fun rows => rows[i - chunkPrefix lim calls a k]?) heq
      simp only [chunkStep, List.getElem?_map, List.getElem?_drop,
        Nat.add_sub_cancel' hle, List.getElem?_take_of_lt (Nat.lt_of_not_le hnot)] at hget
      rw [Nat.zero_add, hrow] at hget
      cases hid : a.inputIds[i]? <;> rw [hid] at hget <;> cases hget
  · rintro ⟨hjson, hplaces⟩
    constructor
    · have hmax := lim.maxPrefillLength_pos
      show chunkStart lim calls a k < chunkStart lim calls a k + lim.maxPrefillLength
      omega
    · refine ⟨whole, hwhole 0, ?_⟩
      apply List.ext_getElem?
      intro i
      simp only [chunkStep, List.getElem?_map, List.getElem?_drop, List.getElem?_take]
      split
      next hlt =>
        rw [(hrows _).2 (fun hplace => absurd (hplaces _ hplace (Nat.le_add_right ..))
          (Nat.not_le_of_lt hlt))]
      next => rfl
    · intro _
      simp [shown, chunkStep]
    · rfl
    · rfl
    · rw [formatEnforcer_request, if_neg hjson]
      rfl

private theorem checks_zero : Checks lim calls a 0 ↔ HashInputsMatch a := by
  have htake : a.inputIds.take a.request.inputShape = a.inputIds := List.take_length
  show createTensorForHash a.extraEmbedding (a.inputIds.take a.request.inputShape) = .ok () ↔ _
  rw [htake]
  rfl

/-- The check passes when as many runs are parsed as there are tensors. -/
private theorem createTensorForHash_iff {ids : List Int} (hne : a.extraEmbedding.isEmpty = false) :
    createTensorForHash a.extraEmbedding ids = .ok () ↔
      ∃ tensors infos, a.extraEmbedding.lookup "hash_input" = some tensors ∧
        parseExtraEmbedding a.extraEmbedding ids = .ok infos ∧ tensors.length = infos.length := by
  unfold createTensorForHash
  rw [hne, if_neg Bool.false_ne_true]
  cases hkey : a.extraEmbedding.lookup "hash_input" with
  | none => simp
  | some tensors =>
      cases hparse : parseExtraEmbedding a.extraEmbedding ids with
      | error e => simp [bind, Except.bind]
      | ok infos => simp [bind, Except.bind]

/-- The check behind a chunk finds all runs exactly when the chunk was not cut
before the end of the last. -/
private theorem checks_succ {k : Nat} (hmatch : HashInputsMatch a) :
    Checks lim calls a (k + 1) ↔
      ∀ i, IsPlaceholder a.extraEmbedding a.inputIds i → i < chunkLen lim calls a k := by
  have hcut : Checks lim calls a (k + 1) ↔ createTensorForHash a.extraEmbedding
      (a.inputIds.take (chunkLen lim calls a k)) = .ok () := Iff.rfl
  rw [hcut]
  cases hempty : a.extraEmbedding.isEmpty with
  | true =>
      rw [List.isEmpty_iff.mp hempty]
      simp [createTensorForHash, IsPlaceholder]
  | false =>
      obtain ⟨tensors, infos, hkey, hparse, hcount⟩ := (createTensorForHash_iff hempty).mp hmatch
      rw [createTensorForHash_iff hempty]
      constructor
      · rintro ⟨others, cut, hkey', hparse', hcount'⟩ i hplace
        rw [hkey] at hkey'
        cases hkey'
        by_contra hnot
        have hfewer := parseExtraEmbedding_take_lt hparse hparse' hplace (Nat.le_of_not_lt hnot)
        omega
      · intro hlast
        exact ⟨tensors, infos, hkey, by rw [parseExtraEmbedding_take hlast, hparse], hcount⟩

/-- While every call is a chunk, the run is the chunks so far. -/
private theorem prefills_chunks {k : Nat} (hchunks : ∀ j < k, IsChunk lim calls a j)
    (hchecks : ∀ j < k, Checks lim calls a j) :
    prefills lim calls a.request k =
      .ok ((List.range k).map (chunkStep lim calls a), chunked lim calls a k) := by
  induction k with
  | zero => rfl
  | succ k ih =>
      have hbefore := ih (fun j hj => hchunks j (Nat.lt_succ_of_lt hj))
        (fun j hj => hchecks j (Nat.lt_succ_of_lt hj))
      have hstep := generateContinueContext_chunk (hchunks k (Nat.lt_succ_self k))
        (hchecks k (Nat.lt_succ_self k))
      have hopen := not_complete (fun j hj => hchunks j (Nat.lt_succ_of_lt hj))
      rw [prefills, hbefore]
      simp only [bind, Except.bind]
      rw [if_neg hopen, hstep, List.range_succ, List.map_append]
      rfl

/-- A run only adds to the calls of a shorter one. -/
private theorem prefills_le {j k : Nat} {request last : Request R F} {steps : List (Step R F)}
    (hle : j ≤ k) (h : prefills lim calls request k = .ok (steps, last)) :
    ∃ before mid, prefills lim calls request j = .ok (before, mid) ∧ before <+: steps := by
  induction k generalizing steps last with
  | zero =>
      rw [Nat.le_zero.mp hle]
      exact ⟨steps, last, h, List.prefix_refl steps⟩
  | succ k ih =>
      rcases Nat.lt_or_ge k j with hlt | hge
      · rw [Nat.le_antisymm hle hlt]
        exact ⟨steps, last, h, List.prefix_refl steps⟩
      · rw [prefills] at h
        cases hrun : prefills lim calls request k with
        | error e =>
            rw [hrun] at h
            cases h
        | ok earlier =>
            obtain ⟨earlierSteps, mid⟩ := earlier
            obtain ⟨before, first, hfirst, hbefore⟩ := ih hge hrun
            refine ⟨before, first, hfirst, hbefore.trans ?_⟩
            rw [hrun] at h
            simp only [bind, Except.bind] at h
            split at h
            next =>
              cases h
              exact List.prefix_refl _
            next =>
              cases hstep : generateContinueContext lim (calls k) mid with
              | error e =>
                  rw [hstep] at h
                  cases h
              | ok step =>
                  rw [hstep] at h
                  cases h
                  exact List.prefix_append ..

private theorem checks_of_step {k : Nat} {step : Step R F}
    (h : generateContinueContext lim (calls k) (chunked lim calls a k) = .ok step) :
    Checks lim calls a k := by
  unfold Checks
  unfold generateContinueContext at h
  cases hcheck : createTensorForHash (chunked lim calls a k).extraEmbedding
      ((chunked lim calls a k).inputIds.take (chunked lim calls a k).inputShape) with
  | error e =>
      rw [hcheck] at h
      cases h
  | ok _ => rfl

/-- A call behind chunks alone passed its check, and so did they. -/
private theorem checks_of_prefills {k : Nat} {last : Request R F} {steps : List (Step R F)}
    (hchunks : ∀ j < k, IsChunk lim calls a j)
    (h : prefills lim calls a.request (k + 1) = .ok (steps, last)) :
    ∀ j ≤ k, Checks lim calls a j := by
  intro j
  induction j using Nat.strongRecOn with
  | ind j ih =>
      intro hj
      have hearlier : ∀ i < j, IsChunk lim calls a i :=
        fun i hi => hchunks i (Nat.lt_of_lt_of_le hi hj)
      have hrun := prefills_chunks hearlier (fun i hi => ih i hi (Nat.le_trans (Nat.le_of_lt hi) hj))
      obtain ⟨before, mid, hnext, -⟩ := prefills_le (Nat.succ_le_succ hj) h
      rw [prefills, hrun] at hnext
      simp only [bind, Except.bind] at hnext
      rw [if_neg (not_complete hearlier)] at hnext
      cases hstep : generateContinueContext lim (calls j) (chunked lim calls a j) with
      | error e =>
          rw [hstep] at hnext
          cases hnext
      | ok step => exact checks_of_step hstep

/-- As long as its calls were chunks, a run made these chunks. -/
private theorem prefills_inv {k : Nat} {last : Request R F} {steps : List (Step R F)}
    (hchunks : ∀ j < k, IsChunk lim calls a j)
    (h : prefills lim calls a.request k = .ok (steps, last)) :
    steps = (List.range k).map (chunkStep lim calls a) ∧ last = chunked lim calls a k := by
  have hchecks : ∀ j < k, Checks lim calls a j := by
    cases k with
    | zero =>
        intro j hj
        exact absurd hj (Nat.not_lt_zero j)
    | succ k =>
        intro j hj
        exact checks_of_prefills (fun i hi => hchunks i (Nat.lt_succ_of_lt hi)) h j
          (Nat.le_of_lt_succ hj)
  rw [prefills_chunks hchunks hchecks] at h
  cases h
  exact ⟨rfl, rfl⟩

/-- Some call is the last. -/
private theorem exists_last (lim : Limits) (calls : Nat → Call) (a : Admitted R F) :
    ∃ k, (∀ j < k, IsChunk lim calls a j) ∧ ¬ IsChunk lim calls a k := by
  have hgrows : ∀ k, k ≤ chunkStart lim calls a k := by
    intro k
    induction k with
    | zero => exact Nat.zero_le _
    | succ k ih =>
        have hmax := lim.maxPrefillLength_pos
        simp only [chunkStart]
        omega
  have hexists : ∃ k, ¬ IsChunk lim calls a k := by
    refine ⟨a.inputIds.length, fun hchunk => ?_⟩
    have hlt := hchunk.2
    have hle := hgrows a.inputIds.length
    unfold chunkLen at hlt
    omega
  refine ⟨Nat.find hexists, fun j hj => ?_, Nat.find_spec hexists⟩
  by_contra hnot
  exact Nat.find_min hexists hj hnot

private theorem isChunk_of_le {j k : Nat} (hle : j ≤ k) (h : IsChunk lim calls a k) :
    IsChunk lim calls a j := by
  refine ⟨h.1, Nat.lt_of_le_of_lt ?_ h.2⟩
  have hmono : chunkStart lim calls a j ≤ chunkStart lim calls a k :=
    monotone_nat_of_le_succ (fun _ => Nat.le_add_right _ _) hle
  unfold chunkLen
  omega

/-- The rows of the whole prompt. -/
private theorem whole_spec (a : Admitted R F) :
    ∃ whole : List (Row R),
      (∀ prefixLen, feed a.extraEmbedding a.inputIds prefixLen = .ok (whole.drop prefixLen)) ∧
      (∀ i, (IsPlaceholder a.extraEmbedding a.inputIds i →
          ∃ row, whole[i]? = some (.extra row)) ∧
        (¬ IsPlaceholder a.extraEmbedding a.inputIds i →
          whole[i]? = a.inputIds[i]?.map Row.token)) ∧
      whole.length ≤ a.inputIds.length := by
  have hparses := a.parses
  cases hparse : parseExtraEmbedding a.extraEmbedding a.inputIds with
  | error e =>
      rw [hparse] at hparses
      cases hparses
  | ok infos =>
      obtain ⟨whole, hfeed, hrows⟩ := feed_spec hparse
      refine ⟨whole, hfeed, hrows, ?_⟩
      rw [← List.getElem?_eq_none_iff]
      have hbeyond : a.inputIds[a.inputIds.length]? = none :=
        List.getElem?_eq_none_iff.mpr (Nat.le_refl _)
      rw [(hrows _).2, hbeyond]
      · rfl
      · rintro ⟨id, hget, -⟩
        rw [hbeyond] at hget
        cases hget

/-- A run that amounts to one start passes the first check, and its chunks need
no format enforcer and have every placeholder in the prefix they find filled. -/
private theorem chunks_plain (h : PrefillsAsOneShot lim calls a) :
    HashInputsMatch a ∧ ∀ k, IsChunk lim calls a k → ¬ a.genCfg.IsJson ∧
      ∀ i, IsPlaceholder a.extraEmbedding a.inputIds i → i < chunkPrefix lim calls a k := by
  obtain ⟨n, steps, last, hrun, hcomplete, hsteps⟩ := h
  obtain ⟨final, hchunks, hfinal⟩ := exists_last lim calls a
  obtain ⟨whole, hwhole, hrows, -⟩ := whole_spec a
  have hlt : final < n := by
    by_contra hnot
    have hall : ∀ j < n, IsChunk lim calls a j :=
      fun j hj => hchunks j (Nat.lt_of_lt_of_le hj (Nat.le_of_not_lt hnot))
    rw [(prefills_inv hall hrun).2] at hcomplete
    exact not_complete hall hcomplete
  obtain ⟨upto, mid, hupto, -⟩ := prefills_le (Nat.succ_le_of_lt hlt) hrun
  have hchecks := checks_of_prefills hchunks hupto
  obtain ⟨before, left, hbefore, hprefix⟩ := prefills_le (Nat.le_of_lt hlt) hrun
  have hmatch := checks_zero.mp (hchecks 0 (Nat.zero_le _))
  refine ⟨hmatch, fun k hk => ?_⟩
  have hearly : k < final := by
    by_contra hnot
    exact hfinal (isChunk_of_le (Nat.le_of_not_lt hnot) hk)
  have hmem : chunkStep lim calls a k ∈ steps := by
    apply hprefix.subset
    rw [(prefills_inv hchunks hbefore).1]
    exact List.mem_map_of_mem (List.mem_range.mpr hearly)
  obtain ⟨hjson, hplaces⟩ := (asOneShot_chunkStep hwhole hrows).mp (hsteps _ hmem)
  refine ⟨hjson, fun i hplace => ?_⟩
  have hinside := (checks_succ hmatch).mp (hchecks (k + 1) hearly) i hplace
  by_contra hnot
  exact absurd (hplaces i hplace (Nat.le_of_not_lt hnot)) (Nat.not_le_of_lt hinside)

end Chunked

/-- Spans and chunks of 16 tokens. -/
def shortChunks : Limits where
  cache := oneLayer
  maxPrefillLength := 16
  maxPrefillLength_pos := oneLayer_tokenPerSpan

/-- A prompt of 20 tokens with an image of two rows at its third token. -/
def imagePrompt : Admitted Nat Unit where
  requestId := "image"
  inputIds := [1, 2, 151655, 151655] ++ List.replicate 16 7
  genCfg := { loraName := "", responseFormat := [], maxLength := 100 }
  extraEmbedding := [("151655", [[10, 11]]), ("hash_input", [[5]])]
  formatEnforcer := none
  buffer := []
  inputIds_pos := by decide
  parses := by decide +kernel
  formatEnforcer_isSome := by decide

/-- The same text without the image, answered in JSON. -/
def jsonPrompt : Admitted Nat Unit where
  requestId := "json"
  inputIds := List.replicate 20 7
  genCfg := { loraName := "", responseFormat := [("type", "json_object")], maxLength := 100 }
  extraEmbedding := []
  formatEnforcer := some ()
  buffer := []
  inputIds_pos := by decide
  parses := by decide
  formatEnforcer_isSome := fun _ => rfl

def nothingCached (_ : Nat) : Call where
  found _ := false
  filled _ := false
  token := 9

end DashInfer.Prefill
