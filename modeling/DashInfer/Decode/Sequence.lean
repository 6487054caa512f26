import DashInfer.Decode.Steps

/-!
One sequence on a rank that fills its ids: what the tensor of ids, the cached
lengths and the finish flag are after a context step and after each decode step.
-/

namespace DashInfer.Decode

open Lib Serving

namespace IdTensor

theorem ids_length (t : IdTensor) : t.ids.length = t.length := by
  rw [ids, List.length_map, List.length_range]

theorem getLast?_ids {t : IdTensor} {n : Nat} (h : t.length = n + 1) :
    t.ids.getLast? = some (t.data n) := by
  rw [ids, h, List.range_succ, List.map_append, List.map_singleton, List.getLast?_concat]

/-- Two tensors agree when their buffers do within the length. -/
theorem ids_congr {t t' : IdTensor} (hlength : t.length = t'.length)
    (hdata : ∀ i < t'.length, t.data i = t'.data i) : t.ids = t'.ids := by
  rw [ids, ids, hlength]
  exact List.map_congr_left fun i hi => hdata i (List.mem_range.mp hi)

theorem data_eq_of_ids {t t' : IdTensor} (h : t.ids = t'.ids) {i : Nat} (hi : i < t.length) :
    t.data i = t'.data i := by
  have hlength : t.length = t'.length := by rw [← ids_length, h, ids_length]
  have hget := congrArg (fun l => l[i]?) h
  simp only [ids, List.getElem?_map, List.getElem?_range hi,
    List.getElem?_range (hlength ▸ hi), Option.map_some, Option.some.injEq] at hget
  exact hget

theorem setShape_eq {memory : Nat → Int} {n : Nat} {t : IdTensor} (h : n ≤ t.capacity) :
    t.setShape memory n = { t with length := n } := by
  rw [setShape, if_pos h]

/-- Another id at the end. -/
theorem ids_store_succ (t : IdTensor) (id : Int) :
    (({ t with length := t.length + 1 } : IdTensor).store t.length id).ids = t.ids ++ [id] := by
  simp only [ids, store]
  rw [List.range_succ, List.map_append, List.map_singleton, Function.update_self]
  congr 1
  refine List.map_congr_left fun i hi => ?_
  exact Function.update_of_ne (Nat.ne_of_lt (List.mem_range.mp hi)) _ _

/-- A suffix of the ids is what the last elements of the buffer are. -/
theorem suffix_ids_iff {t : IdTensor} {word : List Int} (h : word.length ≤ t.length) :
    word <:+ t.ids ↔
      (List.range word.length).map (fun k => t.data (t.length - word.length + k)) = word := by
  have hsplit : t.ids = (List.range (t.length - word.length)).map t.data ++
      (List.range word.length).map fun k => t.data (t.length - word.length + k) := by
    have hrange : t.length = t.length - word.length + word.length := by omega
    calc
      t.ids = (List.range (t.length - word.length + word.length)).map t.data := by
        rw [ids, ← hrange]
      _ = _ := by rw [List.range_add, List.map_append, List.map_map]; rfl
  rw [List.suffix_iff_eq_drop, ids_length, hsplit, List.drop_append_of_le_length (by simp),
    List.drop_of_length_le (by simp), List.nil_append]
  exact eq_comm

end IdTensor

/-- When the end of a sequence is due. -/
def Ends (genCfg : GenerateConfig) (ids : List Int) : Prop :=
  genCfg.maxLength ≤ ids.length ∨
    (genCfg.earlyStopping = true ∧ ids.getLast? = some genCfg.eosTokenId) ∨
    ((genCfg.doSample = true ∧ genCfg.numBeams = 1) ∧
      ∃ word ∈ genCfg.stopWordsIds, word.length < ids.length ∧ word <:+ ids)

instance (genCfg : GenerateConfig) (ids : List Int) : Decidable (Ends genCfg ids) := by
  unfold Ends
  infer_instance

theorem stopMatched_iff {t : IdTensor} {words : List (List Int)} :
    GenerateContext.stopMatched t.length t.data words = true ↔
      ∃ word ∈ words, word.length < t.length ∧ word <:+ t.ids := by
  rw [GenerateContext.stopMatched, List.any_eq_true]
  refine exists_congr fun word => and_congr_right fun _ => ?_
  rw [Bool.and_eq_true, decide_eq_true_iff, decide_eq_true_iff]
  refine and_congr_right fun hlt => ?_
  rw [IdTensor.suffix_ids_iff (Nat.le_of_lt hlt)]

namespace GenerateContext

/-- A context whose ids were just filled: `check_finish` finds out whether its
sequence ends. -/
theorem checkFinish_eq {c : GenerateContext} {t : IdTensor} (hfinish : c.finish = false)
    (hover : c.genOver = false)
    (hmethod : c.generateMethod = 0 ↔ c.genCfg.doSample = true ∧ c.genCfg.numBeams = 1)
    (hids : c.request.generatedIds = some t) (hlength : t.length = c.generatedLen) :
    ∃ genOver : Bool, c.checkFinish =
        some { c with genOver := genOver, finish := decide (Ends c.genCfg t.ids) } ∧
      (genOver = true → Ends c.genCfg t.ids) := by
  have hlast : t.ids.getLast? = some (t.data (c.step + c.inLengthBias)) :=
    IdTensor.getLast?_ids hlength
  have hlen : t.ids.length = c.step + c.inLengthBias + 1 := (IdTensor.ids_length t).trans hlength
  rw [checkFinish, if_neg (by rw [hfinish]; decide)]
  split
  case isTrue hmax =>
      have hends : Ends c.genCfg t.ids := by
        refine Or.inl ?_
        rw [hlen]
        push_cast at hmax ⊢
        omega
      exact ⟨c.genOver, by rw [decide_eq_true hends], fun h => by rw [hover] at h; cases h⟩
  case isFalse hmax =>
      rw [hids]
      dsimp only
      split
      case isTrue heos =>
          have hends : Ends c.genCfg t.ids :=
            Or.inr (Or.inl ⟨heos.1, by rw [hlast, heos.2]⟩)
          exact ⟨c.genOver, by rw [decide_eq_true hends], fun h => by rw [hover] at h; cases h⟩
      case isFalse heos =>
          have hends : Ends c.genCfg t.ids ↔
              (c.genCfg.doSample = true ∧ c.genCfg.numBeams = 1) ∧
                ∃ word ∈ c.genCfg.stopWordsIds, word.length < t.ids.length ∧ word <:+ t.ids := by
            refine ⟨?_, fun h => Or.inr (Or.inr h)⟩
            rintro (hlong | ⟨hearly, htoken⟩ | hword)
            · rw [hlen] at hlong
              push_cast at hlong hmax
              omega
            · rw [hlast, Option.some.injEq] at htoken
              exact absurd ⟨hearly, htoken⟩ heos
            · exact hword
          split
          case isTrue hstop =>
              have hmatched :
                  (c.genOver || stopMatched c.generatedLen t.data c.genCfg.stopWordsIds) =
                    decide (Ends c.genCfg t.ids) := by
                rw [hover, Bool.false_or, ← hlength, Bool.eq_iff_iff, decide_eq_true_iff, hends,
                  stopMatched_iff, IdTensor.ids_length]
                exact (and_iff_right (hmethod.mp hstop.1)).symm
              refine ⟨_, congrArg some (by rw [hmatched]), fun h => ?_⟩
              exact of_decide_eq_true (hmatched ▸ h)
          case isFalse hstop =>
              have hnot : ¬ Ends c.genCfg t.ids := by
                rw [hends]
                rintro ⟨hsampling, word, hword, -⟩
                refine hstop ⟨hmethod.mpr hsampling, fun hnil => ?_⟩
                rw [hnil] at hword
                cases hword
              refine ⟨c.genOver, ?_, fun h => by rw [hover] at h; cases h⟩
              rw [decide_eq_false hnot, ← hfinish]

/-- Every layer of both caches at the same length. -/
def withCached (layers n : Nat) (c : GenerateContext) : GenerateContext :=
  { c with virtualKCache := List.replicate layers n, virtualVCache := List.replicate layers n }

theorem allocLayers_replicate (step seqLen layers : Nat) :
    allocLayers step seqLen (List.replicate layers step) (List.replicate layers step) =
      ((List.replicate layers (step + seqLen), List.replicate layers (step + seqLen)), true) := by
  induction layers with
  | zero => rfl
  | succ n ih =>
      simp only [List.replicate_succ, allocLayers, and_self, if_true]
      rw [ih]

end GenerateContext

/-- The bookkeeping of a context on a CUDA rank whose sequence is `ids`. -/
structure Bookkept (w : Worker) (ids : List Int) (c : GenerateContext) : Prop where
  generatedIds : ∃ t : IdTensor, c.request.generatedIds = some t ∧ t.ids = ids ∧
    t.capacity = w.modelMaxLength
  length : ids.length = c.step + 1
  kCache : c.virtualKCache = List.replicate w.decoderLayer c.step
  vCache : c.virtualVCache = List.replicate w.decoderLayer c.step
  inputLen : c.inputLen = c.request.inputIds.length
  prompt : c.request.inputIds <+: ids
  global : w.rankId = 0 → c.request.generatedIdsGlobal.ids = ids
  globalCapacity : c.request.generatedIdsGlobal.capacity = w.modelMaxLength
  inLengthBias : c.inLengthBias = 0
  generateMethod : c.generateMethod = 0 ↔ c.genCfg.doSample = true ∧ c.genCfg.numBeams = 1
  maxLength : c.genCfg.maxLength ≤ w.modelMaxLength
  finish : c.finish = decide (Ends c.genCfg ids)
  genOver : c.genOver = true → Ends c.genCfg ids

/-- Bookkeeping does not depend on the position in the list. -/
theorem Bookkept.of_core {w : Worker} {ids : List Int} {c d : GenerateContext}
    (hcore : c.core = d.core) (h : Bookkept w ids c) : Bookkept w ids d := by
  have hc : Bookkept w ids c.core :=
    ⟨h.generatedIds, h.length, h.kCache, h.vCache, h.inputLen, h.prompt, h.global,
      h.globalCapacity, h.inLengthBias, h.generateMethod, h.maxLength, h.finish, h.genOver⟩
  rw [hcore] at hc
  exact ⟨hc.generatedIds, hc.length, hc.kCache, hc.vCache, hc.inputLen, hc.prompt, hc.global,
    hc.globalCapacity, hc.inLengthBias, hc.generateMethod, hc.maxLength, hc.finish, hc.genOver⟩

namespace Worker

variable {w : Worker} {c : GenerateContext} {t : IdTensor}

/-- The fill on a CUDA rank: one more id in the tensor. -/
theorem fillGeneratedIds_eq (memory : Nat → Int) (decId : Int) (hcuda : w.device = .cuda)
    (hids : c.request.generatedIds = some t) (hlength : c.generatedLen = t.length + 1)
    (hroom : t.length + 1 ≤ t.capacity) :
    ∃ t' : IdTensor, w.fillGeneratedIds memory decId c = some (c.withGeneratedIds t') ∧
      t'.ids = t.ids ++ [decId] ∧ t'.length = t.length + 1 ∧ t'.capacity = t.capacity ∧
      ∀ i < t.length, t'.data i = t.data i := by
  have hrank : ¬ (w.device = .cpu ∧ w.rankId ≠ 0) := fun h => by
    rw [hcuda] at h
    cases h.1
  refine ⟨({ t with length := t.length + 1 } : IdTensor).store t.length decId, ?_,
    IdTensor.ids_store_succ t decId, rfl, rfl, fun i hi => ?_⟩
  · rw [fillGeneratedIds, if_neg hrank, hids]
    dsimp only
    rw [hlength, IdTensor.setShape_eq hroom, Nat.add_sub_cancel]
  · exact Function.update_of_ne (Nat.ne_of_lt hi) _ _

/-- The operators after the forward pass on a CUDA rank: one more id, on rank 0
in the output tensor too, and the finish flag of the longer sequence. -/
theorem generate_eq {isContext : Bool} (memory : Nat → Int) (decId : Int)
    (hcuda : w.device = .cuda) (hids : c.request.generatedIds = some t)
    (hlength : c.generatedLen = t.length + 1) (hroom : t.length + 1 ≤ t.capacity)
    (hglobalRoom : t.length + 1 ≤ c.request.generatedIdsGlobal.capacity)
    (hglobal : isContext = false → c.inLengthBias = 0 ∧
      (w.rankId = 0 → c.request.generatedIdsGlobal.ids = t.ids))
    (hfinish : c.finish = false) (hover : c.genOver = false)
    (hmethod : c.generateMethod = 0 ↔ c.genCfg.doSample = true ∧ c.genCfg.numBeams = 1) :
    ∃ (t' global : IdTensor) (genOver : Bool),
      w.generate memory isContext decId c = some { c with
        request := { c.request with generatedIds := some t', generatedIdsGlobal := global }
        genOver := genOver, finish := decide (Ends c.genCfg (t.ids ++ [decId])) } ∧
      t'.ids = t.ids ++ [decId] ∧ t'.capacity = t.capacity ∧
      (w.rankId = 0 → global.ids = t.ids ++ [decId]) ∧
      global.capacity = c.request.generatedIdsGlobal.capacity ∧
      (genOver = true → Ends c.genCfg (t.ids ++ [decId])) := by
  obtain ⟨t', hfill, hids', hlength', hcapacity', hdata'⟩ :=
    w.fillGeneratedIds_eq memory decId hcuda hids hlength hroom
  obtain ⟨genOver, hcheck, hends⟩ := GenerateContext.checkFinish_eq
    (c := c.withGeneratedIds t') hfinish hover hmethod rfl (hlength'.trans hlength.symm)
  have hcfg : (c.withGeneratedIds t').genCfg = c.genCfg := rfl
  rw [hids', hcfg] at hcheck hends
  have hgenerate : w.generate memory isContext decId c =
      w.copyGeneratedIds memory isContext { c.withGeneratedIds t' with
        genOver := genOver, finish := decide (Ends c.genCfg (t.ids ++ [decId])) } := by
    rw [generate, hfill]
    exact congrArg (fun checked => checked.bind (w.copyGeneratedIds memory isContext)) hcheck
  rw [hgenerate, copyGeneratedIds]
  by_cases hrank : w.rankId = 0
  case neg =>
      rw [if_neg hrank]
      exact ⟨t', c.request.generatedIdsGlobal, genOver, rfl, hids', hcapacity',
        fun h => absurd h hrank, rfl, hends⟩
  case pos =>
      rw [if_pos hrank]
      dsimp only [GenerateContext.withGeneratedIds]
      rw [hlength', IdTensor.setShape_eq hglobalRoom]
      cases isContext with
      | true =>
          refine ⟨t', _, genOver, rfl, hids', hcapacity', fun _ => ?_, rfl, hends⟩
          rw [← hids']
          refine IdTensor.ids_congr hlength'.symm fun i hi => if_pos ?_
          show i < c.generatedLen
          omega
      | false =>
          obtain ⟨hbias, hsame⟩ := hglobal rfl
          refine ⟨t', _, genOver, rfl, hids', hcapacity', fun _ => ?_, rfl, hends⟩
          have hstep : c.step = t.length := by
            rw [GenerateContext.generatedLen, hbias] at hlength
            omega
          rw [← hids']
          refine IdTensor.ids_congr hlength'.symm fun i hi => ?_
          show (if i = c.step then t'.data i else c.request.generatedIdsGlobal.data i) = t'.data i
          split
          case isTrue => rfl
          case isFalse hne =>
              have hlt : i < t.length := by omega
              have hold : c.request.generatedIdsGlobal.length = t.length := by
                rw [← IdTensor.ids_length, hsame hrank, IdTensor.ids_length]
              rw [IdTensor.data_eq_of_ids (hsame hrank) (hold ▸ hlt), hdata' i hlt]

theorem alloc_eq {layers : Nat} (seqLen : Nat)
    (hk : c.virtualKCache = List.replicate layers c.step)
    (hv : c.virtualVCache = List.replicate layers c.step) :
    c.alloc seqLen = (c.withCached layers (c.step + seqLen), true) := by
  rw [GenerateContext.alloc, hk, hv, GenerateContext.allocLayers_replicate]
  rfl

/-- A decode step of a sequence that has not ended. -/
theorem decodeOne_bookkept {ids : List Int} (hcuda : w.device = .cuda) (h : Bookkept w ids c)
    (hfinish : c.finish = false) (input : DecodeInput) :
    ∃ c', w.decodeOne input c = some c' ∧
      Bookkept w (ids ++ [input.decIds c.currentBatch]) c' := by
  obtain ⟨t, hids, rfl, hcapacity⟩ := h.generatedIds
  have hlength : t.length = c.step + 1 := (IdTensor.ids_length t).symm.trans h.length
  have hends : ¬ Ends c.genCfg t.ids := of_decide_eq_false (h.finish.symm.trans hfinish)
  have hover : c.genOver = false := by
    cases hg : c.genOver with
    | false => rfl
    | true => exact absurd (h.genOver hg) hends
  have hroom : t.length + 1 ≤ w.modelMaxLength := by
    have hshort : ¬ c.genCfg.maxLength ≤ (t.ids.length : Int) := fun hle => hends (Or.inl hle)
    have hbound := h.maxLength
    rw [IdTensor.ids_length] at hshort
    omega
  have hgenerated : c.step + 1 + c.inLengthBias + 1 = t.length + 1 := by
    rw [h.inLengthBias, hlength]
  have hdecode : w.decodeOne input c =
      w.generate input.memory false (input.decIds c.currentBatch)
        { c.withCached w.decoderLayer (c.step + 1) with step := c.step + 1 } := by
    rw [decodeOne, alloc_eq 1 h.kCache h.vCache]
    rfl
  obtain ⟨t', global, genOver, hgenerate, hids', hcap', hglobal', hgcap, hover'⟩ :=
    @generate_eq w { c.withCached w.decoderLayer (c.step + 1) with step := c.step + 1 } t false
      input.memory (input.decIds c.currentBatch) hcuda hids hgenerated (by omega)
      (h.globalCapacity.symm ▸ hroom) (fun _ => ⟨h.inLengthBias, h.global⟩) hfinish hover
      h.generateMethod
  refine ⟨_, hdecode.trans hgenerate, ?_⟩
  exact
    { generatedIds := ⟨t', rfl, hids', hcap'.trans hcapacity⟩
      length := by rw [List.length_append, h.length, List.length_singleton]
      kCache := rfl
      vCache := rfl
      inputLen := h.inputLen
      prompt := h.prompt.trans (List.prefix_append _ _)
      global := hglobal'
      globalCapacity := hgcap.trans h.globalCapacity
      inLengthBias := h.inLengthBias
      generateMethod := h.generateMethod
      maxLength := h.maxLength
      finish := rfl
      genOver := hover' }

end Worker

/-- What no operator of a step writes. -/
structure Kept (c c' : GenerateContext) : Prop where
  place : c'.place = c.place
  genCfg : c'.genCfg = c.genCfg

theorem Kept.trans {c d e : GenerateContext} (h : Kept c d) (h' : Kept d e) : Kept c e :=
  ⟨h'.place.trans h.place, h'.genCfg.trans h.genCfg⟩

namespace Worker

variable {w : Worker} {c c' : GenerateContext}

theorem preProcessId_kept (w : Worker) (memory : Nat → Int) (c : GenerateContext) :
    Kept c (w.preProcessId memory c) := by
  rw [preProcessId]
  split
  · exact ⟨rfl, rfl⟩
  · exact ⟨rfl, rfl⟩

theorem fillGeneratedIds_kept {memory : Nat → Int} {decId : Int}
    (h : w.fillGeneratedIds memory decId c = some c') : Kept c c' := by
  rw [fillGeneratedIds] at h
  split at h
  · cases h
    exact ⟨rfl, rfl⟩
  · split at h
    · cases h
    · cases h
      exact ⟨rfl, rfl⟩

theorem checkFinish_kept (h : c.checkFinish = some c') : Kept c c' := by
  rw [GenerateContext.checkFinish] at h
  split at h
  · cases h
    exact ⟨rfl, rfl⟩
  · split at h
    · cases h
      exact ⟨rfl, rfl⟩
    · split at h
      · cases h
      · split at h
        · cases h
          exact ⟨rfl, rfl⟩
        · split at h
          · cases h
            exact ⟨rfl, rfl⟩
          · cases h
            exact ⟨rfl, rfl⟩

theorem copyGeneratedIds_kept {memory : Nat → Int} {isContext : Bool}
    (h : w.copyGeneratedIds memory isContext c = some c') : Kept c c' := by
  rw [copyGeneratedIds] at h
  split at h
  · split at h
    · cases h
    · dsimp only at h
      split at h
      · cases h
        exact ⟨rfl, rfl⟩
      · cases h
        exact ⟨rfl, rfl⟩
  · cases h
    exact ⟨rfl, rfl⟩

/-- The three operators of `generate` in turn. -/
theorem generate_cases {memory : Nat → Int} {isContext : Bool} {decId : Int}
    (h : w.generate memory isContext decId c = some c') :
    ∃ filled checked, w.fillGeneratedIds memory decId c = some filled ∧
      filled.checkFinish = some checked ∧
      w.copyGeneratedIds memory isContext checked = some c' := by
  obtain ⟨filled, hfill, h⟩ := Option.bind_eq_some_iff.mp h
  obtain ⟨checked, hcheck, h⟩ := Option.bind_eq_some_iff.mp h
  exact ⟨filled, checked, hfill, hcheck, h⟩

theorem generate_kept {memory : Nat → Int} {isContext : Bool} {decId : Int}
    (h : w.generate memory isContext decId c = some c') : Kept c c' := by
  obtain ⟨filled, checked, hfill, hcheck, hcopy⟩ := generate_cases h
  exact (fillGeneratedIds_kept hfill).trans
    ((checkFinish_kept hcheck).trans (copyGeneratedIds_kept hcopy))

theorem decodeOne_kept {input : DecodeInput} (h : w.decodeOne input c = some c') : Kept c c' := by
  rw [decodeOne] at h
  dsimp only at h
  split at h
  case isFalse => cases h
  case isTrue =>
      have halloc : Kept c { (c.alloc 1).1 with step := (c.alloc 1).1.step + 1 } := ⟨rfl, rfl⟩
      exact halloc.trans (generate_kept h)

theorem runDecoderContext_kept {input : ContextInput} {status : AsStatus}
    (h : w.runDecoderContext input c = some (c', status)) : Kept c c' := by
  have hpre := w.preProcessId_kept input.memory
    { c.chooseMethod with step := c.chooseMethod.prefixLen }
  have hchoose : Kept c { c.chooseMethod with step := c.chooseMethod.prefixLen } := ⟨rfl, rfl⟩
  rw [runDecoderContext] at h
  dsimp only at h
  split at h
  · cases h
    exact ⟨rfl, rfl⟩
  · split at h
    · cases h
      exact hchoose.trans ⟨hpre.place, hpre.genCfg⟩
    · split at h
      · cases h
      · obtain ⟨d, hd, heq⟩ := Option.map_eq_some_iff.mp h
        obtain ⟨rfl, -⟩ := Prod.mk.inj heq
        have hgen := generate_kept hd
        exact hchoose.trans ⟨hgen.place.trans hpre.place, hgen.genCfg.trans hpre.genCfg⟩

end Worker

/-- A request as `InputParamsVerify` lets it through, before its context step. -/
structure Verified (w : Worker) (r : Request) : Prop where
  input_pos : 0 < r.inputIds.length
  input_le : r.inputIds.length + 2 ≤ w.modelMaxLength
  maxLength_le : r.genCfg.maxLength ≤ w.modelMaxLength
  interim : r.generatedIds = none
  outputs : r.generatedIdsGlobal.capacity = w.modelMaxLength

/-- The test of a context step that its new tokens fit the request's bound. -/
def Request.Fits (prefixLen : Nat) (r : Request) : Prop :=
  r.genCfg.maxLength < 0 ∨ ((r.inputIds.length - prefixLen : Nat) : Int) ≤ r.genCfg.maxLength

instance (prefixLen : Nat) (r : Request) : Decidable (r.Fits prefixLen) := by
  unfold Request.Fits
  infer_instance

namespace Worker

variable {w : Worker} {r : Request} {input : ContextInput}

/-- The context that `StartRequest` lists. -/
def listed (w : Worker) (input : ContextInput) (r : Request) (batch serial : Nat) :
    GenerateContext :=
  { (w.buildGenContext r).refFill input.prefixLen with currentBatch := batch, serial := serial }

/-- The prompt in the tensor that `PreProcessIdOp` makes. -/
def promptTensor (w : Worker) (memory : Nat → Int) (r : Request) : IdTensor :=
  { data := fun i => r.inputIds.getD i (memory i)
    capacity := w.modelMaxLength
    length := r.inputIds.length }

theorem ids_promptTensor (w : Worker) (memory : Nat → Int) (r : Request) :
    (w.promptTensor memory r).ids = r.inputIds := by
  refine List.ext_getElem? fun i => ?_
  rw [IdTensor.ids, promptTensor, List.getElem?_map]
  by_cases hi : i < r.inputIds.length
  · rw [List.getElem?_range hi, List.getElem?_eq_getElem hi, Option.map_some]
    simp [List.getD, hi]
  · rw [List.getElem?_eq_none (by simpa using hi), List.getElem?_eq_none (by omega)]
    rfl

/-- The listed context when the decoder operators start. -/
def prepared (w : Worker) (input : ContextInput) (r : Request) (batch serial : Nat) :
    GenerateContext :=
  ({ (w.listed input r batch serial).chooseMethod with step := input.prefixLen }).withGeneratedIds
    (w.promptTensor input.memory r)

/-- `in_length_bias` of the context step of a request. -/
def contextBias (input : ContextInput) (r : Request) : Nat :=
  if input.prefixLen = 0 then r.inputIds.length else r.inputIds.length - input.prefixLen

theorem preProcessId_listed {batch serial : Nat} (hr : Verified w r) {c : GenerateContext}
    (hc : c = (w.listed input r batch serial).chooseMethod) :
    w.preProcessId input.memory { c with step := c.prefixLen } =
      w.prepared input r batch serial := by
  have hnone : c.request.generatedIds = none := by
    rw [hc]
    exact hr.interim
  rw [preProcessId]
  dsimp only
  rw [hnone, hc]
  rfl

/-- The context step of a request that fits, up to its own ids. -/
theorem runDecoderContext_eq (hcuda : w.device = .cuda) (hr : Verified w r)
    (hfits : r.Fits input.prefixLen) (batch serial : Nat) :
    w.runDecoderContext input (w.listed input r batch serial) =
      if input.frames = false then none
      else
        (w.generate input.memory true input.decId
          { (w.prepared input r batch serial).withCached w.decoderLayer
              (input.prefixLen + (r.inputIds.length - input.prefixLen)) with
            inLengthBias := contextBias input r }).map fun c =>
          ({ c with inLengthBias := 0, step := c.inLength + c.prefixLen }, .success) := by
  have hnot : ¬ (w.listed input r batch serial).chooseMethod.exceedsMaxLength := by
    rintro ⟨hnonneg, hlt⟩
    have hnonneg : 0 ≤ r.genCfg.maxLength := hnonneg
    have hlt : r.genCfg.maxLength < ((r.inputIds.length - input.prefixLen : Nat) : Int) := hlt
    rcases hfits with hneg | hle
    · omega
    · omega
  obtain ⟨c, hc⟩ : ∃ c, c = (w.listed input r batch serial).chooseMethod := ⟨_, rfl⟩
  have hcached : (List.replicate (if w.device = .cuda then w.decoderLayer else 0) 0).map
      (fun _ => input.prefixLen) = List.replicate w.decoderLayer input.prefixLen := by
    rw [if_pos hcuda, List.map_replicate]
  have halloc : (w.prepared input r batch serial).alloc (r.inputIds.length - input.prefixLen) =
      ((w.prepared input r batch serial).withCached w.decoderLayer
        (input.prefixLen + (r.inputIds.length - input.prefixLen)), true) :=
    alloc_eq _ hcached hcached
  rw [runDecoderContext]
  dsimp only
  have hinLength : (w.prepared input r batch serial).inLength =
      r.inputIds.length - input.prefixLen := rfl
  rw [← hc, if_neg (hc ▸ hnot), preProcessId_listed hr hc, hinLength, halloc]
  rfl

/-- A context step of a request that fits, when the span cache has its frames. -/
theorem runDecoderContext_bookkept {batch serial : Nat} (hcuda : w.device = .cuda)
    (hr : Verified w r) (hprior : input.prefixLen ≤ r.inputIds.length)
    (hfits : r.Fits input.prefixLen) (hframes : input.frames = true) :
    ∃ c', w.runDecoderContext input (w.listed input r batch serial) = some (c', .success) ∧
      Bookkept w (r.inputIds ++ [input.decId]) c' := by
  have hids := w.ids_promptTensor input.memory r
  have hroom : r.inputIds.length + 1 ≤ w.modelMaxLength := by
    have hle := hr.input_le
    omega
  have hgenerated : input.prefixLen + contextBias input r + 1 = r.inputIds.length + 1 := by
    rw [contextBias]
    split <;> omega
  have hmethod : (if r.genCfg.doSample = true ∧ r.genCfg.numBeams = 1 then 0 else 1) = 0 ↔
      r.genCfg.doSample = true ∧ r.genCfg.numBeams = 1 := by
    split
    case isTrue hyes => exact iff_of_true rfl hyes
    case isFalse hno => exact iff_of_false Nat.one_ne_zero hno
  obtain ⟨t', global, genOver, hgenerate, hids', hcap', hglobal', hgcap, hover'⟩ :=
    @generate_eq w
      { (w.prepared input r batch serial).withCached w.decoderLayer
          (input.prefixLen + (r.inputIds.length - input.prefixLen)) with
        inLengthBias := contextBias input r } (w.promptTensor input.memory r) true
      input.memory input.decId hcuda rfl hgenerated hroom (hr.outputs.symm ▸ hroom)
      (fun h => by cases h) rfl rfl hmethod
  have hsum : input.prefixLen + (r.inputIds.length - input.prefixLen) =
      r.inputIds.length - input.prefixLen + input.prefixLen := Nat.add_comm _ _
  have hrun := w.runDecoderContext_eq hcuda hr hfits batch serial
  rw [if_neg (by rw [hframes]; decide), hgenerate, Option.map_some] at hrun
  rw [hids] at hids' hglobal' hover'
  refine ⟨_, hrun, ?_⟩
  exact
    { generatedIds := ⟨t', rfl, hids', hcap'⟩
      length := by
        rw [List.length_append, List.length_singleton]
        exact congrArg (· + 1) (Nat.sub_add_cancel hprior).symm
      kCache := congrArg (List.replicate w.decoderLayer) hsum
      vCache := congrArg (List.replicate w.decoderLayer) hsum
      inputLen := rfl
      prompt := List.prefix_append _ _
      global := hglobal'
      globalCapacity := hgcap.trans hr.outputs
      inLengthBias := rfl
      generateMethod := hmethod
      maxLength := hr.maxLength_le
      finish := by rw [hids]
      genOver := hover' }

/-- A context step that fails for want of frames. -/
theorem runDecoderContext_frames {batch serial : Nat} (hcuda : w.device = .cuda)
    (hr : Verified w r) (hfits : r.Fits input.prefixLen) (hframes : input.frames = false) :
    w.runDecoderContext input (w.listed input r batch serial) = none := by
  rw [runDecoderContext_eq hcuda hr hfits, if_pos hframes]

end Worker

end DashInfer.Decode
