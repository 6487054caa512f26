import DashInfer.Decode.Bookkeeping

/-!
What the ranks have in common of a running sequence, and how it moves on with
the ids that all of them are sent: a machine without tensors, caches and
memory, which every rank runs.
-/

namespace DashInfer.Decode

open Lib Serving

/-- The request looks at its ids to find its end. -/
def GenerateConfig.ReadsIds (genCfg : GenerateConfig) : Prop :=
  genCfg.earlyStopping = true ∨
    ((genCfg.doSample = true ∧ genCfg.numBeams = 1) ∧ genCfg.stopWordsIds ≠ [])

instance (genCfg : GenerateConfig) : Decidable genCfg.ReadsIds := by
  unfold GenerateConfig.ReadsIds
  infer_instance

/-- A running sequence as every rank sees it. The ids are those of a request
that looks at them. -/
structure View where
  id : RequestId
  genCfg : GenerateConfig
  currentBatch : Nat
  step : Nat
  ids : List Int
  finish : Bool
deriving DecidableEq

namespace View

/-- A sequence of `ids` with its last id appended at position `step`. -/
def extended (id : RequestId) (genCfg : GenerateConfig) (currentBatch step : Nat)
    (ids : List Int) : View :=
  { id := id, genCfg := genCfg, currentBatch := currentBatch, step := step
    ids := if genCfg.ReadsIds then ids else []
    finish := decide (genCfg.maxLength ≤ ((step + 1 : Nat) : Int) ∨
      (genCfg.ReadsIds ∧ Ends genCfg ids)) }

/-- The sequence of a request after its context step. -/
def begin (r : Request) (decId : Int) (currentBatch : Nat) : View :=
  extended r.requestId r.genCfg currentBatch r.inputIds.length (r.inputIds ++ [decId])

/-- A sequence after a decode step. -/
def advance (decIds : Nat → Int) (v : View) : View :=
  extended v.id v.genCfg v.currentBatch (v.step + 1) (v.ids ++ [decIds v.currentBatch])

/-- `FinishRequest` on the views. -/
def remove (index : Nat) (l : List View) : List View :=
  match l.getLast? with
  | none => l
  | some last => (l.set index { last with currentBatch := index }).dropLast

/-- The scan at the end of a step, below position `i`. -/
def scan : Nat → List View → List View
  | 0, l => l
  | i + 1, l =>
      match l[i]? with
      | none => scan i l
      | some v => if v.finish then scan i (remove i l) else scan i l

/-- A stop, given the requests that still wait. -/
def stop (pending : List Request) (id : RequestId) (l : List View) : List View :=
  if ∃ r ∈ pending, r.requestId = id then l
  else
    match lastIdx? (fun v => decide (v.id = id)) l with
    | none => l
    | some index => remove index l

end View

def GenerateContext.view (c : GenerateContext) : View :=
  { id := c.id, genCfg := c.genCfg, currentBatch := c.currentBatch, step := c.step
    ids := if c.genCfg.ReadsIds then c.ids else []
    finish := c.finish }

/-- The sequences running on a rank. -/
def AsModel.views (m : AsModel) : List View := m.running.map GenerateContext.view

section Remove

variable {m : AsModel}

theorem views_finishRequest (m : AsModel) (index : Nat) (c : GenerateContext) :
    (m.finishRequest index c).views = View.remove index m.views := by
  have hlast : m.views.getLast? = m.running.getLast?.map GenerateContext.view := by
    rw [AsModel.views, List.getLast?_map]
  rw [AsModel.views, running_finishRequest, RuntimeContext.finishRequest, View.remove, hlast,
    AsModel.running]
  cases m.runtimeCtx.genCtxList.getLast? with
  | none => rfl
  | some last =>
      dsimp only [Option.map_some]
      rw [List.map_dropLast, List.map_set]
      rfl

theorem views_stopFinished (h : Consistent m) (i : Nat) :
    (m.stopFinished (fun _ => .done) i).1.views = View.scan i m.views := by
  induction i generalizing m with
  | zero => rfl
  | succ i ih =>
      have hget : m.views[i]? = m.running[i]?.map GenerateContext.view := by
        rw [AsModel.views, List.getElem?_map]
      rw [AsModel.stopFinished, View.scan, hget]
      cases hc : m.running[i]? with
      | none => exact ih h
      | some c =>
          dsimp only [Option.map_some]
          have hfinish : c.view.finish = c.finish := rfl
          rw [hfinish]
          cases c.finish with
          | false => exact ih h
          | true =>
              rw [if_pos rfl, if_pos rfl, h.stopRequest_running hc, ← views_finishRequest m i c]
              exact ih (h.finishRequest hc).count

theorem views_stopRequest (m : AsModel) (id : RequestId) :
    (m.stopRequest .done id).1.views = View.stop m.pendingRequestQueue id m.views := by
  rw [AsModel.stopRequest, View.stop]
  split
  case isTrue => rfl
  case isFalse =>
      have hfind : lastIdx? (fun v : View => decide (v.id = id)) m.views =
          lastIdx? (fun c => decide (c.request.requestId = id)) m.running :=
        lastIdx?_map _ _ _
      rw [hfind]
      cases hidx : lastIdx? (fun c => decide (c.request.requestId = id)) m.running with
      | none => rfl
      | some index =>
          obtain ⟨c, hc, -⟩ := lastIdx?_spec hidx
          dsimp only
          rw [hc, ← views_finishRequest m index c]
          rfl

end Remove

theorem View.extended_congr {id : RequestId} {genCfg : GenerateConfig} {currentBatch step : Nat}
    {ids ids' : List Int} (h : genCfg.ReadsIds → ids = ids') :
    extended id genCfg currentBatch step ids = extended id genCfg currentBatch step ids' := by
  by_cases hreads : genCfg.ReadsIds
  · rw [h hreads]
  · simp only [extended, hreads, if_false, false_and]

/-- What a rank keeps of a running sequence for its next steps. A request that
looks at its ids needs a rank that fills them. -/
structure Standing (w : Worker) (c : GenerateContext) : Prop where
  inLengthBias : c.inLengthBias = 0
  generateMethod : c.generateMethod = 0 ↔ c.genCfg.doSample = true ∧ c.genCfg.numBeams = 1
  maxLength : c.genCfg.maxLength ≤ w.modelMaxLength
  short : c.finish = false → ((c.step + 1 : Nat) : Int) < c.genCfg.maxLength
  genOver : c.genOver = true → c.finish = true
  filled : c.genCfg.ReadsIds → w.device = .cuda ∧ ∃ t, c.request.generatedIds = some t ∧
    t.length = c.step + 1 ∧ t.capacity = w.modelMaxLength

section Generate

variable {w : Worker} {c c' : GenerateContext}

theorem Standing.of_core {d : GenerateContext} (hcore : c.core = d.core) (h : Standing w c) :
    Standing w d := by
  have hc : Standing w c.core :=
    ⟨h.inLengthBias, h.generateMethod, h.maxLength, h.short, h.genOver, h.filled⟩
  rw [hcore] at hc
  exact ⟨hc.inLengthBias, hc.generateMethod, hc.maxLength, hc.short, hc.genOver, hc.filled⟩

theorem fillGeneratedIds_some {memory : Nat → Int} {decId : Int}
    (h : w.fillGeneratedIds memory decId c = some c') :
    ∃ ids, c' = { c with request := { c.request with generatedIds := ids } } := by
  rw [Worker.fillGeneratedIds] at h
  split at h
  · cases h
    exact ⟨c.request.generatedIds, rfl⟩
  · split at h
    · cases h
    · cases h
      exact ⟨_, rfl⟩

theorem copyGeneratedIds_some {memory : Nat → Int} {isContext : Bool}
    (h : w.copyGeneratedIds memory isContext c = some c') : ∃ global, c' = c.withGlobal global := by
  rw [Worker.copyGeneratedIds] at h
  split at h
  · split at h
    · cases h
    · dsimp only at h
      split at h
      · cases h
        exact ⟨_, rfl⟩
      · cases h
        exact ⟨_, rfl⟩
  · cases h
    exact ⟨c.request.generatedIdsGlobal, rfl⟩

/-- The check of a request that does not look at its ids. -/
theorem checkFinish_of_not_readsIds (hfinish : c.finish = false)
    (hmethod : c.generateMethod = 0 ↔ c.genCfg.doSample = true ∧ c.genCfg.numBeams = 1)
    (hreads : ¬ c.genCfg.ReadsIds) (h : c.checkFinish = some c') :
    c' = { c with finish := decide (c.genCfg.maxLength ≤ (c.generatedLen : Int)) } := by
  have hlong : ((c.step + c.inLengthBias : Nat) : Int) ≥ c.genCfg.maxLength - 1 ↔
      c.genCfg.maxLength ≤ (c.generatedLen : Int) := by
    rw [GenerateContext.generatedLen]
    push_cast
    omega
  rw [GenerateContext.checkFinish, if_neg (by rw [hfinish]; decide)] at h
  split at h
  case isTrue hmax =>
      cases h
      rw [decide_eq_true (hlong.mp hmax)]
  case isFalse hmax =>
      rw [decide_eq_false (fun hle => hmax (hlong.mpr hle))]
      split at h
      case h_1 => cases h
      case h_2 =>
          split at h
          case isTrue heos => exact absurd (Or.inl heos.1) hreads
          case isFalse =>
              split at h
              case isTrue hstop => exact absurd (Or.inr ⟨hmethod.mp hstop.1, hstop.2⟩) hreads
              case isFalse =>
                  cases h
                  rw [← hfinish]

/-- What the operators after the forward pass make of a context. -/
structure Generated (w : Worker) (decId : Int) (c c' : GenerateContext) : Prop where
  kept : Kept c c'
  step : c'.step = c.step
  inLengthBias : c'.inLengthBias = c.inLengthBias
  generateMethod : c'.generateMethod = c.generateMethod
  inputLen : c'.inputLen = c.inputLen
  prefixLen : c'.prefixLen = c.prefixLen
  finish : c'.finish = decide (c.genCfg.maxLength ≤ (c.generatedLen : Int) ∨
    (c.genCfg.ReadsIds ∧ Ends c.genCfg (c.ids ++ [decId])))
  genOver : c'.genOver = true → c'.finish = true
  filled : c.genCfg.ReadsIds → ∃ t, c'.request.generatedIds = some t ∧ t.ids = c.ids ++ [decId] ∧
    t.length = c.generatedLen ∧ t.capacity = w.modelMaxLength

/-- The operators after the forward pass, on a rank that fills the ids that are
looked at. -/
theorem generated_of_some {memory : Nat → Int} {isContext : Bool} {decId : Int}
    (hfinish : c.finish = false) (hover : c.genOver = false)
    (hmethod : c.generateMethod = 0 ↔ c.genCfg.doSample = true ∧ c.genCfg.numBeams = 1)
    (hreads : c.genCfg.ReadsIds → w.device = .cuda ∧ ∃ t, c.request.generatedIds = some t ∧
      c.generatedLen = t.length + 1 ∧ t.length + 1 ≤ w.modelMaxLength ∧
      t.capacity = w.modelMaxLength)
    (h : w.generate memory isContext decId c = some c') : Generated w decId c c' := by
  have hkept := Worker.generate_kept h
  obtain ⟨filled, checked, hfill, hcheck, hcopy⟩ := Worker.generate_cases h
  obtain ⟨global, rfl⟩ := copyGeneratedIds_some hcopy
  by_cases hlooks : c.genCfg.ReadsIds
  case pos =>
      obtain ⟨hcuda, t, hids, hlength, hroom, hcapacity⟩ := hreads hlooks
      obtain ⟨t', hfill', hids', hlength', hcapacity', -⟩ :=
        w.fillGeneratedIds_eq memory decId hcuda hids hlength (hcapacity.symm ▸ hroom)
      obtain rfl := Option.some.inj (hfill.symm.trans hfill')
      obtain ⟨genOver, hcheck', hends⟩ := GenerateContext.checkFinish_eq
        (c := c.withGeneratedIds t') hfinish hover hmethod rfl (hlength'.trans hlength.symm)
      obtain rfl := Option.some.inj (hcheck.symm.trans hcheck')
      have hcids : c.ids = t.ids := by rw [GenerateContext.ids, hids]
      have hiff : (c.genCfg.maxLength ≤ (c.generatedLen : Int) ∨
          (c.genCfg.ReadsIds ∧ Ends c.genCfg (c.ids ++ [decId]))) ↔ Ends c.genCfg t'.ids := by
        rw [hids', ← hcids]
        refine ⟨?_, fun hend => Or.inr ⟨hlooks, hend⟩⟩
        rintro (hlong | ⟨-, hend⟩)
        · refine Or.inl ?_
          rw [hcids, ← hids', IdTensor.ids_length, hlength', ← hlength]
          exact hlong
        · exact hend
      exact
        { kept := hkept, step := rfl, inLengthBias := rfl, generateMethod := rfl, inputLen := rfl
          prefixLen := rfl
          finish := (decide_eq_decide.mpr hiff).symm
          genOver := fun hover' => decide_eq_true (hends hover')
          filled := fun _ => ⟨t', rfl, by rw [hids', hcids], hlength'.trans hlength.symm,
            hcapacity'.trans hcapacity⟩ }
  case neg =>
      obtain ⟨ids, rfl⟩ := fillGeneratedIds_some hfill
      obtain rfl := checkFinish_of_not_readsIds
        (c := { c with request := { c.request with generatedIds := ids } }) hfinish hmethod hlooks
        hcheck
      exact
        { kept := hkept, step := rfl, inLengthBias := rfl, generateMethod := rfl, inputLen := rfl
          prefixLen := rfl
          finish := by
            simp only [hlooks, false_and, or_false]
            rfl
          genOver := fun hover' => absurd (hover.symm.trans hover') (by decide)
          filled := fun hyes => absurd hyes hlooks }

end Generate

section Steps

variable {w : Worker} {c c' : GenerateContext}

theorem view_eq_extended {ids : List Int} (hids : c.genCfg.ReadsIds → c.ids = ids)
    (hfinish : c.finish = decide (c.genCfg.maxLength ≤ ((c.step + 1 : Nat) : Int) ∨
      (c.genCfg.ReadsIds ∧ Ends c.genCfg ids))) :
    c.view = View.extended c.id c.genCfg c.currentBatch c.step ids := by
  rw [GenerateContext.view, View.extended, hfinish]
  split
  case isTrue hlooks => rw [hids hlooks]
  case isFalse => rfl

/-- The tensor of a sequence has its ids. -/
theorem ids_of_generatedIds {t : IdTensor} (h : c.request.generatedIds = some t) :
    c.ids = t.ids := by
  rw [GenerateContext.ids, h]

/-- A decode step of one sequence is a step of its view. -/
theorem decodeOne_view {input : DecodeInput} (hstanding : Standing w c) (hfinish : c.finish = false)
    (h : w.decodeOne input c = some c') :
    c'.view = c.view.advance input.decIds ∧ Standing w c' := by
  have hover : c.genOver = false := by
    cases hg : c.genOver with
    | false => rfl
    | true => exact absurd (hstanding.genOver hg) (by rw [hfinish]; decide)
  have hshort := hstanding.short hfinish
  have hmax := hstanding.maxLength
  rw [Worker.decodeOne] at h
  dsimp only at h
  split at h
  case isFalse => cases h
  case isTrue =>
      have hlen : c.step + 1 + c.inLengthBias + 1 = c.step + 2 := by
        rw [hstanding.inLengthBias]
      have hgen := @generated_of_some w { (c.alloc 1).1 with step := (c.alloc 1).1.step + 1 } c'
        _ _ _ hfinish hover hstanding.generateMethod (fun hlooks => by
          obtain ⟨hcuda, t, ht, hlength, hcapacity⟩ := hstanding.filled hlooks
          refine ⟨hcuda, t, ht, ?_, by omega, hcapacity⟩
          rw [hlength]
          exact hlen) h
      have hstep : c'.step = c.step + 1 := hgen.step
      have hcfg : c'.genCfg = c.genCfg := hgen.kept.genCfg
      have hfin : c'.finish = decide (c.genCfg.maxLength ≤ ((c.step + 2 : Nat) : Int) ∨
          (c.genCfg.ReadsIds ∧ Ends c.genCfg (c.ids ++ [input.decIds c.currentBatch]))) := by
        rw [← hlen]
        exact hgen.finish
      refine ⟨?_, ?_⟩
      · have hview : c.view.advance input.decIds = View.extended c.id c.genCfg c.currentBatch
            (c.step + 1) (c.ids ++ [input.decIds c.currentBatch]) := by
          refine View.extended_congr fun hlooks => ?_
          have hlooks : c.genCfg.ReadsIds := hlooks
          show (if c.genCfg.ReadsIds then c.ids else []) ++ _ = _
          rw [if_pos hlooks]
          rfl
        have hid : c'.id = c.id := congrArg Prod.fst hgen.kept.place
        have hbatch : c'.currentBatch = c.currentBatch :=
          congrArg (fun place => place.2.1) hgen.kept.place
        rw [hview, ← hid, ← hcfg, ← hbatch, ← hstep]
        refine view_eq_extended (fun hlooks => ?_) ?_
        · obtain ⟨t, ht, hids, -⟩ := hgen.filled (hcfg ▸ hlooks)
          rw [ids_of_generatedIds ht, hids, hbatch]
          rfl
        · rw [hfin, hcfg, hstep, hbatch]
      · exact
          { inLengthBias := hgen.inLengthBias.trans hstanding.inLengthBias
            generateMethod := by
              rw [hgen.generateMethod, hcfg]
              exact hstanding.generateMethod
            maxLength := hcfg ▸ hmax
            short := fun hgoes => by
              rw [hfin, decide_eq_false_iff_not, not_or] at hgoes
              rw [hstep, hcfg]
              omega
            genOver := hgen.genOver
            filled := fun hlooks => by
              rw [hcfg] at hlooks
              obtain ⟨t, ht, -, hlength, hcapacity⟩ := hgen.filled hlooks
              refine ⟨(hstanding.filled hlooks).1, t, ht, ?_, hcapacity⟩
              rw [hlength, hstep]
              exact hlen }

/-- A context step that gets as far as the sampled id starts the view of its
request. -/
theorem runDecoderContext_view {input : ContextInput} {r : Request} {batch serial : Nat}
    (hr : Verified w r) (hreads : r.genCfg.ReadsIds → w.device = .cuda)
    (hprior : input.prefixLen ≤ r.inputIds.length)
    (h : w.runDecoderContext input (w.listed input r batch serial) = some (c', .success)) :
    c'.view = View.begin r input.decId batch ∧ Standing w c' := by
  have hle := hr.input_le
  obtain ⟨c, hc⟩ : ∃ c, c = (w.listed input r batch serial).chooseMethod := ⟨_, rfl⟩
  rw [Worker.runDecoderContext] at h
  dsimp only at h
  rw [← hc] at h
  split at h
  · cases h
  rw [Worker.preProcessId_listed hr hc] at h
  split at h
  · cases h
  split at h
  · cases h
  obtain ⟨d, hd, heq⟩ := Option.map_eq_some_iff.mp h
  obtain ⟨rfl, -⟩ := Prod.mk.inj heq
  have hmethod : (if r.genCfg.doSample = true ∧ r.genCfg.numBeams = 1 then 0 else 1) = 0 ↔
      r.genCfg.doSample = true ∧ r.genCfg.numBeams = 1 := by
    split
    case isTrue hyes => exact iff_of_true rfl hyes
    case isFalse hno => exact iff_of_false Nat.one_ne_zero hno
  have hlen : input.prefixLen + Worker.contextBias input r + 1 = r.inputIds.length + 1 := by
    rw [Worker.contextBias]
    split <;> omega
  have hgen := @generated_of_some w
    { ((w.prepared input r batch serial).alloc (w.prepared input r batch serial).inLength).1 with
      inLengthBias := Worker.contextBias input r } d _ _ _ rfl rfl hmethod (fun hlooks =>
    ⟨hreads hlooks, w.promptTensor input.memory r, rfl, hlen, by
      show r.inputIds.length + 1 ≤ w.modelMaxLength
      omega, rfl⟩) hd
  have hstep : d.inLength + d.prefixLen = r.inputIds.length := by
    rw [GenerateContext.inLength, hgen.inputLen, hgen.prefixLen]
    exact Nat.sub_add_cancel hprior
  have hcfg : d.genCfg = r.genCfg := hgen.kept.genCfg
  have hids : (w.prepared input r batch serial).ids = r.inputIds := by
    rw [ids_of_generatedIds (t := w.promptTensor input.memory r) rfl,
      Worker.ids_promptTensor]
  have hfin : d.finish = decide (r.genCfg.maxLength ≤ ((r.inputIds.length + 1 : Nat) : Int) ∨
      (r.genCfg.ReadsIds ∧ Ends r.genCfg (r.inputIds ++ [input.decId]))) := by
    rw [← hlen, ← hids]
    exact hgen.finish
  refine ⟨?_, ?_⟩
  · have hid : d.id = r.requestId := congrArg Prod.fst hgen.kept.place
    have hbatch : d.currentBatch = batch := congrArg (fun place => place.2.1) hgen.kept.place
    rw [View.begin, ← hid, ← hcfg, ← hbatch, ← hstep]
    refine view_eq_extended (fun hlooks => ?_) ?_
    · have hlooks : r.genCfg.ReadsIds := hcfg ▸ hlooks
      obtain ⟨t, ht, htids, -⟩ := hgen.filled hlooks
      rw [← hids]
      exact (ids_of_generatedIds ht).trans htids
    · show d.finish = decide (d.genCfg.maxLength ≤ ((d.inLength + d.prefixLen + 1 : Nat) : Int) ∨
        (d.genCfg.ReadsIds ∧ Ends d.genCfg (r.inputIds ++ [input.decId])))
      rw [hfin, hcfg, hstep]
  · exact
      { inLengthBias := rfl
        generateMethod := by
          show d.generateMethod = 0 ↔ d.genCfg.doSample = true ∧ d.genCfg.numBeams = 1
          rw [hgen.generateMethod, hcfg]
          exact hmethod
        maxLength := hcfg ▸ hr.maxLength_le
        short := fun hgoes => by
          have hgoes : d.finish = false := hgoes
          rw [hfin, decide_eq_false_iff_not, not_or] at hgoes
          show ((d.inLength + d.prefixLen + 1 : Nat) : Int) < d.genCfg.maxLength
          rw [hstep, hcfg]
          omega
        genOver := hgen.genOver
        filled := fun hlooks => by
          have hlooks : r.genCfg.ReadsIds := hcfg ▸ hlooks
          obtain ⟨t, ht, -, hlength, hcapacity⟩ := hgen.filled hlooks
          refine ⟨hreads hlooks, t, ht, ?_, hcapacity⟩
          show t.length = d.inLength + d.prefixLen + 1
          rw [hlength, hstep]
          exact hlen }

end Steps

end DashInfer.Decode
