import DashInfer.Decode.Sequence
import DashInfer.Lib.Fallible

/-!
The actions of a rank on its requests, and the order they keep in its list: the
running contexts are unfinished and belong to whole requests, no two with the
same id, and each has what the next step needs of it.
-/

namespace DashInfer.Decode

open Lib Serving

/-- The part of a request that `PrefillChunkRequest` runs on its own. It shares
the output tensors, which a context step of the whole request writes anew. -/
def Request.chunk (newLen : Nat) (r : Request) : Request :=
  { r with
    requestId := { r.requestId with chunk := true }
    inputIds := r.inputIds.take newLen
    genCfg := { r.genCfg with maxLength := newLen + 1 } }

inductive Action
  | enqueue (request : Request)
  | context (request : Request) (input : ContextInput)
  | chunk (request : Request) (newLen : Nat) (input : ContextInput)
  | decode (input : DecodeInput)
  | stop (id : RequestId)

/-- What the engine loop does on a rank. -/
inductive Worker.Step (w : Worker) : AsModel → Action → AsModel → Prop
  | enqueue {m : AsModel} {r : Request} : Verified w r → r.requestId.chunk = false →
      (∀ q ∈ m.pendingRequestQueue, q.requestId ≠ r.requestId) →
      (∀ c ∈ m.running, c.id ≠ r.requestId) → w.Step m (.enqueue r) (m.startRequestImpl r)
  | context {m : AsModel} {r : Request} {rest : List Request} {input : ContextInput} :
      m.pendingRequestQueue = r :: rest → input.prefixLen ≤ r.inputIds.length →
      w.Step m (.context r input) (w.startRequest input r { m with pendingRequestQueue := rest }).1
  | chunk {m : AsModel} {r : Request} {rest : List Request} {newLen : Nat}
      {input : ContextInput} : m.pendingRequestQueue = r :: rest → input.prefixLen ≤ newLen →
      0 < newLen → newLen < r.inputIds.length →
      w.Step m (.chunk r newLen input) (w.startRequest input (r.chunk newLen) m).1
  | decode {m m' : AsModel} {input : DecodeInput} {status : Option AsStatus} :
      w.generateContinueDecoder input m = some (m', status) → w.Step m (.decode input) m'
  | stop {m : AsModel} {id : RequestId} : w.Step m (.stop id) (m.stopRequest .done id).1

/-- The runs of a rank, by the actions taken. -/
inductive Worker.Run (w : Worker) : List Action → AsModel → Prop
  | start : w.Run [] .start
  | step {actions : List Action} {a : Action} {m m' : AsModel} : w.Run actions m →
      w.Step m a m' → w.Run (actions ++ [a]) m'

section Chunk

variable {w : Worker} {r : Request} {newLen : Nat}

theorem length_chunk (hlt : newLen < r.inputIds.length) :
    (r.chunk newLen).inputIds.length = newLen := by
  rw [Request.chunk, List.length_take]
  omega

/-- A chunk of a verified request fits, and its sequence ends with its step. -/
theorem Verified.chunk (h : Verified w r) (hpos : 0 < newLen)
    (hlt : newLen < r.inputIds.length) : Verified w (r.chunk newLen) := by
  have hlength := length_chunk hlt
  have hle := h.input_le
  refine ⟨by omega, by omega, ?_, h.interim, h.outputs⟩
  show ((newLen + 1 : Nat) : Int) ≤ w.modelMaxLength
  omega

end Chunk

/-- What holds of a rank between steps, with what is to hold of its running
contexts and of its pending requests. -/
structure Orderly (P : GenerateContext → Prop) (Q : Request → Prop) (m : AsModel) : Prop where
  consistent : Consistent m
  running : ∀ c ∈ m.running, P c
  unfinished : ∀ c ∈ m.running, c.finish = false
  whole : ∀ c ∈ m.running, c.id.chunk = false
  pendingIds : (m.pendingRequestQueue.map Request.requestId).Nodup
  pending : ∀ r ∈ m.pendingRequestQueue, Q r ∧ r.requestId.chunk = false

section Orderly

variable {P : GenerateContext → Prop} {Q : Request → Prop} {m : AsModel}

theorem orderly_start : Orderly P Q .start :=
  ⟨consistent_start, fun _ h => (by cases h), fun _ h => (by cases h), fun _ h => (by cases h),
    List.nodup_nil, fun _ h => (by cases h)⟩

/-- A state whose contexts and pending requests come from those of another. -/
theorem Orderly.of_core {m' : AsModel} (hcore : ∀ c d : GenerateContext, c.core = d.core → P c → P d)
    (h : Orderly P Q m) (hcons : Consistent m')
    (hrunning : ∀ d ∈ m'.running, ∃ c ∈ m.running, c.core = d.core)
    (hpending : m'.pendingRequestQueue.Sublist m.pendingRequestQueue) : Orderly P Q m' where
  consistent := hcons
  running d hd := by
    obtain ⟨c, hc, heq⟩ := hrunning d hd
    exact hcore c d heq (h.running c hc)
  unfinished d hd := by
    obtain ⟨c, hc, heq⟩ := hrunning d hd
    rw [← GenerateContext.eq_of_core GenerateContext.finish (fun _ => rfl) heq]
    exact h.unfinished c hc
  whole d hd := by
    obtain ⟨c, hc, heq⟩ := hrunning d hd
    rw [← GenerateContext.eq_of_core GenerateContext.id (fun _ => rfl) heq]
    exact h.whole c hc
  pendingIds := h.pendingIds.sublist (hpending.map Request.requestId)
  pending r hr := h.pending r (hpending.subset hr)

/-- The state after a scan. -/
theorem orderly_stopFinished (hcore : ∀ c d : GenerateContext, c.core = d.core → P c → P d)
    (hcons : Consistent m) (hrunning : ∀ c ∈ m.running, P c)
    (hwhole : ∀ c ∈ m.running, c.finish = false → c.id.chunk = false)
    (hids : (m.pendingRequestQueue.map Request.requestId).Nodup)
    (hpending : ∀ r ∈ m.pendingRequestQueue, Q r ∧ r.requestId.chunk = false) :
    Orderly P Q (m.stopFinished (fun _ => .done) m.running.length).1 := by
  obtain ⟨hcons', hscan⟩ :=
    scanned_stopFinished (fun _ => .done) hcons (scannedFrom_length m)
  have hsub := pendingRequestQueue_stopFinished (fun _ => .done) m.running.length m
  have hfinish := hscan.complete (hscan.succeeds fun _ => rfl)
  exact
    { consistent := hcons'
      running := fun d hd => by
        obtain ⟨c, hc, heq⟩ := hscan.core_mem hd
        exact hcore c d heq (hrunning c hc)
      unfinished := hfinish
      whole := fun d hd => by
        obtain ⟨c, hc, heq⟩ := hscan.core_mem hd
        have hunfinished : c.finish = d.finish :=
          GenerateContext.eq_of_core GenerateContext.finish (fun _ => rfl) heq
        rw [← GenerateContext.eq_of_core GenerateContext.id (fun _ => rfl) heq]
        exact hwhole c hc (hunfinished.trans (hfinish d hd))
      pendingIds := hids.sublist (hsub.map Request.requestId)
      pending := fun r hr => hpending r (hsub.subset hr) }

theorem Orderly.startRequestImpl {r : Request} (h : Orderly P Q m) (hr : Q r)
    (hwhole : r.requestId.chunk = false)
    (hpending : ∀ q ∈ m.pendingRequestQueue, q.requestId ≠ r.requestId)
    (hrunning : ∀ c ∈ m.running, c.id ≠ r.requestId) : Orderly P Q (m.startRequestImpl r) := by
  refine ⟨h.consistent.step (.enqueue _ _ hpending hrunning), h.running, h.unfinished, h.whole, ?_,
    fun q hq => ?_⟩
  · rw [AsModel.startRequestImpl, List.map_append, List.nodup_append]
    refine ⟨h.pendingIds, List.nodup_singleton _, fun id hid id' hid' heq => ?_⟩
    obtain ⟨q, hq, rfl⟩ := List.mem_map.mp hid
    obtain rfl := List.mem_singleton.mp hid'
    exact hpending q hq heq
  · rcases List.mem_append.mp hq with hq | hq
    · exact h.pending q hq
    · obtain rfl := List.mem_singleton.mp hq
      exact ⟨hr, hwhole⟩

/-- The request at the head of the queue leaves it. -/
theorem Orderly.pop {r : Request} {rest : List Request} (h : Orderly P Q m)
    (hqueue : m.pendingRequestQueue = r :: rest) :
    Orderly P Q { m with pendingRequestQueue := rest } ∧
      (∀ q ∈ rest, q.requestId ≠ r.requestId) ∧ (∀ c ∈ m.running, c.id ≠ r.requestId) ∧
      Q r ∧ r.requestId.chunk = false := by
  have hids := h.pendingIds
  rw [hqueue, List.map_cons, List.nodup_cons] at hids
  have hhead : r ∈ m.pendingRequestQueue := hqueue ▸ List.mem_cons_self
  have htail : ∀ q ∈ rest, q ∈ m.pendingRequestQueue := fun q hq =>
    hqueue ▸ List.mem_cons_of_mem _ hq
  have hcons : Consistent { m with pendingRequestQueue := rest } :=
    ⟨h.consistent.position, h.consistent.listed, h.consistent.ids,
      fun c hc q hq => h.consistent.pending c hc q (htail q hq)⟩
  refine ⟨⟨hcons, h.running, h.unfinished, h.whole, hids.2, fun q hq => h.pending q (htail q hq)⟩,
    fun q hq heq => hids.1 (heq ▸ List.mem_map_of_mem hq),
    fun c hc heq => h.consistent.pending c hc r hhead heq.symm, h.pending r hhead⟩

/-- No whole request has the id of a chunk. -/
theorem Orderly.chunk (h : Orderly P Q m) (r : Request) (newLen : Nat) :
    (∀ q ∈ m.pendingRequestQueue, q.requestId ≠ (r.chunk newLen).requestId) ∧
      ∀ c ∈ m.running, c.id ≠ (r.chunk newLen).requestId := by
  refine ⟨fun q hq heq => ?_, fun c hc heq => ?_⟩
  · have hwhole := (h.pending q hq).2
    rw [heq] at hwhole
    cases hwhole
  · have hwhole := h.whole c hc
    rw [heq] at hwhole
    cases hwhole

theorem Orderly.stopRequest (hcore : ∀ c d : GenerateContext, c.core = d.core → P c → P d)
    (h : Orderly P Q m) (id : RequestId) : Orderly P Q (m.stopRequest .done id).1 :=
  h.of_core hcore (h.consistent.stopRequest .done id)
    (fun _ hd => h.consistent.mem_stopRequest hd) (pendingRequestQueue_stopRequest _ _ _)

end Orderly

section Context

variable {w : Worker} {m : AsModel} {r : Request} {input : ContextInput}

/-- The model with the context of the step listed and run. -/
def AsModel.ran (w : Worker) (input : ContextInput) (r : Request) (c : GenerateContext)
    (m : AsModel) : AsModel :=
  (m.pushBackGenCtx ((w.buildGenContext r).refFill input.prefixLen)).withRunning (m.running ++ [c])

theorem running_ran (c : GenerateContext) : (m.ran w input r c).running = m.running ++ [c] := rfl

theorem running_pushBackGenCtx (w : Worker) (input : ContextInput) (r : Request) (m : AsModel) :
    (m.pushBackGenCtx ((w.buildGenContext r).refFill input.prefixLen)).running =
      m.running ++ [w.listed input r m.running.length m.started] := rfl

theorem startRequest_eq (w : Worker) (input : ContextInput) (r : Request) (m : AsModel) :
    w.startRequest input r m =
      match w.runDecoderContext input (w.listed input r m.running.length m.started) with
      | none =>
          (((m.pushBackGenCtx ((w.buildGenContext r).refFill input.prefixLen)).stopRequest .done
            r.requestId).1, none)
      | some (c, _) =>
          (m.ran w input r c).stopFinished (fun _ => .done) (m.ran w input r c).running.length := by
  rw [Worker.startRequest]
  dsimp only
  rw [running_pushBackGenCtx, List.getElem?_concat_length]
  dsimp only
  cases w.runDecoderContext input (w.listed input r m.running.length m.started) with
  | none => rfl
  | some result =>
      dsimp only
      rw [List.set_append_right _ _ (Nat.le_refl _), Nat.sub_self, List.set_cons_zero]
      rfl

theorem consistent_listed (hcons : Consistent m)
    (hpending : ∀ q ∈ m.pendingRequestQueue, q.requestId ≠ r.requestId)
    (hrunning : ∀ c ∈ m.running, c.id ≠ r.requestId) :
    Consistent (m.pushBackGenCtx ((w.buildGenContext r).refFill input.prefixLen)) :=
  hcons.pushBackGenCtx hpending hrunning

theorem consistent_ran {c : GenerateContext} {status : AsStatus} (hcons : Consistent m)
    (hpending : ∀ q ∈ m.pendingRequestQueue, q.requestId ≠ r.requestId)
    (hrunning : ∀ c ∈ m.running, c.id ≠ r.requestId)
    (hrun : w.runDecoderContext input (w.listed input r m.running.length m.started) =
      some (c, status)) : Consistent (m.ran w input r c) := by
  refine (@consistent_listed w m r input hcons hpending hrunning).withRunning ?_
  rw [running_pushBackGenCtx, List.map_append, List.map_append, List.map_singleton,
    List.map_singleton, (Worker.runDecoderContext_kept hrun).place]

/-- A context step that fails after its context was listed leaves the others. -/
theorem core_stopRequest_listed (hcons : Consistent m)
    (hpending : ∀ q ∈ m.pendingRequestQueue, q.requestId ≠ r.requestId)
    (hrunning : ∀ c ∈ m.running, c.id ≠ r.requestId) :
    (((m.pushBackGenCtx ((w.buildGenContext r).refFill input.prefixLen)).stopRequest .done
        r.requestId).1.running.map GenerateContext.core).Perm
      (m.running.map GenerateContext.core) := by
  have hlisted := @consistent_listed w m r input hcons hpending hrunning
  have hat : (m.pushBackGenCtx ((w.buildGenContext r).refFill input.prefixLen)).running[
      m.running.length]? = some (w.listed input r m.running.length m.started) := by
    rw [running_pushBackGenCtx, List.getElem?_concat_length]
  have hstop := hlisted.stopRequest_running hat .done
  have hperm := RuntimeContext.finishRequest_perm hat
  have hid : (w.listed input r m.running.length m.started).request.requestId = r.requestId := rfl
  rw [hid] at hstop
  rw [hstop]
  refine (List.perm_cons (w.listed input r m.running.length m.started).core).mp ?_
  refine hperm.trans ?_
  have hrun := running_pushBackGenCtx w input r m
  rw [AsModel.running] at hrun
  rw [hrun, List.map_append, List.map_singleton]
  exact List.perm_append_singleton _ _

variable {P : GenerateContext → Prop} {Q : Request → Prop}

/-- A context step that leaves its context with what it is to have. -/
theorem Orderly.startRequest {c : GenerateContext} {status : AsStatus}
    (hcore : ∀ c d : GenerateContext, c.core = d.core → P c → P d) (h : Orderly P Q m)
    (hpending : ∀ q ∈ m.pendingRequestQueue, q.requestId ≠ r.requestId)
    (hrunning : ∀ c ∈ m.running, c.id ≠ r.requestId)
    (hrun : w.runDecoderContext input (w.listed input r m.running.length m.started) =
      some (c, status))
    (hc : P c) (hwhole : c.finish = false → c.id.chunk = false) :
    Orderly P Q (w.startRequest input r m).1 := by
  rw [startRequest_eq, hrun]
  refine orderly_stopFinished hcore (consistent_ran h.consistent hpending hrunning hrun) ?_ ?_
    h.pendingIds h.pending
  · intro d hd
    rcases List.mem_append.mp hd with hd | hd
    · exact h.running d hd
    · obtain rfl := List.mem_singleton.mp hd
      exact hc
  · intro d hd hfinish
    rcases List.mem_append.mp hd with hd | hd
    · exact h.whole d hd
    · obtain rfl := List.mem_singleton.mp hd
      exact hwhole hfinish

/-- A context step that an exception ends. -/
theorem Orderly.startRequest_none (hcore : ∀ c d : GenerateContext, c.core = d.core → P c → P d)
    (h : Orderly P Q m)
    (hpending : ∀ q ∈ m.pendingRequestQueue, q.requestId ≠ r.requestId)
    (hrunning : ∀ c ∈ m.running, c.id ≠ r.requestId)
    (hrun : w.runDecoderContext input (w.listed input r m.running.length m.started) = none) :
    Orderly P Q (w.startRequest input r m).1 := by
  have hperm := @core_stopRequest_listed w m r input h.consistent hpending hrunning
  have hcons := (@consistent_listed w m r input h.consistent hpending hrunning).stopRequest .done
    r.requestId
  rw [startRequest_eq, hrun]
  refine h.of_core hcore hcons (fun d hd => ?_) (pendingRequestQueue_stopRequest _ _ _)
  exact List.mem_map.mp (hperm.subset (List.mem_map_of_mem hd))

end Context

section Decode

variable {w : Worker} {m : AsModel} {input : DecodeInput}

/-- A context after a decode step that no operator fails. -/
def Worker.decoded (w : Worker) (input : DecodeInput) (c : GenerateContext) : GenerateContext :=
  (w.decodeOne input c).getD c

theorem decoded_kept (w : Worker) (input : DecodeInput) (c : GenerateContext) :
    Kept c (w.decoded input c) := by
  rw [Worker.decoded]
  cases hd : w.decodeOne input c with
  | none => exact ⟨rfl, rfl⟩
  | some d => exact Worker.decodeOne_kept hd

theorem decodeOne_eq_decoded {c d : GenerateContext} (h : w.decodeOne input c = some d) :
    w.decodeOne input c = some (w.decoded input c) := by
  rw [Worker.decoded, h, Option.getD_some]

/-- The running contexts after the operators of a decode step, before its scan. -/
def AsModel.decoded (w : Worker) (input : DecodeInput) (m : AsModel) : AsModel :=
  m.countUnfinished.withRunning (m.running.map (w.decoded input))

theorem consistent_decoded (w : Worker) (input : DecodeInput) (h : Consistent m) :
    Consistent (m.decoded w input) := by
  refine (Consistent.count h).withRunning ?_
  rw [List.map_map]
  exact List.map_congr_left fun c _ => (decoded_kept w input c).place

/-- A decode step that no operator fails: the operators and the scan. -/
theorem generateContinueDecoder_eq (hcons : Consistent m)
    (h : ∀ c ∈ m.running, w.decodeOne input c = some (w.decoded input c))
    (hne : m.running.length ≠ 0) :
    w.generateContinueDecoder input m = some
      (((m.decoded w input).stopFinished (fun _ => .done) (m.decoded w input).running.length).1,
        some .streaming) := by
  have hmap : m.running.mapM (w.decodeOne input) = some (m.running.map (w.decoded input)) :=
    mapM_eq_some h
  have hscan := (scanned_stopFinished (fun _ => .done) (consistent_decoded w input hcons)
    (scannedFrom_length _)).2.succeeds fun _ => rfl
  obtain ⟨m', hm'⟩ : ∃ m' : AsModel, (m.decoded w input).stopFinished (fun _ => .done)
      (m.decoded w input).running.length = (m', some .success) :=
    ⟨_, Prod.ext rfl hscan⟩
  rw [Worker.generateContinueDecoder]
  dsimp only
  rw [AsModel.running_countUnfinished, if_neg hne, hmap]
  rw [AsModel.decoded] at hm' ⊢
  dsimp only
  rw [hm']

theorem generateContinueDecoder_nil (w : Worker) (input : DecodeInput)
    (h : m.running.length = 0) :
    w.generateContinueDecoder input m = some (m.countUnfinished, some .emptyRequest) := by
  rw [Worker.generateContinueDecoder]
  dsimp only
  rw [AsModel.running_countUnfinished, if_pos h]

/-- In a decode step that goes through no operator has failed. -/
theorem decodeOne_of_some {m' : AsModel} {status : Option AsStatus}
    (h : w.generateContinueDecoder input m = some (m', status)) :
    ∀ c ∈ m.running, w.decodeOne input c = some (w.decoded input c) := by
  intro c hc
  by_cases hne : m.running.length = 0
  · rw [List.length_eq_zero_iff.mp hne] at hc
    cases hc
  · rw [Worker.generateContinueDecoder] at h
    dsimp only at h
    rw [AsModel.running_countUnfinished, if_neg hne] at h
    cases hmap : m.running.mapM (w.decodeOne input) with
    | none =>
        rw [hmap] at h
        cases h
    | some running =>
        obtain ⟨d, _, hd⟩ := exists_right_of_forall₂ (mapM_eq_some_iff.mp hmap) hc
        exact decodeOne_eq_decoded hd

variable {P : GenerateContext → Prop} {Q : Request → Prop}

/-- A decode step that leaves every context with what it is to have. -/
theorem Orderly.generateContinueDecoder {m' : AsModel} {status : Option AsStatus}
    (hcore : ∀ c d : GenerateContext, c.core = d.core → P c → P d) (h : Orderly P Q m)
    (hdecoded : ∀ c ∈ m.running, P (w.decoded input c))
    (hstep : w.generateContinueDecoder input m = some (m', status)) : Orderly P Q m' := by
  have hone := decodeOne_of_some hstep
  by_cases hne : m.running.length = 0
  · rw [generateContinueDecoder_nil w input hne] at hstep
    cases hstep
    exact ⟨h.consistent.count, h.running, h.unfinished, h.whole, h.pendingIds, h.pending⟩
  · rw [generateContinueDecoder_eq h.consistent hone hne] at hstep
    cases hstep
    refine orderly_stopFinished hcore (consistent_decoded w input h.consistent) ?_ ?_ h.pendingIds
      h.pending
    · intro d hd
      obtain ⟨c, hc, rfl⟩ := List.mem_map.mp hd
      exact hdecoded c hc
    · intro d hd _
      obtain ⟨c, hc, rfl⟩ := List.mem_map.mp hd
      have hid : (w.decoded input c).id = c.id := congrArg Prod.fst (decoded_kept w input c).place
      rw [hid]
      exact h.whole c hc

end Decode

end DashInfer.Decode
