import DashInfer.Serving.Simulation

/-!
The context step and the decoder step of the model, as occurrences in the lives
of the requests. The request at the front of the pending queue runs, runs in
part, or is turned away; every running request takes one token; and each step
ends by stopping the contexts that are finished.
-/

namespace DashInfer.Serving

open Lib

/-- How much of the prompt the next context step covers with a span cache. -/
def Request.nextLength (cfg : Config) (env : ContextEnv) (r : Request) : Nat :=
  (if cfg.prefixCache ∧ r.prefillChunkLen = 0 then env.prefixLen else r.prefillChunkLen) +
    cfg.maxPrefillLength + 1

/-- The next context step runs a chunk of the request. -/
def Request.RunsChunk (cfg : Config) (env : ContextEnv) (r : Request) : Prop :=
  cfg.cacheFrames ∧ r.content.warmup = false ∧ r.nextLength cfg env < r.inputLen

namespace AsModel

variable {allowed : Uuid → Occurrence → Prop} {m m' : AsModel} {u v : Uuid} {id : RequestId}
  {ctx : GenerateContext} {outcome : StopOutcome} {stops : RequestId → StopOutcome}
  {cfg : Config} {loras : Finset String} {env : ContextEnv} {content : RequestContent}
  {rest : List Uuid}

section Frames

variable (m : AsModel) (id : RequestId) (f : Request → Request)

theorem modifyOwn_own (u : Uuid) (f : Request → Request) :
    m.modifyOwn ⟨u, false⟩ f = m.modifyRequest u f := rfl

theorem modifyOwn_chunk (u : Uuid) (f : Request → Request) : m.modifyOwn ⟨u, true⟩ f = m := rfl

@[simp] theorem modifyOwn_pending :
    (m.modifyOwn id f).pendingRequestQueue = m.pendingRequestQueue := by
  rw [modifyOwn]
  split <;> rfl

@[simp] theorem modifyOwn_genCtxList : (m.modifyOwn id f).genCtxList = m.genCtxList := by
  rw [modifyOwn]
  split <;> rfl

@[simp] theorem modifyOwn_known : (m.modifyOwn id f).allRequestMap = m.allRequestMap := by
  rw [modifyOwn]
  split <;> rfl

theorem modifyOwn_other (h : v ≠ id.uuid) : (m.modifyOwn id f).requests v = m.requests v := by
  rw [modifyOwn]
  split
  · rfl
  · exact modifyRequest_other m f h

@[simp] theorem runContext_pending (content : RequestContent) (token : Int) (eos : Bool) :
    (m.runContext id content token eos).pendingRequestQueue = m.pendingRequestQueue :=
  modifyOwn_pending ..

@[simp] theorem runContext_genCtxList (content : RequestContent) (token : Int) (eos : Bool) :
    (m.runContext id content token eos).genCtxList = m.genCtxList ++
      [{ id, step := content.inputIds.length, maxLength := content.maxLength,
         finish := eos || content.maxLength ≤ content.inputIds.length + 1 }] :=
  modifyOwn_genCtxList ..

@[simp] theorem runContext_known (content : RequestContent) (token : Int) (eos : Bool) :
    (m.runContext id content token eos).allRequestMap = m.allRequestMap :=
  modifyOwn_known ..

theorem runContext_other (content : RequestContent) (token : Int) (eos : Bool)
    (h : v ≠ id.uuid) : (m.runContext id content token eos).requests v = m.requests v := by
  rw [runContext, recordToken, modifyOwn_other _ _ _ h, copyContextIds, modifyRequest_other _ _ h]
  rfl

/-- The first token of a request. -/
theorem runContext_own (token : Int) (eos : Bool) :
    (m.runContext ⟨u, false⟩ (m.requests u).content token eos).requests u =
      (m.requests u).withFirst token := by
  rw [runContext, recordToken, modifyOwn_own, modifyRequest_own, copyContextIds, modifyRequest_own]
  rfl

end Frames

section Front

/-- The first of the pending requests is taken out of the queue and runs. -/
theorem refines_front_running (hnodup : m.live.Nodup) (hfront : m.pendingRequestQueue = u :: rest)
    (hpending : m'.pendingRequestQueue = rest) (hlist : m'.genCtxList = m.genCtxList ++ [ctx])
    (hid : ctx.id = ⟨u, false⟩) (hknown : m'.allRequestMap = m.allRequestMap)
    (hothers : ∀ v, v ≠ u → m'.requests v = m.requests v)
    (hown : Path (allowed u) ⟨m.requests u, .pending⟩ ⟨m'.requests u, .running ctx.step⟩) :
    Refines allowed m m' := by
  have hlive : m'.live.Perm m.live := by
    rw [live, live, hpending, hlist, hfront, runningUuids_append, runningUuids_cons, hid]
    simp only [Bool.false_eq_true, if_false, runningUuids, List.filterMap_nil, List.append_nil]
    rw [← List.append_assoc, List.cons_append]
    exact List.perm_append_singleton _ _
  have hnodup' := hlive.nodup_iff.mpr hnodup
  have hmem : ctx ∈ m'.genCtxList := by
    rw [hlist]
    exact List.mem_append_right _ (List.mem_singleton_self _)
  apply Refines.single hnodup hnodup' (fun v hv => hlive.subset hv) hknown
  · intro v hv
    refine ⟨hothers v hv, ?_, ?_⟩
    · rw [hpending, hfront, List.mem_cons]
      exact (or_iff_right hv).symm
    · intro c hc
      rw [hlist, List.mem_append, List.mem_singleton]
      refine or_iff_left fun heq => hv ?_
      rw [heq, hid] at hc
      exact (congrArg RequestId.uuid hc).symm
  · rw [standing, standing, place_of_pending (by rw [hfront]; exact List.mem_cons_self),
      place_of_running hnodup' hmem hid]
    exact hown

/-- The first of the pending requests is taken out of the queue for good. -/
theorem refines_front_gone (hnodup : m.live.Nodup) (hfront : m.pendingRequestQueue = u :: rest)
    (hpending : m'.pendingRequestQueue = rest) (hlist : m'.genCtxList = m.genCtxList)
    (hknown : m'.allRequestMap = m.allRequestMap)
    (hothers : ∀ v, v ≠ u → m'.requests v = m.requests v)
    (hown : Path (allowed u) ⟨m.requests u, .pending⟩ ⟨m'.requests u, .gone⟩) :
    Refines allowed m m' := by
  have hlive : m.live = u :: m'.live := by
    rw [live, live, hpending, hlist, hfront, List.cons_append]
  have hcons := hnodup
  rw [hlive, List.nodup_cons] at hcons
  obtain ⟨hgone, hnodup'⟩ := hcons
  apply Refines.single hnodup hnodup' _ hknown
  · intro v hv
    refine ⟨hothers v hv, ?_, fun _ _ => by rw [hlist]⟩
    rw [hpending, hfront, List.mem_cons]
    exact (or_iff_right hv).symm
  · rw [standing, standing, place_of_pending (by rw [hfront]; exact List.mem_cons_self),
      place_of_not_live hgone]
    exact hown
  · intro v hv
    rw [hlive]
    exact List.mem_cons_of_mem u hv

theorem not_mem_rest (hnodup : m.live.Nodup) (hfront : m.pendingRequestQueue = u :: rest) :
    u ∉ rest ∧ ∀ ctx ∈ m.genCtxList, ctx.id ≠ ⟨u, false⟩ := by
  rw [live, hfront, List.cons_append, List.nodup_cons, List.mem_append, not_or] at hnodup
  refine ⟨hnodup.1.1, fun ctx hctx hid => hnodup.1.2 ?_⟩
  exact mem_runningUuids.mpr ⟨ctx, hctx, hid⟩

theorem lastIdx?_concat {α : Type} {p : α → Bool} (l : List α) {a : α} (ha : p a = true) :
    lastIdx? p (l ++ [a]) = some l.length := by
  induction l with
  | nil => simp [lastIdx?, ha]
  | cons b rest ih => rw [List.cons_append, lastIdx?, ih, List.length_cons]

theorem swapRemove_concat {α : Type} (l : List α) (a : α) :
    swapRemove (l ++ [a]) l.length = l := by
  rw [swapRemove_append_singleton, List.set_append_right _ _ (Nat.le_refl _), Nat.sub_self,
    List.set_cons_zero, List.dropLast_concat]

end Front

section Start

/-- A stop of the context listed last. -/
theorem stopRequest_last {l : List GenerateContext}
    (hpending : ¬ (ctx.id.chunk = false ∧ ctx.id.uuid ∈ m.pendingRequestQueue))
    (hlist : m.genCtxList = l ++ [ctx]) (outcome : StopOutcome) :
    (outcome.occurrence = .finished ∧ (m.stopRequest outcome ctx.id).2 ≠ none ∧
      (m.stopRequest outcome ctx.id).1.genCtxList = l ∧
      (m.stopRequest outcome ctx.id).1.pendingRequestQueue = m.pendingRequestQueue ∧
      (m.stopRequest outcome ctx.id).1.allRequestMap = m.allRequestMap ∧
      (m.stopRequest outcome ctx.id).1.requests = (m.modifyOwn ctx.id fun r =>
        { r with finish := true, status := .generateFinished, concluded := true }).requests) ∨
    (outcome.occurrence = .stopFailed ∧
      (m.stopRequest outcome ctx.id).1 = m.conclude ctx.id) := by
  have hidx : lastIdx? (fun c => decide (c.id = ctx.id)) m.genCtxList = some l.length := by
    rw [hlist]
    exact lastIdx?_concat l (by simp)
  have hremove : swapRemove m.genCtxList l.length = l := by rw [hlist, swapRemove_concat]
  rw [stopRequest, if_neg hpending, hidx]
  cases outcome with
  | done =>
      exact Or.inl ⟨rfl, by simp, hremove, modifyOwn_pending .., modifyOwn_known .., rfl⟩
  | late =>
      exact Or.inl ⟨rfl, by simp, hremove, modifyOwn_pending .., modifyOwn_known .., rfl⟩
  | refused => exact Or.inr ⟨rfl, rfl⟩
  | threw => exact Or.inr ⟨rfl, rfl⟩

/-- The request at the front, just listed among the running ones. -/
structure Listed (m q : AsModel) (u : Uuid) (rest : List Uuid) (ctx : GenerateContext) : Prop where
  front : m.pendingRequestQueue = u :: rest
  pending : q.pendingRequestQueue = rest
  list : q.genCtxList = m.genCtxList ++ [ctx]
  id : ctx.id = ⟨u, false⟩
  known : q.allRequestMap = m.allRequestMap
  others : ∀ v, v ≠ u → q.requests v = m.requests v

variable {q : AsModel}

theorem Listed.refines (h : Listed m q u rest ctx) (hnodup : m.live.Nodup)
    (hown : Path (allowed u) ⟨m.requests u, .pending⟩ ⟨q.requests u, .running ctx.step⟩) :
    Refines allowed m q :=
  refines_front_running hnodup h.front h.pending h.list h.id h.known h.others hown

theorem Listed.modifyRequest (h : Listed m q u rest ctx) (f : Request → Request) :
    Listed m (q.modifyRequest u f) u rest ctx :=
  ⟨h.front, h.pending, h.list, h.id, h.known, fun v hv =>
    (modifyRequest_other q f hv).trans (h.others v hv)⟩

theorem listed_push (hfront : m.pendingRequestQueue = u :: rest) (step maxLength : Nat) :
    Listed m (m.popPending.pushBackGenCtx ⟨⟨u, false⟩, step, maxLength, false⟩) u rest
      ⟨⟨u, false⟩, step, maxLength, false⟩ :=
  ⟨hfront, by simp [pushBackGenCtx, popPending, hfront], rfl, rfl, rfl, fun _ _ => rfl⟩

theorem listed_runContext (hfront : m.pendingRequestQueue = u :: rest) (content : RequestContent)
    (token : Int) (eos : Bool) :
    Listed m (m.popPending.runContext ⟨u, false⟩ content token eos) u rest
      ⟨⟨u, false⟩, content.inputIds.length, content.maxLength,
        eos || content.maxLength ≤ content.inputIds.length + 1⟩ :=
  ⟨hfront, by simp [popPending, hfront], runContext_genCtxList .., rfl, runContext_known ..,
    fun _ hv => runContext_other _ _ _ _ _ hv⟩

/-- A context step that throws, as it is caught: its request is stopped. -/
theorem refines_caught (h : Listed m q u rest ctx) (hnodup : m.live.Nodup)
    {out : GeneratedIds} {more : List Int}
    (hrequest : q.requests u =
      { m.requests u with outputs := out, generated := (m.requests u).generated ++ more })
    (hown : allowed u (if outcome.occurrence = .finished then .raised else .stuck)) :
    Refines allowed m
      (if (q.stopRequest outcome ⟨u, false⟩).2 = none then (q.stopRequest outcome ⟨u, false⟩).1
        else (q.stopRequest outcome ⟨u, false⟩).1.modifyOwn ⟨u, false⟩ fun r =>
          { r with status := .generateInterrupted }) := by
  have hrest := (not_mem_rest hnodup h.front).1
  have hpending : ¬ (ctx.id.chunk = false ∧ ctx.id.uuid ∈ q.pendingRequestQueue) := by
    rw [h.id, h.pending]
    exact fun hmem => hrest hmem.2
  rw [← h.id]
  rcases stopRequest_last hpending h.list outcome with
    ⟨hocc, hstatus, hlist, hpend, hknown, hrequests⟩ | ⟨hocc, heq⟩
  · rw [if_pos hocc] at hown
    rw [if_neg hstatus]
    rw [h.id] at hlist hpend hknown hrequests ⊢
    rw [modifyOwn_own] at hrequests ⊢
    refine refines_front_gone hnodup h.front ?_ ?_ ?_ ?_ ?_
    · exact hpend.trans h.pending
    · exact hlist
    · exact hknown.trans h.known
    · intro v hv
      rw [modifyRequest_other _ _ hv, hrequests, modifyRequest_other _ _ hv, h.others v hv]
    · rw [modifyRequest_own, hrequests, modifyRequest_own, hrequest]
      exact .single hown (.raised _ out more)
  · have hnot : outcome.occurrence ≠ .finished := by
      rw [hocc]
      exact fun hfalse => by cases hfalse
    rw [if_neg hnot] at hown
    rw [h.id] at heq ⊢
    have hconclude := h.modifyRequest fun r => { r with concluded := true }
    rw [heq]
    split
    · apply hconclude.refines hnodup
      rw [modifyRequest_own, hrequest]
      exact .single hown (.stuck _ out more _ _ (.inl rfl))
    · rw [modifyOwn_own]
      apply (hconclude.modifyRequest fun r => { r with status := .generateInterrupted }).refines
        hnodup
      rw [modifyRequest_own, modifyRequest_own, hrequest]
      exact .single hown (.stuck _ out more _ _ (.inr rfl))

/-- The request at the front starts; whatever becomes of it, some of the
finished contexts may be stopped after it. -/
theorem refines_startRequest (hnodup : m.live.Nodup) (hfront : m.pendingRequestQueue = u :: rest)
    (hown : allowed u (env.occurrence loras u (m.requests u).content))
    (hstops : ∀ v, allowed v (env.stops ⟨v, false⟩).occurrence) :
    Refines allowed m
      (m.popPending.startRequest loras env ⟨u, false⟩ (m.requests u).content).1 := by
  have hrest := not_mem_rest hnodup hfront
  have hpop : m.popPending.pendingRequestQueue = rest := by simp [popPending, hfront]
  have hstopAll : ∀ q : AsModel, Refines allowed m q →
      Refines allowed m (q.stopFinished env.stops q.genCtxList.length).1 := fun q hq =>
    hq.trans (refines_stopFinished hstops _ q hq.nodup)
  rw [ContextEnv.occurrence] at hown
  rw [startRequest]
  split at hown
  case isTrue hlora =>
    have hnone : m.popPending.stopRequest (env.stops ⟨u, false⟩) ⟨u, false⟩ =
        (m.popPending, some .success) := by
      rcases stopRequest_cases m.popPending (env.stops ⟨u, false⟩) ⟨u, false⟩ with
        ⟨_, hmem, _⟩ | ⟨_, _, heq⟩ | ⟨index, ctx, hget, hid, _⟩
      · rw [hpop] at hmem
        exact absurd hmem hrest.1
      · exact heq
      · exact absurd hid (hrest.2 ctx (List.mem_of_getElem? hget))
    rw [if_pos hlora, hnone]
    dsimp only
    rw [if_neg (by simp)]
    refine refines_front_gone hnodup hfront hpop rfl rfl ?_ ?_
    · intro v hv
      dsimp only
      exact modifyOwn_other m.popPending ⟨u, false⟩ _ hv
    · dsimp only
      rw [modifyOwn_own, modifyRequest_own]
      exact .single hown (.loraMissing _)
  case isFalse hlora =>
    rw [if_neg hlora]
    cases hout : env.outcome.limited
        ((m.requests u).content.inputIds.length - env.filledLen) (m.requests u).content.maxLength with
    | refused threw =>
        rw [hout] at hown
        dsimp only
        refine refines_front_gone hnodup hfront hpop rfl rfl ?_ ?_
        · intro v hv
          exact modifyOwn_other m.popPending ⟨u, false⟩ _ hv
        · rw [conclude, modifyOwn_own, modifyRequest_own]
          exact .single hown (.refused _)
    | halted step threw =>
        rw [hout] at hown
        apply ((listed_push hfront step _).modifyRequest
          fun r => { r with concluded := true }).refines hnodup
        rw [modifyRequest_own]
        exact .single hown (.halted _ _)
    | failure step =>
        rw [hout] at hown
        apply hstopAll
        apply (((listed_push hfront step _).modifyRequest
          fun r => { r with concluded := true }).modifyRequest
            fun r => { r with status := .contextFinished }).refines hnodup
        rw [modifyRequest_own, modifyRequest_own]
        exact .single hown (.failed _ _)
    | exception token =>
        rw [hout] at hown
        cases token with
        | none =>
            -- nothing was generated, and the output tensor is as it was
            have hsame : m.requests u = { m.requests u with
                outputs := (m.requests u).outputs
                generated := (m.requests u).generated ++ [] } := by
              rw [List.append_nil]
            have hcaught := refines_caught
              (listed_push hfront 0 (m.requests u).content.maxLength) hnodup hsame hown
            dsimp only
            split
            · rename_i hstatus
              rwa [if_pos hstatus] at hcaught
            · rename_i hstatus
              rwa [if_neg hstatus] at hcaught
        | some token =>
            have hcaught := refines_caught
              (listed_runContext hfront (m.requests u).content token false) hnodup
              (runContext_own m.popPending token false) hown
            dsimp only
            split
            · rename_i hstatus
              rwa [if_pos hstatus] at hcaught
            · rename_i hstatus
              rwa [if_neg hstatus] at hcaught
    | success token eos =>
        rw [hout] at hown
        apply hstopAll
        apply ((listed_runContext hfront (m.requests u).content token eos).modifyRequest
          fun r => { r with status := .contextFinished }).refines hnodup
        rw [modifyRequest_own]
        exact .single hown
          (runContext_own m.popPending token eos ▸ .ranFinished (m.requests u) token)
    | unreshaped token eos =>
        rw [hout] at hown
        apply (listed_runContext hfront (m.requests u).content token eos).refines hnodup
        exact .single hown
          (runContext_own m.popPending token eos ▸ .ran (m.requests u) token)

/-- The context of a chunk is nobody's own. -/
theorem refines_pushChunk (hnodup : m.live.Nodup) (step maxLength : Nat) (finish : Bool) :
    Refines allowed m (m.pushBackGenCtx ⟨⟨u, true⟩, step, maxLength, finish⟩) := by
  have hlive : (m.pushBackGenCtx ⟨⟨u, true⟩, step, maxLength, finish⟩).live = m.live := by
    rw [live, live, pushBackGenCtx, runningUuids_append]
    exact congrArg _ (List.append_nil _)
  apply (Refines.refl hnodup).congr hlive rfl
  intro v
  have hplace : (m.pushBackGenCtx ⟨⟨u, true⟩, step, maxLength, finish⟩).place v = m.place v := by
    refine place_congr hnodup (hlive ▸ hnodup) Iff.rfl fun ctx hid => ?_
    rw [pushBackGenCtx, List.mem_append, List.mem_singleton]
    apply or_iff_left
    rintro rfl
    cases hid
  rw [standing, standing, hplace]
  rfl

theorem refines_runChunk (hnodup : m.live.Nodup) (hmem : u ∈ m.pendingRequestQueue)
    (hlen : content.inputIds.length < (m.requests u).inputLen) (hown : allowed u .chunked)
    (token : Int) (eos : Bool) :
    Refines allowed m (m.runContext ⟨u, true⟩ content token eos) := by
  have hpush : Refines allowed m (m.pushBackGenCtx
      ⟨⟨u, true⟩, content.inputIds.length, content.maxLength,
        eos || content.maxLength ≤ content.inputIds.length + 1⟩) :=
    refines_pushChunk hnodup ..
  rw [runContext, recordToken, modifyOwn_chunk, copyContextIds]
  apply hpush.trans
  apply refines_modifyRequest hpush.nodup
  dsimp only
  rw [place_of_pending (m := m.pushBackGenCtx _) hmem]
  exact .single hown (.chunked _ _ hlen)

/-- A chunk of the request at the front runs. -/
theorem refines_startChunk (hnodup : m.live.Nodup) (hmem : u ∈ m.pendingRequestQueue)
    (hlen : content.inputIds.length < (m.requests u).inputLen) (hown : allowed u .chunked)
    (hstops : ∀ v, allowed v (env.stops ⟨v, false⟩).occurrence) :
    Refines allowed m (m.startRequest loras env ⟨u, true⟩ content).1 := by
  have hstopAll : ∀ q : AsModel, Refines allowed m q →
      Refines allowed m (q.stopFinished env.stops q.genCtxList.length).1 := fun q hq =>
    hq.trans (refines_stopFinished hstops _ q hq.nodup)
  have hstop : ∀ q : AsModel, Refines allowed m q →
      Refines allowed m (q.stopRequest (env.stops ⟨u, true⟩) ⟨u, true⟩).1 := fun q hq =>
    hq.trans (refines_stopRequest hq.nodup (fun hfalse => by cases hfalse)
      (fun hfalse => by cases hfalse))
  rw [startRequest]
  split
  · have hstopped := hstop m (.refl hnodup)
    dsimp only
    split
    · exact hstopped
    · exact hstopped
  · cases env.outcome.limited (content.inputIds.length - env.filledLen) content.maxLength with
    | refused threw => exact .refl hnodup
    | halted step threw => exact refines_pushChunk hnodup ..
    | failure step => exact hstopAll _ (refines_pushChunk hnodup ..)
    | exception token =>
        cases token with
        | none =>
            have hstopped := hstop _ (refines_pushChunk (u := u) hnodup 0 content.maxLength false)
            dsimp only
            split
            · exact hstopped
            · exact hstopped
        | some token =>
            have hstopped := hstop _ (refines_runChunk hnodup hmem hlen hown token false)
            dsimp only
            split
            · exact hstopped
            · exact hstopped
    | success token eos => exact hstopAll _ (refines_runChunk hnodup hmem hlen hown token eos)
    | unreshaped token eos => exact refines_runChunk hnodup hmem hlen hown token eos

end Start

section Context

/-- What a context step can do to the requests. -/
inductive ContextCauses (cfg : Config) (loras : Finset String) (env : ContextEnv) (m : AsModel) :
    Uuid → Occurrence → Prop
  | prefilled {u : Uuid} : m.pendingRequestQueue.head? = some u → ContextCauses cfg loras env m u .prefilled
  | interrupted {u : Uuid} : m.pendingRequestQueue.head? = some u → env.enoughFrames = false →
      ContextCauses cfg loras env m u .interrupted
  | chunked {u : Uuid} : m.pendingRequestQueue.head? = some u → (m.requests u).RunsChunk cfg env →
      ContextCauses cfg loras env m u .chunked
  | started {u : Uuid} : m.pendingRequestQueue.head? = some u → ¬ (m.requests u).RunsChunk cfg env →
      ContextCauses cfg loras env m u (env.occurrence loras u (m.requests u).content)
  | stopped (v : Uuid) : ContextCauses cfg loras env m v (env.stops ⟨v, false⟩).occurrence

theorem refines_prefilled (hnodup : m.live.Nodup) (hown : allowed u .prefilled) (n : Request → Nat) :
    Refines allowed m (m.modifyRequest u fun r => { r with prefillChunkLen := n r }) :=
  refines_modifyRequest hnodup (.single hown (.prefilled _ _ _))

theorem refines_prefillChunkRequest (hnodup : m.live.Nodup)
    (hfront : m.pendingRequestQueue = u :: rest) (hprefilled : allowed u .prefilled)
    (hchunked : (m.requests u).content.warmup = false ∧
      (m.requests u).prefillChunkLen + cfg.maxPrefillLength + 1 < (m.requests u).inputLen →
        allowed u .chunked)
    (hstarted : ¬ ((m.requests u).content.warmup = false ∧
      (m.requests u).prefillChunkLen + cfg.maxPrefillLength + 1 < (m.requests u).inputLen) →
        allowed u (env.occurrence loras u (m.requests u).content))
    (hstops : ∀ v, allowed v (env.stops ⟨v, false⟩).occurrence) :
    Refines allowed m (m.prefillChunkRequest cfg loras env u).1 := by
  rw [prefillChunkRequest]
  dsimp only
  split
  · rename_i hwhole
    have hoccurs : allowed u (env.occurrence loras u (m.requests u).content) := by
      apply hstarted
      rintro ⟨hwarm, hlt⟩
      rcases hwhole with hwarmup | hle
      · rw [hwarm] at hwarmup
        cases hwarmup
      · exact absurd hle (Nat.not_le.mpr hlt)
    have hstart := refines_startRequest hnodup hfront hoccurs hstops
    split
    · exact hstart
    · dsimp only
      exact hstart.trans (refines_prefilled hstart.nodup hprefilled _)
  · rename_i hpart
    rw [not_or, Bool.not_eq_true, Nat.not_le] at hpart
    have hlen : (chunkContent (m.requests u).content
        ((m.requests u).prefillChunkLen + cfg.maxPrefillLength + 1)).inputIds.length <
          (m.requests u).inputLen := by
      rw [chunkContent, List.length_take]
      exact Nat.lt_of_le_of_lt (Nat.min_le_left _ _) hpart.2
    have hmem : u ∈ m.pendingRequestQueue := by
      rw [hfront]
      exact List.mem_cons_self
    have hstart : Refines allowed m (m.startRequest loras env ⟨u, true⟩ (chunkContent
        (m.requests u).content ((m.requests u).prefillChunkLen + cfg.maxPrefillLength + 1))).1 :=
      refines_startChunk hnodup hmem hlen (hchunked hpart) hstops
    split
    · exact hstart
    · dsimp only
      exact hstart.trans (refines_prefilled hstart.nodup hprefilled _)

theorem refines_interruptPending (hnodup : m.live.Nodup)
    (hfront : m.pendingRequestQueue = u :: rest) (hown : allowed u .interrupted) :
    Refines allowed m (m.interruptPending u) := by
  refine refines_front_gone hnodup hfront ?_ rfl rfl ?_ ?_
  · simp [interruptPending, popPending, modifyRequest, hfront]
  · intro v hv
    exact modifyRequest_other m.popPending _ hv
  · rw [interruptPending, modifyRequest_own]
    exact .single hown (.interrupted _)

/-- Counters that no request sees. -/
theorem refines_storeUnfinished (h : Refines allowed m m') :
    Refines allowed m m'.storeUnfinished := h.congr rfl rfl fun _ => rfl

theorem refines_recordPrefix (hnodup : m.live.Nodup) (hown : allowed u .prefilled) :
    Refines allowed m (m.recordPrefix cfg env u) := by
  rw [recordPrefix]
  split
  · exact refines_prefilled hnodup hown _
  · exact .refl hnodup

theorem recordPrefix_own (m : AsModel) (u : Uuid) :
    ((m.recordPrefix cfg env u).requests u).content = (m.requests u).content ∧
      ((m.recordPrefix cfg env u).requests u).prefillChunkLen + cfg.maxPrefillLength + 1 =
        (m.requests u).nextLength cfg env := by
  rw [recordPrefix, Request.nextLength]
  split
  · rw [modifyRequest_own]
    exact ⟨rfl, rfl⟩
  · exact ⟨rfl, rfl⟩

theorem recordPrefix_pending (m : AsModel) (u : Uuid) :
    (m.recordPrefix cfg env u).pendingRequestQueue = m.pendingRequestQueue := by
  rw [recordPrefix]
  split <;> rfl

theorem refines_admitPending (hnodup : m.live.Nodup) (hfront : m.pendingRequestQueue = u :: rest)
    (hframes : cfg.cacheFrames = true)
    (hallowed : ∀ v o, ContextCauses cfg loras env m v o → allowed v o) :
    Refines allowed m (m.admitPending cfg loras env u).1 := by
  have hhead : m.pendingRequestQueue.head? = some u := by rw [hfront, List.head?_cons]
  have hprefilled := hallowed u _ (.prefilled hhead)
  have hrecord : Refines allowed m (m.recordPrefix cfg env u) :=
    refines_recordPrefix hnodup hprefilled
  have hfront' : (m.recordPrefix cfg env u).pendingRequestQueue = u :: rest :=
    (recordPrefix_pending m u).trans hfront
  obtain ⟨hcontent, hnext⟩ : ((m.recordPrefix cfg env u).requests u).content =
      (m.requests u).content ∧ ((m.recordPrefix cfg env u).requests u).prefillChunkLen +
        cfg.maxPrefillLength + 1 = (m.requests u).nextLength cfg env := recordPrefix_own m u
  have hinput : ((m.recordPrefix cfg env u).requests u).inputLen = (m.requests u).inputLen :=
    congrArg (fun c : RequestContent => c.inputIds.length) hcontent
  rw [admitPending]
  split
  · exact .refl hnodup
  · dsimp only
    split
    · have hrun : Refines allowed (m.recordPrefix cfg env u)
          ((m.recordPrefix cfg env u).prefillChunkRequest cfg loras env u).1 := by
        apply refines_prefillChunkRequest hrecord.nodup hfront' hprefilled
        · rw [hcontent, hnext, hinput]
          exact fun hchunk => hallowed u _ (.chunked hhead ⟨hframes, hchunk⟩)
        · rw [hcontent, hnext, hinput]
          exact fun hwhole => hallowed u _ (.started hhead fun hchunk => hwhole hchunk.2)
        · exact fun v => hallowed v _ (.stopped v)
      have hall := hrecord.trans hrun
      split
      · exact hall
      · split
        · exact refines_storeUnfinished hall
        · exact (refines_storeUnfinished hall).congr rfl rfl fun _ => rfl
    · rename_i hfew
      exact refines_storeUnfinished (hrecord.trans (refines_interruptPending hrecord.nodup hfront'
        (hallowed u _ (.interrupted hhead (by simpa using hfew)))))

theorem refines_continueContext (hnodup : m.live.Nodup)
    (hallowed : ∀ v o, ContextCauses cfg loras env m v o → allowed v o) :
    Refines allowed m (m.generateContinueContext cfg loras false env).1 := by
  rw [generateContinueContext]
  dsimp only
  rw [if_neg Bool.false_ne_true]
  cases hqueue : m.pendingRequestQueue with
  | nil => exact .refl hnodup
  | cons u rest =>
      dsimp only
      split
      · exact .refl hnodup
      · split
        · exact .refl hnodup
        · split
          · rename_i hframes
            exact refines_admitPending hnodup hqueue hframes hallowed
          · rename_i hframes
            have hhead : m.pendingRequestQueue.head? = some u := by rw [hqueue, List.head?_cons]
            have hoccurs := hallowed u _ (.started hhead fun hchunk => hframes hchunk.1)
            have hstart := refines_startRequest hnodup hqueue hoccurs
              (fun v => hallowed v _ (.stopped v))
            split
            · exact hstart
            · exact refines_storeUnfinished hstart

theorem refines_generateContinueContext (hnodup : m.live.Nodup) (isNewContext : Bool)
    (hallowed : ∀ v o, ContextCauses cfg loras env m v o → allowed v o) :
    Refines allowed m (m.generateContinueContext cfg loras isNewContext env).1 := by
  cases isNewContext with
  | false => exact refines_continueContext hnodup hallowed
  | true =>
      have hreset : Refines allowed m { m with alreadyContextLength := 0 } :=
        (Refines.refl hnodup).congr rfl rfl fun _ => rfl
      refine hreset.trans (refines_continueContext hnodup fun v o hcause => hallowed v o ?_)
      cases hcause with
      | prefilled hhead => exact .prefilled hhead
      | interrupted hhead hfew => exact .interrupted hhead hfew
      | chunked hhead hchunk => exact .chunked hhead hchunk
      | started hhead hwhole => exact .started hhead hwhole
      | stopped => exact .stopped _

end Context

section Decoder

/-- What a decoder step can do to the requests. -/
inductive DecoderCauses (stops : RequestId → StopOutcome) (m : AsModel) :
    Uuid → Occurrence → Prop
  | decoded {ctx : GenerateContext} : ctx ∈ m.genCtxList → ctx.id.chunk = false →
      DecoderCauses stops m ctx.id.uuid .decoded
  | scribbled {ctx : GenerateContext} : ctx ∈ m.genCtxList → ctx.id.chunk = true →
      DecoderCauses stops m ctx.id.uuid .scribbled
  | stopped (v : Uuid) : DecoderCauses stops m v (stops ⟨v, false⟩).occurrence

variable {tokens : RequestId → Int} {eos : RequestId → Bool} {l : List GenerateContext}

/-- The part of one context in the decoder graph. -/
def decodeContext (tokens : RequestId → Int) (ctx : GenerateContext) (m : AsModel) : AsModel :=
  (m.copyDecoderId ctx.id.uuid (ctx.step + 1) (tokens ctx.id)).recordToken ctx.id (tokens ctx.id)

theorem decodeContexts_cons (tokens : RequestId → Int) (ctx : GenerateContext)
    (l : List GenerateContext) (m : AsModel) :
    decodeContexts tokens (ctx :: l) m = decodeContexts tokens l (m.decodeContext tokens ctx) := rfl

theorem decodeContext_other (h : u ≠ ctx.id.uuid) :
    (m.decodeContext tokens ctx).requests u = m.requests u := by
  rw [decodeContext, recordToken, modifyOwn_other _ _ _ h, copyDecoderId, modifyRequest_other _ _ h]

theorem decodeContext_own (hown : ctx.id.chunk = false) :
    (m.decodeContext tokens ctx).requests ctx.id.uuid =
      (m.requests ctx.id.uuid).withNext (ctx.step + 1) (tokens ctx.id) := by
  obtain ⟨⟨uuid, chunk⟩, step, maxLength, finish⟩ := ctx
  subst hown
  rw [decodeContext, recordToken, modifyOwn_own, modifyRequest_own, copyDecoderId,
    modifyRequest_own]
  rfl

theorem decodeContext_chunk (hchunk : ctx.id.chunk = true) :
    (m.decodeContext tokens ctx).requests ctx.id.uuid =
      { m.requests ctx.id.uuid with outputs :=
          ((m.requests ctx.id.uuid).withNext (ctx.step + 1) (tokens ctx.id)).outputs } := by
  obtain ⟨⟨uuid, chunk⟩, step, maxLength, finish⟩ := ctx
  subst hchunk
  rw [decodeContext, recordToken, modifyOwn_chunk, copyDecoderId, modifyRequest_own]
  rfl

@[simp] theorem decodeContexts_frame (tokens : RequestId → Int) (l : List GenerateContext)
    (m : AsModel) :
    (decodeContexts tokens l m).pendingRequestQueue = m.pendingRequestQueue ∧
      (decodeContexts tokens l m).allRequestMap = m.allRequestMap := by
  induction l generalizing m with
  | nil => exact ⟨rfl, rfl⟩
  | cons ctx l ih =>
      rw [decodeContexts_cons, (ih _).1, (ih _).2]
      exact ⟨modifyOwn_pending .., modifyOwn_known ..⟩

/-- Contexts that are not the request's own can only scribble. -/
theorem decodeContexts_idle (hscribbled : ∀ ctx ∈ l, ctx.id = ⟨u, true⟩ → allowed u .scribbled)
    (hnone : ∀ ctx ∈ l, ctx.id ≠ ⟨u, false⟩) (m : AsModel) (p : Place) :
    Path (allowed u) ⟨m.requests u, p⟩ ⟨(decodeContexts tokens l m).requests u, p⟩ := by
  induction l generalizing m with
  | nil => exact .refl
  | cons ctx l ih =>
      rw [List.forall_mem_cons] at hscribbled hnone
      have hrest := ih hscribbled.2 hnone.2 (m.decodeContext tokens ctx)
      rw [decodeContexts_cons]
      apply Path.trans _ hrest
      rcases eq_or_ne u ctx.id.uuid with rfl | hne
      · have hchunk : ctx.id.chunk = true := by
          by_contra hown
          rw [Bool.not_eq_true] at hown
          apply hnone.1
          rw [← hown]
        rw [decodeContext_chunk hchunk]
        exact .single (hscribbled.1 (by rw [← hchunk])) (.scribbled _ _ _)
      · rw [decodeContext_other hne]
        exact .refl

/-- The request's own context adds a token. -/
theorem decodeContexts_own (hdecoded : allowed u .decoded)
    (hscribbled : ∀ ctx ∈ l, ctx.id = ⟨u, true⟩ → allowed u .scribbled)
    (hnodup : (runningUuids l).Nodup) (hmem : ctx ∈ l) (hid : ctx.id = ⟨u, false⟩) (m : AsModel) :
    Path (allowed u) ⟨m.requests u, .running ctx.step⟩
      ⟨(decodeContexts tokens l m).requests u, .running (ctx.step + 1)⟩ := by
  induction l generalizing m with
  | nil => cases hmem
  | cons head l ih =>
      rw [List.forall_mem_cons] at hscribbled
      have hcons := hnodup
      rw [runningUuids_cons, List.nodup_append] at hcons
      rw [decodeContexts_cons]
      rcases eq_or_ne head.id ⟨u, false⟩ with hhead | hhead
      · have heq : ctx = head :=
          eq_of_running hnodup hmem List.mem_cons_self hid hhead
        have hnone : ∀ c ∈ l, c.id ≠ ⟨u, false⟩ := by
          intro c hc hcid
          apply hcons.2.2 u (by simp [hhead]) u (mem_runningUuids.mpr ⟨c, hc, hcid⟩) rfl
        apply Path.trans _ (decodeContexts_idle hscribbled.2 hnone _ _)
        have hown : (m.decodeContext tokens head).requests head.id.uuid =
            (m.requests head.id.uuid).withNext (head.step + 1) (tokens head.id) :=
          decodeContext_own (by rw [hhead])
        rw [hhead] at hown
        rw [hown, heq]
        exact .single hdecoded (.decoded _ _ _)
      · have hin : ctx ∈ l := by
          rcases List.mem_cons.mp hmem with rfl | hin
          · exact absurd hid hhead
          · exact hin
        apply Path.trans _ (ih hscribbled.2 hcons.2.1 hin _)
        rcases eq_or_ne u head.id.uuid with rfl | hne
        · have hchunk : head.id.chunk = true := by
            by_contra hown
            rw [Bool.not_eq_true] at hown
            apply hhead
            rw [← hown]
          rw [decodeContext_chunk hchunk]
          exact .single (hscribbled.1 (by rw [← hchunk])) (.scribbled _ _ _)
        · rw [decodeContext_other hne]
          exact .refl

theorem runningUuids_advance (eos : RequestId → Bool) (l : List GenerateContext) :
    runningUuids (l.map fun ctx => ctx.advance (eos ctx.id)) = runningUuids l := by
  rw [runningUuids, List.filterMap_map]
  rfl

/-- The running contexts after the decoder graph. -/
def decodeAll (tokens : RequestId → Int) (eos : RequestId → Bool) (m : AsModel) : AsModel :=
  { decodeContexts tokens m.genCtxList m with
    genCtxList := m.genCtxList.map fun ctx => ctx.advance (eos ctx.id) }

theorem refines_decodeAll (hnodup : m.live.Nodup)
    (hallowed : ∀ v o, DecoderCauses stops m v o → allowed v o) :
    Refines allowed m (m.decodeAll tokens eos) := by
  obtain ⟨hpending, hknown⟩ := decodeContexts_frame tokens m.genCtxList m
  have hlive : (m.decodeAll tokens eos).live = m.live := by
    rw [live, live, decodeAll, hpending, runningUuids_advance]
  have hrun := (List.nodup_append.mp hnodup).2.1
  have hscribbled : ∀ u, ∀ ctx ∈ m.genCtxList, ctx.id = ⟨u, true⟩ → allowed u .scribbled := by
    intro u ctx hctx hid
    have hcause : DecoderCauses stops m ctx.id.uuid .scribbled := .scribbled hctx (by rw [hid])
    rw [hid] at hcause
    exact hallowed _ _ hcause
  refine ⟨hlive ▸ hnodup, fun u hu => hlive ▸ hu, hknown, fun u => ?_⟩
  rw [standing, standing]
  by_cases hown : ∃ ctx ∈ m.genCtxList, ctx.id = ⟨u, false⟩
  · obtain ⟨ctx, hctx, hid⟩ := hown
    have hdecoded : allowed u .decoded := by
      have hcause : DecoderCauses stops m ctx.id.uuid .decoded := .decoded hctx (by rw [hid])
      rw [hid] at hcause
      exact hallowed _ _ hcause
    have hmem : ctx.advance (eos ctx.id) ∈ (m.decodeAll tokens eos).genCtxList :=
      List.mem_map.mpr ⟨ctx, hctx, rfl⟩
    have hplace : (m.decodeAll tokens eos).place u = .running (ctx.step + 1) :=
      place_of_running (hlive ▸ hnodup) hmem hid
    rw [hplace, place_of_running hnodup hctx hid]
    exact decodeContexts_own hdecoded (hscribbled u) hrun hctx hid m
  · push Not at hown
    have hplace : (m.decodeAll tokens eos).place u = m.place u := by
      refine place_congr hnodup (hlive ▸ hnodup) ?_ fun ctx hid => ?_
      · rw [decodeAll, hpending]
      · refine iff_of_false (fun hmem => ?_) (fun hmem => hown ctx hmem hid)
        obtain ⟨before, hbefore, rfl⟩ := List.mem_map.mp hmem
        exact hown before hbefore hid
    rw [hplace]
    exact decodeContexts_idle (hscribbled u) hown m _

theorem refines_generateContinueDecoder (hnodup : m.live.Nodup)
    (hallowed : ∀ v o, DecoderCauses stops m v o → allowed v o) :
    Refines allowed m (m.generateContinueDecoder tokens eos stops).1 := by
  have hstore : Refines allowed m m.storeUnfinished := refines_storeUnfinished (.refl hnodup)
  rw [generateContinueDecoder]
  dsimp only
  split
  · exact hstore
  · have hdecode : Refines allowed m (m.storeUnfinished.decodeAll tokens eos) :=
      hstore.trans (refines_decodeAll hstore.nodup fun v o hcause => hallowed v o (by
        cases hcause with
        | decoded hctx hown => exact .decoded hctx hown
        | scribbled hctx hchunk => exact .scribbled hctx hchunk
        | stopped => exact .stopped _))
    have hstopped := hdecode.trans (refines_stopFinished (fun v => hallowed v _ (.stopped v))
      (m.storeUnfinished.decodeAll tokens eos).genCtxList.length _ hdecode.nodup)
    split
    · rename_i q heq
      exact (congrArg Prod.fst heq) ▸ hstopped
    · exact hstopped

end Decoder

end AsModel

end DashInfer.Serving
