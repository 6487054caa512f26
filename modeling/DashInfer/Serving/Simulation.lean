import DashInfer.Serving.Standing

/-!
What each operation of `AsModel` does to the requests: the stops, the context
step and the decoder step, as occurrences in the lives of the requests they
concern.
-/

namespace DashInfer.Serving

open Lib

/-- What a stop is for the running request. -/
def StopOutcome.occurrence : StopOutcome → Occurrence
  | .done | .late => .finished
  | .refused | .threw => .stopFailed

/-- What a context step is for the request it starts. -/
def ContextEnv.occurrence (env : ContextEnv) (loras : Finset String) (u : Uuid)
    (content : RequestContent) : Occurrence :=
  if content.loraName ≠ "" ∧ content.loraName ∉ loras then .loraMissing
  else
    match env.outcome.limited (content.inputIds.length - env.filledLen) content.maxLength with
    | .refused _ => .refused
    | .halted _ _ => .halted
    | .failure _ => .failed
    | .exception _ =>
        if (env.stops ⟨u, false⟩).occurrence = .finished then .raised else .stuck
    | .success _ _ | .unreshaped _ _ => .ran

namespace AsModel

variable {allowed : Uuid → Occurrence → Prop} {m m' : AsModel} {u v : Uuid} {id : RequestId}
  {ctx : GenerateContext} {index : Nat} {outcome : StopOutcome} {stops : RequestId → StopOutcome}

theorem not_pending_of_running (hnodup : m.live.Nodup) (hmem : ctx ∈ m.genCtxList)
    (hid : ctx.id = ⟨u, false⟩) : u ∉ m.pendingRequestQueue := fun h =>
  (List.nodup_append.mp hnodup).2.2 u h u (mem_runningUuids.mpr ⟨ctx, hmem, hid⟩) rfl

@[simp] theorem modifyRequest_own (m : AsModel) (u : Uuid) (f : Request → Request) :
    (m.modifyRequest u f).requests u = f (m.requests u) := Function.update_self ..

theorem modifyRequest_other (m : AsModel) (f : Request → Request) (h : v ≠ u) :
    (m.modifyRequest u f).requests v = m.requests v := Function.update_of_ne h _ _

@[simp] theorem stopPendingRequest_own (m : AsModel) (u : Uuid) :
    (m.stopPendingRequest u).requests u =
      { m.requests u with status := .generateFinished, concluded := true } :=
  Function.update_self ..

/-- A change of one request that stays where it is. -/
theorem refines_modifyRequest (hnodup : m.live.Nodup) {f : Request → Request}
    (hown : Path (allowed u) ⟨m.requests u, m.place u⟩ ⟨f (m.requests u), m.place u⟩) :
    Refines allowed m (m.modifyRequest u f) := by
  refine Refines.single (u := u) hnodup hnodup (fun _ => id) rfl ?_ ?_
  · intro v hv
    exact ⟨modifyRequest_other m f hv, Iff.rfl, fun _ _ => Iff.rfl⟩
  · rw [standing, standing, modifyRequest_own]
    exact hown

theorem refines_stopPendingRequest (hnodup : m.live.Nodup) (hmem : u ∈ m.pendingRequestQueue)
    (hown : allowed u (.dropped ((m.requests u).inputLen < (m.requests u).outputs.length))) :
    Refines allowed m (m.stopPendingRequest u) := by
  have hsub : (m.stopPendingRequest u).live.Sublist m.live :=
    List.filter_sublist.append (List.Sublist.refl _)
  have hnotRunning : u ∉ runningUuids m.genCtxList := fun h =>
    (List.nodup_append.mp hnodup).2.2 u hmem u h rfl
  have hgone : u ∉ (m.stopPendingRequest u).live := by
    rw [live, List.mem_append, not_or]
    exact ⟨fun h => by simpa using (List.mem_filter.mp h).2, hnotRunning⟩
  refine Refines.single (u := u) hnodup (hnodup.sublist hsub) (fun v hv => hsub.subset hv) rfl ?_ ?_
  · intro v hv
    refine ⟨Function.update_of_ne hv _ _, ?_, fun _ _ => Iff.rfl⟩
    rw [stopPendingRequest, List.mem_filter]
    exact and_iff_left (by simpa using hv)
  · rw [standing, standing, place_of_pending hmem, place_of_not_live hgone,
      stopPendingRequest_own]
    exact .single hown (.dropped _)

/-- A context and the others make up the list. -/
theorem runningUuids_swapRemove (hget : m.genCtxList[index]? = some ctx) :
    ((if ctx.id.chunk then [] else [ctx.id.uuid]) ++
      runningUuids (swapRemove m.genCtxList index)).Perm (runningUuids m.genCtxList) := by
  rw [← runningUuids_cons]
  exact (swapRemove_perm hget).filterMap _

theorem refines_finishRequest (hnodup : m.live.Nodup) (hget : m.genCtxList[index]? = some ctx)
    (hown : ctx.id.chunk = false → allowed ctx.id.uuid .finished) :
    Refines allowed m (m.finishRequest index ctx.id) := by
  have hperm := swapRemove_perm hget
  have huuids := runningUuids_swapRemove hget
  have hmemCtx : ctx ∈ m.genCtxList := hperm.subset (List.mem_cons_self ..)
  obtain ⟨⟨uuid, chunk⟩, step, maxLength, finish⟩ := ctx
  cases chunk with
  | true =>
      have hrunning : (runningUuids (swapRemove m.genCtxList index)).Perm
          (runningUuids m.genCtxList) := by simpa using huuids
      have hlive : (m.finishRequest index ⟨uuid, true⟩).live.Perm m.live :=
        hrunning.append_left m.pendingRequestQueue
      refine Refines.single (u := uuid) hnodup (hlive.nodup_iff.mpr hnodup)
        (fun v hv => hlive.subset hv) rfl ?_ ?_
      · intro v _
        refine ⟨rfl, Iff.rfl, fun ctx hid => ?_⟩
        rw [← hperm.mem_iff, List.mem_cons]
        exact (or_iff_right fun h => by simp [h] at hid).symm
      · have hplace : (m.finishRequest index ⟨uuid, true⟩).place uuid = m.place uuid := by
          refine place_congr hnodup (hlive.nodup_iff.mpr hnodup) Iff.rfl fun ctx hid => ?_
          rw [← hperm.mem_iff, List.mem_cons]
          exact (or_iff_right fun h => by simp [h] at hid).symm
        rw [standing, standing, hplace]
        exact .refl
  | false =>
      have hpending := not_pending_of_running hnodup hmemCtx rfl
      have hrunning : (uuid :: runningUuids (swapRemove m.genCtxList index)).Perm
          (runningUuids m.genCtxList) := by simpa using huuids
      have hlive : (uuid :: (m.finishRequest index ⟨uuid, false⟩).live).Perm m.live :=
        List.perm_middle.symm.trans (hrunning.append_left m.pendingRequestQueue)
      have hnodup' := List.nodup_cons.mp (hlive.nodup_iff.mpr hnodup)
      refine Refines.single (u := uuid) hnodup hnodup'.2
        (fun v hv => hlive.subset (List.mem_cons_of_mem _ hv)) rfl ?_ ?_
      · intro v hv
        refine ⟨Function.update_of_ne hv _ _, Iff.rfl, fun ctx hid => ?_⟩
        rw [← hperm.mem_iff, List.mem_cons]
        refine (or_iff_right fun h => ?_).symm
        rw [h] at hid
        exact hv (congrArg RequestId.uuid hid).symm
      · rw [standing, standing, place_of_not_live hnodup'.1,
          place_of_running hnodup hmemCtx rfl]
        refine .single (hown rfl) ?_
        have hreq : (m.finishRequest index ⟨uuid, false⟩).requests uuid =
            { m.requests uuid with
              finish := true, status := .generateFinished, concluded := true } :=
          Function.update_self ..
        rw [hreq]
        exact .finished _ _

theorem refines_conclude (hnodup : m.live.Nodup) (hmem : ctx ∈ m.genCtxList)
    (hown : ctx.id.chunk = false → allowed ctx.id.uuid .stopFailed) :
    Refines allowed m (m.conclude ctx.id) := by
  obtain ⟨⟨uuid, chunk⟩, step, maxLength, finish⟩ := ctx
  cases chunk with
  | true => exact Refines.refl hnodup
  | false =>
      have hplace := place_of_running hnodup hmem rfl
      exact refines_modifyRequest (u := uuid) (f := fun r => { r with concluded := true }) hnodup
        (hplace ▸ .single (hown rfl) (.stopFailed _ _))

/-- What `StopRequest` can do. -/
theorem stopRequest_cases (m : AsModel) (outcome : StopOutcome) (id : RequestId) :
    (id.chunk = false ∧ id.uuid ∈ m.pendingRequestQueue ∧
      m.stopRequest outcome id = (m.stopPendingRequest id.uuid, some .success)) ∨
    (¬ (id.chunk = false ∧ id.uuid ∈ m.pendingRequestQueue) ∧
      (∀ ctx ∈ m.genCtxList, ctx.id ≠ id) ∧ m.stopRequest outcome id = (m, some .success)) ∨
    ∃ index ctx, m.genCtxList[index]? = some ctx ∧ ctx.id = id ∧
      lastIdx? (fun ctx => ctx.id = id) m.genCtxList = some index ∧
      ((outcome.occurrence = .stopFailed ∧ (m.stopRequest outcome id).1 = m.conclude id ∧
          (m.stopRequest outcome id).2 ≠ some .success) ∨
        (outcome.occurrence = .finished ∧
          (m.stopRequest outcome id).1 = { m.finishRequest index id with
            currentUnfinishedRequest := m.currentUnfinishedRequest - 1 } ∧
          ((m.stopRequest outcome id).2 = some .success ↔ outcome = .done) ∧
          (m.stopRequest outcome id).2 ≠ none)) := by
  rw [stopRequest]
  by_cases hpending : id.chunk = false ∧ id.uuid ∈ m.pendingRequestQueue
  · left
    exact ⟨hpending.1, hpending.2, if_pos hpending⟩
  · right
    rw [if_neg hpending]
    cases hidx : lastIdx? (fun ctx => decide (ctx.id = id)) m.genCtxList with
    | none =>
        left
        refine ⟨hpending, fun ctx hmem hid => ?_, rfl⟩
        have hfalse := lastIdx?_eq_none.mp hidx ctx hmem
        simp [hid] at hfalse
    | some index =>
        right
        obtain ⟨ctx, hget, hid⟩ := lastIdx?_spec hidx
        refine ⟨index, ctx, hget, by simpa using hid, rfl, ?_⟩
        have hunfinished : (m.finishRequest index id).currentUnfinishedRequest =
            m.currentUnfinishedRequest := by
          rw [finishRequest, modifyOwn]
          split <;> rfl
        cases outcome with
        | refused => exact Or.inl ⟨rfl, rfl, by simp⟩
        | threw => exact Or.inl ⟨rfl, rfl, by simp⟩
        | late => exact Or.inr ⟨rfl, by simp [hunfinished], by simp, by simp⟩
        | done => exact Or.inr ⟨rfl, by simp [hunfinished], by simp, by simp⟩

theorem refines_stopRequest (hnodup : m.live.Nodup)
    (hdropped : id.chunk = false → id.uuid ∈ m.pendingRequestQueue →
      allowed id.uuid
        (.dropped ((m.requests id.uuid).inputLen < (m.requests id.uuid).outputs.length)))
    (hstop : id.chunk = false → allowed id.uuid outcome.occurrence) :
    Refines allowed m (m.stopRequest outcome id).1 := by
  rcases stopRequest_cases m outcome id with ⟨hchunk, hmem, heq⟩ | ⟨_, _, heq⟩ |
    ⟨index, ctx, hget, rfl, _, ⟨hocc, heq, _⟩ | ⟨hocc, heq, _⟩⟩
  · rw [heq]
    exact refines_stopPendingRequest hnodup hmem (hdropped hchunk hmem)
  · rw [heq]
    exact Refines.refl hnodup
  · rw [heq]
    exact refines_conclude hnodup (List.mem_of_getElem? hget) fun h => hocc ▸ hstop h
  · rw [heq]
    exact (refines_finishRequest hnodup hget fun h => hocc ▸ hstop h).congr rfl rfl fun _ => rfl

/-- The finished contexts are stopped one by one. -/
theorem refines_stopFinished (hstop : ∀ u, allowed u (stops ⟨u, false⟩).occurrence) (i : Nat)
    (m : AsModel) (hnodup : m.live.Nodup) : Refines allowed m (m.stopFinished stops i).1 := by
  induction i generalizing m with
  | zero => exact Refines.refl hnodup
  | succ i ih =>
      rw [stopFinished]
      cases hget : m.genCtxList[i]? with
      | none => exact ih m hnodup
      | some ctx =>
          dsimp only
          have hone : Refines allowed m (m.stopRequest (stops ctx.id) ctx.id).1 := by
            obtain ⟨⟨uuid, chunk⟩, step, maxLength, finish⟩ := ctx
            refine refines_stopRequest hnodup ?_ ?_
            · rintro rfl hpending
              exact absurd hpending
                (not_pending_of_running hnodup (List.mem_of_getElem? hget) rfl)
            · rintro rfl
              exact hstop uuid
          split
          · split
            · rename_i m₁ heq
              rw [heq] at hone
              exact hone.trans (ih m₁ hone.nodup)
            · exact hone
          · exact ih m hnodup

end AsModel

end DashInfer.Serving
