import DashInfer.Serving.Effects

/-!
The invariant of the engine's bookkeeping: a request is started at most once,
waits or runs at most once, and has a handle and a queue exactly while it is
known to the model.
-/

namespace DashInfer.Serving

open Lib

namespace Engine

section Starts

variable {cfg : Config} {s t : Engine}

/-- The messages, the lock and the ids are as before. -/
structure SameStarts (s t : Engine) : Prop where
  messages : t.control.msgQueue = s.control.msgQueue
  lock : t.clients.loraLock = s.clients.loraLock
  ids : t.clients.nextUuid = s.clients.nextUuid

theorem SameStarts.starting (h : SameStarts s t) : t.starting = s.starting := by
  rw [Engine.starting, Engine.starting, h.messages, h.lock]

theorem SameStarts.trans {q : Engine} (h : SameStarts s q) (h' : SameStarts q t) :
    SameStarts s t :=
  ⟨h'.messages.trans h.messages, h'.lock.trans h.lock, h'.ids.trans h.ids⟩

theorem sameStarts_handleMessage (s : Engine) (env : HandleEnv) (msg : EngineControlMessage) :
    SameStarts s (s.handleMessage cfg env msg) := by
  rw [handleMessage]
  split
  · exact ⟨rfl, rfl, rfl⟩
  · rw [handleStartRequest]
    split
    · exact ⟨rfl, rfl, rfl⟩
    · rw [emplace]
      dsimp only
      split
      · split
        · exact ⟨rfl, rfl, rfl⟩
        · exact ⟨rfl, rfl, rfl⟩
      · split
        · exact ⟨rfl, rfl, rfl⟩
        · exact ⟨rfl, rfl, rfl⟩
  · exact ⟨rfl, rfl, rfl⟩
  · exact ⟨rfl, rfl, rfl⟩
  · exact ⟨rfl, rfl, rfl⟩
  · rename_i u _
    have herase : ∀ q : Engine, SameStarts q (q.eraseEntries u) := by
      intro q
      rw [eraseEntries]
      split
      · exact ⟨rfl, rfl, rfl⟩
      · exact ⟨rfl, rfl, rfl⟩
    have herased := herase { (s.stopRequestById env.stop u).1 with
      model := (s.stopRequestById env.stop u).1.model.releaseRequest u }
    rw [handleReleaseRequest]
    dsimp only
    split
    · exact ⟨herased.messages, herased.lock, herased.ids⟩
    · exact ⟨herased.messages, herased.lock, herased.ids⟩

theorem sameStarts_finishSync (s : Engine) : SameStarts s s.finishSync := by
  rw [finishSync]
  split
  · dsimp only
    split
    · exact ⟨rfl, rfl, rfl⟩
    · exact ⟨rfl, rfl, rfl⟩
  · exact ⟨rfl, rfl, rfl⟩

theorem sameStarts_finishLoop (s : Engine) : SameStarts s s.finishLoop := by
  have hanswer : ∀ (q : Engine) status, SameStarts q (q.answerGracefulStop status) := by
    intro q status
    rw [answerGracefulStop]
    dsimp only
    split
    · exact ⟨rfl, rfl, rfl⟩
    · exact ⟨rfl, rfl, rfl⟩
  rw [finishLoop]
  split
  · split
    · obtain ⟨h1, h2, h3⟩ := hanswer { s with loop.gracefulFinalReleased := true } .success
      exact ⟨h1, h2, h3⟩
    · exact hanswer s _
  · exact ⟨rfl, rfl, rfl⟩

theorem sameStarts_handleMemoryOut (s : Engine) (m : AsModel) (env : DecodeEnv) :
    SameStarts s ({ s with model := m }.handleMemoryOut cfg env) := by
  rw [handleMemoryOut]
  split
  · exact ⟨rfl, rfl, rfl⟩
  · rw [interruptQueue]
    split
    · exact ⟨rfl, rfl, rfl⟩
    · exact ⟨rfl, rfl, rfl⟩

/-- The starts under way after an event: some of those before it, or one more
with a new id. -/
theorem starting_next {e : Event} (hnext : s.next cfg e = some t) :
    (t.starting.Sublist s.starting ∧ t.clients.nextUuid = s.clients.nextUuid) ∨
      (t.starting = s.starting ++ [s.clients.nextUuid] ∧
        t.clients.nextUuid = s.clients.nextUuid + 1 ∧ SameRequests s t) := by
  have hsame : SameStarts s t → (t.starting.Sublist s.starting ∧
      t.clients.nextUuid = s.clients.nextUuid) ∨ (t.starting = s.starting ++ [s.clients.nextUuid] ∧
        t.clients.nextUuid = s.clients.nextUuid + 1 ∧ SameRequests s t) := fun h =>
    .inl ⟨h.starting ▸ List.Sublist.refl _, h.ids⟩
  cases e with
  | startRequest content producer =>
      rw [next, Engine.startRequest] at hnext
      split at hnext
      · cases hnext
      · rename_i hlock
        split at hnext
        · cases hnext
          refine .inr ⟨?_, rfl, rfl, rfl, rfl⟩
          rw [starting, starting, hlock]
          exact congrArg (· ++ _) (List.append_nil _).symm
        · cases hnext
  | checkStopping =>
      rw [next, Engine.checkStopping] at hnext
      split at hnext
      · rename_i hlock
        split at hnext
        · cases hnext
          exact .inl ⟨List.Sublist.append_left (List.nil_sublist _) _, rfl⟩
        · cases hnext
          refine .inl ⟨?_, rfl⟩
          rw [starting, starting, hlock]
          exact List.Sublist.refl _
      · cases hnext
  | enqueueStart enqueued =>
      rw [next, Engine.enqueueStart] at hnext
      split at hnext
      · rename_i hlock
        split at hnext
        · cases hnext
          refine .inl ⟨?_, rfl⟩
          rw [starting, starting, hlock]
          simp [holdLock, enqueue, startUuid?, lockedUuid]
        · cases hnext
          exact .inl ⟨List.Sublist.append_left (List.nil_sublist _) _, rfl⟩
      · cases hnext
  | call request producer =>
      rw [next, Engine.call] at hnext
      split at hnext
      · cases hnext
      · rename_i hlock
        cases hnext
        refine .inl ⟨?_, rfl⟩
        rw [starting, starting, hlock]
        cases request <;>
          simp [holdLock, enqueue, startUuid?, lockedUuid, WaitingCall.body]
  | returnCall =>
      rw [next, Engine.returnCall] at hnext
      split at hnext
      · split at hnext
        · cases hnext
        · cases hnext
          exact .inl ⟨List.Sublist.append_left (List.nil_sublist _) _, rfl⟩
      · cases hnext
  | stopModel =>
      rw [next, Engine.stopModel] at hnext
      split at hnext
      · cases hnext
      · cases hnext
        exact hsame ⟨rfl, rfl, rfl⟩
  | flagStop i =>
      rw [next, Engine.flagStop] at hnext
      split at hnext
      · cases hnext
        exact hsame ⟨rfl, rfl, rfl⟩
      · cases hnext
  | enqueueStop i producer enqueued =>
      rw [next, Engine.enqueueStop] at hnext
      split at hnext
      · split at hnext
        · cases hnext
          refine .inl ⟨?_, rfl⟩
          rw [starting, starting]
          simp [setStopCall, enqueue, startUuid?]
        · cases hnext
          exact hsame ⟨rfl, rfl, rfl⟩
      · cases hnext
  | returnStop i =>
      rw [next, Engine.returnStop] at hnext
      split at hnext
      · split at hnext
        · cases hnext
        · split at hnext
          · cases hnext
          · cases hnext
            exact hsame ⟨rfl, rfl, rfl⟩
      · cases hnext
  | loadLora name loaded =>
      rw [next] at hnext
      split at hnext
      · cases hnext
        apply hsame
        rw [loadLoraByName]
        repeat' split
        all_goals exact ⟨rfl, rfl, rfl⟩
      · cases hnext
  | unloadLora name =>
      rw [next] at hnext
      split at hnext
      · cases hnext
        apply hsame
        rw [unloadLoraByName]
        repeat' split
        all_goals exact ⟨rfl, rfl, rfl⟩
      · cases hnext
  | dequeue i env =>
      obtain ⟨msg, _, rfl⟩ := dequeue_cases hnext
      have hstarts : SameStarts (s.without i) ((s.without i).handleMessage cfg env msg) :=
        sameStarts_handleMessage (s.without i) env msg
      refine .inl ⟨?_, hstarts.ids⟩
      rw [hstarts.starting]
      exact ((List.eraseIdx_sublist _ i).filterMap _).append_right _
  | skipMessageProcess =>
      rw [next, Engine.skipMessageProcess] at hnext
      split at hnext
      · split at hnext
        · cases hnext
          exact hsame ⟨rfl, rfl, rfl⟩
        · cases hnext
          exact hsame ⟨rfl, rfl, rfl⟩
      · cases hnext
  | context env other =>
      rw [next, runTextGenerationContext] at hnext
      split at hnext
      · dsimp only at hnext
        split at hnext
        · cases hnext
          exact hsame ⟨rfl, rfl, rfl⟩
        · cases hnext
          exact hsame ⟨rfl, rfl, rfl⟩
      · cases hnext
  | updateResult u =>
      rw [next, Engine.updateResult] at hnext
      split at hnext
      · split at hnext
        · cases hnext
          obtain ⟨_, _, _, _, hframe⟩ := updateEntry_frame s u
          apply hsame
          rw [hframe]
          exact ⟨rfl, rfl, rfl⟩
        · cases hnext
      · cases hnext
  | endUpdate =>
      rw [next, Engine.endUpdate] at hnext
      split at hnext
      · split at hnext
        · cases hnext
          exact hsame ⟨rfl, rfl, rfl⟩
        · cases hnext
      · cases hnext
  | decode env =>
      rw [next, runTextGenerationContinue] at hnext
      split at hnext
      · cases hnext
      · dsimp only at hnext
        split at hnext
        · split at hnext
          · cases hnext
            exact hsame ⟨rfl, rfl, rfl⟩
          · cases hnext
        · split at hnext
          · cases hnext
          · split at hnext
            · cases hnext
              exact hsame (sameStarts_handleMemoryOut s s.model env)
            · cases hnext
              exact hsame (sameStarts_handleMemoryOut s _ env)
            · split at hnext
              · cases hnext
                exact hsame (sameStarts_handleMemoryOut s _ env)
              · cases hnext
  | checkFinished =>
      rw [next, Engine.checkFinished] at hnext
      split at hnext
      · cases hnext
        exact hsame ((sameStarts_finishSync s).trans (sameStarts_finishLoop _))
      · cases hnext

end Starts

section Invariant

variable {cfg : Config} {s t : Engine} {allowed : Uuid → Occurrence → Prop} {u v : Uuid}

theorem standing_startRequestImpl {m : AsModel} (hnodup : m.live.Nodup) (hnew : u ∉ m.live)
    (content : RequestContent) (memory : Nat → Int) :
    (m.startRequestImpl cfg u content memory).live.Nodup ∧
      (m.startRequestImpl cfg u content memory).standing u =
        ⟨Request.new cfg content memory, .pending⟩ ∧
      ∀ v, v ≠ u → (m.startRequestImpl cfg u content memory).standing v = m.standing v := by
  have hlive : (m.startRequestImpl cfg u content memory).live.Perm (u :: m.live) := by
    rw [AsModel.live, AsModel.live, AsModel.startRequestImpl, List.append_assoc]
    exact List.perm_middle
  have hnodup' := hlive.nodup_iff.mpr (List.nodup_cons.mpr ⟨hnew, hnodup⟩)
  refine ⟨hnodup', ?_, fun v hne => ?_⟩
  · rw [AsModel.standing, AsModel.place_of_pending
      (List.mem_append_right _ (List.mem_singleton_self u))]
    exact congrArg (Standing.mk · _) (Function.update_self ..)
  · have hplace : (m.startRequestImpl cfg u content memory).place v = m.place v := by
      apply AsModel.place_congr hnodup hnodup'
      · rw [AsModel.startRequestImpl, List.mem_append, List.mem_singleton]
        exact or_iff_left hne
      · exact fun _ _ => Iff.rfl
    rw [AsModel.standing, AsModel.standing, hplace]
    exact congrArg (Standing.mk · _) (Function.update_of_ne hne _ _)

/-- The tokens of the output tensor that are new to a handle. -/
def newIds (request : Request) (handle : RequestHandle) : List Int :=
  (List.range (request.outputs.length - (handle.contextLength + handle.generateLength))).map
    fun i => request.outputs.data (handle.contextLength + handle.generateLength + i)

/-- The status of a queue once its request has left its initial status. -/
def openedStatus (handle : RequestHandle) (queue : ResultQueue) : GenerateRequestStatus :=
  if handle.continueCount = 0 then .generating else queue.status

theorem deliver_cases (request : Request) (handle : RequestHandle) (queue : ResultQueue) :
    (request.outputs.length ≤ handle.contextLength + handle.generateLength ∧
      deliver request handle queue =
        ({ handle with continueCount := handle.continueCount + 1 },
          ⟨openedStatus handle queue, queue.chunks⟩)) ∨
    (handle.contextLength + handle.generateLength < request.outputs.length ∧
      deliver request handle queue =
        (⟨handle.contextLength, request.outputs.length - handle.contextLength,
          handle.continueCount + 1⟩,
          ⟨openedStatus handle queue, queue.chunks ++ [newIds request handle]⟩)) := by
  have hqueue : (if handle.continueCount + 1 = 1 then { queue with status := .generating }
      else queue) = (⟨openedStatus handle queue, queue.chunks⟩ : ResultQueue) := by
    rw [openedStatus]
    by_cases hzero : handle.continueCount = 0
    · rw [if_pos (by omega), if_pos hzero]
    · rw [if_neg (by omega), if_neg hzero]
  rw [deliver, fetchGenerationResult]
  dsimp only
  rw [hqueue]
  by_cases hempty : request.outputs.length = 0
  · left
    rw [if_pos hempty]
    exact ⟨by omega, rfl⟩
  · rw [if_neg hempty]
    by_cases hnew : handle.contextLength + handle.generateLength < request.outputs.length
    · right
      rw [if_pos hnew]
      exact ⟨hnew, rfl⟩
    · left
      rw [if_neg hnew]
      exact ⟨by omega, rfl⟩

theorem updated_contextLength (request : Request) (handle : RequestHandle) (queue : ResultQueue) :
    (updated request handle queue).1.contextLength = handle.contextLength := by
  rw [updated]
  split
  · rfl
  · split
    · rfl
    · split
      · rfl
      · rcases deliver_cases request handle queue with ⟨_, heq⟩ | ⟨_, heq⟩
        · rw [heq]
        · rw [heq]

theorem updated_init {request : Request} (hinit : request.status = .init) (handle : RequestHandle)
    (queue : ResultQueue) :
    (updated request handle queue).1 = handle ∧ (updated request handle queue).2.1 = queue := by
  rw [updated]
  split
  · exact ⟨rfl, rfl⟩
  · exact ⟨rfl, rfl⟩

theorem EntriesSound.moved (h : s.EntriesSound) (hmoved : Refines allowed s.model t.model)
    (hhandles : t.handle? = s.handle?) (hqueues : ∀ u ∈ t.model.pendingRequestQueue,
      t.queue? u = s.queue? u)
    (hkeys : ∀ u, (∃ queue, t.queue? u = some queue) ↔ ∃ queue, s.queue? u = some queue) :
    t.EntriesSound where
  nodup := hmoved.nodup
  handles u := by rw [hhandles, hmoved.known, h.handles]
  queues u := by rw [hkeys, hmoved.known, h.queues]
  fresh u := (hmoved.path u).invariant (fun _ _ _ _ hmove => hmove.fresh) (h.fresh u)
  contextLength u handle hhandle := by
    rw [hhandles] at hhandle
    rw [h.contextLength u handle hhandle, Request.inputLen, Request.inputLen]
    exact congrArg (fun c : RequestContent => c.inputIds.length) (hmoved.path u).extends.content.symm
  waiting u handle hhandle hpending := by
    rw [hhandles] at hhandle
    obtain ⟨h1, h2, h3⟩ := h.waiting u handle hhandle (hmoved.pending hpending)
    exact ⟨h1, h2, (hqueues u hpending).trans h3⟩

theorem EntriesSound.effect (h : s.EntriesSound) (hunstarted : ∀ u ∈ s.starting,
    u ∉ s.model.allRequestMap ∧ u ∉ s.model.live) (heffect : Effect allowed s t) :
    t.EntriesSound := by
  cases heffect with
  | moved hmoved hhandles hqueues =>
      exact h.moved hmoved hhandles (fun u _ => by rw [hqueues]) (fun u => by rw [hqueues])
  | interrupted victim queue hmoved hhandles hqueue hstatus hqueues =>
      apply h.moved hmoved hhandles
      · intro u hpending
        rw [hqueues]
        apply Function.update_of_ne
        rintro rfl
        obtain ⟨handle, hhandle⟩ := (h.handles u).mpr ((h.queues u).mp ⟨queue, hqueue⟩)
        have huntouched := (h.waiting u handle hhandle (hmoved.pending hpending)).queue
        rw [hqueue] at huntouched
        cases huntouched
        cases hstatus
      · intro u
        rw [hqueues]
        rcases eq_or_ne u victim with rfl | hne
        · rw [Function.update_self]
          exact iff_of_true ⟨_, rfl⟩ ⟨queue, hqueue⟩
        · rw [Function.update_of_ne hne]
  | started cfg new content memory hstarting hgone hmodel hhandles hqueues =>
      obtain ⟨hnotKnown, hnotLive⟩ := hunstarted new hstarting
      obtain ⟨hnodup, hown, hothers⟩ := hmodel ▸
        standing_startRequestImpl h.nodup hnotLive content memory
      have hknown : t.model.allRequestMap = insert new s.model.allRequestMap := by
        rw [hmodel]
        rfl
      have hrequest : ∀ v, v ≠ new → t.model.requests v = s.model.requests v := fun v hne =>
        congrArg Standing.request (hothers v hne)
      have hpending : ∀ v, v ≠ new → v ∈ t.model.pendingRequestQueue →
          v ∈ s.model.pendingRequestQueue := by
        intro v hne hmem
        rw [← AsModel.place_eq_pending] at hmem ⊢
        exact (congrArg Standing.place (hothers v hne)).symm.trans hmem
      have hnew : t.model.requests new = Request.new cfg content memory :=
        congrArg Standing.request hown
      refine ⟨hnodup, fun v => ?_, fun v => ?_, fun v => ?_, fun v handle => ?_, fun v handle => ?_⟩
      all_goals rcases eq_or_ne v new with rfl | hne
      · rw [hhandles, Function.update_self, hknown]
        exact iff_of_true ⟨_, rfl⟩ (Finset.mem_insert_self _ _)
      · rw [hhandles, Function.update_of_ne hne, hknown, Finset.mem_insert, or_iff_right hne,
          h.handles]
      · rw [hqueues, Function.update_self, hknown]
        exact iff_of_true ⟨_, rfl⟩ (Finset.mem_insert_self _ _)
      · rw [hqueues, Function.update_of_ne hne, hknown, Finset.mem_insert, or_iff_right hne,
          h.queues]
      · rw [hown]
        exact fun _ => ⟨rfl, rfl, rfl, rfl⟩
      · rw [hothers v hne]
        exact h.fresh v
      · rw [hhandles, Function.update_self, hnew]
        rintro ⟨⟩
        rfl
      · rw [hhandles, Function.update_of_ne hne, hrequest v hne]
        exact h.contextLength v handle
      · rw [hhandles, Function.update_self]
        rintro ⟨⟩ _
        exact ⟨rfl, rfl, by rw [hqueues, Function.update_self]⟩
      · rw [hhandles, Function.update_of_ne hne]
        intro hhandle hmem
        obtain ⟨h1, h2, h3⟩ := h.waiting v handle hhandle (hpending v hne hmem)
        exact ⟨h1, h2, by rw [hqueues, Function.update_of_ne hne, h3]⟩
  | released gone m hmoved hmodel hhandles hqueues =>
      have hknown : t.model.allRequestMap = s.model.allRequestMap.erase gone := by
        rw [hmodel, ← hmoved.known]
        rfl
      have hlive : t.model.live = m.live := by
        rw [hmodel]
        rfl
      have hstanding : ∀ v, t.model.standing v = m.standing v := by
        rw [hmodel]
        exact fun _ => rfl
      have hcontent : ∀ v, (t.model.requests v).inputLen = (s.model.requests v).inputLen := by
        intro v
        have hcontent := (hmoved.path v).extends.content
        rw [← hstanding v] at hcontent
        exact congrArg (fun c : RequestContent => c.inputIds.length) hcontent
      refine ⟨hlive ▸ hmoved.nodup, fun v => ?_, fun v => ?_, fun v => ?_, fun v handle => ?_,
        fun v handle => ?_⟩
      · rw [hknown, Finset.mem_erase, hhandles]
        rcases eq_or_ne v gone with rfl | hne
        · simp
        · rw [Function.update_of_ne hne, and_iff_right hne, h.handles]
      · rw [hknown, Finset.mem_erase, hqueues]
        rcases eq_or_ne v gone with rfl | hne
        · simp
        · rw [Function.update_of_ne hne, and_iff_right hne, h.queues]
      · rw [hstanding v]
        exact (hmoved.path v).invariant (fun _ _ _ _ hmove => hmove.fresh) (h.fresh v)
      · rw [hhandles, hcontent v]
        rcases eq_or_ne v gone with rfl | hne
        · simp
        · rw [Function.update_of_ne hne]
          exact h.contextLength v handle
      · rw [hhandles]
        rcases eq_or_ne v gone with rfl | hne
        · simp
        · rw [Function.update_of_ne hne]
          intro hhandle hpending
          rw [hmodel] at hpending
          obtain ⟨h1, h2, h3⟩ := h.waiting v handle hhandle (hmoved.pending hpending)
          exact ⟨h1, h2, by rw [hqueues, Function.update_of_ne hne, h3]⟩
  | delivered u handle queue hmodel hhandle hqueue hhandles hqueues =>
      refine ⟨hmodel ▸ h.nodup, fun v => ?_, fun v => ?_, fun v => ?_, fun v handle' => ?_,
        fun v handle' => ?_⟩
      · rw [hmodel, ← h.handles, hhandles]
        rcases eq_or_ne v u with rfl | hne
        · rw [Function.update_self]
          exact iff_of_true ⟨_, rfl⟩ ⟨handle, hhandle⟩
        · rw [Function.update_of_ne hne]
      · rw [hmodel, ← h.queues, hqueues]
        rcases eq_or_ne v u with rfl | hne
        · rw [Function.update_self]
          exact iff_of_true ⟨_, rfl⟩ ⟨queue, hqueue⟩
        · rw [Function.update_of_ne hne]
      · rw [hmodel]
        exact h.fresh v
      · rw [hmodel, hhandles]
        rcases eq_or_ne v u with rfl | hne
        · rw [Function.update_self, Option.some_inj]
          rintro rfl
          rw [updated_contextLength]
          exact h.contextLength v handle hhandle
        · rw [Function.update_of_ne hne]
          exact h.contextLength v handle'
      · rw [hmodel, hhandles]
        intro hhandle' hpending
        rcases eq_or_ne v u with rfl | hne
        · -- a request that waits is left as it is
          obtain ⟨h1, h2, h3⟩ := h.waiting v handle hhandle hpending
          have hinit := (h.fresh v (AsModel.place_of_pending hpending)).status
          obtain ⟨hsame, hsame'⟩ := updated_init hinit handle queue
          have heq : updated (s.model.requests v) handle queue =
              updated (s.model.standing v).request handle queue := rfl
          rw [Function.update_self, Option.some_inj, heq, hsame] at hhandle'
          subst hhandle'
          refine ⟨h1, h2, ?_⟩
          rw [hqueues, Function.update_self, heq, hsame', ← hqueue, h3]
        · rw [Function.update_of_ne hne] at hhandle'
          obtain ⟨h1, h2, h3⟩ := h.waiting v handle' hhandle' hpending
          exact ⟨h1, h2, by rw [hqueues, Function.update_of_ne hne, h3]⟩

/-- A request that is there after a step was there before, or is started. -/
theorem Effect.arrivals (heffect : Effect allowed s t)
    (hthere : u ∈ t.model.allRequestMap ∨ u ∈ t.model.live) :
    (u ∈ s.model.allRequestMap ∨ u ∈ s.model.live) ∨ (u ∈ s.starting ∧ u ∉ t.starting) := by
  cases heffect with
  | moved hmoved _ _ => exact .inl (hthere.imp (hmoved.known ▸ ·) (hmoved.live u))
  | interrupted _ _ hmoved _ _ _ _ => exact .inl (hthere.imp (hmoved.known ▸ ·) (hmoved.live u))
  | started cfg new content memory hstarting hgone hmodel _ _ =>
      rcases eq_or_ne u new with rfl | hne
      · exact .inr ⟨hstarting, hgone⟩
      · left
        rw [hmodel] at hthere
        refine hthere.imp (fun hknown => ?_) (fun hlive => ?_)
        · exact (Finset.mem_insert.mp hknown).resolve_left hne
        · rw [AsModel.live, AsModel.startRequestImpl, List.append_assoc] at hlive
          exact (List.mem_cons.mp (List.perm_middle.subset hlive)).resolve_left hne
  | released _ m hmoved hmodel _ _ =>
      rw [hmodel] at hthere
      refine .inl (hthere.imp (fun hknown => ?_) (hmoved.live u))
      exact hmoved.known ▸ Finset.mem_of_mem_erase hknown
  | delivered _ _ _ hmodel _ _ _ _ => exact .inl (hmodel ▸ hthere)

theorem Sound.next (h : s.Sound) {e : Event} (hnext : s.next cfg e = some t) : t.Sound := by
  have heffect := h.effect hnext
  have hissued : ∀ u, u ∈ t.model.allRequestMap ∨ u ∈ t.model.live → u < s.clients.nextUuid := by
    intro u hthere
    rcases heffect.arrivals hthere with hbefore | ⟨hstarting, _⟩
    · exact h.issued u (hbefore.imp_right .inl)
    · exact h.issued u (.inr (.inr hstarting))
  refine ⟨h.toEntriesSound.effect h.unstarted heffect, ?_, ?_, ?_⟩
  all_goals rcases starting_next hnext with ⟨hsub, hids⟩ | ⟨hstarts, hids, hsame⟩
  · exact h.starts.sublist hsub
  · rw [hstarts, ← List.concat_eq_append]
    apply List.Nodup.concat _ h.starts
    exact fun hmem => absurd (h.issued _ (.inr (.inr hmem))) (Nat.lt_irrefl _)
  · intro u hu
    have hbefore := h.unstarted u (hsub.subset hu)
    rw [← not_or] at hbefore ⊢
    intro hthere
    rcases heffect.arrivals hthere with hearlier | ⟨_, hgone⟩
    · exact hbefore hearlier
    · exact hgone hu
  · intro u hu
    rw [hsame.model]
    rw [hstarts, List.mem_append, List.mem_singleton] at hu
    rcases hu with hu | rfl
    · exact h.unstarted u hu
    · exact ⟨fun hknown => absurd (h.issued _ (.inl hknown)) (Nat.lt_irrefl _),
        fun hlive => absurd (h.issued _ (.inr (.inl hlive))) (Nat.lt_irrefl _)⟩
  · intro u hu
    rw [hids]
    rcases hu with hknown | hlive | hstarting
    · exact hissued u (.inl hknown)
    · exact hissued u (.inr hlive)
    · exact h.issued u (.inr (.inr (hsub.subset hstarting)))
  · intro u hu
    rw [hids]
    rcases hu with hknown | hlive | hstarting
    · exact (hissued u (.inl hknown)).trans (Nat.lt_succ_self _)
    · exact (hissued u (.inr hlive)).trans (Nat.lt_succ_self _)
    · rw [hstarts, List.mem_append, List.mem_singleton] at hstarting
      rcases hstarting with hstarting | rfl
      · exact (h.issued u (.inr (.inr hstarting))).trans (Nat.lt_succ_self _)
      · exact Nat.lt_succ_self _

theorem sound_start (loras : Finset String) : (start loras).Sound where
  nodup := List.nodup_nil
  handles u := iff_of_false (fun ⟨_, h⟩ => by cases h) (Finset.notMem_empty u)
  queues u := iff_of_false (fun ⟨_, h⟩ => by cases h) (Finset.notMem_empty u)
  fresh u h := by cases h
  contextLength u handle h := by cases h
  waiting u handle h := by cases h
  starts := List.nodup_nil
  unstarted u h := by cases h
  issued u h := by
    rcases h with h | h | h
    · cases h
    · cases h
    · cases h

theorem Reaches.sound {loras : Finset String} {guard : Engine → Event → Prop}
    (h : Reaches cfg loras guard s) : s.Sound := by
  apply Reach.invariant (I := Sound) _ _ h
  · rintro q rfl
    exact sound_start loras
  · exact fun _ _ _ hs _ hnext => hs.next hnext

end Invariant

end Engine

end DashInfer.Serving
