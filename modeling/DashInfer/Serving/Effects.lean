import DashInfer.Serving.Run
import DashInfer.Serving.Steps

/-!
What one step of the engine does to the requests and to their handles and
queues. Each step moves the requests along their lives, registers a request,
releases one, delivers the result of one, or interrupts the queue of a victim.
-/

namespace DashInfer.Serving

open Lib

namespace AsModel

/-- What a stop of the request with this id is for it. -/
inductive StopCauses (outcome : StopOutcome) (m : AsModel) (u : Uuid) : Occurrence → Prop
  | pending : u ∈ m.pendingRequestQueue →
      StopCauses outcome m u
        (.dropped ((m.requests u).inputLen < (m.requests u).outputs.length))
  | running {ctx : GenerateContext} : ctx ∈ m.genCtxList → ctx.id = ⟨u, false⟩ →
      StopCauses outcome m u outcome.occurrence

theorem refines_stopById {allowed : Uuid → Occurrence → Prop} {m : AsModel} {u : Uuid}
    {outcome : StopOutcome} (hnodup : m.live.Nodup)
    (hallowed : ∀ o, StopCauses outcome m u o → allowed u o) :
    Refines allowed m (m.stopRequest outcome ⟨u, false⟩).1 := by
  rcases stopRequest_cases m outcome ⟨u, false⟩ with ⟨_, hmem, heq⟩ | ⟨_, _, heq⟩ |
    ⟨index, ctx, hget, hid, _, _⟩
  · rw [heq]
    exact refines_stopPendingRequest hnodup hmem (hallowed _ (.pending hmem))
  · rw [heq]
    exact Refines.refl hnodup
  · have hctx := List.mem_of_getElem? hget
    apply refines_stopRequest hnodup
    · intro _ hpending
      exact absurd hpending (not_pending_of_running hnodup hctx hid)
    · exact fun _ => hallowed _ (.running hctx hid)

end AsModel

namespace Engine

/-- What an event can do to the requests. -/
inductive Causes (cfg : Config) (s : Engine) : Event → Uuid → Occurrence → Prop
  | stopped {i : Nat} {env : HandleEnv} {msg : EngineControlMessage} {u : Uuid} {o : Occurrence} :
      s.control.msgQueue[i]? = some msg →
      msg.body = .stopRequest u ∨ msg.body = .releaseRequest u →
      AsModel.StopCauses env.stop s.model u o → Causes cfg s (.dequeue i env) u o
  | context {env : ContextEnv} {other : Option AsStatus} {u : Uuid} {o : Occurrence} :
      AsModel.ContextCauses cfg s.loras env s.model u o → Causes cfg s (.context env other) u o
  | decoded {env : DecodeEnv} {u : Uuid} {o : Occurrence} :
      env.memoryOut = none ∨ env.memoryOut = some .finished →
      AsModel.DecoderCauses env.stops s.model u o → Causes cfg s (.decode env) u o
  | victim {env : DecodeEnv} {u : Uuid} {ctx : GenerateContext} : env.memoryOut ≠ none →
      chooseVictimRequest cfg.evictionStrategy env.random (s.generatingRequests env.order) =
        some u →
      ctx ∈ s.model.genCtxList → ctx.id = ⟨u, false⟩ →
      Causes cfg s (.decode env) u env.victimStop.occurrence

section Entries

variable {s t : Engine} {u v : Uuid}

theorem mem_handles : u ∈ s.control.requestHandleMap ↔ ∃ handle, s.handle? u = some handle :=
  Finmap.mem_iff

theorem mem_queues : u ∈ s.control.resultQueueMap ↔ ∃ queue, s.queue? u = some queue :=
  Finmap.mem_iff

theorem handle?_putHandle (s : Engine) (u : Uuid) (handle : RequestHandle) :
    (s.putHandle u handle).handle? = Function.update s.handle? u (some handle) := by
  funext v
  rcases eq_or_ne v u with rfl | hne
  · rw [Function.update_self]
    exact Finmap.lookup_insert _
  · rw [Function.update_of_ne hne]
    exact Finmap.lookup_insert_of_ne _ hne

theorem queue?_putQueue (s : Engine) (u : Uuid) (queue : ResultQueue) :
    (s.putQueue u queue).queue? = Function.update s.queue? u (some queue) := by
  funext v
  rcases eq_or_ne v u with rfl | hne
  · rw [Function.update_self]
    exact Finmap.lookup_insert _
  · rw [Function.update_of_ne hne]
    exact Finmap.lookup_insert_of_ne _ hne

@[simp] theorem handle?_putQueue (s : Engine) (u : Uuid) (queue : ResultQueue) :
    (s.putQueue u queue).handle? = s.handle? := rfl

@[simp] theorem queue?_putHandle (s : Engine) (u : Uuid) (handle : RequestHandle) :
    (s.putHandle u handle).queue? = s.queue? := rfl

/-- What `UpdateResult` leaves as it is. -/
theorem updateEntry_frame (s : Engine) (u : Uuid) :
    ∃ handles queues usage sync, s.updateEntry u =
      { s with
        control.requestHandleMap := handles
        control.resultQueueMap := queues
        usage := usage
        loop.syncPendingSet := sync } := by
  have hsync : ∀ s : Engine, ∃ sync, s.updateSyncStatus u =
      { s with loop.syncPendingSet := sync } := by
    intro s
    rw [updateSyncStatus]
    split
    · exact ⟨_, rfl⟩
    · exact ⟨_, rfl⟩
  have hclose : ∀ (s : Engine) request queue, ∃ queues sync, s.closeQueue u request queue =
      { s with control.resultQueueMap := queues, loop.syncPendingSet := sync } := by
    intro s request queue
    rw [closeQueue]
    split
    · obtain ⟨sync, heq⟩ := hsync (s.putQueue u queue)
      exact ⟨_, sync, heq⟩
    · split
      · obtain ⟨sync, heq⟩ := hsync (s.putQueue u { queue with status := .generateFinished })
        exact ⟨_, sync, heq⟩
      · exact ⟨_, _, rfl⟩
  have hrelease : ∀ (s : Engine) request, ∃ usage, s.releaseLora request =
      { s with usage := usage } := by
    intro s request
    rw [releaseLora]
    split
    · exact ⟨_, rfl⟩
    · exact ⟨_, rfl⟩
  rw [updateEntry]
  split
  · rename_i handle queue _ _
    split
    · obtain ⟨sync, heq⟩ := hsync s
      exact ⟨_, _, _, sync, heq⟩
    · split
      · exact ⟨_, _, _, _, rfl⟩
      · rename_i request _
        split
        · exact ⟨_, _, _, _, rfl⟩
        · split
          · obtain ⟨sync, heq⟩ := hsync (s.putQueue u { queue with status := .generateInterrupted })
            exact ⟨_, _, _, sync, heq⟩
          · obtain ⟨queues, sync, heq⟩ := hclose (s.putHandle u (deliver request handle queue).1)
              request (deliver request handle queue).2
            obtain ⟨usage, heq'⟩ := hrelease
              ((s.putHandle u (deliver request handle queue).1).closeQueue u request
                (deliver request handle queue).2) request
            dsimp only
            rw [heq', heq]
            exact ⟨_, queues, usage, sync, rfl⟩
  · exact ⟨_, _, _, _, rfl⟩

theorem updateSyncStatus_spec (s : Engine) (u : Uuid) :
    (s.updateSyncStatus u).handle? = s.handle? ∧ (s.updateSyncStatus u).queue? = s.queue? ∧
      (s.updateSyncStatus u).loop.syncPendingSet =
        bif s.loop.synchronizing then s.loop.syncPendingSet.erase u
        else s.loop.syncPendingSet := by
  rw [updateSyncStatus]
  cases s.loop.synchronizing with
  | true => exact ⟨rfl, rfl, rfl⟩
  | false => exact ⟨rfl, rfl, rfl⟩

/-- The queue of a request that is delivered, and whether the request ended. -/
def closed (request : Request) (queue : ResultQueue) : ResultQueue × Bool :=
  if queue.status = .generateInterrupted then (queue, true)
  else if request.finish then ({ queue with status := .generateFinished }, true)
  else (queue, false)

theorem closeQueue_spec (s : Engine) (u : Uuid) (request : Request) (queue : ResultQueue) :
    (s.closeQueue u request queue).handle? = s.handle? ∧
      (s.closeQueue u request queue).queue? =
        Function.update s.queue? u (some (closed request queue).1) ∧
      (s.closeQueue u request queue).loop.syncPendingSet =
        bif (closed request queue).2 && s.loop.synchronizing then s.loop.syncPendingSet.erase u
        else s.loop.syncPendingSet := by
  rw [closeQueue, closed]
  split
  · obtain ⟨hhandle, hqueue, hsync⟩ := updateSyncStatus_spec (s.putQueue u queue) u
    rw [hhandle, hqueue, hsync, queue?_putQueue]
    exact ⟨rfl, rfl, rfl⟩
  · split
    · obtain ⟨hhandle, hqueue, hsync⟩ :=
        updateSyncStatus_spec (s.putQueue u { queue with status := .generateFinished }) u
      rw [hhandle, hqueue, hsync, queue?_putQueue]
      exact ⟨rfl, rfl, rfl⟩
    · exact ⟨rfl, queue?_putQueue .., rfl⟩

theorem releaseLora_spec (s : Engine) (request : Request) :
    (s.releaseLora request).handle? = s.handle? ∧ (s.releaseLora request).queue? = s.queue? ∧
      (s.releaseLora request).loop = s.loop := by
  rw [releaseLora]
  split
  · exact ⟨rfl, rfl, rfl⟩
  · exact ⟨rfl, rfl, rfl⟩

/-- The handle, the queue and the synchronisation of a request after
`UpdateResult`. -/
def updated (request : Request) (handle : RequestHandle) (queue : ResultQueue) :
    RequestHandle × ResultQueue × Bool :=
  if queue.status.terminal then (handle, queue, true)
  else if request.status = .init then (handle, queue, false)
  else if request.status = .generateInterrupted then
    (handle, { queue with status := .generateInterrupted }, true)
  else ((deliver request handle queue).1, closed request (deliver request handle queue).2)

/-- `UpdateResult` for a registered request. -/
theorem updateEntry_spec {handle : RequestHandle} {queue : ResultQueue}
    (hhandle : s.handle? u = some handle) (hqueue : s.queue? u = some queue)
    (hknown : u ∈ s.model.allRequestMap) :
    (s.updateEntry u).handle? = Function.update s.handle? u
        (some (updated (s.model.requests u) handle queue).1) ∧
      (s.updateEntry u).queue? = Function.update s.queue? u
        (some (updated (s.model.requests u) handle queue).2.1) ∧
      (s.updateEntry u).loop.syncPendingSet =
        bif (updated (s.model.requests u) handle queue).2.2 && s.loop.synchronizing then
          s.loop.syncPendingSet.erase u
        else s.loop.syncPendingSet := by
  have hsameHandle : Function.update s.handle? u (some handle) = s.handle? := by
    rw [← hhandle, Function.update_eq_self]
  have hsameQueue : Function.update s.queue? u (some queue) = s.queue? := by
    rw [← hqueue, Function.update_eq_self]
  have hget : s.model.getRequestById u = some (s.model.requests u) := if_pos hknown
  rw [updateEntry, hhandle, hqueue, updated]
  dsimp only
  split
  · obtain ⟨h1, h2, h3⟩ := updateSyncStatus_spec s u
    rw [h1, h2, h3, hsameHandle, hsameQueue]
    exact ⟨rfl, rfl, rfl⟩
  · rw [hget]
    dsimp only
    split
    · rw [hsameHandle, hsameQueue]
      exact ⟨rfl, rfl, rfl⟩
    · split
      · obtain ⟨h1, h2, h3⟩ :=
          updateSyncStatus_spec (s.putQueue u { queue with status := .generateInterrupted }) u
        rw [h1, h2, h3, hsameHandle, queue?_putQueue]
        exact ⟨rfl, rfl, rfl⟩
      · obtain ⟨h1, h2, h3⟩ := releaseLora_spec
          ((s.putHandle u (deliver (s.model.requests u) handle queue).1).closeQueue u
            (s.model.requests u) (deliver (s.model.requests u) handle queue).2) (s.model.requests u)
        obtain ⟨h4, h5, h6⟩ := closeQueue_spec
          (s.putHandle u (deliver (s.model.requests u) handle queue).1) u
          (s.model.requests u) (deliver (s.model.requests u) handle queue).2
        rw [h1, h2, h3, h4, h5, h6, handle?_putHandle]
        exact ⟨rfl, rfl, rfl⟩

end Entries

/-- The requests whose start is under way, with their contents. -/
def startContent? (msg : EngineControlMessage) : Option (Uuid × RequestContent) :=
  match msg.body with
  | .startRequest u content => some (u, content)
  | _ => none

def lockedContent : Option LockHolder → List (Uuid × RequestContent)
  | some (.starting u content _ _) => [(u, content)]
  | _ => []

def startingContents (s : Engine) : List (Uuid × RequestContent) :=
  s.control.msgQueue.filterMap startContent? ++ lockedContent s.clients.loraLock

/-- The request that a message starts. -/
def startUuid? (msg : EngineControlMessage) : Option Uuid :=
  match msg.body with
  | .startRequest u _ => some u
  | _ => none

/-- The request whose start holds the lock. -/
def lockedUuid : Option LockHolder → List Uuid
  | some (.starting u _ _ _) => [u]
  | _ => []

/-- The requests whose start is under way. -/
def starting (s : Engine) : List Uuid :=
  s.control.msgQueue.filterMap startUuid? ++ lockedUuid s.clients.loraLock

/-- The entries of a request that waits. -/
structure Untouched (s : Engine) (u : Uuid) (handle : RequestHandle) : Prop where
  generateLength : handle.generateLength = 0
  continueCount : handle.continueCount = 0
  queue : s.queue? u = some ⟨.init, []⟩

/-- The entries of the requests, and where the requests stand. -/
structure EntriesSound (s : Engine) : Prop where
  nodup : s.model.live.Nodup
  handles : ∀ u, (∃ handle, s.handle? u = some handle) ↔ u ∈ s.model.allRequestMap
  queues : ∀ u, (∃ queue, s.queue? u = some queue) ↔ u ∈ s.model.allRequestMap
  fresh : ∀ u, (s.model.standing u).Fresh
  contextLength : ∀ u handle, s.handle? u = some handle →
    handle.contextLength = (s.model.requests u).inputLen
  waiting : ∀ u handle, s.handle? u = some handle → u ∈ s.model.pendingRequestQueue →
    s.Untouched u handle

/-- What every state of the engine keeps about its requests: they have their
entries, wait or run at most once, and are started at most once. -/
structure Sound (s : Engine) : Prop extends s.EntriesSound where
  starts : s.starting.Nodup
  unstarted : ∀ u ∈ s.starting, u ∉ s.model.allRequestMap ∧ u ∉ s.model.live
  issued : ∀ u, u ∈ s.model.allRequestMap ∨ u ∈ s.model.live ∨ u ∈ s.starting →
    u < s.clients.nextUuid

/-- What a step of the engine does to the requests and their entries. -/
inductive Effect (allowed : Uuid → Occurrence → Prop) (s : Engine) : Engine → Prop
  | moved {t : Engine} : Refines allowed s.model t.model →
      t.handle? = s.handle? → t.queue? = s.queue? → Effect allowed s t
  | interrupted {t : Engine} (u : Uuid) (queue : ResultQueue) :
      Refines allowed s.model t.model → t.handle? = s.handle? →
      s.queue? u = some queue → queue.status = .generating →
      t.queue? = Function.update s.queue? u
        (some { queue with status := .generateInterrupted }) → Effect allowed s t
  | started {t : Engine} (cfg : Config) (u : Uuid) (content : RequestContent)
      (memory : Nat → Int) : u ∈ s.starting → u ∉ t.starting →
      t.model = s.model.startRequestImpl cfg u content memory →
      t.handle? = Function.update s.handle? u (some ⟨content.inputIds.length, 0, 0⟩) →
      t.queue? = Function.update s.queue? u (some ⟨.init, []⟩) →
      (u, content) ∈ s.startingContents → Effect allowed s t
  | released {t : Engine} (u : Uuid) (m : AsModel) : Refines allowed s.model m →
      t.model = m.releaseRequest u → t.handle? = Function.update s.handle? u none →
      t.queue? = Function.update s.queue? u none → u ∉ m.pendingRequestQueue → Effect allowed s t
  | delivered {t : Engine} (u : Uuid) (handle : RequestHandle) (queue : ResultQueue) :
      t.model = s.model → s.handle? u = some handle → s.queue? u = some queue →
      t.handle? = Function.update s.handle? u
        (some (updated (s.model.requests u) handle queue).1) →
      t.queue? = Function.update s.queue? u
        (some (updated (s.model.requests u) handle queue).2.1) → Effect allowed s t

section Events

variable {cfg : Config} {s t : Engine} {allowed : Uuid → Occurrence → Prop}

theorem Sound.effect_same (h : s.Sound) (hmodel : t.model = s.model)
    (hcontrol : t.control.requestHandleMap = s.control.requestHandleMap ∧
      t.control.resultQueueMap = s.control.resultQueueMap) : Effect allowed s t :=
  .moved (by rw [hmodel]; exact Refines.refl h.nodup)
    (by funext u; rw [handle?, handle?, hcontrol.1])
    (by funext u; rw [queue?, queue?, hcontrol.2])

theorem Sound.entry (h : s.Sound) {u : Uuid} (hknown : u ∈ s.model.allRequestMap) :
    ∃ handle queue, s.handle? u = some handle ∧ s.queue? u = some queue := by
  obtain ⟨handle, hhandle⟩ := (h.handles u).mpr hknown
  obtain ⟨queue, hqueue⟩ := (h.queues u).mpr hknown
  exact ⟨handle, queue, hhandle, hqueue⟩

theorem Sound.no_entry (h : s.Sound) {u : Uuid} (hnot : u ∉ s.model.allRequestMap) :
    s.handle? u = none ∧ s.queue? u = none := by
  constructor
  · cases heq : s.handle? u with
    | none => rfl
    | some handle => exact absurd ((h.handles u).mp ⟨handle, heq⟩) hnot
  · cases heq : s.queue? u with
    | none => rfl
    | some queue => exact absurd ((h.queues u).mp ⟨queue, heq⟩) hnot

theorem Sound.effect_updateResult (h : s.Sound) {u : Uuid}
    (hnext : s.updateResult u = some t) : Effect allowed s t := by
  rw [updateResult] at hnext
  split at hnext
  · split at hnext
    · cases hnext
      obtain ⟨_, _, _, _, hframe⟩ := updateEntry_frame s u
      have hmodel : (s.updateEntry u).model = s.model := by rw [hframe]
      by_cases hknown : u ∈ s.model.allRequestMap
      · obtain ⟨handle, queue, hhandle, hqueue⟩ := h.entry hknown
        obtain ⟨hhandles, hqueues, _⟩ := updateEntry_spec hhandle hqueue hknown
        exact .delivered u handle queue hmodel hhandle hqueue hhandles hqueues
      · obtain ⟨hnone, _⟩ := h.no_entry hknown
        have hsame : s.updateEntry u = s := by rw [updateEntry, hnone]
        exact h.effect_same hmodel ⟨by rw [hsame], by rw [hsame]⟩
    · cases hnext
  · cases hnext

theorem Sound.effect_context (h : s.Sound) {env : ContextEnv} {other : Option AsStatus}
    (hnext : s.runTextGenerationContext cfg env other = some t) :
    Effect (Causes cfg s (.context env other)) s t := by
  rw [runTextGenerationContext] at hnext
  split at hnext
  · rename_i isNewContext _
    have hmoved : Refines (Causes cfg s (.context env other)) s.model
        (s.model.generateContinueContext cfg s.loras isNewContext env).1 :=
      AsModel.refines_generateContinueContext h.nodup isNewContext
        (fun v o hcause => .context hcause)
    dsimp only at hnext
    split at hnext
    · cases hnext
      exact .moved hmoved rfl rfl
    · cases hnext
      exact .moved hmoved rfl rfl
  · cases hnext

/-- The state after a message is taken out of the queue. -/
def without (i : Nat) (s : Engine) : Engine :=
  { s with control.msgQueue := s.control.msgQueue.eraseIdx i }

theorem dequeue_cases {i : Nat} {env : HandleEnv} (hnext : s.dequeue cfg i env = some t) :
    ∃ msg, s.control.msgQueue[i]? = some msg ∧ t = (s.without i).handleMessage cfg env msg := by
  rw [dequeue] at hnext
  split at hnext
  · split at hnext
    · cases hnext
    · rename_i msg hget
      split at hnext
      · exact ⟨msg, hget, (Option.some.inj hnext).symm⟩
      · cases hnext
  · cases hnext

theorem starting_without {i : Nat} {msg : EngineControlMessage}
    (hget : s.control.msgQueue[i]? = some msg) :
    ((startUuid? msg).toList ++ (s.without i).starting).Perm s.starting := by
  obtain ⟨hi, rfl⟩ := List.getElem?_eq_some_iff.mp hget
  have hperm := (List.getElem_cons_eraseIdx_perm hi).filterMap startUuid?
  rw [starting, starting, ← List.append_assoc]
  apply List.Perm.append_right
  refine List.Perm.trans ?_ hperm
  rw [List.filterMap_cons]
  cases startUuid? s.control.msgQueue[i] with
  | none => exact .refl _
  | some u => exact .refl _

theorem Sound.effect_start (h : s.Sound) {i : Nat} {env : HandleEnv} {u : Uuid}
    {content : RequestContent} {msg : EngineControlMessage} (promise : Nat)
    (hget : s.control.msgQueue[i]? = some msg) (hbody : msg.body = .startRequest u content) :
    Effect allowed s ((s.without i).handleStartRequest cfg env u content promise) := by
  have hperm := starting_without hget
  have huuid : startUuid? msg = some u := by rw [startUuid?, hbody]
  rw [huuid] at hperm
  have hmem : u ∈ s.starting := hperm.subset (List.mem_append_left _ (by simp))
  have hgone : u ∉ (s.without i).starting :=
    (List.nodup_cons.mp (hperm.nodup_iff.mpr h.starts)).1
  obtain ⟨hnotKnown, _⟩ := h.unstarted u hmem
  obtain ⟨hhandle, hqueue⟩ := h.no_entry hnotKnown
  have hhandle' : (s.without i).handle? u = none := hhandle
  have hqueue' : (s.without i).queue? u = none := hqueue
  have hemplace : (s.without i).emplace u content =
      ((s.without i).putQueue u ⟨.init, []⟩).putHandle u ⟨content.inputIds.length, 0, 0⟩ := by
    rw [emplace, hqueue']
    dsimp only
    rw [handle?_putQueue, hhandle']
  rw [handleStartRequest]
  split
  · exact h.effect_same rfl ⟨rfl, rfl⟩
  · rw [hemplace]
    have hcontent : (u, content) ∈ s.startingContents := by
      apply List.mem_append_left
      apply List.mem_filterMap.mpr
      exact ⟨msg, List.mem_of_getElem? hget, by simp [startContent?, hbody]⟩
    exact .started cfg u content env.memory hmem hgone rfl (handle?_putHandle ..)
      (queue?_putQueue ..) hcontent

theorem eraseEntries_spec {q : Engine} {u : Uuid}
    (hboth : q.handle? u = none ↔ q.queue? u = none) :
    (q.eraseEntries u).model = q.model ∧
      (q.eraseEntries u).handle? = Function.update q.handle? u none ∧
      (q.eraseEntries u).queue? = Function.update q.queue? u none := by
  rw [eraseEntries]
  split
  · rename_i hnone
    have hhandle := hboth.mpr hnone
    refine ⟨rfl, ?_, ?_⟩
    · rw [← hhandle, Function.update_eq_self]
    · rw [← hnone, Function.update_eq_self]
  · refine ⟨rfl, ?_, ?_⟩
    · funext v
      rcases eq_or_ne v u with rfl | hne
      · rw [Function.update_self]
        exact Finmap.lookup_erase _ _
      · rw [Function.update_of_ne hne]
        exact Finmap.lookup_erase_ne hne
    · funext v
      rcases eq_or_ne v u with rfl | hne
      · rw [Function.update_self]
        exact Finmap.lookup_erase _ _
      · rw [Function.update_of_ne hne]
        exact Finmap.lookup_erase_ne hne

theorem Sound.effect_release (h : s.Sound) {i : Nat} {env : HandleEnv} {u : Uuid}
    {msg : EngineControlMessage} (promise : Nat) (hget : s.control.msgQueue[i]? = some msg)
    (hbody : msg.body = .releaseRequest u) :
    Effect (Causes cfg s (.dequeue i env)) s
      ((s.without i).handleReleaseRequest env u promise) := by
  have hstop : Refines (Causes cfg s (.dequeue i env)) s.model
      (s.model.stopRequest env.stop ⟨u, false⟩).1 :=
    AsModel.refines_stopById h.nodup fun o hcause => .stopped hget (.inr hbody) hcause
  have hboth : s.handle? u = none ↔ s.queue? u = none := by
    by_cases hknown : u ∈ s.model.allRequestMap
    · obtain ⟨handle, queue, hhandle, hqueue⟩ := h.entry hknown
      rw [hhandle, hqueue]
      exact iff_of_false (by simp) (by simp)
    · obtain ⟨hhandle, hqueue⟩ := h.no_entry hknown
      exact iff_of_true hhandle hqueue
  obtain ⟨hmodel, hhandles, hqueues⟩ := eraseEntries_spec
    (q := { (s.without i).stopRequestById env.stop u |>.1 with
      model := (((s.without i).stopRequestById env.stop u).1.model.releaseRequest u) }) hboth
  have hgone : u ∉ (s.model.stopRequest env.stop ⟨u, false⟩).1.pendingRequestQueue := by
    rcases AsModel.stopRequest_cases s.model env.stop ⟨u, false⟩ with ⟨_, _, heq⟩ |
      ⟨hnot, _, heq⟩ | ⟨index, ctx, hrunning, hid, _, _⟩
    · simp [heq, AsModel.stopPendingRequest]
    · rw [heq]
      exact fun hmem => hnot ⟨rfl, hmem⟩
    · intro hmem
      exact AsModel.not_pending_of_running h.nodup (List.mem_of_getElem? hrunning) hid
        (hstop.pending hmem)
  rw [handleReleaseRequest]
  dsimp only
  split
  · exact .released u _ hstop hmodel hhandles hqueues hgone
  · exact .released u _ hstop hmodel hhandles hqueues hgone

theorem Sound.effect_dequeue (h : s.Sound) {i : Nat} {env : HandleEnv}
    (hnext : s.dequeue cfg i env = some t) : Effect (Causes cfg s (.dequeue i env)) s t := by
  obtain ⟨msg, hget, rfl⟩ := dequeue_cases hnext
  rw [handleMessage]
  split
  · exact h.effect_same rfl ⟨rfl, rfl⟩
  · rename_i u content hbody
    exact h.effect_start msg.promise hget hbody
  · rename_i u hbody
    have hstop : Refines (Causes cfg s (.dequeue i env)) s.model
        (s.model.stopRequest env.stop ⟨u, false⟩).1 :=
      AsModel.refines_stopById h.nodup fun o hcause => .stopped hget (.inl hbody) hcause
    exact .moved hstop rfl rfl
  · exact h.effect_same rfl ⟨rfl, rfl⟩
  · exact h.effect_same rfl ⟨rfl, rfl⟩
  · rename_i u hbody
    exact h.effect_release msg.promise hget hbody

theorem longest_cons (b : Uuid × Nat) (l : List (Uuid × Nat)) :
    ∃ c ∈ b :: l, longest (b :: l) = some c := by
  induction l generalizing b with
  | nil => exact ⟨b, List.mem_singleton_self b, rfl⟩
  | cons y rest ih =>
      obtain ⟨c, hmem, heq⟩ := ih (if b.2 < y.2 then y else b)
      refine ⟨c, ?_, heq⟩
      rcases List.mem_cons.mp hmem with rfl | hrest
      · split
        · simp
        · simp
      · simp [hrest]

theorem longest_mem (l : List (Uuid × Nat)) {x : Uuid × Nat} (h : longest l = some x) : x ∈ l := by
  cases l with
  | nil => cases h
  | cons b rest =>
      obtain ⟨c, hmem, heq⟩ := longest_cons b rest
      obtain rfl : c = x := Option.some.inj (heq.symm.trans h)
      exact hmem

theorem chooseVictimRequest_mem {strategy : AsEvictionStrategy} {random : Nat}
    {l : List (Uuid × Nat)} {u : Uuid} (h : chooseVictimRequest strategy random l = some u) :
    ∃ n, (u, n) ∈ l := by
  cases strategy with
  | maxLength =>
      obtain ⟨x, hx, rfl⟩ := Option.map_eq_some_iff.mp h
      exact ⟨x.2, longest_mem l hx⟩
  | random =>
      obtain ⟨x, hx, rfl⟩ := Option.map_eq_some_iff.mp h
      exact ⟨x.2, List.mem_of_getElem? hx⟩

/-- A victim has a handle, and a queue that is being generated. -/
theorem mem_generatingRequests {order : List Uuid} {u : Uuid} {n : Nat}
    (h : (u, n) ∈ s.generatingRequests order) :
    ∃ handle queue, s.handle? u = some handle ∧ s.queue? u = some queue ∧
      queue.status = .generating ∧ u ∈ order := by
  obtain ⟨v, hv, heq⟩ := List.mem_filterMap.mp h
  split at heq
  · rename_i handle queue hhandle hqueue
    split at heq
    · rename_i hstatus
      cases heq
      exact ⟨handle, queue, hhandle, hqueue, hstatus, hv⟩
    · cases heq
  · cases heq

theorem effect_handleMemoryOut (h : s.Sound) {q : Engine} {env : DecodeEnv}
    (hout : env.memoryOut ≠ none)
    (hmoved : Refines (Causes cfg s (.decode env)) s.model q.model)
    (hhandles : q.handle? = s.handle?) (hqueues : q.queue? = s.queue?) :
    Effect (Causes cfg s (.decode env)) s (q.handleMemoryOut cfg env) := by
  have hsame : q.generatingRequests env.order = s.generatingRequests env.order := by
    rw [generatingRequests, generatingRequests, hhandles, hqueues]
  rw [handleMemoryOut]
  split
  · exact .moved hmoved hhandles hqueues
  · rename_i victim hvictim
    rw [hsame] at hvictim
    obtain ⟨n, hmem⟩ := chooseVictimRequest_mem hvictim
    obtain ⟨handle, queue, hhandle, hqueue, hstatus, _⟩ := mem_generatingRequests hmem
    -- the queue of a request that waits has its first status
    have hnotPending : victim ∉ s.model.pendingRequestQueue := by
      intro hpending
      have huntouched := (h.waiting victim handle hhandle hpending).queue
      rw [hqueue] at huntouched
      cases huntouched
      cases hstatus
    have hstop : Refines (Causes cfg s (.decode env)) q.model
        (q.model.stopRequest env.victimStop ⟨victim, false⟩).1 := by
      apply AsModel.refines_stopById hmoved.nodup
      intro o hcause
      cases hcause with
      | pending hpending =>
          exact absurd (hmoved.pending hpending) hnotPending
      | running hctx hid =>
          have hlive := hmoved.live victim (List.mem_append_right _
            (mem_runningUuids.mpr ⟨_, hctx, hid⟩))
          obtain ⟨ctx, hctx', hid'⟩ := mem_runningUuids.mp
            ((List.mem_append.mp hlive).resolve_left hnotPending)
          exact .victim hout hvictim hctx' hid'
    have hqueue' : (q.stopRequestById env.victimStop victim).1.queue? victim = some queue :=
      (congrFun hqueues victim).trans hqueue
    rw [interruptQueue, hqueue']
    refine .interrupted victim queue (hmoved.trans hstop) hhandles hqueue hstatus ?_
    dsimp only
    rw [queue?_putQueue]
    exact congrArg (fun f => Function.update f victim _) hqueues

theorem Sound.effect_decode (h : s.Sound) {env : DecodeEnv}
    (hnext : s.runTextGenerationContinue cfg env = some t) :
    Effect (Causes cfg s (.decode env)) s t := by
  have hdecoder : env.memoryOut = none ∨ env.memoryOut = some .finished →
      Refines (Causes cfg s (.decode env)) s.model
        (s.model.generateContinueDecoder env.tokens env.eos env.stops).1 := fun hran =>
    AsModel.refines_generateContinueDecoder h.nodup fun v o hcause => .decoded hran hcause
  rw [runTextGenerationContinue] at hnext
  split at hnext
  · cases hnext
  · dsimp only at hnext
    split at hnext
    · rename_i hmemory
      split at hnext
      · cases hnext
        exact .moved (hdecoder (.inl hmemory)) rfl rfl
      · cases hnext
    · rename_i progress hmemory
      have hout : env.memoryOut ≠ none := by simp [hmemory]
      split at hnext
      · cases hnext
      · split at hnext
        · cases hnext
          exact effect_handleMemoryOut h hout (.refl h.nodup) rfl rfl
        · cases hnext
          exact effect_handleMemoryOut h hout
            (AsModel.refines_storeUnfinished (.refl h.nodup)) rfl rfl
        · split at hnext
          · cases hnext
            exact effect_handleMemoryOut h hout (hdecoder (.inr hmemory)) rfl rfl
          · cases hnext

/-- Everything but the requests, their entries and the starts under way. -/
structure SameRequests (s t : Engine) : Prop where
  model : t.model = s.model
  handles : t.control.requestHandleMap = s.control.requestHandleMap
  queues : t.control.resultQueueMap = s.control.resultQueueMap

theorem SameRequests.effect (hsame : SameRequests s t) (h : s.Sound) : Effect allowed s t :=
  h.effect_same hsame.model ⟨hsame.handles, hsame.queues⟩

theorem sameRequests_clients {e : Event} (hnext : s.next cfg e = some t)
    (hclient : match e with
      | .dequeue .. | .skipMessageProcess | .context .. | .updateResult .. | .endUpdate
      | .decode .. | .checkFinished => False
      | _ => True) : SameRequests s t ∧ t.loop = s.loop := by
  cases e with
  | startRequest content producer =>
      rw [next, Engine.startRequest] at hnext
      split at hnext
      · cases hnext
      · split at hnext
        · cases hnext
          exact ⟨⟨rfl, rfl, rfl⟩, rfl⟩
        · cases hnext
  | checkStopping =>
      rw [next, Engine.checkStopping] at hnext
      split at hnext
      · split at hnext
        · cases hnext
          exact ⟨⟨rfl, rfl, rfl⟩, rfl⟩
        · cases hnext
          exact ⟨⟨rfl, rfl, rfl⟩, rfl⟩
      · cases hnext
  | enqueueStart enqueued =>
      rw [next, Engine.enqueueStart] at hnext
      split at hnext
      · split at hnext
        · cases hnext
          exact ⟨⟨rfl, rfl, rfl⟩, rfl⟩
        · cases hnext
          exact ⟨⟨rfl, rfl, rfl⟩, rfl⟩
      · cases hnext
  | call request producer =>
      rw [next, Engine.call] at hnext
      split at hnext
      · cases hnext
      · cases hnext
        exact ⟨⟨rfl, rfl, rfl⟩, rfl⟩
  | returnCall =>
      rw [next, Engine.returnCall] at hnext
      split at hnext
      · split at hnext
        · cases hnext
        · cases hnext
          exact ⟨⟨rfl, rfl, rfl⟩, rfl⟩
      · cases hnext
  | stopModel =>
      rw [next, Engine.stopModel] at hnext
      split at hnext
      · cases hnext
      · cases hnext
        exact ⟨⟨rfl, rfl, rfl⟩, rfl⟩
  | flagStop i =>
      rw [next, Engine.flagStop] at hnext
      split at hnext
      · cases hnext
        exact ⟨⟨rfl, rfl, rfl⟩, rfl⟩
      · cases hnext
  | enqueueStop i producer enqueued =>
      rw [next, Engine.enqueueStop] at hnext
      split at hnext
      · split at hnext
        · cases hnext
          exact ⟨⟨rfl, rfl, rfl⟩, rfl⟩
        · cases hnext
          exact ⟨⟨rfl, rfl, rfl⟩, rfl⟩
      · cases hnext
  | returnStop i =>
      rw [next, Engine.returnStop] at hnext
      split at hnext
      · split at hnext
        · cases hnext
        · split at hnext
          · cases hnext
          · cases hnext
            exact ⟨⟨rfl, rfl, rfl⟩, rfl⟩
      · cases hnext
  | loadLora name loaded =>
      rw [next] at hnext
      split at hnext
      · cases hnext
        rw [loadLoraByName]
        repeat' split
        all_goals exact ⟨⟨rfl, rfl, rfl⟩, rfl⟩
      · cases hnext
  | unloadLora name =>
      rw [next] at hnext
      split at hnext
      · cases hnext
        rw [unloadLoraByName]
        repeat' split
        all_goals exact ⟨⟨rfl, rfl, rfl⟩, rfl⟩
      · cases hnext
  | _ => exact hclient.elim

theorem sameRequests_finishSync (s : Engine) : SameRequests s s.finishSync := by
  rw [finishSync]
  split
  · dsimp only
    split
    · exact ⟨rfl, rfl, rfl⟩
    · exact ⟨rfl, rfl, rfl⟩
  · exact ⟨rfl, rfl, rfl⟩

theorem sameRequests_answer (s : Engine) (status : AsStatus) :
    SameRequests s (s.answerGracefulStop status) := by
  rw [answerGracefulStop]
  dsimp only
  split
  · exact ⟨rfl, rfl, rfl⟩
  · exact ⟨rfl, rfl, rfl⟩

theorem sameRequests_finishLoop (s : Engine) : SameRequests s s.finishLoop := by
  rw [finishLoop]
  split
  · split
    · obtain ⟨h1, h2, h3⟩ := sameRequests_answer
        { s with loop.gracefulFinalReleased := true } .success
      exact ⟨h1, h2, h3⟩
    · exact sameRequests_answer s .runtimeError
  · exact ⟨rfl, rfl, rfl⟩

theorem SameRequests.trans {q : Engine} (h : SameRequests s q) (h' : SameRequests q t) :
    SameRequests s t :=
  ⟨h'.model.trans h.model, h'.handles.trans h.handles, h'.queues.trans h.queues⟩

/-- What each event does to the requests. -/
theorem Sound.effect (h : s.Sound) {e : Event} (hnext : s.next cfg e = some t) :
    Effect (Causes cfg s e) s t := by
  cases e with
  | dequeue i env => exact h.effect_dequeue hnext
  | context env other => exact h.effect_context hnext
  | updateResult u => exact h.effect_updateResult hnext
  | decode env => exact h.effect_decode hnext
  | skipMessageProcess =>
      rw [next, Engine.skipMessageProcess] at hnext
      split at hnext
      · split at hnext
        · cases hnext
          exact h.effect_same rfl ⟨rfl, rfl⟩
        · cases hnext
          exact h.effect_same rfl ⟨rfl, rfl⟩
      · cases hnext
  | endUpdate =>
      rw [next, Engine.endUpdate] at hnext
      split at hnext
      · split at hnext
        · cases hnext
          exact h.effect_same rfl ⟨rfl, rfl⟩
        · cases hnext
      · cases hnext
  | checkFinished =>
      rw [next, Engine.checkFinished] at hnext
      split at hnext
      · cases hnext
        exact ((sameRequests_finishSync s).trans (sameRequests_finishLoop _)).effect h
      · cases hnext
  | _ => exact (sameRequests_clients hnext trivial).1.effect h

end Events

end Engine

end DashInfer.Serving
