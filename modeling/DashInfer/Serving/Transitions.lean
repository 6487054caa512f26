import DashInfer.Serving.Soundness

/-!
What one event does to the engine, said once: the conditions under which it
happens and the state it leads to. The invariants of the runs are proved by
cases on a transition, and never unfold the step functions again.
-/

namespace DashInfer.Serving

namespace Engine

/-- The model when memory runs out, by how far the decoder came. -/
inductive PartlyDecoded (env : DecodeEnv) (m : AsModel) : AsModel → Prop
  | notRun : PartlyDecoded env m m
  | started : PartlyDecoded env m m.storeUnfinished
  | finished : env.memoryOut = some .finished →
      PartlyDecoded env m (m.generateContinueDecoder env.tokens env.eos env.stops).1

/-- The engine moves from one state to another at an event. -/
inductive Transition (cfg : Config) (s : Engine) : Event → Engine → Prop
  | startRequest (content : RequestContent) (producer : Nat) : s.clients.loraLock = none →
      inputParamsVerify cfg content = true →
      content.loraName = "" ∨ content.loraName ∈ s.loras →
      Transition cfg s (.startRequest content producer)
        { s with
          usage := s.usage.acquire content.loraName
          clients.nextUuid := s.clients.nextUuid + 1
          clients.loraLock := some (.starting s.clients.nextUuid content producer false) }
  | startDenied (u : Uuid) (content : RequestContent) (producer : Nat) :
      s.clients.loraLock = some (.starting u content producer false) →
      s.control.modelStopping = true →
      Transition cfg s .checkStopping (s.holdLock none)
  | startPassed (u : Uuid) (content : RequestContent) (producer : Nat) :
      s.clients.loraLock = some (.starting u content producer false) →
      s.control.modelStopping = false →
      Transition cfg s .checkStopping (s.holdLock (some (.starting u content producer true)))
  | startEnqueued (u : Uuid) (content : RequestContent) (producer : Nat) :
      s.clients.loraLock = some (.starting u content producer true) →
      Transition cfg s (.enqueueStart true)
        ({ s.enqueue (.startRequest u content) producer with
          clients.accepted := insert u s.clients.accepted }.holdLock none)
  | startFailed (u : Uuid) (content : RequestContent) (producer : Nat) :
      s.clients.loraLock = some (.starting u content producer true) →
      Transition cfg s (.enqueueStart false)
        ({ s with usage := s.usage.giveBack content.loraName }.holdLock none)
  | called (request : WaitingCall) (producer : Nat) : s.clients.loraLock = none →
      Transition cfg s (.call request producer)
        ((s.enqueue request.body producer).holdLock (some (.waiting s.clients.nextPromise)))
  | callReturned (promise : Nat) : s.clients.loraLock = some (.waiting promise) →
      s.clients.promises promise ≠ [] → Transition cfg s .returnCall (s.holdLock none)
  | stopChecked : s.control.modelStopping = false →
      Transition cfg s .stopModel
        { s with clients.stopCalls := s.clients.stopCalls ++ [.checked] }
  | stopFlagged (i : Nat) : s.clients.stopCalls[i]? = some .checked →
      Transition cfg s (.flagStop i)
        ({ s with control.modelStopping := true }.setStopCall i .flagged)
  | stopEnqueued (i producer : Nat) : s.clients.stopCalls[i]? = some .flagged →
      Transition cfg s (.enqueueStop i producer true)
        ((s.enqueue .gracefulStopModel producer).setStopCall i (.waiting s.clients.nextPromise))
  | stopFailed (i producer : Nat) : s.clients.stopCalls[i]? = some .flagged →
      Transition cfg s (.enqueueStop i producer false)
        ({ s with control.modelStopping := false }.setStopCall i (.returned .runtimeError))
  | stopReturned (i promise : Nat) (status : AsStatus) :
      s.clients.stopCalls[i]? = some (.waiting promise) →
      (s.clients.promises promise).head? = some status →
      (status = .success → s.loop.phase = .ended) →
      Transition cfg s (.returnStop i) (s.setStopCall i (.returned status))
  | loraLoaded (name : String) (loaded : Bool) (loras : Finset String) :
      s.clients.loraLock = none → s.loras ⊆ loras → loras ⊆ insert name s.loras →
      Transition cfg s (.loadLora name loaded) { s with loras := loras }
  | loraUnloaded (name : String) : s.clients.loraLock = none → name ∉ s.usage.names →
      Transition cfg s (.unloadLora name) { s with loras := s.loras.erase name }
  | loraKept (name : String) : s.clients.loraLock = none → Transition cfg s (.unloadLora name) s
  | message (i : Nat) (env : HandleEnv) (msg : EngineControlMessage) :
      s.loop.phase = .messages → s.loop.synchronizing = false →
      FirstOfProducer s.control.msgQueue i msg →
      Transition cfg s (.dequeue i env) ((s.without i).handleMessage cfg env msg)
  | skipped : s.loop.phase = .messages →
      Transition cfg s .skipMessageProcess { s with loop.noExecution := false }
  | executed : s.loop.phase = .messages → ¬ s.Suspended →
      Transition cfg s .skipMessageProcess { s with loop.phase := .context true }
  | contextRan (isNewContext : Bool) (env : ContextEnv) (other : Option AsStatus) :
      s.loop.phase = .context isNewContext →
      Transition cfg s (.context env other)
        { s with
          model := (s.model.generateContinueContext cfg s.loras isNewContext env).1
          loop.phase := .context false }
  | contextEnded (isNewContext : Bool) (env : ContextEnv) (other : Option AsStatus) :
      s.loop.phase = .context isNewContext →
      Transition cfg s (.context env other)
        ({ s with model := (s.model.generateContinueContext cfg s.loras isNewContext env).1
          }.beginUpdate false)
  | entryUpdated (u : Uuid) (decoded : Bool) (rest : Finset Uuid) :
      s.loop.phase = .update decoded rest → u ∈ rest →
      Transition cfg s (.updateResult u)
        { s.updateEntry u with loop.phase := .update decoded (rest.erase u) }
  | updateEnded (decoded : Bool) : s.loop.phase = .update decoded ∅ →
      Transition cfg s .endUpdate
        { s with loop.phase := if decoded then .check else .decode }
  | decoded (env : DecodeEnv) : s.loop.phase = .decode → env.memoryOut = none →
      Transition cfg s (.decode env)
        ({ s with model := (s.model.generateContinueDecoder env.tokens env.eos env.stops).1
          }.beginUpdate true)
  | memoryOut (env : DecodeEnv) (m : AsModel) : s.loop.phase = .decode → env.memoryOut ≠ none →
      env.order.Nodup → env.order.toFinset = s.control.requestHandleMap.keys →
      PartlyDecoded env s.model m →
      Transition cfg s (.decode env) ({ s with model := m }.handleMemoryOut cfg env)
  | checked : s.loop.phase = .check → Transition cfg s .checkFinished s.finishSync.finishLoop

section Inversion

variable {cfg : Config} {s t : Engine}

theorem transition_loadLora {name : String} {loaded : Bool}
    (hnext : s.next cfg (.loadLora name loaded) = some t) :
    Transition cfg s (.loadLora name loaded) t := by
  rw [next] at hnext
  split at hnext
  · rename_i hlock
    cases hnext
    have hnone : s.clients.loraLock = none := by simpa using hlock
    have hkept : Transition cfg s (.loadLora name loaded) s :=
      .loraLoaded name loaded s.loras hnone subset_rfl (Finset.subset_insert _ _)
    rw [loadLoraByName]
    repeat' split
    all_goals first
      | exact hkept
      | exact .loraLoaded name loaded _ hnone (Finset.subset_insert _ _) subset_rfl
  · cases hnext

theorem transition_unloadLora {name : String} (hnext : s.next cfg (.unloadLora name) = some t) :
    Transition cfg s (.unloadLora name) t := by
  rw [next] at hnext
  split at hnext
  · rename_i hlock
    cases hnext
    have hnone : s.clients.loraLock = none := by simpa using hlock
    rw [unloadLoraByName]
    repeat' split
    all_goals first
      | exact .loraKept name hnone
      | exact .loraUnloaded name hnone ‹_›
  · cases hnext

theorem transition_decode {env : DecodeEnv} (hnext : s.next cfg (.decode env) = some t) :
    Transition cfg s (.decode env) t := by
  rw [next, runTextGenerationContinue] at hnext
  split at hnext
  · cases hnext
  · rename_i hphase
    rw [not_not] at hphase
    dsimp only at hnext
    split at hnext
    · rename_i hmemory
      split at hnext
      · cases hnext
        exact .decoded env hphase hmemory
      · cases hnext
    · rename_i progress hmemory
      have hout : env.memoryOut ≠ none := by simp [hmemory]
      split at hnext
      · cases hnext
      · rename_i horder
        simp only [not_or, not_not] at horder
        obtain ⟨_, hnodup, hkeys⟩ := horder
        split at hnext
        · cases hnext
          exact .memoryOut env s.model hphase hout hnodup hkeys .notRun
        · cases hnext
          exact .memoryOut env _ hphase hout hnodup hkeys .started
        · split at hnext
          · cases hnext
            exact .memoryOut env _ hphase hout hnodup hkeys (.finished hmemory)
          · cases hnext

/-- Every step of the engine is a transition. -/
theorem transition {e : Event} (hnext : s.next cfg e = some t) : Transition cfg s e t := by
  cases e with
  | startRequest content producer =>
      rw [next, Engine.startRequest] at hnext
      split at hnext
      · cases hnext
      · rename_i hlock
        split at hnext
        · rename_i hverified
          cases hnext
          exact .startRequest content producer hlock hverified.1 hverified.2
        · cases hnext
  | checkStopping =>
      rw [next, Engine.checkStopping] at hnext
      split at hnext
      · rename_i u content producer hlock
        split at hnext
        · rename_i hstopping
          cases hnext
          exact .startDenied u content producer hlock hstopping
        · rename_i hrunning
          cases hnext
          exact .startPassed u content producer hlock (by simpa using hrunning)
      · cases hnext
  | enqueueStart enqueued =>
      rw [next, Engine.enqueueStart] at hnext
      split at hnext
      · rename_i u content producer hlock
        cases enqueued with
        | true =>
            cases hnext
            exact .startEnqueued u content producer hlock
        | false =>
            cases hnext
            exact .startFailed u content producer hlock
      · cases hnext
  | call request producer =>
      rw [next, Engine.call] at hnext
      split at hnext
      · cases hnext
      · rename_i hlock
        cases hnext
        exact .called request producer hlock
  | returnCall =>
      rw [next, Engine.returnCall] at hnext
      split at hnext
      · rename_i promise hlock
        split at hnext
        · cases hnext
        · rename_i hanswered
          cases hnext
          exact .callReturned promise hlock hanswered
      · cases hnext
  | stopModel =>
      rw [next, Engine.stopModel] at hnext
      split at hnext
      · cases hnext
      · rename_i hrunning
        cases hnext
        exact .stopChecked (by simpa using hrunning)
  | flagStop i =>
      rw [next, Engine.flagStop] at hnext
      split at hnext
      · rename_i hcall
        cases hnext
        exact .stopFlagged i hcall
      · cases hnext
  | enqueueStop i producer enqueued =>
      rw [next, Engine.enqueueStop] at hnext
      split at hnext
      · rename_i hcall
        cases enqueued with
        | true =>
            cases hnext
            exact .stopEnqueued i producer hcall
        | false =>
            cases hnext
            exact .stopFailed i producer hcall
      · cases hnext
  | returnStop i =>
      rw [next, Engine.returnStop] at hnext
      split at hnext
      · rename_i promise hcall
        split at hnext
        · cases hnext
        · rename_i status _ hstatus
          split at hnext
          · cases hnext
          · rename_i hjoined
            cases hnext
            refine .stopReturned i promise status hcall (by simp [hstatus]) fun hsuccess => ?_
            by_contra hphase
            exact hjoined ⟨hsuccess, hphase⟩
      · cases hnext
  | loadLora name loaded => exact transition_loadLora hnext
  | unloadLora name => exact transition_unloadLora hnext
  | dequeue i env =>
      rw [next, Engine.dequeue] at hnext
      split at hnext
      · rename_i hphase
        split at hnext
        · cases hnext
        · rename_i msg _
          split at hnext
          · rename_i hfirst
            cases hnext
            exact .message i env msg hphase.1 hphase.2 hfirst
          · cases hnext
      · cases hnext
  | skipMessageProcess =>
      rw [next, Engine.skipMessageProcess] at hnext
      split at hnext
      · rename_i hphase
        split at hnext
        · cases hnext
          exact .skipped hphase.1
        · cases hnext
          exact .executed hphase.1 hphase.2
      · cases hnext
  | context env other =>
      rw [next, runTextGenerationContext] at hnext
      split at hnext
      · rename_i isNewContext hphase
        dsimp only at hnext
        split at hnext
        · cases hnext
          exact .contextRan isNewContext env other hphase
        · cases hnext
          exact .contextEnded isNewContext env other hphase
      · cases hnext
  | updateResult u =>
      rw [next, Engine.updateResult] at hnext
      split at hnext
      · rename_i decoded rest hphase
        split at hnext
        · rename_i hmem
          cases hnext
          exact .entryUpdated u decoded rest hphase hmem
        · cases hnext
      · cases hnext
  | endUpdate =>
      rw [next, Engine.endUpdate] at hnext
      split at hnext
      · rename_i decoded rest hphase
        split at hnext
        · rename_i hrest
          cases hnext
          exact .updateEnded decoded (hrest ▸ hphase)
        · cases hnext
      · cases hnext
  | decode env => exact transition_decode hnext
  | checkFinished =>
      rw [next, Engine.checkFinished] at hnext
      split at hnext
      · rename_i hphase
        cases hnext
        exact .checked hphase
      · cases hnext

end Inversion

end Engine

end DashInfer.Serving
