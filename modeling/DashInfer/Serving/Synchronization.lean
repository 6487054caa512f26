import DashInfer.Serving.Promises
import DashInfer.Serving.QueueLife

/-!
`SyncRequest` and `SyncAllRequest`: they are answered only after the queue of
every request they ask for has ended, and never when they ask for a request
that is not registered. As long as a synchronisation lasts no message is
handled.
-/

namespace DashInfer.Serving

open Lib

namespace Engine

/-- A synchronisation waits for a request. -/
structure SyncWaits (s : Engine) (u : Uuid) (promise : Nat) : Prop where
  synchronizing : s.loop.synchronizing = true
  pending : u ∈ s.loop.syncPendingSet
  deferred : s.loop.deferredPromise = some promise

section Step

variable {cfg : Config} {s t : Engine} {u v : Uuid} {promise : Nat}

theorem closed_terminal {request : Request} {queue : ResultQueue}
    (h : (closed request queue).2 = true) : (closed request queue).1.status.terminal = true := by
  unfold closed at h ⊢
  split at h
  · rename_i hinterrupted
    simp [hinterrupted, GenerateRequestStatus.terminal]
  · split at h
    · rename_i hfinish
      simp [*, GenerateRequestStatus.terminal]
    · cases h

/-- `UpdateResult` counts a request as synchronized when its queue has ended. -/
theorem updated_terminal {request : Request} {handle : RequestHandle} {queue : ResultQueue}
    (h : (updated request handle queue).2.2 = true) :
    (updated request handle queue).2.1.status.terminal = true := by
  unfold updated at h ⊢
  split at h
  · rename_i hterminal
    simp [hterminal]
  · rename_i hopen
    rw [if_neg hopen]
    split at h
    · cases h
    · rename_i hinit
      rw [if_neg hinit]
      split at h
      · rename_i hinterrupted
        simp [hinterrupted, GenerateRequestStatus.terminal]
      · rename_i hrunning
        rw [if_neg hrunning]
        exact closed_terminal h

/-- One entry of `UpdateResult` while a synchronisation waits. -/
theorem SyncWaits.updateEntry (h : s.SyncWaits u promise) (hsound : s.Sound) (v : Uuid) :
    ((s.updateEntry v).SyncWaits u promise ∧
        (s.queue? u = none → (s.updateEntry v).queue? u = none)) ∨
      s.queue? u ≠ none ∧
        ∃ queue, (s.updateEntry v).queue? u = some queue ∧ queue.status.terminal = true := by
  obtain ⟨_, _, _, sync, hframe⟩ := updateEntry_frame s v
  have hflag : (s.updateEntry v).loop.synchronizing = true := by
    rw [hframe]
    exact h.synchronizing
  have hdeferred : (s.updateEntry v).loop.deferredPromise = some promise := by
    rw [hframe]
    exact h.deferred
  by_cases hknown : v ∈ s.model.allRequestMap
  · obtain ⟨handle, queue, hhandle, hqueue⟩ := hsound.entry hknown
    obtain ⟨_, hqueues, hsync⟩ := updateEntry_spec hhandle hqueue hknown
    rcases eq_or_ne u v with rfl | hne
    · cases hend : (updated (s.model.requests u) handle queue).2.2 with
      | true =>
          right
          exact ⟨by simp [hqueue], _, by rw [hqueues, Function.update_self], updated_terminal hend⟩
      | false =>
          simp only [hend, Bool.false_and, cond_false] at hsync
          refine .inl ⟨⟨hflag, hsync ▸ h.pending, hdeferred⟩, fun hnone => ?_⟩
          simp [hqueue] at hnone
    · left
      refine ⟨⟨hflag, ?_, hdeferred⟩, fun hnone => by simp [hqueues, hne, hnone]⟩
      rw [hsync]
      cases (updated (s.model.requests v) handle queue).2.2 with
      | true => simp [h.synchronizing, hne, h.pending]
      | false => exact h.pending
  · obtain ⟨hnone, _⟩ := hsound.no_entry hknown
    have hsame : s.updateEntry v = s := by
      unfold Engine.updateEntry
      rw [hnone]
    rw [hsame]
    exact .inl ⟨h, id⟩

theorem finishSync_waiting (hpending : u ∈ s.loop.syncPendingSet) : s.finishSync = s := by
  have hne : s.loop.syncPendingSet ≠ ∅ := Finset.ne_empty_of_mem hpending
  simp [finishSync, hne]

theorem SyncWaits.finishLoop (h : s.SyncWaits u promise) : s.finishLoop.SyncWaits u promise := by
  have hanswer : ∀ (q : Engine) status, q.SyncWaits u promise →
      (q.answerGracefulStop status).SyncWaits u promise := by
    rintro q status ⟨h1, h2, h3⟩
    unfold answerGracefulStop
    dsimp only
    split <;> exact ⟨h1, h2, h3⟩
  obtain ⟨h1, h2, h3⟩ := h
  unfold Engine.finishLoop
  split
  · split
    · exact hanswer _ _ ⟨h1, h2, h3⟩
    · exact hanswer _ _ ⟨h1, h2, h3⟩
  · exact ⟨h1, h2, h3⟩

theorem SyncWaits.handleMemoryOut (h : s.SyncWaits u promise) (m : AsModel) (env : DecodeEnv) :
    ({ s with model := m }.handleMemoryOut cfg env).SyncWaits u promise ∧
      (s.queue? u = none → ({ s with model := m }.handleMemoryOut cfg env).queue? u = none) := by
  obtain ⟨h1, h2, h3⟩ := h
  unfold Engine.handleMemoryOut
  split
  · exact ⟨⟨h1, h2, h3⟩, id⟩
  · rename_i victim _
    unfold interruptQueue
    split
    · rename_i queue hqueue
      refine ⟨⟨h1, h2, h3⟩, fun hnone => ?_⟩
      have hother : u ≠ victim := by
        rintro rfl
        have hsome : s.queue? u = some queue := hqueue
        simp [hnone] at hsome
      rw [queue?_putQueue, Function.update_of_ne hother]
      exact hnone
    · exact ⟨⟨h1, h2, h3⟩, id⟩

/-- A step while a synchronisation waits for a request: it still waits and the
request is not registered meanwhile, or the queue of the request has ended. -/
theorem SyncWaits.next (h : s.SyncWaits u promise) (hsound : s.Sound) {e : Event}
    (hnext : s.next cfg e = some t) :
    (t.SyncWaits u promise ∧ (s.queue? u = none → t.queue? u = none)) ∨
      s.queue? u ≠ none ∧ ∃ queue, t.queue? u = some queue ∧ queue.status.terminal = true := by
  obtain ⟨h1, h2, h3⟩ := h
  cases transition hnext with
  | message i env msg hphase hidle => simp [hidle] at h1
  | entryUpdated v decoded rest hphase hmem =>
      rcases SyncWaits.updateEntry ⟨h1, h2, h3⟩ hsound v with ⟨⟨h4, h5, h6⟩, hnone⟩ | hended
      · exact .inl ⟨⟨h4, h5, h6⟩, hnone⟩
      · exact .inr hended
  | memoryOut env m => exact .inl (SyncWaits.handleMemoryOut ⟨h1, h2, h3⟩ m env)
  | checked hphase =>
      rw [finishSync_waiting h2]
      refine .inl ⟨SyncWaits.finishLoop ⟨h1, h2, h3⟩, fun hnone => ?_⟩
      have hqueues := (sameRequests_finishLoop s).queues
      rw [Engine.queue?] at hnone ⊢
      rw [hqueues]
      exact hnone
  | _ => exact .inl ⟨⟨h1, h2, h3⟩, id⟩

/-- The queue has ended, or has been released since. -/
def Ended (u : Uuid) (s : Engine) : Prop :=
  (∃ queue, s.queue? u = some queue ∧ queue.status.terminal = true) ∨ s.Retired u

theorem Ended.next (h : s.Ended u) (hsound : s.Sound) {e : Event}
    (hnext : s.next cfg e = some t) : t.Ended u := by
  rcases h with ⟨queue, hqueue, hterminal⟩ | hretired
  · have hfollows : QueueFollows queue u t :=
      QueueFollows.next (.inl ⟨queue, hqueue, .rfl⟩) hsound hnext
    rcases hfollows with ⟨queue', hqueue', hgrows⟩ | hretired
    · have hsame := hgrows.final hterminal
      exact .inl ⟨queue', hqueue', hsame ▸ hterminal⟩
    · exact .inr hretired
  · exact .inr (hretired.next hsound hnext)

/-- While a synchronisation lasts, messages are only added to the queue. -/
theorem messages_next (hsync : s.loop.synchronizing = true) {e : Event}
    (hnext : s.next cfg e = some t) : s.control.msgQueue <+: t.control.msgQueue := by
  cases transition hnext with
  | startEnqueued => simp [enqueue, holdLock]
  | called => simp [enqueue, holdLock]
  | stopEnqueued => simp [enqueue, setStopCall]
  | message i env msg hphase hidle => simp [hidle] at hsync
  | entryUpdated v decoded rest hphase hmem =>
      obtain ⟨_, _, _, _, hframe⟩ := updateEntry_frame s v
      simp [hframe]
  | memoryOut env m =>
      have hsame : SameStarts s ({ s with model := m }.handleMemoryOut cfg env) :=
        sameStarts_handleMemoryOut s m env
      simp [hsame.messages]
  | checked hphase =>
      simp [((sameStarts_finishSync s).trans (sameStarts_finishLoop _)).messages]
  | _ => exact List.prefix_rfl

end Step

section Runs

variable {cfg : Config} {loras : Finset String} {guard : Engine → Event → Prop} {s t : Engine}
  {u : Uuid} {promise : Nat}

theorem SyncWaits.unanswered (h : s.SyncWaits u promise) (hledger : s.ledger.Sound) :
    s.clients.promises promise = [] ∧ s.clients.loraLock = some (.waiting promise) := by
  have hmem : promise ∈ s.ledger.calls := by simp [ledger, Ledger.calls, h.deferred]
  refine ⟨hledger.book.unanswered promise (List.mem_append_left _ hmem), ?_⟩
  have hcaller := (hledger.of_call hmem).1
  cases hholder : s.clients.loraLock with
  | none => simp [ledger, hholder] at hcaller
  | some holder =>
      cases holder with
      | starting u content producer checked => simp [ledger, hholder, LockHolder.promise?] at hcaller
      | waiting other => simpa [ledger, hholder, LockHolder.promise?] using hcaller

end Runs

/-- The requests that a synchronisation asks for. -/
def syncUuids (s : Engine) : MessageBody → Finset Uuid
  | .syncRequest u => {u}
  | .syncAllRequest => s.control.requestHandleMap.keys
  | _ => ∅

theorem syncWaits_dequeue {cfg : Config} {s q : Engine} {i : Nat} {env : HandleEnv}
    {msg : EngineControlMessage} {u : Uuid} (hget : s.control.msgQueue[i]? = some msg)
    (hu : u ∈ s.syncUuids msg.body) (hnext : s.next cfg (.dequeue i env) = some q) :
    q.SyncWaits u msg.promise ∧ q.queue? = s.queue? := by
  cases transition hnext with
  | message _ _ msg' hphase hidle hfirst =>
      obtain rfl : msg = msg' := by simpa [hget] using hfirst.1
      unfold handleMessage
      cases hbody : msg.body with
      | syncRequest v =>
          rw [hbody] at hu
          exact ⟨⟨rfl, Finset.mem_union_right _ hu, rfl⟩, rfl⟩
      | syncAllRequest =>
          rw [hbody] at hu
          exact ⟨⟨rfl, Finset.mem_union_right _ hu, rfl⟩, rfl⟩
      | _ => simp [hbody, syncUuids] at hu

/-- A synchronisation is answered only after the queue of every request it asks
for was there and has ended: it is terminal, or was released since. -/
theorem sync_answered {cfg : Config} {loras : Finset String} {guard : Engine → Event → Prop}
    {s q t : Engine} (h : Reaches cfg loras guard s) {i : Nat} {env : HandleEnv}
    {msg : EngineControlMessage} {u : Uuid} (hget : s.control.msgQueue[i]? = some msg)
    (hu : u ∈ s.syncUuids msg.body) (hnext : s.next cfg (.dequeue i env) = some q)
    {es : List Event} (hrun : q.run cfg es = some t)
    (hanswered : t.clients.promises msg.promise ≠ []) :
    ∃ queue, s.queue? u = some queue ∧
      ((∃ queue', t.queue? u = some queue' ∧ queue.Grows queue' ∧
        queue'.status.terminal = true) ∨ t.queue? u = none) := by
  obtain ⟨hwaits, hsame⟩ := syncWaits_dequeue hget hu hnext
  have hsound := h.sound.next hnext
  have hledger := (ledger_next hnext).sound h.ledger
  cases hqueue : s.queue? u with
  | none =>
      -- the request is never registered while the synchronisation waits for it
      have hnever := run_invariant
        (I := fun t => t.Sound ∧ t.ledger.Sound ∧ t.SyncWaits u msg.promise ∧ t.queue? u = none)
        (fun q e r ⟨hsound, hledger, hwaits, hnone⟩ hnext => by
          refine ⟨hsound.next hnext, (ledger_next hnext).sound hledger, ?_⟩
          rcases hwaits.next hsound hnext with ⟨hwaits', hnone'⟩ | ⟨hthere, _⟩
          · exact ⟨hwaits', hnone' hnone⟩
          · exact absurd hnone hthere)
        ⟨hsound, hledger, hwaits, hsame ▸ hqueue⟩ hrun
      exact absurd (hnever.2.2.1.unanswered hnever.2.1).1 hanswered
  | some queue =>
      have hends := run_invariant
        (I := fun t => t.Sound ∧ t.ledger.Sound ∧ QueueFollows queue u t ∧
          (t.SyncWaits u msg.promise ∨ t.Ended u))
        (fun q e r ⟨hsound, hledger, hfollows, hstate⟩ hnext => by
          refine ⟨hsound.next hnext, (ledger_next hnext).sound hledger,
            hfollows.next hsound hnext, ?_⟩
          rcases hstate with hwaits | hended
          · rcases hwaits.next hsound hnext with ⟨hwaits', _⟩ | ⟨_, hended⟩
            · exact .inl hwaits'
            · exact .inr (.inl hended)
          · exact .inr (hended.next hsound hnext))
        ⟨hsound, hledger, .inl ⟨queue, hsame ▸ hqueue, .rfl⟩, .inl hwaits⟩ hrun
      obtain ⟨hsound', hledger', hfollows, hstate⟩ := hends
      refine ⟨queue, rfl, ?_⟩
      rcases hstate with hwaits' | ⟨queue', hqueue', hterminal⟩ | hretired
      · exact absurd (hwaits'.unanswered hledger').1 hanswered
      · rcases hfollows with ⟨queue'', hqueue'', hgrows⟩ | hretired
        · obtain rfl : queue' = queue'' := by simpa [hqueue'] using hqueue''
          exact .inl ⟨queue', hqueue', hgrows, hterminal⟩
        · exact .inr (hretired.queue? hsound')
      · exact .inr (hretired.queue? hsound')

/-- A synchronisation that asks for a request that is not registered is never
answered: its call keeps the lock, and no message is handled any more. -/
theorem sync_unregistered {cfg : Config} {loras : Finset String}
    {guard : Engine → Event → Prop} {s q t : Engine} (h : Reaches cfg loras guard s) {i : Nat}
    {env : HandleEnv} {msg : EngineControlMessage} {u : Uuid}
    (hget : s.control.msgQueue[i]? = some msg) (hu : u ∈ s.syncUuids msg.body)
    (hnone : s.queue? u = none) (hnext : s.next cfg (.dequeue i env) = some q)
    {es : List Event} (hrun : q.run cfg es = some t) :
    t.clients.promises msg.promise = [] ∧ t.clients.loraLock = some (.waiting msg.promise) ∧
      q.control.msgQueue <+: t.control.msgQueue := by
  obtain ⟨hwaits, hsame⟩ := syncWaits_dequeue hget hu hnext
  have hstuck := run_invariant
    (I := fun t => t.Sound ∧ t.ledger.Sound ∧ t.SyncWaits u msg.promise ∧ t.queue? u = none ∧
      q.control.msgQueue <+: t.control.msgQueue)
    (fun q e r ⟨hsound, hledger, hwaits, hnone, hmessages⟩ hnext => by
      refine ⟨hsound.next hnext, (ledger_next hnext).sound hledger, ?_⟩
      have hmore := messages_next hwaits.synchronizing hnext
      rcases hwaits.next hsound hnext with ⟨hwaits', hnone'⟩ | ⟨hthere, _⟩
      · exact ⟨hwaits', hnone' hnone, hmessages.trans hmore⟩
      · exact absurd hnone hthere)
    ⟨h.sound.next hnext, (ledger_next hnext).sound h.ledger, hwaits, hsame ▸ hnone,
      List.prefix_rfl⟩ hrun
  obtain ⟨_, hledger, hwaits', _, hmessages⟩ := hstuck
  obtain ⟨hopen, hlock⟩ := hwaits'.unanswered hledger
  exact ⟨hopen, hlock, hmessages⟩

/-- An iteration of the loop without a message, with the entries it visits. -/
def emptyRound (entries : List Uuid) : List Event :=
  [.skipMessageProcess, .context ⟨true, 0, 0, true, .refused false, fun _ => .done⟩ none] ++
    entries.map .updateResult ++
    [.endUpdate, .decode ⟨fun _ => 0, fun _ => false, fun _ => .done, none, [], 0, .done⟩] ++
    entries.map .updateResult ++ [.endUpdate, .checkFinished]

theorem sync_unregistered_emptyRound : ∃ s q t,
    (start ∅).run tiny [.call (.syncRequest 5) 0] = some s ∧
    s.next tiny (.dequeue 0 ⟨fun _ => 0, .done⟩) = some q ∧ q.run tiny (emptyRound []) = some t ∧
    t.clients.promises 0 = [] ∧ t.clients.loraLock = some (.waiting 0) := by
  have hmap : ((start ∅).run tiny [.call (.syncRequest 5) 0]).map (fun s =>
      (s.control.msgQueue[0]?, s.queue? 5, (s.next tiny (.dequeue 0 ⟨fun _ => 0, .done⟩)).map
        fun q => (q.run tiny (emptyRound [])).isSome)) =
      some (some ⟨.syncRequest 5, 0, 0⟩, none, some true) := rfl
  obtain ⟨s, hrun, hall⟩ := Option.map_eq_some_iff.mp hmap
  simp only [Prod.mk.injEq] at hall
  obtain ⟨hget, hnone, hmore⟩ := hall
  obtain ⟨q, hnext, hsome⟩ := Option.map_eq_some_iff.mp hmore
  obtain ⟨t, hafter⟩ := Option.isSome_iff_exists.mp hsome
  obtain ⟨hopen, hlock, _⟩ := sync_unregistered
    (Reaches.run (.init rfl) (guarded_true tiny (start ∅) _) hrun) hget
    (Finset.mem_singleton_self 5) hnone hnext hafter
  exact ⟨s, q, t, hrun, hnext, hafter, hopen, hlock⟩

/-- A request that has run and ended, and a call that synchronizes it. -/
def syncOne : List Event :=
  runOne (fun _ => 0) true ++
    [.endUpdate, .decode ⟨fun _ => 0, fun _ => false, fun _ => .done, none, [], 0, .done⟩,
      .updateResult 0, .endUpdate, .checkFinished, .call (.syncRequest 0) 1]

theorem sync_answered_syncOne : ∃ s q t, (start ∅).run tiny syncOne = some s ∧
    s.next tiny (.dequeue 0 ⟨fun _ => 0, .done⟩) = some q ∧ q.run tiny (emptyRound [0]) = some t ∧
    t.clients.promises 1 = [.success] ∧ ∃ queue, s.queue? 0 = some queue ∧
      ((∃ queue', t.queue? 0 = some queue' ∧ queue.Grows queue' ∧
        queue'.status.terminal = true) ∨ t.queue? 0 = none) := by
  have hmap : ((start ∅).run tiny syncOne).map (fun s =>
      (s.control.msgQueue[0]?, (s.next tiny (.dequeue 0 ⟨fun _ => 0, .done⟩)).map
        fun q => (q.run tiny (emptyRound [0])).map fun t => t.clients.promises 1)) =
      some (some ⟨.syncRequest 0, 1, 1⟩, some (some [.success])) := rfl
  obtain ⟨s, hrun, hall⟩ := Option.map_eq_some_iff.mp hmap
  simp only [Prod.mk.injEq] at hall
  obtain ⟨hget, hmore⟩ := hall
  obtain ⟨q, hnext, hrest⟩ := Option.map_eq_some_iff.mp hmore
  obtain ⟨t, hafter, hanswer⟩ := Option.map_eq_some_iff.mp hrest
  refine ⟨s, q, t, hrun, hnext, hafter, hanswer, ?_⟩
  exact sync_answered (Reaches.run (.init rfl) (guarded_true tiny (start ∅) _) hrun) hget
    (Finset.mem_singleton_self 0) hnext hafter (by simp [hanswer])

end Engine

end DashInfer.Serving
