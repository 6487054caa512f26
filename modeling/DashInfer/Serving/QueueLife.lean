import DashInfer.Serving.Delivery

/-!
The life of a result queue over a run: its elements are only added to, it never
returns to its initial status, nothing changes once it is finished or
interrupted, and a queue that was released does not come back.
-/

namespace DashInfer.Serving

open Lib

/-- What a later state of a queue keeps of an earlier one. -/
structure ResultQueue.Grows (queue queue' : ResultQueue) : Prop where
  chunks : queue.chunks <+: queue'.chunks
  opened : queue.status ≠ .init → queue'.status ≠ .init
  final : queue.status.terminal = true → queue' = queue

theorem ResultQueue.Grows.rfl {queue : ResultQueue} : queue.Grows queue :=
  ⟨List.prefix_rfl, id, fun _ => by rfl⟩

theorem ResultQueue.Grows.trans {queue queue' queue'' : ResultQueue} (h : queue.Grows queue')
    (h' : queue'.Grows queue'') : queue.Grows queue'' := by
  refine ⟨h.chunks.trans h'.chunks, h'.opened ∘ h.opened, fun hterminal => ?_⟩
  have hsame := h.final hterminal
  rw [h'.final (hsame ▸ hterminal), hsame]

namespace Engine

section Step

variable {cfg : Config} {s t : Engine} {allowed : Uuid → Occurrence → Prop} {u : Uuid}

theorem openedStatus_ne (handle : RequestHandle) {queue : ResultQueue}
    (h : queue.status ≠ .init) : openedStatus handle queue ≠ .init := by
  unfold openedStatus
  split
  · simp
  · exact h

theorem closed_keeps (request : Request) (queue : ResultQueue) :
    (closed request queue).1.chunks = queue.chunks ∧
      (queue.status ≠ .init → (closed request queue).1.status ≠ .init) := by
  unfold closed
  split
  · simp
  · split <;> simp

/-- `UpdateResult` adds to a queue and leaves a terminal one alone. -/
theorem updated_grows (request : Request) (handle : RequestHandle) (queue : ResultQueue) :
    queue.Grows (updated request handle queue).2.1 := by
  unfold updated
  split
  · exact .rfl
  · rename_i hopen
    split
    · exact .rfl
    · split
      · exact ⟨List.prefix_rfl, by simp, fun hterminal => absurd hterminal hopen⟩
      · rcases deliver_cases request handle queue with ⟨_, heq⟩ | ⟨_, heq⟩
        all_goals
          obtain ⟨hchunks, hopened⟩ := closed_keeps request (deliver request handle queue).2
          rw [heq] at hchunks hopened ⊢
          constructor
          · simp [hchunks]
          · intro hinit
            apply hopened
            exact openedStatus_ne handle hinit
          · exact fun hterminal => absurd hterminal hopen

/-- A queue that is there grows in a step, or is released. -/
theorem Effect.grows (heffect : Effect allowed s t) (hsound : s.Sound) {queue : ResultQueue}
    (hqueue : s.queue? u = some queue) :
    (∃ queue', t.queue? u = some queue' ∧ queue.Grows queue') ∨ t.queue? u = none := by
  cases heffect with
  | moved _ _ hqueues => exact .inl ⟨queue, by rw [hqueues, hqueue], .rfl⟩
  | interrupted victim old _ _ hvictim hstatus hqueues =>
      left
      rcases eq_or_ne u victim with rfl | hne
      · refine ⟨{ old with status := .generateInterrupted }, by simp [hqueues], ?_⟩
        obtain rfl : queue = old := by simpa [hvictim] using hqueue.symm
        exact ⟨List.prefix_rfl, by simp, by simp [hstatus, GenerateRequestStatus.terminal]⟩
      · exact ⟨queue, by simp [hqueues, hne, hqueue], .rfl⟩
  | started cfg new content memory hstarting _ _ _ hqueues =>
      have hne : u ≠ new := by
        rintro rfl
        exact (hsound.unstarted u hstarting).1 ((hsound.queues u).mp ⟨queue, hqueue⟩)
      exact .inl ⟨queue, by simp [hqueues, hne, hqueue], .rfl⟩
  | released gone _ _ _ _ hqueues =>
      rcases eq_or_ne u gone with rfl | hne
      · exact .inr (by simp [hqueues])
      · exact .inl ⟨queue, by simp [hqueues, hne, hqueue], .rfl⟩
  | delivered v handle old _ _ hold _ hqueues =>
      left
      rcases eq_or_ne u v with rfl | hne
      · obtain rfl : queue = old := by simpa [hold] using hqueue.symm
        exact ⟨_, by rw [hqueues, Function.update_self], updated_grows _ handle queue⟩
      · exact ⟨queue, by simp [hqueues, hne, hqueue], .rfl⟩

/-- The id of a request that was started and released. -/
structure Retired (s : Engine) (u : Uuid) : Prop where
  issued : u < s.clients.nextUuid
  unknown : u ∉ s.model.allRequestMap
  unstarted : u ∉ s.starting

/-- No id is given twice. -/
theorem Retired.next (h : s.Retired u) (hsound : s.Sound) {e : Event}
    (hnext : s.next cfg e = some t) : t.Retired u := by
  have hunknown : u ∉ t.model.allRequestMap := by
    intro hknown
    cases hsound.effect hnext with
    | moved hmoved => exact h.unknown (hmoved.known ▸ hknown)
    | interrupted _ _ hmoved => exact h.unknown (hmoved.known ▸ hknown)
    | started cfg new content memory hstarting _ hmodel =>
        rw [hmodel] at hknown
        rcases Finset.mem_insert.mp hknown with rfl | hknown
        · exact h.unstarted hstarting
        · exact h.unknown hknown
    | released gone m hmoved hmodel =>
        rw [hmodel] at hknown
        exact h.unknown (hmoved.known ▸ Finset.mem_of_mem_erase hknown)
    | delivered _ _ _ hmodel => exact h.unknown (hmodel ▸ hknown)
  rcases starting_next hnext with ⟨hsub, hids⟩ | ⟨hstarts, hids, _⟩
  · exact ⟨hids ▸ h.issued, hunknown, fun hmem => h.unstarted (hsub.subset hmem)⟩
  · refine ⟨?_, hunknown, ?_⟩
    · rw [hids]
      exact Nat.lt_succ_of_lt h.issued
    · simp [hstarts, h.unstarted, Nat.ne_of_lt h.issued]

/-- What is known of a request once it had a queue. -/
def QueueFollows (queue : ResultQueue) (u : Uuid) (s : Engine) : Prop :=
  (∃ queue', s.queue? u = some queue' ∧ queue.Grows queue') ∨ s.Retired u

theorem QueueFollows.next {queue : ResultQueue} (h : QueueFollows queue u s) (hsound : s.Sound)
    {e : Event} (hnext : s.next cfg e = some t) : QueueFollows queue u t := by
  rcases h with ⟨queue', hqueue', hgrows⟩ | hretired
  · have hknown : u ∈ s.model.allRequestMap := (hsound.queues u).mp ⟨queue', hqueue'⟩
    rcases (hsound.effect hnext).grows hsound hqueue' with ⟨queue'', hqueue'', hgrows'⟩ | hnone
    · exact .inl ⟨queue'', hqueue'', hgrows.trans hgrows'⟩
    · right
      have hunstarted : u ∉ s.starting := fun hmem => (hsound.unstarted u hmem).1 hknown
      have hissued := hsound.issued u (.inl hknown)
      have hunknown : u ∉ t.model.allRequestMap := by
        intro hthere
        obtain ⟨queue'', hqueue''⟩ := ((hsound.next hnext).queues u).mpr hthere
        simp [hnone] at hqueue''
      rcases starting_next hnext with ⟨hsub, hids⟩ | ⟨hstarts, hids, _⟩
      · exact ⟨hids ▸ hissued, hunknown, fun hmem => hunstarted (hsub.subset hmem)⟩
      · refine ⟨?_, hunknown, ?_⟩
        · rw [hids]
          exact Nat.lt_succ_of_lt hissued
        · simp [hstarts, hunstarted, Nat.ne_of_lt hissued]
  · exact .inr (hretired.next hsound hnext)

theorem Retired.queue? (h : s.Retired u) (hsound : s.Sound) : s.queue? u = none := by
  cases hlookup : s.queue? u with
  | none => rfl
  | some queue => exact absurd ((hsound.queues u).mp ⟨queue, hlookup⟩) h.unknown

end Step

/-- A result queue over a run: it grows, is unchanged once it is terminal, and
is gone for good once it is released. -/
theorem queue_life {cfg : Config} {loras : Finset String} {guard : Engine → Event → Prop}
    {s t : Engine} (h : Reaches cfg loras guard s) {u : Uuid} {queue : ResultQueue}
    (hqueue : s.queue? u = some queue) {es : List Event} (hrun : s.run cfg es = some t) :
    (∃ queue', t.queue? u = some queue' ∧ queue.Grows queue') ∨
      t.queue? u = none ∧ ∀ es' t', t.run cfg es' = some t' → t'.queue? u = none := by
  have hfollows : t.Sound ∧ QueueFollows queue u t := by
    apply run_invariant (I := fun s => s.Sound ∧ QueueFollows queue u s) _ _ hrun
    · rintro q e r ⟨hsound, hfollows⟩ hnext
      exact ⟨hsound.next hnext, hfollows.next hsound hnext⟩
    · exact ⟨h.sound, .inl ⟨queue, hqueue, .rfl⟩⟩
  obtain ⟨hsound, hgrows | hretired⟩ := hfollows
  · exact .inl hgrows
  · refine .inr ⟨hretired.queue? hsound, fun es' t' hrun' => ?_⟩
    have hlater : t'.Sound ∧ t'.Retired u := by
      apply run_invariant (I := fun s => s.Sound ∧ s.Retired u) _ _ hrun'
      · rintro q e r ⟨hsound, hretired⟩ hnext
        exact ⟨hsound.next hnext, hretired.next hsound hnext⟩
      · exact ⟨hsound, hretired⟩
    exact hlater.2.queue? hlater.1

/-- The queue of a request that runs after it was registered. -/
theorem queue_life_runOne : ∃ s t, (start ∅).run tiny (startOne fun _ => 0) = some s ∧
    s.run tiny ((runOne (fun _ => 0) false).drop 4) = some t ∧
    t.queue? 0 = some ⟨.generating, [[9]]⟩ ∧
    ((∃ queue, t.queue? 0 = some queue ∧ ResultQueue.Grows ⟨.init, []⟩ queue) ∨
      t.queue? 0 = none ∧ ∀ es' t', t.run tiny es' = some t' → t'.queue? 0 = none) := by
  have hfirst : ((start ∅).run tiny (startOne fun _ => 0)).map (fun s => (s.queue? 0,
      (s.run tiny ((runOne (fun _ => 0) false).drop 4)).map fun t => t.queue? 0)) =
        some (some ⟨.init, []⟩, some (some ⟨.generating, [[9]]⟩)) := rfl
  obtain ⟨s, hstart, hrest⟩ := Option.map_eq_some_iff.mp hfirst
  obtain ⟨hqueue, hmore⟩ := Prod.mk.inj hrest
  obtain ⟨t, hrun, hafter⟩ := Option.map_eq_some_iff.mp hmore
  have hreaches := Reaches.run (.init rfl) (guarded_true tiny (start ∅) _) hstart
  exact ⟨s, t, hstart, hrun, hafter, queue_life hreaches hqueue hrun⟩

/-- The maps of the engine and of the model have the same requests in every
state of a run, no request waits or runs twice, and the queue of a request that
waits is as it was created. -/
theorem entries_agree {cfg : Config} {loras : Finset String} {guard : Engine → Event → Prop}
    {s : Engine} (h : Reaches cfg loras guard s) :
    s.control.requestHandleMap.keys = s.model.allRequestMap ∧
      s.control.resultQueueMap.keys = s.model.allRequestMap ∧
      (s.model.pendingRequestQueue ++ runningUuids s.model.genCtxList).Nodup ∧
      ∀ u ∈ s.model.allRequestMap, u ∈ s.model.pendingRequestQueue →
        s.queue? u = some ⟨.init, []⟩ ∧ (s.model.requests u).generated = [] := by
  have hsound := h.sound
  refine ⟨?_, ?_, hsound.nodup, fun u hknown hpending => ?_⟩
  · ext u
    rw [Finmap.mem_keys, mem_handles]
    exact hsound.handles u
  · ext u
    rw [Finmap.mem_keys, mem_queues]
    exact hsound.queues u
  · obtain ⟨handle, hhandle⟩ := (hsound.handles u).mpr hknown
    refine ⟨(hsound.waiting u handle hhandle hpending).queue, ?_⟩
    exact (hsound.fresh u (AsModel.place_of_pending hpending)).generated

theorem entries_agree_startOne : ∃ s, (start ∅).run tiny (startOne fun _ => 0) = some s ∧
    s.control.requestHandleMap.keys = {0} ∧
    s.control.requestHandleMap.keys = s.model.allRequestMap ∧
    s.control.resultQueueMap.keys = s.model.allRequestMap := by
  have hmap : ((start ∅).run tiny (startOne fun _ => 0)).map
      (fun s => s.control.requestHandleMap.keys) = some {0} := rfl
  obtain ⟨s, hrun, hkeys⟩ := Option.map_eq_some_iff.mp hmap
  have hagree := entries_agree (Reaches.run (.init rfl) (guarded_true tiny (start ∅) _) hrun)
  exact ⟨s, hrun, hkeys, hagree.1, hagree.2.1⟩

end Engine

end DashInfer.Serving
