import DashInfer.Vision.MailStep
import Mathlib.Data.List.Perm.Subperm

/-!
The law of the worker protocol, and the runs it holds in: those in which
`process_request` never raises. A call that raises either ends its worker or has
it put the result of an earlier task again.
-/

namespace DashInfer.Vision

variable {n : Nat} {T E : Type} {visual : T → Grid → E} {s s' : State n T E}

/-- What the protocol promises of a state. -/
structure Law (s : State n T E) : Prop where
  /-- A task that was queued is answered at most once. -/
  atMostOne : (s.sent.map (·.task.key)).Nodup
  /-- A message carries the request and the place of its task. -/
  own : ∀ message ∈ s.sent, message.result.key = message.task.key
  /-- Where processing raised, the message is an error. -/
  failedIsError : ∀ message ∈ s.sent, message.failed = true → message.result.status ≠ .success
  /-- No worker has left its loop. -/
  alive : ∀ w, (s.workers w).loop ≠ .ended
  /-- A call receives results of its own request, each put for the task it
  answers. -/
  received : ∀ requestId call, s.evals requestId = some call → ∀ vit ∈ call.received,
    vit.requestId = requestId ∧ ∃ message ∈ s.sent, message.result = vit ∧
      message.task.key = vit.key
  /-- A call that returned has one result for each image there was. -/
  complete : ∀ requestId call, s.evals requestId = some call → call.status = .returned →
    (call.received.map (·.vitId)).Perm ((validImages 0 call.images).map (fun entry => (entry.1 : Int)))

/-- `process_request` raises in this step. -/
def Raises (visual : T → Grid → E) (s : State n T E) : Event n T E → Prop
  | .finish w raises => ∃ task, (s.workers w).loop = .busy task ∧
      processRequest visual raises task = none
  | _ => False

/-- `process_request` raises in no step of the run. -/
def NeverRaises (visual : T → Grid → E) : State n T E → List (Event n T E) → Prop
  | _, [] => True
  | s, event :: rest => ¬ Raises visual s event ∧
      ∀ next, step visual s event = some next → NeverRaises visual next rest

/-- All messages are results of their own tasks, and all workers work. -/
structure Steady (s : State n T E) : Prop where
  own : ∀ message ∈ s.sent, message.failed = false
  alive : ∀ w, (s.workers w).loop ≠ .ended

theorem Steady.init : Steady (State.init n T E) where
  own := by
    intro message h
    cases h
  alive := by
    intro w h
    cases h

/-- The ids of the results a call received are places of its images. -/
theorem vitId_of_received (h : Delivered visual s) (hsteady : Steady s) {requestId : Int}
    {call : Eval T E} (hcall : s.evals requestId = some call) {vit : Vit E}
    (hvit : vit ∈ call.received) : vit.requestId = requestId ∧
      ∃ message ∈ s.sent, message.result = vit ∧ message.task.key = vit.key := by
  have hin := (h.mail.calls requestId call hcall).received.subset hvit
  rw [mem_ofRequest] at hin
  obtain ⟨hsent, hrequest⟩ := hin
  obtain ⟨message, hmessage, rfl⟩ := List.mem_map.mp hsent
  have hgenuine := h.tasks.genuine message hmessage (hsteady.own message hmessage)
  exact ⟨hrequest, message, hmessage, rfl, (key_of_processRequest hgenuine).symm⟩

theorem own_of_steady (h : Delivered visual s) (hsteady : Steady s) :
    ∀ message ∈ s.sent, message.result.key = message.task.key := fun message hin =>
  key_of_processRequest (h.tasks.genuine message hin (hsteady.own message hin))

theorem complete_of_steady (h : Delivered visual s) (hsteady : Steady s) {requestId : Int}
    {call : Eval T E} (hcall : s.evals requestId = some call) (hreturned : call.status = .returned) :
    (call.received.map (·.vitId)).Perm
      ((validImages 0 call.images).map (fun entry => (entry.1 : Int))) := by
  have hmail := h.mail.calls requestId call hcall
  have hkeys : (s.sent.map (·.result.key)).Nodup := by
    have hsame : s.sent.map (·.result.key) = s.sent.map (·.task.key) :=
      List.map_congr_left (own_of_steady h hsteady)
    rw [hsame]
    exact h.tasks.sentDistinct
  have hrequest : ∀ vit ∈ call.received, vit.requestId = requestId := fun vit hvit =>
    (vitId_of_received h hsteady hcall hvit).1
  have hdistinct : (call.received.map (·.vitId)).Nodup := by
    have hsub : (call.received.map (·.key)).Nodup := by
      have hle := hmail.received.sublist.trans List.filter_sublist
      have hmap := hle.map Vit.key
      rw [List.map_map] at hmap
      exact hmap.nodup hkeys
    have hpair : call.received.map (·.key) =
        (call.received.map (·.vitId)).map (fun id => (requestId, id)) := by
      rw [List.map_map]
      apply List.map_congr_left
      intro vit hvit
      simp [Vit.key, hrequest vit hvit]
    rw [hpair] at hsub
    exact hsub.of_map _
  have hsubset : call.received.map (·.vitId) ⊆
      (validImages 0 call.images).map (fun entry => (entry.1 : Int)) := by
    intro id hid
    obtain ⟨vit, hvit, rfl⟩ := List.mem_map.mp hid
    obtain ⟨hown, message, hin, _, hkey⟩ := vitId_of_received h hsteady hcall hvit
    obtain ⟨entry, hentry, now, htask⟩ := mem_validImages_of_queued h hcall
      (h.tasks.sentQueued message hin) ((congrArg Prod.fst hkey).trans hown)
    refine List.mem_map.mpr ⟨entry, hentry, ?_⟩
    have hplace : message.task.vitId = vit.vitId := congrArg Prod.snd hkey
    rw [← hplace, htask]
    rfl
  have hsubperm := List.subperm_of_subset hdistinct hsubset
  apply hsubperm.perm_of_length_le
  rw [List.length_map, List.length_map, (hmail.returned hreturned).2]
  exact Nat.le_refl _

/-- With all messages own and all workers up, everything promised holds. -/
theorem Steady.law (hsteady : Steady s) (h : Delivered visual s) : Law s where
  atMostOne := h.tasks.sentDistinct
  own := own_of_steady h hsteady
  failedIsError := by
    intro message hin hfailed
    have := hsteady.own message hin
    rw [hfailed] at this
    cases this
  alive := hsteady.alive
  received := fun _ _ hcall _ hvit => vitId_of_received h hsteady hcall hvit
  complete := fun _ _ hcall hreturned => complete_of_steady h hsteady hcall hreturned

/-- A message that repeats an earlier result has the wrong ids. -/
theorem Law.steady (hlaw : Law s) (h : Delivered visual s) : Steady s where
  own := by
    intro message hin
    cases hfailed : message.failed with
    | false => rfl
    | true =>
        obtain ⟨earlier, hearlier, _, hresult, hne⟩ := h.tasks.stale message hin hfailed
        have heq : earlier.task.key = message.task.key := by
          rw [← hlaw.own earlier hearlier, hresult, hlaw.own message hin]
        exact absurd heq hne
  alive := hlaw.alive

theorem law_iff_steady (h : Delivered visual s) : Law s ↔ Steady s :=
  ⟨fun hlaw => hlaw.steady h, fun hsteady => hsteady.law h⟩

theorem loop_update {w w' : Fin n} {worker : Worker T E} :
    (Function.update s.workers w worker w').loop =
      if w' = w then worker.loop else (s.workers w').loop := by
  by_cases hw : w' = w
  · subst hw
    simp
  · simp [hw]

/-- A task that was queued does not tell the worker to exit. -/
theorem begin_ne_ended (h : Delivered visual s) {task : VitRequest T} (hin : task ∈ s.queued)
    (now : Nat) : State.begin now task ≠ .ended := by
  have hplace : 0 ≤ task.vitId := by
    cases hcall : s.evals task.requestId with
    | none => exact absurd hcall (h.mail.known task hin)
    | some call =>
        obtain ⟨entry, _, _, htask⟩ := mem_validImages_of_queued h hcall hin rfl
        rw [htask]
        exact Int.natCast_nonneg _
  unfold State.begin
  have : ¬ task.vitId < 0 := by omega
  simp only [this, if_false]
  split <;> simp

/-- One step keeps the workers steady exactly if it does not raise, and nothing
makes up for a step that did. -/
theorem steady_step (h : Delivered visual s) {event : Event n T E}
    (hstep : step visual s event = some s') :
    Steady s' ↔ Steady s ∧ ¬ Raises visual s event := by
  have hsame : s'.sent = s.sent → s'.workers = s.workers → (Steady s' ↔ Steady s) := by
    intro hsent hworkers
    constructor
    · intro hs
      exact ⟨hsent ▸ hs.own, hworkers ▸ hs.alive⟩
    · intro hs
      exact ⟨hsent ▸ hs.own, hworkers ▸ hs.alive⟩
  cases event with
  | finish w raises =>
      obtain ⟨task, hbusy, hcases⟩ := finish_cases hstep
      rcases hcases with ⟨vit, hvit, rfl⟩ | ⟨hnone, vit, _, rfl⟩ | ⟨hnone, _, rfl⟩
      · have hquiet : ¬ Raises visual s (.finish w raises) := by
          rintro ⟨other, hother, hraise⟩
          rw [hbusy] at hother
          cases hother
          rw [hvit] at hraise
          cases hraise
        constructor
        · intro hs
          refine ⟨⟨fun message hin => hs.own message (List.mem_append_left _ hin), ?_⟩, hquiet⟩
          intro w' hended
          have halive := hs.alive w'
          simp only [loop_update] at halive
          by_cases hw : w' = w
          · subst hw
            rw [hbusy] at hended
            cases hended
          · exact halive (by simp [hw, hended])
        · rintro ⟨hs, _⟩
          constructor
          · intro message hin
            rcases List.mem_append.mp hin with hold | hnew
            · exact hs.own message hold
            · rw [List.mem_singleton.mp hnew]
          · intro w'
            simp only [loop_update]
            split
            · simp
            · exact hs.alive w'
      · constructor
        · intro hs
          have := hs.own { task, failed := true, result := vit }
            (List.mem_append_right _ (List.mem_singleton_self _))
          cases this
        · rintro ⟨_, hquiet⟩
          exact absurd ⟨task, hbusy, hnone⟩ hquiet
      · constructor
        · intro hs
          have := hs.alive w
          simp at this
        · rintro ⟨_, hquiet⟩
          exact absurd ⟨task, hbusy, hnone⟩ hquiet
  | take w now =>
      obtain ⟨task, rest, hidle, hqueue, rfl⟩ := take_cases hstep
      have hin : task ∈ s.queued := h.tasks.waiting task (hqueue ▸ List.mem_cons_self)
      constructor
      · intro hs
        refine ⟨⟨hs.own, ?_⟩, id⟩
        intro w' hended
        have halive := hs.alive w'
        simp only [loop_update] at halive
        by_cases hw : w' = w
        · subst hw
          rw [hidle] at hended
          cases hended
        · exact halive (by simp [hw, hended])
      · rintro ⟨hs, _⟩
        refine ⟨hs.own, ?_⟩
        intro w'
        simp only [loop_update]
        split
        · exact begin_ne_ended h hin now
        · exact hs.alive w'
  | eval hieResults images gridThw =>
      obtain ⟨_, rfl⟩ := eval_cases hstep
      simp [hsame rfl rfl, Raises]
  | put requestId now =>
      obtain ⟨_, _, _, _, _, _, rfl⟩ := put_cases hstep
      simp [hsame rfl rfl, Raises]
  | route =>
      obtain ⟨_, _, _, _, rfl⟩ := route_cases hstep
      simp [hsame rfl rfl, Raises]
  | handOver =>
      obtain ⟨_, _, ⟨_, _, rfl⟩ | ⟨_, rfl⟩⟩ := handOver_cases hstep
      · simp [hsame rfl rfl, Raises]
      · simp [hsame rfl rfl, Raises]
  | receive requestId =>
      obtain ⟨_, _, _, _, _, _, rfl⟩ := receive_cases hstep
      simp [hsame rfl rfl, Raises]
  | timeout requestId =>
      obtain ⟨_, _, _, rfl⟩ := timeout_cases hstep
      simp [hsame rfl rfl, Raises]
  | leave requestId =>
      obtain ⟨_, _, _, rfl⟩ := leave_cases hstep
      simp [hsame rfl rfl, Raises]

theorem steady_exec (h : Delivered visual s) {events : List (Event n T E)}
    (hrun : exec visual s events = some s') :
    Steady s' ↔ Steady s ∧ NeverRaises visual s events := by
  induction events generalizing s with
  | nil =>
      cases hrun
      simp [NeverRaises]
  | cons event rest ih =>
      obtain ⟨next, hstep, hrest⟩ := Option.bind_eq_some_iff.mp hrun
      rw [ih (h.step hstep) hrest, steady_step h hstep, and_assoc]
      simp only [NeverRaises, hstep, Option.some.injEq, forall_eq']

/-- A run ends in a state of which the law holds exactly if `process_request`
has not raised in it. -/
theorem law_iff_neverRaises (events : List (Event n T E))
    (hrun : exec visual (State.init n T E) events = some s) :
    Law s ↔ NeverRaises visual (State.init n T E) events := by
  rw [law_iff_steady (Delivered.init.exec hrun), steady_exec Delivered.init hrun]
  simp [Steady.init]

/-- One worker and a call with two images. The tower fails on the second one,
and the worker puts the result of the first one twice. -/
def failingRun : List (Event 1 Unit Unit) :=
  [.eval (VitGroup.empty 7) [some (.tensor ()), some (.tensor ())]
      (some [some [1, 2, 2], some [1, 4, 4]]),
    .put 7 0, .put 7 0, .take 0 0, .finish 0 false, .take 0 0, .finish 0 true,
    .route, .handOver, .route, .handOver, .receive 7, .receive 7, .leave 7]

theorem isSome_failingRun :
    (exec (fun _ _ => ()) (State.init 1 Unit Unit) failingRun).isSome := by decide

/-- The same call without the failure. -/
def steadyRun : List (Event 1 Unit Unit) :=
  [.eval (VitGroup.empty 7) [some (.tensor ()), none] (some [some [1, 2, 2], none]),
    .put 7 0, .take 0 0, .finish 0 false, .route, .handOver, .receive 7, .leave 7]

theorem isSome_steadyRun :
    (exec (fun _ _ => ()) (State.init 1 Unit Unit) steadyRun).isSome := by decide

theorem law_iff_neverRaises_steadyRun :
    Law ((exec (fun _ _ => ()) (State.init 1 Unit Unit) steadyRun).get isSome_steadyRun) ↔
      NeverRaises (fun _ _ => ()) (State.init 1 Unit Unit) steadyRun :=
  law_iff_neverRaises steadyRun (Option.some_get isSome_steadyRun).symm

/-- After the failing run the call holds the result of its first image twice. -/
theorem not_law : ¬ ∀ (n : Nat) (T E : Type) (visual : T → Grid → E)
    (events : List (Event n T E)) (s : State n T E),
    exec visual (State.init n T E) events = some s → Law s := by
  intro h
  have hlaw := h 1 Unit Unit (fun _ _ => ()) failingRun _ (Option.some_get isSome_failingRun).symm
  have hown := hlaw.own
  revert hown
  decide

end DashInfer.Vision
