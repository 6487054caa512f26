import DashInfer.Vision.HieWorker

/-!
What every run of the workers keeps, failures or not: a task is in one place,
every message was computed for some task, and the results of a request reach its
call in the order in which they were put.
-/

namespace DashInfer.Vision

variable {n : Nat} {T E : Type} {visual : T → Grid → E} {s s' : State n T E}

section ValidImages

variable {α : Type}

theorem le_of_mem_validImages {i j : Nat} {image : α} {images : List (Option α)}
    (h : (j, image) ∈ validImages i images) : i ≤ j := by
  induction images generalizing i with
  | nil => cases h
  | cons entry rest ih =>
      cases entry with
      | none =>
          have := ih h
          omega
      | some a =>
          rcases List.mem_cons.mp h with heq | hrest
          · cases heq
            exact Nat.le_refl _
          · have := ih hrest
            omega

/-- No place is queued twice. -/
theorem nodup_validImages (i : Nat) (images : List (Option α)) :
    ((validImages i images).map (·.1)).Nodup := by
  induction images generalizing i with
  | nil => exact List.nodup_nil
  | cons entry rest ih =>
      cases entry with
      | none => exact ih (i + 1)
      | some a =>
          simp only [validImages, List.map_cons, List.nodup_cons]
          refine ⟨?_, ih (i + 1)⟩
          intro hmem
          obtain ⟨⟨j, image⟩, hin, heq⟩ := List.mem_map.mp hmem
          have := le_of_mem_validImages hin
          simp only at heq
          omega

theorem mem_validImages {i j : Nat} {image : α} {images : List (Option α)} :
    (j, image) ∈ validImages i images ↔ i ≤ j ∧ images[j - i]? = some (some image) := by
  induction images generalizing i with
  | nil => simp [validImages]
  | cons entry rest ih =>
      have hshift : i ≤ j → j ≠ i → (entry :: rest)[j - i]? = rest[j - (i + 1)]? := by
        intro hle hne
        rw [show j - i = (j - (i + 1)) + 1 by omega, List.getElem?_cons_succ]
      by_cases hj : j = i
      · subst hj
        cases entry with
        | none =>
            simp only [validImages, ih, Nat.sub_self, List.getElem?_cons_zero]
            constructor
            · intro h
              omega
            · intro h
              simp at h
        | some a =>
            simp only [validImages, List.mem_cons, ih, Nat.sub_self, List.getElem?_cons_zero,
              Prod.mk.injEq, true_and, Nat.le_refl]
            constructor
            · rintro (rfl | h)
              · rfl
              · omega
            · intro h
              left
              simpa using h.symm
      · cases entry with
        | none =>
            simp only [validImages, ih]
            constructor
            · rintro ⟨hle, hget⟩
              have hle' : i ≤ j := by omega
              rw [hshift hle' hj]
              exact ⟨hle', hget⟩
            · rintro ⟨hle, hget⟩
              rw [hshift hle hj] at hget
              exact ⟨by omega, hget⟩
        | some a =>
            simp only [validImages, List.mem_cons, ih, Prod.mk.injEq, hj, false_and, false_or]
            constructor
            · rintro ⟨hle, hget⟩
              have hle' : i ≤ j := by omega
              rw [hshift hle' hj]
              exact ⟨hle', hget⟩
            · rintro ⟨hle, hget⟩
              rw [hshift hle hj] at hget
              exact ⟨by omega, hget⟩

end ValidImages

/-- The results of one request, in order. -/
def ofRequest (requestId : Int) (vits : List (Vit E)) : List (Vit E) :=
  vits.filter (fun vit => vit.requestId = requestId)

@[simp] theorem ofRequest_append (requestId : Int) (xs ys : List (Vit E)) :
    ofRequest requestId (xs ++ ys) = ofRequest requestId xs ++ ofRequest requestId ys :=
  List.filter_append ..

@[simp] theorem ofRequest_nil (requestId : Int) : ofRequest requestId ([] : List (Vit E)) = [] :=
  rfl

theorem ofRequest_cons_self {requestId : Int} {vit : Vit E} (h : vit.requestId = requestId)
    (rest : List (Vit E)) : ofRequest requestId (vit :: rest) = vit :: ofRequest requestId rest := by
  simp [ofRequest, h]

theorem ofRequest_cons_other {requestId : Int} {vit : Vit E} (h : vit.requestId ≠ requestId)
    (rest : List (Vit E)) : ofRequest requestId (vit :: rest) = ofRequest requestId rest := by
  simp [ofRequest, h]

theorem ofRequest_eq_nil {requestId : Int} {vits : List (Vit E)}
    (h : ∀ vit ∈ vits, vit.requestId ≠ requestId) : ofRequest requestId vits = [] := by
  unfold ofRequest
  rw [List.filter_eq_nil_iff]
  simpa using h

theorem mem_ofRequest {requestId : Int} {vits : List (Vit E)} {vit : Vit E} :
    vit ∈ ofRequest requestId vits ↔ vit ∈ vits ∧ vit.requestId = requestId := by
  simp [ofRequest]

/-- Where the tasks are. A task taken by a worker is in no queue any more and
has no message yet. -/
structure Tasks (visual : T → Grid → E) (s : State n T E) : Prop where
  queuedDistinct : (s.queued.map (·.key)).Nodup
  queueDistinct : (s.requestQueue.map (·.key)).Nodup
  waiting : ∀ task ∈ s.requestQueue, task ∈ s.queued
  busyQueued : ∀ w task, (s.workers w).loop = .busy task → task ∈ s.queued
  busyTaken : ∀ w task, (s.workers w).loop = .busy task →
    task.key ∉ s.requestQueue.map (·.key)
  busyUnsent : ∀ w task, (s.workers w).loop = .busy task →
    task.key ∉ s.sent.map (·.task.key)
  busyApart : ∀ w w' task task', w ≠ w' → (s.workers w).loop = .busy task →
    (s.workers w').loop = .busy task' → task.key ≠ task'.key
  sentDistinct : (s.sent.map (·.task.key)).Nodup
  sentQueued : ∀ message ∈ s.sent, message.task ∈ s.queued
  sentTaken : ∀ message ∈ s.sent, message.task.key ∉ s.requestQueue.map (·.key)
  genuine : ∀ message ∈ s.sent, message.failed = false →
    processRequest visual false message.task = some message.result
  stale : ∀ message ∈ s.sent, message.failed = true → ∃ earlier ∈ s.sent,
    earlier.failed = false ∧ earlier.result = message.result ∧
      earlier.task.key ≠ message.task.key
  bound : ∀ w vit, (s.workers w).vitResult = some vit → ∃ message ∈ s.sent,
    message.failed = false ∧ message.result = vit

/-- How far the results of one call have come. -/
structure CallMail (s : State n T E) (requestId : Int) (call : Eval T E) : Prop where
  tasks : ∃ done, validImages 0 call.images = done ++ call.todo ∧
    List.Forall₂ (fun task entry => ∃ now, task = State.taskOf requestId call now entry.1 entry.2)
      (s.queued.filter (fun task => task.requestId = requestId)) done
  running : call.status = .running → ∃ queue, s.clientQueues requestId = some queue ∧
    call.received ++ queue ++ ofRequest requestId s.router.held ++
      ofRequest requestId s.resultQueue = ofRequest requestId (s.sent.map (·.result))
  received : call.received <+: ofRequest requestId (s.sent.map (·.result))
  returned : call.status = .returned → call.todo = [] ∧ call.received.length = call.num
  group : call.hieResults.vits = call.received.foldl addVit call.found.vits
  requestId : call.found.requestId = requestId

structure Mail (s : State n T E) : Prop where
  transit : ∃ before, s.sent.map (·.result) = before ++ s.router.held ++ s.resultQueue
  known : ∀ task ∈ s.queued, s.evals task.requestId ≠ none
  answered : ∀ message ∈ s.sent, s.evals message.result.requestId ≠ none
  calls : ∀ requestId call, s.evals requestId = some call → CallMail s requestId call

theorem Tasks.init : Tasks visual (State.init n T E) where
  queuedDistinct := List.nodup_nil
  queueDistinct := List.nodup_nil
  waiting := by intro task h; cases h
  busyQueued := by intro w task h; cases h
  busyTaken := by intro w task h; cases h
  busyUnsent := by intro w task h; cases h
  busyApart := by intro w w' task task' hne h; cases h
  sentDistinct := List.nodup_nil
  sentQueued := by intro message h; cases h
  sentTaken := by intro message h; cases h
  genuine := by intro message h; cases h
  stale := by intro message h; cases h
  bound := by intro w vit h; cases h

theorem Mail.init : Mail (State.init n T E) where
  transit := ⟨[], rfl⟩
  known := by intro task h; cases h
  answered := by intro message h; cases h
  calls := by intro requestId call h; cases h

end DashInfer.Vision

/-!
Every event keeps where the tasks are and how far the results have come.
-/

namespace DashInfer.Vision

variable {n : Nat} {T E : Type} {visual : T → Grid → E} {s s' : State n T E}

section Inversion

variable {w : Fin n} {now : Nat} {requestId : Int}

theorem take_cases (h : s.take w now = some s') : ∃ task rest,
    (s.workers w).loop = .idle ∧ s.requestQueue = task :: rest ∧
    s' = { s with
      requestQueue := rest
      workers := Function.update s.workers w
        { s.workers w with loop := State.begin now task } } := by
  unfold State.take at h
  split at h
  · next task rest hidle hqueue => exact ⟨task, rest, hidle, hqueue, (Option.some.inj h).symm⟩
  · cases h

/-- What a worker does once `process_request` has ended: it puts the result of
its task, the result of an earlier one, or it dies. -/
theorem finish_cases {raises : Bool} (h : s.finish visual w raises = some s') :
    ∃ task, (s.workers w).loop = .busy task ∧
      ((∃ vit, processRequest visual raises task = some vit ∧ s' = { s with
          workers := Function.update s.workers w { loop := .idle, vitResult := some vit }
          resultQueue := s.resultQueue ++ [vit]
          sent := s.sent ++ [{ task, failed := false, result := vit }] }) ∨
        (processRequest visual raises task = none ∧ ∃ vit,
          (s.workers w).vitResult = some vit ∧ s' = { s with
            workers := Function.update s.workers w { loop := .idle, vitResult := some vit }
            resultQueue := s.resultQueue ++ [vit]
            sent := s.sent ++ [{ task, failed := true, result := vit }] }) ∨
        (processRequest visual raises task = none ∧ (s.workers w).vitResult = none ∧
          s' = { s with
            workers := Function.update s.workers w { loop := .ended, vitResult := none } })) := by
  unfold State.finish at h
  split at h
  · next task hbusy =>
      refine ⟨task, hbusy, ?_⟩
      split at h
      · next vit hvit => exact .inl ⟨vit, hvit, (Option.some.inj h).symm⟩
      · next hnone =>
          split at h
          · next vit hlast => exact .inr (.inl ⟨hnone, vit, hlast, (Option.some.inj h).symm⟩)
          · next hlast => exact .inr (.inr ⟨hnone, hlast, (Option.some.inj h).symm⟩)
  · cases h

theorem eval_cases {hieResults : VitGroup E} {images : List (Option (VitInput T))}
    {gridThw : Option (List (Option (List Int)))}
    (h : s.eval hieResults images gridThw = some s') :
    s.evals hieResults.requestId = none ∧ s' = { s with
      clientQueues := Function.update s.clientQueues hieResults.requestId (some [])
      evals := Function.update s.evals hieResults.requestId (some {
        images, gridThw, found := hieResults, todo := validImages 0 images, hieResults,
        received := [], status := .running }) } := by
  unfold State.eval at h
  simp only at h
  split at h
  · cases h
  · next hnone => exact ⟨hnone, (Option.some.inj h).symm⟩

theorem put_cases (h : s.put requestId now = some s') : ∃ call i image rest,
    s.evals requestId = some call ∧ call.todo = (i, image) :: rest ∧ s' = { s with
      requestQueue := s.requestQueue ++ [State.taskOf requestId call now i image]
      evals := Function.update s.evals requestId (some { call with todo := rest })
      queued := s.queued ++ [State.taskOf requestId call now i image] } := by
  unfold State.put at h
  split at h
  · cases h
  · next call hcall =>
      split at h
      · cases h
      · next i image rest htodo =>
          exact ⟨call, i, image, rest, hcall, htodo, (Option.some.inj h).symm⟩

theorem route_cases (h : s.route = some s') : ∃ vit rest, s.router = .idle ∧
    s.resultQueue = vit :: rest ∧ s' = { s with
      resultQueue := rest
      router := if (s.clientQueues vit.requestId).isSome then .routing vit else .idle } := by
  unfold State.route at h
  split at h
  · next vit rest hidle hqueue => exact ⟨vit, rest, hidle, hqueue, (Option.some.inj h).symm⟩
  · cases h

theorem handOver_cases (h : s.handOver = some s') : ∃ vit, s.router = .routing vit ∧
    ((∃ queue, s.clientQueues vit.requestId = some queue ∧ s' = { s with
        router := .idle
        clientQueues := Function.update s.clientQueues vit.requestId (some (queue ++ [vit])) }) ∨
      (s.clientQueues vit.requestId = none ∧ s' = { s with router := .ended })) := by
  unfold State.handOver at h
  split at h
  · next vit hrouting =>
      refine ⟨vit, hrouting, ?_⟩
      split at h
      · next queue hqueue => exact .inl ⟨queue, hqueue, (Option.some.inj h).symm⟩
      · next hnone => exact .inr ⟨hnone, (Option.some.inj h).symm⟩
  · cases h

theorem receive_cases (h : s.receive requestId = some s') : ∃ call vit rest,
    s.evals requestId = some call ∧ s.clientQueues requestId = some (vit :: rest) ∧
    State.Waits call ∧ s' = { s with
      clientQueues := Function.update s.clientQueues requestId (some rest)
      evals := Function.update s.evals requestId (some { call with
        hieResults := call.hieResults.addVit vit
        received := call.received ++ [vit]
        status := if vit.requestId = requestId then .running else .raised }) } := by
  unfold State.receive at h
  split at h
  · next call vit rest hcall hqueue =>
      split at h
      · next hwaits => exact ⟨call, vit, rest, hcall, hqueue, hwaits, (Option.some.inj h).symm⟩
      · cases h
  · cases h

theorem timeout_cases (h : s.timeout requestId = some s') : ∃ call,
    s.evals requestId = some call ∧ State.Waits call ∧ s' = { s with
      clientQueues := Function.update s.clientQueues requestId none
      evals := Function.update s.evals requestId (some { call with status := .raised }) } := by
  unfold State.timeout at h
  split at h
  · next call hcall _ =>
      split at h
      · next hwaits => exact ⟨call, hcall, hwaits, (Option.some.inj h).symm⟩
      · cases h
  · cases h

theorem leave_cases (h : s.leave requestId = some s') : ∃ call,
    s.evals requestId = some call ∧
    (call.status = .running ∧ call.todo = [] ∧ call.received.length = call.num) ∧ s' = { s with
      clientQueues := Function.update s.clientQueues requestId none
      evals := Function.update s.evals requestId (some { call with status := .returned }) } := by
  unfold State.leave at h
  split at h
  · next call hcall =>
      split at h
      · next hdone => exact ⟨call, hcall, hdone, (Option.some.inj h).symm⟩
      · cases h
  · cases h

end Inversion

namespace Tasks

/-- Events that leave the tasks alone. -/
theorem of_eq (h : Tasks visual s) (hrequest : s'.requestQueue = s.requestQueue)
    (hworkers : s'.workers = s.workers) (hqueued : s'.queued = s.queued)
    (hsent : s'.sent = s.sent) : Tasks visual s' := by
  cases s
  cases s'
  simp only at hrequest hworkers hqueued hsent
  subst hrequest hworkers hqueued hsent
  exact ⟨h.queuedDistinct, h.queueDistinct, h.waiting, h.busyQueued, h.busyTaken, h.busyUnsent,
    h.busyApart, h.sentDistinct, h.sentQueued, h.sentTaken, h.genuine, h.stale, h.bound⟩

theorem put (h : Tasks visual s) {task : VitRequest T}
    (hnew : task.key ∉ s.queued.map (·.key)) {evals : Int → Option (Eval T E)} :
    Tasks visual { s with
      requestQueue := s.requestQueue ++ [task], evals, queued := s.queued ++ [task] } := by
  have hother : ∀ old ∈ s.queued, old.key ≠ task.key := fun old hold heq =>
    hnew (heq ▸ List.mem_map_of_mem hold)
  constructor
  case queuedDistinct =>
    simp only [List.map_append, List.map_cons, List.map_nil]
    exact List.nodup_append.mpr ⟨h.queuedDistinct, List.nodup_singleton _, by
      intro a ha b hb heq
      rw [List.mem_singleton] at hb
      exact hnew (hb ▸ heq ▸ ha)⟩
  case queueDistinct =>
    simp only [List.map_append, List.map_cons, List.map_nil]
    exact List.nodup_append.mpr ⟨h.queueDistinct, List.nodup_singleton _, by
      intro a ha b hb heq
      rw [List.mem_singleton] at hb
      obtain ⟨old, hold, rfl⟩ := List.mem_map.mp ha
      exact hother old (h.waiting old hold) (heq.trans hb)⟩
  case waiting =>
    intro old hold
    rcases List.mem_append.mp hold with hin | hin
    · exact List.mem_append_left _ (h.waiting old hin)
    · exact List.mem_append_right _ hin
  case busyQueued =>
    intro w old hbusy
    exact List.mem_append_left _ (h.busyQueued w old hbusy)
  case busyTaken =>
    intro w old hbusy
    simp only [List.map_append, List.map_cons, List.map_nil, List.mem_append,
      List.mem_singleton, not_or]
    exact ⟨h.busyTaken w old hbusy, hother old (h.busyQueued w old hbusy)⟩
  case busyUnsent => exact h.busyUnsent
  case busyApart => exact h.busyApart
  case sentDistinct => exact h.sentDistinct
  case sentQueued =>
    intro message hin
    exact List.mem_append_left _ (h.sentQueued message hin)
  case sentTaken =>
    intro message hin
    simp only [List.map_append, List.map_cons, List.map_nil, List.mem_append,
      List.mem_singleton, not_or]
    exact ⟨h.sentTaken message hin, hother _ (h.sentQueued message hin)⟩
  case genuine => exact h.genuine
  case stale => exact h.stale
  case bound => exact h.bound

theorem begin_eq_busy {now : Nat} {task other : VitRequest T}
    (h : State.begin now task = .busy other) : other = task := by
  unfold State.begin at h
  split at h
  · cases h
  · split at h
    · cases h
    · cases h
      rfl

/-- The state of the workers after `w` has moved on. -/
theorem busy_update {w w' : Fin n} {worker : Worker T E} {task : VitRequest T}
    (h : (Function.update s.workers w worker w').loop = .busy task) :
    (w' = w ∧ worker.loop = .busy task) ∨ (w' ≠ w ∧ (s.workers w').loop = .busy task) := by
  by_cases hw : w' = w
  · subst hw
    rw [Function.update_self] at h
    exact .inl ⟨rfl, h⟩
  · rw [Function.update_of_ne hw] at h
    exact .inr ⟨hw, h⟩

theorem take (h : Tasks visual s) {w : Fin n} {now : Nat} {task : VitRequest T}
    {rest : List (VitRequest T)} (hqueue : s.requestQueue = task :: rest) :
    Tasks visual { s with
      requestQueue := rest
      workers := Function.update s.workers w
        { s.workers w with loop := State.begin now task } } := by
  have hdistinct := h.queueDistinct
  rw [hqueue, List.map_cons, List.nodup_cons] at hdistinct
  have hhead : task ∈ s.requestQueue := hqueue ▸ List.mem_cons_self
  have hsub : ∀ key ∈ rest.map (·.key), key ∈ s.requestQueue.map (·.key) := by
    intro key hkey
    rw [hqueue]
    exact List.mem_cons_of_mem _ hkey
  have hunsent : task.key ∉ s.sent.map (·.task.key) := by
    intro hmem
    obtain ⟨message, hin, heq⟩ := List.mem_map.mp hmem
    exact h.sentTaken message hin (heq ▸ List.mem_map_of_mem hhead)
  constructor
  case queuedDistinct => exact h.queuedDistinct
  case queueDistinct => exact hdistinct.2
  case waiting =>
    intro old hold
    exact h.waiting old (hqueue ▸ List.mem_cons_of_mem _ hold)
  case busyQueued =>
    intro w' other hbusy
    rcases busy_update hbusy with ⟨_, hbegin⟩ | ⟨_, hold⟩
    · rw [begin_eq_busy hbegin]
      exact h.waiting task hhead
    · exact h.busyQueued w' other hold
  case busyTaken =>
    intro w' other hbusy
    rcases busy_update hbusy with ⟨_, hbegin⟩ | ⟨_, hold⟩
    · rw [begin_eq_busy hbegin]
      exact hdistinct.1
    · exact fun hmem => h.busyTaken w' other hold (hsub _ hmem)
  case busyUnsent =>
    intro w' other hbusy
    rcases busy_update hbusy with ⟨_, hbegin⟩ | ⟨_, hold⟩
    · rw [begin_eq_busy hbegin]
      exact hunsent
    · exact h.busyUnsent w' other hold
  case busyApart =>
    intro w₁ w₂ task₁ task₂ hne hbusy₁ hbusy₂
    rcases busy_update hbusy₁ with ⟨rfl, hbegin₁⟩ | ⟨_, hold₁⟩
    · rcases busy_update hbusy₂ with ⟨rfl, _⟩ | ⟨_, hold₂⟩
      · exact absurd rfl hne
      · rw [begin_eq_busy hbegin₁]
        intro heq
        exact h.busyTaken w₂ task₂ hold₂ (heq ▸ List.mem_map_of_mem hhead)
    · rcases busy_update hbusy₂ with ⟨_, hbegin₂⟩ | ⟨_, hold₂⟩
      · rw [begin_eq_busy hbegin₂]
        intro heq
        exact h.busyTaken w₁ task₁ hold₁ (heq ▸ List.mem_map_of_mem hhead)
      · exact h.busyApart w₁ w₂ task₁ task₂ hne hold₁ hold₂
  case sentDistinct => exact h.sentDistinct
  case sentQueued => exact h.sentQueued
  case sentTaken =>
    intro message hin hmem
    exact h.sentTaken message hin (hsub _ hmem)
  case genuine => exact h.genuine
  case stale => exact h.stale
  case bound =>
    intro w' vit hvit
    by_cases hw : w' = w
    · subst hw
      simp only [Function.update_self] at hvit
      exact h.bound w' vit hvit
    · simp only [Function.update_of_ne hw] at hvit
      exact h.bound w' vit hvit

/-- A worker puts a message for its task: the task's own result, or one that
was put before. -/
theorem send (h : Tasks visual s) {w : Fin n} {message : Message T E}
    (hbusy : (s.workers w).loop = .busy message.task)
    (hown : message.failed = false →
      processRequest visual false message.task = some message.result)
    (hstale : message.failed = true →
      ∃ earlier ∈ s.sent, earlier.failed = false ∧ earlier.result = message.result) :
    Tasks visual { s with
      workers := Function.update s.workers w
        { loop := .idle, vitResult := some message.result }
      resultQueue := s.resultQueue ++ [message.result]
      sent := s.sent ++ [message] } := by
  have hunsent := h.busyUnsent w message.task hbusy
  have hidle : ∀ w' task, (Function.update s.workers w
      { loop := .idle, vitResult := some message.result } w').loop = .busy task →
      w' ≠ w ∧ (s.workers w').loop = .busy task := by
    intro w' task hw'
    rcases busy_update hw' with ⟨_, himp⟩ | hold
    · cases himp
    · exact hold
  constructor
  case queuedDistinct => exact h.queuedDistinct
  case queueDistinct => exact h.queueDistinct
  case waiting => exact h.waiting
  case busyQueued => exact fun w' task hw' => h.busyQueued w' task (hidle w' task hw').2
  case busyTaken => exact fun w' task hw' => h.busyTaken w' task (hidle w' task hw').2
  case busyUnsent =>
    intro w' task hw'
    obtain ⟨hne, hold⟩ := hidle w' task hw'
    simp only [List.map_append, List.map_cons, List.map_nil, List.mem_append,
      List.mem_singleton, not_or]
    exact ⟨h.busyUnsent w' task hold, h.busyApart w' w task message.task hne hold hbusy⟩
  case busyApart =>
    intro w₁ w₂ task₁ task₂ hne hw₁ hw₂
    exact h.busyApart w₁ w₂ task₁ task₂ hne (hidle w₁ task₁ hw₁).2 (hidle w₂ task₂ hw₂).2
  case sentDistinct =>
    simp only [List.map_append, List.map_cons, List.map_nil]
    exact List.nodup_append.mpr ⟨h.sentDistinct, List.nodup_singleton _, by
      intro a ha b hb heq
      rw [List.mem_singleton] at hb
      exact hunsent (hb ▸ heq ▸ ha)⟩
  case sentQueued =>
    intro other hin
    rcases List.mem_append.mp hin with hold | hnew
    · exact h.sentQueued other hold
    · rw [List.mem_singleton.mp hnew]
      exact h.busyQueued w message.task hbusy
  case sentTaken =>
    intro other hin
    rcases List.mem_append.mp hin with hold | hnew
    · exact h.sentTaken other hold
    · rw [List.mem_singleton.mp hnew]
      exact h.busyTaken w message.task hbusy
  case genuine =>
    intro other hin hok
    rcases List.mem_append.mp hin with hold | hnew
    · exact h.genuine other hold hok
    · rw [List.mem_singleton.mp hnew] at hok ⊢
      exact hown hok
  case stale =>
    intro other hin hfailed
    rcases List.mem_append.mp hin with hold | hnew
    · obtain ⟨earlier, hearlier, hrest⟩ := h.stale other hold hfailed
      exact ⟨earlier, List.mem_append_left _ hearlier, hrest⟩
    · rw [List.mem_singleton.mp hnew] at hfailed ⊢
      obtain ⟨earlier, hearlier, hok, hresult⟩ := hstale hfailed
      refine ⟨earlier, List.mem_append_left _ hearlier, hok, hresult, ?_⟩
      intro heq
      exact hunsent (List.mem_map.mpr ⟨earlier, hearlier, heq⟩)
  case bound =>
    intro w' vit hvit
    by_cases hw : w' = w
    · subst hw
      simp only [Function.update_self, Option.some.injEq] at hvit
      subst hvit
      cases hfailed : message.failed with
      | false => exact ⟨message, List.mem_append_right _ (List.mem_singleton_self _), hfailed, rfl⟩
      | true =>
          obtain ⟨earlier, hearlier, hok, hresult⟩ := hstale hfailed
          exact ⟨earlier, List.mem_append_left _ hearlier, hok, hresult⟩
    · simp only [Function.update_of_ne hw] at hvit
      obtain ⟨other, hin, hok, hresult⟩ := h.bound w' vit hvit
      exact ⟨other, List.mem_append_left _ hin, hok, hresult⟩

theorem die (h : Tasks visual s) {w : Fin n} : Tasks visual { s with
    workers := Function.update s.workers w { loop := .ended, vitResult := none } } := by
  have hother : ∀ w' task, (Function.update s.workers w
      { loop := .ended, vitResult := none } w').loop = .busy task →
      (s.workers w').loop = .busy task := by
    intro w' task hw'
    rcases busy_update hw' with ⟨_, himp⟩ | ⟨_, hold⟩
    · cases himp
    · exact hold
  constructor
  case queuedDistinct => exact h.queuedDistinct
  case queueDistinct => exact h.queueDistinct
  case waiting => exact h.waiting
  case busyQueued => exact fun w' task hw' => h.busyQueued w' task (hother w' task hw')
  case busyTaken => exact fun w' task hw' => h.busyTaken w' task (hother w' task hw')
  case busyUnsent => exact fun w' task hw' => h.busyUnsent w' task (hother w' task hw')
  case busyApart =>
    intro w₁ w₂ task₁ task₂ hne hw₁ hw₂
    exact h.busyApart w₁ w₂ task₁ task₂ hne (hother w₁ task₁ hw₁) (hother w₂ task₂ hw₂)
  case sentDistinct => exact h.sentDistinct
  case sentQueued => exact h.sentQueued
  case sentTaken => exact h.sentTaken
  case genuine => exact h.genuine
  case stale => exact h.stale
  case bound =>
    intro w' vit hvit
    by_cases hw : w' = w
    · subst hw
      simp at hvit
    · simp only [Function.update_of_ne hw] at hvit
      exact h.bound w' vit hvit

end Tasks

end DashInfer.Vision
