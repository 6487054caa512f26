import DashInfer.Lib.Fallible
import DashInfer.Vision.DeliveryStep

/-!
The results of a call on their way, event by event, and what every run keeps.
-/

namespace DashInfer.Vision

open Lib

variable {n : Nat} {T E : Type} {visual : T → Grid → E} {s s' : State n T E}

namespace CallMail

variable {requestId : Int} {call : Eval T E}

/-- Events that touch neither the call nor what is under way to it. -/
theorem of_eq (h : CallMail s requestId call)
    (hqueued : s'.queued.filter (fun task => task.requestId = requestId) =
      s.queued.filter (fun task => task.requestId = requestId))
    (hqueue : call.status = .running → s'.clientQueues requestId = s.clientQueues requestId)
    (hway : call.status = .running →
      ofRequest requestId s'.router.held ++ ofRequest requestId s'.resultQueue =
        ofRequest requestId s.router.held ++ ofRequest requestId s.resultQueue)
    (hsent : s'.sent = s.sent) : CallMail s' requestId call where
  tasks := by
    rw [hqueued]
    exact h.tasks
  running := by
    intro hrunning
    obtain ⟨queue, hcall, hmail⟩ := h.running hrunning
    refine ⟨queue, (hqueue hrunning).trans hcall, ?_⟩
    rw [List.append_assoc, hway hrunning, ← List.append_assoc, hsent]
    exact hmail
  received := by
    rw [hsent]
    exact h.received
  returned := h.returned
  group := h.group
  requestId := h.requestId

theorem send (h : CallMail s requestId call) {message : Message T E}
    {workers : Fin n → Worker T E} :
    CallMail { s with workers,
                      resultQueue := s.resultQueue ++ [message.result]
                      sent := s.sent ++ [message] } requestId call where
  tasks := h.tasks
  running := by
    intro hrunning
    obtain ⟨queue, hcall, hmail⟩ := h.running hrunning
    refine ⟨queue, hcall, ?_⟩
    simp only [List.map_append, List.map_cons, List.map_nil, ofRequest_append]
    rw [← List.append_assoc, hmail]
  received := by
    simp only [List.map_append, ofRequest_append]
    exact h.received.trans (List.prefix_append _ _)
  returned := h.returned
  group := h.group
  requestId := h.requestId

/-- The next image of the call is queued. -/
theorem put (h : CallMail s requestId call) {now i : Nat} {image : VitInput T}
    {rest : List (Nat × VitInput T)} (htodo : call.todo = (i, image) :: rest)
    {requestQueue : List (VitRequest T)} {evals : Int → Option (Eval T E)} :
    CallMail { s with requestQueue, evals,
                      queued := s.queued ++ [State.taskOf requestId call now i image] }
      requestId { call with todo := rest } where
  tasks := by
    obtain ⟨done, hvalid, hdone⟩ := h.tasks
    refine ⟨done ++ [(i, image)], ?_, ?_⟩
    · simp only
      rw [hvalid, htodo, List.append_assoc, List.singleton_append]
    · rw [List.filter_append]
      have hone : [State.taskOf requestId call now i image].filter
          (fun task => task.requestId = requestId) =
          [State.taskOf requestId call now i image] := by
        simp [State.taskOf]
      rw [hone]
      exact List.rel_append hdone (List.Forall₂.cons ⟨now, rfl⟩ List.Forall₂.nil)
  running := h.running
  received := h.received
  returned := by
    intro hreturned
    have := (h.returned hreturned).1
    rw [htodo] at this
    cases this
  group := h.group
  requestId := h.requestId

/-- The call takes a result out of its queue. -/
theorem receive (h : CallMail s requestId call) {vit : Vit E} {rest : List (Vit E)}
    (hqueue : s.clientQueues requestId = some (vit :: rest)) (hwaits : State.Waits call)
    {status : EvalStatus} (hstatus : status ≠ .returned)
    {evals : Int → Option (Eval T E)} :
    CallMail { s with
      clientQueues := Function.update s.clientQueues requestId (some rest)
      evals } requestId { call with
        hieResults := call.hieResults.addVit vit
        received := call.received ++ [vit]
        status } := by
  obtain ⟨queue, hcall, hmail⟩ := h.running hwaits.1
  rw [hqueue] at hcall
  cases hcall
  have hmail' : call.received ++ [vit] ++ rest ++ ofRequest requestId s.router.held ++
      ofRequest requestId s.resultQueue = ofRequest requestId (s.sent.map (·.result)) := by
    rw [← hmail]
    simp
  constructor
  case tasks => exact h.tasks
  case running =>
    intro _
    exact ⟨rest, by simp, hmail'⟩
  case received =>
    simp only
    rw [← hmail', List.append_assoc, List.append_assoc]
    exact List.prefix_append _ _
  case returned => exact fun hreturned => absurd hreturned hstatus
  case group =>
    simp only [VitGroup.addVit, List.foldl_append, List.foldl_cons, List.foldl_nil]
    rw [h.group]
  case requestId => exact h.requestId

/-- The call ends, one way or the other. -/
theorem close (h : CallMail s requestId call) {status : EvalStatus}
    (hstatus : status ≠ .running)
    (hreturned : status = .returned → call.todo = [] ∧ call.received.length = call.num)
    {clientQueues : Int → Option (List (Vit E))} {evals : Int → Option (Eval T E)} :
    CallMail { s with clientQueues, evals } requestId { call with status } where
  tasks := h.tasks
  running := fun hrunning => absurd hrunning hstatus
  received := h.received
  returned := hreturned
  group := h.group
  requestId := h.requestId

end CallMail

namespace Mail

/-- The image that is queued next has not been queued before. -/
theorem key_new (h : Mail s) {requestId : Int} {call : Eval T E} {now i : Nat}
    {image : VitInput T} {rest : List (Nat × VitInput T)}
    (hcall : s.evals requestId = some call) (htodo : call.todo = (i, image) :: rest) :
    (State.taskOf requestId call now i image).key ∉ s.queued.map (·.key) := by
  obtain ⟨done, hvalid, hdone⟩ := (h.calls requestId call hcall).tasks
  intro hmem
  obtain ⟨old, hold, heq⟩ := List.mem_map.mp hmem
  have hrequest : old.requestId = requestId := congrArg Prod.fst heq
  have hplace : old.vitId = i := congrArg Prod.snd heq
  have hin : old ∈ s.queued.filter (fun task => task.requestId = requestId) := by
    simp [hold, hrequest]
  obtain ⟨entry, hentry, time, htask⟩ := exists_right_of_forall₂ hdone hin
  have hi : entry.1 = i := by
    rw [htask] at hplace
    exact Int.ofNat_inj.mp hplace
  have hnodup := nodup_validImages 0 call.images
  rw [hvalid, htodo, List.map_append, List.nodup_append] at hnodup
  exact hnodup.2.2 entry.1 (List.mem_map_of_mem hentry) i (by simp) hi

theorem eval (h : Mail s) {hieResults : VitGroup E} {images : List (Option (VitInput T))}
    {gridThw : Option (List (Option (List Int)))} (hnew : s.evals hieResults.requestId = none) :
    Mail { s with
      clientQueues := Function.update s.clientQueues hieResults.requestId (some [])
      evals := Function.update s.evals hieResults.requestId (some {
        images, gridThw, found := hieResults, todo := validImages 0 images, hieResults,
        received := [], status := .running }) } := by
  obtain ⟨before, htransit⟩ := h.transit
  have hknown : ∀ id, s.evals id ≠ none → Function.update s.evals hieResults.requestId (some {
      images, gridThw, found := hieResults, todo := validImages 0 images, hieResults,
      received := [], status := .running }) id ≠ none := by
    intro id hid
    by_cases heq : id = hieResults.requestId
    · rw [heq, Function.update_self]
      simp
    · rwa [Function.update_of_ne heq]
  have hnothing : ∀ vit ∈ s.sent.map (·.result), vit.requestId ≠ hieResults.requestId := by
    intro vit hvit heq
    obtain ⟨message, hin, rfl⟩ := List.mem_map.mp hvit
    exact h.answered message hin (heq ▸ hnew)
  constructor
  case transit => exact ⟨before, htransit⟩
  case known => exact fun task hin => hknown _ (h.known task hin)
  case answered => exact fun message hin => hknown _ (h.answered message hin)
  case calls =>
    intro id call hcall
    by_cases heq : id = hieResults.requestId
    · subst heq
      simp only [Function.update_self] at hcall
      cases hcall
      have hqueued : s.queued.filter (fun task => task.requestId = hieResults.requestId) = [] := by
        rw [List.filter_eq_nil_iff]
        intro task hin hid
        exact h.known task hin (by simpa [of_decide_eq_true hid] using hnew)
      constructor
      case tasks =>
        refine ⟨[], rfl, ?_⟩
        simp only
        rw [hqueued]
        exact List.Forall₂.nil
      case running =>
        intro _
        refine ⟨[], by simp, ?_⟩
        have hsent := ofRequest_eq_nil hnothing
        have hparts := hsent
        rw [htransit, ofRequest_append, ofRequest_append, List.append_eq_nil_iff,
          List.append_eq_nil_iff] at hparts
        simp only [hparts.1.2, hparts.2, hsent, List.append_nil]
      case received => exact List.nil_prefix
      case returned => exact fun himp => by cases himp
      case group => rfl
      case requestId => rfl
    · simp only [Function.update_of_ne heq] at hcall
      exact (h.calls id call hcall).of_eq rfl (fun _ => by simp [heq]) (fun _ => rfl) rfl

theorem put (h : Mail s) {requestId : Int} {call : Eval T E} {now i : Nat} {image : VitInput T}
    {rest : List (Nat × VitInput T)} (hcall : s.evals requestId = some call)
    (htodo : call.todo = (i, image) :: rest) :
    Mail { s with
      requestQueue := s.requestQueue ++ [State.taskOf requestId call now i image]
      evals := Function.update s.evals requestId (some { call with todo := rest })
      queued := s.queued ++ [State.taskOf requestId call now i image] } := by
  have hknown : ∀ id, s.evals id ≠ none → Function.update s.evals requestId
      (some { call with todo := rest }) id ≠ none := by
    intro id hid
    by_cases heq : id = requestId
    · rw [heq, Function.update_self]
      simp
    · rwa [Function.update_of_ne heq]
  constructor
  case transit => exact h.transit
  case known =>
    intro task hin
    rcases List.mem_append.mp hin with hold | hnew
    · exact hknown _ (h.known task hold)
    · rw [List.mem_singleton.mp hnew]
      simp [State.taskOf]
  case answered => exact fun message hin => hknown _ (h.answered message hin)
  case calls =>
    intro id other hother
    by_cases heq : id = requestId
    · subst heq
      simp only [Function.update_self] at hother
      cases hother
      exact (h.calls id call hcall).put htodo
    · simp only [Function.update_of_ne heq] at hother
      refine (h.calls id other hother).of_eq ?_ (fun _ => rfl) (fun _ => rfl) rfl
      simp only [List.filter_append]
      simp [State.taskOf, Ne.symm heq]

theorem send (h : Mail s) {message : Message T E} {workers : Fin n → Worker T E}
    (hknown : s.evals message.result.requestId ≠ none) :
    Mail { s with workers,
                  resultQueue := s.resultQueue ++ [message.result]
                  sent := s.sent ++ [message] } where
  transit := by
    obtain ⟨before, htransit⟩ := h.transit
    refine ⟨before, ?_⟩
    simp only [List.map_append, List.map_cons, List.map_nil]
    rw [htransit, List.append_assoc]
  known := h.known
  answered := by
    intro other hin
    rcases List.mem_append.mp hin with hold | hnew
    · exact h.answered other hold
    · rw [List.mem_singleton.mp hnew]
      exact hknown
  calls := fun id call hcall => (h.calls id call hcall).send

/-- Events of a worker that put no message. -/
theorem work (h : Mail s) {requestQueue : List (VitRequest T)} {workers : Fin n → Worker T E} :
    Mail { s with requestQueue, workers } where
  transit := h.transit
  known := h.known
  answered := h.answered
  calls := fun id call hcall =>
    (h.calls id call hcall).of_eq rfl (fun _ => rfl) (fun _ => rfl) rfl

theorem route (h : Mail s) {vit : Vit E} {rest : List (Vit E)} (hidle : s.router = .idle)
    (hqueue : s.resultQueue = vit :: rest) :
    Mail { s with
      resultQueue := rest
      router := if (s.clientQueues vit.requestId).isSome then .routing vit else .idle } := by
  obtain ⟨before, htransit⟩ := h.transit
  rw [hidle, hqueue, Router.held_idle, List.append_nil] at htransit
  constructor
  case transit =>
    split
    · exact ⟨before, by simpa using htransit⟩
    · exact ⟨before ++ [vit], by simpa using htransit⟩
  case known => exact h.known
  case answered => exact h.answered
  case calls =>
    intro id call hcall
    refine (h.calls id call hcall).of_eq rfl (fun _ => rfl) ?_ rfl
    intro hrunning
    obtain ⟨queue, hsome, _⟩ := (h.calls id call hcall).running hrunning
    simp only [hidle, hqueue, Router.held_idle, ofRequest_nil, List.nil_append]
    cases hroute : s.clientQueues vit.requestId with
    | some other =>
        simp only [Option.isSome_some, if_true, Router.held_routing]
        rw [← ofRequest_append, List.singleton_append]
    | none =>
        have hne : vit.requestId ≠ id := by
          intro heq
          rw [heq, hsome] at hroute
          cases hroute
        simp [ofRequest_cons_other hne]

theorem handOver (h : Mail s) {vit : Vit E} {queue : List (Vit E)}
    (hrouting : s.router = .routing vit) (hqueue : s.clientQueues vit.requestId = some queue) :
    Mail { s with
      router := .idle
      clientQueues := Function.update s.clientQueues vit.requestId (some (queue ++ [vit])) } := by
  obtain ⟨before, htransit⟩ := h.transit
  rw [hrouting, Router.held_routing] at htransit
  constructor
  case transit => exact ⟨before ++ [vit], by simpa using htransit⟩
  case known => exact h.known
  case answered => exact h.answered
  case calls =>
    intro id call hcall
    have hold := h.calls id call hcall
    by_cases heq : vit.requestId = id
    · subst heq
      constructor
      case tasks => exact hold.tasks
      case running =>
        intro hrunning
        obtain ⟨old, hsome, hmail⟩ := hold.running hrunning
        rw [hqueue] at hsome
        cases hsome
        refine ⟨queue ++ [vit], by simp, ?_⟩
        rw [← hmail, hrouting]
        simp [ofRequest_cons_self rfl]
      case received => exact hold.received
      case returned => exact hold.returned
      case group => exact hold.group
      case requestId => exact hold.requestId
    · refine hold.of_eq rfl (fun _ => by simp [Ne.symm heq]) (fun _ => ?_) rfl
      simp [hrouting, ofRequest_cons_other heq]

/-- The queue has gone between the test and the `put`: only calls that have
ended lose a result. -/
theorem routerDies (h : Mail s) {vit : Vit E} (hrouting : s.router = .routing vit)
    (hqueue : s.clientQueues vit.requestId = none) : Mail { s with router := .ended } := by
  obtain ⟨before, htransit⟩ := h.transit
  rw [hrouting, Router.held_routing] at htransit
  constructor
  case transit => exact ⟨before ++ [vit], by simpa using htransit⟩
  case known => exact h.known
  case answered => exact h.answered
  case calls =>
    intro id call hcall
    refine (h.calls id call hcall).of_eq rfl (fun _ => rfl) ?_ rfl
    intro hrunning
    obtain ⟨queue, hsome, _⟩ := (h.calls id call hcall).running hrunning
    have hne : vit.requestId ≠ id := by
      intro heq
      rw [heq, hsome] at hqueue
      cases hqueue
    simp [hrouting, ofRequest_cons_other hne]

/-- A call changes itself and its own queue. -/
theorem callStep (h : Mail s) {requestId : Int} {call call' : Eval T E}
    {queue : Option (List (Vit E))} (hcall : s.evals requestId = some call)
    (hnext : CallMail s requestId call → CallMail { s with
      clientQueues := Function.update s.clientQueues requestId queue
      evals := Function.update s.evals requestId (some call') } requestId call') :
    Mail { s with
      clientQueues := Function.update s.clientQueues requestId queue
      evals := Function.update s.evals requestId (some call') } := by
  have hknown : ∀ id, s.evals id ≠ none →
      Function.update s.evals requestId (some call') id ≠ none := by
    intro id hid
    by_cases heq : id = requestId
    · rw [heq, Function.update_self]
      simp
    · rwa [Function.update_of_ne heq]
  constructor
  case transit => exact h.transit
  case known => exact fun task hin => hknown _ (h.known task hin)
  case answered => exact fun message hin => hknown _ (h.answered message hin)
  case calls =>
    intro id other hother
    by_cases heq : id = requestId
    · subst heq
      simp only [Function.update_self] at hother
      cases hother
      exact hnext (h.calls id call hcall)
    · simp only [Function.update_of_ne heq] at hother
      exact (h.calls id other hother).of_eq rfl (fun _ => by simp [heq]) (fun _ => rfl) rfl

end Mail

/-- What every run keeps. -/
structure Delivered (visual : T → Grid → E) (s : State n T E) : Prop where
  tasks : Tasks visual s
  mail : Mail s

theorem Delivered.init : Delivered visual (State.init n T E) := ⟨Tasks.init, Mail.init⟩

theorem Delivered.finish (h : Delivered visual s) {w : Fin n} {raises : Bool}
    (hstep : s.finish visual w raises = some s') : Delivered visual s' := by
  obtain ⟨task, hbusy, hcases⟩ := finish_cases hstep
  have hknown := h.mail.known task (h.tasks.busyQueued w task hbusy)
  rcases hcases with ⟨vit, hvit, rfl⟩ | ⟨_, vit, hlast, rfl⟩ | ⟨_, _, rfl⟩
  · have hid : vit.requestId = task.requestId :=
      congrArg Prod.fst (key_of_processRequest hvit)
    constructor
    · exact @Tasks.send n T E visual s h.tasks w { task, failed := false, result := vit } hbusy
        (fun _ => processRequest_false hvit) (fun himp => by cases himp)
    · exact @Mail.send n T E s h.mail { task, failed := false, result := vit } _ (hid ▸ hknown)
  · obtain ⟨earlier, hin, hok, hresult⟩ := h.tasks.bound w vit hlast
    constructor
    · exact @Tasks.send n T E visual s h.tasks w { task, failed := true, result := vit } hbusy
        (fun himp => by cases himp) (fun _ => ⟨earlier, hin, hok, hresult⟩)
    · exact @Mail.send n T E s h.mail { task, failed := true, result := vit } _
        (hresult ▸ h.mail.answered earlier hin)
  · exact ⟨h.tasks.die, h.mail.work⟩

theorem Delivered.step (h : Delivered visual s) {event : Event n T E}
    (hstep : step visual s event = some s') : Delivered visual s' := by
  cases event with
  | eval hieResults images gridThw =>
      obtain ⟨hnew, rfl⟩ := eval_cases hstep
      exact ⟨h.tasks.of_eq rfl rfl rfl rfl, h.mail.eval hnew⟩
  | put requestId now =>
      obtain ⟨call, i, image, rest, hcall, htodo, rfl⟩ := put_cases hstep
      exact ⟨h.tasks.put (h.mail.key_new hcall htodo), h.mail.put hcall htodo⟩
  | take w now =>
      obtain ⟨task, rest, _, hqueue, rfl⟩ := take_cases hstep
      exact ⟨h.tasks.take hqueue, h.mail.work⟩
  | finish w raises => exact h.finish hstep
  | route =>
      obtain ⟨vit, rest, hidle, hqueue, rfl⟩ := route_cases hstep
      exact ⟨h.tasks.of_eq rfl rfl rfl rfl, h.mail.route hidle hqueue⟩
  | handOver =>
      obtain ⟨vit, hrouting, ⟨queue, hqueue, rfl⟩ | ⟨hqueue, rfl⟩⟩ := handOver_cases hstep
      · exact ⟨h.tasks.of_eq rfl rfl rfl rfl, h.mail.handOver hrouting hqueue⟩
      · exact ⟨h.tasks.of_eq rfl rfl rfl rfl, h.mail.routerDies hrouting hqueue⟩
  | receive requestId =>
      obtain ⟨call, vit, rest, hcall, hqueue, hwaits, rfl⟩ := receive_cases hstep
      refine ⟨h.tasks.of_eq rfl rfl rfl rfl, h.mail.callStep hcall ?_⟩
      intro hmail
      exact hmail.receive hqueue hwaits (by split <;> simp)
  | timeout requestId =>
      obtain ⟨call, hcall, _, rfl⟩ := timeout_cases hstep
      refine ⟨h.tasks.of_eq rfl rfl rfl rfl, h.mail.callStep hcall ?_⟩
      intro hmail
      exact hmail.close (by simp) (by simp)
  | leave requestId =>
      obtain ⟨call, hcall, hdone, rfl⟩ := leave_cases hstep
      refine ⟨h.tasks.of_eq rfl rfl rfl rfl, h.mail.callStep hcall ?_⟩
      intro hmail
      exact hmail.close (by simp) (fun _ => hdone.2)

theorem Delivered.exec (h : Delivered visual s) {events : List (Event n T E)}
    (hrun : exec visual s events = some s') : Delivered visual s' := by
  induction events generalizing s with
  | nil =>
      cases hrun
      exact h
  | cons event rest ih =>
      obtain ⟨next, hstep, hrest⟩ := Option.bind_eq_some_iff.mp hrun
      exact ih (h.step hstep) hrest

/-- A task of a call is one of its images. -/
theorem mem_validImages_of_queued (h : Delivered visual s) {requestId : Int} {call : Eval T E}
    (hcall : s.evals requestId = some call) {task : VitRequest T} (hqueued : task ∈ s.queued)
    (hrequest : task.requestId = requestId) : ∃ entry ∈ validImages 0 call.images,
      ∃ now, task = State.taskOf requestId call now entry.1 entry.2 := by
  obtain ⟨done, hvalid, hdone⟩ := (h.mail.calls requestId call hcall).tasks
  have hin : task ∈ s.queued.filter (fun task => task.requestId = requestId) := by
    simp [hqueued, hrequest]
  obtain ⟨entry, hentry, now, htask⟩ := exists_right_of_forall₂ hdone hin
  exact ⟨entry, hvalid ▸ List.mem_append_left _ hentry, now, htask⟩

end DashInfer.Vision
