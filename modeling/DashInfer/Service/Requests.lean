import Mathlib.Data.List.OfFn
import Mathlib.Data.Fin.Basic
import Mathlib.Logic.Function.Basic

/-!
Requests of the multi-process engine. The client sends every call to all ranks;
each rank has its own table from uuids to the handles of its own engine. A call
is answered per rank, and the transport may lose the request or the reply.
Requests are named by the `StartRequest` call that made them. What the engines
and the transport do is input of a step.
-/

namespace DashInfer.Service

variable {n : Nat}

abbrev Uuid := String
abbrev CallId := Nat

/-- `AS_STATUS` of the protocol. -/
inductive AsStatus where
  | success
  | unknownError
  | paramError
  | ioError
  | memoryError
  | runtimeError
  | exceedLimitError
  | invalidCallError
  | emptyRequest
  | illegalRequestId
  | cacheMemoryOut
  | requestDenied
  | streaming
deriving DecidableEq

/-- The response of the request calls. Fields nobody sets read as success and
the empty string. -/
structure Response where
  asStatus : AsStatus
  uuid : Uuid

def Response.unset : Response := { asStatus := .success, uuid := "" }

/-- One service process: `RequestManager`, and the requests its engine has. -/
structure Rank where
  requestMap : Uuid → Option CallId
  held : List CallId

namespace Rank

def empty : Rank := { requestMap := fun _ => none, held := [] }

/-- `AllSparkServiceImpl::StartRequest`, with the status of the engine's own
`StartRequest`. `addRequest` overwrites what the key had. -/
def startRequest (r : Rank) (uuid : Uuid) (call : CallId) (engine : AsStatus) :
    Rank × Response :=
  if engine = .success then
    ({ requestMap := Function.update r.requestMap uuid (some call), held := call :: r.held },
      { asStatus := engine, uuid })
  else (r, { asStatus := engine, uuid })

def stopRequest (r : Rank) (uuid : Uuid) (engine : AsStatus) : Rank × Response :=
  match r.requestMap uuid with
  | none => (r, Response.unset)
  | some _ => (r, { asStatus := engine, uuid })

/-- `ReleaseRequest`. The entry goes whatever the engine says; `released` tells
whether the engine let the request go. -/
def releaseRequest (r : Rank) (uuid : Uuid) (released : Bool) (engine : AsStatus) :
    Rank × Response :=
  match r.requestMap uuid with
  | none => (r, Response.unset)
  | some call =>
      ({ requestMap := Function.update r.requestMap uuid none
         held := if released then r.held.filter (· ≠ call) else r.held },
        { asStatus := engine, uuid })

end Rank

/-- What the transport does with one call. -/
inductive Delivery where
  | requestLost
  | replyLost
  | delivered
deriving DecidableEq

/-- `CALL_RPC_FUNC`: a call that does not come back reads as an unknown error. -/
def callRpc (r : Rank) (delivery : Delivery) (handler : Rank → Rank × Response) :
    Rank × Response :=
  match delivery with
  | .requestLost => (r, { Response.unset with asStatus := .unknownError })
  | .replyLost => ((handler r).1, { Response.unset with asStatus := .unknownError })
  | .delivered => handler r

structure StartOutcome where
  delivery : Delivery
  engine : AsStatus
deriving DecidableEq

structure ReleaseOutcome where
  delivery : Delivery
  released : Bool
  engine : AsStatus
deriving DecidableEq

/-- The rank's engine takes the request. -/
def StartOutcome.Started (o : StartOutcome) : Prop :=
  o.delivery ≠ .requestLost ∧ o.engine = .success

/-- `AS_CLIENT_CHECK_STATUS`: the first status that is not success. -/
def checkStatus (responses : Fin n → Response) : AsStatus :=
  ((List.ofFn (fun i => (responses i).asStatus)).find? (· ≠ .success)).getD .success

theorem checkStatus_success {responses : Fin n → Response} :
    checkStatus responses = .success ↔ ∀ i, (responses i).asStatus = .success := by
  unfold checkStatus
  cases hfind : (List.ofFn (fun i => (responses i).asStatus)).find? (· ≠ .success) with
  | none =>
      rw [List.find?_eq_none] at hfind
      simpa using hfind
  | some status =>
      have hne := List.find?_some hfind
      have hmem := List.mem_of_find?_eq_some hfind
      obtain ⟨i, rfl⟩ := List.mem_ofFn.mp hmem
      simp only [Option.getD_some]
      exact ⟨fun h => absurd h (by simpa using hne), fun h => h i⟩

/-- The client with all its ranks. `requestMap` is the client's own table;
`uuidOf` and `handles` record the calls made and the handles given out. -/
structure State (n : Nat) where
  ranks : Fin n → Rank
  requestMap : Uuid → Option CallId
  nextCall : CallId
  uuidOf : CallId → Uuid
  handles : List CallId

def State.init (n : Nat) : State n :=
  { ranks := fun _ => Rank.empty, requestMap := fun _ => none, nextCall := 0,
    uuidOf := fun _ => "", handles := [] }

/-- `GenerateConfig`'s own `user_request_id`. -/
def defaultUserRequestId : Uuid := "Default-User-UUID"

/-- The id the request goes under; `newUuid` is what `GenNewUUID` returns. -/
def chooseUuid (userRequestId newUuid : Uuid) : Uuid :=
  if userRequestId = defaultUserRequestId then newUuid else userRequestId

namespace State

variable (s : State n)

/-- The start branch of `CallRequestOperation`. -/
def startRequest (userRequestId newUuid : Uuid) (outcomes : Fin n → StartOutcome) :
    State n × AsStatus :=
  let uuid := chooseUuid userRequestId newUuid
  let results := fun i => callRpc (s.ranks i) (outcomes i).delivery
    (fun r => r.startRequest uuid s.nextCall (outcomes i).engine)
  let status := checkStatus (fun i => (results i).2)
  let success := status = .success
  ({ ranks := fun i => (results i).1
     requestMap :=
       if success then Function.update s.requestMap uuid (some s.nextCall) else s.requestMap
     nextCall := s.nextCall + 1
     uuidOf := Function.update s.uuidOf s.nextCall uuid
     handles := if success then s.nextCall :: s.handles else s.handles }, status)

/-- The stop branch. -/
def stopRequest (call : CallId) (outcomes : Fin n → StartOutcome) : State n × AsStatus :=
  let results := fun i => callRpc (s.ranks i) (outcomes i).delivery
    (fun r => r.stopRequest (s.uuidOf call) (outcomes i).engine)
  ({ s with ranks := fun i => (results i).1 }, checkStatus (fun i => (results i).2))

/-- The release branch. -/
def releaseRequest (call : CallId) (outcomes : Fin n → ReleaseOutcome) : State n × AsStatus :=
  let uuid := s.uuidOf call
  let results := fun i => callRpc (s.ranks i) (outcomes i).delivery
    (fun r => r.releaseRequest uuid (outcomes i).released (outcomes i).engine)
  let status := checkStatus (fun i => (results i).2)
  ({ s with
     ranks := fun i => (results i).1
     requestMap :=
       if status = .success then Function.update s.requestMap uuid none else s.requestMap },
    status)

end State

/-- A call of the client, with what the ranks and the transport make of it. -/
inductive Action (n : Nat) where
  | start (userRequestId newUuid : Uuid) (outcomes : Fin n → StartOutcome)
  | stop (call : CallId) (outcomes : Fin n → StartOutcome)
  | release (call : CallId) (outcomes : Fin n → ReleaseOutcome)

/-- Handles are passed back only if they were given out. -/
inductive Step (s : State n) : Action n → State n → AsStatus → Prop
  | start (userRequestId newUuid : Uuid) (outcomes : Fin n → StartOutcome) :
      Step s (.start userRequestId newUuid outcomes)
        (s.startRequest userRequestId newUuid outcomes).1
        (s.startRequest userRequestId newUuid outcomes).2
  | stop {call : CallId} (outcomes : Fin n → StartOutcome) (h : call ∈ s.handles) :
      Step s (.stop call outcomes) (s.stopRequest call outcomes).1 (s.stopRequest call outcomes).2
  | release {call : CallId} (outcomes : Fin n → ReleaseOutcome) (h : call ∈ s.handles) :
      Step s (.release call outcomes) (s.releaseRequest call outcomes).1
        (s.releaseRequest call outcomes).2

/-- The states reached by steps that meet `ok`. -/
inductive Reaches (ok : State n → Action n → Prop) : State n → Prop
  | init : Reaches ok (State.init n)
  | step {s s' : State n} {action : Action n} {status : AsStatus} (h : Reaches ok s)
      (hok : ok s action) (hstep : Step s action s' status) : Reaches ok s'

/-- A rank has the request of a call and finds it under the call's uuid. -/
def State.Finds (s : State n) (i : Fin n) (call : CallId) : Prop :=
  call ∈ (s.ranks i).held ∧ (s.ranks i).requestMap (s.uuidOf call) = some call

/-- A rank has the request of a call, in its engine or in its table. -/
def State.Holds (s : State n) (i : Fin n) (call : CallId) : Prop :=
  call ∈ (s.ranks i).held ∨ ∃ uuid, (s.ranks i).requestMap uuid = some call

/-- What a call promises. A start that succeeds is found on every rank, one that
fails is held by none, and no start hides another request; a release that
succeeds leaves the request on no rank. -/
def Promise (s : State n) (s' : State n) (status : AsStatus) : Action n → Prop
  | .start .. =>
      (status = .success → ∀ i, s'.Finds i s.nextCall) ∧
        (status ≠ .success → ∀ i, ¬ s'.Holds i s.nextCall) ∧
        ∀ i call, s.Finds i call → s'.Finds i call
  | .stop .. => True
  | .release call _ => status = .success → ∀ i, ¬ s'.Holds i call

/-- Either all ranks answer that they started the request or none starts it, and
the uuid is not that of a request such a rank has; and an engine that is asked
to release a request lets it go. -/
def Admissible (s : State n) : Action n → Prop
  | .start userRequestId newUuid outcomes =>
      ((∀ i, outcomes i = { delivery := .delivered, engine := .success }) ∨
          ∀ i, ¬ (outcomes i).Started) ∧
        ∀ i, (outcomes i).Started → ∀ call ∈ (s.ranks i).held,
          s.uuidOf call ≠ chooseUuid userRequestId newUuid
  | .stop .. => True
  | .release call outcomes =>
      ∀ i, (outcomes i).delivery ≠ .requestLost →
        (s.ranks i).requestMap (s.uuidOf call) ≠ none → (outcomes i).released = true

instance (o : StartOutcome) : Decidable o.Started :=
  inferInstanceAs (Decidable (_ ∧ _))

section Start

variable (s : State n) (userRequestId newUuid : Uuid) (outcomes : Fin n → StartOutcome)

/-- A rank after a start: changed exactly if its engine took the request. -/
theorem startRequest_rank (i : Fin n) :
    (s.startRequest userRequestId newUuid outcomes).1.ranks i =
      if (outcomes i).Started then
        { requestMap := Function.update (s.ranks i).requestMap
            (chooseUuid userRequestId newUuid) (some s.nextCall)
          held := s.nextCall :: (s.ranks i).held }
      else s.ranks i := by
  simp only [State.startRequest]
  rcases outcomes i with ⟨delivery, engine⟩
  unfold callRpc Rank.startRequest StartOutcome.Started
  cases delivery <;> simp only [ne_eq, not_true_eq_false, false_and, if_false, reduceCtorEq,
    not_false_eq_true, true_and] <;> split <;> rfl

theorem startRequest_status :
    (s.startRequest userRequestId newUuid outcomes).2 = .success ↔
      ∀ i, outcomes i = { delivery := .delivered, engine := .success } := by
  simp only [State.startRequest]
  rw [checkStatus_success]
  apply forall_congr'
  intro i
  rcases outcomes i with ⟨delivery, engine⟩
  unfold callRpc Rank.startRequest
  cases delivery with
  | requestLost => simp
  | replyLost => simp
  | delivered =>
      by_cases hengine : engine = .success <;> simp [hengine]

theorem startRequest_uuidOf (call : CallId) :
    (s.startRequest userRequestId newUuid outcomes).1.uuidOf call =
      if call = s.nextCall then chooseUuid userRequestId newUuid else s.uuidOf call := by
  simp only [State.startRequest, Function.update_apply]

end Start

/-- Every request that a rank has is found under its uuid, and a table's entries
are of calls made under that uuid. -/
structure Consistent (s : State n) : Prop where
  finds : ∀ i, ∀ call ∈ (s.ranks i).held, (s.ranks i).requestMap (s.uuidOf call) = some call
  mapped : ∀ i uuid call, (s.ranks i).requestMap uuid = some call →
    s.uuidOf call = uuid ∧ call < s.nextCall

namespace Consistent

variable {s : State n}

theorem init (n : Nat) : Consistent (State.init n) where
  finds i call h := by cases h
  mapped i uuid call h := by cases h

theorem lt_next (h : Consistent s) {i : Fin n} {call : CallId} (hmem : call ∈ (s.ranks i).held) :
    call < s.nextCall :=
  (h.mapped i _ call (h.finds i call hmem)).2

theorem not_holds_next (h : Consistent s) (i : Fin n) : ¬ s.Holds i s.nextCall := by
  rintro (hmem | ⟨uuid, hmap⟩)
  · exact Nat.lt_irrefl _ (h.lt_next hmem)
  · exact Nat.lt_irrefl _ (h.mapped i uuid _ hmap).2

section Start

variable {userRequestId newUuid : Uuid} {outcomes : Fin n → StartOutcome}

/-- After a start, the new request is on the ranks whose engines took it, and
found there. -/
theorem holds_started (h : Consistent s) (i : Fin n) :
    (s.startRequest userRequestId newUuid outcomes).1.Holds i s.nextCall ↔
      (outcomes i).Started := by
  unfold State.Holds
  rw [startRequest_rank]
  by_cases hstarted : (outcomes i).Started
  · simp [hstarted]
  · simp only [hstarted, if_false, iff_false]
    exact h.not_holds_next i

theorem finds_started (i : Fin n) (hstarted : (outcomes i).Started) :
    (s.startRequest userRequestId newUuid outcomes).1.Finds i s.nextCall := by
  unfold State.Finds
  rw [startRequest_rank, startRequest_uuidOf, if_pos hstarted]
  simp

/-- Another request stays where it is found unless this one takes its place. -/
theorem finds_other (h : Consistent s) {i : Fin n} {call : CallId} (hfinds : s.Finds i call) :
    (s.startRequest userRequestId newUuid outcomes).1.Finds i call ↔
      ((outcomes i).Started → s.uuidOf call ≠ chooseUuid userRequestId newUuid) := by
  have hne : call ≠ s.nextCall := Nat.ne_of_lt (h.lt_next hfinds.1)
  unfold State.Finds
  rw [startRequest_rank, startRequest_uuidOf, if_neg hne]
  by_cases hstarted : (outcomes i).Started
  · simp only [hstarted, if_true, List.mem_cons, hfinds.1, or_true, true_and, true_imp_iff]
    by_cases huuid : s.uuidOf call = chooseUuid userRequestId newUuid
    · simp only [huuid, Function.update_self, Option.some.injEq, ne_eq, not_true_eq_false,
        iff_false]
      exact hne.symm
    · simp [huuid, Function.update_of_ne, hfinds.2]
  · simp only [hstarted, if_false, false_imp_iff, iff_true]
    exact hfinds

/-- What a start promises holds exactly if the ranks agree and no engine that
takes the request has another one under its uuid. -/
theorem promise_start_iff (h : Consistent s) :
    Promise s (s.startRequest userRequestId newUuid outcomes).1
        (s.startRequest userRequestId newUuid outcomes).2
        (.start userRequestId newUuid outcomes) ↔
      Admissible s (.start userRequestId newUuid outcomes) := by
  simp only [Promise, Admissible]
  rw [ne_eq, startRequest_status]
  constructor
  · rintro ⟨-, herror, hother⟩
    refine ⟨?_, ?_⟩
    · by_cases hall : ∀ i, outcomes i = { delivery := .delivered, engine := .success }
      · exact Or.inl hall
      · exact Or.inr (fun i hstarted => herror hall i ((h.holds_started i).mpr hstarted))
    · intro i hstarted call hmem
      have hfinds : s.Finds i call := ⟨hmem, h.finds i call hmem⟩
      exact (h.finds_other hfinds).mp (hother i call hfinds) hstarted
  · rintro ⟨hagree, hdistinct⟩
    refine ⟨?_, ?_, ?_⟩
    · intro hall i
      apply finds_started
      rw [hall i]
      exact ⟨by decide, rfl⟩
    · intro hsome i hholds
      exact hagree.resolve_left hsome i ((h.holds_started i).mp hholds)
    · intro i call hfinds
      exact (h.finds_other hfinds).mpr (fun hstarted => hdistinct i hstarted call hfinds.1)

theorem startRequest (h : Consistent s)
    (hadm : Admissible s (.start userRequestId newUuid outcomes)) :
    Consistent (s.startRequest userRequestId newUuid outcomes).1 where
  finds i call hmem := by
    by_cases hcall : call = s.nextCall
    · subst hcall
      exact (finds_started i ((h.holds_started i).mp (Or.inl hmem))).2
    · have hold : call ∈ (s.ranks i).held := by
        rw [startRequest_rank] at hmem
        split at hmem
        · exact (List.mem_cons.mp hmem).resolve_left hcall
        · exact hmem
      have hpromise := (promise_start_iff h).mpr hadm
      exact (hpromise.2.2 i call ⟨hold, h.finds i call hold⟩).2
  mapped i uuid call hmap := by
    have hnext : (s.startRequest userRequestId newUuid outcomes).1.nextCall = s.nextCall + 1 := rfl
    rw [startRequest_uuidOf, hnext]
    rw [startRequest_rank] at hmap
    have hold : ∀ uuid, (s.ranks i).requestMap uuid = some call →
        (if call = s.nextCall then chooseUuid userRequestId newUuid else s.uuidOf call) = uuid ∧
          call < s.nextCall + 1 := by
      intro uuid hmap
      obtain ⟨huuid, hlt⟩ := h.mapped i uuid call hmap
      rw [if_neg (Nat.ne_of_lt hlt)]
      exact ⟨huuid, Nat.lt_succ_of_lt hlt⟩
    split at hmap
    · simp only [Function.update_apply] at hmap
      split at hmap
      · next huuid =>
          obtain rfl := Option.some.inj hmap
          rw [if_pos rfl]
          exact ⟨huuid.symm, Nat.lt_succ_self _⟩
      · exact hold uuid hmap
    · exact hold uuid hmap

end Start

section Release

variable {call : CallId} {outcomes : Fin n → ReleaseOutcome}

/-- A rank after a release under which its engine lets go of what it is asked
to: without the request, or as it was. -/
theorem releaseRequest_rank (hadm : Admissible s (.release call outcomes))
    (i : Fin n) :
    (s.releaseRequest call outcomes).1.ranks i = s.ranks i ∧
        ((outcomes i).delivery = .requestLost ∨ (s.ranks i).requestMap (s.uuidOf call) = none) ∨
      ∃ other, (s.ranks i).requestMap (s.uuidOf call) = some other ∧
        (s.releaseRequest call outcomes).1.ranks i =
          { requestMap := Function.update (s.ranks i).requestMap (s.uuidOf call) none
            held := (s.ranks i).held.filter (· ≠ other) } := by
  have hreleased := hadm i
  simp only [State.releaseRequest]
  cases hmap : (s.ranks i).requestMap (s.uuidOf call) with
  | none =>
      refine Or.inl ⟨?_, Or.inr rfl⟩
      unfold callRpc Rank.releaseRequest
      simp only [hmap]
      cases (outcomes i).delivery <;> rfl
  | some other =>
      rw [hmap] at hreleased
      cases hdelivery : (outcomes i).delivery with
      | requestLost => exact Or.inl ⟨rfl, Or.inl rfl⟩
      | replyLost | delivered =>
          have hlet := hreleased (by rw [hdelivery]; decide) (by simp)
          refine Or.inr ⟨other, rfl, ?_⟩
          simp only [callRpc, Rank.releaseRequest, hmap, hlet, if_true]

theorem delivered_of_success (hstatus : (s.releaseRequest call outcomes).2 = .success)
    (i : Fin n) : (outcomes i).delivery = .delivered := by
  have hresponse := checkStatus_success.mp hstatus i
  simp only [callRpc] at hresponse
  cases hdelivery : (outcomes i).delivery with
  | delivered => rfl
  | requestLost | replyLost =>
      rw [hdelivery] at hresponse
      cases hresponse

/-- A successful release leaves the request on no rank. -/
theorem promise_release (h : Consistent s) (hadm : Admissible s (.release call outcomes)) :
    Promise s (s.releaseRequest call outcomes).1 (s.releaseRequest call outcomes).2
      (.release call outcomes) := by
  intro hstatus i hholds
  have hdelivered := delivered_of_success hstatus i
  unfold State.Holds at hholds
  obtain ⟨hsame, hwhy⟩ | ⟨other, hother, hrank⟩ := releaseRequest_rank hadm i
  · rw [hsame] at hholds
    have hnone : (s.ranks i).requestMap (s.uuidOf call) = none := by
      rcases hwhy with hlost | hnone
      · rw [hdelivered] at hlost
        cases hlost
      · exact hnone
    rcases hholds with hmem | ⟨uuid, hmap⟩
    · have hfound := h.finds i call hmem
      rw [hnone] at hfound
      cases hfound
    · obtain ⟨rfl, -⟩ := h.mapped i uuid call hmap
      rw [hnone] at hmap
      cases hmap
  · rw [hrank] at hholds
    simp only [List.mem_filter, decide_eq_true_eq] at hholds
    rcases hholds with ⟨hmem, hne⟩ | ⟨uuid, hmap⟩
    · rw [h.finds i call hmem] at hother
      exact hne (Option.some.inj hother)
    · rw [Function.update_apply] at hmap
      split at hmap
      · cases hmap
      · next huuid => exact huuid (h.mapped i uuid call hmap).1.symm

theorem releaseRequest (h : Consistent s) (hadm : Admissible s (.release call outcomes)) :
    Consistent (s.releaseRequest call outcomes).1 where
  finds i c hmem := by
    have huuid : (s.releaseRequest call outcomes).1.uuidOf = s.uuidOf := rfl
    rw [huuid]
    obtain ⟨hsame, -⟩ | ⟨other, hother, hrank⟩ := releaseRequest_rank hadm i
    · rw [hsame] at hmem ⊢
      exact h.finds i c hmem
    · rw [hrank] at hmem ⊢
      simp only [List.mem_filter, decide_eq_true_eq] at hmem
      have hfound := h.finds i c hmem.1
      have hne : s.uuidOf c ≠ s.uuidOf call := by
        intro hsame
        rw [hsame, hother] at hfound
        exact hmem.2 (Option.some.inj hfound).symm
      simp only [Function.update_of_ne hne, hfound]
  mapped i uuid c hmap := by
    obtain ⟨hsame, -⟩ | ⟨other, -, hrank⟩ := releaseRequest_rank hadm i
    · rw [hsame] at hmap
      exact h.mapped i uuid c hmap
    · rw [hrank] at hmap
      simp only [Function.update_apply] at hmap
      split at hmap
      · cases hmap
      · exact h.mapped i uuid c hmap

end Release

/-- A stop changes no table. -/
theorem stopRequest_eq (s : State n) (call : CallId) (outcomes : Fin n → StartOutcome) :
    (s.stopRequest call outcomes).1 = s := by
  have hrank : ∀ i, (callRpc (s.ranks i) (outcomes i).delivery
      (fun r => r.stopRequest (s.uuidOf call) (outcomes i).engine)).1 = s.ranks i := by
    intro i
    have hstop : ((s.ranks i).stopRequest (s.uuidOf call) (outcomes i).engine).1 =
        s.ranks i := by
      unfold Rank.stopRequest
      split <;> rfl
    unfold callRpc
    cases (outcomes i).delivery with
    | requestLost => rfl
    | replyLost | delivered => exact hstop
  unfold State.stopRequest
  simp only [hrank]

/-- The step lemma: an admissible call keeps its promise and the tables. -/
theorem step (h : Consistent s) {s' : State n} {action : Action n} {status : AsStatus}
    (hadm : Admissible s action) (hstep : Step s action s' status) :
    Promise s s' status action ∧ Consistent s' := by
  cases hstep with
  | start userRequestId newUuid outcomes =>
      exact ⟨h.promise_start_iff.mpr hadm, h.startRequest hadm⟩
  | stop outcomes _ =>
      rw [stopRequest_eq]
      exact ⟨trivial, h⟩
  | release outcomes _ => exact ⟨h.promise_release hadm, h.releaseRequest hadm⟩

theorem of_reaches (h : Reaches Admissible s) : Consistent s := by
  induction h with
  | init => exact init n
  | step _ hadm hstep ih => exact (ih.step hadm hstep).2

end Consistent

/-- In every run of admissible calls, for any number of ranks, each rank finds
every request its engine has; each further admissible call keeps its promise;
and a start keeps it only if it is admissible. -/
theorem requests_keepPromise {s : State n} (h : Reaches Admissible s) :
    (∀ i, ∀ call ∈ (s.ranks i).held, s.Finds i call) ∧
      (∀ action s' status, Step s action s' status → Admissible s action →
        Promise s s' status action) ∧
      ∀ userRequestId newUuid outcomes s' status,
        Step s (.start userRequestId newUuid outcomes) s' status →
          Promise s s' status (.start userRequestId newUuid outcomes) →
            Admissible s (.start userRequestId newUuid outcomes) := by
  have hconsistent := Consistent.of_reaches h
  refine ⟨?_, ?_, ?_⟩
  · intro i call hmem
    exact ⟨hmem, hconsistent.finds i call hmem⟩
  · intro action s' status hstep hadm
    exact (hconsistent.step hadm hstep).1
  · intro userRequestId newUuid outcomes s' status hstep hpromise
    cases hstep
    exact hconsistent.promise_start_iff.mp hpromise

/-- Both ranks start the request. -/
def bothStarted : State 2 :=
  ((State.init 2).startRequest "a" "b"
    (fun _ => { delivery := .delivered, engine := .success })).1

theorem requests_keepPromise_bothStarted :
    (∀ i, ∀ call ∈ (bothStarted.ranks i).held, bothStarted.Finds i call) ∧
      (∀ action s' status, Step bothStarted action s' status → Admissible bothStarted action →
        Promise bothStarted s' status action) ∧
      ∀ userRequestId newUuid outcomes s' status,
        Step bothStarted (.start userRequestId newUuid outcomes) s' status →
          Promise bothStarted s' status (.start userRequestId newUuid outcomes) →
            Admissible bothStarted (.start userRequestId newUuid outcomes) :=
  requests_keepPromise
    (@Reaches.step 2 Admissible _ _
      (.start "a" "b" (fun _ => { delivery := .delivered, engine := .success })) _ .init
      ⟨Or.inl (fun _ => rfl), fun _ _ _ hmem => by cases hmem⟩ (.start "a" "b" _))

/-- The first rank starts the request, the second is not reached. -/
def halfStarted : Fin 2 → StartOutcome :=
  fun i => { delivery := if i = 0 then .delivered else .requestLost, engine := .success }

theorem not_requests_keepPromise :
    ¬ ∀ (n : Nat) (s : State n), Reaches (fun _ _ => True) s →
      ∀ action s' status, Step s action s' status → Promise s s' status action := by
  intro h
  have hpromise := h 2 _ .init _ _ _ (.start "a" "b" halfStarted)
  exact hpromise.2.1 (by decide) 0 (Or.inl (by decide))

end DashInfer.Service
