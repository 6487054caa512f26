import DashInfer.Vision.Vit
import Mathlib.Logic.Function.Basic

/-!
`HieWorker`: the workers share one queue of tasks and one queue of results, a
thread routes the results to a queue for each request, and a call of `eval`
puts its images in and waits for as many results. A step is one access to a
queue. The tasks queued and the messages put are kept as ghosts.
-/

namespace DashInfer.Vision

variable {n : Nat} {T E : Type}

inductive Loop (T : Type) where
  /-- Waits for a task. -/
  | idle
  /-- Inside `process_request`. -/
  | busy (task : VitRequest T)
  /-- The thread has ended. -/
  | ended
deriving DecidableEq, Repr

/-- A worker thread. `vitResult` is the variable of `run`, unbound at first. -/
structure Worker (T E : Type) where
  loop : Loop T
  vitResult : Option (Vit E)

/-- `loop_get_result`, between the test that a request has a queue and the
`put` into it, or elsewhere. -/
inductive Router (E : Type) where
  | idle
  | routing (vit : Vit E)
  /-- The thread has ended with a `KeyError`. -/
  | ended

def Router.held : Router E → List (Vit E)
  | .routing vit => [vit]
  | _ => []

@[simp] theorem Router.held_idle : (Router.idle : Router E).held = [] := rfl
@[simp] theorem Router.held_ended : (Router.ended : Router E).held = [] := rfl
@[simp] theorem Router.held_routing (vit : Vit E) : (Router.routing vit).held = [vit] := rfl

/-- The images of a call that are there, with their places. -/
def validImages {α : Type} : Nat → List (Option α) → List (Nat × α)
  | _, [] => []
  | i, none :: rest => validImages (i + 1) rest
  | i, some image :: rest => (i, image) :: validImages (i + 1) rest

inductive EvalStatus where
  | running
  | returned
  | raised
deriving DecidableEq, Repr

/-- A call of `eval`. `todo` is what `add_request` has still to queue. `found`
is the group as `eval` was given it, and `received` the results taken out of the
request's own queue. -/
structure Eval (T E : Type) where
  images : List (Option (VitInput T))
  gridThw : Option (List (Option (List Int)))
  found : VitGroup E
  todo : List (Nat × VitInput T)
  hieResults : VitGroup E
  received : List (Vit E)
  status : EvalStatus

/-- `valid_images_or_audios`. -/
def Eval.num (call : Eval T E) : Nat := (validImages 0 call.images).length

/-- A message of the result queue: the task the worker had, whether processing
it raised, and what was put. -/
structure Message (T E : Type) where
  task : VitRequest T
  failed : Bool
  result : Vit E

structure State (n : Nat) (T E : Type) where
  requestQueue : List (VitRequest T)
  workers : Fin n → Worker T E
  resultQueue : List (Vit E)
  router : Router E
  clientQueues : Int → Option (List (Vit E))
  evals : Int → Option (Eval T E)
  queued : List (VitRequest T)
  sent : List (Message T E)

/-- All workers are up and nothing has been asked of them. -/
def State.init (n : Nat) (T E : Type) : State n T E :=
  { requestQueue := []
    workers := fun _ => { loop := .idle, vitResult := none }
    resultQueue := []
    router := .idle
    clientQueues := fun _ => none
    evals := fun _ => none
    queued := []
    sent := [] }

/-- One access to a queue. The clock is in milliseconds. -/
inductive Event (n : Nat) (T E : Type) where
  /-- `eval` is called: the request gets a queue. -/
  | eval (hieResults : VitGroup E) (images : List (Option (VitInput T)))
      (gridThw : Option (List (Option (List Int))))
  /-- `add_request` queues the next image. -/
  | put (requestId : Int) (now : Nat)
  /-- A worker takes a task. -/
  | take (w : Fin n) (now : Nat)
  /-- `process_request` ends; `raises` tells whether the tower raised. -/
  | finish (w : Fin n) (raises : Bool)
  /-- The router takes a result and looks its request up. -/
  | route
  /-- The router puts it into the queue of its request. -/
  | handOver
  /-- `get_result` takes a result. -/
  | receive (requestId : Int)
  /-- `get_result` waits in vain. -/
  | timeout (requestId : Int)
  /-- `eval` has its results and returns. -/
  | leave (requestId : Int)

namespace State

variable (s : State n T E)

/-- Start of `eval`. Request ids are not used twice. -/
def eval (hieResults : VitGroup E) (images : List (Option (VitInput T)))
    (gridThw : Option (List (Option (List Int)))) : Option (State n T E) :=
  let requestId := hieResults.requestId
  match s.evals requestId with
  | some _ => none
  | none => some { s with
      clientQueues := Function.update s.clientQueues requestId (some [])
      evals := Function.update s.evals requestId (some {
        images, gridThw, found := hieResults, todo := validImages 0 images, hieResults,
        received := [], status := .running }) }

/-- The grid `add_request` puts into the `i`-th task. -/
def gridAt (gridThw : Option (List (Option (List Int)))) (i : Nat) : Option (List Int) :=
  match gridThw with
  | none => none
  | some grids => (grids[i]?).join

def taskOf (requestId : Int) (call : Eval T E) (now i : Nat) (image : VitInput T) :
    VitRequest T :=
  { requestId, vitId := i, vitInput := image, vitGridThw := gridAt call.gridThw i,
    startTime := now }

def put (requestId : Int) (now : Nat) : Option (State n T E) :=
  match s.evals requestId with
  | none => none
  | some call =>
      match call.todo with
      | [] => none
      | (i, image) :: rest =>
          let task := taskOf requestId call now i image
          some { s with
            requestQueue := s.requestQueue ++ [task]
            evals := Function.update s.evals requestId (some { call with todo := rest })
            queued := s.queued ++ [task] }

/-- The head of the loop of `run`: a negative id ends it, and a task older than
40 s is skipped. -/
def begin (now : Nat) (task : VitRequest T) : Loop T :=
  if task.vitId < 0 then .ended
  else if now - task.startTime > 40000 then .idle
  else .busy task

def take (w : Fin n) (now : Nat) : Option (State n T E) :=
  match (s.workers w).loop, s.requestQueue with
  | .idle, task :: rest => some { s with
      requestQueue := rest
      workers := Function.update s.workers w
        { s.workers w with loop := begin now task } }
  | _, _ => none

/-- The rest of the loop of `run`. A failed call leaves `vit_result` as the last
task bound it; the `put` that follows raises if no task has. -/
def finish (visual : T → Grid → E) (w : Fin n) (raises : Bool) : Option (State n T E) :=
  match (s.workers w).loop with
  | .busy task =>
      match processRequest visual raises task with
      | some vit => some { s with
          workers := Function.update s.workers w { loop := .idle, vitResult := some vit }
          resultQueue := s.resultQueue ++ [vit]
          sent := s.sent ++ [{ task, failed := false, result := vit }] }
      | none =>
          match (s.workers w).vitResult with
          | some vit => some { s with
              workers := Function.update s.workers w { loop := .idle, vitResult := some vit }
              resultQueue := s.resultQueue ++ [vit]
              sent := s.sent ++ [{ task, failed := true, result := vit }] }
          | none => some { s with
              workers := Function.update s.workers w { loop := .ended, vitResult := none } }
  | _ => none

def route : Option (State n T E) :=
  match s.router, s.resultQueue with
  | .idle, vit :: rest => some { s with
      resultQueue := rest
      router := if (s.clientQueues vit.requestId).isSome then .routing vit else .idle }
  | _, _ => none

def handOver : Option (State n T E) :=
  match s.router with
  | .routing vit =>
      match s.clientQueues vit.requestId with
      | some queue => some { s with
          router := .idle
          clientQueues :=
            Function.update s.clientQueues vit.requestId (some (queue ++ [vit])) }
      | none => some { s with router := .ended }
  | _ => none

/-- The call is inside `get_result` and has not all of its results. -/
def Waits (call : Eval T E) : Prop :=
  call.status = .running ∧ call.todo = [] ∧ call.received.length < call.num

instance (call : Eval T E) : Decidable (Waits call) :=
  inferInstanceAs (Decidable (_ ∧ call.todo = [] ∧ _))

/-- A result goes into the group before its request id is looked at. -/
def receive (requestId : Int) : Option (State n T E) :=
  match s.evals requestId, s.clientQueues requestId with
  | some call, some (vit :: rest) =>
      if Waits call then some { s with
        clientQueues := Function.update s.clientQueues requestId (some rest)
        evals := Function.update s.evals requestId (some { call with
          hieResults := call.hieResults.addVit vit
          received := call.received ++ [vit]
          status := if vit.requestId = requestId then .running else .raised }) }
      else none
  | _, _ => none

def timeout (requestId : Int) : Option (State n T E) :=
  match s.evals requestId, s.clientQueues requestId with
  | some call, some [] =>
      if Waits call then some { s with
        clientQueues := Function.update s.clientQueues requestId none
        evals := Function.update s.evals requestId (some { call with status := .raised }) }
      else none
  | _, _ => none

def leave (requestId : Int) : Option (State n T E) :=
  match s.evals requestId with
  | some call =>
      if call.status = .running ∧ call.todo = [] ∧ call.received.length = call.num then
        some { s with
          clientQueues := Function.update s.clientQueues requestId none
          evals := Function.update s.evals requestId (some { call with status := .returned }) }
      else none
  | none => none

end State

/-- A step; `none` where the event cannot happen. -/
def step (visual : T → Grid → E) (s : State n T E) : Event n T E → Option (State n T E)
  | .eval hieResults images gridThw => s.eval hieResults images gridThw
  | .put requestId now => s.put requestId now
  | .take w now => s.take w now
  | .finish w raises => s.finish visual w raises
  | .route => s.route
  | .handOver => s.handOver
  | .receive requestId => s.receive requestId
  | .timeout requestId => s.timeout requestId
  | .leave requestId => s.leave requestId

/-- A run, in any order of events. -/
def exec (visual : T → Grid → E) (s : State n T E) : List (Event n T E) → Option (State n T E)
  | [] => some s
  | event :: rest => (step visual s event).bind (fun next => exec visual next rest)

end DashInfer.Vision
