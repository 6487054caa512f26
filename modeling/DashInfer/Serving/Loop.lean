import DashInfer.Serving.State

/-!
`AsEngineImpl::UpdateResult`, for one entry of the handle map: the tokens that
are new in the output tensor go to the result queue, and the end of a request
shows in the status of the queue, in the synchronisation set and in the LoRA
usage.
-/

namespace DashInfer.Serving

/-- `FetchGenerationResultAndIncreaseCounter`. -/
def fetchGenerationResult (request : Request) (handle : RequestHandle) :
    Option (List Int) × RequestHandle :=
  if request.outputs.length = 0 then (none, handle)
  else
    let newLength := request.outputs.length
    let oldLength := handle.contextLength + handle.generateLength
    if oldLength < newLength then
      (some ((List.range (newLength - oldLength)).map fun i => request.outputs.data (oldLength + i)),
        { handle with generateLength := newLength - handle.contextLength })
    else (none, handle)

/-- The handle and the queue of a request that has left its initial status. -/
def deliver (request : Request) (handle : RequestHandle) (queue : ResultQueue) :
    RequestHandle × ResultQueue :=
  let handle := { handle with continueCount := handle.continueCount + 1 }
  let queue := if handle.continueCount = 1 then { queue with status := .generating } else queue
  match fetchGenerationResult request handle with
  | (none, handle) => (handle, queue)
  | (some ids, handle) => (handle, { queue with chunks := queue.chunks ++ [ids] })

namespace Engine

def updateSyncStatus (u : Uuid) (s : Engine) : Engine :=
  if s.loop.synchronizing then
    { s with loop.syncPendingSet := s.loop.syncPendingSet.erase u }
  else s

def releaseLora (request : Request) (s : Engine) : Engine :=
  if request.status = .generateFinished then
    { s with usage := s.usage.release request.content.loraName }
  else s

/-- The end of a request in its queue, after the delivery. -/
def closeQueue (u : Uuid) (request : Request) (queue : ResultQueue) (s : Engine) : Engine :=
  if queue.status = .generateInterrupted then (s.putQueue u queue).updateSyncStatus u
  else if request.finish then
    (s.putQueue u { queue with status := .generateFinished }).updateSyncStatus u
  else s.putQueue u queue

/-- The body of the loop of `UpdateResult`. -/
def updateEntry (u : Uuid) (s : Engine) : Engine :=
  match s.handle? u, s.queue? u with
  | some handle, some queue =>
      if queue.status.terminal then s.updateSyncStatus u
      else
        match s.model.getRequestById u with
        | none => s
        | some request =>
            if request.status = .init then s
            else if request.status = .generateInterrupted then
              (s.putQueue u { queue with status := .generateInterrupted }).updateSyncStatus u
            else
              let delivered := deliver request handle queue
              ((s.putHandle u delivered.1).closeQueue u request delivered.2).releaseLora request
  | _, _ => s

end Engine

/-!
`ModelRunningThread`, one step at a time: a control message, a context step, an
entry of `UpdateResult`, a decoder step with its memory-out handling, the final
checks of an iteration. The thread ends in `abort` on the errors for which a
step here has no successor.
-/

/-- What the surroundings decide when a message is handled: the memory a new
output tensor is given, and how `StopRequest` goes. -/
structure HandleEnv where
  memory : Nat → Int
  stop : StopOutcome

/-- How far the decoder of the first worker came in a step that runs out of
memory on some worker. -/
inductive DecoderProgress where
  | notRun
  | started
  | finished
deriving DecidableEq, Repr

structure DecodeEnv where
  tokens : RequestId → Int
  eos : RequestId → Bool
  stops : RequestId → StopOutcome
  /-- Set when a worker reports `ALLSPARK_CACHE_MEMORY_OUT`. -/
  memoryOut : Option DecoderProgress
  /-- The order in which the handles are visited, the random number of
  `ChooseVictimRequest`, and how the victim is stopped. -/
  order : List Uuid
  random : Nat
  victimStop : StopOutcome

/-- The longest of the requests, the first of equals. -/
def longest : List (Uuid × Nat) → Option (Uuid × Nat)
  | [] => none
  | x :: rest => rest.foldl (fun best y =>
      match best with
      | none => some y
      | some b => some (if b.2 < y.2 then y else b)) (some x)

/-- `ChooseVictimRequest`, of requests with their lengths. -/
def chooseVictimRequest (strategy : AsEvictionStrategy) (random : Nat)
    (requests : List (Uuid × Nat)) : Option Uuid :=
  match strategy with
  | .maxLength => (longest requests).map Prod.fst
  | .random => requests[random % requests.length]?.map Prod.fst

namespace Engine

/-- A message of this thread is the first of its producer's in the queue. -/
def FirstOfProducer (queue : List EngineControlMessage) (i : Nat) (msg : EngineControlMessage) :
    Prop :=
  queue[i]? = some msg ∧ ∀ earlier ∈ queue.take i, earlier.producer ≠ msg.producer

instance (queue : List EngineControlMessage) (i : Nat) (msg : EngineControlMessage) :
    Decidable (FirstOfProducer queue i msg) :=
  inferInstanceAs (Decidable (_ ∧ _))

/-- `emplace` leaves an entry that is there. -/
def emplace (u : Uuid) (content : RequestContent) (s : Engine) : Engine :=
  let s := match s.queue? u with
    | some _ => s
    | none => s.putQueue u ⟨.init, []⟩
  match s.handle? u with
  | some _ => s
  | none => s.putHandle u ⟨content.inputIds.length, 0, 0⟩

def handleStartRequest (cfg : Config) (env : HandleEnv) (u : Uuid) (content : RequestContent)
    (promise : Nat) (s : Engine) : Engine :=
  if s.loop.gracefulStopPhase then
    { s with loop.noExecution := true }.setPromise promise .requestDenied
  else
    let s := s.emplace u content
    { s with model := s.model.startRequestImpl cfg u content env.memory }

/-- `StopRequestByRequestID`, where an exception counts as a runtime error. -/
def stopRequestById (outcome : StopOutcome) (u : Uuid) (s : Engine) : Engine × AsStatus :=
  let (model, status) := s.model.stopRequest outcome ⟨u, false⟩
  ({ s with model }, status.getD .runtimeError)

def handleStopRequest (env : HandleEnv) (u : Uuid) (promise : Nat) (s : Engine) : Engine :=
  let (s, status) := s.stopRequestById env.stop u
  s.setPromise promise status

def handleSync (uuids : Finset Uuid) (promise : Nat) (s : Engine) : Engine :=
  { s with
    loop.syncPendingSet := s.loop.syncPendingSet ∪ uuids
    loop.deferredPromise := some promise
    loop.synchronizing := true }

def eraseEntries (u : Uuid) (s : Engine) : Engine :=
  match s.queue? u with
  | none => s
  | some queue =>
      { s with
        control.resultQueueMap := s.control.resultQueueMap.erase u
        control.requestHandleMap := s.control.requestHandleMap.erase u
        clients.released := Function.update s.clients.released u (some queue.status) }

def handleReleaseRequest (env : HandleEnv) (u : Uuid) (promise : Nat) (s : Engine) : Engine :=
  let (s, stopStatus) := s.stopRequestById env.stop u
  let s := { s with model := s.model.releaseRequest u }
  let s := s.eraseEntries u
  let s : Engine :=
    if s.loop.gracefulStopPhase ∧ s.model.currentUnfinishedRequest = 0 ∧
        s.control.msgQueue = [] then
      { s with loop.gracefulFinalReleased := true }
    else s
  s.setPromise promise stopStatus

/-- The dispatch of one message. -/
def handleMessage (cfg : Config) (env : HandleEnv) (msg : EngineControlMessage) (s : Engine) :
    Engine :=
  match msg.body with
  | .gracefulStopModel =>
      { s with
        loop.gracefulStopPhase := true
        loop.gracefulStopMsg := some msg.promise
        control.modelStopping := true }
  | .startRequest u content => s.handleStartRequest cfg env u content msg.promise
  | .stopRequest u => s.handleStopRequest env u msg.promise
  | .syncRequest u => s.handleSync {u} msg.promise
  | .syncAllRequest => s.handleSync s.control.requestHandleMap.keys msg.promise
  | .releaseRequest u => s.handleReleaseRequest env u msg.promise

/-- The `i`-th message is taken out of the queue and handled. -/
def dequeue (cfg : Config) (i : Nat) (env : HandleEnv) (s : Engine) : Option Engine :=
  if s.loop.phase = .messages ∧ s.loop.synchronizing = false then
    match s.control.msgQueue[i]? with
    | none => none
    | some msg =>
        if FirstOfProducer s.control.msgQueue i msg then
          some ({ s with control.msgQueue := s.control.msgQueue.eraseIdx i }.handleMessage
            cfg env msg)
        else none
  else none

/-- The thread waits for a message. -/
def Suspended (s : Engine) : Prop :=
  s.loop.synchronizing = false ∧ s.control.msgQueue = [] ∧ s.loop.syncPendingSet = ∅ ∧
    s.loop.gracefulStopPhase = false ∧ s.model.currentUnfinishedRequest = 0 ∧
    s.control.requestHandleMap.keys = ∅ ∧ s.control.modelStopping = false

instance (s : Engine) : Decidable s.Suspended := inferInstanceAs (Decidable (_ ∧ _))

/-- The end of the message loop. It may come with messages left, as
`try_dequeue` may miss them. -/
def skipMessageProcess (s : Engine) : Option Engine :=
  if s.loop.phase = .messages ∧ ¬ s.Suspended then
    if s.loop.noExecution then some { s with loop.noExecution := false }
    else some { s with loop.phase := .context true }
  else none

def beginUpdate (decoded : Bool) (s : Engine) : Engine :=
  { s with loop.phase := .update decoded s.control.requestHandleMap.keys }

/-- One call of `RunTextGenerationContext` in `RunEngineContext`; `other` is a
status from another worker. -/
def runTextGenerationContext (cfg : Config) (env : ContextEnv) (other : Option AsStatus)
    (s : Engine) : Option Engine :=
  match s.loop.phase with
  | .context isNewContext =>
      let (model, status) := s.model.generateContinueContext cfg s.loras isNewContext env
      let s := { s with model }
      if cfg.schedulingStrategy = .contextPriority ∧ other.getD status = .success then
        some { s with loop.phase := .context false }
      else some (s.beginUpdate false)
  | _ => none

def updateResult (u : Uuid) (s : Engine) : Option Engine :=
  match s.loop.phase with
  | .update decoded rest =>
      if u ∈ rest then some { s.updateEntry u with loop.phase := .update decoded (rest.erase u) }
      else none
  | _ => none

def endUpdate (s : Engine) : Option Engine :=
  match s.loop.phase with
  | .update decoded rest =>
      if rest = ∅ then
        some { s with loop.phase := if decoded then .check else .decode }
      else none
  | _ => none

/-- The requests that may be stopped when memory is out. -/
def generatingRequests (order : List Uuid) (s : Engine) : List (Uuid × Nat) :=
  order.filterMap fun u =>
    match s.handle? u, s.queue? u with
    | some handle, some queue =>
        if queue.status = .generating then some (u, handle.contextLength + handle.generateLength)
        else none
    | _, _ => none

def interruptQueue (u : Uuid) (s : Engine) : Engine :=
  match s.queue? u with
  | some queue => s.putQueue u { queue with status := .generateInterrupted }
  | none => s

/-- The victim is stopped and the decoder called again; with no request to
stop the loop goes on. -/
def handleMemoryOut (cfg : Config) (env : DecodeEnv) (s : Engine) : Engine :=
  match chooseVictimRequest cfg.evictionStrategy env.random (s.generatingRequests env.order) with
  | none => s.beginUpdate true
  | some victim => (s.stopRequestById env.victimStop victim).1.interruptQueue victim

/-- One call of `RunTextGenerationContinue`. Memory runs out only for running
contexts. -/
def runTextGenerationContinue (cfg : Config) (env : DecodeEnv) (s : Engine) : Option Engine :=
  if s.loop.phase ≠ .decode then none
  else
    let decoded := s.model.generateContinueDecoder env.tokens env.eos env.stops
    let ok := decoded.2 = some .streaming ∨ decoded.2 = some .emptyRequest
    match env.memoryOut with
    | none => if ok then some ({ s with model := decoded.1 }.beginUpdate true) else none
    | some progress =>
        if s.model.genCtxList = [] ∨
            ¬ (env.order.Nodup ∧ env.order.toFinset = s.control.requestHandleMap.keys) then
          none
        else
          match progress with
          | .notRun => some (s.handleMemoryOut cfg env)
          | .started => some ({ s with model := s.model.storeUnfinished }.handleMemoryOut cfg env)
          | .finished =>
              if ok then some ({ s with model := decoded.1 }.handleMemoryOut cfg env) else none

/-- The check whether a synchronisation is finished. -/
def finishSync (s : Engine) : Engine :=
  if s.loop.synchronizing ∧ s.loop.syncPendingSet = ∅ then
    let done := { s with loop.synchronizing := false, loop.deferredPromise := none }
    match s.loop.deferredPromise with
    | none => done
    | some promise => done.setPromise promise .success
  else s

def answerGracefulStop (status : AsStatus) (s : Engine) : Engine :=
  let s := { s with loop.phase := .ended, control.modelStopped := true }
  match s.loop.gracefulStopMsg with
  | none => s
  | some promise => s.setPromise promise status

/-- The check whether the thread may end. -/
def finishLoop (s : Engine) : Engine :=
  if s.model.currentUnfinishedRequest = 0 ∧ s.control.msgQueue = [] ∧
      s.loop.gracefulStopPhase then
    if s.control.resultQueueMap.keys = ∅ ∧ s.control.requestHandleMap.keys = ∅ then
      { s with loop.gracefulFinalReleased := true }.answerGracefulStop .success
    else s.answerGracefulStop .runtimeError
  else { s with loop.phase := .messages }

def checkFinished (s : Engine) : Option Engine :=
  if s.loop.phase = .check then some s.finishSync.finishLoop else none

end Engine

end DashInfer.Serving
