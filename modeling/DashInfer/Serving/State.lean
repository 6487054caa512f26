import DashInfer.Serving.Model
import Mathlib.Data.Finmap
import Mathlib.Data.Multiset.AddSub

/-!
The state of the engine around one model: the client calls in progress, the
control messages, the maps of `ModelControlState`, the LoRA usage and the local
variables of `ModelRunningThread`.
-/

namespace DashInfer.Serving

/-- Log probabilities and statistics, which only travel with the tokens, are
left out of handles and queues. -/
structure RequestHandle where
  contextLength : Nat
  generateLength : Nat
  continueCount : Nat
deriving DecidableEq, Repr

structure ResultQueue where
  status : GenerateRequestStatus
  /-- The `ids_from_generate` of the elements appended so far. -/
  chunks : List (List Int)
deriving DecidableEq, Repr

def ResultQueue.ids (queue : ResultQueue) : List Int := queue.chunks.flatten

def GenerateRequestStatus.terminal : GenerateRequestStatus → Bool
  | .generateFinished | .generateInterrupted => true
  | _ => false

/-- The control messages that some call of the engine sends. -/
inductive MessageBody where
  | gracefulStopModel
  | startRequest (u : Uuid) (content : RequestContent)
  | stopRequest (u : Uuid)
  | syncRequest (u : Uuid)
  | syncAllRequest
  | releaseRequest (u : Uuid)
deriving DecidableEq, Repr

/-- `producer` is the thread that enqueues the message. -/
structure EngineControlMessage where
  body : MessageBody
  promise : Nat
  producer : Nat
deriving DecidableEq, Repr

structure ModelControlState where
  msgQueue : List EngineControlMessage
  requestHandleMap : Finmap fun _ : Uuid => RequestHandle
  resultQueueMap : Finmap fun _ : Uuid => ResultQueue
  modelStopping : Bool
  modelStopped : Bool

/-- `loras_in_use_` of the model, absent until its first use, and
`lora_use_count_`. -/
structure LoraUsage where
  lorasInUse : Option (Multiset String)
  loraUseCount : Int

namespace LoraUsage

def names (l : LoraUsage) : Multiset String := l.lorasInUse.getD 0

/-- The use taken by `StartRequest`. -/
def acquire (name : String) (l : LoraUsage) : LoraUsage :=
  if name = "" then l
  else { lorasInUse := some (name ::ₘ l.names), loraUseCount := l.loraUseCount + 1 }

/-- The use given back by `StartRequest` when its message cannot be enqueued. -/
def giveBack (name : String) (l : LoraUsage) : LoraUsage :=
  if name ≠ "" ∧ name ∈ l.names then
    { lorasInUse := some (l.names.erase name), loraUseCount := l.loraUseCount - 1 }
  else l

/-- The use released by `UpdateResult`. -/
def release (name : String) (l : LoraUsage) : LoraUsage :=
  if 0 < l.loraUseCount ∧ l.lorasInUse ≠ none ∧ name ≠ "" then
    { lorasInUse := some (l.names.erase name), loraUseCount := l.loraUseCount - 1 }
  else l

end LoraUsage

/-- The call that holds `lora_lock_`: a `StartRequest` that has taken its LoRA
and may have read `model_stopping`, or a call that waits for its promise. -/
inductive LockHolder where
  | starting (u : Uuid) (content : RequestContent) (producer : Nat) (checked : Bool)
  | waiting (promise : Nat)

/-- A `StopModel` call: it has read `model_stopping`, has set it, waits for its
promise, or is back. -/
inductive StopCall where
  | checked
  | flagged
  | waiting (promise : Nat)
  | returned (status : AsStatus)
deriving DecidableEq, Repr

structure Clients where
  nextUuid : Uuid
  nextPromise : Nat
  /-- The values each promise was set to. -/
  promises : Nat → List AsStatus
  loraLock : Option LockHolder
  stopCalls : List StopCall
  /-- Ghost: the requests whose `StartRequest` returned success. -/
  accepted : Finset Uuid
  /-- Ghost: the queue status of the requests released. -/
  released : Uuid → Option GenerateRequestStatus

/-- Where `ModelRunningThread` is: in its message loop, in `RunEngineContext`,
in `UpdateResult` before or after the decoder with the entries it has not
visited, in the decoder loop, before its final checks, or past its end. -/
inductive LoopPhase where
  | messages
  | context (isNewContext : Bool)
  | update (decoded : Bool) (rest : Finset Uuid)
  | decode
  | check
  | ended
deriving DecidableEq

structure LoopState where
  phase : LoopPhase
  noExecution : Bool
  gracefulStopPhase : Bool
  gracefulFinalReleased : Bool
  gracefulStopMsg : Option Nat
  synchronizing : Bool
  deferredPromise : Option Nat
  syncPendingSet : Finset Uuid

structure Engine where
  model : AsModel
  control : ModelControlState
  usage : LoraUsage
  /-- The LoRAs loaded in the `LoraManager`. -/
  loras : Finset String
  loop : LoopState
  clients : Clients

/-- A started engine. -/
def Engine.start (loras : Finset String) : Engine where
  model :=
    { requests := fun _ => ⟨⟨[], 0, "", false⟩, ⟨fun _ => 0, 0⟩, .init, false, 0, [], false⟩
      allRequestMap := ∅
      pendingRequestQueue := []
      genCtxList := []
      currentUnfinishedRequest := 0
      alreadyContextLength := 0 }
  control := ⟨[], ∅, ∅, false, false⟩
  usage := ⟨none, 0⟩
  loras := loras
  loop := ⟨.messages, false, false, false, none, false, none, ∅⟩
  clients := ⟨0, 0, fun _ => [], none, [], ∅, fun _ => none⟩

namespace Engine

def handle? (s : Engine) (u : Uuid) : Option RequestHandle := s.control.requestHandleMap.lookup u

def queue? (s : Engine) (u : Uuid) : Option ResultQueue := s.control.resultQueueMap.lookup u

def Registered (s : Engine) (u : Uuid) : Prop :=
  u ∈ s.control.requestHandleMap ∧ u ∈ s.control.resultQueueMap

/-- `promise->set_value`. -/
def setPromise (s : Engine) (promise : Nat) (status : AsStatus) : Engine :=
  { s with
    clients.promises := Function.update s.clients.promises promise
      (s.clients.promises promise ++ [status]) }

def putHandle (s : Engine) (u : Uuid) (handle : RequestHandle) : Engine :=
  { s with control.requestHandleMap := s.control.requestHandleMap.insert u handle }

def putQueue (s : Engine) (u : Uuid) (queue : ResultQueue) : Engine :=
  { s with control.resultQueueMap := s.control.resultQueueMap.insert u queue }

end Engine

end DashInfer.Serving
