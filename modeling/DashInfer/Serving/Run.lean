import DashInfer.Lib.Program
import DashInfer.Serving.Loop

/-!
The calls of the clients, and the runs of the engine: any number of client
threads and the loop thread take turns. `StartRequest`, `StopRequest`,
`ReleaseRequest`, `SyncRequest` and the LoRA calls hold `lora_lock_` from
beginning to end, the waiting for a promise included; `StopModel` does not.
-/

namespace DashInfer.Serving

open Lib

namespace Engine

/-- `InputParamsVerify`, for what the model keeps of a request. -/
def inputParamsVerify (cfg : Config) (content : RequestContent) : Bool :=
  content.maxLength ≤ cfg.engineMaxLength ∧ content.inputIds.length ≤ cfg.engineMaxLength - 2 ∧
    content.inputIds ≠ []

def holdLock (holder : Option LockHolder) (s : Engine) : Engine :=
  { s with clients.loraLock := holder }

/-- `StartRequest` up to the use of its LoRA; the id is that of `GenNewUUID`. -/
def startRequest (cfg : Config) (content : RequestContent) (producer : Nat) (s : Engine) :
    Option Engine :=
  match s.clients.loraLock with
  | some _ => none
  | none =>
      if inputParamsVerify cfg content ∧ (content.loraName = "" ∨ content.loraName ∈ s.loras) then
        some
          { s with
            usage := s.usage.acquire content.loraName
            clients.nextUuid := s.clients.nextUuid + 1
            clients.loraLock := some (.starting s.clients.nextUuid content producer false) }
      else none

/-- `StartRequest` reads `model_stopping`. -/
def checkStopping (s : Engine) : Option Engine :=
  match s.clients.loraLock with
  | some (.starting u content producer false) =>
      if s.control.modelStopping then some (s.holdLock none)
      else some (s.holdLock (some (.starting u content producer true)))
  | _ => none

def enqueue (body : MessageBody) (producer : Nat) (s : Engine) : Engine :=
  { s with
    control.msgQueue := s.control.msgQueue ++ [⟨body, s.clients.nextPromise, producer⟩]
    clients.nextPromise := s.clients.nextPromise + 1 }

/-- `StartRequest` enqueues its message, or fails to. -/
def enqueueStart (enqueued : Bool) (s : Engine) : Option Engine :=
  match s.clients.loraLock with
  | some (.starting u content producer true) =>
      if enqueued then
        let s := s.enqueue (.startRequest u content) producer
        some ({ s with clients.accepted := insert u s.clients.accepted }.holdLock none)
      else some ({ s with usage := s.usage.giveBack content.loraName }.holdLock none)
  | _ => none

/-- The calls that wait for the answer to their message under `lora_lock_`. -/
inductive WaitingCall where
  | stopRequest (u : Uuid)
  | releaseRequest (u : Uuid)
  | syncRequest (u : Uuid)
  | syncAllRequest
deriving DecidableEq, Repr

def WaitingCall.body : WaitingCall → MessageBody
  | .stopRequest u => .stopRequest u
  | .releaseRequest u => .releaseRequest u
  | .syncRequest u => .syncRequest u
  | .syncAllRequest => .syncAllRequest

def call (request : WaitingCall) (producer : Nat) (s : Engine) : Option Engine :=
  match s.clients.loraLock with
  | some _ => none
  | none =>
      some ((s.enqueue request.body producer).holdLock (some (.waiting s.clients.nextPromise)))

def returnCall (s : Engine) : Option Engine :=
  match s.clients.loraLock with
  | some (.waiting promise) =>
      if s.clients.promises promise = [] then none else some (s.holdLock none)
  | _ => none

def setStopCall (i : Nat) (c : StopCall) (s : Engine) : Engine :=
  { s with clients.stopCalls := s.clients.stopCalls.set i c }

/-- `StopModel` reads `model_stopping`; it is denied when that is set. -/
def stopModel (s : Engine) : Option Engine :=
  if s.control.modelStopping then none
  else some { s with clients.stopCalls := s.clients.stopCalls ++ [.checked] }

/-- The `i`-th `StopModel` call sets `model_stopping`. -/
def flagStop (i : Nat) (s : Engine) : Option Engine :=
  match s.clients.stopCalls[i]? with
  | some .checked => some ({ s with control.modelStopping := true }.setStopCall i .flagged)
  | _ => none

def enqueueStop (i producer : Nat) (enqueued : Bool) (s : Engine) : Option Engine :=
  match s.clients.stopCalls[i]? with
  | some .flagged =>
      if enqueued then
        some ((s.enqueue .gracefulStopModel producer).setStopCall i
          (.waiting s.clients.nextPromise))
      else
        some ({ s with control.modelStopping := false }.setStopCall i (.returned .runtimeError))
  | _ => none

/-- A `StopModel` call is answered; on success it joins the loop thread. -/
def returnStop (i : Nat) (s : Engine) : Option Engine :=
  match s.clients.stopCalls[i]? with
  | some (.waiting promise) =>
      match s.clients.promises promise with
      | [] => none
      | status :: _ =>
          if status = .success ∧ s.loop.phase ≠ .ended then none
          else some (s.setStopCall i (.returned status))
  | _ => none

/-- `LoadLoraByName`; `loaded` says whether the workers can load it. -/
def loadLoraByName (name : String) (loaded : Bool) (s : Engine) : Engine × AsStatus :=
  if name = "" then (s, .paramError)
  else if name ∈ s.loras then (s, .loraAlreadyLoaded)
  else if name ∈ s.usage.names then (s, .loraInUse)
  else if s.control.modelStopping then (s, .requestDenied)
  else if loaded then ({ s with loras := insert name s.loras }, .success)
  else (s, .runtimeError)

def unloadLoraByName (name : String) (s : Engine) : Engine × AsStatus :=
  if name = "" then (s, .paramError)
  else if name ∉ s.loras then (s, .loraNotFound)
  else if name ∈ s.usage.names then (s, .loraInUse)
  else if s.control.modelStopping then (s, .requestDenied)
  else ({ s with loras := s.loras.erase name }, .success)

end Engine

/-- One step of a client or of the loop thread, with what its surroundings
decide. -/
inductive Event where
  | startRequest (content : RequestContent) (producer : Nat)
  | checkStopping
  | enqueueStart (enqueued : Bool)
  | call (request : Engine.WaitingCall) (producer : Nat)
  | returnCall
  | stopModel
  | flagStop (i : Nat)
  | enqueueStop (i producer : Nat) (enqueued : Bool)
  | returnStop (i : Nat)
  | loadLora (name : String) (loaded : Bool)
  | unloadLora (name : String)
  | dequeue (i : Nat) (env : HandleEnv)
  | skipMessageProcess
  | context (env : ContextEnv) (other : Option AsStatus)
  | updateResult (u : Uuid)
  | endUpdate
  | decode (env : DecodeEnv)
  | checkFinished

namespace Engine

/-- The state after an event, if the event can happen. -/
def next (cfg : Config) (s : Engine) : Event → Option Engine
  | .startRequest content producer => s.startRequest cfg content producer
  | .checkStopping => s.checkStopping
  | .enqueueStart enqueued => s.enqueueStart enqueued
  | .call request producer => s.call request producer
  | .returnCall => s.returnCall
  | .stopModel => s.stopModel
  | .flagStop i => s.flagStop i
  | .enqueueStop i producer enqueued => s.enqueueStop i producer enqueued
  | .returnStop i => s.returnStop i
  | .loadLora name loaded =>
      if s.clients.loraLock.isNone then some (s.loadLoraByName name loaded).1 else none
  | .unloadLora name =>
      if s.clients.loraLock.isNone then some (s.unloadLoraByName name).1 else none
  | .dequeue i env => s.dequeue cfg i env
  | .skipMessageProcess => s.skipMessageProcess
  | .context env other => s.runTextGenerationContext cfg env other
  | .updateResult u => s.updateResult u
  | .endUpdate => s.endUpdate
  | .decode env => s.runTextGenerationContinue cfg env
  | .checkFinished => s.checkFinished

/-- The states of all runs whose events pass the guard. -/
def Reaches (cfg : Config) (loras : Finset String) (guard : Engine → Event → Prop) :
    Engine → Prop :=
  Reach (· = start loras) guard (fun e s t => s.next cfg e = some t)

/-- The state after the events, if they can happen one after the other. -/
def run (cfg : Config) (s : Engine) : List Event → Option Engine
  | [] => some s
  | e :: rest => (s.next cfg e).bind fun t => t.run cfg rest

/-- Every event passes the guard in the state in which it happens. -/
def Guarded (cfg : Config) (guard : Engine → Event → Prop) (s : Engine) : List Event → Prop
  | [] => True
  | e :: rest => guard s e ∧ ∀ t, s.next cfg e = some t → t.Guarded cfg guard rest

/-- What every event keeps, a run keeps. -/
theorem run_invariant {cfg : Config} {I : Engine → Prop}
    (hstep : ∀ s e t, I s → s.next cfg e = some t → I t) {es : List Event} {s t : Engine} (h : I s)
    (hrun : s.run cfg es = some t) : I t := by
  induction es generalizing s with
  | nil =>
      cases hrun
      exact h
  | cons e rest ih =>
      obtain ⟨q, hq, hrest⟩ := Option.bind_eq_some_iff.mp hrun
      exact ih (hstep s e q h hq) hrest

theorem Reaches.run {cfg : Config} {loras : Finset String} {guard : Engine → Event → Prop}
    {es : List Event} {s t : Engine} (h : Reaches cfg loras guard s)
    (hguard : s.Guarded cfg guard es) (hrun : s.run cfg es = some t) :
    Reaches cfg loras guard t := by
  induction es generalizing s with
  | nil =>
      cases hrun
      exact h
  | cons e rest ih =>
      obtain ⟨q, hq, hrest⟩ := Option.bind_eq_some_iff.mp hrun
      exact ih (.step h hguard.1 hq) (hguard.2 q hq) hrest

theorem guarded_true (cfg : Config) (s : Engine) (es : List Event) :
    s.Guarded cfg (fun _ _ => True) es := by
  induction es generalizing s with
  | nil => exact trivial
  | cons e rest ih => exact ⟨trivial, fun t _ => ih t⟩

/-- A started engine with room for five tokens and one running request. -/
def tiny : Config where
  engineMaxLength := 5
  engineMaxBatch := 1
  maxPrefillLength := 4
  cacheFrames := false
  prefixCache := false
  schedulingStrategy := .contextPriority
  evictionStrategy := .maxLength
  maxLength_lt := Nat.lt_of_lt_of_le (Nat.lt_succ_self 2) (Nat.le_add_left 3 2)
  maxBatch_pos := Nat.one_pos
  maxPrefill_pos := Nat.succ_pos 3

end Engine

end DashInfer.Serving
