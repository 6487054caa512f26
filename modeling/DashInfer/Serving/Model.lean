import DashInfer.Lib.SwapRemove
import Mathlib.Data.Finset.Basic
import Mathlib.Data.Finset.Dedup
import Mathlib.Logic.Function.Basic

/-!
The requests of `AsModel` on the first worker, which is the one the engine
reads: the pending queue, the running contexts and what the context and decoder
steps do to a request. What the operators compute, and whether they fail, is
input of a step.
-/

namespace DashInfer.Serving

open Lib

abbrev Uuid := Nat

/-- `AsEngine::GenerateRequestStatus`. -/
inductive GenerateRequestStatus where
  | init
  | contextFinished
  | generating
  | generateFinished
  | generateInterrupted
  | internalError
deriving DecidableEq, Repr

/-- The `AsStatus` codes met in the engine loop. -/
inductive AsStatus where
  | success
  | streaming
  | emptyRequest
  | chunkPrefill
  | cacheMemoryOut
  | runtimeError
  | paramError
  | requestDenied
  | loraNotFound
  | loraAlreadyLoaded
  | loraInUse
deriving DecidableEq, Repr

/-- `AS_STATUS_OK`. -/
def AsStatus.ok : AsStatus → Bool
  | .success | .streaming => true
  | _ => false

inductive AsSchedulingStrategy where
  | contextPriority
  | balance
deriving DecidableEq, Repr

inductive AsEvictionStrategy where
  | maxLength
  | random
deriving DecidableEq, Repr

structure Config where
  engineMaxLength : Nat
  engineMaxBatch : Nat
  maxPrefillLength : Nat
  /-- The device has a `cache_frame_manager_`. -/
  cacheFrames : Bool
  /-- The device has a `prefix_cache_manager_`. -/
  prefixCache : Bool
  schedulingStrategy : AsSchedulingStrategy
  evictionStrategy : AsEvictionStrategy
  maxLength_lt : 2 < engineMaxLength
  maxBatch_pos : 0 < engineMaxBatch
  maxPrefill_pos : 0 < maxPrefillLength

/-- `RequestContent`: the prompt and what of `GenerateConfig` the engine loop
reads. The empty LoRA name stands for none. -/
structure RequestContent where
  inputIds : List Int
  maxLength : Nat
  loraName : String
  /-- The request id contains "warmup". -/
  warmup : Bool
deriving DecidableEq, Repr

/-- The tensor `generated_ids_global`: its memory, and its shape `{1, length}`. -/
structure GeneratedIds where
  data : Nat → Int
  length : Nat

structure Request where
  content : RequestContent
  outputs : GeneratedIds
  status : GenerateRequestStatus
  finish : Bool
  prefillChunkLen : Nat
  /-- Ghost: the tokens the model has generated for the request. -/
  generated : List Int
  /-- Ghost: the request was stopped, interrupted, has failed or is done. -/
  concluded : Bool

/-- A request before its first step; `memory` is what its output tensor holds. -/
def Request.new (cfg : Config) (content : RequestContent) (memory : Nat → Int) : Request where
  content := content
  outputs := ⟨memory, cfg.engineMaxLength⟩
  status := .init
  finish := false
  prefillChunkLen := 0
  generated := []
  concluded := false

def Request.inputLen (r : Request) : Nat := r.content.inputIds.length

/-- The id of a request, or that id with the suffix "_chunk_prefill". -/
structure RequestId where
  uuid : Uuid
  chunk : Bool
deriving DecidableEq, Repr

structure GenerateContext where
  id : RequestId
  step : Nat
  maxLength : Nat
  finish : Bool
deriving DecidableEq, Repr

/-- A running context after its part of a decoder step. -/
def GenerateContext.advance (ctx : GenerateContext) (eos : Bool) : GenerateContext :=
  { ctx with
    step := ctx.step + 1
    finish := ctx.finish || ctx.maxLength ≤ ctx.step + 2 || eos }

structure AsModel where
  requests : Uuid → Request
  allRequestMap : Finset Uuid
  pendingRequestQueue : List Uuid
  genCtxList : List GenerateContext
  currentUnfinishedRequest : Int
  alreadyContextLength : Nat

/-- How `AsModel::StopRequest` of a running request goes: `late` fails after
the context is removed, `refused` and `threw` before. -/
inductive StopOutcome where
  | done
  | late
  | refused
  | threw
deriving DecidableEq, Repr

/-- What one context step of a request comes to: `refused` ends before its
context is listed, `halted` before the graph runs, `failure` is an error status
of the graph, which `StartRequest` does not look at, `exception` one it catches,
before or after the first token; `unreshaped` is a success up to the final
reshape. -/
inductive ContextOutcome where
  | refused (threw : Bool)
  | halted (step : Nat) (threw : Bool)
  | failure (step : Nat)
  | exception (token : Option Int)
  | success (token : Int) (eos : Bool)
  | unreshaped (token : Int) (eos : Bool)
deriving DecidableEq, Repr

/-- `runDecoderContext` returns an error status for an input longer than the
generation limit. -/
def ContextOutcome.limited (outcome : ContextOutcome) (inLength maxLength : Nat) :
    ContextOutcome :=
  if maxLength < inLength then
    match outcome with
    | .refused threw => .refused threw
    | .halted step threw => .halted step threw
    | _ => .failure 0
  else outcome

/-- What the model's surroundings decide in one context step. -/
structure ContextEnv where
  /-- `CreateTensorForHash` succeeds. -/
  hashed : Bool
  /-- The prefix length `RefOnly` finds, and the one `RefFill` finds. -/
  prefixLen : Nat
  filledLen : Nat
  /-- `context_frame <= CountFreeFrame()`. -/
  enoughFrames : Bool
  outcome : ContextOutcome
  stops : RequestId → StopOutcome

namespace AsModel

def modifyRequest (m : AsModel) (u : Uuid) (f : Request → Request) : AsModel :=
  { m with requests := Function.update m.requests u (f (m.requests u)) }

/-- A change of the `Request` object with this id. That of a chunk is a
temporary one, which shares only its output tensor. -/
def modifyOwn (m : AsModel) (id : RequestId) (f : Request → Request) : AsModel :=
  if id.chunk then m else m.modifyRequest id.uuid f

def conclude (m : AsModel) (id : RequestId) : AsModel :=
  m.modifyOwn id fun r => { r with concluded := true }

def storeUnfinished (m : AsModel) : AsModel :=
  { m with
    currentUnfinishedRequest := (m.pendingRequestQueue.length + m.genCtxList.length : Nat) }

/-- `AsModel::StartRequestImpl`. -/
def startRequestImpl (cfg : Config) (u : Uuid) (content : RequestContent) (memory : Nat → Int)
    (m : AsModel) : AsModel :=
  { m with
    requests := Function.update m.requests u (Request.new cfg content memory)
    allRequestMap := insert u m.allRequestMap
    pendingRequestQueue := m.pendingRequestQueue ++ [u] }

def releaseRequest (u : Uuid) (m : AsModel) : AsModel :=
  { m with allRequestMap := m.allRequestMap.erase u }

def getRequestById (u : Uuid) (m : AsModel) : Option Request :=
  if u ∈ m.allRequestMap then some (m.requests u) else none

/-- `StopPendingRequest`. -/
def stopPendingRequest (u : Uuid) (m : AsModel) : AsModel :=
  { m with
    requests := Function.update m.requests u
      { m.requests u with status := .generateFinished, concluded := true }
    pendingRequestQueue := m.pendingRequestQueue.filter (· ≠ u) }

/-- `RuntimeContext::FinishRequest`. -/
def finishRequest (index : Nat) (id : RequestId) (m : AsModel) : AsModel :=
  { m.modifyOwn id fun r =>
      { r with finish := true, status := .generateFinished, concluded := true } with
    genCtxList := swapRemove m.genCtxList index }

/-- The status returned, or none for an exception. -/
def stopRequest (outcome : StopOutcome) (id : RequestId) (m : AsModel) :
    AsModel × Option AsStatus :=
  if id.chunk = false ∧ id.uuid ∈ m.pendingRequestQueue then
    (m.stopPendingRequest id.uuid, some .success)
  else
    match lastIdx? (fun ctx => ctx.id = id) m.genCtxList with
    | none => (m, some .success)
    | some index =>
        match outcome with
        | .refused => (m.conclude id, some .paramError)
        | .threw => (m.conclude id, none)
        | .late =>
            let m := m.finishRequest index id
            ({ m with currentUnfinishedRequest := m.currentUnfinishedRequest - 1 },
              some .runtimeError)
        | .done =>
            let m := m.finishRequest index id
            ({ m with currentUnfinishedRequest := m.currentUnfinishedRequest - 1 }, some .success)

/-- The contexts below position `i` that are finished are stopped, from the
back, until a stop fails. -/
def stopFinished (stops : RequestId → StopOutcome) : Nat → AsModel → AsModel × Option AsStatus
  | 0, m => (m, some .success)
  | i + 1, m =>
      match m.genCtxList[i]? with
      | none => stopFinished stops i m
      | some ctx =>
          if ctx.finish then
            match m.stopRequest (stops ctx.id) ctx.id with
            | (m, some .success) => stopFinished stops i m
            | result => result
          else stopFinished stops i m

/-- `PushBackGenCtx`. -/
def pushBackGenCtx (ctx : GenerateContext) (m : AsModel) : AsModel :=
  { m with genCtxList := m.genCtxList ++ [ctx] }

/-- `UpdateIdOp::copy_generated_ids` in a context step: the prompt and the
first token go to the output tensor. -/
def copyContextIds (u : Uuid) (inputIds : List Int) (token : Int) (m : AsModel) : AsModel :=
  m.modifyRequest u fun r =>
    { r with outputs :=
        { data := fun i => (inputIds ++ [token]).getD i (r.outputs.data i)
          length := inputIds.length + 1 } }

/-- `copy_generated_ids` in a decoder step. -/
def copyDecoderId (u : Uuid) (step : Nat) (token : Int) (m : AsModel) : AsModel :=
  m.modifyRequest u fun r =>
    { r with outputs := { data := Function.update r.outputs.data step token, length := step + 1 } }

/-- The model generated a token for the request. -/
def recordToken (id : RequestId) (token : Int) (m : AsModel) : AsModel :=
  m.modifyOwn id fun r => { r with generated := r.generated ++ [token] }

/-- A context that ran to its first token. -/
def runContext (id : RequestId) (content : RequestContent) (token : Int) (eos : Bool)
    (m : AsModel) : AsModel :=
  ((m.pushBackGenCtx
    { id, step := content.inputIds.length, maxLength := content.maxLength,
      finish := eos || content.maxLength ≤ content.inputIds.length + 1 }).copyContextIds
    id.uuid content.inputIds token).recordToken id token

/-- `AsModel::StartRequest`. Its status is used by no caller; the result says
whether it threw. -/
def startRequest (loras : Finset String) (env : ContextEnv) (id : RequestId)
    (content : RequestContent) (m : AsModel) : AsModel × Bool :=
  if content.loraName ≠ "" ∧ content.loraName ∉ loras then
    let (m, status) := m.stopRequest (env.stops id) id
    if status = none then (m, true)
    else
      (m.modifyOwn id fun r =>
        { r with status := .generateFinished, finish := true, concluded := true }, false)
  else
    match env.outcome.limited (content.inputIds.length - env.filledLen) content.maxLength with
    | .refused threw => (m.conclude id, threw)
    | .halted step threw =>
        ((m.pushBackGenCtx ⟨id, step, content.maxLength, false⟩).conclude id, threw)
    | .failure step =>
        let m := ((m.pushBackGenCtx ⟨id, step, content.maxLength, false⟩).conclude id).modifyOwn id
          fun r => { r with status := .contextFinished }
        let (m, status) := m.stopFinished env.stops m.genCtxList.length
        (m, status = none)
    | .exception token =>
        let m := match token with
          | none => m.pushBackGenCtx ⟨id, 0, content.maxLength, false⟩
          | some token => m.runContext id content token false
        let (m, status) := m.stopRequest (env.stops id) id
        if status = none then (m, true)
        else (m.modifyOwn id fun r => { r with status := .generateInterrupted }, true)
    | .unreshaped token eos => (m.runContext id content token eos, false)
    | .success token eos =>
        let m := (m.runContext id content token eos).modifyOwn id
          fun r => { r with status := .contextFinished }
        let (m, status) := m.stopFinished env.stops m.genCtxList.length
        (m, status = none)

/-- The prompt up to a length, with room for one token: what a chunk runs. -/
def chunkContent (content : RequestContent) (newLen : Nat) : RequestContent :=
  { content with inputIds := content.inputIds.take newLen, maxLength := newLen + 1 }

def popPending (m : AsModel) : AsModel :=
  { m with pendingRequestQueue := m.pendingRequestQueue.tail }

/-- `AsModel::PrefillChunkRequest` of the request at the front. -/
def prefillChunkRequest (cfg : Config) (loras : Finset String) (env : ContextEnv) (u : Uuid)
    (m : AsModel) : AsModel × Bool :=
  let request := m.requests u
  let newLen := request.prefillChunkLen + cfg.maxPrefillLength + 1
  if request.content.warmup ∨ request.inputLen ≤ newLen then
    let (m, threw) := m.popPending.startRequest loras env ⟨u, false⟩ request.content
    if threw then (m, true)
    else (m.modifyRequest u fun r => { r with prefillChunkLen := r.inputLen }, false)
  else
    let (m, threw) := m.startRequest loras env ⟨u, true⟩ (chunkContent request.content newLen)
    if threw then (m, true)
    else (m.modifyRequest u fun r => { r with prefillChunkLen := newLen - 1 }, false)

/-- The request at the front finds no frames. -/
def interruptPending (u : Uuid) (m : AsModel) : AsModel :=
  m.popPending.modifyRequest u fun r =>
    { r with finish := true, status := .generateInterrupted, concluded := true }

/-- The prefix length found by the first admission of a request. -/
def recordPrefix (cfg : Config) (env : ContextEnv) (u : Uuid) (m : AsModel) : AsModel :=
  if cfg.prefixCache ∧ (m.requests u).prefillChunkLen = 0 then
    m.modifyRequest u fun r => { r with prefillChunkLen := env.prefixLen }
  else m

/-- The admission of the request at the front with a span cache. -/
def admitPending (cfg : Config) (loras : Finset String) (env : ContextEnv) (u : Uuid) (m : AsModel) :
    AsModel × AsStatus :=
  if cfg.prefixCache ∧ env.hashed = false then (m, .paramError)
  else
    let m := m.recordPrefix cfg env u
    if env.enoughFrames then
      let (m, threw) := m.prefillChunkRequest cfg loras env u
      if threw then (m, .runtimeError)
      else
        let m := m.storeUnfinished
        if (m.requests u).prefillChunkLen ≠ (m.requests u).inputLen then (m, .chunkPrefill)
        else
          ({ m with alreadyContextLength := m.alreadyContextLength + (m.requests u).inputLen },
            .success)
    else ((m.interruptPending u).storeUnfinished, .emptyRequest)

/-- `AsModel::GenerateContinueContext`. -/
def generateContinueContext (cfg : Config) (loras : Finset String) (isNewContext : Bool)
    (env : ContextEnv) (m : AsModel) : AsModel × AsStatus :=
  let m := if isNewContext then { m with alreadyContextLength := 0 } else m
  match m.pendingRequestQueue with
  | [] => (m, .emptyRequest)
  | u :: _ =>
      if cfg.engineMaxBatch ≤ m.genCtxList.length then (m, .emptyRequest)
      else if m.alreadyContextLength ≠ 0 ∧
          cfg.maxPrefillLength < m.alreadyContextLength + (m.requests u).inputLen then
        (m, .emptyRequest)
      else if cfg.cacheFrames then m.admitPending cfg loras env u
      else
        let (m, threw) := m.popPending.startRequest loras env ⟨u, false⟩ (m.requests u).content
        if threw then (m, .runtimeError) else (m.storeUnfinished, .success)

/-- The decoder graph: one token for each of the contexts. -/
def decodeContexts (tokens : RequestId → Int) : List GenerateContext → AsModel → AsModel
  | [], m => m
  | ctx :: rest, m =>
      decodeContexts tokens rest ((m.copyDecoderId ctx.id.uuid (ctx.step + 1)
        (tokens ctx.id)).recordToken ctx.id (tokens ctx.id))

/-- `AsModel::GenerateContinueDecoder`, while its operators succeed. -/
def generateContinueDecoder (tokens : RequestId → Int) (eos : RequestId → Bool)
    (stops : RequestId → StopOutcome) (m : AsModel) : AsModel × Option AsStatus :=
  let m := m.storeUnfinished
  if m.genCtxList = [] then (m, some .emptyRequest)
  else
    let m : AsModel := { decodeContexts tokens m.genCtxList m with
      genCtxList := m.genCtxList.map fun ctx => ctx.advance (eos ctx.id) }
    match m.stopFinished stops m.genCtxList.length with
    | (m, some .success) => (m, some .streaming)
    | result => result

end AsModel

end DashInfer.Serving
