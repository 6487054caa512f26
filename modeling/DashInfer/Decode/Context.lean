import DashInfer.Serving.Model
import DashInfer.Weight.Tensor

/-!
The running contexts of one rank, with the bookkeeping of their sequences, and
how they are listed, stopped and scanned. The id of a request, the outcome of a
stop and the status codes are those of the engine model.
-/

namespace DashInfer.Decode

open Lib Serving

/-- The `GenerateConfig` fields that decide when a request ends. -/
structure GenerateConfig where
  maxLength : Int
  earlyStopping : Bool
  eosTokenId : Int
  stopWordsIds : List (List Int)
  doSample : Bool
  numBeams : Int
deriving DecidableEq, Repr

/-- A host tensor of ids: its memory, the elements allocated for it, and the
length in its shape `{1, length}`. -/
structure IdTensor where
  data : Nat → Int
  capacity : Nat
  length : Nat

/-- `SetShape`: a tensor that outgrows its memory gets another one. -/
def IdTensor.setShape (memory : Nat → Int) (n : Nat) (t : IdTensor) : IdTensor :=
  if n ≤ t.capacity then { t with length := n } else ⟨memory, n, n⟩

/-- A store through the data pointer. -/
def IdTensor.store (i : Nat) (id : Int) (t : IdTensor) : IdTensor :=
  { t with data := Function.update t.data i id }

/-- The ids in the shape of the tensor. -/
def IdTensor.ids (t : IdTensor) : List Int := (List.range t.length).map t.data

structure Request where
  requestId : RequestId
  inputIds : List Int
  genCfg : GenerateConfig
  /-- `interim["generated_ids"]`, which the first operator of a context step
  inserts. -/
  generatedIds : Option IdTensor
  /-- `outputs["generated_ids_global"]`. -/
  generatedIdsGlobal : IdTensor
  finish : Bool
  status : GenerateRequestStatus

structure GenerateContext where
  request : Request
  genCfg : GenerateConfig
  step : Nat
  inLengthBias : Nat
  generateMethod : Nat
  finish : Bool
  /-- `gen_over[0]`: the batch of a context has one sequence. -/
  genOver : Bool
  inputLen : Nat
  prefixLen : Nat
  currentBatch : Nat
  /-- The sequence length of each layer of the virtual caches. -/
  virtualKCache : List Nat
  virtualVCache : List Nat
  /-- Ghost: how many contexts were listed before. -/
  serial : Nat

structure RuntimeContext where
  isContext : Bool
  currentBatch : Nat
  genCtxList : List GenerateContext

namespace RuntimeContext

def pushBackGenCtx (genCtx : GenerateContext) (rt : RuntimeContext) : RuntimeContext :=
  { rt with
    genCtxList := rt.genCtxList ++ [{ genCtx with currentBatch := rt.genCtxList.length }] }

/-- The last context moves to the place of the finished one. -/
def finishRequest (index : Nat) (rt : RuntimeContext) : RuntimeContext :=
  match rt.genCtxList.getLast? with
  | none => rt
  | some last =>
      { rt with
        genCtxList := (rt.genCtxList.set index { last with currentBatch := index }).dropLast }

end RuntimeContext

/-- The pending requests and running contexts of an `AsModel`. -/
structure AsModel where
  pendingRequestQueue : List Request
  runtimeCtx : RuntimeContext
  currentUnfinishedRequest : Int
  /-- Ghost: the number of contexts listed so far, and those removed again. -/
  started : Nat
  finished : List GenerateContext

namespace AsModel

/-- A model that has been built. -/
def start : AsModel := ⟨[], ⟨false, 0, []⟩, 0, 0, []⟩

/-- The contexts now running. -/
def running (m : AsModel) : List GenerateContext := m.runtimeCtx.genCtxList

def withRunning (m : AsModel) (l : List GenerateContext) : AsModel :=
  { m with runtimeCtx.genCtxList := l }

def startRequestImpl (request : Request) (m : AsModel) : AsModel :=
  { m with pendingRequestQueue := m.pendingRequestQueue ++ [request] }

/-- `PushBackGenCtx` of a context made for a request. -/
def pushBackGenCtx (genCtx : GenerateContext) (m : AsModel) : AsModel :=
  { m with
    runtimeCtx := m.runtimeCtx.pushBackGenCtx { genCtx with serial := m.started }
    started := m.started + 1 }

/-- What `FinishRequest` writes to the request of a context. -/
def markFinished (genCtx : GenerateContext) : GenerateContext :=
  { genCtx with request := { genCtx.request with finish := true, status := .generateFinished } }

/-- `RuntimeContext::FinishRequest`. -/
def finishRequest (index : Nat) (genCtx : GenerateContext) (m : AsModel) : AsModel :=
  { m with
    runtimeCtx := m.runtimeCtx.finishRequest index
    finished := markFinished genCtx :: m.finished }

def stopPendingRequest (id : RequestId) (m : AsModel) : AsModel :=
  { m with pendingRequestQueue := m.pendingRequestQueue.filter fun r => r.requestId ≠ id }

/-- `AsModel::StopRequest`, with the status it returns, or none for an
exception. -/
def stopRequest (outcome : StopOutcome) (id : RequestId) (m : AsModel) :
    AsModel × Option AsStatus :=
  if ∃ r ∈ m.pendingRequestQueue, r.requestId = id then
    (m.stopPendingRequest id, some .success)
  else
    match lastIdx? (fun c => decide (c.request.requestId = id)) m.running with
    | none => (m, some .success)
    | some index =>
        match m.running[index]?, outcome with
        | none, _ => (m, some .success)
        | some _, .refused => (m, some .paramError)
        | some _, .threw => (m, none)
        | some genCtx, .late =>
            let m := m.finishRequest index genCtx
            ({ m with currentUnfinishedRequest := m.currentUnfinishedRequest - 1 },
              some .runtimeError)
        | some genCtx, .done =>
            let m := m.finishRequest index genCtx
            ({ m with currentUnfinishedRequest := m.currentUnfinishedRequest - 1 }, some .success)

/-- The scan at the end of a step, over the positions below `i`, from the back,
until a stop fails. -/
def stopFinished (stops : RequestId → StopOutcome) : Nat → AsModel → AsModel × Option AsStatus
  | 0, m => (m, some .success)
  | i + 1, m =>
      match m.running[i]? with
      | none => stopFinished stops i m
      | some genCtx =>
          if genCtx.finish then
            match m.stopRequest (stops genCtx.request.requestId) genCtx.request.requestId with
            | (m, some .success) => stopFinished stops i m
            | result => result
          else stopFinished stops i m

end AsModel

end DashInfer.Decode
