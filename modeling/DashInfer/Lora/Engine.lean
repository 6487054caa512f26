import DashInfer.Lora.Tables
import DashInfer.Serving.State

/-!
`GemmLoraCapsuleOpGPU`: the base gemm, the LoRA operator, their sum and an
activation in one operator. `Reshape` decides between the graph with LoRA and
the one without; `Forward` asks the manager again.
-/

namespace DashInfer.Lora

/-- The operators in `lora_op_list_`. -/
inductive InnerOp where
  | baseGemm
  | sgmv
  | baseAddLora
  | act
deriving DecidableEq, Repr

/-- The tensors between them. -/
inductive TensorName where
  | capsuleOut
  | baseOut
  | binAddOut
deriving DecidableEq, Repr

/-- What `InitV2` fixes. -/
structure CapsuleOp where
  activation : Bool
  sgmv : SgmvOp

structure Capsule where
  /-- The output of `lora_op_list_.front()`. -/
  frontOut : TensorName
  /-- The input of the activation, `lora_op_list_.back()` if there is one. -/
  backIn : TensorName
  hasLoraInBatch : Bool
  sgmv : SgmvLora
deriving DecidableEq, Repr

/-- How the `Reshape` calls of the inner operators go, apart from the errors
that the LoRAs cause. -/
structure ReshapeEnv where
  front : Bool
  shaped : Bool
  rest : Bool
  /-- What becomes of the operator when it reads past the end of the list of
  contexts. -/
  pastEnd : Capsule

namespace CapsuleOp

/-- The operators of the graph with LoRA, or of the standard one. -/
def graph (op : CapsuleOp) (useStdGemmGraph : Bool) : List InnerOp :=
  (if useStdGemmGraph then [.baseGemm] else [.baseGemm, .sgmv, .baseAddLora]) ++
    if op.activation then [.act] else []

/-- After `InitV2`. -/
def init (op : CapsuleOp) : Capsule where
  frontOut := .baseOut
  backIn := .binAddOut
  hasLoraInBatch := false
  sgmv := ⟨.cleared, .cleared⟩

end CapsuleOp

namespace Capsule

def switchLoraGraph (op : CapsuleOp) (useStdGemmGraph : Bool) (c : Capsule) : Capsule :=
  if op.activation then
    { c with backIn := if useStdGemmGraph then .baseOut else .binAddOut }
  else { c with frontOut := if useStdGemmGraph then .capsuleOut else .baseOut }

/-- `GemmLoraCapsuleOpGPU::Reshape`, with whether it succeeds. -/
def reshape (op : CapsuleOp) (env : ReshapeEnv) (m : LoraManager) (batch : Option Batch)
    (c : Capsule) : Capsule × Bool :=
  if m.isEmpty then (c.switchLoraGraph op true, env.front && env.rest)
  else
    match batch with
    | none => (env.pastEnd, env.rest)
    | some batch =>
        if batch.HasLora then
          let c := { c with hasLoraInBatch := true }.switchLoraGraph op false
          if env.front then
            let (sgmv, reshaped) := c.sgmv.reshape op.sgmv m batch env.shaped
            ({ c with sgmv }, reshaped && env.rest)
          else (c, false)
        else
          ({ c with hasLoraInBatch := false }.switchLoraGraph op true, env.front && env.rest)

/-- `GemmLoraCapsuleOpGPU::Forward`, with the operators it runs. -/
def forward (op : CapsuleOp) (m : LoraManager) (c : Capsule) : Capsule × List InnerOp :=
  if m.isEmpty then (c.switchLoraGraph op true, op.graph true)
  else if c.hasLoraInBatch then (c.switchLoraGraph op false, op.graph false)
  else (c.switchLoraGraph op true, op.graph true)

end Capsule

/-- A call of `Forward`: the loaded LoRAs and the batch, the operators that ran,
and the tables of the LoRA operator. -/
structure Forward where
  manager : LoraManager
  batch : Batch
  ops : List InnerOp
  sgmv : SgmvLora

/-- The graph chosen is that of the batch, and the LoRA operator works with the
tables of that batch, whose pointers are those of loaded LoRAs. -/
structure Forward.Lawful (op : CapsuleOp) (f : Forward) : Prop where
  branch : .sgmv ∈ f.ops ↔ f.batch.HasLora
  tables : .sgmv ∈ f.ops → op.sgmv.tables f.manager f.batch = .ok f.sgmv.tables
  device : .sgmv ∈ f.ops → f.sgmv.device = f.sgmv.tables
  loaded : .sgmv ∈ f.ops → Scan.Gathered op.sgmv f.manager f.batch.loraNames f.sgmv.tables

/-- The operator is ready to run on a batch. -/
def Ready (op : CapsuleOp) (m : LoraManager) (batch : Batch) (c : Capsule) : Prop :=
  (c.hasLoraInBatch = true ↔ batch.HasLora) ∧
    (batch.HasLora → op.sgmv.tables m batch = .ok c.sgmv.tables ∧ c.sgmv.device = c.sgmv.tables)

section Facts

variable {op : CapsuleOp} {env : ReshapeEnv} {m : LoraManager} {batch : Batch} {c : Capsule}

@[simp] theorem sgmv_mem_graph (useStdGemmGraph : Bool) :
    .sgmv ∈ op.graph useStdGemmGraph ↔ useStdGemmGraph = false := by
  unfold CapsuleOp.graph
  cases useStdGemmGraph <;> cases op.activation <;> simp

@[simp] theorem switchLoraGraph_hasLoraInBatch (useStdGemmGraph : Bool) :
    (c.switchLoraGraph op useStdGemmGraph).hasLoraInBatch = c.hasLoraInBatch := by
  unfold Capsule.switchLoraGraph
  split <;> rfl

@[simp] theorem switchLoraGraph_sgmv (useStdGemmGraph : Bool) :
    (c.switchLoraGraph op useStdGemmGraph).sgmv = c.sgmv := by
  unfold Capsule.switchLoraGraph
  split <;> rfl

theorem SgmvLora.reshape_ok {s s' : SgmvLora} {shaped : Bool}
    (h : s.reshape op.sgmv m batch shaped = (s', true)) :
    op.sgmv.tables m batch = .ok s'.tables ∧ s'.device = s'.tables := by
  unfold SgmvLora.reshape at h
  split at h
  case h_1 => simp at h
  case h_2 tables htables =>
      split at h
      · obtain rfl := (Prod.mk.inj h).1
        exact ⟨htables, rfl⟩
      · simp at h

/-- Once the tables of a batch with LoRA are computed, the operator is ready for
the batch. -/
private theorem reshape_ready_of_tables (hempty : m.isEmpty = false)
    (htables : batch.HasLora → env.front = true ∧
      ∃ s', c.sgmv.reshape op.sgmv m batch env.shaped = (s', true)) :
    Ready op m batch (c.reshape op env m (some batch)).1 := by
  unfold Capsule.reshape
  simp only [hempty, Bool.false_eq_true, if_false]
  by_cases hlora : batch.HasLora
  · obtain ⟨hfront, s', hs'⟩ := htables hlora
    simp only [hlora, hfront, if_true, switchLoraGraph_sgmv, hs']
    refine ⟨⟨fun _ => hlora, fun _ => ?_⟩, fun _ => SgmvLora.reshape_ok hs'⟩
    exact switchLoraGraph_hasLoraInBatch _
  · simp only [hlora, if_false]
    exact ⟨⟨fun hflag => by simp at hflag, fun hhas => absurd hhas hlora⟩,
      fun hhas => absurd hhas hlora⟩

/-- A `Reshape` that succeeds leaves the operator ready for its batch. -/
theorem Capsule.reshape_ready (hempty : m.isEmpty = false)
    (h : (c.reshape op env m (some batch)).2 = true) :
    Ready op m batch (c.reshape op env m (some batch)).1 := by
  refine reshape_ready_of_tables hempty fun hlora => ?_
  unfold Capsule.reshape at h
  simp only [hempty, hlora, Bool.false_eq_true, if_false, if_true, switchLoraGraph_sgmv] at h
  by_cases hfront : env.front = true
  · simp only [hfront, if_true, Bool.and_eq_true] at h
    exact ⟨hfront, _, Prod.ext rfl h.1⟩
  · simp [hfront] at h

/-- So does one that comes past the tables, for LoRAs that fit. -/
theorem Capsule.reshape_ready_of_fits (hempty : m.isEmpty = false) (hfront : env.front = true)
    (hshaped : env.shaped = true)
    (hnames : ∀ name ∈ batch.loraNames, name = "" ∨ op.sgmv.Fits m name) :
    Ready op m batch (c.reshape op env m (some batch)).1 := by
  refine reshape_ready_of_tables hempty fun _ => ⟨hfront, ?_⟩
  obtain ⟨tables, htables⟩ := SgmvOp.tables_ok hnames
  unfold SgmvLora.reshape
  simp only [htables, hshaped, if_true]
  exact ⟨_, rfl⟩

/-- A batch without LoRA is never left marked as one with LoRA. -/
theorem Capsule.reshape_plain (hplain : ¬ batch.HasLora) (hflag : c.hasLoraInBatch = false) :
    (c.reshape op env m (some batch)).1.hasLoraInBatch = false := by
  unfold Capsule.reshape
  by_cases hempty : m.isEmpty = true
  · simp [hempty, hflag]
  · simp [hempty, hplain]

theorem forward_capsule (op : CapsuleOp) (m : LoraManager) (c : Capsule) :
    (c.forward op m).1.hasLoraInBatch = c.hasLoraInBatch ∧ (c.forward op m).1.sgmv = c.sgmv := by
  unfold Capsule.forward
  split
  · simp
  · split <;> simp

/-- A call on an operator that is ready, or with no LoRA loaded and none in the
batch, is lawful. -/
theorem Capsule.forward_lawful
    (h : if m.isEmpty then ¬ batch.HasLora else Ready op m batch c) :
    Forward.Lawful op ⟨m, batch, (c.forward op m).2, (c.forward op m).1.sgmv⟩ := by
  rw [(forward_capsule op m c).2]
  by_cases hempty : m.isEmpty = true
  · rw [if_pos hempty] at h
    have hstd : .sgmv ∉ (c.forward op m).2 := by
      unfold Capsule.forward
      simp [hempty]
    exact ⟨⟨fun hmem => absurd hmem hstd, fun hhas => absurd hhas h⟩,
      fun hmem => absurd hmem hstd, fun hmem => absurd hmem hstd, fun hmem => absurd hmem hstd⟩
  · rw [if_neg hempty] at h
    have hbranch : .sgmv ∈ (c.forward op m).2 ↔ batch.HasLora := by
      rw [← h.1]
      unfold Capsule.forward
      rw [if_neg hempty]
      cases c.hasLoraInBatch <;> simp
    exact
      { branch := hbranch
        tables := fun hmem => (h.2 (hbranch.mp hmem)).1
        device := fun hmem => (h.2 (hbranch.mp hmem)).2
        loaded := fun hmem => SgmvOp.tables_gathered (h.2 (hbranch.mp hmem)).1 }

end Facts

end DashInfer.Lora

/-!
The steps of an engine around one LoRA operator on one rank: requests started,
stopped and released, context and decoder steps with the `Reshape` calls they
make, results updated, LoRAs loaded and unloaded.
-/

namespace DashInfer.Lora

open Lib Serving

/-- What the LoRA usage depends on of a request whose handle is registered. -/
structure Request where
  loraName : String
  status : GenerateRequestStatus
  finish : Bool
  /-- The status of its result queue is not a final one. -/
  queueOpen : Bool
deriving DecidableEq, Repr

structure GenerateContext where
  id : RequestId
  loraName : String
  finish : Bool
deriving DecidableEq, Repr

structure RuntimeContext where
  isContext : Bool
  currentBatch : Nat
  genCtxList : List GenerateContext
deriving DecidableEq, Repr

namespace RuntimeContext

def loraNames (rt : RuntimeContext) : List String := rt.genCtxList.map GenerateContext.loraName

/-- The current decode list. -/
def decodeBatch (rt : RuntimeContext) : Batch := ⟨false, rt.loraNames, 1⟩

/-- The batch that `Reshape` sees, or none if `GetContextGenCtx` reads past the
end of the list. -/
def batch (seqLen : Nat) (rt : RuntimeContext) : Option Batch :=
  if rt.isContext then
    rt.genCtxList[rt.currentBatch]?.map fun c => ⟨true, [c.loraName], seqLen⟩
  else some rt.decodeBatch

end RuntimeContext

structure Engine where
  manager : LoraManager
  usage : LoraUsage
  requests : Uuid → Option Request
  pendingRequestQueue : List Uuid
  runtimeCtx : RuntimeContext
  capsule : Capsule

/-- The `Reshape` calls of the decoder operators: whether those before this one
succeed, and those after it; `seqLen` is the length of the input. -/
structure TopoEnv where
  before : Bool
  seqLen : Nat
  capsule : ReshapeEnv
  after : Bool

/-- How `AsModel::StopRequest` goes for a running request: whether its cache is
released, whether a failure before that is an exception, and the `Reshape`
calls after it. -/
structure StopEnv where
  released : Bool
  threw : Bool
  reshape : TopoEnv

/-- How `AsModel::StartRequest` goes. -/
structure ContextEnv where
  /-- `buildGenContext` succeeds. -/
  built : Bool
  /-- The caches are set up and filled. -/
  filled : Bool
  /-- The step comes to the `Reshape` of the decoder operators. -/
  prepared : Bool
  reshape : TopoEnv
  /-- The step comes from there to the `Forward` of this operator. -/
  forwarded : Bool
  /-- The request is finished by its first token. -/
  finish : Bool
  /-- The step ends in an exception. -/
  threw : Bool
  catchStop : StopEnv
  /-- The spans are inserted into the prefix cache. -/
  inserted : Bool
  restore : TopoEnv
  stops : RequestId → StopEnv

structure DecodeEnv where
  /-- `AllocDecoderMemory` succeeds. -/
  allocated : Bool
  /-- The step comes to the `Forward` of this operator. -/
  forwarded : Bool
  /-- The step comes to its end. -/
  completed : Bool
  finish : RequestId → Bool
  stops : RequestId → StopEnv

/-- A LoRA to load: by its name, or by the path of its file. -/
inductive LoraSource where
  | named (loraName : String)
  | file (dir stem : String)
deriving DecidableEq, Repr

/-- The text given to `LoadLoraByName`. -/
def LoraSource.text : LoraSource → String
  | .named loraName => loraName
  | .file dir stem => dir ++ "/" ++ stem ++ ".aslora"

/-- The name it is registered under. -/
def LoraSource.loraName : LoraSource → String
  | .named loraName => loraName
  | .file _ stem => stem

namespace Engine

def loraNames (s : Engine) : List String := s.runtimeCtx.loraNames

def modifyRequest (u : Uuid) (f : Request → Request) (s : Engine) : Engine :=
  { s with requests := Function.update s.requests u ((s.requests u).map f) }

/-- A change of the request object of a context. That of a chunk is a temporary
one. -/
def modifyOwn (id : RequestId) (f : Request → Request) (s : Engine) : Engine :=
  if id.chunk then s else s.modifyRequest id.uuid f

/-- `CallReshape` of the decoder operators, with whether all succeed. -/
def reshapeOps (op : CapsuleOp) (env : TopoEnv) (s : Engine) : Engine × Bool :=
  if env.before then
    let (capsule, reshaped) :=
      s.capsule.reshape op env.capsule s.manager (s.runtimeCtx.batch env.seqLen)
    ({ s with capsule }, reshaped && env.after)
  else (s, false)

def stopPendingRequest (u : Uuid) (s : Engine) : Engine :=
  { s.modifyRequest u fun r => { r with status := .generateFinished } with
    pendingRequestQueue := s.pendingRequestQueue.filter (· ≠ u) }

def finishRequest (index : Nat) (id : RequestId) (s : Engine) : Engine :=
  { s.modifyOwn id fun r => { r with finish := true, status := .generateFinished } with
    runtimeCtx.genCtxList := swapRemove s.runtimeCtx.genCtxList index }

/-- `AsModel::StopRequest`, with whether it succeeds. The operators are reshaped
while requests are left. -/
def stopRequest (op : CapsuleOp) (env : StopEnv) (id : RequestId) (s : Engine) : Engine × Bool :=
  if id.chunk = false ∧ id.uuid ∈ s.pendingRequestQueue then (s.stopPendingRequest id.uuid, true)
  else
    match lastIdx? (fun c => decide (c.id = id)) s.runtimeCtx.genCtxList with
    | none => (s, true)
    | some index =>
        if env.released then
          let s := s.finishRequest index id
          if s.runtimeCtx.genCtxList = [] then (s, true) else s.reshapeOps op env.reshape
        else (s, false)

/-- The contexts below position `i` that are finished are stopped, from the
back, until a stop fails. -/
def stopFinished (op : CapsuleOp) (stops : RequestId → StopEnv) : Nat → Engine → Engine
  | 0, s => s
  | i + 1, s =>
      match s.runtimeCtx.genCtxList[i]? with
      | none => stopFinished op stops i s
      | some c =>
          if c.finish then
            match s.stopRequest op (stops c.id) c.id with
            | (s, true) => stopFinished op stops i s
            | (s, false) => s
          else stopFinished op stops i s

def pushBackGenCtx (c : GenerateContext) (s : Engine) : Engine :=
  { s with runtimeCtx.genCtxList := s.runtimeCtx.genCtxList ++ [c] }

/-- The contexts that `finish` names are finished. -/
def markFinished (finish : RequestId → Bool) (s : Engine) : Engine :=
  { s with
    runtimeCtx.genCtxList :=
      s.runtimeCtx.genCtxList.map fun c => { c with finish := c.finish || finish c.id } }

/-- `AsModel::runDecoderContext`, with the call of `Forward` it makes. Its status
is used by no caller. -/
def runDecoderContext (op : CapsuleOp) (env : ContextEnv) (loraName : String) (s : Engine) :
    Engine × List Forward :=
  if env.prepared then
    let (s, reshaped) := s.reshapeOps op env.reshape
    if reshaped ∧ env.forwarded then
      let (capsule, ops) := s.capsule.forward op s.manager
      ({ s with capsule }, [⟨s.manager, ⟨true, [loraName], env.reshape.seqLen⟩, ops, capsule.sgmv⟩])
    else (s, [])
  else (s, [])

/-- The part of `StartRequest` after a context that did not throw. -/
def finishContext (op : CapsuleOp) (env : ContextEnv) (id : RequestId) (s : Engine) : Engine :=
  if env.inserted then
    let s := { s with runtimeCtx.isContext := false, runtimeCtx.currentBatch := 0 }
    let (s, restored) := s.reshapeOps op env.restore
    if restored then
      let s := s.modifyOwn id fun r => { r with status := .contextFinished }
      let s := s.markFinished fun other => decide (other = id) && env.finish
      s.stopFinished op env.stops s.runtimeCtx.genCtxList.length
    else s
  else s

/-- The handler for a context that threw. -/
def catchContext (op : CapsuleOp) (env : ContextEnv) (id : RequestId) (s : Engine) : Engine :=
  let (s, stopped) := s.stopRequest op env.catchStop id
  if stopped = false ∧ env.catchStop.threw then s
  else s.modifyOwn id fun r => { r with status := .generateInterrupted }

/-- `AsModel::StartRequest`, with the calls of `Forward` it makes. -/
def startRequest (op : CapsuleOp) (env : ContextEnv) (id : RequestId) (loraName : String)
    (s : Engine) : Engine × List Forward :=
  if loraName ≠ "" ∧ s.manager.isLoraExists loraName = false then
    let (s, stopped) := s.stopRequest op env.catchStop id
    if stopped = false ∧ env.catchStop.threw then (s, [])
    else (s.modifyOwn id fun r => { r with status := .generateFinished, finish := true }, [])
  else if env.built then
    let batch := s.runtimeCtx.genCtxList.length
    let s := s.pushBackGenCtx ⟨id, loraName, false⟩
    if env.filled then
      let s := { s with runtimeCtx.isContext := true, runtimeCtx.currentBatch := batch }
      let (s, forwards) := s.runDecoderContext op env loraName
      (if env.threw then s.catchContext op env id else s.finishContext op env id, forwards)
    else (s, [])
  else (s, [])

/-- `AllocDecoderMemory` and `GenerateContinueDecoder`, with the call of
`Forward`. -/
def decode (op : CapsuleOp) (env : DecodeEnv) (s : Engine) : Engine × List Forward :=
  let s := { s with runtimeCtx.isContext := false, runtimeCtx.currentBatch := 0 }
  if env.allocated ∧ s.runtimeCtx.genCtxList ≠ [] ∧ env.forwarded then
    let (capsule, ops) := s.capsule.forward op s.manager
    let forwards := [⟨s.manager, s.runtimeCtx.decodeBatch, ops, capsule.sgmv⟩]
    let s := { s with capsule }
    if env.completed then
      let s := s.markFinished env.finish
      (s.stopFinished op env.stops s.runtimeCtx.genCtxList.length, forwards)
    else (s, forwards)
  else (s, [])

/-- An entry of `UpdateResult`. -/
def updateResult (u : Uuid) (s : Engine) : Engine :=
  match s.requests u with
  | none => s
  | some r =>
      if r.queueOpen = false ∨ r.status = .init then s
      else if r.status = .generateInterrupted then s.modifyRequest u ({ · with queueOpen := false })
      else
        let s := if r.finish then s.modifyRequest u ({ · with queueOpen := false }) else s
        if r.status = .generateFinished then { s with usage := s.usage.release r.loraName } else s

/-- `AsModel::LoadLoraByName`; `read` says whether the weights can be read. -/
def loadLoraByName (name : String) (weights : WeightMap) (read : Bool) (s : Engine) : Engine :=
  if s.manager.loraMaxNum ≤ s.manager.loras.length then s
  else if s.manager.isLoraExists name then s
  else if read then { s with manager := s.manager.registerLora name weights }
  else s

/-- `AsModel::UnloadLoraByName`. -/
def unloadLoraByName (name : String) (s : Engine) : Engine :=
  if s.manager.isLoraExists name then { s with manager := s.manager.unRegisterLora name } else s

end Engine

inductive Action where
  /-- A call of `StartRequest` that is accepted, and its message. -/
  | start (u : Uuid) (loraName : String)
  /-- One that a stopping model refuses, which keeps the use it took. -/
  | deny (loraName : String)
  /-- The request at the front finds no cache frames. -/
  | interrupt
  /-- A context step of the request at the front, or of a chunk of it. -/
  | context (chunk : Bool) (env : ContextEnv)
  | decode (env : DecodeEnv)
  | stop (u : Uuid) (env : StopEnv)
  | release (u : Uuid) (env : StopEnv)
  | updateResult (u : Uuid)
  | load (source : LoraSource) (weights : WeightMap) (read : Bool)
  | unload (name : String)

namespace Engine

/-- One action, or none where the engine does not take it. Whether a LoRA exists
is asked of the first rank by the engine and of each rank by its model; the
former question is left open here, as the ranks may differ. A context step that
threw is followed by a decoder step. -/
def act (op : CapsuleOp) (s : Engine) : Action → Option (Engine × List Forward)
  | .start u loraName =>
      if s.requests u = none ∧ u ∉ s.pendingRequestQueue then
        some ({ s with
          usage := s.usage.acquire loraName
          requests := Function.update s.requests u (some ⟨loraName, .init, false, true⟩)
          pendingRequestQueue := s.pendingRequestQueue ++ [u] }, [])
      else none
  | .deny loraName => some ({ s with usage := s.usage.acquire loraName }, [])
  | .interrupt =>
      match s.pendingRequestQueue with
      | [] => none
      | u :: rest =>
          some ({ s.modifyRequest u
              fun r => { r with finish := true, status := .generateInterrupted } with
            pendingRequestQueue := rest }, [])
  | .context chunk env =>
      match s.pendingRequestQueue with
      | [] => none
      | u :: rest =>
          match s.requests u with
          | none => none
          | some r =>
              if s.runtimeCtx.isContext then none
              else
                let s := if chunk then s else { s with pendingRequestQueue := rest }
                some (s.startRequest op env ⟨u, chunk⟩ r.loraName)
  | .decode env => some (s.decode op env)
  | .stop u env =>
      if s.runtimeCtx.isContext then none else some ((s.stopRequest op env ⟨u, false⟩).1, [])
  | .release u env =>
      if s.runtimeCtx.isContext then none
      else
        let s := (s.stopRequest op env ⟨u, false⟩).1
        some ({ s with requests := Function.update s.requests u none }, [])
  | .updateResult u => some (s.updateResult u, [])
  | .load source weights read =>
      if source.text = "" ∨ source.text ∈ s.usage.names then none
      else some (s.loadLoraByName source.loraName weights read, [])
  | .unload name =>
      if name = "" ∨ name ∈ s.usage.names then none else some (s.unloadLoraByName name, [])

/-- A run, with the calls of `Forward` in it. -/
def run (op : CapsuleOp) : List Action → Engine → Option (Engine × List Forward)
  | [], s => some (s, [])
  | a :: rest, s =>
      match s.act op a with
      | none => none
      | some (s, forwards) =>
          match run op rest s with
          | none => none
          | some (s, later) => some (s, forwards ++ later)

/-- A built model without LoRAs. -/
def init (op : CapsuleOp) (loraMaxNum : Nat) : Engine where
  manager := ⟨loraMaxNum, []⟩
  usage := ⟨none, 0⟩
  requests := fun _ => none
  pendingRequestQueue := []
  runtimeCtx := ⟨false, 0, []⟩
  capsule := op.init

end Engine

end DashInfer.Lora
