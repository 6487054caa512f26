import DashInfer.Decode.GenList

/-!
The context step and the decode step of one rank, in the parts that move `step`,
`in_length_bias`, the ids and the cached lengths: `runDecoderContext` and
`GenerateContinueDecoder` with `PreProcessIdOp`, `SpanAttnOp::Alloc`, the fill
of the sampled ids and `UpdateIdOp`. The ids sampled, the prefix found in the
cache and the memory handed out are input of a step.
-/

namespace DashInfer.Decode

open Lib Serving

/-- What a rank knows of itself. -/
structure Worker where
  rankId : Nat
  nranks : Nat
  device : Weight.DeviceType
  modelMaxLength : Nat
  decoderLayer : Nat
deriving Repr

namespace GenerateContext

/-- The length of `new_input_ids`. -/
def inLength (c : GenerateContext) : Nat := c.inputLen - c.prefixLen

/-- `generated_len`, as the operators after the sampling compute it. -/
def generatedLen (c : GenerateContext) : Nat := c.step + c.inLengthBias + 1

def withGeneratedIds (t : IdTensor) (c : GenerateContext) : GenerateContext :=
  { c with request := { c.request with generatedIds := some t } }

def withGlobal (t : IdTensor) (c : GenerateContext) : GenerateContext :=
  { c with request := { c.request with generatedIdsGlobal := t } }

/-- What `RefFill` does to the context: the cached prefix is in every layer. -/
def refFill (prefixLen : Nat) (c : GenerateContext) : GenerateContext :=
  { c with
    prefixLen := prefixLen
    virtualKCache := c.virtualKCache.map fun _ => prefixLen
    virtualVCache := c.virtualVCache.map fun _ => prefixLen }

/-- `gen_cfg.do_sample && gen_cfg.num_beams == 1` is method 0. -/
def chooseMethod (c : GenerateContext) : GenerateContext :=
  { c with
    generateMethod := if c.genCfg.doSample ∧ c.genCfg.numBeams = 1 then 0 else 1 }

/-- `in_length > gen_cfg.max_length`, where the bound becomes a `size_t`. -/
def exceedsMaxLength (c : GenerateContext) : Prop :=
  0 ≤ c.genCfg.maxLength ∧ c.genCfg.maxLength < c.inLength

instance (c : GenerateContext) : Decidable c.exceedsMaxLength := by
  unfold exceedsMaxLength
  infer_instance

/-- `SpanAttnOp::Alloc` of one layer after the other: the cached lengths, and
whether every check held. -/
def allocLayers (step seqLen : Nat) : List Nat → List Nat → (List Nat × List Nat) × Bool
  | k :: ks, v :: vs =>
      if step = k ∧ step = v then
        let rest := allocLayers step seqLen ks vs
        (((k + seqLen) :: rest.1.1, (v + seqLen) :: rest.1.2), rest.2)
      else ((k :: ks, v :: vs), false)
  | ks, vs => ((ks, vs), true)

def alloc (seqLen : Nat) (c : GenerateContext) : GenerateContext × Bool :=
  let caches := allocLayers c.step seqLen c.virtualKCache c.virtualVCache
  ({ c with virtualKCache := caches.1.1, virtualVCache := caches.1.2 }, caches.2)

/-- `check_stop_words` on the first `generatedLen` elements. -/
def stopMatched (generatedLen : Nat) (data : Nat → Int) (stopWordsIds : List (List Int)) : Bool :=
  stopWordsIds.any fun word =>
    decide (word.length < generatedLen) &&
      decide ((List.range word.length).map (fun k => data (generatedLen - word.length + k)) = word)

/-- `check_finish`, or none where there are no `generated_ids` to read. -/
def checkFinish (c : GenerateContext) : Option GenerateContext :=
  if c.finish then some c
  else if ((c.step + c.inLengthBias : Nat) : Int) ≥ c.genCfg.maxLength - 1 then
    some { c with finish := true }
  else
    match c.request.generatedIds with
    | none => none
    | some ids =>
        if c.genCfg.earlyStopping ∧ ids.data (c.step + c.inLengthBias) = c.genCfg.eosTokenId then
          some { c with finish := true }
        else if c.generateMethod = 0 ∧ c.genCfg.stopWordsIds ≠ [] then
          let genOver := c.genOver || stopMatched c.generatedLen ids.data c.genCfg.stopWordsIds
          some { c with genOver := genOver, finish := genOver }
        else some c

end GenerateContext

/-- A copy between the buffers of two tensors, at the positions `p`. -/
def IdTensor.copyFrom (t source : IdTensor) (p : Nat → Prop) [DecidablePred p] : IdTensor :=
  { t with data := fun i => if p i then source.data i else t.data i }

/-- What a context step gets from outside: the prefix in the cache, the id
sampled, what newly allocated memory holds, and whether the span cache can give
the step its frames. -/
structure ContextInput where
  prefixLen : Nat
  decId : Int
  memory : Nat → Int
  frames : Bool

/-- What a decode step gets from outside: the ids sampled for the sequences of
the batch, and what newly allocated memory holds. -/
structure DecodeInput where
  decIds : Nat → Int
  memory : Nat → Int

/-- `current_unfinished_request_` set to the requests there are. -/
def AsModel.countUnfinished (m : AsModel) : AsModel :=
  { m with currentUnfinishedRequest := m.pendingRequestQueue.length + m.running.length }

@[simp] theorem AsModel.running_countUnfinished (m : AsModel) :
    m.countUnfinished.running = m.running := rfl

namespace Worker

/-- `buildGenContext`, and `InitLayer` of the virtual caches, which only a CUDA
device has. -/
def buildGenContext (w : Worker) (request : Request) : GenerateContext :=
  let layers := if w.device = .cuda then w.decoderLayer else 0
  { request := request, genCfg := request.genCfg, step := 0, inLengthBias := 0
    generateMethod := 0, finish := false, genOver := false
    inputLen := request.inputIds.length, prefixLen := 0, currentBatch := 0
    virtualKCache := List.replicate layers 0, virtualVCache := List.replicate layers 0
    serial := 0 }

/-- `PreProcessIdOp::Forward`: the prompt in a new tensor of the model's length.
`insert` leaves a tensor that is already there. -/
def preProcessId (w : Worker) (memory : Nat → Int) (c : GenerateContext) : GenerateContext :=
  match c.request.generatedIds with
  | some _ => c
  | none =>
      c.withGeneratedIds
        { data := fun i => c.request.inputIds.getD i (memory i)
          capacity := w.modelMaxLength
          length := c.request.inputIds.length }

/-- `fill_generated_ids_gpu` and `fill_generated_ids_cpu` of one sequence, or
none for an exception of `interim.at`. -/
def fillGeneratedIds (w : Worker) (memory : Nat → Int) (decId : Int) (c : GenerateContext) :
    Option GenerateContext :=
  if w.device = .cpu ∧ w.rankId ≠ 0 then some c
  else
    match c.request.generatedIds with
    | none => none
    | some ids =>
        some (c.withGeneratedIds
          ((ids.setShape memory c.generatedLen).store (c.generatedLen - 1) decId))

/-- `copy_generated_ids`, or none for an exception of `interim.at`. -/
def copyGeneratedIds (w : Worker) (memory : Nat → Int) (isContext : Bool) (c : GenerateContext) :
    Option GenerateContext :=
  if w.rankId = 0 then
    match c.request.generatedIds with
    | none => none
    | some ids =>
        let shaped := c.request.generatedIdsGlobal.setShape memory ids.length
        if isContext then some (c.withGlobal (shaped.copyFrom ids fun i => i < c.generatedLen))
        else some (c.withGlobal (shaped.copyFrom ids fun i => i = c.step))
  else some c

/-- The operators of `gen_graph` and `post_graph` on one sequence. -/
def generate (w : Worker) (memory : Nat → Int) (isContext : Bool) (decId : Int)
    (c : GenerateContext) : Option GenerateContext := do
  let c ← w.fillGeneratedIds memory decId c
  let c ← c.checkFinish
  w.copyGeneratedIds memory isContext c

/-- `runDecoderContext`: the context as the step leaves it with the status
returned, or none for an exception. -/
def runDecoderContext (w : Worker) (input : ContextInput) (c : GenerateContext) :
    Option (GenerateContext × AsStatus) :=
  let c := c.chooseMethod
  if c.exceedsMaxLength then some (c, .paramError)
  else
    let c := w.preProcessId input.memory { c with step := c.prefixLen }
    let allocated := c.alloc c.inLength
    if allocated.2 = false then some (allocated.1, .runtimeError)
    else if input.frames = false then none
    else
      let c := allocated.1
      let bias := if c.prefixLen = 0 then c.inputLen else c.inLength
      (w.generate input.memory true input.decId { c with inLengthBias := bias }).map fun c =>
        ({ c with inLengthBias := 0, step := c.inLength + c.prefixLen }, .success)

/-- `AsModel::StartRequest`: the model and the status returned, or none for an
exception. The status of `runDecoderContext` is not looked at. -/
def startRequest (w : Worker) (input : ContextInput) (request : Request) (m : AsModel) :
    AsModel × Option AsStatus :=
  let batch := m.running.length
  let m := m.pushBackGenCtx ((w.buildGenContext request).refFill input.prefixLen)
  match m.running[batch]? with
  | none => (m, none)
  | some c =>
      match w.runDecoderContext input c with
      | none => ((m.stopRequest .done request.requestId).1, none)
      | some (c, _) =>
          let m := m.withRunning (m.running.set batch c)
          m.stopFinished (fun _ => .done) m.running.length

/-- One sequence in a decode step, whose place in the batch is its own. -/
def decodeOne (w : Worker) (input : DecodeInput) (c : GenerateContext) : Option GenerateContext :=
  let allocated := c.alloc 1
  if allocated.2 then
    w.generate input.memory false (input.decIds c.currentBatch)
      { allocated.1 with step := allocated.1.step + 1 }
  else none

/-- `GenerateContinueDecoder`, or none where an operator fails, after which the
engine does not go on. `AllocDecoderMemory` has seen to the frames. -/
def generateContinueDecoder (w : Worker) (input : DecodeInput) (m : AsModel) :
    Option (AsModel × Option AsStatus) :=
  let m := m.countUnfinished
  if m.running.length = 0 then some (m, some .emptyRequest)
  else
    match m.running.mapM (w.decodeOne input) with
    | none => none
    | some running =>
        let m := m.withRunning running
        match m.stopFinished (fun _ => .done) m.running.length with
        | (m, some .success) => some (m, some .streaming)
        | result => some result

end Worker

end DashInfer.Decode
