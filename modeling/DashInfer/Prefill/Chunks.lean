import DashInfer.Cache.Api
import DashInfer.Prefill.RichEmbedding

/-!
The context calls of a pending request. While the prompt is longer than one
call may prefill, `PrefillChunkRequest` starts a request of its own on the next
part of it, over the input and output tensors of the original; the last call
starts the original on the whole prompt.
-/

namespace DashInfer.Prefill

open Cache PrefixCacheManager

/-- The model's limits. An `engine_max_prefill_length` of 0 was replaced by the
maximal length when the model was built. -/
structure Limits where
  cache : Config
  maxPrefillLength : Nat
  maxPrefillLength_pos : 0 < maxPrefillLength

structure GenerateConfig where
  loraName : String
  responseFormat : List (String × String)
  maxLength : Nat

def GenerateConfig.IsJson (genCfg : GenerateConfig) : Prop :=
  genCfg.responseFormat.lookup "type" = some "json_object"

instance (genCfg : GenerateConfig) : Decidable genCfg.IsJson :=
  inferInstanceAs (Decidable (_ = _))

inductive GenerateRequestStatus where
  | init
  | contextFinished
deriving DecidableEq

/-- The fields of a request that its context calls use. The `input_ids` tensor
is its data and the length its shape shows; `outputs` is what the shape of
`generated_ids_global` shows of it. -/
structure Request (R F : Type) where
  requestId : String
  inputIds : List Int
  inputShape : Nat
  outputs : List Int
  genCfg : GenerateConfig
  inputLen : Nat
  originLen : Nat
  prefillChunkLen : Nat
  status : GenerateRequestStatus
  extraEmbedding : TensorListMap R
  formatEnforcer : Option F

variable {R F : Type}

/-- The constructor of `Request`. -/
def newRequest (requestId : String) (inputIds : List Int) (inputShape : Nat) (outputs : List Int)
    (genCfg : GenerateConfig) : Request R F where
  requestId
  inputIds
  inputShape
  outputs
  genCfg
  inputLen := 0
  originLen := 0
  prefillChunkLen := 0
  status := .init
  extraEmbedding := []
  formatEnforcer := none

/-- A request that the engine let through: its prompt is not empty and parses,
and a format enforcer was made for a JSON response. The output tensor holds
whatever it was allocated with. -/
structure Admitted (R F : Type) where
  requestId : String
  inputIds : List Int
  genCfg : GenerateConfig
  extraEmbedding : TensorListMap R
  formatEnforcer : Option F
  buffer : List Int
  inputIds_pos : 0 < inputIds.length
  parses : (parseExtraEmbedding extraEmbedding inputIds).isOk = true
  formatEnforcer_isSome : genCfg.IsJson → formatEnforcer.isSome = true

/-- `StartRequestImpl` of the model. -/
def Admitted.request (a : Admitted R F) : Request R F :=
  { (newRequest a.requestId a.inputIds a.inputIds.length a.buffer a.genCfg : Request R F) with
    inputLen := a.inputIds.length
    originLen := a.inputIds.length
    extraEmbedding := a.extraEmbedding
    formatEnforcer := if a.genCfg.IsJson then a.formatEnforcer else none }

/-- What a started request runs under. -/
structure GenerateContext (F : Type) where
  genCfg : GenerateConfig
  inputLen : Nat
  formatEnforcer : Option F

/-- `buildGenContext`; for a JSON response `GenerateOp` dereferences the
enforcer. -/
def buildGenContext (request : Request R F) : GenerateContext F where
  genCfg := request.genCfg
  inputLen := request.inputShape
  formatEnforcer := if request.genCfg.IsJson then request.formatEnforcer else none

/-- What one context call meets: the blocks that `RefOnly` finds, those that
`RefFill` fills, and the token that is generated. -/
structure Call where
  found : Nat → Bool
  filled : Nat → Bool
  token : Int

/-- The length of the leading blocks of the first `tokenNum` tokens that are
hit. -/
def cachedLen (cfg : Config) (hit : Nat → Bool) (tokenNum : Nat) : Nat :=
  ((blocks cfg 0 tokenNum).takeWhile (fun block => hit block.2)).length * cfg.tokenPerSpan

/-- What a `StartRequest` ran under, which prefix it had filled and which rows
it fed. -/
structure Started (R F : Type) where
  genCtx : GenerateContext F
  prefixLen : Nat
  rows : List (Row R)

/-- `StartRequest`, on the worker of rank 0: `UpdateId` copies the prompt and
the generated token to the output tensor. -/
def startRequest (lim : Limits) (call : Call) (request : Request R F) :
    Except ParamError (Started R F × Request R F) := do
  let ids := request.inputIds.take request.inputShape
  let prefixLen := cachedLen lim.cache call.filled request.inputShape
  let rows ← feed request.extraEmbedding ids prefixLen
  .ok ({ genCtx := buildGenContext request, prefixLen, rows },
    { request with outputs := ids ++ [call.token], status := .contextFinished })

def isWarmupRequest (requestId : String) : Bool :=
  decide ("warmup".toList <:+: requestId.toList)

/-- `PrefillChunkRequest`: what it started, and the request afterwards. The
request of a chunk lives for the call only; its tensors are the original's. -/
def prefillChunkRequest (lim : Limits) (call : Call) (request : Request R F) :
    Except ParamError (Started R F × Request R F) :=
  let newLen := request.prefillChunkLen + lim.maxPrefillLength + 1
  if isWarmupRequest request.requestId then do
    let (started, request) ← startRequest lim call request
    .ok (started, { request with prefillChunkLen := request.inputLen })
  else if request.inputLen ≤ newLen then do
    let (started, request) ←
      startRequest lim call { request with inputShape := request.originLen }
    .ok (started, { request with prefillChunkLen := request.inputLen })
  else do
    let chunk : Request R F :=
      { (newRequest (request.requestId ++ "_chunk_prefill") request.inputIds newLen
          request.outputs { request.genCfg with maxLength := newLen + 1 } : Request R F) with
        inputLen := newLen }
    let (started, chunk) ← startRequest lim call chunk
    .ok (started, { request with
      inputShape := newLen, outputs := chunk.outputs, prefillChunkLen := newLen - 1 })

/-- The checks of `CreateTensorForHash` on the `input_ids` as they are shaped:
one `hash_input` tensor for every run of a placeholder. -/
def createTensorForHash (extra : TensorListMap R) (inputIds : List Int) :
    Except ParamError Unit :=
  if extra.isEmpty then .ok ()
  else
    match extra.lookup "hash_input" with
    | none => .error .hashInputMissing
    | some tensors => do
        let infos ← parseExtraEmbedding extra inputIds
        if tensors.length ≠ infos.length then .error .hashInputNum else .ok ()

/-- One context call for a request: as `PrefillChunkRequest` was given it, what
was started, and the request afterwards. -/
structure Step (R F : Type) where
  before : Request R F
  started : Started R F
  after : Request R F

/-- The prefix that `RefOnly` finds is where the first call starts. -/
def refOnly (lim : Limits) (call : Call) (request : Request R F) : Request R F :=
  if request.prefillChunkLen = 0 then
    { request with prefillChunkLen := cachedLen lim.cache call.found request.inputLen }
  else request

/-- `GenerateContinueContext` for the request at the head of the queue, when its
frames suffice. Chunked prefill requires the prefix cache. -/
def generateContinueContext (lim : Limits) (call : Call) (request : Request R F) :
    Except ParamError (Step R F) := do
  createTensorForHash request.extraEmbedding (request.inputIds.take request.inputShape)
  let before := refOnly lim call request
  let (started, after) ← prefillChunkRequest lim call before
  .ok { before, started, after }

/-- The first context calls for a request, up to the one that completes its
prefill. -/
def prefills (lim : Limits) (calls : Nat → Call) (request : Request R F) :
    Nat → Except ParamError (List (Step R F) × Request R F)
  | 0 => .ok ([], request)
  | k + 1 => do
      let (steps, request) ← prefills lim calls request k
      if request.prefillChunkLen = request.inputLen then .ok (steps, request)
      else do
        let step ← generateContinueContext lim (calls k) request
        .ok (steps ++ [step], step.after)

/-- What `UpdateResult` shows of the output tensor: nothing before the request's
own context, and from then on what follows the prompt. -/
def shown (request : Request R F) : List Int :=
  if request.status = .init then [] else request.outputs.drop request.originLen

section Specs

variable {lim : Limits} {call : Call} {request : Request R F}

theorem startRequest_of_feed {rows : List (Row R)}
    (hfeed : feed request.extraEmbedding (request.inputIds.take request.inputShape)
      (cachedLen lim.cache call.filled request.inputShape) = .ok rows) :
    startRequest lim call request =
      .ok ({ genCtx := buildGenContext request,
             prefixLen := cachedLen lim.cache call.filled request.inputShape, rows },
        { request with
          outputs := request.inputIds.take request.inputShape ++ [call.token]
          status := .contextFinished }) := by
  simp only [startRequest, hfeed]
  rfl

/-- A prefix of cached blocks leaves at least one token. -/
theorem cachedLen_lt (cfg : Config) (hit : Nat → Bool) {tokenNum : Nat} (hpos : 0 < tokenNum) :
    cachedLen cfg hit tokenNum < tokenNum := by
  have hle := (List.takeWhile_sublist (l := blocks cfg 0 tokenNum)
    (fun block => hit block.2)).length_le
  have hcount : (blocks cfg 0 tokenNum).length = (tokenNum - 1) / cfg.tokenPerSpan := by
    rw [blocks_eq, List.length_map, List.length_range, Nat.sub_zero]
  rw [hcount] at hle
  have hmul := Nat.mul_le_of_le_div _ _ _ hle
  unfold cachedLen
  omega

theorem feed_nil (ids : List Int) (prefixLen : Nat) :
    feed ([] : TensorListMap R) ids prefixLen = .ok ((ids.drop prefixLen).map Row.token) := rfl

/-- A chunk feeds tokens alone, and runs without a format enforcer. -/
theorem prefillChunkRequest_chunk (newLen : Nat)
    (hwarm : isWarmupRequest request.requestId = false)
    (hnew : newLen = request.prefillChunkLen + lim.maxPrefillLength + 1)
    (hlt : newLen < request.inputLen) :
    prefillChunkRequest lim call request =
      .ok ({ genCtx :=
               { genCfg := { request.genCfg with maxLength := newLen + 1 }
                 inputLen := newLen
                 formatEnforcer := none }
             prefixLen := cachedLen lim.cache call.filled newLen
             rows := ((request.inputIds.take newLen).drop
               (cachedLen lim.cache call.filled newLen)).map Row.token },
        { request with
          inputShape := newLen
          outputs := request.inputIds.take newLen ++ [call.token]
          prefillChunkLen := newLen - 1 }) := by
  unfold prefillChunkRequest
  rw [if_neg (by rw [hwarm]; exact Bool.false_ne_true), if_neg (by omega), ← hnew]
  simp only [newRequest]
  rw [startRequest_of_feed (feed_nil _ _)]
  simp only [buildGenContext, ite_self]
  rfl

/-- The last call starts the request itself, on its whole prompt. -/
theorem prefillChunkRequest_last {rows : List (Row R)}
    (hlast : isWarmupRequest request.requestId = true ∧ request.inputShape = request.originLen ∨
      isWarmupRequest request.requestId = false ∧
        request.inputLen ≤ request.prefillChunkLen + lim.maxPrefillLength + 1)
    (hfeed : feed request.extraEmbedding (request.inputIds.take request.originLen)
      (cachedLen lim.cache call.filled request.originLen) = .ok rows) :
    prefillChunkRequest lim call request =
      .ok ({ genCtx := buildGenContext { request with inputShape := request.originLen }
             prefixLen := cachedLen lim.cache call.filled request.originLen
             rows },
        { request with
          inputShape := request.originLen
          outputs := request.inputIds.take request.originLen ++ [call.token]
          status := .contextFinished
          prefillChunkLen := request.inputLen }) := by
  have hstart : startRequest lim call { request with inputShape := request.originLen } = _ :=
    startRequest_of_feed hfeed
  unfold prefillChunkRequest
  rcases hlast with ⟨hwarm, hshape⟩ | ⟨hwarm, hle⟩
  · cases request
    dsimp only at hshape
    subst hshape
    rw [if_pos hwarm, hstart]
    rfl
  · rw [if_neg (by rw [hwarm]; exact Bool.false_ne_true), if_pos hle, hstart]
    rfl

end Specs

end DashInfer.Prefill
