import DashInfer.Cache.Replay
import DashInfer.Prefill.Chunks
import DashInfer.Serving.Model

/-!
`AsModel::StopRequest` with the calls it makes on the prefix cache. Between the
release of the layer caches and the removal of the context from the runtime
list stand the check of the generated ids and three calls that may throw, and
each way out of them leaves the rest undone.
-/

namespace DashInfer.Model

open Lib Cache Prefill
open Serving (AsStatus)

/-- What `StopRequest` reads of a context and its request. -/
structure RunningRequest (R : Type) where
  requestId : String
  extraEmbedding : TensorListMap R
  /-- `interim["generated_ids"]`, which the first operator of the context step
  sets. -/
  generatedIds : Option (List Int)
  inputLen : Nat
  startTs : Nat
  /-- The request's virtual caches and its `prefix_cache_node_list`. -/
  cache : ReqId

inductive StopEvent where
  /-- `k_cache_list` and `v_cache_list` were freed. -/
  | freed (requestId : String)
  | unRefed (requestId : String)
  /-- The virtual caches were destroyed. -/
  | destroyed (requestId : String)
deriving DecidableEq, Repr

structure Worker (E : OrderedSet NodeId) (D R : Type) where
  pendingRequestQueue : List String
  genCtxList : List (RunningRequest R)
  currentUnfinishedRequest : Int
  prefixCache : Cache.State E D
  /-- Ghost: the releases so far, the latest first. -/
  log : List StopEvent

structure StopConfig (R : Type) where
  cache : Config
  /-- Span attention on a CUDA device. -/
  cuda : Bool
  /-- There is a `prefix_cache_manager_`. -/
  prefixCacheManager : Bool
  /-- `Hash64` of a tensor. -/
  hash64 : List R → Int

inductive HashFailure where
  | paramError (error : ParamError)
  /-- `src_tensor_map.at` throws. -/
  | outOfRange

variable {E : OrderedSet NodeId} {D R : Type}

/-- `ReplacePlaceHolder`: the hash of its tensor at every position of a run. -/
def replacePlaceHolder (ids : List Int) (runs : List (RichEmbeddingInfo R × Int)) : List Int :=
  runs.foldl (fun ids run =>
    ids.mapIdx fun pos id =>
      if run.1.startPos ≤ (pos : Int) ∧ (pos : Int) < run.1.startPos + run.1.placeHolderCnt then run.2
      else id) ids

/-- `CreateTensorForHash` on `generated_ids`. -/
def generatedIdsForHash (cfg : StopConfig R) (ctx : RunningRequest R) :
    Except HashFailure (List Int) :=
  if ctx.extraEmbedding.isEmpty then
    match ctx.generatedIds with
    | none => .error .outOfRange
    | some ids => .ok ids
  else
    match ctx.extraEmbedding.lookup "hash_input" with
    | none => .error (.paramError .hashInputMissing)
    | some tensors =>
        match ctx.generatedIds with
        | none => .error .outOfRange
        | some ids =>
            match createTensorForHash ctx.extraEmbedding ids,
                parseExtraEmbedding ctx.extraEmbedding ids with
            | .ok _, .ok infos => .ok (replacePlaceHolder ids (infos.zip (tensors.map cfg.hash64)))
            | .error error, _ => .error (.paramError error)
            | _, .error error => .error (.paramError error)

/-- A program of the prefix cache. -/
def runCache {α : Type} (x : Prog E D α) : EStateM Fault (Worker E D R) α := fun w =>
  match x.run w.prefixCache with
  | .ok a cache => .ok a { w with prefixCache := cache }
  | .error e cache => .error e { w with prefixCache := cache }

def record (event : StopEvent) : EStateM Fault (Worker E D R) Unit :=
  modify fun w => { w with log := event :: w.log }

/-- `virtual_k_cache.reset()` and `virtual_v_cache.reset()`. -/
def destroyCaches (r : ReqId) : Prog E D Unit :=
  PrefixCacheManager.modifyGpu fun g => { g with
    union := { g.union with spanManager := g.union.spanManager.releaseSpans (g.ctx r).spans }
    live := g.live.erase r }

/-- The `Insert` of a request that stops. -/
def insertGenerated (cfg : StopConfig R) (ctx : RunningRequest R) (tokens : List Int) (now : Nat) :
    Prog E D Unit :=
  PrefixCacheManager.insert cfg.cache ctx.cache tokens
    (ctx.inputLen / cfg.cache.tokenPerSpan * cfg.cache.tokenPerSpan) ctx.startTs now

/-- The calls on the prefix cache, with what they release recorded. -/
def leavePrefixCache (cfg : StopConfig R) (ctx : RunningRequest R) (tokens : List Int)
    (now : Nat) : EStateM Fault (Worker E D R) Unit := do
  runCache (insertGenerated cfg ctx tokens now)
  let w ← get
  runCache (PrefixCacheManager.unRef (w.prefixCache.gpu.ctx ctx.cache).nodeList)
  record (.unRefed ctx.requestId)
  runCache (destroyCaches ctx.cache)
  record (.destroyed ctx.requestId)
  if isWarmupRequest ctx.requestId then
    runCache (PrefixCacheManager.evictAllUnrefered cfg.cache now)

/-- The part of `StopRequest` for span attention, with the status of an early
return. -/
def leaveCaches (cfg : StopConfig R) (ctx : RunningRequest R) (now : Nat) :
    EStateM Fault (Worker E D R) (Option AsStatus) :=
  if cfg.cuda then
    if cfg.prefixCacheManager then
      match generatedIdsForHash cfg ctx with
      | .error (.paramError _) => pure (some .paramError)
      | .error .outOfRange => throw .outOfRange
      | .ok tokens => do
          leavePrefixCache cfg ctx tokens now
          pure none
    else do
      runCache (destroyCaches ctx.cache)
      record (.destroyed ctx.requestId)
      pure none
  else pure none

/-- `FinishRequest`, the counter, and the reshape for the requests that are
left, which may fail. -/
def finishRequest (idx : Nat) (reshapes : Bool) : EStateM Fault (Worker E D R) AsStatus := do
  modify fun w => { w with
    genCtxList := swapRemove w.genCtxList idx
    currentUnfinishedRequest := w.currentUnfinishedRequest - 1 }
  let w ← get
  if w.genCtxList.isEmpty || reshapes then pure .success else pure .runtimeError

/-- `StopRequest` of the context at `idx`. -/
def stopRunning (cfg : StopConfig R) (idx : Nat) (ctx : RunningRequest R) (now : Nat)
    (reshapes : Bool) : EStateM Fault (Worker E D R) AsStatus := do
  record (.freed ctx.requestId)
  match ← leaveCaches cfg ctx now with
  | some status => pure status
  | none => finishRequest idx reshapes

/-- `AsModel::StopRequest`. -/
def stopRequest (cfg : StopConfig R) (requestId : String) (now : Nat) (reshapes : Bool) :
    EStateM Fault (Worker E D R) AsStatus := do
  let w ← get
  if requestId ∈ w.pendingRequestQueue then do
    modify fun w => { w with
      pendingRequestQueue := w.pendingRequestQueue.filter (· ≠ requestId) }
    pure .success
  else
    match lastIdx? (fun ctx => ctx.requestId = requestId) w.genCtxList with
    | none => pure .success
    | some idx =>
        match w.genCtxList[idx]? with
        | none => pure .success
        | some ctx => stopRunning cfg idx ctx now reshapes

/-- How a call ends that returns or throws; one that waits for ever or leaves a
container's bounds has no end. -/
def ended {σ α : Type} : EStateM.Result Fault σ α → Option σ
  | .ok _ t => some t
  | .error e t => if e = .blocked ∨ e = .badIndex then none else some t

/-- The call throws. -/
def Throws {σ α : Type} : EStateM.Result Fault σ α → Prop
  | .ok _ _ => False
  | .error e _ => e ≠ .blocked ∧ e ≠ .badIndex

/-- The request was given up completely, each resource once. -/
structure Stopped (cfg : StopConfig R) (idx : Nat) (requestId : String)
    (w w' : Worker E D R) : Prop where
  freed : w'.log.count (.freed requestId) = w.log.count (.freed requestId) + 1
  unRefed : cfg.cuda = true → cfg.prefixCacheManager = true →
    w'.log.count (.unRefed requestId) = w.log.count (.unRefed requestId) + 1
  destroyed : cfg.cuda = true →
    w'.log.count (.destroyed requestId) = w.log.count (.destroyed requestId) + 1
  removed : w'.genCtxList = swapRemove w.genCtxList idx
  counted : w'.currentUnfinishedRequest = w.currentUnfinishedRequest - 1

/-- However `StopRequest` ends, the request is given up completely. -/
def StopsCompletely (cfg : StopConfig R) (w : Worker E D R) (idx : Nat) (requestId : String)
    (now : Nat) (reshapes : Bool) : Prop :=
  ∀ w', ended ((stopRequest cfg requestId now reshapes).run w) = some w' →
    Stopped cfg idx requestId w w'

/-- The calls that `StopRequest` makes on the prefix cache. -/
def stopCalls (cfg : StopConfig R) (ctx : RunningRequest R) (tokens : List Int) (now : Nat) :
    Prog E D Unit := do
  insertGenerated cfg ctx tokens now
  let s ← get
  PrefixCacheManager.unRef (s.gpu.ctx ctx.cache).nodeList
  destroyCaches ctx.cache
  if isWarmupRequest ctx.requestId then PrefixCacheManager.evictAllUnrefered cfg.cache now

/-- There is no prefix cache, or the generated ids are there and pass their
check, and no call on the prefix cache throws. -/
def Releasable (cfg : StopConfig R) (w : Worker E D R) (ctx : RunningRequest R)
    (now : Nat) : Prop :=
  cfg.cuda = true → cfg.prefixCacheManager = true →
    ∃ tokens, generatedIdsForHash cfg ctx = .ok tokens ∧
      ¬ Throws ((stopCalls cfg ctx tokens now).run w.prefixCache)

variable {cfg : StopConfig R} {w : Worker E D R} {ctx : RunningRequest R} {idx now : Nat}
  {reshapes : Bool}

theorem runCache_run {α : Type} (x : Prog E D α) (w : Worker E D R) :
    (runCache x).run w = match x.run w.prefixCache with
      | .ok a cache => .ok a { w with prefixCache := cache }
      | .error e cache => .error e { w with prefixCache := cache } := rfl

theorem record_run (event : StopEvent) (w : Worker E D R) :
    (record event).run w = .ok () { w with log := event :: w.log } := rfl

/-- The recorded calls are those of the prefix cache. -/
theorem leavePrefixCache_run (cfg : StopConfig R) (ctx : RunningRequest R) (tokens : List Int)
    (now : Nat) (w : Worker E D R) :
    match (stopCalls cfg ctx tokens now).run w.prefixCache with
    | .ok _ cache => (leavePrefixCache cfg ctx tokens now).run w = .ok () { w with
        prefixCache := cache
        log := .destroyed ctx.requestId :: .unRefed ctx.requestId :: w.log }
    | .error e _ => ∃ w', (leavePrefixCache cfg ctx tokens now).run w = .error e w' ∧
        w'.currentUnfinishedRequest = w.currentUnfinishedRequest := by
  simp only [stopCalls, leavePrefixCache, EStateM.run_bind, runCache_run, record_run]
  cases hinsert : (insertGenerated cfg ctx tokens now).run w.prefixCache with
  | error e cache => exact ⟨_, rfl, rfl⟩
  | ok _ inserted =>
      simp only [EStateM.run_get]
      cases hunRef : (PrefixCacheManager.unRef
          (inserted.gpu.ctx ctx.cache).nodeList).run inserted with
      | error e cache => exact ⟨_, rfl, rfl⟩
      | ok _ unRefed =>
          simp only []
          cases hdestroy : (destroyCaches ctx.cache).run unRefed with
          | error e cache => exact ⟨_, rfl, rfl⟩
          | ok _ destroyed =>
              simp only []
              by_cases hwarmup : isWarmupRequest ctx.requestId = true
              · simp only [hwarmup, if_true, runCache_run]
                cases hevict : (PrefixCacheManager.evictAllUnrefered cfg.cache now).run
                    destroyed with
                | error e cache => exact ⟨_, rfl, rfl⟩
                | ok _ evicted => rfl
              · simp only [hwarmup]
                rfl

theorem stopRequest_run {requestId : String} (hpending : requestId ∉ w.pendingRequestQueue)
    (hidx : lastIdx? (fun ctx => ctx.requestId = requestId) w.genCtxList = some idx)
    (hctx : w.genCtxList[idx]? = some ctx) :
    (stopRequest cfg requestId now reshapes).run w =
      (stopRunning cfg idx ctx now reshapes).run w := by
  unfold stopRequest
  rw [EStateM.run_bind, EStateM.run_get]
  simp only [if_neg hpending, hidx, hctx]

theorem stopRunning_run (cfg : StopConfig R) (idx : Nat) (ctx : RunningRequest R) (now : Nat)
    (reshapes : Bool) (w : Worker E D R) :
    (stopRunning cfg idx ctx now reshapes).run w =
      match (leaveCaches cfg ctx now).run { w with log := .freed ctx.requestId :: w.log } with
      | .ok (some status) w' => .ok status w'
      | .ok none w' => (finishRequest idx reshapes).run w'
      | .error e w' => .error e w' := by
  unfold stopRunning
  rw [EStateM.run_bind, record_run]
  simp only [EStateM.run_bind]
  cases (leaveCaches cfg ctx now).run { w with log := .freed ctx.requestId :: w.log } with
  | error e w' => rfl
  | ok status w' =>
      cases status with
      | some status => rfl
      | none => rfl

/-- The end of `StopRequest` removes the context whether or not the reshape
succeeds. -/
theorem finishRequest_run (idx : Nat) (reshapes : Bool) (w : Worker E D R) :
    ∃ status, (finishRequest idx reshapes).run w = .ok status { w with
      genCtxList := swapRemove w.genCtxList idx
      currentUnfinishedRequest := w.currentUnfinishedRequest - 1 } := by
  unfold finishRequest
  rw [EStateM.run_bind, EStateM.run_modify]
  simp only [EStateM.run_bind, EStateM.run_get]
  split
  · exact ⟨_, rfl⟩
  · exact ⟨_, rfl⟩

/-- An early return, or an exception, leaves the request counted. -/
theorem releasable_of_stopsCompletely
    (h : ∀ w', ended ((stopRunning cfg idx ctx now reshapes).run w) = some w' →
      w'.currentUnfinishedRequest = w.currentUnfinishedRequest - 1) :
    Releasable cfg w ctx now := by
  intro hcuda hmanager
  rw [stopRunning_run] at h
  unfold leaveCaches at h
  simp only [hcuda, hmanager, if_true] at h
  cases htokens : generatedIdsForHash cfg ctx with
  | error failure =>
      rw [htokens] at h
      cases failure with
      | paramError error =>
          have hdown := h _ rfl
          simp only [] at hdown
          omega
      | outOfRange =>
          have hdown := h { w with log := .freed ctx.requestId :: w.log } rfl
          simp only [] at hdown
          omega
  | ok tokens =>
      rw [htokens] at h
      refine ⟨tokens, rfl, fun hthrows => ?_⟩
      have hrun := leavePrefixCache_run cfg ctx tokens now
        { w with log := .freed ctx.requestId :: w.log }
      cases hcalls : (stopCalls cfg ctx tokens now).run w.prefixCache with
      | ok _ cache =>
          rw [hcalls] at hthrows
          exact hthrows
      | error e cache =>
          rw [hcalls] at hthrows
          simp only [hcalls] at hrun
          obtain ⟨w', hleave, hcount⟩ := hrun
          simp only [EStateM.run_bind, hleave] at h
          have hdown := h w' (if_neg (not_or.mpr hthrows))
          omega

theorem stopped_of_releasable (h : Releasable cfg w ctx now) {w' : Worker E D R}
    (hend : ended ((stopRunning cfg idx ctx now reshapes).run w) = some w') :
    Stopped cfg idx ctx.requestId w w' := by
  rw [stopRunning_run] at hend
  unfold leaveCaches at hend
  by_cases hcuda : cfg.cuda = true
  · rw [if_pos hcuda] at hend
    by_cases hmanager : cfg.prefixCacheManager = true
    · rw [if_pos hmanager] at hend
      obtain ⟨tokens, htokens, hcalm⟩ := h hcuda hmanager
      have hrun := leavePrefixCache_run cfg ctx tokens now
        { w with log := .freed ctx.requestId :: w.log }
      simp only [htokens, EStateM.run_bind] at hend
      cases hcalls : (stopCalls cfg ctx tokens now).run w.prefixCache with
      | error e cache =>
          simp only [hcalls] at hrun
          obtain ⟨w'', hleave, -⟩ := hrun
          rw [hcalls] at hcalm
          simp only [hleave, ended] at hend
          have hstuck : e = .blocked ∨ e = .badIndex := by
            by_contra hnot
            exact hcalm (not_or.mp hnot)
          rw [if_pos hstuck] at hend
          cases hend
      | ok _ cache =>
          simp only [hcalls] at hrun
          simp only [hrun, EStateM.run_pure] at hend
          obtain ⟨status, hfinish⟩ := finishRequest_run idx reshapes { w with
            prefixCache := cache
            log := .destroyed ctx.requestId :: .unRefed ctx.requestId ::
              .freed ctx.requestId :: w.log }
          rw [hfinish] at hend
          obtain rfl := Option.some.inj hend
          constructor <;> simp
    · rw [if_neg hmanager] at hend
      obtain ⟨cache, hdestroy⟩ : ∃ cache,
          (destroyCaches ctx.cache).run w.prefixCache = .ok () cache := ⟨_, rfl⟩
      simp only [EStateM.run_bind, runCache_run, hdestroy, record_run, EStateM.run_pure] at hend
      obtain ⟨status, hfinish⟩ := finishRequest_run idx reshapes { w with
        prefixCache := cache
        log := .destroyed ctx.requestId :: .freed ctx.requestId :: w.log }
      rw [hfinish] at hend
      obtain rfl := Option.some.inj hend
      constructor <;> simp [hmanager]
  · rw [if_neg hcuda, EStateM.run_pure] at hend
    obtain ⟨status, hfinish⟩ := finishRequest_run idx reshapes
      { w with log := .freed ctx.requestId :: w.log }
    simp only [hfinish] at hend
    obtain rfl := Option.some.inj hend
    constructor <;> simp [hcuda]

/-- A worker that runs one request, over an empty prefix cache. -/
def runningAlone (ctx : RunningRequest Nat) : Worker (listSet NodeId) Nat Nat where
  pendingRequestQueue := []
  genCtxList := [ctx]
  currentUnfinishedRequest := 1
  prefixCache := bootState oneLayer 64 64
  log := []

def prefixCaching : StopConfig Nat where
  cache := oneLayer
  cuda := true
  prefixCacheManager := true
  hash64 := fun rows => rows.length

/-- A prompt of a placeholder and a text token, after which the placeholder
was generated once more. -/
def repeatedPlaceholder : RunningRequest Nat where
  requestId := "0"
  extraEmbedding := [("5", [[1]]), ("hash_input", [[2]])]
  generatedIds := some [5, 9, 5]
  inputLen := 2
  startTs := 0
  cache := 0

def textOnly : RunningRequest Nat :=
  { repeatedPlaceholder with extraEmbedding := [] }

/-- A stop of the only request is complete only if its ids pass the check. -/
theorem generatedIds_of_stopsCompletely {ctx : RunningRequest Nat} (hid : ctx.requestId = "0")
    (h : StopsCompletely prefixCaching (runningAlone ctx) 0 "0" 0 true) :
    ∃ tokens, generatedIdsForHash prefixCaching ctx = .ok tokens := by
  have hidx : lastIdx? (fun ctx : RunningRequest Nat => ctx.requestId = "0")
      (runningAlone ctx).genCtxList = some 0 := by
    simp [runningAlone, lastIdx?, hid]
  have hrun : (stopRequest prefixCaching "0" 0 true).run (runningAlone ctx) = _ :=
    stopRequest_run List.not_mem_nil hidx rfl
  unfold StopsCompletely at h
  rw [hrun] at h
  obtain ⟨tokens, htokens, -⟩ :=
    releasable_of_stopsCompletely (fun w' hend => (h w' hend).counted) rfl rfl
  exact ⟨tokens, htokens⟩

theorem repeatedPlaceholder_refused :
    (generatedIdsForHash prefixCaching repeatedPlaceholder).isOk = false := by
  decide +kernel

end DashInfer.Model
