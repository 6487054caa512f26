import DashInfer.Cache.Manager

/-!
The public functions of `PrefixCacheManager`, and what a request does around
them: its context is created before `RefFill` and destroyed after `UnRef`. The
loops over the blocks of a token list share `blockLoop`.
-/

namespace DashInfer.Cache

open Lib

/-- The values of `i` and `cache_idx` in
`for (i = start + (span - 1), cache_idx = start / span; i < token_num - 1; ...)`. -/
def blockLoop (tokenPerSpan tokenNum : Nat) : Nat → Nat → Nat → List (Nat × Nat)
  | 0, _, _ => []
  | fuel + 1, i, cacheIdx =>
      if i + 1 < tokenNum then
        (i, cacheIdx) :: blockLoop tokenPerSpan tokenNum fuel (i + tokenPerSpan) (cacheIdx + 1)
      else []

def blocks (cfg : Config) (startIdx tokenNum : Nat) : List (Nat × Nat) :=
  blockLoop cfg.tokenPerSpan tokenNum tokenNum (startIdx + (cfg.tokenPerSpan - 1))
    (startIdx / cfg.tokenPerSpan)

private theorem blockLoop_eq {tps : Nat} (hpos : 0 < tps) (tokenNum fuel : Nat) (i cacheIdx : Nat)
    (hfuel : tokenNum ≤ fuel + i) :
    blockLoop tps tokenNum fuel i cacheIdx =
      (List.range ((tokenNum - 1 - i + (tps - 1)) / tps)).map
        (fun k => (i + k * tps, cacheIdx + k)) := by
  induction fuel generalizing i cacheIdx with
  | zero =>
      have hzero : tokenNum - 1 - i = 0 := by omega
      rw [hzero, Nat.zero_add, Nat.div_eq_of_lt (by omega)]
      rfl
  | succ fuel ih =>
      unfold blockLoop
      split
      · next hin =>
          have hcount : (tokenNum - 1 - i + (tps - 1)) / tps =
              (tokenNum - 1 - (i + tps) + (tps - 1)) / tps + 1 := by
            rcases Nat.le_total (i + tps) (tokenNum - 1) with hle | hle
            · rw [← Nat.add_div_right _ hpos]
              congr 1
              omega
            · have hzero : tokenNum - 1 - (i + tps) = 0 := by omega
              rw [hzero, Nat.zero_add, Nat.div_eq_of_lt (by omega : tps - 1 < tps)]
              refine Nat.div_eq_of_lt_le ?_ ?_ <;> omega
          rw [ih (i + tps) (cacheIdx + 1) (by omega), hcount, List.range_succ_eq_map,
            List.map_cons, List.map_map]
          congr 1
          · simp
          · apply List.map_congr_left
            intro k _
            simp only [Function.comp_apply, Nat.succ_eq_add_one, Nat.succ_mul]
            congr 1 <;> omega
      · next hout =>
          have hzero : tokenNum - 1 - i = 0 := by omega
          rw [hzero, Nat.zero_add, Nat.div_eq_of_lt (by omega)]
          rfl

/-- The blocks of the loop: those from the start on that end before the last
token. -/
theorem blocks_eq (cfg : Config) (startIdx tokenNum : Nat) :
    blocks cfg startIdx tokenNum =
      (List.range ((tokenNum - 1 - startIdx) / cfg.tokenPerSpan)).map
        (fun k => (startIdx + (k + 1) * cfg.tokenPerSpan - 1,
          startIdx / cfg.tokenPerSpan + k)) := by
  have hpos := cfg.tokenPerSpan_pos
  have hcount : (tokenNum - 1 - (startIdx + (cfg.tokenPerSpan - 1)) + (cfg.tokenPerSpan - 1)) /
      cfg.tokenPerSpan = (tokenNum - 1 - startIdx) / cfg.tokenPerSpan := by
    rcases Nat.le_total (startIdx + (cfg.tokenPerSpan - 1)) (tokenNum - 1) with hle | hle
    · congr 1
      omega
    · rw [Nat.div_eq_of_lt (by omega), Nat.div_eq_of_lt (by omega)]
  unfold blocks
  rw [blockLoop_eq hpos _ _ _ _ (by omega), hcount]
  apply List.map_congr_left
  intro k _
  rw [Nat.succ_mul]
  congr 1
  omega

namespace PrefixCacheManager

variable {E : OrderedSet NodeId} {D : Type} (cfg : Config)

/-- The vectors `Insert` fills while it walks the blocks. -/
structure InsertLocals where
  insertVec : List NodeId
  swapVec : List NodeId
  victimHashVec : List Hash

/-- A block whose hash is not in the GPU table. -/
def insertUncached (ts : Nat) (hash : Hash) (n : NodeId) (v : InsertLocals) :
    Prog E D InsertLocals := do
  let s ← get
  if s.gpu.union.size < s.gpu.union.capacity then
    modifyGpu (fun g => g.insertNode hash n)
    modifyGpu (fun g => g.refNode hash ts)
    pure v
  else
    match s.gpu.union.findVictim with
    | some victim =>
        let m ← gpuAt victim
        modifyGpu (fun g => { g with union := g.union.evictorDel m })
        pure { v with
          victimHashVec := v.victimHashVec ++ [victim], insertVec := v.insertVec ++ [n] }
    | none => pure { v with swapVec := v.swapVec ++ [n] }

def insertBlock (r : ReqId) (tokens : List Token) (ts : Nat) (v : InsertLocals)
    (block : Nat × Nat) : Prog E D InsertLocals := do
  let hash := cfg.hashTokens (tokens.take (block.1 + 1))
  let s ← get
  match (s.gpu.ctx r).blockAt block.2 with
  | none => throw .badIndex
  | some (kCache, vCache) =>
      let n ← createGpuNode kCache vCache (block.1 + 1) ts hash
      setGpuNodeReady n
      modifyGpu (fun g => g.updateCtx r (fun c => { c with offered := block.2 + 1 }))
      match s.gpu.union.lookup hash with
      | some cached =>
          modifyGpu (fun g => g.refNode hash ts)
          modifyGpu (fun g => g.pushNode r cached)
          pure v
      | none =>
          modifyGpu (fun g => g.pushNode r n)
          insertUncached ts hash n v

def insert (r : ReqId) (tokens : List Token) (startIdx ts now : Nat) : Prog E D Unit := do
  let v ← foldEach (insertBlock cfg r tokens ts)
    { insertVec := [], swapVec := [], victimHashVec := [] } (blocks cfg startIdx tokens.length)
  let victims ← filterTimeoutHash cfg now v.victimHashVec
  swapToCpuByHashlist cfg victims
  deleteMultinodes victims
  forEach (fun n => do
    modifyGpu (fun g => g.insertNode (g.union.nodes n).hash n)
    modifyGpu (fun g => g.refNode (g.union.nodes n).hash ts)) v.insertVec
  swapToCpuByNodelist cfg v.swapVec

/-- The loop of `RefOnly`; the result is `(prefix_len, gpu_cached_len)`. -/
def refOnlyBlocks (r : ReqId) (tokens : List Token) (ts : Nat) :
    List (Nat × Nat) → Nat × Nat → Prog E D (Nat × Nat)
  | [], lens => pure lens
  | (i, _) :: rest, (prefixLen, gpuCachedLen) => do
      let hash := cfg.hashTokens (tokens.take (i + 1))
      let s ← get
      match s.gpu.union.lookup hash with
      | some n =>
          modifyGpu (fun g => g.refNode hash ts)
          modifyCpu (fun c => c.updateNodeTs hash ts)
          modifyGpu (fun g => g.pushNode r n)
          refOnlyBlocks r tokens ts rest
            (prefixLen + cfg.tokenPerSpan, gpuCachedLen + cfg.tokenPerSpan)
      | none =>
          if s.cpu.union.transverseHashTable hash then
            modifyCpu (fun c => c.updateNodeTs hash ts)
            refOnlyBlocks r tokens ts rest (prefixLen + cfg.tokenPerSpan, gpuCachedLen)
          else pure (prefixLen, gpuCachedLen)

/-- The loop of `RefFill`: GPU hits are referenced and filled as they are
found, CPU hits are collected once they are ready. The result is
`node_vec_cpu` and `uncached_idx`. -/
def refFillBlocks (r : ReqId) (tokens : List Token) (ts : Nat) :
    List (Nat × Nat) → List NodeId → Nat → Prog E D (List NodeId × Nat)
  | [], nodeVecCpu, uncachedIdx => pure (nodeVecCpu, uncachedIdx)
  | (i, _) :: rest, nodeVecCpu, uncachedIdx => do
      let hash := cfg.hashTokens (tokens.take (i + 1))
      let s ← get
      match s.gpu.union.lookup hash with
      | some n =>
          modifyGpu (fun g => g.refNode hash ts)
          modifyCpu (fun c => c.updateNodeTs hash ts)
          fillFromNode cfg r n
          modifyGpu (fun g => g.pushNode r n)
          refFillBlocks r tokens ts rest nodeVecCpu (uncachedIdx + cfg.tokenPerSpan)
      | none =>
          match s.cpu.union.lookup hash with
          | some n =>
              interleave
              let s ← get
              if (s.cpu.union.nodes n).isReady then
                refFillBlocks r tokens ts rest (nodeVecCpu ++ [n])
                  (uncachedIdx + cfg.tokenPerSpan)
              else throw .blocked
          | none => pure (nodeVecCpu, uncachedIdx)

/-- The eviction in `RefFill` when the GPU table has too little room for the
nodes to bring back. -/
def makeRoom (now count : Nat) : Prog E D Unit := do
  let s ← get
  let exceedNum : Int := s.gpu.union.size + count - s.gpu.union.capacity
  if 0 < exceedNum then evictUnreferedByNum cfg exceedNum now else pure ()

/-- The part of `RefFill` that brings the collected CPU nodes back. -/
def refFillFromCpu (r : ReqId) (ts now : Nat) (nodeVecCpu : List NodeId) : Prog E D Unit := do
  makeRoom cfg now nodeVecCpu.length
  let new ← swapToGpuByNodelist cfg r nodeVecCpu
  forEach (fun n => do
    let s ← get
    let hash := (s.gpu.union.nodes n).hash
    modifyGpu (fun g => g.refNode hash ts)
    modifyCpu (fun c => c.updateNodeTs hash ts)
    modifyGpu (fun g => g.pushNode r n)) new

/-- `RefFill` into the request's context; the result is `new_tokens`. -/
def refFill (r : ReqId) (tokens tokensForHash : List Token) (ts now : Nat) :
    Prog E D (List Token) := do
  modifyGpu (fun g => g.updateCtx r (fun c => { c with
    nodeList := [], offered := (tokens.length - 1) / cfg.tokenPerSpan }))
  let (nodeVecCpu, uncachedIdx) ←
    refFillBlocks cfg r tokensForHash ts (blocks cfg 0 tokens.length) [] 0
  let s ← get
  let cpuCachedLen := nodeVecCpu.length * cfg.tokenPerSpan
  let restored := nodeVecCpu ≠ [] ∧ s.seqLenThre ≤ cpuCachedLen
  if restored then refFillFromCpu cfg r ts now nodeVecCpu else pure ()
  let prefixLen := if restored then uncachedIdx else uncachedIdx - cpuCachedLen
  modifyGpu (fun g => g.updateCtx r (fun c => { c with
    prefixLen
    offered := prefixLen / cfg.tokenPerSpan
    computed := prefixLen / cfg.tokenPerSpan
    placed := c.nodeList
    tokens := tokensForHash }))
  pure (tokens.drop prefixLen)

def unRef (nodeVec : List NodeId) : Prog E D Unit :=
  forEach (fun n => do
    let s ← get
    let node := s.gpu.union.nodes n
    match s.gpu.union.lookup node.hash with
    | none => pure ()
    | some m =>
        if n = m then modifyGpu (fun g => g.unrefNode node.hash)
        else modifyGpu (fun g => g.updateNodeTs node.hash node.lastAccessTime)
    let s ← get
    modifyCpu (fun c => c.updateNodeTs node.hash (s.gpu.union.nodes n).lastAccessTime)) nodeVec

def reset : Prog E D Unit := do
  waitForAsyncTasks
  modifyGpu (fun g => { g with union := g.union.reset })
  modifyCpu (fun c => { c with union := c.union.reset })

def evictUnrefered (target : Int) (now : Nat) : Prog E D Unit := do
  let s ← get
  let frameNum := target - s.gpu.union.countFreeFrame
  evictUnreferedByNum cfg ((frameNum + cfg.layerNum * 2 - 1).tdiv (cfg.layerNum * 2)) now

def evictAllUnrefered (now : Nat) : Prog E D Unit := do
  let s ← get
  evictUnreferedByNum cfg s.gpu.union.candidates.length now

def setSeqlenThre (thre : Int) : Prog E D Unit := modify (fun s => { s with seqLenThre := thre })

/-- The frame pool grows by `count` frames and `UpdateCapacity` follows. -/
def warmup (count : Nat) : Prog E D Unit :=
  modifyGpu (fun g =>
    let spanManager := { g.union.spanManager with
      frameManager := g.union.spanManager.frameManager.growBy count }
    { g with union := { g.union with
      spanManager
      capacity := spanManager.frameManager.totalFrameCount / cfg.spanPerNode } })

/-- A new context, with `layers` empty layers on each side. -/
def newCtx (layers : Nat) (source : Nat → Nat → D) : GenCtx D :=
  { virtualK := List.replicate layers CacheArray.empty
    virtualV := List.replicate layers CacheArray.empty
    nodeList := []
    prefixLen := 0
    offered := 0
    computed := 0
    placed := []
    tokens := []
    source }

def openCtx (r : ReqId) (c : GenCtx D) : Prog E D Unit :=
  modifyGpu (fun g => { g with live := r :: g.live, ctx := Function.update g.ctx r c })

/-- The start of a request: its layers are initialised and `RefFill` runs. -/
def startRequest (r : ReqId) (tokens tokensForHash : List Token) (source : Nat → Nat → D)
    (ts now : Nat) : Prog E D (List Token) := do
  openCtx r (newCtx cfg.layerNum source)
  refFill cfg r tokens tokensForHash ts now

/-- `RefOnly` by the admission check, whose vector is held until `UnRef`. -/
def refOnly (r : ReqId) (tokens : List Token) (source : Nat → Nat → D) (ts : Nat) :
    Prog E D (Nat × Nat) := do
  openCtx r (newCtx 0 source)
  refOnlyBlocks cfg r tokens ts (blocks cfg 0 tokens.length) (0, 0)

/-- The forward pass writes the block at one position of the request's own
spans. -/
def computeBlock (r : ReqId) (cacheIdx : Nat) : Prog E D Unit :=
  modifyGpu (fun g =>
    match (g.ctx r).blockAt cacheIdx with
    | none => g
    | some (kCache, vCache) =>
        let spans := (kCache.zip vCache).flatMap (fun kv => [kv.1, kv.2])
        let frames := spans.map g.union.spanManager.frameOf
        { g with
          mem := writeFrames g.mem
            (frames.zip ((List.range frames.length).map ((g.ctx r).source cacheIdx)))
          ctx := Function.update g.ctx r
            { g.ctx r with computed := max (g.ctx r).computed (cacheIdx + 1) } })

/-- `UnRef` of a request's nodes and the destruction of its arrays, which
follow each other when a request stops or an admission check ends. -/
def stopRequest (r : ReqId) : Prog E D Unit := do
  let s ← get
  unRef (s.gpu.ctx r).nodeList
  modifyGpu (fun g => { g with
    union := { g.union with spanManager := g.union.spanManager.releaseSpans (g.ctx r).spans }
    live := g.live.erase r })

end PrefixCacheManager

end DashInfer.Cache
