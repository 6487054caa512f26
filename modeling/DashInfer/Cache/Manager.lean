import DashInfer.Cache.State

/-!
`PrefixCacheManager`: the operations of the prefix cache, private ones first,
in the order of the source. Each is a program over the state that may stop
with a fault. The copies through the GPU workspace are synchronous and leave
no trace but their result, so they are written as one assignment; the queued
host copies are tasks of the state.
-/

namespace DashInfer.Cache

open Lib

abbrev Prog (E : OrderedSet NodeId) (D α : Type) := EStateM Fault (State E D) α

namespace PrefixCacheManager

variable {E : OrderedSet NodeId} {D : Type} (cfg : Config)

def modifyGpu (f : GpuSide E D → GpuSide E D) : Prog E D Unit :=
  modify (fun s => { s with gpu := f s.gpu })

def modifyCpu (f : CpuSide E D → CpuSide E D) : Prog E D Unit :=
  modify (fun s => { s with cpu := f s.cpu })

@[simp] theorem post_modifyGpu (f : GpuSide E D → GpuSide E D) (s : State E D)
    (Q : Unit → State E D → Prop) (X : Fault → State E D → Prop) :
    Post (modifyGpu f) s Q X ↔ Q () { s with gpu := f s.gpu } := Iff.rfl

@[simp] theorem post_modifyCpu (f : CpuSide E D → CpuSide E D) (s : State E D)
    (Q : Unit → State E D → Prop) (X : Fault → State E D → Prop) :
    Post (modifyCpu f) s Q X ↔ Q () { s with cpu := f s.cpu } := Iff.rfl

def interleave : Prog E D Unit := modify State.interleave

/-- `hash_table.at` on the GPU union. -/
def gpuAt (hash : Hash) : Prog E D NodeId := do
  let s ← get
  match s.gpu.union.lookup hash with
  | none => throw .outOfRange
  | some n => pure n

def deleteGpuNode (hash : Hash) : Prog E D Unit := do
  let s ← get
  match s.gpu.deleteNode hash with
  | none => throw .outOfRange
  | some gpu => modifyGpu (fun _ => gpu)

def deleteCpuNode (hash : Hash) : Prog E D Unit := do
  let s ← get
  match s.cpu.deleteNode hash with
  | none => throw .outOfRange
  | some cpu => modifyCpu (fun _ => cpu)

def deleteMultinodes (hashVec : List Hash) : Prog E D Unit := forEach deleteGpuNode hashVec

def createGpuNode (kCache vCache : List SpanId) (prefixLen ts : Nat) (hash : Hash) :
    Prog E D NodeId := do
  if kCache.length ≠ vCache.length then throw .runtimeError
  else
    let s ← get
    let created := s.gpu.union.createNode kCache vCache prefixLen ts hash
    modifyGpu (fun g => { g with union := created.2 })
    pure created.1

def createCpuNode (kCache vCache : List SpanId) (prefixLen ts : Nat) (hash : Hash) :
    Prog E D NodeId := do
  if kCache.length ≠ vCache.length then throw .runtimeError
  else
    let s ← get
    let created := s.cpu.union.createNode kCache vCache prefixLen ts hash
    modifyCpu (fun c => { c with union := created.2 })
    pure created.1

def setGpuNodeReady (n : NodeId) : Prog E D Unit :=
  modifyGpu (fun g => { g with union := g.union.setNodeReady n })

/-- The age test of `filter_timeout_hash`: clock ticks are nanoseconds, the
age is taken in whole milliseconds. -/
def timedOut (now lastAccessTime : Nat) : Bool :=
  cfg.timeToLiveSec * 1000 < ((now : Int) - lastAccessTime).tdiv 1000000

/-- `filter_timeout_hash`: nodes that are too old are deleted, the others
stay on the list. -/
def filterTimeoutHash (now : Nat) : List Hash → Prog E D (List Hash)
  | [] => pure []
  | hash :: rest => do
      let n ← gpuAt hash
      let s ← get
      if timedOut cfg now (s.gpu.union.nodes n).lastAccessTime then
        deleteGpuNode hash
        filterTimeoutHash now rest
      else
        let kept ← filterTimeoutHash now rest
        pure (hash :: kept)

def claimCpuSpan (count : Nat) : Prog E D (Option (List SpanId)) := do
  let s ← get
  let claimed := s.cpu.union.spanManager.claimSpan count
  modifyCpu (fun c => { c with union := { c.union with spanManager := claimed.2 } })
  pure claimed.1

/-- The eviction in `alloc_cpu_node`: in a full table the first candidate
makes room, if there is one. -/
def evictCpuNode : Prog E D Bool := do
  let s ← get
  if s.cpu.union.capacity ≤ s.cpu.union.size then
    match s.cpu.union.findVictim with
    | none => pure false
    | some victim =>
        interleave
        deleteCpuNode victim
        pure true
  else pure true

/-- `alloc_cpu_node`. When only one of the two claims succeeds its spans are
not given back. -/
def allocCpuNode (cacheNum prefixLen ts : Nat) (hash : Hash) : Prog E D (Option NodeId) := do
  let s ← get
  if s.cpu.union.capacity = 0 then pure none
  else if s.cpu.union.countFreeFrame ≤ 0 then pure none
  else
    let room ← evictCpuNode
    if room then
      let kCache ← claimCpuSpan cacheNum
      let vCache ← claimCpuSpan cacheNum
      match kCache, vCache with
      | some kCache, some vCache =>
          let n ← createCpuNode kCache vCache prefixLen ts hash
          pure (some n)
      | _, _ => pure none
    else pure none

/-- `SpannedVirtualCache::GetCache` on one layer of a request; `isV` chooses
the virtual cache. -/
def getCache (r : ReqId) (isV : Bool) (layer increment : Nat) : Prog E D Unit := do
  let s ← get
  let c := s.gpu.ctx r
  let layers := if isV then c.virtualV else c.virtualK
  match layers[layer]? with
  | none => throw .runtimeError
  | some a =>
      match a.getCachePtrVec cfg increment s.gpu.union.spanManager with
      | (result, m) =>
          modifyGpu (fun g => { g with union := { g.union with spanManager := m } })
          match result with
          | .error e => throw e
          | .ok a =>
              modifyGpu (fun g => g.updateCtx r (fun c =>
                if isV then { c with virtualV := c.virtualV.set layer a }
                else { c with virtualK := c.virtualK.set layer a }))

/-- The last span of one layer. -/
def backSpan (r : ReqId) (isV : Bool) (layer : Nat) : Prog E D SpanId := do
  let s ← get
  let c := s.gpu.ctx r
  let layers := if isV then c.virtualV else c.virtualK
  match (layers[layer]?).bind (fun a => a.cache.getLast?) with
  | none => throw .badIndex
  | some span => pure span

/-- `alloc_gpu_node`: every layer of the request grows by one span, and the
new spans make up the node. -/
def allocGpuNode (r : ReqId) (prefixLen ts : Nat) (hash : Hash) : Prog E D NodeId := do
  let caches ← foldEach (fun (caches : List SpanId × List SpanId) layer => do
    getCache cfg r false layer cfg.tokenPerSpan
    getCache cfg r true layer cfg.tokenPerSpan
    let k ← backSpan r false layer
    let v ← backSpan r true layer
    pure (caches.1 ++ [k], caches.2 ++ [v])) ([], []) (List.range cfg.layerNum)
  createGpuNode caches.1 caches.2 prefixLen ts hash

/-- Step 1 of both swap-out functions: allocate a CPU node for every source
that has none, and stop at the first failure. -/
def collectSwapOut {α : Type} (find : α → Prog E D NodeId) :
    List α → Prog E D (List (NodeId × NodeId))
  | [] => pure []
  | a :: rest => do
      let src ← find a
      let s ← get
      let node := s.gpu.union.nodes src
      if s.cpu.union.transverseHashTable node.hash then
        modifyCpu (fun c => c.updateNodeTs node.hash node.lastAccessTime)
        collectSwapOut find rest
      else
        let allocated ← allocCpuNode node.cacheNum node.prefixLen node.lastAccessTime node.hash
        match allocated with
        | none => pure []
        | some n =>
            let pairs ← collectSwapOut find rest
            pure ((src, n) :: pairs)

/-- `MemcpyWorkspace::QueryBlock`. -/
def queryBlock : Prog E D WsBlock := do
  interleave
  let s ← get
  match s.cpu.availableBlocks with
  | [] => throw .blocked
  | block :: rest =>
      modifyCpu (fun c => { c with availableBlocks := rest, heldBlock := some block })
      pure block

def dropHeldBlock : Prog E D Unit := modifyCpu CpuSide.dropHeldBlock

/-- The spans of one block of the copy workspace. -/
def blockSpanNum : Nat := cfg.maxNumSpans * cfg.maxBatch * cfg.spanPerNode

/-- The two size checks both copy functions start with, around the query for a
workspace block. -/
def checkedBlock (spanNum : Nat) : Prog E D WsBlock := do
  if cfg.maxNumSpans * cfg.spanPerNode < spanNum then throw .runtimeError
  else
    let block ← queryBlock
    if blockSpanNum cfg < spanNum then
      dropHeldBlock
      throw .runtimeError
    else pure block

def contents (mem : FrameId → D) (m : SpanManager) (spans : List SpanId) : List D :=
  spans.map (fun span => mem (m.frameOf span))

def fillBlock (c : CpuSide E D) (block : WsBlock) (data : List D) : CpuSide E D :=
  { c with
    workspace := Function.update c.workspace block
      (fun idx => (data[idx]?).getD (c.workspace block idx)) }

/-- The copy task of the `i`-th new node of a batch. -/
def copyTask (u : CacheUnion E) (block : WsBlock) (cacheNum : Nat) (new : NodeId × Nat) :
    CopyTask :=
  { node := new.1
    copies := ((u.nodes new.1).spans.map u.spanManager.frameOf).zip
      (List.range' (new.2 * (2 * cacheNum)) (2 * cacheNum))
    block }

/-- `swap_nodelist_to_cpu_impl`: the spans go to a workspace block at once, the
new nodes enter the table, and one task per node fills its frames later. -/
def swapNodelistToCpuImpl (pairs : List (NodeId × NodeId)) : Prog E D Unit := do
  let s ← get
  match pairs.head? with
  | none => pure ()
  | some first =>
      let cacheNum := (s.gpu.union.nodes first.1).cacheNum
      let block ← checkedBlock cfg (pairs.length * cacheNum * 2)
      let s ← get
      let contentsOf := fun n =>
        contents s.gpu.mem s.gpu.union.spanManager (s.gpu.union.nodes n).spans
      modifyCpu (fun c => fillBlock c block (pairs.flatMap (fun p => contentsOf p.1)))
      modifyCpu (fun c => { c with
        origin := fun n => ((pairs.find? (fun p => p.2 = n)).map (fun p => contentsOf p.1)).getD
          (c.origin n) })
      forEach (fun (p : NodeId × NodeId) => modifyCpu (fun c => { c with
        union := c.union.insertNode (c.union.nodes p.2).hash p.2 })) pairs
      forEach (fun (new : NodeId × Nat) => do
        modifyCpu (fun c => { c with tasks := c.tasks ++ [copyTask c.union block cacheNum new] })
        interleave) ((pairs.map Prod.snd).zipIdx)
      dropHeldBlock

def swapToCpu (pairs : List (NodeId × NodeId)) : Prog E D Unit :=
  forEach (swapNodelistToCpuImpl cfg) (slices cfg.maxNumSpans pairs.length pairs)

def swapToCpuByNodelist (srcNodeList : List NodeId) : Prog E D Unit := do
  let pairs ← collectSwapOut pure srcNodeList
  swapToCpu cfg pairs

def swapToCpuByHashlist (hashList : List Hash) : Prog E D Unit := do
  let pairs ← collectSwapOut gpuAt hashList
  swapToCpu cfg pairs

/-- `FillCache` of a table node's spans into both virtual caches. -/
def fillFromNode (r : ReqId) (n : NodeId) : Prog E D Unit := do
  let s ← get
  let node := s.gpu.union.nodes n
  let c := s.gpu.ctx r
  match fillCache cfg s.gpu.union.spanManager c.virtualK node.kCache,
      fillCache cfg s.gpu.union.spanManager c.virtualV node.vCache with
  | some virtualK, some virtualV =>
      modifyGpu (fun g => g.updateCtx r (fun c => { c with virtualK, virtualV }))
  | _, _ => throw .badIndex

/-- Step 1 of `swap_to_gpu_by_nodelist`. -/
def collectSwapIn (r : ReqId) : List NodeId → Prog E D (List NodeId)
  | [] => pure []
  | src :: rest => do
      let s ← get
      let node := s.cpu.union.nodes src
      match s.gpu.union.lookup node.hash with
      | some n =>
          modifyGpu (fun g => g.updateNodeTs node.hash node.lastAccessTime)
          fillFromNode cfg r n
          collectSwapIn r rest
      | none =>
          let n ← allocGpuNode cfg r node.prefixLen node.lastAccessTime node.hash
          let new ← collectSwapIn r rest
          pure (n :: new)

/-- The frames of a node's spans are allocated to it and to no later span. -/
def framesKept (u : CacheUnion E) (n : NodeId) : Bool :=
  (u.nodes n).spans.all (fun span =>
    !u.spanManager.frameManager.freeFrames.contains (u.spanManager.frameOf span) &&
      (List.range u.spanManager.nextSpan).all (fun later =>
        decide (u.spanManager.frameOf later = u.spanManager.frameOf span → later ≤ span)))

/-- Ghost: what holds of the nodes of a batch as they are read back. -/
def logCopied (c : CpuSide E D) (nodes : List NodeId) : CpuSide E D :=
  { c with
    log := nodes.map (fun n =>
      .copied n (c.union.lookup (c.union.nodes n).hash = some n) (framesKept c.union n)) ++ c.log }

/-- `swap_nodelist_to_gpu_impl` on pairs of a CPU node and its new GPU node. -/
def swapNodelistToGpuImpl (pairs : List (NodeId × NodeId)) : Prog E D Unit := do
  let s ← get
  match pairs.head? with
  | none => pure ()
  | some first =>
      let cacheNum := (s.cpu.union.nodes first.1).cacheNum
      let block ← checkedBlock cfg (pairs.length * cacheNum * 2)
      modifyCpu (fun c => logCopied c (pairs.map Prod.fst))
      let s ← get
      let data := contents s.cpu.mem s.cpu.union.spanManager
        (pairs.flatMap (fun p => (s.cpu.union.nodes p.1).spans))
      modifyCpu (fun c => fillBlock c block data)
      let frames := (pairs.flatMap (fun p => (s.gpu.union.nodes p.2).spans)).map
        s.gpu.union.spanManager.frameOf
      modifyGpu (fun g => { g with mem := writeFrames g.mem (frames.zip data) })
      forEach (fun (p : NodeId × NodeId) => do
        modifyGpu (fun g => g.insertNode (g.union.nodes p.2).hash p.2)
        setGpuNodeReady p.2) pairs
      dropHeldBlock

/-- `swap_to_gpu_by_nodelist`; the result is `new_gpu_node_list`. -/
def swapToGpuByNodelist (r : ReqId) (cpuNodeList : List NodeId) : Prog E D (List NodeId) := do
  let new ← collectSwapIn cfg r cpuNodeList
  let pairs := cpuNodeList.zip new
  forEach (swapNodelistToGpuImpl cfg) (slices cfg.maxNumSpans pairs.length pairs)
  pure new

def evictUnreferedByNum (nodeNum : Int) (now : Nat) : Prog E D Unit := do
  let s ← get
  match s.gpu.union.findMultiVictims nodeNum with
  | none => throw .lengthError
  | some victims =>
      let victims ← filterTimeoutHash cfg now victims
      swapToCpuByHashlist cfg victims
      deleteMultinodes victims

def waitForAsyncTasks : Prog E D Unit := do
  interleave
  let s ← get
  if s.cpu.tasks = [] then pure () else throw .blocked

end PrefixCacheManager

end DashInfer.Cache
