import DashInfer.Cache.Union
import DashInfer.Cache.Virtual
import DashInfer.Lib.Program

/-!
The state of one worker's prefix cache. The GPU side holds the GPU union and
the contexts of live requests; the CPU side holds the CPU union, the copy
workspace and the tasks queued on the thread pool. `D` is the content of one
span. Fields marked as ghost are never read by the operations; they record
what happened, so that results can speak about it.
-/

namespace DashInfer.Cache

open Lib

abbrev ReqId := Nat
abbrev WsBlock := Nat

/-- A request's generate context. An admission check that only references
nodes is a context without layers. -/
structure GenCtx (D : Type) where
  virtualK : List CacheArray
  virtualV : List CacheArray
  nodeList : List NodeId
  prefixLen : Nat
  /-- Ghost: positions below this one were filled by `RefFill` or offered to
  `Insert`. -/
  offered : Nat
  /-- Ghost: positions below this one were filled by `RefFill` or computed by
  the request. -/
  computed : Nat
  /-- Ghost: the nodes whose spans `RefFill` placed, in order of position. -/
  placed : List NodeId
  /-- Ghost: the token list `RefFill` was given for hashing. -/
  tokens : List Token
  /-- Ghost: the content the request itself computes for a block, per lane. -/
  source : Nat → Nat → D

namespace GenCtx

variable {D : Type}

def arrays (c : GenCtx D) : List CacheArray := c.virtualK ++ c.virtualV

/-- All spans the request's arrays refer to, K layers first. -/
def spans (c : GenCtx D) : List SpanId := c.arrays.flatMap CacheArray.cache

/-- The K and V spans of one position, over all layers; `none` when some layer
is shorter. -/
def blockAt (c : GenCtx D) (cacheIdx : Nat) : Option (List SpanId × List SpanId) := do
  let kCache ← c.virtualK.mapM (fun a => a.cache[cacheIdx]?)
  let vCache ← c.virtualV.mapM (fun a => a.cache[cacheIdx]?)
  pure (kCache, vCache)

end GenCtx

inductive GpuEvent where
  /-- A node left the table, with its count and its uses in live vectors. -/
  | removed (node : NodeId) (refCnt : Int) (holders : Nat)
  /-- A node was to be inserted under a hash that another node has. -/
  | clash (hash : Hash)
deriving DecidableEq, Repr

inductive CpuEvent where
  /-- The timestamp of a node in the evictor moved. -/
  | touched (node : NodeId)
  /-- A node left the table; `ready` says whether its copy had finished. -/
  | removed (node : NodeId) (ready : Bool)
  /-- A node was read back, with what held of it at that moment. -/
  | copied (node : NodeId) (inTable framesKept : Bool)
deriving DecidableEq, Repr

def CpuEvent.isCopied : CpuEvent → Bool
  | .copied .. => true
  | _ => false

/-- The nodes read back in a log, the latest first. -/
def copiedEvents (log : List CpuEvent) : List CpuEvent := log.filter CpuEvent.isCopied

structure GpuSide (E : OrderedSet NodeId) (D : Type) where
  union : CacheUnion E
  live : List ReqId
  ctx : ReqId → GenCtx D
  mem : FrameId → D
  log : List GpuEvent

/-- A queued copy: what it still has to write into the node's frames, from
which workspace block. -/
structure CopyTask where
  node : NodeId
  copies : List (FrameId × Nat)
  block : WsBlock

structure CpuSide (E : OrderedSet NodeId) (D : Type) where
  union : CacheUnion E
  mem : FrameId → D
  workspace : WsBlock → Nat → D
  availableBlocks : List WsBlock
  /-- The block held by the running operation itself. -/
  heldBlock : Option WsBlock
  tasks : List CopyTask
  /-- Ghost: the content a node was swapped out with, in span order. -/
  origin : NodeId → List D
  log : List CpuEvent

structure State (E : OrderedSet NodeId) (D : Type) where
  gpu : GpuSide E D
  cpu : CpuSide E D
  seqLenThre : Int
  /-- The task steps that run at the coming interleaving points. -/
  schedule : List (List Nat)

def writeFrames {D : Type} (mem : FrameId → D) (writes : List (FrameId × D)) : FrameId → D :=
  writes.foldl (fun mem write => Function.update mem write.1 write.2) mem

namespace GpuSide

variable {E : OrderedSet NodeId} {D : Type}

/-- The nodes in the vectors of live requests. -/
def entries (g : GpuSide E D) : List NodeId := g.live.flatMap (fun r => (g.ctx r).nodeList)

/-- The spans in the arrays of live requests. -/
def slots (g : GpuSide E D) : List SpanId := g.live.flatMap (fun r => (g.ctx r).spans)

def updateCtx (g : GpuSide E D) (r : ReqId) (f : GenCtx D → GenCtx D) : GpuSide E D :=
  { g with ctx := Function.update g.ctx r (f (g.ctx r)) }

def refNode (g : GpuSide E D) (hash : Hash) (ts : Nat) : GpuSide E D :=
  { g with union := g.union.refNode hash ts }

def unrefNode (g : GpuSide E D) (hash : Hash) : GpuSide E D :=
  { g with union := g.union.unrefNode hash }

def updateNodeTs (g : GpuSide E D) (hash : Hash) (ts : Nat) : GpuSide E D :=
  { g with union := g.union.updateNodeTs hash ts }

def insertNode (g : GpuSide E D) (hash : Hash) (n : NodeId) : GpuSide E D :=
  { g with
    union := g.union.insertNode hash n
    log := if (g.union.lookup hash).isSome then .clash hash :: g.log else g.log }

def deleteNode (g : GpuSide E D) (hash : Hash) : Option (GpuSide E D) :=
  match g.union.lookup hash, g.union.deleteNode hash with
  | some n, some union =>
      some { g with
        union
        log := .removed n (g.union.nodes n).refCnt (g.entries.count n) :: g.log }
  | _, _ => none

/-- `emplace_back` on the request's node vector. -/
def pushNode (g : GpuSide E D) (r : ReqId) (n : NodeId) : GpuSide E D :=
  g.updateCtx r (fun c => { c with nodeList := c.nodeList ++ [n] })

end GpuSide

namespace CpuSide

variable {E : OrderedSet NodeId} {D : Type}

def updateNodeTs (c : CpuSide E D) (hash : Hash) (ts : Nat) : CpuSide E D :=
  { c with
    union := c.union.updateNodeTs hash ts
    log :=
      match c.union.lookup hash with
      | none => c.log
      | some n =>
          if (c.union.nodes n).refCnt = 0 ∧ (c.union.nodes n).lastAccessTime < ts then
            .touched n :: c.log
          else c.log }

def deleteNode (c : CpuSide E D) (hash : Hash) : Option (CpuSide E D) :=
  match c.union.lookup hash, c.union.deleteNode hash with
  | some n, some union =>
      some { c with union, log := .removed n (c.union.nodes n).isReady :: c.log }
  | _, _ => none

/-- The last owner of a workspace block gives it back. -/
def returnBlock (c : CpuSide E D) (block : WsBlock) : CpuSide E D :=
  if c.heldBlock = some block ∨ c.tasks.any (fun task => task.block = block) then c
  else { c with availableBlocks := c.availableBlocks ++ [block] }

/-- The end of the operation's own use of its block. -/
def dropHeldBlock (c : CpuSide E D) : CpuSide E D :=
  match c.heldBlock with
  | none => c
  | some block => returnBlock { c with heldBlock := none } block

/-- One step of the `i`-th queued task: one span copied or, after the last,
the node marked ready and the task gone. -/
def stepTask (c : CpuSide E D) (i : Nat) : CpuSide E D :=
  match c.tasks[i]? with
  | none => c
  | some task =>
      match task.copies with
      | (frame, idx) :: rest =>
          { c with
            mem := Function.update c.mem frame (c.workspace task.block idx)
            tasks := c.tasks.set i { task with copies := rest } }
      | [] =>
          returnBlock
            { c with
              union := c.union.setNodeReady task.node
              tasks := c.tasks.eraseIdx i } task.block

end CpuSide

/-- A point at which queued tasks may run beside the operation. -/
def State.interleave {E : OrderedSet NodeId} {D : Type} (s : State E D) : State E D :=
  match s.schedule with
  | [] => s
  | now :: later => { s with cpu := now.foldl CpuSide.stepTask s.cpu, schedule := later }

end DashInfer.Cache
