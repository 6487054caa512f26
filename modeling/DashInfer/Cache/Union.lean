import Mathlib.Data.List.AList
import DashInfer.Cache.Node
import DashInfer.Cache.Ownership

/-!
One `CacheUnion`: the prefix table of a device, its evictor and its span
manager, with the operations the manager applies to either union. Nodes live
in a heap of their own, as shared pointers do, so that a node outlives its
table entry and two nodes with the same hash stay distinct. The evictor is any
`OrderedSet`; its comparator is read from the heap at each call.
-/

namespace DashInfer.Cache

open Lib

structure CacheUnion (E : OrderedSet NodeId) where
  capacity : Nat
  evictor : E.Carrier
  spanManager : SpanManager
  nodes : NodeId → PrefixNode
  nextNode : NodeId
  hashTable : AList (fun _ : Hash => NodeId)

namespace CacheUnion

variable {E : OrderedSet NodeId}

def init (E : OrderedSet NodeId) (frames layerNum : Nat) : CacheUnion E :=
  { capacity := frames / (2 * layerNum)
    evictor := E.empty
    spanManager := SpanManager.init frames
    nodes := fun _ =>
      { kCache := [], vCache := [], refCnt := 0, prefixLen := 0, lastAccessTime := 0
        hash := 0, isReady := false }
    nextNode := 0
    hashTable := ∅ }

def lookup (u : CacheUnion E) (hash : Hash) : Option NodeId := u.hashTable.lookup hash

def transverseHashTable (u : CacheUnion E) (hash : Hash) : Bool := (u.lookup hash).isSome

def size (u : CacheUnion E) : Nat := u.hashTable.entries.length

def countFreeFrame (u : CacheUnion E) : Int := u.spanManager.frameManager.freeFrameCount

def countFrame (u : CacheUnion E) : Nat := u.spanManager.frameManager.totalFrameCount

/-- The nodes in the evictor's set, first candidate first. -/
def candidates (u : CacheUnion E) : List NodeId := E.toList u.evictor

/-- `LRUEvictor::FindVictim`, with `none` for the default hash. -/
def findVictim (u : CacheUnion E) : Option Hash :=
  u.candidates.head?.map (fun n => (u.nodes n).hash)

/-- `LRUEvictor::FindMultiVictims`; `none` when a negative `k` reaches
`reserve`, which then throws. -/
def findMultiVictims (u : CacheUnion E) (k : Int) : Option (List Hash) :=
  let k := min (u.candidates.length : Int) k
  if k < 0 then none
  else some ((u.candidates.take k.toNat).map (fun n => (u.nodes n).hash))

def evictorAdd (u : CacheUnion E) (n : NodeId) : CacheUnion E :=
  { u with evictor := E.insert (nodeComparator u.nodes) u.evictor n }

def evictorDel (u : CacheUnion E) (n : NodeId) : CacheUnion E :=
  { u with evictor := E.erase (nodeComparator u.nodes) u.evictor n }

def modifyNode (u : CacheUnion E) (n : NodeId) (f : PrefixNode → PrefixNode) : CacheUnion E :=
  { u with nodes := Function.update u.nodes n (f (u.nodes n)) }

def refCacheSpan (u : CacheUnion E) (hash : Hash) : CacheUnion E :=
  match u.lookup hash with
  | none => u
  | some n => { u with spanManager := u.spanManager.setExtraRef true (u.nodes n).spans }

def unrefCacheSpan (u : CacheUnion E) (hash : Hash) : CacheUnion E :=
  match u.lookup hash with
  | none => u
  | some n => { u with spanManager := u.spanManager.setExtraRef false (u.nodes n).spans }

def freeCacheSpan (u : CacheUnion E) (hash : Hash) : CacheUnion E :=
  match u.lookup hash with
  | none => u
  | some n => { u with spanManager := u.spanManager.releaseSpans (u.nodes n).spans }

def refNode (u : CacheUnion E) (hash : Hash) (ts : Nat) : CacheUnion E :=
  match u.lookup hash with
  | none => u
  | some n =>
      let u := if (u.nodes n).refCnt = 0 then (u.refCacheSpan hash).evictorDel n else u
      let u := u.modifyNode n (fun node => { node with refCnt := node.refCnt + 1 })
      u.modifyNode n (PrefixNode.touch · ts)

/-- `unref_node`; the caller has found `hash` in the table. The spans keep
their extra reference, otherwise they would be released with the request. -/
def unrefNode (u : CacheUnion E) (hash : Hash) : CacheUnion E :=
  match u.lookup hash with
  | none => u
  | some n =>
      let u := u.modifyNode n (fun node => { node with refCnt := node.refCnt - 1 })
      if (u.nodes n).refCnt = 0 then u.evictorAdd n else u

def updateNodeTs (u : CacheUnion E) (hash : Hash) (ts : Nat) : CacheUnion E :=
  match u.lookup hash with
  | none => u
  | some n => u.modifyNode n (PrefixNode.touch · ts)

/-- `unordered_map::emplace`: an existing entry stays. -/
def emplace (u : CacheUnion E) (hash : Hash) (n : NodeId) : CacheUnion E :=
  match u.lookup hash with
  | none => { u with hashTable := u.hashTable.insert hash n }
  | some _ => u

/-- `insert_node`. The reference count tested is that of the node passed in,
the node added to the evictor is the one the table holds. -/
def insertNode (u : CacheUnion E) (hash : Hash) (node : NodeId) : CacheUnion E :=
  if u.size < u.capacity then
    let u := (u.emplace hash node).refCacheSpan hash
    if (u.nodes node).refCnt = 0 then u.evictorAdd ((u.lookup hash).getD node) else u
  else u

/-- `delete_node`; `none` when `hash_table.at` throws. -/
def deleteNode (u : CacheUnion E) (hash : Hash) : Option (CacheUnion E) :=
  match u.lookup hash with
  | none => none
  | some n =>
      let u := ((u.unrefCacheSpan hash).freeCacheSpan hash).evictorDel n
      some { u with hashTable := u.hashTable.erase hash }

def createNode (u : CacheUnion E) (kCache vCache : List SpanId) (prefixLen ts : Nat)
    (hash : Hash) : NodeId × CacheUnion E :=
  (u.nextNode,
    { u with
      nodes := Function.update u.nodes u.nextNode
        { kCache, vCache, refCnt := 0, prefixLen, lastAccessTime := ts, hash, isReady := false }
      nextNode := u.nextNode + 1 })

def setNodeReady (u : CacheUnion E) (n : NodeId) : CacheUnion E :=
  u.modifyNode n (fun node => { node with isReady := true })

/-- One turn of the loop in `Reset` over the table's entries. -/
def resetEntry (u : CacheUnion E) (hash : Hash) : CacheUnion E :=
  (u.unrefCacheSpan hash).freeCacheSpan hash

/-- The body of `Reset` for one union. -/
def reset (u : CacheUnion E) : CacheUnion E :=
  let u := u.hashTable.keys.foldl resetEntry u
  { u with hashTable := ∅, evictor := E.empty }

/-- The spans held by the nodes of the table. -/
def tableSpans (u : CacheUnion E) : List SpanId :=
  u.hashTable.entries.flatMap (fun e => (u.nodes e.2).spans)

end CacheUnion

end DashInfer.Cache
