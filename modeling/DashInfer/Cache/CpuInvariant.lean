import DashInfer.Cache.Manager
import DashInfer.Cache.TableStep

/-!
The invariant of the CPU side. Table nodes are never referenced and own their
frames; `batch` are nodes allocated for a swap-out and not inserted yet,
`extra` spans claimed for a node still to be created. The evictor is in order
as long as no stored timestamp moved, and a ready node holds what it was
swapped out with as long as no node was removed before its copy had finished.
-/

namespace DashInfer.Cache

open Lib CacheUnion PrefixCacheManager

variable {E : OrderedSet NodeId} {D : Type}

def batchSpans (u : CacheUnion E) (batch : List NodeId) : List SpanId :=
  batch.flatMap (fun n => (u.nodes n).spans)

/-- No timestamp of a node in the CPU evictor moved. -/
def NoTouch (log : List CpuEvent) : Prop := ∀ n, CpuEvent.touched n ∉ log

/-- No CPU node was removed before its copy had finished. -/
def NoLoss (log : List CpuEvent) : Prop := ∀ n, CpuEvent.removed n false ∉ log

/-- A node of the batch under construction. -/
structure BatchNode (layerNum : Nat) (u : CacheUnion E) (n : NodeId) : Prop where
  lt_next : n < u.nextNode
  refCnt : (u.nodes n).refCnt = 0
  kLength : (u.nodes n).kCache.length = layerNum
  vLength : (u.nodes n).vCache.length = layerNum
  absent : u.lookup (u.nodes n).hash = none

/-- What a queued task still owes its node: a position of the node either
holds its content already or is still to be written from the workspace, and
everything still to be written is right. -/
structure Pending (c : CpuSide E D) (task : CopyTask) : Prop where
  length_eq : (c.origin task.node).length = (c.union.nodes task.node).spans.length
  owed : ∀ (j : Nat) span d, (c.union.nodes task.node).spans[j]? = some span →
    (c.origin task.node)[j]? = some d →
    c.mem (c.union.spanManager.frameOf span) = d ∨
      ∃ idx, (c.union.spanManager.frameOf span, idx) ∈ task.copies ∧
        c.workspace task.block idx = d
  sound : ∀ copy ∈ task.copies, ∃ (j : Nat) (span : SpanId) (d : D),
    (c.union.nodes task.node).spans[j]? = some span ∧ (c.origin task.node)[j]? = some d ∧
      c.union.spanManager.frameOf span = copy.1 ∧ c.workspace task.block copy.2 = d

structure Copies (c : CpuSide E D) : Prop where
  ready : ∀ {hash n}, c.union.lookup hash = some n → (c.union.nodes n).isReady = true →
    contents c.mem c.union.spanManager (c.union.nodes n).spans = c.origin n
  tasked : ∀ task ∈ c.tasks, c.union.lookup (c.union.nodes task.node).hash = some task.node ∧
    (c.union.nodes task.node).isReady = false
  task_nodup : (c.tasks.map CopyTask.node).Nodup
  pending : ∀ task ∈ c.tasks, Pending c task

/-- A workspace block in use is not available. -/
structure BlocksInv (c : CpuSide E D) : Prop where
  nodup : c.availableBlocks.Nodup
  task : ∀ task ∈ c.tasks, task.block ∉ c.availableBlocks
  held : ∀ block, c.heldBlock = some block → block ∉ c.availableBlocks

structure CpuInv (cfg : Config) (c : CpuSide E D) (batch : List NodeId) (extra : List SpanId) :
    Prop where
  wf : Wf cfg.layerNum c.union (· ∈ batchSpans c.union batch ++ extra)
  capacity : c.union.capacity = c.union.countFrame / (2 * cfg.layerNum)
  refCnt : ∀ {hash n}, c.union.lookup hash = some n → (c.union.nodes n).refCnt = 0
  batchNode : ∀ n ∈ batch, BatchNode cfg.layerNum c.union n
  out_nodup : (batchSpans c.union batch ++ extra).Nodup
  out_fresh : ∀ span ∈ batchSpans c.union batch ++ extra, span ∉ c.union.tableSpans
  hash_nodup : (batch.map (fun n => (c.union.nodes n).hash)).Nodup
  evictable : NoTouch c.log → Evictable c.union
  blocks : BlocksInv c
  copies : NoLoss c.log → Copies c
  notReady : NoLoss c.log → ∀ n ∈ batch, (c.union.nodes n).isReady = false

theorem contents_eq_iff {mem : FrameId → D} {m : SpanManager} {spans : List SpanId}
    {data : List D} (hlen : data.length = spans.length) :
    contents mem m spans = data ↔
      ∀ (j : Nat) span d, spans[j]? = some span → data[j]? = some d → mem (m.frameOf span) = d := by
  constructor
  · rintro rfl j span d hspan hd
    simp only [contents, List.getElem?_map, hspan, Option.map_some, Option.some.injEq] at hd
    exact hd
  · intro h
    refine List.ext_getElem? ?_
    intro j
    simp only [contents, List.getElem?_map]
    cases hspan : spans[j]? with
    | none =>
        rw [List.getElem?_eq_none_iff] at hspan
        rw [List.getElem?_eq_none_iff.mpr (by omega)]
        rfl
    | some span =>
        have hlt : j < data.length := by
          have := (List.getElem?_eq_some_iff.mp hspan).1
          omega
        have hd : data[j]? = some data[j] := List.getElem?_eq_getElem hlt
        rw [hd, Option.map_some, h j span _ hspan hd]

namespace Pending

variable {c c' : CpuSide E D} {task : CopyTask}

/-- What a task owes depends on its node, its block and the node's frames. -/
theorem congr (h : Pending c task)
    (hspans : (c'.union.nodes task.node).spans = (c.union.nodes task.node).spans)
    (horigin : c'.origin task.node = c.origin task.node)
    (hframe : ∀ span ∈ (c.union.nodes task.node).spans,
      c'.union.spanManager.frameOf span = c.union.spanManager.frameOf span)
    (hmem : ∀ span ∈ (c.union.nodes task.node).spans,
      c'.mem (c.union.spanManager.frameOf span) = c.mem (c.union.spanManager.frameOf span))
    (hws : c'.workspace task.block = c.workspace task.block) : Pending c' task where
  length_eq := by
    rw [horigin, hspans]
    exact h.length_eq
  owed j span d hspan hd := by
    rw [hspans] at hspan
    rw [horigin] at hd
    have hin := List.mem_of_getElem? hspan
    rw [hframe span hin, hmem span hin, hws]
    exact h.owed j span d hspan hd
  sound copy hcopy := by
    obtain ⟨j, span, d, hspan, hd, hf, hw⟩ := h.sound copy hcopy
    refine ⟨j, span, d, ?_, ?_, ?_, ?_⟩
    · rw [hspans]
      exact hspan
    · rw [horigin]
      exact hd
    · rw [hframe span (List.mem_of_getElem? hspan)]
      exact hf
    · rw [hws]
      exact hw

end Pending

namespace Copies

variable {c c' : CpuSide E D}

/-- The tasks stand; nodes of the table keep their spans, frames and memory. -/
theorem congr (h : Copies c) (htasks : c'.tasks = c.tasks)
    (htable : ∀ {hash n}, c'.union.lookup hash = some n → c.union.lookup hash = some n ∨
      (c'.union.nodes n).isReady = false)
    (hnode : ∀ {hash n}, c.union.lookup hash = some n →
      (c'.union.nodes n).spans = (c.union.nodes n).spans ∧
      (c'.union.nodes n).isReady = (c.union.nodes n).isReady ∧
      (c'.union.nodes n).hash = (c.union.nodes n).hash ∧ c'.origin n = c.origin n ∧
      ∀ span ∈ (c.union.nodes n).spans,
        c'.union.spanManager.frameOf span = c.union.spanManager.frameOf span ∧
        c'.mem (c.union.spanManager.frameOf span) = c.mem (c.union.spanManager.frameOf span))
    (htasked : ∀ task ∈ c.tasks, c'.union.lookup (c.union.nodes task.node).hash = some task.node)
    (hws : ∀ task ∈ c.tasks, c'.workspace task.block = c.workspace task.block) :
    Copies c' := by
  refine
    { ready := ?_
      tasked := ?_
      task_nodup := by rw [htasks]; exact h.task_nodup
      pending := ?_ }
  · intro hash n hl hready
    rcases htable hl with hl' | hnot
    · obtain ⟨hspans, hrdy, _, horigin, hframes⟩ := hnode hl'
      rw [hrdy] at hready
      rw [hspans, horigin, ← h.ready hl' hready]
      refine List.map_congr_left ?_
      intro span hs
      rw [(hframes span hs).1, (hframes span hs).2]
    · rw [hnot] at hready
      cases hready
  · intro task ht
    rw [htasks] at ht
    obtain ⟨hl, hready⟩ := h.tasked task ht
    obtain ⟨_, hrdy, hhash, _, _⟩ := hnode hl
    rw [hhash, hrdy]
    exact ⟨htasked task ht, hready⟩
  · intro task ht
    rw [htasks] at ht
    obtain ⟨hspans, _, _, horigin, hframes⟩ := hnode (h.tasked task ht).1
    exact (h.pending task ht).congr hspans horigin (fun span hs => (hframes span hs).1)
      (fun span hs => (hframes span hs).2) (hws task ht)

end Copies

end DashInfer.Cache
