import DashInfer.Cache.CpuStep

/-!
The thread pool's side: steps of queued copy tasks, the workspace blocks, and
what the main thread does around them when it swaps a batch out. A task step
changes memory and readiness only, so everything else the main thread knows
stays as it is.
-/

namespace DashInfer.Cache

open Lib CacheUnion PrefixCacheManager

variable {E : OrderedSet NodeId} {D : Type} {cfg : Config} {c c' : CpuSide E D}
  {batch : List NodeId} {extra : List SpanId} {n : NodeId}

/-- What task steps leave alone: everything but memory, tasks, blocks and the
readiness of nodes, which only comes. -/
structure Aside (c c' : CpuSide E D) : Prop where
  hashTable : c'.union.hashTable = c.union.hashTable
  nextNode : c'.union.nextNode = c.union.nextNode
  capacity : c'.union.capacity = c.union.capacity
  spanManager : c'.union.spanManager = c.union.spanManager
  evictor : c'.union.evictor = c.union.evictor
  node : ∀ n, ∃ ready, c'.union.nodes n = { c.union.nodes n with isReady := ready } ∧
    ((c.union.nodes n).isReady = true → ready = true)
  origin : c'.origin = c.origin
  heldBlock : c'.heldBlock = c.heldBlock
  log : c'.log = c.log

namespace Aside

theorem refl (c : CpuSide E D) : Aside c c :=
  ⟨rfl, rfl, rfl, rfl, rfl, fun _ => ⟨_, rfl, id⟩, rfl, rfl, rfl⟩

theorem trans {c'' : CpuSide E D} (h : Aside c c') (h' : Aside c' c'') : Aside c c'' where
  hashTable := h'.hashTable.trans h.hashTable
  nextNode := h'.nextNode.trans h.nextNode
  capacity := h'.capacity.trans h.capacity
  spanManager := h'.spanManager.trans h.spanManager
  evictor := h'.evictor.trans h.evictor
  node n := by
    obtain ⟨ready, heq, hcome⟩ := h.node n
    obtain ⟨ready', heq', hcome'⟩ := h'.node n
    refine ⟨ready', ?_, ?_⟩
    · rw [heq', heq]
    · intro hready
      refine hcome' ?_
      rw [heq]
      exact hcome hready
  origin := h'.origin.trans h.origin
  heldBlock := h'.heldBlock.trans h.heldBlock
  log := h'.log.trans h.log

theorem lookup (h : Aside c c') (hash : Hash) : c'.union.lookup hash = c.union.lookup hash := by
  unfold CacheUnion.lookup
  rw [h.hashTable]

theorem spans (h : Aside c c') (n : NodeId) :
    (c'.union.nodes n).spans = (c.union.nodes n).spans := by
  obtain ⟨ready, heq, _⟩ := h.node n
  rw [heq]
  rfl

theorem hash (h : Aside c c') (n : NodeId) :
    (c'.union.nodes n).hash = (c.union.nodes n).hash := by
  obtain ⟨ready, heq, _⟩ := h.node n
  rw [heq]

theorem size (h : Aside c c') : c'.union.size = c.union.size := by
  unfold CacheUnion.size
  rw [h.hashTable]

theorem tableSpans (h : Aside c c') : c'.union.tableSpans = c.union.tableSpans := by
  unfold CacheUnion.tableSpans
  rw [h.hashTable]
  exact List.flatMap_congr (fun e _ => h.spans e.2)

end Aside

theorem returnBlock_union (block : WsBlock) : (c.returnBlock block).union = c.union := by
  unfold CpuSide.returnBlock
  split <;> rfl

theorem aside_returnBlock (block : WsBlock) : Aside c (c.returnBlock block) := by
  unfold CpuSide.returnBlock
  split
  · exact Aside.refl c
  · exact ⟨rfl, rfl, rfl, rfl, rfl, fun _ => ⟨_, rfl, id⟩, rfl, rfl, rfl⟩

theorem aside_stepTask (i : Nat) : Aside c (c.stepTask i) := by
  unfold CpuSide.stepTask
  cases c.tasks[i]? with
  | none => exact Aside.refl c
  | some task =>
      dsimp only
      cases task.copies with
      | cons copy rest => exact ⟨rfl, rfl, rfl, rfl, rfl, fun _ => ⟨_, rfl, id⟩, rfl, rfl, rfl⟩
      | nil =>
          refine Aside.trans ?_ (aside_returnBlock task.block)
          refine ⟨rfl, rfl, rfl, rfl, rfl, ?_, rfl, rfl, rfl⟩
          intro k
          change ∃ ready, (c.union.setNodeReady task.node).nodes k = _ ∧ _
          rw [setNodeReady_nodes]
          split
          · exact ⟨true, rfl, fun _ => rfl⟩
          · exact ⟨_, rfl, id⟩

namespace BlocksInv

/-- A block goes back only when its last user is gone. -/
theorem returnBlock (h : BlocksInv c) {block : WsBlock} (hblock : block ∉ c.availableBlocks) :
    BlocksInv (c.returnBlock block) := by
  unfold CpuSide.returnBlock
  split
  · exact h
  · next hfree =>
      rw [not_or] at hfree
      obtain ⟨hheld, htasks⟩ := hfree
      simp only [List.any_eq_true, decide_eq_true_eq, not_exists, not_and] at htasks
      refine ⟨?_, ?_, ?_⟩
      · refine List.nodup_append.mpr ⟨h.nodup, List.nodup_singleton _, ?_⟩
        rintro a ha b hb rfl
        obtain rfl := List.mem_singleton.mp hb
        exact hblock ha
      · intro task ht hmem
        rcases List.mem_append.mp hmem with hmem | hmem
        · exact h.task task ht hmem
        · exact htasks task ht (List.mem_singleton.mp hmem)
      · intro b hb hmem
        rcases List.mem_append.mp hmem with hmem | hmem
        · exact h.held b hb hmem
        · exact hheld ((List.mem_singleton.mp hmem) ▸ hb)

theorem stepTask (h : BlocksInv c) (i : Nat) : BlocksInv (c.stepTask i) := by
  unfold CpuSide.stepTask
  cases htask : c.tasks[i]? with
  | none => exact h
  | some task =>
      have hmem := List.mem_of_getElem? htask
      dsimp only
      cases task.copies with
      | cons copy rest =>
          refine ⟨h.nodup, ?_, h.held⟩
          intro other hother
          rcases List.mem_or_eq_of_mem_set hother with hother | rfl
          · exact h.task other hother
          · exact h.task task hmem
      | nil =>
          have hrest : BlocksInv { c with
              union := c.union.setNodeReady task.node, tasks := c.tasks.eraseIdx i } :=
            ⟨h.nodup, fun other hother => h.task other (List.mem_of_mem_eraseIdx hother), h.held⟩
          exact hrest.returnBlock (h.task task hmem)

end BlocksInv

/-- The invariant's unconditional part reads nothing that task steps change. -/
theorem CpuInv.aside (h : CpuInv cfg c batch extra) (ha : Aside c c') (hblocks : BlocksInv c')
    (hcopies : NoLoss c.log → Copies c')
    (hready : NoLoss c.log → ∀ n ∈ batch, (c'.union.nodes n).isReady = false) :
    CpuInv cfg c' batch extra := by
  have hspans : batchSpans c'.union batch = batchSpans c.union batch :=
    batchSpans_congr (fun n _ => ha.spans n)
  have hsame : ∀ n, (c'.union.nodes n).kCache = (c.union.nodes n).kCache ∧
      (c'.union.nodes n).vCache = (c.union.nodes n).vCache ∧
      (c'.union.nodes n).refCnt = (c.union.nodes n).refCnt ∧
      (c'.union.nodes n).lastAccessTime = (c.union.nodes n).lastAccessTime ∧
      (c'.union.nodes n).prefixLen = (c.union.nodes n).prefixLen := by
    intro n
    obtain ⟨ready, heq, _⟩ := ha.node n
    rw [heq]
    exact ⟨rfl, rfl, rfl, rfl, rfl⟩
  refine
    { wf :=
        { hash_eq := fun {hash n} hl => by
            rw [ha.hash]
            exact h.wf.hash_eq (ha.lookup hash ▸ hl)
          lt_next := fun {hash n} hl => by
            rw [ha.nextNode]
            exact h.wf.lt_next (ha.lookup hash ▸ hl)
          kLength := fun {hash n} hl => by
            rw [(hsame n).1]
            exact h.wf.kLength (ha.lookup hash ▸ hl)
          vLength := fun {hash n} hl => by
            rw [(hsame n).2.1]
            exact h.wf.vLength (ha.lookup hash ▸ hl)
          owned := by
            rw [hspans, ha.spanManager, ha.tableSpans]
            exact h.wf.owned
          size_le := by
            rw [ha.size, ha.capacity]
            exact h.wf.size_le }
      capacity := by
        unfold countFrame
        rw [ha.capacity, ha.spanManager]
        exact h.capacity
      refCnt := fun {hash n} hl => by
        rw [(hsame n).2.2.1]
        exact h.refCnt (ha.lookup hash ▸ hl)
      batchNode := ?_
      out_nodup := by
        rw [hspans]
        exact h.out_nodup
      out_fresh := by
        rw [hspans, ha.tableSpans]
        exact h.out_fresh
      hash_nodup := by
        rw [List.map_congr_left (fun n _ => ha.hash n)]
        exact h.hash_nodup
      evictable := ?_
      blocks := hblocks
      copies := by
        rw [ha.log]
        exact hcopies
      notReady := by
        rw [ha.log]
        exact hready }
  · intro n hn
    have hb := h.batchNode n hn
    refine ⟨?_, ?_, ?_, ?_, ?_⟩
    · rw [ha.nextNode]
      exact hb.lt_next
    · rw [(hsame n).2.2.1]
      exact hb.refCnt
    · rw [(hsame n).1]
      exact hb.kLength
    · rw [(hsame n).2.1]
      exact hb.vLength
    · rw [ha.hash, ha.lookup]
      exact hb.absent
  · rw [ha.log]
    intro hno
    refine (h.evictable hno).congr ha.evictor ?_ ?_
    · intro n _
      exact ⟨(hsame n).2.2.2.1, (hsame n).2.2.2.2, ha.hash n⟩
    · intro n
      rw [ha.hash, ha.lookup, (hsame n).2.2.1]

namespace Copies

variable {layerNum : Nat} {out : SpanId → Prop}

/-- Two spans of table nodes over one frame are the same span of the same
node. -/
private theorem node_eq_of_frame (hwf : Wf layerNum c.union out) {hash hash' : Hash}
    {n n' : NodeId} {span span' : SpanId} (hl : c.union.lookup hash = some n)
    (hl' : c.union.lookup hash' = some n') (hs : span ∈ (c.union.nodes n).spans)
    (hs' : span' ∈ (c.union.nodes n').spans)
    (hframe : c.union.spanManager.frameOf span = c.union.spanManager.frameOf span') :
    n = n' ∧ span = span' := by
  have hsame := hwf.owned.frame_inj (Or.inl (mem_tableSpans_iff.mpr ⟨hash, n, hl, hs⟩))
    (Or.inl (mem_tableSpans_iff.mpr ⟨hash', n', hl', hs'⟩)) hframe
  subst hsame
  have hhash := hwf.hash_eq_of_mem hl hl' hs hs'
  subst hhash
  exact ⟨Option.some.inj (hl.symm.trans hl'), rfl⟩

private theorem spans_nodup (hwf : Wf layerNum c.union out) {hash : Hash} {n : NodeId}
    (hl : c.union.lookup hash = some n) : (c.union.nodes n).spans.Nodup := by
  have hperm : c.union.tableSpans.Perm ((c.union.nodes n).spans ++
      tableSpans { c.union with hashTable := c.union.hashTable.erase hash }) :=
    Wf.tableSpans_erase hl rfl (fun _ => rfl)
  exact (hperm.nodup hwf.owned.table_nodup).of_append_left

/-- A task writes one span. The node's other positions, and all other nodes,
are over other frames. -/
private theorem copy (h : Copies c) (hwf : Wf layerNum c.union out) {i : Nat} {task : CopyTask}
    (htask : c.tasks[i]? = some task) {frame : FrameId} {idx : Nat} {rest : List (FrameId × Nat)}
    (hcopies : task.copies = (frame, idx) :: rest) :
    Copies { c with
      mem := Function.update c.mem frame (c.workspace task.block idx)
      tasks := c.tasks.set i { task with copies := rest } } := by
  have hmem := List.mem_of_getElem? htask
  obtain ⟨hl, hnot⟩ := h.tasked task hmem
  have hp := h.pending task hmem
  obtain ⟨j, span, d, hspan, hd, hframe, hws⟩ := hp.sound (frame, idx) (by rw [hcopies]; simp)
  have hin := List.mem_of_getElem? hspan
  have hother : ∀ {hash n}, c.union.lookup hash = some n → n ≠ task.node →
      ∀ span' ∈ (c.union.nodes n).spans,
        Function.update c.mem frame (c.workspace task.block idx)
          (c.union.spanManager.frameOf span') = c.mem (c.union.spanManager.frameOf span') := by
    intro hash n hln hne span' hs'
    refine Function.update_of_ne ?_ _ _
    intro hsame
    exact hne (node_eq_of_frame hwf hln hl hs' hin (hsame.trans hframe.symm)).1
  have hmap : (c.tasks.set i { task with copies := rest }).map CopyTask.node =
      c.tasks.map CopyTask.node := by
    rw [List.map_set]
    have hget : (c.tasks.map CopyTask.node)[i]? = some task.node := by
      rw [List.getElem?_map, htask]
      rfl
    refine List.ext_getElem? ?_
    intro k
    rw [List.getElem?_set]
    split
    · next hk =>
        subst hk
        rw [if_pos (by simpa using (List.getElem?_eq_some_iff.mp htask).1), hget]
    · rfl
  refine
    { ready := ?_
      tasked := ?_
      task_nodup := by rw [hmap]; exact h.task_nodup
      pending := ?_ }
  · intro hash n hln hready
    have hne : n ≠ task.node := by
      rintro rfl
      rw [hnot] at hready
      cases hready
    rw [← h.ready hln hready]
    exact List.map_congr_left (hother hln hne)
  · intro t ht
    rcases List.mem_or_eq_of_mem_set ht with ht | rfl
    · exact h.tasked t ht
    · exact ⟨hl, hnot⟩
  · intro t ht
    obtain ⟨k, hk⟩ := List.mem_iff_getElem?.mp ht
    rw [List.getElem?_set] at hk
    split at hk
    · next hik =>
        subst hik
        rw [if_pos (List.getElem?_eq_some_iff.mp htask).1] at hk
        cases hk
        refine ⟨hp.length_eq, ?_, ?_⟩
        · intro j' span' d' hspan' hd'
          by_cases hsame : c.union.spanManager.frameOf span' = frame
          · have hspaneq := (node_eq_of_frame hwf hl hl (List.mem_of_getElem? hspan') hin
              (hsame.trans hframe.symm)).2
            subst hspaneq
            have hj : j' = j := by
              have hnodup := spans_nodup hwf hl
              obtain ⟨hj', hv'⟩ := List.getElem?_eq_some_iff.mp hspan'
              obtain ⟨hj, hv⟩ := List.getElem?_eq_some_iff.mp hspan
              exact (hnodup.getElem_inj_iff).mp (hv'.trans hv.symm)
            subst hj
            left
            change Function.update c.mem frame (c.workspace task.block idx) _ = d'
            rw [hsame, Function.update_self, hws]
            exact Option.some.inj (hd.symm.trans hd')
          · rcases hp.owed j' span' d' hspan' hd' with hdone | ⟨idx', hin', hw'⟩
            · left
              change Function.update c.mem frame (c.workspace task.block idx) _ = d'
              rw [Function.update_of_ne hsame]
              exact hdone
            · right
              refine ⟨idx', ?_, hw'⟩
              rw [hcopies] at hin'
              rcases List.mem_cons.mp hin' with heq | hin'
              · exact absurd (congrArg Prod.fst heq) hsame
              · exact hin'
        · intro cp hcp
          exact hp.sound cp (by rw [hcopies]; exact List.mem_cons_of_mem _ hcp)
    · next hik =>
        have htmem : t ∈ c.tasks := List.mem_of_getElem? hk
        have hne : t.node ≠ task.node := by
          intro hsame
          obtain ⟨hk', hv'⟩ := List.getElem?_eq_some_iff.mp hk
          obtain ⟨hi', hv⟩ := List.getElem?_eq_some_iff.mp htask
          have hklen : k < (c.tasks.map CopyTask.node).length := by simpa using hk'
          have hilen : i < (c.tasks.map CopyTask.node).length := by simpa using hi'
          have hval : (c.tasks.map CopyTask.node)[k] = (c.tasks.map CopyTask.node)[i] := by
            simp [hv', hv, hsame]
          exact hik ((h.task_nodup.getElem_inj_iff).mp hval).symm
        exact (h.pending t htmem).congr rfl rfl (fun _ _ => rfl)
          (hother (h.tasked t htmem).1 hne) rfl

/-- A task with nothing left to copy has put the whole content in place. -/
private theorem finish (h : Copies c) {i : Nat} {task : CopyTask}
    (htask : c.tasks[i]? = some task) (hcopies : task.copies = []) :
    Copies { c with
      union := c.union.setNodeReady task.node
      tasks := c.tasks.eraseIdx i } := by
  have hmem := List.mem_of_getElem? htask
  obtain ⟨hi, hv⟩ := List.getElem?_eq_some_iff.mp htask
  have hp := h.pending task hmem
  have hnodup : (task.node :: (c.tasks.eraseIdx i).map CopyTask.node).Nodup := by
    have hperm := (List.getElem_cons_eraseIdx_perm hi).map CopyTask.node
    rw [hv, List.map_cons] at hperm
    exact hperm.nodup_iff.mpr h.task_nodup
  have hne : ∀ t ∈ c.tasks.eraseIdx i, t.node ≠ task.node := by
    intro t ht hsame
    exact (List.nodup_cons.mp hnodup).1 (hsame ▸ List.mem_map_of_mem ht)
  have hsub : ∀ t ∈ c.tasks.eraseIdx i, t ∈ c.tasks := fun t ht => List.mem_of_mem_eraseIdx ht
  refine
    { ready := ?_
      tasked := ?_
      task_nodup := (List.nodup_cons.mp hnodup).2
      pending := ?_ }
  · intro hash n hl hready
    change c.union.lookup hash = some n at hl
    change contents c.mem c.union.spanManager ((c.union.setNodeReady task.node).nodes n).spans = _
    rw [setNodeReady_spans]
    by_cases hn : n = task.node
    · subst hn
      refine (contents_eq_iff hp.length_eq).mpr ?_
      intro j span d hspan hd
      refine (hp.owed j span d hspan hd).resolve_right ?_
      rintro ⟨idx, hin, _⟩
      rw [hcopies] at hin
      cases hin
    · change ((c.union.setNodeReady task.node).nodes n).isReady = true at hready
      rw [setNodeReady_nodes, if_neg hn] at hready
      exact h.ready hl hready
  · intro t ht
    obtain ⟨hl, hnot⟩ := h.tasked t (hsub t ht)
    change c.union.lookup ((c.union.setNodeReady task.node).nodes t.node).hash = _ ∧
      ((c.union.setNodeReady task.node).nodes t.node).isReady = false
    rw [setNodeReady_hash, setNodeReady_nodes, if_neg (hne t ht)]
    exact ⟨hl, hnot⟩
  · intro t ht
    refine (h.pending t (hsub t ht)).congr ?_ rfl (fun _ _ => rfl) (fun _ _ => rfl) rfl
    exact setNodeReady_spans _ _

theorem returnBlock (h : Copies c) (block : WsBlock) : Copies (c.returnBlock block) := by
  unfold CpuSide.returnBlock
  split
  · exact h
  · exact ⟨h.ready, h.tasked, h.task_nodup,
      fun t ht => (h.pending t ht).congr rfl rfl (fun _ _ => rfl) (fun _ _ => rfl) rfl⟩

theorem stepTask (h : Copies c) (hwf : Wf layerNum c.union out) (i : Nat) :
    Copies (c.stepTask i) := by
  unfold CpuSide.stepTask
  cases htask : c.tasks[i]? with
  | none => exact h
  | some task =>
      dsimp only
      cases hcopies : task.copies with
      | cons cp rest => exact h.copy hwf htask hcopies
      | nil => exact (h.finish htask hcopies).returnBlock task.block

end Copies

namespace CpuInv

theorem stepTask (h : CpuInv cfg c batch extra) (i : Nat) :
    CpuInv cfg (c.stepTask i) batch extra := by
  refine h.aside (aside_stepTask i) (h.blocks.stepTask i)
    (fun hno => (h.copies hno).stepTask h.wf i) ?_
  intro hno n hn
  -- the batch is not in the table, so no task is about one of its nodes
  have hnot := h.notReady hno n hn
  unfold CpuSide.stepTask
  cases htask : c.tasks[i]? with
  | none => exact hnot
  | some task =>
      have hne : n ≠ task.node := by
        rintro rfl
        have hl := ((h.copies hno).tasked task (List.mem_of_getElem? htask)).1
        rw [(h.batchNode _ hn).absent] at hl
        cases hl
      dsimp only
      cases task.copies with
      | cons cp rest => exact hnot
      | nil =>
          dsimp only
          rw [returnBlock_union]
          dsimp only
          rw [setNodeReady_nodes, if_neg hne]
          exact hnot

/-- Any number of task steps. -/
theorem stepTasks (h : CpuInv cfg c batch extra) (steps : List Nat) :
    CpuInv cfg (steps.foldl CpuSide.stepTask c) batch extra ∧
      Aside c (steps.foldl CpuSide.stepTask c) := by
  induction steps generalizing c with
  | nil => exact ⟨h, Aside.refl c⟩
  | cons i rest ih =>
      obtain ⟨hinv, haside⟩ := ih (h.stepTask i)
      exact ⟨hinv, (aside_stepTask i).trans haside⟩

/-- The main thread takes an available block; no task uses it. -/
theorem takeBlock (h : CpuInv cfg c batch extra) {block : WsBlock} {rest : List WsBlock}
    (hblocks : c.availableBlocks = block :: rest) :
    CpuInv cfg { c with availableBlocks := rest, heldBlock := some block } batch extra ∧
      ∀ task ∈ c.tasks, task.block ≠ block := by
  have hfree : ∀ task ∈ c.tasks, task.block ≠ block := by
    intro task ht heq
    refine h.blocks.task task ht ?_
    rw [hblocks, heq]
    exact List.mem_cons_self ..
  have hnodup := h.blocks.nodup
  rw [hblocks, List.nodup_cons] at hnodup
  refine ⟨?_, hfree⟩
  refine
    { wf := h.wf
      capacity := h.capacity
      refCnt := h.refCnt
      batchNode := h.batchNode
      out_nodup := h.out_nodup
      out_fresh := h.out_fresh
      hash_nodup := h.hash_nodup
      evictable := h.evictable
      blocks := ⟨hnodup.2, ?_, ?_⟩
      copies := fun hno => (h.copies hno).congr rfl Or.inl
        (fun _ => ⟨rfl, rfl, rfl, rfl, fun _ _ => ⟨rfl, rfl⟩⟩)
        (fun task ht => ((h.copies hno).tasked task ht).1) (fun _ _ => rfl)
      notReady := h.notReady }
  · intro task ht hmem
    refine h.blocks.task task ht ?_
    rw [hblocks]
    exact List.mem_cons_of_mem _ hmem
  · intro b hb hmem
    obtain rfl : block = b := Option.some.inj hb
    exact hnodup.1 hmem

/-- Only the log grows, by events that say nothing about timestamps or
removals. -/
theorem relog (h : CpuInv cfg c batch extra) {log' : List CpuEvent}
    (htouch : NoTouch log' → NoTouch c.log) (hloss : NoLoss log' → NoLoss c.log) :
    CpuInv cfg { c with log := log' } batch extra :=
  h.kept (Kept.refl _) (fun _ => rfl) (fun hno => h.evictable (htouch hno)) hloss

/-- A block no task uses is written. -/
theorem fillBlock (h : CpuInv cfg c batch extra) {block : WsBlock}
    (hfree : ∀ task ∈ c.tasks, task.block ≠ block) (data : List D) :
    CpuInv cfg (fillBlock c block data) batch extra where
  wf := h.wf
  capacity := h.capacity
  refCnt := h.refCnt
  batchNode := h.batchNode
  out_nodup := h.out_nodup
  out_fresh := h.out_fresh
  hash_nodup := h.hash_nodup
  evictable := h.evictable
  blocks := ⟨h.blocks.nodup, h.blocks.task, h.blocks.held⟩
  copies hno := (h.copies hno).congr rfl Or.inl
    (fun _ => ⟨rfl, rfl, rfl, rfl, fun _ _ => ⟨rfl, rfl⟩⟩)
    (fun task ht => ((h.copies hno).tasked task ht).1)
    (fun task ht => Function.update_of_ne (hfree task ht) _ _)
  notReady := h.notReady

/-- The recorded content of nodes outside the table is set. -/
theorem setOrigin (h : CpuInv cfg c batch extra) (origin : NodeId → List D)
    (hsame : ∀ {hash n}, c.union.lookup hash = some n → origin n = c.origin n) :
    CpuInv cfg { c with origin } batch extra where
  wf := h.wf
  capacity := h.capacity
  refCnt := h.refCnt
  batchNode := h.batchNode
  out_nodup := h.out_nodup
  out_fresh := h.out_fresh
  hash_nodup := h.hash_nodup
  evictable := h.evictable
  blocks := ⟨h.blocks.nodup, h.blocks.task, h.blocks.held⟩
  copies hno := (h.copies hno).congr rfl Or.inl
    (fun hl => ⟨rfl, rfl, rfl, hsame hl, fun _ _ => ⟨rfl, rfl⟩⟩)
    (fun task ht => ((h.copies hno).tasked task ht).1) (fun _ _ => rfl)
  notReady := h.notReady

theorem dropHeldBlock (h : CpuInv cfg c batch extra) :
    CpuInv cfg c.dropHeldBlock batch extra ∧ Aside { c with heldBlock := none } c.dropHeldBlock := by
  have hnone : CpuInv cfg { c with heldBlock := none } batch extra :=
    { wf := h.wf
      capacity := h.capacity
      refCnt := h.refCnt
      batchNode := h.batchNode
      out_nodup := h.out_nodup
      out_fresh := h.out_fresh
      hash_nodup := h.hash_nodup
      evictable := h.evictable
      blocks := ⟨h.blocks.nodup, h.blocks.task, fun _ hb => by cases hb⟩
      copies := fun hno => (h.copies hno).congr rfl Or.inl
        (fun _ => ⟨rfl, rfl, rfl, rfl, fun _ _ => ⟨rfl, rfl⟩⟩)
        (fun task ht => ((h.copies hno).tasked task ht).1) (fun _ _ => rfl)
      notReady := h.notReady }
  unfold CpuSide.dropHeldBlock
  cases hheld : c.heldBlock with
  | none =>
      have heq : { c with heldBlock := none } = c := by
        cases c
        cases hheld
        rfl
      rw [heq]
      exact ⟨h, Aside.refl c⟩
  | some block =>
      refine ⟨?_, aside_returnBlock block⟩
      refine hnone.aside (aside_returnBlock block)
        (hnone.blocks.returnBlock (h.blocks.held block hheld))
        (fun hno => (hnone.copies hno).returnBlock block) ?_
      intro hno n hn
      rw [returnBlock_union]
      exact h.notReady hno n hn

end CpuInv

/-- Nodes of a batch that are in the table and wait for their copy task, with
their content laid out in a workspace block. -/
structure Awaiting (c : CpuSide E D) (block : WsBlock) (cacheNum : Nat)
    (rest : List (NodeId × Nat)) : Prop where
  nodup : (rest.map Prod.fst).Nodup
  cached : ∀ p ∈ rest, c.union.lookup (c.union.nodes p.1).hash = some p.1
  notReady : ∀ p ∈ rest, (c.union.nodes p.1).isReady = false
  untasked : ∀ p ∈ rest, p.1 ∉ c.tasks.map CopyTask.node
  spans : ∀ p ∈ rest, (c.union.nodes p.1).spans.length = 2 * cacheNum
  origin : ∀ p ∈ rest, (c.origin p.1).length = 2 * cacheNum
  laid : ∀ p ∈ rest, ∀ (j : Nat) d, (c.origin p.1)[j]? = some d →
    c.workspace block (p.2 * (2 * cacheNum) + j) = d

private theorem stepTask_workspace (i : Nat) : (c.stepTask i).workspace = c.workspace := by
  unfold CpuSide.stepTask
  split
  · rfl
  · split
    · rfl
    · unfold CpuSide.returnBlock
      split <;> rfl

private theorem stepTask_tasks (i : Nat) :
    ∀ n ∈ (c.stepTask i).tasks.map CopyTask.node, n ∈ c.tasks.map CopyTask.node := by
  intro n hn
  obtain ⟨task, ht, rfl⟩ := List.mem_map.mp hn
  unfold CpuSide.stepTask at ht
  cases htask : c.tasks[i]? with
  | none =>
      rw [htask] at ht
      exact List.mem_map_of_mem ht
  | some old =>
      rw [htask] at ht
      dsimp only at ht
      cases hcopies : old.copies with
      | cons cp rest =>
          rw [hcopies] at ht
          rcases List.mem_or_eq_of_mem_set ht with ht | rfl
          · exact List.mem_map_of_mem ht
          · exact List.mem_map.mpr ⟨old, List.mem_of_getElem? htask, rfl⟩
      | nil =>
          rw [hcopies] at ht
          have ht' : task ∈ c.tasks.eraseIdx i := by
            dsimp only at ht
            unfold CpuSide.returnBlock at ht
            split at ht <;> exact ht
          exact List.mem_map_of_mem (List.mem_of_mem_eraseIdx ht')

private theorem stepTask_isReady (i : Nat) (hn : n ∉ c.tasks.map CopyTask.node) :
    ((c.stepTask i).union.nodes n).isReady = (c.union.nodes n).isReady := by
  unfold CpuSide.stepTask
  cases htask : c.tasks[i]? with
  | none => rfl
  | some task =>
      have hne : n ≠ task.node := by
        rintro rfl
        exact hn (List.mem_map_of_mem (List.mem_of_getElem? htask))
      dsimp only
      cases task.copies with
      | cons cp rest => rfl
      | nil =>
          dsimp only
          rw [returnBlock_union]
          dsimp only
          rw [setNodeReady_nodes, if_neg hne]

namespace Awaiting

variable {block : WsBlock} {cacheNum : Nat} {rest : List (NodeId × Nat)}

theorem stepTask (h : Awaiting c block cacheNum rest) (i : Nat) :
    Awaiting (c.stepTask i) block cacheNum rest := by
  have ha := aside_stepTask (c := c) i
  refine ⟨h.nodup, ?_, ?_, ?_, ?_, ?_, ?_⟩
  · intro p hp
    rw [ha.hash, ha.lookup]
    exact h.cached p hp
  · intro p hp
    rw [stepTask_isReady i (h.untasked p hp)]
    exact h.notReady p hp
  · intro p hp hmem
    exact h.untasked p hp (stepTask_tasks i _ hmem)
  · intro p hp
    rw [ha.spans]
    exact h.spans p hp
  · intro p hp
    rw [ha.origin]
    exact h.origin p hp
  · intro p hp j d hd
    rw [ha.origin] at hd
    rw [stepTask_workspace]
    exact h.laid p hp j d hd

theorem stepTasks (h : Awaiting c block cacheNum rest) (steps : List Nat) :
    Awaiting (steps.foldl CpuSide.stepTask c) block cacheNum rest := by
  induction steps generalizing c with
  | nil => exact h
  | cons i more ih => exact ih (h.stepTask i)

/-- The task of a waiting node owes the whole node. -/
theorem pending {p : NodeId × Nat} (h : Awaiting c block cacheNum (p :: rest)) :
    Pending c (copyTask c.union block cacheNum p) := by
  have hspans := h.spans p (List.mem_cons_self ..)
  have horigin := h.origin p (List.mem_cons_self ..)
  have hlaid := h.laid p (List.mem_cons_self ..)
  refine ⟨horigin.trans hspans.symm, ?_, ?_⟩
  · intro j span d hspan hd
    change (c.union.nodes p.1).spans[j]? = some span at hspan
    right
    refine ⟨p.2 * (2 * cacheNum) + j, ?_, hlaid j d hd⟩
    have hj : j < 2 * cacheNum := hspans ▸ (List.getElem?_eq_some_iff.mp hspan).1
    refine List.mem_of_getElem? (i := j) (List.getElem?_zip_eq_some.mpr ⟨?_, ?_⟩)
    · rw [List.getElem?_map, hspan]
      rfl
    · simp [hj]
  · intro copy hcopy
    obtain ⟨j, hj⟩ := List.mem_iff_getElem?.mp hcopy
    obtain ⟨hframe, hidx⟩ := List.getElem?_zip_eq_some.mp hj
    rw [List.getElem?_map] at hframe
    obtain ⟨span, hspan, hframe⟩ := Option.map_eq_some_iff.mp hframe
    have hlt : j < 2 * cacheNum := hspans ▸ (List.getElem?_eq_some_iff.mp hspan).1
    have hlt' : j < (c.origin p.1).length := horigin ▸ hlt
    have hd : (c.origin p.1)[j]? = some (c.origin p.1)[j] := List.getElem?_eq_getElem hlt'
    have hcopy2 : copy.2 = p.2 * (2 * cacheNum) + j := by
      simpa [hlt] using hidx.symm
    refine ⟨j, span, _, hspan, hd, hframe, ?_⟩
    rw [hcopy2]
    exact hlaid j _ hd

end Awaiting

/-- The task of the next waiting node is queued. -/
theorem CpuInv.enqueue {block : WsBlock} {cacheNum : Nat} {p : NodeId × Nat}
    {rest : List (NodeId × Nat)} (h : CpuInv cfg c batch extra) (hheld : c.heldBlock = some block)
    (hwait : NoLoss c.log → Awaiting c block cacheNum (p :: rest)) :
    CpuInv cfg { c with tasks := c.tasks ++ [copyTask c.union block cacheNum p] } batch extra ∧
      (NoLoss c.log → Awaiting
        { c with tasks := c.tasks ++ [copyTask c.union block cacheNum p] } block cacheNum rest) := by
  refine ⟨?_, ?_⟩
  · refine
      { wf := h.wf
        capacity := h.capacity
        refCnt := h.refCnt
        batchNode := h.batchNode
        out_nodup := h.out_nodup
        out_fresh := h.out_fresh
        hash_nodup := h.hash_nodup
        evictable := h.evictable
        blocks := ⟨h.blocks.nodup, ?_, h.blocks.held⟩
        copies := ?_
        notReady := h.notReady }
    · intro task ht
      rcases List.mem_append.mp ht with ht | ht
      · exact h.blocks.task task ht
      · obtain rfl := List.mem_singleton.mp ht
        exact h.blocks.held block hheld
    · intro hno
      have hcopies := h.copies hno
      have hw := hwait hno
      refine ⟨hcopies.ready, ?_, ?_, ?_⟩
      · intro task ht
        rcases List.mem_append.mp ht with ht | ht
        · exact hcopies.tasked task ht
        · obtain rfl := List.mem_singleton.mp ht
          exact ⟨hw.cached p (List.mem_cons_self ..), hw.notReady p (List.mem_cons_self ..)⟩
      · rw [List.map_append, List.map_singleton]
        refine List.nodup_append.mpr ⟨hcopies.task_nodup, List.nodup_singleton _, ?_⟩
        rintro a ha b hb rfl
        obtain rfl := List.mem_singleton.mp hb
        exact hw.untasked p (List.mem_cons_self ..) ha
      · intro task ht
        rcases List.mem_append.mp ht with ht | ht
        · exact (hcopies.pending task ht).congr rfl rfl (fun _ _ => rfl) (fun _ _ => rfl) rfl
        · obtain rfl := List.mem_singleton.mp ht
          exact hw.pending.congr rfl rfl (fun _ _ => rfl) (fun _ _ => rfl) rfl
  · intro hno
    have hw := hwait hno
    have hnodup := hw.nodup
    rw [List.map_cons, List.nodup_cons] at hnodup
    have hsub : ∀ q ∈ rest, q ∈ p :: rest := fun q hq => List.mem_cons_of_mem _ hq
    refine ⟨hnodup.2, fun q hq => hw.cached q (hsub q hq), fun q hq => hw.notReady q (hsub q hq),
      ?_, fun q hq => hw.spans q (hsub q hq), fun q hq => hw.origin q (hsub q hq),
      fun q hq => hw.laid q (hsub q hq)⟩
    intro q hq hmem
    rw [List.map_append, List.map_singleton] at hmem
    rcases List.mem_append.mp hmem with hmem | hmem
    · exact hw.untasked q (hsub q hq) hmem
    · have heq : q.1 = p.1 := List.mem_singleton.mp hmem
      exact hnodup.1 (heq ▸ List.mem_map_of_mem hq)

end DashInfer.Cache
