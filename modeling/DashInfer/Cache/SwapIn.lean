import DashInfer.Cache.Fill

/-!
Bringing nodes back from the CPU. GPU nodes are allocated first, then filled
from the frames of their CPU nodes and put in the table, piece by piece. The
request lists them only afterwards, so the invariant names them as pending in
between.
-/

namespace DashInfer.Cache

open Lib CacheUnion PrefixCacheManager

variable {E : OrderedSet NodeId} {D : Type} {cfg : Config} {P : Premise D} {s : State E D}
  {pend : ReqId → Hash → Prop} {r : ReqId}

/-- CPU nodes that a request collected, wherever they are by now. -/
structure Collected (cfg : Config) (c : CpuSide E D) (n : NodeId) : Prop where
  lt_next : n < c.union.nextNode
  ready : (c.union.nodes n).isReady = true
  kLength : (c.union.nodes n).kCache.length = cfg.layerNum
  vLength : (c.union.nodes n).vCache.length = cfg.layerNum

theorem Collected.moved {c c' : CpuSide E D} {g : GpuSide E D} {n : NodeId}
    (h : Collected cfg c n) (hm : Moved g c c') : Collected cfg c' n := by
  obtain ⟨ts, ready, heq, _⟩ := hm.node n h.lt_next
  refine ⟨Nat.lt_of_lt_of_le h.lt_next hm.nextNode, hm.ready h.lt_next h.ready, ?_, ?_⟩
  · rw [heq]
    exact h.kLength
  · rw [heq]
    exact h.vLength

/-- The allocation phase of a swap-in, for hashes the GPU table does not
have. -/
theorem post_collectSwapIn (cpuNodes : List NodeId) {list new : List NodeId}
    (h : Inv cfg P s Settled) (hr : r ∈ s.gpu.live)
    (hfilled : Filled cfg s.gpu.union.nodes (s.gpu.ctx r) list)
    (hlist : ∀ n ∈ list, n < s.gpu.union.nextNode) (hnew : NewNodes cfg s.gpu r new)
    (habsent : ∀ n ∈ cpuNodes, s.gpu.union.lookup (s.cpu.union.nodes n).hash = none) :
    Post (collectSwapIn cfg r cpuNodes) s
      (fun added t => Inv cfg P t Settled ∧ t = { s with gpu := t.gpu } ∧
        Allocated s.gpu t.gpu r ∧
        Filled cfg t.gpu.union.nodes (t.gpu.ctx r) (list ++ added) ∧
        NewNodes cfg t.gpu r (new ++ added) ∧
        (∀ n ∈ added, s.gpu.union.nextNode ≤ n ∧ n < t.gpu.union.nextNode) ∧
        List.Forall₂ (fun c n => (t.gpu.union.nodes n).hash = (s.cpu.union.nodes c).hash)
          cpuNodes added)
      (Faulted cfg P) := by
  induction cpuNodes generalizing s list new with
  | nil =>
      refine ⟨h, rfl, Allocated.refl _ _, ?_, ?_, by simp, List.Forall₂.nil⟩
      · rw [List.append_nil]
        exact hfilled
      · rw [List.append_nil]
        exact hnew
  | cons c rest ih =>
      unfold collectSwapIn
      rw [post_bind, post_get]
      dsimp only
      rw [habsent c (List.mem_cons_self ..)]
      dsimp only
      rw [post_bind]
      apply (post_allocGpuNode h hr hfilled hlist hnew _ _ _).imp _ (fun _ _ ht => ht)
      rintro n t ⟨ht, hst, halloc, hlt, hge, hhash, hfilled', hnew'⟩
      have hcpu : t.cpu = s.cpu := by rw [hst]
      have hr' : r ∈ t.gpu.live := by
        rw [halloc.live]
        exact hr
      have hlist' : ∀ k ∈ list ++ [n], k < t.gpu.union.nextNode := by
        intro k hk
        rcases List.mem_append.mp hk with hk | hk
        · exact Nat.lt_of_lt_of_le (hlist k hk) halloc.nextNode
        · rw [List.mem_singleton.mp hk]
          exact hlt
      have habsent' : ∀ k ∈ rest, t.gpu.union.lookup (t.cpu.union.nodes k).hash = none := by
        intro k hk
        rw [halloc.lookup, hcpu]
        exact habsent k (List.mem_cons_of_mem _ hk)
      rw [post_bind]
      apply (ih ht hr' hfilled' hlist' hnew' habsent').imp _ (fun _ _ hv => hv)
      rintro added v ⟨hv, htv, halloc', hfilledV, hnewV, hrange, hhashes⟩
      rw [post_pure]
      have hnode : v.gpu.union.nodes n = t.gpu.union.nodes n := halloc'.nodes n hlt
      refine ⟨hv, by rw [htv, hst], halloc.trans halloc', ?_, ?_, ?_, ?_⟩
      · rw [List.append_assoc] at hfilledV
        exact hfilledV
      · rw [List.append_assoc] at hnewV
        exact hnewV
      · intro k hk
        rcases List.mem_cons.mp hk with rfl | hk
        · exact ⟨hge, Nat.lt_of_lt_of_le hlt halloc'.nextNode⟩
        · exact ⟨Nat.le_trans halloc.nextNode (hrange k hk).1, (hrange k hk).2⟩
      · refine List.Forall₂.cons ?_ ?_
        · rw [hnode]
          exact hhash
        · rw [hcpu] at hhashes
          exact hhashes

theorem writeFrames_of_not_mem {mem : FrameId → D} {writes : List (FrameId × D)} {frame : FrameId}
    (h : frame ∉ writes.map Prod.fst) : writeFrames mem writes frame = mem frame := by
  unfold writeFrames
  induction writes generalizing mem with
  | nil => rfl
  | cons write rest ih =>
      rw [List.map_cons, List.mem_cons, not_or] at h
      rw [List.foldl_cons, ih h.2, Function.update_of_ne h.1]

theorem map_writeFrames {frames : List FrameId} (mem : FrameId → D) (data : List D)
    (hnodup : frames.Nodup) (hlen : data.length = frames.length) :
    frames.map (writeFrames mem (frames.zip data)) = data := by
  induction frames generalizing mem data with
  | nil => exact (List.length_eq_zero_iff.mp hlen).symm
  | cons frame rest ih =>
      cases data with
      | nil => simp at hlen
      | cons d data =>
          obtain ⟨hnot, hrest⟩ := List.nodup_cons.mp hnodup
          have hfirst : writeFrames mem ((frame, d) :: rest.zip data) frame = d := by
            change writeFrames (Function.update mem frame d) (rest.zip data) frame = d
            rw [writeFrames_of_not_mem, Function.update_self]
            intro hmem
            obtain ⟨pair, hpair, rfl⟩ := List.mem_map.mp hmem
            exact hnot (List.of_mem_zip hpair).1
          rw [List.zip_cons_cons, List.map_cons, hfirst]
          exact congrArg (d :: ·) (ih _ data hrest (by simpa using hlen))

section Write

variable {new nodes : List NodeId}

private theorem mem_batchSpans {u : CacheUnion E} (hsub : ∀ n ∈ nodes, n ∈ new) {span : SpanId}
    (h : span ∈ batchSpans u nodes) : span ∈ batchSpans u new := by
  obtain ⟨n, hn, hs⟩ := List.mem_flatMap.mp h
  exact List.mem_flatMap.mpr ⟨n, hsub n hn, hs⟩

private theorem NewNodes.held (hnew : NewNodes cfg s.gpu r new) (hr : r ∈ s.gpu.live)
    {span : SpanId} (hs : span ∈ batchSpans s.gpu.union new) : s.gpu.holds span :=
  Or.inr (GpuSide.mem_slots_iff.mpr ⟨r, hr, hnew.mine span hs⟩)

/-- New nodes that are not in the table yet are written; nothing whose content
counts is over their frames. -/
theorem Inv.write (h : Inv cfg P s pend) (hr : r ∈ s.gpu.live)
    (hnew : NewNodes cfg s.gpu r new) (hcomp : (s.gpu.ctx r).computed ≤ (s.gpu.ctx r).offered)
    (hsub : ∀ n ∈ nodes, n ∈ new) (data : List D) :
    Inv cfg P { s with gpu := { s.gpu with
      mem := writeFrames s.gpu.mem (((batchSpans s.gpu.union nodes).map
        s.gpu.union.spanManager.frameOf).zip data) } } pend := by
  refine h.carry (h.gpu.congr rfl rfl rfl (fun _ _ => rfl) (fun _ _ => rfl) (fun _ _ => rfl)
    (fun _ _ => Nat.le_refl _) (fun _ _ => ⟨rfl, rfl, rfl⟩)) ?_ id
  refine ⟨fun hl => ⟨hl, rfl⟩, ?_, fun _ hq _ hp hp' => ⟨hq, hp, hp', rfl, fun _ hb => hb⟩⟩
  intro span hkeeps
  apply writeFrames_of_not_mem
  intro hmem
  obtain ⟨write, hwrite, hfst⟩ := List.mem_map.mp hmem
  obtain ⟨x, hx, hframe⟩ := List.mem_map.mp (List.of_mem_zip hwrite).1
  have hx' := mem_batchSpans hsub hx
  have heq : x = span :=
    h.gpu.wf.owned.frame_inj (hnew.held hr hx') hkeeps.holds (hframe.trans hfst)
  subst heq
  rcases hkeeps with htable | ⟨q, hq, p, block, hoff, hlt, hb, hs⟩
  · exact hnew.fresh x hx' htable
  · have hqr := h.gpu.eq_of_mem_spans hr hq (hnew.fresh x hx') (hnew.mine x hx')
      (GenCtx.mem_spans_of_blockAt hb hs)
    subst hqr
    omega

/-- The written nodes hold what was written. -/
theorem contents_write (h : Inv cfg P s pend) (hr : r ∈ s.gpu.live)
    (hnew : NewNodes cfg s.gpu r new) (hsub : nodes.Sublist new) {data : List D}
    (hlen : data.length = (batchSpans s.gpu.union nodes).length) :
    contents (writeFrames s.gpu.mem (((batchSpans s.gpu.union nodes).map
        s.gpu.union.spanManager.frameOf).zip data)) s.gpu.union.spanManager
      (batchSpans s.gpu.union nodes) = data := by
  have hspans : (batchSpans s.gpu.union nodes).Nodup := by
    refine hnew.nodup.sublist ?_
    exact hsub.flatMap _
  have hnodup : ((batchSpans s.gpu.union nodes).map s.gpu.union.spanManager.frameOf).Nodup := by
    refine hspans.map_on ?_
    intro a ha b hb heq
    exact h.gpu.wf.owned.frame_inj (hnew.held hr (mem_batchSpans hsub.subset ha))
      (hnew.held hr (mem_batchSpans hsub.subset hb)) heq
  have hmap := map_writeFrames s.gpu.mem data hnodup (by simpa using hlen)
  rw [List.map_map] at hmap
  exact hmap

end Write

/-- Of the nodes allocated in `g₀`, those of `done` were put in the table and
those of `todo` still have to be. -/
structure Entering (cfg : Config) (g₀ g : GpuSide E D) (r : ReqId) (done todo : List NodeId) :
    Prop where
  live : g.live = g₀.live
  ctx : g.ctx = g₀.ctx
  nextNode : g.union.nextNode = g₀.union.nextNode
  node : ∀ n, ∃ ready, g.union.nodes n = { g₀.union.nodes n with isReady := ready }
  new : NewNodes cfg g r todo
  keeps : ∀ {hash m}, g₀.union.lookup hash = some m → g.union.lookup hash = some m
  table : ∀ {hash m}, g.union.lookup hash = some m →
    g₀.union.lookup hash = some m ∨ (m ∈ done ∧ (g₀.union.nodes m).hash = hash)
  entered : ∀ n ∈ done, ∃ m, g.union.lookup (g₀.union.nodes n).hash = some m ∧
    (NoClash g.log → n = m)

/-- The hashes of nodes that the request has still to list. -/
def pendingOf (g₀ : GpuSide E D) (r : ReqId) (done : List NodeId) : ReqId → Hash → Prop :=
  fun q hash => q = r ∧ ∃ n ∈ done, (g₀.union.nodes n).hash = hash

/-- What is known of the nodes to enter before the first of them does. -/
structure Enterable (cfg : Config) (P : Premise D) (g₀ : GpuSide E D) (r : ReqId)
    (all : List NodeId) : Prop where
  live : r ∈ g₀.live
  absent : ∀ n ∈ all, g₀.union.lookup (g₀.union.nodes n).hash = none
  refCnt : ∀ n ∈ all, (g₀.union.nodes n).refCnt = 0
  below : ∀ a ∈ (g₀.ctx r).arrays, a.cache.length ≤ (g₀.ctx r).offered
  computed : (g₀.ctx r).computed ≤ (g₀.ctx r).offered
  distinct : P.distinct → (all.map (fun n => (g₀.union.nodes n).hash)).Nodup

namespace Entering

variable {g₀ g : GpuSide E D} {done todo : List NodeId} {n : NodeId}

theorem start (hnew : NewNodes cfg g₀ r todo) : Entering cfg g₀ g₀ r [] todo where
  live := rfl
  ctx := rfl
  nextNode := rfl
  node _ := ⟨_, rfl⟩
  new := hnew
  keeps hl := hl
  table hl := Or.inl hl
  entered n hn := by cases hn

theorem hash (h : Entering cfg g₀ g r done todo) (n : NodeId) :
    (g.union.nodes n).hash = (g₀.union.nodes n).hash := by
  obtain ⟨_, heq⟩ := h.node n
  rw [heq]

theorem spans (h : Entering cfg g₀ g r done todo) (n : NodeId) :
    (g.union.nodes n).spans = (g₀.union.nodes n).spans := by
  obtain ⟨_, heq⟩ := h.node n
  rw [heq]
  rfl

theorem refCnt (h : Entering cfg g₀ g r done todo) (n : NodeId) :
    (g.union.nodes n).refCnt = (g₀.union.nodes n).refCnt := by
  obtain ⟨_, heq⟩ := h.node n
  rw [heq]

/-- Memory is not looked at. -/
theorem withMem (h : Entering cfg g₀ g r done todo) (mem : FrameId → D) :
    Entering cfg g₀ { g with mem } r done todo :=
  ⟨h.live, h.ctx, h.nextNode, h.node, ⟨h.new.lt_next, h.new.refCnt, h.new.kLength, h.new.vLength,
    h.new.nodup, h.new.mine, h.new.fresh⟩, h.keeps, h.table, h.entered⟩

private theorem insertable (h : Entering cfg g₀ g r done (n :: todo)) :
    Insertable cfg.layerNum g.union (· ∈ (g.ctx r).spans) (g.union.nodes n).hash n := by
  have hmem := List.mem_cons_self (a := n) (l := todo)
  have hin : ∀ span ∈ (g.union.nodes n).spans, span ∈ batchSpans g.union (n :: todo) :=
    fun span hs => List.mem_flatMap.mpr ⟨n, hmem, hs⟩
  have hnodup := h.new.nodup
  unfold batchSpans at hnodup
  rw [List.flatMap_cons] at hnodup
  exact
    { hash_eq := rfl
      lt_next := h.new.lt_next n hmem
      refCnt := h.new.refCnt n hmem
      kLength := h.new.kLength n hmem
      vLength := h.new.vLength n hmem
      nodup := (List.nodup_append.mp hnodup).1
      outside := fun span hs => h.new.mine span (hin span hs)
      fresh := fun span hs => h.new.fresh span (hin span hs) }

/-- The table gained the next node, or kept the node it has under the hash. -/
private theorem advance (h : Entering cfg g₀ g r done (n :: todo)) {u' : CacheUnion E}
    {log' : List GpuEvent} (hnodes : u'.nodes = g.union.nodes)
    (hnext : u'.nextNode = g.union.nextNode)
    (hkeeps : ∀ {hash m}, g.union.lookup hash = some m → u'.lookup hash = some m)
    (htable : ∀ {hash m}, u'.lookup hash = some m → g.union.lookup hash = some m ∨
      (m = n ∧ (g.union.nodes n).hash = hash))
    (hself : ∃ m, u'.lookup (g.union.nodes n).hash = some m ∧ (NoClash log' → n = m))
    (hlog : NoClash log' → NoClash g.log) :
    Entering cfg g₀ { g with union := u'.setNodeReady n, log := log' } r (done ++ [n]) todo := by
  have hnode : ∀ k, ∃ ready,
      (u'.setNodeReady n).nodes k = { g.union.nodes k with isReady := ready } := by
    intro k
    rw [setNodeReady_nodes, hnodes]
    split
    · exact ⟨true, rfl⟩
    · exact ⟨_, rfl⟩
  have hspans : ∀ k, ((u'.setNodeReady n).nodes k).spans = (g.union.nodes k).spans := by
    intro k
    rw [setNodeReady_spans, hnodes]
  have hbatch : batchSpans (u'.setNodeReady n) todo = batchSpans g.union todo :=
    List.flatMap_congr (fun k _ => hspans k)
  have hsub : ∀ span ∈ batchSpans g.union todo, span ∈ batchSpans g.union (n :: todo) := by
    intro span hs
    unfold batchSpans at hs ⊢
    rw [List.flatMap_cons]
    exact List.mem_append_right _ hs
  have hnodup := h.new.nodup
  unfold batchSpans at hnodup
  rw [List.flatMap_cons] at hnodup
  obtain ⟨_, hrest, hdisjoint⟩ := List.nodup_append.mp hnodup
  refine
    { live := h.live
      ctx := h.ctx
      nextNode := hnext.trans h.nextNode
      node := ?_
      new := ?_
      keeps := fun hl => hkeeps (h.keeps hl)
      table := ?_
      entered := ?_ }
  · intro k
    obtain ⟨ready, heq⟩ := hnode k
    obtain ⟨_, heq'⟩ := h.node k
    refine ⟨ready, ?_⟩
    change (u'.setNodeReady n).nodes k = _
    rw [heq, heq']
  · refine
      { lt_next := ?_
        refCnt := ?_
        kLength := ?_
        vLength := ?_
        nodup := ?_
        mine := ?_
        fresh := ?_ }
    · intro k hk
      change k < u'.nextNode
      rw [hnext]
      exact h.new.lt_next k (List.mem_cons_of_mem _ hk)
    · intro k hk
      obtain ⟨_, heq⟩ := hnode k
      change ((u'.setNodeReady n).nodes k).refCnt = 0
      rw [heq]
      exact h.new.refCnt k (List.mem_cons_of_mem _ hk)
    · intro k hk
      obtain ⟨_, heq⟩ := hnode k
      change ((u'.setNodeReady n).nodes k).kCache.length = _
      rw [heq]
      exact h.new.kLength k (List.mem_cons_of_mem _ hk)
    · intro k hk
      obtain ⟨_, heq⟩ := hnode k
      change ((u'.setNodeReady n).nodes k).vCache.length = _
      rw [heq]
      exact h.new.vLength k (List.mem_cons_of_mem _ hk)
    · change (batchSpans (u'.setNodeReady n) todo).Nodup
      rw [hbatch]
      exact hrest
    · intro span hs
      change span ∈ batchSpans (u'.setNodeReady n) todo at hs
      rw [hbatch] at hs
      exact h.new.mine span (hsub span hs)
    · intro span hs hmem
      change span ∈ batchSpans (u'.setNodeReady n) todo at hs
      rw [hbatch] at hs
      obtain ⟨hash, m, hl, hin⟩ := mem_tableSpans_iff.mp hmem
      change u'.lookup hash = some m at hl
      change span ∈ ((u'.setNodeReady n).nodes m).spans at hin
      rw [hspans] at hin
      rcases htable hl with hl' | ⟨rfl, _⟩
      · exact h.new.fresh span (hsub span hs) (mem_tableSpans_iff.mpr ⟨hash, m, hl', hin⟩)
      · exact hdisjoint span hin span hs rfl
  · intro hash m hl
    rcases htable hl with hl' | ⟨rfl, hhash⟩
    · exact (h.table hl').imp id (fun hd => ⟨List.mem_append_left _ hd.1, hd.2⟩)
    · exact Or.inr ⟨List.mem_append_right _ (List.mem_singleton_self _),
        (h.hash m).symm.trans hhash⟩
  · intro k hk
    rcases List.mem_append.mp hk with hk | hk
    · obtain ⟨m, hl, hsame⟩ := h.entered k hk
      exact ⟨m, hkeeps hl, fun hno => hsame (hlog hno)⟩
    · rw [List.mem_singleton.mp hk, ← h.hash n]
      exact hself

end Entering

/-- The GPU side after one turn of the insertion loop of a swap-in. -/
private def enterNode (g : GpuSide E D) (n : NodeId) : GpuSide E D :=
  { g.insertNode (g.union.nodes n).hash n with
    union := (g.union.insertNode (g.union.nodes n).hash n).setNodeReady n }

/-- The next node enters the table, unless another new node has its hash. -/
private theorem Entering.enter {g₀ : GpuSide E D} {done todo : List NodeId} {n : NodeId}
    (h : Entering cfg g₀ s.gpu r done (n :: todo))
    (hall : Enterable cfg P g₀ r (done ++ n :: todo))
    (hinv : Inv cfg P s (pendingOf g₀ r done))
    (hgood : CleanLog s.cpu.log → P.Good (s.gpu.union.nodes n).hash
      (contents s.gpu.mem s.gpu.union.spanManager (s.gpu.union.nodes n).spans)) :
    Inv cfg P { s with gpu := enterNode s.gpu n } (pendingOf g₀ r (done ++ [n])) ∧
      Entering cfg g₀ (enterNode s.gpu n) r (done ++ [n]) todo ∧
      (∀ span, (enterNode s.gpu n).union.spanManager.frameOf span =
        s.gpu.union.spanManager.frameOf span) := by
  have hmem : n ∈ done ++ n :: todo := by simp
  have hr : r ∈ s.gpu.live := by
    rw [h.live]
    exact hall.live
  have hlast : pendingOf g₀ r (done ++ [n]) r (s.gpu.union.nodes n).hash :=
    ⟨rfl, n, by simp, (h.hash n).symm⟩
  have hmono : ∀ q hash, pendingOf g₀ r done q hash → pendingOf g₀ r (done ++ [n]) q hash := by
    rintro q hash ⟨hq, k, hk, hhash⟩
    exact ⟨hq, k, List.mem_append_left _ hk, hhash⟩
  cases hl : s.gpu.union.lookup (s.gpu.union.nodes n).hash with
  | none =>
      have hin := h.insertable
      have hin' : Insertable cfg.layerNum s.gpu.union (· ∈ s.gpu.slots)
          (s.gpu.union.nodes n).hash n :=
        { hin with
          outside := fun span hs => GpuSide.mem_slots_iff.mpr ⟨r, hr, hin.outside span hs⟩ }
      have hroom := hin'.room hinv.gpu.wf cfg.layerNum_pos hinv.gpu.capacity
      have heq := insertNode_eq hl hroom hin.refCnt
      have hlook := insertNode_lookup hl hroom hin.refCnt
      have hfresh : ∀ a ∈ (s.gpu.ctx r).arrays, ∀ span ∈ a.cache.drop (s.gpu.ctx r).offered,
          span ∉ (s.gpu.union.nodes n).spans := by
        intro a ha span hs
        rw [h.ctx] at ha hs
        rw [List.drop_eq_nil_of_le (hall.below a ha)] at hs
        cases hs
      have hentry := (hinv.insertNode hr hl hin hfresh hgood).setNodeReady n
      have hlog : (s.gpu.insertNode (s.gpu.union.nodes n).hash n).log = s.gpu.log := by
        unfold GpuSide.insertNode
        rw [hl]
        rfl
      refine ⟨hentry.weaken ?_, ?_, ?_⟩
      · rintro q hash (hp | ⟨rfl, rfl⟩)
        · exact hmono q hash hp
        · exact hlast
      · apply h.advance
        · rw [heq]
        · rw [heq]
        · intro hash m hm
          rw [hlook, if_neg]
          · exact hm
          · rintro rfl
            rw [hl] at hm
            cases hm
        · intro hash m hm
          rw [hlook] at hm
          split at hm
          · next hhash =>
              cases hm
              exact Or.inr ⟨rfl, hhash.symm⟩
          · exact Or.inl hm
        · exact ⟨n, by rw [hlook, if_pos rfl], fun _ => rfl⟩
        · intro hno
          rw [hlog] at hno
          exact hno
      · intro span
        change (s.gpu.union.insertNode _ n).spanManager.frameOf span = _
        rw [heq]
        exact SpanManager.setExtraRef_frameOf ..
  | some m =>
      have hdone : m ∈ done ∧ (g₀.union.nodes m).hash = (s.gpu.union.nodes n).hash := by
        refine (h.table hl).resolve_left ?_
        intro hold
        rw [h.hash, hall.absent n hmem] at hold
        cases hold
      have href : (s.gpu.union.nodes m).refCnt = 0 := by
        rw [h.refCnt]
        exact hall.refCnt m (List.mem_append_left _ hdone.1)
      have hdistinct : ¬ P.distinct := by
        intro hd
        have hnodup := hall.distinct hd
        rw [List.map_append, List.map_cons] at hnodup
        refine (List.nodup_append.mp hnodup).2.2 _ (List.mem_map_of_mem hdone.1) _
          (List.mem_cons_self ..) ?_
        rw [hdone.2, h.hash]
      obtain ⟨evictor, heq, _⟩ := CacheUnion.insertNode_clash hinv.gpu.wf
        hinv.gpu.balanced.evictable hl href n
      have hlog : (s.gpu.insertNode (s.gpu.union.nodes n).hash n).log =
          .clash (s.gpu.union.nodes n).hash :: s.gpu.log := by
        unfold GpuSide.insertNode
        rw [hl]
        rfl
      have hclash : ¬ NoClash (s.gpu.insertNode (s.gpu.union.nodes n).hash n).log := by
        rw [hlog]
        exact fun hno => hno _ (List.mem_cons_self ..)
      refine ⟨((hinv.insertNode_clash hl href n hdistinct).setNodeReady n).weaken hmono, ?_, ?_⟩
      · apply h.advance
        · rw [heq]
        · rw [heq]
        · intro hash k hk
          rw [heq]
          exact hk
        · intro hash k hk
          rw [heq] at hk
          exact Or.inl hk
        · refine ⟨m, ?_, fun hno => absurd hno hclash⟩
          rw [heq]
          exact hl
        · exact fun hno => absurd hno hclash
      · intro span
        change (s.gpu.union.insertNode _ n).spanManager.frameOf span = _
        rw [heq]

/-- The insertion loop of a swap-in. -/
private theorem post_enterPieces {g₀ : GpuSide E D} (pairs : List (NodeId × NodeId))
    {done rest : List NodeId}
    (h : Entering cfg g₀ s.gpu r done (pairs.map Prod.snd ++ rest))
    (hall : Enterable cfg P g₀ r (done ++ (pairs.map Prod.snd ++ rest)))
    (hinv : Inv cfg P s (pendingOf g₀ r done))
    (hgood : CleanLog s.cpu.log → ∀ p ∈ pairs, P.Good (s.gpu.union.nodes p.2).hash
      (contents s.gpu.mem s.gpu.union.spanManager (s.gpu.union.nodes p.2).spans)) :
    Post (forEach (fun (p : NodeId × NodeId) => do
        modifyGpu (fun g => g.insertNode (g.union.nodes p.2).hash p.2)
        setGpuNodeReady p.2) pairs) s
      (fun _ t => Inv cfg P t (pendingOf g₀ r (done ++ pairs.map Prod.snd)) ∧
        Entering cfg g₀ t.gpu r (done ++ pairs.map Prod.snd) rest ∧ t = { s with gpu := t.gpu })
      (fun _ _ => False) := by
  induction pairs generalizing s done with
  | nil =>
      simp only [List.map_nil, List.append_nil, List.nil_append] at h hinv ⊢
      exact ⟨hinv, h, rfl⟩
  | cons p pairs ih =>
      obtain ⟨hinv', hent', hframe⟩ := h.enter hall hinv (fun hc => hgood hc p (by simp))
      rw [forEach]
      simp only [post_bind, post_modifyGpu, setGpuNodeReady]
      have hsplit : done ++ (p :: pairs).map Prod.snd = (done ++ [p.2]) ++ pairs.map Prod.snd := by
        simp
      have hall' : Enterable cfg P g₀ r (done ++ [p.2] ++ (pairs.map Prod.snd ++ rest)) := by
        rw [List.append_assoc]
        exact hall
      have hgood' : CleanLog s.cpu.log → ∀ q ∈ pairs, P.Good
          ((enterNode s.gpu p.2).union.nodes q.2).hash
          (contents (enterNode s.gpu p.2).mem (enterNode s.gpu p.2).union.spanManager
            ((enterNode s.gpu p.2).union.nodes q.2).spans) := by
        intro hclean q hq
        rw [hent'.hash, hent'.spans, ← h.hash, ← h.spans]
        have hsame : contents (enterNode s.gpu p.2).mem (enterNode s.gpu p.2).union.spanManager
            (s.gpu.union.nodes q.2).spans =
            contents s.gpu.mem s.gpu.union.spanManager (s.gpu.union.nodes q.2).spans := by
          apply contents_congr
          intro span _
          rw [hframe]
          rfl
        rw [hsame]
        exact hgood hclean q (List.mem_cons_of_mem _ hq)
      have hih := ih (s := { s with gpu := enterNode s.gpu p.2 }) hent' hall' hinv' hgood'
      rw [← hsplit] at hih
      exact hih

/-- The events of reading `nodes` back, where `inTable` says which of them the
table still had. -/
structure CopiedOf (nodes : List NodeId) (inTable : NodeId → Bool) (new : List CpuEvent) :
    Prop where
  event : ∀ {n present kept}, CpuEvent.copied n present kept ∈ new →
    n ∈ nodes ∧ present = inTable n ∧ (present = true → kept = true)
  node : ∀ n ∈ nodes, ∃ kept, CpuEvent.copied n (inTable n) kept ∈ new

theorem CopiedOf.congr {nodes : List NodeId} {inTable inTable' : NodeId → Bool}
    {new : List CpuEvent} (h : CopiedOf nodes inTable new)
    (heq : ∀ n ∈ nodes, inTable' n = inTable n) : CopiedOf nodes inTable' new where
  event hm := by
    obtain ⟨hn, hpresent, hkept⟩ := h.event hm
    exact ⟨hn, hpresent.trans (heq _ hn).symm, hkept⟩
  node n hn := by
    rw [heq n hn]
    exact h.node n hn

/-- How the CPU side changes while nodes are read back: its table stands, and
the log says of each node whether it was still in it. -/
structure ReadBack (c c' : CpuSide E D) (nodes : List NodeId) : Prop where
  hashTable : c'.union.hashTable = c.union.hashTable
  nextNode : c.union.nextNode ≤ c'.union.nextNode
  node : ∀ n < c.union.nextNode, ∃ ts ready,
    c'.union.nodes n = { c.union.nodes n with lastAccessTime := ts, isReady := ready } ∧
      ((c.union.nodes n).isReady = true → ready = true)
  log : c.log <:+ c'.log
  copied : ∃ new, copiedEvents c'.log = new ++ copiedEvents c.log ∧
    CopiedOf nodes (fun n => c.union.lookup (c.union.nodes n).hash = some n) new

namespace ReadBack

variable {c c' c'' : CpuSide E D} {nodes nodes' : List NodeId}

theorem nil (c : CpuSide E D) : ReadBack c c [] :=
  ⟨rfl, Nat.le_refl _, fun _ _ => ⟨_, _, rfl, id⟩, List.suffix_refl _,
    [], rfl, by simp, by simp⟩

theorem lookup (h : ReadBack c c' nodes) (hash : Hash) :
    c'.union.lookup hash = c.union.lookup hash := by
  unfold CacheUnion.lookup
  rw [h.hashTable]

theorem hash (h : ReadBack c c' nodes) {n : NodeId} (hn : n < c.union.nextNode) :
    (c'.union.nodes n).hash = (c.union.nodes n).hash := by
  obtain ⟨_, _, heq, _⟩ := h.node n hn
  rw [heq]

theorem collected (h : ReadBack c c' nodes) {n : NodeId} (hn : Collected cfg c n) :
    Collected cfg c' n := by
  obtain ⟨_, _, heq, hready⟩ := h.node n hn.lt_next
  refine ⟨Nat.lt_of_lt_of_le hn.lt_next h.nextNode, ?_, ?_, ?_⟩
  · rw [heq]
    exact hready hn.ready
  · rw [heq]
    exact hn.kLength
  · rw [heq]
    exact hn.vLength

theorem trans (h : ReadBack c c' nodes) (h' : ReadBack c' c'' nodes')
    (hlt : ∀ n ∈ nodes', n < c.union.nextNode) : ReadBack c c'' (nodes ++ nodes') where
  hashTable := h'.hashTable.trans h.hashTable
  nextNode := Nat.le_trans h.nextNode h'.nextNode
  node n hn := by
    obtain ⟨ts, ready, heq, hready⟩ := h.node n hn
    obtain ⟨ts', ready', heq', hready'⟩ := h'.node n (Nat.lt_of_lt_of_le hn h.nextNode)
    refine ⟨ts', ready', by rw [heq', heq], ?_⟩
    intro hr
    apply hready'
    rw [heq]
    exact hready hr
  log := h.log.trans h'.log
  copied := by
    obtain ⟨new, heq, hnew⟩ := h.copied
    obtain ⟨new', heq', hnew'⟩ := h'.copied
    have hlater : CopiedOf nodes'
        (fun n => c.union.lookup (c.union.nodes n).hash = some n) new' :=
      hnew'.congr (fun n hn => by rw [h.lookup, h.hash (hlt n hn)])
    refine ⟨new' ++ new, by rw [heq', heq, List.append_assoc], ?_, ?_⟩
    · intro n present kept hm
      rcases List.mem_append.mp hm with hm | hm
      · obtain ⟨hn, hrest⟩ := hlater.event hm
        exact ⟨List.mem_append_right _ hn, hrest⟩
      · obtain ⟨hn, hrest⟩ := hnew.event hm
        exact ⟨List.mem_append_left _ hn, hrest⟩
    · intro n hn
      rcases List.mem_append.mp hn with hn | hn
      · obtain ⟨kept, hk⟩ := hnew.node n hn
        exact ⟨kept, List.mem_append_right _ hk⟩
      · obtain ⟨kept, hk⟩ := hlater.node n hn
        exact ⟨kept, List.mem_append_left _ hk⟩

theorem logged (h : ReadBack c c' nodes) {n : NodeId} (hn : n ∈ nodes) : ∃ kept,
    CpuEvent.copied n (c.union.lookup (c.union.nodes n).hash = some n) kept ∈ c'.log := by
  obtain ⟨new, heq, hnew⟩ := h.copied
  obtain ⟨kept, hk⟩ := hnew.node n hn
  have hin : CpuEvent.copied n (c.union.lookup (c.union.nodes n).hash = some n) kept ∈
      copiedEvents c'.log := by
    rw [heq]
    exact List.mem_append_left _ hk
  exact ⟨kept, (List.mem_filter.mp hin).1⟩

/-- A change that reads nothing back. -/
theorem of_moved {g : GpuSide E D} (h : Moved g c c')
    (htable : c'.union.hashTable = c.union.hashTable) : ReadBack c c' [] :=
  ⟨htable, h.nextNode, h.node, h.log, [], by rw [h.copied]; rfl, by simp, by simp⟩

end ReadBack

/-- A node of the table has its frames. -/
private theorem framesKept_of_lookup {u : CacheUnion E} {layerNum : Nat} {out : SpanId → Prop}
    (hwf : Wf layerNum u out) {hash : Hash} {n : NodeId} (hl : u.lookup hash = some n) :
    framesKept u n = true := by
  unfold framesKept
  apply List.all_eq_true.mpr
  intro span hs
  have hheld : Held u.tableSpans out span :=
    Or.inl (mem_tableSpans_iff.mpr ⟨hash, n, hl, hs⟩)
  have hbusy := hwf.owned.frame_busy span hheld
  rw [Bool.and_eq_true]
  refine ⟨by simpa using hbusy, ?_⟩
  apply List.all_eq_true.mpr
  intro later hlater
  apply decide_eq_true
  exact hwf.owned.latest span hheld later (List.mem_range.mp hlater)

private theorem readBack_logCopied {c : CpuSide E D} (hwf : Wf cfg.layerNum c.union out)
    (nodes : List NodeId) : ReadBack c (logCopied c nodes) nodes := by
  refine ⟨rfl, Nat.le_refl _, fun _ _ => ⟨_, _, rfl, id⟩, List.suffix_append ..,
    nodes.map (fun n => .copied n (c.union.lookup (c.union.nodes n).hash = some n)
      (framesKept c.union n)), ?_, ?_, ?_⟩
  · unfold copiedEvents logCopied
    rw [List.filter_append, List.filter_eq_self.mpr]
    intro event hm
    obtain ⟨n, _, rfl⟩ := List.mem_map.mp hm
    rfl
  · intro n present kept hm
    obtain ⟨k, hk, heq⟩ := List.mem_map.mp hm
    cases heq
    refine ⟨hk, rfl, ?_⟩
    intro hin
    exact framesKept_of_lookup hwf (of_decide_eq_true hin)
  · intro n hn
    exact ⟨framesKept c.union n, List.mem_map.mpr ⟨n, hn, rfl⟩⟩

private theorem flatMap_pairwise {α β : Type} {f f' : α → List β} {l : List α}
    (h : l.flatMap f = l.flatMap f') (hlen : ∀ a ∈ l, (f a).length = (f' a).length) :
    ∀ a ∈ l, f a = f' a := by
  induction l with
  | nil => simp
  | cons a rest ih =>
      rw [List.flatMap_cons, List.flatMap_cons] at h
      obtain ⟨hfirst, hrest⟩ := List.append_inj h (hlen a (List.mem_cons_self ..))
      intro b hb
      rcases List.mem_cons.mp hb with rfl | hb
      · exact hfirst
      · exact ih hrest (fun c hc => hlen c (List.mem_cons_of_mem _ hc)) b hb

/-- What a collected node holds when it is read back: in a clean run it is good
for the node's hash. -/
private theorem good_of_clean (h : Inv cfg P s pend) {n : NodeId} (hn : Collected cfg s.cpu n)
    (hclean : CleanLog s.cpu.log) (hl : s.cpu.union.lookup (s.cpu.union.nodes n).hash = some n) :
    P.Good (s.cpu.union.nodes n).hash
      (contents s.cpu.mem s.cpu.union.spanManager (s.cpu.union.nodes n).spans) := by
  rw [(h.cpu.copies hclean.noLoss).ready hl hn.ready]
  exact (h.content hclean).2 hl

private theorem contents_flatMap {α : Type} (mem : FrameId → D) (m : SpanManager) (l : List α)
    (f : α → List SpanId) :
    contents mem m (l.flatMap f) = l.flatMap (fun a => contents mem m (f a)) :=
  List.map_flatMap ..

private theorem length_flatMap_congr {α β γ : Type} {f : α → List β} {f' : α → List γ}
    {l : List α} (h : ∀ a ∈ l, (f a).length = (f' a).length) :
    (l.flatMap f).length = (l.flatMap f').length := by
  rw [List.length_flatMap, List.length_flatMap]
  exact congrArg List.sum (List.map_congr_left h)

/-- After the copy every new node holds what its CPU node held. -/
private theorem contents_copied {pairs : List (NodeId × NodeId)} {rest : List NodeId}
    (h : Inv cfg P s pend) (hr : r ∈ s.gpu.live)
    (hnew : NewNodes cfg s.gpu r (pairs.map Prod.snd ++ rest))
    (hcollected : ∀ p ∈ pairs, Collected cfg s.cpu p.1) {data : List D}
    (hdata : data = contents s.cpu.mem s.cpu.union.spanManager
      (pairs.flatMap (fun p => (s.cpu.union.nodes p.1).spans))) :
    ∀ p ∈ pairs,
      contents (writeFrames s.gpu.mem (((batchSpans s.gpu.union (pairs.map Prod.snd)).map
          s.gpu.union.spanManager.frameOf).zip data)) s.gpu.union.spanManager
        (s.gpu.union.nodes p.2).spans =
      contents s.cpu.mem s.cpu.union.spanManager (s.cpu.union.nodes p.1).spans := by
  have hbatch : batchSpans s.gpu.union (pairs.map Prod.snd) =
      pairs.flatMap (fun p => (s.gpu.union.nodes p.2).spans) := by
    unfold batchSpans
    rw [List.flatMap_map]
  have hwidth : ∀ p ∈ pairs, (s.cpu.union.nodes p.1).spans.length =
      (s.gpu.union.nodes p.2).spans.length := by
    intro p hp
    have hin : p.2 ∈ pairs.map Prod.snd ++ rest :=
      List.mem_append_left _ (List.mem_map_of_mem hp)
    have hc := hcollected p hp
    have hk := hnew.kLength p.2 hin
    have hv := hnew.vLength p.2 hin
    rw [PrefixNode.spans_length _ (hc.vLength.trans hc.kLength.symm),
      PrefixNode.spans_length _ (hv.trans hk.symm)]
    unfold PrefixNode.cacheNum
    rw [hc.kLength, hk]
  have hlen : data.length = (batchSpans s.gpu.union (pairs.map Prod.snd)).length := by
    rw [hdata, hbatch]
    unfold contents
    rw [List.length_map]
    exact length_flatMap_congr hwidth
  have hwritten := contents_write h hr hnew (List.sublist_append_left _ _) hlen
  have hsum : pairs.flatMap (fun p => contents (writeFrames s.gpu.mem
      (((batchSpans s.gpu.union (pairs.map Prod.snd)).map
        s.gpu.union.spanManager.frameOf).zip data)) s.gpu.union.spanManager
        (s.gpu.union.nodes p.2).spans) =
      pairs.flatMap (fun p => contents s.cpu.mem s.cpu.union.spanManager
        (s.cpu.union.nodes p.1).spans) := by
    rw [← contents_flatMap, ← contents_flatMap, ← hdata, ← hbatch]
    exact hwritten
  apply flatMap_pairwise hsum
  intro p hp
  unfold contents
  rw [List.length_map, List.length_map]
  exact (hwidth p hp).symm

/-- One piece of a swap-in. -/
private theorem post_swapNodelistToGpuImpl {g₀ : GpuSide E D} (pairs : List (NodeId × NodeId))
    {done rest : List NodeId} (h : Entering cfg g₀ s.gpu r done (pairs.map Prod.snd ++ rest))
    (hall : Enterable cfg P g₀ r (done ++ (pairs.map Prod.snd ++ rest)))
    (hinv : Inv cfg P s (pendingOf g₀ r done))
    (hcollected : ∀ p ∈ pairs, Collected cfg s.cpu p.1)
    (hhash : ∀ p ∈ pairs, (g₀.union.nodes p.2).hash = (s.cpu.union.nodes p.1).hash)
    (hsize : pairs.length ≤ cfg.maxNumSpans) :
    Post (swapNodelistToGpuImpl cfg pairs) s
      (fun _ t => Inv cfg P t (pendingOf g₀ r (done ++ pairs.map Prod.snd)) ∧
        Entering cfg g₀ t.gpu r (done ++ pairs.map Prod.snd) rest ∧
        t.seqLenThre = s.seqLenThre ∧ ReadBack s.cpu t.cpu (pairs.map Prod.fst))
      (fun e _ => e = .blocked) := by
  unfold swapNodelistToGpuImpl
  rw [post_bind, post_get]
  cases hpairs : pairs.head? with
  | none =>
      obtain rfl : pairs = [] := List.head?_eq_none_iff.mp hpairs
      simp only [List.map_nil, List.append_nil, List.nil_append] at h ⊢
      exact ⟨hinv, h, rfl, ReadBack.nil _⟩
  | some first =>
      have hfirst := hcollected first (List.mem_of_mem_head? hpairs)
      have hcache : (s.cpu.union.nodes first.1).cacheNum = cfg.layerNum := hfirst.kLength
      dsimp only
      rw [hcache, post_bind]
      have hfit : ¬ cfg.maxNumSpans * cfg.spanPerNode < pairs.length * cfg.layerNum * 2 := by
        have hmul := Nat.mul_le_mul_right (2 * cfg.layerNum) hsize
        unfold Config.spanPerNode
        rw [Nat.mul_assoc, Nat.mul_comm cfg.layerNum 2]
        omega
      apply (post_checkedBlock hinv.cpu _).imp
      swap
      · rintro e t (he | ⟨hbig, _⟩)
        · exact he
        · exact absurd hbig hfit
      rintro block t ⟨ht, httable, hheld, hfree⟩
      have htinv := hinv.onlyCpu ht
      have hent : Entering cfg g₀ t.gpu r done (pairs.map Prod.snd ++ rest) := by
        rw [ht.gpu]
        exact h
      have hr : r ∈ t.gpu.live := by
        rw [hent.live]
        exact hall.live
      have hcomp : (t.gpu.ctx r).computed ≤ (t.gpu.ctx r).offered := by
        rw [hent.ctx]
        exact hall.computed
      have hcoll : ∀ p ∈ pairs, Collected cfg t.cpu p.1 :=
        fun p hp => (hcollected p hp).moved ht.moved
      have hread := (ReadBack.of_moved ht.moved httable).trans
        (readBack_logCopied htinv.cpu.wf (pairs.map Prod.fst)) (by
          intro n hn
          obtain ⟨p, hp, rfl⟩ := List.mem_map.mp hn
          exact (hcollected p hp).lt_next)
      let c₁ := logCopied t.cpu (pairs.map Prod.fst)
      let data := contents c₁.mem c₁.union.spanManager
        (pairs.flatMap (fun p => (c₁.union.nodes p.1).spans))
      have hlogged : t.cpu.log <:+ c₁.log := List.suffix_append ..
      have hsub : ∀ event, event ∈ t.cpu.log → event ∈ c₁.log := fun _ he => hlogged.subset he
      have hc₁ : CpuInv cfg c₁ [] [] :=
        htinv.cpu.relog (fun hno n hn => hno n (hsub _ hn)) (fun hno n hn => hno n (hsub _ hn))
      have hc₂ : CpuInv cfg (fillBlock c₁ block data) [] [] := hc₁.fillBlock hfree data
      have hinv₂ : Inv cfg P { t with cpu := fillBlock c₁ block data } (pendingOf g₀ r done) :=
        htinv.withCpu hc₂ hlogged id rfl
      have hbatch : pairs.flatMap (fun p => (t.gpu.union.nodes p.2).spans) =
          batchSpans t.gpu.union (pairs.map Prod.snd) := by
        unfold batchSpans
        rw [List.flatMap_map]
      let v : State E D := { t with
        cpu := fillBlock c₁ block data
        gpu := { t.gpu with
          mem := writeFrames t.gpu.mem (((batchSpans t.gpu.union (pairs.map Prod.snd)).map
            t.gpu.union.spanManager.frameOf).zip data) } }
      have hvinv : Inv cfg P v (pendingOf g₀ r done) :=
        hinv₂.write hr hent.new hcomp (fun n hn => List.mem_append_left rest hn) data
      have hvent : Entering cfg g₀ v.gpu r done (pairs.map Prod.snd ++ rest) := hent.withMem _
      have hgood : CleanLog v.cpu.log → ∀ p ∈ pairs, P.Good (v.gpu.union.nodes p.2).hash
          (contents v.gpu.mem v.gpu.union.spanManager (v.gpu.union.nodes p.2).spans) := by
        intro hclean p hp
        have hsame := contents_copied htinv hr hent.new hcoll (Eq.refl data) p hp
        have hin : t.cpu.union.lookup (t.cpu.union.nodes p.1).hash = some p.1 := by
          by_contra hout
          obtain ⟨kept, hevent⟩ :=
            (readBack_logCopied htinv.cpu.wf (pairs.map Prod.fst)).logged
              (List.mem_map_of_mem hp)
          rw [decide_eq_false hout] at hevent
          exact hclean.copied p.1 kept hevent
        have hkey : (t.gpu.union.nodes p.2).hash = (t.cpu.union.nodes p.1).hash := by
          rw [hent.hash, hhash p hp, ht.moved.hash (hcollected p hp).lt_next]
        change P.Good (t.gpu.union.nodes p.2).hash _
        rw [hkey]
        refine hsame.symm ▸ good_of_clean htinv (hcoll p hp) ?_ hin
        exact CleanLog.of_suffix hclean hlogged
      simp only [post_bind, post_modifyCpu, post_get, post_modifyGpu]
      rw [hbatch]
      apply (post_enterPieces (s := v) pairs hvent hall hvinv hgood).imp _ (fun _ _ he => he.elim)
      rintro _ w ⟨hwinv, hwent, hw⟩
      obtain ⟨hdinv, hdaside⟩ := hwinv.cpu.dropHeldBlock
      have hwcpu : w.cpu = v.cpu := by rw [hw]
      refine ⟨?_, hwent, ?_, ?_⟩
      · refine hwinv.withCpu hdinv ?_ ?_ ?_
        · rw [hdaside.log]
        · intro hash n hl
          rw [hdaside.lookup] at hl
          exact hl
        · rw [hdaside.origin]
      · change w.seqLenThre = _
        rw [hw]
        exact ht.seqLenThre
      · change ReadBack s.cpu w.cpu.dropHeldBlock _
        have hclear : Moved w.gpu w.cpu { w.cpu with heldBlock := none } :=
          Moved.of_same rfl rfl rfl
        have hdrop : ReadBack w.cpu w.cpu.dropHeldBlock [] :=
          ReadBack.of_moved (hclear.trans (Moved.of_aside hdaside)) hdaside.hashTable
        have hfill : ReadBack c₁ v.cpu [] :=
          ReadBack.of_moved (g := t.gpu) (Moved.of_same rfl rfl rfl) rfl
        rw [hwcpu] at hdrop ⊢
        have hchain := (hread.trans hfill (by simp)).trans hdrop (by simp)
        simpa using hchain

/-- The copy phase of a swap-in: every piece enters the table, or a piece waits
for a workspace block for ever. -/
theorem post_enterAll {g₀ : GpuSide E D} (fuel : Nat) (pairs : List (NodeId × NodeId))
    {done : List NodeId} (hfuel : pairs.length ≤ fuel)
    (h : Entering cfg g₀ s.gpu r done (pairs.map Prod.snd))
    (hall : Enterable cfg P g₀ r (done ++ pairs.map Prod.snd))
    (hinv : Inv cfg P s (pendingOf g₀ r done))
    (hcollected : ∀ p ∈ pairs, Collected cfg s.cpu p.1)
    (hhash : ∀ p ∈ pairs, (g₀.union.nodes p.2).hash = (s.cpu.union.nodes p.1).hash) :
    Post (forEach (swapNodelistToGpuImpl cfg) (slices cfg.maxNumSpans fuel pairs)) s
      (fun _ t => Inv cfg P t (pendingOf g₀ r (done ++ pairs.map Prod.snd)) ∧
        Entering cfg g₀ t.gpu r (done ++ pairs.map Prod.snd) [] ∧
        t.seqLenThre = s.seqLenThre ∧ ReadBack s.cpu t.cpu (pairs.map Prod.fst))
      (fun e _ => e = .blocked) := by
  induction fuel generalizing s pairs done with
  | zero =>
      obtain rfl : pairs = [] := List.length_eq_zero_iff.mp (Nat.le_zero.mp hfuel)
      simp only [List.map_nil, List.append_nil] at h ⊢
      exact ⟨hinv, h, rfl, ReadBack.nil _⟩
  | succ fuel ih =>
      cases hcase : pairs with
      | nil =>
          subst hcase
          simp only [List.map_nil, List.append_nil] at h ⊢
          exact ⟨hinv, h, rfl, ReadBack.nil _⟩
      | cons first tail =>
          rw [slices, ← hcase, forEach, post_bind]
          have hsplit : pairs = pairs.take cfg.maxNumSpans ++ pairs.drop cfg.maxNumSpans :=
            (List.take_append_drop _ _).symm
          have hmap : ∀ f : NodeId × NodeId → NodeId, pairs.map f =
              (pairs.take cfg.maxNumSpans).map f ++ (pairs.drop cfg.maxNumSpans).map f := by
            intro f
            rw [← List.map_append, ← hsplit]
          rw [hmap Prod.snd] at h hall
          apply (post_swapNodelistToGpuImpl _ h hall hinv
            (fun p hp => hcollected p (List.mem_of_mem_take hp))
            (fun p hp => hhash p (List.mem_of_mem_take hp)) (List.length_take_le _ _)).imp _
            (fun _ _ he => he)
          rintro _ t ⟨htinv, htent, hthre, hread⟩
          have hdrop : (pairs.drop cfg.maxNumSpans).length ≤ fuel := by
            have hpos := cfg.maxNumSpans_pos
            have hne : 0 < pairs.length := by simp [hcase]
            rw [List.length_drop]
            omega
          rw [← List.append_assoc] at hall
          apply (ih _ hdrop htent hall htinv
            (fun p hp => hread.collected (hcollected p (List.mem_of_mem_drop hp))) ?_).imp
          · rintro _ v ⟨hvinv, hvent, hvthre, hvread⟩
            rw [hmap Prod.snd, hmap Prod.fst, ← List.append_assoc]
            refine ⟨hvinv, hvent, hvthre.trans hthre, hread.trans hvread ?_⟩
            intro n hn
            obtain ⟨p, hp, rfl⟩ := List.mem_map.mp hn
            exact (hcollected p (List.mem_of_mem_drop hp)).lt_next
          · exact fun _ _ he => he
          · intro p hp
            have hmem := List.mem_of_mem_drop hp
            rw [hread.hash (hcollected p hmem).lt_next]
            exact hhash p hmem

/-- What is known of a node that is in the table, or meets another node there,
and is to be listed next. -/
structure Listable (g₀ g : GpuSide E D) (n : NodeId) : Prop where
  lt_next : n < g.union.nextNode
  hash : (g.union.nodes n).hash = (g₀.union.nodes n).hash
  found : ∃ m, g.union.lookup (g.union.nodes n).hash = some m ∧ (NoClash g.log → n = m)

/-- The last loop of `RefFill`: the request lists the nodes that entered. -/
theorem post_listNodes {g₀ : GpuSide E D} (ts : Nat) (new : List NodeId)
    (hinv : Inv cfg P s (pendingOf g₀ r new)) (hr : r ∈ s.gpu.live)
    (hnew : ∀ n ∈ new, Listable g₀ s.gpu n) :
    Post (forEach (fun n => do
        let s ← get
        let hash := (s.gpu.union.nodes n).hash
        modifyGpu (fun g => g.refNode hash ts)
        modifyCpu (fun c => c.updateNodeTs hash ts)
        modifyGpu (fun g => g.pushNode r n)) new) s
      (fun _ t => Inv cfg P t Settled ∧ Kept s.gpu.union t.gpu.union ∧
        t.gpu.live = s.gpu.live ∧ t.seqLenThre = s.seqLenThre ∧
        t.gpu.ctx r = { s.gpu.ctx r with nodeList := (s.gpu.ctx r).nodeList ++ new } ∧
        ReadBack s.cpu t.cpu [])
      (fun _ _ => False) := by
  induction new generalizing s with
  | nil =>
      refine ⟨?_, Kept.refl _, rfl, rfl, ?_, ReadBack.nil _⟩
      · apply hinv.weaken
        rintro q hash ⟨_, n, hn, _⟩
        cases hn
      · rw [List.append_nil]
  | cons n rest ih =>
      obtain ⟨hlt, hhash, m, hl, hsame⟩ := hnew n (List.mem_cons_self ..)
      rw [forEach]
      simp only [post_bind, post_get, post_modifyGpu, post_modifyCpu]
      have hstep : Inv cfg P { s with
          gpu := (s.gpu.refNode (s.gpu.union.nodes n).hash ts).pushNode r n }
          (pendingOf g₀ r rest) := by
        apply hinv.refPush ts hr hl hlt rfl hsame
        rintro q other ⟨hq, k, hk, hother⟩
        rcases List.mem_cons.mp hk with rfl | hk
        · exact Or.inr ⟨hq, by rw [hhash, hother]⟩
        · exact Or.inl ⟨hq, k, hk, hother⟩
      have hcpu := hstep.cpu.updateNodeTs (s.gpu.union.nodes n).hash ts
      have hmoved : Moved s.gpu s.cpu (s.cpu.updateNodeTs (s.gpu.union.nodes n).hash ts) :=
        Moved.updateNodeTs _ ts
      have hckept := kept_updateNodeTs (u := s.cpu.union) ts (s.gpu.union.nodes n).hash
      have hnext := hstep.withCpu hcpu hmoved.log (fun hlk => hckept.lookup _ ▸ hlk) rfl
      have hkept := kept_refNode ts hinv.gpu.wf (s.gpu.union.nodes n).hash
      have hrest : ∀ k ∈ rest, Listable g₀ ((s.gpu.refNode (s.gpu.union.nodes n).hash ts).pushNode
          r n) k := by
        intro k hk
        obtain ⟨hlt', hhash', m', hl', hsame'⟩ := hnew k (List.mem_cons_of_mem _ hk)
        refine ⟨?_, (hkept.hash k).trans hhash', m', ?_, hsame'⟩
        · change k < (s.gpu.union.refNode _ ts).nextNode
          rw [hkept.nextNode]
          exact hlt'
        · change (s.gpu.union.refNode _ ts).lookup ((s.gpu.union.refNode _ ts).nodes k).hash = _
          rw [hkept.hash, hkept.lookup]
          exact hl'
      apply (ih hnext hr hrest).imp _ (fun _ _ he => he)
      rintro _ t ⟨htinv, htkept, htlive, htthre, htctx, htread⟩
      refine ⟨htinv, hkept.trans htkept, htlive, htthre, ?_, ?_⟩
      · have hpush : ((s.gpu.refNode (s.gpu.union.nodes n).hash ts).pushNode r n).ctx r =
            { s.gpu.ctx r with nodeList := (s.gpu.ctx r).nodeList ++ [n] } :=
          Function.update_self ..
        rw [htctx]
        simp [hpush]
      · exact (ReadBack.of_moved hmoved hckept.hashTable).trans htread (by simp)

end DashInfer.Cache
