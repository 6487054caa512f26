import DashInfer.Cache.GpuLayers
import DashInfer.Cache.SwapOut

/-!
The invariant of a worker. It joins the invariants of the two sides with what
the memory holds: table nodes hold content that is good for their hash, and a
request's own blocks hold what the request computed. How much of it is claimed
depends on a premise about the run, which the steps of the run have to meet.
-/

namespace DashInfer.Cache

open Lib CacheUnion PrefixCacheManager

variable {E : OrderedSet NodeId} {D : Type} {cfg : Config}

/-- What the steps of a run are known to respect. -/
structure Premise (D : Type) where
  /-- In every `RefFill` the blocks found on the GPU come before those found
  only on the CPU. -/
  ordered : Prop
  /-- In every `RefFill` the blocks found only on the CPU have distinct hashes. -/
  distinct : Prop
  /-- Content that may be stored under a hash. -/
  Good : Hash → List D → Prop

/-- A run that asks for nothing. -/
def Premise.none (D : Type) : Premise D where
  ordered := False
  distinct := False
  Good _ _ := True

/-- No copy was lost, and whatever was read back was still in the table. -/
structure CleanLog (log : List CpuEvent) : Prop where
  noLoss : NoLoss log
  copied : ∀ n kept, CpuEvent.copied n false kept ∉ log

theorem CleanLog.of_suffix {log log' : List CpuEvent} (h : CleanLog log')
    (hsuffix : log <:+ log') : CleanLog log where
  noLoss n hmem := h.noLoss n (hsuffix.subset hmem)
  copied n kept hmem := h.copied n kept (hsuffix.subset hmem)

/-- The spans of a block in the order of a node's spans. -/
def blockSpans (block : List SpanId × List SpanId) : List SpanId :=
  (block.1.zip block.2).flatMap (fun kv => [kv.1, kv.2])

/-- Every node of the table holds content that is good for its hash. -/
def Holds (Good : Hash → List D → Prop) (g : GpuSide E D) : Prop :=
  ∀ {hash n}, g.union.lookup hash = some n →
    Good hash (contents g.mem g.union.spanManager (g.union.nodes n).spans)

/-- Blocks that a request computed and did not offer yet hold what it
computed. -/
def OwnBlocks (g : GpuSide E D) : Prop :=
  ∀ r ∈ g.live, ∀ p, (g.ctx r).offered ≤ p → p < (g.ctx r).computed →
    ∃ block, (g.ctx r).blockAt p = some block ∧
      contents g.mem g.union.spanManager (blockSpans block) =
        (List.range (blockSpans block).length).map ((g.ctx r).source p)

theorem contents_congr {mem mem' : FrameId → D} {m m' : SpanManager} {spans : List SpanId}
    (h : ∀ span ∈ spans, mem' (m'.frameOf span) = mem (m.frameOf span)) :
    contents mem' m' spans = contents mem m spans :=
  List.map_congr_left h

/-- A span that the table or a request holds. -/
def GpuSide.holds (g : GpuSide E D) (span : SpanId) : Prop :=
  Held g.union.tableSpans (· ∈ g.slots) span

theorem blockSpans_mem {block : List SpanId × List SpanId} {span : SpanId}
    (h : span ∈ blockSpans block) : span ∈ block.1 ∨ span ∈ block.2 := by
  obtain ⟨kv, hkv, hspan⟩ := List.mem_flatMap.mp h
  have hboth := List.of_mem_zip hkv
  rcases List.mem_cons.mp hspan with rfl | hspan
  · exact Or.inl hboth.1
  · rw [List.mem_singleton.mp hspan]
    exact Or.inr hboth.2

private theorem mem_of_mapM {l : List CacheArray} {k : Nat} {spans : List SpanId}
    (h : l.mapM (fun a => a.cache[k]?) = some spans) {span : SpanId} (hs : span ∈ spans) :
    ∃ a ∈ l, a.cache[k]? = some span := by
  induction l generalizing spans with
  | nil =>
      simp only [List.mapM_nil] at h
      cases h
      cases hs
  | cons a l ih =>
      rw [List.mapM_cons] at h
      cases hhead : a.cache[k]? with
      | none =>
          rw [hhead] at h
          cases h
      | some first =>
          cases htail : l.mapM (fun a => a.cache[k]?) with
          | none =>
              rw [hhead, htail] at h
              cases h
          | some rest =>
              rw [hhead, htail] at h
              cases h
              rcases List.mem_cons.mp hs with rfl | hs
              · exact ⟨a, List.mem_cons_self .., hhead⟩
              · obtain ⟨b, hb, hget⟩ := ih htail hs
                exact ⟨b, List.mem_cons_of_mem _ hb, hget⟩

/-- The spans of a block are in the request's arrays, at its position. -/
theorem GenCtx.mem_of_blockAt {c : GenCtx D} {k : Nat} {block : List SpanId × List SpanId}
    (h : c.blockAt k = some block) {span : SpanId} (hs : span ∈ blockSpans block) :
    ∃ a ∈ c.arrays, a.cache[k]? = some span := by
  unfold blockAt at h
  cases hk : c.virtualK.mapM (fun a => a.cache[k]?) with
  | none =>
      rw [hk] at h
      cases h
  | some kCache =>
      cases hv : c.virtualV.mapM (fun a => a.cache[k]?) with
      | none =>
          rw [hk, hv] at h
          cases h
      | some vCache =>
          rw [hk, hv] at h
          cases h
          rcases blockSpans_mem hs with hs | hs
          · obtain ⟨a, ha, hget⟩ := mem_of_mapM hk hs
            exact ⟨a, List.mem_append_left _ ha, hget⟩
          · obtain ⟨a, ha, hget⟩ := mem_of_mapM hv hs
            exact ⟨a, List.mem_append_right _ ha, hget⟩

theorem GenCtx.mem_spans_of_blockAt {c : GenCtx D} {k : Nat}
    {block : List SpanId × List SpanId} (h : c.blockAt k = some block) {span : SpanId}
    (hs : span ∈ blockSpans block) : span ∈ c.spans := by
  obtain ⟨a, ha, hget⟩ := c.mem_of_blockAt h hs
  exact List.mem_flatMap.mpr ⟨a, ha, List.mem_of_getElem? hget⟩

/-- A span whose content counts: that of a table node, or of a block that a
request computed and did not offer yet. -/
def GpuSide.keeps (g : GpuSide E D) (span : SpanId) : Prop :=
  span ∈ g.union.tableSpans ∨ ∃ r ∈ g.live, ∃ p block, (g.ctx r).offered ≤ p ∧
    p < (g.ctx r).computed ∧ (g.ctx r).blockAt p = some block ∧ span ∈ blockSpans block

theorem GpuSide.keeps.holds {g : GpuSide E D} {span : SpanId} (h : g.keeps span) :
    g.holds span := by
  rcases h with htable | ⟨r, hr, p, block, _, _, hb, hs⟩
  · exact Or.inl htable
  · exact Or.inr (mem_slots_iff.mpr ⟨r, hr, GenCtx.mem_spans_of_blockAt hb hs⟩)

/-- The second state has no table node that the first has not, and what
counted in the first has kept its place and content. -/
structure Carried (g g' : GpuSide E D) : Prop where
  table : ∀ {hash n}, g'.union.lookup hash = some n →
    g.union.lookup hash = some n ∧ (g'.union.nodes n).spans = (g.union.nodes n).spans
  memory : ∀ span, g.keeps span →
    g'.mem (g'.union.spanManager.frameOf span) = g.mem (g.union.spanManager.frameOf span)
  own : ∀ r ∈ g'.live, ∀ p, (g'.ctx r).offered ≤ p → p < (g'.ctx r).computed →
    r ∈ g.live ∧ (g.ctx r).offered ≤ p ∧ p < (g.ctx r).computed ∧
      (g'.ctx r).source p = (g.ctx r).source p ∧
      ∀ block, (g.ctx r).blockAt p = some block → (g'.ctx r).blockAt p = some block

namespace Carried

variable {g g' : GpuSide E D}

theorem holds {Good : Hash → List D → Prop} (h : Carried g g') (hg : Holds Good g) :
    Holds Good g' := by
  intro hash n hl
  obtain ⟨hl', hspans⟩ := h.table hl
  have hsame : contents g'.mem g'.union.spanManager (g'.union.nodes n).spans =
      contents g.mem g.union.spanManager (g.union.nodes n).spans := by
    rw [hspans]
    apply contents_congr
    intro span hs
    exact h.memory span (Or.inl (mem_tableSpans_iff.mpr ⟨hash, n, hl', hs⟩))
  rw [hsame]
  exact hg hl'

theorem ownBlocks (h : Carried g g') (hg : OwnBlocks g) : OwnBlocks g' := by
  intro r hr p hp hp'
  obtain ⟨hr', hoff, hcomp, hsource, hblock⟩ := h.own r hr p hp hp'
  obtain ⟨block, hb, hcontents⟩ := hg r hr' p hoff hcomp
  refine ⟨block, hblock block hb, ?_⟩
  rw [hsource, ← hcontents]
  apply contents_congr
  intro span hs
  exact h.memory span (Or.inr ⟨r, hr', p, block, hoff, hcomp, hb, hs⟩)

/-- The union changed in counts and timestamps only, and a request's context
in its node list and its offered position. -/
theorem of_kept (hk : Kept g.union g'.union) (hmem : g'.mem = g.mem) (hlive : g'.live = g.live)
    (hctx : ∀ r ∈ g.live, (g'.ctx r).virtualK = (g.ctx r).virtualK ∧
      (g'.ctx r).virtualV = (g.ctx r).virtualV ∧ (g.ctx r).offered ≤ (g'.ctx r).offered ∧
      (g'.ctx r).computed = (g.ctx r).computed ∧ (g'.ctx r).source = (g.ctx r).source) :
    Carried g g' where
  table {hash n} hl := ⟨hk.lookup hash ▸ hl, hk.spans n⟩
  memory span _ := by rw [hmem, hk.spanManager]
  own r hr p hp hp' := by
    rw [hlive] at hr
    obtain ⟨hvk, hvv, hoff, hcomp, hsource⟩ := hctx r hr
    refine ⟨hr, Nat.le_trans hoff hp, hcomp ▸ hp', by rw [hsource], ?_⟩
    intro block hb
    unfold GenCtx.blockAt at hb ⊢
    rw [hvk, hvv]
    exact hb

/-- Only the union changed, keeping frames where they were. -/
theorem of_union {u' : CacheUnion E}
    (htable : ∀ {hash n}, u'.lookup hash = some n →
      g.union.lookup hash = some n ∧ (u'.nodes n).spans = (g.union.nodes n).spans)
    (hframe : ∀ span, g.holds span →
      u'.spanManager.frameOf span = g.union.spanManager.frameOf span) :
    Carried g { g with union := u' } where
  table := htable
  memory span hs := by
    change g.mem (u'.spanManager.frameOf span) = _
    rw [hframe span hs.holds]
  own _ hr _ hp hp' := ⟨hr, hp, hp', rfl, fun _ hb => hb⟩

/-- One request's arrays are extended, by spans that may have been claimed for
it. -/
theorem of_extended {r : ReqId} {m' : SpanManager} {c' : GenCtx D} {new : List SpanId}
    (hframe : ∀ span, g.holds span → m'.frameOf span = g.union.spanManager.frameOf span)
    (hext : Extended (g.ctx r) c' new) (hcomp : c'.computed = (g.ctx r).computed)
    (hsource : c'.source = (g.ctx r).source) :
    Carried g (GpuSide.updateCtx { g with union := { g.union with spanManager := m' } } r
      (fun _ => c')) where
  table hl := ⟨hl, rfl⟩
  memory span hs := by
    change g.mem (m'.frameOf span) = _
    rw [hframe span hs.holds]
  own q hq p hp hp' := by
    by_cases hqr : q = r
    · subst hqr
      rw [GpuSide.updateCtx_self] at hp hp' ⊢
      rw [hext.offered] at hp
      rw [hcomp] at hp'
      exact ⟨hq, hp, hp', by rw [hsource], fun block hb => hext.blockAt hb⟩
    · rw [GpuSide.updateCtx_of_ne hqr] at hp hp' ⊢
      exact ⟨hq, hp, hp', rfl, fun _ hb => hb⟩

end Carried

/-- The invariant, inside an operation that has still to list the nodes of
`pend`. -/
structure Inv (cfg : Config) (P : Premise D) (s : State E D) (pend : ReqId → Hash → Prop) :
    Prop where
  gpu : GpuInv cfg P.ordered s.gpu pend
  cpu : CpuInv cfg s.cpu [] []
  noClash : P.distinct → NoClash s.gpu.log
  own : OwnBlocks s.gpu
  content : CleanLog s.cpu.log → Holds P.Good s.gpu ∧
    ∀ {hash n}, s.cpu.union.lookup hash = some n → P.Good hash (s.cpu.origin n)

namespace Inv

variable {P : Premise D} {s t : State E D} {pend pend' : ReqId → Hash → Prop}

/-- The CPU side moved on. -/
theorem onlyCpu (h : Inv cfg P s pend) (ho : OnlyCpu cfg s t [] []) : Inv cfg P t pend where
  gpu := by
    rw [ho.gpu]
    exact h.gpu
  cpu := ho.cpu
  noClash := by
    rw [ho.gpu]
    exact h.noClash
  own := by
    rw [ho.gpu]
    exact h.own
  content hclean := by
    obtain ⟨hgpu, hcpu⟩ := h.content (hclean.of_suffix ho.moved.log)
    rw [ho.gpu]
    refine ⟨hgpu, ?_⟩
    intro hash n hl
    rcases ho.moved.stored hl with ⟨hl', horigin⟩ | ⟨m, hm, hdata⟩
    · rw [horigin]
      exact hcpu hl'
    · rw [hdata]
      exact hgpu hm

/-- The CPU side changed and kept its table. -/
theorem withCpu (h : Inv cfg P s pend) {c' : CpuSide E D} (hcpu : CpuInv cfg c' [] [])
    (hlog : s.cpu.log <:+ c'.log)
    (htable : ∀ {hash n}, c'.union.lookup hash = some n → s.cpu.union.lookup hash = some n)
    (horigin : c'.origin = s.cpu.origin) : Inv cfg P { s with cpu := c' } pend where
  gpu := h.gpu
  cpu := hcpu
  noClash := h.noClash
  own := h.own
  content hclean := by
    obtain ⟨hgpu, hgood⟩ := h.content (hclean.of_suffix hlog)
    refine ⟨hgpu, ?_⟩
    intro hash n hl
    change P.Good hash (c'.origin n)
    rw [horigin]
    exact hgood (htable hl)

/-- The GPU side changed and carried what it held. -/
theorem carry (h : Inv cfg P s pend) {g' : GpuSide E D}
    (hinv : GpuInv cfg P.ordered g' pend') (hc : Carried s.gpu g')
    (hlog : NoClash s.gpu.log → NoClash g'.log) : Inv cfg P { s with gpu := g' } pend' where
  gpu := hinv
  cpu := h.cpu
  noClash hd := hlog (h.noClash hd)
  own := hc.ownBlocks h.own
  content hclean := ⟨hc.holds (h.content hclean).1, (h.content hclean).2⟩

/-- A request's context changes outside its arrays, and its list stays. -/
theorem setCtx (h : Inv cfg P s pend) {r : ReqId} {f : GenCtx D → GenCtx D}
    (hk : (f (s.gpu.ctx r)).virtualK = (s.gpu.ctx r).virtualK)
    (hv : (f (s.gpu.ctx r)).virtualV = (s.gpu.ctx r).virtualV)
    (hlist : (f (s.gpu.ctx r)).nodeList = (s.gpu.ctx r).nodeList)
    (hown : ∀ p, (f (s.gpu.ctx r)).offered ≤ p → p < (f (s.gpu.ctx r)).computed →
      (s.gpu.ctx r).offered ≤ p ∧ p < (s.gpu.ctx r).computed ∧
        (f (s.gpu.ctx r)).source p = (s.gpu.ctx r).source p)
    (hctx : CtxInv cfg P.ordered s.gpu.union (f (s.gpu.ctx r)) (pend' r))
    (hpend : ∀ q, q ≠ r → ∀ other, pend q other → pend' q other) :
    Inv cfg P { s with gpu := s.gpu.updateCtx r f } pend' := by
  refine h.carry (h.gpu.setCtx hk hv hlist hctx hpend)
    ⟨fun hl => ⟨hl, rfl⟩, fun _ _ => rfl, ?_⟩ id
  intro q hq p hp hp'
  by_cases hqr : q = r
  · subst hqr
    rw [GpuSide.updateCtx_self] at hp hp' ⊢
    obtain ⟨hoff, hcomp, hsource⟩ := hown p hp hp'
    refine ⟨hq, hoff, hcomp, hsource, ?_⟩
    intro block hb
    unfold GenCtx.blockAt at hb ⊢
    rw [hk, hv]
    exact hb
  · rw [GpuSide.updateCtx_of_ne hqr] at hp hp' ⊢
    exact ⟨hq, hp, hp', rfl, fun _ hb => hb⟩

theorem weaken (h : Inv cfg P s pend) (hpend : ∀ q hash, pend q hash → pend' q hash) :
    Inv cfg P s pend' where
  gpu := h.gpu.weaken (fun q _ hash hp => Or.inr (hpend q hash hp))
  cpu := h.cpu
  noClash := h.noClash
  own := h.own
  content := h.content

theorem withSchedule (h : Inv cfg P s pend) (schedule : List (List Nat)) :
    Inv cfg P { s with schedule } pend :=
  ⟨h.gpu, h.cpu, h.noClash, h.own, h.content⟩

theorem withSeqLenThre (h : Inv cfg P s pend) (thre : Int) :
    Inv cfg P { s with seqLenThre := thre } pend :=
  ⟨h.gpu, h.cpu, h.noClash, h.own, h.content⟩

end Inv

namespace Inv

variable {P : Premise D} {s : State E D} {pend : ReqId → Hash → Prop} {r : ReqId} {hash : Hash}
  {n m : NodeId}

theorem setNodeReady (h : Inv cfg P s pend) (n : NodeId) :
    Inv cfg P { s with gpu := { s.gpu with union := s.gpu.union.setNodeReady n } } pend := by
  refine h.carry (h.gpu.setNodeReady n) (Carried.of_union ?_ (fun _ _ => rfl)) id
  intro other k hl
  exact ⟨hl, setNodeReady_spans n k⟩

theorem createNode (h : Inv cfg P s pend) (kCache vCache : List SpanId) (prefixLen ts : Nat)
    (hash : Hash) :
    Inv cfg P { s with gpu := { s.gpu with
      union := (s.gpu.union.createNode kCache vCache prefixLen ts hash).2 } } pend := by
  refine h.carry (h.gpu.createNode _ _ _ _ _) (Carried.of_union ?_ (fun _ _ => rfl)) id
  intro other k hl
  rw [createNode_nodes _ _ _ _ _ (h.gpu.wf.lt_next hl)]
  exact ⟨hl, rfl⟩

/-- A node with good content, made of a request's own spans, enters the
table. -/
theorem insertNode (h : Inv cfg P s pend) (hr : r ∈ s.gpu.live)
    (hnone : s.gpu.union.lookup hash = none)
    (hin : Insertable cfg.layerNum s.gpu.union (· ∈ (s.gpu.ctx r).spans) hash n)
    (hfresh : ∀ a ∈ (s.gpu.ctx r).arrays, ∀ span ∈ a.cache.drop (s.gpu.ctx r).offered,
      span ∉ (s.gpu.union.nodes n).spans)
    (hgood : CleanLog s.cpu.log → P.Good hash
      (contents s.gpu.mem s.gpu.union.spanManager (s.gpu.union.nodes n).spans)) :
    Inv cfg P { s with gpu := s.gpu.insertNode hash n }
      (fun q other => pend q other ∨ (q = r ∧ other = hash)) := by
  have hin' : Insertable cfg.layerNum s.gpu.union (· ∈ s.gpu.slots) hash n :=
    { hin with
      outside := fun span hs => GpuSide.mem_slots_iff.mpr ⟨r, hr, hin.outside span hs⟩ }
  have hroom := hin'.room h.gpu.wf cfg.layerNum_pos h.gpu.capacity
  have heq := insertNode_eq hnone hroom hin.refCnt
  have hframe : ∀ span, (s.gpu.union.insertNode hash n).spanManager.frameOf span =
      s.gpu.union.spanManager.frameOf span := by
    intro span
    rw [heq]
    exact SpanManager.setExtraRef_frameOf ..
  have hnodes : (s.gpu.union.insertNode hash n).nodes = s.gpu.union.nodes := by rw [heq]
  have hcontents : ∀ k, contents s.gpu.mem (s.gpu.union.insertNode hash n).spanManager
      ((s.gpu.union.insertNode hash n).nodes k).spans =
      contents s.gpu.mem s.gpu.union.spanManager (s.gpu.union.nodes k).spans := by
    intro k
    rw [hnodes]
    apply contents_congr
    intro span _
    rw [hframe]
  refine
    { gpu := h.gpu.insertNode hr hnone hin hfresh
      cpu := h.cpu
      noClash := ?_
      own := ?_
      content := ?_ }
  · intro hd
    change NoClash (if (s.gpu.union.lookup hash).isSome then _ else s.gpu.log)
    rw [hnone]
    exact h.noClash hd
  · intro q hq p hp hp'
    obtain ⟨block, hb, hc⟩ := h.own q hq p hp hp'
    refine ⟨block, hb, (contents_congr ?_).trans hc⟩
    intro span _
    change s.gpu.mem ((s.gpu.union.insertNode hash n).spanManager.frameOf span) = _
    rw [hframe]
  · intro hclean
    refine ⟨?_, (h.content hclean).2⟩
    intro other k hl
    change (s.gpu.union.insertNode hash n).lookup other = some k at hl
    change P.Good other (contents s.gpu.mem (s.gpu.union.insertNode hash n).spanManager
      ((s.gpu.union.insertNode hash n).nodes k).spans)
    rw [hcontents]
    rw [insertNode_lookup hnone hroom hin.refCnt] at hl
    split at hl
    · next hother =>
        cases hl
        rw [hother]
        exact hgood hclean
    · exact (h.content hclean).1 hl

/-- Two nodes meet under one hash; the table keeps the one it has. -/
theorem insertNode_clash (h : Inv cfg P s pend) (hl : s.gpu.union.lookup hash = some m)
    (href : (s.gpu.union.nodes m).refCnt = 0) (n : NodeId) (hdistinct : ¬ P.distinct) :
    Inv cfg P { s with gpu := s.gpu.insertNode hash n } pend := by
  obtain ⟨evictor, heq, _⟩ :=
    CacheUnion.insertNode_clash h.gpu.wf h.gpu.balanced.evictable hl href n
  have hk : Kept s.gpu.union (s.gpu.union.insertNode hash n) := by
    rw [heq]
    exact ⟨rfl, rfl, rfl, rfl, fun _ => rfl⟩
  have hc : Carried s.gpu (s.gpu.insertNode hash n) :=
    Carried.of_kept hk rfl rfl (fun _ _ => ⟨rfl, rfl, Nat.le_refl _, rfl, rfl⟩)
  exact
    { gpu := h.gpu.insertNode_clash hl href n
      cpu := h.cpu
      noClash := fun hd => absurd hd hdistinct
      own := hc.ownBlocks h.own
      content := fun hclean => ⟨hc.holds (h.content hclean).1, (h.content hclean).2⟩ }

end Inv

/-- What a fault leaves, unless the operation never returned or left a
container's bounds. -/
def Faulted (cfg : Config) (P : Premise D) (e : Fault) (t : State E D) : Prop :=
  e = .blocked ∨ e = .badIndex ∨ Inv cfg P t Settled

end DashInfer.Cache
