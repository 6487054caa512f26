import DashInfer.Cache.Release

/-!
A request's own blocks: the forward pass writes them and `Insert` offers them
to the table. A block at or behind the offered positions is made of spans that
nobody else refers to, which is why it may be written, and why the table has
room for it. So `Insert` never has to look for a victim.
-/

namespace DashInfer.Cache

open Lib CacheUnion PrefixCacheManager

variable {E : OrderedSet NodeId} {D : Type} {cfg : Config} {P : Premise D} {s : State E D}
  {r : ReqId}

section Columns

private theorem flatMap_take_drop (l : List CacheArray) (k : Nat) :
    (l.flatMap (fun a => a.cache.take k) ++ l.flatMap (fun a => a.cache.drop k)).Perm
      (l.flatMap CacheArray.cache) := by
  induction l with
  | nil => exact List.Perm.refl _
  | cons a rest ih =>
      rw [List.flatMap_cons, List.flatMap_cons, List.flatMap_cons]
      have hsplit : a.cache = a.cache.take k ++ a.cache.drop k := (List.take_append_drop k _).symm
      refine List.Perm.trans ?_ (ih.append_left a.cache)
      conv_rhs => rw [hsplit]
      rw [List.append_assoc, List.append_assoc]
      apply List.Perm.append_left
      rw [← List.append_assoc, ← List.append_assoc]
      exact List.perm_append_comm.append_right _

/-- A span that the arrays hold once is not at two positions. -/
private theorem once_apart {l : List CacheArray} {span : SpanId} {k : Nat}
    (hcount : (l.flatMap CacheArray.cache).count span ≤ 1) {a b : CacheArray} (ha : a ∈ l)
    (hb : b ∈ l) (hs : span ∈ a.cache.take k) : span ∉ b.cache.drop k := by
  intro hs'
  rw [← (flatMap_take_drop l k).count_eq, List.count_append] at hcount
  have hfirst : span ∈ l.flatMap (fun a => a.cache.take k) := List.mem_flatMap.mpr ⟨a, ha, hs⟩
  have hsecond : span ∈ l.flatMap (fun a => a.cache.drop k) := List.mem_flatMap.mpr ⟨b, hb, hs'⟩
  have hpos := List.count_pos_iff.mpr hfirst
  have hpos' := List.count_pos_iff.mpr hsecond
  omega

private theorem mapM_cons_some {a : CacheArray} {l : List CacheArray} {k : Nat}
    {spans : List SpanId} (h : (a :: l).mapM (fun a => a.cache[k]?) = some spans) :
    ∃ span rest, a.cache[k]? = some span ∧ l.mapM (fun a => a.cache[k]?) = some rest ∧
      spans = span :: rest := by
  rw [List.mapM_cons] at h
  cases hhead : a.cache[k]? with
  | none =>
      rw [hhead] at h
      cases h
  | some span =>
      cases htail : l.mapM (fun a => a.cache[k]?) with
      | none =>
          rw [hhead, htail] at h
          cases h
      | some rest =>
          rw [hhead, htail] at h
          cases h
          exact ⟨span, rest, rfl, rfl, rfl⟩

/-- A column takes one span of every array. -/
private theorem column_sublist {l : List CacheArray} {k : Nat} {spans : List SpanId}
    (h : l.mapM (fun a => a.cache[k]?) = some spans) :
    spans.Sublist (l.flatMap CacheArray.cache) ∧ spans.length = l.length := by
  induction l generalizing spans with
  | nil =>
      rw [List.mapM_nil] at h
      cases h
      exact ⟨List.Sublist.refl _, rfl⟩
  | cons a rest ih =>
      obtain ⟨span, rest', hspan, hrest, rfl⟩ := mapM_cons_some h
      obtain ⟨hsub, hlen⟩ := ih hrest
      rw [List.flatMap_cons]
      refine ⟨?_, by rw [List.length_cons, List.length_cons, hlen]⟩
      have hone : [span].Sublist a.cache :=
        List.singleton_sublist.mpr (List.mem_of_getElem? hspan)
      exact hone.append hsub

private theorem blockAt_columns {c : GenCtx D} {k : Nat} {block : List SpanId × List SpanId}
    (h : c.blockAt k = some block) :
    c.virtualK.mapM (fun a => a.cache[k]?) = some block.1 ∧
      c.virtualV.mapM (fun a => a.cache[k]?) = some block.2 := by
  unfold GenCtx.blockAt at h
  cases hk : c.virtualK.mapM (fun a => a.cache[k]?) with
  | none =>
      rw [hk] at h
      cases h
  | some kCache =>
      cases hv : c.virtualV.mapM (fun a => a.cache[k]?) with
      | none =>
          rw [hk, hv] at h
          cases h
      | some vCache =>
          rw [hk, hv] at h
          cases h
          exact ⟨rfl, rfl⟩

end Columns

/-- A block at or behind the offered positions of a live request. -/
structure OwnBlock (g : GpuSide E D) (r : ReqId) (p : Nat) (block : List SpanId × List SpanId) :
    Prop where
  kLength : block.1.length = (g.ctx r).virtualK.length
  vLength : block.2.length = (g.ctx r).virtualK.length
  mine : ∀ span ∈ blockSpans block, span ∈ (g.ctx r).spans
  outside : ∀ span ∈ blockSpans block, span ∉ g.union.tableSpans
  nodup : (blockSpans block).Nodup
  apart : ∀ p' block', p' ≠ p → (g.ctx r).blockAt p' = some block' →
    ∀ span ∈ blockSpans block, span ∉ blockSpans block'
  later : ∀ a ∈ (g.ctx r).arrays, ∀ span ∈ a.cache.drop (p + 1), span ∉ blockSpans block

private theorem blockSpans_perm {block : List SpanId × List SpanId}
    (h : block.2.length = block.1.length) : (blockSpans block).Perm (block.1 ++ block.2) :=
  PrefixNode.spans_perm
    { kCache := block.1, vCache := block.2, refCnt := 0, prefixLen := 0, lastAccessTime := 0
      hash := 0, isReady := false } h

theorem GpuInv.ownBlock {keyed : Prop} {g : GpuSide E D} {pend : ReqId → Hash → Prop}
    (h : GpuInv cfg keyed g pend) (hr : r ∈ g.live) {p : Nat}
    {block : List SpanId × List SpanId} (hoff : (g.ctx r).offered ≤ p)
    (hb : (g.ctx r).blockAt p = some block) : OwnBlock g r p block := by
  have hctx := h.ctx r hr
  obtain ⟨hk, hv⟩ := blockAt_columns hb
  obtain ⟨hsubK, hlenK⟩ := column_sublist hk
  obtain ⟨hsubV, hlenV⟩ := column_sublist hv
  have hlen : block.2.length = block.1.length := by
    rw [hlenK, hlenV]
    exact hctx.vShape
  have houtside : ∀ span ∈ blockSpans block, span ∉ g.union.tableSpans := by
    intro span hs
    obtain ⟨a, ha, hget⟩ := GenCtx.mem_of_blockAt hb hs
    refine hctx.fresh a ha span ?_
    refine List.mem_of_getElem? (i := p - (g.ctx r).offered) ?_
    rw [List.getElem?_drop, Nat.add_sub_cancel' hoff]
    exact hget
  have honce : ∀ span ∈ blockSpans block, (g.ctx r).spans.count span ≤ 1 := by
    intro span hs
    have hcount := h.once span (houtside span hs)
    have hperm : g.slots.Perm ((g.ctx r).spans ++
        (g.live.erase r).flatMap (fun q => (g.ctx q).spans)) := by
      unfold GpuSide.slots
      exact ((List.perm_cons_erase hr).flatMap_right _).trans (by rw [List.flatMap_cons])
    rw [hperm.count_eq, List.count_append] at hcount
    omega
  have hat : ∀ {k : Nat} {column : List SpanId × List SpanId} {span : SpanId},
      (g.ctx r).blockAt k = some column → span ∈ blockSpans column →
      ∃ a ∈ (g.ctx r).arrays, a.cache[k]? = some span := fun hb hs => GenCtx.mem_of_blockAt hb hs
  have htake : ∀ {a : CacheArray} {k n : Nat} {span : SpanId}, a.cache[k]? = some span → k < n →
      span ∈ a.cache.take n := by
    intro a k n span hget hlt
    refine List.mem_of_getElem? (i := k) ?_
    rw [List.getElem?_take, if_pos hlt]
    exact hget
  have hdrop : ∀ {a : CacheArray} {k n : Nat} {span : SpanId}, a.cache[k]? = some span → n ≤ k →
      span ∈ a.cache.drop n := by
    intro a k n span hget hle
    refine List.mem_of_getElem? (i := k - n) ?_
    rw [List.getElem?_drop, Nat.add_sub_cancel' hle]
    exact hget
  refine
    { kLength := hlenK
      vLength := hlen.trans hlenK
      mine := fun span hs => GenCtx.mem_spans_of_blockAt hb hs
      outside := houtside
      nodup := ?_
      apart := ?_
      later := ?_ }
  · have hperm := blockSpans_perm hlen
    have hsub : (block.1 ++ block.2).Sublist (g.ctx r).spans := by
      unfold GenCtx.spans GenCtx.arrays
      rw [List.flatMap_append]
      exact hsubK.append hsubV
    rw [hperm.nodup_iff, List.nodup_iff_count_le_one]
    intro span
    by_cases hin : span ∈ block.1 ++ block.2
    · exact (hsub.count_le span).trans (honce span (hperm.mem_iff.mpr hin))
    · rw [List.count_eq_zero_of_not_mem hin]
      exact Nat.zero_le 1
  · intro p' block' hne hb' span hs hs'
    obtain ⟨a, ha, hget⟩ := hat hb hs
    obtain ⟨b, hb'', hget'⟩ := hat hb' hs'
    rcases Nat.lt_or_gt_of_ne hne with hlt | hgt
    · exact once_apart (honce span hs) hb'' ha (htake hget' hlt) (hdrop hget (Nat.le_refl _))
    · exact once_apart (honce span hs) ha hb'' (htake hget hgt) (hdrop hget' (Nat.le_refl _))
  · intro b hb' span hs hin
    obtain ⟨a, ha, hget⟩ := hat hb hin
    exact once_apart (honce span hin) ha hb' (htake hget (Nat.lt_succ_self p)) hs

/-- What a request itself computes for a block. -/
def GenCtx.ownData (cfg : Config) (c : GenCtx D) (p : Nat) : List D :=
  (List.range (2 * cfg.layerNum)).map (c.source p)

section Compute

variable {p : Nat} {block : List SpanId × List SpanId}

/-- The state after the forward pass has written a block. -/
private def State.computed (s : State E D) (r : ReqId) (p : Nat)
    (block : List SpanId × List SpanId) : State E D :=
  { s with gpu := { s.gpu with
    mem := writeFrames s.gpu.mem (((blockSpans block).map s.gpu.union.spanManager.frameOf).zip
      ((List.range (blockSpans block).length).map ((s.gpu.ctx r).source p)))
    ctx := Function.update s.gpu.ctx r
      { s.gpu.ctx r with computed := max (s.gpu.ctx r).computed (p + 1) } } }

/-- A span that is held elsewhere keeps its content. -/
private theorem computed_other (h : Inv cfg P s Settled) (hr : r ∈ s.gpu.live)
    (hown : OwnBlock s.gpu r p block) {span : SpanId} (hheld : s.gpu.holds span)
    (hnot : span ∉ blockSpans block) :
    (s.computed r p block).gpu.mem (s.gpu.union.spanManager.frameOf span) =
      s.gpu.mem (s.gpu.union.spanManager.frameOf span) := by
  apply writeFrames_of_not_mem
  intro hmem
  obtain ⟨write, hwrite, hfst⟩ := List.mem_map.mp hmem
  obtain ⟨x, hx, hframe⟩ := List.mem_map.mp (List.of_mem_zip hwrite).1
  have hheld' : s.gpu.holds x :=
    Or.inr (GpuSide.mem_slots_iff.mpr ⟨r, hr, hown.mine x hx⟩)
  have heq : x = span := h.gpu.wf.owned.frame_inj hheld' hheld (hframe.trans hfst)
  exact hnot (heq ▸ hx)

private theorem computed_self (h : Inv cfg P s Settled) (hr : r ∈ s.gpu.live)
    (hown : OwnBlock s.gpu r p block) :
    contents (s.computed r p block).gpu.mem s.gpu.union.spanManager (blockSpans block) =
      (List.range (blockSpans block).length).map ((s.gpu.ctx r).source p) := by
  have hnodup : ((blockSpans block).map s.gpu.union.spanManager.frameOf).Nodup := by
    refine hown.nodup.map_on ?_
    intro a ha b hb heq
    exact h.gpu.wf.owned.frame_inj
      (Or.inr (GpuSide.mem_slots_iff.mpr ⟨r, hr, hown.mine a ha⟩))
      (Or.inr (GpuSide.mem_slots_iff.mpr ⟨r, hr, hown.mine b hb⟩)) heq
  have hmap := map_writeFrames s.gpu.mem
    ((List.range (blockSpans block).length).map ((s.gpu.ctx r).source p)) hnodup (by simp)
  rw [List.map_map] at hmap
  exact hmap

private theorem Inv.computed (h : Inv cfg P s Settled) (hr : r ∈ s.gpu.live)
    (hoff : (s.gpu.ctx r).offered ≤ p) (hnext : p ≤ (s.gpu.ctx r).computed)
    (hb : (s.gpu.ctx r).blockAt p = some block) : Inv cfg P (s.computed r p block) Settled := by
  have hown := h.gpu.ownBlock hr hoff hb
  have hself : (s.computed r p block).gpu.ctx r =
      { s.gpu.ctx r with computed := max (s.gpu.ctx r).computed (p + 1) } :=
    Function.update_self ..
  have hother : ∀ q, q ≠ r → (s.computed r p block).gpu.ctx q = s.gpu.ctx q :=
    fun q hq => Function.update_of_ne hq _ _
  have hsame : ∀ {α : Type} (field : GenCtx D → α) (q : ReqId),
      (∀ c n, field { c with computed := n } = field c) →
      field ((s.computed r p block).gpu.ctx q) = field (s.gpu.ctx q) := by
    intro α field q hfield
    by_cases hq : q = r
    · subst hq
      rw [hself, hfield]
    · rw [hother q hq]
  refine
    { gpu := ?_
      cpu := h.cpu
      noClash := h.noClash
      own := ?_
      content := ?_ }
  · refine GpuInv.congr h.gpu rfl rfl rfl ?_ ?_ ?_ ?_ ?_
    · exact fun q _ => hsame GenCtx.virtualK q (fun _ _ => rfl)
    · exact fun q _ => hsame GenCtx.virtualV q (fun _ _ => rfl)
    · exact fun q _ => hsame GenCtx.nodeList q (fun _ _ => rfl)
    · exact fun q _ => Nat.le_of_eq (hsame GenCtx.offered q (fun _ _ => rfl)).symm
    · exact fun q _ => ⟨hsame GenCtx.placed q (fun _ _ => rfl),
        hsame GenCtx.prefixLen q (fun _ _ => rfl), hsame GenCtx.tokens q (fun _ _ => rfl)⟩
  · intro q hq p' hp hp'
    have hblock := hsame (fun c => c.blockAt p') q (fun _ _ => rfl)
    have hsource := hsame GenCtx.source q (fun _ _ => rfl)
    have hoffered := hsame GenCtx.offered q (fun _ _ => rfl)
    rw [hsource, hblock]
    rw [hoffered] at hp
    by_cases hnew : q = r ∧ p' = p
    · obtain ⟨rfl, rfl⟩ := hnew
      exact ⟨block, hb, computed_self h hr hown⟩
    · have hold : p' < (s.gpu.ctx q).computed := by
        by_cases hqr : q = r
        · subst hqr
          rw [hself] at hp'
          dsimp only at hp'
          have hne : p' ≠ p := fun heq => hnew ⟨rfl, heq⟩
          omega
        · rw [hother q hqr] at hp'
          exact hp'
      obtain ⟨block', hb', hdata⟩ := h.own q hq p' hp hold
      refine ⟨block', hb', (contents_congr ?_).trans hdata⟩
      intro span hs
      have hmem := GenCtx.mem_spans_of_blockAt hb' hs
      have hheld : s.gpu.holds span := Or.inr (GpuSide.mem_slots_iff.mpr ⟨q, hq, hmem⟩)
      refine computed_other h hr hown hheld ?_
      intro hin
      have hqr := h.gpu.eq_of_mem_spans hr hq (hown.outside span hin) (hown.mine span hin) hmem
      subst hqr
      exact hown.apart p' block' (fun heq => hnew ⟨rfl, heq⟩) hb' span hin hs
  · intro hclean
    obtain ⟨hholds, hcpu⟩ := h.content hclean
    refine ⟨?_, hcpu⟩
    intro hash n hl
    have hdata : contents (s.computed r p block).gpu.mem s.gpu.union.spanManager
        (s.gpu.union.nodes n).spans =
        contents s.gpu.mem s.gpu.union.spanManager (s.gpu.union.nodes n).spans := by
      apply contents_congr
      intro span hs
      have htable : span ∈ s.gpu.union.tableSpans := mem_tableSpans_iff.mpr ⟨hash, n, hl, hs⟩
      exact computed_other h hr hown (Or.inl htable) (fun hin => hown.outside span hin htable)
    change P.Good hash (contents _ s.gpu.union.spanManager (s.gpu.union.nodes n).spans)
    rw [hdata]
    exact hholds hl

theorem post_computeBlock (h : Inv cfg P s Settled) (hr : r ∈ s.gpu.live)
    (hoff : (s.gpu.ctx r).offered ≤ p) (hnext : p ≤ (s.gpu.ctx r).computed) :
    Post (computeBlock r p) s (fun _ t => Inv cfg P t Settled) (Faulted cfg P) := by
  unfold computeBlock
  rw [post_modifyGpu]
  cases hb : (s.gpu.ctx r).blockAt p with
  | none => exact h
  | some block =>
      have hinv := h.computed hr hoff hnext hb
      unfold State.computed at hinv
      dsimp only
      rw [List.length_map]
      exact hinv

end Compute

section Offer

variable {p : Nat} {block : List SpanId × List SpanId} {prefixLen ts : Nat} {hash : Hash}

/-- The state after a node was made of a request's own block. -/
private def State.offer (s : State E D) (r : ReqId) (p : Nat)
    (block : List SpanId × List SpanId) (prefixLen ts : Nat) (hash : Hash) : State E D :=
  { s with gpu := GpuSide.updateCtx { s.gpu with
      union := (s.gpu.union.createNode block.1 block.2 prefixLen ts hash).2.setNodeReady
        s.gpu.union.nextNode } r (fun c => { c with offered := p + 1 }) }

private theorem offer_ctx : (s.offer r p block prefixLen ts hash).gpu.ctx r =
    { s.gpu.ctx r with offered := p + 1 } := Function.update_self ..

private theorem offer_self (s : State E D) (r : ReqId) (p : Nat)
    (block : List SpanId × List SpanId) (prefixLen ts : Nat) (hash : Hash) :
    (s.offer r p block prefixLen ts hash).gpu.union.nodes s.gpu.union.nextNode =
      { kCache := block.1, vCache := block.2, refCnt := 0, prefixLen, lastAccessTime := ts, hash
        isReady := true } := by
  change ((s.gpu.union.createNode block.1 block.2 prefixLen ts hash).2.setNodeReady
    s.gpu.union.nextNode).nodes _ = _
  rw [setNodeReady_nodes, if_pos rfl]
  simp [createNode]

private theorem Inv.offer (h : Inv cfg P s Settled) (hr : r ∈ s.gpu.live)
    (hoff : (s.gpu.ctx r).offered ≤ p) :
    Inv cfg P (s.offer r p block prefixLen ts hash) Settled := by
  have hmade := (h.createNode block.1 block.2 prefixLen ts hash).setNodeReady s.gpu.union.nextNode
  refine hmade.setCtx rfl rfl rfl ?_ ?_ (fun _ _ _ hp => hp)
  · intro k hk hk'
    exact ⟨hoff.trans ((Nat.le_succ p).trans hk), hk', rfl⟩
  · exact (hmade.gpu.ctx r hr).relist rfl rfl (Nat.le_succ_of_le hoff) (fun _ hor => hor)
      (Or.inr ⟨rfl, rfl, rfl, fun _ hm => hm⟩)

private theorem offer_tableSpans (h : Inv cfg P s Settled) :
    (s.offer r p block prefixLen ts hash).gpu.union.tableSpans = s.gpu.union.tableSpans := by
  change ((s.gpu.union.createNode _ _ _ _ _).2.setNodeReady _).tableSpans = _
  rw [setNodeReady_tableSpans]
  exact createNode_tableSpans _ _ _ _ _ h.gpu.wf

/-- The new node can enter the table. -/
private theorem offer_insertable (prefixLen ts : Nat) (hash : Hash) (h : Inv cfg P s Settled)
    (hr : r ∈ s.gpu.live) (hk : (s.gpu.ctx r).virtualK ≠ []) (hown : OwnBlock s.gpu r p block) :
    Insertable cfg.layerNum (s.offer r p block prefixLen ts hash).gpu.union
      (· ∈ ((s.offer r p block prefixLen ts hash).gpu.ctx r).spans) hash
      s.gpu.union.nextNode := by
  have hself := offer_self s r p block prefixLen ts hash
  have hlayers : (s.gpu.ctx r).virtualK.length = cfg.layerNum := by
    refine (h.gpu.ctx r hr).kShape.resolve_right ?_
    intro hzero
    exact hk (List.length_eq_zero_iff.mp hzero)
  have hspans : ((s.offer r p block prefixLen ts hash).gpu.union.nodes
      s.gpu.union.nextNode).spans = blockSpans block := by
    rw [hself]
    rfl
  refine
    { hash_eq := by rw [hself]
      lt_next := Nat.lt_succ_self _
      refCnt := by rw [hself]
      kLength := by rw [hself]; exact hown.kLength.trans hlayers
      vLength := by rw [hself]; exact hown.vLength.trans hlayers
      nodup := by rw [hspans]; exact hown.nodup
      outside := ?_
      fresh := ?_ }
  · intro span hs
    rw [hspans] at hs
    rw [offer_ctx]
    exact hown.mine span hs
  · intro span hs
    rw [hspans] at hs
    rw [offer_tableSpans h]
    exact hown.outside span hs

/-- The new node enters the table and is listed. -/
private theorem Inv.enterOwn (h : Inv cfg P s Settled) (prefixLen ts : Nat)
    (hr : r ∈ s.gpu.live) (hk : (s.gpu.ctx r).virtualK ≠ []) (hoff : (s.gpu.ctx r).offered ≤ p)
    (hb : (s.gpu.ctx r).blockAt p = some block) (hnone : s.gpu.union.lookup hash = none)
    (hgood : ∀ data, (p < (s.gpu.ctx r).computed → data = (s.gpu.ctx r).ownData cfg p) →
      P.Good hash data) :
    (s.offer r p block prefixLen ts hash).gpu.union.size <
        (s.offer r p block prefixLen ts hash).gpu.union.capacity ∧
      Inv cfg P { s.offer r p block prefixLen ts hash with
        gpu := (((s.offer r p block prefixLen ts hash).gpu.insertNode hash
          s.gpu.union.nextNode).refNode hash ts).pushNode r s.gpu.union.nextNode } Settled := by
  have hown := h.gpu.ownBlock hr hoff hb
  have hoffer : Inv cfg P (s.offer r p block prefixLen ts hash) Settled := h.offer hr hoff
  have hin := offer_insertable prefixLen ts hash h hr hk hown
  have hself := offer_self s r p block prefixLen ts hash
  have hspans : ((s.offer r p block prefixLen ts hash).gpu.union.nodes
      s.gpu.union.nextNode).spans = blockSpans block := by
    rw [hself]
    rfl
  have hin' : Insertable cfg.layerNum (s.offer r p block prefixLen ts hash).gpu.union
      (· ∈ (s.offer r p block prefixLen ts hash).gpu.slots) hash s.gpu.union.nextNode :=
    { hin with outside := fun span hs => GpuSide.mem_slots_iff.mpr ⟨r, hr, hin.outside span hs⟩ }
  have hroom := hin'.room hoffer.gpu.wf cfg.layerNum_pos hoffer.gpu.capacity
  have hlater : ∀ a ∈ ((s.offer r p block prefixLen ts hash).gpu.ctx r).arrays,
      ∀ span ∈ a.cache.drop ((s.offer r p block prefixLen ts hash).gpu.ctx r).offered,
      span ∉ ((s.offer r p block prefixLen ts hash).gpu.union.nodes
        s.gpu.union.nextNode).spans := by
    rw [offer_ctx, hspans]
    exact hown.later
  have hlen : (blockSpans block).length = 2 * cfg.layerNum := by
    have hl := hin.spans_length
    rw [hspans] at hl
    exact hl
  have hdata : CleanLog s.cpu.log → P.Good hash (contents s.gpu.mem s.gpu.union.spanManager
      (blockSpans block)) := by
    intro _
    apply hgood
    intro hcomputed
    obtain ⟨block', hb', hdata⟩ := h.own r hr p hoff hcomputed
    rw [hb] at hb'
    cases hb'
    rw [hdata, hlen]
    rfl
  have henter := hoffer.insertNode hr hnone hin hlater (by rw [hspans]; exact hdata)
  refine ⟨hroom, ?_⟩
  have hfound : ((s.offer r p block prefixLen ts hash).gpu.insertNode hash
      s.gpu.union.nextNode).union.lookup hash = some s.gpu.union.nextNode := by
    change ((s.offer r p block prefixLen ts hash).gpu.union.insertNode hash _).lookup hash = _
    have hnone' : (s.offer r p block prefixLen ts hash).gpu.union.lookup hash = none := hnone
    rw [insertNode_lookup hnone' hroom hin.refCnt, if_pos rfl]
  apply henter.refPush ts hr hfound (henter.gpu.wf.lt_next hfound)
    (henter.gpu.wf.hash_eq hfound) (fun _ => rfl)
  rintro q other (hp | hp)
  · exact hp.elim
  · exact Or.inr hp

/-- One block of `Insert`: it is offered, and listed by whichever node the
table has for it. -/
private theorem post_insertBlock (tokens : List Token) (v : InsertLocals) (i : Nat)
    (h : Inv cfg P s Settled) (hr : r ∈ s.gpu.live) (hk : (s.gpu.ctx r).virtualK ≠ [])
    (hoff : (s.gpu.ctx r).offered ≤ p)
    (hgood : ∀ data, (p < (s.gpu.ctx r).computed → data = (s.gpu.ctx r).ownData cfg p) →
      P.Good (cfg.hashTokens (tokens.take (i + 1))) data) :
    Post (insertBlock cfg r tokens ts v (i, p)) s
      (fun v' t => v' = v ∧ Inv cfg P t Settled ∧ t.gpu.live = s.gpu.live ∧
        ∃ nodeList, t.gpu.ctx r = { s.gpu.ctx r with nodeList, offered := p + 1 })
      (Faulted cfg P) := by
  unfold insertBlock
  rw [post_bind, post_get]
  dsimp only
  cases hb : (s.gpu.ctx r).blockAt p with
  | none => exact Or.inr (Or.inl rfl)
  | some block =>
      obtain ⟨kCache, vCache⟩ := block
      have hown := h.gpu.ownBlock hr hoff hb
      have hlen : kCache.length = vCache.length := hown.kLength.trans hown.vLength.symm
      have hoffer : Inv cfg P (s.offer r p (kCache, vCache) (i + 1) ts
        (cfg.hashTokens (tokens.take (i + 1)))) Settled := h.offer hr hoff
      simp only [createGpuNode, setGpuNodeReady, hlen, ne_eq, not_true, if_false, post_bind,
        post_get, post_modifyGpu, post_pure]
      cases hl : s.gpu.union.lookup (cfg.hashTokens (tokens.take (i + 1))) with
      | some cached =>
          simp only [post_bind, post_modifyGpu, post_pure]
          refine ⟨trivial, ?_, rfl, (s.gpu.ctx r).nodeList ++ [cached], ?_⟩
          · exact hoffer.refPush ts hr hl (hoffer.gpu.wf.lt_next hl) (hoffer.gpu.wf.hash_eq hl)
              (fun _ => rfl) (fun _ _ hp => hp.elim)
          · simp [GpuSide.pushNode, GpuSide.refNode, GpuSide.updateCtx]
      | none =>
          obtain ⟨hroom, henter⟩ := h.enterOwn (i + 1) ts hr hk hoff hb hl hgood
          simp only [insertUncached, post_bind, post_get, post_modifyGpu]
          rw [if_pos]
          · simp only [post_bind, post_modifyGpu, post_pure]
            refine ⟨trivial, ?_, rfl, (s.gpu.ctx r).nodeList ++ [s.gpu.union.nextNode], ?_⟩
            · exact henter
            · simp [GpuSide.pushNode, GpuSide.refNode, GpuSide.insertNode, GpuSide.updateCtx,
                createNode]
          · exact hroom

/-- What `Insert` may put in the table: for each of its blocks, the content the
request computed, or any content where it computed none. -/
def GoodBlocks (cfg : Config) (Good : Hash → List D → Prop) (c : GenCtx D) (tokens : List Token)
    (list : List (Nat × Nat)) : Prop :=
  ∀ block ∈ list, ∀ data, (block.2 < c.computed → data = c.ownData cfg block.2) →
    Good (cfg.hashTokens (tokens.take (block.1 + 1))) data

/-- The loop of `Insert`, by induction over the blocks still to come, whose
positions follow each other. -/
theorem post_insertBlocks (tokens : List Token) (v : InsertLocals)
    (list : List (Nat × Nat)) (hidx : list.map Prod.snd = List.range' p list.length)
    (h : Inv cfg P s Settled) (hr : r ∈ s.gpu.live) (hk : (s.gpu.ctx r).virtualK ≠ [])
    (hoff : list ≠ [] → (s.gpu.ctx r).offered ≤ p)
    (hgood : GoodBlocks cfg P.Good (s.gpu.ctx r) tokens list) :
    Post (foldEach (insertBlock cfg r tokens ts) v list) s
      (fun v' t => v' = v ∧ Inv cfg P t Settled) (Faulted cfg P) := by
  induction list generalizing s p with
  | nil => exact ⟨rfl, h⟩
  | cons block rest ih =>
      obtain ⟨i, q⟩ := block
      rw [List.map_cons, List.length_cons, List.range'_succ] at hidx
      obtain ⟨rfl, hrest⟩ := List.cons.inj hidx
      rw [foldEach, post_bind]
      apply (post_insertBlock tokens v i h hr hk (hoff (by simp))
        (hgood _ (List.mem_cons_self ..))).imp _ (fun _ _ he => he)
      rintro v' t ⟨rfl, ht, hlive, nodeList, hctx⟩
      apply ih hrest ht
      · rw [hlive]
        exact hr
      · rw [hctx]
        exact hk
      · intro _
        rw [hctx]
      · intro other hmem
        rw [hctx]
        exact hgood other (List.mem_cons_of_mem _ hmem)

/-- `Insert`. -/
theorem post_insert (tokens : List Token) (startIdx now : Nat) (h : Inv cfg P s Settled)
    (hr : r ∈ s.gpu.live) (hk : (s.gpu.ctx r).virtualK ≠ [])
    (hoff : blocks cfg startIdx tokens.length ≠ [] →
      (s.gpu.ctx r).offered ≤ startIdx / cfg.tokenPerSpan)
    (hgood : GoodBlocks cfg P.Good (s.gpu.ctx r) tokens (blocks cfg startIdx tokens.length)) :
    Post (insert cfg r tokens startIdx ts now) s (fun _ t => Inv cfg P t Settled)
      (Faulted cfg P) := by
  have hidx : (blocks cfg startIdx tokens.length).map Prod.snd =
      List.range' (startIdx / cfg.tokenPerSpan) (blocks cfg startIdx tokens.length).length := by
    rw [blocks_eq, List.map_map, List.length_map, List.length_range, List.range'_eq_map_range]
    rfl
  unfold PrefixCacheManager.insert
  rw [post_bind]
  apply (post_insertBlocks tokens _ _ hidx h hr hk hoff hgood).imp _ (fun _ _ he => he)
  rintro v t ⟨rfl, ht⟩
  exact ht

end Offer

end DashInfer.Cache
