import DashInfer.Cache.GpuInvariant

/-!
What the elementary changes of the GPU side keep of its invariant: taking a
reference and listing the node, moving a timestamp, creating, inserting and
deleting nodes, growing and filling a request's layers, opening and closing a
request.
-/

namespace DashInfer.Cache

open Lib CacheUnion

variable {E : OrderedSet NodeId} {D : Type} {cfg : Config} {keyed : Prop} {g : GpuSide E D}
  {pend pend' : ReqId → Hash → Prop} {r : ReqId} {hash : Hash} {n m : NodeId} {ts : Nat}

namespace GpuInv

theorem weaken (h : GpuInv cfg keyed g pend) (hpend : ∀ q ∈ g.live, ∀ hash, pend q hash →
    (∃ m ∈ (g.ctx q).nodeList, (g.union.nodes m).hash = hash) ∨ pend' q hash) :
    GpuInv cfg keyed g pend' where
  wf := h.wf
  covered := h.covered
  capacity := h.capacity
  balanced := h.balanced
  live_nodup := h.live_nodup
  once := h.once
  ctx q hq := (h.ctx q hq).relist rfl rfl (Nat.le_refl _)
    (fun hash hor => hor.elim Or.inl (hpend q hq hash)) (Or.inr ⟨rfl, rfl, rfl, fun _ hm => hm⟩)

/-- Only fields the invariant does not look at change. -/
theorem congr (h : GpuInv cfg keyed g pend) {g' : GpuSide E D} (hunion : g'.union = g.union)
    (hlive : g'.live = g.live) (hlog : g'.log = g.log)
    (hk : ∀ q ∈ g.live, (g'.ctx q).virtualK = (g.ctx q).virtualK)
    (hv : ∀ q ∈ g.live, (g'.ctx q).virtualV = (g.ctx q).virtualV)
    (hlist : ∀ q ∈ g.live, (g'.ctx q).nodeList = (g.ctx q).nodeList)
    (hoff : ∀ q ∈ g.live, (g.ctx q).offered ≤ (g'.ctx q).offered)
    (hplaced : ∀ q ∈ g.live, (g'.ctx q).placed = (g.ctx q).placed ∧
      (g'.ctx q).prefixLen = (g.ctx q).prefixLen ∧ (g'.ctx q).tokens = (g.ctx q).tokens) :
    GpuInv cfg keyed g' pend := by
  have hslots : g'.slots = g.slots := by
    refine GpuSide.slots_congr hlive ?_
    intro q hq
    unfold GenCtx.spans GenCtx.arrays
    rw [hk q hq, hv q hq]
  have hentries : g'.entries = g.entries := GpuSide.entries_congr hlive hlist
  refine
    { wf := by rw [hunion, hslots]; exact h.wf
      covered := by rw [hunion, hslots]; exact h.covered
      capacity := by rw [hunion]; exact h.capacity
      balanced := by rw [hunion, hentries, hlog]; exact h.balanced
      live_nodup := by rw [hlive]; exact h.live_nodup
      once := by rw [hunion, hslots]; exact h.once
      ctx := ?_ }
  intro q hq
  rw [hlive] at hq
  rw [hunion]
  obtain ⟨hsame, hlen, htokens⟩ := hplaced q hq
  refine (h.ctx q hq).relist (hk q hq) (hv q hq) (hoff q hq) ?_ (Or.inr ⟨hsame, hlen, htokens, ?_⟩)
  · intro hash hor
    rw [hlist q hq]
    exact hor
  · intro m hm
    rw [hlist q hq]
    exact hm

/-- One request's context is set anew over the arrays it has, beside changes of
counts and timestamps. -/
theorem relist (h : GpuInv cfg keyed g pend) {u' : CacheUnion E} (hkept : Kept g.union u')
    {f : GenCtx D → GenCtx D} (hk : (f (g.ctx r)).virtualK = (g.ctx r).virtualK)
    (hv : (f (g.ctx r)).virtualV = (g.ctx r).virtualV)
    (hbal : Balanced u' (g.updateCtx r f).entries g.log)
    (hctx : CtxInv cfg keyed u' (f (g.ctx r)) (pend' r))
    (hpend : ∀ q, q ≠ r → ∀ other, pend q other → pend' q other) :
    GpuInv cfg keyed (GpuSide.updateCtx { g with union := u' } r f) pend' := by
  have hslots : (GpuSide.updateCtx { g with union := u' } r f).slots = g.slots := by
    refine GpuSide.slots_congr rfl ?_
    intro q _
    by_cases hqr : q = r
    · subst hqr
      rw [GpuSide.updateCtx_self]
      unfold GenCtx.spans GenCtx.arrays
      rw [hk, hv]
    · rw [GpuSide.updateCtx_of_ne hqr]
  refine
    { wf := ?_
      covered := ?_
      capacity := ?_
      balanced := hbal
      live_nodup := h.live_nodup
      once := ?_
      ctx := ?_ }
  · rw [hslots]
    exact hkept.wf h.wf
  · rw [hslots]
    change Covered u'.spanManager u'.tableSpans _
    rw [hkept.spanManager, hkept.tableSpans]
    exact h.covered
  · change u'.capacity = u'.spanManager.frameManager.totalFrameCount / _
    rw [hkept.capacity, hkept.spanManager]
    exact h.capacity
  · rw [hslots]
    change ∀ span, span ∉ u'.tableSpans → _
    rw [hkept.tableSpans]
    exact h.once
  · intro q hq
    by_cases hqr : q = r
    · subst hqr
      rw [GpuSide.updateCtx_self]
      exact hctx
    · rw [GpuSide.updateCtx_of_ne hqr]
      refine ((h.ctx q hq).kept hkept).relist rfl rfl (Nat.le_refl _) ?_
        (Or.inr ⟨rfl, rfl, rfl, fun _ hm => hm⟩)
      intro other hor
      exact hor.imp id (hpend q hqr other)

/-- One request's context is set anew, with the arrays and the list it has. -/
theorem setCtx (h : GpuInv cfg keyed g pend) {f : GenCtx D → GenCtx D}
    (hk : (f (g.ctx r)).virtualK = (g.ctx r).virtualK)
    (hv : (f (g.ctx r)).virtualV = (g.ctx r).virtualV)
    (hlist : (f (g.ctx r)).nodeList = (g.ctx r).nodeList)
    (hctx : CtxInv cfg keyed g.union (f (g.ctx r)) (pend' r))
    (hpend : ∀ q, q ≠ r → ∀ other, pend q other → pend' q other) :
    GpuInv cfg keyed (g.updateCtx r f) pend' := by
  have hentries : (g.updateCtx r f).entries = g.entries := by
    refine GpuSide.entries_congr rfl ?_
    intro q _
    by_cases hqr : q = r
    · subst hqr
      rw [GpuSide.updateCtx_self]
      exact hlist
    · rw [GpuSide.updateCtx_of_ne hqr]
  refine h.relist (Kept.refl _) hk hv ?_ hctx hpend
  rw [hentries]
  exact h.balanced

/-- A reference is taken and the node is listed by request `r`; the request
may so settle the hash. -/
theorem refPush (h : GpuInv cfg keyed g pend) (hr : r ∈ g.live)
    (hl : g.union.lookup hash = some m) (hn : n < g.union.nextNode)
    (hhash : (g.union.nodes n).hash = hash) (hsame : NoClash g.log → n = m)
    (hpend : ∀ q other, pend q other → pend' q other ∨ (q = r ∧ other = hash)) :
    GpuInv cfg keyed ((g.refNode hash ts).pushNode r n) pend' := by
  have hk := kept_refNode (u := g.union) ts h.wf hash
  have hentries : (n :: g.entries).Perm
      (g.updateCtx r (fun c => { c with nodeList := c.nodeList ++ [n] })).entries := by
    obtain ⟨rest, hold, hnew⟩ := GpuSide.entries_updateCtx h.live_nodup hr
      (fun c => { c with nodeList := c.nodeList ++ [n] })
    refine (List.Perm.cons n hold).trans (List.Perm.trans ?_ hnew.symm)
    rw [List.append_assoc]
    exact List.perm_middle.symm
  have hbal := (h.balanced.refNode_cons ts h.wf hl hn hhash hsame).perm hentries
  refine h.relist hk (f := fun c => { c with nodeList := c.nodeList ++ [n] }) rfl rfl hbal ?_ ?_
  · refine ((h.ctx r hr).kept hk).relist rfl rfl (Nat.le_refl _) ?_
      (Or.inr ⟨rfl, rfl, rfl, fun _ hm => List.mem_append_left _ hm⟩)
    rintro other (⟨k, hmem, hother⟩ | hp)
    · exact Or.inl ⟨k, List.mem_append_left _ hmem, hother⟩
    · rcases hpend r other hp with hp' | ⟨_, rfl⟩
      · exact Or.inr hp'
      · exact Or.inl ⟨n, List.mem_append_right _ (List.mem_singleton.mpr rfl),
          (hk.hash n).trans hhash⟩
  · intro q hqr other hp
    exact (hpend q other hp).resolve_right (fun hand => hqr hand.1)

/-- The first listed node of a request that is about to end is taken off its
list. -/
theorem unrefPop (h : GpuInv cfg keyed g pend) (ts : Nat) (hr : r ∈ g.live) {rest : List NodeId}
    (hlist : (g.ctx r).nodeList = n :: rest)
    (hl : g.union.lookup (g.union.nodes n).hash = some m)
    (hplaced : (g.ctx r).placed = [] ∧ (g.ctx r).prefixLen = 0) (hpend : ∀ other, pend r other) :
    GpuInv cfg keyed (GpuSide.updateCtx
      { g with union := if n = m then g.union.unrefNode (g.union.nodes n).hash
        else g.union.updateNodeTs (g.union.nodes n).hash ts } r
      (fun c => { c with nodeList := rest })) pend := by
  have hk : Kept g.union (if n = m then g.union.unrefNode (g.union.nodes n).hash
      else g.union.updateNodeTs (g.union.nodes n).hash ts) := by
    split
    · exact kept_unrefNode _
    · exact kept_updateNodeTs ts _
  obtain ⟨others, hold, hnew⟩ := GpuSide.entries_updateCtx h.live_nodup hr
    (fun c => { c with nodeList := rest })
  rw [hlist] at hold
  refine h.relist hk (f := fun c => { c with nodeList := rest }) rfl rfl
    (((h.balanced.perm hold).unref_cons h.wf hl).perm hnew.symm) ?_ (fun _ _ _ hp => hp)
  exact ((h.ctx r hr).kept hk).relist rfl rfl (Nat.le_refl _) (fun other _ => Or.inr (hpend other))
    (Or.inl hplaced)

/-- The heap and the readiness of nodes change, table entries do not. -/
theorem heap (h : GpuInv cfg keyed g pend) {u' : CacheUnion E} (hwf : Wf cfg.layerNum u' (· ∈ g.slots))
    (hspan : u'.spanManager = g.union.spanManager) (hcap : u'.capacity = g.union.capacity)
    (htable : u'.hashTable = g.union.hashTable) (hspans : u'.tableSpans = g.union.tableSpans)
    (hnodes : ∀ n < g.union.nextNode, (u'.nodes n).hash = (g.union.nodes n).hash ∧
      (u'.nodes n).kCache = (g.union.nodes n).kCache ∧
      (u'.nodes n).vCache = (g.union.nodes n).vCache)
    (hbal : Balanced u' g.entries g.log) : GpuInv cfg keyed { g with union := u' } pend where
  wf := hwf
  covered := by
    rw [hspan, hspans]
    exact h.covered
  capacity := by
    unfold countFrame
    rw [hcap, hspan]
    exact h.capacity
  balanced := hbal
  live_nodup := h.live_nodup
  once := by
    rw [hspans]
    exact h.once
  ctx q hq := by
    refine (h.ctx q hq).congr ?_ ?_
    · intro other k hl
      have hl' : g.union.lookup other = some k := by
        unfold lookup at hl ⊢
        rw [← htable]
        exact hl
      obtain ⟨_, hkc, hvc⟩ := hnodes k (h.wf.lt_next hl')
      unfold PrefixNode.spans
      rw [hkc, hvc]
      exact ⟨hl', rfl⟩
    · intro k hk
      exact hnodes k (h.balanced.entry_lt k (GpuSide.mem_entries_iff.mpr ⟨q, hq, hk⟩))

theorem createNode (h : GpuInv cfg keyed g pend) (kCache vCache : List SpanId) (prefixLen ts : Nat)
    (hash : Hash) :
    GpuInv cfg keyed { g with union := (g.union.createNode kCache vCache prefixLen ts hash).2 }
      pend := by
  refine h.heap (wf_createNode _ _ _ _ _ h.wf) rfl rfl rfl
    (createNode_tableSpans _ _ _ _ _ h.wf) ?_ (h.balanced.createNode h.wf _ _ _ _ _)
  intro k hk
  rw [createNode_nodes _ _ _ _ _ hk]
  exact ⟨rfl, rfl, rfl⟩

theorem setNodeReady (h : GpuInv cfg keyed g pend) (n : NodeId) :
    GpuInv cfg keyed { g with union := g.union.setNodeReady n } pend :=
  h.heap (wf_setNodeReady h.wf n) rfl rfl rfl (setNodeReady_tableSpans n)
    (fun k _ => ⟨setNodeReady_hash n k, setNodeReady_kCache n k, setNodeReady_vCache n k⟩)
    (h.balanced.setNodeReady h.wf n)

/-- A span outside the table that request `r` refers to is in no other
request. -/
theorem eq_of_mem_spans (h : GpuInv cfg keyed g pend) (hr : r ∈ g.live) {q : ReqId} (hq : q ∈ g.live)
    {span : SpanId} (hout : span ∉ g.union.tableSpans) (hs : span ∈ (g.ctx r).spans)
    (hs' : span ∈ (g.ctx q).spans) : q = r := by
  by_contra hne
  have hperm : g.slots.Perm ((g.ctx r).spans ++
      (g.live.erase r).flatMap (fun q => (g.ctx q).spans)) := by
    unfold GpuSide.slots
    exact ((List.perm_cons_erase hr).flatMap_right _).trans (by rw [List.flatMap_cons])
  have hrest : span ∈ (g.live.erase r).flatMap (fun q => (g.ctx q).spans) :=
    List.mem_flatMap.mpr ⟨q, (List.mem_erase_of_ne hne).mpr hq, hs'⟩
  have hcount := h.once span hout
  rw [hperm.count_eq, List.count_append] at hcount
  have hfirst := List.count_pos_iff.mpr hs
  have hsecond := List.count_pos_iff.mpr hrest
  omega

/-- A node made of a request's own spans enters the table. The request does
not list it yet. -/
theorem insertNode (h : GpuInv cfg keyed g pend) (hr : r ∈ g.live) (hnone : g.union.lookup hash = none)
    (hin : Insertable cfg.layerNum g.union (· ∈ (g.ctx r).spans) hash n)
    (hfresh : ∀ a ∈ (g.ctx r).arrays, ∀ span ∈ a.cache.drop (g.ctx r).offered,
      span ∉ (g.union.nodes n).spans) :
    GpuInv cfg keyed (g.insertNode hash n) (fun q other => pend q other ∨ (q = r ∧ other = hash)) := by
  have hin' : Insertable cfg.layerNum g.union (· ∈ g.slots) hash n :=
    { hin with
      outside := fun span hs => GpuSide.mem_slots_iff.mpr ⟨r, hr, hin.outside span hs⟩ }
  have hroom := hin'.room h.wf cfg.layerNum_pos h.capacity
  have heq := insertNode_eq hnone hroom hin.refCnt
  have hlook := insertNode_lookup hnone hroom hin.refCnt
  have hnodes : (g.union.insertNode hash n).nodes = g.union.nodes := by rw [heq]
  have htable : (g.union.insertNode hash n).tableSpans =
      (g.union.nodes n).spans ++ g.union.tableSpans := by
    refine insert_tableSpans hnone ?_ hnodes
    rw [heq]
  have hlog : (g.insertNode hash n).log = g.log := by
    unfold GpuSide.insertNode
    rw [hnone]
    rfl
  refine
    { wf := wf_insertNode h.wf hnone hroom hin'
      covered := ?_
      capacity := ?_
      balanced := ?_
      live_nodup := h.live_nodup
      once := ?_
      ctx := ?_ }
  · change Covered (g.union.insertNode hash n).spanManager
      (g.union.insertNode hash n).tableSpans (· ∈ g.slots)
    rw [htable, heq]
    refine (h.covered.setExtraRef true _).mono ?_
    intro span hs
    exact hs.imp (List.mem_append_right _) id
  · change (g.union.insertNode hash n).capacity = (g.union.insertNode hash n).countFrame / _
    rw [heq]
    exact h.capacity
  · rw [hlog]
    exact h.balanced.insertNode hnone hroom hin'
  · intro span hout
    refine h.once span ?_
    intro hmem
    refine hout ?_
    change span ∈ (g.union.insertNode hash n).tableSpans
    rw [htable]
    exact List.mem_append_right _ hmem
  · intro q hq
    have hc := h.ctx q hq
    refine ⟨?_, ?_, hc.kShape, hc.vShape, ?_, ?_, hc.prefixLen⟩
    · intro span hs other k hl hmem
      change (g.union.insertNode hash n).lookup other = some k at hl
      change span ∈ ((g.union.insertNode hash n).nodes k).spans at hmem
      change (∃ m ∈ (g.ctx q).nodeList, ((g.union.insertNode hash n).nodes m).hash = other) ∨ _
      rw [hlook] at hl
      rw [hnodes] at hmem ⊢
      split at hl
      · next hother =>
          cases hl
          have hqr := h.eq_of_mem_spans hr hq (hin.fresh span hmem) (hin.outside span hmem) hs
          exact Or.inr (Or.inr ⟨hqr, hother⟩)
      · exact (hc.shared span hs hl hmem).imp id Or.inl
    · intro a ha span hs hmem
      change span ∈ (g.union.insertNode hash n).tableSpans at hmem
      rw [htable] at hmem
      rcases List.mem_append.mp hmem with hmem | hmem
      · have hspans : span ∈ (g.ctx q).spans :=
          List.mem_flatMap.mpr ⟨a, ha, List.mem_of_mem_drop hs⟩
        have hqr := h.eq_of_mem_spans hr hq (hin.fresh span hmem) (hin.outside span hmem) hspans
        subst hqr
        exact hfresh a ha span hs hmem
      · exact hc.fresh a ha span hs hmem
    · change ∀ (k : Nat) m, (g.ctx q).placed[k]? = some m → m ∈ (g.ctx q).nodeList ∧
        (g.ctx q).blockAt k = some (((g.union.insertNode hash n).nodes m).kCache,
          ((g.union.insertNode hash n).nodes m).vCache)
      rw [hnodes]
      exact hc.placed
    · change keyed → ∀ (k : Nat) m, (g.ctx q).placed[k]? = some m →
        ((g.union.insertNode hash n).nodes m).hash = _
      rw [hnodes]
      exact hc.keys

/-- A node is to enter the table under a hash that is taken: nothing but the
log changes. -/
theorem insertNode_clash (h : GpuInv cfg keyed g pend) (hl : g.union.lookup hash = some m)
    (href : (g.union.nodes m).refCnt = 0) (n : NodeId) :
    GpuInv cfg keyed (g.insertNode hash n) pend := by
  obtain ⟨evictor, heq, _⟩ := CacheUnion.insertNode_clash h.wf h.balanced.evictable hl href n
  have hk : Kept g.union (g.union.insertNode hash n) := by
    rw [heq]
    exact ⟨rfl, rfl, rfl, rfl, fun _ => rfl⟩
  have hlog : (g.insertNode hash n).log = .clash hash :: g.log := by
    unfold GpuSide.insertNode
    rw [hl]
    rfl
  refine
    { wf := hk.wf h.wf
      covered := ?_
      capacity := ?_
      balanced := ?_
      live_nodup := h.live_nodup
      once := ?_
      ctx := fun q hq => (h.ctx q hq).kept hk }
  · change Covered (g.union.insertNode hash n).spanManager
      (g.union.insertNode hash n).tableSpans (· ∈ g.slots)
    rw [hk.spanManager, hk.tableSpans]
    exact h.covered
  · change (g.union.insertNode hash n).capacity = (g.union.insertNode hash n).countFrame / _
    unfold countFrame
    rw [hk.capacity, hk.spanManager]
    exact h.capacity
  · rw [hlog]
    exact h.balanced.insertNode_clash h.wf hl href n
  · change ∀ span, span ∉ (g.union.insertNode hash n).tableSpans → _
    rw [hk.tableSpans]
    exact h.once

/-- An unreferenced node's spans are in no request's arrays. -/
theorem not_mem_slots (h : GpuInv cfg keyed g Settled) (hl : g.union.lookup hash = some n)
    (href : (g.union.nodes n).refCnt = 0) {span : SpanId}
    (hs : span ∈ (g.union.nodes n).spans) : span ∉ g.slots := by
  intro hslot
  obtain ⟨q, hq, hspan⟩ := GpuSide.mem_slots_iff.mp hslot
  rcases (h.ctx q hq).shared span hspan hl hs with ⟨m, hm, hhash⟩ | hp
  · have hpos := h.balanced.pos_of_mem hl (GpuSide.mem_entries_iff.mpr ⟨q, hq, hm⟩) hhash
    omega
  · exact hp

theorem deleteNode (h : GpuInv cfg keyed g Settled) (hl : g.union.lookup hash = some n)
    (href : (g.union.nodes n).refCnt = 0) :
    ∃ g', g.deleteNode hash = some g' ∧ GpuInv cfg keyed g' Settled ∧
      Deleted g.union g'.union hash n ∧ g'.live = g.live ∧ g'.ctx = g.ctx ∧ g'.mem = g.mem ∧
      g'.log = .removed n (g.union.nodes n).refCnt (g.entries.count n) :: g.log := by
  obtain ⟨u', hdel⟩ : ∃ u', g.union.deleteNode hash = some u' := ⟨_, deleteNode_eq hl⟩
  obtain ⟨k, hd⟩ := deleted_of_deleteNode hdel
  obtain rfl : n = k := Option.some.inj (hl.symm.trans hd.lookup_eq)
  refine ⟨{ g with
    union := u'
    log := .removed n (g.union.nodes n).refCnt (g.entries.count n) :: g.log }, ?_, ?_, hd,
    rfl, rfl, rfl, rfl⟩
  · unfold GpuSide.deleteNode
    rw [hl, hdel]
  · refine
      { wf := hd.wf h.wf (fun span hs => h.not_mem_slots hl href hs)
        covered := hd.covered h.covered
        capacity := ?_
        balanced := h.balanced.deleted h.wf hd href
        live_nodup := h.live_nodup
        once := ?_
        ctx := ?_ }
    · change u'.capacity = u'.countFrame / _
      unfold countFrame
      rw [hd.capacity, hd.spanManager, SpanManager.releaseSpans_total,
        SpanManager.setExtraRef_frameManager]
      exact h.capacity
    · intro span hout
      change g.slots.count span ≤ 1
      by_cases hmem : span ∈ (g.union.nodes n).spans
      · rw [List.count_eq_zero.mpr (h.not_mem_slots hl href hmem)]
        exact Nat.zero_le 1
      · refine h.once span ?_
        intro htab
        rcases List.mem_append.mp (hd.tableSpans.mem_iff.mp htab) with hin | hin
        · exact hmem hin
        · exact hout hin
    · intro q hq
      refine (h.ctx q hq).congr ?_ ?_
      · intro other k hlk
        exact ⟨(hd.lookup_some hlk).2, by rw [hd.nodes]⟩
      · intro k _
        rw [hd.nodes]
        exact ⟨rfl, rfl, rfl⟩

end GpuInv

end DashInfer.Cache
