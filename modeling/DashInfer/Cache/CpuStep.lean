import DashInfer.Cache.CpuInvariant

/-!
What the elementary changes of the CPU side keep of its invariant: moving a
timestamp, removing a node, claiming spans, creating and inserting the nodes
of a batch.
-/

namespace DashInfer.Cache

open Lib CacheUnion PrefixCacheManager

variable {E : OrderedSet NodeId} {D : Type} {cfg : Config} {c : CpuSide E D}
  {batch : List NodeId} {extra : List SpanId} {hash : Hash} {n : NodeId}

theorem batchSpans_congr {u u' : CacheUnion E} {batch : List NodeId}
    (h : ∀ n ∈ batch, (u'.nodes n).spans = (u.nodes n).spans) :
    batchSpans u' batch = batchSpans u batch :=
  List.flatMap_congr h

namespace BatchNode

variable {layerNum : Nat} {u u' : CacheUnion E}

theorem kept (h : BatchNode layerNum u n) (hk : Kept u u')
    (href : (u'.nodes n).refCnt = (u.nodes n).refCnt) : BatchNode layerNum u' n where
  lt_next := by
    rw [hk.nextNode]
    exact h.lt_next
  refCnt := by
    rw [href]
    exact h.refCnt
  kLength := by
    rw [hk.kCache]
    exact h.kLength
  vLength := by
    rw [hk.vCache]
    exact h.vLength
  absent := by
    rw [hk.hash, hk.lookup]
    exact h.absent

end BatchNode

namespace CpuInv

/-- The union changed at most timestamps. -/
theorem kept (h : CpuInv cfg c batch extra) {u' : CacheUnion E} {log' : List CpuEvent}
    (hk : Kept c.union u') (href : ∀ n, (u'.nodes n).refCnt = (c.union.nodes n).refCnt)
    (hev : NoTouch log' → Evictable u') (hloss : NoLoss log' → NoLoss c.log) :
    CpuInv cfg { c with union := u', log := log' } batch extra := by
  have hspans : batchSpans u' batch = batchSpans c.union batch :=
    batchSpans_congr (fun n _ => hk.spans n)
  refine
    { wf := ?_
      capacity := ?_
      refCnt := ?_
      batchNode := fun n hn => (h.batchNode n hn).kept hk (href n)
      out_nodup := ?_
      out_fresh := ?_
      hash_nodup := ?_
      evictable := hev
      blocks := ⟨h.blocks.nodup, h.blocks.task, h.blocks.held⟩
      copies := ?_
      notReady := fun hno n hn => (hk.isReady n).trans (h.notReady (hloss hno) n hn) }
  · change Wf _ u' (· ∈ batchSpans u' batch ++ extra)
    rw [hspans]
    exact hk.wf h.wf
  · change u'.capacity = u'.countFrame / _
    unfold countFrame
    rw [hk.capacity, hk.spanManager]
    exact h.capacity
  · intro hash n hl
    change (u'.nodes n).refCnt = 0
    rw [href]
    exact h.refCnt (hk.lookup hash ▸ hl)
  · change (batchSpans u' batch ++ extra).Nodup
    rw [hspans]
    exact h.out_nodup
  · change ∀ span ∈ batchSpans u' batch ++ extra, span ∉ u'.tableSpans
    rw [hspans, hk.tableSpans]
    exact h.out_fresh
  · change (batch.map (fun n => (u'.nodes n).hash)).Nodup
    rw [List.map_congr_left (fun n _ => hk.hash n)]
    exact h.hash_nodup
  · intro hno
    refine (h.copies (hloss hno)).congr rfl ?_ ?_ ?_ ?_
    · intro hash n hl
      exact Or.inl (hk.lookup hash ▸ hl)
    · intro hash n hl
      refine ⟨hk.spans n, hk.isReady n, hk.hash n, rfl, ?_⟩
      intro span _
      change u'.spanManager.frameOf span = _ ∧ _
      rw [hk.spanManager]
      exact ⟨rfl, rfl⟩
    · intro task ht
      change u'.lookup _ = _
      rw [hk.lookup]
      exact ((h.copies (hloss hno)).tasked task ht).1
    · intro task _
      rfl

/-- A timestamp moves; if the node is in the evictor the log says so. -/
theorem updateNodeTs (h : CpuInv cfg c batch extra) (hash : Hash) (ts : Nat) :
    CpuInv cfg (c.updateNodeTs hash ts) batch extra := by
  have hsub : ∀ e, e ∈ c.log → e ∈ (c.updateNodeTs hash ts).log := by
    intro e he
    unfold CpuSide.updateNodeTs
    dsimp only
    split
    · exact he
    · split
      · exact List.mem_cons_of_mem _ he
      · exact he
  have hloss : NoLoss (c.updateNodeTs hash ts).log → NoLoss c.log :=
    fun hno n hmem => hno n (hsub _ hmem)
  refine h.kept (kept_updateNodeTs ts hash) (updateNodeTs_refCnt ts hash) ?_ hloss
  intro hno
  refine evictable_updateNodeTs ts (h.evictable (fun n hmem => hno n (hsub _ hmem))) hash ?_
  intro n hl
  by_contra hcon
  rw [not_or, not_not, Nat.not_le] at hcon
  refine hno n ?_
  rw [hl]
  dsimp only
  rw [if_pos hcon]
  exact List.mem_cons_self ..

/-- A node is removed; its frames are free again. -/
theorem deleteNode (h : CpuInv cfg c batch extra) {c' : CpuSide E D}
    (hd : c.deleteNode hash = some c') :
    CpuInv cfg c' batch extra ∧ ∃ n, Deleted c.union c'.union hash n ∧
      c'.log = .removed n (c.union.nodes n).isReady :: c.log ∧ c'.mem = c.mem ∧
      c'.origin = c.origin := by
  unfold CpuSide.deleteNode at hd
  cases hl : c.union.lookup hash with
  | none =>
      rw [hl] at hd
      cases hd
  | some n =>
      cases hdel : c.union.deleteNode hash with
      | none =>
          rw [hl, hdel] at hd
          cases hd
      | some u' =>
          rw [hl, hdel] at hd
          cases hd
          obtain ⟨k, hd⟩ := deleted_of_deleteNode hdel
          obtain rfl : n = k := Option.some.inj (hl.symm.trans hd.lookup_eq)
          refine ⟨?_, n, hd, rfl, rfl, rfl⟩
          have hspans : batchSpans u' batch = batchSpans c.union batch :=
            batchSpans_congr (fun n _ => by rw [hd.nodes])
          have hout : ∀ span ∈ (c.union.nodes n).spans,
              span ∉ batchSpans c.union batch ++ extra := by
            intro span hs hmem
            exact h.out_fresh span hmem (mem_tableSpans_iff.mpr ⟨hash, n, hl, hs⟩)
          refine
            { wf := ?_
              capacity := ?_
              refCnt := ?_
              batchNode := ?_
              out_nodup := ?_
              out_fresh := ?_
              hash_nodup := ?_
              evictable := ?_
              blocks := ⟨h.blocks.nodup, h.blocks.task, h.blocks.held⟩
              copies := ?_
              notReady := ?_ }
          · change Wf _ u' (· ∈ batchSpans u' batch ++ extra)
            rw [hspans]
            exact hd.wf h.wf hout
          · change u'.capacity = u'.countFrame / _
            unfold countFrame
            rw [hd.capacity, hd.spanManager, SpanManager.releaseSpans_total,
              SpanManager.setExtraRef_frameManager]
            exact h.capacity
          · intro other k hlk
            change (u'.nodes k).refCnt = 0
            rw [hd.nodes]
            exact h.refCnt (hd.lookup_some hlk).2
          · intro k hk
            have hb := h.batchNode k hk
            refine ⟨?_, ?_, ?_, ?_, ?_⟩
            · change k < u'.nextNode
              rw [hd.nextNode]
              exact hb.lt_next
            · change (u'.nodes k).refCnt = 0
              rw [hd.nodes]
              exact hb.refCnt
            · change (u'.nodes k).kCache.length = _
              rw [hd.nodes]
              exact hb.kLength
            · change (u'.nodes k).vCache.length = _
              rw [hd.nodes]
              exact hb.vLength
            · change u'.lookup (u'.nodes k).hash = none
              rw [hd.nodes]
              by_cases hkh : (c.union.nodes k).hash = hash
              · rw [hkh]
                exact hd.lookup_self
              · rw [hd.lookup_of_ne hkh]
                exact hb.absent
          · change (batchSpans u' batch ++ extra).Nodup
            rw [hspans]
            exact h.out_nodup
          · change ∀ span ∈ batchSpans u' batch ++ extra, span ∉ u'.tableSpans
            rw [hspans]
            intro span hs hmem
            exact h.out_fresh span hs
              (hd.tableSpans.mem_iff.mpr (List.mem_append_right _ hmem))
          · change (batch.map (fun n => (u'.nodes n).hash)).Nodup
            rw [hd.nodes]
            exact h.hash_nodup
          · intro hno
            exact hd.evictable h.wf
              (h.evictable (fun k hmem => hno k (List.mem_cons_of_mem _ hmem)))
          · intro hno
            have hcopies := h.copies (fun k hmem => hno k (List.mem_cons_of_mem _ hmem))
            have hready : (c.union.nodes n).isReady = true := by
              by_contra hnot
              refine hno n ?_
              rw [Bool.not_eq_true] at hnot
              rw [hnot]
              exact List.mem_cons_self ..
            refine hcopies.congr rfl ?_ ?_ ?_ (fun _ _ => rfl)
            · intro other k hlk
              exact Or.inl (hd.lookup_some hlk).2
            · intro other k hlk
              change (u'.nodes k).spans = _ ∧ (u'.nodes k).isReady = _ ∧ (u'.nodes k).hash = _ ∧ _
              rw [hd.nodes]
              refine ⟨rfl, rfl, rfl, rfl, ?_⟩
              intro span _
              change u'.spanManager.frameOf span = _ ∧ _
              rw [hd.spanManager, SpanManager.releaseSpans_unset_frameOf]
              exact ⟨rfl, rfl⟩
            · intro task ht
              obtain ⟨hlt, hrt⟩ := hcopies.tasked task ht
              change u'.lookup _ = _
              rw [hd.lookup_of_ne, hlt]
              intro hhash
              rw [hhash, hl] at hlt
              obtain rfl : n = task.node := Option.some.inj hlt
              rw [hready] at hrt
              cases hrt
          · intro hno k hk
            change (u'.nodes k).isReady = false
            rw [hd.nodes]
            exact h.notReady (fun j hmem => hno j (List.mem_cons_of_mem _ hmem)) k hk

/-- Spans claimed and not used are given up. -/
theorem forget (h : CpuInv cfg c batch extra) : CpuInv cfg c batch [] := by
  have hsub : ∀ span ∈ batchSpans c.union batch ++ [],
      span ∈ batchSpans c.union batch ++ extra := by
    intro span hs
    rw [List.append_nil] at hs
    exact List.mem_append_left _ hs
  refine
    { wf :=
        { hash_eq := h.wf.hash_eq
          lt_next := h.wf.lt_next
          kLength := h.wf.kLength
          vLength := h.wf.vLength
          owned := h.wf.owned.mono (List.Perm.refl _) hsub
          size_le := h.wf.size_le }
      capacity := h.capacity
      refCnt := h.refCnt
      batchNode := h.batchNode
      out_nodup := ?_
      out_fresh := fun span hs => h.out_fresh span (hsub span hs)
      hash_nodup := h.hash_nodup
      evictable := h.evictable
      blocks := h.blocks
      copies := h.copies
      notReady := h.notReady }
  rw [List.append_nil]
  exact h.out_nodup.of_append_left

/-- The nodes of a batch that will not be inserted are given up. -/
theorem abandon (h : CpuInv cfg c batch extra) : CpuInv cfg c [] [] := by
  refine
    { wf :=
        { hash_eq := h.wf.hash_eq
          lt_next := h.wf.lt_next
          kLength := h.wf.kLength
          vLength := h.wf.vLength
          owned := h.wf.owned.mono (List.Perm.refl _) (fun span hs => absurd hs List.not_mem_nil)
          size_le := h.wf.size_le }
      capacity := h.capacity
      refCnt := h.refCnt
      batchNode := fun n hn => absurd hn List.not_mem_nil
      out_nodup := List.nodup_nil
      out_fresh := fun span hs => absurd hs List.not_mem_nil
      hash_nodup := List.nodup_nil
      evictable := h.evictable
      blocks := h.blocks
      copies := h.copies
      notReady := fun _ n hn => absurd hn List.not_mem_nil }

/-- Spans are claimed for a node to be created. -/
theorem claim (h : CpuInv cfg c batch extra) {m' : SpanManager} {new : List SpanId} {count : Nat}
    (hclaim : Claimed c.union.spanManager m' new count) :
    CpuInv cfg { c with union := { c.union with spanManager := m' } } batch (extra ++ new) := by
  have hfresh : ∀ span ∈ new, ¬ Held c.union.tableSpans
      (· ∈ batchSpans c.union batch ++ extra) span := by
    intro span hs hheld
    exact Nat.not_lt.mpr (hclaim.mem_iff.mp hs).1 (h.wf.owned.held_lt span hheld)
  refine
    { wf :=
        { hash_eq := h.wf.hash_eq
          lt_next := h.wf.lt_next
          kLength := h.wf.kLength
          vLength := h.wf.vLength
          owned := (hclaim.owned h.wf.owned).mono (List.Perm.refl _) ?_
          size_le := h.wf.size_le }
      capacity := ?_
      refCnt := h.refCnt
      batchNode := fun n hn => ⟨(h.batchNode n hn).lt_next, (h.batchNode n hn).refCnt,
        (h.batchNode n hn).kLength, (h.batchNode n hn).vLength, (h.batchNode n hn).absent⟩
      out_nodup := ?_
      out_fresh := ?_
      hash_nodup := h.hash_nodup
      evictable := fun hno => ⟨(h.evictable hno).ascending, (h.evictable hno).mem_iff⟩
      blocks := ⟨h.blocks.nodup, h.blocks.task, h.blocks.held⟩
      copies := ?_
      notReady := h.notReady }
  · intro span hs
    change span ∈ batchSpans c.union batch ++ (extra ++ new) at hs
    rw [← List.append_assoc] at hs
    exact List.mem_append.mp hs
  · change c.union.capacity = m'.frameManager.totalFrameCount / _
    rw [hclaim.total_eq]
    exact h.capacity
  · change (batchSpans c.union batch ++ (extra ++ new)).Nodup
    rw [← List.append_assoc]
    refine List.nodup_append.mpr ⟨h.out_nodup, hclaim.nodup, ?_⟩
    rintro a ha b hb rfl
    exact hfresh a hb (Or.inr ha)
  · intro span hs
    change span ∈ batchSpans c.union batch ++ (extra ++ new) at hs
    change span ∉ c.union.tableSpans
    rw [← List.append_assoc] at hs
    rcases List.mem_append.mp hs with hs | hs
    · exact h.out_fresh span hs
    · exact fun hmem => hfresh span hs (Or.inl hmem)
  · intro hno
    refine (h.copies hno).congr rfl (fun hl => Or.inl hl) ?_
      (fun task ht => ((h.copies hno).tasked task ht).1) (fun _ _ => rfl)
    intro hash n hl
    refine ⟨rfl, rfl, rfl, rfl, ?_⟩
    intro span hs
    have hheld : Held c.union.tableSpans (· ∈ batchSpans c.union batch ++ extra) span :=
      Or.inl (mem_tableSpans_iff.mpr ⟨hash, n, hl, hs⟩)
    exact ⟨hclaim.frameOf_old (h.wf.owned.held_lt span hheld), rfl⟩

/-- The claimed spans become a node of the batch. -/
theorem createNode {kCache vCache : List SpanId} (h : CpuInv cfg c batch (kCache ++ vCache))
    (hkl : kCache.length = cfg.layerNum) (hvl : vCache.length = cfg.layerNum)
    (habsent : c.union.lookup hash = none)
    (hhash : hash ∉ batch.map (fun n => (c.union.nodes n).hash)) (prefixLen ts : Nat) :
    CpuInv cfg { c with union := (c.union.createNode kCache vCache prefixLen ts hash).2 }
      (batch ++ [c.union.nextNode]) [] := by
  have hold : ∀ k < c.union.nextNode,
      (c.union.createNode kCache vCache prefixLen ts hash).2.nodes k = c.union.nodes k :=
    fun k hk => createNode_nodes _ _ _ _ _ hk
  have hself : (c.union.createNode kCache vCache prefixLen ts hash).2.nodes c.union.nextNode =
      { kCache, vCache, refCnt := 0, prefixLen, lastAccessTime := ts, hash, isReady := false } :=
    Function.update_self _ _ _
  have htable := createNode_tableSpans kCache vCache prefixLen ts hash h.wf
  have hlookup : ∀ other, (c.union.createNode kCache vCache prefixLen ts hash).2.lookup other =
      c.union.lookup other := fun _ => rfl
  have hmap : batch.map (fun n =>
      ((c.union.createNode kCache vCache prefixLen ts hash).2.nodes n).hash) =
      batch.map (fun n => (c.union.nodes n).hash) := by
    refine List.map_congr_left ?_
    intro k hk
    rw [hold k (h.batchNode k hk).lt_next]
  have hperm : (batchSpans (c.union.createNode kCache vCache prefixLen ts hash).2
      (batch ++ [c.union.nextNode]) ++ []).Perm
      (batchSpans c.union batch ++ (kCache ++ vCache)) := by
    unfold batchSpans
    rw [List.append_nil, List.flatMap_append, List.flatMap_singleton]
    have hb : batch.flatMap (fun n =>
        ((c.union.createNode kCache vCache prefixLen ts hash).2.nodes n).spans) =
        batch.flatMap (fun n => (c.union.nodes n).spans) := by
      refine List.flatMap_congr ?_
      intro k hk
      rw [hold k (h.batchNode k hk).lt_next]
    rw [hb, hself]
    exact (PrefixNode.spans_perm _ (hvl.trans hkl.symm)).append_left _
  refine
    { wf :=
        { hash_eq := (wf_createNode kCache vCache prefixLen ts hash h.wf).hash_eq
          lt_next := (wf_createNode kCache vCache prefixLen ts hash h.wf).lt_next
          kLength := (wf_createNode kCache vCache prefixLen ts hash h.wf).kLength
          vLength := (wf_createNode kCache vCache prefixLen ts hash h.wf).vLength
          owned := (wf_createNode kCache vCache prefixLen ts hash h.wf).owned.mono
            (List.Perm.refl _) (fun span hs => hperm.mem_iff.mp hs)
          size_le := h.wf.size_le }
      capacity := h.capacity
      refCnt := ?_
      batchNode := ?_
      out_nodup := hperm.nodup_iff.mpr h.out_nodup
      out_fresh := ?_
      hash_nodup := ?_
      evictable := fun hno => evictable_createNode _ _ _ _ _ h.wf (h.evictable hno)
      blocks := ⟨h.blocks.nodup, h.blocks.task, h.blocks.held⟩
      copies := ?_
      notReady := ?_ }
  · intro other k hl
    change ((c.union.createNode kCache vCache prefixLen ts hash).2.nodes k).refCnt = 0
    rw [hold k (h.wf.lt_next hl)]
    exact h.refCnt hl
  · intro k hk
    rcases List.mem_append.mp hk with hk | hk
    · have hb := h.batchNode k hk
      have heq := hold k hb.lt_next
      refine ⟨Nat.lt_succ_of_lt hb.lt_next, ?_, ?_, ?_, ?_⟩
      · rw [heq]
        exact hb.refCnt
      · rw [heq]
        exact hb.kLength
      · rw [heq]
        exact hb.vLength
      · rw [heq]
        exact hb.absent
    · obtain rfl := List.mem_singleton.mp hk
      refine ⟨Nat.lt_succ_self _, ?_, ?_, ?_, ?_⟩
      · rw [hself]
      · rw [hself]
        exact hkl
      · rw [hself]
        exact hvl
      · rw [hself]
        exact habsent
  · intro span hs
    change span ∉ (c.union.createNode kCache vCache prefixLen ts hash).2.tableSpans
    rw [htable]
    exact h.out_fresh span (hperm.mem_iff.mp hs)
  · change ((batch ++ [c.union.nextNode]).map (fun n =>
      ((c.union.createNode kCache vCache prefixLen ts hash).2.nodes n).hash)).Nodup
    rw [List.map_append, hmap, List.map_singleton, hself]
    refine List.nodup_append.mpr ⟨h.hash_nodup, List.nodup_singleton _, ?_⟩
    rintro a ha b hb rfl
    obtain rfl := List.mem_singleton.mp hb
    exact hhash ha
  · intro hno
    refine (h.copies hno).congr rfl (fun hl => Or.inl hl) ?_ ?_ (fun _ _ => rfl)
    · intro other k hl
      have heq := hold k (h.wf.lt_next hl)
      refine ⟨?_, ?_, ?_, rfl, fun _ _ => ⟨rfl, rfl⟩⟩ <;> rw [heq]
    · intro task ht
      exact ((h.copies hno).tasked task ht).1
  · intro hno k hk
    rcases List.mem_append.mp hk with hk | hk
    · change ((c.union.createNode kCache vCache prefixLen ts hash).2.nodes k).isReady = false
      rw [hold k (h.batchNode k hk).lt_next]
      exact h.notReady hno k hk
    · obtain rfl := List.mem_singleton.mp hk
      change ((c.union.createNode kCache vCache prefixLen ts hash).2.nodes _).isReady = false
      rw [hself]

/-- The first node of the batch enters the table. -/
theorem insertNode (h : CpuInv cfg c (n :: batch) []) :
    CpuInv cfg { c with union := c.union.insertNode (c.union.nodes n).hash n } batch [] ∧
      (c.union.insertNode (c.union.nodes n).hash n).nodes = c.union.nodes ∧
      (∀ other, (c.union.insertNode (c.union.nodes n).hash n).lookup other =
        if other = (c.union.nodes n).hash then some n else c.union.lookup other) ∧
      (c.union.insertNode (c.union.nodes n).hash n).spanManager.frameOf =
        c.union.spanManager.frameOf := by
  have hb := h.batchNode n (List.mem_cons_self ..)
  have hsplit : batchSpans c.union (n :: batch) ++ [] =
      (c.union.nodes n).spans ++ batchSpans c.union batch := by
    rw [List.append_nil]
    exact List.flatMap_cons
  have hnodup := h.out_nodup
  rw [hsplit] at hnodup
  have hout : ∀ span ∈ (c.union.nodes n).spans, span ∈ batchSpans c.union (n :: batch) ++ [] := by
    intro span hs
    rw [hsplit]
    exact List.mem_append_left _ hs
  have hin : Insertable cfg.layerNum c.union (· ∈ batchSpans c.union (n :: batch) ++ [])
      (c.union.nodes n).hash n :=
    { hash_eq := rfl
      lt_next := hb.lt_next
      refCnt := hb.refCnt
      kLength := hb.kLength
      vLength := hb.vLength
      nodup := hnodup.of_append_left
      outside := hout
      fresh := fun span hs => h.out_fresh span (hout span hs) }
  have hroom := hin.room h.wf cfg.layerNum_pos h.capacity
  have heq := insertNode_eq hb.absent hroom hb.refCnt
  have hlook := insertNode_lookup hb.absent hroom hb.refCnt
  have hnodes : (c.union.insertNode (c.union.nodes n).hash n).nodes = c.union.nodes := by
    rw [heq]
  have hframe : (c.union.insertNode (c.union.nodes n).hash n).spanManager.frameOf =
      c.union.spanManager.frameOf := by
    rw [heq]
    exact funext (SpanManager.setExtraRef_frameOf _ _ _)
  have htable : (c.union.insertNode (c.union.nodes n).hash n).tableSpans =
      (c.union.nodes n).spans ++ c.union.tableSpans := by
    refine insert_tableSpans hb.absent ?_ hnodes
    rw [heq]
  have hspans : batchSpans (c.union.insertNode (c.union.nodes n).hash n) batch =
      batchSpans c.union batch := batchSpans_congr (fun k _ => by rw [hnodes])
  have hwf := wf_insertNode h.wf hb.absent hroom hin
  have hhash := h.hash_nodup
  rw [List.map_cons, List.nodup_cons] at hhash
  refine ⟨?_, hnodes, hlook, hframe⟩
  refine
    { wf :=
        { hash_eq := hwf.hash_eq
          lt_next := hwf.lt_next
          kLength := hwf.kLength
          vLength := hwf.vLength
          owned := hwf.owned.mono (List.Perm.refl _) ?_
          size_le := hwf.size_le }
      capacity := ?_
      refCnt := ?_
      batchNode := ?_
      out_nodup := ?_
      out_fresh := ?_
      hash_nodup := ?_
      evictable := fun hno => evictable_insertNode (h.evictable hno) hb.absent hroom hin
      blocks := ⟨h.blocks.nodup, h.blocks.task, h.blocks.held⟩
      copies := ?_
      notReady := ?_ }
  · intro span hs
    change span ∈ batchSpans (c.union.insertNode (c.union.nodes n).hash n) batch ++ [] at hs
    rw [hspans, List.append_nil] at hs
    rw [hsplit]
    exact List.mem_append_right _ hs
  · change (c.union.insertNode (c.union.nodes n).hash n).capacity =
      (c.union.insertNode (c.union.nodes n).hash n).countFrame / _
    rw [heq]
    exact h.capacity
  · intro other k hl
    change (c.union.insertNode (c.union.nodes n).hash n).lookup other = some k at hl
    change ((c.union.insertNode (c.union.nodes n).hash n).nodes k).refCnt = 0
    rw [hlook] at hl
    rw [hnodes]
    split at hl
    · cases hl
      exact hb.refCnt
    · exact h.refCnt hl
  · intro k hk
    have hbk := h.batchNode k (List.mem_cons_of_mem _ hk)
    have hne : (c.union.nodes k).hash ≠ (c.union.nodes n).hash := by
      intro hsame
      exact hhash.1 (hsame ▸ List.mem_map_of_mem hk)
    refine ⟨?_, ?_, ?_, ?_, ?_⟩
    · rw [heq]
      exact hbk.lt_next
    · rw [hnodes]
      exact hbk.refCnt
    · rw [hnodes]
      exact hbk.kLength
    · rw [hnodes]
      exact hbk.vLength
    · rw [hnodes, hlook, if_neg hne]
      exact hbk.absent
  · change (batchSpans (c.union.insertNode (c.union.nodes n).hash n) batch ++ []).Nodup
    rw [hspans, List.append_nil]
    exact hnodup.of_append_right
  · intro span hs
    change span ∈ batchSpans (c.union.insertNode (c.union.nodes n).hash n) batch ++ [] at hs
    change span ∉ (c.union.insertNode (c.union.nodes n).hash n).tableSpans
    rw [hspans, List.append_nil] at hs
    rw [htable]
    intro hmem
    rcases List.mem_append.mp hmem with hmem | hmem
    · exact (List.nodup_append.mp hnodup).2.2 span hmem span hs rfl
    · refine h.out_fresh span ?_ hmem
      rw [hsplit]
      exact List.mem_append_right _ hs
  · change (batch.map (fun k =>
      ((c.union.insertNode (c.union.nodes n).hash n).nodes k).hash)).Nodup
    rw [hnodes]
    exact hhash.2
  · intro hno
    have hcopies := h.copies hno
    refine hcopies.congr rfl ?_ ?_ ?_ (fun _ _ => rfl)
    · intro other k hl
      change (c.union.insertNode (c.union.nodes n).hash n).lookup other = some k at hl
      rw [hlook] at hl
      split at hl
      · cases hl
        right
        change ((c.union.insertNode (c.union.nodes n).hash n).nodes n).isReady = false
        rw [hnodes]
        exact h.notReady hno n (List.mem_cons_self ..)
      · exact Or.inl hl
    · intro other k _
      change ((c.union.insertNode (c.union.nodes n).hash n).nodes k).spans = _ ∧
        ((c.union.insertNode (c.union.nodes n).hash n).nodes k).isReady = _ ∧
        ((c.union.insertNode (c.union.nodes n).hash n).nodes k).hash = _ ∧ _
      rw [hnodes]
      refine ⟨rfl, rfl, rfl, rfl, ?_⟩
      intro span _
      change (c.union.insertNode (c.union.nodes n).hash n).spanManager.frameOf span = _ ∧ _
      rw [hframe]
      exact ⟨rfl, rfl⟩
    · intro task ht
      have hl := (hcopies.tasked task ht).1
      change (c.union.insertNode (c.union.nodes n).hash n).lookup _ = _
      rw [hlook, if_neg]
      · exact hl
      · intro hsame
        rw [hsame, hb.absent] at hl
        cases hl
  · intro hno k hk
    change ((c.union.insertNode (c.union.nodes n).hash n).nodes k).isReady = false
    rw [hnodes]
    exact h.notReady hno k (List.mem_cons_of_mem _ hk)

end CpuInv

end DashInfer.Cache
