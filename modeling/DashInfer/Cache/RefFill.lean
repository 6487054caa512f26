import DashInfer.Cache.SwapIn
import DashInfer.Cache.Api

/-!
`RefFill`, part by part: the lookup loop, the eviction that makes room, and the
swap-in. What the call does is said in terms of the two tables as they stood
before it: which blocks the GPU table has, which only the CPU table has, and
which CPU entry the eviction drops.
-/

namespace DashInfer.Cache

open Lib CacheUnion PrefixCacheManager

variable {E : OrderedSet NodeId} {D : Type} {cfg : Config} {P : Premise D} {s : State E D}
  {r : ReqId}

/-- The entry of the CPU table that is evicted while room is made for `count`
nodes on the GPU. -/
def roomVictim (cfg : Config) (now : Nat) (s : State E D) (count : Nat) : Option Hash :=
  let exceedNum : Int := s.gpu.union.size + count - s.gpu.union.capacity
  if 0 < exceedNum then
    swapVictim s.cpu.union (swapVictims cfg now s.gpu.union exceedNum)
  else none

/-- What bringing the CPU nodes `list` back as the GPU nodes `new` leaves. -/
structure Restored (cfg : Config) (s t : State E D) (r : ReqId) (list new : List NodeId)
    (victim : Option Hash) : Prop where
  live : t.gpu.live = s.gpu.live
  self : ∃ virtualK virtualV, t.gpu.ctx r = { s.gpu.ctx r with
    virtualK, virtualV, nodeList := (s.gpu.ctx r).nodeList ++ new }
  filled : Filled cfg t.gpu.union.nodes (t.gpu.ctx r) ((s.gpu.ctx r).nodeList ++ new)
  hashes : List.Forall₂ (fun c n => (t.gpu.union.nodes n).hash = (s.cpu.union.nodes c).hash)
    list new
  old : ∀ n ∈ (s.gpu.ctx r).nodeList,
    (t.gpu.union.nodes n).hash = (s.gpu.union.nodes n).hash ∧
      (s.gpu.union.lookup (s.gpu.union.nodes n).hash = some n →
        t.gpu.union.lookup (s.gpu.union.nodes n).hash = some n)
  entered : ∀ n ∈ new, ∃ m ∈ new, t.gpu.union.lookup (t.gpu.union.nodes n).hash = some m
  nodup : new.Nodup
  lone : ∀ n ∈ new, ∀ {hash m}, t.gpu.union.lookup hash = some m →
    ∀ span ∈ (t.gpu.union.nodes n).spans, span ∈ (t.gpu.union.nodes m).spans → m = n
  copied : ∃ events, copiedEvents t.cpu.log = events ++ copiedEvents s.cpu.log ∧
    CopiedOf list (fun n => victim ≠ some (s.cpu.union.nodes n).hash) events

/-- Room is made on the GPU, if there is too little. -/
private theorem post_makeRoom (h : Inv cfg P s Settled) (count now : Nat) :
    Post (makeRoom cfg now count) s
      (fun _ t => Inv cfg P t Settled ∧ Shrunk s.gpu t.gpu ∧ (∃ g, Moved g s.cpu t.cpu) ∧
        ∀ hash n, s.cpu.union.lookup hash = some n → s.gpu.union.lookup hash = none →
          (t.cpu.union.lookup hash = some n ↔ roomVictim cfg now s count ≠ some hash))
      (Faulted cfg P) := by
  unfold makeRoom
  rw [post_bind, post_get]
  dsimp only
  split
  · next hexceed =>
      have hvictim : roomVictim cfg now s count = swapVictim s.cpu.union (swapVictims cfg now
          s.gpu.union (s.gpu.union.size + count - s.gpu.union.capacity)) := if_pos hexceed
      rw [hvictim]
      apply (post_evictUnreferedByNum _ now h).imp _ (fun _ _ he => he)
      rintro _ t ⟨ht, hshrunk, _, hmoved, hstays⟩
      exact ⟨ht, hshrunk, hmoved, hstays⟩
  · next hexceed =>
      have hvictim : roomVictim cfg now s count = none := if_neg hexceed
      rw [hvictim]
      refine ⟨h, Shrunk.refl _, ⟨s.gpu, Moved.refl _ _⟩, ?_⟩
      intro hash n hl _
      simp [hl]

private theorem newNodes_nil (g : GpuSide E D) : NewNodes cfg g r [] where
  lt_next n hn := by cases hn
  refCnt n hn := by cases hn
  kLength n hn := by cases hn
  vLength n hn := by cases hn
  nodup := List.nodup_nil
  mine span hs := by cases hs
  fresh span hs := by cases hs

/-- New nodes are distinct, since each has spans of its own. -/
private theorem NewNodes.nodup_ids {g : GpuSide E D} {new : List NodeId}
    (h : NewNodes cfg g r new) : new.Nodup := by
  have hspans : ∀ n ∈ new, (g.union.nodes n).spans ≠ [] := by
    intro n hn hnil
    have hk := h.kLength n hn
    have hlen := PrefixNode.spans_length (g.union.nodes n) ((h.vLength n hn).trans hk.symm)
    rw [hnil] at hlen
    unfold PrefixNode.cacheNum at hlen
    have hpos := cfg.layerNum_pos
    simp only [List.length_nil] at hlen
    omega
  have hnodup := h.nodup
  clear h
  induction new with
  | nil => exact List.nodup_nil
  | cons n rest ih =>
      unfold batchSpans at hnodup
      rw [List.flatMap_cons] at hnodup
      obtain ⟨_, hrest, hdisjoint⟩ := List.nodup_append.mp hnodup
      refine List.nodup_cons.mpr ⟨?_, ih (fun k hk => hspans k (List.mem_cons_of_mem _ hk)) hrest⟩
      intro hmem
      obtain ⟨span, hs⟩ := List.exists_mem_of_ne_nil _ (hspans n (List.mem_cons_self ..))
      exact hdisjoint span hs span (List.mem_flatMap.mpr ⟨n, hmem, hs⟩) rfl

/-- Two new nodes that share a span are one. -/
private theorem NewNodes.eq_of_shared {g : GpuSide E D} {new : List NodeId}
    (h : NewNodes cfg g r new) {n m : NodeId} (hn : n ∈ new) (hm : m ∈ new) {span : SpanId}
    (hs : span ∈ (g.union.nodes n).spans) (hs' : span ∈ (g.union.nodes m).spans) : m = n := by
  by_contra hne
  have hpair := (List.nodup_flatMap.mp h.nodup).2
  have hsymm : Std.Symm (Function.onFun List.Disjoint fun k => (g.union.nodes k).spans) :=
    ⟨fun _ _ hd => hd.symm⟩
  exact hpair.forall hm hn hne hs' hs

/-- The CPU nodes `RefFill` collected, as they stand when it starts to bring
them back. -/
structure ToRestore (cfg : Config) (P : Premise D) (s : State E D) (r : ReqId)
    (list : List NodeId) : Prop where
  live : r ∈ s.gpu.live
  filled : Filled cfg s.gpu.union.nodes (s.gpu.ctx r) (s.gpu.ctx r).nodeList
  collected : ∀ c ∈ list, Collected cfg s.cpu c
  cached : ∀ c ∈ list, s.cpu.union.lookup (s.cpu.union.nodes c).hash = some c
  absent : ∀ c ∈ list, s.gpu.union.lookup (s.cpu.union.nodes c).hash = none
  below : (s.gpu.ctx r).nodeList.length + list.length ≤ (s.gpu.ctx r).offered
  computed : (s.gpu.ctx r).computed ≤ (s.gpu.ctx r).offered
  distinct : P.distinct → (list.map (fun c => (s.cpu.union.nodes c).hash)).Nodup

theorem map_hash_eq {g : GpuSide E D} {c : CpuSide E D} {list new : List NodeId}
    (h : List.Forall₂ (fun c' n => (g.union.nodes n).hash = (c.union.nodes c').hash) list new) :
    new.map (fun n => (g.union.nodes n).hash) = list.map (fun c' => (c.union.nodes c').hash) := by
  induction h with
  | nil => rfl
  | cons hhash _ ih => rw [List.map_cons, List.map_cons, hhash, ih]

/-- The part of `RefFill` that brings the collected nodes back. -/
theorem post_refFillFromCpu {list : List NodeId} (ts now : Nat) (h : Inv cfg P s Settled)
    (hto : ToRestore cfg P s r list) :
    Post (refFillFromCpu cfg r ts now list) s
      (fun _ t => Inv cfg P t Settled ∧
        ∃ new, Restored cfg s t r list new (roomVictim cfg now s list.length))
      (Faulted cfg P) := by
  unfold refFillFromCpu
  rw [post_bind]
  apply (post_makeRoom h list.length now).imp _ (fun _ _ he => he)
  rintro _ t ⟨ht, hshrunk, ⟨g, hmoved⟩, hstays⟩
  have hr : r ∈ t.gpu.live := by
    rw [hshrunk.live]
    exact hto.live
  have hfilled : Filled cfg t.gpu.union.nodes (t.gpu.ctx r) (s.gpu.ctx r).nodeList := by
    rw [hshrunk.nodes, hshrunk.ctx]
    exact hto.filled
  have hlistlt : ∀ n ∈ (s.gpu.ctx r).nodeList, n < t.gpu.union.nextNode := by
    intro n hn
    rw [hshrunk.nextNode]
    exact h.gpu.balanced.entry_lt n (GpuSide.mem_entries_iff.mpr ⟨r, hto.live, hn⟩)
  have hkey : ∀ c ∈ list, (t.cpu.union.nodes c).hash = (s.cpu.union.nodes c).hash :=
    fun c hc => hmoved.hash (hto.collected c hc).lt_next
  have habsent : ∀ c ∈ list, t.gpu.union.lookup (t.cpu.union.nodes c).hash = none := by
    intro c hc
    rw [hkey c hc]
    cases hl : t.gpu.union.lookup (s.cpu.union.nodes c).hash with
    | none => rfl
    | some m =>
        have hold := hshrunk.table hl
        rw [hto.absent c hc] at hold
        cases hold
  unfold swapToGpuByNodelist
  simp only [post_bind]
  apply (post_collectSwapIn list ht hr hfilled hlistlt (newNodes_nil _) habsent).imp _
    (fun _ _ he => he)
  rintro new v ⟨hv, htv, halloc, hvfilled, hvnew, hrange, hhashes⟩
  rw [List.nil_append] at hvnew
  have hvcpu : v.cpu = t.cpu := by rw [htv]
  have hlen : list.length = new.length := hhashes.length_eq
  have hfst : (list.zip new).map Prod.fst = list := List.map_fst_zip (Nat.le_of_eq hlen)
  have hsnd : (list.zip new).map Prod.snd = new := List.map_snd_zip (Nat.le_of_eq hlen.symm)
  have hzip : ∀ p ∈ list.zip new,
      (v.gpu.union.nodes p.2).hash = (t.cpu.union.nodes p.1).hash := by
    rintro ⟨c, n⟩ hp
    exact (List.forall₂_iff_zip.mp hhashes).2 hp
  have hnewhash : ∀ n ∈ new, ∃ c ∈ list,
      (v.gpu.union.nodes n).hash = (t.cpu.union.nodes c).hash := by
    intro n hn
    rw [← hsnd] at hn
    obtain ⟨p, hp, rfl⟩ := List.mem_map.mp hn
    exact ⟨p.1, (List.of_mem_zip hp).1, hzip p hp⟩
  have hall : Enterable cfg P v.gpu r new := by
    refine
      { live := ?_
        absent := ?_
        refCnt := hvnew.refCnt
        below := ?_
        computed := ?_
        distinct := ?_ }
    · rw [halloc.live]
      exact hr
    · intro n hn
      obtain ⟨c, hc, heq⟩ := hnewhash n hn
      rw [heq, halloc.lookup]
      exact habsent c hc
    · intro a ha
      rw [hvfilled.length ha, List.length_append, halloc.offered, hshrunk.ctx, ← hlen]
      exact hto.below
    · obtain ⟨_, _, heq⟩ := halloc.self
      rw [heq, hshrunk.ctx]
      exact hto.computed
    · intro hd
      have hmap := map_hash_eq hhashes
      rw [hmap, List.map_congr_left hkey]
      exact hto.distinct hd
  have hstart : Entering cfg v.gpu v.gpu r [] ((list.zip new).map Prod.snd) := by
    rw [hsnd]
    exact Entering.start hvnew
  have hall' : Enterable cfg P v.gpu r ([] ++ (list.zip new).map Prod.snd) := by
    rw [hsnd]
    exact hall
  have hvinv : Inv cfg P v (pendingOf v.gpu r []) := hv.weaken (fun _ _ hp => hp.elim)
  have hcoll : ∀ p ∈ list.zip new, Collected cfg v.cpu p.1 := by
    intro p hp
    rw [hvcpu]
    exact (hto.collected p.1 (List.of_mem_zip hp).1).moved hmoved
  apply (post_enterAll _ _ (Nat.le_refl _) hstart hall' hvinv hcoll (by
    rw [hvcpu]
    exact hzip)).imp _ (fun _ _ he => Or.inl he)
  rintro _ w ⟨hw, hent, _, hread⟩
  rw [hsnd, List.nil_append] at hw hent
  rw [hfst, hvcpu] at hread
  rw [post_pure]
  have hwlive : r ∈ w.gpu.live := by
    rw [hent.live]
    exact hall.live
  have hlistable : ∀ n ∈ new, Listable v.gpu w.gpu n := by
    intro n hn
    obtain ⟨m, hl, hsame⟩ := hent.entered n hn
    refine ⟨?_, hent.hash n, m, ?_, hsame⟩
    · rw [hent.nextNode]
      exact (hrange n hn).2
    · rw [hent.hash]
      exact hl
  apply (post_listNodes ts new hw hwlive hlistable).imp _ (fun _ _ he => he.elim)
  rintro _ u ⟨hu, hkept, hulive, _, huctx, huread⟩
  have hnode : ∀ n, (u.gpu.union.nodes n).hash = (v.gpu.union.nodes n).hash :=
    fun n => (hkept.hash n).trans (hent.hash n)
  have hctx : ∃ virtualK virtualV, u.gpu.ctx r = { s.gpu.ctx r with
      virtualK, virtualV, nodeList := (s.gpu.ctx r).nodeList ++ new } := by
    obtain ⟨virtualK, virtualV, heq⟩ := halloc.self
    refine ⟨virtualK, virtualV, ?_⟩
    rw [huctx, hent.ctx, heq, hshrunk.ctx]
  have hstaysIn : ∀ c ∈ list, (t.cpu.union.lookup (t.cpu.union.nodes c).hash = some c ↔
      roomVictim cfg now s list.length ≠ some (s.cpu.union.nodes c).hash) := by
    intro c hc
    rw [hkey c hc]
    exact hstays _ c (hto.cached c hc) (hto.absent c hc)
  have hreadAll := hread.trans huread (by simp)
  rw [List.append_nil] at hreadAll
  refine ⟨hu, new,
    { live := ?_
      self := hctx
      filled := ?_
      hashes := ?_
      old := ?_
      entered := ?_
      nodup := hvnew.nodup_ids
      lone := ?_
      copied := ?_ }⟩
  · rw [hulive, hent.live, halloc.live, hshrunk.live]
  · apply hvfilled.congr
    · intro n _
      obtain ⟨_, heq⟩ := hent.node n
      rw [hkept.kCache, hkept.vCache, heq]
      exact ⟨rfl, rfl⟩
    · rw [huctx, hent.ctx]
    · rw [huctx, hent.ctx]
  · refine List.forall₂_iff_zip.mpr ⟨hlen, ?_⟩
    intro c n hp
    rw [hnode n, hzip (c, n) hp]
    exact hkey c (List.of_mem_zip hp).1
  · intro n hn
    have hlt : n < t.gpu.union.nextNode := hlistlt n hn
    have hhash : (u.gpu.union.nodes n).hash = (s.gpu.union.nodes n).hash := by
      rw [hnode n, halloc.nodes n hlt, hshrunk.nodes]
    refine ⟨hhash, ?_⟩
    intro hl
    have hentry : n ∈ t.gpu.entries := by
      refine GpuSide.mem_entries_iff.mpr ⟨r, hr, ?_⟩
      rw [hshrunk.ctx]
      exact hn
    have hcached := ht.gpu.balanced.entry_cached n hentry
    rw [hshrunk.nodes] at hcached
    obtain ⟨m, hm⟩ := Option.ne_none_iff_exists'.mp hcached
    have hsame := hshrunk.table hm
    rw [hl] at hsame
    cases hsame
    rw [hkept.lookup]
    apply hent.keeps
    rw [halloc.lookup]
    exact hm
  · intro n hn
    obtain ⟨m, hl, _⟩ := hent.entered n hn
    have hm : m ∈ new := by
      rcases hent.table hl with hold | hin
      · rw [hall.absent n hn] at hold
        cases hold
      · exact hin.1
    refine ⟨m, hm, ?_⟩
    rw [hkept.lookup, hnode n]
    exact hl
  · intro n hn hash m hl span hs hs'
    rw [hkept.spans, hent.spans] at hs hs'
    rw [hkept.lookup] at hl
    rcases hent.table hl with hold | ⟨hm, _⟩
    · have hin : span ∈ v.gpu.union.tableSpans := mem_tableSpans_iff.mpr ⟨hash, m, hold, hs'⟩
      exact absurd hin (hvnew.fresh span (List.mem_flatMap.mpr ⟨n, hn, hs⟩))
    · exact hvnew.eq_of_shared hn hm hs hs'
  · obtain ⟨events, heq, hevents⟩ := hreadAll.copied
    refine ⟨events, by rw [heq, hmoved.copied], hevents.congr ?_⟩
    intro c hc
    exact decide_eq_decide.mpr (hstaysIn c hc).symm

end DashInfer.Cache
