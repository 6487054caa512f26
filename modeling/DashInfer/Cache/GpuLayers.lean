import DashInfer.Cache.GpuStep

/-!
The layers of a request: growing one by claimed spans, filling all of them
from a table node, and destroying them. Opening a request, growing the frame
pool and clearing the table end the list of changes of the GPU side.
-/

namespace DashInfer.Cache

open Lib CacheUnion

variable {E : OrderedSet NodeId} {D : Type} {cfg : Config} {keyed : Prop} {g : GpuSide E D}
  {pend : ReqId → Hash → Prop} {r : ReqId} {hash : Hash} {n : NodeId}

/-- One array is another with listed spans behind it. -/
def Grew (new : List SpanId) (a a' : CacheArray) : Prop :=
  ∃ ext, a'.cache = a.cache ++ ext ∧ ∀ span ∈ ext, span ∈ new

/-- A context whose arrays are those of another, some of them extended by
listed spans. -/
structure Extended (c c' : GenCtx D) (new : List SpanId) : Prop where
  spans : c'.spans.Perm (c.spans ++ new)
  virtualK : List.Forall₂ (Grew new) c.virtualK c'.virtualK
  virtualV : List.Forall₂ (Grew new) c.virtualV c'.virtualV
  nodeList : c'.nodeList = c.nodeList
  offered : c'.offered = c.offered
  placed : c'.placed = c.placed
  prefixLen : c'.prefixLen = c.prefixLen
  tokens : c'.tokens = c.tokens

private theorem forall₂_exists {α β : Type} {R : α → β → Prop} {l : List α} {l' : List β}
    (h : List.Forall₂ R l l') {b : β} (hb : b ∈ l') : ∃ a ∈ l, R a b := by
  induction h with
  | nil => cases hb
  | cons hr _ ih =>
      rcases List.mem_cons.mp hb with rfl | hb
      · exact ⟨_, List.mem_cons_self .., hr⟩
      · obtain ⟨a, ha, hab⟩ := ih hb
        exact ⟨a, List.mem_cons_of_mem _ ha, hab⟩

/-- The spans of a position that every layer has stay where they are. -/
theorem mapM_getElem_grew {new : List SpanId} {l l' : List CacheArray}
    (h : List.Forall₂ (Grew new) l l') {k : Nat} {spans : List SpanId}
    (hk : l.mapM (fun a => a.cache[k]?) = some spans) :
    l'.mapM (fun a => a.cache[k]?) = some spans := by
  induction h generalizing spans with
  | nil => exact hk
  | @cons a a' l l' hgrew _ ih =>
      obtain ⟨ext, hcache, _⟩ := hgrew
      rw [List.mapM_cons] at hk ⊢
      cases hhead : a.cache[k]? with
      | none =>
          rw [hhead] at hk
          cases hk
      | some span =>
          have hlt : k < a.cache.length := (List.getElem?_eq_some_iff.mp hhead).1
          rw [hcache, List.getElem?_append_left hlt, hhead]
          rw [hhead] at hk
          cases htail : l.mapM (fun a => a.cache[k]?) with
          | none =>
              rw [htail] at hk
              cases hk
          | some rest =>
              rw [htail] at hk
              rw [ih htail]
              exact hk

namespace Extended

variable {c c' : GenCtx D} {new : List SpanId}

theorem arrays (h : Extended c c' new) {a : CacheArray} (ha : a ∈ c'.arrays) :
    ∃ a₀ ∈ c.arrays, Grew new a₀ a := by
  rcases List.mem_append.mp ha with ha | ha
  · obtain ⟨a₀, ha₀, hgrew⟩ := forall₂_exists h.virtualK ha
    exact ⟨a₀, List.mem_append_left _ ha₀, hgrew⟩
  · obtain ⟨a₀, ha₀, hgrew⟩ := forall₂_exists h.virtualV ha
    exact ⟨a₀, List.mem_append_right _ ha₀, hgrew⟩

theorem blockAt (h : Extended c c' new) {k : Nat} {block : List SpanId × List SpanId}
    (hk : c.blockAt k = some block) : c'.blockAt k = some block := by
  unfold GenCtx.blockAt at hk ⊢
  cases hkc : c.virtualK.mapM (fun a => a.cache[k]?) with
  | none =>
      rw [hkc] at hk
      cases hk
  | some kCache =>
      cases hvc : c.virtualV.mapM (fun a => a.cache[k]?) with
      | none =>
          rw [hkc, hvc] at hk
          cases hk
      | some vCache =>
          rw [hkc, hvc] at hk
          rw [mapM_getElem_grew h.virtualK hkc, mapM_getElem_grew h.virtualV hvc]
          exact hk

theorem slots (h : Extended (g.ctx r) c' new) (hnodup : g.live.Nodup) (hr : r ∈ g.live) :
    (g.updateCtx r (fun _ => c')).slots.Perm (g.slots ++ new) := by
  obtain ⟨rest, hold, hnew⟩ := GpuSide.slots_updateCtx hnodup hr (fun _ => c')
  refine hnew.trans ((h.spans.append_right rest).trans ?_)
  refine List.Perm.trans ?_ (hold.append_right new).symm
  rw [List.append_assoc, List.append_assoc]
  exact (List.perm_append_comm).append_left _

theorem entries (h : Extended (g.ctx r) c' new) :
    (g.updateCtx r (fun _ => c')).entries = g.entries := by
  refine GpuSide.entries_congr rfl ?_
  intro q _
  by_cases hq : q = r
  · subst hq
    rw [GpuSide.updateCtx_self]
    exact h.nodeList
  · rw [GpuSide.updateCtx_of_ne hq]

/-- What one request keeps when its arrays are extended: the new spans are
outside the table or belong to a node it lists, and are then below the
offered position. -/
theorem ctxInv {u : CacheUnion E} {keyed : Prop} {pend : Hash → Prop} (h : Extended c c' new)
    (hc : CtxInv cfg keyed u c pend)
    (hshared : ∀ span ∈ new, ∀ {hash n}, u.lookup hash = some n → span ∈ (u.nodes n).spans →
      ∃ m ∈ c.nodeList, (u.nodes m).hash = hash)
    (hfresh : (∀ span ∈ new, span ∉ u.tableSpans) ∨
      ∀ a ∈ c'.arrays, a.cache.length ≤ c'.offered) : CtxInv cfg keyed u c' pend where
  shared span hs {other k} hl hmem := by
    rw [h.nodeList]
    rcases List.mem_append.mp (h.spans.mem_iff.mp hs) with hs | hs
    · exact hc.shared span hs hl hmem
    · exact Or.inl (hshared span hs hl hmem)
  fresh a ha span hs := by
    rcases hfresh with hnew | hbelow
    · obtain ⟨a₀, ha₀, ext, hcache, hin⟩ := h.arrays ha
      rw [hcache, h.offered, List.drop_append] at hs
      rcases List.mem_append.mp hs with hs | hs
      · exact hc.fresh a₀ ha₀ span hs
      · exact hnew span (hin span (List.mem_of_mem_drop hs))
    · rw [List.drop_eq_nil_of_le (hbelow a ha)] at hs
      cases hs
  kShape := by
    rw [← h.virtualK.length_eq]
    exact hc.kShape
  vShape := by
    rw [← h.virtualK.length_eq, ← h.virtualV.length_eq]
    exact hc.vShape
  placed k m hk := by
    rw [h.placed] at hk
    obtain ⟨hmem, hblock⟩ := hc.placed k m hk
    rw [h.nodeList]
    exact ⟨hmem, h.blockAt hblock⟩
  keys hkeyed k m hk := by
    rw [h.placed] at hk
    rw [h.tokens]
    exact hc.keys hkeyed k m hk
  prefixLen := by
    rw [h.placed, h.prefixLen]
    exact hc.prefixLen

end Extended

namespace GpuInv

/-- Claimed spans join one request's arrays. -/
theorem claim (h : GpuInv cfg keyed g pend) (hr : r ∈ g.live) {m' : SpanManager}
    {new : List SpanId} {count : Nat} (hclaim : Claimed g.union.spanManager m' new count)
    {c' : GenCtx D} (hext : Extended (g.ctx r) c' new) :
    GpuInv cfg keyed (GpuSide.updateCtx { g with union := { g.union with spanManager := m' } } r
      (fun _ => c')) pend := by
  have hslots := hext.slots h.live_nodup hr
  have htable : ∀ span ∈ new, span ∉ g.union.tableSpans := by
    intro span hs hmem
    have hlt := h.wf.owned.held_lt span (Or.inl hmem)
    exact Nat.not_lt.mpr (hclaim.mem_iff.mp hs).1 hlt
  have hnot : ∀ span ∈ new, span ∉ g.slots := by
    intro span hs hmem
    have hlt := h.wf.owned.held_lt span (Or.inr hmem)
    exact Nat.not_lt.mpr (hclaim.mem_iff.mp hs).1 hlt
  have hiff : ∀ span, span ∈ (g.updateCtx r (fun _ => c')).slots ↔ (span ∈ g.slots ∨ span ∈ new) :=
    fun span => (hslots.mem_iff).trans List.mem_append
  refine
    { wf := ?_
      covered := ?_
      capacity := ?_
      balanced := ?_
      live_nodup := h.live_nodup
      once := ?_
      ctx := ?_ }
  · refine
      { hash_eq := h.wf.hash_eq
        lt_next := h.wf.lt_next
        kLength := h.wf.kLength
        vLength := h.wf.vLength
        owned := (hclaim.owned h.wf.owned).mono (List.Perm.refl _) (fun span hs => (hiff span).mp hs)
        size_le := h.wf.size_le }
  · refine (hclaim.covered h.wf.owned h.covered).mono ?_
    intro span hs
    exact hs.imp id (hiff span).mpr
  · change g.union.capacity = m'.frameManager.totalFrameCount / _
    rw [hclaim.total_eq]
    exact h.capacity
  · have hbal := h.balanced.spanManager m'
    have hentries := hext.entries (g := g)
    change Balanced _ (g.updateCtx r (fun _ => c')).entries g.log
    rw [hentries]
    exact hbal
  · intro span hout
    change (g.updateCtx r (fun _ => c')).slots.count span ≤ 1
    rw [hslots.count_eq, List.count_append]
    by_cases hs : span ∈ new
    · have hone := List.nodup_iff_count_le_one.mp hclaim.nodup span
      rw [List.count_eq_zero.mpr (hnot span hs)]
      omega
    · rw [List.count_eq_zero.mpr hs]
      exact h.once span hout
  · intro q hq
    by_cases hqr : q = r
    swap
    · rw [GpuSide.updateCtx_of_ne hqr]
      exact (h.ctx q hq).congr (fun hl => ⟨hl, rfl⟩) (fun _ _ => ⟨rfl, rfl, rfl⟩)
    · subst hqr
      rw [GpuSide.updateCtx_self]
      refine hext.ctxInv ?_ ?_ (Or.inl htable)
      · exact (h.ctx q hr).congr (fun hl => ⟨hl, rfl⟩) (fun _ _ => ⟨rfl, rfl, rfl⟩)
      · intro span hs other k hl hmem
        exact absurd (mem_tableSpans_iff.mpr ⟨other, k, hl, hmem⟩) (htable span hs)

/-- The spans of a table node that the request lists are placed in its
arrays, all below the offered position. -/
theorem fill (h : GpuInv cfg keyed g pend) (hr : r ∈ g.live) (hl : g.union.lookup hash = some n)
    (hlisted : ∃ m ∈ (g.ctx r).nodeList, (g.union.nodes m).hash = hash)
    {new : List SpanId} (hnew : ∀ span ∈ new, span ∈ (g.union.nodes n).spans)
    {c' : GenCtx D} (hext : Extended (g.ctx r) c' new)
    (hbelow : ∀ a ∈ c'.arrays, a.cache.length ≤ c'.offered) :
    GpuInv cfg keyed (g.updateCtx r (fun _ => c')) pend := by
  have hslots := hext.slots h.live_nodup hr
  have htable : ∀ span ∈ new, span ∈ g.union.tableSpans :=
    fun span hs => mem_tableSpans_iff.mpr ⟨hash, n, hl, hnew span hs⟩
  have hiff : ∀ span, span ∈ (g.updateCtx r (fun _ => c')).slots ↔ (span ∈ g.slots ∨ span ∈ new) :=
    fun span => (hslots.mem_iff).trans List.mem_append
  have hheld : ∀ span, Held g.union.tableSpans (· ∈ (g.updateCtx r (fun _ => c')).slots) span ↔
      Held g.union.tableSpans (· ∈ g.slots) span := by
    intro span
    constructor
    · rintro (hs | hs)
      · exact Or.inl hs
      · exact ((hiff span).mp hs).elim Or.inr (fun hs => Or.inl (htable span hs))
    · rintro (hs | hs)
      · exact Or.inl hs
      · exact Or.inr ((hiff span).mpr (Or.inl hs))
  have howned := h.wf.owned
  refine
    { wf := ?_
      covered := ?_
      capacity := h.capacity
      balanced := ?_
      live_nodup := h.live_nodup
      once := ?_
      ctx := ?_ }
  · refine
      { hash_eq := h.wf.hash_eq
        lt_next := h.wf.lt_next
        kLength := h.wf.kLength
        vLength := h.wf.vLength
        owned :=
          { free_nodup := howned.free_nodup
            free_lt := howned.free_lt
            count_eq := howned.count_eq
            table_nodup := howned.table_nodup
            held_lt := fun span hs => howned.held_lt span ((hheld span).mp hs)
            frame_lt := fun span hs => howned.frame_lt span ((hheld span).mp hs)
            frame_busy := fun span hs => howned.frame_busy span ((hheld span).mp hs)
            latest := fun span hs => howned.latest span ((hheld span).mp hs)
            table_flag := howned.table_flag
            out_flag := ?_ }
        size_le := h.wf.size_le }
    intro span hs hnot
    exact howned.out_flag span (((hiff span).mp hs).resolve_right
      (fun hin => hnot (htable span hin))) hnot
  · exact h.covered.mono (fun span hs => (hheld span).mpr hs)
  · rw [hext.entries]
    exact h.balanced
  · intro span hout
    rw [hslots.count_eq, List.count_append,
      List.count_eq_zero.mpr (fun hs => hout (htable span hs))]
    exact h.once span hout
  · intro q hq
    by_cases hqr : q = r
    swap
    · rw [GpuSide.updateCtx_of_ne hqr]
      exact h.ctx q hq
    subst hqr
    rw [GpuSide.updateCtx_self]
    refine hext.ctxInv (h.ctx q hr) ?_ (Or.inr hbelow)
    intro span hs other k hlk hmem
    have heq := h.wf.hash_eq_of_mem hl hlk (hnew span hs) hmem
    exact heq ▸ hlisted

/-- A new request without spans. -/
theorem openCtx (h : GpuInv cfg keyed g pend) (hr : r ∉ g.live) {c : GenCtx D} (hspans : c.spans = [])
    (hlist : c.nodeList = []) (hplaced : c.placed = [])
    (hlen : c.prefixLen = 0)
    (hk : c.virtualK.length = cfg.layerNum ∨ c.virtualK.length = 0)
    (hv : c.virtualV.length = c.virtualK.length) :
    GpuInv cfg keyed { g with live := r :: g.live, ctx := Function.update g.ctx r c } pend := by
  have hother : ∀ q ∈ g.live, Function.update g.ctx r c q = g.ctx q := by
    intro q hq
    refine Function.update_of_ne ?_ _ _
    rintro rfl
    exact hr hq
  have hslots : GpuSide.slots { g with live := r :: g.live, ctx := Function.update g.ctx r c } =
      g.slots := by
    unfold GpuSide.slots
    dsimp only
    rw [List.flatMap_cons, Function.update_self, hspans, List.nil_append]
    exact List.flatMap_congr (fun q hq => by rw [hother q hq])
  have hentries : GpuSide.entries
      { g with live := r :: g.live, ctx := Function.update g.ctx r c } = g.entries := by
    unfold GpuSide.entries
    dsimp only
    rw [List.flatMap_cons, Function.update_self, hlist, List.nil_append]
    exact List.flatMap_congr (fun q hq => by rw [hother q hq])
  refine
    { wf := by rw [hslots]; exact h.wf
      covered := by rw [hslots]; exact h.covered
      capacity := h.capacity
      balanced := by rw [hentries]; exact h.balanced
      live_nodup := List.nodup_cons.mpr ⟨hr, h.live_nodup⟩
      once := by rw [hslots]; exact h.once
      ctx := ?_ }
  intro q hq
  rcases List.mem_cons.mp hq with rfl | hq
  · change CtxInv _ _ _ (Function.update g.ctx q c q) _
    rw [Function.update_self]
    refine ⟨?_, ?_, hk, hv, ?_, ?_, ?_⟩
    · intro span hs
      rw [hspans] at hs
      cases hs
    · intro a ha span hs
      have hmem : span ∈ c.spans := List.mem_flatMap.mpr ⟨a, ha, List.mem_of_mem_drop hs⟩
      rw [hspans] at hmem
      cases hmem
    · intro k m hkm
      rw [hplaced] at hkm
      cases hkm
    · intro _ k m hkm
      rw [hplaced] at hkm
      cases hkm
    · rw [hplaced, hlen, List.length_nil, Nat.zero_mul]
  · change CtxInv _ _ _ (Function.update g.ctx r c q) _
    rw [hother q hq]
    exact h.ctx q hq

/-- A request that lists nothing any more goes, and its own spans with it. -/
theorem closeCtx (h : GpuInv cfg keyed g pend) (hr : r ∈ g.live) (hlist : (g.ctx r).nodeList = [])
    (hpend : ∀ q hash, pend q hash → q = r) :
    GpuInv cfg keyed { g with
      union := { g.union with spanManager := g.union.spanManager.releaseSpans (g.ctx r).spans }
      live := g.live.erase r } Settled := by
  have hperm : g.slots.Perm ((g.ctx r).spans ++
      (g.live.erase r).flatMap (fun q => (g.ctx q).spans)) := by
    unfold GpuSide.slots
    exact ((List.perm_cons_erase hr).flatMap_right _).trans (by rw [List.flatMap_cons])
  have hentries : g.entries.Perm ((g.live.erase r).flatMap (fun q => (g.ctx q).nodeList)) := by
    unfold GpuSide.entries
    refine ((List.perm_cons_erase hr).flatMap_right _).trans ?_
    rw [List.flatMap_cons, hlist, List.nil_append]
  have hgone : ∀ span ∈ (g.ctx r).spans, span ∈ g.slots :=
    fun span hs => hperm.mem_iff.mpr (List.mem_append_left _ hs)
  have honce : ∀ span, span ∉ g.union.tableSpans →
      ((g.ctx r).spans ++ (g.live.erase r).flatMap (fun q => (g.ctx q).spans)).count span ≤ 1 := by
    intro span hout
    rw [← hperm.count_eq]
    exact h.once span hout
  have hbal := (h.balanced.perm hentries).spanManager
    (g.union.spanManager.releaseSpans (g.ctx r).spans)
  refine
    { wf := ?_
      covered := ?_
      capacity := ?_
      balanced := hbal
      live_nodup := h.live_nodup.erase r
      once := ?_
      ctx := ?_ }
  · refine
      { hash_eq := h.wf.hash_eq
        lt_next := h.wf.lt_next
        kLength := h.wf.kLength
        vLength := h.wf.vLength
        owned := h.wf.owned.drop hgone ?_ ?_ ?_
        size_le := h.wf.size_le }
    · refine List.nodup_iff_count_le_one.mpr ?_
      intro span
      by_cases hin : span ∈ g.union.tableSpans
      · rw [List.count_eq_zero.mpr]
        · exact Nat.zero_le 1
        · intro hmem
          exact of_decide_eq_true (List.mem_filter.mp hmem).2 hin
      · have hle := honce span hin
        rw [List.count_append] at hle
        have hsub := (List.filter_sublist
          (p := fun span => decide (span ∉ g.union.tableSpans)) (l := (g.ctx r).spans)).count_le span
        omega
    · intro span hs
      exact hperm.mem_iff.mpr (List.mem_append_right _ hs)
    · intro span hs hout hrest
      have hle := honce span hout
      rw [List.count_append] at hle
      have hfirst := List.count_pos_iff.mpr hs
      have hsecond : 0 < List.count span
          ((g.live.erase r).flatMap (fun q => (g.ctx q).spans)) := List.count_pos_iff.mpr hrest
      omega
  · refine Covered.drop h.wf.owned h.covered hgone ?_
    intro span hs
    exact List.mem_append.mp (hperm.mem_iff.mp hs)
  · change g.union.capacity =
      (g.union.spanManager.releaseSpans (g.ctx r).spans).frameManager.totalFrameCount / _
    rw [SpanManager.releaseSpans_total]
    exact h.capacity
  · intro span hout
    have hle := honce span hout
    rw [List.count_append] at hle
    exact Nat.le_trans (Nat.le_add_left _ _) hle
  · intro q hq
    have hne : q ≠ r := by
      rintro rfl
      exact h.live_nodup.not_mem_erase hq
    have hlive : q ∈ g.live := List.mem_of_mem_erase hq
    refine ((h.ctx q hlive).relist rfl rfl (Nat.le_refl _) ?_
      (Or.inr ⟨rfl, rfl, rfl, fun _ hm => hm⟩)).congr (fun hl => ⟨hl, rfl⟩) (fun _ _ => ⟨rfl, rfl, rfl⟩)
    rintro other (hlisted | hp)
    · exact Or.inl hlisted
    · exact absurd (hpend q other hp) hne

/-- The pool and, with it, the capacity grow. -/
theorem warmup (h : GpuInv cfg keyed g pend) (count : Nat) :
    GpuInv cfg keyed { g with union := { g.union with
      spanManager := { g.union.spanManager with
        frameManager := g.union.spanManager.frameManager.growBy count }
      capacity := (g.union.spanManager.frameManager.growBy count).totalFrameCount /
        cfg.spanPerNode } } pend := by
  have htotal := (FrameManager.growBy_eq g.union.spanManager.frameManager count).2.2
  have hsize : g.union.size ≤ (g.union.spanManager.frameManager.growBy count).totalFrameCount /
      cfg.spanPerNode := by
    refine h.wf.size_le.trans ?_
    rw [h.capacity, htotal]
    exact Nat.div_le_div_right (Nat.le_add_right _ _)
  refine
    { wf :=
        { hash_eq := h.wf.hash_eq
          lt_next := h.wf.lt_next
          kLength := h.wf.kLength
          vLength := h.wf.vLength
          owned := h.wf.owned.grow count
          size_le := hsize }
      covered := h.covered.grow count
      capacity := rfl
      balanced :=
        { evictable := ⟨h.balanced.evictable.ascending, h.balanced.evictable.mem_iff⟩
          entry_lt := h.balanced.entry_lt
          entry_cached := h.balanced.entry_cached
          countHash_le := h.balanced.countHash_le
          entry_self := h.balanced.entry_self
          count_eq := h.balanced.count_eq
          removed := h.balanced.removed }
      live_nodup := h.live_nodup
      once := h.once
      ctx := fun q hq => (h.ctx q hq).congr (fun hl => ⟨hl, rfl⟩) (fun _ _ => ⟨rfl, rfl, rfl⟩) }

/-- An empty table beside no request. -/
theorem of_empty (hlive : g.live = []) (htable : g.union.hashTable = ∅)
    (hevictor : g.union.evictor = E.empty)
    (howned : Owned g.union.spanManager [] (fun _ => False))
    (hcovered : Covered g.union.spanManager [] (fun _ => False))
    (hcap : g.union.capacity = g.union.countFrame / (2 * cfg.layerNum))
    (hremoved : ∀ {n refCnt holders}, GpuEvent.removed n refCnt holders ∈ g.log →
      refCnt = 0 ∧ holders = 0) : GpuInv cfg keyed g pend := by
  have hnone : ∀ hash, g.union.lookup hash = none := by
    intro hash
    unfold lookup
    rw [htable]
    exact AList.lookup_empty hash
  have hslots : g.slots = [] := by
    unfold GpuSide.slots
    rw [hlive]
    rfl
  have hentries : g.entries = [] := by
    unfold GpuSide.entries
    rw [hlive]
    rfl
  have hspans : g.union.tableSpans = [] := by
    unfold tableSpans
    rw [htable]
    rfl
  have hfalse : (fun span => span ∈ g.slots) = (fun _ => False) := by
    funext span
    rw [hslots]
    simp
  refine
    { wf := by rw [hfalse]; exact wf_empty htable howned
      covered := by rw [hfalse, hspans]; exact hcovered
      capacity := hcap
      balanced :=
        { evictable := evictable_empty htable hevictor
          entry_lt := ?_
          entry_cached := ?_
          countHash_le := ?_
          entry_self := ?_
          count_eq := ?_
          removed := hremoved }
      live_nodup := by rw [hlive]; exact List.nodup_nil
      once := ?_
      ctx := ?_ }
  · intro n hn
    rw [hentries] at hn
    cases hn
  · intro n hn
    rw [hentries] at hn
    cases hn
  · intro hash n hl
    rw [hnone] at hl
    cases hl
  · intro _ n hn
    rw [hentries] at hn
    cases hn
  · intro _ hash n hl
    rw [hnone] at hl
    cases hl
  · intro span _
    rw [hslots]
    exact Nat.zero_le 1
  · intro q hq
    rw [hlive] at hq
    cases hq

theorem reset (h : GpuInv cfg keyed g pend) (hlive : g.live = []) :
    GpuInv cfg keyed { g with union := g.union.reset } pend := by
  obtain ⟨m', heq, htotal, hall⟩ := reset_spec g.union
  have hfalse : (fun span => span ∈ g.slots) = (fun _ => False) := by
    funext span
    unfold GpuSide.slots
    rw [hlive]
    simp
  obtain ⟨howned, hcovered⟩ := hall (fun _ => False) (fun _ _ hf => hf)
  have hw := h.wf.owned
  have hc := h.covered
  rw [hfalse] at hw hc
  rw [heq]
  refine of_empty hlive rfl rfl (howned hw) (hcovered hc) ?_ h.balanced.removed
  change g.union.capacity = m'.frameManager.totalFrameCount / _
  rw [htotal]
  exact h.capacity

end GpuInv

end DashInfer.Cache
