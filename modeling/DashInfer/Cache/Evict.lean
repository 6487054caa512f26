import DashInfer.Cache.Invariant

/-!
Eviction on the GPU. The victims are unreferenced nodes of the table; those
that are too old are dropped, the others are swapped out first. Evicting
shrinks the table and gives frames back, and changes nothing else of the GPU
side.
-/

namespace DashInfer.Cache

open Lib CacheUnion PrefixCacheManager

variable {E : OrderedSet NodeId} {D : Type} {cfg : Config} {P : Premise D}

/-- Hashes of distinct unreferenced nodes of the table. -/
structure Victims (u : CacheUnion E) (hashes : List Hash) : Prop where
  nodup : hashes.Nodup
  cached : ∀ hash ∈ hashes, ∃ n, u.lookup hash = some n ∧ (u.nodes n).refCnt = 0

/-- The table lost entries, and that is all. -/
structure Shrunk (g g' : GpuSide E D) : Prop where
  live : g'.live = g.live
  ctx : g'.ctx = g.ctx
  mem : g'.mem = g.mem
  nodes : g'.union.nodes = g.union.nodes
  nextNode : g'.union.nextNode = g.union.nextNode
  nextSpan : g'.union.spanManager.nextSpan = g.union.spanManager.nextSpan
  frameOf : g'.union.spanManager.frameOf = g.union.spanManager.frameOf
  table : ∀ {hash n}, g'.union.lookup hash = some n → g.union.lookup hash = some n
  log : NoClash g.log → NoClash g'.log

namespace Shrunk

variable {g g' g'' : GpuSide E D}

theorem refl (g : GpuSide E D) : Shrunk g g :=
  ⟨rfl, rfl, rfl, rfl, rfl, rfl, rfl, id, id⟩

theorem trans (h : Shrunk g g') (h' : Shrunk g' g'') : Shrunk g g'' where
  live := h'.live.trans h.live
  ctx := h'.ctx.trans h.ctx
  mem := h'.mem.trans h.mem
  nodes := h'.nodes.trans h.nodes
  nextNode := h'.nextNode.trans h.nextNode
  nextSpan := h'.nextSpan.trans h.nextSpan
  frameOf := h'.frameOf.trans h.frameOf
  table hl := h.table (h'.table hl)
  log hno := h'.log (h.log hno)

theorem carried (h : Shrunk g g') : Carried g g' where
  table hl := ⟨h.table hl, by rw [h.nodes]⟩
  memory span _ := by rw [h.mem, h.frameOf]
  own r hr p hp hp' := by
    rw [h.live] at hr
    rw [h.ctx] at hp hp' ⊢
    exact ⟨hr, hp, hp', rfl, fun _ hb => hb⟩

end Shrunk

variable {s : State E D}

/-- One victim is deleted. -/
private theorem post_deleteGpuNode (h : Inv cfg P s Settled) {hash : Hash} {n : NodeId}
    (hl : s.gpu.union.lookup hash = some n) (href : (s.gpu.union.nodes n).refCnt = 0) :
    Post (deleteGpuNode hash) s
      (fun _ t => Inv cfg P t Settled ∧ t = { s with gpu := t.gpu } ∧ Shrunk s.gpu t.gpu ∧
        ∀ other, other ≠ hash → t.gpu.union.lookup other = s.gpu.union.lookup other)
      (fun _ _ => False) := by
  obtain ⟨g', hdel, hinv, hd, hlive, hctx, hmem, hlog⟩ := h.gpu.deleteNode hl href
  have hshrunk : Shrunk s.gpu g' := by
    refine ⟨hlive, hctx, hmem, hd.nodes, hd.nextNode, ?_, ?_, ?_, ?_⟩
    · rw [hd.spanManager]
      simp
    · rw [hd.spanManager, SpanManager.releaseSpans_unset_frameOf]
    · intro other m hm
      exact (hd.lookup_some hm).2
    · intro hno other hmem
      rw [hlog] at hmem
      exact hno other (by simpa using hmem)
  unfold deleteGpuNode
  rw [post_bind, post_get, hdel]
  exact ⟨h.carry hinv hshrunk.carried hshrunk.log, rfl, hshrunk,
    fun other hne => hd.lookup_of_ne hne⟩

theorem Victims.tail {u u' : CacheUnion E} {hash : Hash} {rest : List Hash}
    (h : Victims u (hash :: rest)) (hnodes : u'.nodes = u.nodes)
    (hlookup : ∀ other, other ≠ hash → u'.lookup other = u.lookup other) : Victims u' rest where
  nodup := (List.nodup_cons.mp h.nodup).2
  cached other hother := by
    have hne : other ≠ hash := by
      rintro rfl
      exact (List.nodup_cons.mp h.nodup).1 hother
    rw [hlookup other hne, hnodes]
    exact h.cached other (List.mem_cons_of_mem _ hother)

theorem post_deleteMultinodes (hashes : List Hash) (h : Inv cfg P s Settled)
    (hv : Victims s.gpu.union hashes) :
    Post (deleteMultinodes hashes) s
      (fun _ t => Inv cfg P t Settled ∧ t = { s with gpu := t.gpu } ∧ Shrunk s.gpu t.gpu)
      (fun _ _ => False) := by
  unfold deleteMultinodes
  induction hashes generalizing s with
  | nil => exact ⟨h, rfl, Shrunk.refl _⟩
  | cons hash rest ih =>
      obtain ⟨n, hl, href⟩ := hv.cached hash (List.mem_cons_self ..)
      rw [forEach, post_bind]
      apply (post_deleteGpuNode h hl href).imp _ (fun _ _ he => he)
      rintro _ t ⟨ht, hcpu, hshrunk, hother⟩
      apply (ih ht (hv.tail hshrunk.nodes hother)).imp _ (fun _ _ he => he)
      rintro _ v ⟨hinv, hcpu', hshrunk'⟩
      refine ⟨hinv, ?_, hshrunk.trans hshrunk'⟩
      rw [hcpu', hcpu]

/-- Whether the node under a hash is too old. -/
def expired (cfg : Config) (now : Nat) (u : CacheUnion E) (hash : Hash) : Bool :=
  match u.lookup hash with
  | none => false
  | some n => timedOut cfg now (u.nodes n).lastAccessTime

theorem post_filterTimeoutHash (now : Nat) (hashes : List Hash) (h : Inv cfg P s Settled)
    (hv : Victims s.gpu.union hashes) :
    Post (filterTimeoutHash cfg now hashes) s
      (fun kept t => Inv cfg P t Settled ∧ t = { s with gpu := t.gpu } ∧ Shrunk s.gpu t.gpu ∧
        kept = hashes.filter (fun hash => !expired cfg now s.gpu.union hash) ∧
        Victims t.gpu.union kept ∧
        ∀ other, other ∉ hashes → t.gpu.union.lookup other = s.gpu.union.lookup other)
      (fun _ _ => False) := by
  induction hashes generalizing s with
  | nil => exact ⟨h, rfl, Shrunk.refl _, rfl, hv, fun _ _ => rfl⟩
  | cons hash rest ih =>
      obtain ⟨n, hl, href⟩ := hv.cached hash (List.mem_cons_self ..)
      have hnotin := (List.nodup_cons.mp hv.nodup).1
      unfold filterTimeoutHash gpuAt
      simp only [post_bind, post_get, hl, post_pure]
      have hexpired : expired cfg now s.gpu.union hash =
          timedOut cfg now (s.gpu.union.nodes n).lastAccessTime := by
        simp [expired, hl]
      split
      · next hold =>
          rw [post_bind]
          apply (post_deleteGpuNode h hl href).imp _ (fun _ _ he => he)
          rintro _ t ⟨ht, hcpu, hshrunk, hother⟩
          apply (ih ht (hv.tail hshrunk.nodes hother)).imp _ (fun _ _ he => he)
          rintro kept v ⟨hinv, hcpu', hshrunk', hkept, hvictims, hrest⟩
          refine ⟨hinv, by rw [hcpu', hcpu], hshrunk.trans hshrunk', ?_, hvictims, ?_⟩
          · rw [hkept, List.filter_cons_of_neg (by simp [hexpired, hold])]
            apply List.filter_congr
            intro other hmem
            have hne : other ≠ hash := by
              rintro rfl
              exact hnotin hmem
            unfold expired
            rw [hother other hne, hshrunk.nodes]
          · intro other hmem
            rw [hrest other (fun hin => hmem (List.mem_cons_of_mem _ hin))]
            exact hother other (fun heq => hmem (heq ▸ List.mem_cons_self ..))
      · next hyoung =>
          rw [post_bind]
          apply (ih h (hv.tail rfl (fun _ _ => rfl))).imp _ (fun _ _ he => he)
          rintro kept t ⟨hinv, hcpu, hshrunk, hkept, hvictims, hrest⟩
          refine ⟨hinv, hcpu, hshrunk, ?_, ?_, ?_⟩
          · rw [hkept, List.filter_cons_of_pos (by simp [hexpired, hyoung])]
          · refine ⟨List.nodup_cons.mpr ⟨?_, hvictims.nodup⟩, ?_⟩
            · intro hin
              rw [hkept] at hin
              exact hnotin (List.mem_filter.mp hin).1
            · intro other hmem
              rcases List.mem_cons.mp hmem with rfl | hmem
              · refine ⟨n, ?_, ?_⟩
                · rw [hrest other hnotin]
                  exact hl
                · rw [hshrunk.nodes]
                  exact href
              · exact hvictims.cached other hmem
          · intro other hmem
            exact hrest other (fun hin => hmem (List.mem_cons_of_mem _ hin))

/-- The victims the evictor names. -/
def evictVictims (u : CacheUnion E) (nodeNum : Int) : List Hash :=
  (u.candidates.take (min (u.candidates.length : Int) nodeNum).toNat).map
    (fun n => (u.nodes n).hash)

theorem victims_evictVictims {u : CacheUnion E} (he : Evictable u) (nodeNum : Int) :
    Victims u (evictVictims u nodeNum) := by
  have hcand : u.candidates.Nodup := by
    refine he.ascending.imp ?_
    rintro a _ hlt rfl
    rw [(nodeComparator_strictWeak u.nodes).irrefl] at hlt
    cases hlt
  refine ⟨?_, ?_⟩
  · refine List.Nodup.map_on ?_ (hcand.sublist (List.take_sublist _ _))
    intro a ha b hb heq
    have hla := ((he.mem_iff a).mp (List.mem_of_mem_take ha)).1
    have hlb := ((he.mem_iff b).mp (List.mem_of_mem_take hb)).1
    rw [heq, hlb] at hla
    exact (Option.some.inj hla).symm
  · intro hash hmem
    obtain ⟨n, hn, rfl⟩ := List.mem_map.mp hmem
    exact ⟨n, (he.mem_iff n).mp (List.mem_of_mem_take hn)⟩

/-- The victims that are swapped out before they go. -/
def swapVictims (cfg : Config) (now : Nat) (u : CacheUnion E) (nodeNum : Int) : List Hash :=
  (evictVictims u nodeNum).filter (fun hash => !expired cfg now u hash)

/-- Eviction of unreferenced nodes. An entry of the CPU table that belongs to
no victim stays unless the swap-out evicts it. -/
theorem post_evictUnreferedByNum (nodeNum : Int) (now : Nat) (h : Inv cfg P s Settled) :
    Post (evictUnreferedByNum cfg nodeNum now) s
      (fun _ t => Inv cfg P t Settled ∧ Shrunk s.gpu t.gpu ∧ t.seqLenThre = s.seqLenThre ∧
        (∃ g, Moved g s.cpu t.cpu) ∧
        ∀ hash n, s.cpu.union.lookup hash = some n → s.gpu.union.lookup hash = none →
          (t.cpu.union.lookup hash = some n ↔
            swapVictim s.cpu.union (swapVictims cfg now s.gpu.union nodeNum) ≠ some hash))
      (Faulted cfg P) := by
  have hv := victims_evictVictims h.gpu.balanced.evictable nodeNum
  unfold evictUnreferedByNum
  rw [post_bind, post_get]
  unfold findMultiVictims
  dsimp only
  split
  · next hnone => exact Or.inr (Or.inr h)
  · next victims hsome =>
      split at hsome
      · cases hsome
      · cases hsome
        rw [post_bind]
        apply (post_filterTimeoutHash now _ h hv).imp _ (fun _ _ he => he.elim)
        rintro kept t ⟨ht, hcpu, hshrunk, hkept, hvictims, _⟩
        rw [post_bind]
        apply (post_swapToCpuByHashlist kept ht.cpu ht.gpu.wf hvictims.nodup).imp
        · rintro _ v ⟨honly, hstays⟩
          have hvinv := ht.onlyCpu honly
          have hvictims' : Victims v.gpu.union kept := by
            rw [honly.gpu]
            exact hvictims
          apply (post_deleteMultinodes kept hvinv hvictims').imp _ (fun _ _ he => he.elim)
          rintro _ w ⟨hw, hwcpu, hwshrunk⟩
          have htcpu : t.cpu = s.cpu := by rw [hcpu]
          have hwvcpu : w.cpu = v.cpu := by rw [hwcpu]
          refine ⟨hw, ?_, ?_, ⟨t.gpu, ?_⟩, ?_⟩
          · rw [honly.gpu] at hwshrunk
            exact hshrunk.trans hwshrunk
          · rw [hwcpu]
            change v.seqLenThre = _
            rw [honly.seqLenThre, hcpu]
          · rw [hwvcpu, ← htcpu]
            exact honly.moved
          · intro hash n hl hnone
            have hnot : hash ∉ kept := by
              intro hin
              obtain ⟨m, hm, _⟩ := hvictims.cached hash hin
              rw [hshrunk.table hm] at hnone
              cases hnone
            rw [← htcpu] at hl ⊢
            rw [hwvcpu, hstays hash n hl hnot, hkept]
            rfl
        · rintro e v (he | ho)
          · exact Or.inl he
          · exact Or.inr (Or.inr (ht.onlyCpu ho))

end DashInfer.Cache
