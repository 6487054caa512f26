import DashInfer.Cache.Start

/-!
References without spans, and their end. `RefOnly` takes references for an
admission check, and `UnRef` gives a request's references back before its
arrays are destroyed. While `UnRef` walks the list, the invariant is that of a
request that lists what is still to come.
-/

namespace DashInfer.Cache

open Lib CacheUnion PrefixCacheManager

variable {E : OrderedSet NodeId} {D : Type} {cfg : Config} {P : Premise D} {s : State E D}
  {pend : ReqId → Hash → Prop} {r : ReqId}

theorem Inv.touchCpu (h : Inv cfg P s pend) (hash : Hash) (ts : Nat) :
    Inv cfg P { s with cpu := s.cpu.updateNodeTs hash ts } pend := by
  have hstill : CpuStill s.cpu (s.cpu.updateNodeTs hash ts) := CpuStill.updateNodeTs hash ts
  exact h.withCpu (h.cpu.updateNodeTs hash ts) (hstill.moved s.gpu).log
    (fun hl => hstill.lookup _ ▸ hl) rfl

private theorem post_refOnlyBlocks (tokens : List Token) (ts : Nat) (list : List (Nat × Nat))
    (lens : Nat × Nat) (h : Inv cfg P s Settled) (hr : r ∈ s.gpu.live) :
    Post (refOnlyBlocks cfg r tokens ts list lens) s (fun _ t => Inv cfg P t Settled)
      (Faulted cfg P) := by
  induction list generalizing s lens with
  | nil => exact h
  | cons block rest ih =>
      obtain ⟨i, cacheIdx⟩ := block
      obtain ⟨prefixLen, gpuCachedLen⟩ := lens
      unfold refOnlyBlocks
      rw [post_bind, post_get]
      split
      · next n hl =>
          simp only [post_bind, post_modifyGpu, post_modifyCpu]
          have hpush : Inv cfg P { s with
              gpu := (s.gpu.refNode (cfg.hashTokens (tokens.take (i + 1))) ts).pushNode r n }
              Settled :=
            h.refPush ts hr hl (h.gpu.wf.lt_next hl) (h.gpu.wf.hash_eq hl) (fun _ => rfl)
              (fun _ _ hp => hp.elim)
          exact ih _ (hpush.touchCpu _ ts) hr
      · split
        · simp only [post_bind, post_modifyCpu]
          exact ih _ (h.touchCpu _ ts) hr
        · exact h

theorem post_refOnly (tokens : List Token) (source : Nat → Nat → D) (ts : Nat)
    (h : Inv cfg P s Settled) (hr : r ∉ s.gpu.live) :
    Post (refOnly cfg r tokens source ts) s (fun _ t => Inv cfg P t Settled)
      (Faulted cfg P) := by
  unfold refOnly PrefixCacheManager.openCtx
  rw [post_bind, post_modifyGpu]
  have hopen := h.openCtx hr (newCtx_spans 0 source) rfl rfl rfl rfl (Or.inr rfl) rfl
  exact post_refOnlyBlocks tokens ts _ _ hopen (List.mem_cons_self ..)

/-- The context of a request that is about to end, with `rest` still listed. -/
def GenCtx.shed (rest : List NodeId) (c : GenCtx D) : GenCtx D :=
  { c with nodeList := rest, placed := [], prefixLen := 0 }

def State.shed (s : State E D) (r : ReqId) (rest : List NodeId) : State E D :=
  { s with gpu := s.gpu.updateCtx r (GenCtx.shed rest) }

/-- A request that is about to end may owe any entry of its list. -/
def EndingOf (r : ReqId) : ReqId → Hash → Prop := fun q _ => q = r

private theorem shed_ctx (s : State E D) (r : ReqId) (rest : List NodeId) :
    (s.shed r rest).gpu.ctx r = GenCtx.shed rest (s.gpu.ctx r) :=
  GpuSide.updateCtx_self _

private theorem shed_shed (s : State E D) (r : ReqId) (list rest : List NodeId)
    (u' : CacheUnion E) :
    GpuSide.updateCtx { (s.shed r list).gpu with union := u' } r
      (fun c => { c with nodeList := rest }) =
      (State.shed { s with gpu := { s.gpu with union := u' } } r rest).gpu := by
  unfold State.shed GpuSide.updateCtx GenCtx.shed
  simp [Function.update_idem]

/-- Another list and nothing placed; counts and timestamps may have moved. -/
private theorem Carried.of_shed {r : ReqId} {rest list : List NodeId} {u' : CacheUnion E}
    (hk : Kept s.gpu.union u') :
    Carried (s.shed r list).gpu
      (State.shed { s with gpu := { s.gpu with union := u' } } r rest).gpu := by
  refine Carried.of_kept hk rfl rfl ?_
  intro q _
  by_cases hqr : q = r
  · subst hqr
    rw [shed_ctx, shed_ctx]
    exact ⟨rfl, rfl, Nat.le_refl _, rfl, rfl⟩
  · unfold State.shed
    rw [GpuSide.updateCtx_of_ne hqr, GpuSide.updateCtx_of_ne hqr]
    exact ⟨rfl, rfl, Nat.le_refl _, rfl, rfl⟩

/-- A request starts to end. -/
private theorem Inv.shed (h : Inv cfg P s Settled) (hr : r ∈ s.gpu.live) :
    Inv cfg P (s.shed r (s.gpu.ctx r).nodeList) (EndingOf r) := by
  refine h.setCtx rfl rfl rfl (fun p hp hp' => ⟨hp, hp', rfl⟩) ?_ (fun _ _ _ hp => hp.elim)
  exact (h.gpu.ctx r hr).relist rfl rfl (Nat.le_refl _) (fun _ _ => Or.inr rfl)
    (Or.inl ⟨rfl, rfl⟩)

/-- `UnRef`, by induction over the nodes still to come. -/
private theorem post_unRef (list : List NodeId) (h : Inv cfg P (s.shed r list) (EndingOf r))
    (hr : r ∈ s.gpu.live) :
    Post (unRef list) s
      (fun _ t => Inv cfg P (t.shed r []) (EndingOf r) ∧ t.gpu.live = s.gpu.live ∧
        t.gpu.ctx = s.gpu.ctx)
      (fun _ _ => False) := by
  unfold unRef
  induction list generalizing s with
  | nil => exact ⟨h, rfl, rfl⟩
  | cons n rest ih =>
      have hentry : n ∈ (s.shed r (n :: rest)).gpu.entries := by
        refine GpuSide.mem_entries_iff.mpr ⟨r, hr, ?_⟩
        rw [shed_ctx]
        exact List.mem_cons_self ..
      obtain ⟨m, hl⟩ := Option.ne_none_iff_exists'.mp (h.gpu.balanced.entry_cached n hentry)
      have hl' : s.gpu.union.lookup (s.gpu.union.nodes n).hash = some m := hl
      rw [forEach]
      simp only [post_bind, post_get, hl']
      have hk : Kept s.gpu.union (if n = m then s.gpu.union.unrefNode (s.gpu.union.nodes n).hash
          else s.gpu.union.updateNodeTs (s.gpu.union.nodes n).hash
            (s.gpu.union.nodes n).lastAccessTime) := by
        split
        · exact kept_unrefNode _
        · exact kept_updateNodeTs _ _
      have hstep : ∀ u', u' = (if n = m then s.gpu.union.unrefNode (s.gpu.union.nodes n).hash
          else s.gpu.union.updateNodeTs (s.gpu.union.nodes n).hash
            (s.gpu.union.nodes n).lastAccessTime) → ∀ hash ts,
          Inv cfg P (State.shed { s with
            gpu := { s.gpu with union := u' }
            cpu := s.cpu.updateNodeTs hash ts } r rest) (EndingOf r) := by
        rintro u' rfl hash ts
        have hctx := shed_ctx s r (n :: rest)
        have hgpu := h.gpu.unrefPop (s.gpu.union.nodes n).lastAccessTime hr
          (by rw [hctx]; rfl) hl (by rw [hctx]; exact ⟨rfl, rfl⟩) (fun _ => rfl)
        rw [shed_shed] at hgpu
        exact (h.carry hgpu (Carried.of_shed hk) id).touchCpu hash ts
      split
      · next heq =>
          simp only [post_bind, post_get, post_modifyGpu, post_modifyCpu]
          exact ih (hstep _ (if_pos heq).symm _ _) hr
      · next hne =>
          simp only [post_bind, post_get, post_modifyGpu, post_modifyCpu]
          exact ih (hstep _ (if_neg hne).symm _ _) hr

/-- A request ends: its references are given back and its arrays destroyed. -/
theorem post_stopRequest (h : Inv cfg P s Settled) (hr : r ∈ s.gpu.live) :
    Post (stopRequest r) s (fun _ t => Inv cfg P t Settled) (Faulted cfg P) := by
  unfold stopRequest
  rw [post_bind, post_get]
  dsimp only
  rw [post_bind]
  apply (post_unRef _ (h.shed hr) hr).imp _ (fun _ _ he => he.elim)
  rintro _ t ⟨ht, hlive, hctx⟩
  rw [post_modifyGpu]
  have hr' : r ∈ (t.shed r []).gpu.live := by
    change r ∈ t.gpu.live
    rw [hlive]
    exact hr
  have hself := shed_ctx t r []
  have hclosed := ht.gpu.closeCtx hr' (by rw [hself]; rfl) (fun _ _ hp => hp)
  have hspans : ((t.shed r []).gpu.ctx r).spans = (t.gpu.ctx r).spans := by
    rw [hself]
    rfl
  rw [hspans] at hclosed
  have hother : ∀ q ∈ t.gpu.live.erase r, (t.shed r []).gpu.ctx q = t.gpu.ctx q := by
    intro q hq
    apply GpuSide.updateCtx_of_ne
    rintro rfl
    exact (List.Nodup.not_mem_erase ht.gpu.live_nodup) hq
  have hgpu : GpuInv cfg P.ordered { t.gpu with
      union := { t.gpu.union with
        spanManager := t.gpu.union.spanManager.releaseSpans (t.gpu.ctx r).spans }
      live := t.gpu.live.erase r } Settled := by
    refine GpuInv.congr hclosed rfl rfl rfl ?_ ?_ ?_ ?_ ?_
    · intro q hq
      exact congrArg GenCtx.virtualK (hother q hq).symm
    · intro q hq
      exact congrArg GenCtx.virtualV (hother q hq).symm
    · intro q hq
      exact congrArg GenCtx.nodeList (hother q hq).symm
    · intro q hq
      exact Nat.le_of_eq (congrArg GenCtx.offered (hother q hq))
    · intro q hq
      have heq := (hother q hq).symm
      exact ⟨congrArg GenCtx.placed heq, congrArg GenCtx.prefixLen heq,
        congrArg GenCtx.tokens heq⟩
  refine ht.carry hgpu ⟨fun hl => ⟨hl, rfl⟩, ?_, ?_⟩ id
  · intro span _
    change t.gpu.mem ((t.gpu.union.spanManager.releaseSpans _).frameOf span) = _
    rw [SpanManager.releaseSpans_frameOf]
    rfl
  · intro q hq p hp hp'
    rw [hother q hq]
    exact ⟨List.mem_of_mem_erase hq, hp, hp', rfl, fun _ hb => hb⟩

end DashInfer.Cache
