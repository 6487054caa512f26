import DashInfer.Cache.Replay

/-!
What holds in every state of a run: which frames are free and which are held,
what the evictors store, when nodes leave the GPU table and what their
reference counts are.
-/

namespace DashInfer.Cache

open Lib CacheUnion PrefixCacheManager

variable {E : OrderedSet NodeId} {D : Type} {cfg : Config} {s : State E D}

/-- Every frame of the pool is free or held, by a request or by a node of the
table; no frame is both, none is free twice, and the counter is the length of
the free queue. -/
structure FramesAccounted (g : GpuSide E D) : Prop where
  placed : ∀ frame < g.union.countFrame, frame ∈ g.union.spanManager.frameManager.freeFrames ∨
    ∃ span, (span ∈ g.slots ∨ span ∈ g.union.tableSpans) ∧
      g.union.spanManager.frameOf span = frame
  requested : ∀ span ∈ g.slots,
    g.union.spanManager.frameOf span ∉ g.union.spanManager.frameManager.freeFrames
  cached : ∀ span ∈ g.union.tableSpans,
    g.union.spanManager.frameOf span ∉ g.union.spanManager.frameManager.freeFrames
  nodup : g.union.spanManager.frameManager.freeFrames.Nodup
  count : g.union.countFreeFrame = g.union.spanManager.frameManager.freeFrames.length
  count_le : g.union.countFreeFrame ≤ g.union.countFrame

private theorem Owned.free_le {m : SpanManager} {table : List SpanId} {out : SpanId → Prop}
    (h : Owned m table out) :
    m.frameManager.freeFrames.length ≤ m.frameManager.totalFrameCount := by
  have hsub : m.frameManager.freeFrames ⊆ List.range m.frameManager.totalFrameCount := by
    intro frame hframe
    exact List.mem_range.mpr (h.free_lt frame hframe)
  have hle := (h.free_nodup.subperm hsub).length_le
  simpa using hle

/-- In every state of a run in which `Reset` only comes while no request is
live, the GPU frames are accounted for. -/
theorem gpu_framesAccounted (h : Reachable cfg s) : FramesAccounted s.gpu := by
  have hinv := (inv_of_reachable h).gpu
  have howned := hinv.wf.owned
  refine
    { placed := ?_
      requested := fun span hs => howned.frame_busy span (Or.inr hs)
      cached := fun span hs => howned.frame_busy span (Or.inl hs)
      nodup := howned.free_nodup
      count := howned.count_eq
      count_le := ?_ }
  · intro frame hframe
    rcases hinv.covered frame hframe with hfree | ⟨span, hheld, heq⟩
    · exact Or.inl hfree
    · exact Or.inr ⟨span, hheld.symm, heq⟩
  · have hle := howned.free_le
    unfold countFreeFrame countFrame
    rw [howned.count_eq]
    exact Int.ofNat_le.mpr hle

/-- A request with one complete block that is still live. -/
def oneLiveRequest : List (Call Nat) :=
  .alone (.start 1 (firstTokens 17) (firstTokens 17) blockContent 1 1) ::
    extend 1 (firstTokens 17) 17 0 1

theorem gpu_framesAccounted_live : ∃ s : State (listSet NodeId) Nat,
    Reachable oneLayer s ∧ s.gpu.slots.length = 4 ∧ s.gpu.union.tableSpans.length = 2 ∧
      FramesAccounted s.gpu := by
  obtain ⟨s, hs, hp⟩ := exists_reachable oneLayer (Allowed oneLayer) 8 8 oneLiveRequest
    (fun s => decide (s.gpu.slots.length = 4 ∧ s.gpu.union.tableSpans.length = 2))
    (by decide +kernel)
  obtain ⟨hslots, htable⟩ := of_decide_eq_true hp
  exact ⟨s, hs, hslots, htable, gpu_framesAccounted hs⟩

def Action.isReset : Action D → Bool
  | .reset => true
  | _ => false

/-- The calls of a run in which `Reset` may come at any time. -/
def AllowedAnyReset (cfg : Config) (s : State E D) (action : Action D) : Prop :=
  action.isReset = true ∨ Allowed cfg s action

instance (cfg : Config) (s : State E D) (action : Action D) :
    Decidable (AllowedAnyReset cfg s action) :=
  inferInstanceAs (Decidable (_ ∨ _))

/-- A `Reset` beside a live request frees the spans that the request shares
with the table. -/
theorem reset_frees_requested : ∃ s : State (listSet NodeId) Nat,
    Reach (Initial oneLayer) (fun s (call : Call Nat) => AllowedAnyReset oneLayer s call.action)
      (Step oneLayer) s ∧ ¬ FramesAccounted s.gpu := by
  obtain ⟨t, ht, hp⟩ := exists_reachable oneLayer (AllowedAnyReset oneLayer) 8 8
    (oneLiveRequest ++ [.alone .reset]) (fun t => decide (∃ span ∈ t.gpu.slots,
      t.gpu.union.spanManager.frameOf span ∈
        t.gpu.union.spanManager.frameManager.freeFrames)) (by decide +kernel)
  obtain ⟨span, hspan, hfree⟩ := of_decide_eq_true hp
  refine ⟨t, ht, ?_⟩
  intro haccounted
  exact haccounted.requested span hspan hfree

/-- The evictor of a union: its sequence is ordered as the nodes stand, its
members are the unreferenced nodes of the table, taking a member out takes out
that one, and the victim is a smallest node of the table. -/
structure EvictorLaw (u : CacheUnion E) : Prop where
  ordered : Ascending (nodeComparator u.nodes) u.candidates
  members : ∀ n, n ∈ u.candidates ↔ (∃ hash, u.lookup hash = some n) ∧ (u.nodes n).refCnt = 0
  del : ∀ n ∈ u.candidates, (u.evictorDel n).candidates = u.candidates.filter (· ≠ n)
  victim : ∀ hash, u.findVictim = some hash → ∃ n ∈ u.candidates, u.lookup hash = some n ∧
    ∀ m ∈ u.candidates, m = n ∨ nodeComparator u.nodes n m = true

theorem CacheUnion.Evictable.law {u : CacheUnion E} {layerNum : Nat} {out : SpanId → Prop}
    (he : Evictable u) (hwf : Wf layerNum u out) : EvictorLaw u := by
  refine
    { ordered := he.ascending
      members := ?_
      del := fun n hn => he.candidates_evictorDel ((he.mem_iff n).mp hn).1
      victim := ?_ }
  · intro n
    rw [he.mem_iff n]
    constructor
    · rintro ⟨hl, href⟩
      exact ⟨⟨_, hl⟩, href⟩
    · rintro ⟨⟨hash, hl⟩, href⟩
      exact ⟨hwf.self hl, href⟩
  · intro hash hvictim
    unfold findVictim at hvictim
    cases hcand : u.candidates with
    | nil =>
        rw [hcand] at hvictim
        cases hvictim
    | cons n rest =>
        have hasc := he.ascending
        rw [hcand] at hvictim hasc
        cases hvictim
        have hn : n ∈ u.candidates := by
          rw [hcand]
          exact List.mem_cons_self ..
        refine ⟨n, List.mem_cons_self .., ((he.mem_iff n).mp hn).1, ?_⟩
        intro m hm
        rcases List.mem_cons.mp hm with rfl | hm
        · exact Or.inl rfl
        · exact Or.inr ((List.pairwise_cons.mp hasc).1 m hm)

/-- Both evictors are in order in every state of a run; the CPU's as long as no
timestamp of a node it stores was moved. -/
theorem evictors_lawful (h : Reachable cfg s) :
    EvictorLaw s.gpu.union ∧ (NoTouch s.cpu.log → EvictorLaw s.cpu.union) := by
  have hinv := inv_of_reachable h
  exact ⟨hinv.gpu.balanced.evictable.law hinv.gpu.wf,
    fun hno => (hinv.cpu.evictable hno).law hinv.cpu.wf⟩

/-- Tokens of another prompt. -/
def otherTokens (count : Nat) : List Token := (firstTokens count).map (· + 100)

/-- Two prompts of one block each, both swapped out. -/
def twoSwappedOut : List (Call Nat) :=
  serve 1 (firstTokens 17) blockContent 1 ++ serve 2 (otherTokens 17) blockContent 2 ++
    [.alone (.evictAllUnrefered 3)]

theorem evictors_lawful_swapped : ∃ s : State (listSet NodeId) Nat, Reachable oneLayer s ∧
    s.cpu.union.candidates.length = 2 ∧ EvictorLaw s.gpu.union ∧ EvictorLaw s.cpu.union := by
  obtain ⟨s, hs, hp⟩ := exists_reachable oneLayer (Allowed oneLayer) 8 8 twoSwappedOut
    (fun s => decide (s.cpu.union.candidates.length = 2 ∧ s.cpu.log = [])) (by decide +kernel)
  obtain ⟨hlen, hlog⟩ := of_decide_eq_true hp
  obtain ⟨hgpu, hcpu⟩ := evictors_lawful hs
  exact ⟨s, hs, hlen, hgpu, hcpu (by rw [hlog]; simp [NoTouch])⟩

/-- `RefOnly` on the older of two nodes in the CPU evictor leaves it first and
makes it the younger. -/
theorem refOnly_unsorts_cpu_evictor : ∃ s : State (listSet NodeId) Nat,
    Reachable oneLayer s ∧ ¬ EvictorLaw s.cpu.union := by
  obtain ⟨s, hs, hp⟩ := exists_reachable oneLayer (Allowed oneLayer) 8 8
    (twoSwappedOut ++ [.alone (.refOnly 3 (firstTokens 17) blockContent 4)])
    (fun s => decide (¬ Ascending (nodeComparator s.cpu.union.nodes) s.cpu.union.candidates))
    (by decide +kernel)
  exact ⟨s, hs, fun hlaw => of_decide_eq_true hp hlaw.ordered⟩

/-- Whenever a node was removed from the GPU table, nothing referenced it: its
count was zero, and no live request had it in its vector. -/
theorem removed_unreferenced (h : Reachable cfg s) {n : NodeId} {refCnt : Int} {holders : Nat}
    (hremoved : GpuEvent.removed n refCnt holders ∈ s.gpu.log) : refCnt = 0 ∧ holders = 0 :=
  (inv_of_reachable h).gpu.balanced.removed hremoved

theorem removed_unreferenced_swapped : ∃ (s : State (listSet NodeId) Nat) (refCnt : Int)
    (holders : Nat), Reachable oneLayer s ∧ GpuEvent.removed 0 refCnt holders ∈ s.gpu.log ∧
      refCnt = 0 ∧ holders = 0 := by
  obtain ⟨s, hs, hp⟩ := exists_reachable oneLayer (Allowed oneLayer) 8 8 twoSwappedOut
    (fun s => decide (GpuEvent.removed 0 0 0 ∈ s.gpu.log)) (by decide +kernel)
  have hmem := of_decide_eq_true hp
  exact ⟨s, 0, 0, hs, hmem, removed_unreferenced hs hmem⟩

/-- The calls in which no `RefFill` brings two blocks back under one hash. -/
def DistinctHits (cfg : Config) (s : State E D) : Action D → Prop
  | .start _ tokens tokensForHash _ _ _ =>
      Restores cfg s (promptHashes cfg tokens tokensForHash) →
        (cpuHits s (promptHashes cfg tokens tokensForHash)).Nodup
  | _ => True

instance (cfg : Config) (s : State E D) (action : Action D) :
    Decidable (DistinctHits cfg s action) :=
  match action with
  | .start .. => inferInstanceAs (Decidable (_ → _))
  | .refOnly .. | .getCache .. | .computeBlock .. | .insert .. | .stop .. | .evictUnrefered ..
  | .evictAllUnrefered .. | .reset | .setSeqlenThre .. | .warmup .. | .stepTask .. =>
      isTrue trivial

def ReachableDistinct (cfg : Config) : State E D → Prop :=
  Reach (Initial cfg)
    (fun s (call : Call D) => Allowed cfg s call.action ∧ DistinctHits cfg s call.action)
    (Step cfg)

private theorem ReachableDistinct.by (h : ReachableDistinct cfg s) :
    ReachableBy cfg { ordered := False, distinct := True, Good := fun _ _ => True } s := by
  refine Reach.weaken ?_ h
  rintro s call ⟨hallowed, hdistinct⟩
  refine ⟨hallowed, ?_⟩
  cases hcall : call.action with
  | start =>
      rw [hcall] at hdistinct
      exact ⟨fun hf => hf.elim, fun _ => hdistinct⟩
  | insert => exact fun _ _ _ _ => trivial
  | _ => trivial

/-- The count of a table node is the number of its uses in the vectors of live
requests; so it is never negative, and zero once every holder is gone. -/
def CountsExact (g : GpuSide E D) : Prop :=
  ∀ hash n, g.union.lookup hash = some n → (g.union.nodes n).refCnt = g.entries.count n ∧
    0 ≤ (g.union.nodes n).refCnt ∧ (n ∉ g.entries → (g.union.nodes n).refCnt = 0)

/-- In every run in which no `RefFill` brings two blocks back under one hash,
reference counts are exact in every state. -/
theorem refCnt_exact (h : ReachableDistinct cfg s) : CountsExact s.gpu := by
  have hinv := inv_of_reachableBy h.by
  have hno := hinv.noClash trivial
  intro hash n hl
  have hcount := hinv.gpu.balanced.count_eq hno hl
  refine ⟨hcount, ?_, ?_⟩
  · rw [hcount]
    exact Int.natCast_nonneg _
  · intro hout
    rw [hcount, List.count_eq_zero.mpr hout]
    rfl

/-- Two requests hold the node of their common block. -/
def sharedBlock : List (Call Nat) :=
  oneLiveRequest ++ [.alone (.start 2 (firstTokens 33) (firstTokens 33) blockContent 2 2)]

theorem refCnt_exact_shared : ∃ s : State (listSet NodeId) Nat, ReachableDistinct oneLayer s ∧
    s.gpu.entries = [0, 0] ∧ CountsExact s.gpu := by
  obtain ⟨s, hs, hp⟩ := exists_reachable oneLayer
    (fun s action => Allowed oneLayer s action ∧ DistinctHits oneLayer s action) 8 8 sharedBlock
    (fun s => decide (s.gpu.entries = [0, 0])) (by decide +kernel)
  exact ⟨s, hs, of_decide_eq_true hp, refCnt_exact hs⟩

/-- Two complete blocks of a prompt whose hashes collide. -/
def collidingTokens : List Token := firstTokens 30 ++ [63525, 19178, 0]

/-- The first of the two blocks is on the CPU, and the prompt is filled. -/
def collidingHits : List (Call Nat) :=
  serve 1 (firstTokens 17) blockContent 1 ++ [.alone (.evictAllUnrefered 2)] ++ runCopy 0 ++
    [.alone (.start 2 collidingTokens collidingTokens blockContent 3 3)]

/-- The one node that entered the table is counted for the one that did not. -/
theorem refCnt_counts_colliding : ∃ s : State (listSet NodeId) Nat,
    Reachable oneLayer s ∧ ¬ CountsExact s.gpu := by
  obtain ⟨s, hs, hp⟩ := exists_reachable oneLayer (Allowed oneLayer) 8 8 collidingHits
    (fun s => (s.gpu.union.lookup (hashTokens (firstTokens 16))).any (fun n =>
      decide ((s.gpu.union.nodes n).refCnt ≠ s.gpu.entries.count n))) (by decide +kernel)
  obtain ⟨n, hl, hne⟩ := (Option.any_eq_true ..).mp hp
  exact ⟨s, hs, fun hexact => of_decide_eq_true hne (hexact _ n hl).1⟩

end DashInfer.Cache
