import DashInfer.Cache.FrameBalance

/-!
The CPU frames over a run. Of the operations only evictions on the GPU and the
room that `RefFill` makes swap anything out; `Insert` never does, because a
table sized by its frames has room for every block a request holds. Every
other operation leaves the CPU frames alone, and `Reset` gives those of the
table back.
-/

namespace DashInfer.Cache

open Lib CacheUnion PrefixCacheManager

variable {E : OrderedSet NodeId} {D : Type} {cfg : Config} {s t : State E D} {r : ReqId}

theorem not_overruns_nil (u : CacheUnion E) : ¬ u.Overruns cfg [] := by
  rintro (⟨-, hshort⟩ | ⟨-, -, hshort⟩)
  · exact not_runsShort_zero _ hshort
  · exact not_runsShort_zero _ hshort

theorem swapBalance_of_same {u u' : CacheUnion E} (h : SameFrames u u') :
    SwapBalance cfg u u' [] 0 :=
  ⟨h.countFrame, h.capacity, Or.inl ⟨frames_congr h, not_overruns_nil u⟩⟩

/-- What a call leaves of the CPU frames when it swaps the hashes out. -/
def Balances {α : Type} (cfg : Config) (s : State E D) (hashes : List Hash) (x : Prog E D α) :
    Prop :=
  Post x s (fun _ t => SwapBalance cfg s.cpu.union t.cpu.union hashes 0)
    (fun e t => e = .blocked ∨ e = .badIndex ∨
      SwapBalance cfg s.cpu.union t.cpu.union hashes 0)

theorem Moves.balances {α : Type} {x : Prog E D α} (h : Moves FramesStill x) (s : State E D) :
    Balances cfg s [] x :=
  (h s).imp (fun _ _ ht => swapBalance_of_same ht)
    (fun _ _ ht => Or.inr (Or.inr (swapBalance_of_same ht)))

/-- What follows a swap-out without claiming or inserting changes nothing. -/
theorem SwapBalance.still {u v w : CacheUnion E} {hashes : List Hash}
    (h : SwapBalance cfg u v hashes 0) (hsame : SameFrames v w) : SwapBalance cfg u w hashes 0 := by
  obtain ⟨htotal, hcap, hframes⟩ := h
  refine ⟨hsame.countFrame.trans htotal, hsame.capacity.trans hcap, ?_⟩
  rw [frames_congr hsame]
  exact hframes

/-- What comes before a swap-out without claiming or inserting changes nothing. -/
theorem SwapBalance.after {u v w : CacheUnion E} {hashes : List Hash}
    (h : SwapBalance cfg v w hashes 0) (hsame : SameFrames u v)
    (hfind : v.findVictim = u.findVictim) : SwapBalance cfg u w hashes 0 := by
  obtain ⟨htotal, hcap, hframes⟩ := h
  refine ⟨htotal.trans hsame.countFrame, hcap.trans hsame.capacity, ?_⟩
  rw [← frames_congr hsame, ← overruns_congr hsame hfind]
  exact hframes

theorem Balances.bind {α β : Type} {hashes : List Hash} {x : Prog E D α} {f : α → Prog E D β}
    (hx : Balances cfg s hashes x) (hf : ∀ a, Moves FramesStill (f a)) :
    Balances cfg s hashes (x >>= f) := by
  unfold Balances at hx ⊢
  rw [post_bind]
  apply hx.imp _ (fun _ _ he => he)
  intro a t ht
  exact (hf a t).imp (fun _ _ hsame => ht.still hsame)
    (fun _ _ hsame => Or.inr (Or.inr (ht.still hsame)))

theorem Balances.after {α : Type} {hashes : List Hash} {x : Prog E D α}
    (h : Balances cfg t hashes x) (hsame : SameFrames s.cpu.union t.cpu.union)
    (hfind : t.cpu.union.findVictim = s.cpu.union.findVictim) :
    Post x t (fun _ v => SwapBalance cfg s.cpu.union v.cpu.union hashes 0)
      (fun e v => e = .blocked ∨ e = .badIndex ∨
        SwapBalance cfg s.cpu.union v.cpu.union hashes 0) :=
  h.imp (fun _ _ hv => hv.after hsame hfind)
    (fun _ _ he => he.imp id (Or.imp id (fun hv => hv.after hsame hfind)))

section Eviction

variable {P : Premise D}

theorem still_deleteMultinodes (hashes : List Hash) :
    Moves FramesStill (deleteMultinodes hashes : Prog E D Unit) :=
  moves_forEach still_deleteGpuNode hashes

/-- Eviction on the GPU swaps out the victims that are not too old. -/
theorem balances_evictUnreferedByNum (nodeNum : Int) (now : Nat) (h : Inv cfg P s Settled) :
    Balances cfg s (swapVictims cfg now s.gpu.union nodeNum)
      (evictUnreferedByNum cfg nodeNum now) := by
  have hv := victims_evictVictims h.gpu.balanced.evictable nodeNum
  unfold Balances evictUnreferedByNum
  rw [post_bind, post_get]
  unfold findMultiVictims
  dsimp only
  split
  · next hnone =>
      split at hnone
      · next hneg =>
          have hnil : swapVictims cfg now s.gpu.union nodeNum = [] := by
            unfold swapVictims evictVictims
            rw [Int.toNat_of_nonpos (by omega)]
            rfl
          rw [hnil]
          exact Or.inr (Or.inr (swapBalance_of_same (SameFrames.refl _)))
      · cases hnone
  · next victims hsome =>
      split at hsome
      · cases hsome
      · cases hsome
        rw [post_bind]
        apply (post_filterTimeoutHash now _ h hv).imp _ (fun _ _ hfalse => hfalse.elim)
        rintro kept t ⟨ht, hcpu, -, hkept, hvictims, -⟩
        have htcpu : t.cpu = s.cpu := by rw [hcpu]
        have hcached : ∀ hash ∈ kept, ∃ n, t.gpu.union.lookup hash = some n := by
          intro hash hmem
          obtain ⟨n, hn, -⟩ := hvictims.cached hash hmem
          exact ⟨n, hn⟩
        rw [post_bind]
        apply (post_swapToCpuByHashlist_frames kept ht.cpu ht.gpu.wf hvictims.nodup hcached).imp
        · intro _ v hv
          rw [htcpu, hkept] at hv
          exact (still_deleteMultinodes kept v).imp (fun _ w hw => hv.still hw)
            (fun _ w hw => Or.inr (Or.inr (hv.still hw)))
        · rintro e v (he | hv)
          · exact Or.inl he
          · rw [htcpu, hkept] at hv
            exact Or.inr (Or.inr hv)

/-- The hashes swapped out while `RefFill` makes room for its CPU hits. -/
def fillHashes (cfg : Config) (now : Nat) (s : State E D) (hashes : List Hash) : List Hash :=
  let exceedNum : Int := s.gpu.union.size + (cpuHits s hashes).length - s.gpu.union.capacity
  if Restores cfg s hashes ∧ 0 < exceedNum then
    (((s.gpu.union.candidates.map (fun n => (s.gpu.union.nodes n).hash)).filter
      (fun hash => decide (hash ∉ gpuHits s hashes))).take exceedNum.toNat).filter
      (fun hash => !expired cfg now s.gpu.union hash)
  else []

/-- The lookup loop of `RefFill` waits for a copy for ever, or leaves a layer's
bounds, and faults in no other way. -/
theorem faults_refFillBlocks (tokens : List Token) (ts : Nat) (list : List (Nat × Nat))
    (nodeVecCpu : List NodeId) (uncachedIdx : Nat) :
    Post (refFillBlocks cfg r tokens ts list nodeVecCpu uncachedIdx) s (fun _ _ => True)
      (fun e _ => e = .blocked ∨ e = .badIndex) := by
  induction list generalizing s nodeVecCpu uncachedIdx with
  | nil => exact trivial
  | cons block rest ih =>
      obtain ⟨i, cacheIdx⟩ := block
      unfold refFillBlocks
      rw [post_bind, post_get]
      split
      · unfold fillFromNode
        simp only [post_bind, post_modifyGpu, post_modifyCpu, post_get]
        split
        · exact ih _ _
        · exact Or.inr rfl
      · split
        · simp only [interleave, post_bind, post_modify, post_get]
          split
          · exact ih _ _
          · exact Or.inl rfl
        · exact trivial

theorem balances_makeRoom (now count : Nat) (h : Inv cfg P s Settled) :
    Balances cfg s
      (if 0 < ((s.gpu.union.size : Int) + count - s.gpu.union.capacity) then
        swapVictims cfg now s.gpu.union (s.gpu.union.size + count - s.gpu.union.capacity)
      else [])
      (makeRoom cfg now count) := by
  unfold Balances makeRoom
  rw [post_bind, post_get]
  dsimp only
  split
  · exact balances_evictUnreferedByNum _ now h
  · exact swapBalance_of_same (SameFrames.refl _)

/-- The part of `RefFill` that brings the CPU hits back. -/
theorem balances_refFillFromCpu (ts now : Nat) (list : List NodeId) (h : Inv cfg P s Settled) :
    Balances cfg s
      (if 0 < ((s.gpu.union.size : Int) + list.length - s.gpu.union.capacity) then
        swapVictims cfg now s.gpu.union (s.gpu.union.size + list.length - s.gpu.union.capacity)
      else [])
      (refFillFromCpu cfg r ts now list) := by
  apply (balances_makeRoom now list.length h).bind
  intro _
  apply (still_swapToGpuByNodelist cfg r list).bind
  intro new
  apply moves_forEach
  intro n
  apply moves_get_bind
  intro s
  apply (still_modifyGpu _).bind
  intro _
  exact (still_updateNodeTs _ ts).bind (fun _ => still_modifyGpu _)

/-- The start of a request swaps out what makes room for its CPU hits. -/
theorem balances_start (tokens tokensForHash : List Token) (source : Nat → Nat → D)
    (ts now : Nat) (h : Inv cfg P s Settled) (hr : r ∉ s.gpu.live) :
    Balances cfg s (fillHashes cfg now s (promptHashes cfg tokens tokensForHash)) (do
      let _ ← startRequest cfg r tokens tokensForHash source ts now) := by
  have hopen := h.opened hr tokens source
  unfold Balances
  rw [post_bind, post_startRequest_iff, post_bind]
  apply ((post_openedBlocks tokens tokensForHash source ts h hr).and
    (faults_refFillBlocks tokensForHash ts (blocks cfg 0 tokens.length) [] 0)).imp
  swap
  · rintro e t ⟨-, he⟩
    exact he.imp id Or.inl
  rintro ⟨nodeVecCpu, uncachedIdx⟩ t ⟨⟨ht, hthre, -, found, hlooked⟩, -⟩
  dsimp only at hlooked
  have hcond : (nodeVecCpu ≠ [] ∧ t.seqLenThre ≤ ↑(nodeVecCpu.length * cfg.tokenPerSpan)) ↔
      Restores cfg s (promptHashes cfg tokens tokensForHash) := hlooked.restores_iff hthre
  have hsame : SameFrames s.cpu.union t.cpu.union :=
    ⟨hlooked.still.hashTable, hlooked.still.capacity, hlooked.still.spanManager⟩
  have hfind : t.cpu.union.findVictim = s.cpu.union.findVictim :=
    findVictim_congr hlooked.still.evictor hlooked.still.hash
  have hfill : fillHashes cfg now s (promptHashes cfg tokens tokensForHash) =
      if Restores cfg s (promptHashes cfg tokens tokensForHash) then
        if 0 < ((t.gpu.union.size : Int) + nodeVecCpu.length - t.gpu.union.capacity) then
          swapVictims cfg now t.gpu.union
            (t.gpu.union.size + nodeVecCpu.length - t.gpu.union.capacity)
        else []
      else [] := by
    have hcount : nodeVecCpu.length =
        (cpuHits s (promptHashes cfg tokens tokensForHash)).length :=
      hlooked.cpu.length_eq.symm
    have hsize : t.gpu.union.size = s.gpu.union.size := hlooked.kept.size
    have hcap : t.gpu.union.capacity = s.gpu.union.capacity := hlooked.kept.capacity
    unfold fillHashes
    rw [hsize, hcap, hcount, hlooked.swapVictims_eq hopen now]
    by_cases hrest : Restores cfg s (promptHashes cfg tokens tokensForHash)
    · simp only [hrest, true_and, if_true]
      rfl
    · simp only [hrest, false_and, if_false]
  rw [hfill, post_bind, post_get]
  by_cases hrest : nodeVecCpu ≠ [] ∧ t.seqLenThre ≤ ↑(nodeVecCpu.length * cfg.tokenPerSpan)
  · rw [if_pos (hcond.mp hrest)]
    simp only [if_pos hrest]
    exact ((balances_refFillFromCpu ts now nodeVecCpu ht).bind
      (fun _ => (still_modifyGpu _).bind (fun _ => moves_pure _))).after hsame hfind
  · rw [if_neg (fun hyes => hrest (hcond.mpr hyes))]
    simp only [if_neg hrest]
    exact swapBalance_of_same hsame

/-- `Insert` swaps nothing out: its loop names no victim. -/
theorem balances_insert (tokens : List Token) (startIdx ts now : Nat)
    (h : Inv cfg P s Settled) (hr : r ∈ s.gpu.live) (hk : (s.gpu.ctx r).virtualK ≠ [])
    (hoff : blocks cfg startIdx tokens.length ≠ [] →
      (s.gpu.ctx r).offered ≤ startIdx / cfg.tokenPerSpan)
    (hgood : GoodBlocks cfg P.Good (s.gpu.ctx r) tokens (blocks cfg startIdx tokens.length)) :
    Balances cfg s [] (insert cfg r tokens startIdx ts now) := by
  have hidx : (blocks cfg startIdx tokens.length).map Prod.snd =
      List.range' (startIdx / cfg.tokenPerSpan) (blocks cfg startIdx tokens.length).length := by
    rw [blocks_eq, List.map_map, List.length_map, List.length_range, List.range'_eq_map_range]
    rfl
  unfold Balances PrefixCacheManager.insert
  rw [post_bind]
  apply ((post_insertBlocks tokens _ _ hidx h hr hk hoff hgood).and
    (moves_foldEach (still_insertBlock cfg r tokens ts) _ _ s)).imp
  · rintro v t ⟨⟨rfl, ht⟩, hsame⟩
    exact swapBalance_of_same hsame
  · rintro e t ⟨-, hsame⟩
    exact Or.inr (Or.inr (swapBalance_of_same hsame))

end Eviction

/-- `Reset` gives the frames of every table node back. -/
theorem reset_frames {u : CacheUnion E} {out : SpanId → Prop} (h : Wf cfg.layerNum u out) :
    u.reset.frames cfg = u.frames cfg ∧ u.reset.countFrame = u.countFrame ∧
      u.reset.capacity = u.capacity := by
  have hentries : ∀ (es : List (Sigma (fun _ : Hash => NodeId))) (v : CacheUnion E),
      (∀ e ∈ es, v.lookup e.1 = some e.2) →
      ((es.map Sigma.fst).foldl resetEntry v).free =
        v.free + (es.flatMap (fun e => (v.nodes e.2).spans)).length := by
    intro es
    induction es with
    | nil => exact fun v _ => rfl
    | cons e rest ih =>
        intro v hes
        rw [List.map_cons, List.foldl_cons, resetEntry_eq (hes e (List.mem_cons_self ..)), ih]
        · unfold CacheUnion.free
          rw [SpanManager.releaseSpans_unset, List.flatMap_cons, List.length_append]
          simp
          omega
        · exact fun e' he' => hes e' (List.mem_cons_of_mem _ he')
  obtain ⟨m', heq, htotal, -⟩ := reset_spec u
  have hfree : u.reset.free = u.free + u.tableSpans.length :=
    hentries u.hashTable.entries u (fun e he => mem_entries_iff.mp he)
  have hsize : u.reset.size = 0 := by
    rw [heq]
    rfl
  refine ⟨?_, ?_, ?_⟩
  · unfold frames
    rw [hfree, hsize, h.tableSpans_length, Nat.mul_zero, Nat.add_zero, Nat.mul_comm]
    rfl
  · rw [heq]
    exact htotal
  · rw [heq]

theorem balances_reset {P : Premise D} (h : Inv cfg P s Settled) :
    Balances cfg s [] (reset : Prog E D Unit) := by
  have haside := aside_interleave s
  obtain ⟨honly, -⟩ := interleave_onlyCpu h.cpu
  unfold Balances PrefixCacheManager.reset waitForAsyncTasks
  simp only [interleave, post_bind, post_modify, post_get]
  split
  · simp only [post_pure, post_modifyGpu, post_modifyCpu]
    obtain ⟨hframes, htotal, hcap⟩ := reset_frames honly.cpu.wf
    have hsame := SameFrames.of_aside haside
    refine ⟨htotal.trans hsame.countFrame, hcap.trans hsame.capacity,
      Or.inl ⟨?_, not_overruns_nil _⟩⟩
    exact hframes.trans (frames_congr hsame)
  · exact Or.inl rfl

/-- The hashes a call swaps out. -/
def swapHashes (cfg : Config) (s : State E D) : Action D → List Hash
  | .start _ tokens tokensForHash _ _ now =>
      fillHashes cfg now s (promptHashes cfg tokens tokensForHash)
  | .evictUnrefered target now =>
      swapVictims cfg now s.gpu.union
        ((target - s.gpu.union.countFreeFrame + cfg.layerNum * 2 - 1).tdiv (cfg.layerNum * 2))
  | .evictAllUnrefered now => swapVictims cfg now s.gpu.union s.gpu.union.candidates.length
  | _ => []

/-- Every operation, one case per action. -/
theorem balances_exec (action : Action D) (h : Inv cfg (Premise.none D) s Settled)
    (hallowed : Allowed cfg s action) :
    Balances cfg s (swapHashes cfg s action) (exec cfg action) := by
  cases action with
  | start r tokens tokensForHash source ts now =>
      exact balances_start tokens tokensForHash source ts now h hallowed
  | refOnly r tokens source ts =>
      apply Moves.balances
      apply Moves.bind
      · exact (still_modifyGpu _).bind (fun _ => still_refOnlyBlocks cfg r tokens ts _ _)
      · exact fun _ => moves_pure _
  | getCache r isV layer increment =>
      exact Moves.balances (still_getCache cfg r isV layer increment) s
  | computeBlock r cacheIdx => exact swapBalance_of_same (SameFrames.refl _)
  | insert r tokens startIdx ts now =>
      exact balances_insert tokens startIdx ts now h hallowed.1 hallowed.2.1 hallowed.2.2
        (fun _ _ _ _ => trivial)
  | stop r => exact Moves.balances (still_stopRequest r) s
  | evictUnrefered target now =>
      unfold exec PrefixCacheManager.evictUnrefered Balances
      rw [post_bind, post_get]
      exact balances_evictUnreferedByNum _ now h
  | evictAllUnrefered now =>
      unfold exec PrefixCacheManager.evictAllUnrefered Balances
      rw [post_bind, post_get]
      exact balances_evictUnreferedByNum _ now h
  | reset => exact balances_reset h
  | setSeqlenThre thre => exact swapBalance_of_same (SameFrames.refl _)
  | warmup count => exact swapBalance_of_same (SameFrames.refl _)
  | stepTask i =>
      have haside : Aside s.cpu (s.cpu.stepTask i) := aside_stepTask i
      exact swapBalance_of_same (SameFrames.of_aside haside)

theorem swapHashes_withSchedule (s : State E D) (schedule : List (List Nat)) (action : Action D) :
    swapHashes cfg { s with schedule } action = swapHashes cfg s action := by
  cases action <;> rfl

/-- A step of a run keeps the frames that are free or in table nodes exactly
when what it swaps out is not one node too many. -/
theorem step_balances {call : Call D} (h : Inv cfg (Premise.none D) s Settled)
    (hallowed : Allowed cfg s call.action) (hstep : Step cfg call s t) :
    SwapBalance cfg s.cpu.union t.cpu.union (swapHashes cfg s call.action) 0 := by
  have hallowed' : Allowed cfg { s with schedule := call.schedule } call.action := by
    cases hcall : call.action <;> rw [hcall] at hallowed <;> exact hallowed
  have hpost := balances_exec call.action (h.withSchedule call.schedule) hallowed'
  rw [swapHashes_withSchedule] at hpost
  unfold Step Call.run at hstep
  split at hstep
  · next hrun =>
      rw [hstep]
      exact hpost.of_ok hrun
  · next hrun =>
      obtain ⟨hblocked, hindex, rfl⟩ := hstep
      rcases hpost.of_error hrun with he | he | ht
      · exact absurd he hblocked
      · exact absurd he hindex
      · exact ht

/-- The runs in which no call swaps out one node too many. -/
def ReachableBalanced (cfg : Config) : State E D → Prop :=
  Reach (Initial cfg)
    (fun s (call : Call D) => Allowed cfg s call.action ∧
      ¬ s.cpu.union.Overruns cfg (swapHashes cfg s call.action))
    (Step cfg)

theorem reachable_of_balanced (h : ReachableBalanced cfg s) : Reachable cfg s :=
  Reach.weaken (fun _ _ hguard => hguard.1) h

theorem frames_init (frames : Nat) :
    (CacheUnion.init E frames cfg.layerNum).frames cfg =
      (CacheUnion.init E frames cfg.layerNum).countFrame := by
  obtain ⟨hqueue, -, htotal⟩ := FrameManager.growBy_eq
    { freeFrames := [], freeFrameCount := 0, totalFrameCount := 0 } frames
  have hfree : (FrameManager.init frames).freeFrames.length = frames := by
    rw [FrameManager.init, hqueue]
    simp
  have hcount : (FrameManager.init frames).totalFrameCount = frames :=
    htotal.trans (Nat.zero_add _)
  change (FrameManager.init frames).freeFrames.length + cfg.spanPerNode * 0 =
    (FrameManager.init frames).totalFrameCount
  rw [hfree, hcount, Nat.mul_zero, Nat.add_zero]

/-- Between the calls of such a run every CPU frame is free or a table node's. -/
theorem frames_of_balanced (h : ReachableBalanced cfg s) :
    s.cpu.union.frames cfg = s.cpu.union.countFrame := by
  have hboth : Inv cfg (Premise.none D) s Settled ∧
      s.cpu.union.frames cfg = s.cpu.union.countFrame := by
    refine Reach.invariant (I := fun s => Inv cfg (Premise.none D) s Settled ∧
      s.cpu.union.frames cfg = s.cpu.union.countFrame) ?_ ?_ h
    · intro s hinit
      refine ⟨inv_of_initial hinit, ?_⟩
      obtain ⟨frames, hunion⟩ := hinit.cpuUnion
      rw [hunion]
      exact frames_init frames
    · rintro s t call ⟨hinv, hframes⟩ ⟨hallowed, hfit⟩ hstep
      obtain ⟨htotal, -, hkept⟩ := step_balances hinv hallowed hstep
      refine ⟨inv_of_step hinv hallowed (respects_none s call.action) hstep, ?_⟩
      rw [htotal, ← hframes]
      rcases hkept with ⟨hsame, -⟩ | ⟨-, hover⟩
      · exact hsame
      · exact absurd hover hfit
  exact hboth.2

/-- The nodes a swap-out has allocated own the frames that are neither free
nor a table node's. -/
theorem Swapping.frames {start : State E D → Prop}
    (hstart : ∀ s, start s → CpuInv cfg s.cpu [] [] ∧
      s.cpu.union.frames cfg = s.cpu.union.countFrame)
    {batch : List NodeId} (h : Swapping cfg start s batch) :
    s.cpu.union.free + cfg.spanPerNode * (s.cpu.union.size + batch.length) =
      s.cpu.union.countFrame := by
  induction h with
  | @call s _ h => exact (hstart s h).2
  | @touch s batch hash ts h ih =>
      have hsame : SameFrames s.cpu.union (s.cpu.updateNodeTs hash ts).union :=
        SameFrames.of_kept (kept_updateNodeTs ts hash)
      change (s.cpu.updateNodeTs hash ts).union.free + _ * ((s.cpu.updateNodeTs hash ts).union.size
        + _) = (s.cpu.updateNodeTs hash ts).union.countFrame
      rw [hsame.free, hsame.size, hsame.countFrame]
      exact ih
  | @alloc s t batch n prefixLen ts hash h habsent hfresh hrun ih =>
      have hinv := h.inv (fun s hs => (hstart s hs).1)
      obtain ⟨htotal, -, -, -, -, -, hfree, -, -⟩ :=
        (post_allocCpuNode_frames hinv.wf hinv.countFreeFrame prefixLen ts hash).of_ok hrun
      rw [htotal, ← ih, List.length_append, List.length_singleton]
      simp only [Nat.mul_add] at hfree ⊢
      omega

/-- Whether a refused call may leave fewer frames than it found. -/
theorem refused_keeps_iff {batch : List NodeId} (h : CpuInv cfg s.cpu batch []) :
    (∀ prefixLen ts hash t,
        (allocCpuNode cfg.layerNum prefixLen ts hash).run s = .ok none t →
          s.cpu.union.free ≤ t.cpu.union.free) ↔
      ¬ s.cpu.union.HalfClaims cfg := by
  have hlayer := cfg.layerNum_pos
  constructor
  · intro hkeeps hhalf
    have hpost := post_allocCpuNode_frames h.wf h.countFreeFrame 0 0 0
    have hfull : ¬ s.cpu.union.Evicts := fun hevicts => absurd hevicts.1 (Nat.not_le.mpr hhalf.1)
    cases hrun : (allocCpuNode cfg.layerNum 0 0 0).run s with
    | error e t => exact hfull (hpost.of_error hrun).2.1.1
    | ok result t =>
        obtain ⟨-, -, -, -, hresult⟩ := hpost.of_ok hrun
        cases result with
        | some n =>
            rcases hresult.1 with ⟨-, -, hle⟩ | ⟨hevicts, -⟩
            · exact absurd hhalf.2.2 (Nat.not_lt.mpr hle)
            · exact hfull hevicts
        | none =>
            have hle := hkeeps 0 0 0 t hrun
            obtain ⟨-, -, ⟨-, hlost⟩ | ⟨hnot, -⟩⟩ := hresult
            · omega
            · exact hnot hhalf
  · intro hnot prefixLen ts hash t hrun
    obtain ⟨-, -, -, -, -, -, ⟨hhalf, -⟩ | ⟨-, rfl⟩⟩ :=
      (post_allocCpuNode_frames h.wf h.countFreeFrame prefixLen ts hash).of_ok hrun
    · exact absurd hhalf hnot
    · exact Nat.le_refl _

/-- In runs in which no call swaps out one node too many, every CPU frame is
free, a table node's or a pending node's. A refused allocation then loses
frames only inside a batch that has taken the last place of a table whose
frames leave half a node over; and a call loses frames exactly when it swaps
out one node too many. -/
theorem cpuFrames_conserved (h : ReachableBalanced cfg s) :
    (∀ {u : State E D} {batch : List NodeId}, Swapping cfg (· = s) u batch →
      u.cpu.union.free + cfg.spanPerNode * (u.cpu.union.size + batch.length) =
          u.cpu.union.countFrame ∧
        ((∀ prefixLen ts hash t,
            (allocCpuNode cfg.layerNum prefixLen ts hash).run u = .ok none t →
              u.cpu.union.free ≤ t.cpu.union.free) ↔
          ¬ (batch ≠ [] ∧ u.cpu.union.size + batch.length = u.cpu.union.capacity ∧
            cfg.layerNum ≤ u.cpu.union.countFrame % cfg.spanPerNode))) ∧
      ∀ {call : Call D} {t : State E D}, Allowed cfg s call.action → Step cfg call s t →
        (t.cpu.union.frames cfg = t.cpu.union.countFrame ↔
          ¬ s.cpu.union.Overruns cfg (swapHashes cfg s call.action)) := by
  have hlayer := cfg.layerNum_pos
  have hinv := inv_of_reachable (reachable_of_balanced h)
  have hframes := frames_of_balanced h
  have hstart : ∀ u, u = s → CpuInv cfg u.cpu [] [] ∧
      u.cpu.union.frames cfg = u.cpu.union.countFrame := by
    rintro u rfl
    exact ⟨hinv.cpu, hframes⟩
  constructor
  · intro u batch hswap
    have hcpu := hswap.inv (fun u hu => (hstart u hu).1)
    have haccounted := hswap.frames hstart
    refine ⟨haccounted, ?_⟩
    rw [refused_keeps_iff hcpu, not_iff_not]
    have hdiv := Nat.div_add_mod u.cpu.union.countFrame cfg.spanPerNode
    have hcap : u.cpu.union.capacity = u.cpu.union.countFrame / cfg.spanPerNode := hcpu.capacity
    have hle := hcpu.size_add_le
    have hnode : cfg.spanPerNode = 2 * cfg.layerNum := rfl
    rw [← hcap] at hdiv
    constructor
    · rintro ⟨hroom, hhalf, hlt⟩
      obtain ⟨hquot, hmod⟩ := (Nat.div_mod_unique (by omega)).mpr ⟨haccounted, hlt⟩
      rw [← hcap] at hquot
      refine ⟨?_, hquot.symm, hmod ▸ hhalf⟩
      rintro rfl
      exact absurd hquot.symm (Nat.ne_of_lt hroom)
    · rintro ⟨hbatch, hfull, hhalf⟩
      have hpos : 0 < batch.length := List.length_pos_iff.mpr hbatch
      have hmod : u.cpu.union.countFrame % cfg.spanPerNode < cfg.spanPerNode :=
        Nat.mod_lt _ (by omega)
      rw [hfull] at haccounted
      exact ⟨by omega, by omega, by omega⟩
  · intro call t hallowed hstep
    obtain ⟨htotal, -, hkept⟩ := step_balances hinv hallowed hstep
    rw [htotal, ← hframes]
    rcases hkept with ⟨hsame, hnot⟩ | ⟨hlost, hover⟩
    · exact ⟨fun _ => hnot, fun _ => hsame⟩
    · exact ⟨fun hsame => by omega, fun hnot => absurd hover hnot⟩

section Small

instance (u : CacheUnion E) : Decidable u.VictimCached :=
  decidable_of_iff ((u.findVictim.bind u.lookup).isSome = true) (by
    rw [Option.isSome_iff_exists]
    simp only [Option.bind_eq_some_iff]
    exact ⟨fun ⟨n, hash, h⟩ => ⟨hash, n, h⟩, fun ⟨hash, n, h⟩ => ⟨n, hash, h⟩⟩)

instance (cfg : Config) (u : CacheUnion E) (hashes : List Hash) :
    Decidable (u.Overruns cfg hashes) :=
  inferInstanceAs (Decidable (((_ < _) ∧ _ ∧ _) ∨ ((_ ∧ _ ∧ _) ∧ _ ∧ _ ∧ _)))

/-- Two requests with one complete block each, started one after the other. -/
def twoServed : List (Call Nat) :=
  serve 1 (firstTokens 17) blockContent 1 ++ serve 2 (otherTokens 17) blockContent 2

/-- A host with the frames of two nodes takes both blocks. -/
theorem cpuFrames_conserved_twoNodes : ∃ s : State (listSet NodeId) Nat,
    s.gpu.union.size = 2 ∧ s.cpu.union.countFrame = 4 ∧
      ∀ t, Step oneLayer (.alone (.evictAllUnrefered 3)) s t →
        t.cpu.union.frames oneLayer = t.cpu.union.countFrame := by
  obtain ⟨s, hs, hp⟩ := exists_reachable oneLayer
    (fun s action => Allowed oneLayer s action ∧
      ¬ s.cpu.union.Overruns oneLayer (swapHashes oneLayer s action)) 8 4 twoServed
    (fun s => decide (s.gpu.union.size = 2 ∧ s.cpu.union.countFrame = 4 ∧
      ¬ s.cpu.union.Overruns oneLayer (swapHashes oneLayer s (.evictAllUnrefered 3))))
    (by decide +kernel)
  obtain ⟨hsize, htotal, hfit⟩ := of_decide_eq_true hp
  refine ⟨s, hsize, htotal, ?_⟩
  intro t hstep
  have hallowed : Allowed oneLayer s (Call.alone (.evictAllUnrefered 3)).action := trivial
  exact ((cpuFrames_conserved hs).2 hallowed hstep).mpr hfit

/-- Of two allocations of one batch the first gets a node and the second takes
free frames without getting one. -/
def leaks (s : State (listSet NodeId) Nat) : Bool :=
  match (allocCpuNode oneLayer.layerNum 1 1 7).run { s with schedule := [] } with
  | .ok (some _) u =>
      match (allocCpuNode oneLayer.layerNum 1 1 8).run u with
      | .ok none v => decide (v.cpu.union.free < u.cpu.union.free)
      | _ => false
  | _ => false

/-- A host with the frames of one node and half of another. The second block
of a batch gets no node; its call takes the free frame for the K half and
loses it. -/
theorem refused_alloc_leaks :
    (∃ s t : State (listSet NodeId) Nat, Reachable oneLayer s ∧
      s.cpu.union.frames oneLayer = s.cpu.union.countFrame ∧
      Step oneLayer (.alone (.evictAllUnrefered 3)) s t ∧
      t.cpu.union.frames oneLayer < t.cpu.union.countFrame) ∧
    ∃ (u v : State (listSet NodeId) Nat) (n : NodeId),
      Swapping oneLayer (Reachable oneLayer) u [n] ∧
      (allocCpuNode oneLayer.layerNum 1 1 8).run u = .ok none v ∧
      v.cpu.union.free < u.cpu.union.free := by
  obtain ⟨s, hs, hp⟩ := exists_reachable oneLayer (Allowed oneLayer) 8 3 twoServed
    (fun (s : State (listSet NodeId) Nat) =>
      decide (s.cpu.union.frames oneLayer = s.cpu.union.countFrame ∧
        s.cpu.union.lookup 7 = none ∧ leaks s = true) &&
      ((Call.alone (.evictAllUnrefered 3)).next oneLayer s).any
        (fun (t : State (listSet NodeId) Nat) =>
          decide (t.cpu.union.frames oneLayer < t.cpu.union.countFrame)))
    (by decide +kernel)
  rw [Bool.and_eq_true] at hp
  obtain ⟨hframes, hfree, hleaks⟩ := of_decide_eq_true hp.1
  obtain ⟨t, ht, hlost⟩ := (Option.any_eq_true ..).mp hp.2
  refine ⟨⟨s, t, hs, hframes, step_of_next ht, of_decide_eq_true hlost⟩, ?_⟩
  unfold leaks at hleaks
  split at hleaks
  · next n u hfirst =>
      split at hleaks
      · next v hsecond =>
          refine ⟨u, v, n, ?_, hsecond, of_decide_eq_true hleaks⟩
          exact .alloc 1 1 (.call [] hs) hfree List.not_mem_nil hfirst
      · cases hleaks
  · cases hleaks

end Small

end DashInfer.Cache
