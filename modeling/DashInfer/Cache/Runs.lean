import DashInfer.Cache.Api
import DashInfer.Cache.Insert

/-!
Runs of a worker. An action is one public operation, or what the engine does
with a request between two of them, or one step of a queued task. Operations
come from one thread; the schedule says which task steps happen beside them.
An operation that never returns, or that leaves a container's bounds, has no
successor state.
-/

namespace DashInfer.Cache

open Lib

inductive Action (D : Type) where
  | start (r : ReqId) (tokens tokensForHash : List Token) (source : Nat → Nat → D) (ts now : Nat)
  | refOnly (r : ReqId) (tokens : List Token) (source : Nat → Nat → D) (ts : Nat)
  | getCache (r : ReqId) (isV : Bool) (layer increment : Nat)
  | computeBlock (r : ReqId) (cacheIdx : Nat)
  | insert (r : ReqId) (tokens : List Token) (startIdx ts now : Nat)
  | stop (r : ReqId)
  | evictUnrefered (target : Int) (now : Nat)
  | evictAllUnrefered (now : Nat)
  | reset
  | setSeqlenThre (thre : Int)
  | warmup (count : Nat)
  | stepTask (i : Nat)

variable {E : OrderedSet NodeId} {D : Type}

open PrefixCacheManager in
def exec (cfg : Config) : Action D → Prog E D Unit
  | .start r tokens tokensForHash source ts now => do
      let _ ← startRequest cfg r tokens tokensForHash source ts now
  | .refOnly r tokens source ts => do
      let _ ← PrefixCacheManager.refOnly cfg r tokens source ts
  | .getCache r isV layer increment => PrefixCacheManager.getCache cfg r isV layer increment
  | .computeBlock r cacheIdx => PrefixCacheManager.computeBlock r cacheIdx
  | .insert r tokens startIdx ts now => PrefixCacheManager.insert cfg r tokens startIdx ts now
  | .stop r => stopRequest r
  | .evictUnrefered target now => PrefixCacheManager.evictUnrefered cfg target now
  | .evictAllUnrefered now => PrefixCacheManager.evictAllUnrefered cfg now
  | .reset => PrefixCacheManager.reset
  | .setSeqlenThre thre => PrefixCacheManager.setSeqlenThre thre
  | .warmup count => PrefixCacheManager.warmup cfg count
  | .stepTask i => modifyCpu (fun c => c.stepTask i)

/-- How the engine calls the operations. A request is live from its start to
its stop. An `Insert` that walks any block starts at or behind the positions
already filled or offered, on a request that has layers; the forward pass
writes behind them too, block after block. `Reset` only runs while no request
is live. -/
def Allowed (cfg : Config) (s : State E D) : Action D → Prop
  | .start r _ _ _ _ _ => r ∉ s.gpu.live
  | .refOnly r _ _ _ => r ∉ s.gpu.live
  | .getCache r _ _ _ => r ∈ s.gpu.live
  | .computeBlock r cacheIdx =>
      r ∈ s.gpu.live ∧ (s.gpu.ctx r).offered ≤ cacheIdx ∧ cacheIdx ≤ (s.gpu.ctx r).computed
  | .insert r tokens startIdx _ _ =>
      r ∈ s.gpu.live ∧ (s.gpu.ctx r).virtualK ≠ [] ∧
        (blocks cfg startIdx tokens.length ≠ [] →
          (s.gpu.ctx r).offered ≤ startIdx / cfg.tokenPerSpan)
  | .stop r => r ∈ s.gpu.live
  | .reset => s.gpu.live = []
  | _ => True

/-- An action together with the task steps that run beside it. -/
structure Call (D : Type) where
  action : Action D
  schedule : List (List Nat)

def Call.run (cfg : Config) (call : Call D) (s : State E D) :
    EStateM.Result Fault (State E D) Unit :=
  (exec cfg call.action).run { s with schedule := call.schedule }

/-- The call ends in `t`, by returning or by an exception. -/
def Step (cfg : Config) (call : Call D) (s t : State E D) : Prop :=
  match call.run cfg s with
  | .ok _ t' => t = t'
  | .error e t' => e ≠ .blocked ∧ e ≠ .badIndex ∧ t = t'

/-- The state the constructor leaves. -/
structure Initial (cfg : Config) (s : State E D) : Prop where
  gpuUnion : ∃ frames, s.gpu.union = CacheUnion.init E frames cfg.layerNum
  cpuUnion : ∃ frames, s.cpu.union = CacheUnion.init E frames cfg.layerNum
  live : s.gpu.live = []
  gpuLog : s.gpu.log = []
  cpuLog : s.cpu.log = []
  tasks : s.cpu.tasks = []
  availableBlocks : s.cpu.availableBlocks = List.range cfg.maxBatch
  heldBlock : s.cpu.heldBlock = none

def Reachable (cfg : Config) : State E D → Prop :=
  Reach (Initial cfg) (fun s (call : Call D) => Allowed cfg s call.action) (Step cfg)

end DashInfer.Cache

/-!
The invariant over whole runs. A run starts from the state the constructor
leaves and takes the steps the engine may take; what is proved of it depends
on the premise its calls respect.
-/

namespace DashInfer.Cache

open Lib CacheUnion PrefixCacheManager

variable {E : OrderedSet NodeId} {D : Type} {cfg : Config} {P : Premise D} {s t : State E D}

/-- An empty CPU table beside no queued task. -/
private theorem CpuInv.of_empty {c : CpuSide E D} (htable : c.union.hashTable = ∅)
    (hevictor : c.union.evictor = E.empty)
    (howned : Owned c.union.spanManager [] (fun _ => False))
    (hcap : c.union.capacity = c.union.countFrame / (2 * cfg.layerNum))
    (htasks : c.tasks = []) (hblocks : BlocksInv c) : CpuInv cfg c [] [] := by
  have hnone : ∀ hash, c.union.lookup hash = none := by
    intro hash
    unfold CacheUnion.lookup
    rw [htable]
    exact AList.lookup_empty hash
  have hout : (fun span => span ∈ batchSpans c.union [] ++ []) = (fun _ => False) := by
    funext span
    simp [batchSpans]
  refine
    { wf := by rw [hout]; exact wf_empty htable howned
      capacity := hcap
      refCnt := fun hl => by rw [hnone] at hl; cases hl
      batchNode := fun n hn => by cases hn
      out_nodup := by simp [batchSpans]
      out_fresh := by simp [batchSpans]
      hash_nodup := by simp
      evictable := fun _ => evictable_empty htable hevictor
      blocks := hblocks
      copies := fun _ => ?_
      notReady := fun _ n hn => by cases hn }
  refine
    { ready := fun hl => by rw [hnone] at hl; cases hl
      tasked := ?_
      task_nodup := by simp [htasks]
      pending := ?_ }
  · rw [htasks]
    simp
  · rw [htasks]
    simp

private theorem CpuInv.reset {c : CpuSide E D} (h : CpuInv cfg c [] []) (htasks : c.tasks = []) :
    CpuInv cfg { c with union := c.union.reset } [] [] := by
  obtain ⟨m', heq, htotal, hall⟩ := reset_spec c.union
  have hout : (fun span => span ∈ batchSpans c.union [] ++ []) = (fun _ => False) := by
    funext span
    simp [batchSpans]
  have howned := h.wf.owned
  rw [hout] at howned
  have hcap : c.union.capacity = m'.frameManager.totalFrameCount / (2 * cfg.layerNum) := by
    rw [htotal]
    exact h.capacity
  rw [heq]
  exact CpuInv.of_empty rfl rfl ((hall _ (fun _ _ hf => hf)).1 howned) hcap htasks
    ⟨h.blocks.nodup, h.blocks.task, h.blocks.held⟩

/-- An empty GPU table beside no request holds whatever is asked of it. -/
private theorem Inv.of_empty (hgpu : GpuInv cfg P.ordered s.gpu Settled)
    (hcpu : CpuInv cfg s.cpu [] []) (hclash : P.distinct → NoClash s.gpu.log)
    (hlive : s.gpu.live = [])
    (htable : s.gpu.union.hashTable = ∅) (hctable : s.cpu.union.hashTable = ∅) :
    Inv cfg P s Settled where
  gpu := hgpu
  cpu := hcpu
  noClash := hclash
  own r hr := by
    rw [hlive] at hr
    cases hr
  content _ := by
    refine ⟨?_, ?_⟩
    · intro hash n hl
      unfold CacheUnion.lookup at hl
      rw [htable, AList.lookup_empty] at hl
      cases hl
    · intro hash n hl
      unfold CacheUnion.lookup at hl
      rw [hctable, AList.lookup_empty] at hl
      cases hl

theorem inv_of_initial (h : Initial cfg s) : Inv cfg P s Settled := by
  obtain ⟨frames, hgpu⟩ := h.gpuUnion
  obtain ⟨cpuFrames, hcpu⟩ := h.cpuUnion
  have htotal : ∀ n, (SpanManager.init n).frameManager.totalFrameCount = n := by
    intro n
    have heq := (FrameManager.growBy_eq
      { freeFrames := [], freeFrameCount := 0, totalFrameCount := 0 } n).2.2
    exact heq.trans (Nat.zero_add n)
  have hcap : ∀ n, (CacheUnion.init E n cfg.layerNum).capacity =
      (CacheUnion.init E n cfg.layerNum).countFrame / (2 * cfg.layerNum) := by
    intro n
    change n / (2 * cfg.layerNum) = (SpanManager.init n).frameManager.totalFrameCount / _
    rw [htotal]
  have hblocks : BlocksInv s.cpu := by
    refine ⟨?_, ?_, ?_⟩
    · rw [h.availableBlocks]
      exact List.nodup_range
    · rw [h.tasks]
      simp
    · rw [h.heldBlock]
      simp
  apply Inv.of_empty _ _ _ h.live
  · rw [hgpu]
    rfl
  · rw [hcpu]
    rfl
  · apply GpuInv.of_empty h.live
    · rw [hgpu]
      rfl
    · rw [hgpu]
      rfl
    · rw [hgpu]
      exact owned_init frames
    · rw [hgpu]
      exact covered_init frames
    · rw [hgpu]
      exact hcap frames
    · rw [h.gpuLog]
      simp
  · apply CpuInv.of_empty _ _ _ _ h.tasks hblocks
    · rw [hcpu]
      rfl
    · rw [hcpu]
      rfl
    · rw [hcpu]
      exact owned_init cpuFrames
    · rw [hcpu]
      exact hcap cpuFrames
  · intro _
    rw [h.gpuLog]
    simp [NoClash]

private theorem post_reset (h : Inv cfg P s Settled) (hlive : s.gpu.live = []) :
    Post PrefixCacheManager.reset s (fun _ t => Inv cfg P t Settled) (Faulted cfg P) := by
  obtain ⟨honly, _⟩ := interleave_onlyCpu h.cpu
  have hinv := h.onlyCpu honly
  have hlive' : s.interleave.gpu.live = [] := by
    rw [honly.gpu]
    exact hlive
  unfold PrefixCacheManager.reset waitForAsyncTasks
  simp only [interleave, post_bind, post_modify, post_get]
  split
  · next htasks =>
      simp only [post_pure, post_modifyGpu, post_modifyCpu]
      obtain ⟨m', heq, _⟩ := reset_spec s.interleave.gpu.union
      obtain ⟨m'', heq', _⟩ := reset_spec s.interleave.cpu.union
      refine Inv.of_empty ?_ ?_ hinv.noClash hlive' ?_ ?_
      · exact hinv.gpu.reset hlive'
      · exact hinv.cpu.reset htasks
      · change s.interleave.gpu.union.reset.hashTable = ∅
        rw [heq]
      · change s.interleave.cpu.union.reset.hashTable = ∅
        rw [heq']
  · exact Or.inl rfl

private theorem post_warmup (h : Inv cfg P s Settled) (count : Nat) :
    Post (warmup cfg count) s (fun _ t => Inv cfg P t Settled) (Faulted cfg P) := by
  unfold warmup
  rw [post_modifyGpu]
  exact h.carry (h.gpu.warmup count) (Carried.of_union (fun hl => ⟨hl, rfl⟩) (fun _ _ => rfl)) id

/-- The calls of a run that respects the premise. -/
def Respects (cfg : Config) (P : Premise D) (s : State E D) : Action D → Prop
  | .start _ tokens tokensForHash _ _ _ =>
      (P.ordered → GpuFirst s (promptHashes cfg tokens tokensForHash)) ∧
        (P.distinct → Restores cfg s (promptHashes cfg tokens tokensForHash) →
          (cpuHits s (promptHashes cfg tokens tokensForHash)).Nodup)
  | .insert r tokens startIdx _ _ =>
      GoodBlocks cfg P.Good (s.gpu.ctx r) tokens (blocks cfg startIdx tokens.length)
  | _ => True

/-- Every operation keeps the invariant, one case per action. -/
theorem post_exec (action : Action D) (h : Inv cfg P s Settled) (hallowed : Allowed cfg s action)
    (hrespects : Respects cfg P s action) :
    Post (exec cfg action) s (fun _ t => Inv cfg P t Settled) (Faulted cfg P) := by
  cases action with
  | start r tokens tokensForHash source ts now =>
      unfold exec
      rw [post_bind]
      apply (post_startRequest tokens tokensForHash source ts now h hallowed hrespects.1
        hrespects.2).imp _ (fun _ _ he => he)
      rintro _ t ⟨ht, _⟩
      exact ht
  | refOnly r tokens source ts =>
      unfold exec
      rw [post_bind]
      exact post_refOnly tokens source ts h hallowed
  | getCache r isV layer increment =>
      exact (post_getCache h hallowed isV layer increment).imp (fun _ _ ht => ht)
        (fun _ _ ht => Or.inr (Or.inr ht))
  | computeBlock r cacheIdx => exact post_computeBlock h hallowed.1 hallowed.2.1 hallowed.2.2
  | insert r tokens startIdx ts now =>
      exact post_insert tokens startIdx now h hallowed.1 hallowed.2.1 hallowed.2.2 hrespects
  | stop r => exact post_stopRequest h hallowed
  | evictUnrefered target now =>
      unfold exec PrefixCacheManager.evictUnrefered
      rw [post_bind, post_get]
      exact (post_evictUnreferedByNum _ now h).imp (fun _ _ ht => ht.1) (fun _ _ he => he)
  | evictAllUnrefered now =>
      unfold exec PrefixCacheManager.evictAllUnrefered
      rw [post_bind, post_get]
      exact (post_evictUnreferedByNum _ now h).imp (fun _ _ ht => ht.1) (fun _ _ he => he)
  | reset => exact post_reset h hallowed
  | setSeqlenThre thre => exact h.withSeqLenThre thre
  | warmup count => exact post_warmup h count
  | stepTask i =>
      have haside : Aside s.cpu (s.cpu.stepTask i) := aside_stepTask i
      exact h.withCpu (h.cpu.stepTask i) (by rw [haside.log]) (fun hl => haside.lookup _ ▸ hl)
        haside.origin

/-- A step of a run that respects the premise keeps the invariant. -/
theorem inv_of_step {call : Call D} (h : Inv cfg P s Settled)
    (hallowed : Allowed cfg s call.action) (hrespects : Respects cfg P s call.action)
    (hstep : Step cfg call s t) : Inv cfg P t Settled := by
  have hallowed' : Allowed cfg { s with schedule := call.schedule } call.action := by
    cases hcall : call.action <;> rw [hcall] at hallowed <;> exact hallowed
  have hrespects' : Respects cfg P { s with schedule := call.schedule } call.action := by
    cases hcall : call.action <;> rw [hcall] at hrespects <;> exact hrespects
  have hpost := post_exec call.action (h.withSchedule call.schedule) hallowed' hrespects'
  unfold Step Call.run at hstep
  split at hstep
  · next hrun =>
      rw [hstep]
      exact hpost.of_ok hrun
  · next hrun =>
      obtain ⟨hblocked, hindex, rfl⟩ := hstep
      rcases hpost.of_error hrun with he | he | ht
      · exact absurd he hblocked
      · exact absurd he hindex
      · exact ht

/-- The states of the runs that respect the premise. -/
def ReachableBy (cfg : Config) (P : Premise D) : State E D → Prop :=
  Reach (Initial cfg)
    (fun s (call : Call D) => Allowed cfg s call.action ∧ Respects cfg P s call.action)
    (Step cfg)

theorem inv_of_reachableBy (h : ReachableBy cfg P s) : Inv cfg P s Settled := by
  refine Reach.invariant (I := fun s => Inv cfg P s Settled) ?_ ?_ h
  · intro s hinit
    exact inv_of_initial hinit
  · rintro s t call hinv ⟨hallowed, hrespects⟩ hstep
    exact inv_of_step hinv hallowed hrespects hstep

/-- Without a premise nothing is asked of the calls. -/
theorem respects_none (s : State E D) (action : Action D) :
    Respects cfg (Premise.none D) s action := by
  cases action with
  | start => exact ⟨fun hf => hf.elim, fun hf => hf.elim⟩
  | insert => exact fun _ _ _ _ => trivial
  | _ => trivial

theorem reachableBy_none (h : Reachable cfg s) : ReachableBy cfg (Premise.none D) s := by
  refine Reach.weaken ?_ h
  intro s call hallowed
  exact ⟨hallowed, respects_none s call.action⟩

/-- The invariant of every run, with nothing asked of its calls. -/
theorem inv_of_reachable (h : Reachable cfg s) : Inv cfg (Premise.none D) s Settled :=
  inv_of_reachableBy (reachableBy_none h)

end DashInfer.Cache
