import Mathlib
import DashInfer.Cache.RefFill

/-!
The lookup loop of `RefFill`. Blocks are looked up in order until one is in
neither table. A block of the GPU table is referenced, placed and listed at
once; a block that only the CPU table has is collected. Which block is which
is decided by the tables as they stood before the call, because the loop
changes neither.
-/

namespace DashInfer.Cache

open Lib CacheUnion PrefixCacheManager

variable {E : OrderedSet NodeId} {D : Type} {cfg : Config} {P : Premise D} {s t : State E D}
  {r : ReqId}

def inGpu (s : State E D) (hash : Hash) : Bool := (s.gpu.union.lookup hash).isSome

def inCpu (s : State E D) (hash : Hash) : Bool := (s.cpu.union.lookup hash).isSome

/-- The blocks found before the first one that is in neither table. -/
def hitHashes (s : State E D) (hashes : List Hash) : List Hash :=
  hashes.takeWhile (fun hash => inGpu s hash || inCpu s hash)

def gpuHits (s : State E D) (hashes : List Hash) : List Hash :=
  (hitHashes s hashes).filter (inGpu s)

def cpuHits (s : State E D) (hashes : List Hash) : List Hash :=
  (hitHashes s hashes).filter (fun hash => !inGpu s hash)

/-- The CPU side while the loop runs: only timestamps, readiness and memory
change. -/
structure CpuStill (c c' : CpuSide E D) : Prop where
  hashTable : c'.union.hashTable = c.union.hashTable
  capacity : c'.union.capacity = c.union.capacity
  spanManager : c'.union.spanManager = c.union.spanManager
  evictor : c'.union.evictor = c.union.evictor
  hash : ∀ n, (c'.union.nodes n).hash = (c.union.nodes n).hash
  moved : ∀ g, Moved g c c'

namespace CpuStill

variable {c c' c'' : CpuSide E D}

theorem refl (c : CpuSide E D) : CpuStill c c :=
  ⟨rfl, rfl, rfl, rfl, fun _ => rfl, fun g => Moved.refl g c⟩

theorem trans (h : CpuStill c c') (h' : CpuStill c' c'') : CpuStill c c'' where
  hashTable := h'.hashTable.trans h.hashTable
  capacity := h'.capacity.trans h.capacity
  spanManager := h'.spanManager.trans h.spanManager
  evictor := h'.evictor.trans h.evictor
  hash n := (h'.hash n).trans (h.hash n)
  moved g := (h.moved g).trans (h'.moved g)

theorem updateNodeTs (hash : Hash) (ts : Nat) : CpuStill c (c.updateNodeTs hash ts) := by
  have hk := kept_updateNodeTs (u := c.union) ts hash
  refine ⟨hk.hashTable, hk.capacity, hk.spanManager, ?_, hk.hash,
    fun g => Moved.updateNodeTs hash ts⟩
  change (c.union.updateNodeTs hash ts).evictor = _
  unfold CacheUnion.updateNodeTs
  split <;> rfl

theorem of_aside (h : Aside c c') : CpuStill c c' :=
  ⟨h.hashTable, h.capacity, h.spanManager, h.evictor, h.hash, fun _ => Moved.of_aside h⟩

theorem lookup (h : CpuStill c c') (hash : Hash) :
    c'.union.lookup hash = c.union.lookup hash := by
  unfold CacheUnion.lookup
  rw [h.hashTable]

end CpuStill

/-- What the lookup loop leaves: `found` are the GPU nodes it placed and
listed, `collected` the CPU nodes it gathered. -/
structure LookedUp (cfg : Config) (s t : State E D) (r : ReqId) (hashes : List Hash)
    (found collected : List NodeId) : Prop where
  live : t.gpu.live = s.gpu.live
  kept : Kept s.gpu.union t.gpu.union
  self : ∃ virtualK virtualV, t.gpu.ctx r = { s.gpu.ctx r with
    virtualK, virtualV, nodeList := (s.gpu.ctx r).nodeList ++ found }
  filled : Filled cfg t.gpu.union.nodes (t.gpu.ctx r) ((s.gpu.ctx r).nodeList ++ found)
  gpu : List.Forall₂ (fun hash n => s.gpu.union.lookup hash = some n) (gpuHits s hashes) found
  cpu : List.Forall₂ (fun hash c => s.cpu.union.lookup hash = some c) (cpuHits s hashes) collected
  ready : ∀ c ∈ collected, Collected cfg t.cpu c
  still : CpuStill s.cpu t.cpu
  candidates : t.gpu.union.candidates =
    s.gpu.union.candidates.filter (fun n => decide (n ∉ found))
  node : ∀ n, n ∉ found → t.gpu.union.nodes n = s.gpu.union.nodes n

private theorem hitHashes_congr (hgpu : ∀ hash, t.gpu.union.lookup hash = s.gpu.union.lookup hash)
    (hcpu : ∀ hash, t.cpu.union.lookup hash = s.cpu.union.lookup hash) (hashes : List Hash) :
    hitHashes t hashes = hitHashes s hashes ∧ gpuHits t hashes = gpuHits s hashes ∧
      cpuHits t hashes = cpuHits s hashes := by
  have hin : inGpu t = inGpu s := by
    funext hash
    unfold inGpu
    rw [hgpu]
  have hout : inCpu t = inCpu s := by
    funext hash
    unfold inCpu
    rw [hcpu]
  unfold gpuHits cpuHits hitHashes
  rw [hin, hout]
  exact ⟨rfl, rfl, rfl⟩

private theorem hits_of_gpu {hash : Hash} {n : NodeId} (hl : s.gpu.union.lookup hash = some n)
    (rest : List Hash) :
    hitHashes s (hash :: rest) = hash :: hitHashes s rest ∧
      gpuHits s (hash :: rest) = hash :: gpuHits s rest ∧
      cpuHits s (hash :: rest) = cpuHits s rest := by
  have hin : inGpu s hash = true := by simp [inGpu, hl]
  simp [hitHashes, gpuHits, cpuHits, hin]

private theorem hits_of_cpu {hash : Hash} {c : NodeId} (hnone : s.gpu.union.lookup hash = none)
    (hl : s.cpu.union.lookup hash = some c) (rest : List Hash) :
    hitHashes s (hash :: rest) = hash :: hitHashes s rest ∧
      gpuHits s (hash :: rest) = gpuHits s rest ∧
      cpuHits s (hash :: rest) = hash :: cpuHits s rest := by
  have hin : inGpu s hash = false := by simp [inGpu, hnone]
  have hout : inCpu s hash = true := by simp [inCpu, hl]
  simp [hitHashes, gpuHits, cpuHits, hin, hout]

private theorem hits_of_miss {hash : Hash} (hnone : s.gpu.union.lookup hash = none)
    (hout : s.cpu.union.lookup hash = none) (rest : List Hash) :
    hitHashes s (hash :: rest) = [] ∧ gpuHits s (hash :: rest) = [] ∧
      cpuHits s (hash :: rest) = [] := by
  have hin : inGpu s hash = false := by simp [inGpu, hnone]
  have hout : inCpu s hash = false := by simp [inCpu, hout]
  simp [hitHashes, gpuHits, cpuHits, hin, hout]

/-- The state after a block of the GPU table was referenced, placed and
listed. -/
def State.hit (s : State E D) (r : ReqId) (hash : Hash) (ts : Nat) (n : NodeId)
    (virtualK virtualV : List CacheArray) : State E D :=
  { s with
    gpu := ((s.gpu.refNode hash ts).pushNode r n).updateCtx r
      (fun c => { c with virtualK, virtualV })
    cpu := s.cpu.updateNodeTs hash ts }

section Hit

variable {hash : Hash} {n : NodeId} {virtualK virtualV : List CacheArray} (ts : Nat)

private theorem push_fill_comm (g : GpuSide E D) :
    (g.updateCtx r (fun c => { c with virtualK, virtualV })).pushNode r n =
      (g.pushNode r n).updateCtx r (fun c => { c with virtualK, virtualV }) := by
  unfold GpuSide.pushNode GpuSide.updateCtx
  simp [Function.update_idem]

private theorem hit_ctx (s : State E D) (r : ReqId) (hash : Hash) (n : NodeId)
    (virtualK virtualV : List CacheArray) : (s.hit r hash ts n virtualK virtualV).gpu.ctx r =
    { s.gpu.ctx r with virtualK, virtualV, nodeList := (s.gpu.ctx r).nodeList ++ [n] } := by
  unfold State.hit
  rw [GpuSide.updateCtx_self, GpuSide.pushNode, GpuSide.updateCtx_self]
  rfl

/-- Placing a node of the GPU table, between taking the reference and listing
the node. -/
private theorem post_fillFromNode (h : Inv cfg P s Settled) (hr : r ∈ s.gpu.live)
    (hl : s.gpu.union.lookup hash = some n)
    (hfilled : Filled cfg s.gpu.union.nodes (s.gpu.ctx r) (s.gpu.ctx r).nodeList)
    (hbelow : (s.gpu.ctx r).nodeList.length < (s.gpu.ctx r).offered) :
    Post (fillFromNode cfg r n)
      { s with gpu := s.gpu.refNode hash ts, cpu := s.cpu.updateNodeTs hash ts }
      (fun _ t => ∃ virtualK virtualV,
        { t with gpu := t.gpu.pushNode r n } = s.hit r hash ts n virtualK virtualV ∧
        Inv cfg P (s.hit r hash ts n virtualK virtualV) Settled ∧
        Filled cfg (s.hit r hash ts n virtualK virtualV).gpu.union.nodes
          ((s.hit r hash ts n virtualK virtualV).gpu.ctx r) ((s.gpu.ctx r).nodeList ++ [n]))
      (fun e _ => e = .badIndex) := by
  have hwf := h.gpu.wf
  have hkept := kept_refNode ts hwf hash
  have hpush : Inv cfg P { s with gpu := (s.gpu.refNode hash ts).pushNode r n } Settled :=
    h.refPush ts hr hl (hwf.lt_next hl) (hwf.hash_eq hl) (fun _ => rfl) (fun _ _ hp => hp.elim)
  have hk := hkept.kCache n
  have hv := hkept.vCache n
  unfold fillFromNode
  rw [post_bind, post_get]
  dsimp only
  split
  · next virtualK virtualV hfk hfv =>
      change Cache.fillCache cfg (s.gpu.union.refNode hash ts).spanManager (s.gpu.ctx r).virtualK
        ((s.gpu.union.refNode hash ts).nodes n).kCache = _ at hfk
      change Cache.fillCache cfg (s.gpu.union.refNode hash ts).spanManager (s.gpu.ctx r).virtualV
        ((s.gpu.union.refNode hash ts).nodes n).vCache = _ at hfv
      rw [hk] at hfk
      rw [hv] at hfv
      have happK := hfilled.k.fillCache (hwf.kLength hl) hfk
      have happV := hfilled.v.fillCache (hwf.vLength hl) hfv
      have hpushed : ((s.gpu.refNode hash ts).pushNode r n).ctx r =
          { s.gpu.ctx r with nodeList := (s.gpu.ctx r).nodeList ++ [n] } :=
        Function.update_self ..
      have hlen : ∀ a ∈ virtualK ++ virtualV, a.cache.length ≤ (s.gpu.ctx r).offered := by
        intro a ha
        have hgrown : a.cache.length = (s.gpu.ctx r).nodeList.length + 1 := by
          rcases List.mem_append.mp ha with ha | ha
          · obtain ⟨a₀, ha₀, span, _, hcache, _⟩ := happK.mem ha
            simp [hcache, hfilled.k.length a₀ ha₀]
          · obtain ⟨a₀, ha₀, span, _, hcache, _⟩ := happV.mem ha
            simp [hcache, hfilled.v.length a₀ ha₀]
        omega
      have hfill := hpush.fill hr ((hkept.lookup hash).trans hl)
        ⟨n, by rw [hpushed]; simp, (hkept.hash n).trans (hwf.hash_eq hl)⟩
        (by rw [hpushed]; change Appended _ _ ((s.gpu.union.refNode hash ts).nodes n).kCache _
            rw [hk]; exact happK)
        (by rw [hpushed]; change Appended _ _ ((s.gpu.union.refNode hash ts).nodes n).vCache _
            rw [hv]; exact happV)
        (by rw [hpushed]; exact hlen)
      have hcpu := hfill.cpu.updateNodeTs hash ts
      have hstill : CpuStill s.cpu (s.cpu.updateNodeTs hash ts) := CpuStill.updateNodeTs hash ts
      have hinv : Inv cfg P (s.hit r hash ts n virtualK virtualV) Settled :=
        hfill.withCpu hcpu (hstill.moved s.gpu).log (fun hlk => hstill.lookup _ ▸ hlk) rfl
      refine ⟨virtualK, virtualV, ?_, hinv, ?_⟩
      · unfold State.hit
        rw [← push_fill_comm]
      · rw [hit_ctx]
        have hbase : Filled cfg (s.gpu.union.refNode hash ts).nodes
            { s.gpu.ctx r with nodeList := (s.gpu.ctx r).nodeList ++ [n] }
            (s.gpu.ctx r).nodeList :=
          hfilled.congr (fun m _ => ⟨hkept.kCache m, hkept.vCache m⟩) rfl rfl
        exact hbase.append (by rw [hk]; exact happK) (by rw [hv]; exact happV)
  · rfl

end Hit

/-- The hashes the loop asks for, block by block. -/
def blockHashes (cfg : Config) (tokens : List Token) (list : List (Nat × Nat)) : List Hash :=
  list.map (fun block => cfg.hashTokens (tokens.take (block.1 + 1)))

namespace LookedUp

variable {hash : Hash} {hashes : List Hash} {n : NodeId} {found collected : List NodeId}

/-- The loop ends here, behind the last block or at a miss. -/
private theorem stop (hhits : gpuHits s hashes = [] ∧ cpuHits s hashes = [])
    (hfilled : Filled cfg s.gpu.union.nodes (s.gpu.ctx r) (s.gpu.ctx r).nodeList) :
    LookedUp cfg s s r hashes [] [] where
  live := rfl
  kept := Kept.refl _
  self := ⟨_, _, by rw [List.append_nil]⟩
  filled := by
    rw [List.append_nil]
    exact hfilled
  gpu := by
    rw [hhits.1]
    exact List.Forall₂.nil
  cpu := by
    rw [hhits.2]
    exact List.Forall₂.nil
  ready c hc := by cases hc
  still := CpuStill.refl _
  candidates := by simp
  node _ _ := rfl

/-- A block of the GPU table, and then the rest. -/
private theorem ofGpu (ts : Nat) (h : Inv cfg P s Settled) (hl : s.gpu.union.lookup hash = some n)
    {virtualK virtualV : List CacheArray}
    (hrest : LookedUp cfg (s.hit r hash ts n virtualK virtualV) t r hashes found collected) :
    LookedUp cfg s t r (hash :: hashes) (n :: found) collected := by
  have hkept : Kept s.gpu.union (s.gpu.union.refNode hash ts) := kept_refNode ts h.gpu.wf hash
  have hstill : CpuStill s.cpu (s.cpu.updateNodeTs hash ts) := CpuStill.updateNodeTs hash ts
  obtain ⟨_, hgpu, hcpu⟩ := hitHashes_congr (s := s) (t := s.hit r hash ts n virtualK virtualV)
    hkept.lookup hstill.lookup hashes
  obtain ⟨_, hhit, hmiss⟩ := hits_of_gpu hl hashes
  refine
    { live := hrest.live
      kept := hkept.trans hrest.kept
      self := ?_
      filled := ?_
      gpu := ?_
      cpu := ?_
      ready := hrest.ready
      still := hstill.trans hrest.still
      candidates := ?_
      node := ?_ }
  · obtain ⟨virtualK', virtualV', heq⟩ := hrest.self
    refine ⟨virtualK', virtualV', ?_⟩
    rw [heq, hit_ctx, List.append_assoc]
    rfl
  · have hfilled := hrest.filled
    rw [hit_ctx, List.append_assoc] at hfilled
    exact hfilled
  · rw [hhit, ← hgpu]
    refine List.Forall₂.cons hl (hrest.gpu.imp ?_)
    intro other m hm
    exact (hkept.lookup other).symm.trans hm
  · rw [hmiss, ← hcpu]
    refine hrest.cpu.imp ?_
    intro other m hm
    exact (hstill.lookup other).symm.trans hm
  · have hfirst : (s.hit r hash ts n virtualK virtualV).gpu.union.candidates = _ :=
      candidates_refNode ts h.gpu.wf h.gpu.balanced.evictable hl
    rw [hrest.candidates, hfirst, List.filter_filter]
    apply List.filter_congr
    intro m _
    simp [Bool.and_comm]
  · intro m hm
    rw [List.mem_cons, not_or] at hm
    exact (hrest.node m hm.2).trans (refNode_nodes_of_ne ts h.gpu.wf hl hm.1)

/-- A block that only the CPU table has, and then the rest. -/
private theorem ofCpu {v : State E D} (hnone : s.gpu.union.lookup hash = none)
    (hl : s.cpu.union.lookup hash = some n) (hgpu : v.gpu = s.gpu) (hstill : CpuStill s.cpu v.cpu)
    (hn : Collected cfg v.cpu n) (hrest : LookedUp cfg v t r hashes found collected) :
    LookedUp cfg s t r (hash :: hashes) found (n :: collected) := by
  obtain ⟨_, hgpus, hcpus⟩ := hitHashes_congr (s := s) (t := v)
    (fun other => by rw [hgpu]) hstill.lookup hashes
  obtain ⟨_, hmiss, hhit⟩ := hits_of_cpu hnone hl hashes
  refine
    { live := by rw [hrest.live, hgpu]
      kept := hgpu ▸ hrest.kept
      self := hgpu ▸ hrest.self
      filled := hgpu ▸ hrest.filled
      gpu := ?_
      cpu := ?_
      ready := ?_
      still := hstill.trans hrest.still
      candidates := hgpu ▸ hrest.candidates
      node := hgpu ▸ hrest.node }
  · rw [hmiss, ← hgpus, ← hgpu]
    exact hrest.gpu
  · rw [hhit, ← hcpus]
    refine List.Forall₂.cons hl (hrest.cpu.imp ?_)
    intro other m hm
    exact (hstill.lookup other).symm.trans hm
  · intro c hc
    rcases List.mem_cons.mp hc with rfl | hc
    · exact hn.moved (hrest.still.moved s.gpu)
    · exact hrest.ready c hc

end LookedUp

/-- A CPU hit that has finished copying can be collected. -/
private theorem collected_of_ready (h : Inv cfg P s Settled) {hash : Hash} {n : NodeId}
    (hl : s.cpu.union.lookup hash = some n) (hready : (s.cpu.union.nodes n).isReady = true) :
    Collected cfg s.cpu n :=
  ⟨h.cpu.wf.lt_next hl, hready, h.cpu.wf.kLength hl, h.cpu.wf.vLength hl⟩

/-- The lookup loop of `RefFill`, by induction over the blocks still to look
up. -/
theorem post_refFillBlocks (tokens : List Token) (ts : Nat) (list : List (Nat × Nat))
    (nodeVecCpu : List NodeId) (uncachedIdx : Nat) (h : Inv cfg P s Settled)
    (hr : r ∈ s.gpu.live)
    (hfilled : Filled cfg s.gpu.union.nodes (s.gpu.ctx r) (s.gpu.ctx r).nodeList)
    (hroom : (s.gpu.ctx r).nodeList.length + list.length ≤ (s.gpu.ctx r).offered) :
    Post (refFillBlocks cfg r tokens ts list nodeVecCpu uncachedIdx) s
      (fun result t => Inv cfg P t Settled ∧ t.seqLenThre = s.seqLenThre ∧
        result.2 = uncachedIdx +
          (hitHashes s (blockHashes cfg tokens list)).length * cfg.tokenPerSpan ∧
        ∃ found collected, result.1 = nodeVecCpu ++ collected ∧
          LookedUp cfg s t r (blockHashes cfg tokens list) found collected)
      (Faulted cfg P) := by
  induction list generalizing s nodeVecCpu uncachedIdx with
  | nil =>
      refine ⟨h, rfl, by simp [blockHashes, hitHashes], [], [], by simp, ?_⟩
      exact LookedUp.stop ⟨rfl, rfl⟩ hfilled
  | cons block rest ih =>
      obtain ⟨i, cacheIdx⟩ := block
      rw [List.length_cons] at hroom
      unfold refFillBlocks
      rw [post_bind, post_get]
      have hhashes : blockHashes cfg tokens ((i, cacheIdx) :: rest) =
        cfg.hashTokens (tokens.take (i + 1)) :: blockHashes cfg tokens rest := rfl
      rw [hhashes]
      cases hl : s.gpu.union.lookup (cfg.hashTokens (tokens.take (i + 1))) with
      | some n =>
          simp only [post_bind, post_modifyGpu, post_modifyCpu]
          apply (post_fillFromNode ts h hr hl hfilled (by omega)).imp _
            (fun _ _ he => Or.inr (Or.inl he))
          rintro _ t ⟨virtualK, virtualV, heq, hinv, hfilled'⟩
          rw [heq]
          have hctx := hit_ctx ts s r (cfg.hashTokens (tokens.take (i + 1))) n virtualK virtualV
          have hcount := (hits_of_gpu hl (blockHashes cfg tokens rest)).1
          have hsame := (hitHashes_congr (s := s)
            (t := s.hit r (cfg.hashTokens (tokens.take (i + 1))) ts n virtualK virtualV)
            (kept_refNode ts h.gpu.wf _).lookup (CpuStill.updateNodeTs _ ts).lookup
            (blockHashes cfg tokens rest)).1
          have hlisted : (s.gpu.ctx r).nodeList ++ [n] =
              ((s.hit r (cfg.hashTokens (tokens.take (i + 1))) ts n virtualK virtualV).gpu.ctx
                r).nodeList := by rw [hctx]
          rw [hlisted] at hfilled'
          apply (ih nodeVecCpu (uncachedIdx + cfg.tokenPerSpan) hinv hr hfilled' (by
            rw [hctx]
            simp only [List.length_append, List.length_singleton]
            omega)).imp _ (fun _ _ he => he)
          rintro result v ⟨hv, hthre, hidx, found, collected, hvec, hlooked⟩
          refine ⟨hv, hthre, ?_, n :: found, collected, hvec, hlooked.ofGpu ts h hl⟩
          rw [hidx, hsame, hcount, List.length_cons, Nat.succ_mul]
          omega
      | none =>
          dsimp only
          cases hcl : s.cpu.union.lookup (cfg.hashTokens (tokens.take (i + 1))) with
          | some n =>
              obtain ⟨honly, haside⟩ := interleave_onlyCpu h.cpu
              have hgpu := honly.gpu
              simp only [interleave, post_bind, post_modify, post_get]
              split
              · next hready =>
                  have hn : Collected cfg s.interleave.cpu n :=
                    collected_of_ready (h.onlyCpu honly) ((haside.lookup _).trans hcl) hready
                  have hcount := (hits_of_cpu hl hcl (blockHashes cfg tokens rest)).1
                  have hsame := (hitHashes_congr (s := s) (t := s.interleave)
                    (fun other => by rw [hgpu]) haside.lookup (blockHashes cfg tokens rest)).1
                  apply (ih (nodeVecCpu ++ [n]) (uncachedIdx + cfg.tokenPerSpan)
                    (h.onlyCpu honly) (by rw [hgpu]; exact hr) (by rw [hgpu]; exact hfilled)
                    (by rw [hgpu]; omega)).imp _ (fun _ _ he => he)
                  rintro result v ⟨hv, hthre, hidx, found, collected, hvec, hlooked⟩
                  refine ⟨hv, hthre.trans honly.seqLenThre, ?_, found, n :: collected, ?_,
                    hlooked.ofCpu hl hcl hgpu (CpuStill.of_aside haside) hn⟩
                  · rw [hidx, hsame, hcount, List.length_cons, Nat.succ_mul]
                    omega
                  · rw [hvec, List.append_assoc]
                    rfl
              · exact Or.inl rfl
          | none =>
              obtain ⟨hnone, hgpus, hcpus⟩ := hits_of_miss hl hcl (blockHashes cfg tokens rest)
              refine ⟨h, rfl, by rw [hnone]; simp, [], [], by simp, ?_⟩
              exact LookedUp.stop ⟨hgpus, hcpus⟩ hfilled

end DashInfer.Cache
