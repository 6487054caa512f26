import DashInfer.Cache.CpuTasks

/-!
Swapping nodes out. The GPU side stands still meanwhile, so each program is
judged by what it leaves of the CPU side: the invariant, and that every node
of the table is an old one or was filled from the GPU node of its hash. The
table loses at most one entry, and only to the first allocation.
-/

namespace DashInfer.Cache

open Lib CacheUnion PrefixCacheManager

variable {E : OrderedSet NodeId} {D : Type} {cfg : Config}

/-- What the GPU table holds under a hash. -/
def Stored (g : GpuSide E D) (hash : Hash) (data : List D) : Prop :=
  ∃ n, g.union.lookup hash = some n ∧
    data = contents g.mem g.union.spanManager (g.union.nodes n).spans

/-- How the CPU side moves on beside a GPU side that stands still. -/
structure Moved (g : GpuSide E D) (c c' : CpuSide E D) : Prop where
  nextNode : c.union.nextNode ≤ c'.union.nextNode
  node : ∀ n < c.union.nextNode, ∃ ts ready,
    c'.union.nodes n = { c.union.nodes n with lastAccessTime := ts, isReady := ready } ∧
      ((c.union.nodes n).isReady = true → ready = true)
  log : c.log <:+ c'.log
  copied : copiedEvents c'.log = copiedEvents c.log
  stored : ∀ {hash n}, c'.union.lookup hash = some n →
    (c.union.lookup hash = some n ∧ c'.origin n = c.origin n) ∨ Stored g hash (c'.origin n)

namespace Moved

variable {g : GpuSide E D} {c c' c'' : CpuSide E D}

theorem refl (g : GpuSide E D) (c : CpuSide E D) : Moved g c c where
  nextNode := Nat.le_refl _
  node _ _ := ⟨_, _, rfl, id⟩
  log := List.suffix_refl _
  copied := rfl
  stored hl := Or.inl ⟨hl, rfl⟩

theorem trans (h : Moved g c c') (h' : Moved g c' c'') : Moved g c c'' where
  nextNode := Nat.le_trans h.nextNode h'.nextNode
  node n hn := by
    obtain ⟨ts, ready, heq, hready⟩ := h.node n hn
    obtain ⟨ts', ready', heq', hready'⟩ := h'.node n (Nat.lt_of_lt_of_le hn h.nextNode)
    refine ⟨ts', ready', ?_, ?_⟩
    · rw [heq', heq]
    · intro hr
      apply hready'
      rw [heq]
      exact hready hr
  log := h.log.trans h'.log
  copied := h'.copied.trans h.copied
  stored hl := by
    rcases h'.stored hl with ⟨hl', horigin⟩ | hs
    · rw [horigin]
      exact h.stored hl'
    · exact Or.inr hs

theorem hash (h : Moved g c c') {n : NodeId} (hn : n < c.union.nextNode) :
    (c'.union.nodes n).hash = (c.union.nodes n).hash := by
  obtain ⟨_, _, heq, _⟩ := h.node n hn
  rw [heq]

theorem ready (h : Moved g c c') {n : NodeId} (hn : n < c.union.nextNode)
    (hready : (c.union.nodes n).isReady = true) : (c'.union.nodes n).isReady = true := by
  obtain ⟨_, _, heq, himp⟩ := h.node n hn
  rw [heq]
  exact himp hready

theorem of_aside (h : Aside c c') : Moved g c c' where
  nextNode := Nat.le_of_eq h.nextNode.symm
  node n _ := by
    obtain ⟨ready, heq, himp⟩ := h.node n
    exact ⟨_, ready, heq, himp⟩
  log := by rw [h.log]
  copied := by rw [h.log]
  stored hl := by
    rw [h.lookup] at hl
    exact Or.inl ⟨hl, by rw [h.origin]⟩

/-- Only fields it does not look at change. -/
theorem of_same (hunion : c'.union = c.union) (horigin : c'.origin = c.origin)
    (hlog : c'.log = c.log) : Moved g c c' where
  nextNode := by rw [hunion]
  node n _ := by
    rw [hunion]
    exact ⟨_, _, rfl, id⟩
  log := by rw [hlog]
  copied := by rw [hlog]
  stored hl := by
    rw [hunion] at hl
    exact Or.inl ⟨hl, by rw [horigin]⟩

theorem updateNodeTs (hash : Hash) (ts : Nat) : Moved g c (c.updateNodeTs hash ts) := by
  have hk := kept_updateNodeTs (u := c.union) ts hash
  have hlog : (c.updateNodeTs hash ts).log = c.log ∨
      ∃ n, (c.updateNodeTs hash ts).log = .touched n :: c.log := by
    unfold CpuSide.updateNodeTs
    dsimp only
    split
    · exact Or.inl rfl
    · split
      · exact Or.inr ⟨_, rfl⟩
      · exact Or.inl rfl
  refine
    { nextNode := Nat.le_of_eq hk.nextNode.symm
      node := ?_
      log := ?_
      copied := ?_
      stored := ?_ }
  · intro n _
    change ∃ ts' ready, (c.union.updateNodeTs hash ts).nodes n = _ ∧ _
    have hstill := hk.still n
    have href := updateNodeTs_refCnt (u := c.union) ts hash n
    refine ⟨((c.union.updateNodeTs hash ts).nodes n).lastAccessTime,
      ((c.union.updateNodeTs hash ts).nodes n).isReady, ?_, ?_⟩
    · unfold PrefixNode.still at hstill
      cases hnew : (c.union.updateNodeTs hash ts).nodes n
      cases hold : c.union.nodes n
      rw [hnew, hold] at hstill href
      simp_all
    · intro hr
      rw [hk.isReady]
      exact hr
  · rcases hlog with h | ⟨n, h⟩
    · rw [h]
    · rw [h]
      exact List.suffix_cons _ _
  · rcases hlog with h | ⟨m, h⟩
    · rw [h]
    · rw [h]
      rfl
  · intro other n hl
    left
    change (c.union.updateNodeTs hash ts).lookup other = some n at hl
    rw [hk.lookup] at hl
    exact ⟨hl, rfl⟩

/-- A node leaves the table. -/
theorem deleted {hash : Hash} {n : NodeId} {ready : Bool}
    (hd : Deleted c.union c'.union hash n) (hlog : c'.log = .removed n ready :: c.log)
    (horigin : c'.origin = c.origin) : Moved g c c' where
  nextNode := by rw [hd.nextNode]
  node m _ := by
    rw [hd.nodes]
    exact ⟨_, _, rfl, id⟩
  log := by
    rw [hlog]
    exact List.suffix_cons _ _
  copied := by
    rw [hlog]
    rfl
  stored hl := by
    rw [horigin]
    exact Or.inl ⟨(hd.lookup_some hl).2, rfl⟩

end Moved

/-- A program left the GPU side as it was and the CPU side in order. -/
structure OnlyCpu (cfg : Config) (s t : State E D) (batch : List NodeId)
    (extra : List SpanId) : Prop where
  gpu : t.gpu = s.gpu
  seqLenThre : t.seqLenThre = s.seqLenThre
  cpu : CpuInv cfg t.cpu batch extra
  moved : Moved s.gpu s.cpu t.cpu

/-- What a fault of such a program leaves. -/
def CpuFault (cfg : Config) (s : State E D) (e : Fault) (t : State E D) : Prop :=
  e = .blocked ∨ OnlyCpu cfg s t [] []

namespace OnlyCpu

variable {s t v : State E D} {batch batch' : List NodeId} {extra extra' : List SpanId}

theorem refl (h : CpuInv cfg s.cpu batch extra) : OnlyCpu cfg s s batch extra :=
  ⟨rfl, rfl, h, Moved.refl _ _⟩

theorem trans (h : OnlyCpu cfg s t batch extra) (h' : OnlyCpu cfg t v batch' extra') :
    OnlyCpu cfg s v batch' extra' where
  gpu := h'.gpu.trans h.gpu
  seqLenThre := h'.seqLenThre.trans h.seqLenThre
  cpu := h'.cpu
  moved := h.moved.trans (h.gpu ▸ h'.moved)

theorem abandon (h : OnlyCpu cfg s t batch extra) : OnlyCpu cfg s t [] [] :=
  ⟨h.gpu, h.seqLenThre, h.cpu.abandon, h.moved⟩

theorem fault (h : OnlyCpu cfg s t batch extra) (e : Fault) : CpuFault cfg s e t :=
  Or.inr h.abandon

/-- A fault of a later part, seen from the start. -/
theorem andFault (h : OnlyCpu cfg s t batch extra) {e : Fault} (h' : CpuFault cfg t e v) :
    CpuFault cfg s e v :=
  h'.imp id h.trans

/-- One assignment to the CPU side. -/
theorem step {c' : CpuSide E D} (hcpu : CpuInv cfg c' batch extra)
    (hmoved : Moved s.gpu s.cpu c') : OnlyCpu cfg s { s with cpu := c' } batch extra :=
  ⟨rfl, rfl, hcpu, hmoved⟩

end OnlyCpu

variable {s : State E D} {batch : List NodeId} {extra : List SpanId}

theorem interleave_onlyCpu (h : CpuInv cfg s.cpu batch extra) :
    OnlyCpu cfg s s.interleave batch extra ∧ Aside s.cpu s.interleave.cpu := by
  unfold State.interleave
  split
  · exact ⟨OnlyCpu.refl h, Aside.refl _⟩
  · next now later _ =>
      obtain ⟨hinv, haside⟩ := h.stepTasks now
      exact ⟨⟨rfl, rfl, hinv, Moved.of_aside haside⟩, haside⟩

/-- The entry that the next allocation of a CPU node evicts. -/
def allocVictim (u : CacheUnion E) : Option Hash :=
  if u.capacity = 0 ∨ u.countFreeFrame ≤ 0 ∨ u.size < u.capacity then none else u.findVictim

/-- A table with one entry dropped, or none. -/
def dropEntry (table : AList (fun _ : Hash => NodeId)) :
    Option Hash → AList (fun _ : Hash => NodeId)
  | none => table
  | some hash => table.erase hash

theorem lookup_dropEntry (table : AList (fun _ : Hash => NodeId)) (victim : Option Hash)
    (hash : Hash) :
    (dropEntry table victim).lookup hash =
      if victim = some hash then none else table.lookup hash := by
  cases victim with
  | none => simp [dropEntry]
  | some other =>
      by_cases heq : hash = other
      · subst heq
        simp [dropEntry]
      · have hne : ¬ some other = some hash := fun h => heq (Option.some.inj h).symm
        rw [if_neg hne, dropEntry, AList.lookup_erase_ne heq]

private theorem post_deleteCpuNode (h : CpuInv cfg s.cpu batch extra) (hash : Hash) :
    Post (deleteCpuNode hash) s
      (fun _ t => OnlyCpu cfg s t batch extra ∧
        t.cpu.union.hashTable = s.cpu.union.hashTable.erase hash ∧
        t.cpu.union.capacity = s.cpu.union.capacity ∧
        t.cpu.union.size + 1 = s.cpu.union.size)
      (CpuFault cfg s) := by
  unfold deleteCpuNode
  rw [post_bind, post_get]
  cases hdel : s.cpu.deleteNode hash with
  | none => exact (OnlyCpu.refl h).fault _
  | some c' =>
      obtain ⟨hinv, n, hd, hlog, _, horigin⟩ := h.deleteNode hdel
      refine ⟨OnlyCpu.step hinv (Moved.deleted hd hlog horigin), hd.hashTable, hd.capacity, hd.size⟩

/-- The eviction that makes room for a new CPU node. -/
private theorem post_evictCpuNode (h : CpuInv cfg s.cpu batch extra)
    (hcap : s.cpu.union.capacity ≠ 0) (hfree : 0 < s.cpu.union.countFreeFrame) :
    Post evictCpuNode s
      (fun room t => OnlyCpu cfg s t batch extra ∧
        t.cpu.union.hashTable = dropEntry s.cpu.union.hashTable (allocVictim s.cpu.union) ∧
        (room = true → t.cpu.union.size < t.cpu.union.capacity))
      (CpuFault cfg s) := by
  unfold evictCpuNode
  rw [post_bind, post_get]
  split
  · next hfull =>
      have hvictim : allocVictim s.cpu.union = s.cpu.union.findVictim := by
        unfold allocVictim
        rw [if_neg (by omega)]
      rw [hvictim]
      cases hfind : s.cpu.union.findVictim with
      | none =>
          refine ⟨OnlyCpu.refl h, rfl, ?_⟩
          intro hroom
          cases hroom
      | some victim =>
          obtain ⟨honly, haside⟩ := interleave_onlyCpu h
          simp only [post_bind, interleave, post_modify, post_pure]
          apply (post_deleteCpuNode honly.cpu victim).imp
          · rintro _ t ⟨ht, htable, hcapacity, hsize⟩
            refine ⟨honly.trans ht, ?_, ?_⟩
            · rw [htable, haside.hashTable]
              rfl
            · intro _
              rw [haside.size] at hsize
              rw [hcapacity, haside.capacity]
              have hle := h.wf.size_le
              omega
          · intro e t ht
            exact honly.andFault ht
  · next hroom =>
      have hvictim : allocVictim s.cpu.union = none := by
        unfold allocVictim
        rw [if_pos (Or.inr (Or.inr (by omega)))]
      rw [hvictim]
      refine ⟨OnlyCpu.refl h, rfl, ?_⟩
      intro _
      omega

private theorem claimCpuSpan_onlyCpu (h : CpuInv cfg s.cpu batch extra) (count : Nat) :
    Post (claimCpuSpan count) s
      (fun spans t => t.cpu.union.hashTable = s.cpu.union.hashTable ∧
        t.cpu.union.capacity = s.cpu.union.capacity ∧ t.cpu.union.nodes = s.cpu.union.nodes ∧
        match spans with
        | none => OnlyCpu cfg s t batch extra
        | some spans => OnlyCpu cfg s t batch (extra ++ spans) ∧ spans.length = count)
      (CpuFault cfg s) := by
  unfold claimCpuSpan
  simp only [post_bind, post_get, post_modifyCpu, post_pure]
  cases hclaim : s.cpu.union.spanManager.claimSpan count with
  | mk spans m' =>
      refine ⟨trivial, trivial, trivial, ?_⟩
      cases spans with
      | none =>
          rw [SpanManager.claimSpan_none hclaim]
          exact OnlyCpu.step h (Moved.refl _ _)
      | some spans =>
          have hc := SpanManager.claimSpan_some hclaim
          refine ⟨OnlyCpu.step (h.claim hc) ?_, hc.length_eq⟩
          exact ⟨Nat.le_refl _, fun _ _ => ⟨_, _, rfl, id⟩, List.suffix_refl _, rfl,
            fun hl => Or.inl ⟨hl, rfl⟩⟩

/-- A node allocated for a hash that neither the table nor the batch has. Once
it exists the table has room, so that no later allocation evicts. -/
theorem post_allocCpuNode (h : CpuInv cfg s.cpu batch []) {hash : Hash}
    (habsent : s.cpu.union.lookup hash = none)
    (hhash : hash ∉ batch.map (fun n => (s.cpu.union.nodes n).hash)) (prefixLen ts : Nat) :
    Post (allocCpuNode cfg.layerNum prefixLen ts hash) s
      (fun result t =>
        t.cpu.union.hashTable = dropEntry s.cpu.union.hashTable (allocVictim s.cpu.union) ∧
        match result with
        | none => OnlyCpu cfg s t batch []
        | some n => OnlyCpu cfg s t (batch ++ [n]) [] ∧ (t.cpu.union.nodes n).hash = hash ∧
            t.cpu.union.size < t.cpu.union.capacity)
      (CpuFault cfg s) := by
  unfold allocCpuNode
  rw [post_bind, post_get]
  split
  · next hzero =>
      have hvictim : allocVictim s.cpu.union = none := by simp [allocVictim, hzero]
      rw [hvictim]
      exact ⟨rfl, OnlyCpu.refl h⟩
  · next hcap =>
      split
      · next hnone =>
          have hvictim : allocVictim s.cpu.union = none := by simp [allocVictim, hnone]
          rw [hvictim]
          exact ⟨rfl, OnlyCpu.refl h⟩
      · next hfree =>
          rw [post_bind]
          apply (post_evictCpuNode h hcap (by omega)).imp _ (fun _ _ he => he)
          rintro room t ⟨ht, htable, hroom⟩
          cases room with
          | false => exact ⟨htable, ht⟩
          | true =>
              rw [if_pos rfl, post_bind]
              apply (claimCpuSpan_onlyCpu ht.cpu cfg.layerNum).imp _ (fun _ _ he => ht.andFault he)
              rintro kCache v ⟨hvtable, hvcap, hvnodes, hv⟩
              rw [post_bind]
              cases kCache with
              | none =>
                  apply (claimCpuSpan_onlyCpu hv.cpu cfg.layerNum).imp _
                    (fun _ _ he => (ht.trans hv).andFault he)
                  rintro vCache w ⟨hwtable, _, _, hw⟩
                  refine ⟨by rw [hwtable, hvtable, htable], ?_⟩
                  have hforget : OnlyCpu cfg v w batch [] := by
                    cases vCache with
                    | none => exact hw
                    | some vCache => exact ⟨hw.1.gpu, hw.1.seqLenThre, hw.1.cpu.forget, hw.1.moved⟩
                  exact (ht.trans hv).trans hforget
              | some kCache =>
                  apply (claimCpuSpan_onlyCpu hv.1.cpu cfg.layerNum).imp _
                    (fun _ _ he => (ht.trans hv.1).andFault he)
                  rintro vCache w ⟨hwtable, hwcap, hwnodes, hw⟩
                  have hwt : w.cpu.union.hashTable = t.cpu.union.hashTable := by
                    rw [hwtable, hvtable]
                  cases vCache with
                  | none =>
                      refine ⟨by rw [hwt, htable], ?_⟩
                      exact ⟨((ht.trans hv.1).trans hw).gpu, ((ht.trans hv.1).trans hw).seqLenThre,
                        hw.cpu.forget, ((ht.trans hv.1).trans hw).moved⟩
                  | some vCache =>
                      have hall := (ht.trans hv.1).trans hw.1
                      have hlen : kCache.length = vCache.length := by rw [hv.2, hw.2]
                      have hdrop : w.cpu.union.lookup hash = none := by
                        unfold lookup
                        rw [hwt, htable, lookup_dropEntry]
                        split
                        · rfl
                        · exact habsent
                      have hfresh : hash ∉ batch.map (fun n => (w.cpu.union.nodes n).hash) := by
                        intro hmem
                        obtain ⟨n, hn, heq⟩ := List.mem_map.mp hmem
                        rw [hall.moved.hash (h.batchNode n hn).lt_next] at heq
                        exact hhash (List.mem_map.mpr ⟨n, hn, heq⟩)
                      have hcreate := hw.1.cpu.createNode hv.2 hw.2 hdrop hfresh prefixLen ts
                      simp only [post_bind, createCpuNode, hlen, ne_eq, not_true, if_false,
                        post_get, post_modifyCpu, post_pure]
                      refine ⟨by rw [← htable, ← hwt]; rfl, ?_, ?_, ?_⟩
                      · refine hall.trans (OnlyCpu.step hcreate ?_)
                        refine ⟨Nat.le_succ _, ?_, List.suffix_refl _, rfl,
                          fun hl => Or.inl ⟨hl, rfl⟩⟩
                        intro n hn
                        change ∃ _ _, (w.cpu.union.createNode _ _ _ _ _).2.nodes n = _ ∧ _
                        rw [createNode_nodes _ _ _ _ _ hn]
                        exact ⟨_, _, rfl, id⟩
                      · change (Function.update w.cpu.union.nodes w.cpu.union.nextNode _
                          w.cpu.union.nextNode).hash = hash
                        rw [Function.update_self]
                      · change w.cpu.union.size < w.cpu.union.capacity
                        have hsize : w.cpu.union.size = t.cpu.union.size := by
                          unfold size
                          rw [hwt]
                        rw [hsize, hwcap, hvcap]
                        exact hroom rfl

/-- The GPU node a CPU node was allocated for has its hash. -/
def Paired (g : GpuSide E D) (c : CpuSide E D) (pairs : List (NodeId × NodeId)) : Prop :=
  ∀ p ∈ pairs, g.union.lookup (c.union.nodes p.2).hash = some p.1

/-- The entry that a swap-out of the given hashes evicts. -/
def swapVictim (u : CacheUnion E) (hashes : List Hash) : Option Hash :=
  if ∀ hash ∈ hashes, (u.lookup hash).isSome then none else allocVictim u

private theorem swapVictim_cons_present {u : CacheUnion E} {hash : Hash}
    (hpresent : (u.lookup hash).isSome) (rest : List Hash) :
    swapVictim u (hash :: rest) = swapVictim u rest := by
  unfold swapVictim
  simp [hpresent]

private theorem swapVictim_cons_absent {u : CacheUnion E} {hash : Hash}
    (habsent : u.lookup hash = none) (rest : List Hash) :
    swapVictim u (hash :: rest) = allocVictim u := by
  unfold swapVictim
  simp [habsent]

private theorem swapVictim_of_room {u : CacheUnion E} (hroom : u.size < u.capacity)
    (hashes : List Hash) : swapVictim u hashes = none := by
  unfold swapVictim allocVictim
  simp [hroom]

theorem swapVictim_congr {u u' : CacheUnion E} (htable : u'.hashTable = u.hashTable)
    (hcap : u'.capacity = u.capacity) (hspan : u'.spanManager = u.spanManager)
    (hevictor : u'.evictor = u.evictor) (hhash : ∀ n, (u'.nodes n).hash = (u.nodes n).hash)
    (hashes : List Hash) : swapVictim u' hashes = swapVictim u hashes := by
  have hfind : u'.findVictim = u.findVictim := by
    unfold findVictim candidates
    rw [hevictor]
    cases (E.toList u.evictor).head? with
    | none => rfl
    | some n => simp [hhash]
  unfold swapVictim allocVictim countFreeFrame size lookup
  simp only [htable, hcap, hspan, hfind]

/-- The allocation phase of a swap-out. -/
theorem post_collectSwapOut {out : SpanId → Prop} (hashes : List Hash)
    (h : CpuInv cfg s.cpu batch []) (hgpu : Wf cfg.layerNum s.gpu.union out)
    (hnodup : hashes.Nodup)
    (hfresh : ∀ hash ∈ hashes, hash ∉ batch.map (fun n => (s.cpu.union.nodes n).hash)) :
    Post (collectSwapOut gpuAt hashes) s
      (fun pairs t => OnlyCpu cfg s t (batch ++ pairs.map Prod.snd) [] ∧
        Paired s.gpu t.cpu pairs ∧ (∀ p ∈ pairs, (t.cpu.union.nodes p.2).hash ∈ hashes) ∧
        t.cpu.union.hashTable =
          dropEntry s.cpu.union.hashTable (swapVictim s.cpu.union hashes))
      (CpuFault cfg s) := by
  induction hashes generalizing s batch with
  | nil =>
      refine ⟨?_, ?_, ?_, ?_⟩
      · rw [List.map_nil, List.append_nil]
        exact OnlyCpu.refl h
      · intro p hp
        cases hp
      · intro p hp
        cases hp
      · simp [swapVictim, dropEntry]
  | cons hash rest ih =>
      unfold collectSwapOut gpuAt
      simp only [post_bind, post_get]
      cases hl : s.gpu.union.lookup hash with
      | none => exact (OnlyCpu.refl h).fault _
      | some src =>
          rw [post_pure]
          have hsrc := hgpu.hash_eq hl
          have hrest := (List.nodup_cons.mp hnodup)
          rw [hsrc]
          split
          · next hpresent =>
              simp only [post_bind, post_modifyCpu]
              have hinv := h.updateNodeTs hash (s.gpu.union.nodes src).lastAccessTime
              have hkept := kept_updateNodeTs (u := s.cpu.union)
                (s.gpu.union.nodes src).lastAccessTime hash
              have hstep := OnlyCpu.step (s := s) hinv (Moved.updateNodeTs hash _)
              apply (ih hstep.cpu hgpu hrest.2 ?_).imp
              · rintro pairs t ⟨ht, hpaired, hhashes, htable⟩
                refine ⟨hstep.trans ht, hpaired, ?_, ?_⟩
                · intro p hp
                  exact List.mem_cons_of_mem _ (hhashes p hp)
                · rw [htable, swapVictim_cons_present hpresent]
                  change dropEntry (s.cpu.union.updateNodeTs hash _).hashTable
                    (swapVictim (s.cpu.union.updateNodeTs hash _) rest) = _
                  rw [hkept.hashTable, swapVictim_congr hkept.hashTable hkept.capacity
                    hkept.spanManager _ hkept.hash]
                  unfold CacheUnion.updateNodeTs
                  split <;> rfl
              · intro e t ht
                exact hstep.andFault ht
              · intro other hother hmem
                apply hfresh other (List.mem_cons_of_mem _ hother)
                obtain ⟨n, hn, heq⟩ := List.mem_map.mp hmem
                refine List.mem_map.mpr ⟨n, hn, ?_⟩
                rw [← heq]
                exact (hkept.hash n).symm
          · next habsent =>
              have hnone : s.cpu.union.lookup hash = none :=
                transverseHashTable_eq_false_iff.mp (by simpa using habsent)
              have hcache : (s.gpu.union.nodes src).cacheNum = cfg.layerNum := hgpu.kLength hl
              rw [hcache, post_bind]
              apply (post_allocCpuNode h hnone (hfresh hash (List.mem_cons_self ..)) _ _).imp _
                (fun _ _ he => he)
              rintro result t ⟨htable, ht⟩
              rw [swapVictim_cons_absent hnone]
              cases result with
              | none =>
                  refine ⟨?_, ?_, ?_, htable⟩
                  · rw [List.map_nil, List.append_nil]
                    exact ht
                  · intro p hp
                    cases hp
                  · intro p hp
                    cases hp
              | some n =>
                  obtain ⟨ht, hhash, hroom⟩ := ht
                  have hgpu' : Wf cfg.layerNum t.gpu.union out := by
                    rw [ht.gpu]
                    exact hgpu
                  rw [post_bind]
                  apply (ih ht.cpu hgpu' hrest.2 ?_).imp
                  · rintro pairs v ⟨hv, hpaired, hhashes, hvtable⟩
                    have hn : n < t.cpu.union.nextNode :=
                      (ht.cpu.batchNode n (by simp)).lt_next
                    have hvhash := hv.moved.hash hn
                    refine ⟨?_, ?_, ?_, ?_⟩
                    · have hall := ht.trans hv
                      rw [List.append_assoc] at hall
                      exact hall
                    · intro p hp
                      rcases List.mem_cons.mp hp with rfl | hp
                      · rw [hvhash, hhash]
                        exact hl
                      · rw [← ht.gpu]
                        exact hpaired p hp
                    · intro p hp
                      rcases List.mem_cons.mp hp with rfl | hp
                      · rw [hvhash, hhash]
                        exact List.mem_cons_self ..
                      · exact List.mem_cons_of_mem _ (hhashes p hp)
                    · rw [hvtable, swapVictim_of_room hroom, htable]
                      rfl
                  · intro e v hv
                    exact ht.andFault hv
                  · intro other hother hmem
                    obtain ⟨m, hm, heq⟩ := List.mem_map.mp hmem
                    rcases List.mem_append.mp hm with hm | hm
                    · apply hfresh other (List.mem_cons_of_mem _ hother)
                      rw [ht.moved.hash (h.batchNode m hm).lt_next] at heq
                      exact List.mem_map.mpr ⟨m, hm, heq⟩
                    · rw [List.mem_singleton.mp hm, hhash] at heq
                      exact hrest.1 (heq ▸ hother)

/-- A workspace block is taken, or the caller waits for one for ever; a
request within the size limits is not refused. -/
theorem post_checkedBlock (h : CpuInv cfg s.cpu batch extra) (spanNum : Nat) :
    Post (checkedBlock cfg spanNum) s
      (fun block t => OnlyCpu cfg s t batch extra ∧
        t.cpu.union.hashTable = s.cpu.union.hashTable ∧ t.cpu.heldBlock = some block ∧
        ∀ task ∈ t.cpu.tasks, task.block ≠ block)
      (fun e t => e = .blocked ∨
        (cfg.maxNumSpans * cfg.spanPerNode < spanNum ∧ OnlyCpu cfg s t batch extra)) := by
  unfold checkedBlock
  split
  · next hbig => exact Or.inr ⟨hbig, OnlyCpu.refl h⟩
  · next hsmall =>
      obtain ⟨honly, haside⟩ := interleave_onlyCpu h
      simp only [post_bind, queryBlock, interleave, post_modify, post_get]
      cases hblocks : s.interleave.cpu.availableBlocks with
      | nil => exact Or.inl rfl
      | cons block rest =>
          obtain ⟨hinv, hfree⟩ := honly.cpu.takeBlock hblocks
          simp only [post_bind, post_modifyCpu, post_pure]
          have hfit : ¬ blockSpanNum cfg < spanNum := by
            have hbatch := cfg.maxBatch_pos
            have hle : cfg.maxNumSpans * cfg.spanPerNode ≤ blockSpanNum cfg := by
              unfold blockSpanNum
              exact Nat.mul_le_mul_right _ (Nat.le_mul_of_pos_right _ hbatch)
            omega
          rw [if_neg hfit]
          exact ⟨honly.trans (OnlyCpu.step hinv (Moved.of_same rfl rfl rfl)), haside.hashTable,
            rfl, hfree⟩

private theorem flatMap_getElem_uniform {α β : Type} {f : α → List β} {width : Nat}
    {l : List α} (hwidth : ∀ a ∈ l, (f a).length = width) {i j : Nat} {a : α}
    (hi : l[i]? = some a) (hj : j < width) :
    (l.flatMap f)[i * width + j]? = (f a)[j]? := by
  induction l generalizing i with
  | nil => cases hi
  | cons b rest ih =>
      have hb := hwidth b (List.mem_cons_self ..)
      rw [List.flatMap_cons]
      cases i with
      | zero =>
          obtain rfl : b = a := by simpa using hi
          rw [List.getElem?_append_left (by omega)]
          simp
      | succ i =>
          have hlen : (f b).length ≤ (i + 1) * width + j := by
            rw [hb, Nat.succ_mul]
            omega
          rw [List.getElem?_append_right hlen, hb]
          have hidx : (i + 1) * width + j - width = i * width + j := by
            rw [Nat.succ_mul]
            omega
          rw [hidx]
          exact ih (fun c hc => hwidth c (List.mem_cons_of_mem _ hc)) (by simpa using hi)

/-- The insertion loop of a swap-out: the batch enters the table. -/
private theorem post_insertBatch (pairs : List (NodeId × NodeId)) (rest : List NodeId)
    (h : CpuInv cfg s.cpu (pairs.map Prod.snd ++ rest) []) :
    Post (forEach (fun (p : NodeId × NodeId) => modifyCpu (fun c => { c with
        union := c.union.insertNode (c.union.nodes p.2).hash p.2 })) pairs) s
      (fun _ t => t = { s with cpu := { s.cpu with union := t.cpu.union } } ∧
        CpuInv cfg t.cpu rest [] ∧ t.cpu.union.nodes = s.cpu.union.nodes ∧
        t.cpu.union.nextNode = s.cpu.union.nextNode ∧
        (∀ p ∈ pairs, t.cpu.union.lookup (s.cpu.union.nodes p.2).hash = some p.2) ∧
        (∀ {hash n}, s.cpu.union.lookup hash = some n → t.cpu.union.lookup hash = some n) ∧
        ∀ {hash n}, t.cpu.union.lookup hash = some n → s.cpu.union.lookup hash = some n ∨
          ∃ p ∈ pairs, p.2 = n ∧ (s.cpu.union.nodes n).hash = hash)
      (fun _ _ => False) := by
  induction pairs generalizing s with
  | nil =>
      refine ⟨rfl, h, rfl, rfl, ?_, id, Or.inl⟩
      intro p hp
      cases hp
  | cons p pairs ih =>
      obtain ⟨hinv, hnodes, hlook, _⟩ := h.insertNode
      have habsent := (h.batchNode p.2 (List.mem_cons_self ..)).absent
      rw [forEach, post_bind]
      simp only [post_modifyCpu]
      apply (ih hinv).imp _ (fun _ _ he => he)
      rintro _ t ⟨hs, ht, htnodes, htnext, hin, hold, hnew⟩
      refine ⟨hs, ht, htnodes.trans hnodes, ?_, ?_, ?_, ?_⟩
      · rw [htnext]
        exact insertNode_nextNode _ _
      · intro q hq
        rcases List.mem_cons.mp hq with rfl | hq
        · apply hold
          rw [hlook, if_pos rfl]
        · have hq' := hin q hq
          rw [hnodes] at hq'
          exact hq'
      · intro hash n hl
        apply hold
        rw [hlook, if_neg]
        · exact hl
        · rintro rfl
          rw [habsent] at hl
          cases hl
      · intro hash n hl
        rcases hnew hl with hl | ⟨q, hq, heq, hhash⟩
        · rw [hlook] at hl
          split at hl
          · next heq =>
              cases hl
              exact Or.inr ⟨p, List.mem_cons_self .., rfl, heq.symm⟩
          · exact Or.inl hl
        · rw [hnodes] at hhash
          exact Or.inr ⟨q, List.mem_cons_of_mem _ hq, heq, hhash⟩

private theorem interleave_awaiting {block : WsBlock} {cacheNum : Nat}
    {rest : List (NodeId × Nat)} (h : Awaiting s.cpu block cacheNum rest) :
    Awaiting s.interleave.cpu block cacheNum rest := by
  unfold State.interleave
  split
  · exact h
  · exact h.stepTasks _

/-- The queueing loop of a swap-out: one task per new node, and tasks may run
as soon as they are queued. -/
private theorem post_queueTasks {block : WsBlock} {cacheNum : Nat} (new : List (NodeId × Nat))
    (h : CpuInv cfg s.cpu batch []) (hheld : s.cpu.heldBlock = some block)
    (hwait : NoLoss s.cpu.log → Awaiting s.cpu block cacheNum new) :
    Post (forEach (fun (p : NodeId × Nat) => do
        modifyCpu (fun c => { c with tasks := c.tasks ++ [copyTask c.union block cacheNum p] })
        interleave) new) s
      (fun _ t => t.gpu = s.gpu ∧ t.seqLenThre = s.seqLenThre ∧ CpuInv cfg t.cpu batch [] ∧
        Aside s.cpu t.cpu)
      (fun _ _ => False) := by
  induction new generalizing s with
  | nil => exact ⟨rfl, rfl, h, Aside.refl _⟩
  | cons p new ih =>
      obtain ⟨hinv, hawait⟩ := h.enqueue hheld hwait
      rw [forEach]
      simp only [post_bind, post_modifyCpu, interleave, post_modify]
      obtain ⟨honly, haside⟩ := interleave_onlyCpu (s := { s with
        cpu := { s.cpu with tasks := s.cpu.tasks ++ [copyTask s.cpu.union block cacheNum p] } }) hinv
      have hnext : NoLoss _ → Awaiting _ block cacheNum new :=
        fun hloss => interleave_awaiting (s := { s with
          cpu := { s.cpu with tasks := s.cpu.tasks ++ [copyTask s.cpu.union block cacheNum p] } })
          (hawait (haside.log ▸ hloss))
      apply (ih honly.cpu (haside.heldBlock.trans hheld) hnext).imp _ (fun _ _ he => he)
      rintro _ t ⟨hgpu, hthre, ht, htaside⟩
      refine ⟨hgpu.trans honly.gpu, hthre.trans honly.seqLenThre, ht, Aside.trans ?_ htaside⟩
      exact ⟨haside.hashTable, haside.nextNode, haside.capacity, haside.spanManager,
        haside.evictor, haside.node, haside.origin, haside.heldBlock, haside.log⟩

/-- The content recorded for the nodes of a batch. -/
private def batchOrigin (pairs : List (NodeId × NodeId)) (contentsOf : NodeId → List D)
    (origin : NodeId → List D) (n : NodeId) : List D :=
  ((pairs.find? (fun p => p.2 = n)).map (fun p => contentsOf p.1)).getD (origin n)

private theorem batchOrigin_of_mem {g : GpuSide E D} {c : CpuSide E D}
    {pairs : List (NodeId × NodeId)} (hpaired : Paired g c pairs) (contentsOf : NodeId → List D)
    {p : NodeId × NodeId} (hp : p ∈ pairs) :
    batchOrigin pairs contentsOf c.origin p.2 = contentsOf p.1 := by
  unfold batchOrigin
  cases hfind : pairs.find? (fun q => q.2 = p.2) with
  | none =>
      have hnone := List.find?_eq_none.mp hfind p hp
      simp at hnone
  | some q =>
      have hq : q.2 = p.2 := by simpa using List.find?_some hfind
      have hlq := hpaired q (List.mem_of_find?_eq_some hfind)
      rw [hq, hpaired p hp] at hlq
      simp only [Option.map_some, Option.getD_some]
      rw [Option.some.inj hlq]

private theorem batchOrigin_of_not_mem {pairs : List (NodeId × NodeId)} {n : NodeId}
    (hn : n ∉ pairs.map Prod.snd) (contentsOf origin : NodeId → List D) :
    batchOrigin pairs contentsOf origin n = origin n := by
  unfold batchOrigin
  have hnone : pairs.find? (fun p => p.2 = n) = none := by
    apply List.find?_eq_none.mpr
    intro p hp heq
    exact hn (List.mem_map.mpr ⟨p, hp, by simpa using heq⟩)
  simp [hnone]

/-- A table that gained entries under the given hashes and lost none. -/
structure Gained (u u' : CacheUnion E) (hashes : List Hash) : Prop where
  keeps : ∀ {hash n}, u.lookup hash = some n → u'.lookup hash = some n
  only : ∀ {hash n}, u'.lookup hash = some n → u.lookup hash = some n ∨ hash ∈ hashes

/-- Once the batch is laid out in the block and in the table, every node of it
waits for its task. -/
private theorem awaiting_batch {c c' : CpuSide E D} {g : GpuSide E D} {out : SpanId → Prop}
    {pairs : List (NodeId × NodeId)} {rest : List NodeId} {block : WsBlock}
    {contentsOf : NodeId → List D} (h : CpuInv cfg c (pairs.map Prod.snd ++ rest) [])
    (hgpu : Wf cfg.layerNum g.union out) (hpaired : Paired g c pairs)
    (hcontents : ∀ n, (contentsOf n).length = (g.union.nodes n).spans.length)
    (hnodes : c'.union.nodes = c.union.nodes) (htasks : c'.tasks = c.tasks)
    (horigin : c'.origin = batchOrigin pairs contentsOf c.origin)
    (hcached : ∀ p ∈ pairs, c'.union.lookup (c.union.nodes p.2).hash = some p.2)
    (hws : ∀ idx d, (pairs.flatMap (fun p => contentsOf p.1))[idx]? = some d →
      c'.workspace block idx = d) (hloss : NoLoss c.log) :
    Awaiting c' block cfg.layerNum ((pairs.map Prod.snd).zipIdx) := by
  have hwidth : ∀ p ∈ pairs, (contentsOf p.1).length = 2 * cfg.layerNum := by
    intro p hp
    rw [hcontents]
    exact hgpu.spans_length (hpaired p hp)
  have hentry : ∀ q ∈ (pairs.map Prod.snd).zipIdx, ∃ p ∈ pairs, pairs[q.2]? = some p ∧ q.1 = p.2 := by
    rintro ⟨n, i⟩ hq
    have hget := List.mk_mem_zipIdx_iff_getElem?.mp hq
    rw [List.getElem?_map] at hget
    cases hp : pairs[i]? with
    | none =>
        rw [hp] at hget
        cases hget
    | some p =>
        rw [hp] at hget
        exact ⟨p, List.mem_of_getElem? hp, rfl, (Option.some.inj hget).symm⟩
  have hbatch : ∀ p ∈ pairs, p.2 ∈ pairs.map Prod.snd ++ rest :=
    fun p hp => List.mem_append_left _ (List.mem_map_of_mem hp)
  refine
    { nodup := ?_
      cached := ?_
      notReady := ?_
      untasked := ?_
      spans := ?_
      origin := ?_
      laid := ?_ }
  · have hmap : (pairs.map Prod.snd).zipIdx.map Prod.fst = pairs.map Prod.snd := by simp
    rw [hmap]
    have hnodup := h.hash_nodup
    rw [List.map_append] at hnodup
    exact List.Nodup.of_map _ (List.nodup_append.mp hnodup).1
  · intro q hq
    obtain ⟨p, hp, _, heq⟩ := hentry q hq
    rw [heq, hnodes]
    exact hcached p hp
  · intro q hq
    obtain ⟨p, hp, _, heq⟩ := hentry q hq
    rw [heq, hnodes]
    exact h.notReady hloss p.2 (hbatch p hp)
  · intro q hq hmem
    obtain ⟨p, hp, _, heq⟩ := hentry q hq
    rw [htasks] at hmem
    obtain ⟨task, ht, hnode⟩ := List.mem_map.mp hmem
    have hl := ((h.copies hloss).tasked task ht).1
    rw [hnode, heq, (h.batchNode p.2 (hbatch p hp)).absent] at hl
    cases hl
  · intro q hq
    obtain ⟨p, hp, _, heq⟩ := hentry q hq
    have hb := h.batchNode p.2 (hbatch p hp)
    rw [heq, hnodes, PrefixNode.spans_length _ (hb.vLength.trans hb.kLength.symm)]
    unfold PrefixNode.cacheNum
    rw [hb.kLength]
  · intro q hq
    obtain ⟨p, hp, _, heq⟩ := hentry q hq
    rw [heq, horigin, batchOrigin_of_mem hpaired contentsOf hp]
    exact hwidth p hp
  · intro q hq j d hd
    obtain ⟨p, hp, hget, heq⟩ := hentry q hq
    rw [heq, horigin, batchOrigin_of_mem hpaired contentsOf hp] at hd
    apply hws
    have hj : j < 2 * cfg.layerNum := by
      rw [← hwidth p hp]
      exact (List.getElem?_eq_some_iff.mp hd).1
    rw [flatMap_getElem_uniform hwidth hget hj]
    exact hd

/-- One piece of a swap-out. -/
theorem post_swapNodelistToCpuImpl {out : SpanId → Prop} (pairs : List (NodeId × NodeId))
    (rest : List NodeId) (h : CpuInv cfg s.cpu (pairs.map Prod.snd ++ rest) [])
    (hgpu : Wf cfg.layerNum s.gpu.union out) (hpaired : Paired s.gpu s.cpu pairs) :
    Post (swapNodelistToCpuImpl cfg pairs) s
      (fun _ t => OnlyCpu cfg s t rest [] ∧ Gained s.cpu.union t.cpu.union
        (pairs.map (fun p => (s.cpu.union.nodes p.2).hash)))
      (CpuFault cfg s) := by
  unfold swapNodelistToCpuImpl
  rw [post_bind, post_get]
  cases hpairs : pairs.head? with
  | none =>
      have hnil : pairs = [] := List.head?_eq_none_iff.mp hpairs
      subst hnil
      exact ⟨OnlyCpu.refl h, id, Or.inl⟩
  | some first =>
      have hfirst := hpaired first (List.mem_of_mem_head? hpairs)
      have hcache : (s.gpu.union.nodes first.1).cacheNum = cfg.layerNum := hgpu.kLength hfirst
      dsimp only
      rw [hcache, post_bind]
      apply (post_checkedBlock h _).imp
      swap
      · rintro e t (he | ⟨_, ht⟩)
        · exact Or.inl he
        · exact ht.fault e
      rintro block t ⟨ht, httable, hheld, hfree⟩
      have hgpu' : Wf cfg.layerNum t.gpu.union out := by
        rw [ht.gpu]
        exact hgpu
      have hpaired' : Paired t.gpu t.cpu pairs := by
        intro p hp
        have hlt := (h.batchNode p.2 (List.mem_append_left _ (List.mem_map_of_mem hp))).lt_next
        rw [ht.moved.hash hlt, ht.gpu]
        exact hpaired p hp
      simp only [post_bind, post_get, post_modifyCpu]
      let contentsOf := fun n =>
        contents t.gpu.mem t.gpu.union.spanManager (t.gpu.union.nodes n).spans
      let data := pairs.flatMap (fun p => contentsOf p.1)
      have hfill := ht.cpu.fillBlock hfree data
      have habsent : ∀ {hash n}, t.cpu.union.lookup hash = some n → n ∉ pairs.map Prod.snd := by
        intro hash n hl hmem
        have hb := ht.cpu.batchNode n (List.mem_append_left _ hmem)
        rw [← ht.cpu.wf.hash_eq hl] at hl
        rw [hb.absent] at hl
        cases hl
      have hset := hfill.setOrigin (batchOrigin pairs contentsOf t.cpu.origin)
        (fun hl => batchOrigin_of_not_mem (habsent hl) _ _)
      apply (post_insertBatch (s := { t with cpu := { fillBlock t.cpu block data with
        origin := batchOrigin pairs contentsOf t.cpu.origin } }) pairs rest hset).imp _
        (fun _ _ he => he.elim)
      rintro _ v ⟨hv, hvinv, hvnodes, hvnext, hvin, hvold, hvnew⟩
      have hvlog : v.cpu.log = t.cpu.log := by rw [hv]; rfl
      have hvorigin : v.cpu.origin = batchOrigin pairs contentsOf t.cpu.origin := by rw [hv]
      have hvheld : v.cpu.heldBlock = some block := by rw [hv]; exact hheld
      have hvtasks : v.cpu.tasks = t.cpu.tasks := by rw [hv]; rfl
      have hvws : ∀ idx d, data[idx]? = some d → v.cpu.workspace block idx = d := by
        intro idx d hd
        rw [hv]
        simp [fillBlock, hd]
      have hwait : NoLoss v.cpu.log →
          Awaiting v.cpu block cfg.layerNum ((pairs.map Prod.snd).zipIdx) := by
        intro hloss
        rw [hvlog] at hloss
        exact awaiting_batch ht.cpu hgpu' hpaired' (fun n => by simp [contentsOf, contents])
          hvnodes hvtasks hvorigin hvin hvws hloss
      have hmoved : Moved t.gpu t.cpu v.cpu := by
        refine ⟨Nat.le_of_eq hvnext.symm, ?_, ?_, ?_, ?_⟩
        · intro n _
          rw [hvnodes]
          exact ⟨_, _, rfl, id⟩
        · rw [hvlog]
        · rw [hvlog]
        · intro hash n hl
          rw [hvorigin]
          rcases hvnew hl with hl | ⟨p, hp, rfl, hhash⟩
          · exact Or.inl ⟨hl, batchOrigin_of_not_mem (habsent hl) _ _⟩
          · refine Or.inr ⟨p.1, ?_, ?_⟩
            · rw [← hhash]
              exact hpaired' p hp
            · exact batchOrigin_of_mem hpaired' contentsOf hp
      have hvgpu : v.gpu = t.gpu := by rw [hv]
      have hvthre : v.seqLenThre = t.seqLenThre := by rw [hv]
      have hv' : OnlyCpu cfg t v rest [] := ⟨hvgpu, hvthre, hvinv, hmoved⟩
      apply (post_queueTasks _ hvinv hvheld hwait).imp _ (fun _ _ he => he.elim)
      rintro _ w ⟨hwgpu, hwthre, hwinv, hwaside⟩
      have hw' : OnlyCpu cfg v w rest [] := ⟨hwgpu, hwthre, hwinv, Moved.of_aside hwaside⟩
      obtain ⟨hdinv, hdaside⟩ := hwinv.dropHeldBlock
      have hclear : Moved w.gpu w.cpu { w.cpu with heldBlock := none } :=
        Moved.of_same rfl rfl rfl
      have hd' : OnlyCpu cfg w { w with cpu := w.cpu.dropHeldBlock } rest [] :=
        OnlyCpu.step hdinv (hclear.trans (Moved.of_aside hdaside))
      refine ⟨((ht.trans hv').trans hw').trans hd', ?_, ?_⟩
      · intro hash n hl
        change w.cpu.dropHeldBlock.union.lookup hash = some n
        rw [hdaside.lookup]
        change w.cpu.union.lookup hash = some n
        rw [hwaside.lookup]
        apply hvold
        unfold lookup
        change t.cpu.union.hashTable.lookup hash = some n
        rw [httable]
        exact hl
      · intro hash n hl
        change w.cpu.dropHeldBlock.union.lookup hash = some n at hl
        rw [hdaside.lookup] at hl
        change w.cpu.union.lookup hash = some n at hl
        rw [hwaside.lookup] at hl
        rcases hvnew hl with hl | ⟨p, hp, rfl, hhash⟩
        · left
          unfold lookup at hl ⊢
          rw [← httable]
          exact hl
        · right
          have hlt := (h.batchNode p.2 (List.mem_append_left _ (List.mem_map_of_mem hp))).lt_next
          refine List.mem_map.mpr ⟨p, hp, ?_⟩
          rw [← hhash, ← ht.moved.hash hlt]
          rfl

private theorem Gained.trans {u u' u'' : CacheUnion E} {hashes hashes' : List Hash}
    (h : Gained u u' hashes) (h' : Gained u' u'' hashes') : Gained u u'' (hashes ++ hashes') where
  keeps hl := h'.keeps (h.keeps hl)
  only hl := by
    rcases h'.only hl with hl | hin
    · exact (h.only hl).imp id (List.mem_append_left _)
    · exact Or.inr (List.mem_append_right _ hin)

/-- The pieces of a swap-out, one after the other. -/
theorem post_swapPieces {out : SpanId → Prop} (fuel : Nat) (pairs : List (NodeId × NodeId))
    (hfuel : pairs.length ≤ fuel) (h : CpuInv cfg s.cpu (pairs.map Prod.snd) [])
    (hgpu : Wf cfg.layerNum s.gpu.union out) (hpaired : Paired s.gpu s.cpu pairs) :
    Post (forEach (swapNodelistToCpuImpl cfg) (slices cfg.maxNumSpans fuel pairs)) s
      (fun _ t => OnlyCpu cfg s t [] [] ∧ Gained s.cpu.union t.cpu.union
        (pairs.map (fun p => (s.cpu.union.nodes p.2).hash)))
      (CpuFault cfg s) := by
  induction fuel generalizing s pairs with
  | zero =>
      have hnil : pairs = [] := List.length_eq_zero_iff.mp (Nat.le_zero.mp hfuel)
      subst hnil
      exact ⟨OnlyCpu.refl h, id, Or.inl⟩
  | succ fuel ih =>
      cases hcase : pairs with
      | nil =>
          subst hcase
          exact ⟨OnlyCpu.refl h, id, Or.inl⟩
      | cons first tail =>
          rw [slices, ← hcase, forEach, post_bind]
          have hsplit : pairs = pairs.take cfg.maxNumSpans ++ pairs.drop cfg.maxNumSpans :=
            (List.take_append_drop _ _).symm
          have hpieces : CpuInv cfg s.cpu ((pairs.take cfg.maxNumSpans).map Prod.snd ++
              (pairs.drop cfg.maxNumSpans).map Prod.snd) [] := by
            rw [← List.map_append, ← hsplit]
            exact h
          have hlt : ∀ p ∈ pairs, p.2 < s.cpu.union.nextNode :=
            fun p hp => (h.batchNode p.2 (List.mem_map_of_mem hp)).lt_next
          apply (post_swapNodelistToCpuImpl _ _ hpieces hgpu
            (fun p hp => hpaired p (List.mem_of_mem_take hp))).imp _ (fun _ _ he => he)
          rintro _ t ⟨ht, hgained⟩
          have hdrop : (pairs.drop cfg.maxNumSpans).length ≤ fuel := by
            have hpos := cfg.maxNumSpans_pos
            have hne : 0 < pairs.length := by simp [hcase]
            rw [List.length_drop]
            omega
          have hgpu' : Wf cfg.layerNum t.gpu.union out := by
            rw [ht.gpu]
            exact hgpu
          have hpaired' : Paired t.gpu t.cpu (pairs.drop cfg.maxNumSpans) := by
            intro p hp
            have hmem := List.mem_of_mem_drop hp
            rw [ht.gpu, ht.moved.hash (hlt p hmem)]
            exact hpaired p hmem
          apply (ih _ hdrop ht.cpu hgpu' hpaired').imp _ (fun _ _ he => ht.andFault he)
          rintro _ v ⟨hv, hgained'⟩
          refine ⟨ht.trans hv, ?_⟩
          have hmap : (pairs.drop cfg.maxNumSpans).map (fun p => (t.cpu.union.nodes p.2).hash) =
              (pairs.drop cfg.maxNumSpans).map (fun p => (s.cpu.union.nodes p.2).hash) :=
            List.map_congr_left (fun p hp => ht.moved.hash (hlt p (List.mem_of_mem_drop hp)))
          have hall := hgained.trans hgained'
          rw [hmap, ← List.map_append, ← hsplit] at hall
          exact hall

/-- Swapping out GPU nodes by hash. Beside what every CPU program keeps, an
entry of the table under another hash stays unless it is the one victim. -/
theorem post_swapToCpuByHashlist {out : SpanId → Prop} (hashes : List Hash)
    (h : CpuInv cfg s.cpu [] []) (hgpu : Wf cfg.layerNum s.gpu.union out)
    (hnodup : hashes.Nodup) :
    Post (swapToCpuByHashlist cfg hashes) s
      (fun _ t => OnlyCpu cfg s t [] [] ∧
        ∀ hash n, s.cpu.union.lookup hash = some n → hash ∉ hashes →
          (t.cpu.union.lookup hash = some n ↔ swapVictim s.cpu.union hashes ≠ some hash))
      (CpuFault cfg s) := by
  unfold swapToCpuByHashlist swapToCpu
  rw [post_bind]
  apply (post_collectSwapOut hashes h hgpu hnodup (by simp)).imp _ (fun _ _ he => he)
  rintro pairs t ⟨ht, hpaired, hhashes, htable⟩
  have hgpu' : Wf cfg.layerNum t.gpu.union out := by
    rw [ht.gpu]
    exact hgpu
  have hpaired' : Paired t.gpu t.cpu pairs := by
    rw [ht.gpu]
    exact hpaired
  apply (post_swapPieces pairs.length pairs (Nat.le_refl _) ht.cpu hgpu' hpaired').imp _
    (fun _ _ he => ht.andFault he)
  rintro _ v ⟨hv, hgained⟩
  refine ⟨ht.trans hv, ?_⟩
  intro hash n hl hnot
  have hlookup : t.cpu.union.lookup hash =
      if swapVictim s.cpu.union hashes = some hash then none else some n := by
    rw [← hl]
    unfold lookup
    rw [htable, lookup_dropEntry]
  constructor
  · intro hv' hvictim
    rw [if_pos hvictim] at hlookup
    rcases hgained.only hv' with hl' | hin
    · rw [hlookup] at hl'
      cases hl'
    · obtain ⟨p, hp, heq⟩ := List.mem_map.mp hin
      exact hnot (heq ▸ hhashes p hp)
  · intro hvictim
    rw [if_neg hvictim] at hlookup
    exact hgained.keeps hlookup

end DashInfer.Cache
