import DashInfer.Cache.CpuFrames
import DashInfer.Cache.Residency

/-!
`alloc_cpu_node` by the numbers. Whether the call succeeds, fails or throws,
and how many frames it takes, depends on the table's size against its capacity,
on the free frames and on the evictor's first candidate.
-/

namespace DashInfer.Cache

open Lib CacheUnion PrefixCacheManager

variable {E : OrderedSet NodeId} {D : Type} {cfg : Config} {s t : State E D}
  {batch : List NodeId} {extra : List SpanId}

namespace CacheUnion

/-- The frames in the free queue. -/
def free (u : CacheUnion E) : Nat := u.spanManager.frameManager.freeFrames.length

/-- The evictor's first candidate is a node of the table. -/
def VictimCached (u : CacheUnion E) : Prop :=
  ∃ hash n, u.findVictim = some hash ∧ u.lookup hash = some n

/-- The table is full and the call gets to its evictor. -/
def Evicts (u : CacheUnion E) : Prop := u.capacity ≤ u.size ∧ u.capacity ≠ 0 ∧ 0 < u.free

/-- The call finds a place in the table and the frames for it. -/
def Allocates (cfg : Config) (u : CacheUnion E) : Prop :=
  (u.size < u.capacity ∧ 0 < u.free ∧ cfg.spanPerNode ≤ u.free) ∨ (u.Evicts ∧ u.VictimCached)

/-- The K spans can be claimed and the V spans cannot. -/
def HalfClaims (cfg : Config) (u : CacheUnion E) : Prop :=
  u.size < u.capacity ∧ cfg.layerNum ≤ u.free ∧ u.free < cfg.spanPerNode

/-- The evictor names a node that is not in the table. -/
def StaleVictim (u : CacheUnion E) : Prop :=
  u.Evicts ∧ ∃ hash, u.findVictim = some hash ∧ u.lookup hash = none

end CacheUnion

theorem SameFrames.free {u u' : CacheUnion E} (h : SameFrames u u') : u'.free = u.free := by
  unfold CacheUnion.free
  rw [h.spanManager]

/-- A claim gets all the frames it asks for, or none and changes nothing. -/
theorem SpanManager.claimSpan_cases (m : SpanManager) (count : Nat) :
    (count ≤ m.frameManager.freeFrames.length ∧ ∃ spans m', m.claimSpan count = (some spans, m') ∧
        spans.length = count ∧
        m'.frameManager.freeFrames.length + count = m.frameManager.freeFrames.length ∧
        m'.frameManager.totalFrameCount = m.frameManager.totalFrameCount) ∨
      (m.frameManager.freeFrames.length < count ∧ m.claimSpan count = (none, m)) := by
  cases hclaim : m.claimSpan count with
  | mk spans m' =>
      cases spans with
      | some spans =>
          have hc := claimSpan_some hclaim
          have hqueue := congrArg List.length hc.queue_eq
          rw [List.length_append, List.length_map, hc.length_eq] at hqueue
          exact Or.inl ⟨by omega, spans, m', rfl, hc.length_eq, by omega, hc.total_eq⟩
      | none =>
          refine Or.inr ⟨?_, ?_⟩
          · exact claimSpan_none_lt hclaim
          · rw [claimSpan_none hclaim]

namespace CacheUnion

/-- A deleted node gives its frames back. -/
theorem Deleted.free {u u' : CacheUnion E} {hash : Hash} {n : NodeId} (h : Deleted u u' hash n) :
    u'.free = u.free + (u.nodes n).spans.length ∧ u'.countFrame = u.countFrame := by
  unfold CacheUnion.free countFrame
  rw [h.spanManager, SpanManager.releaseSpans_unset]
  simp

theorem allocVictim_of_evicts {u : CacheUnion E} (hcount : u.countFreeFrame = u.free)
    (h : u.Evicts) : allocVictim u = u.findVictim := by
  obtain ⟨hfull, hcap, hfree⟩ := h
  unfold allocVictim
  rw [if_neg (by omega)]

end CacheUnion

theorem CpuSide.deleteNode_none {c : CpuSide E D} {hash : Hash} (h : c.deleteNode hash = none) :
    c.union.lookup hash = none := by
  unfold CpuSide.deleteNode at h
  cases hl : c.union.lookup hash with
  | none => rfl
  | some n =>
      rw [hl, deleteNode_eq hl] at h
      cases h

theorem CpuSide.deleteNode_some {c c' : CpuSide E D} {hash : Hash}
    (h : c.deleteNode hash = some c') : ∃ n, Deleted c.union c'.union hash n := by
  unfold CpuSide.deleteNode at h
  split at h
  · next hdel =>
      obtain rfl := Option.some.inj h
      exact deleted_of_deleteNode hdel
  · cases h

/-- The eviction in `alloc_cpu_node`. -/
private theorem post_evictCpuNode_frames {out : SpanId → Prop} (h : Wf cfg.layerNum s.cpu.union out)
    (hcap : s.cpu.union.capacity ≠ 0) (hfree : 0 < s.cpu.union.free) :
    Post evictCpuNode s
      (fun room t => t.cpu.union.countFrame = s.cpu.union.countFrame ∧
        t.cpu.union.capacity = s.cpu.union.capacity ∧ ¬ s.cpu.union.StaleVictim ∧
        if room then
          t.cpu.union.size < t.cpu.union.capacity ∧
            ((s.cpu.union.size < s.cpu.union.capacity ∧ t = s) ∨
              (s.cpu.union.Evicts ∧ s.cpu.union.VictimCached ∧
                t.cpu.union.hashTable =
                  dropEntry s.cpu.union.hashTable s.cpu.union.findVictim ∧
                t.cpu.union.size + 1 = s.cpu.union.size ∧
                t.cpu.union.free = s.cpu.union.free + cfg.spanPerNode))
        else s.cpu.union.Evicts ∧ s.cpu.union.findVictim = none ∧ t = s)
      (fun e t => e = .outOfRange ∧ s.cpu.union.StaleVictim ∧
        SameFrames s.cpu.union t.cpu.union) := by
  unfold evictCpuNode
  rw [post_bind, post_get]
  split
  · next hfull =>
      have hevicts : s.cpu.union.Evicts := ⟨hfull, hcap, hfree⟩
      cases hfind : s.cpu.union.findVictim with
      | none =>
          refine ⟨rfl, rfl, ?_, hevicts, rfl, rfl⟩
          rintro ⟨_, hash, hsome, _⟩
          rw [hfind] at hsome
          cases hsome
      | some victim =>
          rw [post_bind]
          have haside := aside_interleave s
          change Post (deleteCpuNode victim >>= fun _ => pure true) s.interleave _ _
          unfold deleteCpuNode
          simp only [post_bind, post_get]
          cases hdel : s.interleave.cpu.deleteNode victim with
          | none =>
              refine ⟨rfl, ⟨hevicts, victim, hfind, ?_⟩, SameFrames.of_aside haside⟩
              rw [← haside.lookup]
              exact CpuSide.deleteNode_none hdel
          | some c' =>
              obtain ⟨n, hd⟩ := CpuSide.deleteNode_some hdel
              have hl : s.cpu.union.lookup victim = some n := by
                rw [← haside.lookup]
                exact hd.lookup_eq
              obtain ⟨hfree', htotal⟩ := hd.free
              rw [haside.spans, h.spans_length hl] at hfree'
              have hsize := hd.size
              rw [haside.size] at hsize
              have hcapacity : c'.union.capacity = s.cpu.union.capacity := by
                rw [hd.capacity, haside.capacity]
              have hsame : s.interleave.cpu.union.free = s.cpu.union.free ∧
                  s.interleave.cpu.union.countFrame = s.cpu.union.countFrame := by
                unfold free countFrame
                rw [haside.spanManager]
                exact ⟨rfl, rfl⟩
              refine ⟨htotal.trans hsame.2, hcapacity, ?_, ?_,
                Or.inr ⟨hevicts, ?_, ?_, hsize, ?_⟩⟩
              · rintro ⟨_, hash, hsome, hnone⟩
                rw [hfind] at hsome
                obtain rfl := Option.some.inj hsome
                rw [hl] at hnone
                cases hnone
              · have hle := h.size_le
                change c'.union.size < c'.union.capacity
                omega
              · exact ⟨victim, n, hfind, hl⟩
              · exact hd.hashTable.trans (congrArg (AList.erase victim) haside.hashTable)
              · change c'.union.free = _
                rw [hfree', hsame.1]
                rfl
  · next hroom =>
      have hlt : s.cpu.union.size < s.cpu.union.capacity := Nat.not_le.mp hroom
      refine ⟨rfl, rfl, ?_, hlt, Or.inl ⟨hlt, rfl⟩⟩
      rintro ⟨⟨hfull, _⟩, _⟩
      exact hroom hfull

/-- A claim on the CPU side. -/
private theorem post_claimCpuSpan_frames (count : Nat) :
    Post (claimCpuSpan count) s
      (fun spans t => t.cpu.union.countFrame = s.cpu.union.countFrame ∧
        t.cpu.union.capacity = s.cpu.union.capacity ∧
        t.cpu.union.hashTable = s.cpu.union.hashTable ∧
        match spans with
        | some spans => count ≤ s.cpu.union.free ∧ spans.length = count ∧
            t.cpu.union.free + count = s.cpu.union.free
        | none => s.cpu.union.free < count ∧ t = s)
      (fun _ _ => False) := by
  unfold claimCpuSpan
  rw [post_bind, post_get, post_bind, post_modifyCpu, post_pure]
  rcases s.cpu.union.spanManager.claimSpan_cases count with
    ⟨hle, spans, m', hclaim, hlen, hfree, htotal⟩ | ⟨hlt, hclaim⟩
  · rw [hclaim]
    exact ⟨htotal, rfl, rfl, hle, hlen, hfree⟩
  · rw [hclaim]
    exact ⟨rfl, rfl, rfl, hlt, rfl⟩

/-- The two claims and the new node, from a state with room in the table. -/
private theorem post_claimCpuNode_frames (prefixLen ts : Nat) (hash : Hash) :
    Post (do
        let kCache ← claimCpuSpan cfg.layerNum
        let vCache ← claimCpuSpan cfg.layerNum
        match kCache, vCache with
        | some kCache, some vCache =>
            let n ← createCpuNode kCache vCache prefixLen ts hash
            pure (some n)
        | _, _ => pure none : Prog E D (Option NodeId)) s
      (fun result t => t.cpu.union.countFrame = s.cpu.union.countFrame ∧
        t.cpu.union.capacity = s.cpu.union.capacity ∧
        t.cpu.union.hashTable = s.cpu.union.hashTable ∧
        match result with
        | some _ => cfg.spanPerNode ≤ s.cpu.union.free ∧
            t.cpu.union.free + cfg.spanPerNode = s.cpu.union.free
        | none => s.cpu.union.free < cfg.spanPerNode ∧
            ((cfg.layerNum ≤ s.cpu.union.free ∧
                t.cpu.union.free + cfg.layerNum = s.cpu.union.free) ∨
              (s.cpu.union.free < cfg.layerNum ∧ t = s)))
      (fun _ _ => False) := by
  have hnode : cfg.spanPerNode = 2 * cfg.layerNum := rfl
  rw [post_bind]
  apply (post_claimCpuSpan_frames cfg.layerNum).imp _ (fun e t hfalse => hfalse)
  rintro kCache u ⟨htotal, hcap, htable, hk⟩
  rw [post_bind]
  apply (post_claimCpuSpan_frames cfg.layerNum).imp _ (fun e t hfalse => hfalse)
  rintro vCache v ⟨htotal', hcap', htable', hv⟩
  cases kCache with
  | none =>
      -- what the first claim could not get the second cannot get either
      obtain ⟨hlt, rfl⟩ := hk
      cases vCache with
      | none =>
          obtain ⟨-, rfl⟩ := hv
          refine ⟨htotal, hcap, htable, ?_⟩
          exact ⟨by omega, Or.inr ⟨hlt, rfl⟩⟩
      | some vSpans => omega
  | some kSpans =>
      obtain ⟨hle, hklen, hkfree⟩ := hk
      cases vCache with
      | none =>
          obtain ⟨hlt, rfl⟩ := hv
          refine ⟨htotal, hcap, htable, ?_⟩
          simp only
          exact ⟨by omega, Or.inl ⟨hle, hkfree⟩⟩
      | some vSpans =>
          obtain ⟨hle', hvlen, hvfree⟩ := hv
          simp only
          unfold createCpuNode
          rw [if_neg (by omega)]
          exact ⟨htotal'.trans htotal, hcap'.trans hcap, htable'.trans htable, by omega,
            show v.cpu.union.free + _ = _ by omega⟩

/-- `alloc_cpu_node`, whatever the outcome. -/
theorem post_allocCpuNode_frames {out : SpanId → Prop} (h : Wf cfg.layerNum s.cpu.union out)
    (hcount : s.cpu.union.countFreeFrame = s.cpu.union.free) (prefixLen ts : Nat) (hash : Hash) :
    Post (allocCpuNode cfg.layerNum prefixLen ts hash) s
      (fun result t => t.cpu.union.countFrame = s.cpu.union.countFrame ∧
        t.cpu.union.capacity = s.cpu.union.capacity ∧ ¬ s.cpu.union.StaleVictim ∧
        t.cpu.union.hashTable = dropEntry s.cpu.union.hashTable (allocVictim s.cpu.union) ∧
        match result with
        | some _ => s.cpu.union.Allocates cfg ∧ t.cpu.union.size < t.cpu.union.capacity ∧
            t.cpu.union.free + cfg.spanPerNode * (t.cpu.union.size + 1) =
              s.cpu.union.free + cfg.spanPerNode * s.cpu.union.size ∧
            (s.cpu.union.size < s.cpu.union.capacity → t.cpu.union.size = s.cpu.union.size) ∧
            (s.cpu.union.capacity ≤ s.cpu.union.size → t.cpu.union.size + 1 = s.cpu.union.size)
        | none => ¬ s.cpu.union.Allocates cfg ∧ t.cpu.union.size = s.cpu.union.size ∧
            ((s.cpu.union.HalfClaims cfg ∧
                t.cpu.union.free + cfg.layerNum = s.cpu.union.free) ∨
              (¬ s.cpu.union.HalfClaims cfg ∧ t = s)))
      (fun e t => e = .outOfRange ∧ s.cpu.union.StaleVictim ∧
        SameFrames s.cpu.union t.cpu.union) := by
  have hnode : cfg.spanPerNode = 2 * cfg.layerNum := rfl
  unfold allocCpuNode
  rw [post_bind, post_get]
  split
  · next hzero =>
      have hvictim : allocVictim s.cpu.union = none := if_pos (Or.inl hzero)
      rw [hvictim]
      refine ⟨rfl, rfl, ?_, rfl, ?_, rfl, Or.inr ⟨?_, rfl⟩⟩
      · exact fun hstale => hstale.1.2.1 hzero
      · rintro (⟨hlt, -⟩ | ⟨hevicts, -⟩)
        · omega
        · exact hevicts.2.1 hzero
      · rintro ⟨hlt, -⟩
        omega
  · next hcap =>
      split
      · next hempty =>
          have hfree : s.cpu.union.free = 0 := by omega
          have hvictim : allocVictim s.cpu.union = none := if_pos (Or.inr (Or.inl hempty))
          rw [hvictim]
          refine ⟨rfl, rfl, ?_, rfl, ?_, rfl, Or.inr ⟨?_, rfl⟩⟩
          · exact fun hstale => absurd hstale.1.2.2 (by omega)
          · rintro (⟨-, hpos, -⟩ | ⟨hevicts, -⟩)
            · omega
            · exact absurd hevicts.2.2 (by omega)
          · rintro ⟨-, hle, hlt⟩
            omega
      · next hsome =>
          have hpos : 0 < s.cpu.union.free := by omega
          rw [post_bind]
          apply (post_evictCpuNode_frames h hcap hpos).imp _ (fun e t herr => herr)
          rintro room u ⟨htotal, hcapacity, hstale, hroom⟩
          cases room with
          | false =>
              obtain ⟨hevicts, hfind, rfl⟩ := hroom
              have hvictim := allocVictim_of_evicts hcount hevicts
              rw [hvictim, hfind]
              refine ⟨rfl, rfl, hstale, rfl, ?_, rfl, Or.inr ⟨?_, rfl⟩⟩
              · rintro (⟨hlt, -⟩ | ⟨-, hash, n, hsome, -⟩)
                · exact absurd hevicts.1 (by omega)
                · rw [hfind] at hsome
                  cases hsome
              · rintro ⟨hlt, -⟩
                exact absurd hevicts.1 (by omega)
          | true =>
              obtain ⟨hlt, hcases⟩ := hroom
              apply (post_claimCpuNode_frames prefixLen ts hash).imp _
                (fun e t hfalse => hfalse.elim)
              rintro result t ⟨htotal', hcapacity', htable', hresult⟩
              have hsize' : t.cpu.union.size = u.cpu.union.size := by
                unfold size
                rw [htable']
              refine ⟨htotal'.trans htotal, hcapacity'.trans hcapacity, hstale, ?_⟩
              rw [htable']
              rcases hcases with ⟨hbelow, rfl⟩ | ⟨hevicts, hcached, htable, hshrunk, hfreed⟩
              · have hvictim : allocVictim u.cpu.union = none :=
                  if_pos (Or.inr (Or.inr hbelow))
                rw [hvictim]
                refine ⟨rfl, ?_⟩
                cases result with
                | some n =>
                    obtain ⟨hle, hfree⟩ := hresult
                    have hmul := Nat.mul_add cfg.spanPerNode u.cpu.union.size 1
                    simp only
                    rw [hsize', hcapacity']
                    exact ⟨Or.inl ⟨hbelow, hpos, hle⟩, hlt, by omega, fun _ => rfl, fun hfull => by omega⟩
                | none =>
                    obtain ⟨hless, hkept⟩ := hresult
                    refine ⟨?_, hsize', ?_⟩
                    · rintro (⟨-, -, hle⟩ | ⟨hevicts, -⟩)
                      · omega
                      · exact absurd hevicts.1 (by omega)
                    · rcases hkept with ⟨hle, hfree⟩ | ⟨hlt', rfl⟩
                      · exact Or.inl ⟨⟨hbelow, hle, hless⟩, hfree⟩
                      · refine Or.inr ⟨?_, rfl⟩
                        rintro ⟨-, hle, -⟩
                        omega
              · rw [allocVictim_of_evicts hcount hevicts]
                refine ⟨htable, ?_⟩
                cases result with
                | some n =>
                    obtain ⟨hle, hfree⟩ := hresult
                    have hmul := Nat.mul_add cfg.spanPerNode u.cpu.union.size 1
                    simp only
                    rw [hsize', hcapacity', ← hshrunk]
                    refine ⟨Or.inr ⟨hevicts, hcached⟩, hlt, by omega, ?_, fun _ => rfl⟩
                    intro hbelow
                    exact absurd hevicts.1 (by omega)
                | none =>
                    -- the evicted node's own frames are enough for the new one
                    obtain ⟨hless, -⟩ := hresult
                    omega

end DashInfer.Cache

/-!
The states in which `alloc_cpu_node` is called: those between two operations,
and those inside a swap-out, where nodes are allocated that the table does not
have yet. Whether the call finds room there is a matter of the table's size,
of the free frames and of the evictor's first candidate, which the sizing in
`init_cpu_union` ties together.
-/

namespace DashInfer.Cache

open Lib CacheUnion PrefixCacheManager

variable {E : OrderedSet NodeId} {D : Type} {cfg : Config} {s t : State E D}
  {batch : List NodeId}

/-- The CPU union that `init_cpu_union` builds over `cacheMemBytes` of host
memory, or over none when the ratio is zero. The copy workspaces of all ranks
come first; when they do not fit, the call throws. -/
def initCpuUnion (E : OrderedSet NodeId) (cfg : Config) (positiveRatio : Bool)
    (cacheMemBytes frameSize nranks : Nat) : Option (CacheUnion E) :=
  if positiveRatio then
    let cpuWorkspaceSize := blockSpanNum cfg * frameSize
    if cacheMemBytes < cpuWorkspaceSize * nranks then none
    else
      let cacheMemPerWorker := (cacheMemBytes - cpuWorkspaceSize * nranks) / nranks
      some (CacheUnion.init E (cacheMemPerWorker / frameSize) cfg.layerNum)
  else some (CacheUnion.init E 0 cfg.layerNum)

/-- The unions that `init_cpu_union` can build are those of the initial states. -/
theorem initCpuUnion_iff {frameSize nranks : Nat} (hframe : 0 < frameSize) (hranks : 0 < nranks)
    (u : CacheUnion E) :
    (∃ positiveRatio cacheMemBytes,
        initCpuUnion E cfg positiveRatio cacheMemBytes frameSize nranks = some u) ↔
      ∃ frames, u = CacheUnion.init E frames cfg.layerNum := by
  unfold initCpuUnion
  constructor
  · rintro ⟨positiveRatio, cacheMemBytes, hbuilt⟩
    dsimp only at hbuilt
    split at hbuilt
    · split at hbuilt
      · cases hbuilt
      · exact ⟨_, (Option.some.inj hbuilt).symm⟩
    · exact ⟨_, (Option.some.inj hbuilt).symm⟩
  · rintro ⟨frames, rfl⟩
    refine ⟨true, blockSpanNum cfg * frameSize * nranks + frames * frameSize * nranks, ?_⟩
    dsimp only
    rw [if_pos rfl, if_neg (by omega), Nat.add_sub_cancel_left, Nat.mul_div_cancel _ hranks,
      Nat.mul_div_cancel _ hframe]

/-- The states of a swap-out that starts in one of the given states, with the
nodes it has allocated so far: a source whose hash the table has moves a
timestamp, any other gets a node. -/
inductive Swapping (cfg : Config) (start : State E D → Prop) : State E D → List NodeId → Prop
  | call {s : State E D} (schedule : List (List Nat)) (h : start s) :
      Swapping cfg start { s with schedule } []
  | touch {s : State E D} {batch : List NodeId} (hash : Hash) (ts : Nat)
      (h : Swapping cfg start s batch) :
      Swapping cfg start { s with cpu := s.cpu.updateNodeTs hash ts } batch
  | alloc {s t : State E D} {batch : List NodeId} {n : NodeId} (prefixLen ts : Nat) {hash : Hash}
      (h : Swapping cfg start s batch) (habsent : s.cpu.union.lookup hash = none)
      (hfresh : hash ∉ batch.map (fun n => (s.cpu.union.nodes n).hash))
      (hrun : (allocCpuNode cfg.layerNum prefixLen ts hash).run s = .ok (some n) t) :
      Swapping cfg start t (batch ++ [n])

theorem Swapping.inv {start : State E D → Prop}
    (hstart : ∀ s, start s → CpuInv cfg s.cpu [] []) (h : Swapping cfg start s batch) :
    CpuInv cfg s.cpu batch [] := by
  induction h with
  | @call s _ h => exact hstart s h
  | touch hash ts _ ih => exact ih.updateNodeTs hash ts
  | alloc prefixLen ts _ habsent hfresh hrun ih =>
      exact ((post_allocCpuNode ih habsent hfresh prefixLen ts).of_ok hrun).2.1.cpu

theorem CpuInv.countFreeFrame {c : CpuSide E D} {extra : List SpanId}
    (h : CpuInv cfg c batch extra) : c.union.countFreeFrame = c.union.free :=
  h.wf.owned.count_eq

/-- The call returns a node exactly when it finds a place and the frames. -/
theorem allocCpuNode_some_iff (h : CpuInv cfg s.cpu batch []) (prefixLen ts : Nat) (hash : Hash) :
    (∃ n t, (allocCpuNode cfg.layerNum prefixLen ts hash).run s = .ok (some n) t) ↔
      s.cpu.union.Allocates cfg := by
  have hpost := post_allocCpuNode_frames h.wf h.countFreeFrame prefixLen ts hash
  constructor
  · rintro ⟨n, t, hrun⟩
    exact (hpost.of_ok hrun).2.2.2.2.1
  · intro hallocates
    cases hrun : (allocCpuNode cfg.layerNum prefixLen ts hash).run s with
    | ok result t =>
        cases result with
        | some n => exact ⟨n, t, rfl⟩
        | none => exact absurd hallocates (hpost.of_ok hrun).2.2.2.2.1
    | error e t =>
        obtain ⟨-, ⟨hevicts, hash', hfind, hnone⟩, -⟩ := hpost.of_error hrun
        rcases hallocates with ⟨hlt, -⟩ | ⟨-, hash'', n, hfind', hcached⟩
        · exact absurd hevicts.1 (by omega)
        · rw [hfind] at hfind'
          obtain rfl := Option.some.inj hfind'
          rw [hnone] at hcached
          cases hcached

namespace CacheUnion

/-- The hash of a least recently used node of the table. -/
def LeastRecent (u : CacheUnion E) (hash : Hash) : Prop :=
  ∃ n, u.lookup hash = some n ∧ ∀ other m, u.lookup other = some m →
    (u.nodes n).lastAccessTime ≤ (u.nodes m).lastAccessTime

/-- Below its capacity the table has the frames of a node to spare. At its
capacity the evictor is empty, or some frame is free and the first candidate
is a least recently used node. -/
def Replaceable (cfg : Config) (u : CacheUnion E) : Prop :=
  if u.size < u.capacity then cfg.spanPerNode ≤ u.free
  else u.candidates = [] ∨ (0 < u.free ∧ ∃ hash, u.findVictim = some hash ∧ u.LeastRecent hash)

theorem eq_of_erase_eq {u : CacheUnion E} {hash other : Hash} {n : NodeId}
    (hl : u.lookup hash = some n) (h : u.hashTable.erase other = u.hashTable.erase hash) :
    other = hash := by
  by_contra hne
  have hkept := AList.lookup_erase_ne (s := u.hashTable) (Ne.symm hne)
  rw [h, AList.lookup_erase] at hkept
  have hl' : u.hashTable.lookup hash = some n := hl
  rw [hl'] at hkept
  cases hkept

end CacheUnion

/-- While the table has room or the evictor a candidate, the call succeeds,
and in a full table it takes out a least recently used node. -/
def Replaces (cfg : Config) (s : State E D) : Prop :=
  s.cpu.union.size < s.cpu.union.capacity ∨ s.cpu.union.candidates ≠ [] →
    ∀ prefixLen ts hash, ∃ n t,
      (allocCpuNode cfg.layerNum prefixLen ts hash).run s = .ok (some n) t ∧
      (s.cpu.union.capacity ≤ s.cpu.union.size → ∃ old, s.cpu.union.LeastRecent old ∧
        t.cpu.union.hashTable = s.cpu.union.hashTable.erase old)

private theorem replaces_iff (h : CpuInv cfg s.cpu batch []) (hcap : s.cpu.union.capacity ≠ 0) :
    Replaces cfg s ↔ s.cpu.union.Replaceable cfg := by
  have hlayer := cfg.layerNum_pos
  have hnode : cfg.spanPerNode = 2 * cfg.layerNum := rfl
  unfold Replaces Replaceable
  constructor
  · intro hreplaces
    split
    · next hlt =>
        obtain ⟨n, t, hrun, -⟩ := hreplaces (Or.inl hlt) 0 0 0
        rcases (allocCpuNode_some_iff h 0 0 0).mp ⟨n, t, hrun⟩ with ⟨-, -, hle⟩ | ⟨hevicts, -⟩
        · exact hle
        · exact absurd hevicts.1 (by omega)
    · next hfull =>
        by_cases hcand : s.cpu.union.candidates = []
        · exact Or.inl hcand
        · obtain ⟨n, t, hrun, hold⟩ := hreplaces (Or.inr hcand) 0 0 0
          obtain ⟨old, hrecent, htable⟩ := hold (by omega)
          rcases (allocCpuNode_some_iff h 0 0 0).mp ⟨n, t, hrun⟩ with
            ⟨hlt, -⟩ | ⟨hevicts, victim, m, hfind, -⟩
          · exact absurd hlt hfull
          · have hdrop := ((post_allocCpuNode_frames h.wf h.countFreeFrame 0 0 0).of_ok hrun).2.2.2.1
            rw [htable, allocVictim_of_evicts h.countFreeFrame hevicts, hfind] at hdrop
            obtain ⟨k, hk, -⟩ := id hrecent
            obtain rfl := eq_of_erase_eq hk hdrop.symm
            exact Or.inr ⟨hevicts.2.2, victim, hfind, hrecent⟩
  · intro hreplaceable hroom prefixLen ts hash
    split at hreplaceable
    · next hlt =>
        have hallocates : s.cpu.union.Allocates cfg := Or.inl ⟨hlt, by omega, hreplaceable⟩
        obtain ⟨n, t, hrun⟩ := (allocCpuNode_some_iff h prefixLen ts hash).mpr hallocates
        exact ⟨n, t, hrun, fun hfull => absurd hlt (by omega)⟩
    · next hfull =>
        rcases hreplaceable with hcand | ⟨hfree, victim, hfind, hrecent⟩
        · exact absurd hcand (hroom.resolve_left hfull)
        · obtain ⟨k, hk, -⟩ := id hrecent
          have hevicts : s.cpu.union.Evicts := ⟨by omega, hcap, hfree⟩
          have hallocates : s.cpu.union.Allocates cfg := Or.inr ⟨hevicts, victim, k, hfind, hk⟩
          obtain ⟨n, t, hrun⟩ := (allocCpuNode_some_iff h prefixLen ts hash).mpr hallocates
          have hdrop :=
            ((post_allocCpuNode_frames h.wf h.countFreeFrame prefixLen ts hash).of_ok hrun).2.2.2.1
          rw [allocVictim_of_evicts h.countFreeFrame hevicts, hfind] at hdrop
          exact ⟨n, t, hrun, fun _ => ⟨victim, hrecent, hdrop⟩⟩

/-- As long as no stored timestamp moved, the first candidate is a least
recently used node. -/
theorem findVictim_leastRecent (h : CpuInv cfg s.cpu batch []) (hno : NoTouch s.cpu.log)
    {hash : Hash} (hfind : s.cpu.union.findVictim = some hash) :
    s.cpu.union.LeastRecent hash := by
  have he := h.evictable hno
  obtain ⟨n, -, hl, hfirst⟩ := (he.law h.wf).victim hash hfind
  refine ⟨n, hl, ?_⟩
  intro other m hm
  have hself := h.wf.self hm
  have hmem := (he.mem_iff m).mpr ⟨hself, h.refCnt hm⟩
  rcases hfirst m hmem with rfl | hlt
  · exact Nat.le_refl _
  · rw [nodeComparator, PrefixNode.lt_iff] at hlt
    omega

/-- The tier replaces a node in exactly the states in which it has the frames
for it. Where every frame is free or a table node's, that is what the division
of the frames into nodes left over: a full table without a remainder refuses. -/
theorem cpuTier_replaces_iff (h : Swapping cfg (Reachable cfg) s batch)
    (hcap : s.cpu.union.capacity ≠ 0) :
    (Replaces cfg s ↔ s.cpu.union.Replaceable cfg) ∧
      (s.cpu.union.free + cfg.spanPerNode * s.cpu.union.size = s.cpu.union.countFrame →
        (Replaces cfg s ↔ s.cpu.union.size < s.cpu.union.capacity ∨
          s.cpu.union.candidates = [] ∨
          (s.cpu.union.countFrame % cfg.spanPerNode ≠ 0 ∧
            ∃ hash, s.cpu.union.findVictim = some hash ∧ s.cpu.union.LeastRecent hash))) := by
  have hinv := h.inv (fun s hs => (inv_of_reachable hs).cpu)
  have hiff := replaces_iff hinv hcap
  refine ⟨hiff, ?_⟩
  intro haccounted
  rw [hiff]
  have hdiv := Nat.div_add_mod s.cpu.union.countFrame cfg.spanPerNode
  have hcapacity : s.cpu.union.capacity = s.cpu.union.countFrame / cfg.spanPerNode :=
    hinv.capacity
  rw [← hcapacity] at hdiv
  unfold Replaceable
  split
  · next hlt =>
      have hle := Nat.mul_le_mul_left cfg.spanPerNode hlt
      rw [Nat.mul_succ] at hle
      exact ⟨fun _ => Or.inl hlt, fun _ => by omega⟩
  · next hfull =>
      have hsize : s.cpu.union.size = s.cpu.union.capacity :=
        Nat.le_antisymm hinv.wf.size_le (Nat.not_lt.mp hfull)
      rw [hsize] at haccounted
      have hfree : 0 < s.cpu.union.free ↔ s.cpu.union.countFrame % cfg.spanPerNode ≠ 0 := by
        omega
      rw [hfree]
      exact ⟨Or.inr, fun hor => hor.resolve_left hfull⟩

/-- A host with frames for one node and half of another: the full table
replaces its node. -/
theorem cpuTier_replaces_remainder : ∃ s : State (listSet NodeId) Nat,
    Reachable oneLayer s ∧ s.cpu.union.size = s.cpu.union.capacity ∧ Replaces oneLayer s := by
  obtain ⟨s, hs, hp⟩ := exists_reachable oneLayer (Allowed oneLayer) 8 3
    (serve 1 (firstTokens 17) blockContent 1 ++ [.alone (.evictAllUnrefered 3)])
    (fun s => decide (s.cpu.union.size = s.cpu.union.capacity ∧ s.cpu.union.capacity = 1 ∧
      s.cpu.union.countFrame = 3 ∧ s.cpu.union.free = 1 ∧ s.cpu.union.findVictim.isSome ∧
      s.cpu.log = [])) (by decide +kernel)
  obtain ⟨hfull, hcap, htotal, hfree, hvictim, hlog⟩ := of_decide_eq_true hp
  obtain ⟨hash, hhash⟩ := Option.isSome_iff_exists.mp hvictim
  have hno : NoTouch s.cpu.log := by
    rw [hlog]
    simp [NoTouch]
  have hrecent := findVictim_leastRecent (inv_of_reachable hs).cpu hno hhash
  have hswap : Swapping oneLayer (Reachable oneLayer) s [] := .call s.schedule hs
  have hiff := (cpuTier_replaces_iff hswap (by omega)).2 (by
    rw [hfull, hcap, htotal, hfree]
    rfl)
  refine ⟨s, hs, hfull, hiff.mpr (Or.inr (Or.inr ⟨?_, hash, hhash, hrecent⟩))⟩
  rw [htotal]
  decide

/-- A host with frames for one node, as the sizing leaves it: once the table is
full no frame is free, and the call refuses with a candidate in the evictor. -/
theorem cpuTier_refuses_exact :
    initCpuUnion (listSet NodeId) oneLayer true 2176 64 1 =
        some (CacheUnion.init _ 2 oneLayer.layerNum) ∧
      ∃ s : State (listSet NodeId) Nat, Reachable oneLayer s ∧ s.cpu.union.countFrame = 2 ∧
        s.cpu.union.capacity ≠ 0 ∧ s.cpu.union.candidates ≠ [] ∧
        (∀ prefixLen ts hash n t,
          (allocCpuNode oneLayer.layerNum prefixLen ts hash).run s ≠ .ok (some n) t) ∧
        ¬ Replaces oneLayer s := by
  refine ⟨rfl, ?_⟩
  obtain ⟨s, hs, hp⟩ := exists_reachable oneLayer (Allowed oneLayer) 8 2
    (serve 1 (firstTokens 17) blockContent 1 ++ [.alone (.evictAllUnrefered 3)])
    (fun s => decide (s.cpu.union.capacity = 1 ∧ s.cpu.union.countFrame = 2 ∧
      s.cpu.union.free = 0 ∧ s.cpu.union.candidates.length = 1)) (by decide +kernel)
  obtain ⟨hcap, htotal, hfree, hcand⟩ := of_decide_eq_true hp
  have hcand' : s.cpu.union.candidates ≠ [] := by
    rw [← List.length_pos_iff]
    omega
  have hrefuses : ∀ prefixLen ts hash n t,
      (allocCpuNode oneLayer.layerNum prefixLen ts hash).run s ≠ .ok (some n) t := by
    intro prefixLen ts hash n t hrun
    rcases (allocCpuNode_some_iff (inv_of_reachable hs).cpu prefixLen ts hash).mp
      ⟨n, t, hrun⟩ with ⟨-, hpos, -⟩ | ⟨⟨-, -, hpos⟩, -⟩
    · omega
    · omega
  refine ⟨s, hs, htotal, by omega, hcand', hrefuses, ?_⟩
  intro hreplaces
  obtain ⟨n, t, hrun, -⟩ := hreplaces (Or.inr hcand') 0 0 0
  exact hrefuses 0 0 0 n t hrun

end DashInfer.Cache
