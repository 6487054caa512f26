import DashInfer.Cache.State
import DashInfer.Cache.TableStep

/-!
Reference counts against the node vectors of live requests. A vector entry
counts for the table node of its hash, so a count is never below the number of
entries with that hash. While no two nodes have met under one hash, entries
are the table's own nodes and the counts are exact.
-/

namespace DashInfer.Cache

open Lib CacheUnion

variable {E : OrderedSet NodeId}

/-- The number of listed nodes with the given hash. -/
def countHash (nodes : NodeId → PrefixNode) (entries : List NodeId) (hash : Hash) : Nat :=
  entries.countP (fun n => (nodes n).hash = hash)

/-- No node was inserted under a hash that another node had. -/
def NoClash (log : List GpuEvent) : Prop := ∀ hash, GpuEvent.clash hash ∉ log

structure Balanced (u : CacheUnion E) (entries : List NodeId) (log : List GpuEvent) : Prop where
  evictable : Evictable u
  entry_lt : ∀ n ∈ entries, n < u.nextNode
  entry_cached : ∀ n ∈ entries, u.lookup (u.nodes n).hash ≠ none
  countHash_le : ∀ {hash n}, u.lookup hash = some n →
    (countHash u.nodes entries hash : Int) ≤ (u.nodes n).refCnt
  entry_self : NoClash log → ∀ n ∈ entries, u.lookup (u.nodes n).hash = some n
  count_eq : NoClash log → ∀ {hash n}, u.lookup hash = some n →
    (u.nodes n).refCnt = entries.count n
  removed : ∀ {n refCnt holders}, GpuEvent.removed n refCnt holders ∈ log →
    refCnt = 0 ∧ holders = 0

theorem countHash_congr {nodes nodes' : NodeId → PrefixNode} {entries : List NodeId}
    (h : ∀ n ∈ entries, (nodes' n).hash = (nodes n).hash) (hash : Hash) :
    countHash nodes' entries hash = countHash nodes entries hash := by
  unfold countHash
  refine List.countP_congr ?_
  intro n hn
  rw [h n hn]

theorem countHash_perm {nodes : NodeId → PrefixNode} {entries entries' : List NodeId}
    (h : entries.Perm entries') (hash : Hash) :
    countHash nodes entries hash = countHash nodes entries' hash :=
  h.countP_eq _

namespace Balanced

variable {u u' : CacheUnion E} {entries entries' : List NodeId} {log : List GpuEvent}
  {layerNum : Nat} {out : SpanId → Prop} {hash : Hash} {n m : NodeId} {ts : Nat}

theorem nonneg (h : Balanced u entries log) {hash : Hash} {n : NodeId}
    (hl : u.lookup hash = some n) : 0 ≤ (u.nodes n).refCnt := by
  have := h.countHash_le hl
  omega

theorem perm (h : Balanced u entries log) (hperm : entries.Perm entries') :
    Balanced u entries' log where
  evictable := h.evictable
  entry_lt n hn := h.entry_lt n (hperm.mem_iff.mpr hn)
  entry_cached n hn := h.entry_cached n (hperm.mem_iff.mpr hn)
  countHash_le hl := by
    rw [← countHash_perm hperm]
    exact h.countHash_le hl
  entry_self hno n hn := h.entry_self hno n (hperm.mem_iff.mpr hn)
  count_eq hno _ n hl := by
    rw [← hperm.count_eq]
    exact h.count_eq hno hl
  removed := h.removed

/-- A listed node with the hash of a table node keeps that node referenced. -/
theorem pos_of_mem (h : Balanced u entries log) (hl : u.lookup hash = some n)
    (hm : m ∈ entries) (hhash : (u.nodes m).hash = hash) : 0 < (u.nodes n).refCnt := by
  have hle := h.countHash_le hl
  have hpos : 0 < countHash u.nodes entries hash :=
    List.countP_pos_iff.mpr ⟨m, hm, decide_eq_true hhash⟩
  omega

/-- Only the frames changed. -/
theorem spanManager (h : Balanced u entries log) (spanManager : SpanManager) :
    Balanced { u with spanManager } entries log where
  evictable := ⟨h.evictable.ascending, h.evictable.mem_iff⟩
  entry_lt := h.entry_lt
  entry_cached := h.entry_cached
  countHash_le := h.countHash_le
  entry_self := h.entry_self
  count_eq := h.count_eq
  removed := h.removed

/-- Counts stay, timestamps may move where the evictor allows it. -/
theorem kept (h : Balanced u entries log) (hk : Kept u u') (he : Evictable u')
    (href : ∀ n, (u'.nodes n).refCnt = (u.nodes n).refCnt) : Balanced u' entries log where
  evictable := he
  entry_lt n hn := by
    rw [hk.nextNode]
    exact h.entry_lt n hn
  entry_cached n hn := by
    rw [hk.hash, hk.lookup]
    exact h.entry_cached n hn
  countHash_le {hash n} hl := by
    rw [countHash_congr (fun n _ => hk.hash n), href]
    exact h.countHash_le (hk.lookup hash ▸ hl)
  entry_self hno n hn := by
    rw [hk.hash, hk.lookup]
    exact h.entry_self hno n hn
  count_eq hno {hash n} hl := by
    rw [href]
    exact h.count_eq hno (hk.lookup hash ▸ hl)
  removed := h.removed

/-- A referenced node's timestamp may move. -/
theorem updateNodeTs (h : Balanced u entries log)
    (hsafe : ∀ n, u.lookup hash = some n → (u.nodes n).refCnt ≠ 0) :
    Balanced (u.updateNodeTs hash ts) entries log :=
  h.kept (kept_updateNodeTs ts hash)
    (evictable_updateNodeTs ts h.evictable hash (fun n hl => Or.inl (hsafe n hl)))
    (updateNodeTs_refCnt ts hash)

/-- A reference is taken and the node that took it is listed. -/
theorem refNode_cons (h : Balanced u entries log) (ts : Nat) (hwf : Wf layerNum u out)
    (hl : u.lookup hash = some m) (hn : n < u.nextNode) (hhash : (u.nodes n).hash = hash)
    (hsame : NoClash log → n = m) :
    Balanced (u.refNode hash ts) (n :: entries) log := by
  have hk := kept_refNode (u := u) ts hwf hash
  have href := refNode_refCnt ts hwf hl
  refine
    { evictable := evictable_refNode ts hwf h.evictable h.nonneg hash
      entry_lt := ?_
      entry_cached := ?_
      countHash_le := ?_
      entry_self := ?_
      count_eq := ?_
      removed := h.removed }
  · intro k hk'
    rw [hk.nextNode]
    rcases List.mem_cons.mp hk' with rfl | hk'
    · exact hn
    · exact h.entry_lt k hk'
  · intro k hk'
    rw [hk.hash, hk.lookup]
    rcases List.mem_cons.mp hk' with rfl | hk'
    · rw [hhash, hl]
      exact Option.some_ne_none m
    · exact h.entry_cached k hk'
  · intro other k hlk
    rw [hk.lookup] at hlk
    rw [countHash_congr (fun n _ => hk.hash n), href]
    have hle := h.countHash_le hlk
    unfold countHash at hle ⊢
    rw [List.countP_cons]
    by_cases hother : other = hash
    · subst hother
      obtain rfl : m = k := Option.some.inj (hl.symm.trans hlk)
      simp only [hhash, decide_true, if_true]
      push_cast
      omega
    · have hne : ¬ hash = other := fun heq => hother heq.symm
      have hmk : k ≠ m := by
        rintro rfl
        exact hother ((hwf.hash_eq hlk).symm.trans (hwf.hash_eq hl))
      simp only [hhash, hne, decide_false, if_neg hmk]
      simpa using hle
  · intro hno k hk'
    rw [hk.hash, hk.lookup]
    rcases List.mem_cons.mp hk' with rfl | hk'
    · rw [hhash, hl, hsame hno]
    · exact h.entry_self hno k hk'
  · intro hno other k hlk
    rw [hk.lookup] at hlk
    rw [href, h.count_eq hno hlk, hsame hno]
    by_cases hkm : k = m
    · subst hkm
      simp
    · rw [if_neg hkm, List.count_cons_of_ne (Ne.symm hkm)]

/-- A listed node is taken off the list. If it is the table's own node its
reference goes too; otherwise only a timestamp moves. -/
theorem unref_cons (h : Balanced u (n :: entries) log) (hwf : Wf layerNum u out)
    (hl : u.lookup (u.nodes n).hash = some m) :
    Balanced (if n = m then u.unrefNode (u.nodes n).hash
      else u.updateNodeTs (u.nodes n).hash ts) entries log := by
  have hpos : 0 < (u.nodes m).refCnt := h.pos_of_mem hl (List.mem_cons_self ..) rfl
  have htail : ∀ {hash k}, u.lookup hash = some k →
      (countHash u.nodes entries hash : Int) ≤ (u.nodes k).refCnt := by
    intro hash k hlk
    have hle := h.countHash_le hlk
    unfold countHash at hle ⊢
    rw [List.countP_cons] at hle
    omega
  split
  · next heq =>
      subst heq
      have hk := kept_unrefNode (u := u) (u.nodes n).hash
      have href := unrefNode_refCnt hl
      refine
        { evictable := evictable_unrefNode hwf h.evictable hl hpos
          entry_lt := ?_
          entry_cached := ?_
          countHash_le := ?_
          entry_self := ?_
          count_eq := ?_
          removed := h.removed }
      · intro k hk'
        rw [hk.nextNode]
        exact h.entry_lt k (List.mem_cons_of_mem _ hk')
      · intro k hk'
        rw [hk.hash, hk.lookup]
        exact h.entry_cached k (List.mem_cons_of_mem _ hk')
      · intro other k hlk
        rw [hk.lookup] at hlk
        rw [countHash_congr (fun n _ => hk.hash n), href]
        split
        · next hkn =>
            subst hkn
            have hhash := hwf.hash_eq hlk
            have hle := h.countHash_le hlk
            unfold countHash at hle ⊢
            rw [List.countP_cons] at hle
            simp only [hhash, decide_true, if_true] at hle
            push_cast at hle
            omega
        · exact htail hlk
      · intro hno k hk'
        rw [hk.hash, hk.lookup]
        exact h.entry_self hno k (List.mem_cons_of_mem _ hk')
      · intro hno other k hlk
        rw [hk.lookup] at hlk
        rw [href, h.count_eq hno hlk]
        by_cases hkn : k = n
        · subst hkn
          simp
        · rw [if_neg hkn, List.count_cons_of_ne (Ne.symm hkn)]
  · next hne =>
      have hclash : ¬ NoClash log := by
        intro hno
        have hself := h.entry_self hno n (List.mem_cons_self ..)
        exact hne (Option.some.inj (hself.symm.trans hl))
      have hrest : Balanced u entries log :=
        { evictable := h.evictable
          entry_lt := fun k hk' => h.entry_lt k (List.mem_cons_of_mem _ hk')
          entry_cached := fun k hk' => h.entry_cached k (List.mem_cons_of_mem _ hk')
          countHash_le := htail
          entry_self := fun hno => absurd hno hclash
          count_eq := fun hno => absurd hno hclash
          removed := h.removed }
      refine hrest.updateNodeTs ?_
      intro k hlk
      obtain rfl : m = k := Option.some.inj (hl.symm.trans hlk)
      omega

/-- Nodes that are neither listed nor in the table may be anything. -/
theorem congr (h : Balanced u entries log) (hwf : Wf layerNum u out) (he : Evictable u')
    (hnext : u.nextNode ≤ u'.nextNode) (htable : u'.hashTable = u.hashTable)
    (hhash : ∀ n < u.nextNode, (u'.nodes n).hash = (u.nodes n).hash)
    (href : ∀ n < u.nextNode, (u'.nodes n).refCnt = (u.nodes n).refCnt) :
    Balanced u' entries log := by
  have hlookup : ∀ hash, u'.lookup hash = u.lookup hash := by
    intro hash
    unfold lookup
    rw [htable]
  refine
    { evictable := he
      entry_lt := fun n hn => Nat.lt_of_lt_of_le (h.entry_lt n hn) hnext
      entry_cached := ?_
      countHash_le := ?_
      entry_self := ?_
      count_eq := ?_
      removed := h.removed }
  · intro n hn
    rw [hhash n (h.entry_lt n hn), hlookup]
    exact h.entry_cached n hn
  · intro hash n hl
    rw [hlookup] at hl
    rw [countHash_congr (fun n hn => hhash n (h.entry_lt n hn)), href n (hwf.lt_next hl)]
    exact h.countHash_le hl
  · intro hno n hn
    rw [hhash n (h.entry_lt n hn), hlookup]
    exact h.entry_self hno n hn
  · intro hno hash n hl
    rw [hlookup] at hl
    rw [href n (hwf.lt_next hl)]
    exact h.count_eq hno hl

theorem createNode (h : Balanced u entries log) (hwf : Wf layerNum u out)
    (kCache vCache : List SpanId) (prefixLen ts : Nat) (hash : Hash) :
    Balanced (u.createNode kCache vCache prefixLen ts hash).2 entries log := by
  refine h.congr hwf (evictable_createNode _ _ _ _ _ hwf h.evictable) (Nat.le_succ _) rfl ?_ ?_
  · intro n hn
    rw [createNode_nodes _ _ _ _ _ hn]
  · intro n hn
    rw [createNode_nodes _ _ _ _ _ hn]

theorem setNodeReady (h : Balanced u entries log) (hwf : Wf layerNum u out) (n : NodeId) :
    Balanced (u.setNodeReady n) entries log :=
  h.congr hwf (evictable_setNodeReady h.evictable n) (Nat.le_refl _) rfl
    (fun m _ => setNodeReady_hash n m) (fun m _ => setNodeReady_refCnt n m)

theorem countHash_eq_zero (h : Balanced u entries log) (hnone : u.lookup hash = none) :
    countHash u.nodes entries hash = 0 := by
  refine List.countP_eq_zero.mpr ?_
  intro n hn hhash
  refine h.entry_cached n hn ?_
  rw [of_decide_eq_true hhash]
  exact hnone

/-- A new node, not listed yet, enters the table under a free hash. -/
theorem insertNode (h : Balanced u entries log) (hnone : u.lookup hash = none)
    (hroom : u.size < u.capacity) (hin : Insertable layerNum u out hash n) :
    Balanced (u.insertNode hash n) entries log := by
  have hlook := insertNode_lookup hnone hroom hin.refCnt
  have hnodes : (u.insertNode hash n).nodes = u.nodes := by
    rw [insertNode_eq hnone hroom hin.refCnt]
  have hnext : (u.insertNode hash n).nextNode = u.nextNode := by
    rw [insertNode_eq hnone hroom hin.refCnt]
  have hne : ∀ k ∈ entries, (u.nodes k).hash ≠ hash := by
    intro k hk heq
    exact h.entry_cached k hk (heq ▸ hnone)
  refine
    { evictable := evictable_insertNode h.evictable hnone hroom hin
      entry_lt := ?_
      entry_cached := ?_
      countHash_le := ?_
      entry_self := ?_
      count_eq := ?_
      removed := h.removed }
  · intro k hk
    rw [hnext]
    exact h.entry_lt k hk
  · intro k hk
    rw [hnodes, hlook, if_neg (hne k hk)]
    exact h.entry_cached k hk
  · intro other k hl
    rw [hlook] at hl
    rw [hnodes]
    split at hl
    · next hother =>
        cases hl
        rw [hother, h.countHash_eq_zero hnone, hin.refCnt]
        rfl
    · exact h.countHash_le hl
  · intro hno k hk
    rw [hnodes, hlook, if_neg (hne k hk)]
    exact h.entry_self hno k hk
  · intro hno other k hl
    rw [hlook] at hl
    rw [hnodes]
    split at hl
    · cases hl
      have hnot : n ∉ entries := fun hmem => hne n hmem hin.hash_eq
      rw [hin.refCnt, List.count_eq_zero.mpr hnot]
      rfl
    · exact h.count_eq hno hl

/-- Two nodes meet under one hash: from then on only the bounds hold. -/
theorem insertNode_clash (h : Balanced u entries log) (hwf : Wf layerNum u out)
    (hl : u.lookup hash = some m) (href : (u.nodes m).refCnt = 0) (n : NodeId) :
    Balanced (u.insertNode hash n) entries (.clash hash :: log) := by
  obtain ⟨evictor, heq, hlist⟩ := CacheUnion.insertNode_clash hwf h.evictable hl href n
  have hclash : ¬ NoClash (.clash hash :: log) :=
    fun hno => hno hash (List.mem_cons_self ..)
  rw [heq]
  refine
    { evictable := ⟨?_, ?_⟩
      entry_lt := h.entry_lt
      entry_cached := h.entry_cached
      countHash_le := h.countHash_le
      entry_self := fun hno => absurd hno hclash
      count_eq := fun hno => absurd hno hclash
      removed := ?_ }
  · unfold candidates
    rw [hlist]
    exact h.evictable.ascending
  · intro k
    unfold candidates
    rw [hlist]
    exact h.evictable.mem_iff k
  · intro k refCnt holders hmem
    exact h.removed ((List.mem_cons.mp hmem).resolve_left (by simp))

/-- An unreferenced node leaves the table; nobody holds it. -/
theorem deleted (h : Balanced u entries log) (hwf : Wf layerNum u out)
    (hd : Deleted u u' hash n) (href : (u.nodes n).refCnt = 0) :
    Balanced u' entries (.removed n (u.nodes n).refCnt (entries.count n) :: log) := by
  have hzero : countHash u.nodes entries hash = 0 := by
    have := h.countHash_le hd.lookup_eq
    omega
  have hne : ∀ k ∈ entries, (u.nodes k).hash ≠ hash := by
    intro k hk heq
    exact List.countP_eq_zero.mp hzero k hk (decide_eq_true heq)
  have hnot : n ∉ entries := fun hmem => hne n hmem (hwf.hash_eq hd.lookup_eq)
  have hno' : NoClash (.removed n (u.nodes n).refCnt (entries.count n) :: log) → NoClash log :=
    fun hno other hmem => hno other (List.mem_cons_of_mem _ hmem)
  refine
    { evictable := hd.evictable hwf h.evictable
      entry_lt := ?_
      entry_cached := ?_
      countHash_le := ?_
      entry_self := ?_
      count_eq := ?_
      removed := ?_ }
  · intro k hk
    rw [hd.nextNode]
    exact h.entry_lt k hk
  · intro k hk
    rw [hd.nodes, hd.lookup_of_ne (hne k hk)]
    exact h.entry_cached k hk
  · intro other k hl
    rw [hd.nodes]
    exact h.countHash_le (hd.lookup_some hl).2
  · intro hno k hk
    rw [hd.nodes, hd.lookup_of_ne (hne k hk)]
    exact h.entry_self (hno' hno) k hk
  · intro hno other k hl
    rw [hd.nodes]
    exact h.count_eq (hno' hno) (hd.lookup_some hl).2
  · intro k refCnt holders hmem
    rcases List.mem_cons.mp hmem with heq | hmem
    · cases heq
      exact ⟨href, List.count_eq_zero.mpr hnot⟩
    · exact h.removed hmem

end Balanced

end DashInfer.Cache

/-!
The invariant of the GPU side. Beside well-formed frames and balanced counts
it says how table nodes and requests share spans: a span outside the table is
in one place of one request, a request that refers to a table node's span
lists a node with that hash, and positions from `offered` on are the
request's own. `pend` names hashes a request does not list yet, inside an
operation that is about to list them.
-/

namespace DashInfer.Cache

open Lib CacheUnion

variable {E : OrderedSet NodeId} {D : Type}

namespace GpuSide

variable {g : GpuSide E D} {r : ReqId}

private theorem gather_updateCtx {α : Type} (F : GenCtx D → List α) (hnodup : g.live.Nodup)
    (hr : r ∈ g.live) (f : GenCtx D → GenCtx D) :
    ∃ rest, (g.live.flatMap (fun q => F (g.ctx q))).Perm (F (g.ctx r) ++ rest) ∧
      (g.live.flatMap (fun q => F ((g.updateCtx r f).ctx q))).Perm (F (f (g.ctx r)) ++ rest) := by
  have hperm := List.perm_cons_erase hr
  refine ⟨(g.live.erase r).flatMap (fun q => F (g.ctx q)), ?_, ?_⟩
  · exact (hperm.flatMap_right _).trans (by rw [List.flatMap_cons])
  · refine (hperm.flatMap_right _).trans ?_
    have hself : (g.updateCtx r f).ctx r = f (g.ctx r) := Function.update_self _ _ _
    have hrest : (g.live.erase r).flatMap (fun q => F ((g.updateCtx r f).ctx q)) =
        (g.live.erase r).flatMap (fun q => F (g.ctx q)) := by
      refine List.flatMap_congr ?_
      intro q hq
      have hne : q ≠ r := by
        rintro rfl
        exact (hnodup.not_mem_erase) hq
      simp only [updateCtx, Function.update_of_ne hne]
    rw [List.flatMap_cons, hself, hrest]

theorem entries_updateCtx (hnodup : g.live.Nodup) (hr : r ∈ g.live)
    (f : GenCtx D → GenCtx D) :
    ∃ rest, g.entries.Perm ((g.ctx r).nodeList ++ rest) ∧
      (g.updateCtx r f).entries.Perm ((f (g.ctx r)).nodeList ++ rest) :=
  gather_updateCtx GenCtx.nodeList hnodup hr f

theorem slots_updateCtx (hnodup : g.live.Nodup) (hr : r ∈ g.live)
    (f : GenCtx D → GenCtx D) :
    ∃ rest, g.slots.Perm ((g.ctx r).spans ++ rest) ∧
      (g.updateCtx r f).slots.Perm ((f (g.ctx r)).spans ++ rest) :=
  gather_updateCtx GenCtx.spans hnodup hr f

theorem slots_congr {g g' : GpuSide E D} (hlive : g'.live = g.live)
    (hspans : ∀ q ∈ g.live, (g'.ctx q).spans = (g.ctx q).spans) : g'.slots = g.slots := by
  unfold slots
  rw [hlive]
  exact List.flatMap_congr hspans

theorem entries_congr {g g' : GpuSide E D} (hlive : g'.live = g.live)
    (hlist : ∀ q ∈ g.live, (g'.ctx q).nodeList = (g.ctx q).nodeList) :
    g'.entries = g.entries := by
  unfold entries
  rw [hlive]
  exact List.flatMap_congr hlist

theorem updateCtx_self (f : GenCtx D → GenCtx D) : (g.updateCtx r f).ctx r = f (g.ctx r) :=
  Function.update_self _ _ _

theorem updateCtx_of_ne {q : ReqId} (hq : q ≠ r) (f : GenCtx D → GenCtx D) :
    (g.updateCtx r f).ctx q = g.ctx q :=
  Function.update_of_ne hq _ _

theorem mem_slots_iff {span : SpanId} :
    span ∈ g.slots ↔ ∃ q ∈ g.live, span ∈ (g.ctx q).spans := List.mem_flatMap

theorem mem_entries_iff {n : NodeId} :
    n ∈ g.entries ↔ ∃ q ∈ g.live, n ∈ (g.ctx q).nodeList := List.mem_flatMap

end GpuSide

/-- How one request's arrays stand to the table. `keyed` says whether the
placed nodes are known to be those of the request's own blocks. -/
structure CtxInv (cfg : Config) (keyed : Prop) (u : CacheUnion E) (c : GenCtx D)
    (pend : Hash → Prop) : Prop where
  shared : ∀ span ∈ c.spans, ∀ {hash n}, u.lookup hash = some n → span ∈ (u.nodes n).spans →
    (∃ m ∈ c.nodeList, (u.nodes m).hash = hash) ∨ pend hash
  fresh : ∀ a ∈ c.arrays, ∀ span ∈ a.cache.drop c.offered, span ∉ u.tableSpans
  kShape : c.virtualK.length = cfg.layerNum ∨ c.virtualK.length = 0
  vShape : c.virtualV.length = c.virtualK.length
  placed : ∀ (k : Nat) n, c.placed[k]? = some n → n ∈ c.nodeList ∧
    c.blockAt k = some ((u.nodes n).kCache, (u.nodes n).vCache)
  keys : keyed → ∀ (k : Nat) n, c.placed[k]? = some n →
    (u.nodes n).hash = cfg.hashTokens (c.tokens.take ((k + 1) * cfg.tokenPerSpan))
  prefixLen : c.prefixLen = c.placed.length * cfg.tokenPerSpan

structure GpuInv (cfg : Config) (keyed : Prop) (g : GpuSide E D)
    (pend : ReqId → Hash → Prop) : Prop where
  wf : Wf cfg.layerNum g.union (· ∈ g.slots)
  covered : Covered g.union.spanManager g.union.tableSpans (· ∈ g.slots)
  capacity : g.union.capacity = g.union.countFrame / (2 * cfg.layerNum)
  balanced : Balanced g.union g.entries g.log
  live_nodup : g.live.Nodup
  once : ∀ span, span ∉ g.union.tableSpans → g.slots.count span ≤ 1
  ctx : ∀ r ∈ g.live, CtxInv cfg keyed g.union (g.ctx r) (pend r)

/-- No request is in the middle of listing a node. -/
def Settled : ReqId → Hash → Prop := fun _ _ => False

namespace CtxInv

variable {cfg : Config} {keyed : Prop} {u u' : CacheUnion E} {c c' : GenCtx D}
  {pend pend' : Hash → Prop}

theorem congr (h : CtxInv cfg keyed u c pend) (htable : ∀ {hash n}, u'.lookup hash = some n →
      u.lookup hash = some n ∧ (u'.nodes n).spans = (u.nodes n).spans)
    (hlist : ∀ m ∈ c.nodeList, (u'.nodes m).hash = (u.nodes m).hash ∧
      (u'.nodes m).kCache = (u.nodes m).kCache ∧ (u'.nodes m).vCache = (u.nodes m).vCache) :
    CtxInv cfg keyed u' c pend where
  shared span hs {hash n} hl hin := by
    obtain ⟨hl', hspans⟩ := htable hl
    rcases h.shared span hs hl' (hspans ▸ hin) with ⟨m, hm, hhash⟩ | hp
    · exact Or.inl ⟨m, hm, (hlist m hm).1.trans hhash⟩
    · exact Or.inr hp
  fresh a ha span hs hin := by
    obtain ⟨hash, n, hl, hin⟩ := mem_tableSpans_iff.mp hin
    obtain ⟨hl', hspans⟩ := htable hl
    exact h.fresh a ha span hs (mem_tableSpans_iff.mpr ⟨hash, n, hl', hspans ▸ hin⟩)
  kShape := h.kShape
  vShape := h.vShape
  placed k n hk := by
    obtain ⟨hmem, hblock⟩ := h.placed k n hk
    obtain ⟨_, hkc, hvc⟩ := hlist n hmem
    rw [hkc, hvc]
    exact ⟨hmem, hblock⟩
  keys hkeyed k n hk := by
    rw [(hlist n (h.placed k n hk).1).1]
    exact h.keys hkeyed k n hk
  prefixLen := h.prefixLen

theorem kept (h : CtxInv cfg keyed u c pend) (hk : Kept u u') : CtxInv cfg keyed u' c pend :=
  h.congr (fun {hash n} hl => ⟨hk.lookup hash ▸ hl, hk.spans n⟩)
    (fun m _ => ⟨hk.hash m, hk.kCache m, hk.vCache m⟩)

/-- Another node list, the same arrays; what was placed stays listed or is
forgotten. -/
theorem relist (h : CtxInv cfg keyed u c pend) (hk : c'.virtualK = c.virtualK)
    (hv : c'.virtualV = c.virtualV) (hoff : c.offered ≤ c'.offered)
    (hlist : ∀ hash, ((∃ m ∈ c.nodeList, (u.nodes m).hash = hash) ∨ pend hash) →
      (∃ m ∈ c'.nodeList, (u.nodes m).hash = hash) ∨ pend' hash)
    (hplaced : (c'.placed = [] ∧ c'.prefixLen = 0) ∨ (c'.placed = c.placed ∧
      c'.prefixLen = c.prefixLen ∧ c'.tokens = c.tokens ∧ ∀ m ∈ c.nodeList, m ∈ c'.nodeList)) :
    CtxInv cfg keyed u c' pend' where
  shared span hs {hash n} hl hin := by
    refine hlist hash (h.shared span ?_ hl hin)
    unfold GenCtx.spans GenCtx.arrays at hs ⊢
    rw [hk, hv] at hs
    exact hs
  fresh a ha span hs := by
    refine h.fresh a ?_ span (List.drop_subset_drop_left a.cache hoff hs)
    unfold GenCtx.arrays at ha ⊢
    rw [hk, hv] at ha
    exact ha
  kShape := by
    rw [hk]
    exact h.kShape
  vShape := by
    rw [hk, hv]
    exact h.vShape
  placed k n hkn := by
    rcases hplaced with ⟨hnil, _⟩ | ⟨hsame, _, _, hsub⟩
    · rw [hnil] at hkn
      cases hkn
    · rw [hsame] at hkn
      obtain ⟨hmem, hblock⟩ := h.placed k n hkn
      refine ⟨hsub n hmem, ?_⟩
      unfold GenCtx.blockAt at hblock ⊢
      rw [hk, hv]
      exact hblock
  keys hkeyed k n hkn := by
    rcases hplaced with ⟨hnil, _⟩ | ⟨hsame, _, htokens, _⟩
    · rw [hnil] at hkn
      cases hkn
    · rw [hsame] at hkn
      rw [htokens]
      exact h.keys hkeyed k n hkn
  prefixLen := by
    rcases hplaced with ⟨hnil, hzero⟩ | ⟨hsame, hlen, _, _⟩
    · rw [hnil, hzero, List.length_nil, Nat.zero_mul]
    · rw [hsame, hlen]
      exact h.prefixLen

end CtxInv

end DashInfer.Cache
