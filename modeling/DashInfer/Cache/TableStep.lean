import DashInfer.Cache.Table

/-!
The operations on one union, each with the equation it satisfies on a
well-formed union and with what it keeps of `Wf` and `Evictable`. Later proofs
use these lemmas and do not unfold the operations.
-/

namespace DashInfer.Cache

open Lib

namespace CacheUnion

variable {E : OrderedSet NodeId} {u : CacheUnion E} {layerNum : Nat} {out : SpanId → Prop}
  {hash : Hash} {n : NodeId}

theorem refCacheSpan_eq (hwf : Wf layerNum u out) (hash : Hash) : u.refCacheSpan hash = u := by
  unfold refCacheSpan
  cases hl : u.lookup hash with
  | none => rfl
  | some n =>
      have hin : ∀ span ∈ (u.nodes n).spans, span ∈ u.tableSpans :=
        fun span hs => mem_tableSpans_iff.mpr ⟨hash, n, hl, hs⟩
      simp only [hwf.owned.setExtraRef_table hin]

theorem kept_modify {u' : CacheUnion E} (hu' : u'.hashTable = u.hashTable)
    (hnext : u'.nextNode = u.nextNode) (hcap : u'.capacity = u.capacity)
    (hspan : u'.spanManager = u.spanManager) {node : PrefixNode}
    (hnodes : u'.nodes = Function.update u.nodes n node)
    (hstill : node.still = (u.nodes n).still) : Kept u u' := by
  refine ⟨hu', hnext, hcap, hspan, ?_⟩
  intro m
  rw [hnodes]
  by_cases hm : m = n
  · subst hm
    rw [Function.update_self]
    exact hstill
  · rw [Function.update_of_ne hm]

section Reference

variable (ts : Nat)

theorem refNode_eq_self (hl : u.lookup hash = none) : u.refNode hash ts = u := by
  unfold refNode
  rw [hl]

theorem refNode_eq (hwf : Wf layerNum u out) (hl : u.lookup hash = some n) :
    u.refNode hash ts =
      { u with
        evictor := if (u.nodes n).refCnt = 0 then (u.evictorDel n).evictor else u.evictor
        nodes := Function.update u.nodes n
          (PrefixNode.touch { u.nodes n with refCnt := (u.nodes n).refCnt + 1 } ts) } := by
  unfold refNode
  simp only [hl, refCacheSpan_eq hwf]
  split <;> simp [modifyNode, evictorDel]

theorem unrefNode_eq (hl : u.lookup hash = some n) :
    u.unrefNode hash =
      { u with
        nodes := Function.update u.nodes n { u.nodes n with refCnt := (u.nodes n).refCnt - 1 }
        evictor :=
          if (u.nodes n).refCnt - 1 = 0 then
            E.insert (nodeComparator (Function.update u.nodes n
              { u.nodes n with refCnt := (u.nodes n).refCnt - 1 })) u.evictor n
          else u.evictor } := by
  unfold unrefNode
  simp only [hl, modifyNode, Function.update_self]
  split <;> simp [evictorAdd]

theorem updateNodeTs_eq_self (hl : u.lookup hash = none) : u.updateNodeTs hash ts = u := by
  unfold updateNodeTs
  rw [hl]

theorem updateNodeTs_eq (hl : u.lookup hash = some n) :
    u.updateNodeTs hash ts =
      { u with nodes := Function.update u.nodes n ((u.nodes n).touch ts) } := by
  unfold updateNodeTs
  rw [hl]
  rfl

theorem kept_refNode (hwf : Wf layerNum u out) (hash : Hash) : Kept u (u.refNode hash ts) := by
  cases hl : u.lookup hash with
  | none =>
      rw [refNode_eq_self ts hl]
      exact Kept.refl u
  | some n =>
      rw [refNode_eq ts hwf hl]
      exact kept_modify rfl rfl rfl rfl rfl (PrefixNode.touch_still _ _)

theorem kept_unrefNode (hash : Hash) : Kept u (u.unrefNode hash) := by
  cases hl : u.lookup hash with
  | none =>
      unfold unrefNode
      rw [hl]
      exact Kept.refl u
  | some n =>
      rw [unrefNode_eq hl]
      exact kept_modify rfl rfl rfl rfl rfl rfl

theorem kept_updateNodeTs (hash : Hash) : Kept u (u.updateNodeTs hash ts) := by
  cases hl : u.lookup hash with
  | none =>
      rw [updateNodeTs_eq_self ts hl]
      exact Kept.refl u
  | some n =>
      rw [updateNodeTs_eq ts hl]
      exact kept_modify rfl rfl rfl rfl rfl (PrefixNode.touch_still _ _)

theorem refNode_refCnt (hwf : Wf layerNum u out) (hl : u.lookup hash = some n) (m : NodeId) :
    ((u.refNode hash ts).nodes m).refCnt =
      if m = n then (u.nodes m).refCnt + 1 else (u.nodes m).refCnt := by
  rw [refNode_eq ts hwf hl]
  by_cases hm : m = n
  · subst hm
    simp
  · simp [hm]

theorem unrefNode_refCnt (hl : u.lookup hash = some n) (m : NodeId) :
    ((u.unrefNode hash).nodes m).refCnt =
      if m = n then (u.nodes m).refCnt - 1 else (u.nodes m).refCnt := by
  rw [unrefNode_eq hl]
  by_cases hm : m = n
  · subst hm
    simp
  · simp [hm]

@[simp] theorem updateNodeTs_refCnt (hash : Hash) (m : NodeId) :
    ((u.updateNodeTs hash ts).nodes m).refCnt = (u.nodes m).refCnt := by
  cases hl : u.lookup hash with
  | none => rw [updateNodeTs_eq_self ts hl]
  | some n =>
      rw [updateNodeTs_eq ts hl]
      by_cases hm : m = n
      · subst hm
        simp
      · simp [hm]

theorem evictable_refNode (hwf : Wf layerNum u out) (he : Evictable u)
    (hnonneg : ∀ {hash n}, u.lookup hash = some n → 0 ≤ (u.nodes n).refCnt) (hash : Hash) :
    Evictable (u.refNode hash ts) := by
  cases hl : u.lookup hash with
  | none =>
      rw [refNode_eq_self ts hl]
      exact he
  | some n =>
      have hcnt := refNode_refCnt ts hwf hl n
      have hpos : ((u.refNode hash ts).nodes n).refCnt ≠ 0 := by
        have := hnonneg hl
        rw [hcnt, if_pos rfl]
        omega
      have hkept := kept_refNode ts hwf hash
      by_cases hzero : (u.nodes n).refCnt = 0
      · refine he.withdraw (hwf.self hl) ?_ ?_ ?_ (fun hmem => hpos hmem.2)
        · rw [refNode_eq ts hwf hl, if_pos hzero]
        · intro m hm
          rw [refNode_eq ts hwf hl]
          simp [hm]
        · intro m _
          rw [hkept.lookup]
      · have hother : ∀ m, m ≠ n → (u.refNode hash ts).nodes m = u.nodes m := by
          intro m hm
          rw [refNode_eq ts hwf hl]
          simp [hm]
        refine he.congr ?_ ?_ ?_
        · rw [refNode_eq ts hwf hl, if_neg hzero]
        · intro m hm
          have hmn : m ≠ n := fun heq => hzero (heq ▸ ((he.mem_iff m).mp hm).2)
          rw [hother m hmn]
          exact ⟨rfl, rfl, rfl⟩
        · intro m
          rw [hkept.lookup, hkept.hash]
          by_cases hmn : m = n
          · subst hmn
            simp [hpos, hzero]
          · rw [hother m hmn]

theorem refNode_nodes_of_ne (hwf : Wf layerNum u out) (hl : u.lookup hash = some n) {m : NodeId}
    (hm : m ≠ n) : (u.refNode hash ts).nodes m = u.nodes m := by
  rw [refNode_eq ts hwf hl]
  simp [hm]

/-- A referenced node is no candidate; the others stay in order. -/
theorem candidates_refNode (hwf : Wf layerNum u out) (he : Evictable u)
    (hl : u.lookup hash = some n) :
    (u.refNode hash ts).candidates = u.candidates.filter (fun m => decide (m ≠ n)) := by
  by_cases hzero : (u.nodes n).refCnt = 0
  · have hevictor : (u.refNode hash ts).evictor = (u.evictorDel n).evictor := by
      rw [refNode_eq ts hwf hl, if_pos hzero]
    unfold candidates
    rw [hevictor]
    exact he.candidates_evictorDel (hwf.self hl)
  · have hevictor : (u.refNode hash ts).evictor = u.evictor := by
      rw [refNode_eq ts hwf hl, if_neg hzero]
    unfold candidates
    rw [hevictor]
    refine (List.filter_eq_self.mpr ?_).symm
    intro m hm
    apply decide_eq_true
    rintro rfl
    exact hzero ((he.mem_iff m).mp hm).2

/-- The count of a referenced node drops; at zero the node becomes a
candidate. -/
theorem evictable_unrefNode (hwf : Wf layerNum u out) (he : Evictable u)
    (hl : u.lookup hash = some n) (hpos : 0 < (u.nodes n).refCnt) :
    Evictable (u.unrefNode hash) := by
  have hnot : n ∉ u.candidates := by
    intro hmem
    have := ((he.mem_iff n).mp hmem).2
    omega
  have hother : ∀ m, m ≠ n → (u.unrefNode hash).nodes m = u.nodes m := by
    intro m hm
    rw [unrefNode_eq hl]
    simp [hm]
  have hkept := kept_unrefNode (u := u) hash
  by_cases hlast : (u.nodes n).refCnt - 1 = 0
  · refine he.enroll hnot ?_ hother ?_ ?_ ?_
    · rw [unrefNode_eq hl, if_pos hlast]
    · intro m _
      rw [hkept.lookup]
    · rw [hkept.lookup, hkept.hash]
      exact hwf.self hl
    · rw [unrefNode_refCnt hl, if_pos rfl]
      exact hlast
  · refine he.congr ?_ ?_ ?_
    · rw [unrefNode_eq hl, if_neg hlast]
    · intro m hm
      rw [hother m (fun heq => hnot (heq ▸ hm))]
      exact ⟨rfl, rfl, rfl⟩
    · intro m
      rw [hkept.lookup, hkept.hash, unrefNode_refCnt hl]
      by_cases hmn : m = n
      · subst hmn
        simp only [if_true]
        omega
      · rw [if_neg hmn]

/-- A timestamp may change only outside the set, or not at all. -/
theorem evictable_updateNodeTs (he : Evictable u) (hash : Hash)
    (hsafe : ∀ n, u.lookup hash = some n →
      (u.nodes n).refCnt ≠ 0 ∨ ts ≤ (u.nodes n).lastAccessTime) :
    Evictable (u.updateNodeTs hash ts) := by
  cases hl : u.lookup hash with
  | none =>
      rw [updateNodeTs_eq_self ts hl]
      exact he
  | some n =>
      have hkept := kept_updateNodeTs (u := u) ts hash
      refine he.congr ?_ ?_ ?_
      · rw [updateNodeTs_eq ts hl]
      · intro m hm
        rw [updateNodeTs_eq ts hl]
        by_cases hmn : m = n
        · subst hmn
          have hle := (hsafe m hl).resolve_left (fun h => h ((he.mem_iff m).mp hm).2)
          simp [PrefixNode.touch, Nat.not_lt.mpr hle]
        · simp [hmn]
      · intro m
        rw [hkept.lookup, hkept.hash, updateNodeTs_refCnt]

end Reference

section Creation

variable (kCache vCache : List SpanId) (prefixLen ts : Nat) (hash : Hash)

/-- A created node is new: no node of the table changes. -/
theorem createNode_nodes {m : NodeId} (hm : m < u.nextNode) :
    (u.createNode kCache vCache prefixLen ts hash).2.nodes m = u.nodes m := by
  simp only [createNode]
  rw [Function.update_of_ne (Nat.ne_of_lt hm)]

theorem createNode_tableSpans (hwf : Wf layerNum u out) :
    (u.createNode kCache vCache prefixLen ts hash).2.tableSpans = u.tableSpans := by
  unfold tableSpans
  refine List.flatMap_congr ?_
  rintro ⟨other, m⟩ he
  rw [createNode_nodes _ _ _ _ _ (hwf.lt_next (mem_entries_iff.mp he))]

theorem wf_createNode (hwf : Wf layerNum u out) :
    Wf layerNum (u.createNode kCache vCache prefixLen ts hash).2 out where
  hash_eq := fun {other m} hl => by
    rw [createNode_nodes _ _ _ _ _ (hwf.lt_next hl)]
    exact hwf.hash_eq hl
  lt_next := fun {other m} hl => Nat.lt_succ_of_lt (hwf.lt_next hl)
  kLength := fun {other m} hl => by
    rw [createNode_nodes _ _ _ _ _ (hwf.lt_next hl)]
    exact hwf.kLength hl
  vLength := fun {other m} hl => by
    rw [createNode_nodes _ _ _ _ _ (hwf.lt_next hl)]
    exact hwf.vLength hl
  owned := by
    rw [createNode_tableSpans _ _ _ _ _ hwf]
    exact hwf.owned
  size_le := hwf.size_le

theorem evictable_createNode (hwf : Wf layerNum u out) (he : Evictable u) :
    Evictable (u.createNode kCache vCache prefixLen ts hash).2 := by
  refine he.congr rfl ?_ ?_
  · intro m hm
    have hlt := hwf.lt_next ((he.mem_iff m).mp hm).1
    rw [createNode_nodes _ _ _ _ _ hlt]
    exact ⟨rfl, rfl, rfl⟩
  · intro m
    constructor
    · rintro ⟨hl, href⟩
      rw [createNode_nodes _ _ _ _ _ (hwf.lt_next hl)] at hl href
      exact ⟨hl, href⟩
    · rintro ⟨hl, href⟩
      rw [createNode_nodes _ _ _ _ _ (hwf.lt_next hl)]
      exact ⟨hl, href⟩

end Creation

section Ready

/-- Readiness is not part of what the table or the evictor look at. -/
theorem setNodeReady_nodes (n m : NodeId) :
    (u.setNodeReady n).nodes m =
      if m = n then { u.nodes m with isReady := true } else u.nodes m := by
  unfold setNodeReady modifyNode
  by_cases hm : m = n
  · subst hm
    simp
  · simp [hm]

theorem setNodeReady_spans (n m : NodeId) :
    ((u.setNodeReady n).nodes m).spans = (u.nodes m).spans := by
  rw [setNodeReady_nodes]
  split <;> rfl

theorem setNodeReady_hash (n m : NodeId) :
    ((u.setNodeReady n).nodes m).hash = (u.nodes m).hash := by
  rw [setNodeReady_nodes]
  split <;> rfl

theorem setNodeReady_kCache (n m : NodeId) :
    ((u.setNodeReady n).nodes m).kCache = (u.nodes m).kCache := by
  rw [setNodeReady_nodes]
  split <;> rfl

theorem setNodeReady_vCache (n m : NodeId) :
    ((u.setNodeReady n).nodes m).vCache = (u.nodes m).vCache := by
  rw [setNodeReady_nodes]
  split <;> rfl

theorem setNodeReady_refCnt (n m : NodeId) :
    ((u.setNodeReady n).nodes m).refCnt = (u.nodes m).refCnt := by
  rw [setNodeReady_nodes]
  split <;> rfl

theorem setNodeReady_tableSpans (n : NodeId) : (u.setNodeReady n).tableSpans = u.tableSpans := by
  unfold tableSpans
  refine List.flatMap_congr ?_
  intro e _
  exact setNodeReady_spans n e.2

theorem wf_setNodeReady (hwf : Wf layerNum u out) (n : NodeId) :
    Wf layerNum (u.setNodeReady n) out where
  hash_eq := fun {other m} hl => (setNodeReady_hash n m).trans (hwf.hash_eq hl)
  lt_next := hwf.lt_next
  kLength := fun {other m} hl => by
    rw [setNodeReady_nodes]
    split <;> exact hwf.kLength hl
  vLength := fun {other m} hl => by
    rw [setNodeReady_nodes]
    split <;> exact hwf.vLength hl
  owned := by
    rw [setNodeReady_tableSpans]
    exact hwf.owned
  size_le := hwf.size_le

theorem evictable_setNodeReady (he : Evictable u) (n : NodeId) :
    Evictable (u.setNodeReady n) := by
  refine he.congr rfl ?_ ?_
  · intro m _
    rw [setNodeReady_nodes]
    split <;> exact ⟨rfl, rfl, rfl⟩
  · intro m
    rw [setNodeReady_hash, setNodeReady_refCnt]
    rfl

end Ready

section Insertion

theorem insertNode_nextNode (hash : Hash) (n : NodeId) :
    (u.insertNode hash n).nextNode = u.nextNode := by
  have hspan : ∀ v : CacheUnion E, (v.refCacheSpan hash).nextNode = v.nextNode := by
    intro v
    unfold refCacheSpan
    split <;> rfl
  have hemplace : (u.emplace hash n).nextNode = u.nextNode := by
    unfold emplace
    split <;> rfl
  have hboth : ((u.emplace hash n).refCacheSpan hash).nextNode = u.nextNode :=
    (hspan _).trans hemplace
  unfold insertNode
  split
  · dsimp only
    split
    · exact hboth
    · exact hboth
  · rfl

theorem insertNode_eq (hnone : u.lookup hash = none) (hroom : u.size < u.capacity)
    (href : (u.nodes n).refCnt = 0) :
    u.insertNode hash n =
      { u with
        hashTable := u.hashTable.insert hash n
        spanManager := u.spanManager.setExtraRef true (u.nodes n).spans
        evictor := E.insert (nodeComparator u.nodes) u.evictor n } := by
  have hlook : (AList.insert hash n u.hashTable).lookup hash = some n :=
    AList.lookup_insert _
  have hemplace : u.emplace hash n = { u with hashTable := u.hashTable.insert hash n } := by
    unfold emplace
    rw [hnone]
  have hspan : (u.emplace hash n).refCacheSpan hash =
      { u with
        hashTable := u.hashTable.insert hash n
        spanManager := u.spanManager.setExtraRef true (u.nodes n).spans } := by
    rw [hemplace]
    unfold refCacheSpan lookup
    simp only [hlook]
  unfold insertNode
  rw [if_pos hroom, hspan]
  dsimp only [evictorAdd, lookup]
  rw [if_pos href, hlook]
  rfl

/-- An insertion under a hash that is present changes no entry and flags spans
that are flagged already. With the present node unreferenced, the evictor
keeps its sequence. -/
theorem insertNode_clash (hwf : Wf layerNum u out) (he : Evictable u) {m : NodeId}
    (hl : u.lookup hash = some m) (href : (u.nodes m).refCnt = 0) (n : NodeId) :
    ∃ evictor, u.insertNode hash n = { u with evictor } ∧
      E.toList evictor = u.candidates := by
  have hemplace : u.emplace hash n = u := by
    unfold emplace
    rw [hl]
  unfold insertNode
  split
  · rw [hemplace, refCacheSpan_eq hwf]
    dsimp only
    split
    · refine ⟨E.insert (nodeComparator u.nodes) u.evictor m, ?_, ?_⟩
      · unfold evictorAdd
        rw [hl]
        rfl
      · refine E.toList_insert_equivalent _ _ _ (nodeComparator_strictWeak _) he.ascending ?_
        have hirr := (nodeComparator_strictWeak u.nodes).irrefl m
        exact ⟨m, (he.mem_iff m).mpr ⟨hwf.self hl, href⟩, hirr, hirr⟩
    · exact ⟨u.evictor, rfl, rfl⟩
  · exact ⟨u.evictor, rfl, rfl⟩

/-- The spans of a new node, held outside the table and not in it. -/
structure Insertable (layerNum : Nat) (u : CacheUnion E) (out : SpanId → Prop) (hash : Hash)
    (n : NodeId) : Prop where
  hash_eq : (u.nodes n).hash = hash
  lt_next : n < u.nextNode
  refCnt : (u.nodes n).refCnt = 0
  kLength : (u.nodes n).kCache.length = layerNum
  vLength : (u.nodes n).vCache.length = layerNum
  nodup : (u.nodes n).spans.Nodup
  outside : ∀ span ∈ (u.nodes n).spans, out span
  fresh : ∀ span ∈ (u.nodes n).spans, span ∉ u.tableSpans

theorem Insertable.spans_length (h : Insertable layerNum u out hash n) :
    (u.nodes n).spans.length = 2 * layerNum := by
  rw [PrefixNode.spans_length _ (h.vLength.trans h.kLength.symm), PrefixNode.cacheNum, h.kLength]

/-- Frames bound the table: beside a node that is still outside, there is room
for one more in a table sized by its frames. -/
theorem Insertable.room (h : Insertable layerNum u out hash n) (hwf : Wf layerNum u out)
    (hlayer : 0 < layerNum)
    (hcap : u.capacity = u.countFrame / (2 * layerNum)) : u.size < u.capacity := by
  have hnodup : ((u.nodes n).spans ++ u.tableSpans).Nodup := by
    refine List.nodup_append.mpr ⟨h.nodup, hwf.owned.table_nodup, ?_⟩
    rintro a ha b hb rfl
    exact h.fresh a ha hb
  have hheld : ∀ span ∈ (u.nodes n).spans ++ u.tableSpans, Held u.tableSpans out span := by
    intro span hs
    rcases List.mem_append.mp hs with hs | hs
    · exact Or.inr (h.outside span hs)
    · exact Or.inl hs
  have hle := hwf.owned.length_le_total hnodup hheld
  rw [List.length_append, h.spans_length, hwf.tableSpans_length] at hle
  rw [hcap]
  refine (Nat.le_div_iff_mul_le (by omega)).mpr ?_
  rw [Nat.succ_mul]
  unfold countFrame
  omega

theorem insert_tableSpans (hnone : u.lookup hash = none) {u' : CacheUnion E}
    (htable : u'.hashTable = u.hashTable.insert hash n) (hnodes : u'.nodes = u.nodes) :
    u'.tableSpans = (u.nodes n).spans ++ u.tableSpans := by
  have hnot : hash ∉ u.hashTable := AList.lookup_eq_none.mp hnone
  unfold tableSpans
  rw [htable, AList.entries_insert_of_notMem hnot, hnodes, List.flatMap_cons]

theorem insertNode_lookup (hnone : u.lookup hash = none) (hroom : u.size < u.capacity)
    (href : (u.nodes n).refCnt = 0) (other : Hash) :
    (u.insertNode hash n).lookup other = if other = hash then some n else u.lookup other := by
  rw [insertNode_eq hnone hroom href]
  unfold lookup
  by_cases hother : other = hash
  · subst hother
    simp
  · simp [hother, AList.lookup_insert_ne hother]

theorem wf_insertNode (hwf : Wf layerNum u out) (hnone : u.lookup hash = none)
    (hroom : u.size < u.capacity) (hin : Insertable layerNum u out hash n) :
    Wf layerNum (u.insertNode hash n) out := by
  have hlook := insertNode_lookup hnone hroom hin.refCnt
  have heq := insertNode_eq hnone hroom hin.refCnt
  refine
    { hash_eq := ?_
      lt_next := ?_
      kLength := ?_
      vLength := ?_
      owned := ?_
      size_le := ?_ }
  · intro other m hl
    rw [hlook] at hl
    rw [heq]
    split at hl
    · next h =>
        cases hl
        rw [h]
        exact hin.hash_eq
    · exact hwf.hash_eq hl
  · intro other m hl
    rw [hlook] at hl
    rw [heq]
    split at hl
    · cases hl
      exact hin.lt_next
    · exact hwf.lt_next hl
  · intro other m hl
    rw [hlook] at hl
    rw [heq]
    split at hl
    · cases hl
      exact hin.kLength
    · exact hwf.kLength hl
  · intro other m hl
    rw [hlook] at hl
    rw [heq]
    split at hl
    · cases hl
      exact hin.vLength
    · exact hwf.vLength hl
  · have hspans : (u.insertNode hash n).tableSpans = (u.nodes n).spans ++ u.tableSpans := by
      refine insert_tableSpans hnone ?_ ?_ <;> rw [heq]
    rw [hspans, heq]
    exact hwf.owned.insert hin.nodup hin.outside hin.fresh
  · have hnot : hash ∉ u.hashTable := AList.lookup_eq_none.mp hnone
    rw [heq]
    unfold size
    rw [AList.entries_insert_of_notMem hnot, List.length_cons]
    exact hroom

theorem evictable_insertNode (he : Evictable u)
    (hnone : u.lookup hash = none) (hroom : u.size < u.capacity)
    (hin : Insertable layerNum u out hash n) : Evictable (u.insertNode hash n) := by
  have hlook := insertNode_lookup hnone hroom hin.refCnt
  have heq := insertNode_eq hnone hroom hin.refCnt
  have hnodes : (u.insertNode hash n).nodes = u.nodes := by
    rw [heq]
  have hout : u.lookup (u.nodes n).hash = none := by
    rw [hin.hash_eq]
    exact hnone
  have hnew : n ∉ u.candidates := by
    intro hmem
    have hl := ((he.mem_iff n).mp hmem).1
    rw [hout] at hl
    cases hl
  refine he.enroll hnew ?_ ?_ ?_ ?_ ?_
  · rw [heq]
  · intro m _
    rw [hnodes]
  · intro m hm
    rw [hlook]
    split
    · next h =>
        rw [h, hnone]
        simp [hm.symm]
    · rfl
  · rw [hnodes, hlook, if_pos hin.hash_eq]
  · rw [hnodes]
    exact hin.refCnt

end Insertion

section Deletion

theorem deleteNode_eq (hl : u.lookup hash = some n) :
    u.deleteNode hash =
      some { u with
        spanManager := (u.spanManager.setExtraRef false (u.nodes n).spans).releaseSpans
          (u.nodes n).spans
        evictor := (u.evictorDel n).evictor
        hashTable := u.hashTable.erase hash } := by
  have hunref : u.unrefCacheSpan hash =
      { u with spanManager := u.spanManager.setExtraRef false (u.nodes n).spans } := by
    unfold unrefCacheSpan
    rw [hl]
  unfold deleteNode
  rw [hl, hunref]
  unfold freeCacheSpan lookup
  unfold lookup at hl
  simp only [hl, evictorDel]

theorem deleteNode_none (hl : u.lookup hash = none) : u.deleteNode hash = none := by
  unfold deleteNode
  rw [hl]

/-- What removing a node does: the frames of its spans go back, its entry is
gone, and it leaves the evictor. -/
structure Deleted (u u' : CacheUnion E) (hash : Hash) (n : NodeId) : Prop where
  lookup_eq : u.lookup hash = some n
  hashTable : u'.hashTable = u.hashTable.erase hash
  spanManager : u'.spanManager =
    (u.spanManager.setExtraRef false (u.nodes n).spans).releaseSpans (u.nodes n).spans
  evictor : u'.evictor = (u.evictorDel n).evictor
  nodes : u'.nodes = u.nodes
  nextNode : u'.nextNode = u.nextNode
  capacity : u'.capacity = u.capacity

theorem deleted_of_deleteNode {u' : CacheUnion E} (h : u.deleteNode hash = some u') :
    ∃ n, Deleted u u' hash n := by
  cases hl : u.lookup hash with
  | none =>
      rw [deleteNode_none hl] at h
      cases h
  | some n =>
      rw [deleteNode_eq hl] at h
      cases h
      exact ⟨n, hl, rfl, rfl, rfl, rfl, rfl, rfl⟩

namespace Deleted

variable {u' : CacheUnion E}

theorem lookup_self (h : Deleted u u' hash n) : u'.lookup hash = none := by
  unfold lookup
  rw [h.hashTable]
  exact AList.lookup_erase _ _

theorem lookup_of_ne (h : Deleted u u' hash n) {other : Hash} (hne : other ≠ hash) :
    u'.lookup other = u.lookup other := by
  unfold lookup
  rw [h.hashTable]
  exact AList.lookup_erase_ne hne

theorem lookup_some (h : Deleted u u' hash n) {other : Hash} {m : NodeId}
    (hl : u'.lookup other = some m) : other ≠ hash ∧ u.lookup other = some m := by
  by_cases hne : other = hash
  · rw [hne, h.lookup_self] at hl
    cases hl
  · exact ⟨hne, (h.lookup_of_ne hne).symm.trans hl⟩

theorem tableSpans (h : Deleted u u' hash n) :
    u.tableSpans.Perm ((u.nodes n).spans ++ u'.tableSpans) := by
  refine Wf.tableSpans_erase h.lookup_eq h.hashTable ?_
  intro m
  rw [h.nodes]

theorem size (h : Deleted u u' hash n) : u'.size + 1 = u.size := by
  have hkey : hash ∈ u.hashTable.entries.keys :=
    List.mem_keys_of_mem (mem_entries_iff.mpr h.lookup_eq)
  obtain ⟨m, l₁, l₂, _, hentries, herase⟩ := List.exists_of_kerase hkey
  have hsize : u'.size = (List.kerase hash u.hashTable.entries).length := by
    unfold CacheUnion.size
    rw [h.hashTable]
    rfl
  rw [hsize, herase]
  unfold CacheUnion.size
  rw [hentries]
  simp only [List.length_append, List.length_cons]
  omega

theorem wf (h : Deleted u u' hash n) (hwf : Wf layerNum u out)
    (hout : ∀ span ∈ (u.nodes n).spans, ¬ out span) : Wf layerNum u' out where
  hash_eq := fun {other m} hl => by
    rw [h.nodes]
    exact hwf.hash_eq (h.lookup_some hl).2
  lt_next := fun {other m} hl => by
    rw [h.nextNode]
    exact hwf.lt_next (h.lookup_some hl).2
  kLength := fun {other m} hl => by
    rw [h.nodes]
    exact hwf.kLength (h.lookup_some hl).2
  vLength := fun {other m} hl => by
    rw [h.nodes]
    exact hwf.vLength (h.lookup_some hl).2
  owned := by
    rw [h.spanManager]
    exact (hwf.owned.mono h.tableSpans (fun _ hs => hs)).remove hout
  size_le := by
    have hsize := h.size
    have hle := hwf.size_le
    rw [h.capacity]
    omega

theorem evictable (h : Deleted u u' hash n) (hwf : Wf layerNum u out) (he : Evictable u) :
    Evictable u' := by
  have hself := hwf.self h.lookup_eq
  have hhash : (u.nodes n).hash = hash := hwf.hash_eq h.lookup_eq
  refine he.withdraw hself h.evictor ?_ ?_ ?_
  · intro m _
    rw [h.nodes]
  · intro m hm
    by_cases hne : (u.nodes m).hash = hash
    · rw [hne, h.lookup_self, h.lookup_eq]
      simp [hm.symm]
    · rw [h.lookup_of_ne hne]
  · rintro ⟨hl, _⟩
    rw [h.nodes, hhash, h.lookup_self] at hl
    cases hl

theorem covered (h : Deleted u u' hash n) (hc : Covered u.spanManager u.tableSpans out) :
    Covered u'.spanManager u'.tableSpans out := by
  rw [h.spanManager]
  refine Covered.remove ?_
  refine hc.mono ?_
  intro span hs
  exact hs.imp h.tableSpans.mem_iff.mp id

end Deleted

end Deletion

section Reset

theorem resetEntry_eq (hl : u.lookup hash = some n) :
    u.resetEntry hash =
      { u with
        spanManager := (u.spanManager.setExtraRef false (u.nodes n).spans).releaseSpans
          (u.nodes n).spans } := by
  have hunref : u.unrefCacheSpan hash =
      { u with spanManager := u.spanManager.setExtraRef false (u.nodes n).spans } := by
    unfold unrefCacheSpan
    rw [hl]
  unfold resetEntry
  rw [hunref]
  unfold freeCacheSpan lookup
  unfold lookup at hl
  simp only [hl]

/-- Only the frames change, and those of the listed entries are given back. -/
private theorem resetEntries_spec (es : List (Sigma (fun _ : Hash => NodeId)))
    (u : CacheUnion E) (hes : ∀ e ∈ es, u.lookup e.1 = some e.2) :
    ∃ m', (es.map Sigma.fst).foldl resetEntry u = { u with spanManager := m' } ∧
      m'.frameManager.totalFrameCount = u.spanManager.frameManager.totalFrameCount ∧
      ∀ out, (∀ span ∈ es.flatMap (fun e => (u.nodes e.2).spans), ¬ out span) →
        (Owned u.spanManager (es.flatMap (fun e => (u.nodes e.2).spans)) out → Owned m' [] out) ∧
        (Covered u.spanManager (es.flatMap (fun e => (u.nodes e.2).spans)) out →
          Covered m' [] out) := by
  induction es generalizing u with
  | nil => exact ⟨u.spanManager, rfl, rfl, fun out _ => ⟨id, id⟩⟩
  | cons e rest ih =>
      have hl := hes e (List.mem_cons_self ..)
      have heq := resetEntry_eq hl
      obtain ⟨m', hfold, htotal, hall⟩ := ih
        { u with
          spanManager := (u.spanManager.setExtraRef false (u.nodes e.2).spans).releaseSpans
            (u.nodes e.2).spans }
        (fun e' he' => hes e' (List.mem_cons_of_mem _ he'))
      refine ⟨m', ?_, ?_, ?_⟩
      · rw [List.map_cons, List.foldl_cons, heq, hfold]
      · rw [htotal, SpanManager.releaseSpans_total, SpanManager.setExtraRef_frameManager]
      · intro out hout
        rw [List.flatMap_cons] at hout ⊢
        obtain ⟨howned, hcovered⟩ := hall out
          (fun span hs => hout span (List.mem_append_right _ hs))
        refine ⟨fun h => howned (h.remove ?_), fun h => hcovered h.remove⟩
        intro span hs
        exact hout span (List.mem_append_left _ hs)

/-- `Reset` empties the table and the evictor and gives back the frames of
every node, when nothing outside the table holds them. -/
theorem reset_spec (u : CacheUnion E) :
    ∃ m', u.reset = { u with spanManager := m', hashTable := ∅, evictor := E.empty } ∧
      m'.frameManager.totalFrameCount = u.spanManager.frameManager.totalFrameCount ∧
      ∀ out, (∀ span ∈ u.tableSpans, ¬ out span) →
        (Owned u.spanManager u.tableSpans out → Owned m' [] out) ∧
        (Covered u.spanManager u.tableSpans out → Covered m' [] out) := by
  obtain ⟨m', hfold, htotal, hall⟩ := resetEntries_spec u.hashTable.entries u
    (fun e he => mem_entries_iff.mp he)
  refine ⟨m', ?_, htotal, hall⟩
  have hkeys : u.hashTable.keys = u.hashTable.entries.map Sigma.fst := rfl
  unfold reset
  rw [hkeys, hfold]

theorem wf_empty {u : CacheUnion E} {out : SpanId → Prop} (htable : u.hashTable = ∅)
    (howned : Owned u.spanManager [] out) : Wf layerNum u out := by
  have hnone : ∀ hash, u.lookup hash = none := by
    intro hash
    unfold lookup
    rw [htable]
    exact AList.lookup_empty hash
  have hspans : u.tableSpans = [] := by
    unfold tableSpans
    rw [htable]
    rfl
  refine
    { hash_eq := fun hl => ?_
      lt_next := fun hl => ?_
      kLength := fun hl => ?_
      vLength := fun hl => ?_
      owned := ?_
      size_le := ?_ }
  · rw [hnone] at hl
    cases hl
  · rw [hnone] at hl
    cases hl
  · rw [hnone] at hl
    cases hl
  · rw [hnone] at hl
    cases hl
  · rw [hspans]
    exact howned
  · unfold size
    rw [htable]
    exact Nat.zero_le _

theorem evictable_empty {u : CacheUnion E} (htable : u.hashTable = ∅)
    (hevictor : u.evictor = E.empty) : Evictable u := by
  have hcand : u.candidates = [] := by
    unfold candidates
    rw [hevictor, E.toList_empty]
  refine ⟨?_, ?_⟩
  · rw [hcand]
    exact List.Pairwise.nil
  · intro n
    rw [hcand]
    unfold lookup
    rw [htable, AList.lookup_empty]
    simp

end Reset

end CacheUnion

end DashInfer.Cache
