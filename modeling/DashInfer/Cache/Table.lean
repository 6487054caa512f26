import DashInfer.Cache.Union

/-!
Invariants of one union and what each operation does to them. `Wf` ties the
table to the node heap and to the frames; `Evictable` is the evictor's half:
the stored sequence is ordered as the nodes stand and holds exactly the
unreferenced nodes of the table. `Kept` says that an operation changed at most
reference counts, timestamps and the evictor.
-/

namespace DashInfer.Cache

open Lib

variable {E : OrderedSet NodeId}

namespace CacheUnion

/-- Well-formedness of a union whose nodes have `layerNum` spans of each kind,
where `out` are the spans held outside the table. -/
structure Wf (layerNum : Nat) (u : CacheUnion E) (out : SpanId → Prop) : Prop where
  hash_eq : ∀ {hash n}, u.lookup hash = some n → (u.nodes n).hash = hash
  lt_next : ∀ {hash n}, u.lookup hash = some n → n < u.nextNode
  kLength : ∀ {hash n}, u.lookup hash = some n → (u.nodes n).kCache.length = layerNum
  vLength : ∀ {hash n}, u.lookup hash = some n → (u.nodes n).vCache.length = layerNum
  owned : Owned u.spanManager u.tableSpans out
  size_le : u.size ≤ u.capacity

structure Evictable (u : CacheUnion E) : Prop where
  ascending : Ascending (nodeComparator u.nodes) u.candidates
  mem_iff : ∀ n, n ∈ u.candidates ↔
    u.lookup (u.nodes n).hash = some n ∧ (u.nodes n).refCnt = 0

structure Kept (u u' : CacheUnion E) : Prop where
  hashTable : u'.hashTable = u.hashTable
  nextNode : u'.nextNode = u.nextNode
  capacity : u'.capacity = u.capacity
  spanManager : u'.spanManager = u.spanManager
  still : ∀ n, (u'.nodes n).still = (u.nodes n).still

namespace Kept

variable {u u' u'' : CacheUnion E}

theorem refl (u : CacheUnion E) : Kept u u := ⟨rfl, rfl, rfl, rfl, fun _ => rfl⟩

theorem trans (h : Kept u u') (h' : Kept u' u'') : Kept u u'' :=
  ⟨h'.hashTable.trans h.hashTable, h'.nextNode.trans h.nextNode,
    h'.capacity.trans h.capacity, h'.spanManager.trans h.spanManager,
    fun n => (h'.still n).trans (h.still n)⟩

theorem hash (h : Kept u u') (n : NodeId) : (u'.nodes n).hash = (u.nodes n).hash := by
  have hstill := congrArg PrefixNode.hash (h.still n)
  exact hstill

theorem kCache (h : Kept u u') (n : NodeId) : (u'.nodes n).kCache = (u.nodes n).kCache := by
  have hstill := congrArg PrefixNode.kCache (h.still n)
  exact hstill

theorem vCache (h : Kept u u') (n : NodeId) : (u'.nodes n).vCache = (u.nodes n).vCache := by
  have hstill := congrArg PrefixNode.vCache (h.still n)
  exact hstill

theorem isReady (h : Kept u u') (n : NodeId) : (u'.nodes n).isReady = (u.nodes n).isReady := by
  have hstill := congrArg PrefixNode.isReady (h.still n)
  exact hstill

theorem spans (h : Kept u u') (n : NodeId) : (u'.nodes n).spans = (u.nodes n).spans := by
  unfold PrefixNode.spans
  rw [h.kCache, h.vCache]

theorem lookup (h : Kept u u') (hash : Hash) : u'.lookup hash = u.lookup hash := by
  unfold CacheUnion.lookup
  rw [h.hashTable]

theorem size (h : Kept u u') : u'.size = u.size := by
  unfold CacheUnion.size
  rw [h.hashTable]

theorem tableSpans (h : Kept u u') : u'.tableSpans = u.tableSpans := by
  unfold CacheUnion.tableSpans
  rw [h.hashTable]
  refine List.flatMap_congr ?_
  intro e _
  exact h.spans e.2

theorem wf (h : Kept u u') {layerNum : Nat} {out : SpanId → Prop} (hwf : Wf layerNum u out) :
    Wf layerNum u' out where
  hash_eq := fun {hash n} hl => by
    rw [h.hash]
    exact hwf.hash_eq (h.lookup hash ▸ hl)
  lt_next := fun {hash n} hl => by
    rw [h.nextNode]
    exact hwf.lt_next (h.lookup hash ▸ hl)
  kLength := fun {hash n} hl => by
    rw [h.kCache]
    exact hwf.kLength (h.lookup hash ▸ hl)
  vLength := fun {hash n} hl => by
    rw [h.vCache]
    exact hwf.vLength (h.lookup hash ▸ hl)
  owned := by
    rw [h.spanManager, h.tableSpans]
    exact hwf.owned
  size_le := by
    rw [h.size, h.capacity]
    exact hwf.size_le

end Kept

variable {u : CacheUnion E} {layerNum : Nat} {out : SpanId → Prop}

theorem mem_entries_iff {hash : Hash} {n : NodeId} :
    (⟨hash, n⟩ : Sigma (fun _ : Hash => NodeId)) ∈ u.hashTable.entries ↔
      u.lookup hash = some n :=
  AList.mem_lookup_iff.symm

theorem mem_tableSpans_iff {span : SpanId} :
    span ∈ u.tableSpans ↔ ∃ hash n, u.lookup hash = some n ∧ span ∈ (u.nodes n).spans := by
  unfold tableSpans
  rw [List.mem_flatMap]
  constructor
  · rintro ⟨⟨hash, n⟩, he, hs⟩
    exact ⟨hash, n, mem_entries_iff.mp he, hs⟩
  · rintro ⟨hash, n, hl, hs⟩
    exact ⟨⟨hash, n⟩, mem_entries_iff.mpr hl, hs⟩

theorem transverseHashTable_eq_false_iff {hash : Hash} :
    u.transverseHashTable hash = false ↔ u.lookup hash = none := by
  unfold transverseHashTable
  simp

namespace Wf

theorem self (h : Wf layerNum u out) {hash : Hash} {n : NodeId} (hl : u.lookup hash = some n) :
    u.lookup (u.nodes n).hash = some n := by
  rw [h.hash_eq hl]
  exact hl

theorem spans_length (h : Wf layerNum u out) {hash : Hash} {n : NodeId}
    (hl : u.lookup hash = some n) : (u.nodes n).spans.length = 2 * layerNum := by
  rw [PrefixNode.spans_length _ ((h.vLength hl).trans (h.kLength hl).symm),
    PrefixNode.cacheNum, h.kLength hl]

theorem tableSpans_length (h : Wf layerNum u out) :
    u.tableSpans.length = u.size * (2 * layerNum) := by
  unfold tableSpans size
  rw [List.length_flatMap, List.map_congr_left (g := fun _ => 2 * layerNum)]
  · simp
  · rintro ⟨hash, n⟩ he
    exact h.spans_length (mem_entries_iff.mp he)

/-- The table without one of its nodes. -/
theorem tableSpans_erase {u u' : CacheUnion E} {hash : Hash} {n : NodeId}
    (hl : u.lookup hash = some n) (htable : u'.hashTable = u.hashTable.erase hash)
    (hnodes : ∀ m, (u'.nodes m).spans = (u.nodes m).spans) :
    u.tableSpans.Perm ((u.nodes n).spans ++ u'.tableSpans) := by
  have hkey : hash ∈ u.hashTable.entries.keys :=
    List.mem_keys_of_mem (mem_entries_iff.mpr hl)
  obtain ⟨m, l₁, l₂, _, hentries, herase⟩ := List.exists_of_kerase hkey
  have hm : u.lookup hash = some m := by
    rw [← mem_entries_iff, hentries]
    simp
  obtain rfl : n = m := Option.some.inj (hl.symm.trans hm)
  have hrest : u'.tableSpans = (l₁ ++ l₂).flatMap (fun e => (u.nodes e.2).spans) := by
    unfold tableSpans
    rw [htable]
    change (List.kerase hash u.hashTable.entries).flatMap _ = _
    rw [herase]
    refine List.flatMap_congr ?_
    intro e _
    exact hnodes e.2
  rw [hrest]
  unfold tableSpans
  rw [hentries, List.flatMap_append, List.flatMap_append, List.flatMap_cons]
  exact List.perm_append_comm_assoc _ _ _

/-- Two different nodes of the table share no span. -/
theorem hash_eq_of_mem (h : Wf layerNum u out) {hash hash' : Hash} {n n' : NodeId}
    {span : SpanId} (hl : u.lookup hash = some n) (hl' : u.lookup hash' = some n')
    (hs : span ∈ (u.nodes n).spans) (hs' : span ∈ (u.nodes n').spans) : hash = hash' := by
  by_contra hne
  have hperm : u.tableSpans.Perm
      ((u.nodes n).spans ++ tableSpans { u with hashTable := u.hashTable.erase hash }) :=
    tableSpans_erase hl rfl (fun _ => rfl)
  have hnodup := hperm.nodup h.owned.table_nodup
  have hrest : span ∈ tableSpans { u with hashTable := u.hashTable.erase hash } := by
    rw [mem_tableSpans_iff]
    exact ⟨hash', n', (AList.lookup_erase_ne (Ne.symm hne)).trans hl', hs'⟩
  exact (List.nodup_append.mp hnodup).2.2 span hs span hrest rfl

end Wf

/-- Order depends on the nodes only through their keys. -/
theorem ascending_congr {nodes nodes' : NodeId → PrefixNode} {xs : List NodeId}
    (hsame : ∀ n ∈ xs, (nodes' n).lastAccessTime = (nodes n).lastAccessTime ∧
      (nodes' n).prefixLen = (nodes n).prefixLen ∧ (nodes' n).hash = (nodes n).hash)
    (h : Ascending (nodeComparator nodes) xs) : Ascending (nodeComparator nodes') xs := by
  refine List.Pairwise.imp_of_mem ?_ h
  intro a b ha hb hab
  obtain ⟨hta, hla, hha⟩ := hsame a ha
  obtain ⟨htb, hlb, hhb⟩ := hsame b hb
  rw [nodeComparator, PrefixNode.lt_iff] at hab ⊢
  rw [hta, hla, hha, htb, hlb, hhb]
  exact hab

namespace Evictable

variable {u' : CacheUnion E} {n : NodeId}

private theorem equivalent_iff (he : Evictable u) (hn : u.lookup (u.nodes n).hash = some n)
    {m : NodeId} (hm : m ∈ u.candidates) :
    Equivalent (nodeComparator u.nodes) m n ↔ m = n := by
  constructor
  · rintro ⟨hmn, hnm⟩
    have hhash := PrefixNode.hash_eq_of_not_lt hmn hnm
    have hmt := ((he.mem_iff m).mp hm).1
    rw [hhash, hn] at hmt
    exact (Option.some.inj hmt).symm
  · rintro rfl
    have hirr := (nodeComparator_strictWeak u.nodes).irrefl m
    exact ⟨hirr, hirr⟩

theorem mem_evictorDel (he : Evictable u) (hn : u.lookup (u.nodes n).hash = some n) {m : NodeId} :
    m ∈ (u.evictorDel n).candidates ↔ m ∈ u.candidates ∧ m ≠ n := by
  unfold evictorDel candidates
  rw [E.mem_erase (nodeComparator_strictWeak _) he.ascending]
  constructor
  · rintro ⟨hm, hne⟩
    exact ⟨hm, fun heq => hne ((he.equivalent_iff hn hm).mpr heq)⟩
  · rintro ⟨hm, hne⟩
    exact ⟨hm, fun heq => hne ((he.equivalent_iff hn hm).mp heq)⟩

theorem candidates_evictorDel (he : Evictable u) (hn : u.lookup (u.nodes n).hash = some n) :
    (u.evictorDel n).candidates = u.candidates.filter (fun m => decide (m ≠ n)) := by
  unfold evictorDel candidates
  rw [E.toList_erase _ _ _ (nodeComparator_strictWeak _) he.ascending]
  apply List.filter_congr
  intro m hm
  have hiff := he.equivalent_iff hn hm
  unfold Equivalent at hiff
  by_cases hmn : m = n
  · obtain ⟨hlt, hgt⟩ := hiff.mpr hmn
    rw [hlt, hgt]
    simp [hmn]
  · have hnot := mt hiff.mp hmn
    rw [not_and_or, Bool.not_eq_false, Bool.not_eq_false] at hnot
    simpa [hmn] using hnot

/-- Nodes outside the set change, the evictor does not. -/
theorem congr (he : Evictable u) (hevictor : u'.evictor = u.evictor)
    (hkeys : ∀ m ∈ u.candidates, (u'.nodes m).lastAccessTime = (u.nodes m).lastAccessTime ∧
      (u'.nodes m).prefixLen = (u.nodes m).prefixLen ∧ (u'.nodes m).hash = (u.nodes m).hash)
    (hmem : ∀ m, (u'.lookup (u'.nodes m).hash = some m ∧ (u'.nodes m).refCnt = 0) ↔
      (u.lookup (u.nodes m).hash = some m ∧ (u.nodes m).refCnt = 0)) : Evictable u' := by
  have hcand : u'.candidates = u.candidates := by
    unfold candidates
    rw [hevictor]
  refine ⟨?_, ?_⟩
  · rw [hcand]
    exact ascending_congr hkeys he.ascending
  · intro m
    rw [hcand, he.mem_iff m, hmem m]

/-- A node of the table is taken out of the set and then no longer belongs to
it; other nodes stay as they are. -/
theorem withdraw (he : Evictable u) (hn : u.lookup (u.nodes n).hash = some n)
    (hevictor : u'.evictor = (u.evictorDel n).evictor)
    (hnodes : ∀ m, m ≠ n → u'.nodes m = u.nodes m)
    (hmem : ∀ m, m ≠ n → (u'.lookup (u.nodes m).hash = some m ↔
      u.lookup (u.nodes m).hash = some m))
    (hgone : ¬ (u'.lookup (u'.nodes n).hash = some n ∧ (u'.nodes n).refCnt = 0)) :
    Evictable u' := by
  have hcand : u'.candidates = (u.evictorDel n).candidates := by
    unfold candidates
    rw [hevictor]
  refine ⟨?_, ?_⟩
  · rw [hcand]
    have hasc : Ascending (nodeComparator u.nodes) (u.evictorDel n).candidates :=
      E.ascending_erase (nodeComparator_strictWeak _) he.ascending
    refine ascending_congr ?_ hasc
    intro m hm
    rw [hnodes m ((he.mem_evictorDel hn).mp hm).2]
    exact ⟨rfl, rfl, rfl⟩
  · intro m
    rw [hcand, he.mem_evictorDel hn]
    by_cases hmn : m = n
    · subst hmn
      simp [hgone]
    · rw [hnodes m hmn, hmem m hmn, he.mem_iff m]
      simp [hmn]

/-- A node outside the set, unreferenced and in the table as things now stand,
is added to it; other nodes stay as they are. -/
theorem enroll (he : Evictable u) (hnew : n ∉ u.candidates)
    (hevictor : u'.evictor = E.insert (nodeComparator u'.nodes) u.evictor n)
    (hnodes : ∀ m, m ≠ n → u'.nodes m = u.nodes m)
    (hmem : ∀ m, m ≠ n → (u'.lookup (u.nodes m).hash = some m ↔
      u.lookup (u.nodes m).hash = some m))
    (hn : u'.lookup (u'.nodes n).hash = some n) (href : (u'.nodes n).refCnt = 0) :
    Evictable u' := by
  have hne : ∀ m ∈ u.candidates, m ≠ n := fun m hm heq => hnew (heq ▸ hm)
  have hasc : Ascending (nodeComparator u'.nodes) (E.toList u.evictor) := by
    refine ascending_congr ?_ he.ascending
    intro m hm
    rw [hnodes m (hne m hm)]
    exact ⟨rfl, rfl, rfl⟩
  have happart : ∀ m ∈ E.toList u.evictor, ¬ Equivalent (nodeComparator u'.nodes) m n := by
    rintro m hm ⟨hmn, hnm⟩
    have hhash := PrefixNode.hash_eq_of_not_lt hmn hnm
    have hmt := (hmem m (hne m hm)).mpr ((he.mem_iff m).mp hm).1
    rw [← hnodes m (hne m hm), hhash, hn] at hmt
    exact hne m hm (Option.some.inj hmt).symm
  have hcand : u'.candidates = E.toList (E.insert (nodeComparator u'.nodes) u.evictor n) := by
    unfold candidates
    rw [hevictor]
  refine ⟨?_, ?_⟩
  · rw [hcand]
    exact E.ascending_insert (nodeComparator_strictWeak _) hasc happart
  · intro m
    rw [hcand, E.mem_insert (nodeComparator_strictWeak _) hasc happart]
    by_cases hmn : m = n
    · subst hmn
      simp [hn, href]
    · have hiff := he.mem_iff m
      unfold candidates at hiff
      rw [hnodes m hmn, hmem m hmn, hiff]
      simp [hmn]

end Evictable

end CacheUnion

end DashInfer.Cache
