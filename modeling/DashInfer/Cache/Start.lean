import DashInfer.Cache.Lookup

/-!
The start of a request: `RefFill` into a new context. What it leaves is said
in terms of the state before it: which nodes stand in the layers, in which
order, and which CPU entry was evicted while room was made for them.
-/

namespace DashInfer.Cache

open Lib CacheUnion PrefixCacheManager

variable {E : OrderedSet NodeId} {D : Type} {cfg : Config} {P : Premise D} {s t : State E D}
  {r : ReqId}

/-- The hashes `RefFill` looks up for a prompt. -/
def promptHashes (cfg : Config) (tokens tokensForHash : List Token) : List Hash :=
  blockHashes cfg tokensForHash (blocks cfg 0 tokens.length)

/-- `RefFill` brings the CPU hits back to the GPU. -/
def Restores (cfg : Config) (s : State E D) (hashes : List Hash) : Prop :=
  cpuHits s hashes ≠ [] ∧
    s.seqLenThre ≤ ((cpuHits s hashes).length * cfg.tokenPerSpan : Nat)

instance (cfg : Config) (s : State E D) (hashes : List Hash) :
    Decidable (Restores cfg s hashes) :=
  inferInstanceAs (Decidable (_ ∧ _))

/-- No block found on the GPU comes behind one found only on the CPU. -/
def GpuFirst (s : State E D) (hashes : List Hash) : Prop :=
  hitHashes s hashes = gpuHits s hashes ++ cpuHits s hashes

/-- The hashes of the blocks `RefFill` places, in the order in which it places
them. -/
def placedHashes (cfg : Config) (s : State E D) (hashes : List Hash) : List Hash :=
  gpuHits s hashes ++ if Restores cfg s hashes then cpuHits s hashes else []

/-- The entry of the CPU table that `RefFill` evicts while it makes room for
its CPU hits. -/
def fillVictim (cfg : Config) (now : Nat) (s : State E D) (hashes : List Hash) : Option Hash :=
  let exceedNum : Int := s.gpu.union.size + (cpuHits s hashes).length - s.gpu.union.capacity
  let victims := ((s.gpu.union.candidates.map (fun n => (s.gpu.union.nodes n).hash)).filter
    (fun hash => decide (hash ∉ gpuHits s hashes))).take exceedNum.toNat
  if 0 < exceedNum then
    swapVictim s.cpu.union (victims.filter (fun hash => !expired cfg now s.gpu.union hash))
  else none

theorem promptHashes_eq (cfg : Config) (tokens tokensForHash : List Token) :
    promptHashes cfg tokens tokensForHash =
      (List.range ((tokens.length - 1) / cfg.tokenPerSpan)).map
        (fun k => cfg.hashTokens (tokensForHash.take ((k + 1) * cfg.tokenPerSpan))) := by
  unfold promptHashes blockHashes
  rw [blocks_eq, List.map_map, Nat.sub_zero]
  apply List.map_congr_left
  intro k _
  have hpos : 0 < (k + 1) * cfg.tokenPerSpan := Nat.mul_pos (Nat.succ_pos k) cfg.tokenPerSpan_pos
  simp only [Function.comp_apply, Nat.zero_add]
  rw [Nat.sub_add_cancel hpos]

theorem hitHashes_eq_take (s : State E D) (hashes : List Hash) :
    hitHashes s hashes = hashes.take (hitHashes s hashes).length :=
  List.prefix_iff_eq_take.mp (List.takeWhile_prefix _)

theorem hitHashes_length_le (s : State E D) (hashes : List Hash) :
    (hitHashes s hashes).length ≤ hashes.length :=
  (List.takeWhile_sublist _).length_le

theorem hits_length (s : State E D) (hashes : List Hash) :
    (gpuHits s hashes).length + (cpuHits s hashes).length = (hitHashes s hashes).length := by
  exact (List.length_eq_length_filter_add (inGpu s)).symm

namespace LookedUp

variable {hashes : List Hash} {found collected : List NodeId}

private theorem found_iff (hlooked : LookedUp cfg s t r hashes found collected)
    (hwf : Wf cfg.layerNum s.gpu.union (· ∈ s.gpu.slots)) {hash : Hash} {n : NodeId}
    (hl : s.gpu.union.lookup hash = some n) : n ∈ found ↔ hash ∈ gpuHits s hashes := by
  have hpairs := List.forall₂_iff_zip.mp hlooked.gpu
  constructor
  · intro hn
    obtain ⟨k, hk, rfl⟩ := List.getElem_of_mem hn
    have hlt : k < (gpuHits s hashes).length := by omega
    have hpair := hlooked.gpu.get hlt hk
    have heq := (hwf.hash_eq hpair).symm.trans (hwf.hash_eq hl)
    simp only [List.get_eq_getElem] at heq
    rw [← heq]
    exact List.getElem_mem hlt
  · intro hin
    obtain ⟨k, hk, rfl⟩ := List.getElem_of_mem hin
    have hlt : k < found.length := by omega
    have hpair := hlooked.gpu.get hk hlt
    simp only [List.get_eq_getElem] at hpair
    rw [hl] at hpair
    rw [Option.some.inj hpair]
    exact List.getElem_mem hlt

/-- The evictor's candidates after the loop are those of before, less the
hits. -/
private theorem candidateHashes (hlooked : LookedUp cfg s t r hashes found collected)
    (hwf : Wf cfg.layerNum s.gpu.union (· ∈ s.gpu.slots)) (he : Evictable s.gpu.union) :
    t.gpu.union.candidates.map (fun n => (t.gpu.union.nodes n).hash) =
      (s.gpu.union.candidates.map (fun n => (s.gpu.union.nodes n).hash)).filter
        (fun hash => decide (hash ∉ gpuHits s hashes)) := by
  rw [hlooked.candidates, List.filter_map]
  have hfilter : s.gpu.union.candidates.filter (fun n => decide (n ∉ found)) =
      s.gpu.union.candidates.filter ((fun hash => decide (hash ∉ gpuHits s hashes)) ∘
        fun n => (s.gpu.union.nodes n).hash) := by
    apply List.filter_congr
    intro n hn
    have hiff := hlooked.found_iff hwf ((he.mem_iff n).mp hn).1
    simp [hiff]
  rw [← hfilter]
  apply List.map_congr_left
  intro n hn
  have hout : n ∉ found := by simpa using (List.mem_filter.mp hn).2
  rw [hlooked.node n hout]

/-- What `RefFill` decides by after the loop is known before it. -/
theorem restores_iff (hlooked : LookedUp cfg s t r hashes found collected)
    (hthre : t.seqLenThre = s.seqLenThre) :
    (collected ≠ [] ∧ t.seqLenThre ≤ ↑(collected.length * cfg.tokenPerSpan)) ↔
      Restores cfg s hashes := by
  have hlen := hlooked.cpu.length_eq
  unfold Restores
  rw [hthre, ← hlen, ← List.length_pos_iff, ← List.length_pos_iff, ← hlen]

/-- The victims swapped out after the loop, seen from before it. -/
theorem swapVictims_eq (hlooked : LookedUp cfg s t r hashes found collected)
    (h : Inv cfg P s Settled) (now : Nat) (exceedNum : Int) :
    swapVictims cfg now t.gpu.union exceedNum =
      (((s.gpu.union.candidates.map (fun n => (s.gpu.union.nodes n).hash)).filter
        (fun hash => decide (hash ∉ gpuHits s hashes))).take exceedNum.toNat).filter
        (fun hash => !expired cfg now s.gpu.union hash) := by
  have hwf := h.gpu.wf
  have hnamed : evictVictims t.gpu.union exceedNum =
      ((s.gpu.union.candidates.map (fun n => (s.gpu.union.nodes n).hash)).filter
        (fun hash => decide (hash ∉ gpuHits s hashes))).take exceedNum.toNat := by
    rw [← hlooked.candidateHashes hwf h.gpu.balanced.evictable]
    unfold evictVictims
    rw [← List.map_take, List.take_eq_take_iff.mpr]
    omega
  unfold swapVictims
  rw [hnamed]
  apply List.filter_congr
  intro hash hin
  have hout : hash ∉ gpuHits s hashes := by
    simpa using (List.mem_filter.mp (List.mem_of_mem_take hin)).2
  unfold expired
  rw [hlooked.kept.lookup]
  cases hl : s.gpu.union.lookup hash with
  | none => rfl
  | some n =>
      have hn : n ∉ found := fun hmem => hout ((hlooked.found_iff hwf hl).mp hmem)
      simp only [hlooked.node n hn]

/-- The entry evicted for the collected nodes, seen from before the loop. -/
private theorem roomVictim_eq (hlooked : LookedUp cfg s t r hashes found collected)
    (h : Inv cfg P s Settled) (now : Nat) :
    roomVictim cfg now t collected.length = fillVictim cfg now s hashes := by
  have hcount : collected.length = (cpuHits s hashes).length := hlooked.cpu.length_eq.symm
  unfold roomVictim fillVictim
  dsimp only
  rw [hlooked.kept.size, hlooked.kept.capacity, hcount]
  split
  · rw [swapVictim_congr hlooked.still.hashTable hlooked.still.capacity
      hlooked.still.spanManager hlooked.still.evictor hlooked.still.hash,
      hlooked.swapVictims_eq h now]
  · rfl

end LookedUp

/-- A new request without spans. -/
theorem Inv.openCtx (h : Inv cfg P s Settled) (hr : r ∉ s.gpu.live) {c : GenCtx D}
    (hspans : c.spans = []) (hlist : c.nodeList = []) (hplaced : c.placed = [])
    (hlen : c.prefixLen = 0) (hcomputed : c.computed = 0)
    (hk : c.virtualK.length = cfg.layerNum ∨ c.virtualK.length = 0)
    (hv : c.virtualV.length = c.virtualK.length) :
    Inv cfg P { s with gpu := { s.gpu with
      live := r :: s.gpu.live, ctx := Function.update s.gpu.ctx r c } } Settled := by
  refine h.carry (h.gpu.openCtx hr hspans hlist hplaced hlen hk hv) ?_ id
  refine ⟨fun hl => ⟨hl, rfl⟩, fun _ _ => rfl, ?_⟩
  intro q hq p hp hp'
  dsimp only at hq hp hp' ⊢
  by_cases hqr : q = r
  · subst hqr
    rw [Function.update_self, hcomputed] at hp'
    exact absurd hp' (Nat.not_lt_zero p)
  · rw [Function.update_of_ne hqr] at hp hp' ⊢
    exact ⟨(List.mem_cons.mp hq).resolve_left hqr, hp, hp', rfl, fun _ hb => hb⟩

theorem newCtx_spans (layers : Nat) (source : Nat → Nat → D) :
    (newCtx layers source).spans = [] := by
  simp [GenCtx.spans, GenCtx.arrays, newCtx, CacheArray.empty]

/-- The context as `RefFill` leaves it: what is placed is what is listed. -/
def GenCtx.fill (cfg : Config) (prefixLen : Nat) (tokens : List Token) (c : GenCtx D) :
    GenCtx D :=
  { c with
    prefixLen
    offered := prefixLen / cfg.tokenPerSpan
    computed := prefixLen / cfg.tokenPerSpan
    placed := c.nodeList
    tokens }

def State.fillCtx (s : State E D) (cfg : Config) (r : ReqId) (prefixLen : Nat)
    (tokens : List Token) : State E D :=
  { s with gpu := s.gpu.updateCtx r (GenCtx.fill cfg prefixLen tokens) }

/-- The end of `RefFill`, on layers that hold the listed nodes. -/
private theorem Inv.fillCtx (h : Inv cfg P s Settled) (hr : r ∈ s.gpu.live)
    (hfilled : Filled cfg s.gpu.union.nodes (s.gpu.ctx r) (s.gpu.ctx r).nodeList)
    {tokens : List Token}
    (hkeys : P.ordered → ∀ (k : Nat) n, (s.gpu.ctx r).nodeList[k]? = some n →
      (s.gpu.union.nodes n).hash = cfg.hashTokens (tokens.take ((k + 1) * cfg.tokenPerSpan))) :
    Inv cfg P (s.fillCtx cfg r ((s.gpu.ctx r).nodeList.length * cfg.tokenPerSpan) tokens)
      Settled := by
  have hdiv : (s.gpu.ctx r).nodeList.length * cfg.tokenPerSpan / cfg.tokenPerSpan =
      (s.gpu.ctx r).nodeList.length := Nat.mul_div_cancel _ cfg.tokenPerSpan_pos
  have hold := h.gpu.ctx r hr
  refine h.setCtx rfl rfl rfl ?_
    { shared := hold.shared
      fresh := ?_
      kShape := hold.kShape
      vShape := hold.vShape
      placed := fun k n hk => ⟨List.mem_of_getElem? hk, hfilled.blockAt hk⟩
      keys := hkeys
      prefixLen := rfl } (fun _ _ _ hp => hp)
  · intro p hp hp'
    exact absurd hp' (Nat.not_lt.mpr hp)
  · intro a ha span hs
    change span ∈ a.cache.drop (_ / _) at hs
    rw [hdiv, ← hfilled.length ha, List.drop_length] at hs
    cases hs

/-- The events of bringing the CPU hits back: each of them is read while the
table has it, unless making room evicted it. -/
structure RestoredOf (cfg : Config) (s : State E D) (hashes : List Hash) (now : Nat)
    (events : List CpuEvent) : Prop where
  event : ∀ {n inTable kept}, CpuEvent.copied n inTable kept ∈ events → Restores cfg s hashes ∧
    ∃ hash ∈ cpuHits s hashes, s.cpu.union.lookup hash = some n ∧
      inTable = decide (fillVictim cfg now s hashes ≠ some hash) ∧ (inTable = true → kept = true)
  logged : Restores cfg s hashes → ∀ hash ∈ cpuHits s hashes, ∃ n kept,
    s.cpu.union.lookup hash = some n ∧
      CpuEvent.copied n (fillVictim cfg now s hashes ≠ some hash) kept ∈ events

/-- What `RefFill` leaves of the nodes `list` it placed for a request. -/
structure Started (cfg : Config) (s t : State E D) (r : ReqId) (hashes : List Hash) (now : Nat)
    (list : List NodeId) : Prop where
  filled : Filled cfg t.gpu.union.nodes (t.gpu.ctx r) list
  keys : list.map (fun n => (t.gpu.union.nodes n).hash) = placedHashes cfg s hashes
  lone : ∀ n ∈ list, ∀ {hash m}, t.gpu.union.lookup hash = some m →
    ∀ span ∈ (t.gpu.union.nodes n).spans, span ∈ (t.gpu.union.nodes m).spans → m = n
  cached : (∀ n ∈ list, t.gpu.union.lookup (t.gpu.union.nodes n).hash = some n) ↔
    (Restores cfg s hashes → (cpuHits s hashes).Nodup)
  copied : ∃ events, copiedEvents t.cpu.log = events ++ copiedEvents s.cpu.log ∧
    RestoredOf cfg s hashes now events

private theorem map_hash_of_lookup {u : CacheUnion E} {layerNum : Nat} {out : SpanId → Prop}
    (hwf : Wf layerNum u out) {hashes : List Hash} {list : List NodeId}
    (h : List.Forall₂ (fun hash n => u.lookup hash = some n) hashes list) :
    list.map (fun n => (u.nodes n).hash) = hashes := by
  induction h with
  | nil => rfl
  | cons hl _ ih => rw [List.map_cons, hwf.hash_eq hl, ih]

private theorem exists_of_forall₂ {α β : Type} {R : α → β → Prop} {l : List α} {l' : List β}
    (h : List.Forall₂ R l l') : (∀ a ∈ l, ∃ b ∈ l', R a b) ∧ ∀ b ∈ l', ∃ a ∈ l, R a b := by
  induction h with
  | nil => simp
  | cons hab _ ih =>
      obtain ⟨hleft, hright⟩ := ih
      simp only [List.mem_cons]
      constructor
      · rintro a (rfl | ha)
        · exact ⟨_, Or.inl rfl, hab⟩
        · obtain ⟨b, hb, hr⟩ := hleft a ha
          exact ⟨b, Or.inr hb, hr⟩
      · rintro b (rfl | hb)
        · exact ⟨_, Or.inl rfl, hab⟩
        · obtain ⟨a, ha, hr⟩ := hright b hb
          exact ⟨a, Or.inr ha, hr⟩

section Finish

variable {s₁ : State E D} {hashes : List Hash} {found collected : List NodeId} {now : Nat}

private theorem absent_of_cpuHits {hash : Hash} (h : hash ∈ cpuHits s hashes) :
    s.gpu.union.lookup hash = none := by
  have hin := (List.mem_filter.mp h).2
  simpa [inGpu] using hin

/-- The nodes that the loop placed are those of the table. -/
private theorem LookedUp.placed (hlooked : LookedUp cfg s t r hashes found collected)
    (h : Inv cfg P s Settled) {n : NodeId} (hn : n ∈ found) :
    ∃ hash ∈ gpuHits s hashes, s.gpu.union.lookup hash = some n ∧
      (s.gpu.union.nodes n).hash = hash ∧
      t.gpu.union.lookup (t.gpu.union.nodes n).hash = some n := by
  obtain ⟨hash, hmem, hl⟩ := (exists_of_forall₂ hlooked.gpu).2 n hn
  refine ⟨hash, hmem, hl, h.gpu.wf.hash_eq hl, ?_⟩
  rw [hlooked.kept.hash, h.gpu.wf.hash_eq hl, hlooked.kept.lookup]
  exact hl

/-- A placed node that the table has shares its spans with no other. -/
private theorem lone_of_cached (ht : Inv cfg P t Settled) {n m : NodeId} {hash : Hash}
    (hn : t.gpu.union.lookup (t.gpu.union.nodes n).hash = some n)
    (hm : t.gpu.union.lookup hash = some m) {span : SpanId}
    (hs : span ∈ (t.gpu.union.nodes n).spans) (hs' : span ∈ (t.gpu.union.nodes m).spans) :
    m = n := by
  have heq := ht.gpu.wf.hash_eq_of_mem hn hm hs hs'
  rw [heq, hm] at hn
  exact Option.some.inj hn

/-- The CPU hits are not brought back. -/
private theorem LookedUp.started (hlooked : LookedUp cfg s t r hashes found collected)
    (now : Nat) (h : Inv cfg P s Settled) (ht : Inv cfg P t Settled) (hlist : (s.gpu.ctx r).nodeList = [])
    (hnot : ¬ Restores cfg s hashes) : Started cfg s t r hashes now found := by
  have hfilled := hlooked.filled
  rw [hlist, List.nil_append] at hfilled
  have hcached : ∀ n ∈ found, t.gpu.union.lookup (t.gpu.union.nodes n).hash = some n := by
    intro n hn
    obtain ⟨_, _, _, _, hl⟩ := hlooked.placed h hn
    exact hl
  refine
    { filled := hfilled
      keys := ?_
      lone := fun n hn _ _ hm span hs hs' => lone_of_cached ht (hcached n hn) hm hs hs'
      cached := ⟨fun _ hrest => absurd hrest hnot, fun _ => hcached⟩
      copied := ⟨[], (hlooked.still.moved s.gpu).copied, by simp, fun hrest => absurd hrest hnot⟩ }
  unfold placedHashes
  rw [if_neg hnot, List.append_nil, ← map_hash_of_lookup h.gpu.wf hlooked.gpu]
  exact List.map_congr_left (fun n _ => hlooked.kept.hash n)

/-- What the loop leaves can be brought back. -/
private theorem LookedUp.toRestore (hlooked : LookedUp cfg s t r hashes found collected)
    (h : Inv cfg P s Settled) (hr : r ∈ s.gpu.live) (hlist : (s.gpu.ctx r).nodeList = [])
    (hcomputed : (s.gpu.ctx r).computed = 0) (hroom : hashes.length ≤ (s.gpu.ctx r).offered)
    (hdistinct : P.distinct → (cpuHits s hashes).Nodup) : ToRestore cfg P t r collected := by
  obtain ⟨virtualK, virtualV, hself⟩ := hlooked.self
  have hkey : ∀ c ∈ collected, ∃ hash ∈ cpuHits s hashes,
      s.cpu.union.lookup hash = some c ∧ (t.cpu.union.nodes c).hash = hash := by
    intro c hc
    obtain ⟨hash, hmem, hl⟩ := (exists_of_forall₂ hlooked.cpu).2 c hc
    exact ⟨hash, hmem, hl, (hlooked.still.hash c).trans (h.cpu.wf.hash_eq hl)⟩
  refine
    { live := by rw [hlooked.live]; exact hr
      filled := ?_
      collected := hlooked.ready
      cached := ?_
      absent := ?_
      below := ?_
      computed := ?_
      distinct := ?_ }
  · have hfilled := hlooked.filled
    rw [hself] at hfilled ⊢
    exact hfilled
  · intro c hc
    obtain ⟨hash, _, hl, heq⟩ := hkey c hc
    rw [heq, hlooked.still.lookup]
    exact hl
  · intro c hc
    obtain ⟨hash, hmem, _, heq⟩ := hkey c hc
    rw [heq, hlooked.kept.lookup]
    exact absent_of_cpuHits hmem
  · rw [hself]
    dsimp only
    rw [hlist, List.nil_append, ← hlooked.gpu.length_eq, ← hlooked.cpu.length_eq,
      hits_length s hashes]
    exact (hitHashes_length_le s hashes).trans hroom
  · rw [hself]
    dsimp only
    rw [hcomputed]
    exact Nat.zero_le _
  · intro hd
    rw [List.map_congr_left (fun c _ => hlooked.still.hash c),
      map_hash_of_lookup h.cpu.wf hlooked.cpu]
    exact hdistinct hd

/-- The CPU hits were brought back as the nodes `new`. -/
private theorem LookedUp.restored {v : State E D} {new : List NodeId}
    (hlooked : LookedUp cfg s t r hashes found collected) (h : Inv cfg P s Settled)
    (hv : Inv cfg P v Settled) (hlist : (s.gpu.ctx r).nodeList = [])
    (hrest : Restores cfg s hashes)
    (hback : Restored cfg t v r collected new (roomVictim cfg now t collected.length)) :
    Started cfg s v r hashes now (found ++ new) := by
  obtain ⟨virtualK, virtualV, hself⟩ := hlooked.self
  have hnodeList : (t.gpu.ctx r).nodeList = found := by
    rw [hself]
    dsimp only
    rw [hlist, List.nil_append]
  have hvictim := hlooked.roomVictim_eq h now
  rw [hvictim] at hback
  have hfound : ∀ n ∈ found, v.gpu.union.lookup (v.gpu.union.nodes n).hash = some n := by
    intro n hn
    obtain ⟨_, _, _, _, hl⟩ := hlooked.placed h hn
    obtain ⟨hhash, hkeep⟩ := hback.old n (by rw [hnodeList]; exact hn)
    rw [hhash]
    exact hkeep hl
  have hnewKeys : new.map (fun n => (v.gpu.union.nodes n).hash) = cpuHits s hashes := by
    rw [map_hash_eq hback.hashes, List.map_congr_left (fun c _ => hlooked.still.hash c),
      map_hash_of_lookup h.cpu.wf hlooked.cpu]
  have hkey : ∀ c ∈ collected, ∃ hash ∈ cpuHits s hashes,
      s.cpu.union.lookup hash = some c ∧ (t.cpu.union.nodes c).hash = hash := by
    intro c hc
    obtain ⟨hash, hmem, hl⟩ := (exists_of_forall₂ hlooked.cpu).2 c hc
    exact ⟨hash, hmem, hl, (hlooked.still.hash c).trans (h.cpu.wf.hash_eq hl)⟩
  refine
    { filled := ?_
      keys := ?_
      lone := ?_
      cached := ?_
      copied := ?_ }
  · have hfilled := hback.filled
    rw [hnodeList] at hfilled
    exact hfilled
  · unfold placedHashes
    rw [if_pos hrest, List.map_append, hnewKeys, ← map_hash_of_lookup h.gpu.wf hlooked.gpu]
    congr 1
    apply List.map_congr_left
    intro n hn
    rw [(hback.old n (by rw [hnodeList]; exact hn)).1, hlooked.kept.hash]
  · intro n hn hash m hm span hs hs'
    rcases List.mem_append.mp hn with hn | hn
    · exact lone_of_cached hv (hfound n hn) hm hs hs'
    · exact hback.lone n hn hm span hs hs'
  · constructor
    · intro hall _
      rw [← hnewKeys]
      refine List.Nodup.map_on ?_ hback.nodup
      intro a ha b hb heq
      have hla := hall a (List.mem_append_right _ ha)
      rw [heq, hall b (List.mem_append_right _ hb)] at hla
      exact (Option.some.inj hla).symm
    · intro hnodup n hn
      rcases List.mem_append.mp hn with hn | hn
      · exact hfound n hn
      · obtain ⟨m, hm, hl⟩ := hback.entered n hn
        have hmap := hnodup hrest
        rw [← hnewKeys] at hmap
        have hsame : m = n := List.inj_on_of_nodup_map hmap hm hn (hv.gpu.wf.hash_eq hl)
        rw [hsame] at hl
        exact hl
  · obtain ⟨events, heq, hevents⟩ := hback.copied
    refine ⟨events, by rw [heq, (hlooked.still.moved s.gpu).copied], ?_, ?_⟩
    · intro n inTable kept hevent
      obtain ⟨hn, hpresent, hkept⟩ := hevents.event hevent
      obtain ⟨hash, hmem, hl, hhash⟩ := hkey n hn
      rw [hhash] at hpresent
      exact ⟨hrest, hash, hmem, hl, hpresent, hkept⟩
    · intro _ hash hmem
      obtain ⟨c, hc, hl⟩ := (exists_of_forall₂ hlooked.cpu).1 hash hmem
      obtain ⟨kept, hevent⟩ := hevents.node c hc
      rw [(hlooked.still.hash c).trans (h.cpu.wf.hash_eq hl)] at hevent
      exact ⟨c, kept, hl, hevent⟩

end Finish

/-- The context as `RefFill` starts on it. -/
def startCtx (cfg : Config) (tokens : List Token) (source : Nat → Nat → D) : GenCtx D :=
  { newCtx cfg.layerNum source with offered := (tokens.length - 1) / cfg.tokenPerSpan }

/-- The end of a `RefFill` that placed the nodes it listed. -/
private theorem Started.finish {hashes : List Hash} {now : Nat} {list : List NodeId}
    {tokensForHash : List Token} {prefixLen : Nat} (hstarted : Started cfg s t r hashes now list)
    (ht : Inv cfg P t Settled) (hr : r ∈ t.gpu.live) (hlist : (t.gpu.ctx r).nodeList = list)
    (hlen : prefixLen = list.length * cfg.tokenPerSpan)
    (hkeys : P.ordered → ∀ (k : Nat) hash, (placedHashes cfg s hashes)[k]? = some hash →
      hash = cfg.hashTokens (tokensForHash.take ((k + 1) * cfg.tokenPerSpan))) :
    Inv cfg P (t.fillCtx cfg r prefixLen tokensForHash) Settled ∧
      Started cfg s (t.fillCtx cfg r prefixLen tokensForHash) r hashes now list := by
  have hfilled := hstarted.filled
  constructor
  · subst hlist hlen
    refine ht.fillCtx hr hfilled ?_
    intro hordered k n hk
    apply hkeys hordered k
    rw [← hstarted.keys, List.getElem?_map, hk]
    rfl
  · refine ⟨?_, hstarted.keys, hstarted.lone, hstarted.cached, hstarted.copied⟩
    change Filled cfg t.gpu.union.nodes ((t.gpu.updateCtx r _).ctx r) list
    rw [GpuSide.updateCtx_self]
    exact hfilled.congr (fun _ _ => ⟨rfl, rfl⟩) rfl rfl

theorem promptHashes_getElem {tokens tokensForHash : List Token} {k : Nat} {hash : Hash}
    (h : (promptHashes cfg tokens tokensForHash)[k]? = some hash) :
    hash = cfg.hashTokens (tokensForHash.take ((k + 1) * cfg.tokenPerSpan)) := by
  rw [promptHashes_eq, List.getElem?_map, Option.map_eq_some_iff] at h
  obtain ⟨j, hj, heq⟩ := h
  have hrange := List.getElem?_eq_some_iff.mp hj
  obtain ⟨_, rfl⟩ := hrange
  rw [← heq, List.getElem_range]

/-- In token order, what is placed at a position is looked up at it. -/
theorem placedHashes_getElem {hashes : List Hash} (hfirst : GpuFirst s hashes) {k : Nat}
    {hash : Hash} (h : (placedHashes cfg s hashes)[k]? = some hash) : hashes[k]? = some hash := by
  have hhit : (hitHashes s hashes)[k]? = some hash := by
    rw [hfirst]
    unfold placedHashes at h
    split at h
    · exact h
    · rw [List.append_nil] at h
      have hlt := (List.getElem?_eq_some_iff.mp h).1
      rw [List.getElem?_append_left hlt]
      exact h
  rw [hitHashes_eq_take, List.getElem?_take] at hhit
  split at hhit
  · exact hhit
  · cases hhit

/-- How `RefFill` leaves the request's context when it placed the nodes
`list`. -/
def FilledCtx (cfg : Config) (c : GenCtx D) (list : List NodeId) (tokensForHash : List Token)
    (source : Nat → Nat → D) : Prop :=
  ∃ virtualK virtualV, c = { newCtx cfg.layerNum source with
    virtualK, virtualV, nodeList := list, prefixLen := list.length * cfg.tokenPerSpan
    offered := list.length, computed := list.length, placed := list, tokens := tokensForHash }

private theorem filledCtx_fill {list : List NodeId} {tokensForHash : List Token}
    {source : Nat → Nat → D} {prefixLen : Nat} (offered : Nat)
    (hself : ∃ virtualK virtualV, t.gpu.ctx r = { newCtx cfg.layerNum source with
      virtualK, virtualV, nodeList := list, offered })
    (hlen : prefixLen = list.length * cfg.tokenPerSpan) :
    FilledCtx cfg ((t.fillCtx cfg r prefixLen tokensForHash).gpu.ctx r) list tokensForHash
      source := by
  obtain ⟨virtualK, virtualV, heq⟩ := hself
  refine ⟨virtualK, virtualV, ?_⟩
  unfold State.fillCtx
  rw [GpuSide.updateCtx_self, heq, hlen]
  unfold GenCtx.fill
  rw [Nat.mul_div_cancel _ cfg.tokenPerSpan_pos]

/-- `RefFill` looks at the unions, the CPU side and the threshold only. -/
theorem Started.of_same {s₁ : State E D} {hashes : List Hash} {now : Nat}
    {list : List NodeId} (hstarted : Started cfg s₁ t r hashes now list)
    (hunion : s₁.gpu.union = s.gpu.union) (hcpu : s₁.cpu = s.cpu)
    (hthre : s₁.seqLenThre = s.seqLenThre) : Started cfg s t r hashes now list := by
  obtain ⟨⟨_, _, _, _, _⟩, _, _, _⟩ := s₁
  obtain ⟨⟨_, _, _, _, _⟩, _, _, _⟩ := s
  dsimp only at hunion hcpu hthre
  subst hunion hcpu hthre
  obtain ⟨events, heq, hevents⟩ := hstarted.copied
  exact ⟨hstarted.filled, hstarted.keys, hstarted.lone, hstarted.cached, events, heq,
    hevents.event, hevents.logged⟩

/-- The state in which `RefFill` starts to look up the blocks of a new request. -/
def State.opened (s : State E D) (cfg : Config) (r : ReqId) (tokens : List Token)
    (source : Nat → Nat → D) : State E D :=
  { s with gpu := { s.gpu with
    live := r :: s.gpu.live
    ctx := Function.update s.gpu.ctx r (startCtx cfg tokens source) } }

theorem opened_ctx (s : State E D) (cfg : Config) (r : ReqId) (tokens : List Token)
    (source : Nat → Nat → D) :
    (s.opened cfg r tokens source).gpu.ctx r = startCtx cfg tokens source :=
  Function.update_self ..

theorem Inv.opened (h : Inv cfg P s Settled) (hr : r ∉ s.gpu.live) (tokens : List Token)
    (source : Nat → Nat → D) : Inv cfg P (s.opened cfg r tokens source) Settled := by
  have hspans : (startCtx cfg tokens source).spans = [] := newCtx_spans cfg.layerNum source
  have hk : (startCtx cfg tokens source).virtualK.length = cfg.layerNum := by
    simp [startCtx, newCtx]
  have hv : (startCtx cfg tokens source).virtualV.length =
      (startCtx cfg tokens source).virtualK.length := by simp [startCtx, newCtx]
  exact h.openCtx hr hspans rfl rfl rfl rfl (Or.inl hk) hv

/-- A start is the opening of the context and then `RefFill`'s loop and end. -/
theorem post_startRequest_iff {tokens tokensForHash : List Token} {source : Nat → Nat → D}
    {ts now : Nat} {Q : List Token → State E D → Prop} {X : Fault → State E D → Prop} :
    Post (startRequest cfg r tokens tokensForHash source ts now) s Q X ↔
      Post (do
        let (nodeVecCpu, uncachedIdx) ←
          refFillBlocks cfg r tokensForHash ts (blocks cfg 0 tokens.length) [] 0
        let s ← get
        let cpuCachedLen := nodeVecCpu.length * cfg.tokenPerSpan
        let restored := nodeVecCpu ≠ [] ∧ s.seqLenThre ≤ cpuCachedLen
        if restored then refFillFromCpu cfg r ts now nodeVecCpu else pure ()
        let prefixLen := if restored then uncachedIdx else uncachedIdx - cpuCachedLen
        modifyGpu (fun g => g.updateCtx r (fun c => { c with
          prefixLen
          offered := prefixLen / cfg.tokenPerSpan
          computed := prefixLen / cfg.tokenPerSpan
          placed := c.nodeList
          tokens := tokensForHash }))
        pure (tokens.drop prefixLen) : Prog E D (List Token)) (s.opened cfg r tokens source) Q X := by
  have hstart : ∀ f : GpuSide E D → GpuSide E D,
      f = (fun g => GpuSide.updateCtx
        { g with
          live := r :: g.live
          ctx := Function.update g.ctx r (newCtx cfg.layerNum source) } r
        (fun c => { c with
          nodeList := [], offered := (tokens.length - 1) / cfg.tokenPerSpan })) →
      { s with gpu := f s.gpu } = s.opened cfg r tokens source := by
    rintro f rfl
    simp [GpuSide.updateCtx, Function.update_idem, startCtx, newCtx, State.opened]
  unfold startRequest PrefixCacheManager.openCtx refFill
  rw [post_bind, post_modifyGpu, post_bind, post_modifyGpu, ← hstart _ rfl]

/-- The loop of `RefFill` on the new context. -/
theorem post_openedBlocks (tokens tokensForHash : List Token) (source : Nat → Nat → D) (ts : Nat)
    (h : Inv cfg P s Settled) (hr : r ∉ s.gpu.live) :
    Post (refFillBlocks cfg r tokensForHash ts (blocks cfg 0 tokens.length) [] 0)
      (s.opened cfg r tokens source)
      (fun result t => Inv cfg P t Settled ∧ t.seqLenThre = s.seqLenThre ∧
        result.2 = (hitHashes s (promptHashes cfg tokens tokensForHash)).length *
          cfg.tokenPerSpan ∧
        ∃ found, LookedUp cfg (s.opened cfg r tokens source) t r
          (promptHashes cfg tokens tokensForHash) found result.1)
      (Faulted cfg P) := by
  have hctx := opened_ctx s cfg r tokens source
  have hfilled : Filled cfg (s.opened cfg r tokens source).gpu.union.nodes
      ((s.opened cfg r tokens source).gpu.ctx r)
      ((s.opened cfg r tokens source).gpu.ctx r).nodeList := by
    rw [hctx]
    exact ⟨FilledSide.empty cfg, FilledSide.empty cfg⟩
  have hcount : (blocks cfg 0 tokens.length).length = (tokens.length - 1) / cfg.tokenPerSpan := by
    rw [blocks_eq, List.length_map, List.length_range, Nat.sub_zero]
  apply (post_refFillBlocks tokensForHash ts (blocks cfg 0 tokens.length) [] 0
    (h.opened hr tokens source) (List.mem_cons_self ..) hfilled
    (by rw [hctx]; simp [startCtx, newCtx, hcount])).imp _ (fun _ _ he => he)
  rintro ⟨nodeVecCpu, uncachedIdx⟩ t ⟨ht, hthre, hidx, found, collected, hvec, hlooked⟩
  dsimp only at hvec
  rw [List.nil_append] at hvec
  subst hvec
  refine ⟨ht, hthre, ?_, found, hlooked⟩
  dsimp only at hidx
  rw [hidx, Nat.zero_add]
  rfl

/-- The start of a request, from any state that meets the invariant. -/
theorem post_startRequest (tokens tokensForHash : List Token) (source : Nat → Nat → D)
    (ts now : Nat) (h : Inv cfg P s Settled) (hr : r ∉ s.gpu.live)
    (hordered : P.ordered → GpuFirst s (promptHashes cfg tokens tokensForHash))
    (hdistinct : P.distinct → Restores cfg s (promptHashes cfg tokens tokensForHash) →
      (cpuHits s (promptHashes cfg tokens tokensForHash)).Nodup) :
    Post (startRequest cfg r tokens tokensForHash source ts now) s
      (fun newTokens t => Inv cfg P t Settled ∧ t.gpu.live = r :: s.gpu.live ∧ ∃ list,
        Started cfg s t r (promptHashes cfg tokens tokensForHash) now list ∧
        FilledCtx cfg (t.gpu.ctx r) list tokensForHash source ∧
        newTokens = tokens.drop (list.length * cfg.tokenPerSpan))
      (Faulted cfg P) := by
  have hopen := h.opened hr tokens source
  have hctx := opened_ctx s cfg r tokens source
  have hlist : ((s.opened cfg r tokens source).gpu.ctx r).nodeList = [] := by rw [hctx]; rfl
  rw [post_startRequest_iff, post_bind]
  apply (post_openedBlocks tokens tokensForHash source ts h hr).imp _ (fun _ _ he => he)
  rintro ⟨nodeVecCpu, uncachedIdx⟩ t ⟨ht, hthre, hidx, found, hlooked⟩
  dsimp only at hidx hlooked
  generalize hs₁ : s.opened cfg r tokens source = s₁ at hopen hctx hlist hlooked
  have hr₁ : r ∈ s₁.gpu.live := by
    rw [← hs₁]
    exact List.mem_cons_self ..
  simp only [post_bind, post_get]
  have hunion : s₁.gpu.union = s.gpu.union := by subst hs₁; rfl
  have hcpu : s₁.cpu = s.cpu := by subst hs₁; rfl
  have hthre₁ : s₁.seqLenThre = s.seqLenThre := by subst hs₁; rfl
  have hlive : s₁.gpu.live = r :: s.gpu.live := by subst hs₁; rfl
  have hsame : cpuHits s₁ (promptHashes cfg tokens tokensForHash) =
      cpuHits s (promptHashes cfg tokens tokensForHash) ∧
      (Restores cfg s₁ (promptHashes cfg tokens tokensForHash) ↔
        Restores cfg s (promptHashes cfg tokens tokensForHash)) := by
    subst hs₁
    exact ⟨rfl, Iff.rfl⟩
  have hkeys : P.ordered → ∀ (k : Nat) hash,
      (placedHashes cfg s (promptHashes cfg tokens tokensForHash))[k]? = some hash →
      hash = cfg.hashTokens (tokensForHash.take ((k + 1) * cfg.tokenPerSpan)) :=
    fun ho k hash hk => promptHashes_getElem (placedHashes_getElem (hordered ho) hk)
  have hlenCpu := hlooked.cpu.length_eq
  have hlenGpu := hlooked.gpu.length_eq
  have hsum : (gpuHits s₁ (promptHashes cfg tokens tokensForHash)).length +
      (cpuHits s₁ (promptHashes cfg tokens tokensForHash)).length =
      (hitHashes s (promptHashes cfg tokens tokensForHash)).length := by
    subst hs₁
    exact hits_length s _
  have hcond := hlooked.restores_iff (hthre.trans hthre₁.symm)
  have htlive : r ∈ t.gpu.live := by
    rw [hlooked.live]
    exact hr₁
  obtain ⟨virtualK, virtualV, hself⟩ := hlooked.self
  have htlist : (t.gpu.ctx r).nodeList = found := by
    rw [hself]
    dsimp only
    rw [hlist, List.nil_append]
  by_cases hrest : nodeVecCpu ≠ [] ∧ t.seqLenThre ≤ ↑(nodeVecCpu.length * cfg.tokenPerSpan)
  · simp only [if_pos hrest, post_bind, post_modifyGpu, post_pure]
    have hR := hcond.mp hrest
    have hto := hlooked.toRestore hopen hr₁ hlist (by rw [hctx]; rfl) (by
      rw [hctx, promptHashes_eq, List.length_map, List.length_range]
      exact Nat.le_refl _) (fun hd => by
      rw [hsame.1]
      exact hdistinct hd (hsame.2.mp hR))
    apply (post_refFillFromCpu ts now ht hto).imp _ (fun _ _ he => he)
    rintro _ v ⟨hv, new, hback⟩
    have hstarted := (hlooked.restored hopen hv hlist hR hback).of_same hunion hcpu hthre₁
    obtain ⟨virtualK', virtualV', hself'⟩ := hback.self
    have hvlist : (v.gpu.ctx r).nodeList = found ++ new := by
      rw [hself']
      dsimp only
      rw [htlist]
    have hlen : uncachedIdx = (found ++ new).length * cfg.tokenPerSpan := by
      rw [hidx, ← hsum, List.length_append, hlenGpu, hlenCpu, hback.hashes.length_eq]
    have hvlive : v.gpu.live = r :: s.gpu.live := by
      rw [hback.live, hlooked.live, hlive]
    obtain ⟨hinv, hfinal⟩ := hstarted.finish hv (by rw [hvlive]; exact List.mem_cons_self ..)
      hvlist hlen hkeys
    refine ⟨hinv, hvlive, found ++ new, hfinal, filledCtx_fill
      ((tokens.length - 1) / cfg.tokenPerSpan) ⟨virtualK', virtualV', ?_⟩ hlen, by rw [hlen]⟩
    rw [hself', htlist, hself, hctx]
    rfl
  · simp only [if_neg hrest, post_bind, post_modifyGpu, post_pure]
    have hR : ¬ Restores cfg s₁ (promptHashes cfg tokens tokensForHash) :=
      fun hyes => hrest (hcond.mpr hyes)
    have hstarted := (hlooked.started now hopen ht hlist hR).of_same hunion hcpu hthre₁
    have hlen : uncachedIdx - nodeVecCpu.length * cfg.tokenPerSpan =
        found.length * cfg.tokenPerSpan := by
      rw [hidx, ← hsum, hlenGpu, hlenCpu, Nat.add_mul, Nat.add_sub_cancel]
    have htl : t.gpu.live = r :: s.gpu.live := hlooked.live.trans hlive
    obtain ⟨hinv, hfinal⟩ := hstarted.finish ht htlive htlist hlen hkeys
    refine ⟨hinv, htl, found, hfinal, filledCtx_fill
      ((tokens.length - 1) / cfg.tokenPerSpan) ⟨virtualK, virtualV, ?_⟩ hlen, by rw [hlen]⟩
    rw [hself, hctx]
    rfl

end DashInfer.Cache
