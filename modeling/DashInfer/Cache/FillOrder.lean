import DashInfer.Cache.Replay

/-!
The order in which `RefFill` fills a request's layers. Hits on the GPU are
placed while the blocks are walked and hits on the CPU behind all of them, so
the layers are in token order exactly when the walk meets no GPU hit behind a
CPU hit, and no two CPU hits under one hash.
-/

namespace DashInfer.Cache

open Lib CacheUnion PrefixCacheManager

variable {E : OrderedSet NodeId} {D : Type} {cfg : Config} {s t : State E D} {r : ReqId}

/-- Every layer of the request holds one span per block of the filled prefix,
and the spans of a block are those of the node cached for the tokens up to it. -/
structure InTokenOrder (cfg : Config) (t : State E D) (r : ReqId) (tokens : List Token) :
    Prop where
  length : ∀ a ∈ (t.gpu.ctx r).arrays,
    a.cache.length = (t.gpu.ctx r).prefixLen / cfg.tokenPerSpan
  block : ∀ k < (t.gpu.ctx r).prefixLen / cfg.tokenPerSpan, ∃ n,
    t.gpu.union.lookup (cfg.hashTokens (tokens.take ((k + 1) * cfg.tokenPerSpan))) = some n ∧
      (t.gpu.ctx r).blockAt k = some ((t.gpu.union.nodes n).kCache, (t.gpu.union.nodes n).vCache)

instance (cfg : Config) (t : State E D) (r : ReqId) (tokens : List Token) :
    Decidable (InTokenOrder cfg t r tokens) :=
  decidable_of_iff ((∀ a ∈ (t.gpu.ctx r).arrays,
      a.cache.length = (t.gpu.ctx r).prefixLen / cfg.tokenPerSpan) ∧
    ∀ k < (t.gpu.ctx r).prefixLen / cfg.tokenPerSpan,
      (t.gpu.union.lookup
        (cfg.hashTokens (tokens.take ((k + 1) * cfg.tokenPerSpan)))).any (fun n =>
          decide ((t.gpu.ctx r).blockAt k =
            some ((t.gpu.union.nodes n).kCache, (t.gpu.union.nodes n).vCache))) = true)
    ⟨fun h => ⟨h.1, fun k hk => by
        simpa only [Option.any_eq_true, decide_eq_true_eq] using h.2 k hk⟩,
      fun h => ⟨h.length, fun k hk => by
        simpa only [Option.any_eq_true, decide_eq_true_eq] using h.block k hk⟩⟩

/-- The condition on the state before: in the walk GPU hits come first, and
CPU hits that are brought back have distinct hashes. -/
def FillsInOrder (cfg : Config) (s : State E D) (hashes : List Hash) : Prop :=
  GpuFirst s hashes ∧ (Restores cfg s hashes → (cpuHits s hashes).Nodup)

instance (cfg : Config) (s : State E D) (hashes : List Hash) :
    Decidable (FillsInOrder cfg s hashes) :=
  inferInstanceAs (Decidable (hitHashes s hashes = gpuHits s hashes ++ cpuHits s hashes ∧ _))

private theorem eq_append_filter {α : Type} {p : α → Bool} {l : List α} {k : Nat}
    (h : l.filter p = l.take k) : l = l.filter p ++ l.filter (fun a => !p a) := by
  induction l generalizing k with
  | nil => rfl
  | cons a rest ih =>
      cases k with
      | zero =>
          rw [List.take_zero] at h
          rw [h, List.nil_append, List.filter_eq_self.mpr]
          intro b hb
          have hnot := List.filter_eq_nil_iff.mp h b hb
          simpa using hnot
      | succ k =>
          by_cases ha : p a = true
          · rw [List.filter_cons_of_pos ha, List.take_succ_cons] at h
            rw [List.filter_cons_of_pos ha, List.filter_cons_of_neg (by simp [ha]),
              List.cons_append, ← ih (List.cons.inj h).2]
          · rw [List.filter_cons_of_neg ha, List.take_succ_cons] at h
            have hin : a ∈ rest.filter p := by
              rw [h]
              exact List.mem_cons_self ..
            exact absurd (List.mem_filter.mp hin).2 ha

/-- When the placed blocks are the first of the walk, GPU hits come first. -/
private theorem gpuFirst_of_take {hashes : List Hash}
    (h : placedHashes cfg s hashes = (hitHashes s hashes).take (placedHashes cfg s hashes).length) :
    GpuFirst s hashes := by
  unfold GpuFirst
  unfold placedHashes at h
  split at h
  · rw [List.length_append, hits_length, List.take_length] at h
    exact h.symm
  · rw [List.append_nil] at h
    exact eq_append_filter h

theorem placedHashes_length_le (cfg : Config) (s : State E D) (hashes : List Hash) :
    (placedHashes cfg s hashes).length ≤ (hitHashes s hashes).length := by
  have hsum := hits_length s hashes
  unfold placedHashes
  split <;> simp <;> omega

theorem filledCtx_prefixLen {c : GenCtx D} {list : List NodeId} {tokens : List Token}
    {source : Nat → Nat → D} (h : FilledCtx cfg c list tokens source) :
    c.prefixLen / cfg.tokenPerSpan = list.length := by
  obtain ⟨_, _, rfl⟩ := h
  exact Nat.mul_div_cancel _ cfg.tokenPerSpan_pos

section

variable {tokens tokensForHash : List Token} {now : Nat} {list : List NodeId}
  {source : Nat → Nat → D} {P : Premise D}

/-- At most the blocks that end before the last token are placed. -/
theorem Started.length_le
    (hstarted : Started cfg s t r (promptHashes cfg tokens tokensForHash) now list) :
    list.length ≤ (tokens.length - 1) / cfg.tokenPerSpan := by
  have hkeys := congrArg List.length hstarted.keys
  have hle := placedHashes_length_le cfg s (promptHashes cfg tokens tokensForHash)
  have hhits := hitHashes_length_le s (promptHashes cfg tokens tokensForHash)
  have hcount : (promptHashes cfg tokens tokensForHash).length =
      (tokens.length - 1) / cfg.tokenPerSpan := by
    rw [promptHashes_eq, List.length_map, List.length_range]
  rw [List.length_map] at hkeys
  omega

/-- The key of a placed node is the one looked up at its position. -/
theorem Started.key (hstarted : Started cfg s t r (promptHashes cfg tokens tokensForHash)
    now list) (hfirst : GpuFirst s (promptHashes cfg tokens tokensForHash)) {k : Nat}
    {n : NodeId} (hk : list[k]? = some n) :
    (t.gpu.union.nodes n).hash =
      cfg.hashTokens (tokensForHash.take ((k + 1) * cfg.tokenPerSpan)) := by
  have hplaced : (placedHashes cfg s (promptHashes cfg tokens tokensForHash))[k]? =
      some (t.gpu.union.nodes n).hash := by
    rw [← hstarted.keys, List.getElem?_map, hk]
    rfl
  exact promptHashes_getElem (placedHashes_getElem hfirst hplaced)

private theorem Started.inTokenOrder
    (hstarted : Started cfg s t r (promptHashes cfg tokens tokensForHash) now list)
    (hctx : FilledCtx cfg (t.gpu.ctx r) list tokensForHash source)
    (h : FillsInOrder cfg s (promptHashes cfg tokens tokensForHash)) :
    InTokenOrder cfg t r tokensForHash := by
  have hlen := filledCtx_prefixLen hctx
  have hcached := hstarted.cached.mpr h.2
  refine ⟨fun a ha => ?_, fun k hk => ?_⟩
  · rw [hlen]
    exact hstarted.filled.length ha
  · rw [hlen] at hk
    have hget : list[k]? = some list[k] := List.getElem?_eq_getElem hk
    refine ⟨list[k], ?_, hstarted.filled.blockAt hget⟩
    rw [← hstarted.key h.1 hget]
    exact hcached _ (List.getElem_mem hk)

/-- A block that is some table node's is the placed node's own. -/
private theorem Started.placed_eq (hinv : Inv cfg P t Settled)
    (hstarted : Started cfg s t r (promptHashes cfg tokens tokensForHash) now list)
    {k : Nat} {n m : NodeId} {hash : Hash} (hk : list[k]? = some n)
    (hm : t.gpu.union.lookup hash = some m)
    (hblock : (t.gpu.ctx r).blockAt k =
      some ((t.gpu.union.nodes m).kCache, (t.gpu.union.nodes m).vCache)) : m = n := by
  rw [hstarted.filled.blockAt hk] at hblock
  simp only [Option.some.injEq, Prod.mk.injEq] at hblock
  have hspans : (t.gpu.union.nodes n).spans = (t.gpu.union.nodes m).spans := by
    unfold PrefixNode.spans
    rw [hblock.1, hblock.2]
  have hlength := hinv.gpu.wf.spans_length hm
  have hpos := cfg.layerNum_pos
  obtain ⟨span, hspan⟩ := List.exists_mem_of_length_pos (by omega :
    0 < (t.gpu.union.nodes m).spans.length)
  exact hstarted.lone n (List.mem_of_getElem? hk) hm span (hspans ▸ hspan) hspan

private theorem Started.fillsInOrder (hinv : Inv cfg P t Settled)
    (hstarted : Started cfg s t r (promptHashes cfg tokens tokensForHash) now list)
    (hctx : FilledCtx cfg (t.gpu.ctx r) list tokensForHash source)
    (h : InTokenOrder cfg t r tokensForHash) :
    FillsInOrder cfg s (promptHashes cfg tokens tokensForHash) := by
  have hlen := filledCtx_prefixLen hctx
  have hkeys := hstarted.keys
  have hnode : ∀ (k : Nat) n, list[k]? = some n → t.gpu.union.lookup
      (cfg.hashTokens (tokensForHash.take ((k + 1) * cfg.tokenPerSpan))) = some n := by
    intro k n hk
    obtain ⟨m, hm, hblock⟩ := h.block k (by
      rw [hlen]
      exact (List.getElem?_eq_some_iff.mp hk).1)
    rw [hm, hstarted.placed_eq hinv hk hm hblock]
  constructor
  · refine gpuFirst_of_take (?_ : placedHashes cfg s _ = _)
    have hle := placedHashes_length_le cfg s (promptHashes cfg tokens tokensForHash)
    have hhits := hitHashes_length_le s (promptHashes cfg tokens tokensForHash)
    apply List.ext_getElem
    · rw [List.length_take, Nat.min_eq_left hle]
    · intro k hk _
      have hklist : k < list.length := by
        rw [← hkeys, List.length_map] at hk
        exact hk
      have hget : list[k]? = some list[k] := List.getElem?_eq_getElem hklist
      have hlookup := hnode k _ hget
      have hleft : (placedHashes cfg s (promptHashes cfg tokens tokensForHash))[k] =
          (t.gpu.union.nodes list[k]).hash := by
        simp only [← hkeys, List.getElem_map]
      have hprompt : k < (promptHashes cfg tokens tokensForHash).length := by omega
      have hright := promptHashes_getElem (List.getElem?_eq_getElem hprompt)
      rw [List.getElem_take, hleft, hinv.gpu.wf.hash_eq hlookup, ← hright]
      have htake := hitHashes_eq_take s (promptHashes cfg tokens tokensForHash)
      have hin : k < (hitHashes s (promptHashes cfg tokens tokensForHash)).length := by omega
      have hsame : (hitHashes s (promptHashes cfg tokens tokensForHash))[k]? =
          (promptHashes cfg tokens tokensForHash)[k]? := by
        rw [htake, List.getElem?_take, if_pos (by omega)]
      rw [List.getElem?_eq_getElem hin, List.getElem?_eq_getElem hprompt] at hsame
      exact (Option.some.inj hsame).symm
  · apply hstarted.cached.mp
    intro n hn
    obtain ⟨k, hk, rfl⟩ := List.getElem_of_mem hn
    have hlookup := hnode k _ (List.getElem?_eq_getElem hk)
    rw [hinv.gpu.wf.hash_eq hlookup]
    exact hlookup

end

/-- A `RefFill` that returns, from any state of a run, leaves the layers in
token order exactly when the walk meets the hits in that order. -/
theorem refFill_inTokenOrder_iff {tokens tokensForHash newTokens : List Token}
    {source : Nat → Nat → D} {ts now : Nat} {schedule : List (List Nat)} (h : Reachable cfg s)
    (hr : r ∉ s.gpu.live)
    (hrun : (startRequest cfg r tokens tokensForHash source ts now).run { s with schedule } =
      .ok newTokens t) :
    InTokenOrder cfg t r tokensForHash ↔
      FillsInOrder cfg s (promptHashes cfg tokens tokensForHash) := by
  have hinv := (inv_of_reachable h).withSchedule schedule
  have hpost := post_startRequest tokens tokensForHash source ts now hinv hr
    (fun hf => hf.elim) (fun hf => hf.elim)
  obtain ⟨ht, _, list, hnew, hctx, _⟩ := hpost.of_ok hrun
  have hstarted : Started cfg s t r _ now list := hnew.of_same rfl rfl rfl
  constructor
  · intro horder
    exact hstarted.fillsInOrder ht hctx horder
  · intro hfills
    exact hstarted.inTokenOrder hctx hfills

/-- One request caches the first block. Another one with the same first block
as its whole prompt looks nothing up, and caches the second block as it stops.
The first node is then the older, and making room takes it. -/
def firstBlockSwapped : List (Call Nat) :=
  serve 1 (firstTokens 17) blockContent 1 ++
    .alone (.start 2 (firstTokens 16) (firstTokens 16) blockContent 2 2) ::
    extend 2 (firstTokens 16) 16 0 2 ++ extend 2 (firstTokens 33) 16 1 2 ++
    [.alone (.stop 2), .alone (.evictUnrefered 5 3)] ++ runCopy 0

/-- The second block on the GPU is placed at the first position, before the
first block comes back from the CPU. -/
theorem refFill_second_block_first : ∃ (s t : State (listSet NodeId) Nat) (newTokens : List Token),
    Reachable oneLayer s ∧ 3 ∉ s.gpu.live ∧
      (startRequest oneLayer 3 (firstTokens 33) (firstTokens 33) blockContent 4 4).run
        { s with schedule := [] } = .ok newTokens t ∧
      ¬ InTokenOrder oneLayer t 3 (firstTokens 33) := by
  obtain ⟨s, t, newTokens, hs, hr, hrun, hnot⟩ :=
    exists_start oneLayer (Allowed oneLayer) 8 8 firstBlockSwapped 3 (firstTokens 33) blockContent 4 []
      (fun _ t => decide (¬ InTokenOrder oneLayer t 3 (firstTokens 33))) (by decide +kernel)
  exact ⟨s, t, newTokens, hs, hr, hrun, of_decide_eq_true hnot⟩

theorem refFill_inTokenOrder_of_served :
    ∃ (s t : State (listSet NodeId) Nat) (newTokens : List Token),
      Reachable oneLayer s ∧ 3 ∉ s.gpu.live ∧
        (startRequest oneLayer 3 (firstTokens 33) (firstTokens 33) blockContent 4 4).run
          { s with schedule := [] } = .ok newTokens t ∧
        (t.gpu.ctx 3).prefixLen = 16 ∧ InTokenOrder oneLayer t 3 (firstTokens 33) := by
  obtain ⟨s, t, newTokens, hs, hr, hrun, hp⟩ :=
    exists_start oneLayer (Allowed oneLayer) 8 8 (serve 1 (firstTokens 17) blockContent 1) 3 (firstTokens 33)
      blockContent 4 [] (fun s t => decide
        (FillsInOrder oneLayer s (promptHashes oneLayer (firstTokens 33) (firstTokens 33)) ∧
          (t.gpu.ctx 3).prefixLen = 16)) (by decide +kernel)
  obtain ⟨hfills, hlen⟩ := of_decide_eq_true hp
  exact ⟨s, t, newTokens, hs, hr, hrun, hlen, (refFill_inTokenOrder_iff hs hr hrun).mpr hfills⟩

end DashInfer.Cache
