import DashInfer.Cache.FillOrder

/-!
How `AsModel` uses the prefix cache for one request: which blocks its two
`Insert` calls offer, and what a chunked prefill starts. `StartRequest` offers
the blocks of the prompt that end before its last token; `StopRequest` offers
those of all its tokens from the prompt's last block boundary on.
-/

namespace DashInfer.Model

open Lib Cache PrefixCacheManager

variable {E : OrderedSet NodeId} {D : Type} {cfg : Config}

/-- The blocks of the `Insert` at the end of `StartRequest`. -/
def startBlocks (cfg : Config) (prefixLen inputLen : Nat) : List (Nat × Nat) :=
  blocks cfg prefixLen inputLen

/-- The blocks of the `Insert` in `StopRequest`, for `generatedLen` prompt and
generated tokens. -/
def stopBlocks (cfg : Config) (inputLen generatedLen : Nat) : List (Nat × Nat) :=
  blocks cfg (inputLen / cfg.tokenPerSpan * cfg.tokenPerSpan) generatedLen

def offeredBlocks (cfg : Config) (prefixLen inputLen generatedLen : Nat) : List (Nat × Nat) :=
  startBlocks cfg prefixLen inputLen ++ stopBlocks cfg inputLen generatedLen

/-- The tokens whose KV is computed: all of the prompt, and of the generated
ones all but the last. -/
def computedLen (inputLen generatedLen : Nat) : Nat := max inputLen (generatedLen - 1)

/-- The complete computed blocks from the filled prefix on are offered, each of
them once and in order. -/
def OffersAll (cfg : Config) (prefixLen inputLen generatedLen : Nat) : Prop :=
  (offeredBlocks cfg prefixLen inputLen generatedLen).map Prod.snd =
    List.range' (prefixLen / cfg.tokenPerSpan)
      (computedLen inputLen generatedLen / cfg.tokenPerSpan - prefixLen / cfg.tokenPerSpan)

instance (cfg : Config) (prefixLen inputLen generatedLen : Nat) :
    Decidable (OffersAll cfg prefixLen inputLen generatedLen) :=
  inferInstanceAs (Decidable (_ = _))

private theorem blocks_positions (startIdx tokenNum : Nat) :
    (blocks cfg startIdx tokenNum).map Prod.snd =
      List.range' (startIdx / cfg.tokenPerSpan) ((tokenNum - 1 - startIdx) / cfg.tokenPerSpan) := by
  rw [blocks_eq, List.map_map, List.range'_eq_map_range]
  rfl

private theorem sub_mul_div' {n m tps : Nat} : (n - m * tps) / tps = n / tps - m := by
  rw [Nat.mul_comm]
  exact Nat.sub_mul_div n tps m

section Lengths

variable {hits inputLen generatedLen : Nat}

private theorem offered_positions (cfg : Config) (hits inputLen generatedLen : Nat) :
    (offeredBlocks cfg (hits * cfg.tokenPerSpan) inputLen generatedLen).map Prod.snd =
      List.range' hits ((inputLen - 1) / cfg.tokenPerSpan - hits) ++
        List.range' (inputLen / cfg.tokenPerSpan)
          ((generatedLen - 1) / cfg.tokenPerSpan - inputLen / cfg.tokenPerSpan) := by
  have hpos := cfg.tokenPerSpan_pos
  unfold offeredBlocks startBlocks stopBlocks
  rw [List.map_append, blocks_positions, blocks_positions, Nat.mul_div_cancel _ hpos,
    Nat.mul_div_cancel _ hpos, sub_mul_div', sub_mul_div']

private theorem computedLen_div (hlen : inputLen ≤ generatedLen) :
    computedLen inputLen generatedLen / cfg.tokenPerSpan =
      max (inputLen / cfg.tokenPerSpan) ((generatedLen - 1) / cfg.tokenPerSpan) := by
  unfold computedLen
  rcases Nat.le_total inputLen (generatedLen - 1) with hle | hle
  · rw [Nat.max_eq_right hle, Nat.max_eq_right (Nat.div_le_div_right hle)]
  · rw [Nat.max_eq_left hle, Nat.max_eq_left (Nat.div_le_div_right hle)]

private theorem pred_div_of_not_dvd (hpos : 0 < inputLen) (h : ¬ cfg.tokenPerSpan ∣ inputLen) :
    (inputLen - 1) / cfg.tokenPerSpan = inputLen / cfg.tokenPerSpan := by
  have hsucc : (inputLen - 1 + 1) / cfg.tokenPerSpan = (inputLen - 1) / cfg.tokenPerSpan :=
    Nat.succ_div_of_not_dvd (by rwa [Nat.sub_add_cancel hpos])
  rw [Nat.sub_add_cancel hpos] at hsucc
  exact hsucc.symm

private theorem pred_div_of_dvd (hpos : 0 < inputLen) (h : cfg.tokenPerSpan ∣ inputLen) :
    (inputLen - 1) / cfg.tokenPerSpan + 1 = inputLen / cfg.tokenPerSpan := by
  have hsucc : (inputLen - 1 + 1) / cfg.tokenPerSpan = (inputLen - 1) / cfg.tokenPerSpan + 1 :=
    Nat.succ_div_of_dvd (by rwa [Nat.sub_add_cancel hpos])
  rw [Nat.sub_add_cancel hpos] at hsucc
  exact hsucc.symm

/-- The two calls offer every complete computed block once exactly when the
prompt does not end on a block boundary: the block that ends with the prompt is
left out by the first call and skipped by the second. -/
private theorem offersAll_iff (hhits : hits ≤ (inputLen - 1) / cfg.tokenPerSpan)
    (hpos : 0 < inputLen) (hlen : inputLen ≤ generatedLen) :
    OffersAll cfg (hits * cfg.tokenPerSpan) inputLen generatedLen ↔
      ¬ cfg.tokenPerSpan ∣ inputLen := by
  have hmono : (inputLen - 1) / cfg.tokenPerSpan ≤ (generatedLen - 1) / cfg.tokenPerSpan :=
    Nat.div_le_div_right (by omega)
  unfold OffersAll
  rw [offered_positions, Nat.mul_div_cancel _ cfg.tokenPerSpan_pos, computedLen_div hlen]
  constructor
  · intro heq hdvd
    have hlast : (inputLen - 1) / cfg.tokenPerSpan + 1 = inputLen / cfg.tokenPerSpan :=
      pred_div_of_dvd hpos hdvd
    have hcount := congrArg List.length heq
    rw [List.length_append, List.length_range', List.length_range', List.length_range'] at hcount
    omega
  · intro hdvd
    have hlast : (inputLen - 1) / cfg.tokenPerSpan = inputLen / cfg.tokenPerSpan :=
      pred_div_of_not_dvd hpos hdvd
    rw [hlast] at hhits hmono ⊢
    rw [Nat.max_eq_right hmono]
    have hfrom : inputLen / cfg.tokenPerSpan = hits + (inputLen / cfg.tokenPerSpan - hits) := by
      omega
    have hcount : (generatedLen - 1) / cfg.tokenPerSpan - hits =
        (inputLen / cfg.tokenPerSpan - hits) +
          ((generatedLen - 1) / cfg.tokenPerSpan - inputLen / cfg.tokenPerSpan) := by omega
    rw [hcount, ← List.range'_append_1, ← hfrom]

end Lengths

/-- A request as it stops: its prompt and generated tokens, of which the first
`inputLen` are the prompt. -/
structure Served where
  tokens : List Token
  inputLen : Nat
  inputLen_pos : 0 < inputLen
  inputLen_le : inputLen ≤ tokens.length

/-- The key of a block is the token list up to its end. -/
def Served.key (request : Served) (block : Nat × Nat) : List Token :=
  request.tokens.take (block.1 + 1)

/-- The blocks `RefFill` finds, over a table with the given keys. -/
def Served.hits (cfg : Config) (cached : List (List Token)) (request : Served) : Nat :=
  ((blocks cfg 0 request.inputLen).takeWhile (fun block => request.key block ∈ cached)).length

/-- The keys in the table after a request, while nothing is evicted or timed
out and the capacity suffices. -/
def serve (cfg : Config) (cached : List (List Token)) (request : Served) : List (List Token) :=
  cached ++ (offeredBlocks cfg (request.hits cfg cached * cfg.tokenPerSpan) request.inputLen
    request.tokens.length).map request.key

/-- Every cached key of more than one block has the one a block shorter cached
too. -/
def PrefixClosed (cfg : Config) (cached : List (List Token)) : Prop :=
  ∀ key ∈ cached, ∀ n, key.length = (n + 2) * cfg.tokenPerSpan →
    key.take ((n + 1) * cfg.tokenPerSpan) ∈ cached

section Closed

variable {cached : List (List Token)} {request : Served}

private theorem hits_le (cfg : Config) (cached : List (List Token)) (request : Served) :
    request.hits cfg cached ≤ (request.inputLen - 1) / cfg.tokenPerSpan := by
  have hle := (List.takeWhile_sublist (l := blocks cfg 0 request.inputLen)
    (fun block => decide (request.key block ∈ cached))).length_le
  have hcount : (blocks cfg 0 request.inputLen).length =
      (request.inputLen - 1) / cfg.tokenPerSpan := by
    rw [blocks_eq, List.length_map, List.length_range, Nat.sub_zero]
  rw [hcount] at hle
  exact hle

/-- A block that `RefFill` finds is cached. -/
private theorem cached_of_lt_hits {p : Nat} (h : p < request.hits cfg cached) :
    request.tokens.take ((p + 1) * cfg.tokenPerSpan) ∈ cached := by
  have hcached := List.all_eq_true.mp List.all_takeWhile _ (List.getElem_mem h)
  have hone : 1 ≤ (p + 1) * cfg.tokenPerSpan := Nat.mul_pos (Nat.succ_pos p) cfg.tokenPerSpan_pos
  have hle := hits_le cfg cached request
  have hblock : (blocks cfg 0 request.inputLen)[p]? =
      some ((p + 1) * cfg.tokenPerSpan - 1, p) := by
    rw [blocks_eq, List.getElem?_map, Nat.sub_zero, List.getElem?_range (by omega)]
    simp
  have hget := List.prefix_iff_getElem?.mp
    (List.takeWhile_prefix (fun block => decide (request.key block ∈ cached))) p h
  rw [hblock] at hget
  rw [← Option.some.inj hget] at hcached
  have hkey := of_decide_eq_true hcached
  unfold Served.key at hkey
  rw [Nat.sub_add_cancel hone] at hkey
  exact hkey

/-- Where the blocks of a loop from a block boundary end. -/
private theorem block_end {m tokenNum : Nat} {block : Nat × Nat}
    (h : block ∈ blocks cfg (m * cfg.tokenPerSpan) tokenNum) :
    block.1 + 1 = (block.2 + 1) * cfg.tokenPerSpan ∧ block.1 + 1 ≤ tokenNum := by
  rw [blocks_eq] at h
  obtain ⟨k, hk, rfl⟩ := List.mem_map.mp h
  have hone : 1 ≤ (k + 1) * cfg.tokenPerSpan := Nat.mul_pos (Nat.succ_pos k) cfg.tokenPerSpan_pos
  have hle := Nat.mul_le_of_le_div _ _ _ (Nat.succ_le_of_lt (List.mem_range.mp hk))
  rw [Nat.succ_eq_add_one] at hle
  dsimp only
  rw [Nat.mul_div_cancel _ cfg.tokenPerSpan_pos]
  have hsum : (m + k + 1) * cfg.tokenPerSpan =
      m * cfg.tokenPerSpan + (k + 1) * cfg.tokenPerSpan := by
    rw [← Nat.add_mul]
    rfl
  omega

private theorem offered_end {hits : Nat} {block : Nat × Nat}
    (h : block ∈ offeredBlocks cfg (hits * cfg.tokenPerSpan) request.inputLen
      request.tokens.length) :
    block.1 + 1 = (block.2 + 1) * cfg.tokenPerSpan ∧ block.1 + 1 ≤ request.tokens.length := by
  rcases List.mem_append.mp h with h | h
  · obtain ⟨hend, hle⟩ := block_end h
    exact ⟨hend, Nat.le_trans hle request.inputLen_le⟩
  · exact block_end h

/-- One request leaves the keys closed under shorter prefixes. -/
private theorem serve_prefixClosed (hclosed : PrefixClosed cfg cached)
    (hdvd : ¬ cfg.tokenPerSpan ∣ request.inputLen) : PrefixClosed cfg (serve cfg cached request) := by
  intro key hkey n hlen
  rcases List.mem_append.mp hkey with hold | hnew
  · exact List.mem_append_left _ (hclosed key hold n hlen)
  · obtain ⟨block, hblock, rfl⟩ := List.mem_map.mp hnew
    obtain ⟨hend, hle⟩ := offered_end hblock
    have hall := (offersAll_iff (hits_le cfg cached request) request.inputLen_pos
      request.inputLen_le).mpr hdvd
    have hposition : block.2 = n + 1 := by
      have hkeyLen : (request.key block).length = (block.2 + 1) * cfg.tokenPerSpan := by
        unfold Served.key
        rw [List.length_take, Nat.min_eq_left hle, hend]
      rw [hkeyLen] at hlen
      have heq := Nat.eq_of_mul_eq_mul_right cfg.tokenPerSpan_pos hlen
      omega
    have htake : (request.key block).take ((n + 1) * cfg.tokenPerSpan) =
        request.tokens.take ((n + 1) * cfg.tokenPerSpan) := by
      unfold Served.key
      rw [List.take_take, hend, hposition, Nat.min_eq_left]
      exact Nat.mul_le_mul_right _ (by omega)
    rw [htake]
    rcases Nat.lt_or_ge n (request.hits cfg cached) with hlt | hge
    · exact List.mem_append_left _ (cached_of_lt_hits hlt)
    · have hin : block.2 ∈ (offeredBlocks cfg (request.hits cfg cached * cfg.tokenPerSpan)
          request.inputLen request.tokens.length).map Prod.snd := List.mem_map_of_mem hblock
      have hpred : n ∈ (offeredBlocks cfg (request.hits cfg cached * cfg.tokenPerSpan)
          request.inputLen request.tokens.length).map Prod.snd := by
        rw [hall, List.mem_range'_1, Nat.mul_div_cancel _ cfg.tokenPerSpan_pos] at hin ⊢
        omega
      obtain ⟨before, hbefore, heq⟩ := List.mem_map.mp hpred
      refine List.mem_append_right _ (List.mem_map.mpr ⟨before, hbefore, ?_⟩)
      unfold Served.key
      rw [(offered_end hbefore).1, heq]

end Closed

/-- `SpanAttnOp::Alloc` in the context phase: every layer of the request grows by
the tokens to compute. -/
def allocContext (cfg : Config) (r : ReqId) (seqLen : Nat) : Prog E D Unit :=
  forEach (fun layer => do
    getCache cfg r false layer seqLen
    getCache cfg r true layer seqLen) (List.range cfg.layerNum)

/-- `StartRequest` up to its `Insert`. -/
def startRequest (cfg : Config) (r : ReqId) (inputIds inputIdsForHash : List Token)
    (source : Nat → Nat → D) (ts now : Nat) : Prog E D Unit := do
  let newInputIds ←
    PrefixCacheManager.startRequest cfg r inputIds inputIdsForHash source ts now
  allocContext cfg r newInputIds.length

/-- A pending request, of which the first `prefillChunkLen` tokens were filled
or computed by earlier chunks. -/
structure Request where
  inputLen : Nat
  prefillChunkLen : Nat
  isWarmup : Bool

/-- `PrefillChunkRequest`: the length to which `input_ids` is reshaped for the
`StartRequest` it makes, and the request afterwards. -/
def prefillChunkRequest (maxPrefillLength : Nat) (request : Request) : Nat × Request :=
  let newLen := request.prefillChunkLen + maxPrefillLength + 1
  if request.isWarmup ∨ request.inputLen ≤ newLen then
    (request.inputLen, { request with prefillChunkLen := request.inputLen })
  else (newLen, { request with prefillChunkLen := newLen - 1 })

/-- The `Insert` of a start on the first `newLen` of `hashLen` tokens walks
positions that every layer has, and blocks that are filled or computed. -/
def InsertsComputed (cfg : Config) (t : State E D) (r : ReqId) (newLen hashLen : Nat) : Prop :=
  ∀ block ∈ startBlocks cfg (t.gpu.ctx r).prefixLen hashLen,
    (∀ a ∈ (t.gpu.ctx r).arrays, block.2 < a.cache.length) ∧
      (block.2 + 1) * cfg.tokenPerSpan ≤ newLen

instance (cfg : Config) (t : State E D) (r : ReqId) (newLen hashLen : Nat) :
    Decidable (InsertsComputed cfg t r newLen hashLen) :=
  inferInstanceAs (Decidable (∀ _ ∈ _, _))

/-- The layers of a context: their number, how long each of them is, and that
each has spans for its length. -/
structure Sized (cfg : Config) (c : GenCtx D) (lengths : Bool × Nat → Nat) : Prop where
  kLayers : c.virtualK.length = cfg.layerNum
  vLayers : c.virtualV.length = cfg.layerNum
  layer : ∀ {isV layer a}, (c.layers isV)[layer]? = some a →
    a.seqLength = lengths (isV, layer) ∧ a.seqLength ≤ a.cache.length * cfg.tokenPerSpan

section Alloc

variable {s : State E D} {r : ReqId} {lengths : Bool × Nat → Nat} {prefixLen : Nat}

/-- One layer grows, the others stay. -/
private theorem Sized.setLayer {c : GenCtx D} (h : Sized cfg c lengths) {isV : Bool} {layer n : Nat}
    {a : CacheArray} (hseq : a.seqLength = n)
    (hspans : a.seqLength ≤ a.cache.length * cfg.tokenPerSpan) :
    Sized cfg (c.setLayer isV layer a) (Function.update lengths (isV, layer) n) := by
  refine ⟨?_, ?_, ?_⟩
  · cases isV
    · exact (List.length_set ..).trans h.kLayers
    · exact h.kLayers
  · cases isV
    · exact h.vLayers
    · exact (List.length_set ..).trans h.vLayers
  · intro isV' layer' a' hget
    by_cases hsame : (isV', layer') = (isV, layer)
    · cases hsame
      have hset : ((c.layers isV).set layer a)[layer]? = some a' := by
        cases isV <;> exact hget
      rw [List.getElem?_set_self'] at hset
      obtain ⟨_, _, rfl⟩ := Option.map_eq_some_iff.mp hset
      rw [Function.update_self]
      exact ⟨hseq, hspans⟩
    · rw [Function.update_of_ne hsame]
      apply h.layer
      cases isV <;> cases isV'
      · have hne : layer ≠ layer' := fun heq => hsame (by rw [heq])
        have hset : (c.virtualK.set layer a)[layer']? = some a' := hget
        rw [List.getElem?_set_ne hne] at hset
        exact hset
      · exact hget
      · exact hget
      · have hne : layer ≠ layer' := fun heq => hsame (by rw [heq])
        have hset : (c.virtualV.set layer a)[layer']? = some a' := hget
        rw [List.getElem?_set_ne hne] at hset
        exact hset

private theorem Sized.congr {c : GenCtx D} {lengths' : Bool × Nat → Nat}
    (h : Sized cfg c lengths)
    (heq : ∀ layer < cfg.layerNum, ∀ isV, lengths (isV, layer) = lengths' (isV, layer)) :
    Sized cfg c lengths' := by
  refine ⟨h.kLayers, h.vLayers, ?_⟩
  intro isV layer a hget
  have hlt := (List.getElem?_eq_some_iff.mp hget).1
  have hlayer : layer < cfg.layerNum := by
    cases isV
    · exact h.kLayers ▸ hlt
    · exact h.vLayers ▸ hlt
  rw [← heq layer hlayer isV]
  exact h.layer hget

private theorem Sized.layers_length {c : GenCtx D} (h : Sized cfg c lengths) (isV : Bool) :
    (c.layers isV).length = cfg.layerNum := by
  cases isV
  · exact h.kLayers
  · exact h.vLayers

private theorem setLayer_prefixLen (c : GenCtx D) (isV : Bool) (layer : Nat) (a : CacheArray) :
    (c.setLayer isV layer a).prefixLen = c.prefixLen := by
  cases isV <;> rfl

/-- What `GetCache` on one layer leaves of the layers, when it returns. -/
private theorem post_getCache_sized (h : Sized cfg (s.gpu.ctx r) lengths)
    (hfilledLen : (s.gpu.ctx r).prefixLen = prefixLen) (isV : Bool) {layer : Nat}
    (hlayer : layer < cfg.layerNum) (increment : Nat) :
    Post (getCache cfg r isV layer increment) s
      (fun _ t => Sized cfg (t.gpu.ctx r)
        (Function.update lengths (isV, layer) (lengths (isV, layer) + increment)) ∧
        (t.gpu.ctx r).prefixLen = prefixLen) (fun _ _ => True) := by
  have hlt : layer < ((s.gpu.ctx r).layers isV).length := by
    rw [h.layers_length]
    exact hlayer
  have hget := List.getElem?_eq_getElem hlt
  rw [post_getCache_iff increment hget]
  split
  · trivial
  · next a' m hrun =>
      obtain ⟨hseq, hspans⟩ := CacheArray.getCachePtrVec_ok hrun
      obtain ⟨hold, hcovered⟩ := h.layer hget
      rw [hold] at hseq
      unfold State.withLayer
      rw [GpuSide.updateCtx_self, setLayer_prefixLen]
      exact ⟨h.setLayer hseq (hspans hcovered), hfilledLen⟩

/-- Every layer grows by the tokens to compute. -/
private theorem post_allocContext {n : Nat} (h : Sized cfg (s.gpu.ctx r) (fun _ => n))
    (hfilledLen : (s.gpu.ctx r).prefixLen = prefixLen) (seqLen : Nat) :
    Post (allocContext cfg r seqLen) s
      (fun _ t => Sized cfg (t.gpu.ctx r) (fun _ => n + seqLen) ∧
        (t.gpu.ctx r).prefixLen = prefixLen) (fun _ _ => True) := by
  -- the layers still to come have the old length, the others the new one
  let I : List Nat → State E D → Prop := fun rest t => rest.Nodup ∧
    (∀ layer ∈ rest, layer < cfg.layerNum) ∧ (t.gpu.ctx r).prefixLen = prefixLen ∧
    Sized cfg (t.gpu.ctx r) (fun key => if key.2 ∈ rest then n else n + seqLen)
  have hloop : Post (allocContext cfg r seqLen) s (fun _ => I []) (fun _ _ => True) := by
    refine post_forEach (I := I) _ _ ?_ s ⟨List.nodup_range, fun _ => List.mem_range.mp, hfilledLen,
      h.congr (fun layer hlayer isV => (if_pos (List.mem_range.mpr hlayer)).symm)⟩
    rintro layer rest t ⟨hnodup, hall, ht, hsized⟩
    obtain ⟨hnew, hrest⟩ := List.nodup_cons.mp hnodup
    have hlayer := hall layer (List.mem_cons_self ..)
    rw [post_bind]
    apply (post_getCache_sized hsized ht false hlayer seqLen).imp _ (fun _ _ hx => hx)
    rintro _ u ⟨hu, hup⟩
    apply (post_getCache_sized hu hup true hlayer seqLen).imp _ (fun _ _ hx => hx)
    rintro _ v ⟨hv, hvp⟩
    refine ⟨hrest, fun other hother => hall other (List.mem_cons_of_mem _ hother), hvp,
      hv.congr ?_⟩
    intro other _ isV
    by_cases hother : other = layer
    · subst hother
      cases isV <;> simp [hnew]
    · cases isV <;> simp [Function.update, hother]
  apply hloop.imp _ (fun _ _ hx => hx)
  rintro _ t ⟨_, _, ht, hsized⟩
  exact ⟨hsized.congr (fun _ _ _ => by simp), ht⟩

private theorem Sized.spans {c : GenCtx D} {n : Nat} (h : Sized cfg c (fun _ => n))
    {a : CacheArray} (ha : a ∈ c.arrays) : n ≤ a.cache.length * cfg.tokenPerSpan := by
  have hlayer : ∃ isV, a ∈ c.layers isV := by
    rcases List.mem_append.mp ha with ha | ha
    · exact ⟨false, ha⟩
    · exact ⟨true, ha⟩
  obtain ⟨isV, hin⟩ := hlayer
  obtain ⟨layer, hget⟩ := List.getElem?_of_mem hin
  obtain ⟨hseq, hcover⟩ := h.layer hget
  rw [hseq] at hcover
  exact hcover

/-- The layers as `RefFill` leaves them. -/
private theorem sized_of_filled {c : GenCtx D} {nodes : NodeId → PrefixNode} {list : List NodeId}
    (h : Filled cfg nodes c list) : Sized cfg c (fun _ => list.length * cfg.tokenPerSpan) := by
  refine ⟨h.k.layerNum, h.v.layerNum, ?_⟩
  intro isV layer a hget
  have hmem := List.mem_of_getElem? hget
  cases isV
  · have hseq := h.k.seqLength a hmem
    have hlen := h.k.length a hmem
    rw [List.length_map] at hseq hlen
    exact ⟨hseq, by rw [hseq, hlen]⟩
  · have hseq := h.v.seqLength a hmem
    have hlen := h.v.length a hmem
    rw [List.length_map] at hseq hlen
    exact ⟨hseq, by rw [hseq, hlen]⟩

/-- What a start leaves before its `Insert`: every layer has spans for all the
tokens of `input_ids`, of which the filled ones are whole blocks before the
last token. -/
private theorem post_startRequest_sized (h : Inv cfg (Premise.none D) s Settled)
    (hr : r ∉ s.gpu.live) (inputIds inputIdsForHash : List Token) (source : Nat → Nat → D)
    (ts now : Nat) :
    Post (startRequest cfg r inputIds inputIdsForHash source ts now) s
      (fun _ t => Sized cfg (t.gpu.ctx r) (fun _ => inputIds.length) ∧
        ∃ hits, hits ≤ (inputIds.length - 1) / cfg.tokenPerSpan ∧
          (t.gpu.ctx r).prefixLen = hits * cfg.tokenPerSpan) (fun _ _ => True) := by
  unfold startRequest
  rw [post_bind]
  apply (post_startRequest inputIds inputIdsForHash source ts now h hr (fun hf => hf.elim)
    (fun hf => hf.elim)).imp _ (fun _ _ _ => trivial)
  rintro newInputIds t ⟨_, _, list, hstarted, hctx, hnew⟩
  have hle := hstarted.length_le
  have hfilledLen : (t.gpu.ctx r).prefixLen = list.length * cfg.tokenPerSpan := by
    obtain ⟨_, _, heq⟩ := hctx
    rw [heq]
  apply (post_allocContext (sized_of_filled hstarted.filled) hfilledLen newInputIds.length).imp _
    (fun _ _ hx => hx)
  rintro _ u ⟨hu, hup⟩
  have hfit := Nat.mul_le_of_le_div _ _ _ hle
  have htotal : list.length * cfg.tokenPerSpan + newInputIds.length = inputIds.length := by
    rw [hnew, List.length_drop]
    omega
  rw [htotal] at hu
  exact ⟨hu, list.length, hle, hup⟩

end Alloc

theorem prefillChunkRequest_le (maxPrefillLength : Nat) (request : Request) :
    (prefillChunkRequest maxPrefillLength request).1 ≤ request.inputLen := by
  unfold prefillChunkRequest
  dsimp only
  split
  · exact Nat.le_refl _
  · next hnot =>
      rw [not_or] at hnot
      dsimp only
      omega

/-- A start made by `PrefillChunkRequest` inserts computed blocks only, exactly
when the chunk computes every block that the whole prompt's hash tensor makes
`Insert` walk. -/
theorem chunk_insertsComputed_iff {s t : State E D} {r : ReqId}
    {inputIds inputIdsForHash : List Token} {source : Nat → Nat → D} {ts now : Nat}
    {schedule : List (List Nat)} (maxPrefillLength : Nat) (request : Request)
    (h : Reachable cfg s) (hr : r ∉ s.gpu.live) (hids : inputIds.length = request.inputLen)
    (hhash : inputIdsForHash.length = request.inputLen)
    (hrun : (startRequest cfg r
      (inputIds.take (prefillChunkRequest maxPrefillLength request).1) inputIdsForHash source ts
      now).run { s with schedule } = .ok () t) :
    InsertsComputed cfg t r (prefillChunkRequest maxPrefillLength request).1
        inputIdsForHash.length ↔
      (request.inputLen - 1) / cfg.tokenPerSpan ≤
        (prefillChunkRequest maxPrefillLength request).1 / cfg.tokenPerSpan := by
  have hpost := post_startRequest_sized ((inv_of_reachable h).withSchedule schedule) hr
    (inputIds.take (prefillChunkRequest maxPrefillLength request).1) inputIdsForHash source ts now
  obtain ⟨hsized, hits, hhits, hfilledLen⟩ := hpost.of_ok hrun
  have hpos := cfg.tokenPerSpan_pos
  have hle := prefillChunkRequest_le maxPrefillLength request
  generalize (prefillChunkRequest maxPrefillLength request).1 = newLen at *
  rw [List.length_take, hids, Nat.min_eq_left hle] at hsized hhits
  have hfilled : hits ≤ newLen / cfg.tokenPerSpan :=
    Nat.le_trans hhits (Nat.div_le_div_right (Nat.sub_le _ _))
  unfold InsertsComputed startBlocks
  rw [hfilledLen, hhash]
  constructor
  · intro hall
    by_contra hmore
    have hlast : (request.inputLen - 1) / cfg.tokenPerSpan - 1 ∈
        (blocks cfg (hits * cfg.tokenPerSpan) request.inputLen).map Prod.snd := by
      rw [blocks_positions, Nat.mul_div_cancel _ hpos, sub_mul_div', List.mem_range'_1]
      omega
    obtain ⟨block, hblock, heq⟩ := List.mem_map.mp hlast
    have hcomputed := (Nat.le_div_iff_mul_le hpos).mpr (hall block hblock).2
    omega
  · intro henough block hblock
    have hposition : block.2 ∈
        (blocks cfg (hits * cfg.tokenPerSpan) request.inputLen).map Prod.snd :=
      List.mem_map_of_mem hblock
    rw [blocks_positions, Nat.mul_div_cancel _ hpos, sub_mul_div', List.mem_range'_1]
      at hposition
    have hcomputed : (block.2 + 1) * cfg.tokenPerSpan ≤ newLen :=
      (Nat.le_div_iff_mul_le hpos).mp (by omega)
    refine ⟨?_, hcomputed⟩
    intro a ha
    have hspans := hsized.spans ha
    have hmul := Nat.le_of_mul_le_mul_right (Nat.le_trans hcomputed hspans) hpos
    omega

theorem chunk_insertsComputed_of_block :
    ∃ t : State (listSet NodeId) Nat, (startRequest oneLayer 1
      ((firstTokens 20).take (prefillChunkRequest 15 ⟨20, 0, false⟩).1) (firstTokens 20)
      blockContent 1 1).run { bootState oneLayer 8 8 with schedule := [] } = .ok () t ∧
      InsertsComputed oneLayer t 1 16 20 := by
  obtain ⟨_, t, hrun, _⟩ := exists_ok (x := startRequest oneLayer 1
    ((firstTokens 20).take (prefillChunkRequest 15 ⟨20, 0, false⟩).1) (firstTokens 20)
      blockContent 1 1) (s := { bootState oneLayer 8 8 with schedule := [] })
      (p := fun _ => true) (by decide +kernel)
  exact ⟨t, hrun, (chunk_insertsComputed_iff 15 ⟨20, 0, false⟩
    (.init (initial_bootState oneLayer 8 8)) (by decide) (by decide) (by decide) hrun).mpr
      (by decide)⟩

/-- The first chunk of 21 of 100 tokens: `Insert` walks six blocks over layers
of two spans. -/
theorem chunk_inserts_past_layers :
    ∃ t t' : State (listSet NodeId) Nat, (startRequest oneLayer 1
      ((firstTokens 100).take (prefillChunkRequest 20 ⟨100, 0, false⟩).1) (firstTokens 100)
      blockContent 1 1).run (bootState oneLayer 8 8) = .ok () t ∧
      ¬ InsertsComputed oneLayer t 1 21 100 ∧
      (insert oneLayer 1 (firstTokens 100) (t.gpu.ctx 1).prefixLen 1 1).run t =
        .error .badIndex t' := by
  let p : State (listSet NodeId) Nat → Bool := fun t =>
    decide (¬ InsertsComputed oneLayer t 1 21 100) &&
      faultsWith .badIndex
        ((insert oneLayer 1 (firstTokens 100) (t.gpu.ctx 1).prefixLen 1 1).run t)
  obtain ⟨_, t, hrun, hp⟩ := exists_ok (x := startRequest oneLayer 1
    ((firstTokens 100).take (prefillChunkRequest 20 ⟨100, 0, false⟩).1) (firstTokens 100)
      blockContent 1 1) (s := bootState oneLayer 8 8) (p := p) (by decide +kernel)
  rw [Bool.and_eq_true] at hp
  obtain ⟨hnot, hinsert⟩ := hp
  obtain ⟨t', hfault⟩ := exists_error hinsert
  exact ⟨t, t', hrun, of_decide_eq_true hnot, hfault⟩

end DashInfer.Model
