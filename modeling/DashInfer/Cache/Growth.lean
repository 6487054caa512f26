import DashInfer.Cache.Fill

/-!
Growth of a request's virtual cache. The layers of one `SpannedVirtualCache`
share a span manager with every other request of the worker; each layer is
grown on its own by the operator it belongs to, and `FillCache` appends one
cached span to all of them. An update of a sequence length takes all the spans
it needs or leaves everything as it was.
-/

namespace DashInfer.Cache

/-- What the other requests and the prefix table do to the manager. -/
inductive ManagerStep : SpanManager → SpanManager → Prop
  | claim (m : SpanManager) (count : Nat) : ManagerStep m (m.claimSpan count).2
  | release (m : SpanManager) (spans : List SpanId) : ManagerStep m (m.releaseSpans spans)
  | extraRef (m : SpanManager) (flag : Bool) (spans : List SpanId) :
      ManagerStep m (m.setExtraRef flag spans)
  | growBy (m : SpanManager) (frames : Nat) :
      ManagerStep m { m with frameManager := m.frameManager.growBy frames }

/-- Spans that exist stay where they are. -/
structure SpansKept (m m' : SpanManager) : Prop where
  nextSpan : m.nextSpan ≤ m'.nextSpan
  frameOf : ∀ span < m.nextSpan, m'.frameOf span = m.frameOf span

namespace SpansKept

theorem refl (m : SpanManager) : SpansKept m m := ⟨Nat.le_refl _, fun _ _ => rfl⟩

theorem of_claimSpan (m : SpanManager) (count : Nat) : SpansKept m (m.claimSpan count).2 := by
  unfold SpanManager.claimSpan
  split
  · exact ⟨Nat.le_refl _, fun _ _ => rfl⟩
  · refine ⟨Nat.le_add_right _ _, fun span hspan => ?_⟩
    unfold SpanManager.frameOf
    simp only [Nat.not_le.mpr hspan, false_and, if_false]

theorem of_step {m m' : SpanManager} (h : ManagerStep m m') : SpansKept m m' := by
  cases h with
  | claim count => exact of_claimSpan m count
  | release spans =>
      refine ⟨?_, fun span _ => ?_⟩
      · simp
      · rw [SpanManager.releaseSpans_frameOf]
  | extraRef flag spans => exact ⟨by simp, fun span _ => by simp⟩
  | growBy frames => exact ⟨Nat.le_refl _, fun _ _ => rfl⟩

end SpansKept

/-- `ceil(length / span_len)`, as `uint_div_up` computes it. -/
def spansFor (cfg : Config) (length : Nat) : Nat :=
  (length + cfg.tokenPerSpan - 1) / cfg.tokenPerSpan

theorem spansFor_mono (cfg : Config) {n m : Nat} (h : n ≤ m) :
    spansFor cfg n ≤ spansFor cfg m := by
  apply Nat.div_le_div_right
  omega

theorem spansFor_mul (cfg : Config) (n : Nat) : spansFor cfg (n * cfg.tokenPerSpan) = n := by
  have hpos := cfg.tokenPerSpan_pos
  have hsum : n * cfg.tokenPerSpan + cfg.tokenPerSpan - 1 =
      (cfg.tokenPerSpan - 1) + n * cfg.tokenPerSpan := by omega
  unfold spansFor
  rw [hsum, Nat.add_mul_div_right _ _ hpos, Nat.div_eq_of_lt (by omega), Nat.zero_add]

/-- Exactly the spans its length needs, each in the address table. -/
structure CacheArray.Exact (cfg : Config) (m : SpanManager) (a : CacheArray) : Prop where
  spanCount : a.cache.length = spansFor cfg a.seqLength
  present : ∀ span ∈ a.cache, span < m.nextSpan
  table : ∀ (i : Nat) span, a.cache[i]? = some span → a.tlb i = m.frameOf span

namespace CacheArray

variable {cfg : Config} {m m' : SpanManager} {a a' : CacheArray}

theorem exact_empty (cfg : Config) (m : SpanManager) : Exact cfg m empty where
  spanCount := by
    have h := spansFor_mul cfg 0
    rw [Nat.zero_mul] at h
    exact h.symm
  present := by simp [empty]
  table := by simp [empty]

theorem Exact.kept (h : Exact cfg m a) (hkept : SpansKept m m') : Exact cfg m' a where
  spanCount := h.spanCount
  present span hspan := Nat.lt_of_lt_of_le (h.present span hspan) hkept.nextSpan
  table i span hi := by
    rw [hkept.frameOf span (h.present span (List.mem_of_getElem? hi))]
    exact h.table i span hi

/-- What a successful update of the sequence length to `newLength` did: every
earlier span is still there, over the same frame. -/
structure Grown (cfg : Config) (m : SpanManager) (a : CacheArray) (m' : SpanManager)
    (a' : CacheArray) (newLength : Nat) : Prop where
  seqLength : a'.seqLength = newLength
  exact_ : Exact cfg m' a'
  earlier : a.cache <+: a'.cache
  frames : SpansKept m m'

/-- Claimed spans and their addresses go behind what is there. -/
theorem Exact.append (h : Exact cfg m a) {count : Nat} {spans : List SpanId}
    (hclaim : m.claimSpan count = (some spans, m')) {newLength : Nat}
    (hcount : a.cache.length + count = spansFor cfg newLength) :
    Exact cfg m'
      { cache := a.cache ++ spans
        seqLength := newLength
        tlb := writeTlb a.tlb a.cache.length (spans.map m'.frameOf) } := by
  have hlen := SpanManager.claimSpan_length hclaim
  have hkept : SpansKept m m' := by
    have hkept := SpansKept.of_claimSpan m count
    rwa [hclaim] at hkept
  refine ⟨?_, ?_, ?_⟩
  · simp only [List.length_append, hlen, hcount]
  · intro span hspan
    rcases List.mem_append.mp hspan with hold | hnew
    · exact Nat.lt_of_lt_of_le (h.present span hold) hkept.nextSpan
    · unfold SpanManager.claimSpan at hclaim
      split at hclaim
      · cases hclaim
      · cases hclaim
        have hrange := List.mem_range'_1.mp hnew
        exact hrange.2
  · intro i span hi
    simp only at hi
    simp only [writeTlb]
    rcases Nat.lt_or_ge i a.cache.length with hold | hnew
    · rw [List.getElem?_append_left hold] at hi
      rw [if_neg (Nat.not_le.mpr hold), h.table i span hi]
      exact (hkept.frameOf span (h.present span (List.mem_of_getElem? hi))).symm
    · rw [List.getElem?_append_right hnew] at hi
      have hnew : a.cache.length ≤ i := hnew
      rw [if_pos hnew, List.getElem?_map, hi]
      rfl

/-- `updateSeqLength` on an exact array: it grew, or the manager is untouched
and no new array came back. -/
theorem Exact.updateSeqLength_spec (h : Exact cfg m a) (newLength : Nat) :
    (∃ a' m', a.updateSeqLength cfg newLength m = (.ok (some a'), m') ∧
        Grown cfg m a m' a' newLength) ∨
      a.updateSeqLength cfg newLength m = (.ok none, m) ∨
      ∃ e, a.updateSeqLength cfg newLength m = (.error e, m) := by
  unfold updateSeqLength
  split
  · next hsame =>
      exact Or.inl ⟨a, m, rfl, hsame.symm, h, List.prefix_rfl, SpansKept.refl m⟩
  · split
    · exact Or.inr (Or.inr ⟨_, rfl⟩)
    · next hne hlt =>
        have hmore : a.seqLength ≤ newLength := Nat.not_lt.mp hlt
        have hneed : a.cache.length ≤ spansFor cfg newLength := by
          rw [h.spanCount]
          exact spansFor_mono cfg hmore
        simp only
        split
        · exact Or.inr (Or.inr ⟨_, rfl⟩)
        · split
          · next hfew =>
              have hsum : a.cache.length + (spansFor cfg newLength - a.cache.length) =
                  spansFor cfg newLength := Nat.add_sub_cancel' hneed
              split
              · next m' hclaim =>
                  rw [SpanManager.claimSpan_none hclaim]
                  exact Or.inr (Or.inl rfl)
              · next spans m' hclaim =>
                  have hkept := SpansKept.of_claimSpan m (spansFor cfg newLength - a.cache.length)
                  refine Or.inl ⟨_, m', rfl, rfl, h.append hclaim hsum, List.prefix_append _ _, ?_⟩
                  unfold spansFor at hkept
                  rwa [hclaim] at hkept
          · next hmany =>
              -- the last span still has room for the new tokens
              have hsame : a.cache.length = spansFor cfg newLength :=
                Nat.le_antisymm hneed (Nat.not_lt.mp hmany)
              exact Or.inl ⟨_, m, rfl, rfl, ⟨hsame, h.present, h.table⟩, List.prefix_rfl,
                SpansKept.refl m⟩

theorem Exact.getCachePtrVec_spec (h : Exact cfg m a) (increment : Nat) :
    (∃ a' m', a.getCachePtrVec cfg increment m = (.ok a', m') ∧
        Grown cfg m a m' a' (a.seqLength + increment)) ∨
      ∃ e, a.getCachePtrVec cfg increment m = (.error e, m) := by
  unfold getCachePtrVec
  split
  · next hzero =>
      rw [hzero]
      exact Or.inl ⟨a, m, rfl, rfl, h, List.prefix_rfl, SpansKept.refl m⟩
  · obtain ⟨a', m', hrun, hgrown⟩ | hrun | ⟨e, hrun⟩ :=
      h.updateSeqLength_spec (a.seqLength + increment)
    · simp only [hrun]
      exact Or.inl ⟨a', m', rfl, hgrown⟩
    · simp only [hrun]
      exact Or.inr ⟨_, rfl⟩
    · simp only [hrun]
      exact Or.inr ⟨_, rfl⟩

end CacheArray

/-- A `SpannedVirtualCache` with the span manager it claims from. -/
structure VirtualCache where
  layers : List CacheArray
  manager : SpanManager

/-- Why `GetCache` did not return. -/
inductive GetCacheError where
  | paramError
  | fault (e : Fault)
deriving DecidableEq

namespace VirtualCache

variable {cfg : Config} {v v' : VirtualCache}

/-- The object as `InitLayer` leaves it, before any context. -/
def init (cfg : Config) (manager : SpanManager) : VirtualCache :=
  { layers := List.replicate cfg.layerNum CacheArray.empty, manager }

/-- `updateSeqLength` of one layer. The array is replaced only when all spans
are there; the result says whether it was. -/
def updateSeqLength (cfg : Config) (v : VirtualCache) (layerId newLength : Nat) :
    Except Fault Bool × VirtualCache :=
  match v.layers[layerId]? with
  | none => (.error .badIndex, v)
  | some a =>
      match a.updateSeqLength cfg newLength v.manager with
      | (.ok (some a), manager) => (.ok true, { layers := v.layers.set layerId a, manager })
      | (.ok none, manager) => (.ok false, { v with manager })
      | (.error e, manager) => (.error e, { v with manager })

/-- `GetCache`: the checks of `layer_id` and of the increment, then
`GetCachePtrVec`. -/
def getCache (cfg : Config) (v : VirtualCache) (layerId increment : Int) :
    Except GetCacheError Unit × VirtualCache :=
  if layerId < 0 ∨ v.layers.length ≤ layerId then (.error .paramError, v)
  else if increment < 0 then (.error .paramError, v)
  else
    match v.layers[layerId.toNat]? with
    | none => (.error (.fault .badIndex), v)
    | some a =>
        match a.getCachePtrVec cfg increment.toNat v.manager with
        | (.ok a, manager) => (.ok (), { layers := v.layers.set layerId.toNat a, manager })
        | (.error e, manager) => (.error (.fault e), { v with manager })

def fill (cfg : Config) (v : VirtualCache) (spans : List SpanId) : Option VirtualCache :=
  (fillCache cfg v.manager v.layers spans).map (fun layers => { v with layers })

/-- All layers hold as many spans as the first. -/
def Even (v : VirtualCache) : Prop :=
  ∀ a ∈ v.layers, a.cache.length = (v.layers.head?.map (fun a => a.cache.length)).getD 0

/-- The states of a virtual cache, with the other users of the manager beside
it. `FillCache` writes every layer at the span count of the first one: its
callers are inside `RefFill`, where layers only grow by whole nodes. -/
inductive Reaches (cfg : Config) : VirtualCache → Prop
  | init (manager : SpanManager) : Reaches cfg (VirtualCache.init cfg manager)
  | update {v : VirtualCache} (layerId newLength : Nat) (h : Reaches cfg v) :
      Reaches cfg (v.updateSeqLength cfg layerId newLength).2
  | getCache {v : VirtualCache} (layerId increment : Int) (h : Reaches cfg v) :
      Reaches cfg (v.getCache cfg layerId increment).2
  | fill {v v' : VirtualCache} {spans : List SpanId} (h : Reaches cfg v) (heven : v.Even)
      (hspans : ∀ span ∈ spans, span < v.manager.nextSpan) (hfill : v.fill cfg spans = some v') :
      Reaches cfg v'
  | others {v : VirtualCache} {manager : SpanManager} (h : Reaches cfg v)
      (hstep : ManagerStep v.manager manager) : Reaches cfg { v with manager }

/-- Every layer of a reachable cache is exact. -/
def Sound (cfg : Config) (v : VirtualCache) : Prop :=
  ∀ a ∈ v.layers, a.Exact cfg v.manager

theorem Sound.kept (h : v.Sound cfg) {manager : SpanManager}
    (hkept : SpansKept v.manager manager) : Sound cfg { v with manager } :=
  fun a ha => (h a ha).kept hkept

theorem Sound.set (h : v.Sound cfg) {layerId newLength : Nat} {a a' : CacheArray}
    {manager : SpanManager} (hgrown : a.Grown cfg v.manager manager a' newLength) :
    Sound cfg { layers := v.layers.set layerId a', manager } := by
  intro b hb
  rcases List.mem_or_eq_of_mem_set hb with hold | rfl
  · exact (h b hold).kept hgrown.frames
  · exact hgrown.exact_

/-- The outcome of updating the sequence length of one layer: with `ok`, that
layer grew to `newLength` and the others are the same; without, nothing
changed. -/
def ExactOrUnchanged (cfg : Config) (v : VirtualCache) (layerId newLength : Nat) (ok : Bool)
    (v' : VirtualCache) : Prop :=
  if ok then
    ∃ a a', v.layers[layerId]? = some a ∧ v'.layers = v.layers.set layerId a' ∧
      a.Grown cfg v.manager v'.manager a' newLength
  else v' = v

theorem updateSeqLength_spec (h : v.Sound cfg) (layerId newLength : Nat) :
    ∃ result v', v.updateSeqLength cfg layerId newLength = (result, v') ∧
      ExactOrUnchanged cfg v layerId newLength (result matches .ok true) v' := by
  unfold updateSeqLength
  cases hlayer : v.layers[layerId]? with
  | none => exact ⟨_, _, rfl, rfl⟩
  | some a =>
      obtain ⟨a', manager, hrun, hgrown⟩ | hrun | ⟨e, hrun⟩ :=
        (h a (List.mem_of_getElem? hlayer)).updateSeqLength_spec newLength
      · simp only [hrun]
        exact ⟨_, _, rfl, a, a', hlayer, rfl, hgrown⟩
      · simp only [hrun]
        exact ⟨_, _, rfl, rfl⟩
      · simp only [hrun]
        exact ⟨_, _, rfl, rfl⟩

/-- The sequence length of a layer. -/
def seqLength (v : VirtualCache) (layerId : Nat) : Nat :=
  (v.layers[layerId]?.map CacheArray.seqLength).getD 0

theorem getCache_spec (h : v.Sound cfg) (layerId increment : Int) :
    ∃ result v', v.getCache cfg layerId increment = (result, v') ∧
      ExactOrUnchanged cfg v layerId.toNat (v.seqLength layerId.toNat + increment.toNat)
        (result matches .ok ()) v' := by
  unfold getCache
  split
  · exact ⟨_, _, rfl, rfl⟩
  · split
    · exact ⟨_, _, rfl, rfl⟩
    · cases hlayer : v.layers[layerId.toNat]? with
      | none => exact ⟨_, _, rfl, rfl⟩
      | some a =>
          have ha := h a (List.mem_of_getElem? hlayer)
          have hlength : v.seqLength layerId.toNat = a.seqLength := by
            simp [seqLength, hlayer]
          rw [hlength]
          obtain ⟨a', manager, hrun, hgrown⟩ | ⟨e, hrun⟩ := ha.getCachePtrVec_spec increment.toNat
          · simp only [hrun]
            exact ⟨_, _, rfl, a, a', hlayer, rfl, hgrown⟩
          · simp only [hrun]
            exact ⟨_, _, rfl, rfl⟩

theorem Sound.outcome (h : v.Sound cfg) {layerId newLength : Nat} {ok : Bool}
    (hout : ExactOrUnchanged cfg v layerId newLength ok v') : v'.Sound cfg := by
  cases ok with
  | true =>
      obtain ⟨a, a', _, hlayers, hgrown⟩ := hout
      have hset : Sound cfg { layers := v.layers.set layerId a', manager := v'.manager } :=
        h.set hgrown
      rw [← hlayers] at hset
      exact hset
  | false =>
      have hsame : v' = v := hout
      rw [hsame]
      exact h

/-- One more span on an exact array of `current` spans. -/
theorem exact_push {a : CacheArray} {m : SpanManager} (h : a.Exact cfg m) {span : SpanId}
    (hspan : span < m.nextSpan) :
    CacheArray.Exact cfg m
      { cache := a.cache ++ [span]
        seqLength := (a.cache.length + 1) * cfg.tokenPerSpan
        tlb := Function.update a.tlb a.cache.length (m.frameOf span) } where
  spanCount := by
    rw [spansFor_mul, List.length_append, List.length_singleton]
  present s hs := by
    rcases List.mem_append.mp hs with hold | hnew
    · exact h.present s hold
    · rw [List.mem_singleton.mp hnew]
      exact hspan
  table i s hi := by
    simp only at hi ⊢
    rcases Nat.lt_trichotomy i a.cache.length with hlt | heq | hgt
    · rw [List.getElem?_append_left hlt] at hi
      rw [Function.update_of_ne (Nat.ne_of_lt hlt)]
      exact h.table i s hi
    · simp only [heq, List.getElem?_concat_length, Option.some.injEq] at hi
      rw [heq, Function.update_self, hi]
    · rw [List.getElem?_eq_none (by simp; omega)] at hi
      cases hi

theorem Sound.fill (h : v.Sound cfg) (heven : v.Even) {spans : List SpanId}
    (hspans : ∀ span ∈ spans, span < v.manager.nextSpan) (hfill : v.fill cfg spans = some v') :
    v'.Sound cfg := by
  unfold VirtualCache.fill fillCache at hfill
  simp only [Option.map_eq_some_iff, Option.ite_none_left_eq_some] at hfill
  obtain ⟨layers, ⟨_, hlayers⟩, rfl⟩ := hfill
  obtain rfl := Option.some.inj hlayers
  intro b hb
  dsimp only at hb
  obtain ⟨i, hi, rfl⟩ := List.getElem_of_mem hb
  rw [List.length_zipWith] at hi
  have hspan : spans.get ⟨i, by omega⟩ ∈ spans := List.get_mem ..
  have ha : v.layers.get ⟨i, by omega⟩ ∈ v.layers := List.get_mem ..
  have hpush := exact_push (h _ ha) (hspans _ hspan)
  simp only [heven _ ha] at hpush
  rw [List.getElem_zipWith]
  exact hpush

/-- The invariant of the runs. -/
theorem sound_of_reaches (h : Reaches cfg v) : v.Sound cfg := by
  induction h with
  | init manager =>
      intro a ha
      rw [List.eq_of_mem_replicate ha]
      exact CacheArray.exact_empty cfg manager
  | update layerId newLength _ ih =>
      obtain ⟨result, v', hrun, hout⟩ := updateSeqLength_spec ih layerId newLength
      rw [hrun]
      exact ih.outcome hout
  | getCache layerId increment _ ih =>
      obtain ⟨result, v', hrun, hout⟩ := getCache_spec ih layerId increment
      rw [hrun]
      exact ih.outcome hout
  | fill _ heven hspans hfill ih => exact ih.fill heven hspans hfill
  | others _ hstep ih => exact ih.kept (SpansKept.of_step hstep)

/-- In every state that growth and `FillCache` reach, with any number of free
frames, updating the sequence length of a layer to any length, and asking for
its cache with any increment, either grows it exactly or leaves the span lists,
the lengths, the address tables and the frame pool as they were. -/
theorem growth_exactOrUnchanged (h : Reaches cfg v) :
    (∀ layerId newLength, ∃ result v', v.updateSeqLength cfg layerId newLength = (result, v') ∧
      ExactOrUnchanged cfg v layerId newLength (result matches .ok true) v') ∧
    ∀ layerId increment : Int, ∃ result v', v.getCache cfg layerId increment = (result, v') ∧
      ExactOrUnchanged cfg v layerId.toNat (v.seqLength layerId.toNat + increment.toNat)
        (result matches .ok ()) v' :=
  ⟨updateSeqLength_spec (sound_of_reaches h), getCache_spec (sound_of_reaches h)⟩

/-- One layer of at most four spans with two tokens each. -/
def smallConfig : Config where
  layerNum := 1
  tokenPerSpan := 2
  maxLength := 8
  maxBatch := 1
  timeToLiveSec := 1
  hashTokens := List.length
  layerNum_pos := by decide
  tokenPerSpan_pos := by decide
  maxLength_pos := by decide
  maxBatch_pos := by decide

/-- Three tokens in a pool of three frames, so that one frame is left. -/
def shortPool : VirtualCache :=
  ((init smallConfig (SpanManager.init 3)).getCache smallConfig 0 3).2

theorem growth_exactOrUnchanged_shortPool :
    ((∀ layerId newLength, ∃ result v',
        shortPool.updateSeqLength smallConfig layerId newLength = (result, v') ∧
          ExactOrUnchanged smallConfig shortPool layerId newLength (result matches .ok true) v') ∧
      ∀ layerId increment : Int, ∃ result v',
        shortPool.getCache smallConfig layerId increment = (result, v') ∧
          ExactOrUnchanged smallConfig shortPool layerId.toNat
            (shortPool.seqLength layerId.toNat + increment.toNat) (result matches .ok ()) v') ∧
      (shortPool.updateSeqLength smallConfig 0 6).1 = .ok true ∧
      (shortPool.updateSeqLength smallConfig 0 8).1 = .ok false ∧
      (shortPool.updateSeqLength smallConfig 0 9).1 = .error .exceedLimit :=
  ⟨growth_exactOrUnchanged (.getCache 0 3 (.init (SpanManager.init 3))), by rfl, by rfl, by rfl⟩

end VirtualCache

end DashInfer.Cache
