import DashInfer.Cache.Node

/-!
The virtual cache of a request: per layer a `CacheArray` of spans with its
sequence length and the table of frame addresses that the kernels read. Spans
are claimed as the sequence grows, or placed from outside by `fillCache`.
-/

namespace DashInfer.Cache

abbrev Token := Int

/-- What the manager is built with. -/
structure Config where
  layerNum : Nat
  tokenPerSpan : Nat
  maxLength : Nat
  maxBatch : Nat
  timeToLiveSec : Int
  hashTokens : List Token → Hash
  layerNum_pos : 0 < layerNum
  tokenPerSpan_pos : 0 < tokenPerSpan
  maxLength_pos : 0 < maxLength
  maxBatch_pos : 0 < maxBatch

namespace Config

def spanPerNode (cfg : Config) : Nat := 2 * cfg.layerNum

def maxNumSpans (cfg : Config) : Nat :=
  (cfg.maxLength + cfg.tokenPerSpan - 1) / cfg.tokenPerSpan

theorem maxNumSpans_pos (cfg : Config) : 0 < cfg.maxNumSpans := by
  have htps := cfg.tokenPerSpan_pos
  have hlen := cfg.maxLength_pos
  refine (Nat.le_div_iff_mul_le htps).mpr ?_
  omega

end Config

/-- The ways an operation can fail to return. A `blocked` operation waits for
pool tasks that the schedule never runs; `badIndex` is an unchecked access
outside a container. -/
inductive Fault where
  | outOfRange
  | lengthError
  | memoryOut
  | exceedLimit
  | runtimeError
  | badIndex
  | blocked
deriving DecidableEq, Repr

structure CacheArray where
  cache : List SpanId
  seqLength : Nat
  tlb : Nat → FrameId

namespace CacheArray

/-- A layer as `InitLayer` leaves it for an empty context. -/
def empty : CacheArray := { cache := [], seqLength := 0, tlb := fun _ => 0 }

/-- Writes the addresses of new spans behind the first `current` entries. -/
def writeTlb (tlb : Nat → FrameId) (current : Nat) (frames : List FrameId) : Nat → FrameId :=
  fun i => if current ≤ i then (frames[i - current]?).getD (tlb i) else tlb i

/-- `updateSeqLength`. The value is `none` when not enough spans can be
claimed; the array and the length then stay as they were. -/
def updateSeqLength (cfg : Config) (a : CacheArray) (newLength : Nat) (m : SpanManager) :
    Except Fault (Option CacheArray) × SpanManager :=
  if newLength = a.seqLength then (.ok (some a), m)
  else if newLength < a.seqLength then (.error .runtimeError, m)
  else
    let current := a.cache.length
    let need := (newLength + cfg.tokenPerSpan - 1) / cfg.tokenPerSpan
    if cfg.maxNumSpans < need then (.error .exceedLimit, m)
    else if current < need then
      match m.claimSpan (need - current) with
      | (none, m) => (.ok none, m)
      | (some spans, m) =>
          (.ok (some
            { cache := a.cache ++ spans
              seqLength := newLength
              tlb := writeTlb a.tlb current (spans.map m.frameOf) }), m)
    else (.ok (some { a with seqLength := newLength }), m)

/-- `GetCachePtrVec`: grows by `increment` tokens or throws. -/
def getCachePtrVec (cfg : Config) (a : CacheArray) (increment : Nat) (m : SpanManager) :
    Except Fault CacheArray × SpanManager :=
  if increment = 0 then (.ok a, m)
  else
    match a.updateSeqLength cfg (a.seqLength + increment) m with
    | (.ok (some a), m) => (.ok a, m)
    | (.ok none, m) => (.error .memoryOut, m)
    | (.error e, m) => (.error e, m)

/-- What growing an array can do: nothing, fail with the pool unchanged, or
append freshly claimed spans. -/
theorem getCachePtrVec_cases (cfg : Config) (a : CacheArray) (increment : Nat) (m : SpanManager) :
    (∃ e, a.getCachePtrVec cfg increment m = (.error e, m) ∧ e ≠ .blocked ∧ e ≠ .badIndex) ∨
      (∃ a', a.getCachePtrVec cfg increment m = (.ok a', m) ∧ a'.cache = a.cache) ∨
      ∃ a' m' spans count, a.getCachePtrVec cfg increment m = (.ok a', m') ∧
        m.claimSpan count = (some spans, m') ∧ a'.cache = a.cache ++ spans := by
  unfold getCachePtrVec
  split
  · exact Or.inr (Or.inl ⟨a, rfl, rfl⟩)
  · next hinc =>
      unfold updateSeqLength
      rw [if_neg (by omega), if_neg (by omega)]
      dsimp only
      split
      · next hover =>
          split at hover
          · cases hover
          · split at hover
            · split at hover
              · cases hover
              · next spans m' hclaim =>
                  cases hover
                  exact Or.inr (Or.inr ⟨_, _, spans, _, rfl, hclaim, rfl⟩)
            · cases hover
              exact Or.inr (Or.inl ⟨_, rfl, rfl⟩)
      · next hover =>
          split at hover
          · cases hover
          · split at hover
            · split at hover
              · next m' hclaim =>
                  cases hover
                  rw [SpanManager.claimSpan_none hclaim]
                  exact Or.inl ⟨_, rfl, by decide, by decide⟩
              · cases hover
            · cases hover
      · next hover =>
          split at hover
          · cases hover
            exact Or.inl ⟨_, rfl, by decide, by decide⟩
          · split at hover
            · split at hover <;> cases hover
            · cases hover

/-- An array that grows has spans for its new length. -/
theorem getCachePtrVec_ok {cfg : Config} {a a' : CacheArray} {increment : Nat}
    {m m' : SpanManager} (h : a.getCachePtrVec cfg increment m = (.ok a', m')) :
    a'.seqLength = a.seqLength + increment ∧
      (a.seqLength ≤ a.cache.length * cfg.tokenPerSpan →
        a'.seqLength ≤ a'.cache.length * cfg.tokenPerSpan) := by
  unfold getCachePtrVec at h
  split at h
  · next hzero =>
      cases h
      exact ⟨by omega, id⟩
  · next hinc =>
      have hpos := cfg.tokenPerSpan_pos
      have hneed : a.seqLength + increment ≤
          (a.seqLength + increment + cfg.tokenPerSpan - 1) / cfg.tokenPerSpan *
            cfg.tokenPerSpan := by
        have hdiv := Nat.div_add_mod (a.seqLength + increment + cfg.tokenPerSpan - 1)
          cfg.tokenPerSpan
        have hmod := Nat.mod_lt (a.seqLength + increment + cfg.tokenPerSpan - 1) hpos
        rw [Nat.mul_comm] at hdiv
        omega
      unfold updateSeqLength at h
      rw [if_neg (by omega), if_neg (by omega)] at h
      dsimp only at h
      split at h
      · next hover =>
          cases h
          split at hover
          · cases hover
          · split at hover
            · next hfew =>
                split at hover
                · cases hover
                · next spans m'' hclaim =>
                    cases hover
                    refine ⟨rfl, fun _ => ?_⟩
                    have hlen := (SpanManager.claimSpan_length hclaim)
                    dsimp only
                    rw [List.length_append, hlen, Nat.add_sub_cancel' (Nat.le_of_lt hfew)]
                    exact hneed
            · next hmany =>
                cases hover
                refine ⟨rfl, fun _ => ?_⟩
                exact Nat.le_trans hneed (Nat.mul_le_mul_right _ (Nat.not_lt.mp hmany))
      · cases h
      · cases h

/-- Growing a full array by one span's worth of tokens claims one span. -/
theorem getCachePtrVec_span (cfg : Config) (a : CacheArray) (m : SpanManager)
    (hseq : a.seqLength = a.cache.length * cfg.tokenPerSpan) :
    (∃ e, a.getCachePtrVec cfg cfg.tokenPerSpan m = (.error e, m)) ∨
      ∃ a' m', a.getCachePtrVec cfg cfg.tokenPerSpan m = (.ok a', m') ∧
        m.claimSpan 1 = (some [m.nextSpan], m') ∧ a'.cache = a.cache ++ [m.nextSpan] ∧
        a'.seqLength = a.seqLength + cfg.tokenPerSpan := by
  have hpos := cfg.tokenPerSpan_pos
  have hneed : (a.seqLength + cfg.tokenPerSpan + cfg.tokenPerSpan - 1) / cfg.tokenPerSpan =
      a.cache.length + 1 := by
    have hsum : a.seqLength + cfg.tokenPerSpan + cfg.tokenPerSpan - 1 =
        (cfg.tokenPerSpan - 1) + cfg.tokenPerSpan * (a.cache.length + 1) := by
      rw [hseq, Nat.mul_comm cfg.tokenPerSpan, Nat.succ_mul]
      omega
    rw [hsum, Nat.add_mul_div_left _ _ hpos, Nat.div_eq_of_lt (by omega), Nat.zero_add]
  unfold getCachePtrVec
  rw [if_neg (by omega)]
  unfold updateSeqLength
  rw [if_neg (by omega), if_neg (by omega)]
  dsimp only
  rw [hneed]
  by_cases hlimit : cfg.maxNumSpans < a.cache.length + 1
  · rw [if_pos hlimit]
    exact Or.inl ⟨_, rfl⟩
  · rw [if_neg hlimit, if_pos (Nat.lt_succ_self _), Nat.add_sub_cancel_left]
    cases hclaim : m.claimSpan 1 with
    | mk spans m' =>
        cases spans with
        | none =>
            rw [SpanManager.claimSpan_none hclaim]
            exact Or.inl ⟨_, rfl⟩
        | some spans =>
            obtain rfl := SpanManager.claimSpan_one hclaim
            exact Or.inr ⟨_, _, rfl, rfl, rfl, rfl⟩

end CacheArray

/-- `SpannedVirtualCache::FillCache`: one given span at the end of every layer,
with the address table written at the span count of the first layer. `none` is
an access past the node's spans or past the address table. -/
def fillCache (cfg : Config) (m : SpanManager) (layers : List CacheArray)
    (spans : List SpanId) : Option (List CacheArray) :=
  let current := (layers.head?.map (fun a => a.cache.length)).getD 0
  if spans.length < layers.length ∨ cfg.maxNumSpans ≤ current then none
  else
    some (List.zipWith (fun a span =>
      { cache := a.cache ++ [span]
        seqLength := (current + 1) * cfg.tokenPerSpan
        tlb := Function.update a.tlb current (m.frameOf span) }) layers spans)

end DashInfer.Cache
