import DashInfer.Cache.Growth
import DashInfer.Cache.Replay
import DashInfer.Weight.Tensor

/-!
The frames of a decode step. `AllocDecoderMemory` counts the requests whose
last span is full and asks for one frame for each of their layers, K and V.
The step then grows every layer of every request by one token, request by
request and, with the concurrent span manager, the layers beside each other.
-/

namespace DashInfer.Cache

open Lib CacheUnion PrefixCacheManager

variable {E : OrderedSet NodeId} {D : Type} {cfg : Config} {s t : State E D}

/-- What a worker is built with. -/
structure CacheSetup where
  device : Weight.DeviceType
  cacheFrameManager : Bool
  prefixCacheManager : Bool

/-- Whether the worker keeps its requests' caches in spans. -/
def CacheSetup.spanned (w : CacheSetup) : Bool := w.device = .cuda && w.cacheFrameManager

namespace AsModel

/-- The body of the loop in `AllocDecoderMemory`. -/
def countNewSpan (cfg : Config) (newSpanBatch : Nat) (r : ReqId) : Prog E D Nat := do
  let s ← get
  match (s.gpu.ctx r).virtualK[0]? with
  | none => throw .badIndex
  | some a =>
      let lengthNow := a.seqLength
      pure (if lengthNow % cfg.tokenPerSpan = 0 then newSpanBatch + 1 else newSpanBatch)

/-- `AsModel::AllocDecoderMemory`. The memory error is the one that the engine
does not tell from a cache that ran out. -/
def allocDecoderMemory (cfg : Config) (w : CacheSetup) (genCtxList : List ReqId) (now : Nat) :
    Prog E D Unit := do
  if w.spanned then
    let newSpanBatch ← foldEach (countNewSpan cfg) 0 genCtxList
    let decoderFrame : Int := cfg.layerNum * 2 * newSpanBatch
    let s ← get
    if s.gpu.union.countFreeFrame < decoderFrame ∧ w.prefixCacheManager then
      evictUnrefered cfg decoderFrame now
    else pure ()
    let s ← get
    if s.gpu.union.countFreeFrame < decoderFrame then throw .memoryOut else pure ()
  else pure ()

/-- `SpanAttnOp::Alloc` of one layer in a decode step; `step` is what the
requests' contexts have counted. `MLAAttnOp::Alloc` does the same without the
check. -/
def spanAttnAlloc (cfg : Config) (step : ReqId → Nat) (genCtxList : List ReqId) (layer : Nat) :
    Prog E D Unit :=
  forEach (fun r => do
    let s ← get
    let lengthOf := fun (layers : List CacheArray) => layers[layer]?.map CacheArray.seqLength
    if lengthOf (s.gpu.ctx r).virtualK = some (step r) ∧
        lengthOf (s.gpu.ctx r).virtualV = some (step r) then
      getCache cfg r false layer 1
      getCache cfg r true layer 1
    else throw .runtimeError) genCtxList

/-- The allocation part of `GenerateContinueDecoder`, one layer after the
other. -/
def decoderAlloc (cfg : Config) (w : CacheSetup) (step : ReqId → Nat) (genCtxList : List ReqId) :
    Prog E D Unit :=
  if w.spanned then forEach (spanAttnAlloc cfg step genCtxList) (List.range cfg.layerNum)
  else pure ()

end AsModel

/-- One layer of one request grows by a token. -/
structure GrowCall where
  r : ReqId
  isV : Bool
  layer : Nat
deriving DecidableEq

namespace GrowCall

def array (g : GpuSide E D) (c : GrowCall) : Option CacheArray :=
  ((g.ctx c.r).layers c.isV)[c.layer]?

def run (cfg : Config) (c : GrowCall) : Prog E D Unit := getCache cfg c.r c.isV c.layer 1

/-- The layer's last span is full. -/
def needsSpan (cfg : Config) (g : GpuSide E D) (c : GrowCall) : Bool :=
  (c.array g).any (fun a => a.seqLength % cfg.tokenPerSpan = 0)

end GrowCall

/-- The calls one layer makes in a decode step. -/
def layerCalls (genCtxList : List ReqId) (layer : Nat) : List GrowCall :=
  genCtxList.flatMap (fun r => [⟨r, false, layer⟩, ⟨r, true, layer⟩])

/-- The calls of a decode step. -/
def decoderCalls (cfg : Config) (w : CacheSetup) (genCtxList : List ReqId) : List GrowCall :=
  if w.spanned then (List.range cfg.layerNum).flatMap (layerCalls genCtxList) else []

/-- The faults of calls made in the given order, each in the state the one
before it left, whether or not it failed. -/
def growFaults (cfg : Config) : List GrowCall → State E D → List Fault
  | [], _ => []
  | c :: rest, s =>
      match (c.run cfg).run s with
      | .ok _ t => growFaults cfg rest t
      | .error e t => e :: growFaults cfg rest t

/-- A request between two steps of the engine. Its layers hold the spans that
their lengths need, and all of them are at the same place of their last
span. -/
structure GenCtx.Aligned (cfg : Config) (c : GenCtx D) : Prop where
  spanCount : ∀ a ∈ c.arrays, a.cache.length = spansFor cfg a.seqLength
  inStep : ∀ a ∈ c.arrays, ∀ b ∈ c.arrays,
    a.seqLength % cfg.tokenPerSpan = b.seqLength % cfg.tokenPerSpan

/-- An array that grows keeps to the spans its length needs. -/
theorem CacheArray.spanCount_of_grown {a a' : CacheArray} {increment : Nat} {m m' : SpanManager}
    (h : a.cache.length = spansFor cfg a.seqLength)
    (hrun : a.getCachePtrVec cfg increment m = (.ok a', m')) :
    a'.cache.length = spansFor cfg a'.seqLength := by
  rw [(getCachePtrVec_ok hrun).1]
  unfold getCachePtrVec at hrun
  split at hrun
  · next hzero =>
      cases hrun
      rw [hzero, Nat.add_zero, h]
  · next hinc =>
      have hmono := spansFor_mono cfg (Nat.le_add_right a.seqLength increment)
      unfold updateSeqLength at hrun
      rw [if_neg (by omega), if_neg (by omega)] at hrun
      dsimp only at hrun
      rw [← h] at hmono
      split at hrun
      · next hover =>
          cases hrun
          split at hover
          · cases hover
          · split at hover
            · next hfew =>
                split at hover
                · cases hover
                · next spans m'' hclaim =>
                    cases hover
                    rw [List.length_append, SpanManager.claimSpan_length hclaim]
                    exact Nat.add_sub_cancel' hmono
            · next hmany =>
                cases hover
                exact Nat.le_antisymm hmono (Nat.not_lt.mp hmany)
      · cases hrun
      · cases hrun

namespace GenCtx.Aligned

variable {c c' : GenCtx D}

theorem newCtx (layers : Nat) (source : Nat → Nat → D) :
    (PrefixCacheManager.newCtx layers source).Aligned cfg := by
  have hempty : ∀ a ∈ (PrefixCacheManager.newCtx layers source).arrays, a = CacheArray.empty := by
    intro a ha
    rcases List.mem_append.mp ha with ha | ha <;> exact List.eq_of_mem_replicate ha
  refine ⟨fun a ha => ?_, fun a ha b hb => ?_⟩
  · rw [hempty a ha]
    exact (CacheArray.exact_empty cfg (SpanManager.init 0)).spanCount
  · rw [hempty a ha, hempty b hb]

/-- What `RefFill` placed is aligned. -/
theorem of_filled {nodes : NodeId → PrefixNode} {list : List NodeId}
    (h : Filled cfg nodes c list) : c.Aligned cfg := by
  have hlength : ∀ a ∈ c.arrays, a.seqLength = list.length * cfg.tokenPerSpan := by
    intro a ha
    rcases List.mem_append.mp ha with ha | ha
    · rw [h.k.seqLength a ha, List.length_map]
    · rw [h.v.seqLength a ha, List.length_map]
  refine ⟨fun a ha => ?_, fun a ha b hb => ?_⟩
  · rw [h.length ha, hlength a ha, spansFor_mul]
  · rw [hlength a ha, hlength b hb]

/-- A forward pass that grew every layer by the same number of tokens keeps
the layers in step. -/
theorem grown {increment : Nat} (h : c.Aligned cfg)
    (hgrown : List.Forall₂ (fun a a' => ∃ m m',
      a.getCachePtrVec cfg increment m = (.ok a', m')) c.arrays c'.arrays) : c'.Aligned cfg := by
  have heach : ∀ a' ∈ c'.arrays, ∃ a ∈ c.arrays, a'.seqLength = a.seqLength + increment ∧
      a'.cache.length = spansFor cfg a'.seqLength := by
    intro a' ha'
    obtain ⟨i, hi, rfl⟩ := List.getElem_of_mem ha'
    have hi' : i < c.arrays.length := by
      rw [hgrown.length_eq]
      exact hi
    obtain ⟨m, m', hrun⟩ := hgrown.get hi' hi
    refine ⟨_, List.getElem_mem hi', (CacheArray.getCachePtrVec_ok hrun).1, ?_⟩
    exact CacheArray.spanCount_of_grown (h.spanCount _ (List.getElem_mem hi')) hrun
  refine ⟨fun a' ha' => (heach a' ha').choose_spec.2.2, ?_⟩
  intro a' ha' b' hb'
  obtain ⟨a, ha, hseq, _⟩ := heach a' ha'
  obtain ⟨b, hb, hseq', _⟩ := heach b' hb'
  rw [hseq, hseq', Nat.add_mod, h.inStep a ha b hb, ← Nat.add_mod]

end GenCtx.Aligned

/-- One more token needs one more span exactly when the last one is full. -/
theorem spansFor_succ (cfg : Config) (n : Nat) :
    spansFor cfg (n + 1) = if n % cfg.tokenPerSpan = 0 then spansFor cfg n + 1
      else spansFor cfg n := by
  have hpos := cfg.tokenPerSpan_pos
  obtain ⟨q, k, hk, rfl⟩ : ∃ q k, k < cfg.tokenPerSpan ∧ n = k + q * cfg.tokenPerSpan := by
    refine ⟨n / cfg.tokenPerSpan, n % cfg.tokenPerSpan, Nat.mod_lt _ hpos, ?_⟩
    rw [Nat.mul_comm]
    exact (Nat.mod_add_div n cfg.tokenPerSpan).symm
  have hspans : ∀ j, spansFor cfg (j + q * cfg.tokenPerSpan) =
      (j + cfg.tokenPerSpan - 1) / cfg.tokenPerSpan + q := by
    intro j
    unfold spansFor
    rw [← Nat.add_mul_div_right _ _ hpos]
    congr 1
    omega
  rw [Nat.add_mul_mod_self_right, Nat.mod_eq_of_lt hk, hspans,
    show k + q * cfg.tokenPerSpan + 1 = (k + 1) + q * cfg.tokenPerSpan by omega, hspans]
  rcases Nat.eq_zero_or_pos k with rfl | hk0
  · have hone : (0 + 1 + cfg.tokenPerSpan - 1) / cfg.tokenPerSpan = 1 := by
      rw [show 0 + 1 + cfg.tokenPerSpan - 1 = cfg.tokenPerSpan by omega]
      exact Nat.div_self hpos
    have hzero : (0 + cfg.tokenPerSpan - 1) / cfg.tokenPerSpan = 0 := Nat.div_eq_of_lt (by omega)
    rw [hone, hzero, if_pos rfl]
    omega
  · have hsame : ∀ j, 0 < j → j ≤ cfg.tokenPerSpan →
        (j + cfg.tokenPerSpan - 1) / cfg.tokenPerSpan = 1 := by
      intro j hj hle
      refine Nat.div_eq_of_lt_le ?_ ?_ <;> omega
    rw [hsame k hk0 (by omega), hsame (k + 1) (by omega) hk, if_neg (by omega)]

/-- What one more token does to an array: the pool gives one frame if the last
span is full, and only then can the frames run out. -/
theorem CacheArray.grow_cases {a : CacheArray} (h : a.cache.length = spansFor cfg a.seqLength)
    (m : SpanManager) :
    (∃ e, a.getCachePtrVec cfg 1 m = (.error e, m) ∧
        (e = .memoryOut → a.seqLength % cfg.tokenPerSpan = 0 ∧
          m.frameManager.freeFrames.length = 0)) ∨
      ∃ a' m', a.getCachePtrVec cfg 1 m = (.ok a', m') ∧
        m.frameManager.freeFrames.length ≤ m'.frameManager.freeFrames.length +
          if a.seqLength % cfg.tokenPerSpan = 0 then 1 else 0 := by
  have hneed : (a.seqLength + 1 + cfg.tokenPerSpan - 1) / cfg.tokenPerSpan =
      if a.seqLength % cfg.tokenPerSpan = 0 then a.cache.length + 1 else a.cache.length := by
    rw [h]
    exact spansFor_succ cfg a.seqLength
  unfold getCachePtrVec updateSeqLength
  rw [if_neg (by omega), if_neg (by omega), if_neg (by omega)]
  simp only [hneed]
  split_ifs with hfull hlimit hlt hlimit hlt
  · exact Or.inl ⟨.exceedLimit, rfl, fun he => by cases he⟩
  · rw [Nat.add_sub_cancel_left]
    cases hclaim : m.claimSpan 1 with
    | mk spans m' =>
        cases spans with
        | none =>
            have hshort := SpanManager.claimSpan_none_lt hclaim
            rw [SpanManager.claimSpan_none hclaim]
            exact Or.inl ⟨.memoryOut, rfl, fun _ => ⟨hfull, by omega⟩⟩
        | some spans =>
            have hclaimed := SpanManager.claimSpan_some hclaim
            have hqueue := congrArg List.length hclaimed.queue_eq
            rw [List.length_append, List.length_map, hclaimed.length_eq] at hqueue
            exact Or.inr ⟨_, m', rfl, by omega⟩
  · omega
  · exact Or.inl ⟨.exceedLimit, rfl, fun he => by cases he⟩
  · omega
  · exact Or.inr ⟨_, m, rfl, Nat.le_refl _⟩

/-- The calls still to come find their layers with the spans these need, and
a frame for each full one. -/
structure Provided (cfg : Config) (g : GpuSide E D) (calls : List GrowCall) : Prop where
  spanCount : ∀ c ∈ calls, ∀ a, c.array g = some a → a.cache.length = spansFor cfg a.seqLength
  room : calls.countP (GrowCall.needsSpan cfg g) ≤
    g.union.spanManager.frameManager.freeFrames.length

/-- A call leaves the layers of the other calls. -/
theorem GrowCall.array_withLayer {c c' : GrowCall} (hne : c' ≠ c) (a : CacheArray)
    (m : SpanManager) : c'.array (s.withLayer c.r c.isV c.layer a m).gpu = c'.array s.gpu := by
  unfold GrowCall.array State.withLayer
  by_cases hr : c'.r = c.r
  · rw [hr, GpuSide.updateCtx_self]
    unfold GenCtx.setLayer GenCtx.layers
    by_cases hside : c'.isV = c.isV
    · have hlayer : c.layer ≠ c'.layer := by
        intro hlayer
        apply hne
        cases c
        cases c'
        simp_all
      rw [hside]
      cases c.isV <;> simp [List.getElem?_set_ne hlayer]
    · cases hc : c.isV <;> cases hc' : c'.isV <;> simp_all
  · rw [GpuSide.updateCtx_of_ne hr]

/-- One call of a step that is provided for does not lack a frame, and the
calls after it are provided for. -/
theorem Provided.post_run {c : GrowCall} {rest : List GrowCall}
    (h : Provided cfg s.gpu (c :: rest)) (hc : c ∉ rest) :
    Post (c.run cfg) s (fun _ t => Provided cfg t.gpu rest)
      (fun e t => e ≠ .memoryOut ∧ Provided cfg t.gpu rest) := by
  have hroom := h.room
  rw [List.countP_cons] at hroom
  have hrest : Provided cfg s.gpu rest :=
    ⟨fun c' hc' => h.spanCount c' (List.mem_cons_of_mem _ hc'), by omega⟩
  unfold GrowCall.run
  cases hget : c.array s.gpu with
  | none =>
      unfold GrowCall.array GenCtx.layers at hget
      unfold getCache
      rw [post_bind, post_get]
      simp only [hget]
      exact ⟨by decide, hrest⟩
  | some a =>
      have hneeds : c.needsSpan cfg s.gpu = decide (a.seqLength % cfg.tokenPerSpan = 0) := by
        simp [GrowCall.needsSpan, hget]
      rw [post_getCache_iff 1 hget]
      rcases CacheArray.grow_cases (h.spanCount c (List.mem_cons_self ..) a hget)
        s.gpu.union.spanManager with ⟨e, hrun, hout⟩ | ⟨a', m', hrun, hframes⟩
      · rw [hrun]
        refine ⟨?_, hrest⟩
        intro he
        obtain ⟨hfull, hempty⟩ := hout he
        rw [hneeds, decide_eq_true hfull] at hroom
        simp at hroom
        omega
      · rw [hrun]
        have harray : ∀ c' ∈ rest, c'.array (s.withLayer c.r c.isV c.layer a' m').gpu =
            c'.array s.gpu := by
          intro c' hc'
          apply GrowCall.array_withLayer
          rintro rfl
          exact hc hc'
        refine ⟨fun c' hc' b hb => ?_, ?_⟩
        · rw [harray c' hc'] at hb
          exact h.spanCount c' (List.mem_cons_of_mem _ hc') b hb
        · have hsame :
              rest.countP (GrowCall.needsSpan cfg (s.withLayer c.r c.isV c.layer a' m').gpu) =
                rest.countP (GrowCall.needsSpan cfg s.gpu) := by
            apply List.countP_congr
            intro c' hc'
            unfold GrowCall.needsSpan
            rw [harray c' hc']
          rw [hsame]
          change _ ≤ m'.frameManager.freeFrames.length
          rw [hneeds] at hroom
          by_cases hfull : a.seqLength % cfg.tokenPerSpan = 0 <;> simp [hfull] at hroom hframes <;>
            omega

theorem Provided.no_memoryOut {calls : List GrowCall} (h : Provided cfg s.gpu calls)
    (hnodup : calls.Nodup) : .memoryOut ∉ growFaults cfg calls s := by
  induction calls generalizing s with
  | nil => simp [growFaults]
  | cons c rest ih =>
      obtain ⟨hc, hnodup⟩ := List.nodup_cons.mp hnodup
      have hpost := h.post_run hc
      unfold growFaults
      cases hrun : (c.run cfg).run s with
      | ok u t => exact ih (hpost.of_ok hrun) hnodup
      | error e t =>
          obtain ⟨hne, hrest⟩ := hpost.of_error hrun
          rw [List.mem_cons, not_or]
          exact ⟨hne.symm, ih hrest hnodup⟩

/-- A loop whose passes make the calls `f`, on a step that is provided for. -/
theorem Provided.post_forEach {α : Type} {p : α → Prog E D Unit} {f : α → List GrowCall}
    (hp : ∀ x rest (s : State E D), Provided cfg s.gpu (f x ++ rest) → (f x ++ rest).Nodup →
      Post (p x) s (fun _ t => Provided cfg t.gpu rest) (fun e _ => e ≠ .memoryOut))
    (xs : List α) (rest : List GrowCall) (h : Provided cfg s.gpu (xs.flatMap f ++ rest))
    (hnodup : (xs.flatMap f ++ rest).Nodup) :
    Post (forEach p xs) s (fun _ t => Provided cfg t.gpu rest) (fun e _ => e ≠ .memoryOut) := by
  induction xs generalizing s with
  | nil => exact h
  | cons x xs ih =>
      rw [List.flatMap_cons, List.append_assoc] at h hnodup
      rw [forEach, post_bind]
      apply (hp x _ s h hnodup).imp _ (fun _ _ he => he)
      intro _ t ht
      exact ih ht (List.nodup_append.mp hnodup).2.1

theorem Provided.post_spanAttnAlloc {step : ReqId → Nat} {genCtxList : List ReqId} (layer : Nat)
    (rest : List GrowCall) (h : Provided cfg s.gpu (layerCalls genCtxList layer ++ rest))
    (hnodup : (layerCalls genCtxList layer ++ rest).Nodup) :
    Post (AsModel.spanAttnAlloc cfg step genCtxList layer) s
      (fun _ t => Provided cfg t.gpu rest) (fun e _ => e ≠ .memoryOut) := by
  apply Provided.post_forEach _ genCtxList rest h hnodup
  intro r rest s h hnodup
  obtain ⟨hk, hnodup⟩ := List.nodup_cons.mp hnodup
  obtain ⟨hv, _⟩ := List.nodup_cons.mp hnodup
  rw [post_bind, post_get]
  dsimp only
  split
  · rw [post_bind]
    apply (h.post_run hk).imp _ (fun _ _ he => he.1)
    intro _ t ht
    exact (ht.post_run hv).imp (fun _ _ hu => hu) (fun _ _ he => he.1)
  · simp

theorem Provided.post_decoderAlloc {w : CacheSetup} {step : ReqId → Nat} {genCtxList : List ReqId}
    (h : Provided cfg s.gpu (decoderCalls cfg w genCtxList))
    (hnodup : (decoderCalls cfg w genCtxList).Nodup) :
    Post (AsModel.decoderAlloc cfg w step genCtxList) s (fun _ _ => True)
      (fun e _ => e ≠ .memoryOut) := by
  unfold AsModel.decoderAlloc
  unfold decoderCalls at h hnodup
  split
  · next hw =>
      rw [if_pos hw] at h hnodup
      rw [← List.append_nil (List.flatMap _ _)] at h hnodup
      apply (Provided.post_forEach (fun layer rest _ h hnodup =>
        h.post_spanAttnAlloc layer rest hnodup) _ [] h hnodup).imp (fun _ _ _ => trivial)
        (fun _ _ he => he)
  · simp

/-- A request's first K layer is at the end of a span. -/
def spanFull (cfg : Config) (g : GpuSide E D) (r : ReqId) : Bool :=
  ((g.ctx r).virtualK[0]?).any (fun a => a.seqLength % cfg.tokenPerSpan = 0)

/-- In a request whose layers are in step, a full layer shows in the first. -/
theorem GenCtx.Aligned.spanFull {r : ReqId} (h : (s.gpu.ctx r).Aligned cfg) {isV : Bool}
    {layer : Nat} (hlayer : 0 < (s.gpu.ctx r).virtualK.length)
    (hneeds : GrowCall.needsSpan cfg s.gpu ⟨r, isV, layer⟩ = true) :
    spanFull cfg s.gpu r = true := by
  unfold GrowCall.needsSpan GrowCall.array at hneeds
  obtain ⟨a, hget, hfull⟩ := (Option.any_eq_true ..).mp hneeds
  have hfirst := List.getElem?_eq_getElem hlayer
  have ha : a ∈ (s.gpu.ctx r).arrays := by
    unfold GenCtx.layers at hget
    cases isV with
    | true => exact List.mem_append_right _ (List.mem_of_getElem? hget)
    | false => exact List.mem_append_left _ (List.mem_of_getElem? hget)
  have hstep := h.inStep _ (List.mem_append_left _ (List.mem_of_getElem? hfirst)) a ha
  unfold DashInfer.Cache.spanFull
  rw [hfirst]
  simpa [hstep] using hfull

/-- One layer needs at most two spans for each request that is counted. -/
theorem countP_layerCalls {genCtxList : List ReqId} (layer : Nat)
    (h : ∀ r ∈ genCtxList, (s.gpu.ctx r).Aligned cfg ∧ 0 < (s.gpu.ctx r).virtualK.length) :
    (layerCalls genCtxList layer).countP (GrowCall.needsSpan cfg s.gpu) ≤
      2 * genCtxList.countP (spanFull cfg s.gpu) := by
  induction genCtxList with
  | nil => simp [layerCalls]
  | cons r rest ih =>
      have hrest := ih (fun q hq => h q (List.mem_cons_of_mem _ hq))
      obtain ⟨haligned, hlayer⟩ := h r (List.mem_cons_self ..)
      have hcons : layerCalls (r :: rest) layer =
          ⟨r, false, layer⟩ :: ⟨r, true, layer⟩ :: layerCalls rest layer := rfl
      rw [hcons]
      simp only [List.countP_cons]
      by_cases hfull : spanFull cfg s.gpu r = true
      · rw [if_pos hfull]
        split_ifs <;> omega
      · have hnone : ∀ isV, ¬ GrowCall.needsSpan cfg s.gpu ⟨r, isV, layer⟩ = true :=
          fun isV hneeds => hfull (haligned.spanFull hlayer hneeds)
        rw [if_neg (hnone false), if_neg (hnone true), if_neg hfull]
        exact hrest

theorem countP_decoderCalls {w : CacheSetup} {genCtxList : List ReqId}
    (h : ∀ r ∈ genCtxList, (s.gpu.ctx r).Aligned cfg ∧ 0 < (s.gpu.ctx r).virtualK.length) :
    (decoderCalls cfg w genCtxList).countP (GrowCall.needsSpan cfg s.gpu) ≤
      cfg.layerNum * 2 * genCtxList.countP (spanFull cfg s.gpu) := by
  unfold decoderCalls
  split
  · induction cfg.layerNum with
    | zero => simp
    | succ n ih =>
        rw [List.range_succ, List.flatMap_append, List.countP_append, List.flatMap_singleton]
        have hlayer := countP_layerCalls n h
        rw [Nat.mul_assoc, Nat.succ_mul, ← Nat.mul_assoc]
        omega
  · simp

namespace AsModel

/-- The loop counts the requests whose first K layer is full. -/
theorem post_countNewSpans (genCtxList : List ReqId) (count : Nat) :
    Post (foldEach (countNewSpan cfg) count genCtxList) s
      (fun newSpanBatch t => t = s ∧
        newSpanBatch = count + genCtxList.countP (spanFull cfg s.gpu) ∧
        ∀ r ∈ genCtxList, 0 < (s.gpu.ctx r).virtualK.length)
      (fun _ _ => True) := by
  induction genCtxList generalizing count with
  | nil => simp [foldEach]
  | cons r rest ih =>
      rw [foldEach, post_bind]
      unfold countNewSpan
      rw [post_bind, post_get]
      cases hget : (s.gpu.ctx r).virtualK[0]? with
      | none => simp
      | some a =>
          have hlength : 0 < (s.gpu.ctx r).virtualK.length :=
            (List.getElem?_eq_some_iff.mp hget).1
          simp only [post_pure]
          apply (ih _).imp _ (fun _ _ he => he)
          rintro newSpanBatch t ⟨rfl, hcount, hlayers⟩
          refine ⟨rfl, ?_, ?_⟩
          · rw [hcount, List.countP_cons]
            simp only [spanFull, hget, Option.any_some, decide_eq_true_eq]
            split <;> omega
          · intro q hq
            rcases List.mem_cons.mp hq with rfl | hq
            · exact hlength
            · exact hlayers q hq

/-- A frame for every layer of every request that is counted is enough. -/
theorem provided_of_free {w : CacheSetup} {genCtxList : List ReqId}
    (h : ∀ r ∈ genCtxList, (s.gpu.ctx r).Aligned cfg ∧ 0 < (s.gpu.ctx r).virtualK.length)
    (hcount : s.gpu.union.countFreeFrame = s.gpu.union.spanManager.frameManager.freeFrames.length)
    (hfree : ¬ s.gpu.union.countFreeFrame <
      cfg.layerNum * 2 * (genCtxList.countP (spanFull cfg s.gpu) : Int)) :
    Provided cfg s.gpu (decoderCalls cfg w genCtxList) := by
  refine ⟨?_, ?_⟩
  · intro c hc a hget
    have hr : c.r ∈ genCtxList := by
      unfold decoderCalls at hc
      split at hc
      · obtain ⟨layer, _, hc⟩ := List.mem_flatMap.mp hc
        obtain ⟨r, hr, hc⟩ := List.mem_flatMap.mp hc
        simp only [List.mem_cons, List.not_mem_nil, or_false] at hc
        rcases hc with rfl | rfl <;> exact hr
      · cases hc
    apply (h c.r hr).1.spanCount
    unfold GrowCall.array GenCtx.layers at hget
    split at hget
    · exact List.mem_append_right _ (List.mem_of_getElem? hget)
    · exact List.mem_append_left _ (List.mem_of_getElem? hget)
  · apply (countP_decoderCalls h).trans
    rw [hcount] at hfree
    have hle := Int.not_lt.mp hfree
    exact_mod_cast hle

/-- Once the memory check has passed, the decode step is provided for. -/
theorem post_allocDecoderMemory (h : Inv cfg (Premise.none D) s Settled) (w : CacheSetup)
    (genCtxList : List ReqId) (now : Nat)
    (haligned : ∀ r ∈ genCtxList, (s.gpu.ctx r).Aligned cfg) :
    Post (allocDecoderMemory cfg w genCtxList now) s
      (fun _ t => Provided cfg t.gpu (decoderCalls cfg w genCtxList)) (fun _ _ => True) := by
  unfold allocDecoderMemory
  split
  · rw [post_bind]
    apply (post_countNewSpans genCtxList 0).imp _ (fun _ _ he => he)
    rintro newSpanBatch t ⟨rfl, hcount, hlayers⟩
    rw [Nat.zero_add] at hcount
    simp only [post_bind, post_get]
    have hchecked : ∀ u : State E D, u.gpu.ctx = t.gpu.ctx → Inv cfg (Premise.none D) u Settled →
        Post (if u.gpu.union.countFreeFrame < cfg.layerNum * 2 * (newSpanBatch : Int) then
            throw .memoryOut else pure () : Prog E D Unit) u
          (fun _ v => Provided cfg v.gpu (decoderCalls cfg w genCtxList)) (fun _ _ => True) := by
      intro u hctx hu
      split
      · simp
      · next hfree =>
          rw [hcount] at hfree
          rw [← hctx] at haligned hlayers
          have hsame : spanFull cfg t.gpu = spanFull cfg u.gpu := by
            unfold spanFull
            rw [hctx]
          rw [hsame] at hfree
          exact provided_of_free (fun r hr => ⟨haligned r hr, hlayers r hr⟩)
            hu.gpu.wf.owned.count_eq hfree
    split
    · unfold evictUnrefered
      simp only [post_bind, post_get]
      apply (post_evictUnreferedByNum _ now h).imp _ (fun _ _ _ => trivial)
      rintro _ u ⟨hu, hshrunk, _⟩
      exact hchecked u hshrunk.ctx hu
    · exact hchecked t rfl h
  · next hw =>
      rw [post_pure]
      unfold decoderCalls
      rw [if_neg hw]
      refine ⟨fun c hc => ?_, ?_⟩
      · cases hc
      · exact Nat.zero_le _

end AsModel

theorem nodup_layerCalls {genCtxList : List ReqId} (h : genCtxList.Nodup) (layer : Nat) :
    (layerCalls genCtxList layer).Nodup := by
  induction genCtxList with
  | nil => simp [layerCalls]
  | cons r rest ih =>
      obtain ⟨hr, hrest⟩ := List.nodup_cons.mp h
      have hcons : layerCalls (r :: rest) layer =
          ⟨r, false, layer⟩ :: ⟨r, true, layer⟩ :: layerCalls rest layer := rfl
      have hnot : ∀ isV, (⟨r, isV, layer⟩ : GrowCall) ∉ layerCalls rest layer := by
        intro isV hmem
        obtain ⟨q, hq, hmem⟩ := List.mem_flatMap.mp hmem
        simp only [List.mem_cons, List.not_mem_nil, or_false, GrowCall.mk.injEq] at hmem
        rcases hmem with ⟨rfl, _⟩ | ⟨rfl, _⟩ <;> exact hr hq
      rw [hcons, List.nodup_cons, List.nodup_cons, List.mem_cons, not_or]
      exact ⟨⟨by simp, hnot false⟩, hnot true, ih hrest⟩

theorem nodup_decoderCalls (cfg : Config) (w : CacheSetup) {genCtxList : List ReqId}
    (h : genCtxList.Nodup) : (decoderCalls cfg w genCtxList).Nodup := by
  unfold decoderCalls
  split
  · rw [List.nodup_flatMap]
    refine ⟨fun layer _ => nodup_layerCalls h layer, ?_⟩
    apply List.nodup_range.imp
    intro layer layer' hne c hc hc'
    obtain ⟨r, _, hc⟩ := List.mem_flatMap.mp hc
    obtain ⟨r', _, hc'⟩ := List.mem_flatMap.mp hc'
    simp only [List.mem_cons, List.not_mem_nil, or_false] at hc hc'
    rcases hc with rfl | rfl <;> rcases hc' with hc' | hc' <;> cases hc' <;> exact hne rfl
  · exact List.nodup_nil

/-- The calls of one decode step, some or all of them, each at most once and
in any order: what a schedule of the layers lets happen, whether or not calls
fail. -/
def StepOrder (cfg : Config) (w : CacheSetup) (genCtxList : List ReqId)
    (calls : List GrowCall) : Prop :=
  calls.Nodup ∧ calls ⊆ decoderCalls cfg w genCtxList

theorem Provided.of_stepOrder {g : GpuSide E D} {w : CacheSetup} {genCtxList : List ReqId}
    {calls : List GrowCall} (h : Provided cfg g (decoderCalls cfg w genCtxList))
    (horder : StepOrder cfg w genCtxList calls) : Provided cfg g calls where
  spanCount c hc := h.spanCount c (horder.2 hc)
  room := ((horder.1.subperm horder.2).countP_le _).trans h.room

/-- If `AllocDecoderMemory` succeeds in some reachable state, for running
requests of any lengths, then no call of the decode step after it fails for
lack of frames: not in the order of the loops, and not in any other. -/
theorem decodeStep_not_memoryOut (h : Reachable cfg s) (w : CacheSetup) {genCtxList : List ReqId}
    (hnodup : genCtxList.Nodup) (haligned : ∀ r ∈ genCtxList, (s.gpu.ctx r).Aligned cfg)
    (schedule : List (List Nat)) (now : Nat)
    (halloc : (AsModel.allocDecoderMemory cfg w genCtxList now).run { s with schedule } =
      .ok () t) :
    (∀ calls, StepOrder cfg w genCtxList calls → .memoryOut ∉ growFaults cfg calls t) ∧
      ∀ step e u, (AsModel.decoderAlloc cfg w step genCtxList).run t = .error e u →
        e ≠ .memoryOut := by
  have hinv := (inv_of_reachable h).withSchedule schedule
  have hprovided := (AsModel.post_allocDecoderMemory hinv w genCtxList now haligned).of_ok halloc
  have hcalls := nodup_decoderCalls cfg w hnodup
  refine ⟨?_, ?_⟩
  · intro calls horder
    exact (hprovided.of_stepOrder horder).no_memoryOut horder.1
  · intro step e u hrun
    exact (hprovided.post_decoderAlloc hcalls).of_error hrun

/-- A worker on a GPU with both managers. -/
def fullSetup : CacheSetup where
  device := .cuda
  cacheFrameManager := true
  prefixCacheManager := true

/-- A request that has just filled its first span. -/
def oneFullSpan : List (Call Nat) :=
  [ .alone (.start 1 (firstTokens 16) (firstTokens 16) blockContent 1 1)
    , .alone (.getCache 1 false 0 16)
    , .alone (.getCache 1 true 0 16) ]

theorem decodeStep_oneFullSpan : ∃ s t : State (listSet NodeId) Nat, Reachable oneLayer s ∧
    (s.gpu.ctx 1).arrays.map CacheArray.seqLength = [16, 16] ∧
    (AsModel.allocDecoderMemory oneLayer fullSetup [1] 2).run { s with schedule := [] } =
      .ok () t ∧
    (∀ calls, StepOrder oneLayer fullSetup [1] calls → .memoryOut ∉ growFaults oneLayer calls t) ∧
      ∀ step e u, (AsModel.decoderAlloc oneLayer fullSetup step [1]).run t = .error e u →
        e ≠ .memoryOut := by
  obtain ⟨s, hs, hp⟩ := exists_reachable oneLayer (Allowed oneLayer) 8 8 oneFullSpan
    (fun s => decide ((s.gpu.ctx 1).arrays.map CacheArray.seqLength = [16, 16] ∧
        ∀ a ∈ (s.gpu.ctx 1).arrays, a.cache.length = 1) &&
      returnsIn (fun _ => true)
        ((AsModel.allocDecoderMemory oneLayer fullSetup [1] 2).run { s with schedule := [] }))
    (by decide +kernel)
  rw [Bool.and_eq_true] at hp
  obtain ⟨hlayers, halloc⟩ := hp
  obtain ⟨hlengths, hspans⟩ := of_decide_eq_true hlayers
  obtain ⟨_, t, halloc, _⟩ := exists_ok halloc
  have hseq : ∀ a ∈ (s.gpu.ctx 1).arrays, a.seqLength = 16 := by
    intro a ha
    have hmem := List.mem_map_of_mem (f := CacheArray.seqLength) ha
    rw [hlengths] at hmem
    simpa using hmem
  have haligned : (s.gpu.ctx 1).Aligned oneLayer := by
    refine ⟨fun a ha => ?_, fun a ha b hb => ?_⟩
    · rw [hseq a ha, hspans a ha]
      rfl
    · rw [hseq a ha, hseq b hb]
  refine ⟨s, t, hs, hlengths, halloc, ?_⟩
  exact decodeStep_not_memoryOut hs fullSetup (List.nodup_singleton 1)
    (by simpa using haligned) [] 2 halloc

end DashInfer.Cache
