import DashInfer.Cache.Evict

/-!
Filling a request's layers node by node. `FillCache` appends a table node's
spans and `alloc_gpu_node` appends newly claimed ones; either way every layer
grows by one span, and the layers stay lined up with a list of nodes.
-/

namespace DashInfer.Cache

open Lib CacheUnion PrefixCacheManager

variable {E : OrderedSet NodeId} {D : Type} {cfg : Config} {P : Premise D}

/-- Every array grew by the span beside it. -/
structure Appended (tokenPerSpan : Nat) (layers : List CacheArray) (spans : List SpanId)
    (layers' : List CacheArray) : Prop where
  length : spans.length = layers.length
  each : List.Forall₂ (fun (a : CacheArray × SpanId) (a' : CacheArray) =>
    a'.cache = a.1.cache ++ [a.2] ∧ a'.seqLength = a.1.seqLength + tokenPerSpan)
    (layers.zip spans) layers'

/-- The arrays of one kind hold, position by position, the given columns. -/
structure FilledSide (cfg : Config) (layers : List CacheArray) (columns : List (List SpanId)) :
    Prop where
  layerNum : layers.length = cfg.layerNum
  length : ∀ a ∈ layers, a.cache.length = columns.length
  seqLength : ∀ a ∈ layers, a.seqLength = columns.length * cfg.tokenPerSpan
  column : ∀ (k : Nat) spans, columns[k]? = some spans →
    layers.mapM (fun a => a.cache[k]?) = some spans

namespace Appended

variable {tokenPerSpan : Nat} {layers layers' : List CacheArray} {spans : List SpanId}

theorem nil (tokenPerSpan : Nat) : Appended tokenPerSpan [] [] [] := ⟨rfl, List.Forall₂.nil⟩

private theorem cons_inv {a : CacheArray} {rest : List CacheArray}
    (h : Appended tokenPerSpan (a :: rest) spans layers') :
    ∃ span spans' a' rest', spans = span :: spans' ∧ layers' = a' :: rest' ∧
      a'.cache = a.cache ++ [span] ∧ a'.seqLength = a.seqLength + tokenPerSpan ∧
      Appended tokenPerSpan rest spans' rest' := by
  obtain ⟨hlen, heach⟩ := h
  cases spans with
  | nil => simp at hlen
  | cons span spans' =>
      rw [List.zip_cons_cons] at heach
      cases heach with
      | cons hone hrest =>
          exact ⟨span, spans', _, _, rfl, rfl, hone.1, hone.2, by simpa using hlen, hrest⟩

theorem length_eq (h : Appended tokenPerSpan layers spans layers') :
    layers'.length = layers.length := by
  have hl := h.each.length_eq
  rw [List.length_zip, h.length] at hl
  omega

/-- One more array at the end. -/
theorem snoc (h : Appended tokenPerSpan layers spans layers') {a a' : CacheArray} {span : SpanId}
    (hcache : a'.cache = a.cache ++ [span]) (hseq : a'.seqLength = a.seqLength + tokenPerSpan) :
    Appended tokenPerSpan (layers ++ [a]) (spans ++ [span]) (layers' ++ [a']) where
  length := by
    have hl := h.length
    simp [hl]
  each := by
    rw [List.zip_append h.length.symm]
    exact List.rel_append h.each (List.Forall₂.cons ⟨hcache, hseq⟩ List.Forall₂.nil)

theorem mem (h : Appended tokenPerSpan layers spans layers') {a' : CacheArray}
    (ha : a' ∈ layers') : ∃ a ∈ layers, ∃ span ∈ spans, a'.cache = a.cache ++ [span] ∧
      a'.seqLength = a.seqLength + tokenPerSpan := by
  induction layers generalizing spans layers' with
  | nil =>
      have hnil := List.length_eq_zero_iff.mp h.length_eq
      subst hnil
      cases ha
  | cons a rest ih =>
      obtain ⟨span, spans', b, rest', rfl, rfl, hcache, hseq, htail⟩ := h.cons_inv
      rcases List.mem_cons.mp ha with rfl | ha
      · exact ⟨a, List.mem_cons_self .., span, List.mem_cons_self .., hcache, hseq⟩
      · obtain ⟨a₀, ha₀, span₀, hs₀, hboth⟩ := ih htail ha
        exact ⟨a₀, List.mem_cons_of_mem _ ha₀, span₀, List.mem_cons_of_mem _ hs₀, hboth⟩

theorem grew (h : Appended tokenPerSpan layers spans layers') {new : List SpanId}
    (hnew : ∀ span ∈ spans, span ∈ new) : List.Forall₂ (Grew new) layers layers' := by
  induction layers generalizing spans layers' with
  | nil =>
      have hnil := List.length_eq_zero_iff.mp h.length_eq
      subst hnil
      exact List.Forall₂.nil
  | cons a rest ih =>
      obtain ⟨span, spans', b, rest', rfl, rfl, hcache, _, htail⟩ := h.cons_inv
      refine List.Forall₂.cons ⟨[span], hcache, ?_⟩ (ih htail ?_)
      · intro x hx
        rw [List.mem_singleton.mp hx]
        exact hnew span (List.mem_cons_self ..)
      · intro x hx
        exact hnew x (List.mem_cons_of_mem _ hx)

theorem perm (h : Appended tokenPerSpan layers spans layers') :
    (layers'.flatMap CacheArray.cache).Perm (layers.flatMap CacheArray.cache ++ spans) := by
  induction layers generalizing spans layers' with
  | nil =>
      have hnil := List.length_eq_zero_iff.mp h.length_eq
      have hspans := List.length_eq_zero_iff.mp h.length
      subst hnil hspans
      exact List.Perm.refl _
  | cons a rest ih =>
      obtain ⟨span, spans', b, rest', rfl, rfl, hcache, _, htail⟩ := h.cons_inv
      rw [List.flatMap_cons, List.flatMap_cons, hcache, List.append_assoc, List.append_assoc]
      apply List.Perm.append_left
      exact ((ih htail).cons span).trans List.perm_middle.symm

theorem of_zipWith (f : CacheArray → SpanId → CacheArray)
    (hlen : spans.length = layers.length)
    (hcache : ∀ a span, (f a span).cache = a.cache ++ [span])
    (hseq : ∀ a ∈ layers, ∀ span, (f a span).seqLength = a.seqLength + tokenPerSpan) :
    Appended tokenPerSpan layers spans (List.zipWith f layers spans) := by
  refine ⟨hlen, ?_⟩
  induction layers generalizing spans with
  | nil => exact List.Forall₂.nil
  | cons a rest ih =>
      cases spans with
      | nil => simp at hlen
      | cons span spans =>
          rw [List.zip_cons_cons, List.zipWith_cons_cons]
          exact List.Forall₂.cons ⟨hcache a span, hseq a (List.mem_cons_self ..) span⟩
            (ih (by simpa using hlen) (fun b hb => hseq b (List.mem_cons_of_mem _ hb)))

/-- At the old length stands the new column. -/
theorem mapM_last (h : Appended tokenPerSpan layers spans layers') {len : Nat}
    (hlen : ∀ a ∈ layers, a.cache.length = len) :
    layers'.mapM (fun a => a.cache[len]?) = some spans := by
  induction layers generalizing spans layers' with
  | nil =>
      have hnil := List.length_eq_zero_iff.mp h.length_eq
      have hspans := List.length_eq_zero_iff.mp h.length
      subst hnil hspans
      rfl
  | cons a rest ih =>
      obtain ⟨span, spans', b, rest', rfl, rfl, hcache, _, htail⟩ := h.cons_inv
      have hb : b.cache[len]? = some span := by
        rw [hcache, ← hlen a (List.mem_cons_self ..)]
        simp
      rw [List.mapM_cons, hb, ih htail (fun x hx => hlen x (List.mem_cons_of_mem _ hx))]
      rfl

end Appended

namespace FilledSide

variable {layers layers' : List CacheArray} {columns : List (List SpanId)} {spans : List SpanId}

theorem empty (cfg : Config) :
    FilledSide cfg (List.replicate cfg.layerNum CacheArray.empty) [] where
  layerNum := List.length_replicate ..
  length a ha := by
    rw [List.eq_of_mem_replicate ha]
    rfl
  seqLength a ha := by
    rw [List.eq_of_mem_replicate ha]
    exact (Nat.zero_mul _).symm
  column k spans hk := by cases hk

theorem append (h : FilledSide cfg layers columns)
    (happ : Appended cfg.tokenPerSpan layers spans layers') :
    FilledSide cfg layers' (columns ++ [spans]) where
  layerNum := happ.length_eq.trans h.layerNum
  length a ha := by
    obtain ⟨a₀, ha₀, span, _, hcache, _⟩ := happ.mem ha
    simp [hcache, h.length a₀ ha₀]
  seqLength a ha := by
    obtain ⟨a₀, ha₀, span, _, _, hseq⟩ := happ.mem ha
    rw [hseq, h.seqLength a₀ ha₀, List.length_append, List.length_singleton, Nat.succ_mul]
  column k column hk := by
    by_cases hlt : k < columns.length
    · rw [List.getElem?_append_left hlt] at hk
      exact mapM_getElem_grew (happ.grew (fun _ hs => hs)) (h.column k column hk)
    · rw [List.getElem?_append_right (Nat.le_of_not_lt hlt)] at hk
      have hidx : k = columns.length := by
        have := (List.getElem?_eq_some_iff.mp hk).1
        simp only [List.length_singleton] at this
        omega
      subst hidx
      rw [happ.mapM_last h.length]
      simpa using hk

/-- `FillCache` on lined-up layers. -/
theorem fillCache (h : FilledSide cfg layers columns) {m : SpanManager}
    (hlen : spans.length = cfg.layerNum) (hfill : fillCache cfg m layers spans = some layers') :
    Appended cfg.tokenPerSpan layers spans layers' := by
  have hcurrent : (layers.head?.map (fun a => a.cache.length)).getD 0 = columns.length := by
    cases hlayers : layers with
    | nil =>
        have hzero := h.layerNum
        have hpos := cfg.layerNum_pos
        rw [hlayers] at hzero
        simp at hzero
        omega
    | cons a rest =>
        have ha := h.length a (by simp [hlayers])
        simpa using ha
  unfold Cache.fillCache at hfill
  rw [hcurrent] at hfill
  dsimp only at hfill
  split at hfill
  · cases hfill
  · cases hfill
    apply Appended.of_zipWith _ (hlen.trans h.layerNum.symm) (fun _ _ => rfl)
    intro a ha span
    rw [h.seqLength a ha, ← Nat.succ_mul]

end FilledSide

/-- A context whose layers hold the spans of the listed nodes, in order. -/
structure Filled (cfg : Config) (nodes : NodeId → PrefixNode) (c : GenCtx D)
    (list : List NodeId) : Prop where
  k : FilledSide cfg c.virtualK (list.map (fun n => (nodes n).kCache))
  v : FilledSide cfg c.virtualV (list.map (fun n => (nodes n).vCache))

namespace Filled

variable {nodes nodes' : NodeId → PrefixNode} {c : GenCtx D} {list : List NodeId}

theorem length (h : Filled cfg nodes c list) {a : CacheArray} (ha : a ∈ c.arrays) :
    a.cache.length = list.length := by
  rcases List.mem_append.mp ha with ha | ha
  · rw [h.k.length a ha, List.length_map]
  · rw [h.v.length a ha, List.length_map]

theorem blockAt (h : Filled cfg nodes c list) {k : Nat} {n : NodeId} (hk : list[k]? = some n) :
    c.blockAt k = some ((nodes n).kCache, (nodes n).vCache) := by
  have hkc := h.k.column k (nodes n).kCache (by simp [hk])
  have hvc := h.v.column k (nodes n).vCache (by simp [hk])
  unfold GenCtx.blockAt
  rw [hkc, hvc]
  rfl

theorem congr (h : Filled cfg nodes c list)
    (hnodes : ∀ n ∈ list, (nodes' n).kCache = (nodes n).kCache ∧
      (nodes' n).vCache = (nodes n).vCache) {c' : GenCtx D}
    (hk : c'.virtualK = c.virtualK) (hv : c'.virtualV = c.virtualV) :
    Filled cfg nodes' c' list where
  k := by
    rw [hk, List.map_congr_left (fun n hn => (hnodes n hn).1)]
    exact h.k
  v := by
    rw [hv, List.map_congr_left (fun n hn => (hnodes n hn).2)]
    exact h.v

theorem append (h : Filled cfg nodes c list) {n : NodeId} {virtualK virtualV : List CacheArray}
    (hk : Appended cfg.tokenPerSpan c.virtualK (nodes n).kCache virtualK)
    (hv : Appended cfg.tokenPerSpan c.virtualV (nodes n).vCache virtualV) :
    Filled cfg nodes { c with virtualK, virtualV } (list ++ [n]) where
  k := by
    rw [List.map_append]
    exact h.k.append hk
  v := by
    rw [List.map_append]
    exact h.v.append hv

end Filled

/-- Both kinds of layers grow by one span each. -/
theorem Extended.of_appended {c : GenCtx D} {tokenPerSpan : Nat}
    {virtualK virtualV : List CacheArray} {kCache vCache : List SpanId}
    (hk : Appended tokenPerSpan c.virtualK kCache virtualK)
    (hv : Appended tokenPerSpan c.virtualV vCache virtualV) :
    Extended c { c with virtualK, virtualV } (kCache ++ vCache) where
  spans := by
    unfold GenCtx.spans GenCtx.arrays
    rw [List.flatMap_append, List.flatMap_append]
    refine (hk.perm.append hv.perm).trans ?_
    rw [List.append_assoc, List.append_assoc]
    apply List.Perm.append_left
    rw [← List.append_assoc, ← List.append_assoc]
    exact List.perm_append_comm.append_right _
  virtualK := hk.grew (fun _ hs => List.mem_append_left _ hs)
  virtualV := hv.grew (fun _ hs => List.mem_append_right _ hs)
  nodeList := rfl
  offered := rfl
  placed := rfl
  prefixLen := rfl
  tokens := rfl

variable {s : State E D} {pend pend' : ReqId → Hash → Prop} {r : ReqId} {hash : Hash} {n : NodeId}

namespace Inv

/-- A reference is taken and the node listed. -/
theorem refPush (h : Inv cfg P s pend) (ts : Nat) (hr : r ∈ s.gpu.live) {m : NodeId}
    (hl : s.gpu.union.lookup hash = some m) (hn : n < s.gpu.union.nextNode)
    (hhash : (s.gpu.union.nodes n).hash = hash) (hsame : NoClash s.gpu.log → n = m)
    (hpend : ∀ q other, pend q other → pend' q other ∨ (q = r ∧ other = hash)) :
    Inv cfg P { s with gpu := (s.gpu.refNode hash ts).pushNode r n } pend' := by
  refine h.carry (h.gpu.refPush hr hl hn hhash hsame hpend) ?_ id
  refine Carried.of_kept (kept_refNode ts h.gpu.wf hash) rfl rfl ?_
  intro q _
  by_cases hqr : q = r
  · subst hqr
    rw [GpuSide.pushNode, GpuSide.updateCtx_self]
    exact ⟨rfl, rfl, Nat.le_refl _, rfl, rfl⟩
  · rw [GpuSide.pushNode, GpuSide.updateCtx_of_ne hqr]
    exact ⟨rfl, rfl, Nat.le_refl _, rfl, rfl⟩

/-- A table node's spans are placed in the layers of a request that lists
it. -/
theorem fill (h : Inv cfg P s pend) (hr : r ∈ s.gpu.live)
    (hl : s.gpu.union.lookup hash = some n)
    (hlisted : ∃ m ∈ (s.gpu.ctx r).nodeList, (s.gpu.union.nodes m).hash = hash)
    {virtualK virtualV : List CacheArray}
    (hk : Appended cfg.tokenPerSpan (s.gpu.ctx r).virtualK (s.gpu.union.nodes n).kCache virtualK)
    (hv : Appended cfg.tokenPerSpan (s.gpu.ctx r).virtualV (s.gpu.union.nodes n).vCache virtualV)
    (hbelow : ∀ a ∈ virtualK ++ virtualV, a.cache.length ≤ (s.gpu.ctx r).offered) :
    Inv cfg P { s with gpu := s.gpu.updateCtx r (fun c => { c with virtualK, virtualV }) }
      pend := by
  have hext := Extended.of_appended hk hv
  have hnew : ∀ span ∈ (s.gpu.union.nodes n).kCache ++ (s.gpu.union.nodes n).vCache,
      span ∈ (s.gpu.union.nodes n).spans := by
    intro span hs
    have hlen := (h.gpu.wf.vLength hl).trans (h.gpu.wf.kLength hl).symm
    exact (PrefixNode.spans_perm _ hlen).mem_iff.mpr hs
  refine h.carry (h.gpu.fill hr hl hlisted hnew hext hbelow) ?_ id
  exact Carried.of_extended (fun _ _ => rfl) hext rfl rfl

/-- Spans are claimed for one request's layers. -/
theorem claim (h : Inv cfg P s pend) (hr : r ∈ s.gpu.live) {m' : SpanManager}
    {new : List SpanId} {count : Nat} (hclaim : Claimed s.gpu.union.spanManager m' new count)
    {c' : GenCtx D} (hext : Extended (s.gpu.ctx r) c' new)
    (hcomp : c'.computed = (s.gpu.ctx r).computed)
    (hsource : c'.source = (s.gpu.ctx r).source) :
    Inv cfg P { s with
      gpu := GpuSide.updateCtx { s.gpu with union := { s.gpu.union with spanManager := m' } } r
        (fun _ => c') } pend := by
  refine h.carry (h.gpu.claim hr hclaim hext) ?_ id
  apply Carried.of_extended _ hext hcomp hsource
  intro span hs
  exact hclaim.frameOf_old (h.gpu.wf.owned.held_lt span hs)

end Inv

/-- One layer of a request is replaced. -/
def GenCtx.setLayer (c : GenCtx D) (isV : Bool) (layer : Nat) (a : CacheArray) : GenCtx D :=
  if isV then { c with virtualV := c.virtualV.set layer a }
  else { c with virtualK := c.virtualK.set layer a }

def GenCtx.layers (c : GenCtx D) (isV : Bool) : List CacheArray :=
  if isV then c.virtualV else c.virtualK

private theorem flatMap_set_perm {l : List CacheArray} {layer : Nat} {a a' : CacheArray}
    {new : List SpanId} (hget : l[layer]? = some a) (hcache : a'.cache = a.cache ++ new) :
    ((l.set layer a').flatMap CacheArray.cache).Perm (l.flatMap CacheArray.cache ++ new) := by
  induction l generalizing layer with
  | nil => cases hget
  | cons b rest ih =>
      cases layer with
      | zero =>
          obtain rfl : b = a := by simpa using hget
          rw [List.set_cons_zero, List.flatMap_cons, List.flatMap_cons, hcache,
            List.append_assoc, List.append_assoc]
          exact List.perm_append_comm.append_left _
      | succ layer =>
          rw [List.set_cons_succ, List.flatMap_cons, List.flatMap_cons, List.append_assoc]
          exact (ih (by simpa using hget)).append_left _

private theorem grew_refl (new : List SpanId) (l : List CacheArray) :
    List.Forall₂ (Grew new) l l := by
  apply List.forall₂_same.mpr
  intro a _
  exact ⟨[], (List.append_nil _).symm, by simp⟩

private theorem grew_set {l : List CacheArray} {layer : Nat} {a a' : CacheArray}
    {new : List SpanId} (hget : l[layer]? = some a) (hcache : a'.cache = a.cache ++ new) :
    List.Forall₂ (Grew new) l (l.set layer a') := by
  induction l generalizing layer with
  | nil => cases hget
  | cons b rest ih =>
      cases layer with
      | zero =>
          obtain rfl : b = a := by simpa using hget
          exact List.Forall₂.cons ⟨new, hcache, fun _ hs => hs⟩ (grew_refl new rest)
      | succ layer =>
          refine List.Forall₂.cons ⟨[], (List.append_nil _).symm, by simp⟩ ?_
          exact ih (by simpa using hget)

theorem Extended.of_setLayer {c : GenCtx D} {isV : Bool} {layer : Nat} {a a' : CacheArray}
    {new : List SpanId} (hget : (c.layers isV)[layer]? = some a)
    (hcache : a'.cache = a.cache ++ new) : Extended c (c.setLayer isV layer a') new := by
  cases isV with
  | false =>
      refine ⟨?_, grew_set hget hcache, grew_refl new _, rfl, rfl, rfl, rfl, rfl⟩
      unfold GenCtx.spans GenCtx.arrays
      rw [List.flatMap_append, List.flatMap_append]
      refine ((flatMap_set_perm hget hcache).append_right _).trans ?_
      rw [List.append_assoc, List.append_assoc]
      exact List.perm_append_comm.append_left _
  | true =>
      refine ⟨?_, grew_refl new _, grew_set hget hcache, rfl, rfl, rfl, rfl, rfl⟩
      unfold GenCtx.spans GenCtx.arrays
      rw [List.flatMap_append, List.flatMap_append, List.append_assoc]
      exact (flatMap_set_perm hget hcache).append_left _

theorem Claimed.none (m : SpanManager) : Claimed m m [] 0 :=
  ⟨rfl, rfl, rfl, by simp, rfl, by simp, fun _ _ => rfl⟩

/-- One layer grows by claimed spans. -/
private theorem Inv.setLayer (h : Inv cfg P s pend) (hr : r ∈ s.gpu.live) {isV : Bool}
    {layer : Nat} {a a' : CacheArray} {m' : SpanManager} {new : List SpanId} {count : Nat}
    (hget : ((s.gpu.ctx r).layers isV)[layer]? = some a)
    (hclaim : Claimed s.gpu.union.spanManager m' new count) (hcache : a'.cache = a.cache ++ new) :
    Inv cfg P { s with
      gpu := GpuSide.updateCtx { s.gpu with union := { s.gpu.union with spanManager := m' } } r
        (fun c => c.setLayer isV layer a') } pend := by
  refine h.claim hr hclaim (Extended.of_setLayer hget hcache) ?_ ?_
  · unfold GenCtx.setLayer
    split <;> rfl
  · unfold GenCtx.setLayer
    split <;> rfl

/-- The state with one layer replaced and the frames of another manager. -/
def State.withLayer (s : State E D) (r : ReqId) (isV : Bool) (layer : Nat) (a : CacheArray)
    (m : SpanManager) : State E D :=
  { s with
    gpu := GpuSide.updateCtx { s.gpu with union := { s.gpu.union with spanManager := m } } r
      (fun c => c.setLayer isV layer a) }

/-- `GetCache` is `GetCachePtrVec` on one layer. -/
theorem post_getCache_iff {Q : Unit → State E D → Prop} {X : Fault → State E D → Prop}
    {isV : Bool} {layer : Nat} {a : CacheArray} (increment : Nat)
    (hget : ((s.gpu.ctx r).layers isV)[layer]? = some a) :
    Post (getCache cfg r isV layer increment) s Q X ↔
      match a.getCachePtrVec cfg increment s.gpu.union.spanManager with
      | (.error e, m) =>
          X e { s with gpu := { s.gpu with union := { s.gpu.union with spanManager := m } } }
      | (.ok a', m) => Q () (s.withLayer r isV layer a' m) := by
  unfold getCache
  rw [post_bind, post_get]
  unfold GenCtx.layers at hget
  dsimp only
  rw [hget]
  dsimp only
  cases hrun : a.getCachePtrVec cfg increment s.gpu.union.spanManager with
  | mk result m => cases result <;> exact Iff.rfl

theorem post_getCache (h : Inv cfg P s pend) (hr : r ∈ s.gpu.live) (isV : Bool)
    (layer increment : Nat) :
    Post (getCache cfg r isV layer increment) s (fun _ t => Inv cfg P t pend)
      (fun _ t => Inv cfg P t pend) := by
  cases hget : ((s.gpu.ctx r).layers isV)[layer]? with
  | none =>
      unfold getCache
      unfold GenCtx.layers at hget
      rw [post_bind, post_get]
      dsimp only
      rw [hget]
      exact h
  | some a =>
      rw [post_getCache_iff increment hget]
      rcases a.getCachePtrVec_cases cfg increment s.gpu.union.spanManager with
        ⟨e, heq, _⟩ | ⟨a', heq, hcache⟩ | ⟨a', m', spans, count, heq, hclaim, hcache⟩
      · rw [heq]
        exact h
      · rw [heq]
        exact h.setLayer hr hget (Claimed.none _) (by simpa using hcache)
      · rw [heq]
        exact h.setLayer hr hget (SpanManager.claimSpan_some hclaim) hcache

/-- A full layer grows by one claimed span. -/
private theorem post_getCache_span (h : Inv cfg P s pend) (hr : r ∈ s.gpu.live) {isV : Bool}
    {layer : Nat} {a : CacheArray} (hget : ((s.gpu.ctx r).layers isV)[layer]? = some a)
    (hseq : a.seqLength = a.cache.length * cfg.tokenPerSpan) :
    Post (getCache cfg r isV layer cfg.tokenPerSpan) s
      (fun _ t => Inv cfg P t pend ∧ ∃ a' m',
        Claimed s.gpu.union.spanManager m' [s.gpu.union.spanManager.nextSpan] 1 ∧
        a'.cache = a.cache ++ [s.gpu.union.spanManager.nextSpan] ∧
        a'.seqLength = a.seqLength + cfg.tokenPerSpan ∧ t = s.withLayer r isV layer a' m')
      (fun _ t => Inv cfg P t pend) := by
  rw [post_getCache_iff _ hget]
  rcases a.getCachePtrVec_span cfg s.gpu.union.spanManager hseq with
    ⟨e, heq⟩ | ⟨a', m', heq, hclaim, hcache, hnext⟩
  · rw [heq]
    exact h
  · rw [heq]
    have hc := SpanManager.claimSpan_some hclaim
    exact ⟨h.setLayer hr hget hc hcache, a', m', hc, hcache, hnext, rfl⟩

/-- The state with a request's layers and the frames replaced. -/
def State.withLayers (s : State E D) (r : ReqId) (virtualK virtualV : List CacheArray)
    (m : SpanManager) : State E D :=
  { s with
    gpu := GpuSide.updateCtx { s.gpu with union := { s.gpu.union with spanManager := m } } r
      (fun c => { c with virtualK, virtualV }) }

private theorem withLayers_ctx (s : State E D) (r : ReqId) (virtualK virtualV : List CacheArray)
    (m : SpanManager) :
    (s.withLayers r virtualK virtualV m).gpu.ctx r =
      { s.gpu.ctx r with virtualK, virtualV } :=
  Function.update_self ..

private theorem withLayers_setK (s : State E D) (r : ReqId) (virtualK virtualV : List CacheArray)
    (m m' : SpanManager) (layer : Nat) (a : CacheArray) :
    (s.withLayers r virtualK virtualV m).withLayer r false layer a m' =
      s.withLayers r (virtualK.set layer a) virtualV m' := by
  unfold State.withLayer State.withLayers GpuSide.updateCtx GenCtx.setLayer
  simp [Function.update_idem]

private theorem withLayers_setV (s : State E D) (r : ReqId) (virtualK virtualV : List CacheArray)
    (m m' : SpanManager) (layer : Nat) (a : CacheArray) :
    (s.withLayers r virtualK virtualV m).withLayer r true layer a m' =
      s.withLayers r virtualK (virtualV.set layer a) m' := by
  unfold State.withLayer State.withLayers GpuSide.updateCtx GenCtx.setLayer
  simp [Function.update_idem]

/-- Some first layers grew by the given spans, the others stand. -/
structure PartlyAppended (tokenPerSpan : Nat) (layers : List CacheArray) (spans : List SpanId)
    (layers' : List CacheArray) : Prop where
  split : ∃ done, layers' = done ++ layers.drop spans.length ∧
    Appended tokenPerSpan (layers.take spans.length) spans done

namespace PartlyAppended

variable {tokenPerSpan : Nat} {layers layers' : List CacheArray} {spans : List SpanId}

theorem start (tokenPerSpan : Nat) (layers : List CacheArray) :
    PartlyAppended tokenPerSpan layers [] layers :=
  ⟨[], rfl, Appended.nil tokenPerSpan⟩

private theorem done_length (hlt : spans.length < layers.length) {done : List CacheArray}
    (h : Appended tokenPerSpan (layers.take spans.length) spans done) :
    done.length = spans.length := by
  have hlen := h.length_eq
  rw [List.length_take] at hlen
  omega

/-- The next layer stands as it was. -/
theorem next (h : PartlyAppended tokenPerSpan layers spans layers')
    (hlt : spans.length < layers.length) : layers'[spans.length]? = layers[spans.length]? := by
  obtain ⟨done, rfl, happ⟩ := h.split
  have hdone := done_length hlt happ
  rw [List.getElem?_append_right (Nat.le_of_eq hdone), hdone, Nat.sub_self, List.getElem?_drop]
  simp

/-- The next layer grows. -/
theorem step (h : PartlyAppended tokenPerSpan layers spans layers') {a a' : CacheArray}
    {span : SpanId} (hget : layers[spans.length]? = some a)
    (hcache : a'.cache = a.cache ++ [span]) (hseq : a'.seqLength = a.seqLength + tokenPerSpan) :
    PartlyAppended tokenPerSpan layers (spans ++ [span]) (layers'.set spans.length a') := by
  obtain ⟨hlt, hget'⟩ := List.getElem?_eq_some_iff.mp hget
  obtain ⟨done, rfl, happ⟩ := h.split
  have hdone := done_length hlt happ
  refine ⟨done ++ [a'], ?_, ?_⟩
  · rw [List.set_append_right _ _ (Nat.le_of_eq hdone), hdone, Nat.sub_self,
      List.drop_eq_getElem_cons hlt, List.set_cons_zero, List.length_append,
      List.length_singleton, List.append_assoc]
    rfl
  · have htake : layers.take (spans ++ [span]).length = layers.take spans.length ++ [a] := by
      rw [List.length_append, List.length_singleton, List.take_add_one, hget]
      rfl
    rw [htake]
    exact happ.snoc hcache hseq

theorem finish (h : PartlyAppended tokenPerSpan layers spans layers')
    (hall : spans.length = layers.length) : Appended tokenPerSpan layers spans layers' := by
  obtain ⟨done, rfl, happ⟩ := h.split
  rw [hall, List.take_length] at happ
  rw [hall, List.drop_length, List.append_nil]
  exact happ

end PartlyAppended

/-- Inside `alloc_gpu_node`: some layers have their new span. -/
structure Allocating (cfg : Config) (s : State E D) (r : ReqId) (kCache vCache : List SpanId)
    (virtualK virtualV : List CacheArray) (m : SpanManager) : Prop where
  k : PartlyAppended cfg.tokenPerSpan (s.gpu.ctx r).virtualK kCache virtualK
  v : PartlyAppended cfg.tokenPerSpan (s.gpu.ctx r).virtualV vCache virtualV
  nodup : (kCache ++ vCache).Nodup
  range : ∀ span ∈ kCache ++ vCache,
    s.gpu.union.spanManager.nextSpan ≤ span ∧ span < m.nextSpan
  nextSpan : s.gpu.union.spanManager.nextSpan ≤ m.nextSpan

private theorem nodup_insert {ks vs : List SpanId} {span : SpanId} (h : (ks ++ vs).Nodup)
    (hnew : ∀ other ∈ ks ++ vs, other ≠ span) :
    ((ks ++ [span]) ++ vs).Nodup ∧ (ks ++ (vs ++ [span])).Nodup := by
  have hcons : (span :: (ks ++ vs)).Nodup :=
    List.nodup_cons.mpr ⟨fun hmem => hnew span hmem rfl, h⟩
  constructor
  · refine (List.Perm.nodup_iff ?_).mpr hcons
    rw [List.append_assoc]
    exact List.perm_middle
  · refine (List.Perm.nodup_iff ?_).mpr hcons
    rw [← List.append_assoc]
    exact List.perm_append_singleton _ _

namespace Allocating

variable {kCache vCache : List SpanId} {virtualK virtualV : List CacheArray} {m m' : SpanManager}
  {a a' : CacheArray}

private theorem ne_next (h : Allocating cfg s r kCache vCache virtualK virtualV m) :
    ∀ other ∈ kCache ++ vCache, other ≠ m.nextSpan :=
  fun other hmem => Nat.ne_of_lt (h.range other hmem).2

private theorem range_insert (h : Allocating cfg s r kCache vCache virtualK virtualV m)
    (hclaim : Claimed m m' [m.nextSpan] 1) {span : SpanId}
    (hmem : span ∈ kCache ++ vCache ∨ span = m.nextSpan) :
    s.gpu.union.spanManager.nextSpan ≤ span ∧ span < m'.nextSpan := by
  have hnext := hclaim.nextSpan_eq
  rcases hmem with hmem | rfl
  · have hrange := h.range span hmem
    exact ⟨hrange.1, by rw [hnext]; exact Nat.lt_succ_of_lt hrange.2⟩
  · exact ⟨h.nextSpan, by rw [hnext]; exact Nat.lt_succ_self _⟩

theorem stepK (h : Allocating cfg s r kCache vCache virtualK virtualV m)
    (hget : (s.gpu.ctx r).virtualK[kCache.length]? = some a)
    (hclaim : Claimed m m' [m.nextSpan] 1) (hcache : a'.cache = a.cache ++ [m.nextSpan])
    (hseq : a'.seqLength = a.seqLength + cfg.tokenPerSpan) :
    Allocating cfg s r (kCache ++ [m.nextSpan]) vCache (virtualK.set kCache.length a') virtualV
      m' where
  k := h.k.step hget hcache hseq
  v := h.v
  nodup := (nodup_insert h.nodup h.ne_next).1
  range span hmem := by
    apply h.range_insert hclaim
    simp only [List.mem_append, List.mem_singleton] at hmem ⊢
    tauto
  nextSpan := by
    rw [hclaim.nextSpan_eq]
    exact Nat.le_succ_of_le h.nextSpan

theorem stepV (h : Allocating cfg s r kCache vCache virtualK virtualV m)
    (hget : (s.gpu.ctx r).virtualV[vCache.length]? = some a)
    (hclaim : Claimed m m' [m.nextSpan] 1) (hcache : a'.cache = a.cache ++ [m.nextSpan])
    (hseq : a'.seqLength = a.seqLength + cfg.tokenPerSpan) :
    Allocating cfg s r kCache (vCache ++ [m.nextSpan]) virtualK (virtualV.set vCache.length a')
      m' where
  k := h.k
  v := h.v.step hget hcache hseq
  nodup := (nodup_insert h.nodup h.ne_next).2
  range span hmem := by
    apply h.range_insert hclaim
    simp only [List.mem_append, List.mem_singleton] at hmem ⊢
    tauto
  nextSpan := by
    rw [hclaim.nextSpan_eq]
    exact Nat.le_succ_of_le h.nextSpan

end Allocating

private theorem post_backSpan {isV : Bool} {layer : Nat} {a : CacheArray} {cache : List SpanId}
    {span : SpanId} (hget : ((s.gpu.ctx r).layers isV)[layer]? = some a)
    (hcache : a.cache = cache ++ [span]) {Q : SpanId → State E D → Prop}
    {X : Fault → State E D → Prop} : Post (backSpan r isV layer) s Q X ↔ Q span s := by
  unfold backSpan
  unfold GenCtx.layers at hget
  rw [post_bind, post_get]
  dsimp only
  rw [hget, Option.bind_some, hcache, List.getLast?_append_of_ne_nil _ (by simp)]
  exact Iff.rfl

/-- One turn of the loop in `alloc_gpu_node`. -/
private theorem post_allocLayer {list : List NodeId} {kCache vCache : List SpanId}
    {virtualK virtualV : List CacheArray} {m : SpanManager} (hr : r ∈ s.gpu.live)
    (hfilled : Filled cfg s.gpu.union.nodes (s.gpu.ctx r) list)
    (h : Allocating cfg s r kCache vCache virtualK virtualV m)
    (hinv : Inv cfg P (s.withLayers r virtualK virtualV m) Settled)
    (hlen : vCache.length = kCache.length) (hlt : kCache.length < cfg.layerNum) :
    Post (do
        getCache cfg r false kCache.length cfg.tokenPerSpan
        getCache cfg r true kCache.length cfg.tokenPerSpan
        let k ← backSpan r false kCache.length
        let v ← backSpan r true kCache.length
        pure (kCache ++ [k], vCache ++ [v])) (s.withLayers r virtualK virtualV m)
      (fun caches t => ∃ virtualK virtualV m, t = s.withLayers r virtualK virtualV m ∧
        Allocating cfg s r caches.1 caches.2 virtualK virtualV m ∧ Inv cfg P t Settled ∧
        caches.1.length = kCache.length + 1 ∧ caches.2.length = kCache.length + 1)
      (Faulted cfg P) := by
  have hltK : kCache.length < (s.gpu.ctx r).virtualK.length := by
    rw [hfilled.k.layerNum]
    exact hlt
  have hltV : vCache.length < (s.gpu.ctx r).virtualV.length := by
    rw [hfilled.v.layerNum, hlen]
    exact hlt
  obtain ⟨a, ha⟩ : ∃ a, (s.gpu.ctx r).virtualK[kCache.length]? = some a :=
    ⟨_, List.getElem?_eq_getElem hltK⟩
  obtain ⟨b, hb⟩ : ∃ b, (s.gpu.ctx r).virtualV[vCache.length]? = some b :=
    ⟨_, List.getElem?_eq_getElem hltV⟩
  have haseq : a.seqLength = a.cache.length * cfg.tokenPerSpan := by
    rw [hfilled.k.seqLength a (List.mem_of_getElem? ha),
      hfilled.k.length a (List.mem_of_getElem? ha)]
  have hbseq : b.seqLength = b.cache.length * cfg.tokenPerSpan := by
    rw [hfilled.v.seqLength b (List.mem_of_getElem? hb),
      hfilled.v.length b (List.mem_of_getElem? hb)]
  have hgetK : (((s.withLayers r virtualK virtualV m).gpu.ctx r).layers false)[kCache.length]? =
      some a := by
    rw [withLayers_ctx]
    exact (h.k.next hltK).trans ha
  rw [post_bind]
  apply (post_getCache_span hinv hr hgetK haseq).imp _ (fun _ _ ht => Or.inr (Or.inr ht))
  rintro _ t ⟨htinv, a', m₁, hclaim, hcache, hseq, rfl⟩
  rw [withLayers_setK] at htinv ⊢
  have h₁ := h.stepK ha hclaim hcache hseq
  have hgetV : (((s.withLayers r (virtualK.set kCache.length a') virtualV m₁).gpu.ctx r).layers
      true)[kCache.length]? = some b := by
    rw [withLayers_ctx, ← hlen]
    exact (h.v.next hltV).trans hb
  rw [post_bind]
  apply (post_getCache_span htinv hr hgetV hbseq).imp _ (fun _ _ ht => Or.inr (Or.inr ht))
  rintro _ t ⟨hvinv, b', m₂, hclaim', hcache', hseq', rfl⟩
  rw [withLayers_setV] at hvinv ⊢
  have h₂ := h₁.stepV hb hclaim' hcache' hseq'
  have hlastK : (((s.withLayers r (virtualK.set kCache.length a')
      (virtualV.set kCache.length b') m₂).gpu.ctx r).layers false)[kCache.length]? = some a' := by
    rw [withLayers_ctx]
    apply List.getElem?_set_self
    exact (List.getElem?_eq_some_iff.mp ((h.k.next hltK).trans ha)).1
  have hlastV : (((s.withLayers r (virtualK.set kCache.length a')
      (virtualV.set kCache.length b') m₂).gpu.ctx r).layers true)[kCache.length]? = some b' := by
    rw [withLayers_ctx, ← hlen]
    apply List.getElem?_set_self
    exact (List.getElem?_eq_some_iff.mp ((h.v.next hltV).trans hb)).1
  rw [post_bind, post_backSpan hlastK hcache, post_bind, post_backSpan hlastV hcache', post_pure]
  rw [hlen] at h₂
  exact ⟨_, _, m₂, rfl, h₂, hvinv, by simp, by simp [hlen]⟩

/-- The nodes that `alloc_gpu_node` made for a request and that are not in the
table yet. -/
structure NewNodes (cfg : Config) (g : GpuSide E D) (r : ReqId) (new : List NodeId) : Prop where
  lt_next : ∀ n ∈ new, n < g.union.nextNode
  refCnt : ∀ n ∈ new, (g.union.nodes n).refCnt = 0
  kLength : ∀ n ∈ new, (g.union.nodes n).kCache.length = cfg.layerNum
  vLength : ∀ n ∈ new, (g.union.nodes n).vCache.length = cfg.layerNum
  nodup : (batchSpans g.union new).Nodup
  mine : ∀ span ∈ batchSpans g.union new, span ∈ (g.ctx r).spans
  fresh : ∀ span ∈ batchSpans g.union new, span ∉ g.union.tableSpans

private theorem post_allocLayers {list : List NodeId} (hr : r ∈ s.gpu.live)
    (hfilled : Filled cfg s.gpu.union.nodes (s.gpu.ctx r) list) (count start : Nat)
    (hcount : start + count = cfg.layerNum) (caches : List SpanId × List SpanId)
    {virtualK virtualV : List CacheArray} {m : SpanManager}
    (h : Allocating cfg s r caches.1 caches.2 virtualK virtualV m)
    (hinv : Inv cfg P (s.withLayers r virtualK virtualV m) Settled)
    (hk : caches.1.length = start) (hv : caches.2.length = start) :
    Post (foldEach (fun (caches : List SpanId × List SpanId) layer => do
        getCache cfg r false layer cfg.tokenPerSpan
        getCache cfg r true layer cfg.tokenPerSpan
        let k ← backSpan r false layer
        let v ← backSpan r true layer
        pure (caches.1 ++ [k], caches.2 ++ [v])) caches (List.range' start count))
      (s.withLayers r virtualK virtualV m)
      (fun caches t => ∃ virtualK virtualV m, t = s.withLayers r virtualK virtualV m ∧
        Allocating cfg s r caches.1 caches.2 virtualK virtualV m ∧ Inv cfg P t Settled ∧
        caches.1.length = cfg.layerNum ∧ caches.2.length = cfg.layerNum)
      (Faulted cfg P) := by
  induction count generalizing start caches virtualK virtualV m with
  | zero =>
      refine ⟨virtualK, virtualV, m, rfl, h, hinv, ?_, ?_⟩
      · omega
      · omega
  | succ count ih =>
      subst hk
      rw [List.range'_succ, foldEach, post_bind]
      apply (post_allocLayer hr hfilled h hinv hv (by omega)).imp _ (fun _ _ ht => ht)
      rintro caches' t ⟨K, V, m', rfl, h', hinv', hk', hv'⟩
      exact ih (caches.1.length + 1) (by omega) caches' h' hinv' hk' hv'

/-- Nodes were allocated for a request and its layers grew with them; the table
stands. -/
structure Allocated (g g' : GpuSide E D) (r : ReqId) : Prop where
  live : g'.live = g.live
  mem : g'.mem = g.mem
  log : g'.log = g.log
  hashTable : g'.union.hashTable = g.union.hashTable
  nextNode : g.union.nextNode ≤ g'.union.nextNode
  nodes : ∀ n < g.union.nextNode, g'.union.nodes n = g.union.nodes n
  ctx : ∀ q, q ≠ r → g'.ctx q = g.ctx q
  self : ∃ virtualK virtualV, g'.ctx r = { g.ctx r with virtualK, virtualV }

namespace Allocated

variable {g g' g'' : GpuSide E D}

theorem refl (g : GpuSide E D) (r : ReqId) : Allocated g g r :=
  ⟨rfl, rfl, rfl, rfl, Nat.le_refl _, fun _ _ => rfl, fun _ _ => rfl, _, _, rfl⟩

theorem trans (h : Allocated g g' r) (h' : Allocated g' g'' r) : Allocated g g'' r where
  live := h'.live.trans h.live
  mem := h'.mem.trans h.mem
  log := h'.log.trans h.log
  hashTable := h'.hashTable.trans h.hashTable
  nextNode := Nat.le_trans h.nextNode h'.nextNode
  nodes n hn := by
    rw [h'.nodes n (Nat.lt_of_lt_of_le hn h.nextNode), h.nodes n hn]
  ctx q hq := (h'.ctx q hq).trans (h.ctx q hq)
  self := by
    obtain ⟨_, _, heq⟩ := h.self
    obtain ⟨virtualK, virtualV, heq'⟩ := h'.self
    exact ⟨virtualK, virtualV, by rw [heq', heq]⟩

theorem lookup (h : Allocated g g' r) (hash : Hash) :
    g'.union.lookup hash = g.union.lookup hash := by
  unfold CacheUnion.lookup
  rw [h.hashTable]

theorem offered (h : Allocated g g' r) : (g'.ctx r).offered = (g.ctx r).offered := by
  obtain ⟨_, _, heq⟩ := h.self
  rw [heq]

end Allocated

section Created

variable (s r) (virtualK virtualV : List CacheArray) (m : SpanManager)
  (kCache vCache : List SpanId) (prefixLen ts : Nat) (hash : Hash)

/-- The GPU side after `alloc_gpu_node`. -/
private def created : GpuSide E D :=
  { (s.withLayers r virtualK virtualV m).gpu with
    union := ((s.withLayers r virtualK virtualV m).gpu.union.createNode kCache vCache prefixLen ts
      hash).2 }

private theorem created_nodes {n : NodeId} (hn : n < s.gpu.union.nextNode) :
    (created s r virtualK virtualV m kCache vCache prefixLen ts hash).union.nodes n =
      s.gpu.union.nodes n :=
  createNode_nodes _ _ _ _ _ hn

private theorem created_self :
    (created s r virtualK virtualV m kCache vCache prefixLen ts hash).union.nodes
        s.gpu.union.nextNode =
      { kCache, vCache, refCnt := 0, prefixLen, lastAccessTime := ts, hash, isReady := false } :=
  Function.update_self ..

private theorem allocated_created :
    Allocated s.gpu (created s r virtualK virtualV m kCache vCache prefixLen ts hash) r := by
  refine ⟨rfl, rfl, rfl, rfl, Nat.le_succ _, ?_, ?_, virtualK, virtualV, withLayers_ctx ..⟩
  · intro n hn
    exact created_nodes s r virtualK virtualV m kCache vCache prefixLen ts hash hn
  · intro q hq
    exact Function.update_of_ne hq _ _

variable {s r virtualK virtualV m kCache vCache}

private theorem filled_created {list : List NodeId}
    (hfilled : Filled cfg s.gpu.union.nodes (s.gpu.ctx r) list)
    (hlist : ∀ n ∈ list, n < s.gpu.union.nextNode)
    (hk : Appended cfg.tokenPerSpan (s.gpu.ctx r).virtualK kCache virtualK)
    (hv : Appended cfg.tokenPerSpan (s.gpu.ctx r).virtualV vCache virtualV) :
    Filled cfg (created s r virtualK virtualV m kCache vCache prefixLen ts hash).union.nodes
      ((created s r virtualK virtualV m kCache vCache prefixLen ts hash).ctx r)
      (list ++ [s.gpu.union.nextNode]) := by
  have hself := created_self s r virtualK virtualV m kCache vCache prefixLen ts hash
  have hctx : (created s r virtualK virtualV m kCache vCache prefixLen ts hash).ctx r =
      { s.gpu.ctx r with virtualK, virtualV } := withLayers_ctx ..
  rw [hctx]
  apply Filled.append
  · apply hfilled.congr _ rfl rfl
    intro n hn
    rw [created_nodes _ _ _ _ _ _ _ _ _ _ (hlist n hn)]
    exact ⟨rfl, rfl⟩
  · rw [hself]
    exact hk
  · rw [hself]
    exact hv

private theorem newNodes_created {new : List NodeId} {pend : ReqId → Hash → Prop} {keyed : Prop}
    (h : GpuInv cfg keyed s.gpu pend) (hr : r ∈ s.gpu.live) (hnew : NewNodes cfg s.gpu r new)
    (halloc : Allocating cfg s r kCache vCache virtualK virtualV m)
    (hk : Appended cfg.tokenPerSpan (s.gpu.ctx r).virtualK kCache virtualK)
    (hv : Appended cfg.tokenPerSpan (s.gpu.ctx r).virtualV vCache virtualV)
    (hkl : kCache.length = cfg.layerNum) (hvl : vCache.length = cfg.layerNum) :
    NewNodes cfg (created s r virtualK virtualV m kCache vCache prefixLen ts hash) r
      (new ++ [s.gpu.union.nextNode]) := by
  let g' := created s r virtualK virtualV m kCache vCache prefixLen ts hash
  have hself : g'.union.nodes s.gpu.union.nextNode = _ :=
    created_self s r virtualK virtualV m kCache vCache prefixLen ts hash
  have hold : ∀ n ∈ new, g'.union.nodes n = s.gpu.union.nodes n :=
    fun n hn => created_nodes _ _ _ _ _ _ _ _ _ _ (hnew.lt_next n hn)
  have hctx : g'.ctx r = { s.gpu.ctx r with virtualK, virtualV } := withLayers_ctx ..
  have hext := Extended.of_appended hk hv
  have hspans : (g'.union.nodes s.gpu.union.nextNode).spans.Perm (kCache ++ vCache) := by
    rw [hself]
    exact PrefixNode.spans_perm _ (hvl.trans hkl.symm)
  have hbatch : batchSpans g'.union (new ++ [s.gpu.union.nextNode]) =
      batchSpans s.gpu.union new ++ (g'.union.nodes s.gpu.union.nextNode).spans := by
    unfold batchSpans
    rw [List.flatMap_append, List.flatMap_singleton]
    exact congrArg (· ++ _) (List.flatMap_congr (fun n hn => by rw [hold n hn]))
  have htable : g'.union.tableSpans = s.gpu.union.tableSpans := by
    have hsame := createNode_tableSpans kCache vCache prefixLen ts hash h.wf
    exact hsame
  have hheld : ∀ span ∈ batchSpans s.gpu.union new,
      span < s.gpu.union.spanManager.nextSpan := by
    intro span hs
    apply h.wf.owned.held_lt span
    exact Or.inr (GpuSide.mem_slots_iff.mpr ⟨r, hr, hnew.mine span hs⟩)
  have hcases : ∀ {Q : NodeId → Prop}, (∀ n ∈ new, Q n) → Q s.gpu.union.nextNode →
      ∀ n ∈ new ++ [s.gpu.union.nextNode], Q n := by
    intro Q hq hlast n hn
    rcases List.mem_append.mp hn with hn | hn
    · exact hq n hn
    · rw [List.mem_singleton.mp hn]
      exact hlast
  refine
    { lt_next := hcases (fun n hn => Nat.lt_succ_of_lt (hnew.lt_next n hn)) (Nat.lt_succ_self _)
      refCnt := hcases (fun n hn => ?_) (by rw [hself])
      kLength := hcases (fun n hn => ?_) (by rw [hself]; exact hkl)
      vLength := hcases (fun n hn => ?_) (by rw [hself]; exact hvl)
      nodup := ?_
      mine := ?_
      fresh := ?_ }
  · rw [hold n hn]
    exact hnew.refCnt n hn
  · rw [hold n hn]
    exact hnew.kLength n hn
  · rw [hold n hn]
    exact hnew.vLength n hn
  · rw [hbatch]
    refine List.nodup_append.mpr ⟨hnew.nodup, (hspans.nodup_iff).mpr halloc.nodup, ?_⟩
    intro a ha b hb heq
    have hlt := hheld a ha
    have hge := (halloc.range b (hspans.mem_iff.mp hb)).1
    exact Nat.not_lt.mpr hge (heq ▸ hlt)
  · intro span hs
    rw [hbatch] at hs
    rw [hctx]
    apply hext.spans.mem_iff.mpr
    rcases List.mem_append.mp hs with hs | hs
    · exact List.mem_append_left _ (hnew.mine span hs)
    · exact List.mem_append_right _ (hspans.mem_iff.mp hs)
  · intro span hs hmem
    rw [hbatch] at hs
    rw [htable] at hmem
    rcases List.mem_append.mp hs with hs | hs
    · exact hnew.fresh span hs hmem
    · have hlt := h.wf.owned.held_lt span (Or.inl hmem)
      exact Nat.not_lt.mpr (halloc.range span (hspans.mem_iff.mp hs)).1 hlt

end Created

/-- `alloc_gpu_node`: a node of newly claimed spans, which are the last of
every layer. -/
theorem post_allocGpuNode {list new : List NodeId} (h : Inv cfg P s Settled)
    (hr : r ∈ s.gpu.live) (hfilled : Filled cfg s.gpu.union.nodes (s.gpu.ctx r) list)
    (hlist : ∀ n ∈ list, n < s.gpu.union.nextNode) (hnew : NewNodes cfg s.gpu r new)
    (prefixLen ts : Nat) (hash : Hash) :
    Post (allocGpuNode cfg r prefixLen ts hash) s
      (fun n t => Inv cfg P t Settled ∧ t = { s with gpu := t.gpu } ∧
        Allocated s.gpu t.gpu r ∧ n < t.gpu.union.nextNode ∧ s.gpu.union.nextNode ≤ n ∧
        (t.gpu.union.nodes n).hash = hash ∧
        Filled cfg t.gpu.union.nodes (t.gpu.ctx r) (list ++ [n]) ∧
        NewNodes cfg t.gpu r (new ++ [n]))
      (Faulted cfg P) := by
  have hstart : Allocating cfg s r [] [] (s.gpu.ctx r).virtualK (s.gpu.ctx r).virtualV
      s.gpu.union.spanManager :=
    ⟨PartlyAppended.start _ _, PartlyAppended.start _ _, List.nodup_nil, by simp, Nat.le_refl _⟩
  have hsame : s.withLayers r (s.gpu.ctx r).virtualK (s.gpu.ctx r).virtualV
      s.gpu.union.spanManager = s := by
    unfold State.withLayers GpuSide.updateCtx
    simp
  unfold allocGpuNode
  rw [post_bind, List.range_eq_range']
  have hloop := post_allocLayers (P := P) hr hfilled cfg.layerNum 0 (Nat.zero_add _) ([], [])
    hstart (by rw [hsame]; exact h) rfl rfl
  rw [hsame] at hloop
  apply hloop.imp _ (fun _ _ ht => ht)
  rintro ⟨kCache, vCache⟩ t ⟨virtualK, virtualV, m, rfl, halloc, hinv, hk, hv⟩
  have hkApp := halloc.k.finish (hk.trans hfilled.k.layerNum.symm)
  have hvApp := halloc.v.finish (hv.trans hfilled.v.layerNum.symm)
  dsimp only at hk hv
  simp only [createGpuNode, hk, hv, ne_eq, not_true, if_false, post_bind, post_get,
    post_modifyGpu, post_pure]
  have hcarry : Inv cfg P { s.withLayers r virtualK virtualV m with
      gpu := { (s.withLayers r virtualK virtualV m).gpu with
        union := ((s.withLayers r virtualK virtualV m).gpu.union.createNode kCache vCache
          prefixLen ts hash).2 } } Settled := hinv.createNode _ _ _ _ _
  have hself := created_self s r virtualK virtualV m kCache vCache prefixLen ts hash
  refine ⟨hcarry, rfl, allocated_created .., Nat.lt_succ_self _, Nat.le_refl _, ?_,
    filled_created prefixLen ts hash hfilled hlist hkApp hvApp,
    newNodes_created prefixLen ts hash h.gpu hr hnew halloc hkApp hvApp hk hv⟩
  exact congrArg PrefixNode.hash hself

end DashInfer.Cache
