import DashInfer.Cache.Span

/-!
Who holds a frame. The abstract view of a span manager is a list `table` of
spans held by the nodes of a prefix table and a predicate `out` of spans held
outside it (by requests, or by nodes not yet inserted); a span may be held in
both ways at once. `Owned` says that no held span's frame is free or has been
given to a later span, and that the extra-reference flag is exactly membership
in the table. `Covered` adds that no frame is lost. Each operation of the span
manager is one lemma.
-/

namespace DashInfer.Cache

open SpanManager

def Held (table : List SpanId) (out : SpanId → Prop) (span : SpanId) : Prop :=
  span ∈ table ∨ out span

structure Owned (m : SpanManager) (table : List SpanId) (out : SpanId → Prop) : Prop where
  free_nodup : m.frameManager.freeFrames.Nodup
  free_lt : ∀ frame ∈ m.frameManager.freeFrames, frame < m.frameManager.totalFrameCount
  count_eq : m.frameManager.freeFrameCount = m.frameManager.freeFrames.length
  table_nodup : table.Nodup
  held_lt : ∀ span, Held table out span → span < m.nextSpan
  frame_lt : ∀ span, Held table out span → m.frameOf span < m.frameManager.totalFrameCount
  frame_busy : ∀ span, Held table out span → m.frameOf span ∉ m.frameManager.freeFrames
  latest : ∀ span, Held table out span → ∀ later < m.nextSpan,
    m.frameOf later = m.frameOf span → later ≤ span
  table_flag : ∀ span ∈ table, (m.spans span).hasExtraRef = true
  out_flag : ∀ span, out span → span ∉ table → (m.spans span).hasExtraRef = false

/-- Every frame of the pool is free or held. -/
def Covered (m : SpanManager) (table : List SpanId) (out : SpanId → Prop) : Prop :=
  ∀ frame < m.frameManager.totalFrameCount,
    frame ∈ m.frameManager.freeFrames ∨ ∃ span, Held table out span ∧ m.frameOf span = frame

namespace Owned

variable {m m' : SpanManager} {table table' : List SpanId} {out out' : SpanId → Prop}

/-- Two held spans over one frame are one span. -/
theorem frame_inj (h : Owned m table out) {a b : SpanId} (ha : Held table out a)
    (hb : Held table out b) (hframe : m.frameOf a = m.frameOf b) : a = b := by
  have hab := h.latest b hb a (h.held_lt a ha) hframe
  have hba := h.latest a ha b (h.held_lt b hb) hframe.symm
  exact Nat.le_antisymm hab hba

theorem mono (h : Owned m table out) (hperm : table.Perm table')
    (hout : ∀ span, out' span → out span) : Owned m table' out' where
  free_nodup := h.free_nodup
  free_lt := h.free_lt
  count_eq := h.count_eq
  table_nodup := hperm.nodup h.table_nodup
  held_lt span hs := h.held_lt span (hs.imp hperm.mem_iff.mpr (hout span))
  frame_lt span hs := h.frame_lt span (hs.imp hperm.mem_iff.mpr (hout span))
  frame_busy span hs := h.frame_busy span (hs.imp hperm.mem_iff.mpr (hout span))
  latest span hs := h.latest span (hs.imp hperm.mem_iff.mpr (hout span))
  table_flag span hs := h.table_flag span (hperm.mem_iff.mpr hs)
  out_flag span hs hnot :=
    h.out_flag span (hout span hs) (fun hin => hnot (hperm.mem_iff.mp hin))

/-- The frames of distinct held spans are distinct frames of the pool, so
there are at most as many of them as the pool has frames. -/
theorem length_le_total (h : Owned m table out) {spans : List SpanId}
    (hnodup : spans.Nodup) (hheld : ∀ span ∈ spans, Held table out span) :
    spans.length ≤ m.frameManager.totalFrameCount := by
  have hframes : (spans.map m.frameOf).Nodup := by
    refine List.Nodup.map_on ?_ hnodup
    intro a ha b hb heq
    exact h.frame_inj (hheld a ha) (hheld b hb) heq
  have hsub : spans.map m.frameOf ⊆ List.range m.frameManager.totalFrameCount := by
    intro frame hframe
    obtain ⟨span, hspan, rfl⟩ := List.mem_map.mp hframe
    exact List.mem_range.mpr (h.frame_lt span (hheld span hspan))
  have hle := (hframes.subperm hsub).length_le
  simpa using hle

end Owned

/-- What a successful claim returns: fresh consecutive spans over the frames
at the head of the free queue, without an extra reference. -/
structure Claimed (m m' : SpanManager) (spans : List SpanId) (count : Nat) : Prop where
  spans_eq : spans = List.range' m.nextSpan count
  nextSpan_eq : m'.nextSpan = m.nextSpan + count
  total_eq : m'.frameManager.totalFrameCount = m.frameManager.totalFrameCount
  count_eq : m'.frameManager.freeFrameCount = m.frameManager.freeFrameCount - count
  queue_eq : m.frameManager.freeFrames = spans.map m'.frameOf ++ m'.frameManager.freeFrames
  flag : ∀ span ∈ spans, (m'.spans span).hasExtraRef = false
  old : ∀ span < m.nextSpan, m'.spans span = m.spans span

theorem SpanManager.claimSpan_some {m m' : SpanManager} {count : Nat}
    {spans : List SpanId} (h : m.claimSpan count = (some spans, m')) :
    Claimed m m' spans count := by
  unfold SpanManager.claimSpan at h
  split at h
  · cases h
  · next _ frames frameManager hal =>
      obtain ⟨hqueue, hlen, hcount, htotal⟩ := FrameManager.allocFrame_some hal
      cases h
      have hmap : (List.range' m.nextSpan count).map (fun span => frames.getD (span - m.nextSpan) 0)
          = frames := by
        apply List.ext_getElem
        · simp [hlen]
        · intro i h1 h2
          simp [List.getElem?_eq_getElem h2]
      refine ⟨rfl, rfl, htotal, hcount, ?_, ?_, ?_⟩
      · rw [hqueue]
        congr 1
        rw [← hmap]
        apply List.map_congr_left
        intro span hspan
        have hrange := List.mem_range'_1.mp hspan
        have hin : m.nextSpan ≤ span ∧ span < m.nextSpan + count := hrange
        simp only [SpanManager.frameOf, hin, and_self, if_true, hmap]
      · intro span hspan
        have hin : m.nextSpan ≤ span ∧ span < m.nextSpan + count := List.mem_range'_1.mp hspan
        simp only [hin, and_self, if_true]
      · intro span hspan
        have hout : ¬ (m.nextSpan ≤ span ∧ span < m.nextSpan + count) :=
          fun hin => Nat.not_lt.mpr hin.1 hspan
        simp only [hout, if_false]

namespace Claimed

variable {m m' : SpanManager} {spans : List SpanId} {count : Nat}

theorem frameOf_old (h : Claimed m m' spans count) {span : SpanId}
    (hspan : span < m.nextSpan) : m'.frameOf span = m.frameOf span := by
  unfold SpanManager.frameOf
  rw [h.old span hspan]

theorem mem_iff (h : Claimed m m' spans count) {span : SpanId} :
    span ∈ spans ↔ m.nextSpan ≤ span ∧ span < m'.nextSpan := by
  rw [h.spans_eq, h.nextSpan_eq, List.mem_range'_1]

theorem length_eq (h : Claimed m m' spans count) : spans.length = count := by
  rw [h.spans_eq, List.length_range']

theorem nodup (h : Claimed m m' spans count) : spans.Nodup := by
  rw [h.spans_eq]
  exact List.nodup_range'

variable {table : List SpanId} {out : SpanId → Prop}

/-- Claimed spans join the spans held outside the table. -/
theorem owned (h : Claimed m m' spans count) (ho : Owned m table out) :
    Owned m' table (fun span => out span ∨ span ∈ spans) := by
  have hqueue : (spans.map m'.frameOf ++ m'.frameManager.freeFrames).Nodup :=
    h.queue_eq ▸ ho.free_nodup
  obtain ⟨hnew, hrest, hdisj⟩ := List.nodup_append.mp hqueue
  have hsplit : ∀ span, Held table (fun span => out span ∨ span ∈ spans) span →
      Held table out span ∨ span ∈ spans := by
    rintro span (hs | hs | hs)
    · exact Or.inl (Or.inl hs)
    · exact Or.inl (Or.inr hs)
    · exact Or.inr hs
  have hmem : ∀ span ∈ spans, m'.frameOf span ∈ m.frameManager.freeFrames := by
    intro span hspan
    rw [h.queue_eq]
    exact List.mem_append_left _ (List.mem_map_of_mem hspan)
  have htail : ∀ frame ∈ m'.frameManager.freeFrames, frame ∈ m.frameManager.freeFrames := by
    intro frame hframe
    rw [h.queue_eq]
    exact List.mem_append_right _ hframe
  refine
    { free_nodup := hrest
      free_lt := fun frame hf => h.total_eq ▸ ho.free_lt frame (htail frame hf)
      count_eq := ?_
      table_nodup := ho.table_nodup
      held_lt := ?_
      frame_lt := ?_
      frame_busy := ?_
      latest := ?_
      table_flag := ?_
      out_flag := ?_ }
  · have hlen : (m.frameManager.freeFrames.length : Int) =
        spans.length + m'.frameManager.freeFrames.length := by
      rw [h.queue_eq]
      simp
    rw [h.count_eq, ho.count_eq, hlen, h.length_eq]
    ring
  · intro span hs
    rw [h.nextSpan_eq]
    rcases hsplit span hs with hs | hs
    · exact Nat.lt_add_right _ (ho.held_lt span hs)
    · exact h.nextSpan_eq ▸ (h.mem_iff.mp hs).2
  · intro span hs
    rw [h.total_eq]
    rcases hsplit span hs with hs | hs
    · rw [h.frameOf_old (ho.held_lt span hs)]
      exact ho.frame_lt span hs
    · exact ho.free_lt _ (hmem span hs)
  · intro span hs hfree
    rcases hsplit span hs with hs | hs
    · rw [h.frameOf_old (ho.held_lt span hs)] at hfree
      exact ho.frame_busy span hs (htail _ hfree)
    · exact hdisj _ (List.mem_map_of_mem hs) _ hfree rfl
  · intro span hs later hlater heq
    rcases hsplit span hs with hs | hs
    · have hold := h.frameOf_old (ho.held_lt span hs)
      by_cases hl : later < m.nextSpan
      · rw [h.frameOf_old hl, hold] at heq
        exact ho.latest span hs later hl heq
      · have hin := hmem later (h.mem_iff.mpr ⟨Nat.le_of_not_lt hl, hlater⟩)
        rw [heq, hold] at hin
        exact absurd hin (ho.frame_busy span hs)
    · by_cases hl : later < m.nextSpan
      · exact Nat.le_of_lt (Nat.lt_of_lt_of_le hl (h.mem_iff.mp hs).1)
      · have hls := h.mem_iff.mpr ⟨Nat.le_of_not_lt hl, hlater⟩
        exact le_of_eq (List.inj_on_of_nodup_map hnew hls hs heq)
  · intro span hs
    rw [h.old span (ho.held_lt span (Or.inl hs))]
    exact ho.table_flag span hs
  · rintro span (hs | hs) hnot
    · rw [h.old span (ho.held_lt span (Or.inr hs))]
      exact ho.out_flag span hs hnot
    · exact h.flag span hs

theorem covered (h : Claimed m m' spans count) (ho : Owned m table out)
    (hc : Covered m table out) :
    Covered m' table (fun span => out span ∨ span ∈ spans) := by
  intro frame hframe
  rcases hc frame (h.total_eq ▸ hframe) with hfree | ⟨span, hspan, rfl⟩
  · rw [h.queue_eq] at hfree
    rcases List.mem_append.mp hfree with hnew | hold
    · obtain ⟨span, hspan, rfl⟩ := List.mem_map.mp hnew
      exact Or.inr ⟨span, Or.inr (Or.inr hspan), rfl⟩
    · exact Or.inl hold
  · refine Or.inr ⟨span, hspan.imp id Or.inl, ?_⟩
    exact h.frameOf_old (ho.held_lt span hspan)

end Claimed

namespace Owned

variable {m : SpanManager} {table : List SpanId} {out out' : SpanId → Prop}

/-- A node whose spans are held outside the table enters the table. -/
theorem insert (h : Owned m table out) {spans : List SpanId} (hnodup : spans.Nodup)
    (hout : ∀ span ∈ spans, out span) (hfresh : ∀ span ∈ spans, span ∉ table) :
    Owned (m.setExtraRef true spans) (spans ++ table) out := by
  have hheld : ∀ span, Held (spans ++ table) out span → Held table out span := by
    rintro span (hs | hs)
    · rcases List.mem_append.mp hs with hs | hs
      · exact Or.inr (hout span hs)
      · exact Or.inl hs
    · exact Or.inr hs
  refine
    { free_nodup := h.free_nodup
      free_lt := h.free_lt
      count_eq := h.count_eq
      table_nodup := List.nodup_append.mpr ⟨hnodup, h.table_nodup, ?_⟩
      held_lt := fun span hs => h.held_lt span (hheld span hs)
      frame_lt := ?_
      frame_busy := ?_
      latest := ?_
      table_flag := ?_
      out_flag := ?_ }
  · rintro a ha b hb rfl
    exact hfresh a ha hb
  · intro span hs
    rw [setExtraRef_frameOf]
    exact h.frame_lt span (hheld span hs)
  · intro span hs
    rw [setExtraRef_frameOf]
    exact h.frame_busy span (hheld span hs)
  · intro span hs later hlater heq
    rw [setExtraRef_frameOf, setExtraRef_frameOf] at heq
    exact h.latest span (hheld span hs) later hlater heq
  · intro span hs
    rw [setExtraRef_hasExtraRef]
    split
    · rfl
    · next hnot => exact h.table_flag span ((List.mem_append.mp hs).resolve_left hnot)
  · intro span hs hnot
    have hnot' := fun hin => hnot (List.mem_append_right spans hin)
    rw [setExtraRef_hasExtraRef, if_neg (fun hin => hnot (List.mem_append_left _ hin))]
    exact h.out_flag span hs hnot'

/-- Setting the flag of spans that are in the table already changes nothing. -/
theorem setExtraRef_table (h : Owned m table out) {spans : List SpanId}
    (hin : ∀ span ∈ spans, span ∈ table) : m.setExtraRef true spans = m := by
  unfold SpanManager.setExtraRef
  congr 1
  funext span
  split
  · next hs =>
      have := h.table_flag span (hin span hs)
      cases hspan : m.spans span
      simp_all
  · rfl

/-- A release of spans held outside the table gives back those not in it. -/
theorem released_eq (h : Owned m table out) {spans : List SpanId}
    (hout : ∀ span ∈ spans, out span) :
    m.released spans = spans.filter (fun span => decide (span ∉ table)) := by
  refine List.filter_congr ?_
  intro span hspan
  by_cases hin : span ∈ table
  · simp [hin, h.table_flag span hin]
  · simp [hin, h.out_flag span (hout span hspan) hin]

/-- Freeing, in general: the frames of a list of distinct held spans join the
free queue, and every span held afterwards was held before and is not one of
them. -/
theorem free {m' : SpanManager} {table' freed : List SpanId} (h : Owned m table out)
    (hmanager : m'.frameManager =
      { m.frameManager with
        freeFrames := m.frameManager.freeFrames ++ freed.map m.frameOf
        freeFrameCount := m.frameManager.freeFrameCount + freed.length })
    (hnext : m'.nextSpan = m.nextSpan) (hframeOf : m'.frameOf = m.frameOf)
    (hnodup : freed.Nodup) (hheld : ∀ span ∈ freed, Held table out span)
    (hkeep : ∀ span, Held table' out' span → Held table out span ∧ span ∉ freed)
    (htable : table'.Nodup) (hflag : ∀ span ∈ table', (m'.spans span).hasExtraRef = true)
    (hflag' : ∀ span, out' span → span ∉ table' → (m'.spans span).hasExtraRef = false) :
    Owned m' table' out' := by
  have hframes : (freed.map m.frameOf).Nodup := by
    refine List.Nodup.map_on ?_ hnodup
    intro a ha b hb heq
    exact h.frame_inj (hheld a ha) (hheld b hb) heq
  refine
    { free_nodup := ?_
      free_lt := ?_
      count_eq := ?_
      table_nodup := htable
      held_lt := fun span hs => hnext ▸ h.held_lt span (hkeep span hs).1
      frame_lt := ?_
      frame_busy := ?_
      latest := ?_
      table_flag := hflag
      out_flag := hflag' }
  · rw [hmanager]
    refine List.nodup_append.mpr ⟨h.free_nodup, hframes, ?_⟩
    rintro f hf g hg rfl
    obtain ⟨span, hspan, rfl⟩ := List.mem_map.mp hg
    exact h.frame_busy span (hheld span hspan) hf
  · rw [hmanager]
    intro f hf
    rcases List.mem_append.mp hf with hf | hf
    · exact h.free_lt f hf
    · obtain ⟨span, hspan, rfl⟩ := List.mem_map.mp hf
      exact h.frame_lt span (hheld span hspan)
  · rw [hmanager]
    simp [h.count_eq]
  · intro span hs
    rw [hmanager, hframeOf]
    exact h.frame_lt span (hkeep span hs).1
  · intro span hs hin
    rw [hmanager, hframeOf] at hin
    rcases List.mem_append.mp hin with hin | hin
    · exact h.frame_busy span (hkeep span hs).1 hin
    · obtain ⟨other, hother, heq⟩ := List.mem_map.mp hin
      have hsame := h.frame_inj (hheld other hother) (hkeep span hs).1 heq
      exact (hkeep span hs).2 (hsame ▸ hother)
  · intro span hs later hlater heq
    rw [hframeOf] at heq
    exact h.latest span (hkeep span hs).1 later (hnext ▸ hlater) heq

/-- A node leaves the table and its frames go back to the free queue. This is
sound when nothing outside the table holds its spans. -/
theorem remove {spans : List SpanId} (h : Owned m (spans ++ table) out)
    (hout : ∀ span ∈ spans, ¬ out span) :
    Owned ((m.setExtraRef false spans).releaseSpans spans) table out := by
  obtain ⟨hnodup, htable, hdisj⟩ := List.nodup_append.mp h.table_nodup
  have hnotin : ∀ span, Held table out span → span ∉ spans := by
    rintro span (hs | hs) hin
    · exact hdisj span hin span hs rfl
    · exact hout span hin hs
  have hflag : ∀ span, Held table out span →
      (((m.setExtraRef false spans).releaseSpans spans).spans span).hasExtraRef =
        (m.spans span).hasExtraRef := by
    intro span hs
    rw [releaseSpans_spans, setExtraRef_hasExtraRef, if_neg (hnotin span hs)]
  refine h.free (releaseSpans_unset m spans) (by simp) (releaseSpans_unset_frameOf m spans)
    hnodup ?_ ?_ htable ?_ ?_
  · intro span hs
    exact Or.inl (List.mem_append_left _ hs)
  · intro span hs
    exact ⟨hs.imp (List.mem_append_right _) id, hnotin span hs⟩
  · intro span hs
    rw [hflag span (Or.inl hs)]
    exact h.table_flag span (List.mem_append_right _ hs)
  · intro span hs hnot
    rw [hflag span (Or.inr hs)]
    refine h.out_flag span hs ?_
    intro hin
    rcases List.mem_append.mp hin with hin | hin
    · exact hout span hin hs
    · exact hnot hin

/-- The spans of a destroyed request: those in the table stay, the others, each
held once, are freed. -/
theorem drop {gone : List SpanId} (h : Owned m table out) (hgone : ∀ span ∈ gone, out span)
    (honce : (gone.filter (fun span => decide (span ∉ table))).Nodup)
    (hkeep : ∀ span, out' span → out span)
    (hlast : ∀ span ∈ gone, span ∉ table → ¬ out' span) :
    Owned (m.releaseSpans gone) table out' := by
  refine h.free (by rw [releaseSpans_eq, h.released_eq hgone]) (by simp)
    (releaseSpans_frameOf m gone) honce ?_ ?_ h.table_nodup ?_ ?_
  · intro span hs
    exact Or.inr (hgone span (List.mem_filter.mp hs).1)
  · rintro span (hs | hs)
    · refine ⟨Or.inl hs, ?_⟩
      intro hin
      exact of_decide_eq_true (List.mem_filter.mp hin).2 hs
    · refine ⟨Or.inr (hkeep span hs), ?_⟩
      intro hin
      obtain ⟨hin, hnot⟩ := List.mem_filter.mp hin
      exact hlast span hin (of_decide_eq_true hnot) hs
  · intro span hs
    rw [releaseSpans_spans]
    exact h.table_flag span hs
  · intro span hs hnot
    rw [releaseSpans_spans]
    exact h.out_flag span (hkeep span hs) hnot

/-- The pool grows: new frames are free and nothing else changes. -/
theorem grow (h : Owned m table out) (count : Nat) :
    Owned { m with frameManager := m.frameManager.growBy count } table out := by
  obtain ⟨hqueue, hcount, htotal⟩ := FrameManager.growBy_eq m.frameManager count
  refine
    { free_nodup := ?_
      free_lt := ?_
      count_eq := ?_
      table_nodup := h.table_nodup
      held_lt := h.held_lt
      frame_lt := ?_
      frame_busy := ?_
      latest := h.latest
      table_flag := h.table_flag
      out_flag := h.out_flag }
  · show (m.frameManager.growBy count).freeFrames.Nodup
    rw [hqueue]
    refine List.nodup_append.mpr ⟨h.free_nodup, List.nodup_range', ?_⟩
    rintro f hf g hg rfl
    exact Nat.not_lt.mpr (List.mem_range'_1.mp hg).1 (h.free_lt f hf)
  · intro f hf
    show f < (m.frameManager.growBy count).totalFrameCount
    rw [show ({ m with frameManager := m.frameManager.growBy count } : SpanManager).frameManager =
      m.frameManager.growBy count from rfl, hqueue] at hf
    rw [htotal]
    rcases List.mem_append.mp hf with hf | hf
    · exact Nat.lt_add_right _ (h.free_lt f hf)
    · exact (List.mem_range'_1.mp hf).2
  · show (m.frameManager.growBy count).freeFrameCount =
      ((m.frameManager.growBy count).freeFrames.length : Int)
    rw [hcount, hqueue, h.count_eq]
    simp
  · intro span hs
    show m.frameOf span < (m.frameManager.growBy count).totalFrameCount
    rw [htotal]
    exact Nat.lt_add_right _ (h.frame_lt span hs)
  · intro span hs hin
    replace hin : m.frameOf span ∈ (m.frameManager.growBy count).freeFrames := hin
    rw [hqueue] at hin
    rcases List.mem_append.mp hin with hin | hin
    · exact h.frame_busy span hs hin
    · exact Nat.not_lt.mpr (List.mem_range'_1.mp hin).1 (h.frame_lt span hs)

end Owned

namespace Covered

variable {m m' : SpanManager} {table table' freed : List SpanId} {out out' : SpanId → Prop}

theorem mono (h : Covered m table out)
    (hheld : ∀ span, Held table out span → Held table' out' span) : Covered m table' out' := by
  intro frame hframe
  rcases h frame hframe with hfree | ⟨span, hspan, rfl⟩
  · exact Or.inl hfree
  · exact Or.inr ⟨span, hheld span hspan, rfl⟩

/-- Freeing loses no frame when every span held before is freed or kept. -/
theorem free (h : Covered m table out)
    (hmanager : m'.frameManager =
      { m.frameManager with
        freeFrames := m.frameManager.freeFrames ++ freed.map m.frameOf
        freeFrameCount := m.frameManager.freeFrameCount + freed.length })
    (hframeOf : m'.frameOf = m.frameOf)
    (hheld : ∀ span, Held table out span → span ∈ freed ∨ Held table' out' span) :
    Covered m' table' out' := by
  intro frame hframe
  rw [hmanager] at hframe ⊢
  rw [hframeOf]
  rcases h frame hframe with hfree | ⟨span, hspan, rfl⟩
  · exact Or.inl (List.mem_append_left _ hfree)
  · rcases hheld span hspan with hfreed | hkept
    · exact Or.inl (List.mem_append_right _ (List.mem_map_of_mem hfreed))
    · exact Or.inr ⟨span, hkept, rfl⟩

theorem setExtraRef (h : Covered m table out) (flag : Bool) (spans : List SpanId) :
    Covered (m.setExtraRef flag spans) table out := by
  intro frame hframe
  rcases h frame hframe with hfree | ⟨span, hspan, rfl⟩
  · exact Or.inl hfree
  · exact Or.inr ⟨span, hspan, setExtraRef_frameOf m flag spans span⟩

theorem remove {spans : List SpanId} (h : Covered m (spans ++ table) out) :
    Covered ((m.setExtraRef false spans).releaseSpans spans) table out := by
  refine h.free (releaseSpans_unset m spans) (releaseSpans_unset_frameOf m spans) ?_
  rintro span (hs | hs)
  · exact (List.mem_append.mp hs).imp id Or.inl
  · exact Or.inr (Or.inr hs)

theorem drop {gone : List SpanId} (ho : Owned m table out) (h : Covered m table out)
    (hgone : ∀ span ∈ gone, out span) (hrest : ∀ span, out span → span ∈ gone ∨ out' span) :
    Covered (m.releaseSpans gone) table out' := by
  refine h.free (by rw [releaseSpans_eq, ho.released_eq hgone]) (releaseSpans_frameOf m gone) ?_
  rintro span (hs | hs)
  · exact Or.inr (Or.inl hs)
  · rcases hrest span hs with hin | hin
    · by_cases htab : span ∈ table
      · exact Or.inr (Or.inl htab)
      · exact Or.inl (List.mem_filter.mpr ⟨hin, decide_eq_true htab⟩)
    · exact Or.inr (Or.inr hin)

theorem grow (h : Covered m table out) (count : Nat) :
    Covered { m with frameManager := m.frameManager.growBy count } table out := by
  obtain ⟨hqueue, _, htotal⟩ := FrameManager.growBy_eq m.frameManager count
  intro frame hframe
  replace hframe : frame < (m.frameManager.growBy count).totalFrameCount := hframe
  rw [htotal] at hframe
  rw [show ({ m with frameManager := m.frameManager.growBy count } : SpanManager).frameManager =
    m.frameManager.growBy count from rfl, hqueue]
  by_cases hold : frame < m.frameManager.totalFrameCount
  · rcases h frame hold with hfree | hheld
    · exact Or.inl (List.mem_append_left _ hfree)
    · exact Or.inr hheld
  · refine Or.inl (List.mem_append_right _ (List.mem_range'_1.mpr ⟨Nat.le_of_not_lt hold, hframe⟩))

end Covered

/-- The initial pool: every frame is free and nothing is held. -/
theorem owned_init (frames : Nat) : Owned (SpanManager.init frames) [] (fun _ => False) := by
  have hempty : Owned
      { frameManager := { freeFrames := [], freeFrameCount := 0, totalFrameCount := 0 }
        spans := fun _ => { frame := 0, hasExtraRef := false }
        nextSpan := 0 } [] (fun _ => False) := by
    constructor <;> simp [Held]
  exact hempty.grow frames

theorem covered_init (frames : Nat) : Covered (SpanManager.init frames) [] (fun _ => False) := by
  have hempty : Covered
      { frameManager := { freeFrames := [], freeFrameCount := 0, totalFrameCount := 0 }
        spans := fun _ => { frame := 0, hasExtraRef := false }
        nextSpan := 0 } [] (fun _ => False) := by
    intro frame hframe
    exact absurd hframe (Nat.not_lt_zero _)
  exact hempty.grow frames

end DashInfer.Cache
