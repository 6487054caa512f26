import Mathlib.Tactic

/-!
The cache frames of one device and the spans made of them: the concurrent
frame manager's free queue with its separate counter, and the concurrent span
manager on top of it. A span is an object with identity: it is created over a
frame, may outlive its last use, and carries the flag by which the prefix
table tells a request's destructor to leave the frame alone. Frames are named
by their creation order.
-/

namespace DashInfer.Cache

abbrev FrameId := Nat
abbrev SpanId := Nat

/-- `ConcurrentCacheFrameManager`. -/
structure FrameManager where
  freeFrames : List FrameId
  freeFrameCount : Int
  totalFrameCount : Nat

namespace FrameManager

/-- The bulk `AllocFrame`: all `count` frames or none. A short bulk dequeue is
enqueued again, behind whatever is left, and the counter stays as it was. -/
def allocFrame (m : FrameManager) (count : Nat) : Option (List FrameId) × FrameManager :=
  let finished := m.freeFrames.take count
  let queue := m.freeFrames.drop count
  if finished.length ≠ count then
    (none, { m with freeFrames := queue ++ finished })
  else
    (some finished,
      { m with freeFrames := queue, freeFrameCount := m.freeFrameCount - count })

def freeFrame (m : FrameManager) (frame : FrameId) : FrameManager :=
  { m with
    freeFrames := m.freeFrames ++ [frame]
    freeFrameCount := m.freeFrameCount + 1 }

def createFrame (m : FrameManager) : FrameManager :=
  { freeFrames := m.freeFrames ++ [m.totalFrameCount]
    freeFrameCount := m.freeFrameCount + 1
    totalFrameCount := m.totalFrameCount + 1 }

def growBy (m : FrameManager) : Nat → FrameManager
  | 0 => m
  | n + 1 => (m.growBy n).createFrame

/-- `Init` over `frames` initial frames, all of them created. -/
def init (frames : Nat) : FrameManager :=
  growBy { freeFrames := [], freeFrameCount := 0, totalFrameCount := 0 } frames

end FrameManager

structure CacheSpan where
  frame : FrameId
  hasExtraRef : Bool

/-- `ConcurrentCacheSpanManager`, with the spans it has created. -/
structure SpanManager where
  frameManager : FrameManager
  spans : SpanId → CacheSpan
  nextSpan : SpanId

namespace SpanManager

def frameOf (m : SpanManager) (span : SpanId) : FrameId := (m.spans span).frame

def claimSpan (m : SpanManager) (count : Nat) : Option (List SpanId) × SpanManager :=
  match m.frameManager.allocFrame count with
  | (none, frameManager) => (none, { m with frameManager })
  | (some frames, frameManager) =>
      (some (List.range' m.nextSpan count),
        { frameManager
          spans := fun span =>
            if m.nextSpan ≤ span ∧ span < m.nextSpan + count then
              { frame := frames.getD (span - m.nextSpan) 0, hasExtraRef := false }
            else m.spans span
          nextSpan := m.nextSpan + count })

def releaseSpan (m : SpanManager) (span : SpanId) : SpanManager :=
  if (m.spans span).hasExtraRef = false then
    { m with frameManager := m.frameManager.freeFrame (m.frameOf span) }
  else m

def releaseSpans (m : SpanManager) (spans : List SpanId) : SpanManager :=
  spans.foldl releaseSpan m

/-- `RefCacheSpan` (`flag = true`) or `UnrefCacheSpan` on each listed span. -/
def setExtraRef (m : SpanManager) (flag : Bool) (spans : List SpanId) : SpanManager :=
  { m with
    spans := fun span =>
      if span ∈ spans then { m.spans span with hasExtraRef := flag } else m.spans span }

/-- `Init`: the first `frames` frames are created and no span exists. -/
def init (frames : Nat) : SpanManager :=
  { frameManager := FrameManager.init frames
    spans := fun _ => { frame := 0, hasExtraRef := false }
    nextSpan := 0 }

@[simp] theorem setExtraRef_frameManager (m : SpanManager) (flag : Bool)
    (spans : List SpanId) : (m.setExtraRef flag spans).frameManager = m.frameManager := rfl

@[simp] theorem setExtraRef_nextSpan (m : SpanManager) (flag : Bool)
    (spans : List SpanId) : (m.setExtraRef flag spans).nextSpan = m.nextSpan := rfl

@[simp] theorem setExtraRef_frameOf (m : SpanManager) (flag : Bool)
    (spans : List SpanId) (span : SpanId) :
    (m.setExtraRef flag spans).frameOf span = m.frameOf span := by
  unfold frameOf setExtraRef
  dsimp only
  split <;> rfl

theorem setExtraRef_hasExtraRef (m : SpanManager) (flag : Bool)
    (spans : List SpanId) (span : SpanId) :
    ((m.setExtraRef flag spans).spans span).hasExtraRef =
      if span ∈ spans then flag else (m.spans span).hasExtraRef := by
  unfold setExtraRef
  dsimp only
  split <;> rfl

/-- The listed spans a release really gives back: those without an extra
reference. -/
def released (m : SpanManager) (spans : List SpanId) : List SpanId :=
  spans.filter (fun span => !(m.spans span).hasExtraRef)

/-- Releasing a list appends the frames of its unreferenced spans to the free
queue, once per occurrence, and changes nothing else. -/
theorem releaseSpans_eq (m : SpanManager) (spans : List SpanId) :
    m.releaseSpans spans =
      { m with
        frameManager :=
          { m.frameManager with
            freeFrames := m.frameManager.freeFrames ++ (m.released spans).map m.frameOf
            freeFrameCount :=
              m.frameManager.freeFrameCount + (m.released spans).length } } := by
  induction spans generalizing m with
  | nil => simp [releaseSpans, released]
  | cons span rest ih =>
      rw [show m.releaseSpans (span :: rest) = (m.releaseSpan span).releaseSpans rest from rfl,
        ih (m.releaseSpan span)]
      unfold releaseSpan
      by_cases hflag : (m.spans span).hasExtraRef = false
      · rw [if_pos hflag]
        have hrel : m.released (span :: rest) = span :: m.released rest := by
          simp [released, hflag]
        have hsame : released { m with
            frameManager := m.frameManager.freeFrame (m.frameOf span) } rest =
              m.released rest := rfl
        rw [hrel, hsame]
        simp [FrameManager.freeFrame, frameOf, List.append_assoc, add_assoc, add_comm]
      · rw [if_neg hflag]
        have hrel : m.released (span :: rest) = m.released rest := by
          simp [released, Bool.eq_true_of_not_eq_false hflag]
        rw [hrel]

@[simp] theorem releaseSpans_spans (m : SpanManager) (spans : List SpanId) :
    (m.releaseSpans spans).spans = m.spans := by
  rw [releaseSpans_eq]

@[simp] theorem releaseSpans_nextSpan (m : SpanManager) (spans : List SpanId) :
    (m.releaseSpans spans).nextSpan = m.nextSpan := by
  rw [releaseSpans_eq]

@[simp] theorem releaseSpans_total (m : SpanManager) (spans : List SpanId) :
    (m.releaseSpans spans).frameManager.totalFrameCount =
      m.frameManager.totalFrameCount := by
  rw [releaseSpans_eq]

theorem releaseSpans_frameOf (m : SpanManager) (spans : List SpanId) :
    (m.releaseSpans spans).frameOf = m.frameOf := by
  funext span
  unfold frameOf
  rw [releaseSpans_spans]

/-- Clearing the flags of a list and releasing it, as the table does when a
node is removed, gives every listed frame back. -/
theorem releaseSpans_unset (m : SpanManager) (spans : List SpanId) :
    ((m.setExtraRef false spans).releaseSpans spans).frameManager =
      { m.frameManager with
        freeFrames := m.frameManager.freeFrames ++ spans.map m.frameOf
        freeFrameCount := m.frameManager.freeFrameCount + spans.length } := by
  have hrel : (m.setExtraRef false spans).released spans = spans := by
    unfold released
    rw [List.filter_eq_self]
    intro span hs
    rw [setExtraRef_hasExtraRef, if_pos hs]
    rfl
  have hfun : (m.setExtraRef false spans).frameOf = m.frameOf :=
    funext (setExtraRef_frameOf m false spans)
  rw [releaseSpans_eq, hrel, hfun]
  rfl

theorem releaseSpans_unset_frameOf (m : SpanManager) (spans : List SpanId) :
    ((m.setExtraRef false spans).releaseSpans spans).frameOf = m.frameOf := by
  rw [releaseSpans_frameOf]
  exact funext (setExtraRef_frameOf m false spans)

end SpanManager

/-- The new frames are the next ones in creation order, all of them free. -/
theorem FrameManager.growBy_eq (m : FrameManager) (count : Nat) :
    (m.growBy count).freeFrames = m.freeFrames ++ List.range' m.totalFrameCount count ∧
      (m.growBy count).freeFrameCount = m.freeFrameCount + count ∧
      (m.growBy count).totalFrameCount = m.totalFrameCount + count := by
  induction count with
  | zero => simp [FrameManager.growBy]
  | succ count ih =>
      obtain ⟨hqueue, hcount, htotal⟩ := ih
      refine ⟨?_, ?_, ?_⟩
      · simp [FrameManager.growBy, FrameManager.createFrame, hqueue, htotal,
          List.range'_concat]
      · simp only [FrameManager.growBy, FrameManager.createFrame, hcount]
        push_cast
        ring
      · simp only [FrameManager.growBy, FrameManager.createFrame, htotal]
        ring

theorem FrameManager.allocFrame_some {m m' : FrameManager} {count : Nat}
    {frames : List FrameId} (h : m.allocFrame count = (some frames, m')) :
    m.freeFrames = frames ++ m'.freeFrames ∧ frames.length = count ∧
      m'.freeFrameCount = m.freeFrameCount - count ∧
      m'.totalFrameCount = m.totalFrameCount := by
  unfold FrameManager.allocFrame at h
  dsimp only at h
  split at h
  · cases h
  · next hlen =>
      cases h
      exact ⟨(List.take_append_drop count _).symm, not_not.mp hlen, rfl, rfl⟩

/-- A refused bulk allocation leaves the queue and the counter unchanged. -/
theorem FrameManager.allocFrame_none {m m' : FrameManager} {count : Nat}
    (h : m.allocFrame count = (none, m')) : m' = m := by
  unfold FrameManager.allocFrame at h
  dsimp only at h
  split at h
  · next hlen =>
      cases h
      have hshort : m.freeFrames.length ≤ count := by
        rw [List.length_take] at hlen
        omega
      rw [List.drop_eq_nil_of_le hshort, List.take_of_length_le hshort]
      rfl
  · cases h

theorem SpanManager.claimSpan_none {m m' : SpanManager} {count : Nat}
    (h : m.claimSpan count = (none, m')) : m' = m := by
  unfold SpanManager.claimSpan at h
  split at h
  · next _ frameManager hal =>
      cases h
      rw [FrameManager.allocFrame_none hal]
  · cases h

theorem SpanManager.claimSpan_none_lt {m m' : SpanManager} {count : Nat}
    (h : m.claimSpan count = (none, m')) : m.frameManager.freeFrames.length < count := by
  unfold SpanManager.claimSpan FrameManager.allocFrame at h
  dsimp only at h
  split_ifs at h with hne
  · rw [List.length_take] at hne
    omega
  · cases h

theorem SpanManager.claimSpan_length {m m' : SpanManager} {count : Nat} {spans : List SpanId}
    (h : m.claimSpan count = (some spans, m')) : spans.length = count := by
  unfold SpanManager.claimSpan at h
  split at h
  · cases h
  · cases h
    exact List.length_range' ..

theorem SpanManager.claimSpan_one {m m' : SpanManager} {spans : List SpanId}
    (h : m.claimSpan 1 = (some spans, m')) : spans = [m.nextSpan] := by
  unfold SpanManager.claimSpan at h
  split at h
  · cases h
  · cases h
    rfl

end DashInfer.Cache
