import DashInfer.Lib.Buffer

/-!
Sharding the columns of a row-major buffer. The columns fall into strips; a
strip is divided evenly among the ranks or shared by all of them, and a shard
holds its parts of the strips side by side. Copying the parts row by row fills
a shard, and putting the parts of all shards side by side again gives the
whole buffer.
-/

namespace DashInfer.Lib

variable {α : Type}

/-- A run of columns, by what one shard holds of it. -/
structure Strip where
  width : Nat
  shared : Bool
deriving DecidableEq, Repr

namespace Strip

/-- The columns of the strip in the whole buffer. -/
def whole (ranks : Nat) (t : Strip) : Nat := if t.shared then t.width else ranks * t.width

/-- Where the part of one rank starts in the strip. -/
def start (r : Nat) (t : Strip) : Nat := if t.shared then 0 else r * t.width

theorem start_le {ranks r : Nat} (t : Strip) (h : r < ranks) :
    t.start r + t.width ≤ t.whole ranks := by
  rw [start, whole]
  split
  · omega
  · calc r * t.width + t.width = (r + 1) * t.width := (Nat.succ_mul r t.width).symm
      _ ≤ ranks * t.width := Nat.mul_le_mul_right _ h

end Strip

def shardPitch (l : List Strip) : Nat := (l.map Strip.width).sum

def wholePitch (ranks : Nat) (l : List Strip) : Nat := (l.map (Strip.whole ranks)).sum

@[simp] theorem shardPitch_nil : shardPitch [] = 0 := rfl

@[simp] theorem shardPitch_cons (t : Strip) (l : List Strip) :
    shardPitch (t :: l) = t.width + shardPitch l := by
  simp [shardPitch]

@[simp] theorem wholePitch_nil (ranks : Nat) : wholePitch ranks [] = 0 := rfl

@[simp] theorem wholePitch_cons (ranks : Nat) (t : Strip) (l : List Strip) :
    wholePitch ranks (t :: l) = t.whole ranks + wholePitch ranks l := by
  simp [wholePitch]

theorem shardPitch_le_wholePitch {ranks : Nat} (hranks : 0 < ranks) (l : List Strip) :
    shardPitch l ≤ wholePitch ranks l := by
  induction l with
  | nil => exact le_refl _
  | cons t rest ih =>
      rw [shardPitch_cons, wholePitch_cons]
      have hstart := t.start_le hranks
      omega

/-- How rows of a shard lie in the whole buffer. -/
structure Pitches where
  height : Nat
  shard : Nat
  whole : Nat

/-- The copies of one strip, one for each row. -/
def Strip.regions (p : Pitches) (r d s : Nat) (t : Strip) : List Region :=
  (List.range p.height).map fun i => ⟨i * p.shard + d, i * p.whole + (s + t.start r), t.width⟩

/-- The copies that fill the shard of rank `r`, from column `d` of the shard
and column `s` of the whole buffer on. -/
def stripRegions (p : Pitches) (ranks r : Nat) : Nat → Nat → List Strip → List Region
  | _, _, [] => []
  | d, s, t :: rest =>
      t.regions p r d s ++ stripRegions p ranks r (d + t.width) (s + t.whole ranks) rest

/-- One row of the whole buffer, from the rows of the shards at offset `o`. -/
def joinRow (ranks : Nat) (shard : Nat → List α) : Nat → List Strip → List α
  | _, [] => []
  | o, t :: rest =>
      (if t.shared then slice (shard 0) o t.width
        else (List.range ranks).flatMap fun r => slice (shard r) o t.width) ++
      joinRow ranks shard (o + t.width) rest

/-- The shared strips of a row are the same in every shard. -/
def SharedAgree (ranks : Nat) (shard : Nat → List α) : Nat → List Strip → Prop
  | _, [] => True
  | o, t :: rest =>
      (t.shared = true → ∀ r < ranks, slice (shard r) o t.width = slice (shard 0) o t.width) ∧
        SharedAgree ranks shard (o + t.width) rest

/-- The whole buffer, put together from its shards. -/
def joinStrips (ranks height : Nat) (l : List Strip) (shard : Nat → List α) : List α :=
  (List.range height).flatMap fun i => joinRow ranks shard (i * shardPitch l) l

section Fill

variable {p : Pitches} {ranks r : Nat}

/-- Runs inside different rows do not meet. -/
theorem row_lt {pitch a b i j w : Nat} (hij : i < j) (ha : a + w ≤ pitch) :
    i * pitch + a + w ≤ j * pitch + b := by
  have hrow : (i + 1) * pitch ≤ j * pitch := Nat.mul_le_mul_right _ hij
  rw [Nat.succ_mul] at hrow
  omega

theorem mem_stripRegions {d s : Nat} {l : List Strip} {c : Region}
    (hc : c ∈ stripRegions p ranks r d s l) :
    ∃ i < p.height, ∃ a, c.dst = i * p.shard + a ∧ d ≤ a ∧ a + c.len ≤ d + shardPitch l := by
  induction l generalizing d s with
  | nil => cases hc
  | cons t rest ih =>
      rw [stripRegions, List.mem_append] at hc
      rw [shardPitch_cons]
      rcases hc with hc | hc
      · obtain ⟨i, hi, rfl⟩ := List.mem_map.mp hc
        exact ⟨i, List.mem_range.mp hi, d, rfl, le_refl d, by dsimp only; omega⟩
      · obtain ⟨i, hi, a, hdst, hda, hlen⟩ := ih hc
        exact ⟨i, hi, a, hdst, by omega, by omega⟩

/-- The copies of a shard have disjoint targets. -/
theorem pairwise_stripRegions {d s : Nat} {l : List Strip} (hd : d + shardPitch l ≤ p.shard) :
    (stripRegions p ranks r d s l).Pairwise fun c e => e.Apart c.dst c.len := by
  induction l generalizing d s with
  | nil => exact List.Pairwise.nil
  | cons t rest ih =>
      rw [shardPitch_cons] at hd
      rw [stripRegions, List.pairwise_append]
      refine ⟨?_, ih (by omega), ?_⟩
      · rw [Strip.regions, List.pairwise_map]
        have hwidth : d + t.width ≤ p.shard := by omega
        exact List.pairwise_lt_range.imp fun hij => Or.inl (row_lt hij hwidth)
      · intro c hc e he
        obtain ⟨i, hi, rfl⟩ := List.mem_map.mp hc
        obtain ⟨j, hj, a, hdst, hda, hlen⟩ := mem_stripRegions he
        rw [Region.Apart, hdst]
        dsimp only
        rcases Nat.lt_trichotomy i j with hij | rfl | hij
        · exact Or.inl (row_lt hij (by omega))
        · exact Or.inl (by omega)
        · exact Or.inr (row_lt hij (by omega))

theorem row_fits {pitch height i a : Nat} (hi : i < height) (ha : a ≤ pitch) :
    i * pitch + a ≤ height * pitch := by
  calc i * pitch + a ≤ i * pitch + pitch := by omega
    _ = (i + 1) * pitch := (Nat.succ_mul i pitch).symm
    _ ≤ height * pitch := Nat.mul_le_mul_right _ hi

theorem stripRegions_fits {d s : Nat} {l : List Strip} (hr : r < ranks)
    (hd : d + shardPitch l ≤ p.shard) (hs : s + wholePitch ranks l ≤ p.whole) :
    ∀ c ∈ stripRegions p ranks r d s l,
      c.Fits (p.height * p.shard) (p.height * p.whole) := by
  induction l generalizing d s with
  | nil => intro c hc; cases hc
  | cons t rest ih =>
      rw [shardPitch_cons] at hd
      rw [wholePitch_cons] at hs
      intro c hc
      rw [stripRegions, List.mem_append] at hc
      rcases hc with hc | hc
      · obtain ⟨i, hi, rfl⟩ := List.mem_map.mp hc
        have hstart := t.start_le hr
        constructor
        · dsimp only
          rw [Nat.add_assoc]
          exact row_fits (List.mem_range.mp hi) (by omega)
        · dsimp only
          rw [Nat.add_assoc]
          exact row_fits (List.mem_range.mp hi) (by omega)
      · exact ih (by omega) (by omega) c hc

/-- Every copied run of a shard reads back as its source. -/
def Filled (whole out : List α) (cs : List Region) : Prop :=
  ∀ c ∈ cs, slice out c.dst c.len = slice whole c.src c.len

/-- Filling a shard succeeds in whatever order the runs are copied, and
whatever its memory held before. -/
theorem exists_filled {cs : List Region} (l : List Strip) (height : Nat) (whole fresh : List α)
    (hr : r < ranks) (hwhole : whole.length = height * wholePitch ranks l)
    (hfresh : fresh.length = height * shardPitch l)
    (hperm : cs.Perm
      (stripRegions ⟨height, shardPitch l, wholePitch ranks l⟩ ranks r 0 0 l)) :
    ∃ out, copyRegions whole fresh cs = some out ∧ out.length = fresh.length ∧
      Filled whole out
        (stripRegions ⟨height, shardPitch l, wholePitch ranks l⟩ ranks r 0 0 l) := by
  have hfits : ∀ c ∈ cs, c.Fits fresh.length whole.length := by
    intro c hc
    rw [hwhole, hfresh]
    exact stripRegions_fits hr (by simp) (by simp) c (hperm.mem_iff.mp hc)
  have hap : cs.Pairwise fun c e => e.Apart c.dst c.len :=
    (hperm.pairwise_iff fun {_ _} hce => Or.symm hce).mpr (pairwise_stripRegions (by simp))
  obtain ⟨out, hout, hlen⟩ := copyRegions_isSome hfits
  exact ⟨out, hout, hlen, fun c hc => slice_copyRegions hap hout c (hperm.mem_iff.mpr hc)⟩

theorem Filled.row {whole out : List α} {d s i : Nat} {t : Strip} {rest : List Strip}
    (h : Filled whole out (stripRegions p ranks r d s (t :: rest))) (hi : i < p.height) :
    slice out (i * p.shard + d) t.width =
      slice whole (i * p.whole + (s + t.start r)) t.width :=
  h ⟨i * p.shard + d, i * p.whole + (s + t.start r), t.width⟩
    (List.mem_append_left _ (List.mem_map.mpr ⟨i, List.mem_range.mpr hi, rfl⟩))

theorem Filled.tail {whole out : List α} {d s : Nat} {t : Strip} {rest : List Strip}
    (h : Filled whole out (stripRegions p ranks r d s (t :: rest))) :
    Filled whole out (stripRegions p ranks r (d + t.width) (s + t.whole ranks) rest) :=
  fun c hc => h c (List.mem_append_right _ hc)

/-- The rows of a filled shard are determined by the whole buffer. -/
theorem Filled.row_unique {whole out other : List α} {l : List Strip} {d s i : Nat}
    (h : Filled whole out (stripRegions p ranks r d s l))
    (hother : Filled whole other (stripRegions p ranks r d s l)) (hi : i < p.height) :
    slice out (i * p.shard + d) (shardPitch l) = slice other (i * p.shard + d) (shardPitch l) := by
  induction l generalizing d s with
  | nil => rw [shardPitch_nil, slice_zero, slice_zero]
  | cons t rest ih =>
      have hrest := ih h.tail hother.tail
      rw [← Nat.add_assoc] at hrest
      rw [shardPitch_cons, ← slice_append, ← slice_append, h.row hi, hother.row hi, hrest]

variable {whole : List α} {shard : Nat → List α}

/-- A row of filled shards joins to the row of the whole buffer. -/
theorem joinRow_filled {l : List Strip} {d s i : Nat} (hranks : 0 < ranks) (hi : i < p.height)
    (h : ∀ r < ranks, Filled whole (shard r) (stripRegions p ranks r d s l)) :
    joinRow ranks shard (i * p.shard + d) l =
      slice whole (i * p.whole + s) (wholePitch ranks l) := by
  induction l generalizing d s with
  | nil => exact (slice_zero _ _).symm
  | cons t rest ih =>
      have hrest := ih fun r hr => (h r hr).tail
      rw [joinRow, Nat.add_assoc, hrest, wholePitch_cons, ← slice_append, Nat.add_assoc]
      congr 1
      cases ht : t.shared with
      | true =>
          have hrow := (h 0 hranks).row hi
          simp only [Strip.start, Strip.whole, ht, if_true, Nat.add_zero] at hrow ⊢
          exact hrow
      | false =>
          simp only [Strip.whole, ht, Bool.false_eq_true, if_false]
          rw [← flatMap_slice]
          refine flatMap_congr fun r hr => ?_
          have hrow := (h r (List.mem_range.mp hr)).row hi
          simp only [Strip.start, ht, Bool.false_eq_true, if_false] at hrow
          rw [hrow, Nat.add_assoc]

theorem sharedAgree_filled {l : List Strip} {d s i : Nat} (hi : i < p.height)
    (h : ∀ r < ranks, Filled whole (shard r) (stripRegions p ranks r d s l)) :
    SharedAgree ranks shard (i * p.shard + d) l := by
  induction l generalizing d s with
  | nil => trivial
  | cons t rest ih =>
      refine ⟨fun ht r hr => ?_, ?_⟩
      · have hfirst := (h 0 (by omega)).row hi
        have hrow := (h r hr).row hi
        simp only [Strip.start, ht, if_true] at hfirst hrow
        exact hrow.trans hfirst.symm
      · rw [Nat.add_assoc]
        exact ih fun r hr => (h r hr).tail

end Fill

/-- Two buffers of one length filled alike are equal. -/
theorem Filled.unique {ranks r height : Nat} {l : List Strip} {whole out other : List α}
    (h : Filled whole out
      (stripRegions ⟨height, shardPitch l, wholePitch ranks l⟩ ranks r 0 0 l))
    (hother : Filled whole other
      (stripRegions ⟨height, shardPitch l, wholePitch ranks l⟩ ranks r 0 0 l))
    (hout : out.length = height * shardPitch l) (hlen : other.length = height * shardPitch l) :
    out = other := by
  have hrows : ∀ i ∈ List.range height, slice out (0 + i * shardPitch l) (shardPitch l) =
      slice other (0 + i * shardPitch l) (shardPitch l) := by
    intro i hi
    have hrow := h.row_unique hother (List.mem_range.mp hi)
    simpa using hrow
  calc out = slice out 0 (height * shardPitch l) := by rw [← hout, slice_all]
    _ = slice other 0 (height * shardPitch l) := by
        rw [← flatMap_slice, ← flatMap_slice, flatMap_congr hrows]
    _ = other := by rw [← hlen, slice_all]

/-- Filled shards join to the whole buffer. -/
theorem joinStrips_filled {ranks : Nat} {l : List Strip} {height : Nat} {whole : List α}
    {shard : Nat → List α} (hranks : 0 < ranks)
    (hwhole : whole.length = height * wholePitch ranks l)
    (h : ∀ r < ranks, Filled whole (shard r)
      (stripRegions ⟨height, shardPitch l, wholePitch ranks l⟩ ranks r 0 0 l)) :
    joinStrips ranks height l shard = whole := by
  have hrows : joinStrips ranks height l shard =
      (List.range height).flatMap
        (fun i => slice whole (0 + i * wholePitch ranks l) (wholePitch ranks l)) := by
    refine flatMap_congr fun i hi => ?_
    have hrow := joinRow_filled (i := i) (d := 0) (s := 0) hranks (List.mem_range.mp hi) h
    simpa using hrow
  rw [hrows, flatMap_slice, ← hwhole, slice_all]

end DashInfer.Lib
