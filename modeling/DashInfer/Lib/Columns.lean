import Mathlib
import DashInfer.Lib.Strips

/-!
The shards of a matrix, entry by entry: column `j` of a shard is one column of
the whole matrix. A matrix with the columns of a right factor sharded is the
product sharded, and a product summed over blocks of the inner dimension is
the whole product.
-/

namespace DashInfer.Lib

open scoped BigOperators

variable {α : Type} {ranks r : Nat}

/-- The whole buffer's column at column `j` of the shard of rank `r`. -/
def column (ranks r : Nat) : List Strip → Nat → Nat
  | [], j => j
  | t :: rest, j =>
      if j < t.width then t.start r + j else t.whole ranks + column ranks r rest (j - t.width)

theorem column_left {t : Strip} {rest : List Strip} {j : Nat} (hj : j < t.width) :
    column ranks r (t :: rest) j = t.start r + j := if_pos hj

theorem column_right {t : Strip} {rest : List Strip} {j : Nat} :
    column ranks r (t :: rest) (t.width + j) = t.whole ranks + column ranks r rest j := by
  rw [column, if_neg (by omega), Nat.add_sub_cancel_left]

/-- A column of a shard is in the first strip or after it. -/
theorem column_cases {t : Strip} {rest : List Strip} {j : Nat}
    (hj : j < shardPitch (t :: rest)) :
    j < t.width ∨ ∃ k < shardPitch rest, j = t.width + k := by
  rw [shardPitch_cons] at hj
  rcases Nat.lt_or_ge j t.width with h | h
  · exact Or.inl h
  · exact Or.inr ⟨j - t.width, by omega, by omega⟩

theorem column_lt {l : List Strip} (hr : r < ranks) {j : Nat} (hj : j < shardPitch l) :
    column ranks r l j < wholePitch ranks l := by
  induction l generalizing j with
  | nil => exact absurd hj (Nat.not_lt_zero j)
  | cons t rest ih =>
      have hstart := t.start_le hr
      rw [wholePitch_cons]
      obtain h | ⟨k, hk, rfl⟩ := column_cases hj
      · rw [column_left h]
        omega
      · have hlt := ih hk
        rw [column_right]
        omega

/-- A shard as wide as the whole buffer is the whole buffer. -/
theorem column_eq_self {l : List Strip} (hr : r < ranks)
    (hpitch : shardPitch l = wholePitch ranks l) {j : Nat} (hj : j < shardPitch l) :
    column ranks r l j = j := by
  induction l generalizing j with
  | nil => rfl
  | cons t rest ih =>
      have hranks : 0 < ranks := by omega
      have hstart := t.start_le hr
      have hfirst := t.start_le hranks
      have hrest := shardPitch_le_wholePitch hranks rest
      rw [shardPitch_cons, wholePitch_cons] at hpitch
      obtain h | ⟨k, hk, rfl⟩ := column_cases hj
      · rw [column_left h]
        omega
      · rw [column_right, ih (by omega) hk]
        omega

/-- A buffer with the entries of a shard is filled like it. -/
theorem filled_of_entries {whole out : List α} {p : Pitches} {d s : Nat} {l : List Strip}
    (h : ∀ i < p.height, ∀ j < shardPitch l,
      out[i * p.shard + (d + j)]? = whole[i * p.whole + (s + column ranks r l j)]?) :
    Filled whole out (stripRegions p ranks r d s l) := by
  induction l generalizing d s with
  | nil => intro c hc; cases hc
  | cons t rest ih =>
      intro c hc
      rw [stripRegions, List.mem_append] at hc
      rcases hc with hc | hc
      · obtain ⟨i, hi, rfl⟩ := List.mem_map.mp hc
        apply List.ext_getElem?
        intro k
        simp only [getElem?_slice]
        split
        case isFalse => rfl
        case isTrue hk =>
            have hcell := h i (List.mem_range.mp hi) k (by rw [shardPitch_cons]; omega)
            rw [column_left hk, ← Nat.add_assoc, ← Nat.add_assoc, ← Nat.add_assoc] at hcell
            rw [← Nat.add_assoc]
            exact hcell
      · refine ih (fun i hi j hj => ?_) c hc
        have hcell := h i hi (t.width + j) (by rw [shardPitch_cons]; omega)
        rw [column_right, ← Nat.add_assoc d, ← Nat.add_assoc s] at hcell
        exact hcell

section Matrices

variable {R : Type} {n m k w : Nat}

/-- The entries of a matrix, row after row. -/
def rowMajor (M : Matrix (Fin n) (Fin w) R) : List R :=
  (List.ofFn fun i => List.ofFn (M i)).flatten

theorem mem_rows {M : Matrix (Fin n) (Fin w) R} :
    ∀ row ∈ List.ofFn fun i => List.ofFn (M i), row.length = w := by
  intro row hrow
  obtain ⟨i, rfl⟩ := (List.mem_ofFn' _ _).mp hrow
  exact List.length_ofFn

theorem length_rowMajor (M : Matrix (Fin n) (Fin w) R) : (rowMajor M).length = n * w := by
  rw [rowMajor, length_flatten_uniform mem_rows, List.length_ofFn]

theorem getElem?_rowMajor (M : Matrix (Fin n) (Fin w) R) {i j : Nat} (hi : i < n) (hj : j < w) :
    (rowMajor M)[i * w + j]? = some (M ⟨i, hi⟩ ⟨j, hj⟩) := by
  have hrow : (List.ofFn fun i => List.ofFn (M i))[i]? = some (List.ofFn (M ⟨i, hi⟩)) := by
    simp [hi]
  have hslice := slice_flatten mem_rows hrow
  have hcell := congrArg (fun row => row[j]?) hslice
  simp only [getElem?_slice, if_pos hj] at hcell
  rw [rowMajor, hcell]
  simp [hj]

/-- The column groups of the parts, side by side, are the whole matrix, and
the parts agree on the shared groups. -/
structure Concatenates (ranks : Nat) (l : List Strip)
    (parts : Nat → Matrix (Fin n) (Fin (shardPitch l)) R) (whole : Matrix (Fin n) (Fin w) R) :
    Prop where
  joined : joinStrips ranks n l (fun r => rowMajor (parts r)) = rowMajor whole
  agree : ∀ i < n, SharedAgree ranks (fun r => rowMajor (parts r)) (i * shardPitch l) l

/-- Parts that hold their columns of a matrix concatenate to it. -/
theorem concatenates_of_columns {l : List Strip} (hranks : 0 < ranks)
    (hw : wholePitch ranks l = w) {parts : Nat → Matrix (Fin n) (Fin (shardPitch l)) R}
    {whole : Matrix (Fin n) (Fin w) R}
    (h : ∀ r < ranks, ∀ i j (hj : column ranks r l j.val < w),
      parts r i j = whole i ⟨column ranks r l j.val, hj⟩) :
    Concatenates ranks l parts whole := by
  subst hw
  have hfilled : ∀ r < ranks, Filled (rowMajor whole) (rowMajor (parts r))
      (stripRegions ⟨n, shardPitch l, wholePitch ranks l⟩ ranks r 0 0 l) := by
    intro r hr
    apply filled_of_entries
    intro i hi j hj
    have hcol := column_lt (l := l) hr hj
    dsimp only at hi ⊢
    rw [Nat.zero_add, Nat.zero_add, getElem?_rowMajor _ hi hj, getElem?_rowMajor _ hi hcol]
    exact congrArg some (h r hr ⟨i, hi⟩ ⟨j, hj⟩ hcol)
  constructor
  · exact joinStrips_filled hranks (length_rowMajor whole) hfilled
  · intro i hi
    have hagree := sharedAgree_filled (d := 0) (s := 0) hi hfilled
    rw [Nat.add_zero] at hagree
    exact hagree

variable [Semiring R]

/-- The columns `[o, o + m)` of a matrix. -/
def columnBlock (x : Matrix (Fin n) (Fin k) R) (o m : Nat) : Matrix (Fin n) (Fin m) R :=
  fun i j => if h : o + j.val < k then x i ⟨o + j.val, h⟩ else 0

/-- Sharding the columns of a right factor shards the columns of the product. -/
theorem mul_column {l : List Strip} (x : Matrix (Fin n) (Fin k) R)
    {part : Matrix (Fin k) (Fin (shardPitch l)) R} {whole : Matrix (Fin k) (Fin w) R}
    (h : ∀ i j (hj : column ranks r l j.val < w), part i j = whole i ⟨column ranks r l j.val, hj⟩)
    (i : Fin n) (j : Fin (shardPitch l)) (hj : column ranks r l j.val < w) :
    (x * part) i j = (x * whole) i ⟨column ranks r l j.val, hj⟩ := by
  rw [Matrix.mul_apply, Matrix.mul_apply]
  exact Finset.sum_congr rfl fun q _ => by rw [h q j hj]

/-- A sum over blocks of one length is the sum over all. -/
theorem sum_blocks (f : Nat → R) (ranks m : Nat) :
    ∑ r ∈ Finset.range ranks, ∑ j ∈ Finset.range m, f (r * m + j) =
      ∑ q ∈ Finset.range (ranks * m), f q := by
  induction ranks with
  | zero => simp
  | succ ranks ih => rw [Finset.sum_range_succ, ih, Nat.succ_mul, Finset.sum_range_add]

/-- Blocks of the inner dimension, multiplied and added up. -/
theorem sum_columnBlock_mul (hk : k = ranks * m) (x : Matrix (Fin n) (Fin k) R)
    {parts : Nat → Matrix (Fin m) (Fin w) R} {whole : Matrix (Fin k) (Fin w) R}
    (h : ∀ r < ranks, ∀ i j (hi : r * m + i.val < k),
      parts r i j = whole ⟨r * m + i.val, hi⟩ j) :
    ∑ r ∈ Finset.range ranks, columnBlock x (r * m) m * parts r = x * whole := by
  subst hk
  ext i j
  let f : Nat → R := fun q =>
    if hq : q < ranks * m then x i ⟨q, hq⟩ * whole ⟨q, hq⟩ j else 0
  have hterm : ∀ r ∈ Finset.range ranks, (columnBlock x (r * m) m * parts r) i j =
      ∑ q ∈ Finset.range m, f (r * m + q) := by
    intro r hr
    rw [Matrix.mul_apply, Finset.sum_range]
    refine Finset.sum_congr rfl fun q _ => ?_
    have hr := List.mem_range.mp (by simpa using hr)
    have hq : r * m + q.val < ranks * m := by
      calc r * m + q.val < r * m + m := Nat.add_lt_add_left q.isLt _
        _ = (r + 1) * m := (Nat.succ_mul r m).symm
        _ ≤ ranks * m := Nat.mul_le_mul_right _ hr
    simp only [f, columnBlock, dif_pos hq, h r hr q j hq]
  calc (∑ r ∈ Finset.range ranks, columnBlock x (r * m) m * parts r) i j
      = ∑ r ∈ Finset.range ranks, (columnBlock x (r * m) m * parts r) i j := by
        rw [Matrix.sum_apply]
    _ = ∑ r ∈ Finset.range ranks, ∑ q ∈ Finset.range m, f (r * m + q) :=
        Finset.sum_congr rfl hterm
    _ = ∑ q ∈ Finset.range (ranks * m), f q := sum_blocks f ranks m
    _ = (x * whole) i j := by
        rw [Matrix.mul_apply, Finset.sum_range]
        exact Finset.sum_congr rfl fun q _ => dif_pos q.isLt

end Matrices

end DashInfer.Lib
