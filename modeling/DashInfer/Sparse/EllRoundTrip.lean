import DashInfer.Sparse.EllRun

/-!
When an ELL matrix decodes to what was encoded. Besides the sizes that an `int`
can count, the first column must have a kept entry, since the encoder looks at
the place before the first padding slot; no kept entry may lie in a row that 16
bits cannot name; and the rows that padding slots take over must be rows.
-/

namespace DashInfer.Sparse

open Lib
open Service (int32 int32_eq_self)
open WeightFile (padding)

variable {α : Type}

/-- The matrices that survive ELL encoding into an index buffer that holds `old`. -/
structure EllFits [Zero α] (c : Encoding α) (d : Dense α) (old : Nat → UInt16) : Prop where
  columns : d.n ≠ 0
  inRange : d.InRange
  size : ellHeight c d * d.n < 2 ^ 31
  first : keptRows c d 0 ≠ []
  rows : ∀ j < d.n, ∀ i ∈ keptRows c d j, i < 2 ^ 16
  padding : ∀ j < d.n, (keptRows c d j).length < ellHeight c d →
    (old (j * ellHeight c d + (keptRows c d j).length - 1)).toNat < d.m

theorem Encoding.ne_zero [Zero α] (c : Encoding α) {x : α} (h : c.significant x = true) : x ≠ 0 := by
  rintro rfl
  rw [c.significant_zero] at h
  cases h

/-- With an empty first column the encoder reads in front of the output buffer. -/
theorem denseToEllPadding_none [Zero α] {c : Encoding α} {d : Dense α} (hrange : d.InRange)
    (hfirst : keptRows c d 0 = []) (nnz : Int) (values cscVal : List α)
    (rowIdx cscRowIdx : List UInt16) :
    denseToEllPadding c d nnz values rowIdx cscVal cscRowIdx = none := by
  unfold denseToEllPadding
  split
  · rfl
  · next hn =>
      obtain ⟨n, hn⟩ := Nat.exists_eq_succ_of_ne_zero hn
      have hcolumn : ∀ maxC, ellColumn c d maxC rowIdx
          { nnz := 0, rowIdx := cscRowIdx, values := cscVal } 0 = none := by
        intro maxC
        have hbefore : int32 ((0 : Int) - 1) = -1 := int32_eq_self (by omega) (by omega)
        have hload : load rowIdx (int32 ((0 : Int) - 1)) = none := by
          rw [hbefore]
          exact load_neg (by decide)
        unfold ellColumn
        rw [scanColumn_eq hrange (by omega : 0 < d.n), column, hfirst, List.map_nil]
        exact Option.bind_eq_none_iff.mpr fun csc hcsc => by
          obtain rfl := Option.some.inj hcsc
          exact Option.bind_eq_none_iff.mpr fun x hx => by
            rw [hload] at hx
            cases hx
      have hrange' : List.range d.n = 0 :: (List.range n).map Nat.succ := by
        rw [hn, List.range_succ_eq_map]
      dsimp only
      rw [hrange', List.foldlM_cons, hcolumn]
      rfl

section Decoding

variable [AddZeroClass α] {c : Encoding α} {d : Dense α} {old : Nat → UInt16}

theorem addAt_some {col col' : List α} {i : Int} {x : α} (h : addAt col i x = some col') :
    ∃ k : Nat, i = k ∧ k < col.length ∧ ∃ y, col' = col.set k y := by
  unfold addAt at h
  obtain ⟨y, -, hstore⟩ := Option.bind_eq_some_iff.mp h
  unfold store at hstore
  split at hstore
  · next hi =>
      obtain ⟨k, rfl⟩ := Int.eq_ofNat_of_zero_le hi.1
      exact ⟨k, rfl, by exact_mod_cast hi.2, _, (Option.some.inj hstore).symm⟩
  · cases hstore

/-- A row that no slot names keeps its value. -/
theorem addAll_other {l : List (Int × α)} {col col' : List α} (h : addAll col l = some col')
    {i : Nat} (hi : ∀ p ∈ l, p.1 ≠ i) : col'[i]? = col[i]? := by
  induction l generalizing col with
  | nil =>
      obtain rfl := Option.some.inj h
      rfl
  | cons p rest ih =>
      unfold addAll at h ih
      rw [List.foldlM_cons] at h
      obtain ⟨next, hnext, hrest⟩ := Option.bind_eq_some_iff.mp h
      obtain ⟨k, hk, -, y, rfl⟩ := addAt_some hnext
      have hne : k ≠ i := by
        rintro rfl
        exact hi p List.mem_cons_self hk
      rw [ih hrest (fun q hq => hi q (List.mem_cons_of_mem _ hq)), List.getElem?_set_ne hne]

/-- A decoded column has no more nonzero values than there were slots. -/
theorem decode_countP [DecidableEq α] {out : Slots UInt16 α} {places : List Nat}
    {col col' : List α} (h : places.foldlM (decodeSlot out) col = some col') :
    col'.countP (· ≠ 0) ≤ col.countP (· ≠ 0) + places.length := by
  induction places generalizing col with
  | nil =>
      obtain rfl := Option.some.inj h
      exact le_rfl
  | cons p rest ih =>
      rw [List.foldlM_cons] at h
      obtain ⟨next, hnext, hrest⟩ := Option.bind_eq_some_iff.mp h
      unfold decodeSlot at hnext
      obtain ⟨row, -, hnext⟩ := Option.bind_eq_some_iff.mp hnext
      obtain ⟨x, -, hnext⟩ := Option.bind_eq_some_iff.mp hnext
      obtain ⟨k, -, hk, y, rfl⟩ := addAt_some hnext
      have hle := ih hrest
      have hset : (col.set k y).countP (· ≠ 0) ≤ col.countP (· ≠ 0) + 1 := by
        rw [List.countP_set hk]
        split <;> split <;> omega
      rw [List.length_cons]
      omega

theorem countP_kept [DecidableEq α] (j : Nat) :
    ((List.range d.m).map fun i => c.kept (d.entry i j)).countP (· ≠ 0) =
      (keptRows c d j).length := by
  rw [List.countP_map, List.countP_eq_length_filter]
  unfold keptRows
  congr 1
  refine List.filter_congr fun i _ => ?_
  unfold Encoding.kept
  cases hsig : c.significant (d.entry i j) with
  | true => simp [hsig, c.ne_zero hsig]
  | false => simp [hsig]

theorem length_ellPlaces (nnz j : Nat) :
    (ellPlaces c d nnz j).length = nnz / d.n / c.vect * c.vect := by
  simp [ellPlaces, List.length_flatMap]

/-- A size that wraps gives a height that is too small for the fullest column. -/
theorem EllRoundTrips.size_lt (h : EllRoundTrips c d old) (hn : d.n ≠ 0) (hrange : d.InRange) :
    ellHeight c d * d.n < 2 ^ 31 := by
  classical
  obtain ⟨nnz, hcount, hruns⟩ := h
  rw [getNnzEll_eq hrange] at hcount
  have hnnz := Option.some.inj hcount
  by_contra hlong
  have hlt : nnz < ellHeight c d * d.n := by
    have hint := Service.int32_lt (ellHeight c d * d.n : Nat)
    omega
  have hheight : nnz / d.n < ellHeight c d := by
    rw [Nat.div_lt_iff_lt_mul (Nat.pos_of_ne_zero hn)]
    exact hlt
  have hplaces : nnz / d.n / c.vect * c.vect < fullest c d d.n :=
    lt_fullest_of_lt ((Nat.div_mul_le_self _ _).trans_lt hheight) (Nat.dvd_mul_left _ _)
  obtain ⟨j, hj, hfull⟩ := exists_fullest (c := c) (d := d) (k := d.n) (by omega)
  obtain ⟨out, -, -, hdecode⟩ := hruns (List.replicate nnz 0) (List.replicate nnz 0)
    (List.replicate nnz 0) List.length_replicate List.length_replicate List.length_replicate
  have hle := decode_countP (hdecode j hj)
  have hzeros : (List.replicate d.m (0 : α)).countP (· ≠ 0) = 0 := by
    simp [List.countP_replicate]
  rw [countP_kept, length_ellPlaces, hzeros, hfull] at hle
  omega

theorem ellColumnSlots_eq {j : Nat} (hrows : ∀ i ∈ keptRows c d j, i < 2 ^ 16) :
    ellColumnSlots c d old j = column c d (fun i : Nat => (i : Int)) j ++
      List.replicate (ellHeight c d - (keptRows c d j).length)
        (((old (j * ellHeight c d + (keptRows c d j).length - 1)).toNat : Int), 0) := by
  unfold ellColumnSlots ellSlots column
  rw [List.map_append, List.map_replicate, List.map_map]
  congr 1
  refine List.map_congr_left fun i hi => ?_
  have hrow : (shortRow i).toNat = i := by
    unfold shortRow
    rw [UInt16.toNat_ofNat']
    exact Nat.mod_eq_of_lt (hrows i hi)
  simp only [Function.comp_apply, hrow]

theorem addAll_ellColumnSlots_none {j : Nat} (hrows : ∀ i ∈ keptRows c d j, i < 2 ^ 16)
    (hpad : (keptRows c d j).length < ellHeight c d)
    (hold : d.m ≤ (old (j * ellHeight c d + (keptRows c d j).length - 1)).toNat) :
    addAll (List.replicate d.m 0) (ellColumnSlots c d old j) = none := by
  have hcolumn := addAll_column (c := c) (d := d) j (r := 0) (k := 0) (Or.inl rfl)
  rw [List.replicate_zero, List.append_nil] at hcolumn
  obtain ⟨k, hk⟩ := Nat.exists_eq_succ_of_ne_zero (Nat.sub_ne_zero_of_lt hpad)
  rw [ellColumnSlots_eq hrows, addAll_append, hcolumn, hk, List.replicate_succ,
    Option.bind_eq_bind, Option.bind_some]
  unfold addAll
  rw [List.foldlM_cons, addAt_out _ (by rwa [List.length_map, List.length_range])]
  rfl

/-- What a round trip needs. -/
theorem EllRoundTrips.fits (h : EllRoundTrips c d old) : EllFits c d old := by
  have hrange : d.InRange := by
    obtain ⟨nnz, hcount, -⟩ := h
    by_contra hout
    rw [getNnzEll_none hout] at hcount
    cases hcount
  have hruns := h
  obtain ⟨nnz, hcount, hruns⟩ := hruns
  obtain ⟨out, hout, -, hdecode⟩ := hruns (List.replicate nnz 0) (List.replicate nnz 0)
    (List.replicate nnz 0) List.length_replicate List.length_replicate List.length_replicate
  have hn : d.n ≠ 0 := by
    intro hzero
    unfold denseToEllPadding at hout
    rw [if_pos hzero] at hout
    cases hout
  have hfirst : keptRows c d 0 ≠ [] := by
    intro hempty
    rw [denseToEllPadding_none hrange hempty] at hout
    cases hout
  have hsize := h.size_lt hn hrange
  have hnnz : nnz = ellHeight c d * d.n := by
    rw [getNnzEll_eq hrange, int32_eq_self (by omega) (by omega)] at hcount
    exact_mod_cast (Option.some.inj hcount).symm
  have hbuffer : (List.replicate nnz (0 : α)).length = nnz := List.length_replicate
  have hrow : (List.replicate nnz (0 : UInt16)).length = nnz := List.length_replicate
  obtain ⟨out', hout', -, hslots⟩ :=
    denseToEllPadding_spec hrange hn hnnz (by omega) hfirst hbuffer hbuffer hrow
  rw [hout] at hout'
  obtain rfl := Option.some.inj hout'
  have hadded : ∀ j < d.n, addAll (List.replicate d.m 0) (ellColumnSlots c d old j) =
      some ((List.range d.m).map fun i => c.kept (d.entry i j)) :=
    fun j hj => (hslots j hj).symm.trans (hdecode j hj)
  have hrows : ∀ j < d.n, ∀ i ∈ keptRows c d j, i < 2 ^ 16 := by
    intro j hj i hi
    obtain ⟨him, hsig⟩ := mem_keptRows.mp hi
    by_contra hlarge
    -- No 16-bit row is this one, so its value stays zero.
    have hnamed : ∀ p ∈ ellColumnSlots c d old j, p.1 ≠ i := by
      intro p hp
      obtain ⟨q, -, rfl⟩ := List.mem_map.mp hp
      have hlt := q.1.toNat_lt
      dsimp only
      omega
    have hkeeps := addAll_other (hadded j hj) hnamed
    rw [List.getElem?_map, List.getElem?_range him, List.getElem?_replicate, if_pos him,
      Option.map_some] at hkeeps
    have hzero := Option.some.inj hkeeps
    rw [Encoding.kept, if_pos hsig] at hzero
    exact c.ne_zero hsig hzero
  refine ⟨hn, hrange, hsize, hfirst, hrows, ?_⟩
  intro j hj hpad
  by_contra hold
  have hnone := addAll_ellColumnSlots_none (hrows j hj) hpad (Nat.not_lt.mp hold)
  rw [hadded j hj] at hnone
  cases hnone

end Decoding

/-- The matrices for which the encoder stays in its buffers and its result
decodes to what was encoded. -/
theorem ell_roundTrips_iff [AddZeroClass α] (c : Encoding α) (d : Dense α) (old : Nat → UInt16) :
    EllRoundTrips c d old ↔ EllFits c d old := by
  constructor
  · exact EllRoundTrips.fits
  · rintro ⟨hn, hrange, hsize, hfirst, hrows, hpadding⟩
    have hcount : getNnzEll c d = some ((ellHeight c d * d.n : Nat) : Int) := by
      rw [getNnzEll_eq hrange, int32_eq_self (by omega) (by omega)]
    refine ⟨_, hcount, ?_⟩
    intro values cscVal cscRowIdx hvalues hval hrow
    obtain ⟨out, hout, hnnz, hdecode⟩ := denseToEllPadding_spec hrange hn rfl hsize hfirst
      hvalues hval hrow
    refine ⟨out, hout, hnnz, ?_⟩
    intro j hj
    rw [hdecode j hj, ellColumnSlots_eq (hrows j hj)]
    apply addAll_column
    rcases Nat.lt_or_ge (keptRows c d j).length (ellHeight c d) with hlt | hge
    · exact Or.inr (hpadding j hj hlt)
    · exact Or.inl (Nat.sub_eq_zero_of_le hge)

/-- Two rows and two columns, the first of them empty. -/
def emptyFirstColumn : Dense Int where
  m := 2
  n := 2
  cells := [0, 1, 0, 1]
  length_eq := rfl
  m_lt := by decide
  n_lt := by decide

theorem length_tallCells : (List.replicate (2 ^ 16) (0 : Int) ++ [1]).length = (2 ^ 16 + 1) * 1 := by
  rw [List.length_append, List.length_replicate, List.length_singleton, Nat.mul_one]

theorem tall_lt : 2 ^ 16 + 1 < 2 ^ 31 := by decide

/-- One column of 65537 rows with a one in the last. -/
def tallColumn : Dense Int where
  m := 2 ^ 16 + 1
  n := 1
  cells := List.replicate (2 ^ 16) 0 ++ [1]
  length_eq := length_tallCells
  m_lt := tall_lt
  n_lt := one_lt_intRange

/-- Zeroed buffers do not help a matrix whose first column is empty, nor one
with a kept entry in row 65536. -/
theorem ell_not_roundTrips :
    ¬ EllRoundTrips (aboveThreshold 0) emptyFirstColumn (fun _ => 0) ∧
      ¬ EllRoundTrips (aboveThreshold 0) tallColumn (fun _ => 0) := by
  constructor
  · intro h
    exact h.fits.first (by decide)
  · intro h
    have hentry : tallColumn.entry (2 ^ 16) 0 = 1 := by
      change (List.replicate (2 ^ 16) (0 : Int) ++ [1]).getD (2 ^ 16 * 1 + 0) 0 = 1
      rw [Nat.mul_one, Nat.add_zero, List.getD_append_right _ _ _ _ (by rw [List.length_replicate]),
        List.length_replicate, Nat.sub_self]
      rfl
    have hkept : 2 ^ 16 ∈ keptRows (aboveThreshold 0) tallColumn 0 := by
      rw [mem_keptRows, hentry]
      exact ⟨Nat.lt_succ_self _, by decide⟩
    exact absurd (h.fits.rows 0 Nat.one_pos _ hkept) (lt_irrefl _)

end DashInfer.Sparse
