import Mathlib
import DashInfer.Lib.Buffer
import DashInfer.Service.TensorMessage
import DashInfer.WeightFile.Sparse

/-!
The scan of a dense matrix by columns, as both sparse encoders make it, with
the machine integers it is computed in. A kept entry takes the next place of an
index buffer and of a value buffer; a place outside them, and an index outside
the matrix, is a fault. Decoding adds each value to the row its index names.
-/

namespace DashInfer.Sparse

open Lib
open Service (int32 int32_eq_self)
open WeightFile (padding)

variable {α ι : Type}

/-- A matrix row by row, with the `int` sizes the encoders get. -/
structure Dense (α : Type) where
  m : Nat
  n : Nat
  cells : List α
  length_eq : cells.length = m * n
  m_lt : m < 2 ^ 31
  n_lt : n < 2 ^ 31

/-- What the encoders are instantiated with: the test `fabs(x) > threshold` for
the element type, and the vector width. -/
structure Encoding (α : Type) [Zero α] where
  significant : α → Bool
  vect : Nat
  significant_zero : significant 0 = false
  vect_pos : 0 < vect
  vect_lt : vect < 2 ^ 31

namespace Dense

variable (d : Dense α)

/-- `denseMatrix[i * n + j]`. -/
def read (i j : Nat) : Option α := load d.cells (int32 (int32 (i * d.n) + j))

def entry [Zero α] (i j : Nat) : α := d.cells.getD (i * d.n + j) 0

/-- Every place of the matrix has an `int` index. -/
def InRange : Prop := d.m * d.n ≤ 2 ^ 31

instance : Decidable d.InRange := inferInstanceAs (Decidable (_ ≤ _))

end Dense

/-- An index buffer and a value buffer, with the number of places taken. -/
structure Slots (ι α : Type) where
  nnz : Int
  rowIdx : List ι
  values : List α
deriving DecidableEq, Repr

def Slots.push (s : Slots ι α) (i : ι) (x : α) : Option (Slots ι α) := do
  let rowIdx ← store s.rowIdx s.nnz i
  let values ← store s.values s.nnz x
  some { nnz := int32 (s.nnz + 1), rowIdx, values }

/-- Buffers of `size` places whose first places hold the list. -/
structure Slots.Holds (s : Slots ι α) (size : Nat) (l : List (ι × α)) : Prop where
  nnz : s.nnz = l.length
  rowIdx : l.map Prod.fst <+: s.rowIdx
  values : l.map Prod.snd <+: s.values
  rowIdx_length : s.rowIdx.length = size
  values_length : s.values.length = size

section Scan

variable [Zero α] (c : Encoding α) (d : Dense α)

/-- The loop over the rows of column `j` in an encoder. -/
def scanColumn (idx : Nat → ι) (j : Nat) (s : Slots ι α) : Option (Slots ι α) :=
  (List.range d.m).foldlM (fun s i => do
    let x ← d.read i j
    if c.significant x then s.push (idx i) x else some s) s

/-- The same loop where entries are only counted. -/
def countColumn (j : Nat) (count : Int) : Option Int :=
  (List.range d.m).foldlM (fun count i => do
    let x ← d.read i j
    some (if c.significant x then int32 (count + 1) else count)) count

/-- The rows of a column whose entry is kept. -/
def keptRows (j : Nat) : List Nat :=
  (List.range d.m).filter fun i => c.significant (d.entry i j)

def column (idx : Nat → ι) (j : Nat) : List (ι × α) :=
  (keptRows c d j).map fun i => (idx i, d.entry i j)

/-- An entry with everything below the threshold set to zero. -/
def Encoding.kept (x : α) : α := if c.significant x then x else 0

end Scan

section Decoding

variable [Add α]

/-- `column[i] += x`. -/
def addAt (col : List α) (i : Int) (x : α) : Option (List α) := do
  let old ← load col i
  store col i (old + x)

def addAll (col : List α) (l : List (Int × α)) : Option (List α) :=
  l.foldlM (fun col p => addAt col p.1 p.2) col

end Decoding

section Reading

variable {d : Dense α}

theorem int32_add_left (x y : Int) : int32 (int32 x + y) = int32 (x + y) := by
  unfold int32
  exact Int.bmod_add_bmod

theorem read_eq (d : Dense α) (i j : Nat) :
    d.read i j = load d.cells (int32 (i * d.n + j : Nat)) := by
  unfold Dense.read
  rw [int32_add_left]
  rfl

theorem index_lt {i j : Nat} (hi : i < d.m) (hj : j < d.n) : i * d.n + j < d.m * d.n := by
  calc i * d.n + j < i * d.n + d.n := by omega
    _ = (i + 1) * d.n := by rw [Nat.add_mul, Nat.one_mul]
    _ ≤ d.m * d.n := Nat.mul_le_mul_right _ hi

theorem read_inRange [Zero α] (h : d.InRange) {i j : Nat} (hi : i < d.m) (hj : j < d.n) :
    d.read i j = some (d.entry i j) := by
  have hlt := index_lt hi hj
  unfold Dense.InRange at h
  rw [read_eq, int32_eq_self (by omega) (by omega), load_natCast]
  unfold Dense.entry
  rw [List.getElem?_eq_getElem (d.length_eq ▸ hlt), List.getD_eq_getElem _ _ (d.length_eq ▸ hlt)]

/-- In a larger matrix the place `2 ^ 31` is read at a negative index. -/
theorem exists_read_none (h : ¬ d.InRange) : ∃ i j, i < d.m ∧ j < d.n ∧ d.read i j = none := by
  unfold Dense.InRange at h
  have hn : 0 < d.n := by
    by_contra hzero
    have : d.n = 0 := by omega
    rw [this] at h
    omega
  refine ⟨2 ^ 31 / d.n, 2 ^ 31 % d.n, ?_, Nat.mod_lt _ hn, ?_⟩
  · rw [Nat.div_lt_iff_lt_mul hn]
    omega
  · rw [read_eq, Nat.mul_comm, Nat.div_add_mod]
    exact load_neg (by decide)

end Reading

section Filling

variable {s : Slots ι α} {size : Nat} {l : List (ι × α)}

theorem Slots.Holds.length_le (h : s.Holds size l) : l.length ≤ size := by
  have hle := h.rowIdx.length_le
  rwa [List.length_map, h.rowIdx_length] at hle

theorem Slots.Holds.push (h : s.Holds size l) (hsize : size < 2 ^ 31) (hroom : l.length < size)
    (i : ι) (x : α) : ∃ s', s.push i x = some s' ∧ s'.Holds size (l ++ [(i, x)]) := by
  obtain ⟨rowIdx, hrow, hrowLen, hrowPre⟩ :=
    store_next h.rowIdx (by rwa [List.length_map, h.rowIdx_length]) i
  obtain ⟨values, hval, hvalLen, hvalPre⟩ :=
    store_next h.values (by rwa [List.length_map, h.values_length]) x
  rw [List.length_map] at hrow hval
  refine ⟨{ nnz := int32 (s.nnz + 1), rowIdx, values }, ?_, ?_, ?_, ?_, ?_, ?_⟩
  · unfold Slots.push
    rw [h.nnz, hrow, hval]
    rfl
  · have hnext : int32 ((l.length : Int) + 1) = (l.length : Int) + 1 :=
      int32_eq_self (by omega) (by omega)
    rw [h.nnz, List.length_append, List.length_singleton, hnext]
    rfl
  · rwa [List.map_append]
  · rwa [List.map_append]
  · exact hrowLen.trans h.rowIdx_length
  · exact hvalLen.trans h.values_length

theorem Slots.Holds.push_full (h : s.Holds size l) (hfull : size ≤ l.length) (i : ι) (x : α) :
    s.push i x = none := by
  have hnone : store s.rowIdx s.nnz i = none := by
    apply store_full
    rw [h.rowIdx_length, h.nnz]
    exact_mod_cast hfull
  unfold Slots.push
  rw [hnone]
  rfl

def Slots.pushAll (s : Slots ι α) (l : List (ι × α)) : Option (Slots ι α) :=
  l.foldlM (fun s p => s.push p.1 p.2) s

theorem Slots.pushAll_append (s : Slots ι α) (l l' : List (ι × α)) :
    s.pushAll (l ++ l') = s.pushAll l >>= fun s => s.pushAll l' :=
  List.foldlM_append

/-- The buffers hold the list, or it does not fit them and there is no result. -/
def Fills (r : Option (Slots ι α)) (size : Nat) (l : List (ι × α)) : Prop :=
  (l.length ≤ size ∧ ∃ s, r = some s ∧ s.Holds size l) ∨ (size < l.length ∧ r = none)

theorem Slots.Holds.pushAll (h : s.Holds size l) (hsize : size < 2 ^ 31) (more : List (ι × α)) :
    Fills (s.pushAll more) size (l ++ more) := by
  induction more generalizing s l with
  | nil =>
      rw [List.append_nil]
      exact Or.inl ⟨h.length_le, s, rfl, h⟩
  | cons p rest ih =>
      unfold Slots.pushAll
      rw [List.foldlM_cons]
      by_cases hroom : l.length < size
      · obtain ⟨s', hpush, hs'⟩ := h.push hsize hroom p.1 p.2
        have hrest := ih hs'
        rw [List.append_assoc] at hrest
        rw [hpush]
        exact hrest
      · rw [h.push_full (Nat.not_lt.mp hroom)]
        refine Or.inr ⟨?_, rfl⟩
        rw [List.length_append, List.length_cons]
        omega

/-- A loop that pushes one and the same slot. -/
theorem pushAll_replicate (s : Slots ι α) (k : Nat) (i : ι) (x : α) :
    (List.range k).foldlM (fun s _ => s.push i x) s = s.pushAll (List.replicate k (i, x)) := by
  induction k with
  | zero => rfl
  | succ k ih =>
      rw [List.range_succ, List.foldlM_append, ih, List.replicate_succ', Slots.pushAll_append]
      rfl

end Filling

section Columns

variable [Zero α] {c : Encoding α} {d : Dense α}

theorem mem_keptRows {i j : Nat} :
    i ∈ keptRows c d j ↔ i < d.m ∧ c.significant (d.entry i j) = true := by
  rw [keptRows, List.mem_filter, List.mem_range]

theorem keptRows_length_le (j : Nat) : (keptRows c d j).length ≤ d.m := by
  have hle := List.length_filter_le (fun i => c.significant (d.entry i j)) (List.range d.m)
  rwa [List.length_range] at hle

theorem scanColumn_eq (h : d.InRange) {j : Nat} (hj : j < d.n) (idx : Nat → ι) (s : Slots ι α) :
    scanColumn c d idx j s = s.pushAll (column c d idx j) := by
  have hrows : ∀ (rows : List Nat) (s : Slots ι α), (∀ i ∈ rows, i < d.m) →
      rows.foldlM (fun s i => do
        let x ← d.read i j
        if c.significant x then s.push (idx i) x else some s) s =
        s.pushAll ((rows.filter fun i => c.significant (d.entry i j)).map
          fun i => (idx i, d.entry i j)) := by
    intro rows
    induction rows with
    | nil => exact fun s _ => rfl
    | cons i rest ih =>
        intro s hlt
        have hrest := fun s => ih s fun k hk => hlt k (List.mem_cons_of_mem _ hk)
        rw [List.foldlM_cons, read_inRange h (hlt i List.mem_cons_self) hj]
        simp only [hrest]
        cases hsig : c.significant (d.entry i j) with
        | true => simp [hsig, Slots.pushAll]
        | false => simp [hsig]
  exact hrows _ s fun i hi => List.mem_range.mp hi

theorem countColumn_eq (h : d.InRange) {j : Nat} (hj : j < d.n) (count : Nat) :
    countColumn c d j (int32 count) = some (int32 (count + (keptRows c d j).length : Nat)) := by
  have hrows : ∀ (rows : List Nat) (count : Nat), (∀ i ∈ rows, i < d.m) →
      rows.foldlM (fun count i => do
        let x ← d.read i j
        some (if c.significant x then int32 (count + 1) else count)) (int32 count) =
        some (int32 (count + (rows.filter fun i => c.significant (d.entry i j)).length : Nat)) := by
    intro rows
    induction rows with
    | nil => exact fun count _ => rfl
    | cons i rest ih =>
        intro count hlt
        have hrest := fun count => ih count fun k hk => hlt k (List.mem_cons_of_mem _ hk)
        rw [List.foldlM_cons, read_inRange h (hlt i List.mem_cons_self) hj]
        cases hsig : c.significant (d.entry i j) with
        | true =>
            have hnext : int32 (int32 count + 1) = int32 (count + 1 : Nat) := int32_add_left _ _
            have hcount := hrest (count + 1)
            rw [← hnext, Nat.add_right_comm] at hcount
            simpa [hsig, Nat.add_assoc] using hcount
        | false => simpa [hsig] using hrest count
  exact hrows _ count fun i hi => List.mem_range.mp hi

/-- A matrix that is too large is not counted. -/
theorem exists_countColumn_none (h : ¬ d.InRange) :
    ∃ j, j < d.n ∧ ∀ count, countColumn c d j count = none := by
  obtain ⟨i, j, hi, hj, hread⟩ := exists_read_none h
  refine ⟨j, hj, ?_⟩
  have hrows : ∀ (rows : List Nat) (count : Int), i ∈ rows →
      rows.foldlM (fun count i => do
        let x ← d.read i j
        some (if c.significant x then int32 (count + 1) else count)) count = none := by
    intro rows
    induction rows with
    | nil => exact fun _ hmem => absurd hmem List.not_mem_nil
    | cons k rest ih =>
        intro count hmem
        rw [List.foldlM_cons]
        cases hk : d.read k j with
        | none => rfl
        | some x =>
            rcases List.mem_cons.mp hmem with rfl | hmem
            · rw [hread] at hk
              cases hk
            · exact ih _ hmem
  exact fun count => hrows _ count (List.mem_range.mpr hi)

end Columns

section Decode

variable [AddZeroClass α] {m : Nat}

theorem addAt_map (f : Nat → α) {i : Nat} (hi : i < m) (x : α) :
    addAt ((List.range m).map f) i x =
      some ((List.range m).map (Function.update f i (f i + x))) := by
  have hlen : ((List.range m).map f).length = m := by simp
  unfold addAt
  rw [load_natCast, List.getElem?_eq_getElem (by rwa [hlen])]
  unfold store
  simp only [List.getElem_map, List.getElem_range, bind, Option.bind, hlen]
  rw [if_pos ⟨Int.natCast_nonneg i, by exact_mod_cast hi⟩, Int.toNat_natCast]
  congr 1
  apply List.ext_getElem
  · simp
  · intro k hk _
    simp only [List.getElem_set, List.getElem_map, List.getElem_range]
    rcases eq_or_ne i k with rfl | hne
    · rw [if_pos rfl, Function.update_self]
    · rw [if_neg hne, Function.update_of_ne (Ne.symm hne)]

theorem addAt_out (col : List α) {i : Nat} (hi : col.length ≤ i) (x : α) : addAt col i x = none := by
  unfold addAt
  rw [load_natCast, List.getElem?_eq_none hi]
  rfl

theorem addAll_append (col : List α) (l l' : List (Int × α)) :
    addAll col (l ++ l') = addAll col l >>= fun col => addAll col l' :=
  List.foldlM_append

/-- Values for different rows that are still zero. -/
theorem addAll_rows (g : Nat → α) {rows : List Nat} (hnodup : rows.Nodup)
    (hlt : ∀ i ∈ rows, i < m) (f : Nat → α) (hzero : ∀ i ∈ rows, f i = 0) :
    addAll ((List.range m).map f) (rows.map fun i : Nat => ((i : Int), g i)) =
      some ((List.range m).map fun i => if i ∈ rows then g i else f i) := by
  induction rows generalizing f with
  | nil => simp [addAll]
  | cons i rest ih =>
      obtain ⟨hnot, hrest⟩ := List.nodup_cons.mp hnodup
      have hfi : f i = 0 := hzero i List.mem_cons_self
      have hstep := ih hrest (fun k hk => hlt k (List.mem_cons_of_mem _ hk))
        (Function.update f i (f i + g i)) (by
          intro k hk
          have hne : k ≠ i := by
            rintro rfl
            exact hnot hk
          rw [Function.update_of_ne hne]
          exact hzero k (List.mem_cons_of_mem _ hk))
      unfold addAll at hstep ⊢
      rw [List.map_cons, List.foldlM_cons, addAt_map f (hlt i List.mem_cons_self)]
      rw [Option.bind_eq_bind, Option.bind_some, hstep]
      congr 1
      apply List.map_congr_left
      intro k _
      rcases eq_or_ne k i with rfl | hne
      · simp [hnot, hfi]
      · simp [hne]

theorem addAll_zeros (f : Nat → α) {r : Nat} (hr : r < m) (k : Nat) :
    addAll ((List.range m).map f) (List.replicate k ((r : Int), 0)) =
      some ((List.range m).map f) := by
  induction k with
  | zero => rfl
  | succ k ih =>
      unfold addAll at ih ⊢
      rw [List.replicate_succ, List.foldlM_cons, addAt_map f hr, add_zero,
        Function.update_eq_self]
      exact ih

/-- A column of kept entries, padded with zeros for some row, gives back the
column of the matrix. -/
theorem addAll_column {c : Encoding α} {d : Dense α} (j : Nat) {r k : Nat}
    (hr : k = 0 ∨ r < d.m) :
    addAll (List.replicate d.m 0)
        (column c d (fun i : Nat => (i : Int)) j ++ List.replicate k ((r : Int), 0)) =
      some ((List.range d.m).map fun i => c.kept (d.entry i j)) := by
  have hzeros : List.replicate d.m (0 : α) = (List.range d.m).map fun _ => 0 := by
    rw [List.map_const', List.length_range]
  have hkept : (fun i => if i ∈ keptRows c d j then d.entry i j else 0) =
      fun i => if i < d.m then c.kept (d.entry i j) else 0 := by
    funext i
    unfold Encoding.kept
    by_cases hi : i < d.m
    · simp [mem_keptRows, hi]
    · simp [mem_keptRows, hi]
  have hnodup : (keptRows c d j).Nodup := List.Nodup.filter _ List.nodup_range
  have hcolumn := addAll_rows (fun i => d.entry i j) hnodup
    (fun i hi => (mem_keptRows.mp hi).1) (fun _ => 0) (fun _ _ => rfl)
  rw [hzeros, addAll_append]
  unfold column
  rw [hcolumn, hkept]
  have hmap : ((List.range d.m).map fun i => if i < d.m then c.kept (d.entry i j) else 0) =
      (List.range d.m).map fun i => c.kept (d.entry i j) :=
    List.map_congr_left fun i hi => if_pos (List.mem_range.mp hi)
  rw [hmap, Option.bind_eq_bind, Option.bind_some]
  rcases hr with rfl | hr
  · rfl
  · exact addAll_zeros _ hr k

end Decode

end DashInfer.Sparse
