import DashInfer.WeightFile.Header

/-!
The sparse forms of a matrix: compressed columns, each padded to a multiple of
the vector width, and ELL rows, all columns padded to one length.
-/

namespace DashInfer.WeightFile

/-- The element types a matrix can be compressed for. -/
inductive Element
  | float | half
deriving DecidableEq, Repr

def Element.size : Element → Nat
  | .float => 4
  | .half => 2

/-- The unsigned number in a little-endian byte string. -/
def readLE : List UInt8 → Nat
  | [] => 0
  | b :: rest => b.toNat + 256 * readLE rest

/-- The low bytes of a number, little end first. -/
def littleEndian : Nat → Nat → List UInt8
  | 0, _ => []
  | width + 1, n => n.toUInt8 :: littleEndian width (n / 256)

@[simp] theorem length_littleEndian (width n : Nat) : (littleEndian width n).length = width := by
  induction width generalizing n with
  | zero => rfl
  | succ width ih => rw [littleEndian, List.length_cons, ih]

/-- The comparison `fabs(x) > 1e-9f` on the bits of `x`; it fails on a NaN. -/
def Element.significant (e : Element) (entry : List UInt8) : Bool :=
  match e with
  | .float => let bits := readLE entry % 2 ^ 31; 0x3089705F < bits && bits ≤ 0x7F800000
  | .half => let bits := readLE entry % 2 ^ 15; 0 < bits && bits ≤ 0x7C00

/-- The number of elements of a vector register. -/
def Element.vect (e : Element) : Nat := 16 / e.size

section Conversion

variable (e : Element) (matrix : List UInt8) (m n : Nat)

/-- `denseMatrix[k]`. -/
def entry (k : Nat) : List UInt8 := (matrix.drop (k * e.size)).take e.size

/-- The rows of a column whose element is kept. -/
def significantRows (j : Nat) : List Nat :=
  (List.range m).filter fun i => e.significant (entry e matrix (i * n + j))

def padding (vect count : Nat) : Nat :=
  if count % vect ≠ 0 then vect - count % vect else 0

def getNnz : Nat :=
  (List.range n).foldl
    (fun nnz j =>
      nnz + (significantRows e matrix m n j).length +
        padding e.vect (significantRows e matrix m n j).length) 0

structure CscArrays where
  rowIdx : List Nat
  sparseMatrix : List (List UInt8)
  colOffset : List Nat
deriving DecidableEq, Repr

/-- One column: its kept elements, then zeros in its last row. -/
def cscColumn (arrays : CscArrays) (j : Nat) : CscArrays :=
  let rows := significantRows e matrix m n j
  let rowIdx := arrays.rowIdx ++ rows
  let pad := padding e.vect rows.length
  let nnz := rowIdx.length + pad
  ⟨rowIdx ++ List.replicate pad (rowIdx.getLastD 0),
    arrays.sparseMatrix ++ (rows.map fun i => entry e matrix (i * n + j)) ++
      List.replicate pad (List.replicate e.size 0),
    arrays.colOffset ++ [nnz]⟩

def denseToCscPadding : CscArrays :=
  (List.range n).foldl (cscColumn e matrix m n) ⟨[], [], [0]⟩

def getNnzEll : Nat :=
  let maxC := (List.range n).foldl (fun c j => max c (significantRows e matrix m n j).length) 0
  (maxC + padding e.vect maxC) * n

structure EllArrays where
  rowIdx : List Nat
  sparseMatrix : List (List UInt8)
deriving DecidableEq, Repr

/-- One column of the intermediate arrays. The padding takes its row from
`rowIdx[nnz - 1]`, an element of the output array, which still holds zeros;
before the first kept element there is no such index. -/
def ellColumn (maxC : Nat) (csc : EllArrays) (j : Nat) : Except Failure EllArrays :=
  let rows := significantRows e matrix m n j
  if csc.rowIdx.length + rows.length = 0 then .error .undefinedBehaviour
  else
    let pad := maxC - rows.length
    .ok ⟨csc.rowIdx ++ rows ++ List.replicate pad 0,
      csc.sparseMatrix ++ (rows.map fun i => entry e matrix (i * n + j)) ++
        List.replicate pad (List.replicate e.size 0)⟩

/-- The order the elements are written in: a vector of each column in turn. -/
def ellOrder (maxC : Nat) : List Nat :=
  (List.range (maxC / e.vect)).flatMap fun i =>
    (List.range n).flatMap fun j => (List.range e.vect).map fun k => i * e.vect + j * maxC + k

def denseToEllPadding (nnz : Nat) : Except Failure EllArrays :=
  if n = 0 then .error .undefinedBehaviour
  else do
    let maxC := nnz / n
    let csc ← (List.range n).foldlM (ellColumn e matrix m n maxC) ⟨[], []⟩
    return ⟨(ellOrder e n maxC).map fun pos => csc.rowIdx.getD pos 0,
      (ellOrder e n maxC).map fun pos => csc.sparseMatrix.getD pos (List.replicate e.size 0)⟩

end Conversion

section Lengths

variable {e : Element} {matrix : List UInt8} {m n : Nat}

theorem length_entry {k : Nat} (h : (k + 1) * e.size ≤ matrix.length) :
    (entry e matrix k).length = e.size := by
  rw [entry, List.length_take, List.length_drop]
  rw [Nat.add_mul, Nat.one_mul] at h
  omega

theorem mem_significantRows {i j : Nat} :
    i ∈ significantRows e matrix m n j ↔ i < m ∧ e.significant (entry e matrix (i * n + j)) := by
  rw [significantRows, List.mem_filter, List.mem_range]

theorem length_entry_of_lt {i j : Nat} (hsize : m * n * e.size ≤ matrix.length) (hi : i < m)
    (hj : j < n) : (entry e matrix (i * n + j)).length = e.size := by
  have hindex : i * n + j + 1 ≤ m * n := by
    calc i * n + j + 1 ≤ i * n + n := by omega
      _ = (i + 1) * n := by rw [Nat.add_mul, Nat.one_mul]
      _ ≤ m * n := Nat.mul_le_mul_right _ hi
  exact length_entry ((Nat.mul_le_mul_right _ hindex).trans hsize)

/-- Every value has the size of an element. -/
def Uniform (e : Element) (values : List (List UInt8)) : Prop := ∀ v ∈ values, v.length = e.size

theorem Uniform.length_flatten {values : List (List UInt8)} (h : Uniform e values) :
    values.flatten.length = values.length * e.size := by
  induction values with
  | nil => simp
  | cons v rest ih =>
      rw [List.flatten_cons, List.length_append, h v List.mem_cons_self,
        ih fun x hx => h x (List.mem_cons_of_mem _ hx), List.length_cons, Nat.add_mul, Nat.one_mul,
        Nat.add_comm]

theorem Uniform.append {v w : List (List UInt8)} (hv : Uniform e v) (hw : Uniform e w) :
    Uniform e (v ++ w) := by
  intro x hx
  rcases List.mem_append.mp hx with h | h
  · exact hv x h
  · exact hw x h

theorem uniform_zeros (e : Element) (k : Nat) :
    Uniform e (List.replicate k (List.replicate e.size 0)) := by
  intro v hv
  rw [(List.mem_replicate.mp hv).2, List.length_replicate]

theorem uniform_column (hsize : m * n * e.size ≤ matrix.length) {j : Nat} (hj : j < n) :
    Uniform e ((significantRows e matrix m n j).map fun i => entry e matrix (i * n + j)) := by
  intro v hv
  obtain ⟨i, hi, rfl⟩ := List.mem_map.mp hv
  exact length_entry_of_lt hsize (mem_significantRows.mp hi).1 hj

/-- What the compressed columns hold after some of the columns. -/
structure CscFilled (e : Element) (nnz cols : Nat) (arrays : CscArrays) : Prop where
  rowIdx : arrays.rowIdx.length = nnz
  values : arrays.sparseMatrix.length = nnz
  uniform : Uniform e arrays.sparseMatrix
  colOffset : arrays.colOffset.length = cols + 1

theorem CscFilled.foldl (hsize : m * n * e.size ≤ matrix.length) {nnz cols : Nat}
    {arrays : CscArrays} (h : CscFilled e nnz cols arrays) {l : List Nat} (hl : ∀ j ∈ l, j < n) :
    CscFilled e
      (l.foldl (fun nnz j => nnz + (significantRows e matrix m n j).length +
        padding e.vect (significantRows e matrix m n j).length) nnz)
      (cols + l.length) (l.foldl (cscColumn e matrix m n) arrays) := by
  induction l generalizing nnz cols arrays with
  | nil => exact h
  | cons j rest ih =>
      have hj := hl j List.mem_cons_self
      rw [List.foldl_cons, List.foldl_cons, List.length_cons, Nat.add_comm rest.length,
        ← Nat.add_assoc]
      refine ih ⟨?_, ?_, ?_, ?_⟩ fun x hx => hl x (List.mem_cons_of_mem _ hx)
      · simp only [cscColumn, List.length_append, List.length_replicate, h.rowIdx]
      · simp only [cscColumn, List.length_append, List.length_map, List.length_replicate, h.values]
      · exact (h.uniform.append (uniform_column hsize hj)).append (uniform_zeros e _)
      · simp only [cscColumn, List.length_append, List.length_singleton, h.colOffset]

/-- The arrays have the lengths the caller allocated them with. -/
theorem cscFilled (hsize : m * n * e.size ≤ matrix.length) :
    CscFilled e (getNnz e matrix m n) n (denseToCscPadding e matrix m n) := by
  have hempty : CscFilled e 0 0 ⟨[], [], [0]⟩ := ⟨rfl, rfl, (fun _ hv => by cases hv), rfl⟩
  have h := hempty.foldl hsize fun j (hj : j ∈ List.range n) => List.mem_range.mp hj
  rwa [List.length_range, Nat.zero_add] at h

theorem vect_pos (e : Element) : 0 < e.vect := by
  cases e <;> decide

theorem dvd_add_padding {vect : Nat} (h : 0 < vect) (c : Nat) : vect ∣ c + padding vect c := by
  rw [padding]
  split
  · have hlt := Nat.mod_lt c h
    have hdiv := Nat.div_add_mod c vect
    refine ⟨c / vect + 1, ?_⟩
    rw [Nat.mul_add, Nat.mul_one]
    omega
  · rename_i hzero
    exact Nat.dvd_of_mod_eq_zero (not_not.mp hzero)

theorem getNnzEll_eq (e : Element) (matrix : List UInt8) (m n : Nat) :
    ∃ maxC, getNnzEll e matrix m n = maxC * n ∧ e.vect ∣ maxC :=
  ⟨_, rfl, dvd_add_padding (vect_pos e) _⟩

theorem length_ellOrder {maxC : Nat} (h : e.vect ∣ maxC) :
    (ellOrder e n maxC).length = maxC * n := by
  have hinner : ∀ i, ((List.range n).flatMap fun j =>
      (List.range e.vect).map fun k => i * e.vect + j * maxC + k).length = n * e.vect := by
    intro i
    simp [List.length_flatMap]
  calc (ellOrder e n maxC).length = maxC / e.vect * (n * e.vect) := by
        rw [ellOrder, List.length_flatMap, List.map_congr_left fun i _ => hinner i]
        simp
    _ = maxC / e.vect * e.vect * n := by ring
    _ = maxC * n := by rw [Nat.div_mul_cancel h]

theorem uniform_foldlM (hsize : m * n * e.size ≤ matrix.length) {maxC : Nat} {csc out : EllArrays}
    (h : Uniform e csc.sparseMatrix) {l : List Nat} (hl : ∀ j ∈ l, j < n)
    (hout : l.foldlM (ellColumn e matrix m n maxC) csc = .ok out) :
    Uniform e out.sparseMatrix := by
  induction l generalizing csc with
  | nil =>
      obtain rfl := Except.ok.inj hout
      exact h
  | cons j rest ih =>
      have hj := hl j List.mem_cons_self
      rw [List.foldlM_cons, ellColumn] at hout
      split at hout
      · cases hout
      · refine ih ?_ (fun x hx => hl x (List.mem_cons_of_mem _ hx)) hout
        exact (h.append (uniform_column hsize hj)).append (uniform_zeros e _)

structure EllFilled (e : Element) (nnz : Nat) (arrays : EllArrays) : Prop where
  rowIdx : arrays.rowIdx.length = nnz
  values : arrays.sparseMatrix.length = nnz
  uniform : Uniform e arrays.sparseMatrix

theorem ellFilled (hsize : m * n * e.size ≤ matrix.length) {arrays : EllArrays}
    (h : denseToEllPadding e matrix m n (getNnzEll e matrix m n) = .ok arrays) :
    EllFilled e (getNnzEll e matrix m n) arrays := by
  obtain ⟨maxC, hnnz, hdvd⟩ := getNnzEll_eq e matrix m n
  rw [hnnz] at h ⊢
  rw [denseToEllPadding] at h
  split at h
  case isTrue => cases h
  case isFalse hn =>
      dsimp only at h
      rw [Nat.mul_div_cancel _ (Nat.pos_of_ne_zero hn)] at h
      cases hfold : (List.range n).foldlM (ellColumn e matrix m n maxC) ⟨[], []⟩ with
      | error failure =>
          rw [hfold] at h
          cases h
      | ok csc =>
          rw [hfold] at h
          obtain rfl := Except.ok.inj h
          have huniform := uniform_foldlM hsize (fun v hv => by cases hv)
            (fun j hj => List.mem_range.mp hj) hfold
          refine ⟨?_, ?_, ?_⟩
          · rw [List.length_map, length_ellOrder hdvd]
          · rw [List.length_map, length_ellOrder hdvd]
          · intro v hv
            obtain ⟨pos, -, rfl⟩ := List.mem_map.mp hv
            by_cases hpos : pos < csc.sparseMatrix.length
            · rw [List.getD_eq_getElem?_getD, List.getElem?_eq_getElem hpos, Option.getD_some]
              exact huniform _ (List.getElem_mem hpos)
            · rw [List.getD_eq_getElem?_getD, List.getElem?_eq_none (Nat.le_of_not_lt hpos),
                Option.getD_none, List.length_replicate]

end Lengths

end DashInfer.WeightFile
