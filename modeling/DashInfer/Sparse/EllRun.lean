import DashInfer.Sparse.Csc
import DashInfer.Weight.Stack

/-!
ELL columns. Every column is padded to the height of the fullest one, rounded
up to the vector width, and the slots are then written out one vector of each
column at a time. Row indices have 16 bits. The row of a padding slot is read
from the output buffer, at the place before the slot, and not from the
intermediate buffer that is being filled.
-/

namespace DashInfer.Sparse

open Lib
open Service (int32 int32_eq_self)
open WeightFile (padding)

variable {α : Type}

/-- `unsigned short` of a row. -/
def shortRow (i : Nat) : UInt16 := UInt16.ofNat i

section Code

variable [Zero α] (c : Encoding α) (d : Dense α)

def getNnzEll : Option Int := do
  let maxC ← (List.range d.n).foldlM (fun maxC j =>
    (countColumn c d j 0).map fun sum => if maxC < sum then sum else maxC) 0
  let maxC := if maxC.tmod c.vect ≠ 0 then int32 (maxC + int32 (c.vect - maxC.tmod c.vect)) else maxC
  some (int32 (maxC * d.n))

/-- One column of the intermediate buffers; `rowIdx` is the output buffer. -/
def ellColumn (maxC : Int) (rowIdx : List UInt16) (csc : Slots UInt16 α) (j : Nat) :
    Option (Slots UInt16 α) := do
  let lastNnz := csc.nnz
  let csc ← scanColumn c d shortRow j csc
  let padding := int32 (maxC - int32 (csc.nnz - lastNnz))
  let lastIdx ← load rowIdx (int32 (csc.nnz - 1))
  (List.range padding.toNat).foldlM (fun csc _ => csc.push lastIdx 0) csc

/-- One vector of each column; `nnz` of the output counts in `pos0`. -/
def ellVector (maxC : Int) (csc : Slots UInt16 α) (state : Slots UInt16 α × Int) :
    Option (Slots UInt16 α × Int) := do
  let (out, pos1) := state
  let out ← (List.range c.vect).foldlM (fun out (k : Nat) => do
    let row ← load csc.rowIdx (int32 (pos1 + k))
    let x ← load csc.values (int32 (pos1 + k))
    out.push row x) out
  some (out, int32 (pos1 + maxC))

def ellVectors (maxC : Int) (csc out : Slots UInt16 α) (i : Nat) : Option (Slots UInt16 α) := do
  let (out, _) ← (List.range d.n).foldlM (fun state _ => ellVector c maxC csc state)
    (out, int32 (i * c.vect))
  some out

/-- The intermediate buffers come from `malloc` and hold anything. -/
def denseToEllPadding (nnz : Int) (values : List α) (rowIdx : List UInt16) (cscVal : List α)
    (cscRowIdx : List UInt16) : Option (Slots UInt16 α) :=
  if d.n = 0 then none
  else do
    let maxC := nnz.tdiv d.n
    let csc ← (List.range d.n).foldlM (ellColumn c d maxC rowIdx)
      { nnz := 0, rowIdx := cscRowIdx, values := cscVal }
    (List.range (maxC.tdiv c.vect).toNat).foldlM (ellVectors c d maxC csc)
      { nnz := 0, rowIdx, values }

/-- The places of column `j` among `nnz` slots. -/
def ellPlaces (nnz j : Nat) : List Nat :=
  (List.range (nnz / d.n / c.vect)).flatMap fun i =>
    (List.range c.vect).map fun k => (i * d.n + j) * c.vect + k

def decodeSlot [Add α] (out : Slots UInt16 α) (col : List α) (p : Nat) : Option (List α) := do
  let row ← load out.rowIdx p
  let x ← load out.values p
  addAt col row.toNat x

/-- Column `j` of what was written to `nnz` slots. -/
def decodeEllColumn [Add α] (out : Slots UInt16 α) (nnz j : Nat) : Option (List α) :=
  (ellPlaces c d nnz j).foldlM (decodeSlot out) (List.replicate d.m 0)

end Code

/-- The buffers are sized by `get_nnz_ell`; the output index buffer holds `old`
at entry and the others anything. The encoder stays in them and fills the
output, whose columns decode to those of the matrix. -/
def EllRoundTrips [AddZeroClass α] (c : Encoding α) (d : Dense α) (old : Nat → UInt16) : Prop :=
  ∃ nnz : Nat, getNnzEll c d = some (nnz : Int) ∧
    ∀ (values cscVal : List α) (cscRowIdx : List UInt16), values.length = nnz →
      cscVal.length = nnz → cscRowIdx.length = nnz →
      ∃ out, denseToEllPadding c d nnz values ((List.range nnz).map old) cscVal cscRowIdx =
          some out ∧ out.nnz = nnz ∧
        ∀ j < d.n, decodeEllColumn c d out nnz j =
          some ((List.range d.m).map fun i => c.kept (d.entry i j))

section Height

variable [Zero α] (c : Encoding α) (d : Dense α)

/-- The number of kept entries of the fullest of the first columns. -/
def fullest (k : Nat) : Nat :=
  (List.range k).foldl (fun most j => max most (keptRows c d j).length) 0

/-- The common height of the columns. -/
def ellHeight : Nat := fullest c d d.n + padding c.vect (fullest c d d.n)

variable {c d}

theorem fullest_succ (k : Nat) :
    fullest c d (k + 1) = max (fullest c d k) (keptRows c d k).length := by
  unfold fullest
  rw [List.range_succ, List.foldl_append, List.foldl_cons, List.foldl_nil]

theorem keptRows_le_fullest {j k : Nat} (hj : j < k) :
    (keptRows c d j).length ≤ fullest c d k := by
  induction k with
  | zero => exact absurd hj (Nat.not_lt_zero j)
  | succ k ih =>
      rw [fullest_succ]
      rcases Nat.lt_succ_iff_lt_or_eq.mp hj with hlt | rfl
      · exact (ih hlt).trans (Nat.le_max_left ..)
      · exact Nat.le_max_right ..

theorem exists_fullest {k : Nat} (h : fullest c d k ≠ 0) :
    ∃ j < k, (keptRows c d j).length = fullest c d k := by
  induction k with
  | zero => exact absurd rfl h
  | succ k ih =>
      rw [fullest_succ] at h ⊢
      rcases Nat.le_total (fullest c d k) (keptRows c d k).length with hle | hle
      · exact ⟨k, Nat.lt_succ_self k, (Nat.max_eq_right hle).symm⟩
      · rw [Nat.max_eq_left hle] at h ⊢
        obtain ⟨j, hj, heq⟩ := ih h
        exact ⟨j, Nat.lt_succ_of_lt hj, heq⟩

theorem fullest_le (k : Nat) : fullest c d k ≤ d.m := by
  induction k with
  | zero => exact Nat.zero_le _
  | succ k ih =>
      rw [fullest_succ]
      exact max_le ih (keptRows_length_le k)

theorem vect_dvd_ellHeight : c.vect ∣ ellHeight c d :=
  WeightFile.dvd_add_padding c.vect_pos _

/-- Fewer slots than the height, in whole vectors, do not hold the fullest column. -/
theorem lt_fullest_of_lt {s : Nat} (hlt : s < ellHeight c d) (hdvd : c.vect ∣ s) :
    s < fullest c d d.n := by
  have hpos := c.vect_pos
  unfold ellHeight padding at hlt
  split at hlt
  · obtain ⟨q, rfl⟩ := hdvd
    have hdiv := Nat.div_add_mod (fullest c d d.n) c.vect
    have hmod := Nat.mod_lt (fullest c d d.n) hpos
    have hq : c.vect * q < c.vect * (fullest c d d.n / c.vect + 1) := by
      rw [Nat.mul_add, Nat.mul_one]
      omega
    have hle := Nat.mul_le_mul_left c.vect (Nat.le_of_lt_succ (Nat.lt_of_mul_lt_mul_left hq))
    omega
  · omega

theorem getNnzEll_eq (h : d.InRange) : getNnzEll c d = some (int32 (ellHeight c d * d.n : Nat)) := by
  have hzero : int32 ((0 : Nat) : Int) = 0 := int32_eq_self (by omega) (by omega)
  have hrun : ∀ k ≤ d.n, (List.range k).foldlM (fun (maxC : Int) j =>
      (countColumn c d j 0).map fun sum => if maxC < sum then sum else maxC) (0 : Int) =
        some ((fullest c d k : Nat) : Int) := by
    intro k
    induction k with
    | zero => exact fun _ => rfl
    | succ k ih =>
        intro hk
        have hcount := countColumn_eq (c := c) h hk 0
        rw [hzero, Nat.zero_add, int32_count] at hcount
        rw [List.range_succ, List.foldlM_append, ih (by omega), Option.bind_eq_bind,
          Option.bind_some, List.foldlM_cons, hcount, Option.map_some, Option.bind_eq_bind,
          Option.bind_some, List.foldlM_nil, fullest_succ]
        refine congrArg some ?_
        split <;> omega
  have hvect := c.vect_lt
  have hm := d.m_lt
  have hle := fullest_le (c := c) (d := d) d.n
  have hmod : ((fullest c d d.n : Nat) : Int).tmod c.vect = (fullest c d d.n % c.vect : Nat) :=
    (Int.ofNat_tmod _ _).symm
  have hlt := Nat.mod_lt (fullest c d d.n) c.vect_pos
  unfold getNnzEll
  rw [hrun d.n le_rfl, Option.bind_eq_bind, Option.bind_some]
  dsimp only
  rw [hmod]
  refine congrArg some ?_
  unfold ellHeight padding
  by_cases hrest : fullest c d d.n % c.vect = 0
  · rw [if_neg (by rw [hrest]; simp), if_neg (not_not.mpr hrest), Nat.add_zero, Nat.cast_mul]
  · have hself : int32 ((c.vect : Int) - (fullest c d d.n % c.vect : Nat)) =
        (c.vect - fullest c d d.n % c.vect : Nat) := by
      rw [Nat.cast_sub hlt.le]
      exact int32_eq_self (by omega) (by omega)
    rw [if_pos (by exact_mod_cast hrest), if_pos hrest, hself, ← Nat.cast_add,
      Service.int32_mul_left, ← Nat.cast_mul]

theorem getNnzEll_none (h : ¬ d.InRange) : getNnzEll c d = none := by
  obtain ⟨j, hj, hnone⟩ := exists_countColumn_none (c := c) h
  have hcolumns : ∀ (columns : List Nat) (maxC : Int), j ∈ columns →
      columns.foldlM (fun (maxC : Int) j =>
        (countColumn c d j 0).map fun sum => if maxC < sum then sum else maxC) maxC = none := by
    intro columns
    induction columns with
    | nil => exact fun _ hmem => absurd hmem List.not_mem_nil
    | cons k rest ih =>
        intro maxC hmem
        rw [List.foldlM_cons]
        rcases List.mem_cons.mp hmem with rfl | hmem
        · rw [hnone]
          rfl
        · exact Option.bind_eq_none_iff.mpr fun next _ => ih next hmem
  unfold getNnzEll
  rw [hcolumns _ 0 (List.mem_range.mpr hj)]
  rfl

end Height

end DashInfer.Sparse

/-!
The two loops of `dense_to_ell_padding`: the columns of the intermediate
buffers, all of one height, and then the vectors that are written out. Place
`t` of a column ends up in vector `t / VECT` of that column.
-/

namespace DashInfer.Sparse

open Lib
open Service (int32 int32_eq_self)
open WeightFile (padding)

variable {α : Type}

section Spec

variable [Zero α] (c : Encoding α) (d : Dense α) (old : Nat → UInt16)

/-- What a column becomes. The row of its padding is what the output buffer
holds at entry in the place before it. -/
def ellSlots (j : Nat) : List (UInt16 × α) :=
  column c d shortRow j ++ List.replicate (ellHeight c d - (keptRows c d j).length)
    (old (j * ellHeight c d + (keptRows c d j).length - 1), 0)

/-- What the first columns become in the intermediate buffers. -/
def ellSlotsTo (k : Nat) : List (UInt16 × α) := (List.range k).flatMap (ellSlots c d old)

def slotAt (l : List (UInt16 × α)) (p : Nat) : UInt16 × α := l.getD p (0, 0)

/-- What is written out in one round. -/
def ellRound (i : Nat) : List (UInt16 × α) :=
  (List.range d.n).flatMap fun j => (List.range c.vect).map fun k =>
    slotAt (ellSlotsTo c d old d.n) (i * c.vect + j * ellHeight c d + k)

end Spec

section Columns

variable [Zero α] {c : Encoding α} {d : Dense α} {old : Nat → UInt16}

theorem ellSlotsTo_succ (k : Nat) :
    ellSlotsTo c d old (k + 1) = ellSlotsTo c d old k ++ ellSlots c d old k := by
  unfold ellSlotsTo
  rw [List.range_succ, List.flatMap_append, List.flatMap_singleton]

theorem keptRows_le_ellHeight {j : Nat} (hj : j < d.n) :
    (keptRows c d j).length ≤ ellHeight c d :=
  (keptRows_le_fullest hj).trans (Nat.le_add_right _ _)

theorem length_ellSlots {j : Nat} (hj : j < d.n) : (ellSlots c d old j).length = ellHeight c d := by
  have hle := keptRows_le_ellHeight (c := c) hj
  simp only [ellSlots, column, List.length_append, List.length_map, List.length_replicate]
  omega

theorem length_ellSlotsTo {k : Nat} (hk : k ≤ d.n) :
    (ellSlotsTo c d old k).length = k * ellHeight c d := by
  induction k with
  | zero => rw [Nat.zero_mul]; rfl
  | succ k ih =>
      rw [ellSlotsTo_succ, List.length_append, ih (by omega), length_ellSlots hk, Nat.succ_mul]

/-- Place `t` of column `j`, in the intermediate buffers. -/
theorem slotAt_ellSlotsTo {j k t : Nat} (hj : j < k) (hk : k ≤ d.n) (ht : t < ellHeight c d) :
    slotAt (ellSlotsTo c d old k) (j * ellHeight c d + t) = slotAt (ellSlots c d old j) t := by
  induction k with
  | zero => exact absurd hj (Nat.not_lt_zero j)
  | succ k ih =>
      have hlen : (ellSlotsTo c d old k).length = k * ellHeight c d :=
        length_ellSlotsTo (Nat.le_of_succ_le hk)
      unfold slotAt at ih ⊢
      rw [ellSlotsTo_succ]
      rcases Nat.lt_succ_iff_lt_or_eq.mp hj with hlt | rfl
      · have hindex : j * ellHeight c d + t < k * ellHeight c d := by
          calc j * ellHeight c d + t < j * ellHeight c d + ellHeight c d := by omega
            _ = (j + 1) * ellHeight c d := by rw [Nat.succ_mul]
            _ ≤ k * ellHeight c d := Nat.mul_le_mul_right _ hlt
        rw [List.getD_append _ _ _ _ (by rwa [hlen])]
        exact ih hlt (by omega)
      · rw [List.getD_append_right _ _ _ _ (by rw [hlen]; omega), hlen, Nat.add_sub_cancel_left]

variable {nnz : Nat}

/-- One column of the intermediate buffers. Its place in the output buffer is
behind the first kept entry of the matrix. -/
theorem ellColumn_spec (hrange : d.InRange) (hnnz : nnz = ellHeight c d * d.n)
    (hsize : nnz < 2 ^ 31) {csc : Slots UInt16 α} {j : Nat} (hj : j < d.n)
    (h : csc.Holds nnz (ellSlotsTo c d old j))
    (hbefore : 0 < j * ellHeight c d + (keptRows c d j).length) :
    ∃ csc', ellColumn c d (ellHeight c d) ((List.range nnz).map old) csc j = some csc' ∧
      csc'.Holds nnz (ellSlotsTo c d old (j + 1)) := by
  have hle := keptRows_le_ellHeight (c := c) hj
  have hcolumns : (j + 1) * ellHeight c d ≤ nnz := by
    rw [hnnz, Nat.mul_comm (ellHeight c d)]
    exact Nat.mul_le_mul_right _ hj
  rw [Nat.succ_mul] at hcolumns
  have hlen : (ellSlotsTo c d old j).length = j * ellHeight c d := length_ellSlotsTo hj.le
  have hcol : (column c d shortRow j).length = (keptRows c d j).length := List.length_map _
  rcases h.pushAll hsize (column c d shortRow j) with ⟨-, s, hs, hscan⟩ | ⟨hlong, -⟩
  · have hcount : s.nnz = (j * ellHeight c d + (keptRows c d j).length : Nat) := by
      rw [hscan.nnz, List.length_append, hlen, hcol]
    have hdiff : int32 (s.nnz - csc.nnz) = (keptRows c d j).length := by
      rw [hcount, h.nnz, hlen, Nat.cast_add, add_sub_cancel_left]
      exact int32_count j
    have hpad : (int32 ((ellHeight c d : Int) - (keptRows c d j).length)).toNat =
        ellHeight c d - (keptRows c d j).length := by
      have hself : int32 ((ellHeight c d : Int) - (keptRows c d j).length) =
          (ellHeight c d : Int) - (keptRows c d j).length := int32_eq_self (by omega) (by omega)
      omega
    have hlast : load ((List.range nnz).map old) (int32 (s.nnz - 1)) =
        some (old (j * ellHeight c d + (keptRows c d j).length - 1)) := by
      have hself : int32 (s.nnz - 1) =
          (j * ellHeight c d + (keptRows c d j).length - 1 : Nat) := by
        rw [hcount, Nat.cast_sub hbefore, Nat.cast_one]
        exact int32_eq_self (by omega) (by omega)
      rw [hself, load_natCast, List.getElem?_map, List.getElem?_range (by omega), Option.map_some]
    unfold ellColumn
    rw [scanColumn_eq hrange hj, hs, Option.bind_eq_bind, Option.bind_some]
    dsimp only
    rw [hlast, hdiff, Option.bind_eq_bind, Option.bind_some, hpad, pushAll_replicate]
    have hall : ellSlotsTo c d old j ++ column c d shortRow j ++
        List.replicate (ellHeight c d - (keptRows c d j).length)
          (old (j * ellHeight c d + (keptRows c d j).length - 1), 0) =
        ellSlotsTo c d old (j + 1) := by
      rw [ellSlotsTo_succ, ellSlots, List.append_assoc]
    have hfills := hscan.pushAll hsize (List.replicate (ellHeight c d - (keptRows c d j).length)
      (old (j * ellHeight c d + (keptRows c d j).length - 1), 0))
    rw [hall] at hfills
    rcases hfills with ⟨-, s', hs', hholds⟩ | ⟨hlong, -⟩
    · exact ⟨s', hs', hholds⟩
    · rw [length_ellSlotsTo hj, Nat.succ_mul] at hlong
      omega
  · rw [List.length_append, hlen, hcol] at hlong
    omega

/-- All columns, when the first has a kept entry. -/
theorem ellColumns_spec (hrange : d.InRange) (hnnz : nnz = ellHeight c d * d.n)
    (hsize : nnz < 2 ^ 31) (hfirst : keptRows c d 0 ≠ []) {cscVal : List α}
    {cscRowIdx : List UInt16} (hval : cscVal.length = nnz) (hrow : cscRowIdx.length = nnz) :
    ∀ k ≤ d.n, ∃ csc, (List.range k).foldlM
        (ellColumn c d (ellHeight c d) ((List.range nnz).map old))
        { nnz := 0, rowIdx := cscRowIdx, values := cscVal } = some csc ∧
      csc.Holds nnz (ellSlotsTo c d old k) := by
  intro k
  induction k with
  | zero => exact fun _ => ⟨_, rfl, rfl, List.nil_prefix, List.nil_prefix, hrow, hval⟩
  | succ k ih =>
      intro hk
      obtain ⟨csc, hcsc, hholds⟩ := ih (by omega)
      have hfirst' := List.length_pos_iff.mpr hfirst
      have hbefore : 0 < k * ellHeight c d + (keptRows c d k).length := by
        rcases Nat.eq_zero_or_pos k with rfl | hpos
        · omega
        · have hheight := keptRows_le_ellHeight (c := c) (Nat.zero_lt_of_lt hk)
          have := Nat.mul_pos hpos (hfirst'.trans_le hheight)
          omega
      obtain ⟨csc', hcsc', hholds'⟩ := ellColumn_spec hrange hnnz hsize hk hholds hbefore
      refine ⟨csc', ?_, hholds'⟩
      rw [List.range_succ, List.foldlM_append, hcsc, Option.bind_eq_bind, Option.bind_some,
        List.foldlM_cons, hcsc']
      rfl

end Columns

section Vectors

/-- A loop each round of which pushes a list. -/
theorem foldlM_pushAll {ι γ : Type} {f : Slots ι α → γ → Option (Slots ι α)}
    {g : γ → List (ι × α)} {l : List γ} (h : ∀ a ∈ l, ∀ s, f s a = s.pushAll (g a))
    (s : Slots ι α) : l.foldlM f s = s.pushAll (l.flatMap g) := by
  induction l generalizing s with
  | nil => rfl
  | cons a rest ih =>
      rw [List.foldlM_cons, h a List.mem_cons_self, List.flatMap_cons, Slots.pushAll_append]
      congr 1
      funext s
      exact ih (fun b hb => h b (List.mem_cons_of_mem _ hb)) s

variable [Zero α] {c : Encoding α} {d : Dense α} {old : Nat → UInt16} {nnz : Nat}

theorem load_slotAt {s : Slots UInt16 α} {l : List (UInt16 × α)} (h : s.Holds nnz l) {p : Nat}
    (hp : p < l.length) :
    load s.rowIdx p = some (slotAt l p).1 ∧ load s.values p = some (slotAt l p).2 := by
  unfold slotAt
  rw [List.getD_eq_getElem _ _ hp]
  constructor
  · rw [load_eq_getElem h.rowIdx (by rwa [List.length_map]), List.getElem_map]
  · rw [load_eq_getElem h.values (by rwa [List.length_map]), List.getElem_map]

/-- One vector of a column. -/
theorem ellVector_eq {csc : Slots UInt16 α} {l : List (UInt16 × α)} (h : csc.Holds nnz l)
    (hsize : nnz < 2 ^ 31) {pos : Nat} (hpos : pos + c.vect ≤ l.length) (out : Slots UInt16 α) :
    (List.range c.vect).foldlM (fun out (k : Nat) => do
      let row ← load csc.rowIdx (int32 (pos + k))
      let x ← load csc.values (int32 (pos + k))
      out.push row x) out =
      out.pushAll ((List.range c.vect).map fun k => slotAt l (pos + k)) := by
  have hpush : ∀ k ∈ List.range c.vect, ∀ s : Slots UInt16 α, (do
      let row ← load csc.rowIdx (int32 (pos + k))
      let x ← load csc.values (int32 (pos + k))
      s.push row x) = s.pushAll [slotAt l (pos + k)] := by
    intro k hk s
    have hk := List.mem_range.mp hk
    have hle := h.length_le
    have hself : int32 ((pos : Int) + k) = (pos + k : Nat) := by
      rw [Nat.cast_add]
      exact int32_eq_self (by omega) (by omega)
    obtain ⟨hrow, hvalue⟩ := load_slotAt h (p := pos + k) (by omega)
    rw [hself, hrow, hvalue, Option.bind_eq_bind, Option.bind_some, Option.bind_eq_bind,
      Option.bind_some]
    exact (bind_pure _).symm
  rw [foldlM_pushAll hpush, List.map_eq_flatMap]

/-- The vectors of a round are the slots it takes from each column. -/
theorem ellVectors_eq (hnnz : nnz = ellHeight c d * d.n) (hsize : nnz < 2 ^ 31)
    {csc : Slots UInt16 α} (h : csc.Holds nnz (ellSlotsTo c d old d.n)) {i : Nat}
    (hi : i < ellHeight c d / c.vect) (out : Slots UInt16 α) :
    ellVectors c d (ellHeight c d) csc out i = out.pushAll (ellRound c d old i) := by
  have hround : (i + 1) * c.vect ≤ ellHeight c d :=
    (Nat.mul_le_mul_right _ hi).trans (Nat.div_mul_le_self _ _)
  rw [Nat.succ_mul] at hround
  have hlen : (ellSlotsTo c d old d.n).length = d.n * ellHeight c d := length_ellSlotsTo le_rfl
  have hcolumns : ∀ t ≤ d.n,
      (List.range t).foldlM (fun state _ => ellVector c (ellHeight c d) csc state)
          (out, int32 (i * c.vect)) =
        (out.pushAll ((List.range t).flatMap fun j => (List.range c.vect).map fun k =>
          slotAt (ellSlotsTo c d old d.n) (i * c.vect + j * ellHeight c d + k))).map
            fun out => (out, int32 (i * c.vect + t * ellHeight c d : Nat)) := by
    intro t
    induction t with
    | zero =>
        intro _
        rw [Nat.zero_mul, Nat.add_zero, Nat.cast_mul]
        rfl
    | succ t ih =>
        intro ht
        have hplace : i * c.vect + t * ellHeight c d + c.vect ≤ (ellSlotsTo c d old d.n).length := by
          have hle := Nat.mul_le_mul_right (ellHeight c d) ht
          rw [Nat.succ_mul] at hle
          omega
        have hself : int32 ((i * c.vect + t * ellHeight c d : Nat) : Int) =
            (i * c.vect + t * ellHeight c d : Nat) := by
          have hle := h.length_le
          exact int32_eq_self (by omega) (by omega)
        have hnext : int32 (int32 ((i * c.vect + t * ellHeight c d : Nat) : Int) + ellHeight c d) =
            int32 (i * c.vect + (t + 1) * ellHeight c d : Nat) := by
          rw [int32_add_left, ← Nat.cast_add, Nat.add_assoc, ← Nat.succ_mul]
        rw [List.range_succ, List.foldlM_append, ih (by omega), List.flatMap_append,
          Slots.pushAll_append, List.flatMap_singleton]
        cases out.pushAll ((List.range t).flatMap fun j => (List.range c.vect).map fun k =>
            slotAt (ellSlotsTo c d old d.n) (i * c.vect + j * ellHeight c d + k)) with
        | none => rfl
        | some out =>
            have hvector := ellVector_eq h hsize hplace out
            rw [← hself] at hvector
            rw [Option.map_some, Option.bind_eq_bind, Option.bind_some, List.foldlM_cons]
            unfold ellVector
            dsimp only
            rw [hvector, hnext]
            change _ = ((out.pushAll ((List.range c.vect).map fun k => slotAt
              (ellSlotsTo c d old d.n) (i * c.vect + t * ellHeight c d + k))).map _)
            cases out.pushAll ((List.range c.vect).map fun k =>
                slotAt (ellSlotsTo c d old d.n) (i * c.vect + t * ellHeight c d + k)) with
            | none => rfl
            | some out => rfl
  unfold ellVectors
  rw [hcolumns d.n le_rfl]
  unfold ellRound
  cases out.pushAll ((List.range d.n).flatMap fun j => (List.range c.vect).map fun k =>
      slotAt (ellSlotsTo c d old d.n) (i * c.vect + j * ellHeight c d + k)) with
  | none => rfl
  | some out => rfl

end Vectors

section Output

variable [Zero α] (c : Encoding α) (d : Dense α) (old : Nat → UInt16)

/-- Everything that is written out. -/
def ellOutput : List (UInt16 × α) :=
  (List.range (ellHeight c d / c.vect)).flatMap (ellRound c d old)

variable {c d old}

/-- The output by places. -/
theorem ellOutput_eq :
    ellOutput c d old = (List.range (ellHeight c d / c.vect * (d.n * c.vect))).map fun p =>
      slotAt (ellSlotsTo c d old d.n)
        (p / (d.n * c.vect) * c.vect + p % (d.n * c.vect) / c.vect * ellHeight c d + p % c.vect) := by
  have hvect := c.vect_pos
  unfold ellOutput
  rw [Weight.range_mul, List.map_flatMap]
  refine List.flatMap_congr ?_
  intro i _
  unfold ellRound
  rw [Weight.range_mul, List.map_map, List.map_flatMap]
  refine List.flatMap_congr ?_
  intro j hj
  have hj := List.mem_range.mp hj
  rw [List.map_map]
  refine List.map_congr_left ?_
  intro k hk
  have hk := List.mem_range.mp hk
  have hplace : j * c.vect + k < d.n * c.vect := by
    calc j * c.vect + k < j * c.vect + c.vect := by omega
      _ = (j + 1) * c.vect := by rw [Nat.succ_mul]
      _ ≤ d.n * c.vect := Nat.mul_le_mul_right _ hj
  have hquot : (i * (d.n * c.vect) + (j * c.vect + k)) / (d.n * c.vect) = i := by
    rw [Nat.mul_comm i, Nat.mul_add_div (by omega), Nat.div_eq_of_lt hplace, Nat.add_zero]
  have hrest : (i * (d.n * c.vect) + (j * c.vect + k)) % (d.n * c.vect) = j * c.vect + k := by
    rw [Nat.mul_comm i, Nat.mul_add_mod, Nat.mod_eq_of_lt hplace]
  have hcolumn : (j * c.vect + k) / c.vect = j := by
    rw [Nat.mul_comm j, Nat.mul_add_div hvect, Nat.div_eq_of_lt hk, Nat.add_zero]
  have hlane : (i * (d.n * c.vect) + (j * c.vect + k)) % c.vect = k := by
    rw [← Nat.mul_assoc, ← Nat.add_assoc, ← Nat.add_mul, Nat.mul_comm _ c.vect, Nat.mul_add_mod,
      Nat.mod_eq_of_lt hk]
  simp only [Function.comp_apply]
  rw [hquot, hrest, hcolumn, hlane]

theorem height_div_mul : ellHeight c d / c.vect * c.vect = ellHeight c d :=
  Nat.div_mul_cancel vect_dvd_ellHeight

theorem length_ellOutput : (ellOutput c d old).length = ellHeight c d * d.n := by
  rw [ellOutput_eq, List.length_map, List.length_range, Nat.mul_comm d.n, ← Nat.mul_assoc,
    height_div_mul]

/-- The slot of column `j` in lane `k` of round `i`. -/
theorem slotAt_ellOutput {i j k : Nat} (hi : i < ellHeight c d / c.vect) (hj : j < d.n)
    (hk : k < c.vect) :
    slotAt (ellOutput c d old) ((i * d.n + j) * c.vect + k) =
      slotAt (ellSlots c d old j) (i * c.vect + k) ∧
    (i * d.n + j) * c.vect + k < (ellOutput c d old).length := by
  have hvect := c.vect_pos
  have hround : (i + 1) * c.vect ≤ ellHeight c d :=
    (Nat.mul_le_mul_right _ hi).trans (Nat.div_mul_le_self _ _)
  have hplace : i * c.vect + k < ellHeight c d := by
    rw [Nat.succ_mul] at hround
    omega
  have hcolumn : j * c.vect + k < d.n * c.vect := by
    calc j * c.vect + k < j * c.vect + c.vect := by omega
      _ = (j + 1) * c.vect := by rw [Nat.succ_mul]
      _ ≤ d.n * c.vect := Nat.mul_le_mul_right _ hj
  have hindex : (i * d.n + j) * c.vect + k = i * (d.n * c.vect) + (j * c.vect + k) := by ring
  have hlt : (i * d.n + j) * c.vect + k < ellHeight c d / c.vect * (d.n * c.vect) := by
    rw [hindex]
    calc i * (d.n * c.vect) + (j * c.vect + k) < i * (d.n * c.vect) + d.n * c.vect := by omega
      _ = (i + 1) * (d.n * c.vect) := by rw [Nat.succ_mul]
      _ ≤ _ := Nat.mul_le_mul_right _ hi
  have hquot : (i * (d.n * c.vect) + (j * c.vect + k)) / (d.n * c.vect) = i := by
    rw [Nat.mul_comm i, Nat.mul_add_div (by omega), Nat.div_eq_of_lt hcolumn, Nat.add_zero]
  have hrest : (i * (d.n * c.vect) + (j * c.vect + k)) % (d.n * c.vect) = j * c.vect + k := by
    rw [Nat.mul_comm i, Nat.mul_add_mod, Nat.mod_eq_of_lt hcolumn]
  have hj' : (j * c.vect + k) / c.vect = j := by
    rw [Nat.mul_comm j, Nat.mul_add_div hvect, Nat.div_eq_of_lt hk, Nat.add_zero]
  have hlane : ((i * d.n + j) * c.vect + k) % c.vect = k := by
    rw [Nat.mul_comm _ c.vect, Nat.mul_add_mod, Nat.mod_eq_of_lt hk]
  rw [ellOutput_eq]
  refine ⟨?_, by rwa [List.length_map, List.length_range]⟩
  unfold slotAt
  rw [List.getD_eq_getElem _ _ (by rwa [List.length_map, List.length_range]), List.getElem_map,
    List.getElem_range, hlane, hindex, hquot, hrest, hj']
  have hcomm : i * c.vect + j * ellHeight c d + k = j * ellHeight c d + (i * c.vect + k) := by omega
  rw [hcomm]
  exact slotAt_ellSlotsTo hj le_rfl hplace

/-- The slots of a column, one vector after the other. -/
theorem ellSlots_eq {j : Nat} (hj : j < d.n) :
    ellSlots c d old j = (List.range (ellHeight c d / c.vect)).flatMap fun i =>
      (List.range c.vect).map fun k => slotAt (ellSlots c d old j) (i * c.vect + k) := by
  have hflat : ((List.range (ellHeight c d / c.vect)).flatMap fun i =>
      (List.range c.vect).map fun k => slotAt (ellSlots c d old j) (i * c.vect + k)) =
      (List.range (ellHeight c d)).map (slotAt (ellSlots c d old j)) := by
    rw [← height_div_mul (c := c) (d := d), Nat.mul_div_cancel _ c.vect_pos, Weight.range_mul,
      List.map_flatMap]
    refine List.flatMap_congr fun i _ => ?_
    rw [List.map_map]
    rfl
  rw [hflat]
  apply List.ext_getElem
  · rw [List.length_map, List.length_range, length_ellSlots hj]
  · intro t ht _
    rw [List.getElem_map, List.getElem_range]
    unfold slotAt
    rw [List.getD_eq_getElem _ _ ht]

end Output

/-- The rows and values that decoding adds up for a column. -/
def ellColumnSlots [Zero α] (c : Encoding α) (d : Dense α) (old : Nat → UInt16) (j : Nat) :
    List (Int × α) :=
  (ellSlots c d old j).map fun p => ((p.1.toNat : Int), p.2)

section Run

variable [AddZeroClass α] {c : Encoding α} {d : Dense α} {old : Nat → UInt16} {nnz : Nat}

theorem decodeEllColumn_eq (hnnz : nnz = ellHeight c d * d.n) {out : Slots UInt16 α}
    (h : out.Holds nnz (ellOutput c d old)) {j : Nat} (hj : j < d.n) :
    decodeEllColumn c d out nnz j =
      addAll (List.replicate d.m 0) (ellColumnSlots c d old j) := by
  have hheight : nnz / d.n = ellHeight c d := by
    rw [hnnz, Nat.mul_div_cancel _ (Nat.zero_lt_of_lt hj)]
  have hslots : ellColumnSlots c d old j = (ellPlaces c d nnz j).map fun p =>
      (((slotAt (ellOutput c d old) p).1.toNat : Int), (slotAt (ellOutput c d old) p).2) := by
    unfold ellColumnSlots ellPlaces
    rw [hheight]
    conv_lhs => rw [ellSlots_eq hj]
    rw [List.map_flatMap, List.map_flatMap]
    refine List.flatMap_congr fun i hi => ?_
    rw [List.map_map, List.map_map]
    refine List.map_congr_left fun k hk => ?_
    simp only [Function.comp_apply]
    rw [(slotAt_ellOutput (List.mem_range.mp hi) hj (List.mem_range.mp hk)).1]
  have hdecode : ∀ (places : List Nat) (col : List α),
      (∀ p ∈ places, p < (ellOutput c d old).length) →
      places.foldlM (decodeSlot out) col = addAll col (places.map fun p =>
        (((slotAt (ellOutput c d old) p).1.toNat : Int), (slotAt (ellOutput c d old) p).2)) := by
    intro places
    induction places with
    | nil => exact fun _ _ => rfl
    | cons p rest ih =>
        intro col hlt
        obtain ⟨hrow, hvalue⟩ := load_slotAt h (hlt p List.mem_cons_self)
        have hstep : decodeSlot out col p = addAt col ((slotAt (ellOutput c d old) p).1.toNat : Int)
            (slotAt (ellOutput c d old) p).2 := by
          unfold decodeSlot
          rw [hrow, hvalue]
          rfl
        have hrest := fun col => ih col fun q hq => hlt q (List.mem_cons_of_mem _ hq)
        unfold addAll at hrest ⊢
        rw [List.foldlM_cons, hstep, List.map_cons, List.foldlM_cons]
        congr 1
        funext col
        exact hrest col
  unfold decodeEllColumn
  rw [hslots]
  apply hdecode
  intro p hp
  unfold ellPlaces at hp
  rw [hheight] at hp
  obtain ⟨i, hi, hp⟩ := List.mem_flatMap.mp hp
  obtain ⟨k, hk, rfl⟩ := List.mem_map.mp hp
  exact (slotAt_ellOutput (List.mem_range.mp hi) hj (List.mem_range.mp hk)).2

/-- The whole encoder, on a matrix whose first column is not empty. -/
theorem denseToEllPadding_spec (hrange : d.InRange) (hn : d.n ≠ 0)
    (hnnz : nnz = ellHeight c d * d.n) (hsize : nnz < 2 ^ 31) (hfirst : keptRows c d 0 ≠ [])
    {values cscVal : List α} {cscRowIdx : List UInt16} (hvalues : values.length = nnz)
    (hval : cscVal.length = nnz) (hrow : cscRowIdx.length = nnz) :
    ∃ out, denseToEllPadding c d nnz values ((List.range nnz).map old) cscVal cscRowIdx =
        some out ∧ out.nnz = nnz ∧
      ∀ j < d.n, decodeEllColumn c d out nnz j =
        addAll (List.replicate d.m 0) (ellColumnSlots c d old j) := by
  have hheight : (nnz : Int).tdiv d.n = ellHeight c d := by
    rw [hnnz, ← Int.ofNat_tdiv, Nat.mul_div_cancel _ (Nat.pos_of_ne_zero hn)]
  have hrounds : ((ellHeight c d : Int).tdiv c.vect).toNat = ellHeight c d / c.vect := by
    rw [← Int.ofNat_tdiv]
    exact Int.toNat_natCast _
  obtain ⟨csc, hcsc, hholds⟩ := ellColumns_spec hrange hnnz hsize hfirst hval hrow d.n le_rfl
  have hstart : Slots.Holds { nnz := 0, rowIdx := (List.range nnz).map old, values } nnz
      ([] : List (UInt16 × α)) :=
    ⟨rfl, List.nil_prefix, List.nil_prefix, by simp, hvalues⟩
  have hpush := foldlM_pushAll (g := ellRound c d old) (l := List.range (ellHeight c d / c.vect))
    (fun i hi out => ellVectors_eq hnnz hsize hholds (List.mem_range.mp hi) out)
    { nnz := 0, rowIdx := (List.range nnz).map old, values }
  have hlength : (ellOutput c d old).length = ellHeight c d * d.n := length_ellOutput
  rcases hstart.pushAll hsize (ellOutput c d old) with ⟨-, out, hout, hfull⟩ | ⟨hlong, -⟩
  · rw [List.nil_append] at hfull
    refine ⟨out, ?_, ?_, fun j hj => decodeEllColumn_eq hnnz hfull hj⟩
    · unfold denseToEllPadding
      rw [if_neg hn, hheight]
      dsimp only
      rw [hcsc, Option.bind_eq_bind, Option.bind_some, hrounds]
      exact hpush.trans hout
    · rw [hfull.nnz, hlength, hnnz]
  · rw [List.nil_append, hlength] at hlong
    omega

end Run

end DashInfer.Sparse
