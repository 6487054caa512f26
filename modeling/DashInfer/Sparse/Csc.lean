import DashInfer.Sparse.Columns

/-!
Compressed columns. `get_nnz` and `dense_to_csc_padding` pad each column on
their own, and the caller sizes the buffers by the first for the second. The
result decodes to the matrix with everything below the threshold set to zero,
as long as the number of padded entries and of places is one an `int` can count.
-/

namespace DashInfer.Sparse

open Lib
open Service (int32 int32_eq_self)
open WeightFile (padding)

variable {α : Type}

structure Csc (α : Type) where
  slots : Slots Int α
  colOffset : List Int
deriving DecidableEq, Repr

section Code

variable [Zero α] (c : Encoding α) (d : Dense α)

/-- The padding of a column where entries are only counted. -/
def padCount (lastNnz nnz : Int) : Int :=
  if (int32 (nnz - lastNnz)).tmod c.vect ≠ 0 then
    let padding := int32 (c.vect - (int32 (nnz - lastNnz)).tmod c.vect)
    (List.range padding.toNat).foldl (fun nnz _ => int32 (nnz + 1)) nnz
  else nnz

def getNnz : Option Int :=
  (List.range d.n).foldlM (fun lastNnz j =>
    (countColumn c d j lastNnz).map (padCount c lastNnz)) 0

/-- The padding of a column: zeros in the row of its last entry. -/
def padCscColumn (lastNnz : Int) (slots : Slots Int α) : Option (Slots Int α) :=
  if (int32 (slots.nnz - lastNnz)).tmod c.vect ≠ 0 then do
    let padding := int32 (c.vect - (int32 (slots.nnz - lastNnz)).tmod c.vect)
    let lastIdx ← load slots.rowIdx (int32 (slots.nnz - 1))
    (List.range padding.toNat).foldlM (fun slots _ => slots.push lastIdx 0) slots
  else some slots

def cscColumn (out : Csc α) (j : Nat) : Option (Csc α) := do
  let slots ← scanColumn c d (fun i : Nat => (i : Int)) j out.slots
  let slots ← padCscColumn c out.slots.nnz slots
  let colOffset ← store out.colOffset (int32 (j + 1)) slots.nnz
  some { slots, colOffset }

def denseToCscPadding (values : List α) (rowIdx colOffset : List Int) : Option (Csc α) := do
  let colOffset ← store colOffset 0 0
  (List.range d.n).foldlM (cscColumn c d) { slots := { nnz := 0, rowIdx, values }, colOffset }

/-- Column `j` of what was compressed, in a matrix of `m` rows. -/
def Csc.decodeColumn [Add α] (out : Csc α) (m j : Nat) : Option (List α) := do
  let start ← load out.colOffset j
  let stop ← load out.colOffset (j + 1 : Nat)
  (List.range (stop - start).toNat).foldlM (fun col (k : Nat) => do
    let i ← load out.slots.rowIdx (start + k)
    let x ← load out.slots.values (start + k)
    addAt col i x) (List.replicate m 0)

end Code

section Spec

variable [Zero α] (c : Encoding α) (d : Dense α)

/-- What a column becomes. -/
def cscSlots (j : Nat) : List (Int × α) :=
  column c d (fun i : Nat => (i : Int)) j ++
    List.replicate (padding c.vect (keptRows c d j).length)
      ((((keptRows c d j).getLastD 0 : Nat) : Int), 0)

/-- What the first columns become. -/
def cscSlotsTo (k : Nat) : List (Int × α) := (List.range k).flatMap (cscSlots c d)

/-- The number of padded entries of the whole matrix. -/
def cscLength : Nat := (cscSlotsTo c d d.n).length

end Spec

/-- The buffers are sized by `get_nnz` and hold anything. The encoder stays in
them, takes each place once, starts every column at a multiple of the vector
width, and the columns decode to those of the matrix. -/
def CscRoundTrips [AddZeroClass α] (c : Encoding α) (d : Dense α) : Prop :=
  ∃ nnz : Nat, getNnz c d = some (nnz : Int) ∧
    ∀ (values : List α) (rowIdx colOffset : List Int), values.length = nnz →
      rowIdx.length = nnz → colOffset.length = d.n + 1 →
      ∃ out, denseToCscPadding c d values rowIdx colOffset = some out ∧ out.slots.nnz = nnz ∧
        (∀ j ≤ d.n, ∃ offset : Nat, load out.colOffset j = some (offset : Int) ∧
          offset ≤ nnz ∧ c.vect ∣ offset) ∧
        ∀ j < d.n, out.decodeColumn d.m j =
          some ((List.range d.m).map fun i => c.kept (d.entry i j))

section Counting

variable [Zero α] {c : Encoding α} {d : Dense α}

theorem cscSlotsTo_succ (k : Nat) : cscSlotsTo c d (k + 1) = cscSlotsTo c d k ++ cscSlots c d k := by
  unfold cscSlotsTo
  rw [List.range_succ, List.flatMap_append, List.flatMap_singleton]

theorem length_cscSlots (j : Nat) :
    (cscSlots c d j).length =
      (keptRows c d j).length + padding c.vect (keptRows c d j).length := by
  simp [cscSlots, column]

theorem vect_dvd_cscSlotsTo (k : Nat) : c.vect ∣ (cscSlotsTo c d k).length := by
  induction k with
  | zero => exact Nat.dvd_zero _
  | succ k ih =>
      rw [cscSlotsTo_succ, List.length_append, length_cscSlots]
      exact Nat.dvd_add ih (WeightFile.dvd_add_padding c.vect_pos _)

/-- The padding that is computed for a column of `count` kept entries. -/
theorem padding_eq {a b : Int} {count : Nat} (hab : int32 (b - a) = count) :
    ((int32 (b - a)).tmod c.vect ≠ 0 ↔ count % c.vect ≠ 0) ∧
      (count % c.vect ≠ 0 →
        (int32 (c.vect - (int32 (b - a)).tmod c.vect)).toNat = padding c.vect count) := by
  have hmod : (int32 (b - a)).tmod c.vect = (count % c.vect : Nat) := by
    rw [hab]
    exact (Int.ofNat_tmod count c.vect).symm
  have hlt := Nat.mod_lt count c.vect_pos
  have hvect := c.vect_lt
  rw [hmod]
  refine ⟨by norm_cast, fun hne => ?_⟩
  have hself : int32 ((c.vect : Int) - (count % c.vect : Nat)) = c.vect - (count % c.vect : Nat) :=
    int32_eq_self (by omega) (by omega)
  rw [hself, padding, if_pos hne]
  omega

theorem foldl_increment (a k : Nat) :
    (List.range k).foldl (fun nnz _ => int32 (nnz + 1)) (int32 a) = int32 (a + k : Nat) := by
  induction k with
  | zero => rw [List.range_zero, List.foldl_nil, Nat.add_zero]
  | succ k ih =>
      rw [List.range_succ, List.foldl_append, ih, ← Nat.add_assoc, Nat.cast_succ (a + k),
        ← int32_add_left, List.foldl_cons, List.foldl_nil]

theorem int32_sub (a b : Int) : int32 (int32 a - int32 b) = int32 (a - b) := by
  unfold int32
  simp

theorem int32_count (j : Nat) : int32 ((keptRows c d j).length : Int) = (keptRows c d j).length := by
  have hle := keptRows_length_le (c := c) (d := d) j
  have hm := d.m_lt
  exact int32_eq_self (by omega) (by omega)

theorem padCount_eq (a j : Nat) :
    padCount c (int32 a) (int32 (a + (keptRows c d j).length : Nat)) =
      int32 (a + (cscSlots c d j).length : Nat) := by
  have hdiff : int32 (int32 (a + (keptRows c d j).length : Nat) - int32 a) =
      (keptRows c d j).length := by
    rw [int32_sub, Nat.cast_add, add_sub_cancel_left]
    exact int32_count j
  obtain ⟨hiff, hpad⟩ := padding_eq (c := c) hdiff
  unfold padCount
  rw [length_cscSlots]
  by_cases hrest : (keptRows c d j).length % c.vect = 0
  · rw [if_neg (fun hne => (hiff.mp hne) hrest), padding, if_neg (not_not.mpr hrest),
      Nat.add_zero]
  · rw [if_pos (hiff.mpr hrest)]
    dsimp only
    rw [hpad hrest, foldl_increment, Nat.add_assoc]

/-- The counting pass counts the padded entries of the matrix, in an `int`. -/
theorem getNnz_eq (h : d.InRange) : getNnz c d = some (int32 (cscLength c d : Nat)) := by
  have hrun : ∀ k ≤ d.n, (List.range k).foldlM (fun lastNnz j =>
      (countColumn c d j lastNnz).map (padCount c lastNnz)) (int32 (0 : Nat)) =
        some (int32 ((cscSlotsTo c d k).length : Nat)) := by
    intro k
    induction k with
    | zero => exact fun _ => rfl
    | succ k ih =>
        intro hk
        rw [List.range_succ, List.foldlM_append, ih (by omega), cscSlotsTo_succ,
          List.length_append, ← padCount_eq]
        rw [Option.bind_eq_bind, Option.bind_some, List.foldlM_cons, countColumn_eq h hk,
          Option.map_some, Option.bind_eq_bind, Option.bind_some, List.foldlM_nil]
        rfl
  have hzero : int32 ((0 : Nat) : Int) = 0 := int32_eq_self (by omega) (by omega)
  have hall := hrun d.n le_rfl
  rw [hzero] at hall
  exact hall

theorem getNnz_none (h : ¬ d.InRange) : getNnz c d = none := by
  obtain ⟨j, hj, hnone⟩ := exists_countColumn_none (c := c) h
  have hcolumns : ∀ (columns : List Nat) (count : Int), j ∈ columns →
      columns.foldlM (fun lastNnz j =>
        (countColumn c d j lastNnz).map (padCount c lastNnz)) count = none := by
    intro columns
    induction columns with
    | nil => exact fun _ hmem => absurd hmem List.not_mem_nil
    | cons k rest ih =>
        intro count hmem
        rw [List.foldlM_cons]
        rcases List.mem_cons.mp hmem with rfl | hmem
        · rw [hnone]
          rfl
        · exact Option.bind_eq_none_iff.mpr fun next _ => ih next hmem
  exact hcolumns _ 0 (List.mem_range.mpr hj)

end Counting

section Encoding

variable [Zero α] {c : Encoding α} {d : Dense α} {size : Nat}

/-- What the buffers hold after some columns. -/
structure CscRun (c : Encoding α) (d : Dense α) (size : Nat) (out : Csc α) (k : Nat) : Prop where
  slots : out.slots.Holds size (cscSlotsTo c d k)
  colOffset : ((List.range (k + 1)).map fun t => ((cscSlotsTo c d t).length : Int)) <+:
    out.colOffset
  colOffset_length : out.colOffset.length = d.n + 1

theorem load_last {s : Slots Int α} {l : List (Int × α)} {k j : Nat}
    (h : s.Holds size (l ++ column c d (fun i : Nat => (i : Int)) j)) (hsize : size < 2 ^ 31)
    (hk : (keptRows c d j).length = k + 1) :
    load s.rowIdx (int32 (s.nnz - 1)) = some (((keptRows c d j).getLastD 0 : Nat) : Int) := by
  have hle := h.length_le
  have hlen : (l ++ column c d (fun i : Nat => (i : Int)) j).length = l.length + k + 1 := by
    rw [List.length_append, column, List.length_map, hk]
    rfl
  have hindex : int32 (s.nnz - 1) = (l.length + k : Nat) := by
    rw [h.nnz, hlen]
    rw [hlen] at hle
    have hself : int32 (((l.length + k + 1 : Nat) : Int) - 1) = ((l.length + k + 1 : Nat) : Int) - 1 :=
      int32_eq_self (by omega) (by omega)
    rw [hself]
    omega
  have hbound : l.length + k <
      ((l ++ column c d (fun i : Nat => (i : Int)) j).map Prod.fst).length := by
    rw [List.length_map, hlen]
    omega
  have hlast : (keptRows c d j).getLastD 0 = (keptRows c d j)[k] := by
    have hindex : (keptRows c d j).length - 1 = k := by omega
    rw [List.getLastD_eq_getLast?, List.getLast?_eq_getElem?, hindex,
      List.getElem?_eq_getElem (by omega), Option.getD_some]
  rw [hindex, load_eq_getElem h.rowIdx hbound, hlast]
  simp [column]

theorem padCscColumn_fills {s : Slots Int α} {l : List (Int × α)} {j : Nat}
    (h : s.Holds size (l ++ column c d (fun i : Nat => (i : Int)) j)) (hsize : size < 2 ^ 31) :
    Fills (padCscColumn c l.length s) size (l ++ cscSlots c d j) := by
  have hdiff : int32 (s.nnz - l.length) = (keptRows c d j).length := by
    rw [h.nnz, List.length_append, column, List.length_map, Nat.cast_add, add_sub_cancel_left]
    exact int32_count j
  obtain ⟨hiff, hpad⟩ := padding_eq (c := c) hdiff
  unfold padCscColumn cscSlots
  rw [← List.append_assoc]
  by_cases hrest : (keptRows c d j).length % c.vect = 0
  · rw [if_neg (fun hne => (hiff.mp hne) hrest), padding, if_neg (not_not.mpr hrest),
      List.replicate_zero, List.append_nil]
    exact Or.inl ⟨h.length_le, s, rfl, h⟩
  · have hpos : (keptRows c d j).length ≠ 0 := fun hzero => hrest (by rw [hzero, Nat.zero_mod])
    obtain ⟨k, hk⟩ := Nat.exists_eq_succ_of_ne_zero hpos
    rw [if_pos (hiff.mpr hrest), load_last h hsize hk]
    simp only [Option.bind_eq_bind, Option.bind_some, pushAll_replicate, hpad hrest]
    exact h.pushAll hsize _

/-- One column: its slots fit the buffers, or the encoder leaves them. -/
theorem cscColumn_spec {out : Csc α} {k : Nat} (h : CscRun c d size out k) (hrange : d.InRange)
    (hsize : size < 2 ^ 31) (hk : k < d.n) :
    ((cscSlotsTo c d (k + 1)).length ≤ size ∧
        ∃ out', cscColumn c d out k = some out' ∧ CscRun c d size out' (k + 1)) ∨
      (size < (cscSlotsTo c d (k + 1)).length ∧ cscColumn c d out k = none) := by
  have hn := d.n_lt
  have hlast : out.slots.nnz = (cscSlotsTo c d k).length := h.slots.nnz
  have hsucc := cscSlotsTo_succ (c := c) (d := d) k
  unfold cscColumn
  rw [scanColumn_eq hrange hk, hlast]
  rcases h.slots.pushAll hsize (column c d (fun i : Nat => (i : Int)) k) with
    ⟨-, s, hs, hscan⟩ | ⟨hlong, hs⟩
  · rw [hs]
    rcases padCscColumn_fills hscan hsize with ⟨hle, s', hs', hpad⟩ | ⟨hlong, hs'⟩
    · rw [← hsucc] at hle hpad
      have hoffsets : ((List.range (k + 1)).map
          fun t => ((cscSlotsTo c d t).length : Int)).length = k + 1 := by simp
      obtain ⟨colOffset, hstore, hlen, hpre⟩ := store_next h.colOffset
        (by rw [hoffsets, h.colOffset_length]; omega) s'.nnz
      have hindex : int32 ((k : Int) + 1) = (k + 1 : Nat) := by
        rw [Nat.cast_add, Nat.cast_one]
        exact int32_eq_self (by omega) (by omega)
      rw [hoffsets] at hstore
      refine Or.inl ⟨hle, { slots := s', colOffset }, ?_, hpad, ?_, hlen.trans h.colOffset_length⟩
      · rw [Option.bind_eq_bind, Option.bind_some, hs', Option.bind_eq_bind, Option.bind_some,
          hindex, hstore]
        rfl
      · rw [List.range_succ, List.map_append, List.map_singleton, ← hpad.nnz]
        exact hpre
    · rw [← hsucc] at hlong
      refine Or.inr ⟨hlong, ?_⟩
      rw [Option.bind_eq_bind, Option.bind_some, hs']
      rfl
  · refine Or.inr ⟨?_, ?_⟩
    · rw [hsucc, cscSlots, ← List.append_assoc, List.length_append]
      omega
    · rw [hs]
      rfl

/-- The whole encoder. -/
theorem denseToCscPadding_spec (hrange : d.InRange) (hsize : size < 2 ^ 31) {values : List α}
    {rowIdx colOffset : List Int} (hvalues : values.length = size) (hrow : rowIdx.length = size)
    (hcol : colOffset.length = d.n + 1) :
    (cscLength c d ≤ size ∧ ∃ out, denseToCscPadding c d values rowIdx colOffset = some out ∧
        CscRun c d size out d.n) ∨
      (size < cscLength c d ∧ denseToCscPadding c d values rowIdx colOffset = none) := by
  obtain ⟨colOffset', hstore, hlen, hpre⟩ := store_next (l := []) (List.nil_prefix)
    (by rw [hcol]; exact Nat.succ_pos _ : ([] : List Int).length < colOffset.length) 0
  have hstart : CscRun c d size { slots := { nnz := 0, rowIdx, values }, colOffset := colOffset' } 0 :=
    ⟨⟨rfl, List.nil_prefix, List.nil_prefix, hrow, hvalues⟩, hpre, hlen.trans hcol⟩
  have hrun : ∀ k ≤ d.n,
      ((cscSlotsTo c d k).length ≤ size ∧ ∃ out, (List.range k).foldlM (cscColumn c d)
          { slots := { nnz := 0, rowIdx, values }, colOffset := colOffset' } = some out ∧
          CscRun c d size out k) ∨
        (size < (cscSlotsTo c d k).length ∧ (List.range k).foldlM (cscColumn c d)
          { slots := { nnz := 0, rowIdx, values }, colOffset := colOffset' } = none) := by
    intro k
    induction k with
    | zero => exact fun _ => Or.inl ⟨Nat.zero_le _, _, rfl, hstart⟩
    | succ k ih =>
        intro hk
        rw [List.range_succ, List.foldlM_append]
        rcases ih (by omega) with ⟨-, out, hout, hat⟩ | ⟨hlong, hnone⟩
        · rw [hout]
          rcases cscColumn_spec hat hrange hsize hk with ⟨hle, out', hcolumn, hat'⟩ | ⟨hlong, hnone⟩
          · refine Or.inl ⟨hle, out', ?_, hat'⟩
            simp only [List.foldlM_cons, List.foldlM_nil, bind_pure, Option.bind_eq_bind,
              Option.bind_some, hcolumn]
          · refine Or.inr ⟨hlong, ?_⟩
            simp only [List.foldlM_cons, List.foldlM_nil, bind_pure, Option.bind_eq_bind,
              Option.bind_some, hnone]
        · refine Or.inr ⟨?_, by rw [hnone]; rfl⟩
          rw [cscSlotsTo_succ, List.length_append]
          omega
  unfold denseToCscPadding
  have hzero : store colOffset 0 0 = some colOffset' := hstore
  rw [hzero]
  exact hrun d.n le_rfl

end Encoding

section Decoding

variable {size : Nat}

theorem load_slots {s : Slots Int α} {before l after : List (Int × α)}
    (h : s.Holds size (before ++ l ++ after)) {k : Nat} (hk : k < l.length) :
    load s.rowIdx (before.length + k) = some l[k].1 ∧
      load s.values (before.length + k) = some l[k].2 := by
  have hlt : before.length + k < (before ++ l ++ after).length := by
    simp only [List.length_append]
    omega
  have hindex : ((before.length : Int) + k) = ((before.length + k : Nat) : Int) := by omega
  have hslot : (before ++ l ++ after)[before.length + k] = l[k] := by
    simp [hk]
  rw [hindex]
  constructor
  · rw [load_eq_getElem h.rowIdx (by rwa [List.length_map]), List.getElem_map, hslot]
  · rw [load_eq_getElem h.values (by rwa [List.length_map]), List.getElem_map, hslot]

variable [AddZeroClass α] {c : Encoding α} {d : Dense α}

/-- The decoding loop over the slots of one column. -/
theorem decodeLoop_eq {s : Slots Int α} {before l after : List (Int × α)}
    (h : s.Holds size (before ++ l ++ after)) (col : List α) {k : Nat} (hk : k ≤ l.length) :
    (List.range k).foldlM (fun col (k : Nat) => do
      let i ← load s.rowIdx (before.length + k)
      let x ← load s.values (before.length + k)
      addAt col i x) col = addAll col (l.take k) := by
  induction k with
  | zero => rfl
  | succ k ih =>
      obtain ⟨hrow, hvalue⟩ := load_slots h hk
      have htake : l.take (k + 1) = l.take k ++ [l[k]] := (List.take_concat_get' l k hk).symm
      rw [List.range_succ, List.foldlM_append, ih (by omega), htake, addAll_append]
      congr 1
      funext col
      rw [List.foldlM_cons, hrow, hvalue]
      rfl

theorem cscSlotsTo_split {j : Nat} (hj : j < d.n) :
    ∃ after, cscSlotsTo c d d.n = cscSlotsTo c d j ++ cscSlots c d j ++ after := by
  refine ⟨(List.range' (j + 1) (d.n - (j + 1))).flatMap (cscSlots c d), ?_⟩
  have hrange : List.range d.n = List.range (j + 1) ++ List.range' (j + 1) (d.n - (j + 1)) := by
    have happend := List.range'_append_1 (s := 0) (m := j + 1) (n := d.n - (j + 1))
    rw [Nat.zero_add, Nat.add_sub_cancel' hj] at happend
    rw [List.range_eq_range', List.range_eq_range', happend]
  rw [← cscSlotsTo_succ]
  unfold cscSlotsTo
  rw [hrange, List.flatMap_append]

theorem load_colOffset {out : Csc α} (h : CscRun c d size out d.n) {j : Nat} (hj : j ≤ d.n) :
    load out.colOffset j = some ((cscSlotsTo c d j).length : Int) := by
  have hlt : j < ((List.range (d.n + 1)).map fun t => ((cscSlotsTo c d t).length : Int)).length := by
    rw [List.length_map, List.length_range]
    omega
  rw [load_eq_getElem h.colOffset hlt]
  simp

theorem decodeColumn_eq {out : Csc α} (h : CscRun c d size out d.n) {j : Nat} (hj : j < d.n) :
    out.decodeColumn d.m j = some ((List.range d.m).map fun i => c.kept (d.entry i j)) := by
  obtain ⟨after, hsplit⟩ := cscSlotsTo_split (c := c) hj
  have hslots := h.slots
  rw [hsplit] at hslots
  have hcount : (((cscSlotsTo c d (j + 1)).length : Int) - (cscSlotsTo c d j).length).toNat =
      (cscSlots c d j).length := by
    rw [cscSlotsTo_succ, List.length_append]
    omega
  have hloop := decodeLoop_eq hslots (List.replicate d.m 0) le_rfl
  have hrow : padding c.vect (keptRows c d j).length = 0 ∨ (keptRows c d j).getLastD 0 < d.m := by
    cases hkept : (keptRows c d j).getLast? with
    | none =>
        refine Or.inl ?_
        rw [List.getLast?_eq_none_iff.mp hkept]
        simp [padding]
    | some i =>
        refine Or.inr ?_
        rw [List.getLastD_eq_getLast?, hkept]
        exact (mem_keptRows.mp (List.mem_of_getLast? hkept)).1
  unfold Csc.decodeColumn
  rw [load_colOffset h hj.le, load_colOffset h hj]
  simp only [Option.bind_eq_bind, Option.bind_some, hcount] at hloop ⊢
  rw [hloop, List.take_length]
  exact addAll_column j hrow

end Decoding

/-- A count that does not fit an `int` comes out smaller, and the encoder then
runs out of the buffers that are sized by it. -/
theorem CscRoundTrips.countable [AddZeroClass α] {c : Encoding α} {d : Dense α}
    (h : CscRoundTrips c d) : d.InRange ∧ cscLength c d < 2 ^ 31 := by
  obtain ⟨nnz, hcount, hruns⟩ := h
  have hrange : d.InRange := by
    by_contra hout
    rw [getNnz_none hout] at hcount
    cases hcount
  rw [getNnz_eq hrange] at hcount
  have hnnz := Option.some.inj hcount
  have hsize : nnz < 2 ^ 31 := by
    have hlt := Service.int32_lt (cscLength c d)
    omega
  obtain ⟨out, hout, -⟩ := hruns (List.replicate nnz 0) (List.replicate nnz 0)
    (List.replicate (d.n + 1) 0) List.length_replicate List.length_replicate
    List.length_replicate
  have hvalues : (List.replicate nnz (0 : α)).length = nnz := List.length_replicate
  have hrow : (List.replicate nnz (0 : Int)).length = nnz := List.length_replicate
  have hcol : (List.replicate (d.n + 1) (0 : Int)).length = d.n + 1 := List.length_replicate
  rcases denseToCscPadding_spec (c := c) hrange hsize hvalues hrow hcol with
    ⟨hle, -⟩ | ⟨-, hnone⟩
  · exact ⟨hrange, by omega⟩
  · rw [hnone] at hout
    cases hout

/-- The round trip holds for the matrices whose places and padded entries an
`int` can count, and for no others. -/
theorem csc_roundTrips_iff [AddZeroClass α] (c : Encoding α) (d : Dense α) :
    CscRoundTrips c d ↔ d.InRange ∧ cscLength c d < 2 ^ 31 := by
  constructor
  · exact CscRoundTrips.countable
  · rintro ⟨hrange, hlength⟩
    have hnnz : int32 (cscLength c d) = cscLength c d := int32_eq_self (by omega) (by omega)
    refine ⟨cscLength c d, by rw [getNnz_eq hrange, hnnz], ?_⟩
    intro values rowIdx colOffset hvalues hrow hcol
    rcases denseToCscPadding_spec (c := c) hrange hlength hvalues hrow hcol with
      ⟨-, out, hout, hrun⟩ | ⟨hlong, -⟩
    · refine ⟨out, hout, hrun.slots.nnz, ?_, fun j hj => decodeColumn_eq hrun hj⟩
      intro j hj
      refine ⟨_, load_colOffset hrun hj, ?_, vect_dvd_cscSlotsTo j⟩
      rcases Nat.lt_or_ge j d.n with hlt | hge
      · obtain ⟨after, hsplit⟩ := cscSlotsTo_split (c := c) hlt
        rw [cscLength, hsplit, List.length_append, List.length_append]
        omega
      · rw [Nat.le_antisymm hj hge]
        exact le_rfl
    · exact absurd hlong (lt_irrefl _)

theorem length_onesRow (n : Nat) : (List.replicate n (1 : Int)).length = 1 * n := by
  rw [List.length_replicate, Nat.one_mul]

theorem one_lt_intRange : 1 < 2 ^ 31 := by decide

/-- A row of `n` ones. -/
def onesRow (n : Nat) (h : n < 2 ^ 31) : Dense Int where
  m := 1
  n := n
  cells := List.replicate n 1
  length_eq := length_onesRow n
  m_lt := one_lt_intRange
  n_lt := h

theorem not_above_zero (threshold : Nat) : decide ((threshold : Int) < |(0 : Int)|) = false := by
  simp

theorem eight_pos : 0 < 8 := by decide

theorem eight_lt_intRange : 8 < 2 ^ 31 := by decide

/-- Whole numbers above a threshold, in vectors of eight. -/
def aboveThreshold (threshold : Nat) : Encoding Int where
  significant x := decide ((threshold : Int) < |x|)
  vect := 8
  significant_zero := not_above_zero threshold
  vect_pos := eight_pos
  vect_lt := eight_lt_intRange

theorem keptRows_onesRow {n : Nat} (h : n < 2 ^ 31) {j : Nat} (hj : j < n) :
    keptRows (aboveThreshold 0) (onesRow n h) j = [0] := by
  have hentry : (onesRow n h).entry 0 j = 1 := by
    change (List.replicate n (1 : Int)).getD (0 * n + j) 0 = 1
    rw [Nat.zero_mul, Nat.zero_add,
      List.getD_eq_getElem _ _ (by rwa [List.length_replicate]), List.getElem_replicate]
  change (List.range 1).filter _ = _
  rw [List.range_one, List.filter_cons_of_pos (by rw [hentry]; decide), List.filter_nil]

theorem length_cscSlotsTo_onesRow {n : Nat} (h : n < 2 ^ 31) {k : Nat} (hk : k ≤ n) :
    (cscSlotsTo (aboveThreshold 0) (onesRow n h) k).length = 8 * k := by
  induction k with
  | zero => rfl
  | succ k ih =>
      rw [cscSlotsTo_succ, List.length_append, ih (by omega), length_cscSlots,
        keptRows_onesRow h (by omega)]
      rfl

/-- A row of `2 ^ 28` ones has `2 ^ 31` padded entries: one too many. -/
theorem csc_not_roundTrips :
    ¬ CscRoundTrips (aboveThreshold 0) (onesRow (2 ^ 28) (by decide)) := by
  intro h
  have hlength : cscLength (aboveThreshold 0) (onesRow (2 ^ 28) (by decide)) = 8 * 2 ^ 28 :=
    length_cscSlotsTo_onesRow _ le_rfl
  have hlt := h.countable.2
  rw [hlength] at hlt
  omega

end DashInfer.Sparse
