import DashInfer.Weight.NegativeGroup

/-!
The batched modes on stacked expert weights. The copies of a shard are the
runs of its strips in another order, as long as the `int` indices of the last
expert do not overflow and the copied width is the one that was asked for.
-/

namespace DashInfer.Weight

open DashInfer.Lib

/-- Stacked expert matrices, or one row of scales or zeros for each expert. -/
inductive Stack
  | experts (batch height width : Nat)
  | scales (batch width : Nat)
deriving DecidableEq, Repr

namespace Stack

def batch : Stack → Nat
  | .experts b _ _ => b
  | .scales b _ => b

def height : Stack → Nat
  | .experts _ h _ => h
  | .scales _ _ => 1

def width : Stack → Nat
  | .experts _ _ w => w
  | .scales _ w => w

def rows (s : Stack) : Nat := s.batch * s.height

def shapeOf : Stack → Nat → List Int
  | .experts b h _, w => [(b : Int), (h : Int), (w : Int)]
  | .scales b _, w => [(b : Int), (w : Int)]

def shape (s : Stack) : List Int := s.shapeOf s.width

structure Sized (s : Stack) (size : Nat) : Prop where
  batch_lt : s.batch < 2 ^ 31
  height_lt : s.height < 2 ^ 31
  width_lt : s.width < 2 ^ 31
  bytes_lt : s.rows * (s.width * size) < 2 ^ 63

/-- The `int` products of the last expert stay in range. -/
def IndexFits (s : Stack) (cnt : Nat) : Prop :=
  s.batch = 0 ∨ ((s.batch - 1) * s.height < 2 ^ 31 ∧
    (s.batch - 1) * s.height * s.width + (cnt - 1) * (s.width / cnt) < 2 ^ 31)

instance (s : Stack) (cnt : Nat) : Decidable (s.IndexFits cnt) :=
  inferInstanceAs (Decidable (_ ∨ _))

theorem count_shapeOf (s : Stack) (w : Nat) : count (s.shapeOf w) = (s.rows * w : Nat) := by
  cases s with
  | experts b h v => simp [count, shapeOf, rows, batch, height, Int.mul_assoc]
  | scales b v => simp [count, shapeOf, rows, batch, height]

theorem length_allocate (s : Stack) (w : Nat) (dtype : DataType) (garbage : Nat → UInt8) :
    (AsTensor.allocate (s.shapeOf w) dtype garbage).data.length =
      s.rows * (w * sizeofType dtype) := by
  have hcast : ((s.rows * w : Nat) : Int) * (sizeofType dtype : Int) =
      ((s.rows * (w * sizeofType dtype) : Nat) : Int) := by
    push_cast
    ring
  rw [AsTensor.allocate, List.length_map, List.length_range, count_shapeOf, hcast,
    Int.toNat_natCast]

end Stack

theorem stride_shapeOf {s : Stack} {t : AsTensor} {w : Nat} (hshape : t.shape = s.shapeOf w)
    (hw : w < 2 ^ 31) : t.getStrideInByte = w * sizeofType t.dtype := by
  have hlast : t.shape.getLastD 0 = (w : Int) := by
    rw [hshape]
    cases s <;> rfl
  rw [AsTensor.getStrideInByte, hlast, sizeT_mul (mul_sizeofType_lt _ hw)]

theorem range_mul (b h : Nat) :
    List.range (b * h) = (List.range b).flatMap fun x => (List.range h).map fun i => x * h + i := by
  induction b with
  | zero => simp
  | succ b ih =>
      rw [Nat.succ_mul, List.range_add, ih, List.range_succ, List.flatMap_append,
        List.flatMap_singleton]

/-- Two nested loops in the other order. -/
theorem flatMap_swap_perm {α β γ : Type} (l : List α) (m : List β) (f : α → β → List γ) :
    (l.flatMap fun a => m.flatMap fun b => f a b).Perm
      (m.flatMap fun b => l.flatMap fun a => f a b) := by
  induction m with
  | nil => simp
  | cons b rest ih =>
      simp only [List.flatMap_cons]
      exact (List.flatMap_append_perm l (fun a => f a b) _).symm.trans (ih.append_left _)

section Columns

variable {s : Stack} {cnt ranks r k size : Nat}

/-- The runs of one expert and one of the matrices side by side, `len` bytes
of each row. -/
def subRows (s : Stack) (cnt ranks r k size len : Nat) (idx : Nat × Nat) : List Region :=
  (List.range s.height).map fun i =>
    ⟨(idx.1 * s.height + i) * (cnt * (k * size)) + idx.2 * (k * size),
      (idx.1 * s.height + i) * (cnt * (ranks * (k * size))) +
        (idx.2 * (ranks * (k * size)) + r * (k * size)), len⟩

theorem stripRegions_replicate (p : Pitches) (d o m : Nat) (t : Strip) :
    stripRegions p ranks r d o (List.replicate m t) =
      (List.range m).flatMap fun j =>
        (List.range p.height).map fun i =>
          ⟨i * p.shard + (d + j * t.width),
            i * p.whole + (o + j * t.whole ranks + t.start r), t.width⟩ := by
  induction m generalizing d o with
  | zero => rfl
  | succ m ih =>
      rw [List.replicate_succ, stripRegions, ih, List.range_succ_eq_map, List.flatMap_cons,
        List.flatMap_map, Strip.regions]
      simp only [Nat.zero_mul, Nat.add_zero]
      congr 1
      refine flatMap_congr fun j _ => List.map_congr_left fun i _ => ?_
      simp only [Nat.succ_mul, Region.mk.injEq, and_true]
      omega

/-- The runs of all experts are those of the strips, in another order. -/
theorem subRows_perm :
    ((BatchColumns.indices s.batch cnt).flatMap (subRows s cnt ranks r k size (k * size))).Perm
      (stripRegions ⟨s.rows, cnt * (k * size), cnt * (ranks * (k * size))⟩ ranks r 0 0
        (List.replicate cnt ⟨k * size, false⟩)) := by
  have hnest : (BatchColumns.indices s.batch cnt).flatMap
      (subRows s cnt ranks r k size (k * size)) =
      (List.range s.batch).flatMap fun x => (List.range cnt).flatMap fun j =>
        subRows s cnt ranks r k size (k * size) (x, j) := by
    rw [BatchColumns.indices, List.flatMap_assoc]
    refine flatMap_congr fun x _ => ?_
    rw [List.flatMap_map]
  rw [hnest, stripRegions_replicate]
  refine (flatMap_swap_perm _ _ _).trans (List.Perm.of_eq ?_)
  refine flatMap_congr fun j _ => ?_
  rw [Stack.rows, range_mul, List.map_flatMap]
  refine flatMap_congr fun x _ => ?_
  rw [subRows, List.map_map]
  refine List.map_congr_left fun i _ => ?_
  simp [Strip.whole, Strip.start]

/-- A fold whose steps move the runs of their index moves the runs of all. -/
theorem foldlM_regions {ι : Type} {step : AsTensor → ι → Except Fault AsTensor}
    {regions : ι → List Region} {shape : List Int} {whole dst : AsTensor} {l : List ι}
    {data : List UInt8}
    (hstep : ∀ idx ∈ l, ∀ dst, dst.shape = shape → dst.dtype = whole.dtype →
      step dst idx =
        (memcpyRows dst.data whole.data (regions idx)).map fun data => { dst with data := data })
    (hshape : dst.shape = shape) (hdtype : dst.dtype = whole.dtype)
    (h : copyRegions whole.data dst.data (l.flatMap regions) = some data) :
    l.foldlM step dst = .ok { dst with data := data } := by
  induction l generalizing dst with
  | nil =>
      obtain rfl := Option.some.inj h
      rfl
  | cons idx rest ih =>
      rw [List.flatMap_cons, copyRegions_append, Option.bind_eq_some_iff] at h
      obtain ⟨mid, hmid, hrest⟩ := h
      rw [List.foldlM_cons, hstep idx (List.mem_cons_self ..) dst hshape hdtype, memcpyRows, hmid]
      exact ih (fun j hj => hstep j (List.mem_cons_of_mem _ hj)) hshape hdtype hrest

end Columns

end DashInfer.Weight
