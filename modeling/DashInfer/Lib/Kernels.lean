import Mathlib

/-!
Kernels over a flat memory. A kernel stores one block of a matrix, every entry
of it computed from blocks that the kernel reads; the kernels of a launch run
one after another. Where no kernel of a launch reads what one of them stores,
each block holds what its kernel computes from the memory before the launch.
-/

namespace DashInfer.Lib

open scoped BigOperators

/-- The bytes of a tensor. -/
structure Extent where
  base : Nat
  bytes : Nat
deriving DecidableEq, Repr

/-- Two tensors share no byte. -/
def Extent.Apart (e f : Extent) : Prop := e.base + e.bytes ≤ f.base ∨ f.base + f.bytes ≤ e.base

instance (e f : Extent) : Decidable (e.Apart f) := inferInstanceAs (Decidable (_ ∨ _))

/-- A matrix behind a pointer: the leading dimension, and the tensor that the
pointer is meant to stay in. -/
structure MatrixRef where
  ptr : Nat
  ld : Nat
  tensor : Extent
deriving DecidableEq, Repr

/-- Where an entry is, with `size` bytes to an entry. -/
def MatrixRef.addr (size : Nat) (x : MatrixRef) (i j : Nat) : Nat := x.ptr + size * (i * x.ld + j)

/-- The first rows and columns of a matrix. -/
structure Block where
  ref : MatrixRef
  rows : Nat
  cols : Nat
deriving DecidableEq, Repr

namespace Block

def addrs (size : Nat) (b : Block) : Set Nat :=
  {a | ∃ i < b.rows, ∃ j < b.cols, b.ref.addr size i j = a}

/-- Every entry lies in the extent. -/
def Within (size : Nat) (e : Extent) (b : Block) : Prop :=
  ∀ i < b.rows, ∀ j < b.cols, e.base ≤ b.ref.addr size i j ∧
    b.ref.addr size i j + size ≤ e.base + e.bytes

/-- Every entry stays inside the tensor. -/
def Inside (size : Nat) (b : Block) : Prop := b.Within size b.ref.tensor

end Block

variable {R : Type} {size : Nat}

theorem MatrixRef.addr_eq {x : MatrixRef} {base c : Nat} (h : x.ptr = base + size * c) (i j : Nat) :
    x.addr size i j = base + size * (c + (i * x.ld + j)) := by
  rw [addr, h, Nat.mul_add size c, Nat.add_assoc]

/-- A block behind an offset into a tensor of `total` entries. -/
theorem Block.within_of_lt {b : Block} {base c total : Nat} (h : b.ref.ptr = base + size * c)
    (hlt : ∀ i < b.rows, ∀ j < b.cols, c + (i * b.ref.ld + j) < total) :
    b.Within size ⟨base, total * size⟩ := by
  intro i hi j hj
  have hentry : size * (c + (i * b.ref.ld + j)) + size ≤ total * size := by
    calc size * (c + (i * b.ref.ld + j)) + size
        = (c + (i * b.ref.ld + j) + 1) * size := by ring
      _ ≤ total * size := Nat.mul_le_mul_right size (hlt i hi j hj)
  rw [MatrixRef.addr_eq h]
  dsimp only
  omega

theorem Block.Within.mono {b : Block} {e f : Extent} (h : b.Within size e)
    (hbase : f.base ≤ e.base) (hend : e.base + e.bytes ≤ f.base + f.bytes) : b.Within size f := by
  intro i hi j hj
  have hentry := h i hi j hj
  omega

/-- A kernel computes an entry from the blocks it reads. -/
structure Kernel (R : Type) (size : Nat) where
  target : Block
  sources : List Block
  value : (Nat → R) → Nat → Nat → R
  reads : ∀ mem mem' : Nat → R,
    (∀ b ∈ sources, ∀ i < b.rows, ∀ j < b.cols,
      mem (b.ref.addr size i j) = mem' (b.ref.addr size i j)) →
    ∀ i < target.rows, ∀ j < target.cols, value mem i j = value mem' i j

namespace Kernel

def Inside (k : Kernel R size) : Prop :=
  k.target.Inside size ∧ ∀ b ∈ k.sources, b.Inside size

/-- The stores of a kernel, in order. -/
def stores (k : Kernel R size) (mem : Nat → R) : List (Nat × R) :=
  (List.range k.target.rows).flatMap fun i =>
    (List.range k.target.cols).map fun j => (k.target.ref.addr size i j, k.value mem i j)

def run (k : Kernel R size) (mem : Nat → R) : Nat → R :=
  (k.stores mem).foldl (fun mem store => Function.update mem store.1 store.2) mem

/-- One kernel after another. -/
def runAll (kernels : List (Kernel R size)) (mem : Nat → R) : Nat → R :=
  kernels.foldl (fun mem k => k.run mem) mem

/-- The addresses that the kernels of a launch store to. -/
def targets (kernels : List (Kernel R size)) : Set Nat :=
  {a | ∃ k ∈ kernels, a ∈ k.target.addrs size}

/-- No kernel reads what the launch stores. -/
def Independent (kernels : List (Kernel R size)) : Prop :=
  ∀ k ∈ kernels, ∀ b ∈ k.sources, ∀ a ∈ b.addrs size, a ∉ targets kernels

variable {k : Kernel R size} {kernels rest : List (Kernel R size)} {mem mem' : Nat → R}
  {a : Nat} {v : R}

theorem foldl_update_of_notMem {stores : List (Nat × R)} (h : ∀ store ∈ stores, store.1 ≠ a) :
    stores.foldl (fun mem store => Function.update mem store.1 store.2) mem a = mem a := by
  induction stores generalizing mem with
  | nil => rfl
  | cons store rest ih =>
      obtain ⟨hstore, hrest⟩ := List.forall_mem_cons.mp h
      rw [List.foldl_cons, ih hrest, Function.update_of_ne (Ne.symm hstore)]

/-- All stores to an address store the same, and there is one. -/
theorem foldl_update_of_mem {stores : List (Nat × R)} (hv : ∀ store ∈ stores, store.1 = a →
    store.2 = v) (h : ∃ store ∈ stores, store.1 = a) :
    stores.foldl (fun mem store => Function.update mem store.1 store.2) mem a = v := by
  induction stores generalizing mem with
  | nil =>
      obtain ⟨_, hmem, _⟩ := h
      cases hmem
  | cons store rest ih =>
      obtain ⟨hstore, hrest⟩ := List.forall_mem_cons.mp hv
      rw [List.foldl_cons]
      by_cases hlater : ∃ store ∈ rest, store.1 = a
      · exact ih hrest hlater
      · have hnot : ∀ store ∈ rest, store.1 ≠ a := fun s hs heq => hlater ⟨s, hs, heq⟩
        have haddr : store.1 = a := by
          obtain ⟨s, hs, heq⟩ := h
          rcases List.mem_cons.mp hs with rfl | hs
          · exact heq
          · exact absurd heq (hnot s hs)
        rw [foldl_update_of_notMem hnot, haddr, Function.update_self]
        exact hstore haddr

theorem mem_stores {store : Nat × R} :
    store ∈ k.stores mem ↔ ∃ i < k.target.rows, ∃ j < k.target.cols,
      (k.target.ref.addr size i j, k.value mem i j) = store := by
  simp only [stores, List.mem_flatMap, List.mem_map, List.mem_range]

theorem run_of_notMem (h : a ∉ k.target.addrs size) : k.run mem a = mem a := by
  apply foldl_update_of_notMem
  intro store hstore heq
  obtain ⟨i, hi, j, hj, rfl⟩ := mem_stores.mp hstore
  exact h ⟨i, hi, j, hj, heq⟩

theorem run_of_mem (h : a ∈ k.target.addrs size)
    (hv : ∀ i < k.target.rows, ∀ j < k.target.cols, k.target.ref.addr size i j = a →
      k.value mem i j = v) : k.run mem a = v := by
  apply foldl_update_of_mem
  · intro store hstore heq
    obtain ⟨i, hi, j, hj, rfl⟩ := mem_stores.mp hstore
    exact hv i hi j hj heq
  · obtain ⟨i, hi, j, hj, heq⟩ := h
    exact ⟨_, mem_stores.mpr ⟨i, hi, j, hj, rfl⟩, heq⟩

@[simp] theorem runAll_nil : runAll ([] : List (Kernel R size)) mem = mem := rfl

@[simp] theorem runAll_cons : runAll (k :: rest) mem = runAll rest (k.run mem) := rfl

@[simp] theorem runAll_append : runAll (kernels ++ rest) mem = runAll rest (runAll kernels mem) :=
  List.foldl_append

/-- The frame of a launch. -/
theorem runAll_of_notMem (h : a ∉ targets kernels) : runAll kernels mem a = mem a := by
  induction kernels generalizing mem with
  | nil => rfl
  | cons k rest ih =>
      have hk : a ∉ k.target.addrs size := fun hmem => h ⟨k, List.mem_cons_self, hmem⟩
      have hrest : a ∉ targets rest := fun ⟨k', hk', hmem⟩ =>
        h ⟨k', List.mem_cons_of_mem k hk', hmem⟩
      rw [runAll_cons, ih hrest, run_of_notMem hk]

/-- The kernels left to run, behind stores that none of them reads. -/
private theorem runAll_of_mem_aux {stored : Set Nat}
    (hreads : ∀ k ∈ kernels, ∀ b ∈ k.sources, ∀ a ∈ b.addrs size, a ∉ stored)
    (htargets : targets kernels ⊆ stored) (hmem : ∀ a ∉ stored, mem' a = mem a)
    (hv : ∀ k ∈ kernels, ∀ i < k.target.rows, ∀ j < k.target.cols,
      k.target.ref.addr size i j = a → k.value mem i j = v)
    (h : a ∈ targets kernels ∨ mem' a = v) : runAll kernels mem' a = v := by
  induction kernels generalizing mem' with
  | nil => exact h.resolve_left fun ⟨_, hk, _⟩ => by cases hk
  | cons k rest ih =>
      obtain ⟨hreadsk, hreadsrest⟩ := List.forall_mem_cons.mp hreads
      obtain ⟨hvk, hvrest⟩ := List.forall_mem_cons.mp hv
      have hsame : ∀ i < k.target.rows, ∀ j < k.target.cols,
          k.value mem' i j = k.value mem i j := by
        apply k.reads
        intro b hb i hi j hj
        exact hmem _ (hreadsk b hb _ ⟨i, hi, j, hj, rfl⟩)
      have htargetk : k.target.addrs size ⊆ stored := fun _ ha =>
        htargets ⟨k, List.mem_cons_self, ha⟩
      have hafter : a ∈ k.target.addrs size → k.run mem' a = v := by
        intro ha
        apply run_of_mem ha
        intro i hi j hj heq
        rw [hsame i hi j hj]
        exact hvk i hi j hj heq
      rw [runAll_cons]
      apply ih hreadsrest
      · intro a' ⟨k', hk', ha'⟩
        exact htargets ⟨k', List.mem_cons_of_mem k hk', ha'⟩
      · intro a' ha'
        rw [run_of_notMem fun hmem => ha' (htargetk hmem)]
        exact hmem a' ha'
      · exact hvrest
      · by_cases hk : a ∈ k.target.addrs size
        · exact Or.inr (hafter hk)
        · rcases h with ⟨k', hk', ha'⟩ | h
          · rcases List.mem_cons.mp hk' with rfl | hk'
            · exact absurd ha' hk
            · exact Or.inl ⟨k', hk', ha'⟩
          · exact Or.inr ((run_of_notMem hk).trans h)

/-- What a launch leaves at an address, where all its kernels agree about it. -/
theorem runAll_of_mem (hindependent : Independent kernels) (h : a ∈ targets kernels)
    (hv : ∀ k ∈ kernels, ∀ i < k.target.rows, ∀ j < k.target.cols,
      k.target.ref.addr size i j = a → k.value mem i j = v) : runAll kernels mem a = v :=
  runAll_of_mem_aux hindependent (Set.Subset.refl _) (fun _ _ => rfl) hv (Or.inl h)

/-- A launch with one kernel to an item, whose kernels store to different addresses. -/
theorem runAll_map {ι : Type} {l : List ι} {f : ι → Kernel R size}
    (hindependent : Independent (l.map f)) {x : ι} (hx : x ∈ l) {i j : Nat}
    (hi : i < (f x).target.rows) (hj : j < (f x).target.cols)
    (ha : (f x).target.ref.addr size i j = a)
    (hinj : ∀ y ∈ l, ∀ i' < (f y).target.rows, ∀ j' < (f y).target.cols,
      (f y).target.ref.addr size i' j' = a → y = x ∧ i' = i ∧ j' = j) :
    runAll (l.map f) mem a = (f x).value mem i j := by
  apply runAll_of_mem hindependent ⟨f x, List.mem_map_of_mem hx, i, hi, j, hj, ha⟩
  intro k hk i' hi' j' hj' heq
  obtain ⟨y, hy, rfl⟩ := List.mem_map.mp hk
  obtain ⟨rfl, rfl, rfl⟩ := hinj y hy i' hi' j' hj' heq
  rfl

/-- The stores of a launch stay in an extent, so they miss every block apart from it. -/
theorem notMem_targets {b : Block} {e f : Extent} (hsize : 0 < size) (hb : b.Within size e)
    (hkernels : ∀ k ∈ kernels, k.target.Within size f) (hapart : e.Apart f) {i j : Nat}
    (hi : i < b.rows) (hj : j < b.cols) : b.ref.addr size i j ∉ targets kernels := by
  rintro ⟨k, hk, i', hi', j', hj', heq⟩
  have hentry := hb i hi j hj
  have hstored := hkernels k hk i' hi' j' hj'
  unfold Extent.Apart at hapart
  omega

theorem independent_of_apart {f : Extent} (hsize : 0 < size)
    (hkernels : ∀ k ∈ kernels, k.target.Within size f)
    (hsources : ∀ k ∈ kernels, ∀ b ∈ k.sources, ∃ e, b.Within size e ∧ e.Apart f) :
    Independent kernels := by
  rintro k hk b hb a ⟨i, hi, j, hj, rfl⟩
  obtain ⟨e, he, hapart⟩ := hsources k hk b hb
  exact notMem_targets hsize he hkernels hapart hi hj

section Kinds

variable (m n k : Nat) (x w y : MatrixRef)

private theorem sources_pair {b b' : Block} {mem mem' : Nat → R}
    (h : ∀ c ∈ [b, b'], ∀ i < c.rows, ∀ j < c.cols,
      mem (c.ref.addr size i j) = mem' (c.ref.addr size i j)) :
    (∀ i < b.rows, ∀ j < b.cols, mem (b.ref.addr size i j) = mem' (b.ref.addr size i j)) ∧
      ∀ i < b'.rows, ∀ j < b'.cols, mem (b'.ref.addr size i j) = mem' (b'.ref.addr size i j) :=
  ⟨h b (by simp), h b' (by simp)⟩

private theorem product_reads [NonUnitalNonAssocSemiring R] (mem mem' : Nat → R)
    (h : ∀ b ∈ ([⟨x, m, k⟩, ⟨w, k, n⟩] : List Block), ∀ i < b.rows, ∀ j < b.cols,
      mem (b.ref.addr size i j) = mem' (b.ref.addr size i j)) :
    ∀ i < m, ∀ j < n,
      ∑ l ∈ Finset.range k, mem (x.addr size i l) * mem (w.addr size l j) =
        ∑ l ∈ Finset.range k, mem' (x.addr size i l) * mem' (w.addr size l j) := by
  intro i hi j hj
  obtain ⟨hx, hw⟩ := sources_pair h
  apply Finset.sum_congr rfl
  intro l hl
  have hl : l < k := Finset.mem_range.mp hl
  rw [hx i hi l hl, hw l hl j hj]

/-- The product of an `m × k` and a `k × n` matrix. -/
def gemm [NonUnitalNonAssocSemiring R] : Kernel R size where
  target := ⟨y, m, n⟩
  sources := [⟨x, m, k⟩, ⟨w, k, n⟩]
  value mem i j := ∑ l ∈ Finset.range k, mem (x.addr size i l) * mem (w.addr size l j)
  reads := product_reads m n k x w

variable {m n k x w y} in
theorem inside_gemm [NonUnitalNonAssocSemiring R] (hx : (Block.mk x m k).Inside size)
    (hw : (Block.mk w k n).Inside size) (hy : (Block.mk y m n).Inside size) :
    (gemm m n k x w y : Kernel R size).Inside := by
  refine ⟨hy, ?_⟩
  intro b hb
  rcases List.mem_cons.mp hb with rfl | hb
  · exact hx
  · obtain rfl := List.mem_singleton.mp hb
    exact hw

private theorem copy_reads (mem mem' : Nat → R)
    (h : ∀ b ∈ ([⟨x, m, n⟩] : List Block), ∀ i < b.rows, ∀ j < b.cols,
      mem (b.ref.addr size i j) = mem' (b.ref.addr size i j)) :
    ∀ i < m, ∀ j < n, mem (x.addr size i j) = mem' (x.addr size i j) :=
  h ⟨x, m, n⟩ List.mem_cons_self

def copy : Kernel R size where
  target := ⟨y, m, n⟩
  sources := [⟨x, m, n⟩]
  value mem i j := mem (x.addr size i j)
  reads := copy_reads m n x

def fill (value : R) : Kernel R size where
  target := ⟨y, m, n⟩
  sources := []
  value _ _ _ := value
  reads := fun _ _ _ _ _ _ _ => rfl

end Kinds

end Kernel

end DashInfer.Lib
