import DashInfer.Lib.OrderedSet

/-!
The block allocator of a device context: free blocks in a set ordered by size
and address, the allocated ones in a set of their own. A block is its address.
-/

namespace DashInfer.Memory

open Lib

/-- Where the language places a new object: apart from the live ones. -/
structure Heap where
  place : Finset Nat → Nat
  fresh : ∀ live, place live ∉ live

/-- A heap that places objects one behind the other. -/
def bumpHeap : Heap := ⟨fun live => live.sup id + 1, fun live h =>
  absurd (Finset.le_sup (f := id) h) (Nat.not_succ_le_self _)⟩

/-- `BlockImpl::operator<`: by size, then by address. -/
def blockLt (size : Nat → Nat) (a b : Nat) : Bool :=
  if size a ≠ size b then decide (size a < size b) else decide (a < b)

theorem strictWeak_blockLt (size : Nat → Nat) : StrictWeak (blockLt size) := by
  refine ⟨fun a => ?_, fun a b c => ?_, fun a b c => ?_⟩
  · simp [blockLt]
  · simp only [blockLt]
    split <;> split <;> split <;> simp only [decide_eq_true_eq] <;> omega
  · simp only [blockLt]
    split <;> split <;> split <;> simp only [decide_eq_true_eq] <;> omega

theorem equivalent_blockLt {size : Nat → Nat} {a b : Nat} :
    Equivalent (blockLt size) a b ↔ a = b := by
  constructor
  · rintro ⟨hab, hba⟩
    simp only [blockLt] at hab hba
    split at hab <;> split at hba <;> simp only [decide_eq_false_iff_not] at hab hba <;> omega
  · rintro rfl
    exact ⟨(strictWeak_blockLt size).irrefl a, (strictWeak_blockLt size).irrefl a⟩

/-- The blocks of an allocator, and the objects that are alive. -/
structure Blocks (S : OrderedSet Nat) where
  size : Nat → Nat
  free : S.Carrier
  allocated : Finset Nat
  live : Finset Nat

namespace Blocks

variable {S : OrderedSet Nat}

/-- `BlockImpl::Resize`: a block only grows. -/
def resize (block : Nat) (n : Nat) (m : Blocks S) : Blocks S :=
  if m.size block < n then { m with size := Function.update m.size block n } else m

/-- A free block leaves the free set for the allocated ones. -/
def take (block : Nat) (m : Blocks S) : Blocks S :=
  { m with
    free := S.erase (blockLt m.size) m.free block
    allocated := insert block m.allocated }

/-- `BlockAllocator::Alloc`: the smallest free block that is not below the
search key, else the largest one resized, else a new one. -/
def alloc (heap : Heap) (n : Nat) (m : Blocks S) : Nat × Blocks S :=
  let key := heap.place m.live
  let lt := blockLt (Function.update m.size key n)
  match (S.toList m.free).find? fun b => !lt b key with
  | some block => (block, m.take block)
  | none =>
      match (S.toList m.free).getLast? with
      | some block => (block, (m.take block).resize block n)
      | none =>
          let block := heap.place (insert key m.live)
          (block,
            { m with
              size := Function.update m.size block n
              allocated := insert block m.allocated
              live := insert block m.live })

/-- `BlockAllocator::Free`. -/
def release (block : Option Nat) (m : Blocks S) : Blocks S :=
  match block with
  | none => m
  | some block =>
      if block ∈ m.allocated then
        { m with
          free := S.insert (blockLt m.size) m.free block
          allocated := m.allocated.erase block }
      else m

/-- The free blocks are in order and apart from the allocated ones. -/
structure Sound (m : Blocks S) : Prop where
  ascending : Ascending (blockLt m.size) (S.toList m.free)
  apart : ∀ b ∈ S.toList m.free, b ∉ m.allocated
  free_live : ∀ b ∈ S.toList m.free, b ∈ m.live
  allocated_live : ∀ b ∈ m.allocated, b ∈ m.live

variable {m : Blocks S} {block : Nat}

theorem resize_zero : m.resize block 0 = m := if_neg (Nat.not_lt_zero _)

theorem le_size_resize {n : Nat} : n ≤ (m.resize block n).size block := by
  rw [resize]
  split
  · simp
  · omega

theorem size_le_resize {n : Nat} (b : Nat) : m.size b ≤ (m.resize block n).size b := by
  rw [resize]
  split
  case isTrue h =>
      by_cases hb : b = block
      · subst hb
        simpa using h.le
      · simp [Function.update_of_ne hb]
  case isFalse => exact le_refl _

theorem mem_take (h : m.Sound) {b : Nat} :
    b ∈ S.toList (m.take block).free ↔ b ∈ S.toList m.free ∧ b ≠ block := by
  rw [take, S.mem_erase (strictWeak_blockLt m.size) h.ascending, equivalent_blockLt]

theorem Sound.take (h : m.Sound) (hblock : block ∈ S.toList m.free) : (m.take block).Sound := by
  refine ⟨S.ascending_erase (strictWeak_blockLt _) h.ascending, ?_, ?_, ?_⟩
  · intro b hb hmem
    obtain ⟨hb, hne⟩ := (mem_take h).mp hb
    rcases Finset.mem_insert.mp hmem with rfl | hmem
    · exact hne rfl
    · exact h.apart b hb hmem
  · intro b hb
    exact h.free_live b ((mem_take h).mp hb).1
  · intro b hb
    rcases Finset.mem_insert.mp hb with rfl | hb
    · exact h.free_live _ hblock
    · exact h.allocated_live b hb

/-- A request without a size takes a free block, or makes an empty one; no
other block changes. -/
structure Taken (m m' : Blocks S) (block : Nat) : Prop where
  sound : m'.Sound
  fresh : block ∉ m.allocated
  allocated : m'.allocated = insert block m.allocated
  free : ∀ b ∈ S.toList m'.free, b ∈ S.toList m.free

theorem taken_alloc (heap : Heap) (h : m.Sound) :
    Taken m (m.alloc heap 0).2 (m.alloc heap 0).1 := by
  rw [alloc]
  dsimp only
  split
  case h_1 b hfind =>
      have hb := List.mem_of_find?_eq_some hfind
      exact ⟨h.take hb, h.apart b hb, rfl, fun c hc => ((mem_take h).mp hc).1⟩
  case h_2 hnone =>
      split
      case h_1 b hlast =>
          have hb := List.mem_of_getLast? hlast
          rw [resize_zero]
          exact ⟨h.take hb, h.apart b hb, rfl, fun c hc => ((mem_take h).mp hc).1⟩
      case h_2 hempty =>
          rw [List.getLast?_eq_none_iff] at hempty
          have hnew := heap.fresh (insert (heap.place m.live) m.live)
          rw [Finset.mem_insert, not_or] at hnew
          refine ⟨⟨?_, ?_, ?_, ?_⟩, fun hmem => hnew.2 (h.allocated_live _ hmem), rfl, ?_⟩
          · rw [hempty]
            exact List.Pairwise.nil
          · rw [hempty]
            exact fun b hb => (by cases hb)
          · rw [hempty]
            exact fun b hb => (by cases hb)
          · intro b hb
            exact Finset.insert_subset_insert _ h.allocated_live hb
          · exact fun b hb => hb

theorem Sound.release (h : m.Sound) (hblock : block ∈ m.allocated) :
    (m.release (some block)).Sound ∧
      (m.release (some block)).allocated = m.allocated.erase block := by
  have hnew : ∀ b ∈ S.toList m.free, ¬ Equivalent (blockLt m.size) b block := by
    intro b hb heq
    rw [equivalent_blockLt] at heq
    exact h.apart b hb (heq ▸ hblock)
  have hmem : ∀ b, b ∈ S.toList (S.insert (blockLt m.size) m.free block) ↔
      b = block ∨ b ∈ S.toList m.free := fun b =>
    S.mem_insert (strictWeak_blockLt m.size) h.ascending hnew
  rw [Blocks.release, if_pos hblock]
  refine ⟨⟨S.ascending_insert (strictWeak_blockLt _) h.ascending hnew, ?_, ?_, ?_⟩, rfl⟩
  · intro b hb hb'
    obtain ⟨hne, hb'⟩ := Finset.mem_erase.mp hb'
    exact h.apart b (((hmem b).mp hb).resolve_left hne) hb'
  · intro b hb
    rcases (hmem b).mp hb with rfl | hb
    · exact h.allocated_live _ hblock
    · exact h.free_live b hb
  · intro b hb
    exact h.allocated_live b (Finset.mem_of_mem_erase hb)

end Blocks

end DashInfer.Memory
