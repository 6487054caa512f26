import Mathlib.Tactic

/-!
Doubly linked tilings. A heap maps handles to cells, and a list of tiles is
laid out from an address on: every tile is one cell, which stores the tile's
own data, its address and the handles of its two neighbours. `Seg` is the
segment predicate; the lemmas cut a segment at a tile, move it to another heap
and give it another neighbour, which is all a split or a merge does.
-/

namespace DashInfer.Lib

variable {α β : Type}

/-- How a tile is stored: `cell b prev p next` is the cell of the tile `b` at
address `p` between the given neighbours. -/
structure Tiles (β α : Type) where
  handle : β → Nat
  width : β → Nat
  cell : β → Option Nat → Nat → Option Nat → α

namespace Tiles

variable (T : Tiles β α)

def widths (l : List β) : Nat := (l.map T.width).sum

/-- The handle a segment is entered by, `next` being what follows it. -/
def first : List β → Option Nat → Option Nat
  | [], next => next
  | b :: _, _ => some (T.handle b)

/-- The handle a segment is left by, `prev` being what precedes it. -/
def last : Option Nat → List β → Option Nat
  | prev, [] => prev
  | _, b :: rest => last (some (T.handle b)) rest

/-- The tiles stand in the heap from address `p` on, linked to one another and
to the neighbours `prev` and `next` of the whole. -/
def Seg (heap : Nat → α) : Option Nat → Nat → List β → Option Nat → Prop
  | _, _, [], _ => True
  | prev, p, b :: rest, next =>
      heap (T.handle b) = T.cell b prev p (T.first rest next) ∧
        Seg heap (some (T.handle b)) (p + T.width b) rest next

@[simp] theorem widths_nil : T.widths [] = 0 := rfl

@[simp] theorem widths_cons (b : β) (l : List β) :
    T.widths (b :: l) = T.width b + T.widths l := by
  simp [widths]

@[simp] theorem widths_append (l m : List β) :
    T.widths (l ++ m) = T.widths l + T.widths m := by
  simp [widths]

@[simp] theorem first_nil (next : Option Nat) : T.first [] next = next := rfl

@[simp] theorem first_cons (b : β) (l : List β) (next : Option Nat) :
    T.first (b :: l) next = some (T.handle b) := rfl

@[simp] theorem first_append (l m : List β) (next : Option Nat) :
    T.first (l ++ m) next = T.first l (T.first m next) := by
  cases l <;> rfl

@[simp] theorem last_nil (prev : Option Nat) : T.last prev [] = prev := rfl

@[simp] theorem last_cons (prev : Option Nat) (b : β) (l : List β) :
    T.last prev (b :: l) = T.last (some (T.handle b)) l := rfl

@[simp] theorem last_append (prev : Option Nat) (l m : List β) :
    T.last prev (l ++ m) = T.last (T.last prev l) m := by
  induction l generalizing prev with
  | nil => rfl
  | cons b rest ih => exact ih _

variable {T} {heap heap' : Nat → α} {prev prev' next : Option Nat} {p : Nat} {l m : List β} {b : β}

@[simp] theorem seg_nil : T.Seg heap prev p [] next := trivial

@[simp] theorem seg_cons :
    T.Seg heap prev p (b :: l) next ↔
      heap (T.handle b) = T.cell b prev p (T.first l next) ∧
        T.Seg heap (some (T.handle b)) (p + T.width b) l next := Iff.rfl

theorem seg_append :
    T.Seg heap prev p (l ++ m) next ↔
      T.Seg heap prev p l (T.first m next) ∧
        T.Seg heap (T.last prev l) (p + T.widths l) m next := by
  induction l generalizing prev p with
  | nil => simp
  | cons b rest ih =>
      rw [List.cons_append, seg_cons, seg_cons, ih, first_append, last_cons, widths_cons,
        Nat.add_assoc, and_assoc]

/-- A segment does not see the rest of the heap. -/
theorem Seg.congr (h : T.Seg heap prev p l next)
    (hagree : ∀ b ∈ l, heap' (T.handle b) = heap (T.handle b)) :
    T.Seg heap' prev p l next := by
  induction l generalizing prev p with
  | nil => trivial
  | cons b rest ih =>
      refine ⟨(hagree b (List.mem_cons_self ..)).trans h.1, ih h.2 ?_⟩
      intro b' hb'
      exact hagree b' (List.mem_cons_of_mem _ hb')

/-- The cell of a tile, read off the tiles before and after it. -/
theorem Seg.cell_eq (h : T.Seg heap prev p (l ++ b :: m) next) :
    heap (T.handle b) = T.cell b (T.last prev l) (p + T.widths l) (T.first m next) :=
  (seg_append.mp h).2.1

theorem Seg.of_mem (h : T.Seg heap prev p l next) (hb : b ∈ l) :
    ∃ before after, l = before ++ b :: after ∧
      heap (T.handle b) =
        T.cell b (T.last prev before) (p + T.widths before) (T.first after next) := by
  obtain ⟨before, after, rfl⟩ := List.append_of_mem hb
  exact ⟨before, after, rfl, h.cell_eq⟩

end Tiles

end DashInfer.Lib
