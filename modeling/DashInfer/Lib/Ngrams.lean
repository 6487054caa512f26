import Mathlib
import DashInfer.Lib.Buffer

/-!
The n-grams of a list. One that a list has twice was made by the token that
completed its second occurrence.
-/

namespace DashInfer.Lib

variable {α : Type} {n : Nat} {l : List α} {a : α}

/-- Some `n` consecutive items occur at two places. -/
def Twice (n : Nat) (l : List α) : Prop :=
  ∃ i j, i < j ∧ j + n ≤ l.length ∧ slice l i n = slice l j n

/-- Appending the item makes an n-gram that the list already has. -/
def Recurs (n : Nat) (l : List α) (a : α) : Prop :=
  ∃ i, i + n ≤ l.length ∧ slice l i n = slice (l ++ [a]) (l.length + 1 - n) n

theorem slice_append_of_le {b c : List α} {o k : Nat} (h : o + k ≤ b.length) :
    slice (b ++ c) o k = slice b o k := by
  unfold slice
  rw [List.drop_append_of_le_length (by omega), List.take_append_of_le_length]
  rw [List.length_drop]
  omega

/-- A repetition behind an appended item was there or ends with the item. -/
theorem twice_append_iff : Twice n (l ++ [a]) ↔ Twice n l ∨ Recurs n l a := by
  have hlen : (l ++ [a]).length = l.length + 1 := List.length_append
  constructor
  · rintro ⟨i, j, hij, hj, heq⟩
    rw [hlen] at hj
    rw [slice_append_of_le (by omega)] at heq
    rcases Nat.lt_or_ge (j + n) (l.length + 1) with hlt | hge
    · rw [slice_append_of_le (by omega)] at heq
      exact Or.inl ⟨i, j, hij, by omega, heq⟩
    · have hlast : j = l.length + 1 - n := by omega
      rw [hlast] at heq
      exact Or.inr ⟨i, by omega, heq⟩
  · rintro (⟨i, j, hij, hj, heq⟩ | ⟨i, hi, heq⟩)
    · refine ⟨i, j, hij, by omega, ?_⟩
      rw [slice_append_of_le (by omega), slice_append_of_le hj]
      exact heq
    · refine ⟨i, l.length + 1 - n, by omega, by omega, ?_⟩
      rw [slice_append_of_le hi]
      exact heq

theorem not_twice_of_length_le (h : l.length ≤ n) : ¬ Twice n l := by
  rintro ⟨i, j, hij, hj, -⟩
  omega

theorem not_recurs_of_length_lt (h : l.length < n) : ¬ Recurs n l a := by
  rintro ⟨i, hi, -⟩
  omega

/-- Item by item: the n-gram starts with the last `n - 1` items, and the
appended one follows these. -/
theorem recurs_iff (hn : 0 < n) :
    Recurs n l a ↔ ∃ i, i + n ≤ l.length ∧
      (∀ j, j + 1 < n → l[i + j]? = l[l.length + 1 - n + j]?) ∧ l[i + n - 1]? = some a := by
  constructor
  · rintro ⟨i, hi, heq⟩
    refine ⟨i, hi, ?_, ?_⟩
    · intro j hj
      have hat := congrArg (·[j]?) heq
      simp only [getElem?_slice, if_pos (show j < n by omega)] at hat
      rw [hat, List.getElem?_append_left (by omega)]
    · have hat := congrArg (·[n - 1]?) heq
      simp only [getElem?_slice, if_pos (show n - 1 < n by omega)] at hat
      have hlast : l.length + 1 - n + (n - 1) = l.length := by omega
      rw [Nat.add_sub_assoc hn, hat, hlast, List.getElem?_concat_length]
  · rintro ⟨i, hi, hsame, hlast⟩
    refine ⟨i, hi, ?_⟩
    apply List.ext_getElem?
    intro j
    rw [getElem?_slice, getElem?_slice]
    split
    next hj =>
      rcases Nat.lt_or_ge (j + 1) n with hlt | hge
      · rw [List.getElem?_append_left (by omega)]
        exact hsame j hlt
      · have hend : l.length + 1 - n + j = l.length := by omega
        have hto : i + j = i + n - 1 := by omega
        rw [hend, hto, List.getElem?_concat_length]
        exact hlast
    next => rfl

theorem cons_eq_append_iff {x : α} : x :: l = l ++ [a] ↔ ∀ y ∈ x :: l, y = a := by
  induction l generalizing x with
  | nil => simp
  | cons y rest ih =>
      rw [List.cons_append, List.cons.injEq, ih]
      constructor
      · rintro ⟨rfl, hall⟩
        exact List.forall_mem_cons.mpr ⟨hall x List.mem_cons_self, hall⟩
      · intro hall
        obtain ⟨rfl, hrest⟩ := List.forall_mem_cons.mp hall
        exact ⟨(hrest y List.mem_cons_self).symm, hrest⟩

/-- An n-gram as long as the list recurs only in a list of one item. -/
theorem recurs_length_iff : Recurs l.length l a ↔ ∀ x ∈ l, x = a := by
  have hdrop : Recurs l.length l a ↔ l = (l ++ [a]).drop 1 := by
    have hone : slice (l ++ [a]) (l.length + 1 - l.length) l.length = (l ++ [a]).drop 1 := by
      have hlen : ((l ++ [a]).drop 1).length = l.length := by simp
      rw [Nat.add_sub_cancel_left, slice]
      exact List.take_of_length_le hlen.le
    constructor
    · rintro ⟨i, hi, heq⟩
      obtain rfl : i = 0 := by omega
      rwa [slice_all, hone] at heq
    · intro heq
      refine ⟨0, by omega, ?_⟩
      rwa [slice_all, hone]
  rw [hdrop]
  cases l with
  | nil => simp
  | cons x rest =>
      rw [List.cons_append, List.drop_one, List.tail_cons]
      exact cons_eq_append_iff

end DashInfer.Lib
