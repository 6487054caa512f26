import Mathlib.Data.List.Perm.Basic
import Mathlib.Data.List.Basic

/-!
Removal from an unordered list kept in an array: the last element takes the
place of the removed one. The position is found by a search from the back.
-/

namespace DashInfer.Lib

variable {α : Type}

/-- The last position whose element satisfies the test. -/
def lastIdx? (p : α → Bool) : List α → Option Nat
  | [] => none
  | a :: rest =>
      match lastIdx? p rest with
      | some i => some (i + 1)
      | none => if p a then some 0 else none

/-- The last element moves to position `i`, and the list loses its last
position. -/
def swapRemove (l : List α) (i : Nat) : List α :=
  match l.getLast? with
  | none => []
  | some last => (l.set i last).dropLast

theorem lastIdx?_eq_none {p : α → Bool} {l : List α} :
    lastIdx? p l = none ↔ ∀ a ∈ l, p a = false := by
  induction l with
  | nil => simp [lastIdx?]
  | cons a rest ih =>
      rw [lastIdx?, List.forall_mem_cons]
      cases hrest : lastIdx? p rest with
      | some i =>
          have hne : ¬ ∀ b ∈ rest, p b = false := fun h => by
            rw [ih.mpr h] at hrest
            cases hrest
          simp [hne]
      | none =>
          have hall := ih.mp hrest
          cases hp : p a <;> simp_all

theorem lastIdx?_spec {p : α → Bool} {l : List α} {i : Nat} (h : lastIdx? p l = some i) :
    ∃ a, l[i]? = some a ∧ p a = true := by
  induction l generalizing i with
  | nil => cases h
  | cons a rest ih =>
      rw [lastIdx?] at h
      cases hrest : lastIdx? p rest with
      | some j =>
          rw [hrest] at h
          obtain rfl := Option.some.inj h
          obtain ⟨b, hb, hp⟩ := ih hrest
          exact ⟨b, by simpa using hb, hp⟩
      | none =>
          rw [hrest] at h
          cases hp : p a with
          | false => simp [hp] at h
          | true =>
              simp only [hp, if_true, Option.some.injEq] at h
              subst h
              exact ⟨a, rfl, hp⟩

theorem lastIdx?_map {β : Type} (p : β → Bool) (f : α → β) (l : List α) :
    lastIdx? p (l.map f) = lastIdx? (fun a => p (f a)) l := by
  induction l with
  | nil => rfl
  | cons a rest ih => rw [List.map_cons, lastIdx?, lastIdx?, ih]

theorem swapRemove_append_singleton (front : List α) (last : α) (i : Nat) :
    swapRemove (front ++ [last]) i = ((front ++ [last]).set i last).dropLast := by
  rw [swapRemove, List.getLast?_concat]

/-- The removed element and the others make up the list. -/
theorem swapRemove_perm {l : List α} {i : Nat} {a : α} (h : l[i]? = some a) :
    (a :: swapRemove l i).Perm l := by
  rcases List.eq_nil_or_concat l with rfl | ⟨front, last, rfl⟩
  · cases h
  · rw [List.concat_eq_append] at h ⊢
    obtain ⟨hi, ha⟩ := List.getElem?_eq_some_iff.mp h
    rw [List.length_append, List.length_singleton] at hi
    rw [swapRemove_append_singleton]
    by_cases hlt : i < front.length
    · have hget : front[i] = a := by
        rw [← ha, List.getElem_append_left hlt]
      have herase : (a :: front.eraseIdx i).Perm front := by
        rw [← hget]
        exact List.getElem_cons_eraseIdx_perm hlt
      rw [List.set_append_left _ _ hlt, List.dropLast_concat]
      calc
        List.Perm (a :: front.set i last) (a :: last :: front.eraseIdx i) :=
          (List.set_perm_cons_eraseIdx hlt last).cons a
        List.Perm _ (last :: a :: front.eraseIdx i) := List.Perm.swap last a _
        List.Perm _ (last :: front) := herase.cons last
        List.Perm _ (front ++ [last]) := (List.perm_append_singleton last front).symm
    · obtain rfl : i = front.length := by omega
      have hget : last = a := by
        rw [← ha, List.getElem_append_right (Nat.le_refl _)]
        simp
      rw [List.set_append_right _ _ (Nat.le_refl _), hget, Nat.sub_self, List.set_cons_zero,
        List.dropLast_concat]
      exact (List.perm_append_singleton a front).symm

end DashInfer.Lib
