import Mathlib.Data.List.Basic
import Mathlib.Data.List.Count
import Mathlib.Logic.Function.Basic

/-!
Kernels whose threads write to computed places. Where the value written depends
on the place alone, or the threads only count, the order they run in does not
matter: what a place holds depends on the threads that write to it.
-/

namespace DashInfer.Lib

variable {ι κ α : Type} [DecidableEq κ] {writes : ι → Prop} [DecidablePred writes]
  {place : ι → κ}

/-- A thread that writes the value of its place, if at all. -/
def writeThread (writes : ι → Prop) [DecidablePred writes] (place : ι → κ) (value : κ → α)
    (memory : κ → α) (i : ι) : κ → α :=
  if writes i then Function.update memory (place i) (value (place i)) else memory

theorem foldl_writeThread (value : κ → α) (threads : List ι) (memory : κ → α) (k : κ) :
    threads.foldl (writeThread writes place value) memory k =
      if ∃ i ∈ threads, writes i ∧ place i = k then value k else memory k := by
  induction threads generalizing memory with
  | nil => simp
  | cons i rest ih =>
      rw [List.foldl_cons, ih]
      by_cases hlater : ∃ j ∈ rest, writes j ∧ place j = k
      · obtain ⟨j, hj, hwrites⟩ := hlater
        rw [if_pos ⟨j, hj, hwrites⟩, if_pos ⟨j, List.mem_cons_of_mem _ hj, hwrites⟩]
      · rw [if_neg hlater]
        unfold writeThread
        by_cases hwrites : writes i
        · by_cases hplace : place i = k
          · rw [if_pos hwrites, if_pos ⟨i, List.mem_cons_self, hwrites, hplace⟩, hplace,
              Function.update_self]
          · rw [if_pos hwrites, Function.update_of_ne (Ne.symm hplace), if_neg]
            rintro ⟨j, hj, hwj, hpj⟩
            rcases List.mem_cons.mp hj with rfl | hj
            · exact hplace hpj
            · exact hlater ⟨j, hj, hwj, hpj⟩
        · rw [if_neg hwrites, if_neg]
          rintro ⟨j, hj, hwj, hpj⟩
          rcases List.mem_cons.mp hj with rfl | hj
          · exact hwrites hwj
          · exact hlater ⟨j, hj, hwj, hpj⟩

/-- A thread that adds one at its place, if at all. -/
def countThread (writes : ι → Prop) [DecidablePred writes] (place : ι → κ) (count : κ → Nat)
    (i : ι) : κ → Nat :=
  if writes i then Function.update count (place i) (count (place i) + 1) else count

theorem foldl_countThread (threads : List ι) (count : κ → Nat) (k : κ) :
    threads.foldl (countThread writes place) count k =
      count k + threads.countP (fun i => writes i ∧ place i = k) := by
  induction threads generalizing count with
  | nil => simp
  | cons i rest ih =>
      rw [List.foldl_cons, ih, List.countP_cons]
      unfold countThread
      by_cases hwrites : writes i
      · by_cases hplace : place i = k
        · simp only [hwrites, hplace, if_true, and_self, decide_true, Function.update_self]
          omega
        · simp [hwrites, hplace, Function.update_of_ne (Ne.symm hplace)]
      · simp [hwrites]

end DashInfer.Lib
