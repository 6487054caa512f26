import Mathlib.Data.List.Perm.Subperm
import Mathlib.Logic.Function.Basic
import Mathlib.Logic.Relation

/-!
Promises that one side hands out, keeps in its books while it owes an answer,
and answers or forgets. A step of a component that only hands out, forgets or
answers what it owes never answers a promise twice.
-/

namespace DashInfer.Lib

/-- The promises owed, the values each promise was set to, and the number of
promises handed out. -/
structure Book (α : Type) where
  owed : List Nat
  answers : Nat → List α
  next : Nat

namespace Book

variable {α : Type} {b b' b'' : Book α} {p : Nat}

/-- What is done with one promise. -/
inductive Step (b : Book α) : Book α → Prop
  | forget (owed : List Nat) : owed.Subperm b.owed → Step b { b with owed := owed }
  | issue (owed : List Nat) : owed.Perm (b.next :: b.owed) →
      Step b { b with owed := owed, next := b.next + 1 }
  | answer (owed : List Nat) (p : Nat) (value : α) : (p :: owed).Subperm b.owed →
      Step b
        { b with owed := owed, answers := Function.update b.answers p (b.answers p ++ [value]) }

/-- Any number of such steps. -/
def Steps : Book α → Book α → Prop := Relation.ReflTransGen Step

/-- Each promise owed is owed once and unanswered, and no promise is answered
twice or before it is handed out. -/
structure Sound (b : Book α) : Prop where
  nodup : b.owed.Nodup
  unanswered : ∀ p ∈ b.owed, b.answers p = []
  issued : ∀ p, p ∈ b.owed ∨ b.answers p ≠ [] → p < b.next
  once : ∀ p, (b.answers p).length ≤ 1

theorem sound_empty : (⟨[], fun _ => [], 0⟩ : Book α).Sound := by
  constructor <;> simp

theorem Sound.forget (h : b.Sound) {owed : List Nat} (hsub : owed.Subperm b.owed) :
    ({ b with owed := owed } : Book α).Sound := by
  obtain ⟨kept, hperm, hkept⟩ := hsub
  constructor
  · exact hperm.nodup_iff.mp (hkept.nodup h.nodup)
  · intro p hp
    exact h.unanswered p (hkept.subset (hperm.mem_iff.mpr hp))
  · intro p hp
    apply h.issued p
    exact hp.imp_left fun hp => hkept.subset (hperm.mem_iff.mpr hp)
  · exact h.once

theorem Sound.issue (h : b.Sound) : ({ b with owed := b.next :: b.owed, next := b.next + 1 } :
    Book α).Sound := by
  have hnew : b.next ∉ b.owed := fun hmem => Nat.lt_irrefl _ (h.issued _ (.inl hmem))
  constructor
  · exact List.nodup_cons.mpr ⟨hnew, h.nodup⟩
  · intro p hp
    rcases List.mem_cons.mp hp with rfl | hold
    · by_contra hanswered
      exact Nat.lt_irrefl _ (h.issued _ (.inr hanswered))
    · exact h.unanswered p hold
  · intro p hp
    simp only [List.mem_cons, or_assoc] at hp
    rcases hp with rfl | hold
    · exact Nat.lt_succ_self _
    · exact Nat.lt_succ_of_lt (h.issued p hold)
  · exact h.once

theorem Sound.answer (h : b.Sound) {owed : List Nat} {value : α} (howed : b.owed = p :: owed) :
    ({ b with owed := owed, answers := Function.update b.answers p (b.answers p ++ [value]) } :
      Book α).Sound := by
  have hown : b.answers p = [] := h.unanswered p (by simp [howed])
  have hnodup : p ∉ owed ∧ owed.Nodup := by simpa [howed] using h.nodup
  constructor
  · exact hnodup.2
  · intro q hq
    have hne : q ≠ p := by
      rintro rfl
      exact hnodup.1 hq
    simp only [ne_eq, hne, not_false_eq_true, Function.update_of_ne]
    exact h.unanswered q (by simp [howed, hq])
  · intro q hq
    apply h.issued q
    rcases eq_or_ne q p with rfl | hne
    · exact .inl (by simp [howed])
    · rcases hq with hq | hq
      · exact .inl (by simp [howed, hq])
      · exact .inr (by simpa [hne] using hq)
  · intro q
    rcases eq_or_ne q p with rfl | hne
    · simp [hown]
    · simpa [hne] using h.once q

/-- What is owed does not depend on the order. -/
theorem Sound.perm (h : b.Sound) {owed : List Nat} (hperm : owed.Perm b.owed) :
    ({ b with owed := owed } : Book α).Sound := h.forget hperm.subperm

theorem Step.sound (hstep : b.Step b') (h : b.Sound) : b'.Sound := by
  cases hstep with
  | forget owed hsub => exact h.forget hsub
  | issue owed hperm => exact h.issue.perm hperm
  | answer owed p value hsub => exact (h.forget hsub).answer rfl

/-- What was handed out and answered, or forgotten, is never answered again. -/
theorem Step.settled (hstep : b.Step b') (h : p < b.next) (hgone : p ∉ b.owed) :
    p < b'.next ∧ p ∉ b'.owed ∧ b'.answers p = b.answers p := by
  cases hstep with
  | forget owed hsub => exact ⟨h, fun hmem => hgone (hsub.subset hmem), rfl⟩
  | issue owed hperm =>
      refine ⟨Nat.lt_succ_of_lt h, fun hmem => ?_, rfl⟩
      rcases List.mem_cons.mp (hperm.mem_iff.mp hmem) with heq | hold
      · exact Nat.ne_of_lt h heq
      · exact hgone hold
  | answer owed q value hsub =>
      have hne : p ≠ q := by
        rintro rfl
        exact hgone (hsub.subset (by simp))
      refine ⟨h, fun hmem => hgone (hsub.subset (by simp [hmem])), ?_⟩
      simp [hne]

theorem Steps.settled (hsteps : b.Steps b') (h : p < b.next) (hgone : p ∉ b.owed) :
    p < b'.next ∧ p ∉ b'.owed ∧ b'.answers p = b.answers p := by
  induction hsteps with
  | refl => exact ⟨h, hgone, rfl⟩
  | tail _ hlast ih =>
      obtain ⟨hissued, hout, hsame⟩ := ih
      obtain ⟨hissued', hout', hsame'⟩ := hlast.settled hissued hout
      exact ⟨hissued', hout', hsame'.trans hsame⟩

end Book

end DashInfer.Lib
