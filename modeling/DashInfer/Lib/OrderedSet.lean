import Mathlib.Tactic

/-!
An ordered set of handles whose keys live behind the handles. The comparator
is read at every call, so a key that changes while its handle is stored can
leave the stored sequence out of order. A library implementation promises its
documented behaviour only for a stored sequence that is strictly ordered by
the comparator of the call; `OrderedSet` states exactly that and leaves every
other call open, so that results proved for every `OrderedSet` do not rest on
how a particular tree happens to behave on a corrupted sequence.
-/

namespace DashInfer.Lib

variable {α : Type}

/-- A strict weak ordering, as ordered containers require of a comparator. -/
structure StrictWeak (lt : α → α → Bool) : Prop where
  irrefl : ∀ a, lt a a = false
  trans : ∀ a b c, lt a b → lt b c → lt a c
  apart : ∀ a b c, lt a c → lt a b ∨ lt b c

/-- Neither element is below the other. -/
def Equivalent (lt : α → α → Bool) (a b : α) : Prop :=
  lt a b = false ∧ lt b a = false

/-- The stored sequence is strictly ascending. -/
def Ascending (lt : α → α → Bool) (xs : List α) : Prop :=
  xs.Pairwise (fun a b => lt a b = true)

instance (lt : α → α → Bool) (xs : List α) : Decidable (Ascending lt xs) :=
  inferInstanceAs (Decidable (xs.Pairwise _))

structure OrderedSet (α : Type) where
  Carrier : Type
  empty : Carrier
  /-- The stored handles from the first to the last. -/
  toList : Carrier → List α
  insert : (α → α → Bool) → Carrier → α → Carrier
  erase : (α → α → Bool) → Carrier → α → Carrier
  toList_empty : toList empty = []
  toList_insert : ∀ lt c x, StrictWeak lt → Ascending lt (toList c) →
    (∀ y ∈ toList c, ¬ Equivalent lt y x) →
    toList (insert lt c x) =
      (toList c).filter (lt · x) ++ x :: (toList c).filter (lt x ·)
  toList_insert_equivalent : ∀ lt c x, StrictWeak lt → Ascending lt (toList c) →
    (∃ y ∈ toList c, Equivalent lt y x) → toList (insert lt c x) = toList c
  toList_erase : ∀ lt c x, StrictWeak lt → Ascending lt (toList c) →
    toList (erase lt c x) = (toList c).filter (fun y => lt y x || lt x y)

namespace OrderedSet

variable (S : OrderedSet α) {lt : α → α → Bool} {c : S.Carrier} {x : α}

theorem ascending_erase (hlt : StrictWeak lt) (h : Ascending lt (S.toList c)) :
    Ascending lt (S.toList (S.erase lt c x)) := by
  rw [S.toList_erase lt c x hlt h]
  exact h.filter _

theorem ascending_insert (hlt : StrictWeak lt) (h : Ascending lt (S.toList c))
    (hnew : ∀ y ∈ S.toList c, ¬ Equivalent lt y x) :
    Ascending lt (S.toList (S.insert lt c x)) := by
  rw [S.toList_insert lt c x hlt h hnew]
  refine List.pairwise_append.mpr ⟨h.filter _, ?_, ?_⟩
  · refine List.pairwise_cons.mpr ⟨?_, h.filter _⟩
    intro y hy
    exact (List.mem_filter.mp hy).2
  · intro a ha b hb
    have hax : lt a x = true := (List.mem_filter.mp ha).2
    rcases List.mem_cons.mp hb with rfl | hb
    · exact hax
    · exact hlt.trans a x b hax (List.mem_filter.mp hb).2

theorem mem_erase (hlt : StrictWeak lt) (h : Ascending lt (S.toList c)) {y : α} :
    y ∈ S.toList (S.erase lt c x) ↔
      y ∈ S.toList c ∧ ¬ Equivalent lt y x := by
  rw [S.toList_erase lt c x hlt h, List.mem_filter]
  simp only [Equivalent, Bool.or_eq_true, not_and_or, Bool.not_eq_false]

theorem mem_insert (hlt : StrictWeak lt) (h : Ascending lt (S.toList c))
    (hnew : ∀ y ∈ S.toList c, ¬ Equivalent lt y x) {y : α} :
    y ∈ S.toList (S.insert lt c x) ↔ y = x ∨ y ∈ S.toList c := by
  rw [S.toList_insert lt c x hlt h hnew]
  simp only [List.mem_append, List.mem_cons, List.mem_filter]
  constructor
  · rintro (⟨hy, _⟩ | rfl | ⟨hy, _⟩)
    · exact Or.inr hy
    · exact Or.inl rfl
    · exact Or.inr hy
  · rintro (rfl | hy)
    · exact Or.inr (Or.inl rfl)
    · by_cases hyx : lt y x = true
      · exact Or.inl ⟨hy, hyx⟩
      · by_cases hxy : lt x y = true
        · exact Or.inr (Or.inr ⟨hy, hxy⟩)
        · exact absurd ⟨Bool.not_eq_true _ ▸ hyx, Bool.not_eq_true _ ▸ hxy⟩
            (hnew y hy)

end OrderedSet

/-- The plain list implementation: a sequence kept in order by insertion. -/
def listSet (α : Type) : OrderedSet α where
  Carrier := List α
  empty := []
  toList := id
  insert lt c x :=
    if c.any (fun y => !lt y x && !lt x y) then c
    else c.filter (lt · x) ++ x :: c.filter (lt x ·)
  erase lt c x := c.filter (fun y => lt y x || lt x y)
  toList_empty := rfl
  toList_insert := by
    intro lt c x _ _ hnew
    have hno : c.any (fun y => !lt y x && !lt x y) = false := by
      rw [List.any_eq_false]
      intro y hy hcond
      exact hnew y hy (by simpa [Equivalent] using hcond)
    simp only [hno, id]
    rfl
  toList_insert_equivalent := by
    rintro lt c x _ _ ⟨y, hy, hequiv⟩
    have hyes : c.any (fun y => !lt y x && !lt x y) = true :=
      List.any_eq_true.mpr ⟨y, hy, by simp [hequiv.1, hequiv.2]⟩
    simp only [hyes, id]
    rfl
  toList_erase := by
    intro lt c x _ _
    rfl

end DashInfer.Lib
