import Mathlib
import DashInfer.Lib.Fallible
import DashInfer.Vision.Truncate

/-!
What the walk over the tokens charges to the segments. A segment gets the lengths of
the images that start in it, until the walk comes to an empty one: that one gets all
the lengths that are left.
-/

namespace DashInfer.Vision

open Lib

/-- The lengths of the images that start in some tokens, of the lengths that are next. -/
def imageCost (bosId : Int) (lengths : List Nat) (tokens : List Int) : Nat :=
  (lengths.take (tokens.count bosId)).sum

/-- The real lengths of the segments behind the first, in the order of the walk: an
empty one gets all the lengths that are left. -/
def realFrom (bosId : Int) : List Nat → List Int → List Nat → List Nat
  | [], _, _ => []
  | 0 :: segments, tokens, lengths => imageCost bosId lengths tokens :: segments
  | (size + 1) :: segments, tokens, lengths =>
      (size + 1 + imageCost bosId lengths (tokens.take (size + 1))) ::
        realFrom bosId segments (tokens.drop (size + 1))
          (lengths.drop ((tokens.take (size + 1)).count bosId))

/-- The real lengths of all segments. The first is not passed over when it is empty. -/
def realAll (bosId : Int) : List Nat → List Int → List Nat → List Nat
  | [], _, _ => []
  | size :: segments, tokens, lengths =>
      (size + imageCost bosId lengths (tokens.take size)) ::
        realFrom bosId segments (tokens.drop size)
          (lengths.drop ((tokens.take size).count bosId))

section Walk

variable {bosId : Int} {revLengths : List Nat}

theorem imageCost_append (lengths : List Nat) (a b : List Int) :
    imageCost bosId lengths (a ++ b) =
      imageCost bosId lengths a + imageCost bosId (lengths.drop (a.count bosId)) b := by
  unfold imageCost
  rw [List.count_append, List.take_add, List.sum_append]

theorem modify_append_cons {α : Type} (front : List α) (x : α) (back : List α) (f : α → α) :
    (front ++ x :: back).modify front.length f = front ++ f x :: back := by
  induction front with
  | nil => rfl
  | cons y front ih => exact congrArg (y :: ·) ih

/-- Tokens of one segment are charged to it. -/
theorem foldlM_charge (tokens : List Int) (pointer : Nat) (size : Int) (front : List Nat)
    (real : Nat) (back lengths : List Nat) (hpointer : front.length = pointer)
    (hlengths : tokens.count bosId ≤ lengths.length) :
    tokens.foldlM (charge bosId) ⟨pointer, size, front ++ real :: back, lengths.reverse⟩ =
      .ok ⟨pointer, size - tokens.length, front ++ (real + imageCost bosId lengths tokens) :: back,
        (lengths.drop (tokens.count bosId)).reverse⟩ := by
  induction tokens generalizing size real lengths with
  | nil =>
      rw [List.foldlM_nil]
      simp [imageCost]
      rfl
  | cons id tokens ih =>
      subst hpointer
      rw [List.foldlM_cons]
      by_cases hid : id = bosId
      · subst hid
        rw [List.count_cons_self] at hlengths
        cases lengths with
        | nil => simp at hlengths
        | cons length lengths =>
            have hcharge : charge id ⟨front.length, size, front ++ real :: back,
                (length :: lengths).reverse⟩ id = .ok ⟨front.length, size - 1,
                  front ++ (real + length) :: back, lengths.reverse⟩ := by
              unfold charge
              rw [if_pos rfl, List.reverse_cons, List.getLast?_concat]
              dsimp only
              rw [modify_append_cons, List.dropLast_concat]
            rw [hcharge]
            refine (ih (size - 1) (real + length) lengths (by simpa using hlengths)).trans ?_
            rw [List.count_cons_self, List.drop_succ_cons, imageCost, imageCost,
              List.count_cons_self, List.take_succ_cons, List.sum_cons, List.length_cons,
              Nat.add_assoc]
            congr 2
            push_cast
            omega
      · have hcharge : charge bosId ⟨front.length, size, front ++ real :: back, lengths.reverse⟩ id =
            .ok ⟨front.length, size - 1, front ++ real :: back, lengths.reverse⟩ := by
          unfold charge
          rw [if_neg hid]
        have hcount : (id :: tokens).count bosId = tokens.count bosId :=
          List.count_cons_of_ne hid
        rw [hcharge]
        rw [hcount] at hlengths ⊢
        refine (ih (size - 1) real lengths hlengths).trans ?_
        rw [imageCost, imageCost, hcount, List.length_cons]
        congr 2
        push_cast
        omega

theorem walkToken_of_ne {s : TruncateWalk} (h : s.size ≠ 0) (id : Int) :
    walkToken bosId revLengths s id = charge bosId s id := by
  unfold walkToken advance
  rw [if_neg h]
  rfl

theorem charge_size {s s' : TruncateWalk} {id : Int} (h : charge bosId s id = .ok s') :
    s'.size = s.size - 1 := by
  unfold charge at h
  split at h
  · split at h
    · cases h
    · cases h
      rfl
  · cases h
    rfl

/-- While the size does not come to zero the walk only charges. -/
theorem foldlM_walkToken_eq_charge (tokens : List Int) (s : TruncateWalk)
    (h : ∀ i < tokens.length, s.size ≠ i) :
    tokens.foldlM (walkToken bosId revLengths) s = tokens.foldlM (charge bosId) s := by
  induction tokens generalizing s with
  | nil => rfl
  | cons id tokens ih =>
      rw [List.foldlM_cons, List.foldlM_cons, walkToken_of_ne (h 0 (Nat.succ_pos _))]
      cases hcharge : charge bosId s id with
      | error e => rfl
      | ok s' =>
          apply ih
          intro i hi
          have hsize := charge_size hcharge
          have hne := h (i + 1) (by simpa using hi)
          push_cast at hne
          omega

theorem charge_walk_eq {s : TruncateWalk} (id : Int) {tokens : List Int}
    (h : ∀ i < tokens.length, s.size - 1 ≠ i) :
    (charge bosId s id >>= fun s => tokens.foldlM (walkToken bosId revLengths) s) =
      (id :: tokens).foldlM (charge bosId) s := by
  rw [List.foldlM_cons]
  cases hcharge : charge bosId s id with
  | error e => rfl
  | ok s' =>
      apply foldlM_walkToken_eq_charge
      intro i hi
      rw [charge_size hcharge]
      exact h i hi

/-- A used-up segment gives way to the next at the next token. -/
theorem foldlM_walkToken_advance {pointer size : Nat} {realLengths visionLengths : List Nat}
    (hnext : revLengths[pointer + 1]? = some size) (id : Int) (tokens : List Int) :
    (id :: tokens).foldlM (walkToken bosId revLengths) ⟨pointer, 0, realLengths, visionLengths⟩ =
      (charge bosId ⟨pointer + 1, size, realLengths, visionLengths⟩ id >>= fun s =>
        tokens.foldlM (walkToken bosId revLengths) s) := by
  rw [List.foldlM_cons]
  have hwalk : walkToken bosId revLengths ⟨pointer, 0, realLengths, visionLengths⟩ id =
      charge bosId ⟨pointer + 1, size, realLengths, visionLengths⟩ id := by
    unfold walkToken advance
    rw [if_pos rfl]
    dsimp only
    rw [hnext]
    rfl
  rw [hwalk]

/-- The segments behind the one that was just used up. -/
theorem exists_walk_realFrom (segments : List Nat) (front real : List Nat) (pointer : Nat)
    (tokens : List Int) (lengths : List Nat) (hrev : revLengths = front ++ segments)
    (hfront : front.length = pointer + 1) (hreal : real.length = pointer + 1)
    (htokens : tokens.length = segments.sum) (hlengths : tokens.count bosId ≤ lengths.length) :
    ∃ s, tokens.foldlM (walkToken bosId revLengths)
        ⟨pointer, 0, real ++ segments, lengths.reverse⟩ = .ok s ∧
      s.realLengths = real ++ realFrom bosId segments tokens lengths := by
  induction segments generalizing front real pointer tokens lengths with
  | nil =>
      rw [List.length_eq_zero_iff.mp htokens]
      refine ⟨_, rfl, ?_⟩
      simp [realFrom]
  | cons size segments ih =>
      have hnext : revLengths[pointer + 1]? = some size := by
        rw [hrev, ← hfront, List.getElem?_append_right (Nat.le_refl _), Nat.sub_self]
        rfl
      cases size with
      | zero =>
          cases tokens with
          | nil =>
              refine ⟨_, rfl, ?_⟩
              simp [realFrom, imageCost]
          | cons id tokens =>
              -- the size of an empty segment goes below zero and stays there
              have hall := foldlM_charge (id :: tokens) (pointer + 1) (0 : Nat) real 0 segments
                lengths hreal hlengths
              rw [foldlM_walkToken_advance hnext, charge_walk_eq id (by
                intro i _
                dsimp only
                omega), hall]
              refine ⟨_, rfl, ?_⟩
              dsimp only
              rw [realFrom, Nat.zero_add]
      | succ size =>
          rw [List.sum_cons] at htokens
          have hle : size + 1 ≤ tokens.length := by omega
          have hsplit := (List.take_append_drop (size + 1) tokens).symm
          have hlength := List.length_take_of_le hle
          have hcount : tokens.count bosId = (tokens.take (size + 1)).count bosId +
              (tokens.drop (size + 1)).count bosId := by
            rw [← List.count_append, List.take_append_drop]
          have hfit : (tokens.take (size + 1)).count bosId ≤ lengths.length := by omega
          have hown := foldlM_charge (tokens.take (size + 1)) (pointer + 1) (size + 1 : Nat) real
            (size + 1) segments lengths hreal hfit
          obtain ⟨s, hs, hsreal⟩ := ih (front ++ [size + 1])
            (real ++ [size + 1 + imageCost bosId lengths (tokens.take (size + 1))]) (pointer + 1)
            (tokens.drop (size + 1)) (lengths.drop ((tokens.take (size + 1)).count bosId))
            (by rw [hrev, List.append_assoc]; rfl) (by simp [hfront]) (by simp [hreal])
            (by rw [List.length_drop]; omega)
            (by rw [List.length_drop]; omega)
          refine ⟨s, ?_, ?_⟩
          · rw [hsplit, List.foldlM_append]
            cases hfirst : tokens.take (size + 1) with
            | nil =>
                rw [hfirst] at hlength
                cases hlength
            | cons id first =>
                rw [hfirst] at hlength hown
                rw [List.length_cons] at hlength
                rw [foldlM_walkToken_advance hnext, charge_walk_eq id (by
                  intro i hi
                  dsimp only
                  push_cast
                  omega), hown]
                rw [hfirst, List.append_assoc] at hs
                have hsize : ((size + 1 : Nat) : Int) - (id :: first).length = 0 := by
                  rw [List.length_cons]
                  omega
                rw [hsize]
                exact hs
          · rw [hsreal, realFrom, List.append_assoc]
            rfl

/-- The walk over all segments. -/
theorem exists_walk_realAll (size : Nat) (segments : List Nat) (tokens : List Int)
    (lengths : List Nat) (htokens : tokens.length = (size :: segments).sum)
    (hlengths : tokens.count bosId ≤ lengths.length) :
    ∃ s, tokens.foldlM (walkToken bosId (size :: segments))
        ⟨0, size, size :: segments, lengths.reverse⟩ = .ok s ∧
      s.realLengths = realAll bosId (size :: segments) tokens lengths := by
  rw [List.sum_cons] at htokens
  have hle : size ≤ tokens.length := by omega
  have hlength := List.length_take_of_le hle
  have hcount : tokens.count bosId = (tokens.take size).count bosId +
      (tokens.drop size).count bosId := by
    rw [← List.count_append, List.take_append_drop]
  have hfit : (tokens.take size).count bosId ≤ lengths.length := by omega
  have hrest : (tokens.drop size).count bosId ≤
      (lengths.drop ((tokens.take size).count bosId)).length := by
    rw [List.length_drop]
    omega
  have hown := foldlM_charge (tokens.take size) 0 (size : Nat) [] size segments lengths rfl hfit
  obtain ⟨s, hs, hsreal⟩ := exists_walk_realFrom segments [size]
    [size + imageCost bosId lengths (tokens.take size)] 0 (tokens.drop size)
    (lengths.drop ((tokens.take size).count bosId)) rfl rfl rfl
    (by rw [List.length_drop]; omega) hrest
  refine ⟨s, ?_, hsreal⟩
  have hfirst : (tokens.take size).foldlM (walkToken bosId (size :: segments))
      ⟨0, size, size :: segments, lengths.reverse⟩ =
        (tokens.take size).foldlM (charge bosId)
          ⟨0, size, size :: segments, lengths.reverse⟩ := by
    apply foldlM_walkToken_eq_charge
    intro i hi
    dsimp only
    omega
  have hsize : (size : Int) - (tokens.take size).length = 0 := by
    rw [hlength]
    exact Int.sub_self _
  rw [hsize] at hown
  rw [← List.take_append_drop size tokens, List.foldlM_append, hfirst]
  exact (congrArg (· >>= fun s => (tokens.drop size).foldlM (walkToken bosId (size :: segments)) s)
    hown).trans hs

end Walk

end DashInfer.Vision
