import Mathlib
import DashInfer.Lib.Buffer

/-!
Computations that may fail, and loops of them. A loop whose steps each skip or
copy one run is a list of copies, as far as its buffer goes.
-/

namespace DashInfer.Lib

variable {ε α β : Type}

theorem bind_eq_ok_iff {x : Except ε α} {f : α → Except ε β} {b : β} :
    x >>= f = .ok b ↔ ∃ a, x = .ok a ∧ f a = .ok b := by
  cases x with
  | error e =>
      constructor
      · intro h
        cases h
      · rintro ⟨a, ha, -⟩
        cases ha
  | ok a =>
      constructor
      · intro h
        exact ⟨a, rfl, h⟩
      · rintro ⟨a', ha, h⟩
        cases ha
        exact h

/-- What every step keeps holds behind the loop. -/
theorem foldlM_invariant {σ ι : Type} {step : σ → ι → Except ε σ} {Inv : σ → Prop}
    (hstep : ∀ s x s', Inv s → step s x = .ok s' → Inv s') {l : List ι} {s s' : σ} (hs : Inv s)
    (h : l.foldlM step s = .ok s') : Inv s' := by
  induction l generalizing s with
  | nil =>
      cases h
      exact hs
  | cons x rest ih =>
      rw [List.foldlM_cons] at h
      obtain ⟨mid, hmid, hrest⟩ := bind_eq_ok_iff.mp h
      exact ih (hstep s x mid hs hmid) hrest

section Loops

variable {σ ι : Type} {step : σ → ι → Except ε σ} {buf : σ → List α} {Inv : σ → Prop}
  {left : ι → Bool} {Good : ι → Prop} {target : ι → List α × Region} {l : List ι}

/-- A step leaves out what is not left, and otherwise succeeds exactly for a good
item, with the item's copy. -/
structure Copies (step : σ → ι → Except ε σ) (buf : σ → List α) (Inv : σ → Prop)
    (left : ι → Bool) (Good : ι → Prop) (target : ι → List α × Region) (x : ι) : Prop where
  skip : left x = false → ∀ s, step s x = .ok s
  ok : left x = true → ∀ s s', Inv s → step s x = .ok s' →
    Inv s' ∧ Good x ∧ (target x).2.copy (target x).1 (buf s) = some (buf s')
  runs : left x = true → ∀ s out, Inv s → Good x →
    (target x).2.copy (target x).1 (buf s) = some out → ∃ s', step s x = .ok s' ∧ buf s' = out

/-- What holds of the buffer behind the loop holds behind the copies. -/
theorem foldlM_copies_iff (h : ∀ x ∈ l, Copies step buf Inv left Good target x) {s : σ}
    (hs : Inv s) (P : List α → Prop) :
    (∃ s', l.foldlM step s = .ok s' ∧ P (buf s')) ↔
      (∀ x ∈ l.filter left, Good x) ∧
        ∃ out, copyEach (buf s) ((l.filter left).map target) = some out ∧ P out := by
  induction l generalizing s with
  | nil =>
      constructor
      · rintro ⟨s', hs', hP⟩
        cases hs'
        exact ⟨fun x hx => absurd hx List.not_mem_nil, buf s, rfl, hP⟩
      · rintro ⟨-, out, hout, hP⟩
        cases hout
        exact ⟨s, rfl, hP⟩
  | cons x rest ih =>
      have hx := h x List.mem_cons_self
      have hrest : ∀ y ∈ rest, Copies step buf Inv left Good target y :=
        fun y hy => h y (List.mem_cons_of_mem _ hy)
      rw [List.foldlM_cons]
      cases hleft : left x with
      | false =>
          rw [List.filter_cons_of_neg (by simp [hleft]), hx.skip hleft s]
          exact ih hrest hs
      | true =>
          rw [List.filter_cons_of_pos hleft, List.map_cons, copyEach_cons]
          constructor
          · rintro ⟨s', hs', hP⟩
            obtain ⟨mid, hmid, hloop⟩ := bind_eq_ok_iff.mp hs'
            obtain ⟨hinv, hgood, hcopy⟩ := hx.ok hleft s mid hs hmid
            obtain ⟨hgoods, out, hout, hPout⟩ := (ih hrest hinv).mp ⟨s', hloop, hP⟩
            refine ⟨?_, out, ?_, hPout⟩
            · intro y hy
              rcases List.mem_cons.mp hy with rfl | hy
              · exact hgood
              · exact hgoods y hy
            · rw [hcopy]
              exact hout
          · rintro ⟨hgoods, out, hout, hP⟩
            obtain ⟨mid, hmid, hcopies⟩ := Option.bind_eq_some_iff.mp hout
            obtain ⟨s', hs', rfl⟩ := hx.runs hleft s mid hs (hgoods x List.mem_cons_self) hmid
            have hinv := (hx.ok hleft s s' hs hs').1
            obtain ⟨last, hlast, hPlast⟩ := (ih hrest hinv).mpr
              ⟨fun y hy => hgoods y (List.mem_cons_of_mem _ hy), out, hcopies, hP⟩
            exact ⟨last, bind_eq_ok_iff.mpr ⟨s', hs', hlast⟩, hPlast⟩

end Loops

/-!
Lists related element by element, and the traversals of a list that may fail.
-/

section Traversals

variable {R : α → β → Prop} {xs : List α} {ys : List β}

theorem exists_right_of_forall₂ (h : List.Forall₂ R xs ys) {a : α} (ha : a ∈ xs) :
    ∃ b ∈ ys, R a b := by
  induction h with
  | nil => cases ha
  | cons hab _ ih =>
      rcases List.mem_cons.mp ha with rfl | hrest
      · exact ⟨_, List.mem_cons_self, hab⟩
      · obtain ⟨b, hb, hrel⟩ := ih hrest
        exact ⟨b, List.mem_cons_of_mem _ hb, hrel⟩

theorem exists_left_of_forall₂ (h : List.Forall₂ R xs ys) {b : β} (hb : b ∈ ys) :
    ∃ a ∈ xs, R a b := by
  induction h with
  | nil => cases hb
  | cons hab _ ih =>
      rcases List.mem_cons.mp hb with rfl | hrest
      · exact ⟨_, List.mem_cons_self, hab⟩
      · obtain ⟨a, ha, hrel⟩ := ih hrest
        exact ⟨a, List.mem_cons_of_mem _ ha, hrel⟩

/-- A traversal that succeeds maps element by element. -/
theorem mapM_eq_some_iff {f : α → Option β} :
    xs.mapM f = some ys ↔ List.Forall₂ (fun a b => f a = some b) xs ys := by
  induction xs generalizing ys with
  | nil => simp [eq_comm]
  | cons a rest ih =>
      rw [List.mapM_cons, List.forall₂_cons_left_iff]
      simp only [Option.pure_def, Option.bind_eq_bind, Option.bind_eq_some_iff, ih]
      constructor
      · rintro ⟨b, hb, bs, hbs, h⟩
        exact ⟨b, bs, hb, hbs, (Option.some.inj h).symm⟩
      · rintro ⟨b, bs, hb, hbs, rfl⟩
        exact ⟨b, hb, bs, hbs, rfl⟩

theorem mapM_eq_ok_iff {f : α → Except ε β} :
    xs.mapM f = .ok ys ↔ List.Forall₂ (fun a b => f a = .ok b) xs ys := by
  induction xs generalizing ys with
  | nil =>
      rw [List.mapM_nil, List.forall₂_nil_left_iff]
      constructor
      · intro h
        cases h
        rfl
      · rintro rfl
        rfl
  | cons a rest ih =>
      rw [List.mapM_cons, List.forall₂_cons_left_iff]
      simp only [bind_eq_ok_iff, ih]
      constructor
      · rintro ⟨b, hb, bs, hbs, h⟩
        cases h
        exact ⟨b, bs, hb, hbs, rfl⟩
      · rintro ⟨b, bs, hb, hbs, rfl⟩
        exact ⟨b, hb, bs, hbs, rfl⟩

/-- A traversal by a function that never fails is a map. -/
theorem mapM_eq_some {f : α → Option β} {g : α → β} (h : ∀ a ∈ xs, f a = some (g a)) :
    xs.mapM f = some (xs.map g) := by
  rw [mapM_eq_some_iff, List.forall₂_map_right_iff, List.forall₂_same]
  exact h

theorem mapM_congr {f g : α → Option β} (h : ∀ a ∈ xs, f a = g a) : xs.mapM f = xs.mapM g := by
  induction xs with
  | nil => rfl
  | cons a rest ih =>
      rw [List.forall_mem_cons] at h
      rw [List.mapM_cons, List.mapM_cons, h.1, ih h.2]

/-- Two traversals with one result agree on every element. -/
theorem eq_of_mapM_eq_some {f g : α → Option β} (hf : xs.mapM f = some ys)
    (hg : xs.mapM g = some ys) : ∀ a ∈ xs, f a = g a := by
  rw [mapM_eq_some_iff] at hf hg
  induction hf with
  | nil => simp
  | cons hab _ ih =>
      rw [List.forall₂_cons] at hg
      exact List.forall_mem_cons.mpr ⟨hab.trans hg.1.symm, ih hg.2⟩

end Traversals

end DashInfer.Lib
