import Mathlib.Tactic

/-!
Programs over a mutable state that may stop with a fault, and runs of a
labelled transition system. A fault keeps the state reached so far, as an
exception does in the programs modelled with it: nothing is rolled back.
`Post` is the pre/postcondition layer; its lemmas follow the shape of the
program text, so that a proof about a program reads like the program.
-/

namespace DashInfer.Lib

open EStateM (Result)

variable {ε σ α β : Type}

/-- Run from `s`, the program returns a value and state of which `Q` holds, or
stops with a fault and a state of which `X` holds. -/
def Post (x : EStateM ε σ α) (s : σ) (Q : α → σ → Prop) (X : ε → σ → Prop) : Prop :=
  match x.run s with
  | .ok a t => Q a t
  | .error e t => X e t

/-- The state a program ends in, whichever way it ends. -/
def finalState : Result ε σ α → σ
  | .ok _ s => s
  | .error _ s => s

/-- The test that a program returned, in a state that passes `p`. -/
def returnsIn (p : σ → Bool) : Result ε σ α → Bool
  | .ok _ t => p t
  | .error _ _ => false

/-- The test that a program returned a value that passes `p`. -/
def yields (p : α → Bool) : Result ε σ α → Bool
  | .ok a _ => p a
  | .error _ _ => false

/-- The test that a program stopped with the given fault. -/
def faultsWith [DecidableEq ε] (fault : ε) : Result ε σ α → Bool
  | .ok _ _ => false
  | .error e _ => e = fault

/-- The loop over a list, in order, stopping at the first fault. -/
def forEach (f : α → EStateM ε σ Unit) : List α → EStateM ε σ Unit
  | [] => pure ()
  | a :: rest => do
      f a
      forEach f rest

/-- The loop over a list with an accumulator. -/
def foldEach (f : β → α → EStateM ε σ β) : β → List α → EStateM ε σ β
  | b, [] => pure b
  | b, a :: rest => do
      let b ← f b a
      foldEach f b rest

/-- A list cut into pieces of at most `n` elements; `fuel` bounds the number
of pieces. -/
def slices (n : Nat) : Nat → List α → List (List α)
  | 0, _ => []
  | _ + 1, [] => []
  | fuel + 1, a :: rest => (a :: rest).take n :: slices n fuel ((a :: rest).drop n)

section Rules

variable {Q R : α → σ → Prop} {X Y : ε → σ → Prop}

@[simp] theorem post_pure (a : α) (s : σ) :
    Post (pure a : EStateM ε σ α) s Q X ↔ Q a s := Iff.rfl

@[simp] theorem post_throw (e : ε) (s : σ) :
    Post (throw e : EStateM ε σ α) s Q X ↔ X e s := Iff.rfl

@[simp] theorem post_get (s : σ) (Q : σ → σ → Prop) :
    Post (get : EStateM ε σ σ) s Q X ↔ Q s s := Iff.rfl

@[simp] theorem post_modify (f : σ → σ) (s : σ) (Q : PUnit → σ → Prop) :
    Post (modify f : EStateM ε σ PUnit) s Q X ↔ Q ⟨⟩ (f s) := Iff.rfl

/-- Sequencing: what follows is judged in the state the first part returns. -/
@[simp] theorem post_bind (x : EStateM ε σ β) (f : β → EStateM ε σ α) (s : σ) :
    Post (x >>= f) s Q X ↔ Post x s (fun b t => Post (f b) t Q X) X := by
  unfold Post
  rw [EStateM.run_bind]
  cases x.run s <;> exact Iff.rfl

theorem Post.imp {x : EStateM ε σ α} {s : σ} (h : Post x s Q X)
    (hQ : ∀ a t, Q a t → R a t) (hX : ∀ e t, X e t → Y e t) : Post x s R Y := by
  unfold Post at h ⊢
  cases hrun : x.run s with
  | ok a t =>
      rw [hrun] at h
      exact hQ a t h
  | error e t =>
      rw [hrun] at h
      exact hX e t h

theorem Post.and {x : EStateM ε σ α} {s : σ} (h : Post x s Q X) (h' : Post x s R Y) :
    Post x s (fun a t => Q a t ∧ R a t) (fun e t => X e t ∧ Y e t) := by
  unfold Post at h h' ⊢
  cases hrun : x.run s with
  | ok a t =>
      rw [hrun] at h h'
      exact ⟨h, h'⟩
  | error e t =>
      rw [hrun] at h h'
      exact ⟨h, h'⟩

/-- A condition known of both outcomes holds of the final state. -/
theorem Post.final {x : EStateM ε σ α} {s : σ} {I : σ → Prop}
    (h : Post x s (fun _ => I) (fun _ => I)) : I (finalState (x.run s)) := by
  unfold Post at h
  cases hrun : x.run s with
  | ok a t =>
      rw [hrun] at h
      exact h
  | error e t =>
      rw [hrun] at h
      exact h

theorem Post.of_ok {x : EStateM ε σ α} {s t : σ} {a : α} (h : Post x s Q X)
    (hrun : x.run s = .ok a t) : Q a t := by
  unfold Post at h
  rw [hrun] at h
  exact h

theorem Post.of_error {x : EStateM ε σ α} {s t : σ} {e : ε} (h : Post x s Q X)
    (hrun : x.run s = .error e t) : X e t := by
  unfold Post at h
  rw [hrun] at h
  exact h

theorem exists_ok {x : EStateM ε σ α} {s : σ} {p : σ → Bool}
    (h : returnsIn p (x.run s) = true) : ∃ a t, x.run s = .ok a t ∧ p t = true := by
  cases hrun : x.run s with
  | ok a t =>
      rw [hrun] at h
      exact ⟨a, t, rfl, h⟩
  | error e t =>
      rw [hrun] at h
      cases h

theorem exists_value {x : EStateM ε σ α} {s : σ} {p : α → Bool}
    (h : yields p (x.run s) = true) : ∃ a t, x.run s = .ok a t ∧ p a = true := by
  cases hrun : x.run s with
  | ok a t =>
      rw [hrun] at h
      exact ⟨a, t, rfl, h⟩
  | error e t =>
      rw [hrun] at h
      cases h

theorem exists_error [DecidableEq ε] {x : EStateM ε σ α} {s : σ} {fault : ε}
    (h : faultsWith fault (x.run s) = true) : ∃ t, x.run s = .error fault t := by
  cases hrun : x.run s with
  | ok a t =>
      rw [hrun] at h
      cases h
  | error e t =>
      rw [hrun] at h
      rw [of_decide_eq_true h]
      exact ⟨t, rfl⟩

/-- The loop rule, with an invariant over the elements still to come; `X` is
what the body's faults leave. -/
theorem post_forEach {I : List β → σ → Prop} (f : β → EStateM ε σ Unit) (xs : List β)
    (hbody : ∀ b rest s, I (b :: rest) s → Post (f b) s (fun _ => I rest) X)
    (s : σ) (hs : I xs s) : Post (forEach f xs) s (fun _ => I []) X := by
  induction xs generalizing s with
  | nil => exact hs
  | cons b rest ih =>
      rw [forEach, post_bind]
      refine (hbody b rest s hs).imp ?_ (fun _ _ h => h)
      intro _ t ht
      exact ih t ht

end Rules

/-- The states reached from an initial state by steps whose label passes the
guard in the state the step starts from. -/
inductive Reach {lbl : Type} (init : σ → Prop) (guard : σ → lbl → Prop)
    (step : lbl → σ → σ → Prop) : σ → Prop where
  | init {s} : init s → Reach init guard step s
  | step {s t a} : Reach init guard step s → guard s a → step a s t →
      Reach init guard step t

section Runs

variable {lbl : Type} {init : σ → Prop} {guard guard' : σ → lbl → Prop}
  {step : lbl → σ → σ → Prop}

/-- An invariant of the initial states kept by every guarded step holds in
every state reached. -/
theorem Reach.invariant {I : σ → Prop} (hinit : ∀ s, init s → I s)
    (hstep : ∀ s t a, I s → guard s a → step a s t → I t) {s : σ}
    (hreach : Reach init guard step s) : I s := by
  induction hreach with
  | init h => exact hinit _ h
  | step _ hg hs ih => exact hstep _ _ _ ih hg hs

/-- A run under a stronger guard is a run under the weaker one. -/
theorem Reach.weaken (hguard : ∀ s a, guard s a → guard' s a) {s : σ}
    (hreach : Reach init guard step s) : Reach init guard' step s := by
  induction hreach with
  | init h => exact .init h
  | step _ hg hs ih => exact .step ih (hguard _ _ hg) hs

end Runs

/-!
Programs that move the state along a relation, wherever they start and however
they end. When the relation is a preorder the property is closed under the
ways in which programs are put together, so that a frame condition of a large
program follows its text.
-/

section Moving

variable {R : σ → σ → Prop}

/-- From every state, the program ends in a state related to it. -/
def Moves (R : σ → σ → Prop) (x : EStateM ε σ α) : Prop :=
  ∀ s, Post x s (fun _ t => R s t) (fun _ t => R s t)

theorem moves_pure [Std.Refl R] (a : α) : Moves R (pure a : EStateM ε σ α) :=
  fun s => refl_of R s

theorem moves_throw [Std.Refl R] (e : ε) : Moves R (throw e : EStateM ε σ α) :=
  fun s => refl_of R s

theorem moves_modify {f : σ → σ} (h : ∀ s, R s (f s)) :
    Moves R (modify f : EStateM ε σ PUnit) := h

theorem moves_get_bind {f : σ → EStateM ε σ α} (h : ∀ s, Moves R (f s)) :
    Moves R (get >>= f) := by
  intro s
  rw [post_bind]
  exact h s s

variable [IsTrans σ R]

theorem Moves.bind {x : EStateM ε σ β} {f : β → EStateM ε σ α} (hx : Moves R x)
    (hf : ∀ b, Moves R (f b)) : Moves R (x >>= f) := by
  intro s
  rw [post_bind]
  apply (hx s).imp _ (fun _ _ h => h)
  intro b t hst
  exact (hf b t).imp (fun _ _ h => trans_of R hst h) (fun _ _ h => trans_of R hst h)

variable [Std.Refl R]

theorem moves_forEach {f : α → EStateM ε σ Unit} (hf : ∀ a, Moves R (f a)) (l : List α) :
    Moves R (forEach f l) := by
  induction l with
  | nil => exact moves_pure ()
  | cons a rest ih => exact (hf a).bind (fun _ => ih)

theorem moves_foldEach {f : β → α → EStateM ε σ β} (hf : ∀ b a, Moves R (f b a)) (b : β)
    (l : List α) : Moves R (foldEach f b l) := by
  induction l generalizing b with
  | nil => exact moves_pure b
  | cons a rest ih => exact (hf b a).bind ih

end Moving

end DashInfer.Lib
