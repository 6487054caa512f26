import DashInfer.Lib.Program

/-!
`PrefixCacheCoordinator::waitForOtherWorkers`: the barrier the workers of one
model share. A waiting worker returns once it holds the lock and finds the
count at zero, and it may be woken without reason. A step is what one worker
does under the lock; the number of its calls is kept as a ghost.
-/

namespace DashInfer.Sync

open Lib

inductive Phase where
  | outside
  /-- Inside `wait`, asleep. -/
  | waiting
  /-- Inside `wait`, woken and about to test the predicate. -/
  | woken
deriving DecidableEq, Repr

structure Coordinator (n : Nat) where
  workerCount : Nat
  phase : Fin n → Phase
  /-- Ghost: the calls each worker has entered, and those it returned from. -/
  entered : Fin n → Nat
  returned : Fin n → Nat

inductive BarrierStep (n : Nat) where
  /-- A worker calls `waitForOtherWorkers`. -/
  | enter (w : Fin n)
  /-- A woken worker tests `worker_count == 0`. -/
  | test (w : Fin n)
  /-- A sleeping worker wakes up without having been notified. -/
  | wake (w : Fin n)

namespace Coordinator

variable {n : Nat}

def init (n : Nat) : Coordinator n :=
  { workerCount := 0, phase := fun _ => .outside, entered := fun _ => 0, returned := fun _ => 0 }

/-- `notify_all`. -/
def notifyAll (phase : Fin n → Phase) : Fin n → Phase :=
  fun w => if phase w = .waiting then .woken else phase w

/-- The call up to the point where the worker returns or falls asleep. -/
def waitForOtherWorkers (c : Coordinator n) (w : Fin n) : Coordinator n :=
  let c := { c with
    workerCount := c.workerCount + 1
    entered := Function.update c.entered w (c.entered w + 1) }
  if c.workerCount = n then
    { c with
      workerCount := 0
      phase := notifyAll c.phase
      returned := Function.update c.returned w (c.returned w + 1) }
  else { c with phase := Function.update c.phase w .waiting }

/-- The predicate of `wait`, tested under the lock. -/
def testPredicate (c : Coordinator n) (w : Fin n) : Coordinator n :=
  if c.workerCount = 0 then
    { c with
      phase := Function.update c.phase w .outside
      returned := Function.update c.returned w (c.returned w + 1) }
  else { c with phase := Function.update c.phase w .waiting }

def next (c : Coordinator n) : BarrierStep n → Option (Coordinator n)
  | .enter w => if c.phase w = .outside then some (c.waitForOtherWorkers w) else none
  | .test w => if c.phase w = .woken then some (c.testPredicate w) else none
  | .wake w =>
      if c.phase w = .waiting then some { c with phase := Function.update c.phase w .woken }
      else none

/-- A worker enters only while no worker of a completed round is still
inside. -/
def Drained (c : Coordinator n) : BarrierStep n → Prop
  | .enter _ => c.workerCount ≠ 0 ∨ ∀ v, c.phase v = .outside
  | _ => True

/-- The states of all runs whose steps pass the guard. -/
def Reaches (guard : Coordinator n → BarrierStep n → Prop) : Coordinator n → Prop :=
  Reach (· = init n) guard (fun step c c' => c.next step = some c')

/-- No worker returned from a call that another one has not entered yet. -/
def InStep (c : Coordinator n) : Prop := ∀ w v, c.returned w ≤ c.entered v

/-- Every worker is inside and finds the predicate false. -/
def AllBlocked (c : Coordinator n) : Prop :=
  c.workerCount ≠ 0 ∧ ∀ w, c.phase w ≠ .outside

/-- The workers that have arrived in round `k`. -/
def arrived (c : Coordinator n) (k : Nat) : Finset (Fin n) :=
  Finset.univ.filter (fun w => c.entered w = k + 1)

/-- The barrier after `rounds` completed rounds: a worker is a call ahead or
not, and the count is that of the workers ahead. -/
structure RoundInv (c : Coordinator n) (rounds : Nat) : Prop where
  count : c.workerCount = (c.arrived rounds).card
  open_ : c.workerCount = 0 ∨ c.workerCount < n
  near : ∀ w, c.entered w = rounds ∨ c.entered w = rounds + 1
  outside : ∀ w, c.phase w = .outside → c.entered w = rounds ∧ c.returned w = rounds
  inside : ∀ w, c.phase w ≠ .outside → c.entered w = c.returned w + 1

/-- Whoever is inside while a round collects its workers has arrived in it. -/
def NoneLate (c : Coordinator n) (rounds : Nat) : Prop :=
  c.workerCount ≠ 0 → ∀ w, c.phase w ≠ .outside → c.entered w = rounds + 1

variable {c c' : Coordinator n} {rounds : Nat} {w : Fin n}

private theorem mem_arrived : w ∈ c.arrived rounds ↔ c.entered w = rounds + 1 := by
  simp [arrived]

private theorem roundInv_init (n : Nat) : RoundInv (init n) 0 where
  count := by simp [init, arrived]
  open_ := Or.inl rfl
  near _ := Or.inl rfl
  outside _ _ := ⟨rfl, rfl⟩
  inside _ h := absurd rfl h

/-- The phases of inside workers change; who is inside does not. -/
private theorem RoundInv.rephase (h : RoundInv c rounds) {phase : Fin n → Phase}
    (hphase : ∀ v, phase v = .outside ↔ c.phase v = .outside) :
    RoundInv { c with phase } rounds where
  count := h.count
  open_ := h.open_
  near := h.near
  outside v hv := h.outside v ((hphase v).mp hv)
  inside v hv := h.inside v (fun hout => hv ((hphase v).mpr hout))

private theorem update_phase_iff {phase : Fin n → Phase} {after : Phase} (hw : phase w ≠ .outside)
    (hafter : after ≠ .outside) (v : Fin n) :
    Function.update phase w after v = .outside ↔ phase v = .outside := by
  by_cases hv : v = w
  · subst hv
    simp [hw, hafter]
  · rw [Function.update_of_ne hv]

private theorem notifyAll_iff (phase : Fin n → Phase) (v : Fin n) :
    notifyAll phase v = .outside ↔ phase v = .outside := by
  unfold notifyAll
  split
  · next h => simp [h]
  · exact Iff.rfl

private theorem waitForOtherWorkers_entered (c : Coordinator n) (w : Fin n) :
    (c.waitForOtherWorkers w).entered = Function.update c.entered w (c.entered w + 1) := by
  unfold waitForOtherWorkers
  dsimp only
  split <;> rfl

private theorem waitForOtherWorkers_phase {v : Fin n} (hv : v ≠ w) :
    (c.waitForOtherWorkers w).phase v = .outside ↔ c.phase v = .outside := by
  unfold waitForOtherWorkers
  dsimp only
  split
  · exact notifyAll_iff c.phase v
  · simp [hv]

/-- One more worker has arrived. -/
private theorem card_arrived_enter (h : RoundInv c rounds) (hw : c.phase w = .outside) :
    (Finset.univ.filter (fun v => Function.update c.entered w (c.entered w + 1) v =
      rounds + 1)).card = c.workerCount + 1 := by
  have hentered := (h.outside w hw).1
  have hset : Finset.univ.filter (fun v => Function.update c.entered w (c.entered w + 1) v =
      rounds + 1) = insert w (c.arrived rounds) := by
    ext v
    by_cases hv : v = w
    · subst hv
      simp [hentered]
    · simp [hv, arrived]
  have hnot : w ∉ c.arrived rounds := by
    rw [mem_arrived]
    omega
  rw [hset, Finset.card_insert_of_notMem hnot, h.count]

private theorem RoundInv.enter (h : RoundInv c rounds) (hw : c.phase w = .outside) :
    RoundInv (c.waitForOtherWorkers w) rounds ∨
      RoundInv (c.waitForOtherWorkers w) (rounds + 1) ∧
        (c.waitForOtherWorkers w).workerCount = 0 := by
  obtain ⟨hentered, hreturned⟩ := h.outside w hw
  have hcard := card_arrived_enter h hw
  have hother : ∀ v, v ≠ w →
      Function.update c.entered w (c.entered w + 1) v = c.entered v :=
    fun v hv => Function.update_of_ne hv _ _
  have hother' : ∀ v, v ≠ w →
      Function.update c.returned w (c.returned w + 1) v = c.returned v :=
    fun v hv => Function.update_of_ne hv _ _
  unfold waitForOtherWorkers
  dsimp only
  split
  · next hlast =>
      -- the last worker of the round: everyone has entered it
      have hall : ∀ v, Function.update c.entered w (c.entered w + 1) v = rounds + 1 := by
        have huniv := Finset.eq_univ_of_card _ (hcard.trans (hlast.trans (Fintype.card_fin n).symm))
        intro v
        have hv := Finset.mem_univ v
        rw [← huniv] at hv
        exact (Finset.mem_filter.mp hv).2
      refine Or.inr ⟨?_, rfl⟩
      refine
        { count := ?_
          open_ := Or.inl rfl
          near := fun v => Or.inl (hall v)
          outside := ?_
          inside := ?_ }
      · simp [arrived, hall]
      · intro v hv
        refine ⟨hall v, ?_⟩
        by_cases hvw : v = w
        · subst hvw
          simp [hreturned]
        · have hout := (h.outside v ((notifyAll_iff c.phase v).mp hv)).1
          have hin := hall v
          rw [hother v hvw] at hin
          omega
      · intro v hv
        have hphase : c.phase v ≠ .outside := fun hout => hv ((notifyAll_iff c.phase v).mpr hout)
        have hvw : v ≠ w := by
          rintro rfl
          exact hphase hw
        change Function.update c.entered w _ v = Function.update c.returned w _ v + 1
        rw [hother v hvw, hother' v hvw]
        exact h.inside v hphase
  · next hnot =>
      refine Or.inl
        { count := hcard.symm
          open_ := ?_
          near := ?_
          outside := ?_
          inside := ?_ }
      · have hpos := w.isLt
        have hopen := h.open_
        change c.workerCount + 1 = 0 ∨ c.workerCount + 1 < n
        omega
      · intro v
        by_cases hvw : v = w
        · subst hvw
          right
          simp [hentered]
        · change Function.update c.entered w _ v = _ ∨ Function.update c.entered w _ v = _
          rw [hother v hvw]
          exact h.near v
      · intro v hv
        have hvw : v ≠ w := by
          rintro rfl
          simp at hv
        change Function.update c.phase w _ v = _ at hv
        rw [Function.update_of_ne hvw] at hv
        change Function.update c.entered w _ v = _ ∧ _
        rw [hother v hvw]
        exact h.outside v hv
      · intro v hv
        change Function.update c.entered w _ v = c.returned v + 1
        by_cases hvw : v = w
        · subst hvw
          simp [hentered, hreturned]
        · change Function.update c.phase w _ v ≠ _ at hv
          rw [Function.update_of_ne hvw] at hv
          rw [hother v hvw]
          exact h.inside v hv

private theorem RoundInv.test (h : RoundInv c rounds) (hw : c.phase w = .woken) :
    RoundInv (c.testPredicate w) rounds := by
  have hin : c.phase w ≠ .outside := by simp [hw]
  unfold testPredicate
  split
  · next hzero =>
      have hnone : c.arrived rounds = ∅ := Finset.card_eq_zero.mp (h.count.symm.trans hzero)
      have hentered : c.entered w = rounds := by
        refine (h.near w).resolve_right ?_
        rw [← mem_arrived, hnone]
        simp
      have hreturned := h.inside w hin
      refine
        { count := h.count
          open_ := h.open_
          near := h.near
          outside := ?_
          inside := ?_ }
      · intro v hv
        by_cases hvw : v = w
        · subst hvw
          refine ⟨hentered, ?_⟩
          change Function.update c.returned v _ v = rounds
          rw [Function.update_self]
          omega
        · change Function.update c.phase w _ v = _ at hv
          rw [Function.update_of_ne hvw] at hv
          change _ ∧ Function.update c.returned w _ v = rounds
          rw [Function.update_of_ne hvw]
          exact h.outside v hv
      · intro v hv
        have hvw : v ≠ w := by
          rintro rfl
          simp at hv
        change Function.update c.phase w _ v ≠ _ at hv
        rw [Function.update_of_ne hvw] at hv
        change _ = Function.update c.returned w _ v + 1
        rw [Function.update_of_ne hvw]
        exact h.inside v hv
  · exact h.rephase (update_phase_iff hin (by decide))

/-- What a step of a worker leaves, and how many rounds are then complete. -/
private theorem RoundInv.step (h : RoundInv c rounds) {step : BarrierStep n}
    (hstep : c.next step = some c') :
    ∃ rounds', RoundInv c' rounds' ∧
      (NoneLate c rounds → c.Drained step → NoneLate c' rounds') := by
  cases step with
  | enter w =>
      simp only [next] at hstep
      split at hstep
      · next hw =>
          cases hstep
          rcases h.enter hw with henter | ⟨henter, hzero⟩
          · refine ⟨rounds, henter, ?_⟩
            intro hlate hdrained _ v hv
            have hentered := (h.outside w hw).1
            rw [waitForOtherWorkers_entered]
            by_cases hvw : v = w
            · subst hvw
              simp [hentered]
            · rw [Ne, waitForOtherWorkers_phase hvw] at hv
              rw [Function.update_of_ne hvw]
              rcases hdrained with hcount | hnobody
              · exact hlate hcount v hv
              · exact absurd (hnobody v) hv
          · exact ⟨rounds + 1, henter, fun _ _ hcount => absurd hzero hcount⟩
      · cases hstep
  | test w =>
      simp only [next] at hstep
      split at hstep
      · next hw =>
          cases hstep
          refine ⟨rounds, h.test hw, ?_⟩
          intro hlate _ hcount v hv
          unfold testPredicate at hcount hv ⊢
          split at hcount
          · next hzero => exact absurd hzero hcount
          · next hne =>
              rw [if_neg hne] at hv ⊢
              refine hlate hne v ?_
              intro hout
              exact hv ((update_phase_iff (by simp [hw]) (by decide) v).mpr hout)
      · cases hstep
  | wake w =>
      simp only [next] at hstep
      split at hstep
      · next hw =>
          cases hstep
          have hin : c.phase w ≠ .outside := by simp [hw]
          refine ⟨rounds, h.rephase (update_phase_iff hin (by decide)), ?_⟩
          intro hlate _ hcount v hv
          refine hlate hcount v ?_
          intro hout
          exact hv ((update_phase_iff hin (by decide) v).mpr hout)
      · cases hstep

private theorem RoundInv.inStep (h : RoundInv c rounds) : c.InStep := by
  intro w v
  have hv := h.near v
  by_cases hw : c.phase w = .outside
  · have hreturned := (h.outside w hw).2
    omega
  · have hreturned := h.inside w hw
    have hw' := h.near w
    omega

/-- With nobody late, someone is still outside while a round collects. -/
private theorem RoundInv.not_allBlocked (h : RoundInv c rounds) (hlate : NoneLate c rounds) :
    ¬ c.AllBlocked := by
  rintro ⟨hcount, hall⟩
  have huniv : c.arrived rounds = Finset.univ := by
    ext w
    simp [mem_arrived, hlate hcount w (hall w)]
  have hcard := h.count
  rw [huniv, Finset.card_univ, Fintype.card_fin] at hcard
  have hopen := h.open_
  omega

/-- No worker ever returns early, whatever the order of the calls. -/
theorem inStep_of_reaches {guard : Coordinator n → BarrierStep n → Prop}
    (hreach : Reaches guard c) : c.InStep := by
  have hinv : ∃ rounds, RoundInv c rounds := by
    refine hreach.invariant (I := fun c => ∃ rounds, RoundInv c rounds) ?_ ?_
    · rintro _ rfl
      exact ⟨0, roundInv_init n⟩
    · rintro s t step ⟨rounds, h⟩ _ hstep
      obtain ⟨rounds', h', _⟩ := h.step hstep
      exact ⟨rounds', h'⟩
  obtain ⟨rounds, h⟩ := hinv
  exact h.inStep

/-- If workers enter only while nobody of a completed round is still inside,
no worker returns early and the workers are never all blocked. -/
theorem barrier_of_drained (n : Nat) (c : Coordinator n) (hreach : Reaches Drained c) :
    c.InStep ∧ ¬ c.AllBlocked := by
  have hinv : ∃ rounds, RoundInv c rounds ∧ NoneLate c rounds := by
    refine hreach.invariant (I := fun c => ∃ rounds, RoundInv c rounds ∧ NoneLate c rounds)
      ?_ ?_
    · rintro _ rfl
      exact ⟨0, roundInv_init n, fun hcount => absurd rfl hcount⟩
    · rintro s t step ⟨rounds, h, hlate⟩ hdrained hstep
      obtain ⟨rounds', h', hlate'⟩ := h.step hstep
      exact ⟨rounds', h', hlate' hlate hdrained⟩
  obtain ⟨rounds, h, hlate⟩ := hinv
  exact ⟨inStep_of_reaches hreach, h.not_allBlocked hlate⟩

/-- Two workers that meet once and come back for a second round. -/
theorem two_workers_in_step :
    ∃ c : Coordinator 2, c.entered 1 = 2 ∧ c.returned 0 = 1 ∧ Reaches Drained c ∧
      c.InStep ∧ ¬ c.AllBlocked := by
  have h₀ : Reaches Drained (init 2) := Reach.init rfl
  have h₁ := Reach.step (a := BarrierStep.enter 0) h₀ (Or.inr (by decide)) rfl
  have h₂ := Reach.step (a := BarrierStep.enter 1) h₁ (Or.inl (by decide)) rfl
  have h₃ := Reach.step (a := BarrierStep.test 0) h₂ trivial rfl
  have h₄ := Reach.step (a := BarrierStep.enter 1) h₃ (Or.inr (by decide)) rfl
  exact ⟨_, by decide, by decide, h₄, barrier_of_drained 2 _ h₄⟩

/-- Two workers: the second one comes back for its second call before the
first has left its first, and both sleep for good. -/
theorem two_workers_blocked :
    ¬ ∀ (n : Nat) (c : Coordinator n), Reaches (fun _ _ => True) c →
      c.InStep ∧ ¬ c.AllBlocked := by
  intro hall
  have h₀ : Reaches (fun _ _ => True) (init 2) := Reach.init rfl
  have h₁ := Reach.step (a := BarrierStep.enter 0) h₀ trivial rfl
  have h₂ := Reach.step (a := BarrierStep.enter 1) h₁ trivial rfl
  have h₃ := Reach.step (a := BarrierStep.enter 1) h₂ trivial rfl
  have h₄ := Reach.step (a := BarrierStep.test 0) h₃ trivial rfl
  refine (hall 2 _ h₄).2 ⟨by decide, by decide⟩

end Coordinator

end DashInfer.Sync
