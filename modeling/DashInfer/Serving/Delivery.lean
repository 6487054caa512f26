import DashInfer.Serving.Soundness
import Mathlib.Data.List.GetD

/-!
What the result queue of a request receives: the tokens generated for the
request, each once and in order, in every run in which no step leaves a request
with an output tensor that does not show what was generated.
-/

namespace DashInfer.Serving

open Lib

/-- The output tensor holds the prompt and the tokens generated so far. -/
structure Request.Shows (r : Request) : Prop where
  length : r.outputs.length = r.inputLen + r.generated.length
  data : ∀ i < r.outputs.length, r.outputs.data i = (r.content.inputIds ++ r.generated).getD i 0

/-- The occurrences after which the output tensor of a request shows what was
generated, or is not read. -/
def Occurrence.keepsOutput : Occurrence → Bool
  | .dropped shown => !shown
  | .loraMissing | .halted | .failed | .stuck | .scribbled => false
  | _ => true

/-- What is read of the output tensor of a request was generated for it. -/
structure Standing.Readable (a : Standing) : Prop where
  fresh : a.Fresh
  running : ∀ step, a.place = .running step →
    a.request.Shows ∧ step + 1 = a.request.inputLen + a.request.generated.length
  gone : a.place = .gone →
    a.request.status = .init ∨ a.request.status = .generateInterrupted ∨
      a.request.outputs.length ≤ a.request.inputLen ∨ a.request.Shows

theorem Request.shows_withFirst {r : Request} (hnone : r.generated = []) (token : Int) :
    (r.withFirst token).Shows := by
  constructor
  · simp [withFirst, hnone, inputLen]
  · intro i hi
    have hlen : i < (r.content.inputIds ++ [token]).length := by
      simpa [withFirst, inputLen] using hi
    simp only [withFirst, hnone, List.nil_append]
    rw [List.getD_eq_getElem _ _ hlen, List.getD_eq_getElem _ _ hlen]

theorem Request.Shows.withNext {r : Request} (h : r.Shows) {step : Nat}
    (hstep : step + 1 = r.inputLen + r.generated.length) (token : Int) :
    (r.withNext (step + 1) token).Shows := by
  have hall : (r.content.inputIds ++ r.generated).length = step + 1 := by
    rw [List.length_append, hstep, inputLen]
  constructor
  · simp only [Request.withNext, List.length_append, List.length_singleton]
    rw [← Nat.add_assoc]
    exact congrArg (· + 1) hstep
  · intro i hi
    simp only [Request.withNext] at hi ⊢
    rw [← List.append_assoc]
    rcases Nat.lt_or_eq_of_le (Nat.le_of_lt_succ hi) with hlt | rfl
    · rw [Function.update_of_ne (Nat.ne_of_lt hlt), List.getD_append _ _ _ _ (by omega),
        h.data i (by rw [h.length]; omega)]
    · rw [Function.update_self, List.getD_append_right _ _ _ _ (by omega), hall, Nat.sub_self,
        List.getD_cons_zero]

theorem Move.readable {o : Occurrence} {a b : Standing} (hmove : Move o a b)
    (hkeeps : o.keepsOutput = true) (h : a.Readable) : b.Readable := by
  have hfresh := hmove.fresh h.fresh
  cases hmove with
  | prefilled r p n =>
      refine ⟨hfresh, fun step hplace => ?_, fun hplace => ?_⟩
      · obtain ⟨⟨hlength, hdata⟩, hstep⟩ := h.running step hplace
        exact ⟨⟨hlength, hdata⟩, hstep⟩
      · exact (h.gone hplace).imp_right (Or.imp_right (Or.imp_right fun ⟨h1, h2⟩ => ⟨h1, h2⟩))
  | chunked r out hout =>
      exact ⟨hfresh, fun _ hplace => (by cases hplace), fun hplace => (by cases hplace)⟩
  | dropped r =>
      refine ⟨hfresh, fun _ hplace => (by cases hplace), fun _ => .inr (.inr (.inl ?_))⟩
      simp only [Occurrence.keepsOutput, Bool.not_eq_true', decide_eq_false_iff_not] at hkeeps
      exact Nat.le_of_not_lt hkeeps
  | interrupted r =>
      exact ⟨hfresh, fun _ hplace => (by cases hplace), fun _ => .inr (.inl rfl)⟩
  | refused r =>
      exact ⟨hfresh, fun _ hplace => (by cases hplace), fun _ => .inl (h.fresh rfl).status⟩
  | raised r out more =>
      exact ⟨hfresh, fun _ hplace => (by cases hplace), fun _ => .inr (.inl rfl)⟩
  | ran r token =>
      have hnone : r.generated = [] := (h.fresh rfl).generated
      refine ⟨hfresh, fun step hplace => ⟨Request.shows_withFirst hnone token, ?_⟩,
        fun hplace => (by cases hplace)⟩
      cases hplace
      simp [Request.withFirst, Request.inputLen, hnone]
  | ranFinished r token =>
      have hnone : r.generated = [] := (h.fresh rfl).generated
      obtain ⟨h1, h2⟩ := Request.shows_withFirst hnone token
      refine ⟨hfresh, fun step hplace => ⟨⟨h1, h2⟩, ?_⟩, fun hplace => (by cases hplace)⟩
      cases hplace
      simp [Request.withFirst, Request.inputLen, hnone]
  | decoded r step token =>
      obtain ⟨hshows, hstep⟩ := h.running step rfl
      refine ⟨hfresh, fun step' hplace => ⟨hshows.withNext hstep token, ?_⟩,
        fun hplace => (by cases hplace)⟩
      cases hplace
      simp only [Request.withNext, List.length_append, List.length_singleton]
      rw [← Nat.add_assoc]
      exact congrArg (· + 1) hstep
  | finished r step =>
      obtain ⟨⟨h1, h2⟩, _⟩ := h.running step rfl
      exact ⟨hfresh, fun _ hplace => (by cases hplace), fun _ => .inr (.inr (.inr ⟨h1, h2⟩))⟩
  | stopFailed r step =>
      refine ⟨hfresh, fun step' hplace => ?_, fun hplace => (by cases hplace)⟩
      obtain ⟨⟨h1, h2⟩, h3⟩ := h.running step' hplace
      exact ⟨⟨h1, h2⟩, h3⟩
  | _ => cases hkeeps

/-- A request that has ended was interrupted, or shows all that was generated. -/
def Standing.Complete (a : Standing) : Prop :=
  a.request.finish = true → a.place = .gone ∧
    (a.request.status = .generateInterrupted ∨ a.request.Shows)

theorem Move.complete {o : Occurrence} {a b : Standing} (hmove : Move o a b)
    (hkeeps : o.keepsOutput = true) (hread : a.Readable) (h : a.Complete) : b.Complete := by
  intro hfinish
  cases hmove with
  | prefilled r p n =>
      obtain ⟨hgone, hshows⟩ := h hfinish
      exact ⟨hgone, hshows.imp_right fun ⟨h1, h2⟩ => ⟨h1, h2⟩⟩
  | interrupted r => exact ⟨rfl, .inl rfl⟩
  | raised r out more => exact ⟨rfl, .inl rfl⟩
  | finished r step =>
      obtain ⟨⟨h1, h2⟩, _⟩ := hread.running step rfl
      exact ⟨rfl, .inr ⟨h1, h2⟩⟩
  | scribbled r p out => cases hkeeps
  | loraMissing r => cases hkeeps
  | _ => exact absurd (h hfinish).1 (by simp)

/-- Nothing is generated for a request that has ended. -/
theorem Move.generated_of_finish {o : Occurrence} {a b : Standing} (hmove : Move o a b)
    (h : a.Complete) (hfinish : a.request.finish = true) :
    b.request.generated = a.request.generated := by
  have hgone := (h hfinish).1
  cases hmove with
  | prefilled r p n => rfl
  | scribbled r p out => rfl
  | _ => cases hgone

namespace Engine

/-- No event leaves a request with an output tensor that would be misread. -/
def KeepsOutputs (cfg : Config) (s : Engine) (e : Event) : Prop :=
  ∀ u o, Causes cfg s e u o → o.keepsOutput = true

/-- What a queue holds after the results of its handle were fetched. -/
structure Delivered (r : Request) (handle : RequestHandle) (queue : ResultQueue) : Prop where
  fetched : handle.generateLength ≤ r.generated.length
  ids : queue.ids = r.generated.take handle.generateLength

/-- Every queue holds what its handle says was generated. -/
structure DeliverySound (s : Engine) : Prop where
  readable : ∀ u, (s.model.standing u).Readable
  delivered : ∀ u handle queue, s.handle? u = some handle → s.queue? u = some queue →
    Delivered (s.model.requests u) handle queue

section Invariant

variable {cfg : Config} {s t : Engine} {u : Uuid}

theorem Delivered.extend {r r' : Request} {handle : RequestHandle} {queue : ResultQueue}
    (h : Delivered r handle queue) (hext : r.Extends r') : Delivered r' handle queue := by
  obtain ⟨more, hmore⟩ := hext.generated
  constructor
  · exact h.fetched.trans hext.generated.length_le
  · rw [h.ids, ← hmore, List.take_append_of_le_length h.fetched]

theorem newIds_eq {r : Request} (h : r.Shows) {handle : RequestHandle}
    (hcontext : handle.contextLength = r.inputLen) :
    newIds r handle = r.generated.drop handle.generateLength := by
  apply List.ext_getElem
  · rw [newIds, List.length_map, List.length_range, List.length_drop, h.length, hcontext]
    omega
  · intro i hi hi'
    rw [List.length_drop] at hi'
    have hlen : handle.contextLength + handle.generateLength + i < r.outputs.length := by
      rw [h.length, hcontext]
      omega
    simp only [newIds, List.getElem_map, List.getElem_range, List.getElem_drop]
    rw [h.data _ hlen, hcontext, Nat.add_assoc, Request.inputLen,
      List.getD_append_right _ _ _ _ (Nat.le_add_right _ _), Nat.add_sub_cancel_left,
      List.getD_eq_getElem]

/-- `UpdateResult` delivers what is new and nothing else. -/
theorem Delivered.updated {a : Standing} {handle : RequestHandle} {queue : ResultQueue}
    (h : Delivered a.request handle queue) (hread : a.Readable)
    (hcontext : handle.contextLength = a.request.inputLen) :
    Delivered a.request (Engine.updated a.request handle queue).1
      (Engine.updated a.request handle queue).2.1 := by
  rw [Engine.updated]
  split
  · exact h
  · split
    · exact h
    · rename_i hinit
      split
      · exact ⟨h.fetched, h.ids⟩
      · rename_i hrunning
        have hclosed : ∀ q : ResultQueue, (closed a.request q).1.ids = q.ids := by
          intro q
          rw [closed]
          split
          · rfl
          · split
            · rfl
            · rfl
        rcases deliver_cases a.request handle queue with ⟨_, heq⟩ | ⟨hnew, heq⟩
        · rw [heq]
          exact ⟨h.fetched, (hclosed _).trans h.ids⟩
        · -- there is something past the prompt to deliver, so the tensor shows it
          have hshows : a.request.Shows := by
            cases hplace : a.place with
            | pending => exact absurd (hread.fresh hplace).status hinit
            | running step => exact (hread.running step hplace).1
            | gone =>
                rcases hread.gone hplace with h1 | h1 | h1 | h1
                · exact absurd h1 hinit
                · exact absurd h1 hrunning
                · omega
                · exact h1
          have hlength : a.request.outputs.length - handle.contextLength =
              a.request.generated.length := by
            rw [hshows.length, hcontext, Nat.add_sub_cancel_left]
          rw [heq]
          dsimp only
          rw [hlength]
          refine ⟨Nat.le_refl _, ?_⟩
          rw [hclosed, ResultQueue.ids, List.flatten_append, List.take_length,
            newIds_eq hshows hcontext]
          have hids := h.ids
          rw [ResultQueue.ids] at hids
          rw [hids]
          simp

theorem DeliverySound.next (h : s.DeliverySound) (hsound : s.Sound) {e : Event}
    (hkeeps : KeepsOutputs cfg s e) (hnext : s.next cfg e = some t) : t.DeliverySound := by
  have hmoved : ∀ m, Refines (Causes cfg s e) s.model m → ∀ u, (m.standing u).Readable := by
    intro m hrefines u
    exact (hrefines.path u).invariant
      (fun o _ _ hcause hmove hread => hmove.readable (hkeeps u o hcause) hread) (h.readable u)
  cases hsound.effect hnext with
  | moved hrefines hhandles hqueues =>
      refine ⟨hmoved _ hrefines, fun u handle queue hhandle hqueue => ?_⟩
      rw [hhandles] at hhandle
      rw [hqueues] at hqueue
      exact (h.delivered u handle queue hhandle hqueue).extend (hrefines.path u).extends
  | interrupted victim queue hrefines hhandles hvictim hstatus hqueues =>
      refine ⟨hmoved _ hrefines, fun u handle queue' hhandle hqueue => ?_⟩
      rw [hhandles] at hhandle
      rw [hqueues] at hqueue
      have hext := (hrefines.path u).extends
      rcases eq_or_ne u victim with rfl | hne
      · rw [Function.update_self] at hqueue
        cases hqueue
        obtain ⟨h1, h2⟩ := (h.delivered u handle queue hhandle hvictim).extend hext
        exact ⟨h1, h2⟩
      · rw [Function.update_of_ne hne] at hqueue
        exact (h.delivered u handle queue' hhandle hqueue).extend hext
  | started cfg new content memory hstarting hgone hmodel hhandles hqueues =>
      obtain ⟨hnodup, hown, hothers⟩ := hmodel ▸ standing_startRequestImpl hsound.nodup
        (hsound.unstarted new hstarting).2 content memory
      refine ⟨fun u => ?_, fun u handle queue hhandle hqueue => ?_⟩
      all_goals rcases eq_or_ne u new with rfl | hne
      · rw [hown]
        exact ⟨fun _ => ⟨rfl, rfl, rfl, rfl⟩, fun _ hplace => (by cases hplace),
          fun hplace => (by cases hplace)⟩
      · rw [hothers u hne]
        exact h.readable u
      · rw [hhandles, Function.update_self] at hhandle
        rw [hqueues, Function.update_self] at hqueue
        cases hhandle
        cases hqueue
        exact ⟨Nat.zero_le _, rfl⟩
      · rw [hhandles, Function.update_of_ne hne] at hhandle
        rw [hqueues, Function.update_of_ne hne] at hqueue
        have hrequest : t.model.requests u = s.model.requests u :=
          congrArg Standing.request (hothers u hne)
        rw [hrequest]
        exact h.delivered u handle queue hhandle hqueue
  | released gone m hrefines hmodel hhandles hqueues =>
      have hstanding : ∀ u, t.model.standing u = m.standing u := by
        rw [hmodel]
        exact fun _ => rfl
      refine ⟨fun u => hstanding u ▸ hmoved m hrefines u, fun u handle queue hhandle hqueue => ?_⟩
      rw [hhandles] at hhandle
      rw [hqueues] at hqueue
      rcases eq_or_ne u gone with rfl | hne
      · rw [Function.update_self] at hhandle
        cases hhandle
      · rw [Function.update_of_ne hne] at hhandle hqueue
        have hext := (hrefines.path u).extends
        rw [← hstanding u] at hext
        exact (h.delivered u handle queue hhandle hqueue).extend hext
  | delivered u handle queue hmodel hhandle hqueue hhandles hqueues =>
      refine ⟨hmodel ▸ h.readable, fun v handle' queue' hhandle' hqueue' => ?_⟩
      rw [hmodel]
      rw [hhandles] at hhandle'
      rw [hqueues] at hqueue'
      rcases eq_or_ne v u with rfl | hne
      · rw [Function.update_self] at hhandle' hqueue'
        cases hhandle'
        cases hqueue'
        exact (h.delivered v handle queue hhandle hqueue).updated (h.readable v)
          (hsound.contextLength v handle hhandle)
      · rw [Function.update_of_ne hne] at hhandle' hqueue'
        exact h.delivered v handle' queue' hhandle' hqueue'

theorem deliverySound_start (loras : Finset String) : (start loras).DeliverySound :=
  ⟨fun _ => ⟨fun h => (by cases h), fun _ h => (by cases h), fun _ => .inl rfl⟩,
    fun _ _ _ h => by cases h⟩

end Invariant

/-- The result queue of a request holds a prefix of what was generated for it,
in every state of a run that keeps the output tensors readable. -/
theorem delivered_in_order {cfg : Config} {loras : Finset String} {s : Engine}
    (h : Reaches cfg loras (KeepsOutputs cfg) s) {u : Uuid} {queue : ResultQueue}
    (hqueue : s.queue? u = some queue) :
    queue.ids <+: (s.model.requests u).generated ∧
      ((s.model.requests u).generated = [] → queue.ids = []) := by
  have hboth : s.Sound ∧ s.DeliverySound := by
    apply Reach.invariant (I := fun s => Sound s ∧ DeliverySound s) _ _ h
    · rintro q rfl
      exact ⟨sound_start loras, deliverySound_start loras⟩
    · rintro q t e ⟨hsound, hdelivery⟩ hkeeps hnext
      exact ⟨hsound.next hnext, hdelivery.next hsound hkeeps hnext⟩
  obtain ⟨handle, hhandle⟩ := (hboth.1.handles u).mpr ((hboth.1.queues u).mp ⟨queue, hqueue⟩)
  have hdelivered := hboth.2.delivered u handle queue hhandle hqueue
  rw [hdelivered.ids]
  refine ⟨List.take_prefix _ _, fun hnone => ?_⟩
  rw [hnone, List.take_nil]

/-- A finished queue holds everything that was generated. -/
structure CompleteSound (s : Engine) : Prop where
  complete : ∀ u, (s.model.standing u).Complete
  finished : ∀ u queue, s.queue? u = some queue → queue.status = .generateFinished →
    (s.model.requests u).finish = true ∧ queue.ids = (s.model.requests u).generated

section Complete

variable {cfg : Config} {s t : Engine} {u : Uuid}

theorem closed_finished {request : Request} {queue : ResultQueue}
    (h : (closed request queue).1.status = .generateFinished)
    (hopen : queue.status ≠ .generateFinished) : request.finish = true := by
  unfold closed at h
  split at h
  · exact absurd h hopen
  · split at h
    · assumption
    · exact absurd h hopen

/-- A queue that is finished by `UpdateResult` holds what was generated. -/
theorem Delivered.finished {a : Standing} {handle : RequestHandle} {queue : ResultQueue}
    (h : Delivered a.request handle queue) (hread : a.Readable) (hcomplete : a.Complete)
    (hcontext : handle.contextLength = a.request.inputLen)
    (hopen : queue.status ≠ .generateFinished)
    (hstatus : (Engine.updated a.request handle queue).2.1.status = .generateFinished) :
    a.request.finish = true ∧
      (Engine.updated a.request handle queue).2.1.ids = a.request.generated := by
  have hafter := h.updated hread hcontext
  rw [Engine.updated] at hstatus hafter ⊢
  split at hstatus
  · exact absurd hstatus hopen
  · rename_i hnotTerminal
    rw [if_neg hnotTerminal] at hafter ⊢
    split at hstatus
    · exact absurd hstatus hopen
    · rename_i hinit
      rw [if_neg hinit] at hafter ⊢
      split at hstatus
      · cases hstatus
      · rename_i hinterrupted
        rw [if_neg hinterrupted] at hafter ⊢
        have hopened : openedStatus handle queue ≠ .generateFinished := by
          unfold openedStatus
          split
          · simp
          · exact hopen
        have hfinish : a.request.finish = true := by
          apply closed_finished hstatus
          rcases deliver_cases a.request handle queue with ⟨_, heq⟩ | ⟨_, heq⟩
          all_goals simpa only [heq] using hopened
        refine ⟨hfinish, hafter.ids.trans ?_⟩
        have hshows := (hcomplete hfinish).2.resolve_left hinterrupted
        have hlength := hshows.length
        apply List.take_of_length_le
        rcases deliver_cases a.request handle queue with ⟨hfew, heq⟩ | ⟨_, heq⟩
        all_goals
          simp only [heq]
          omega

theorem CompleteSound.next (h : s.CompleteSound) (hsound : s.Sound) (hdelivery : s.DeliverySound)
    {e : Event} (hkeeps : KeepsOutputs cfg s e) (hnext : s.next cfg e = some t) :
    t.CompleteSound := by
  have hmoved : ∀ m, Refines (Causes cfg s e) s.model m → ∀ u, (m.standing u).Complete ∧
      ((s.model.requests u).finish = true → (m.requests u).finish = true ∧
        (m.requests u).generated = (s.model.requests u).generated) := by
    intro m hrefines u
    have hpath := (hrefines.path u).invariant
      (I := fun a => a.Readable ∧ a.Complete ∧ ((s.model.requests u).finish = true →
        a.request.finish = true ∧ a.request.generated = (s.model.requests u).generated))
      (fun o a b hcause hmove ⟨hread, hcomplete, hsame⟩ => by
        have hown := hkeeps u o hcause
        refine ⟨hmove.readable hown hread, hmove.complete hown hread hcomplete, fun hfinish => ?_⟩
        obtain ⟨hafter, hgenerated⟩ := hsame hfinish
        exact ⟨hmove.extends.finish hafter,
          (hmove.generated_of_finish hcomplete hafter).trans hgenerated⟩)
      ⟨hdelivery.readable u, h.complete u, fun hfinish => ⟨hfinish, rfl⟩⟩
    exact hpath.2
  cases hsound.effect hnext with
  | moved hrefines _ hqueues =>
      refine ⟨fun u => (hmoved _ hrefines u).1, fun u queue hqueue hstatus => ?_⟩
      rw [hqueues] at hqueue
      obtain ⟨hfinish, hids⟩ := h.finished u queue hqueue hstatus
      obtain ⟨hafter, hgenerated⟩ := (hmoved _ hrefines u).2 hfinish
      exact ⟨hafter, hids.trans hgenerated.symm⟩
  | interrupted victim old hrefines _ _ _ hqueues =>
      refine ⟨fun u => (hmoved _ hrefines u).1, fun u queue hqueue hstatus => ?_⟩
      rcases eq_or_ne u victim with rfl | hne
      · obtain rfl : { old with status := .generateInterrupted } = queue := by
          simpa [hqueues] using hqueue
        cases hstatus
      · simp only [hqueues, ne_eq, hne, not_false_eq_true, Function.update_of_ne] at hqueue
        obtain ⟨hfinish, hids⟩ := h.finished u queue hqueue hstatus
        obtain ⟨hafter, hgenerated⟩ := (hmoved _ hrefines u).2 hfinish
        exact ⟨hafter, hids.trans hgenerated.symm⟩
  | started cfg new content memory hstarting _ hmodel _ hqueues =>
      obtain ⟨_, hown, hothers⟩ := hmodel ▸ standing_startRequestImpl hsound.nodup
        (hsound.unstarted new hstarting).2 content memory
      refine ⟨fun u => ?_, fun u queue hqueue hstatus => ?_⟩
      all_goals rcases eq_or_ne u new with rfl | hne
      · intro hfinish
        simp [hown, Request.new] at hfinish
      · exact hothers u hne ▸ h.complete u
      · obtain rfl : ⟨.init, []⟩ = queue := by simpa [hqueues] using hqueue
        cases hstatus
      · simp only [hqueues, ne_eq, hne, not_false_eq_true, Function.update_of_ne] at hqueue
        have hrequest : t.model.requests u = s.model.requests u :=
          congrArg Standing.request (hothers u hne)
        exact hrequest ▸ h.finished u queue hqueue hstatus
  | released gone m hrefines hmodel _ hqueues =>
      have hstanding : ∀ u, t.model.standing u = m.standing u := by
        rw [hmodel]
        exact fun _ => rfl
      refine ⟨fun u => hstanding u ▸ (hmoved m hrefines u).1, fun u queue hqueue hstatus => ?_⟩
      rcases eq_or_ne u gone with rfl | hne
      · simp [hqueues] at hqueue
      · simp only [hqueues, ne_eq, hne, not_false_eq_true, Function.update_of_ne] at hqueue
        obtain ⟨hfinish, hids⟩ := h.finished u queue hqueue hstatus
        have hrequest : t.model.requests u = m.requests u :=
          congrArg Standing.request (hstanding u)
        obtain ⟨hafter, hgenerated⟩ := (hmoved m hrefines u).2 hfinish
        exact hrequest ▸ ⟨hafter, hids.trans hgenerated.symm⟩
  | delivered v handle old hmodel hhandle hold _ hqueues =>
      refine ⟨hmodel ▸ h.complete, fun u queue hqueue hstatus => ?_⟩
      rw [hmodel]
      rcases eq_or_ne u v with rfl | hne
      · obtain rfl : (updated (s.model.requests u) handle old).2.1 = queue := by
          simpa [hqueues] using hqueue
        rcases eq_or_ne old.status .generateFinished with hclosed | hopen
        · have hsame : (updated (s.model.requests u) handle old).2.1 = old := by
            simp [updated, hclosed, GenerateRequestStatus.terminal]
          rw [hsame]
          exact h.finished u old hold hclosed
        · exact (hdelivery.delivered u handle old hhandle hold).finished (hdelivery.readable u)
            (h.complete u) (hsound.contextLength u handle hhandle) hopen hstatus
      · simp only [hqueues, ne_eq, hne, not_false_eq_true, Function.update_of_ne] at hqueue
        exact h.finished u queue hqueue hstatus

theorem completeSound_start (loras : Finset String) : (start loras).CompleteSound :=
  ⟨fun _ hfinish => (by cases hfinish), fun _ _ hqueue => (by cases hqueue)⟩

end Complete

/-- A queue that says finished holds every token that was generated, in every
run that keeps the output tensors readable. -/
theorem finished_complete {cfg : Config} {loras : Finset String} {s : Engine}
    (h : Reaches cfg loras (KeepsOutputs cfg) s) {u : Uuid} {queue : ResultQueue}
    (hqueue : s.queue? u = some queue) (hstatus : queue.status = .generateFinished) :
    queue.ids = (s.model.requests u).generated ∧ s.model.place u = .gone := by
  have hall : s.Sound ∧ s.DeliverySound ∧ s.CompleteSound := by
    apply Reach.invariant (I := fun s => Sound s ∧ DeliverySound s ∧ CompleteSound s) _ _ h
    · rintro q rfl
      exact ⟨sound_start loras, deliverySound_start loras, completeSound_start loras⟩
    · rintro q t e ⟨hsound, hdelivery, hcomplete⟩ hkeeps hnext
      exact ⟨hsound.next hnext, hdelivery.next hsound hkeeps hnext,
        hcomplete.next hsound hdelivery hkeeps hnext⟩
  obtain ⟨hfinish, hids⟩ := hall.2.2.finished u queue hqueue hstatus
  exact ⟨hids, (hall.2.2.complete u hfinish).1⟩

/-- A request of one token that is started. -/
def startOne (memory : Nat → Int) : List Event :=
  [.startRequest ⟨[1], 3, "", false⟩ 0, .checkStopping, .enqueueStart true,
    .dequeue 0 ⟨memory, .done⟩]

/-- It runs to its first token, a second context step finds nothing to do, and
the token is delivered. -/
def runOne (memory : Nat → Int) (eos : Bool) : List Event :=
  startOne memory ++ [.skipMessageProcess,
    .context ⟨true, 0, 0, true, .success 9 eos, fun _ => .done⟩ none,
    .context ⟨true, 0, 0, true, .success 9 eos, fun _ => .done⟩ none, .updateResult 0]

theorem guarded_runOne (memory : Nat → Int) (eos : Bool) :
    (start ∅).Guarded tiny (KeepsOutputs tiny) (runOne memory eos) := by
  cases eos
  all_goals
    refine ⟨fun u o h => (by cases h), ?_⟩
    rintro _ ⟨⟩
    refine ⟨fun u o h => (by cases h), ?_⟩
    rintro _ ⟨⟩
    refine ⟨fun u o h => (by cases h), ?_⟩
    rintro _ ⟨⟩
    refine ⟨?_, ?_⟩
    · rintro u o (⟨⟨⟩, hbody, _⟩)
      rcases hbody with hbody | hbody
      · cases hbody
      · cases hbody
    rintro _ ⟨⟩
    refine ⟨fun u o h => (by cases h), ?_⟩
    rintro _ ⟨⟩
    refine ⟨?_, ?_⟩
    · intro u o h
      cases h with
      | context h =>
          cases h with
          | started hhead _ =>
              cases hhead
              rfl
          | _ => rfl
    rintro _ ⟨⟩
    refine ⟨?_, ?_⟩
    · intro u o h
      cases h with
      | context h =>
          cases h with
          | started hhead _ => cases hhead
          | _ => rfl
    rintro _ ⟨⟩
    exact ⟨fun u o h => (by cases h), fun _ _ => trivial⟩

theorem delivered_in_order_runOne : ∃ s queue,
    (start ∅).run tiny (runOne (fun _ => 0) false) = some s ∧
    s.queue? 0 = some queue ∧ queue.ids = [9] ∧ queue.ids <+: (s.model.requests 0).generated := by
  refine ⟨_, ⟨.generating, [[9]]⟩, rfl, rfl, rfl, ?_⟩
  exact (delivered_in_order (Reaches.run (.init rfl) (guarded_runOne (fun _ => 0) false) rfl) rfl).1

theorem finished_complete_runOne : ∃ s,
    (start ∅).run tiny (runOne (fun _ => 0) true) = some s ∧
    s.queue? 0 = some ⟨.generateFinished, [[9]]⟩ ∧ (s.model.requests 0).generated = [9] ∧
    s.model.place 0 = .gone := by
  have hmap : ((start ∅).run tiny (runOne (fun _ => 0) true)).map (fun s => s.queue? 0) =
      some (some ⟨.generateFinished, [[9]]⟩) := rfl
  obtain ⟨s, hrun, hqueue⟩ := Option.map_eq_some_iff.mp hmap
  refine ⟨s, hrun, hqueue, ?_⟩
  obtain ⟨hids, hgone⟩ := finished_complete
    (Reaches.run (.init rfl) (guarded_runOne (fun _ => 0) true) hrun) hqueue rfl
  exact ⟨hids.symm, hgone⟩

end Engine

end DashInfer.Serving
