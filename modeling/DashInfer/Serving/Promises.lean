import DashInfer.Lib.Promise
import DashInfer.Serving.Transitions

/-!
The promises of the control messages. A ledger keeps what the engine owes: the
messages in the queue, the promise of the synchronisation in progress, that of
the stop of the model, and the call that waits under `lora_lock_`. Every event
of the engine is a few steps of the ledger, and the facts about promises are
proved on the ledger.
-/

namespace DashInfer.Serving

open Lib

structure Ledger where
  messages : List EngineControlMessage
  synchronizing : Bool
  deferred : Option Nat
  stop : Option Nat
  ended : Bool
  promises : Nat → List AsStatus
  nextPromise : Nat
  /-- The promise for which a call waits under the lock. -/
  caller : Option Nat

/-- The messages of the calls that wait under the lock. -/
def MessageBody.waits : MessageBody → Bool
  | .stopRequest _ | .syncRequest _ | .syncAllRequest | .releaseRequest _ => true
  | .gracefulStopModel | .startRequest _ _ => false

namespace Ledger

def answer (promise : Nat) (status : AsStatus) (l : Ledger) : Ledger :=
  { l with promises := Function.update l.promises promise (l.promises promise ++ [status]) }

def remove (i : Nat) (l : Ledger) : Ledger := { l with messages := l.messages.eraseIdx i }

def push (body : MessageBody) (producer : Nat) (l : Ledger) : Ledger :=
  { l with
    messages := l.messages ++ [⟨body, l.nextPromise, producer⟩]
    nextPromise := l.nextPromise + 1 }

/-- What one part of an event does to the promises. -/
inductive Step (l : Ledger) : Ledger → Prop
  | pushed (body : MessageBody) (producer : Nat) : body.waits = false →
      Step l (l.push body producer)
  | called (body : MessageBody) (producer : Nat) : body.waits = true → l.caller = none →
      Step l { l.push body producer with caller := some l.nextPromise }
  | returned (promise : Nat) : l.caller = some promise → l.promises promise ≠ [] →
      Step l { l with caller := none }
  | answered (i : Nat) (msg : EngineControlMessage) (status : AsStatus) : l.ended = false →
      l.synchronizing = false → l.messages[i]? = some msg →
      Step l ((l.remove i).answer msg.promise status)
  | started (i : Nat) (msg : EngineControlMessage) : l.ended = false → l.synchronizing = false →
      l.messages[i]? = some msg → msg.body.waits = false → Step l (l.remove i)
  | stopping (i : Nat) (msg : EngineControlMessage) : l.ended = false →
      l.synchronizing = false → l.messages[i]? = some msg → msg.body = .gracefulStopModel →
      Step l { l.remove i with stop := some msg.promise }
  | deferred (i : Nat) (msg : EngineControlMessage) : l.ended = false →
      l.synchronizing = false → l.messages[i]? = some msg → msg.body.waits = true →
      Step l { l.remove i with synchronizing := true, deferred := some msg.promise }
  | synchronized : l.ended = false → l.deferred = none → Step l { l with synchronizing := false }
  | synchronizedAnswered (promise : Nat) : l.ended = false → l.deferred = some promise →
      Step l ({ l with synchronizing := false, deferred := none }.answer promise .success)
  | stopped : l.ended = false → l.stop = none → Step l { l with ended := true }
  | stoppedAnswered (promise : Nat) (status : AsStatus) : l.ended = false →
      l.stop = some promise →
      Step l ({ l with ended := true, stop := none }.answer promise status)

def Steps : Ledger → Ledger → Prop := Relation.ReflTransGen Step

variable {l l' : Ledger} {i : Nat} {msg : EngineControlMessage}

/-- The promises of the calls that wait, and the other promises owed. -/
def calls (l : Ledger) : List Nat :=
  (l.messages.filter fun msg => msg.body.waits).map EngineControlMessage.promise ++
    l.deferred.toList

def others (l : Ledger) : List Nat :=
  (l.messages.filter fun msg => !msg.body.waits).map EngineControlMessage.promise ++ l.stop.toList

def book (l : Ledger) : Book AsStatus := ⟨l.calls ++ l.others, l.promises, l.nextPromise⟩

/-- The call that waits, unless it is answered. -/
def expected (l : Ledger) : List Nat :=
  l.caller.toList.filter fun promise => l.promises promise = []

/-- What the messages that `keep` picks owe, with one message taken out. -/
theorem promises_perm (keep : EngineControlMessage → Bool) (hget : l.messages[i]? = some msg) :
    ((l.messages.filter keep).map EngineControlMessage.promise).Perm
      (((msg :: (l.remove i).messages).filter keep).map EngineControlMessage.promise) := by
  obtain ⟨hi, rfl⟩ := List.getElem?_eq_some_iff.mp hget
  exact ((List.getElem_cons_eraseIdx_perm hi).symm.filter keep).map _

theorem taken_waits (hget : l.messages[i]? = some msg) (hwaits : msg.body.waits = true) :
    l.calls.Perm (msg.promise :: (l.remove i).calls) ∧ l.others.Perm (l.remove i).others := by
  have hcalls := promises_perm (fun msg => msg.body.waits) hget
  have hothers := promises_perm (fun msg => !msg.body.waits) hget
  simp only [hwaits, List.filter_cons, if_true, List.map_cons] at hcalls
  simp only [hwaits, List.filter_cons, Bool.not_true, Bool.false_eq_true, if_false] at hothers
  exact ⟨hcalls.append_right _, hothers.append_right _⟩

theorem taken_other (hget : l.messages[i]? = some msg) (hwaits : msg.body.waits = false) :
    l.calls.Perm (l.remove i).calls ∧ l.others.Perm (msg.promise :: (l.remove i).others) := by
  have hcalls := promises_perm (fun msg => msg.body.waits) hget
  have hothers := promises_perm (fun msg => !msg.body.waits) hget
  simp only [hwaits, List.filter_cons, Bool.false_eq_true, if_false] at hcalls
  simp only [hwaits, List.filter_cons, Bool.not_false, if_true, List.map_cons] at hothers
  exact ⟨hcalls.append_right _, hothers.append_right _⟩

/-- A message that is taken out is owed, and nothing else is any less. -/
theorem owed_perm (hget : l.messages[i]? = some msg) :
    (l.calls ++ l.others).Perm (msg.promise :: ((l.remove i).calls ++ (l.remove i).others)) := by
  cases hwaits : msg.body.waits with
  | true =>
      obtain ⟨hcalls, hothers⟩ := taken_waits hget hwaits
      exact hcalls.append hothers
  | false =>
      obtain ⟨hcalls, hothers⟩ := taken_other hget hwaits
      exact (hcalls.append hothers).trans List.perm_middle

theorem push_waits {body : MessageBody} (producer : Nat) (hwaits : body.waits = true) :
    (l.push body producer).calls.Perm (l.nextPromise :: l.calls) ∧
      (l.push body producer).others = l.others := by
  constructor
  · simp only [calls, push, List.filter_append, List.map_append, List.append_assoc, hwaits,
      List.filter_singleton]
    exact List.perm_middle
  · simp [others, push, hwaits, List.filter_append]

theorem push_other {body : MessageBody} (producer : Nat) (hwaits : body.waits = false) :
    (l.push body producer).calls = l.calls ∧
      (l.push body producer).others.Perm (l.nextPromise :: l.others) := by
  constructor
  · simp [calls, push, hwaits, List.filter_append]
  · simp only [others, push, List.filter_append, List.map_append, List.append_assoc, hwaits,
      List.filter_singleton, Bool.not_false]
    exact List.perm_middle

/-- A step of the ledger hands out, forgets or answers what it owes. -/
theorem Step.book (h : l.Step l') : l.book.Step l'.book := by
  cases h with
  | pushed body producer hwaits =>
      obtain ⟨hcalls, hothers⟩ := push_other (l := l) producer hwaits
      apply Book.Step.issue
      rw [hcalls]
      exact (hothers.append_left _).trans List.perm_middle
  | called body producer hwaits hcaller =>
      obtain ⟨hcalls, hothers⟩ := push_waits (l := l) producer hwaits
      apply Book.Step.issue
      exact hothers ▸ hcalls.append_right _
  | returned promise hcaller hanswered => exact .forget _ (List.Subperm.refl _)
  | answered i msg status hrunning hidle hget =>
      exact .answer _ msg.promise status (owed_perm hget).symm.subperm
  | started i msg hrunning hidle hget hwaits =>
      exact .forget _ ((List.subperm_cons_self).trans (owed_perm hget).symm.subperm)
  | stopping i msg hrunning hidle hget hbody =>
      apply Book.Step.forget
      apply List.Subperm.trans _ (owed_perm hget).symm.subperm
      simp only [calls, others, remove, Option.toList_some, ← List.append_assoc]
      apply (List.perm_append_singleton _ _).subperm.trans
      exact ((List.sublist_append_left _ _).cons_cons _).subperm
  | deferred i msg hrunning hidle hget hwaits =>
      apply Book.Step.forget
      apply List.Subperm.trans _ (owed_perm hget).symm.subperm
      simp only [calls, others, remove, Option.toList_some]
      apply ((List.perm_append_singleton _ _).append_right _).subperm.trans
      simp only [List.cons_append]
      exact (((List.sublist_append_left _ _).append_right _).cons_cons _).subperm
  | synchronized hrunning hdeferred => exact .forget _ (List.Subperm.refl _)
  | synchronizedAnswered promise hrunning hdeferred =>
      apply Book.Step.answer
      simp only [Ledger.book, calls, others, answer, hdeferred, Option.toList_some,
        Option.toList_none, List.append_nil, ← List.cons_append]
      exact (List.perm_append_singleton _ _).symm.append_right _ |>.subperm
  | stopped hrunning hstop => exact .forget _ (List.Subperm.refl _)
  | stoppedAnswered promise status hrunning hstop =>
      apply Book.Step.answer
      simp only [Ledger.book, calls, others, answer, hstop, Option.toList_some,
        Option.toList_none, List.append_nil, ← List.append_assoc]
      exact (List.perm_append_singleton _ _).symm.subperm

/-- What every ledger of a run keeps: no promise is answered twice, and the one
call that waits under the lock is owed its answer. -/
structure Sound (l : Ledger) : Prop where
  book : l.book.Sound
  idle : l.synchronizing = false → l.deferred = none
  calls : l.calls = l.expected

theorem Sound.of_call (h : l.Sound) {promise : Nat} (hmem : promise ∈ l.calls) :
    l.caller = some promise ∧ l.calls = [promise] := by
  rw [h.calls, expected] at hmem ⊢
  cases hcaller : l.caller with
  | none => simp [hcaller] at hmem
  | some caller =>
      simp only [hcaller, Option.toList_some, List.mem_filter, List.mem_singleton] at hmem
      obtain ⟨rfl, hopen⟩ := hmem
      simp [hopen]

theorem Sound.disjoint (h : l.Sound) {promise : Nat} (hcall : promise ∈ l.calls) :
    promise ∉ l.others := fun hother =>
  (List.nodup_append.mp h.book.nodup).2.2 _ hcall _ hother rfl

/-- An answer that is not for the call that waits leaves it waiting. -/
theorem Sound.expected_other (h : l.Sound) {promise : Nat} (status : AsStatus)
    (hother : promise ∈ l.others) : (l.answer promise status).expected = l.expected := by
  unfold expected
  apply List.filter_congr
  intro caller hcaller
  rcases eq_or_ne caller promise with rfl | hne
  · have hopen : l.promises caller = [] := h.book.unanswered caller (by simp [Ledger.book, hother])
    have hexpected : caller ∈ l.expected := by
      simp only [expected, List.mem_filter, hopen]
      exact ⟨hcaller, by simp⟩
    exact absurd hother (h.disjoint (h.calls ▸ hexpected))
  · simp [answer, hne]

/-- The answer to the call that waits leaves none. -/
theorem Sound.expected_call (h : l.Sound) {promise : Nat} (status : AsStatus)
    (hcall : promise ∈ l.calls) : (l.answer promise status).expected = [] := by
  simp [expected, answer, (h.of_call hcall).1]

theorem mem_calls (hget : l.messages[i]? = some msg) (hwaits : msg.body.waits = true) :
    msg.promise ∈ l.calls :=
  (taken_waits hget hwaits).1.mem_iff.mpr List.mem_cons_self

/-- The one call that waits is taken out of the queue. -/
theorem Sound.calls_taken (h : l.Sound) (hget : l.messages[i]? = some msg)
    (hwaits : msg.body.waits = true) : (l.remove i).calls = [] := by
  have hperm := (taken_waits hget hwaits).1
  rw [(h.of_call (mem_calls hget hwaits)).2] at hperm
  exact List.perm_nil.mp (List.perm_cons msg.promise |>.mp hperm).symm

theorem Sound.calls_kept (h : l.Sound) (hget : l.messages[i]? = some msg)
    (hwaits : msg.body.waits = false) : (l.remove i).calls = l.expected := by
  have hperm := (taken_other hget hwaits).1.symm
  rw [h.calls, expected] at hperm
  rw [expected]
  cases hcaller : l.caller with
  | none => simpa [hcaller] using hperm
  | some caller =>
      rcases eq_or_ne (l.promises caller) [] with hopen | hanswered
      · simpa [hcaller, hopen] using hperm
      · simpa [hcaller, hanswered] using hperm

theorem Step.sound (hstep : l.Step l') (h : l.Sound) : l'.Sound := by
  have hbook := hstep.book.sound h.book
  cases hstep with
  | pushed body producer hwaits =>
      refine ⟨hbook, h.idle, ?_⟩
      rw [(push_other producer hwaits).1]
      exact h.calls
  | called body producer hwaits hcaller =>
      refine ⟨hbook, h.idle, ?_⟩
      have hnone : l.calls = [] := by simp [h.calls, expected, hcaller]
      have hopen : l.promises l.nextPromise = [] := by
        by_contra hanswered
        exact Nat.lt_irrefl _ (h.book.issued _ (.inr hanswered))
      have hperm := (push_waits (l := l) producer hwaits).1
      rw [hnone] at hperm
      apply (List.perm_singleton.mp hperm).trans
      simp [expected, push, hopen]
  | returned promise hcaller hanswered =>
      refine ⟨hbook, h.idle, ?_⟩
      apply h.calls.trans
      simp [expected, hcaller, hanswered]
  | answered i msg status hrunning hidle hget =>
      refine ⟨hbook, h.idle, ?_⟩
      cases hwaits : msg.body.waits with
      | true =>
          have hanswer := h.expected_call status (mem_calls hget hwaits)
          exact (h.calls_taken hget hwaits).trans hanswer.symm
      | false =>
          have hmem := (taken_other hget hwaits).2.mem_iff.mpr List.mem_cons_self
          have hanswer := h.expected_other status hmem
          exact (h.calls_kept hget hwaits).trans hanswer.symm
  | started i msg hrunning hidle hget hwaits => exact ⟨hbook, h.idle, h.calls_kept hget hwaits⟩
  | stopping i msg hrunning hidle hget hbody =>
      exact ⟨hbook, h.idle, h.calls_kept hget (by simp [hbody, MessageBody.waits])⟩
  | deferred i msg hrunning hidle hget hwaits =>
      refine ⟨hbook, by simp, ?_⟩
      have htaken := h.calls_taken hget hwaits
      have hcalls := (h.of_call (mem_calls hget hwaits)).2
      simp only [calls, remove, h.idle hidle, Option.toList_none, List.append_nil] at htaken
      simp only [calls, remove, htaken, Option.toList_some, List.nil_append]
      exact hcalls.symm.trans h.calls
  | synchronized hrunning hdeferred => exact ⟨hbook, fun _ => hdeferred, h.calls⟩
  | synchronizedAnswered promise hrunning hdeferred =>
      refine ⟨hbook, fun _ => rfl, ?_⟩
      have hmem : promise ∈ l.calls := by simp [calls, hdeferred]
      have hcalls := (h.of_call hmem).2
      have hanswer := h.expected_call .success hmem
      simp only [calls, hdeferred, Option.toList_some] at hcalls
      have hnone := List.append_eq_singleton_iff.mp hcalls
      simp only [calls, answer, Option.toList_none, List.append_nil]
      apply Eq.trans _ hanswer.symm
      simpa using hnone
  | stopped hrunning hstop => exact ⟨hbook, h.idle, h.calls⟩
  | stoppedAnswered promise status hrunning hstop =>
      refine ⟨hbook, h.idle, ?_⟩
      have hanswer := h.expected_other status (by simp [others, hstop] : promise ∈ l.others)
      exact h.calls.trans hanswer.symm

theorem Steps.sound (hsteps : l.Steps l') (h : l.Sound) : l'.Sound := by
  induction hsteps with
  | refl => exact h
  | tail _ hlast ih => exact hlast.sound ih

/-- After the end of the loop nothing is answered any more, and a call that
waits keeps waiting. -/
theorem Steps.ended (hsteps : l.Steps l') (h : l.ended = true) {promise : Nat}
    (hcaller : l.caller = some promise) (hopen : l.promises promise = []) :
    l'.ended = true ∧ l'.caller = some promise ∧ l'.promises promise = [] := by
  induction hsteps with
  | refl => exact ⟨h, hcaller, hopen⟩
  | tail _ hlast ih =>
      obtain ⟨hended, hcaller', hopen'⟩ := ih
      cases hlast with
      | pushed body producer hwaits => exact ⟨hended, hcaller', hopen'⟩
      | called body producer hwaits hnone => simp [hcaller'] at hnone
      | returned other hother hanswered =>
          obtain rfl : promise = other := by simpa [hcaller'] using hother
          exact absurd hopen' hanswered
      | answered i msg status hrunning => simp [hended] at hrunning
      | started i msg hrunning => simp [hended] at hrunning
      | stopping i msg hrunning => simp [hended] at hrunning
      | deferred i msg hrunning => simp [hended] at hrunning
      | synchronized hrunning => simp [hended] at hrunning
      | synchronizedAnswered other hrunning => simp [hended] at hrunning
      | stopped hrunning => simp [hended] at hrunning
      | stoppedAnswered other status hrunning => simp [hended] at hrunning

theorem Steps.book (hsteps : l.Steps l') : l.book.Steps l'.book :=
  Relation.ReflTransGen.lift Ledger.book (fun _ _ => Step.book) _ _ hsteps

end Ledger

namespace Engine

def LockHolder.promise? : LockHolder → Option Nat
  | .starting _ _ _ _ => none
  | .waiting promise => some promise

def ledger (s : Engine) : Ledger where
  messages := s.control.msgQueue
  synchronizing := s.loop.synchronizing
  deferred := s.loop.deferredPromise
  stop := if s.loop.phase = .ended then none else s.loop.gracefulStopMsg
  ended := s.loop.phase = .ended
  promises := s.clients.promises
  nextPromise := s.clients.nextPromise
  caller := s.clients.loraLock.bind LockHolder.promise?

section Simulation

variable {cfg : Config} {s t : Engine}

theorem ledger_handleMemoryOut (s : Engine) (m : AsModel) (env : DecodeEnv)
    (hphase : s.loop.phase = .decode) :
    ({ s with model := m }.handleMemoryOut cfg env).ledger = s.ledger := by
  unfold handleMemoryOut
  split
  · simp [ledger, beginUpdate, hphase]
  · unfold interruptQueue
    split <;> rfl

theorem ledger_finishSync (hphase : s.loop.phase ≠ .ended) :
    s.ledger.Steps s.finishSync.ledger := by
  unfold finishSync
  split
  · cases hdeferred : s.loop.deferredPromise with
    | none =>
        apply Relation.ReflTransGen.single
        have hstep := Ledger.Step.synchronized (l := s.ledger) (by simpa [ledger]) hdeferred
        simpa [ledger, hphase, hdeferred] using hstep
    | some promise =>
        apply Relation.ReflTransGen.single
        have hstep := Ledger.Step.synchronizedAnswered (l := s.ledger) promise
          (by simpa [ledger]) hdeferred
        simpa [ledger, hphase, Ledger.answer, setPromise] using hstep
  · exact .refl

theorem ledger_answerGracefulStop (status : AsStatus) (hphase : s.loop.phase ≠ .ended) :
    s.ledger.Steps (s.answerGracefulStop status).ledger := by
  have hrunning : s.ledger.ended = false := by simpa [ledger]
  unfold answerGracefulStop
  cases hstop : s.loop.gracefulStopMsg with
  | none =>
      apply Relation.ReflTransGen.single
      have hstep := Ledger.Step.stopped (l := s.ledger) hrunning (by simp [ledger, hstop])
      simpa [ledger, hstop] using hstep
  | some promise =>
      apply Relation.ReflTransGen.single
      have hstep := Ledger.Step.stoppedAnswered (l := s.ledger) promise status hrunning
        (by simp [ledger, hphase, hstop])
      simpa [ledger, hphase, hstop, Ledger.answer, setPromise] using hstep

theorem ledger_finishLoop (hphase : s.loop.phase = .check) :
    s.ledger.Steps s.finishLoop.ledger := by
  have hrunning : s.loop.phase ≠ .ended := by simp [hphase]
  unfold finishLoop
  split
  · split
    · have hsame : ({ s with loop.gracefulFinalReleased := true } : Engine).ledger = s.ledger := rfl
      exact hsame ▸ ledger_answerGracefulStop .success hrunning
    · exact ledger_answerGracefulStop .runtimeError hrunning
  · have hsame : ({ s with loop.phase := .messages } : Engine).ledger = s.ledger := by
      simp [ledger, hphase]
    rw [hsame]
    exact .refl

theorem ledger_emplace (s : Engine) (u : Uuid) (content : RequestContent) :
    (s.emplace u content).ledger = s.ledger := by
  unfold emplace
  dsimp only
  split <;> split <;> rfl

theorem ledger_eraseEntries (s : Engine) (u : Uuid) : (s.eraseEntries u).ledger = s.ledger := by
  unfold eraseEntries
  split <;> rfl

theorem ledger_setPromise (s : Engine) (promise : Nat) (status : AsStatus) :
    (s.setPromise promise status).ledger = s.ledger.answer promise status := rfl

theorem ledger_without (i : Nat) (s : Engine) : (s.without i).ledger = s.ledger.remove i := rfl

theorem ledger_handleReleaseRequest (s : Engine) (env : HandleEnv) (u : Uuid) (promise : Nat) :
    ∃ status, (s.handleReleaseRequest env u promise).ledger = s.ledger.answer promise status := by
  have herase := ledger_eraseEntries
    { s with model := (s.model.stopRequest env.stop ⟨u, false⟩).1.releaseRequest u } u
  refine ⟨(s.stopRequestById env.stop u).2, ?_⟩
  unfold handleReleaseRequest
  dsimp only
  rw [ledger_setPromise]
  apply congrArg
  split
  · exact herase
  · exact herase

theorem ledger_handleMessage {i : Nat} (env : HandleEnv) {msg : EngineControlMessage}
    (hphase : s.loop.phase = .messages) (hidle : s.loop.synchronizing = false)
    (hget : s.control.msgQueue[i]? = some msg) :
    s.ledger.Step ((s.without i).handleMessage cfg env msg).ledger := by
  have hrunning : s.ledger.ended = false := by simp [ledger, hphase]
  have hanswered := fun status => Ledger.Step.answered (l := s.ledger) i msg status hrunning hidle hget
  unfold handleMessage
  cases hbody : msg.body with
  | gracefulStopModel =>
      have hstep := Ledger.Step.stopping (l := s.ledger) i msg hrunning hidle hget hbody
      simpa [ledger, without, Ledger.remove, hphase] using hstep
  | startRequest u content =>
      dsimp only
      unfold handleStartRequest
      split
      · exact hanswered .requestDenied
      · have hstep := Ledger.Step.started (l := s.ledger) i msg hrunning hidle hget
          (by simp [hbody, MessageBody.waits])
        have hsame := ledger_emplace (s.without i) u content
        rw [ledger_without] at hsame
        exact hsame ▸ hstep
  | stopRequest u => exact hanswered _
  | syncRequest u => exact .deferred i msg hrunning hidle hget (by simp [hbody, MessageBody.waits])
  | syncAllRequest => exact .deferred i msg hrunning hidle hget (by simp [hbody, MessageBody.waits])
  | releaseRequest u =>
      obtain ⟨status, heq⟩ := ledger_handleReleaseRequest (s.without i) env u msg.promise
      dsimp only
      rw [heq]
      exact hanswered status

theorem ledger_holdLock {holder : Option LockHolder}
    (h : holder.bind LockHolder.promise? = s.clients.loraLock.bind LockHolder.promise?) :
    (s.holdLock holder).ledger = s.ledger :=
  congrArg (fun caller => { s.ledger with caller := caller }) h

theorem waits_body (request : WaitingCall) : request.body.waits = true := by
  cases request <;> rfl

/-- An event of the engine is a few steps of the ledger. -/
theorem Transition.ledger {e : Event} (h : Transition cfg s e t) : s.ledger.Steps t.ledger := by
  have hsame : t.ledger = s.ledger → s.ledger.Steps t.ledger := fun h => h ▸ .refl
  cases h with
  | startRequest content producer hlock =>
      apply hsame
      simp [Engine.ledger, hlock, LockHolder.promise?]
  | startDenied u content producer hlock =>
      exact hsame (ledger_holdLock (by simp [hlock, LockHolder.promise?]))
  | startPassed u content producer hlock =>
      exact hsame (ledger_holdLock (by simp [hlock, LockHolder.promise?]))
  | startEnqueued u content producer hlock =>
      have hstep := Ledger.Step.pushed (l := s.ledger) (.startRequest u content) producer rfl
      apply Relation.ReflTransGen.single
      simpa [Engine.ledger, holdLock, enqueue, Ledger.push, hlock, LockHolder.promise?] using hstep
  | startFailed u content producer hlock =>
      exact hsame (ledger_holdLock
        (s := { s with usage := s.usage.giveBack content.loraName })
        (by simp [hlock, LockHolder.promise?]))
  | called request producer hlock =>
      have hstep := Ledger.Step.called (l := s.ledger) request.body producer (waits_body request)
        (by simp [Engine.ledger, hlock])
      exact .single hstep
  | callReturned promise hlock hanswered =>
      have hstep := Ledger.Step.returned (l := s.ledger) promise
        (by simp [Engine.ledger, hlock, LockHolder.promise?]) hanswered
      exact .single hstep
  | stopEnqueued i producer hcall =>
      exact .single (Ledger.Step.pushed (l := s.ledger) .gracefulStopModel producer rfl)
  | message i env msg hphase hidle hfirst =>
      exact .single (ledger_handleMessage env hphase hidle hfirst.1)
  | executed hphase =>
      apply hsame
      simp [Engine.ledger, hphase]
  | contextRan isNewContext env other hphase =>
      apply hsame
      simp [Engine.ledger, hphase]
  | contextEnded isNewContext env other hphase =>
      apply hsame
      simp [Engine.ledger, beginUpdate, hphase]
  | entryUpdated u decoded rest hphase hmem =>
      obtain ⟨_, _, _, _, hframe⟩ := updateEntry_frame s u
      apply hsame
      simp [hframe, Engine.ledger, hphase]
  | updateEnded decoded hphase =>
      apply hsame
      cases decoded <;> simp [Engine.ledger, hphase]
  | decoded env hphase =>
      apply hsame
      simp [Engine.ledger, beginUpdate, hphase]
  | memoryOut env m hphase => exact hsame (ledger_handleMemoryOut s m env hphase)
  | checked hphase =>
      have hsync := ledger_finishSync (s := s) (by simp [hphase])
      have hafter : s.finishSync.loop.phase = .check := by
        unfold finishSync
        split
        · dsimp only
          split <;> exact hphase
        · exact hphase
      exact hsync.trans (ledger_finishLoop hafter)
  | _ => exact .refl

theorem ledger_next {e : Event} (hnext : s.next cfg e = some t) : s.ledger.Steps t.ledger :=
  (transition hnext).ledger

theorem ledger_run {es : List Event} (hrun : s.run cfg es = some t) : s.ledger.Steps t.ledger := by
  apply run_invariant (I := fun t => s.ledger.Steps t.ledger) _ .refl hrun
  intro q e r hsteps hnext
  exact hsteps.trans (ledger_next hnext)

theorem Reaches.ledger {loras : Finset String} {guard : Engine → Event → Prop}
    (h : Reaches cfg loras guard s) : s.ledger.Sound := by
  apply Reach.invariant (I := fun s => s.ledger.Sound) _ _ h
  · rintro q rfl
    exact ⟨Book.sound_empty, fun _ => rfl, rfl⟩
  · intro q r e hsound _ hnext
    exact (ledger_next hnext).sound hsound

end Simulation

/-- The promise of a message is set at most once, and keeps its value in every
later state. -/
theorem promise_once {cfg : Config} {loras : Finset String} {guard : Engine → Event → Prop}
    {s t : Engine} (h : Reaches cfg loras guard s) {es : List Event}
    (hrun : s.run cfg es = some t) (promise : Nat) :
    (t.clients.promises promise).length ≤ 1 ∧
      (s.clients.promises promise ≠ [] →
        t.clients.promises promise = s.clients.promises promise) := by
  have hsteps := ledger_run hrun
  refine ⟨(hsteps.sound h.ledger).book.once promise, fun hanswered => ?_⟩
  have hsettled : promise ∉ s.ledger.book.owed := fun howed =>
    hanswered (h.ledger.book.unanswered promise howed)
  exact (hsteps.book.settled (h.ledger.book.issued promise (.inr hanswered)) hsettled).2.2

/-- While a call waits for its answer, its message or its synchronisation is the
only one of such a call that is under way; while none waits, there is none. -/
theorem one_call_waits {cfg : Config} {loras : Finset String} {guard : Engine → Event → Prop}
    {s : Engine} (h : Reaches cfg loras guard s) :
    (s.control.msgQueue.filter fun msg => msg.body.waits).map EngineControlMessage.promise ++
        s.loop.deferredPromise.toList =
      match s.clients.loraLock with
      | some (.waiting promise) => if s.clients.promises promise = [] then [promise] else []
      | _ => [] := by
  have hcalls := h.ledger.calls
  simp only [Ledger.calls, Ledger.expected, ledger] at hcalls
  rw [hcalls]
  cases hlock : s.clients.loraLock with
  | none => rfl
  | some holder =>
      cases holder with
      | starting u content producer checked => rfl
      | waiting promise =>
          rcases eq_or_ne (s.clients.promises promise) [] with hopen | hanswered
          · simp [LockHolder.promise?, hopen]
          · simp [LockHolder.promise?, hanswered]

end Engine

/-- The events that take `lora_lock_` or let go of it. -/
def Event.usesLock : Event → Bool
  | .startRequest .. | .checkStopping | .enqueueStart _ | .call .. | .returnCall | .loadLora ..
  | .unloadLora _ => true
  | _ => false

namespace Engine

/-- A call that is not answered when the loop has ended holds the lock for
ever, and keeps every other call out. -/
theorem lock_held_after_end {cfg : Config} {s t : Engine} (hended : s.loop.phase = .ended)
    {promise : Nat} (hlock : s.clients.loraLock = some (.waiting promise))
    (hopen : s.clients.promises promise = []) {es : List Event} (hrun : s.run cfg es = some t) :
    t.clients.loraLock = some (.waiting promise) ∧ t.clients.promises promise = [] ∧
      ∀ e, e.usesLock = true → t.next cfg e = none := by
  have hcalls : s.ledger.caller = some promise := by simp [ledger, hlock, LockHolder.promise?]
  obtain ⟨_, hcaller, hopen'⟩ := (ledger_run hrun).ended (by simp [ledger, hended]) hcalls hopen
  have hlock' : t.clients.loraLock = some (.waiting promise) := by
    cases hholder : t.clients.loraLock with
    | none => simp [ledger, hholder] at hcaller
    | some holder =>
        cases holder with
        | starting u content producer checked => simp [ledger, hholder, LockHolder.promise?] at hcaller
        | waiting other => simpa [ledger, hholder, LockHolder.promise?] using hcaller
  have hanswers : t.clients.promises promise = [] := hopen'
  refine ⟨hlock', hanswers, fun e huses => ?_⟩
  cases e with
  | startRequest content producer => simp [next, Engine.startRequest, hlock']
  | checkStopping => simp [next, Engine.checkStopping, hlock']
  | enqueueStart enqueued => simp [next, Engine.enqueueStart, hlock']
  | call request producer => simp [next, Engine.call, hlock']
  | returnCall => simp [next, Engine.returnCall, hlock', hanswers]
  | loadLora name loaded => simp [next, hlock']
  | unloadLora name => simp [next, hlock']
  | _ => cases huses

/-- The model is stopped while idle. -/
def stopIdle : List Event :=
  [.stopModel, .flagStop 0, .enqueueStop 0 0 true, .dequeue 0 ⟨fun _ => 0, .done⟩,
    .skipMessageProcess, .context ⟨true, 0, 0, true, .refused false, fun _ => .done⟩ none,
    .endUpdate, .decode ⟨fun _ => 0, fun _ => false, fun _ => .done, none, [], 0, .done⟩,
    .endUpdate, .checkFinished]

theorem promise_once_stopIdle : ∃ s t, (start ∅).run tiny stopIdle = some s ∧
    s.clients.promises 0 = [.success] ∧ s.run tiny [.returnStop 0] = some t ∧
    t.clients.promises 0 = [.success] := by
  have hmap : ((start ∅).run tiny stopIdle).map (fun s => (s.clients.promises 0,
      (s.run tiny [.returnStop 0]).isSome)) = some ([.success], true) := rfl
  obtain ⟨s, hrun, hboth⟩ := Option.map_eq_some_iff.mp hmap
  obtain ⟨hanswer, hsome⟩ := Prod.mk.inj hboth
  obtain ⟨t, hnext⟩ := Option.isSome_iff_exists.mp hsome
  have hreaches := Reaches.run (.init rfl) (guarded_true tiny (start ∅) _) hrun
  refine ⟨s, t, hrun, hanswer, hnext, ?_⟩
  exact ((promise_once hreaches hnext 0).2 (by simp [hanswer])).trans hanswer

/-- A request is stopped after the model has ended. -/
theorem lock_held_after_end_stopIdle : ∃ s t,
    (start ∅).run tiny (stopIdle ++ [.call (.stopRequest 7) 1]) = some s ∧
    s.run tiny [.returnStop 0] = some t ∧ t.clients.loraLock = some (.waiting 1) ∧
    t.next tiny (.call .syncAllRequest 2) = none := by
  have hmap : ((start ∅).run tiny (stopIdle ++ [.call (.stopRequest 7) 1])).map (fun s =>
      (s.loop.phase, s.clients.loraLock, s.clients.promises 1,
        (s.run tiny [.returnStop 0]).isSome)) =
      some (.ended, some (.waiting 1), [], true) := rfl
  obtain ⟨s, hrun, hall⟩ := Option.map_eq_some_iff.mp hmap
  simp only [Prod.mk.injEq] at hall
  obtain ⟨hended, hlock, hopen, hsome⟩ := hall
  obtain ⟨t, hnext⟩ := Option.isSome_iff_exists.mp hsome
  obtain ⟨hlock', _, hout⟩ := lock_held_after_end hended hlock hopen hnext
  exact ⟨s, t, hrun, hnext, hlock', hout _ rfl⟩

theorem one_call_waits_called : ∃ s,
    (start ∅).run tiny [.call (.stopRequest 7) 1] = some s ∧
    s.clients.loraLock = some (.waiting 0) ∧
    (s.control.msgQueue.filter fun msg => msg.body.waits).map EngineControlMessage.promise ++
        s.loop.deferredPromise.toList = [0] := by
  have hmap : ((start ∅).run tiny [.call (.stopRequest 7) 1]).map (fun s =>
      (s.clients.loraLock, s.clients.promises 0)) = some (some (.waiting 0), []) := rfl
  obtain ⟨s, hrun, hboth⟩ := Option.map_eq_some_iff.mp hmap
  obtain ⟨hlock, hopen⟩ := Prod.mk.inj hboth
  have hwaits := one_call_waits (Reaches.run (.init rfl) (guarded_true tiny (start ∅) _) hrun)
  simp only [hlock, hopen, if_true] at hwaits
  exact ⟨s, hrun, hlock, hwaits⟩

end Engine

end DashInfer.Serving
