import DashInfer.Decode.Context
import Mathlib.Logic.Relation

/-!
The list of running contexts over whole runs: every context knows its position,
the contexts listed and not yet removed are there once each, and the scan at
the end of a step removes the finished ones and no other.
-/

namespace DashInfer.Decode

open Lib Serving

namespace GenerateContext

def id (c : GenerateContext) : RequestId := c.request.requestId

/-- The request of a context, its position and how many were listed before. -/
def place (c : GenerateContext) : RequestId × Nat × Nat := (c.id, c.currentBatch, c.serial)

/-- A context apart from its position. -/
def core (c : GenerateContext) : GenerateContext := { c with currentBatch := 0 }

@[simp] theorem core_id (c : GenerateContext) : c.core.id = c.id := rfl

/-- What does not depend on the position is the same for the same core. -/
theorem eq_of_core {α : Type} {c d : GenerateContext} (f : GenerateContext → α)
    (hf : ∀ e, f e.core = f e) (h : c.core = d.core) : f c = f d := by
  rw [← hf c, h, hf]

end GenerateContext

namespace RuntimeContext

theorem genCtxList_finishRequest {rt : RuntimeContext} {i : Nat} {c : GenerateContext}
    (h : rt.genCtxList[i]? = some c) :
    ∃ last, rt.genCtxList.getLast? = some last ∧
      (rt.finishRequest i).genCtxList =
        (rt.genCtxList.set i { last with currentBatch := i }).dropLast := by
  cases hlast : rt.genCtxList.getLast? with
  | none =>
      rw [List.getLast?_eq_none_iff] at hlast
      rw [hlast] at h
      cases h
  | some last => exact ⟨last, rfl, by rw [finishRequest, hlast]⟩

/-- The removed context and the others make up the list. -/
theorem finishRequest_perm {rt : RuntimeContext} {i : Nat} {c : GenerateContext}
    (h : rt.genCtxList[i]? = some c) :
    (c.core :: (rt.finishRequest i).genCtxList.map GenerateContext.core).Perm
      (rt.genCtxList.map GenerateContext.core) := by
  obtain ⟨last, hlast, hlist⟩ := genCtxList_finishRequest h
  have hswap : (rt.finishRequest i).genCtxList.map GenerateContext.core =
      swapRemove (rt.genCtxList.map GenerateContext.core) i := by
    rw [hlist, swapRemove, List.getLast?_map, hlast, List.map_dropLast, List.map_set]
    rfl
  rw [hswap]
  refine swapRemove_perm ?_
  rw [List.getElem?_map, h]
  rfl

/-- A position of the shortened list holds what it held, or the last context. -/
theorem getElem?_finishRequest {rt : RuntimeContext} {i k : Nat} {c d : GenerateContext}
    (h : rt.genCtxList[i]? = some c) (hd : (rt.finishRequest i).genCtxList[k]? = some d) :
    (k = i ∧ i + 1 < rt.genCtxList.length ∧ d.currentBatch = i ∧
      ∃ last, rt.genCtxList.getLast? = some last ∧ d = { last with currentBatch := i }) ∨
    (k ≠ i ∧ rt.genCtxList[k]? = some d) := by
  obtain ⟨last, hlast, hlist⟩ := genCtxList_finishRequest h
  rw [hlist, List.getElem?_dropLast, List.length_set] at hd
  split at hd
  case isFalse => cases hd
  case isTrue hk =>
      rw [List.getElem?_set] at hd
      split at hd
      case isTrue hik =>
          subst hik
          rw [if_pos (by omega), Option.some.injEq] at hd
          subst hd
          exact Or.inl ⟨rfl, by omega, rfl, last, hlast, rfl⟩
      case isFalse hik => exact Or.inr ⟨fun hki => hik hki.symm, hd⟩

end RuntimeContext

/-- The contexts of a model in order. -/
structure Consistent (m : AsModel) : Prop where
  position : ∀ (i : Nat) (c : GenerateContext), m.running[i]? = some c → c.currentBatch = i
  /-- Those listed and not removed, once each. -/
  listed : ((m.running ++ m.finished).map GenerateContext.serial).Perm (List.range m.started)
  ids : (m.running.map GenerateContext.id).Nodup
  pending : ∀ c ∈ m.running, ∀ r ∈ m.pendingRequestQueue, r.requestId ≠ c.id

theorem consistent_start : Consistent .start :=
  ⟨fun _ _ h => (by cases h), List.Perm.refl _, List.nodup_nil, fun _ h => (by cases h)⟩

section Stop

variable {m : AsModel} {c : GenerateContext} {i : Nat}

theorem running_finishRequest :
    (m.finishRequest i c).running = (m.runtimeCtx.finishRequest i).genCtxList := rfl

theorem mem_core {l l' : List GenerateContext} {d : GenerateContext}
    (h : (c.core :: l'.map GenerateContext.core).Perm (l.map GenerateContext.core))
    (hd : d ∈ l') : ∃ e ∈ l, e.core = d.core := by
  have hmem : d.core ∈ l.map GenerateContext.core :=
    h.subset (List.mem_cons_of_mem _ (List.mem_map_of_mem hd))
  exact List.mem_map.mp hmem

theorem map_core {α : Type} (f : GenerateContext → α) (hf : ∀ d, f d.core = f d)
    (l : List GenerateContext) : (l.map GenerateContext.core).map f = l.map f := by
  rw [List.map_map]
  exact List.map_congr_left fun d _ => hf d

/-- Removing a running context. -/
theorem Consistent.finishRequest (h : Consistent m) (hc : m.running[i]? = some c) :
    Consistent (m.finishRequest i c) := by
  have hperm := RuntimeContext.finishRequest_perm hc
  have hserial := hperm.map GenerateContext.serial
  have hids := hperm.map GenerateContext.id
  rw [List.map_cons, map_core _ (fun _ => rfl), map_core _ (fun _ => rfl)] at hserial hids
  refine ⟨?_, ?_, ?_, ?_⟩
  · intro k d hd
    rcases RuntimeContext.getElem?_finishRequest hc hd with ⟨rfl, -, hpos, -⟩ | ⟨-, hold⟩
    · exact hpos
    · exact h.position k d hold
  · have hlisted := h.listed
    rw [List.map_append] at hlisted ⊢
    refine List.Perm.trans ?_ hlisted
    calc
      List.Perm ((m.finishRequest i c).running.map GenerateContext.serial ++
          c.serial :: m.finished.map GenerateContext.serial)
        (c.serial :: ((m.finishRequest i c).running.map GenerateContext.serial ++
          m.finished.map GenerateContext.serial)) := List.perm_middle
      List.Perm _ (m.running.map GenerateContext.serial ++
          m.finished.map GenerateContext.serial) := hserial.append_right _
  · exact ((hids.nodup_iff).mpr h.ids).of_cons
  · intro d hd r hr
    obtain ⟨e, he, hcore⟩ := mem_core hperm hd
    have hid : e.core.id = d.core.id := congrArg GenerateContext.id hcore
    rw [GenerateContext.core_id, GenerateContext.core_id] at hid
    rw [← hid]
    exact h.pending e he r hr

/-- The id of a running context leads back to its position. -/
theorem Consistent.lastIdx?_eq (h : Consistent m) (hc : m.running[i]? = some c) :
    lastIdx? (fun d => decide (d.request.requestId = c.request.requestId)) m.running =
      some i := by
  cases hfind : lastIdx? (fun d => decide (d.request.requestId = c.request.requestId))
      m.running with
  | none =>
      have hmiss := lastIdx?_eq_none.mp hfind c (List.mem_of_getElem? hc)
      simp at hmiss
  | some j =>
      obtain ⟨d, hd, hid⟩ := lastIdx?_spec hfind
      have heq : d.id = c.id := of_decide_eq_true hid
      have hj : (m.running.map GenerateContext.id)[j]? = some c.id := by
        rw [List.getElem?_map, hd, Option.map_some, heq]
      have hi : (m.running.map GenerateContext.id)[i]? = some c.id := by
        rw [List.getElem?_map, hc, Option.map_some]
      have hlt : j < (m.running.map GenerateContext.id).length :=
        (List.getElem?_eq_some_iff.mp hj).choose
      rw [(List.getElem?_inj hlt h.ids).mp (hj.trans hi.symm)]

/-- What stopping a running request does. -/
theorem Consistent.stopRequest_running (h : Consistent m) (hc : m.running[i]? = some c)
    (outcome : StopOutcome) :
    m.stopRequest outcome c.request.requestId =
      match outcome with
      | .refused => (m, some .paramError)
      | .threw => (m, none)
      | .late =>
          ({ m.finishRequest i c with
              currentUnfinishedRequest := m.currentUnfinishedRequest - 1 }, some .runtimeError)
      | .done =>
          ({ m.finishRequest i c with
              currentUnfinishedRequest := m.currentUnfinishedRequest - 1 }, some .success) := by
  have hpending : ¬ ∃ r ∈ m.pendingRequestQueue, r.requestId = c.request.requestId := by
    rintro ⟨r, hr, hid⟩
    exact h.pending c (List.mem_of_getElem? hc) r hr hid
  rw [AsModel.stopRequest, if_neg hpending, h.lastIdx?_eq hc]
  dsimp only
  rw [hc]
  cases outcome <;> rfl

theorem Consistent.count {n : Int} (h : Consistent m) :
    Consistent { m with currentUnfinishedRequest := n } :=
  ⟨h.position, h.listed, h.ids, h.pending⟩

theorem Consistent.stopRequest (h : Consistent m) (outcome : StopOutcome) (id : RequestId) :
    Consistent (m.stopRequest outcome id).1 := by
  by_cases hpending : ∃ r ∈ m.pendingRequestQueue, r.requestId = id
  case pos =>
      rw [AsModel.stopRequest, if_pos hpending]
      exact ⟨h.position, h.listed, h.ids,
        fun d hd r hr => h.pending d hd r (List.mem_of_mem_filter hr)⟩
  case neg =>
      cases hfind : lastIdx? (fun d => decide (d.request.requestId = id)) m.running with
      | none =>
          rw [AsModel.stopRequest, if_neg hpending, hfind]
          exact h
      | some index =>
          obtain ⟨d, hd, hid⟩ := lastIdx?_spec hfind
          obtain rfl : d.request.requestId = id := of_decide_eq_true hid
          rw [h.stopRequest_running hd]
          cases outcome with
          | done => exact (h.finishRequest hd).count
          | late => exact (h.finishRequest hd).count
          | refused => exact h
          | threw => exact h

/-- A stop leaves contexts that were there before. -/
theorem Consistent.mem_stopRequest (h : Consistent m) {outcome : StopOutcome} {id : RequestId}
    {d : GenerateContext} (hd : d ∈ (m.stopRequest outcome id).1.running) :
    ∃ e ∈ m.running, e.core = d.core := by
  by_cases hpending : ∃ r ∈ m.pendingRequestQueue, r.requestId = id
  case pos =>
      rw [AsModel.stopRequest, if_pos hpending] at hd
      exact ⟨d, hd, rfl⟩
  case neg =>
      cases hfind : lastIdx? (fun e => decide (e.request.requestId = id)) m.running with
      | none =>
          rw [AsModel.stopRequest, if_neg hpending, hfind] at hd
          exact ⟨d, hd, rfl⟩
      | some index =>
          obtain ⟨e, he, hid⟩ := lastIdx?_spec hfind
          obtain rfl : e.request.requestId = id := of_decide_eq_true hid
          rw [h.stopRequest_running he] at hd
          cases outcome with
          | done => exact mem_core (RuntimeContext.finishRequest_perm he) hd
          | late => exact mem_core (RuntimeContext.finishRequest_perm he) hd
          | refused => exact ⟨d, hd, rfl⟩
          | threw => exact ⟨d, hd, rfl⟩

end Stop

/-- What a scan that has come down to position `i` has still to find. -/
def ScannedFrom (i : Nat) (m : AsModel) : Prop :=
  ∀ k, i ≤ k → ∀ c : GenerateContext, m.running[k]? = some c → c.finish = false

/-- What a scan did: it removed finished contexts only, and all of them unless
a stop failed. -/
structure Scanned (stops : RequestId → StopOutcome) (m m' : AsModel)
    (status : Option AsStatus) : Prop where
  removed : ∃ gone : List GenerateContext, (∀ c ∈ gone, c.finish = true) ∧
    (m.running.map GenerateContext.core).Perm
      (gone.map GenerateContext.core ++ m'.running.map GenerateContext.core)
  complete : status = some .success → ∀ c ∈ m'.running, c.finish = false
  succeeds : (∀ id, stops id = .done) → status = some .success

/-- A scan that a failing stop ends. -/
theorem Scanned.failed {stops : RequestId → StopOutcome} {m m' : AsModel}
    {status : Option AsStatus} {id : RequestId} {outcome : StopOutcome}
    (hremoved : ∃ gone : List GenerateContext, (∀ c ∈ gone, c.finish = true) ∧
      (m.running.map GenerateContext.core).Perm
        (gone.map GenerateContext.core ++ m'.running.map GenerateContext.core))
    (hstop : stops id = outcome) (houtcome : outcome ≠ .done) (hstatus : status ≠ some .success) :
    Scanned stops m m' status :=
  ⟨hremoved, fun h => absurd h hstatus, fun hdone => absurd (hstop.symm.trans (hdone id)) houtcome⟩

theorem removed_none {m : AsModel} :
    ∃ gone : List GenerateContext, (∀ c ∈ gone, c.finish = true) ∧
      (m.running.map GenerateContext.core).Perm
        (gone.map GenerateContext.core ++ m.running.map GenerateContext.core) :=
  ⟨[], fun _ hc => (by cases hc), List.Perm.refl _⟩

theorem ScannedFrom.finishRequest {m : AsModel} {c : GenerateContext} {i : Nat}
    (h : ScannedFrom (i + 1) m) (hc : m.running[i]? = some c) :
    ScannedFrom i (m.finishRequest i c) := by
  intro k hk d hd
  rcases RuntimeContext.getElem?_finishRequest hc hd with ⟨rfl, hlt, -, last, hlast, rfl⟩ | ⟨hne, hold⟩
  · -- the last context was scanned before
    rw [List.getLast?_eq_getElem?] at hlast
    exact h _ (by omega) last hlast
  · exact h k (by omega) d hold

/-- The scan from position `i` down. -/
theorem scanned_stopFinished (stops : RequestId → StopOutcome) {i : Nat} {m : AsModel}
    (h : Consistent m) (hscan : ScannedFrom i m) :
    Consistent (m.stopFinished stops i).1 ∧
      Scanned stops m (m.stopFinished stops i).1 (m.stopFinished stops i).2 := by
  induction i generalizing m with
  | zero =>
      refine ⟨h, removed_none, fun _ c hc => ?_, fun _ => rfl⟩
      obtain ⟨k, hk⟩ := List.mem_iff_getElem?.mp hc
      exact hscan k (Nat.zero_le k) c hk
  | succ i ih =>
      cases hc : m.running[i]? with
      | none =>
          have hstep : m.stopFinished stops (i + 1) = m.stopFinished stops i := by
            rw [AsModel.stopFinished, hc]
          rw [hstep]
          refine ih h fun k hk c hkc => ?_
          rcases Nat.eq_or_lt_of_le hk with rfl | hlt
          · rw [hc] at hkc
            cases hkc
          · exact hscan k hlt c hkc
      | some c =>
          cases hfin : c.finish with
          | false =>
              have hstep : m.stopFinished stops (i + 1) = m.stopFinished stops i := by
                rw [AsModel.stopFinished, hc]
                simp [hfin]
              rw [hstep]
              refine ih h fun k hk d hkd => ?_
              rcases Nat.eq_or_lt_of_le hk with rfl | hlt
              · obtain rfl : c = d := Option.some.inj (hc.symm.trans hkd)
                exact hfin
              · exact hscan k hlt d hkd
          | true =>
              have hperm := RuntimeContext.finishRequest_perm hc
              rw [AsModel.stopFinished, hc]
              simp only [hfin, if_true]
              rw [h.stopRequest_running hc]
              cases hout : stops c.request.requestId with
              | done =>
                  obtain ⟨hcons, ⟨gone, hall, hsplit⟩, hcomplete, hsucc⟩ :=
                    @ih { m.finishRequest i c with
                      currentUnfinishedRequest := m.currentUnfinishedRequest - 1 }
                      (h.finishRequest hc).count (hscan.finishRequest hc)
                  refine ⟨hcons, ⟨c :: gone, ?_, ?_⟩, hcomplete, hsucc⟩
                  · exact List.forall_mem_cons.mpr ⟨hfin, hall⟩
                  · exact hperm.symm.trans (hsplit.cons c.core)
              | late =>
                  refine ⟨(h.finishRequest hc).count, Scanned.failed ?_ hout (by decide) (by simp)⟩
                  exact ⟨[c], by simpa using hfin, hperm.symm⟩
              | refused =>
                  exact ⟨h, Scanned.failed removed_none hout (by decide) (by simp)⟩
              | threw => exact ⟨h, Scanned.failed removed_none hout (by decide) (by simp)⟩

/-- What happens to the pending requests and the running contexts. A request is
enqueued under an id of its own, and a context is listed for a request that no
longer waits and does not run yet. The operators of a step leave the identity
and the position of a context alone. -/
inductive Step : AsModel → AsModel → Prop
  | enqueue (m : AsModel) (r : Request) :
      (∀ q ∈ m.pendingRequestQueue, q.requestId ≠ r.requestId) →
      (∀ c ∈ m.running, c.id ≠ r.requestId) → Step m (m.startRequestImpl r)
  | pop (m : AsModel) :
      Step m { m with pendingRequestQueue := m.pendingRequestQueue.tail }
  | list (m : AsModel) (c : GenerateContext) :
      (∀ q ∈ m.pendingRequestQueue, q.requestId ≠ c.id) → (∀ d ∈ m.running, d.id ≠ c.id) →
      Step m (m.pushBackGenCtx c)
  | operate (m : AsModel) (f : GenerateContext → GenerateContext) :
      (∀ c, (f c).id = c.id ∧ (f c).currentBatch = c.currentBatch ∧ (f c).serial = c.serial) →
      Step m (m.withRunning (m.running.map f))
  | stop (m : AsModel) (outcome : StopOutcome) (id : RequestId) :
      Step m (m.stopRequest outcome id).1
  | scan (m : AsModel) (stops : RequestId → StopOutcome) :
      Step m (m.stopFinished stops m.running.length).1

def Reachable (m : AsModel) : Prop := Relation.ReflTransGen Step .start m

theorem scannedFrom_length (m : AsModel) : ScannedFrom m.running.length m := by
  intro k hk c hc
  rw [List.getElem?_eq_none hk] at hc
  cases hc

theorem Consistent.pushBackGenCtx {m : AsModel} {c : GenerateContext} (h : Consistent m)
    (hpending : ∀ q ∈ m.pendingRequestQueue, q.requestId ≠ c.id)
    (hrunning : ∀ d ∈ m.running, d.id ≠ c.id) : Consistent (m.pushBackGenCtx c) := by
  have hlist : (m.pushBackGenCtx c).running = m.running ++
      [{ c with serial := m.started, currentBatch := m.running.length }] := rfl
  refine ⟨?_, ?_, ?_, ?_⟩
  · intro i d hd
    rw [hlist, List.getElem?_append] at hd
    split at hd
    case isTrue => exact h.position i d hd
    case isFalse hi =>
        obtain ⟨hlt, hd⟩ := List.getElem?_eq_some_iff.mp hd
        rw [List.length_singleton] at hlt
        simp only [List.getElem_singleton] at hd
        subst hd
        dsimp only
        omega
  · rw [hlist, List.append_assoc, List.singleton_append, List.map_append, List.map_cons]
    have hrange : List.range (m.pushBackGenCtx c).started = List.range m.started ++ [m.started] :=
      List.range_succ
    rw [hrange]
    refine List.perm_middle.trans ?_
    refine List.Perm.trans ?_ (List.perm_append_singleton _ _).symm
    rw [← List.map_append]
    exact h.listed.cons m.started
  · rw [hlist, List.map_append, List.nodup_append]
    refine ⟨h.ids, List.nodup_singleton _, ?_⟩
    intro id hid id' hid' heq
    obtain ⟨d, hd, rfl⟩ := List.mem_map.mp hid
    obtain rfl := List.mem_singleton.mp hid'
    exact hrunning d hd heq
  · intro d hd r hr
    rw [hlist] at hd
    rcases List.mem_append.mp hd with hd | hd
    · exact h.pending d hd r hr
    · obtain rfl := List.mem_singleton.mp hd
      exact hpending r hr

/-- Consistency reads the places of the contexts only. -/
theorem Consistent.withRunning {m : AsModel} {l : List GenerateContext} (h : Consistent m)
    (hplace : l.map GenerateContext.place = m.running.map GenerateContext.place) :
    Consistent (m.withRunning l) := by
  have hlist : (m.withRunning l).running = l := rfl
  have hserial : l.map GenerateContext.serial = m.running.map GenerateContext.serial := by
    have hmap := congrArg (List.map fun place => place.2.2) hplace
    rwa [List.map_map, List.map_map] at hmap
  have hids : l.map GenerateContext.id = m.running.map GenerateContext.id := by
    have hmap := congrArg (List.map Prod.fst) hplace
    rwa [List.map_map, List.map_map] at hmap
  refine ⟨?_, ?_, ?_, ?_⟩
  · intro i d hd
    have hget := congrArg (fun places => places[i]?) hplace
    simp only [List.getElem?_map] at hget
    rw [hlist] at hd
    rw [hd] at hget
    obtain ⟨c, hc, hcd⟩ := Option.map_eq_some_iff.mp hget.symm
    have hbatch : c.currentBatch = d.currentBatch := congrArg (fun place => place.2.1) hcd
    rw [← hbatch]
    exact h.position i c hc
  · rw [hlist, List.map_append, hserial, ← List.map_append]
    exact h.listed
  · rw [hlist, hids]
    exact h.ids
  · intro d hd r hr
    rw [hlist] at hd
    have hmem : d.id ∈ m.running.map GenerateContext.id := by
      rw [← hids]
      exact List.mem_map_of_mem hd
    obtain ⟨c, hc, hcd⟩ := List.mem_map.mp hmem
    rw [← hcd]
    exact h.pending c hc r hr

theorem Consistent.operate {m : AsModel} {f : GenerateContext → GenerateContext}
    (h : Consistent m)
    (hf : ∀ c, (f c).id = c.id ∧ (f c).currentBatch = c.currentBatch ∧ (f c).serial = c.serial) :
    Consistent (m.withRunning (m.running.map f)) := by
  refine h.withRunning ?_
  rw [List.map_map]
  refine List.map_congr_left fun c _ => ?_
  obtain ⟨hid, hbatch, hserial⟩ := hf c
  exact Prod.ext hid (Prod.ext hbatch hserial)

theorem Consistent.step {m m' : AsModel} (h : Consistent m) (hstep : Step m m') :
    Consistent m' := by
  cases hstep with
  | enqueue r hpending hrunning =>
      refine ⟨h.position, h.listed, h.ids, fun c hc q hq => ?_⟩
      rcases List.mem_append.mp hq with hq | hq
      · exact h.pending c hc q hq
      · obtain rfl := List.mem_singleton.mp hq
        exact (hrunning c hc).symm
  | pop =>
      exact ⟨h.position, h.listed, h.ids,
        fun c hc q hq => h.pending c hc q (List.mem_of_mem_tail hq)⟩
  | list c hpending hrunning => exact h.pushBackGenCtx hpending hrunning
  | operate f hf => exact h.operate hf
  | stop outcome id => exact h.stopRequest outcome id
  | scan stops => exact (scanned_stopFinished stops h (scannedFrom_length m)).1

theorem consistent_of_reachable {m : AsModel} (h : Reachable m) : Consistent m := by
  induction h with
  | refl => exact consistent_start
  | tail _ hstep ih => exact ih.step hstep

/-- The contexts a complete scan leaves are the unfinished ones. -/
theorem Scanned.kept {stops : RequestId → StopOutcome} {m m' : AsModel}
    {status : Option AsStatus} (h : Scanned stops m m' status) (hstatus : status = some .success) :
    (m'.running.map GenerateContext.core).Perm
      ((m.running.filter fun c => !c.finish).map GenerateContext.core) := by
  obtain ⟨gone, hgone, hsplit⟩ := h.removed
  have hunfinished := hsplit.filter fun c => !c.finish
  have hnone : (gone.map GenerateContext.core).filter (fun c => !c.finish) = [] := by
    rw [List.filter_eq_nil_iff]
    intro c hc
    obtain ⟨d, hd, rfl⟩ := List.mem_map.mp hc
    simp [GenerateContext.core, hgone d hd]
  have hall : (m'.running.map GenerateContext.core).filter (fun c => !c.finish) =
      m'.running.map GenerateContext.core := by
    rw [List.filter_eq_self]
    intro c hc
    obtain ⟨d, hd, rfl⟩ := List.mem_map.mp hc
    simp [GenerateContext.core, h.complete hstatus d hd]
  rw [List.filter_append, hnone, hall, List.nil_append, List.filter_map] at hunfinished
  exact hunfinished.symm

/-- No scan removes an unfinished context. -/
theorem Scanned.mem {stops : RequestId → StopOutcome} {m m' : AsModel}
    {status : Option AsStatus} (h : Scanned stops m m' status) {c : GenerateContext}
    (hc : c ∈ m.running) (hfinish : c.finish = false) :
    c.core ∈ m'.running.map GenerateContext.core := by
  obtain ⟨gone, hgone, hsplit⟩ := h.removed
  rcases List.mem_append.mp (hsplit.subset (List.mem_map_of_mem hc)) with hmem | hmem
  · obtain ⟨d, hd, hcore⟩ := List.mem_map.mp hmem
    have hfin : d.core.finish = c.core.finish := congrArg GenerateContext.finish hcore
    have hd := hgone d hd
    simp only [GenerateContext.core] at hfin
    rw [hd, hfinish] at hfin
    cases hfin
  · exact hmem

/-- A complete scan decides by the finish flag whether a request goes on. -/
theorem Scanned.id_mem_iff {stops : RequestId → StopOutcome} {m m' : AsModel}
    {status : Option AsStatus} (h : Scanned stops m m' status) (hcons : Consistent m)
    (hstatus : status = some .success) {c : GenerateContext} (hc : c ∈ m.running) :
    c.id ∈ m'.running.map GenerateContext.id ↔ c.finish = false := by
  refine ⟨fun hmem => ?_, fun hfinish => ?_⟩
  · obtain ⟨d, hd, hid⟩ := List.mem_map.mp hmem
    obtain ⟨e, he, hcore⟩ := List.mem_map.mp
      ((h.kept hstatus).subset (List.mem_map_of_mem hd))
    obtain ⟨he, hunfinished⟩ := List.mem_filter.mp he
    have hec : e.id = c.id := by
      rw [← hid, ← GenerateContext.core_id e, hcore, GenerateContext.core_id]
    obtain rfl := List.inj_on_of_nodup_map hcons.ids he hc hec
    simpa using hunfinished
  · obtain ⟨d, hd, hcore⟩ := List.mem_map.mp (h.mem hc hfinish)
    refine List.mem_map.mpr ⟨d, hd, ?_⟩
    rw [← GenerateContext.core_id d, hcore, GenerateContext.core_id]

/-- What a scan leaves was there before. -/
theorem Scanned.core_mem {stops : RequestId → StopOutcome} {m m' : AsModel}
    {status : Option AsStatus} (h : Scanned stops m m' status) {d : GenerateContext}
    (hd : d ∈ m'.running) : ∃ c ∈ m.running, c.core = d.core := by
  obtain ⟨gone, -, hsplit⟩ := h.removed
  exact List.mem_map.mp (hsplit.symm.subset
    (List.mem_append_right _ (List.mem_map_of_mem hd)))

theorem pendingRequestQueue_stopRequest (m : AsModel) (outcome : StopOutcome) (id : RequestId) :
    (m.stopRequest outcome id).1.pendingRequestQueue.Sublist m.pendingRequestQueue := by
  rw [AsModel.stopRequest]
  split
  · exact List.filter_sublist
  · split
    · exact List.Sublist.refl _
    · split <;> exact List.Sublist.refl _

theorem pendingRequestQueue_stopFinished (stops : RequestId → StopOutcome) (i : Nat)
    (m : AsModel) :
    (m.stopFinished stops i).1.pendingRequestQueue.Sublist m.pendingRequestQueue := by
  induction i generalizing m with
  | zero => exact List.Sublist.refl _
  | succ i ih =>
      rw [AsModel.stopFinished]
      split
      · exact ih m
      · rename_i c _
        split
        · have hstop := pendingRequestQueue_stopRequest m (stops c.request.requestId)
            c.request.requestId
          split
          · rename_i m' heq
            rw [heq] at hstop
            exact (ih m').trans hstop
          · exact hstop
        · exact ih m

/-- In every reachable state each context knows its position, the contexts
listed and not removed are in the list once each, and a scan removes all the
finished contexts, unless a stop fails, and no unfinished one. -/
theorem genCtxList_consistent {m : AsModel} (h : Reachable m) :
    (∀ (i : Nat) (c : GenerateContext), m.running[i]? = some c → c.currentBatch = i) ∧
      ((m.running ++ m.finished).map GenerateContext.serial).Perm (List.range m.started) ∧
      ∀ stops : RequestId → StopOutcome,
        ((m.stopFinished stops m.running.length).2 = some .success →
          ((m.stopFinished stops m.running.length).1.running.map GenerateContext.core).Perm
            ((m.running.filter fun c => !c.finish).map GenerateContext.core)) ∧
        (∀ c ∈ m.running, c.finish = false →
          c.core ∈ (m.stopFinished stops m.running.length).1.running.map GenerateContext.core) ∧
        ((∀ id, stops id = .done) →
          (m.stopFinished stops m.running.length).2 = some .success) := by
  have hcons := consistent_of_reachable h
  refine ⟨hcons.position, hcons.listed, fun stops => ?_⟩
  have hscan := (scanned_stopFinished stops hcons (scannedFrom_length m)).2
  exact ⟨hscan.kept, fun c hc => hscan.mem hc, hscan.succeeds⟩

/-- A context of request `n`. -/
def listedContext (n : Nat) (finish : Bool) : GenerateContext :=
  let genCfg : GenerateConfig := ⟨8, false, 0, [], true, 1⟩
  ⟨⟨⟨n, false⟩, [], genCfg, none, ⟨fun _ => 0, 8, 8⟩, false, .init⟩, genCfg, 0, 0, 0, finish, false,
    0, 0, 0, [], [], 0⟩

/-- Two of three contexts are finished, the last one among them. -/
def threeContexts : AsModel :=
  ((AsModel.start.pushBackGenCtx (listedContext 0 true)).pushBackGenCtx
    (listedContext 1 false)).pushBackGenCtx (listedContext 2 true)

theorem reachable_threeContexts : Reachable threeContexts := by
  refine ((Relation.ReflTransGen.refl.tail (Step.list _ _ ?_ ?_)).tail
    (Step.list _ _ ?_ ?_)).tail (Step.list _ _ ?_ ?_)
  all_goals decide

theorem genCtxList_consistent_threeContexts :
    (∀ (i : Nat) (c : GenerateContext), threeContexts.running[i]? = some c →
        c.currentBatch = i) ∧
      ((threeContexts.running ++ threeContexts.finished).map GenerateContext.serial).Perm
        (List.range threeContexts.started) ∧
      ∀ stops : RequestId → StopOutcome,
        ((threeContexts.stopFinished stops threeContexts.running.length).2 = some .success →
          ((threeContexts.stopFinished stops threeContexts.running.length).1.running.map
            GenerateContext.core).Perm
            ((threeContexts.running.filter fun c => !c.finish).map GenerateContext.core)) ∧
        (∀ c ∈ threeContexts.running, c.finish = false →
          c.core ∈ (threeContexts.stopFinished stops threeContexts.running.length).1.running.map
            GenerateContext.core) ∧
        ((∀ id, stops id = .done) →
          (threeContexts.stopFinished stops threeContexts.running.length).2 = some .success) :=
  genCtxList_consistent reachable_threeContexts

end DashInfer.Decode
