import DashInfer.Serving.Delivery
import DashInfer.Serving.Transitions

/-!
Memory-out handling: while the decoder reports that memory is out, each round
interrupts one request that generates, so that the decoder is called at most
once more than there are such requests.
-/

namespace DashInfer.Serving

open Lib

/-- The victim of the strategy `MaxLength` is a longest request. -/
theorem longest_max {l : List (Uuid × Nat)} {x : Uuid × Nat} (h : longest l = some x) :
    ∀ y ∈ l, y.2 ≤ x.2 := by
  have hfold : ∀ (b : Uuid × Nat) (rest : List (Uuid × Nat)), longest (b :: rest) = some x →
      ∀ y ∈ b :: rest, y.2 ≤ x.2 := by
    intro b rest
    induction rest generalizing b with
    | nil =>
        intro hsome y hy
        obtain rfl : b = x := by simpa [longest] using hsome
        simp [List.mem_singleton.mp hy]
    | cons c rest ih =>
        intro hsome y hy
        have hnext := ih (if b.2 < c.2 then c else b) hsome
        have hhead := hnext _ List.mem_cons_self
        rcases List.mem_cons.mp hy with rfl | hy
        · split at hhead <;> omega
        · rcases List.mem_cons.mp hy with rfl | hy
          · split at hhead <;> omega
          · exact hnext y (List.mem_cons_of_mem _ hy)
  cases l with
  | nil => cases h
  | cons b rest => exact hfold b rest h

namespace Engine

/-- The requests whose queue is being generated. -/
def generating (s : Engine) : Finset Uuid :=
  s.control.resultQueueMap.keys.filter fun u =>
    (s.queue? u).map ResultQueue.status = some .generating

/-- What a request has read and generated. -/
def totalLength (s : Engine) (u : Uuid) : Nat :=
  match s.handle? u with
  | some handle => handle.contextLength + handle.generateLength
  | none => 0

section Round

variable {cfg : Config} {s t : Engine} {u : Uuid}

theorem mem_generating :
    u ∈ s.generating ↔ ∃ queue, s.queue? u = some queue ∧ queue.status = .generating := by
  simp only [generating, Finset.mem_filter, Finmap.mem_keys, mem_queues, Option.map_eq_some_iff]
  constructor
  · exact fun h => h.2
  · rintro ⟨queue, hqueue, hstatus⟩
    exact ⟨⟨queue, hqueue⟩, queue, hqueue, hstatus⟩

/-- An interrupted queue is not generated any more. -/
theorem generating_interrupt {queue : ResultQueue} (hqueue : s.queue? u = some queue)
    (h : t.queue? = Function.update s.queue? u
      (some { queue with status := .generateInterrupted })) :
    t.generating = s.generating.erase u := by
  ext v
  rw [Finset.mem_erase, mem_generating, mem_generating, h]
  rcases eq_or_ne v u with rfl | hne
  · simp
  · simp [hne]

theorem chooseVictimRequest_none {strategy : AsEvictionStrategy} {random : Nat}
    {l : List (Uuid × Nat)} (h : chooseVictimRequest strategy random l = none) : l = [] := by
  cases strategy with
  | maxLength =>
      cases l with
      | nil => rfl
      | cons b rest =>
          obtain ⟨c, _, hsome⟩ := longest_cons b rest
          simp [chooseVictimRequest, hsome] at h
  | random =>
      by_contra hne
      have hlt : random % l.length < l.length :=
        Nat.mod_lt _ (List.length_pos_iff.mpr hne)
      simp [chooseVictimRequest, List.getElem?_eq_getElem hlt] at h

/-- A request that may be chosen is listed with its length. -/
theorem generatingRequests_length {order : List Uuid} {n : Nat}
    (h : (u, n) ∈ s.generatingRequests order) : n = s.totalLength u := by
  obtain ⟨v, _, heq⟩ := List.mem_filterMap.mp h
  split at heq
  · rename_i handle queue hhandle _
    split at heq
    · cases heq
      simp [totalLength, hhandle]
    · cases heq
  · cases heq

/-- Whoever generates may be chosen. -/
theorem Sound.mem_generatingRequests (h : s.Sound) {order : List Uuid}
    (horder : order.toFinset = s.control.requestHandleMap.keys) (hu : u ∈ s.generating) :
    (u, s.totalLength u) ∈ s.generatingRequests order := by
  obtain ⟨queue, hqueue, hstatus⟩ := mem_generating.mp hu
  obtain ⟨handle, hhandle⟩ := (h.handles u).mpr ((h.queues u).mp ⟨queue, hqueue⟩)
  have hmem : u ∈ order := by
    rw [← List.mem_toFinset, horder, Finmap.mem_keys, mem_handles]
    exact ⟨handle, hhandle⟩
  apply List.mem_filterMap.mpr
  refine ⟨u, hmem, ?_⟩
  simp [totalLength, hhandle, hqueue, hstatus]

/-- A round of the memory-out handling interrupts the queue of one request that
generates, a longest one where the strategy asks for it, or there is none and
the loop goes on. -/
theorem Sound.memoryOut_round (h : s.Sound) {env : DecodeEnv} (hout : env.memoryOut ≠ none)
    (hnext : s.next cfg (.decode env) = some t) :
    (t.loop.phase = .decode ∧ t.handle? = s.handle? ∧ ∃ victim ∈ s.generating,
        t.generating = s.generating.erase victim ∧
        (cfg.evictionStrategy = .maxLength →
          ∀ u ∈ s.generating, s.totalLength u ≤ s.totalLength victim)) ∨
      t.loop.phase ≠ .decode ∧ s.generating = ∅ ∧ t.generating = ∅ := by
  cases transition hnext with
  | decoded _ _ hnone => exact absurd hnone hout
  | memoryOut _ m hphase _ _ horder =>
      have hsame : ({ s with model := m } : Engine).generatingRequests env.order =
          s.generatingRequests env.order := rfl
      unfold handleMemoryOut
      rw [hsame]
      split
      · rename_i hnone
        have hempty : s.generating = ∅ := by
          apply Finset.eq_empty_of_forall_notMem
          intro u hu
          have hmem := h.mem_generatingRequests horder hu
          simp [chooseVictimRequest_none hnone] at hmem
        exact .inr ⟨by simp [beginUpdate], hempty, hempty⟩
      · rename_i victim hvictim
        left
        obtain ⟨n, hmem⟩ := chooseVictimRequest_mem hvictim
        obtain ⟨handle, queue, hhandle, hqueue, hstatus, _⟩ := Engine.mem_generatingRequests hmem
        have hqueue' : (({ s with model := m } : Engine).stopRequestById env.victimStop
            victim).1.queue? victim = some queue := hqueue
        unfold interruptQueue
        rw [hqueue']
        refine ⟨hphase, rfl, victim, mem_generating.mpr ⟨queue, hqueue, hstatus⟩, ?_, ?_⟩
        · exact generating_interrupt hqueue (queue?_putQueue ..)
        · intro hstrategy u hu
          rw [hstrategy, chooseVictimRequest, Option.map_eq_some_iff] at hvictim
          obtain ⟨x, hlongest, rfl⟩ := hvictim
          have hmax := longest_max hlongest _ (h.mem_generatingRequests horder hu)
          rw [generatingRequests_length (longest_mem _ hlongest)] at hmax
          exact hmax

theorem loop_decode {env : DecodeEnv} (hnext : s.next cfg (.decode env) = some t) : s.loop.phase = .decode := by
  cases transition hnext with
  | decoded _ hphase => exact hphase
  | memoryOut _ _ hphase => exact hphase

end Round

/-- While memory is out each call of the decoder interrupts one request that
generates, so that the last call, which finds none, comes when all of them are
interrupted. With the strategy `MaxLength` whoever is left is no longer than
anyone interrupted. -/
theorem memoryOut_rounds {cfg : Config} {loras : Finset String}
    {guard : Engine → Event → Prop} {s t : Engine} (h : Reaches cfg loras guard s)
    {envs : List DecodeEnv} (hout : ∀ env ∈ envs, env.memoryOut ≠ none)
    (hrun : s.run cfg (envs.map .decode) = some t) :
    t.generating ⊆ s.generating ∧
      (cfg.evictionStrategy = .maxLength → ∀ u ∈ t.generating, ∀ v ∈ s.generating,
        v ∉ t.generating → s.totalLength u ≤ s.totalLength v) ∧
      (t.loop.phase = .decode → t.generating.card + envs.length = s.generating.card) ∧
      (s.loop.phase = .decode → t.loop.phase ≠ .decode →
        t.generating = ∅ ∧ envs.length = s.generating.card + 1) := by
  have hsound := h.sound
  clear h
  induction envs generalizing s with
  | nil =>
      cases hrun
      exact ⟨subset_rfl, fun _ _ _ v hv hnot => absurd hv hnot, fun _ => rfl,
        fun hphase hnot => absurd hphase hnot⟩
  | cons env rest ih =>
      obtain ⟨q, hnext, hrest⟩ := Option.bind_eq_some_iff.mp hrun
      have hafter := fun hsound' =>
        ih (fun env hmem => hout env (List.mem_cons_of_mem _ hmem)) hrest hsound'
      obtain ⟨hsub, hshorter, hdecode, hleft⟩ := hafter (hsound.next hnext)
      rcases hsound.memoryOut_round (hout env List.mem_cons_self) hnext with
        ⟨hphase, hhandles, victim, hvictim, heq, hlongest⟩ | ⟨hphase, hnone, hnone'⟩
      · have hcard : q.generating.card + 1 = s.generating.card := by
          rw [heq, Finset.card_erase_add_one hvictim]
        have hfewer : q.generating ⊆ s.generating := heq ▸ Finset.erase_subset _ _
        have hlength : q.totalLength = s.totalLength := by
          funext u
          simp only [totalLength, hhandles]
        refine ⟨hsub.trans hfewer, fun hstrategy u hu v hv hgone => ?_, fun hstays => ?_,
          fun _ hleaves => ?_⟩
        · rcases eq_or_ne v victim with rfl | hne
          · exact hlongest hstrategy u (hfewer (hsub hu))
          · have hv' : v ∈ q.generating := by simp [heq, hne, hv]
            exact hlength ▸ hshorter hstrategy u hu v hv' hgone
        · have hcount := hdecode hstays
          simp only [List.length_cons]
          omega
        · obtain ⟨hempty, hcount⟩ := hleft hphase hleaves
          refine ⟨hempty, ?_⟩
          simp only [List.length_cons]
          omega
      · -- the loop has gone on, so this was the last call
        cases rest with
        | nil =>
            cases hrest
            refine ⟨by simp [hnone'], by simp [hnone'], fun hstays => absurd hstays hphase,
              fun _ _ => ?_⟩
            simp [hnone, hnone']
        | cons env' more =>
            obtain ⟨_, hagain, _⟩ := Option.bind_eq_some_iff.mp hrest
            exact absurd (loop_decode hagain) hphase

/-- Memory runs out, and the victim cannot be stopped. -/
def outOnce : DecodeEnv :=
  ⟨fun _ => 0, fun _ => false, fun _ => .done, some .notRun, [0], 0, .refused⟩

theorem memoryOut_rounds_outOnce : ∃ s t,
    (start ∅).run tiny (runOne (fun _ => 0) false ++ [.endUpdate]) = some s ∧
    s.generating = {0} ∧ s.run tiny [.decode outOnce, .decode outOnce] = some t ∧
    t.generating = ∅ := by
  have hmap : ((start ∅).run tiny (runOne (fun _ => 0) false ++ [.endUpdate])).map (fun s =>
      (s.loop.phase, s.generating, (s.run tiny [.decode outOnce, .decode outOnce]).map
        fun t => t.loop.phase)) = some (.decode, {0}, some (.update true {0})) := rfl
  obtain ⟨s, hrun, hall⟩ := Option.map_eq_some_iff.mp hmap
  simp only [Prod.mk.injEq] at hall
  obtain ⟨hphase, hgenerating, hmore⟩ := hall
  obtain ⟨t, hnext, hleft⟩ := Option.map_eq_some_iff.mp hmore
  refine ⟨s, t, hrun, hgenerating, hnext, ?_⟩
  have hreaches := Reaches.run (.init rfl) (guarded_true tiny (start ∅) _) hrun
  have hout : ∀ env ∈ [outOnce, outOnce], env.memoryOut ≠ none := by simp [outOnce]
  have hrounds := memoryOut_rounds hreaches hout hnext
  exact (hrounds.2.2.2 hphase (by simp [hleft])).1

end Engine

end DashInfer.Serving
