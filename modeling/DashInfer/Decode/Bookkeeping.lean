import DashInfer.Decode.Orderly

/-!
Decode bookkeeping over whole runs of a CUDA rank: between steps every running
sequence has its ids, its step and its cached lengths in line, and a step
removes a sequence exactly when its end is due.
-/

namespace DashInfer.Decode

open Lib Serving

/-- The ids of the sequence of a context. -/
def GenerateContext.ids (c : GenerateContext) : List Int :=
  match c.request.generatedIds with
  | none => []
  | some t => t.ids

/-- A context step has no more new tokens than its request may have in all. -/
def Action.Fits : Action → Prop
  | .context request input => request.Fits input.prefixLen
  | _ => True

theorem Bookkept.ids_eq {w : Worker} {ids : List Int} {c : GenerateContext}
    (h : Bookkept w ids c) : c.ids = ids := by
  obtain ⟨t, ht, hids, -⟩ := h.generatedIds
  rw [GenerateContext.ids, ht]
  exact hids

theorem Bookkept.self {w : Worker} {ids : List Int} {c : GenerateContext}
    (h : Bookkept w ids c) : Bookkept w c.ids c := by
  rw [h.ids_eq]
  exact h

/-- What holds of a CUDA rank between steps. -/
def Sound (w : Worker) (m : AsModel) : Prop :=
  Orderly (fun c => Bookkept w c.ids c) (Verified w) m

theorem bookkept_core {w : Worker} (c d : GenerateContext) (hcore : c.core = d.core)
    (h : Bookkept w c.ids c) : Bookkept w d.ids d :=
  (h.of_core hcore).self

section Steps

variable {w : Worker} {m : AsModel} {r : Request}

/-- A context step leaves a sound state, whatever the span cache can give. -/
theorem Sound.startRequest {input : ContextInput} (hcuda : w.device = .cuda) (h : Sound w m)
    (hpending : ∀ q ∈ m.pendingRequestQueue, q.requestId ≠ r.requestId)
    (hrunning : ∀ c ∈ m.running, c.id ≠ r.requestId) (hr : Verified w r)
    (hwhole : ¬ Ends r.genCfg (r.inputIds ++ [input.decId]) → r.requestId.chunk = false)
    (hprior : input.prefixLen ≤ r.inputIds.length) (hfits : r.Fits input.prefixLen) :
    Sound w (w.startRequest input r m).1 := by
  cases hframes : input.frames with
  | true =>
      obtain ⟨c, hrun, hbook⟩ := @Worker.runDecoderContext_bookkept w r input
        m.running.length m.started hcuda hr hprior hfits hframes
      have hkept := Worker.runDecoderContext_kept hrun
      refine Orderly.startRequest bookkept_core h hpending hrunning hrun hbook.self fun hfinish => ?_
      have hid : c.id = r.requestId := congrArg Prod.fst hkept.place
      rw [hid]
      refine hwhole ?_
      have hcfg : c.genCfg = r.genCfg := hkept.genCfg
      rw [← hcfg]
      exact of_decide_eq_false (hbook.finish.symm.trans hfinish)
  | false =>
      exact Orderly.startRequest_none bookkept_core h hpending hrunning
        (Worker.runDecoderContext_frames hcuda hr hfits hframes)

/-- In a sound state no operator of a decode step fails. -/
theorem Sound.decodeOne {input : DecodeInput} (hcuda : w.device = .cuda) (h : Sound w m)
    {c : GenerateContext} (hc : c ∈ m.running) :
    w.decodeOne input c = some (w.decoded input c) ∧
      Bookkept w (c.ids ++ [input.decIds c.currentBatch]) (w.decoded input c) := by
  obtain ⟨d, hd, hbook⟩ :=
    Worker.decodeOne_bookkept hcuda (h.running c hc) (h.unfinished c hc) input
  have hdec : w.decoded input c = d := by rw [Worker.decoded, hd, Option.getD_some]
  rw [hdec]
  exact ⟨hd, hbook⟩

theorem fits_chunk {newLen prefixLen : Nat} (hlt : newLen < r.inputIds.length) :
    (r.chunk newLen).Fits prefixLen := by
  refine Or.inr ?_
  rw [length_chunk hlt]
  show ((newLen - prefixLen : Nat) : Int) ≤ ((newLen + 1 : Nat) : Int)
  omega

theorem ends_chunk {newLen : Nat} (hlt : newLen < r.inputIds.length) (id : Int) :
    Ends (r.chunk newLen).genCfg ((r.chunk newLen).inputIds ++ [id]) := by
  refine Or.inl ?_
  rw [List.length_append, length_chunk hlt]
  exact Int.le_refl _

/-- One action keeps a rank sound, if a context step fits. -/
theorem Sound.step {m' : AsModel} {a : Action} (hcuda : w.device = .cuda) (h : Sound w m)
    (hfits : a.Fits) (hstep : w.Step m a m') : Sound w m' := by
  cases hstep with
  | enqueue hr hwhole hpending hrunning => exact h.startRequestImpl hr hwhole hpending hrunning
  | context hqueue hprior =>
      obtain ⟨hpop, hpending, hrunning, hr, hwhole⟩ := h.pop hqueue
      exact Sound.startRequest hcuda hpop hpending hrunning hr (fun _ => hwhole) hprior hfits
  | @chunk r rest newLen input hqueue hprior hpos hlt =>
      obtain ⟨hpending, hrunning⟩ := h.chunk r newLen
      have hr := (h.pop hqueue).2.2.2.1
      refine Sound.startRequest hcuda h hpending hrunning (hr.chunk hpos hlt)
        (fun hends => absurd (ends_chunk hlt _) hends) ?_ (fits_chunk hlt)
      rw [length_chunk hlt]
      exact hprior
  | decode heq =>
      exact Orderly.generateContinueDecoder bookkept_core h
        (fun c hc => (h.decodeOne hcuda hc).2.self) heq
  | stop => exact Orderly.stopRequest bookkept_core h _

end Steps

theorem sound_of_run {w : Worker} {actions : List Action} {m : AsModel} (hcuda : w.device = .cuda)
    (hrun : w.Run actions m) (hfits : ∀ a ∈ actions, a.Fits) : Sound w m := by
  induction hrun with
  | start => exact orderly_start
  | step _ hstep ih =>
      have hbefore := ih fun a ha => hfits a (List.mem_append_left _ ha)
      exact hbefore.step hcuda (hfits _ (List.mem_append_right _ (List.mem_singleton_self _))) hstep

/-- The bookkeeping of a running request between steps. -/
structure InLine (w : Worker) (c : GenerateContext) : Prop where
  length : c.ids.length = c.step + 1
  kCache : c.virtualKCache = List.replicate w.decoderLayer c.step
  vCache : c.virtualVCache = List.replicate w.decoderLayer c.step
  prompt : c.ids.take c.inputLen = c.request.inputIds
  global : w.rankId = 0 → c.request.generatedIdsGlobal.ids = c.ids
  goesOn : ¬ Ends c.genCfg c.ids

theorem Sound.inLine {w : Worker} {m : AsModel} {c : GenerateContext} (h : Sound w m)
    (hc : c ∈ m.running) : InLine w c where
  length := (h.running c hc).length
  kCache := (h.running c hc).kCache
  vCache := (h.running c hc).vCache
  prompt := by
    rw [(h.running c hc).inputLen]
    exact (List.prefix_iff_eq_take.mp (h.running c hc).prompt).symm
  global := (h.running c hc).global
  goesOn := of_decide_eq_false ((h.running c hc).finish.symm.trans (h.unfinished c hc))

/-- What a scan decides on a bookkept sequence. -/
theorem scan_decides {w : Worker} {m : AsModel} {c : GenerateContext} {ids : List Int}
    (hcons : Consistent m) (hc : c ∈ m.running) (hbook : Bookkept w ids c) :
    (c.id ∈ (m.stopFinished (fun _ => .done) m.running.length).1.running.map GenerateContext.id ↔
      ¬ Ends c.genCfg ids) ∧
    ∀ d ∈ (m.stopFinished (fun _ => .done) m.running.length).1.running, d.id = c.id →
      d.ids = ids := by
  have hscan := (scanned_stopFinished (fun _ => .done) hcons (scannedFrom_length m)).2
  refine ⟨?_, fun d hd hid => ?_⟩
  · rw [hscan.id_mem_iff hcons (hscan.succeeds fun _ => rfl) hc, hbook.finish,
      decide_eq_false_iff_not]
  · obtain ⟨e, he, hcore⟩ := hscan.core_mem hd
    have heid : e.id = c.id := by
      rw [GenerateContext.eq_of_core GenerateContext.id (fun _ => rfl) hcore, hid]
    obtain rfl := List.inj_on_of_nodup_map hcons.ids he hc heid
    exact (hbook.of_core hcore).ids_eq

/-- A context step leaves the sequences that already run. -/
theorem startRequest_keeps {w : Worker} {m : AsModel} {r : Request} {input : ContextInput}
    (hcuda : w.device = .cuda) (h : Sound w m)
    (hpending : ∀ q ∈ m.pendingRequestQueue, q.requestId ≠ r.requestId)
    (hrunning : ∀ c ∈ m.running, c.id ≠ r.requestId) (hr : Verified w r)
    (hprior : input.prefixLen ≤ r.inputIds.length) (hfits : r.Fits input.prefixLen)
    {c : GenerateContext} (hc : c ∈ m.running) :
    c.id ∈ (w.startRequest input r m).1.running.map GenerateContext.id := by
  cases hframes : input.frames with
  | true =>
      obtain ⟨d, hrun, -⟩ := @Worker.runDecoderContext_bookkept w r input m.running.length m.started
        hcuda hr hprior hfits hframes
      have hcons := consistent_ran h.consistent hpending hrunning hrun
      have hmem : c ∈ (m.ran w input r d).running := List.mem_append_left _ hc
      rw [startRequest_eq, hrun]
      exact ((scan_decides hcons hmem (h.running c hc)).1).mpr (h.inLine hc).goesOn
  | false =>
      have hperm := @core_stopRequest_listed w m r input h.consistent hpending hrunning
      rw [startRequest_eq, Worker.runDecoderContext_frames hcuda hr hfits hframes]
      obtain ⟨d, hd, hcore⟩ :=
        List.mem_map.mp (hperm.symm.subset (List.mem_map_of_mem hc))
      exact List.mem_map.mpr
        ⟨d, hd, GenerateContext.eq_of_core GenerateContext.id (fun _ => rfl) hcore⟩

/-- The running sequences are in line, and a step ends exactly those whose end
is due with it. -/
structure KeepsBooks (w : Worker) (m : AsModel) : Prop where
  inLine : ∀ c ∈ m.running, InLine w c
  /-- A context step keeps its sequence unless its end is due at once. -/
  context : ∀ (r : Request) (input : ContextInput) (m' : AsModel),
    w.Step m (.context r input) m' → r.Fits input.prefixLen → input.frames = true →
    (r.requestId ∈ m'.running.map GenerateContext.id ↔
      ¬ Ends r.genCfg (r.inputIds ++ [input.decId])) ∧
    ∀ d ∈ m'.running, d.id = r.requestId → d.ids = r.inputIds ++ [input.decId]
  /-- The other sequences leave in a decode step or when stopped. -/
  others : ∀ (a : Action) (m' : AsModel), w.Step m a m' → a.Fits →
    (∀ input, a ≠ .decode input) → (∀ id, a ≠ .stop id) →
    ∀ c ∈ m.running, c.id ∈ m'.running.map GenerateContext.id
  /-- No check of a decode step fails, and it keeps the sequences whose end is
  not due. -/
  decode : ∀ input : DecodeInput, ∃ (m' : AsModel) (status : Option AsStatus),
    w.generateContinueDecoder input m = some (m', status) ∧
    ∀ (i : Nat) (c : GenerateContext), m.running[i]? = some c →
      (c.id ∈ m'.running.map GenerateContext.id ↔
        ¬ Ends c.genCfg (c.ids ++ [input.decIds i])) ∧
      ∀ d ∈ m'.running, d.id = c.id → d.ids = c.ids ++ [input.decIds i]

/-- The books are kept in every run of a CUDA rank whose context steps have no
more new tokens than their requests may have in all. -/
theorem bookkeeping_of_run {w : Worker} {actions : List Action} {m : AsModel}
    (hcuda : w.device = .cuda) (hrun : w.Run actions m) (hfits : ∀ a ∈ actions, a.Fits) :
    KeepsBooks w m := by
  have h := sound_of_run hcuda hrun hfits
  refine ⟨fun c hc => h.inLine hc, ?_, ?_, ?_⟩
  · intro r input m' hstep hfit hframes
    cases hstep with
    | @context _ rest _ hqueue hprior =>
        obtain ⟨hpop, hpending, hrunning, hr, -⟩ := h.pop hqueue
        obtain ⟨c, hrun, hbook⟩ := @Worker.runDecoderContext_bookkept w r input m.running.length
          m.started hcuda hr hprior hfit hframes
        have hkept := Worker.runDecoderContext_kept hrun
        have hid : c.id = r.requestId := congrArg Prod.fst hkept.place
        have hcfg : c.genCfg = r.genCfg := hkept.genCfg
        have hcons := consistent_ran hpop.consistent hpending hrunning hrun
        have heq := startRequest_eq w input r { m with pendingRequestQueue := rest }
        have hrun' : w.runDecoderContext input (w.listed input r
            ({ m with pendingRequestQueue := rest } : AsModel).running.length m.started) =
            some (c, .success) := hrun
        rw [hrun'] at heq
        rw [heq, ← hid, ← hcfg]
        exact scan_decides hcons (List.mem_append_right _ (List.mem_singleton_self c)) hbook
  · intro a m' hstep hfit hdecode hstop c hc
    cases hstep with
    | enqueue => exact List.mem_map_of_mem hc
    | context hqueue hprior =>
        obtain ⟨hpop, hpending, hrunning, hr, -⟩ := h.pop hqueue
        exact startRequest_keeps hcuda hpop hpending hrunning hr hprior hfit hc
    | @chunk r _ newLen _ hqueue hprior hpos hlt =>
        obtain ⟨hpending, hrunning⟩ := h.chunk r newLen
        have hr := (h.pop hqueue).2.2.2.1
        refine startRequest_keeps hcuda h hpending hrunning (hr.chunk hpos hlt) ?_
          (fits_chunk hlt) hc
        rw [length_chunk hlt]
        exact hprior
    | decode heq => exact absurd rfl (hdecode _)
    | stop => exact absurd rfl (hstop _)
  · intro input
    by_cases hne : m.running.length = 0
    · refine ⟨m.countUnfinished, some .emptyRequest, ?_, fun i c hc => ?_⟩
      · exact generateContinueDecoder_nil w input hne
      · rw [List.length_eq_zero_iff.mp hne] at hc
        cases hc
    · have hone : ∀ c ∈ m.running, w.decodeOne input c = some (w.decoded input c) :=
        fun c hc => (Sound.decodeOne hcuda h hc).1
      refine ⟨_, _, generateContinueDecoder_eq h.consistent hone hne, fun i c hc => ?_⟩
      have hmem := List.mem_of_getElem? hc
      have hbook := (@Sound.decodeOne w m input hcuda h c hmem).2
      rw [h.consistent.position i c hc] at hbook
      have hkept := decoded_kept w input c
      have hid : (w.decoded input c).id = c.id := congrArg Prod.fst hkept.place
      rw [← hid, ← hkept.genCfg]
      exact scan_decides (consistent_decoded w input h.consistent) (List.mem_map_of_mem hmem) hbook

/-- A prompt of three ids. -/
def promptRequest (maxLength : Int) : Request :=
  ⟨⟨0, false⟩, [5, 6, 7], ⟨maxLength, true, 2, [[9, 4]], true, 1⟩, none, ⟨fun _ => 0, 8, 8⟩, false,
    .init⟩

/-- A rank of two layers, and its context step of that prompt. -/
def cudaWorker : Worker := ⟨0, 1, .cuda, 8, 2⟩

def promptInput : ContextInput := ⟨0, 3, fun _ => 0, true⟩

def prompted (maxLength : Int) : AsModel :=
  (cudaWorker.startRequest promptInput (promptRequest maxLength) .start).1

theorem run_prompted (maxLength : Int) (h : maxLength ≤ 8) : cudaWorker.Run
    [.enqueue (promptRequest maxLength), .context (promptRequest maxLength) promptInput]
    (prompted maxLength) := by
  have hverified : Verified cudaWorker (promptRequest maxLength) :=
    ⟨Nat.succ_pos _, Nat.le_of_ble_eq_true rfl, h, rfl, rfl⟩
  have henqueue : cudaWorker.Run [.enqueue (promptRequest maxLength)]
      (AsModel.start.startRequestImpl (promptRequest maxLength)) :=
    .step .start (.enqueue hverified rfl (fun _ hq => by cases hq) (fun _ hc => by cases hc))
  exact .step henqueue (@Worker.Step.context _ _ _ [] promptInput rfl (Nat.zero_le _))

theorem bookkeeping_of_run_prompted : KeepsBooks cudaWorker (prompted 8) :=
  bookkeeping_of_run rfl (run_prompted 8 (by decide)) (by
    rw [List.forall_mem_cons, List.forall_mem_singleton]
    exact ⟨trivial, Or.inr (by decide)⟩)

/-- Three new tokens where the request may have two in all: the context step
ends with an error that nobody looks at, the context stays listed with no ids,
and the next decode step fails. -/
theorem not_keepsBooks_overlong : ¬ ∀ (w : Worker) (actions : List Action) (m : AsModel),
    w.device = .cuda → w.Run actions m → KeepsBooks w m := by
  intro hall
  have hbooks := hall _ _ _ rfl (run_prompted 2 (by decide))
  obtain ⟨m', status, hdecode, -⟩ := hbooks.decode ⟨fun _ => 3, fun _ => 0⟩
  have hnone : cudaWorker.generateContinueDecoder ⟨fun _ => 3, fun _ => 0⟩ (prompted 2) = none := by
    rfl
  rw [hnone] at hdecode
  cases hdecode

end DashInfer.Decode
