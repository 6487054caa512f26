import DashInfer.Decode.Views

/-!
The ranks of an engine, which run the same steps on their own tensors and share
the sampled ids: every rank moves its list of views by the same machine, so all
of them hold the same sequences at the same step.
-/

namespace DashInfer.Decode

open Lib Serving

/-- The part of a step that all ranks have in common. -/
inductive Shared
  | enqueue (request : Request)
  | context (request : Request) (decId : Int)
  | decode (decIds : Nat → Int)
  | stop (id : RequestId)
  | chunk (request : Request) (newLen : Nat) (decId : Int)

def Action.shared : Action → Shared
  | .enqueue request => .enqueue request
  | .context request input => .context request input.decId
  | .chunk request newLen input => .chunk request newLen input.decId
  | .decode input => .decode input.decIds
  | .stop id => .stop id

/-- A context step gets as far as the sampled id, which rank 0 sends. -/
def Action.Samples (w : Worker) (m : AsModel) : Action → Prop
  | .context request input => ∃ c, w.runDecoderContext input
      (w.listed input request m.running.length m.started) = some (c, .success)
  | .chunk request newLen input => ∃ c, w.runDecoderContext input
      (w.listed input (request.chunk newLen) m.running.length m.started) = some (c, .success)
  | _ => True

/-- The waiting requests of a rank and the views of the running sequences. -/
structure Board where
  pending : List Request
  views : List View

namespace Board

/-- A new sequence, and the scan that ends its context step. -/
def begin (r : Request) (decId : Int) (b : Board) : Board :=
  let views := b.views ++ [View.begin r decId b.views.length]
  { b with views := View.scan views.length views }

/-- A step of the engine on the board. -/
def act (b : Board) : Shared → Board
  | .enqueue r => { b with pending := b.pending ++ [r] }
  | .context r decId => ({ b with pending := b.pending.tail } : Board).begin r decId
  | .chunk r newLen decId => b.begin (r.chunk newLen) decId
  | .decode decIds =>
      let views := b.views.map (View.advance decIds)
      { b with views := View.scan views.length views }
  | .stop id =>
      { pending := b.pending.filter fun r => r.requestId ≠ id
        views := View.stop b.pending id b.views }

end Board

def AsModel.board (m : AsModel) : Board := ⟨m.pendingRequestQueue, m.views⟩

/-- A rank between steps. A request that looks at its ids is on a rank that
fills them. -/
def Ready (w : Worker) (m : AsModel) : Prop :=
  Orderly (Standing w) (fun r => Verified w r ∧ (r.genCfg.ReadsIds → w.device = .cuda)) m

theorem standing_core {w : Worker} (c d : GenerateContext) (hcore : c.core = d.core)
    (h : Standing w c) : Standing w d :=
  h.of_core hcore

section Pending

variable {m : AsModel}

/-- A scan stops running requests, which do not wait. -/
theorem pending_stopFinished (h : Consistent m) (i : Nat) :
    (m.stopFinished (fun _ => .done) i).1.pendingRequestQueue = m.pendingRequestQueue := by
  induction i generalizing m with
  | zero => rfl
  | succ i ih =>
      rw [AsModel.stopFinished]
      cases hc : m.running[i]? with
      | none => exact ih h
      | some c =>
          dsimp only
          cases hfinish : c.finish with
          | false => exact ih h
          | true =>
              rw [if_pos rfl, h.stopRequest_running hc]
              exact ih (h.finishRequest hc).count

theorem pending_stopRequest (m : AsModel) (id : RequestId) :
    (m.stopRequest .done id).1.pendingRequestQueue =
      m.pendingRequestQueue.filter fun r => r.requestId ≠ id := by
  rw [AsModel.stopRequest]
  split
  case isTrue => rfl
  case isFalse hpending =>
      have hall : m.pendingRequestQueue.filter (fun r => r.requestId ≠ id) =
          m.pendingRequestQueue := by
        rw [List.filter_eq_self]
        intro r hr
        exact decide_eq_true fun heq => hpending ⟨r, hr, heq⟩
      rw [hall]
      split
      · rfl
      · split <;> rfl

/-- The board after a scan. -/
theorem board_stopFinished (h : Consistent m) :
    (m.stopFinished (fun _ => .done) m.running.length).1.board =
      ⟨m.pendingRequestQueue, View.scan m.views.length m.views⟩ := by
  have hlength : m.views.length = m.running.length := by
    rw [AsModel.views, List.length_map]
  rw [AsModel.board, pending_stopFinished h, views_stopFinished h, hlength]

end Pending

section Rank

variable {w : Worker} {m : AsModel} {r : Request}

/-- A context step of a rank begins the sequence on its board. -/
theorem Ready.startRequest {input : ContextInput} (h : Ready w m)
    (hpending : ∀ q ∈ m.pendingRequestQueue, q.requestId ≠ r.requestId)
    (hrunning : ∀ c ∈ m.running, c.id ≠ r.requestId) (hr : Verified w r)
    (hreads : r.genCfg.ReadsIds → w.device = .cuda)
    (hwhole : r.requestId.chunk = true → r.genCfg.maxLength ≤ ((r.inputIds.length + 1 : Nat) : Int))
    (hprior : input.prefixLen ≤ r.inputIds.length)
    (hsamples : ∃ c, w.runDecoderContext input
      (w.listed input r m.running.length m.started) = some (c, .success)) :
    Ready w (w.startRequest input r m).1 ∧
      (w.startRequest input r m).1.board = m.board.begin r input.decId := by
  obtain ⟨c, hrun⟩ := hsamples
  obtain ⟨hview, hstanding⟩ := runDecoderContext_view hr hreads hprior hrun
  have hviews : (m.ran w input r c).views =
      m.views ++ [View.begin r input.decId m.views.length] := by
    rw [AsModel.views, AsModel.views, running_ran, List.map_append, List.map_singleton, hview,
      List.length_map]
  refine ⟨?_, ?_⟩
  · refine Orderly.startRequest standing_core h hpending hrunning hrun hstanding fun hfinish => ?_
    have hid : c.id = r.requestId :=
      congrArg Prod.fst (Worker.runDecoderContext_kept hrun).place
    have hfin : c.finish = (View.begin r input.decId m.running.length).finish :=
      congrArg View.finish hview
    rw [hid]
    cases hchunk : r.requestId.chunk with
    | false => rfl
    | true =>
        rw [hfinish] at hfin
        exact absurd (Or.inl (hwhole hchunk)) (of_decide_eq_false hfin.symm)
  · rw [startRequest_eq, hrun]
    dsimp only
    rw [board_stopFinished (consistent_ran h.consistent hpending hrunning hrun), hviews]
    rfl

/-- One action of a rank is the shared step on its board. -/
theorem Ready.step {m' : AsModel} {a : Action} (h : Ready w m)
    (hreads : ∀ r, a.shared = .enqueue r → r.genCfg.ReadsIds → w.device = .cuda)
    (hsamples : a.Samples w m) (hstep : w.Step m a m') :
    Ready w m' ∧ m'.board = m.board.act a.shared := by
  cases hstep with
  | @enqueue r hr hwhole hpending hrunning =>
      exact ⟨Orderly.startRequestImpl h ⟨hr, hreads r rfl⟩ hwhole hpending hrunning, rfl⟩
  | @context r rest input hqueue hprior =>
      obtain ⟨hpop, hpending, hrunning, ⟨hr, hlooks⟩, hwhole⟩ := Orderly.pop h hqueue
      obtain ⟨hready, hboard⟩ := Ready.startRequest hpop hpending hrunning hr hlooks
        (fun hchunk => absurd (hwhole.symm.trans hchunk) (by decide)) hprior hsamples
      refine ⟨hready, hboard.trans ?_⟩
      rw [Action.shared, Board.act, AsModel.board, AsModel.board, hqueue]
      rfl
  | @chunk r rest newLen input hqueue hprior hpos hlt =>
      obtain ⟨hpending, hrunning⟩ := Orderly.chunk h r newLen
      obtain ⟨hr, hlooks⟩ := (Orderly.pop h hqueue).2.2.2.1
      have hlength := length_chunk hlt
      refine Ready.startRequest h hpending hrunning (hr.chunk hpos hlt) hlooks (fun _ => ?_)
        (by rw [hlength]; exact hprior) hsamples
      rw [hlength]
      exact Int.le_refl _
  | @decode _ input status heq =>
      have hone := decodeOne_of_some heq
      have hstep := fun c hc => decodeOne_view (h.running c hc) (h.unfinished c hc) (hone c hc)
      refine ⟨Orderly.generateContinueDecoder standing_core h (fun c hc => (hstep c hc).2) heq, ?_⟩
      have hviews : (m.decoded w input).views = m.views.map (View.advance input.decIds) := by
        rw [AsModel.views, AsModel.views, List.map_map]
        refine (List.map_map ..).trans (List.map_congr_left fun c hc => ?_)
        exact (hstep c hc).1
      by_cases hne : m.running.length = 0
      · rw [generateContinueDecoder_nil w input hne] at heq
        cases heq
        have hnil : m.views = [] := by
          rw [AsModel.views, List.length_eq_zero_iff.mp hne]
          rfl
        have hboard : m.countUnfinished.board = ⟨m.pendingRequestQueue, m.views⟩ := rfl
        rw [hboard, Action.shared, Board.act, AsModel.board, hnil]
        rfl
      · rw [generateContinueDecoder_eq h.consistent hone hne] at heq
        cases heq
        rw [board_stopFinished (consistent_decoded w input h.consistent), hviews]
        rfl
  | @stop id =>
      refine ⟨Orderly.stopRequest standing_core h id, ?_⟩
      rw [AsModel.board, pending_stopRequest, views_stopRequest]
      rfl

end Rank

/-- The ranks of an engine. -/
structure Cluster where
  nranks : Nat
  device : Weight.DeviceType
  modelMaxLength : Nat
  decoderLayer : Nat

namespace Cluster

def worker (cl : Cluster) (rank : Nat) : Worker :=
  ⟨rank, cl.nranks, cl.device, cl.modelMaxLength, cl.decoderLayer⟩

/-- The runs of the ranks, by the steps they share. What a rank finds in its own
cache and memory is its own. -/
inductive Run (cl : Cluster) : List Shared → (Nat → AsModel) → Prop
  | start : cl.Run [] fun _ => .start
  | step {steps : List Shared} {s : Shared} {ms ms' : Nat → AsModel} {a : Nat → Action} :
      cl.Run steps ms →
      (∀ i < cl.nranks, (a i).shared = s ∧ (a i).Samples (cl.worker i) (ms i) ∧
        (cl.worker i).Step (ms i) (a i) (ms' i)) → cl.Run (steps ++ [s]) ms'

/-- Every rank fills the ids that a request looks at. -/
def Fills (cl : Cluster) : Shared → Prop
  | .enqueue r => r.genCfg.ReadsIds → cl.device = .cuda ∨ cl.nranks ≤ 1
  | _ => True

/-- Every rank is ready, and all boards are the same. -/
theorem board_of_run {cl : Cluster} {steps : List Shared} {ms : Nat → AsModel}
    (hrun : cl.Run steps ms) (hfills : ∀ s ∈ steps, cl.Fills s) (hranks : 1 < cl.nranks) :
    ∃ b : Board, ∀ i < cl.nranks, Ready (cl.worker i) (ms i) ∧ (ms i).board = b := by
  induction hrun with
  | start => exact ⟨⟨[], []⟩, fun i _ => ⟨orderly_start, rfl⟩⟩
  | @step steps s ms ms' a _ hstep ih =>
      obtain ⟨b, hb⟩ := ih fun q hq => hfills q (List.mem_append_left _ hq)
      have hs := hfills s (List.mem_append_right _ (List.mem_singleton_self s))
      refine ⟨b.act s, fun i hi => ?_⟩
      obtain ⟨hready, hboard⟩ := hb i hi
      obtain ⟨hshared, hsamples, hact⟩ := hstep i hi
      have hreads : ∀ r, (a i).shared = .enqueue r → r.genCfg.ReadsIds →
          (cl.worker i).device = .cuda := by
        intro r heq hlooks
        rw [hshared] at heq
        rw [heq] at hs
        rcases hs hlooks with hcuda | hone
        · exact hcuda
        · omega
      obtain ⟨hready', hboard'⟩ := hready.step hreads hsamples hact
      exact ⟨hready', by rw [hboard', hboard, hshared]⟩

end Cluster

/-- What the ranks are to agree on of a running request. -/
def GenerateContext.progress (c : GenerateContext) : RequestId × Nat × Bool :=
  (c.id, c.step, c.finish)

/-- In every run in which each request that looks at its ids to find its end is
on CUDA ranks or on one rank alone, all ranks hold the same running requests in
the same order, with the same step and finish flag. -/
theorem ranks_agree {cl : Cluster} {steps : List Shared} {ms : Nat → AsModel}
    (hrun : cl.Run steps ms) (hfills : ∀ s ∈ steps, cl.Fills s) :
    ∀ i j, i < cl.nranks → j < cl.nranks →
      (ms i).running.map GenerateContext.progress = (ms j).running.map GenerateContext.progress := by
  intro i j hi hj
  by_cases hranks : 1 < cl.nranks
  case neg =>
      obtain rfl : i = j := by omega
      rfl
  case pos =>
      obtain ⟨b, hb⟩ := Cluster.board_of_run hrun hfills hranks
      have hviews : (ms i).views = (ms j).views :=
        congrArg Board.views ((hb i hi).2.trans (hb j hj).2.symm)
      have hprogress := congrArg (List.map fun v : View => (v.id, v.step, v.finish)) hviews
      rw [AsModel.views, AsModel.views, List.map_map, List.map_map] at hprogress
      exact hprogress

/-- Two ranks, with memory of their own. -/
def twoRanks (device : Weight.DeviceType) : Cluster := ⟨2, device, 8, 2⟩

def rankInput (decId : Int) (rank : Nat) : ContextInput := ⟨0, decId, fun _ => rank, true⟩

/-- The ranks after the context step of a prompt. -/
def promptedRanks (device : Weight.DeviceType) (decId : Int) (rank : Nat) : AsModel :=
  (((twoRanks device).worker rank).startRequest (rankInput decId rank) (promptRequest 8) .start).1

theorem run_promptedRanks {device : Weight.DeviceType} {decId : Int}
    (hsamples : ∀ i < 2, ∃ c, ((twoRanks device).worker i).runDecoderContext (rankInput decId i)
      (((twoRanks device).worker i).listed (rankInput decId i) (promptRequest 8) 0 0) =
        some (c, .success)) :
    (twoRanks device).Run [.enqueue (promptRequest 8), .context (promptRequest 8) decId]
      (promptedRanks device decId) := by
  have hverified : ∀ i, Verified ((twoRanks device).worker i) (promptRequest 8) := fun i =>
    ⟨Nat.succ_pos _, Nat.le_of_ble_eq_true rfl, Int.le_refl _, rfl, rfl⟩
  have henqueue : (twoRanks device).Run [.enqueue (promptRequest 8)]
      (fun _ => AsModel.start.startRequestImpl (promptRequest 8)) :=
    @Cluster.Run.step _ [] _ _ _ (fun _ => .enqueue (promptRequest 8)) .start fun i _ =>
      ⟨rfl, trivial, .enqueue (hverified i) rfl (fun _ hq => by cases hq) (fun _ hc => by cases hc)⟩
  exact @Cluster.Run.step _ [.enqueue (promptRequest 8)] _ _ _
    (fun i => .context (promptRequest 8) (rankInput decId i)) henqueue fun i hi =>
      ⟨rfl, hsamples i hi, @Worker.Step.context _ _ _ [] (rankInput decId i) rfl (Nat.zero_le _)⟩

theorem ranks_agree_promptedRanks :
    (promptedRanks .cuda 3 0).running.map GenerateContext.progress =
      (promptedRanks .cuda 3 1).running.map GenerateContext.progress := by
  refine ranks_agree (@run_promptedRanks .cuda 3 fun i hi => ?_) (fun s hs => ?_) 0 1
    (Nat.succ_pos _) (Nat.lt_succ_self _)
  · match i, hi with
    | 0, _ => exact ⟨_, rfl⟩
    | 1, _ => exact ⟨_, rfl⟩
  · rcases List.mem_cons.mp hs with rfl | hs
    · exact fun _ => Or.inl rfl
    · obtain rfl := List.mem_singleton.mp hs
      exact trivial

/-- Two CPU ranks, and a prompt whose first new id is the end of the sequence:
rank 1 does not fill its ids, looks at what its memory holds and goes on. -/
theorem not_ranks_agree_cpu : ¬ ∀ (cl : Cluster) (steps : List Shared) (ms : Nat → AsModel),
    cl.Run steps ms → ∀ i j, i < cl.nranks → j < cl.nranks →
      (ms i).running.map GenerateContext.progress =
        (ms j).running.map GenerateContext.progress := by
  intro hall
  have hrun : (twoRanks .cpu).Run _ (promptedRanks .cpu 2) := run_promptedRanks fun i hi => by
    match i, hi with
    | 0, _ => exact ⟨_, rfl⟩
    | 1, _ => exact ⟨_, rfl⟩
  have hagree := hall _ _ _ hrun 0 1 (Nat.succ_pos _) (Nat.lt_succ_self _)
  have hzero : (promptedRanks .cpu 2 0).running.map GenerateContext.progress = [] := rfl
  have hone : (promptedRanks .cpu 2 1).running.map GenerateContext.progress =
      [(⟨0, false⟩, 3, false)] := rfl
  rw [hzero, hone] at hagree
  cases hagree

end DashInfer.Decode
