import DashInfer.Lora.Engine

/-!
What holds between two steps: the LoRAs of the running requests are loaded, and
the operator is ready for them as long as some LoRA is. The stops of requests
keep it.
-/

namespace DashInfer.Lora

open Lib Serving

namespace Engine

variable {op : CapsuleOp} {s s' : Engine}

/-- What holds between two steps. -/
structure Settled (op : CapsuleOp) (s : Engine) : Prop where
  fits : ∀ name ∈ s.loraNames, name = "" ∨ op.sgmv.Fits s.manager name
  ready : s.runtimeCtx.genCtxList ≠ [] → s.manager.isEmpty = false →
    Ready op s.manager s.runtimeCtx.decodeBatch s.capsule
  pending : s.pendingRequestQueue.Nodup

/-- No running request has a LoRA, and the operator is not set for one: either it
was told so, or no LoRA is loaded. -/
structure Calm (s : Engine) : Prop where
  plain : ∀ name ∈ s.loraNames, name = ""
  flag : s.manager.isEmpty = true ∨ s.capsule.hasLoraInBatch = false

theorem Calm.settled (h : s.Calm) (hpending : s.pendingRequestQueue.Nodup) : s.Settled op where
  fits name hname := Or.inl (h.plain name hname)
  ready _ hloaded := by
    have hflag : s.capsule.hasLoraInBatch = false := by
      rcases h.flag with hempty | hflag
      · rw [hempty] at hloaded
        cases hloaded
      · exact hflag
    have hplain : ¬ s.runtimeCtx.decodeBatch.HasLora := fun ⟨name, hname, hne⟩ =>
      hne (h.plain name hname)
    exact ⟨⟨fun h => (by rw [hflag] at h; cases h), fun h => absurd h hplain⟩,
      fun h => absurd h hplain⟩
  pending := hpending

/-- Only the LoRAs, the running requests, the operator and the queue count. -/
theorem Settled.of_fields (h : s.Settled op) (hmanager : s'.manager = s.manager)
    (hruntime : s'.runtimeCtx.genCtxList = s.runtimeCtx.genCtxList)
    (hcapsule : s'.capsule = s.capsule) (hpending : s'.pendingRequestQueue.Nodup) :
    s'.Settled op := by
  have hnames : s'.loraNames = s.loraNames := congrArg (List.map _) hruntime
  have hbatch : s'.runtimeCtx.decodeBatch = s.runtimeCtx.decodeBatch :=
    congrArg (fun names => Batch.mk false names 1) hnames
  refine ⟨?_, fun hcons hloaded => ?_, hpending⟩
  · rw [hnames, hmanager]
    exact h.fits
  · rw [hruntime] at hcons
    rw [hmanager] at hloaded ⊢
    rw [hbatch, hcapsule]
    exact h.ready hcons hloaded

theorem Calm.of_fields (h : s.Calm) (hmanager : s'.manager = s.manager)
    (hruntime : s'.runtimeCtx.genCtxList = s.runtimeCtx.genCtxList)
    (hcapsule : s'.capsule = s.capsule) : s'.Calm := by
  have hnames : s'.loraNames = s.loraNames := congrArg (List.map _) hruntime
  refine ⟨?_, ?_⟩
  · rw [hnames]
    exact h.plain
  · rw [hmanager, hcapsule]
    exact h.flag

theorem batch_decode {rt : RuntimeContext} (h : rt.isContext = false) (seqLen : Nat) :
    rt.batch seqLen = some rt.decodeBatch := by
  unfold RuntimeContext.batch
  simp [h]

section Reshape

variable {env : TopoEnv}

/-- The `Reshape` calls come past the tables of this operator. -/
def Reaches (env : TopoEnv) : Prop :=
  env.before = true ∧ env.capsule.front = true ∧ env.capsule.shaped = true

@[simp] theorem reshapeOps_manager : (s.reshapeOps op env).1.manager = s.manager := by
  unfold reshapeOps
  split <;> rfl

@[simp] theorem reshapeOps_runtimeCtx : (s.reshapeOps op env).1.runtimeCtx = s.runtimeCtx := by
  unfold reshapeOps
  split <;> rfl

@[simp] theorem reshapeOps_pending :
    (s.reshapeOps op env).1.pendingRequestQueue = s.pendingRequestQueue := by
  unfold reshapeOps
  split <;> rfl

theorem reshapeOps_settled (hcontext : s.runtimeCtx.isContext = false)
    (hfits : ∀ name ∈ s.loraNames, name = "" ∨ op.sgmv.Fits s.manager name)
    (hpending : s.pendingRequestQueue.Nodup) (henv : Reaches env) :
    (s.reshapeOps op env).1.Settled op := by
  obtain ⟨hbefore, hfront, hshaped⟩ := henv
  refine ⟨?_, fun _ hloaded => ?_, ?_⟩
  · simpa [loraNames] using hfits
  · simp only [reshapeOps_manager, reshapeOps_runtimeCtx] at hloaded ⊢
    unfold reshapeOps
    simp only [hbefore, if_true, batch_decode hcontext]
    exact Capsule.reshape_ready_of_fits hloaded hfront hshaped hfits
  · simpa using hpending

/-- `Reshape` leaves a calm state calm, unless it reads past the end of the
list. -/
theorem Calm.reshapeOps (h : s.Calm) (op : CapsuleOp) (env : TopoEnv)
    (hbatch : s.manager.isEmpty = true ∨ s.runtimeCtx.batch env.seqLen ≠ none) :
    (s.reshapeOps op env).1.Calm := by
  refine ⟨?_, ?_⟩
  · simpa [loraNames] using h.plain
  · rw [reshapeOps_manager]
    by_cases hempty : s.manager.isEmpty = true
    · exact Or.inl hempty
    refine Or.inr ?_
    have hflag := h.flag.resolve_left hempty
    obtain ⟨batch, hsome⟩ := Option.ne_none_iff_exists'.mp (hbatch.resolve_left hempty)
    have hplain : ¬ batch.HasLora := by
      rintro ⟨name, hname, hne⟩
      apply hne
      unfold RuntimeContext.batch at hsome
      split at hsome
      · obtain ⟨c, hc, rfl⟩ := Option.map_eq_some_iff.mp hsome
        obtain rfl := List.mem_singleton.mp hname
        exact h.plain _ (List.mem_map_of_mem (List.mem_of_getElem? hc))
      · obtain rfl := Option.some.inj hsome
        exact h.plain name hname
    unfold Engine.reshapeOps
    split
    · simp only [hsome]
      exact Capsule.reshape_plain hplain hflag
    · exact hflag

end Reshape

section Stop

variable {env : StopEnv} {id : RequestId}

/-- A change of a request object. -/
@[simp] theorem modifyOwn_fields (s : Engine) (id : RequestId) (f : Request → Request) :
    (s.modifyOwn id f).manager = s.manager ∧ (s.modifyOwn id f).runtimeCtx = s.runtimeCtx ∧
      (s.modifyOwn id f).capsule = s.capsule ∧
      (s.modifyOwn id f).pendingRequestQueue = s.pendingRequestQueue := by
  unfold modifyOwn
  split <;> exact ⟨rfl, rfl, rfl, rfl⟩

@[simp] theorem finishRequest_fields (s : Engine) (id : RequestId) (index : Nat) :
    (s.finishRequest index id).manager = s.manager ∧
      (s.finishRequest index id).runtimeCtx =
        { s.runtimeCtx with genCtxList := swapRemove s.runtimeCtx.genCtxList index } ∧
      (s.finishRequest index id).capsule = s.capsule ∧
      (s.finishRequest index id).pendingRequestQueue = s.pendingRequestQueue := by
  unfold finishRequest modifyOwn
  split <;> exact ⟨rfl, rfl, rfl, rfl⟩

/-- A stop removes a pending request, or a running one after which the operators
are reshaped if there are others, or none. -/
theorem stopRequest_cases (op : CapsuleOp) (env : StopEnv) (id : RequestId) (s : Engine) :
    (s.stopRequest op env id = (s.stopPendingRequest id.uuid, true)) ∨
      (∃ ok, s.stopRequest op env id = (s, ok)) ∨
      ∃ index c, s.runtimeCtx.genCtxList[index]? = some c ∧ c.id = id ∧ env.released = true ∧
        (s.stopRequest op env id = (s.finishRequest index id, true) ∧
            (s.finishRequest index id).runtimeCtx.genCtxList = [] ∨
          s.stopRequest op env id = (s.finishRequest index id).reshapeOps op env.reshape ∧
            (s.finishRequest index id).runtimeCtx.genCtxList ≠ []) := by
  unfold stopRequest
  split
  · exact Or.inl rfl
  refine Or.inr ?_
  cases hindex : lastIdx? (fun c => decide (c.id = id)) s.runtimeCtx.genCtxList with
  | none => exact Or.inl ⟨true, rfl⟩
  | some index =>
      obtain ⟨c, hc, hid⟩ := lastIdx?_spec hindex
      by_cases hreleased : env.released = true
      · refine Or.inr ⟨index, c, hc, of_decide_eq_true hid, hreleased, ?_⟩
        simp only [hreleased, if_true]
        split
        case isTrue hnil => exact Or.inl ⟨rfl, hnil⟩
        case isFalse hcons => exact Or.inr ⟨rfl, hcons⟩
      · exact Or.inl ⟨false, by simp [hreleased]⟩

/-- What is left of the running requests after one is removed. -/
theorem mem_finishRequest {index : Nat} {c d : GenerateContext}
    (hc : s.runtimeCtx.genCtxList[index]? = some c)
    (hd : d ∈ (s.finishRequest index id).runtimeCtx.genCtxList) :
    d ∈ s.runtimeCtx.genCtxList := by
  rw [(finishRequest_fields s id index).2.1] at hd
  exact (swapRemove_perm hc).subset (List.mem_cons_of_mem _ hd)

theorem loraNames_finishRequest {index : Nat} {c : GenerateContext} {name : String}
    (hc : s.runtimeCtx.genCtxList[index]? = some c)
    (hname : name ∈ (s.finishRequest index id).loraNames) : name ∈ s.loraNames := by
  obtain ⟨d, hd, rfl⟩ := List.mem_map.mp hname
  exact List.mem_map_of_mem (mem_finishRequest hc hd)

/-- A stop touches no LoRA, keeps the phase, and leaves only requests that were
there. -/
theorem stopRequest_frame (op : CapsuleOp) (env : StopEnv) (id : RequestId) (s : Engine) :
    (s.stopRequest op env id).1.manager = s.manager ∧
      (s.stopRequest op env id).1.runtimeCtx.isContext = s.runtimeCtx.isContext ∧
      (s.stopRequest op env id).1.pendingRequestQueue.Sublist s.pendingRequestQueue := by
  rcases stopRequest_cases op env id s with h | ⟨ok, h⟩ | ⟨index, c, -, -, -, ⟨h, -⟩ | ⟨h, -⟩⟩
  · rw [h]
    exact ⟨rfl, rfl, List.filter_sublist⟩
  · rw [h]
    exact ⟨rfl, rfl, List.Sublist.refl _⟩
  · rw [h]
    simp
  · rw [h]
    simp

theorem Calm.finishRequest {index : Nat} {c : GenerateContext} (h : s.Calm)
    (hc : s.runtimeCtx.genCtxList[index]? = some c) : (s.finishRequest index id).Calm := by
  refine ⟨fun name hname => h.plain name (loraNames_finishRequest hc hname), ?_⟩
  rw [(finishRequest_fields s id index).1, (finishRequest_fields s id index).2.2.1]
  exact h.flag

/-- A stop leaves a calm state calm, unless the operators are then reshaped for
a context that is gone. -/
theorem Calm.stopRequest (h : s.Calm) (op : CapsuleOp) (env : StopEnv) (id : RequestId)
    (hcontext : s.runtimeCtx.isContext = false ∨ s.manager.isEmpty = true ∨
      env.released = false ∨ s.runtimeCtx.genCtxList.length ≤ 1) :
    (s.stopRequest op env id).1.Calm := by
  rcases stopRequest_cases op env id s with
    heq | ⟨ok, heq⟩ | ⟨index, c, hc, -, hreleased, ⟨heq, -⟩ | ⟨heq, hcons⟩⟩
  · rw [heq]
    exact ⟨h.plain, h.flag⟩
  · rw [heq]
    exact h
  · rw [heq]
    exact h.finishRequest hc
  · rw [heq]
    refine (h.finishRequest hc).reshapeOps op _ ?_
    have hphase : (s.finishRequest index id).runtimeCtx.isContext = s.runtimeCtx.isContext := by
      rw [(finishRequest_fields s id index).2.1]
    rcases hcontext with hcontext | hempty | hkept | hone
    · rw [batch_decode (hphase.trans hcontext)]
      exact Or.inr (Option.some_ne_none _)
    · rw [(finishRequest_fields s id index).1]
      exact Or.inl hempty
    · rw [hreleased] at hkept
      cases hkept
    · have hlength := (swapRemove_perm hc).length_eq
      rw [List.length_cons] at hlength
      have hnil : swapRemove s.runtimeCtx.genCtxList index = [] :=
        List.eq_nil_of_length_eq_zero (by omega)
      rw [(finishRequest_fields s id index).2.1] at hcons
      exact absurd hnil hcons

/-- A stop at which the operators are reshaped, or that finds nothing, or in a
calm state. -/
def StopCareful (s : Engine) (env : StopEnv) (id : RequestId) : Prop :=
  env.released = false ∨ (∀ c ∈ s.runtimeCtx.genCtxList, c.id ≠ id) ∨ Reaches env.reshape ∨ s.Calm

theorem Settled.stopRequest (hcontext : s.runtimeCtx.isContext = false) (h : s.Settled op)
    (hcareful : s.StopCareful env id) : (s.stopRequest op env id).1.Settled op := by
  rcases stopRequest_cases op env id s with
    heq | ⟨ok, heq⟩ | ⟨index, c, hc, hid, hreleased, hafter⟩
  · rw [heq]
    exact ⟨h.fits, h.ready, h.pending.filter _⟩
  · rw [heq]
    exact h
  have hfields := finishRequest_fields s id index
  have hfits : ∀ name ∈ (s.finishRequest index id).loraNames,
      name = "" ∨ op.sgmv.Fits (s.finishRequest index id).manager name := by
    rw [hfields.1]
    exact fun name hname => h.fits name (loraNames_finishRequest hc hname)
  have hpending : (s.finishRequest index id).pendingRequestQueue.Nodup := by
    rw [hfields.2.2.2]
    exact h.pending
  have hphase : (s.finishRequest index id).runtimeCtx.isContext = false := by
    rw [hfields.2.1]
    exact hcontext
  rcases hafter with ⟨heq, hnil⟩ | ⟨heq, -⟩
  · rw [heq]
    exact ⟨hfits, fun hcons => absurd hnil hcons, hpending⟩
  · rw [heq]
    rcases hcareful with hkept | hnone | hreach | hcalm
    · rw [hreleased] at hkept
      cases hkept
    · exact absurd hid (hnone c (List.mem_of_getElem? hc))
    · exact reshapeOps_settled hphase hfits hpending hreach
    · refine ((hcalm.finishRequest hc).reshapeOps op _ (Or.inr ?_)).settled ?_
      · rw [batch_decode hphase]
        exact Option.some_ne_none _
      · rw [reshapeOps_pending]
        exact hpending

/-- The stops of a scan. -/
theorem Settled.stopFinished {stops : RequestId → StopEnv}
    (hcontext : s.runtimeCtx.isContext = false) (h : s.Settled op)
    (hcareful : (∀ id, Reaches (stops id).reshape) ∨ s.Calm) (i : Nat) :
    (s.stopFinished op stops i).Settled op := by
  induction i generalizing s with
  | zero => exact h
  | succ i ih =>
      rw [Engine.stopFinished]
      split
      · exact ih hcontext h hcareful
      case h_2 c hc =>
          split
          case isFalse => exact ih hcontext h hcareful
          case isTrue =>
              have hstop : s.StopCareful (stops c.id) c.id :=
                hcareful.elim (fun hreach => Or.inr (Or.inr (Or.inl (hreach c.id))))
                  fun hcalm => Or.inr (Or.inr (Or.inr hcalm))
              have hsettled := h.stopRequest hcontext hstop
              have hphase : (s.stopRequest op (stops c.id) c.id).1.runtimeCtx.isContext = false :=
                (stopRequest_frame op _ _ s).2.1.trans hcontext
              have hstill : (∀ id, Reaches (stops id).reshape) ∨
                  (s.stopRequest op (stops c.id) c.id).1.Calm :=
                hcareful.imp_right fun hcalm => hcalm.stopRequest op _ _ (Or.inl hcontext)
              split
              case h_1 heq =>
                  rw [heq] at hsettled hphase hstill
                  exact ih hphase hsettled hstill
              case h_2 heq =>
                  rw [heq] at hsettled
                  exact hsettled

theorem Calm.stopFinished {stops : RequestId → StopEnv}
    (hcontext : s.runtimeCtx.isContext = false) (h : s.Calm) (i : Nat) :
    (s.stopFinished op stops i).Calm := by
  induction i generalizing s with
  | zero => exact h
  | succ i ih =>
      rw [Engine.stopFinished]
      split
      · exact ih hcontext h
      case h_2 c hc =>
          split
          case isFalse => exact ih hcontext h
          case isTrue =>
              have hcalm := h.stopRequest op (stops c.id) c.id (Or.inl hcontext)
              have hphase : (s.stopRequest op (stops c.id) c.id).1.runtimeCtx.isContext = false :=
                (stopRequest_frame op _ _ s).2.1.trans hcontext
              split
              case h_1 heq =>
                  rw [heq] at hcalm hphase
                  exact ih hphase hcalm
              case h_2 heq =>
                  rw [heq] at hcalm
                  exact hcalm

theorem stopFinished_pending {stops : RequestId → StopEnv} (i : Nat) :
    (s.stopFinished op stops i).pendingRequestQueue.Sublist s.pendingRequestQueue := by
  induction i generalizing s with
  | zero => exact List.Sublist.refl _
  | succ i ih =>
      rw [Engine.stopFinished]
      split
      · exact ih
      case h_2 c hc =>
          split
          case isFalse => exact ih
          case isTrue =>
              have hsub := (stopRequest_frame op (stops c.id) c.id s).2.2
              split
              case h_1 heq =>
                  rw [heq] at hsub
                  exact ih.trans hsub
              case h_2 heq =>
                  rw [heq] at hsub
                  exact hsub

end Stop

end Engine

end DashInfer.Lora

/-!
A context step: its call of `Forward` follows the context request, and what the
step leaves behind, whether it goes through or throws.
-/

namespace DashInfer.Lora

open Lib Serving

namespace Engine

variable {op : CapsuleOp} {s s' : Engine}

section Context

variable {env : ContextEnv} {id : RequestId} {name : String}

@[simp] theorem markFinished_loraNames (finish : RequestId → Bool) :
    (s.markFinished finish).loraNames = s.loraNames := by
  unfold markFinished loraNames RuntimeContext.loraNames
  simp [Function.comp_def]

theorem Settled.markFinished (h : s.Settled op) (finish : RequestId → Bool) :
    (s.markFinished finish).Settled op := by
  have hnames : (s.markFinished finish).runtimeCtx.decodeBatch = s.runtimeCtx.decodeBatch := by
    unfold RuntimeContext.decodeBatch
    exact congrArg (fun names => Batch.mk false names 1) (markFinished_loraNames finish)
  refine ⟨?_, fun hcons hloaded => ?_, h.pending⟩
  · rw [markFinished_loraNames]
    exact h.fits
  · rw [hnames]
    refine h.ready (fun hnil => hcons ?_) hloaded
    unfold Engine.markFinished
    rw [hnil]
    rfl

theorem Calm.markFinished (h : s.Calm) (finish : RequestId → Bool) :
    (s.markFinished finish).Calm := by
  refine ⟨?_, h.flag⟩
  rw [markFinished_loraNames]
  exact h.plain

/-- The contexts listed once one more is. -/
theorem mem_pushBackGenCtx {c : GenerateContext} (hname : name ∈ (s.pushBackGenCtx c).loraNames) :
    name ∈ s.loraNames ∨ name = c.loraName := by
  unfold pushBackGenCtx loraNames RuntimeContext.loraNames at hname
  rw [List.map_append, List.mem_append] at hname
  exact hname.imp_right List.mem_singleton.mp

/-- The graph of a context step touches only this operator. -/
theorem runDecoderContext_frame (op : CapsuleOp) (env : ContextEnv) (name : String) (s : Engine) :
    (s.runDecoderContext op env name).1.manager = s.manager ∧
      (s.runDecoderContext op env name).1.runtimeCtx = s.runtimeCtx ∧
      (s.runDecoderContext op env name).1.pendingRequestQueue = s.pendingRequestQueue := by
  unfold runDecoderContext
  split
  · dsimp only
    split
    · simp
    · simp
  · exact ⟨rfl, rfl, rfl⟩

theorem Calm.runDecoderContext (h : s.Calm) (op : CapsuleOp) (env : ContextEnv) (name : String)
    (hbatch : s.runtimeCtx.batch env.reshape.seqLen ≠ none) :
    (s.runDecoderContext op env name).1.Calm := by
  have hreshaped := h.reshapeOps op env.reshape (Or.inr hbatch)
  unfold Engine.runDecoderContext
  split
  · dsimp only
    split
    · refine ⟨hreshaped.plain, ?_⟩
      rw [(forward_capsule _ _ _).1]
      exact hreshaped.flag
    · exact hreshaped
  · exact h

/-- The call of `Forward` in a context step follows the context request, whose
LoRA is loaded if there is one. -/
theorem runDecoderContext_lawful
    (hbatch : s.runtimeCtx.batch env.reshape.seqLen = some ⟨true, [name], env.reshape.seqLen⟩)
    (hname : name = "" ∨ s.manager.isLoraExists name = true) :
    ∀ f ∈ (s.runDecoderContext op env name).2, f.Lawful op := by
  unfold Engine.runDecoderContext
  split
  case isFalse => simp
  case isTrue =>
      dsimp only
      split
      case isFalse => simp
      case isTrue hdone =>
          intro f hf
          obtain rfl := List.mem_singleton.mp hf
          rw [reshapeOps_manager]
          refine Capsule.forward_lawful ?_
          split
          case isTrue hempty =>
              rintro ⟨other, hother, hne⟩
              obtain rfl := List.mem_singleton.mp hother
              have hloaded := isEmpty_eq_false (hname.resolve_left hne)
              rw [hempty] at hloaded
              cases hloaded
          case isFalse hempty =>
              have hloaded : s.manager.isEmpty = false := by simpa using hempty
              obtain ⟨hreshaped, -⟩ := hdone
              unfold Engine.reshapeOps at hreshaped ⊢
              split at hreshaped
              case isFalse => cases hreshaped
              case isTrue hbefore =>
                  simp only [hbatch, Bool.and_eq_true] at hreshaped
                  simp only [hbefore, if_true, hbatch]
                  exact Capsule.reshape_ready hloaded hreshaped.1

theorem Settled.modifyOwn (h : s.Settled op) (f : Request → Request) :
    (s.modifyOwn id f).Settled op := by
  obtain ⟨hmanager, hruntime, hcapsule, hpending⟩ := modifyOwn_fields s id f
  refine h.of_fields hmanager (by rw [hruntime]) hcapsule ?_
  rw [hpending]
  exact h.pending

theorem Calm.modifyOwn (h : s.Calm) (f : Request → Request) : (s.modifyOwn id f).Calm := by
  obtain ⟨hmanager, hruntime, hcapsule, -⟩ := modifyOwn_fields s id f
  exact h.of_fields hmanager (by rw [hruntime]) hcapsule

/-- The end of a context step leaves the operator ready for the decode list. -/
theorem finishContext_settled (hinserted : env.inserted = true) (hrestore : Reaches env.restore)
    (hstops : ∀ id, Reaches (env.stops id).reshape)
    (hfits : ∀ name ∈ s.loraNames, name = "" ∨ op.sgmv.Fits s.manager name)
    (hpending : s.pendingRequestQueue.Nodup) : (s.finishContext op env id).Settled op := by
  unfold finishContext
  rw [if_pos hinserted]
  dsimp only
  have hsettled : Engine.Settled op (Engine.reshapeOps op env.restore
      { s with runtimeCtx.isContext := false, runtimeCtx.currentBatch := 0 }).1 :=
    reshapeOps_settled rfl hfits hpending hrestore
  split
  · refine ((hsettled.modifyOwn _).markFinished _).stopFinished ?_ (Or.inl hstops) _
    show (Engine.modifyOwn _ _ _).runtimeCtx.isContext = false
    rw [(modifyOwn_fields _ _ _).2.1, reshapeOps_runtimeCtx]
  · exact hsettled

theorem Calm.finishContext (h : s.Calm) : (s.finishContext op env id).Calm := by
  unfold Engine.finishContext
  split
  case isFalse => exact h
  case isTrue =>
      dsimp only
      have hdecode : ({ s with runtimeCtx.isContext := false, runtimeCtx.currentBatch := 0 } :
          Engine).Calm := ⟨h.plain, h.flag⟩
      have hcalm := hdecode.reshapeOps op env.restore
        (Or.inr (by rw [batch_decode rfl]; exact Option.some_ne_none _))
      split
      · refine ((hcalm.modifyOwn _).markFinished _).stopFinished ?_ _
        show (Engine.modifyOwn _ _ _).runtimeCtx.isContext = false
        rw [(modifyOwn_fields _ _ _).2.1, reshapeOps_runtimeCtx]
      · exact hcalm

/-- The handler of a context that threw, whose request is removed or was the
only one. -/
theorem Calm.catchContext (h : s.Calm)
    (hremoved : s.manager.isEmpty = true ∨ env.catchStop.released = false ∨
      s.runtimeCtx.genCtxList.length ≤ 1) : (s.catchContext op env id).Calm := by
  have hcalm := h.stopRequest op env.catchStop id (Or.inr hremoved)
  unfold Engine.catchContext
  dsimp only
  split
  · exact hcalm
  · exact hcalm.modifyOwn _

/-- A context that threw and was alone leaves no running request. -/
theorem catchContext_alone (hreleased : env.catchStop.released = true)
    (hid : id.chunk = true ∨ id.uuid ∉ s.pendingRequestQueue)
    (halone : s.runtimeCtx.genCtxList = [⟨id, name, false⟩])
    (hpending : s.pendingRequestQueue.Nodup) : (s.catchContext op env id).Settled op := by
  have hnot : ¬ (id.chunk = false ∧ id.uuid ∈ s.pendingRequestQueue) := by
    rintro ⟨hwhole, hmem⟩
    rcases hid with hchunk | hnew
    · rw [hwhole] at hchunk
      cases hchunk
    · exact hnew hmem
  have hstop : s.stopRequest op env.catchStop id = (s.finishRequest 0 id, true) := by
    unfold Engine.stopRequest
    have hnil : (s.finishRequest 0 id).runtimeCtx.genCtxList = [] := by
      rw [(finishRequest_fields s id 0).2.1, halone]
      rfl
    simp only [hnot, if_false, halone, lastIdx?, decide_true, if_true, hreleased, hnil]
  have hnil : (s.finishRequest 0 id).runtimeCtx.genCtxList = [] := by
    rw [(finishRequest_fields s id 0).2.1, halone]
    rfl
  have hsettled : (s.finishRequest 0 id).Settled op := by
    refine ⟨fun other hother => ?_, fun hcons => absurd hnil hcons, ?_⟩
    · unfold loraNames RuntimeContext.loraNames at hother
      rw [hnil] at hother
      cases hother
    · rw [(finishRequest_fields s id 0).2.2.2]
      exact hpending
  unfold catchContext
  rw [hstop]
  exact hsettled.modifyOwn _

theorem finishContext_pending :
    (s.finishContext op env id).pendingRequestQueue.Sublist s.pendingRequestQueue := by
  unfold finishContext
  split
  case isFalse => exact List.Sublist.refl _
  case isTrue =>
      dsimp only
      split
      · refine (stopFinished_pending _).trans ?_
        show (Engine.modifyOwn _ _ _).pendingRequestQueue.Sublist _
        rw [(modifyOwn_fields _ _ _).2.2.2, reshapeOps_pending]
      · rw [reshapeOps_pending]

theorem catchContext_pending :
    (s.catchContext op env id).pendingRequestQueue.Sublist s.pendingRequestQueue := by
  unfold catchContext
  dsimp only
  split
  · exact (stopRequest_frame op _ _ s).2.2
  · rw [(modifyOwn_fields _ _ _).2.2.2]
    exact (stopRequest_frame op _ _ s).2.2

end Context

end Engine

end DashInfer.Lora
