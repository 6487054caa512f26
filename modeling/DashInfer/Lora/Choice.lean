import DashInfer.Lora.ContextStep

/-!
Which graph the LoRA operator runs, over whole runs. The steps after which the
operator may not be ready for the running requests are named here, and in a run
without them every call of `Forward` follows its batch.
-/

namespace DashInfer.Lora

open Lib Serving

namespace Engine

variable {op : CapsuleOp} {s s' : Engine}

/-- A context step that goes through, with all the `Reshape` calls it makes. -/
structure Completes (env : ContextEnv) : Prop where
  filled : env.filled = true
  ended : env.threw = false
  inserted : env.inserted = true
  restore : Reaches env.restore
  stops : ∀ id, Reaches (env.stops id).reshape

/-- A context step that stops before the request is listed, or goes through for
a LoRA that fits, or throws and takes back the only request; or one without LoRA
in a calm state, which does not throw while other requests run and LoRAs are
loaded. -/
def ContextCareful (op : CapsuleOp) (s : Engine) (id : RequestId) (name : String)
    (env : ContextEnv) : Prop :=
  if name ≠ "" ∧ s.manager.isLoraExists name = false then s.StopCareful env.catchStop id
  else
    env.built = false ∨ (Completes env ∧ (name = "" ∨ op.sgmv.Fits s.manager name)) ∨
      (env.filled = true ∧ env.threw = true ∧ env.catchStop.released = true ∧
        s.runtimeCtx.genCtxList = []) ∨
      (name = "" ∧ s.Calm ∧ (env.filled = true → env.threw = true →
        env.catchStop.released = true → s.runtimeCtx.genCtxList = [] ∨ s.manager.isEmpty = true))

/-- The steps that keep the operator ready. -/
def Careful (op : CapsuleOp) (s : Engine) : Action → Prop
  | .context chunk env => ∀ u rest r, s.pendingRequestQueue = u :: rest → s.requests u = some r →
      s.ContextCareful op ⟨u, chunk⟩ r.loraName env
  | .decode env => env.completed = true → (∀ id, Reaches (env.stops id).reshape) ∨ s.Calm
  | .stop u env | .release u env => s.StopCareful env ⟨u, false⟩
  -- the first LoRA does not come while requests run and the operator is still set for one
  | .load _ _ read => read = true → s.manager.isEmpty = true → 0 < s.manager.loraMaxNum →
      s.runtimeCtx.genCtxList = [] ∨ s.capsule.hasLoraInBatch = false
  -- no running request has the LoRA
  | .unload name => name ∉ s.loraNames
  | _ => True

section Steps

variable {id : RequestId} {name : String}

/-- The state in which a context step runs its graph: the request is listed last
and the operators look at it. -/
def contextState (id : RequestId) (name : String) (s : Engine) : Engine :=
  { s.pushBackGenCtx ⟨id, name, false⟩ with
    runtimeCtx.isContext := true
    runtimeCtx.currentBatch := s.runtimeCtx.genCtxList.length }

theorem batch_contextState (seqLen : Nat) :
    (s.contextState id name).runtimeCtx.batch seqLen = some ⟨true, [name], seqLen⟩ := by
  unfold contextState RuntimeContext.batch pushBackGenCtx
  simp

theorem mem_contextState {other : String} (hother : other ∈ (s.contextState id name).loraNames) :
    other ∈ s.loraNames ∨ other = name :=
  mem_pushBackGenCtx hother

theorem Calm.contextState (h : s.Calm) (id : RequestId) (hname : name = "") : (s.contextState id name).Calm := by
  refine ⟨fun other hother => ?_, h.flag⟩
  rcases mem_contextState hother with hold | rfl
  · exact h.plain other hold
  · exact hname

/-- A start is refused for want of its LoRA, ends before its request is listed
or right after, or runs its context. -/
theorem startRequest_eq (op : CapsuleOp) (env : ContextEnv) (id : RequestId) (name : String)
    (s : Engine) : s.startRequest op env id name =
      if name ≠ "" ∧ s.manager.isLoraExists name = false then
        (if (s.stopRequest op env.catchStop id).2 = false ∧ env.catchStop.threw then
          (s.stopRequest op env.catchStop id).1
        else (s.stopRequest op env.catchStop id).1.modifyOwn id
          fun r => { r with status := .generateFinished, finish := true }, [])
      else if env.built = false then (s, [])
      else if env.filled = false then (s.pushBackGenCtx ⟨id, name, false⟩, [])
      else
        let ran := (s.contextState id name).runDecoderContext op env name
        (if env.threw then ran.1.catchContext op env id else ran.1.finishContext op env id,
          ran.2) := by
  unfold startRequest
  split
  · dsimp only
    split <;> rfl
  · cases env.built
    · rfl
    · cases env.filled
      · rfl
      · rfl

theorem startRequest_settled {env : ContextEnv} (hphase : s.runtimeCtx.isContext = false)
    (h : s.Settled op) (hid : id.chunk = true ∨ id.uuid ∉ s.pendingRequestQueue)
    (hcareful : s.ContextCareful op id name env) :
    (s.startRequest op env id name).1.Settled op := by
  rw [startRequest_eq]
  unfold ContextCareful at hcareful
  split
  case isTrue hmissing =>
      rw [if_pos hmissing] at hcareful
      have hsettled := h.stopRequest hphase hcareful
      dsimp only
      split
      · exact hsettled
      · exact hsettled.modifyOwn _
  case isFalse hfound =>
  rw [if_neg hfound] at hcareful
  split
  case isTrue => exact h
  case isFalse hbuilt =>
  have hcareful := hcareful.resolve_left hbuilt
  split
  case isTrue hfilled =>
      rcases hcareful with ⟨hcompletes, -⟩ | ⟨hfull, -⟩ | ⟨hname, hcalm, -⟩
      · rw [hcompletes.filled] at hfilled
        cases hfilled
      · rw [hfull] at hfilled
        cases hfilled
      · have hlisted := hcalm.contextState id hname
        have hpushed : (s.pushBackGenCtx ⟨id, name, false⟩).Calm := ⟨hlisted.plain, hlisted.flag⟩
        exact hpushed.settled h.pending
  case isFalse hfilled =>
  have hfull : env.filled = true := by simpa using hfilled
  obtain ⟨hmanager, hruntime, hqueue⟩ := runDecoderContext_frame op env name
    (s.contextState id name)
  have hpending : ((s.contextState id name).runDecoderContext op env
      name).1.pendingRequestQueue.Nodup := by
    rw [hqueue]
    exact h.pending
  rcases hcareful with ⟨hcompletes, hname⟩ | ⟨-, hthrew, hreleased, hnil⟩ | ⟨hname, hcalm, halone⟩
  · simp only [hcompletes.ended, Bool.false_eq_true, if_false]
    refine finishContext_settled hcompletes.inserted hcompletes.restore hcompletes.stops
      (fun other hother => ?_) hpending
    unfold loraNames at hother
    rw [hruntime] at hother
    rw [hmanager]
    rcases mem_contextState hother with hold | rfl
    · exact h.fits other hold
    · exact hname
  · simp only [hthrew, if_true]
    have hid' := hid
    rw [← show (s.contextState id name).pendingRequestQueue = s.pendingRequestQueue from rfl,
      ← hqueue] at hid'
    have honly : ((s.contextState id name).runDecoderContext op env
        name).1.runtimeCtx.genCtxList = [⟨id, name, false⟩] := by
      rw [hruntime]
      unfold contextState pushBackGenCtx
      rw [hnil]
      rfl
    exact catchContext_alone hreleased hid' honly hpending
  · have hran := (hcalm.contextState id hname).runDecoderContext op env name
      (by rw [batch_contextState]; exact Option.some_ne_none _)
    dsimp only
    split
    case isFalse => exact hran.finishContext.settled (hpending.sublist finishContext_pending)
    case isTrue hthrew =>
        refine (hran.catchContext ?_).settled (hpending.sublist catchContext_pending)
        rw [hmanager, hruntime]
        cases hreleased : env.catchStop.released with
        | false => exact Or.inr (Or.inl rfl)
        | true =>
            rcases halone hfull hthrew hreleased with hnil | hempty
            · refine Or.inr (Or.inr ?_)
              unfold contextState pushBackGenCtx
              simp [hnil]
            · exact Or.inl hempty

/-- The call of `Forward` in a context step needs no care. -/
theorem startRequest_lawful (op : CapsuleOp) (env : ContextEnv) (id : RequestId) (name : String)
    (s : Engine) :
    ∀ f ∈ (s.startRequest op env id name).2, f.Lawful op := by
  rw [startRequest_eq]
  split
  case isTrue => simp
  case isFalse hfound =>
  split
  · simp
  split
  · simp
  · refine runDecoderContext_lawful (batch_contextState _) ?_
    by_cases hname : name = ""
    · exact Or.inl hname
    · refine Or.inr ?_
      have hexists : s.manager.isLoraExists name ≠ false := fun hmissing =>
        hfound ⟨hname, hmissing⟩
      show s.manager.isLoraExists name = true
      simpa using hexists

/-- The call of `Forward` in a decoder step follows the decode list. -/
theorem decode_lawful {env : DecodeEnv} (h : s.Settled op) :
    ∀ f ∈ (s.decode op env).2, f.Lawful op := by
  unfold decode
  dsimp only
  split
  case isFalse => simp
  case isTrue hrun =>
      have hlaw : Forward.Lawful op ⟨s.manager, s.runtimeCtx.decodeBatch,
          (s.capsule.forward op s.manager).2, (s.capsule.forward op s.manager).1.sgmv⟩ := by
        refine Capsule.forward_lawful ?_
        split
        case isTrue hempty =>
            rintro ⟨name, hname, hne⟩
            have hloaded := isEmpty_eq_false ((h.fits name hname).resolve_left hne).exists
            rw [hempty] at hloaded
            cases hloaded
        case isFalse hempty => exact h.ready hrun.2.1 (by simpa using hempty)
      split
      · intro f hf
        obtain rfl := List.mem_singleton.mp hf
        exact hlaw
      · intro f hf
        obtain rfl := List.mem_singleton.mp hf
        exact hlaw

theorem decode_settled {env : DecodeEnv} (h : s.Settled op)
    (hcareful : env.completed = true → (∀ id, Reaches (env.stops id).reshape) ∨ s.Calm) :
    (s.decode op env).1.Settled op := by
  unfold decode
  dsimp only
  split
  case isFalse => exact h.of_fields rfl rfl rfl h.pending
  case isTrue =>
      have hforward := forward_capsule op s.manager s.capsule
      have hran : Engine.Settled op { s with
          runtimeCtx.isContext := false
          runtimeCtx.currentBatch := 0
          capsule := (s.capsule.forward op s.manager).1 } := by
        refine ⟨h.fits, fun hcons hloaded => ?_, h.pending⟩
        have hready := h.ready hcons hloaded
        unfold Ready at hready ⊢
        rw [hforward.1, hforward.2]
        exact hready
      split
      case isFalse => exact hran
      case isTrue hcompleted =>
          refine (hran.markFinished _).stopFinished rfl ((hcareful hcompleted).imp_right ?_) _
          intro hcalm
          have hstill : Engine.Calm { s with
              runtimeCtx.isContext := false
              runtimeCtx.currentBatch := 0
              capsule := (s.capsule.forward op s.manager).1 } := by
            refine ⟨hcalm.plain, ?_⟩
            rw [hforward.1]
            exact hcalm.flag
          exact hstill.markFinished _

theorem updateResult_fields (u : Uuid) :
    (s.updateResult u).manager = s.manager ∧ (s.updateResult u).runtimeCtx = s.runtimeCtx ∧
      (s.updateResult u).capsule = s.capsule ∧
      (s.updateResult u).pendingRequestQueue = s.pendingRequestQueue := by
  unfold updateResult modifyRequest
  split
  · exact ⟨rfl, rfl, rfl, rfl⟩
  · split
    · exact ⟨rfl, rfl, rfl, rfl⟩
    · split
      · exact ⟨rfl, rfl, rfl, rfl⟩
      · dsimp only
        split <;> split <;> exact ⟨rfl, rfl, rfl, rfl⟩

/-- A LoRA is loaded: the running requests have other ones, and if it is the
first they have none. -/
theorem load_settled {weights : WeightMap} {read : Bool} (h : s.Settled op)
    (hcareful : read = true → s.manager.isEmpty = true → 0 < s.manager.loraMaxNum →
      s.runtimeCtx.genCtxList = [] ∨ s.capsule.hasLoraInBatch = false) :
    (s.loadLoraByName name weights read).Settled op := by
  unfold loadLoraByName
  split
  · exact h
  split
  · exact h
  split
  case isFalse => exact h
  case isTrue hmax hnew hread =>
      have hlookup : ∀ other ∈ s.loraNames, other = "" ∨
          s.manager.loras.lookup other = (s.manager.registerLora name weights).loras.lookup other :=
        fun other hother => (h.fits other hother).imp_right fun hfits =>
          (lookup_registerLora hfits.exists).symm
      refine ⟨fun other hother => ?_, fun hcons _ => ?_, h.pending⟩
      · rcases h.fits other hother with hplain | hfits
        · exact Or.inl hplain
        · exact Or.inr (hfits.congr (lookup_registerLora hfits.exists).symm)
      · by_cases hempty : s.manager.isEmpty = true
        · have hflag := (hcareful hread hempty (by
            have hnone : s.manager.loras = [] := by simpa [LoraManager.isEmpty] using hempty
            rw [hnone] at hmax
            exact Nat.lt_of_not_le hmax)).resolve_left hcons
          have hplain : ¬ s.runtimeCtx.decodeBatch.HasLora := by
            rintro ⟨other, hother, hne⟩
            have hloaded := isEmpty_eq_false ((h.fits other hother).resolve_left hne).exists
            rw [hempty] at hloaded
            cases hloaded
          exact ⟨⟨fun h => (by rw [hflag] at h; cases h), fun h => absurd h hplain⟩,
            fun h => absurd h hplain⟩
        · obtain ⟨hflag, htables⟩ := h.ready hcons (by simpa using hempty)
          refine ⟨hflag, fun hlora => ?_⟩
          obtain ⟨hcomputed, hdevice⟩ := htables hlora
          rw [← SgmvOp.tables_congr hlookup]
          exact ⟨hcomputed, hdevice⟩

/-- A LoRA is unloaded that no running request has. -/
theorem unload_settled (h : s.Settled op) (hcareful : name ∉ s.loraNames) :
    (s.unloadLoraByName name).Settled op := by
  unfold unloadLoraByName
  split
  case isFalse => exact h
  case isTrue =>
      have hlookup : ∀ other ∈ s.loraNames,
          (s.manager.unRegisterLora name).loras.lookup other = s.manager.loras.lookup other :=
        fun other hother => lookup_unRegisterLora fun heq => hcareful (heq ▸ hother)
      refine ⟨fun other hother => ?_, fun hcons hloaded => ?_, h.pending⟩
      · exact (h.fits other hother).imp_right fun hfits => hfits.congr (hlookup other hother).symm
      · have hbefore : s.manager.isEmpty = false := by
          unfold LoraManager.isEmpty LoraManager.unRegisterLora at *
          cases hloras : s.manager.loras with
          | nil => simp [hloras] at hloaded
          | cons => rfl
        obtain ⟨hflag, htables⟩ := h.ready hcons hbefore
        refine ⟨hflag, fun hlora => ?_⟩
        obtain ⟨hcomputed, hdevice⟩ := htables hlora
        rw [SgmvOp.tables_congr fun other hother => Or.inr (hlookup other hother)]
        exact ⟨hcomputed, hdevice⟩

/-- One careful step. -/
theorem act_settled {a : Action} {forwards : List Forward} (h : s.Settled op)
    (hcareful : s.Careful op a) (hact : s.act op a = some (s', forwards)) :
    s'.Settled op ∧ ∀ f ∈ forwards, f.Lawful op := by
  have hquiet : ∀ t : Engine, t.Settled op → t.Settled op ∧ ∀ f ∈ ([] : List Forward),
      f.Lawful op := fun t ht => ⟨ht, fun f hf => (by cases hf)⟩
  cases a with
  | start u loraName =>
      rw [act] at hact
      split at hact
      case isFalse => cases hact
      case isTrue hnew =>
          obtain ⟨rfl, rfl⟩ := Prod.mk.inj (Option.some.inj hact)
          refine hquiet _ (h.of_fields rfl rfl rfl ?_)
          exact List.nodup_append.mpr ⟨h.pending, List.nodup_singleton u,
            fun v hv w hw heq => hnew.2 (List.mem_singleton.mp hw ▸ heq ▸ hv)⟩
  | deny loraName =>
      obtain ⟨rfl, rfl⟩ := Prod.mk.inj (Option.some.inj hact)
      exact hquiet _ (h.of_fields rfl rfl rfl h.pending)
  | interrupt =>
      rw [act] at hact
      split at hact
      case h_1 => cases hact
      case h_2 u rest hqueue =>
          obtain ⟨rfl, rfl⟩ := Prod.mk.inj (Option.some.inj hact)
          have hpending := h.pending
          rw [hqueue, List.nodup_cons] at hpending
          exact hquiet _ (h.of_fields rfl rfl rfl hpending.2)
  | context chunk env =>
      rw [act] at hact
      split at hact
      case h_1 => cases hact
      case h_2 u rest hqueue =>
          split at hact
          case h_1 => cases hact
          case h_2 r hr =>
              split at hact
              case isTrue => cases hact
              case isFalse hphase =>
                  have hstart := Option.some.inj hact
                  have hcontext := hcareful u rest r hqueue hr
                  have hpending := h.pending
                  rw [hqueue, List.nodup_cons] at hpending
                  have hdecode : s.runtimeCtx.isContext = false := by simpa using hphase
                  cases chunk with
                  | true =>
                      have hsettled := startRequest_settled hdecode h (Or.inl rfl) hcontext
                      have hlawful := startRequest_lawful op env ⟨u, true⟩ r.loraName s
                      rw [if_pos rfl] at hstart
                      rw [hstart] at hsettled hlawful
                      exact ⟨hsettled, hlawful⟩
                  | false =>
                      have hpopped : Engine.Settled op { s with pendingRequestQueue := rest } :=
                        h.of_fields rfl rfl rfl hpending.2
                      have hcalm : Engine.Calm { s with pendingRequestQueue := rest } ↔ s.Calm :=
                        ⟨fun h => ⟨h.plain, h.flag⟩, fun h => ⟨h.plain, h.flag⟩⟩
                      have hcontext' : Engine.ContextCareful op
                          { s with pendingRequestQueue := rest } ⟨u, false⟩ r.loraName env := by
                        unfold ContextCareful StopCareful at hcontext ⊢
                        simp only [hcalm]
                        exact hcontext
                      have hsettled := startRequest_settled (s := { s with
                        pendingRequestQueue := rest }) hdecode hpopped (Or.inr hpending.1) hcontext'
                      have hlawful := startRequest_lawful op env ⟨u, false⟩ r.loraName
                        { s with pendingRequestQueue := rest }
                      simp only [Bool.false_eq_true, if_false] at hstart
                      rw [hstart] at hsettled hlawful
                      exact ⟨hsettled, hlawful⟩
  | decode env =>
      obtain ⟨rfl, rfl⟩ := Prod.mk.inj (Option.some.inj hact)
      exact ⟨decode_settled h hcareful, decode_lawful h⟩
  | stop u env =>
      rw [act] at hact
      split at hact
      case isTrue => cases hact
      case isFalse hphase =>
          obtain ⟨rfl, rfl⟩ := Prod.mk.inj (Option.some.inj hact)
          exact hquiet _ (h.stopRequest (by simpa using hphase) hcareful)
  | release u env =>
      rw [act] at hact
      split at hact
      case isTrue => cases hact
      case isFalse hphase =>
          obtain ⟨rfl, rfl⟩ := Prod.mk.inj (Option.some.inj hact)
          have hsettled := h.stopRequest (by simpa using hphase) hcareful
          exact hquiet _ (hsettled.of_fields rfl rfl rfl hsettled.pending)
  | updateResult u =>
      obtain ⟨rfl, rfl⟩ := Prod.mk.inj (Option.some.inj hact)
      obtain ⟨hmanager, hruntime, hcapsule, hpending⟩ := updateResult_fields (s := s) u
      refine hquiet _ (h.of_fields hmanager (by rw [hruntime]) hcapsule ?_)
      rw [hpending]
      exact h.pending
  | load source weights read =>
      rw [act] at hact
      split at hact
      case isTrue => cases hact
      case isFalse =>
          obtain ⟨rfl, rfl⟩ := Prod.mk.inj (Option.some.inj hact)
          exact hquiet _ (load_settled h hcareful)
  | unload name =>
      rw [act] at hact
      split at hact
      case isTrue => cases hact
      case isFalse =>
          obtain ⟨rfl, rfl⟩ := Prod.mk.inj (Option.some.inj hact)
          exact hquiet _ (unload_settled h hcareful)

end Steps

/-- Every step of a run keeps the operator ready. -/
def CarefulRun (op : CapsuleOp) : List Action → Engine → Prop
  | [], _ => True
  | a :: rest, s => s.Careful op a ∧
      ∀ s' forwards, s.act op a = some (s', forwards) → CarefulRun op rest s'

/-- The run lemma. -/
theorem run_settled {actions : List Action} {forwards : List Forward} (h : s.Settled op)
    (hcareful : CarefulRun op actions s) (hrun : run op actions s = some (s', forwards)) :
    s'.Settled op ∧ ∀ f ∈ forwards, f.Lawful op := by
  induction actions generalizing s forwards with
  | nil =>
      obtain ⟨rfl, rfl⟩ := Prod.mk.inj (Option.some.inj hrun)
      exact ⟨h, fun f hf => (by cases hf)⟩
  | cons a rest ih =>
      rw [run] at hrun
      cases hact : s.act op a with
      | none => simp [hact] at hrun
      | some result =>
          obtain ⟨t, first⟩ := result
          simp only [hact] at hrun
          obtain ⟨hsettled, hfirst⟩ := act_settled h hcareful.1 hact
          cases hlater : run op rest t with
          | none => simp [hlater] at hrun
          | some result =>
              obtain ⟨last, later⟩ := result
              simp only [hlater, Option.some.injEq, Prod.mk.injEq] at hrun
              obtain ⟨rfl, rfl⟩ := hrun
              obtain ⟨hend, hlawful⟩ := ih hsettled (hcareful.2 t first hact) hlater
              refine ⟨hend, fun f hf => ?_⟩
              rcases List.mem_append.mp hf with hf | hf
              · exact hfirst f hf
              · exact hlawful f hf

theorem init_settled (op : CapsuleOp) (loraMaxNum : Nat) : (init op loraMaxNum).Settled op :=
  ⟨fun _ h => (by cases h), fun h => absurd rfl h, List.nodup_nil⟩

end Engine

/-- In a run whose steps keep the operator ready, every call of `Forward` runs
the graph with LoRA exactly when its batch has one, with the tables of that
batch and the weights of loaded LoRAs. -/
theorem forwards_lawful (op : CapsuleOp) (loraMaxNum : Nat) {actions : List Action} {s : Engine}
    {forwards : List Forward} (hrun : Engine.run op actions (.init op loraMaxNum) = some (s, forwards))
    (hcareful : Engine.CarefulRun op actions (.init op loraMaxNum)) :
    ∀ f ∈ forwards, f.Lawful op :=
  (Engine.run_settled (Engine.init_settled op loraMaxNum) hcareful hrun).2

/-- A plain operator. -/
def smallOp : CapsuleOp where
  activation := false
  sgmv :=
    { opName := "q", inFeatures := 1, isAttentionSelf := false, qkvWeightDims := [], typeSize := 2 }

def smallWeights (ptr : Nat) : WeightMap :=
  [("q.lora_A.weight", ⟨ptr, 1, 8⟩), ("q.lora_B.weight", ⟨ptr + 1, 8, 1⟩)]

/-- Steps at which nothing fails. -/
def smoothTopo : TopoEnv := ⟨true, 1, ⟨true, true, true, smallOp.init⟩, true⟩

def smoothStop : StopEnv := ⟨true, false, smoothTopo⟩

def smoothContext (finish : Bool) : ContextEnv where
  built := true
  filled := true
  prepared := true
  reshape := smoothTopo
  forwarded := true
  finish := finish
  threw := false
  catchStop := smoothStop
  inserted := true
  restore := smoothTopo
  stops := fun _ => smoothStop

def smoothDecode : DecodeEnv := ⟨true, true, true, fun _ => false, fun _ => smoothStop⟩

/-- A LoRA is loaded and a request with it runs. -/
def oneLora : List Action :=
  [.load (.named "l1") (smallWeights 0) true, .start 0 "l1", .context false (smoothContext false),
    .decode smoothDecode]

/-- The request with the only LoRA ends, the LoRA is unloaded, a request without
LoRA starts, and another LoRA is loaded. -/
def reload : List Action :=
  [.load (.named "l1") (smallWeights 0) true, .start 0 "l1", .context false (smoothContext true),
    .updateResult 0, .unload "l1", .start 1 "", .context false (smoothContext false),
    .load (.named "l2") (smallWeights 2) true, .decode smoothDecode]

theorem forwards_lawful_one_lora :
    (Engine.run smallOp oneLora (.init smallOp 2)).isSome = true ∧
      ∀ f ∈ ((Engine.run smallOp oneLora (.init smallOp 2)).get (by decide)).2,
        f.Lawful smallOp := by
  have hruns : (Engine.run smallOp oneLora (.init smallOp 2)).isSome = true := by decide
  refine ⟨hruns, ?_⟩
  refine forwards_lawful smallOp 2 (Option.some_get hruns).symm ?_
  have hcompletes : Engine.Completes (smoothContext false) :=
    ⟨rfl, rfl, rfl, ⟨rfl, rfl, rfl⟩, fun _ => ⟨rfl, rfl, rfl⟩⟩
  refine ⟨fun _ _ _ => Or.inl rfl, fun s₁ f₁ h₁ => ⟨trivial, fun s₂ f₂ h₂ => ⟨?_, fun _ _ _ =>
    ⟨fun _ => Or.inl fun _ => ⟨rfl, rfl, rfl⟩, fun _ _ _ => trivial⟩⟩⟩⟩
  obtain ⟨rfl, -⟩ := Prod.mk.inj (Option.some.inj h₁)
  obtain ⟨rfl, -⟩ := Prod.mk.inj (Option.some.inj h₂)
  intro u rest r hqueue hr
  obtain ⟨rfl, -⟩ := List.cons.inj hqueue
  obtain rfl := Option.some.inj hr
  have hfits : smallOp.sgmv.Fits ⟨2, [("l1", smallWeights 0)]⟩ "l1" :=
    ⟨⟨0, 1, 8⟩, ⟨1, 8, 1⟩, by decide⟩
  unfold Engine.ContextCareful
  rw [if_neg (by decide)]
  exact Or.inr (Or.inl ⟨hcompletes, Or.inr hfits⟩)

/-- The decoder step runs the graph with LoRA for a batch without. -/
theorem reload_not_lawful :
    ¬ ∀ (op : CapsuleOp) (loraMaxNum : Nat) (actions : List Action) (s : Engine)
      (forwards : List Forward),
      Engine.run op actions (.init op loraMaxNum) = some (s, forwards) →
        ∀ f ∈ forwards, f.Lawful op := by
  intro h
  have hruns : (Engine.run smallOp reload (.init smallOp 2)).isSome = true := by decide
  have hlawful := h smallOp 2 reload _ _ (Option.some_get hruns).symm
  have hstale : ∃ f ∈ ((Engine.run smallOp reload (.init smallOp 2)).get (by decide)).2,
      InnerOp.sgmv ∈ f.ops ∧ ¬ f.batch.HasLora := by decide
  obtain ⟨f, hf, hran, hplain⟩ := hstale
  exact hplain ((hlawful f hf).branch.mp hran)

end DashInfer.Lora
