import DashInfer.Lib.Fallible
import DashInfer.Service.ConfigMessage
import DashInfer.Service.TensorMessage

/-!
The messages that hold tensors: the list map of multimedia inputs and the
generated elements, with what each side does about the storage of the tensors.
The last theorem says, for every kind of message, which values arrive as they
were sent.
-/

namespace DashInfer.Service

open Lib

variable {F : Type}

/-- A `std::map` from names, as the list of its entries in order. -/
abbrev Entries (α : Type) := List (String × α)

/-- `makeTensorMapProtoFromAs`. -/
def makeTensorMapProtoFromAs (inputs : Entries DLTensor) : Option (Entries Tensor) :=
  inputs.mapM (fun entry => (toTensorProtoFromDlTensor entry.2).map (fun p => (entry.1, p)))

/-- `makeTensorListMapProtoFromAs`. Each list is built in `auto array =
(*proto)[name]`, a copy of the entry that the loop drops; a tensor that cannot
be packed still stops the loop. -/
def makeTensorListMapProtoFromAs (ins : Entries (List DLTensor)) :
    Option (Entries (List Tensor)) :=
  ins.mapM (fun entry =>
    (entry.2.mapM toTensorProtoFromDlTensor).map (fun _ => (entry.1, [])))

/-- The lists a reader gets by unpacking each tensor of the message. -/
def tensorListMapFromProto (proto : Entries (List Tensor)) : Option (Entries (List DLTensor)) :=
  proto.mapM (fun entry => (entry.2.mapM toDlTensor).map (fun tensors => (entry.1, tensors)))

def sendTensorListMap (ins : Entries (List DLTensor)) : Option (Entries (List DLTensor)) :=
  (makeTensorListMapProtoFromAs ins).bind tensorListMapFromProto

/-- Whatever is sent, no list of the message has a tensor. -/
theorem makeTensorListMapProtoFromAs_lists {ins : Entries (List DLTensor)}
    {proto : Entries (List Tensor)} (h : makeTensorListMapProtoFromAs ins = some proto) :
    ∀ entry ∈ proto, entry.2 = [] := by
  intro entry hentry
  obtain ⟨sent, _, hsent⟩ := exists_left_of_forall₂ (mapM_eq_some_iff.mp h) hentry
  obtain ⟨_, _, rfl⟩ := Option.map_eq_some_iff.mp hsent
  rfl

/-- A map of tensor lists arrives as it was exactly if all its lists are
empty. -/
theorem sendTensorListMap_iff (ins : Entries (List DLTensor)) :
    sendTensorListMap ins = some ins ↔ ∀ entry ∈ ins, entry.2 = [] := by
  constructor
  · intro h
    obtain ⟨proto, hsend, hread⟩ := Option.bind_eq_some_iff.mp h
    intro entry hentry
    obtain ⟨sent, hmem, hsent⟩ := exists_left_of_forall₂ (mapM_eq_some_iff.mp hread) hentry
    rw [makeTensorListMapProtoFromAs_lists hsend sent hmem] at hsent
    obtain ⟨tensors, htensors, rfl⟩ := Option.map_eq_some_iff.mp hsent
    exact (Option.some.inj htensors).symm
  · intro h
    have hpack : makeTensorListMapProtoFromAs ins =
        some (ins.map (fun entry => (entry.1, []))) := by
      apply mapM_eq_some_iff.mpr
      rw [List.forall₂_map_right_iff, List.forall₂_same]
      intro entry hentry
      rw [h entry hentry]
      rfl
    unfold sendTensorListMap
    rw [hpack, Option.bind_some]
    apply mapM_eq_some_iff.mpr
    rw [List.forall₂_map_left_iff, List.forall₂_same]
    intro entry hentry
    simp only [List.mapM_nil, Option.pure_def, Option.map_some, ← h entry hentry]

/-- `AsEngine::GeneratedElements`. The tensors are pointers: `none` is one whose
storage has been freed. -/
structure GeneratedElements (F : Type) where
  idsFromGenerate : List Int
  logProbsList : List (List (Int × F))
  tokenLogprobsList : List F
  tensorsFromModelInference : Entries (Option DLTensor)
  prefixCacheLen : Int
  prefixLenGpu : Int
  prefixLenCpu : Int
deriving DecidableEq

/-- `std::make_shared<GeneratedElements>()`. -/
def GeneratedElements.fresh : GeneratedElements F where
  idsFromGenerate := []
  logProbsList := []
  tokenLogprobsList := []
  tensorsFromModelInference := []
  prefixCacheLen := 0
  prefixLenGpu := 0
  prefixLenCpu := 0

/-- The `GeneratedElements` message. -/
structure GeneratedElementsMessage where
  empty : Int
  idsFromGenerate : List Int
  tensorsFromModelInference : Entries Tensor

/-- `makeGeneratedElementsProtoFromAs`; the null pointer is `none`. -/
def makeGeneratedElementsProtoFromAs (ele : Option (GeneratedElements F)) :
    Option GeneratedElementsMessage :=
  match ele with
  | none => some { empty := 1, idsFromGenerate := [], tensorsFromModelInference := [] }
  | some ele => do
      let tensors ← ele.tensorsFromModelInference.mapM
        (fun entry => entry.2.map (fun t => (entry.1, t)))
      let protos ← makeTensorMapProtoFromAs tensors
      pure { empty := 0, idsFromGenerate := ele.idsFromGenerate,
             tensorsFromModelInference := protos }

/-- `makeGeneratedElementsAsFromProto`, into a fresh object. The manager of an
unpacked tensor goes out of scope with the loop body and frees it. -/
def makeGeneratedElementsAsFromProto (proto : GeneratedElementsMessage) :
    Option (Option (GeneratedElements F)) :=
  if proto.empty = 1 then some none
  else
    (proto.tensorsFromModelInference.mapM
        (fun entry => (toDlTensor entry.2).map (fun _ => (entry.1, none)))).map
      (fun tensors => some
        { GeneratedElements.fresh with
          idsFromGenerate := proto.idsFromGenerate
          tensorsFromModelInference := tensors })

def sendGeneratedElements (ele : Option (GeneratedElements F)) :
    Option (Option (GeneratedElements F)) :=
  (makeGeneratedElementsProtoFromAs ele).bind makeGeneratedElementsAsFromProto

/-- What of the elements survives: the ids, and nothing that has no place in the
message or lives in freed storage. -/
def GeneratedElements.IdsOnly (ele : GeneratedElements F) : Prop :=
  ele.logProbsList = [] ∧ ele.tokenLogprobsList = [] ∧ ele.tensorsFromModelInference = [] ∧
    ele.prefixCacheLen = 0 ∧ ele.prefixLenGpu = 0 ∧ ele.prefixLenCpu = 0

/-- A tensor that was read is a pointer to freed storage, never one to the
tensor that was sent. -/
theorem freed_of_read {protos : Entries Tensor} {tensors : Entries (Option DLTensor)}
    (h : protos.mapM (fun entry => (toDlTensor entry.2).map (fun _ => (entry.1, none))) =
      some tensors) : ∀ entry ∈ tensors, entry.2 = none := by
  intro entry hentry
  obtain ⟨proto, _, hproto⟩ := exists_left_of_forall₂ (mapM_eq_some_iff.mp h) hentry
  obtain ⟨_, _, rfl⟩ := Option.map_eq_some_iff.mp hproto
  rfl

theorem live_of_sent {tensors : Entries (Option DLTensor)} {sent : Entries DLTensor}
    (h : tensors.mapM (fun entry => entry.2.map (fun t => (entry.1, t))) = some sent) :
    ∀ entry ∈ tensors, entry.2 ≠ none := by
  have hpairs := mapM_eq_some_iff.mp h
  clear h
  induction hpairs with
  | nil => simp
  | cons hentry _ ih =>
      obtain ⟨t, ht, -⟩ := Option.map_eq_some_iff.mp hentry
      rw [List.forall_mem_cons]
      exact ⟨by simp [ht], ih⟩

/-- Generated elements arrive as they were exactly if they are none, or hold
nothing but ids. -/
theorem sendGeneratedElements_iff (ele : Option (GeneratedElements F)) :
    sendGeneratedElements ele = some ele ↔ ∀ e ∈ ele, e.IdsOnly := by
  cases ele with
  | none => simp [sendGeneratedElements, makeGeneratedElementsProtoFromAs,
      makeGeneratedElementsAsFromProto]
  | some e =>
      simp only [Option.mem_def, Option.some.injEq, forall_eq']
      constructor
      · intro h
        obtain ⟨proto, hsend, hread⟩ := Option.bind_eq_some_iff.mp h
        simp only [makeGeneratedElementsProtoFromAs, Option.bind_eq_bind,
          Option.bind_eq_some_iff, Option.pure_def] at hsend
        obtain ⟨sent, hlive, protos, _, hproto⟩ := hsend
        obtain rfl := Option.some.inj hproto
        obtain ⟨tensors, hfreed, hsame⟩ := Option.map_eq_some_iff.mp hread
        have hsame := Option.some.inj hsame
        have htensors : tensors = e.tensorsFromModelInference :=
          congrArg GeneratedElements.tensorsFromModelInference hsame
        have hnone : e.tensorsFromModelInference = [] := by
          rw [List.eq_nil_iff_forall_not_mem]
          intro entry hentry
          refine live_of_sent hlive entry hentry (freed_of_read hfreed entry ?_)
          rwa [htensors]
        exact ⟨(congrArg GeneratedElements.logProbsList hsame).symm,
          (congrArg GeneratedElements.tokenLogprobsList hsame).symm, hnone,
          (congrArg GeneratedElements.prefixCacheLen hsame).symm,
          (congrArg GeneratedElements.prefixLenGpu hsame).symm,
          (congrArg GeneratedElements.prefixLenCpu hsame).symm⟩
      · rintro ⟨hlog, htoken, htensors, hcache, hgpu, hcpu⟩
        obtain ⟨⟩ := e
        simp only at hlog htoken htensors hcache hgpu hcpu
        subst hlog htoken htensors hcache hgpu hcpu
        rfl

/-- Which values of each kind arrive on the other side as they were sent. -/
theorem messages_roundTrip_iff [Zero F] [One F] :
    (∀ t : ManagedTensor,
      sendTensor t.toDLTensor = some t.toDLTensor ↔ Sendable t.toDLTensor) ∧
    (∀ cfg : GenerateConfig F,
      sendGenerateConfig cfg = cfg ↔
        cfg.frequencyPenalty = 0 ∧ cfg.logprobs = false ∧ cfg.topLogprobs = 0 ∧
          cfg.mmInfo = none ∧ cfg.uuid = "Default-UUID(deprecated)") ∧
    (∀ config : AsModelConfig,
      sendModelConfig config = config ↔
        config.isLoraCfg = false ∧ config.engineMaxPrefillLength = 0 ∧
          config.evictionStrategy = .maxLength ∧ config.schedulingStrategy = .contextPriority ∧
          config.enableSparsityMatmul = false ∧ config.loraNames = [] ∧
          config.loraMaxRank = 64 ∧ config.loraMaxNum = 5) ∧
    (∀ ins : Entries (List DLTensor),
      sendTensorListMap ins = some ins ↔ ∀ entry ∈ ins, entry.2 = []) ∧
    (∀ ele : Option (GeneratedElements F),
      sendGeneratedElements ele = some ele ↔ ∀ e ∈ ele, e.IdsOnly) ∧
    ∀ stat : AsEngineStat F,
      sendEngineStat stat = stat ↔
        stat.totalToken = 0 ∧ stat.tokenUsagePercentage = 0 ∧ stat.prefixCacheHitToken = 0 ∧
          stat.prefixCacheMissToken = 0 ∧ stat.prefixCacheHitRate = 0 ∧
          stat.prefixCacheMissRate = 0 :=
  ⟨ManagedTensor.sendTensor_iff, sendGenerateConfig_iff, sendModelConfig_iff,
    sendTensorListMap_iff, sendGeneratedElements_iff, sendEngineStat_iff⟩

theorem not_messages_roundTrip :
    ¬ ((∀ t : ManagedTensor, sendTensor t.toDLTensor = some t.toDLTensor) ∧
      (∀ cfg : GenerateConfig Int, sendGenerateConfig cfg = cfg) ∧
      (∀ config : AsModelConfig, sendModelConfig config = config) ∧
      (∀ ins : Entries (List DLTensor), sendTensorListMap ins = some ins) ∧
      (∀ ele : Option (GeneratedElements Int), sendGeneratedElements ele = some ele) ∧
      ∀ stat : AsEngineStat Int, sendEngineStat stat = stat) := by
  rintro ⟨-, -, hmodel, -⟩
  have h := hmodel { AsModelConfig.default with loraNames := ["a"] }
  exact absurd h (by decide)

end DashInfer.Service
