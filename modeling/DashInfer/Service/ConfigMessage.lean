import Mathlib.Algebra.Group.Basic

/-!
The configurations and the statistics that cross the process boundary. Each is
copied field by field into a message and field by field out of it, into an
object that starts from its defaults. Enumerations travel as their numbers; `F`
is the type `float`, which the messages carry as it is.
-/

namespace DashInfer.Service

variable {F : Type}

/-- An address in the client's process. -/
abbrev Address := Nat

inductive VocabType where
  | wpm
  | spm
  | ugm
  | bpe
deriving DecidableEq

namespace VocabType

def toInt : VocabType → Int
  | .wpm => 0
  | .spm => 1
  | .ugm => 2
  | .bpe => 3

/-- The cast back, from the values the sender can have put in. -/
def ofInt (n : Int) : VocabType :=
  if n = 0 then .wpm else if n = 1 then .spm else if n = 2 then .ugm else .bpe

@[simp] theorem ofInt_toInt (v : VocabType) : ofInt v.toInt = v := by
  cases v <;> rfl

end VocabType

inductive AsMHAPrefill where
  | prefillDefault
  | flashV2
  | xformer
deriving DecidableEq

namespace AsMHAPrefill

def toInt : AsMHAPrefill → Int
  | .prefillDefault => 0
  | .flashV2 => 10
  | .xformer => 11

def ofInt (n : Int) : AsMHAPrefill :=
  if n = 0 then .prefillDefault else if n = 10 then .flashV2 else .xformer

@[simp] theorem ofInt_toInt (m : AsMHAPrefill) : ofInt m.toInt = m := by
  cases m <;> rfl

end AsMHAPrefill

inductive AsCacheMode where
  | cacheDefault
  | quantI8
  | quantU4
deriving DecidableEq

namespace AsCacheMode

def toInt : AsCacheMode → Int
  | .cacheDefault => 0
  | .quantI8 => 1
  | .quantU4 => 2

def ofInt (n : Int) : AsCacheMode :=
  if n = 0 then .cacheDefault else if n = 1 then .quantI8 else .quantU4

@[simp] theorem ofInt_toInt (m : AsCacheMode) : ofInt m.toInt = m := by
  cases m <;> rfl

end AsCacheMode

inductive AsEvictionStrategy where
  | maxLength
  | random
deriving DecidableEq

inductive AsSchedulingStrategy where
  | contextPriority
  | balance
deriving DecidableEq

/-- `GenerateConfig` of the engine. -/
structure GenerateConfig (F : Type) where
  doSample : Bool
  numBeams : Int
  numReturnSequences : Int
  earlyStopping : Bool
  stopWordsIds : List (List Int)
  eosTokenId : Int
  seed : UInt64
  badWordsIds : List (List Int)
  temperature : F
  topK : Int
  topP : F
  repetitionPenalty : F
  lengthPenalty : F
  presencePenalty : F
  frequencyPenalty : F
  suppressRepetitionInGeneration : Bool
  noRepeatNgramSize : Int
  logprobs : Bool
  topLogprobs : Int
  minLength : Int
  maxLength : Int
  loraName : String
  mmInfo : Option Address
  responseFormat : List (String × String)
  vocab : List (String × Int)
  vocabType : VocabType
  uuid : String
  userRequestId : String
  inputLen : Int
deriving DecidableEq

/-- The member initialisers. -/
def GenerateConfig.default [Zero F] [One F] : GenerateConfig F where
  doSample := true
  numBeams := 1
  numReturnSequences := 1
  earlyStopping := true
  stopWordsIds := []
  eosTokenId := 102
  seed := 0
  badWordsIds := []
  temperature := 1
  topK := 50
  topP := 1
  repetitionPenalty := 1
  lengthPenalty := 1
  presencePenalty := 0
  frequencyPenalty := 0
  suppressRepetitionInGeneration := false
  noRepeatNgramSize := 0
  logprobs := false
  topLogprobs := 0
  minLength := 0
  maxLength := 20
  loraName := ""
  mmInfo := none
  responseFormat := []
  vocab := []
  vocabType := .wpm
  uuid := "Default-UUID(deprecated)"
  userRequestId := "Default-User-UUID"
  inputLen := 0

/-- The `GenerateConfig` message, less the fields nobody sets. -/
structure GenerateConfigMessage (F : Type) where
  badWordsIds : List (List Int)
  stopWordsIds : List (List Int)
  doSample : Bool
  earlyStopping : Bool
  uuid : String
  numBeams : Int
  numReturnSequences : Int
  temperature : F
  topP : F
  repetitionPenalty : F
  lengthPenalty : F
  presencePenalty : F
  suppressRepetitionInGeneration : Bool
  minLength : Int
  maxLength : Int
  noRepeatNgramSize : Int
  eosTokenId : Int
  topK : Int
  inputLen : Int
  seed : Int64
  loraName : String
  responseFormat : List (String × String)
  vocab : List (String × Int)
  vocabType : Int

def makeGenCfgProtoFromAs (cfg : GenerateConfig F) : GenerateConfigMessage F where
  badWordsIds := cfg.badWordsIds
  stopWordsIds := cfg.stopWordsIds
  doSample := cfg.doSample
  earlyStopping := cfg.earlyStopping
  uuid := cfg.userRequestId
  numBeams := cfg.numBeams
  numReturnSequences := cfg.numReturnSequences
  temperature := cfg.temperature
  topP := cfg.topP
  repetitionPenalty := cfg.repetitionPenalty
  lengthPenalty := cfg.lengthPenalty
  presencePenalty := cfg.presencePenalty
  suppressRepetitionInGeneration := cfg.suppressRepetitionInGeneration
  minLength := cfg.minLength
  maxLength := cfg.maxLength
  noRepeatNgramSize := cfg.noRepeatNgramSize
  eosTokenId := cfg.eosTokenId
  topK := cfg.topK
  inputLen := cfg.inputLen
  seed := cfg.seed.toInt64
  loraName := cfg.loraName
  responseFormat := cfg.responseFormat
  vocab := cfg.vocab
  vocabType := cfg.vocabType.toInt

/-- Fills the config of a fresh `RequestContent`, `genCfg`. -/
def makeInputCfgAsFromProto (genCfg : GenerateConfig F) (proto : GenerateConfigMessage F) :
    GenerateConfig F :=
  { genCfg with
    numBeams := proto.numBeams
    numReturnSequences := proto.numReturnSequences
    temperature := proto.temperature
    doSample := proto.doSample
    earlyStopping := proto.earlyStopping
    repetitionPenalty := proto.repetitionPenalty
    lengthPenalty := proto.lengthPenalty
    minLength := proto.minLength
    maxLength := proto.maxLength
    noRepeatNgramSize := proto.noRepeatNgramSize
    eosTokenId := proto.eosTokenId
    userRequestId := proto.uuid
    presencePenalty := proto.presencePenalty
    suppressRepetitionInGeneration := proto.suppressRepetitionInGeneration
    inputLen := proto.inputLen
    topK := proto.topK
    seed := proto.seed.toUInt64
    topP := proto.topP
    loraName := proto.loraName
    responseFormat := genCfg.responseFormat ++ proto.responseFormat
    vocab := genCfg.vocab ++ proto.vocab
    vocabType := VocabType.ofInt proto.vocabType
    badWordsIds := proto.badWordsIds
    stopWordsIds := genCfg.stopWordsIds ++ proto.stopWordsIds }

/-- The config as the service's engine gets it. -/
def sendGenerateConfig [Zero F] [One F] (cfg : GenerateConfig F) : GenerateConfig F :=
  makeInputCfgAsFromProto GenerateConfig.default (makeGenCfgProtoFromAs cfg)

/-- A config arrives as it was exactly if the fields without a place in the
message have their defaults. -/
theorem sendGenerateConfig_iff [Zero F] [One F] (cfg : GenerateConfig F) :
    sendGenerateConfig cfg = cfg ↔
      cfg.frequencyPenalty = 0 ∧ cfg.logprobs = false ∧ cfg.topLogprobs = 0 ∧
        cfg.mmInfo = none ∧ cfg.uuid = "Default-UUID(deprecated)" := by
  obtain ⟨⟩ := cfg
  simp only [sendGenerateConfig, makeInputCfgAsFromProto, makeGenCfgProtoFromAs,
    GenerateConfig.default, List.nil_append, VocabType.ofInt_toInt, UInt64.toUInt64_toInt64,
    GenerateConfig.mk.injEq, true_and, and_true]
  constructor
  · rintro ⟨h₁, h₂, h₃, h₄, h₅⟩
    exact ⟨h₁.symm, h₂.symm, h₃.symm, h₄.symm, h₅.symm⟩
  · rintro ⟨h₁, h₂, h₃, h₄, h₅⟩
    exact ⟨h₁.symm, h₂.symm, h₃.symm, h₄.symm, h₅.symm⟩

structure AsModelConfig where
  modelName : String
  modelPath : String
  weightsPath : String
  computeUnit : String
  matmulPrecision : String
  numThreads : Int
  isLoraCfg : Bool
  swapThreshold : Int
  engineMaxLength : Int
  engineMaxBatch : Int
  engineMaxPrefillLength : Int
  cacheSpanSize : Int
  cacheSpanNumInit : Int
  cacheSpanNumGrow : Int
  enablePrefixCache : Bool
  prefixCacheTtl : Int
  cacheMode : AsCacheMode
  prefillMode : AsMHAPrefill
  evictionStrategy : AsEvictionStrategy
  schedulingStrategy : AsSchedulingStrategy
  textGraph : Bool
  enableSparsityMatmul : Bool
  loraNames : List String
  loraMaxRank : Int
  loraMaxNum : Int
deriving DecidableEq

/-- The object inside a fresh `AsModelConfigBuilder`. -/
def AsModelConfig.default : AsModelConfig where
  modelName := ""
  modelPath := ""
  weightsPath := ""
  computeUnit := "CUDA:0"
  matmulPrecision := "highest"
  numThreads := 0
  isLoraCfg := false
  swapThreshold := -1
  engineMaxLength := 2048
  engineMaxBatch := 32
  engineMaxPrefillLength := 0
  cacheSpanSize := 128
  cacheSpanNumInit := 0
  cacheSpanNumGrow := 0
  enablePrefixCache := true
  prefixCacheTtl := 300
  cacheMode := .cacheDefault
  prefillMode := .prefillDefault
  evictionStrategy := .maxLength
  schedulingStrategy := .contextPriority
  textGraph := false
  enableSparsityMatmul := false
  loraNames := []
  loraMaxRank := 64
  loraMaxNum := 5

structure ModelStructConfig where
  modelName : String
  modelPath : String
  weightsPath : String
  computeUnit : String
  matmulPrecision : String
  isLoraCfg : Bool
  swapThreshold : Int
  engineMaxLength : Int
  engineMaxBatch : Int
  loraNames : List String
  cacheSpanSize : Int
  cacheSpanNumInit : Int
  cacheSpanNumGrow : Int
  cacheMode : Int
  enablePrefixCache : Bool
  prefixCacheTtl : Int
  prefillMode : Int
  textGraph : Bool
  numThreads : Int

/-- A message nobody has written to. -/
def ModelStructConfig.empty : ModelStructConfig where
  modelName := ""
  modelPath := ""
  weightsPath := ""
  computeUnit := ""
  matmulPrecision := ""
  isLoraCfg := false
  swapThreshold := 0
  engineMaxLength := 0
  engineMaxBatch := 0
  loraNames := []
  cacheSpanSize := 0
  cacheSpanNumInit := 0
  cacheSpanNumGrow := 0
  cacheMode := 0
  enablePrefixCache := false
  prefixCacheTtl := 0
  prefillMode := 0
  textGraph := false
  numThreads := 0

/-- The names are added to `auto lora_names = proto.lora_names()`, a copy of the
message's list that is dropped at the end. -/
def makeModelStructConfigProtoFromAs (proto : ModelStructConfig) (config : AsModelConfig) :
    ModelStructConfig :=
  { proto with
    modelName := config.modelName
    modelPath := config.modelPath
    weightsPath := config.weightsPath
    computeUnit := config.computeUnit
    matmulPrecision := config.matmulPrecision
    isLoraCfg := config.isLoraCfg
    swapThreshold := config.swapThreshold
    engineMaxLength := config.engineMaxLength
    engineMaxBatch := config.engineMaxBatch
    cacheSpanSize := config.cacheSpanSize
    cacheSpanNumInit := config.cacheSpanNumInit
    cacheSpanNumGrow := config.cacheSpanNumGrow
    enablePrefixCache := config.enablePrefixCache
    prefixCacheTtl := config.prefixCacheTtl
    cacheMode := config.cacheMode.toInt
    prefillMode := config.prefillMode.toInt
    textGraph := config.textGraph
    numThreads := config.numThreads }

def makeModelStructConfigAsFromProto (proto : ModelStructConfig) : AsModelConfig :=
  { AsModelConfig.default with
    modelName := proto.modelName
    modelPath := proto.modelPath
    weightsPath := proto.weightsPath
    computeUnit := proto.computeUnit
    engineMaxLength := proto.engineMaxLength
    engineMaxBatch := proto.engineMaxBatch
    swapThreshold := proto.swapThreshold
    textGraph := proto.textGraph
    numThreads := proto.numThreads
    matmulPrecision := proto.matmulPrecision
    loraNames := proto.loraNames
    cacheSpanSize := proto.cacheSpanSize
    cacheSpanNumInit := proto.cacheSpanNumInit
    cacheSpanNumGrow := proto.cacheSpanNumGrow
    enablePrefixCache := proto.enablePrefixCache
    prefixCacheTtl := proto.prefixCacheTtl
    cacheMode := AsCacheMode.ofInt proto.cacheMode
    prefillMode := AsMHAPrefill.ofInt proto.prefillMode }

/-- The config as the service builds the model from it. -/
def sendModelConfig (config : AsModelConfig) : AsModelConfig :=
  makeModelStructConfigAsFromProto
    (makeModelStructConfigProtoFromAs ModelStructConfig.empty config)

/-- A model config arrives as it was exactly if the fields that are not sent,
not read or lost on the way have their defaults. -/
theorem sendModelConfig_iff (config : AsModelConfig) :
    sendModelConfig config = config ↔
      config.isLoraCfg = false ∧ config.engineMaxPrefillLength = 0 ∧
        config.evictionStrategy = .maxLength ∧ config.schedulingStrategy = .contextPriority ∧
        config.enableSparsityMatmul = false ∧ config.loraNames = [] ∧
        config.loraMaxRank = 64 ∧ config.loraMaxNum = 5 := by
  obtain ⟨⟩ := config
  simp only [sendModelConfig, makeModelStructConfigAsFromProto, makeModelStructConfigProtoFromAs,
    AsModelConfig.default, ModelStructConfig.empty, AsCacheMode.ofInt_toInt,
    AsMHAPrefill.ofInt_toInt, AsModelConfig.mk.injEq, true_and]
  constructor
  · rintro ⟨h₁, h₂, h₃, h₄, h₅, h₆, h₇, h₈⟩
    exact ⟨h₁.symm, h₂.symm, h₃.symm, h₄.symm, h₅.symm, h₆.symm, h₇.symm, h₈.symm⟩
  · rintro ⟨h₁, h₂, h₃, h₄, h₅, h₆, h₇, h₈⟩
    exact ⟨h₁.symm, h₂.symm, h₃.symm, h₄.symm, h₅.symm, h₆.symm, h₇.symm, h₈.symm⟩

structure AsEngineStat (F : Type) where
  modelName : String
  totalSpan : Int
  usedSpan : Int
  freeSpan : Int
  totalToken : Int
  freeToken : Int
  spanSize : Int
  penddingRequest : Int
  runningRequest : Int
  totalDeviceMemoryPoolSize : Int
  usedDeviceMemoryPoolSize : Int
  totalGeneratedToken : Int
  totalPrefillToken : Int
  generateTokenPersec : F
  processTokenPersec : F
  tokenUsagePercentage : F
  prefixCacheHitToken : Int
  prefixCacheMissToken : Int
  prefixCacheHitRate : F
  prefixCacheMissRate : F
deriving DecidableEq

def AsEngineStat.default [Zero F] : AsEngineStat F where
  modelName := ""
  totalSpan := 0
  usedSpan := 0
  freeSpan := 0
  totalToken := 0
  freeToken := 0
  spanSize := 0
  penddingRequest := 0
  runningRequest := 0
  totalDeviceMemoryPoolSize := 0
  usedDeviceMemoryPoolSize := 0
  totalGeneratedToken := 0
  totalPrefillToken := 0
  generateTokenPersec := 0
  processTokenPersec := 0
  tokenUsagePercentage := 0
  prefixCacheHitToken := 0
  prefixCacheMissToken := 0
  prefixCacheHitRate := 0
  prefixCacheMissRate := 0

structure AsEngineStatMessage (F : Type) where
  modelName : String
  totalSpan : Int
  usedSpan : Int
  freeSpan : Int
  freeToken : Int
  spanSize : Int
  penddingRequest : Int
  runningRequest : Int
  totalDeviceMemoryPoolSize : Int
  usedDeviceMemoryPoolSize : Int
  totalGeneratedToken : Int
  totalPrefillToken : Int
  generateTokenPersec : F
  processTokenPersec : F
  prefixCacheHitToken : Int
  prefixCacheMissToken : Int
  prefixCacheHitRate : F
  prefixCacheMissRate : F

/-- The four prefix cache fields of the message are left at zero. -/
def makeAsEngineStatProtoFromAs [Zero F] (stat : AsEngineStat F) : AsEngineStatMessage F where
  modelName := stat.modelName
  totalSpan := stat.totalSpan
  usedSpan := stat.usedSpan
  freeSpan := stat.freeSpan
  freeToken := stat.freeToken
  spanSize := stat.spanSize
  penddingRequest := stat.penddingRequest
  runningRequest := stat.runningRequest
  totalDeviceMemoryPoolSize := stat.totalDeviceMemoryPoolSize
  usedDeviceMemoryPoolSize := stat.usedDeviceMemoryPoolSize
  totalGeneratedToken := stat.totalGeneratedToken
  totalPrefillToken := stat.totalPrefillToken
  generateTokenPersec := stat.generateTokenPersec
  processTokenPersec := stat.processTokenPersec
  prefixCacheHitToken := 0
  prefixCacheMissToken := 0
  prefixCacheHitRate := 0
  prefixCacheMissRate := 0

def makeAsEngineStatAsFromProto (stat : AsEngineStat F) (proto : AsEngineStatMessage F) :
    AsEngineStat F :=
  { stat with
    modelName := proto.modelName
    totalSpan := proto.totalSpan
    usedSpan := proto.usedSpan
    freeSpan := proto.freeSpan
    freeToken := proto.freeToken
    spanSize := proto.spanSize
    penddingRequest := proto.penddingRequest
    runningRequest := proto.runningRequest
    totalDeviceMemoryPoolSize := proto.totalDeviceMemoryPoolSize
    usedDeviceMemoryPoolSize := proto.usedDeviceMemoryPoolSize
    totalGeneratedToken := proto.totalGeneratedToken
    totalPrefillToken := proto.totalPrefillToken
    generateTokenPersec := proto.generateTokenPersec
    processTokenPersec := proto.processTokenPersec
    prefixCacheHitToken := proto.prefixCacheHitToken
    prefixCacheMissToken := proto.prefixCacheMissToken
    prefixCacheHitRate := proto.prefixCacheHitRate
    prefixCacheMissRate := proto.prefixCacheMissRate }

/-- The statistics as the client reads them. -/
def sendEngineStat [Zero F] (stat : AsEngineStat F) : AsEngineStat F :=
  makeAsEngineStatAsFromProto AsEngineStat.default (makeAsEngineStatProtoFromAs stat)

/-- Statistics arrive as they were exactly if the fields the sender leaves out
are zero. -/
theorem sendEngineStat_iff [Zero F] (stat : AsEngineStat F) :
    sendEngineStat stat = stat ↔
      stat.totalToken = 0 ∧ stat.tokenUsagePercentage = 0 ∧ stat.prefixCacheHitToken = 0 ∧
        stat.prefixCacheMissToken = 0 ∧ stat.prefixCacheHitRate = 0 ∧
        stat.prefixCacheMissRate = 0 := by
  obtain ⟨⟩ := stat
  simp only [sendEngineStat, makeAsEngineStatAsFromProto, makeAsEngineStatProtoFromAs,
    AsEngineStat.default, AsEngineStat.mk.injEq, true_and]
  constructor
  · rintro ⟨h₁, h₂, h₃, h₄, h₅, h₆⟩
    exact ⟨h₁.symm, h₂.symm, h₃.symm, h₄.symm, h₅.symm, h₆.symm⟩
  · rintro ⟨h₁, h₂, h₃, h₄, h₅, h₆⟩
    exact ⟨h₁.symm, h₂.symm, h₃.symm, h₄.symm, h₅.symm, h₆.symm⟩

end DashInfer.Service
