import DashInfer.Guard.Md5
import DashInfer.WeightFile.Header
import Mathlib

/-!
`AsParamGuard` and the check of a weight file against the build metadata of its
model. What the guard only logs is left out.
-/

namespace DashInfer.Guard

open Lib WeightFile

inductive WeightCheckLevel where
  | dismiss
  | normal
  | restrict
deriving DecidableEq, Repr

/-- The level of the environment: `HIE_PARAM_CHECK_LEVEL`, or the variable it
replaces. -/
def currCheckLevel (env deprecated : Option (List UInt8)) : WeightCheckLevel :=
  match (env.or deprecated).map atoi with
  | some 0 => .dismiss
  | some 2 => .restrict
  | _ => .normal

structure BuildVersion where
  major : Int
  minor : Int
  patch : Int
  gitCommit : List UInt8
deriving DecidableEq, Repr

structure WeightHash where
  hashLength : List Int
  hash : List (List UInt8)
deriving DecidableEq, Repr

abbrev BuildConfig := List (List UInt8 × List UInt8)

structure BuildMeta where
  version : Option BuildVersion
  weightHash : Option WeightHash
  torchBuildConfig : BuildConfig
deriving DecidableEq, Repr

/-- What the engine was built with. -/
structure EngineVersion where
  major : Int
  minor : Int
  patch : Int
  gitHash : List UInt8
deriving DecidableEq, Repr

structure AsParamGuard where
  weightHash : List (List UInt8)
  torchBuildConfig : BuildConfig
deriving DecidableEq, Repr

def hexIndex (d : UInt8) : UInt8 := if d < 10 then 48 + d else 87 + d

def md5Byte2Str (md5 : List UInt8) : List UInt8 :=
  md5.flatMap fun b : UInt8 => [hexIndex ((b >>> 4) &&& 0xf), hexIndex (b &&& 0xf)]

/-- `std::tolower` in the C locale. -/
def toLower (c : UInt8) : UInt8 := if 65 ≤ c && c ≤ 90 then c + 32 else c

namespace AsParamGuard

def appendWeightMd5 (level : WeightCheckLevel) (turns : Nat) (weight : List UInt8)
    (guard : AsParamGuard) : Option AsParamGuard :=
  match level with
  | .dismiss => some guard
  | _ =>
      (Md5Impl.hash turns weight).map fun md5 =>
        { guard with weightHash := guard.weightHash ++ [md5Byte2Str md5] }

def checkVersionMajor (engine : EngineVersion) (graphMeta : BuildMeta) : Bool :=
  match graphMeta.version with
  | none => false
  | some version => version.major = engine.major

def checkVersionMinor (engine : EngineVersion) (graphMeta : BuildMeta) : Bool :=
  match graphMeta.version with
  | none => false
  | some version => version.minor = engine.minor

def checkVersionPatch (engine : EngineVersion) (graphMeta : BuildMeta) : Bool :=
  match graphMeta.version with
  | none => false
  | some version => version.patch = engine.patch

def checkVersionGitCommit (engine : EngineVersion) (graphMeta : BuildMeta) : Bool :=
  match graphMeta.version with
  | none => false
  | some version =>
      if version.gitCommit.length = 0 then false
      else
        let minLength := min version.gitCommit.length engine.gitHash.length
        version.gitCommit.take minLength = engine.gitHash.take minLength

def checkWeightHash (graphMeta : BuildMeta) (guard : AsParamGuard) : Bool :=
  if guard.weightHash.length = 0 then true
  else
    match graphMeta.weightHash with
    | none => false
    | some records =>
        if records.hash.length ≠ records.hashLength.length ∨
            records.hash.length ≠ guard.weightHash.length then
          false
        else
          (records.hash.zip guard.weightHash).all fun record =>
            record.1.map toLower = record.2

def checkTorchBuildConfig (graphMeta : BuildMeta) (key : List UInt8) (guard : AsParamGuard) : Bool :=
  match guard.torchBuildConfig.lookup key with
  | none => true
  | some config =>
      match graphMeta.torchBuildConfig.lookup key with
      | none => false
      | some param => param = config

def checkNormal (engine : EngineVersion) (graphMeta : BuildMeta) (guard : AsParamGuard) : Bool :=
  checkVersionMajor engine graphMeta && checkVersionMinor engine graphMeta &&
    guard.checkWeightHash graphMeta &&
    guard.checkTorchBuildConfig graphMeta (text "multigpu_mode")

def checkRestrict (engine : EngineVersion) (graphMeta : BuildMeta) (guard : AsParamGuard) : Bool :=
  checkVersionMajor engine graphMeta && checkVersionMinor engine graphMeta &&
    checkVersionPatch engine graphMeta && checkVersionGitCommit engine graphMeta &&
    guard.checkWeightHash graphMeta &&
    guard.checkTorchBuildConfig graphMeta (text "model_name") &&
    guard.checkTorchBuildConfig graphMeta (text "multigpu_mode")

/-- `AsParamGuard::operator()`: is the status a success? -/
def accepts (level : WeightCheckLevel) (engine : EngineVersion) (graphMeta : BuildMeta)
    (guard : AsParamGuard) : Bool :=
  match level with
  | .dismiss => true
  | .restrict => guard.checkRestrict engine graphMeta
  | .normal => guard.checkNormal engine graphMeta

end AsParamGuard

/-- All that `CheckModelConsistency` goes by: the environment, the model of the
handler (without one its id is unknown), its weight file, and how `mmap` and
`munmap` turn out. -/
structure ModelCheck where
  levelEnv : Option (List UInt8)
  deprecatedEnv : Option (List UInt8)
  engine : EngineVersion
  proto : Option (Option BuildMeta)
  modelName : List UInt8
  file : List UInt8
  mmapFails : Bool
  munmapFails : Bool

namespace ModelCheck

def level (c : ModelCheck) : WeightCheckLevel := currCheckLevel c.levelEnv c.deprecatedEnv

/-- `append_weight_md5` for a file of the recorded length. A negative length
becomes a size far behind the mapping. -/
def hashed (c : ModelCheck) (turns : Nat) (hashLength : Int) :
    Option (Except Failure AsParamGuard) :=
  if hashLength ≤ c.file.length then
    if hashLength < 0 ∧ c.level ≠ .dismiss then some (.error .undefinedBehaviour)
    else
      ((⟨[], []⟩ : AsParamGuard).appendWeightMd5 c.level turns
        (c.file.take hashLength.toNat)).map .ok
  else some (.ok ⟨[], []⟩)

/-- What the guard finds, once the file is unmapped again. -/
def conclude (c : ModelCheck) (buildMeta : BuildMeta) (guard : AsParamGuard) :
    Except Failure Unit :=
  let guard := { guard with torchBuildConfig := [(text "model_name", c.modelName)] }
  let checkStatus := guard.accepts c.level c.engine buildMeta
  if c.munmapFails then
    if checkStatus then .ok () else .error (.exception "model check failed.")
  else .ok ()

/-- `WeightManagerImpl::CheckModelConsistency`; `none` while the hash goes on. -/
def checkModelConsistency (c : ModelCheck) (turns : Nat) : Option (Except Failure Unit) :=
  match c.proto with
  | none => some (.error (.exception "unknown proto"))
  | some none => some (.ok ())
  | some (some buildMeta) =>
      -- a file without bytes cannot be mapped
      if c.mmapFails = true ∨ c.file = [] then some (.error (.exception "mmap failed"))
      else
        match buildMeta.weightHash with
        | none => some (.ok ())
        | some weightHash =>
            match weightHash.hashLength with
            | [] => some (.error .undefinedBehaviour)
            | hashLength :: _ => (c.hashed turns hashLength).map (· >>= c.conclude buildMeta)

end ModelCheck

end DashInfer.Guard

/-!
When the check of a model stops a weight file that does not match. The error is
thrown only where `munmap` fails, and a file shorter than the recorded length is
not hashed at all.
-/

namespace DashInfer.Guard

open Lib WeightFile

namespace ModelCheck

variable (c : ModelCheck) (buildMeta : BuildMeta) (weightHash : WeightHash)

def VersionMatches : Prop :=
  ∃ version, buildMeta.version = some version ∧ version.major = c.engine.major ∧
    version.minor = c.engine.minor ∧
      (c.level = .restrict → version.patch = c.engine.patch ∧ version.gitCommit ≠ [] ∧
        (version.gitCommit <+: c.engine.gitHash ∨ c.engine.gitHash <+: version.gitCommit))

/-- One hash is recorded, and the file has the bytes it is of. -/
def HashMatches : Prop :=
  ∃ length recorded turns md5, weightHash.hashLength = [length] ∧ weightHash.hash = [recorded] ∧
    0 ≤ length ∧ length ≤ c.file.length ∧
    Md5Impl.hash turns (c.file.take length.toNat) = some md5 ∧
    recorded.map toLower = md5Byte2Str md5

def ConfigMatches : Prop :=
  c.level = .restrict → buildMeta.torchBuildConfig.lookup (text "model_name") = some c.modelName

/-- Nothing of what the level asks for is different. -/
def Accepted : Prop :=
  c.level = .dismiss ∨
    c.VersionMatches buildMeta ∧ c.HashMatches weightHash ∧ c.ConfigMatches buildMeta

def Returns : Prop := ∃ turns, c.checkModelConsistency turns = some (.ok ())

def Throws : Prop := ∃ turns what, c.checkModelConsistency turns = some (.error (.exception what))

def Records : Prop := c.proto = some (some buildMeta) ∧ buildMeta.weightHash = some weightHash

/-- A recorded hash that is not accepted is an error. -/
structure FailsClosed : Prop where
  returns : c.Returns → ∀ buildMeta weightHash, c.Records buildMeta weightHash →
    c.Accepted buildMeta weightHash
  throws : ∀ buildMeta weightHash, c.Records buildMeta weightHash →
    ¬c.Accepted buildMeta weightHash → c.Throws

/-- A mismatch that the guard sees: it is none of the length of the file, and
the bytes to hash are fewer than 4 GiB. -/
def Seen : Prop :=
  c.level ≠ .dismiss ∧ ∃ length rest, weightHash.hashLength = length :: rest ∧ 0 ≤ length ∧
    (length ≤ c.file.length → length < 2 ^ 32) ∧
    (¬c.VersionMatches buildMeta ∨ ¬c.ConfigMatches buildMeta ∨
      length ≤ c.file.length ∧ ¬c.HashMatches weightHash)

def Unmapped : Prop := c.mmapFails = true ∨ c.file = []

/-- The condition on a model with a recorded hash. -/
def Guarded : Prop :=
  ∀ buildMeta weightHash, c.Records buildMeta weightHash →
    c.Accepted buildMeta weightHash ∨ c.Unmapped ∨
      c.munmapFails = true ∧ c.Seen buildMeta weightHash

end ModelCheck

section Guard

variable {engine : EngineVersion} {graphMeta : BuildMeta} {guard : AsParamGuard}

theorem take_min_eq_iff {α : Type} {a b : List α} :
    a.take (min a.length b.length) = b.take (min a.length b.length) ↔ a <+: b ∨ b <+: a := by
  rcases le_total a.length b.length with hle | hle
  · rw [min_eq_left hle, List.take_length, ← List.prefix_iff_eq_take]
    constructor
    · exact Or.inl
    · rintro (h | h)
      · exact h
      · rw [h.eq_of_length (le_antisymm h.length_le hle)]
  · rw [min_eq_right hle, List.take_length, eq_comm, ← List.prefix_iff_eq_take]
    constructor
    · exact Or.inr
    · rintro (h | h)
      · rw [h.eq_of_length (le_antisymm h.length_le hle)]
      · exact h

theorem checkVersionGitCommit_iff : AsParamGuard.checkVersionGitCommit engine graphMeta = true ↔
    ∃ version, graphMeta.version = some version ∧ version.gitCommit ≠ [] ∧
      (version.gitCommit <+: engine.gitHash ∨ engine.gitHash <+: version.gitCommit) := by
  unfold AsParamGuard.checkVersionGitCommit
  cases graphMeta.version with
  | none => simp
  | some version => simp [take_min_eq_iff]

theorem checkVersionMajor_iff : AsParamGuard.checkVersionMajor engine graphMeta = true ↔
    ∃ version, graphMeta.version = some version ∧ version.major = engine.major := by
  unfold AsParamGuard.checkVersionMajor
  cases graphMeta.version <;> simp

theorem checkVersionMinor_iff : AsParamGuard.checkVersionMinor engine graphMeta = true ↔
    ∃ version, graphMeta.version = some version ∧ version.minor = engine.minor := by
  unfold AsParamGuard.checkVersionMinor
  cases graphMeta.version <;> simp

theorem checkVersionPatch_iff : AsParamGuard.checkVersionPatch engine graphMeta = true ↔
    ∃ version, graphMeta.version = some version ∧ version.patch = engine.patch := by
  unfold AsParamGuard.checkVersionPatch
  cases graphMeta.version <;> simp

theorem text_ne : text "multigpu_mode" ≠ text "model_name" := by
  unfold text
  decide

/-- The key a caller did not set is not compared. -/
theorem checkTorchBuildConfig_multigpu {name : List UInt8}
    (h : guard.torchBuildConfig = [(text "model_name", name)]) :
    guard.checkTorchBuildConfig graphMeta (text "multigpu_mode") = true := by
  have hne : (text "multigpu_mode" == text "model_name") = false := beq_eq_false_iff_ne.mpr text_ne
  unfold AsParamGuard.checkTorchBuildConfig
  rw [h, List.lookup_cons, hne]
  rfl

theorem checkTorchBuildConfig_modelName {name : List UInt8}
    (h : guard.torchBuildConfig = [(text "model_name", name)]) :
    guard.checkTorchBuildConfig graphMeta (text "model_name") = true ↔
      graphMeta.torchBuildConfig.lookup (text "model_name") = some name := by
  unfold AsParamGuard.checkTorchBuildConfig
  rw [h, List.lookup_cons]
  simp only [beq_self_eq_true]
  cases graphMeta.torchBuildConfig.lookup (text "model_name") <;> simp

end Guard

namespace ModelCheck

variable {c : ModelCheck} {buildMeta : BuildMeta} {weightHash : WeightHash} {guard : AsParamGuard}

theorem accepts_iff (h : guard.torchBuildConfig = [(text "model_name", c.modelName)]) :
    guard.accepts c.level c.engine buildMeta = true ↔
      c.level = .dismiss ∨ c.VersionMatches buildMeta ∧
        guard.checkWeightHash buildMeta = true ∧ c.ConfigMatches buildMeta := by
  unfold AsParamGuard.accepts VersionMatches ConfigMatches
  cases hlevel : c.level with
  | dismiss => simp
  | normal =>
      simp only [AsParamGuard.checkNormal, Bool.and_eq_true, checkVersionMajor_iff,
        checkVersionMinor_iff, checkTorchBuildConfig_multigpu h, reduceCtorEq, false_or,
        false_implies, and_true]
      cases buildMeta.version <;> simp
  | restrict =>
      simp only [AsParamGuard.checkRestrict, Bool.and_eq_true, checkVersionMajor_iff,
        checkVersionMinor_iff, checkVersionPatch_iff, checkVersionGitCommit_iff,
        checkTorchBuildConfig_multigpu h, checkTorchBuildConfig_modelName h, reduceCtorEq,
        false_or, forall_const, and_true]
      cases buildMeta.version with
      | none => simp
      | some version =>
          simp
          tauto

/-- The hash of the file against the records. -/
theorem checkWeightHash_iff (hmeta : buildMeta.weightHash = some weightHash) {local' : List UInt8}
    (h : guard.weightHash = [local']) :
    guard.checkWeightHash buildMeta = true ↔ ∃ length recorded,
      weightHash.hashLength = [length] ∧ weightHash.hash = [recorded] ∧
        recorded.map toLower = local' := by
  unfold AsParamGuard.checkWeightHash
  rw [h, hmeta]
  obtain ⟨lengths, hashes⟩ := weightHash
  rcases lengths with _ | ⟨length, _ | ⟨_, _⟩⟩ <;> rcases hashes with _ | ⟨recorded, _ | ⟨_, _⟩⟩ <;>
    simp

theorem checkWeightHash_nil (h : guard.weightHash = []) : guard.checkWeightHash buildMeta = true := by
  unfold AsParamGuard.checkWeightHash
  rw [h]
  rfl

/-- What comes of the bytes to hash. -/
theorem hashed_cases {turns : Nat} {length : Int} (h : c.hashed turns length = some (.ok guard)) :
    guard.torchBuildConfig = [] ∧
      (guard.weightHash = [] ∧ (c.level = .dismiss ∨ (c.file.length : Int) < length) ∨
        c.level ≠ .dismiss ∧ 0 ≤ length ∧ length ≤ c.file.length ∧ ∃ md5,
          Md5Impl.hash turns (c.file.take length.toNat) = some md5 ∧
            guard.weightHash = [md5Byte2Str md5]) := by
  unfold hashed AsParamGuard.appendWeightMd5 at h
  split at h
  case isTrue hle =>
    split at h
    case isTrue => cases h
    case isFalse hsign =>
      cases hlevel : c.level with
      | dismiss =>
          rw [hlevel] at h
          cases h
          exact ⟨rfl, .inl ⟨rfl, .inl rfl⟩⟩
      | normal | restrict =>
          rw [hlevel] at h hsign
          obtain ⟨g, hg, hok⟩ := Option.map_eq_some_iff.mp h
          obtain ⟨md5, hmd5, rfl⟩ := Option.map_eq_some_iff.mp hg
          cases hok
          refine ⟨rfl, .inr ⟨?_, ?_, hle, md5, hmd5, rfl⟩⟩
          · intro hdismiss
            cases hdismiss
          · by_contra hneg
            exact hsign ⟨not_le.mp hneg, by intro hdismiss; cases hdismiss⟩
  case isFalse hlt =>
    cases h
    exact ⟨rfl, .inl ⟨rfl, .inr (not_le.mp hlt)⟩⟩

theorem appendWeightMd5_mono {level : WeightCheckLevel} {turns turns' : Nat} (hle : turns ≤ turns')
    {weight : List UInt8} {guard' : AsParamGuard}
    (h : guard.appendWeightMd5 level turns weight = some guard') :
    guard.appendWeightMd5 level turns' weight = some guard' := by
  cases level with
  | dismiss => exact h
  | normal | restrict =>
      obtain ⟨md5, hmd5, rfl⟩ := Option.map_eq_some_iff.mp h
      exact Option.map_eq_some_iff.mpr ⟨md5, Md5Impl.hash_mono hle hmd5, rfl⟩

theorem hashed_mono {turns turns' : Nat} (hle : turns ≤ turns') {length : Int}
    {r : Except Failure AsParamGuard} (h : c.hashed turns length = some r) :
    c.hashed turns' length = some r := by
  unfold hashed at h ⊢
  split at h
  case isTrue hlong =>
    rw [if_pos hlong]
    split at h
    case isTrue hsign =>
      rw [if_pos hsign]
      exact h
    case isFalse hsign =>
      rw [if_neg hsign]
      obtain ⟨g, hg, rfl⟩ := Option.map_eq_some_iff.mp h
      exact Option.map_eq_some_iff.mpr ⟨g, appendWeightMd5_mono hle hg, rfl⟩
  case isFalse hshort =>
    rw [if_neg hshort]
    exact h

/-- A hash of fewer than 4 GiB is computed. -/
theorem hashed_ok {length : Int} (hsign : 0 ≤ length)
    (hbound : length ≤ c.file.length → length < 2 ^ 32) :
    ∃ turns guard, c.hashed turns length = some (.ok guard) := by
  by_cases hle : length ≤ c.file.length
  · have htake : (c.file.take length.toNat).length < 2 ^ 32 := by
      have hlt := hbound hle
      rw [List.length_take]
      omega
    have hturns : (c.file.take length.toNat).length < 64 * (2 ^ 32) := by omega
    obtain ⟨md5, hmd5⟩ := Option.isSome_iff_exists.mp (Md5Impl.hash_isSome htake hturns)
    have hsome : ∃ guard, (⟨[], []⟩ : AsParamGuard).appendWeightMd5 c.level (2 ^ 32)
        (c.file.take length.toNat) = some guard := by
      unfold AsParamGuard.appendWeightMd5
      cases c.level with
      | dismiss => exact ⟨_, rfl⟩
      | normal | restrict =>
          rw [hmd5]
          exact ⟨_, rfl⟩
    obtain ⟨guard, hguard⟩ := hsome
    refine ⟨2 ^ 32, guard, ?_⟩
    unfold hashed
    rw [if_pos hle, if_neg fun h => absurd h.1 (not_lt.mpr hsign), hguard]
    rfl
  · exact ⟨0, ⟨[], []⟩, if_neg hle⟩

theorem check_unmapped (hrecords : c.Records buildMeta weightHash) (h : c.Unmapped) (turns : Nat) :
    c.checkModelConsistency turns = some (.error (.exception "mmap failed")) := by
  unfold checkModelConsistency
  rw [hrecords.1]
  exact if_pos h

theorem check_recorded (hrecords : c.Records buildMeta weightHash) (h : ¬c.Unmapped) {length : Int}
    {rest : List Int} (hlength : weightHash.hashLength = length :: rest) (turns : Nat) :
    c.checkModelConsistency turns = (c.hashed turns length).map (· >>= c.conclude buildMeta) := by
  unfold Unmapped at h
  unfold checkModelConsistency
  rw [hrecords.1]
  dsimp only
  rw [if_neg h, hrecords.2]
  dsimp only
  rw [hlength]

theorem check_empty (hrecords : c.Records buildMeta weightHash) (h : ¬c.Unmapped)
    (hlength : weightHash.hashLength = []) (turns : Nat) :
    c.checkModelConsistency turns = some (.error .undefinedBehaviour) := by
  unfold Unmapped at h
  unfold checkModelConsistency
  rw [hrecords.1]
  dsimp only
  rw [if_neg h, hrecords.2]
  dsimp only
  rw [hlength]

theorem conclude_throws {what : String} :
    c.conclude buildMeta guard = .error (.exception what) →
      c.munmapFails = true ∧ ({ guard with
        torchBuildConfig := [(text "model_name", c.modelName)] } : AsParamGuard).accepts c.level
          c.engine buildMeta ≠ true := by
  unfold conclude
  dsimp only
  split
  case isTrue hfails =>
    split
    case isTrue => intro h; cases h
    case isFalse haccepts => exact fun _ => ⟨hfails, haccepts⟩
  case isFalse => intro h; cases h

theorem hashed_error {turns : Nat} {length : Int} {e : Failure}
    (h : c.hashed turns length = some (.error e)) : e = .undefinedBehaviour := by
  unfold hashed at h
  split at h
  case isTrue =>
    split at h
    case isTrue =>
      cases h
      rfl
    case isFalse =>
      obtain ⟨guard, -, hguard⟩ := Option.map_eq_some_iff.mp h
      cases hguard
  case isFalse => cases h

/-- A hash that is computed is of fewer than 4 GiB. -/
theorem bounds_of_hashed {turns : Nat} {length : Int} (hlevel : c.level ≠ .dismiss)
    (h : c.hashed turns length = some (.ok guard)) :
    0 ≤ length ∧ (length ≤ c.file.length → length < 2 ^ 32) := by
  obtain ⟨-, ⟨-, hdismiss | hshort⟩ | ⟨-, hsign, hle, md5, hmd5, -⟩⟩ := hashed_cases h
  · exact absurd hdismiss hlevel
  · constructor
    · omega
    · omega
  · refine ⟨hsign, fun _ => ?_⟩
    by_contra hlong
    have htake : 2 ^ 32 ≤ (c.file.take length.toNat).length := by
      rw [List.length_take]
      omega
    rw [Md5Impl.hash_eq_none htake] at hmd5
    cases hmd5

theorem hash_unique {msg md5 md5' : List UInt8} {turns turns' : Nat}
    (h : Md5Impl.hash turns msg = some md5) (h' : Md5Impl.hash turns' msg = some md5') :
    md5 = md5' := by
  have hmax := Md5Impl.hash_mono (le_max_left turns turns') h
  have hmax' := Md5Impl.hash_mono (le_max_right turns turns') h'
  exact Option.some.inj (hmax.symm.trans hmax')

/-- With the hash computed, the guard sees whatever is not accepted, but for the
length of the file. -/
theorem rejects_iff (hrecords : c.Records buildMeta weightHash) {turns : Nat} {length : Int}
    {rest : List Int} (hlength : weightHash.hashLength = length :: rest) 
    (h : c.hashed turns length = some (.ok guard)) :
    ({ guard with torchBuildConfig := [(text "model_name", c.modelName)] } : AsParamGuard).accepts
        c.level c.engine buildMeta ≠ true ↔
      c.level ≠ .dismiss ∧ (¬c.VersionMatches buildMeta ∨ ¬c.ConfigMatches buildMeta ∨
        length ≤ c.file.length ∧ ¬c.HashMatches weightHash) := by
  obtain ⟨-, hcases⟩ := hashed_cases h
  rw [Ne, accepts_iff rfl, not_or, not_and_or, not_and_or]
  apply and_congr_right
  intro hlevel
  apply or_congr_right
  rw [or_comm]
  apply or_congr_right
  rcases hcases with ⟨hnone, hdismiss | hshort⟩ | ⟨-, hsign, hle, md5, hmd5, hsome⟩
  · exact absurd hdismiss hlevel
  · have haccepts : ({ guard with
        torchBuildConfig := [(text "model_name", c.modelName)] } : AsParamGuard).checkWeightHash
          buildMeta = true := checkWeightHash_nil hnone
    exact ⟨fun hreject => absurd haccepts hreject, fun hlong => absurd hlong.1 (not_le.mpr hshort)⟩
  · have hlocal : ({ guard with
        torchBuildConfig := [(text "model_name", c.modelName)] } : AsParamGuard).weightHash =
          [md5Byte2Str md5] := hsome
    rw [checkWeightHash_iff hrecords.2 hlocal, and_iff_right hle, not_iff_not]
    constructor
    · rintro ⟨length', recorded, hlength', hhash, hlower⟩
      obtain ⟨rfl, -⟩ := List.cons.inj (hlength.symm.trans hlength')
      exact ⟨length, recorded, turns, md5, hlength', hhash, hsign, hle, hmd5, hlower⟩
    · rintro ⟨length', recorded, turns', md5', hlength', hhash, -, -, hmd5', hlower⟩
      obtain ⟨rfl, -⟩ := List.cons.inj (hlength.symm.trans hlength')
      obtain rfl := hash_unique hmd5 hmd5'
      exact ⟨length, recorded, hlength', hhash, hlower⟩

theorem throws_of_seen (hrecords : c.Records buildMeta weightHash) (hmapped : ¬c.Unmapped)
    (hfails : c.munmapFails = true) (hseen : c.Seen buildMeta weightHash) :
    ∃ turns, c.checkModelConsistency turns =
      some (.error (.exception "model check failed.")) := by
  obtain ⟨hlevel, length, rest, hlength, hsign, hbound, hdiffers⟩ := hseen
  obtain ⟨turns, guard, hguard⟩ := hashed_ok hsign hbound
  have hrejects := (rejects_iff hrecords hlength hguard).mpr ⟨hlevel, hdiffers⟩
  refine ⟨turns, ?_⟩
  rw [check_recorded hrecords hmapped hlength, hguard]
  change some (c.conclude buildMeta guard) = _
  unfold conclude
  dsimp only
  rw [if_pos hfails, if_neg hrejects]

theorem seen_of_throws (hrecords : c.Records buildMeta weightHash) (hmapped : ¬c.Unmapped)
    {turns : Nat} {what : String}
    (h : c.checkModelConsistency turns = some (.error (.exception what))) :
    c.munmapFails = true ∧ c.Seen buildMeta weightHash := by
  cases hlength : weightHash.hashLength with
  | nil =>
      rw [check_empty hrecords hmapped hlength] at h
      cases h
  | cons length rest =>
      rw [check_recorded hrecords hmapped hlength] at h
      obtain ⟨r, hhashed, hr⟩ := Option.map_eq_some_iff.mp h
      cases r with
      | error e =>
          -- the only error of the hash is no exception
          obtain rfl := hashed_error hhashed
          cases hr
      | ok guard =>
          obtain ⟨hfails, hrejects⟩ := conclude_throws hr
          obtain ⟨hlevel, hdiffers⟩ := (rejects_iff hrecords hlength hhashed).mp hrejects
          obtain ⟨hsign, hbound⟩ := bounds_of_hashed hlevel hhashed
          exact ⟨hfails, hlevel, length, rest, hlength, hsign, hbound, hdiffers⟩

/-- A check has one outcome, however many turns it is given. -/
theorem returns_ne_throws (hrecords : c.Records buildMeta weightHash) {turns turns' : Nat}
    {what : String} (h : c.checkModelConsistency turns = some (.ok ())) :
    c.checkModelConsistency turns' ≠ some (.error (.exception what)) := by
  intro h'
  by_cases hmapped : c.Unmapped
  · rw [check_unmapped hrecords hmapped] at h
    cases h
  · cases hlength : weightHash.hashLength with
    | nil =>
        rw [check_empty hrecords hmapped hlength] at h
        cases h
    | cons length rest =>
        rw [check_recorded hrecords hmapped hlength] at h h'
        obtain ⟨r, hr, hok⟩ := Option.map_eq_some_iff.mp h
        obtain ⟨r', hr', herror⟩ := Option.map_eq_some_iff.mp h'
        have hmax := hashed_mono (le_max_left turns turns') hr
        have hmax' := hashed_mono (le_max_right turns turns') hr'
        obtain rfl := Option.some.inj (hmax.symm.trans hmax')
        rw [hok] at herror
        cases herror

end ModelCheck

open ModelCheck in
/-- The check fails closed exactly if, for a model with a recorded hash, nothing
is different, the file cannot be mapped, or unmapping it fails and the guard
sees a difference. -/
theorem failsClosed_iff (c : ModelCheck) : c.FailsClosed ↔ c.Guarded := by
  constructor
  · intro h buildMeta weightHash hrecords
    by_cases haccepted : c.Accepted buildMeta weightHash
    · exact .inl haccepted
    · by_cases hmapped : c.Unmapped
      · exact .inr (.inl hmapped)
      · obtain ⟨turns, what, hthrows⟩ := h.throws buildMeta weightHash hrecords haccepted
        exact .inr (.inr (seen_of_throws hrecords hmapped hthrows))
  · intro h
    have hthrows : ∀ buildMeta weightHash, c.Records buildMeta weightHash →
        ¬c.Accepted buildMeta weightHash → c.Throws := by
      intro buildMeta weightHash hrecords haccepted
      by_cases hmapped : c.Unmapped
      · exact ⟨0, _, check_unmapped hrecords hmapped 0⟩
      · rcases h buildMeta weightHash hrecords with haccepted' | hmapped' | ⟨hfails, hseen⟩
        · exact absurd haccepted' haccepted
        · exact absurd hmapped' hmapped
        · obtain ⟨turns, hthrows⟩ := throws_of_seen hrecords hmapped hfails hseen
          exact ⟨turns, _, hthrows⟩
    refine ⟨?_, hthrows⟩
    rintro ⟨turns, hreturns⟩ buildMeta weightHash hrecords
    by_contra haccepted
    obtain ⟨turns', what, hthrows⟩ := hthrows buildMeta weightHash hrecords haccepted
    exact returns_ne_throws hrecords hreturns hthrows

/-- A model of version 2 for an engine of version 1; unmapping its file
succeeds. -/
def otherMajor : ModelCheck where
  levelEnv := none
  deprecatedEnv := none
  engine := ⟨1, 0, 0, []⟩
  proto := some (some ⟨some ⟨2, 0, 0, []⟩, some ⟨[3], [[]]⟩, []⟩)
  modelName := []
  file := [1, 2, 3]
  mmapFails := false
  munmapFails := false

theorem otherMajor_returns :
    otherMajor.checkModelConsistency 1 = some (.ok ()) ∧ ¬otherMajor.FailsClosed := by
  have hreturns : otherMajor.checkModelConsistency 1 = some (.ok ()) := by decide +kernel
  refine ⟨hreturns, ?_⟩
  intro h
  rcases h.returns ⟨1, hreturns⟩ _ _ ⟨rfl, rfl⟩ with hdismiss | ⟨⟨version, hversion, hmajor, -⟩, -⟩
  · cases hdismiss
  · cases hversion
    cases hmajor

end DashInfer.Guard
