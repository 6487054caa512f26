import Mathlib
import DashInfer.WeightFile.Loader
import DashInfer.Lib.Fallible

/-!
Reading a LoRA file. `LoadWeightForModel` is that of a base model, but every
tensor is first checked by `LoraManager::ValidateWeight`. A file loads exactly
if it is a sequence of tensors that pass and a header the loop stops at.
-/

namespace DashInfer.Lora

open Lib Weight WeightFile

/-- How a model loads a LoRA: as it loads its own weights, with the type it
infers in and the limit on the rank. -/
structure LoraLoad where
  load : LoadConfig
  dtype : DataType
  loraMaxRank : Int

/-- `LoraManager::ValidateWeight`. -/
def LoraLoad.validateWeight (c : LoraLoad) (name : List UInt8) (info : TensorInfo) :
    Except Failure Unit :=
  if info.dtype ≠ c.dtype then .error (.status "ALLSPARK_PARAM_ERROR")
  else if (after? (text ".lora_B") name).isSome then
    match info.shape with
    | [] => .error .undefinedBehaviour
    | rank :: _ =>
        if c.loraMaxRank < rank then .error (.status "ALLSPARK_LORA_RANK_EXCEED_LIMIT_ERROR")
        else .ok ()
  else .ok ()

/-- The loop over the tensors of the file. -/
def LoraLoad.loadLoop (c : LoraLoad) : Nat → List UInt8 → Except Failure LoadResult
  | 0, _ => .error .undefinedBehaviour
  | turns + 1, rest => do
      match ← readHeader rest with
      | none => return ⟨[], rest.drop 6⟩
      | some (name, info, rest) =>
          c.validateWeight name info
          let (t, rest) ← loadTensor c.load name info rest
          let r ← c.loadLoop turns rest
          return { r with processOrder := t :: r.processOrder }

/-- The file, or a null stream where it cannot be opened. -/
def LoraLoad.loadFile (c : LoraLoad) : Option (List UInt8) → Except Failure LoadResult
  | none => .error .undefinedBehaviour
  | some file => c.loadLoop (file.length + 1) file

/-- The tensor has the type the model infers in, and the second factor of a LoRA
no more rows than the limit. -/
def LoraLoad.Valid (c : LoraLoad) (name : List UInt8) (info : TensorInfo) : Prop :=
  info.dtype = c.dtype ∧ ((after? (text ".lora_B") name).isSome →
    ∃ rank dims, info.shape = rank :: dims ∧ rank ≤ c.loraMaxRank)

/-- What is left of a file can be loaded. -/
inductive LoraLoad.Loadable (c : LoraLoad) : List UInt8 → Prop where
  | stop {rest : List UInt8} : readHeader rest = .ok none → Loadable c rest
  | tensor {rest data after : List UInt8} {name : List UInt8} {info : TensorInfo}
      {t : LoadedTensor} : readHeader rest = .ok (some (name, info, data)) → c.Valid name info →
      loadTensor c.load name info data = .ok (t, after) → Loadable c after → Loadable c rest

section Reading

variable {c : LoraLoad} {name rest data after : List UInt8} {info : TensorInfo} {t : LoadedTensor}

theorem validateWeight_eq_ok : c.validateWeight name info = .ok () ↔ c.Valid name info := by
  unfold LoraLoad.validateWeight LoraLoad.Valid
  by_cases htype : info.dtype = c.dtype
  · rw [if_neg (not_not_intro htype)]
    cases hname : (after? (text ".lora_B") name).isSome with
    | false => simp [htype]
    | true =>
        rw [if_pos rfl]
        cases hshape : info.shape with
        | nil => simp
        | cons rank dims =>
            dsimp only
            by_cases hrank : c.loraMaxRank < rank
            · rw [if_pos hrank]
              simp [hrank]
            · rw [if_neg hrank]
              simp [htype, not_lt.mp hrank]
  · rw [if_pos htype]
    simp [htype]

/-- A turn of the loop takes at least the six bytes of a local header. -/
theorem length_of_readHeader (h : readHeader rest = .ok (some (name, info, data))) :
    data.length + 6 ≤ rest.length := by
  unfold readHeader at h
  split at h
  next => cases h
  next hlong =>
    split at h
    next => cases h
    next =>
      dsimp only at h
      split at h
      next => cases h
      next =>
        split at h
        next => cases h
        next line hline =>
          obtain ⟨parsed, -, h⟩ := bind_eq_ok_iff.mp h
          cases h
          simp only [List.length_drop]
          omega

theorem length_of_readVector {n : Int} {taken : List UInt8}
    (h : readVector n rest = .ok (taken, after)) : after.length ≤ rest.length := by
  unfold readVector at h
  split at h
  next => cases h
  next =>
    cases h
    rw [List.length_drop]
    omega

theorem length_of_loadSparse {payload : Payload}
    (h : SparseWeightLoader.loadFromFileStream info rest = .ok (payload, after)) :
    after.length ≤ rest.length := by
  unfold SparseWeightLoader.loadFromFileStream at h
  split at h
  next =>
    split at h
    next =>
      obtain ⟨⟨colOffsets, restA⟩, hcol, h⟩ := bind_eq_ok_iff.mp h
      obtain ⟨⟨rowIndices, restB⟩, hrow, h⟩ := bind_eq_ok_iff.mp h
      obtain ⟨⟨val, restC⟩, hval, h⟩ := bind_eq_ok_iff.mp h
      have hA := length_of_readVector hcol
      have hB := length_of_readVector hrow
      have hC := length_of_readVector hval
      dsimp only at h hA hB hC
      split at h
      next => cases h
      next =>
        cases h
        omega
    next =>
      obtain ⟨⟨rowIndices, restA⟩, hrow, h⟩ := bind_eq_ok_iff.mp h
      obtain ⟨⟨val, restB⟩, hval, h⟩ := bind_eq_ok_iff.mp h
      have hA := length_of_readVector hrow
      have hB := length_of_readVector hval
      cases h
      omega
    next => cases h
  next => cases h

theorem length_of_loadDense {cfg : LoadConfig} (h : loadDense cfg name info rest = .ok (t, after)) :
    after.length ≤ rest.length := by
  unfold loadDense at h
  split at h
  next => cases h
  next =>
    dsimp only at h
    split at h
    next => cases h
    next =>
      split at h
      next =>
        split at h
        next =>
          cases h
          exact le_rfl
        next => cases h
        next => cases h
      next =>
        split at h
        next => cases h
        next =>
          split at h
          next =>
            cases h
            rw [List.length_drop]
            omega
          next => cases h

theorem length_of_loadTensor {cfg : LoadConfig} (h : loadTensor cfg name info rest = .ok (t, after)) :
    after.length ≤ rest.length := by
  unfold loadTensor at h
  split at h
  next => exact length_of_loadDense h
  next =>
    obtain ⟨⟨payload, left⟩, hload, h⟩ := bind_eq_ok_iff.mp h
    cases h
    exact length_of_loadSparse hload

theorem loadable_of_loadLoop {turns : Nat} {r : LoadResult} (h : c.loadLoop turns rest = .ok r) :
    c.Loadable rest := by
  induction turns generalizing rest r with
  | zero => cases h
  | succ turns ih =>
      rw [LoraLoad.loadLoop] at h
      obtain ⟨header, hheader, h⟩ := bind_eq_ok_iff.mp h
      cases header with
      | none => exact .stop hheader
      | some read =>
          obtain ⟨name, info, data⟩ := read
          obtain ⟨⟨⟩, hvalid, h⟩ := bind_eq_ok_iff.mp h
          obtain ⟨⟨t, after⟩, hload, h⟩ := bind_eq_ok_iff.mp h
          obtain ⟨r', hrest, -⟩ := bind_eq_ok_iff.mp h
          exact .tensor hheader (validateWeight_eq_ok.mp hvalid) hload (ih hrest)

/-- The turns that the length of the file allows are enough. -/
theorem LoraLoad.Loadable.loadLoop (h : c.Loadable rest) {turns : Nat} (hturns : rest.length < turns) :
    ∃ r, c.loadLoop turns rest = .ok r := by
  induction h generalizing turns with
  | stop hheader =>
      obtain ⟨k, rfl⟩ := Nat.exists_eq_add_of_lt hturns
      exact ⟨_, bind_eq_ok_iff.mpr ⟨none, hheader, rfl⟩⟩
  | @tensor rest data after name info t hheader hvalid hload _ ih =>
      obtain ⟨k, rfl⟩ := Nat.exists_eq_add_of_lt hturns
      have hdata := length_of_readHeader hheader
      have hafter := length_of_loadTensor hload
      have hleft : after.length < rest.length + k := by omega
      obtain ⟨r, hr⟩ := ih hleft
      refine ⟨{ r with processOrder := t :: r.processOrder }, ?_⟩
      apply bind_eq_ok_iff.mpr ⟨_, hheader, _⟩
      apply bind_eq_ok_iff.mpr ⟨(), validateWeight_eq_ok.mpr hvalid, _⟩
      apply bind_eq_ok_iff.mpr ⟨_, hload, _⟩
      exact bind_eq_ok_iff.mpr ⟨r, hr, rfl⟩

/-- A file can be read by the load of a LoRA. -/
def LoraLoad.FileLoads (c : LoraLoad) (file : Option (List UInt8)) : Prop :=
  ∃ bytes, file = some bytes ∧ c.Loadable bytes

theorem loadFile_iff {file : Option (List UInt8)} :
    (∃ r, c.loadFile file = .ok r) ↔ c.FileLoads file := by
  constructor
  · rintro ⟨r, hr⟩
    cases file with
    | none => cases hr
    | some bytes => exact ⟨bytes, rfl, loadable_of_loadLoop hr⟩
  · rintro ⟨bytes, rfl, hload⟩
    exact hload.loadLoop (Nat.lt_succ_self _)

end Reading

end DashInfer.Lora
