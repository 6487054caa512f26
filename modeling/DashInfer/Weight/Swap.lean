import Mathlib

/-!
Swapping a model's weights between device and host. `WeightManagerImpl` keeps
three maps for a model: the tensors of each rank on the device, a host copy of
all ranks that is made when the last rank has loaded, and a status per rank.
The weight file gives each rank the same tensors at every load; `C` is the
content of a tensor. The maps of other models are not touched.
-/

namespace DashInfer.Weight.Swap

variable {n : Nat} {C : Type}

inductive DeviceType where
  | cpu
  | cuda
deriving DecidableEq

structure AsTensor (C : Type) where
  content : C
  device : DeviceType
deriving DecidableEq

abbrev TensorMap (C : Type) := String → Option (AsTensor C)

inductive SwapStatus where
  | swapInit
  | swapOut
  | swapIn
deriving DecidableEq

inductive AsStatus where
  | success
  | runtimeError
deriving DecidableEq

/-- The exceptions of the manager. -/
inductive WeightError where
  | noSuchRank
  | swapOutTensor
  | noSuchName
  | swapNotEnabled
  | unknownHandler
  /-- A host copy without the rank. -/
  | nullTensorMap
deriving DecidableEq

/-- The entries of one model; `none` outside is a model without an entry. -/
structure Manager (n : Nat) (C : Type) where
  weightStorage : Option (Fin n → Option (TensorMap C))
  swapWeightStorage : Option (Fin n → Option (TensorMap C))
  swapStatus : Fin n → Option SwapStatus
  swapEnable : Bool

namespace Manager

/-- A registered model whose swap config is on and that no rank has loaded. -/
def registered (n : Nat) (C : Type) : Manager n C :=
  { weightStorage := none, swapWeightStorage := none, swapStatus := fun _ => none,
    swapEnable := true }

/-- The copy of a rank's tensors on another device. -/
def duplicate (target : DeviceType) (tensors : TensorMap C) : TensorMap C :=
  fun name => (tensors name).map (fun tensor => { tensor with device := target })

/-- `DuplicateTensorsToDeviceType`, for all ranks or for one. -/
def duplicateTensorsToDeviceType (weights : Fin n → Option (TensorMap C)) (target : DeviceType)
    (rank : Option (Fin n)) : Fin n → Option (TensorMap C) :=
  fun r =>
    if rank.any (fun rank => rank ≠ r) then weights r
    else (weights r).map (duplicate target)

variable (s : Manager n C)

/-- `GetSwapStatus`: the status of the first rank that has one. -/
def getSwapStatus : SwapStatus :=
  ((List.finRange n).findSome? s.swapStatus).getD .swapInit

/-- How many ranks have tensors on the device. -/
def rankCount (weights : Fin n → Option (TensorMap C)) : Nat :=
  (List.finRange n).countP (fun r => (weights r).isSome)

/-- A rank's tensors as they are read from the file. -/
def loadedTensors (contents : String → Option C) : TensorMap C :=
  fun name => (contents name).map (fun content => { content, device := .cuda })

/-- `LoadWeightForModel` of a base model. `file` is what the file has for the
rank, or nothing when reading it fails. -/
def loadWeightForModel (rank : Fin n) (file : Option (String → Option C)) :
    AsStatus × Manager n C :=
  if s.getSwapStatus = .swapIn then (.success, s)
  else
    match file with
    | none => (.runtimeError, s)
    | some contents =>
        let weights := Function.update (s.weightStorage.getD (fun _ => none)) rank
          (some (loadedTensors contents))
        if s.swapEnable then
          (.success,
            { s with
              weightStorage := some weights
              swapWeightStorage :=
                if s.swapWeightStorage.isNone ∧ rankCount weights = n then
                  some (duplicateTensorsToDeviceType weights .cpu none)
                else s.swapWeightStorage
              swapStatus := Function.update s.swapStatus rank (some .swapInit) })
        else (.success, { s with weightStorage := some weights })

def getWeightTensor (rank : Fin n) (name : String) : Except WeightError (AsTensor C) :=
  match s.weightStorage.bind (fun weights => weights rank) with
  | none => .error .noSuchRank
  | some tensors =>
      if s.swapStatus rank = some .swapOut then .error .swapOutTensor
      else
        match tensors name with
        | none => .error .noSuchName
        | some tensor => .ok tensor

def swapOutWeight (rank : Fin n) : Except WeightError (Manager n C) :=
  if s.swapEnable = false then .error .swapNotEnabled
  else
    match s.swapStatus rank with
    | none | some .swapOut => .ok s
    | some _ =>
        match s.weightStorage with
        | none => .error .unknownHandler
        | some weights =>
            .ok { s with
              weightStorage := some (Function.update weights rank none)
              swapStatus := Function.update s.swapStatus rank (some .swapOut) }

def swapInWeight (rank : Fin n) : Except WeightError (Manager n C) :=
  if s.swapEnable = false then .error .swapNotEnabled
  else
    match s.swapStatus rank with
    | none | some .swapIn => .ok s
    | some _ =>
        match s.swapWeightStorage with
        | none => .error .unknownHandler
        | some host =>
            match host rank with
            | none => .error .nullTensorMap
            | some tensors =>
                let weights := Function.update (s.weightStorage.getD (fun _ => none)) rank
                  (some tensors)
                .ok { s with
                  weightStorage :=
                    some (duplicateTensorsToDeviceType weights .cuda (some rank))
                  swapStatus := Function.update s.swapStatus rank (some .swapIn) }

/-- What `GetWeightTensor` gives, as content. -/
def contentOf (rank : Fin n) (name : String) : Option C :=
  (s.getWeightTensor rank name).toOption.map AsTensor.content

def SwappedOut (rank : Fin n) : Prop := s.swapStatus rank = some .swapOut

instance (rank : Fin n) : Decidable (s.SwappedOut rank) :=
  inferInstanceAs (Decidable (_ = _))

/-- The rank's tensors are on the device. -/
def Available (rank : Fin n) : Prop :=
  (s.weightStorage.bind (fun weights => weights rank)).isSome ∧ ¬ s.SwappedOut rank

end Manager

open Manager

/-- The tensors have the contents the file has for the rank. -/
def Carries (tensors : TensorMap C) (contents : String → Option C) : Prop :=
  ∀ name, (tensors name).map AsTensor.content = contents name

theorem carries_duplicate {tensors : TensorMap C} {contents : String → Option C}
    (h : Carries tensors contents) (target : DeviceType) :
    Carries (duplicate target tensors) contents := by
  intro name
  rw [← h name]
  simp [duplicate, Function.comp_def]

theorem carries_loaded (contents : String → Option C) :
    Carries (loadedTensors contents) contents := by
  intro name
  simp [loadedTensors, Function.comp_def]

/-- One more rank with its own contents. -/
theorem carries_update {files : Fin n → String → Option C} {weights : Fin n → Option (TensorMap C)}
    (h : ∀ rank tensors, weights rank = some tensors → Carries tensors (files rank))
    {rank : Fin n} {new : TensorMap C} (hnew : Carries new (files rank)) {other : Fin n}
    {tensors : TensorMap C} (hother : Function.update weights rank (some new) other = some tensors) :
    Carries tensors (files other) := by
  by_cases hrank : other = rank
  · subst hrank
    rw [Function.update_self] at hother
    obtain rfl := Option.some.inj hother
    exact hnew
  · rw [Function.update_of_ne hrank] at hother
    exact h other tensors hother

/-- The states in which the model is loaded, rank by rank, in any order. -/
inductive Loading (files : Fin n → String → Option C) : Manager n C → Prop
  | registered : Loading files (Manager.registered n C)
  | load {s : Manager n C} (h : Loading files s) (rank : Fin n) :
      Loading files (s.loadWeightForModel rank (some (files rank))).2

/-- A call for one rank. -/
inductive Action (n : Nat) where
  | load (rank : Fin n) (readable : Bool)
  | swapOut (rank : Fin n)
  | swapIn (rank : Fin n)

def Action.rank : Action n → Fin n
  | .load rank _ | .swapOut rank | .swapIn rank => rank

/-- The answer of a call and the manager after it. An exception leaves the
manager as it was. -/
def step (files : Fin n → String → Option C) (s : Manager n C) :
    Action n → Except WeightError AsStatus × Manager n C
  | .load rank readable =>
      let (status, s) := s.loadWeightForModel rank (if readable then some (files rank) else none)
      (.ok status, s)
  | .swapOut rank =>
      match s.swapOutWeight rank with
      | .ok s => (.ok .success, s)
      | .error e => (.error e, s)
  | .swapIn rank =>
      match s.swapInWeight rank with
      | .ok s => (.ok .success, s)
      | .error e => (.error e, s)

/-- The states after the model was loaded on all ranks. -/
inductive Reaches (files : Fin n → String → Option C) : Manager n C → Prop
  | loaded {s : Manager n C} (h : Loading files s) (hall : ∀ rank, s.swapStatus rank ≠ none) :
      Reaches files s
  | step {s : Manager n C} (h : Reaches files s) (action : Action n) :
      Reaches files (step files s action).2

/-- What a call must leave: every rank's tensors are there with their contents
unless it is swapped out, the other ranks are as they were, and the rank of the
call is where the call says. -/
structure Laws (files : Fin n → String → Option C) (s : Manager n C) (action : Action n) :
    Prop where
  content : ∀ rank name, (step files s action).2.contentOf rank name =
    if (step files s action).2.SwappedOut rank then none else files rank name
  others : ∀ rank, rank ≠ action.rank → ∀ name,
    (step files s action).2.contentOf rank name = s.contentOf rank name
  effect : match action with
    | .load rank _ =>
        (step files s action).1 = .ok .success → (step files s action).2.Available rank
    | .swapOut rank => (step files s action).2.SwappedOut rank
    | .swapIn rank => (step files s action).2.Available rank

/-- Each rank of a loaded model: on the device with its contents, or swapped
out; and the host has all of them. -/
structure Invariant (files : Fin n → String → Option C) (s : Manager n C)
    (weights : Fin n → Option (TensorMap C)) : Prop where
  enabled : s.swapEnable = true
  storage : s.weightStorage = some weights
  rank : ∀ rank, ∃ status, s.swapStatus rank = some status ∧
    if status = .swapOut then weights rank = none
    else ∃ tensors, weights rank = some tensors ∧ Carries tensors (files rank)
  host : ∃ host, s.swapWeightStorage = some host ∧
    ∀ rank, ∃ tensors, host rank = some tensors ∧ Carries tensors (files rank)

/-- While the model is loaded: the ranks that have loaded, in their initial
status, and the host copy as soon as these are all. -/
structure LoadingInvariant (files : Fin n → String → Option C) (s : Manager n C)
    (weights : Fin n → Option (TensorMap C)) : Prop where
  enabled : s.swapEnable = true
  storage : s.weightStorage.getD (fun _ => none) = weights
  rank : ∀ rank, s.swapStatus rank = (weights rank).map (fun _ => .swapInit)
  carries : ∀ rank tensors, weights rank = some tensors → Carries tensors (files rank)
  host : ∀ host, s.swapWeightStorage = some host →
    ∀ rank, ∃ tensors, host rank = some tensors ∧ Carries tensors (files rank)
  complete : Fin n → (∀ rank, weights rank ≠ none) →
    s.weightStorage = some weights ∧ s.swapWeightStorage ≠ none

variable {files : Fin n → String → Option C} {s : Manager n C}
  {weights : Fin n → Option (TensorMap C)}

theorem duplicate_all (weights : Fin n → Option (TensorMap C)) (target : DeviceType)
    (rank : Fin n) :
    duplicateTensorsToDeviceType weights target none rank =
      (weights rank).map (duplicate target) := by
  simp [duplicateTensorsToDeviceType]

theorem duplicate_one (weights : Fin n → Option (TensorMap C)) (target : DeviceType)
    (rank other : Fin n) :
    duplicateTensorsToDeviceType weights target (some rank) other =
      if rank = other then (weights other).map (duplicate target) else weights other := by
  by_cases h : rank = other <;> simp [duplicateTensorsToDeviceType, h]

theorem rankCount_eq_iff (weights : Fin n → Option (TensorMap C)) :
    rankCount weights = n ↔ ∀ rank, weights rank ≠ none := by
  have hlength := List.countP_eq_length (p := fun r => (weights r).isSome) (l := List.finRange n)
  rw [List.length_finRange] at hlength
  unfold rankCount
  rw [hlength]
  simp [Option.isSome_iff_ne_none]

theorem getSwapStatus_ne (h : ∀ rank, s.swapStatus rank ≠ some .swapIn) :
    s.getSwapStatus ≠ .swapIn := by
  unfold getSwapStatus
  cases hfind : (List.finRange n).findSome? s.swapStatus with
  | none => decide
  | some status =>
      obtain ⟨rank, _, hrank⟩ := List.exists_of_findSome?_eq_some hfind
      rintro rfl
      exact h rank hrank

namespace LoadingInvariant

theorem registered (files : Fin n → String → Option C) :
    LoadingInvariant files (Manager.registered n C) (fun _ => none) where
  enabled := rfl
  storage := rfl
  rank _ := rfl
  carries _ _ h := by cases h
  host _ h := by cases h
  complete rank h := absurd rfl (h rank)

theorem load (h : LoadingInvariant files s weights) (rank : Fin n) :
    ∃ weights', LoadingInvariant files (s.loadWeightForModel rank (some (files rank))).2 weights' := by
  have hstatus : s.getSwapStatus ≠ .swapIn := by
    apply getSwapStatus_ne
    intro r
    rw [h.rank]
    cases weights r <;> simp
  have hcarries : ∀ r tensors, Function.update weights rank (some (loadedTensors (files rank))) r =
      some tensors → Carries tensors (files r) :=
    fun r tensors => carries_update h.carries (carries_loaded (files rank))
  unfold loadWeightForModel
  rw [if_neg hstatus]
  simp only [h.enabled, if_true, h.storage]
  refine ⟨Function.update weights rank (some (loadedTensors (files rank))), rfl, rfl, ?_,
    hcarries, ?_, ?_⟩
  · intro r
    by_cases hr : r = rank
    · subst hr
      simp
    · simp only [Function.update_of_ne hr, h.rank r]
  · intro host hhost r
    simp only at hhost
    split at hhost
    · next hall =>
        obtain rfl := Option.some.inj hhost
        obtain ⟨tensors, htensors⟩ := Option.ne_none_iff_exists'.mp
          ((rankCount_eq_iff _).mp hall.2 r)
        rw [duplicate_all, htensors]
        exact ⟨_, rfl, carries_duplicate (hcarries r tensors htensors) _⟩
    · exact h.host host hhost r
  · intro _ hall
    refine ⟨rfl, ?_⟩
    simp only
    cases hhost : s.swapWeightStorage with
    | none => simp [(rankCount_eq_iff _).mpr hall]
    | some host => simp

theorem of_loading (h : Loading files s) : ∃ weights, LoadingInvariant files s weights := by
  induction h with
  | registered => exact ⟨_, registered files⟩
  | load _ rank ih =>
      obtain ⟨weights, ih⟩ := ih
      exact ih.load rank

/-- When the last rank has loaded, the swap can start. -/
theorem complete_loaded (h : LoadingInvariant files s weights)
    (hall : ∀ rank, s.swapStatus rank ≠ none) (some_rank : Fin n) :
    Invariant files s weights := by
  have hpresent : ∀ rank, weights rank ≠ none := by
    intro rank hnone
    apply hall rank
    rw [h.rank, hnone]
    rfl
  obtain ⟨hstorage, hhost⟩ := h.complete some_rank hpresent
  obtain ⟨host, hhost⟩ := Option.ne_none_iff_exists'.mp hhost
  refine ⟨h.enabled, hstorage, ?_, host, hhost, h.host host hhost⟩
  intro rank
  obtain ⟨tensors, htensors⟩ := Option.ne_none_iff_exists'.mp (hpresent rank)
  refine ⟨.swapInit, ?_, ?_⟩
  · rw [h.rank, htensors]
    rfl
  · rw [if_neg (by decide)]
    exact ⟨tensors, htensors, h.carries rank tensors htensors⟩

end LoadingInvariant

namespace Invariant

theorem contentOf_eq (h : Invariant files s weights) (rank : Fin n) (name : String) :
    s.contentOf rank name = if s.SwappedOut rank then none else files rank name := by
  obtain ⟨status, hstatus, hrank⟩ := h.rank rank
  have hswapped : s.SwappedOut rank ↔ status = .swapOut := by
    unfold SwappedOut
    rw [hstatus, Option.some.injEq]
  unfold contentOf getWeightTensor
  rw [h.storage, Option.bind_some]
  by_cases hout : status = .swapOut
  · rw [if_pos hout] at hrank
    rw [hrank, if_pos (hswapped.mpr hout)]
    rfl
  · rw [if_neg hout] at hrank
    obtain ⟨tensors, htensors, hcarries⟩ := hrank
    have hnot : ¬ s.swapStatus rank = some .swapOut := fun hs => hout (hswapped.mp hs)
    rw [htensors, if_neg (fun hs => hout (hswapped.mp hs)), ← hcarries name]
    simp only [if_neg hnot]
    cases tensors name <;> rfl

theorem available_iff (h : Invariant files s weights) (rank : Fin n) :
    s.Available rank ↔ ¬ s.SwappedOut rank := by
  obtain ⟨status, hstatus, hrank⟩ := h.rank rank
  unfold Available SwappedOut
  rw [h.storage, Option.bind_some, hstatus]
  by_cases hout : status = .swapOut
  · simp [hout]
  · rw [if_neg hout] at hrank
    obtain ⟨tensors, htensors, -⟩ := hrank
    simp [htensors]

/-- A rank gets tensors with the contents of the file and a status other than
swapped out. -/
theorem put (h : Invariant files s weights) {rank : Fin n} {tensors : TensorMap C}
    (hcarries : Carries tensors (files rank)) {status : SwapStatus} (hout : status ≠ .swapOut) :
    Invariant files
      { s with
        weightStorage := some (Function.update weights rank (some tensors))
        swapStatus := Function.update s.swapStatus rank (some status) }
      (Function.update weights rank (some tensors)) where
  enabled := h.enabled
  storage := rfl
  rank other := by
    by_cases hother : other = rank
    · subst hother
      exact ⟨status, by simp, by simpa [hout] using hcarries⟩
    · simp only [Function.update_of_ne hother]
      exact h.rank other
  host := h.host

theorem load (h : Invariant files s weights) (rank : Fin n) (readable : Bool) :
    (∃ weights', Invariant files (step files s (.load rank readable)).2 weights') ∧
      (∀ other, other ≠ rank →
        (step files s (.load rank readable)).2.swapStatus other = s.swapStatus other) ∧
      ((step files s (.load rank readable)).1 = .ok .success →
        (s.getSwapStatus = .swapIn ∧ (step files s (.load rank readable)).2 = s ∨
          ¬ (step files s (.load rank readable)).2.SwappedOut rank)) := by
  obtain ⟨host, hhost, -⟩ := h.host
  simp only [step, loadWeightForModel]
  by_cases hin : s.getSwapStatus = .swapIn
  · simp only [hin, if_true]
    exact ⟨⟨weights, h⟩, fun _ _ => trivial, fun _ => Or.inl ⟨trivial, trivial⟩⟩
  · simp only [hin, if_false]
    cases readable with
    | false => exact ⟨⟨weights, h⟩, fun _ _ => rfl, fun hstatus => by cases hstatus⟩
    | true =>
        simp only [h.enabled, h.storage, hhost, if_true, Option.getD_some, Option.isNone_some,
          Bool.false_eq_true, false_and, if_false]
        refine ⟨⟨Function.update weights rank (some (loadedTensors (files rank))), ?_⟩, ?_, ?_⟩
        · have hput := h.put (carries_loaded (files rank))
            (show SwapStatus.swapInit ≠ .swapOut by decide)
          rw [← h.enabled, ← hhost]
          exact hput
        · intro other hother
          simp only [Function.update_of_ne hother]
        · intro _
          right
          simp [SwappedOut]

theorem swapOut (h : Invariant files s weights) (rank : Fin n) :
    (∃ weights', Invariant files (step files s (.swapOut rank)).2 weights') ∧
      (∀ other, other ≠ rank →
        (step files s (.swapOut rank)).2.swapStatus other = s.swapStatus other) ∧
      (step files s (.swapOut rank)).2.SwappedOut rank := by
  obtain ⟨status, hstatus, hrank⟩ := h.rank rank
  simp only [step, swapOutWeight, h.enabled, Bool.true_eq_false, if_false, hstatus, h.storage]
  cases status with
  | swapOut => exact ⟨⟨weights, h⟩, fun _ _ => rfl, hstatus⟩
  | swapInit | swapIn =>
      refine ⟨⟨Function.update weights rank none, rfl, rfl, ?_, h.host⟩, ?_, ?_⟩
      · intro other
        by_cases hother : other = rank
        · subst hother
          exact ⟨.swapOut, by simp, by simp⟩
        · simp only [Function.update_of_ne hother]
          exact h.rank other
      · intro other hother
        simp only [Function.update_of_ne hother]
      · simp [SwappedOut]

theorem swapIn (h : Invariant files s weights) (rank : Fin n) :
    (∃ weights', Invariant files (step files s (.swapIn rank)).2 weights') ∧
      (∀ other, other ≠ rank →
        (step files s (.swapIn rank)).2.swapStatus other = s.swapStatus other) ∧
      ¬ (step files s (.swapIn rank)).2.SwappedOut rank := by
  obtain ⟨status, hstatus, hrank⟩ := h.rank rank
  obtain ⟨host, hhost, hcopies⟩ := h.host
  obtain ⟨tensors, htensors, hcarries⟩ := hcopies rank
  simp only [step, swapInWeight, h.enabled, Bool.true_eq_false, if_false, hstatus, h.storage, hhost,
    htensors, Option.getD_some]
  have hweights : duplicateTensorsToDeviceType (Function.update weights rank (some tensors)) .cuda
      (some rank) = Function.update weights rank (some (duplicate .cuda tensors)) := by
    funext other
    rw [duplicate_one]
    by_cases hother : rank = other
    · subst hother
      simp
    · rw [if_neg hother, Function.update_of_ne (Ne.symm hother),
        Function.update_of_ne (Ne.symm hother)]
  cases status with
  | swapIn => exact ⟨⟨weights, h⟩, fun _ _ => rfl, by simp [SwappedOut, hstatus]⟩
  | swapInit | swapOut =>
      rw [hweights]
      refine ⟨⟨Function.update weights rank (some (duplicate .cuda tensors)), ?_⟩, ?_, ?_⟩
      · have hput := h.put (carries_duplicate hcarries .cuda)
          (show SwapStatus.swapIn ≠ .swapOut by decide)
        rw [hhost, h.enabled] at hput
        exact hput
      · intro other hother
        simp only [Function.update_of_ne hother]
      · simp [SwappedOut]

/-- What every call leaves: the invariant, and the other ranks in their
status. -/
theorem step (h : Invariant files s weights) (action : Action n) :
    (∃ weights', Invariant files (Swap.step files s action).2 weights') ∧
      ∀ other, other ≠ action.rank →
        (Swap.step files s action).2.swapStatus other = s.swapStatus other := by
  cases action with
  | load rank readable => exact ⟨(h.load rank readable).1, (h.load rank readable).2.1⟩
  | swapOut rank => exact ⟨(h.swapOut rank).1, (h.swapOut rank).2.1⟩
  | swapIn rank => exact ⟨(h.swapIn rank).1, (h.swapIn rank).2.1⟩

theorem of_reaches (h : Reaches files s) (rank : Fin n) : ∃ weights, Invariant files s weights := by
  induction h with
  | loaded hload hall =>
      obtain ⟨weights, hweights⟩ := LoadingInvariant.of_loading hload
      exact ⟨weights, hweights.complete_loaded hall rank⟩
  | step _ action ih =>
      obtain ⟨weights, ih⟩ := ih
      exact (ih.step action).1

end Invariant

/-- A load that is answered from the status of the first rank, for a rank that
is swapped out. -/
def WrongShortcut (s : Manager n C) : Action n → Prop
  | .load rank _ => s.getSwapStatus = .swapIn ∧ s.SwappedOut rank
  | _ => False

/-- After the model was loaded on all ranks and any calls for single ranks, the
next call keeps the laws exactly if it is not a load of a swapped-out rank
while the first rank is swapped in. -/
theorem laws_iff (h : Reaches files s) (action : Action n) :
    Laws files s action ↔ ¬ WrongShortcut s action := by
  obtain ⟨weights, hinv⟩ := Invariant.of_reaches h action.rank
  obtain ⟨⟨weights', hinv'⟩, hothers⟩ := hinv.step action
  constructor
  · intro hlaws hwrong
    cases action with
    | load rank readable =>
        obtain ⟨hin, hout⟩ := hwrong
        have hrun : step files s (.load rank readable) = (.ok .success, s) := by
          simp only [step, loadWeightForModel, hin, if_true]
        have heffect := hlaws.effect
        simp only [hrun, true_imp_iff] at heffect
        exact heffect.2 hout
    | swapOut rank => exact hwrong
    | swapIn rank => exact hwrong
  · intro hright
    refine ⟨hinv'.contentOf_eq, ?_, ?_⟩
    · intro rank hrank name
      have hsame : (step files s action).2.SwappedOut rank ↔ s.SwappedOut rank := by
        unfold SwappedOut
        rw [hothers rank hrank]
      rw [hinv'.contentOf_eq, hinv.contentOf_eq]
      simp only [hsame]
    · cases action with
      | load rank readable =>
          intro hstatus
          rw [hinv'.available_iff]
          rcases (hinv.load rank readable).2.2 hstatus with ⟨hin, hsame⟩ | hnot
          · rw [hsame]
            exact fun hout => hright ⟨hin, hout⟩
          · exact hnot
      | swapOut rank => exact (hinv.swapOut rank).2.2
      | swapIn rank => exact (hinv'.available_iff rank).mpr (hinv.swapIn rank).2.2

/-- Two ranks with one tensor each. -/
def twoFiles : Fin 2 → String → Option Nat :=
  fun rank name => if name = "w" then some rank.val else none

def twoLoaded : Manager 2 Nat :=
  (((Manager.registered 2 Nat).loadWeightForModel ⟨0, Nat.two_pos⟩
    (some (twoFiles ⟨0, Nat.two_pos⟩))).2.loadWeightForModel ⟨1, Nat.one_lt_two⟩
      (some (twoFiles ⟨1, Nat.one_lt_two⟩))).2

theorem loading_twoLoaded : Loading twoFiles twoLoaded := .load (.load .registered 0) 1

theorem swapStatus_twoLoaded : ∀ rank, twoLoaded.swapStatus rank ≠ none := by decide

theorem laws_iff_twoLoaded :
    Laws twoFiles twoLoaded (.swapOut 1) ↔ ¬ WrongShortcut twoLoaded (.swapOut 1) :=
  laws_iff (.loaded loading_twoLoaded swapStatus_twoLoaded) (.swapOut 1)

/-- Both ranks swap out, the first one swaps in again, the second one loads. -/
theorem not_laws :
    ¬ ∀ (n : Nat) (files : Fin n → String → Option Nat) (s : Manager n Nat),
      Reaches files s → ∀ action, Laws files s action := by
  intro h
  have hlaws := h 2 twoFiles _
    (.step (.step (.step (.loaded loading_twoLoaded swapStatus_twoLoaded) (.swapOut 0))
      (.swapOut 1)) (.swapIn 0)) (.load 1 true)
  have heffect := hlaws.effect (by rfl)
  exact heffect.2 (by decide)

end DashInfer.Weight.Swap
