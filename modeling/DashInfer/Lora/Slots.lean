import Mathlib
import DashInfer.Lora.LoadFile
import DashInfer.Weight.Swap
import DashInfer.WeightFile.RoundTrip

/-!
The slots of a `LoraManager` and the calls that fill and empty them. A load
registers the name first and reads the file then. A handler is a pointer: the
maps of the manager that have it as a key keep it alive, so no later handler
has its address.
-/

namespace DashInfer.Lora

open Lib Weight WeightFile
open Swap (SwapStatus)

abbrev LoraName := List UInt8

/-- A `shared_ptr<ModelWeightHandler>`. -/
structure Handle where
  address : Nat
  id : Nat
  modelName : LoraName
deriving DecidableEq, Repr

abbrev WeightsOfRank := RankInfo → Option (List LoadedTensor)

structure SlotManager where
  loraMaxNum : Nat
  weightHandlerStore : List (Option Handle)
  loraNameIdxMap : List (LoraName × Nat)
  weightStorage : Handle → Option WeightsOfRank
  swapStatus : Handle → Option SwapStatus
  swapConfig : Handle → Option Bool
  nextAddress : Nat

def enforceFailed : Failure := .exception "AllSpark ENFORCE FAILED"

/-- `util::Path::filename`. -/
def filename (path : List UInt8) : List UInt8 :=
  (path.reverse.takeWhile (· ≠ byte '/')).reverse

/-- The name under which `LoadLoraByName` registers its argument. -/
def loraNameOf (nameOrPath : List UInt8) : LoraName :=
  if nameOrPath.head? = some (byte '/') then
    let file := filename nameOrPath
    match after? (text ".aslora") file with
    | none => file
    | some rest => file.take (file.length - (text ".aslora").length - rest.length)
  else nameOrPath

namespace SlotManager

def create (loraMaxNum : Nat) : SlotManager where
  loraMaxNum
  weightHandlerStore := List.replicate loraMaxNum none
  loraNameIdxMap := []
  weightStorage := fun _ => none
  swapStatus := fun _ => none
  swapConfig := fun _ => none
  nextAddress := 0

def getNumLoras (m : SlotManager) : Nat := m.loraNameIdxMap.length

def isLoraExists (name : LoraName) (m : SlotManager) : Bool :=
  (m.loraNameIdxMap.lookup name).isSome

def registerLora (name : LoraName) (m : SlotManager) : SlotManager × Except Failure Handle :=
  match m.weightHandlerStore.findIdx? Option.isNone with
  | none => (m, .error enforceFailed)
  | some newId =>
      let handle : Handle := ⟨m.nextAddress, newId, name⟩
      ({ m with
        weightHandlerStore := m.weightHandlerStore.set newId (some handle)
        loraNameIdxMap := m.loraNameIdxMap.filter (·.1 ≠ name) ++ [(name, newId)]
        nextAddress := m.nextAddress + 1 }, .ok handle)

/-- `unordered_map::at` and `vector::at` throw where there is nothing, and the
weights have to be in the storage. -/
def unRegisterLora (name : LoraName) (m : SlotManager) : SlotManager × Except Failure Unit :=
  match m.loraNameIdxMap.lookup name with
  | none => (m, .error (.exception "out_of_range"))
  | some idx =>
      match m.weightHandlerStore[idx]? with
      | none => (m, .error (.exception "out_of_range"))
      | some none => (m, .error enforceFailed)
      | some (some handle) =>
          if (m.weightStorage handle).isNone then (m, .error enforceFailed)
          else
            ({ m with
              weightStorage := Function.update m.weightStorage handle none
              weightHandlerStore := m.weightHandlerStore.set idx none
              loraNameIdxMap := m.loraNameIdxMap.filter (·.1 ≠ name) }, .ok ())

def getSwapStatus (handle : Handle) (m : SlotManager) : SwapStatus :=
  (m.swapStatus handle).getD .swapInit

def setSwapConfig (handle : Handle) (enable : Bool) (m : SlotManager) : SlotManager :=
  { m with swapConfig := Function.update m.swapConfig handle (some enable) }

/-- `LoadWeightForModel` of a LoRA's handler. -/
def loadWeightForModel (c : LoraLoad) (handle : Handle) (file : Option (List UInt8))
    (m : SlotManager) : SlotManager × Except Failure Unit :=
  if m.getSwapStatus handle = .swapIn then (m, .ok ())
  else
    match c.loadFile file with
    | .error e => (m, .error e)
    | .ok r =>
        ({ m with
          weightStorage := Function.update m.weightStorage handle
            (some (Function.update ((m.weightStorage handle).getD fun _ => none) c.load.rankInfo
              (some r.tensorMap)))
          swapStatus := Function.update m.swapStatus handle (some .swapInit) }, .ok ())

/-- `AsModel::LoadLoraByName`. A status that is not a success rolls the
registration back, and an exception passes through. -/
def loadLoraByName (c : LoraLoad) (nameOrPath : List UInt8) (file : Option (List UInt8))
    (m : SlotManager) : SlotManager × Except Failure Unit :=
  if m.loraMaxNum ≤ m.getNumLoras then
    (m, .error (.status "ALLSPARK_LORA_NUM_EXCEED_LIMIT_ERROR"))
  else if m.isLoraExists (loraNameOf nameOrPath) then (m, .ok ())
  else
    match m.registerLora (loraNameOf nameOrPath) with
    | (m, .error e) => (m, .error e)
    | (m, .ok handle) =>
        match (m.setSwapConfig handle false).loadWeightForModel c handle file with
        | (m, .ok ()) => (m, .ok ())
        | (m, .error (.status code)) =>
            match m.unRegisterLora (loraNameOf nameOrPath) with
            | (m, .error e) => (m, .error e)
            | (m, .ok ()) => (m, .error (.status code))
        | (m, .error e) => (m, .error e)

/-- `AsModel::UnloadLoraByName`, as far as the manager goes. -/
def unloadLoraByName (name : LoraName) (m : SlotManager) : SlotManager × Except Failure Unit :=
  if m.isLoraExists name then m.unRegisterLora name else (m, .ok ())

end SlotManager

/-- A call on the manager, with the file that a load finds. -/
inductive SlotCall where
  | load (nameOrPath : List UInt8) (file : Option (List UInt8))
  | unload (name : LoraName)

def SlotManager.call (c : LoraLoad) (m : SlotManager) :
    SlotCall → SlotManager × Except Failure Unit
  | .load nameOrPath file => m.loadLoraByName c nameOrPath file
  | .unload name => m.unloadLoraByName name

section Properties

variable (c : LoraLoad) (m : SlotManager)

def SlotManager.registered : Set LoraName := {name | m.isLoraExists name = true}

def SlotManager.occupied : Set Nat := {i | ∃ handle, m.weightHandlerStore[i]? = some (some handle)}

/-- The slot of a registered name. -/
def SlotManager.slotOf (name : LoraName) : Nat := (m.loraNameIdxMap.lookup name).getD 0

/-- Names and slots in use correspond, and every name has weights for the rank. -/
structure SlotManager.Consistent : Prop where
  bijection : Set.BijOn m.slotOf m.registered m.occupied
  stored : ∀ name ∈ m.registered, ∃ handle weights tensors,
    m.weightHandlerStore[m.slotOf name]? = some (some handle) ∧ handle.modelName = name ∧
      m.weightStorage handle = some weights ∧ weights c.load.rankInfo = some tensors

/-- Names, slots and storage are the same. -/
structure SlotManager.Same (m m' : SlotManager) : Prop where
  names : m'.loraNameIdxMap = m.loraNameIdxMap
  slots : m'.weightHandlerStore = m.weightHandlerStore
  storage : m'.weightStorage = m.weightStorage

/-- A load that reports an error changes nothing, and a later load goes as it
would have gone before. -/
def SlotManager.AtomicLoad (nameOrPath : List UInt8) (file : Option (List UInt8)) : Prop :=
  ∀ e, (m.loadLoraByName c nameOrPath file).2 = .error e →
    m.Same (m.loadLoraByName c nameOrPath file).1 ∧
      ∀ again, ((m.loadLoraByName c nameOrPath file).1.loadLoraByName c nameOrPath again).2 =
        (m.loadLoraByName c nameOrPath again).2

/-- If the load comes to the file, the file can be read. -/
def SlotManager.ReadsFile (nameOrPath : List UInt8) (file : Option (List UInt8)) : Prop :=
  m.getNumLoras < m.loraMaxNum → m.isLoraExists (loraNameOf nameOrPath) = false → c.FileLoads file

def SlotManager.Meets : SlotCall → Prop
  | .load nameOrPath file => m.ReadsFile c nameOrPath file
  | .unload _ => True

end Properties

/-- The states that calls lead to which meet the condition. -/
inductive SlotManager.Reaches (c : LoraLoad) : SlotManager → Prop where
  | create (loraMaxNum : Nat) : Reaches c (.create loraMaxNum)
  | call {m : SlotManager} (action : SlotCall) : Reaches c m → m.Meets c action →
      Reaches c (m.call c action).1

/-- What holds in every state that is reached, pointer by pointer. -/
structure SlotManager.Inv (c : LoraLoad) (m : SlotManager) : Prop where
  size : m.weightHandlerStore.length = m.loraMaxNum
  nodup : (m.loraNameIdxMap.map Prod.fst).Nodup
  slots : ∀ name idx, (name, idx) ∈ m.loraNameIdxMap ↔
    ∃ handle : Handle, m.weightHandlerStore[idx]? = some (some handle) ∧ handle.modelName = name
  ids : ∀ (idx : Nat) (handle : Handle), m.weightHandlerStore[idx]? = some (some handle) → handle.id = idx
  live : ∀ (idx : Nat) (handle : Handle), m.weightHandlerStore[idx]? = some (some handle) →
    handle.address < m.nextAddress
  stored : ∀ (idx : Nat) (handle : Handle), m.weightHandlerStore[idx]? = some (some handle) →
    ∃ weights tensors, m.weightStorage handle = some weights ∧
      weights c.load.rankInfo = some tensors
  fresh : ∀ handle : Handle, m.nextAddress ≤ handle.address → m.weightStorage handle = none ∧
    m.swapStatus handle = none

section Names

variable {α β : Type} [BEq α] [LawfulBEq α] {l : List (α × β)} {k : α} {v : β}

theorem lookup_eq_some_iff_mem (h : (l.map Prod.fst).Nodup) : l.lookup k = some v ↔ (k, v) ∈ l := by
  constructor
  · intro hlookup
    obtain ⟨before, after, rfl, -⟩ := List.lookup_eq_some_iff.mp hlookup
    exact List.mem_append_right _ List.mem_cons_self
  · intro hmem
    obtain ⟨before, after, rfl⟩ := List.append_of_mem hmem
    apply List.lookup_eq_some_iff.mpr
    refine ⟨before, after, rfl, ?_⟩
    intro p hp
    rw [List.map_append, List.map_cons, List.nodup_append] at h
    have hne := h.2.2 p.1 (List.mem_map_of_mem hp) k List.mem_cons_self
    exact bne_iff_ne.mpr (Ne.symm hne)

theorem lookup_registered [DecidableEq α] (l : List (α × β)) (k : α) (v : β) :
    (l.filter (·.1 ≠ k) ++ [(k, v)]).lookup k = some v := by
  apply List.lookup_eq_some_iff.mpr
  refine ⟨l.filter (·.1 ≠ k), [], rfl, ?_⟩
  intro p hp
  exact bne_iff_ne.mpr (Ne.symm (of_decide_eq_true (List.mem_filter.mp hp).2))

end Names

namespace SlotManager

variable {c : LoraLoad} {m : SlotManager} {name : LoraName} {idx : Nat} {handle : Handle}

theorem Inv.lookup_iff (h : Inv c m) : m.loraNameIdxMap.lookup name = some idx ↔
    ∃ handle : Handle, m.weightHandlerStore[idx]? = some (some handle) ∧ handle.modelName = name := by
  rw [lookup_eq_some_iff_mem h.nodup, h.slots]

theorem Inv.registered_iff (h : Inv c m) : m.isLoraExists name = true ↔
    ∃ (idx : Nat) (handle : Handle), m.weightHandlerStore[idx]? = some (some handle) ∧ handle.modelName = name := by
  unfold isLoraExists
  rw [Option.isSome_iff_exists]
  exact exists_congr fun idx => h.lookup_iff

/-- Two handlers in the slots have different names. -/
theorem Inv.slot_unique (h : Inv c m) {idx' : Nat} {handle' : Handle}
    (hat : m.weightHandlerStore[idx]? = some (some handle))
    (hat' : m.weightHandlerStore[idx']? = some (some handle'))
    (hname : handle.modelName = handle'.modelName) : idx = idx' := by
  have hlookup := h.lookup_iff.mpr ⟨handle, hat, hname⟩
  have hlookup' := h.lookup_iff.mpr ⟨handle', hat', rfl⟩
  exact Option.some.inj (hlookup.symm.trans hlookup')

theorem Inv.consistent (h : Inv c m) : m.Consistent c := by
  have hslot : ∀ {name : LoraName} {idx : Nat} {handle : Handle}, m.weightHandlerStore[idx]? = some (some handle) →
      handle.modelName = name → m.slotOf name = idx := by
    intro name idx handle hat hname
    unfold slotOf
    rw [h.lookup_iff.mpr ⟨handle, hat, hname⟩, Option.getD_some]
  constructor
  · refine ⟨?_, ?_, ?_⟩
    · intro name hname
      obtain ⟨idx, handle, hat, hmodel⟩ := h.registered_iff.mp hname
      rw [hslot hat hmodel]
      exact ⟨handle, hat⟩
    · intro name hname name' hname' heq
      obtain ⟨idx, handle, hat, hmodel⟩ := h.registered_iff.mp hname
      obtain ⟨idx', handle', hat', hmodel'⟩ := h.registered_iff.mp hname'
      rw [hslot hat hmodel, hslot hat' hmodel'] at heq
      subst heq
      rw [hat] at hat'
      cases hat'
      exact hmodel.symm.trans hmodel'
    · rintro idx ⟨handle, hat⟩
      exact ⟨handle.modelName, h.registered_iff.mpr ⟨idx, handle, hat, rfl⟩, hslot hat rfl⟩
  · intro name hname
    obtain ⟨idx, handle, hat, hmodel⟩ := h.registered_iff.mp hname
    obtain ⟨weights, tensors, hstorage, hrank⟩ := h.stored idx handle hat
    rw [hslot hat hmodel]
    exact ⟨handle, weights, tensors, hat, hmodel, hstorage, hrank⟩

theorem inv_create (loraMaxNum : Nat) : Inv c (create loraMaxNum) := by
  have hempty : ∀ (idx : Nat) (handle : Handle), (create loraMaxNum).weightHandlerStore[idx]? ≠ some (some handle) := by
    intro idx handle hat
    have hmem := List.eq_of_mem_replicate (List.mem_of_getElem? hat)
    cases hmem
  refine ⟨List.length_replicate, List.nodup_nil, ?_, ?_, ?_, ?_, fun _ _ => ⟨rfl, rfl⟩⟩
  · intro name idx
    constructor
    · intro hmem
      cases hmem
    · rintro ⟨handle, hat, -⟩
      exact absurd hat (hempty idx handle)
  · exact fun idx handle hat => absurd hat (hempty idx handle)
  · exact fun idx handle hat => absurd hat (hempty idx handle)
  · exact fun idx handle hat => absurd hat (hempty idx handle)

/-- With fewer names than slots one slot is free. -/
theorem Inv.exists_free (h : Inv c m) (hlt : m.getNumLoras < m.loraMaxNum) :
    ∃ newId, m.weightHandlerStore.findIdx? Option.isNone = some newId := by
  by_contra hnone
  have hfull : m.weightHandlerStore.findIdx? Option.isNone = none := by
    cases hfind : m.weightHandlerStore.findIdx? Option.isNone with
    | none => rfl
    | some newId => exact absurd ⟨newId, hfind⟩ hnone
  rw [List.findIdx?_eq_none_iff] at hfull
  -- Every slot has a name of its own.
  let entry : Nat → LoraName × Nat := fun i =>
    ((m.weightHandlerStore[i]?.join.map Handle.modelName).getD [], i)
  have hentries : ∀ i ∈ List.range m.loraMaxNum, entry i ∈ m.loraNameIdxMap := by
    intro i hi
    have hi : i < m.weightHandlerStore.length := by
      rw [h.size]
      exact List.mem_range.mp hi
    have hat := List.getElem?_eq_getElem hi
    have hsome := hfull _ (List.getElem_mem hi)
    cases hslot : m.weightHandlerStore[i] with
    | none =>
        rw [hslot] at hsome
        cases hsome
    | some handle =>
        rw [hslot] at hat
        apply (h.slots _ _).mpr
        refine ⟨handle, hat, ?_⟩
        rw [hat]
        rfl
  have hnodup : ((List.range m.loraMaxNum).map entry).Nodup := by
    apply List.Nodup.map _ List.nodup_range
    intro i j hij
    exact (Prod.mk.inj hij).2
  have hle := (hnodup.subperm (fun e he => by
    obtain ⟨i, hi, rfl⟩ := List.mem_map.mp he
    exact hentries i hi)).length_le
  rw [List.length_map, List.length_range] at hle
  unfold getNumLoras at hlt
  omega

/-- The state after a load: a handler in the free slot, with its weights. -/
theorem Inv.insert (h : Inv c m) (hfree : m.weightHandlerStore[idx]? = some none)
    (hname : m.isLoraExists name = false) {weights : WeightsOfRank} {tensors : List LoadedTensor}
    (hrank : weights c.load.rankInfo = some tensors) {config : Handle → Option Bool} :
    Inv c { m with
      weightHandlerStore := m.weightHandlerStore.set idx (some ⟨m.nextAddress, idx, name⟩)
      loraNameIdxMap := m.loraNameIdxMap.filter (·.1 ≠ name) ++ [(name, idx)]
      weightStorage := Function.update m.weightStorage ⟨m.nextAddress, idx, name⟩ (some weights)
      swapStatus := Function.update m.swapStatus ⟨m.nextAddress, idx, name⟩ (some .swapInit)
      swapConfig := config
      nextAddress := m.nextAddress + 1 } := by
  have hlt : idx < m.weightHandlerStore.length := (List.getElem?_eq_some_iff.mp hfree).1
  have hother : ∀ entry ∈ m.loraNameIdxMap, entry.1 ≠ name := by
    rintro ⟨other, at'⟩ hmem rfl
    obtain ⟨handle, hat, hmodel⟩ := (h.slots _ _).mp hmem
    rw [h.registered_iff.mpr ⟨_, handle, hat, hmodel⟩] at hname
    cases hname
  have hfilter : m.loraNameIdxMap.filter (·.1 ≠ name) = m.loraNameIdxMap := by
    apply List.filter_eq_self.mpr
    intro entry hmem
    exact decide_eq_true (hother entry hmem)
  -- The slots hold what they held, but for the new one.
  have hset : ∀ (i : Nat) (handle : Handle),
      (m.weightHandlerStore.set idx (some ⟨m.nextAddress, idx, name⟩))[i]? = some (some handle) ↔
        i = idx ∧ handle = ⟨m.nextAddress, idx, name⟩ ∨
          m.weightHandlerStore[i]? = some (some handle) := by
    intro i handle
    rw [List.getElem?_set]
    by_cases hi : idx = i
    · subst hi
      rw [if_pos rfl, if_pos hlt, hfree]
      simp [eq_comm]
    · rw [if_neg hi]
      simp [Ne.symm hi]
  have hold : ∀ (i : Nat) (handle : Handle), m.weightHandlerStore[i]? = some (some handle) →
      handle ≠ ⟨m.nextAddress, idx, name⟩ := by
    rintro i handle hat rfl
    exact absurd (h.live i _ hat) (lt_irrefl _)
  rw [hfilter]
  constructor
  · exact List.length_set.trans h.size
  · rw [List.map_append, List.nodup_append]
    refine ⟨h.nodup, List.nodup_singleton _, ?_⟩
    intro a ha b hb
    obtain ⟨entry, hmem, rfl⟩ := List.mem_map.mp ha
    rw [List.mem_singleton.mp hb]
    exact hother entry hmem
  · intro other i
    rw [List.mem_append, h.slots, List.mem_singleton]
    constructor
    · rintro (⟨handle, hat, hmodel⟩ | heq)
      · exact ⟨handle, (hset i handle).mpr (.inr hat), hmodel⟩
      · cases heq
        exact ⟨_, (hset idx _).mpr (.inl ⟨rfl, rfl⟩), rfl⟩
    · rintro ⟨handle, hat, hmodel⟩
      obtain ⟨rfl, rfl⟩ | hat := (hset i handle).mp hat
      · cases hmodel
        exact .inr rfl
      · exact .inl ⟨handle, hat, hmodel⟩
  · intro i handle hat
    obtain ⟨rfl, rfl⟩ | hat := (hset i handle).mp hat
    · rfl
    · exact h.ids i handle hat
  · intro i handle hat
    obtain ⟨rfl, rfl⟩ | hat := (hset i handle).mp hat
    · exact Nat.lt_succ_self _
    · exact (h.live i handle hat).trans (Nat.lt_succ_self _)
  · intro i handle hat
    obtain ⟨rfl, rfl⟩ | hat := (hset i handle).mp hat
    · exact ⟨weights, tensors, Function.update_self .., hrank⟩
    · obtain ⟨weights', tensors', hstorage, hrank'⟩ := h.stored i handle hat
      exact ⟨weights', tensors',
        (Function.update_of_ne (hold i handle hat) _ _).trans hstorage, hrank'⟩
  · intro handle hfresh
    have hne : handle ≠ ⟨m.nextAddress, idx, name⟩ := by
      rintro rfl
      exact absurd hfresh (Nat.not_succ_le_self _)
    obtain ⟨hstorage, hstatus⟩ := h.fresh handle (Nat.le_of_succ_le hfresh)
    exact ⟨(Function.update_of_ne hne _ _).trans hstorage,
      (Function.update_of_ne hne _ _).trans hstatus⟩

/-- The state after an unload: the slot is empty, the weights are gone. -/
theorem Inv.erase (h : Inv c m) (hat : m.weightHandlerStore[idx]? = some (some handle))
    (hmodel : handle.modelName = name) :
    Inv c { m with
      weightStorage := Function.update m.weightStorage handle none
      weightHandlerStore := m.weightHandlerStore.set idx none
      loraNameIdxMap := m.loraNameIdxMap.filter (·.1 ≠ name) } := by
  have hset : ∀ (i : Nat) (other : Handle), (m.weightHandlerStore.set idx none)[i]? = some (some other) ↔
      i ≠ idx ∧ m.weightHandlerStore[i]? = some (some other) := by
    intro i other
    rw [List.getElem?_set]
    by_cases hi : idx = i
    · subst hi
      simp
    · rw [if_neg hi]
      simp [Ne.symm hi]
  have hne : ∀ (i : Nat) (other : Handle), i ≠ idx → m.weightHandlerStore[i]? = some (some other) →
      other ≠ handle := by
    rintro i other hi hother rfl
    exact hi ((h.ids i _ hother).symm.trans (h.ids idx _ hat))
  constructor
  · exact List.length_set.trans h.size
  · exact h.nodup.sublist (List.filter_sublist.map _)
  · intro other i
    rw [List.mem_filter, h.slots]
    constructor
    · rintro ⟨⟨handle', hat', hmodel'⟩, hother⟩
      refine ⟨handle', (hset i handle').mpr ⟨?_, hat'⟩, hmodel'⟩
      rintro rfl
      rw [hat] at hat'
      cases hat'
      exact of_decide_eq_true hother (hmodel'.symm.trans hmodel)
    · rintro ⟨handle', hset', hmodel'⟩
      obtain ⟨hi, hat'⟩ := (hset i handle').mp hset'
      refine ⟨⟨handle', hat', hmodel'⟩, decide_eq_true ?_⟩
      intro hother
      exact hi (h.slot_unique hat' hat (hmodel'.trans (hother.trans hmodel.symm)))
  · exact fun i other hother => h.ids i other ((hset i other).mp hother).2
  · exact fun i other hother => h.live i other ((hset i other).mp hother).2
  · intro i other hother
    obtain ⟨hi, hother⟩ := (hset i other).mp hother
    obtain ⟨weights, tensors, hstorage, hrank⟩ := h.stored i other hother
    exact ⟨weights, tensors,
      (Function.update_of_ne (hne i other hi hother) _ _).trans hstorage, hrank⟩
  · intro other hfresh
    have hother : other ≠ handle := by
      rintro rfl
      exact absurd (h.live idx _ hat) (not_lt.mpr hfresh)
    exact ⟨(Function.update_of_ne hother _ _).trans (h.fresh other hfresh).1,
      (h.fresh other hfresh).2⟩

section Calls

variable {nameOrPath : List UInt8} {file : Option (List UInt8)}

theorem Inv.register (h : Inv c m) (hlt : m.getNumLoras < m.loraMaxNum) (name : LoraName) :
    ∃ newId, m.weightHandlerStore[newId]? = some none ∧
      m.registerLora name = ({ m with
        weightHandlerStore := m.weightHandlerStore.set newId (some ⟨m.nextAddress, newId, name⟩)
        loraNameIdxMap := m.loraNameIdxMap.filter (·.1 ≠ name) ++ [(name, newId)]
        nextAddress := m.nextAddress + 1 }, .ok ⟨m.nextAddress, newId, name⟩) := by
  obtain ⟨newId, hfind⟩ := h.exists_free hlt
  refine ⟨newId, ?_, ?_⟩
  · obtain ⟨hlen, hnone, -⟩ := List.findIdx?_eq_some_iff_getElem.mp hfind
    rw [List.getElem?_eq_getElem hlen, Option.isNone_iff_eq_none.mp hnone]
  · unfold registerLora
    rw [hfind]

theorem load_full (hfull : m.loraMaxNum ≤ m.getNumLoras) :
    m.loadLoraByName c nameOrPath file =
      (m, .error (.status "ALLSPARK_LORA_NUM_EXCEED_LIMIT_ERROR")) := if_pos hfull

theorem load_existing (hlt : m.getNumLoras < m.loraMaxNum)
    (hname : m.isLoraExists (loraNameOf nameOrPath) = true) :
    m.loadLoraByName c nameOrPath file = (m, .ok ()) := by
  unfold loadLoraByName
  rw [if_neg (not_le.mpr hlt), if_pos hname]

/-- A load that comes to a file it can read. -/
theorem Inv.load_ok (h : Inv c m) (hlt : m.getNumLoras < m.loraMaxNum)
    (hname : m.isLoraExists (loraNameOf nameOrPath) = false) (hfile : c.FileLoads file) :
    (m.loadLoraByName c nameOrPath file).2 = .ok () ∧
      Inv c (m.loadLoraByName c nameOrPath file).1 := by
  obtain ⟨newId, hfree, hregister⟩ := h.register hlt (loraNameOf nameOrPath)
  obtain ⟨r, hr⟩ := loadFile_iff.mpr hfile
  have hstatus := (h.fresh ⟨m.nextAddress, newId, loraNameOf nameOrPath⟩ le_rfl).2
  unfold loadLoraByName
  rw [if_neg (not_le.mpr hlt), hname, if_neg Bool.false_ne_true, hregister]
  simp only [setSwapConfig, loadWeightForModel, getSwapStatus, hstatus, hr, Option.getD_none,
    reduceCtorEq, if_false, true_and]
  exact h.insert hfree hname (Function.update_self ..)

/-- A load that cannot read its file leaves the name registered, for a rollback
has to find weights. -/
theorem Inv.load_error (h : Inv c m) (hlt : m.getNumLoras < m.loraMaxNum)
    (hname : m.isLoraExists (loraNameOf nameOrPath) = false) (hfile : ¬c.FileLoads file) :
    (∃ e, (m.loadLoraByName c nameOrPath file).2 = .error e) ∧
      (m.loadLoraByName c nameOrPath file).1.isLoraExists (loraNameOf nameOrPath) = true := by
  obtain ⟨newId, hfree, hregister⟩ := h.register hlt (loraNameOf nameOrPath)
  obtain ⟨hstorage, hstatus⟩ := h.fresh ⟨m.nextAddress, newId, loraNameOf nameOrPath⟩ le_rfl
  have hlen : newId < m.weightHandlerStore.length := (List.getElem?_eq_some_iff.mp hfree).1
  have hlookup := lookup_registered m.loraNameIdxMap (loraNameOf nameOrPath) newId
  obtain ⟨e, he⟩ : ∃ e, c.loadFile file = .error e := by
    cases hr : c.loadFile file with
    | ok r => exact absurd (loadFile_iff.mp ⟨r, hr⟩) hfile
    | error e => exact ⟨e, rfl⟩
  unfold loadLoraByName
  rw [if_neg (not_le.mpr hlt), hname, if_neg Bool.false_ne_true, hregister]
  simp only [setSwapConfig, loadWeightForModel, getSwapStatus, hstatus, he, Option.getD_none,
    reduceCtorEq, if_false]
  cases e with
  | status code =>
      -- The rollback stops at the storage, which has no entry yet.
      simp only [unRegisterLora, isLoraExists, hlookup, List.getElem?_set_self hlen, hstorage,
        Option.isNone_none, if_true, Option.isSome_some]
      exact ⟨⟨_, rfl⟩, trivial⟩
  | splitter _ | exception _ | undefinedBehaviour =>
      simp only [isLoraExists, hlookup, Option.isSome_some]
      exact ⟨⟨_, rfl⟩, trivial⟩

theorem Inv.unload (h : Inv c m) (name : LoraName) :
    (m.unloadLoraByName name).2 = .ok () ∧ Inv c (m.unloadLoraByName name).1 := by
  unfold unloadLoraByName
  cases hname : m.isLoraExists name with
  | false =>
      rw [if_neg Bool.false_ne_true]
      exact ⟨rfl, h⟩
  | true =>
      obtain ⟨idx, handle, hat, hmodel⟩ := h.registered_iff.mp hname
      obtain ⟨weights, tensors, hstorage, -⟩ := h.stored idx handle hat
      have hlookup := h.lookup_iff.mpr ⟨handle, hat, hmodel⟩
      simp only [unRegisterLora, hlookup, hat, hstorage, Option.isNone_some, Bool.false_eq_true,
        if_true, if_false, true_and]
      exact h.erase hat hmodel

/-- A call that meets the condition keeps the invariant. -/
theorem Inv.call (h : Inv c m) {action : SlotCall} (hmeets : m.Meets c action) :
    Inv c (m.call c action).1 := by
  cases action with
  | load nameOrPath file =>
      change Inv c (m.loadLoraByName c nameOrPath file).1
      by_cases hfull : m.loraMaxNum ≤ m.getNumLoras
      · rw [load_full hfull]
        exact h
      · have hlt := not_le.mp hfull
        cases hname : m.isLoraExists (loraNameOf nameOrPath) with
        | true =>
            rw [load_existing hlt hname]
            exact h
        | false => exact (h.load_ok hlt hname (hmeets hlt hname)).2
  | unload name => exact (h.unload name).2

/-- A load is atomic exactly if it can read the file it comes to. -/
theorem Inv.atomicLoad_iff (h : Inv c m) :
    m.AtomicLoad c nameOrPath file ↔ m.ReadsFile c nameOrPath file := by
  constructor
  · intro hatomic hlt hname
    by_contra hfile
    obtain ⟨⟨e, he⟩, hexists⟩ := h.load_error hlt hname hfile
    unfold isLoraExists at hexists hname
    rw [(hatomic e he).1.names, hname] at hexists
    cases hexists
  · intro hreads e he
    by_cases hfull : m.loraMaxNum ≤ m.getNumLoras
    · rw [load_full hfull]
      exact ⟨⟨rfl, rfl, rfl⟩, fun again => rfl⟩
    · have hlt := not_le.mp hfull
      cases hname : m.isLoraExists (loraNameOf nameOrPath) with
      | true =>
          rw [load_existing hlt hname] at he
          cases he
      | false =>
          rw [(h.load_ok hlt hname (hreads hlt hname)).1] at he
          cases he

end Calls

theorem Reaches.inv (h : Reaches c m) : Inv c m := by
  induction h with
  | create loraMaxNum => exact inv_create loraMaxNum
  | call action _ hmeets ih => exact ih.call hmeets

end SlotManager

/-- While the loads that come to their file can read it, names and slots
correspond and every name has its weights; and a load that comes to a file is
atomic exactly if it can read it. -/
theorem loraSlots_iff {c : LoraLoad} {m : SlotManager} (h : m.Reaches c) :
    m.Consistent c ∧ ∀ nameOrPath file,
      m.AtomicLoad c nameOrPath file ↔ m.ReadsFile c nameOrPath file :=
  ⟨h.inv.consistent, fun _ _ => h.inv.atomicLoad_iff⟩

/-- A single rank that infers in half precision, with the rank limited to 64. -/
def singleLora : LoraLoad := ⟨singleRank, .float16, 64⟩

/-- A file without tensors. -/
def emptyLora : List UInt8 := [0x50, 0x4b, 0, 0, 0, 0]

theorem emptyLora_loads : singleLora.FileLoads (some emptyLora) :=
  ⟨emptyLora, rfl, .stop (by decide)⟩

def filledSlot : SlotManager :=
  ((SlotManager.create 5).call singleLora (.load [0x61] (some emptyLora))).1

theorem loraSlots_iff_filledSlot :
    filledSlot.isLoraExists [0x61] = true ∧ filledSlot.Consistent singleLora ∧
      ∀ nameOrPath file, filledSlot.AtomicLoad singleLora nameOrPath file ↔
        filledSlot.ReadsFile singleLora nameOrPath file :=
  ⟨by decide, loraSlots_iff (.call _ (.create 5) fun _ _ => emptyLora_loads)⟩

/-- The state after a load of a file that is cut off. -/
def lostSlot : SlotManager :=
  ((SlotManager.create 5).call singleLora (.load [0x61] (some []))).1

theorem cut_file_keeps_slot :
    ((SlotManager.create 5).call singleLora (.load [0x61] (some []))).2 =
        .error (.exception "invalid weight file: no header") ∧
      lostSlot.isLoraExists [0x61] = true ∧ ¬lostSlot.Consistent singleLora ∧
      ¬(SlotManager.create 5).AtomicLoad singleLora [0x61] (some []) := by
  have hregistered : lostSlot.isLoraExists [0x61] = true := by decide
  refine ⟨rfl, hregistered, ?_, ?_⟩
  · intro h
    obtain ⟨handle, weights, tensors, hat, hmodel, hstorage, -⟩ := h.stored [0x61] hregistered
    cases hat
    cases hstorage
  · intro h
    have hnames : lostSlot.loraNameIdxMap = [] := (h _ rfl).1.names
    cases hnames

end DashInfer.Lora
