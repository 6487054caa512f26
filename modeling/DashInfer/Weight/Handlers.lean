import Mathlib

/-!
The handlers of a `WeightManagerImpl`. A new handler takes the number of the handlers
that are left as its id, and the model IRs are kept by id.
-/

namespace DashInfer.Weight.Handlers

variable {Model Rank Tensors : Type}

/-- A `shared_ptr<ModelWeightHandler>`: the object, its id and the IR it was registered
with. -/
structure Handler (Model : Type) where
  address : Nat
  id : Nat
  modelIr : Model
deriving DecidableEq, Repr

structure WeightManagerImpl (Model Rank Tensors : Type) where
  weightHandlerStore : List (Handler Model)
  protoStore : Nat → Option Model
  /-- By the address of the handler. -/
  weightStorage : Nat → Option (Rank → Option Tensors)
  /-- The address of the next handler. The maps keep theirs alive, so no later one has it. -/
  nextAddress : Nat

namespace WeightManagerImpl

def create : WeightManagerImpl Model Rank Tensors where
  weightHandlerStore := []
  protoStore := fun _ => none
  weightStorage := fun _ => none
  nextAddress := 0

def registerModel (modelIr : Model) (s : WeightManagerImpl Model Rank Tensors) :
    WeightManagerImpl Model Rank Tensors :=
  let newId := s.weightHandlerStore.length
  { s with
    weightHandlerStore := s.weightHandlerStore ++ [⟨s.nextAddress, newId, modelIr⟩]
    protoStore := Function.update s.protoStore newId (some modelIr)
    nextAddress := s.nextAddress + 1 }

/-- `LoadWeightForModel`. Where the file cannot be read it returns or throws before it
takes the lock, and changes nothing. -/
def loadWeightForModel [DecidableEq Rank] (handler : Nat) (rank : Rank) (file : Option Tensors)
    (s : WeightManagerImpl Model Rank Tensors) : WeightManagerImpl Model Rank Tensors :=
  match file with
  | none => s
  | some tensors =>
      { s with
        weightStorage := Function.update s.weightStorage handler
          (some (Function.update ((s.weightStorage handler).getD fun _ => none) rank
            (some tensors))) }

def freeWeight (handler : Nat) (s : WeightManagerImpl Model Rank Tensors) :
    WeightManagerImpl Model Rank Tensors :=
  if (s.weightStorage handler).isSome = true then
    { s with
      weightStorage := Function.update s.weightStorage handler none
      weightHandlerStore := s.weightHandlerStore.filter fun h => h.address ≠ handler }
  else s

/-- The IR whose metadata `CheckModelConsistency` compares a model's file with. -/
def checkedIr (handler : Handler Model) (s : WeightManagerImpl Model Rank Tensors) :
    Option Model :=
  s.protoStore handler.id

end WeightManagerImpl

open WeightManagerImpl

/-- The ids of the handlers differ, and the IR kept under an id is that of its handler. -/
structure UniqueIds (s : WeightManagerImpl Model Rank Tensors) : Prop where
  distinct : (s.weightHandlerStore.map fun h => h.id).Nodup
  own : ∀ h ∈ s.weightHandlerStore, s.checkedIr h = some h.modelIr

/-- No handler that is left has the id the next one takes. -/
def NextIdFree (s : WeightManagerImpl Model Rank Tensors) : Prop :=
  ∀ h ∈ s.weightHandlerStore, h.id ≠ s.weightHandlerStore.length

theorem uniqueIds_create : UniqueIds (create : WeightManagerImpl Model Rank Tensors) := by
  constructor
  · exact List.nodup_nil
  · intro h hmem
    cases hmem

theorem UniqueIds.registerModel {s : WeightManagerImpl Model Rank Tensors} (h : UniqueIds s)
    (hfree : NextIdFree s) (modelIr : Model) : UniqueIds (s.registerModel modelIr) := by
  constructor
  · dsimp only [WeightManagerImpl.registerModel]
    rw [List.map_append, List.nodup_append]
    refine ⟨h.distinct, List.nodup_singleton _, ?_⟩
    intro a ha b hb
    obtain ⟨handler, hhandler, rfl⟩ := List.mem_map.mp ha
    rw [List.map_singleton, List.mem_singleton] at hb
    rw [hb]
    exact hfree handler hhandler
  · intro handler hhandler
    dsimp only [WeightManagerImpl.registerModel] at hhandler
    dsimp only [checkedIr, WeightManagerImpl.registerModel]
    rcases List.mem_append.mp hhandler with hold | hnew
    · rw [Function.update_of_ne (hfree handler hold)]
      exact h.own handler hold
    · rw [List.mem_singleton.mp hnew, Function.update_self]

/-- A handler with the next id is still there when the next one takes it. -/
theorem not_uniqueIds_registerModel {s : WeightManagerImpl Model Rank Tensors}
    (hfree : ¬ NextIdFree s) (modelIr : Model) : ¬ UniqueIds (s.registerModel modelIr) := by
  intro h
  apply hfree
  intro handler hhandler heq
  have hdistinct := h.distinct
  dsimp only [WeightManagerImpl.registerModel] at hdistinct
  rw [List.map_append, List.nodup_append] at hdistinct
  exact hdistinct.2.2 _ (List.mem_map_of_mem hhandler) _ (List.mem_singleton_self _) heq

theorem UniqueIds.loadWeightForModel [DecidableEq Rank]
    {s : WeightManagerImpl Model Rank Tensors} (h : UniqueIds s) (handler : Nat) (rank : Rank) (file : Option Tensors) :
    UniqueIds (s.loadWeightForModel handler rank file) := by
  cases file with
  | none => exact h
  | some tensors => exact ⟨h.distinct, h.own⟩

theorem UniqueIds.freeWeight {s : WeightManagerImpl Model Rank Tensors} (h : UniqueIds s)
    (handler : Nat) : UniqueIds (s.freeWeight handler) := by
  unfold WeightManagerImpl.freeWeight
  split
  · constructor
    · exact h.distinct.sublist (List.filter_sublist.map _)
    · intro other hother
      exact h.own other (List.mem_of_mem_filter hother)
  · exact h

/-- The calls. Each takes effect under the lock of the manager. -/
inductive Call (Model Rank Tensors : Type)
  | registerModel (modelIr : Model)
  | loadWeightForModel (handler : Nat) (rank : Rank) (file : Option Tensors)
  | freeWeight (handler : Nat)

section Runs

variable [DecidableEq Rank]

def step (s : WeightManagerImpl Model Rank Tensors) :
    Call Model Rank Tensors → WeightManagerImpl Model Rank Tensors
  | .registerModel modelIr => s.registerModel modelIr
  | .loadWeightForModel handler rank file => s.loadWeightForModel handler rank file
  | .freeWeight handler => s.freeWeight handler

def run (calls : List (Call Model Rank Tensors)) : WeightManagerImpl Model Rank Tensors :=
  calls.foldl step create

/-- One call keeps the ids apart, unless it registers a model under an id in use. -/
theorem UniqueIds.step {s : WeightManagerImpl Model Rank Tensors} (h : UniqueIds s)
    (call : Call Model Rank Tensors)
    (hfree : ∀ modelIr, call = .registerModel modelIr → NextIdFree s) : UniqueIds (step s call) := by
  cases call with
  | registerModel modelIr => exact h.registerModel (hfree modelIr rfl) modelIr
  | loadWeightForModel handler rank file => exact h.loadWeightForModel handler rank file
  | freeWeight handler => exact h.freeWeight handler

theorem run_concat (calls : List (Call Model Rank Tensors)) (call : Call Model Rank Tensors) :
    run (calls ++ [call]) = step (run calls) call := by
  simp [run, List.foldl_append]

/-- Along a whole sequence of calls the ids are unique and keep their IRs just where
every model is registered while no handler has the id that the count gives it. -/
theorem run_uniqueIds_iff (calls : List (Call Model Rank Tensors)) :
    (∀ done, done <+: calls → UniqueIds (run done)) ↔
      ∀ done modelIr, done ++ [.registerModel modelIr] <+: calls → NextIdFree (run done) := by
  constructor
  · intro h done modelIr hdone
    by_contra hfree
    have hunique := h _ hdone
    rw [run_concat] at hunique
    exact not_uniqueIds_registerModel hfree modelIr hunique
  · intro h done
    induction done using List.reverseRecOn with
    | nil =>
        intro _
        exact uniqueIds_create
    | append_singleton done call ih =>
        intro hdone
        rw [run_concat]
        apply (ih ((List.prefix_append done [call]).trans hdone)).step
        rintro modelIr rfl
        exact h done modelIr hdone

/-- Two models, the first loaded and freed, and a third: it takes the id of the second. -/
theorem freed_first_repeats_id :
    ¬ ∀ done, done <+: ([.registerModel 10, .registerModel 20, .loadWeightForModel 0 0 (some ()),
        .freeWeight 0, .registerModel 30] : List (Call Nat Nat Unit)) → UniqueIds (run done) := by
  intro h
  have hdistinct := (h _ List.prefix_rfl).distinct
  exact absurd hdistinct (by decide)

end Runs

end DashInfer.Weight.Handlers
