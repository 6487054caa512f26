import Mathlib.Data.List.Basic
import Mathlib.Data.List.Nodup

/-!
The result of the vision tower on one image, the group of results of a request,
and `HieWokerImpl.process_request`. Tensors and embeddings stay abstract: the
tower is a parameter, and so is whether a call of it raises.
-/

namespace DashInfer.Vision

/-- `VLStatusCode`. -/
inductive VLStatusCode where
  | success
  | requestError
  | fileError
  | imageFormatError
  | vitNumsMismatchError
  | inputFormatError
  | visionDecodeError
  | inputTokensError
  | otherError
deriving DecidableEq, Repr

/-- `[t, h, w]`. -/
structure Grid where
  t : Int
  h : Int
  w : Int
deriving DecidableEq, Repr

/-- `normalize_vision_grid`; the merge size is 2. -/
def normalizeVisionGrid (grid : Option (List Int)) : Except String Grid :=
  match grid with
  | none => .error "grid_thw is required"
  | some [t, h, w] =>
      if t ≤ 0 then .error "grid_t must be a positive integer"
      else if h ≤ 0 then .error "grid_h must be a positive integer"
      else if w ≤ 0 then .error "grid_w must be a positive integer"
      else if h % 2 ≠ 0 ∨ w % 2 ≠ 0 then
        .error "grid height and width must be divisible by spatial_merge_size"
      else .ok { t, h, w }
  | some _ => .error "grid_thw must contain [t, h, w]"

variable {T E : Type}

/-- What may stand for an image: the kinds `process_request` tells apart. -/
inductive VitInput (T : Type) where
  | url (url : String)
  | tensor (image : T)
  | ndarray (image : T)
  | other
deriving DecidableEq, Repr

/-- One image of a request on its way to a worker. A negative `vitId` tells the
worker to exit. -/
structure VitRequest (T : Type) where
  requestId : Int
  vitId : Int
  vitInput : VitInput T
  vitGridThw : Option (List Int)
  startTime : Nat
deriving DecidableEq, Repr

/-- The request an image belongs to and its place there. -/
def VitRequest.key (task : VitRequest T) : Int × Int := (task.requestId, task.vitId)

structure Vit (E : Type) where
  requestId : Int
  vitId : Int
  status : VLStatusCode
  vitEmbs : Option E
  vitGridThw : Option (List Int)
  fromCache : Bool
deriving DecidableEq, Repr

def Vit.key (vit : Vit E) : Int × Int := (vit.requestId, vit.vitId)

/-- A result without an embedding. -/
def Vit.failed (task : VitRequest T) (status : VLStatusCode) : Vit E :=
  { requestId := task.requestId, vitId := task.vitId, status, vitEmbs := none,
    vitGridThw := none, fromCache := false }

/-- The part of `process_request` an image in memory takes: the check of the
grid, then the tower. -/
def forwardImage (visual : T → Grid → E) (raises : Bool) (task : VitRequest T) (image : T) :
    Option (Vit E) :=
  match normalizeVisionGrid task.vitGridThw with
  | .error _ => some (Vit.failed task .imageFormatError)
  | .ok grid =>
      if raises then none
      else some {
        requestId := task.requestId
        vitId := task.vitId
        status := .success
        vitEmbs := some (visual image grid)
        vitGridThw := some [grid.t, grid.h, grid.w]
        fromCache := false }

/-- `process_request` for QWEN2-VL, the one model a worker runs; `none` is an
exception, which only the tower throws. -/
def processRequest (visual : T → Grid → E) (raises : Bool) (task : VitRequest T) :
    Option (Vit E) :=
  match task.vitInput with
  | .url _ => some (Vit.failed task .imageFormatError)
  | .tensor image => forwardImage visual raises task image
  | .ndarray image => forwardImage visual raises task image
  | .other => some (Vit.failed task .imageFormatError)

section

variable {visual : T → Grid → E} {raises : Bool} {task : VitRequest T} {vit : Vit E}

theorem key_of_forwardImage {image : T} (h : forwardImage visual raises task image = some vit) :
    vit.key = task.key := by
  unfold forwardImage at h
  split at h
  · cases h
    rfl
  · split at h
    · cases h
    · cases h
      rfl

/-- A result carries the ids of its task. -/
theorem key_of_processRequest (h : processRequest visual raises task = some vit) :
    vit.key = task.key := by
  unfold processRequest at h
  split at h
  · cases h
    rfl
  · exact key_of_forwardImage h
  · exact key_of_forwardImage h
  · cases h
    rfl

/-- What a task yields does not depend on the call that yields it. -/
theorem processRequest_false (h : processRequest visual raises task = some vit) :
    processRequest visual false task = some vit := by
  cases raises with
  | false => exact h
  | true =>
      revert h
      unfold processRequest forwardImage
      cases task.vitInput <;> simp only <;>
        cases normalizeVisionGrid task.vitGridThw <;> simp

end

/-- `add_vit` on the values of `vits_dict`: a known id keeps its place. -/
def addVit (vits : List (Vit E)) (vit : Vit E) : List (Vit E) :=
  if vit.vitId ∈ vits.map (·.vitId) then
    vits.map (fun old => if old.vitId = vit.vitId then vit else old)
  else vits ++ [vit]

theorem addVit_of_new {vits : List (Vit E)} {vit : Vit E}
    (h : vit.vitId ∉ vits.map (·.vitId)) : addVit vits vit = vits ++ [vit] := by
  unfold addVit
  simp only [h, if_false]

theorem map_vitId_addVit (vits : List (Vit E)) (vit : Vit E) :
    (addVit vits vit).map (·.vitId) =
      if vit.vitId ∈ vits.map (·.vitId) then vits.map (·.vitId)
      else vits.map (·.vitId) ++ [vit.vitId] := by
  unfold addVit
  split
  · rw [List.map_map]
    apply List.map_congr_left
    intro old _
    simp only [Function.comp_apply]
    split
    · next heq => exact heq.symm
    · rfl
  · simp

/-- The results of a request, in the order in which their ids first came. -/
structure VitGroup (E : Type) where
  requestId : Int
  vits : List (Vit E)
  distinct : (vits.map (·.vitId)).Nodup

namespace VitGroup

def empty (requestId : Int) : VitGroup E :=
  { requestId, vits := [], distinct := List.nodup_nil }

def addVit (group : VitGroup E) (vit : Vit E) : VitGroup E where
  requestId := group.requestId
  vits := Vision.addVit group.vits vit
  distinct := by
    rw [map_vitId_addVit]
    split
    · exact group.distinct
    · next hnew =>
        rw [List.nodup_append]
        refine ⟨group.distinct, List.nodup_singleton _, ?_⟩
        intro a ha b hb heq
        rw [List.mem_singleton] at hb
        exact hnew (hb ▸ heq ▸ ha)

/-- `group[vitId]`; a missing id is a `KeyError`. -/
def get? (group : VitGroup E) (vitId : Int) : Option (Vit E) :=
  group.vits.find? (fun vit => vit.vitId = vitId)

end VitGroup

end DashInfer.Vision
