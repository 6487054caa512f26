import DashInfer.Vision.Resize
import DashInfer.Vision.Vit

/-!
Preprocessing of the media of a request for QWEN2-VL: which frames are taken
from the images and videos behind the URLs, and the grid they are resized to.
What a URL yields is a parameter.
-/

namespace DashInfer.Vision

variable {F : Type}

structure Video (F : Type) where
  frames : List F
  fps : ℚ

/-- What the URLs stand for, and `transforms.functional.resize`, after which a
frame has the size that was asked for. -/
structure World (F : Type) where
  size : F → Nat × Nat
  fetchImage : String → Option F
  readVideo : String → Option (Video F)
  fit : F → Nat × Nat → F
  size_fit : ∀ frame size', size (fit frame size') = size'

inductive MediaType where
  | image
  | video
  | audio
deriving DecidableEq, Repr

inductive MediaUrl where
  | one (url : String)
  | list (urls : List String)
deriving DecidableEq, Repr

/-- An entry of `preprocess_req`. -/
structure MediaItem where
  type : MediaType
  url : MediaUrl
  fps : Option ℚ
  minPixels : Option ℚ
  maxPixels : Option ℚ

/-- `check_valid_config_input` of one entry. -/
def checkValidConfig (item : MediaItem) : Except String Unit :=
  match item.type with
  | .audio => .ok ()
  | .image =>
      if item.minPixels.isNone ∨ item.maxPixels.isNone then
        .error "mix_pixels or max_pixels should be set in QWEN2-VL"
      else .ok ()
  | .video =>
      if item.minPixels.isNone ∨ item.maxPixels.isNone then
        .error "mix_pixels or max_pixels should be set in QWEN2-VL"
      else
        match item.url with
        | .one _ => if item.fps.isNone then .error "video is str, fps should be set" else .ok ()
        | .list _ => .ok ()

/-- The frames that are taken, each a list for one tensor, and the bounds they
are resized in. -/
structure Selection (F : Type) where
  chunks : List (List F)
  minPixels : ℚ
  maxPixels : ℚ

/-- The number of frames `fetch_video_by_torchvision` takes. -/
def sampleCount (video : Video F) (fps : ℚ) : ℤ :=
  min (pyRound (video.frames.length / video.fps * fps / 2) * 2) 768

/-- `fetch_video_by_torchvision`: frames at equal distances. -/
def sampleFrames (video : Video F) (fps : ℚ) : Option (List F) :=
  if video.fps = 0 ∨ sampleCount video fps < 0 then none
  else (List.range (sampleCount video fps).toNat).mapM (fun k =>
    video.frames[(pyRound (k * (video.frames.length - 1 : ℚ) /
      (sampleCount video fps - 1 : ℚ))).toNat]?)

/-- The upper bound for a video of so many frames. -/
def videoMaxPixels (frames : Nat) : ℚ := 784 * min 768 (30720 / frames * 2)

/-- `get_vision_info` up to the resizing, for a video behind one URL. -/
def selectVideo (world : World F) (url : String) (fps minPixels : ℚ) : Option (Selection F) := do
  let video ← world.readVideo url
  let frames ← sampleFrames video fps
  if frames.length < 2 then none
  else
    let maxPixels := videoMaxPixels frames.length
    return { chunks := [frames], minPixels := min minPixels maxPixels, maxPixels }

/-- `batch_get_video_image_list` appends the last URL to an odd list. -/
def padUrls (urls : List String) : List String :=
  if urls.length % 2 = 0 then urls else urls ++ urls.getLast?.toList

def pairUp {α : Type} : List α → List (α × α)
  | a :: b :: rest => (a, b) :: pairUp rest
  | _ => []

/-- `get_video_image_list` up to the resizing: both images in the size that is
given, or else in that of the first one. -/
def selectPair (world : World F) (size : Option (Nat × Nat)) (urls : String × String) :
    Option (List F) := do
  let first ← world.fetchImage urls.1
  let second ← world.fetchImage urls.2
  let size := size.getD (world.size first)
  let fit := fun frame => if world.size frame = size then frame else world.fit frame size
  return [fit first, fit second]

/-- `batch_get_video_image_list`. A pair the preprocess cache has from where it
was a first one (`warm`) comes in its own size, the others in that of the first
image. -/
def selectList (world : World F) (warm : String × String → Bool) (urls : List String) :
    Option (List (List F)) :=
  match pairUp ((padUrls urls).take 768) with
  | [] => none
  | pair :: rest => do
      let first ← selectPair world none pair
      let size ← first.head?.map world.size
      let more ← rest.mapM (fun pair =>
        selectPair world (if warm pair then none else some size) pair)
      return first :: more

/-- The frames of an entry; audio has none. -/
def select (world : World F) (warm : String × String → Bool) (item : MediaItem) :
    Option (Selection F) := do
  let minPixels ← item.minPixels
  let maxPixels ← item.maxPixels
  match item.type, item.url with
  | .image, .one url => do
      let image ← world.fetchImage url
      return { chunks := [[image, image]], minPixels, maxPixels }
  | .video, .one url => do
      let fps ← item.fps
      selectVideo world url fps minPixels
  | .video, .list urls => do
      let chunks ← selectList world warm urls
      return { chunks, minPixels, maxPixels }
  | _, _ => none

/-- What the vision tower is given: the frames, and the grid they are cut in
once they are resized. -/
structure Prepared (F : Type) where
  frames : List F
  gridT : Nat
  gridH : Nat
  gridW : Nat
deriving DecidableEq

/-- The resizing of one tensor, by the size of its frames. -/
def resizeChunk (world : World F) (minPixels maxPixels : ℚ) (frames : List F) :
    Option (Prepared F) := do
  let (height, width) ← frames.head?.map world.size
  match smartResize height width minPixels maxPixels with
  | .error _ => none
  | .ok (resizedHeight, resizedWidth) => return {
      frames
      gridT := frames.length / 2
      gridH := resizedHeight / 14
      gridW := resizedWidth / 14 }

/-- Preprocessing of one entry, once it has been checked. -/
def prepare (world : World F) (warm : String × String → Bool) (item : MediaItem) :
    Option (List (Prepared F)) :=
  match checkValidConfig item with
  | .error _ => none
  | .ok _ => do
      let selection ← select world warm item
      selection.chunks.mapM (resizeChunk world selection.minPixels selection.maxPixels)

/-- The grid is one the tower takes. -/
def Prepared.Valid (prepared : Prepared F) : Prop :=
  (normalizeVisionGrid (some [(prepared.gridT : Int), prepared.gridH, prepared.gridW])).toBool

instance (prepared : Prepared F) : Decidable prepared.Valid :=
  inferInstanceAs (Decidable (Except.toBool _ = true))

/-- `vision_token_count`. -/
def Prepared.tokenCount (prepared : Prepared F) : Nat :=
  prepared.gridT * (prepared.gridH / 2) * (prepared.gridW / 2)

theorem Prepared.Valid.pos {prepared : Prepared F} (h : prepared.Valid) :
    0 < prepared.gridT ∧ 0 < prepared.gridH ∧ 0 < prepared.gridW := by
  unfold Prepared.Valid normalizeVisionGrid at h
  simp only at h
  split at h
  · cases h
  · split at h
    · cases h
    · split at h
      · cases h
      · omega

section Resized

variable {world : World F} {minPixels maxPixels : ℚ} {frames : List F}
  {prepared : Prepared F}

theorem resizeChunk_eq_some :
    resizeChunk world minPixels maxPixels frames = some prepared ↔
      ∃ height width resizedHeight resizedWidth,
        frames.head?.map world.size = some (height, width) ∧
        smartResize height width minPixels maxPixels = .ok (resizedHeight, resizedWidth) ∧
        prepared = {
          frames
          gridT := frames.length / 2
          gridH := resizedHeight / 14
          gridW := resizedWidth / 14 } := by
  unfold resizeChunk
  constructor
  · intro h
    obtain ⟨⟨height, width⟩, hsize, h⟩ := Option.bind_eq_some_iff.mp h
    simp only at h
    split at h
    · cases h
    · next resizedHeight resizedWidth hok =>
        exact ⟨height, width, resizedHeight, resizedWidth, hsize, hok, (Option.some.inj h).symm⟩
  · rintro ⟨height, width, resizedHeight, resizedWidth, hsize, hok, rfl⟩
    rw [hsize]
    simp [hok]

theorem frames_of_resizeChunk (h : resizeChunk world minPixels maxPixels frames = some prepared) :
    prepared.frames = frames := by
  obtain ⟨_, _, _, _, _, _, rfl⟩ := resizeChunk_eq_some.mp h
  rfl

end Resized

end DashInfer.Vision
