import DashInfer.Lib.Lru
import DashInfer.Vision.NewRequest
import DashInfer.Vision.Request

/-!
From the preprocessed media of a request to the results that `get_as_request` is
handed. The embeddings the vision tower makes go to the local cache, which all
requests share, and `merge_vit_results` takes them out of it again.
-/

namespace DashInfer.Vision

open Lib (Lru)

variable {T α : Type} {capacity : Nat}

/-! ## Grids and embeddings -/

/-- What `normalize_vision_grid` takes. -/
def Grid.Normal (grid : Grid) : Prop :=
  0 < grid.t ∧ 0 < grid.h ∧ 0 < grid.w ∧ grid.h % 2 = 0 ∧ grid.w % 2 = 0

instance (grid : Grid) : Decidable grid.Normal := inferInstanceAs (Decidable (_ ∧ _))

def Grid.list (grid : Grid) : List Int := [grid.t, grid.h, grid.w]

/-- `get_vit_seq_len`: a row for every four patches. -/
def Grid.rows (grid : Grid) : Nat := (grid.t * grid.h * grid.w / 4).toNat

def normalGrid (gridThw : List Int) : Option { grid : Grid // grid.Normal } :=
  match gridThw with
  | [t, h, w] =>
      if hnormal : Grid.Normal { t, h, w } then some ⟨{ t, h, w }, hnormal⟩ else none
  | _ => none

/-- The vision tower, which makes a row of every four patches. -/
structure VisionTower (T α : Type) where
  visual : T → Grid → Tensor α
  length_visual : ∀ image grid, grid.Normal → (visual image grid).length = grid.rows

/-- What `insert_vit_cache` puts into the local cache: an embedding the tower made
on some grid. -/
structure CachedVit (α : Type) where
  tensor : Tensor α
  grid : Grid
  normal : grid.Normal
  length_tensor : tensor.length = grid.rows

def CachedVit.entry (vit : CachedVit α) : CacheEntry α := ⟨vit.tensor, some vit.grid.list⟩

/-- The vision tower on one image, in a worker. -/
def VisionTower.forward (tower : VisionTower T α) (raises : Bool) (image : T)
    (gridThw : List Int) : Except VLStatusCode (CachedVit α) :=
  match normalGrid gridThw with
  | none => .error .imageFormatError
  | some grid =>
      if raises then .error .otherError
      else .ok {
        tensor := tower.visual image grid.1
        grid := grid.1
        normal := grid.2
        length_tensor := tower.length_visual image grid.1 grid.2 }

/-! ## Media -/

/-- A preprocessed image or video, or a pair of frames of a video. -/
structure VisionPart (T : Type) where
  isVideo : Bool
  url : String
  image : T
  grid : Grid
  normal : grid.Normal

def VisionPart.preprocessed (part : VisionPart T) : Preprocessed T where
  data := {
    type := if part.isVideo then .video else .image
    url := some part.url
    image := some part.image
    gridThw := some part.grid.list
    feature := none
    mask := none }
  vitLen := part.grid.rows

/-- The preprocessing of an entry: of an image or a video behind one URL, or of the
pairs of a list of frames. -/
inductive VisionItem (T : Type)
  | one (part : VisionPart T)
  | list (first : VisionPart T) (more : List (VisionPart T))

def VisionItem.parts : VisionItem T → List (VisionPart T)
  | .one part => [part]
  | .list first more => first :: more

def VisionItem.preResult : VisionItem T → PreResult T
  | .one part => .one part.preprocessed
  | .list first more => .list ((first :: more).map VisionPart.preprocessed)

/-- A request on the preprocess path, with what its media were preprocessed to. -/
structure MediaPrompt (T : Type) where
  requestId : Int
  inputTokens : Option (List (List Int))
  truncateLengths : Option (List Nat)
  maxInputLength : Int
  media : List (MediaItem × VisionItem T)

def MediaPrompt.items (prompt : MediaPrompt T) : List (VisionItem T) := prompt.media.map Prod.snd

def MediaPrompt.request (prompt : MediaPrompt T) : VLMediaRequest T where
  inputTokens := prompt.inputTokens
  truncateLengths := prompt.truncateLengths
  maxInputLength := prompt.maxInputLength
  preprocessReq := prompt.media.map Prod.fst
  imagesInfo := none
  audiosInfo := none
  keys := []
  mmTypes := []

def MediaPrompt.vlPreResult (prompt : MediaPrompt T) : List (PreResult T) :=
  prompt.items.map VisionItem.preResult

/-! ## The local cache -/

/-- `hashlib.md5`, and the digits of its hex form. -/
structure Md5Hex where
  hexdigest : String → String
  digits : String → List Nat
  length_digits : ∀ text, (digits (hexdigest text)).length = 32

/-- The cache manager over a local cache; nothing here asks redis. -/
def localManager (cache : Lru String (CachedVit α) capacity) : CacheManager α where
  localCache := fun key => (cache.peek key).map CachedVit.entry
  redisValid := false
  redisCache := fun _ => ⟨false, none, none⟩
  retryRedis := false
  retryStartTime := 0
  cacheRetryTime := 0
  redisMaxTime := 0

/-- `get_vit_from_cache`, and the local cache after it. -/
def vitFromCache (md5 : Md5Hex) (cache : Lru String (CachedVit α) capacity)
    (result : Preprocessed T) : Option (CachedVit α) × Lru String (CachedVit α) capacity :=
  let looked := cache.get (md5.hexdigest (result.data.url.getD ""))
  (looked.1.filter (fun vit =>
    vit.entry.fits ⟨some result.data.gridThw, some (some result.vitLen), none⟩), looked.2)

def lookAll (md5 : Md5Hex) (cache : Lru String (CachedVit α) capacity)
    (results : List (Preprocessed T)) : Lru String (CachedVit α) capacity :=
  results.foldl (fun cache result => (vitFromCache md5 cache result).2) cache

/-- The results of the workers, in the order of the images. -/
def towerPass (tower : VisionTower T α) (raises : Nat → Bool) :
    Nat → List T → List (List Int) → Except VLStatusCode (List (CachedVit α))
  | i, image :: images, gridThw :: gridThws =>
      match tower.forward (raises i) image gridThw with
      | .error status => .error status
      | .ok vit => (towerPass tower raises (i + 1) images gridThws).map (vit :: ·)
  | _, _, _ => .ok []

/-- `insert_vit_cache`; `none` where the cache takes no entry. -/
def insertVitCache (md5 : Md5Hex) (cache : Lru String (CachedVit α) capacity)
    (urls : List String) (vits : List (CachedVit α)) :
    Option (Lru String (CachedVit α) capacity) :=
  (List.zip urls vits).foldlM (fun cache vit => cache.insert? (md5.hexdigest vit.1) vit.2) cache

/-- The check of the images, the vision tower, and the check of its results. -/
def vitForward (md5 : Md5Hex) (tower : VisionTower T α) (raises : Nat → Bool)
    (cache : Lru String (CachedVit α) capacity) (imagesInfo : Option (NewImagesInfo T)) :
    Except VLStatusCode (Lru String (CachedVit α) capacity) :=
  match imagesInfo with
  | none => .ok cache
  | some info =>
      if info.images.length < 1 ∨ info.urls.length ≠ info.images.length ∨
          info.gridThw.length ≠ info.images.length then .error .requestError
      else
        match towerPass tower raises 0 info.images info.gridThw with
        | .error status => .error status
        | .ok vits =>
            match insertVitCache md5 cache info.urls vits with
            | none => .error .otherError
            | some cache => .ok cache

/-! ## The merge -/

/-- `torch.cat` of the parts of a video, and the merged grid. -/
def mergeParts (parts : List (Tensor α × Grid)) : Option (Tensor α × Grid) :=
  match parts with
  | [] => none
  | first :: _ => some ((parts.map Prod.fst).flatten,
      { t := parts.length, h := first.2.h, w := first.2.w })

/-- The parts of a video that the cache has; the others are skipped. -/
def findParts (md5 : Md5Hex) (cache : Lru String (CachedVit α) capacity) :
    List (Preprocessed T) → List (Tensor α × Grid) × Lru String (CachedVit α) capacity
  | [] => ([], cache)
  | result :: rest =>
      let looked := vitFromCache md5 cache result
      let more := findParts md5 looked.2 rest
      (looked.1.toList.map (fun vit => (vit.tensor, vit.grid)) ++ more.1, more.2)

/-- The embedding and the grid for an entry, if there is something to make them
of. -/
def mergeItem (md5 : Md5Hex) (cache : Lru String (CachedVit α) capacity) (data : PreResult T) :
    Option (Tensor α × Grid) × Lru String (CachedVit α) capacity :=
  match data with
  | .one result =>
      let looked := vitFromCache md5 cache result
      (looked.1.map (fun vit => (vit.tensor, vit.grid)), looked.2)
  | .list results =>
      let found := findParts md5 cache results
      (mergeParts found.1, found.2)

/-- The loop of `merge_vit_results`. -/
def mergeFrom (md5 : Md5Hex) (i : Nat) (newHieResults : VitGroup (Tensor α))
    (cache : Lru String (CachedVit α) capacity) :
    List (PreResult T) → VitGroup (Tensor α) × Lru String (CachedVit α) capacity
  | [] => (newHieResults, cache)
  | data :: rest =>
      let merged := mergeItem md5 cache data
      match merged.1 with
      | none => mergeFrom md5 (i + 1) newHieResults merged.2 rest
      | some (embs, gridThw) =>
          mergeFrom md5 (i + 1) (newHieResults.addVit {
            requestId := newHieResults.requestId
            vitId := i
            status := .success
            vitEmbs := some embs
            vitGridThw := some gridThw.list
            fromCache := false }) merged.2 rest

def mergeVitResults (md5 : Md5Hex) (requestId : Int) (cache : Lru String (CachedVit α) capacity)
    (vlPreResult : List (PreResult T)) :
    VitGroup (Tensor α) × Lru String (CachedVit α) capacity :=
  mergeFrom md5 0 (VitGroup.empty requestId) cache vlPreResult

/-! ## The request -/

/-- What `get_as_request` is called with, and the media that remained. -/
structure Handed (T α : Type) where
  kept : List (PreResult T)
  request : VLRequest
  hieResults : VitGroup (Tensor α)

/-- `forward` after the preprocessing, up to the call of `get_as_request`. `others`
is what other requests put into the local cache before the merge. -/
def forwardMedia (md5 : Md5Hex) (tower : VisionTower T α) (raises : Nat → Bool)
    (cache : Lru String (CachedVit α) capacity) (others : List (Σ _ : String, CachedVit α))
    (prompt : MediaPrompt T) : Except VLStatusCode (Handed T α) :=
  match truncateInput .qwen2Vl prompt.vlPreResult prompt.request with
  | .error _ => .error .inputTokensError
  | .ok (inputTokens, truncateVisionLens) =>
      if truncateVisionLens > prompt.vlPreResult.length then .error .requestError
      else
        let built := newRequest md5.hexdigest (fun manager _ _ _ => manager) (localManager cache)
          prompt.vlPreResult prompt.request inputTokens truncateVisionLens
        let cache := if truncateVisionLens > 0 then
            lookAll md5 cache (built.1.flatMap PreResult.results)
          else cache
        match vitForward md5 tower raises cache built.2.1.imagesInfo with
        | .error status => .error status
        | .ok cache => .ok {
            kept := built.1
            request := {
              requestId := prompt.requestId
              inputTokens := built.2.1.inputTokens.getD []
              keys := built.2.1.keys.map md5.digits
              mmTypes := built.2.1.mmTypes }
            hieResults :=
              (mergeVitResults md5 prompt.requestId (cache.putAll others) built.1).1 }

/-- `get_as_request` raises an error that ends the request with one: without tokens
it ends with success. -/
def Handed.EndsWithError (maxTotalLen : Nat) (handed : Handed T α) : Prop :=
  handed.request.inputTokens ≠ [] ∧
    ∃ message, getAsRequest List.length maxTotalLen handed.request handed.hieResults =
      .error message

/-- The embedding the tower makes of a part. -/
def VisionTower.embed (tower : VisionTower T α) (result : Preprocessed T) : Option (Tensor α) := do
  let image ← result.data.image
  let grid ← normalGrid (← result.data.gridThw)
  return tower.visual image grid.1

/-- The embeddings of the entry's own parts in order, in as many rows as were
announced. -/
def VisionTower.Whole (tower : VisionTower T α) (data : PreResult T) (vit : Vit (Tensor α)) :
    Prop :=
  ∃ tensors, data.results.mapM tower.embed = some tensors ∧
    vit.vitEmbs = some tensors.flatten ∧ tensors.flatten.length = data.vitLen

def Handed.Complete (tower : VisionTower T α) (handed : Handed T α) : Prop :=
  List.Forall₂ tower.Whole handed.kept handed.hieResults.vits

/-- The request ends with an error, or `get_as_request` is handed the complete
embeddings. -/
def MergesWhole (maxTotalLen : Nat) (tower : VisionTower T α)
    (outcome : Except VLStatusCode (Handed T α)) : Prop :=
  match outcome with
  | .error _ => True
  | .ok handed => handed.EndsWithError maxTotalLen ∨ handed.Complete tower

end DashInfer.Vision
