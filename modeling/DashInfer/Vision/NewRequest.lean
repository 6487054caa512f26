import Mathlib
import DashInfer.Vision.CacheManager
import DashInfer.Vision.Preprocess
import DashInfer.Vision.Truncate

/-!
`build_new_request_from_cache`: the prompt is truncated, and the preprocessed media, the
keys and the types are cut to as many of the last ones as there are vision-start tokens
in what is left. Media that the cache has are not asked of the vision tower again.
-/

namespace DashInfer.Vision

variable {T α : Type}

inductive HieModelType
  | qwen1Vl
  | qwen2Vl
  | other
deriving DecidableEq, Repr

/-- `token_bos`. -/
def tokenBos : HieModelType → Int
  | .qwen1Vl => 151857
  | .qwen2Vl => 151652
  | .other => 151647

/-- What preprocessing tells about an image, a video or an audio. -/
structure MediaData (T : Type) where
  type : MediaType
  url : Option String
  image : Option T
  gridThw : Option (List Int)
  feature : Option T
  mask : Option T
deriving DecidableEq

/-- The data of a tuple of the preprocessing, and `vit_len`. -/
structure Preprocessed (T : Type) where
  data : MediaData T
  vitLen : Nat
deriving DecidableEq

/-- The preprocessing of one entry: a tuple, or a list of them for a video of images. -/
inductive PreResult (T : Type)
  | one (result : Preprocessed T)
  | list (results : List (Preprocessed T))
deriving DecidableEq

def PreResult.results : PreResult T → List (Preprocessed T)
  | .one result => [result]
  | .list results => results

def PreResult.vitLen (pre : PreResult T) : Nat := (pre.results.map (·.vitLen)).sum

/-- The lists that `add_request_info` appends to. -/
structure NewMedia (T : Type) where
  imagesPre : List T
  imagesUrl : List String
  gridThw : List (List Int)
  audioPre : List T
  audioUrl : List String
  audioAttnMask : List T
deriving DecidableEq

def NewMedia.empty : NewMedia T := ⟨[], [], [], [], [], []⟩

def addRequestInfo (media : NewMedia T) (data : MediaData T) : NewMedia T :=
  match data.type with
  | .image | .video =>
      { media with
        imagesPre := media.imagesPre ++ data.image.toList
        gridThw := media.gridThw ++ data.gridThw.toList
        imagesUrl := media.imagesUrl ++ data.url.toList }
  | .audio =>
      { media with
        audioPre := media.audioPre ++ data.feature.toList
        audioAttnMask := media.audioAttnMask ++ data.mask.toList
        audioUrl := media.audioUrl ++ data.url.toList }

/-- `images_info` for the vision tower. -/
structure NewImagesInfo (T : Type) where
  images : List T
  urls : List String
  gridThw : List (List Int)
deriving DecidableEq

/-- `audios_info` for the audio tower. -/
structure NewAudiosInfo (T : Type) where
  audios : List T
  urls : List String
  audioAttentionMask : List T
deriving DecidableEq

/-- The parts of a `VLRequest` that are read and written. -/
structure VLMediaRequest (T : Type) where
  inputTokens : Option (List (List Int))
  truncateLengths : Option (List Nat)
  maxInputLength : Int
  preprocessReq : List MediaItem
  imagesInfo : Option (NewImagesInfo T)
  audiosInfo : Option (NewAudiosInfo T)
  keys : List String
  mmTypes : List Nat

inductive NewRequestError
  /-- `InputTokensError`, of the truncation -/
  | inputTokens (cause : TruncateError)
  /-- `truncate_vision_lens:{} length should be less than request_len:{}` -/
  | visionLens
deriving DecidableEq, Repr

/-- `list[-count:]`, which is the whole list for zero. -/
def lastSlice {β : Type} (count : Nat) (list : List β) : List β :=
  if count = 0 then list else list.drop (list.length - count)

/-- The text whose md5 is the key of an entry. -/
def keyText (item : MediaItem) : String :=
  match item.url with
  | .one url => url
  | .list urls => " ".intercalate urls

def mmType (item : MediaItem) : Nat :=
  match item.type with
  | .image => 0
  | .video => 1
  | .audio => 2

/-- `get_vit_from_cache` without `use_redis`, for which the clock is not read. -/
def CacheManager.getVitFromCache (manager : CacheManager α) (md5 : String → String)
    (result : Preprocessed T) : CacheResult α × CacheManager α :=
  getTorchFunc manager ⟨0, 0, 0⟩ (md5 (result.data.url.getD ""))
    ⟨some result.data.gridThw, some (some result.vitLen), none⟩

/-- The look into the cache for one tuple. `insert` is the insertion into the local cache,
which may evict others. -/
def lookMedia (md5 : String → String)
    (insert : CacheManager α → String → Tensor α → Option (List Int) → CacheManager α)
    (s : CacheManager α × NewMedia T) (result : Preprocessed T) : CacheManager α × NewMedia T :=
  let looked := s.1.getVitFromCache md5 result
  match looked.1.result with
  | some tensor =>
      match looked.1.source with
      | .global => (insert looked.2 looked.1.key tensor looked.1.gridThw, s.2)
      | .local => (looked.2, s.2)
  | none => (looked.2, addRequestInfo s.2 result.data)

/-- The call of `qwen_vl_truncate`: the tokens, and `truncate_vision_lens`. -/
def truncateInput (modelType : HieModelType) (vlPreResult : List (PreResult T))
    (request : VLMediaRequest T) :
    Except NewRequestError (Option (List (List Int)) × Nat) :=
  match request.truncateLengths, request.inputTokens with
  | some truncateLengths, some (inputIds :: more) =>
      match qwenVlTruncate inputIds truncateLengths (vlPreResult.map PreResult.vitLen)
          request.maxInputLength (tokenBos modelType) with
      | .error cause => .error (.inputTokens cause)
      | .ok output => .ok (some (output.1 :: more), output.2)
  | _, _ => .ok (request.inputTokens, vlPreResult.length)

/-- The request and the results as they are after the truncation is known. -/
def newRequest (md5 : String → String)
    (insert : CacheManager α → String → Tensor α → Option (List Int) → CacheManager α)
    (manager : CacheManager α) (vlPreResult : List (PreResult T)) (request : VLMediaRequest T)
    (inputTokens : Option (List (List Int))) (truncateVisionLens : Nat) :
    List (PreResult T) × VLMediaRequest T × CacheManager α :=
  let kept := if truncateVisionLens > 0 then lastSlice truncateVisionLens vlPreResult
    else vlPreResult
  let looked := if truncateVisionLens > 0 then
      (kept.flatMap PreResult.results).foldl (lookMedia md5 insert) (manager, NewMedia.empty)
    else (manager, NewMedia.empty)
  let media := looked.2
  let preprocessReq := lastSlice truncateVisionLens request.preprocessReq
  (kept,
    { request with
      inputTokens
      imagesInfo := if media.imagesPre.length > 0 then
          some ⟨media.imagesPre, media.imagesUrl, media.gridThw⟩
        else request.imagesInfo
      audiosInfo := if media.audioPre.length > 0 then
          some ⟨media.audioPre, media.audioUrl, media.audioAttnMask⟩
        else request.audiosInfo
      keys := preprocessReq.map (fun item => md5 (keyText item))
      mmTypes := preprocessReq.map mmType },
    looked.1)

/-- `build_new_request_from_cache`. -/
def buildNewRequestFromCache (md5 : String → String)
    (insert : CacheManager α → String → Tensor α → Option (List Int) → CacheManager α)
    (modelType : HieModelType) (manager : CacheManager α) (vlPreResult : List (PreResult T))
    (request : VLMediaRequest T) :
    Except NewRequestError (List (PreResult T) × VLMediaRequest T × CacheManager α) := do
  let truncated ← truncateInput modelType vlPreResult request
  if truncated.2 > vlPreResult.length then .error .visionLens
  else .ok (newRequest md5 insert manager vlPreResult request truncated.1 truncated.2)

/-! What the truncation is to leave of the media. -/

/-- The tokens of the prompt. -/
def VLMediaRequest.tokens (request : VLMediaRequest T) : List Int :=
  (request.inputTokens.getD []).headD []

/-- The system part of the prompt, where it is truncated. -/
def VLMediaRequest.systemLength (request : VLMediaRequest T) : Nat :=
  match request.truncateLengths, request.inputTokens with
  | some truncateLengths, some (_ :: _) => truncateLengths.headD 0
  | _, _ => 0

/-- Of a list with one entry for each vision-start token of the prompt, the entries of
those that are left: the first ones, in the system part, and the last ones, in the
segments that are kept. -/
def keptEntries {β : Type} (bosId : Int) (inputIds outputIds : List Int) (systemLength : Nat)
    (entries : List β) : List β :=
  entries.take ((inputIds.take systemLength).count bosId) ++
    entries.drop (entries.length -
      (inputIds.drop (inputIds.length - (outputIds.length - systemLength))).count bosId)

/-- Keys, types and results are those of the vision-start tokens that are left. -/
structure MediaAligned (md5 : String → String) (bosId : Int) (vlPreResult : List (PreResult T))
    (request : VLMediaRequest T) (kept : List (PreResult T)) (after : VLMediaRequest T) : Prop where
  keys_length : after.keys.length = after.tokens.count bosId
  types_length : after.mmTypes.length = after.tokens.count bosId
  results_length : kept.length = after.tokens.count bosId
  keys : after.keys = (keptEntries bosId request.tokens after.tokens request.systemLength
    request.preprocessReq).map (fun item => md5 (keyText item))
  types : after.mmTypes = (keptEntries bosId request.tokens after.tokens request.systemLength
    request.preprocessReq).map mmType
  results : kept = keptEntries bosId request.tokens after.tokens request.systemLength vlPreResult

end DashInfer.Vision
