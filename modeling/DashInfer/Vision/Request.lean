import DashInfer.Vision.HieWorker
import DashInfer.Vision.Tokens
import Mathlib.Data.List.ReduceOption
import Mathlib.Data.Nat.Digits.Defs

/-!
What `QwenVl.forward` does for QWEN2-VL with images that come preprocessed: the
cache is asked for each image, the others go to the workers, and
`get_as_request` makes the request of the engine out of the results.
-/

namespace DashInfer.Vision

variable {T E : Type}

/-! ## Keys -/

/-- `format(n, "x")`; a hex string is a list of digits. -/
def hexDigits (n : Nat) : List Nat := if n = 0 then [0] else (Nat.digits 16 n).reverse

/-- The hex digits of a length, padded to whole bytes. -/
def vitLenHex (n : Nat) : List Nat :=
  if (hexDigits n).length % 2 ≠ 0 then 0 :: hexDigits n else hexDigits n

/-- `bytearray.fromhex`. -/
def fromHex : List Nat → Except String (List Nat)
  | [] => .ok []
  | [_] => .error "non-hexadecimal number found in fromhex() arg"
  | high :: low :: rest => do
      let bytes ← fromHex rest
      return (16 * high + low) :: bytes

/-! ## The cache -/

/-- `images_info`: images, urls and grids, in prompt order. -/
structure ImagesInfo (T : Type) where
  images : List (Option (VitInput T))
  urls : List String
  gridThw : Option (List (Option (List Int)))

/-- The cache as the request sees it. `lookup` is what the local cache, or else
the remote one, holds under an md5 key. -/
structure CacheView (E : Type) where
  md5 : String → List Nat
  lookup : List Nat → Option (E × Option (List Int))
  rows : E → Nat

/-- `get_torch_func`: an entry with another grid is none, and one without a grid
only counts if the caller gave no length. -/
def CacheView.get (cache : CacheView E) (key : List Nat) (gridThw : Option (List Int))
    (vitLen : Option (Option Nat)) : Option (E × Option (List Int)) :=
  match cache.lookup key with
  | none => none
  | some (tensor, some grid) => if gridThw = some grid then some (tensor, some grid) else none
  | some (tensor, none) =>
      if vitLen.getD (some (cache.rows tensor)) = some (cache.rows tensor) then
        some (tensor, none)
      else none

/-- `get_vits_from_cache`. From three images on the lengths are passed, as
`None`. -/
def CacheView.getVits (cache : CacheView E) (urls : List String)
    (gridThws : List (Option (List Int))) : List (Option (E × Option (List Int))) :=
  List.zipWith (fun url gridThw =>
    cache.get (cache.md5 url) gridThw (if urls.length ≥ 3 then some none else none)) urls gridThws

/-- The cached results as `Vit`s. -/
def hitVits (requestId : Int) : Nat → List (Option (E × Option (List Int))) →
    List (Option (Vit E))
  | _, [] => []
  | i, none :: rest => none :: hitVits requestId (i + 1) rest
  | i, some (embs, grid) :: rest =>
      some { requestId, vitId := i, status := .success, vitEmbs := some embs, vitGridThw := grid,
             fromCache := true } :: hitVits requestId (i + 1) rest

/-- The images that are left once the hits are set to `None`; a hit without an
image is an `IndexError`. -/
def clearHits {α β : Type} : List (Option α) → List (Option β) → Option (List (Option β))
  | [], images => some images
  | none :: hits, [] => clearHits hits []
  | some _ :: _, [] => none
  | none :: hits, image :: images => (clearHits hits images).map (image :: ·)
  | some _ :: hits, _ :: images => (clearHits hits images).map (none :: ·)

/-- The results the cache has for a request. -/
def cacheHits (cache : CacheView E) (requestId : Int) (info : ImagesInfo T) :
    List (Option (Vit E)) :=
  hitVits requestId 0 (cache.getVits info.urls
    (info.gridThw.getD (List.replicate info.urls.length none)))

/-- `get_cache_vit_result_from_request`: the group with the hits, and what is
left to do. -/
def getCacheVitResult (cache : CacheView E) (requestId : Int) (info : ImagesInfo T) :
    Option (VitGroup E × ImagesInfo T) :=
  let hits := cacheHits cache requestId info
  (clearHits hits info.images).map (fun images =>
    (hits.reduceOption.foldl VitGroup.addVit (VitGroup.empty requestId), { info with images }))

/-! ## The request of the engine -/

def imageBos : Int := 151652
def imageEos : Int := 151653
def imageTarget : Int := 151859
def replaceBos : Int := 151857
def replaceEos : Int := 151858

/-- `AllSparkRequest`, as far as it comes from the images and the prompt. -/
structure AllSparkRequest (E : Type) where
  requestId : Int
  inputIds : List Int
  vitEmbs : List (Option E)
  vitKeys : List (List Nat)
  vitPositions : List (Option (List Int))
  vitTargetToken : Int
  oldContextLen : Nat
  newContextLen : Nat
  newImageAudioTokenLen : Nat
  newVideoTokenLen : Nat
  maxTotalTokens : Nat

def Vit.len (rows : E → Nat) (vit : Vit E) : Nat :=
  match vit.vitEmbs with
  | none => 0
  | some embs => rows embs

/-- The loop over `vit_keys`, which asks the group for the result of each
place. -/
def keyBytes (rows : E → Nat) (group : VitGroup E) :
    Nat → List (List Nat) → Except String (List (List Nat))
  | _, [] => .ok []
  | i, key :: rest =>
      match group.get? i with
      | none => .error "KeyError"
      | some vit => do
          let bytes ← fromHex (key ++ vitLenHex (vit.len rows))
          let more ← keyBytes rows group (i + 1) rest
          return bytes :: more

/-- The token counts: of images and audios, and of videos. Kind 1 is video. -/
def tokenLens (rows : E → Nat) (group : VitGroup E) :
    Nat → List Nat → Except String (Nat × Nat)
  | _, [] => .ok (0, 0)
  | i, kind :: rest =>
      match group.get? i with
      | none => .error "KeyError"
      | some vit => do
          let (images, videos) ← tokenLens rows group (i + 1) rest
          if kind = 0 ∨ kind = 2 then return (images + vit.len rows, videos)
          else return (images, videos + vit.len rows)

/-- `VLRequest`, as `get_as_request` reads it. -/
structure VLRequest where
  requestId : Int
  inputTokens : List (List Int)
  keys : List (List Nat)
  mmTypes : List Nat

/-- `get_as_request` for QWEN2-VL. The results are iterated in the order in
which they came to the group; `hie_results[i]` asks for an id. -/
def getAsRequest (rows : E → Nat) (maxTotalLen : Nat) (request : VLRequest)
    (hieResults : VitGroup E) : Except String (AllSparkRequest E) :=
  match request.inputTokens with
  | [] => .error "input null token... may be upload service for vit cache"
  | [sourceTokens] => do
      let inputTokens := sourceTokens.map (fun token =>
        if token = replaceBos then imageBos
        else if token = replaceEos then imageEos else token)
      let inputTokens ← prepareMultimodalTokens inputTokens
        (hieResults.vits.map (·.len rows)) imageBos imageEos imageTarget
      if request.keys.length ≠ hieResults.vits.length then
        .error "vit_keys length should be equal to vit_results length"
      else do
        let vitKeys ← keyBytes rows hieResults 0 request.keys
        if request.mmTypes.length ≠ hieResults.vits.length then
          .error "mm_types length should be equal to vit_results length"
        else do
          let lens ← tokenLens rows hieResults 0 request.mmTypes
          return {
            requestId := request.requestId
            inputIds := inputTokens
            vitEmbs := hieResults.vits.map (·.vitEmbs)
            vitKeys
            vitPositions := hieResults.vits.map (·.vitGridThw)
            vitTargetToken := imageTarget
            oldContextLen := sourceTokens.length
            newContextLen := inputTokens.length
            newImageAudioTokenLen := lens.1
            newVideoTokenLen := lens.2
            maxTotalTokens := maxTotalLen }
  | _ => .error "input_tokens should be list[list[int]]"

/-- `check_valid_images_input`. -/
def validImagesInput (info : ImagesInfo T) : Bool :=
  info.images ≠ [] && info.urls.length = info.images.length &&
    match info.images with
    | some (.url _) :: _ => true
    | _ => match info.gridThw with
      | none => false
      | some grids => grids.length = info.images.length

/-- From the results of the vision tower to the request: every result has to be
a success, and there has to be one for each image. -/
def buildRequest (rows : E → Nat) (maxTotalLen : Nat) (cache : CacheView E) (requestId : Int)
    (inputTokens : List (List Int)) (info : ImagesInfo T) (hieResults : VitGroup E) :
    Except String (AllSparkRequest E) :=
  if ¬ validImagesInput info then .error "VL_REQUEST_ERROR"
  else if ∃ vit ∈ hieResults.vits, vit.status ≠ .success then .error "vit error"
  else if info.images.length ≠ hieResults.vits.length then .error "VL_VIT_NUMS_MISMATCH_ERROR"
  else getAsRequest rows maxTotalLen
    { requestId, inputTokens, keys := info.urls.map cache.md5
      mmTypes := info.urls.map (fun _ => 0) } hieResults

end DashInfer.Vision
