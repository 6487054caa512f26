import DashInfer.Lib.Lru
import DashInfer.Vision.Preprocess

/-!
`batch_get_video_image_list`, for a video that is a list of frames. The frames go
in pairs, all in the size of the first image. Pairs come out of two caches, and
the key of the one for first pairs does not have that size.
-/

namespace DashInfer.Vision

open Lib (Lru)

variable {F : Type}

/-- An entry of `preprocess_req` whose URL is a list, with the defaults filled in. -/
structure VideoConfig where
  urls : List String
  type : MediaType
  fps : Option ℚ
  minPixels : ℚ
  maxPixels : ℚ

/-- The arguments of `get_video_image_list`. -/
structure PairArgs where
  urls : String × String
  type : MediaType
  fps : Option ℚ
  minPixels : ℚ
  maxPixels : ℚ
  height : Nat
  width : Nat
deriving DecidableEq

/-- What is told about a pair: its frames, the grid they are cut in once they are
resized, and the size they have before. -/
structure PairInfo (F : Type) where
  type : MediaType
  image : List F
  gridThw : Grid
  url : String
  height : Nat
  width : Nat

/-- A status, what is told, and `vit_len`, which is zero after a failure. -/
inductive PairResult (F : Type) where
  | success (info : PairInfo F) (vitLen : Nat)
  | failed (status : VLStatusCode) (url : Option String)

/-- The size for the pairs that follow. -/
def PairResult.size : PairResult F → Nat × Nat
  | .success info _ => (info.height, info.width)
  | .failed _ _ => (0, 0)

/-- Height and width of the grid. -/
def PairResult.grid : PairResult F → Option (Int × Int)
  | .success info _ => some (info.gridThw.h, info.gridThw.w)
  | .failed _ _ => none

/-- An image in the size `first_h`, `first_w`, or without one in its own, which
then is the size of the next one. -/
def fitFrame (world : World F) (first : Nat × Nat) (image : F) : F × (Nat × Nat) :=
  if first.1 = 0 ∨ first.2 = 0 then (image, world.size image)
  else if world.size image ≠ first then (world.fit image first, first)
  else (image, first)

/-- `get_video_image_list` without its cache; an error is an exception. -/
def getVideoImageList (world : World F) (args : PairArgs) : Except String (PairResult F) :=
  match world.fetchImage args.urls.1, world.fetchImage args.urls.2 with
  | none, _ => .ok (.failed .visionDecodeError (some args.urls.1))
  | some _, none => .ok (.failed .visionDecodeError (some args.urls.2))
  | some image, some image' =>
      let frame := fitFrame world (args.height, args.width) image
      let frame' := fitFrame world frame.2 image'
      if world.size frame.1 ≠ world.size frame'.1 then
        .error "stack expects each tensor to be equal size"
      else
        match smartResize (world.size frame.1).1 (world.size frame.1).2 args.minPixels
            args.maxPixels with
        | .error message => .error message
        | .ok (resizedHeight, resizedWidth) => .ok (.success {
            type := args.type
            image := [frame.1, frame'.1]
            gridThw := { t := 1, h := (resizedHeight / 14 : Nat), w := (resizedWidth / 14 : Nat) }
            url := args.urls.1 ++ args.urls.2
            height := frame'.2.1
            width := frame'.2.2 } (resizedHeight / 14 * (resizedWidth / 14) / 4))

/-- `lru_cache` of `get_video_image_list`, and `local_cache`. -/
structure PreprocessCaches (F : Type) where
  imageLists : Lru PairArgs (PairResult F) 128
  localCache : Lru PairArgs (PairResult F) 128

def PreprocessCaches.empty : PreprocessCaches F := ⟨Lru.empty _ _ _, Lru.empty _ _ _⟩

/-- `get_video_image_list`, which does not keep exceptions. -/
def cachedImageList (world : World F) (caches : PreprocessCaches F) (args : PairArgs) :
    Except String (PairResult F) × PreprocessCaches F :=
  match caches.imageLists.get args with
  | (some result, imageLists) => (.ok result, { caches with imageLists })
  | (none, imageLists) =>
      match getVideoImageList world args with
      | .error message => (.error message, { caches with imageLists })
      | .ok result => (.ok result, { caches with imageLists := imageLists.put args result })

def VideoConfig.args (config : VideoConfig) (size : Nat × Nat) (urls : String × String) :
    PairArgs where
  urls
  type := config.type
  fps := config.fps
  minPixels := config.minPixels
  maxPixels := config.maxPixels
  height := size.1
  width := size.2

/-- `fallback_key`, which is the same for all sizes. -/
def VideoConfig.fallbackKey (config : VideoConfig) (urls : String × String) : PairArgs :=
  config.args (0, 0) urls

/-- A pair behind the first one. -/
def laterPair (world : World F) (config : VideoConfig) (size : Nat × Nat)
    (caches : PreprocessCaches F) (urls : String × String) :
    Except String (PairResult F) × PreprocessCaches F :=
  match caches.localCache.get (config.fallbackKey urls) with
  | (some result, localCache) => (.ok result, { caches with localCache })
  | (none, localCache) => cachedImageList world { caches with localCache } (config.args size urls)

def laterPairs (world : World F) (config : VideoConfig) (size : Nat × Nat)
    (caches : PreprocessCaches F) :
    List (String × String) → Except String (List (PairResult F)) × PreprocessCaches F
  | [] => (.ok [], caches)
  | urls :: rest =>
      let later := laterPair world config size caches urls
      match later.1 with
      | .error message => (.error message, later.2)
      | .ok result =>
          let more := laterPairs world config size later.2 rest
          (more.1.map (result :: ·), more.2)

/-- The pairs of a video, of at most 768 frames. -/
def VideoConfig.pairs (config : VideoConfig) : List (String × String) :=
  pairUp ((padUrls config.urls).take 768)

/-- `batch_get_video_image_list`. -/
def batchGetVideoImageList (world : World F) (caches : PreprocessCaches F) (config : VideoConfig) :
    Except String (List (PairResult F)) × PreprocessCaches F :=
  match config.pairs with
  | [] => (.ok [.failed .requestError none], caches)
  | urls :: rest =>
      let first := cachedImageList world caches (config.fallbackKey urls)
      match first.1 with
      | .error message => (.error message, first.2)
      | .ok result =>
          let caches := { first.2 with
            localCache := first.2.localCache.put (config.fallbackKey urls) result }
          let more := laterPairs world config result.size caches rest
          (more.1.map (result :: ·), more.2)

/-- The caches after the videos of a history. -/
def cachesAfter (world : World F) (history : List VideoConfig) : PreprocessCaches F :=
  history.foldl (fun caches config => (batchGetVideoImageList world caches config).2)
    PreprocessCaches.empty

section Frames

variable {world : World F} {config : VideoConfig} {urls : String × String}
  {image image' : F} {size resized : Nat × Nat}

theorem fitFrame_zero (image : F) : fitFrame world (0, 0) image = (image, world.size image) :=
  if_pos (.inl rfl)

/-- An image comes in the size that is given. -/
theorem fitFrame_sized (h : 0 < size.1 ∧ 0 < size.2) (image : F) :
    (fitFrame world size image).2 = size ∧ world.size (fitFrame world size image).1 = size := by
  have hsize : ¬(size.1 = 0 ∨ size.2 = 0) := by omega
  unfold fitFrame
  rw [if_neg hsize]
  split
  case isTrue => exact ⟨rfl, world.size_fit image size⟩
  case isFalse heq => exact ⟨rfl, not_not.mp heq⟩

/-- The result of a pair in the size `size`, which is resized to `resized`. -/
def PairResult.Has (result : PairResult F) (size resized : Nat × Nat) : Prop :=
  ∃ info, result = .success info (resized.1 / 14 * (resized.2 / 14) / 4) ∧
    info.gridThw = { t := 1, h := (resized.1 / 14 : Nat), w := (resized.2 / 14 : Nat) } ∧
    (info.height, info.width) = size

theorem PairResult.Has.grid {result : PairResult F} (h : result.Has size resized) :
    result.grid = some (((resized.1 / 14 : Nat) : Int), ((resized.2 / 14 : Nat) : Int)) := by
  obtain ⟨info, rfl, hgrid, -⟩ := h
  simp only [PairResult.grid, hgrid]

theorem PairResult.Has.size_eq {result : PairResult F} (h : result.Has size resized) :
    result.size = size := by
  obtain ⟨info, rfl, -, hsize⟩ := h
  exact hsize

theorem pos_of_smartResize {minPixels maxPixels : ℚ}
    (h : smartResize size.1 size.2 minPixels maxPixels = .ok resized) : 0 < size.1 ∧ 0 < size.2 :=
  have hcases := smartResize_cases h
  ⟨hcases.1, hcases.2.1⟩

/-- Two images that have come to one size. -/
theorem getVideoImageList_eq {args : PairArgs} {frame frame' : F}
    (h₁ : world.fetchImage args.urls.1 = some image)
    (h₂ : world.fetchImage args.urls.2 = some image')
    (hframe : fitFrame world (args.height, args.width) image = (frame, size))
    (hframe' : fitFrame world size image' = (frame', size)) (hsize : world.size frame = size)
    (hsize' : world.size frame' = size)
    (hok : smartResize size.1 size.2 args.minPixels args.maxPixels = .ok resized) :
    ∃ result, getVideoImageList world args = .ok result ∧ result.Has size resized := by
  have hsame : ¬world.size frame ≠ world.size frame' := not_not.mpr (hsize.trans hsize'.symm)
  unfold getVideoImageList
  rw [h₁, h₂]
  simp only [hframe, hframe']
  rw [if_neg hsame]
  simp only [hsize, hok]
  exact ⟨_, rfl, _, rfl, rfl, rfl⟩

/-- Pairs behind the first one come in its size. -/
theorem getVideoImageList_sized (h₁ : world.fetchImage urls.1 = some image)
    (h₂ : world.fetchImage urls.2 = some image')
    (hok : smartResize size.1 size.2 config.minPixels config.maxPixels = .ok resized) :
    ∃ result, getVideoImageList world (config.args size urls) = .ok result ∧
      result.Has size resized := by
  have hpos := pos_of_smartResize hok
  obtain ⟨hnext, hsize⟩ := fitFrame_sized hpos image
  obtain ⟨hnext', hsize'⟩ := fitFrame_sized hpos image'
  exact getVideoImageList_eq h₁ h₂ (Prod.ext rfl hnext) (Prod.ext rfl hnext') hsize hsize' hok

/-- The first pair comes in the size of its first image. -/
theorem getVideoImageList_own (h₁ : world.fetchImage urls.1 = some image)
    (h₂ : world.fetchImage urls.2 = some image')
    (hok : smartResize (world.size image).1 (world.size image).2 config.minPixels config.maxPixels =
      .ok resized) :
    ∃ result, getVideoImageList world (config.fallbackKey urls) = .ok result ∧
      result.Has (world.size image) resized := by
  obtain ⟨hnext, hsize⟩ := fitFrame_sized (pos_of_smartResize hok) image'
  exact getVideoImageList_eq h₁ h₂ (fitFrame_zero image) (Prod.ext rfl hnext) rfl hsize hok

theorem getVideoImageList_refused {message : String} (h₁ : world.fetchImage urls.1 = some image)
    (h₂ : world.fetchImage urls.2 = some image')
    (herror : smartResize (world.size image).1 (world.size image).2 config.minPixels
      config.maxPixels = .error message) :
    ∃ message, getVideoImageList world (config.fallbackKey urls) = .error message := by
  have h₁' : world.fetchImage (config.fallbackKey urls).urls.1 = some image := h₁
  have h₂' : world.fetchImage (config.fallbackKey urls).urls.2 = some image' := h₂
  have hframe : fitFrame world
      ((config.fallbackKey urls).height, (config.fallbackKey urls).width) image =
        (image, world.size image) := fitFrame_zero image
  have herror' : smartResize (world.size image).1 (world.size image).2
      (config.fallbackKey urls).minPixels (config.fallbackKey urls).maxPixels =
        .error message := herror
  unfold getVideoImageList
  rw [h₁', h₂']
  simp only [hframe, herror']
  split
  case isTrue => exact ⟨_, rfl⟩
  case isFalse => exact ⟨_, rfl⟩

end Frames

section Caches

variable {world : World F} {caches : PreprocessCaches F} {config : VideoConfig}
  {size : Nat × Nat} {urls : String × String}

/-- The caches hold what their keys stand for, and the local one only pairs in
their own size. -/
structure Sound (world : World F) (caches : PreprocessCaches F) : Prop where
  imageLists : ∀ e ∈ caches.imageLists.entries, getVideoImageList world e.1 = .ok e.2
  localCache : ∀ e ∈ caches.localCache.entries, getVideoImageList world e.1 = .ok e.2

theorem sound_empty : Sound world (PreprocessCaches.empty (F := F)) where
  imageLists := fun _ he => absurd he List.not_mem_nil
  localCache := fun _ he => absurd he List.not_mem_nil

/-- The cache of `get_video_image_list` does not show. -/
theorem cachedImageList_spec (h : Sound world caches) (args : PairArgs) :
    (cachedImageList world caches args).1 = getVideoImageList world args ∧
      Sound world (cachedImageList world caches args).2 ∧
      (cachedImageList world caches args).2.localCache = caches.localCache := by
  unfold cachedImageList
  have hget := Lru.get_fst args caches.imageLists
  have hkept : ∀ e ∈ (caches.imageLists.get args).2.entries,
      getVideoImageList world e.1 = .ok e.2 :=
    fun e he => h.imageLists e (Lru.mem_of_mem_get he)
  split
  case h_1 result imageLists heq =>
    rw [heq] at hget hkept
    have hmem := Lru.peek_eq_some_iff.mp hget.symm
    exact ⟨(h.imageLists _ hmem).symm, ⟨hkept, h.localCache⟩, rfl⟩
  case h_2 imageLists heq =>
    rw [heq] at hkept
    split
    case h_1 message hmessage => exact ⟨hmessage.symm, ⟨hkept, h.localCache⟩, rfl⟩
    case h_2 result hresult =>
      refine ⟨hresult.symm, ⟨?_, h.localCache⟩, rfl⟩
      intro e he
      rcases Lru.mem_of_mem_put he with rfl | he
      · exact hresult
      · exact hkept e he

/-- Whether the local cache has a pair from where it was a first one. -/
def PreprocessCaches.holds (caches : PreprocessCaches F) (config : VideoConfig)
    (urls : String × String) : Bool :=
  (caches.localCache.peek (config.fallbackKey urls)).isSome

/-- A later pair that is held comes in its own size. -/
theorem laterPair_spec (h : Sound world caches) :
    (laterPair world config size caches urls).1 = getVideoImageList world
        (config.args (if caches.holds config urls then (0, 0) else size) urls) ∧
      Sound world (laterPair world config size caches urls).2 ∧
      (laterPair world config size caches urls).2.holds = caches.holds := by
  unfold laterPair
  have hget := Lru.get_fst (config.fallbackKey urls) caches.localCache
  have hkept : Sound world
      { caches with localCache := (caches.localCache.get (config.fallbackKey urls)).2 } :=
    ⟨h.imageLists, fun e he => h.localCache e (Lru.mem_of_mem_get he)⟩
  have hsame : ∀ config' : VideoConfig, ∀ urls' : String × String,
      ((caches.localCache.get (config.fallbackKey urls)).2.peek
        (config'.fallbackKey urls')).isSome = caches.holds config' urls' :=
    fun _ _ => congrArg Option.isSome (Lru.peek_get ..)
  split
  case h_1 result localCache heq =>
    rw [heq] at hget hkept hsame
    have hheld : caches.holds config urls = true := Option.isSome_of_mem hget.symm
    have hmem := Lru.peek_eq_some_iff.mp hget.symm
    rw [if_pos hheld]
    exact ⟨(h.localCache _ hmem).symm, hkept, funext₂ hsame⟩
  case h_2 localCache heq =>
    rw [heq] at hget hkept hsame
    have hheld : ¬caches.holds config urls = true := by
      unfold PreprocessCaches.holds
      rw [← hget]
      exact Bool.false_ne_true
    obtain ⟨hresult, hsound, hlocal⟩ := cachedImageList_spec hkept (config.args size urls)
    rw [if_neg hheld]
    refine ⟨hresult, hsound, ?_⟩
    funext config' urls'
    unfold PreprocessCaches.holds
    rw [hlocal]
    exact hsame config' urls'

theorem laterPairs_spec (h : Sound world caches) (rest : List (String × String)) :
    (laterPairs world config size caches rest).1 = rest.mapM (fun urls => getVideoImageList world
        (config.args (if caches.holds config urls then (0, 0) else size) urls)) ∧
      Sound world (laterPairs world config size caches rest).2 := by
  induction rest generalizing caches with
  | nil => exact ⟨rfl, h⟩
  | cons urls rest ih =>
      obtain ⟨hfirst, hsound, hholds⟩ := @laterPair_spec _ world caches config size urls h
      obtain ⟨hmore, hsound'⟩ := ih hsound
      rw [hholds] at hmore
      rw [laterPairs, List.mapM_cons, ← hfirst, ← hmore]
      dsimp only
      split
      case h_1 message heq =>
        rw [heq]
        exact ⟨rfl, hsound⟩
      case h_2 result heq =>
        rw [heq]
        refine ⟨?_, hsound'⟩
        cases (laterPairs world config size (laterPair world config size caches urls).2 rest).1 with
        | error message => rfl
        | ok results => rfl

end Caches

end DashInfer.Vision
