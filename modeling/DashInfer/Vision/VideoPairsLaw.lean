import DashInfer.Lib.Fallible
import DashInfer.Vision.MergeVits
import DashInfer.Vision.VideoPairs

/-!
Whether the pairs of a video share one grid, whatever videos came before. A pair
the local cache has from where it was a first one comes in its own size.
-/

namespace DashInfer.Vision

open Lib (Lru exists_left_of_forall₂ exists_right_of_forall₂)

variable {F : Type}

/-- The size a pair is resized to when it is a first one. -/
def resizedAlone (world : World F) (config : VideoConfig) (urls : String × String) :
    Option (Nat × Nat) :=
  (world.fetchImage urls.1).bind fun image =>
    (smartResize (world.size image).1 (world.size image).2 config.minPixels
      config.maxPixels).toOption

/-- When all pairs are merged, the merged grid is that of the rows: the pairs'
embeddings have as many rows as was announced for them. -/
def MergedFits (results : List (PairResult F)) : Prop :=
  ∀ (α : Type) (parts : List (Tensor α × Grid)),
    List.Forall₂ (fun result part =>
      ∃ info, result = PairResult.success info part.1.length ∧ info.gridThw = part.2)
      results parts →
    ∀ tensor grid, mergeParts parts = some (tensor, grid) →
      grid.t * grid.h * grid.w / 4 = tensor.length

/-- All results have the grid they have from empty caches. -/
def AgreesWithFresh (results fresh : Except String (List (PairResult F))) : Prop :=
  match results, fresh with
  | .ok results, .ok fresh =>
      (∀ result ∈ results, ∀ result' ∈ fresh, result.grid = result'.grid) ∧ MergedFits results
  | .error message, .error message' => message = message'
  | _, _ => False

section Merged

variable {results : List (PairResult F)} {resized resized' : Nat × Nat}

/-- The sides are multiples of 28. -/
def Even28 (resized : Nat × Nat) : Prop := ∃ a b, resized = (28 * a, 28 * b)

theorem even28_of_smartResize {height width : Nat} {minPixels maxPixels : ℚ}
    (h : smartResize height width minPixels maxPixels = .ok resized) : Even28 resized := by
  obtain ⟨-, -, a, b, ha, hb, -⟩ := smartResize_cases h
  exact ⟨a, b, Prod.ext ha hb⟩

theorem eq_of_grid_eq {result result' : PairResult F} {size size' : Nat × Nat}
    (h : result.Has size resized) (h' : result'.Has size' resized') (heven : Even28 resized)
    (heven' : Even28 resized') (heq : result.grid = result'.grid) : resized = resized' := by
  obtain ⟨a, b, rfl⟩ := heven
  obtain ⟨a', b', rfl⟩ := heven'
  rw [h.grid, h'.grid] at heq
  simp only [Option.some.injEq, Prod.mk.injEq, Nat.cast_inj] at heq
  apply Prod.ext
  · change 28 * a = 28 * a'
    omega
  · change 28 * b = 28 * b'
    omega

theorem mergedFits (heven : Even28 resized)
    (h : ∀ result ∈ results, ∃ size, result.Has size resized) : MergedFits results := by
  intro α parts hparts tensor grid hmerge
  obtain ⟨a, b, rfl⟩ := heven
  have hpart : ∀ part ∈ parts, part.1.length = a * b ∧
      part.2 = { t := 1, h := (2 * a : Nat), w := (2 * b : Nat) } := by
    intro part hmem
    obtain ⟨result, hresult, info, rfl, hgrid⟩ := exists_left_of_forall₂ hparts hmem
    obtain ⟨size, info', hinfo, hgrid', -⟩ := h _ hresult
    have hh : 28 * a / 14 = 2 * a := by omega
    have hw : 28 * b / 14 = 2 * b := by omega
    have hrows : 2 * a * (2 * b) / 4 = a * b := by
      have hfour : 2 * a * (2 * b) = 4 * (a * b) := by ring
      omega
    injection hinfo with hinfo hlen
    subst hinfo
    simp only [hh, hw] at hgrid' hlen
    exact ⟨hlen.trans hrows, hgrid.symm.trans hgrid'⟩
  have hlength : tensor.length = parts.length * (a * b) ∧
      grid = { t := parts.length, h := (2 * a : Nat), w := (2 * b : Nat) } := by
    unfold mergeParts at hmerge
    split at hmerge
    case h_1 => cases hmerge
    case h_2 first rest =>
      cases hmerge
      constructor
      · rw [List.length_flatten, List.map_map]
        apply (List.sum_eq_card_nsmul _ (a * b) ?_).trans
        · simp
        · intro n hn
          obtain ⟨part, hmem, rfl⟩ := List.mem_map.mp hn
          exact (hpart part hmem).1
      · rw [(hpart first List.mem_cons_self).2]
  obtain ⟨hrows, rfl⟩ := hlength
  have hfour : (parts.length : Int) * (2 * a : Nat) * (2 * b : Nat) =
      4 * ((parts.length * (a * b) : Nat) : Int) := by
    push_cast
    ring
  rw [hrows, hfour]
  exact Int.mul_ediv_cancel_left _ four_ne_zero

end Merged

section Pairs

variable {world : World F} {caches : PreprocessCaches F} {config : VideoConfig}
  {urls : String × String} {size resized : Nat × Nat} {rest : List (String × String)}

/-- Both images of a pair load. -/
def Loads (world : World F) (urls : String × String) : Prop :=
  (world.fetchImage urls.1).isSome ∧ (world.fetchImage urls.2).isSome

theorem resizedAlone_eq_some (h : resizedAlone world config urls = some resized) :
    ∃ image, world.fetchImage urls.1 = some image ∧ smartResize (world.size image).1
      (world.size image).2 config.minPixels config.maxPixels = .ok resized := by
  obtain ⟨image, himage, hsize⟩ := Option.bind_eq_some_iff.mp h
  refine ⟨image, himage, ?_⟩
  cases hresize : smartResize (world.size image).1 (world.size image).2 config.minPixels
      config.maxPixels with
  | error message =>
      rw [hresize] at hsize
      cases hsize
  | ok resized' =>
      rw [hresize] at hsize
      exact congrArg Except.ok (Option.some.inj hsize)

theorem getVideoImageList_alone (hloads : Loads world urls)
    (halone : resizedAlone world config urls = some resized) :
    Even28 resized ∧ ∃ result size, getVideoImageList world (config.fallbackKey urls) = .ok result ∧
      result.Has size resized ∧
      smartResize size.1 size.2 config.minPixels config.maxPixels = .ok resized := by
  obtain ⟨image, h₁, hok⟩ := resizedAlone_eq_some halone
  obtain ⟨image', h₂⟩ := Option.isSome_iff_exists.mp hloads.2
  obtain ⟨result, hresult, hhas⟩ := getVideoImageList_own h₁ h₂ hok
  exact ⟨even28_of_smartResize hok, result, world.size image, hresult, hhas, hok⟩

theorem getVideoImageList_alone_refused (hloads : Loads world urls)
    (halone : resizedAlone world config urls = none) :
    ∃ message, getVideoImageList world (config.fallbackKey urls) = .error message := by
  obtain ⟨image, h₁⟩ := Option.isSome_iff_exists.mp hloads.1
  obtain ⟨image', h₂⟩ := Option.isSome_iff_exists.mp hloads.2
  unfold resizedAlone at halone
  rw [h₁] at halone
  cases hsize : smartResize (world.size image).1 (world.size image).2 config.minPixels
      config.maxPixels with
  | error message => exact getVideoImageList_refused h₁ h₂ hsize
  | ok resized =>
      rw [Option.bind_some, hsize] at halone
      cases halone

/-- What the local cache holds of pairs that load was resized. -/
theorem isSome_of_holds (hsound : Sound world caches) (hloads : Loads world urls)
    (hheld : caches.holds config urls = true) : (resizedAlone world config urls).isSome = true := by
  obtain ⟨result, hresult⟩ := Option.isSome_iff_exists.mp hheld
  have hok := hsound.localCache _ (Lru.peek_eq_some_iff.mp hresult)
  cases halone : resizedAlone world config urls with
  | some resized => rfl
  | none =>
      obtain ⟨message, herror⟩ := getVideoImageList_alone_refused hloads halone
      rw [herror] at hok
      cases hok

/-- The size of a later pair: its own if the cache holds it, else that of the
first one. -/
def laterSize (world : World F) (caches : PreprocessCaches F) (config : VideoConfig)
    (resized : Nat × Nat) (urls : String × String) : Nat × Nat :=
  if caches.holds config urls then (resizedAlone world config urls).getD resized else resized

theorem laterPairs_ok (hsound : Sound world caches) (hloads : ∀ urls ∈ rest, Loads world urls)
    (hok : smartResize size.1 size.2 config.minPixels config.maxPixels = .ok resized) :
    ∃ results, (laterPairs world config size caches rest).1 = .ok results ∧
      List.Forall₂ (fun urls result => ∃ size', result.Has size'
        (laterSize world caches config resized urls) ∧
        Even28 (laterSize world caches config resized urls)) rest results := by
  rw [(laterPairs_spec hsound rest).1]
  induction rest with
  | nil => exact ⟨[], rfl, .nil⟩
  | cons urls rest ih =>
      obtain ⟨hfirst, hrest⟩ := List.forall_mem_cons.mp hloads
      obtain ⟨results, hresults, hall⟩ := ih hrest
      have hpair : ∃ result size', getVideoImageList world
          (config.args (if caches.holds config urls then (0, 0) else size) urls) = .ok result ∧
          result.Has size' (laterSize world caches config resized urls) ∧
          Even28 (laterSize world caches config resized urls) := by
        unfold laterSize
        split
        case isTrue hheld =>
          obtain ⟨resized', halone⟩ :=
            Option.isSome_iff_exists.mp (isSome_of_holds hsound hfirst hheld)
          obtain ⟨heven, result, size', hresult, hhas, -⟩ :=
            getVideoImageList_alone hfirst halone
          rw [halone]
          exact ⟨result, size', hresult, hhas, heven⟩
        case isFalse =>
          obtain ⟨image, h₁⟩ := Option.isSome_iff_exists.mp hfirst.1
          obtain ⟨image', h₂⟩ := Option.isSome_iff_exists.mp hfirst.2
          obtain ⟨result, hresult, hhas⟩ := getVideoImageList_sized h₁ h₂ hok
          exact ⟨result, size, hresult, hhas, even28_of_smartResize hok⟩
      obtain ⟨result, size', hresult, hhas⟩ := hpair
      refine ⟨result :: results, ?_, .cons ⟨size', hhas⟩ hall⟩
      rw [List.mapM_cons, hresult, hresults]
      rfl

/-- The first pair may go to the local cache. -/
theorem Sound.insert_first {first : PairResult F} (hsound : Sound world caches)
    (h : getVideoImageList world (config.fallbackKey urls) = .ok first) :
    Sound world { caches with
      localCache := caches.localCache.put (config.fallbackKey urls) first } := by
  refine ⟨hsound.imageLists, ?_⟩
  intro e he
  rcases Lru.mem_of_mem_put he with rfl | he
  · exact h
  · exact hsound.localCache e he

/-- The pairs of a video whose first pair can be resized. -/
theorem batch_ok (hsound : Sound world caches) (hpairs : config.pairs = urls :: rest)
    (hloads : ∀ urls ∈ config.pairs, Loads world urls)
    (halone : resizedAlone world config urls = some resized) :
    ∃ first results after, (batchGetVideoImageList world caches config).1 = .ok (first :: results) ∧
      (∃ size, first.Has size resized) ∧ Even28 resized ∧
      after.localCache = caches.localCache.put (config.fallbackKey urls) first ∧
      List.Forall₂ (fun urls result => ∃ size, result.Has size
        (laterSize world after config resized urls) ∧
        Even28 (laterSize world after config resized urls)) rest results := by
  rw [hpairs] at hloads
  obtain ⟨hfirst, hrest⟩ := List.forall_mem_cons.mp hloads
  obtain ⟨heven, result, size, hresult, hhas, hok⟩ := getVideoImageList_alone hfirst halone
  obtain ⟨hcached, hsound', hlocal⟩ := cachedImageList_spec hsound (config.fallbackKey urls)
  rw [hresult] at hcached
  obtain ⟨results, hresults, hall⟩ := laterPairs_ok (hsound'.insert_first hresult) hrest hok
  refine ⟨result, results, _, ?_, ⟨size, hhas⟩, heven, ?_, hall⟩
  · unfold batchGetVideoImageList
    rw [hpairs]
    simp only [hcached, hhas.size_eq, hresults]
    rfl
  · rw [← hlocal]

theorem batch_refused (hsound : Sound world caches) (hpairs : config.pairs = urls :: rest)
    {message : String}
    (herror : getVideoImageList world (config.fallbackKey urls) = .error message) :
    (batchGetVideoImageList world caches config).1 = .error message := by
  have hcached := (cachedImageList_spec hsound (config.fallbackKey urls)).1
  rw [herror] at hcached
  unfold batchGetVideoImageList
  rw [hpairs]
  simp only [hcached]

theorem sound_batch (hsound : Sound world caches) (config : VideoConfig) :
    Sound world (batchGetVideoImageList world caches config).2 := by
  unfold batchGetVideoImageList
  split
  case h_1 => exact hsound
  case h_2 urls rest hpairs =>
    obtain ⟨hcached, hsound', -⟩ := cachedImageList_spec hsound (config.fallbackKey urls)
    dsimp only
    split
    case h_1 => exact hsound'
    case h_2 result hresult =>
      have hfirst := hsound'.insert_first (hcached.symm.trans hresult)
      exact (laterPairs_spec hfirst rest).2

theorem sound_cachesAfter (world : World F) (history : List VideoConfig) :
    Sound world (cachesAfter world history) := by
  unfold cachesAfter
  induction history using List.reverseRecOn with
  | nil => exact sound_empty
  | append_singleton history config ih =>
      rw [List.foldl_concat]
      exact sound_batch ih config

theorem mem_of_mem_pairUp {l : List String} (h : urls ∈ pairUp l) : urls.1 ∈ l ∧ urls.2 ∈ l := by
  induction l using pairUp.induct with
  | case1 a b rest ih =>
      rw [pairUp] at h
      rcases List.mem_cons.mp h with rfl | h
      · simp
      · have hrest := ih h
        simp [hrest]
  | case2 l hl =>
      rw [pairUp] at h
      · cases h
      · exact hl

theorem mem_of_mem_padUrls {l : List String} {url : String} (h : url ∈ padUrls l) : url ∈ l := by
  unfold padUrls at h
  split at h
  case isTrue => exact h
  case isFalse =>
    rcases List.mem_append.mp h with h | h
    · exact h
    · exact List.mem_of_getLast? (Option.mem_toList.mp h)

theorem loads_of_mem_pairs (hloads : ∀ url ∈ config.urls, (world.fetchImage url).isSome = true) :
    ∀ urls ∈ config.pairs, Loads world urls := by
  intro urls hurls
  obtain ⟨h₁, h₂⟩ := mem_of_mem_pairUp hurls
  exact ⟨hloads _ (mem_of_mem_padUrls (List.mem_of_mem_take h₁)),
    hloads _ (mem_of_mem_padUrls (List.mem_of_mem_take h₂))⟩

theorem holds_iff : caches.holds config urls = true ↔
    config.fallbackKey urls ∈ caches.localCache.keys := List.dlookup_isSome

/-- Beside the first pair the local cache has room for 127 others. -/
theorem holds_put {after : PreprocessCaches F} {first : PairResult F} {later : String × String}
    (hlocal : after.localCache = caches.localCache.put (config.fallbackKey urls) first) :
    after.holds config later = true ↔ later = urls ∨
      config.fallbackKey later ∈
        (caches.localCache.keys.erase (config.fallbackKey urls)).take 127 := by
  rw [holds_iff, hlocal, Lru.keys_put, List.take_succ_cons, List.mem_cons]
  apply or_congr_left
  constructor
  · exact congrArg PairArgs.urls
  · exact congrArg config.fallbackKey

end Pairs

section Law

variable {world : World F} {caches after : PreprocessCaches F} {config : VideoConfig}
  {urls later : String × String} {size : Nat × Nat} {first : PairResult F}

/-- Without an earlier first pair of another size, later pairs come in that of the
first one. -/
theorem laterSize_eq (halone : resizedAlone world config urls = some size)
    (hlocal : after.localCache = caches.localCache.put (config.fallbackKey urls) first)
    (h : config.fallbackKey later ∈
        (caches.localCache.keys.erase (config.fallbackKey urls)).take 127 →
      resizedAlone world config later = some size) :
    laterSize world after config size later = size := by
  unfold laterSize
  split
  case isTrue hheld =>
    have hlater : resizedAlone world config later = some size := by
      rcases (holds_put hlocal).mp hheld with rfl | hmem
      · exact halone
      · exact h hmem
    rw [hlater]
    rfl
  case isFalse => rfl

theorem resizedAlone_of_laterSize (hsound : Sound world caches) (hloads : Loads world later)
    (hlocal : after.localCache = caches.localCache.put (config.fallbackKey urls) first)
    (hmem : config.fallbackKey later ∈
      (caches.localCache.keys.erase (config.fallbackKey urls)).take 127)
    (h : laterSize world after config size later = size) :
    resizedAlone world config later = some size := by
  have hheld : caches.holds config later = true :=
    holds_iff.mpr (List.mem_of_mem_erase (List.mem_of_mem_take hmem))
  obtain ⟨size', halone⟩ := Option.isSome_iff_exists.mp (isSome_of_holds hsound hloads hheld)
  unfold laterSize at h
  rw [if_pos ((holds_put hlocal).mpr (.inr hmem)), halone, Option.getD_some] at h
  rw [halone, h]

theorem has_of_laterSize {rest : List (String × String)} {results : List (PairResult F)}
    (hfirst : ∃ size', first.Has size' size)
    (hall : List.Forall₂ (fun later result => ∃ size', result.Has size'
      (laterSize world after config size later) ∧
      Even28 (laterSize world after config size later)) rest results)
    (hsame : ∀ later ∈ rest, laterSize world after config size later = size) :
    ∀ result ∈ first :: results, ∃ size', result.Has size' size := by
  intro result hresult
  rcases List.mem_cons.mp hresult with rfl | hresult
  · exact hfirst
  · obtain ⟨later, hlater, size', hhas, -⟩ := exists_left_of_forall₂ hall hresult
    rw [hsame later hlater] at hhas
    exact ⟨size', hhas⟩

/-- All results of a video have the grid they have from empty caches exactly when
each later pair that the local cache still holds as an earlier first pair is
resized alone as the first one is. -/
theorem agreesWithFresh_iff (world : World F) (history : List VideoConfig) (config : VideoConfig)
    (hloads : ∀ url ∈ config.urls, (world.fetchImage url).isSome = true) :
    AgreesWithFresh (batchGetVideoImageList world (cachesAfter world history) config).1
        (batchGetVideoImageList world PreprocessCaches.empty config).1 ↔
      ∀ urls rest size, config.pairs = urls :: rest →
        resizedAlone world config urls = some size → ∀ later ∈ rest,
          config.fallbackKey later ∈ ((cachesAfter world history).localCache.keys.erase
            (config.fallbackKey urls)).take 127 →
          resizedAlone world config later = some size := by
  have hsound := sound_cachesAfter world history
  have hpairsLoad := loads_of_mem_pairs hloads
  cases hpairs : config.pairs with
  | nil =>
      have hbatch (caches : PreprocessCaches F) :
          (batchGetVideoImageList world caches config).1 = .ok [.failed .requestError none] := by
        unfold batchGetVideoImageList
        rw [hpairs]
      rw [hbatch, hbatch]
      constructor
      · intro _ urls rest size hcons
        cases hcons
      · intro _
        constructor
        · simp
        · intro α parts hparts
          obtain ⟨part, rest, ⟨info, hinfo, -⟩, -⟩ := List.forall₂_cons_left_iff.mp hparts
          cases hinfo
  | cons urls rest =>
      cases halone : resizedAlone world config urls with
      | none =>
          obtain ⟨message, herror⟩ := getVideoImageList_alone_refused
            (hpairsLoad urls (hpairs ▸ List.mem_cons_self)) halone
          rw [batch_refused hsound hpairs herror, batch_refused sound_empty hpairs herror]
          constructor
          · intro _ urls' rest' size hcons halone'
            cases hcons
            rw [halone] at halone'
            cases halone'
          · exact fun _ => rfl
      | some size =>
          obtain ⟨first, results, after, hok, hfirst, heven, hlocal, hall⟩ :=
            batch_ok hsound hpairs hpairsLoad halone
          obtain ⟨first₀, results₀, after₀, hok₀, hfirst₀, -, hlocal₀, hall₀⟩ :=
            batch_ok sound_empty hpairs hpairsLoad halone
          rw [hpairs] at hpairsLoad
          rw [hok, hok₀]
          constructor
          · rintro ⟨hgrids, -⟩ urls' rest' size' hcons halone' later hlater hmem
            cases hcons
            rw [halone] at halone'
            cases halone'
            obtain ⟨result, hresult, size'', hhas, heven'⟩ := exists_right_of_forall₂ hall hlater
            obtain ⟨_, hhas₀⟩ := hfirst₀
            have hgrid := hgrids result (List.mem_cons_of_mem _ hresult) first₀ List.mem_cons_self
            have hlaterLoads := hpairsLoad later (List.mem_cons_of_mem _ hlater)
            exact resizedAlone_of_laterSize hsound hlaterLoads hlocal hmem
              (eq_of_grid_eq hhas hhas₀ heven' heven hgrid)
          · intro h
            have hsized := has_of_laterSize hfirst hall fun later hlater =>
              laterSize_eq halone hlocal (h urls rest size rfl halone later hlater)
            have hsized₀ := has_of_laterSize hfirst₀ hall₀ fun later _ =>
              laterSize_eq halone hlocal₀ (fun hmem => absurd hmem List.not_mem_nil)
            refine ⟨?_, mergedFits heven hsized⟩
            intro result hresult result₀ hresult₀
            obtain ⟨_, hhas⟩ := hsized result hresult
            obtain ⟨_, hhas₀⟩ := hsized₀ result₀ hresult₀
            rw [hhas.grid, hhas₀.grid]

end Law

/-! ## A pair that was a first one -/

/-- Frames that are known by their size: those of `"c"` and `"d"` are larger. -/
def twoSizes : World (Nat × Nat) where
  size := id
  fetchImage := fun url => some (if url = "c" ∨ url = "d" then (112, 112) else (56, 56))
  readVideo := fun _ => none
  fit := fun _ size => size
  size_fit := fun _ _ => rfl

def framesVideo (urls : List String) : VideoConfig where
  urls
  type := .video
  fps := some 2
  minPixels := 3136
  maxPixels := 1003520

def gridsOf (results : Except String (List (PairResult F))) : List (Option (Int × Int)) :=
  match results with
  | .ok results => results.map PairResult.grid
  | .error _ => []

theorem AgreesWithFresh.grids {results fresh : Except String (List (PairResult F))}
    (h : AgreesWithFresh results fresh) {grid grid' : Option (Int × Int)}
    (hgrid : grid ∈ gridsOf results) (hgrid' : grid' ∈ gridsOf fresh) : grid = grid' := by
  cases results with
  | error message => cases hgrid
  | ok results =>
      cases fresh with
      | error message => cases hgrid'
      | ok fresh =>
          obtain ⟨result, hresult, rfl⟩ := List.mem_map.mp hgrid
          obtain ⟨result', hresult', rfl⟩ := List.mem_map.mp hgrid'
          exact h.1 result hresult result' hresult'

theorem agreesWithFresh_iff_twoSizes :
    AgreesWithFresh
        (batchGetVideoImageList twoSizes (cachesAfter twoSizes [framesVideo ["c", "d"]])
          (framesVideo ["a", "b", "c", "d"])).1
        (batchGetVideoImageList twoSizes PreprocessCaches.empty
          (framesVideo ["a", "b", "c", "d"])).1 ↔
      ∀ urls rest size, (framesVideo ["a", "b", "c", "d"]).pairs = urls :: rest →
        resizedAlone twoSizes (framesVideo ["a", "b", "c", "d"]) urls = some size →
        ∀ later ∈ rest, (framesVideo ["a", "b", "c", "d"]).fallbackKey later ∈
            ((cachesAfter twoSizes [framesVideo ["c", "d"]]).localCache.keys.erase
              ((framesVideo ["a", "b", "c", "d"]).fallbackKey urls)).take 127 →
          resizedAlone twoSizes (framesVideo ["a", "b", "c", "d"]) later = some size :=
  agreesWithFresh_iff twoSizes [framesVideo ["c", "d"]] (framesVideo ["a", "b", "c", "d"])
    (fun _ _ => rfl)

/-- The second pair was the video before, with larger frames. -/
theorem second_pair_of_another_size : ¬AgreesWithFresh
    (batchGetVideoImageList twoSizes (cachesAfter twoSizes [framesVideo ["c", "d"]])
      (framesVideo ["a", "b", "c", "d"])).1
    (batchGetVideoImageList twoSizes PreprocessCaches.empty
      (framesVideo ["a", "b", "c", "d"])).1 := by
  intro h
  have hwarm : some (8, 8) ∈ gridsOf (batchGetVideoImageList twoSizes
      (cachesAfter twoSizes [framesVideo ["c", "d"]]) (framesVideo ["a", "b", "c", "d"])).1 := by
    decide +kernel
  have hfresh : some (4, 4) ∈ gridsOf (batchGetVideoImageList twoSizes PreprocessCaches.empty
      (framesVideo ["a", "b", "c", "d"])).1 := by
    decide +kernel
  have hsame := h.grids hwarm hfresh
  revert hsame
  decide

end DashInfer.Vision
