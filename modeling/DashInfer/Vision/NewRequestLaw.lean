import Mathlib
import DashInfer.Vision.CacheLookup
import DashInfer.Vision.NewRequest
import DashInfer.Vision.TruncateLaw

/-!
When the media of a request stay with their vision-start tokens. The keys, types and
results are cut to the last ones, so the media in the system part lose theirs, and when
no vision-start token is left nothing is cut.
-/

namespace DashInfer.Vision

variable {T α : Type}

/-- The tokens of the segments that the truncation keeps behind the system part. -/
def reservedTokens (inputIds : List Int) (truncateLengths visionLengths : List Nat)
    (maxInputTokens bosId : Int) : Nat :=
  keptTokens truncateLengths.tail
    (reserveIndex (maxInputTokens - (truncateLengths.headD 0 : Nat))
      (realAll bosId (revSegments truncateLengths)
        (revInputIds inputIds (truncateLengths.headD 0)) visionLengths.reverse))

/-- The entry at one place is the entry at another. -/
def SameAt {β : Type} (entries : List β) (i j : Nat) : Prop := entries[i]? = entries[j]?

/-- The requests whose media stay aligned: without a truncation there is one result for
each vision-start token; with one, a vision-start token is left unless there are no
media, and the media of the system part are those that take their places. -/
def StaysAligned (md5 : String → String) (bosId : Int) (vlPreResult : List (PreResult T))
    (request : VLMediaRequest T) : Prop :=
  match request.truncateLengths, request.inputTokens with
  | some truncateLengths, some (inputIds :: _) =>
      let system := (inputIds.take (truncateLengths.headD 0)).count bosId
      let reserved := (inputIds.drop (inputIds.length - reservedTokens inputIds truncateLengths
        (vlPreResult.map PreResult.vitLen) request.maxInputLength bosId)).count bosId
      (system + reserved = 0 → vlPreResult = []) ∧
        ∀ i < system,
          SameAt vlPreResult i (vlPreResult.length - (system + reserved) + i) ∧
          SameAt (request.preprocessReq.map (fun item => md5 (keyText item))) i
            (vlPreResult.length - (system + reserved) + i) ∧
          SameAt (request.preprocessReq.map mmType) i
            (vlPreResult.length - (system + reserved) + i)
  | _, _ => request.tokens.count bosId = vlPreResult.length

section Lists

variable {β γ : Type}

theorem length_lastSlice {count : Nat} {list : List β} (h : count ≤ list.length)
    (hpos : 0 < count) : (lastSlice count list).length = count := by
  unfold lastSlice
  rw [if_neg (Nat.ne_of_gt hpos), List.length_drop]
  omega

theorem lastSlice_length (list : List β) : lastSlice list.length list = list := by
  unfold lastSlice
  split
  · rfl
  · rw [Nat.sub_self, List.drop_zero]

theorem map_lastSlice (f : β → γ) (count : Nat) (list : List β) :
    (lastSlice count list).map f = lastSlice count (list.map f) := by
  unfold lastSlice
  split
  · rfl
  · rw [List.map_drop, List.length_map]

/-- The first entries and the last ones are the last ones together, just where the first
are those that stand in front of the last. -/
theorem splice_eq_lastSlice_iff {list : List β} {a b : Nat} (hle : a + b ≤ list.length)
    (hpos : 0 < a + b) :
    lastSlice (a + b) list = list.take a ++ list.drop (list.length - b) ↔
      ∀ i < a, SameAt list i (list.length - (a + b) + i) := by
  have hsplit : lastSlice (a + b) list =
      (list.drop (list.length - (a + b))).take a ++ list.drop (list.length - b) := by
    unfold lastSlice
    rw [if_neg (Nat.ne_of_gt hpos)]
    conv_lhs => rw [← List.take_append_drop a (list.drop (list.length - (a + b)))]
    rw [List.drop_drop]
    congr 2
    omega
  rw [hsplit, List.append_left_inj]
  unfold SameAt
  constructor
  · intro heq i hi
    have hat := congrArg (fun l => l[i]?) heq
    simp only [List.getElem?_take_of_lt hi, List.getElem?_drop] at hat
    exact hat.symm
  · intro hsame
    apply List.ext_getElem?
    intro i
    rcases Nat.lt_or_ge i a with hi | hi
    · rw [List.getElem?_take_of_lt hi, List.getElem?_take_of_lt hi, List.getElem?_drop]
      exact (hsame i hi).symm
    · rw [List.getElem?_take_eq_none hi, List.getElem?_take_eq_none hi]

theorem count_take_add_count_drop_le {bosId : Int} {tokens : List Int} {m n : Nat} (h : m ≤ n) :
    (tokens.take m).count bosId + (tokens.drop n).count bosId ≤ tokens.count bosId := by
  have hsplit := congrArg (List.count bosId) (List.take_append_drop m tokens)
  rw [List.count_append] at hsplit
  obtain ⟨more, rfl⟩ := Nat.exists_eq_add_of_le h
  have hless : (tokens.drop (m + more)).count bosId ≤ (tokens.drop m).count bosId := by
    rw [← List.drop_drop]
    exact List.Sublist.count_le bosId (List.drop_sublist _ _)
  omega

end Lists

section Truncation

variable {inputIds : List Int} {truncateLengths visionLengths : List Nat}
  {maxInputTokens bosId : Int} {output : List Int × Nat}

/-- What a truncation that returns has checked, and what it returns. -/
structure Truncated (inputIds : List Int) (truncateLengths visionLengths : List Nat)
    (maxInputTokens bosId : Int) (output : List Int × Nat) : Prop where
  sum : inputIds.length = truncateLengths.sum
  visions : visionLengths.length = inputIds.count bosId
  tokens : output.1 = inputIds.take (truncateLengths.headD 0) ++
    inputIds.drop (inputIds.length -
      reservedTokens inputIds truncateLengths visionLengths maxInputTokens bosId)
  count : output.2 = output.1.count bosId

theorem truncated_of_ok
    (h : qwenVlTruncate inputIds truncateLengths visionLengths maxInputTokens bosId = .ok output) :
    Truncated inputIds truncateLengths visionLengths maxInputTokens bosId output := by
  have hsum : inputIds.length = truncateLengths.sum := by
    by_contra hne
    unfold qwenVlTruncate at h
    rw [if_pos hne] at h
    cases h
  have hvisions : visionLengths.length = inputIds.count bosId := by
    by_contra hne
    unfold qwenVlTruncate at h
    rw [if_neg (not_not.mpr hsum), if_pos (fun heq => hne heq.symm)] at h
    cases h
  have htail : truncateLengths.tail ≠ [] := by
    intro hnil
    unfold qwenVlTruncate at h
    rw [if_neg (not_not.mpr hsum), if_neg (not_not.mpr hvisions.symm)] at h
    match truncateLengths, hnil, h with
    | [], _, h => cases h
    | [_], _, h => cases h
  rw [qwenVlTruncate_eq _ htail hsum hvisions] at h
  unfold truncateTo at h
  dsimp only at h
  split at h
  · cases h
  · cases h
    exact ⟨hsum, hvisions, rfl, rfl⟩

theorem reservedTokens_le (hsum : inputIds.length = truncateLengths.sum) :
    reservedTokens inputIds truncateLengths visionLengths maxInputTokens bosId ≤
      inputIds.length - truncateLengths.headD 0 :=
  keptTokens_le _ hsum

theorem Truncated.count_eq
    (h : Truncated inputIds truncateLengths visionLengths maxInputTokens bosId output) :
    output.1.count bosId = (inputIds.take (truncateLengths.headD 0)).count bosId +
      (inputIds.drop (inputIds.length -
        reservedTokens inputIds truncateLengths visionLengths maxInputTokens bosId)).count bosId := by
  rw [h.tokens, List.count_append]

theorem Truncated.keptEntries_eq
    (h : Truncated inputIds truncateLengths visionLengths maxInputTokens bosId output)
    {β : Type} (entries : List β) :
    keptEntries bosId inputIds output.1 (truncateLengths.headD 0) entries =
      entries.take ((inputIds.take (truncateLengths.headD 0)).count bosId) ++
        entries.drop (entries.length - (inputIds.drop (inputIds.length -
          reservedTokens inputIds truncateLengths visionLengths maxInputTokens
            bosId)).count bosId) := by
  have hreserved := @reservedTokens_le inputIds truncateLengths visionLengths maxInputTokens bosId
    h.sum
  have hhead := headD_le h.sum
  have hlength : output.1.length - truncateLengths.headD 0 =
      reservedTokens inputIds truncateLengths visionLengths maxInputTokens bosId := by
    rw [h.tokens, List.length_append, List.length_take, List.length_drop]
    omega
  rw [keptEntries, hlength]

/-- There are results for the vision-start tokens that are left. -/
theorem Truncated.count_le
    (h : Truncated inputIds truncateLengths visionLengths maxInputTokens bosId output) :
    (inputIds.take (truncateLengths.headD 0)).count bosId +
        (inputIds.drop (inputIds.length - reservedTokens inputIds truncateLengths visionLengths
          maxInputTokens bosId)).count bosId ≤ visionLengths.length := by
  have hreserved := @reservedTokens_le inputIds truncateLengths visionLengths maxInputTokens bosId
    h.sum
  have hhead := headD_le h.sum
  rw [h.visions]
  apply count_take_add_count_drop_le
  omega

end Truncation

section

variable {md5 : String → String}
  {insert : CacheManager α → String → Tensor α → Option (List Int) → CacheManager α}
  {manager : CacheManager α} {vlPreResult : List (PreResult T)} {request : VLMediaRequest T}

theorem map_keptEntries {β γ : Type} (f : β → γ) (bosId : Int) (inputIds outputIds : List Int)
    (systemLength : Nat) (entries : List β) :
    (keptEntries bosId inputIds outputIds systemLength entries).map f =
      keptEntries bosId inputIds outputIds systemLength (entries.map f) := by
  unfold keptEntries
  rw [List.map_append, List.map_take, List.map_drop, List.length_map]

/-- The results that are kept are the last ones, all of them for zero. -/
theorem newRequest_results (inputTokens : Option (List (List Int))) (count : Nat) :
    (newRequest md5 insert manager vlPreResult request inputTokens count).1 =
      lastSlice count vlPreResult := by
  unfold newRequest lastSlice
  dsimp only
  by_cases hcount : count = 0
  · rw [if_pos hcount, if_neg (by omega)]
  · rw [if_neg hcount, if_pos (by omega)]

theorem newRequest_keys (inputTokens : Option (List (List Int))) (count : Nat) :
    (newRequest md5 insert manager vlPreResult request inputTokens count).2.1.keys =
      (lastSlice count request.preprocessReq).map (fun item => md5 (keyText item)) := rfl

theorem newRequest_types (inputTokens : Option (List (List Int))) (count : Nat) :
    (newRequest md5 insert manager vlPreResult request inputTokens count).2.1.mmTypes =
      (lastSlice count request.preprocessReq).map mmType := rfl

theorem newRequest_tokens (inputTokens : Option (List (List Int))) (count : Nat) :
    (newRequest md5 insert manager vlPreResult request inputTokens count).2.1.tokens =
      (inputTokens.getD []).headD [] := rfl

/-- A request that was truncated to nothing but text keeps all its media. -/
theorem aligned_of_zero {bosId : Int} {inputTokens : Option (List (List Int))}
    (hitems : vlPreResult.length = request.preprocessReq.length)
    (hcount : ((inputTokens.getD []).headD []).count bosId = 0) :
    MediaAligned md5 bosId vlPreResult request
        (newRequest md5 insert manager vlPreResult request inputTokens 0).1
        (newRequest md5 insert manager vlPreResult request inputTokens 0).2.1 ↔
      vlPreResult = [] := by
  constructor
  · intro h
    have hlength := h.results_length
    rw [newRequest_results] at hlength
    exact List.length_eq_zero_iff.mp (hlength.trans hcount)
  · intro hnil
    have hreq : request.preprocessReq = [] := by
      rw [hnil] at hitems
      exact List.length_eq_zero_iff.mp hitems.symm
    subst hnil
    refine ⟨?_, ?_, ?_, ?_, ?_, ?_⟩
    · rw [newRequest_tokens, hcount, newRequest_keys, hreq]
      rfl
    · rw [newRequest_tokens, hcount, newRequest_types, hreq]
      rfl
    · rw [newRequest_tokens, hcount, newRequest_results]
      rfl
    · rw [newRequest_keys, hreq]
      simp [lastSlice, keptEntries]
    · rw [newRequest_types, hreq]
      simp [lastSlice, keptEntries]
    · rw [newRequest_results]
      simp [lastSlice, keptEntries]

/-- With a vision-start token left the media are aligned just where the first entries
are those that stand in front of the last. -/
theorem aligned_iff_same {bosId : Int} {inputTokens : Option (List (List Int))} {a b : Nat}
    (hitems : vlPreResult.length = request.preprocessReq.length)
    (hle : a + b ≤ vlPreResult.length) (hpos : 0 < a + b)
    (hcount : ((inputTokens.getD []).headD []).count bosId = a + b)
    (hkept : ∀ {β : Type} (entries : List β), keptEntries bosId request.tokens
      ((inputTokens.getD []).headD []) request.systemLength entries =
        entries.take a ++ entries.drop (entries.length - b)) :
    MediaAligned md5 bosId vlPreResult request
        (newRequest md5 insert manager vlPreResult request inputTokens (a + b)).1
        (newRequest md5 insert manager vlPreResult request inputTokens (a + b)).2.1 ↔
      ∀ i < a,
        SameAt vlPreResult i (vlPreResult.length - (a + b) + i) ∧
        SameAt (request.preprocessReq.map (fun item => md5 (keyText item))) i
          (vlPreResult.length - (a + b) + i) ∧
        SameAt (request.preprocessReq.map mmType) i (vlPreResult.length - (a + b) + i) := by
  have hreq : a + b ≤ request.preprocessReq.length := by rwa [← hitems]
  have hresults := splice_eq_lastSlice_iff hle hpos
  have hkeys := @splice_eq_lastSlice_iff _
    (request.preprocessReq.map (fun item => md5 (keyText item))) a b (by rwa [List.length_map]) hpos
  have htypes := @splice_eq_lastSlice_iff _ (request.preprocessReq.map mmType) a b
    (by rwa [List.length_map]) hpos
  rw [List.length_map, ← hitems] at hkeys htypes
  constructor
  · intro h i hi
    have hkept' := h.results
    have hkeys' := h.keys
    have htypes' := h.types
    rw [newRequest_results] at hkept'
    rw [map_keptEntries] at hkeys' htypes'
    refine ⟨hresults.mp (hkept'.trans (hkept _)) i hi, hkeys.mp ?_ i hi, htypes.mp ?_ i hi⟩
    · rw [← map_lastSlice]
      refine hkeys'.trans ((hkept _).trans ?_)
      rw [List.length_map, hitems]
    · rw [← map_lastSlice]
      refine htypes'.trans ((hkept _).trans ?_)
      rw [List.length_map, hitems]
  · intro hsame
    refine ⟨?_, ?_, ?_, ?_, ?_, ?_⟩
    · rw [newRequest_keys, List.length_map, length_lastSlice hreq hpos]
      exact hcount.symm
    · rw [newRequest_types, List.length_map, length_lastSlice hreq hpos]
      exact hcount.symm
    · rw [newRequest_results, length_lastSlice hle hpos]
      exact hcount.symm
    · rw [map_keptEntries]
      refine Eq.trans ?_ (hkept _).symm
      rw [List.length_map, ← hitems, ← hkeys.mpr (fun i hi => (hsame i hi).2.1)]
      exact map_lastSlice _ _ _
    · rw [map_keptEntries]
      refine Eq.trans ?_ (hkept _).symm
      rw [List.length_map, ← hitems, ← htypes.mpr (fun i hi => (hsame i hi).2.2)]
      exact map_lastSlice _ _ _
    · rw [newRequest_results, hresults.mpr (fun i hi => (hsame i hi).1)]
      exact (hkept _).symm

/-- Without a truncation the media are aligned just where there is one for each
vision-start token. -/
theorem aligned_of_untruncated {bosId : Int}
    (hitems : vlPreResult.length = request.preprocessReq.length)
    (hsystem : request.systemLength = 0) :
    MediaAligned md5 bosId vlPreResult request
        (newRequest md5 insert manager vlPreResult request request.inputTokens
          vlPreResult.length).1
        (newRequest md5 insert manager vlPreResult request request.inputTokens
          vlPreResult.length).2.1 ↔
      request.tokens.count bosId = vlPreResult.length := by
  have hafter : (newRequest md5 insert manager vlPreResult request request.inputTokens
      vlPreResult.length).2.1.tokens = request.tokens := rfl
  have hslice : lastSlice vlPreResult.length request.preprocessReq = request.preprocessReq := by
    rw [hitems]
    exact lastSlice_length _
  constructor
  · intro h
    have hlength := h.results_length
    rw [newRequest_results, lastSlice_length, hafter] at hlength
    exact hlength.symm
  · intro hcount
    have hkept : ∀ {β : Type} (entries : List β), entries.length = vlPreResult.length →
        keptEntries bosId request.tokens request.tokens request.systemLength entries =
          entries := by
      intro β entries hentries
      unfold keptEntries
      rw [hsystem, List.take_zero, List.count_nil, List.take_zero, List.nil_append, Nat.sub_zero,
        Nat.sub_self, List.drop_zero, hcount, hentries, Nat.sub_self, List.drop_zero]
    refine ⟨?_, ?_, ?_, ?_, ?_, ?_⟩
    · rw [hafter, hcount, newRequest_keys, List.length_map, hslice, hitems]
    · rw [hafter, hcount, newRequest_types, List.length_map, hslice, hitems]
    · rw [newRequest_results, lastSlice_length, hafter, hcount]
    · rw [hafter, hkept _ hitems.symm]
      exact congrArg (List.map (fun item => md5 (keyText item))) hslice
    · rw [hafter, hkept _ hitems.symm]
      exact congrArg (List.map mmType) hslice
    · rw [newRequest_results, lastSlice_length, hafter, hkept _ rfl]

/-- A prompt that is not truncated: no lengths, or no tokens. -/
def VLMediaRequest.Whole (request : VLMediaRequest T) : Prop :=
  ∀ truncateLengths inputIds more, request.truncateLengths = some truncateLengths →
    request.inputTokens ≠ some (inputIds :: more)

theorem truncateInput_whole (modelType : HieModelType) (h : request.Whole) :
    truncateInput modelType vlPreResult request = .ok (request.inputTokens, vlPreResult.length) := by
  unfold truncateInput
  split
  · next truncateLengths inputIds more hlengths htokens =>
      exact absurd htokens (h truncateLengths inputIds more hlengths)
  · rfl

theorem systemLength_whole (h : request.Whole) : request.systemLength = 0 := by
  unfold VLMediaRequest.systemLength
  split
  · next truncateLengths inputIds more hlengths htokens =>
      exact absurd htokens (h truncateLengths inputIds more hlengths)
  · rfl

theorem staysAligned_whole (bosId : Int) (h : request.Whole) :
    StaysAligned md5 bosId vlPreResult request ↔
      request.tokens.count bosId = vlPreResult.length := by
  unfold StaysAligned
  split
  · next truncateLengths inputIds more hlengths htokens =>
      exact absurd htokens (h truncateLengths inputIds more hlengths)
  · exact Iff.rfl

theorem aligned_iff_of_whole {modelType : HieModelType}
    {built : List (PreResult T) × VLMediaRequest T × CacheManager α}
    (hitems : vlPreResult.length = request.preprocessReq.length)
    (hbuilt : buildNewRequestFromCache md5 insert modelType manager vlPreResult request = .ok built)
    (hwhole : request.Whole) :
    MediaAligned md5 (tokenBos modelType) vlPreResult request built.1 built.2.1 ↔
      StaysAligned md5 (tokenBos modelType) vlPreResult request := by
  unfold buildNewRequestFromCache at hbuilt
  rw [truncateInput_whole modelType hwhole] at hbuilt
  dsimp only [bind, Except.bind] at hbuilt
  rw [if_neg (Nat.lt_irrefl _)] at hbuilt
  cases hbuilt
  rw [staysAligned_whole _ hwhole]
  exact aligned_of_untruncated hitems (systemLength_whole hwhole)

theorem aligned_iff_of_truncated {modelType : HieModelType}
    {built : List (PreResult T) × VLMediaRequest T × CacheManager α} {truncateLengths : List Nat}
    {inputIds : List Int} {more : List (List Int)}
    (hitems : vlPreResult.length = request.preprocessReq.length)
    (hbuilt : buildNewRequestFromCache md5 insert modelType manager vlPreResult request = .ok built)
    (hlengths : request.truncateLengths = some truncateLengths)
    (htokens : request.inputTokens = some (inputIds :: more)) :
    MediaAligned md5 (tokenBos modelType) vlPreResult request built.1 built.2.1 ↔
      StaysAligned md5 (tokenBos modelType) vlPreResult request := by
  unfold buildNewRequestFromCache truncateInput at hbuilt
  rw [hlengths, htokens] at hbuilt
  dsimp only at hbuilt
  cases houtput : qwenVlTruncate inputIds truncateLengths (vlPreResult.map PreResult.vitLen)
      request.maxInputLength (tokenBos modelType) with
  | error cause =>
      rw [houtput] at hbuilt
      cases hbuilt
  | ok output =>
      have htruncated := truncated_of_ok houtput
      have hcount := htruncated.count_eq
      have hle := htruncated.count_le
      rw [List.length_map] at hle
      rw [houtput] at hbuilt
      dsimp only [bind, Except.bind] at hbuilt
      rw [htruncated.count, hcount, if_neg (Nat.not_lt.mpr hle)] at hbuilt
      cases hbuilt
      have hsystem : request.systemLength = truncateLengths.headD 0 := by
        unfold VLMediaRequest.systemLength
        rw [hlengths, htokens]
      have hids : request.tokens = inputIds := by
        unfold VLMediaRequest.tokens
        rw [htokens]
        rfl
      unfold StaysAligned
      rw [hlengths, htokens]
      dsimp only
      rcases Nat.eq_zero_or_pos ((inputIds.take (truncateLengths.headD 0)).count
          (tokenBos modelType) + (inputIds.drop (inputIds.length - reservedTokens inputIds
            truncateLengths (vlPreResult.map PreResult.vitLen) request.maxInputLength
              (tokenBos modelType))).count (tokenBos modelType)) with hzero | hpos
      · rw [hzero]
        refine (aligned_of_zero hitems (hcount.trans hzero)).trans ?_
        constructor
        · intro hnil
          refine ⟨fun _ => hnil, fun i hi => ?_⟩
          omega
        · intro h
          exact h.1 rfl
      · refine (aligned_iff_same hitems hle hpos hcount ?_).trans ?_
        · intro β entries
          rw [hids, hsystem]
          exact htruncated.keptEntries_eq entries
        · constructor
          · intro hsame
            exact ⟨fun hzero => absurd hzero (Nat.ne_of_gt hpos), hsame⟩
          · intro h
            exact h.2

theorem buildNewRequestFromCache_aligned_iff (md5 : String → String)
    (insert : CacheManager α → String → Tensor α → Option (List Int) → CacheManager α)
    (modelType : HieModelType) (manager : CacheManager α) (vlPreResult : List (PreResult T))
    (request : VLMediaRequest T) (built : List (PreResult T) × VLMediaRequest T × CacheManager α)
    (hitems : vlPreResult.length = request.preprocessReq.length)
    (hbuilt : buildNewRequestFromCache md5 insert modelType manager vlPreResult request =
      .ok built) :
    MediaAligned md5 (tokenBos modelType) vlPreResult request built.1 built.2.1 ↔
      StaysAligned md5 (tokenBos modelType) vlPreResult request := by
  by_cases hwhole : request.Whole
  · exact aligned_iff_of_whole hitems hbuilt hwhole
  · unfold VLMediaRequest.Whole at hwhole
    push Not at hwhole
    obtain ⟨truncateLengths, inputIds, more, hlengths, htokens⟩ := hwhole
    exact aligned_iff_of_truncated hitems hbuilt hlengths htokens

end

/-- A request with one image, behind one token of a system part. -/
def oneImageRequest (text : List Int) (truncateLengths : List Nat) (maxInputLength : Int) :
    VLMediaRequest Nat where
  inputTokens := some [1 :: 151652 :: text]
  truncateLengths := some truncateLengths
  maxInputLength := maxInputLength
  preprocessReq := [⟨.image, .one "a", none, none, none⟩]
  imagesInfo := none
  audiosInfo := none
  keys := []
  mmTypes := []

/-- The preprocessing of that image. -/
def oneImageResult : List (PreResult Nat) :=
  [.one ⟨⟨.image, some "a", some 0, some [1, 2, 2], none, none⟩, 5⟩]

/-- One image that is kept. -/
theorem buildNewRequestFromCache_aligned_kept :
    MediaAligned id 151652 oneImageResult (oneImageRequest [7] [1, 2] 8)
      (newRequest id (fun m _ _ _ => m) (@uniformManager Int false none) oneImageResult
        (oneImageRequest [7] [1, 2] 8) (some [[1, 151652, 7]]) 1).1
      (newRequest id (fun m _ _ _ => m) (@uniformManager Int false none) oneImageResult
        (oneImageRequest [7] [1, 2] 8) (some [[1, 151652, 7]]) 1).2.1 := by
  have hstays : StaysAligned id 151652 oneImageResult (oneImageRequest [7] [1, 2] 8) := by
    refine ⟨fun hzero => absurd hzero (by decide), fun i hi => ?_⟩
    exact absurd hi (Nat.not_lt_zero i)
  exact (buildNewRequestFromCache_aligned_iff id (fun m _ _ _ => m) .qwen2Vl
    (@uniformManager Int false none) oneImageResult (oneImageRequest [7] [1, 2] 8) _ rfl rfl).mpr
      hstays

/-- One image that is cut off, whose key stays. -/
theorem buildNewRequestFromCache_cut_off :
    ∃ built, buildNewRequestFromCache id (fun m _ _ _ => m) .qwen2Vl
        (@uniformManager Int false none) oneImageResult (oneImageRequest [7, 8] [1, 1, 2] 3) =
          .ok built ∧
      built.2.1.tokens = [1, 7, 8] ∧ built.2.1.keys = ["a"] ∧ built.1 = oneImageResult ∧
      ¬ MediaAligned id 151652 oneImageResult (oneImageRequest [7, 8] [1, 1, 2] 3) built.1
        built.2.1 := by
  refine ⟨newRequest id (fun m _ _ _ => m) (@uniformManager Int false none) oneImageResult
    (oneImageRequest [7, 8] [1, 1, 2] 3) (some [[1, 7, 8]]) 0, rfl, rfl, rfl, rfl, ?_⟩
  intro h
  exact absurd h.results_length (by decide)

end DashInfer.Vision
