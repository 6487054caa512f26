import Mathlib
import DashInfer.Vision.MailStep
import DashInfer.Vision.Request

/-!
Which embedding a placeholder span gets. The engine is handed the results in the
order in which they came to the group: the hits of the cache first, then the
others as the workers finish. The keys are in prompt order.
-/

namespace DashInfer.Vision

variable {T E : Type} {visual : T → Grid → E}

/-- What `hie_vit_forward` leaves: the hits, if there is nothing else, or what a
call of `eval` makes of them in some run of the workers. `received` are the
results in the order in which the call took them. -/
inductive HieVitForward (visual : T → Grid → E) (found : VitGroup E)
    (images : List (Option (VitInput T))) (gridThw : Option (List (Option (List Int)))) :
    List (Vit E) → VitGroup E → Prop
  | cached (h : ∀ image ∈ images, image = none) :
      HieVitForward visual found images gridThw [] found
  | evaluated {n : Nat} {events : List (Event n T E)} {s : State n T E} {call : Eval T E}
      (hrun : exec visual (State.init n T E) events = some s)
      (hcall : s.evals found.requestId = some call) (hreturned : call.status = .returned)
      (hfound : call.found = found) (himages : call.images = images)
      (hgrids : call.gridThw = gridThw) :
      HieVitForward visual found images gridThw call.received call.hieResults

/-- The result of the image at a place of the prompt: from the cache, or else
what the vision tower makes of it. -/
def imageResult (visual : T → Grid → E) (requestId : Int) (hits : List (Option (Vit E)))
    (info : ImagesInfo T) (place : Int) : Option (Vit E) :=
  match hits[place.toNat]? with
  | some (some vit) => some vit
  | _ =>
      match info.images[place.toNat]? with
      | some (some image) => processRequest visual false {
          requestId, vitId := place, vitInput := image
          vitGridThw := State.gridAt info.gridThw place.toNat, startTime := 0 }
      | _ => none

/-- The span, the grid and the key at place `i` go with the embedding `vit`
has. -/
structure Paired (rows : E → Nat) (keys : List (List Nat)) (request : AllSparkRequest E)
    (i : Nat) (vit : Vit E) : Prop where
  embs : request.vitEmbs[i]? = some vit.vitEmbs
  span : (targetSpanLengths request.vitTargetToken request.inputIds)[i]? = some (vit.len rows)
  grid : request.vitPositions[i]? = some vit.vitGridThw
  key : ∃ key bytes, keys[i]? = some key ∧ fromHex (key ++ vitLenHex (vit.len rows)) = .ok bytes ∧
    request.vitKeys[i]? = some bytes

/-- Two places have the same embedding and the same grid. -/
def SameImage (a b : Option (Vit E)) : Prop :=
  ∃ v w, a = some v ∧ b = some w ∧ v.vitEmbs = w.vitEmbs ∧ v.vitGridThw = w.vitGridThw

section Group

variable {vits received : List (Vit E)}

theorem length_addVit_le (vits : List (Vit E)) (vit : Vit E) :
    (addVit vits vit).length ≤ vits.length + 1 := by
  unfold addVit
  split <;> simp

theorem length_foldl_addVit_le (vits received : List (Vit E)) :
    (received.foldl addVit vits).length ≤ vits.length + received.length := by
  induction received generalizing vits with
  | nil => simp
  | cons vit rest ih =>
      have hone := length_addVit_le vits vit
      have hrest := ih (addVit vits vit)
      simp only [List.foldl_cons, List.length_cons]
      omega

/-- If no id came twice, the group is the results in the order they came. -/
theorem foldl_addVit_eq_append
    (h : (received.foldl addVit vits).length = vits.length + received.length) :
    received.foldl addVit vits = vits ++ received := by
  induction received generalizing vits with
  | nil => simp
  | cons vit rest ih =>
      simp only [List.foldl_cons, List.length_cons] at h ⊢
      have hle := length_foldl_addVit_le (addVit vits vit) rest
      have hone := length_addVit_le vits vit
      have hnew : vit.vitId ∉ vits.map (·.vitId) := by
        intro hmem
        have hsame : (addVit vits vit).length = vits.length := by
          unfold addVit
          simp only [hmem, if_true, List.length_map]
        omega
      rw [ih (by omega), addVit_of_new hnew, List.append_assoc, List.singleton_append]

theorem vits_foldl_addVit (group : VitGroup E) (received : List (Vit E)) :
    (received.foldl VitGroup.addVit group).vits = received.foldl addVit group.vits := by
  induction received generalizing group with
  | nil => rfl
  | cons vit rest ih => exact ih (group.addVit vit)

theorem requestId_foldl_addVit (group : VitGroup E) (received : List (Vit E)) :
    (received.foldl VitGroup.addVit group).requestId = group.requestId := by
  induction received generalizing group with
  | nil => rfl
  | cons vit rest ih => exact ih (group.addVit vit)

end Group

section Hits

variable {requestId : Int}

/-- The hit at place `j` has the id of its place. -/
theorem vitId_of_hitVits {i j : Nat} {results : List (Option (E × Option (List Int)))}
    {vit : Vit E} (h : (hitVits requestId i results)[j]? = some (some vit)) :
    vit.vitId = (i + j : Nat) := by
  induction results generalizing i j with
  | nil => simp [hitVits] at h
  | cons result rest ih =>
      cases j with
      | zero =>
          cases result with
          | none => simp [hitVits] at h
          | some found =>
              simp only [hitVits, List.getElem?_cons_zero, Option.some.injEq] at h
              subst h
              rfl
      | succ j =>
          cases result with
          | none =>
              simp only [hitVits, List.getElem?_cons_succ] at h
              rw [ih h]
              congr 1
              omega
          | some found =>
              simp only [hitVits, List.getElem?_cons_succ] at h
              rw [ih h]
              congr 1
              omega

theorem vitId_of_mem_hitVits {i : Nat} {results : List (Option (E × Option (List Int)))}
    {vit : Vit E} (h : vit ∈ (hitVits requestId i results).reduceOption) :
    (i : Int) ≤ vit.vitId ∧ (hitVits requestId i results)[vit.vitId.toNat - i]? =
      some (some vit) := by
  obtain ⟨j, hj⟩ := List.mem_iff_getElem?.mp (List.reduceOption_mem_iff.mp h)
  have hplace := vitId_of_hitVits hj
  refine ⟨by omega, ?_⟩
  rw [hplace, Int.toNat_natCast, Nat.add_sub_cancel_left]
  exact hj

theorem length_clearHits {α β : Type} {hits : List (Option α)} {images left : List (Option β)}
    (h : clearHits hits images = some left) : left.length = images.length := by
  induction hits generalizing images left with
  | nil =>
      cases h
      rfl
  | cons hit hits ih =>
      cases images with
      | nil =>
          cases hit with
          | none => exact ih h
          | some _ => cases h
      | cons image images =>
          cases hit with
          | none =>
              obtain ⟨rest, hrest, rfl⟩ := Option.map_eq_some_iff.mp h
              simp [ih hrest]
          | some _ =>
              obtain ⟨rest, hrest, rfl⟩ := Option.map_eq_some_iff.mp h
              simp [ih hrest]

theorem length_validImages_le {α : Type} (i : Nat) (images : List (Option α)) :
    (validImages i images).length ≤ images.length := by
  induction images generalizing i with
  | nil => simp [validImages]
  | cons image rest ih =>
      have := ih (i + 1)
      cases image <;> simp only [validImages, List.length_cons] <;> omega

/-- A place is a hit, or an image is left there, or neither. -/
theorem length_hits_add_left {α β : Type} {hits : List (Option α)}
    {images left : List (Option β)} (h : clearHits hits images = some left) (i : Nat) :
    hits.reduceOption.length + (validImages i left).length ≤ images.length := by
  induction hits generalizing images left i with
  | nil =>
      cases h
      simpa using length_validImages_le i images
  | cons hit hits ih =>
      cases images with
      | nil =>
          cases hit with
          | none => simpa using ih h i
          | some _ => cases h
      | cons image images =>
          cases hit with
          | none =>
              obtain ⟨rest, hrest, rfl⟩ := Option.map_eq_some_iff.mp h
              have := ih hrest (i + 1)
              rw [List.reduceOption_cons_of_none]
              cases image <;> simp only [validImages, List.length_cons] <;> omega
          | some _ =>
              obtain ⟨rest, hrest, rfl⟩ := Option.map_eq_some_iff.mp h
              have := ih hrest (i + 1)
              rw [List.reduceOption_cons_of_some]
              simp only [validImages, List.length_cons]
              omega

/-- An image that is left is where it was, and is no hit. -/
theorem getElem?_clearHits {α β : Type} {hits : List (Option α)} {images left : List (Option β)}
    (h : clearHits hits images = some left) {j : Nat} {image : β}
    (hj : left[j]? = some (some image)) :
    images[j]? = some (some image) ∧ ∀ hit, hits[j]? ≠ some (some hit) := by
  induction hits generalizing images left j with
  | nil =>
      cases h
      exact ⟨hj, fun hit himp => by simp at himp⟩
  | cons entry hits ih =>
      cases images with
      | nil =>
          have hlen := length_clearHits h
          rw [List.length_nil, List.length_eq_zero_iff] at hlen
          subst hlen
          cases hj
      | cons other images =>
          cases entry with
          | none =>
              obtain ⟨rest, hrest, rfl⟩ := Option.map_eq_some_iff.mp h
              cases j with
              | zero => exact ⟨by simpa using hj, by simp⟩
              | succ j => simpa using ih hrest (by simpa using hj)
          | some _ =>
              obtain ⟨rest, hrest, rfl⟩ := Option.map_eq_some_iff.mp h
              cases j with
              | zero => simp at hj
              | succ j => simpa using ih hrest (by simpa using hj)

end Hits

/-- What a call received for request `requestId` are results of its images, also
if a worker put one of them twice. -/
theorem genuine_of_received {n : Nat} {s : State n T E} (h : Delivered visual s) {requestId : Int}
    {call : Eval T E} (hcall : s.evals requestId = some call) {vit : Vit E}
    (hvit : vit ∈ call.received) : ∃ entry ∈ validImages 0 call.images,
      processRequest visual false (State.taskOf requestId call 0 entry.1 entry.2) = some vit := by
  have hin := (h.mail.calls requestId call hcall).received.subset hvit
  rw [mem_ofRequest] at hin
  obtain ⟨hsent, hrequest⟩ := hin
  obtain ⟨message, hmessage, hresult⟩ := List.mem_map.mp hsent
  have hsource : ∃ task ∈ s.queued, processRequest visual false task = some vit := by
    cases hfailed : message.failed with
    | false =>
        exact ⟨message.task, h.tasks.sentQueued message hmessage,
          hresult ▸ h.tasks.genuine message hmessage hfailed⟩
    | true =>
        obtain ⟨earlier, hearlier, hok, hsame, _⟩ := h.tasks.stale message hmessage hfailed
        exact ⟨earlier.task, h.tasks.sentQueued earlier hearlier,
          hresult ▸ hsame ▸ h.tasks.genuine earlier hearlier hok⟩
  obtain ⟨task, hqueued, htask⟩ := hsource
  have hid : task.requestId = requestId :=
    (congrArg Prod.fst (key_of_processRequest htask)).symm.trans hrequest
  obtain ⟨entry, hentry, now, rfl⟩ := mem_validImages_of_queued h hcall hqueued hid
  exact ⟨entry, hentry, htask⟩

section Arrival

variable {cache : CacheView E} {requestId : Int} {info left : ImagesInfo T}
  {found group : VitGroup E} {received : List (Vit E)}

/-- The places of the images, in the order in which their results came: the hits
of the cache, then what the workers sent. -/
def arrivals (cache : CacheView E) (requestId : Int) (info : ImagesInfo T)
    (received : List (Vit E)) : List Int :=
  ((cacheHits cache requestId info).reduceOption ++ received).map (·.vitId)

theorem getCacheVitResult_cases (h : getCacheVitResult cache requestId info = some (found, left)) :
    clearHits (cacheHits cache requestId info) info.images = some left.images ∧
    left.gridThw = info.gridThw ∧ left.urls = info.urls ∧ found.requestId = requestId ∧
    found.vits = (cacheHits cache requestId info).reduceOption.foldl addVit [] := by
  obtain ⟨images, himages, heq⟩ := Option.map_eq_some_iff.mp h
  cases heq
  refine ⟨himages, rfl, rfl, ?_, ?_⟩
  · exact requestId_foldl_addVit (VitGroup.empty requestId) _
  · exact vits_foldl_addVit (VitGroup.empty requestId) _

theorem imageResult_of_hit {vit : Vit E}
    (h : vit ∈ (cacheHits cache requestId info).reduceOption) :
    0 ≤ vit.vitId ∧
      imageResult visual requestId (cacheHits cache requestId info) info vit.vitId = some vit := by
  obtain ⟨hle, hget⟩ := vitId_of_mem_hitVits h
  refine ⟨hle, ?_⟩
  unfold imageResult cacheHits
  rw [Nat.sub_zero] at hget
  rw [hget]

theorem imageResult_of_left
    (h : clearHits (cacheHits cache requestId info) info.images = some left.images)
    (hgrids : left.gridThw = info.gridThw) {call : Eval T E} (himages : call.images = left.images)
    (hcallGrids : call.gridThw = left.gridThw) {entry : Nat × VitInput T}
    (hentry : entry ∈ validImages 0 call.images) :
    imageResult visual requestId (cacheHits cache requestId info) info entry.1 =
      processRequest visual false (State.taskOf requestId call 0 entry.1 entry.2) := by
  obtain ⟨_, hleft⟩ := mem_validImages.mp hentry
  rw [Nat.sub_zero, himages] at hleft
  obtain ⟨himage, hnone⟩ := getElem?_clearHits h hleft
  unfold imageResult
  rw [Int.toNat_natCast]
  cases hhit : (cacheHits cache requestId info)[entry.1]? with
  | none =>
      simp only [himage]
      rw [← hgrids, ← hcallGrids]
      rfl
  | some hit =>
      cases hit with
      | none =>
          simp only [himage]
          rw [← hgrids, ← hcallGrids]
          rfl
      | some vit => exact absurd hhit (hnone vit)

/-- With one result for each image, the group is the hits and then what the
workers sent, and each of them is the result of its own image. -/
theorem vits_of_forward (hcache : getCacheVitResult cache requestId info = some (found, left))
    (hvit : HieVitForward visual found left.images left.gridThw received group)
    (hnum : info.images.length = group.vits.length) :
    group.vits = (cacheHits cache requestId info).reduceOption ++ received ∧
    ∀ vit ∈ group.vits, 0 ≤ vit.vitId ∧
      imageResult visual requestId (cacheHits cache requestId info) info vit.vitId = some vit := by
  obtain ⟨hclear, hgrids, _, hid, hfound⟩ := getCacheVitResult_cases hcache
  have hcount := length_hits_add_left hclear 0
  have hhits := length_foldl_addVit_le [] (cacheHits cache requestId info).reduceOption
  rw [← hfound, List.length_nil, Nat.zero_add] at hhits
  cases hvit with
  | cached hnone =>
      have hall : found.vits = (cacheHits cache requestId info).reduceOption := by
        rw [hfound]
        apply foldl_addVit_eq_append
        rw [← hfound, List.length_nil]
        omega
      refine ⟨by rw [hall, List.append_nil], ?_⟩
      intro vit hmem
      rw [hall] at hmem
      exact imageResult_of_hit hmem
  | @evaluated n events s call hrun hcall hreturned hcallFound himages hcallGrids =>
      have hdelivered := (@Delivered.init n T E visual).exec hrun
      have hmail := hdelivered.mail.calls found.requestId call hcall
      have hreceived := (hmail.returned hreturned).2
      rw [Eval.num, himages] at hreceived
      have hgroup := hmail.group
      rw [hcallFound] at hgroup
      have hle := length_foldl_addVit_le found.vits call.received
      rw [← hgroup] at hle
      have happend : call.hieResults.vits = found.vits ++ call.received := by
        rw [hgroup]
        apply foldl_addVit_eq_append
        rw [← hgroup]
        omega
      have hall : found.vits = (cacheHits cache requestId info).reduceOption := by
        rw [hfound]
        apply foldl_addVit_eq_append
        rw [← hfound, List.length_nil]
        omega
      refine ⟨by rw [happend, hall], ?_⟩
      intro vit hmem
      rw [happend, List.mem_append] at hmem
      rcases hmem with hhit | hnew
      · rw [hall] at hhit
        exact imageResult_of_hit hhit
      · rw [hid] at hcall
        obtain ⟨entry, hentry, hresult⟩ := genuine_of_received hdelivered hcall hnew
        have hplace : vit.vitId = entry.1 :=
          congrArg Prod.snd (key_of_processRequest hresult)
        refine ⟨by omega, ?_⟩
        rw [hplace, imageResult_of_left hclear hgrids himages hcallGrids hentry]
        exact hresult

end Arrival

section Answer

variable {rows : E → Nat} {maxTotalLen : Nat} {group : VitGroup E}

theorem get?_eq_some {vit : Vit E} {id : Int} (h : group.get? id = some vit) :
    vit ∈ group.vits ∧ vit.vitId = id := by
  have hid := List.find?_some h
  exact ⟨List.mem_of_find?_eq_some h, by simpa using hid⟩

/-- The key at place `j` is made with the length of the result whose id is
`j`. -/
theorem keyBytes_getElem? {i : Nat} {keys bytes : List (List Nat)}
    (h : keyBytes rows group i keys = .ok bytes) {j : Nat} (hj : j < keys.length) :
    ∃ key vit keyed, keys[j]? = some key ∧ group.get? ((i + j : Nat) : Int) = some vit ∧
      fromHex (key ++ vitLenHex (vit.len rows)) = .ok keyed ∧ bytes[j]? = some keyed := by
  induction keys generalizing i j bytes with
  | nil => cases hj
  | cons key rest ih =>
      simp only [keyBytes] at h
      split at h
      · cases h
      · next vit hget =>
          cases hkeyed : fromHex (key ++ vitLenHex (vit.len rows)) with
          | error message =>
              rw [hkeyed] at h
              cases h
          | ok keyed =>
              cases hmore : keyBytes rows group (i + 1) rest with
              | error message =>
                  rw [hkeyed, hmore] at h
                  cases h
              | ok more =>
                  rw [hkeyed, hmore] at h
                  cases h
                  cases j with
                  | zero => exact ⟨key, vit, keyed, rfl, hget, hkeyed, rfl⟩
                  | succ j =>
                      have hplace : i + 1 + j = i + (j + 1) := by omega
                      have hrest := ih hmore (Nat.lt_of_succ_lt_succ hj)
                      rw [hplace] at hrest
                      simpa using hrest

/-- What a request that was made says of the results it was made of. -/
structure Made (rows : E → Nat) (keys : List (List Nat)) (group : VitGroup E)
    (request : AllSparkRequest E) : Prop where
  embs : request.vitEmbs = group.vits.map (·.vitEmbs)
  grids : request.vitPositions = group.vits.map (·.vitGridThw)
  spans : targetSpanLengths request.vitTargetToken request.inputIds =
    group.vits.map (·.len rows)
  keyed : keyBytes rows group 0 keys = .ok request.vitKeys
  count : keys.length = group.vits.length

theorem getAsRequest_made {vl : VLRequest} {request : AllSparkRequest E}
    (h : getAsRequest rows maxTotalLen vl group = .ok request) :
    Made rows vl.keys group request := by
  unfold getAsRequest at h
  split at h
  · cases h
  · next sourceTokens _ =>
      simp only at h
      cases hprepare : prepareMultimodalTokens (sourceTokens.map (fun token =>
          if token = replaceBos then imageBos
          else if token = replaceEos then imageEos else token))
          (group.vits.map (·.len rows)) imageBos imageEos imageTarget with
      | error message =>
          rw [hprepare] at h
          cases h
      | ok prepared =>
          rw [hprepare] at h
          simp only [Except.bind, bind] at h
          split at h
          · cases h
          · next hcount =>
              cases hkeys : keyBytes rows group 0 vl.keys with
              | error message =>
                  rw [hkeys] at h
                  cases h
              | ok vitKeys =>
                  rw [hkeys] at h
                  simp only at h
                  split at h
                  · cases h
                  · cases hlens : tokenLens rows group 0 vl.mmTypes with
                    | error message =>
                        rw [hlens] at h
                        cases h
                    | ok lens =>
                        rw [hlens] at h
                        cases h
                        rw [Decidable.not_not] at hcount
                        exact ⟨rfl, rfl, targetSpanLengths_prepare hprepare, hkeys, hcount⟩
  · cases h

variable {cache : CacheView E} {requestId : Int} {info left : ImagesInfo T}
  {found : VitGroup E} {received : List (Vit E)} {inputTokens : List (List Int)}
  {request : AllSparkRequest E}

theorem buildRequest_made (h : buildRequest rows maxTotalLen cache requestId inputTokens left group =
    .ok request) : left.images.length = group.vits.length ∧
      Made rows (left.urls.map cache.md5) group request := by
  unfold buildRequest at h
  split at h
  · cases h
  · split at h
    · cases h
    · split at h
      · cases h
      · next hnum =>
          rw [Decidable.not_not] at hnum
          exact ⟨hnum, getAsRequest_made h⟩

/-- The embeddings of a request stand in prompt order exactly if the image whose
result came `i`-th has the embedding and the grid of the `i`-th image of the
prompt. -/
theorem paired_iff_sameImage
    (hcache : getCacheVitResult cache requestId info = some (found, left))
    (hvit : HieVitForward visual found left.images left.gridThw received group)
    (hrequest : buildRequest rows maxTotalLen cache requestId inputTokens left group =
      .ok request) :
    (∀ i < info.images.length, ∃ vit,
      imageResult visual requestId (cacheHits cache requestId info) info i = some vit ∧
        Paired rows (info.urls.map cache.md5) request i vit) ↔
    ∀ (i : Nat) (place : Int), (arrivals cache requestId info received)[i]? = some place →
      SameImage (imageResult visual requestId (cacheHits cache requestId info) info place)
        (imageResult visual requestId (cacheHits cache requestId info) info i) := by
  obtain ⟨hclear, _, hurls, _, _⟩ := getCacheVitResult_cases hcache
  obtain ⟨hleft, hmade⟩ := buildRequest_made hrequest
  have hnum : info.images.length = group.vits.length := (length_clearHits hclear).symm.trans hleft
  obtain ⟨hvits, hown⟩ := vits_of_forward hcache hvit hnum
  rw [hurls] at hmade
  have harrivals : arrivals cache requestId info received = group.vits.map (·.vitId) := by
    rw [arrivals, hvits]
  have hplace : ∀ {i : Nat} {place : Int}, (arrivals cache requestId info received)[i]? =
      some place → ∃ vit, group.vits[i]? = some vit ∧
        imageResult visual requestId (cacheHits cache requestId info) info place = some vit := by
    intro i place hi
    rw [harrivals, List.getElem?_map] at hi
    obtain ⟨vit, hget, rfl⟩ := Option.map_eq_some_iff.mp hi
    exact ⟨vit, hget, (hown vit (List.mem_of_getElem? hget)).2⟩
  constructor
  · intro hpaired i place hi
    obtain ⟨came, hcame, hresult⟩ := hplace hi
    have hlt : i < info.images.length := hnum ▸ (List.getElem?_eq_some_iff.mp hcame).1
    obtain ⟨vit, hvitResult, hpair⟩ := hpaired i hlt
    have hembs := hpair.embs
    have hgrid := hpair.grid
    rw [hmade.embs, List.getElem?_map, hcame] at hembs
    rw [hmade.grids, List.getElem?_map, hcame] at hgrid
    exact ⟨came, vit, hresult, hvitResult, Option.some.inj hembs, Option.some.inj hgrid⟩
  · intro hsame i hlt
    have hget : ∃ came, group.vits[i]? = some came :=
      ⟨_, List.getElem?_eq_getElem (hnum ▸ hlt)⟩
    obtain ⟨came, hcame⟩ := hget
    have hi : (arrivals cache requestId info received)[i]? = some came.vitId := by
      rw [harrivals, List.getElem?_map, hcame]
      rfl
    obtain ⟨v, vit, hv, hvitResult, hembs, hgrid⟩ := hsame i came.vitId hi
    rw [(hown came (List.mem_of_getElem? hcame)).2] at hv
    cases hv
    have hlen : came.len rows = vit.len rows := by
      unfold Vit.len
      rw [hembs]
    obtain ⟨key, keyVit, bytes, hkey, hid, hbytes, hin⟩ := keyBytes_getElem? hmade.keyed
      (j := i) (by rw [hmade.count]; omega)
    rw [Nat.zero_add] at hid
    obtain ⟨hkeyMem, hkeyId⟩ := get?_eq_some hid
    have hkeyVit := (hown keyVit hkeyMem).2
    rw [hkeyId, hvitResult] at hkeyVit
    cases hkeyVit
    refine ⟨vit, hvitResult, ?_, ?_, ?_, key, bytes, hkey, hbytes, hin⟩
    · rw [hmade.embs, List.getElem?_map, hcame, ← hembs]
      rfl
    · rw [hmade.spans, List.getElem?_map, hcame, ← hlen]
      rfl
    · rw [hmade.grids, List.getElem?_map, hcame, ← hgrid]
      rfl

end Answer

/-- A cache in which embeddings are numbers and have one row each. -/
def numberCache (lookup : List Nat → Option (Nat × Option (List Int))) : CacheView Nat :=
  { md5 := fun url => List.replicate 32 url.length, lookup, rows := fun _ => 1 }

/-- One image, which the cache has. -/
theorem paired_iff_sameImage_cached :
    let cache := numberCache (fun _ => some (5, some [1, 2, 2]))
    let info : ImagesInfo Nat :=
      { images := [some (.tensor 10)], urls := ["a"], gridThw := some [some [1, 2, 2]] }
    let found := (cacheHits cache 7 info).reduceOption.foldl VitGroup.addVit (VitGroup.empty 7)
    let left : ImagesInfo Nat := { info with images := [none] }
    ∃ request, buildRequest (fun _ => 1) 32000 cache 7 [[imageBos, imageEos]] left found =
        .ok request ∧
      ((∀ i < info.images.length, ∃ vit,
        imageResult (fun image _ => image) 7 (cacheHits cache 7 info) info i = some vit ∧
          Paired (fun _ => 1) (info.urls.map cache.md5) request i vit) ↔
      ∀ (i : Nat) (place : Int), (arrivals cache 7 info [])[i]? = some place →
        SameImage (imageResult (fun image _ => image) 7 (cacheHits cache 7 info) info place)
          (imageResult (fun image _ => image) 7 (cacheHits cache 7 info) info i)) := by
  intro cache info found left
  have hcache : getCacheVitResult cache 7 info = some (found, left) := rfl
  have hrequest : buildRequest (fun _ => 1) 32000 cache 7 [[imageBos, imageEos]] left found =
    .ok _ := rfl
  exact ⟨_, hrequest, paired_iff_sameImage hcache (.cached (by decide)) hrequest⟩

/-- Two workers and a request with two images; the second image is done
first. -/
def overtakingRun : List (Event 2 Nat Nat) :=
  [.eval (VitGroup.empty 7) [some (.tensor 10), some (.tensor 20)]
      (some [some [1, 2, 2], some [1, 2, 2]]),
    .put 7 0, .put 7 0, .take ⟨0, Nat.two_pos⟩ 0, .take ⟨1, Nat.one_lt_two⟩ 0,
    .finish ⟨1, Nat.one_lt_two⟩ false, .finish ⟨0, Nat.two_pos⟩ false,
    .route, .handOver, .route, .handOver, .receive 7, .receive 7, .leave 7]

theorem isSome_overtakingRun :
    (exec (fun image _ => image) (State.init 2 Nat Nat) overtakingRun).isSome := by decide

/-- The first span is then given the embedding of the second image. -/
theorem not_paired : ¬ ∀ (T E : Type) (visual : T → Grid → E) (rows : E → Nat) (maxTotalLen : Nat)
    (cache : CacheView E) (requestId : Int) (info left : ImagesInfo T) (found group : VitGroup E)
    (received : List (Vit E)) (inputTokens : List (List Int)) (request : AllSparkRequest E),
    getCacheVitResult cache requestId info = some (found, left) →
    HieVitForward visual found left.images left.gridThw received group →
    buildRequest rows maxTotalLen cache requestId inputTokens left group = .ok request →
    ∀ i < info.images.length, ∃ vit,
      imageResult visual requestId (cacheHits cache requestId info) info i = some vit ∧
        Paired rows (info.urls.map cache.md5) request i vit := by
  intro h
  have hpaired := h Nat Nat (fun image _ => image) (fun _ => 1) 32000 (numberCache (fun _ => none))
    7 { images := [some (.tensor 10), some (.tensor 20)], urls := ["a", "bc"]
        gridThw := some [some [1, 2, 2], some [1, 2, 2]] } _ _ _ _
    [[imageBos, imageEos, imageBos, imageEos]] _ rfl
    (.evaluated (Option.some_get isSome_overtakingRun).symm rfl rfl rfl rfl rfl) rfl 0 (by decide)
  obtain ⟨vit, hresult, hpair⟩ := hpaired
  cases hresult
  cases hpair.embs

end DashInfer.Vision
