import DashInfer.Lib.Fallible
import DashInfer.Vision.Preprocess
import DashInfer.Vision.Request

/-!
The hash keys of media: the md5 of the URL text and the number of rows of the
embedding. When two entries have one key, and when the frames and the grids
behind it are the same.
-/

namespace DashInfer.Vision

open Lib

variable {F : Type}

/-- The text `build_new_request_from_cache` hashes; by then an odd list has been
padded. -/
def mediaText (item : MediaItem) : String :=
  match item.url with
  | .one url => url
  | .list urls => " ".intercalate (padUrls urls)

/-- The length of the embedding: `rows` are those the tower makes of one
tensor, and the parts of a list are joined. -/
def vitLen (rows : Prepared F → Nat) (prepared : List (Prepared F)) : Nat :=
  (prepared.map rows).sum

/-- The entry of `vit_keys`. Media with a grid the tower refuses get none. -/
def mediaKey (md5 : String → List Nat) (rows : Prepared F → Nat) (item : MediaItem)
    (prepared : List (Prepared F)) : Option (List Nat) :=
  if ∀ part ∈ prepared, part.Valid then
    (fromHex (md5 (mediaText item) ++ vitLenHex (vitLen rows prepared))).toOption
  else none

section Hex

theorem ofDigits_hexDigits (n : Nat) : Nat.ofDigits 16 (hexDigits n).reverse = n := by
  unfold hexDigits
  split
  · next h => simp [h]
  · rw [List.reverse_reverse, Nat.ofDigits_digits]

theorem ofDigits_vitLenHex (n : Nat) : Nat.ofDigits 16 (vitLenHex n).reverse = n := by
  unfold vitLenHex
  split
  · rw [List.reverse_cons, Nat.ofDigits_append, ofDigits_hexDigits]
    simp
  · exact ofDigits_hexDigits n

theorem vitLenHex_injective {m n : Nat} (h : vitLenHex m = vitLenHex n) : m = n := by
  rw [← ofDigits_vitLenHex m, h, ofDigits_vitLenHex]

theorem lt_of_mem_vitLenHex {n digit : Nat} (h : digit ∈ vitLenHex n) : digit < 16 := by
  have hdigits : ∀ d ∈ hexDigits n, d < 16 := by
    intro d hd
    unfold hexDigits at hd
    split at hd
    · rw [List.mem_singleton.mp hd]
      omega
    · exact Nat.digits_lt_base (by omega) (List.mem_reverse.mp hd)
  unfold vitLenHex at h
  split at h
  · rcases List.mem_cons.mp h with rfl | hmem
    · omega
    · exact hdigits digit hmem
  · exact hdigits digit h

theorem fromHex_injective {xs ys bytes : List Nat} (hx : ∀ d ∈ xs, d < 16)
    (hy : ∀ d ∈ ys, d < 16) (hxs : fromHex xs = .ok bytes) (hys : fromHex ys = .ok bytes) :
    xs = ys := by
  induction xs using fromHex.induct generalizing ys bytes with
  | case1 =>
      cases hxs
      match ys, hys with
      | [], _ => rfl
      | high :: low :: rest, hys =>
          simp only [fromHex] at hys
          cases hrest : fromHex rest with
          | error message =>
              rw [hrest] at hys
              cases hys
          | ok more =>
              rw [hrest] at hys
              cases hys
  | case2 d => cases hxs
  | case3 high low rest ih =>
      simp only [fromHex] at hxs
      cases hrest : fromHex rest with
      | error message =>
          rw [hrest] at hxs
          cases hxs
      | ok more =>
          rw [hrest] at hxs
          cases hxs
          match ys, hys with
          | high' :: low' :: rest', hys =>
              simp only [fromHex] at hys
              cases hrest' : fromHex rest' with
              | error message =>
                  rw [hrest'] at hys
                  cases hys
              | ok more' =>
                  rw [hrest'] at hys
                  injection hys with hbytes
                  injection hbytes with hbyte hmore
                  subst hmore
                  have hlow := hx low (by simp)
                  have hlow' := hy low' (by simp)
                  have hsame : high = high' ∧ low = low' := by omega
                  rw [hsame.1, hsame.2, ih (fun d hd => hx d (by simp [hd]))
                    (fun d hd => hy d (by simp [hd])) hrest hrest']

end Hex

/-- Hex digests are 32 digits long. -/
def HexDigest (md5 : String → List Nat) : Prop :=
  ∀ text, (md5 text).length = 32 ∧ ∀ digit ∈ md5 text, digit < 16

/-- The tower makes one row of every four patches. -/
def MergesPatches (rows : Prepared F → Nat) : Prop :=
  ∀ part, part.Valid → rows part = part.tokenCount

/-- All tensors have frames of one size. -/
def Uniform (world : World F) (chunks : List (List F)) : Prop :=
  ∀ chunk ∈ chunks, ∀ chunk' ∈ chunks,
    chunk.head?.map world.size = chunk'.head?.map world.size

/-- Two selections with the same frames; where these differ in size among each
other, the bounds resize each of them alike. -/
structure Agree (world : World F) (a b : Selection F) : Prop where
  frames : a.chunks = b.chunks
  sizes : ¬ Uniform world a.chunks → ∀ chunk ∈ a.chunks,
    resizeChunk world a.minPixels a.maxPixels chunk =
      resizeChunk world b.minPixels b.maxPixels chunk

section Keys

variable {world : World F} {md5 : String → List Nat} {rows : Prepared F → Nat}
  {a b : MediaItem} {partsA partsB : List (Prepared F)} {keyA keyB : List Nat}

theorem mediaKey_cases {item : MediaItem} {parts : List (Prepared F)} {key : List Nat}
    (h : mediaKey md5 rows item parts = some key) : (∀ part ∈ parts, part.Valid) ∧
      fromHex (md5 (mediaText item) ++ vitLenHex (vitLen rows parts)) = .ok key := by
  unfold mediaKey at h
  split at h
  · next hvalid =>
      refine ⟨hvalid, ?_⟩
      cases hhex : fromHex (md5 (mediaText item) ++ vitLenHex (vitLen rows parts)) with
      | error message =>
          rw [hhex] at h
          cases h
      | ok bytes =>
          rw [hhex] at h
          cases h
          rfl
  · cases h

/-- Two keys are equal exactly if the texts and the lengths are. -/
theorem key_eq_iff (hdigest : HexDigest md5)
    (hmd5 : md5 (mediaText a) = md5 (mediaText b) → mediaText a = mediaText b)
    (ha : mediaKey md5 rows a partsA = some keyA) (hb : mediaKey md5 rows b partsB = some keyB) :
    keyA = keyB ↔ mediaText a = mediaText b ∧ vitLen rows partsA = vitLen rows partsB := by
  obtain ⟨_, hhexA⟩ := mediaKey_cases ha
  obtain ⟨_, hhexB⟩ := mediaKey_cases hb
  have hdigits : ∀ (item : MediaItem) (n : Nat), ∀ d ∈ md5 (mediaText item) ++ vitLenHex n,
      d < 16 := by
    intro item n d hd
    rcases List.mem_append.mp hd with hmd | hlen
    · exact (hdigest (mediaText item)).2 d hmd
    · exact lt_of_mem_vitLenHex hlen
  constructor
  · rintro rfl
    have hsame := fromHex_injective (hdigits a _) (hdigits b _) hhexA hhexB
    obtain ⟨htext, hlen⟩ := List.append_inj hsame
      ((hdigest (mediaText a)).1.trans (hdigest (mediaText b)).1.symm)
    exact ⟨hmd5 htext, vitLenHex_injective hlen⟩
  · rintro ⟨htext, hlen⟩
    rw [htext, hlen, hhexB] at hhexA
    exact (Except.ok.inj hhexA).symm

/-- Frames of one size, cut the same way: the length of the embedding fixes the
size they are resized to, whatever the bounds. -/
theorem resizeChunk_eq_of_vitLen_eq {chunks : List (List F)} {minA maxA minB maxB : ℚ}
    (htower : MergesPatches rows) (hchunks : chunks ≠ []) (huniform : Uniform world chunks)
    (hA : chunks.mapM (resizeChunk world minA maxA) = some partsA)
    (hB : chunks.mapM (resizeChunk world minB maxB) = some partsB)
    (hvalidA : ∀ part ∈ partsA, part.Valid) (hvalidB : ∀ part ∈ partsB, part.Valid)
    (hlen : vitLen rows partsA = vitLen rows partsB) :
    ∀ chunk ∈ chunks, resizeChunk world minA maxA chunk = resizeChunk world minB maxB chunk := by
  rw [mapM_eq_some_iff] at hA hB
  obtain ⟨first, hfirst⟩ := List.exists_mem_of_ne_nil chunks hchunks
  obtain ⟨partA, hpartA, hresizeA⟩ := exists_right_of_forall₂ hA hfirst
  obtain ⟨partB, hpartB, hresizeB⟩ := exists_right_of_forall₂ hB hfirst
  obtain ⟨height, width, hA', wA', hsize, hokA, rfl⟩ := resizeChunk_eq_some.mp hresizeA
  obtain ⟨height', width', hB', wB', hsize', hokB, rfl⟩ := resizeChunk_eq_some.mp hresizeB
  rw [hsize] at hsize'
  cases hsize'
  have hsizes : ∀ chunk ∈ chunks, chunk.head?.map world.size = some (height, width) :=
    fun chunk hchunk => (huniform chunk hchunk first hfirst).trans hsize
  obtain ⟨hheight, hwidth, aA, bA, rfl, rfl, hroundA⟩ := smartResize_cases hokA
  obtain ⟨_, _, aB, bB, rfl, rfl, hroundB⟩ := smartResize_cases hokB
  -- every tensor contributes its frames times the blocks of the common size
  have htotal : ∀ {lo hi : ℚ} {a b : Nat} {cs : List (List F)} {parts : List (Prepared F)},
      smartResize height width lo hi = .ok (28 * a, 28 * b) →
      (∀ c ∈ cs, c.head?.map world.size = some (height, width)) →
      List.Forall₂ (fun c p => resizeChunk world lo hi c = some p) cs parts →
      (∀ p ∈ parts, p.Valid) →
      vitLen rows parts = (cs.map (fun c => c.length / 2)).sum * (a * b) := by
    intro lo hi a b cs parts hok hcs hparts hvalid
    induction hparts with
    | nil => simp [vitLen]
    | @cons c p cs parts hcp _ ih =>
        rw [List.forall_mem_cons] at hcs hvalid
        obtain ⟨_, _, _, _, hsize₁, hok₁, rfl⟩ := resizeChunk_eq_some.mp hcp
        rw [hcs.1] at hsize₁
        cases hsize₁
        rw [hok] at hok₁
        cases hok₁
        have hrest := ih hcs.2 hvalid.2
        unfold vitLen at hrest ⊢
        rw [List.map_cons, List.sum_cons, List.map_cons, List.sum_cons, hrest,
          htower _ hvalid.1, Prepared.tokenCount]
        have h₁ : 28 * a / 14 / 2 = a := by omega
        have h₂ : 28 * b / 14 / 2 = b := by omega
        simp only [h₁, h₂]
        ring
  have hsumA := htotal hokA hsizes hA hvalidA
  have hsumB := htotal hokB hsizes hB hvalidB
  have hpos := (hvalidA _ hpartA).pos
  simp only at hpos
  have hcount : 0 < (chunks.map (fun c => c.length / 2)).sum :=
    List.sum_pos_iff_exists_pos_nat.mpr ⟨_, List.mem_map_of_mem hfirst, hpos.1⟩
  have hblocks : aA * bA = aB * bB := by
    rw [hlen, hsumB] at hsumA
    exact (Nat.eq_of_mul_eq_mul_left hcount hsumA).symm
  have hab : 0 < aA * bA := Nat.mul_pos (by omega) (by omega)
  obtain ⟨rfl, rfl⟩ := hroundA.unique hroundB hheight hwidth hblocks hab
  intro chunk hchunk
  have hsize₁ := hsizes chunk hchunk
  rw [resizeChunk_eq_some.mpr ⟨height, width, _, _, hsize₁, hokA, rfl⟩,
    resizeChunk_eq_some.mpr ⟨height, width, _, _, hsize₁, hokB, rfl⟩]

theorem select_chunks_ne_nil {warm : String × String → Bool} {item : MediaItem}
    {selection : Selection F} (h : select world warm item = some selection) :
    selection.chunks ≠ [] := by
  unfold select at h
  obtain ⟨minPixels, _, h⟩ := Option.bind_eq_some_iff.mp h
  obtain ⟨maxPixels, _, h⟩ := Option.bind_eq_some_iff.mp h
  split at h
  · obtain ⟨image, _, h⟩ := Option.bind_eq_some_iff.mp h
    cases h
    simp
  · obtain ⟨fps, _, h⟩ := Option.bind_eq_some_iff.mp h
    unfold selectVideo at h
    obtain ⟨video, _, h⟩ := Option.bind_eq_some_iff.mp h
    obtain ⟨frames, _, h⟩ := Option.bind_eq_some_iff.mp h
    split at h
    · cases h
    · cases h
      simp
  · obtain ⟨chunks, hchunks, h⟩ := Option.bind_eq_some_iff.mp h
    cases h
    unfold selectList at hchunks
    split at hchunks
    · cases hchunks
    · obtain ⟨first, _, hchunks⟩ := Option.bind_eq_some_iff.mp hchunks
      obtain ⟨size, _, hchunks⟩ := Option.bind_eq_some_iff.mp hchunks
      obtain ⟨more, _, hchunks⟩ := Option.bind_eq_some_iff.mp hchunks
      cases hchunks
      simp
  · cases h

theorem prepare_cases {warm : String × String → Bool} {item : MediaItem}
    {selection : Selection F} {parts : List (Prepared F)}
    (hselect : select world warm item = some selection)
    (h : prepare world warm item = some parts) :
    selection.chunks.mapM (resizeChunk world selection.minPixels selection.maxPixels) =
      some parts := by
  unfold prepare at h
  split at h
  · cases h
  · rw [hselect] at h
    exact h

theorem frames_of_mapM_resizeChunk {minPixels maxPixels : ℚ} {chunks : List (List F)}
    {parts : List (Prepared F)}
    (h : chunks.mapM (resizeChunk world minPixels maxPixels) = some parts) :
    parts.map (·.frames) = chunks := by
  rw [mapM_eq_some_iff] at h
  induction h with
  | nil => rfl
  | cons hab _ ih => rw [List.map_cons, ih, frames_of_resizeChunk hab]

variable {warmA warmB : String × String → Bool} {selectionA selectionB : Selection F}

end Keys

/-! ## One video at two rates -/

/-- Frames that are known by a number and their size. `"v"` is a video of eight
frames, one a second. -/
def numberWorld : World (Nat × Nat × Nat) where
  size := fun frame => frame.2
  fetchImage := fun _ => some (0, 56, 56)
  readVideo := fun _ => some {
    frames := (List.range 8).map (fun k => (k, 56, 56))
    fps := 1 }
  fit := fun frame size => (frame.1, size)
  size_fit := fun _ _ => rfl

/-- All eight frames, at 56 by 56 pixels. -/
def everyFrame : MediaItem :=
  { type := .video, url := .one "v", fps := some 1, minPixels := some 3136
    maxPixels := some 602112 }

/-- Two frames, at 112 by 112 pixels. -/
def everyFourthFrame : MediaItem :=
  { type := .video, url := .one "v", fps := some (1 / 4), minPixels := some 12544
    maxPixels := some 602112 }

example : (prepare numberWorld (fun _ => false) everyFrame).map
    (fun parts => parts.map (fun part => (part.frames.length, part.gridT, part.gridH, part.gridW)))
    = some [(8, 4, 4, 4)] := by decide +kernel

example : (prepare numberWorld (fun _ => false) everyFourthFrame).map
    (fun parts => parts.map (fun part => (part.frames.length, part.gridT, part.gridH, part.gridW)))
    = some [(2, 1, 8, 8)] := by decide +kernel

/-- Stands for md5; the text does not matter where all texts are the same. -/
def zeroDigest (_ : String) : List Nat := List.replicate 32 0

theorem hexDigest_zeroDigest : HexDigest zeroDigest := by
  intro text
  refine ⟨List.length_replicate, ?_⟩
  intro digit hdigit
  rw [List.eq_of_mem_replicate hdigit]
  omega

def partsOf (item : MediaItem) : List (Prepared (Nat × Nat × Nat)) :=
  (prepare numberWorld (fun _ => false) item).getD []

def keyOf (item : MediaItem) : List Nat :=
  (mediaKey zeroDigest Prepared.tokenCount item (partsOf item)).getD []

theorem prepare_everyFrame :
    prepare numberWorld (fun _ => false) everyFrame = some (partsOf everyFrame) := by
  decide +kernel

theorem prepare_everyFourthFrame :
    prepare numberWorld (fun _ => false) everyFourthFrame = some (partsOf everyFourthFrame) := by
  decide +kernel

theorem mediaKey_everyFrame : mediaKey zeroDigest Prepared.tokenCount everyFrame
    (partsOf everyFrame) = some (keyOf everyFrame) := by decide +kernel

theorem mediaKey_everyFourthFrame : mediaKey zeroDigest Prepared.tokenCount everyFourthFrame
    (partsOf everyFourthFrame) = some (keyOf everyFourthFrame) := by decide +kernel

theorem isSome_select_everyFrame :
    (select numberWorld (fun _ => false) everyFrame).isSome := by decide +kernel

end DashInfer.Vision
