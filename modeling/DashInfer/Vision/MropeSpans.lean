import DashInfer.Vision.Mrope
import DashInfer.Vision.Tokens
import Mathlib

/-!
`build_mrope_positions` for any merge size. The grids are normalized and counted
with the size the caller passes; with two it is the function of `Mrope`.
-/

namespace DashInfer.Vision

open Lib

/-- `normalize_vision_grid`. -/
def normalizeVisionGridBy (mergeSize : Int) (grid : Option (List Int)) : Except String Grid :=
  match grid with
  | none => .error "grid_thw is required"
  | some [t, h, w] =>
      if mergeSize ≤ 0 then .error "spatial_merge_size must be a positive integer"
      else if t ≤ 0 then .error "grid_t must be a positive integer"
      else if h ≤ 0 then .error "grid_h must be a positive integer"
      else if w ≤ 0 then .error "grid_w must be a positive integer"
      else if h % mergeSize ≠ 0 ∨ w % mergeSize ≠ 0 then
        .error "grid height and width must be divisible by spatial_merge_size"
      else .ok { t, h, w }
  | some _ => .error "grid_thw must contain [t, h, w]"

/-- `vision_token_count`. -/
def visionTokenCount (mergeSize : Int) (grid : Option (List Int)) : Except String Nat := do
  let thw ← normalizeVisionGridBy mergeSize grid
  return thw.t.toNat * (thw.h.toNat / mergeSize.toNat) * (thw.w.toNat / mergeSize.toNat)

section Build

variable (tokens : List Int) (imageTokenId mergeSize : Int)

/-- One grid: the text in front of its image tokens, and the image. -/
def placeGridBy (s : MropeCursor) (grid : Option (List Int) × Nat) : Except String MropeCursor := do
  let gridIndex := grid.2
  let thw ← normalizeVisionGridBy mergeSize grid.1
  let time := thw.t.toNat
  let tokenCount ← visionTokenCount mergeSize (some [thw.t, thw.h, thw.w])
  match (tokens.drop s.tokenCursor).idxOf? imageTokenId with
  | none => .error s!"vision grid {gridIndex} has no image token span"
  | some textLength =>
      let imageStart := s.tokenCursor + textLength
      let positionCursor := s.positionCursor + textLength
      let imageEnd := imageStart + tokenCount
      if tokens.length < imageEnd ∨
          ∃ token ∈ (tokens.drop imageStart).take tokenCount, token ≠ imageTokenId then
        .error s!"vision grid {gridIndex} expects {tokenCount} contiguous image tokens"
      else
        let mergedHeight := thw.h.toNat / mergeSize.toNat
        let mergedWidth := thw.w.toNat / mergeSize.toNat
        return {
          positions := (s.positions.appendText s.positionCursor textLength).appendGrid
            positionCursor time mergedHeight mergedWidth
          tokenCursor := imageEnd
          positionCursor := positionCursor + max time (max mergedHeight mergedWidth) }

/-- `build_mrope_positions`. -/
def buildMropePositionsBy (visionGrids : List (Option (List Int))) :
    Except String MropePositions := do
  let s ← visionGrids.zipIdx.foldlM (placeGridBy tokens imageTokenId mergeSize)
    ⟨⟨[], [], []⟩, 0, 0⟩
  if imageTokenId ∈ tokens.drop s.tokenCursor then
    .error "input contains an image token without a vision grid"
  else
    let positions := s.positions.appendText s.positionCursor (tokens.length - s.tokenCursor)
    if positions.time.length ≠ tokens.length ∨ positions.height.length ≠ tokens.length ∨
        positions.width.length ≠ tokens.length then
      .error "M-RoPE positions do not match the input token count"
    else return positions

end Build

/-! With two. -/

theorem normalizeVisionGridBy_two (grid : Option (List Int)) :
    normalizeVisionGridBy 2 grid = normalizeVisionGrid grid := by
  rcases grid with _ | _ | ⟨t, _ | ⟨h, _ | ⟨w, _ | ⟨x, rest⟩⟩⟩⟩
  · rfl
  · rfl
  · rfl
  · rfl
  · unfold normalizeVisionGridBy normalizeVisionGrid
    dsimp only
    rw [if_neg (by decide)]
  · rfl

/-- What a grid that passes its checks is, and how many tokens it takes. -/
theorem normalizeVisionGridBy_eq_ok {mergeSize : Int} {grid : Option (List Int)} {thw : Grid}
    (h : normalizeVisionGridBy mergeSize grid = .ok thw) :
    grid = some [thw.t, thw.h, thw.w] ∧ 0 < mergeSize ∧ 0 < thw.t ∧ 0 < thw.h ∧ 0 < thw.w ∧
      thw.h % mergeSize = 0 ∧ thw.w % mergeSize = 0 := by
  unfold normalizeVisionGridBy at h
  split at h
  · cases h
  · split at h
    · cases h
    · split at h
      · cases h
      · split at h
        · cases h
        · split at h
          · cases h
          · split at h
            · cases h
            · cases h
              rename_i hm ht hh hw hdiv
              rw [not_or, not_ne_iff, not_ne_iff] at hdiv
              exact ⟨rfl, not_le.mp hm, not_le.mp ht, not_le.mp hh, not_le.mp hw, hdiv⟩
  · cases h

/-- The sides of a grid in merged patches. -/
def mergedGrid (mergeSize : Int) (grid : Option (List Int)) : Except String (Nat × Nat × Nat) := do
  let thw ← normalizeVisionGridBy mergeSize grid
  return (thw.t.toNat, thw.h.toNat / mergeSize.toNat, thw.w.toNat / mergeSize.toNat)

theorem visionTokenCount_eq (mergeSize : Int) (grid : Option (List Int)) :
    visionTokenCount mergeSize grid =
      (mergedGrid mergeSize grid).map fun sides => sides.1 * sides.2.1 * sides.2.2 := by
  unfold visionTokenCount mergedGrid
  cases normalizeVisionGridBy mergeSize grid <;> rfl

theorem mergedGrid_pos {mergeSize : Int} {grid : Option (List Int)} {sides : Nat × Nat × Nat}
    (h : mergedGrid mergeSize grid = .ok sides) :
    0 < sides.1 ∧ 0 < sides.2.1 ∧ 0 < sides.2.2 := by
  obtain ⟨thw, hthw, hsides⟩ := bind_eq_ok_iff.mp h
  obtain ⟨-, hm, ht, hh, hw, hmh, hmw⟩ := normalizeVisionGridBy_eq_ok hthw
  cases hsides
  obtain ⟨a, ha⟩ := Int.dvd_of_emod_eq_zero hmh
  obtain ⟨b, hb⟩ := Int.dvd_of_emod_eq_zero hmw
  have hle : ∀ x : Int, 0 < x → mergeSize ∣ x → mergeSize.toNat ≤ x.toNat := fun x hx hdvd =>
    Int.toNat_le_toNat (Int.le_of_dvd hx hdvd)
  refine ⟨by dsimp only; omega, ?_, ?_⟩
  · exact Nat.div_pos (hle _ hh ⟨a, ha⟩) (by omega)
  · exact Nat.div_pos (hle _ hw ⟨b, hb⟩) (by omega)

/-- A grid is counted again from its sides. -/
theorem visionTokenCount_normalized {mergeSize : Int} {grid : Option (List Int)} {thw : Grid}
    (h : normalizeVisionGridBy mergeSize grid = .ok thw) :
    visionTokenCount mergeSize (some [thw.t, thw.h, thw.w]) =
      .ok (thw.t.toNat * (thw.h.toNat / mergeSize.toNat) * (thw.w.toNat / mergeSize.toNat)) := by
  have hsame := (normalizeVisionGridBy_eq_ok h).1
  rw [hsame] at h
  unfold visionTokenCount
  rw [h]
  rfl

theorem buildMropePositionsBy_two (tokens : List Int) (imageTokenId : Int)
    (visionGrids : List (Option (List Int))) :
    buildMropePositionsBy tokens imageTokenId 2 visionGrids =
      buildMropePositions tokens imageTokenId visionGrids := by
  have hplace : placeGridBy tokens imageTokenId 2 = placeGrid tokens imageTokenId := by
    funext s grid
    unfold placeGridBy placeGrid
    rw [normalizeVisionGridBy_two]
    cases hgrid : normalizeVisionGrid grid.1 with
    | error e => rfl
    | ok thw =>
        have hcount := visionTokenCount_normalized ((normalizeVisionGridBy_two grid.1).trans hgrid)
        change (visionTokenCount 2 (some [thw.t, thw.h, thw.w]) >>= _) = _
        rw [hcount]
        rfl
  unfold buildMropePositionsBy buildMropePositions
  rw [hplace]

end DashInfer.Vision

/-!
What `build_mrope_positions` computes, as a relation: the prompt is cut into text and
spans of image tokens, one for each grid, and the coordinates are laid out beside the
cut. The code succeeds just where there is such a cut.
-/

namespace DashInfer.Vision

open Lib

/-- The image tokens of a prompt split, in order, into spans of these lengths. -/
inductive SplitsInto (imageTokenId : Int) : List Int → List Nat → Prop
  | text {tokens : List Int} : imageTokenId ∉ tokens → SplitsInto imageTokenId tokens []
  | span (text : List Int) {rest : List Int} (count : Nat) {counts : List Nat} :
      imageTokenId ∉ text → SplitsInto imageTokenId rest counts →
      SplitsInto imageTokenId (text ++ List.replicate count imageTokenId ++ rest)
        (count :: counts)

/-- The coordinates of a run of text. -/
def diagonal (start length : Nat) : List (Nat × Nat × Nat) :=
  (List.range' start length).map fun c => (c, c, c)

/-- The coordinates of a grid. -/
def placedCells (start time height width : Nat) : List (Nat × Nat × Nat) :=
  (MropePositions.cells time height width).map fun cell =>
    (start + cell.1, start + cell.2.1, start + cell.2.2)

/-- The tokens that are left, with the grids that are left, take these coordinates
from a start on. -/
inductive LaidOut (imageTokenId mergeSize : Int) :
    List Int → List (Option (List Int)) → Nat → List (Nat × Nat × Nat) → Prop
  | text {tokens : List Int} {start : Nat} :
      imageTokenId ∉ tokens →
      LaidOut imageTokenId mergeSize tokens [] start (diagonal start tokens.length)
  | span {text rest : List Int} {grid : Option (List Int)} {grids : List (Option (List Int))}
      {start time height width : Nat} {later : List (Nat × Nat × Nat)} :
      imageTokenId ∉ text →
      mergedGrid mergeSize grid = .ok (time, height, width) →
      LaidOut imageTokenId mergeSize rest grids
        (start + text.length + max time (max height width)) later →
      LaidOut imageTokenId mergeSize
        (text ++ List.replicate (time * height * width) imageTokenId ++ rest) (grid :: grids) start
        (diagonal start text.length ++ placedCells (start + text.length) time height width ++ later)

section

variable {imageTokenId mergeSize : Int} {tokens : List Int} {grids : List (Option (List Int))}

/-! The cut and the layout. -/

theorem LaidOut.length_eq {start : Nat} {cells : List (Nat × Nat × Nat)}
    (h : LaidOut imageTokenId mergeSize tokens grids start cells) :
    cells.length = tokens.length := by
  induction h with
  | text _ => simp [diagonal]
  | span _ _ _ ih => simp [diagonal, placedCells, length_cells, ih]

theorem LaidOut.splitsInto {start : Nat} {cells : List (Nat × Nat × Nat)}
    (h : LaidOut imageTokenId mergeSize tokens grids start cells) :
    ∃ counts, grids.mapM (visionTokenCount mergeSize) = .ok counts ∧
      SplitsInto imageTokenId tokens counts := by
  induction h with
  | text himage => exact ⟨[], rfl, .text himage⟩
  | @span text rest grid grids start time height width later htext hgrid _ ih =>
      obtain ⟨counts, hcounts, hsplit⟩ := ih
      refine ⟨time * height * width :: counts, ?_, .span text _ htext hsplit⟩
      rw [List.mapM_cons, visionTokenCount_eq, hgrid, hcounts]
      rfl

theorem exists_laidOut {counts : List Nat}
    (hcounts : grids.mapM (visionTokenCount mergeSize) = .ok counts)
    (h : SplitsInto imageTokenId tokens counts) (start : Nat) :
    ∃ cells, LaidOut imageTokenId mergeSize tokens grids start cells := by
  induction h generalizing grids start with
  | text himage =>
      cases grids with
      | nil => exact ⟨_, .text himage⟩
      | cons grid grids =>
          rw [List.mapM_cons] at hcounts
          obtain ⟨_, _, hcounts⟩ := bind_eq_ok_iff.mp hcounts
          obtain ⟨_, _, hcounts⟩ := bind_eq_ok_iff.mp hcounts
          cases hcounts
  | span text count htext _ ih =>
      cases grids with
      | nil => cases hcounts
      | cons grid grids =>
          rw [List.mapM_cons] at hcounts
          obtain ⟨c, hc, hcounts⟩ := bind_eq_ok_iff.mp hcounts
          obtain ⟨cs, hcs, hcounts⟩ := bind_eq_ok_iff.mp hcounts
          cases hcounts
          rw [visionTokenCount_eq] at hc
          cases hgrid : mergedGrid mergeSize grid with
          | error e =>
              rw [hgrid] at hc
              cases hc
          | ok sides =>
              rw [hgrid] at hc
              cases hc
              obtain ⟨later, hlater⟩ := ih hcs (start + _ + max sides.1 (max sides.2.1 sides.2.2))
              exact ⟨_, .span htext hgrid hlater⟩

/-- Text in front of a prompt belongs to its first run of text. -/
theorem SplitsInto.cons_text {token : Int} {counts : List Nat} (htoken : token ≠ imageTokenId)
    (h : SplitsInto imageTokenId tokens counts) :
    SplitsInto imageTokenId (token :: tokens) counts := by
  cases h with
  | text himage =>
      exact .text (List.not_mem_cons_of_ne_of_not_mem htoken.symm himage)
  | @span text rest count counts htext hrest =>
      exact .span (token :: text) count (List.not_mem_cons_of_ne_of_not_mem htoken.symm htext) hrest

/-- The spans of a prompt are a way to split its image tokens. -/
theorem splitsInto_spansFrom (current : Nat) (tokens : List Int) :
    SplitsInto imageTokenId (List.replicate current imageTokenId ++ tokens)
      (spansFrom imageTokenId current tokens) := by
  induction tokens generalizing current with
  | nil =>
      cases current with
      | zero => exact .text List.not_mem_nil
      | succ current => exact .span [] (current + 1) List.not_mem_nil (.text List.not_mem_nil)
  | cons token rest ih =>
      by_cases htoken : token = imageTokenId
      · subst htoken
        have hmore := ih (current + 1)
        rw [List.replicate_succ', List.append_assoc] at hmore
        cases current with
        | zero => simpa [spansFrom] using hmore
        | succ current => simpa [spansFrom] using hmore
      · have hrest := (ih 0).cons_text htoken
        cases current with
        | zero => simpa [spansFrom, htoken] using hrest
        | succ current =>
            have hspan := SplitsInto.span [] (current + 1) List.not_mem_nil hrest
            simpa [spansFrom, htoken] using hspan

/-! The code. -/

/-- The positions with more coordinates behind them. -/
def MropePositions.append (p : MropePositions) (cells : List (Nat × Nat × Nat)) :
    MropePositions where
  time := p.time ++ cells.map fun cell => cell.1
  height := p.height ++ cells.map fun cell => cell.2.1
  width := p.width ++ cells.map fun cell => cell.2.2

theorem MropePositions.append_append (p : MropePositions) (a b : List (Nat × Nat × Nat)) :
    (p.append a).append b = p.append (a ++ b) := by
  simp [MropePositions.append]

theorem appendText_eq (p : MropePositions) (start length : Nat) :
    p.appendText start length = p.append (diagonal start length) := by
  simp [MropePositions.appendText, MropePositions.append, diagonal, Function.comp_def]

theorem appendGrid_eq (p : MropePositions) (start time height width : Nat) :
    p.appendGrid start time height width = p.append (placedCells start time height width) := by
  simp [MropePositions.appendGrid, MropePositions.append, placedCells, Function.comp_def]

/-- The cursor behind some text and a grid. -/
def MropeCursor.past (s : MropeCursor) (textLength time height width : Nat) : MropeCursor where
  positions := s.positions.append (diagonal s.positionCursor textLength ++
    placedCells (s.positionCursor + textLength) time height width)
  tokenCursor := s.tokenCursor + textLength + time * height * width
  positionCursor := s.positionCursor + textLength + max time (max height width)

/-- Where a grid is placed: behind some text, on image tokens of its own. -/
structure Places (imageTokenId mergeSize : Int) (tokens : List Int) (s : MropeCursor)
    (grid : Option (List Int)) (text rest : List Int) (time height width : Nat)
    (s' : MropeCursor) : Prop where
  sides : mergedGrid mergeSize grid = .ok (time, height, width)
  not_mem : imageTokenId ∉ text
  left : tokens.drop s.tokenCursor =
    text ++ List.replicate (time * height * width) imageTokenId ++ rest
  next : s' = s.past text.length time height width

/-- The first image token ends the text. -/
theorem idxOf?_eq_some_iff_split {l : List Int} {n : Nat} :
    l.idxOf? imageTokenId = some n ↔
      ∃ text more, imageTokenId ∉ text ∧ text.length = n ∧ l = text ++ imageTokenId :: more := by
  rw [List.idxOf?_eq_some_iff]
  constructor
  · rintro ⟨hn, himage, hbefore⟩
    refine ⟨l.take n, l.drop (n + 1), ?_, List.length_take_of_le hn.le, ?_⟩
    · intro hmem
      obtain ⟨j, hj, heq⟩ := List.mem_take_iff_getElem.mp hmem
      exact hbefore j (lt_min_iff.mp hj).1 heq
    · rw [← himage, List.getElem_cons_drop, List.take_append_drop]
  · rintro ⟨text, more, htext, rfl, rfl⟩
    refine ⟨by simp, by simp, fun j hj heq => htext ?_⟩
    rw [List.getElem_append_left hj] at heq
    exact heq ▸ List.getElem_mem hj

theorem placeGridBy_eq_ok_iff {s s' : MropeCursor} {grid : Option (List Int)} (index : Nat) :
    placeGridBy tokens imageTokenId mergeSize s (grid, index) = .ok s' ↔
      ∃ text rest time height width,
        Places imageTokenId mergeSize tokens s grid text rest time height width s' := by
  constructor
  · intro h
    obtain ⟨thw, hthw, h⟩ := bind_eq_ok_iff.mp h
    rw [visionTokenCount_normalized hthw] at h
    have hsides : mergedGrid mergeSize grid = .ok (thw.t.toNat, thw.h.toNat / mergeSize.toNat,
        thw.w.toNat / mergeSize.toNat) := by
      unfold mergedGrid
      rw [hthw]
      rfl
    generalize thw.t.toNat = time, thw.h.toNat / mergeSize.toNat = height,
      thw.w.toNat / mergeSize.toNat = width at h hsides
    replace h := (bind_eq_ok_iff.mp h)
    obtain ⟨count, hcount, h⟩ := h
    cases hcount
    split at h
    · cases h
    · rename_i textLength hindex
      obtain ⟨text, more, htext, rfl, hdrop⟩ := idxOf?_eq_some_iff_split.mp hindex
      dsimp only at h
      split at h
      · cases h
      · rename_i hspan
        cases h
        rw [not_or, not_lt] at hspan
        obtain ⟨hfits, himages⟩ := hspan
        have hmore : tokens.drop (s.tokenCursor + text.length) = imageTokenId :: more := by
          rw [← List.drop_drop, hdrop, List.drop_left]
        have hspan : (imageTokenId :: more).take (time * height * width) =
            List.replicate (time * height * width) imageTokenId := by
          rw [← hmore, List.eq_replicate_iff]
          constructor
          · rw [List.length_take, List.length_drop]
            omega
          · intro token htoken
            by_contra hne
            exact himages ⟨token, htoken, hne⟩
        refine ⟨text, (imageTokenId :: more).drop (time * height * width), time, height, width,
          hsides, htext, ?_, ?_⟩
        · rw [List.append_assoc, ← hspan, List.take_append_drop, hdrop]
        · rw [appendText_eq, appendGrid_eq, MropePositions.append_append]
          rfl
  · rintro ⟨text, rest, time, height, width, hsides, htext, hleft, rfl⟩
    have hpos := mergedGrid_pos hsides
    have hcount : 0 < time * height * width := Nat.mul_pos (Nat.mul_pos hpos.1 hpos.2.1) hpos.2.2
    obtain ⟨thw, hthw, hmerged⟩ := bind_eq_ok_iff.mp hsides
    cases hmerged
    refine bind_eq_ok_iff.mpr ⟨thw, hthw, bind_eq_ok_iff.mpr
      ⟨_, visionTokenCount_normalized hthw, ?_⟩⟩
    generalize thw.t.toNat = time, thw.h.toNat / mergeSize.toNat = height,
      thw.w.toNat / mergeSize.toNat = width at hcount hleft
    obtain ⟨more, hmore⟩ : ∃ more, List.replicate (time * height * width) imageTokenId ++ rest =
        imageTokenId :: more := by
      obtain ⟨count, hsucc⟩ := Nat.exists_eq_succ_of_ne_zero hcount.ne'
      rw [hsucc, List.replicate_succ]
      exact ⟨_, rfl⟩
    have hindex : (tokens.drop s.tokenCursor).idxOf? imageTokenId = some text.length := by
      rw [hleft, List.append_assoc, hmore]
      exact idxOf?_eq_some_iff_split.mpr ⟨text, more, htext, rfl, rfl⟩
    have hdrop : tokens.drop (s.tokenCursor + text.length) =
        List.replicate (time * height * width) imageTokenId ++ rest := by
      rw [← List.drop_drop, hleft, List.append_assoc, List.drop_left]
    have hspan : ¬ (tokens.length < s.tokenCursor + text.length + time * height * width ∨
        ∃ token ∈ (tokens.drop (s.tokenCursor + text.length)).take (time * height * width),
          token ≠ imageTokenId) := by
      rw [hdrop, List.take_left' (List.length_replicate)]
      rintro (hlong | ⟨token, htoken, hne⟩)
      · have hlength := congrArg List.length hdrop
        rw [List.length_drop, List.length_append, List.length_replicate] at hlength
        omega
      · exact hne (List.eq_of_mem_replicate htoken)
    rw [hindex]
    dsimp only
    rw [if_neg hspan, appendText_eq, appendGrid_eq, MropePositions.append_append]
    rfl

/-- The grids that are left are placed, and the text behind them, just where they can
be laid out; the coordinates are those of the layout. -/
theorem placeGrids_iff (s : MropeCursor) (index : Nat) (p : MropePositions) :
    (∃ s', (grids.zipIdx index).foldlM (placeGridBy tokens imageTokenId mergeSize) s = .ok s' ∧
      imageTokenId ∉ tokens.drop s'.tokenCursor ∧
      p = s'.positions.appendText s'.positionCursor (tokens.length - s'.tokenCursor)) ↔
      ∃ cells, LaidOut imageTokenId mergeSize (tokens.drop s.tokenCursor) grids s.positionCursor
        cells ∧ p = s.positions.append cells := by
  induction grids generalizing s index p with
  | nil =>
      rw [List.zipIdx_nil]
      constructor
      · rintro ⟨s', hs', himage, rfl⟩
        cases hs'
        refine ⟨_, .text himage, ?_⟩
        rw [appendText_eq, List.length_drop]
      · rintro ⟨cells, hlaid, rfl⟩
        generalize hleft : tokens.drop s.tokenCursor = left at hlaid
        cases hlaid with
        | text himage =>
            refine ⟨s, rfl, hleft ▸ himage, ?_⟩
            rw [appendText_eq, ← hleft, List.length_drop]
  | cons grid grids ih =>
      rw [List.zipIdx_cons, List.foldlM_cons]
      constructor
      · rintro ⟨s', hs', himage, rfl⟩
        obtain ⟨mid, hmid, hrest⟩ := bind_eq_ok_iff.mp hs'
        obtain ⟨text, rest, time, height, width, hsides, htext, hleft, rfl⟩ :=
          (placeGridBy_eq_ok_iff index).mp hmid
        obtain ⟨later, hlater, hpositions⟩ := (ih _ _ _).mp ⟨s', hrest, himage, rfl⟩
        have hdrop : tokens.drop (s.tokenCursor + text.length + time * height * width) = rest := by
          rw [Nat.add_assoc, ← List.drop_drop, hleft]
          exact List.drop_left' (by simp)
        dsimp only [MropeCursor.past] at hlater hpositions
        rw [hdrop] at hlater
        have hlaid := LaidOut.span htext hsides hlater
        rw [← hleft] at hlaid
        refine ⟨_, hlaid, ?_⟩
        rw [hpositions, MropePositions.append_append]
      · rintro ⟨cells, hlaid, rfl⟩
        generalize hleft : tokens.drop s.tokenCursor = left at hlaid
        cases hlaid with
        | @span text rest _ _ _ time height width later htext hsides hlater =>
            have hdrop : tokens.drop (s.tokenCursor + text.length + time * height * width) =
                rest := by
              rw [Nat.add_assoc, ← List.drop_drop, hleft]
              exact List.drop_left' (by simp)
            have hplace := (placeGridBy_eq_ok_iff index).mpr
              ⟨text, rest, time, height, width, hsides, htext, hleft, rfl⟩
            rw [← hdrop] at hlater
            obtain ⟨s', hs', himage, hpositions⟩ := (ih (s.past text.length time height
              width) (index + 1) _).mpr ⟨later, hlater, rfl⟩
            refine ⟨s', bind_eq_ok_iff.mpr ⟨_, hplace, hs'⟩, himage, ?_⟩
            rw [← hpositions, MropeCursor.past, MropePositions.append_append]

/-- `build_mrope_positions` returns the coordinates of a layout of the prompt, and
returns where there is one. -/
theorem buildMropePositionsBy_eq_ok_iff {p : MropePositions} :
    buildMropePositionsBy tokens imageTokenId mergeSize grids = .ok p ↔
      ∃ cells, LaidOut imageTokenId mergeSize tokens grids 0 cells ∧
        p = MropePositions.append ⟨[], [], []⟩ cells := by
  have hrun := @placeGrids_iff imageTokenId mergeSize tokens grids ⟨⟨[], [], []⟩, 0, 0⟩ 0 p
  rw [List.drop_zero] at hrun
  rw [← hrun]
  constructor
  · intro h
    obtain ⟨s, hs, h⟩ := bind_eq_ok_iff.mp h
    dsimp only at h
    split at h
    · cases h
    · rename_i himage
      split at h
      · cases h
      · cases h
        exact ⟨s, hs, himage, rfl⟩
  · rintro ⟨s, hs, himage, rfl⟩
    obtain ⟨cells, hlaid, hpositions⟩ := hrun.mp ⟨s, hs, himage, rfl⟩
    have hlength := hlaid.length_eq
    refine bind_eq_ok_iff.mpr ⟨s, hs, ?_⟩
    dsimp only
    rw [if_neg himage, hpositions, if_neg]
    · rfl
    · simp [MropePositions.append, hlength]

end

end DashInfer.Vision
