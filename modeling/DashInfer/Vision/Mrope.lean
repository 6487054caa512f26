import Mathlib
import DashInfer.Vision.Vit
import DashInfer.Lib.Fallible

/-!
`build_mrope_positions`: the positions of the tokens of a prompt on the axes of
time, height and width. Text goes on, on all three axes, where the largest
coordinate so far ends.
-/

namespace DashInfer.Vision

open Lib

/-- The coordinates of the tokens, axis by axis. -/
structure MropePositions where
  time : List Nat
  height : List Nat
  width : List Nat
deriving DecidableEq, Repr

structure MropeCursor where
  positions : MropePositions
  tokenCursor : Nat
  positionCursor : Nat
deriving DecidableEq, Repr

namespace MropePositions

/-- `_append_text_positions`. -/
def appendText (start length : Nat) (p : MropePositions) : MropePositions :=
  let values := List.range' start length
  ⟨p.time ++ values, p.height ++ values, p.width ++ values⟩

/-- The places of one grid, in the order of its tokens. -/
def cells (time height width : Nat) : List (Nat × Nat × Nat) :=
  (List.range time).flatMap fun t =>
    (List.range height).flatMap fun h => (List.range width).map fun w => (t, h, w)

def appendGrid (start time height width : Nat) (p : MropePositions) : MropePositions where
  time := p.time ++ (cells time height width).map fun cell => start + cell.1
  height := p.height ++ (cells time height width).map fun cell => start + cell.2.1
  width := p.width ++ (cells time height width).map fun cell => start + cell.2.2

end MropePositions

section Build

variable (tokens : List Int) (imageTokenId : Int)

/-- One grid: the text in front of its image tokens, and the image. -/
def placeGrid (s : MropeCursor) (grid : Option (List Int) × Nat) : Except String MropeCursor := do
  let gridIndex := grid.2
  let thw ← normalizeVisionGrid grid.1
  let time := thw.t.toNat
  let mergedHeight := thw.h.toNat / 2
  let mergedWidth := thw.w.toNat / 2
  let tokenCount := time * mergedHeight * mergedWidth
  match (tokens.drop s.tokenCursor).idxOf? imageTokenId with
  | none => .error s!"vision grid {gridIndex} has no image token span"
  | some textLength =>
      let imageStart := s.tokenCursor + textLength
      let positionCursor := s.positionCursor + textLength
      let imageEnd := imageStart + tokenCount
      if tokens.length < imageEnd ∨
          ∃ token ∈ (tokens.drop imageStart).take tokenCount, token ≠ imageTokenId then
        .error s!"vision grid {gridIndex} expects {tokenCount} contiguous image tokens"
      else
        return {
          positions := (s.positions.appendText s.positionCursor textLength).appendGrid
            positionCursor time mergedHeight mergedWidth
          tokenCursor := imageEnd
          positionCursor := positionCursor + max time (max mergedHeight mergedWidth) }

def buildMropePositions (visionGrids : List (Option (List Int))) : Except String MropePositions := do
  let s ← visionGrids.zipIdx.foldlM (placeGrid tokens imageTokenId) ⟨⟨[], [], []⟩, 0, 0⟩
  if imageTokenId ∈ tokens.drop s.tokenCursor then
    .error "input contains an image token without a vision grid"
  else
    let positions := s.positions.appendText s.positionCursor (tokens.length - s.tokenCursor)
    if positions.time.length ≠ tokens.length ∨ positions.height.length ≠ tokens.length ∨
        positions.width.length ≠ tokens.length then
      .error "M-RoPE positions do not match the input token count"
    else return positions

end Build

/-- Every coordinate is below a bound, and every axis has this many. -/
structure MropePositions.Within (count bound : Nat) (p : MropePositions) : Prop where
  lengths : p.time.length = count ∧ p.height.length = count ∧ p.width.length = count
  below : ∀ c ∈ p.time ++ p.height ++ p.width, c < bound

/-- The tokens up to the cursor have their positions, and the last of them is of
an image. -/
structure MropeCursor.Placed (tokens : List Int) (imageTokenId : Int) (s : MropeCursor) : Prop where
  within : s.positions.Within s.tokenCursor s.positionCursor
  le : s.tokenCursor ≤ tokens.length
  image : s.tokenCursor = 0 ∨ tokens[s.tokenCursor - 1]? = some imageTokenId

section Positions

variable {p : MropePositions} {count bound : Nat}

theorem length_cells (time height width : Nat) :
    (MropePositions.cells time height width).length = time * height * width := by
  unfold MropePositions.cells
  simp [List.length_flatMap, Nat.mul_assoc]

theorem mem_cells {time height width : Nat} {cell : Nat × Nat × Nat}
    (h : cell ∈ MropePositions.cells time height width) :
    cell.1 < time ∧ cell.2.1 < height ∧ cell.2.2 < width := by
  unfold MropePositions.cells at h
  simp only [List.mem_flatMap, List.mem_map, List.mem_range] at h
  obtain ⟨t, ht, h', hh, w, hw, rfl⟩ := h
  exact ⟨ht, hh, hw⟩

theorem MropePositions.Within.appendText (h : p.Within count bound) (length : Nat) :
    (p.appendText bound length).Within (count + length) (bound + length) := by
  obtain ⟨⟨htime, hheight, hwidth⟩, hbelow⟩ := h
  constructor
  · simp [MropePositions.appendText, htime, hheight, hwidth]
  · intro c hc
    simp only [MropePositions.appendText, List.mem_append, List.mem_range'_1] at hc hbelow
    rcases hc with ((hc | hc) | hc | hc) | hc | hc
    · exact (hbelow c (.inl (.inl hc))).trans_le (Nat.le_add_right _ _)
    · exact hc.2
    · exact (hbelow c (.inl (.inr hc))).trans_le (Nat.le_add_right _ _)
    · exact hc.2
    · exact (hbelow c (.inr hc)).trans_le (Nat.le_add_right _ _)
    · exact hc.2

theorem MropePositions.Within.appendGrid (h : p.Within count bound) (time height width : Nat) :
    (p.appendGrid bound time height width).Within (count + time * height * width)
      (bound + max time (max height width)) := by
  obtain ⟨⟨htime, hheight, hwidth⟩, hbelow⟩ := h
  constructor
  · simp [MropePositions.appendGrid, htime, hheight, hwidth, length_cells]
  · intro c hc
    simp only [MropePositions.appendGrid, List.mem_append, List.mem_map] at hc hbelow
    rcases hc with ((hc | ⟨cell, hcell, rfl⟩) | hc | ⟨cell, hcell, rfl⟩) | hc | ⟨cell, hcell, rfl⟩
    · exact (hbelow c (.inl (.inl hc))).trans_le (Nat.le_add_right _ _)
    · exact Nat.add_lt_add_left (lt_max_of_lt_left (mem_cells hcell).1) _
    · exact (hbelow c (.inl (.inr hc))).trans_le (Nat.le_add_right _ _)
    · exact Nat.add_lt_add_left
        (lt_max_of_lt_right (lt_max_of_lt_left (mem_cells hcell).2.1)) _
    · exact (hbelow c (.inr hc)).trans_le (Nat.le_add_right _ _)
    · exact Nat.add_lt_add_left
        (lt_max_of_lt_right (lt_max_of_lt_right (mem_cells hcell).2.2)) _

end Positions

section Placing

variable {tokens : List Int} {imageTokenId : Int} {s s' : MropeCursor}

theorem normalizeVisionGrid_pos {grid : Option (List Int)} {thw : Grid}
    (h : normalizeVisionGrid grid = .ok thw) : 0 < thw.t.toNat ∧ 0 < thw.h.toNat / 2 ∧
      0 < thw.w.toNat / 2 := by
  unfold normalizeVisionGrid at h
  split at h
  case h_1 => cases h
  case h_2 t height width =>
    split at h
    case isTrue => cases h
    case isFalse ht =>
      split at h
      case isTrue => cases h
      case isFalse hheight =>
        split at h
        case isTrue => cases h
        case isFalse hwidth =>
          split at h
          case isTrue => cases h
          case isFalse heven =>
            cases h
            dsimp only
            omega
  case h_3 => cases h

/-- A grid keeps the cursor behind an image token. -/
theorem MropeCursor.Placed.placeGrid (h : s.Placed tokens imageTokenId)
    {grid : Option (List Int) × Nat} (hgrid : placeGrid tokens imageTokenId s grid = .ok s') :
    s'.Placed tokens imageTokenId := by
  unfold Vision.placeGrid at hgrid
  obtain ⟨thw, hthw, hgrid⟩ := bind_eq_ok_iff.mp hgrid
  obtain ⟨htime, hheight, hwidth⟩ := normalizeVisionGrid_pos hthw
  dsimp only at hgrid
  split at hgrid
  case h_1 => cases hgrid
  case h_2 textLength _ =>
    split at hgrid
    case isTrue => cases hgrid
    case isFalse hspan =>
      cases hgrid
      rw [not_or] at hspan
      obtain ⟨hfits, himages⟩ := hspan
      have hcount : 0 < thw.t.toNat * (thw.h.toNat / 2) * (thw.w.toNat / 2) :=
        Nat.mul_pos (Nat.mul_pos htime hheight) hwidth
      have htext := h.within.appendText textLength
      refine ⟨htext.appendGrid _ _ _, not_lt.mp hfits, .inr ?_⟩
      dsimp only
      -- the last token of the span is one of those that were compared
      have hlt : s.tokenCursor + textLength + thw.t.toNat * (thw.h.toNat / 2) * (thw.w.toNat / 2) - 1 <
          tokens.length := by omega
      rw [List.getElem?_eq_getElem hlt]
      by_contra hne
      apply himages
      refine ⟨_, ?_, fun heq => hne (congrArg some heq)⟩
      rw [List.mem_take_iff_getElem]
      refine ⟨thw.t.toNat * (thw.h.toNat / 2) * (thw.w.toNat / 2) - 1, ?_, ?_⟩
      · rw [List.length_drop]
        omega
      · rw [List.getElem_drop]
        congr 1
        omega

/-- The coordinates of a prompt that ends in text: the last one is the largest. -/
theorem buildMropePositions_last {visionGrids : List (Option (List Int))} {p : MropePositions}
    (h : buildMropePositions tokens imageTokenId visionGrids = .ok p) {last : Int}
    (hlast : tokens.getLast? = some last) (htext : last ≠ imageTokenId) :
    (p.time.length = tokens.length ∧ p.height.length = tokens.length ∧
      p.width.length = tokens.length) ∧
      ∀ c ∈ p.time ++ p.height ++ p.width, c ≤ p.time.getD (tokens.length - 1) 0 := by
  obtain ⟨s, hs, h⟩ := bind_eq_ok_iff.mp h
  have hempty : MropeCursor.Placed tokens imageTokenId ⟨⟨[], [], []⟩, 0, 0⟩ :=
    ⟨⟨⟨rfl, rfl, rfl⟩, fun _ hc => absurd hc List.not_mem_nil⟩, Nat.zero_le _, .inl rfl⟩
  have hplaced : s.Placed tokens imageTokenId :=
    foldlM_invariant (fun _ _ _ hs hstep => hs.placeGrid hstep) hempty hs
  rw [List.getLast?_eq_getElem?] at hlast
  have hlt : s.tokenCursor < tokens.length := by
    have hpos : 0 < tokens.length := by
      have hlength := (List.getElem?_eq_some_iff.mp hlast).1
      omega
    rcases hplaced.image with hzero | himage
    · omega
    · by_contra hge
      rw [le_antisymm hplaced.le (not_lt.mp hge), hlast] at himage
      exact htext (Option.some.inj himage)
  have hwithin := hplaced.within.appendText (tokens.length - s.tokenCursor)
  rw [Nat.add_sub_cancel' hplaced.le] at hwithin
  dsimp only at h
  split at h
  case isTrue => cases h
  case isFalse =>
    split at h
    case isTrue => cases h
    case isFalse =>
      cases h
      refine ⟨hwithin.lengths, fun c hc => ?_⟩
      have hbelow := hwithin.below c hc
      have hcoordinate : (s.positions.appendText s.positionCursor
          (tokens.length - s.tokenCursor)).time.getD (tokens.length - 1) 0 =
            s.positionCursor + (tokens.length - s.tokenCursor) - 1 := by
        have htime := hplaced.within.lengths.1
        unfold MropePositions.appendText
        dsimp only
        rw [List.getD_append_right _ _ _ _ (by omega), List.getD_eq_getElem _ _ (by
          rw [List.length_range']; omega), List.getElem_range']
        omega
      omega

end Placing

end DashInfer.Vision
