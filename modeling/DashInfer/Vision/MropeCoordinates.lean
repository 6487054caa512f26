import Mathlib
import DashInfer.Vision.MropeSpans

/-!
The coordinates of a prompt. Text takes the place beyond everything before it on all
axes, an image token the place of its patch beyond what is before its span, and in the
order of the tokens the places only grow.
-/

namespace DashInfer.Vision

open Lib

/-- One more than the largest of some coordinates, zero for none. -/
def beyond (coordinates : List Nat) : Nat := coordinates.foldr (fun c bound => max (c + 1) bound) 0

/-- The place of a token on the three axes. -/
def MropePositions.place (p : MropePositions) (i : Nat) : Nat × Nat × Nat :=
  (p.time.getD i 0, p.height.getD i 0, p.width.getD i 0)

/-- The coordinates of the tokens before one. -/
def MropePositions.before (p : MropePositions) (i : Nat) : List Nat :=
  p.time.take i ++ p.height.take i ++ p.width.take i

/-- The image tokens some grids take. -/
def spanned (mergeSize : Int) (grids : List (Option (List Int))) : Nat :=
  (grids.map fun grid =>
    match visionTokenCount mergeSize grid with
    | .ok count => count
    | .error _ => 0).sum

/-- The order of places by time, height and width. -/
def Precedes (a b : Nat × Nat × Nat) : Prop :=
  Prod.Lex (· < ·) (Prod.Lex (· < ·) (· < ·)) a b

/-- The positions of a prompt are right. -/
structure PlacesTokens (tokens : List Int) (imageTokenId mergeSize : Int)
    (grids : List (Option (List Int))) (p : MropePositions) : Prop where
  axes : p.time.length = tokens.length ∧ p.height.length = tokens.length ∧
    p.width.length = tokens.length
  text : ∀ i < tokens.length, tokens[i]? ≠ some imageTokenId →
    p.place i = (beyond (p.before i), beyond (p.before i), beyond (p.before i))
  vision : ∀ i j grid time height width index, grids[j]? = some grid →
    mergedGrid mergeSize grid = .ok (time, height, width) → index < time * height * width →
    tokens[i]? = some imageTokenId →
    (tokens.take i).count imageTokenId = spanned mergeSize (grids.take j) + index →
    p.place i = (beyond (p.before (i - index)) + index / (height * width),
      beyond (p.before (i - index)) + index / width % height,
      beyond (p.before (i - index)) + index % width)
  increasing : ∀ i k, i < k → k < tokens.length → Precedes (p.place i) (p.place k)
  distinct : ∀ i k, i < k → k < tokens.length → p.place i ≠ p.place k

/-! Bounds. -/

theorem beyond_le_iff {l : List Nat} {n : Nat} : beyond l ≤ n ↔ ∀ c ∈ l, c < n := by
  induction l with
  | nil => simp [beyond]
  | cons c l ih =>
      rw [List.forall_mem_cons, ← ih]
      exact max_le_iff

/-- The place beyond some cells on all axes. -/
def beyondCells (cells : List (Nat × Nat × Nat)) : Nat :=
  beyond (cells.map (fun cell => cell.1) ++ cells.map (fun cell => cell.2.1) ++
    cells.map fun cell => cell.2.2)

theorem beyondCells_le_iff {cells : List (Nat × Nat × Nat)} {n : Nat} :
    beyondCells cells ≤ n ↔ ∀ cell ∈ cells, cell.1 < n ∧ cell.2.1 < n ∧ cell.2.2 < n := by
  unfold beyondCells
  rw [beyond_le_iff]
  simp only [List.mem_append, List.mem_map]
  constructor
  · intro h cell hcell
    exact ⟨h _ (.inl (.inl ⟨cell, hcell, rfl⟩)), h _ (.inl (.inr ⟨cell, hcell, rfl⟩)),
      h _ (.inr ⟨cell, hcell, rfl⟩)⟩
  · rintro h c ((⟨cell, hcell, rfl⟩ | ⟨cell, hcell, rfl⟩) | ⟨cell, hcell, rfl⟩)
    · exact (h cell hcell).1
    · exact (h cell hcell).2.1
    · exact (h cell hcell).2.2

theorem beyondCells_append (a b : List (Nat × Nat × Nat)) :
    beyondCells (a ++ b) = max (beyondCells a) (beyondCells b) := by
  apply eq_of_forall_ge_iff
  intro n
  rw [max_le_iff, beyondCells_le_iff, beyondCells_le_iff, beyondCells_le_iff]
  exact List.forall_mem_append

theorem max_beyondCells_diagonal (start length : Nat) :
    max start (beyondCells (diagonal start length)) = start + length := by
  apply eq_of_forall_ge_iff
  intro n
  rw [max_le_iff, beyondCells_le_iff]
  simp only [diagonal, List.mem_map, List.mem_range'_1]
  constructor
  · rintro ⟨hstart, h⟩
    by_contra hlt
    have := (h (n, n, n) ⟨n, by omega, rfl⟩).1
    omega
  · intro hle
    refine ⟨by omega, ?_⟩
    rintro cell ⟨c, hc, rfl⟩
    dsimp only
    omega

theorem beyondCells_placedCells (start : Nat) {time height width : Nat} (ht : 0 < time)
    (hh : 0 < height) (hw : 0 < width) :
    beyondCells (placedCells start time height width) = start + max time (max height width) := by
  apply eq_of_forall_ge_iff
  intro n
  rw [beyondCells_le_iff]
  constructor
  · intro h
    have hlast : (start + (time - 1), start + (height - 1), start + (width - 1)) ∈
        placedCells start time height width := by
      simp only [placedCells, MropePositions.cells, List.mem_map, List.mem_flatMap, List.mem_range]
      exact ⟨(time - 1, height - 1, width - 1), ⟨time - 1, by omega, height - 1, by omega,
        width - 1, by omega, rfl⟩, rfl⟩
    have := h _ hlast
    dsimp only at this
    omega
  · intro hle cell hcell
    obtain ⟨index, hindex, rfl⟩ := List.mem_map.mp hcell
    have := mem_cells hindex
    dsimp only
    omega

/-- Text and a span move the place beyond them on by the text and the largest side. -/
theorem max_beyondCells_span (start length : Nat) {time height width : Nat}
    (ht : 0 < time) (hh : 0 < height) (hw : 0 < width) (later : List (Nat × Nat × Nat)) :
    max start (beyondCells (diagonal start length ++
        placedCells (start + length) time height width ++ later)) =
      max (start + length + max time (max height width)) (beyondCells later) := by
  rw [beyondCells_append, beyondCells_append, beyondCells_placedCells _ ht hh hw, ← max_assoc,
    ← max_assoc, max_beyondCells_diagonal]
  congr 1
  omega

/-! Places. -/

/-- An entry of rows of one length. -/
theorem getElem?_flatMap_range {α : Type} {f : Nat → List α} {width : Nat}
    (hwidth : ∀ i, (f i).length = width) (n : Nat) {i j : Nat} (hi : i < n) (hj : j < width) :
    ((List.range n).flatMap f)[i * width + j]? = (f i)[j]? := by
  induction n with
  | zero => exact absurd hi (Nat.not_lt_zero i)
  | succ n ih =>
      have hlength : ((List.range n).flatMap f).length = n * width := by
        rw [List.length_flatMap]
        simp [hwidth]
      rw [List.range_succ, List.flatMap_append, List.flatMap_singleton]
      rcases Nat.lt_or_ge i n with hlt | hge
      · have hbound : i * width + j < n * width := by
          calc i * width + j < i * width + width := Nat.add_lt_add_left hj _
            _ = (i + 1) * width := (Nat.succ_mul i width).symm
            _ ≤ n * width := Nat.mul_le_mul_right width hlt
        rw [List.getElem?_append_left (hlength ▸ hbound), ih hlt]
      · obtain rfl : i = n := by omega
        rw [List.getElem?_append_right (by omega), hlength, Nat.add_sub_cancel_left]

theorem getElem?_cells {time height width index : Nat} (h : index < time * height * width) :
    (MropePositions.cells time height width)[index]? =
      some (index / (height * width), index / width % height, index % width) := by
  have hw : 0 < width := Nat.pos_of_mul_pos_left (Nat.zero_lt_of_lt h)
  have hh : 0 < height :=
    Nat.pos_of_mul_pos_left (Nat.pos_of_mul_pos_right (Nat.zero_lt_of_lt h))
  have hrow : ∀ t i : Nat, ((List.range width).map fun w => (t, i, w)).length = width := by simp
  have hplane : ∀ t : Nat, ((List.range height).flatMap fun i =>
      (List.range width).map fun w => (t, i, w)).length = height * width := by
    intro t
    rw [List.length_flatMap]
    simp
  have hinner := Nat.mod_lt index (Nat.mul_pos hh hw)
  have ht : index / (height * width) < time := by
    rw [Nat.div_lt_iff_lt_mul (Nat.mul_pos hh hw), ← Nat.mul_assoc]
    exact h
  have hi : index / width % height < height := Nat.mod_lt _ hh
  have hk : index % width < width := Nat.mod_lt _ hw
  have hsplit : index = index / (height * width) * (height * width) +
      (index / width % height * width + index % width) := by
    rw [← Nat.mod_mul_left_div_self index width height, ← Nat.mod_mul_left_mod index height width,
      Nat.div_add_mod', Nat.div_add_mod']
  have hinside : index / width % height * width + index % width < height * width := by
    rw [← Nat.mod_mul_left_div_self index width height, ← Nat.mod_mul_left_mod index height width,
      Nat.div_add_mod']
    exact hinner
  unfold MropePositions.cells
  conv_lhs => rw [hsplit]
  rw [getElem?_flatMap_range hplane time ht hinside,
    getElem?_flatMap_range (hrow _) height hi hk, List.getElem?_map, List.getElem?_range hk]
  rfl

theorem getElem?_diagonal {start length i : Nat} (h : i < length) :
    (diagonal start length)[i]? = some (start + i, start + i, start + i) := by
  simp [diagonal, h]

theorem take_diagonal {start length i : Nat} (h : i ≤ length) :
    (diagonal start length).take i = diagonal start i := by
  obtain ⟨more, rfl⟩ := Nat.exists_eq_add_of_le h
  unfold diagonal
  rw [← List.range'_append_1, List.map_append]
  exact List.take_left' (by simp)

section

variable {imageTokenId mergeSize : Int} {tokens : List Int} {grids : List (Option (List Int))}
  {start : Nat} {cells : List (Nat × Nat × Nat)}

/-- A token of text lies beyond the places before it. -/
theorem LaidOut.text_place (h : LaidOut imageTokenId mergeSize tokens grids start cells) {i : Nat}
    (hi : i < tokens.length) (htext : tokens[i]? ≠ some imageTokenId) :
    cells[i]? = some (max start (beyondCells (cells.take i)),
      max start (beyondCells (cells.take i)), max start (beyondCells (cells.take i))) := by
  induction h generalizing i with
  | text _ =>
      rw [getElem?_diagonal hi, take_diagonal hi.le, max_beyondCells_diagonal]
  | @span text rest grid grids start time height width later hnot hsides hlater ih =>
      obtain ⟨ht, hh, hw⟩ := mergedGrid_pos hsides
      have hD : (diagonal start text.length).length = text.length := by simp [diagonal]
      have hP : (placedCells (start + text.length) time height width).length =
          time * height * width := by
        simp [placedCells, length_cells]
      rcases Nat.lt_or_ge i text.length with hlt | hge
      · rw [List.append_assoc, List.getElem?_append_left (by omega), getElem?_diagonal hlt,
          List.take_append_of_le_length (by omega), take_diagonal hlt.le, max_beyondCells_diagonal]
      · rcases Nat.lt_or_ge i (text.length + time * height * width) with hin | hout
        · -- a token of the span is an image token
          exfalso
          apply htext
          rw [List.append_assoc, List.getElem?_append_right hge,
            List.getElem?_append_left (by rw [List.length_replicate]; omega),
            List.getElem?_replicate, if_pos (by omega)]
        · obtain ⟨k, rfl⟩ := Nat.exists_eq_add_of_le hout
          have hrest : rest[k]? ≠ some imageTokenId := by
            rw [List.getElem?_append_right (by simp)] at htext
            simpa using htext
          have hk : k < rest.length := by
            simp at hi
            omega
          have hlen : (diagonal start text.length ++
              placedCells (start + text.length) time height width).length =
                text.length + time * height * width := by
            rw [List.length_append, hD, hP]
          rw [List.getElem?_append_right (by omega), hlen, Nat.add_sub_cancel_left,
            List.take_append, hlen, Nat.add_sub_cancel_left, List.take_of_length_le (by omega),
            max_beyondCells_span _ _ ht hh hw]
          exact ih hk hrest

/-! Image tokens. -/

/-- A token of text, of the span or behind it. -/
theorem index_cases (i textLength count : Nat) :
    i < textLength ∨ (∃ k < count, i = textLength + k) ∨ ∃ k, i = textLength + count + k := by
  rcases Nat.lt_or_ge i textLength with h | h
  · exact .inl h
  · rcases Nat.lt_or_ge i (textLength + count) with h' | h'
    · exact .inr (.inl ⟨i - textLength, by omega, by omega⟩)
    · exact .inr (.inr ⟨i - (textLength + count), by omega⟩)

section Span

variable {text rest : List Int} {count k : Nat}

theorem count_take_in_span (hnot : imageTokenId ∉ text) (hk : k ≤ count) :
    ((text ++ List.replicate count imageTokenId ++ rest).take (text.length + k)).count
      imageTokenId = k := by
  have htake : (text ++ List.replicate count imageTokenId ++ rest).take (text.length + k) =
      text ++ List.replicate k imageTokenId := by
    rw [List.append_assoc, List.take_length_add_append,
      List.take_append_of_le_length (by simpa using hk), List.take_replicate, Nat.min_eq_left hk]
  rw [htake, List.count_append, List.count_eq_zero_of_not_mem hnot, List.count_replicate_self,
    Nat.zero_add]

theorem count_take_behind_span (hnot : imageTokenId ∉ text) :
    ((text ++ List.replicate count imageTokenId ++ rest).take (text.length + count + k)).count
      imageTokenId = count + (rest.take k).count imageTokenId := by
  have hlength : (text ++ List.replicate count imageTokenId).length = text.length + count := by
    simp
  rw [← hlength, List.take_length_add_append, List.count_append, List.count_append,
    List.count_eq_zero_of_not_mem hnot, List.count_replicate_self, Nat.zero_add]

theorem getElem?_behind_span :
    (text ++ List.replicate count imageTokenId ++ rest)[text.length + count + k]? = rest[k]? := by
  have hlength : (text ++ List.replicate count imageTokenId).length = text.length + count := by
    simp
  rw [← hlength, List.getElem?_append_right (Nat.le_add_right _ _), Nat.add_sub_cancel_left]

end Span

theorem spanned_cons {grid : Option (List Int)} {time height width : Nat}
    (h : mergedGrid mergeSize grid = .ok (time, height, width)) (l : List (Option (List Int))) :
    spanned mergeSize (grid :: l) = time * height * width + spanned mergeSize l := by
  unfold spanned
  rw [List.map_cons, List.sum_cons, visionTokenCount_eq, h]
  rfl

/-- An image token lies at its patch, counted from the place beyond what is before its
span. -/
theorem LaidOut.vision_place (h : LaidOut imageTokenId mergeSize tokens grids start cells)
    {i j index time height width : Nat} {grid : Option (List Int)}
    (hgrid : grids[j]? = some grid) (hsides : mergedGrid mergeSize grid = .ok (time, height, width))
    (hindex : index < time * height * width) (himage : tokens[i]? = some imageTokenId)
    (hcount : (tokens.take i).count imageTokenId = spanned mergeSize (grids.take j) + index) :
    cells[i]? = some
      (max start (beyondCells (cells.take (i - index))) + index / (height * width),
        max start (beyondCells (cells.take (i - index))) + index / width % height,
        max start (beyondCells (cells.take (i - index))) + index % width) := by
  induction h generalizing i j with
  | text _ => cases hgrid
  | @span text rest grid' grids start time' height' width' later hnot hsides' hlater ih =>
      obtain ⟨ht, hh, hw⟩ := mergedGrid_pos hsides'
      have hD : (diagonal start text.length).length = text.length := by simp [diagonal]
      have hlen : (diagonal start text.length ++
          placedCells (start + text.length) time' height' width').length =
            text.length + time' * height' * width' := by
        simp [hD, placedCells, length_cells]
      rcases index_cases i text.length (time' * height' * width') with
        hlt | ⟨k, hk, rfl⟩ | ⟨k, rfl⟩
      · rw [List.append_assoc, List.getElem?_append_left hlt] at himage
        exact absurd (List.mem_of_getElem? himage) hnot
      · rw [count_take_in_span hnot hk.le] at hcount
        cases j with
        | zero =>
            cases hgrid
            cases hsides'.symm.trans hsides
            obtain rfl : k = index := by
              simpa [spanned] using hcount
            rw [Nat.add_sub_cancel, List.getElem?_append_left (by omega),
              List.getElem?_append_right (by omega), hD, Nat.add_sub_cancel_left, placedCells,
              List.getElem?_map, getElem?_cells hindex, List.append_assoc,
              List.take_append_of_le_length hD.ge, take_diagonal le_rfl, max_beyondCells_diagonal]
            rfl
        | succ j =>
            rw [List.take_succ_cons, spanned_cons hsides'] at hcount
            omega
      · rw [count_take_behind_span hnot] at hcount
        cases j with
        | zero =>
            cases hgrid
            cases hsides'.symm.trans hsides
            simp [spanned] at hcount
            omega
        | succ j =>
            rw [List.take_succ_cons, spanned_cons hsides', Nat.add_assoc] at hcount
            have hcount' := Nat.add_left_cancel hcount
            have hle : index ≤ k := by
              have := (List.count_le_length (a := imageTokenId) (l := rest.take k))
              rw [List.length_take] at this
              omega
            rw [getElem?_behind_span] at himage
            rw [List.getElem?_append_right (by omega), hlen, Nat.add_sub_cancel_left,
              Nat.add_sub_assoc hle, List.take_append, hlen, Nat.add_sub_cancel_left,
              List.take_of_length_le (by omega), max_beyondCells_span _ _ ht hh hw]
            exact ih hgrid himage hcount'

/-! The order of the places. -/

theorem Precedes.shift {a b : Nat × Nat × Nat} (start : Nat) (h : Precedes a b) :
    Precedes (start + a.1, start + a.2.1, start + a.2.2)
      (start + b.1, start + b.2.1, start + b.2.2) := by
  unfold Precedes at h ⊢
  simp only [Prod.lex_def] at h ⊢
  omega

theorem Precedes.ne {a b : Nat × Nat × Nat} (h : Precedes a b) : a ≠ b := by
  rintro rfl
  unfold Precedes at h
  simp only [Prod.lex_def] at h
  omega

theorem cells_pairwise (time height width : Nat) :
    (MropePositions.cells time height width).Pairwise Precedes := by
  unfold MropePositions.cells
  have hlt := fun n => List.pairwise_lt_range (n := n)
  rw [List.pairwise_flatMap]
  constructor
  · intro t _
    rw [List.pairwise_flatMap]
    constructor
    · intro i _
      rw [List.pairwise_map]
      exact (hlt width).imp fun hw => .right _ (.right _ hw)
    · refine (hlt height).imp fun hh x hx y hy => ?_
      obtain ⟨_, _, rfl⟩ := List.mem_map.mp hx
      obtain ⟨_, _, rfl⟩ := List.mem_map.mp hy
      exact .right _ (.left _ _ hh)
  · refine (hlt time).imp fun ht x hx y hy => ?_
    simp only [List.mem_flatMap, List.mem_map] at hx hy
    obtain ⟨_, _, _, _, rfl⟩ := hx
    obtain ⟨_, _, _, _, rfl⟩ := hy
    exact .left _ _ ht

/-- The places grow, from the start on. -/
theorem LaidOut.pairwise (h : LaidOut imageTokenId mergeSize tokens grids start cells) :
    cells.Pairwise Precedes ∧ ∀ cell ∈ cells, start ≤ cell.1 := by
  have hdiagonal : ∀ start length, (diagonal start length).Pairwise Precedes := by
    intro start length
    unfold diagonal
    rw [List.pairwise_map]
    have hlt : (List.range' start length).Pairwise (· < ·) := List.pairwise_lt_range'
    exact hlt.imp fun h => .left _ _ h
  have hdiagonal_mem : ∀ start length, ∀ cell ∈ diagonal start length,
      start ≤ cell.1 ∧ cell.1 < start + length := by
    intro start length cell hcell
    obtain ⟨c, hc, rfl⟩ := List.mem_map.mp hcell
    exact List.mem_range'_1.mp hc
  induction h with
  | text _ => exact ⟨hdiagonal _ _, fun cell hcell => (hdiagonal_mem _ _ cell hcell).1⟩
  | @span text rest grid grids start time height width later _ _ _ ih =>
      have hplaced_mem : ∀ cell ∈ placedCells (start + text.length) time height width,
          start + text.length ≤ cell.1 ∧
            cell.1 < start + text.length + max time (max height width) := by
        intro cell hcell
        obtain ⟨index, hindex, rfl⟩ := List.mem_map.mp hcell
        have := (mem_cells hindex).1
        dsimp only
        omega
      have hplaced : (placedCells (start + text.length) time height width).Pairwise Precedes := by
        unfold placedCells
        rw [List.pairwise_map]
        exact (cells_pairwise time height width).imp fun h => h.shift _
      constructor
      · rw [List.pairwise_append, List.pairwise_append]
        refine ⟨⟨hdiagonal _ _, hplaced, fun a ha b hb => .left _ _ ?_⟩, ih.1,
          fun a ha b hb => .left _ _ ?_⟩
        · exact (hdiagonal_mem _ _ a ha).2.trans_le (hplaced_mem b hb).1
        · have hb' := ih.2 b hb
          rcases List.mem_append.mp ha with ha | ha
          · have := (hdiagonal_mem _ _ a ha).2
            omega
          · exact (hplaced_mem a ha).2.trans_le hb'
      · intro cell hcell
        simp only [List.mem_append] at hcell
        rcases hcell with (hcell | hcell) | hcell
        · exact (hdiagonal_mem _ _ cell hcell).1
        · have := (hplaced_mem cell hcell).1
          omega
        · have := ih.2 cell hcell
          omega

/-! The positions of a prompt. -/

theorem place_append (cells : List (Nat × Nat × Nat)) (i : Nat) :
    (MropePositions.append ⟨[], [], []⟩ cells).place i = cells.getD i (0, 0, 0) := by
  simp only [MropePositions.place, MropePositions.append, List.nil_append, List.getD_eq_getElem?_getD,
    List.getElem?_map]
  cases cells[i]? <;> rfl

theorem beyond_before_append (cells : List (Nat × Nat × Nat)) (i : Nat) :
    beyond ((MropePositions.append ⟨[], [], []⟩ cells).before i) = beyondCells (cells.take i) := by
  simp [MropePositions.before, MropePositions.append, beyondCells, List.map_take]

theorem LaidOut.placesTokens (h : LaidOut imageTokenId mergeSize tokens grids 0 cells) :
    PlacesTokens tokens imageTokenId mergeSize grids (MropePositions.append ⟨[], [], []⟩ cells) := by
  have hlength := h.length_eq
  have hgrow : ∀ i k, i < k → k < tokens.length →
      Precedes (cells.getD i (0, 0, 0)) (cells.getD k (0, 0, 0)) := by
    intro i k hik hk
    rw [List.getD_eq_getElem _ _ (by omega), List.getD_eq_getElem _ _ (by omega)]
    exact List.pairwise_iff_getElem.mp h.pairwise.1 i k (by omega) (by omega) hik
  constructor
  · simp [MropePositions.append, hlength]
  · intro i hi htext
    have hplace := h.text_place hi htext
    rw [Nat.zero_max] at hplace
    rw [place_append, beyond_before_append, List.getD_eq_getElem?_getD, hplace]
    rfl
  · intro i j grid time height width index hgrid hsides hindex himage hcount
    have hplace := h.vision_place hgrid hsides hindex himage hcount
    rw [Nat.zero_max] at hplace
    rw [place_append, beyond_before_append, List.getD_eq_getElem?_getD, hplace]
    rfl
  · intro i k hik hk
    rw [place_append, place_append]
    exact hgrow i k hik hk
  · intro i k hik hk
    rw [place_append, place_append]
    exact (hgrow i k hik hk).ne

/-- `build_mrope_positions` succeeds just where the image tokens split into the spans
of the grids, its positions are right, and it succeeds on every prepared prompt. -/
theorem buildMropePositionsBy_right (tokens : List Int) (imageTokenId mergeSize : Int)
    (grids : List (Option (List Int))) :
    ((∃ p, buildMropePositionsBy tokens imageTokenId mergeSize grids = .ok p) ↔
      ∃ counts, grids.mapM (visionTokenCount mergeSize) = .ok counts ∧
        SplitsInto imageTokenId tokens counts) ∧
    (∀ p, buildMropePositionsBy tokens imageTokenId mergeSize grids = .ok p →
      PlacesTokens tokens imageTokenId mergeSize grids p) ∧
    ∀ input counts beginToken endToken,
      grids.mapM (visionTokenCount mergeSize) = .ok counts →
      prepareMultimodalTokens input counts beginToken endToken imageTokenId = .ok tokens →
      ∃ p, buildMropePositionsBy tokens imageTokenId mergeSize grids = .ok p := by
  have hsplit : (∃ p, buildMropePositionsBy tokens imageTokenId mergeSize grids = .ok p) ↔
      ∃ counts, grids.mapM (visionTokenCount mergeSize) = .ok counts ∧
        SplitsInto imageTokenId tokens counts := by
    constructor
    · rintro ⟨p, hp⟩
      obtain ⟨cells, hlaid, -⟩ := buildMropePositionsBy_eq_ok_iff.mp hp
      exact hlaid.splitsInto
    · rintro ⟨counts, hcounts, hsplit⟩
      obtain ⟨cells, hlaid⟩ := exists_laidOut hcounts hsplit 0
      exact ⟨_, buildMropePositionsBy_eq_ok_iff.mpr ⟨cells, hlaid, rfl⟩⟩
  refine ⟨hsplit, ?_, ?_⟩
  · intro p hp
    obtain ⟨cells, hlaid, rfl⟩ := buildMropePositionsBy_eq_ok_iff.mp hp
    exact hlaid.placesTokens
  · intro input counts beginToken endToken hcounts hprepared
    apply hsplit.mpr
    refine ⟨counts, hcounts, ?_⟩
    have hspans := @splitsInto_spansFrom imageTokenId 0 tokens
    have hcheck := targetSpanLengths_prepare hprepared
    rw [targetSpanLengths] at hcheck
    rwa [hcheck] at hspans

end

end DashInfer.Vision
