import Mathlib
import DashInfer.Vision.Resize

/-!
The bounds of `smart_resize`, for any factor. Both sides are scaled by one root,
so the area keeps its bound; rounding down after that may take a side to zero,
and does exactly when the smaller side has no room for one block.
-/

namespace DashInfer.Vision

/-- `round(side / factor)`. -/
def roundBlocksBy (factor side : Nat) : Nat := (pyRound ((side : ℚ) / factor)).toNat

/-- The area of the sides rounded to multiples of the factor. -/
def roundedArea (factor height width : Nat) : ℚ :=
  ((roundBlocksBy factor height * factor) * (roundBlocksBy factor width * factor) : Nat)

/-- `smart_resize`. -/
def smartResizeBy (height width factor : Nat) (minPixels maxPixels : ℚ) :
    Except String (Nat × Nat) :=
  if height < 10 ∨ width < 10 then
    .error s!"height:{height} or width:{width} must be larger than 10"
  else if 200 < (max height width : ℚ) / min height width then
    .error "absolute aspect ratio must be smaller than 200"
  else if maxPixels < roundedArea factor height width then
    if maxPixels ≤ 0 then .error "math domain error"
    else .ok (floorDivSqrt height (height * width / maxPixels) factor * factor,
      floorDivSqrt width (height * width / maxPixels) factor * factor)
  else if roundedArea factor height width < minPixels then
    .ok (ceilMulSqrt height (minPixels / (height * width)) factor * factor,
      ceilMulSqrt width (minPixels / (height * width)) factor * factor)
  else .ok (roundBlocksBy factor height * factor, roundBlocksBy factor width * factor)

/-- The factor of a model with patches of 14 pixels that merges two by two. -/
theorem smartResize_eq (height width : Nat) (minPixels maxPixels : ℚ) :
    smartResize height width minPixels maxPixels =
      smartResizeBy height width 28 minPixels maxPixels := by
  have hblocks : ∀ side, roundBlocksBy 28 side = roundBlocks side := fun _ => rfl
  have harea : roundedArea 28 height width =
      784 * (roundBlocks height * roundBlocks width : Nat) := by
    rw [roundedArea, hblocks, hblocks]
    push_cast
    ring
  unfold smartResize smartResizeBy
  simp only [harea, hblocks, Nat.cast_ofNat, Nat.mul_comm _ 28]

/-- What the caller may rely on. -/
structure Bounded (factor height width : Nat) (minPixels maxPixels : ℚ) (h w : Nat) : Prop where
  height_dvd : factor ∣ h
  width_dvd : factor ∣ w
  height_pos : 0 < h
  width_pos : 0 < w
  area_le : maxPixels < roundedArea factor height width → ((h * w : Nat) : ℚ) ≤ maxPixels
  le_area : roundedArea factor height width < minPixels → minPixels ≤ ((h * w : Nat) : ℚ)

theorem ceilSqrt_pos {n : Nat} (h : 0 < n) : 0 < ceilSqrt n := by
  have hsq := le_ceilSqrt_sq n
  by_contra hzero
  rw [Nat.eq_zero_of_not_pos hzero] at hsq
  omega

theorem ceilMulSqrt_pos {number square f : ℚ} (hnumber : 0 < number) (hsquare : 0 < square)
    (hf : 0 < f) : 0 < ceilMulSqrt number square f := by
  apply ceilSqrt_pos
  apply Nat.ceil_pos.mpr
  positivity

theorem pred_ceilSqrt_sq_lt {n : Nat} (h : 0 < ceilSqrt n) : (ceilSqrt n - 1) ^ 2 < n := by
  have hsqrt := Nat.sqrt_le' n
  unfold ceilSqrt at h ⊢
  split
  case isTrue hsq =>
    rw [if_pos hsq] at h
    calc (Nat.sqrt n - 1) ^ 2 < Nat.sqrt n ^ 2 :=
          Nat.pow_lt_pow_left (Nat.sub_lt h Nat.one_pos) two_ne_zero
      _ = n := hsq
  case isFalse hne =>
    rw [Nat.add_sub_cancel]
    omega

/-- The source's formula, over the reals. -/
theorem ceilMulSqrt_eq {number square factor : ℚ} (hnumber : 0 < number) (hsquare : 0 < square)
    (hfactor : 0 < factor) :
    (ceilMulSqrt number square factor : ℤ) = ⌈(number : ℝ) * Real.sqrt square / factor⌉ := by
  have hsquare' : (0 : ℝ) < square := by exact_mod_cast hsquare
  have hnumber' : (0 : ℝ) < number := by exact_mod_cast hnumber
  have hfactor' : (0 : ℝ) < factor := by exact_mod_cast hfactor
  have hroot : 0 < Real.sqrt square := Real.sqrt_pos.mpr hsquare'
  have hvalue : ((number : ℝ) * Real.sqrt square / factor) ^ 2 =
      (((number / factor) ^ 2 * square : ℚ) : ℝ) := by
    push_cast
    rw [div_pow, mul_pow, div_pow, Real.sq_sqrt hsquare'.le]
    ring
  have hpos : 0 < (number : ℝ) * Real.sqrt square / factor := by positivity
  symm
  rw [Int.ceil_eq_iff]
  constructor
  · have hceil : 0 < ceilMulSqrt number square factor := by
      apply ceilSqrt_pos
      apply Nat.ceil_pos.mpr
      positivity
    have hlt : ((ceilMulSqrt number square factor - 1 : Nat) : ℚ) ^ 2 <
        (number / factor) ^ 2 * square := by
      have hsq := pred_ceilSqrt_sq_lt hceil
      have hnat := Nat.lt_ceil.mp hsq
      exact_mod_cast hnat
    have hlt' : (((ceilMulSqrt number square factor - 1 : Nat) : ℚ) : ℝ) ^ 2 <
        ((number : ℝ) * Real.sqrt square / factor) ^ 2 := by
      rw [hvalue]
      exact_mod_cast hlt
    have hroots := (pow_lt_pow_iff_left₀ (by positivity) hpos.le two_ne_zero).mp hlt'
    rw [Nat.cast_sub hceil] at hroots
    push_cast at hroots ⊢
    exact hroots
  · have hle : ((number : ℝ) * Real.sqrt square / factor) ^ 2 ≤
        ((ceilMulSqrt number square factor : ℚ) : ℝ) ^ 2 := by
      rw [hvalue]
      exact_mod_cast @le_ceilMulSqrt_sq number square factor
    have hroots := (pow_le_pow_iff_left₀ hpos.le (by positivity) two_ne_zero).mp hle
    exact_mod_cast hroots

section Blocks

variable {height width factor : Nat} {minPixels maxPixels : ℚ}

/-- A side keeps a block exactly when the other side leaves it room. -/
theorem floorDivSqrt_pos_iff (hheight : 0 < height) (hwidth : 0 < width) (hfactor : 0 < factor)
    (hmax : 0 < maxPixels) :
    0 < floorDivSqrt height (height * width / maxPixels) factor ↔
      (factor : ℚ) ^ 2 * width ≤ maxPixels * height := by
  have hh : (0 : ℚ) < height := by exact_mod_cast hheight
  have hw : (0 : ℚ) < width := by exact_mod_cast hwidth
  have hf : (0 : ℚ) < factor := by exact_mod_cast hfactor
  have hvalue : ((height : ℚ) / factor) ^ 2 / (height * width / maxPixels) =
      maxPixels * height / (factor ^ 2 * width) := by
    field_simp
  rw [floorDivSqrt, Nat.sqrt_pos, Nat.floor_pos, hvalue, one_le_div (by positivity)]

/-- Both sides keep a block exactly when the smaller one does. -/
theorem floor_sides_pos_iff (hheight : 0 < height) (hwidth : 0 < width) (hfactor : 0 < factor)
    (hmax : 0 < maxPixels) :
    (0 < floorDivSqrt height (height * width / maxPixels) factor ∧
        0 < floorDivSqrt width (height * width / maxPixels) factor) ↔
      (factor : ℚ) ^ 2 * max height width ≤ maxPixels * min height width := by
  have hsquare : (0 : ℚ) ≤ (factor : ℚ) ^ 2 := sq_nonneg _
  have hcomm : (height : ℚ) * width = width * height := mul_comm _ _
  rw [floorDivSqrt_pos_iff hheight hwidth hfactor hmax, hcomm,
    floorDivSqrt_pos_iff hwidth hheight hfactor hmax]
  rcases le_total height width with hle | hle
  · have hle' : (height : ℚ) ≤ width := by exact_mod_cast hle
    rw [max_eq_right hle, min_eq_left hle]
    constructor
    · exact And.left
    · intro h
      refine ⟨h, ?_⟩
      calc (factor : ℚ) ^ 2 * height ≤ factor ^ 2 * width := mul_le_mul_of_nonneg_left hle' hsquare
        _ ≤ maxPixels * height := h
        _ ≤ maxPixels * width := mul_le_mul_of_nonneg_left hle' hmax.le
  · have hle' : (width : ℚ) ≤ height := by exact_mod_cast hle
    rw [max_eq_left hle, min_eq_right hle]
    constructor
    · exact And.right
    · intro h
      refine ⟨?_, h⟩
      calc (factor : ℚ) ^ 2 * width ≤ factor ^ 2 * height := mul_le_mul_of_nonneg_left hle' hsquare
        _ ≤ maxPixels * width := h
        _ ≤ maxPixels * height := mul_le_mul_of_nonneg_left hle' hmax.le

/-- An area of at least one block has sides of at least one block. -/
theorem roundBlocksBy_pos (hfactor : 0 < factor) (hmin : (factor : ℚ) ^ 2 ≤ minPixels)
    (harea : minPixels ≤ roundedArea factor height width) :
    0 < roundBlocksBy factor height * factor ∧ 0 < roundBlocksBy factor width * factor := by
  have hf : (0 : ℚ) < factor := by exact_mod_cast hfactor
  have hpos : (0 : ℚ) < roundedArea factor height width :=
    calc (0 : ℚ) < (factor : ℚ) ^ 2 := by positivity
      _ ≤ minPixels := hmin
      _ ≤ roundedArea factor height width := harea
  have hproduct : 0 < (roundBlocksBy factor height * factor) *
      (roundBlocksBy factor width * factor) := by
    rw [roundedArea] at hpos
    exact_mod_cast hpos
  exact ⟨Nat.pos_of_mul_pos_right hproduct, Nat.pos_of_mul_pos_left hproduct⟩

end Blocks

/-- The bounds hold exactly if the size was not rounded down to no block: the
rounded size is not over the bound, or one block fits into the smaller side. -/
theorem smartResize_bounded_iff {height width factor : Nat} {minPixels maxPixels : ℚ} {h w : Nat}
    (hfactor : 1 ≤ factor) (hmin : (factor : ℚ) ^ 2 ≤ minPixels) (hle : minPixels ≤ maxPixels)
    (hok : smartResizeBy height width factor minPixels maxPixels = .ok (h, w)) :
    Bounded factor height width minPixels maxPixels h w ↔
      roundedArea factor height width ≤ maxPixels ∨
        (factor : ℚ) ^ 2 * max height width ≤ maxPixels * min height width := by
  have hf : (0 : ℚ) < factor := by exact_mod_cast hfactor
  have hminPos : 0 < minPixels := lt_of_lt_of_le (by positivity) hmin
  have hmaxPos : 0 < maxPixels := lt_of_lt_of_le hminPos hle
  unfold smartResizeBy at hok
  split at hok
  case isTrue => cases hok
  case isFalse hsides =>
    have hheight : 0 < height := by omega
    have hwidth : 0 < width := by omega
    have hh : (0 : ℚ) < height := by exact_mod_cast hheight
    have hw : (0 : ℚ) < width := by exact_mod_cast hwidth
    split at hok
    case isTrue => cases hok
    case isFalse =>
      split at hok
      case isTrue hover =>
        -- rounded down
        rw [if_neg (not_le.mpr hmaxPos)] at hok
        obtain ⟨rfl, rfl⟩ := Prod.mk.inj (Except.ok.inj hok)
        have hsides := floor_sides_pos_iff hheight hwidth hfactor hmaxPos
        constructor
        · intro hbounded
          right
          apply hsides.mp
          exact ⟨Nat.pos_of_mul_pos_right hbounded.height_pos,
            Nat.pos_of_mul_pos_right hbounded.width_pos⟩
        · rintro (hnot | hroom)
          · exact absurd hover (not_lt.mpr hnot)
          · obtain ⟨hhpos, hwpos⟩ := hsides.mpr hroom
            have harea := area_floorDivSqrt_le hheight hwidth hmaxPos hf
            constructor
            · exact Nat.dvd_mul_left _ _
            · exact Nat.dvd_mul_left _ _
            · exact Nat.mul_pos hhpos hfactor
            · exact Nat.mul_pos hwpos hfactor
            · intro _
              push_cast at harea ⊢
              linarith
            · intro hunder
              exact absurd (hunder.trans_le hle) (not_lt.mpr hover.le)
      case isFalse hnot =>
        have hnotOver := not_lt.mp hnot
        split at hok
        case isTrue hunder =>
          -- rounded up
          obtain ⟨rfl, rfl⟩ := Prod.mk.inj (Except.ok.inj hok)
          have harea := le_area_ceilMulSqrt hheight hwidth hminPos hf
          refine ⟨fun _ => Or.inl hnotOver, fun _ => ?_⟩
          constructor
          · exact Nat.dvd_mul_left _ _
          · exact Nat.dvd_mul_left _ _
          · exact Nat.mul_pos (ceilMulSqrt_pos hh (by positivity) hf) hfactor
          · exact Nat.mul_pos (ceilMulSqrt_pos hw (by positivity) hf) hfactor
          · exact fun hover => absurd hover hnot
          · intro _
            push_cast at harea ⊢
            linarith
        case isFalse hnotUnder =>
          -- rounded to the nearest
          obtain ⟨rfl, rfl⟩ := Prod.mk.inj (Except.ok.inj hok)
          obtain ⟨hhpos, hwpos⟩ := roundBlocksBy_pos hfactor hmin (not_lt.mp hnotUnder)
          refine ⟨fun _ => Or.inl hnotOver, fun _ => ?_⟩
          constructor
          · exact Nat.dvd_mul_left _ _
          · exact Nat.dvd_mul_left _ _
          · exact hhpos
          · exact hwpos
          · exact fun hover => absurd hover hnot
          · exact fun hunder => absurd hunder hnotUnder

theorem smartResize_bounded_iff_square :
    Bounded 28 100 100 3136 3136 56 56 ↔
      roundedArea 28 100 100 ≤ 3136 ∨
        ((28 : Nat) : ℚ) ^ 2 * max (100 : Nat) (100 : Nat) ≤ 3136 * min (100 : Nat) (100 : Nat) :=
  smartResize_bounded_iff (by decide) (by norm_num) (le_refl _) (by decide +kernel)

/-- A strip of 20 by 2800 pixels has no block left in its height. -/
theorem strip_resized_to_zero :
    smartResizeBy 20 2800 28 3136 3136 = .ok (0, 644) ∧ ((28 : Nat) : ℚ) ^ 2 ≤ 3136 ∧
      ¬ Bounded 28 20 2800 3136 3136 0 644 := by
  refine ⟨by decide +kernel, by norm_num, fun h => ?_⟩
  exact absurd h.height_pos (Nat.lt_irrefl 0)

end DashInfer.Vision
