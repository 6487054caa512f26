import Mathlib.Data.Rat.Floor
import Mathlib.Analysis.Real.Sqrt
import Mathlib.Tactic

/-!
`smart_resize`. Quotients and roots are exact here: the floor of a quotient by a
root is the root of the floor of the square. The bounds only ever choose one of
three ways to round, and the number of patches tells which.
-/

namespace DashInfer.Vision

/-- Python's `round`: halves go to the even side. -/
def pyRound (x : ℚ) : ℤ :=
  if x - ⌊x⌋ < 1 / 2 then ⌊x⌋
  else if 1 / 2 < x - ⌊x⌋ then ⌊x⌋ + 1
  else if ⌊x⌋ % 2 = 0 then ⌊x⌋ else ⌊x⌋ + 1

/-- `math.floor(number / beta / factor)` for `beta = math.sqrt(square)`. -/
def floorDivSqrt (number square factor : ℚ) : Nat :=
  Nat.sqrt ⌊(number / factor) ^ 2 / square⌋₊

def ceilSqrt (n : Nat) : Nat := if Nat.sqrt n ^ 2 = n then Nat.sqrt n else Nat.sqrt n + 1

/-- `math.ceil(number * beta / factor)` for `beta = math.sqrt(square)`. -/
def ceilMulSqrt (number square factor : ℚ) : Nat :=
  ceilSqrt ⌈(number / factor) ^ 2 * square⌉₊

/-- `round_by_factor(side, 28)`, in blocks of 28 pixels. -/
def roundBlocks (side : Nat) : Nat := (pyRound ((side : ℚ) / 28)).toNat

/-- `smart_resize` with `factor` 28. -/
def smartResize (height width : Nat) (minPixels maxPixels : ℚ) : Except String (Nat × Nat) :=
  if height < 10 ∨ width < 10 then
    .error s!"height:{height} or width:{width} must be larger than 10"
  else if 200 < (max height width : ℚ) / min height width then
    .error "absolute aspect ratio must be smaller than 200"
  else
    let rounded : ℚ := 784 * (roundBlocks height * roundBlocks width : Nat)
    if maxPixels < rounded then
      if maxPixels ≤ 0 then .error "math domain error"
      else .ok (28 * floorDivSqrt height (height * width / maxPixels) 28,
        28 * floorDivSqrt width (height * width / maxPixels) 28)
    else if rounded < minPixels then
      .ok (28 * ceilMulSqrt height (minPixels / (height * width)) 28,
        28 * ceilMulSqrt width (minPixels / (height * width)) 28)
    else .ok (28 * roundBlocks height, 28 * roundBlocks width)

section Roots

theorem ceilSqrt_mono {m n : Nat} (h : m ≤ n) : ceilSqrt m ≤ ceilSqrt n := by
  have hsqrt := Nat.sqrt_le_sqrt h
  unfold ceilSqrt
  split
  · split <;> omega
  · next hm =>
      split
      · next hn =>
          by_contra hlt
          have heq : Nat.sqrt n = Nat.sqrt m := by omega
          have hle := Nat.sqrt_le' m
          rw [heq] at hn
          omega
      · omega

theorem le_ceilSqrt_sq (n : Nat) : n ≤ ceilSqrt n ^ 2 := by
  unfold ceilSqrt
  split
  · next h => exact h.ge
  · exact (Nat.lt_succ_sqrt' n).le

variable {number square square' factor : ℚ}

theorem floorDivSqrt_sq_le (hsquare : 0 < square) :
    (floorDivSqrt number square factor : ℚ) ^ 2 ≤ (number / factor) ^ 2 / square := by
  have hsqrt := Nat.sqrt_le' ⌊(number / factor) ^ 2 / square⌋₊
  have hfloor : (⌊(number / factor) ^ 2 / square⌋₊ : ℚ) ≤ (number / factor) ^ 2 / square :=
    Nat.floor_le (by positivity)
  calc (floorDivSqrt number square factor : ℚ) ^ 2
      = ((Nat.sqrt ⌊(number / factor) ^ 2 / square⌋₊ ^ 2 : Nat) : ℚ) := by
        rw [floorDivSqrt, Nat.cast_pow]
    _ ≤ (⌊(number / factor) ^ 2 / square⌋₊ : ℚ) := by exact_mod_cast hsqrt
    _ ≤ (number / factor) ^ 2 / square := hfloor

theorem le_ceilMulSqrt_sq :
    (number / factor) ^ 2 * square ≤ (ceilMulSqrt number square factor : ℚ) ^ 2 := by
  have hceil := Nat.le_ceil ((number / factor) ^ 2 * square)
  have hsqrt := le_ceilSqrt_sq ⌈(number / factor) ^ 2 * square⌉₊
  calc (number / factor) ^ 2 * square
      ≤ (⌈(number / factor) ^ 2 * square⌉₊ : ℚ) := hceil
    _ ≤ ((ceilSqrt ⌈(number / factor) ^ 2 * square⌉₊ ^ 2 : Nat) : ℚ) := by exact_mod_cast hsqrt
    _ = (ceilMulSqrt number square factor : ℚ) ^ 2 := by rw [ceilMulSqrt, Nat.cast_pow]

/-- A smaller divisor gives more. -/
theorem floorDivSqrt_anti (hsquare : 0 < square) (h : square ≤ square') :
    floorDivSqrt number square' factor ≤ floorDivSqrt number square factor := by
  apply Nat.sqrt_le_sqrt
  apply Nat.floor_mono
  exact div_le_div_of_nonneg_left (sq_nonneg _) hsquare h

theorem ceilMulSqrt_mono (h : square ≤ square') :
    ceilMulSqrt number square factor ≤ ceilMulSqrt number square' factor := by
  apply ceilSqrt_mono
  apply Nat.ceil_mono
  exact mul_le_mul_of_nonneg_left h (sq_nonneg _)

/-- The source's formula, over the reals. -/
theorem floorDivSqrt_eq (hnumber : 0 ≤ number) (hsquare : 0 < square) (hfactor : 0 < factor) :
    (floorDivSqrt number square factor : ℤ) =
      ⌊(number : ℝ) / Real.sqrt square / factor⌋ := by
  have hroot : 0 < Real.sqrt square := Real.sqrt_pos.mpr (by exact_mod_cast hsquare)
  have hfactor' : (0 : ℝ) < factor := by exact_mod_cast hfactor
  have hnumber' : (0 : ℝ) ≤ number := by exact_mod_cast hnumber
  have hvalue : ((number : ℝ) / Real.sqrt square / factor) ^ 2 =
      (((number / factor) ^ 2 / square : ℚ) : ℝ) := by
    push_cast
    rw [div_pow, div_pow, div_pow, Real.sq_sqrt (by exact_mod_cast hsquare.le)]
    ring
  have hnonneg : 0 ≤ (number : ℝ) / Real.sqrt square / factor := by positivity
  symm
  rw [Int.floor_eq_iff]
  constructor
  · have hle : ((floorDivSqrt number square factor : ℚ) : ℝ) ^ 2 ≤
        ((number : ℝ) / Real.sqrt square / factor) ^ 2 := by
      rw [hvalue]
      exact_mod_cast @floorDivSqrt_sq_le number square factor hsquare
    have := (pow_le_pow_iff_left₀ (by positivity) hnonneg two_ne_zero).mp hle
    exact_mod_cast this
  · have hlt : (number / factor) ^ 2 / square <
        ((floorDivSqrt number square factor + 1 : Nat) : ℚ) ^ 2 := by
      have hfloor := Nat.lt_floor_add_one ((number / factor) ^ 2 / square)
      have hsqrt : ⌊(number / factor) ^ 2 / square⌋₊ + 1 ≤
          (floorDivSqrt number square factor + 1) ^ 2 :=
        Nat.lt_succ_sqrt' ⌊(number / factor) ^ 2 / square⌋₊
      calc (number / factor) ^ 2 / square
          < ((⌊(number / factor) ^ 2 / square⌋₊ + 1 : Nat) : ℚ) := by
            push_cast
            exact hfloor
        _ ≤ ((floorDivSqrt number square factor + 1 : Nat) : ℚ) ^ 2 := by exact_mod_cast hsqrt
    have hlt' : ((number : ℝ) / Real.sqrt square / factor) ^ 2 <
        (((floorDivSqrt number square factor + 1 : Nat) : ℚ) : ℝ) ^ 2 := by
      rw [hvalue]
      exact_mod_cast hlt
    have := (pow_lt_pow_iff_left₀ hnonneg (by positivity) two_ne_zero).mp hlt'
    push_cast at this ⊢
    exact this

end Roots

section Bounds

variable {height width : Nat} {minPixels maxPixels : ℚ}

/-- With both sides divided by the same root, the area is below the bound. -/
theorem area_floorDivSqrt_le {factor : ℚ} (hheight : 0 < height) (hwidth : 0 < width)
    (hmax : 0 < maxPixels) (hfactor : 0 < factor) :
    factor ^ 2 * ((floorDivSqrt height (height * width / maxPixels) factor *
      floorDivSqrt width (height * width / maxPixels) factor : Nat) : ℚ) ≤ maxPixels := by
  have hh : (0 : ℚ) < height := by exact_mod_cast hheight
  have hw : (0 : ℚ) < width := by exact_mod_cast hwidth
  have hsquare : (0 : ℚ) < height * width / maxPixels := by positivity
  have h₁ := @floorDivSqrt_sq_le height _ factor hsquare
  have h₂ := @floorDivSqrt_sq_le width _ factor hsquare
  have hproduct := mul_le_mul h₁ h₂ (sq_nonneg _) (by positivity)
  have hright : ((height : ℚ) / factor) ^ 2 / (height * width / maxPixels) *
      (((width : ℚ) / factor) ^ 2 / (height * width / maxPixels)) =
        (maxPixels / factor ^ 2) ^ 2 := by
    field_simp
  rw [hright, ← mul_pow] at hproduct
  have hle := (pow_le_pow_iff_left₀ (by positivity) (by positivity) two_ne_zero).mp hproduct
  push_cast
  rw [le_div_iff₀ (by positivity)] at hle
  linarith

theorem le_area_ceilMulSqrt {factor : ℚ} (hheight : 0 < height) (hwidth : 0 < width)
    (hmin : 0 < minPixels) (hfactor : 0 < factor) :
    minPixels ≤ factor ^ 2 * ((ceilMulSqrt height (minPixels / (height * width)) factor *
      ceilMulSqrt width (minPixels / (height * width)) factor : Nat) : ℚ) := by
  have hh : (0 : ℚ) < height := by exact_mod_cast hheight
  have hw : (0 : ℚ) < width := by exact_mod_cast hwidth
  have h₁ := @le_ceilMulSqrt_sq height (minPixels / (height * width)) factor
  have h₂ := @le_ceilMulSqrt_sq width (minPixels / (height * width)) factor
  have hproduct := mul_le_mul h₁ h₂ (by positivity) (sq_nonneg _)
  have hleft : ((height : ℚ) / factor) ^ 2 * (minPixels / (height * width)) *
      (((width : ℚ) / factor) ^ 2 * (minPixels / (height * width))) =
        (minPixels / factor ^ 2) ^ 2 := by
    field_simp
  rw [hleft, ← mul_pow] at hproduct
  have hle := (pow_le_pow_iff_left₀ (by positivity) (by positivity) two_ne_zero).mp hproduct
  push_cast
  rw [div_le_iff₀ (by positivity)] at hle
  linarith

theorem area_floor_le (hheight : 0 < height) (hwidth : 0 < width) (hmax : 0 < maxPixels) :
    784 * ((floorDivSqrt height (height * width / maxPixels) 28 *
      floorDivSqrt width (height * width / maxPixels) 28 : Nat) : ℚ) ≤ maxPixels := by
  have harea := area_floorDivSqrt_le hheight hwidth hmax (by norm_num : (0 : ℚ) < 28)
  norm_num at harea ⊢
  exact harea

theorem area_le_ceil (hheight : 0 < height) (hwidth : 0 < width) (hmin : 0 < minPixels) :
    minPixels ≤ 784 * ((ceilMulSqrt height (minPixels / (height * width)) 28 *
      ceilMulSqrt width (minPixels / (height * width)) 28 : Nat) : ℚ) := by
  have harea := le_area_ceilMulSqrt hheight hwidth hmin (by norm_num : (0 : ℚ) < 28)
  norm_num at harea ⊢
  exact harea

/-- The three ways to round, and what each makes of the number of blocks. -/
inductive Rounding (height width : Nat) (minPixels maxPixels : ℚ) : Nat → Nat → Prop
  | down (hmax : 0 < maxPixels)
      (hover : maxPixels < 784 * (roundBlocks height * roundBlocks width : Nat)) :
      Rounding height width minPixels maxPixels
        (floorDivSqrt height (height * width / maxPixels) 28)
        (floorDivSqrt width (height * width / maxPixels) 28)
  | up (hunder : 784 * (roundBlocks height * roundBlocks width : Nat) < minPixels) :
      Rounding height width minPixels maxPixels
        (ceilMulSqrt height (minPixels / (height * width)) 28)
        (ceilMulSqrt width (minPixels / (height * width)) 28)
  | nearest : Rounding height width minPixels maxPixels (roundBlocks height) (roundBlocks width)

theorem smartResize_cases {h w : Nat} (hok : smartResize height width minPixels maxPixels =
    .ok (h, w)) : 0 < height ∧ 0 < width ∧ ∃ a b, h = 28 * a ∧ w = 28 * b ∧
      Rounding height width minPixels maxPixels a b := by
  unfold smartResize at hok
  split at hok
  · cases hok
  · next hsides =>
      refine ⟨by omega, by omega, ?_⟩
      split at hok
      · cases hok
      · simp only at hok
        split at hok
        · next hover =>
            split at hok
            · cases hok
            · next hmax =>
                cases hok
                exact ⟨_, _, rfl, rfl, .down (not_le.mp hmax) hover⟩
        · split at hok
          · next hunder =>
              cases hok
              exact ⟨_, _, rfl, rfl, .up hunder⟩
          · cases hok
            exact ⟨_, _, rfl, rfl, .nearest⟩

/-- Where the number of blocks stands to that of plain rounding. -/
theorem Rounding.area {a b : Nat} (h : Rounding height width minPixels maxPixels a b)
    (hheight : 0 < height) (hwidth : 0 < width) :
    (a * b < roundBlocks height * roundBlocks width ∧ 0 < maxPixels ∧
      a = floorDivSqrt height (height * width / maxPixels) 28 ∧
      b = floorDivSqrt width (height * width / maxPixels) 28) ∨
    (roundBlocks height * roundBlocks width < a * b ∧
      a = ceilMulSqrt height (minPixels / (height * width)) 28 ∧
      b = ceilMulSqrt width (minPixels / (height * width)) 28) ∨
    (a = roundBlocks height ∧ b = roundBlocks width) := by
  cases h with
  | down hmax hover =>
      have harea := (area_floor_le hheight hwidth hmax).trans_lt hover
      have hlt := lt_of_mul_lt_mul_left harea (by norm_num)
      exact .inl ⟨by exact_mod_cast hlt, hmax, rfl, rfl⟩
  | up hunder =>
      have hmin : 0 < minPixels := lt_of_le_of_lt (by positivity) hunder
      have harea := hunder.trans_le (area_le_ceil hheight hwidth hmin)
      have hlt := lt_of_mul_lt_mul_left harea (by norm_num)
      exact .inr (.inl ⟨by exact_mod_cast hlt, rfl, rfl⟩)
  | nearest => exact .inr (.inr ⟨rfl, rfl⟩)

theorem eq_of_le_of_mul_eq {a b c d : Nat} (hac : a ≤ c) (hbd : b ≤ d) (h : a * b = c * d)
    (hpos : 0 < a * b) : a = c ∧ b = d := by
  have ha : 0 < a := Nat.pos_of_mul_pos_right hpos
  have hb : 0 < b := Nat.pos_of_mul_pos_left hpos
  constructor
  · by_contra hne
    have hlt : a * b < c * d := by
      have : a < c := by omega
      calc a * b < c * b := Nat.mul_lt_mul_of_pos_right this hb
        _ ≤ c * d := Nat.mul_le_mul_left c hbd
    omega
  · by_contra hne
    have hlt : a * b < c * d := by
      have : b < d := by omega
      calc a * b < a * d := Nat.mul_lt_mul_of_pos_left this ha
        _ ≤ c * d := Nat.mul_le_mul_right d hac
    omega

/-- Whatever the bounds, the number of blocks fixes the sides. -/
theorem Rounding.unique {a b c d : Nat} {minPixels' maxPixels' : ℚ}
    (h : Rounding height width minPixels maxPixels a b)
    (h' : Rounding height width minPixels' maxPixels' c d)
    (hheight : 0 < height) (hwidth : 0 < width) (harea : a * b = c * d) (hpos : 0 < a * b) :
    a = c ∧ b = d := by
  have hh : (0 : ℚ) < height := by exact_mod_cast hheight
  have hw : (0 : ℚ) < width := by exact_mod_cast hwidth
  rcases h.area hheight hwidth with ⟨hlt, hmax, rfl, rfl⟩ | ⟨hlt, rfl, rfl⟩ | ⟨rfl, rfl⟩
  · rcases h'.area hheight hwidth with ⟨_, hmax', rfl, rfl⟩ | ⟨hlt', _⟩ | ⟨rfl, rfl⟩
    · have hmono : ∀ {p q : ℚ}, 0 < p → p ≤ q → ∀ side : Nat,
          floorDivSqrt side (height * width / p) 28 ≤
            floorDivSqrt side (height * width / q) 28 := by
        intro p q hp hpq side
        have hq := hp.trans_le hpq
        apply floorDivSqrt_anti (by positivity)
        exact div_le_div_of_nonneg_left (by positivity) hp hpq
      rcases le_total maxPixels maxPixels' with hle | hle
      · exact eq_of_le_of_mul_eq (hmono hmax hle _) (hmono hmax hle _) harea hpos
      · obtain ⟨h₁, h₂⟩ := eq_of_le_of_mul_eq (hmono hmax' hle height) (hmono hmax' hle width)
          harea.symm (harea ▸ hpos)
        exact ⟨h₁.symm, h₂.symm⟩
    · omega
    · omega
  · rcases h'.area hheight hwidth with ⟨hlt', _⟩ | ⟨_, rfl, rfl⟩ | ⟨rfl, rfl⟩
    · omega
    · have hmono : ∀ {p q : ℚ}, p ≤ q → ∀ side : Nat,
          ceilMulSqrt side (p / (height * width)) 28 ≤
            ceilMulSqrt side (q / (height * width)) 28 := by
        intro p q hpq side
        apply ceilMulSqrt_mono
        exact div_le_div_of_nonneg_right hpq (by positivity)
      rcases le_total minPixels minPixels' with hle | hle
      · exact eq_of_le_of_mul_eq (hmono hle _) (hmono hle _) harea hpos
      · obtain ⟨h₁, h₂⟩ := eq_of_le_of_mul_eq (hmono hle height) (hmono hle width)
          harea.symm (harea ▸ hpos)
        exact ⟨h₁.symm, h₂.symm⟩
    · omega
  · rcases h'.area hheight hwidth with ⟨hlt', _⟩ | ⟨hlt', _⟩ | ⟨rfl, rfl⟩
    · omega
    · omega
    · exact ⟨rfl, rfl⟩

end Bounds

end DashInfer.Vision
