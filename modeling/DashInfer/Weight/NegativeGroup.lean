import DashInfer.Weight.Reassembly

/-!
A group of negative width passes the divisibility and length checks of
GROUP_VSPLIT and MQA_VSPLIT. Its width becomes a huge `size_t`, so the first
copy of such a group either throws or leaves the buffers.
-/

namespace DashInfer.Weight

open DashInfer.Lib

/-- The bytes of a width just below the end of `size_t`. -/
theorem sizeT_wrapped {e size : Nat} (he : 0 < e) (he31 : e ≤ 2 ^ 31) (hsize : 0 < size)
    (hsize8 : size ≤ 8) :
    2 ^ 63 ≤ sizeT (((2 ^ 64 - e : Nat) : Int) * (size : Int)) := by
  have hle : e * size ≤ 2 ^ 34 := by
    calc e * size ≤ 2 ^ 31 * 8 := Nat.mul_le_mul he31 hsize8
      _ = 2 ^ 34 := by norm_num
  have hpos : 0 < e * size := Nat.mul_pos he hsize
  have hcast : ((2 ^ 64 - e : Nat) : Int) * (size : Int) =
      2 ^ 64 * (size : Int) - ((e * size : Nat) : Int) := by
    rw [Nat.cast_sub (by omega)]
    push_cast
    ring
  rw [hcast, sizeT]
  omega

theorem memcpyRows_fits {dst src out : List UInt8} {rows : List Region}
    (h : memcpyRows dst src rows = .ok out) : ∀ c ∈ rows, c.Fits dst.length src.length := by
  rw [memcpyRows] at h
  split at h
  case h_1 data hdata => exact fits_of_copyRegions hdata
  case h_2 => cases h

section Wide

variable {whole dst t : AsTensor} {H w d s x h : Nat}

/-- A width beyond the dimensions either fails the check of the source columns
or wraps around it, and then no buffer holds its bytes. -/
theorem wide_check (hw : w < 2 ^ 31) (hs : s < 2 ^ 31) (hx : 2 ^ 32 ≤ x) (hx64 : x < 2 ^ 64)
    {size : Nat} (hsize : 0 < size) (hsize8 : size ≤ 8)
    (hcheck : ¬ sizeT ((w : Nat) : Int) < sizeT ((x : Int) + (s : Int))) :
    2 ^ 63 ≤ sizeT ((x : Int) * (size : Int)) := by
  have hwrap : 2 ^ 64 ≤ x + s := by
    by_contra hlt
    rw [sizeT_natCast (by omega), sizeT_add (by omega)] at hcheck
    omega
  obtain ⟨e, rfl⟩ : ∃ e, x = 2 ^ 64 - e := ⟨2 ^ 64 - x, by omega⟩
  exact sizeT_wrapped (by omega) (by omega) hsize hsize8

theorem wide_matrix (hshape : whole.shape = [(H : Int), (w : Int)]) (hw : w < 2 ^ 31)
    (hs : s < 2 ^ 31) (hx : 2 ^ 32 ≤ x) (hx64 : x < 2 ^ 64) (hdata : whole.data.length < 2 ^ 63)
    (hh : 0 < h) (hsize : 0 < sizeofType whole.dtype) :
    deepCopyMatrix2DPart dst d 0 whole s 0 x h ≠ .ok t := by
  intro hok
  simp only [deepCopyMatrix2DPart] at hok
  split at hok
  case isTrue => cases hok
  case isFalse =>
      split at hok
      case isTrue => cases hok
      case isFalse hdtype =>
          split at hok
          case isTrue => cases hok
          case isFalse hcheck =>
              rw [not_not.mp hdtype] at hok
              obtain ⟨data, hrows, -⟩ := bind_eq_ok hok
              have hfits := memcpyRows_fits hrows _
                (List.mem_map.mpr ⟨0, List.mem_range.mpr hh, rfl⟩)
              rw [hshape] at hcheck
              have hwide := wide_check hw hs hx hx64 hsize (sizeofType_le _) fun hlt =>
                hcheck (Or.inr (Or.inl hlt))
              have hbound := hfits.2
              dsimp only at hbound
              omega

theorem wide_vector (hshape : whole.shape = [(w : Int)]) (hw : w < 2 ^ 31)
    (hs : s < 2 ^ 31) (hx : 2 ^ 32 ≤ x) (hx64 : x < 2 ^ 64) (hdata : whole.data.length < 2 ^ 63)
    (hsize : 0 < sizeofType whole.dtype) :
    deepCopyVectorPart dst d whole s x ≠ .ok t := by
  intro hok
  simp only [deepCopyVectorPart] at hok
  split at hok
  case isTrue => cases hok
  case isFalse =>
      split at hok
      case isTrue => cases hok
      case isFalse hdtype =>
          split at hok
          case isTrue => cases hok
          case isFalse hcheck =>
              rw [not_not.mp hdtype] at hok
              obtain ⟨data, hrows, -⟩ := bind_eq_ok hok
              have hfits := memcpyRows_fits hrows _ (List.mem_singleton.mpr rfl)
              rw [hshape] at hcheck
              have hwide := wide_check hw hs hx hx64 hsize (sizeofType_le _) fun hlt =>
                hcheck (Or.inl hlt)
              have hbound := hfits.2
              dsimp only at hbound
              omega

/-- A vector copy longer than the part throws. -/
theorem long_vector {dw n : Nat} (hshape : dst.shape = [(dw : Int)]) (hdw : dw < n)
    (hn : n < 2 ^ 31) (hd : d < 2 ^ 31) : deepCopyVectorPart dst d whole s n ≠ .ok t := by
  intro hok
  simp only [deepCopyVectorPart, hshape] at hok
  split at hok
  case isTrue => cases hok
  case isFalse =>
      split at hok
      case isTrue => cases hok
      case isFalse =>
          split at hok
          case isTrue => cases hok
          case isFalse hcheck =>
              refine hcheck (Or.inr ?_)
              rw [List.getD_cons_zero, sizeT_natCast (by omega), sizeT_add (by omega)]
              omega

end Wide

theorem narrow_add_mul (z q : Int) : narrow (z + 2 ^ 32 * q) = narrow z := by
  have hmul := Int.add_mul_bmod_self_left z (2 ^ 32) q
  exact hmul

theorem narrow_eq {z : Int} (hlow : -2 ^ 31 ≤ z) (hhigh : z < 2 ^ 31) : narrow z = z := by
  rw [narrow, Int.bmod_def]
  omega

theorem narrow_high {z : Int} (hlow : 2 ^ 31 ≤ z) (hhigh : z < 2 ^ 32) :
    narrow z = z - 2 ^ 32 := by
  rw [narrow, Int.bmod_def]
  omega

/-- The width of a negative group divided among the ranks, as an `int`, is
negative or longer than the part of a rank. -/
theorem narrow_group {n j w : Nat} (hn : 0 < n) (hj : 0 < j) (hnj : n * j ≤ 2 ^ 31)
    (hw : w < 2 ^ 31) :
    narrow (((2 ^ 64 - n * j) / n : Nat) : Int) < 0 ∨
      ((w / n : Nat) : Int) < narrow (((2 ^ 64 - n * j) / n : Nat) : Int) := by
  have hq := Nat.div_add_mod (2 ^ 32) n
  have hrho := Nat.mod_lt (2 ^ 32) hn
  generalize hqdef : 2 ^ 32 / n = q at hq
  generalize hrdef : 2 ^ 32 % n = ρ at hq hrho
  have hy := Nat.div_add_mod (2 ^ 32 * ρ) n
  have hymod := Nat.mod_lt (2 ^ 32 * ρ) hn
  generalize 2 ^ 32 * ρ / n = y at hy
  generalize 2 ^ 32 * ρ % n = ε at hy hymod
  have hdiv : (2 ^ 64 - n * j) / n = 2 ^ 32 * q + y - j := by
    have htotal : (2 : Nat) ^ 64 = n * (2 ^ 32 * q + y) + ε := by
      calc (2 : Nat) ^ 64 = 2 ^ 32 * (n * q + ρ) := by rw [hq]; norm_num
        _ = n * (2 ^ 32 * q) + 2 ^ 32 * ρ := by ring
        _ = n * (2 ^ 32 * q) + (n * y + ε) := by rw [hy]
        _ = n * (2 ^ 32 * q + y) + ε := by ring
    have hsub : 2 ^ 64 - n * j = ε + n * (2 ^ 32 * q + y - j) := by
      rw [Nat.mul_sub]
      have hle : n * j ≤ n * (2 ^ 32 * q + y) := by
        have hnle : n ≤ n * j := Nat.le_mul_of_pos_right n hj
        omega
      omega
    rw [hsub, Nat.add_mul_div_left _ _ hn, Nat.div_eq_of_lt hymod, Nat.zero_add]
  have hj31 : j ≤ 2 ^ 31 := (Nat.le_mul_of_pos_left j hn).trans hnj
  have hqpos : 0 < q := by
    by_contra h0
    obtain rfl : q = 0 := by omega
    have hnle : n ≤ n * j := Nat.le_mul_of_pos_right n hj
    omega
  have hcast : ((2 ^ 32 * q + y - j : Nat) : Int) = ((y : Int) - (j : Int)) + 2 ^ 32 * (q : Int) := by
    have hle : j ≤ 2 ^ 32 * q + y := by omega
    rw [Nat.cast_sub hle]
    push_cast
    ring
  rw [hdiv, hcast, narrow_add_mul]
  rcases Nat.eq_zero_or_pos ρ with rfl | hρ
  · -- the rank count divides `2 ^ 32`, so the low half is `-j`
    left
    have hy0 : y = 0 := by
      have hny : n * y = 0 := by omega
      rcases Nat.mul_eq_zero.mp hny with h | h
      · omega
      · exact h
    subst hy0
    rw [narrow_eq (by omega) (by omega)]
    omega
  · have hlong : 2 ^ 31 ≤ n * (y - j) := by
      rw [Nat.mul_sub]
      rcases Nat.lt_or_ge 1 ρ with h2 | h1
      · have hnle : n ≤ n * j := Nat.le_mul_of_pos_right n hj
        omega
      · obtain rfl : ρ = 1 := by omega
        have hne : n * j ≠ 2 ^ 31 := by
          intro heq
          have hdvd : n ∣ 2 ^ 32 := by
            have hstep : (2 : Nat) ^ 32 = 2 ^ 31 * 2 := by norm_num
            rw [hstep, ← heq]
            exact Dvd.dvd.mul_right (Dvd.intro j rfl) 2
          rw [Nat.mod_eq_zero_of_dvd hdvd] at hrdef
          omega
        have hε : ε ≤ 1 := by
          have hyq : n * q + 1 = n * y + ε := by omega
          by_contra hlt
          have hn2 : 1 < n := by omega
          have hlt' : n * y < n * q := by omega
          have hyq' : y + 1 ≤ q := Nat.lt_of_mul_lt_mul_left hlt'
          have hmul : n * (y + 1) ≤ n * q := Nat.mul_le_mul_left n hyq'
          rw [Nat.mul_add, Nat.mul_one] at hmul
          omega
        omega
    have hyj : j < y := by
      by_contra hle
      rw [Nat.sub_eq_zero_of_le (by omega), Nat.mul_zero] at hlong
      omega
    have hy32 : y < 2 ^ 32 := by
      by_contra hge
      have hmul : n * 2 ^ 32 ≤ n * y := Nat.mul_le_mul_left n (by omega)
      have hρn : 2 ^ 32 * ρ < 2 ^ 32 * n := Nat.mul_lt_mul_of_pos_left hrho (by norm_num)
      omega
    have hpart : w / n < y - j := by
      rw [Nat.div_lt_iff_lt_mul hn, Nat.mul_comm]
      omega
    rcases Nat.lt_or_ge (y - j) (2 ^ 31) with hsmall | hbig
    · right
      rw [narrow_eq (by omega) (by omega)]
      omega
    · left
      rw [narrow_high (by omega) (by omega)]
      omega

theorem sizeT_neg {e : Nat} (he : 0 < e) (he64 : e ≤ 2 ^ 64) :
    sizeT (-(e : Int)) = 2 ^ 64 - e := by
  rw [sizeT]
  omega

theorem shape_deepCopyVectorPart {dst whole t : AsTensor} {d s n : Nat}
    (h : deepCopyVectorPart dst d whole s n = .ok t) : t.shape = dst.shape := by
  simp only [deepCopyVectorPart] at h
  split at h
  case isTrue => cases h
  case isFalse =>
      split at h
      case isTrue => cases h
      case isFalse =>
          split at h
          case isTrue => cases h
          case isFalse =>
              obtain ⟨data, -, h⟩ := bind_eq_ok h
              obtain rfl := Except.ok.inj h
              rfl

theorem map_eq_ok {α β : Type} {x : Except Fault α} {f : α → β} {b : β}
    (h : x.map f = .ok b) : ∃ a, x = .ok a ∧ f a = b := by
  cases x with
  | error e => cases h
  | ok a => exact ⟨a, rfl, Except.ok.inj h⟩

section Groups

variable {n : Nat} {whole : AsTensor}

/-- The width a rank would copy of a negative group. -/
theorem group_part {e : Nat} (hn : 0 < n) (hn31 : n < 2 ^ 31) (he : 0 < e)
    (he31 : e ≤ 2 ^ 31) :
    2 ^ 32 ≤ (2 ^ 64 - e) / n ∧ (2 ^ 64 - e) / n < 2 ^ 64 := by
  constructor
  · rw [Nat.le_div_iff_mul_le hn]
    calc 2 ^ 32 * n ≤ 2 ^ 32 * 2 ^ 31 := Nat.mul_le_mul_left _ hn31.le
      _ ≤ 2 ^ 64 - e := by omega
  · exact lt_of_le_of_lt (Nat.div_le_self _ _) (by omega)

theorem copyGroup2D_negative {h H w a e : Nat} {dst : AsTensor} {t : AsTensor × Int}
    (hshape : whole.shape = [(H : Int), (w : Int)]) (hw : w < 2 ^ 31)
    (hdata : whole.data.length < 2 ^ 63) (hh : 0 < h) (hsize : 0 < sizeofType whole.dtype)
    (hn : 0 < n) (hn31 : n < 2 ^ 31) (ha : a < 2 ^ 31) (he : 0 < e) (he31 : e ≤ 2 ^ 31) :
    VSplitGroupList.copyGroup2D ⟨0, n⟩ whole h (dst, (a : Int)) (-(e : Int)) ≠ .ok t := by
  intro hok
  obtain ⟨hx, hx64⟩ := group_part hn hn31 he he31
  simp only [VSplitGroupList.copyGroup2D] at hok
  rw [sizeT_neg he (by omega)] at hok
  obtain ⟨out, hcopy, -⟩ := bind_eq_ok hok
  have hzero : sizeT (((2 ^ 64 - e) / n : Nat) * ((0 : Nat) : Int)) = 0 := by
    rw [Nat.cast_zero, mul_zero]
    rfl
  rw [hzero, sizeT_natCast (by omega), Nat.cast_zero, add_zero, sizeT_natCast (by omega)] at hcopy
  exact wide_matrix hshape hw ha hx hx64 hdata hh hsize hcopy

theorem copyGroup1D_negative {w a e : Nat} {dst : AsTensor} {t : AsTensor × Int}
    (hshape : whole.shape = [(w : Int)]) (hdst : dst.shape = [((w / n : Nat) : Int)])
    (hw : w < 2 ^ 31) (hdata : whole.data.length < 2 ^ 63) (hsize : 0 < sizeofType whole.dtype)
    (hn : 0 < n) (ha : a < 2 ^ 31) (he : 0 < e) (he31 : e ≤ 2 ^ 31) (hdvd : n ∣ e) :
    VSplitGroupList.copyGroup1D ⟨0, n⟩ whole (dst, (a : Int)) (-(e : Int)) ≠ .ok t := by
  intro hok
  obtain ⟨j, rfl⟩ := hdvd
  have hj : 0 < j := Nat.pos_of_mul_pos_left he
  simp only [VSplitGroupList.copyGroup1D] at hok
  rw [sizeT_neg he (by omega)] at hok
  obtain ⟨out, hcopy, -⟩ := bind_eq_ok hok
  have hzero : sizeT (((2 ^ 64 - n * j) / n : Nat) * ((0 : Nat) : Int)) = 0 := by
    rw [Nat.cast_zero, mul_zero]
    rfl
  have hrange : -2 ^ 31 ≤ narrow (((2 ^ 64 - n * j) / n : Nat) : Int) ∧
      narrow (((2 ^ 64 - n * j) / n : Nat) : Int) < 2 ^ 31 := by
    rw [narrow, Int.bmod_def]
    omega
  rw [hzero, Nat.cast_zero, add_zero, sizeT_natCast (by omega : a < 2 ^ 64),
    sizeT_quot (by omega)] at hcopy
  have hgroup := narrow_group hn hj he31 hw
  generalize narrow (((2 ^ 64 - n * j) / n : Nat) : Int) = len at hrange hcopy hgroup
  rcases hgroup with hneg | hlong
  · obtain ⟨k, rfl⟩ : ∃ k : Nat, len = -(k : Int) := ⟨(-len).toNat, by omega⟩
    have hx : 2 ^ 32 ≤ 2 ^ 64 - k := by omega
    rw [sizeT_neg (by omega) (by omega)] at hcopy
    exact wide_vector hshape hw ha hx (by omega) hdata hsize hcopy
  · generalize w / n = part at hlong hdst
    obtain ⟨k, rfl⟩ := Int.eq_ofNat_of_zero_le ((Int.natCast_nonneg part).trans hlong.le)
    have ha' : a / n ≤ a := Nat.div_le_self a n
    rw [sizeT_natCast (by omega)] at hcopy
    exact long_vector hdst (by omega) (by omega) (by omega) hcopy

/-- A pass over groups with a negative one does not get through. -/
theorem foldlM_negative {step : AsTensor × Int → Int → Except Fault (AsTensor × Int)}
    {P : AsTensor → Prop} {gs : List Int}
    (hkeep : ∀ dst (a g : Nat) t, P dst → a + g < 2 ^ 31 → step (dst, (a : Int)) (g : Int) = .ok t →
      P t.1 ∧ t.2 = ((a + g : Nat) : Int))
    (hneg : ∀ dst (a e : Nat) t, P dst → a < 2 ^ 31 → 0 < e → -(e : Int) ∈ gs →
      step (dst, (a : Int)) (-(e : Int)) ≠ .ok t)
    {dst : AsTensor} {a : Nat} (hP : P dst) (ha : a < 2 ^ 31) {total : Int}
    (htotal : gs.foldlM (fun total g => cint (total + g)) (a : Int) = .ok total)
    (hex : ∃ g ∈ gs, g < 0) (t : AsTensor × Int) :
    gs.foldlM step (dst, (a : Int)) ≠ .ok t := by
  induction gs generalizing dst a with
  | nil =>
      obtain ⟨g, hg, -⟩ := hex
      cases hg
  | cons g rest ih =>
      intro hok
      rw [List.foldlM_cons] at hok
      obtain ⟨mid, hmid, hrest⟩ := bind_eq_ok hok
      obtain ⟨next, hnext, htotal⟩ := bind_eq_ok htotal
      obtain ⟨rfl, -, hhigh⟩ := cint_eq_ok hnext
      simp only [intMax] at hhigh
      rcases lt_or_ge g 0 with hlt | hge
      · obtain ⟨e, he⟩ := Int.eq_ofNat_of_zero_le (by omega : 0 ≤ -g)
        obtain rfl : g = -(e : Int) := by omega
        exact hneg dst a e mid hP ha (by omega) (List.mem_cons_self ..) hmid
      · obtain ⟨k, rfl⟩ := Int.eq_ofNat_of_zero_le hge
        obtain ⟨hPmid, hsnd⟩ := hkeep dst a k mid hP (by omega) hmid
        obtain ⟨out, b⟩ := mid
        obtain rfl : b = ((a + k : Nat) : Int) := hsnd
        have hrestex : ∃ g ∈ rest, g < 0 := by
          obtain ⟨x, hx, hx0⟩ := hex
          rcases List.mem_cons.mp hx with rfl | hx
          · omega
          · exact ⟨x, hx, hx0⟩
        have hstart : (a : Int) + (k : Int) = ((a + k : Nat) : Int) := (Nat.cast_add a k).symm
        rw [hstart] at htotal
        exact ih (fun dst a e t hP ha he hmem =>
          hneg dst a e t hP ha he (List.mem_cons_of_mem _ hmem)) hPmid (by omega) htotal hrestex
          hrest

end Groups

section Mqa

variable {n : Nat} {copy : AsTensor → Nat → Nat → Nat → Except Fault AsTensor}

/-- A copy of a negative width, from any column. -/
def RejectsNegative (copy : AsTensor → Nat → Nat → Nat → Except Fault AsTensor) : Prop :=
  ∀ dst d s e t, s < 2 ^ 31 → 0 < e → e ≤ 2 ^ 31 → copy dst d s (2 ^ 64 - e) ≠ .ok t

theorem quot_neg_natCast (e m : Nat) : quot (-(e : Int)) (m : Int) = -((e / m : Nat) : Int) := by
  rw [quot, Int.neg_tdiv]
  rfl

theorem copyGroup_divided_negative (hcopy : RejectsNegative copy) {dst : AsTensor} {e : Nat}
    {t : VSplitMQA.Progress} (hn : 0 < n) (he : 0 < e) (he31 : e ≤ 2 ^ 31) (hdvd : n ∣ e) :
    VSplitMQA.copyGroup ⟨0, n⟩ copy ⟨dst, 0, 0⟩ (0, -(e : Int)) ≠ .ok t := by
  intro hok
  obtain ⟨k, rfl⟩ := hdvd
  have hk : 0 < k := Nat.pos_of_mul_pos_left he
  have hk31 : k ≤ n * k := Nat.le_mul_of_pos_left k hn
  simp only [VSplitMQA.copyGroup, if_true] at hok
  rw [quot_neg_natCast, Nat.mul_div_cancel_left k hn, sizeT_neg hk (by omega)] at hok
  obtain ⟨out, hout, -⟩ := bind_eq_ok hok
  have hzero : sizeT (0 + ((sizeT (((2 ^ 64 - k : Nat) : Int) * ((0 : Nat) : Int)) : Nat) : Int)) =
      0 := by
    rw [Nat.cast_zero, mul_zero]
    rfl
  rw [hzero] at hout
  exact hcopy _ _ _ _ _ (by norm_num) hk (by omega) hout

theorem copyGroup_shared_negative (hcopy : RejectsNegative copy) {dst : AsTensor} {i a : Nat}
    {b : Int} {e : Nat} {t : VSplitMQA.Progress} (ha : a < 2 ^ 31) (he : 0 < e)
    (he31 : e ≤ 2 ^ 31) :
    VSplitMQA.copyGroup ⟨0, n⟩ copy ⟨dst, (a : Int), b⟩ (i + 1, -(e : Int)) ≠ .ok t := by
  intro hok
  simp only [VSplitMQA.copyGroup, Nat.succ_ne_zero, if_false] at hok
  rw [sizeT_neg he (by omega), sizeT_natCast (by omega : a < 2 ^ 64)] at hok
  obtain ⟨out, hout, -⟩ := bind_eq_ok hok
  exact hcopy _ _ _ _ _ ha he he31 hout

/-- The three steps do not get through with a negative group. -/
theorem foldlM_mqa_negative (hcopy : RejectsNegative copy) {dst : AsTensor} {q k v : Int}
    {w : Nat} (hn : 0 < n) (hw : w < 2 ^ 31) (hrem : rem q n = 0)
    (hints : ∀ g ∈ [q, k, v], intMin ≤ g) (htotal : totalLen [q, k, v] = .ok (w : Int))
    (hex : ∃ g ∈ [q, k, v], g < 0) (t : VSplitMQA.Progress) :
    (VSplitMQA.indexed [q, k, v]).foldlM (VSplitMQA.copyGroup ⟨0, n⟩ copy) ⟨dst, 0, 0⟩ ≠
      .ok t := by
  intro hok
  have hindexed : VSplitMQA.indexed [q, k, v] = [(0, q), (0 + 1, k), (1 + 1, v)] := rfl
  rw [hindexed, List.foldlM_cons] at hok
  obtain ⟨first, hfirst, hok⟩ := bind_eq_ok hok
  rw [List.foldlM_cons] at hok
  obtain ⟨second, hsecond, hok⟩ := bind_eq_ok hok
  rw [List.foldlM_cons] at hok
  obtain ⟨third, hthird, -⟩ := bind_eq_ok hok
  obtain ⟨x, hx, htotal⟩ := bind_eq_ok htotal
  obtain ⟨rfl, -, hxhigh⟩ := cint_eq_ok hx
  obtain ⟨y, hy, htotal⟩ := bind_eq_ok htotal
  obtain ⟨rfl, -, hyhigh⟩ := cint_eq_ok hy
  simp only [intMin, intMax] at hints hxhigh hyhigh
  have hqmin := hints q (by simp)
  have hkmin := hints k (by simp)
  have hvmin := hints v (by simp)
  rcases lt_or_ge q 0 with hq | hq
  · obtain ⟨e, rfl⟩ : ∃ e : Nat, q = -(e : Int) := ⟨(-q).toNat, by omega⟩
    have hdvd : n ∣ e := by
      have hdvd := Int.dvd_of_tmod_eq_zero hrem
      exact Int.natCast_dvd_natCast.mp ((Int.dvd_neg).mp hdvd)
    exact copyGroup_divided_negative hcopy hn (by omega) (by omega) hdvd hfirst
  · obtain ⟨a, rfl⟩ := Int.eq_ofNat_of_zero_le hq
    rw [copyGroup_divided hn (by omega)] at hfirst
    obtain ⟨dst₁, -, rfl⟩ := map_eq_ok hfirst
    rcases lt_or_ge k 0 with hk | hk
    · obtain ⟨e, rfl⟩ : ∃ e : Nat, k = -(e : Int) := ⟨(-k).toNat, by omega⟩
      exact copyGroup_shared_negative hcopy (by omega) (by omega) (by omega) hsecond
    · obtain ⟨b, rfl⟩ := Int.eq_ofNat_of_zero_le hk
      have ha := Nat.div_le_self a n
      generalize a / n = part at ha hsecond
      rw [copyGroup_shared (by omega) (by omega)] at hsecond
      obtain ⟨dst₂, -, rfl⟩ := map_eq_ok hsecond
      have hv : v < 0 := by
        obtain ⟨g, hg, hneg⟩ := hex
        simp only [List.mem_cons, List.not_mem_nil, or_false] at hg
        rcases hg with rfl | rfl | rfl <;> omega
      obtain ⟨e, rfl⟩ : ∃ e : Nat, v = -(e : Int) := ⟨(-v).toNat, by omega⟩
      exact copyGroup_shared_negative hcopy (by omega) (by omega) (by omega) hthird

end Mqa

section Claim

variable {ranks : Nat} {info : TensorInfo} {p : Plane} {whole : AsTensor}

/-- The header as the parser leaves it: every dimension and every group is an
`int`, and the tensor fits in memory. -/
structure WellTyped (info : TensorInfo) (p : Plane) : Prop where
  shape : info.shape = p.shape
  sized : p.Sized (sizeofType info.dtype)
  groups : ∀ g ∈ info.groupList, intMin ≤ g ∧ g ≤ intMax

/-- The tensor has bytes to copy in every column. -/
structure Nonempty (info : TensorInfo) (p : Plane) : Prop where
  height : 0 < p.height
  size : 0 < sizeofType info.dtype

theorem groupVSplit_negative (ht : WellTyped info p) (hwhole : IsWhole info p whole)
    (hne : Nonempty info p) (hn : 0 < ranks) (hn31 : ranks < 2 ^ 31)
    (hacc : VSplitGroupList.isSplittable ⟨0, ranks⟩ info = .ok true)
    (hex : ∃ g ∈ info.groupList, g < 0) (garbage : Nat → UInt8) (out : AsTensor) :
    VSplitGroupList.copyWeight ⟨0, ranks⟩ info
      (AsTensor.allocate (p.shapeOf (p.width / ranks)) info.dtype garbage) whole ≠ .ok out := by
  obtain ⟨hs, ⟨hh, hw, hb⟩, hints⟩ := ht
  obtain ⟨hshape, hdtype, hdata⟩ := hwhole
  obtain ⟨hheight, hsize⟩ := hne
  obtain ⟨hrem, total, htotal, -⟩ := accepted_groupVSplit hs hacc
  rw [← hdtype] at hsize
  have hdata63 : whole.data.length < 2 ^ 63 := by omega
  intro hok
  cases p with
  | matrix h w =>
      simp only [Plane.height] at hh
      simp only [VSplitGroupList.copyWeight, hs, Plane.shape, Plane.length_shapeOf_matrix] at hok
      rw [dim_first_matrix hs, narrow_natCast hh, sizeT_natCast (lt_trans hh (by norm_num))] at hok
      obtain ⟨t, hfold, -⟩ := bind_eq_ok hok
      refine foldlM_negative (P := fun _ => True) ?_ ?_ trivial (by norm_num) htotal hex t hfold
      · intro dst a g t _ hsum hstep
        rw [copyGroup2D_natCast hn hsum] at hstep
        obtain ⟨d, -, rfl⟩ := map_eq_ok hstep
        exact ⟨trivial, rfl⟩
      · intro dst a e t _ ha he hmem
        have hlow := (hints _ hmem).1
        simp only [intMin] at hlow
        exact copyGroup2D_negative hshape hw hdata63 hheight hsize hn hn31 ha he (by omega)
  | vector w =>
      simp only [VSplitGroupList.copyWeight, hs, Plane.shape, Plane.length_shapeOf_vector] at hok
      obtain ⟨t, hfold, -⟩ := bind_eq_ok hok
      refine foldlM_negative (P := fun dst => dst.shape = [((w / ranks : Nat) : Int)]) ?_ ?_ rfl
        (by norm_num) htotal hex t hfold
      · intro dst a g t hP hsum hstep
        rw [copyGroup1D_natCast hn hsum] at hstep
        obtain ⟨d, hd, rfl⟩ := map_eq_ok hstep
        exact ⟨(shape_deepCopyVectorPart hd).trans hP, rfl⟩
      · intro dst a e t hP ha he hmem
        have hlow := (hints _ hmem).1
        simp only [intMin] at hlow
        have hdvd : ranks ∣ e := by
          have hdvd := Int.dvd_of_tmod_eq_zero (hrem _ hmem)
          exact Int.natCast_dvd_natCast.mp ((Int.dvd_neg).mp hdvd)
        exact copyGroup1D_negative hshape hP hw hdata63 hsize hn ha he (by omega) hdvd

theorem mqaVSplit_negative (ht : WellTyped info p) (hwhole : IsWhole info p whole)
    (hne : Nonempty info p) (hn : 0 < ranks)
    (hacc : VSplitMQA.isSplittable ⟨0, ranks⟩ info = .ok true)
    (hex : ∃ g ∈ info.groupList, g < 0) (dst out : AsTensor) :
    VSplitMQA.copyWeight ⟨0, ranks⟩ info dst whole ≠ .ok out := by
  obtain ⟨hs, ⟨hh, hw, hb⟩, hints⟩ := ht
  obtain ⟨hshape, hdtype, hdata⟩ := hwhole
  obtain ⟨hheight, hsize⟩ := hne
  obtain ⟨q, k, v, hgs, hrem, htotal⟩ := accepted_mqaVSplit hs hacc
  rw [← hdtype] at hsize
  rw [hgs] at hints hex
  have hdata63 : whole.data.length < 2 ^ 63 := by omega
  intro hok
  cases p with
  | matrix h w =>
      simp only [Plane.height] at hh
      simp only [VSplitMQA.copyWeight, hs, Plane.shape, Plane.length_shapeOf_matrix] at hok
      rw [dim_first_matrix hs, narrow_natCast hh, sizeT_natCast (lt_trans hh (by norm_num)),
        hgs] at hok
      obtain ⟨t, hfold, -⟩ := bind_eq_ok hok
      refine foldlM_mqa_negative ?_ hn hw hrem (fun g hg => (hints g hg).1) htotal hex t hfold
      intro dst d s e t hs' he he31
      have hx : 2 ^ 32 ≤ 2 ^ 64 - e := by omega
      exact wide_matrix hshape hw hs' hx (by omega) hdata63 hheight hsize
  | vector w =>
      simp only [VSplitMQA.copyWeight, hs, Plane.shape, Plane.length_shapeOf_vector] at hok
      rw [hgs] at hok
      obtain ⟨t, hfold, -⟩ := bind_eq_ok hok
      refine foldlM_mqa_negative ?_ hn hw hrem (fun g hg => (hints g hg).1) htotal hex t hfold
      intro dst d s e t hs' he he31
      have hx : 2 ^ 32 ≤ 2 ^ 64 - e := by omega
      have hlen : sizeT (narrow ((2 ^ 64 - e : Nat) : Int)) = 2 ^ 64 - e := by
        have hcast : ((2 ^ 64 - e : Nat) : Int) = -(e : Int) + 2 ^ 32 * 2 ^ 32 := by
          rw [Nat.cast_sub (by omega)]
          push_cast
          ring
        rw [hcast, narrow_add_mul, narrow_eq (by omega) (by omega), sizeT_neg he (by omega)]
      simp only [hlen]
      exact wide_vector hshape hw hs' hx (by omega) hdata63 hsize

/-- A part that was filled has no group of negative width. -/
theorem properGroups_of_shard {place : Placement} {mode : SplitMode} {splitter : WeightSplitter}
    (hget : getSplitterByMode place mode = .ok splitter) (hn : 0 < ranks)
    (hn31 : ranks < 2 ^ 31) (ht : WellTyped info p) (hwhole : IsWhole info p whole)
    (hne : Nonempty info p) (hacc : splitter.isSplittable ⟨0, ranks⟩ info = .ok true)
    {garbage : Nat → UInt8} {out : AsTensor}
    (hshard : splitter.shard ⟨0, ranks⟩ info whole garbage = .ok out) :
    mode.ProperGroups info := by
  intro hgroup g hg
  by_contra hneg
  have hex : ∃ g ∈ info.groupList, g < 0 := ⟨g, hg, by omega⟩
  rcases hgroup with rfl | rfl
  · obtain rfl := Except.ok.inj hget
    obtain ⟨shape, hsh, hcopy⟩ := bind_eq_ok hshard
    obtain rfl := Except.ok.inj ((setShape_vertical ht.shape _).symm.trans hsh)
    exact groupVSplit_negative ht hwhole hne hn hn31 hacc hex _ _ hcopy
  · obtain rfl := Except.ok.inj hget
    obtain ⟨shape, -, hcopy⟩ := bind_eq_ok hshard
    exact mqaVSplit_negative ht hwhole hne hn hacc hex _ _ hcopy

theorem reassembles_iff {place : Placement} {mode : SplitMode} {splitter : WeightSplitter}
    (hmode : mode.Planar) (hget : getSplitterByMode place mode = .ok splitter) (hn : 0 < ranks)
    (hn31 : ranks < 2 ^ 31) (ht : WellTyped info p) (hwhole : IsWhole info p whole)
    (hne : Nonempty info p) (hacc : splitter.isSplittable ⟨0, ranks⟩ info = .ok true)
    (garbage : Nat → Nat → UInt8) :
    Reassembles mode splitter ranks info p whole garbage ↔ mode.ProperGroups info := by
  constructor
  · rintro ⟨parts, hshard, -⟩
    exact properGroups_of_shard hget hn hn31 ht hwhole hne hacc (hshard 0 hn)
  · exact reassembles_of_properGroups hmode hget hn ht.shape ht.sized hacc hwhole

end Claim

/-- A header as the parser leaves it: the dimensions are the non-negative
`int` of an allocated tensor, the groups are `int`, and the bytes are counted
in an `int64_t`. -/
structure TensorInfo.Typed (info : TensorInfo) : Prop where
  dims : ∀ d ∈ info.shape, 0 ≤ d ∧ d ≤ intMax
  groups : ∀ g ∈ info.groupList, intMin ≤ g ∧ g ≤ intMax
  bytes : count info.shape * sizeofType info.dtype < 2 ^ 63

theorem length_of_accepted {n : Nat} {a b : Except Fault Bool}
    (h : (match n with | 2 => a | 1 => b | _ => .ok false) = .ok true) : n = 2 ∨ n = 1 := by
  split at h
  · exact Or.inl rfl
  · exact Or.inr rfl
  · cases h

theorem planar_length {ranks : Nat} {info : TensorInfo} {place : Placement} {mode : SplitMode}
    {splitter : WeightSplitter} (hmode : mode.Planar)
    (hget : getSplitterByMode place mode = .ok splitter)
    (hacc : splitter.isSplittable ⟨0, ranks⟩ info = .ok true) :
    info.shape.length = 2 ∨ info.shape.length = 1 := by
  cases mode with
  | vSplit =>
      obtain rfl := Except.ok.inj hget
      exact length_of_accepted hacc
  | hSplit =>
      obtain rfl := Except.ok.inj hget
      exact length_of_accepted hacc
  | qkvSplit =>
      obtain rfl := Except.ok.inj hget
      exact length_of_accepted hacc
  | kvSplit =>
      obtain rfl := Except.ok.inj hget
      exact length_of_accepted hacc
  | groupVSplit =>
      obtain rfl := Except.ok.inj hget
      simp only [VSplitGroupList.isSplittable] at hacc
      split at hacc
      · cases hacc
      · obtain ⟨total, -, hacc⟩ := bind_eq_ok hacc
        exact length_of_accepted hacc
  | mqaVSplit =>
      obtain rfl := Except.ok.inj hget
      simp only [VSplitMQA.isSplittable] at hacc
      split at hacc
      · cases hacc
      · split at hacc
        · cases hacc
        · obtain ⟨total, -, hacc⟩ := bind_eq_ok hacc
          exact length_of_accepted hacc
  | noSplit => exact absurd hmode id
  | hSplitQuantize => exact absurd hmode id
  | batchVSplit => exact absurd hmode id
  | batchHSplit => exact absurd hmode id
  | batchKVSplit => exact absurd hmode id

/-- A typed header with one or two dimensions is one of a plane. -/
theorem TensorInfo.Typed.exists_plane {info : TensorInfo} (ht : info.Typed)
    (hlen : info.shape.length = 2 ∨ info.shape.length = 1) : ∃ p, WellTyped info p := by
  obtain ⟨hdims, hgroups, hbytes⟩ := ht
  simp only [intMax] at hdims
  rcases hlen with hlen | hlen
  · obtain ⟨a, b, hs⟩ := List.length_eq_two.mp hlen
    rw [hs] at hdims hbytes
    obtain ⟨ha, ha31⟩ := hdims a (by simp)
    obtain ⟨hb, hb31⟩ := hdims b (by simp)
    obtain ⟨h, rfl⟩ := Int.eq_ofNat_of_zero_le ha
    obtain ⟨w, rfl⟩ := Int.eq_ofNat_of_zero_le hb
    have hcount := (Plane.matrix h w).count_shapeOf w
    rw [Plane.shapeOf] at hcount
    rw [hcount, ← Nat.cast_mul, Nat.mul_assoc] at hbytes
    refine ⟨.matrix h w, hs, ⟨?_, ?_, ?_⟩, hgroups⟩
    · simp only [Plane.height]
      omega
    · simp only [Plane.width]
      omega
    · exact_mod_cast hbytes
  · obtain ⟨a, hs⟩ := List.length_eq_one_iff.mp hlen
    rw [hs] at hdims hbytes
    obtain ⟨ha, ha31⟩ := hdims a (by simp)
    obtain ⟨w, rfl⟩ := Int.eq_ofNat_of_zero_le ha
    have hcount := (Plane.vector w).count_shapeOf w
    rw [Plane.shapeOf] at hcount
    rw [hcount, ← Nat.cast_mul, Nat.mul_assoc] at hbytes
    refine ⟨.vector w, hs, ⟨?_, ?_, ?_⟩, hgroups⟩
    · exact (by norm_num : 1 < 2 ^ 31)
    · simp only [Plane.width]
      omega
    · exact_mod_cast hbytes

/-- The parts of an accepted tensor reassemble exactly when no group has a
negative width. A tensor without a row or an element size copies nothing, so
there only one direction says something. -/
theorem accepted_reassembles_iff {place : Placement} {mode : SplitMode}
    {splitter : WeightSplitter} {ranks : Nat} {info : TensorInfo} (hmode : mode.Planar)
    (hget : getSplitterByMode place mode = .ok splitter) (hn : 0 < ranks)
    (hn31 : ranks < 2 ^ 31) (ht : info.Typed)
    (hacc : splitter.isSplittable ⟨0, ranks⟩ info = .ok true) :
    ∃ p : Plane, info.shape = p.shape ∧
      ∀ whole, IsWhole info p whole → ∀ garbage : Nat → Nat → UInt8,
        (mode.ProperGroups info → Reassembles mode splitter ranks info p whole garbage) ∧
        (Nonempty info p →
          (Reassembles mode splitter ranks info p whole garbage ↔ mode.ProperGroups info)) := by
  obtain ⟨p, hp⟩ := ht.exists_plane (planar_length hmode hget hacc)
  refine ⟨p, hp.shape, fun whole hwhole garbage => ⟨?_, fun hne => ?_⟩⟩
  · exact reassembles_of_properGroups hmode hget hn hp.shape hp.sized hacc hwhole
  · exact reassembles_iff hmode hget hn hn31 hp hwhole hne hacc garbage

/-- A fused weight of one row whose first group has width `-2`. -/
def negativeGroup : TensorInfo :=
  ⟨[1, 2], .int8, .dense, .groupVSplit, 0, [-2, 4]⟩

theorem accepted_reassembles_iff_two_groups :
    ∃ p : Plane, (⟨[3, 4], .float16, .dense, .groupVSplit, 0, [2, 2]⟩ : TensorInfo).shape =
        p.shape ∧
      ∀ whole, IsWhole ⟨[3, 4], .float16, .dense, .groupVSplit, 0, [2, 2]⟩ p whole →
        ∀ garbage : Nat → Nat → UInt8,
        (SplitMode.ProperGroups .groupVSplit ⟨[3, 4], .float16, .dense, .groupVSplit, 0, [2, 2]⟩ →
          Reassembles .groupVSplit
            ⟨VSplitGroupList.isSplittable, VSplitGroupList.setShape, VSplitGroupList.copyWeight⟩
            2 ⟨[3, 4], .float16, .dense, .groupVSplit, 0, [2, 2]⟩ p whole garbage) ∧
        (Nonempty ⟨[3, 4], .float16, .dense, .groupVSplit, 0, [2, 2]⟩ p →
          (Reassembles .groupVSplit
            ⟨VSplitGroupList.isSplittable, VSplitGroupList.setShape, VSplitGroupList.copyWeight⟩
            2 ⟨[3, 4], .float16, .dense, .groupVSplit, 0, [2, 2]⟩ p whole garbage ↔
          SplitMode.ProperGroups .groupVSplit
            ⟨[3, 4], .float16, .dense, .groupVSplit, 0, [2, 2]⟩)) :=
  @accepted_reassembles_iff ⟨.cpu, .cpu⟩ .groupVSplit _ 2 _ trivial rfl (by decide) (by decide)
    ⟨by decide, by decide, by decide⟩ (by decide)

/-- The check accepts the negative group for two ranks, and the copy of the
first rank throws. -/
theorem negativeGroup_not_reassembles :
    VSplitGroupList.isSplittable ⟨0, 2⟩ negativeGroup = .ok true ∧
      VSplitGroupList.isSplittable ⟨1, 2⟩ negativeGroup = .ok true ∧
      ∀ garbage : Nat → Nat → UInt8,
        WeightSplitter.shard
            ⟨VSplitGroupList.isSplittable, VSplitGroupList.setShape, VSplitGroupList.copyWeight⟩
            ⟨0, 2⟩ negativeGroup ⟨[1, 2], .int8, [5, 7]⟩ (garbage 0) = .error .asException ∧
        ¬ Reassembles .groupVSplit
            ⟨VSplitGroupList.isSplittable, VSplitGroupList.setShape, VSplitGroupList.copyWeight⟩
            2 negativeGroup (.matrix 1 2) ⟨[1, 2], .int8, [5, 7]⟩ garbage := by
  refine ⟨by decide, by decide, fun garbage => ?_⟩
  have hthrow : WeightSplitter.shard
      ⟨VSplitGroupList.isSplittable, VSplitGroupList.setShape, VSplitGroupList.copyWeight⟩
      ⟨0, 2⟩ negativeGroup ⟨[1, 2], .int8, [5, 7]⟩ (garbage 0) = .error .asException := rfl
  refine ⟨hthrow, ?_⟩
  rintro ⟨parts, hshard, -⟩
  have hfirst := hshard 0 (by decide)
  rw [hthrow] at hfirst
  cases hfirst

end DashInfer.Weight
