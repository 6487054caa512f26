import Mathlib
import DashInfer.Quant.Fp8

/-!
When a merge of two FP8 linears is exact. The scales of the second part start on
a new row of blocks, its codes on the row after the first part's last: the two
agree where the first part fills its blocks. The number of blocks is compared for
the sum of the rows only, after the two tensors are written.
-/

namespace DashInfer.Quant

open Lib

/-! Names. -/

theorem scaleName_append (stem : Name) :
    scaleName (stem ++ text ".weight") = stem ++ text ".weight_scale_inv" := by
  simp [scaleName]

theorem scaleName_inj {a b : Name} (ha : text ".weight" <:+ a) (hb : text ".weight" <:+ b)
    (h : scaleName a = scaleName b) : a = b := by
  obtain ⟨stem, rfl⟩ := ha
  obtain ⟨stem', rfl⟩ := hb
  rw [scaleName_append, scaleName_append] at h
  rw [List.append_cancel_right h]

theorem scaleName_not_weight (a : Name) : ¬ text ".weight" <:+ scaleName a := by
  rintro ⟨stem, h⟩
  have hlast := congrArg List.getLast? h
  simp [scaleName, text] at hlast

theorem scaleName_ne_self (a : Name) : scaleName a ≠ a := by
  intro h
  have hlen := congrArg List.length h
  simp [scaleName, text] at hlen
  omega

theorem scaleName_ne {a b : Name} (hb : text ".weight" <:+ b) : scaleName a ≠ b := by
  rintro rfl
  exact scaleName_not_weight a hb

/-! Blocks. -/

theorem blocks_eq_zero_iff {n block : Nat} (hb : 0 < block) : blocks n block = 0 ↔ n = 0 := by
  rw [blocks, Nat.div_eq_zero_iff]
  omega

theorem lt_blocks {n block i : Nat} (hb : 0 < block) (hi : i < n) : i / block < blocks n block := by
  rw [blocks, Nat.lt_div_iff_mul_lt hb]
  have := Nat.div_mul_le_self i block
  have := Nat.lt_div_mul_add hb (a := i)
  omega

theorem blocks_add_of_dvd {n block : Nat} (m : Nat) (hb : 0 < block) (h : block ∣ n) :
    blocks (n + m) block = blocks n block + blocks m block := by
  obtain ⟨c, rfl⟩ := h
  have hc : blocks (block * c) block = c := by
    rw [blocks, Nat.add_sub_assoc hb, Nat.mul_add_div hb]
    simp [Nat.div_eq_of_lt (show block - 1 < block by omega)]
  rw [hc, blocks, blocks, Nat.add_sub_assoc hb, Nat.add_assoc, Nat.mul_add_div hb,
    ← Nat.add_sub_assoc hb]

theorem blocks_of_dvd {n block : Nat} (hb : 0 < block) (h : block ∣ n) :
    blocks n block = n / block := by
  obtain ⟨c, rfl⟩ := h
  rw [blocks, Nat.add_sub_assoc hb, Nat.mul_add_div hb, Nat.mul_div_cancel_left c hb]
  simp [Nat.div_eq_of_lt (show block - 1 < block by omega)]

/-- The row after a part that does not fill its blocks lies in the last of them. -/
theorem blocks_of_not_dvd {n block : Nat} (hb : 0 < block) (h : ¬ block ∣ n) :
    blocks n block = n / block + 1 := by
  have hmod : 0 < n % block := Nat.pos_of_ne_zero (fun h0 => h (Nat.dvd_of_mod_eq_zero h0))
  have hlt := Nat.mod_lt n hb
  have hn := Nat.div_add_mod n block
  have hsplit : n + block - 1 = block * (n / block + 1) + (n % block - 1) := by
    rw [Nat.mul_add]
    omega
  rw [blocks, hsplit, Nat.mul_add_div hb]
  simp [Nat.div_eq_of_lt (show n % block - 1 < block by omega)]

/-! A valid linear. -/

/-- What the checks of a linear ask of its two tensors. -/
structure IsLinear (weight scale : Tensor) (blockSize : List Int) (n k : Nat) : Prop where
  weight_dtype : weight.dtype = .float8E4m3
  weight_shape : weight.shape = [n, k]
  scale_dtype : scale.dtype = .float32
  scale_shape : scale.shape = [blocks n (rowBlock blockSize), blocks k (colBlock blockSize)]

theorem validateTensors_eq_ok {weightName : Name} {weight scale : Tensor} {bn bk n k : Nat} :
    validateTensors weightName weight scale bn bk = .ok (n, k) ↔
      weight.dtype = .float8E4m3 ∧ weight.shape = [n, k] ∧ scale.dtype = .float32 ∧
        scale.shape = [blocks n bn, blocks k bk] := by
  unfold validateTensors
  split
  · rename_i n' k' hshape
    constructor
    · intro h
      split at h
      · cases h
      · split at h
        · cases h
        · split at h
          · cases h
          · cases h
            simp_all
    · rintro ⟨hw, hn, hs, hss⟩
      rw [hshape] at hn
      cases hn
      simp [hw, hs, hss]
  · rename_i hshape
    constructor
    · intro h
      cases h
    · rintro ⟨-, hn, -, -⟩
      exact absurd hn (hshape n k)

theorem validateFp8Linear_eq_ok {stateDict : StateDict} {weightName : Name}
    {blockSize : List Int} {n k : Nat} :
    validateFp8Linear stateDict weightName blockSize = .ok (n, k) ↔
      blockSize.length = 2 ∧ 0 < rowBlock blockSize ∧ 0 < colBlock blockSize ∧
        text ".weight" <:+ weightName ∧
        ∃ weight scale, stateDict weightName = some weight ∧
          stateDict (scaleName weightName) = some scale ∧ IsLinear weight scale blockSize n k := by
  unfold validateFp8Linear
  split
  · rename_i blockN blockK
    have hpos : ¬ (blockN ≤ 0 ∨ blockK ≤ 0) ↔
        0 < rowBlock [blockN, blockK] ∧ 0 < colBlock [blockN, blockK] := by
      simp [rowBlock, colBlock]
    constructor
    · intro h
      split at h
      · cases h
      · rename_i hblock
        split at h
        · cases h
        · rename_i hname
          obtain ⟨hr, hc⟩ := hpos.mp hblock
          split at h
          · rename_i weight scale hw hs
            obtain ⟨h1, h2, h3, h4⟩ := validateTensors_eq_ok.mp h
            exact ⟨rfl, hr, hc, not_not.mp hname, weight, scale, hw, hs, h1, h2, h3, h4⟩
          · cases h
    · rintro ⟨-, hr, hc, hname, weight, scale, hw, hs, h1, h2, h3, h4⟩
      rw [if_neg (hpos.mpr ⟨hr, hc⟩), if_neg (not_not.mpr hname), hw, hs]
      exact validateTensors_eq_ok.mpr ⟨h1, h2, h3, h4⟩
  · rename_i hsize
    constructor
    · intro h
      cases h
    · rintro ⟨hlen, -⟩
      obtain ⟨a, b, rfl⟩ := List.length_eq_two.mp hlen
      exact absurd rfl (hsize a b)

theorem validateTensors_like {weightName : Name} {w w' s s' : Tensor} (hw : w.Like w')
    (hs : s.Like s') (bn bk : Nat) :
    validateTensors weightName w s bn bk = validateTensors weightName w' s' bn bk := by
  unfold validateTensors
  rw [hw.1, hw.2, hs.1, hs.2]

/-- The checks read types and shapes only. -/
theorem validateFp8Linear_sameLayout {d d' : StateDict} (h : SameLayout d d')
    (weightName : Name) (blockSize : List Int) :
    validateFp8Linear d' weightName blockSize = validateFp8Linear d weightName blockSize := by
  unfold validateFp8Linear
  split
  · have hw := h weightName
    have hs := h (scaleName weightName)
    generalize d weightName = w, d' weightName = w' at hw
    generalize d (scaleName weightName) = s, d' (scaleName weightName) = s' at hs
    cases hw with
    | none => cases hs <;> rfl
    | some hw =>
        cases hs with
        | none => rfl
        | some hs => simp only [validateTensors_like hw hs]
  · rfl

/-! The steps of a merge. -/

/-- A stack of two tensors. -/
def stacked (id : Nat) (a b : Tensor) (n m k : Nat) : Tensor where
  id := id
  dtype := if a.dtype = b.dtype then a.dtype else .other
  shape := [n + m, k]
  entry i j := if i < n then a.entry i j else b.entry (i - n) j

theorem cat_eq {id n m k : Nat} {a b : Tensor} (ha : a.shape = [n, k]) (hb : b.shape = [m, k]) :
    cat id a b = .ok (stacked id a b n m k) := by
  simp [cat, ha, hb, stacked]

theorem setCat_eq {id n m k : Nat} {a b : Tensor} {name first second : Name} {d : StateDict}
    (hfirst : d first = some a) (hsecond : d second = some b) (ha : a.shape = [n, k])
    (hb : b.shape = [m, k]) :
    setCat id name first second d = (Function.update d name (some (stacked id a b n m k)), .ok ()) := by
  simp [setCat, hfirst, hsecond, cat_eq ha hb]

/-- What a linear is merged from. -/
structure Parts (d : StateDict) (first second : Name) (blockSize : List Int) (n m k : Nat)
    (a b sa sb : Tensor) : Prop where
  first_weight : d first = some a
  first_scale : d (scaleName first) = some sa
  second_weight : d second = some b
  second_scale : d (scaleName second) = some sb
  first_linear : IsLinear a sa blockSize n k
  second_linear : IsLinear b sb blockSize m k
  first_name : text ".weight" <:+ first
  second_name : text ".weight" <:+ second
  row_pos : 0 < rowBlock blockSize
  col_pos : 0 < colBlock blockSize
  two : blockSize.length = 2

theorem parts_of_valid {d : StateDict} {first second : Name} {blockSize : List Int}
    {n m k : Nat} (hf : validateFp8Linear d first blockSize = .ok (n, k))
    (hs : validateFp8Linear d second blockSize = .ok (m, k)) :
    ∃ a b sa sb, Parts d first second blockSize n m k a b sa sb := by
  obtain ⟨h2, hr, hc, hfn, a, sa, ha, hsa, hla⟩ := validateFp8Linear_eq_ok.mp hf
  obtain ⟨-, -, -, hsn, b, sb, hb, hsb, hlb⟩ := validateFp8Linear_eq_ok.mp hs
  exact ⟨a, b, sa, sb, ha, hsa, hb, hsb, hla, hlb, hfn, hsn, hr, hc, h2⟩

/-- The tensors a merge under a weight's name writes. -/
def written (d : StateDict) (fresh : Nat) (merged : Name) (blockSize : List Int) (n m k : Nat)
    (a b sa sb : Tensor) : StateDict :=
  Function.update (Function.update d merged (some (stacked fresh a b n m k)))
    (scaleName merged) (some (stacked (fresh + 1) sa sb (blocks n (rowBlock blockSize))
      (blocks m (rowBlock blockSize)) (blocks k (colBlock blockSize))))

/-- Parts that pass their checks are written, whatever is found of the result. -/
theorem mergeFp8Linears_of_parts {d : StateDict} {first second merged : Name}
    {blockSize : List Int} {n m k : Nat} {a b sa sb : Tensor} (fresh : Nat)
    (hp : Parts d first second blockSize n m k a b sa sb)
    (hf : validateFp8Linear d first blockSize = .ok (n, k))
    (hs : validateFp8Linear d second blockSize = .ok (m, k)) (hm : text ".weight" <:+ merged) :
    mergeFp8Linears d fresh first second merged blockSize =
      (written d fresh merged blockSize n m k a b sa sb,
        validateFp8Linear (written d fresh merged blockSize n m k a b sa sb) merged blockSize) := by
  have h1 := scaleName_ne (a := first) hm
  have h2 := scaleName_ne (a := second) hm
  simp only [mergeFp8Linears, hf, hs, ne_eq, not_true_eq_false, if_false,
    setCat_eq hp.first_weight hp.second_weight hp.first_linear.weight_shape
      hp.second_linear.weight_shape]
  rw [setCat_eq ((Function.update_of_ne h1 _ _).trans hp.first_scale)
    ((Function.update_of_ne h2 _ _).trans hp.second_scale) hp.first_linear.scale_shape
    hp.second_linear.scale_shape]
  rfl

section

variable {d : StateDict} {merged : Name} {blockSize : List Int} {n m k : Nat}
  {a b sa sb : Tensor} (fresh : Nat)

theorem written_weight :
    written d fresh merged blockSize n m k a b sa sb merged = some (stacked fresh a b n m k) := by
  simp [written, (scaleName_ne_self merged).symm]

theorem written_scale :
    written d fresh merged blockSize n m k a b sa sb (scaleName merged) =
      some (stacked (fresh + 1) sa sb (blocks n (rowBlock blockSize))
        (blocks m (rowBlock blockSize)) (blocks k (colBlock blockSize))) := by
  simp [written]

/-- The result passes where its blocks are as many as those of the parts. -/
theorem written_valid_iff {first second : Name}
    (hp : Parts d first second blockSize n m k a b sa sb) (hm : text ".weight" <:+ merged) :
    (∃ shape, validateFp8Linear (written d fresh merged blockSize n m k a b sa sb) merged blockSize =
      .ok shape) ↔
      blocks n (rowBlock blockSize) + blocks m (rowBlock blockSize) =
        blocks (n + m) (rowBlock blockSize) := by
  constructor
  · rintro ⟨⟨n', k'⟩, h⟩
    obtain ⟨-, -, -, -, w, s, hw, hs, hl⟩ := validateFp8Linear_eq_ok.mp h
    rw [written_weight] at hw
    rw [written_scale] at hs
    cases hw
    cases hs
    have hshape := hl.weight_shape
    have hscale := hl.scale_shape
    simp only [stacked, List.cons.injEq, and_true] at hshape hscale
    rw [hscale.1, ← hshape.1]
  · intro h
    refine ⟨(n + m, k), validateFp8Linear_eq_ok.mpr ⟨hp.two, hp.row_pos, hp.col_pos, hm, _, _,
      written_weight fresh, written_scale fresh, ?_, rfl, ?_, ?_⟩⟩
    · simp [stacked, hp.first_linear.weight_dtype, hp.second_linear.weight_dtype]
    · simp [stacked, hp.first_linear.scale_dtype, hp.second_linear.scale_dtype]
    · simp [stacked, h]

/-- The value of a merged linear at a position. -/
theorem dequantized_written (i j : Nat) :
    dequantized (written d fresh merged blockSize n m k a b sa sb) merged blockSize i j =
      some ((if i < n then a.entry i j else b.entry (i - n) j) *
        if i / rowBlock blockSize < blocks n (rowBlock blockSize) then
          sa.entry (i / rowBlock blockSize) (j / colBlock blockSize)
        else sb.entry (i / rowBlock blockSize - blocks n (rowBlock blockSize))
          (j / colBlock blockSize)) := by
  simp [dequantized, written_weight, written_scale, stacked]

end

/-! Errors. -/

theorem setCat_fst_of_ne {id : Nat} {name first second other : Name} (d : StateDict)
    (h : other ≠ name) : (setCat id name first second d).1 other = d other := by
  unfold setCat
  split
  · split
    · simp [h]
    · rfl
  · rfl

/-- After the checks of the parts the merged weight is a new object, whether or
not the merge then raises. -/
theorem mergeFp8Linears_merged {d : StateDict} {first second : Name}
    {blockSize : List Int} {n m k : Nat} {a b sa sb : Tensor} (fresh : Nat) (merged : Name)
    (hp : Parts d first second blockSize n m k a b sa sb)
    (hf : validateFp8Linear d first blockSize = .ok (n, k))
    (hs : validateFp8Linear d second blockSize = .ok (m, k)) :
    (mergeFp8Linears d fresh first second merged blockSize).1 merged =
      some (stacked fresh a b n m k) := by
  have hkept := @setCat_fst_of_ne (fresh + 1) (scaleName merged) (scaleName first)
    (scaleName second) merged
    (Function.update d merged (some (stacked fresh a b n m k))) (scaleName_ne_self merged).symm
  rw [Function.update_self] at hkept
  simp only [mergeFp8Linears, hf, hs, ne_eq, not_true_eq_false, if_false,
    setCat_eq hp.first_weight hp.second_weight hp.first_linear.weight_shape
      hp.second_linear.weight_shape]
  split
  · rename_i hc
    rwa [hc] at hkept
  · rename_i hc
    rwa [hc] at hkept

/-- A merge that returns has checked its parts and a weight of the merged name. -/
theorem mergeFp8Linears_ok {d : StateDict} {fresh : Nat} {first second merged : Name}
    {blockSize : List Int} {shape : Nat × Nat}
    (h : (mergeFp8Linears d fresh first second merged blockSize).2 = .ok shape) :
    text ".weight" <:+ merged := by
  unfold mergeFp8Linears at h
  split at h
  · cases h
  · split at h
    · cases h
    · split at h
      · cases h
      · split at h
        · cases h
        · split at h
          · cases h
          · obtain ⟨-, -, -, hname, -⟩ := validateFp8Linear_eq_ok.mp
              (show _ = Except.ok (shape.1, shape.2) from h)
            exact hname

/-- Parts that do not pass, or differ in their columns, are refused before a
write. -/
theorem mergeFp8Linears_refused_or_valid (d : StateDict) (fresh : Nat)
    (first second merged : Name) (blockSize : List Int) :
    (∃ e, mergeFp8Linears d fresh first second merged blockSize = (d, .error e)) ∨
      ∃ n m k, validateFp8Linear d first blockSize = .ok (n, k) ∧
        validateFp8Linear d second blockSize = .ok (m, k) := by
  rcases hf : validateFp8Linear d first blockSize with e | ⟨n, k⟩
  · exact .inl ⟨e, by simp only [mergeFp8Linears, hf]⟩
  · rcases hs : validateFp8Linear d second blockSize with e | ⟨m, k'⟩
    · exact .inl ⟨e, by simp only [mergeFp8Linears, hf, hs]⟩
    · by_cases hk : k = k'
      · subst hk
        exact .inr ⟨n, m, k, rfl, rfl⟩
      · exact .inl ⟨.differentK, by simp only [mergeFp8Linears, hf, hs, ne_eq, hk,
          not_false_eq_true, if_true]⟩

theorem mergeFp8Linears_raises_changed {d : StateDict} {fresh : Nat}
    {first second : Name} {blockSize : List Int} {n m k : Nat} (merged : Name)
    (hold : Older fresh d) (hf : validateFp8Linear d first blockSize = .ok (n, k))
    (hs : validateFp8Linear d second blockSize = .ok (m, k)) :
    (mergeFp8Linears d fresh first second merged blockSize).1 ≠ d := by
  obtain ⟨a, b, sa, sb, hp⟩ := parts_of_valid hf hs
  intro heq
  have hmerged := mergeFp8Linears_merged fresh merged hp hf hs
  rw [heq] at hmerged
  exact Nat.lt_irrefl fresh (hold _ _ hmerged)

/-! Exact merges. -/

/-- The rows of the second part start on a block of their own, or nothing tells
the blocks apart and their number is right. -/
def Stacks (block n m k : Nat) (same : Prop) : Prop :=
  block ∣ n ∨ m = 0 ∨
    (k = 0 ∨ same ∧ n ≤ block) ∧ blocks n block + blocks m block = blocks (n + m) block

/-- Parts that pass their checks go to a weight's name and can be stacked. -/
def Mergeable (d : StateDict) (first second merged : Name) (blockSize : List Int) : Prop :=
  ∀ n m k, validateFp8Linear d first blockSize = .ok (n, k) →
    validateFp8Linear d second blockSize = .ok (m, k) →
    text ".weight" <:+ merged ∧ Stacks (rowBlock blockSize) n m k (first = second)

theorem Stacks.blocks_add {block n m k : Nat} {same : Prop} (hb : 0 < block)
    (h : Stacks block n m k same) :
    blocks n block + blocks m block = blocks (n + m) block := by
  rcases h with h | rfl | ⟨-, h⟩
  · exact (blocks_add_of_dvd m hb h).symm
  · rw [(blocks_eq_zero_iff hb).mpr rfl]
    rfl
  · exact h

/-- The value a row of the second part is merged to. -/
theorem stacked_row {d : StateDict} {first second : Name} {blockSize : List Int}
    {n m k : Nat} {a b sa sb : Tensor} (hp : Parts d first second blockSize n m k a b sa sb)
    (hst : Stacks (rowBlock blockSize) n m k (first = second)) {i j : Nat} (hi : i < m)
    (hj : j < k) (c : Nat) :
    (if (n + i) / rowBlock blockSize < blocks n (rowBlock blockSize) then
        sa.entry ((n + i) / rowBlock blockSize) c
      else sb.entry ((n + i) / rowBlock blockSize - blocks n (rowBlock blockSize)) c) =
      sb.entry (i / rowBlock blockSize) c := by
  have hb := hp.row_pos
  generalize rowBlock blockSize = block at hst hb ⊢
  rcases hst with h | rfl | ⟨rfl | ⟨rfl, hle⟩, -⟩
  · rw [blocks_of_dvd hb h, Nat.add_div_of_dvd_right h]
    simp
  · exact absurd hi (Nat.not_lt_zero i)
  · exact absurd hj (Nat.not_lt_zero j)
  · obtain rfl : sa = sb := Option.some.inj (hp.first_scale.symm.trans hp.second_scale)
    obtain rfl : a = b := Option.some.inj (hp.first_weight.symm.trans hp.second_weight)
    have hnm : n = m := by
      have := hp.first_linear.weight_shape.symm.trans hp.second_linear.weight_shape
      simp_all
    subst hnm
    -- one block holds the rows of a part, so both branches read its row
    have hone : blocks n block = 1 := by
      rw [blocks, Nat.div_eq_iff hb]
      omega
    have hhigh : (n + i) / block < 2 := by
      rw [Nat.div_lt_iff_lt_mul hb]
      omega
    rw [hone, Nat.div_eq_of_lt (show i < block by omega)]
    split
    · rename_i h
      rw [Nat.lt_one_iff.mp h]
    · rw [Nat.sub_eq_zero_of_le (Nat.le_of_lt_succ hhigh)]

/-- Stacked parts keep their values, and the result is accepted. -/
theorem mergesExactly_of_stacks {d : StateDict} {first second merged : Name}
    {blockSize : List Int} {n m k : Nat} (fresh : Nat)
    (hf : validateFp8Linear d first blockSize = .ok (n, k))
    (hs : validateFp8Linear d second blockSize = .ok (m, k)) (hm : text ".weight" <:+ merged)
    (hst : Stacks (rowBlock blockSize) n m k (first = second)) :
    MergesExactly d first second merged blockSize
      (mergeFp8Linears d fresh first second merged blockSize) := by
  obtain ⟨a, b, sa, sb, hp⟩ := parts_of_valid hf hs
  rw [mergeFp8Linears_of_parts fresh hp hf hs hm]
  constructor
  · intro shape a' n' k' _ ha' hshape i hi j _
    obtain rfl : a = a' := Option.some.inj (hp.first_weight.symm.trans ha')
    have hn : n = n' := by
      have := hp.first_linear.weight_shape.symm.trans hshape
      simp_all
    subst hn
    rw [dequantized_written, if_pos hi, if_pos (lt_blocks hp.row_pos hi)]
    simp [dequantized, hp.first_weight, hp.first_scale]
  · intro shape a' b' n' m' k' k'' _ ha' hb' hna hnb i hi j hj
    obtain rfl : a = a' := Option.some.inj (hp.first_weight.symm.trans ha')
    obtain rfl : b = b' := Option.some.inj (hp.second_weight.symm.trans hb')
    have hn := hp.first_linear.weight_shape.symm.trans hna
    have hk := hp.second_linear.weight_shape.symm.trans hnb
    simp only [List.cons.injEq, and_true] at hn hk
    obtain ⟨rfl, -⟩ := hn
    obtain ⟨rfl, rfl⟩ := hk
    rw [dequantized_written, stacked_row hp hst hi hj]
    simp [dequantized, hp.second_weight, hp.second_scale]
  · intro e he
    obtain ⟨shape, hok⟩ := (written_valid_iff fresh hp hm).mpr (hst.blocks_add hp.row_pos)
    rw [hok] at he
    cases he

/-! Contents that tell the blocks apart. -/

/-- The codes are one, the scales of the first part one and two, those of the
second four. -/
def telling (first second : Name) (d : StateDict) : StateDict := fun name =>
  (d name).map fun t => { t with
    entry := fun i _ =>
      if name = scaleName first then if i = 0 then 1 else 2
      else if name = scaleName second then 4 else 1 }

theorem telling_sameLayout (first second : Name) (d : StateDict) :
    SameLayout d (telling first second d) := by
  intro name
  unfold telling
  cases d name with
  | none => exact .none
  | some t => exact .some ⟨rfl, rfl⟩

theorem telling_older {first second : Name} {d : StateDict} {fresh : Nat}
    (h : Older fresh d) : Older fresh (telling first second d) := by
  intro name t ht
  unfold telling at ht
  obtain ⟨t', ht', rfl⟩ := Option.map_eq_some_iff.mp ht
  exact h name t' ht'

theorem sameLayout_refl (d : StateDict) : SameLayout d d := by
  intro name
  cases d name with
  | none => exact .none
  | some t => exact .some ⟨rfl, rfl⟩

theorem telling_entry {first second name : Name} {d : StateDict} {t : Tensor}
    (h : telling first second d name = some t) (i j : Nat) :
    t.entry i j = if name = scaleName first then if i = 0 then 1 else 2
      else if name = scaleName second then 4 else 1 := by
  obtain ⟨t', -, rfl⟩ := Option.map_eq_some_iff.mp h
  rfl

/-- Parts that cannot be stacked are told apart at the first row of the second. -/
theorem stacks_of_telling {d : StateDict} {fresh : Nat} {first second merged : Name}
    {blockSize : List Int} {n m k : Nat}
    (hf : validateFp8Linear d first blockSize = .ok (n, k))
    (hs : validateFp8Linear d second blockSize = .ok (m, k)) (hm : text ".weight" <:+ merged)
    (hblocks : blocks n (rowBlock blockSize) + blocks m (rowBlock blockSize) =
      blocks (n + m) (rowBlock blockSize))
    (h : MergesExactly (telling first second d) first second merged blockSize
      (mergeFp8Linears (telling first second d) fresh first second merged blockSize)) :
    Stacks (rowBlock blockSize) n m k (first = second) := by
  by_contra hst
  simp only [Stacks, not_or, not_and] at hst
  obtain ⟨hdvd, hm0, hrest⟩ := hst
  have hk : k ≠ 0 := fun h0 => hrest (.inl h0) hblocks
  have hsame : first = second → rowBlock blockSize < n := fun heq =>
    Nat.lt_of_not_le fun hle => hrest (.inr ⟨heq, hle⟩) hblocks
  rw [← validateFp8Linear_sameLayout (telling_sameLayout first second d)] at hf hs
  obtain ⟨a, b, sa, sb, hp⟩ := parts_of_valid hf hs
  obtain ⟨shape, hok⟩ := (written_valid_iff fresh hp hm).mpr hblocks
  have hresult := mergeFp8Linears_of_parts fresh hp hf hs hm
  have hrow := h.second_rows shape a b n m k k (by rw [hresult, hok]) hp.first_weight
    hp.second_weight hp.first_linear.weight_shape hp.second_linear.weight_shape
    0 (Nat.pos_of_ne_zero hm0) 0 (Nat.pos_of_ne_zero hk)
  have hlast : n / rowBlock blockSize < blocks n (rowBlock blockSize) := by
    rw [blocks_of_not_dvd hp.row_pos hdvd]
    exact Nat.lt_succ_self _
  rw [hresult, dequantized_written] at hrow
  simp only [dequantized, hp.second_weight, hp.second_scale, Nat.add_zero, lt_irrefl, if_false,
    Nat.sub_self, hlast, if_true, Nat.zero_div, Option.bind_eq_bind, Option.bind_some,
    Option.pure_def, Option.some.injEq, telling_entry hp.first_scale,
    telling_entry hp.second_scale, telling_entry hp.second_weight,
    (scaleName_ne (a := first) hp.second_name).symm,
    (scaleName_ne (a := second) hp.second_name).symm] at hrow
  by_cases heq : first = second
  · -- the last block of the first part is not its first
    have hpos : n / rowBlock blockSize ≠ 0 :=
      Nat.ne_of_gt (Nat.div_pos (hsame heq).le hp.row_pos)
    simp [heq, hpos] at hrow
  · have hne : scaleName second ≠ scaleName first := fun hsc =>
      heq (scaleName_inj hp.second_name hp.first_name hsc).symm
    simp only [hne, if_false, one_mul] at hrow
    split at hrow <;> norm_num at hrow

/-- A merge is exact, and leaves the state dict alone where it raises, for all
contents of its tensors just where parts that pass their checks go to a weight's
name and the second starts on a block of its own. -/
theorem mergeFp8Linears_exact_iff (d : StateDict) (fresh : Nat) (hold : Older fresh d)
    (first second merged : Name) (blockSize : List Int) :
    (∀ d', SameLayout d d' → Older fresh d' →
      MergesExactly d' first second merged blockSize
        (mergeFp8Linears d' fresh first second merged blockSize)) ↔
      Mergeable d first second merged blockSize := by
  constructor
  · intro h n m k hf hs
    have hplain := h d (sameLayout_refl d) hold
    have hchanged := mergeFp8Linears_raises_changed merged hold hf hs
    rcases hres : (mergeFp8Linears d fresh first second merged blockSize).2 with e | shape
    · exact absurd (hplain.raises e hres) hchanged
    · have hm := mergeFp8Linears_ok hres
      obtain ⟨a, b, sa, sb, hp⟩ := parts_of_valid hf hs
      have hvalid := mergeFp8Linears_of_parts fresh hp hf hs hm
      rw [hvalid] at hres
      have hblocks := (written_valid_iff fresh hp hm).mp ⟨shape, hres⟩
      exact ⟨hm, stacks_of_telling hf hs hm hblocks
        (h _ (telling_sameLayout first second d) (telling_older hold))⟩
  · intro h d' hlayout _
    rcases mergeFp8Linears_refused_or_valid d' fresh first second merged blockSize with
      ⟨e, hres⟩ | ⟨n, m, k, hf, hs⟩
    · rw [hres]
      constructor
      · intro shape _ _ _ hok
        cases hok
      · intro shape _ _ _ _ _ _ hok
        cases hok
      · intro e' _
        rfl
    · obtain ⟨hm, hst⟩ := h n m k
        ((validateFp8Linear_sameLayout hlayout first blockSize).symm.trans hf)
        ((validateFp8Linear_sameLayout hlayout second blockSize).symm.trans hs)
      exact mergesExactly_of_stacks fresh hf hs hm hst

/-- Two linears of one column, with codes of one and scales of one and of four. -/
def twoLinears (n m : Nat) : StateDict := fun name =>
  if name = text "a.weight" then some ⟨0, .float8E4m3, [n, 1], fun _ _ => 1⟩
  else if name = text "a.weight_scale_inv" then
    some ⟨1, .float32, [blocks n 128, 1], fun _ _ => 1⟩
  else if name = text "b.weight" then some ⟨2, .float8E4m3, [m, 1], fun _ _ => 1⟩
  else if name = text "b.weight_scale_inv" then
    some ⟨3, .float32, [blocks m 128, 1], fun _ _ => 4⟩
  else none

theorem twoLinears_older (n m : Nat) : Older 4 (twoLinears n m) := by
  intro name t ht
  unfold twoLinears at ht
  split at ht
  · cases ht
    exact Nat.zero_lt_succ 3
  · split at ht
    · cases ht
      exact Nat.one_lt_succ_succ 2
    · split at ht
      · cases ht
        exact Nat.lt_add_of_pos_right (n := 2) (k := 2) Nat.two_pos
      · split at ht
        · cases ht
          exact Nat.lt_succ_self 3
        · cases ht

section

variable (n m : Nat)

theorem twoLinears_first_scale :
    twoLinears n m (scaleName (text "a.weight")) =
      some ⟨1, .float32, [blocks n 128, 1], fun _ _ => 1⟩ := by
  have hname : scaleName (text "a.weight") = text "a.weight_scale_inv" := by decide +kernel
  rw [hname]
  simp [twoLinears, text]

theorem twoLinears_second_weight :
    twoLinears n m (text "b.weight") = some ⟨2, .float8E4m3, [m, 1], fun _ _ => 1⟩ := by
  simp [twoLinears, text]

theorem twoLinears_second_scale :
    twoLinears n m (scaleName (text "b.weight")) =
      some ⟨3, .float32, [blocks m 128, 1], fun _ _ => 4⟩ := by
  have hname : scaleName (text "b.weight") = text "b.weight_scale_inv" := by decide +kernel
  rw [hname]
  simp [twoLinears, text]

theorem twoLinears_first :
    validateFp8Linear (twoLinears n m) (text "a.weight") [128, 128] = .ok (n, 1) :=
  validateFp8Linear_eq_ok.mpr ⟨rfl, by decide, by decide, by decide +kernel, _, _,
    if_pos rfl, twoLinears_first_scale n m, ⟨rfl, rfl, rfl, rfl⟩⟩

theorem twoLinears_second :
    validateFp8Linear (twoLinears n m) (text "b.weight") [128, 128] = .ok (m, 1) :=
  validateFp8Linear_eq_ok.mpr ⟨rfl, by decide, by decide, by decide +kernel, _, _,
    twoLinears_second_weight n m, twoLinears_second_scale n m, ⟨rfl, rfl, rfl, rfl⟩⟩

end

theorem mergeFp8Linears_exact_iff_whole :
    MergesExactly (twoLinears 128 64) (text "a.weight") (text "b.weight") (text "c.weight")
      [128, 128] (mergeFp8Linears (twoLinears 128 64) 4 (text "a.weight") (text "b.weight")
        (text "c.weight") [128, 128]) :=
  (mergeFp8Linears_exact_iff (twoLinears 128 64) 4 (twoLinears_older 128 64) (text "a.weight")
    (text "b.weight") (text "c.weight") [128, 128]).mpr
    (fun n m k hf hs => by
      have hn := hf.symm.trans (twoLinears_first 128 64)
      cases hn
      exact ⟨by decide +kernel, .inl (by decide)⟩)
    (twoLinears 128 64) (sameLayout_refl _) (twoLinears_older 128 64)

/-- Sixty-four rows and a whole block are accepted: the second part's first half is
scaled with the first part's block. -/
theorem half_block_misscaled :
    ¬ MergesExactly (twoLinears 64 128) (text "a.weight") (text "b.weight") (text "c.weight")
      [128, 128] (mergeFp8Linears (twoLinears 64 128) 4 (text "a.weight") (text "b.weight")
        (text "c.weight") [128, 128]) := by
  intro h
  have hf := twoLinears_first 64 128
  have hs := twoLinears_second 64 128
  have hm : text ".weight" <:+ text "c.weight" := by decide +kernel
  obtain ⟨a, b, sa, sb, hp⟩ := parts_of_valid hf hs
  obtain ⟨shape, hok⟩ := (written_valid_iff 4 hp hm).mpr (by decide)
  have hresult := mergeFp8Linears_of_parts 4 hp hf hs hm
  have hrow := h.second_rows shape a b 64 128 1 1 (by rw [hresult, hok]) hp.first_weight
    hp.second_weight hp.first_linear.weight_shape hp.second_linear.weight_shape
    0 (by decide) 0 (by decide)
  have hsa := Option.some.inj (hp.first_scale.symm.trans (twoLinears_first_scale 64 128))
  have hb := Option.some.inj (hp.second_weight.symm.trans (twoLinears_second_weight 64 128))
  rw [hresult, dequantized_written, hsa, hb] at hrow
  simp [dequantized, twoLinears_second_weight, twoLinears_second_scale, rowBlock, blocks] at hrow

end DashInfer.Quant
