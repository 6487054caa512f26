import DashInfer.Lib.BitFields
import Mathlib

/-!
`repack_gptq_to_a16wX`: packed GPTQ weights brought into the layout of the kernels.
The codes are unpacked along the rows and the zeros along the columns; four-bit codes
are packed again, two columns to a byte, eight-bit ones narrowed to `int8`.
-/

namespace DashInfer.Quant

open Lib

/-- A tensor of one type. `entry` is read of a two-dimensional one only. -/
structure Torch (α : Type) where
  shape : List Nat
  entry : Nat → Nat → α

/-- The weight is packed in words, or unpacked already. -/
inductive QWeight
  | int32 (w : Torch (BitVec 32))
  | int8 (w : Torch (BitVec 8))

inductive GptqError
  | assertion
  /-- `not supported quant_bits: {}` -/
  | quantBits (bits : Nat)
  /-- `reshape` cannot find the rows of a tensor without columns -/
  | reshape
deriving DecidableEq, Repr

/-- The integers the codes are unpacked to. -/
def depackWidth (bits : Nat) : Nat := if bits = 8 then 16 else 8

/-- `bitwise_right_shift`, `to(int16 if bits == 8 else int8)` and `bitwise_and`. -/
def depack (bits i : Nat) (word : BitVec 32) : BitVec (depackWidth bits) :=
  (word.sshiftRight (bits * i)).setWidth (depackWidth bits) &&&
    BitVec.ofNat (depackWidth bits) (2 ^ bits - 1)

/-- `depack_gptq_weight` and the `reshape(-1, qdata.shape[-1])` after it. -/
def depackGptqWeight (w : Torch (BitVec 32)) (bits : Nat) :
    Except GptqError (Torch (BitVec (depackWidth bits))) :=
  match w.shape with
  | [rows, cols] =>
      if cols = 0 then .error .reshape
      else .ok {
        shape := [rows * (32 / bits), cols]
        entry := fun k n => depack bits (k % (32 / bits)) (w.entry (k / (32 / bits)) n) }
  | _ => .error .assertion

/-- `depack_gptq_zero`. -/
def depackGptqZero (w : Torch (BitVec 32)) (bits : Nat) :
    Except GptqError (Torch (BitVec (depackWidth bits))) :=
  match w.shape with
  | [groups, cols] =>
      if cols = 0 then .error .reshape
      else .ok {
        shape := [groups, cols * (32 / bits)]
        entry := fun g n => depack bits (n % (32 / bits)) (w.entry g (n / (32 / bits))) + 1 }
  | _ => .error .assertion

/-- The byte of two columns: `(qdata[:, 1::2] << 4) | (qdata[:, 0::2] & 0xf)`. -/
def packU4 (even odd : BitVec 8) : BitVec 8 := odd <<< 4 ||| even &&& BitVec.ofNat 8 (2 ^ 4 - 1)

/-- The four-bit packing with its assertions; `rows` and `cols` are the shape of the
weight before it was unpacked. -/
def packCodes (rows cols : Nat) (qdata : Torch (BitVec 8)) :
    Except GptqError (Torch (BitVec 8)) :=
  match qdata.shape with
  | [n, c] =>
      if ¬ ∀ i < n, ∀ j < c, 0 ≤ (qdata.entry i j).toInt then .error .assertion
      else if c % 2 ≠ 0 then .error .assertion
      else if rows * 8 ≠ n ∨ c / 2 * 2 ≠ cols then .error .assertion
      else .ok {
        shape := [n, c / 2]
        entry := fun i j => packU4 (qdata.entry i (2 * j)) (qdata.entry i (2 * j + 1)) }
  | _ => .error .assertion

/-- The weight in the layout of the kernels, with its scales and zeros. The zeros are
in the type of the scales, in which all integers up to 256 are exact. -/
structure A16wX (F : Type) where
  qdata : Torch (BitVec 8)
  scales : Torch F
  qzeros : Torch ℚ

/-- The codes as they are stored. -/
def repackCodes (w : QWeight) (bits : Nat) : Except GptqError (Torch (BitVec 8)) :=
  match w with
  | .int8 w =>
      match w.shape with
      | [rows, cols] =>
          if cols = 0 then .error .reshape
          else if bits = 4 then packCodes rows cols w
          else if bits = 8 then .ok w
          else .error (.quantBits bits)
      | _ => .error .assertion
  | .int32 w =>
      match w.shape with
      | [rows, cols] =>
          if bits = 4 then
            match depackGptqWeight w 4 with
            | .error e => .error e
            | .ok qdata => packCodes rows cols qdata
          else if bits = 8 then
            match depackGptqWeight w 8 with
            | .error e => .error e
            | .ok qdata =>
                .ok { shape := qdata.shape, entry := fun k n => (qdata.entry k n).setWidth 8 }
          else .error (.quantBits bits)
      | _ => .error .assertion

/-- The zeros as they are stored; without any they are as many as the scales. -/
def repackZeros {F : Type} (scales : Torch F) (bits : Nat) :
    Option (Torch (BitVec 32)) → Except GptqError (Torch ℚ)
  | none => .ok { shape := scales.shape, entry := fun _ _ => 0 }
  | some w =>
      match depackGptqZero w bits with
      | .error e => .error e
      | .ok zeros => .ok { shape := zeros.shape, entry := fun g n => ((zeros.entry g n).toInt : ℚ) }

/-- `repack_gptq_to_a16wX`. -/
def repackGptqToA16wX {F : Type} (w : QWeight) (qzeros : Option (Torch (BitVec 32)))
    (scales : Torch F) (bits : Nat) : Except GptqError (A16wX F) :=
  match repackCodes w bits with
  | .error e => .error e
  | .ok qdata =>
      match repackZeros scales bits qzeros with
      | .error e => .error e
      | .ok qzeros => .ok { qdata, scales, qzeros }

/-! What the layouts mean. -/

/-- The code GPTQ packs for a row and a column. -/
def gptqCode (qweight : Torch (BitVec 32)) (bits k n : Nat) : Nat :=
  bitField (qweight.entry (k / (32 / bits)) n) bits (k % (32 / bits))

/-- The zero GPTQ packs for a group and a column, one below the one it means. -/
def gptqZero (qzeros : Torch (BitVec 32)) (bits g n : Nat) : Nat :=
  bitField (qzeros.entry g (n / (32 / bits))) bits (n % (32 / bits))

/-- The kernels' code for a row and a column: a nibble of the byte of two columns,
the low one for the even column, or a signed byte. -/
def storedCode (qdata : Torch (BitVec 8)) (bits k n : Nat) : Int :=
  if bits = 4 then
    if n % 2 = 0 then (qdata.entry k (n / 2) &&& 15).toNat else (qdata.entry k (n / 2) >>> 4).toNat
  else (qdata.entry k n).toInt

/-- A repacked weight has GPTQ's values, its rows in any groups, and four-bit columns
lie two to a byte. -/
structure KeepsValues {F : Type} (qweight qzeros : Torch (BitVec 32)) (bits rows cols : Nat)
    (out : A16wX F) : Prop where
  value : ∀ group : Nat → Nat, ∀ k < rows, ∀ n < cols,
    (storedCode out.qdata bits k n : ℚ) - out.qzeros.entry (group k) n =
      gptqCode qweight bits k n - (gptqZero qzeros bits (group k) n + 1)
  nibbles : bits = 4 → ∀ k < rows, ∀ c, 2 * c + 1 < cols →
    (out.qdata.entry k c &&& 15).toNat = gptqCode qweight 4 k (2 * c) ∧
      (out.qdata.entry k c >>> 4).toNat = gptqCode qweight 4 k (2 * c + 1)

end DashInfer.Quant

/-!
The values of repacked GPTQ weights. Unpacking and the nibbles keep every code; the
`int8` of the eight-bit kernels holds the lower half of the range, and the upper half
comes out 256 too small, under zeros that are not moved with it.
-/

namespace DashInfer.Quant

open Lib

/-! Unpacking. -/

theorem toNat_depack {bits i : Nat} (hbits : bits = 4 ∨ bits = 8) (hi : i < 32 / bits)
    (word : BitVec 32) : (depack bits i word).toNat = bitField word bits i := by
  rcases hbits with rfl | rfl
  · exact toNat_shift_mask word (by decide) (by omega)
  · exact toNat_shift_mask word (by decide) (by omega)

theorem depack_lt {bits i : Nat} (hbits : bits = 4 ∨ bits = 8) (hi : i < 32 / bits)
    (word : BitVec 32) : (depack bits i word).toNat < 2 ^ bits := by
  rw [toNat_depack hbits hi]
  exact bitField_lt word bits i

/-- A zero and one still fit below the sign. -/
theorem toInt_depack_succ {bits i : Nat} (hbits : bits = 4 ∨ bits = 8) (hi : i < 32 / bits)
    (word : BitVec 32) : (depack bits i word + 1).toInt = bitField word bits i + 1 := by
  have hlt := depack_lt hbits hi word
  have hnat := toNat_depack hbits hi word
  have hone : (1 : BitVec (depackWidth bits)).toNat = 1 := by
    rcases hbits with rfl | rfl <;> rfl
  have hroom : 2 * (2 ^ bits + 1) < 2 ^ depackWidth bits := by
    rcases hbits with rfl | rfl <;> decide
  have hsum : (depack bits i word + 1).toNat = bitField word bits i + 1 := by
    rw [BitVec.toNat_add, hone, hnat, Nat.mod_eq_of_lt]
    omega
  rw [BitVec.toInt_eq_toNat_of_lt (by omega), hsum]
  rfl

theorem index_lt {bits : Nat} (hbits : bits = 4 ∨ bits = 8) (k : Nat) :
    k % (32 / bits) < 32 / bits := by
  rcases hbits with rfl | rfl
  · exact Nat.mod_lt k (by decide)
  · exact Nat.mod_lt k (by decide)

/-- The unpacked codes are GPTQ's. -/
theorem depackGptqWeight_toNat {w : Torch (BitVec 32)} {bits : Nat}
    {qdata : Torch (BitVec (depackWidth bits))} (hbits : bits = 4 ∨ bits = 8)
    (h : depackGptqWeight w bits = .ok qdata) (k n : Nat) :
    (qdata.entry k n).toNat = gptqCode w bits k n := by
  unfold depackGptqWeight at h
  split at h
  · split at h
    · cases h
    · cases h
      exact toNat_depack hbits (index_lt hbits k) _
  · cases h

theorem gptqCode_lt (w : Torch (BitVec 32)) (bits k n : Nat) : gptqCode w bits k n < 2 ^ bits :=
  bitField_lt _ _ _

section

variable {qweight qzeros : Torch (BitVec 32)} {bits rows groups cols : Nat}

/-- The zeros come out as GPTQ means them. -/
theorem repackZeros_eq {F : Type} {scales : Torch F} {out : Torch ℚ}
    (hbits : bits = 4 ∨ bits = 8) (h : repackZeros scales bits (some qzeros) = .ok out)
    (g n : Nat) : out.entry g n = gptqZero qzeros bits g n + 1 := by
  unfold repackZeros at h
  dsimp only at h
  split at h
  · cases h
  · rename_i zeros hzeros
    cases h
    unfold depackGptqZero at hzeros
    split at hzeros
    · split at hzeros
      · cases hzeros
      · cases hzeros
        dsimp only
        rw [toInt_depack_succ hbits (index_lt hbits n), gptqZero]
        push_cast
        rfl
    · cases hzeros

/-! Four bits. -/

theorem packU4_low {even odd : BitVec 8} (he : even.toNat < 16) (ho : odd.toNat < 16) :
    (packU4 even odd &&& 15).toNat = even.toNat :=
  toNat_low_of_two (by decide) (by omega) he

theorem packU4_high {even odd : BitVec 8} (he : even.toNat < 16) (ho : odd.toNat < 16) :
    (packU4 even odd >>> 4).toNat = odd.toNat :=
  toNat_high_of_two (by decide) (by omega) he

theorem packCodes_entry {qdata out : Torch (BitVec 8)}
    (h : packCodes rows cols qdata = .ok out) (k j : Nat) :
    out.entry k j = packU4 (qdata.entry k (2 * j)) (qdata.entry k (2 * j + 1)) := by
  unfold packCodes at h
  split at h
  · split at h
    · cases h
    · split at h
      · cases h
      · split at h
        · cases h
        · cases h
          rfl
  · cases h

/-- Four bits of an even number of columns are packed. -/
theorem packCodes_returns {qdata : Torch (BitVec 8)} (hshape : qdata.shape = [rows * 8, cols])
    (heven : cols % 2 = 0) (hlt : ∀ i j, (qdata.entry i j).toNat < 16) :
    ∃ out, packCodes rows cols qdata = .ok out := by
  -- a code of four bits is not negative as an `int8`
  have hnonneg : ∀ i < rows * 8, ∀ j < cols, 0 ≤ (qdata.entry i j).toInt := by
    intro i _ j _
    have := hlt i j
    rw [BitVec.toInt_eq_toNat_of_lt (by omega)]
    exact Int.natCast_nonneg _
  have hcols : ¬ (rows * 8 ≠ rows * 8 ∨ cols / 2 * 2 ≠ cols) := by omega
  unfold packCodes
  rw [hshape]
  dsimp only
  rw [if_neg (not_not.mpr hnonneg), if_neg (not_not.mpr heven), if_neg hcols]
  exact ⟨_, rfl⟩

/-- The bytes of four-bit codes. -/
theorem repackCodes_four {out : Torch (BitVec 8)}
    (h : repackCodes (.int32 qweight) 4 = .ok out) (k c : Nat) :
    (out.entry k c &&& 15).toNat = gptqCode qweight 4 k (2 * c) ∧
      (out.entry k c >>> 4).toNat = gptqCode qweight 4 k (2 * c + 1) := by
  unfold repackCodes at h
  dsimp only at h
  split at h
  · rw [if_pos rfl] at h
    split at h
    · cases h
    · rename_i qdata hq
      have hcode : ∀ n, BitVec.toNat (w := 8) (qdata.entry k n) = gptqCode qweight 4 k n :=
        depackGptqWeight_toNat (.inl rfl) hq k
      have hlt : ∀ n, BitVec.toNat (w := 8) (qdata.entry k n) < 16 := by
        intro n
        rw [hcode]
        exact gptqCode_lt qweight 4 k n
      rw [packCodes_entry h, packU4_low (hlt _) (hlt _), packU4_high (hlt _) (hlt _)]
      exact ⟨hcode _, hcode _⟩
  · cases h

theorem storedCode_four {out : Torch (BitVec 8)}
    (h : repackCodes (.int32 qweight) 4 = .ok out) (k n : Nat) :
    storedCode out 4 k n = gptqCode qweight 4 k n := by
  obtain ⟨hlow, hhigh⟩ := repackCodes_four h k (n / 2)
  unfold storedCode
  rw [if_pos rfl]
  split
  · rename_i heven
    rw [hlow, show 2 * (n / 2) = n by omega]
  · rename_i hodd
    rw [hhigh, show 2 * (n / 2) + 1 = n by omega]

/-! Eight bits. -/

/-- A code of the upper half of the range is stored 256 too small. -/
theorem storedCode_eight {out : Torch (BitVec 8)}
    (h : repackCodes (.int32 qweight) 8 = .ok out) (k n : Nat) :
    storedCode out 8 k n =
      if gptqCode qweight 8 k n < 128 then (gptqCode qweight 8 k n : Int)
      else gptqCode qweight 8 k n - 256 := by
  unfold repackCodes at h
  dsimp only at h
  split at h
  · rw [if_neg (by decide), if_pos rfl] at h
    split at h
    · cases h
    · rename_i qdata hq
      cases h
      have hcode := depackGptqWeight_toNat (.inr rfl) hq k n
      have hlt : (qdata.entry k n).toNat < 2 ^ 8 := by
        rw [hcode]
        exact gptqCode_lt qweight 8 k n
      have hint := toInt_setWidth hlt
      rw [hcode] at hint
      unfold storedCode
      rw [if_neg (by decide)]
      refine hint.trans ?_
      split
      · rw [if_pos (by omega)]
      · rw [if_neg (by omega)]
        norm_num
  · cases h

/-! The repacked weight. -/

theorem repackGptq_parts {F : Type} {w : QWeight} {scales : Torch F}
    {qzeros : Option (Torch (BitVec 32))} {out : A16wX F}
    (h : repackGptqToA16wX w qzeros scales bits = .ok out) :
    repackCodes w bits = .ok out.qdata ∧ repackZeros scales bits qzeros = .ok out.qzeros := by
  unfold repackGptqToA16wX at h
  split at h
  · cases h
  · rename_i hcodes
    split at h
    · cases h
    · rename_i hzeros
      cases h
      exact ⟨hcodes, hzeros⟩

/-- A well-formed packed weight is repacked. -/
theorem repackGptq_returns {F : Type} (scales : Torch F) (hbits : bits = 4 ∨ bits = 8)
    (hw : qweight.shape = [rows, cols * (32 / bits)]) (hz : qzeros.shape = [groups, cols])
    (hcols : 0 < cols) :
    ∃ out, repackGptqToA16wX (.int32 qweight) (some qzeros) scales bits = .ok out := by
  have hzeros : ∃ z, repackZeros scales bits (some qzeros) = .ok z := by
    simp [repackZeros, depackGptqZero, hz, hcols.ne']
  have hcodes : ∃ q, repackCodes (.int32 qweight) bits = .ok q := by
    rcases hbits with rfl | rfl
    · obtain ⟨qdata, hqdata, hshape⟩ : ∃ qdata, depackGptqWeight qweight 4 = .ok qdata ∧
          qdata.shape = [rows * 8, cols * 8] := by
        simp [depackGptqWeight, hw, hcols.ne']
      obtain ⟨q, hq⟩ := packCodes_returns hshape (by omega) (fun i j =>
          (depackGptqWeight_toNat (.inl rfl) hqdata i j).trans_lt (gptqCode_lt qweight 4 i j))
      exact ⟨q, by simp only [repackCodes, hw, if_true, hqdata, hq]⟩
    · simp [repackCodes, depackGptqWeight, hw, hcols.ne']
  obtain ⟨q, hq⟩ := hcodes
  obtain ⟨z, hz⟩ := hzeros
  exact ⟨⟨q, scales, z⟩, by simp only [repackGptqToA16wX, hq, hz]⟩

/-- Repacking keeps the values of a weight just where it is packed in four bits or its
codes lie in the lower half of the range. -/
theorem repackGptq_keepsValues_iff {F : Type} (scales : Torch F) (hbits : bits = 4 ∨ bits = 8)
    (hw : qweight.shape = [rows, cols * (32 / bits)]) (hz : qzeros.shape = [groups, cols]) :
    (∀ out, repackGptqToA16wX (.int32 qweight) (some qzeros) scales bits = .ok out →
      KeepsValues qweight qzeros bits (rows * (32 / bits)) (cols * (32 / bits)) out) ↔
      (bits = 4 ∨ ∀ k < rows * (32 / bits), ∀ n < cols * (32 / bits),
        gptqCode qweight bits k n < 128) := by
  constructor
  · intro h
    rcases hbits with rfl | rfl
    · exact .inl rfl
    · right
      intro k hk n hn
      have hcols : 0 < cols := by omega
      obtain ⟨out, hout⟩ := repackGptq_returns scales (.inr rfl) hw hz hcols
      obtain ⟨hcodes, hzeros⟩ := repackGptq_parts hout
      have hvalue := (h out hout).value (fun _ => 0) k hk n hn
      rw [repackZeros_eq (.inr rfl) hzeros, sub_left_inj, storedCode_eight hcodes] at hvalue
      by_contra hlt
      rw [if_neg hlt] at hvalue
      push_cast at hvalue
      linarith
  · intro hcond out hout
    obtain ⟨hcodes, hzeros⟩ := repackGptq_parts hout
    have hstored : ∀ k < rows * (32 / bits), ∀ n < cols * (32 / bits),
        storedCode out.qdata bits k n = gptqCode qweight bits k n := by
      intro k hk n hn
      rcases hbits with rfl | rfl
      · exact storedCode_four hcodes k n
      · have hlow := hcond.resolve_left (by decide) k hk n hn
        rw [storedCode_eight hcodes, if_pos hlow]
    constructor
    · intro group k hk n hn
      rw [hstored k hk n hn, repackZeros_eq hbits hzeros]
      push_cast
      rfl
    · rintro rfl k _ c _
      exact repackCodes_four hcodes k c

end

/-- A row of words, all the same, and scales of one. -/
def oneRow (cols : Nat) (word : BitVec 32) : Torch (BitVec 32) where
  shape := [1, cols]
  entry _ _ := word

def unitScales : Torch ℚ where
  shape := [1, 4]
  entry _ _ := 1

theorem repackGptq_keepsValues_iff_low :
    ∃ out, repackGptqToA16wX (.int32 (oneRow 4 100)) (some (oneRow 1 7)) unitScales 8 =
      .ok out ∧ KeepsValues (oneRow 4 100) (oneRow 1 7) 8 4 4 out := by
  have hw : (oneRow 4 100).shape = [1, 1 * (32 / 8)] := rfl
  have hz : (oneRow 1 7).shape = [1, 1] := rfl
  obtain ⟨out, hout⟩ := repackGptq_returns unitScales (.inr rfl) hw hz Nat.one_pos
  exact ⟨out, hout, (repackGptq_keepsValues_iff unitScales (.inr rfl) hw hz).mpr
    (.inr (by decide)) out hout⟩

/-- An eight-bit code of 200 under a zero of one is worth 199 and comes out as -57. -/
theorem upper_half_shifted :
    ∃ out, repackGptqToA16wX (.int32 (oneRow 4 200)) (some (oneRow 1 0)) unitScales 8 =
      .ok out ∧ ¬ KeepsValues (oneRow 4 200) (oneRow 1 0) 8 4 4 out := by
  obtain ⟨out, hout⟩ := repackGptq_returns unitScales (.inr rfl)
    (show (oneRow 4 200).shape = [1, 1 * (32 / 8)] from rfl)
    (show (oneRow 1 0).shape = [1, 1] from rfl) Nat.one_pos
  refine ⟨out, hout, fun h => ?_⟩
  obtain ⟨hcodes, hzeros⟩ := repackGptq_parts hout
  have hvalue := h.value (fun _ => 0) 0 (by decide) 0 (by decide)
  have hcode : gptqCode (oneRow 4 200) 8 0 0 = 200 := by decide
  rw [repackZeros_eq (.inr rfl) hzeros, storedCode_eight hcodes, hcode] at hvalue
  norm_num at hvalue

end DashInfer.Quant
