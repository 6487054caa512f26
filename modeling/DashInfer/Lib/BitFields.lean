import Mathlib

/-!
Fields of a machine word: what a shift, a narrowing and a mask leave of a word, and
two fields put into one word.
-/

namespace DashInfer.Lib

/-- The `i`-th field of `bits` bits. -/
def bitField {w : Nat} (x : BitVec w) (bits i : Nat) : Nat := x.toNat / 2 ^ (bits * i) % 2 ^ bits

theorem bitField_lt {w : Nat} (x : BitVec w) (bits i : Nat) : bitField x bits i < 2 ^ bits :=
  Nat.mod_lt _ (Nat.two_pow_pos bits)

theorem toNat_and_mask {w : Nat} (x : BitVec w) {bits : Nat} (h : bits ≤ w) :
    (x &&& BitVec.ofNat w (2 ^ bits - 1)).toNat = x.toNat % 2 ^ bits := by
  have hlt : 2 ^ bits - 1 < 2 ^ w :=
    Nat.lt_of_lt_of_le (Nat.sub_lt (Nat.two_pow_pos bits) Nat.one_pos)
      (Nat.pow_le_pow_right Nat.two_pos h)
  rw [BitVec.toNat_and, BitVec.toNat_ofNat, Nat.mod_eq_of_lt hlt, Nat.and_two_pow_sub_one_eq_mod]

/-- The copies of the sign that an arithmetic shift brings in lie above the mask. -/
theorem toNat_sshiftRight_mod {w : Nat} (x : BitVec w) {s bits : Nat} (h : s + bits ≤ w) :
    (x.sshiftRight s).toNat % 2 ^ bits = x.toNat / 2 ^ s % 2 ^ bits := by
  apply Nat.eq_of_testBit_eq
  intro i
  rw [Nat.testBit_mod_two_pow, Nat.testBit_mod_two_pow, Nat.testBit_div_two_pow,
    ← BitVec.getLsbD, BitVec.getLsbD_sshiftRight]
  by_cases hi : i < bits
  · have h1 : i < w := by omega
    have h2 : s + i < w := by omega
    simp [hi, h1, h2, BitVec.getLsbD, Nat.add_comm]
  · simp [hi]

/-- A field read by shifting, narrowing and masking. -/
theorem toNat_shift_mask {w v : Nat} (x : BitVec w) {bits i : Nat} (hv : bits ≤ v)
    (h : bits * i + bits ≤ w) :
    ((x.sshiftRight (bits * i)).setWidth v &&& BitVec.ofNat v (2 ^ bits - 1)).toNat =
      bitField x bits i := by
  rw [toNat_and_mask _ hv, BitVec.toNat_setWidth,
    Nat.mod_mod_of_dvd _ (Nat.pow_dvd_pow 2 hv), toNat_sshiftRight_mod x h, bitField]

/-- Two fields in one word. -/
theorem toNat_shift_or_mask {w bits : Nat} {high low : BitVec w} (hw : bits ≤ w)
    (hhigh : high.toNat * 2 ^ bits < 2 ^ w) (hlow : low.toNat < 2 ^ bits) :
    (high <<< bits ||| low &&& BitVec.ofNat w (2 ^ bits - 1)).toNat =
      high.toNat * 2 ^ bits + low.toNat := by
  rw [BitVec.toNat_or, toNat_and_mask low hw, Nat.mod_eq_of_lt hlow, BitVec.toNat_shiftLeft,
    Nat.shiftLeft_eq, Nat.mod_eq_of_lt hhigh, ← Nat.shiftLeft_eq,
    Nat.shiftLeft_add_eq_or_of_lt hlow]

theorem toNat_low_of_two {w bits : Nat} {high low : BitVec w} (hw : bits ≤ w)
    (hhigh : high.toNat * 2 ^ bits < 2 ^ w) (hlow : low.toNat < 2 ^ bits) :
    ((high <<< bits ||| low &&& BitVec.ofNat w (2 ^ bits - 1)) &&&
      BitVec.ofNat w (2 ^ bits - 1)).toNat = low.toNat := by
  rw [toNat_and_mask _ hw, toNat_shift_or_mask hw hhigh hlow, Nat.mul_add_mod_self_right,
    Nat.mod_eq_of_lt hlow]

theorem toNat_high_of_two {w bits : Nat} {high low : BitVec w} (hw : bits ≤ w)
    (hhigh : high.toNat * 2 ^ bits < 2 ^ w) (hlow : low.toNat < 2 ^ bits) :
    ((high <<< bits ||| low &&& BitVec.ofNat w (2 ^ bits - 1)) >>> bits).toNat =
      high.toNat := by
  rw [BitVec.toNat_ushiftRight, toNat_shift_or_mask hw hhigh hlow, Nat.shiftRight_eq_div_pow,
    Nat.mul_comm, Nat.mul_add_div (Nat.two_pow_pos bits), Nat.div_eq_of_lt hlow, Nat.add_zero]

/-- A word narrowed to a signed one of `bits` bits keeps the values below the sign. -/
theorem toInt_setWidth {w bits : Nat} {x : BitVec w} (h : x.toNat < 2 ^ bits) :
    (x.setWidth bits).toInt =
      if 2 * x.toNat < 2 ^ bits then (x.toNat : Int) else x.toNat - 2 ^ bits := by
  rw [BitVec.toInt_eq_toNat_cond, BitVec.toNat_setWidth, Nat.mod_eq_of_lt h]
  simp

end DashInfer.Lib
