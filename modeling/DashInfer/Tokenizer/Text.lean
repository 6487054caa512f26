import DashInfer.Lib.Utf8
import DashInfer.Lib.Fallible
import DashInfer.Lib.Text
import Mathlib.Data.List.AList
import Mathlib.Data.Nat.Bitwise

/-!
The text functions of the format enforcer: code points to and from UTF-8, the
map between bytes and the printable characters that stand for them in a byte
pair vocabulary, and the text of a token of such a vocabulary.
-/

namespace DashInfer.Tokenizer

open Lib

/-- A failed `AS_ENFORCE`, and `AS_THROW` with a runtime error. -/
inductive Fault where
  | enforce
  | runtimeError
deriving DecidableEq, Repr

abbrev Bytes := List UInt8

def unicodeCptToUtf8 (cp : UInt32) : Except Fault Bytes :=
  let byte (mark field : UInt32) := (mark ||| field).toUInt8
  if cp ≤ 0x7f then .ok [cp.toUInt8]
  else if 0x80 ≤ cp ∧ cp ≤ 0x7ff then
    .ok [byte 0xc0 ((cp >>> 6) &&& 0x1f), byte 0x80 (cp &&& 0x3f)]
  else if 0x800 ≤ cp ∧ cp ≤ 0xffff then
    .ok [byte 0xe0 ((cp >>> 12) &&& 0x0f), byte 0x80 ((cp >>> 6) &&& 0x3f),
      byte 0x80 (cp &&& 0x3f)]
  else if 0x10000 ≤ cp ∧ cp ≤ 0x10ffff then
    .ok [byte 0xf0 ((cp >>> 18) &&& 0x07), byte 0x80 ((cp >>> 12) &&& 0x3f),
      byte 0x80 ((cp >>> 6) &&& 0x3f), byte 0x80 (cp &&& 0x3f)]
  else .error .runtimeError

/-- There is a byte at this place, and it continues a code point. -/
def continues (utf8 : Bytes) (i : Nat) : Bool :=
  i < utf8.length && (utf8.getD i 0 &&& 0xc0 == 0x80)

def unicodeCptFromUtf8 (utf8 : Bytes) (offset : Nat) : Except Fault (UInt32 × Nat) :=
  let byte (i : Nat) := utf8.getD (offset + i) 0
  if ¬ offset < utf8.length then .error .enforce
  else if byte 0 &&& 0x80 = 0 then .ok ((byte 0).toUInt32, offset + 1)
  else if byte 0 &&& 0x40 = 0 then .error .runtimeError
  else if byte 0 &&& 0x20 = 0 then
    if continues utf8 (offset + 1) then
      .ok ((byte 0 &&& 0x1f).toUInt32 <<< 6 ||| (byte 1 &&& 0x3f).toUInt32, offset + 2)
    else .error .runtimeError
  else if byte 0 &&& 0x10 = 0 then
    if continues utf8 (offset + 1) && continues utf8 (offset + 2) then
      .ok ((byte 0 &&& 0x0f).toUInt32 <<< 12 ||| (byte 1 &&& 0x3f).toUInt32 <<< 6 |||
        (byte 2 &&& 0x3f).toUInt32, offset + 3)
    else .error .runtimeError
  else if byte 0 &&& 0x08 = 0 then
    if continues utf8 (offset + 1) && continues utf8 (offset + 2) &&
        continues utf8 (offset + 3) then
      .ok ((byte 0 &&& 0x07).toUInt32 <<< 18 ||| (byte 1 &&& 0x3f).toUInt32 <<< 12 |||
        (byte 2 &&& 0x3f).toUInt32 <<< 6 ||| (byte 3 &&& 0x3f).toUInt32, offset + 4)
    else .error .runtimeError
  else .error .runtimeError

/-- The loop of `unicode_cpts_from_utf8`, with as many rounds as there are
bytes at most. -/
def cptsFrom (utf8 : Bytes) : Nat → Nat → Except Fault (List UInt32)
  | 0, _ => .ok []
  | rounds + 1, offset =>
      if offset < utf8.length then
        match unicodeCptFromUtf8 utf8 offset with
        | .error fault => .error fault
        | .ok (cp, offset) => (cptsFrom utf8 rounds offset).map (cp :: ·)
      else .ok []

def unicodeCptsFromUtf8 (utf8 : Bytes) : Except Fault (List UInt32) :=
  cptsFrom utf8 utf8.length 0

section CodePoints

/-- Two numbers that share no bit, the second one below the first. -/
theorem toNat_or_of_dvd {x y : UInt32} (bits : Nat) (hx : 2 ^ bits ∣ x.toNat)
    (hy : y.toNat < 2 ^ bits) : (x ||| y).toNat = x.toNat + y.toNat := by
  obtain ⟨high, hhigh⟩ := hx
  rw [UInt32.toNat_or, hhigh, Nat.two_pow_add_eq_or_of_lt hy]

/-- A mark put over a field of a code point that is below it. -/
theorem toNat_marked (cp mark shift mask : UInt32) (bits : Nat) (hshift : shift.toNat < 32)
    (hmask : mask.toNat = 2 ^ bits - 1) (hmark : 2 ^ bits ∣ mark.toNat)
    (hbyte : mark.toNat + 2 ^ bits ≤ 256) :
    (mark ||| ((cp >>> shift) &&& mask)).toUInt8.toNat =
      mark.toNat + cp.toNat / 2 ^ shift.toNat % 2 ^ bits := by
  have hfield : ((cp >>> shift) &&& mask).toNat = cp.toNat / 2 ^ shift.toNat % 2 ^ bits := by
    rw [UInt32.toNat_and, UInt32.toNat_shiftRight, Nat.mod_eq_of_lt hshift, hmask,
      Nat.and_two_pow_sub_one_eq_mod, Nat.shiftRight_eq_div_pow]
  have hlt : cp.toNat / 2 ^ shift.toNat % 2 ^ bits < 2 ^ bits := Nat.mod_lt _ (by positivity)
  rw [UInt32.toNat_toUInt8, toNat_or_of_dvd bits hmark (by omega), hfield]
  exact Nat.mod_eq_of_lt (by omega)

/-- A code point below `0x110000` has its code word as text, and no other has
one. -/
theorem unicodeCptToUtf8_eq (cp : UInt32) :
    (cp.toNat < 0x110000 ∧ ∃ utf8, unicodeCptToUtf8 cp = .ok utf8 ∧
      utf8.map UInt8.toNat = Utf8.encode cp.toNat) ∨
    (0x110000 ≤ cp.toNat ∧ unicodeCptToUtf8 cp = .error .runtimeError) := by
  have hone : cp.toUInt8.toNat = cp.toNat % 256 := rfl
  have htail : ((0x80 : UInt32) ||| (cp &&& 0x3f)).toUInt8.toNat = 128 + cp.toNat % 64 := by
    simpa using toNat_marked cp 0x80 0 0x3f 6 (by decide) rfl ⟨2, rfl⟩ (by decide)
  have htail6 := toNat_marked cp 0x80 6 0x3f 6 (by decide) rfl ⟨2, rfl⟩ (by decide)
  have htail12 := toNat_marked cp 0x80 12 0x3f 6 (by decide) rfl ⟨2, rfl⟩ (by decide)
  have hlead2 := toNat_marked cp 0xc0 6 0x1f 5 (by decide) rfl ⟨6, rfl⟩ (by decide)
  have hlead3 := toNat_marked cp 0xe0 12 0x0f 4 (by decide) rfl ⟨14, rfl⟩ (by decide)
  have hlead4 := toNat_marked cp 0xf0 18 0x07 3 (by decide) rfl ⟨30, rfl⟩ (by decide)
  simp only [UInt32.reduceToNat, Nat.reducePow] at htail6 htail12 hlead2 hlead3 hlead4
  simp only [unicodeCptToUtf8, UInt32.le_iff_toNat_le, UInt32.reduceToNat, Utf8.encode]
  by_cases h1 : cp.toNat ≤ 127
  · refine .inl ⟨by omega, [cp.toUInt8], by simp [h1], ?_⟩
    simp only [List.map_cons, List.map_nil, hone, if_pos (show cp.toNat < 128 by omega)]
    rw [Nat.mod_eq_of_lt (by omega)]
  by_cases h2 : cp.toNat ≤ 2047
  · refine .inl ⟨by omega, _, by rw [if_neg h1, if_pos ⟨by omega, h2⟩], ?_⟩
    simp only [List.map_cons, List.map_nil, htail, hlead2, Nat.mod_eq_of_lt
      (show cp.toNat / 64 < 32 by omega), if_neg (show ¬ cp.toNat < 128 by omega),
      if_pos (show cp.toNat < 2048 by omega)]
  by_cases h3 : cp.toNat ≤ 65535
  · refine .inl ⟨by omega, _, by rw [if_neg h1, if_neg (by omega), if_pos ⟨by omega, h3⟩], ?_⟩
    simp only [List.map_cons, List.map_nil, htail, htail6, hlead3, Nat.mod_eq_of_lt
      (show cp.toNat / 4096 < 16 by omega), if_neg (show ¬ cp.toNat < 128 by omega),
      if_neg (show ¬ cp.toNat < 2048 by omega), if_pos (show cp.toNat < 65536 by omega)]
  by_cases h4 : cp.toNat ≤ 1114111
  · refine .inl ⟨by omega, _,
      by rw [if_neg h1, if_neg (by omega), if_neg (by omega), if_pos ⟨by omega, h4⟩], ?_⟩
    simp only [List.map_cons, List.map_nil, htail, htail6, htail12, hlead4, Nat.mod_eq_of_lt
      (show cp.toNat / 262144 < 8 by omega), if_neg (show ¬ cp.toNat < 128 by omega),
      if_neg (show ¬ cp.toNat < 2048 by omega), if_neg (show ¬ cp.toNat < 65536 by omega)]
  · exact .inr ⟨by omega, by
      rw [if_neg h1, if_neg (by omega), if_neg (by omega), if_neg (by omega)]⟩

/-- A single bit of a byte. -/
theorem and_bit_eq_zero (b mask : UInt8) (k : Nat) (hmask : mask.toNat = 2 ^ k) :
    b &&& mask = 0 ↔ b.toNat / 2 ^ k % 2 = 0 := by
  rw [← UInt8.toNat_inj, UInt8.toNat_and, hmask, Nat.and_two_pow, Nat.testBit_eq_decide_div_mod_eq]
  have hpos : 0 < 2 ^ k := by positivity
  by_cases hbit : b.toNat / 2 ^ k % 2 = 1
  · simp [hbit]
  · simp [hbit]
    omega

theorem and_tail_mark (b : UInt8) : b &&& 0xc0 = 0x80 ↔ Utf8.Tail b.toNat := by
  have hall : ∀ x : BitVec 8, x &&& 0xc0#8 = 0x80#8 ↔ 128 ≤ x.toNat ∧ x.toNat < 192 := by decide
  rw [← UInt8.toBitVec_inj]
  exact hall b.toBitVec

/-- A field of a byte at its place in a code point. -/
theorem toNat_placed (b mask : UInt8) (shift : UInt32) (bits : Nat) (hshift : shift.toNat < 32)
    (hmask : mask.toNat = 2 ^ bits - 1) (hplace : bits + shift.toNat ≤ 31) :
    ((b &&& mask).toUInt32 <<< shift).toNat = b.toNat % 2 ^ bits * 2 ^ shift.toNat := by
  rw [UInt32.toNat_shiftLeft, UInt8.toNat_toUInt32, UInt8.toNat_and, hmask,
    Nat.and_two_pow_sub_one_eq_mod, Nat.mod_eq_of_lt hshift, Nat.shiftLeft_eq]
  apply Nat.mod_eq_of_lt
  have hlt : b.toNat % 2 ^ bits < 2 ^ bits := Nat.mod_lt _ (by positivity)
  calc b.toNat % 2 ^ bits * 2 ^ shift.toNat
      < 2 ^ bits * 2 ^ shift.toNat := Nat.mul_lt_mul_of_pos_right hlt (by positivity)
    _ = 2 ^ (bits + shift.toNat) := (Nat.pow_add _ _ _).symm
    _ ≤ 2 ^ 31 := Nat.pow_le_pow_right (by decide) hplace
    _ < 2 ^ 32 := by decide

theorem toNat_low (b : UInt8) : (b &&& 0x3f).toUInt32.toNat = b.toNat % 64 := by
  simpa using toNat_placed b 0x3f 0 6 (by decide) rfl (by decide)

theorem toNat_two (a b : UInt8) :
    ((a &&& 0x1f).toUInt32 <<< 6 ||| (b &&& 0x3f).toUInt32).toNat =
      a.toNat % 32 * 64 + b.toNat % 64 := by
  have ha : ((a &&& 0x1f).toUInt32 <<< 6).toNat = a.toNat % 32 * 64 :=
    toNat_placed a 0x1f 6 5 (by decide) rfl (by decide)
  rw [toNat_or_of_dvd 6 (by omega) (by rw [toNat_low]; omega), ha, toNat_low]

theorem toNat_three (a b c : UInt8) :
    ((a &&& 0x0f).toUInt32 <<< 12 ||| (b &&& 0x3f).toUInt32 <<< 6 |||
      (c &&& 0x3f).toUInt32).toNat =
      a.toNat % 16 * 4096 + b.toNat % 64 * 64 + c.toNat % 64 := by
  have ha : ((a &&& 0x0f).toUInt32 <<< 12).toNat = a.toNat % 16 * 4096 :=
    toNat_placed a 0x0f 12 4 (by decide) rfl (by decide)
  have hb : ((b &&& 0x3f).toUInt32 <<< 6).toNat = b.toNat % 64 * 64 :=
    toNat_placed b 0x3f 6 6 (by decide) rfl (by decide)
  have hab := toNat_or_of_dvd 12 (x := (a &&& 0x0f).toUInt32 <<< 12)
    (y := (b &&& 0x3f).toUInt32 <<< 6) (by omega) (by omega)
  rw [toNat_or_of_dvd 6 (by omega) (by rw [toNat_low]; omega), hab, ha, hb, toNat_low]

theorem toNat_four (a b c d : UInt8) :
    ((a &&& 0x07).toUInt32 <<< 18 ||| (b &&& 0x3f).toUInt32 <<< 12 |||
      (c &&& 0x3f).toUInt32 <<< 6 ||| (d &&& 0x3f).toUInt32).toNat =
      a.toNat % 8 * 262144 + b.toNat % 64 * 4096 + c.toNat % 64 * 64 + d.toNat % 64 := by
  have ha : ((a &&& 0x07).toUInt32 <<< 18).toNat = a.toNat % 8 * 262144 :=
    toNat_placed a 0x07 18 3 (by decide) rfl (by decide)
  have hb : ((b &&& 0x3f).toUInt32 <<< 12).toNat = b.toNat % 64 * 4096 :=
    toNat_placed b 0x3f 12 6 (by decide) rfl (by decide)
  have hc : ((c &&& 0x3f).toUInt32 <<< 6).toNat = c.toNat % 64 * 64 :=
    toNat_placed c 0x3f 6 6 (by decide) rfl (by decide)
  have hab := toNat_or_of_dvd 18 (x := (a &&& 0x07).toUInt32 <<< 18)
    (y := (b &&& 0x3f).toUInt32 <<< 12) (by omega) (by omega)
  have habc := toNat_or_of_dvd 12
    (x := (a &&& 0x07).toUInt32 <<< 18 ||| (b &&& 0x3f).toUInt32 <<< 12)
    (y := (c &&& 0x3f).toUInt32 <<< 6) (by omega) (by omega)
  rw [toNat_or_of_dvd 6 (by omega) (by rw [toNat_low]; omega), habc, hab, ha, hb, hc, toNat_low]

/-- The bytes that a code point may be read from. -/
def Reads (part : Bytes) (cp : UInt32) : Prop := Utf8.Form (part.map UInt8.toNat) cp.toNat

theorem continues_iff (utf8 : Bytes) (offset i : Nat) :
    continues utf8 (offset + i) = true ↔
      ∃ b, (utf8.drop offset)[i]? = some b ∧ Utf8.Tail b.toNat := by
  simp only [continues, Bool.and_eq_true, decide_eq_true_eq, beq_iff_eq, and_tail_mark,
    List.getElem?_drop]
  constructor
  · rintro ⟨hlt, htail⟩
    exact ⟨utf8[offset + i], List.getElem?_eq_getElem hlt, by
      simpa [List.getD_eq_getElem?_getD, List.getElem?_eq_getElem hlt] using htail⟩
  · rintro ⟨b, hb, htail⟩
    obtain ⟨hlt, hget⟩ := List.getElem?_eq_some_iff.mp hb
    exact ⟨hlt, by simpa [List.getD_eq_getElem?_getD, hb] using htail⟩

end CodePoints

section Decoding

variable {utf8 : Bytes} {cp : UInt32} {cps : List UInt32}

theorem getD_drop (utf8 : Bytes) (offset i : Nat) :
    utf8.getD (offset + i) 0 = (utf8.drop offset).getD i 0 := by
  simp [List.getD_eq_getElem?_getD]

theorem reads_one {a : UInt8} : Reads [a] cp ↔ a.toNat < 128 ∧ cp = a.toUInt32 := by
  simp only [Reads, List.map_cons, List.map_nil, ← UInt32.toNat_inj]
  generalize cp.toNat = v
  constructor
  · intro h
    cases h with
    | one hlow => exact ⟨hlow, rfl⟩
  · rintro ⟨hlow, rfl⟩
    exact .one hlow

theorem reads_two {a b : UInt8} : Reads [a, b] cp ↔
    (192 ≤ a.toNat ∧ a.toNat < 224 ∧ Utf8.Tail b.toNat) ∧
      cp = (a &&& 0x1f).toUInt32 <<< 6 ||| (b &&& 0x3f).toUInt32 := by
  simp only [Reads, List.map_cons, List.map_nil, ← UInt32.toNat_inj, toNat_two]
  generalize cp.toNat = v
  constructor
  · intro h
    cases h with
    | two hlow hhigh hb => exact ⟨⟨hlow, hhigh, hb⟩, rfl⟩
  · rintro ⟨⟨hlow, hhigh, hb⟩, rfl⟩
    exact .two hlow hhigh hb

theorem reads_three {a b c : UInt8} : Reads [a, b, c] cp ↔
    (224 ≤ a.toNat ∧ a.toNat < 240 ∧ Utf8.Tail b.toNat ∧ Utf8.Tail c.toNat) ∧
      cp = (a &&& 0x0f).toUInt32 <<< 12 ||| (b &&& 0x3f).toUInt32 <<< 6 |||
        (c &&& 0x3f).toUInt32 := by
  simp only [Reads, List.map_cons, List.map_nil, ← UInt32.toNat_inj, toNat_three]
  generalize cp.toNat = v
  constructor
  · intro h
    cases h with
    | three hlow hhigh hb hc => exact ⟨⟨hlow, hhigh, hb, hc⟩, rfl⟩
  · rintro ⟨⟨hlow, hhigh, hb, hc⟩, rfl⟩
    exact .three hlow hhigh hb hc

theorem reads_four {a b c d : UInt8} : Reads [a, b, c, d] cp ↔
    (240 ≤ a.toNat ∧ a.toNat < 248 ∧ Utf8.Tail b.toNat ∧ Utf8.Tail c.toNat ∧
      Utf8.Tail d.toNat) ∧
      cp = (a &&& 0x07).toUInt32 <<< 18 ||| (b &&& 0x3f).toUInt32 <<< 12 |||
        (c &&& 0x3f).toUInt32 <<< 6 ||| (d &&& 0x3f).toUInt32 := by
  simp only [Reads, List.map_cons, List.map_nil, ← UInt32.toNat_inj, toNat_four]
  generalize cp.toNat = v
  constructor
  · intro h
    cases h with
    | four hlow hhigh hb hc hd => exact ⟨⟨hlow, hhigh, hb, hc, hd⟩, rfl⟩
  · rintro ⟨⟨hlow, hhigh, hb, hc, hd⟩, rfl⟩
    exact .four hlow hhigh hb hc hd

theorem Reads.length_le {part : Bytes} (h : Reads part cp) : part.length ≤ 4 := by
  have hword : ∀ {l v}, Utf8.Form l v → l.length ≤ 4 := by
    intro l v hl
    cases hl <;> simp
  simpa using hword h

/-- What the decoder takes is a code word at the front of the rest. -/
theorem unicodeCptFromUtf8_sound {offset next : Nat}
    (h : unicodeCptFromUtf8 utf8 offset = .ok (cp, next)) :
    ∃ part rest, utf8.drop offset = part ++ rest ∧ Reads part cp ∧
      next = offset + part.length := by
  have hlt : offset < utf8.length ↔ utf8.drop offset ≠ [] := by simp
  have hb := continues_iff utf8 offset
  simp only [unicodeCptFromUtf8, getD_drop, hlt] at h
  generalize utf8.drop offset = l at h hb ⊢
  rcases l with _ | ⟨a, l⟩
  · simp at h
  have ha := a.toNat_lt
  simp only [ne_eq, reduceCtorEq, not_false_eq_true, not_true_eq_false, if_false,
    List.getD_cons_zero, and_bit_eq_zero a 0x80 7 rfl, and_bit_eq_zero a 0x40 6 rfl,
    and_bit_eq_zero a 0x20 5 rfl, and_bit_eq_zero a 0x10 4 rfl, and_bit_eq_zero a 0x08 3 rfl,
    Bool.and_eq_true, hb, List.getElem?_cons_succ] at h
  split at h
  · cases h
    exact ⟨[a], l, rfl, reads_one.mpr ⟨by omega, rfl⟩, rfl⟩
  split at h
  · cases h
  split at h
  · split at h
    · rename_i htail
      obtain ⟨b, hget, hbt⟩ := htail
      rcases l with _ | ⟨b, l⟩
      · cases hget
      cases hget
      cases h
      exact ⟨[a, b], l, rfl, reads_two.mpr ⟨⟨by omega, by omega, hbt⟩, rfl⟩, rfl⟩
    · cases h
  split at h
  · split at h
    · rename_i htail
      obtain ⟨⟨b, hgetb, hbt⟩, ⟨c, hgetc, hct⟩⟩ := htail
      rcases l with _ | ⟨b, _ | ⟨c, l⟩⟩
      · cases hgetb
      · cases hgetc
      cases hgetb
      cases hgetc
      cases h
      exact ⟨[a, b, c], l, rfl, reads_three.mpr ⟨⟨by omega, by omega, hbt, hct⟩, rfl⟩, rfl⟩
    · cases h
  split at h
  · split at h
    · rename_i htail
      obtain ⟨⟨⟨b, hgetb, hbt⟩, ⟨c, hgetc, hct⟩⟩, ⟨d, hgetd, hdt⟩⟩ := htail
      rcases l with _ | ⟨b, _ | ⟨c, _ | ⟨d, l⟩⟩⟩
      · cases hgetb
      · cases hgetc
      · cases hgetd
      cases hgetb
      cases hgetc
      cases hgetd
      cases h
      exact ⟨[a, b, c, d], l, rfl,
        reads_four.mpr ⟨⟨by omega, by omega, hbt, hct, hdt⟩, rfl⟩, rfl⟩
    · cases h
  · cases h

/-- A code word at the front of the rest is what the decoder takes. -/
theorem unicodeCptFromUtf8_reads {offset : Nat} {part rest : Bytes}
    (heq : utf8.drop offset = part ++ rest) (hreads : Reads part cp) :
    unicodeCptFromUtf8 utf8 offset = .ok (cp, offset + part.length) := by
  have hlt : offset < utf8.length ↔ utf8.drop offset ≠ [] := by simp
  have hb := continues_iff utf8 offset
  simp only [unicodeCptFromUtf8, getD_drop, hlt, Bool.and_eq_true, hb]
  rw [heq]
  rcases part with _ | ⟨a, part⟩
  · cases hreads
  simp only [List.cons_append, ne_eq, reduceCtorEq, not_false_eq_true, not_true_eq_false,
    if_false, List.getD_cons_zero, and_bit_eq_zero a 0x80 7 rfl, and_bit_eq_zero a 0x40 6 rfl,
    and_bit_eq_zero a 0x20 5 rfl, and_bit_eq_zero a 0x10 4 rfl, and_bit_eq_zero a 0x08 3 rfl,
    List.getElem?_cons_succ]
  rcases part with _ | ⟨b, _ | ⟨c, _ | ⟨d, _ | ⟨e, part⟩⟩⟩⟩
  · obtain ⟨hlow, rfl⟩ := reads_one.mp hreads
    rw [if_pos (by omega)]
    rfl
  · obtain ⟨⟨hlow, hhigh, hb⟩, rfl⟩ := reads_two.mp hreads
    rw [if_neg (by omega), if_neg (by omega), if_pos (by omega), if_pos (by simpa using hb)]
    rfl
  · obtain ⟨⟨hlow, hhigh, hb, hc⟩, rfl⟩ := reads_three.mp hreads
    rw [if_neg (by omega), if_neg (by omega), if_neg (by omega), if_pos (by omega),
      if_pos (by simpa using ⟨hb, hc⟩)]
    rfl
  · obtain ⟨⟨hlow, hhigh, hb, hc, hd⟩, rfl⟩ := reads_four.mp hreads
    rw [if_neg (by omega), if_neg (by omega), if_neg (by omega), if_neg (by omega),
      if_pos (by omega), if_pos (by simpa using ⟨⟨hb, hc⟩, hd⟩)]
    rfl
  · have hlen := hreads.length_le
    simp only [List.length_cons] at hlen
    omega

theorem prefixCode_reads : PrefixCode Reads :=
  Utf8.prefixCode_form.comap (fun _ _ h => UInt8.toNat_inj.mp h)
    (fun _ _ h => UInt32.toNat_inj.mp h)

/-- At the end of the text there is nothing left to read. -/
theorem reads_nil : [] = cps ↔ ∃ parts, List.Forall₂ Reads parts cps ∧ [] = parts.flatten := by
  constructor
  · rintro rfl
    exact ⟨[], .nil, rfl⟩
  · rintro ⟨parts, hparts, hnil⟩
    exact (prefixCode_reads.flatten_eq_nil hparts hnil.symm).symm

/-- The rounds take the rest of the text apart into code words. -/
theorem cptsFrom_ok {rounds offset : Nat} (h : utf8.length ≤ offset + rounds) :
    cptsFrom utf8 rounds offset = .ok cps ↔
      ∃ parts, List.Forall₂ Reads parts cps ∧ utf8.drop offset = parts.flatten := by
  induction rounds generalizing offset cps with
  | zero =>
      have hdrop : utf8.drop offset = [] := by simpa using h
      simpa only [cptsFrom, Except.ok.injEq, hdrop] using reads_nil
  | succ rounds ih =>
      simp only [cptsFrom]
      by_cases hlt : offset < utf8.length
      · rw [if_pos hlt]
        constructor
        · intro hrun
          cases hstep : unicodeCptFromUtf8 utf8 offset with
          | error fault => simp [hstep] at hrun
          | ok took =>
              obtain ⟨cp, next⟩ := took
              obtain ⟨part, rest, hdrop, hreads, rfl⟩ := unicodeCptFromUtf8_sound hstep
              have hpos := List.length_pos_of_ne_nil (prefixCode_reads.ne_nil hreads)
              simp only [hstep] at hrun
              cases hrest : cptsFrom utf8 rounds (offset + part.length) with
              | error fault => simp [hrest, Except.map] at hrun
              | ok more =>
                  obtain ⟨parts, hparts, hflat⟩ := (ih (by omega)).mp hrest
                  simp only [hrest, Except.map, Except.ok.injEq] at hrun
                  subst hrun
                  refine ⟨part :: parts, .cons hreads hparts, ?_⟩
                  rw [List.flatten_cons, ← hflat, ← List.drop_drop, hdrop, List.drop_left]
        · rintro ⟨parts, hparts, hflat⟩
          cases hparts with
          | nil => simp at hflat; omega
          | @cons part cp parts more hreads hparts =>
              have hpos := List.length_pos_of_ne_nil (prefixCode_reads.ne_nil hreads)
              rw [List.flatten_cons] at hflat
              have hrest : utf8.drop (offset + part.length) = parts.flatten := by
                rw [← List.drop_drop, hflat, List.drop_left]
              simp only [unicodeCptFromUtf8_reads hflat hreads,
                (ih (by omega)).mpr ⟨parts, hparts, hrest⟩, Except.map]
      · have hdrop : utf8.drop offset = [] := by simpa using hlt
        simpa only [if_neg hlt, hdrop, Except.ok.injEq] using reads_nil

/-- The texts that decode are those made of code words, and each decodes to the
code points of its words. -/
theorem unicodeCptsFromUtf8_ok : unicodeCptsFromUtf8 utf8 = .ok cps ↔
    ∃ parts, List.Forall₂ Reads parts cps ∧ utf8 = parts.flatten := by
  simpa [unicodeCptsFromUtf8] using @cptsFrom_ok utf8 cps utf8.length 0 (by omega)

theorem toNat_bytes_injective : Function.Injective (List.map UInt8.toNat) :=
  List.map_injective_iff.mpr fun _ _ h => UInt8.toNat_inj.mp h

/-- The text of a code point is a code word of it, and the shortest one. -/
theorem reads_of_toUtf8 {text : Bytes} (h : unicodeCptToUtf8 cp = .ok text) : Reads text cp := by
  obtain ⟨hlt, text', htext, hword⟩ | ⟨-, herror⟩ := unicodeCptToUtf8_eq cp
  · cases h.symm.trans htext
    rw [Reads, hword]
    exact Utf8.form_encode (by omega)
  · cases h.symm.trans herror

theorem Reads.shortest {part text : Bytes} (h : Reads part cp)
    (htext : unicodeCptToUtf8 cp = .ok text) :
    text.length ≤ part.length ∧ (part.length = text.length → part = text) := by
  obtain ⟨-, text', htext', hword⟩ | ⟨-, herror⟩ := unicodeCptToUtf8_eq cp
  · cases htext.symm.trans htext'
    have hlen : text.length = (Utf8.encode cp.toNat).length := by
      rw [← hword, List.length_map]
    have hle := h.length_encode
    rw [List.length_map] at hle
    constructor
    · omega
    · intro heq
      apply toNat_bytes_injective
      rw [hword]
      exact h.eq_encode (by rw [List.length_map]; omega)
  · cases htext.symm.trans herror

theorem shortest_flatten {parts texts : List Bytes} (hparts : List.Forall₂ Reads parts cps)
    (htexts : List.Forall₂ (fun cp text => unicodeCptToUtf8 cp = .ok text) cps texts) :
    texts.flatten.length ≤ parts.flatten.length ∧
      (parts.flatten.length = texts.flatten.length → parts.flatten = texts.flatten) := by
  induction hparts generalizing texts with
  | nil =>
      cases htexts
      simp
  | @cons part cp parts cps hreads _ ih =>
      cases htexts with
      | @cons _ text _ texts htext hrest =>
          obtain ⟨hle, heq⟩ := hreads.shortest htext
          obtain ⟨hles, heqs⟩ := ih hrest
          simp only [List.flatten_cons, List.length_append]
          constructor
          · omega
          · intro hlen
            rw [heq (by omega), heqs (by omega)]

/-- A text decodes exactly when it is made of code words, which it is in one way
only. The text of code points decodes to them, and every other text that does is
longer. -/
theorem texts_of_code_points (utf8 : Bytes) (cps : List UInt32) :
    (unicodeCptsFromUtf8 utf8 = .ok cps ↔
      ∃! parts, List.Forall₂ Reads parts cps ∧ utf8 = parts.flatten) ∧
    ∀ texts, cps.mapM unicodeCptToUtf8 = .ok texts →
      unicodeCptsFromUtf8 texts.flatten = .ok cps ∧
      (unicodeCptsFromUtf8 utf8 = .ok cps → utf8 ≠ texts.flatten →
        texts.flatten.length < utf8.length) := by
  refine ⟨?_, fun texts htexts => ?_⟩
  · rw [unicodeCptsFromUtf8_ok]
    constructor
    · rintro ⟨parts, hparts, hflat⟩
      refine ⟨parts, ⟨hparts, hflat⟩, fun parts' ⟨hparts', hflat'⟩ => ?_⟩
      exact (prefixCode_reads.unique hparts' hparts (hflat'.symm.trans hflat)).1
    · rintro ⟨parts, hparts, -⟩
      exact ⟨parts, hparts⟩
  · have htexts := mapM_eq_ok_iff.mp htexts
    constructor
    · refine unicodeCptsFromUtf8_ok.mpr ⟨texts, ?_, rfl⟩
      exact List.Forall₂.flip (htexts.imp fun _ _ h => reads_of_toUtf8 h)
    · intro h hne
      obtain ⟨parts, hparts, rfl⟩ := unicodeCptsFromUtf8_ok.mp h
      obtain ⟨hle, heq⟩ := shortest_flatten hparts htexts
      exact lt_of_le_of_ne hle fun hlen => hne (heq hlen.symm)

end Decoding

end DashInfer.Tokenizer
