import Mathlib

/-!
`MD5Impl`, which hashes the start of a weight file. The counter of its loop over
the blocks has 32 bits and the length it is compared with has 64, so for 4 GiB
and more the loop does not end.
-/

namespace DashInfer.Guard

def rotateLeft (num n : UInt32) : UInt32 := (num <<< n) ||| (num >>> (32 - n))

def mixF (x y z : UInt32) : UInt32 := (x &&& y) ||| (~~~x &&& z)

def mixG (x y z : UInt32) : UInt32 := (x &&& z) ||| (y &&& ~~~z)

def mixH (x y z : UInt32) : UInt32 := x ^^^ y ^^^ z

def mixI (x y z : UInt32) : UInt32 := y ^^^ (x ||| ~~~z)

structure Md5Words where
  a : UInt32
  b : UInt32
  c : UInt32
  d : UInt32
deriving DecidableEq, Repr

/-- One `FF`, `GG`, `HH` or `II`. The next one has the words in the order
`d, a, b, c`. -/
def Md5Words.operate (mix : UInt32 → UInt32 → UInt32 → UInt32) (x : List UInt32) (w : Md5Words)
    (op : Nat × UInt32 × UInt32) : Md5Words :=
  let a := w.a + (mix w.b w.c w.d + x.getD op.1 0 + op.2.2)
  ⟨w.d, rotateLeft a op.2.1 + w.b, w.b, w.c⟩

def round1 : List (Nat × UInt32 × UInt32) := [
  (0, 7, 0xd76aa478), (1, 12, 0xe8c7b756), (2, 17, 0x242070db), (3, 22, 0xc1bdceee),
  (4, 7, 0xf57c0faf), (5, 12, 0x4787c62a), (6, 17, 0xa8304613), (7, 22, 0xfd469501),
  (8, 7, 0x698098d8), (9, 12, 0x8b44f7af), (10, 17, 0xffff5bb1), (11, 22, 0x895cd7be),
  (12, 7, 0x6b901122), (13, 12, 0xfd987193), (14, 17, 0xa679438e), (15, 22, 0x49b40821)]

def round2 : List (Nat × UInt32 × UInt32) := [
  (1, 5, 0xf61e2562), (6, 9, 0xc040b340), (11, 14, 0x265e5a51), (0, 20, 0xe9b6c7aa),
  (5, 5, 0xd62f105d), (10, 9, 0x02441453), (15, 14, 0xd8a1e681), (4, 20, 0xe7d3fbc8),
  (9, 5, 0x21e1cde6), (14, 9, 0xc33707d6), (3, 14, 0xf4d50d87), (8, 20, 0x455a14ed),
  (13, 5, 0xa9e3e905), (2, 9, 0xfcefa3f8), (7, 14, 0x676f02d9), (12, 20, 0x8d2a4c8a)]

def round3 : List (Nat × UInt32 × UInt32) := [
  (5, 4, 0xfffa3942), (8, 11, 0x8771f681), (11, 16, 0x6d9d6122), (14, 23, 0xfde5380c),
  (1, 4, 0xa4beea44), (4, 11, 0x4bdecfa9), (7, 16, 0xf6bb4b60), (10, 23, 0xbebfbc70),
  (13, 4, 0x289b7ec6), (0, 11, 0xeaa127fa), (3, 16, 0xd4ef3085), (6, 23, 0x04881d05),
  (9, 4, 0xd9d4d039), (12, 11, 0xe6db99e5), (15, 16, 0x1fa27cf8), (2, 23, 0xc4ac5665)]

def round4 : List (Nat × UInt32 × UInt32) := [
  (0, 6, 0xf4292244), (7, 10, 0x432aff97), (14, 15, 0xab9423a7), (5, 21, 0xfc93a039),
  (12, 6, 0x655b59c3), (3, 10, 0x8f0ccc92), (10, 15, 0xffeff47d), (1, 21, 0x85845dd1),
  (8, 6, 0x6fa87e4f), (15, 10, 0xfe2ce6e0), (6, 15, 0xa3014314), (13, 21, 0x4e0811a1),
  (4, 6, 0xf7537e82), (11, 10, 0xbd3af235), (2, 15, 0x2ad7d2bb), (9, 21, 0xeb86d391)]

def decode : List UInt8 → List UInt32
  | b₀ :: b₁ :: b₂ :: b₃ :: rest =>
      (b₀.toUInt32 ||| b₁.toUInt32 <<< 8 ||| b₂.toUInt32 <<< 16 ||| b₃.toUInt32 <<< 24) ::
        decode rest
  | _ => []

def encode (input : List UInt32) : List UInt8 :=
  input.flatMap fun word : UInt32 =>
    [(word &&& 0xff).toUInt8, ((word >>> 8) &&& 0xff).toUInt8, ((word >>> 16) &&& 0xff).toUInt8,
      ((word >>> 24) &&& 0xff).toUInt8]

def Md5Words.transform (state : Md5Words) (block : List UInt8) : Md5Words :=
  let x := decode block
  let w := round1.foldl (operate mixF x) state
  let w := round2.foldl (operate mixG x) w
  let w := round3.foldl (operate mixH x) w
  let w := round4.foldl (operate mixI x) w
  ⟨state.a + w.a, state.b + w.b, state.c + w.c, state.d + w.d⟩

structure Md5Impl where
  state : Md5Words
  count₀ : UInt32
  count₁ : UInt32
  buffer : List UInt8
deriving DecidableEq, Repr

namespace Md5Impl

/-- `memcpy(&buffer[index], data, ..)`. -/
def overlay (buffer : List UInt8) (index : Nat) (data : List UInt8) : List UInt8 :=
  buffer.take index ++ data ++ buffer.drop (index + data.length)

/-- The loop over the whole blocks of the input. -/
def blocks (input : List UInt8) : Nat → UInt32 → Md5Words → Option (UInt32 × Md5Words)
  | 0, _, _ => none
  | turns + 1, i, state =>
      if (i + 63).toNat < input.length then
        blocks input turns (i + 64) (state.transform ((input.drop i.toNat).take 64))
      else some (i, state)

def index (m : Md5Impl) : UInt32 := (m.count₀ >>> 3) &&& 0x3f

/-- The bits that the input adds to the count. -/
def counted (input : List UInt8) (m : Md5Impl) : Md5Impl :=
  let len := input.length.toUInt32
  let count₀ := m.count₀ + len <<< 3
  { m with
    count₀
    count₁ := m.count₁ + (if count₀ < len <<< 3 then (1 : UInt32) else 0) + len >>> 29 }

def init (turns : Nat) (input : List UInt8) (m : Md5Impl) : Option Md5Impl :=
  let index := m.index
  let m := m.counted input
  let part := 64 - index
  if part.toNat ≤ input.length then
    let buffer := overlay m.buffer index.toNat (input.take part.toNat)
    (blocks input turns part (m.state.transform buffer)).map fun stop =>
      { m with state := stop.2, buffer := overlay buffer 0 (input.drop stop.1.toNat) }
  else some { m with buffer := overlay m.buffer index.toNat input }

/-- The members when a hash starts. What the buffer holds then is never read. -/
def start : Md5Impl := ⟨⟨0x67452301, 0xefcdab89, 0x98badcfe, 0x10325476⟩, 0, 0, List.replicate 64 0⟩

def padLen (index : UInt32) : UInt32 := if index < 56 then 56 - index else 120 - index

def padding : List UInt8 := 0x80 :: List.replicate 63 0

/-- `MD5Impl::operator()`; `none` while the loop over the blocks goes on. -/
def hash (turns : Nat) (msg : List UInt8) : Option (List UInt8) :=
  match start.init turns msg with
  | none => none
  | some m =>
      match m.init turns (padding.take (padLen m.index).toNat) with
      | none => none
      | some padded =>
          match padded.init turns (encode [m.count₀, m.count₁]) with
          | none => none
          | some m => some (encode [m.state.a, m.state.b, m.state.c, m.state.d])

section Loop

variable {input : List UInt8}

theorem toNat_add_63 {i : UInt32} (h : i.toNat + 63 < 2 ^ 32) : (i + 63).toNat = i.toNat + 63 := by
  rw [UInt32.toNat_add]
  exact Nat.mod_eq_of_lt h

/-- A counter of 32 bits never comes to the end of 4 GiB. -/
theorem blocks_eq_none (h : 2 ^ 32 ≤ input.length) (turns : Nat) (i : UInt32) (state : Md5Words) :
    blocks input turns i state = none := by
  induction turns generalizing i state with
  | zero => rfl
  | succ turns ih =>
      have hlt : (i + 63).toNat < input.length := (i + 63).toNat_lt.trans_le h
      rw [blocks, if_pos hlt]
      exact ih _ _

/-- From the start of a block the loop ends at the last one that is whole. -/
theorem blocks_isSome (h : input.length < 2 ^ 32) {turns : Nat} {i : UInt32} (hi : 64 ∣ i.toNat)
    (hle : i.toNat ≤ input.length) (hturns : input.length < i.toNat + 64 * turns)
    (state : Md5Words) :
    (blocks input turns i state).isSome = true := by
  induction turns generalizing i state with
  | zero => exact absurd hturns (not_lt.mpr hle)
  | succ turns ih =>
      have hroom : i.toNat + 63 < 2 ^ 32 := by
        have hlt := i.toNat_lt
        omega
      rw [blocks, toNat_add_63 hroom]
      split
      case isTrue hwhole =>
        have hnext : (i + 64).toNat = i.toNat + 64 := by
          rw [UInt32.toNat_add]
          exact Nat.mod_eq_of_lt (by change i.toNat + 64 < 2 ^ 32; omega)
        apply ih
        · rw [hnext]
          exact (Nat.dvd_add_right hi).mpr dvd_rfl
        · rw [hnext]
          exact hwhole
        · rw [hnext]
          omega
      case isFalse => rfl

theorem toNat_index_lt (m : Md5Impl) : m.index.toNat < 64 := by
  unfold index
  rw [UInt32.toNat_and]
  exact Nat.and_lt_two_pow _ (by decide : (0x3f : UInt32).toNat < 2 ^ 6)

theorem toNat_part (m : Md5Impl) : (64 - m.index).toNat = 64 - m.index.toNat := by
  have h := m.toNat_index_lt
  exact UInt32.toNat_sub_of_le _ _ (UInt32.le_iff_toNat_le.mpr h.le)

/-- What is hashed after the message is no longer than a block. -/
theorem init_isSome (m : Md5Impl) (h : input.length ≤ 64) {turns : Nat} (hturns : 0 < turns) :
    (m.init turns input).isSome = true := by
  obtain ⟨turns, rfl⟩ := Nat.exists_eq_add_of_lt hturns
  have hlt := m.toNat_index_lt
  have hpart := m.toNat_part
  have hstop : ¬((64 - m.index) + 63).toNat < input.length := by
    rw [toNat_add_63 (by omega)]
    omega
  unfold init
  dsimp only
  split
  case isTrue =>
    rw [blocks, if_neg hstop]
    rfl
  case isFalse => rfl

/-- The hash of up to 4 GiB is there after a turn for each block. -/
theorem hash_isSome (h : input.length < 2 ^ 32) {turns : Nat} (hturns : input.length < 64 * turns) :
    (hash turns input).isSome = true := by
  have hpos : 0 < turns := by omega
  have hpart : (64 - start.index).toNat = 64 := rfl
  have hfirst : (start.init turns input).isSome = true := by
    unfold init
    dsimp only
    split
    case isTrue hlong =>
      rw [Option.isSome_map]
      apply blocks_isSome h
      · rw [hpart]
      · exact hlong
      · rw [hpart]
        omega
    case isFalse => rfl
  obtain ⟨m, hm⟩ := Option.isSome_iff_exists.mp hfirst
  have hpadding : (padding.take (padLen m.index).toNat).length ≤ 64 := List.length_take_le' _ _
  obtain ⟨padded, hpadded⟩ := Option.isSome_iff_exists.mp (m.init_isSome hpadding hpos)
  have hbits : (encode [m.count₀, m.count₁]).length ≤ 64 := Nat.le_of_ble_eq_true rfl
  obtain ⟨last, hlast⟩ := Option.isSome_iff_exists.mp (padded.init_isSome hbits hpos)
  unfold hash
  simp only [hm, hpadded, hlast, Option.isSome_some]

theorem hash_eq_none (h : 2 ^ 32 ≤ input.length) (turns : Nat) : hash turns input = none := by
  have hlong : (64 - start.index).toNat ≤ input.length := by
    change 64 ≤ input.length
    omega
  unfold hash init
  dsimp only
  rw [if_pos hlong, blocks_eq_none h]
  rfl

theorem blocks_mono {turns turns' : Nat} (hle : turns ≤ turns') {i : UInt32} {state : Md5Words}
    {stop : UInt32 × Md5Words} (h : blocks input turns i state = some stop) :
    blocks input turns' i state = some stop := by
  induction turns generalizing turns' i state with
  | zero => cases h
  | succ turns ih =>
      obtain ⟨k, rfl⟩ := Nat.exists_eq_add_of_le' (Nat.pos_of_ne_zero (Nat.ne_zero_of_lt hle))
      rw [blocks] at h ⊢
      split at h
      case isTrue hwhole =>
        rw [if_pos hwhole]
        exact ih (Nat.le_of_succ_le_succ hle) h
      case isFalse hwhole =>
        rw [if_neg hwhole]
        exact h

theorem init_mono {turns turns' : Nat} (hle : turns ≤ turns') {m m' : Md5Impl}
    (h : m.init turns input = some m') : m.init turns' input = some m' := by
  unfold init at h ⊢
  dsimp only at h ⊢
  split at h
  case isTrue hlong =>
    rw [if_pos hlong]
    obtain ⟨stop, hstop, rfl⟩ := Option.map_eq_some_iff.mp h
    rw [blocks_mono hle hstop]
    rfl
  case isFalse hlong =>
    rw [if_neg hlong]
    exact h

/-- More turns do not change the hash. -/
theorem hash_mono {turns turns' : Nat} (hle : turns ≤ turns') {digest : List UInt8}
    (h : hash turns input = some digest) : hash turns' input = some digest := by
  unfold hash at h
  split at h
  case h_1 => cases h
  case h_2 m hm =>
    split at h
    case h_1 => cases h
    case h_2 padded hpadded =>
      split at h
      case h_1 => cases h
      case h_2 last hlast =>
        unfold hash
        simp only [init_mono hle hm, init_mono hle hpadded, init_mono hle hlast]
        exact h

end Loop

example : hash 1 [0x61, 0x62, 0x63] = some [0x90, 0x01, 0x50, 0x98, 0x3c, 0xd2, 0x4f, 0xb0, 0xd6,
    0x96, 0x3f, 0x7d, 0x28, 0xe1, 0x7f, 0x72] := by decide +kernel

end Md5Impl

end DashInfer.Guard
