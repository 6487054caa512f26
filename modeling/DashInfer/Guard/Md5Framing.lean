import DashInfer.Guard.Md5
import DashInfer.WeightFile.Sparse

/-!
Which blocks `MD5Impl` hands to its `transform`. A message below 4 GiB is framed
as the standard has it; from 4 GiB on the loop over its blocks does not end.
-/

namespace DashInfer.Guard

open WeightFile (littleEndian)

/-- The blocks of 64 bytes that lie one after the other in `data`. -/
def wholeBlocks (data : List UInt8) : List (List UInt8) :=
  (List.range (data.length / 64)).map fun k => (data.drop (64 * k)).take 64

/-- What the standard puts behind a message of `n` bytes: a one bit, zeros up to
the last eight bytes of a block, and the number of bits. -/
def standardPadding (n : Nat) : List UInt8 :=
  0x80 :: List.replicate ((119 - n % 64) % 64) 0 ++ littleEndian 8 (8 * n)

section Blocks

variable {data more : List UInt8}

theorem wholeBlocks_short (h : data.length < 64) : wholeBlocks data = [] := by
  unfold wholeBlocks
  rw [Nat.div_eq_of_lt h]
  rfl

theorem wholeBlocks_block (h : data.length = 64) : wholeBlocks data = [data] := by
  have htake : data.take 64 = data := List.take_of_length_le h.le
  simp [wholeBlocks, h, htake]

theorem wholeBlocks_append (h : 64 ∣ data.length) :
    wholeBlocks (data ++ more) = wholeBlocks data ++ wholeBlocks more := by
  obtain ⟨n, hn⟩ := h
  have hcount : (data ++ more).length / 64 = n + more.length / 64 := by
    rw [List.length_append, hn]
    omega
  have hdata : data.length / 64 = n := by omega
  unfold wholeBlocks
  rw [hcount, hdata, List.range_add, List.map_append, List.map_map]
  congr 1
  case e_a =>
    apply List.map_congr_left
    intro k hk
    have hlt : k < n := List.mem_range.mp hk
    have hroom : 64 ≤ (data.drop (64 * k)).length := by
      rw [List.length_drop]
      omega
    rw [List.drop_append_of_le_length (by omega), List.take_append_of_le_length hroom]
  case e_a =>
    apply List.map_congr_left
    intro k _
    have hskip : 64 * (n + k) = data.length + 64 * k := by omega
    have hpast : data.drop (data.length + 64 * k) = [] := List.drop_eq_nil_of_le (by omega)
    simp only [Function.comp_apply, hskip, List.drop_append, hpast, List.nil_append,
      Nat.add_sub_cancel_left]

end Blocks

namespace Md5Impl

/-- The blocks that the loop hands to `transform`, with the index it stops at. -/
def fedBlocks (input : List UInt8) : Nat → UInt32 → Option (UInt32 × List (List UInt8))
  | 0, _ => none
  | turns + 1, i =>
      if (i + 63).toNat < input.length then
        (fedBlocks input turns (i + 64)).map fun stop =>
          (stop.1, (input.drop i.toNat).take 64 :: stop.2)
      else some (i, [])

/-- The blocks that `init` hands to `transform`. -/
def fed (turns : Nat) (input : List UInt8) (m : Md5Impl) : Option (List (List UInt8)) :=
  let part := 64 - m.index
  if part.toNat ≤ input.length then
    (fedBlocks input turns part).map fun stop =>
      overlay m.buffer m.index.toNat (input.take part.toNat) :: stop.2
  else some []

/-- All that `transform` gets while the message is hashed. -/
def transformed (turns : Nat) (msg : List UInt8) : Option (List (List UInt8)) :=
  match start.fed turns msg, start.init turns msg with
  | some message, some m =>
      let zeros := padding.take (padLen m.index).toNat
      match m.fed turns zeros, m.init turns zeros with
      | some filling, some padded =>
          (padded.fed turns (encode [m.count₀, m.count₁])).map fun bits =>
            message ++ filling ++ bits
      | _, _ => none
  | _, _ => none

/-- The message and the padding go through `transform` block by block, and the
loop over them ends. -/
def FramesMessage (msg : List UInt8) : Prop :=
  let framed := wholeBlocks (msg ++ standardPadding msg.length)
  let words := framed.foldl Md5Words.transform start.state
  ∃ turns, transformed turns msg = some framed ∧
    hash turns msg = some (encode [words.a, words.b, words.c, words.d])

section Loop

variable {input : List UInt8}

/-- The state is that of the blocks handed over. -/
theorem blocks_eq_foldl (turns : Nat) (i : UInt32) (state : Md5Words) :
    blocks input turns i state = (fedBlocks input turns i).map fun stop =>
      (stop.1, stop.2.foldl Md5Words.transform state) := by
  induction turns generalizing i state with
  | zero => rfl
  | succ turns ih =>
      rw [blocks, fedBlocks]
      split
      case isTrue => simp only [ih, Option.map_map, Function.comp_def, List.foldl_cons]
      case isFalse => rfl

/-- The index does not wrap: the input ends well below 4 GiB, or the index stays
at the start of a block. -/
def Room (input : List UInt8) (i : UInt32) : Prop :=
  input.length ≤ 64 ∨ 64 ∣ i.toNat ∧ input.length < 2 ^ 32

theorem Room.toNat_add_63 {i : UInt32} (h : Room input i) (hle : i.toNat ≤ input.length) :
    (i + 63).toNat = i.toNat + 63 := by
  have hlt := i.toNat_lt
  apply Md5Impl.toNat_add_63
  obtain hshort | ⟨hdvd, hlong⟩ := h
  · omega
  · omega

theorem Room.next {i : UInt32} (h : Room input i) (hwhole : i.toNat + 63 < input.length) :
    (i + 64).toNat = i.toNat + 64 ∧ Room input (i + 64) := by
  have hnext : (i + 64).toNat = i.toNat + 64 := by
    rw [UInt32.toNat_add]
    apply Nat.mod_eq_of_lt
    change i.toNat + 64 < 2 ^ 32
    obtain hshort | ⟨hdvd, hlong⟩ := h
    · omega
    · have hlt := i.toNat_lt
      omega
  refine ⟨hnext, ?_⟩
  obtain hshort | ⟨hdvd, hlong⟩ := h
  · exact .inl hshort
  · exact .inr ⟨hnext ▸ (Nat.dvd_add_right hdvd).mpr dvd_rfl, hlong⟩

/-- The loop hands over the whole blocks from its index on and stops with less
than a block left. -/
theorem fedBlocks_eq {turns : Nat} {i : UInt32} (hroom : Room input i)
    (hle : i.toNat ≤ input.length) (hturns : input.length < i.toNat + 64 * turns) :
    ∃ stop whole, fedBlocks input turns i = some (stop, wholeBlocks whole) ∧
      input.drop i.toNat = whole ++ input.drop stop.toNat ∧ 64 ∣ whole.length ∧
      (input.drop stop.toNat).length < 64 := by
  induction turns generalizing i with
  | zero => exact absurd hturns (not_lt.mpr hle)
  | succ turns ih =>
      rw [fedBlocks, hroom.toNat_add_63 hle]
      split
      case isTrue hwhole =>
        obtain ⟨hnext, hroom'⟩ := hroom.next hwhole
        obtain ⟨stop, whole, hfed, hsplit, hdvd, hrest⟩ :=
          ih hroom' (by rw [hnext]; exact hwhole) (by rw [hnext]; omega)
        have hblock : ((input.drop i.toNat).take 64).length = 64 := by
          rw [List.length_take, List.length_drop]
          omega
        refine ⟨stop, (input.drop i.toNat).take 64 ++ whole, ?_, ?_, ?_, hrest⟩
        · rw [hfed, wholeBlocks_append (by rw [hblock]), wholeBlocks_block hblock]
          rfl
        · rw [List.append_assoc, ← hsplit, hnext, ← List.drop_drop, List.take_append_drop]
        · rw [List.length_append, hblock]
          exact (Nat.dvd_add_right dvd_rfl).mpr hdvd
      case isFalse hwhole =>
        refine ⟨i, [], by rw [wholeBlocks_short (by decide)], rfl, dvd_zero 64, ?_⟩
        rw [List.length_drop]
        omega

end Loop

/-- The members after `whole ++ rest`: the blocks of `whole` have gone through
`transform`, and the buffer holds `rest`. -/
structure Absorbed (m : Md5Impl) (whole rest : List UInt8) : Prop where
  aligned : 64 ∣ whole.length
  short : rest.length < 64
  count : m.count₀.toNat = 8 * (whole.length + rest.length) % 2 ^ 32
  size : m.buffer.length = 64
  held : m.buffer.take rest.length = rest
  state : m.state = (wholeBlocks whole).foldl Md5Words.transform start.state

theorem absorbed_start : Absorbed start [] [] where
  aligned := dvd_zero 64
  short := Nat.zero_lt_succ 63
  count := rfl
  size := rfl
  held := rfl
  state := rfl

section Absorb

variable {m : Md5Impl} {whole rest input : List UInt8}

theorem Absorbed.toNat_index (h : Absorbed m whole rest) : m.index.toNat = rest.length := by
  have hcount := h.count
  have hshort := h.short
  obtain ⟨n, hn⟩ := h.aligned
  have hshift : (m.count₀ >>> 3).toNat = m.count₀.toNat / 8 := by
    rw [UInt32.toNat_shiftRight]
    exact Nat.shiftRight_eq_div_pow _ 3
  have hmask : m.index.toNat = m.count₀.toNat / 8 % 64 := by
    unfold index
    rw [UInt32.toNat_and, hshift]
    exact Nat.and_two_pow_sub_one_eq_mod _ 6
  rw [hmask, hcount, hn]
  omega

theorem toNat_counted (input : List UInt8) (m : Md5Impl) :
    (m.counted input).count₀.toNat = (m.count₀.toNat + 8 * input.length) % 2 ^ 32 := by
  have hshift : (input.length.toUInt32 <<< 3).toNat = 8 * input.length % 2 ^ 32 := by
    rw [UInt32.toNat_shiftLeft, Nat.toUInt32_eq, UInt32.toNat_ofNat', Nat.shiftLeft_eq]
    change input.length % 2 ^ 32 * 2 ^ 3 % 2 ^ 32 = _
    omega
  change (m.count₀ + input.length.toUInt32 <<< 3).toNat = _
  rw [UInt32.toNat_add, hshift]
  omega

theorem take_overlay_zero (buffer data : List UInt8) :
    (overlay buffer 0 data).take data.length = data := by
  simp [overlay]

theorem length_overlay_zero {buffer data : List UInt8} (h : data.length ≤ buffer.length) :
    (overlay buffer 0 data).length = buffer.length := by
  simp [overlay, h]

/-- What `init` leaves when the input completes a block. -/
theorem init_long {turns : Nat} {stop : UInt32} {log : List (List UInt8)}
    (hle : (64 - m.index).toNat ≤ input.length)
    (hfed : fedBlocks input turns (64 - m.index) = some (stop, log)) :
    m.init turns input = some { m.counted input with
      state := (overlay m.buffer m.index.toNat (input.take (64 - m.index).toNat) :: log).foldl
        Md5Words.transform m.state
      buffer := overlay (overlay m.buffer m.index.toNat (input.take (64 - m.index).toNat)) 0
        (input.drop stop.toNat) } := by
  unfold init
  dsimp only
  rw [if_pos hle, blocks_eq_foldl, hfed]
  rfl

theorem fed_long {turns : Nat} {stop : UInt32} {log : List (List UInt8)}
    (hle : (64 - m.index).toNat ≤ input.length)
    (hfed : fedBlocks input turns (64 - m.index) = some (stop, log)) :
    m.fed turns input =
      some (overlay m.buffer m.index.toNat (input.take (64 - m.index).toNat) :: log) := by
  unfold fed
  dsimp only
  rw [if_pos hle, hfed]
  rfl

/-- An input that completes a block goes through `transform` with what the buffer
held. -/
theorem Absorbed.init_of_le (h : Absorbed m whole rest) {turns : Nat}
    (hroom : input.length ≤ 64 ∨ rest = [] ∧ input.length < 2 ^ 32)
    (hturns : input.length < 64 * turns) (hlong : 64 ≤ rest.length + input.length) :
    ∃ m' whole' rest' log, m.init turns input = some m' ∧ Absorbed m' whole' rest' ∧
      whole' ++ rest' = whole ++ rest ++ input ∧ m.fed turns input = some log ∧
      wholeBlocks whole' = wholeBlocks whole ++ log := by
  have hshort := h.short
  have hindex := h.toNat_index
  have hpart : (64 - m.index).toNat = 64 - rest.length := by rw [m.toNat_part, hindex]
  have hle : (64 - m.index).toNat ≤ input.length := by omega
  have hroom' : Room input (64 - m.index) := by
    obtain hshort | ⟨rfl, hlt⟩ := hroom
    · exact .inl hshort
    · exact .inr ⟨by rw [hpart]; exact dvd_rfl, hlt⟩
  obtain ⟨stop, tail, hfed, hsplit, hdvd, hrest⟩ :=
    @fedBlocks_eq input turns _ hroom' hle (by omega)
  -- The buffer filled up from the input is the first block handed over.
  have hblock : overlay m.buffer m.index.toNat (input.take (64 - m.index).toNat) =
      rest ++ input.take (64 - rest.length) := by
    have hdrop : m.buffer.drop (rest.length + (input.take (64 - rest.length)).length) = [] := by
      apply List.drop_eq_nil_of_le
      rw [h.size, List.length_take]
      omega
    rw [hpart, hindex, overlay, h.held, hdrop, List.append_nil]
  have hsize : (rest ++ input.take (64 - rest.length)).length = 64 := by
    rw [List.length_append, List.length_take]
    omega
  have hinit := init_long hle hfed
  have hlog := fed_long hle hfed
  rw [hblock] at hinit hlog
  have hwhole : wholeBlocks (whole ++ (rest ++ input.take (64 - rest.length)) ++ tail) =
      wholeBlocks whole ++ (rest ++ input.take (64 - rest.length)) :: wholeBlocks tail := by
    have hdvd' : 64 ∣ (whole ++ (rest ++ input.take (64 - rest.length))).length := by
      rw [List.length_append, hsize]
      exact (Nat.dvd_add_right h.aligned).mpr dvd_rfl
    rw [wholeBlocks_append hdvd', wholeBlocks_append h.aligned, wholeBlocks_block hsize,
      List.append_assoc]
    rfl
  have hall : whole ++ (rest ++ input.take (64 - rest.length)) ++ tail ++ input.drop stop.toNat =
      whole ++ rest ++ input := by
    have htake : input.take (64 - rest.length) ++ (tail ++ input.drop stop.toNat) = input := by
      rw [← hsplit, hpart, List.take_append_drop]
    simp only [List.append_assoc, htake]
  refine ⟨_, _, _, _, hinit, ?_, hall, hlog, hwhole⟩
  constructor
  case aligned =>
    rw [List.length_append, List.length_append, hsize]
    exact (Nat.dvd_add_right ((Nat.dvd_add_right h.aligned).mpr dvd_rfl)).mpr hdvd
  case short => exact hrest
  case count =>
    have hlength := congrArg List.length hall
    rw [List.length_append] at hlength
    change (m.counted input).count₀.toNat = _
    rw [toNat_counted, h.count, hlength, List.length_append, List.length_append]
    omega
  case size =>
    exact (length_overlay_zero (hsize.symm ▸ hrest.le)).trans hsize
  case held => exact take_overlay_zero _ _
  case state => rw [hwhole, List.foldl_append, h.state]

/-- An input that does not complete a block is kept in the buffer. -/
theorem Absorbed.init_of_lt (h : Absorbed m whole rest) (turns : Nat)
    (hlt : rest.length + input.length < 64) :
    ∃ m', m.init turns input = some m' ∧ Absorbed m' whole (rest ++ input) ∧
      m.fed turns input = some [] := by
  have hindex := h.toNat_index
  have hpart : (64 - m.index).toNat = 64 - rest.length := by rw [m.toNat_part, hindex]
  have hle : ¬(64 - m.index).toNat ≤ input.length := by omega
  have hinit : m.init turns input =
      some { m.counted input with buffer := overlay m.buffer m.index.toNat input } := by
    unfold init
    exact if_neg hle
  have hfed : m.fed turns input = some [] := by
    unfold fed
    exact if_neg hle
  have hbuffer : overlay m.buffer m.index.toNat input =
      rest ++ input ++ m.buffer.drop (rest.length + input.length) := by
    rw [hindex, overlay, h.held]
  refine ⟨_, hinit, ?_, hfed⟩
  constructor
  case aligned => exact h.aligned
  case short => rwa [List.length_append]
  case count =>
    change (m.counted input).count₀.toNat = _
    rw [toNat_counted, h.count, List.length_append]
    omega
  case size =>
    change (overlay _ _ _).length = 64
    rw [hbuffer, List.length_append, List.length_append, List.length_drop, h.size]
    omega
  case held =>
    change (overlay _ _ _).take _ = _
    rw [hbuffer]
    exact List.take_left' rfl
  case state => exact h.state

/-- `init` hands over each block that the input completes, and keeps the rest. -/
theorem Absorbed.init (h : Absorbed m whole rest) {turns : Nat}
    (hroom : input.length ≤ 64 ∨ rest = [] ∧ input.length < 2 ^ 32)
    (hturns : input.length < 64 * turns) :
    ∃ m' whole' rest' log, m.init turns input = some m' ∧ Absorbed m' whole' rest' ∧
      whole' ++ rest' = whole ++ rest ++ input ∧ m.fed turns input = some log ∧
      wholeBlocks whole' = wholeBlocks whole ++ log := by
  obtain hlong | hlt := le_or_gt 64 (rest.length + input.length)
  · exact h.init_of_le hroom hturns hlong
  · obtain ⟨m', hinit, habsorbed, hfed⟩ := h.init_of_lt turns hlt
    exact ⟨m', whole, rest ++ input, [], hinit, habsorbed, (List.append_assoc _ _ _).symm, hfed,
      (List.append_nil _).symm⟩

end Absorb

section BitCount

theorem toUInt8_and (word : UInt32) : (word &&& 0xff).toUInt8 = word.toNat.toUInt8 := by
  apply UInt8.toNat_inj.mp
  rw [UInt32.toNat_toUInt8, UInt32.toNat_and, Nat.toUInt8_eq, UInt8.toNat_ofNat']
  have hmask : word.toNat &&& UInt32.toNat 0xff = word.toNat % 256 :=
    Nat.and_two_pow_sub_one_eq_mod _ 8
  rw [hmask]
  exact Nat.mod_mod _ _

/-- A word is written as its four bytes, the low one first. -/
theorem encode_word (word : UInt32) : encode [word] = littleEndian 4 word.toNat := by
  have hshift (k : UInt32) (hk : k.toNat < 32) :
      (word >>> k).toNat = word.toNat / 2 ^ k.toNat := by
    rw [UInt32.toNat_shiftRight, Nat.mod_eq_of_lt hk, Nat.shiftRight_eq_div_pow]
  have h₁ : (word >>> 8).toNat = word.toNat / 256 := hshift 8 (by decide)
  have h₂ : (word >>> 16).toNat = word.toNat / 256 / 256 := by
    rw [Nat.div_div_eq_div_mul]
    exact hshift 16 (by decide)
  have h₃ : (word >>> 24).toNat = word.toNat / 256 / 256 / 256 := by
    rw [Nat.div_div_eq_div_mul, Nat.div_div_eq_div_mul]
    exact hshift 24 (by decide)
  simp only [encode, List.flatMap_cons, List.flatMap_nil, toUInt8_and, littleEndian, h₁, h₂, h₃,
    List.append_nil]

theorem littleEndian_add (a b n : Nat) :
    littleEndian (a + b) n = littleEndian a n ++ littleEndian b (n / 256 ^ a) := by
  induction a generalizing n with
  | zero => simp [littleEndian]
  | succ a ih =>
      rw [Nat.succ_add, littleEndian, littleEndian, ih, Nat.div_div_eq_div_mul, Nat.pow_succ']
      rfl

theorem littleEndian_mod (a n : Nat) : littleEndian a (n % 256 ^ a) = littleEndian a n := by
  induction a generalizing n with
  | zero => rfl
  | succ a ih =>
      have hlow : (n % 256 ^ (a + 1)).toUInt8 = n.toUInt8 := by
        apply UInt8.toNat_inj.mp
        rw [Nat.toUInt8_eq, Nat.toUInt8_eq, UInt8.toNat_ofNat', UInt8.toNat_ofNat']
        exact Nat.mod_mod_of_dvd n (Dvd.intro_left (256 ^ a) rfl)
      have hrest : n % 256 ^ (a + 1) / 256 = n / 256 % 256 ^ a := by
        rw [Nat.pow_succ']
        exact Nat.mod_mul_right_div_self n 256 (256 ^ a)
      rw [littleEndian, littleEndian, hlow, hrest, ih]

theorem encode_pair (low high : UInt32) :
    encode [low, high] = littleEndian 8 (low.toNat + 2 ^ 32 * high.toNat) := by
  have hlow : (low.toNat + 2 ^ 32 * high.toNat) % 256 ^ 4 = low.toNat := by
    have hlt := low.toNat_lt
    omega
  have hhigh : (low.toNat + 2 ^ 32 * high.toNat) / 256 ^ 4 = high.toNat := by
    have hlt := low.toNat_lt
    omega
  rw [littleEndian_add 4 4, ← littleEndian_mod 4, hlow, hhigh, ← encode_word, ← encode_word]
  rfl

variable {input : List UInt8} {m m' : Md5Impl}

/-- Only `counted` changes the count. -/
theorem init_count {turns : Nat} (h : m.init turns input = some m') :
    m'.count₀ = (m.counted input).count₀ ∧ m'.count₁ = (m.counted input).count₁ := by
  unfold init at h
  dsimp only at h
  split at h
  case isTrue =>
    obtain ⟨stop, -, rfl⟩ := Option.map_eq_some_iff.mp h
    exact ⟨rfl, rfl⟩
  case isFalse =>
    cases h
    exact ⟨rfl, rfl⟩

/-- Below 4 GiB the two words of the count hold the number of bits. -/
theorem counted_start (h : input.length < 2 ^ 32) :
    (start.counted input).count₀.toNat + 2 ^ 32 * (start.counted input).count₁.toNat =
      8 * input.length := by
  have hlow : (start.counted input).count₀.toNat = 8 * input.length % 2 ^ 32 := by
    rw [toNat_counted]
    exact congrArg (· % 2 ^ 32) (Nat.zero_add _)
  have hlen : input.length.toUInt32.toNat = input.length := by
    rw [Nat.toUInt32_eq, UInt32.toNat_ofNat']
    exact Nat.mod_eq_of_lt h
  have hcarry : (start.counted input).count₁ = input.length.toUInt32 >>> 29 := by
    -- Nothing is carried: the count starts at zero.
    simp [counted, start]
  have hhigh : (start.counted input).count₁.toNat = input.length / 2 ^ 29 := by
    rw [hcarry, UInt32.toNat_shiftRight, hlen]
    exact Nat.shiftRight_eq_div_pow _ 29
  rw [hlow, hhigh]
  omega

end BitCount

section Framing

variable {m : Md5Impl} {whole rest msg : List UInt8}

/-- The first part of the padding, up to the last eight bytes of a block. -/
theorem Absorbed.zeros (h : Absorbed m whole rest) :
    padding.take (padLen m.index).toNat =
      0x80 :: List.replicate ((119 - rest.length) % 64) 0 := by
  have hindex := h.toNat_index
  have hshort := h.short
  have hlen : (padLen m.index).toNat = (119 - rest.length) % 64 + 1 := by
    unfold padLen
    split
    case isTrue hlt =>
      have hle : m.index ≤ 56 := UInt32.le_of_lt hlt
      have hlt' : m.index.toNat < 56 := UInt32.lt_iff_toNat_lt.mp hlt
      rw [UInt32.toNat_sub_of_le _ _ hle, hindex]
      change 56 - rest.length = _
      omega
    case isFalse hge =>
      have hge' : 56 ≤ m.index.toNat := UInt32.le_iff_toNat_le.mp (UInt32.not_lt.mp hge)
      have hle : m.index ≤ 120 := by
        apply UInt32.le_iff_toNat_le.mpr
        change m.index.toNat ≤ 120
        omega
      rw [UInt32.toNat_sub_of_le _ _ hle, hindex]
      change 120 - rest.length = _
      omega
  have hfit : min ((119 - rest.length) % 64) 63 = (119 - rest.length) % 64 := by omega
  rw [hlen, padding, List.take_succ_cons, List.take_replicate, hfit]

theorem framesMessage_of_lt (h : msg.length < 2 ^ 32) : FramesMessage msg := by
  have hturns : msg.length < 64 * (msg.length / 64 + 2) := by omega
  obtain ⟨m, whole, rest, message, hinit, habs, hmsg, hfed, hblocks⟩ :=
    absorbed_start.init (.inr ⟨rfl, h⟩) hturns
  have hlen : whole.length + rest.length = msg.length := by
    have hlength := congrArg List.length hmsg
    simpa using hlength
  have hrest : rest.length = msg.length % 64 := by
    obtain ⟨n, hn⟩ := habs.aligned
    have hshort := habs.short
    omega
  have hzeros := habs.zeros
  rw [hrest] at hzeros
  have hcount : encode [m.count₀, m.count₁] = littleEndian 8 (8 * msg.length) := by
    obtain ⟨h₀, h₁⟩ := init_count hinit
    rw [encode_pair, h₀, h₁, counted_start h]
  have hfit : (padding.take (padLen m.index).toNat).length ≤ 64 := List.length_take_le' _ _
  obtain ⟨padded, whole₂, rest₂, filling, hinit₂, habs₂, hmsg₂, hfed₂, hblocks₂⟩ :=
    @Absorbed.init _ _ _ _ habs (msg.length / 64 + 2) (.inl hfit) (by omega)
  have hbits : (encode [m.count₀, m.count₁]).length = 8 := rfl
  obtain ⟨last, whole₃, rest₃, bits, hinit₃, habs₃, hmsg₃, hfed₃, hblocks₃⟩ :=
    @Absorbed.init _ _ _ _ habs₂ (msg.length / 64 + 2) (.inl (by rw [hbits]; decide)) (by omega)
  have hframed : whole₃ ++ rest₃ = msg ++ standardPadding msg.length := by
    rw [hmsg₃, hmsg₂, hmsg, hzeros, hcount]
    simp only [List.nil_append, standardPadding, List.append_assoc]
  -- The padding fills the last block, so nothing stays in the buffer.
  have hnil : rest₃ = [] := by
    have hlength := congrArg List.length hframed
    have hshort := habs₃.short
    obtain ⟨n, hn⟩ := habs₃.aligned
    simp only [List.length_append, standardPadding, List.length_cons, List.length_replicate,
      WeightFile.length_littleEndian] at hlength
    apply List.length_eq_zero_iff.mp
    omega
  have hwhole : whole₃ = msg ++ standardPadding msg.length := by
    rw [← hframed, hnil, List.append_nil]
  have hlog : message ++ filling ++ bits = wholeBlocks whole₃ := by
    rw [hblocks₃, hblocks₂, hblocks]
    rfl
  refine ⟨msg.length / 64 + 2, ?_, ?_⟩
  · unfold transformed
    simp only [hfed, hinit, hfed₂, hinit₂, hfed₃, Option.map_some, hlog, hwhole]
  · unfold hash
    simp only [hinit, hinit₂, hinit₃, habs₃.state, hwhole]

/-- The message and its padding are hashed block by block exactly when the
message is below 4 GiB. -/
theorem framesMessage_iff (msg : List UInt8) : FramesMessage msg ↔ msg.length < 2 ^ 32 := by
  constructor
  · intro ⟨turns, _, hhash⟩
    by_contra hlong
    rw [hash_eq_none (not_lt.mp hlong)] at hhash
    cases hhash
  · exact framesMessage_of_lt

/-- The loop over 4 GiB of zeros does not end. -/
theorem four_gib_not_framed : ¬FramesMessage (List.replicate (2 ^ 32) 0) := by
  rintro ⟨turns, -, hhash⟩
  have hlen : 2 ^ 32 ≤ (List.replicate (2 ^ 32) (0 : UInt8)).length := by
    rw [List.length_replicate]
  rw [hash_eq_none hlen] at hhash
  cases hhash

end Framing

end Md5Impl

end DashInfer.Guard
