import DashInfer.Tokenizer.Text

/-!
How a vocabulary spells its tokens. A word piece has its spaces escaped, and a
byte pair token is written in printable characters that stand for bytes.
-/

namespace DashInfer.Tokenizer

open Lib

/-- `std::map<std::string, uint8_t>`. -/
abbrev ByteMap := AList fun _ : Bytes => UInt8

/-- A byte that stands for itself. -/
def mapByte (utf8ToByte : ByteMap) (ch : Nat) : Except Fault ByteMap :=
  if ch < 256 then
    (unicodeCptToUtf8 ch.toUInt32).map fun key => utf8ToByte.insert key ch.toUInt8
  else .error .enforce

def mapOwn (first last : Nat) (utf8ToByte : ByteMap) : Except Fault ByteMap :=
  (List.range' first (last + 1 - first)).foldlM mapByte utf8ToByte

/-- A byte that has no character so far gets the next one behind the first
256. -/
def mapRest (state : ByteMap × Nat) (ch : Nat) : Except Fault (ByteMap × Nat) := do
  let (utf8ToByte, n) := state
  let own ← unicodeCptToUtf8 ch.toUInt32
  match utf8ToByte.lookup own with
  | some _ => .ok (utf8ToByte, n)
  | none => do
      let key ← unicodeCptToUtf8 (256 + n).toUInt32
      .ok (utf8ToByte.insert key ch.toUInt8, n + 1)

def unicodeUtf8ToByteMap : Except Fault ByteMap := do
  let utf8ToByte ← mapOwn 0x21 0x7e ∅
  let utf8ToByte ← mapOwn 0xa1 0xac utf8ToByte
  let utf8ToByte ← mapOwn 0xae 0xff utf8ToByte
  let (utf8ToByte, _) ← (List.range 256).foldlM mapRest (utf8ToByte, 0)
  .ok utf8ToByte

section ByteMap

/-- The character that stands for a byte. -/
def charOf (b : UInt8) : UInt32 :=
  if b ≤ 32 then 256 + b.toUInt32
  else if b ≤ 126 then b.toUInt32
  else if b ≤ 160 then 162 + b.toUInt32
  else if b = 173 then 323
  else b.toUInt32

/-- The map has the names of these bytes as its keys. -/
def Names (utf8ToByte : ByteMap) (name : UInt8 → Bytes) (mapped : UInt8 → Prop) : Prop :=
  ∀ key b, utf8ToByte.lookup key = some b ↔ mapped b ∧ name b = key

variable {utf8ToByte : ByteMap} {name : UInt8 → Bytes} {mapped mapped' : UInt8 → Prop}

theorem Names.congr (h : Names utf8ToByte name mapped) (heq : ∀ b, mapped b ↔ mapped' b) :
    Names utf8ToByte name mapped' := by
  intro key b
  rw [h key b, heq b]

theorem Names.insert (hname : Function.Injective name) (h : Names utf8ToByte name mapped)
    (b : UInt8) :
    Names (utf8ToByte.insert (name b) b) name (fun x => mapped x ∨ x = b) := by
  intro key x
  by_cases hkey : key = name b
  · subst hkey
    rw [AList.lookup_insert, Option.some.injEq]
    constructor
    · rintro rfl
      exact ⟨.inr rfl, rfl⟩
    · rintro ⟨-, hx⟩
      exact (hname hx).symm
  · rw [AList.lookup_insert_ne hkey, h key x]
    constructor
    · rintro ⟨hx, rfl⟩
      exact ⟨.inl hx, rfl⟩
    · rintro ⟨hx | rfl, rfl⟩
      · exact ⟨hx, rfl⟩
      · exact absurd rfl hkey

/-- Where the characters are: the bytes that are printable stand for
themselves, the others follow one another. -/
theorem toNat_charOf (b : UInt8) :
    (b.toNat ≤ 32 ∧ (charOf b).toNat = 256 + b.toNat) ∨
    (33 ≤ b.toNat ∧ b.toNat ≤ 126 ∧ (charOf b).toNat = b.toNat) ∨
    (127 ≤ b.toNat ∧ b.toNat ≤ 160 ∧ (charOf b).toNat = 162 + b.toNat) ∨
    (b.toNat = 173 ∧ (charOf b).toNat = 323) ∨
    (161 ≤ b.toNat ∧ b.toNat ≠ 173 ∧ (charOf b).toNat = b.toNat) := by
  have hadd : ∀ k : UInt32, k.toNat ≤ 256 → (k + b.toUInt32).toNat = k.toNat + b.toNat := by
    intro k hk
    have hb := b.toNat_lt
    rw [UInt32.toNat_add, UInt8.toNat_toUInt32]
    exact Nat.mod_eq_of_lt (by omega)
  simp only [charOf, UInt8.le_iff_toNat_le, ← UInt8.toNat_inj, UInt8.reduceToNat]
  split
  · exact .inl ⟨‹_›, hadd 256 (by decide)⟩
  · split
    · exact .inr (.inl ⟨by omega, ‹_›, rfl⟩)
    · split
      · exact .inr (.inr (.inl ⟨by omega, ‹_›, hadd 162 (by decide)⟩))
      · split
        · exact .inr (.inr (.inr (.inl ⟨‹_›, rfl⟩)))
        · exact .inr (.inr (.inr (.inr ⟨by omega, ‹_›, rfl⟩)))

theorem charOf_injective : Function.Injective charOf := by
  intro b b' h
  have htoNat := congrArg UInt32.toNat h
  have hb := toNat_charOf b
  have hb' := toNat_charOf b'
  have hlt := b.toNat_lt
  have hlt' := b'.toNat_lt
  rw [← UInt8.toNat_inj]
  omega

/-- The key of a byte: the text of its character. -/
def byteName (b : UInt8) : Bytes :=
  match unicodeCptToUtf8 (charOf b) with
  | .ok key => key
  | .error _ => []

theorem toUtf8_charOf (b : UInt8) : unicodeCptToUtf8 (charOf b) = .ok (byteName b) := by
  obtain ⟨-, key, hkey, -⟩ | ⟨hge, -⟩ := unicodeCptToUtf8_eq (charOf b)
  · rw [byteName, hkey]
  · have hb := toNat_charOf b
    have hlt := b.toNat_lt
    omega

theorem reads_byteName (b : UInt8) : Reads (byteName b) (charOf b) :=
  reads_of_toUtf8 (toUtf8_charOf b)

/-- Code points with one text are the same. -/
theorem toUtf8_inj {cp cp' : UInt32} {key : Bytes} (h : unicodeCptToUtf8 cp = .ok key)
    (h' : unicodeCptToUtf8 cp' = .ok key) : cp = cp' :=
  (prefixCode_reads.cancel (reads_of_toUtf8 h) (reads_of_toUtf8 h') (rfl : key ++ [] = key ++ [])).2

theorem byteName_injective : Function.Injective byteName := by
  intro b b' h
  apply charOf_injective
  exact toUtf8_inj (toUtf8_charOf b) (h ▸ toUtf8_charOf b')

theorem foldlM_mapByte {l : List Nat} (hown : ∀ ch ∈ l, ch < 256 ∧
      charOf ch.toUInt8 = ch.toUInt32) (h : Names utf8ToByte byteName mapped) :
    ∃ after, l.foldlM mapByte utf8ToByte = .ok after ∧
      Names after byteName (fun b => mapped b ∨ b.toNat ∈ l) := by
  induction l generalizing utf8ToByte mapped with
  | nil => exact ⟨utf8ToByte, rfl, h.congr (by simp)⟩
  | cons ch rest ih =>
      obtain ⟨⟨hlt, hchar⟩, hrest⟩ := List.forall_mem_cons.mp hown
      obtain ⟨after, hrun, hafter⟩ := ih hrest (h.insert byteName_injective ch.toUInt8)
      refine ⟨after, ?_, hafter.congr fun b => ?_⟩
      · rw [List.foldlM_cons, mapByte, if_pos hlt, ← hchar, toUtf8_charOf]
        exact hrun
      · have hbyte : b = ch.toUInt8 ↔ b.toNat = ch := by
          rw [← UInt8.toNat_inj, UInt8.toNat_ofNat', Nat.mod_eq_of_lt hlt]
        rw [List.mem_cons, hbyte, or_assoc]

/-- A range of bytes that stand for themselves is added to the map. -/
theorem mapOwn_names (first last : Nat) (hlast : last < 256)
    (hown : ∀ b : UInt8, first ≤ b.toNat → b.toNat ≤ last → (charOf b).toNat = b.toNat)
    (h : Names utf8ToByte byteName mapped) :
    ∃ after, mapOwn first last utf8ToByte = .ok after ∧
      Names after byteName (fun b => mapped b ∨ (first ≤ b.toNat ∧ b.toNat ≤ last)) := by
  have hmem : ∀ ch, ch ∈ List.range' first (last + 1 - first) ↔ first ≤ ch ∧ ch ≤ last := by
    intro ch
    rw [List.mem_range'_1]
    omega
  have hrange : ∀ ch ∈ List.range' first (last + 1 - first), ch < 256 ∧
      charOf ch.toUInt8 = ch.toUInt32 := by
    intro ch hch
    obtain ⟨hfirst, hle⟩ := (hmem ch).mp hch
    have hlt : ch < 256 := by omega
    have hbyte : ch.toUInt8.toNat = ch := by
      rw [UInt8.toNat_ofNat', Nat.mod_eq_of_lt hlt]
    refine ⟨hlt, ?_⟩
    rw [← UInt32.toNat_inj, hown ch.toUInt8 (by omega) (by omega), hbyte, UInt32.toNat_ofNat',
      Nat.mod_eq_of_lt (by omega)]
  obtain ⟨after, hrun, hafter⟩ := foldlM_mapByte hrange h
  exact ⟨after, hrun, hafter.congr fun b => by rw [hmem]⟩

/-- The number of bytes below `c` that do not stand for themselves. -/
def rank (c : Nat) : Nat :=
  if c ≤ 33 then c else if c ≤ 127 then 33 else if c ≤ 161 then c - 94
  else if c ≤ 173 then 67 else 68

def Own (b : UInt8) : Prop := (charOf b).toNat = b.toNat

theorem rank_eq (c : Nat) : (c ≤ 33 ∧ rank c = c) ∨ (33 < c ∧ c ≤ 127 ∧ rank c = 33) ∨
    (127 < c ∧ c ≤ 161 ∧ rank c = c - 94) ∨ (161 < c ∧ c ≤ 173 ∧ rank c = 67) ∨
    (173 < c ∧ rank c = 68) := by
  simp only [rank]
  split_ifs <;> omega

theorem rank_own {c : UInt8} (h : Own c) : rank (c.toNat + 1) = rank c.toNat := by
  have hchar := toNat_charOf c
  have hnow := rank_eq c.toNat
  have hnext := rank_eq (c.toNat + 1)
  rw [Own] at h
  omega

theorem rank_rest {c : UInt8} (h : ¬ Own c) :
    (charOf c).toNat = 256 + rank c.toNat ∧ rank (c.toNat + 1) = rank c.toNat + 1 := by
  have hchar := toNat_charOf c
  have hnow := rank_eq c.toNat
  have hnext := rank_eq (c.toNat + 1)
  rw [Own] at h
  omega

/-- The map has a key that is the text of byte `c` as a code point exactly when
this byte stands for itself. -/
theorem lookup_own {before : ByteMap} {c : UInt8} {own : Bytes}
    (hbefore : Names before byteName (fun b => Own b ∨ b.toNat < c.toNat))
    (hown : unicodeCptToUtf8 c.toUInt32 = .ok own) (b : UInt8) :
    before.lookup own = some b ↔ b = c ∧ Own c := by
  rw [hbefore own b]
  constructor
  · rintro ⟨-, rfl⟩
    have heq := congrArg UInt32.toNat (toUtf8_inj (toUtf8_charOf b) hown)
    rw [UInt8.toNat_toUInt32] at heq
    have hb := toNat_charOf b
    have hlt := c.toNat_lt
    have hbc : b = c := by
      rw [← UInt8.toNat_inj]
      omega
    subst hbc
    exact ⟨rfl, heq⟩
  · rintro ⟨rfl, hself⟩
    have heq : charOf b = b.toUInt32 := UInt32.toNat_inj.mp hself
    have hsame := toUtf8_charOf b
    rw [heq, hown] at hsame
    exact ⟨.inl hself, (Except.ok.inj hsame).symm⟩

theorem mapRest_names {before : ByteMap} {c : UInt8}
    (hbefore : Names before byteName (fun b => Own b ∨ b.toNat < c.toNat)) :
    ∃ after, mapRest (before, rank c.toNat) c.toNat = .ok (after, rank (c.toNat + 1)) ∧
      Names after byteName (fun b => Own b ∨ b.toNat < c.toNat + 1) := by
  have hchar := toNat_charOf c
  have hlt := c.toNat_lt
  have hcp : c.toNat.toUInt32 = c.toUInt32 := by
    rw [← UInt32.toNat_inj, UInt32.toNat_ofNat', UInt8.toNat_toUInt32,
      Nat.mod_eq_of_lt (by omega)]
  have hbyte : c.toNat.toUInt8 = c := by simp
  obtain ⟨own, hown⟩ : ∃ own, unicodeCptToUtf8 c.toUInt32 = .ok own := by
    obtain ⟨-, own, hown, -⟩ | ⟨hge, -⟩ := unicodeCptToUtf8_eq c.toUInt32
    · exact ⟨own, hown⟩
    · rw [UInt8.toNat_toUInt32] at hge
      omega
  have hkey := lookup_own hbefore hown
  by_cases hself : Own c
  · have hrank := rank_own hself
    refine ⟨before, ?_, hbefore.congr fun b => ?_⟩
    · simp only [mapRest, hcp, hown, hrank]
      change (match before.lookup own with | some _ => _ | none => _) = _
      rw [(hkey c).mpr ⟨rfl, hself⟩]
    · constructor
      · rintro (hb | hb)
        · exact .inl hb
        · exact .inr (by omega)
      · rintro (hb | hb)
        · exact .inl hb
        · by_cases hbc : b = c
          · exact .inl (hbc ▸ hself)
          · rw [← UInt8.toNat_inj] at hbc
            exact .inr (by omega)
  · have hnone : before.lookup own = none := by
      rw [Option.eq_none_iff_forall_ne_some]
      intro b hb
      exact hself ((hkey b).mp hb).2
    obtain ⟨hcharOf, hrank⟩ := rank_rest hself
    have hnext : (256 + rank c.toNat).toUInt32 = charOf c := by
      have hle := rank_eq c.toNat
      rw [← UInt32.toNat_inj, hcharOf, UInt32.toNat_ofNat', Nat.mod_eq_of_lt (by omega)]
    refine ⟨before.insert (byteName c) c, ?_, (hbefore.insert byteName_injective c).congr fun b => ?_⟩
    · simp only [mapRest, hcp, hown, hrank]
      change (match before.lookup own with | some _ => _ | none => _) = _
      rw [hnone, hnext, toUtf8_charOf, hbyte]
      rfl
    · rw [or_assoc, ← UInt8.toNat_inj]
      constructor
      · rintro (hb | hb | hb)
        · exact .inl hb
        · exact .inr (by omega)
        · exact .inr (by omega)
      · rintro (hb | hb)
        · exact .inl hb
        · exact .inr (by omega)

/-- Before byte `c` is looked at, the map has the names of the bytes that stand
for themselves and of those below `c`. -/
theorem foldlM_mapRest (h : Names utf8ToByte byteName Own) {c : Nat} (hc : c ≤ 256) :
    ∃ after, (List.range c).foldlM mapRest (utf8ToByte, 0) = .ok (after, rank c) ∧
      Names after byteName (fun b => Own b ∨ b.toNat < c) := by
  induction c with
  | zero => exact ⟨utf8ToByte, rfl, h.congr (by simp)⟩
  | succ c ih =>
      obtain ⟨before, hrun, hbefore⟩ := ih (by omega)
      have hbyte : c.toUInt8.toNat = c := by
        rw [UInt8.toNat_ofNat', Nat.mod_eq_of_lt (by omega)]
      obtain ⟨after, hstep, hafter⟩ := mapRest_names (c := c.toUInt8) (by rwa [hbyte])
      rw [hbyte] at hstep hafter
      refine ⟨after, ?_, hafter⟩
      rw [List.range_succ, List.foldlM_append, hrun]
      simp only [List.foldlM_cons, List.foldlM_nil]
      change mapRest (before, rank c) c >>= _ = _
      rw [hstep]
      rfl

/-- The map is built, and has one key for every byte. -/
theorem unicodeUtf8ToByteMap_ok : ∃ utf8ToByte, unicodeUtf8ToByteMap = .ok utf8ToByte ∧
    Names utf8ToByte byteName (fun _ => True) := by
  have hempty : Names ∅ byteName (fun _ => False) := by
    intro key b
    simp
  have hown : ∀ b : UInt8, (33 ≤ b.toNat ∧ b.toNat ≤ 126) ∨ (161 ≤ b.toNat ∧ b.toNat ≠ 173) ↔
      Own b := by
    intro b
    have hb := toNat_charOf b
    rw [Own]
    omega
  obtain ⟨m1, hrun1, hm1⟩ := mapOwn_names 0x21 0x7e (by decide)
    (fun b _ _ => (hown b).mp (by omega)) hempty
  obtain ⟨m2, hrun2, hm2⟩ := mapOwn_names 0xa1 0xac (by decide)
    (fun b _ _ => (hown b).mp (by omega)) hm1
  obtain ⟨m3, hrun3, hm3⟩ := mapOwn_names 0xae 0xff (by decide)
    (fun b _ _ => (hown b).mp (by omega)) hm2
  have hself : Names m3 byteName Own := by
    refine hm3.congr fun b => ?_
    rw [← hown b]
    have hlt := b.toNat_lt
    simp only [false_or]
    omega
  obtain ⟨m, hrun, hm⟩ := foldlM_mapRest hself (c := 256) le_rfl
  refine ⟨m, ?_, hm.congr fun b => ?_⟩
  · rw [unicodeUtf8ToByteMap]
    refine bind_eq_ok_iff.mpr ⟨m1, hrun1, bind_eq_ok_iff.mpr ⟨m2, hrun2, ?_⟩⟩
    exact bind_eq_ok_iff.mpr ⟨m3, hrun3, bind_eq_ok_iff.mpr ⟨(m, rank 256), hrun, rfl⟩⟩
  · simp only [iff_true]
    exact .inr b.toNat_lt

end ByteMap

/-- `format("%02x", c)`. -/
def hexByte (c : UInt8) : Bytes :=
  let digit (d : Nat) : UInt8 := if d < 10 then (48 + d).toUInt8 else (87 + d).toUInt8
  [digit (c.toNat / 16), digit (c.toNat % 16)]

/-- What a character that stands for no byte leaves in the text. -/
def unknownByte (utf8 tokenText : Bytes) : Bytes :=
  text "[UNK_BYTE_0x" ++ utf8.flatMap hexByte ++ (tokenText ++ text "]")

def decodeCpt (tokenText : Bytes) (utf8ToByte : ByteMap) (decodedText : Bytes) (cpt : UInt32) :
    Except Fault Bytes := do
  let utf8 ← unicodeCptToUtf8 cpt
  match utf8ToByte.lookup utf8 with
  | some b => .ok (decodedText ++ [b])
  | none => .ok (decodedText ++ unknownByte utf8 tokenText)

def bpeDecodeText (tokenText : Bytes) (utf8ToByte : ByteMap) : Except Fault Bytes := do
  let cpts ← unicodeCptsFromUtf8 tokenText
  cpts.foldlM (decodeCpt tokenText utf8ToByte) []

section BytePairs

variable {tokenText : Bytes} {utf8ToByte : ByteMap}

theorem decodeCpt_ok (tokenText : Bytes) (utf8ToByte : ByteMap) (acc : Bytes) (cpt : UInt32) :
    (∃ out, decodeCpt tokenText utf8ToByte acc cpt = .ok out) ↔ cpt.toNat < 0x110000 := by
  obtain ⟨hlt, key, hkey, -⟩ | ⟨hge, herror⟩ := unicodeCptToUtf8_eq cpt
  · simp only [decodeCpt, hkey, hlt, iff_true]
    change ∃ out, (match utf8ToByte.lookup key with | some _ => _ | none => _) = Except.ok out
    cases utf8ToByte.lookup key with
    | some b => exact ⟨_, rfl⟩
    | none => exact ⟨_, rfl⟩
  · simp only [decodeCpt, herror]
    constructor
    · rintro ⟨out, hout⟩
      cases hout
    · omega

theorem foldlM_decodeCpt_ok (tokenText : Bytes) (utf8ToByte : ByteMap) (acc : Bytes)
    (cpts : List UInt32) :
    (∃ out, cpts.foldlM (decodeCpt tokenText utf8ToByte) acc = .ok out) ↔
      ∀ cpt ∈ cpts, cpt.toNat < 0x110000 := by
  induction cpts generalizing acc with
  | nil => simp [pure, Except.pure]
  | cons cpt rest ih =>
      rw [List.forall_mem_cons, List.foldlM_cons, ← decodeCpt_ok tokenText utf8ToByte acc cpt]
      constructor
      · rintro ⟨out, hout⟩
        obtain ⟨mid, hmid, hrest⟩ := bind_eq_ok_iff.mp hout
        exact ⟨⟨mid, hmid⟩, (ih mid).mp ⟨out, hrest⟩⟩
      · rintro ⟨⟨mid, hmid⟩, hrest⟩
        obtain ⟨out, hout⟩ := (ih mid).mpr hrest
        exact ⟨out, bind_eq_ok_iff.mpr ⟨mid, hmid, hout⟩⟩

theorem foldlM_decodeCpt (h : Names utf8ToByte byteName (fun _ => True)) (acc bytes : Bytes) :
    (bytes.map charOf).foldlM (decodeCpt tokenText utf8ToByte) acc = .ok (acc ++ bytes) := by
  induction bytes generalizing acc with
  | nil => simp [pure, Except.pure]
  | cons b rest ih =>
      rw [List.map_cons, List.foldlM_cons]
      have hstep : decodeCpt tokenText utf8ToByte acc (charOf b) = .ok (acc ++ [b]) := by
        simp only [decodeCpt, toUtf8_charOf]
        change (match utf8ToByte.lookup (byteName b) with | some _ => _ | none => _) = _
        rw [(h (byteName b) b).mpr ⟨trivial, rfl⟩]
      rw [hstep]
      exact (ih (acc ++ [b])).trans (by rw [List.append_assoc, List.singleton_append])

/-- The map built for a byte pair vocabulary has exactly one key for every byte,
and the text of a token spelled with these keys is the bytes it was spelled
from. A token has a text exactly when it is made of code points. -/
theorem bpe_decode_text : ∃ utf8ToByte name, unicodeUtf8ToByteMap = .ok utf8ToByte ∧
    (∀ key b, utf8ToByte.lookup key = some b ↔ key = name b) ∧
    (∀ bytes : Bytes, bpeDecodeText (bytes.flatMap name) utf8ToByte = .ok bytes) ∧
    ∀ tokenText : Bytes, (∃ decoded, bpeDecodeText tokenText utf8ToByte = .ok decoded) ↔
      ∃ parts cps, List.Forall₂ Reads parts cps ∧ tokenText = parts.flatten ∧
        ∀ cp ∈ cps, cp.toNat < 0x110000 := by
  obtain ⟨utf8ToByte, hbuilt, hnames⟩ := unicodeUtf8ToByteMap_ok
  refine ⟨utf8ToByte, byteName, hbuilt, ?_, ?_, ?_⟩
  · intro key b
    rw [hnames key b, true_and, eq_comm]
  · intro bytes
    have hcpts : unicodeCptsFromUtf8 (bytes.flatMap byteName) = .ok (bytes.map charOf) := by
      refine unicodeCptsFromUtf8_ok.mpr ⟨bytes.map byteName, ?_, List.flatMap_def⟩
      rw [List.forall₂_map_left_iff, List.forall₂_map_right_iff, List.forall₂_same]
      exact fun b _ => reads_byteName b
    exact bind_eq_ok_iff.mpr ⟨_, hcpts, foldlM_decodeCpt hnames [] bytes⟩
  · intro tokenText
    constructor
    · rintro ⟨decoded, h⟩
      obtain ⟨cps, hcps, hrun⟩ := bind_eq_ok_iff.mp h
      obtain ⟨parts, hparts, hflat⟩ := unicodeCptsFromUtf8_ok.mp hcps
      exact ⟨parts, cps, hparts, hflat, (foldlM_decodeCpt_ok tokenText utf8ToByte [] cps).mp ⟨decoded, hrun⟩⟩
    · rintro ⟨parts, cps, hparts, hflat, hlt⟩
      obtain ⟨decoded, hrun⟩ := (foldlM_decodeCpt_ok tokenText utf8ToByte [] cps).mpr hlt
      exact ⟨decoded, bind_eq_ok_iff.mpr
        ⟨cps, unicodeCptsFromUtf8_ok.mpr ⟨parts, hparts, hflat⟩, hrun⟩⟩

end BytePairs

/-- The escaped space. -/
def search : Bytes := [0xe2, 0x96, 0x81]

def replace : Bytes := [0x20]

/-- The loop of `unescape_whitespace`, with as many rounds as there are bytes at
most. -/
def unescapeFrom (s : Bytes) : Nat → Nat → Bytes → Bytes
  | 0, lastPos, builder => builder ++ s.drop lastPos
  | rounds + 1, lastPos, builder =>
      match find? search (s.drop lastPos) with
      | some skip =>
          unescapeFrom s rounds (lastPos + skip + search.length)
            (builder ++ (s.drop lastPos).take skip ++ replace)
      | none => builder ++ s.drop lastPos

def unescapeWhitespace (s : Bytes) : Bytes := unescapeFrom s s.length 0 []

section Whitespace

variable {s p : Bytes} {ps : List Bytes}

theorem unescapeFrom_pieces {rounds lastPos : Nat} (builder : Bytes) (hrounds : ps.length ≤ rounds)
    (hpieces : ∀ q ∈ p :: ps, ¬ search <:+: q)
    (hrest : s.drop lastPos = search.intercalate (p :: ps)) :
    unescapeFrom s rounds lastPos builder = builder ++ replace.intercalate (p :: ps) := by
  induction ps generalizing rounds lastPos builder p with
  | nil =>
      rw [List.intercalate_singleton] at hrest ⊢
      cases rounds with
      | zero => rw [unescapeFrom, hrest]
      | succ rounds =>
          have hnone : find? search p = none := by
            cases hfind : find? search p with
            | none => rfl
            | some n =>
                obtain ⟨pre, rest, rfl, -, -⟩ := find?_eq_some (by decide) hfind
                exact absurd ⟨pre, rest, by rw [List.append_assoc]⟩
                  (hpieces _ List.mem_cons_self)
          rw [unescapeFrom, hrest, hnone]
  | cons q ps ih =>
      cases rounds with
      | zero => simp at hrounds
      | succ rounds =>
          obtain ⟨hp, hrestpieces⟩ := List.forall_mem_cons.mp hpieces
          rw [List.intercalate_cons_cons, List.append_assoc] at hrest
          have hfind : find? search (s.drop lastPos) = some p.length := by
            rw [hrest]
            exact find?_append (by decide) hp _
          have hnext : s.drop (lastPos + p.length + search.length) =
              search.intercalate (q :: ps) := by
            rw [Nat.add_assoc, ← List.drop_drop, hrest, ← List.append_assoc,
              ← List.length_append, List.drop_left]
          rw [unescapeFrom, hfind]
          simp only
          rw [ih (builder ++ (s.drop lastPos).take p.length ++ replace)
            (by simpa using hrounds) hrestpieces hnext, hrest, List.take_left,
            List.intercalate_cons_cons]
          simp only [List.append_assoc]

theorem length_le_intercalate (p : Bytes) (ps : List Bytes) :
    ps.length ≤ (search.intercalate (p :: ps)).length := by
  induction ps generalizing p with
  | nil => simp
  | cons q ps ih =>
      have hrest := ih q
      rw [List.intercalate_cons_cons]
      simp only [List.length_append, List.length_cons, search, List.length_nil] at hrest ⊢
      omega

theorem unescapeWhitespace_pieces (hpieces : ∀ q ∈ p :: ps, ¬ search <:+: q) :
    unescapeWhitespace (search.intercalate (p :: ps)) = replace.intercalate (p :: ps) :=
  unescapeFrom_pieces [] (length_le_intercalate p ps) hpieces rfl

/-- Every text is some pieces with escaped spaces between them. -/
theorem exists_pieces (s : Bytes) :
    ∃ p ps, (∀ q ∈ p :: ps, ¬ search <:+: q) ∧ s = search.intercalate (p :: ps) := by
  induction hn : s.length using Nat.strong_induction_on generalizing s with
  | _ n ih =>
      cases hfind : find? search s with
      | none =>
          refine ⟨s, [], ?_, (List.intercalate_singleton).symm⟩
          simpa using find?_eq_none (by decide) hfind
      | some k =>
          obtain ⟨pre, rest, rfl, -, hpre⟩ := find?_eq_some (by decide) hfind
          have hlt : rest.length < n := by
            rw [← hn]
            simp only [List.length_append, search, List.length_cons, List.length_nil]
            omega
          obtain ⟨p, ps, hpieces, rfl⟩ := ih rest.length hlt rest rfl
          refine ⟨pre, p :: ps, List.forall_mem_cons.mpr ⟨hpre, hpieces⟩, ?_⟩
          rw [List.intercalate_cons_cons, List.append_assoc]

/-- A key is on one side of a character that it does not have. -/
theorem infix_append_cons {key x y : Bytes} {a : UInt8} (ha : a ∉ key)
    (h : key <:+: x ++ a :: y) : key <:+: x ∨ key <:+: y := by
  obtain ⟨front, rest, h⟩ := h
  rw [List.append_assoc] at h
  rcases List.append_eq_append_iff.mp h with ⟨u, rfl, hu⟩ | ⟨u, rfl, hu⟩
  · rcases List.append_eq_append_iff.mp hu with ⟨w, rfl, hw⟩ | ⟨w, rfl, hw⟩
    · exact .inl ⟨front, w, by rw [List.append_assoc]⟩
    · cases w with
      | nil => exact .inl ⟨front, [], by simp⟩
      | cons c w =>
          rw [List.cons_append, List.cons.injEq] at hw
          exact absurd (by simp [hw.1]) ha
  · cases u with
    | nil =>
        cases key with
        | nil => exact .inl (List.nil_infix)
        | cons c key =>
            rw [List.nil_append, List.cons_append, List.cons.injEq] at hu
            exact absurd (by simp [hu.1]) ha
    | cons c u =>
        rw [List.cons_append, List.cons.injEq] at hu
        exact .inr ⟨u, rest, by rw [hu.2, List.append_assoc]⟩

theorem not_infix_intercalate (hpieces : ∀ q ∈ p :: ps, ¬ search <:+: q) :
    ¬ search <:+: replace.intercalate (p :: ps) := by
  induction ps generalizing p with
  | nil => simpa [List.intercalate_singleton] using hpieces
  | cons q ps ih =>
      obtain ⟨hp, hrest⟩ := List.forall_mem_cons.mp hpieces
      rw [List.intercalate_cons_cons, List.append_assoc]
      intro h
      rcases infix_append_cons (by decide) h with hin | hin
      · exact hp hin
      · exact ih hrest hin

/-- A text with its spaces escaped. -/
def escapeWhitespace (t : Bytes) : Bytes := t.flatMap fun c => if c = 0x20 then search else [c]

theorem escapeWhitespace_pieces (t : Bytes) :
    ∃ p ps, t = replace.intercalate (p :: ps) ∧
      escapeWhitespace t = search.intercalate (p :: ps) := by
  induction t with
  | nil => exact ⟨[], [], by simp [List.intercalate_singleton], by simp [escapeWhitespace]⟩
  | cons c t ih =>
      obtain ⟨p, ps, ht, hescape⟩ := ih
      by_cases hc : c = 0x20
      · refine ⟨[], p :: ps, ?_, ?_⟩
        · rw [List.intercalate_cons_cons, ← ht, hc]
          rfl
        · rw [List.intercalate_cons_cons, ← hescape, escapeWhitespace, List.flatMap_cons, if_pos hc]
          rfl
      · refine ⟨c :: p, ps, ?_, ?_⟩
        · rw [List.intercalate_cons_cons_left, ← ht]
        · rw [List.intercalate_cons_cons_left, ← hescape, escapeWhitespace, List.flatMap_cons,
            if_neg hc]
          rfl

theorem infix_intercalate {sep q : Bytes} {pieces : List Bytes} (hq : q ∈ pieces) :
    q <:+: sep.intercalate pieces := by
  induction pieces with
  | nil => cases hq
  | cons p rest ih =>
      rcases List.mem_cons.mp hq with rfl | hmem
      · rcases rest with _ | ⟨p', rest⟩
        · rw [List.intercalate_singleton]
        · rw [List.intercalate_cons_cons, List.append_assoc]
          exact (List.prefix_append _ _).isInfix
      · rcases rest with _ | ⟨p', rest⟩
        · cases hmem
        · rw [List.intercalate_cons_cons]
          exact (ih hmem).trans (List.suffix_append _ _).isInfix

/-- Every escaped space becomes a space and nothing else changes: no escaped
space is left, and a text that has none comes back from its escaped form. -/
theorem unescape_whitespace (s : Bytes) :
    (∃ p ps, (∀ q ∈ p :: ps, ¬ search <:+: q) ∧ s = search.intercalate (p :: ps) ∧
      unescapeWhitespace s = replace.intercalate (p :: ps)) ∧
    ¬ search <:+: unescapeWhitespace s ∧
    (¬ search <:+: s → unescapeWhitespace (escapeWhitespace s) = s) := by
  obtain ⟨p, ps, hpieces, rfl⟩ := exists_pieces s
  refine ⟨⟨p, ps, hpieces, rfl, unescapeWhitespace_pieces hpieces⟩, ?_, fun hnot => ?_⟩
  · rw [unescapeWhitespace_pieces hpieces]
    exact not_infix_intercalate hpieces
  · obtain ⟨p', ps', hs, hescape⟩ := escapeWhitespace_pieces (search.intercalate (p :: ps))
    rw [hescape, unescapeWhitespace_pieces, ← hs]
    intro q hq hin
    apply hnot
    rw [hs]
    exact hin.trans (infix_intercalate hq)

end Whitespace

end DashInfer.Tokenizer
