import Mathlib.Data.Nat.Digits.Lemmas

/-!
Text as a list of characters: searching for a key, splitting at a delimiter
and decimal numbers. The text in front of a key is skipped piece by piece.
-/

namespace DashInfer.Lib

section Search

variable {α : Type} [DecidableEq α]

/-- What follows the first occurrence of a key. -/
def after? (key : List α) : List α → Option (List α)
  | [] => none
  | c :: rest =>
      if key.isPrefixOf (c :: rest) then some ((c :: rest).drop key.length) else after? key rest

/-- No occurrence of the key starts inside this text, whatever follows it. -/
def skips (key : List α) : List α → Bool
  | [] => true
  | c :: rest =>
      !key.isPrefixOf (c :: rest) && !(c :: rest).isPrefixOf key && skips key rest

theorem skips_of_not_mem {k : α} {key pre : List α} (hk : key.head? = some k) (h : k ∉ pre) :
    skips key pre = true := by
  obtain ⟨tail, rfl⟩ := List.head?_eq_some_iff.mp hk
  induction pre with
  | nil => rfl
  | cons c rest ih =>
      have hne : k ≠ c := fun heq => h (heq ▸ List.mem_cons_self)
      have hbeq : (k == c) = false := beq_eq_false_iff_ne.mpr hne
      have hbeq' : (c == k) = false := beq_eq_false_iff_ne.mpr (Ne.symm hne)
      rw [skips, ih fun hmem => h (List.mem_cons_of_mem _ hmem)]
      simp only [List.isPrefixOf, hbeq, hbeq', Bool.false_and, Bool.not_false, Bool.and_self]

/-- A key that neither starts nor ends a match inside a text is no prefix of
any longer text either. -/
theorem isPrefixOf_append {key pre : List α} (hkey : key.isPrefixOf pre = false)
    (hpre : pre.isPrefixOf key = false) (rest : List α) :
    key.isPrefixOf (pre ++ rest) = false := by
  rw [← Bool.not_eq_true, List.isPrefixOf_iff_prefix] at hkey hpre ⊢
  intro h
  rcases List.prefix_or_prefix_of_prefix h (List.prefix_append pre rest) with hle | hle
  · exact hkey hle
  · exact hpre hle

theorem after?_skip {key pre : List α} (h : skips key pre = true) (rest : List α) :
    after? key (pre ++ rest) = after? key rest := by
  induction pre with
  | nil => rfl
  | cons c pre ih =>
      simp only [skips, Bool.and_eq_true, Bool.not_eq_true'] at h
      obtain ⟨⟨hkey, hpre⟩, htail⟩ := h
      have hno := isPrefixOf_append hkey hpre rest
      rw [List.cons_append] at hno ⊢
      rw [after?, hno, if_neg Bool.false_ne_true, ih htail]

theorem after?_hit {key rest : List α} (h : key ≠ []) :
    after? key (key ++ rest) = some rest := by
  obtain ⟨k, tail, rfl⟩ := List.exists_cons_of_ne_nil h
  have hmatch : (k :: tail).isPrefixOf (k :: (tail ++ rest)) = true :=
    List.isPrefixOf_iff_prefix.mpr (List.prefix_append (k :: tail) rest)
  rw [List.cons_append, after?, if_pos hmatch]
  exact congrArg some (@List.drop_left _ (k :: tail) rest)

/-- The pieces between the occurrences of a delimiter, from the left.
`skip` counts the characters of a delimiter that was just found. -/
def splitFrom (delim piece : List α) : Nat → List α → List (List α)
  | _, [] => [piece]
  | skip + 1, _ :: rest => splitFrom delim piece skip rest
  | 0, c :: rest =>
      if delim.isPrefixOf (c :: rest) then piece :: splitFrom delim [] (delim.length - 1) rest
      else splitFrom delim (piece ++ [c]) 0 rest

def split (delim text : List α) : List (List α) := splitFrom delim [] 0 text

theorem splitFrom_skip {delim pre : List α} (h : skips delim pre = true) (piece rest : List α) :
    splitFrom delim piece 0 (pre ++ rest) = splitFrom delim (piece ++ pre) 0 rest := by
  induction pre generalizing piece with
  | nil => rw [List.nil_append, List.append_nil]
  | cons c pre ih =>
      simp only [skips, Bool.and_eq_true, Bool.not_eq_true'] at h
      obtain ⟨⟨hkey, hpre⟩, htail⟩ := h
      have hno := isPrefixOf_append hkey hpre rest
      rw [List.cons_append] at hno ⊢
      rw [splitFrom, hno, if_neg Bool.false_ne_true, ih htail, List.append_assoc,
        List.singleton_append]

theorem splitFrom_drop (delim piece pre rest : List α) :
    splitFrom delim piece pre.length (pre ++ rest) = splitFrom delim piece 0 rest := by
  induction pre with
  | nil => rfl
  | cons c pre ih => rw [List.length_cons, List.cons_append, splitFrom, ih]

theorem splitFrom_hit {delim piece rest : List α} (h : delim ≠ []) :
    splitFrom delim piece 0 (delim ++ rest) = piece :: splitFrom delim [] 0 rest := by
  obtain ⟨k, tail, rfl⟩ := List.exists_cons_of_ne_nil h
  have hmatch : (k :: tail).isPrefixOf (k :: (tail ++ rest)) = true :=
    List.isPrefixOf_iff_prefix.mpr (List.prefix_append (k :: tail) rest)
  rw [List.cons_append, splitFrom, if_pos hmatch, List.length_cons, Nat.add_sub_cancel,
    splitFrom_drop]

/-- A last piece in which no delimiter starts. -/
theorem splitFrom_last {delim text : List α} (h : after? delim text = none) (piece : List α) :
    splitFrom delim piece 0 text = [piece ++ text] := by
  induction text generalizing piece with
  | nil => rw [splitFrom, List.append_nil]
  | cons c rest ih =>
      rw [after?] at h
      split at h
      · cases h
      · rename_i hno
        rw [splitFrom, if_neg hno, ih h, List.append_assoc, List.singleton_append]

/-- The place of the first occurrence of a key. -/
def find? (key : List α) : List α → Option Nat
  | [] => if key = [] then some 0 else none
  | c :: rest =>
      if key.isPrefixOf (c :: rest) then some 0 else (find? key rest).map (· + 1)

theorem find?_eq_none {key : List α} (hkey : key ≠ []) {l : List α}
    (h : find? key l = none) : ¬ key <:+: l := by
  induction l with
  | nil => simpa using hkey
  | cons c rest ih =>
      rw [find?] at h
      split at h
      · cases h
      · rename_i hno
        rw [List.infix_cons_iff, ← List.isPrefixOf_iff_prefix]
        rintro (hpre | hin)
        · exact hno hpre
        · exact ih (Option.map_eq_none_iff.mp h) hin

/-- What is in front of the first occurrence has none. -/
theorem find?_eq_some {key : List α} (hkey : key ≠ []) {l : List α} {n : Nat}
    (h : find? key l = some n) :
    ∃ pre rest, l = pre ++ (key ++ rest) ∧ pre.length = n ∧ ¬ key <:+: pre := by
  induction l generalizing n with
  | nil => simp [find?, hkey] at h
  | cons c l ih =>
      rw [find?] at h
      split at h
      · rename_i hhit
        cases h
        obtain ⟨rest, hrest⟩ := List.isPrefixOf_iff_prefix.mp hhit
        exact ⟨[], rest, hrest.symm, rfl, by simpa using hkey⟩
      · rename_i hno
        obtain ⟨m, hm, rfl⟩ := Option.map_eq_some_iff.mp h
        obtain ⟨pre, rest, rfl, rfl, hpre⟩ := ih hm
        refine ⟨c :: pre, rest, rfl, rfl, ?_⟩
        rw [List.infix_cons_iff]
        rintro (hstart | hin)
        · apply hno
          rw [List.isPrefixOf_iff_prefix]
          exact hstart.trans (List.prefix_append (c :: pre) (key ++ rest))
        · exact hpre hin

/-- A key whose first character comes once in it does not overlap with itself,
so the first occurrence is behind a text that has none. -/
theorem find?_append {k : α} {tail piece : List α} (hk : k ∉ tail)
    (h : ¬ (k :: tail) <:+: piece) (rest : List α) :
    find? (k :: tail) (piece ++ (k :: tail ++ rest)) = some piece.length := by
  induction piece with
  | nil =>
      have hhit : (k :: tail).isPrefixOf (k :: (tail ++ rest)) = true :=
        List.isPrefixOf_iff_prefix.mpr (List.prefix_append (k :: tail) rest)
      rw [List.nil_append, List.cons_append, find?, if_pos hhit]
      rfl
  | cons c piece ih =>
      rw [List.infix_cons_iff, not_or] at h
      obtain ⟨hstart, hin⟩ := h
      have hno : ¬ (k :: tail).isPrefixOf (c :: (piece ++ (k :: tail ++ rest))) = true := by
        rw [List.isPrefixOf_iff_prefix]
        intro hpre
        have hfront : c :: piece <+: c :: (piece ++ (k :: tail ++ rest)) :=
          List.prefix_append (c :: piece) _
        rcases List.prefix_or_prefix_of_prefix hpre hfront with hle | ⟨more, hmore⟩
        · exact hstart hle
        · obtain ⟨r, hr⟩ := hpre
          rw [← hmore, List.cons_append, List.cons_append, List.append_assoc] at hr
          simp only [List.cons.injEq, List.append_cancel_left_eq, true_and] at hr
          rw [List.cons_append, List.cons.injEq] at hmore
          rcases more with _ | ⟨k', more⟩
          · exact hstart ⟨[], by simp [← hmore.1, ← hmore.2]⟩
          · rw [List.cons_append, List.cons_append, List.cons.injEq] at hr
            exact hk (by simp [← hmore.2, hr.1, hmore.1])
      rw [List.cons_append, find?, if_neg hno, ih hin]
      rfl

end Search

section Numbers

/-- ASCII text. A literal stays folded; its characters are compared by
evaluation. -/
@[irreducible] def text (s : String) : List UInt8 := s.toList.map fun c => c.toNat.toUInt8

def isDigit (c : UInt8) : Bool := 48 ≤ c && c ≤ 57

def isSpace (c : UInt8) : Bool := c = 32 || (9 ≤ c && c ≤ 13)

def digitChar (d : Nat) : UInt8 := (48 + d).toUInt8

def decimalNat (n : Nat) : List UInt8 :=
  if n = 0 then [48] else (Nat.digits 10 n).reverse.map digitChar

/-- A decimal number, with a sign when it is negative. -/
def decimal (i : Int) : List UInt8 :=
  if i < 0 then 45 :: decimalNat i.natAbs else decimalNat i.natAbs

def readDigits (s : List UInt8) : Nat :=
  (s.takeWhile isDigit).foldl (fun n c => 10 * n + (c.toNat - 48)) 0

/-- The number a text starts with: spaces, a sign and digits; 0 without
digits. -/
def atoi (s : List UInt8) : Int :=
  match s.dropWhile isSpace with
  | 45 :: rest => -(readDigits rest : Int)
  | 43 :: rest => readDigits rest
  | rest => readDigits rest

theorem toNat_digitChar {d : Nat} (h : d < 10) : (digitChar d).toNat = 48 + d := by
  rw [digitChar, Nat.toUInt8_eq, UInt8.toNat_ofNat']
  omega

theorem isDigit_iff {c : UInt8} : isDigit c = true ↔ 48 ≤ c.toNat ∧ c.toNat ≤ 57 := by
  rw [isDigit, Bool.and_eq_true, decide_eq_true_iff, decide_eq_true_iff, UInt8.le_iff_toNat_le,
    UInt8.le_iff_toNat_le]
  rfl

theorem isDigit_digitChar {d : Nat} (h : d < 10) : isDigit (digitChar d) = true := by
  rw [isDigit_iff, toNat_digitChar h]
  omega

theorem isDigit_of_mem_decimalNat {n : Nat} {c : UInt8} (h : c ∈ decimalNat n) :
    isDigit c = true := by
  rw [decimalNat] at h
  split at h
  · obtain rfl := List.mem_singleton.mp h
    rfl
  · obtain ⟨d, hd, rfl⟩ := List.mem_map.mp h
    exact isDigit_digitChar (Nat.digits_lt_base (by decide) (List.mem_reverse.mp hd))

theorem decimalNat_ne_nil (n : Nat) : decimalNat n ≠ [] := by
  rw [decimalNat]
  split
  · exact List.cons_ne_nil _ _
  · rename_i hn
    intro h
    rw [List.map_eq_nil_iff, List.reverse_eq_nil_iff] at h
    exact Nat.digits_ne_nil_iff_ne_zero.mpr hn h

theorem foldl_digitChar {l : List Nat} (h : ∀ d ∈ l, d < 10) :
    (l.reverse.map digitChar).foldl (fun n c => 10 * n + (c.toNat - 48)) 0 =
      Nat.ofDigits 10 l := by
  induction l with
  | nil => rfl
  | cons d rest ih =>
      have hd := toNat_digitChar (h d List.mem_cons_self)
      rw [List.reverse_cons, List.map_append, List.foldl_append,
        ih fun x hx => h x (List.mem_cons_of_mem _ hx), Nat.ofDigits_cons]
      simp only [List.map_cons, List.map_nil, List.foldl_cons, List.foldl_nil, hd]
      omega

theorem foldl_decimalNat (n : Nat) :
    (decimalNat n).foldl (fun n c => 10 * n + (c.toNat - 48)) 0 = n := by
  rw [decimalNat]
  split
  · rename_i hn
    exact hn.symm
  · rw [foldl_digitChar fun d hd => Nat.digits_lt_base (by decide) hd, Nat.ofDigits_digits]

/-- A tail at which the digits of a number end. -/
def EndsNumber (tail : List UInt8) : Prop := ∀ c ∈ tail.head?, isDigit c = false

theorem readDigits_decimalNat (n : Nat) {tail : List UInt8} (h : EndsNumber tail) :
    readDigits (decimalNat n ++ tail) = n := by
  have hstop : tail.takeWhile isDigit = [] := by
    cases tail with
    | nil => rfl
    | cons c rest => rw [List.takeWhile_cons, h c rfl, if_neg Bool.false_ne_true]
  rw [readDigits, List.takeWhile_append_of_pos fun c hc => isDigit_of_mem_decimalNat hc, hstop,
    List.append_nil, foldl_decimalNat]

theorem mem_decimal {i : Int} {c : UInt8} (h : c ∈ decimal i) :
    c = 45 ∨ isDigit c = true := by
  rw [decimal] at h
  split at h
  · rcases List.mem_cons.mp h with rfl | hc
    · exact Or.inl rfl
    · exact Or.inr (isDigit_of_mem_decimalNat hc)
  · exact Or.inr (isDigit_of_mem_decimalNat h)

/-- Only digits and the sign occur in a number. -/
theorem not_mem_decimal {c : UInt8} (hsign : c ≠ 45) (hdigit : isDigit c = false) (i : Int) :
    c ∉ decimal i := by
  intro h
  rcases mem_decimal h with hc | hc
  · exact hsign hc
  · rw [hdigit] at hc
    cases hc

/-- A number that was printed reads back. -/
theorem atoi_decimal (i : Int) {tail : List UInt8} (h : EndsNumber tail) :
    atoi (decimal i ++ tail) = i := by
  rw [decimal]
  split
  · rename_i hneg
    have hspace : (45 :: decimalNat i.natAbs ++ tail).dropWhile isSpace =
        45 :: (decimalNat i.natAbs ++ tail) := rfl
    rw [atoi, hspace]
    simp only [readDigits_decimalNat _ h]
    omega
  · rename_i hpos
    have hvalue := readDigits_decimalNat i.natAbs h
    obtain ⟨c, rest, hc⟩ := List.exists_cons_of_ne_nil (decimalNat_ne_nil i.natAbs)
    have hmem : c ∈ decimalNat i.natAbs := hc ▸ List.mem_cons_self
    have hdigit := isDigit_of_mem_decimalNat hmem
    have hrange := isDigit_iff.mp hdigit
    rw [hc] at hvalue ⊢
    have hspace : isSpace c = false := by
      rw [isSpace, Bool.or_eq_false_iff, Bool.and_eq_false_iff]
      simp only [decide_eq_false_iff_not, UInt8.le_iff_toNat_le, ← UInt8.toNat_inj]
      simp only [UInt8.reduceToNat]
      omega
    have hdrop : (c :: rest ++ tail).dropWhile isSpace = c :: (rest ++ tail) := by
      rw [List.cons_append, List.dropWhile_cons, hspace, if_neg Bool.false_ne_true]
    have hminus : c ≠ 45 := by
      rintro rfl
      exact absurd hrange.1 (by decide)
    have hplus : c ≠ 43 := by
      rintro rfl
      exact absurd hrange.1 (by decide)
    rw [atoi, hdrop]
    split
    · rename_i heq
      exact absurd (List.cons.inj heq).1 hminus
    · rename_i heq
      exact absurd (List.cons.inj heq).1 hplus
    · rw [← List.cons_append, hvalue]
      omega

end Numbers

end DashInfer.Lib
