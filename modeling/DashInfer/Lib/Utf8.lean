import Mathlib.Data.List.Forall2
import Mathlib.Tactic.Linarith

/-!
Codes in which no code word starts another one, so that a text has one reading,
and the code of the code points of up to 21 bits in one to four bytes, as it
follows from the lead byte. It has more than one code word for a code point, as
overlong forms are not left out.
-/

namespace DashInfer.Lib

section PrefixCode

variable {α β : Type}

/-- No word is empty, and none starts another. -/
structure PrefixCode (word : List α → β → Prop) : Prop where
  ne_nil : ∀ {l v}, word l v → l ≠ []
  cancel : ∀ {l l' r r' v v'}, word l v → word l' v' → l ++ r = l' ++ r' → l = l' ∧ v = v'

variable {word : List α → β → Prop} {words words' : List (List α)} {vs vs' : List β}

/-- A text has at most one reading. -/
theorem PrefixCode.unique (h : PrefixCode word) (hwords : List.Forall₂ word words vs)
    (hwords' : List.Forall₂ word words' vs') (heq : words.flatten = words'.flatten) :
    words = words' ∧ vs = vs' := by
  induction hwords generalizing words' vs' with
  | nil =>
      cases hwords' with
      | nil => exact ⟨rfl, rfl⟩
      | cons hhead _ =>
          simp only [List.flatten_nil, List.flatten_cons] at heq
          exact absurd (List.append_eq_nil_iff.mp heq.symm).1 (h.ne_nil hhead)
  | cons hhead htail ih =>
      cases hwords' with
      | nil =>
          simp only [List.flatten_nil, List.flatten_cons] at heq
          exact absurd (List.append_eq_nil_iff.mp heq).1 (h.ne_nil hhead)
      | cons hhead' htail' =>
          simp only [List.flatten_cons] at heq
          obtain ⟨rfl, rfl⟩ := h.cancel hhead hhead' heq
          obtain ⟨rfl, rfl⟩ := ih htail' (List.append_cancel_left heq)
          exact ⟨rfl, rfl⟩

theorem PrefixCode.flatten_eq_nil (h : PrefixCode word) (hwords : List.Forall₂ word words vs)
    (hnil : words.flatten = []) : vs = [] := by
  cases hwords with
  | nil => rfl
  | cons hhead _ =>
      simp only [List.flatten_cons] at hnil
      exact absurd (List.append_eq_nil_iff.mp hnil).1 (h.ne_nil hhead)

/-- A code carried over to symbols and values that are named one to one. -/
theorem PrefixCode.comap {γ δ : Type} {f : γ → α} {g : δ → β} (h : PrefixCode word)
    (hf : Function.Injective f) (hg : Function.Injective g) :
    PrefixCode (fun l v => word (l.map f) (g v)) := by
  constructor
  · intro l v hl hnil
    exact h.ne_nil hl (by simp [hnil])
  · intro l l' r r' v v' hl hl' heq
    have hmap : l.map f ++ r.map f = l'.map f ++ r'.map f := by
      rw [← List.map_append, heq, List.map_append]
    obtain ⟨hwords, hvalues⟩ := h.cancel hl hl' hmap
    exact ⟨List.map_injective_iff.mpr hf hwords, hg hvalues⟩

end PrefixCode

namespace Utf8

/-- A byte inside a code word. -/
def Tail (b : Nat) : Prop := 128 ≤ b ∧ b < 192

instance (b : Nat) : Decidable (Tail b) := inferInstanceAs (Decidable (_ ∧ _))

/-- The code words with their values. -/
inductive Form : List Nat → Nat → Prop
  | one {a : Nat} : a < 128 → Form [a] a
  | two {a b : Nat} : 192 ≤ a → a < 224 → Tail b → Form [a, b] (a % 32 * 64 + b % 64)
  | three {a b c : Nat} : 224 ≤ a → a < 240 → Tail b → Tail c →
      Form [a, b, c] (a % 16 * 4096 + b % 64 * 64 + c % 64)
  | four {a b c d : Nat} : 240 ≤ a → a < 248 → Tail b → Tail c → Tail d →
      Form [a, b, c, d] (a % 8 * 262144 + b % 64 * 4096 + c % 64 * 64 + d % 64)

theorem prefixCode_form : PrefixCode Form := by
  constructor
  · intro l v h
    cases h <;> simp
  · intro l l' r r' v v' h h' heq
    cases h with
    | one =>
        cases h' <;> simp only [List.cons_append, List.nil_append, List.cons.injEq] at heq
        · obtain ⟨rfl, _⟩ := heq
          exact ⟨rfl, rfl⟩
        all_goals omega
    | two =>
        cases h' <;> simp only [List.cons_append, List.nil_append, List.cons.injEq] at heq
        case two =>
          obtain ⟨rfl, rfl, _⟩ := heq
          exact ⟨rfl, rfl⟩
        all_goals omega
    | three =>
        cases h' <;> simp only [List.cons_append, List.nil_append, List.cons.injEq] at heq
        case three =>
          obtain ⟨rfl, rfl, rfl, _⟩ := heq
          exact ⟨rfl, rfl⟩
        all_goals omega
    | four =>
        cases h' <;> simp only [List.cons_append, List.nil_append, List.cons.injEq] at heq
        case four =>
          obtain ⟨rfl, rfl, rfl, rfl, _⟩ := heq
          exact ⟨rfl, rfl⟩
        all_goals omega

/-- The shortest code word of a code point. -/
def encode (v : Nat) : List Nat :=
  if v < 128 then [v]
  else if v < 2048 then [192 + v / 64, 128 + v % 64]
  else if v < 65536 then [224 + v / 4096, 128 + v / 64 % 64, 128 + v % 64]
  else [240 + v / 262144, 128 + v / 4096 % 64, 128 + v / 64 % 64, 128 + v % 64]

theorem form_encode {v : Nat} (h : v < 2097152) : Form (encode v) v := by
  have htail : ∀ n, Tail (128 + n % 64) := fun n => ⟨by omega, by omega⟩
  unfold encode
  split
  · rename_i hsmall
    exact .one hsmall
  · split
    · have hform := Form.two (a := 192 + v / 64) (by omega) (by omega) (htail v)
      have hvalue : (192 + v / 64) % 32 * 64 + (128 + v % 64) % 64 = v := by omega
      rwa [hvalue] at hform
    · split
      · have hform := Form.three (a := 224 + v / 4096) (by omega) (by omega) (htail (v / 64))
          (htail v)
        have hvalue : (224 + v / 4096) % 16 * 4096 + (128 + v / 64 % 64) % 64 * 64 +
            (128 + v % 64) % 64 = v := by omega
        rwa [hvalue] at hform
      · have hform := Form.four (a := 240 + v / 262144) (by omega) (by omega) (htail (v / 4096))
          (htail (v / 64)) (htail v)
        have hvalue : (240 + v / 262144) % 8 * 262144 + (128 + v / 4096 % 64) % 64 * 4096 +
            (128 + v / 64 % 64) % 64 * 64 + (128 + v % 64) % 64 = v := by omega
        rwa [hvalue] at hform

/-- The length of the shortest code word says between which bounds its code
point is. -/
theorem length_encode (v : Nat) :
    (v < 128 ∧ (encode v).length = 1) ∨ (128 ≤ v ∧ v < 2048 ∧ (encode v).length = 2) ∨
      (2048 ≤ v ∧ v < 65536 ∧ (encode v).length = 3) ∨ (65536 ≤ v ∧ (encode v).length = 4) := by
  unfold encode
  split
  · exact .inl ⟨‹_›, rfl⟩
  · split
    · exact .inr (.inl ⟨by omega, ‹_›, rfl⟩)
    · split
      · exact .inr (.inr (.inl ⟨by omega, ‹_›, rfl⟩))
      · exact .inr (.inr (.inr ⟨by omega, rfl⟩))

/-- A code word of a code point has the length of the shortest or is longer. -/
theorem Form.length_encode {l : List Nat} {v : Nat} (h : Form l v) :
    (encode v).length ≤ l.length := by
  have hv := Utf8.length_encode v
  cases h <;> simp only [List.length_cons, List.length_nil] <;> omega

/-- Only the shortest code word is that short. -/
theorem Form.eq_encode {l : List Nat} {v : Nat} (h : Form l v)
    (hlen : l.length = (encode v).length) : l = encode v := by
  have hv := Utf8.length_encode v
  cases h with
  | one hsmall => simp [encode, hsmall]
  | @two a b hlow hhigh hb =>
      simp only [List.length_cons, List.length_nil] at hlen
      obtain ⟨hb128, hb192⟩ := hb
      rw [encode, if_neg (by omega), if_pos (by omega)]
      simp only [List.cons.injEq, and_true]
      omega
  | @three a b c hlow hhigh hb hc =>
      simp only [List.length_cons, List.length_nil] at hlen
      obtain ⟨hb128, hb192⟩ := hb
      obtain ⟨hc128, hc192⟩ := hc
      rw [encode, if_neg (by omega), if_neg (by omega), if_pos (by omega)]
      simp only [List.cons.injEq, and_true]
      omega
  | @four a b c d hlow hhigh hb hc hd =>
      simp only [List.length_cons, List.length_nil] at hlen
      obtain ⟨hb128, hb192⟩ := hb
      obtain ⟨hc128, hc192⟩ := hc
      obtain ⟨hd128, hd192⟩ := hd
      rw [encode, if_neg (by omega), if_neg (by omega), if_neg (by omega)]
      simp only [List.cons.injEq, and_true]
      omega

end Utf8

end DashInfer.Lib
