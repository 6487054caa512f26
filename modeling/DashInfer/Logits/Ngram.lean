import Mathlib
import DashInfer.Lib.Ngrams
import DashInfer.Logits.Agreement

/-!
What the n-gram pass of the CPU bans, and what that means for a generated
sequence. The pass is left out while the row is no longer than an n-gram, so a
row of `n` equal tokens may be continued by the same token.
-/

namespace DashInfer.Logits

open Lib

variable {h : History} {cfg : GenerateConfig} {n : Nat} {token : Int}

/-- The n-gram pass bans the token whatever its score. -/
def NgramBanned (h : History) (cfg : GenerateConfig) (token : Int) : Prop :=
  ∀ score, cpuNgram h cfg score token = banned

theorem length_tokens (h : History) : (tokens h).length = h.curLen := by
  rw [tokens, List.length_map, List.length_range]

theorem getElem?_tokens {k : Nat} (hk : k < h.curLen) : (tokens h)[k]? = some (h.ids k) := by
  rw [tokens, List.getElem?_map, List.getElem?_range hk, Option.map_some]

/-- A position bans what follows its n-gram if that n-gram starts with the last
tokens of the row. -/
theorem bans_iff (hsize : cfg.noRepeatNgramSize = n) (hn : 0 < n) {i : Nat} :
    Bans h cfg i ∧ h.ids (i + cfg.noRepeatNgramSize - 1) = token ↔
      i + n ≤ (tokens h).length ∧
        (∀ j, j + 1 < n → (tokens h)[i + j]? = (tokens h)[(tokens h).length + 1 - n + j]?) ∧
        (tokens h)[i + n - 1]? = some token := by
  rw [length_tokens]
  unfold Bans sameNgram
  rw [hsize]
  have hwindow : (i : Int) + n - 2 < h.curLen - 1 ↔ i + n ≤ h.curLen := by omega
  rw [hwindow, and_assoc]
  apply and_congr_right
  intro hi
  have hlast : ((i : Int) + n - 1) = ((i + n - 1 : Nat) : Int) := by omega
  rw [getElem?_tokens (by omega), hlast, Option.some.injEq]
  apply and_congr_left
  intro _
  constructor
  · intro hsame j hj
    have hat := hsame j (by omega)
    have hto : (h.curLen : Int) - n + j + 1 = ((h.curLen + 1 - n + j : Nat) : Int) := by omega
    rw [hto, ← Nat.cast_add] at hat
    rw [getElem?_tokens (by omega), getElem?_tokens (by omega), hat]
  · intro hsame j hj
    have hat := hsame j (by omega)
    have hto : (h.curLen : Int) - n + j + 1 = ((h.curLen + 1 - n + j : Nat) : Int) := by omega
    rw [getElem?_tokens (by omega), getElem?_tokens (by omega)] at hat
    rw [hto, ← Nat.cast_add]
    exact Option.some.inj hat

/-- The pass bans what makes an n-gram recur, once the row is longer than an
n-gram. -/
theorem ngramBanned_iff (hsize : cfg.noRepeatNgramSize = n) (hn : 0 < n) :
    NgramBanned h cfg token ↔ n < h.curLen ∧ Recurs n (tokens h) token := by
  have hzero : (0 : ℚ) ≠ banned := by
    unfold banned
    norm_num
  have hbanned : NgramBanned h cfg token ↔
      (cfg.noRepeatNgramSize ≠ 0 ∧ cfg.noRepeatNgramSize < h.curLen) ∧
        ∃ i ∈ List.range h.curLen, Bans h cfg i ∧ h.ids (i + cfg.noRepeatNgramSize - 1) = token := by
    unfold NgramBanned
    simp only [cpuNgram_apply]
    constructor
    · intro hall
      by_contra hnot
      have hscore := hall (fun _ => 0)
      rw [if_neg hnot] at hscore
      exact hzero hscore
    · intro hbans score
      rw [if_pos hbans]
  rw [hbanned, recurs_iff hn]
  have hruns : (cfg.noRepeatNgramSize ≠ 0 ∧ cfg.noRepeatNgramSize < h.curLen) ↔ n < h.curLen := by
    omega
  rw [hruns]
  apply and_congr_right
  intro _
  constructor
  · rintro ⟨i, -, hbans⟩
    exact ⟨i, (bans_iff hsize hn).mp hbans⟩
  · rintro ⟨i, hrecurs⟩
    have hi := hrecurs.1
    rw [length_tokens] at hi
    exact ⟨i, List.mem_range.mpr (by omega), (bans_iff hsize hn).mpr hrecurs⟩

/-- A token that the pass bans leaves the processor banned. -/
theorem NgramBanned.logitsProcessor (hbanned : NgramBanned h cfg token) (score : Scores) :
    cpuLogitsProcessor h cfg score token = banned := by
  have hpass := hbanned (cpuPresence h cfg (cpuRepetition h cfg score))
  unfold cpuLogitsProcessor cpuMinLength
  split
  next =>
    by_cases heos : token = cfg.eosTokenId
    · rw [heos, Function.update_self]
    · rw [Function.update_of_ne heos, hpass]
  next => exact hpass

/-- The banned tokens are those that would make an n-gram recur. -/
def NgramExact (n : Nat) (h : History) (cfg : GenerateConfig) : Prop :=
  ∀ token, NgramBanned h cfg token ↔ Recurs n (tokens h) token

theorem ngramExact_iff (hsize : cfg.noRepeatNgramSize = n) (hn : 0 < n) :
    NgramExact n h cfg ↔ ¬ (h.curLen = n ∧ ∀ token ∈ tokens h, token = h.ids 0) := by
  unfold NgramExact
  simp only [ngramBanned_iff hsize hn]
  constructor
  · rintro hexact ⟨hlen, hall⟩
    have hrecurs : Recurs n (tokens h) (h.ids 0) := by
      rw [← hlen, ← length_tokens h]
      exact recurs_length_iff.mpr hall
    have hlt := ((hexact _).mpr hrecurs).1
    omega
  · intro hnot token
    constructor
    · exact fun hbanned => hbanned.2
    · intro hrecurs
      refine ⟨?_, hrecurs⟩
      by_contra hlong
      have hle : n ≤ (tokens h).length := by
        obtain ⟨i, hi, -⟩ := hrecurs
        omega
      rw [length_tokens] at hle
      have hlen : h.curLen = n := by omega
      rw [← hlen, ← length_tokens h] at hrecurs
      have hall := recurs_length_iff.mp hrecurs
      have hfirst : h.ids 0 ∈ tokens h := mem_tokens.mpr ⟨0, h.nonempty, rfl⟩
      exact hnot ⟨hlen, fun x hx => (hall x hx).trans (hall _ hfirst).symm⟩

/-- The rows that a prompt can be continued to without a banned token. -/
inductive Generates (cfg : GenerateConfig) (prompt : List Int) : List Int → Prop where
  | prompt : Generates cfg prompt prompt
  | pick {l : List Int} {token : Int} (h : History) : Generates cfg prompt l → tokens h = l →
      ¬ NgramBanned h cfg token → Generates cfg prompt (l ++ [token])

/-- One picked token. -/
theorem twice_pick (hsize : cfg.noRepeatNgramSize = n) (hn : 0 < n)
    (hfree : ¬ NgramBanned h cfg token)
    (hso : Twice n (tokens h) ↔ ∃ a, List.replicate (n + 1) a <+: tokens h) :
    Twice n (tokens h ++ [token]) ↔ ∃ a, List.replicate (n + 1) a <+: tokens h ++ [token] := by
  rw [ngramBanned_iff hsize hn, ← length_tokens h] at hfree
  rw [twice_append_iff]
  rcases Nat.lt_trichotomy (tokens h).length n with hlt | heq | hgt
  · have hnot : ¬ ∃ a, List.replicate (n + 1) a <+: tokens h ++ [token] := by
      rintro ⟨a, hpre⟩
      have hle := hpre.length_le
      rw [List.length_replicate, List.length_append, List.length_singleton] at hle
      omega
    have htwice : ¬ Twice n (tokens h) := not_twice_of_length_le hlt.le
    have hrecurs : ¬ Recurs n (tokens h) token := not_recurs_of_length_lt hlt
    tauto
  · -- The row is one n-gram, and the pass does not run.
    have htwice : ¬ Twice n (tokens h) := not_twice_of_length_le heq.le
    have huniform : (∃ a, List.replicate (n + 1) a <+: tokens h ++ [token]) ↔
        ∀ x ∈ tokens h, x = token := by
      constructor
      · rintro ⟨a, hpre⟩
        have hall := hpre.eq_of_length (by
          rw [List.length_replicate, List.length_append, List.length_singleton, heq])
        have hmem : ∀ x ∈ tokens h ++ [token], x = a := by
          rw [← hall]
          exact fun x hx => List.eq_of_mem_replicate hx
        have hlast := hmem token (List.mem_append_right _ List.mem_cons_self)
        exact fun x hx => (hmem x (List.mem_append_left _ hx)).trans hlast.symm
      · intro hall
        refine ⟨token, ?_⟩
        rw [List.eq_replicate_of_mem hall, heq, ← List.replicate_succ']
    rw [huniform, ← heq, recurs_length_iff]
    rw [← heq] at htwice
    tauto
  · have hsame : (∃ a, List.replicate (n + 1) a <+: tokens h ++ [token]) ↔
        ∃ a, List.replicate (n + 1) a <+: tokens h := by
      apply exists_congr
      intro a
      constructor
      · intro hpre
        apply List.prefix_of_prefix_length_le hpre (List.prefix_append _ _)
        rw [List.length_replicate]
        exact hgt
      · exact fun hpre => hpre.trans (List.prefix_append _ _)
    rw [hsame, ← hso]
    tauto

/-- A run from a prompt shorter than an n-gram has an n-gram twice exactly if it
starts with `n + 1` equal tokens. -/
theorem twice_of_generates (hsize : cfg.noRepeatNgramSize = n) (hn : 0 < n) {prompt l : List Int}
    (hshort : prompt.length < n) (hrun : Generates cfg prompt l) :
    Twice n l ↔ ∃ a, List.replicate (n + 1) a <+: l := by
  induction hrun with
  | prompt =>
      constructor
      · intro htwice
        exact absurd htwice (not_twice_of_length_le hshort.le)
      · rintro ⟨a, hpre⟩
        have hle := hpre.length_le
        rw [List.length_replicate] at hle
        omega
  | pick h _ htokens hfree ih =>
      subst htokens
      exact twice_pick hsize hn hfree ih

/-- For every n-gram size, row and run: the pass is exact on a row if and only
if the row is not one n-gram of equal tokens, and a run from a shorter prompt
has no n-gram twice if and only if it does not start with `n + 1` equal tokens. -/
theorem noRepeatNgram_iff (hsize : cfg.noRepeatNgramSize = n) (hn : 1 ≤ n) :
    (∀ h, NgramExact n h cfg ↔ ¬ (h.curLen = n ∧ ∀ token ∈ tokens h, token = h.ids 0)) ∧
      ∀ prompt l, prompt.length < n → Generates cfg prompt l →
        (¬ Twice n l ↔ ¬ ∃ a, List.replicate (n + 1) a <+: l) := by
  refine ⟨fun h => ngramExact_iff hsize hn, ?_⟩
  intro prompt l hshort hrun
  exact not_congr (twice_of_generates hsize hn hshort hrun)

/-- No two tokens twice. -/
def bigrams : GenerateConfig where
  repetitionPenalty := 1
  presencePenalty := 0
  frequencyPenalty := 0
  suppressRepetitionInGeneration := false
  noRepeatNgramSize := 2
  minLength := 0
  eosTokenId := 9

theorem noRepeatNgram_iff_bigrams :
    (∀ h, NgramExact 2 h bigrams ↔ ¬ (h.curLen = 2 ∧ ∀ token ∈ tokens h, token = h.ids 0)) ∧
      ∀ prompt l, prompt.length < 2 → Generates bigrams prompt l →
        (¬ Twice 2 l ↔ ¬ ∃ a, List.replicate 3 a <+: l) :=
  noRepeatNgram_iff rfl (by decide)

/-- A row of fives. -/
def fives (curLen : Nat) (hpos : 0 < curLen) : History where
  ids := fun _ => 5
  curLen
  inputLen := 1
  maxLen := curLen
  inIdsLen := curLen
  vocabSize := 10
  nonempty := hpos
  fits := le_rfl
  held := le_rfl

/-- A third five behind two is not banned, so two fives come twice. -/
theorem fives_repeat :
    ¬ NgramExact 2 (fives 2 Nat.two_pos) bigrams ∧
      Generates bigrams [5] [5, 5, 5] ∧ Twice 2 ([5, 5, 5] : List Int) := by
  have hfree : ∀ len hpos, len ≤ 2 → ¬ NgramBanned (fives len hpos) bigrams 5 := by
    intro len hpos hle hbanned
    have hlt := ((ngramBanned_iff rfl Nat.two_pos).mp hbanned).1
    exact absurd hlt (Nat.not_lt.mpr hle)
  refine ⟨?_, ?_, ⟨0, 1, by decide, by decide, rfl⟩⟩
  · intro hexact
    exact (ngramExact_iff rfl Nat.two_pos).mp hexact ⟨rfl, by decide⟩
  · have hone : Generates bigrams [5] ([5] ++ [5]) :=
      .pick (fives 1 Nat.one_pos) .prompt rfl (hfree 1 Nat.one_pos (by decide))
    exact .pick (fives 2 Nat.two_pos) hone rfl (hfree 2 Nat.two_pos (by decide))

end DashInfer.Logits
