import DashInfer.Lib.Threads
import Mathlib.Algebra.Order.Field.Rat
import Mathlib.Data.List.TakeWhile
import Mathlib.Logic.Function.Basic
import Mathlib.Tactic

/-!
The two `LogitsProcessor`s, for one row of a batch: the sequential one of the
CPU, and the CUDA one, in which every position of the row has a thread. Scores
are exact numbers, addressed from the start of the row; the tokens of the row
are read from memory the same way.
-/

namespace DashInfer.Logits

abbrev Scores := Int → ℚ

/-- The row a sampling step works on: `curLen` tokens, `inputLen` of them from
the prompt, in a buffer of `maxLen`. -/
structure History where
  ids : Int → Int
  curLen : Nat
  inputLen : Nat
  maxLen : Nat
  inIdsLen : Nat
  vocabSize : Nat
  nonempty : 0 < curLen
  fits : curLen ≤ maxLen
  held : maxLen ≤ inIdsLen

/-- The fields of `GenerateConfig` the processors read. -/
structure GenerateConfig where
  repetitionPenalty : ℚ
  presencePenalty : ℚ
  frequencyPenalty : ℚ
  suppressRepetitionInGeneration : Bool
  noRepeatNgramSize : Int
  minLength : Int
  eosTokenId : Int

variable (h : History) (cfg : GenerateConfig)

/-- The score of a token that must not come. -/
def banned : ℚ := -1000000000

/-- What the repetition penalty makes of a score. -/
def repeated (score : ℚ) : ℚ :=
  if score < 0 then score * cfg.repetitionPenalty else score / cfg.repetitionPenalty

def inVocab (token : Int) : Prop := 0 ≤ token ∧ token < h.vocabSize

instance (token : Int) : Decidable (inVocab h token) := inferInstanceAs (Decidable (_ ∧ _))

/-! ## CPU -/

/-- The loop of `rep_logits_processor` and of `presence_logits_processor`, which
differ in what they make of a score. A `return` ends the loop. -/
def cpuLoop (change : ℚ → ℚ) (scoreIn : Scores) : List Nat → Scores → Scores
  | [], scoreOut => scoreOut
  | i :: rest, scoreOut =>
      if cfg.suppressRepetitionInGeneration ∧ i < h.inputLen then scoreOut
      else if h.inIdsLen < i then scoreOut
      else if h.ids i < 0 ∨ h.vocabSize ≤ h.ids i then scoreOut
      else cpuLoop change scoreIn rest
        (Function.update scoreOut (h.ids i) (change (scoreIn (h.ids i))))

/-- `fabs(penalty - neutral) > 1e-9`. -/
def penalizes (penalty neutral : ℚ) : Prop := 1 / 10 ^ 9 < |penalty - neutral|

instance (penalty neutral : ℚ) : Decidable (penalizes penalty neutral) :=
  inferInstanceAs (Decidable (_ < _))

def cpuRepetition (score : Scores) : Scores :=
  if penalizes cfg.repetitionPenalty 1 then
    cpuLoop h cfg (repeated cfg) score (List.range h.curLen) score
  else score

def cpuPresence (score : Scores) : Scores :=
  if penalizes cfg.presencePenalty 0 then
    cpuLoop h cfg (· - cfg.presencePenalty) score (List.range h.curLen) score
  else score

/-- The comparison of the n-gram at position `i` with the last one; neither has
its last token. -/
def sameNgram (i : Nat) : Prop :=
  ∀ j < (cfg.noRepeatNgramSize - 1).toNat,
    h.ids (i + j) = h.ids (h.curLen - cfg.noRepeatNgramSize + j + 1)

instance (i : Nat) : Decidable (sameNgram h cfg i) :=
  inferInstanceAs (Decidable (∀ j < _, _))

/-- What one position does in `n_gram_logits_processor`, on either side. -/
def banNgram (score : Scores) (i : Nat) : Scores :=
  if (i : Int) + cfg.noRepeatNgramSize - 2 < h.curLen - 1 ∧ sameNgram h cfg i then
    Function.update score (h.ids (i + cfg.noRepeatNgramSize - 1)) banned
  else score

def cpuNgram (score : Scores) : Scores :=
  if cfg.noRepeatNgramSize ≠ 0 ∧ cfg.noRepeatNgramSize < h.curLen then
    (List.range h.curLen).foldl (banNgram h cfg) score
  else score

def cpuMinLength (score : Scores) : Scores :=
  if (h.curLen : Int) < cfg.minLength then Function.update score cfg.eosTokenId banned else score

/-- The CPU `LogitsProcessor`; the caller passes no bad words. -/
def cpuLogitsProcessor (score : Scores) : Scores :=
  cpuMinLength h cfg (cpuNgram h cfg (cpuPresence h cfg (cpuRepetition h cfg score)))

/-! ## CUDA -/

/-- A thread of `rep_logits_processor`. -/
def cudaRepetitionThread (scoreIn scoreOut : Scores) (i : Nat) : Scores :=
  if cfg.suppressRepetitionInGeneration ∧ i < h.inputLen then scoreOut
  else if h.curLen ≤ i then scoreOut
  else if h.ids i < 0 ∨ h.vocabSize ≤ h.ids i then scoreOut
  else Function.update scoreOut (h.ids i) (repeated cfg (scoreIn (h.ids i)))

def cudaRepetition (score : Scores) : Scores :=
  (List.range h.maxLen).foldl (cudaRepetitionThread h cfg score) score

/-- A thread of `token_count_processor`. -/
def cudaCountThread (count : Int → Nat) (i : Nat) : Int → Nat :=
  if i < h.inputLen ∨ h.curLen ≤ i then count
  else if h.ids i < 0 ∨ h.vocabSize ≤ h.ids i then count
  else Function.update count (h.ids i) (count (h.ids i) + 1)

def cudaTokenCount : Int → Nat :=
  (List.range h.maxLen).foldl (cudaCountThread h) (fun _ => 0)

/-- `penalty_logits_processor`. -/
def cudaPenalty (score : Scores) : Scores := fun token =>
  if inVocab h token then
    score token - (cudaTokenCount h token * cfg.frequencyPenalty +
      if 0 < cudaTokenCount h token then cfg.presencePenalty else 0)
  else score token

def cudaNgramThread (score : Scores) (i : Nat) : Scores :=
  if i < h.curLen ∧ 0 < cfg.noRepeatNgramSize then banNgram h cfg score i else score

def cudaNgram (score : Scores) : Scores :=
  (List.range h.maxLen).foldl (cudaNgramThread h cfg) score

def cudaMinLength (score : Scores) : Scores :=
  if (h.curLen : Int) < cfg.minLength then Function.update score cfg.eosTokenId banned else score

/-- The CUDA `LogitsProcessor`. -/
def cudaLogitsProcessor (score : Scores) : Scores :=
  cudaMinLength h cfg (cudaNgram h cfg (cudaPenalty h cfg (cudaRepetition h cfg score)))

/-- Both sides change the same scores in the same way, pass by pass. -/
structure SameChanges : Prop where
  repetition : ∀ score, cpuRepetition h cfg score = cudaRepetition h cfg score
  presenceAndFrequency : ∀ score, cpuPresence h cfg score = cudaPenalty h cfg score
  ngram : ∀ score, cpuNgram h cfg score = cudaNgram h cfg score
  minLength : ∀ score, cpuMinLength h cfg score = cudaMinLength h cfg score

variable {h cfg}

theorem SameChanges.logitsProcessor (same : SameChanges h cfg) (score : Scores) :
    cpuLogitsProcessor h cfg score = cudaLogitsProcessor h cfg score := by
  rw [cpuLogitsProcessor, same.repetition, same.presenceAndFrequency, same.ngram, same.minLength]
  rfl

end DashInfer.Logits

/-!
When the two sides agree. Each pass is first written as what it does to the
score of one token, in terms of the tokens of the row.
-/

namespace DashInfer.Logits

open Lib

variable (h : History) (cfg : GenerateConfig)

/-- The tokens of the row so far. -/
def tokens : List Int := (List.range h.curLen).map (fun i : Nat => h.ids i)

/-- Those after the prompt. -/
def generated : List Int := (tokens h).drop h.inputLen

/-- The tokens the loops of the CPU come to: those before the first id that is
no token of the vocabulary, and none if the prompt is to be left out. -/
def cpuReached : List Int :=
  if cfg.suppressRepetitionInGeneration ∧ 0 < h.inputLen then []
  else (tokens h).takeWhile (fun token => inVocab h token)

/-- The tokens whose threads write a repeated score. -/
def cudaRepeated : List Int :=
  (if cfg.suppressRepetitionInGeneration then generated h else tokens h).filter
    (fun token => inVocab h token)

variable {h cfg}

section Passes

variable {change : ℚ → ℚ} {scoreIn scoreOut score : Scores} {token : Int}

/-- The positions at which the loop of the CPU does not stop. -/
def Passes (h : History) (cfg : GenerateConfig) (i : Nat) : Prop :=
  ¬ (cfg.suppressRepetitionInGeneration ∧ i < h.inputLen) ∧ inVocab h (h.ids i)

instance (i : Nat) : Decidable (Passes h cfg i) := inferInstanceAs (Decidable (_ ∧ _))

theorem cpuLoop_apply {positions : List Nat} (hin : ∀ i ∈ positions, i ≤ h.inIdsLen) :
    cpuLoop h cfg change scoreIn positions scoreOut token =
      if token ∈ (positions.takeWhile (fun i => Passes h cfg i)).map (fun i : Nat => h.ids i) then
        change (scoreIn token)
      else scoreOut token := by
  induction positions generalizing scoreOut with
  | nil => simp [cpuLoop]
  | cons i rest ih =>
      rw [List.forall_mem_cons] at hin
      have hlen : ¬ h.inIdsLen < i := by omega
      by_cases hpasses : Passes h cfg i
      · obtain ⟨hnot, hlow, hhigh⟩ := hpasses
        have hpasses : Passes h cfg i := ⟨hnot, hlow, hhigh⟩
        have hvocab : ¬ (h.ids i < 0 ∨ (h.vocabSize : Int) ≤ h.ids i) := by omega
        simp only [cpuLoop, hnot, hlen, hvocab, if_false]
        rw [ih hin.2]
        simp only [List.takeWhile_cons, hpasses, decide_true, if_true, List.map_cons,
          List.mem_cons]
        by_cases htoken : token = h.ids i
        · simp [htoken]
        · simp [htoken]
      · have hstop : cpuLoop h cfg change scoreIn (i :: rest) scoreOut = scoreOut := by
          unfold Passes inVocab at hpasses
          simp only [cpuLoop, hlen, if_false]
          split
          · rfl
          · split
            · rfl
            · next hnot hvocab =>
                exact absurd ⟨hnot, by omega, by omega⟩ hpasses
        rw [hstop]
        simp [hpasses]

theorem takeWhile_passes :
    ((List.range h.curLen).takeWhile (fun i => Passes h cfg i)).map (fun i : Nat => h.ids i) =
      cpuReached h cfg := by
  unfold cpuReached tokens
  split
  · next hsuppressed =>
      obtain ⟨count, hcount⟩ := Nat.exists_eq_succ_of_ne_zero h.nonempty.ne'
      have hfirst : ¬ Passes h cfg 0 := fun hpasses => hpasses.1 hsuppressed
      rw [hcount, List.range_succ_eq_map, List.takeWhile_cons]
      simp [hfirst]
  · next hfree =>
      have hsame : ∀ i, Passes h cfg i ↔ inVocab h (h.ids i) := by
        intro i
        unfold Passes
        constructor
        · exact fun hpasses => hpasses.2
        · intro hvocab
          refine ⟨?_, hvocab⟩
          rintro ⟨hsuppress, hlt⟩
          exact hfree ⟨hsuppress, by omega⟩
      simp only [hsame]
      rw [List.takeWhile_map]
      rfl

/-- A pass of the CPU over the whole row. -/
theorem cpuLoop_range :
    cpuLoop h cfg change score (List.range h.curLen) score token =
      if token ∈ cpuReached h cfg then change (score token) else score token := by
  have hin : ∀ i ∈ List.range h.curLen, i ≤ h.inIdsLen := by
    intro i hi
    have hlt := List.mem_range.mp hi
    have hfits := h.fits
    have hheld := h.held
    omega
  rw [cpuLoop_apply hin, takeWhile_passes]

theorem inVocab_of_cpuReached (hmem : token ∈ cpuReached h cfg) : inVocab h token := by
  unfold cpuReached at hmem
  split at hmem
  · cases hmem
  · simpa using List.mem_takeWhile_imp hmem

theorem mem_tokens : token ∈ tokens h ↔ ∃ i < h.curLen, h.ids i = token := by
  simp [tokens]

theorem generated_eq : generated h =
    (List.range' h.inputLen (h.curLen - h.inputLen)).map (fun i : Nat => h.ids i) := by
  unfold generated tokens
  rw [← List.map_drop, List.range_eq_range', List.drop_range']
  simp

theorem mem_generated :
    token ∈ generated h ↔ ∃ i, h.inputLen ≤ i ∧ i < h.curLen ∧ h.ids (i : Nat) = token := by
  rw [generated_eq, List.mem_map]
  constructor
  · rintro ⟨i, hi, rfl⟩
    rw [List.mem_range'_1] at hi
    exact ⟨i, hi.1, by omega, rfl⟩
  · rintro ⟨i, hle, hlt, rfl⟩
    exact ⟨i, List.mem_range'_1.mpr ⟨hle, by omega⟩, rfl⟩

/-- The positions whose threads write in the repetition kernel. -/
def Repeats (h : History) (cfg : GenerateConfig) (i : Nat) : Prop :=
  ¬ (cfg.suppressRepetitionInGeneration ∧ i < h.inputLen) ∧ i < h.curLen ∧ inVocab h (h.ids i)

instance : DecidablePred (Repeats h cfg) := fun _ => inferInstanceAs (Decidable (_ ∧ _ ∧ _))

theorem mem_cudaRepeated : token ∈ cudaRepeated h cfg ↔
    ∃ i ∈ List.range h.maxLen, Repeats h cfg i ∧ h.ids i = token := by
  have hfits := h.fits
  unfold cudaRepeated Repeats
  rw [List.mem_filter]
  cases hsuppress : cfg.suppressRepetitionInGeneration with
  | false =>
      simp only [Bool.false_eq_true, if_false, mem_tokens, decide_eq_true_eq, false_and,
        not_false_eq_true, true_and, List.mem_range]
      constructor
      · rintro ⟨⟨i, hi, rfl⟩, hvocab⟩
        exact ⟨i, by omega, ⟨hi, hvocab⟩, rfl⟩
      · rintro ⟨i, _, ⟨hi, hvocab⟩, rfl⟩
        exact ⟨⟨i, hi, rfl⟩, hvocab⟩
  | true =>
      simp only [if_true, mem_generated, decide_eq_true_eq, true_and, not_lt, List.mem_range]
      constructor
      · rintro ⟨⟨i, hle, hi, rfl⟩, hvocab⟩
        exact ⟨i, by omega, ⟨hle, hi, hvocab⟩, rfl⟩
      · rintro ⟨i, _, ⟨hle, hi, hvocab⟩, rfl⟩
        exact ⟨⟨i, hle, hi, rfl⟩, hvocab⟩

theorem cudaRepetitionThread_eq : cudaRepetitionThread h cfg score =
    writeThread (Repeats h cfg) (fun i : Nat => h.ids i) (fun token => repeated cfg (score token)) := by
  funext memory i
  unfold cudaRepetitionThread writeThread
  split
  · next hsuppressed =>
      have hnot : ¬ Repeats h cfg i := fun hr => hr.1 hsuppressed
      simp only [hnot, if_false]
  · next hfree =>
      split
      · next hlate =>
          have hnot : ¬ Repeats h cfg i := fun hr => absurd hr.2.1 (not_lt.mpr hlate)
          simp only [hnot, if_false]
      · next hearly =>
          split
          · next hout =>
              have hnot : ¬ Repeats h cfg i := by
                rintro ⟨_, _, hlow, hhigh⟩
                omega
              simp only [hnot, if_false]
          · next hin =>
              have hwrites : Repeats h cfg i := ⟨hfree, by omega, by omega, by omega⟩
              simp only [hwrites, if_true]

theorem cudaRepetition_apply : cudaRepetition h cfg score token =
    if token ∈ cudaRepeated h cfg then repeated cfg (score token) else score token := by
  unfold cudaRepetition
  rw [cudaRepetitionThread_eq, foldl_writeThread]
  simp only [mem_cudaRepeated]

/-- The positions the count kernel counts. -/
def Counts (h : History) (i : Nat) : Prop :=
  h.inputLen ≤ i ∧ i < h.curLen ∧ inVocab h (h.ids i)

instance : DecidablePred (Counts h) := fun _ => inferInstanceAs (Decidable (_ ∧ _ ∧ _))

theorem cudaCountThread_eq :
    cudaCountThread h = countThread (Counts h) (fun i : Nat => h.ids i) := by
  funext count i
  unfold cudaCountThread countThread
  split
  · next houtside =>
      have hnot : ¬ Counts h i := by
        rintro ⟨hle, hlt, _⟩
        omega
      simp only [hnot, if_false]
  · next hinside =>
      split
      · next hout =>
          have hnot : ¬ Counts h i := by
            rintro ⟨_, _, hlow, hhigh⟩
            omega
          simp only [hnot, if_false]
      · next hin =>
          have hcounts : Counts h i := ⟨by omega, by omega, by omega, by omega⟩
          simp only [hcounts, if_true]

theorem countP_range (hvocab : inVocab h token) :
    (List.range h.maxLen).countP (fun i => Counts h i ∧ h.ids i = token) =
      (generated h).count token := by
  have hfits := h.fits
  rw [generated_eq, List.count_eq_countP, List.countP_map]
  rcases Nat.le_total h.inputLen h.curLen with hle | hle
  · have hsplit : List.range h.maxLen = List.range' 0 h.inputLen ++
        (List.range' h.inputLen (h.curLen - h.inputLen) ++
          List.range' h.curLen (h.maxLen - h.curLen)) := by
      have h₁ := @List.range'_append_1 h.inputLen (h.curLen - h.inputLen) (h.maxLen - h.curLen)
      have h₂ := @List.range'_append_1 0 h.inputLen (h.maxLen - h.inputLen)
      rw [Nat.add_sub_cancel' hle] at h₁
      rw [Nat.zero_add, Nat.add_sub_cancel' (by omega)] at h₂
      rw [h₁, show h.curLen - h.inputLen + (h.maxLen - h.curLen) = h.maxLen - h.inputLen by omega,
        h₂, List.range_eq_range']
    rw [hsplit, List.countP_append, List.countP_append]
    have hbefore : (List.range' 0 h.inputLen).countP
        (fun i => Counts h i ∧ h.ids i = token) = 0 := by
      rw [List.countP_eq_zero]
      intro i hi
      have := (List.mem_range'_1.mp hi).2
      simp only [decide_eq_true_eq]
      rintro ⟨⟨hge, _⟩, _⟩
      omega
    have hafter : (List.range' h.curLen (h.maxLen - h.curLen)).countP
        (fun i => Counts h i ∧ h.ids i = token) = 0 := by
      rw [List.countP_eq_zero]
      intro i hi
      have := (List.mem_range'_1.mp hi).1
      simp only [decide_eq_true_eq]
      rintro ⟨⟨_, hlt, _⟩, _⟩
      omega
    rw [hbefore, hafter, Nat.zero_add, Nat.add_zero]
    apply List.countP_congr
    intro i hi
    have hi := List.mem_range'_1.mp hi
    simp only [decide_eq_true_eq, Function.comp_apply, beq_iff_eq]
    constructor
    · exact fun hcount => hcount.2
    · intro heq
      exact ⟨⟨hi.1, by omega, heq ▸ hvocab⟩, heq⟩
  · rw [Nat.sub_eq_zero_of_le hle, List.range'_zero, List.countP_nil, List.countP_eq_zero]
    intro i _
    simp only [decide_eq_true_eq]
    rintro ⟨⟨hge, hlt, _⟩, _⟩
    omega

theorem cudaTokenCount_of_inVocab (hvocab : inVocab h token) :
    cudaTokenCount h token = (generated h).count token := by
  unfold cudaTokenCount
  rw [cudaCountThread_eq, foldl_countThread, Nat.zero_add, countP_range hvocab]

theorem cudaPenalty_apply : cudaPenalty h cfg score token =
    if inVocab h token then
      score token - ((generated h).count token * cfg.frequencyPenalty +
        if token ∈ generated h then cfg.presencePenalty else 0)
    else score token := by
  unfold cudaPenalty
  split
  · next hvocab =>
      simp only [cudaTokenCount_of_inVocab hvocab, List.count_pos_iff]
  · rfl

theorem cpuRepetition_apply : cpuRepetition h cfg score token =
    if penalizes cfg.repetitionPenalty 1 ∧ token ∈ cpuReached h cfg then
      repeated cfg (score token)
    else score token := by
  unfold cpuRepetition
  split
  · next hpenalizes => simp only [cpuLoop_range, hpenalizes, true_and]
  · next hnot => simp only [hnot, false_and, if_false]

theorem cpuPresence_apply : cpuPresence h cfg score token =
    score token - if penalizes cfg.presencePenalty 0 ∧ token ∈ cpuReached h cfg then
      cfg.presencePenalty
    else 0 := by
  unfold cpuPresence
  split
  · next hpenalizes =>
      simp only [cpuLoop_range, hpenalizes, true_and]
      split <;> simp
  · next hnot => simp only [hnot, false_and, if_false, sub_zero]

/-- The positions that ban the token after their n-gram. -/
def Bans (h : History) (cfg : GenerateConfig) (i : Nat) : Prop :=
  (i : Int) + cfg.noRepeatNgramSize - 2 < h.curLen - 1 ∧ sameNgram h cfg i

instance : DecidablePred (Bans h cfg) := fun _ => inferInstanceAs (Decidable (_ ∧ _))

theorem cpuNgram_apply : cpuNgram h cfg score token =
    if (cfg.noRepeatNgramSize ≠ 0 ∧ cfg.noRepeatNgramSize < h.curLen) ∧
      ∃ i ∈ List.range h.curLen, Bans h cfg i ∧ h.ids (i + cfg.noRepeatNgramSize - 1) = token
    then banned else score token := by
  have hthread : banNgram h cfg = writeThread (Bans h cfg)
      (fun i : Nat => h.ids (i + cfg.noRepeatNgramSize - 1)) (fun _ => banned) := rfl
  unfold cpuNgram
  split
  · next hruns =>
      rw [hthread, foldl_writeThread]
      simp only [hruns, not_false_eq_true, ne_eq, true_and]
  · next hnot => simp only [hnot, false_and, if_false]

theorem cudaNgram_apply : cudaNgram h cfg score token =
    if ∃ i ∈ List.range h.maxLen, ((i < h.curLen ∧ 0 < cfg.noRepeatNgramSize) ∧ Bans h cfg i) ∧
      h.ids (i + cfg.noRepeatNgramSize - 1) = token
    then banned else score token := by
  have hthread : cudaNgramThread h cfg = writeThread
      (fun i => (i < h.curLen ∧ 0 < cfg.noRepeatNgramSize) ∧ Bans h cfg i)
      (fun i : Nat => h.ids (i + cfg.noRepeatNgramSize - 1)) (fun _ => banned) := by
    funext memory i
    unfold cudaNgramThread writeThread banNgram
    by_cases hruns : i < h.curLen ∧ 0 < cfg.noRepeatNgramSize
    · simp only [hruns, and_self, if_true, true_and]
      rfl
    · simp only [hruns, if_false, false_and]
  unfold cudaNgram
  rw [hthread, foldl_writeThread]

end Passes

section Agreement

theorem repeated_one (hone : cfg.repetitionPenalty = 1) (score : ℚ) : repeated cfg score = score := by
  unfold repeated
  simp [hone]

theorem repetition_iff : (∀ score, cpuRepetition h cfg score = cudaRepetition h cfg score) ↔
    cfg.repetitionPenalty = 1 ∨ ∀ token,
      (penalizes cfg.repetitionPenalty 1 ∧ token ∈ cpuReached h cfg) ↔
        token ∈ cudaRepeated h cfg := by
  constructor
  · intro hsame
    by_cases hone : cfg.repetitionPenalty = 1
    · exact .inl hone
    · right
      intro token
      -- the score 1 shows whether the penalty was applied
      have hvalue : repeated cfg 1 ≠ 1 := by
        unfold repeated
        rw [if_neg (by norm_num)]
        intro hquotient
        rcases eq_or_ne cfg.repetitionPenalty 0 with hzero | hzero
        · rw [hzero] at hquotient
          norm_num at hquotient
        · rw [div_eq_one_iff_eq hzero] at hquotient
          exact hone hquotient.symm
      have htoken := congrFun (hsame (fun _ => 1)) token
      rw [cpuRepetition_apply, cudaRepetition_apply] at htoken
      constructor
      · intro hcpu
        by_contra hcuda
        rw [if_pos hcpu, if_neg hcuda] at htoken
        exact hvalue htoken
      · intro hcuda
        by_contra hcpu
        rw [if_neg hcpu, if_pos hcuda] at htoken
        exact hvalue htoken.symm
  · rintro (hone | hsets) score
    · funext token
      rw [cpuRepetition_apply, cudaRepetition_apply]
      simp only [repeated_one hone, ite_self]
    · funext token
      rw [cpuRepetition_apply, cudaRepetition_apply]
      simp only [hsets token]

theorem presenceAndFrequency_iff : (∀ score, cpuPresence h cfg score = cudaPenalty h cfg score) ↔
    ∀ token, inVocab h token →
      (if penalizes cfg.presencePenalty 0 ∧ token ∈ cpuReached h cfg then cfg.presencePenalty
        else 0) =
      (generated h).count token * cfg.frequencyPenalty +
        if token ∈ generated h then cfg.presencePenalty else 0 := by
  constructor
  · intro hsame token hvocab
    have htoken := congrFun (hsame (fun _ => 0)) token
    rw [cpuPresence_apply, cudaPenalty_apply, if_pos hvocab] at htoken
    linarith
  · intro hamounts score
    funext token
    rw [cpuPresence_apply, cudaPenalty_apply]
    by_cases hvocab : inVocab h token
    · rw [if_pos hvocab, hamounts token hvocab]
    · have hnot : ¬ (penalizes cfg.presencePenalty 0 ∧ token ∈ cpuReached h cfg) :=
        fun hreached => hvocab (inVocab_of_cpuReached hreached.2)
      rw [if_neg hvocab, if_neg hnot, sub_zero]

/-- With an n-gram as long as the row, the two n-grams that are compared are the
row without its last and without its first token. -/
theorem sameNgram_zero_iff (hsize : cfg.noRepeatNgramSize = h.curLen) :
    sameNgram h cfg 0 ↔ ∀ token ∈ tokens h, token = h.ids 0 := by
  have hpos := h.nonempty
  have hstep : sameNgram h cfg 0 ↔
      ∀ j : Nat, j + 1 < h.curLen → h.ids (j : Nat) = h.ids ((j + 1 : Nat) : Int) := by
    unfold sameNgram
    rw [hsize]
    have hindex : ∀ j : Nat, ((h.curLen : Int) - h.curLen + j + 1) = ((j + 1 : Nat) : Int) := by
      intro j
      push_cast
      omega
    simp only [Nat.cast_zero, zero_add, hindex]
    constructor
    · intro hall j hj
      exact hall j (by omega)
    · intro hall j hj
      exact hall j (by omega)
  rw [hstep]
  simp only [mem_tokens, forall_exists_index, and_imp]
  constructor
  · rintro hall token i hi rfl
    induction i with
    | zero => rfl
    | succ i ih => exact (hall i hi).symm.trans (ih (by omega))
  · intro hall j hj
    rw [hall _ j (by omega) rfl, hall _ (j + 1) hj rfl]

theorem bans_zero_of_neg (hneg : cfg.noRepeatNgramSize < 0) : Bans h cfg 0 := by
  constructor
  · have hpos := h.nonempty
    push_cast
    omega
  · intro j hj
    omega

theorem ngram_iff : (∀ score, cpuNgram h cfg score = cudaNgram h cfg score) ↔
    0 ≤ cfg.noRepeatNgramSize ∧
      ¬ (cfg.noRepeatNgramSize = h.curLen ∧ ∀ token ∈ tokens h, token = h.ids 0) := by
  have hpos := h.nonempty
  have hfits := h.fits
  have hbanned : (0 : ℚ) ≠ banned := by
    unfold banned
    norm_num
  constructor
  · intro hsame
    constructor
    · by_contra hneg
      rw [not_le] at hneg
      have htoken := congrFun (hsame (fun _ => 0)) (h.ids ((0 : Nat) + cfg.noRepeatNgramSize - 1))
      rw [cpuNgram_apply, cudaNgram_apply, if_pos, if_neg] at htoken
      · exact hbanned htoken.symm
      · rintro ⟨i, _, ⟨⟨_, hsize⟩, _⟩, _⟩
        omega
      · exact ⟨⟨by omega, by omega⟩, 0, List.mem_range.mpr hpos, bans_zero_of_neg hneg, rfl⟩
    · rintro ⟨hsize, hall⟩
      have htoken := congrFun (hsame (fun _ => 0)) (h.ids ((0 : Nat) + cfg.noRepeatNgramSize - 1))
      rw [cpuNgram_apply, cudaNgram_apply, if_neg, if_pos] at htoken
      · exact hbanned htoken
      · refine ⟨0, List.mem_range.mpr (by omega), ⟨⟨hpos, by omega⟩, ?_, ?_⟩, rfl⟩
        · push_cast
          omega
        · exact (sameNgram_zero_iff hsize).mpr hall
      · rintro ⟨⟨_, hlt⟩, _⟩
        omega
  · rintro ⟨hnonneg, hnot⟩ score
    funext token
    rw [cpuNgram_apply, cudaNgram_apply]
    have hiff : ((cfg.noRepeatNgramSize ≠ 0 ∧ cfg.noRepeatNgramSize < h.curLen) ∧
        ∃ i ∈ List.range h.curLen, Bans h cfg i ∧
          h.ids (i + cfg.noRepeatNgramSize - 1) = token) ↔
        ∃ i ∈ List.range h.maxLen,
          ((i < h.curLen ∧ 0 < cfg.noRepeatNgramSize) ∧ Bans h cfg i) ∧
            h.ids (i + cfg.noRepeatNgramSize - 1) = token := by
      simp only [List.mem_range]
      constructor
      · rintro ⟨⟨hne, _⟩, i, hi, hbans, htoken⟩
        exact ⟨i, by omega, ⟨⟨hi, by omega⟩, hbans⟩, htoken⟩
      · rintro ⟨i, _, ⟨⟨hi, hsize⟩, hbans⟩, htoken⟩
        refine ⟨⟨by omega, ?_⟩, i, hi, hbans, htoken⟩
        -- only a row of one repeated token has an n-gram of its own length
        by_contra hlong
        have hfirst := hbans.1
        have hzero : i = 0 := by omega
        have hlength : cfg.noRepeatNgramSize = h.curLen := by omega
        subst hzero
        exact hnot ⟨hlength, (sameNgram_zero_iff hlength).mp hbans.2⟩
    simp only [hiff]

variable (h cfg)

/-- The rows and configurations on which the two sides agree. -/
structure AgreeingInput : Prop where
  /-- The penalty is neutral, or the loop of the CPU comes to the tokens whose
  threads write. -/
  repetition : cfg.repetitionPenalty = 1 ∨ ∀ token,
    (penalizes cfg.repetitionPenalty 1 ∧ token ∈ cpuReached h cfg) ↔ token ∈ cudaRepeated h cfg
  /-- What the CPU takes off for presence is what CUDA takes off for frequency
  and presence in the generated part. -/
  presenceAndFrequency : ∀ token, inVocab h token →
    (if penalizes cfg.presencePenalty 0 ∧ token ∈ cpuReached h cfg then cfg.presencePenalty
      else 0) =
    (generated h).count token * cfg.frequencyPenalty +
      if token ∈ generated h then cfg.presencePenalty else 0
  /-- The n-gram size is not negative, nor the length of a row of one repeated
  token. -/
  ngram : 0 ≤ cfg.noRepeatNgramSize ∧
    ¬ (cfg.noRepeatNgramSize = h.curLen ∧ ∀ token ∈ tokens h, token = h.ids 0)

theorem sameChanges_iff : SameChanges h cfg ↔ AgreeingInput h cfg := by
  constructor
  · intro same
    exact ⟨repetition_iff.mp same.repetition,
      presenceAndFrequency_iff.mp same.presenceAndFrequency, ngram_iff.mp same.ngram⟩
  · intro agreeing
    exact ⟨repetition_iff.mpr agreeing.repetition,
      presenceAndFrequency_iff.mpr agreeing.presenceAndFrequency,
      ngram_iff.mpr agreeing.ngram, fun _ => rfl⟩

end Agreement

/-- A prompt of two tokens and one generated token. -/
def threeTokens : History where
  ids := fun i => if i = 0 then 5 else if i = 1 then 6 else 7
  curLen := 3
  inputLen := 2
  maxLen := 8
  inIdsLen := 8
  vocabSize := 10
  nonempty := by omega
  fits := by omega
  held := by omega

/-- With repetition suppressed in the generated part only, the CPU loop returns
at the first token of the prompt and the generated token keeps its score. -/
theorem not_sameChanges : ¬ ∀ (h : History) (cfg : GenerateConfig), SameChanges h cfg := by
  intro hall
  have hsame := (hall threeTokens {
    repetitionPenalty := 2
    presencePenalty := 0
    frequencyPenalty := 0
    suppressRepetitionInGeneration := true
    noRepeatNgramSize := 0
    minLength := 0
    eosTokenId := 9 }).repetition (fun _ => 1)
  have htoken := congrFun hsame 7
  revert htoken
  decide +kernel

end DashInfer.Logits
