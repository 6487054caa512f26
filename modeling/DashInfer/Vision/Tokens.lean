import Mathlib.Data.List.Basic

/-!
`prepare_multimodal_tokens`: the empty markers of a prompt are filled with
placeholder tokens, or the spans of placeholders that are there already are
compared with the lengths of the embeddings.
-/

namespace DashInfer.Vision

variable {target beginToken endToken : Int}

/-- `_target_span_lengths`, with the length of the span it is in. -/
def spansFrom (target : Int) : Nat → List Int → List Nat
  | 0, [] => []
  | current + 1, [] => [current + 1]
  | current, token :: rest =>
      if token = target then spansFrom target (current + 1) rest
      else if current = 0 then spansFrom target 0 rest
      else current :: spansFrom target 0 rest

def targetSpanLengths (target : Int) (tokens : List Int) : List Nat := spansFrom target 0 tokens

/-- The places of the begin tokens that an end token follows. -/
def markersFrom (beginToken endToken : Int) : Nat → List Int → List Nat
  | i, token :: next :: rest =>
      if token = beginToken ∧ next = endToken then
        i :: markersFrom beginToken endToken (i + 1) (next :: rest)
      else markersFrom beginToken endToken (i + 1) (next :: rest)
  | _, _ => []

/-- The loop that fills the markers. -/
def expand (target : Int) : Nat → List Int → List Nat → List Nat → List Int
  | _, [], _, _ => []
  | i, token :: rest, position :: positions, length :: lengths =>
      if i = position then
        token :: (List.replicate length target ++ expand target (i + 1) rest positions lengths)
      else token :: expand target (i + 1) rest (position :: positions) (length :: lengths)
  | i, token :: rest, positions, lengths =>
      token :: expand target (i + 1) rest positions lengths

/-- The first span that has not the length of its embedding. -/
def spanMismatch : Nat → List Nat → List Nat → Option String
  | i, actual :: spans, expected :: lengths =>
      if actual ≠ expected then
        some s!"multimodal span {i} has {actual} tokens; expected {expected}"
      else spanMismatch (i + 1) spans lengths
  | _, _, _ => none

/-- `prepare_multimodal_tokens`. -/
def prepareMultimodalTokens (tokens : List Int) (lengths : List Nat)
    (beginToken endToken target : Int) : Except String (List Int) :=
  if 0 ∈ lengths then .error "embedding lengths must be positive integers"
  else if target ∈ tokens then
    let spans := targetSpanLengths target tokens
    if spans.length ≠ lengths.length then
      .error "multimodal target spans and embedding results must match"
    else
      match spanMismatch 0 spans lengths with
      | some message => .error message
      | none => .ok tokens
  else
    let positions := markersFrom beginToken endToken 0 tokens
    if positions.length ≠ lengths.length then
      .error "empty multimodal markers and embedding results must match"
    else .ok (expand target 0 tokens positions lengths)

theorem spanMismatch_eq_none {i : Nat} {spans lengths : List Nat}
    (hlength : spans.length = lengths.length) (h : spanMismatch i spans lengths = none) :
    spans = lengths := by
  induction spans generalizing i lengths with
  | nil => exact (List.length_eq_zero_iff.mp hlength.symm).symm
  | cons actual rest ih =>
      cases lengths with
      | nil => cases hlength
      | cons expected lengths =>
          simp only [spanMismatch] at h
          split at h
          · cases h
          · next hsame =>
              rw [Decidable.not_not] at hsame
              rw [hsame, ih (Nat.succ.inj hlength) h]

theorem spansFrom_replicate (current count : Nat) (rest : List Int) :
    spansFrom target current (List.replicate count target ++ rest) =
      spansFrom target (current + count) rest := by
  induction count generalizing current with
  | zero => simp
  | succ count ih =>
      simp only [List.replicate_succ, List.cons_append, spansFrom, if_true]
      rw [ih, Nat.add_right_comm, Nat.add_assoc]

theorem spansFrom_cons_other {token : Int} (h : token ≠ target) (rest : List Int) :
    spansFrom target 0 (token :: rest) = spansFrom target 0 rest := by
  simp [spansFrom, h]

/-- A span ends at the first other token. -/
theorem spansFrom_succ_cons_other {token : Int} (h : token ≠ target) (current : Nat)
    (rest : List Int) :
    spansFrom target (current + 1) (token :: rest) =
      (current + 1) :: spansFrom target 0 (token :: rest) := by
  simp [spansFrom, h]

theorem le_of_mem_markersFrom {i position : Nat} {tokens : List Int}
    (h : position ∈ markersFrom beginToken endToken i tokens) : i ≤ position := by
  induction tokens generalizing i with
  | nil => cases h
  | cons token rest ih =>
      cases rest with
      | nil => cases h
      | cons next rest =>
          simp only [markersFrom] at h
          split at h
          · rcases List.mem_cons.mp h with rfl | hrest
            · exact Nat.le_refl _
            · have := ih hrest
              omega
          · have := ih h
            omega

/-- The loop copies the token it is at, whatever it adds. -/
theorem expand_cons_head (i : Nat) (token : Int) (rest : List Int) (positions lengths : List Nat) :
    ∃ more, expand target i (token :: rest) positions lengths = token :: more := by
  cases positions with
  | nil =>
      simp only [expand]
      exact ⟨_, rfl⟩
  | cons position positions =>
      cases lengths with
      | nil =>
          simp only [expand]
          exact ⟨_, rfl⟩
      | cons length lengths =>
          simp only [expand]
          split
          · exact ⟨_, rfl⟩
          · exact ⟨_, rfl⟩

theorem expand_cons_skip {i : Nat} {token : Int} {rest : List Int} {positions lengths : List Nat}
    (h : ∀ position ∈ positions, i < position) :
    expand target i (token :: rest) positions lengths =
      token :: expand target (i + 1) rest positions lengths := by
  cases positions with
  | nil => simp only [expand]
  | cons position positions =>
      cases lengths with
      | nil => simp only [expand]
      | cons length lengths =>
          have hne : i ≠ position := by
            have := h position List.mem_cons_self
            omega
          simp only [expand, hne, if_false]

/-- The filled markers are the spans of the new prompt, one for each length. -/
theorem spansFrom_expand {i : Nat} {tokens : List Int} {lengths : List Nat}
    (hclean : target ∉ tokens) (hpositive : 0 ∉ lengths)
    (hlength : (markersFrom beginToken endToken i tokens).length = lengths.length) :
    spansFrom target 0
      (expand target i tokens (markersFrom beginToken endToken i tokens) lengths) = lengths := by
  induction tokens generalizing i lengths with
  | nil =>
      have hnil : lengths = [] := List.length_eq_zero_iff.mp hlength.symm
      subst hnil
      rfl
  | cons token rest ih =>
      have htoken : token ≠ target := fun heq => hclean (heq ▸ List.mem_cons_self)
      have hrest : target ∉ rest := fun hmem => hclean (List.mem_cons_of_mem _ hmem)
      cases rest with
      | nil =>
          have hnil : lengths = [] := List.length_eq_zero_iff.mp hlength.symm
          subst hnil
          simp [markersFrom, expand, spansFrom, htoken]
      | cons next rest =>
          have hnext : next ≠ target := fun heq => hrest (heq ▸ List.mem_cons_self)
          have hlater : ∀ position ∈ markersFrom beginToken endToken (i + 1) (next :: rest),
              i < position := fun position hmem => le_of_mem_markersFrom hmem
          by_cases hmarker : token = beginToken ∧ next = endToken
          · have hmarkers : markersFrom beginToken endToken i (token :: next :: rest) =
                i :: markersFrom beginToken endToken (i + 1) (next :: rest) := by
              simp only [markersFrom, hmarker, and_self, if_true]
            rw [hmarkers] at hlength ⊢
            cases lengths with
            | nil => cases hlength
            | cons length lengths =>
                have hpos : length ≠ 0 := fun heq => hpositive (heq ▸ List.mem_cons_self)
                obtain ⟨count, rfl⟩ := Nat.exists_eq_succ_of_ne_zero hpos
                have hprevious := ih hrest (fun hmem => hpositive (List.mem_cons_of_mem _ hmem))
                  (Nat.succ.inj hlength)
                obtain ⟨more, hmore⟩ := @expand_cons_head target (i + 1) next rest
                  (markersFrom beginToken endToken (i + 1) (next :: rest)) lengths
                simp only [expand, if_true]
                rw [spansFrom_cons_other htoken, spansFrom_replicate, Nat.zero_add]
                rw [hmore] at hprevious ⊢
                rw [spansFrom_succ_cons_other hnext, hprevious]
          · have hmarkers : markersFrom beginToken endToken i (token :: next :: rest) =
                markersFrom beginToken endToken (i + 1) (next :: rest) := by
              simp only [markersFrom, hmarker, if_false]
            rw [hmarkers] at hlength ⊢
            rw [expand_cons_skip hlater, spansFrom_cons_other htoken]
            exact ih hrest hpositive hlength

/-- The placeholder spans of the prepared prompt have the lengths of the
embeddings, in order. -/
theorem targetSpanLengths_prepare {tokens prepared : List Int} {lengths : List Nat}
    (h : prepareMultimodalTokens tokens lengths beginToken endToken target = .ok prepared) :
    targetSpanLengths target prepared = lengths := by
  unfold prepareMultimodalTokens at h
  split at h
  · cases h
  · next hpositive =>
      split at h
      · simp only at h
        split at h
        · cases h
        · next hlength =>
            split at h
            · cases h
            · next hsame =>
                cases h
                rw [Decidable.not_not] at hlength
                exact spanMismatch_eq_none hlength hsame
      · next hclean =>
          simp only at h
          split at h
          · cases h
          · next hlength =>
              cases h
              rw [Decidable.not_not] at hlength
              exact spansFrom_expand hclean hpositive hlength

end DashInfer.Vision
