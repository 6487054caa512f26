import Mathlib
import DashInfer.Lib.Fallible
import DashInfer.Vision.Tokens
import DashInfer.Prefill.Placeholders

/-!
A prepared prompt, from the expansion to the engine: the runs of the target token have
the lengths of the embeddings, preparing it again changes nothing, and
`ParseExtraEmbedding` gives the runs their embeddings in order.
-/

namespace DashInfer.Vision

open Prefill Lib

/-- `_embedding_length`. -/
def embeddingLength (value : Int) : Except String Nat :=
  if value ≤ 0 then .error "embedding lengths must be positive integers" else .ok value.toNat

/-- `prepare_multimodal_tokens` with the lengths as they are passed. -/
def prepareMultimodalTokensBy (tokens lengths : List Int) (beginToken endToken target : Int) :
    Except String (List Int) := do
  let expectedLengths ← lengths.mapM embeddingLength
  prepareMultimodalTokens tokens expectedLengths beginToken endToken target

/-- The maximal runs of the target token have these lengths, in order. -/
inductive MaximalRuns (target : Int) : List Int → List Nat → Prop
  | text {tokens : List Int} : target ∉ tokens → MaximalRuns target tokens []
  | run (text : List Int) {rest : List Int} (count : Nat) {counts : List Nat} :
      target ∉ text → 0 < count → rest.head? ≠ some target → MaximalRuns target rest counts →
      MaximalRuns target (text ++ List.replicate count target ++ rest) (count :: counts)

/-- What a prepared prompt is: the runs, what is left without the inserted tokens, what
preparing it again gives, and what the engine records of it. -/
structure ExactlyPrepared (tokens lengths : List Int) (beginToken endToken target : Int)
    (prepared : List Int) : Prop where
  runs : MaximalRuns target prepared (lengths.map Int.toNat)
  kept : target ∈ tokens ∧ prepared = tokens ∨
    target ∉ tokens ∧ prepared.filter (fun token => token ≠ target) = tokens
  again : prepareMultimodalTokensBy prepared lengths beginToken endToken target = .ok prepared
  parsed : ∀ {R : Type} (embeddings : List (List R)),
    embeddings.map List.length = lengths.map Int.toNat →
    ∃ infos, parseExtraEmbedding [(toString target, embeddings)] prepared = .ok infos ∧
      RecordsRuns [(toString target, embeddings)] prepared infos ∧
      infos.map (fun info => info.embedding) = embeddings

section

variable {target beginToken endToken : Int}

/-- Lengths that pass are positive, and none is changed. -/
theorem mapM_embeddingLength {lengths : List Int} {expected : List Nat}
    (h : lengths.mapM embeddingLength = .ok expected) : expected = lengths.map Int.toNat := by
  induction lengths generalizing expected with
  | nil =>
      cases h
      rfl
  | cons length lengths ih =>
      rw [List.mapM_cons] at h
      obtain ⟨value, hvalue, h⟩ := bind_eq_ok_iff.mp h
      obtain ⟨rest, hrest, h⟩ := bind_eq_ok_iff.mp h
      cases h
      rw [List.map_cons, ih hrest]
      unfold embeddingLength at hvalue
      split at hvalue
      · cases hvalue
      · cases hvalue
        rfl

theorem mapM_embeddingLength_of_pos {lengths : List Int} (h : ∀ length ∈ lengths, 0 < length) :
    lengths.mapM embeddingLength = .ok (lengths.map Int.toNat) := by
  induction lengths with
  | nil => rfl
  | cons length lengths ih =>
      have hlength : embeddingLength length = .ok length.toNat :=
        if_neg (not_le.mpr (h length List.mem_cons_self))
      rw [List.mapM_cons, hlength, ih fun other hother => h other (List.mem_cons_of_mem _ hother)]
      rfl

/-! The runs. -/

theorem MaximalRuns.cons_text {token : Int} {tokens : List Int} {counts : List Nat}
    (htoken : token ≠ target) (h : MaximalRuns target tokens counts) :
    MaximalRuns target (token :: tokens) counts := by
  cases h with
  | text himage => exact .text (List.not_mem_cons_of_ne_of_not_mem htoken.symm himage)
  | @run text rest count counts htext hcount hrest hruns =>
      exact .run (token :: text) count
        (List.not_mem_cons_of_ne_of_not_mem htoken.symm htext) hcount hrest hruns

/-- The scan finds the maximal runs. -/
theorem maximalRuns_spansFrom (current : Nat) (tokens : List Int) :
    MaximalRuns target (List.replicate current target ++ tokens)
      (spansFrom target current tokens) := by
  induction tokens generalizing current with
  | nil =>
      cases current with
      | zero => exact .text List.not_mem_nil
      | succ current =>
          exact .run [] (current + 1) List.not_mem_nil (Nat.succ_pos _) (by simp)
            (.text List.not_mem_nil)
  | cons token rest ih =>
      by_cases htoken : token = target
      · subst htoken
        have hmore := ih (current + 1)
        rw [List.replicate_succ', List.append_assoc] at hmore
        cases current with
        | zero => simpa [spansFrom] using hmore
        | succ current => simpa [spansFrom] using hmore
      · have hrest := (ih 0).cons_text htoken
        cases current with
        | zero => simpa [spansFrom, htoken] using hrest
        | succ current =>
            have hrun := MaximalRuns.run [] (current + 1) List.not_mem_nil
              (Nat.succ_pos _) (by simpa using htoken) hrest
            simpa [spansFrom, htoken] using hrun

theorem maximalRuns_of_prepare {tokens prepared : List Int} {lengths : List Nat}
    (h : prepareMultimodalTokens tokens lengths beginToken endToken target = .ok prepared) :
    MaximalRuns target prepared lengths := by
  have hspans := @maximalRuns_spansFrom target 0 prepared
  have hlengths := targetSpanLengths_prepare h
  rw [targetSpanLengths] at hlengths
  rwa [hlengths] at hspans

/-! The tokens. -/

/-- Without the inserted tokens the expansion is the prompt. -/
theorem filter_expand {tokens : List Int} (hclean : target ∉ tokens) (i : Nat)
    (positions lengths : List Nat) :
    (expand target i tokens positions lengths).filter (fun token => token ≠ target) = tokens := by
  induction tokens generalizing i positions lengths with
  | nil =>
      simp [expand]
  | cons token rest ih =>
      have htoken : token ≠ target := fun heq => hclean (heq ▸ List.mem_cons_self)
      have hrest : target ∉ rest := fun hmem => hclean (List.mem_cons_of_mem _ hmem)
      have hkeep : ∀ l : List Int, (token :: l).filter (fun token => token ≠ target) =
          token :: l.filter (fun token => token ≠ target) :=
        fun l => List.filter_cons_of_pos (decide_eq_true htoken)
      have hnone : ∀ n, (List.replicate n target).filter (fun token => token ≠ target) = [] := by
        simp
      cases positions with
      | nil =>
          simp only [expand]
          rw [hkeep, ih hrest]
      | cons position positions =>
          cases lengths with
          | nil =>
              simp only [expand]
              rw [hkeep, ih hrest]
          | cons length lengths =>
              simp only [expand]
              split
              · rw [hkeep, List.filter_append, hnone, List.nil_append,
                  ih hrest]
              · rw [hkeep, ih hrest]

/-- What a prompt is prepared to. -/
theorem prepare_kept {tokens prepared : List Int} {lengths : List Nat}
    (h : prepareMultimodalTokens tokens lengths beginToken endToken target = .ok prepared) :
    target ∈ tokens ∧ prepared = tokens ∨
      target ∉ tokens ∧ prepared.filter (fun token => token ≠ target) = tokens := by
  unfold prepareMultimodalTokens at h
  split at h
  · cases h
  · split at h
    · rename_i hmem
      dsimp only at h
      split at h
      · cases h
      · split at h
        · cases h
        · cases h
          exact .inl ⟨hmem, rfl⟩
    · rename_i hclean
      dsimp only at h
      split at h
      · cases h
      · cases h
        exact .inr ⟨hclean, filter_expand hclean _ _ _⟩

theorem length_markersFrom (i : Nat) (tokens : List Int) :
    (markersFrom beginToken endToken i tokens).length =
      (tokens.zip tokens.tail).count (beginToken, endToken) := by
  induction tokens generalizing i with
  | nil => rfl
  | cons token rest ih =>
      cases rest with
      | nil => rfl
      | cons next rest =>
          have hrest := ih (i + 1)
          simp only [List.tail_cons] at hrest ⊢
          simp only [markersFrom, List.zip_cons_cons, List.count_cons, Prod.mk.injEq,
            beq_iff_eq]
          split
          · rw [List.length_cons, hrest]
          · rw [hrest, Nat.add_zero]

theorem spanMismatch_self (i : Nat) (lengths : List Nat) :
    spanMismatch i lengths lengths = none := by
  induction lengths generalizing i with
  | nil => rfl
  | cons length lengths ih => simp [spanMismatch, ih]

/-- A prompt whose runs have the lengths already is left alone. -/
theorem prepare_of_spans {tokens : List Int} {lengths : List Nat} (hpositive : 0 ∉ lengths)
    (hmem : target ∈ tokens) (hspans : targetSpanLengths target tokens = lengths) :
    prepareMultimodalTokens tokens lengths beginToken endToken target = .ok tokens := by
  unfold prepareMultimodalTokens
  rw [if_neg hpositive, if_pos hmem]
  dsimp only
  rw [hspans, if_neg (not_not.mpr rfl), spanMismatch_self]

theorem prepare_positive {tokens prepared : List Int} {lengths : List Nat}
    (h : prepareMultimodalTokens tokens lengths beginToken endToken target = .ok prepared) :
    0 ∉ lengths := by
  unfold prepareMultimodalTokens at h
  split at h
  · cases h
  · rename_i hpositive
    exact hpositive

/-- Preparing twice is preparing once. -/
theorem prepare_again {tokens prepared : List Int} {lengths : List Nat}
    (h : prepareMultimodalTokens tokens lengths beginToken endToken target = .ok prepared) :
    prepareMultimodalTokens prepared lengths beginToken endToken target = .ok prepared := by
  have hspans := targetSpanLengths_prepare h
  by_cases hmem : target ∈ prepared
  · exact prepare_of_spans (prepare_positive h) hmem hspans
  · -- nothing was inserted, so the second call is the first
    rcases prepare_kept h with ⟨-, rfl⟩ | ⟨-, hfilter⟩
    · exact h
    · have hsame : prepared.filter (fun token => token ≠ target) = prepared := by
        rw [List.filter_eq_self]
        intro token htoken
        apply decide_eq_true
        rintro rfl
        exact hmem htoken
      rw [← hfilter, hsame] at h
      exact h

/-! The engine. -/

section Parse

variable {R : Type} {embeddings : List (List R)}

theorem lookup_target (id : Int) :
    List.lookup (toString id) [(toString target, embeddings)] =
      if id = target then some embeddings else none := by
  by_cases hid : id = target
  · rw [hid, if_pos rfl, List.lookup_cons_self]
  · have hne : (toString id == toString target) = false := by
      rw [beq_eq_false_iff_ne]
      exact fun heq => hid (Int.repr_inj.mp heq)
    rw [if_neg hid, List.lookup_cons, hne]
    rfl

theorem target_of_lookup {id : Int} {tensors : List (List R)}
    (h : List.lookup (toString id) [(toString target, embeddings)] = some tensors) :
    target = id ∧ embeddings = tensors := by
  rw [lookup_target] at h
  split at h
  · rename_i hid
    exact ⟨hid.symm, Option.some.inj h⟩
  · cases h

theorem drop_of_getElem? {α : Type} {l : List α} {n : Nat} {a : α} (h : l[n]? = some a) :
    l.drop n = a :: l.drop (n + 1) := by
  obtain ⟨hn, rfl⟩ := List.getElem?_eq_some_iff.mp h
  exact List.drop_eq_getElem_cons hn

/-- The scan takes a run whole. -/
theorem spansFrom_run (rest : List Int) :
    spansFrom target 0 (target :: rest) =
      runLength target rest :: spansFrom target 0 (rest.dropWhile (· == target)) := by
  rw [run_append, spansFrom_replicate, Nat.zero_add]
  cases hrest : rest.dropWhile (· == target) with
  | nil => rfl
  | cons other tail =>
      have hother : other ≠ target := by
        have hnot := List.head_dropWhile_not (· == target) (l := rest)
          (by rw [hrest]; exact List.cons_ne_nil _ _)
        simpa [hrest] using hnot
      exact spansFrom_succ_cons_other hother _ _

/-- Embeddings as long as the runs are taken in order. -/
theorem parseFrom_runs_in_order (counter : Int → Nat) (pos : Nat) (ids : List Int)
    (h : (embeddings.drop (counter target)).map List.length = spansFrom target 0 ids) :
    ∃ infos, parseFrom [(toString target, embeddings)] counter pos ids = .ok infos ∧
      infos.map (fun info => info.embedding) = embeddings.drop (counter target) := by
  induction counter, pos, ids using parseFrom.induct [(toString target, embeddings)] with
  | case1 counter pos =>
      rw [parseFrom]
      exact ⟨[], rfl, (List.map_eq_nil_iff.mp h).symm⟩
  | case2 counter pos id rest hkey ih =>
      have hid : id ≠ target := by
        rintro rfl
        rw [lookup_target, if_pos rfl] at hkey
        cases hkey
      rw [spansFrom_cons_other hid] at h
      rw [parseFrom]
      simp only [hkey]
      exact ih h
  | case3 counter pos id rest tensors hkey hget =>
      obtain ⟨rfl, rfl⟩ := target_of_lookup hkey
      rw [spansFrom_run, List.drop_eq_nil_of_le (List.getElem?_eq_none_iff.mp hget)] at h
      cases h
  | case4 counter pos id rest tensors hkey embedding hget hlen =>
      obtain ⟨rfl, rfl⟩ := target_of_lookup hkey
      rw [spansFrom_run, drop_of_getElem? hget, List.map_cons] at h
      exact absurd (List.cons.inj h).1.symm hlen
  | case5 counter pos id rest tensors hkey embedding hget hlen ih =>
      obtain ⟨rfl, rfl⟩ := target_of_lookup hkey
      have hdrop := drop_of_getElem? hget
      rw [spansFrom_run, hdrop, List.map_cons] at h
      obtain ⟨infos, hinfos, hembeddings⟩ := ih (by
        rw [Function.update_self]
        exact (List.cons.inj h).2)
      rw [Function.update_self] at hembeddings
      rw [parseFrom]
      simp only [hkey, hget, if_neg hlen, hinfos]
      refine ⟨_, rfl, ?_⟩
      rw [hdrop, List.map_cons, hembeddings]

theorem parse_in_order {tokens : List Int}
    (h : embeddings.map List.length = targetSpanLengths target tokens) :
    ∃ infos, parseExtraEmbedding [(toString target, embeddings)] tokens = .ok infos ∧
      infos.map (fun info => info.embedding) = embeddings :=
  parseFrom_runs_in_order (fun _ => 0) 0 tokens h

end Parse

/-- Preparing a prompt is exact where it returns, and it returns for every prompt
without target tokens that has a marker for each of the positive lengths. -/
theorem prepareMultimodalTokensBy_exact (tokens lengths : List Int)
    (beginToken endToken target : Int) :
    (∀ prepared,
      prepareMultimodalTokensBy tokens lengths beginToken endToken target = .ok prepared →
      ExactlyPrepared tokens lengths beginToken endToken target prepared) ∧
    (target ∉ tokens → (∀ length ∈ lengths, 0 < length) →
      (tokens.zip tokens.tail).count (beginToken, endToken) = lengths.length →
      ∃ prepared,
        prepareMultimodalTokensBy tokens lengths beginToken endToken target = .ok prepared) := by
  constructor
  · intro prepared h
    obtain ⟨expected, hexpected, h⟩ := bind_eq_ok_iff.mp h
    have hlengths := mapM_embeddingLength hexpected
    constructor
    · rw [← hlengths]
      exact maximalRuns_of_prepare h
    · exact prepare_kept h
    · exact bind_eq_ok_iff.mpr ⟨expected, hexpected, prepare_again h⟩
    · intro R embeddings hembeddings
      rw [← hlengths, ← targetSpanLengths_prepare h] at hembeddings
      obtain ⟨infos, hinfos, horder⟩ := parse_in_order hembeddings
      exact ⟨infos, hinfos, recordsRuns_of_parse hinfos, horder⟩
  · intro hclean hpositive hmarkers
    have hzero : 0 ∉ lengths.map Int.toNat := by
      intro hmem
      obtain ⟨length, hlength, heq⟩ := List.mem_map.mp hmem
      have := hpositive length hlength
      omega
    have hcount : (markersFrom beginToken endToken 0 tokens).length =
        (lengths.map Int.toNat).length := by
      rw [length_markersFrom, hmarkers, List.length_map]
    have hprepared : prepareMultimodalTokens tokens (lengths.map Int.toNat) beginToken endToken
        target = .ok (expand target 0 tokens (markersFrom beginToken endToken 0 tokens)
          (lengths.map Int.toNat)) := by
      unfold prepareMultimodalTokens
      rw [if_neg hzero, if_neg hclean]
      dsimp only
      rw [if_neg (not_not.mpr hcount)]
    exact ⟨_, bind_eq_ok_iff.mpr ⟨_, mapM_embeddingLength_of_pos hpositive, hprepared⟩⟩

end

end DashInfer.Vision
