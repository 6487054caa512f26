import DashInfer.Vision.TruncateWalk
import Mathlib

/-!
When the real lengths of the walk choose the right segments. They are never too small,
and they are exact as far as the first empty segment behind the last one. From there on
they are right at the segments behind which no image is left, and too large at the
others.
-/

namespace DashInfer.Vision

section

variable {bosId : Int}

/-- The length some segments of the end expand to. -/
def exactLength (bosId : Int) (segments : List Nat) (tokens : List Int) (lengths : List Nat)
    (count : Nat) : Nat :=
  (segments.take count).sum + imageCost bosId lengths (tokens.take (segments.take count).sum)

/-- Behind an empty segment there is one with tokens, and images behind that. -/
def Stranded (bosId : Int) (segments : List Nat) (tokens : List Int) : Prop :=
  ∃ p q size, p < q ∧ segments[p]? = some 0 ∧ segments[q]? = some (size + 1) ∧
    bosId ∈ tokens.drop (segments.take (q + 1)).sum

theorem imageCost_take_le (lengths : List Nat) (tokens : List Int) (n : Nat) :
    imageCost bosId lengths (tokens.take n) ≤ imageCost bosId lengths tokens := by
  calc imageCost bosId lengths (tokens.take n)
      ≤ imageCost bosId lengths (tokens.take n) +
          imageCost bosId (lengths.drop ((tokens.take n).count bosId)) (tokens.drop n) :=
        Nat.le_add_right _ _
    _ = imageCost bosId lengths tokens := by
        rw [← imageCost_append, List.take_append_drop]

theorem exactLength_zero (segments : List Nat) (tokens : List Int) (lengths : List Nat) :
    exactLength bosId segments tokens lengths 0 = 0 := by
  simp [exactLength, imageCost]

theorem exactLength_succ (size : Nat) (segments : List Nat) (tokens : List Int)
    (lengths : List Nat) (count : Nat) :
    exactLength bosId (size :: segments) tokens lengths (count + 1) =
      size + imageCost bosId lengths (tokens.take size) +
        exactLength bosId segments (tokens.drop size)
          (lengths.drop ((tokens.take size).count bosId)) count := by
  unfold exactLength
  rw [List.take_succ_cons, List.sum_cons, List.take_add, imageCost_append]
  omega

theorem exactLength_le_succ (segments : List Nat) (tokens : List Int) (lengths : List Nat)
    {count count' : Nat} (h : count ≤ count') :
    exactLength bosId segments tokens lengths count ≤
      exactLength bosId segments tokens lengths count' := by
  obtain ⟨more, rfl⟩ := Nat.exists_eq_add_of_le h
  have htake : (segments.take (count + more)).sum =
      (segments.take count).sum + ((segments.drop count).take more).sum := by
    rw [List.take_add, List.sum_append]
  unfold exactLength
  rw [htake, List.take_add, imageCost_append]
  omega

theorem length_realFrom (segments : List Nat) (tokens : List Int) (lengths : List Nat) :
    (realFrom bosId segments tokens lengths).length = segments.length := by
  induction segments generalizing tokens lengths with
  | nil => rfl
  | cons size segments ih =>
      cases size with
      | zero => rfl
      | succ size =>
          rw [realFrom, List.length_cons, ih, List.length_cons]

/-- The walk never charges too little. -/
theorem exactLength_le_realFrom (segments : List Nat) (tokens : List Int) (lengths : List Nat)
    (count : Nat) :
    exactLength bosId segments tokens lengths count ≤
      ((realFrom bosId segments tokens lengths).take count).sum := by
  induction segments generalizing tokens lengths count with
  | nil => simp [exactLength, imageCost]
  | cons size segments ih =>
      cases count with
      | zero =>
          rw [exactLength_zero]
          exact Nat.zero_le _
      | succ count =>
          rw [exactLength_succ]
          cases size with
          | zero =>
              rw [realFrom, List.take_succ_cons, List.sum_cons]
              simp only [List.take_zero, List.count_nil, List.drop_zero]
              have hcost := @imageCost_take_le bosId lengths tokens (segments.take count).sum
              simp only [exactLength, imageCost, List.count_nil, List.take_zero, List.sum_nil]
                at hcost ⊢
              omega
          | succ size =>
              rw [realFrom, List.take_succ_cons, List.sum_cons]
              exact Nat.add_le_add_left (ih _ _ _) _

/-- All segments together are charged with all images. -/
theorem sum_realFrom (segments : List Nat) (tokens : List Int) (lengths : List Nat)
    (h : tokens.length ≤ segments.sum) :
    (realFrom bosId segments tokens lengths).sum =
      segments.sum + imageCost bosId lengths tokens := by
  induction segments generalizing tokens lengths with
  | nil =>
      rw [List.length_eq_zero_iff.mp (Nat.le_zero.mp h)]
      rfl
  | cons size segments ih =>
      cases size with
      | zero =>
          rw [realFrom, List.sum_cons, List.sum_cons]
          omega
      | succ size =>
          rw [List.sum_cons] at h
          have hsplit : imageCost bosId lengths tokens =
              imageCost bosId lengths (tokens.take (size + 1)) +
                imageCost bosId (lengths.drop ((tokens.take (size + 1)).count bosId))
                  (tokens.drop (size + 1)) := by
            rw [← imageCost_append, List.take_append_drop]
          rw [realFrom, List.sum_cons, List.sum_cons, ih _ _ (by rw [List.length_drop]; omega),
            hsplit]
          omega

theorem mem_drop_of_le {tokens : List Int} {m n : Nat} (h : m ≤ n)
    (hmem : bosId ∈ tokens.drop n) : bosId ∈ tokens.drop m := by
  obtain ⟨more, rfl⟩ := Nat.exists_eq_add_of_le h
  rw [← List.drop_drop] at hmem
  exact List.mem_of_mem_drop hmem

/-- Tokens without an image cost nothing. -/
theorem imageCost_take_of_not_mem {lengths : List Nat} {tokens : List Int} {n : Nat}
    (h : bosId ∉ tokens.drop n) :
    imageCost bosId lengths (tokens.take n) = imageCost bosId lengths tokens := by
  unfold imageCost
  have hcount : tokens.count bosId = (tokens.take n).count bosId := by
    conv_lhs => rw [← List.take_append_drop n tokens]
    rw [List.count_append, List.count_eq_zero.mpr h, Nat.add_zero]
  rw [hcount]

theorem Stranded.cons {size : Nat} {segments : List Nat} {tokens : List Int}
    (h : Stranded bosId segments (tokens.drop size)) : Stranded bosId (size :: segments) tokens := by
  obtain ⟨p, q, n, hpq, hp, hq, hmem⟩ := h
  refine ⟨p + 1, q + 1, n, Nat.succ_lt_succ hpq, hp, hq, ?_⟩
  rw [List.take_succ_cons, List.sum_cons, ← List.drop_drop]
  exact hmem

/-- Where no image is stranded every number of segments has one of as many tokens that
is not charged too much. -/
theorem exists_settled (segments : List Nat) (tokens : List Int) (lengths : List Nat)
    (h : ¬ Stranded bosId segments tokens) {count : Nat} (hcount : count ≤ segments.length) :
    ∃ count' ≤ segments.length, (segments.take count').sum = (segments.take count).sum ∧
      ((realFrom bosId segments tokens lengths).take count').sum ≤
        exactLength bosId segments tokens lengths count := by
  induction segments generalizing tokens lengths count with
  | nil => exact ⟨0, Nat.le_refl _, by simp, by simp [realFrom]⟩
  | cons size segments ih =>
      cases count with
      | zero => exact ⟨0, Nat.zero_le _, rfl, by simp⟩
      | succ count =>
          have hle : count ≤ segments.length := by simpa using hcount
          cases size with
          | zero =>
              rcases Nat.eq_zero_or_pos (segments.take count).sum with hzero | hpos
              · refine ⟨0, Nat.zero_le _, ?_, ?_⟩
                · rw [List.take_succ_cons, List.sum_cons, hzero]
                  rfl
                · simp
              · refine ⟨count + 1, hcount, rfl, ?_⟩
                -- a segment with tokens is kept, so no image lies behind those kept
                have hnot : bosId ∉ tokens.drop (segments.take count).sum := by
                  intro hmem
                  obtain ⟨x, hx, hne⟩ : ∃ x ∈ segments.take count, x ≠ 0 := by
                    by_contra hall
                    push Not at hall
                    rw [List.sum_eq_zero hall] at hpos
                    exact Nat.lt_irrefl 0 hpos
                  obtain ⟨q, hq, hxq⟩ := List.mem_take_iff_getElem.mp hx
                  obtain ⟨n, rfl⟩ := Nat.exists_eq_succ_of_ne_zero hne
                  have hqlt := lt_min_iff.mp hq
                  apply h
                  refine ⟨0, q + 1, n, Nat.succ_pos q, rfl, ?_, ?_⟩
                  · rw [List.getElem?_cons_succ, List.getElem?_eq_getElem hqlt.2, hxq]
                  · rw [List.take_succ_cons, List.sum_cons, Nat.zero_add]
                    apply mem_drop_of_le _ hmem
                    exact (List.take_prefix_take_left hqlt.1).sublist.sum_le_sum
                      (fun _ _ => Nat.zero_le _)
                rw [realFrom, List.take_succ_cons, List.sum_cons, exactLength, List.take_succ_cons,
                  List.sum_cons, Nat.zero_add, imageCost_take_of_not_mem hnot, Nat.add_comm]
          | succ size =>
              obtain ⟨count', hle', hsum, hreal⟩ := ih (tokens.drop (size + 1))
                (lengths.drop ((tokens.take (size + 1)).count bosId))
                (fun hs => h hs.cons) hle
              refine ⟨count' + 1, Nat.succ_le_succ hle', ?_, ?_⟩
              · rw [List.take_succ_cons, List.take_succ_cons, List.sum_cons, List.sum_cons, hsum]
              · rw [realFrom, List.take_succ_cons, List.sum_cons, exactLength_succ]
                exact Nat.add_le_add_left hreal _

theorem sum_pos_of_getElem? {segments : List Nat} {q size : Nat}
    (h : segments[q]? = some (size + 1)) : 0 < (segments.take (q + 1)).sum := by
  have hmem : size + 1 ∈ segments.take (q + 1) := by
    obtain ⟨hq, hvalue⟩ := List.getElem?_eq_some_iff.mp h
    rw [← hvalue]
    exact List.mem_take_iff_getElem.mpr ⟨q, by omega, rfl⟩
  exact Nat.lt_of_lt_of_le (Nat.succ_pos size) (List.single_le_sum (by simp) _ hmem)

/-- Images of length one cost as much as there are. -/
theorem imageCost_replicate {tokens : List Int} {n : Nat} (h : tokens.count bosId ≤ n) :
    imageCost bosId (List.replicate n 1) tokens = tokens.count bosId := by
  unfold imageCost
  rw [List.take_replicate, List.sum_replicate, Nat.min_eq_left h, smul_eq_mul, Nat.mul_one]

/-- Where an image of length one is stranded some number of segments is charged too
much, and so is every other number of as many tokens. -/
theorem exists_overcharged (segments : List Nat) (tokens : List Int)
    (h : Stranded bosId segments tokens) :
    ∃ count ≤ segments.length, 0 < (segments.take count).sum ∧
      ∀ count', (segments.take count').sum = (segments.take count).sum →
        exactLength bosId segments tokens (List.replicate (tokens.count bosId) 1) count <
          ((realFrom bosId segments tokens
            (List.replicate (tokens.count bosId) 1)).take count').sum := by
  induction segments generalizing tokens with
  | nil =>
      obtain ⟨p, q, size, _, hp, _, _⟩ := h
      simp at hp
  | cons size segments ih =>
      obtain ⟨p, q, n, hpq, hp, hq, hmem⟩ := h
      obtain ⟨q, rfl⟩ := Nat.exists_eq_add_one_of_ne_zero (Nat.ne_zero_of_lt hpq)
      cases size with
      | zero =>
          have hlength := (List.getElem?_eq_some_iff.mp hq).1
          have hpos := sum_pos_of_getElem? hq
          refine ⟨q + 1 + 1, hlength, hpos, ?_⟩
          intro count' hsame
          cases count' with
          | zero =>
              rw [List.take_zero, List.sum_nil] at hsame
              omega
          | succ count' =>
              have hcost := imageCost_replicate
                (List.Sublist.count_le bosId (List.take_sublist
                  ((0 :: segments).take (q + 1 + 1)).sum tokens))
              have hmore : (tokens.take ((0 :: segments).take (q + 1 + 1)).sum).count bosId <
                  tokens.count bosId := by
                have hcount := congrArg (List.count bosId)
                  (List.take_append_drop ((0 :: segments).take (q + 1 + 1)).sum tokens)
                rw [List.count_append] at hcount
                have := List.count_pos_iff.mpr hmem
                omega
              rw [List.take_succ_cons, List.sum_cons, Nat.zero_add] at hsame
              rw [realFrom, List.take_succ_cons, List.sum_cons,
                imageCost_replicate (Nat.le_refl _), exactLength, hcost, hsame]
              omega
      | succ size =>
          cases p with
          | zero => simp at hp
          | succ p =>
              rw [List.take_succ_cons, List.sum_cons, ← List.drop_drop] at hmem
              obtain ⟨count, hle, hpos, hall⟩ := ih (tokens.drop (size + 1))
                ⟨p, q, n, Nat.lt_of_succ_lt_succ hpq, hp, hq, hmem⟩
              have hcount : tokens.count bosId - (tokens.take (size + 1)).count bosId =
                  (tokens.drop (size + 1)).count bosId := by
                have hcount := congrArg (List.count bosId)
                  (List.take_append_drop (size + 1) tokens)
                rw [List.count_append] at hcount
                omega
              refine ⟨count + 1, Nat.succ_le_succ hle, ?_, ?_⟩
              · rw [List.take_succ_cons, List.sum_cons]
                omega
              · intro count' hsame
                cases count' with
                | zero =>
                    rw [List.take_succ_cons, List.sum_cons, List.take_zero, List.sum_nil] at hsame
                    omega
                | succ count' =>
                    rw [List.take_succ_cons, List.take_succ_cons, List.sum_cons, List.sum_cons]
                      at hsame
                    rw [realFrom, List.take_succ_cons, List.sum_cons, exactLength_succ,
                      List.drop_replicate, hcount]
                    exact Nat.add_lt_add_left (hall count' (Nat.add_left_cancel hsame)) _

/-! All segments. -/

theorem realAll_nil (segments lengths : List Nat) :
    realAll bosId segments [] lengths = segments := by
  have hfrom : ∀ segments : List Nat, realFrom bosId segments [] lengths = segments := by
    intro segments
    induction segments with
    | nil => rfl
    | cons size segments ih =>
        cases size with
        | zero => simp [realFrom, imageCost]
        | succ size =>
            simp only [realFrom, List.take_nil, List.drop_nil, List.count_nil, List.drop_zero, ih]
            simp [imageCost]
  cases segments with
  | nil => rfl
  | cons size segments =>
      simp only [realAll, List.take_nil, List.drop_nil, List.count_nil, List.drop_zero, hfrom]
      simp [imageCost]

/-- The real lengths choose the right segments: one for each segment, never too small,
exact for the last segment, and for every number of segments exact at one of as many
tokens. -/
structure Settles (bosId : Int) (segments : List Nat) (tokens : List Int)
    (lengths real : List Nat) : Prop where
  length : real.length = segments.length
  enough : ∀ count, exactLength bosId segments tokens lengths count ≤ (real.take count).sum
  first : (real.take 1).sum = exactLength bosId segments tokens lengths 1
  settled : ∀ count ≤ segments.length, ∃ count' ≤ segments.length,
    (segments.take count').sum = (segments.take count).sum ∧
      (real.take count').sum ≤ exactLength bosId segments tokens lengths count

theorem length_realAll (segments : List Nat) (tokens : List Int) (lengths : List Nat) :
    (realAll bosId segments tokens lengths).length = segments.length := by
  cases segments with
  | nil => rfl
  | cons size segments =>
      rw [realAll, List.length_cons, length_realFrom, List.length_cons]

theorem exactLength_le_realAll (segments : List Nat) (tokens : List Int) (lengths : List Nat)
    (count : Nat) :
    exactLength bosId segments tokens lengths count ≤
      ((realAll bosId segments tokens lengths).take count).sum := by
  cases segments with
  | nil => simp [exactLength, imageCost]
  | cons size segments =>
      cases count with
      | zero =>
          rw [exactLength_zero]
          exact Nat.zero_le _
      | succ count =>
          rw [exactLength_succ, realAll, List.take_succ_cons, List.sum_cons]
          exact Nat.add_le_add_left (exactLength_le_realFrom _ _ _ _) _

theorem sum_realAll (segments : List Nat) (tokens : List Int) (lengths : List Nat)
    (h : tokens.length ≤ segments.sum) :
    (realAll bosId segments tokens lengths).sum =
      segments.sum + imageCost bosId lengths tokens := by
  cases segments with
  | nil =>
      rw [List.length_eq_zero_iff.mp (Nat.le_zero.mp h)]
      rfl
  | cons size segments =>
      rw [List.sum_cons] at h
      have hsplit : imageCost bosId lengths tokens =
          imageCost bosId lengths (tokens.take size) +
            imageCost bosId (lengths.drop ((tokens.take size).count bosId))
              (tokens.drop size) := by
        rw [← imageCost_append, List.take_append_drop]
      rw [realAll, List.sum_cons, List.sum_cons,
        sum_realFrom _ _ _ (by rw [List.length_drop]; omega), hsplit]
      omega

/-- Without an image stranded behind the last segment the walk settles. -/
theorem settles_realAll {segments : List Nat} {tokens : List Int} (lengths : List Nat)
    (hne : segments ≠ [])
    (h : ¬ Stranded bosId segments.tail (tokens.drop (segments.headD 0))) :
    Settles bosId segments tokens lengths (realAll bosId segments tokens lengths) := by
  cases segments with
  | nil => exact absurd rfl hne
  | cons size segments =>
      refine ⟨length_realAll _ _ _, exactLength_le_realAll _ _ _, ?_, ?_⟩
      · rw [exactLength_succ, exactLength_zero, realAll, List.take_succ_cons, List.take_zero,
          List.sum_singleton, Nat.add_zero]
      · intro count hcount
        cases count with
        | zero => exact ⟨0, Nat.zero_le _, rfl, by simp⟩
        | succ count =>
            obtain ⟨count', hle, hsum, hreal⟩ := exists_settled segments (tokens.drop size)
              (lengths.drop ((tokens.take size).count bosId)) h (Nat.le_of_succ_le_succ hcount)
            refine ⟨count' + 1, Nat.succ_le_succ hle, ?_, ?_⟩
            · rw [List.take_succ_cons, List.take_succ_cons, List.sum_cons, List.sum_cons, hsum]
            · rw [realAll, List.take_succ_cons, List.sum_cons, exactLength_succ]
              exact Nat.add_le_add_left hreal _

/-- Without images the lengths of the segments are the real ones. -/
theorem settles_self {segments : List Nat} {tokens : List Int} (lengths : List Nat)
    (h : bosId ∉ tokens) : Settles bosId segments tokens lengths segments := by
  have hexact : ∀ count, exactLength bosId segments tokens lengths count =
      (segments.take count).sum := by
    intro count
    have hcount : (tokens.take (segments.take count).sum).count bosId = 0 :=
      List.count_eq_zero.mpr (fun hmem => h (List.mem_of_mem_take hmem))
    rw [exactLength, imageCost, hcount]
    rfl
  refine ⟨rfl, fun count => (hexact count).le, (hexact 1).symm, ?_⟩
  intro count hcount
  exact ⟨count, hcount, rfl, (hexact count).ge⟩

theorem exists_overcharged_realAll {segments : List Nat} {tokens : List Int}
    (h : Stranded bosId segments.tail (tokens.drop (segments.headD 0))) :
    ∃ count ≤ segments.length, 0 < count ∧
      ∀ count', (segments.take count').sum = (segments.take count).sum →
        exactLength bosId segments tokens (List.replicate (tokens.count bosId) 1) count <
          ((realAll bosId segments tokens
            (List.replicate (tokens.count bosId) 1)).take count').sum := by
  cases segments with
  | nil =>
      obtain ⟨p, q, size, _, hp, _, _⟩ := h
      simp at hp
  | cons size segments =>
      obtain ⟨count, hle, hpos, hall⟩ := exists_overcharged segments (tokens.drop size) h
      have hcount : tokens.count bosId - (tokens.take size).count bosId =
          (tokens.drop size).count bosId := by
        have hcount := congrArg (List.count bosId) (List.take_append_drop size tokens)
        rw [List.count_append] at hcount
        omega
      refine ⟨count + 1, Nat.succ_le_succ hle, Nat.succ_pos _, ?_⟩
      intro count' hsame
      cases count' with
      | zero =>
          rw [List.take_succ_cons, List.sum_cons, List.take_zero, List.sum_nil] at hsame
          omega
      | succ count' =>
          rw [List.take_succ_cons, List.take_succ_cons, List.sum_cons, List.sum_cons] at hsame
          rw [realAll, List.take_succ_cons, List.sum_cons, exactLength_succ,
            List.drop_replicate, hcount]
          exact Nat.add_lt_add_left (hall count' (Nat.add_left_cancel hsame)) _

end

end DashInfer.Vision

/-!
`qwen_vl_truncate` is the walk over the tokens with a cut by the real lengths it leaves.
Where the real lengths settle the cut is the right one.
-/

namespace DashInfer.Vision

section ReserveIndex

theorem reserveIndex_le_length (window : Int) (lengths : List Nat) :
    reserveIndex window lengths ≤ lengths.length := by
  induction lengths generalizing window with
  | nil => exact Nat.le_refl _
  | cons length lengths ih =>
      rw [reserveIndex]
      split
      · exact Nat.zero_le _
      · exact Nat.succ_le_succ (ih _)

/-- What is reserved fits. -/
theorem reserveIndex_fits {window : Int} {lengths : List Nat}
    (h : reserveIndex window lengths ≠ 0) :
    (((lengths.take (reserveIndex window lengths)).sum : Nat) : Int) ≤ window := by
  induction lengths generalizing window with
  | nil => exact absurd rfl h
  | cons length lengths ih =>
      rw [reserveIndex] at h ⊢
      split at h
      · exact absurd rfl h
      · next hfit =>
          rw [if_neg hfit, List.take_succ_cons, List.sum_cons]
          by_cases hzero : reserveIndex (window - length) lengths = 0
          · rw [hzero, List.take_zero, List.sum_nil]
            omega
          · have hle := ih hzero
            omega

/-- Nothing that fits is longer. -/
theorem le_reserveIndex {window : Int} {lengths : List Nat} {count : Nat}
    (hcount : count ≤ lengths.length) (hpos : 0 < count)
    (h : (((lengths.take count).sum : Nat) : Int) ≤ window) :
    count ≤ reserveIndex window lengths := by
  induction lengths generalizing window count with
  | nil => exact absurd hcount (Nat.not_le_of_gt hpos)
  | cons length lengths ih =>
      obtain ⟨count, rfl⟩ := Nat.exists_eq_add_one_of_ne_zero (Nat.ne_of_gt hpos)
      rw [List.take_succ_cons, List.sum_cons] at h
      have hrest : (0 : Int) ≤ ((lengths.take count).sum : Nat) := Int.natCast_nonneg _
      rw [reserveIndex, if_neg (by omega)]
      rcases Nat.eq_zero_or_pos count with hzero | hmore
      · omega
      · exact Nat.succ_le_succ (ih (Nat.le_of_succ_le_succ hcount) hmore (by omega))

end ReserveIndex

section

variable {inputIds : List Int} {truncateLengths visionLengths : List Nat} {bosId : Int}

/-- The tokens behind the system part, from the end. -/
def revBody (inputIds : List Int) (truncateLengths : List Nat) : List Int :=
  (inputIds.drop (truncateLengths.headD 0)).reverse

/-- The segments behind the system part, from the end. -/
def revSegments (truncateLengths : List Nat) : List Nat := truncateLengths.tail.reverse

theorem sum_revSegments (hne : truncateLengths.tail ≠ [])
    (hsum : inputIds.length = truncateLengths.sum) :
    (revBody inputIds truncateLengths).length = (revSegments truncateLengths).sum := by
  cases truncateLengths with
  | nil => exact absurd rfl hne
  | cons size rest =>
      rw [List.sum_cons] at hsum
      simp only [revBody, revSegments, List.length_reverse, List.length_drop, List.headD_cons,
        List.tail_cons, List.sum_reverse]
      omega

/-- What the walk leaves as real lengths. -/
theorem exists_walk (hne : truncateLengths.tail ≠ [])
    (hsum : inputIds.length = truncateLengths.sum)
    (hvisions : visionLengths.length = inputIds.count bosId) :
    ∃ s, (revInputIds inputIds (truncateLengths.headD 0)).foldlM
        (walkToken bosId (revSegments truncateLengths))
        ⟨0, (revSegments truncateLengths).headD 0, revSegments truncateLengths,
          visionLengths⟩ = .ok s ∧
      s.realLengths = realAll bosId (revSegments truncateLengths)
        (revInputIds inputIds (truncateLengths.headD 0)) visionLengths.reverse := by
  by_cases hsystem : truncateLengths.headD 0 = 0
  · rw [revInputIds, if_pos hsystem]
    exact ⟨_, rfl, (realAll_nil _ _).symm⟩
  · have hbody : revInputIds inputIds (truncateLengths.headD 0) =
        revBody inputIds truncateLengths := by
      rw [revInputIds, if_neg hsystem]
      rfl
    have hlength := sum_revSegments hne hsum
    have hcount : (revBody inputIds truncateLengths).count bosId ≤
        visionLengths.reverse.length := by
      rw [List.length_reverse, hvisions, revBody, List.count_reverse]
      exact List.Sublist.count_le bosId (List.drop_sublist _ _)
    rw [hbody]
    cases hsegments : revSegments truncateLengths with
    | nil => exact absurd (List.reverse_eq_nil_iff.mp hsegments) hne
    | cons size segments =>
        rw [hsegments] at hlength
        have hwalk := exists_walk_realAll size segments _ _ hlength hcount
        rw [List.reverse_reverse] at hwalk
        exact hwalk

/-- The result for real lengths. -/
def truncateTo (inputIds : List Int) (truncateLengths real : List Nat)
    (maxInputTokens bosId : Int) : Except TruncateError (List Int × Nat) :=
  let index := reserveIndex (maxInputTokens - (truncateLengths.headD 0 : Nat)) real
  if index = 0 then .error .range
  else
    let outputTokens := inputIds.take (truncateLengths.headD 0) ++
      inputIds.drop (inputIds.length - keptTokens truncateLengths.tail index)
    .ok (outputTokens, outputTokens.count bosId)

theorem qwenVlTruncate_eq (maxInputTokens : Int) (hne : truncateLengths.tail ≠ [])
    (hsum : inputIds.length = truncateLengths.sum)
    (hvisions : visionLengths.length = inputIds.count bosId) :
    qwenVlTruncate inputIds truncateLengths visionLengths maxInputTokens bosId =
      truncateTo inputIds truncateLengths
        (realAll bosId (revSegments truncateLengths)
          (revInputIds inputIds (truncateLengths.headD 0)) visionLengths.reverse)
        maxInputTokens bosId := by
  obtain ⟨s, hwalk, hreal⟩ := exists_walk hne hsum hvisions
  rw [← hreal]
  cases truncateLengths with
  | nil => exact absurd rfl hne
  | cons systemLength rest =>
      cases rest with
      | nil => exact absurd rfl hne
      | cons second rest =>
          unfold qwenVlTruncate truncateTo
          rw [if_neg (not_not.mpr hsum), if_neg (not_not.mpr hvisions.symm)]
          exact congrArg (· >>= _) hwalk

theorem keptTokens_le (count : Nat) (hsum : inputIds.length = truncateLengths.sum) :
    keptTokens truncateLengths.tail count ≤ inputIds.length - truncateLengths.headD 0 := by
  have hle : keptTokens truncateLengths.tail count ≤ truncateLengths.tail.reverse.sum :=
    (List.take_sublist _ _).sum_le_sum (fun _ _ => Nat.zero_le _)
  rw [List.sum_reverse] at hle
  cases truncateLengths with
  | nil => exact hle.trans (Nat.zero_le _)
  | cons size rest =>
      rw [List.sum_cons] at hsum
      simp only [List.tail_cons, List.headD_cons] at hle ⊢
      omega

theorem headD_le (hsum : inputIds.length = truncateLengths.sum) :
    truncateLengths.headD 0 ≤ inputIds.length := by
  cases truncateLengths with
  | nil => exact Nat.zero_le _
  | cons size rest =>
      rw [List.sum_cons] at hsum
      rw [List.headD_cons]
      omega

/-- The expanded length is that of the system part and the exact length behind it. -/
theorem expandedLength_kept (count : Nat) (hsum : inputIds.length = truncateLengths.sum) :
    expandedLength inputIds (truncateLengths.headD 0) visionLengths bosId
        (keptTokens truncateLengths.tail count) =
      truncateLengths.headD 0 +
        (visionLengths.take ((inputIds.take (truncateLengths.headD 0)).count bosId)).sum +
        exactLength bosId (revSegments truncateLengths) (revBody inputIds truncateLengths)
          visionLengths.reverse count := by
  have hle := keptTokens_le count hsum
  have hhead := headD_le hsum
  have hcount : (inputIds.drop (inputIds.length - keptTokens truncateLengths.tail count)).count
      bosId = ((revBody inputIds truncateLengths).take
        (keptTokens truncateLengths.tail count)).count bosId := by
    rw [revBody, List.take_reverse, List.count_reverse, List.length_drop, List.drop_drop]
    congr 2
    omega
  have hcost : (visionLengths.drop (visionLengths.length -
      (inputIds.drop (inputIds.length - keptTokens truncateLengths.tail count)).count bosId)).sum =
        imageCost bosId visionLengths.reverse ((revBody inputIds truncateLengths).take
          (keptTokens truncateLengths.tail count)) := by
    rw [hcount, imageCost, List.take_reverse, List.sum_reverse]
  rw [expandedLength, hcost, exactLength]
  change _ = _ + (keptTokens truncateLengths.tail count +
    imageCost bosId visionLengths.reverse ((revBody inputIds truncateLengths).take
      (keptTokens truncateLengths.tail count)))
  omega

/-- Without images in the system part it costs only its tokens. -/
theorem expandedLength_of_not_mem (count : Nat) (hsum : inputIds.length = truncateLengths.sum)
    (hsystem : bosId ∉ inputIds.take (truncateLengths.headD 0)) :
    expandedLength inputIds (truncateLengths.headD 0) visionLengths bosId
        (keptTokens truncateLengths.tail count) =
      truncateLengths.headD 0 +
        exactLength bosId (revSegments truncateLengths) (revBody inputIds truncateLengths)
          visionLengths.reverse count := by
  rw [expandedLength_kept count hsum, List.count_eq_zero.mpr hsystem]
  rfl

/-- Real lengths that settle choose the right segments. -/
theorem truncateTo_right {real : List Nat} (maxInputTokens : Int)
    (hne : truncateLengths.tail ≠ []) (hsum : inputIds.length = truncateLengths.sum)
    (hsystem : bosId ∉ inputIds.take (truncateLengths.headD 0))
    (h : Settles bosId (revSegments truncateLengths) (revBody inputIds truncateLengths)
      visionLengths.reverse real) :
    TruncatesRight inputIds truncateLengths visionLengths maxInputTokens bosId
      (truncateTo inputIds truncateLengths real maxInputTokens bosId) := by
  have hreal : real.length = truncateLengths.tail.length := by
    rw [h.length, revSegments, List.length_reverse]
  have hexpanded : ∀ count, expandedLength inputIds (truncateLengths.headD 0) visionLengths bosId
      (keptTokens truncateLengths.tail count) = truncateLengths.headD 0 +
        exactLength bosId (revSegments truncateLengths) (revBody inputIds truncateLengths)
          visionLengths.reverse count := fun count => expandedLength_of_not_mem count hsum hsystem
  unfold truncateTo
  dsimp only
  split
  · next hindex =>
      refine ⟨hne, ?_⟩
      by_contra hfits
      have hone := @le_reserveIndex (maxInputTokens - (truncateLengths.headD 0 : Nat)) real 1
        (by rw [hreal]; exact List.length_pos_iff.mpr hne) Nat.one_pos (by
          rw [h.first]
          rw [hexpanded 1] at hfits
          omega)
      omega
  · next hindex =>
      have hfits := reserveIndex_fits hindex
      have hle := reserveIndex_le_length (maxInputTokens - (truncateLengths.headD 0 : Nat)) real
      refine ⟨_, by rwa [hreal] at hle, rfl, ?_, ?_, rfl⟩
      · rw [hexpanded]
        have henough := h.enough
          (reserveIndex (maxInputTokens - (truncateLengths.headD 0 : Nat)) real)
        omega
      · intro other hother hshort
        rw [hexpanded] at hshort
        obtain ⟨count, hcount, hsame, hsettled⟩ := h.settled other (by
          rw [revSegments, List.length_reverse]
          exact hother)
        change (keptTokens truncateLengths.tail count) = keptTokens truncateLengths.tail other
          at hsame
        rw [← hsame]
        rcases Nat.eq_zero_or_pos count with hzero | hpos
        · rw [hzero]
          exact Nat.zero_le _
        · have hreserved := le_reserveIndex (by rw [h.length]; exact hcount) hpos (by
            push_cast at hshort
            have : (((real.take count).sum : Nat) : Int) ≤ _ := Int.ofNat_le.mpr hsettled
            exact this.trans (Int.le_sub_left_of_add_le hshort))
          exact (List.take_prefix_take_left hreserved).sublist.sum_le_sum
            (fun _ _ => Nat.zero_le _)

end

end DashInfer.Vision
