import Mathlib
import DashInfer.Vision.TruncateLaw

/-!
`qwen_vl_truncate` keeps the longest suffix of segments that fits, whatever the lengths
of the images and the limit are, just where there is a segment behind the system part,
no image starts in the system part, the system part is there when there are images, and
no image starts before two segments of which the first has tokens and the second is
empty and not the last.
-/

namespace DashInfer.Vision

/-- The tokens and segments with which the truncation is right. -/
structure GoodShape (inputIds : List Int) (truncateLengths : List Nat) (bosId : Int) : Prop where
  segments : truncateLengths.tail ≠ []
  system : bosId ∉ inputIds.take (truncateLengths.headD 0)
  present : truncateLengths.headD 0 = 0 → bosId ∉ inputIds
  unstranded : ∀ b c, 0 < b → b < c → c + 1 < truncateLengths.length →
    truncateLengths[b]? ≠ some 0 → truncateLengths[c]? = some 0 →
      bosId ∉ inputIds.take (truncateLengths.take b).sum

section

variable {inputIds : List Int} {truncateLengths visionLengths : List Nat} {bosId : Int}

/-- What a right result says about the segments that were reserved. -/
theorem TruncatesRight.reserved {real : List Nat} {maxInputTokens : Int}
    (hsum : inputIds.length = truncateLengths.sum)
    (h : TruncatesRight inputIds truncateLengths visionLengths maxInputTokens bosId
      (truncateTo inputIds truncateLengths real maxInputTokens bosId)) :
    if reserveIndex (maxInputTokens - (truncateLengths.headD 0 : Nat)) real = 0 then
      maxInputTokens < expandedLength inputIds (truncateLengths.headD 0) visionLengths bosId
        (keptTokens truncateLengths.tail 1)
    else
      (expandedLength inputIds (truncateLengths.headD 0) visionLengths bosId
        (keptTokens truncateLengths.tail
          (reserveIndex (maxInputTokens - (truncateLengths.headD 0 : Nat)) real)) : Int) ≤
        maxInputTokens ∧
      ∀ other ≤ truncateLengths.tail.length,
        (expandedLength inputIds (truncateLengths.headD 0) visionLengths bosId
          (keptTokens truncateLengths.tail other) : Int) ≤ maxInputTokens →
        keptTokens truncateLengths.tail other ≤ keptTokens truncateLengths.tail
          (reserveIndex (maxInputTokens - (truncateLengths.headD 0 : Nat)) real) := by
  unfold truncateTo at h
  dsimp only at h
  split at h
  · next hindex =>
      rw [if_pos hindex]
      exact h.2
  · next hindex =>
      rw [if_neg hindex]
      obtain ⟨count, _, houtput, hfits, hlongest, _⟩ := h
      -- the output fixes how many tokens are kept, if not how many segments
      have hsame : keptTokens truncateLengths.tail
          (reserveIndex (maxInputTokens - (truncateLengths.headD 0 : Nat)) real) =
            keptTokens truncateLengths.tail count := by
        have hlength := congrArg List.length (List.append_cancel_left houtput)
        rw [List.length_drop, List.length_drop] at hlength
        have hle := @keptTokens_le inputIds truncateLengths
          (reserveIndex (maxInputTokens - (truncateLengths.headD 0 : Nat)) real) hsum
        have hle' := @keptTokens_le inputIds truncateLengths count hsum
        omega
      rw [hsame]
      exact ⟨hfits, hlongest⟩

/-- The images of length one that the walk does not meet. -/
theorem count_le_of_right (hne : truncateLengths.tail ≠ [])
    (hsum : inputIds.length = truncateLengths.sum)
    (h : ∀ visionLengths : List Nat, visionLengths.length = inputIds.count bosId →
      ∀ maxInputTokens, TruncatesRight inputIds truncateLengths visionLengths maxInputTokens bosId
        (qwenVlTruncate inputIds truncateLengths visionLengths maxInputTokens bosId)) :
    (inputIds.take (truncateLengths.headD 0)).count bosId +
        (revBody inputIds truncateLengths).count bosId ≤
      (revInputIds inputIds (truncateLengths.headD 0)).count bosId := by
  have hbody : (revBody inputIds truncateLengths).count bosId ≤ inputIds.count bosId := by
    rw [revBody, List.count_reverse]
    exact List.Sublist.count_le bosId (List.drop_sublist _ _)
  have hsystem : (inputIds.take (truncateLengths.headD 0)).count bosId ≤ inputIds.count bosId :=
    List.Sublist.count_le bosId (List.take_sublist _ _)
  have hwalk : (revInputIds inputIds (truncateLengths.headD 0)).count bosId ≤
        inputIds.count bosId ∧
      (revInputIds inputIds (truncateLengths.headD 0)).length ≤
        (revSegments truncateLengths).sum := by
    rw [revInputIds]
    split
    · exact ⟨Nat.zero_le _, Nat.zero_le _⟩
    · exact ⟨hbody, (sum_revSegments hne hsum).le⟩
  -- a limit with which everything fits as far as the walk has it
  have hall := h (List.replicate (inputIds.count bosId) 1) List.length_replicate
    ((truncateLengths.headD 0 : Nat) + ((revSegments truncateLengths).sum +
      (revInputIds inputIds (truncateLengths.headD 0)).count bosId : Nat))
  rw [qwenVlTruncate_eq _ hne hsum List.length_replicate] at hall
  have hreserved := hall.reserved hsum
  have hlength := @length_realAll bosId (revSegments truncateLengths)
    (revInputIds inputIds (truncateLengths.headD 0))
    (List.replicate (inputIds.count bosId) 1).reverse
  have hreal := @sum_realAll bosId (revSegments truncateLengths)
    (revInputIds inputIds (truncateLengths.headD 0))
    (List.replicate (inputIds.count bosId) 1).reverse hwalk.2
  rw [List.reverse_replicate, imageCost_replicate hwalk.1] at hreal
  rw [List.reverse_replicate] at hreserved hlength
  have hpos : 0 < (revSegments truncateLengths).length := by
    rw [revSegments, List.length_reverse]
    exact List.length_pos_iff.mpr hne
  generalize realAll bosId (revSegments truncateLengths)
    (revInputIds inputIds (truncateLengths.headD 0))
    (List.replicate (inputIds.count bosId) 1) = real at hreserved hlength hreal
  have hindex : reserveIndex (((truncateLengths.headD 0 : Nat) + ((revSegments truncateLengths).sum +
      (revInputIds inputIds (truncateLengths.headD 0)).count bosId : Nat) : Int) -
        (truncateLengths.headD 0 : Nat)) real = (revSegments truncateLengths).length := by
    apply Nat.le_antisymm
    · rw [← hlength]
      exact reserveIndex_le_length _ _
    · apply le_reserveIndex hlength.ge hpos
      rw [← hlength, List.take_length, hreal]
      omega
  rw [hindex, if_neg (Nat.ne_of_gt hpos), expandedLength_kept _ hsum, exactLength,
    List.take_length, List.take_of_length_le (sum_revSegments hne hsum).le,
    List.reverse_replicate, imageCost_replicate hbody] at hreserved
  have hcost := imageCost_replicate hsystem
  unfold imageCost at hcost
  rw [hcost] at hreserved
  have hfits := hreserved.1
  omega

section Positions

variable {segments : List Nat} {body : List Int}

/-- Where the tokens behind some of the last segments are. -/
theorem mem_drop_reverse_iff (hbody : body.length = segments.sum) (q : Nat) :
    bosId ∈ (body.reverse.drop (segments.reverse.headD 0)).drop
        (segments.reverse.tail.take (q + 1)).sum ↔
      bosId ∈ body.take (segments.take (segments.length - (q + 2))).sum := by
  have hhead : segments.reverse.headD 0 + (segments.reverse.tail.take (q + 1)).sum =
      (segments.reverse.take (q + 2)).sum := by
    cases segments.reverse with
    | nil => rfl
    | cons size rest => rfl
  have hsplit := congrArg List.sum
    (List.take_append_drop (segments.length - (q + 2)) segments)
  rw [List.sum_append] at hsplit
  rw [List.drop_drop, hhead, List.take_reverse, List.sum_reverse, List.drop_reverse,
    List.mem_reverse, hbody]
  have hsub : segments.sum - (segments.drop (segments.length - (q + 2))).sum =
      (segments.take (segments.length - (q + 2))).sum := by omega
  rw [hsub]

theorem tail_reverse_getElem? {p : Nat} (hp : p + 1 < segments.length) :
    segments.reverse.tail[p]? = segments[segments.length - (p + 2)]? := by
  rw [List.getElem?_tail, List.getElem?_reverse hp, Nat.sub_sub, Nat.add_comm 1]

/-- The order of the segments behind which images are stranded, from the front. -/
theorem stranded_iff (hbody : body.length = segments.sum) :
    Stranded bosId segments.reverse.tail (body.reverse.drop (segments.reverse.headD 0)) ↔
      ∃ b c, b < c ∧ c + 1 < segments.length ∧ segments[b]? ≠ some 0 ∧
        segments[c]? = some 0 ∧ bosId ∈ body.take (segments.take b).sum := by
  constructor
  · rintro ⟨p, q, size, hpq, hp, hq, hmem⟩
    have hlength := (List.getElem?_eq_some_iff.mp hq).1
    rw [List.length_tail, List.length_reverse] at hlength
    rw [tail_reverse_getElem? (by omega)] at hp hq
    rw [mem_drop_reverse_iff hbody] at hmem
    refine ⟨_, _, ?_, ?_, ?_, hp, hmem⟩
    · omega
    · omega
    · rw [hq]
      exact fun hzero => Nat.succ_ne_zero size (Option.some.inj hzero)
  · rintro ⟨b, c, hbc, hc, hb, hzero, hmem⟩
    have hfirst : segments.length - (segments.length - (b + 2) + 2) = b := by omega
    have hsecond : segments.length - (segments.length - (c + 2) + 2) = c := by omega
    obtain ⟨size, hsize⟩ : ∃ size, segments[b]? = some (size + 1) := by
      cases hvalue : segments[b]? with
      | none =>
          rw [List.getElem?_eq_none_iff] at hvalue
          omega
      | some value =>
          rw [hvalue] at hb
          obtain ⟨size, rfl⟩ := Nat.exists_eq_add_one_of_ne_zero
            (fun h : value = 0 => hb (congrArg some h))
          exact ⟨size, rfl⟩
    refine ⟨segments.length - (c + 2), segments.length - (b + 2), size, by omega, ?_, ?_, ?_⟩
    · rw [tail_reverse_getElem? (by omega), hsecond]
      exact hzero
    · rw [tail_reverse_getElem? (by omega), hfirst]
      exact hsize
    · rw [mem_drop_reverse_iff hbody, hfirst]
      exact hmem

end Positions

/-- The same with the system part in front. -/
theorem stranded_rev_iff (hne : truncateLengths.tail ≠ [])
    (hsum : inputIds.length = truncateLengths.sum)
    (hsystem : bosId ∉ inputIds.take (truncateLengths.headD 0)) :
    Stranded bosId (revSegments truncateLengths).tail
        ((revBody inputIds truncateLengths).drop ((revSegments truncateLengths).headD 0)) ↔
      ∃ b c, 0 < b ∧ b < c ∧ c + 1 < truncateLengths.length ∧ truncateLengths[b]? ≠ some 0 ∧
        truncateLengths[c]? = some 0 ∧ bosId ∈ inputIds.take (truncateLengths.take b).sum := by
  cases truncateLengths with
  | nil => exact absurd rfl hne
  | cons size segments =>
      rw [List.sum_cons] at hsum
      have hbody : (inputIds.drop size).length = segments.sum := by
        rw [List.length_drop]
        omega
      have hmem : ∀ b, bosId ∈ inputIds.take (size + (segments.take b).sum) ↔
          bosId ∈ (inputIds.drop size).take (segments.take b).sum := by
        intro b
        rw [List.take_add, List.mem_append]
        exact or_iff_right hsystem
      refine (stranded_iff hbody).trans ?_
      constructor
      · rintro ⟨b, c, hbc, hc, hb, hzero, hbos⟩
        refine ⟨b + 1, c + 1, Nat.succ_pos b, Nat.succ_lt_succ hbc, Nat.succ_lt_succ hc,
          hb, hzero, ?_⟩
        rw [List.take_succ_cons, List.sum_cons]
        exact (hmem b).mpr hbos
      · rintro ⟨b, c, hpos, hbc, hc, hb, hzero, hbos⟩
        obtain ⟨b, rfl⟩ := Nat.exists_eq_add_one_of_ne_zero (Nat.ne_of_gt hpos)
        obtain ⟨c, rfl⟩ := Nat.exists_eq_add_one_of_ne_zero (Nat.ne_zero_of_lt hbc)
        rw [List.take_succ_cons, List.sum_cons] at hbos
        exact ⟨b, c, Nat.lt_of_succ_lt_succ hbc, Nat.lt_of_succ_lt_succ hc, hb, hzero,
          (hmem b).mp hbos⟩

/-- The images of length one whose segments are overcharged are cut off too early. -/
theorem not_stranded_of_right (hne : truncateLengths.tail ≠ [])
    (hsum : inputIds.length = truncateLengths.sum)
    (hpresent : truncateLengths.headD 0 ≠ 0)
    (hsystem : bosId ∉ inputIds.take (truncateLengths.headD 0))
    (h : ∀ visionLengths : List Nat, visionLengths.length = inputIds.count bosId →
      ∀ maxInputTokens, TruncatesRight inputIds truncateLengths visionLengths maxInputTokens bosId
        (qwenVlTruncate inputIds truncateLengths visionLengths maxInputTokens bosId)) :
    ¬ Stranded bosId (revSegments truncateLengths).tail
      ((revBody inputIds truncateLengths).drop ((revSegments truncateLengths).headD 0)) := by
  intro hstranded
  obtain ⟨count, hcount, hpos, hover⟩ := exists_overcharged_realAll hstranded
  have hbody : (revBody inputIds truncateLengths).count bosId = inputIds.count bosId := by
    have hsplit := congrArg (List.count bosId)
      (List.take_append_drop (truncateLengths.headD 0) inputIds)
    rw [List.count_append, List.count_eq_zero.mpr hsystem, Nat.zero_add] at hsplit
    rw [revBody, List.count_reverse, hsplit]
  have hwalk : revInputIds inputIds (truncateLengths.headD 0) =
      revBody inputIds truncateLengths := by
    rw [revInputIds, if_neg hpresent]
    rfl
  rw [hbody] at hover
  -- the limit is what the overcharged segments need
  have hright := h (List.replicate (inputIds.count bosId) 1) List.length_replicate
    ((truncateLengths.headD 0 : Nat) + (exactLength bosId (revSegments truncateLengths)
      (revBody inputIds truncateLengths) (List.replicate (inputIds.count bosId) 1) count : Nat))
  rw [qwenVlTruncate_eq _ hne hsum List.length_replicate, hwalk, List.reverse_replicate] at hright
  have hreserved := hright.reserved hsum
  have henough := @exactLength_le_realAll bosId (revSegments truncateLengths)
    (revBody inputIds truncateLengths) (List.replicate (inputIds.count bosId) 1)
  generalize realAll bosId (revSegments truncateLengths) (revBody inputIds truncateLengths)
    (List.replicate (inputIds.count bosId) 1) = real at hreserved hover henough
  simp only [expandedLength_of_not_mem _ hsum hsystem, List.reverse_replicate] at hreserved
  split at hreserved
  · have hone := @exactLength_le_succ bosId (revSegments truncateLengths)
      (revBody inputIds truncateLengths) (List.replicate (inputIds.count bosId) 1) 1 count hpos
    omega
  · next hindex =>
      have hfits := reserveIndex_fits hindex
      generalize reserveIndex _ real = index at hreserved hfits
      have hlonger := hreserved.2 count (by
        rw [revSegments, List.length_reverse] at hcount
        exact hcount) (Nat.cast_add _ _).le
      change ((revSegments truncateLengths).take count).sum ≤
        ((revSegments truncateLengths).take index).sum at hlonger
      have hexact : exactLength bosId (revSegments truncateLengths)
            (revBody inputIds truncateLengths) (List.replicate (inputIds.count bosId) 1) index ≤
          exactLength bosId (revSegments truncateLengths)
            (revBody inputIds truncateLengths) (List.replicate (inputIds.count bosId) 1) count := by
        have := henough index
        omega
      have hsame : ((revSegments truncateLengths).take index).sum =
          ((revSegments truncateLengths).take count).sum := by
        apply Nat.le_antisymm _ hlonger
        by_contra hmore
        have hcost : imageCost bosId (List.replicate (inputIds.count bosId) 1)
            ((revBody inputIds truncateLengths).take
              ((revSegments truncateLengths).take count).sum) ≤
            imageCost bosId (List.replicate (inputIds.count bosId) 1)
              ((revBody inputIds truncateLengths).take
                ((revSegments truncateLengths).take index).sum) := by
          have htake := @imageCost_take_le bosId
            (List.replicate (inputIds.count bosId) 1)
            ((revBody inputIds truncateLengths).take
              ((revSegments truncateLengths).take index).sum)
            ((revSegments truncateLengths).take count).sum
          rw [List.take_take, Nat.min_eq_left hlonger] at htake
          exact htake
        unfold exactLength at hexact
        omega
      have hless := hover index hsame
      omega

theorem qwenVlTruncate_right_iff (inputIds : List Int) (truncateLengths : List Nat) (bosId : Int)
    (hsum : inputIds.length = truncateLengths.sum) :
    (∀ visionLengths : List Nat, visionLengths.length = inputIds.count bosId →
      ∀ maxInputTokens, TruncatesRight inputIds truncateLengths visionLengths maxInputTokens bosId
        (qwenVlTruncate inputIds truncateLengths visionLengths maxInputTokens bosId)) ↔
      GoodShape inputIds truncateLengths bosId := by
  constructor
  · intro h
    have hne : truncateLengths.tail ≠ [] := by
      have hright := h (List.replicate (inputIds.count bosId) 1) List.length_replicate 0
      unfold qwenVlTruncate at hright
      rw [if_neg (not_not.mpr hsum), if_neg (not_not.mpr List.length_replicate.symm)] at hright
      match truncateLengths with
      | [] => exact hright.1
      | [_] => exact hright.1
      | _ :: _ :: _ => exact List.cons_ne_nil _ _
    have hcount := count_le_of_right hne hsum h
    by_cases hpresent : truncateLengths.headD 0 = 0
    · -- without a system part the walk meets no token
      have hnone : bosId ∉ inputIds := by
        rw [revInputIds, if_pos hpresent, revBody, hpresent, List.drop_zero,
          List.count_reverse] at hcount
        apply List.count_eq_zero.mp
        exact Nat.le_zero.mp ((Nat.le_add_left _ _).trans hcount)
      refine ⟨hne, fun hmem => hnone (List.mem_of_mem_take hmem), fun _ => hnone, ?_⟩
      intro b c _ _ _ _ _ hmem
      exact hnone (List.mem_of_mem_take hmem)
    · have hsystem : bosId ∉ inputIds.take (truncateLengths.headD 0) := by
        rw [revInputIds, if_neg hpresent] at hcount
        apply List.count_eq_zero.mp
        unfold revBody at hcount
        omega
      refine ⟨hne, hsystem, fun hzero => absurd hzero hpresent, ?_⟩
      intro b c hb hbc hc hsize hzero hmem
      apply not_stranded_of_right hne hsum hpresent hsystem h
      rw [stranded_rev_iff hne hsum hsystem]
      exact ⟨b, c, hb, hbc, hc, hsize, hzero, hmem⟩
  · intro hgood visionLengths hvisions maxInputTokens
    rw [qwenVlTruncate_eq _ hgood.segments hsum hvisions]
    apply truncateTo_right _ hgood.segments hsum hgood.system
    by_cases hpresent : truncateLengths.headD 0 = 0
    · rw [revInputIds, if_pos hpresent, realAll_nil]
      apply settles_self
      intro hmem
      exact hgood.present hpresent (List.mem_of_mem_drop (List.mem_reverse.mp hmem))
    · rw [revInputIds, if_neg hpresent]
      apply settles_realAll
      · intro hnil
        exact hgood.segments (List.reverse_eq_nil_iff.mp hnil)
      · intro hstranded
        obtain ⟨b, c, hb, hbc, hc, hsize, hzero, hmem⟩ :=
          (stranded_rev_iff hgood.segments hsum hgood.system).mp hstranded
        exact hgood.unstranded b c hb hbc hc hsize hzero hmem

/-- A system token and one segment whose image and tokens need the limit exactly. -/
theorem qwenVlTruncate_right_at_limit :
    TruncatesRight [1, 151652, 2] [1, 2] [5] 8 151652
      (qwenVlTruncate [1, 151652, 2] [1, 2] [5] 8 151652) := by
  have hgood : GoodShape [1, 151652, 2] [1, 2] 151652 := by
    refine ⟨by decide, by decide, by decide, ?_⟩
    intro b c hb hbc hc
    have hlength : [1, 2].length = 2 := rfl
    omega
  exact (qwenVlTruncate_right_iff [1, 151652, 2] [1, 2] 151652 rfl).mpr hgood [5] rfl 8

/-- Without a system part the image is not charged. -/
theorem qwenVlTruncate_no_system :
    qwenVlTruncate [151652] [0, 1] [5] 1 151652 = .ok ([151652], 1) ∧
      ¬ TruncatesRight [151652] [0, 1] [5] 1 151652
        (qwenVlTruncate [151652] [0, 1] [5] 1 151652) := by
  have hrun : qwenVlTruncate [151652] [0, 1] [5] 1 151652 = .ok ([151652], 1) := by decide
  refine ⟨hrun, ?_⟩
  rw [hrun]
  rintro ⟨count, hcount, houtput, hfits, _⟩
  have hle : count ≤ 1 := hcount
  interval_cases count
  · exact absurd houtput (by decide)
  · exact absurd hfits (by decide)

end

end DashInfer.Vision
