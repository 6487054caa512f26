import Mathlib.Tactic

/-!
`CPUContext::SemWaitMsgSynInterProcess`: the ranks of a multi-NUMA engine
compare how many messages each of them has handled. Every rank adds its count
to the shared memory and waits; the last one to arrive compares the counters
through their exclusive or and wakes the others, which read its verdict.
-/

namespace DashInfer.Sync

/-- `CPUShareData`, as far as the receiving side uses it. -/
structure ShareData where
  dataRecv : Nat
  dataRetry : Nat
  dataRecvMsg : List (BitVec 32)
deriving DecidableEq, Repr

/-- The call of one rank. `none` is a rank that waits on the condition, `some`
the value returned by a rank that does not. -/
def semWaitMsgSynInterProcess (nranks rank : Nat) (msgSize : BitVec 32) (m : ShareData) :
    ShareData × Option Bool :=
  if nranks = 1 then (m, some false)
  else
    let m := { m with
      dataRecv := m.dataRecv + 1
      dataRecvMsg := m.dataRecvMsg.modify rank (· + msgSize) }
    if m.dataRecv ≠ nranks then (m, none)
    else
      let res := m.dataRecvMsg.foldl (· ^^^ ·) 0
      if res ≠ 0 then ({ m with dataRetry := 1, dataRecv := 0 }, some true)
      else
        ({ dataRetry := 0, dataRecv := 0, dataRecvMsg := m.dataRecvMsg.map (fun _ => 0) },
          some false)

/-- The ranks call in the given order; each is listed with what its call
returned before it could be woken. -/
def arriveAll (nranks : Nat) :
    List (Nat × BitVec 32) → ShareData → ShareData × List (Nat × Option Bool)
  | [], m => (m, [])
  | (rank, msgSize) :: rest, m =>
      let called := semWaitMsgSynInterProcess nranks rank msgSize m
      let others := arriveAll nranks rest called.1
      (others.1, (rank, called.2) :: others.2)

/-- One round: a rank that waited reads `data_retry` once it is woken, which is
before the next round can end. The result is `retry` for every rank. -/
def syncRound (nranks : Nat) (arrivals : List (Nat × BitVec 32)) (m : ShareData) :
    ShareData × List (Nat × Bool) :=
  let called := arriveAll nranks arrivals m
  (called.1, called.2.map (fun call => (call.1, call.2.getD (called.1.dataRetry = 1))))

/-- The message counters of a round, once every rank has added its own. -/
def roundCounters (arrivals : List (Nat × BitVec 32)) (m : ShareData) : List (BitVec 32) :=
  arrivals.foldl (fun counters arrival => counters.modify arrival.1 (· + arrival.2)) m.dataRecvMsg

/-- All ranks have handled the same number of messages. -/
def SameCount (counters : List (BitVec 32)) : Prop := ∀ a ∈ counters, ∀ b ∈ counters, a = b

/-- Some bit is set in an odd number of counters. -/
def OddBit (counters : List (BitVec 32)) : Prop :=
  ∃ i < 32, counters.countP (fun c => c.getLsbD i) % 2 = 1

/-- Counters that an exclusive or tells apart: equal ones cancel, or are zero,
and unequal ones leave a bit. -/
def Separated (counters : List (BitVec 32)) : Prop :=
  (SameCount counters →
    counters.length = 1 ∨ counters.length % 2 = 0 ∨ ∀ c ∈ counters, c = 0) ∧
  (¬ SameCount counters → OddBit counters)

private theorem getLsbD_foldl_xor (counters : List (BitVec 32)) (res : BitVec 32) (i : Nat) :
    (counters.foldl (· ^^^ ·) res).getLsbD i =
      (res.getLsbD i ^^ decide (counters.countP (fun c => c.getLsbD i) % 2 = 1)) := by
  induction counters generalizing res with
  | nil => simp
  | cons c rest ih =>
      rw [List.foldl_cons, ih, BitVec.getLsbD_xor]
      cases hc : c.getLsbD i with
      | false => simp [List.countP_cons, hc]
      | true =>
          have hparity : (rest.countP (fun c => c.getLsbD i) + 1) % 2 = 1 ↔
              ¬ rest.countP (fun c => c.getLsbD i) % 2 = 1 := by omega
          simp only [List.countP_cons, hc, if_true, hparity, decide_not]
          cases res.getLsbD i <;> simp

/-- The exclusive or of the counters vanishes when no bit is odd. -/
private theorem foldl_xor_eq_zero_iff (counters : List (BitVec 32)) :
    counters.foldl (· ^^^ ·) 0 = 0 ↔ ¬ OddBit counters := by
  constructor
  · rintro hzero ⟨i, _, hodd⟩
    have hbit := getLsbD_foldl_xor counters 0 i
    rw [hzero] at hbit
    simp [hodd] at hbit
  · intro hodd
    apply BitVec.eq_of_getLsbD_eq
    intro i hi
    rw [getLsbD_foldl_xor]
    have heven : ¬ counters.countP (fun c => c.getLsbD i) % 2 = 1 :=
      fun h => hodd ⟨i, hi, h⟩
    simp [heven]

/-- Equal counters have an odd bit when they are not zero and odd in number. -/
private theorem oddBit_of_sameCount {counters : List (BitVec 32)} (hsame : SameCount counters) :
    OddBit counters ↔ ¬ (counters.length % 2 = 0 ∨ ∀ c ∈ counters, c = 0) := by
  have hcount : ∀ c ∈ counters, ∀ i, counters.countP (fun c => c.getLsbD i) =
      if c.getLsbD i then counters.length else 0 := by
    intro c hc i
    cases hbit : c.getLsbD i with
    | false =>
        simp only [Bool.false_eq_true, if_false, List.countP_eq_zero]
        intro b hb
        rw [hsame b hb c hc, hbit]
        simp
    | true =>
        simp only [if_true, List.countP_eq_length]
        intro b hb
        rw [hsame b hb c hc, hbit]
  constructor
  · rintro ⟨i, _, hodd⟩ hor
    cases hcounters : counters with
    | nil => simp [hcounters] at hodd
    | cons c rest =>
        have hc : c ∈ counters := by simp [hcounters]
        rw [hcount c hc i] at hodd
        rcases hor with heven | hzero
        · split at hodd <;> omega
        · rw [hzero c hc] at hodd
          simp at hodd
  · intro hnot
    rw [not_or] at hnot
    obtain ⟨hlen, hzero⟩ := hnot
    push Not at hzero
    obtain ⟨c, hc, hne⟩ := hzero
    obtain ⟨i, hi, hbit⟩ : ∃ i < 32, c.getLsbD i = true := by
      by_contra hall
      push Not at hall
      apply hne
      apply BitVec.eq_of_getLsbD_eq
      intro i hi
      simpa using hall i hi
    refine ⟨i, hi, ?_⟩
    rw [hcount c hc i, hbit, if_pos rfl]
    omega

/-- What the last rank of a round finds, and leaves for the others. -/
private theorem semWait_last {nranks : Nat} (rank : Nat) (msgSize : BitVec 32) {m : ShareData}
    (hone : nranks ≠ 1) (hlast : m.dataRecv + 1 = nranks) :
    ∃ retry, (semWaitMsgSynInterProcess nranks rank msgSize m).2 = some retry ∧
      (retry = true ↔ OddBit (m.dataRecvMsg.modify rank (· + msgSize))) ∧
      ((semWaitMsgSynInterProcess nranks rank msgSize m).1.dataRetry = 1 ↔ retry = true) := by
  have hiff := foldl_xor_eq_zero_iff (m.dataRecvMsg.modify rank (· + msgSize))
  unfold semWaitMsgSynInterProcess
  rw [if_neg hone]
  dsimp only
  rw [if_neg (by omega)]
  split
  · next hres => exact ⟨true, rfl, by simpa using not_imp_comm.mp hiff.mpr hres, by simp⟩
  · next hres => exact ⟨false, rfl, by simpa using hiff.mp (not_not.mp hres), by simp⟩

private theorem semWait_early {nranks : Nat} (rank : Nat) (msgSize : BitVec 32) {m : ShareData}
    (hone : nranks ≠ 1) (hearly : m.dataRecv + 1 ≠ nranks) :
    semWaitMsgSynInterProcess nranks rank msgSize m =
      ({ m with
        dataRecv := m.dataRecv + 1
        dataRecvMsg := m.dataRecvMsg.modify rank (· + msgSize) }, none) := by
  unfold semWaitMsgSynInterProcess
  rw [if_neg hone]
  dsimp only
  rw [if_pos hearly]

/-- The rest of a round, by induction over the ranks still to come: the last
one gives the verdict and the others will read it. -/
private theorem arriveAll_spec {nranks : Nat} (hone : nranks ≠ 1)
    (arrivals : List (Nat × BitVec 32)) (m : ShareData) (hne : arrivals ≠ [])
    (hrest : m.dataRecv + arrivals.length = nranks) :
    ∃ retry, (retry = true ↔ OddBit (roundCounters arrivals m)) ∧
      ((arriveAll nranks arrivals m).1.dataRetry = 1 ↔ retry = true) ∧
      (arriveAll nranks arrivals m).2.map Prod.fst = arrivals.map Prod.fst ∧
      ∀ call ∈ (arriveAll nranks arrivals m).2, call.2 = none ∨ call.2 = some retry := by
  induction arrivals generalizing m with
  | nil => exact absurd rfl hne
  | cons arrival rest ih =>
      obtain ⟨rank, msgSize⟩ := arrival
      rw [List.length_cons] at hrest
      cases rest with
      | nil =>
          obtain ⟨retry, hcall, hodd, hretry⟩ := semWait_last rank msgSize hone hrest
          refine ⟨retry, hodd, hretry, rfl, ?_⟩
          intro call hin
          simp only [arriveAll, List.mem_singleton] at hin
          rw [hin]
          exact Or.inr hcall
      | cons next rest =>
          have hnot : m.dataRecv + 1 ≠ nranks := by
            simp only [List.length_cons] at hrest
            omega
          have hearly := semWait_early rank msgSize hone hnot
          obtain ⟨retry, hodd, hretry, hranks, hcalls⟩ := ih
            (semWaitMsgSynInterProcess nranks rank msgSize m).1 (by simp) (by
              rw [hearly]
              dsimp only
              omega)
          refine ⟨retry, ?_, hretry, ?_, ?_⟩
          · rw [hodd, hearly]
            rfl
          · rw [arriveAll, List.map_cons, hranks]
            rfl
          · intro call hin
            rw [arriveAll, List.mem_cons] at hin
            rcases hin with rfl | hin
            · rw [hearly]
              exact Or.inl rfl
            · exact hcalls call hin

/-- In a round of several ranks every one gets the same verdict. -/
private theorem syncRound_spec {nranks : Nat} (hone : nranks ≠ 1) (hpos : 0 < nranks)
    {arrivals : List (Nat × BitVec 32)} {m : ShareData} (hrecv : m.dataRecv = 0)
    (hranks : (arrivals.map Prod.fst).Perm (List.range nranks)) (rank : Nat)
    (hrank : rank < nranks) :
    (rank, false) ∈ (syncRound nranks arrivals m).2 ↔ ¬ OddBit (roundCounters arrivals m) := by
  have hlen : arrivals.length = nranks := by
    have h := hranks.length_eq
    simpa using h
  have hne : arrivals ≠ [] := by
    rintro rfl
    simp at hlen
    omega
  obtain ⟨retry, hodd, hretry, hfst, hcalls⟩ := arriveAll_spec hone arrivals m hne (by omega)
  have hresult : (syncRound nranks arrivals m).2 =
      (arrivals.map Prod.fst).map (fun rank => (rank, retry)) := by
    unfold syncRound
    dsimp only
    rw [← hfst, List.map_map]
    apply List.map_congr_left
    intro call hin
    rcases hcalls call hin with hnone | hsome
    · cases retry <;> simp_all
    · simp [hsome]
  have hmem : rank ∈ arrivals.map Prod.fst := by
    rw [hranks.mem_iff]
    exact List.mem_range.mpr hrank
  rw [hresult, ← hodd]
  constructor
  · intro hin
    obtain ⟨_, _, heq⟩ := List.mem_map.mp hin
    simp [(Prod.mk.inj heq).2]
  · intro hfalse
    refine List.mem_map.mpr ⟨rank, hmem, ?_⟩
    simpa using hfalse

/-- A rank proceeds exactly when all ranks have handled the same number of
messages, for those counters that the exclusive or tells apart and for no
others. -/
theorem proceeds_iff_sameCount_iff_separated (nranks : Nat)
    (arrivals : List (Nat × BitVec 32)) (m : ShareData) (hpos : 0 < nranks)
    (hrecv : m.dataRecv = 0) (hlen : m.dataRecvMsg.length = nranks)
    (hranks : (arrivals.map Prod.fst).Perm (List.range nranks)) :
    (∀ rank < nranks, ((rank, false) ∈ (syncRound nranks arrivals m).2 ↔
      SameCount (roundCounters arrivals m))) ↔ Separated (roundCounters arrivals m) := by
  have hcounters : (roundCounters arrivals m).length = nranks := by
    rw [← hlen]
    unfold roundCounters
    generalize m.dataRecvMsg = counters
    clear hranks
    induction arrivals generalizing counters with
    | nil => rfl
    | cons arrival rest ih =>
        rw [List.foldl_cons, ih]
        simp
  by_cases hone : nranks = 1
  · subst hone
    obtain ⟨c, hc⟩ := List.length_eq_one_iff.mp hcounters
    have hsame : SameCount (roundCounters arrivals m) := by simp [SameCount, hc]
    have hone : arrivals.map Prod.fst = [0] := List.perm_singleton.mp hranks
    obtain ⟨arrival, rfl, harrival⟩ := List.map_eq_singleton_iff.mp hone
    constructor
    · intro _
      exact ⟨fun _ => Or.inl hcounters, fun hnot => absurd hsame hnot⟩
    · intro _ rank hrank
      have hzero : rank = 0 := by omega
      simp [hsame, hzero, syncRound, arriveAll, semWaitMsgSynInterProcess, harrival]
  · have hspec := syncRound_spec hone hpos hrecv hranks
    unfold Separated
    rw [hcounters]
    by_cases hsame : SameCount (roundCounters arrivals m)
    · have hodd := oddBit_of_sameCount hsame
      rw [hcounters] at hodd
      constructor
      · intro hall
        have hnot := (hspec 0 hpos).mp ((hall 0 hpos).mpr hsame)
        rw [hodd, not_not] at hnot
        exact ⟨fun _ => Or.inr hnot, fun hn => absurd hsame hn⟩
      · rintro ⟨hcancel, _⟩ rank hrank
        rw [hspec rank hrank, hodd, not_not]
        exact ⟨fun _ => hsame, fun _ => (hcancel hsame).resolve_left hone⟩
    · constructor
      · intro hall
        refine ⟨fun h => absurd h hsame, fun _ => ?_⟩
        by_contra hodd
        exact hsame ((hall 0 hpos).mp ((hspec 0 hpos).mpr hodd))
      · rintro ⟨_, hleft⟩ rank hrank
        rw [hspec rank hrank]
        exact ⟨fun h => absurd (hleft hsame) h, fun h => absurd h hsame⟩

/-- Three ranks that have handled 1, 2 and 4 messages are told apart. -/
theorem proceeds_iff_sameCount_of_three :
    0 < 3 ∧ ∀ rank < 3, ((rank, false) ∈
        (syncRound 3 [(1, 2), (0, 1), (2, 4)] ⟨0, 0, [0, 0, 0]⟩).2 ↔
      SameCount (roundCounters [(1, 2), (0, 1), (2, 4)] ⟨0, 0, [0, 0, 0]⟩)) := by
  refine ⟨by decide, ?_⟩
  apply (proceeds_iff_sameCount_iff_separated 3 [(1, 2), (0, 1), (2, 4)] ⟨0, 0, [0, 0, 0]⟩
    (by decide) rfl rfl (by decide)).mpr
  refine ⟨fun hsame => ?_, fun _ => ⟨0, by decide, by decide⟩⟩
  exact absurd (hsame 1 (by decide) 2 (by decide)) (by decide)

/-- Three ranks that have handled 1, 2 and 3 messages are let through. -/
theorem proceeds_with_unequal_counts :
    ¬ ∀ (nranks : Nat) (arrivals : List (Nat × BitVec 32)) (m : ShareData), 0 < nranks →
      m.dataRecv = 0 → m.dataRecvMsg.length = nranks →
      (arrivals.map Prod.fst).Perm (List.range nranks) → ∀ rank < nranks,
        ((rank, false) ∈ (syncRound nranks arrivals m).2 ↔
          SameCount (roundCounters arrivals m)) := by
  intro hall
  have hzero := hall 3 [(0, 1), (1, 2), (2, 3)] ⟨0, 0, [0, 0, 0]⟩ (by decide) rfl rfl (by decide)
    0 (by decide)
  have hsame := hzero.mp (by decide)
  have heq := hsame 1 (by decide) 2 (by decide)
  exact absurd heq (by decide)

end DashInfer.Sync
