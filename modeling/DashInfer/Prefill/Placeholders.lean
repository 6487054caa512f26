import Mathlib
import DashInfer.Prefill.RichEmbedding

/-!
The entries that `ParseExtraEmbedding` records are the maximal placeholder runs
of the prompt, in order, and the tensor of an entry is that of its place among
the runs of its token. `UpdateREInfo` leaves of every entry what lies behind
the cached prefix, with the rows it had.
-/

namespace DashInfer.Prefill

variable {R : Type}

/-- A placeholder token fills `len` places from `start` on and stands neither
before nor behind them. -/
structure IsRun (extra : TensorListMap R) (ids : List Int) (start len : Nat) (id : Int) :
    Prop where
  key : (extra.lookup (toString id)).isSome = true
  nonempty : 0 < len
  same : ∀ k < len, ids[start + k]? = some id
  before : ∀ s, start = s + 1 → ids[s]? ≠ some id
  behind : ids[start + len]? ≠ some id

/-- A run of the token starts at the position. -/
def StartsRun (ids : List Int) (id : Int) (s : Nat) : Prop :=
  ids[s]? = some id ∧ (s = 0 ∨ ids[s - 1]? ≠ some id)

instance (ids : List Int) (id : Int) (s : Nat) : Decidable (StartsRun ids id s) :=
  inferInstanceAs (Decidable (_ ∧ _))

def runsBefore (ids : List Int) (id : Int) (start : Nat) : Nat :=
  (List.range start).countP fun s => decide (StartsRun ids id s)

/-- The tensor of a run: that of its number among the runs of its token. -/
def TensorOf (extra : TensorListMap R) (ids : List Int) (start len : Nat) (embedding : List R) :
    Prop :=
  ∃ id tensors, IsRun extra ids start len id ∧ extra.lookup (toString id) = some tensors ∧
    tensors[runsBefore ids id start]? = some embedding

/-- The run of `a` ends where that of `b` starts, or before. -/
def EndsBefore (a b : RichEmbeddingInfo R) : Prop := a.startPos + a.placeHolderCnt ≤ b.startPos

/-- The entries are the runs in order, each with its tensor, and no tensor
serves two runs. -/
structure RecordsRuns (extra : TensorListMap R) (ids : List Int)
    (infos : List (RichEmbeddingInfo R)) : Prop where
  whole : ∀ info ∈ infos, 0 ≤ info.startPos ∧ info.offset = 0
  ordered : infos.Pairwise EndsBefore
  runs : ∀ start len id, IsRun extra ids start len id →
    ∃ info ∈ infos, info.startPos = start ∧ info.placeHolderCnt = len
  paired : ∀ info ∈ infos,
    TensorOf extra ids info.startPos.toNat info.placeHolderCnt info.embedding ∧
      info.embedding.length = info.placeHolderCnt
  oneToOne : ∀ start len start' len' id, IsRun extra ids start len id →
    IsRun extra ids start' len' id → runsBefore ids id start = runsBefore ids id start' →
      start = start'

section Runs

variable {extra : TensorListMap R} {all : List Int}

theorem IsRun.len_le {start len len' : Nat} {id id' : Int} (h : IsRun extra all start len id)
    (h' : IsRun extra all start len' id') : len ≤ len' := by
  by_contra hlt
  have hid := h.same 0 h.nonempty
  rw [h'.same 0 h'.nonempty] at hid
  cases hid
  exact h'.behind (h.same len' (by omega))

theorem IsRun.len_eq {start len len' : Nat} {id id' : Int} (h : IsRun extra all start len id)
    (h' : IsRun extra all start len' id') : len = len' :=
  Nat.le_antisymm (h.len_le h') (h'.len_le h)

/-- No run starts inside another. -/
theorem IsRun.not_inside {start len start' len' : Nat} {id id' : Int}
    (h : IsRun extra all start len id) (h' : IsRun extra all start' len' id') (hlo : start < start')
    (hhi : start' < start + len) : False := by
  obtain ⟨k, rfl⟩ := Nat.exists_eq_add_of_lt hlo
  have hid := h.same (k + 1) (by omega)
  have hid' := h'.same 0 h'.nonempty
  rw [Nat.add_zero, Nat.add_assoc, hid] at hid'
  cases hid'
  exact h'.before (start + k) rfl (h.same k (by omega))

theorem getElem?_of_drop {pos : Nat} {ids : List Int} (h : all.drop pos = ids) (k : Nat) :
    all[pos + k]? = ids[k]? := by
  rw [← h, List.getElem?_drop]

/-- The run that the loop finds at its position. -/
theorem isRun_head {pos : Nat} {id : Int} {rest : List Int} (hids : all.drop pos = id :: rest)
    (hkey : (extra.lookup (toString id)).isSome = true)
    (hbefore : ∀ s, pos = s + 1 → all[s]? ≠ some id) :
    IsRun extra all pos (runLength id rest) id := by
  refine ⟨hkey, Nat.succ_pos _, ?_, hbefore, ?_⟩
  · intro k hk
    rw [getElem?_of_drop hids]
    exact getElem?_in_run hk
  · rw [getElem?_of_drop hids, ← Nat.add_zero (runLength id rest), getElem?_behind_run]
    intro hmem
    cases hrest : rest.dropWhile (· == id) with
    | nil =>
        rw [hrest] at hmem
        cases hmem
    | cons other tail =>
        rw [hrest] at hmem
        obtain rfl := Option.some.inj hmem
        have hnot := List.head_dropWhile_not (· == other) (l := rest) (by rw [hrest]; exact List.cons_ne_nil _ _)
        simp only [hrest, List.head_cons, beq_self_eq_true] at hnot
        cases hnot

theorem isRun_at {pos : Nat} {id : Int} {rest : List Int} {tensors : List (List R)}
    (hids : all.drop pos = id :: rest) (hkey : extra.lookup (toString id) = some tensors)
    (hcut : ∀ s other, pos = s + 1 → all[s]? = some other → (id :: rest).head? = some other →
      extra.lookup (toString other) = none) :
    IsRun extra all pos (runLength id rest) id := by
  apply isRun_head hids (by rw [hkey]; rfl)
  intro s hs hid
  have hnone := hcut s id hs hid rfl
  rw [hkey] at hnone
  cases hnone

theorem drop_behind_run {pos : Nat} {id : Int} {rest : List Int} (hids : all.drop pos = id :: rest) :
    all.drop (pos + runLength id rest) = rest.dropWhile (· == id) := by
  rw [← List.drop_drop, hids, run_append id rest, List.drop_append_of_le_length (by simp)]
  simp

/-- The end of a run does not cut another. -/
theorem not_cut_behind {pos s : Nat} {id other : Int} {rest : List Int}
    (hids : all.drop pos = id :: rest) (hrun : IsRun extra all pos (runLength id rest) id)
    (hs : pos + runLength id rest = s + 1) (hother : all[s]? = some other)
    (hhead : (rest.dropWhile (· == id)).head? = some other) : False := by
  have hpos := hrun.nonempty
  have hlast := hrun.same (runLength id rest - 1) (by omega)
  have hs' : s = pos + (runLength id rest - 1) := by omega
  rw [hs', hlast] at hother
  obtain rfl := Option.some.inj hother
  apply hrun.behind
  rw [← hhead, List.head?_eq_getElem?, ← Nat.add_zero (pos + runLength id rest),
    getElem?_of_drop (drop_behind_run hids)]

/-- From a position on that does not cut a run, the entries are the runs. -/
theorem parseFrom_runs (counter : Int → Nat) (pos : Nat) (ids : List Int)
    {infos : List (RichEmbeddingInfo R)} (hids : all.drop pos = ids)
    (hcut : ∀ s id, pos = s + 1 → all[s]? = some id → ids.head? = some id →
      extra.lookup (toString id) = none)
    (h : parseFrom extra counter pos ids = .ok infos) (start len : Nat) (hstart : pos ≤ start) :
    (∃ id, IsRun extra all start len id) ↔
      ∃ info ∈ infos, info.startPos = start ∧ info.placeHolderCnt = len := by
  induction counter, pos, ids using parseFrom.induct extra generalizing infos with
  | case1 counter pos =>
      rw [parseFrom] at h
      cases h
      constructor
      · rintro ⟨id, hrun⟩
        have hid := hrun.same 0 hrun.nonempty
        rw [List.getElem?_eq_none] at hid
        · cases hid
        · have hlen := List.drop_eq_nil_iff.mp hids
          omega
      · rintro ⟨info, hinfo, -⟩
        cases hinfo
  | case2 counter pos id rest hkey ih =>
      rw [parseFrom] at h
      simp only [hkey] at h
      have hrest : all.drop (pos + 1) = rest := by
        rw [← List.drop_drop, hids, List.drop_one, List.tail_cons]
      have hhead : all[pos]? = some id := getElem?_of_drop hids 0
      rcases Nat.lt_or_eq_of_le hstart with hlt | rfl
      · apply ih hrest _ h hlt
        intro s other hs hother _
        obtain rfl := Nat.succ.inj hs
        rw [hhead] at hother
        obtain rfl := Option.some.inj hother
        exact hkey
      · constructor
        · rintro ⟨other, hrun⟩
          have hid := hrun.same 0 hrun.nonempty
          have hsome := hrun.key
          rw [Nat.add_zero, hhead] at hid
          obtain rfl := Option.some.inj hid
          rw [hkey] at hsome
          cases hsome
        · rintro ⟨info, hinfo, hpos, -⟩
          have hle := ((parseFrom_spec _ _ _ h).1 info hinfo).start
          push_cast at hle
          omega
  | case3 counter pos id rest tensors hkey hget =>
      obtain ⟨embedding, later, hsome, -⟩ := parseFrom_run hkey h
      rw [hget] at hsome
      cases hsome
  | case4 counter pos id rest tensors hkey embedding hget hlen =>
      obtain ⟨other, later, hsome, hother, -⟩ := parseFrom_run hkey h
      rw [hget] at hsome
      cases hsome
      exact absurd hother.symm hlen
  | case5 counter pos id rest tensors hkey embedding hget hlen ih =>
      obtain ⟨other, later, hsome, hother, hlater, rfl⟩ := parseFrom_run hkey h
      have hrun : IsRun extra all pos (runLength id rest) id := isRun_at hids hkey hcut
      have hbehind : ∀ info ∈ later, ((pos + runLength id rest : Nat) : Int) ≤ info.startPos :=
        fun info hinfo => ((parseFrom_spec _ _ _ hlater).1 info hinfo).start
      have hpos : 0 < runLength id rest := hrun.nonempty
      rcases Nat.lt_or_ge start (pos + runLength id rest) with hlt | hge
      · constructor
        · rintro ⟨other, hrun'⟩
          rcases Nat.lt_or_eq_of_le hstart with hinside | rfl
          · exact (hrun.not_inside hrun' hinside hlt).elim
          · exact ⟨_, List.mem_cons_self, rfl, hrun.len_eq hrun'⟩
        · rintro ⟨info, hinfo, hat, rfl⟩
          rcases List.mem_cons.mp hinfo with rfl | hin
          · have hsame : pos = start := Int.ofNat.inj hat
            rw [← hsame]
            exact ⟨id, hrun⟩
          · have hle := hbehind info hin
            omega
      · have hnext : (∃ id, IsRun extra all start len id) ↔
            ∃ info ∈ later, info.startPos = start ∧ info.placeHolderCnt = len := by
          apply ih (drop_behind_run hids) _ hlater hge
          exact fun s other hs hother hhead => (not_cut_behind hids hrun hs hother hhead).elim
        rw [hnext]
        constructor
        · rintro ⟨info, hin, hat⟩
          exact ⟨info, List.mem_cons_of_mem _ hin, hat⟩
        · rintro ⟨info, hinfo, hat, hcnt⟩
          rcases List.mem_cons.mp hinfo with rfl | hin
          · dsimp only at hat
            omega
          · exact ⟨info, hin, hat, hcnt⟩

theorem parseFrom_ordered (counter : Int → Nat) (pos : Nat) (ids : List Int)
    {infos : List (RichEmbeddingInfo R)} (h : parseFrom extra counter pos ids = .ok infos) :
    infos.Pairwise EndsBefore := by
  induction counter, pos, ids using parseFrom.induct extra generalizing infos with
  | case1 counter pos =>
      rw [parseFrom] at h
      cases h
      exact List.Pairwise.nil
  | case2 counter pos id rest hkey ih =>
      rw [parseFrom] at h
      simp only [hkey] at h
      exact ih h
  | case3 counter pos id rest tensors hkey hget =>
      obtain ⟨embedding, later, hsome, -⟩ := parseFrom_run hkey h
      rw [hget] at hsome
      cases hsome
  | case4 counter pos id rest tensors hkey embedding hget hlen =>
      obtain ⟨other, later, hsome, hother, -⟩ := parseFrom_run hkey h
      rw [hget] at hsome
      cases hsome
      exact absurd hother.symm hlen
  | case5 counter pos id rest tensors hkey embedding hget hlen ih =>
      obtain ⟨first, later, hfirst, -, hlater, rfl⟩ := parseFrom_run hkey h
      rw [hget] at hfirst
      obtain rfl := Option.some.inj hfirst
      apply List.pairwise_cons.mpr
      refine ⟨?_, ih hlater⟩
      intro info hinfo
      have hle := ((parseFrom_spec _ _ _ hlater).1 info hinfo).start
      unfold EndsBefore
      push_cast at hle
      exact hle

end Runs

section Pairing

variable {extra : TensorListMap R} {ids : List Int} {infos : List (RichEmbeddingInfo R)}

theorem IsRun.startsRun {start len : Nat} {id : Int} (h : IsRun extra ids start len id) :
    StartsRun ids id start := by
  refine ⟨h.same 0 h.nonempty, ?_⟩
  cases start with
  | zero => exact Or.inl rfl
  | succ s => exact Or.inr (h.before s rfl)

theorem runsBefore_succ (id : Int) (s : Nat) :
    runsBefore ids id (s + 1) = runsBefore ids id s + if StartsRun ids id s then 1 else 0 := by
  unfold runsBefore
  rw [List.range_succ, List.countP_append, List.countP_singleton]
  simp

theorem runsBefore_mono (id : Int) {s s' : Nat} (h : s ≤ s') :
    runsBefore ids id s ≤ runsBefore ids id s' := by
  induction s' with
  | zero => rw [Nat.le_zero.mp h]
  | succ s' ih =>
      rw [runsBefore_succ]
      rcases Nat.le_succ_iff.mp h with hle | rfl
      · exact (ih hle).trans (Nat.le_add_right _ _)
      · rw [runsBefore_succ]

/-- The runs of a token are numbered apart. -/
theorem runsBefore_lt {start start' : Nat} {id : Int} (h : StartsRun ids id start)
    (hlt : start < start') : runsBefore ids id start < runsBefore ids id start' := by
  have hnext : runsBefore ids id (start + 1) = _ := runsBefore_succ id start
  rw [if_pos h] at hnext
  have hle : runsBefore ids id (start + 1) ≤ runsBefore ids id start' := runsBefore_mono id hlt
  omega

/-- Places that no run of the token starts at do not change the number. -/
theorem runsBefore_skip {id : Int} {s len : Nat} (h : ∀ k < len, ¬ StartsRun ids id (s + k)) :
    runsBefore ids id (s + len) = runsBefore ids id s := by
  induction len with
  | zero => rfl
  | succ len ih =>
      rw [← Nat.add_assoc, runsBefore_succ, if_neg (h len (Nat.lt_succ_self len)), Nat.add_zero]
      exact ih fun k hk => h k (Nat.lt_succ_of_lt hk)

/-- Behind a run its token has one more, and no other token has. -/
theorem runsBefore_run {start len : Nat} {id : Int} (h : IsRun extra ids start len id)
    (other : Int) :
    runsBefore ids other (start + len) =
      Function.update (fun id => runsBefore ids id start) id (runsBefore ids id start + 1) other := by
  by_cases hsame : other = id
  · rw [hsame, Function.update_self]
    obtain ⟨k, rfl⟩ := Nat.exists_eq_add_of_lt h.nonempty
    have hskip : runsBefore ids id (start + 1 + k) = runsBefore ids id (start + 1) := by
      apply runsBefore_skip
      rintro j hj ⟨-, hzero | hnot⟩
      · omega
      · apply hnot
        rw [Nat.add_right_comm, Nat.add_sub_cancel]
        exact h.same j (by omega)
    rw [Nat.zero_add, Nat.add_comm k, ← Nat.add_assoc, hskip, runsBefore_succ, if_pos h.startsRun]
  · rw [Function.update_of_ne hsame]
    apply runsBefore_skip
    rintro k hk ⟨hid, -⟩
    rw [h.same k hk] at hid
    exact hsame (Option.some.inj hid).symm

/-- The counter of a placeholder token is the number of its runs so far, so it
numbers the tensors. -/
theorem parseFrom_paired (counter : Int → Nat) (pos : Nat) (rest : List Int)
    (hids : ids.drop pos = rest)
    (hcut : ∀ s id, pos = s + 1 → ids[s]? = some id → rest.head? = some id →
      extra.lookup (toString id) = none)
    (hcounter : ∀ id, (extra.lookup (toString id)).isSome = true →
      counter id = runsBefore ids id pos)
    (h : parseFrom extra counter pos rest = .ok infos) (info : RichEmbeddingInfo R)
    (hinfo : info ∈ infos) :
    TensorOf extra ids info.startPos.toNat info.placeHolderCnt info.embedding := by
  induction counter, pos, rest using parseFrom.induct extra generalizing infos with
  | case1 counter pos =>
      rw [parseFrom] at h
      cases h
      cases hinfo
  | case2 counter pos id rest hkey ih =>
      rw [parseFrom] at h
      simp only [hkey] at h
      have hrest : ids.drop (pos + 1) = rest := by
        rw [← List.drop_drop, hids, List.drop_one, List.tail_cons]
      have hhead : ids[pos]? = some id := getElem?_of_drop hids 0
      apply ih hrest _ _ h hinfo
      · intro s other hs hother _
        obtain rfl := Nat.succ.inj hs
        rw [hhead] at hother
        obtain rfl := Option.some.inj hother
        exact hkey
      · intro other hsome
        rw [hcounter other hsome, runsBefore_succ, if_neg, Nat.add_zero]
        rintro ⟨hother, -⟩
        rw [hhead] at hother
        obtain rfl := Option.some.inj hother
        rw [hkey] at hsome
        cases hsome
  | case3 counter pos id rest tensors hkey hget =>
      obtain ⟨embedding, later, hsome, -⟩ := parseFrom_run hkey h
      rw [hget] at hsome
      cases hsome
  | case4 counter pos id rest tensors hkey embedding hget hlen =>
      obtain ⟨other, later, hsome, hother, -⟩ := parseFrom_run hkey h
      rw [hget] at hsome
      cases hsome
      exact absurd hother.symm hlen
  | case5 counter pos id rest tensors hkey embedding hget hlen ih =>
      obtain ⟨taken, later, htaken, -, hlater, rfl⟩ := parseFrom_run hkey h
      have hsome : (extra.lookup (toString id)).isSome = true := by rw [hkey]; rfl
      have hrun : IsRun extra ids pos (runLength id rest) id := isRun_at hids hkey hcut
      rcases List.mem_cons.mp hinfo with rfl | hin
      · refine ⟨id, tensors, hrun, hkey, ?_⟩
        rw [Int.toNat_natCast, ← hcounter id hsome]
        exact htaken
      · apply ih (drop_behind_run hids) _ _ hlater hin
        · exact fun s other hs hother hhead => (not_cut_behind hids hrun hs hother hhead).elim
        · intro other hother
          rw [runsBefore_run hrun]
          by_cases hsame : other = id
          · rw [hsame, Function.update_self, Function.update_self, hcounter id hsome]
          · rw [Function.update_of_ne hsame, Function.update_of_ne hsame, hcounter other hother]

/-- What `ParseExtraEmbedding` records of every prompt it accepts. -/
theorem recordsRuns_of_parse (h : parseExtraEmbedding extra ids = .ok infos) :
    RecordsRuns extra ids infos := by
  have hplaced := (parseExtraEmbedding_spec h).1
  have hnumbers : ∀ start len start' len' id, IsRun extra ids start len id →
      IsRun extra ids start' len' id → runsBefore ids id start = runsBefore ids id start' →
        start = start' := by
    intro start len start' len' id hrun hrun' heq
    rcases Nat.lt_trichotomy start start' with hlt | rfl | hgt
    · have hless : runsBefore ids id start < _ := runsBefore_lt hrun.startsRun hlt
      omega
    · rfl
    · have hless : runsBefore ids id start' < _ := runsBefore_lt hrun'.startsRun hgt
      omega
  unfold parseExtraEmbedding at h
  split at h
  next hempty =>
    cases h
    refine ⟨fun info hinfo => absurd hinfo List.not_mem_nil, List.Pairwise.nil, ?_,
      fun info hinfo => absurd hinfo List.not_mem_nil, hnumbers⟩
    intro start len id hrun
    have hkey := hrun.key
    rw [List.isEmpty_iff.mp hempty] at hkey
    cases hkey
  next =>
    have hcut : ∀ s id, 0 = s + 1 → ids[s]? = some id → ids.head? = some id →
        extra.lookup (toString id) = none := by
      intro s id hs
      cases hs
    refine ⟨?_, parseFrom_ordered _ _ _ h, ?_, ?_, hnumbers⟩
    · intro info hinfo
      exact ⟨(hplaced info hinfo).start, (hplaced info hinfo).offset⟩
    · intro start len id hrun
      exact (parseFrom_runs _ _ _ List.drop_zero hcut h start len (Nat.zero_le start)).mp ⟨id, hrun⟩
    · intro info hinfo
      exact ⟨parseFrom_paired _ _ _ List.drop_zero hcut (fun _ _ => rfl) h info hinfo,
        (hplaced info hinfo).rows⟩

end Pairing

section Update

variable {extra : TensorListMap R} {ids : List Int} {info : RichEmbeddingInfo R}
  {infos : List (RichEmbeddingInfo R)}

/-- What is left of an entry covers the position. -/
def CoversRest (info : RichEmbeddingInfo R) (i : Nat) : Prop :=
  0 ≤ info.startPos ∧ info.startPos ≤ i ∧
    (i : Int) < info.startPos + (info.placeHolderCnt - info.offset : Nat)

/-- The row of its tensor that an entry has for a position. -/
def rowAt (info : RichEmbeddingInfo R) (i : Nat) : Option R :=
  info.embedding[info.offset + (i - info.startPos.toNat)]?

/-- What is left of the entries covers the placeholders behind the prefix, moved
by the prefix, each with the row it had. -/
structure LeavesRest (extra : TensorListMap R) (ids : List Int)
    (infos : List (RichEmbeddingInfo R)) (prefixLen : Nat) : Prop where
  covers : ∀ i, (∃ info ∈ infos.map (updateREInfo prefixLen), CoversRest info i) ↔
    IsPlaceholder extra ids (prefixLen + i)
  rest : ∀ info ∈ infos, ∀ i,
    CoversRest (updateREInfo prefixLen info) i ↔ Covers info (prefixLen + i)
  rows : ∀ info ∈ infos, ∀ i, Covers info (prefixLen + i) →
    rowAt (updateREInfo prefixLen info) i = rowAt info (prefixLen + i)

/-- What is left of a run that ends behind the prefix. -/
theorem updateREInfo_left {prefixLen : Nat} (hstart : 0 ≤ info.startPos) (hoffset : info.offset = 0)
    (h : prefixLen < info.startPos + info.placeHolderCnt) :
    updateREInfo prefixLen info =
      { info with
        startPos := (info.startPos.toNat - prefixLen : Nat)
        offset := prefixLen - info.startPos.toNat } := by
  obtain ⟨start, hnat⟩ := Int.eq_ofNat_of_zero_le hstart
  obtain ⟨startPos, cnt, offset, embedding⟩ := info
  dsimp only at hnat hoffset h ⊢
  subst hnat hoffset
  unfold updateREInfo
  dsimp only
  split
  next hzero =>
    subst hzero
    rw [Int.toNat_natCast, Nat.sub_zero, Nat.zero_sub]
  next hpos =>
    split
    next hbefore =>
      have heq : (start : Int) - prefixLen = (start - prefixLen : Nat) := by omega
      rw [heq, Int.toNat_natCast, Nat.sub_eq_zero_of_le (by omega : prefixLen ≤ start)]
    next hnot =>
      rw [if_pos (by omega)]
      have heq : ((prefixLen : Int) - start).toNat = prefixLen - start := by omega
      rw [heq, Int.toNat_natCast, Nat.sub_eq_zero_of_le (by omega : start ≤ prefixLen)]
      rfl

/-- A run that the prefix holds is left out. -/
theorem updateREInfo_cached {prefixLen : Nat} (hcnt : 0 < info.placeHolderCnt)
    (hstart : 0 ≤ info.startPos) (h : info.startPos + info.placeHolderCnt ≤ prefixLen) :
    updateREInfo prefixLen info = { info with startPos := -1, offset := info.placeHolderCnt } := by
  unfold updateREInfo
  rw [if_neg (by omega)]
  dsimp only
  rw [if_neg (by omega), if_neg (by omega)]

theorem coversRest_updateREInfo (hcnt : 0 < info.placeHolderCnt) (hstart : 0 ≤ info.startPos)
    (hoffset : info.offset = 0) (prefixLen i : Nat) :
    CoversRest (updateREInfo prefixLen info) i ↔ Covers info (prefixLen + i) := by
  unfold CoversRest Covers
  rcases lt_or_ge (prefixLen : Int) (info.startPos + info.placeHolderCnt) with hlt | hge
  · rw [updateREInfo_left hstart hoffset hlt]
    dsimp only
    omega
  · rw [updateREInfo_cached hcnt hstart hge]
    dsimp only
    omega

theorem rowAt_updateREInfo (hstart : 0 ≤ info.startPos) (hoffset : info.offset = 0)
    {prefixLen i : Nat} (h : Covers info (prefixLen + i)) :
    rowAt (updateREInfo prefixLen info) i = rowAt info (prefixLen + i) := by
  obtain ⟨hlo, hhi⟩ := h
  unfold rowAt
  rw [updateREInfo_left hstart hoffset (by omega)]
  dsimp only
  congr 1
  omega

theorem placeHolderCnt_pos (h : parseExtraEmbedding extra ids = .ok infos) (hinfo : info ∈ infos) :
    0 < info.placeHolderCnt := by
  obtain ⟨⟨id, tensors, hrun, -⟩, -⟩ := (recordsRuns_of_parse h).paired info hinfo
  exact hrun.nonempty

/-- `UpdateREInfo` of what `ParseExtraEmbedding` records. -/
theorem leavesRest_of_parse (h : parseExtraEmbedding extra ids = .ok infos) (prefixLen : Nat) :
    LeavesRest extra ids infos prefixLen := by
  obtain ⟨hplaced, hcovers⟩ := parseExtraEmbedding_spec h
  have hrest : ∀ info ∈ infos, ∀ i,
      CoversRest (updateREInfo prefixLen info) i ↔ Covers info (prefixLen + i) :=
    fun info hinfo i =>
      coversRest_updateREInfo (placeHolderCnt_pos h hinfo) (hplaced info hinfo).start
        (hplaced info hinfo).offset prefixLen i
  refine ⟨?_, hrest, ?_⟩
  · intro i
    rw [← hcovers]
    constructor
    · rintro ⟨_, hmem, hcover⟩
      obtain ⟨info, hinfo, rfl⟩ := List.mem_map.mp hmem
      exact ⟨info, hinfo, (hrest info hinfo i).mp hcover⟩
    · rintro ⟨info, hinfo, hcover⟩
      exact ⟨_, List.mem_map_of_mem hinfo, (hrest info hinfo i).mpr hcover⟩
  · intro info hinfo i hcover
    exact rowAt_updateREInfo (hplaced info hinfo).start (hplaced info hinfo).offset hcover

end Update

end DashInfer.Prefill
