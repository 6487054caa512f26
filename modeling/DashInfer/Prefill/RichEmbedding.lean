import Mathlib.Data.List.TakeWhile
import Mathlib.Tactic

/-!
The rows a context step feeds to the model. The `RichEmbedding` operator parses
the placeholder runs of the prompt, moves them by the cached prefix and copies
the rows of the matching tensors over those of the placeholder tokens. Behind a
cached prefix it leaves the rows it would leave there without one.
-/

namespace DashInfer.Prefill

variable {R : Type}

/-- `TensorListMap`: the tensors of each key. A placeholder's key is its token
in decimal, and a tensor is the list of its rows. -/
abbrev TensorListMap (R : Type) := List (String × List (List R))

/-- What the model is fed at a position: the embedding of a token, or a row of
one of the request's own tensors. -/
inductive Row (R : Type) where
  | token (id : Int)
  | extra (row : R)
deriving DecidableEq

structure RichEmbeddingInfo (R : Type) where
  startPos : Int
  placeHolderCnt : Nat
  offset : Nat
  embedding : List R

/-- What `ALLSPARK_PARAM_ERROR` is returned for, as the log has it. -/
inductive ParamError where
  | replaceNum
  | replaceLength
  | hashInputMissing
  | hashInputNum
deriving DecidableEq

/-- The length of the run of a token that was just read. -/
def runLength (id : Int) (rest : List Int) : Nat := (rest.takeWhile (· == id)).length + 1

/-- The loop of `ParseExtraEmbedding` from a position on. The `counter` of a
placeholder token counts its runs so far, which take its tensors in order. -/
def parseFrom (extra : TensorListMap R) (counter : Int → Nat) (pos : Nat) :
    List Int → Except ParamError (List (RichEmbeddingInfo R))
  | [] => .ok []
  | id :: rest =>
      match extra.lookup (toString id) with
      | none => parseFrom extra counter (pos + 1) rest
      | some tensors =>
          match tensors[counter id]? with
          | none => .error .replaceNum
          | some embedding =>
              if runLength id rest ≠ embedding.length then .error .replaceLength
              else do
                let infos ← parseFrom extra (Function.update counter id (counter id + 1))
                  (pos + runLength id rest) (rest.dropWhile (· == id))
                .ok ({ startPos := pos, placeHolderCnt := runLength id rest, offset := 0,
                       embedding } :: infos)
termination_by ids => ids.length
decreasing_by
  · simp
  · simpa using Nat.lt_succ_of_le (List.dropWhile_suffix (· == id)).length_le

def parseExtraEmbedding (extra : TensorListMap R) (inputIds : List Int) :
    Except ParamError (List (RichEmbeddingInfo R)) :=
  if extra.isEmpty then .ok [] else parseFrom extra (fun _ => 0) 0 inputIds

def updateREInfo (prefixLen : Nat) (info : RichEmbeddingInfo R) : RichEmbeddingInfo R :=
  if prefixLen = 0 then info
  else
    let cachedIdx : Int := prefixLen - 1
    let endPos := info.startPos + info.placeHolderCnt - 1
    if cachedIdx < info.startPos then
      { info with startPos := info.startPos - prefixLen, offset := 0 }
    else if info.startPos ≤ cachedIdx ∧ cachedIdx < endPos then
      { info with startPos := 0, offset := (prefixLen - info.startPos).toNat }
    else { info with startPos := -1, offset := info.placeHolderCnt }

/-- `ReplaceEmbedding`: the rows of the tensor from the offset on, copied over
those from the start on. -/
def replaceEmbedding (rows : List (Row R)) (info : RichEmbeddingInfo R) : List (Row R) :=
  if info.startPos < 0 then rows
  else
    let count := info.placeHolderCnt - info.offset
    rows.take info.startPos.toNat ++
      ((info.embedding.drop info.offset).take count).map Row.extra ++
      rows.drop (info.startPos.toNat + count)

/-- `RichEmbeddingOp::Forward` in a context step, over the rows that the
embedding operator left. -/
def richEmbedding (extra : TensorListMap R) (inputIds : List Int) (prefixLen : Nat)
    (rows : List (Row R)) : Except ParamError (List (Row R)) :=
  if extra.isEmpty then .ok rows
  else do
    let infos ← parseExtraEmbedding extra inputIds
    .ok ((infos.map (updateREInfo prefixLen)).foldl replaceEmbedding rows)

/-- The rows of a context step whose first `prefixLen` tokens are cached. -/
def feed (extra : TensorListMap R) (inputIds : List Int) (prefixLen : Nat) :
    Except ParamError (List (Row R)) :=
  richEmbedding extra inputIds prefixLen ((inputIds.drop prefixLen).map Row.token)

/-- The prompt has a placeholder at the position. -/
def IsPlaceholder (extra : TensorListMap R) (inputIds : List Int) (i : Nat) : Prop :=
  ∃ id, inputIds[i]? = some id ∧ (extra.lookup (toString id)).isSome = true

section Runs

variable {id : Int} {rest : List Int}

/-- A token and what follows are its run and the rest behind the run. -/
theorem run_append (id : Int) (rest : List Int) :
    id :: rest = List.replicate (runLength id rest) id ++ rest.dropWhile (· == id) := by
  have hrun : rest.takeWhile (· == id) =
      List.replicate (rest.takeWhile (· == id)).length id := by
    apply List.eq_replicate_of_mem
    intro other hother
    have heq := List.mem_takeWhile_imp (p := (· == id)) hother
    exact beq_iff_eq.mp heq
  unfold runLength
  rw [List.replicate_succ, List.cons_append, ← hrun, List.takeWhile_append_dropWhile]

theorem getElem?_in_run {i : Nat} (h : i < runLength id rest) :
    (id :: rest)[i]? = some id := by
  rw [run_append, List.getElem?_append_left (by simpa using h), List.getElem?_replicate_of_lt h]

theorem getElem?_behind_run (i : Nat) :
    (id :: rest)[runLength id rest + i]? = (rest.dropWhile (· == id))[i]? := by
  rw [run_append, List.getElem?_append_right (by simp), List.length_replicate,
    Nat.add_sub_cancel_left]

theorem length_run (id : Int) (rest : List Int) :
    (id :: rest).length = runLength id rest + (rest.dropWhile (· == id)).length := by
  have hlen := congrArg List.length (run_append id rest)
  rw [List.length_append, List.length_replicate] at hlen
  exact hlen

/-- A run that more tokens leave as long leaves them behind it. -/
private theorem dropWhile_append_of_runLength {more : List Int}
    (h : runLength id (rest ++ more) = runLength id rest) :
    (rest ++ more).dropWhile (· == id) = rest.dropWhile (· == id) ++ more := by
  have hwhole := run_append id (rest ++ more)
  rw [h, ← List.cons_append, run_append id rest, List.append_assoc] at hwhole
  exact (List.append_cancel_left hwhole).symm

private theorem runLength_append (rest : List Int) {more : List Int} (h : id ∉ more) :
    runLength id (rest ++ more) = runLength id rest := by
  have hmore : more.takeWhile (· == id) = [] := by
    apply List.eq_nil_of_subset_nil
    intro other hother
    have heq := List.mem_takeWhile_imp (p := (· == id)) hother
    rw [beq_iff_eq.mp heq] at hother
    exact absurd ((List.takeWhile_subset _) hother) h
  unfold runLength
  rw [List.takeWhile_append]
  split
  next hall =>
    rw [hmore, List.append_nil, hall]
  next => rfl

end Runs

section Parse

variable {extra : TensorListMap R}

/-- What the loop does with a run of a placeholder. -/
theorem parseFrom_run {counter : Int → Nat} {pos : Nat} {id : Int} {rest : List Int}
    {tensors : List (List R)} {infos : List (RichEmbeddingInfo R)}
    (hkey : extra.lookup (toString id) = some tensors)
    (h : parseFrom extra counter pos (id :: rest) = .ok infos) :
    ∃ embedding later, tensors[counter id]? = some embedding ∧
      embedding.length = runLength id rest ∧
      parseFrom extra (Function.update counter id (counter id + 1)) (pos + runLength id rest)
        (rest.dropWhile (· == id)) = .ok later ∧
      infos = { startPos := pos, placeHolderCnt := runLength id rest, offset := 0,
                embedding } :: later := by
  rw [parseFrom] at h
  simp only [hkey] at h
  cases hget : tensors[counter id]? with
  | none =>
      simp only [hget] at h
      cases h
  | some embedding =>
      simp only [hget] at h
      by_cases hlen : runLength id rest = embedding.length
      · rw [if_neg (not_not_intro hlen)] at h
        cases hlater : parseFrom extra (Function.update counter id (counter id + 1))
            (pos + runLength id rest) (rest.dropWhile (· == id)) with
        | error e =>
            rw [hlater] at h
            cases h
        | ok later =>
            rw [hlater] at h
            cases h
            exact ⟨embedding, later, rfl, hlen.symm, rfl, rfl⟩
      · rw [if_pos hlen] at h
        cases h

/-- A run lies inside the parsed tokens and is as long as its tensor. -/
structure Placed (pos len : Nat) (info : RichEmbeddingInfo R) : Prop where
  start : (pos : Int) ≤ info.startPos
  stop : info.startPos + info.placeHolderCnt ≤ pos + len
  rows : info.embedding.length = info.placeHolderCnt
  offset : info.offset = 0

def Covers (info : RichEmbeddingInfo R) (i : Nat) : Prop :=
  info.startPos ≤ i ∧ (i : Int) < info.startPos + info.placeHolderCnt

theorem isPlaceholder_nil (extra : TensorListMap R) (i : Nat) : ¬ IsPlaceholder extra [] i := by
  simp [IsPlaceholder]

/-- The parsed runs lie inside the prompt and cover its placeholders. -/
theorem parseFrom_spec (counter : Int → Nat) (pos : Nat) (ids : List Int)
    {infos : List (RichEmbeddingInfo R)} (h : parseFrom extra counter pos ids = .ok infos) :
    (∀ info ∈ infos, Placed pos ids.length info) ∧
      ∀ i, (∃ info ∈ infos, Covers info (pos + i)) ↔ IsPlaceholder extra ids i := by
  induction counter, pos, ids using parseFrom.induct extra generalizing infos with
  | case1 counter pos =>
      rw [parseFrom] at h
      cases h
      simp [isPlaceholder_nil]
  | case2 counter pos id rest hkey ih =>
      rw [parseFrom] at h
      simp only [hkey] at h
      obtain ⟨hplaced, hcovers⟩ := ih h
      constructor
      · intro info hinfo
        have hin := hplaced info hinfo
        have hstart := hin.start
        have hstop := hin.stop
        refine ⟨?_, ?_, hin.rows, hin.offset⟩
        · push_cast at hstart
          omega
        · push_cast [List.length_cons] at hstop ⊢
          omega
      · intro i
        cases i with
        | zero =>
            constructor
            · rintro ⟨info, hinfo, hcover⟩
              have hstart := (hplaced info hinfo).start
              have hle := hcover.1
              push_cast at hstart hle
              omega
            · rintro ⟨id', hget, hsome⟩
              cases hget
              rw [hkey] at hsome
              cases hsome
        | succ i =>
            have hshift : IsPlaceholder extra (id :: rest) (i + 1) ↔ IsPlaceholder extra rest i := by
              simp [IsPlaceholder]
            rw [hshift, ← hcovers i, Nat.add_right_comm, Nat.add_assoc]
  | case3 counter pos id rest tensors hkey hget =>
      obtain ⟨embedding, later, hsome, -⟩ := parseFrom_run hkey h
      rw [hget] at hsome
      cases hsome
  | case4 counter pos id rest tensors hkey embedding hget hlen =>
      obtain ⟨other, later, hsome, hother, -⟩ := parseFrom_run hkey h
      rw [hget] at hsome
      cases hsome
      exact absurd hother.symm hlen
  | case5 counter pos id rest tensors hkey embedding hget hlen ih =>
      obtain ⟨other, later, hsome, hother, hlater, rfl⟩ := parseFrom_run hkey h
      obtain ⟨hplaced, hcovers⟩ := ih hlater
      have hsum := length_run id rest
      constructor
      · intro info hinfo
        rcases List.mem_cons.mp hinfo with rfl | hin
        · refine ⟨Int.le_refl _, ?_, hother, rfl⟩
          dsimp only
          omega
        · have hrest := hplaced info hin
          have hstart := hrest.start
          have hstop := hrest.stop
          refine ⟨?_, ?_, hrest.rows, hrest.offset⟩
          · push_cast at hstart
            omega
          · rw [hsum]
            push_cast at hstop ⊢
            omega
      · intro i
        rcases Nat.lt_or_ge i (runLength id rest) with hlt | hge
        · constructor
          · intro _
            exact ⟨id, getElem?_in_run hlt, by rw [hkey]; rfl⟩
          · intro _
            refine ⟨_, List.mem_cons_self .., ?_, ?_⟩
            · dsimp only
              omega
            · dsimp only
              omega
        · obtain ⟨k, rfl⟩ := Nat.exists_eq_add_of_le hge
          have hshift : IsPlaceholder extra (id :: rest) (runLength id rest + k) ↔
              IsPlaceholder extra (rest.dropWhile (· == id)) k := by
            unfold IsPlaceholder
            rw [getElem?_behind_run]
          rw [hshift, ← hcovers k, ← Nat.add_assoc]
          constructor
          · rintro ⟨info, hinfo, hcover⟩
            rcases List.mem_cons.mp hinfo with rfl | hin
            · have hlt := hcover.2
              dsimp only at hlt
              omega
            · exact ⟨info, hin, hcover⟩
          · rintro ⟨info, hin, hcover⟩
            exact ⟨info, List.mem_cons_of_mem _ hin, hcover⟩

private theorem not_mem_of_key {more : List Int} {id : Int} {tensors : List (List R)}
    (hnone : ∀ id ∈ more, extra.lookup (toString id) = none)
    (hkey : extra.lookup (toString id) = some tensors) : id ∉ more := by
  intro hmem
  rw [hnone id hmem] at hkey
  cases hkey

/-- The tokens behind the last placeholder do not change what is parsed. -/
private theorem parseFrom_append_of_none (counter : Int → Nat) (pos : Nat) (ids more : List Int)
    (hnone : ∀ id ∈ more, extra.lookup (toString id) = none) :
    parseFrom extra counter pos (ids ++ more) = parseFrom extra counter pos ids := by
  have hmore : ∀ counter pos, parseFrom extra counter pos more = .ok [] := by
    induction more with
    | nil =>
        intro counter pos
        rw [parseFrom]
    | cons id rest ih =>
        intro counter pos
        rw [parseFrom]
        simp only [hnone id (List.mem_cons_self ..)]
        exact ih (fun other hother => hnone other (List.mem_cons_of_mem _ hother)) _ _
  induction counter, pos, ids using parseFrom.induct extra with
  | case1 counter pos =>
      rw [List.nil_append, hmore, parseFrom]
  | case2 counter pos id rest hkey ih =>
      rw [List.cons_append, parseFrom, parseFrom]
      simp only [hkey]
      exact ih
  | case3 counter pos id rest tensors hkey hget =>
      rw [List.cons_append, parseFrom, parseFrom]
      simp only [hkey, hget]
  | case4 counter pos id rest tensors hkey embedding hget hlen =>
      have hrun := runLength_append rest (not_mem_of_key hnone hkey)
      rw [List.cons_append, parseFrom, parseFrom]
      simp only [hkey, hget, hrun]
      rw [if_pos hlen, if_pos hlen]
  | case5 counter pos id rest tensors hkey embedding hget hlen ih =>
      have hrun := runLength_append rest (not_mem_of_key hnone hkey)
      rw [List.cons_append, parseFrom, parseFrom]
      simp only [hkey, hget, hrun]
      rw [if_neg hlen, if_neg hlen, dropWhile_append_of_runLength hrun, ih]

/-- A cut that the parse allows splits the runs between its two sides. -/
private theorem parseFrom_append (counter : Int → Nat) (pos : Nat) (ids more : List Int)
    {infos all : List (RichEmbeddingInfo R)} (h : parseFrom extra counter pos ids = .ok infos)
    (hall : parseFrom extra counter pos (ids ++ more) = .ok all) :
    ∃ counter' later, parseFrom extra counter' (pos + ids.length) more = .ok later ∧
      all = infos ++ later := by
  induction counter, pos, ids using parseFrom.induct extra generalizing infos all with
  | case1 counter pos =>
      rw [parseFrom] at h
      cases h
      exact ⟨counter, all, hall, rfl⟩
  | case2 counter pos id rest hkey ih =>
      rw [List.cons_append, parseFrom] at hall
      rw [parseFrom] at h
      simp only [hkey] at h hall
      obtain ⟨counter', later, hlater, rfl⟩ := ih h hall
      refine ⟨counter', later, ?_, rfl⟩
      rw [List.length_cons, Nat.add_comm rest.length, ← Nat.add_assoc]
      exact hlater
  | case3 counter pos id rest tensors hkey hget =>
      obtain ⟨embedding, later, hsome, -⟩ := parseFrom_run hkey h
      rw [hget] at hsome
      cases hsome
  | case4 counter pos id rest tensors hkey embedding hget hlen =>
      obtain ⟨other, later, hsome, hother, -⟩ := parseFrom_run hkey h
      rw [hget] at hsome
      cases hsome
      exact absurd hother.symm hlen
  | case5 counter pos id rest tensors hkey embedding hget hlen ih =>
      rw [List.cons_append] at hall
      obtain ⟨first, later, hfirst, hfirstLen, hlater, rfl⟩ := parseFrom_run hkey h
      obtain ⟨second, after, hsecond, hsecondLen, hafter, rfl⟩ := parseFrom_run hkey hall
      rw [hfirst] at hsecond
      cases hsecond
      have hrun : runLength id (rest ++ more) = runLength id rest :=
        hsecondLen.symm.trans hfirstLen
      rw [hrun, dropWhile_append_of_runLength hrun] at hafter
      obtain ⟨counter', tail, htail, rfl⟩ := ih hlater hafter
      refine ⟨counter', tail, ?_, by rw [hrun, List.cons_append]⟩
      rw [length_run, ← Nat.add_assoc]
      exact htail

end Parse

section Splice

variable {α : Type} {rows new : List α} {start prefixLen : Nat}

private theorem drop_splice_before (hstop : start + new.length ≤ rows.length)
    (hle : prefixLen ≤ start) :
    (rows.take start ++ new ++ rows.drop (start + new.length)).drop prefixLen =
      (rows.drop prefixLen).take (start - prefixLen) ++ new ++
        (rows.drop prefixLen).drop (start - prefixLen + new.length) := by
  rw [List.append_assoc, List.drop_append_of_le_length (by rw [List.length_take]; omega),
    List.drop_take, List.drop_drop, List.append_assoc]
  have hsum : prefixLen + (start - prefixLen + new.length) = start + new.length := by omega
  rw [hsum]

private theorem drop_splice_inside (hstop : start + new.length ≤ rows.length)
    (hlo : start ≤ prefixLen) (hhi : prefixLen ≤ start + new.length) :
    (rows.take start ++ new ++ rows.drop (start + new.length)).drop prefixLen =
      new.drop (prefixLen - start) ++
        (rows.drop prefixLen).drop (start + new.length - prefixLen) := by
  have hlen : (rows.take start).length = start := List.length_take_of_le (by omega)
  rw [List.append_assoc, List.drop_append, hlen, List.drop_eq_nil_of_le (by omega),
    List.nil_append, List.drop_append_of_le_length (by omega), List.drop_drop]
  have hsum : prefixLen + (start + new.length - prefixLen) = start + new.length := by omega
  rw [hsum]

private theorem drop_splice_behind (hstop : start + new.length ≤ rows.length)
    (hle : start + new.length ≤ prefixLen) :
    (rows.take start ++ new ++ rows.drop (start + new.length)).drop prefixLen =
      rows.drop prefixLen := by
  have hlen : (rows.take start ++ new).length = start + new.length := by
    rw [List.length_append, List.length_take_of_le (by omega)]
  rw [List.drop_append, hlen, List.drop_eq_nil_of_le (by omega), List.nil_append, List.drop_drop]
  have hsum : start + new.length + (prefixLen - (start + new.length)) = prefixLen := by omega
  rw [hsum]

end Splice

section Rows

variable {rows : List (Row R)} {info : RichEmbeddingInfo R}

/-- The rows a run writes without a cached prefix. -/
private theorem replaceEmbedding_placed (rows : List (Row R)) (info : RichEmbeddingInfo R)
    {start : Nat} (hstart : info.startPos = start)
    (hrows : info.embedding.length = info.placeHolderCnt) (hoffset : info.offset = 0) :
    replaceEmbedding rows info =
      rows.take start ++ info.embedding.map Row.extra ++
        rows.drop (start + info.embedding.length) := by
  simp [replaceEmbedding, hstart, hoffset, ← hrows]

/-- Writing a run behind a cached prefix is writing the run and leaving out the
prefix. -/
private theorem replaceEmbedding_drop (h : Placed 0 rows.length info) (prefixLen : Nat) :
    replaceEmbedding (rows.drop prefixLen) (updateREInfo prefixLen info) =
      (replaceEmbedding rows info).drop prefixLen := by
  have hplaced := h.start
  obtain ⟨start, hstart⟩ := Int.eq_ofNat_of_zero_le hplaced
  have hstop := h.stop
  have hrows := h.rows
  have hlen : (info.embedding.map (Row.extra (R := R))).length = info.placeHolderCnt := by
    rw [List.length_map, hrows]
  have hfits : start + (info.embedding.map (Row.extra (R := R))).length ≤ rows.length := by
    omega
  rw [replaceEmbedding_placed _ _ hstart hrows h.offset, ← List.length_map (Row.extra (R := R))]
  unfold updateREInfo
  split
  next hzero =>
    rw [hzero, List.drop_zero, List.drop_zero, replaceEmbedding_placed _ _ hstart hrows h.offset,
      List.length_map]
  next hpos =>
    dsimp only
    split
    next hbefore =>
      have hshift : info.startPos - prefixLen = ((start - prefixLen : Nat) : Int) := by omega
      rw [drop_splice_before hfits (by omega),
        replaceEmbedding_placed _ { info with startPos := _, offset := 0 } hshift hrows rfl,
        List.length_map]
    next hnot =>
      split
      next hinside =>
        rw [drop_splice_inside hfits (by omega) (by omega), List.length_map]
        have hoffset : ((prefixLen : Int) - info.startPos).toNat = prefixLen - start := by omega
        have hcount : info.placeHolderCnt - (prefixLen - start) =
            start + info.placeHolderCnt - prefixLen := by omega
        have hall : (info.embedding.drop (prefixLen - start)).length =
            start + info.placeHolderCnt - prefixLen := by
          rw [List.length_drop]
          omega
        simp only [replaceEmbedding, hoffset, hcount]
        rw [if_neg (by omega), ← hall, List.take_length, Int.toNat_zero, List.take_zero,
          List.nil_append, Nat.zero_add, List.map_drop, hall, hrows]
      next hbehind =>
        rw [drop_splice_behind hfits (by omega)]
        rfl

private theorem length_replaceEmbedding (h : Placed 0 rows.length info) :
    (replaceEmbedding rows info).length = rows.length := by
  have hplaced := h.start
  obtain ⟨start, hstart⟩ := Int.eq_ofNat_of_zero_le hplaced
  have hstop := h.stop
  rw [replaceEmbedding_placed _ _ hstart h.rows h.offset, List.length_append, List.length_append,
    List.length_map, List.length_drop, h.rows, List.length_take_of_le (by omega)]
  omega

private theorem getElem?_replaceEmbedding (h : Placed 0 rows.length info) (i : Nat) :
    (Covers info i → ∃ row, (replaceEmbedding rows info)[i]? = some (.extra row)) ∧
      (¬ Covers info i → (replaceEmbedding rows info)[i]? = rows[i]?) := by
  have hplaced := h.start
  obtain ⟨start, hstart⟩ := Int.eq_ofNat_of_zero_le hplaced
  have hstop := h.stop
  have hlen := h.rows
  have htake : (rows.take start).length = start := List.length_take_of_le (by omega)
  rw [replaceEmbedding_placed _ _ hstart h.rows h.offset, List.append_assoc]
  unfold Covers
  constructor
  · intro hcover
    rw [List.getElem?_append_right (by omega), htake,
      List.getElem?_append_left (by rw [List.length_map]; omega), List.getElem?_map]
    have hlt : i - start < info.embedding.length := by omega
    exact ⟨info.embedding[i - start], by rw [List.getElem?_eq_getElem hlt]; rfl⟩
  · intro hnot
    rcases Nat.lt_or_ge i start with hlt | hge
    · rw [List.getElem?_append_left (by omega), List.getElem?_take_of_lt hlt]
    · rw [List.getElem?_append_right (by omega), htake,
        List.getElem?_append_right (by rw [List.length_map]; omega), List.length_map,
        List.getElem?_drop]
      congr 1
      omega

variable {infos : List (RichEmbeddingInfo R)}

private theorem foldl_replaceEmbedding_drop (h : ∀ info ∈ infos, Placed 0 rows.length info)
    (prefixLen : Nat) :
    (infos.map (updateREInfo prefixLen)).foldl replaceEmbedding (rows.drop prefixLen) =
      (infos.foldl replaceEmbedding rows).drop prefixLen := by
  induction infos generalizing rows with
  | nil => rfl
  | cons info rest ih =>
      have hinfo := h info (List.mem_cons_self ..)
      rw [List.map_cons, List.foldl_cons, List.foldl_cons, replaceEmbedding_drop hinfo]
      apply ih
      intro other hother
      rw [length_replaceEmbedding hinfo]
      exact h other (List.mem_cons_of_mem _ hother)

/-- A row that a run wrote stays a row of a tensor. -/
private theorem getElem?_foldl_replaceEmbedding (h : ∀ info ∈ infos, Placed 0 rows.length info)
    (i : Nat) :
    (((∃ row, rows[i]? = some (.extra row)) ∨ ∃ info ∈ infos, Covers info i) →
        ∃ row, (infos.foldl replaceEmbedding rows)[i]? = some (.extra row)) ∧
      ((∀ info ∈ infos, ¬ Covers info i) →
        (infos.foldl replaceEmbedding rows)[i]? = rows[i]?) := by
  induction infos generalizing rows with
  | nil => simp
  | cons info rest ih =>
      have hinfo := h info (List.mem_cons_self ..)
      obtain ⟨hcovered, hleft⟩ := getElem?_replaceEmbedding hinfo i
      have hrest : ∀ other ∈ rest, Placed 0 (replaceEmbedding rows info).length other := by
        intro other hother
        rw [length_replaceEmbedding hinfo]
        exact h other (List.mem_cons_of_mem _ hother)
      obtain ⟨hext, hkeep⟩ := ih hrest
      rw [List.foldl_cons]
      constructor
      · intro hrow
        apply hext
        by_cases hcover : Covers info i
        · exact Or.inl (hcovered hcover)
        · rw [hleft hcover]
          rcases hrow with hrow | ⟨other, hother, hin⟩
          · exact Or.inl hrow
          · rcases List.mem_cons.mp hother with rfl | hmem
            · exact absurd hin hcover
            · exact Or.inr ⟨other, hmem, hin⟩
      · intro hnone
        rw [hkeep (fun other hother => hnone other (List.mem_cons_of_mem _ hother)),
          hleft (hnone info (List.mem_cons_self ..))]

end Rows

section Feed

variable {extra : TensorListMap R} {ids : List Int} {infos : List (RichEmbeddingInfo R)}

theorem isPlaceholder_of_isEmpty (hempty : extra.isEmpty = true) (i : Nat) :
    ¬ IsPlaceholder extra ids i := by
  rw [List.isEmpty_iff.mp hempty]
  simp [IsPlaceholder]

theorem parseExtraEmbedding_spec (h : parseExtraEmbedding extra ids = .ok infos) :
    (∀ info ∈ infos, Placed 0 ids.length info) ∧
      ∀ i, (∃ info ∈ infos, Covers info i) ↔ IsPlaceholder extra ids i := by
  unfold parseExtraEmbedding at h
  split at h
  next hempty =>
    cases h
    simp [isPlaceholder_of_isEmpty hempty]
  next =>
    have hspec := parseFrom_spec _ _ _ h
    simp only [Nat.zero_add] at hspec
    exact hspec

private theorem feed_eq (h : parseExtraEmbedding extra ids = .ok infos) (prefixLen : Nat) :
    feed extra ids prefixLen =
      .ok ((infos.foldl replaceEmbedding (ids.map Row.token)).drop prefixLen) := by
  unfold feed richEmbedding
  rw [List.map_drop]
  split
  next hempty =>
    rw [parseExtraEmbedding, if_pos hempty] at h
    cases h
    rfl
  next =>
    have hplaced := (parseExtraEmbedding_spec h).1
    rw [h, ← foldl_replaceEmbedding_drop (by simpa using hplaced)]
    rfl

/-- The rows of the whole prompt, of which a cached prefix only cuts off the
front: a placeholder is fed a row of its tensor, any other token its own. -/
theorem feed_spec (h : parseExtraEmbedding extra ids = .ok infos) :
    ∃ rows : List (Row R), (∀ prefixLen, feed extra ids prefixLen = .ok (rows.drop prefixLen)) ∧
      ∀ i, (IsPlaceholder extra ids i → ∃ row, rows[i]? = some (.extra row)) ∧
        (¬ IsPlaceholder extra ids i → rows[i]? = ids[i]?.map Row.token) := by
  obtain ⟨hplaced, hcovers⟩ := parseExtraEmbedding_spec h
  refine ⟨infos.foldl replaceEmbedding (ids.map Row.token), feed_eq h, ?_⟩
  intro i
  have htokens : ∀ info ∈ infos, Placed 0 (ids.map (Row.token (R := R))).length info := by
    rw [List.length_map]
    exact hplaced
  obtain ⟨hext, hkeep⟩ := getElem?_foldl_replaceEmbedding htokens i
  constructor
  · intro hplace
    exact hext (Or.inr ((hcovers i).mpr hplace))
  · intro hnot
    rw [hkeep (fun info hinfo hcover => hnot ((hcovers i).mp ⟨info, hinfo, hcover⟩)),
      List.getElem?_map]

/-- Cut behind its last placeholder, a prompt is parsed alike. -/
theorem parseExtraEmbedding_take {len : Nat} (hlast : ∀ i, IsPlaceholder extra ids i → i < len) :
    parseExtraEmbedding extra (ids.take len) = parseExtraEmbedding extra ids := by
  unfold parseExtraEmbedding
  split
  next => rfl
  next =>
    rw [← parseFrom_append_of_none _ _ (ids.take len) (ids.drop len), List.take_append_drop]
    intro id hid
    obtain ⟨k, hk⟩ := List.mem_iff_getElem?.mp hid
    rw [List.getElem?_drop] at hk
    by_contra hsome
    have hlt := hlast (len + k) ⟨id, hk, Option.isSome_iff_ne_none.mpr hsome⟩
    omega

/-- Cut before a placeholder, a prompt has fewer runs, where it parses at all. -/
theorem parseExtraEmbedding_take_lt {len i : Nat} {cut : List (RichEmbeddingInfo R)}
    (h : parseExtraEmbedding extra ids = .ok infos)
    (hcut : parseExtraEmbedding extra (ids.take len) = .ok cut)
    (hi : IsPlaceholder extra ids i) (hle : len ≤ i) : cut.length < infos.length := by
  unfold parseExtraEmbedding at h hcut
  split at h
  next hempty => exact absurd hi (isPlaceholder_of_isEmpty hempty i)
  next hne =>
    rw [if_neg hne] at hcut
    rw [← List.take_append_drop len ids] at h
    obtain ⟨counter, later, hlater, rfl⟩ := parseFrom_append _ _ _ _ hcut h
    obtain ⟨id, hget, hsome⟩ := hi
    have hplace : IsPlaceholder extra (ids.drop len) (i - len) := by
      refine ⟨id, ?_, hsome⟩
      rw [List.getElem?_drop, Nat.add_sub_cancel' hle]
      exact hget
    obtain ⟨info, hinfo, -⟩ := ((parseFrom_spec _ _ _ hlater).2 _).mpr hplace
    have hpos := List.length_pos_of_mem hinfo
    rw [List.length_append]
    omega

end Feed

end DashInfer.Prefill
