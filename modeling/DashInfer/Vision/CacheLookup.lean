import Mathlib
import DashInfer.Vision.CacheManager

/-!
A list lookup is the single lookups of its keys, for every content of the caches, just
for the calls that pass the grids, pass the lengths where the path for the list hands
them on, and pass `use_redis` so that the default of the path does not count.
-/

namespace DashInfer.Vision

variable {α : Type}

/-! ## One lookup -/

/-- Arguments that look the same to a cache manager with or without redis. -/
structure LookupArgs.Same (redisValid : Bool) (a b : LookupArgs) : Prop where
  gridThw : a.gridThw = b.gridThw
  vitLen : a.vitLen = b.vitLen
  useRedis : redisValid = true → a.useRedis.getD false = b.useRedis.getD false

theorem CacheManager.retry_redisValid (manager : CacheManager α) (moment : Moment)
    (useRedis asked status : Bool) :
    (manager.retry moment useRedis asked status).redisValid = manager.redisValid := by
  unfold CacheManager.retry
  dsimp only
  split <;> split <;> rfl

/-- Without redis nothing is retried. -/
theorem CacheManager.retry_of_invalid {manager : CacheManager α} (h : manager.redisValid = false)
    (moment : Moment) (useRedis status : Bool) :
    manager.retry moment useRedis false status = manager := by
  unfold CacheManager.retry
  simp [h]

theorem getTorchFunc_redisValid (manager : CacheManager α) (moment : Moment) (md5Hash : String)
    (kwargs : LookupArgs) :
    (getTorchFunc manager moment md5Hash kwargs).2.redisValid = manager.redisValid :=
  CacheManager.retry_redisValid _ _ _ _ _

theorem CacheEntry.fits_congr {redisValid : Bool} {a b : LookupArgs} (h : a.Same redisValid b)
    (entry : CacheEntry α) : entry.fits a = entry.fits b := by
  unfold CacheEntry.fits
  rw [h.gridThw, h.vitLen]

theorem getTorchFunc_congr {manager : CacheManager α} {a b : LookupArgs}
    (h : a.Same manager.redisValid b) (moment : Moment) (md5Hash : String) :
    getTorchFunc manager moment md5Hash a = getTorchFunc manager moment md5Hash b := by
  unfold getTorchFunc
  simp only [CacheEntry.fits_congr h]
  cases hvalid : manager.redisValid with
  | false =>
      simp only [Bool.and_false, Bool.false_and, Bool.false_eq_true, if_false,
        CacheManager.retry_of_invalid hvalid]
  | true => rw [h.useRedis hvalid]

/-! ## Runs of lookups -/

/-- Task lists with the same keys whose arguments look the same. -/
structure SameTasks (redisValid : Bool) (tasks tasks' : List (String × LookupArgs)) : Prop where
  length : tasks.length = tasks'.length
  task : ∀ (i : Nat) (md5Hash : String) (a : LookupArgs), tasks[i]? = some (md5Hash, a) →
    ∃ b, tasks'[i]? = some (md5Hash, b) ∧ a.Same redisValid b

section

variable {moments : Nat → Moment} {tasks tasks' : List (String × LookupArgs)}

theorem runTask_redisValid (s : CacheManager α × List (Option (CacheResult α))) (i : Nat) :
    (runTask moments tasks s i).1.redisValid = s.1.redisValid := by
  unfold runTask
  split
  · rfl
  · exact getTorchFunc_redisValid _ _ _ _

theorem runTask_congr {s : CacheManager α × List (Option (CacheResult α))}
    (h : SameTasks s.1.redisValid tasks tasks') (i : Nat) :
    runTask moments tasks s i = runTask moments tasks' s i := by
  unfold runTask
  cases htask : tasks[i]? with
  | none =>
      have hnone : tasks'[i]? = none := by
        rw [List.getElem?_eq_none_iff] at htask ⊢
        rwa [← h.length]
      rw [hnone]
  | some task =>
      obtain ⟨b, hb, hsame⟩ := h.task i task.1 task.2 htask
      rw [hb]
      dsimp only
      rw [getTorchFunc_congr hsame]

theorem foldl_runTask_congr (order : List Nat) (s : CacheManager α × List (Option (CacheResult α)))
    (h : SameTasks s.1.redisValid tasks tasks') :
    order.foldl (runTask moments tasks) s = order.foldl (runTask moments tasks') s := by
  induction order generalizing s with
  | nil => rfl
  | cons i order ih =>
      rw [List.foldl_cons, List.foldl_cons, ← runTask_congr h]
      apply ih
      rw [runTask_redisValid]
      exact h

/-- Tasks that look the same have the same results, in every order. -/
theorem runTasks_congr (manager : CacheManager α) (order : List Nat)
    (h : SameTasks manager.redisValid tasks tasks') :
    runTasks manager moments order tasks = runTasks manager moments order tasks' := by
  unfold runTasks
  rw [h.length]
  exact foldl_runTask_congr order _ h

theorem runTask_keeps {s : CacheManager α × List (Option (CacheResult α))} {i j : Nat}
    (h : i ≠ j) : (runTask moments tasks s i).2[j]? = s.2[j]? := by
  unfold runTask
  split
  · rfl
  · exact List.getElem?_set_ne h

theorem foldl_runTask_keeps (order : List Nat) (s : CacheManager α × List (Option (CacheResult α)))
    {j : Nat} (h : j ∉ order) : (order.foldl (runTask moments tasks) s).2[j]? = s.2[j]? := by
  induction order generalizing s with
  | nil => rfl
  | cons i order ih =>
      rw [List.mem_cons, not_or] at h
      rw [List.foldl_cons, ih _ h.2]
      exact runTask_keeps (Ne.symm h.1)

/-- The slot of the task that comes first. -/
theorem runTasks_first (manager : CacheManager α) {order : List Nat} {i : Nat} {md5Hash : String}
    {kwargs : LookupArgs} (htask : tasks[i]? = some (md5Hash, kwargs)) (hnot : i ∉ order) :
    (runTasks manager moments (i :: order) tasks).2[i]? =
      some (some (getTorchFunc manager (moments i) md5Hash kwargs).1) := by
  have hlt : i < tasks.length := (List.getElem?_eq_some_iff.mp htask).1
  unfold runTasks
  rw [List.foldl_cons, foldl_runTask_keeps _ _ hnot]
  unfold runTask
  rw [htask]
  dsimp only
  rw [List.getElem?_set_self (by rwa [List.length_replicate])]

end

/-! ## The tasks of a list -/

section

variable {md5Keys : List String} {kwargs : ListArgs} {redisValid : Bool}

theorem getElem?_replicate_getD {β : Type} (lists : Option (List (Option β))) {n i : Nat}
    (hlists : ∀ list ∈ lists, list.length = n) (hi : i < n) :
    (lists.getD (List.replicate n none))[i]? =
      some ((lists.map (fun list => list[i]?.join)).getD none) := by
  cases lists with
  | none => exact List.getElem?_replicate_of_lt hi
  | some list =>
      have hlt : i < list.length := by
        rw [hlists list rfl]
        exact hi
      simp [List.getElem?_eq_getElem hlt]

/-- The arguments that a list lookup hands on for one of its keys. -/
def taskArgs (kwargs : ListArgs) (count i : Nat) : LookupArgs :=
  if count ≥ 3 then
    ⟨some ((singleArgs kwargs i).gridThw.getD none), some ((singleArgs kwargs i).vitLen.getD none),
      some (kwargs.useRedis.getD true)⟩
  else ⟨some ((singleArgs kwargs i).gridThw.getD none), none, none⟩

theorem listTasks_getElem? (hgrids : ∀ list ∈ kwargs.gridThws, list.length = md5Keys.length)
    (hlens : ∀ list ∈ kwargs.vitLens, list.length = md5Keys.length) (i : Nat) :
    (if md5Keys.length ≥ 3 then taskList md5Keys kwargs else shortTaskList md5Keys kwargs)[i]? =
      md5Keys[i]?.map (fun md5Hash => (md5Hash, taskArgs kwargs md5Keys.length i)) := by
  rcases Nat.lt_or_ge i md5Keys.length with hi | hi
  · have hgrid := getElem?_replicate_getD kwargs.gridThws hgrids hi
    have hlen := getElem?_replicate_getD kwargs.vitLens hlens hi
    unfold taskArgs
    split
    · unfold taskList
      simp only [List.getElem?_zipWith, hgrid, hlen, List.getElem?_eq_getElem hi]
      rfl
    · unfold shortTaskList
      simp only [List.getElem?_zipWith, hgrid, List.getElem?_eq_getElem hi]
      rfl
  · have hkeys : md5Keys[i]? = none := List.getElem?_eq_none hi
    unfold taskList shortTaskList
    split <;> simp [List.getElem?_zipWith, hkeys]

theorem length_listTasks (hgrids : ∀ list ∈ kwargs.gridThws, list.length = md5Keys.length)
    (hlens : ∀ list ∈ kwargs.vitLens, list.length = md5Keys.length) :
    (if md5Keys.length ≥ 3 then taskList md5Keys kwargs
      else shortTaskList md5Keys kwargs).length = md5Keys.length := by
  apply Nat.le_antisymm
  · by_contra hmore
    have hsome := listTasks_getElem? hgrids hlens md5Keys.length
    rw [List.getElem?_eq_none (Nat.le_refl _), Option.map_none,
      List.getElem?_eq_none_iff] at hsome
    exact hmore hsome
  · by_contra hless
    have hnone := listTasks_getElem? hgrids hlens (md5Keys.length - 1)
    rw [List.getElem?_eq_none (by omega)] at hnone
    have hlt : md5Keys.length - 1 < md5Keys.length := by omega
    rw [List.getElem?_eq_getElem hlt] at hnone
    cases hnone

theorem singleTasks_getElem? (i : Nat) :
    (md5Keys.mapIdx (fun i md5Hash => (md5Hash, singleArgs kwargs i)))[i]? =
      md5Keys[i]?.map (fun md5Hash => (md5Hash, singleArgs kwargs i)) :=
  List.getElem?_mapIdx

/-- A call that passes what the path needs hands on what the single lookups get. -/
theorem taskArgs_same {count : Nat} (h : kwargs.Agrees redisValid count) {i : Nat}
    (hi : i < count) : (taskArgs kwargs count i).Same redisValid (singleArgs kwargs i) := by
  rcases h with hzero | ⟨hgrids, hlens, hredis⟩
  · omega
  · obtain ⟨gridThws, hgridThws⟩ := Option.isSome_iff_exists.mp hgrids
    unfold taskArgs
    split
    · next hcount =>
        obtain ⟨vitLens, hvitLens⟩ := Option.isSome_iff_exists.mp (hlens.mpr hcount)
        refine ⟨?_, ?_, ?_⟩
        · simp [singleArgs, hgridThws]
        · simp [singleArgs, hvitLens]
        · intro hvalid
          have hgiven := hredis hvalid
          rw [if_pos hcount] at hgiven
          obtain ⟨useRedis, huse⟩ := Option.isSome_iff_exists.mp hgiven
          simp [singleArgs, huse]
    · next hcount =>
        have hnone : kwargs.vitLens = none := by
          rw [← Option.not_isSome_iff_eq_none, hlens]
          exact hcount
        refine ⟨?_, ?_, ?_⟩
        · simp [singleArgs, hgridThws]
        · simp [singleArgs, hnone]
        · intro hvalid
          have hnot := hredis hvalid
          rw [if_neg hcount] at hnot
          match huse : kwargs.useRedis with
          | none => simp [singleArgs, huse]
          | some false => simp [singleArgs, huse]
          | some true => exact absurd huse hnot

theorem listTasks_same (hgrids : ∀ list ∈ kwargs.gridThws, list.length = md5Keys.length)
    (hlens : ∀ list ∈ kwargs.vitLens, list.length = md5Keys.length)
    (h : kwargs.Agrees redisValid md5Keys.length) :
    SameTasks redisValid
      (if md5Keys.length ≥ 3 then taskList md5Keys kwargs else shortTaskList md5Keys kwargs)
      (md5Keys.mapIdx (fun i md5Hash => (md5Hash, singleArgs kwargs i))) := by
  refine ⟨?_, ?_⟩
  · rw [length_listTasks hgrids hlens, List.length_mapIdx]
  · intro i md5Hash a htask
    rw [listTasks_getElem? hgrids hlens] at htask
    rcases Nat.lt_or_ge i md5Keys.length with hi | hi
    · rw [List.getElem?_eq_getElem hi] at htask
      cases htask
      refine ⟨singleArgs kwargs i, ?_, taskArgs_same h hi⟩
      rw [singleTasks_getElem?, List.getElem?_eq_getElem hi]
      rfl
    · rw [List.getElem?_eq_none hi] at htask
      cases htask

/-- A cache manager whose local cache has one entry for all keys, or none, and whose
redis has nothing. -/
def uniformManager (redisValid : Bool) (entry : Option (CacheEntry α)) : CacheManager α where
  localCache := fun _ => entry
  redisValid := redisValid
  redisCache := fun _ => ⟨true, none, none⟩
  retryRedis := true
  retryStartTime := 0
  cacheRetryTime := 10000
  redisMaxTime := 3000

/-- Where lists and single lookups agree the first key is looked up alike. -/
theorem first_lookup_eq (hgrids : ∀ list ∈ kwargs.gridThws, list.length = md5Keys.length)
    (hlens : ∀ list ∈ kwargs.vitLens, list.length = md5Keys.length) (hpos : 0 < md5Keys.length)
    (h : ∀ manager : CacheManager α, manager.redisValid = redisValid → ∀ moments poolOrder,
      poolOrder.Perm (List.range md5Keys.length) →
        (manager.getList moments poolOrder md5Keys kwargs).2 =
          (manager.getSingles moments poolOrder md5Keys kwargs).2)
    (entry : Option (CacheEntry α)) :
    (getTorchFunc (uniformManager redisValid entry) ⟨0, 0, 0⟩ md5Keys[0]
        (taskArgs kwargs md5Keys.length 0)).1 =
      (getTorchFunc (uniformManager redisValid entry) ⟨0, 0, 0⟩ md5Keys[0]
        (singleArgs kwargs 0)).1 := by
  have hrun := h (uniformManager redisValid entry) rfl (fun _ => ⟨0, 0, 0⟩)
    (List.range md5Keys.length) (List.Perm.refl _)
  have horder : lookupOrder md5Keys.length (List.range md5Keys.length) =
      List.range md5Keys.length := by
    unfold lookupOrder
    exact ite_self _
  obtain ⟨n, hn⟩ := Nat.exists_eq_add_one_of_ne_zero (Nat.ne_of_gt hpos)
  have hnot : 0 ∉ (List.range n).map Nat.succ := by simp
  have hlist := listTasks_getElem? hgrids hlens 0
  have hsingle := @singleTasks_getElem? md5Keys kwargs 0
  rw [List.getElem?_eq_getElem hpos, Option.map_some] at hlist hsingle
  have hslot := congrArg (fun results => results[0]?) hrun
  unfold CacheManager.getList CacheManager.getSingles at hslot
  rw [horder, hn, List.range_succ_eq_map, ← hn] at hslot
  dsimp only at hslot
  rw [runTasks_first _ hlist hnot, runTasks_first _ hsingle hnot] at hslot
  exact Option.some.inj (Option.some.inj hslot)

/-- The lookup of a list is the lookups of its keys, whatever the caches hold. -/
theorem getList_eq_getSingles_iff (md5Keys : List String) (kwargs : ListArgs) (redisValid : Bool)
    (hgrids : ∀ list ∈ kwargs.gridThws, list.length = md5Keys.length)
    (hlens : ∀ list ∈ kwargs.vitLens, list.length = md5Keys.length) :
    (∀ manager : CacheManager α, manager.redisValid = redisValid → ∀ moments poolOrder,
      poolOrder.Perm (List.range md5Keys.length) →
        (manager.getList moments poolOrder md5Keys kwargs).2 =
          (manager.getSingles moments poolOrder md5Keys kwargs).2) ↔
      kwargs.Agrees redisValid md5Keys.length := by
  constructor
  · intro h
    rcases Nat.eq_zero_or_pos md5Keys.length with hzero | hpos
    · exact Or.inl hzero
    · right
      have hfirst := first_lookup_eq hgrids hlens hpos h
      have hgiven : kwargs.gridThws.isSome := by
        by_contra hnone
        rw [Option.not_isSome_iff_eq_none] at hnone
        -- an entry with a grid counts for the key on its own only
        have hentry := congrArg (·.gridThw) (hfirst (some ⟨[], some []⟩))
        unfold taskArgs at hentry
        split at hentry <;>
          simp [getTorchFunc, uniformManager, singleArgs, hnone, CacheEntry.fits] at hentry
      refine ⟨hgiven, ⟨?_, ?_⟩, ?_⟩
      · intro hlensGiven
        by_contra hcount
        obtain ⟨vitLens, hvitLens⟩ := Option.isSome_iff_exists.mp hlensGiven
        -- an entry of another length counts in the short path only
        have hentry := congrArg (·.result)
          (hfirst (some ⟨List.replicate (vitLens[0]?.join.getD 0 + 1) [], none⟩))
        rw [taskArgs, if_neg hcount] at hentry
        cases hlen : vitLens[0]?.join with
        | none =>
            simp [getTorchFunc, uniformManager, singleArgs, hvitLens, CacheEntry.fits, hlen]
              at hentry
        | some length =>
            simp [getTorchFunc, uniformManager, singleArgs, hvitLens, CacheEntry.fits, hlen]
              at hentry
      · intro hcount
        by_contra hnone
        rw [Option.not_isSome_iff_eq_none] at hnone
        -- an entry without a grid counts for the key on its own only
        have hentry := congrArg (·.result) (hfirst (some ⟨[], none⟩))
        rw [taskArgs, if_pos hcount] at hentry
        simp [getTorchFunc, uniformManager, singleArgs, hnone, CacheEntry.fits] at hentry
      · intro hvalid
        subst hvalid
        -- redis is asked in one of the two only
        have hentry := congrArg (·.source) (hfirst none)
        unfold taskArgs at hentry
        split at hentry
        · next hcount =>
            rw [if_pos hcount]
            by_contra hnone
            rw [Option.not_isSome_iff_eq_none] at hnone
            simp [getTorchFunc, uniformManager, singleArgs, hnone] at hentry
        · next hcount =>
            rw [if_neg hcount]
            intro huse
            simp [getTorchFunc, uniformManager, singleArgs, huse] at hentry
  · intro hagrees manager hvalid moments poolOrder _
    subst hvalid
    unfold CacheManager.getList CacheManager.getSingles
    rw [runTasks_congr manager _ (listTasks_same hgrids hlens hagrees)]

end

/-- Three keys with their grids and lengths. -/
theorem getList_three_eq_getSingles :
    ((uniformManager true (some ⟨[[1], [2]], some [1, 2, 1]⟩)).getList (fun _ => ⟨0, 0, 0⟩) [2, 0, 1]
        ["a", "b", "c"] ⟨some [some [1, 2, 1], some [1, 1, 1], none], some [some 2, some 2, none],
          some true⟩).2 =
      ((uniformManager true (some ⟨[[1], [2]], some [1, 2, 1]⟩)).getSingles (fun _ => ⟨0, 0, 0⟩)
        [2, 0, 1] ["a", "b", "c"] ⟨some [some [1, 2, 1], some [1, 1, 1], none],
          some [some 2, some 2, none], some true⟩).2 := by
  have hagrees : (⟨some [some [1, 2, 1], some [1, 1, 1], none], some [some 2, some 2, none],
      some true⟩ : ListArgs).Agrees true 3 := by
    right
    exact ⟨rfl, by simp, by simp⟩
  exact (getList_eq_getSingles_iff ["a", "b", "c"] _ true (by simp) (by simp)).mpr hagrees
    (uniformManager true (some ⟨[[1], [2]], some [1, 2, 1]⟩)) rfl _ _ (by decide)

/-- The short path drops `vit_lens`: an embedding of another length is returned. -/
theorem getList_drops_vitLens :
    ((uniformManager false (some ⟨[[5]], none⟩)).getList (fun _ => ⟨0, 0, 0⟩) [0] ["a"]
        ⟨some [none], some [some 2], none⟩).2 = [some ⟨"a", some [[5]], none, true, .local⟩] ∧
      ((uniformManager false (some ⟨[[5]], none⟩)).getSingles (fun _ => ⟨0, 0, 0⟩) [0] ["a"]
        ⟨some [none], some [some 2], none⟩).2 = [some ⟨"a", none, none, true, .local⟩] ∧
      ((uniformManager false (some ⟨[[5]], none⟩)).getList (fun _ => ⟨0, 0, 0⟩) [0] ["a"]
        ⟨some [none], some [some 2], none⟩).2 ≠
      ((uniformManager false (some ⟨[[5]], none⟩)).getSingles (fun _ => ⟨0, 0, 0⟩) [0] ["a"]
        ⟨some [none], some [some 2], none⟩).2 :=
  ⟨by decide, by decide, by decide⟩

end DashInfer.Vision
