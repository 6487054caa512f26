import Mathlib

/-!
`CacheManager.get` for one key and for a list of keys. A single key is looked up with
the arguments of the call; a list has two paths, a short one and one through a pool of
threads, and each makes its own arguments for the lookups.
-/

namespace DashInfer.Vision

variable {α : Type}

/-- The rows of a tensor. -/
abbrev Tensor (α : Type) : Type := List (List α)

/-- What the local cache has under a key: `tensor` and `list`. -/
structure CacheEntry (α : Type) where
  tensor : Tensor α
  grid : Option (List Int)
deriving DecidableEq

/-- `RedisCache.get`: `False` where the store fails. -/
structure RedisAnswer (α : Type) where
  status : Bool
  tensor : Option (Tensor α)
  grid : Option (List Int)

/-- A `CacheManager`. `localCache` is `local_cache`, or `local_cache_merge` where the
local cache is off. Times are in milliseconds. -/
structure CacheManager (α : Type) where
  localCache : String → Option (CacheEntry α)
  redisValid : Bool
  redisCache : String → RedisAnswer α
  retryRedis : Bool
  retryStartTime : Int
  cacheRetryTime : Int
  redisMaxTime : Int

/-- The clock during a lookup: how long redis takes, and the two times that are read. -/
structure Moment where
  redisTime : Int
  failedAt : Int
  now : Int

/-- The keyword arguments of a lookup; `none` is an argument that is not passed. -/
structure LookupArgs where
  gridThw : Option (Option (List Int))
  vitLen : Option (Option Nat)
  useRedis : Option Bool
deriving DecidableEq

inductive CacheSource
  | local
  | global
deriving DecidableEq, Repr

/-- The result of a lookup, without its times. -/
structure CacheResult (α : Type) where
  key : String
  result : Option (Tensor α)
  gridThw : Option (List Int)
  status : Bool
  source : CacheSource
deriving DecidableEq

/-- An entry with another grid does not count, and one without a grid only if it has as
many rows as the call says. -/
def CacheEntry.fits (entry : CacheEntry α) (kwargs : LookupArgs) : Bool :=
  match entry.grid with
  | some grid => kwargs.gridThw.getD (some grid) = some grid
  | none => kwargs.vitLen.getD (some entry.tensor.length) = some entry.tensor.length

/-- The retry of redis after a failure or a slow answer, and when it is tried again. -/
def CacheManager.retry (manager : CacheManager α) (moment : Moment) (useRedis asked status : Bool) :
    CacheManager α :=
  let manager :=
    if asked && (!status || decide (moment.redisTime > manager.redisMaxTime)) then
      { manager with retryStartTime := moment.failedAt, retryRedis := false }
    else manager
  if useRedis && manager.redisValid && !manager.retryRedis &&
      decide (moment.now - manager.retryStartTime > manager.cacheRetryTime) then
    { manager with retryStartTime := 0, retryRedis := true }
  else manager

/-- `get_torch_func`. -/
def getTorchFunc (manager : CacheManager α) (moment : Moment) (md5Hash : String)
    (kwargs : LookupArgs) : CacheResult α × CacheManager α :=
  let useRedis := kwargs.useRedis.getD false
  let cached := manager.localCache md5Hash
  let asked := useRedis && cached.isNone && manager.redisValid && manager.retryRedis
  let answer : RedisAnswer α :=
    if asked then manager.redisCache md5Hash
    else ⟨true, cached.map (·.tensor), cached.bind (·.grid)⟩
  let manager := manager.retry moment useRedis asked answer.status
  let dropped : Bool :=
    match answer.status, answer.tensor with
    | true, some tensor => !(CacheEntry.mk tensor answer.grid).fits kwargs
    | _, _ => false
  ({ key := md5Hash
     result := if dropped then none else answer.tensor
     gridThw := if dropped then none else answer.grid
     status := answer.status
     source := if asked then .global else .local }, manager)

/-! ## Lists of keys -/

/-- The keyword arguments of a lookup of a list. -/
structure ListArgs where
  gridThws : Option (List (Option (List Int)))
  vitLens : Option (List (Option Nat))
  useRedis : Option Bool
deriving DecidableEq

/-- `task_list`. Lists that are not passed are lists of `None`. -/
def taskList (md5Keys : List String) (kwargs : ListArgs) : List (String × LookupArgs) :=
  let gridThws := kwargs.gridThws.getD (List.replicate md5Keys.length none)
  let vitLens := kwargs.vitLens.getD (List.replicate md5Keys.length none)
  List.zipWith (fun md5Hash args => (md5Hash, args)) md5Keys
    (List.zipWith (fun gridThw vitLen =>
      ⟨some gridThw, some vitLen, some (kwargs.useRedis.getD true)⟩) gridThws vitLens)

/-- `task_list` of the short path. -/
def shortTaskList (md5Keys : List String) (kwargs : ListArgs) : List (String × LookupArgs) :=
  let gridThws := kwargs.gridThws.getD (List.replicate md5Keys.length none)
  List.zipWith (fun md5Hash gridThw => (md5Hash, ⟨some gridThw, none, none⟩)) md5Keys gridThws

/-- One lookup of a task list. The result goes to the slot of the task. -/
def runTask (moments : Nat → Moment) (tasks : List (String × LookupArgs))
    (s : CacheManager α × List (Option (CacheResult α))) (i : Nat) :
    CacheManager α × List (Option (CacheResult α)) :=
  match tasks[i]? with
  | none => s
  | some (md5Hash, kwargs) =>
      let looked := getTorchFunc s.1 (moments i) md5Hash kwargs
      (looked.2, s.2.set i (some looked.1))

/-- The lookups of a task list in some order: the results in the order of the tasks, and
the cache manager afterwards. -/
def runTasks (manager : CacheManager α) (moments : Nat → Moment) (order : List Nat)
    (tasks : List (String × LookupArgs)) : CacheManager α × List (Option (CacheResult α)) :=
  order.foldl (runTask moments tasks) (manager, List.replicate tasks.length none)

/-- The order of the lookups: that of the pool from three keys on. -/
def lookupOrder (count : Nat) (poolOrder : List Nat) : List Nat :=
  if count ≥ 3 then poolOrder else List.range count

/-- `CacheManager.get` for a list of keys. -/
def CacheManager.getList (manager : CacheManager α) (moments : Nat → Moment)
    (poolOrder : List Nat) (md5Keys : List String) (kwargs : ListArgs) :
    CacheManager α × List (Option (CacheResult α)) :=
  let tasks := if md5Keys.length ≥ 3 then taskList md5Keys kwargs else shortTaskList md5Keys kwargs
  runTasks manager moments (lookupOrder md5Keys.length poolOrder) tasks

/-- The arguments of the lookup of one key of a list on its own: the grid and the length
of its place where the lists are passed, and `use_redis` as it is. -/
def singleArgs (kwargs : ListArgs) (i : Nat) : LookupArgs :=
  ⟨kwargs.gridThws.map (fun gridThws => gridThws[i]?.join),
    kwargs.vitLens.map (fun vitLens => vitLens[i]?.join), kwargs.useRedis⟩

/-- The lookups of the keys of a list one by one. -/
def CacheManager.getSingles (manager : CacheManager α) (moments : Nat → Moment)
    (poolOrder : List Nat) (md5Keys : List String) (kwargs : ListArgs) :
    CacheManager α × List (Option (CacheResult α)) :=
  runTasks manager moments (lookupOrder md5Keys.length poolOrder)
    (md5Keys.mapIdx (fun i md5Hash => (md5Hash, singleArgs kwargs i)))

/-- What a call has to pass for the list lookup to be the single lookups. -/
def ListArgs.Agrees (kwargs : ListArgs) (redisValid : Bool) (count : Nat) : Prop :=
  count = 0 ∨
    kwargs.gridThws.isSome ∧ (kwargs.vitLens.isSome ↔ 3 ≤ count) ∧
      (redisValid = true → if 3 ≤ count then kwargs.useRedis.isSome
        else kwargs.useRedis ≠ some true)

end DashInfer.Vision
