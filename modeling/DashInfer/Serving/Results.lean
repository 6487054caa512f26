import DashInfer.Serving.Loop
import DashInfer.Lib.Program

/-!
`ResultQueueImpl`: the engine appends what a request has generated, and the
client collects it with `Get`, `GetWithTimeout` and `GetNoWait`. A getter runs
access by access to the shared queue, so that the engine may append, change the
status or close the queue in between.
-/

namespace DashInfer.Serving

open Lib

/-- The data that `GeneratedElements` holds for each token; `F` is the type of
the probabilities. -/
structure Tokens (F : Type) where
  idsFromGenerate : List Int
  logProbsList : List (List (Int × F))
  tokenLogprobsList : List F
deriving DecidableEq

structure GeneratedElements (F : Type) extends Tokens F where
  prefixCacheLen : Int
  prefixLenGpu : Int
  prefixLenCpu : Int
deriving DecidableEq

/-- The elements that the engine builds: there is an id, and probabilities are
recorded for every id or for none. -/
structure NewElements (F : Type) extends GeneratedElements F where
  ids_ne_nil : idsFromGenerate ≠ []
  logProbs_length : logProbsList.length = 0 ∨ logProbsList.length = idsFromGenerate.length
  tokenLogprobs_length :
    tokenLogprobsList.length = 0 ∨ tokenLogprobsList.length = idsFromGenerate.length

variable {F : Type}

namespace Tokens

def empty : Tokens F := ⟨[], [], []⟩

/-- The tokens of one element followed by those of another. -/
def append (a b : Tokens F) : Tokens F :=
  ⟨a.idsFromGenerate ++ b.idsFromGenerate, a.logProbsList ++ b.logProbsList,
    a.tokenLogprobsList ++ b.tokenLogprobsList⟩

/-- The concatenation of a sequence of elements. -/
def concat : List (Tokens F) → Tokens F
  | [] => empty
  | a :: rest => a.append (concat rest)

/-- Entry `[0]` of every list that has one. -/
def first (a : Tokens F) : Tokens F :=
  ⟨a.idsFromGenerate.take 1, a.logProbsList.take 1, a.tokenLogprobsList.take 1⟩

@[simp] theorem append_empty (a : Tokens F) : a.append empty = a := by
  simp [append, empty]

@[simp] theorem empty_append (a : Tokens F) : empty.append a = a := by
  simp [append, empty]

theorem append_assoc (a b c : Tokens F) : (a.append b).append c = a.append (b.append c) := by
  simp [append]

@[simp] theorem concat_nil : concat ([] : List (Tokens F)) = empty := rfl

@[simp] theorem concat_cons (a : Tokens F) (rest : List (Tokens F)) :
    concat (a :: rest) = a.append (concat rest) := rfl

theorem concat_append (as bs : List (Tokens F)) :
    concat (as ++ bs) = (concat as).append (concat bs) := by
  induction as with
  | nil => simp
  | cons a rest ih =>
      rw [List.cons_append, concat_cons, concat_cons, ih, append_assoc]

theorem length_concat_le (as : List (Tokens F)) :
    (concat (as.map first)).idsFromGenerate.length ≤ (concat as).idsFromGenerate.length := by
  induction as with
  | nil => simp
  | cons a rest ih =>
      simp only [List.map_cons, concat_cons, append, first, List.length_append, List.length_take]
      omega

/-- The first entries are everything exactly if no element has a second id. -/
theorem concat_first_iff (as : List (NewElements F)) :
    concat (as.map fun e => e.toTokens.first) = concat (as.map fun e => e.toTokens) ↔
      ∀ e ∈ as, e.idsFromGenerate.length = 1 := by
  constructor
  · intro h
    have hlength := congrArg (fun t => t.idsFromGenerate.length) h
    clear h
    induction as with
    | nil => simp
    | cons a rest ih =>
        have hrest := length_concat_le (rest.map fun e => e.toTokens)
        have hpos := List.length_pos_iff.mpr a.ids_ne_nil
        rw [List.map_map] at hrest
        simp only [List.map_cons, concat_cons, append, first, List.length_append,
          List.length_take, Function.comp_def] at hlength hrest
        intro e he
        rcases List.mem_cons.mp he with rfl | he
        · omega
        · exact ih (by simp only [first]; omega) e he
  · intro h
    congr 1
    apply List.map_congr_left
    intro e he
    have hone := h e he
    have hlog := e.logProbs_length
    have htoken := e.tokenLogprobs_length
    simp only [first]
    rw [List.take_of_length_le (by omega), List.take_of_length_le (by omega),
      List.take_of_length_le (by omega)]

theorem length_concat_first (as : List (NewElements F)) :
    (concat (as.map fun e => e.toTokens.first)).idsFromGenerate.length = as.length := by
  induction as with
  | nil => rfl
  | cons a rest ih =>
      have hpos := List.length_pos_iff.mpr a.ids_ne_nil
      simp only [List.map_cons, concat_cons, append, first, List.length_append, List.length_take,
        List.length_cons]
      simp only [first] at ih
      omega

theorem append_left_inj (a b c : Tokens F) : a.append c = b.append c ↔ a = b := by
  cases a
  cases b
  simp [append]

end Tokens

/-- `request->prefix_len`, `prefix_len_gpu` and, where the request asks for
them, the probabilities recorded so far. -/
structure FetchInfo (F : Type) where
  prefixLen : Int
  prefixLenGpu : Int
  logProbs : Option ((Nat → List (Int × F)) × (Nat → F))

/-- `FetchGenerationResultAndIncreaseCounter`, with the whole element. -/
def fetchElements (info : FetchInfo F) (request : Request) (handle : RequestHandle) :
    Option (NewElements F) :=
  let newLength := request.outputs.length
  let oldLength := handle.contextLength + handle.generateLength
  if h : newLength ≠ 0 ∧ oldLength < newLength then
    some
      { idsFromGenerate := (List.range (newLength - oldLength)).map fun i =>
          request.outputs.data (oldLength + i)
        logProbsList := match info.logProbs with
          | some (logProbs, _) => (List.range (newLength - oldLength)).map fun i =>
              logProbs (handle.generateLength + i)
          | none => []
        tokenLogprobsList := match info.logProbs with
          | some (_, tokenLogprobs) => (List.range (newLength - oldLength)).map fun i =>
              tokenLogprobs (handle.generateLength + i)
          | none => []
        prefixCacheLen := info.prefixLen
        prefixLenGpu := info.prefixLenGpu
        prefixLenCpu := info.prefixLen - info.prefixLenGpu
        ids_ne_nil := by simp; omega
        logProbs_length := by cases info.logProbs <;> simp
        tokenLogprobs_length := by cases info.logProbs <;> simp }
  else none

/-- The ids of the element are those that `deliver` adds to the queue. -/
theorem fetchElements_ids (info : FetchInfo F) (request : Request) (handle : RequestHandle) :
    (fetchElements info request handle).map (·.idsFromGenerate) =
      (fetchGenerationResult request handle).1 := by
  simp only [fetchElements, fetchGenerationResult]
  split
  · next h => rw [if_neg h.1, if_pos h.2, Option.map_some]
  · next h =>
      split
      · rfl
      · next hlen => rw [if_neg (fun hlt => h ⟨hlen, hlt⟩), Option.map_none]

/-- `GeneratedElements()`. -/
def GeneratedElements.new : GeneratedElements F where
  toTokens := Tokens.empty
  prefixCacheLen := 0
  prefixLenGpu := 0
  prefixLenCpu := 0

def GeneratedElements.appendNewSingleElementToEnd (total : GeneratedElements F)
    (rhs : NewElements F) : GeneratedElements F where
  idsFromGenerate := total.idsFromGenerate ++ [rhs.idsFromGenerate.head rhs.ids_ne_nil]
  logProbsList := total.logProbsList ++ rhs.logProbsList.take 1
  tokenLogprobsList := total.tokenLogprobsList ++ rhs.tokenLogprobsList.take 1
  prefixCacheLen := rhs.prefixCacheLen
  prefixLenGpu := rhs.prefixLenGpu
  prefixLenCpu := rhs.prefixLenCpu

theorem appendNewSingleElementToEnd_toTokens (total : GeneratedElements F)
    (rhs : NewElements F) :
    (total.appendNewSingleElementToEnd rhs).toTokens =
      total.toTokens.append rhs.toTokens.first := by
  simp [GeneratedElements.appendNewSingleElementToEnd, Tokens.append, Tokens.first,
    List.take_one, List.head?_eq_some_head rhs.ids_ne_nil]

inductive Getter where
  | get
  | getWithTimeout (timeoutMs : Int)
  | getNoWait

/-- The next access of a getter to the queue; `timeoutMs` is the argument of
the call. -/
inductive GetterStep where
  | idle
  | testClosed (timeoutMs : Int)
  | tryDequeue (timeoutMs : Int)
  /-- `drainAllElements` after an element was found. -/
  | drain (timeoutMs : Int)
  /-- The comparisons of `status_` that are left. -/
  | testStatus (timeoutMs : Int) (rest : List GenerateRequestStatus)
  /-- `drainAllElements` after the status was found to be final. -/
  | drainLast
  | testClosedAfterWarning (timeoutMs : Int)
  | noWaitTestClosed
  | noWaitTryDequeue

/-- A call that has returned. -/
structure Returned (F : Type) where
  value : Option (GeneratedElements F)
  /-- Ghost: the elements it took from the queue. -/
  consumed : List (NewElements F)

structure ResultQueueImpl (F : Type) where
  storeQueue : List (NewElements F)
  status : GenerateRequestStatus
  closed : Bool
  pc : GetterStep
  /-- `total_elements` of the running call. -/
  total : GeneratedElements F
  /-- Ghost: the elements taken by the running call, the calls that have
  returned and the elements appended. -/
  consumed : List (NewElements F)
  calls : List (Returned F)
  appended : List (NewElements F)

namespace ResultQueueImpl

def init : ResultQueueImpl F where
  storeQueue := []
  status := .init
  closed := false
  pc := .idle
  total := .new
  consumed := []
  calls := []
  appended := []

/-- `AppendGenerateElement`. -/
def appendGenerateElement (e : NewElements F) (q : ResultQueueImpl F) : ResultQueueImpl F :=
  { q with storeQueue := q.storeQueue ++ [e], appended := q.appended ++ [e] }

/-- The first access of a call. -/
def call (getter : Getter) (q : ResultQueueImpl F) : ResultQueueImpl F :=
  { q with
    total := .new
    pc := match getter with
      | .get => .testClosed (-1)
      | .getWithTimeout timeoutMs => .testClosed timeoutMs
      | .getNoWait => .noWaitTestClosed }

def return_ (value : Option (GeneratedElements F)) (q : ResultQueueImpl F) :
    ResultQueueImpl F :=
  { q with
    pc := .idle
    total := .new
    consumed := []
    calls := q.calls ++ [⟨value, q.consumed⟩] }

/-- `try_dequeue`, which may miss an element that was just enqueued: `seen`
tells whether the head of the queue is visible. An element found joins the
total. -/
def tryDequeue (q : ResultQueueImpl F) (seen : Bool) (found : GetterStep)
    (missed : ResultQueueImpl F) : ResultQueueImpl F :=
  match seen, q.storeQueue with
  | true, e :: rest =>
      { q with
        storeQueue := rest
        total := q.total.appendNewSingleElementToEnd e
        consumed := q.consumed ++ [e]
        pc := found }
  | _, _ => missed

def finalStatuses : List GenerateRequestStatus :=
  [.generateFinished, .generateInterrupted, .internalError]

/-- One access of the running getter; `waited` is its `wait_duration` in
milliseconds. The warning that aborts the process on idle GPUs is left out. -/
def run (seen : Bool) (waited : Int) (q : ResultQueueImpl F) : ResultQueueImpl F :=
  match q.pc with
  | .idle => q
  | .testClosed timeoutMs =>
      if q.closed then q.return_ (some q.total) else { q with pc := .tryDequeue timeoutMs }
  | .tryDequeue timeoutMs =>
      q.tryDequeue seen (.drain timeoutMs) { q with pc := .testStatus timeoutMs finalStatuses }
  | .drain timeoutMs =>
      q.tryDequeue seen (.drain timeoutMs) { q with pc := .testClosed timeoutMs }
  | .testStatus timeoutMs (status :: rest) =>
      if q.status = status then { q with pc := .drainLast }
      else { q with pc := .testStatus timeoutMs rest }
  | .testStatus timeoutMs [] =>
      if 0 < q.total.idsFromGenerate.length then q.return_ (some q.total)
      else if 0 < timeoutMs ∧ timeoutMs ≤ waited then q.return_ none
      else if 10 * 1000 ≤ waited then { q with pc := .testClosedAfterWarning timeoutMs }
      else { q with pc := .testClosed timeoutMs }
  | .drainLast => q.tryDequeue seen .drainLast (q.return_ (some q.total))
  | .testClosedAfterWarning timeoutMs =>
      if q.closed then q.return_ (some q.total) else { q with pc := .testClosed timeoutMs }
  | .noWaitTestClosed =>
      if q.closed then q.return_ (some q.total) else { q with pc := .noWaitTryDequeue }
  | .noWaitTryDequeue => q.tryDequeue seen .noWaitTestClosed (q.return_ (some q.total))

end ResultQueueImpl

inductive QueueEvent (F : Type) where
  | append (e : NewElements F)
  | setStatus (status : GenerateRequestStatus)
  /-- The destructor of the queue. -/
  | close
  | call (getter : Getter)
  | run (seen : Bool) (waited : Int)

namespace ResultQueueImpl

def next (event : QueueEvent F) (q : ResultQueueImpl F) : ResultQueueImpl F :=
  match event with
  | .append e => q.appendGenerateElement e
  | .setStatus status => { q with status }
  | .close => { q with closed := true }
  | .call getter => q.call getter
  | .run seen waited => q.run seen waited

/-- The client has one call at a time. -/
def Allowed (q : ResultQueueImpl F) : QueueEvent F → Prop
  | .call _ => q.pc = .idle
  | _ => True

def Reaches : ResultQueueImpl F → Prop :=
  Reach (· = init) Allowed (fun event q q' => q.next event = q')

/-- What the calls have returned so far; null stands for nothing. -/
def returned (q : ResultQueueImpl F) : List (Tokens F) :=
  q.calls.map fun c => (c.value.map (·.toTokens)).getD .empty

/-- What was returned, what the running call holds and what is stored make up
all that was appended, and null is returned by calls that took nothing. -/
structure LosesNothing (q : ResultQueueImpl F) : Prop where
  delivered : ((Tokens.concat q.returned).append q.total.toTokens).append
      (Tokens.concat (q.storeQueue.map (·.toTokens))) =
    Tokens.concat (q.appended.map (·.toTokens))
  null : ∀ c ∈ q.calls, c.value = none → c.consumed = []

/-- The elements taken from the queue so far. -/
def taken (q : ResultQueueImpl F) : List (NewElements F) :=
  q.calls.flatMap (·.consumed) ++ q.consumed

/-- What a call gathers from an element is the first entry of its lists. -/
structure Inv (q : ResultQueueImpl F) : Prop where
  appended : q.appended = q.taken ++ q.storeQueue
  total : q.total.toTokens = Tokens.concat (q.consumed.map fun e => e.toTokens.first)
  calls : ∀ c ∈ q.calls, (c.value.map (·.toTokens)).getD .empty =
    Tokens.concat (c.consumed.map fun e => e.toTokens.first)
  null : ∀ c ∈ q.calls, c.value = none → c.consumed = []
  idle : q.pc = .idle → q.consumed = []

theorem inv_init : Inv (init : ResultQueueImpl F) where
  appended := rfl
  total := rfl
  calls _ hc := absurd hc List.not_mem_nil
  null _ hc := absurd hc List.not_mem_nil
  idle _ := rfl

variable {q : ResultQueueImpl F}

theorem Inv.goto (h : q.Inv) {pc : GetterStep} (hpc : pc ≠ .idle) : Inv { q with pc } where
  appended := h.appended
  total := h.total
  calls := h.calls
  null := h.null
  idle hidle := absurd hidle hpc

theorem Inv.call (h : q.Inv) (hidle : q.pc = .idle) (getter : Getter) :
    Inv (q.call getter) where
  appended := h.appended
  total := by
    change Tokens.empty = Tokens.concat (q.consumed.map _)
    rw [h.idle hidle]
    rfl
  calls := h.calls
  null := h.null
  idle _ := h.idle hidle

theorem Inv.return_ (h : q.Inv) {value : Option (GeneratedElements F)}
    (hvalue : (value.map (·.toTokens)).getD .empty = q.total.toTokens)
    (hnull : value = none → q.consumed = []) : Inv (q.return_ value) where
  appended := by
    rw [show (q.return_ value).appended = q.appended from rfl, h.appended]
    simp [taken, ResultQueueImpl.return_]
  total := rfl
  calls c hc := by
    rcases List.mem_append.mp hc with hc | hc
    · exact h.calls c hc
    · rw [List.mem_singleton.mp hc, hvalue, h.total]
  null c hc hnone := by
    rcases List.mem_append.mp hc with hc | hc
    · exact h.null c hc hnone
    · rw [List.mem_singleton.mp hc] at hnone ⊢
      exact hnull hnone
  idle _ := rfl

/-- A call that holds no id has taken nothing: every element has one. -/
theorem Inv.consumed_eq_nil (h : q.Inv) (hempty : ¬ 0 < q.total.idsFromGenerate.length) :
    q.consumed = [] := by
  rw [h.total, Tokens.length_concat_first] at hempty
  exact List.length_eq_zero_iff.mp (by omega)

theorem Inv.tryDequeue (h : q.Inv) {seen : Bool} {found : GetterStep}
    {missed : ResultQueueImpl F} (hfound : found ≠ .idle) (hmissed : missed.Inv) :
    Inv (q.tryDequeue seen found missed) := by
  unfold ResultQueueImpl.tryDequeue
  split
  · next e rest hstore =>
      refine ⟨?_, ?_, h.calls, h.null, fun hidle => absurd hidle hfound⟩
      · rw [h.appended, hstore]
        simp [taken]
      · rw [appendNewSingleElementToEnd_toTokens, h.total]
        simp [Tokens.concat_append]
  · exact hmissed

theorem Inv.run (h : q.Inv) (seen : Bool) (waited : Int) : Inv (q.run seen waited) := by
  have hreturn : Inv (q.return_ (some q.total)) := h.return_ rfl (fun hnone => by cases hnone)
  unfold ResultQueueImpl.run
  split
  · exact h
  · split
    · exact hreturn
    · exact h.goto (by simp)
  · exact h.tryDequeue (by simp) (h.goto (by simp))
  · exact h.tryDequeue (by simp) (h.goto (by simp))
  · split
    · exact h.goto (by simp)
    · exact h.goto (by simp)
  · split
    · exact hreturn
    · next hempty =>
        have hnothing := h.consumed_eq_nil hempty
        split
        · exact h.return_ (by rw [h.total, hnothing]; rfl) (fun _ => hnothing)
        · split
          · exact h.goto (by simp)
          · exact h.goto (by simp)
  · exact h.tryDequeue (by simp) hreturn
  · split
    · exact hreturn
    · exact h.goto (by simp)
  · split
    · exact hreturn
    · exact h.goto (by simp)
  · exact h.tryDequeue (by simp) hreturn

theorem Inv.next (h : q.Inv) {event : QueueEvent F} (hallowed : q.Allowed event) :
    Inv (q.next event) := by
  cases event with
  | append e =>
      refine ⟨?_, h.total, h.calls, h.null, h.idle⟩
      change q.appended ++ [e] = q.taken ++ (q.storeQueue ++ [e])
      rw [h.appended, List.append_assoc]
  | setStatus status => exact ⟨h.appended, h.total, h.calls, h.null, h.idle⟩
  | close => exact ⟨h.appended, h.total, h.calls, h.null, h.idle⟩
  | call getter => exact h.call hallowed getter
  | run seen waited => exact h.run seen waited

theorem Reaches.inv (h : q.Reaches) : q.Inv :=
  Reach.invariant (fun _ hinit => hinit ▸ inv_init)
    (fun _ _ _ hinv hallowed hstep => hstep ▸ hinv.next hallowed) h

theorem Reaches.run (h : q.Reaches) (seen : Bool) (waited : Int) :
    (q.next (.run seen waited)).Reaches :=
  .step (a := .run seen waited) h trivial rfl

/-- What has been returned is what was gathered from the elements taken. -/
theorem Inv.gathered (h : q.Inv) :
    (Tokens.concat q.returned).append q.total.toTokens =
      Tokens.concat (q.taken.map fun e => e.toTokens.first) := by
  have hcalls : ∀ calls : List (Returned F), (∀ c ∈ calls, c ∈ q.calls) →
      Tokens.concat (calls.map fun c => (c.value.map (·.toTokens)).getD .empty) =
        Tokens.concat ((calls.flatMap (·.consumed)).map fun e => e.toTokens.first) := by
    intro calls
    induction calls with
    | nil => intro _; rfl
    | cons c rest ih =>
        intro hmem
        rw [List.map_cons, Tokens.concat_cons, h.calls c (hmem c List.mem_cons_self),
          ih (fun d hd => hmem d (List.mem_cons_of_mem _ hd)), List.flatMap_cons, List.map_append,
          Tokens.concat_append]
  rw [returned, hcalls q.calls (fun _ hc => hc), h.total, taken, List.map_append,
    Tokens.concat_append]

/-- Nothing is lost so far exactly if every element taken had a single id. -/
theorem Inv.delivered_iff (h : q.Inv) :
    q.LosesNothing ↔ ∀ e ∈ q.taken, e.idsFromGenerate.length = 1 := by
  have hdelivered : ((Tokens.concat q.returned).append q.total.toTokens).append
      (Tokens.concat (q.storeQueue.map (·.toTokens))) =
        Tokens.concat (q.appended.map (·.toTokens)) ↔
      ∀ e ∈ q.taken, e.idsFromGenerate.length = 1 := by
    rw [h.gathered, h.appended, List.map_append, Tokens.concat_append, Tokens.append_left_inj,
      Tokens.concat_first_iff]
  exact ⟨fun hlose => hdelivered.mp hlose.delivered, fun hone => ⟨hdelivered.mpr hone, h.null⟩⟩

/-- The engine appends, then the client asks without waiting. -/
theorem Reaches.append_all (es : List (NewElements F)) :
    ∃ q : ResultQueueImpl F, q.Reaches ∧ q.appended = es ∧ q.storeQueue = es ∧
      q.pc = .noWaitTestClosed ∧ q.closed = false := by
  have happend : ∃ q : ResultQueueImpl F, q.Reaches ∧ q.appended = es ∧ q.storeQueue = es ∧
      q.pc = .idle ∧ q.closed = false := by
    induction es using List.reverseRecOn with
    | nil => exact ⟨init, .init rfl, rfl, rfl, rfl, rfl⟩
    | append_singleton es e ih =>
        obtain ⟨q, hreach, happended, hstore, hpc, hclosed⟩ := ih
        refine ⟨q.next (.append e), .step (a := .append e) hreach trivial rfl, ?_, ?_, hpc, hclosed⟩
        · exact congrArg (· ++ [e]) happended
        · exact congrArg (· ++ [e]) hstore
  obtain ⟨q, hreach, happended, hstore, hpc, hclosed⟩ := happend
  exact ⟨q.next (.call .getNoWait), .step (a := .call .getNoWait) hreach hpc rfl, happended, hstore, rfl, hclosed⟩

/-- A call that does not wait empties a queue that stays open. -/
theorem Reaches.take_all (rest : List (NewElements F)) (hreach : q.Reaches)
    (hstore : q.storeQueue = rest) (hpc : q.pc = .noWaitTestClosed) (hclosed : q.closed = false) :
    ∃ q' : ResultQueueImpl F, q'.Reaches ∧ q'.appended = q.appended ∧ q'.storeQueue = [] := by
  induction rest generalizing q with
  | nil => exact ⟨q, hreach, rfl, hstore⟩
  | cons e rest ih =>
      let opened : ResultQueueImpl F := { q with pc := .noWaitTryDequeue }
      let taken : ResultQueueImpl F :=
        { opened with
          storeQueue := rest
          total := q.total.appendNewSingleElementToEnd e
          consumed := q.consumed ++ [e]
          pc := .noWaitTestClosed }
      have htest : q.next (.run true 0) = opened := by
        simp [ResultQueueImpl.next, ResultQueueImpl.run, hpc, hclosed, opened]
      have htake : opened.next (.run true 0) = taken := by
        simp [ResultQueueImpl.next, ResultQueueImpl.run, ResultQueueImpl.tryDequeue, hstore,
          opened, taken]
      have hopened : opened.Reaches := htest ▸ hreach.run true 0
      have htaken : taken.Reaches := htake ▸ hopened.run true 0
      exact ih (q := taken) htaken rfl rfl hclosed

/-- For elements `es` in the order appended: no interleaving of the getters
loses anything exactly if every element has a single id. -/
theorem losesNothing_iff (es : List (NewElements F)) :
    (∀ q : ResultQueueImpl F, q.Reaches → q.appended = es → q.LosesNothing) ↔
      ∀ e ∈ es, e.idsFromGenerate.length = 1 := by
  constructor
  · intro h
    obtain ⟨q, hreach, happended, hstore, hpc, hclosed⟩ := Reaches.append_all es
    obtain ⟨q', hreach', happended', hstore'⟩ := hreach.take_all es hstore hpc hclosed
    have hlose := h q' hreach' (happended'.trans happended)
    have htaken := hreach'.inv.appended
    rw [happended', happended, hstore', List.append_nil] at htaken
    rw [htaken]
    exact hreach'.inv.delivered_iff.mp hlose
  · intro hone q hreach happended
    apply hreach.inv.delivered_iff.mpr
    intro e he
    apply hone
    rw [← happended, hreach.inv.appended]
    exact List.mem_append_left _ he

def twoTokens : NewElements Float where
  toGeneratedElements := ⟨⟨[7, 8], [], []⟩, 0, 0, 0⟩
  ids_ne_nil := List.cons_ne_nil _ _
  logProbs_length := .inl rfl
  tokenLogprobs_length := .inl rfl

/-- Two tokens that arrive in one element: the client gets the first one. -/
theorem returns_first_of_two : ∃ q : ResultQueueImpl Float, q.Reaches ∧
    q.pc = .idle ∧ q.storeQueue = [] ∧
    q.appended.map (·.idsFromGenerate) = [[7, 8]] ∧
    q.calls.map (fun c => c.value.map (·.idsFromGenerate)) = [some [7]] ∧ ¬ q.LosesNothing := by
  have happend : (init.next (.append twoTokens)).Reaches :=
    .step (a := .append twoTokens) (.init rfl) trivial rfl
  have hcall : ((init.next (.append twoTokens)).next (.call .getNoWait)).Reaches :=
    .step (a := .call .getNoWait) happend (show (init.next (.append twoTokens)).pc = .idle from rfl)
      rfl
  have hdone := (((hcall.run true 0).run true 0).run true 0).run true 0
  refine ⟨_, hdone, rfl, rfl, rfl, rfl, fun hlose => ?_⟩
  have hone := hdone.inv.delivered_iff.mp hlose twoTokens List.mem_cons_self
  exact absurd hone (by simp [twoTokens])

end ResultQueueImpl

end DashInfer.Serving
