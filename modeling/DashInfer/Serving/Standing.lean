import DashInfer.Serving.Model
import Mathlib.Logic.Relation

/-!
The life of one request, apart from all others: what can happen to it while it
is pending, while it runs, and after. What is delivered, whether a request ends
and whether its LoRA is released are facts about such lives.
-/

namespace DashInfer.Serving

/-- Where a request is: in the pending queue, among the running contexts with
the position of its last token, or in neither. -/
inductive Place where
  | pending
  | running (step : Nat)
  | gone
deriving DecidableEq, Repr

structure Standing where
  request : Request
  place : Place

/-- What can happen to a request. -/
inductive Occurrence where
  /-- Its prefill advances, or a chunk of it runs. -/
  | prefilled
  | chunked
  /-- It is stopped while pending; `shown` if its output tensor reaches past
  its prompt. -/
  | dropped (shown : Bool)
  /-- It finds no frames, or not its LoRA. -/
  | interrupted
  | loraMissing
  /-- Its context step fails, before it is listed, after, or in the graph. -/
  | refused
  | halted
  | failed
  /-- Its context step throws, and is stopped, or cannot be stopped. -/
  | raised
  | stuck
  /-- Its context step generates the first token. -/
  | ran
  /-- A context that is not its own writes its output tensor. -/
  | scribbled
  /-- A decoder step generates a token. -/
  | decoded
  /-- It is finished or stopped while running, or that fails. -/
  | finished
  | stopFailed
deriving DecidableEq, Repr

/-- The output tensor after the first token. -/
def Request.withFirst (r : Request) (token : Int) : Request :=
  { r with
    outputs :=
      { data := fun i => (r.content.inputIds ++ [token]).getD i (r.outputs.data i)
        length := r.inputLen + 1 }
    generated := r.generated ++ [token] }

/-- The output tensor after a token at a position. -/
def Request.withNext (r : Request) (step : Nat) (token : Int) : Request :=
  { r with
    outputs := { data := Function.update r.outputs.data step token, length := step + 1 }
    generated := r.generated ++ [token] }

inductive Move : Occurrence → Standing → Standing → Prop
  | prefilled (r p n) : Move .prefilled ⟨r, p⟩ ⟨{ r with prefillChunkLen := n }, p⟩
  | chunked (r) (out : GeneratedIds) : out.length ≤ r.inputLen →
      Move .chunked ⟨r, .pending⟩ ⟨{ r with outputs := out }, .pending⟩
  | dropped (r) : Move (.dropped (r.inputLen < r.outputs.length)) ⟨r, .pending⟩
      ⟨{ r with status := .generateFinished, concluded := true }, .gone⟩
  | interrupted (r) : Move .interrupted ⟨r, .pending⟩
      ⟨{ r with finish := true, status := .generateInterrupted, concluded := true }, .gone⟩
  | loraMissing (r) : Move .loraMissing ⟨r, .pending⟩
      ⟨{ r with status := .generateFinished, finish := true, concluded := true }, .gone⟩
  | refused (r) : Move .refused ⟨r, .pending⟩ ⟨{ r with concluded := true }, .gone⟩
  | halted (r step) : Move .halted ⟨r, .pending⟩ ⟨{ r with concluded := true }, .running step⟩
  | failed (r step) : Move .failed ⟨r, .pending⟩
      ⟨{ r with concluded := true, status := .contextFinished }, .running step⟩
  | raised (r) (out : GeneratedIds) (more : List Int) : Move .raised ⟨r, .pending⟩
      ⟨{ r with
          outputs := out, generated := r.generated ++ more, finish := true
          status := .generateInterrupted, concluded := true }, .gone⟩
  | stuck (r) (out : GeneratedIds) (more : List Int) (status step) :
      status = r.status ∨ status = .generateInterrupted → Move .stuck ⟨r, .pending⟩
      ⟨{ r with
          outputs := out, generated := r.generated ++ more, status := status
          concluded := true }, .running step⟩
  | ran (r token) : Move .ran ⟨r, .pending⟩ ⟨r.withFirst token, .running r.inputLen⟩
  | ranFinished (r token) : Move .ran ⟨r, .pending⟩
      ⟨{ r.withFirst token with status := .contextFinished }, .running r.inputLen⟩
  | scribbled (r p) (out : GeneratedIds) : Move .scribbled ⟨r, p⟩ ⟨{ r with outputs := out }, p⟩
  | decoded (r step token) : Move .decoded ⟨r, .running step⟩
      ⟨r.withNext (step + 1) token, .running (step + 1)⟩
  | finished (r step) : Move .finished ⟨r, .running step⟩
      ⟨{ r with finish := true, status := .generateFinished, concluded := true }, .gone⟩
  | stopFailed (r step) : Move .stopFailed ⟨r, .running step⟩
      ⟨{ r with concluded := true }, .running step⟩

/-- Some of the allowed occurrences, one after the other. -/
def Path (allowed : Occurrence → Prop) : Standing → Standing → Prop :=
  Relation.ReflTransGen fun a b => ∃ o, allowed o ∧ Move o a b

section Rules

variable {allowed allowed' : Occurrence → Prop} {a b c : Standing}

theorem Path.refl : Path allowed a a := Relation.ReflTransGen.refl

theorem Path.single {o : Occurrence} (ho : allowed o) (h : Move o a b) : Path allowed a b :=
  Relation.ReflTransGen.single ⟨o, ho, h⟩

theorem Path.trans (h : Path allowed a b) (h' : Path allowed b c) : Path allowed a c :=
  Relation.ReflTransGen.trans h h'

/-- What every allowed occurrence keeps holds at the end. -/
theorem Path.invariant {I : Standing → Prop} (h : Path allowed a b)
    (hmove : ∀ o a b, allowed o → Move o a b → I a → I b) (ha : I a) : I b := by
  induction h with
  | refl => exact ha
  | tail _ hlast ih =>
      obtain ⟨o, ho, hstep⟩ := hlast
      exact hmove o _ _ ho hstep ih

end Rules

theorem Move.pending {o : Occurrence} {a b : Standing} (h : Move o a b)
    (hpending : b.place = .pending) : a.place = .pending := by
  cases h with
  | prefilled => exact hpending
  | chunked => rfl
  | scribbled => exact hpending
  | _ => cases hpending

theorem Path.pending {allowed : Occurrence → Prop} {a b : Standing} (h : Path allowed a b)
    (hpending : b.place = .pending) : a.place = .pending :=
  h.invariant (I := fun c => c.place = .pending → a.place = .pending)
    (fun _ _ _ _ hmove ih hplace => ih (hmove.pending hplace)) id hpending

/-- Nothing has been done for the request yet. -/
structure Request.Fresh (r : Request) : Prop where
  status : r.status = .init
  finish : r.finish = false
  concluded : r.concluded = false
  generated : r.generated = []

def Standing.Fresh (a : Standing) : Prop := a.place = .pending → a.request.Fresh

theorem Move.fresh {o : Occurrence} {a b : Standing} (h : Move o a b) (hfresh : a.Fresh) :
    b.Fresh := by
  intro hpending
  cases h with
  | prefilled r p n =>
      obtain ⟨h1, h2, h3, h4⟩ := hfresh hpending
      exact ⟨h1, h2, h3, h4⟩
  | chunked r out _ =>
      obtain ⟨h1, h2, h3, h4⟩ := hfresh rfl
      exact ⟨h1, h2, h3, h4⟩
  | scribbled r p out =>
      obtain ⟨h1, h2, h3, h4⟩ := hfresh hpending
      exact ⟨h1, h2, h3, h4⟩
  | _ => cases hpending

/-- What a request keeps over its life. -/
structure Request.Extends (r r' : Request) : Prop where
  content : r'.content = r.content
  generated : r.generated <+: r'.generated
  finish : r.finish = true → r'.finish = true

theorem Request.Extends.rfl {r : Request} : r.Extends r := ⟨by rfl, List.prefix_rfl, id⟩

theorem Request.Extends.trans {r r' r'' : Request} (h : r.Extends r') (h' : r'.Extends r'') :
    r.Extends r'' :=
  ⟨h'.content.trans h.content, h.generated.trans h'.generated, h'.finish ∘ h.finish⟩

theorem Move.extends {o : Occurrence} {a b : Standing} (h : Move o a b) :
    a.request.Extends b.request := by
  cases h with
  | raised r out more => exact ⟨rfl, List.prefix_append _ _, fun _ => rfl⟩
  | stuck r out more status step => exact ⟨rfl, List.prefix_append _ _, id⟩
  | ran r token => exact ⟨rfl, List.prefix_append _ _, id⟩
  | ranFinished r token => exact ⟨rfl, List.prefix_append _ _, id⟩
  | decoded r step token => exact ⟨rfl, List.prefix_append _ _, id⟩
  | interrupted r => exact ⟨rfl, List.prefix_rfl, fun _ => rfl⟩
  | loraMissing r => exact ⟨rfl, List.prefix_rfl, fun _ => rfl⟩
  | finished r step => exact ⟨rfl, List.prefix_rfl, fun _ => rfl⟩
  | _ => exact ⟨rfl, List.prefix_rfl, id⟩

theorem Path.extends {allowed : Occurrence → Prop} {a b : Standing} (h : Path allowed a b) :
    a.request.Extends b.request :=
  h.invariant (I := fun c => a.request.Extends c.request)
    (fun _ _ _ _ hmove hext => hext.trans hmove.extends) .rfl

/-!
Where each request stands in the model, and what it means that a step of the
model is, for every request, a sequence of occurrences of its life. A request
is pending or running at most once.
-/

open Lib

variable {allowed allowed' : Uuid → Occurrence → Prop} {m m' m'' : AsModel} {u v : Uuid}
  {ctx : GenerateContext} {l : List GenerateContext}

/-- The requests with a context of their own. -/
def runningUuids (l : List GenerateContext) : List Uuid :=
  l.filterMap fun ctx => if ctx.id.chunk then none else some ctx.id.uuid

theorem mem_runningUuids : u ∈ runningUuids l ↔ ∃ ctx ∈ l, ctx.id = ⟨u, false⟩ := by
  rw [runningUuids, List.mem_filterMap]
  refine exists_congr fun ctx => and_congr_right fun _ => ?_
  obtain ⟨⟨uuid, chunk⟩, step, maxLength, finish⟩ := ctx
  cases chunk <;> simp

theorem runningUuids_cons (ctx : GenerateContext) (l : List GenerateContext) :
    runningUuids (ctx :: l) =
      (if ctx.id.chunk then [] else [ctx.id.uuid]) ++ runningUuids l := by
  rw [runningUuids, List.filterMap_cons]
  cases ctx.id.chunk <;> rfl

theorem runningUuids_append (l l' : List GenerateContext) :
    runningUuids (l ++ l') = runningUuids l ++ runningUuids l' := List.filterMap_append

/-- One request, one context. -/
theorem eq_of_running (hnodup : (runningUuids l).Nodup) {ctx' : GenerateContext}
    (hmem : ctx ∈ l) (hmem' : ctx' ∈ l) (hid : ctx.id = ⟨u, false⟩) (hid' : ctx'.id = ⟨u, false⟩) :
    ctx = ctx' := by
  induction l with
  | nil => cases hmem
  | cons head rest ih =>
      rw [runningUuids_cons, List.nodup_append] at hnodup
      obtain ⟨_, hrest, hdisjoint⟩ := hnodup
      have hhead : ∀ c ∈ rest, c.id = ⟨u, false⟩ → head.id ≠ ⟨u, false⟩ := by
        intro c hc hcid hheadid
        exact hdisjoint u (by simp [hheadid]) u (mem_runningUuids.mpr ⟨c, hc, hcid⟩) rfl
      rcases List.mem_cons.mp hmem with heq | hin <;>
        rcases List.mem_cons.mp hmem' with heq' | hin'
      · rw [heq, heq']
      · exact absurd (heq ▸ hid) (hhead ctx' hin' hid')
      · exact absurd (heq' ▸ hid') (hhead ctx hin hid)
      · exact ih hrest hin hin'

namespace AsModel

/-- The requests that wait or run. -/
def live (m : AsModel) : List Uuid := m.pendingRequestQueue ++ runningUuids m.genCtxList

def place (m : AsModel) (u : Uuid) : Place :=
  if u ∈ m.pendingRequestQueue then .pending
  else
    match m.genCtxList.find? fun ctx => ctx.id = ⟨u, false⟩ with
    | some ctx => .running ctx.step
    | none => .gone

def standing (m : AsModel) (u : Uuid) : Standing := ⟨m.requests u, m.place u⟩

theorem place_of_pending (h : u ∈ m.pendingRequestQueue) : m.place u = .pending := if_pos h

theorem place_of_running (hnodup : m.live.Nodup) (hmem : ctx ∈ m.genCtxList)
    (hid : ctx.id = ⟨u, false⟩) : m.place u = .running ctx.step := by
  obtain ⟨_, hrun, hdisjoint⟩ := List.nodup_append.mp hnodup
  have hpending : u ∉ m.pendingRequestQueue := fun h =>
    hdisjoint u h u (mem_runningUuids.mpr ⟨ctx, hmem, hid⟩) rfl
  rw [place, if_neg hpending]
  cases hfind : m.genCtxList.find? fun c => c.id = ⟨u, false⟩ with
  | none =>
      have hnone := List.find?_eq_none.mp hfind ctx hmem
      simp [hid] at hnone
  | some found =>
      have hfound := List.find?_some hfind
      rw [eq_of_running hrun (List.mem_of_find?_eq_some hfind) hmem (by simpa using hfound) hid]

theorem place_of_not_live (h : u ∉ m.live) : m.place u = .gone := by
  rw [live, List.mem_append, not_or] at h
  rw [place, if_neg h.1]
  cases hfind : m.genCtxList.find? fun c => c.id = ⟨u, false⟩ with
  | none => rfl
  | some found =>
      have hfound := List.find?_some hfind
      exact absurd (mem_runningUuids.mpr
        ⟨found, List.mem_of_find?_eq_some hfind, by simpa using hfound⟩) h.2

theorem place_eq_pending : m.place u = .pending ↔ u ∈ m.pendingRequestQueue := by
  rw [place]
  constructor
  · intro h
    by_contra hnot
    rw [if_neg hnot] at h
    cases hfind : m.genCtxList.find? fun c => c.id = ⟨u, false⟩ <;> simp [hfind] at h
  · intro h
    exact if_pos h

/-- The place of a request depends on its own entries only. -/
theorem place_congr (hnodup : m.live.Nodup) (hnodup' : m'.live.Nodup)
    (hpending : u ∈ m'.pendingRequestQueue ↔ u ∈ m.pendingRequestQueue)
    (hrunning : ∀ ctx, ctx.id = ⟨u, false⟩ → (ctx ∈ m'.genCtxList ↔ ctx ∈ m.genCtxList)) :
    m'.place u = m.place u := by
  by_cases hpend : u ∈ m.pendingRequestQueue
  · rw [place_of_pending hpend, place_of_pending (hpending.mpr hpend)]
  · by_cases hrun : u ∈ runningUuids m.genCtxList
    · obtain ⟨ctx, hmem, hid⟩ := mem_runningUuids.mp hrun
      rw [place_of_running hnodup hmem hid,
        place_of_running hnodup' ((hrunning ctx hid).mpr hmem) hid]
    · have hgone : u ∉ m.live := by
        rw [live, List.mem_append, not_or]
        exact ⟨hpend, hrun⟩
      have hgone' : u ∉ m'.live := by
        rw [live, List.mem_append, not_or, mem_runningUuids]
        refine ⟨fun h => hpend (hpending.mp h), ?_⟩
        rintro ⟨ctx, hmem, hid⟩
        exact hrun (mem_runningUuids.mpr ⟨ctx, (hrunning ctx hid).mp hmem, hid⟩)
      rw [place_of_not_live hgone, place_of_not_live hgone']

end AsModel

/-- A step of the model, as the requests see it. -/
structure Refines (allowed : Uuid → Occurrence → Prop) (m m' : AsModel) : Prop where
  nodup : m'.live.Nodup
  live : ∀ u ∈ m'.live, u ∈ m.live
  known : m'.allRequestMap = m.allRequestMap
  path : ∀ u, Path (allowed u) (m.standing u) (m'.standing u)

theorem Refines.refl (hnodup : m.live.Nodup) : Refines allowed m m :=
  ⟨hnodup, fun _ => id, rfl, fun _ => .refl⟩

theorem Refines.trans (h : Refines allowed m m') (h' : Refines allowed m' m'') :
    Refines allowed m m'' :=
  ⟨h'.nodup, fun u hu => h.live u (h'.live u hu), h'.known.trans h.known,
    fun u => (h.path u).trans (h'.path u)⟩

/-- Whoever waits has waited. -/
theorem Refines.pending (h : Refines allowed m m') (hpending : u ∈ m'.pendingRequestQueue) :
    u ∈ m.pendingRequestQueue := by
  rw [← AsModel.place_eq_pending] at hpending ⊢
  exact (h.path u).pending hpending

/-- Models that differ in nothing a request sees. -/
theorem Refines.congr (h : Refines allowed m m') (hlive : m''.live = m'.live)
    (hknown : m''.allRequestMap = m'.allRequestMap)
    (hstanding : ∀ u, m''.standing u = m'.standing u) : Refines allowed m m'' :=
  ⟨hlive ▸ h.nodup, fun u hu => h.live u (hlive ▸ hu), hknown.trans h.known,
    fun u => hstanding u ▸ h.path u⟩

/-- A step that concerns one request and leaves the entries of the others. -/
theorem Refines.single (hnodup : m.live.Nodup) (hnodup' : m'.live.Nodup)
    (hlive : ∀ v ∈ m'.live, v ∈ m.live) (hknown : m'.allRequestMap = m.allRequestMap)
    (hothers : ∀ v, v ≠ u → m'.requests v = m.requests v ∧
      (v ∈ m'.pendingRequestQueue ↔ v ∈ m.pendingRequestQueue) ∧
      ∀ ctx, ctx.id = ⟨v, false⟩ → (ctx ∈ m'.genCtxList ↔ ctx ∈ m.genCtxList))
    (hown : Path (allowed u) (m.standing u) (m'.standing u)) : Refines allowed m m' := by
  refine ⟨hnodup', hlive, hknown, fun v => ?_⟩
  by_cases hv : v = u
  · exact hv ▸ hown
  · obtain ⟨hreq, hpending, hrunning⟩ := hothers v hv
    rw [AsModel.standing, AsModel.standing, hreq,
      AsModel.place_congr hnodup hnodup' hpending hrunning]
    exact .refl

end DashInfer.Serving
