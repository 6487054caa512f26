import DashInfer.Serving.QueueLife
import DashInfer.Serving.Transitions
import Mathlib.Data.Multiset.Count

/-!
The LoRA uses. A use is taken by `StartRequest` and released by `UpdateResult`
when it sees the request finished. As long as no request is stopped or released
while it waits, a use is released at most once, so that a LoRA is unloaded only
when no request needs it.
-/

namespace DashInfer.Serving

open Lib

/-- A request that is finished has its end flag. Only a stop while the request
waits breaks this. -/
def Standing.Closes (a : Standing) : Prop :=
  a.request.status = .generateFinished → a.request.finish = true

theorem Move.closes {o : Occurrence} {a b : Standing} (hmove : Move o a b)
    (hstop : ∀ shown, o ≠ .dropped shown) (h : a.Closes) : b.Closes := by
  intro hfinished
  cases hmove with
  | dropped r => exact absurd rfl (hstop _)
  | stuck r out more status step hstatus =>
      rcases hstatus with rfl | rfl
      · exact h hfinished
      · cases hfinished
  | interrupted r => rfl
  | loraMissing r => rfl
  | raised r out more => rfl
  | finished r step => rfl
  | failed r step => cases hfinished
  | ranFinished r token => cases hfinished
  | prefilled r p n => exact h hfinished
  | chunked r out hout => exact h hfinished
  | refused r => exact h hfinished
  | halted r step => exact h hfinished
  | ran r token => exact h hfinished
  | scribbled r p out => exact h hfinished
  | decoded r step token => exact h hfinished
  | stopFailed r step => exact h hfinished

namespace Engine

/-- The registered requests with this LoRA whose queue has not ended. -/
def openRequests (s : Engine) (name : String) : Finset Uuid :=
  s.model.allRequestMap.filter fun u =>
    (s.model.requests u).content.loraName = name ∧
      (s.queue? u).map (fun queue => queue.status.terminal) = some false

/-- The requests that need this LoRA: those whose start is under way, and those
registered whose queue has not ended. -/
def uses (s : Engine) (name : String) : Nat :=
  s.startingContents.countP (fun start => start.2.loraName = name) + (s.openRequests name).card

section Usage

variable (l : LoraUsage) (name : String) {other : String}

theorem count_acquire (h : other ≠ "") :
    (l.acquire name).names.count other =
      l.names.count other + if other = name then 1 else 0 := by
  unfold LoraUsage.acquire
  split
  · rename_i hempty
    simp [hempty, h]
  · simp [LoraUsage.names, Multiset.count_cons]

theorem count_giveBack (other : String) :
    l.names.count other ≤ (l.giveBack name).names.count other + if other = name then 1 else 0 := by
  unfold LoraUsage.giveBack
  split
  · rcases eq_or_ne other name with rfl | hne
    · simp [LoraUsage.names, Multiset.count_erase_self]
      omega
    · simp [LoraUsage.names, Multiset.count_erase_of_ne hne, hne]
  · simp

theorem count_release (other : String) :
    l.names.count other ≤ (l.release name).names.count other + if other = name then 1 else 0 := by
  unfold LoraUsage.release
  split
  · rcases eq_or_ne other name with rfl | hne
    · simp [LoraUsage.names, Multiset.count_erase_self]
      omega
    · simp [LoraUsage.names, Multiset.count_erase_of_ne hne, hne]
  · simp

end Usage

section Step

variable {cfg : Config} {s t : Engine} {allowed : Uuid → Occurrence → Prop} {u : Uuid}
  {name : String}

theorem mem_openRequests :
    u ∈ s.openRequests name ↔ u ∈ s.model.allRequestMap ∧
      (s.model.requests u).content.loraName = name ∧
      ∃ queue, s.queue? u = some queue ∧ queue.status.terminal = false := by
  simp [openRequests]

/-- Whoever needs a LoRA after a step needed it before, or was started. -/
theorem Effect.open (heffect : Effect allowed s t) (hsound : s.Sound) (name : String) :
    t.openRequests name ⊆ s.openRequests name ∨
      ∃ new content, new ∈ s.starting ∧ new ∉ t.starting ∧
        (new, content) ∈ s.startingContents ∧
        t.openRequests name ⊆
          if content.loraName = name then insert new (s.openRequests name)
          else s.openRequests name := by
  have hgrows : ∀ v queue', t.queue? v = some queue' → queue'.status.terminal = false →
      (∃ queue, s.queue? v = some queue) →
      ∃ queue, s.queue? v = some queue ∧ queue.status.terminal = false := by
    rintro v queue' hqueue' hopen ⟨queue, hqueue⟩
    refine ⟨queue, hqueue, ?_⟩
    rcases heffect.grows hsound hqueue with ⟨queue'', hqueue'', hkept⟩ | hnone
    · obtain rfl : queue' = queue'' := by simpa [hqueue'] using hqueue''
      by_contra hterminal
      have hsame := hkept.final (by simpa using hterminal)
      simp [← hsame, hopen] at hterminal
    · simp [hqueue'] at hnone
  have hsub : ∀ {m : AsModel}, Refines allowed s.model m → ∀ v,
      (∃ queue', t.queue? v = some queue' ∧ queue'.status.terminal = false) →
      v ∈ m.allRequestMap → (m.requests v).content.loraName = name →
      v ∈ s.openRequests name := by
    rintro m hrefines v ⟨queue', hqueue', hopen⟩ hknown hname
    rw [hrefines.known] at hknown
    have hcontent := (hrefines.path v).extends.content
    refine mem_openRequests.mpr ⟨hknown, ?_, ?_⟩
    · rw [← hname]
      exact congrArg RequestContent.loraName hcontent.symm
    · exact hgrows v queue' hqueue' hopen ((hsound.queues v).mpr hknown)
  cases heffect with
  | moved hrefines _ _ =>
      left
      intro v hv
      obtain ⟨hknown, hname, hopen⟩ := mem_openRequests.mp hv
      exact hsub hrefines v hopen hknown hname
  | interrupted victim old hrefines _ _ _ _ =>
      left
      intro v hv
      obtain ⟨hknown, hname, hopen⟩ := mem_openRequests.mp hv
      exact hsub hrefines v hopen hknown hname
  | started cfg new content memory hstarting hgone hmodel _ hqueues hcontent =>
      right
      refine ⟨new, content, hstarting, hgone, hcontent, fun v hv => ?_⟩
      obtain ⟨hknown, hname, queue', hqueue', hopen⟩ := mem_openRequests.mp hv
      rw [hmodel] at hknown hname
      rcases eq_or_ne v new with rfl | hne
      · have hlora : content.loraName = name := by
          simpa [AsModel.startRequestImpl, Request.new] using hname
        simp [hlora]
      · have hold : v ∈ s.openRequests name := by
          apply mem_openRequests.mpr
          have hknown' : v ∈ s.model.allRequestMap := by
            simpa [AsModel.startRequestImpl, hne] using hknown
          refine ⟨hknown', by simpa [AsModel.startRequestImpl, hne] using hname, queue', ?_, hopen⟩
          simpa [hqueues, hne] using hqueue'
        split
        · exact Finset.mem_insert_of_mem hold
        · exact hold
  | released gone m hrefines hmodel _ _ =>
      left
      intro v hv
      obtain ⟨hknown, hname, hopen⟩ := mem_openRequests.mp hv
      rw [hmodel] at hknown hname
      exact hsub hrefines v hopen (Finset.mem_of_mem_erase hknown) hname
  | delivered v handle old hmodel _ _ _ _ =>
      left
      intro v hv
      obtain ⟨hknown, hname, queue', hqueue', hopen⟩ := mem_openRequests.mp hv
      rw [hmodel] at hknown hname
      exact mem_openRequests.mpr
        ⟨hknown, hname, hgrows v queue' hqueue' hopen ((hsound.queues v).mpr hknown)⟩

theorem startingContents_map (s : Engine) : s.startingContents.map Prod.fst = s.starting := by
  simp only [startingContents, starting, List.map_append, List.map_filterMap]
  congr 1
  · apply List.filterMap_congr
    intro msg _
    cases hbody : msg.body <;> simp [startContent?, startUuid?, hbody]
  · cases s.clients.loraLock with
    | none => rfl
    | some holder => cases holder <;> rfl

theorem SameStarts.contents (h : SameStarts s t) : t.startingContents = s.startingContents := by
  rw [startingContents, startingContents, h.messages, h.lock]

/-- The message taken out of the queue, and the starts that are left. -/
theorem startingContents_without {i : Nat} {msg : EngineControlMessage}
    (hget : s.control.msgQueue[i]? = some msg) :
    s.startingContents.Perm ((startContent? msg).toList ++ (s.without i).startingContents) := by
  obtain ⟨hi, rfl⟩ := List.getElem?_eq_some_iff.mp hget
  have hperm := (List.getElem_cons_eraseIdx_perm hi).filterMap startContent?
  rw [startingContents, startingContents, ← List.append_assoc]
  apply List.Perm.append_right
  apply hperm.symm.trans
  rw [List.filterMap_cons]
  cases startContent? s.control.msgQueue[i] with
  | none => exact .refl _
  | some start => exact .refl _

/-- The uses and the loaded LoRAs are as before. -/
structure SameUsage (s t : Engine) : Prop where
  usage : t.usage = s.usage
  loras : t.loras = s.loras

theorem sameUsage_handleMessage (cfg : Config) (s : Engine) (env : HandleEnv) (msg : EngineControlMessage) :
    SameUsage s (s.handleMessage cfg env msg) := by
  unfold handleMessage
  cases msg.body with
  | startRequest u content =>
      dsimp only
      unfold handleStartRequest
      split
      · exact ⟨rfl, rfl⟩
      · unfold emplace
        dsimp only
        split <;> split <;> exact ⟨rfl, rfl⟩
  | releaseRequest u =>
      dsimp only
      unfold handleReleaseRequest
      dsimp only
      have herase : ∀ q : Engine, SameUsage q (q.eraseEntries u) := by
        intro q
        unfold eraseEntries
        split <;> exact ⟨rfl, rfl⟩
      have herased := herase { (s.stopRequestById env.stop u).1 with
        model := (s.stopRequestById env.stop u).1.model.releaseRequest u }
      split <;> exact ⟨herased.usage, herased.loras⟩
  | _ => exact ⟨rfl, rfl⟩

theorem sameUsage_handleMemoryOut (s : Engine) (m : AsModel) (env : DecodeEnv) :
    SameUsage s ({ s with model := m }.handleMemoryOut cfg env) := by
  unfold handleMemoryOut
  split
  · exact ⟨rfl, rfl⟩
  · unfold interruptQueue
    split <;> exact ⟨rfl, rfl⟩

theorem sameUsage_finish (s : Engine) : SameUsage s s.finishSync.finishLoop := by
  have hsync : SameUsage s s.finishSync := by
    unfold finishSync
    split
    · dsimp only
      split <;> exact ⟨rfl, rfl⟩
    · exact ⟨rfl, rfl⟩
  have hanswer : ∀ (q : Engine) status, SameUsage q (q.answerGracefulStop status) := by
    intro q status
    unfold answerGracefulStop
    dsimp only
    split <;> exact ⟨rfl, rfl⟩
  have hloop : SameUsage s.finishSync s.finishSync.finishLoop := by
    unfold finishLoop
    split
    · split
      · obtain ⟨h1, h2⟩ := hanswer
          { s.finishSync with loop.gracefulFinalReleased := true } .success
        exact ⟨h1, h2⟩
      · exact hanswer _ _
    · exact ⟨rfl, rfl⟩
  exact ⟨hloop.usage.trans hsync.usage, hloop.loras.trans hsync.loras⟩

/-- `UpdateResult` releases a use for a finished request whose queue has not
ended. -/
theorem updateEntry_usage (s : Engine) (u : Uuid) :
    (s.updateEntry u).loras = s.loras ∧ ((s.updateEntry u).usage = s.usage ∨
      ∃ queue, s.queue? u = some queue ∧ queue.status.terminal = false ∧
        u ∈ s.model.allRequestMap ∧ (s.model.requests u).status = .generateFinished ∧
        (s.updateEntry u).usage =
          s.usage.release (s.model.requests u).content.loraName) := by
  have hsync : ∀ q : Engine, SameUsage q (q.updateSyncStatus u) := by
    intro q
    unfold updateSyncStatus
    split <;> exact ⟨rfl, rfl⟩
  have hclose : ∀ (q : Engine) request queue, SameUsage q (q.closeQueue u request queue) := by
    intro q request queue
    unfold closeQueue
    split
    · obtain ⟨h1, h2⟩ := hsync (q.putQueue u queue)
      exact ⟨h1, h2⟩
    · split
      · obtain ⟨h1, h2⟩ := hsync (q.putQueue u { queue with status := .generateFinished })
        exact ⟨h1, h2⟩
      · exact ⟨rfl, rfl⟩
  unfold updateEntry
  split
  · rename_i handle queue hhandle hqueue
    split
    · exact ⟨(hsync s).loras, .inl (hsync s).usage⟩
    · rename_i hopen
      split
      · exact ⟨rfl, .inl rfl⟩
      · rename_i request hget
        obtain ⟨hknown, rfl⟩ : u ∈ s.model.allRequestMap ∧ s.model.requests u = request := by
          simpa [AsModel.getRequestById] using hget
        split
        · exact ⟨rfl, .inl rfl⟩
        · split
          · obtain ⟨h1, h2⟩ := hsync (s.putQueue u { queue with status := .generateInterrupted })
            exact ⟨h2, .inl h1⟩
          · obtain ⟨h1, h2⟩ := hclose
              (s.putHandle u (deliver (s.model.requests u) handle queue).1)
              (s.model.requests u) (deliver (s.model.requests u) handle queue).2
            dsimp only
            unfold releaseLora
            split
            · rename_i hfinished
              refine ⟨h2, .inr ⟨queue, hqueue, by simpa using hopen, hknown, hfinished, ?_⟩⟩
              exact congrArg (LoraUsage.release _) h1
            · exact ⟨h2, .inl h1⟩
  · exact ⟨rfl, .inl rfl⟩

/-- A step takes no more uses than it counts, and only of a LoRA that is then
loaded. -/
structure Balanced (s t : Engine) (name : String) : Prop where
  uses : t.uses name + s.usage.names.count name ≤ s.uses name + t.usage.names.count name
  loaded : 0 < t.uses name → 0 < s.uses name ∨ name ∈ t.loras

theorem Balanced.of_le (hle : t.uses name ≤ s.uses name) (husage : t.usage = s.usage) :
    Balanced s t name := by
  constructor
  · rw [husage]
    omega
  · intro hpos
    exact .inl (hpos.trans_le hle)

/-- A step that starts no request. -/
theorem Effect.balanced (heffect : Effect allowed s t) (hsound : s.Sound)
    (hstarts : SameStarts s t) (husage : t.usage = s.usage) : Balanced s t name := by
  apply Balanced.of_le _ husage
  unfold uses
  rw [hstarts.contents]
  rcases heffect.open hsound name with hsub | ⟨new, content, hbefore, hafter, _⟩
  · exact Nat.add_le_add_left (Finset.card_le_card hsub) _
  · exact absurd (hstarts.starting ▸ hbefore) hafter

theorem balanced_message (hsound : s.Sound) {i : Nat} {env : HandleEnv}
    {msg : EngineControlMessage} (hget : s.control.msgQueue[i]? = some msg)
    (heffect : Effect allowed s ((s.without i).handleMessage cfg env msg)) :
    Balanced s ((s.without i).handleMessage cfg env msg) name := by
  have husage := (sameUsage_handleMessage cfg (s.without i) env msg).usage
  have hstarts : SameStarts (s.without i) ((s.without i).handleMessage cfg env msg) :=
    sameStarts_handleMessage _ env msg
  have hperm := startingContents_without hget
  apply Balanced.of_le (s := s) _ husage
  unfold uses
  rw [hstarts.contents, hperm.countP_eq, List.countP_append]
  rcases heffect.open hsound name with hsub | ⟨new, content, _, hafter, hmem, hsub⟩
  · have hcard := Finset.card_le_card hsub
    omega
  · -- the message is the one that starts the request
    have hown : (new, content) ∈ (startContent? msg).toList := by
      rcases List.mem_append.mp (hperm.mem_iff.mp hmem) with hown | hlater
      · exact hown
      · rw [hstarts.starting, ← startingContents_map] at hafter
        exact absurd (List.mem_map_of_mem hlater) hafter
    have hstart : (startContent? msg).toList = [(new, content)] := by
      cases hcontent : startContent? msg with
      | none => simp [hcontent] at hown
      | some start =>
          obtain rfl : (new, content) = start := by simpa [hcontent] using hown
          rfl
    rw [hstart]
    have hcard := Finset.card_le_card hsub
    split at hcard
    · rename_i hname
      have hinsert := Finset.card_insert_le new (s.openRequests name)
      simp only [List.countP_singleton, hname, decide_true, if_true]
      omega
    · omega

/-- The queue of a finished request ends when it is delivered. -/
theorem updated_finished {request : Request} (hstatus : request.status = .generateFinished)
    (hfinish : request.finish = true) (handle : RequestHandle) {queue : ResultQueue}
    (hopen : queue.status.terminal = false) :
    (updated request handle queue).2.1.status.terminal = true := by
  simp only [updated, hopen, hstatus, closed, hfinish]
  simp only [reduceCtorEq, Bool.false_eq_true, if_false, if_true]
  split
  · rename_i hinterrupted
    simp [hinterrupted, GenerateRequestStatus.terminal]
  · rfl

/-- `UpdateResult` releases a use only with the request that held it. -/
theorem balanced_updateEntry (hsound : s.Sound) (hcloses : ∀ u, (s.model.standing u).Closes)
    {decoded : Bool} {rest : Finset Uuid}
    (heffect : Effect allowed s { s.updateEntry u with loop.phase := .update decoded rest }) :
    Balanced s { s.updateEntry u with loop.phase := .update decoded rest } name := by
  obtain ⟨handles, queues, usage, sync, hframe⟩ := updateEntry_frame s u
  have hstarts : SameStarts s { s.updateEntry u with loop.phase := .update decoded rest } := by
    rw [hframe]
    exact ⟨rfl, rfl, rfl⟩
  obtain ⟨_, hsame | ⟨queue, hqueue, hopen, hknown, hfinished, hrelease⟩⟩ :=
    updateEntry_usage s u
  · exact heffect.balanced hsound hstarts hsame
  · have hsub : Engine.openRequests { s.updateEntry u with loop.phase := .update decoded rest }
        name ⊆ s.openRequests name := by
      rcases heffect.open hsound name with hsub | ⟨new, content, hbefore, hafter, _⟩
      · exact hsub
      · exact absurd (hstarts.starting ▸ hbefore) hafter
    constructor
    · have hcount := count_release s.usage (s.model.requests u).content.loraName name
      change _ + _ ≤ _ + (s.updateEntry u).usage.names.count name
      rw [hrelease]
      unfold uses
      rw [hstarts.contents]
      split at hcount
      · rename_i hname
        obtain ⟨handle, hhandle⟩ := (hsound.handles u).mpr hknown
        have hmem : u ∈ s.openRequests name :=
          mem_openRequests.mpr ⟨hknown, hname.symm, queue, hqueue, hopen⟩
        have hgone : u ∉ Engine.openRequests
            { s.updateEntry u with loop.phase := .update decoded rest } name := by
          intro hstill
          obtain ⟨_, _, queue', hqueue', hopen'⟩ := mem_openRequests.mp hstill
          have hafter : (s.updateEntry u).queue? u = some queue' := hqueue'
          rw [(updateEntry_spec hhandle hqueue hknown).2.1, Function.update_self] at hafter
          have hfinish := hcloses u hfinished
          have hend := updated_finished hfinished hfinish handle hopen
          simp [Option.some.inj hafter, hopen'] at hend
        have hcard := Finset.card_lt_card
          (Finset.ssubset_iff_subset_ne.mpr ⟨hsub, fun heq => hgone (heq ▸ hmem)⟩)
        omega
      · have hcard := Finset.card_le_card hsub
        omega
    · intro hpos
      left
      apply hpos.trans_le
      unfold uses
      rw [hstarts.contents]
      exact Nat.add_le_add_left (Finset.card_le_card hsub) _

theorem contents_holdLock {holder : Option LockHolder}
    (h : lockedContent holder = lockedContent s.clients.loraLock) :
    (s.holdLock holder).startingContents = s.startingContents :=
  congrArg (s.control.msgQueue.filterMap startContent? ++ ·) h

theorem startContent?_waiting (request : WaitingCall) (promise producer : Nat) :
    startContent? ⟨request.body, promise, producer⟩ = none := by
  cases request <;> rfl

/-- The start of a request that takes the lock. -/
theorem uses_locked (name : String) (usage : LoraUsage) (clients : Clients)
    (hlock : s.clients.loraLock = none) {content : RequestContent} {producer : Nat} {checked : Bool}
    (hheld : clients.loraLock = some (.starting u content producer checked)) :
    ({ s with usage := usage, clients := clients } : Engine).uses name =
      s.uses name + if name = content.loraName then 1 else 0 := by
  have hcontents : ({ s with usage := usage, clients := clients } : Engine).startingContents =
      s.startingContents ++ [(u, content)] := by
    simp [startingContents, hheld, hlock, lockedContent]
  have hopen : ({ s with usage := usage, clients := clients } : Engine).openRequests name =
      s.openRequests name := rfl
  unfold uses
  rw [hcontents, hopen, List.countP_append, List.countP_singleton]
  rcases eq_or_ne name content.loraName with rfl | hne
  · simp
    omega
  · simp [hne, hne.symm]

/-- The start of a request that lets go of the lock without a message. -/
theorem uses_unlocked (name : String) (usage : LoraUsage) {content : RequestContent} {producer : Nat}
    {checked : Bool} (hlock : s.clients.loraLock = some (.starting u content producer checked)) :
    (({ s with usage := usage } : Engine).holdLock none).uses name +
      (if name = content.loraName then 1 else 0) = s.uses name := by
  have hcontents : s.startingContents =
      (({ s with usage := usage } : Engine).holdLock none).startingContents ++ [(u, content)] := by
    simp [startingContents, holdLock, hlock, lockedContent]
  have hopen : (({ s with usage := usage } : Engine).holdLock none).openRequests name =
      s.openRequests name := rfl
  unfold uses
  rw [hcontents, hopen, List.countP_append, List.countP_singleton]
  rcases eq_or_ne name content.loraName with rfl | hne
  · simp
    omega
  · simp [hne, hne.symm]

theorem Transition.balanced {e : Event} (h : Transition cfg s e t) (hsound : s.Sound)
    (heffect : Effect allowed s t) (hcloses : ∀ u, (s.model.standing u).Closes)
    (hname : name ≠ "") : Balanced s t name := by
  have hsame : t.startingContents = s.startingContents → t.openRequests name = s.openRequests name →
      t.usage = s.usage → Balanced s t name := by
    intro hcontents hopen husage
    exact .of_le (by simp [uses, hcontents, hopen]) husage
  cases h with
  | startRequest content producer hlock hverified hloaded =>
      have huses := uses_locked name (s.usage.acquire content.loraName)
        { s.clients with
          nextUuid := s.clients.nextUuid + 1
          loraLock := some (.starting s.clients.nextUuid content producer false) } hlock rfl
      constructor
      · rw [huses, count_acquire _ _ hname]
        omega
      · intro hpos
        rw [huses] at hpos
        split at hpos
        · rename_i heq
          subst heq
          exact .inr (hloaded.resolve_left hname)
        · exact .inl hpos
  | startDenied u content producer hlock =>
      have huses := uses_unlocked name s.usage hlock
      exact .of_le (huses ▸ Nat.le_add_right _ _) rfl
  | startPassed u content producer hlock =>
      exact hsame (contents_holdLock (by simp [hlock, lockedContent])) rfl rfl
  | startEnqueued u content producer hlock =>
      apply hsame _ rfl rfl
      simp [startingContents, enqueue, holdLock, hlock, lockedContent, startContent?]
  | startFailed u content producer hlock =>
      have huses := uses_unlocked name (s.usage.giveBack content.loraName) hlock
      have hcount := count_giveBack s.usage content.loraName name
      constructor
      · change _ + _ ≤ _ + (s.usage.giveBack content.loraName).names.count name
        omega
      · intro hpos
        left
        omega
  | called request producer hlock =>
      apply hsame _ rfl rfl
      simp [startingContents, enqueue, holdLock, hlock, lockedContent, startContent?_waiting]
  | callReturned promise hlock =>
      exact hsame (contents_holdLock (by simp [hlock, lockedContent])) rfl rfl
  | stopEnqueued i producer hcall =>
      apply hsame _ rfl rfl
      simp [startingContents, enqueue, setStopCall, startContent?]
  | message i env msg hphase hidle hfirst => exact balanced_message hsound hfirst.1 heffect
  | contextRan => exact heffect.balanced hsound ⟨rfl, rfl, rfl⟩ rfl
  | contextEnded => exact heffect.balanced hsound ⟨rfl, rfl, rfl⟩ rfl
  | entryUpdated u decoded rest => exact balanced_updateEntry hsound hcloses heffect
  | decoded => exact heffect.balanced hsound ⟨rfl, rfl, rfl⟩ rfl
  | memoryOut env m =>
      exact heffect.balanced hsound (sameStarts_handleMemoryOut s m env)
        (sameUsage_handleMemoryOut s m env).usage
  | checked =>
      exact heffect.balanced hsound ((sameStarts_finishSync s).trans (sameStarts_finishLoop _))
        (sameUsage_finish s).usage
  | _ => exact hsame rfl rfl rfl

/-- A loaded LoRA stays loaded as long as it is in use. -/
theorem Transition.loras {e : Event} (h : Transition cfg s e t) (hloaded : name ∈ s.loras)
    (hused : name ∈ s.usage.names) : name ∈ t.loras := by
  cases h with
  | loraLoaded other loaded loras hlock hsub => exact hsub hloaded
  | loraUnloaded other hlock hfree =>
      have hne : name ≠ other := by
        rintro rfl
        exact hfree hused
      exact Finset.mem_erase.mpr ⟨hne, hloaded⟩
  | message i env msg =>
      rw [(sameUsage_handleMessage cfg (s.without i) env msg).loras]
      exact hloaded
  | entryUpdated u decoded rest =>
      change name ∈ (s.updateEntry u).loras
      rw [(updateEntry_usage s u).1]
      exact hloaded
  | memoryOut env m =>
      rw [(sameUsage_handleMemoryOut s m env).loras]
      exact hloaded
  | checked =>
      rw [(sameUsage_finish s).loras]
      exact hloaded
  | _ => exact hloaded

/-- No event stops or releases a request that waits. -/
def StopsNoneWaiting (cfg : Config) (s : Engine) (e : Event) : Prop :=
  ∀ u shown, ¬ Causes cfg s e u (.dropped shown)

/-- Every LoRA that is needed is counted as often and loaded. -/
structure LoraSound (s : Engine) : Prop where
  pending : ∀ u ∈ s.model.pendingRequestQueue, u ∈ s.model.allRequestMap
  closes : ∀ u, (s.model.standing u).Closes
  counted : ∀ name, name ≠ "" → s.uses name ≤ s.usage.names.count name
  loaded : ∀ name, name ≠ "" → 0 < s.uses name → name ∈ s.loras

theorem Effect.closes (heffect : Effect (Causes cfg s e) s t) (hsound : s.Sound)
    (hguard : StopsNoneWaiting cfg s e) (h : ∀ u, (s.model.standing u).Closes) :
    ∀ u, (t.model.standing u).Closes := by
  have hmoved : ∀ m, Refines (Causes cfg s e) s.model m → ∀ u, (m.standing u).Closes := by
    intro m hrefines u
    apply (hrefines.path u).invariant (I := Standing.Closes) _ (h u)
    intro o a b hcause hmove hcloses
    apply hmove.closes _ hcloses
    rintro shown rfl
    exact hguard u shown hcause
  cases heffect with
  | moved hrefines => exact hmoved _ hrefines
  | interrupted _ _ hrefines => exact hmoved _ hrefines
  | started cfg new content memory hstarting _ hmodel =>
      obtain ⟨_, hown, hothers⟩ := hmodel ▸ standing_startRequestImpl hsound.nodup
        (hsound.unstarted new hstarting).2 content memory
      intro u
      rcases eq_or_ne u new with rfl | hne
      · rw [hown]
        intro hstatus
        cases hstatus
      · exact hothers u hne ▸ h u
  | released gone m hrefines hmodel =>
      intro u
      have hstanding : t.model.standing u = m.standing u := by
        rw [hmodel]
        rfl
      exact hstanding ▸ hmoved m hrefines u
  | delivered _ _ _ hmodel => exact hmodel ▸ h

theorem Effect.pending (heffect : Effect allowed s t)
    (h : ∀ u ∈ s.model.pendingRequestQueue, u ∈ s.model.allRequestMap) :
    ∀ u ∈ t.model.pendingRequestQueue, u ∈ t.model.allRequestMap := by
  intro u hu
  cases heffect with
  | moved hrefines => exact hrefines.known ▸ h u (hrefines.pending hu)
  | interrupted _ _ hrefines => exact hrefines.known ▸ h u (hrefines.pending hu)
  | started cfg new content memory _ _ hmodel =>
      rw [hmodel] at hu ⊢
      simp only [AsModel.startRequestImpl, List.mem_append, List.mem_singleton] at hu ⊢
      rcases hu with hold | rfl
      · exact Finset.mem_insert_of_mem (h u hold)
      · exact Finset.mem_insert_self u _
  | released gone m hrefines hmodel _ _ hout =>
      rw [hmodel] at hu ⊢
      have hne : u ≠ gone := by
        rintro rfl
        exact hout hu
      exact Finset.mem_erase.mpr ⟨hne, hrefines.known ▸ h u (hrefines.pending hu)⟩
  | delivered _ _ _ hmodel => exact hmodel ▸ h u (hmodel ▸ hu)

theorem LoraSound.next (h : s.LoraSound) (hsound : s.Sound) {e : Event}
    (hguard : StopsNoneWaiting cfg s e) (hnext : s.next cfg e = some t) : t.LoraSound := by
  have heffect := hsound.effect hnext
  have hbalanced : ∀ {name}, name ≠ "" → Balanced s t name := fun hname =>
    (transition hnext).balanced hsound heffect h.closes hname
  refine ⟨heffect.pending h.pending, heffect.closes hsound hguard h.closes,
    fun name hname => ?_, fun name hname hpos => ?_⟩
  · have huses := (hbalanced hname).uses
    have hcounted := h.counted name hname
    omega
  · rcases (hbalanced hname).loaded hpos with hneeded | hloaded
    · have hcounted := h.counted name hname
      exact (transition hnext).loras (h.loaded name hname hneeded)
        (Multiset.count_pos.mp (hneeded.trans_le hcounted))
    · exact hloaded

theorem loraSound_start (loras : Finset String) : (start loras).LoraSound :=
  ⟨fun _ hu => (by cases hu), fun _ hstatus => (by cases hstatus), fun _ _ => Nat.zero_le _,
    fun _ _ hpos => absurd hpos (Nat.lt_irrefl 0)⟩

end Step

/-- As long as no request is stopped or released while it waits, the LoRA of
every request that waits, and of every one whose queue has not ended, is loaded
and counted as in use, so that no request is ever turned down for a LoRA that
is gone. -/
theorem lora_loaded {cfg : Config} {loras : Finset String} {s : Engine}
    (h : Reaches cfg loras (StopsNoneWaiting cfg) s) {u : Uuid}
    (hneeded : u ∈ s.model.pendingRequestQueue ∨
      ∃ queue, s.queue? u = some queue ∧ queue.status.terminal = false)
    (hname : (s.model.requests u).content.loraName ≠ "") :
    (s.model.requests u).content.loraName ∈ s.loras ∧
      (s.model.requests u).content.loraName ∈ s.usage.names := by
  have hboth : s.Sound ∧ s.LoraSound := by
    apply Reach.invariant (I := fun s => Sound s ∧ LoraSound s) _ _ h
    · rintro q rfl
      exact ⟨sound_start loras, loraSound_start loras⟩
    · rintro q t e ⟨hsound, hlora⟩ hguard hnext
      exact ⟨hsound.next hnext, hlora.next hsound hguard hnext⟩
  obtain ⟨hsound, hlora⟩ := hboth
  have hopen : u ∈ s.openRequests (s.model.requests u).content.loraName := by
    rcases hneeded with hpending | ⟨queue, hqueue, hopen⟩
    · have hknown := hlora.pending u hpending
      obtain ⟨handle, hhandle⟩ := (hsound.handles u).mpr hknown
      have huntouched := (hsound.waiting u handle hhandle hpending).queue
      exact mem_openRequests.mpr ⟨hknown, rfl, _, huntouched, rfl⟩
    · exact mem_openRequests.mpr ⟨(hsound.queues u).mp ⟨queue, hqueue⟩, rfl, queue, hqueue, hopen⟩
  have hpos : 0 < s.uses (s.model.requests u).content.loraName :=
    Nat.add_pos_right _ (Finset.card_pos.mpr ⟨u, hopen⟩)
  exact ⟨hlora.loaded _ hname hpos,
    Multiset.count_pos.mp (hpos.trans_le (hlora.counted _ hname))⟩

/-- A request with a LoRA is started, and the LoRA is to be unloaded. -/
def startLora : List Event :=
  [.startRequest ⟨[1], 3, "adapter", false⟩ 0, .checkStopping, .enqueueStart true,
    .dequeue 0 ⟨fun _ => 0, .done⟩, .unloadLora "adapter"]

theorem guarded_startLora :
    (start {"adapter"}).Guarded tiny (StopsNoneWaiting tiny) startLora := by
  refine ⟨fun u shown h => (by cases h), ?_⟩
  rintro _ ⟨⟩
  refine ⟨fun u shown h => (by cases h), ?_⟩
  rintro _ ⟨⟩
  refine ⟨fun u shown h => (by cases h), ?_⟩
  rintro _ ⟨⟩
  refine ⟨?_, fun s _ => ⟨fun u shown h => (by cases h), fun _ _ => trivial⟩⟩
  rintro u shown (⟨⟨⟩, hbody, _⟩)
  rcases hbody with hbody | hbody <;> cases hbody

theorem lora_loaded_startLora : ∃ s, (start {"adapter"}).run tiny startLora = some s ∧
    s.model.pendingRequestQueue = [0] ∧ "adapter" ∈ s.loras ∧ "adapter" ∈ s.usage.names := by
  have hmap : ((start {"adapter"}).run tiny startLora).map (fun s =>
      (s.model.pendingRequestQueue, (s.model.requests 0).content.loraName)) =
      some ([0], "adapter") := rfl
  obtain ⟨s, hrun, hboth⟩ := Option.map_eq_some_iff.mp hmap
  obtain ⟨hpending, hname⟩ := Prod.mk.inj hboth
  have hloaded := lora_loaded (u := 0) (Reaches.run (.init rfl) guarded_startLora hrun)
    (.inl (by simp [hpending])) (by simp [hname])
  exact ⟨s, hrun, hpending, hname ▸ hloaded⟩

end Engine

end DashInfer.Serving
