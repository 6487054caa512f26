import DashInfer.Cache.FillOrder
import DashInfer.Cache.Residency

/-!
Whether what is copied between the two unions is what was stored. A swapped-out
node is complete once it is ready, unless some node was evicted while its own
copy was still queued; a node to be read back is still in the table, unless
making room for it evicted it.
-/

namespace DashInfer.Cache

open Lib CacheUnion PrefixCacheManager

variable {E : OrderedSet NodeId} {D : Type} {cfg : Config} {s t : State E D} {r : ReqId}

/-- Every ready node of the CPU table holds the content that the GPU node had
when it was swapped out. -/
def ReadyComplete (c : CpuSide E D) : Prop :=
  ∀ hash n, c.union.lookup hash = some n → (c.union.nodes n).isReady = true →
    contents c.mem c.union.spanManager (c.union.nodes n).spans = c.origin n

/-- In every run in which no CPU node is evicted before its copy has finished,
ready nodes are complete. -/
theorem ready_complete (h : Reachable cfg s) (hno : NoLoss s.cpu.log) : ReadyComplete s.cpu :=
  fun _ _ hl hready => ((inv_of_reachable h).cpu.copies hno).ready hl hready

theorem ready_complete_swapped : ∃ s : State (listSet NodeId) Nat, Reachable oneLayer s ∧
    (s.cpu.union.lookup (hashTokens (firstTokens 16))).any
      (fun n => (s.cpu.union.nodes n).isReady) = true ∧ ReadyComplete s.cpu := by
  obtain ⟨s, hs, hp⟩ := exists_reachable oneLayer (Allowed oneLayer) 8 8 (twoSwappedOut ++ runCopy 1 ++ runCopy 0)
    (fun s => decide ((s.cpu.union.lookup (hashTokens (firstTokens 16))).any
      (fun n => (s.cpu.union.nodes n).isReady) = true ∧ s.cpu.log = [])) (by decide +kernel)
  obtain ⟨hready, hlog⟩ := of_decide_eq_true hp
  exact ⟨s, hs, hready, ready_complete hs (by rw [hlog]; simp [NoLoss])⟩

/-- A CPU pool for one node: the first node is evicted for the second while its
copy is queued, and its frames go to the second, whose copy overtakes. -/
def overtakenCopy : List (Call Nat) :=
  serve 1 (firstTokens 17) blockContent 1 ++ [.alone (.evictAllUnrefered 2)] ++
    serve 2 (otherTokens 17) (fun k lane => 5 + blockContent k lane) 3 ++
    [.alone (.evictAllUnrefered 4)] ++ runCopy 1 ++ runCopy 0

/-- The late copy writes into a frame of a node that is ready. -/
theorem late_copy_overwrites_ready : ∃ s : State (listSet NodeId) Nat,
    Reachable oneLayer s ∧ ¬ ReadyComplete s.cpu := by
  obtain ⟨s, hs, hp⟩ := exists_reachable oneLayer (Allowed oneLayer) 8 3 overtakenCopy
    (fun s => (s.cpu.union.lookup (hashTokens (otherTokens 16))).any (fun n =>
      decide ((s.cpu.union.nodes n).isReady = true ∧
        contents s.cpu.mem s.cpu.union.spanManager (s.cpu.union.nodes n).spans ≠ s.cpu.origin n)))
    (by decide +kernel)
  obtain ⟨n, hl, hn⟩ := (Option.any_eq_true ..).mp hp
  obtain ⟨hready, hne⟩ := of_decide_eq_true hn
  exact ⟨s, hs, fun hcomplete => hne (hcomplete _ n hl hready)⟩

/-- The reads that happened between two states. -/
def newCopies (s t : State E D) : List CpuEvent :=
  (copiedEvents t.cpu.log).take
    ((copiedEvents t.cpu.log).length - (copiedEvents s.cpu.log).length)

/-- Every node read back between two states was in the CPU table at that
moment, and its frames were its own. -/
def ReadsPresent (s t : State E D) : Prop :=
  ∀ n inTable kept, CpuEvent.copied n inTable kept ∈ newCopies s t →
    inTable = true ∧ kept = true

/-- Making room on the GPU evicts one of the CPU hits it is made for. -/
def EvictsOwnHit (cfg : Config) (now : Nat) (s : State E D) (hashes : List Hash) : Prop :=
  Restores cfg s hashes ∧ ∃ hash ∈ cpuHits s hashes, fillVictim cfg now s hashes = some hash

instance (cfg : Config) (now : Nat) (s : State E D) (hashes : List Hash) :
    Decidable (EvictsOwnHit cfg now s hashes) :=
  inferInstanceAs (Decidable (_ ∧ _))

private theorem RestoredOf.present_iff {hashes : List Hash} {now : Nat} {events : List CpuEvent}
    (h : RestoredOf cfg s hashes now events) :
    (∀ n inTable kept, CpuEvent.copied n inTable kept ∈ events → inTable = true ∧ kept = true) ↔
      ¬ EvictsOwnHit cfg now s hashes := by
  constructor
  · rintro hall ⟨hrest, hash, hmem, hvictim⟩
    obtain ⟨n, kept, _, hevent⟩ := h.logged hrest hash hmem
    have hin := (hall _ _ _ hevent).1
    exact of_decide_eq_true hin hvictim
  · intro hnot n inTable kept hevent
    obtain ⟨hrest, hash, hmem, _, heq, hkept⟩ := h.event hevent
    have hin : inTable = true := by
      rw [heq]
      apply decide_eq_true
      intro hvictim
      exact hnot ⟨hrest, hash, hmem, hvictim⟩
    exact ⟨hin, hkept hin⟩

/-- A `RefFill` that returns, from any state of a run, reads back nodes that
are still in the table exactly when making room evicts none of them. -/
theorem refFill_readsPresent_iff {tokens tokensForHash newTokens : List Token}
    {source : Nat → Nat → D} {ts now : Nat} {schedule : List (List Nat)} (h : Reachable cfg s)
    (hr : r ∉ s.gpu.live)
    (hrun : (startRequest cfg r tokens tokensForHash source ts now).run { s with schedule } =
      .ok newTokens t) :
    ReadsPresent s t ↔ ¬ EvictsOwnHit cfg now s (promptHashes cfg tokens tokensForHash) := by
  have hinv := (inv_of_reachable h).withSchedule schedule
  have hpost := post_startRequest tokens tokensForHash source ts now hinv hr
    (fun hf => hf.elim) (fun hf => hf.elim)
  obtain ⟨_, _, list, hnew, _⟩ := hpost.of_ok hrun
  have hstarted : Started cfg s t r _ now list := hnew.of_same rfl rfl rfl
  obtain ⟨events, hlog, hevents⟩ := hstarted.copied
  have hcopies : newCopies s t = events := by
    unfold newCopies
    rw [hlog, List.length_append, Nat.add_sub_cancel, List.take_left]
  unfold ReadsPresent
  rw [hcopies]
  exact hevents.present_iff

/-- A swapped-out block is the only node of a CPU pool for one node, and two
blocks of another request fill the GPU pool. -/
def bothPoolsFull : List (Call Nat) :=
  serve 1 (firstTokens 17) blockContent 1 ++ [.alone (.evictAllUnrefered 2)] ++ runCopy 0 ++
    .alone (.start 2 (otherTokens 17) (otherTokens 17) blockContent 3 3) ::
    extend 2 (otherTokens 17) 17 0 3 ++ extend 2 (otherTokens 33) 15 1 3 ++ [.alone (.stop 2)]

theorem refFill_readsPresent_of_room : ∃ (s t : State (listSet NodeId) Nat)
    (newTokens : List Token), Reachable oneLayer s ∧ 3 ∉ s.gpu.live ∧
      (startRequest oneLayer 3 (firstTokens 17) (firstTokens 17) blockContent 5 5).run
        { s with schedule := [] } = .ok newTokens t ∧
      (newCopies s t).length = 1 ∧ ReadsPresent s t := by
  obtain ⟨s, t, newTokens, hs, hr, hrun, hp⟩ :=
    exists_start oneLayer (Allowed oneLayer) 8 8 bothPoolsFull 3 (firstTokens 17) blockContent 5 []
      (fun s t => decide ((newCopies s t).length = 1 ∧ ¬ EvictsOwnHit oneLayer 5 s
        (promptHashes oneLayer (firstTokens 17) (firstTokens 17)))) (by decide +kernel)
  obtain ⟨hlen, hnot⟩ := of_decide_eq_true hp
  exact ⟨s, t, newTokens, hs, hr, hrun, hlen, (refFill_readsPresent_iff hs hr hrun).mpr hnot⟩

/-- The node to be read back makes room for one swapped out to make room for
it. -/
theorem refFill_reads_evicted : ∃ (s t : State (listSet NodeId) Nat) (newTokens : List Token),
    Reachable oneLayer s ∧ 3 ∉ s.gpu.live ∧
      (startRequest oneLayer 3 (firstTokens 17) (firstTokens 17) blockContent 5 5).run
        { s with schedule := [[], [0, 0, 0]] } = .ok newTokens t ∧ ¬ ReadsPresent s t := by
  obtain ⟨s, t, newTokens, hs, hr, hrun, hp⟩ :=
    exists_start oneLayer (Allowed oneLayer) 4 3 bothPoolsFull 3 (firstTokens 17) blockContent 5 [[], [0, 0, 0]]
      (fun s t => decide (CpuEvent.copied 0 false false ∈ newCopies s t)) (by decide +kernel)
  refine ⟨s, t, newTokens, hs, hr, hrun, ?_⟩
  intro hpresent
  exact absurd (hpresent 0 false false (of_decide_eq_true hp)).1 (by decide)

end DashInfer.Cache

/-!
Whose KV a request reads. The table's key is the hash of the tokens, in which
embeddings appear as their own hashes; the adapter a request runs with is no
part of it. When requests with a common prefix run with the same adapter, and
copies reach the table intact, a placed block holds what the request would
have computed itself.
-/

namespace DashInfer.Cache

open Lib CacheUnion PrefixCacheManager

variable {E : OrderedSet NodeId} {D : Type} {cfg : Config} {s t : State E D} {r : ReqId}

/-- The requests of a run: all the tokens each of them ever has, as they are
hashed, its adapter, and what the model computes for the last block of a token
list under an adapter. -/
structure Requests (D : Type) where
  tokens : ReqId → List Token
  loraName : ReqId → Option String
  kv : Option String → List Token → Nat → D

namespace Requests

variable (q : Requests D)

/-- The tokens of a request up to the end of a block. -/
def upTo (cfg : Config) (r : ReqId) (k : Nat) : List Token :=
  (q.tokens r).take ((k + 1) * cfg.tokenPerSpan)

/-- What a request computes for a block itself. -/
def own (cfg : Config) (r : ReqId) (k : Nat) : List D :=
  (List.range (2 * cfg.layerNum)).map (q.kv (q.loraName r) (q.upTo cfg r k))

/-- A block that the request's tokens fill. -/
def HasBlock (cfg : Config) (r : ReqId) (k : Nat) : Prop :=
  (k + 1) * cfg.tokenPerSpan ≤ (q.tokens r).length

/-- The hashes of block prefixes do not collide. -/
def NoCollision (cfg : Config) : Prop :=
  ∀ r r' k k', q.HasBlock cfg r k → q.HasBlock cfg r' k' →
    cfg.hashTokens (q.upTo cfg r k) = cfg.hashTokens (q.upTo cfg r' k') →
      q.upTo cfg r k = q.upTo cfg r' k'

/-- Requests with a common block prefix run with the same adapter. -/
def SameLora (cfg : Config) : Prop :=
  ∀ r r' k, q.HasBlock cfg r k → q.HasBlock cfg r' k → q.upTo cfg r k = q.upTo cfg r' k →
    q.loraName r = q.loraName r'

/-- How the requests call the cache: they hash their own tokens, and offer
blocks that they computed from them. -/
def Calls (cfg : Config) (s : State E D) : Action D → Prop
  | .start r tokens tokensForHash _ _ _ =>
      tokensForHash.length = tokens.length ∧ tokensForHash <+: q.tokens r
  | .insert r tokens startIdx _ _ =>
      tokens <+: q.tokens r ∧ cfg.tokenPerSpan ∣ startIdx ∧
        ∀ block ∈ blocks cfg startIdx tokens.length, block.2 < (s.gpu.ctx r).computed ∧
          (s.gpu.ctx r).ownData cfg block.2 = q.own cfg r block.2
  | _ => True

instance [DecidableEq D] (cfg : Config) (s : State E D) (action : Action D) :
    Decidable (q.Calls cfg s action) :=
  match action with
  | .start .. | .insert .. => inferInstanceAs (Decidable (_ ∧ _))
  | .refOnly .. | .getCache .. | .computeBlock .. | .stop .. | .evictUnrefered ..
  | .evictAllUnrefered .. | .reset | .setSeqlenThre .. | .warmup .. | .stepTask .. =>
      isTrue trivial

/-- The calls that find hits on the GPU before hits on the CPU. -/
def InOrder (cfg : Config) (s : State E D) : Action D → Prop
  | .start _ tokens tokensForHash _ _ _ => GpuFirst s (promptHashes cfg tokens tokensForHash)
  | _ => True

instance (cfg : Config) (s : State E D) (action : Action D) : Decidable (InOrder cfg s action) :=
  match action with
  | .start _ tokens tokensForHash _ _ _ =>
      inferInstanceAs (Decidable (hitHashes s (promptHashes cfg tokens tokensForHash) = _))
  | .refOnly .. | .getCache .. | .computeBlock .. | .insert .. | .stop .. | .evictUnrefered ..
  | .evictAllUnrefered .. | .reset | .setSeqlenThre .. | .warmup .. | .stepTask .. =>
      isTrue trivial

/-- A call of these requests that keeps to token order. -/
def Meets (cfg : Config) (s : State E D) (action : Action D) : Prop :=
  Allowed cfg s action ∧ q.Calls cfg s action ∧ InOrder cfg s action

instance [DecidableEq D] (cfg : Config) (s : State E D) (action : Action D) :
    Decidable (q.Meets cfg s action) :=
  inferInstanceAs (Decidable (_ ∧ _ ∧ _))

def ReachableInOrder (cfg : Config) : State E D → Prop :=
  Reach (Initial cfg) (fun s (call : Call D) => q.Meets cfg s call.action) (Step cfg)

/-- Every block that was filled from the cache holds what the request would
have computed. -/
def ReadsOwn (cfg : Config) (t : State E D) (r : ReqId) : Prop :=
  ∀ k < (t.gpu.ctx r).prefixLen / cfg.tokenPerSpan, ∃ block,
    (t.gpu.ctx r).blockAt k = some block ∧
      contents t.gpu.mem t.gpu.union.spanManager (blockSpans block) = q.own cfg r k

/-- What may be stored under a hash: what some request computes for a block
with that hash. -/
def premise (cfg : Config) : Premise D where
  ordered := True
  distinct := True
  Good hash data := ∃ r k, q.HasBlock cfg r k ∧ hash = cfg.hashTokens (q.upTo cfg r k) ∧
    data = q.own cfg r k

variable {q}

private theorem upTo_length {k : Nat} (h : q.HasBlock cfg r k) :
    (q.upTo cfg r k).length = (k + 1) * cfg.tokenPerSpan := by
  unfold upTo
  rw [List.length_take]
  exact Nat.min_eq_left h

private theorem block_eq {r' : ReqId} {k k' : Nat} (h : q.HasBlock cfg r k)
    (h' : q.HasBlock cfg r' k') (heq : q.upTo cfg r k = q.upTo cfg r' k') : k = k' := by
  have hlen := congrArg List.length heq
  rw [upTo_length h, upTo_length h'] at hlen
  have hk := Nat.eq_of_mul_eq_mul_right cfg.tokenPerSpan_pos hlen
  omega

/-- The tokens hashed for a block are those of the request. -/
private theorem take_eq_upTo {tokens : List Token} (h : tokens <+: q.tokens r) {k : Nat}
    (hk : (k + 1) * cfg.tokenPerSpan ≤ tokens.length) :
    tokens.take ((k + 1) * cfg.tokenPerSpan) = q.upTo cfg r k ∧ q.HasBlock cfg r k := by
  obtain ⟨rest, hrest⟩ := h
  refine ⟨?_, ?_⟩
  · unfold upTo
    rw [← hrest, List.take_append_of_le_length hk]
  · unfold HasBlock
    rw [← hrest, List.length_append]
    omega

private theorem lt_of_prompt {tokens : List Token} {k : Nat}
    (hk : k < (tokens.length - 1) / cfg.tokenPerSpan) :
    (k + 1) * cfg.tokenPerSpan ≤ tokens.length := by
  have hle := Nat.mul_le_of_le_div _ _ _ (Nat.succ_le_of_lt hk)
  rw [Nat.succ_eq_add_one] at hle
  omega

private theorem promptHashes_nodup (hno : q.NoCollision cfg) {tokens tokensForHash : List Token}
    (hlen : tokensForHash.length = tokens.length) (htokens : tokensForHash <+: q.tokens r) :
    (promptHashes cfg tokens tokensForHash).Nodup := by
  rw [promptHashes_eq]
  refine List.Nodup.map_on ?_ List.nodup_range
  intro k hk k' hk' heq
  have hle := lt_of_prompt (List.mem_range.mp hk)
  have hle' := lt_of_prompt (List.mem_range.mp hk')
  rw [← hlen] at hle hle'
  obtain ⟨htake, hblock⟩ := take_eq_upTo htokens hle
  obtain ⟨htake', hblock'⟩ := take_eq_upTo htokens hle'
  rw [htake, htake'] at heq
  exact block_eq hblock hblock' (hno r r k k' hblock hblock' heq)

private theorem goodBlocks {tokens : List Token} {startIdx ts now : Nat}
    (h : q.Calls cfg s (.insert r tokens startIdx ts now)) :
    GoodBlocks cfg (q.premise cfg).Good (s.gpu.ctx r) tokens
      (blocks cfg startIdx tokens.length) := by
  obtain ⟨htokens, ⟨m, hm⟩, hcomputed⟩ := h
  intro block hblock data hdata
  obtain ⟨hlt, hown⟩ := hcomputed block hblock
  rw [blocks_eq] at hblock
  obtain ⟨k, hk, rfl⟩ := List.mem_map.mp hblock
  have hpos := cfg.tokenPerSpan_pos
  have hle := Nat.mul_le_of_le_div _ _ _ (Nat.succ_le_of_lt (List.mem_range.mp hk))
  dsimp only at hdata hlt hown ⊢
  have hidx : startIdx / cfg.tokenPerSpan = m := by
    rw [hm]
    exact Nat.mul_div_cancel_left m hpos
  rw [hidx] at hdata hlt hown
  have hsum : (m + k + 1) * cfg.tokenPerSpan =
      startIdx + (k + 1) * cfg.tokenPerSpan := by
    rw [hm, Nat.mul_comm cfg.tokenPerSpan m, ← Nat.add_mul]
    rfl
  have hone : 1 ≤ (k + 1) * cfg.tokenPerSpan := Nat.mul_pos (Nat.succ_pos k) hpos
  rw [Nat.succ_eq_add_one] at hle
  have hfits : (m + k + 1) * cfg.tokenPerSpan ≤ tokens.length := by omega
  obtain ⟨htake, hhas⟩ := take_eq_upTo htokens hfits
  refine ⟨r, m + k, hhas, ?_, ?_⟩
  · rw [← htake, hsum]
    congr 2
    omega
  · rw [hdata hlt, hown]

/-- Calls that keep to token order respect the premise. -/
private theorem respects (hno : q.NoCollision cfg) {action : Action D}
    (h : q.Meets cfg s action) : Respects cfg (q.premise cfg) s action := by
  obtain ⟨_, hcalls, horder⟩ := h
  cases action with
  | start r tokens tokensForHash source ts now =>
      refine ⟨fun _ => horder, fun _ _ => ?_⟩
      have hnodup := promptHashes_nodup hno hcalls.1 hcalls.2
      exact (hnodup.sublist (List.takeWhile_sublist _)).filter _
  | insert r tokens startIdx ts now => exact goodBlocks hcalls
  | _ => trivial

private theorem inv_of_reachableInOrder (hno : q.NoCollision cfg)
    (h : q.ReachableInOrder cfg s) : Inv cfg (q.premise cfg) s Settled := by
  apply inv_of_reachableBy
  refine Reach.weaken ?_ h
  intro s call hmeets
  exact ⟨hmeets.1, respects hno hmeets⟩

/-- In a run whose requests share an adapter wherever they share a prefix, which
keeps to token order, in which no CPU node was evicted before its copy had
finished and none before it was read back, a `RefFill` that returns leaves the
request with what it would have computed itself. -/
theorem refFill_reads_own (hno : q.NoCollision cfg) (hlora : q.SameLora cfg)
    (h : q.ReachableInOrder cfg s) {tokens tokensForHash newTokens : List Token}
    {source : Nat → Nat → D} {ts now : Nat} {schedule : List (List Nat)}
    (hmeets : q.Meets cfg s (.start r tokens tokensForHash source ts now))
    (hrun : (startRequest cfg r tokens tokensForHash source ts now).run { s with schedule } =
      .ok newTokens t)
    (hclean : CleanLog t.cpu.log) : q.ReadsOwn cfg t r := by
  have hinv := (inv_of_reachableInOrder hno h).withSchedule schedule
  obtain ⟨hordered, hdistinct⟩ := respects hno hmeets
  have hpost := post_startRequest tokens tokensForHash source ts now hinv hmeets.1 hordered
    hdistinct
  obtain ⟨ht, _, list, hnew, hctx, _⟩ := hpost.of_ok hrun
  have hstarted : Started cfg s t r _ now list := hnew.of_same rfl rfl rfl
  have hcached := hstarted.cached.mpr (hdistinct trivial)
  have hplacedLen := hstarted.length_le
  intro k hk
  rw [filledCtx_prefixLen hctx] at hk
  have hget : list[k]? = some list[k] := List.getElem?_eq_getElem hk
  have hlookup := hcached _ (List.getElem_mem hk)
  have hkey := hstarted.key (hordered trivial) hget
  have hle : (k + 1) * cfg.tokenPerSpan ≤ tokensForHash.length := by
    rw [hmeets.2.1.1]
    exact lt_of_prompt (Nat.lt_of_lt_of_le hk hplacedLen)
  obtain ⟨htake, hhas⟩ := take_eq_upTo hmeets.2.1.2 hle
  obtain ⟨r', k', hhas', hhash, hdata⟩ := (ht.content hclean).1 hlookup
  rw [hkey, htake] at hhash
  have hsame := hno r r' k k' hhas hhas' hhash
  obtain rfl := block_eq hhas hhas' hsame
  have hadapter := hlora r r' k hhas hhas' hsame
  refine ⟨_, hstarted.filled.blockAt hget, ?_⟩
  change contents t.gpu.mem t.gpu.union.spanManager (t.gpu.union.nodes list[k]).spans = _
  rw [hdata]
  unfold own
  rw [hadapter, hsame]

end Requests

/-- Two requests with the same 17 tokens, under the given adapters; the content
shows the adapter. -/
def samePrompt (loraName : ReqId → Option String) : Requests Nat where
  tokens _ := firstTokens 17
  loraName
  kv lora tokens lane := tokens.length + lane + if lora = none then 0 else 100

private theorem samePrompt_noCollision (loraName : ReqId → Option String) :
    (samePrompt loraName).NoCollision oneLayer := by
  intro r r' k k' hk hk' _
  have hlen : (firstTokens 17).length = 17 := by decide
  unfold Requests.HasBlock samePrompt at hk hk'
  rw [hlen] at hk hk'
  change (k + 1) * 16 ≤ 17 at hk
  change (k' + 1) * 16 ≤ 17 at hk'
  obtain rfl : k = k' := by omega
  rfl

/-- The first request caches its block. -/
def firstCached : List (Call Nat) := serve 1 (firstTokens 17) (fun _ lane => 16 + lane) 1

theorem refFill_reads_own_same_lora :
    ∃ (s t : State (listSet NodeId) Nat) (newTokens : List Token),
      (samePrompt (fun _ => none)).ReachableInOrder oneLayer s ∧
      (startRequest oneLayer 2 (firstTokens 17) (firstTokens 17) blockContent 2 2).run
        { s with schedule := [] } = .ok newTokens t ∧ (t.gpu.ctx 2).prefixLen = 16 ∧
      (samePrompt (fun _ => none)).ReadsOwn oneLayer t 2 := by
  obtain ⟨s, t, newTokens, hs, hmeets, hrun, hp⟩ :=
    exists_start oneLayer ((samePrompt (fun _ => none)).Meets oneLayer) 8 8 firstCached 2
      (firstTokens 17) blockContent 2 []
      (fun _ t => decide (t.cpu.log = [] ∧ (t.gpu.ctx 2).prefixLen = 16)) (by decide +kernel)
  obtain ⟨hlog, hlen⟩ := of_decide_eq_true hp
  have hclean : CleanLog t.cpu.log := by
    rw [hlog]
    exact ⟨by simp [NoLoss], by simp⟩
  exact ⟨s, t, newTokens, hs, hrun, hlen, Requests.refFill_reads_own
    (samePrompt_noCollision _) (fun _ _ _ _ _ _ => rfl) hs hmeets hrun hclean⟩

/-- The adapters of two requests, of which only the second has one. -/
def secondHasLora (r : ReqId) : Option String := if r = 2 then some "lora" else none

/-- With everything else in order, a request with an adapter is filled with the
block of one without. -/
theorem refFill_reads_other_lora :
    ∃ (s t : State (listSet NodeId) Nat) (newTokens : List Token),
      (samePrompt secondHasLora).NoCollision oneLayer ∧
      (samePrompt secondHasLora).ReachableInOrder oneLayer s ∧
      (samePrompt secondHasLora).Meets oneLayer s
        (.start 2 (firstTokens 17) (firstTokens 17) blockContent 2 2) ∧
      (startRequest oneLayer 2 (firstTokens 17) (firstTokens 17) blockContent 2 2).run
        { s with schedule := [] } = .ok newTokens t ∧ CleanLog t.cpu.log ∧
      ¬ (samePrompt secondHasLora).ReadsOwn oneLayer t 2 := by
  obtain ⟨s, t, newTokens, hs, hmeets, hrun, hp⟩ :=
    exists_start oneLayer ((samePrompt secondHasLora).Meets oneLayer) 8 8 firstCached 2
      (firstTokens 17) blockContent 2 []
      (fun _ t => decide (t.cpu.log = [] ∧ (t.gpu.ctx 2).prefixLen = 16 ∧
        ((t.gpu.ctx 2).blockAt 0).all (fun block => decide (contents t.gpu.mem
          t.gpu.union.spanManager (blockSpans block) ≠
            (samePrompt secondHasLora).own oneLayer 2 0)) = true)) (by decide +kernel)
  obtain ⟨hlog, hlen, hall⟩ := of_decide_eq_true hp
  refine ⟨s, t, newTokens, samePrompt_noCollision _, hs, hmeets, hrun, ?_, ?_⟩
  · rw [hlog]
    exact ⟨by simp [NoLoss], by simp⟩
  · intro hown
    obtain ⟨block, hblock, hsame⟩ := hown 0 (by
      rw [hlen]
      decide)
    rw [hblock] at hall
    exact of_decide_eq_true hall hsame

end DashInfer.Cache
