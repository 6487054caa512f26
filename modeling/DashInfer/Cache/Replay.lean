import Mathlib
import DashInfer.Cache.Runs
import DashInfer.Cache.Virtual

/-!
`hash_tokens`: the 32-bit MurmurHash3 of a token list with seed 0. A token is
eight bytes, least significant first, so the message is a whole number of
32-bit words and the hash has no tail to read.
-/

namespace DashInfer.Cache

namespace Murmur

def rotl32 (x : UInt32) (r : UInt32) : UInt32 := (x <<< r) ||| (x >>> (32 - r))

def fmix32 (h : UInt32) : UInt32 :=
  let h := h ^^^ (h >>> 16)
  let h := h * 0x85ebca6b
  let h := h ^^^ (h >>> 13)
  let h := h * 0xc2b2ae35
  h ^^^ (h >>> 16)

/-- The body of the loop over the words of the message. -/
def mix (h1 k1 : UInt32) : UInt32 :=
  let k1 := k1 * 0xcc9e2d51
  let k1 := rotl32 k1 15
  let k1 := k1 * 0x1b873593
  let h1 := h1 ^^^ k1
  let h1 := rotl32 h1 13
  h1 * 5 + 0xe6546b64

/-- `MurmurHash3_x86_32` on a message of whole words. -/
def murmurHash3 (words : List UInt32) (seed : UInt32) : UInt32 :=
  fmix32 (words.foldl mix seed ^^^ UInt32.ofNat (4 * words.length))

end Murmur

/-- The two words of a 64-bit token. -/
def tokenWords (token : Token) : List UInt32 :=
  let bits := BitVec.ofInt 64 token
  [UInt32.ofNat bits.toNat, UInt32.ofNat (bits.toNat >>> 32)]

def hashTokens (tokens : List Token) : Hash :=
  (Murmur.murmurHash3 (tokens.flatMap tokenWords) 0).toNat

/-!
Replaying a list of calls. A replay checks the guard before each call and
stops where the call has no successor, so the state it ends in is reached by a
run.
-/

open Lib PrefixCacheManager

variable {E : OrderedSet NodeId} {D : Type} {cfg : Config}

instance (cfg : Config) (s : State E D) (action : Action D) : Decidable (Allowed cfg s action) :=
  match action with
  | .start r _ _ _ _ _ => inferInstanceAs (Decidable (r ∉ s.gpu.live))
  | .refOnly r _ _ _ => inferInstanceAs (Decidable (r ∉ s.gpu.live))
  | .getCache r _ _ _ => inferInstanceAs (Decidable (r ∈ s.gpu.live))
  | .computeBlock _ _ => inferInstanceAs (Decidable (_ ∧ _ ∧ _))
  | .insert r tokens startIdx _ _ =>
      decidable_of_iff (r ∈ s.gpu.live ∧ (s.gpu.ctx r).virtualK.length ≠ 0 ∧
        (blocks cfg startIdx tokens.length ≠ [] →
          (s.gpu.ctx r).offered ≤ startIdx / cfg.tokenPerSpan))
        (by simp [Allowed])
  | .stop r => inferInstanceAs (Decidable (r ∈ s.gpu.live))
  | .reset => inferInstanceAs (Decidable (s.gpu.live = []))
  | .evictUnrefered _ _ => isTrue trivial
  | .evictAllUnrefered _ => isTrue trivial
  | .setSeqlenThre _ => isTrue trivial
  | .warmup _ => isTrue trivial
  | .stepTask _ => isTrue trivial

/-- The state a call ends in, if it ends. -/
def Call.next (cfg : Config) (call : Call D) (s : State E D) : Option (State E D) :=
  match call.run cfg s with
  | .ok _ t => some t
  | .error e t => if e = .blocked ∨ e = .badIndex then none else some t

theorem step_of_next {call : Call D} {s t : State E D} (h : call.next cfg s = some t) :
    Step cfg call s t := by
  unfold Call.next at h
  unfold Step
  cases hrun : call.run cfg s with
  | ok _ t' =>
      rw [hrun] at h
      exact (Option.some.inj h).symm
  | error e t' =>
      rw [hrun] at h
      dsimp only at h
      split at h
      next => cases h
      next hne =>
        rw [not_or] at hne
        exact ⟨hne.1, hne.2, (Option.some.inj h).symm⟩

section Guarded

variable (guard : State E D → Action D → Prop) [∀ s action, Decidable (guard s action)]

def replay (cfg : Config) : List (Call D) → State E D → Option (State E D)
  | [], s => some s
  | call :: rest, s =>
      if guard s call.action then (call.next cfg s).bind (replay cfg rest) else none

theorem reach_of_replay {init : State E D → Prop} {calls : List (Call D)} {s t : State E D}
    (hs : Reach init (fun s (call : Call D) => guard s call.action) (Step cfg) s)
    (h : replay guard cfg calls s = some t) :
    Reach init (fun s (call : Call D) => guard s call.action) (Step cfg) t := by
  induction calls generalizing s with
  | nil =>
      cases h
      exact hs
  | cons call rest ih =>
      unfold replay at h
      split at h
      · next hguard =>
          obtain ⟨u, hu, hrest⟩ := Option.bind_eq_some_iff.mp h
          exact ih (hs.step hguard (step_of_next hu)) hrest
      · cases h

end Guarded

/-- A worker as built, over the plain ordered list; contents are numbers. -/
def bootState (cfg : Config) (gpuFrames cpuFrames : Nat) : State (listSet NodeId) Nat where
  gpu :=
    { union := CacheUnion.init _ gpuFrames cfg.layerNum
      live := []
      ctx := fun _ => newCtx 0 (fun _ _ => 0)
      mem := fun _ => 0
      log := [] }
  cpu :=
    { union := CacheUnion.init _ cpuFrames cfg.layerNum
      mem := fun _ => 0
      workspace := fun _ _ => 0
      availableBlocks := List.range cfg.maxBatch
      heldBlock := none
      tasks := []
      origin := fun _ => []
      log := [] }
  seqLenThre := 0
  schedule := []

theorem initial_bootState (cfg : Config) (gpuFrames cpuFrames : Nat) :
    Initial cfg (bootState cfg gpuFrames cpuFrames) where
  gpuUnion := ⟨gpuFrames, rfl⟩
  cpuUnion := ⟨cpuFrames, rfl⟩
  live := rfl
  gpuLog := rfl
  cpuLog := rfl
  tasks := rfl
  availableBlocks := rfl
  heldBlock := rfl

section Boot

variable (cfg : Config) (guard : State (listSet NodeId) Nat → Action Nat → Prop)
  [∀ s action, Decidable (guard s action)]

/-- What holds at the end of a replay from a worker as built holds somewhere in
a run. -/
theorem exists_reachable (gpuFrames cpuFrames : Nat) (calls : List (Call Nat))
    (p : State (listSet NodeId) Nat → Bool)
    (h : (replay guard cfg calls (bootState cfg gpuFrames cpuFrames)).any p = true) :
    ∃ t, Reach (Initial cfg) (fun s (call : Call Nat) => guard s call.action) (Step cfg) t ∧
      p t = true := by
  obtain ⟨t, ht, hp⟩ := (Option.any_eq_true ..).mp h
  exact ⟨t, reach_of_replay guard (.init (initial_bootState cfg _ _)) ht, hp⟩

/-- The start of a request at the end of a replay, with the task steps that run
beside it. -/
theorem exists_start (gpuFrames cpuFrames : Nat) (calls : List (Call Nat)) (r : ReqId)
    (tokens : List Token) (source : Nat → Nat → Nat) (ts : Nat) (schedule : List (List Nat))
    (p : State (listSet NodeId) Nat → State (listSet NodeId) Nat → Bool)
    (h : (replay guard cfg calls (bootState cfg gpuFrames cpuFrames)).any (fun s =>
      decide (guard s (.start r tokens tokens source ts ts)) && returnsIn (p s)
        ((startRequest cfg r tokens tokens source ts ts).run { s with schedule })) = true) :
    ∃ s t newTokens,
      Reach (Initial cfg) (fun s (call : Call Nat) => guard s call.action) (Step cfg) s ∧
      guard s (.start r tokens tokens source ts ts) ∧
      (startRequest cfg r tokens tokens source ts ts).run { s with schedule } =
        .ok newTokens t ∧ p s t = true := by
  obtain ⟨s, hs, hp⟩ := exists_reachable cfg guard gpuFrames cpuFrames calls _ h
  rw [Bool.and_eq_true] at hp
  obtain ⟨hguard, hp⟩ := hp
  obtain ⟨newTokens, t, hrun, hp⟩ := exists_ok hp
  exact ⟨s, t, newTokens, hs, of_decide_eq_true hguard, hrun, hp⟩

end Boot

theorem oneLayer_tokenPerSpan : 0 < 16 := by decide

theorem oneLayer_maxLength : 0 < 128 := by decide

/-- A model with one layer and spans of 16 tokens. -/
def oneLayer : Config where
  layerNum := 1
  tokenPerSpan := 16
  maxLength := 128
  maxBatch := 2
  timeToLiveSec := 300
  hashTokens
  layerNum_pos := Nat.one_pos
  tokenPerSpan_pos := oneLayer_tokenPerSpan
  maxLength_pos := oneLayer_maxLength
  maxBatch_pos := Nat.two_pos

/-- The token list `0, 1, …`. -/
def firstTokens (count : Nat) : List Token := (List.range count).map Int.ofNat

/-- A content that differs between blocks and between the spans of one. -/
def blockContent (cacheIdx lane : Nat) : Nat := 10 * cacheIdx + lane + 1

/-- A call beside which no task runs. -/
def Call.alone (action : Action D) : Call D := { action, schedule := [] }

/-- A request to a one-layer model that computes `count` tokens more and the
block at `cacheIdx` with them, and then offers its tokens from that block on. -/
def extend (r : ReqId) (tokens : List Token) (count cacheIdx ts : Nat) : List (Call Nat) :=
  [ .alone (.getCache r false 0 count)
    , .alone (.getCache r true 0 count)
    , .alone (.computeBlock r cacheIdx)
    , .alone (.insert r tokens (cacheIdx * 16) ts ts) ]

/-- A request with one complete block, from start to stop. -/
def serve (r : ReqId) (tokens : List Token) (source : Nat → Nat → Nat) (ts : Nat) :
    List (Call Nat) :=
  .alone (.start r tokens tokens source ts ts) :: extend r tokens tokens.length 0 ts ++
    [.alone (.stop r)]

/-- The whole of one queued copy of a one-layer node. -/
def runCopy (i : Nat) : List (Call Nat) := List.replicate 3 (.alone (.stepTask i))

end DashInfer.Cache
