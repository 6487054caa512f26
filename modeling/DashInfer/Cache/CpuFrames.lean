import DashInfer.Cache.Runs
import DashInfer.Lib.Program

/-!
What leaves the CPU frames alone. Apart from swap-outs and `Reset`, an
operation reads the CPU table, moves timestamps in it and runs queued copies,
but neither claims nor releases a CPU frame and adds or drops no entry.
-/

namespace DashInfer.Cache

open Lib CacheUnion PrefixCacheManager

variable {E : OrderedSet NodeId} {D : Type}

/-- The same table over the same frames. -/
structure SameFrames (u u' : CacheUnion E) : Prop where
  hashTable : u'.hashTable = u.hashTable
  capacity : u'.capacity = u.capacity
  spanManager : u'.spanManager = u.spanManager

namespace SameFrames

variable {u u' u'' : CacheUnion E}

theorem refl (u : CacheUnion E) : SameFrames u u := ⟨rfl, rfl, rfl⟩

theorem trans (h : SameFrames u u') (h' : SameFrames u' u'') : SameFrames u u'' :=
  ⟨h'.hashTable.trans h.hashTable, h'.capacity.trans h.capacity,
    h'.spanManager.trans h.spanManager⟩

theorem of_aside {c c' : CpuSide E D} (h : Aside c c') : SameFrames c.union c'.union :=
  ⟨h.hashTable, h.capacity, h.spanManager⟩

theorem of_kept (h : Kept u u') : SameFrames u u' := ⟨h.hashTable, h.capacity, h.spanManager⟩

theorem size (h : SameFrames u u') : u'.size = u.size := by
  unfold CacheUnion.size
  rw [h.hashTable]

theorem lookup (h : SameFrames u u') (hash : Hash) : u'.lookup hash = u.lookup hash := by
  unfold CacheUnion.lookup
  rw [h.hashTable]

theorem countFrame (h : SameFrames u u') : u'.countFrame = u.countFrame := by
  unfold CacheUnion.countFrame
  rw [h.spanManager]

end SameFrames

/-- The states have the same CPU table over the same CPU frames. -/
def FramesStill (s t : State E D) : Prop := SameFrames s.cpu.union t.cpu.union

instance : Std.Refl (FramesStill (E := E) (D := D)) := ⟨fun s => SameFrames.refl s.cpu.union⟩

instance : IsTrans (State E D) FramesStill := ⟨fun _ _ _ h h' => SameFrames.trans h h'⟩

section Steps

theorem still_modifyGpu (f : GpuSide E D → GpuSide E D) : Moves FramesStill (modifyGpu f) :=
  moves_modify (fun s => SameFrames.refl s.cpu.union)

theorem still_modifyCpu {f : CpuSide E D → CpuSide E D}
    (h : ∀ c, SameFrames c.union (f c).union) : Moves FramesStill (modifyCpu f) :=
  moves_modify (fun s => h s.cpu)

theorem still_updateNodeTs (hash : Hash) (ts : Nat) :
    Moves FramesStill (modifyCpu (fun c : CpuSide E D => c.updateNodeTs hash ts)) :=
  still_modifyCpu (fun c => SameFrames.of_kept (kept_updateNodeTs (u := c.union) ts hash))

theorem aside_stepTasks (c : CpuSide E D) (steps : List Nat) :
    Aside c (steps.foldl CpuSide.stepTask c) := by
  induction steps generalizing c with
  | nil => exact Aside.refl c
  | cons i rest ih => exact (aside_stepTask i).trans (ih _)

theorem aside_interleave (s : State E D) : Aside s.cpu s.interleave.cpu := by
  unfold State.interleave
  split
  · exact Aside.refl s.cpu
  · exact aside_stepTasks s.cpu _

theorem still_interleave : Moves FramesStill (interleave : Prog E D Unit) :=
  moves_modify (fun s => SameFrames.of_aside (aside_interleave s))

theorem still_dropHeldBlock : Moves FramesStill (dropHeldBlock : Prog E D Unit) := by
  apply still_modifyCpu
  intro c
  unfold CpuSide.dropHeldBlock
  split
  · exact SameFrames.refl c.union
  · next block _ =>
      exact SameFrames.of_aside (c := { c with heldBlock := none }) (aside_returnBlock block)

end Steps

variable (cfg : Config) (r : ReqId)

section Operations

theorem still_gpuAt (hash : Hash) : Moves FramesStill (gpuAt hash : Prog E D NodeId) := by
  apply moves_get_bind
  intro s
  split
  · exact moves_throw _
  · exact moves_pure _

theorem still_deleteGpuNode (hash : Hash) :
    Moves FramesStill (deleteGpuNode hash : Prog E D Unit) := by
  apply moves_get_bind
  intro s
  split
  · exact moves_throw _
  · exact still_modifyGpu _

theorem still_createGpuNode (kCache vCache : List SpanId) (prefixLen ts : Nat) (hash : Hash) :
    Moves FramesStill (createGpuNode kCache vCache prefixLen ts hash : Prog E D NodeId) := by
  unfold createGpuNode
  split
  · exact moves_throw _
  · apply moves_get_bind
    intro s
    exact (still_modifyGpu _).bind (fun _ => moves_pure _)

theorem still_getCache (isV : Bool) (layer increment : Nat) :
    Moves FramesStill (getCache cfg r isV layer increment : Prog E D Unit) := by
  apply moves_get_bind
  intro s
  dsimp only
  split
  · exact moves_throw _
  · apply (still_modifyGpu _).bind
    intro _
    split
    · exact moves_throw _
    · exact still_modifyGpu _

theorem still_backSpan (isV : Bool) (layer : Nat) :
    Moves FramesStill (backSpan r isV layer : Prog E D SpanId) := by
  apply moves_get_bind
  intro s
  dsimp only
  split
  · exact moves_throw _
  · exact moves_pure _

theorem still_allocGpuNode (prefixLen ts : Nat) (hash : Hash) :
    Moves FramesStill (allocGpuNode cfg r prefixLen ts hash : Prog E D NodeId) := by
  apply Moves.bind
  · apply moves_foldEach
    intro caches layer
    apply (still_getCache cfg r false layer cfg.tokenPerSpan).bind
    intro _
    apply (still_getCache cfg r true layer cfg.tokenPerSpan).bind
    intro _
    apply (still_backSpan r false layer).bind
    intro k
    exact (still_backSpan r true layer).bind (fun v => moves_pure _)
  · intro caches
    exact still_createGpuNode _ _ _ _ _

theorem still_fillFromNode (n : NodeId) :
    Moves FramesStill (fillFromNode cfg r n : Prog E D Unit) := by
  apply moves_get_bind
  intro s
  dsimp only
  split
  · exact still_modifyGpu _
  · exact moves_throw _

theorem still_collectSwapIn (list : List NodeId) :
    Moves FramesStill (collectSwapIn cfg r list : Prog E D (List NodeId)) := by
  induction list with
  | nil => exact moves_pure _
  | cons src rest ih =>
      apply moves_get_bind
      intro s
      dsimp only
      split
      · apply (still_modifyGpu _).bind
        intro _
        exact (still_fillFromNode cfg r _).bind (fun _ => ih)
      · apply (still_allocGpuNode cfg r _ _ _).bind
        intro n
        exact ih.bind (fun new => moves_pure _)

theorem still_queryBlock : Moves FramesStill (queryBlock : Prog E D WsBlock) := by
  apply still_interleave.bind
  intro _
  apply moves_get_bind
  intro s
  split
  · exact moves_throw _
  · refine (still_modifyCpu ?_).bind ?_
    · exact fun c => SameFrames.refl c.union
    · exact fun _ => moves_pure _

theorem still_checkedBlock (spanNum : Nat) :
    Moves FramesStill (checkedBlock cfg spanNum : Prog E D WsBlock) := by
  unfold checkedBlock
  split
  · exact moves_throw _
  · apply still_queryBlock.bind
    intro block
    split
    · exact still_dropHeldBlock.bind (fun _ => moves_throw _)
    · exact moves_pure _

theorem still_swapNodelistToGpuImpl (pairs : List (NodeId × NodeId)) :
    Moves FramesStill (swapNodelistToGpuImpl cfg pairs : Prog E D Unit) := by
  apply moves_get_bind
  intro s
  dsimp only
  split
  · exact moves_pure _
  · apply (still_checkedBlock cfg _).bind
    intro block
    refine (still_modifyCpu ?_).bind ?_
    · exact fun c => SameFrames.refl c.union
    intro _
    apply moves_get_bind
    intro s
    refine (still_modifyCpu ?_).bind ?_
    · exact fun c => SameFrames.refl c.union
    intro _
    apply (still_modifyGpu _).bind
    intro _
    apply Moves.bind
    · apply moves_forEach
      intro p
      exact (still_modifyGpu _).bind (fun _ => still_modifyGpu _)
    · intro _
      exact still_dropHeldBlock

theorem still_swapToGpuByNodelist (list : List NodeId) :
    Moves FramesStill (swapToGpuByNodelist cfg r list : Prog E D (List NodeId)) := by
  apply (still_collectSwapIn cfg r list).bind
  intro new
  apply (moves_forEach (still_swapNodelistToGpuImpl cfg) _).bind
  intro _
  exact moves_pure _

theorem still_refOnlyBlocks (tokens : List Token) (ts : Nat) (list : List (Nat × Nat))
    (lens : Nat × Nat) :
    Moves FramesStill (refOnlyBlocks cfg r tokens ts list lens : Prog E D _) := by
  induction list generalizing lens with
  | nil => exact moves_pure _
  | cons block rest ih =>
      apply moves_get_bind
      intro s
      split
      · apply (still_modifyGpu _).bind
        intro _
        apply (still_updateNodeTs _ ts).bind
        intro _
        exact (still_modifyGpu _).bind (fun _ => ih _)
      · split
        · exact (still_updateNodeTs _ ts).bind (fun _ => ih _)
        · exact moves_pure _

theorem still_insertBlock (tokens : List Token) (ts : Nat) (v : InsertLocals)
    (block : Nat × Nat) :
    Moves FramesStill (insertBlock cfg r tokens ts v block : Prog E D InsertLocals) := by
  apply moves_get_bind
  intro s
  split
  · exact moves_throw _
  · apply (still_createGpuNode _ _ _ _ _).bind
    intro n
    apply (still_modifyGpu _).bind
    intro _
    apply (still_modifyGpu _).bind
    intro _
    split
    · apply (still_modifyGpu _).bind
      intro _
      exact (still_modifyGpu _).bind (fun _ => moves_pure _)
    · apply (still_modifyGpu _).bind
      intro _
      apply moves_get_bind
      intro s
      split
      · apply (still_modifyGpu _).bind
        intro _
        exact (still_modifyGpu _).bind (fun _ => moves_pure _)
      · split
        · apply (still_gpuAt _).bind
          intro m
          exact (still_modifyGpu _).bind (fun _ => moves_pure _)
        · exact moves_pure _

theorem still_unRef (list : List NodeId) : Moves FramesStill (unRef list : Prog E D Unit) := by
  apply moves_forEach
  intro n
  apply moves_get_bind
  intro s
  dsimp only
  split
  · apply moves_get_bind
    intro s
    exact still_updateNodeTs _ _
  · split
    · apply (still_modifyGpu _).bind
      intro _
      apply moves_get_bind
      intro s
      exact still_updateNodeTs _ _
    · apply (still_modifyGpu _).bind
      intro _
      apply moves_get_bind
      intro s
      exact still_updateNodeTs _ _

theorem still_stopRequest : Moves FramesStill (stopRequest r : Prog E D Unit) := by
  apply moves_get_bind
  intro s
  exact (still_unRef _).bind (fun _ => still_modifyGpu _)

end Operations

end DashInfer.Cache
