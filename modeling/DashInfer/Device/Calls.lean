import DashInfer.Device.FreeRegions

/-!
The calls of a client: `AllocateRaw`, `DeallocateRaw` and `DeallocateFreeRegions`,
and the sessions they make up. A session keeps, beside the allocator, the
allocations its client holds.
-/

namespace DashInfer.Device

open Lib

variable {E : OrderedSet ChunkHandle} {cfg : Config} {s t : Allocator E}
  {b : Block} {spans spans' : List Span} {unused : List ChunkHandle} {p : Nat}
  {X : Fault → Allocator E → Prop}

theorem located_eq {chunks : ChunkHandle → Chunk} {prev next : Option ChunkHandle}
    {l : List Block} (h : tiles.Seg chunks prev p l next) :
    located p l = l.map fun b => ((chunks b.handle).ptr, b) := by
  induction l generalizing prev p with
  | nil => rfl
  | cons b rest ih =>
      have hptr : (chunks b.handle).ptr = p := congrArg Chunk.ptr h.1
      have hrest : located (p + b.size) rest = _ := ih h.2
      rw [located, List.map_cons, hrest, hptr]

/-- The blocks in use, with the addresses their chunks hold. -/
theorem inUseAt_eq {chunks : ChunkHandle → Chunk} (h : ∀ e ∈ spans, e.Ok chunks) :
    inUseAt spans =
      ((blocksOf spans).filter Block.inUse).map fun b => ((chunks b.handle).ptr, b) := by
  induction spans with
  | nil => rfl
  | cons e rest ih =>
      have hthis := (h e (List.mem_cons_self ..)).seg
      have hrest := ih fun e' he' => h e' (List.mem_cons_of_mem _ he')
      change usedAt e.region.ptr e.blocks ++ inUseAt rest =
        List.map _ (List.filter _ (e.blocks ++ blocksOf rest))
      rw [List.filter_append, List.map_append, hrest, usedAt, located_eq hthis, List.filter_map]
      rfl

theorem Layout.mem_inUseAt (h : Layout s spans unused) :
    (p, b) ∈ inUseAt spans ↔
      b ∈ blocksOf spans ∧ b.inUse = true ∧ (s.chunks b.handle).ptr = p := by
  rw [inUseAt_eq h.spanOk]
  simp only [List.mem_map, List.mem_filter, Prod.mk.injEq]
  constructor
  · rintro ⟨b', ⟨hb, hused⟩, hptr, rfl⟩
    exact ⟨hb, hused, hptr⟩
  · rintro ⟨hb, hused, hptr⟩
    exact ⟨b, ⟨hb, hused⟩, hptr, rfl⟩

theorem Layout.inUseAt_nodup (h : Layout s spans unused) : (inUseAt spans).Nodup := by
  have hordered := spans_ordered h.sorted h.spanOk
  rw [inUseAt_eq h.spanOk, List.Nodup, List.pairwise_map]
  refine (hordered.filter _).imp_of_mem fun {x y} hx _ hle heq => ?_
  have hpos := (h.blockOk (List.mem_of_mem_filter hx)).pos
  have hptr := (Prod.mk.inj heq).1
  omega

theorem usedBytes_eq_sum (l : List Block) :
    usedBytes l = ((l.filter Block.inUse).map Block.size).sum := by
  induction l with
  | nil => rfl
  | cons b rest ih =>
      rw [usedBytes] at ih ⊢
      cases hused : b.inUse with
      | true => simp [hused, ih]
      | false => simp [hused, ih]

/-- The counter is a matter of the blocks in use alone. -/
theorem Inv.bytesInUse_eq (h : Inv cfg s spans unused) :
    s.stats.bytesInUse = (((inUseAt spans).map fun x => x.2.size).sum : Nat) := by
  rw [h.shape.counted.inUse, usedBytes_eq_sum, inUseAt_eq h.shape.layout.spanOk, List.map_map]
  rfl

/-- One block is no longer in use, and its bytes are part of a free one. -/
structure Releases (s : Allocator E) (spans : List Span) (p : Nat) (b : Block) (t : Allocator E)
    (spans' : List Span) : Prop where
  used : ∃ before after, inUseAt spans = before ++ (p, b) :: after ∧
    inUseAt spans' = before ++ after
  bytes : t.stats.bytesInUse = s.stats.bytesInUse - b.size
  free : ∃ o ∈ blocksOf spans', o.inUse = false ∧ (t.chunks o.handle).ptr ≤ p ∧
    p + b.size ≤ (t.chunks o.handle).ptr + o.size

/-- `DeallocateRawInternal` once it has found a chunk in use. -/
theorem post_release {k : Hole} {r : Region} (h : Inv cfg s (k.fill r [b]) unused)
    (hused : b.allocationId ≠ -1) :
    Post (do
        markFree b.handle
        insertFreeChunkIntoBin (← tryToCoalesce b.handle false)) s
      (fun _ t => ∃ spans' unused', Inv cfg t spans' unused' ∧
        Releases s (k.fill r [b]) (s.chunks b.handle).ptr b t spans') X := by
  have hmem : b ∈ [b] := List.mem_singleton_self b
  have hloose : b.binNum = none := by
    cases hbin : b.binNum with
    | none => rfl
    | some i =>
        exact absurd ((h.shape.layout.blockOk (h.shape.layout.mem_fill hmem)).binned i hbin).1 hused
  have hspan : Spaced (k.left ++ ([b] ++ k.right)) :=
    h.tidy.spaced ⟨r, k.left ++ ([b] ++ k.right)⟩
      (List.mem_append_right _ (List.mem_cons_self ..))
  obtain ⟨hleft, hrest, _⟩ := List.isChain_append.mp hspan
  have hptr : (s.chunks b.handle).ptr = r.ptr + tiles.widths k.left :=
    congrArg Chunk.ptr h.shape.layout.cell
  rw [post_bind]
  refine (post_markFree h.shape hused).imp ?_ (fun _ _ hx => hx)
  rintro _ u ⟨hu, hbytes⟩
  have hsettled : ∀ o ∈ k.others, o.Settled := fun o ho =>
    h.tidy.settled o (Hole.mem_blocksOf_fill.mpr (Or.inr ho))
  have hspans : ∀ e ∈ k.before ++ k.after, Spaced e.blocks := by
    intro e he
    refine h.tidy.spaced e ?_
    simp only [Hole.fill, List.mem_append, List.mem_cons] at he ⊢
    tauto
  refine (post_returnToBin hu rfl hloose hsettled hleft (List.isChain_cons.mp hrest).2 hspans).imp
    ?_ (fun _ _ hx => hx)
  rintro _ v ⟨k', r', b', unused', hret, hv, htidy⟩
  have hinv : Inv cfg v (k'.fill r' [b']) unused' := ⟨hv, htidy⟩
  have hbefore : inUseAt (k.fill r [b]) =
      (inUseAt k.before ++ usedAt r.ptr k.left) ++ ((s.chunks b.handle).ptr, b) ::
        (usedAt (r.ptr + tiles.widths k.left + b.size) k.right ++ inUseAt k.after) := by
    rw [inUseAt_fill, usedAt_used _ hused, hptr]
    simp
  have hafter : inUseAt (k'.fill r' [b']) =
      (inUseAt k.before ++ usedAt r.ptr k.left) ++
        (usedAt (r.ptr + tiles.widths k.left + b.size) k.right ++ inUseAt k.after) := by
    rw [hret.used, inUseAt_fill, usedAt_free _ rfl]
    simp
  refine ⟨_, unused', hinv, ⟨_, _, hbefore, hafter⟩, ?_, ?_⟩
  · rw [hinv.bytesInUse_eq, h.bytesInUse_eq, hbefore, hafter]
    simp only [List.map_append, List.map_cons, List.sum_append, List.sum_cons]
    push_cast
    omega
  · refine ⟨b', Hole.mem_blocksOf_fill.mpr (Or.inl (List.mem_singleton_self b')), ?_, ?_⟩
    · simp [Block.inUse, hret.free]
    · have hptr' : (v.chunks b'.handle).ptr = r'.ptr + tiles.widths k'.left :=
        congrArg Chunk.ptr hv.layout.cell
      have hbase := hret.ptr
      have hlow := hret.low
      have hhigh := hret.high
      simp only [] at hhigh
      rw [hptr', hptr]
      omega

/-- `get_handle` as a function of the state, where the index is in bounds. -/
def Allocator.lookup (s : Allocator E) (p : Nat) : Option ChunkHandle :=
  match regionFor p s.regions with
  | none => some 0
  | some r => r.handles (r.indexFor p)

/-- The chunk that `get_handle` finds at the address of a block. -/
theorem Layout.lookup_eq (h : Layout s spans unused) (hb : b ∈ blocksOf spans) :
    s.lookup (s.chunks b.handle).ptr = some b.handle ∧
      ∀ Q : Option ChunkHandle → Allocator E → Prop,
        Post (getHandle (s.chunks b.handle).ptr) s Q X ↔ Q (some b.handle) s := by
  obtain ⟨k, r, rfl⟩ := exists_hole hb
  have hspan := h.span
  have hbspan : b ∈ k.left ++ ([b] ++ k.right) := by simp
  have hin := hspan.within hbspan
  have hpos := (hspan.blocksOk b hbspan).pos
  simp only [] at hin
  have hptr : (s.chunks b.handle).ptr = r.ptr + tiles.widths k.left := congrArg Chunk.ptr h.cell
  have hwidths : kMinAllocationSize ∣ tiles.widths k.left :=
    widths_aligned fun o ho => hspan.blocksOk o (by simp [ho])
  have hhandle : r.handles (((s.chunks b.handle).ptr - r.ptr) / kMinAllocationSize) =
      some b.handle := by
    refine (hspan.mapped _ _).mpr ⟨List.mem_map_of_mem hbspan, ?_⟩
    rw [hptr, Nat.add_sub_cancel_left, Nat.mul_div_cancel' hwidths]
  have hsorted := h.sorted
  rw [Hole.regionsOf_fill] at hsorted
  have hfind := (regionFor_eq hsorted hin.1 (by omega)).1
  rw [← Hole.regionsOf_fill (m := [b]), ← h.regions] at hfind
  refine ⟨?_, fun Q => ?_⟩
  · rw [Allocator.lookup, hfind]
    simp only []
    rw [(indexFor_eq hin.1 (by omega) hspan.top).1, hhandle]
  · rw [post_getHandle h.regions h.sorted hin.1 (by omega) hspan.top, hhandle]

/-- A handle that `get_handle` reads out of a table is that of a block. -/
theorem Layout.mem_of_lookup (h : Layout s spans unused) {r : Region} {i : Nat} {x : ChunkHandle}
    (hr : r ∈ s.regions) (hx : r.handles i = some x) :
    ∃ b ∈ blocksOf spans, b.handle = x := by
  rw [h.regions] at hr
  obtain ⟨e, he, rfl⟩ := List.mem_map.mp hr
  obtain ⟨b, hb, rfl⟩ := List.mem_map.mp ((h.spanOk e he).mapped i x |>.mp hx).1
  exact ⟨b, List.mem_flatMap.mpr ⟨e, he, hb⟩, rfl⟩

/-- What `DeallocateRawInternal` leaves: the state as it was, or a chunk
released that is not chunk 0. -/
def Deallocated (cfg : Config) (s : Allocator E) (spans : List Span) (t : Allocator E) : Prop :=
  t = s ∨ ∃ b ∈ blocksOf spans, b.handle ≠ 0 ∧ ∃ spans' unused', Inv cfg t spans' unused' ∧
    Releases s spans (s.chunks b.handle).ptr b t spans'

/-- `DeallocateRawInternal` on any pointer at all; a fault changes nothing. -/
theorem post_deallocateRaw (h : Inv cfg s spans unused) (p : Nat) :
    Post (deallocateRaw p) s (fun _ t => Deallocated cfg s spans t) (fun _ t => t = s) := by
  rw [deallocateRaw]
  by_cases hp : p = 0
  · rw [if_pos hp]
    exact Or.inl rfl
  · rw [if_neg hp, post_bind, getHandle, post_bind, post_get]
    cases hfind : regionFor p s.regions with
    | none => exact Or.inl rfl
    | some r =>
        simp only []
        by_cases hidx : r.indexFor p < r.nHandles
        · rw [if_pos hidx, post_pure]
          by_cases hzero : r.handles (r.indexFor p) = some 0
          · rw [if_pos hzero]
            exact Or.inl rfl
          · rw [if_neg hzero]
            cases hx : r.handles (r.indexFor p) with
            | none => exact rfl
            | some x =>
                rw [hx] at hzero
                obtain ⟨b, hb, rfl⟩ := h.shape.layout.mem_of_lookup
                  (List.mem_of_find?_eq_some hfind) hx
                have hne : b.handle ≠ 0 := fun heq => hzero (congrArg some heq)
                obtain ⟨k, r', rfl⟩ := exists_hole hb
                simp only []
                by_cases hused : b.allocationId = -1
                · -- The chunk is free already: `MarkFree` refuses it.
                  obtain ⟨hlt, hinUse, _⟩ := h.shape.layout.cell_of_mem hb
                  have hnot : b.inUse = false := by simp [Block.inUse, hused]
                  rw [post_bind, markFree, post_bind, post_chunkFromHandle hlt, post_bind,
                    post_enforce_false (by rw [hinUse, hnot]; rfl)]
                · refine (post_release h hused).imp ?_ (fun _ _ hx => hx)
                  rintro _ t ⟨spans', unused', hinv, hrel⟩
                  exact Or.inr ⟨b, hb, hne, spans', unused', hinv, hrel⟩
        · rw [if_neg hidx]
          exact rfl

def heldOf (spans : List Span) : List (Nat × Nat) :=
  (regionsOf spans).map fun r => (r.ptr, r.memorySize)

/-- What is left under the limit when the given memory is held. -/
def availableUnder (cfg : Config) (held : List (Nat × Nat)) : Nat :=
  (cfg.memoryLimit - (held.map Prod.snd).sum) / kMinAllocationSize * kMinAllocationSize

/-- Too little is left under the limit, or the device refuses a region that
would do. -/
def NoRegion (cfg : Config) (device : SubAllocator) (held : List (Nat × Nat))
    (rounded : Nat) : Prop :=
  availableUnder cfg held < rounded ∨
    ∃ bytes, rounded ≤ bytes ∧ bytes ≤ availableUnder cfg held ∧
      device.allocate held bytes = none

theorem sum_heldOf : ((heldOf spans).map Prod.snd).sum = regionBytes (regionsOf spans) := by
  rw [heldOf, List.map_map]
  rfl

theorem Inv.held_eq (h : Inv cfg s spans unused) : s.held = heldOf spans := by
  rw [Allocator.held, h.shape.layout.regions, heldOf]

theorem Refused.noRegion {device : SubAllocator} {rounded : Nat} (h : Inv cfg s spans unused)
    (hrefused : Refused cfg device s rounded) : NoRegion cfg device (heldOf spans) rounded := by
  have havail : s.availableBytes cfg = availableUnder cfg (heldOf spans) := by
    rw [h.availableBytes_eq, availableUnder, sum_heldOf, h.shape.counted.total]
  rw [Refused, havail, h.held_eq] at hrefused
  rcases hrefused with hlow | ⟨curr, hgrow, hdev⟩
  · exact Or.inl hlow
  · by_cases hlow : availableUnder cfg (heldOf spans) < rounded
    · exact Or.inl hlow
    · obtain ⟨hle, _⟩ := growRegionBytes_spec h.shape.counted.aligned hgrow
      exact Or.inr ⟨_, Nat.le_min.mpr ⟨hle, Nat.le_of_not_lt hlow⟩, Nat.min_le_right _ _, hdev⟩

theorem regionBytes_split :
    regionBytes (regionsOf (occupiedSpans spans)) + regionBytes (regionsOf (vacantSpans spans)) =
      regionBytes (regionsOf spans) := by
  induction spans with
  | nil => rfl
  | cons e rest ih =>
      simp only [regionBytes, regionsOf, occupiedSpans, vacantSpans, List.map_map] at ih ⊢
      cases hused : e.occupied with
      | true =>
          simp only [List.filter_cons, hused, if_true, Bool.not_true, Bool.false_eq_true, if_false,
            List.map_cons, List.sum_cons]
          omega
      | false =>
          simp only [List.filter_cons, hused, Bool.not_false, if_true, Bool.false_eq_true, if_false,
            List.map_cons, List.sum_cons]
          omega

theorem occupiedSpans_of_vacant_nil (h : vacantSpans spans = []) : occupiedSpans spans = spans := by
  refine List.filter_eq_self.mpr fun e he => ?_
  have hnot := List.filter_eq_nil_iff.mp h e he
  simpa using hnot

/-- Why a request of positive size gets no memory. -/
structure OutOfMemory (cfg : Config) (device : SubAllocator) (spans : List Span)
    (rounded : Nat) : Prop where
  noFit : NoFit spans rounded
  noRegion : NoRegion cfg device (heldOf spans) rounded
  noRegionAfterReturn : cfg.garbageCollection = true →
    NoRegion cfg device (heldOf (occupiedSpans spans)) rounded

/-- What `AllocateRawInternal` leaves. -/
def Allocated (cfg : Config) (device : SubAllocator) (spans : List Span) (numBytes : Nat)
    (o : Option Nat) (t : Allocator E) : Prop :=
  ∃ spans' unused', Inv cfg t spans' unused' ∧
    match o with
    | some p => Allocates spans spans' p (roundedBytes numBytes) numBytes
    | none => inUseAt spans' = inUseAt spans ∧
        (0 < numBytes → OutOfMemory cfg device spans (roundedBytes numBytes))

/-- A search after a successful `Extend` finds a chunk. -/
private theorem post_findAfterExtend (device : SubAllocator) {numBytes : Nat}
    {base : List Span} (hbase : inUseAt spans = inUseAt base)
    (hpos : 0 < numBytes) (hlt : numBytes < 2 ^ 63)
    (h : Extended cfg spans (roundedBytes numBytes) s) :
    Post (findChunkPtr cfg (binNumForSize (roundedBytes numBytes)) (roundedBytes numBytes)
        numBytes) s
      (fun o t => o.isSome = true ∧ Allocated cfg device base numBytes o t) X := by
  obtain ⟨_, hrpos, halign, _⟩ := roundedBytes_spec hpos hlt
  obtain ⟨spans', unused', hinv, hused, b, hb, hfree, hsize⟩ := h
  refine (post_findChunkPtr hinv hrpos halign).imp ?_ (fun _ _ hx => hx)
  intro o t hsearched
  cases o with
  | none => exact absurd (hsearched.2 b hb hfree) (by omega)
  | some p =>
      obtain ⟨spans'', unused'', hinv', before, after, b', hold, hnew, hfit, hreq⟩ := hsearched
      exact ⟨rfl, spans'', unused'', hinv', before, after, b', by rw [← hbase, ← hused, hold],
        hnew, hfit, hreq⟩

/-- `AllocateRawInternal` hands out a block, or has none to hand out. -/
theorem post_allocateRaw (device : SubAllocator) {numBytes : Nat} (h : Inv cfg s spans unused)
    (hlt : numBytes < 2 ^ 63) :
    Post (allocateRaw cfg device numBytes) s (Allocated cfg device spans numBytes)
      (fun _ t => ∃ spans' unused', Inv cfg t spans' unused' ∧
        inUseAt spans' = inUseAt spans) := by
  rw [allocateRaw]
  by_cases hzero : numBytes = 0
  · rw [if_pos hzero]
    exact ⟨spans, unused, h, rfl, fun hpos => absurd hzero (by omega)⟩
  · rw [if_neg hzero]
    have hpos : 0 < numBytes := Nat.pos_of_ne_zero hzero
    obtain ⟨_, hrpos, halign, _⟩ := roundedBytes_spec hpos hlt
    rw [post_bind]
    refine (post_findChunkPtr h hrpos halign).imp ?_ (fun _ _ hx => hx)
    intro o t hsearched
    cases o with
    | some p =>
        obtain ⟨spans', unused', hinv, halloc⟩ := hsearched
        exact ⟨spans', unused', hinv, halloc⟩
    | none =>
        obtain ⟨rfl, hnoFit⟩ := hsearched
        simp only [post_bind]
        refine (post_extend h hrpos).imp ?_ ?_
        · intro ok u hu
          cases ok with
          | true =>
              simp only [if_true, post_bind]
              refine (post_findAfterExtend device rfl hpos hlt hu).imp ?_ (fun _ _ hx => hx)
              rintro o v ⟨hsome, hv⟩
              obtain ⟨p, rfl⟩ := Option.isSome_iff_exists.mp hsome
              exact hv
          | false =>
              obtain ⟨hinv, ⟨curr, rfl⟩, hrefused⟩ := hu
              have hnoRegion := hrefused.noRegion h
              simp only [Bool.false_eq_true, if_false, post_pure, allocateAfterReturn, post_bind]
              refine (post_deallocateFreeRegions hinv).imp ?_ (fun _ _ hx => hx)
              intro returned v hv
              cases returned with
              | false =>
                  obtain ⟨rfl, hnothing⟩ := hv
                  simp only [Bool.false_eq_true, if_false, post_pure]
                  refine ⟨spans, unused, hinv, rfl, fun _ => ⟨hnoFit, hnoRegion, fun hgc => ?_⟩⟩
                  rcases hnothing hgc with hnil | hlow
                  · rw [occupiedSpans_of_vacant_nil hnil]
                    exact hnoRegion
                  · have hsplit := @regionBytes_split spans
                    have htotal := hinv.shape.counted.total
                    have hlimit := hinv.shape.counted.limit
                    refine Or.inl (Nat.lt_of_le_of_lt (Nat.div_mul_le_self _ _) ?_)
                    rw [sum_heldOf]
                    simp only [] at htotal hlimit hlow
                    omega
              | true =>
                  obtain ⟨_, unused', hinv'⟩ := hv
                  simp only [if_true, post_bind]
                  refine (post_extend hinv' hrpos).imp ?_ ?_
                  · intro ok w hw
                    cases ok with
                    | true =>
                        refine (post_findAfterExtend device inUseAt_occupied hpos hlt hw).imp ?_
                          (fun _ _ hx => hx)
                        rintro o x ⟨_, hx⟩
                        exact hx
                    | false =>
                        obtain ⟨hinv'', _, hrefused'⟩ := hw
                        simp only [Bool.false_eq_true, if_false, post_pure]
                        exact ⟨_, _, hinv'', inUseAt_occupied,
                          fun _ => ⟨hnoFit, hnoRegion, fun _ => hrefused'.noRegion hinv'⟩⟩
                  · rintro e w ⟨_, rfl, _⟩
                    exact ⟨_, _, hinv', inUseAt_occupied⟩
        · rintro e u ⟨_, rfl, _⟩
          exact ⟨spans, unused, h, rfl⟩

end DashInfer.Device
