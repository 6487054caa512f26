import DashInfer.Device.Extend

/-!
`DeallocateFreeRegions`: the regions without a chunk in use go back to the
device. As free neighbours are always merged, such a region is a single chunk.
-/

namespace DashInfer.Device

open Lib

variable {E : OrderedSet ChunkHandle} {cfg : Config} {s t : Allocator E}
  {r : Region} {b : Block} {spans : List Span} {unused : List ChunkHandle}
  {X : Fault → Allocator E → Prop}

/-- A chunk of the region is in use. -/
def Span.occupied (e : Span) : Bool := e.blocks.any Block.inUse

/-- The regions that stay, and those that can be given back. -/
def occupiedSpans (spans : List Span) : List Span := spans.filter Span.occupied
def vacantSpans (spans : List Span) : List Span := spans.filter fun e => !e.occupied

theorem inUseAt_occupied : inUseAt (occupiedSpans spans) = inUseAt spans := by
  induction spans with
  | nil => rfl
  | cons e rest ih =>
      have hrest : inUseAt (e :: rest) = usedAt e.region.ptr e.blocks ++ inUseAt rest := rfl
      rw [hrest, ← ih, occupiedSpans]
      by_cases hused : e.occupied = true
      · rw [List.filter_cons_of_pos hused]
        rfl
      · rw [List.filter_cons_of_neg hused, usedAt_of_free]
        · rfl
        · intro o ho
          rw [Bool.not_eq_true, Span.occupied, List.any_eq_false] at hused
          exact Block.not_inUse.mp (hused o ho)

/-- A region without a chunk in use is one chunk. -/
theorem Inv.vacant_single (h : Inv cfg s spans unused) {e : Span} (he : e ∈ spans)
    (hvacant : e.occupied = false) :
    ∃ b i, e.blocks = [b] ∧ b.allocationId = -1 ∧ b.binNum = some i := by
  have hnone : ∀ o ∈ e.blocks, ¬ o.inUse = true := List.any_eq_false.mp hvacant
  have hspaced := h.tidy.spaced e he
  obtain ⟨b, rest, hblocks⟩ :=
    List.exists_cons_of_ne_nil (h.shape.layout.spanOk e he).nonempty
  have hb : b ∈ e.blocks := by simp [hblocks]
  obtain ⟨i, hi⟩ := (h.tidy.settled b (List.mem_flatMap.mpr ⟨e, he, hb⟩)).free (hnone b hb)
  refine ⟨b, i, ?_, Block.not_inUse.mp (hnone b hb), hi⟩
  cases rest with
  | nil => exact hblocks
  | cons b' rest' =>
      rw [hblocks] at hspaced
      rcases (List.isChain_cons_cons.mp hspaced).1 with hused | hused
      · exact absurd hused (hnone b hb)
      · exact absurd hused (hnone b' (by simp [hblocks]))

/-- The handle at the base of a region is that of its first chunk. -/
theorem Layout.post_baseHandle (h : Layout s spans unused) {e : Span} (he : e ∈ spans)
    {Q : Option ChunkHandle → Allocator E → Prop} :
    Post (getHandle e.region.ptr) s Q X ↔ Q (tiles.first e.blocks none) s := by
  obtain ⟨before, after, rfl⟩ := List.append_of_mem he
  have hok := h.spanOk e he
  have hregions : regionsOf (before ++ e :: after) =
      regionsOf (Hole.fill ⟨before, [], [], after⟩ e.region []) := by
    simp [Hole.fill, regionsOf]
  obtain ⟨o, rest, hblocks⟩ := List.exists_cons_of_ne_nil hok.nonempty
  have hin := hok.within (b := o) (by simp [hblocks])
  have hpos := (hok.blocksOk o (by simp [hblocks])).pos
  rw [post_getHandle (h.regions.trans hregions) (hregions ▸ h.sorted) (Nat.le_refl _) (by omega)
    hok.top, Nat.sub_self, Nat.zero_div, hok.handles_zero hblocks, hblocks, Tiles.first_cons]
  rfl

theorem post_anyUse {l : List Block} {prev : Option ChunkHandle} {p fuel : Nat}
    (hseg : tiles.Seg s.chunks prev p l none) (hlt : ∀ b ∈ l, b.handle < s.chunkNum)
    (hfuel : l.length ≤ fuel) :
    Post (anyUse fuel (tiles.first l none)) s
      (fun used t => t = s ∧ used = l.any Block.inUse) X := by
  induction l generalizing prev p fuel with
  | nil =>
      cases fuel <;> exact ⟨rfl, rfl⟩
  | cons b rest ih =>
      obtain ⟨fuel, rfl⟩ : ∃ n, fuel = n + 1 := ⟨fuel - 1, by simp at hfuel; omega⟩
      have hcell : s.chunks b.handle = b.chunk prev p (tiles.first rest none) := hseg.1
      change Post (anyUse (fuel + 1) (some b.handle)) s _ _
      rw [anyUse, post_bind, post_chunkFromHandle (hlt b (List.mem_cons_self ..)), hcell,
        show (b.chunk prev p (tiles.first rest none)).inUse = b.inUse from rfl, List.any_cons]
      cases hused : b.inUse with
      | true => exact ⟨rfl, rfl⟩
      | false =>
          refine ih hseg.2 (fun b' hb' => hlt b' (List.mem_cons_of_mem _ hb')) ?_
          simpa using hfuel

theorem post_freeRegions (h : Layout s spans unused) (l : List Span) (hl : ∀ e ∈ l, e ∈ spans) :
    Post (freeRegions (regionsOf l)) s
      (fun free t => t = s ∧ free = regionsOf (vacantSpans l)) X := by
  induction l with
  | nil => exact ⟨rfl, rfl⟩
  | cons e rest ih =>
      have he := hl e (List.mem_cons_self ..)
      have hok := h.spanOk e he
      change Post (freeRegions (e.region :: regionsOf rest)) s _ _
      rw [freeRegions, post_bind, post_get, post_bind, h.post_baseHandle he, post_bind]
      refine (post_anyUse hok.seg (fun b hb => h.lt_chunkNum (List.mem_flatMap.mpr ⟨e, he, hb⟩))
        (blocks_length_le h.nodup h.bound he)).imp ?_ (fun _ _ hx => hx)
      rintro used t ⟨rfl, rfl⟩
      rw [post_bind]
      refine (ih fun e' he' => hl e' (List.mem_cons_of_mem _ he')).imp ?_ (fun _ _ hx => hx)
      rintro free u ⟨rfl, rfl⟩
      refine ⟨rfl, ?_⟩
      cases hused : e.blocks.any Block.inUse with
      | true => simp [Span.occupied, hused, vacantSpans]
      | false => simp [Span.occupied, hused, vacantSpans, regionsOf]

/-- A region that was given back, with the chunk it consisted of. -/
theorem Shape.dropRegion {before after : List Span}
    (h : Shape cfg s (Hole.fill ⟨before, [], [], after⟩ r [b]) unused)
    (hfree : b.allocationId = -1) (hloose : b.binNum = none)
    (hchunks : t.chunks = Function.update s.chunks b.handle { s.chunks b.handle with
      allocationId := -1, binNum := none, next := s.freeChunksList })
    (hnum : t.chunkNum = s.chunkNum) (hhead : t.freeChunksList = some b.handle)
    (hregions : t.regions = regionsOf (before ++ after)) (hbins : t.bins = s.bins)
    (hcurr : t.currRegionAllocationBytes = s.currRegionAllocationBytes)
    (htotal : t.totalRegionAllocatedBytes = s.totalRegionAllocatedBytes - r.memorySize)
    (hnext : t.nextAllocationId = s.nextAllocationId) (hstats : t.stats = s.stats) :
    Shape cfg t (before ++ after) (b.handle :: unused) := by
  have hmem : b ∈ [b] := List.mem_singleton_self b
  have hothers : Hole.others ⟨before, [], [], after⟩ = blocksOf (before ++ after) := by
    simp [Hole.others, blocksOf]
  obtain ⟨hne, hneUnused⟩ := h.layout.handle_ne hmem
  rw [hothers] at hne
  have hkept : ∀ y, y ≠ b.handle → t.chunks y = s.chunks y := by
    intro y hy
    rw [hchunks, Function.update_of_ne hy]
  have hnodup := Hole.nodup_fill.mp h.layout.nodup
  have hbound := Hole.bound_fill.mp h.layout.bound
  rw [hothers] at hnodup hbound
  have hc := h.counted
  refine ⟨⟨hregions, ?_, ?_, ?_, ?_, ?_⟩, ?_, ?_⟩
  · have hsorted := h.layout.sorted
    rw [Hole.regionsOf_fill] at hsorted
    rw [regionsOf, List.map_append]
    exact hsorted.sublist (List.Sublist.append_left (List.sublist_cons_self _ _) _)
  · intro e he
    refine ((Hole.spanOk_fill.mp h.layout.spanOk).1 e he).congr fun o ho => ?_
    exact hkept _ (hne o (List.mem_flatMap.mpr ⟨e, he, ho⟩))
  · rw [List.perm_middle.nodup_iff]
    exact hnodup
  · intro y hy
    rw [hnum]
    rcases List.mem_cons.mp (List.perm_middle.mem_iff.mp hy) with rfl | hy
    · exact hbound.1 _ (List.mem_singleton_self _)
    · exact hbound.2 y hy
  · rw [hhead]
    have hb : t.chunks b.handle = { s.chunks b.handle with
        allocationId := -1, binNum := none, next := s.freeChunksList } := by
      rw [hchunks, Function.update_self]
    refine ⟨rfl, by rw [hb], ?_⟩
    rw [hb]
    exact h.layout.freeList.congr fun y hy => hkept y (hneUnused y hy)
  · have hbinned := h.binned.perm Hole.blocksOf_fill_perm
    rw [hothers] at hbinned
    change Binned t ([] ++ blocksOf (before ++ after))
    refine hbinned.refill hbins (by simpa using hloose) (by simp) fun o ho => ?_
    rw [hkept _ (hne o ho)]
    exact ⟨rfl, rfl⟩
  · have hused := hc.inUse
    have hsum := hc.total
    rw [Hole.usedBytes_fill, hothers, usedBytes_loose hfree, Nat.zero_add] at hused
    rw [Hole.regionBytes_fill] at hsum
    have happend : regionBytes (regionsOf (before ++ after)) =
        regionBytes (regionsOf before) + regionBytes (regionsOf after) := by
      simp [regionBytes, regionsOf]
    refine ⟨by rw [hstats, hused], ?_, ?_, hnext ▸ hc.nextId, hcurr ▸ hc.aligned⟩
    · rw [htotal, hsum, happend]
      simp only []
      omega
    · have hlimit := hc.limit
      omega

/-- Two regions with one base are one region. -/
theorem Layout.span_eq (h : Layout s spans unused) {e e' : Span} (he : e ∈ spans)
    (he' : e' ∈ spans) (hptr : e.region.ptr = e'.region.ptr) : e = e' := by
  have hsize := (h.spanOk e he).size_pos
  have hsize' := (h.spanOk e' he').size_pos
  have hpair : spans.Pairwise fun e e' => e.region.endPtr ≤ e'.region.ptr :=
    List.pairwise_map.mp h.sorted
  rcases pairwise_or hpair he he' with heq | hle | hle
  · exact heq
  · simp only [Region.endPtr] at hle
    omega
  · simp only [Region.endPtr] at hle
    omega

theorem regionBytes_mem_le {e : Span} (he : e ∈ spans) :
    e.region.memorySize ≤ regionBytes (regionsOf spans) := by
  refine List.single_le_sum (by simp) _ ?_
  exact List.mem_map_of_mem (List.mem_map_of_mem he)

/-- One round of `DeallocateRegions` at a region that is a single free chunk. -/
theorem post_returnRegion {before after : List Span} {i : Nat}
    (h : Shape cfg s (Hole.fill ⟨before, [], [], after⟩ r [b]) unused)
    (hfree : b.allocationId = -1) (hbin : b.binNum = some i) :
    Post (do
        releaseChunks s.chunkNum (some b.handle)
        modify fun s => { s with
          totalRegionAllocatedBytes := wordSub s.totalRegionAllocatedBytes r.memorySize
          regions := s.regions.eraseIdx before.length }) s
      (fun _ t => Shape cfg t (before ++ after) (b.handle :: unused)) X := by
  have hmem : b ∈ [b] := List.mem_singleton_self b
  have hlt := h.layout.lt_of_fill hmem
  have hcell := h.layout.cell
  obtain ⟨fuel, hfuel⟩ : ∃ n, s.chunkNum = n + 1 :=
    ⟨s.chunkNum - 1, (Nat.succ_pred_eq_of_pos (Nat.lt_of_le_of_lt (Nat.zero_le _) hlt)).symm⟩
  have hbinned : (s.chunks b.handle).binNum = some i := by
    rw [hcell]
    exact hbin
  have hlast : (s.chunks b.handle).next = none := by
    rw [hcell]
    rfl
  rw [hfuel, post_bind, releaseChunks, post_bind, post_chunkFromHandle hlt, hbinned, hlast]
  simp only [Option.isSome_some, if_true]
  rw [post_bind]
  refine (post_removeFreeChunkFromBin h hbin).imp ?_ (fun _ _ hx => hx)
  intro _ u hu
  have hlt' := hu.layout.lt_of_fill (List.mem_singleton_self _)
  have hspan := hu.layout.span
  have hin := hspan.within (b := { b with binNum := none }) (by simp)
  have hpos := (hspan.blocksOk { b with binNum := none } (by simp)).pos
  simp only [] at hin hpos
  rw [post_bind, deleteChunk, post_bind, post_chunkFromHandle (by exact hlt'), post_bind,
    post_setHandle hu.layout.regions hu.layout.sorted hin.1 (by omega) hspan.top,
    post_deallocateChunk (by exact hlt')]
  have hdone : ∀ v : Allocator E, Post (releaseChunks fuel none) v
      (fun _ v => Post (modify fun s : Allocator E => { s with
        totalRegionAllocatedBytes := wordSub s.totalRegionAllocatedBytes r.memorySize
        regions := s.regions.eraseIdx before.length }) v
        (fun _ t => Shape cfg t (before ++ after) (b.handle :: unused)) X) X ↔
      Shape cfg { v with
        totalRegionAllocatedBytes := wordSub v.totalRegionAllocatedBytes r.memorySize
        regions := v.regions.eraseIdx before.length } (before ++ after) (b.handle :: unused) := by
    intro v
    cases fuel <;> exact Iff.rfl
  rw [hdone]
  refine hu.dropRegion hfree rfl rfl rfl rfl ?_ rfl rfl ?_ rfl rfl
  · have hlen : before.length = (regionsOf before).length := (List.length_map _).symm
    simp only [Hole.regionsOf_fill, hlen]
    rw [List.eraseIdx_append_of_length_le (Nat.le_refl _), Nat.sub_self, List.eraseIdx_zero,
      List.tail_cons, regionsOf, regionsOf, regionsOf, List.map_append]
  · have htotal := hu.counted.total
    have hlimit := hu.counted.limit
    have hlt63 := cfg.limit_lt
    rw [Hole.regionBytes_fill] at htotal
    exact wordSub_of_le (by simp only []; omega) (by simp only [wordSize]; omega)

theorem Tidy.append_occupied {before after : List Span} {e : Span}
    (h : Tidy (before ++ e :: after)) : Tidy (before ++ after) where
  settled b hb := by
    refine h.settled b ?_
    simp only [blocksOf, List.flatMap_append, List.flatMap_cons, List.mem_append] at hb ⊢
    tauto
  spaced e' he' := by
    refine h.spaced e' ?_
    simp only [List.mem_append, List.mem_cons] at he' ⊢
    tauto

/-- The loop of `DeallocateRegions`, `done` being the regions it went past. -/
theorem post_deallocateRegionsFrom {ptrs : List Nat} (todo done : List Span) (s : Allocator E)
    (unused : List ChunkHandle) (h : Inv cfg s (done ++ todo) unused)
    (hptrs : ∀ e ∈ todo, e.region.ptr ∈ ptrs ↔ e.occupied = false) :
    Post (deallocateRegionsFrom ptrs todo.length done.length) s
      (fun _ t => ∃ unused', Inv cfg t (done ++ occupiedSpans todo) unused') X := by
  induction todo generalizing done s unused with
  | nil => exact ⟨unused, h⟩
  | cons e rest ih =>
      have he : e ∈ done ++ e :: rest := by simp
      have hget : s.regions[done.length]? = some e.region := by
        rw [h.shape.layout.regions]
        simp [regionsOf]
      have hrest := fun e' he' => hptrs e' (List.mem_cons_of_mem _ he')
      rw [List.length_cons, deallocateRegionsFrom, post_bind, post_get, hget]
      by_cases hin : e.region.ptr ∈ ptrs
      · have hvacant := (hptrs e (List.mem_cons_self ..)).mp hin
        obtain ⟨b, i, hblocks, hfree, hbin⟩ := h.vacant_single he hvacant
        have hfill : done ++ e :: rest = Hole.fill ⟨done, [], [], rest⟩ e.region [b] := by
          simp [Hole.fill, ← hblocks]
        have hshape := h.shape
        rw [hfill] at hshape
        simp only [hin, if_true]
        rw [post_bind, h.shape.layout.post_baseHandle he, hblocks, Tiles.first_cons]
        have hreturn := post_returnRegion (X := X) hshape hfree hbin
        rw [post_bind] at hreturn
        rw [post_bind]
        refine hreturn.imp ?_ (fun _ _ hx => hx)
        intro _ u hu
        rw [post_bind]
        refine hu.imp ?_ (fun _ _ hx => hx)
        intro _ v hv
        have hocc : occupiedSpans (e :: rest) = occupiedSpans rest :=
          List.filter_cons_of_neg (by simp [hvacant])
        rw [hocc]
        exact ih done v _ ⟨hv, h.tidy.append_occupied⟩ hrest
      · have hused : e.occupied = true := by
          by_contra hne
          exact hin ((hptrs e (List.mem_cons_self ..)).mpr (Bool.not_eq_true _ ▸ hne))
        have hocc : occupiedSpans (e :: rest) = e :: occupiedSpans rest :=
          List.filter_cons_of_pos hused
        have hnext := ih (done ++ [e]) s unused (by simpa using h) hrest
        simp only [hin, if_false]
        rw [hocc]
        simpa using hnext

/-- What `DeallocateFreeRegions` finds when it gives nothing back. -/
def NothingToReturn (cfg : Config) (s : Allocator E) (spans : List Span) (rounded : Nat) : Prop :=
  cfg.garbageCollection = true → vacantSpans spans = [] ∨
    cfg.memoryLimit - s.totalRegionAllocatedBytes + regionBytes (regionsOf (vacantSpans spans)) <
      rounded

/-- `DeallocateFreeRegions` gives back exactly the regions without a chunk in use. -/
theorem post_deallocateFreeRegions {rounded : Nat} (h : Inv cfg s spans unused) :
    Post (deallocateFreeRegions cfg rounded) s
      (fun ok t => if ok then cfg.garbageCollection = true ∧
          ∃ unused', Inv cfg t (occupiedSpans spans) unused'
        else t = s ∧ NothingToReturn cfg s spans rounded) X := by
  have hlayout := h.shape.layout
  rw [deallocateFreeRegions]
  by_cases hgc : cfg.garbageCollection = true
  · rw [if_neg (by simp [hgc]), post_bind, post_get, post_bind]
    simp only [hlayout.regions]
    refine (post_freeRegions hlayout spans fun _ he => he).imp ?_ (fun _ _ hx => hx)
    rintro free t ⟨rfl, rfl⟩
    have hlt := cfg.limit_lt
    rw [wordSub_of_le h.shape.counted.limit (by simp only [wordSize]; omega)]
    by_cases hzero : ((regionsOf (vacantSpans spans)).map Region.memorySize).sum = 0
    · rw [if_pos hzero]
      refine ⟨rfl, fun _ => Or.inl (List.eq_nil_iff_forall_not_mem.mpr fun e he => ?_)⟩
      have hle : e.region.memorySize ≤ 0 := hzero ▸ regionBytes_mem_le he
      have hsize := (hlayout.spanOk e (List.mem_of_mem_filter he)).size_pos
      omega
    · rw [if_neg hzero]
      by_cases hlow : cfg.memoryLimit - t.totalRegionAllocatedBytes +
          ((regionsOf (vacantSpans spans)).map Region.memorySize).sum < rounded
      · rw [if_pos hlow]
        exact ⟨rfl, fun _ => Or.inr hlow⟩
      · rw [if_neg hlow, post_bind, deallocateRegions, post_bind, post_get]
        have hlen : t.regions.length = spans.length := by
          rw [hlayout.regions]
          exact List.length_map _
        rw [hlen]
        refine (post_deallocateRegionsFrom spans [] t unused h ?_).imp ?_ (fun _ _ hx => hx)
        · intro e he
          constructor
          · intro hin
            obtain ⟨r, hr, hptr⟩ := List.mem_map.mp hin
            obtain ⟨e', he', rfl⟩ := List.mem_map.mp hr
            obtain ⟨he'all, hvacant⟩ := List.mem_filter.mp he'
            rw [hlayout.span_eq he he'all hptr.symm]
            simpa using hvacant
          · intro hvacant
            exact List.mem_map_of_mem (List.mem_map_of_mem
              (List.mem_filter.mpr ⟨he, by simp [hvacant]⟩))
        · rintro _ u ⟨unused', hu⟩
          exact ⟨hgc, unused', hu⟩
  · rw [if_pos (by simp [hgc])]
    exact ⟨rfl, fun hx => absurd hx hgc⟩

end DashInfer.Device
