import DashInfer.Device.Chunks

/-!
Operations that change what a chunk is marked as and leave its place alone:
into a bin, out of it, free, in use. A bin is ordered by size and address, so
that two chunks are never equivalent in it.
-/

namespace DashInfer.Device

open Lib

variable {E : OrderedSet ChunkHandle}

section Comparator

variable {chunks chunks' : ChunkHandle → Chunk}

theorem strictWeak_chunkComparator (chunks : ChunkHandle → Chunk) :
    StrictWeak (chunkComparator chunks) where
  irrefl a := by simp [chunkComparator]
  trans a b c := by
    simp only [chunkComparator]
    split <;> split <;> split <;> simp only [decide_eq_true_eq] <;> omega
  apart a b c := by
    simp only [chunkComparator]
    split <;> split <;> split <;> simp only [decide_eq_true_eq] <;> omega

theorem ptr_eq_of_equivalent {x y : ChunkHandle} (h : Equivalent (chunkComparator chunks) x y) :
    (chunks x).ptr = (chunks y).ptr := by
  obtain ⟨hxy, hyx⟩ := h
  simp only [chunkComparator] at hxy hyx
  split at hxy <;> split at hyx <;> simp only [decide_eq_false_iff_not] at hxy hyx <;> omega

theorem chunkComparator_congr (h : ∀ x, (chunks' x).size = (chunks x).size ∧
    (chunks' x).ptr = (chunks x).ptr) : chunkComparator chunks' = chunkComparator chunks := by
  funext x y
  unfold chunkComparator
  rw [(h x).1, (h x).2, (h y).1, (h y).2]

end Comparator

variable {cfg : Config} {s t : Allocator E} {k : Hole} {r r' : Region} {m m' : List Block}
  {b b' : Block} {unused unused' : List ChunkHandle} {X : Fault → Allocator E → Prop}

theorem Counted.refill (h : Counted cfg s (k.fill r m)) (hsize : r'.memorySize = r.memorySize)
    (hinUse : t.stats.bytesInUse + usedBytes m = s.stats.bytesInUse + usedBytes m')
    (htotal : t.totalRegionAllocatedBytes = s.totalRegionAllocatedBytes)
    (hnext : 0 < t.nextAllocationId)
    (hcurr : t.currRegionAllocationBytes = s.currRegionAllocationBytes) :
    Counted cfg t (k.fill r' m') where
  inUse := by
    have hs := h.inUse
    rw [Hole.usedBytes_fill] at hs ⊢
    push_cast at hs ⊢
    omega
  total := by
    rw [htotal, h.total, Hole.regionBytes_fill, Hole.regionBytes_fill, hsize]
  limit := htotal ▸ h.limit
  nextId := hnext
  aligned := hcurr ▸ h.aligned

/-- A block marked anew in its place. -/
theorem Layout.remark (h : Layout s (k.fill r [b]) unused) (hok : b'.Ok)
    (hhandle : b'.handle = b.handle) (hsize : b'.size = b.size)
    (hsame : ∀ x, x ≠ b.handle → t.chunks x = s.chunks x)
    (hcell : ∀ prev p next, s.chunks b.handle = b.chunk prev p next →
      t.chunks b.handle = b'.chunk prev p next)
    (hnum : t.chunkNum = s.chunkNum) (hhead : t.freeChunksList = s.freeChunksList)
    (hregions : t.regions = s.regions) : Layout t (k.fill r [b']) unused := by
  have hmem : b ∈ [b] := List.mem_singleton_self b
  obtain ⟨hothers, hunused⟩ := h.handle_ne hmem
  have hkept : ∀ o ∈ k.others, t.chunks o.handle = s.chunks o.handle :=
    fun o ho => hsame _ (hothers o ho)
  have hnow := hcell _ _ _ h.cell
  have hptr : ∀ x, (t.chunks x).ptr = (s.chunks x).ptr := by
    intro x
    by_cases hx : x = b.handle
    · rw [hx, hnow, h.cell]
      rfl
    · rw [hsame x hx]
  refine h.refill ?_ rfl rfl ?_ ?_ ?_ ?_ ?_
  · rw [hregions, h.regions, Hole.regionsOf_fill, Hole.regionsOf_fill]
  · intro e he o ho
    exact hkept o (Hole.mem_others.mpr (Or.inl ⟨e, he, ho⟩))
  · refine h.span.refill rfl rfl ?_ ?_ ?_ ?_ ?_ ?_ ?_ ?_
    · simpa using hok
    · simpa [tiles] using hsize
    · intro next
      simpa [tiles] using hhandle
    · simp
    · intro o ho
      exact hkept o (Hole.mem_others.mpr (Or.inr (Or.inl ho)))
    · refine ⟨?_, trivial⟩
      rw [show tiles.handle b' = b.handle from hhandle]
      exact hnow
    · have hseg := (Tiles.seg_append.mp (Tiles.seg_append.mp h.span.seg).2).2
      rw [show tiles.last (tiles.last none k.left) [b'] = tiles.last (tiles.last none k.left) [b]
        from congrArg some hhandle]
      refine hseg.congr fun o ho => ?_
      exact hkept o (Hole.mem_others.mpr (Or.inr (Or.inr ho)))
    · intro i x
      rw [h.span.mapped, hptr]
      simp [hhandle]
  · have hnodup := Hole.nodup_fill.mp h.nodup
    simpa [hhandle] using hnodup
  · rw [hnum]
    have hbound := Hole.bound_fill.mp h.bound
    simpa [hhandle] using hbound
  · rw [hhead]
    exact h.freeList.congr fun x hx => hsame x (hunused x hx)

theorem Layout.lt_of_fill (h : Layout s (k.fill r m) unused) (hb : b ∈ m) :
    b.handle < s.chunkNum :=
  h.lt_chunkNum (h.mem_fill hb)

private theorem update_kept {chunks : ChunkHandle → Chunk} {h : ChunkHandle} {c : Chunk}
    (hsize : c.size = (chunks h).size) (hptr : c.ptr = (chunks h).ptr) (x : ChunkHandle) :
    (Function.update chunks h c x).size = (chunks x).size ∧
      (Function.update chunks h c x).ptr = (chunks x).ptr := by
  by_cases hx : x = h
  · rw [hx, Function.update_self]
    exact ⟨hsize, hptr⟩
  · rw [Function.update_of_ne hx]
    exact ⟨rfl, rfl⟩

/-- Two states that differ in their chunks and bins only. -/
structure SameRest (s t : Allocator E) : Prop where
  chunkNum : t.chunkNum = s.chunkNum
  freeChunksList : t.freeChunksList = s.freeChunksList
  regions : t.regions = s.regions
  curr : t.currRegionAllocationBytes = s.currRegionAllocationBytes
  total : t.totalRegionAllocatedBytes = s.totalRegionAllocatedBytes
  nextId : t.nextAllocationId = s.nextAllocationId
  stats : t.stats = s.stats

/-- A block that changes its bin, or enters or leaves one. -/
theorem Shape.rebin (h : Shape cfg s (k.fill r [b]) unused) {bin : Option Nat}
    (hok : ∀ i, bin = some i → b.allocationId = -1 ∧ i = binNumForSize b.size)
    (hchunks : t.chunks = Function.update s.chunks b.handle
      { s.chunks b.handle with binNum := bin })
    (hrest : SameRest s t)
    (hbinned : chunkComparator t.chunks = chunkComparator s.chunks →
      Binned t ({ b with binNum := bin } :: k.others)) :
    Shape cfg t (k.fill r [{ b with binNum := bin }]) unused := by
  have hall := h.layout.mem_fill (List.mem_singleton_self b)
  refine ⟨?_, ?_, ?_⟩
  · refine h.layout.remark ⟨(h.layout.blockOk hall).pos, (h.layout.blockOk hall).aligned, hok⟩
      rfl rfl ?_ ?_ hrest.chunkNum hrest.freeChunksList hrest.regions
    · intro x hx
      rw [hchunks, Function.update_of_ne hx]
    · intro prev p next hprev
      rw [hchunks, Function.update_self, hprev]
      rfl
  · refine (hbinned ?_).perm (Hole.blocksOf_fill_perm (m := [_])).symm
    rw [hchunks]
    exact chunkComparator_congr (update_kept rfl rfl)
  · refine h.counted.refill rfl ?_ hrest.total ?_ hrest.curr
    · rw [hrest.stats]
      rfl
    · rw [hrest.nextId]
      exact h.counted.nextId

/-- `InsertFreeChunkIntoBin` puts a free block into the bin of its size. -/
theorem post_insertFreeChunkIntoBin (h : Shape cfg s (k.fill r [b]) unused)
    (hfree : b.allocationId = -1) (hloose : b.binNum = none) :
    Post (insertFreeChunkIntoBin b.handle) s
      (fun _ t => Shape cfg t
        (k.fill r [{ b with binNum := some (binNumForSize b.size) }]) unused) X := by
  have hmem : b ∈ [b] := List.mem_singleton_self b
  have hlt := h.layout.lt_of_fill hmem
  have hcell := h.layout.cell
  have hall := h.layout.mem_fill hmem
  have hpass : (!(s.chunks b.handle).inUse && (s.chunks b.handle).binNum.isNone) = true := by
    rw [hcell]
    simp [Chunk.inUse, Block.chunk, hfree, hloose]
  rw [insertFreeChunkIntoBin, post_bind, post_chunkFromHandle hlt, post_bind, post_enforce hpass,
    post_bind, post_modifyChunk hlt, post_modify]
  have hbin : binNumForSize (s.chunks b.handle).size = binNumForSize b.size := by
    rw [hcell]
    rfl
  generalize binNumForSize (s.chunks b.handle).size = bin at hbin ⊢
  rw [← hbin]
  refine h.rebin ?_ rfl ⟨rfl, rfl, rfl, rfl, rfl, rfl, rfl⟩ ?_
  · intro i hi
    exact ⟨hfree, (Option.some.inj hi).symm.trans hbin⟩
  · intro hcmp
    have hnew : ∀ y ∈ E.toList (s.bins bin),
        ¬ Equivalent (chunkComparator s.chunks) y b.handle := by
      intro y hy hequiv
      obtain ⟨o, ho, rfl, hbino⟩ := (h.binned.mem_iff _ _).mp hy
      rw [h.layout.eq_of_ptr ho hall (ptr_eq_of_equivalent hequiv), hloose] at hbino
      cases hbino
    have hasc := h.binned.ascending bin
    have hweak := strictWeak_chunkComparator s.chunks
    constructor
    · intro i
      simp only [] at hcmp ⊢
      rw [hcmp]
      by_cases hi : i = bin
      · rw [hi, Function.update_self]
        exact E.ascending_insert hweak hasc hnew
      · rw [Function.update_of_ne hi]
        exact h.binned.ascending i
    · intro i x
      simp only [List.mem_cons] at hcmp ⊢
      rw [hcmp]
      have hold := h.binned.mem_iff i x
      simp only [Hole.mem_blocksOf_fill, List.mem_singleton] at hold
      have hin : x ∈ E.toList (Function.update s.bins bin
          (E.insert (chunkComparator s.chunks) (s.bins bin) b.handle) i) ↔
          (i = bin ∧ x = b.handle) ∨ x ∈ E.toList (s.bins i) := by
        by_cases hi : i = bin
        · rw [hi, Function.update_self, E.mem_insert hweak hasc hnew]
          simp
        · rw [Function.update_of_ne hi]
          simp [hi]
      rw [hin, hold]
      constructor
      · rintro (⟨rfl, rfl⟩ | ⟨o, rfl | ho, hx, hbino⟩)
        · exact ⟨_, Or.inl rfl, rfl, rfl⟩
        · rw [hloose] at hbino
          cases hbino
        · exact ⟨o, Or.inr ho, hx, hbino⟩
      · rintro ⟨o, rfl | ho, hx, hbino⟩
        · exact Or.inl ⟨(Option.some.inj hbino).symm, hx.symm⟩
        · exact Or.inr ⟨o, Or.inr ho, hx, hbino⟩

/-- The block taken out of its bin. -/
theorem post_eraseFromBin (h : Shape cfg s (k.fill r [b]) unused) {bin : Nat}
    (hbin : b.binNum = some bin) :
    Post (eraseFromBin bin b.handle) s
      (fun _ t => Shape cfg t (k.fill r [{ b with binNum := none }]) unused) X := by
  have hmem : b ∈ [b] := List.mem_singleton_self b
  have hlt := h.layout.lt_of_fill hmem
  have hall := h.layout.mem_fill hmem
  rw [eraseFromBin, post_bind, post_modify, post_modifyChunk (by exact hlt)]
  refine h.rebin ?_ rfl ⟨rfl, rfl, rfl, rfl, rfl, rfl, rfl⟩ ?_
  · intro i hi
    cases hi
  · intro hcmp
    have hasc := h.binned.ascending bin
    have hweak := strictWeak_chunkComparator s.chunks
    have hequiv : ∀ o ∈ blocksOf (k.fill r [b]),
        Equivalent (chunkComparator s.chunks) o.handle b.handle ↔ o = b := by
      intro o ho
      refine ⟨fun heq => h.layout.eq_of_ptr ho hall (ptr_eq_of_equivalent heq), ?_⟩
      rintro rfl
      exact ⟨hweak.irrefl _, hweak.irrefl _⟩
    constructor
    · intro i
      simp only [] at hcmp ⊢
      rw [hcmp]
      by_cases hi : i = bin
      · rw [hi, Function.update_self]
        exact E.ascending_erase hweak hasc
      · rw [Function.update_of_ne hi]
        exact h.binned.ascending i
    · intro i x
      have hin : x ∈ E.toList (Function.update s.bins bin
          (E.erase (chunkComparator s.chunks) (s.bins bin) b.handle) i) ↔
          ∃ o ∈ k.others, o.handle = x ∧ o.binNum = some i := by
        by_cases hi : i = bin
        · rw [hi, Function.update_self, E.mem_erase hweak hasc, h.binned.mem_iff]
          constructor
          · rintro ⟨⟨o, ho, rfl, hbino⟩, hne⟩
            rw [hequiv o ho] at hne
            rcases Hole.mem_blocksOf_fill.mp ho with ho | ho
            · exact absurd (List.mem_singleton.mp ho) hne
            · exact ⟨o, ho, rfl, hbino⟩
          · rintro ⟨o, ho, rfl, hbino⟩
            have hoall : o ∈ blocksOf (k.fill r [b]) := Hole.mem_blocksOf_fill.mpr (Or.inr ho)
            refine ⟨⟨o, hoall, rfl, hbino⟩, fun heq => ?_⟩
            rw [hequiv o hoall] at heq
            exact (h.layout.handle_ne hmem).1 o ho (congrArg Block.handle heq)
        · rw [Function.update_of_ne hi, h.binned.mem_iff]
          constructor
          · rintro ⟨o, ho, hx, hbino⟩
            rcases Hole.mem_blocksOf_fill.mp ho with ho | ho
            · rw [List.mem_singleton.mp ho, hbin] at hbino
              exact absurd (Option.some.inj hbino).symm hi
            · exact ⟨o, ho, hx, hbino⟩
          · rintro ⟨o, ho, hx, hbino⟩
            exact ⟨o, Hole.mem_blocksOf_fill.mpr (Or.inr ho), hx, hbino⟩
      simp only [List.mem_cons]
      rw [hin]
      constructor
      · rintro ⟨o, ho, hx, hbino⟩
        exact ⟨o, Or.inr ho, hx, hbino⟩
      · rintro ⟨o, rfl | ho, hx, hbino⟩
        · cases hbino
        · exact ⟨o, ho, hx, hbino⟩

private theorem free_pass (h : Shape cfg s (k.fill r [b]) unused) {bin : Nat}
    (hbin : b.binNum = some bin) :
    (s.chunks b.handle).binNum = some bin ∧
      (!(s.chunks b.handle).inUse && (s.chunks b.handle).binNum.isSome) = true := by
  have hmem : b ∈ [b] := List.mem_singleton_self b
  have hcell := h.layout.cell
  have hid : (s.chunks b.handle).allocationId = -1 :=
    (congrArg Chunk.allocationId hcell).trans
      ((h.layout.blockOk (h.layout.mem_fill hmem)).binned bin hbin).1
  have hb : (s.chunks b.handle).binNum = some bin := (congrArg Chunk.binNum hcell).trans hbin
  refine ⟨hb, ?_⟩
  rw [Chunk.inUse, hid, hb]
  rfl

/-- `RemoveFreeChunkIterFromBin`. -/
theorem post_removeFreeChunkIterFromBin (h : Shape cfg s (k.fill r [b]) unused) {bin : Nat}
    (hbin : b.binNum = some bin) :
    Post (removeFreeChunkIterFromBin bin b.handle) s
      (fun _ t => Shape cfg t (k.fill r [{ b with binNum := none }]) unused) X := by
  have hlt := h.layout.lt_of_fill (List.mem_singleton_self b)
  obtain ⟨_, hpass⟩ := free_pass h hbin
  rw [removeFreeChunkIterFromBin, post_bind, post_chunkFromHandle hlt, post_bind,
    post_enforce hpass]
  exact post_eraseFromBin h hbin

/-- `RemoveFreeChunkFromBin`; the key it erases is there. -/
theorem post_removeFreeChunkFromBin (h : Shape cfg s (k.fill r [b]) unused) {bin : Nat}
    (hbin : b.binNum = some bin) :
    Post (removeFreeChunkFromBin b.handle) s
      (fun _ t => Shape cfg t (k.fill r [{ b with binNum := none }]) unused) X := by
  have hmem : b ∈ [b] := List.mem_singleton_self b
  have hlt := h.layout.lt_of_fill hmem
  obtain ⟨hb, hpass⟩ := free_pass h hbin
  have hfound : ((E.toList (s.bins bin)).any fun y =>
      !chunkComparator s.chunks y b.handle && !chunkComparator s.chunks b.handle y) = true := by
    rw [List.any_eq_true]
    refine ⟨b.handle, (h.binned.mem_iff _ _).mpr ⟨b, h.layout.mem_fill hmem, rfl, hbin⟩, ?_⟩
    rw [(strictWeak_chunkComparator _).irrefl]
    rfl
  rw [removeFreeChunkFromBin, post_bind, post_chunkFromHandle hlt, post_bind,
    post_enforce hpass, post_bind, post_get, post_bind, hb, Option.getD_some, post_enforce hfound]
  exact post_eraseFromBin h hbin

theorem usedBytes_singleton : usedBytes [b] = if b.inUse then b.size else 0 := by
  simp [usedBytes]

/-- A block that no bin holds marked anew, the counter following it. -/
theorem Shape.remark (h : Shape cfg s (k.fill r [b]) unused) (hloose : b.binNum = none)
    (requested : Nat) (id : Int)
    (hchunks : t.chunks = Function.update s.chunks b.handle
      { s.chunks b.handle with requestedSize := requested, allocationId := id })
    (hnum : t.chunkNum = s.chunkNum) (hhead : t.freeChunksList = s.freeChunksList)
    (hregions : t.regions = s.regions) (hbins : t.bins = s.bins)
    (hinUse : t.stats.bytesInUse + usedBytes [b] = s.stats.bytesInUse +
      usedBytes [{ b with requestedSize := requested, allocationId := id }])
    (htotal : t.totalRegionAllocatedBytes = s.totalRegionAllocatedBytes)
    (hnext : 0 < t.nextAllocationId)
    (hcurr : t.currRegionAllocationBytes = s.currRegionAllocationBytes) :
    Shape cfg t (k.fill r [{ b with requestedSize := requested, allocationId := id }]) unused := by
  have hall := h.layout.mem_fill (List.mem_singleton_self b)
  refine ⟨?_, ?_, h.counted.refill rfl hinUse htotal hnext hcurr⟩
  · refine h.layout.remark ⟨(h.layout.blockOk hall).pos, (h.layout.blockOk hall).aligned, ?_⟩
      rfl rfl ?_ ?_ hnum hhead hregions
    · intro i hi
      cases hloose.symm.trans hi
    · intro x hx
      rw [hchunks, Function.update_of_ne hx]
    · intro prev p next hprev
      rw [hchunks, Function.update_self, hprev]
      rfl
  · refine Binned.perm (Binned.refill (h.binned.perm Hole.blocksOf_fill_perm) hbins ?_ ?_ ?_)
      Hole.blocksOf_fill_perm.symm
    · simpa using hloose
    · simpa using hloose
    · intro o ho
      rw [hchunks]
      exact update_kept (by rfl) (by rfl) _

/-- `MarkFree`. -/
theorem post_markFree (h : Shape cfg s (k.fill r [b]) unused) (hused : b.allocationId ≠ -1) :
    Post (markFree b.handle) s
      (fun _ t => Shape cfg t (k.fill r [{ b with allocationId := -1 }]) unused ∧
        t.stats.bytesInUse = s.stats.bytesInUse - b.size) X := by
  have hmem : b ∈ [b] := List.mem_singleton_self b
  have hlt := h.layout.lt_of_fill hmem
  have hcell := h.layout.cell
  have hloose : b.binNum = none := by
    cases hbin : b.binNum with
    | none => rfl
    | some i =>
        exact absurd ((h.layout.blockOk (h.layout.mem_fill hmem)).binned i hbin).1 hused
  have hpass : ((s.chunks b.handle).inUse && (s.chunks b.handle).binNum.isNone) = true := by
    rw [hcell]
    simp [Chunk.inUse, Block.chunk, hused, hloose]
  have hsize : (s.chunks b.handle).size = b.size := congrArg Chunk.size hcell
  have hreq : (s.chunks b.handle).requestedSize = b.requestedSize :=
    congrArg Chunk.requestedSize hcell
  rw [markFree, post_bind, post_chunkFromHandle hlt, post_bind, post_enforce hpass, post_bind,
    post_modifyChunk hlt, post_modify]
  refine ⟨?_, by simp only [hsize]⟩
  refine h.remark hloose b.requestedSize (-1) ?_ rfl rfl rfl rfl ?_ rfl
    h.counted.nextId rfl
  · simp only [← hreq]
  · simp only [hsize, usedBytes_singleton, Block.inUse, hused, ne_eq, not_false_iff, decide_true,
      if_true, not_true, decide_false, Bool.false_eq_true, if_false, Nat.cast_zero]
    omega

end DashInfer.Device
