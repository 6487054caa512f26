import DashInfer.Device.Bins

/-!
Operations that change the chain of a region: a chunk split in two, two
neighbours merged into one. Both leave the first chunk in its place, so that
only the chunk after it has to be told of its new neighbour.
-/

namespace DashInfer.Device

open Lib

variable {E : OrderedSet ChunkHandle} {cfg : Config} {s t : Allocator E} {k : Hole}
  {r r' : Region} {b b₁ b₂ : Block} {spans : List Span} {unused unused' : List ChunkHandle}
  {X : Fault → Allocator E → Prop}

/-- Everything but the chunks and the handle tables is as before. -/
structure SameCounts (s t : Allocator E) : Prop where
  bins : t.bins = s.bins
  curr : t.currRegionAllocationBytes = s.currRegionAllocationBytes
  total : t.totalRegionAllocatedBytes = s.totalRegionAllocatedBytes
  nextId : t.nextAllocationId = s.nextAllocationId
  stats : t.stats = s.stats

theorem SameCounts.refl (s : Allocator E) : SameCounts s s := ⟨rfl, rfl, rfl, rfl, rfl⟩

theorem SameCounts.trans {u : Allocator E} (h : SameCounts s t) (h' : SameCounts t u) :
    SameCounts s u :=
  ⟨h'.bins.trans h.bins, h'.curr.trans h.curr, h'.total.trans h.total,
    h'.nextId.trans h.nextId, h'.stats.trans h.stats⟩

/-- `x` was taken by `AllocateChunk` while the handles in `used` were in use. -/
structure Taken (used : List ChunkHandle) (s t : Allocator E) (x : ChunkHandle)
    (unused : List ChunkHandle) : Prop where
  counts : SameCounts s t
  regions : t.regions = s.regions
  chunks : ∀ y, y ≠ x → t.chunks y = s.chunks y
  fresh : x ∉ used ++ unused
  lt : x < t.chunkNum
  loose : (t.chunks x).binNum = none
  freeList : FreeList t.chunks t.freeChunksList unused
  nodup : (used ++ unused).Nodup
  bound : ∀ y ∈ used ++ unused, y < t.chunkNum

/-- `AllocateChunk` returns a chunk that nothing refers to. -/
theorem post_allocateChunk {used : List ChunkHandle} (hnodup : (used ++ unused).Nodup)
    (hbound : ∀ y ∈ used ++ unused, y < s.chunkNum)
    (hfree : FreeList s.chunks s.freeChunksList unused) :
    Post allocateChunk s (fun x t => ∃ unused', Taken used s t x unused') X := by
  rw [allocateChunk, post_bind, post_get]
  cases unused with
  | nil =>
      have hhead : s.freeChunksList = none := hfree
      have hnew : ∀ y ∈ used ++ [], y ≠ s.chunkNum := fun y hy => Nat.ne_of_lt (hbound y hy)
      simp only [hhead, post_bind, post_modify, post_pure]
      refine ⟨[], ⟨rfl, rfl, rfl, rfl, rfl⟩, rfl, ?_, ?_, Nat.lt_succ_self _, ?_, rfl, hnodup, ?_⟩
      · intro y hy
        exact Function.update_of_ne hy _ _
      · intro hin
        exact hnew _ hin rfl
      · simp only [Function.update_self]
      · intro y hy
        exact Nat.lt_succ_of_lt (hbound y hy)
  | cons x rest =>
      obtain ⟨hhead, hloose, hrest⟩ := hfree
      have hlt : x < s.chunkNum := hbound x (by simp)
      simp only [hhead, post_bind, post_chunkFromHandle hlt, post_modify, post_pure]
      have hperm : (used ++ x :: rest).Perm (x :: (used ++ rest)) := List.perm_middle
      obtain ⟨hfresh, hnodup'⟩ := List.nodup_cons.mp (hperm.nodup_iff.mp hnodup)
      refine ⟨rest, ⟨rfl, rfl, rfl, rfl, rfl⟩, rfl, fun _ _ => rfl, hfresh, hlt, hloose, hrest,
        hnodup', ?_⟩
      intro y hy
      exact hbound y (hperm.mem_iff.mpr (List.mem_cons_of_mem _ hy))

theorem Counted.same (h : Counted cfg s spans) (hsame : SameCounts s t) :
    Counted cfg t spans where
  inUse := by rw [hsame.stats, h.inUse]
  total := by rw [hsame.total, h.total]
  limit := hsame.total ▸ h.limit
  nextId := hsame.nextId ▸ h.nextId
  aligned := hsame.curr ▸ h.aligned

theorem Shape.taken (h : Shape cfg s spans unused) {x : ChunkHandle}
    (ht : Taken ((blocksOf spans).map Block.handle) s t x unused') :
    Shape cfg t spans unused' := by
  have hkept : ∀ b ∈ blocksOf spans, t.chunks b.handle = s.chunks b.handle := by
    intro b hb
    refine ht.chunks _ ?_
    rintro rfl
    exact ht.fresh (List.mem_append_left _ (List.mem_map_of_mem hb))
  refine ⟨⟨ht.regions.trans h.layout.regions, h.layout.sorted, ?_, ht.nodup, ht.bound,
    ht.freeList⟩, ?_, h.counted.same ht.counts⟩
  · intro e he
    exact (h.layout.spanOk e he).congr
      fun b hb => hkept b (List.mem_flatMap.mpr ⟨e, he, hb⟩)
  · change Binned t ([] ++ blocksOf spans)
    refine Binned.refill (m := []) h.binned ht.counts.bins (by simp) (by simp) ?_
    intro b hb
    rw [hkept b hb]
    exact ⟨rfl, rfl⟩

theorem widths_aligned {l : List Block} (hok : ∀ b ∈ l, b.Ok) :
    kMinAllocationSize ∣ tiles.widths l := by
  induction l with
  | nil => exact Nat.dvd_zero _
  | cons b rest ih =>
      rw [Tiles.widths_cons]
      refine Nat.dvd_add (hok b (List.mem_cons_self ..)).aligned (ih fun o ho => ?_)
      exact hok o (List.mem_cons_of_mem _ ho)

/-- A segment after its first chunk was given another left neighbour. -/
theorem seg_relinked {chunks chunks' : ChunkHandle → Chunk} {prev : Option ChunkHandle} {p : Nat}
    {l : List Block} {x : ChunkHandle} (h : tiles.Seg chunks prev p l none)
    (hnodup : (l.map Block.handle).Nodup)
    (hfirst : ∀ y ∈ tiles.first l none, chunks' y = { chunks y with prev := some x })
    (hother : ∀ o ∈ l, o.handle ∉ tiles.first l none → chunks' o.handle = chunks o.handle) :
    tiles.Seg chunks' (some x) p l none := by
  cases l with
  | nil => trivial
  | cons o rest =>
      refine ⟨?_, h.2.congr fun o' ho' => ?_⟩
      · have hcell : chunks o.handle = o.chunk prev p (tiles.first rest none) := h.1
        have hnew : chunks' o.handle = { chunks o.handle with prev := some x } := hfirst _ rfl
        rw [hcell] at hnew
        exact hnew
      · refine hother o' (List.mem_cons_of_mem _ ho') fun hin => ?_
        have heq : o.handle = o'.handle := Option.some.inj hin
        exact (List.nodup_cons.mp hnodup).1 (heq ▸ List.mem_map_of_mem ho')

theorem Layout.right_nodup (h : Layout s (k.fill r m) unused) :
    (k.right.map Block.handle).Nodup := by
  have hnodup := Hole.nodup_fill.mp h.nodup
  have hothers := (List.nodup_append.mp (List.nodup_append.mp hnodup).2.1).1
  simp only [Hole.others, List.map_append] at hothers
  exact (List.nodup_append.mp (List.nodup_append.mp hothers).1).2.1

/-- The blocks right of a hole are found nowhere else. -/
theorem Layout.right_disjoint (h : Layout s (k.fill r m) unused) :
    ∀ o ∈ k.right, (∀ e ∈ k.before ++ k.after, o ∉ e.blocks) ∧ o ∉ k.left := by
  have hnodup := Hole.nodup_fill.mp h.nodup
  have hothers := (List.nodup_append.mp (List.nodup_append.mp hnodup).2.1).1
  simp only [Hole.others, List.map_append] at hothers
  obtain ⟨hblr, _, hafter⟩ := List.nodup_append.mp hothers
  obtain ⟨_, _, hright⟩ := List.nodup_append.mp hblr
  intro o ho
  have hoh : o.handle ∈ k.right.map Block.handle := List.mem_map_of_mem ho
  refine ⟨fun e he hin => ?_, fun hin => ?_⟩
  · rcases List.mem_append.mp he with he | he
    · exact hright o.handle (List.mem_append_left _ (List.mem_map_of_mem
        (List.mem_flatMap.mpr ⟨e, he, hin⟩))) o.handle hoh rfl
    · exact hafter o.handle (List.mem_append_right _ hoh) o.handle
        (List.mem_map_of_mem (List.mem_flatMap.mpr ⟨e, he, hin⟩)) rfl
  · exact hright o.handle (List.mem_append_right _ (List.mem_map_of_mem hin)) o.handle hoh rfl

theorem Layout.first_right_mem {y : ChunkHandle} (hy : y ∈ tiles.first k.right none) :
    ∃ o ∈ k.right, o.handle = y := by
  cases hright : k.right with
  | nil =>
      rw [hright] at hy
      cases hy
  | cons o rest =>
      rw [hright] at hy
      exact ⟨o, List.mem_cons_self .., Option.some.inj hy⟩

/-- Loose blocks replaced by loose blocks of the same extent; `x` is the chunk
the rest of the region now follows. -/
theorem Shape.rechain {m m' : List Block} {x : ChunkHandle} (h : Shape cfg s (k.fill r m) unused)
    (hcounts : SameCounts s t) (hregions : t.regions = regionsOf (k.fill r' m'))
    (hptr : r'.ptr = r.ptr) (hsize : r'.memorySize = r.memorySize)
    (hm : ∀ b ∈ m, b.binNum = none ∧ b.allocationId = -1)
    (hm' : ∀ b ∈ m', b.binNum = none ∧ b.allocationId = -1)
    (hok : ∀ b ∈ m', b.Ok) (hwidth : tiles.widths m' = tiles.widths m)
    (hhead : ∀ next, tiles.first m' next = tiles.first m next) (hne : m' ≠ [])
    (hlast : ∀ prev, tiles.last prev m' = some x)
    (hmid : tiles.Seg t.chunks (tiles.last none k.left) (r.ptr + tiles.widths k.left) m'
      (tiles.first k.right none))
    (hfirst : ∀ y ∈ tiles.first k.right none, t.chunks y = { s.chunks y with prev := some x })
    (hother : ∀ o ∈ k.others, o.handle ∉ tiles.first k.right none →
      t.chunks o.handle = s.chunks o.handle)
    (hmap : ∀ i y, r'.handles i = some y ↔
      y ∈ (k.left ++ (m' ++ k.right)).map Block.handle ∧
        (t.chunks y).ptr = r.ptr + kMinAllocationSize * i)
    (hnodup : (m'.map Block.handle ++ (k.others.map Block.handle ++ unused')).Nodup)
    (hbound : (∀ y ∈ m'.map Block.handle, y < t.chunkNum) ∧
      ∀ y ∈ k.others.map Block.handle ++ unused', y < t.chunkNum)
    (hfree : FreeList t.chunks t.freeChunksList unused') :
    Shape cfg t (k.fill r' m') unused' := by
  -- A block elsewhere is not the one after the hole.
  have hoff : ∀ o ∈ k.others, o ∉ k.right → t.chunks o.handle = s.chunks o.handle := by
    intro o ho hnr
    refine hother o ho fun hin => ?_
    obtain ⟨o', ho', heq⟩ := Layout.first_right_mem hin
    have ho'all : o' ∈ k.others := Hole.mem_others.mpr (Or.inr (Or.inr ho'))
    have hsame : o = o' := h.layout.eq_of_handle (Hole.mem_blocksOf_fill.mpr (Or.inr ho))
      (Hole.mem_blocksOf_fill.mpr (Or.inr ho'all)) heq.symm
    exact hnr (hsame ▸ ho')
  have hdisj := h.layout.right_disjoint
  have hused : ∀ l : List Block, (∀ b ∈ l, b.binNum = none ∧ b.allocationId = -1) →
      usedBytes l = 0 := by
    intro l hl
    rw [usedBytes, List.sum_eq_zero_iff]
    intro n hn
    obtain ⟨b, hb, rfl⟩ := List.mem_map.mp hn
    simp [Block.inUse, (hl b hb).2]
  refine ⟨?_, ?_, ?_⟩
  · refine h.layout.refill hregions hptr hsize ?_ ?_ hnodup hbound hfree
    · intro e he o ho
      exact hoff o (Hole.mem_others.mpr (Or.inl ⟨e, he, ho⟩)) fun hr => (hdisj o hr).1 e he ho
    · refine h.layout.span.refill hptr hsize hok hwidth hhead hne ?_ hmid ?_ hmap
      · intro o ho
        exact hoff o (Hole.mem_others.mpr (Or.inr (Or.inl ho))) fun hr => (hdisj o hr).2 ho
      · have hseg := (Tiles.seg_append.mp (Tiles.seg_append.mp h.layout.span.seg).2).2
        rw [hlast]
        refine seg_relinked hseg h.layout.right_nodup hfirst fun o ho hnin => ?_
        exact hother o (Hole.mem_others.mpr (Or.inr (Or.inr ho))) hnin
  · refine Binned.perm (Binned.refill (h.binned.perm Hole.blocksOf_fill_perm) hcounts.bins
      (fun b hb => (hm b hb).1) (fun b hb => (hm' b hb).1) ?_) Hole.blocksOf_fill_perm.symm
    intro o ho
    by_cases hin : o.handle ∈ tiles.first k.right none
    · rw [hfirst _ hin]
      exact ⟨rfl, rfl⟩
    · rw [hother o ho hin]
      exact ⟨rfl, rfl⟩
  · refine h.counted.refill hsize ?_ hcounts.total ?_ hcounts.curr
    · rw [hcounts.stats, hused m hm, hused m' hm']
    · rw [hcounts.nextId]
      exact h.counted.nextId

/-- The block after a split: what is left of it. -/
def Block.front (b : Block) (n : Nat) : Block := { b with size := n }

/-- The block after a split: what was cut off, in the chunk `x`. -/
def Block.rest (b : Block) (n : Nat) (x : ChunkHandle) (requested : Nat) : Block :=
  { handle := x, size := b.size - n, requestedSize := requested, allocationId := -1,
    binNum := none }

/-- The handle table of a region in which a block was split. -/
private theorem mapped_split (h : Layout s (k.fill r [b]) unused) {x : ChunkHandle} {n q : Nat}
    {chunks' : ChunkHandle → Chunk} (hx : x ∉ (blocksOf (k.fill r [b])).map Block.handle)
    (hpos : 0 < n) (hn : n < b.size) (halign : kMinAllocationSize ∣ n)
    (hnew : (chunks' x).ptr = r.ptr + tiles.widths k.left + n)
    (hptr : ∀ y, y ≠ x → (chunks' y).ptr = (s.chunks y).ptr) (i : Nat) (y : ChunkHandle) :
    (r.setHandle (r.ptr + tiles.widths k.left + n) (some x)).handles i = some y ↔
      y ∈ (k.left ++ ([b.front n, b.rest n x q] ++ k.right)).map Block.handle ∧
        (chunks' y).ptr = r.ptr + kMinAllocationSize * i := by
  have hmem : b ∈ [b] := List.mem_singleton_self b
  have hspan := h.span
  have hbptr : (s.chunks b.handle).ptr = r.ptr + tiles.widths k.left := congrArg Chunk.ptr h.cell
  have hin := hspan.within (b := b) (by simp)
  simp only [] at hin
  have hidx := (indexFor_eq (r := r) (p := r.ptr + tiles.widths k.left + n) (by omega) (by omega)
    hspan.top).1
  have hwidths : kMinAllocationSize ∣ tiles.widths k.left :=
    widths_aligned fun o ho => hspan.blocksOk o (by simp [ho])
  have hmul : kMinAllocationSize * r.indexFor (r.ptr + tiles.widths k.left + n) =
      tiles.widths k.left + n := by
    rw [hidx, show r.ptr + tiles.widths k.left + n - r.ptr = tiles.widths k.left + n by omega]
    exact Nat.mul_div_cancel' (Nat.dvd_add hwidths halign)
  have hspanMem : ∀ o ∈ k.left ++ ([b] ++ k.right), o ∈ blocksOf (k.fill r [b]) := by
    intro o ho
    rw [Hole.blocksOf_fill]
    exact List.mem_append_left _ (List.mem_append_right _ ho)
  have hnewMem : y ∈ (k.left ++ ([b.front n, b.rest n x q] ++ k.right)).map Block.handle ↔
      y = x ∨ y ∈ (k.left ++ ([b] ++ k.right)).map Block.handle := by
    simp only [List.map_append, List.map_cons, List.map_nil, List.mem_append, List.mem_cons,
      List.not_mem_nil, or_false, Block.front, Block.rest]
    tauto
  have hxspan : x ∉ (k.left ++ ([b] ++ k.right)).map Block.handle := by
    intro hin'
    obtain ⟨o, ho, rfl⟩ := List.mem_map.mp hin'
    exact hx (List.mem_map_of_mem (hspanMem o ho))
  rw [hnewMem, Region.setHandle]
  have h256 : 0 < kMinAllocationSize := by decide
  by_cases hi : i = r.indexFor (r.ptr + tiles.widths k.left + n)
  · simp only [hi, Function.update_self, hmul]
    constructor
    · intro heq
      obtain rfl := Option.some.inj heq
      exact ⟨Or.inl rfl, by omega⟩
    · rintro ⟨hy | hy, hyptr⟩
      · rw [hy]
      · -- No block starts inside the one that is split.
        obtain ⟨o, ho, rfl⟩ := List.mem_map.mp hy
        have hox : o.handle ≠ x := fun heq => hxspan (heq ▸ hy)
        rw [hptr _ hox] at hyptr
        rcases h.apart (hspanMem o ho) (h.mem_fill hmem) with heq | hlt | hlt
        · rw [heq, hbptr] at hyptr
          omega
        · omega
        · omega
  · simp only [Function.update_of_ne hi, hspan.mapped i y]
    constructor
    · rintro ⟨hy, hyptr⟩
      have hyx : y ≠ x := fun heq => hxspan (heq ▸ hy)
      exact ⟨Or.inr hy, by rw [hptr y hyx, hyptr]⟩
    · rintro ⟨hy | hy, hyptr⟩
      · rw [hy, hnew, Nat.add_assoc, ← hmul] at hyptr
        exact absurd (Nat.eq_of_mul_eq_mul_left h256 (Nat.add_left_cancel hyptr)).symm hi
      · have hyx : y ≠ x := fun heq => hxspan (heq ▸ hy)
        rw [hptr y hyx] at hyptr
        exact ⟨hy, hyptr⟩

/-- A region in which a block was split. -/
theorem Shape.split (h : Shape cfg s (k.fill r [b]) unused) {x : ChunkHandle} {n q : Nat}
    (hfree : b.allocationId = -1) (hloose : b.binNum = none)
    (hx : x ∉ (blocksOf (k.fill r [b])).map Block.handle ++ unused) (hlt : x < s.chunkNum)
    (hpos : 0 < n) (hn : n < b.size) (halign : kMinAllocationSize ∣ n)
    (hcounts : SameCounts s t) (hnum : t.chunkNum = s.chunkNum)
    (hhead : t.freeChunksList = s.freeChunksList)
    (hregions : t.regions = regionsOf
      (k.fill (r.setHandle (r.ptr + tiles.widths k.left + n) (some x)) [b]))
    (hnew : t.chunks x = (b.rest n x q).chunk (some b.handle)
      (r.ptr + tiles.widths k.left + n) (tiles.first k.right none))
    (hfront : t.chunks b.handle = { s.chunks b.handle with size := n, next := some x })
    (hfirst : ∀ y ∈ tiles.first k.right none, t.chunks y = { s.chunks y with prev := some x })
    (hother : ∀ y, y ≠ x → y ≠ b.handle → y ∉ tiles.first k.right none →
      t.chunks y = s.chunks y) :
    Shape cfg t (k.fill (r.setHandle (r.ptr + tiles.widths k.left + n) (some x))
      [b.front n, b.rest n x q]) unused := by
  have hmem : b ∈ [b] := List.mem_singleton_self b
  have hall := h.layout.mem_fill hmem
  have hbok := h.layout.blockOk hall
  obtain ⟨hne, hneUnused⟩ := h.layout.handle_ne hmem
  rw [List.mem_append, not_or] at hx
  have hxOthers : ∀ o ∈ k.others, o.handle ≠ x := by
    rintro o ho rfl
    exact hx.1 (List.mem_map_of_mem (Hole.mem_blocksOf_fill.mpr (Or.inr ho)))
  have hxb : b.handle ≠ x := by
    rintro rfl
    exact hx.1 (List.mem_map_of_mem hall)
  have hfirstOthers : ∀ y ∈ tiles.first k.right none, ∃ o ∈ k.others, o.handle = y := by
    intro y hy
    obtain ⟨o, ho, rfl⟩ := Layout.first_right_mem hy
    exact ⟨o, Hole.mem_others.mpr (Or.inr (Or.inr ho)), rfl⟩
  have hptr : ∀ y, y ≠ x → (t.chunks y).ptr = (s.chunks y).ptr := by
    intro y hyx
    by_cases hyb : y = b.handle
    · rw [hyb, hfront]
    · by_cases hy : y ∈ tiles.first k.right none
      · rw [hfirst y hy]
      · rw [hother y hyx hyb hy]
  have hnodup := Hole.nodup_fill.mp h.layout.nodup
  have hbound := Hole.bound_fill.mp h.layout.bound
  refine h.rechain (x := x) hcounts ?_ rfl rfl ?_ ?_ ?_ ?_ ?_ ?_ ?_ ?_ hfirst ?_ ?_ ?_ ?_ ?_
  · rw [hregions, Hole.regionsOf_fill, Hole.regionsOf_fill]
  · simp [hfree, hloose]
  · simp [Block.front, Block.rest, hfree, hloose]
  · simp only [List.mem_cons, List.not_mem_nil, or_false, forall_eq_or_imp, forall_eq]
    refine ⟨⟨hpos, halign, fun i hi => ?_⟩, ⟨Nat.sub_pos_of_lt hn, ?_, fun i hi => ?_⟩⟩
    · cases hloose.symm.trans hi
    · exact Nat.dvd_sub hbok.aligned halign
    · cases hi
  · simp only [Tiles.widths_cons, Tiles.widths_nil, tiles, Block.front, Block.rest]
    omega
  · intro next
    rfl
  · simp
  · intro prev
    rfl
  · refine ⟨?_, ?_, trivial⟩
    · rw [h.layout.cell] at hfront
      exact hfront
    · exact hnew
  · intro o ho hnin
    exact hother _ (hxOthers o ho) (hne o ho) hnin
  · intro i y
    exact mapped_split h.layout hx.1 hpos hn halign (by rw [hnew]; rfl) hptr i y
  · simp only [List.map_cons, List.map_nil, List.cons_append, List.nil_append,
      List.nodup_cons] at hnodup ⊢
    refine ⟨?_, ?_, hnodup.2⟩
    · rw [List.mem_cons, not_or]
      exact ⟨hxb, hnodup.1⟩
    · intro hin
      rcases List.mem_append.mp hin with hin | hin
      · obtain ⟨o, ho, heq⟩ := List.mem_map.mp hin
        exact hxOthers o ho heq
      · exact hx.2 hin
  · rw [hnum]
    refine ⟨?_, hbound.2⟩
    simp only [List.map_cons, List.map_nil, List.mem_cons, List.not_mem_nil, or_false,
      forall_eq_or_imp, forall_eq]
    have hblt := h.layout.lt_of_fill hmem
    exact ⟨hblt, hlt⟩
  · rw [hhead]
    refine h.layout.freeList.congr fun y hy => hother y ?_ (hneUnused y hy) fun hin => ?_
    · rintro rfl
      exact hx.2 hy
    · obtain ⟨o, ho, rfl⟩ := hfirstOthers y hin
      exact (List.nodup_append.mp (List.nodup_append.mp hnodup).2.1).2.2 _
        (List.mem_map_of_mem ho) _ hy rfl

theorem first_right_lt (h : Layout s (k.fill r m) unused) :
    ∀ y ∈ tiles.first k.right none, y < s.chunkNum := by
  intro y hy
  obtain ⟨o, ho, rfl⟩ := Layout.first_right_mem hy
  exact h.lt_chunkNum (Hole.mem_blocksOf_fill.mpr
    (Or.inr (Hole.mem_others.mpr (Or.inr (Or.inr ho)))))

theorem Layout.not_first_right (h : Layout s (k.fill r m) unused) (hb : b ∈ m) :
    b.handle ∉ tiles.first k.right none := by
  intro hin
  obtain ⟨o, ho, heq⟩ := Layout.first_right_mem hin
  exact (h.handle_ne hb).1 o (Hole.mem_others.mpr (Or.inr (Or.inr ho))) heq

/-- `SplitChunk`: the block keeps the first `n` bytes, the rest is free. -/
theorem post_splitChunk (h : Shape cfg s (k.fill r [b]) unused) {n : Nat}
    (hfree : b.allocationId = -1) (hloose : b.binNum = none) (hpos : 0 < n) (hn : n < b.size)
    (halign : kMinAllocationSize ∣ n) :
    Post (splitChunk b.handle n) s
      (fun _ t => ∃ r' unused' x q, r'.ptr = r.ptr ∧ r'.memorySize = r.memorySize ∧
        Shape cfg t (k.fill r' [b.front n,
          { b.rest n x q with binNum := some (binNumForSize (b.size - n)) }]) unused') X := by
  rw [splitChunk, post_bind]
  refine (post_allocateChunk h.layout.nodup h.layout.bound h.layout.freeList).imp ?_
    (fun _ _ hx => hx)
  rintro x u ⟨unused', ht⟩
  have hu := h.taken ht
  have hmem : b ∈ [b] := List.mem_singleton_self b
  have hlt := hu.layout.lt_of_fill hmem
  have hspan := hu.layout.span
  have hcell := hu.layout.cell
  have hall := hu.layout.mem_fill hmem
  have hbptr : (u.chunks b.handle).ptr = r.ptr + tiles.widths k.left := congrArg Chunk.ptr hcell
  have hbsize : (u.chunks b.handle).size = b.size := congrArg Chunk.size hcell
  have hbnext : (u.chunks b.handle).next = tiles.first k.right none := congrArg Chunk.next hcell
  have hbfreed : (u.chunks b.handle).freedAtCount = 0 := congrArg Chunk.freedAtCount hcell
  have hpass : (!(u.chunks b.handle).inUse && (u.chunks b.handle).binNum.isNone) = true := by
    rw [hcell]
    simp [Chunk.inUse, Block.chunk, hfree, hloose]
  have hin := hspan.within (b := b) (by simp)
  have htop := hspan.top
  simp only [hbptr] at hin htop
  have hxb : b.handle ≠ x := by
    rintro rfl
    exact ht.fresh (List.mem_append_left _ (List.mem_map_of_mem hall))
  have hbright := hu.layout.not_first_right hmem
  have hxright : x ∉ tiles.first k.right none := by
    intro hin'
    obtain ⟨o, ho, rfl⟩ := Layout.first_right_mem hin'
    exact ht.fresh (List.mem_append_left _ (List.mem_map_of_mem (Hole.mem_blocksOf_fill.mpr
      (Or.inr (Hole.mem_others.mpr (Or.inr (Or.inr ho)))))))
  have hsub : wordSub b.size n = b.size - n := wordSub_of_le hn.le (by
    have hbase := hspan.base_pos
    simp only [] at hbase
    omega)
  have hrightLt := first_right_lt hu.layout
  rw [post_bind, post_chunkFromHandle hlt, post_bind, post_enforce hpass, post_bind,
    post_setHandle hu.layout.regions hu.layout.sorted (by rw [hbptr]; omega)
      (by rw [hbptr]; omega) htop,
    post_bind, post_modifyChunk (by exact ht.lt), post_bind, post_modifyChunk (by exact hlt),
    post_bind, post_setPrev (by rw [hbnext]; exact hrightLt)]
  simp only [hbptr, hbsize, hbnext, hbfreed, hsub]
  refine (post_insertFreeChunkIntoBin (b := b.rest n x (u.chunks x).requestedSize)
    (show Shape cfg _ ((k.narrow [b.front n] []).fill
      (r.setHandle (r.ptr + tiles.widths k.left + n) (some x)) _) unused' from ?_)
    rfl rfl).imp ?_ (fun _ _ hx => hx)
  · rw [Hole.fill_narrow]
    refine hu.split hfree hloose ht.fresh ht.lt hpos hn halign ⟨rfl, rfl, rfl, rfl, rfl⟩ rfl rfl
      rfl ?_ ?_ ?_ ?_
    · dsimp only
      rw [relinked_of_ne hxright, Function.update_of_ne hxb.symm, Function.update_self, ht.loose]
      rfl
    · dsimp only
      rw [relinked_of_ne hbright, Function.update_self, Function.update_of_ne hxb]
    · intro y hy
      dsimp only
      rw [relinked_of_mem hy, Function.update_of_ne, Function.update_of_ne]
      · rintro rfl
        exact hxright hy
      · rintro rfl
        exact hbright hy
    · intro y hyx hyb hy
      dsimp only
      rw [relinked_of_ne hy, Function.update_of_ne hyb, Function.update_of_ne hyx]
  · intro _ v hv
    rw [Hole.fill_narrow] at hv
    exact ⟨r.setHandle _ _, unused', x, (u.chunks x).requestedSize, rfl, rfl, hv⟩

/-- Two neighbours as one block, in the chunk of the first. -/
def Block.joined (b₁ b₂ : Block) : Block := { b₁ with size := b₁.size + b₂.size }

/-- A handle erased from the table of a region along with its block. -/
private theorem mapped_erase {l : List ChunkHandle} {m : List Block}
    {chunks' : ChunkHandle → Chunk} (h : Layout s (k.fill r m) unused) (hb : b ∈ m)
    (hold : ∀ y, y ∈ (k.left ++ (m ++ k.right)).map Block.handle ↔ y = b.handle ∨ y ∈ l)
    (hgone : b.handle ∉ l)
    (hptr : ∀ y, (chunks' y).ptr = (s.chunks y).ptr) (i : Nat) (y : ChunkHandle) :
    (r.setHandle (s.chunks b.handle).ptr none).handles i = some y ↔
      y ∈ l ∧ (chunks' y).ptr = r.ptr + kMinAllocationSize * i := by
  have hspan := h.span
  have hbspan : b ∈ k.left ++ (m ++ k.right) := by simp [hb]
  obtain ⟨before, after, hsplit, hcell⟩ := hspan.seg.of_mem hbspan
  have hbptr : (s.chunks b.handle).ptr = r.ptr + tiles.widths before := congrArg Chunk.ptr hcell
  have hwidths : kMinAllocationSize ∣ tiles.widths before := by
    refine widths_aligned fun o ho => hspan.blocksOk o ?_
    have hmem : o ∈ before ++ b :: after := List.mem_append_left _ ho
    rwa [← hsplit] at hmem
  have hin := hspan.within hbspan
  have hpos := (hspan.blocksOk b hbspan).pos
  simp only [] at hin
  have hidx := (indexFor_eq (r := r) (p := (s.chunks b.handle).ptr) (by omega) (by omega)
    hspan.top).1
  have hmul : r.ptr + kMinAllocationSize * r.indexFor (s.chunks b.handle).ptr =
      (s.chunks b.handle).ptr := by
    rw [hidx, hbptr, Nat.add_sub_cancel_left, Nat.mul_div_cancel' hwidths]
  rw [Region.setHandle, hptr]
  by_cases hi : i = r.indexFor (s.chunks b.handle).ptr
  · simp only [hi, Function.update_self, hmul, reduceCtorEq, false_iff, not_and]
    intro hy heq
    obtain ⟨o, ho, rfl⟩ := List.mem_map.mp ((hold y).mpr (Or.inr hy))
    have hoall : o ∈ blocksOf (k.fill r m) := by
      rw [Hole.blocksOf_fill]
      exact List.mem_append_left _ (List.mem_append_right _ ho)
    exact hgone (h.eq_of_ptr hoall (h.mem_fill hb) heq ▸ hy)
  · simp only [Function.update_of_ne hi, hspan.mapped i y, hold]
    constructor
    · rintro ⟨rfl | hy, hyptr⟩
      · have h256 : 0 < kMinAllocationSize := by decide
        rw [← hmul] at hyptr
        exact absurd (Nat.eq_of_mul_eq_mul_left h256 (Nat.add_left_cancel hyptr)).symm hi
      · exact ⟨hy, hyptr⟩
    · rintro ⟨hy, hyptr⟩
      exact ⟨Or.inr hy, hyptr⟩

/-- A region in which two neighbours were merged. -/
theorem Shape.merge (h : Shape cfg s (k.fill r [b₁, b₂]) unused)
    (hfree₁ : b₁.allocationId = -1) (hloose₁ : b₁.binNum = none)
    (hfree₂ : b₂.allocationId = -1) (hloose₂ : b₂.binNum = none)
    (hcounts : SameCounts s t) (hnum : t.chunkNum = s.chunkNum)
    (hhead : t.freeChunksList = some b₂.handle)
    (hregions : t.regions = regionsOf
      (k.fill (r.setHandle (s.chunks b₂.handle).ptr none) [b₁, b₂]))
    (hnew : t.chunks b₁.handle = { s.chunks b₁.handle with
      size := b₁.size + b₂.size, next := tiles.first k.right none })
    (hold : t.chunks b₂.handle = { s.chunks b₂.handle with
      allocationId := -1, binNum := none, next := s.freeChunksList })
    (hfirst : ∀ y ∈ tiles.first k.right none,
      t.chunks y = { s.chunks y with prev := some b₁.handle })
    (hother : ∀ y, y ≠ b₁.handle → y ≠ b₂.handle → y ∉ tiles.first k.right none →
      t.chunks y = s.chunks y) :
    Shape cfg t (k.fill (r.setHandle (s.chunks b₂.handle).ptr none) [b₁.joined b₂])
      (b₂.handle :: unused) := by
  have hmem₁ : b₁ ∈ [b₁, b₂] := List.mem_cons_self ..
  have hmem₂ : b₂ ∈ [b₁, b₂] := List.mem_cons_of_mem _ (List.mem_singleton_self b₂)
  have hok₁ := h.layout.blockOk (h.layout.mem_fill hmem₁)
  have hok₂ := h.layout.blockOk (h.layout.mem_fill hmem₂)
  obtain ⟨hne₁, hneUnused₁⟩ := h.layout.handle_ne hmem₁
  obtain ⟨hne₂, hneUnused₂⟩ := h.layout.handle_ne hmem₂
  have hnodup := Hole.nodup_fill.mp h.layout.nodup
  have hbound := Hole.bound_fill.mp h.layout.bound
  simp only [List.map_cons, List.map_nil, List.cons_append, List.nil_append, List.nodup_cons,
    List.mem_cons, not_or] at hnodup
  obtain ⟨⟨hne, hgone₁⟩, hgone₂, hrest⟩ := hnodup
  have hptr : ∀ y, (t.chunks y).ptr = (s.chunks y).ptr := by
    intro y
    by_cases hy₁ : y = b₁.handle
    · rw [hy₁, hnew]
    · by_cases hy₂ : y = b₂.handle
      · rw [hy₂, hold]
      · by_cases hy : y ∈ tiles.first k.right none
        · rw [hfirst y hy]
        · rw [hother y hy₁ hy₂ hy]
  refine h.rechain (x := b₁.handle) hcounts ?_ rfl rfl ?_ ?_ ?_ ?_ ?_ ?_ ?_ ?_ hfirst ?_ ?_ ?_ ?_ ?_
  · rw [hregions, Hole.regionsOf_fill, Hole.regionsOf_fill]
  · simp [hfree₁, hloose₁, hfree₂, hloose₂]
  · simp [Block.joined, hfree₁, hloose₁]
  · simp only [List.mem_singleton, forall_eq]
    refine ⟨Nat.add_pos_left hok₁.pos _, Nat.dvd_add hok₁.aligned hok₂.aligned, fun i hi => ?_⟩
    cases hloose₁.symm.trans hi
  · simp only [Tiles.widths_cons, Tiles.widths_nil, tiles, Block.joined]
    omega
  · intro next
    rfl
  · simp
  · intro prev
    rfl
  · refine ⟨?_, trivial⟩
    rw [h.layout.cell] at hnew
    exact hnew
  · intro o ho hnin
    exact hother _ (hne₁ o ho) (hne₂ o ho) hnin
  · intro i y
    refine mapped_erase h.layout hmem₂ ?_ ?_ hptr i y
    · intro z
      simp only [List.map_append, List.map_cons, List.map_nil, List.mem_append, List.mem_cons,
        List.not_mem_nil, or_false, Block.joined]
      tauto
    · simp only [List.map_append, List.map_cons, List.map_nil, List.mem_append, List.mem_cons,
        List.not_mem_nil, or_false, Block.joined, not_or, List.mem_map, not_exists, not_and]
      refine ⟨fun o ho => ?_, Ne.symm hne, fun o ho => ?_⟩
      · exact hne₂ o (Hole.mem_others.mpr (Or.inr (Or.inl ho)))
      · exact hne₂ o (Hole.mem_others.mpr (Or.inr (Or.inr ho)))
  · have hperm : ([b₁.joined b₂].map Block.handle ++
        (k.others.map Block.handle ++ b₂.handle :: unused)).Perm
        (b₁.handle :: b₂.handle :: (k.others.map Block.handle ++ unused)) :=
      List.Perm.cons _ List.perm_middle
    rw [hperm.nodup_iff]
    simp only [List.nodup_cons, List.mem_cons, not_or]
    exact ⟨⟨hne, hgone₁⟩, hgone₂, hrest⟩
  · rw [hnum]
    have hlt₁ := h.layout.lt_of_fill hmem₁
    have hlt₂ := h.layout.lt_of_fill hmem₂
    refine ⟨by simpa [Block.joined] using hlt₁, fun y hy => ?_⟩
    rcases List.mem_append.mp hy with hy | hy
    · exact hbound.2 y (List.mem_append_left _ hy)
    · rcases List.mem_cons.mp hy with rfl | hy
      · exact hlt₂
      · exact hbound.2 y (List.mem_append_right _ hy)
  · rw [hhead]
    refine ⟨rfl, by rw [hold], ?_⟩
    rw [hold]
    refine h.layout.freeList.congr fun y hy => hother y (hneUnused₁ y hy) (hneUnused₂ y hy) ?_
    intro hin
    obtain ⟨o, ho, rfl⟩ := Layout.first_right_mem hin
    exact (List.nodup_append.mp hrest).2.2 _
      (List.mem_map_of_mem (Hole.mem_others.mpr (Or.inr (Or.inr ho)))) _ hy rfl

theorem post_deallocateChunk {h : ChunkHandle} (hlt : h < s.chunkNum)
    {Q : Unit → Allocator E → Prop} :
    Post (deallocateChunk h) s Q X ↔
      Q ⟨⟩ { s with
        chunks := Function.update s.chunks h { s.chunks h with
          allocationId := -1, binNum := none, next := s.freeChunksList }
        freeChunksList := some h } := by
  rw [deallocateChunk, post_bind, post_get, post_bind, post_modifyChunk hlt, post_modify]

/-- `Merge` joins two loose neighbours. -/
theorem post_merge (h : Shape cfg s (k.fill r [b₁, b₂]) unused)
    (hfree₁ : b₁.allocationId = -1) (hloose₁ : b₁.binNum = none)
    (hfree₂ : b₂.allocationId = -1) (hloose₂ : b₂.binNum = none) :
    Post (merge b₁.handle b₂.handle) s
      (fun _ t => ∃ r' unused', r'.ptr = r.ptr ∧ r'.memorySize = r.memorySize ∧
        Shape cfg t (k.fill r' [b₁.joined b₂]) unused') X := by
  have hmem₁ : b₁ ∈ [b₁, b₂] := List.mem_cons_self ..
  have hmem₂ : b₂ ∈ [b₁, b₂] := List.mem_cons_of_mem _ (List.mem_singleton_self b₂)
  have hlt₁ := h.layout.lt_of_fill hmem₁
  have hlt₂ := h.layout.lt_of_fill hmem₂
  have hcell₁ := h.layout.cell
  have hcell₂ : s.chunks b₂.handle = b₂.chunk (some b₁.handle)
      (r.ptr + (tiles.widths k.left + b₁.size)) (tiles.first k.right none) := by
    have hlayout := h.layout
    rw [Hole.fill_pair_right] at hlayout
    have hcell := hlayout.cell
    simp only [Hole.narrow, Tiles.last_append, Tiles.last_cons, Tiles.last_nil,
      Tiles.widths_append, Tiles.widths_cons, Tiles.widths_nil, Tiles.first_nil,
      List.nil_append, Nat.add_zero] at hcell
    exact hcell
  have hne : b₁.handle ≠ b₂.handle := by
    have hnodup := Hole.nodup_fill.mp h.layout.nodup
    simp only [List.map_cons, List.cons_append, List.nodup_cons, List.mem_cons, not_or] at hnodup
    exact hnodup.1.1
  have hright₁ := h.layout.not_first_right hmem₁
  have hright₂ := h.layout.not_first_right hmem₂
  have hrightLt := first_right_lt h.layout
  have hpass : (!(s.chunks b₁.handle).inUse && !(s.chunks b₂.handle).inUse) = true := by
    rw [hcell₁, hcell₂]
    simp [Chunk.inUse, Block.chunk, hfree₁, hfree₂]
  have hnext : (s.chunks b₂.handle).next = tiles.first k.right none := congrArg Chunk.next hcell₂
  have hprev : (decide ((s.chunks b₂.handle).prev = some b₁.handle)) = true := by
    rw [hcell₂]
    exact decide_eq_true rfl
  have hbspan : b₂ ∈ k.left ++ ([b₁, b₂] ++ k.right) := by simp
  have hin := h.layout.span.within hbspan
  have hpos := (h.layout.blockOk (h.layout.mem_fill hmem₂)).pos
  have hkeep₂ : ∀ c c' : Chunk, Function.update (relinked (Function.update s.chunks b₁.handle c)
      (tiles.first k.right none) b₁.handle) b₁.handle c' b₂.handle = s.chunks b₂.handle := by
    intro c c'
    rw [Function.update_of_ne hne.symm, relinked_of_ne hright₂, Function.update_of_ne hne.symm]
  rw [merge, post_bind, post_chunkFromHandle hlt₁, post_bind, post_chunkFromHandle hlt₂, post_bind,
    post_enforce hpass, post_bind, post_modifyChunk hlt₁, post_bind, post_enforce hprev, post_bind,
    post_setPrev (by rw [hnext]; exact hrightLt), post_bind, post_modifyChunk (by exact hlt₁),
    deleteChunk, post_bind, post_chunkFromHandle (by exact hlt₂)]
  simp only [hnext, hkeep₂]
  rw [post_bind, post_setHandle (by exact h.layout.regions) h.layout.sorted hin.1
    (by simp only [] at hin; omega) h.layout.span.top, post_deallocateChunk (by exact hlt₂)]
  refine ⟨r.setHandle (s.chunks b₂.handle).ptr none, _, rfl, rfl,
    h.merge hfree₁ hloose₁ hfree₂ hloose₂ ⟨rfl, rfl, rfl, rfl, rfl⟩ rfl rfl rfl ?_ ?_ ?_ ?_⟩
  · dsimp only
    rw [Function.update_of_ne hne, Function.update_self, relinked_of_ne hright₁,
      Function.update_self, hcell₁, hcell₂]
    rfl
  · dsimp only
    rw [Function.update_self, hkeep₂]
  · intro y hy
    have hy₁ : y ≠ b₁.handle := by
      rintro rfl
      exact hright₁ hy
    have hy₂ : y ≠ b₂.handle := by
      rintro rfl
      exact hright₂ hy
    dsimp only
    rw [Function.update_of_ne hy₂, Function.update_of_ne hy₁, relinked_of_mem hy,
      Function.update_of_ne hy₁]
  · intro y hy₁ hy₂ hy
    dsimp only
    rw [Function.update_of_ne hy₂, Function.update_of_ne hy₁, relinked_of_ne hy,
      Function.update_of_ne hy₁]

end DashInfer.Device
