import Mathlib
import DashInfer.Device.Search

/-!
`Extend`: memory from the device becomes a region of its own, or the end of the
region before it where the device allows that, and in either case one free
chunk more.
-/

namespace DashInfer.Device

open Lib

variable {E : OrderedSet ChunkHandle} {cfg : Config} {s t u : Allocator E} {k : Hole}
  {r : Region} {b : Block} {spans spans' : List Span} {unused unused' : List ChunkHandle}
  {X : Fault → Allocator E → Prop}

theorem growRegionBytes_spec {rounded fuel curr c : Nat} (halign : kMinAllocationSize ∣ curr)
    (h : growRegionBytes rounded fuel curr = some c) :
    rounded ≤ c ∧ kMinAllocationSize ∣ c := by
  induction fuel generalizing curr with
  | zero =>
      simp only [growRegionBytes, Option.ite_none_right_eq_some, Option.some.injEq] at h
      exact h.2 ▸ ⟨h.1, halign⟩
  | succ fuel ih =>
      rw [growRegionBytes] at h
      split at h
      · next hle =>
          obtain rfl := Option.some.inj h
          exact ⟨hle, halign⟩
      · refine ih ?_ h
        exact (Nat.dvd_mod_iff (by decide)).mpr (Dvd.dvd.mul_right halign 2)

/-- Memory that no region overlaps goes between the regions below it and those
above it. -/
theorem span_regions {p bytes : Nat} (hsorted : Sorted (regionsOf spans))
    (hfresh : ∀ r ∈ regionsOf spans, p + bytes ≤ r.ptr ∨ r.endPtr ≤ p) (hpos : 0 < bytes)
    (hsize : ∀ r ∈ regionsOf spans, 0 < r.memorySize) :
    ∃ before after, spans = before ++ after ∧
      (regionsOf spans).takeWhile (fun r => r.endPtr ≤ p) = regionsOf before ∧
      (regionsOf spans).dropWhile (fun r => r.endPtr ≤ p) = regionsOf after ∧
      (∀ r ∈ regionsOf before, r.endPtr ≤ p) ∧ ∀ r ∈ regionsOf after, p + bytes ≤ r.ptr := by
  induction spans with
  | nil => exact ⟨[], [], rfl, rfl, rfl, by simp [regionsOf], by simp [regionsOf]⟩
  | cons e rest ih =>
      have hcons := List.pairwise_cons.mp hsorted
      by_cases hlow : e.region.endPtr ≤ p
      · obtain ⟨before, after, hspans, htake, hdrop, hbefore, hafter⟩ :=
          ih hcons.2 (fun r hr => hfresh r (List.mem_cons_of_mem _ hr))
            (fun r hr => hsize r (List.mem_cons_of_mem _ hr))
        refine ⟨e :: before, after, by rw [hspans]; rfl, ?_, ?_, ?_, hafter⟩
        · rw [regionsOf, List.map_cons, List.takeWhile_cons_of_pos (by simpa using hlow)]
          exact congrArg _ htake
        · rw [regionsOf, List.map_cons, List.dropWhile_cons_of_pos (by simpa using hlow)]
          exact hdrop
        · intro r hr
          rcases List.mem_cons.mp hr with rfl | hr
          · exact hlow
          · exact hbefore r hr
      · have hhigh := (hfresh e.region (List.mem_cons_self ..)).resolve_right hlow
        refine ⟨[], e :: rest, rfl, ?_, ?_, by simp [regionsOf], ?_⟩
        · rw [regionsOf, List.map_cons, List.takeWhile_cons_of_neg (by simpa using hlow)]
          rfl
        · rw [regionsOf, List.map_cons, List.dropWhile_cons_of_neg (by simpa using hlow)]
        · intro r hr
          rcases List.mem_cons.mp hr with rfl | hr
          · exact hhigh
          · have hle := hcons.1 r hr
            unfold Region.endPtr at hle
            omega

/-- The chunk `x` stands for new memory at `p`, and nothing refers to it yet. -/
structure NewChunk (chunks : ChunkHandle → Chunk) (t : Allocator E) (handles : List ChunkHandle)
    (x : ChunkHandle) (p bytes : Nat) (unused : List ChunkHandle) : Prop where
  chunks : ∀ y, y ≠ x → t.chunks y = chunks y
  chunk : ∃ q, t.chunks x = { size := bytes, requestedSize := q, ptr := p }
  fresh : x ∉ handles ++ unused
  lt : x < t.chunkNum
  freeList : FreeList t.chunks t.freeChunksList unused
  nodup : (handles ++ unused).Nodup
  bound : ∀ y ∈ handles ++ unused, y < t.chunkNum

theorem post_newRegionChunk {handles : List ChunkHandle} {p bytes : Nat}
    (hnodup : (handles ++ unused).Nodup) (hbound : ∀ y ∈ handles ++ unused, y < s.chunkNum)
    (hfree : FreeList s.chunks s.freeChunksList unused) :
    Post (newRegionChunk p bytes) s
      (fun x t => SameCounts s t ∧ t.regions = s.regions ∧
        ∃ unused', NewChunk s.chunks t handles x p bytes unused') X := by
  rw [newRegionChunk, post_bind]
  refine (post_allocateChunk hnodup hbound hfree).imp ?_ (fun _ _ hx => hx)
  rintro x u ⟨unused', hu⟩
  rw [post_bind, post_modifyChunk hu.lt, post_pure]
  have hcounts := hu.counts
  refine ⟨⟨hcounts.bins, hcounts.curr, hcounts.total, hcounts.nextId, hcounts.stats⟩, hu.regions,
    unused', ?_, ⟨(u.chunks x).requestedSize, ?_⟩, hu.fresh, hu.lt, ?_, hu.nodup, hu.bound⟩
  · intro y hy
    exact (Function.update_of_ne hy _ _).trans (hu.chunks y hy)
  · simp only [Function.update_self, hu.loose]
  · refine hu.freeList.congr fun y hy => Function.update_of_ne ?_ _ _
    rintro rfl
    exact hu.fresh (List.mem_append_right _ hy)

/-- `Extend` has taken `bytes` more from the device. -/
structure Charged (s t : Allocator E) (bytes : Nat) : Prop where
  bins : t.bins = s.bins
  curr : t.currRegionAllocationBytes = s.currRegionAllocationBytes
  total : t.totalRegionAllocatedBytes = s.totalRegionAllocatedBytes + bytes
  nextId : t.nextAllocationId = s.nextAllocationId
  stats : t.stats = s.stats

/-- The chunk of a new region. -/
def newBlock (x : ChunkHandle) (bytes q : Nat) : Block :=
  { handle := x, size := bytes, requestedSize := q, allocationId := -1, binNum := none }

theorem Counted.charged {bytes : Nat} (h : Counted cfg s spans) (ht : Charged s t bytes)
    (hlimit : s.totalRegionAllocatedBytes + bytes ≤ cfg.memoryLimit)
    (hused : usedBytes (blocksOf spans') = usedBytes (blocksOf spans))
    (htotal : regionBytes (regionsOf spans') = regionBytes (regionsOf spans) + bytes) :
    Counted cfg t spans' where
  inUse := by rw [ht.stats, h.inUse, hused]
  total := by rw [ht.total, h.total, htotal]
  limit := by
    rw [ht.total]
    exact hlimit
  nextId := ht.nextId ▸ h.nextId
  aligned := ht.curr ▸ h.aligned

theorem sorted_insert {before after : List Span} {p bytes : Nat}
    (h : Sorted (regionsOf (before ++ after))) (hbefore : ∀ r ∈ regionsOf before, r.endPtr ≤ p)
    (hafter : ∀ r ∈ regionsOf after, p + bytes ≤ r.ptr) {r : Region} (hptr : r.ptr = p)
    (hsize : r.memorySize = bytes) : Sorted (regionsOf before ++ r :: regionsOf after) := by
  rw [regionsOf, List.map_append] at h
  obtain ⟨hb, ha, hba⟩ := List.pairwise_append.mp h
  refine List.pairwise_append.mpr ⟨hb, List.pairwise_cons.mpr ⟨?_, ha⟩, ?_⟩
  · intro r' hr'
    rw [Region.endPtr, hptr, hsize]
    exact hafter r' hr'
  · intro r₁ hr₁ r₂ hr₂
    rcases List.mem_cons.mp hr₂ with rfl | hr₂
    · rw [hptr]
      exact hbefore r₁ hr₁
    · exact hba r₁ hr₁ r₂ hr₂

/-- New memory as a region of its own. -/
theorem Shape.addRegion {before after : List Span} {x : ChunkHandle} {p bytes : Nat}
    (h : Shape cfg s (before ++ after) unused) (hcharged : Charged s t bytes)
    (ht : NewChunk s.chunks t ((blocksOf (before ++ after)).map Block.handle) x p bytes unused')
    (hregions : t.regions = regionsOf before ++
      (Region.setHandle { ptr := p, memorySize := bytes } p (some x)) :: regionsOf after)
    (hp : 0 < p) (htop : p + bytes ≤ wordSize) (hpos : 0 < bytes)
    (halign : kMinAllocationSize ∣ bytes)
    (hlimit : s.totalRegionAllocatedBytes + bytes ≤ cfg.memoryLimit)
    (hbefore : ∀ r ∈ regionsOf before, r.endPtr ≤ p)
    (hafter : ∀ r ∈ regionsOf after, p + bytes ≤ r.ptr) :
    ∃ q, Shape cfg t (Hole.fill ⟨before, [], [], after⟩
      (Region.setHandle { ptr := p, memorySize := bytes } p (some x)) [newBlock x bytes q])
      unused' := by
  obtain ⟨q, hchunk⟩ := ht.chunk
  have hkept : ∀ b ∈ blocksOf (before ++ after), t.chunks b.handle = s.chunks b.handle := by
    intro b hb
    refine ht.chunks _ ?_
    rintro rfl
    exact ht.fresh (List.mem_append_left _ (List.mem_map_of_mem hb))
  have hothers : Hole.others ⟨before, [], [], after⟩ = blocksOf (before ++ after) := by
    simp [Hole.others, blocksOf]
  have hindex : Region.indexFor { ptr := p, memorySize := bytes } p = 0 := by
    rw [(indexFor_eq (r := { ptr := p, memorySize := bytes }) (p := p) (Nat.le_refl _)
      (by simp only [Region.endPtr]; omega) htop).1, Nat.sub_self]
    rfl
  refine ⟨q, ⟨?_, ?_, ?_, ?_, ?_, ht.freeList⟩, ?_, ?_⟩
  · rw [hregions, Hole.regionsOf_fill]
  · rw [Hole.regionsOf_fill]
    exact sorted_insert h.layout.sorted hbefore hafter rfl rfl
  · refine Hole.spanOk_fill.mpr ⟨fun e he => ?_, ?_⟩
    · exact (h.layout.spanOk e he).congr fun b hb =>
        hkept b (List.mem_flatMap.mpr ⟨e, he, hb⟩)
    · refine ⟨hp, htop, ?_, by simp, by simp [newBlock, Region.setHandle], ?_, ?_⟩
      · simp only [List.nil_append, List.append_nil, List.mem_singleton, forall_eq]
        exact ⟨hpos, halign, fun i hi => by cases hi⟩
      · exact ⟨hchunk, trivial⟩
      · intro i y
        simp only [Region.setHandle, hindex, List.nil_append, List.append_nil, List.map_cons,
          List.map_nil, List.mem_singleton, newBlock]
        by_cases hi : i = 0
        · rw [hi, Function.update_self]
          constructor
          · intro heq
            obtain rfl := Option.some.inj heq
            exact ⟨rfl, by rw [hchunk]; rfl⟩
          · rintro ⟨rfl, _⟩
            rfl
        · rw [Function.update_of_ne hi]
          refine ⟨(fun heq => by cases heq), ?_⟩
          rintro ⟨rfl, hyptr⟩
          rw [hchunk] at hyptr
          simp only [kMinAllocationSize, kMinAllocationBits] at hyptr
          omega
  · rw [Hole.nodup_fill, hothers]
    exact List.nodup_cons.mpr ⟨ht.fresh, ht.nodup⟩
  · rw [Hole.bound_fill, hothers]
    exact ⟨by simpa [newBlock] using ht.lt, ht.bound⟩
  · refine Binned.perm ?_ Hole.blocksOf_fill_perm.symm
    rw [hothers]
    refine Binned.refill (m := []) h.binned hcharged.bins (by simp) (by simp [newBlock]) ?_
    intro b hb
    rw [hkept b hb]
    exact ⟨rfl, rfl⟩
  · refine h.counted.charged hcharged hlimit ?_ ?_
    · rw [Hole.usedBytes_fill, hothers, usedBytes_loose rfl, Nat.zero_add]
    · rw [Hole.regionBytes_fill]
      simp only [regionBytes, regionsOf, List.map_append, List.sum_append, Region.setHandle]
      omega

theorem sorted_extend {before after : List Span} {blocks : List Block} {bytes : Nat}
    (h : Sorted (regionsOf (before ++ ⟨r, blocks⟩ :: after)))
    (hafter : ∀ r' ∈ regionsOf after, r.endPtr + bytes ≤ r'.ptr) {r' : Region}
    (hptr : r'.ptr = r.ptr) (hsize : r'.memorySize = r.memorySize + bytes) :
    Sorted (regionsOf before ++ r' :: regionsOf after) := by
  rw [regionsOf, List.map_append, List.map_cons] at h
  obtain ⟨hb, hra, hbr⟩ := List.pairwise_append.mp h
  refine List.pairwise_append.mpr
    ⟨hb, List.pairwise_cons.mpr ⟨?_, (List.pairwise_cons.mp hra).2⟩, ?_⟩
  · intro r₁ hr₁
    have hle := hafter r₁ hr₁
    simp only [Region.endPtr, hptr, hsize] at hle ⊢
    omega
  · intro r₁ hr₁ r₂ hr₂
    rcases List.mem_cons.mp hr₂ with rfl | hr₂
    · rw [hptr]
      exact hbr r₁ hr₁ r (List.mem_cons_self ..)
    · exact hbr r₁ hr₁ r₂ (List.mem_cons_of_mem _ hr₂)

theorem indexFor_extend {bytes : Nat} (hsize : 0 < r.memorySize)
    (htop : r.endPtr + bytes ≤ wordSize) (hpos : 0 < bytes) :
    (r.extend bytes).indexFor r.endPtr = r.memorySize / kMinAllocationSize := by
  rw [(indexFor_eq (r := r.extend bytes) (p := r.endPtr)
    (by simp only [Region.endPtr, Region.extend]; omega)
    (by simp only [Region.endPtr, Region.extend]; omega)
    (by simp only [Region.endPtr, Region.extend] at htop ⊢; omega)).1]
  simp only [Region.endPtr, Region.extend, Nat.add_sub_cancel_left]

/-- The memory right behind a region, as its last chunk. -/
theorem Shape.growRegion {before after : List Span} {front : List Block} {o : Block}
    {x : ChunkHandle} {bytes : Nat}
    (h : Shape cfg s (before ++ ⟨r, front ++ [o]⟩ :: after) unused)
    (hcharged : Charged s t bytes)
    (hu : NewChunk s.chunks u ((blocksOf (before ++ ⟨r, front ++ [o]⟩ :: after)).map Block.handle)
      x r.endPtr bytes unused')
    (hnum : t.chunkNum = u.chunkNum)
    (hhead : t.freeChunksList = u.freeChunksList)
    (hregions : t.regions = regionsOf before ++
      ((r.extend bytes).setHandle r.endPtr (some x)) :: regionsOf after)
    (hnew : t.chunks x = { u.chunks x with prev := some o.handle })
    (hlast : t.chunks o.handle = { u.chunks o.handle with next := some x })
    (hother : ∀ y, y ≠ x → y ≠ o.handle → t.chunks y = u.chunks y)
    (htop : r.endPtr + bytes ≤ wordSize) (hpos : 0 < bytes)
    (halign : kMinAllocationSize ∣ bytes)
    (hlimit : s.totalRegionAllocatedBytes + bytes ≤ cfg.memoryLimit)
    (hafter : ∀ r' ∈ regionsOf after, r.endPtr + bytes ≤ r'.ptr) :
    ∃ q, Shape cfg t (Hole.fill ⟨before, front ++ [o], [], after⟩
      ((r.extend bytes).setHandle r.endPtr (some x)) [newBlock x bytes q]) unused' := by
  obtain ⟨q, hchunk⟩ := hu.chunk
  set spans := before ++ ⟨r, front ++ [o]⟩ :: after with hspans
  have hthis : (⟨r, front ++ [o]⟩ : Span) ∈ spans := by simp [hspans]
  have hok := h.layout.spanOk _ hthis
  have hoall : o ∈ blocksOf spans := List.mem_flatMap.mpr ⟨_, hthis, by simp⟩
  have hnotx : ∀ b ∈ blocksOf spans, b.handle ≠ x := by
    rintro b hb rfl
    exact hu.fresh (List.mem_append_left _ (List.mem_map_of_mem hb))
  have hkept : ∀ b ∈ blocksOf spans, b ≠ o → t.chunks b.handle = s.chunks b.handle := by
    intro b hb hne
    rw [hother _ (hnotx b hb) fun heq => hne (h.layout.eq_of_handle hb hoall heq),
      hu.chunks _ (hnotx b hb)]
  have hlast' : t.chunks o.handle = { s.chunks o.handle with next := some x } := by
    rw [hlast, hu.chunks _ (hnotx o hoall)]
  have hptr : ∀ b ∈ blocksOf spans, (t.chunks b.handle).ptr = (s.chunks b.handle).ptr ∧
      (t.chunks b.handle).size = (s.chunks b.handle).size := by
    intro b hb
    by_cases hbo : b = o
    · rw [hbo, hlast']
      exact ⟨rfl, rfl⟩
    · rw [hkept b hb hbo]
      exact ⟨rfl, rfl⟩
  have hxchunk : t.chunks x =
      { size := bytes, requestedSize := q, ptr := r.endPtr, prev := some o.handle } := by
    rw [hnew, hchunk]
  have hfill : spans = Hole.fill ⟨before, front, [], after⟩ r [o] := by simp [Hole.fill, hspans]
  have hlayout := h.layout
  rw [hfill] at hlayout
  have hnotO : ∀ b ∈ Hole.others ⟨before, front, [], after⟩, b ∈ blocksOf spans ∧ b ≠ o := by
    intro b hb
    refine ⟨hfill ▸ Hole.mem_blocksOf_fill.mpr (Or.inr hb), ?_⟩
    rintro rfl
    exact (hlayout.handle_ne (List.mem_singleton_self b)).1 b hb rfl
  have halign' : kMinAllocationSize ∣ r.memorySize := by
    have hw := widths_aligned hok.blocksOk
    rwa [hok.width] at hw
  have hsize : 0 < r.memorySize := hok.size_pos
  have hindex := indexFor_extend hsize htop hpos
  have hothers : Hole.others ⟨before, front ++ [o], [], after⟩ = blocksOf spans := by
    simp [Hole.others, blocksOf, hspans]
  refine ⟨q, ⟨?_, ?_, ?_, ?_, ?_, ?_⟩, ?_, ?_⟩
  · rw [hregions, Hole.regionsOf_fill]
  · rw [Hole.regionsOf_fill]
    exact sorted_extend h.layout.sorted hafter rfl rfl
  · refine Hole.spanOk_fill.mpr ⟨fun e he => ?_, ?_⟩
    · refine ((Hole.spanOk_fill.mp hlayout.spanOk).1 e he).congr fun b hb => ?_
      obtain ⟨hin, hne⟩ := hnotO b (Hole.mem_others.mpr (Or.inl ⟨e, he, hb⟩))
      exact hkept b hin hne
    · have hseg := hok.seg
      have hwidth := hok.width
      simp only [] at hwidth hseg
      refine ⟨hok.base_pos, ?_, ?_, by simp, ?_, ?_, ?_⟩
      · simp only [Region.endPtr, Region.setHandle, Region.extend] at htop ⊢
        omega
      · intro b hb
        simp only [List.append_nil, List.mem_append, List.mem_singleton] at hb
        rcases hb with hb | rfl
        · exact hok.blocksOk b (by simpa using hb)
        · exact ⟨hpos, halign, fun i hi => by cases hi⟩
      · rw [Tiles.widths_append, hwidth]
        simp [newBlock, Region.setHandle, Region.extend]
      · rw [Tiles.seg_append] at hseg
        rw [Tiles.seg_append, Tiles.seg_append]
        refine ⟨⟨?_, ?_, trivial⟩, ?_, trivial⟩
        · refine hseg.1.congr fun b hb => ?_
          obtain ⟨hin, hne⟩ := hnotO b (Hole.mem_others.mpr (Or.inr (Or.inl hb)))
          exact hkept b hin hne
        · have hcell : s.chunks o.handle = o.chunk _ _ _ := hseg.2.1
          rw [hcell] at hlast'
          exact hlast'
        · rw [hwidth, Tiles.last_append]
          exact hxchunk
      · intro i y
        have hmem : y ∈ ((front ++ [o]) ++ ([newBlock x bytes q] ++ [])).map Block.handle ↔
            y = x ∨ y ∈ (front ++ [o]).map Block.handle := by
          simp only [List.append_nil, List.map_append, List.map_cons, List.map_nil,
            List.mem_append, List.mem_singleton, newBlock]
          tauto
        have hold : ∀ y ∈ (front ++ [o]).map Block.handle, y ≠ x ∧
            (t.chunks y).ptr = (s.chunks y).ptr ∧ (s.chunks y).ptr < r.endPtr := by
          intro y hy
          obtain ⟨b, hb, rfl⟩ := List.mem_map.mp hy
          have hin : b ∈ blocksOf spans := List.mem_flatMap.mpr ⟨_, hthis, hb⟩
          have hwithin := hok.within hb
          have hbpos := (hok.blocksOk b hb).pos
          simp only [] at hwithin
          exact ⟨hnotx b hin, (hptr b hin).1, by omega⟩
        rw [hmem]
        simp only [Region.setHandle, hindex]
        have hbase : (r.extend bytes).ptr = r.ptr := rfl
        have hmul : kMinAllocationSize * (r.memorySize / kMinAllocationSize) = r.memorySize :=
          Nat.mul_div_cancel' halign'
        have h256 : 0 < kMinAllocationSize := by decide
        by_cases hi : i = r.memorySize / kMinAllocationSize
        · rw [hi, Function.update_self, hbase, hmul]
          constructor
          · intro heq
            obtain rfl := Option.some.inj heq
            exact ⟨Or.inl rfl, by rw [hxchunk]; rfl⟩
          · rintro ⟨rfl | hy, hyptr⟩
            · rfl
            · obtain ⟨_, hsame, hless⟩ := hold y hy
              rw [hsame] at hyptr
              exact absurd hyptr (Nat.ne_of_lt hless)
        · rw [Function.update_of_ne hi, hbase]
          change r.handles i = some y ↔ _
          rw [hok.mapped i y]
          constructor
          · rintro ⟨hy, hyptr⟩
            exact ⟨Or.inr hy, by rw [(hold y hy).2.1]; exact hyptr⟩
          · rintro ⟨rfl | hy, hyptr⟩
            · rw [hxchunk] at hyptr
              refine absurd ?_ hi
              have heq : r.memorySize = kMinAllocationSize * i := by
                simp only [Region.endPtr] at hyptr
                omega
              rw [heq, Nat.mul_div_cancel_left _ h256]
            · rw [(hold y hy).2.1] at hyptr
              exact ⟨hy, hyptr⟩
  · rw [Hole.nodup_fill, hothers]
    exact List.nodup_cons.mpr ⟨hu.fresh, hu.nodup⟩
  · rw [Hole.bound_fill, hothers, hnum]
    exact ⟨by simpa [newBlock] using hu.lt, hu.bound⟩
  · rw [hhead]
    refine hu.freeList.congr fun y hy => hother y ?_ ?_
    · rintro rfl
      exact hu.fresh (List.mem_append_right _ hy)
    · rintro rfl
      exact (List.nodup_append.mp hu.nodup).2.2 _ (List.mem_map_of_mem hoall) _ hy rfl
  · refine Binned.perm ?_ Hole.blocksOf_fill_perm.symm
    rw [hothers]
    refine Binned.refill (m := []) h.binned hcharged.bins (by simp) (by simp [newBlock]) ?_
    intro b hb
    exact ⟨(hptr b hb).2, (hptr b hb).1⟩
  · refine h.counted.charged hcharged hlimit ?_ ?_
    · rw [Hole.usedBytes_fill, hothers, usedBytes_loose rfl, Nat.zero_add]
    · rw [Hole.regionBytes_fill]
      simp only [hspans, regionBytes, regionsOf, List.map_append, List.map_cons, List.sum_append,
        List.sum_cons, Region.setHandle, Region.extend]
      omega

/-- Where `Extend` puts new memory: between two regions, or at the end of one. -/
theorem placeRegion_cases (cfg : Config) {p bytes : Nat} (hsorted : Sorted (regionsOf spans))
    (hfresh : ∀ r ∈ regionsOf spans, p + bytes ≤ r.ptr ∨ r.endPtr ≤ p) (hpos : 0 < bytes)
    (hsize : ∀ r ∈ regionsOf spans, 0 < r.memorySize) :
    (∃ before after, spans = before ++ after ∧ (∀ r ∈ regionsOf before, r.endPtr ≤ p) ∧
      (∀ r ∈ regionsOf after, p + bytes ≤ r.ptr) ∧
      placeRegion cfg p bytes (regionsOf spans) =
        (none, regionsOf before ++ { ptr := p, memorySize := bytes } :: regionsOf after)) ∨
    ∃ before e after, spans = before ++ e :: after ∧ e.region.endPtr = p ∧
      (∀ r ∈ regionsOf after, p + bytes ≤ r.ptr) ∧
      placeRegion cfg p bytes (regionsOf spans) =
        (some e.region.ptr, regionsOf before ++ e.region.extend bytes :: regionsOf after) := by
  obtain ⟨before, after, hspans, htake, hdrop, hbefore, hafter⟩ :=
    span_regions hsorted hfresh hpos hsize
  have hadd : addAllocationRegion p bytes (regionsOf spans) =
      regionsOf before ++ { ptr := p, memorySize := bytes } :: regionsOf after := by
    rw [addAllocationRegion, htake, hdrop]
  have hnew : placeRegion cfg p bytes (regionsOf spans) =
      (none, addAllocationRegion p bytes (regionsOf spans)) →
      ∃ before after, spans = before ++ after ∧ (∀ r ∈ regionsOf before, r.endPtr ≤ p) ∧
        (∀ r ∈ regionsOf after, p + bytes ≤ r.ptr) ∧
        placeRegion cfg p bytes (regionsOf spans) =
          (none, regionsOf before ++ { ptr := p, memorySize := bytes } :: regionsOf after) := by
    intro heq
    exact ⟨before, after, hspans, hbefore, hafter, by rw [heq, hadd]⟩
  by_cases hco : cfg.coalesceRegions = true
  · rcases List.eq_nil_or_concat before with rfl | ⟨front, e, hfront⟩
    · refine Or.inl (hnew ?_)
      rw [placeRegion, if_pos hco, addOrExtendAllocationRegion, htake]
      rfl
    · rw [List.concat_eq_append] at hfront
      subst hfront
      have hlast : (regionsOf (front ++ [e])).getLast? = some e.region := by simp [regionsOf]
      by_cases hend : e.region.endPtr = p
      · refine Or.inr ⟨front, e, after, by rw [hspans]; simp, hend, hafter, ?_⟩
        rw [placeRegion, if_pos hco, addOrExtendAllocationRegion, htake, hdrop, hlast]
        simp [hend, regionsOf]
      · refine Or.inl (hnew ?_)
        rw [placeRegion, if_pos hco, addOrExtendAllocationRegion, htake, hlast]
        simp [hend]
  · refine Or.inl (hnew ?_)
    rw [placeRegion, if_neg hco]

/-- The walk to the end of a chain. -/
theorem post_lastChunk {l : List Block} {o : Block} {prev : Option ChunkHandle} {p fuel : Nat}
    {x : ChunkHandle} (hseg : tiles.Seg s.chunks prev p (l ++ [o]) none)
    (hlt : ∀ b ∈ l ++ [o], b.handle < s.chunkNum) (hfuel : (l ++ [o]).length ≤ fuel)
    (hx : tiles.first (l ++ [o]) none = some x) :
    Post (lastChunk fuel x) s (fun y t => t = s ∧ y = o.handle) X := by
  induction l generalizing prev p fuel x with
  | nil =>
      obtain rfl : o.handle = x := Option.some.inj hx
      obtain ⟨fuel, rfl⟩ : ∃ n, fuel = n + 1 := ⟨fuel - 1, by simp at hfuel; omega⟩
      have hcell : s.chunks o.handle = o.chunk prev p none := hseg.1
      rw [lastChunk, post_bind, post_chunkFromHandle (hlt o (by simp)), hcell]
      exact ⟨rfl, rfl⟩
  | cons b rest ih =>
      obtain rfl : b.handle = x := Option.some.inj hx
      obtain ⟨fuel, rfl⟩ : ∃ n, fuel = n + 1 := ⟨fuel - 1, by simp at hfuel; omega⟩
      have hcell : s.chunks b.handle = b.chunk prev p (tiles.first (rest ++ [o]) none) := hseg.1
      rw [lastChunk, post_bind, post_chunkFromHandle (hlt b (by simp)), hcell]
      obtain ⟨y, hy⟩ : ∃ y, tiles.first (rest ++ [o]) none = some y := by
        cases rest <;> exact ⟨_, rfl⟩
      simp only [Block.chunk, hy]
      refine ih hseg.2 (fun b' hb' => hlt b' (List.mem_cons_of_mem _ hb')) ?_ hy
      simpa using hfuel

theorem length_le_chunkNum {hs : List ChunkHandle} {n : Nat} (hnodup : hs.Nodup)
    (hlt : ∀ x ∈ hs, x < n) : hs.length ≤ n := by
  have hsub : hs ⊆ List.range n := fun x hx => List.mem_range.mpr (hlt x hx)
  have hlen := (List.subperm_of_subset hnodup hsub).length_le
  rwa [List.length_range] at hlen

/-- A chain is no longer than the vector of chunks. -/
theorem blocks_length_le {n : Nat} (hnodup : ((blocksOf spans).map Block.handle ++ unused).Nodup)
    (hbound : ∀ x ∈ (blocksOf spans).map Block.handle ++ unused, x < n) {e : Span}
    (he : e ∈ spans) : e.blocks.length ≤ n := by
  have hsub : List.Sublist (e.blocks.map Block.handle) ((blocksOf spans).map Block.handle) := by
    refine List.Sublist.map _ ?_
    obtain ⟨before, after, rfl⟩ := List.append_of_mem he
    simp only [blocksOf, List.flatMap_append, List.flatMap_cons]
    exact (List.sublist_append_left _ _).trans (List.sublist_append_right _ _)
  have hlen := length_le_chunkNum (hsub.nodup (List.nodup_append.mp hnodup).1)
    fun x hx => hbound x (List.mem_append_left _ (hsub.subset hx))
  simpa using hlen

/-- The handle of the chunk at the base of a region. -/
theorem Span.Ok.handles_zero {chunks : ChunkHandle → Chunk} {e : Span} (h : e.Ok chunks)
    {o : Block} {rest : List Block} (hblocks : e.blocks = o :: rest) :
    e.region.handles 0 = some o.handle := by
  refine (h.mapped 0 o.handle).mpr ⟨by rw [hblocks]; simp, ?_⟩
  have hseg := h.seg
  rw [hblocks] at hseg
  rw [show chunks o.handle = _ from hseg.1]
  rfl

/-- What a free chunk of new memory leaves once it is in its bin. -/
def Extended (cfg : Config) (spans : List Span) (bytes : Nat) (t : Allocator E) : Prop :=
  ∃ spans' unused', Inv cfg t spans' unused' ∧ inUseAt spans' = inUseAt spans ∧
    ∃ b ∈ blocksOf spans', b.inUse = false ∧ bytes ≤ b.size

private theorem post_binNewChunk {x : ChunkHandle} {bytes q : Nat}
    (h : Shape cfg t (k.fill r [newBlock x bytes q]) unused')
    (hsettled : ∀ o ∈ k.others, o.Settled) (hleft : Spaced k.left) (hright : Spaced k.right)
    (hspans : ∀ e ∈ k.before ++ k.after, Spaced e.blocks)
    (hused : inUseAt (k.fill r [newBlock x bytes q]) = inUseAt spans) :
    Post (tryToCoalesce x false >>= insertFreeChunkIntoBin) t
      (fun _ t => Extended cfg spans bytes t) X := by
  refine (post_returnToBin h rfl rfl hsettled hleft hright hspans).imp ?_ (fun _ _ hx => hx)
  rintro _ v ⟨k', r', b', unused'', hret, hv, htidy⟩
  refine ⟨_, unused'', ⟨hv, htidy⟩, hret.used.trans hused, b',
    Hole.mem_blocksOf_fill.mpr (Or.inl (List.mem_singleton_self b')), ?_, ?_⟩
  · simp [Block.inUse, hret.free]
  · have hlow := hret.low
    have hhigh := hret.high
    simp only [newBlock] at hhigh
    omega

theorem post_addRegionMemory {p bytes : Nat} (h : Inv cfg s spans unused) (hp : 0 < p)
    (htop : p + bytes ≤ wordSize)
    (hfresh : ∀ r ∈ regionsOf spans, p + bytes ≤ r.ptr ∨ r.endPtr ≤ p) (hpos : 0 < bytes)
    (halign : kMinAllocationSize ∣ bytes)
    (hlimit : s.totalRegionAllocatedBytes + bytes ≤ cfg.memoryLimit) :
    Post (addRegionMemory cfg p bytes) s (fun _ t => Extended cfg spans bytes t) X := by
  have hsize : ∀ r ∈ regionsOf spans, 0 < r.memorySize := by
    intro r hr
    obtain ⟨e, he, rfl⟩ := List.mem_map.mp hr
    exact (h.shape.layout.spanOk e he).size_pos
  have hlayout := h.shape.layout
  rw [addRegionMemory, post_bind, post_modify, post_bind, post_get, post_bind, post_modify,
    post_bind]
  simp only [hlayout.regions]
  refine (post_newRegionChunk hlayout.nodup (by exact hlayout.bound)
    (by exact hlayout.freeList)).imp ?_ (fun _ _ hx => hx)
  rintro x u ⟨hcounts, hregions, unused', hnew⟩
  have hcharged : Charged s u bytes :=
    ⟨hcounts.bins, hcounts.curr, hcounts.total, hcounts.nextId, hcounts.stats⟩
  simp only [] at hregions hnew
  rcases placeRegion_cases cfg hlayout.sorted hfresh hpos hsize with
    ⟨before, after, hspans, hbefore, hafter, hplace⟩ |
    ⟨before, e, after, hspans, hend, hafter, hplace⟩
  · rw [hplace] at hregions ⊢
    subst hspans
    have hsorted : Sorted (regionsOf (Hole.fill ⟨before, [], [], after⟩
        { ptr := p, memorySize := bytes } [])) := by
      rw [Hole.regionsOf_fill]
      exact sorted_insert hlayout.sorted hbefore hafter rfl rfl
    rw [post_bind, post_setHandle (by rw [hregions, Hole.regionsOf_fill]) hsorted (Nat.le_refl _)
      (by simp only [Region.endPtr]; omega) htop]
    obtain ⟨q, hshape⟩ := h.shape.addRegion
      (t := { u with regions := regionsOf (Hole.fill ⟨before, [], [], after⟩
        (Region.setHandle { ptr := p, memorySize := bytes } p (some x)) []) })
      ⟨hcharged.bins, hcharged.curr, hcharged.total, hcharged.nextId, hcharged.stats⟩
      ⟨hnew.chunks, hnew.chunk, hnew.fresh, hnew.lt, hnew.freeList, hnew.nodup, hnew.bound⟩
      Hole.regionsOf_fill hp htop hpos halign hlimit hbefore hafter
    refine post_binNewChunk hshape ?_ List.IsChain.nil List.IsChain.nil h.tidy.spaced ?_
    · intro o ho
      refine h.tidy.settled o ?_
      simpa [Hole.others, blocksOf] using ho
    · rw [inUseAt_fill, usedAt_free _ rfl]
      simp [inUseAt]
  · rw [hplace] at hregions ⊢
    obtain ⟨r, blocks⟩ := e
    simp only [] at hend hregions
    subst hspans hend
    have hthis : (⟨r, blocks⟩ : Span) ∈ before ++ ⟨r, blocks⟩ :: after := by simp
    have hok := hlayout.spanOk _ hthis
    obtain ⟨front, o, hfront⟩ := (List.eq_nil_or_concat blocks).resolve_left hok.nonempty
    rw [List.concat_eq_append] at hfront
    subst hfront
    have hoall : o ∈ blocksOf (before ++ ⟨r, front ++ [o]⟩ :: after) :=
      List.mem_flatMap.mpr ⟨_, hthis, by simp⟩
    have hkept : ∀ b ∈ front ++ [o], u.chunks b.handle = s.chunks b.handle ∧
        b.handle < u.chunkNum := by
      intro b hb
      have hball : b ∈ blocksOf (before ++ ⟨r, front ++ [o]⟩ :: after) :=
        List.mem_flatMap.mpr ⟨_, hthis, hb⟩
      have hin := List.mem_append_left unused' (List.mem_map_of_mem (f := Block.handle) hball)
      refine ⟨hnew.chunks _ ?_, hnew.bound _ hin⟩
      rintro rfl
      exact hnew.fresh hin
    have hox : o.handle ≠ x := by
      rintro rfl
      exact hnew.fresh (List.mem_append_left _ (List.mem_map_of_mem hoall))
    have hrsize := hsize r (List.mem_map_of_mem hthis)
    have hsorted : ∀ r' : Region, r'.ptr = r.ptr → r'.memorySize = r.memorySize + bytes →
        Sorted (regionsOf (Hole.fill ⟨before, [], [], after⟩ r' [])) := by
      intro r' hptr hsize'
      rw [Hole.regionsOf_fill]
      exact sorted_extend hlayout.sorted hafter hptr hsize'
    have hhead : ((r.extend bytes).setHandle r.endPtr (some x)).handles 0 =
        tiles.first (front ++ [o]) none := by
      obtain ⟨o', rest, hblocks⟩ := List.exists_cons_of_ne_nil hok.nonempty
      have hzero := hok.handles_zero hblocks
      simp only [] at hblocks hzero
      rw [hblocks, Tiles.first_cons]
      change Function.update r.handles _ _ 0 = some o'.handle
      rw [Function.update_of_ne, hzero]
      rw [indexFor_extend hrsize htop hpos]
      have halign' := widths_aligned hok.blocksOk
      rw [hok.width] at halign'
      have hle := Nat.le_of_dvd hrsize halign'
      exact (Nat.div_pos hle (by decide)).ne
    obtain ⟨first, hfirst⟩ : ∃ y, tiles.first (front ++ [o]) none = some y := by
      cases front <;> exact ⟨_, rfl⟩
    rw [post_bind, post_setHandle (k := ⟨before, [], [], after⟩) (m := [])
      (by rw [hregions, Hole.regionsOf_fill]) (hsorted (r.extend bytes) rfl rfl)
      (by simp only [Region.endPtr, Region.extend]; omega)
      (by simp only [Region.endPtr, Region.extend]; omega)
      (by simp only [Region.endPtr, Region.extend] at htop ⊢; omega)]
    change Post (linkToExtended r.ptr x >>= _) _ _ _
    rw [post_bind, linkToExtended, post_bind, post_get, post_bind,
      post_getHandle (k := ⟨before, [], [], after⟩) (m := []) (p := r.ptr) (by rfl)
        (hsorted ((r.extend bytes).setHandle r.endPtr (some x)) rfl rfl) (Nat.le_refl r.ptr)
        (by simp only [Region.endPtr, Region.extend, Region.setHandle]; omega)
        (by simp only [Region.endPtr, Region.extend, Region.setHandle] at htop ⊢; omega)]
    rw [show r.ptr - ((r.extend bytes).setHandle r.endPtr (some x)).ptr = 0 from Nat.sub_self _,
      Nat.zero_div, hhead, hfirst]
    change Post (lastChunk u.chunkNum first >>= _) _ _ _
    rw [post_bind]
    have hseg : tiles.Seg u.chunks none r.ptr (front ++ [o]) none :=
      hok.seg.congr fun b hb => (hkept b hb).1
    refine (post_lastChunk (by exact hseg) (by exact fun b hb => (hkept b hb).2) ?_ hfirst).imp
      ?_ (fun _ _ hx => hx)
    · exact blocks_length_le hnew.nodup hnew.bound hthis
    · rintro _ v ⟨rfl, rfl⟩
      rw [post_bind, post_modifyChunk (by exact hnew.lt),
        post_modifyChunk (by exact (hkept o (by simp)).2)]
      obtain ⟨q, hshape⟩ := h.shape.growRegion
        (t := { u with
          regions := regionsOf (Hole.fill ⟨before, [], [], after⟩
            ((r.extend bytes).setHandle r.endPtr (some x)) [])
          chunks := Function.update
            (Function.update u.chunks x { u.chunks x with prev := some o.handle }) o.handle
            { u.chunks o.handle with next := some x } })
        ⟨hcharged.bins, hcharged.curr, hcharged.total, hcharged.nextId, hcharged.stats⟩
        hnew rfl rfl Hole.regionsOf_fill
        ((Function.update_of_ne hox.symm _ _).trans (Function.update_self ..))
        (Function.update_self ..)
        (fun y hyx hyo => (Function.update_of_ne hyo _ _).trans (Function.update_of_ne hyx _ _))
        htop hpos halign hlimit hafter
      have hsame : Function.update u.chunks x { u.chunks x with prev := some o.handle } o.handle =
          u.chunks o.handle := Function.update_of_ne hox _ _
      simp only [hsame]
      refine post_binNewChunk hshape ?_ (h.tidy.spaced _ hthis) List.IsChain.nil ?_ ?_
      · intro b hb
        refine h.tidy.settled b ?_
        simpa [Hole.others, blocksOf] using hb
      · intro e he
        refine h.tidy.spaced e ?_
        simp only [List.mem_append, List.mem_cons] at he ⊢
        tauto
      · rw [inUseAt_fill, usedAt_free _ rfl]
        simp [inUseAt, Region.setHandle, Region.extend]

/-- Why `Extend` gets no memory: too little is left under the limit, or the
device does not have the region it is asked for. -/
def Refused (cfg : Config) (device : SubAllocator) (s : Allocator E) (rounded : Nat) : Prop :=
  s.availableBytes cfg < rounded ∨
    ∃ curr, growRegionBytes rounded 64 s.currRegionAllocationBytes = some curr ∧
      device.allocate s.held (min curr (s.availableBytes cfg)) = none

/-- The state but for the size of the next region. -/
def SameMemory (s t : Allocator E) : Prop :=
  ∃ curr, t = { s with currRegionAllocationBytes := curr }

theorem Inv.withCurr (h : Inv cfg s spans unused) {curr : Nat} (halign : kMinAllocationSize ∣ curr) :
    Inv cfg { s with currRegionAllocationBytes := curr } spans unused := by
  have hl := h.shape.layout
  have hb := h.shape.binned
  have hc := h.shape.counted
  exact ⟨⟨⟨hl.regions, hl.sorted, hl.spanOk, hl.nodup, hl.bound, hl.freeList⟩,
    ⟨hb.ascending, hb.mem_iff⟩, ⟨hc.inUse, hc.total, hc.limit, hc.nextId, halign⟩⟩, h.tidy⟩

theorem Inv.availableBytes_eq (h : Inv cfg s spans unused) :
    s.availableBytes cfg =
      (cfg.memoryLimit - s.totalRegionAllocatedBytes) / kMinAllocationSize * kMinAllocationSize := by
  have hlt := cfg.limit_lt
  rw [Allocator.availableBytes,
    wordSub_of_le h.shape.counted.limit (by simp only [wordSize]; omega)]

/-- The search of `Extend` for a region size does not end. -/
def SizeDiverges (cfg : Config) (s : Allocator E) (rounded : Nat) : Prop :=
  rounded ≤ s.availableBytes cfg ∧ growRegionBytes rounded 64 s.currRegionAllocationBytes = none

/-- `Extend` ends with a free chunk that is large enough, or without new memory
and with a reason; where it does not end, it has changed nothing. -/
theorem post_extend {device : SubAllocator} {rounded : Nat} (h : Inv cfg s spans unused)
    (hpos : 0 < rounded) :
    Post (extend cfg device rounded) s
      (fun ok t => if ok then Extended cfg spans rounded t
        else Inv cfg t spans unused ∧ SameMemory s t ∧ Refused cfg device s rounded)
      (fun e t => e = .diverges ∧ t = s ∧ SizeDiverges cfg s rounded) := by
  rw [extend, post_bind, post_get]
  by_cases hlow : s.availableBytes cfg < rounded
  · rw [if_pos hlow]
    exact ⟨h, ⟨_, rfl⟩, Or.inl hlow⟩
  · rw [if_neg hlow]
    cases hgrow : growRegionBytes rounded 64 s.currRegionAllocationBytes with
    | none => exact ⟨rfl, rfl, Nat.le_of_not_lt hlow, hgrow⟩
    | some curr =>
        obtain ⟨hle, halign⟩ := growRegionBytes_spec h.shape.counted.aligned hgrow
        have hcurr := h.withCurr halign
        simp only [post_bind, post_modify]
        cases hdev : device.allocate s.held (min curr (s.availableBytes cfg)) with
        | none => exact ⟨hcurr, ⟨_, rfl⟩, Or.inr ⟨curr, hgrow, hdev⟩⟩
        | some p =>
            obtain ⟨hp, htop, hfresh⟩ := device.fresh _ _ _ hdev
            have havail := h.availableBytes_eq
            set bytes := min curr (s.availableBytes cfg) with hbytes
            have hroom : s.totalRegionAllocatedBytes + bytes ≤ cfg.memoryLimit := by
              have hlimit := h.shape.counted.limit
              have hdiv := Nat.div_mul_le_self
                (cfg.memoryLimit - s.totalRegionAllocatedBytes) kMinAllocationSize
              have hmin : bytes ≤ s.availableBytes cfg := Nat.min_le_right _ _
              omega
            have hrounded : rounded ≤ bytes := Nat.le_min.mpr ⟨hle, Nat.le_of_not_lt hlow⟩
            have hbalign : kMinAllocationSize ∣ bytes := by
              rcases Nat.le_total curr (s.availableBytes cfg) with hc | hc
              · rw [hbytes, Nat.min_eq_left hc]
                exact halign
              · rw [hbytes, Nat.min_eq_right hc, havail]
                exact Dvd.intro_left _ rfl
            have hregions : ∀ r ∈ regionsOf spans, p + bytes ≤ r.ptr ∨ r.endPtr ≤ p := by
              intro r hr
              refine hfresh (r.ptr, r.memorySize) ?_
              rw [Allocator.held, h.shape.layout.regions]
              exact List.mem_map_of_mem hr
            have hadd : ∀ c, kMinAllocationSize ∣ c →
                Post (addRegionMemory cfg p bytes >>= fun _ => pure true)
                  { s with currRegionAllocationBytes := c }
                  (fun ok t => if ok then Extended cfg spans rounded t
                    else Inv cfg t spans unused ∧ SameMemory s t ∧ Refused cfg device s rounded)
                  (fun e t => e = .diverges ∧ t = s ∧ SizeDiverges cfg s rounded) := by
              intro c hc
              rw [post_bind]
              refine (post_addRegionMemory (h.withCurr hc) hp htop hregions (by omega) hbalign
                hroom).imp ?_ (fun _ _ hx => hx)
              rintro _ t ⟨spans', unused', hinv, hused, b, hb, hfree, hsize⟩
              exact ⟨spans', unused', hinv, hused, b, hb, hfree, by omega⟩
            simp only []
            by_cases hincreased : rounded ≤ s.currRegionAllocationBytes
            · rw [if_pos hincreased, post_bind, post_modify]
              refine hadd _ ((Nat.dvd_mod_iff (by decide)).mpr (Dvd.dvd.mul_right halign 2))
            · rw [if_neg hincreased]
              exact hadd _ halign

end DashInfer.Device
