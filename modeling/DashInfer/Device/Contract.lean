import DashInfer.Device.Structure

/-!
What a client that frees only what it holds can rely on: its allocations do not
overlap, a request fails only when there is nothing to give, and what it frees
can be handed out again. The last holds of every chunk but chunk 0, whose
handle `get_handle` also returns for a pointer it does not know.
-/

namespace DashInfer.Device

open Lib

variable {E : OrderedSet ChunkHandle} {cfg : Config} {heap t : Allocator E} {s : Session E}
  {spans : List Span} {unused : List ChunkHandle} {b : Block} {p : Nat}

namespace Allocator

/-- A chunk of a region that is not in use. -/
def FreeChunk (s : Allocator E) (h : ChunkHandle) : Prop :=
  (∃ r ∈ s.regions, h ∈ s.chain r) ∧ (s.chunks h).inUse = false

/-- The memory of the regions with a chunk in use. -/
def occupiedHeld (s : Allocator E) : List (Nat × Nat) :=
  (s.regions.filter fun r => (s.chain r).any fun h => (s.chunks h).inUse).map
    fun r => (r.ptr, r.memorySize)

/-- Chunk 0 is in use. -/
def ZeroInUse (s : Allocator E) : Prop :=
  (∃ r ∈ s.regions, 0 ∈ s.chain r) ∧ (s.chunks 0).inUse = true

end Allocator

theorem Layout.freeChunk_iff (h : Layout heap spans unused) {x : ChunkHandle} :
    heap.FreeChunk x ↔ ∃ b ∈ blocksOf spans, b.handle = x ∧ b.inUse = false := by
  rw [Allocator.FreeChunk, h.mem_chain]
  constructor
  · rintro ⟨⟨b, hb, rfl⟩, hfree⟩
    exact ⟨b, hb, rfl, (h.chunk_data hb).1 ▸ hfree⟩
  · rintro ⟨b, hb, rfl, hfree⟩
    exact ⟨⟨b, hb, rfl⟩, (h.chunk_data hb).1.trans hfree⟩

theorem Layout.occupiedHeld_eq (h : Layout heap spans unused) :
    heap.occupiedHeld = heldOf (occupiedSpans spans) := by
  rw [Allocator.occupiedHeld, h.regions, heldOf, regionsOf, regionsOf, List.filter_map,
    occupiedSpans]
  congr 2
  refine List.filter_congr fun e he => ?_
  simp only [Function.comp_apply, h.chain_eq he, List.any_map, Span.occupied]
  rw [Bool.eq_iff_iff, List.any_eq_true, List.any_eq_true]
  refine exists_congr fun b => and_congr_right fun hb => ?_
  rw [Function.comp_apply, (h.chunk_data (List.mem_flatMap.mpr ⟨e, he, hb⟩)).1]

/-- The blocks of two allocations do not overlap. -/
theorem Held.disjoint (hinv : Inv cfg heap spans unused) {live : List (Nat × Nat)}
    (h : Held spans live) :
    live.Pairwise fun x y => x.1 + x.2 ≤ y.1 ∨ y.1 + y.2 ≤ x.1 := by
  have hl := hinv.shape.layout
  have hne : live.Pairwise fun x y => x.1 ≠ y.1 := List.pairwise_map.mp h.nodup
  refine hne.imp_of_mem fun {x y} hx hy hxy => ?_
  obtain ⟨b, hb, _, hfit, hle⟩ := h.used x hx
  obtain ⟨b', hb', _, hfit', hle'⟩ := h.used y hy
  obtain ⟨hball, _, hptr⟩ := hl.mem_inUseAt.mp hb
  obtain ⟨hball', _, hptr'⟩ := hl.mem_inUseAt.mp hb'
  rcases hl.apart hball hball' with rfl | hlt | hlt
  · exact absurd (hptr.symm.trans hptr') hxy
  · left
    omega
  · right
    omega

/-- An allocation lies in a region, at the start of a chunk that holds its
rounded size. -/
theorem Held.within (hinv : Inv cfg heap spans unused) {live : List (Nat × Nat)}
    (h : Held spans live) {x : Nat × Nat} (hx : x ∈ live) :
    ∃ r ∈ heap.regions, r.ptr ≤ x.1 ∧ x.1 + x.2 ≤ r.endPtr ∧
      ∃ c ∈ heap.chain r, (heap.chunks c).ptr = x.1 ∧ roundedBytes x.2 ≤ (heap.chunks c).size := by
  have hl := hinv.shape.layout
  obtain ⟨b, hb, _, hfit, hle⟩ := h.used x hx
  obtain ⟨hball, _, hptr⟩ := hl.mem_inUseAt.mp hb
  obtain ⟨e, he, hbe⟩ := List.mem_flatMap.mp hball
  have hin := (hl.spanOk e he).within hbe
  refine ⟨e.region, hl.regions ▸ List.mem_map_of_mem he, by omega, by omega, b.handle, ?_, hptr, ?_⟩
  · rw [hl.chain_eq he]
    exact List.mem_map_of_mem hbe
  · rw [(hl.chunk_data hball).2.1]
    exact hfit

/-- The allocations of a client never overlap and lie in one region each, in
chunks of at least their rounded size; a request of positive size fails only
when no free chunk fits and no region is to be had, neither from what is left
under the limit nor, with garbage collection, from what free regions add to it. -/
theorem allocation_contract (h : Session.Reaches cfg Session.FreesLive s) :
    (s.live.Pairwise fun x y => x.1 + x.2 ≤ y.1 ∨ y.1 + y.2 ≤ x.1) ∧
    (∀ x ∈ s.live, ∃ r ∈ s.heap.regions, r.ptr ≤ x.1 ∧ x.1 + x.2 ≤ r.endPtr ∧
      ∃ c ∈ s.heap.chain r,
        (s.heap.chunks c).ptr = x.1 ∧ roundedBytes x.2 ≤ (s.heap.chunks c).size) ∧
    ∀ (nbytes : ByteCount) (device : SubAllocator) (t : Allocator E), 0 < nbytes.1 →
      (allocateRaw cfg device nbytes.1).run s.heap = .ok none t →
      (∀ c, s.heap.FreeChunk c → (s.heap.chunks c).size < roundedBytes nbytes.1) ∧
      NoRegion cfg device s.heap.held (roundedBytes nbytes.1) ∧
      (cfg.garbageCollection = true →
        NoRegion cfg device s.heap.occupiedHeld (roundedBytes nbytes.1)) := by
  obtain ⟨spans, unused, hinv, hheld⟩ := Session.held_of_reaches h
  have hl := hinv.shape.layout
  refine ⟨hheld.disjoint hinv, fun x hx => hheld.within hinv hx, ?_⟩
  intro nbytes device t hpos hrun
  obtain ⟨_, _, _, _, hout⟩ := (post_allocateRaw device hinv nbytes.2).of_ok hrun
  obtain ⟨hnoFit, hnoRegion, hafter⟩ := hout hpos
  refine ⟨?_, ?_, ?_⟩
  · intro c hc
    obtain ⟨b, hb, rfl, hfree⟩ := hl.freeChunk_iff.mp hc
    rw [(hl.chunk_data hb).2.1]
    exact hnoFit b hb hfree
  · rw [hinv.held_eq]
    exact hnoRegion
  · rw [hl.occupiedHeld_eq]
    exact hafter

theorem allocation_contract_twoAllocations :
    let s := (Session.start (listSet ChunkHandle) smallConfig).run smallConfig twoAllocations
    s.live = [(5120, 300)] ∧
      ∀ x ∈ s.live, ∃ r ∈ s.heap.regions, r.ptr ≤ x.1 ∧ x.1 + x.2 ≤ r.endPtr ∧
        ∃ c ∈ s.heap.chain r,
          (s.heap.chunks c).ptr = x.1 ∧ roundedBytes x.2 ≤ (s.heap.chunks c).size :=
  ⟨by decide, (allocation_contract (Session.reaches_run (.init rfl) twoAllocations
    ⟨trivial, trivial, Or.inr (by decide), trivial⟩)).2.1⟩

/-- An allocation returns null only if no free chunk fits and no region that
would do is to be had under the limit. -/
def NullOnlyWhenFull (cfg : Config) (device : SubAllocator) (heap : Allocator E)
    (numBytes : Nat) : Prop :=
  ∀ t, (allocateRaw cfg device numBytes).run heap = .ok none t →
    (∀ c, heap.FreeChunk c → (heap.chunks c).size < roundedBytes numBytes) ∧
    ∀ bytes p, roundedBytes numBytes ≤ bytes → bytes ≤ availableUnder cfg heap.held →
      device.allocate heap.held bytes ≠ some p

/-- A device with one page left. -/
def onePage (base : Nat) (hbase : 0 < base) : SubAllocator where
  allocate held bytes :=
    if held = [] ∧ bytes ≤ 4096 ∧ base + bytes ≤ wordSize then some base else none
  fresh := by
    intro held bytes p h
    simp only [Option.ite_none_right_eq_some, Option.some.injEq] at h
    obtain ⟨⟨rfl, _, htop⟩, rfl⟩ := h
    exact ⟨hbase, htop, by simp⟩

/-- A request for nothing returns null, and so does a request that the device
could serve with a smaller region than the one it is asked for. -/
theorem null_with_memory_left :
    let s := Session.start (listSet ChunkHandle) smallConfig
    Session.Reaches smallConfig Session.FreesLive s ∧
      ¬ NullOnlyWhenFull smallConfig (onePage 4096 (by decide)) s.heap 0 ∧
      ¬ NullOnlyWhenFull smallConfig (onePage 4096 (by decide)) s.heap 300 := by
  refine ⟨.init rfl, fun h => ?_, fun h => ?_⟩
  · obtain ⟨o, t, hrun, hnone⟩ := exists_value (p := Option.isNone)
      (x := allocateRaw smallConfig (onePage 4096 (by decide)) 0)
      (s := (Session.start (listSet ChunkHandle) smallConfig).heap) (by decide)
    obtain rfl := Option.isNone_iff_eq_none.mp hnone
    exact (h t hrun).2 256 4096 (by decide) (by decide) (by decide)
  · obtain ⟨o, t, hrun, hnone⟩ := exists_value (p := Option.isNone)
      (x := allocateRaw smallConfig (onePage 4096 (by decide)) 300)
      (s := (Session.start (listSet ChunkHandle) smallConfig).heap) (by decide)
    obtain rfl := Option.isNone_iff_eq_none.mp hnone
    exact (h t hrun).2 512 4096 (by decide) (by decide) (by decide)

/-- The call releases the chunk at `p`: its bytes are no longer counted and are
part of a free chunk. -/
def ReleasesAt (heap : Allocator E) (p : Nat) : Prop :=
  ∃ t c, (deallocateRaw p).run heap = .ok () t ∧ heap.lookup p = some c ∧
    t.stats.bytesInUse = heap.stats.bytesInUse - (heap.chunks c).size ∧
    ∃ f, t.FreeChunk f ∧ (t.chunks f).ptr ≤ p ∧
      p + (heap.chunks c).size ≤ (t.chunks f).ptr + (t.chunks f).size

/-- The pointers freed one after the other. -/
def freeAll : List Nat → Allocator E → Allocator E
  | [], heap => heap
  | p :: rest, heap => freeAll rest (finalState ((deallocateRaw p).run heap))

/-- Nothing is in use and every region is a single free chunk. -/
def AllFree (heap : Allocator E) : Prop :=
  heap.stats.bytesInUse = 0 ∧
    ∀ r ∈ heap.regions, ∃ c, heap.chain r = [c] ∧ (heap.chunks c).inUse = false

/-- A block is released unless it is that of chunk 0. -/
theorem Inv.releasesAt_iff (h : Inv cfg heap spans unused) (hmem : (p, b) ∈ inUseAt spans) :
    ReleasesAt heap p ↔ heap.lookup p ≠ some 0 := by
  have hl := h.shape.layout
  obtain ⟨hb, hused, hptr⟩ := hl.mem_inUseAt.mp hmem
  have hlookup : heap.lookup p = some b.handle :=
    hptr ▸ (hl.lookup_eq (X := fun _ _ => True) hb).1
  have hpost := post_deallocateRaw_used (X := fun _ _ => False) h hmem
  have hpos := (hl.blockOk hb).pos
  have hsize := (hl.chunk_data hb).2.1
  constructor
  · rintro ⟨t, c, hrun, hc, hbytes, _⟩ hzero
    rcases hpost.of_ok hrun with ⟨_, rfl⟩ | ⟨hne, _⟩
    · obtain rfl : b.handle = c := Option.some.inj (hlookup.symm.trans hc)
      rw [hsize] at hbytes
      omega
    · exact hne (Option.some.inj (hlookup.symm.trans hzero))
  · intro hne
    cases hrun : (deallocateRaw p).run heap with
    | error e t => exact (hpost.of_error hrun).elim
    | ok u t =>
        rcases hpost.of_ok hrun with ⟨hzero, _⟩ | ⟨_, spans', unused', hinv, hrel⟩
        · exact absurd (hlookup.trans (congrArg some hzero)) hne
        · obtain ⟨o, ho, hfree, hlow, hhigh⟩ := hrel.free
          have hosize := (hinv.shape.layout.chunk_data ho).2.1
          refine ⟨t, b.handle, hrun, hlookup, by rw [hrel.bytes, hsize], o.handle,
            hinv.shape.layout.freeChunk_iff.mpr ⟨o, ho, rfl, hfree⟩, hlow, ?_⟩
          rw [hsize, hosize]
          exact hhigh

/-- What freeing some of the blocks in use leaves in use. -/
theorem freeAll_inUse (order : List Nat) (heap : Allocator E) (spans : List Span)
    (unused : List ChunkHandle) (h : Inv cfg heap spans unused) (hnodup : order.Nodup)
    (hmem : ∀ p ∈ order, ∃ b, (p, b) ∈ inUseAt spans) :
    ∃ spans' unused', Inv cfg (freeAll order heap) spans' unused' ∧
      ∀ x, x ∈ inUseAt spans' ↔ x ∈ inUseAt spans ∧ (x.1 ∈ order → x.2.handle = 0) := by
  induction order generalizing heap spans unused with
  | nil => exact ⟨spans, unused, h, by simp⟩
  | cons p rest ih =>
      obtain ⟨b, hb⟩ := hmem p (List.mem_cons_self ..)
      obtain ⟨hp, hrest⟩ := List.nodup_cons.mp hnodup
      have hone : ∃ spans₁ unused₁,
          Inv cfg (finalState ((deallocateRaw p).run heap)) spans₁ unused₁ ∧
            ∀ x, x ∈ inUseAt spans₁ ↔ x ∈ inUseAt spans ∧ (x.1 = p → x.2.handle = 0) := by
        refine Post.final (I := fun t => ∃ spans₁ unused₁, Inv cfg t spans₁ unused₁ ∧
            ∀ x, x ∈ inUseAt spans₁ ↔ x ∈ inUseAt spans ∧ (x.1 = p → x.2.handle = 0))
          ((post_deallocateRaw_used (X := fun _ _ => False) h hb).imp ?_ (fun _ _ hx => hx.elim))
        rintro _ t (⟨hzero, rfl⟩ | ⟨hne, spans', unused', hinv, hrel⟩)
        · refine ⟨spans, unused, h, fun x => (and_iff_left_of_imp fun hx hxp => ?_).symm⟩
          rw [← h.block_eq (hxp ▸ hb) hx, hzero]
        · obtain ⟨before, after, hold, hnew⟩ := hrel.used
          have hdup := h.shape.layout.inUseAt_nodup
          rw [hold, List.perm_middle.nodup_iff, List.nodup_cons] at hdup
          refine ⟨spans', unused', hinv, fun x => ?_⟩
          rw [hold, hnew, List.perm_middle.mem_iff, List.mem_cons]
          constructor
          · intro hx
            refine ⟨Or.inr hx, fun hxp => ?_⟩
            have hxall : (p, x.2) ∈ inUseAt spans := by
              rw [hold, List.perm_middle.mem_iff, ← hxp]
              exact List.mem_cons_of_mem _ hx
            have heq : x = (p, b) := Prod.ext hxp (h.block_eq hb hxall).symm
            exact absurd (heq ▸ hx) hdup.1
          · rintro ⟨rfl | hx, hzero⟩
            · exact absurd (hzero rfl) hne
            · exact hx
      obtain ⟨spans₁, unused₁, hinv₁, hiff₁⟩ := hone
      have hmem₁ : ∀ q ∈ rest, ∃ b, (q, b) ∈ inUseAt spans₁ := by
        intro q hq
        obtain ⟨b', hb'⟩ := hmem q (List.mem_cons_of_mem _ hq)
        refine ⟨b', (hiff₁ _).mpr ⟨hb', fun hqp => ?_⟩⟩
        exact absurd (hqp ▸ hq) hp
      obtain ⟨spans', unused', hinv, hiff⟩ := ih _ spans₁ unused₁ hinv₁ hrest hmem₁
      refine ⟨spans', unused', hinv, fun x => ?_⟩
      rw [hiff, hiff₁, List.mem_cons]
      tauto

/-- All is free when no block is in use. -/
theorem Inv.allFree_iff (h : Inv cfg heap spans unused) :
    AllFree heap ↔ ∀ x, x ∉ inUseAt spans := by
  have hl := h.shape.layout
  constructor
  · rintro ⟨hbytes, _⟩ x hx
    obtain ⟨hb, _, _⟩ := hl.mem_inUseAt.mp (show (x.1, x.2) ∈ inUseAt spans from hx)
    have hpos := (hl.blockOk hb).pos
    rw [h.bytesInUse_eq] at hbytes
    have hle := List.single_le_sum (l := (inUseAt spans).map fun x => x.2.size) (by simp) x.2.size
      (List.mem_map_of_mem hx)
    omega
  · intro hnone
    have hnil : inUseAt spans = [] := List.eq_nil_iff_forall_not_mem.mpr hnone
    refine ⟨by rw [h.bytesInUse_eq, hnil]; rfl, fun r hr => ?_⟩
    rw [hl.regions] at hr
    obtain ⟨e, he, rfl⟩ := List.mem_map.mp hr
    have hvacant : e.occupied = false := by
      refine List.any_eq_false.mpr fun b hb hused => ?_
      have hball := List.mem_flatMap.mpr ⟨e, he, hb⟩
      exact hnone _ (hl.mem_inUseAt.mpr ⟨hball, hused, rfl⟩)
    obtain ⟨b, i, hblocks, hfree, _⟩ := h.vacant_single he hvacant
    have hball : b ∈ blocksOf spans := List.mem_flatMap.mpr ⟨e, he, by simp [hblocks]⟩
    refine ⟨b.handle, by rw [hl.chain_eq he, hblocks]; rfl, ?_⟩
    rw [(hl.chunk_data hball).1]
    simp [Block.inUse, hfree]

theorem Inv.zeroInUse_iff (h : Inv cfg heap spans unused) :
    heap.ZeroInUse ↔ ∃ x ∈ inUseAt spans, x.2.handle = 0 := by
  have hl := h.shape.layout
  rw [Allocator.ZeroInUse, hl.mem_chain]
  constructor
  · rintro ⟨⟨b, hb, hzero⟩, hused⟩
    rw [← hzero, (hl.chunk_data hb).1] at hused
    exact ⟨(_, b), hl.mem_inUseAt.mpr ⟨hb, hused, rfl⟩, hzero⟩
  · rintro ⟨x, hx, hzero⟩
    obtain ⟨hb, hused, _⟩ := hl.mem_inUseAt.mp (show (x.1, x.2) ∈ inUseAt spans from hx)
    refine ⟨⟨x.2, hb, hzero⟩, ?_⟩
    rw [← hzero, (hl.chunk_data hb).1]
    exact hused

/-- Freeing an allocation releases its chunk exactly when that is not chunk 0,
and freeing all of them, in any order, leaves every region a single free chunk
exactly when chunk 0 was not in use. -/
theorem free_releases_iff (h : Session.Reaches cfg Session.FreesLive s) :
    (∀ x ∈ s.live, ReleasesAt s.heap x.1 ↔ s.heap.lookup x.1 ≠ some 0) ∧
    ∀ order : List Nat, order.Perm (s.live.map Prod.fst) →
      (AllFree (freeAll order s.heap) ↔ ¬ s.heap.ZeroInUse) := by
  obtain ⟨spans, unused, hinv, hheld⟩ := Session.held_of_reaches h
  refine ⟨fun x hx => ?_, fun order horder => ?_⟩
  · obtain ⟨b, hb, _⟩ := hheld.used x hx
    exact hinv.releasesAt_iff hb
  · obtain ⟨spans', unused', hinv', hiff⟩ := freeAll_inUse order s.heap spans unused hinv
      (horder.nodup_iff.mpr hheld.nodup) fun p hp => by
        obtain ⟨x, hx, rfl⟩ := List.mem_map.mp (horder.mem_iff.mp hp)
        obtain ⟨b, hb, _⟩ := hheld.used x hx
        exact ⟨b, hb⟩
    rw [hinv'.allFree_iff, hinv.zeroInUse_iff]
    constructor
    · rintro hnone ⟨x, hx, hzero⟩
      exact hnone x ((hiff x).mpr ⟨hx, fun _ => hzero⟩)
    · intro hno x hx
      obtain ⟨hxold, himp⟩ := (hiff x).mp hx
      rcases hheld.covered x.1 x.2 hxold with hin | hzero
      · exact hno ⟨x, hxold, himp (horder.mem_iff.mpr hin)⟩
      · exact hno ⟨x, hxold, hzero⟩

theorem free_releases_iff_twoAllocations :
    let s := (Session.start (listSet ChunkHandle) smallConfig).run smallConfig twoAllocations
    (5120, 300) ∈ s.live ∧ s.heap.lookup 5120 ≠ some 0 ∧ ReleasesAt s.heap 5120 := by
  have hreach : Session.Reaches smallConfig Session.FreesLive
      ((Session.start (listSet ChunkHandle) smallConfig).run smallConfig twoAllocations) :=
    Session.reaches_run (.init rfl) _ ⟨trivial, trivial, Or.inr (by decide), trivial⟩
  have hlookup : ((Session.start (listSet ChunkHandle) smallConfig).run smallConfig
      twoAllocations).heap.lookup 5120 ≠ some 0 := by decide
  exact ⟨by decide, hlookup,
    ((free_releases_iff hreach).1 (5120, 300) (by decide)).mpr hlookup⟩

/-- The first pointer ever handed out is that of chunk 0: freeing it does
nothing. -/
theorem first_pointer_never_freed :
    let s := (Session.start (listSet ChunkHandle) smallConfig).run smallConfig
      [.alloc ⟨1000, by decide⟩ (oneRegion 4096 (by decide))]
    Session.Reaches smallConfig Session.FreesLive s ∧ s.live = [(4096, 1000)] ∧
      ¬ ReleasesAt s.heap 4096 ∧ ¬ AllFree (freeAll [4096] s.heap) := by
  refine ⟨Session.reaches_run (.init rfl) _ ⟨trivial, trivial⟩, by decide, ?_, ?_⟩
  · rintro ⟨t, c, hrun, hc, hbytes, _⟩
    have hzero : ((Session.start (listSet ChunkHandle) smallConfig).run smallConfig
        [.alloc ⟨1000, by decide⟩ (oneRegion 4096 (by decide))]).heap.lookup 4096 = some 0 := by
      decide
    obtain rfl := Option.some.inj (hzero.symm.trans hc)
    have hfinal : (finalState ((deallocateRaw 4096).run ((Session.start (listSet ChunkHandle)
        smallConfig).run smallConfig [.alloc ⟨1000, by decide⟩
          (oneRegion 4096 (by decide))]).heap)).stats.bytesInUse = 1024 := by
      decide
    rw [hrun] at hfinal
    exact absurd (hfinal.symm.trans hbytes) (by decide)
  · rintro ⟨hbytes, _⟩
    exact absurd hbytes (by decide)

end DashInfer.Device
