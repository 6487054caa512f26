import DashInfer.Device.Calls

/-!
Sessions: the allocator together with the allocations its client holds, over
any sequence of calls. What a call did is read off the blocks in use; a client
that frees only what it holds can rely on every one of its allocations being a
block of its own.
-/

namespace DashInfer.Device

open Lib

/-- The non-negative values of `int64_t nbytes`. -/
abbrev ByteCount := { n : Nat // n < 2 ^ 63 }

inductive Call where
  /-- `Alloc`, with what the device answers during the call. -/
  | alloc (nbytes : ByteCount) (device : SubAllocator)
  /-- `Free`. -/
  | free (p : Nat)
  /-- `RealFree`, which is `DeallocateFreeRegions(0)`. -/
  | realFree

structure Session (E : OrderedSet ChunkHandle) where
  heap : Allocator E
  /-- Ghost: address and size of each allocation the client has not freed. -/
  live : List (Nat × Nat)

namespace Session

variable {E : OrderedSet ChunkHandle}

def start (E : OrderedSet ChunkHandle) (cfg : Config) : Session E :=
  { heap := Allocator.init E cfg, live := [] }

/-- A call, which leaves its state behind also when it throws. -/
def next (cfg : Config) (s : Session E) : Call → Session E
  | .alloc nbytes device =>
      match (allocateRaw cfg device nbytes.1).run s.heap with
      | .ok (some p) heap => { heap := heap, live := (p, nbytes.1) :: s.live }
      | .ok none heap => { s with heap := heap }
      | .error _ heap => { s with heap := heap }
  | .free p =>
      { heap := finalState ((deallocateRaw p).run s.heap)
        live := s.live.filter fun x => x.1 ≠ p }
  | .realFree => { s with heap := finalState ((deallocateFreeRegions cfg 0).run s.heap) }

/-- The client frees what it holds, or nothing. -/
def FreesLive (s : Session E) : Call → Prop
  | .free p => p = 0 ∨ p ∈ s.live.map Prod.fst
  | _ => True

/-- The sessions of all clients whose calls pass the guard. -/
def Reaches (cfg : Config) (guard : Session E → Call → Prop) : Session E → Prop :=
  Reach (· = start E cfg) guard (fun call s t => t = s.next cfg call)

/-- A sequence of calls. -/
def run (cfg : Config) : Session E → List Call → Session E
  | s, [] => s
  | s, call :: rest => run cfg (s.next cfg call) rest

/-- The calls pass the guard, each in the state it is made in. -/
def RunsUnder (cfg : Config) (guard : Session E → Call → Prop) : Session E → List Call → Prop
  | _, [] => True
  | s, call :: rest => guard s call ∧ RunsUnder cfg guard (s.next cfg call) rest

theorem reaches_run {cfg : Config} {guard : Session E → Call → Prop} {s : Session E}
    (hs : Reaches cfg guard s) (calls : List Call) (h : RunsUnder cfg guard s calls) :
    Reaches cfg guard (s.run cfg calls) := by
  induction calls generalizing s with
  | nil => exact hs
  | cons call rest ih => exact ih (.step hs h.1 rfl) h.2

end Session

/-- A device that hands out one region and no second one. -/
def oneRegion (base : Nat) (hbase : 0 < base) : SubAllocator where
  allocate held bytes := if held = [] ∧ base + bytes ≤ wordSize then some base else none
  fresh := by
    intro held bytes p h
    simp only [Option.ite_none_right_eq_some, Option.some.injEq] at h
    obtain ⟨⟨rfl, htop⟩, rfl⟩ := h
    exact ⟨hbase, htop, by simp⟩

variable {E : OrderedSet ChunkHandle} {cfg : Config} {heap t : Allocator E} {s : Session E}
  {spans : List Span} {unused : List ChunkHandle} {b : Block} {p : Nat}
  {X : Fault → Allocator E → Prop}

theorem inv_init (E : OrderedSet ChunkHandle) (cfg : Config) :
    Inv cfg (Allocator.init E cfg) [] [] := by
  refine ⟨⟨⟨rfl, List.Pairwise.nil, by simp, List.nodup_nil, by simp [blocksOf], rfl⟩,
    ⟨?_, ?_⟩, ⟨rfl, rfl, Nat.zero_le _, Int.zero_lt_one, ?_⟩⟩, ⟨by simp [blocksOf], by simp⟩⟩
  · intro i
    rw [Allocator.init, E.toList_empty]
    exact List.Pairwise.nil
  · intro i h
    rw [Allocator.init, E.toList_empty]
    simp [blocksOf]
  · simp only [Allocator.init]
    split <;> exact Dvd.intro _ rfl

/-- The blocks of a session's heap before and after a call. -/
theorem Session.next_inv (h : Inv cfg s.heap spans unused) (call : Call) :
    ∃ spans' unused', Inv cfg (s.next cfg call).heap spans' unused' := by
  cases call with
  | alloc nbytes device =>
      have hpost := post_allocateRaw device h nbytes.2
      rw [Session.next]
      cases hrun : (allocateRaw cfg device nbytes.1).run s.heap with
      | ok o t =>
          obtain ⟨spans', unused', hinv, _⟩ := hpost.of_ok hrun
          cases o with
          | none => exact ⟨spans', unused', hinv⟩
          | some p => exact ⟨spans', unused', hinv⟩
      | error e t =>
          obtain ⟨spans', unused', hinv, _⟩ := hpost.of_error hrun
          exact ⟨spans', unused', hinv⟩
  | free p =>
      refine Post.final (I := fun t => ∃ spans' unused', Inv cfg t spans' unused')
        ((post_deallocateRaw h p).imp ?_ ?_)
      · rintro _ t (rfl | ⟨_, _, _, spans', unused', hinv, _⟩)
        · exact ⟨spans, unused, h⟩
        · exact ⟨spans', unused', hinv⟩
      · rintro _ t rfl
        exact ⟨spans, unused, h⟩
  | realFree =>
      refine Post.final (I := fun t => ∃ spans' unused', Inv cfg t spans' unused')
        ((post_deallocateFreeRegions h (X := fun _ _ => False)).imp ?_ (fun _ _ hx => hx.elim))
      intro ok t ht
      cases ok with
      | true => exact ⟨_, ht.2⟩
      | false => exact ⟨spans, unused, ht.1 ▸ h⟩

/-- Every state of every session stands for tidy blocks. -/
theorem Session.inv_of_reaches {guard : Session E → Call → Prop}
    (h : Session.Reaches cfg guard s) : ∃ spans unused, Inv cfg s.heap spans unused := by
  refine h.invariant (I := fun s => ∃ spans unused, Inv cfg s.heap spans unused) ?_ ?_
  · rintro s rfl
    exact ⟨[], [], inv_init E cfg⟩
  · rintro s t call ⟨spans, unused, hinv⟩ _ rfl
    exact Session.next_inv hinv call

/-- Each allocation the client holds is a block in use; a block that is in use
and not held is that of chunk 0. -/
structure Held (spans : List Span) (live : List (Nat × Nat)) : Prop where
  nodup : (live.map Prod.fst).Nodup
  used : ∀ x ∈ live, ∃ b, (x.1, b) ∈ inUseAt spans ∧ b.requestedSize = x.2 ∧
    roundedBytes x.2 ≤ b.size ∧ x.2 ≤ roundedBytes x.2
  covered : ∀ p b, (p, b) ∈ inUseAt spans → p ∈ live.map Prod.fst ∨ b.handle = 0

theorem Held.congr {live : List (Nat × Nat)} {spans' : List Span} (h : Held spans live)
    (heq : inUseAt spans' = inUseAt spans) : Held spans' live where
  nodup := h.nodup
  used := heq ▸ h.used
  covered := heq ▸ h.covered

/-- `DeallocateRawInternal` on the address of a block in use. -/
theorem post_deallocateRaw_used (h : Inv cfg heap spans unused) (hmem : (p, b) ∈ inUseAt spans) :
    Post (deallocateRaw p) heap
      (fun _ t => (b.handle = 0 ∧ t = heap) ∨ (b.handle ≠ 0 ∧ ∃ spans' unused',
        Inv cfg t spans' unused' ∧ Releases heap spans p b t spans')) X := by
  obtain ⟨hb, hused, hptr⟩ := h.shape.layout.mem_inUseAt.mp hmem
  obtain ⟨e, he, hbe⟩ := List.mem_flatMap.mp hb
  have hbase := (h.shape.layout.spanOk e he).base_pos
  have hin := ((h.shape.layout.spanOk e he).within hbe).1
  have hne : p ≠ 0 := by omega
  rw [deallocateRaw, if_neg hne, post_bind, ← hptr, (h.shape.layout.lookup_eq hb).2]
  by_cases hzero : b.handle = 0
  · rw [hzero, if_pos rfl]
    exact Or.inl ⟨rfl, rfl⟩
  · rw [if_neg fun heq => hzero (Option.some.inj heq)]
    obtain ⟨k, r, rfl⟩ := exists_hole hb
    have hid : b.allocationId ≠ -1 := by simpa [Block.inUse] using hused
    refine (post_release h hid).imp ?_ (fun _ _ hx => hx)
    rintro _ t ⟨spans', unused', hinv, hrel⟩
    exact Or.inr ⟨hzero, spans', unused', hinv, hrel⟩

theorem Inv.addr_pos (h : Inv cfg heap spans unused) (hmem : (p, b) ∈ inUseAt spans) : 0 < p := by
  obtain ⟨hb, _, hptr⟩ := h.shape.layout.mem_inUseAt.mp hmem
  obtain ⟨e, he, hbe⟩ := List.mem_flatMap.mp hb
  have hbase := (h.shape.layout.spanOk e he).base_pos
  have hin := ((h.shape.layout.spanOk e he).within hbe).1
  omega

/-- One address, one block. -/
theorem Inv.block_eq (h : Inv cfg heap spans unused) {b' : Block} (hmem : (p, b) ∈ inUseAt spans)
    (hmem' : (p, b') ∈ inUseAt spans) : b = b' := by
  obtain ⟨hb, _, hptr⟩ := h.shape.layout.mem_inUseAt.mp hmem
  obtain ⟨hb', _, hptr'⟩ := h.shape.layout.mem_inUseAt.mp hmem'
  exact h.shape.layout.eq_of_ptr hb hb' (hptr.trans hptr'.symm)

/-- The client holds one block more. -/
theorem Held.allocated {live : List (Nat × Nat)} {spans' : List Span} {unused' : List ChunkHandle}
    {n : Nat} (h : Held spans live) (hinv : Inv cfg t spans' unused')
    (halloc : Allocates spans spans' p (roundedBytes n) n) (hlt : n < 2 ^ 63) :
    Held spans' ((p, n) :: live) := by
  obtain ⟨before, after, b, hold, hnew, hfit, hreq⟩ := halloc
  have hnodup := hinv.shape.layout.inUseAt_nodup
  rw [hnew, List.perm_middle.nodup_iff, List.nodup_cons] at hnodup
  have hmem : ∀ x, x ∈ inUseAt spans' ↔ x = (p, b) ∨ x ∈ inUseAt spans := by
    intro x
    rw [hnew, hold, List.perm_middle.mem_iff, List.mem_cons]
  refine ⟨List.nodup_cons.mpr ⟨?_, h.nodup⟩, ?_, ?_⟩
  · intro hin
    obtain ⟨x, hx, hxp⟩ := List.mem_map.mp hin
    obtain ⟨b', hb', _⟩ := h.used x hx
    rw [hxp] at hb'
    have heq := hinv.block_eq ((hmem _).mpr (Or.inl rfl)) ((hmem _).mpr (Or.inr hb'))
    rw [← heq, hold] at hb'
    exact hnodup.1 hb'
  · intro x hx
    rcases List.mem_cons.mp hx with rfl | hx
    · exact ⟨b, (hmem _).mpr (Or.inl rfl), hreq, hfit, le_roundedBytes hlt⟩
    · obtain ⟨b', hb', hrest⟩ := h.used x hx
      exact ⟨b', (hmem _).mpr (Or.inr hb'), hrest⟩
  · intro q b' hb'
    rcases (hmem _).mp hb' with heq | hb'
    · obtain ⟨rfl, rfl⟩ := Prod.mk.inj heq
      exact Or.inl (List.mem_cons_self ..)
    · rcases h.covered q b' hb' with hin | hzero
      · exact Or.inl (List.mem_cons_of_mem _ hin)
      · exact Or.inr hzero

/-- The client no longer holds what is at `p`. -/
theorem Held.dropped {live : List (Nat × Nat)} {spans' : List Span} (h : Held spans live)
    (hkept : ∀ q b, q ≠ p → ((q, b) ∈ inUseAt spans' ↔ (q, b) ∈ inUseAt spans))
    (hgone : ∀ b, (p, b) ∈ inUseAt spans' → b.handle = 0) :
    Held spans' (live.filter fun x => x.1 ≠ p) := by
  refine ⟨h.nodup.sublist (List.filter_sublist.map _), ?_, ?_⟩
  · intro x hx
    obtain ⟨hx, hne⟩ := List.mem_filter.mp hx
    obtain ⟨b, hb, hrest⟩ := h.used x hx
    exact ⟨b, (hkept _ _ (by simpa using hne)).mpr hb, hrest⟩
  · intro q b hb
    by_cases hq : q = p
    · subst hq
      exact Or.inr (hgone b hb)
    · rcases h.covered q b ((hkept q b hq).mp hb) with hin | hzero
      · obtain ⟨x, hx, rfl⟩ := List.mem_map.mp hin
        exact Or.inl (List.mem_map_of_mem (List.mem_filter.mpr ⟨hx, by simpa using hq⟩))
      · exact Or.inr hzero

/-- A call of a client that frees only what it holds. -/
theorem Session.next_held (h : Inv cfg s.heap spans unused) (hheld : Held spans s.live)
    {call : Call} (hguard : s.FreesLive call) :
    ∃ spans' unused', Inv cfg (s.next cfg call).heap spans' unused' ∧
      Held spans' (s.next cfg call).live := by
  cases call with
  | alloc nbytes device =>
      have hpost := post_allocateRaw device h nbytes.2
      rw [Session.next]
      cases hrun : (allocateRaw cfg device nbytes.1).run s.heap with
      | error e t =>
          obtain ⟨spans', unused', hinv, heq⟩ := hpost.of_error hrun
          exact ⟨spans', unused', hinv, hheld.congr heq⟩
      | ok o t =>
          obtain ⟨spans', unused', hinv, hresult⟩ := hpost.of_ok hrun
          cases o with
          | none => exact ⟨spans', unused', hinv, hheld.congr hresult.1⟩
          | some p => exact ⟨spans', unused', hinv, hheld.allocated hinv hresult nbytes.2⟩
  | free p =>
      rcases hguard with rfl | hlive
      · refine ⟨spans, unused, h, hheld.dropped (fun _ _ _ => Iff.rfl) fun b hb => ?_⟩
        exact absurd (h.addr_pos hb) (Nat.lt_irrefl 0)
      · obtain ⟨x, hx, rfl⟩ := List.mem_map.mp hlive
        obtain ⟨b, hb, _⟩ := hheld.used x hx
        refine Post.final (I := fun t => ∃ spans' unused', Inv cfg t spans' unused' ∧
            Held spans' (s.live.filter fun y => y.1 ≠ x.1))
          ((post_deallocateRaw_used (X := fun _ _ => False) h hb).imp ?_ (fun _ _ hx => hx.elim))
        rintro _ t (⟨hzero, rfl⟩ | ⟨_, spans', unused', hinv, hrel⟩)
        · refine ⟨spans, unused, h, hheld.dropped (fun _ _ _ => Iff.rfl) fun b' hb' => ?_⟩
          rw [← h.block_eq hb hb', hzero]
        · obtain ⟨before, after, hold, hnew⟩ := hrel.used
          have hnodup := h.shape.layout.inUseAt_nodup
          rw [hold, List.perm_middle.nodup_iff, List.nodup_cons] at hnodup
          have hmem : ∀ y, y ∈ inUseAt spans ↔ y = (x.1, b) ∨ y ∈ inUseAt spans' := by
            intro y
            rw [hold, hnew, List.perm_middle.mem_iff, List.mem_cons]
          refine ⟨spans', unused', hinv, hheld.dropped ?_ fun b' hb' => ?_⟩
          · intro q b' hq
            rw [hmem]
            refine (or_iff_right fun heq => ?_).symm
            exact hq (Prod.mk.inj heq).1
          · have heq := h.block_eq hb ((hmem _).mpr (Or.inr hb'))
            rw [← heq, hnew] at hb'
            exact absurd hb' hnodup.1
  | realFree =>
      refine Post.final (I := fun t => ∃ spans' unused', Inv cfg t spans' unused' ∧
          Held spans' s.live)
        ((post_deallocateFreeRegions h (X := fun _ _ => False)).imp ?_ (fun _ _ hx => hx.elim))
      intro ok t ht
      cases ok with
      | true =>
          obtain ⟨_, unused', hinv⟩ := ht
          exact ⟨_, unused', hinv, hheld.congr inUseAt_occupied⟩
      | false => exact ⟨spans, unused, ht.1 ▸ h, hheld⟩

/-- What holds in every state of a client that frees only what it holds. -/
theorem Session.held_of_reaches (h : Session.Reaches cfg Session.FreesLive s) :
    ∃ spans unused, Inv cfg s.heap spans unused ∧ Held spans s.live := by
  refine h.invariant
    (I := fun s => ∃ spans unused, Inv cfg s.heap spans unused ∧ Held spans s.live) ?_ ?_
  · rintro s rfl
    refine ⟨[], [], inv_init E cfg, List.nodup_nil, ?_, ?_⟩
    · intro x hx
      cases hx
    · intro p b hb
      cases hb
  · rintro s t call ⟨spans, unused, hinv, hheld⟩ hguard rfl
    exact Session.next_held hinv hheld hguard

end DashInfer.Device

/-!
The structure of the allocator in the terms of its own fields: the chains that
`next` makes from the base of each region, the handle tables, the bins and the
counters. A client may call what it likes, also with pointers that it was
never given.
-/

namespace DashInfer.Device

open Lib

variable {E : OrderedSet ChunkHandle}

/-- The chunks from a handle on, following `next`. -/
def walk (chunks : ChunkHandle → Chunk) : Nat → Option ChunkHandle → List ChunkHandle
  | 0, _ => []
  | _ + 1, none => []
  | fuel + 1, some h => h :: walk chunks fuel (chunks h).next

/-- The chain of a region, from the chunk at its base. -/
def Allocator.chain (s : Allocator E) (r : Region) : List ChunkHandle :=
  walk s.chunks s.chunkNum (r.handles 0)

/-- The chunks cover the bytes from `p` up to `stop`, each linked to the one
before it and the one after it. -/
def TilesFrom (chunks : ChunkHandle → Chunk) (stop : Nat) :
    Option ChunkHandle → Nat → List ChunkHandle → Prop
  | _, p, [] => p = stop
  | prev, p, h :: rest =>
      (chunks h).ptr = p ∧ 0 < (chunks h).size ∧ (chunks h).prev = prev ∧
        (chunks h).next = rest.head? ∧
        TilesFrom chunks stop (some h) (p + (chunks h).size) rest

structure Tiled (s : Allocator E) (r : Region) : Prop where
  nonempty : s.chain r ≠ []
  tiles : TilesFrom s.chunks r.endPtr none r.ptr (s.chain r)
  mapped : ∀ i h, r.handles i = some h ↔
    h ∈ s.chain r ∧ (s.chunks h).ptr = r.ptr + kMinAllocationSize * i
  spaced : (s.chain r).IsChain fun h h' =>
    (s.chunks h).inUse = true ∨ (s.chunks h').inUse = true

/-- The allocator is in order. -/
structure WellFormed (cfg : Config) (s : Allocator E) : Prop where
  tiled : ∀ r ∈ s.regions, Tiled s r
  binned : ∀ i h, h ∈ E.toList (s.bins i) ↔
    (∃ r ∈ s.regions, h ∈ s.chain r) ∧ (s.chunks h).inUse = false ∧
      i = binNumForSize (s.chunks h).size
  once : ∀ i, (E.toList (s.bins i)).Nodup
  binNum : ∀ r ∈ s.regions, ∀ h ∈ s.chain r, (s.chunks h).binNum =
    if (s.chunks h).inUse then none else some (binNumForSize (s.chunks h).size)
  bytesInUse : s.stats.bytesInUse =
    (((s.regions.flatMap s.chain).map fun h =>
      if (s.chunks h).inUse then (s.chunks h).size else 0).sum : Nat)
  total : s.totalRegionAllocatedBytes = (s.regions.map Region.memorySize).sum
  limit : s.totalRegionAllocatedBytes ≤ cfg.memoryLimit

variable {cfg : Config} {s : Allocator E} {spans : List Span} {unused : List ChunkHandle}

theorem walk_eq {chunks : ChunkHandle → Chunk} {prev : Option ChunkHandle} {p fuel : Nat}
    {l : List Block} (h : tiles.Seg chunks prev p l none) (hfuel : l.length ≤ fuel) :
    walk chunks fuel (tiles.first l none) = l.map Block.handle := by
  induction l generalizing prev p fuel with
  | nil => cases fuel <;> rfl
  | cons b rest ih =>
      obtain ⟨fuel, rfl⟩ : ∃ n, fuel = n + 1 := ⟨fuel - 1, by simp at hfuel; omega⟩
      have hnext : (chunks b.handle).next = tiles.first rest none := congrArg Chunk.next h.1
      change b.handle :: walk chunks fuel (chunks b.handle).next = _
      rw [hnext, ih h.2 (by simpa using hfuel)]
      rfl

theorem tilesFrom_of_seg {chunks : ChunkHandle → Chunk} {prev : Option ChunkHandle} {p stop : Nat}
    {l : List Block} (h : tiles.Seg chunks prev p l none) (hok : ∀ b ∈ l, b.Ok)
    (hstop : p + tiles.widths l = stop) :
    TilesFrom chunks stop prev p (l.map Block.handle) := by
  induction l generalizing prev p with
  | nil => simpa [TilesFrom] using hstop
  | cons b rest ih =>
      have hcell : chunks b.handle = b.chunk prev p (tiles.first rest none) := h.1
      have hpos := (hok b (List.mem_cons_self ..)).pos
      rw [Tiles.widths_cons, tiles_width] at hstop
      have hrest := ih h.2 (fun o ho => hok o (List.mem_cons_of_mem _ ho))
        (by rw [tiles_width]; omega)
      simp only [List.map_cons, TilesFrom]
      rw [hcell]
      refine ⟨rfl, hpos, rfl, ?_, hrest⟩
      cases rest <;> rfl

/-- The chain of a region is the chain of its blocks. -/
theorem Layout.chain_eq (h : Layout s spans unused) {e : Span} (he : e ∈ spans) :
    s.chain e.region = e.blocks.map Block.handle := by
  have hok := h.spanOk e he
  obtain ⟨o, rest, hblocks⟩ := List.exists_cons_of_ne_nil hok.nonempty
  have hfirst : e.region.handles 0 = tiles.first e.blocks none := by
    rw [hok.handles_zero hblocks, hblocks]
    rfl
  rw [Allocator.chain, hfirst, walk_eq hok.seg (blocks_length_le h.nodup h.bound he)]

theorem Layout.chains_eq (h : Layout s spans unused) :
    s.regions.flatMap s.chain = (blocksOf spans).map Block.handle := by
  rw [h.regions, regionsOf, List.flatMap_map, blocksOf, List.map_flatMap]
  exact List.flatMap_congr fun e he => h.chain_eq he

theorem Layout.chunk_data (h : Layout s spans unused) {b : Block} (hb : b ∈ blocksOf spans) :
    (s.chunks b.handle).inUse = b.inUse ∧ (s.chunks b.handle).size = b.size ∧
      (s.chunks b.handle).binNum = b.binNum := by
  obtain ⟨prev, p, next, hcell⟩ := h.chunk_eq hb
  rw [hcell]
  exact ⟨rfl, rfl, rfl⟩

theorem Layout.mem_chain (h : Layout s spans unused) {x : ChunkHandle} :
    (∃ r ∈ s.regions, x ∈ s.chain r) ↔ ∃ b ∈ blocksOf spans, b.handle = x := by
  rw [h.regions]
  constructor
  · rintro ⟨r, hr, hx⟩
    obtain ⟨e, he, rfl⟩ := List.mem_map.mp hr
    rw [h.chain_eq he] at hx
    obtain ⟨b, hb, rfl⟩ := List.mem_map.mp hx
    exact ⟨b, List.mem_flatMap.mpr ⟨e, he, hb⟩, rfl⟩
  · rintro ⟨b, hb, rfl⟩
    obtain ⟨e, he, hbe⟩ := List.mem_flatMap.mp hb
    exact ⟨e.region, List.mem_map_of_mem he, by rw [h.chain_eq he]; exact List.mem_map_of_mem hbe⟩

/-- The bin a tidy block is in. -/
theorem Inv.binNum_eq (h : Inv cfg s spans unused) {b : Block} (hb : b ∈ blocksOf spans) :
    b.binNum = if b.inUse then none else some (binNumForSize b.size) := by
  have hok := h.shape.layout.blockOk hb
  cases hbin : b.binNum with
  | none =>
      rcases h.tidy.settled b hb with hused | hsome
      · rw [hused]
        rfl
      · rw [hbin] at hsome
        cases hsome
  | some i =>
      obtain ⟨hfree, rfl⟩ := hok.binned i hbin
      simp [Block.inUse, hfree]

/-- Tidy blocks make a well-formed allocator. -/
theorem Inv.wellFormed (h : Inv cfg s spans unused) : WellFormed cfg s := by
  have hl := h.shape.layout
  have hc := h.shape.counted
  refine ⟨?_, ?_, ?_, ?_, ?_, ?_, hc.limit⟩
  · intro r hr
    rw [hl.regions] at hr
    obtain ⟨e, he, rfl⟩ := List.mem_map.mp hr
    have hok := hl.spanOk e he
    have hchain := hl.chain_eq he
    refine ⟨?_, ?_, ?_, ?_⟩
    · rw [hchain]
      exact fun hnil => hok.nonempty (List.map_eq_nil_iff.mp hnil)
    · rw [hchain]
      refine tilesFrom_of_seg hok.seg hok.blocksOk ?_
      rw [hok.width]
      rfl
    · intro i x
      rw [hchain]
      exact hok.mapped i x
    · rw [hchain, List.isChain_map]
      refine (h.tidy.spaced e he).imp_of_mem_imp ?_
      intro b b' hb hb' hused
      rw [(hl.chunk_data (List.mem_flatMap.mpr ⟨e, he, hb⟩)).1,
        (hl.chunk_data (List.mem_flatMap.mpr ⟨e, he, hb'⟩)).1]
      exact hused
  · intro i x
    rw [h.shape.binned.mem_iff, hl.mem_chain]
    constructor
    · rintro ⟨b, hb, rfl, hbin⟩
      obtain ⟨hused, hsize, _⟩ := hl.chunk_data hb
      obtain ⟨hfree, hi⟩ := (hl.blockOk hb).binned i hbin
      rw [hused, hsize]
      exact ⟨⟨b, hb, rfl⟩, by simp [Block.inUse, hfree], hi⟩
    · rintro ⟨⟨b, hb, rfl⟩, hfree, rfl⟩
      obtain ⟨hused, hsize, _⟩ := hl.chunk_data hb
      refine ⟨b, hb, rfl, ?_⟩
      rw [h.binNum_eq hb, ← hused, hfree, hsize]
      rfl
  · intro i
    refine (h.shape.binned.ascending i).imp fun {x y} hlt heq => ?_
    rw [heq, (strictWeak_chunkComparator _).irrefl] at hlt
    cases hlt
  · intro r hr x hx
    obtain ⟨b, hb, rfl⟩ := hl.mem_chain.mp ⟨r, hr, hx⟩
    obtain ⟨hused, hsize, hbin⟩ := hl.chunk_data hb
    rw [hused, hsize, hbin, h.binNum_eq hb]
  · rw [hc.inUse, hl.chains_eq, List.map_map, usedBytes]
    congr 2
    refine List.map_congr_left fun b hb => ?_
    obtain ⟨hused, hsize, _⟩ := hl.chunk_data hb
    simp only [Function.comp_apply, hused, hsize]
  · rw [hc.total, hl.regions]
    rfl

/-- In every state of every session the chunks of each region tile it, the
handle tables and bins are right, free neighbours are merged, and the counters
are those of the chunks and regions. -/
theorem wellFormed_of_reaches {session : Session E}
    (h : Session.Reaches cfg (fun _ _ => True) session) : WellFormed cfg session.heap := by
  obtain ⟨spans, unused, hinv⟩ := Session.inv_of_reaches h
  exact hinv.wellFormed

/-- 1 MiB of memory. -/
def smallConfig : Config where
  memoryLimit := 2 ^ 20
  limit_lt := by decide
  fragmentation_pos := by decide

/-- Two allocations, the first of which is freed. -/
def twoAllocations : List Call :=
  [.alloc ⟨1000, by decide⟩ (oneRegion 4096 (by decide)),
    .alloc ⟨300, by decide⟩ (oneRegion 4096 (by decide)), .free 4096]

theorem wellFormed_twoAllocations :
    WellFormed smallConfig
      ((Session.start (listSet ChunkHandle) smallConfig).run smallConfig twoAllocations).heap :=
  wellFormed_of_reaches (Session.reaches_run (.init rfl) _ ⟨trivial, trivial, trivial, trivial⟩)

end DashInfer.Device
