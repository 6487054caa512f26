import DashInfer.Device.Allocator
import DashInfer.Lib.Tiling

/-!
What the allocator's state stands for: every region is a tiling by blocks, a
block being a chunk without its address and links. `Shape` relates a state to
its blocks and to the chunks waiting to be used again; between the steps of a
call a block may be neither in use nor in a bin. A `Hole` cuts the blocks of
one region out of the whole, so that an operation is stated on the blocks it
changes and nothing else.
-/

namespace DashInfer.Device

open Lib

structure Block where
  handle : ChunkHandle
  size : Nat
  requestedSize : Nat
  allocationId : Int
  binNum : Option Nat

namespace Block

def chunk (b : Block) (prev : Option ChunkHandle) (p : Nat) (next : Option ChunkHandle) : Chunk :=
  { size := b.size, requestedSize := b.requestedSize, allocationId := b.allocationId, ptr := p,
    prev := prev, next := next, binNum := b.binNum, freedAtCount := 0 }

def inUse (b : Block) : Bool := b.allocationId ≠ -1

structure Ok (b : Block) : Prop where
  pos : 0 < b.size
  aligned : kMinAllocationSize ∣ b.size
  binned : ∀ i, b.binNum = some i → b.allocationId = -1 ∧ i = binNumForSize b.size

end Block

def tiles : Tiles Block Chunk where
  handle := Block.handle
  width := Block.size
  cell := Block.chunk

@[simp] theorem tiles_width (b : Block) : tiles.width b = b.size := rfl

/-- A region with the blocks that tile it. -/
structure Span where
  region : Region
  blocks : List Block

structure Span.Ok (chunks : ChunkHandle → Chunk) (e : Span) : Prop where
  base_pos : 0 < e.region.ptr
  top : e.region.endPtr ≤ wordSize
  blocksOk : ∀ b ∈ e.blocks, b.Ok
  nonempty : e.blocks ≠ []
  width : tiles.widths e.blocks = e.region.memorySize
  seg : tiles.Seg chunks none e.region.ptr e.blocks none
  mapped : ∀ i h, e.region.handles i = some h ↔
    h ∈ e.blocks.map Block.handle ∧ (chunks h).ptr = e.region.ptr + kMinAllocationSize * i

def blocksOf (spans : List Span) : List Block := spans.flatMap Span.blocks

def regionsOf (spans : List Span) : List Region := spans.map Span.region

/-- The chunks on `free_chunks_list_`. -/
def FreeList (chunks : ChunkHandle → Chunk) : Option ChunkHandle → List ChunkHandle → Prop
  | head, [] => head = none
  | head, h :: rest =>
      head = some h ∧ (chunks h).binNum = none ∧ FreeList chunks (chunks h).next rest

/-- Regions in address order. -/
def Sorted (regions : List Region) : Prop := regions.Pairwise fun r r' => r.endPtr ≤ r'.ptr

def usedBytes (blocks : List Block) : Nat :=
  (blocks.map fun b => if b.inUse then b.size else 0).sum

def regionBytes (regions : List Region) : Nat := (regions.map Region.memorySize).sum

section State

variable {E : OrderedSet ChunkHandle}

/-- Regions, links, handle tables and the list of unused chunks. -/
structure Layout (s : Allocator E) (spans : List Span) (unused : List ChunkHandle) : Prop where
  regions : s.regions = regionsOf spans
  sorted : Sorted (regionsOf spans)
  spanOk : ∀ e ∈ spans, e.Ok s.chunks
  nodup : ((blocksOf spans).map Block.handle ++ unused).Nodup
  bound : ∀ h ∈ (blocksOf spans).map Block.handle ++ unused, h < s.chunkNum
  freeList : FreeList s.chunks s.freeChunksList unused

/-- The bins hold the blocks that carry their number. -/
structure Binned (s : Allocator E) (blocks : List Block) : Prop where
  ascending : ∀ i, Ascending (chunkComparator s.chunks) (E.toList (s.bins i))
  mem_iff : ∀ i h, h ∈ E.toList (s.bins i) ↔ ∃ b ∈ blocks, b.handle = h ∧ b.binNum = some i

structure Counted (cfg : Config) (s : Allocator E) (spans : List Span) : Prop where
  inUse : s.stats.bytesInUse = usedBytes (blocksOf spans)
  total : s.totalRegionAllocatedBytes = regionBytes (regionsOf spans)
  limit : s.totalRegionAllocatedBytes ≤ cfg.memoryLimit
  nextId : 0 < s.nextAllocationId
  aligned : kMinAllocationSize ∣ s.currRegionAllocationBytes

structure Shape (cfg : Config) (s : Allocator E) (spans : List Span)
    (unused : List ChunkHandle) : Prop where
  layout : Layout s spans unused
  binned : Binned s (blocksOf spans)
  counted : Counted cfg s spans

end State

/-- The surroundings of some consecutive blocks of a region. -/
structure Hole where
  before : List Span
  left : List Block
  right : List Block
  after : List Span

namespace Hole

def fill (k : Hole) (r : Region) (m : List Block) : List Span :=
  k.before ++ ⟨r, k.left ++ (m ++ k.right)⟩ :: k.after

def others (k : Hole) : List Block :=
  blocksOf k.before ++ k.left ++ k.right ++ blocksOf k.after

variable {k : Hole} {r r' : Region} {m m' : List Block} {chunks chunks' : ChunkHandle → Chunk}

theorem blocksOf_fill : blocksOf (k.fill r m) =
    blocksOf k.before ++ (k.left ++ (m ++ k.right)) ++ blocksOf k.after := by
  simp [fill, blocksOf]

theorem regionsOf_fill : regionsOf (k.fill r m) = regionsOf k.before ++ r :: regionsOf k.after := by
  simp [fill, regionsOf]

theorem blocksOf_fill_perm : (blocksOf (k.fill r m)).Perm (m ++ k.others) := by
  rw [blocksOf_fill, others]
  simp only [List.append_assoc]
  rw [← List.append_assoc (blocksOf k.before), ← List.append_assoc (blocksOf k.before) k.left]
  exact (List.perm_append_comm_assoc _ _ _)

theorem mem_blocksOf_fill {b : Block} : b ∈ blocksOf (k.fill r m) ↔ b ∈ m ∨ b ∈ k.others := by
  rw [blocksOf_fill_perm.mem_iff, List.mem_append]

theorem usedBytes_fill : usedBytes (blocksOf (k.fill r m)) = usedBytes m + usedBytes k.others := by
  rw [usedBytes, (blocksOf_fill_perm.map _).sum_eq]
  simp [usedBytes]

theorem regionBytes_fill :
    regionBytes (regionsOf (k.fill r m)) =
      r.memorySize + (regionBytes (regionsOf k.before) + regionBytes (regionsOf k.after)) := by
  rw [regionsOf_fill]
  simp [regionBytes]
  omega

theorem nodup_fill {unused : List ChunkHandle} :
    ((blocksOf (k.fill r m)).map Block.handle ++ unused).Nodup ↔
      (m.map Block.handle ++ (k.others.map Block.handle ++ unused)).Nodup := by
  rw [((blocksOf_fill_perm.map Block.handle).append_right unused).nodup_iff, List.map_append,
    List.append_assoc]

theorem bound_fill {unused : List ChunkHandle} {n : Nat} :
    (∀ h ∈ (blocksOf (k.fill r m)).map Block.handle ++ unused, h < n) ↔
      (∀ h ∈ m.map Block.handle, h < n) ∧
        ∀ h ∈ k.others.map Block.handle ++ unused, h < n := by
  have hperm := (blocksOf_fill_perm (k := k) (r := r) (m := m)).map Block.handle
  constructor
  · intro hb
    refine ⟨fun h hm => hb h ?_, fun h hm => hb h ?_⟩
    · rw [List.mem_append, hperm.mem_iff, List.map_append, List.mem_append]
      exact Or.inl (Or.inl hm)
    · rw [List.mem_append, hperm.mem_iff, List.map_append, List.mem_append]
      rcases List.mem_append.mp hm with hm | hm
      · exact Or.inl (Or.inr hm)
      · exact Or.inr hm
  · rintro ⟨hm, ho⟩ h hh
    rw [List.mem_append, hperm.mem_iff, List.map_append, List.mem_append] at hh
    rcases hh with (hh | hh) | hh
    · exact hm h hh
    · exact ho h (List.mem_append_left _ hh)
    · exact ho h (List.mem_append_right _ hh)

theorem spanOk_fill :
    (∀ e ∈ k.fill r m, e.Ok chunks) ↔
      (∀ e ∈ k.before ++ k.after, e.Ok chunks) ∧
        (Span.mk r (k.left ++ (m ++ k.right))).Ok chunks := by
  simp only [fill, List.mem_append, List.mem_cons]
  constructor
  · intro h
    refine ⟨fun e he => h e ?_, h _ (Or.inr (Or.inl rfl))⟩
    rcases he with he | he
    · exact Or.inl he
    · exact Or.inr (Or.inr he)
  · rintro ⟨ho, hm⟩ e (he | rfl | he)
    · exact ho e (Or.inl he)
    · exact hm
    · exact ho e (Or.inr he)

theorem sorted_fill (hptr : r'.ptr = r.ptr) (hsize : r'.memorySize = r.memorySize)
    (h : Sorted (regionsOf (k.fill r m))) : Sorted (regionsOf (k.fill r' m')) := by
  rw [regionsOf_fill] at h ⊢
  unfold Sorted at h ⊢
  rw [List.pairwise_append, List.pairwise_cons] at h ⊢
  obtain ⟨hb, ⟨hr, ha⟩, hba⟩ := h
  refine ⟨hb, ⟨fun x hx => ?_, ha⟩, fun x hx y hy => ?_⟩
  · have hle := hr x hx
    simpa only [Region.endPtr, hptr, hsize] using hle
  · rcases List.mem_cons.mp hy with rfl | hy
    · rw [hptr]
      exact hba x hx r (List.mem_cons_self ..)
    · exact hba x hx y (List.mem_cons_of_mem _ hy)

/-- Some of the blocks that were filled in become part of the surroundings. -/
def narrow (k : Hole) (l r : List Block) : Hole :=
  { k with left := k.left ++ l, right := r ++ k.right }

theorem fill_narrow {l n : List Block} :
    (k.narrow l n).fill r m = k.fill r (l ++ (m ++ n)) := by
  simp [narrow, fill]

theorem fill_pair_right {b₁ b₂ : Block} :
    k.fill r [b₁, b₂] = (k.narrow [b₁] []).fill r [b₂] :=
  (fill_narrow (l := [b₁]) (m := [b₂]) (n := [])).symm

theorem fill_pair_left {b₁ b₂ : Block} :
    k.fill r [b₁, b₂] = (k.narrow [] [b₂]).fill r [b₁] :=
  (fill_narrow (l := []) (m := [b₁]) (n := [b₂])).symm

end Hole

theorem exists_hole {spans : List Span} {b : Block} (hb : b ∈ blocksOf spans) :
    ∃ k r, spans = Hole.fill k r [b] := by
  obtain ⟨e, he, hin⟩ := List.mem_flatMap.mp hb
  obtain ⟨before, after, rfl⟩ := List.append_of_mem he
  obtain ⟨left, right, hblocks⟩ := List.append_of_mem hin
  refine ⟨⟨before, left, right, after⟩, e.region, ?_⟩
  rw [Hole.fill, List.singleton_append, ← hblocks]

section Addresses

variable {E : OrderedSet ChunkHandle} {chunks chunks' : ChunkHandle → Chunk} {e : Span}

/-- The blocks of a segment lie between its ends. -/
theorem seg_bounds {prev next : Option ChunkHandle} {p : Nat} {l : List Block} {b : Block}
    (h : tiles.Seg chunks prev p l next) (hb : b ∈ l) :
    p ≤ (chunks b.handle).ptr ∧ (chunks b.handle).ptr + b.size ≤ p + tiles.widths l := by
  obtain ⟨before, after, rfl, hcell⟩ := h.of_mem hb
  have hptr : (chunks b.handle).ptr = p + tiles.widths before := congrArg Chunk.ptr hcell
  rw [hptr, Tiles.widths_append, Tiles.widths_cons, tiles_width]
  omega

/-- The blocks of a segment come in address order. -/
theorem seg_ordered {prev next : Option ChunkHandle} {p : Nat} {l : List Block}
    (h : tiles.Seg chunks prev p l next) :
    l.Pairwise fun b b' => (chunks b.handle).ptr + b.size ≤ (chunks b'.handle).ptr := by
  induction l generalizing prev p with
  | nil => exact List.Pairwise.nil
  | cons b rest ih =>
      refine List.pairwise_cons.mpr ⟨fun b' hb' => ?_, ih h.2⟩
      have hptr : (chunks b.handle).ptr = p := congrArg Chunk.ptr h.1
      have hle : p + b.size ≤ (chunks b'.handle).ptr := (seg_bounds h.2 hb').1
      omega

theorem Span.Ok.congr (h : e.Ok chunks)
    (hagree : ∀ b ∈ e.blocks, chunks' b.handle = chunks b.handle) : e.Ok chunks' where
  base_pos := h.base_pos
  top := h.top
  blocksOk := h.blocksOk
  nonempty := h.nonempty
  width := h.width
  seg := h.seg.congr hagree
  mapped i x := by
    rw [h.mapped]
    refine and_congr_right fun hx => ?_
    obtain ⟨b, hb, rfl⟩ := List.mem_map.mp hx
    rw [hagree b hb]

theorem Span.Ok.within (h : e.Ok chunks) {b : Block} (hb : b ∈ e.blocks) :
    e.region.ptr ≤ (chunks b.handle).ptr ∧
      (chunks b.handle).ptr + b.size ≤ e.region.endPtr := by
  have hbounds := seg_bounds h.seg hb
  rw [h.width] at hbounds
  exact hbounds

theorem Span.Ok.size_pos (h : e.Ok chunks) : 0 < e.region.memorySize := by
  obtain ⟨b, hb⟩ := List.exists_mem_of_ne_nil _ h.nonempty
  have hin := h.within hb
  have hpos := (h.blocksOk b hb).pos
  simp only [Region.endPtr] at hin
  omega

/-- All blocks of all regions in address order. -/
theorem spans_ordered {spans : List Span} (hsorted : Sorted (regionsOf spans))
    (hok : ∀ e ∈ spans, e.Ok chunks) :
    (blocksOf spans).Pairwise fun b b' =>
      (chunks b.handle).ptr + b.size ≤ (chunks b'.handle).ptr := by
  induction spans with
  | nil => exact List.Pairwise.nil
  | cons e rest ih =>
      have hcons := List.pairwise_cons.mp hsorted
      have hthis := hok e (List.mem_cons_self ..)
      have hrest : ∀ e' ∈ rest, e'.Ok chunks := fun e' he' => hok e' (List.mem_cons_of_mem _ he')
      refine List.pairwise_append.mpr ⟨seg_ordered hthis.seg, ih hcons.2 hrest, ?_⟩
      intro b hb b' hb'
      obtain ⟨e', he', hb'⟩ := List.mem_flatMap.mp hb'
      have hle := hcons.1 e'.region (List.mem_map_of_mem he')
      have h1 := (hthis.within hb).2
      have h2 := ((hrest e' he').within hb').1
      omega

variable {s t : Allocator E} {spans : List Span} {unused : List ChunkHandle}

theorem Layout.blockOk (h : Layout s spans unused) {b : Block} (hb : b ∈ blocksOf spans) :
    b.Ok := by
  obtain ⟨e, he, hb⟩ := List.mem_flatMap.mp hb
  exact (h.spanOk e he).blocksOk b hb

/-- Two elements of an ordered list are one element, or in order one way or
the other. -/
theorem pairwise_or {α : Type} {R : α → α → Prop} {l : List α} (h : l.Pairwise R) {x y : α}
    (hx : x ∈ l) (hy : y ∈ l) : x = y ∨ R x y ∨ R y x := by
  obtain ⟨before, after, rfl⟩ := List.append_of_mem hx
  obtain ⟨_, hcons, happ⟩ := List.pairwise_append.mp h
  rcases List.mem_append.mp hy with hin | hin
  · exact Or.inr (Or.inr (happ y hin x (List.mem_cons_self ..)))
  · rcases List.mem_cons.mp hin with rfl | hin
    · exact Or.inl rfl
    · exact Or.inr (Or.inl ((List.pairwise_cons.mp hcons).1 y hin))

/-- Two blocks are one block or apart. -/
theorem Layout.apart (h : Layout s spans unused) {b b' : Block} (hb : b ∈ blocksOf spans)
    (hb' : b' ∈ blocksOf spans) :
    b = b' ∨ (s.chunks b.handle).ptr + b.size ≤ (s.chunks b'.handle).ptr ∨
      (s.chunks b'.handle).ptr + b'.size ≤ (s.chunks b.handle).ptr :=
  pairwise_or (spans_ordered h.sorted h.spanOk) hb hb'

theorem Layout.eq_of_ptr (h : Layout s spans unused) {b b' : Block} (hb : b ∈ blocksOf spans)
    (hb' : b' ∈ blocksOf spans) (hptr : (s.chunks b.handle).ptr = (s.chunks b'.handle).ptr) :
    b = b' := by
  have hpos := (h.blockOk hb).pos
  have hpos' := (h.blockOk hb').pos
  rcases h.apart hb hb' with heq | hlt | hlt
  · exact heq
  · omega
  · omega

theorem Layout.eq_of_handle (h : Layout s spans unused) {b b' : Block} (hb : b ∈ blocksOf spans)
    (hb' : b' ∈ blocksOf spans) (heq : b.handle = b'.handle) : b = b' :=
  h.eq_of_ptr hb hb' (by rw [heq])

theorem Layout.lt_chunkNum (h : Layout s spans unused) {b : Block} (hb : b ∈ blocksOf spans) :
    b.handle < s.chunkNum :=
  h.bound _ (List.mem_append_left _ (List.mem_map_of_mem hb))

/-- The chunk of a block. -/
theorem Layout.chunk_eq (h : Layout s spans unused) {b : Block} (hb : b ∈ blocksOf spans) :
    ∃ prev p next, s.chunks b.handle = b.chunk prev p next := by
  obtain ⟨e, he, hb⟩ := List.mem_flatMap.mp hb
  obtain ⟨before, after, _, hcell⟩ := (h.spanOk e he).seg.of_mem hb
  exact ⟨_, _, _, hcell⟩

end Addresses

section Unused

variable {chunks chunks' : ChunkHandle → Chunk}

theorem FreeList.congr {head : Option ChunkHandle} {unused : List ChunkHandle}
    (h : FreeList chunks head unused) (hagree : ∀ x ∈ unused, chunks' x = chunks x) :
    FreeList chunks' head unused := by
  induction unused generalizing head with
  | nil => exact h
  | cons x rest ih =>
      have hx := hagree x (List.mem_cons_self ..)
      refine ⟨h.1, hx ▸ h.2.1, hx ▸ ih h.2.2 ?_⟩
      intro y hy
      exact hagree y (List.mem_cons_of_mem _ hy)

end Unused

end DashInfer.Device

/-!
The allocator's operations on single chunks, each with what it does to the
blocks: a chunk taken off the list of unused ones or put back, moved into a bin
or out of it, marked, split or merged with its neighbour. Whatever lies outside
the hole the operation works in stays as it is.
-/

namespace DashInfer.Device

open Lib

variable {E : OrderedSet ChunkHandle}

section Rules

variable {s : Allocator E} {h : ChunkHandle} {X : Fault → Allocator E → Prop}

theorem post_enforce {cond : Bool} (hcond : cond = true) {Q : Unit → Allocator E → Prop} :
    Post (enforce cond) s Q X ↔ Q ⟨⟩ s := by
  simp only [enforce, hcond, if_true, post_pure]

theorem post_enforce_false {cond : Bool} (hcond : cond = false) {Q : Unit → Allocator E → Prop} :
    Post (enforce cond) s Q X ↔ X .enforce s := by
  simp [enforce, hcond]

theorem post_chunkFromHandle (hlt : h < s.chunkNum) {Q : Chunk → Allocator E → Prop} :
    Post (chunkFromHandle h) s Q X ↔ Q (s.chunks h) s := by
  simp only [chunkFromHandle, post_bind, post_get, hlt, if_true, post_pure]

theorem post_modifyChunk (hlt : h < s.chunkNum) {f : Chunk → Chunk}
    {Q : Unit → Allocator E → Prop} :
    Post (modifyChunk h f) s Q X ↔
      Q ⟨⟩ { s with chunks := Function.update s.chunks h (f (s.chunks h)) } := by
  simp only [modifyChunk, post_bind, post_chunkFromHandle hlt, post_modify]

/-- The chunks after `setPrev`. -/
def relinked (chunks : ChunkHandle → Chunk) (neighbor : Option ChunkHandle)
    (prev : ChunkHandle) : ChunkHandle → Chunk :=
  match neighbor with
  | some h => Function.update chunks h { chunks h with prev := some prev }
  | none => chunks

theorem post_setPrev {neighbor : Option ChunkHandle} {prev : ChunkHandle}
    (hlt : ∀ x ∈ neighbor, x < s.chunkNum) {Q : Unit → Allocator E → Prop} :
    Post (setPrev neighbor prev) s Q X ↔
      Q ⟨⟩ { s with chunks := relinked s.chunks neighbor prev } := by
  cases neighbor with
  | none => exact Iff.rfl
  | some x => exact post_modifyChunk (hlt x rfl)

theorem relinked_of_ne {chunks : ChunkHandle → Chunk} {neighbor : Option ChunkHandle}
    {prev x : ChunkHandle} (hne : x ∉ neighbor) : relinked chunks neighbor prev x = chunks x := by
  cases neighbor with
  | none => rfl
  | some y =>
      refine Function.update_of_ne ?_ _ _
      rintro rfl
      exact hne rfl

theorem relinked_of_mem {chunks : ChunkHandle → Chunk} {neighbor : Option ChunkHandle}
    {prev x : ChunkHandle} (hx : x ∈ neighbor) :
    relinked chunks neighbor prev x = { chunks x with prev := some prev } := by
  obtain rfl : neighbor = some x := hx
  exact Function.update_self ..

theorem wordSub_of_le {a b : Nat} (hle : b ≤ a) (hlt : a < wordSize) : wordSub a b = a - b := by
  rw [wordSub, show a + wordSize - b = (a - b) + wordSize by omega, Nat.add_mod_right,
    Nat.mod_eq_of_lt (by omega)]

end Rules

section Regions

variable {s : Allocator E} {k : Hole} {r : Region} {m : List Block} {p : Nat}
  {X : Fault → Allocator E → Prop}

theorem regionFor_eq {before after : List Region} (hsorted : Sorted (before ++ r :: after))
    (hlow : r.ptr ≤ p) (hhigh : p < r.endPtr) :
    regionFor p (before ++ r :: after) = some r ∧
      ∀ f, updateRegion p f (before ++ r :: after) = before ++ f r :: after := by
  induction before with
  | nil => simp [regionFor, updateRegion, hhigh]
  | cons x rest ih =>
      have hcons := List.pairwise_cons.mp hsorted
      have hx := hcons.1 r (by simp)
      have hnot : ¬ p < x.endPtr := by omega
      obtain ⟨hfind, hupd⟩ := ih hcons.2
      refine ⟨?_, fun f => ?_⟩
      · simp only [regionFor, List.cons_append, List.find?_cons, hnot, decide_false] at hfind ⊢
        exact hfind
      · simp only [List.cons_append, updateRegion, hnot, if_false, hupd f]

theorem indexFor_eq (hlow : r.ptr ≤ p) (hhigh : p < r.endPtr) (htop : r.endPtr ≤ wordSize) :
    r.indexFor p = (p - r.ptr) / kMinAllocationSize ∧ r.indexFor p < r.nHandles := by
  have hidx : r.indexFor p = (p - r.ptr) / kMinAllocationSize := by
    rw [Region.indexFor, wordSub_of_le hlow (by omega), Nat.shiftRight_eq_div_pow,
      kMinAllocationSize]
  refine ⟨hidx, ?_⟩
  rw [hidx, Region.nHandles]
  unfold Region.endPtr at hhigh
  simp only [kMinAllocationSize, kMinAllocationBits]
  omega

/-- A handle written inside the region of a hole. -/
theorem post_setHandle (hregions : s.regions = regionsOf (k.fill r m))
    (hsorted : Sorted (regionsOf (k.fill r m))) (hlow : r.ptr ≤ p) (hhigh : p < r.endPtr)
    (htop : r.endPtr ≤ wordSize) {h : Option ChunkHandle} {Q : Unit → Allocator E → Prop} :
    Post (setHandle p h) s Q X ↔
      Q ⟨⟩ { s with regions := regionsOf (k.fill (r.setHandle p h) m) } := by
  rw [Hole.regionsOf_fill] at hregions hsorted
  obtain ⟨hfind, hupd⟩ := regionFor_eq hsorted hlow hhigh
  rw [← hregions] at hfind hupd
  simp only [setHandle, post_bind, post_get, hfind, (indexFor_eq hlow hhigh htop).2, if_true,
    post_modify, hupd, Hole.regionsOf_fill]

/-- A handle read inside the region of a hole. -/
theorem post_getHandle (hregions : s.regions = regionsOf (k.fill r m))
    (hsorted : Sorted (regionsOf (k.fill r m))) (hlow : r.ptr ≤ p) (hhigh : p < r.endPtr)
    (htop : r.endPtr ≤ wordSize) {Q : Option ChunkHandle → Allocator E → Prop} :
    Post (getHandle p) s Q X ↔ Q (r.handles ((p - r.ptr) / kMinAllocationSize)) s := by
  rw [Hole.regionsOf_fill] at hregions hsorted
  obtain ⟨hfind, _⟩ := regionFor_eq hsorted hlow hhigh
  rw [← hregions] at hfind
  obtain ⟨hidx, hlt⟩ := indexFor_eq hlow hhigh htop
  rw [hidx] at hlt
  simp only [getHandle, post_bind, post_get, hfind, hlt, if_true, post_pure, hidx]

end Regions

section Refill

variable {s t : Allocator E} {k : Hole} {r r' : Region} {m m' : List Block}
  {unused unused' : List ChunkHandle} {chunks chunks' : ChunkHandle → Chunk}

theorem Hole.mem_others {b : Block} :
    b ∈ k.others ↔ (∃ e ∈ k.before ++ k.after, b ∈ e.blocks) ∨ b ∈ k.left ∨ b ∈ k.right := by
  simp only [Hole.others, blocksOf, List.mem_append, List.mem_flatMap]
  constructor
  · rintro (((⟨e, he, hb⟩ | hb) | hb) | ⟨e, he, hb⟩)
    · exact Or.inl ⟨e, Or.inl he, hb⟩
    · exact Or.inr (Or.inl hb)
    · exact Or.inr (Or.inr hb)
    · exact Or.inl ⟨e, Or.inr he, hb⟩
  · rintro (⟨e, he | he, hb⟩ | hb | hb)
    · exact Or.inl (Or.inl (Or.inl ⟨e, he, hb⟩))
    · exact Or.inr ⟨e, he, hb⟩
    · exact Or.inl (Or.inl (Or.inr hb))
    · exact Or.inl (Or.inr hb)

/-- The handles of the filled-in blocks are found nowhere else. -/
theorem Layout.handle_ne (h : Layout s (k.fill r m) unused) {b : Block} (hb : b ∈ m) :
    (∀ o ∈ k.others, o.handle ≠ b.handle) ∧ ∀ x ∈ unused, x ≠ b.handle := by
  have hnodup := Hole.nodup_fill.mp h.nodup
  have hdisj := (List.nodup_append.mp hnodup).2.2 b.handle (List.mem_map_of_mem hb)
  refine ⟨fun o ho heq => ?_, fun x hx heq => ?_⟩
  · exact hdisj _ (List.mem_append_left _ (List.mem_map_of_mem ho)) heq.symm
  · exact hdisj _ (List.mem_append_right _ hx) heq.symm

theorem Layout.mem_fill (_ : Layout s (k.fill r m) unused) {b : Block} (hb : b ∈ m) :
    b ∈ blocksOf (k.fill r m) :=
  Hole.mem_blocksOf_fill.mpr (Or.inl hb)

theorem Layout.span (h : Layout s (k.fill r m) unused) :
    (Span.mk r (k.left ++ (m ++ k.right))).Ok s.chunks :=
  (Hole.spanOk_fill.mp h.spanOk).2

/-- The cell of the first of the filled-in blocks. -/
theorem Layout.cell (h : Layout s (k.fill r (b :: m)) unused) :
    s.chunks b.handle = b.chunk (tiles.last none k.left) (r.ptr + tiles.widths k.left)
      (tiles.first m (tiles.first k.right none)) := by
  have hcell := h.span.seg.cell_eq (l := k.left) (b := b) (m := m ++ k.right)
  rw [Tiles.first_append] at hcell
  exact hcell

/-- The filled-in blocks replaced by blocks of the same extent that start with
the same chunk. -/
theorem Span.Ok.refill {l n : List Block} (h : (Span.mk r (l ++ (m ++ n))).Ok chunks)
    (hptr : r'.ptr = r.ptr) (hsize : r'.memorySize = r.memorySize)
    (hok : ∀ b ∈ m', b.Ok) (hwidth : tiles.widths m' = tiles.widths m)
    (hfirst : ∀ next, tiles.first m' next = tiles.first m next) (hne : m' ≠ [])
    (hleft : ∀ b ∈ l, chunks' b.handle = chunks b.handle)
    (hmid : tiles.Seg chunks' (tiles.last none l) (r.ptr + tiles.widths l) m'
      (tiles.first n none))
    (hright : tiles.Seg chunks' (tiles.last (tiles.last none l) m')
      (r.ptr + tiles.widths l + tiles.widths m) n none)
    (hmap : ∀ i x, r'.handles i = some x ↔
      x ∈ (l ++ (m' ++ n)).map Block.handle ∧
        (chunks' x).ptr = r.ptr + kMinAllocationSize * i) :
    (Span.mk r' (l ++ (m' ++ n))).Ok chunks' where
  base_pos := by
    rw [hptr]
    exact h.base_pos
  top := by
    have htop := h.top
    simpa only [Region.endPtr, hptr, hsize] using htop
  blocksOk b hb := by
    simp only [List.mem_append] at hb
    rcases hb with hb | hb | hb
    · exact h.blocksOk b (by simp [hb])
    · exact hok b hb
    · exact h.blocksOk b (by simp [hb])
  nonempty := by
    intro hnil
    simp only [List.append_eq_nil_iff] at hnil
    exact hne hnil.2.1
  width := by
    have hw := h.width
    simp only [Tiles.widths_append] at hw ⊢
    rw [hsize, hwidth]
    exact hw
  seg := by
    have hseg := h.seg
    rw [hptr]
    rw [Tiles.seg_append, Tiles.seg_append, Tiles.first_append] at hseg ⊢
    refine ⟨?_, hmid, ?_⟩
    · rw [hfirst]
      exact hseg.1.congr hleft
    · rw [hwidth]
      exact hright
  mapped i x := by
    rw [hptr]
    exact hmap i x

theorem Layout.refill (h : Layout s (k.fill r m) unused)
    (hregions : t.regions = regionsOf (k.fill r' m')) (hptr : r'.ptr = r.ptr)
    (hsize : r'.memorySize = r.memorySize)
    (hothers : ∀ e ∈ k.before ++ k.after, ∀ b ∈ e.blocks,
      t.chunks b.handle = s.chunks b.handle)
    (hspan : (Span.mk r' (k.left ++ (m' ++ k.right))).Ok t.chunks)
    (hnodup : (m'.map Block.handle ++ (k.others.map Block.handle ++ unused')).Nodup)
    (hbound : (∀ x ∈ m'.map Block.handle, x < t.chunkNum) ∧
      ∀ x ∈ k.others.map Block.handle ++ unused', x < t.chunkNum)
    (hfree : FreeList t.chunks t.freeChunksList unused') :
    Layout t (k.fill r' m') unused' where
  regions := hregions
  sorted := Hole.sorted_fill hptr hsize h.sorted
  spanOk := by
    refine Hole.spanOk_fill.mpr ⟨fun e he => ?_, hspan⟩
    exact ((Hole.spanOk_fill.mp h.spanOk).1 e he).congr (hothers e he)
  nodup := Hole.nodup_fill.mpr hnodup
  bound := Hole.bound_fill.mpr hbound
  freeList := hfree

/-- Bins that are left alone, while no block in a bin changes. -/
theorem Binned.refill {others : List Block} (h : Binned s (m ++ others))
    (hbins : t.bins = s.bins) (hm : ∀ b ∈ m, b.binNum = none) (hm' : ∀ b ∈ m', b.binNum = none)
    (hagree : ∀ b ∈ others, (t.chunks b.handle).size = (s.chunks b.handle).size ∧
      (t.chunks b.handle).ptr = (s.chunks b.handle).ptr) :
    Binned t (m' ++ others) where
  ascending i := by
    rw [hbins]
    refine (h.ascending i).imp_of_mem fun {x y} hx hy hlt => ?_
    have hin : ∀ z ∈ E.toList (s.bins i), (t.chunks z).size = (s.chunks z).size ∧
        (t.chunks z).ptr = (s.chunks z).ptr := by
      intro z hz
      obtain ⟨b, hb, rfl, hbin⟩ := (h.mem_iff i z).mp hz
      rcases List.mem_append.mp hb with hb | hb
      · rw [hm b hb] at hbin
        cases hbin
      · exact hagree b hb
    unfold chunkComparator at hlt ⊢
    rw [(hin x hx).1, (hin x hx).2, (hin y hy).1, (hin y hy).2]
    exact hlt
  mem_iff i x := by
    rw [hbins, h.mem_iff]
    constructor
    · rintro ⟨b, hb, hx, hbin⟩
      rcases List.mem_append.mp hb with hb | hb
      · rw [hm b hb] at hbin
        cases hbin
      · exact ⟨b, List.mem_append_right _ hb, hx, hbin⟩
    · rintro ⟨b, hb, hx, hbin⟩
      rcases List.mem_append.mp hb with hb | hb
      · rw [hm' b hb] at hbin
        cases hbin
      · exact ⟨b, List.mem_append_right _ hb, hx, hbin⟩

theorem Binned.perm {blocks blocks' : List Block} (h : Binned s blocks)
    (hperm : blocks.Perm blocks') : Binned s blocks' where
  ascending := h.ascending
  mem_iff i x := by
    rw [h.mem_iff]
    refine exists_congr fun b => ?_
    rw [hperm.mem_iff]

end Refill

end DashInfer.Device
