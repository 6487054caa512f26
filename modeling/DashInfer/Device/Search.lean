import DashInfer.Device.Links

/-!
`TryToCoalesce` and what a free chunk goes through before it is back in a bin.
Between calls the blocks are tidy: each is in use or in a bin, and of two
neighbours one is in use. A freed block is joined with whichever neighbour is
free; the blocks in use stay where they are.
-/

namespace DashInfer.Device

open Lib

/-- In use, or in a bin. -/
def Block.Settled (b : Block) : Prop := b.inUse = true ∨ b.binNum.isSome = true

/-- Of two neighbours one is in use. -/
def Spaced (l : List Block) : Prop := l.IsChain fun b b' => b.inUse = true ∨ b'.inUse = true

structure Tidy (spans : List Span) : Prop where
  settled : ∀ b ∈ blocksOf spans, b.Settled
  spaced : ∀ e ∈ spans, Spaced e.blocks

/-- Blocks laid out from an address on. -/
def located : Nat → List Block → List (Nat × Block)
  | _, [] => []
  | p, b :: rest => (p, b) :: located (p + b.size) rest

def usedAt (p : Nat) (l : List Block) : List (Nat × Block) := (located p l).filter (·.2.inUse)

/-- The blocks in use with their addresses. -/
def inUseAt (spans : List Span) : List (Nat × Block) :=
  spans.flatMap fun e => usedAt e.region.ptr e.blocks

section Located

variable {k : Hole} {r r' : Region} {m m' : List Block} {b : Block}

theorem located_append (p : Nat) (l n : List Block) :
    located p (l ++ n) = located p l ++ located (p + tiles.widths l) n := by
  induction l generalizing p with
  | nil => simp [located]
  | cons b rest ih =>
      simp only [List.cons_append, located, ih, Tiles.widths_cons, tiles_width, Nat.add_assoc]

@[simp] theorem usedAt_nil (p : Nat) : usedAt p [] = [] := rfl

theorem usedAt_append (p : Nat) (l n : List Block) :
    usedAt p (l ++ n) = usedAt p l ++ usedAt (p + tiles.widths l) n := by
  simp only [usedAt, located_append, List.filter_append]

theorem usedAt_free (p : Nat) (hfree : b.allocationId = -1) : usedAt p [b] = [] := by
  simp [usedAt, located, Block.inUse, hfree]

theorem usedAt_used (p : Nat) (hused : b.allocationId ≠ -1) : usedAt p [b] = [(p, b)] := by
  simp [usedAt, located, Block.inUse, hused]

theorem inUseAt_fill : inUseAt (k.fill r m) =
    inUseAt k.before ++ (usedAt r.ptr k.left ++
      (usedAt (r.ptr + tiles.widths k.left) m ++
        usedAt (r.ptr + tiles.widths k.left + tiles.widths m) k.right)) ++ inUseAt k.after := by
  simp only [inUseAt, Hole.fill, List.flatMap_append, List.flatMap_cons, usedAt_append,
    List.append_assoc]

end Located

variable {E : OrderedSet ChunkHandle} {cfg : Config} {s t : Allocator E} {k : Hole}
  {r : Region} {b : Block} {unused : List ChunkHandle} {X : Fault → Allocator E → Prop}

/-- The blocks after the freed one, once it was joined with the next. -/
structure JoinedRight (l l' : List Block) (n : Nat) : Prop where
  mem : ∀ o ∈ l', o ∈ l
  spaced : Spaced l'
  head : ∀ o ∈ l'.head?, o.inUse = true
  used : ∀ p, usedAt (p + n) l' = usedAt p l

/-- The blocks before the freed one, once it was joined with the last of them. -/
structure JoinedLeft (l l' : List Block) (n : Nat) : Prop where
  mem : ∀ o ∈ l', o ∈ l
  spaced : Spaced l'
  last : ∀ o ∈ l'.getLast?, o.inUse = true
  used : ∀ p, usedAt p l' = usedAt p l
  width : tiles.widths l = tiles.widths l' + n

theorem Block.Settled.free (h : b.Settled) (hfree : ¬ b.inUse = true) : ∃ i, b.binNum = some i := by
  rcases h with hused | hbin
  · exact absurd hused hfree
  · exact Option.isSome_iff_exists.mp hbin

theorem Block.not_inUse : ¬ b.inUse = true ↔ b.allocationId = -1 := by
  simp [Block.inUse]

/-- The cell of a block in the chain left of a hole or right of it. -/
theorem Layout.cell_of_mem {m : List Block} (h : Layout s (k.fill r m) unused) {o : Block}
    (ho : o ∈ blocksOf (k.fill r m)) :
    o.handle < s.chunkNum ∧ (s.chunks o.handle).inUse = o.inUse ∧
      (s.chunks o.handle).freedAtCount = 0 := by
  obtain ⟨prev, p, next, hcell⟩ := h.chunk_eq ho
  exact ⟨h.lt_chunkNum ho, by rw [hcell]; rfl, by rw [hcell]; rfl⟩

theorem post_coalesceNext (h : Shape cfg s (k.fill r [b]) unused) (hfree : b.allocationId = -1)
    (hloose : b.binNum = none) (hsettled : ∀ o ∈ k.others, o.Settled) (hspaced : Spaced k.right) :
    Post (coalesceNext b.handle false) s
      (fun _ t => ∃ right n r' unused', JoinedRight k.right right n ∧ r'.ptr = r.ptr ∧
        r'.memorySize = r.memorySize ∧
        Shape cfg t (Hole.fill { k with right := right } r' [{ b with size := b.size + n }])
          unused') X := by
  have hmem : b ∈ [b] := List.mem_singleton_self b
  have hlt := h.layout.lt_of_fill hmem
  have hnext : (s.chunks b.handle).next = tiles.first k.right none :=
    congrArg Chunk.next h.layout.cell
  rw [coalesceNext, post_bind, post_chunkFromHandle hlt]
  obtain ⟨before, left, right, after⟩ := k
  simp only [] at hnext hspaced ⊢
  cases right with
  | nil =>
      rw [hnext, Tiles.first_nil]
      exact ⟨[], 0, r, unused, ⟨fun _ ho => ho, hspaced, by simp, fun _ => rfl⟩, rfl, rfl, h⟩
  | cons o rest =>
      have hoOthers : o ∈ Hole.others ⟨before, left, o :: rest, after⟩ :=
        Hole.mem_others.mpr (Or.inr (Or.inr (List.mem_cons_self ..)))
      obtain ⟨holt, house, hofreed⟩ :=
        h.layout.cell_of_mem (Hole.mem_blocksOf_fill.mpr (Or.inr hoOthers))
      rw [hnext, Tiles.first_cons]
      change Post (chunkFromHandle o.handle >>= _) _ _ _
      rw [post_bind, post_chunkFromHandle holt, house, hofreed]
      by_cases hused : o.inUse = true
      · simp only [hused, Bool.not_true, Bool.false_and, Bool.false_eq_true, if_false, post_pure]
        refine ⟨o :: rest, 0, r, unused, ⟨fun _ ho => ho, hspaced, ?_, fun _ => rfl⟩, rfl, rfl, h⟩
        simpa using hused
      · obtain ⟨i, hi⟩ := (hsettled o hoOthers).free hused
        have hofree := Block.not_inUse.mp hused
        simp only [hused, Bool.not_false, decide_true, Bool.true_or, Bool.and_self, if_true]
        rw [post_bind]
        have hpair : Shape cfg s (Hole.fill ⟨before, left, rest, after⟩ r [b, o]) unused := h
        rw [Hole.fill_pair_right] at hpair
        refine (post_removeFreeChunkFromBin hpair hi).imp ?_ (fun _ _ hx => hx)
        intro _ u hu
        rw [← Hole.fill_pair_right] at hu
        refine (post_merge hu hfree hloose hofree rfl).imp ?_ (fun _ _ hx => hx)
        rintro _ v ⟨r', unused', hptr, hsize, hv⟩
        refine ⟨rest, o.size, r', unused', ⟨?_, ?_, ?_, ?_⟩, hptr, hsize, hv⟩
        · exact fun _ ho => List.mem_cons_of_mem _ ho
        · exact (List.isChain_cons.mp hspaced).2
        · intro o' ho'
          exact ((List.isChain_cons.mp hspaced).1 o' ho').resolve_left hused
        · intro p
          rw [← List.singleton_append, usedAt_append, usedAt_free p hofree, List.nil_append]
          rfl

theorem post_coalescePrev (h : Shape cfg s (k.fill r [b]) unused) (hfree : b.allocationId = -1)
    (hloose : b.binNum = none) (hsettled : ∀ o ∈ k.others, o.Settled) (hspaced : Spaced k.left) :
    Post (coalescePrev b.handle false) s
      (fun x t => ∃ left b' n r' unused', JoinedLeft k.left left n ∧ r'.ptr = r.ptr ∧
        r'.memorySize = r.memorySize ∧ b'.handle = x ∧ b'.size = n + b.size ∧
        b'.allocationId = -1 ∧ b'.binNum = none ∧
        Shape cfg t (Hole.fill { k with left := left } r' [b']) unused') X := by
  have hmem : b ∈ [b] := List.mem_singleton_self b
  have hlt := h.layout.lt_of_fill hmem
  have hprev : (s.chunks b.handle).prev = tiles.last none k.left :=
    congrArg Chunk.prev h.layout.cell
  rw [coalescePrev, post_bind, post_chunkFromHandle hlt]
  obtain ⟨before, left, right, after⟩ := k
  simp only [] at hprev hspaced ⊢
  have hstay : (∀ o ∈ left.getLast?, o.inUse = true) →
      ∃ left' b' n r' unused', JoinedLeft left left' n ∧ r'.ptr = r.ptr ∧
        r'.memorySize = r.memorySize ∧ b'.handle = b.handle ∧ b'.size = n + b.size ∧
        b'.allocationId = -1 ∧ b'.binNum = none ∧
        Shape cfg s (Hole.fill ⟨before, left', right, after⟩ r' [b']) unused' := by
    intro hlast
    exact ⟨left, b, 0, r, unused, ⟨fun _ ho => ho, hspaced, hlast, fun _ => rfl, rfl⟩, rfl, rfl,
      rfl, (Nat.zero_add _).symm, hfree, hloose, h⟩
  rcases List.eq_nil_or_concat left with rfl | ⟨front, o, hleft⟩
  · rw [hprev, Tiles.last_nil]
    exact hstay (by simp)
  · rw [List.concat_eq_append] at hleft
    subst hleft
    have hoOthers : o ∈ Hole.others ⟨before, front ++ [o], right, after⟩ :=
      Hole.mem_others.mpr (Or.inr (Or.inl (by simp)))
    obtain ⟨holt, house, hofreed⟩ :=
      h.layout.cell_of_mem (Hole.mem_blocksOf_fill.mpr (Or.inr hoOthers))
    rw [hprev, Tiles.last_append, Tiles.last_cons, Tiles.last_nil]
    change Post (chunkFromHandle o.handle >>= _) _ _ _
    rw [post_bind, post_chunkFromHandle holt, house, hofreed]
    by_cases hused : o.inUse = true
    · simp only [hused, Bool.not_true, Bool.false_and, Bool.false_eq_true, if_false, post_pure]
      refine hstay ?_
      simpa using hused
    · obtain ⟨i, hi⟩ := (hsettled o hoOthers).free hused
      have hofree := Block.not_inUse.mp hused
      simp only [hused, Bool.not_false, decide_true, Bool.true_or, Bool.and_self, if_true]
      rw [post_bind]
      have hpair : Shape cfg s (Hole.fill ⟨before, front, right, after⟩ r [o, b]) unused := by
        have heq : Hole.fill ⟨before, front, right, after⟩ r [o, b] =
            Hole.fill ⟨before, front ++ [o], right, after⟩ r [b] := by
          simp [Hole.fill]
        rw [heq]
        exact h
      rw [Hole.fill_pair_left] at hpair
      refine (post_removeFreeChunkFromBin hpair hi).imp ?_ (fun _ _ hx => hx)
      intro _ u hu
      rw [← Hole.fill_pair_left] at hu
      rw [post_bind]
      refine (post_merge hu hofree rfl hfree hloose).imp ?_ (fun _ _ hx => hx)
      rintro _ v ⟨r', unused', hptr, hsize, hv⟩
      have hchain := List.isChain_append.mp hspaced
      refine ⟨front, Block.joined { o with binNum := none } b, o.size, r', unused', ⟨?_, hchain.1, ?_, ?_, ?_⟩, hptr, hsize, rfl, rfl,
        hofree, rfl, hv⟩
      · exact fun _ ho => List.mem_append_left _ ho
      · intro o' ho'
        exact (hchain.2.2 o' ho' o rfl).resolve_right hused
      · intro p
        rw [usedAt_append, usedAt_free _ hofree, List.append_nil]
      · rw [Tiles.widths_append, Tiles.widths_cons, Tiles.widths_nil]
        rfl

/-- A free block went back to its bin: what was in use still is, where it was,
and the block is part of the free one. -/
structure Returned (k : Hole) (r : Region) (b : Block) (k' : Hole) (r' : Region)
    (b' : Block) : Prop where
  before : k'.before = k.before
  after : k'.after = k.after
  ptr : r'.ptr = r.ptr
  size : r'.memorySize = r.memorySize
  free : b'.allocationId = -1
  used : inUseAt (k'.fill r' [b']) = inUseAt (k.fill r [b])
  low : tiles.widths k'.left ≤ tiles.widths k.left
  high : tiles.widths k.left + b.size ≤ tiles.widths k'.left + b'.size

/-- `InsertFreeChunkIntoBin(TryToCoalesce(h, false))` on a block that is neither
in use nor in a bin, all others being tidy. -/
theorem post_returnToBin (h : Shape cfg s (k.fill r [b]) unused) (hfree : b.allocationId = -1)
    (hloose : b.binNum = none) (hsettled : ∀ o ∈ k.others, o.Settled) (hleft : Spaced k.left)
    (hright : Spaced k.right) (hspans : ∀ e ∈ k.before ++ k.after, Spaced e.blocks) :
    Post (tryToCoalesce b.handle false >>= insertFreeChunkIntoBin) s
      (fun _ t => ∃ k' r' b' unused', Returned k r b k' r' b' ∧
        Shape cfg t (k'.fill r' [b']) unused' ∧ Tidy (k'.fill r' [b'])) X := by
  have hmem : b ∈ [b] := List.mem_singleton_self b
  obtain ⟨hlt, _, hfreed⟩ := h.layout.cell_of_mem (h.layout.mem_fill hmem)
  rw [post_bind, tryToCoalesce, post_bind, post_chunkFromHandle hlt, hfreed]
  simp only [Bool.not_false, Nat.lt_irrefl, decide_false, Bool.and_false, Bool.false_eq_true,
    if_false]
  rw [post_bind]
  refine (post_coalesceNext h hfree hloose hsettled hright).imp ?_ (fun _ _ hx => hx)
  rintro _ u ⟨right, n, r₁, unused₁, hjr, hptr₁, hsize₁, hu⟩
  have hsettled₁ : ∀ o ∈ Hole.others { k with right := right }, o.Settled := by
    intro o ho
    refine hsettled o (Hole.mem_others.mpr ?_)
    rcases Hole.mem_others.mp ho with ho | ho | ho
    · exact Or.inl ho
    · exact Or.inr (Or.inl ho)
    · exact Or.inr (Or.inr (hjr.mem o ho))
  have hprev := post_coalescePrev (X := X) hu hfree hloose hsettled₁ hleft
  refine hprev.imp ?_ (fun _ _ hx => hx)
  rintro x v ⟨left, b₂, n₂, r₂, unused₂, hjl, hptr₂, hsize₂, rfl, hbsize, hfree₂, hloose₂, hv⟩
  refine (post_insertFreeChunkIntoBin hv hfree₂ hloose₂).imp ?_ (fun _ _ hx => hx)
  intro _ w hw
  have hwidth := hjl.width
  simp only [] at hjl hwidth hbsize
  refine ⟨⟨k.before, left, right, k.after⟩, r₂, _, unused₂, ?_, hw, ?_⟩
  · refine ⟨rfl, rfl, hptr₂.trans hptr₁, hsize₂.trans hsize₁, hfree₂, ?_, ?_, ?_⟩
    · have husedRight := hjr.used (r.ptr + tiles.widths k.left + b.size)
      have hempty : ∀ p, usedAt p [{ b₂ with binNum := some (binNumForSize b₂.size) }] = [] :=
        fun p => usedAt_free p hfree₂
      rw [inUseAt_fill, inUseAt_fill, usedAt_free _ hfree, hempty]
      simp only [Tiles.widths_cons, Tiles.widths_nil, tiles_width, Nat.add_zero, hptr₂, hptr₁,
        hjl.used]
      rw [← husedRight]
      congr 5
      omega
    · simp only []
      omega
    · simp only []
      omega
  · constructor
    · intro o ho
      rcases Hole.mem_blocksOf_fill.mp ho with ho | ho
      · rw [List.mem_singleton.mp ho]
        exact Or.inr rfl
      · refine hsettled o (Hole.mem_others.mpr ?_)
        rcases Hole.mem_others.mp ho with ho | ho | ho
        · exact Or.inl ho
        · exact Or.inr (Or.inl (hjl.mem o ho))
        · exact Or.inr (Or.inr (hjr.mem o ho))
    · intro e he
      simp only [Hole.fill, List.mem_append, List.mem_cons] at he
      rcases he with he | rfl | he
      · exact hspans e (List.mem_append_left _ he)
      · refine List.isChain_append.mpr ⟨hjl.spaced, ?_, ?_⟩
        · refine List.isChain_cons.mpr ⟨?_, hjr.spaced⟩
          intro o ho
          exact Or.inr (hjr.head o ho)
        · intro o ho _ _
          exact Or.inl (hjl.last o ho)
      · exact hspans e (List.mem_append_right _ he)

end DashInfer.Device

/-!
`FindChunkPtr`: the bins from that of the request upwards, in each the chunks
by size, and the first that fits. The bin number grows with the size, so that
a search without result has seen every free chunk that is large enough.
-/

namespace DashInfer.Device

open Lib

variable {E : OrderedSet ChunkHandle} {cfg : Config} {s t : Allocator E} {k : Hole}
  {r : Region} {b : Block} {spans spans' : List Span} {unused : List ChunkHandle}
  {X : Fault → Allocator E → Prop}

/-- The state stands for these tidy blocks. -/
structure Inv (cfg : Config) (s : Allocator E) (spans : List Span)
    (unused : List ChunkHandle) : Prop where
  shape : Shape cfg s spans unused
  tidy : Tidy spans

/-- One more block is in use: at least `rounded` bytes at `p`. -/
def Allocates (spans spans' : List Span) (p rounded numBytes : Nat) : Prop :=
  ∃ before after b, inUseAt spans = before ++ after ∧
    inUseAt spans' = before ++ (p, b) :: after ∧ rounded ≤ b.size ∧ b.requestedSize = numBytes

/-- No free block has `rounded` bytes. -/
def NoFit (spans : List Span) (rounded : Nat) : Prop :=
  ∀ b ∈ blocksOf spans, b.inUse = false → b.size < rounded

theorem binNumForSize_mono {m n : Nat} (h : m ≤ n) : binNumForSize m ≤ binNumForSize n := by
  unfold binNumForSize
  have hshift : max m 256 >>> kMinAllocationBits ≤ max n 256 >>> kMinAllocationBits := by
    rw [Nat.shiftRight_eq_div_pow, Nat.shiftRight_eq_div_pow]
    exact Nat.div_le_div_right (max_le_max_right _ h)
  have hlog : Nat.log2 (max m 256 >>> kMinAllocationBits) ≤
      Nat.log2 (max n 256 >>> kMinAllocationBits) := by
    rw [Nat.log2_eq_log_two, Nat.log2_eq_log_two]
    exact Nat.log_mono_right hshift
  exact min_le_min_left _ hlog

theorem binNumForSize_lt (n : Nat) : binNumForSize n < kNumBins :=
  Nat.lt_of_le_of_lt (Nat.min_le_left _ _) (by decide)

theorem le_roundedBytes {n : Nat} (hlt : n < 2 ^ 63) : n ≤ roundedBytes n := by
  have hmod : (n + kMinAllocationSize - 1) % wordSize = n + 255 := by
    simp only [kMinAllocationSize, kMinAllocationBits, wordSize]
    omega
  rw [roundedBytes, hmod]
  simp only [kMinAllocationSize, kMinAllocationBits]
  omega

theorem roundedBytes_spec {n : Nat} (hpos : 0 < n) (hlt : n < 2 ^ 63) :
    n ≤ roundedBytes n ∧ 0 < roundedBytes n ∧ kMinAllocationSize ∣ roundedBytes n ∧
      roundedBytes n ≤ 2 ^ 63 := by
  have hmod : (n + kMinAllocationSize - 1) % wordSize = n + 255 := by
    simp only [kMinAllocationSize, kMinAllocationBits, wordSize]
    omega
  have heq : roundedBytes n = 256 * ((n + 255) / 256) := by
    rw [roundedBytes, hmod]
    rfl
  refine ⟨le_roundedBytes hlt, by omega, ⟨(n + 255) / 256, heq⟩, by omega⟩

theorem post_findInBin {rounded : Nat} (hs : List ChunkHandle)
    (hlt : ∀ h ∈ hs, h < s.chunkNum) :
    Post (findInBin rounded hs) s
      (fun o t => t = s ∧ o = hs.find? fun h => rounded ≤ (s.chunks h).size) X := by
  induction hs with
  | nil => exact ⟨rfl, rfl⟩
  | cons h rest ih =>
      rw [findInBin, post_bind, post_chunkFromHandle (hlt h (List.mem_cons_self ..))]
      by_cases hfit : rounded ≤ (s.chunks h).size
      · simp [hfit]
      · simp only [hfit, if_false]
        refine (ih fun x hx => hlt x (List.mem_cons_of_mem _ hx)).imp ?_ (fun _ _ hx => hx)
        rintro o t ⟨rfl, rfl⟩
        simp [hfit]

/-- A free block has blocks in use on both sides. -/
theorem Spaced.around {l n : List Block} (h : Spaced (l ++ ([b] ++ n)))
    (hfree : b.allocationId = -1) :
    Spaced l ∧ Spaced n ∧ (∀ o ∈ l.getLast?, o.inUse = true) ∧ ∀ o ∈ n.head?, o.inUse = true := by
  have hnot : ¬ b.inUse = true := Block.not_inUse.mpr hfree
  obtain ⟨hl, hbn, hjoin⟩ := List.isChain_append.mp h
  obtain ⟨hhead, hn⟩ := List.isChain_cons.mp hbn
  refine ⟨hl, hn, fun o ho => ?_, fun o ho => ?_⟩
  · exact (hjoin o ho b rfl).resolve_right hnot
  · exact (hhead o ho).resolve_left hnot

/-- A tidy whole in which a free block gives way to tidy blocks that start with
one in use. -/
theorem Tidy.refill {r' : Region} {m : List Block} (h : Tidy (k.fill r [b]))
    (hfree : b.allocationId = -1) (hsettled : ∀ o ∈ m, o.Settled) (hspaced : Spaced m)
    (hused : ∀ o ∈ m.head?, o.inUse = true) (hne : m ≠ []) : Tidy (k.fill r' m) := by
  have hspan : Spaced (k.left ++ ([b] ++ k.right)) :=
    h.spaced ⟨r, k.left ++ ([b] ++ k.right)⟩
      (List.mem_append_right _ (List.mem_cons_self ..))
  obtain ⟨hl, hn, _, hhead⟩ := hspan.around hfree
  constructor
  · intro o ho
    rcases Hole.mem_blocksOf_fill.mp ho with ho | ho
    · exact hsettled o ho
    · exact h.settled o (Hole.mem_blocksOf_fill.mpr (Or.inr ho))
  · intro e he
    simp only [Hole.fill, List.mem_append, List.mem_cons] at he
    rcases he with he | rfl | he
    · exact h.spaced e (by simp [Hole.fill, he])
    · refine List.isChain_append.mpr ⟨hl, List.isChain_append.mpr ⟨hspaced, hn, ?_⟩, ?_⟩
      · intro _ _ o ho
        exact Or.inr (hhead o ho)
      · intro _ _ o ho
        refine Or.inr (hused o ?_)
        cases m with
        | nil => exact absurd rfl hne
        | cons o' rest => exact ho
    · exact h.spaced e (by simp [Hole.fill, he])

theorem usedBytes_loose (hfree : b.allocationId = -1) : usedBytes [b] = 0 := by
  simp [usedBytes, Block.inUse, hfree]

theorem usedBytes_used (hused : b.allocationId ≠ -1) : usedBytes [b] = b.size := by
  simp [usedBytes, Block.inUse, hused]

theorem post_claimChunk {numBytes : Nat} (h : Shape cfg s (k.fill r [b]) unused)
    (hfree : b.allocationId = -1) (hloose : b.binNum = none) :
    Post (claimChunk b.handle numBytes) s
      (fun p t => p = r.ptr + tiles.widths k.left ∧ s.nextAllocationId ≠ -1 ∧
        Shape cfg t (k.fill r [{ b with
          requestedSize := numBytes, allocationId := s.nextAllocationId }]) unused) X := by
  have hlt := h.layout.lt_of_fill (List.mem_singleton_self b)
  have hcell := h.layout.cell
  have hid := h.counted.nextId
  have hne : s.nextAllocationId ≠ -1 := by omega
  rw [claimChunk, post_bind, post_get, post_bind, post_modifyChunk hlt, post_bind,
    post_chunkFromHandle (by exact hlt), post_bind, post_modify, post_pure]
  simp only [Function.update_self]
  refine ⟨?_, hne, h.remark hloose numBytes s.nextAllocationId rfl rfl rfl rfl rfl ?_ rfl ?_ rfl⟩
  · rw [hcell]
    rfl
  · rw [usedBytes_loose hfree, usedBytes_used (by exact hne), hcell]
    simp only [Block.chunk]
    omega
  · simp only []
    omega

theorem usedAt_of_free {l : List Block} (p : Nat) (hfree : ∀ o ∈ l, o.allocationId = -1) :
    usedAt p l = [] := by
  induction l generalizing p with
  | nil => rfl
  | cons o rest ih =>
      rw [← List.singleton_append, usedAt_append, usedAt_free p (hfree o (List.mem_cons_self ..)),
        ih _ fun o' ho' => hfree o' (List.mem_cons_of_mem _ ho')]
      rfl

/-- A free block has given way to one in use and a free remainder. -/
theorem Inv.allocated {r' : Region} {b' : Block} {tail : List Block} {rounded numBytes : Nat}
    {unused' : List ChunkHandle} (h : Tidy (k.fill r [b])) (hfree : b.allocationId = -1)
    (hshape : Shape cfg t (k.fill r' (b' :: tail)) unused') (hptr : r'.ptr = r.ptr)
    (hid : b'.allocationId ≠ -1)
    (htail : ∀ o ∈ tail, o.allocationId = -1 ∧ o.binNum.isSome = true) (hshort : tail.length ≤ 1)
    (hwidth : tiles.widths (b' :: tail) = b.size) (hfit : rounded ≤ b'.size)
    (hreq : b'.requestedSize = numBytes) :
    ∃ spans' unused', Inv cfg t spans' unused' ∧
      Allocates (k.fill r [b]) spans' (r.ptr + tiles.widths k.left) rounded numBytes := by
  have hused : b'.inUse = true := by simp [Block.inUse, hid]
  refine ⟨_, unused', ⟨hshape, h.refill hfree ?_ ?_ ?_ (by simp)⟩, ?_⟩
  · intro o ho
    rcases List.mem_cons.mp ho with rfl | ho
    · exact Or.inl hused
    · exact Or.inr (htail o ho).2
  · cases tail with
    | nil => exact List.IsChain.singleton _
    | cons o rest =>
        obtain rfl : rest = [] := List.length_eq_zero_iff.mp (by simpa using hshort)
        exact List.isChain_cons_cons.mpr ⟨Or.inl hused, List.IsChain.singleton _⟩
  · simpa using hused
  · refine ⟨inUseAt k.before ++ usedAt r.ptr k.left,
      usedAt (r.ptr + tiles.widths k.left + b.size) k.right ++ inUseAt k.after, b', ?_, ?_, hfit,
      hreq⟩
    · rw [inUseAt_fill, usedAt_free _ hfree]
      simp
    · rw [inUseAt_fill, hwidth, ← List.singleton_append, usedAt_append, usedAt_used _ hid,
        usedAt_of_free _ fun o ho => (htail o ho).1, hptr]
      simp

/-- Nothing is larger than the memory limit. -/
theorem Shape.size_lt {m : List Block} (h : Shape cfg s (k.fill r m) unused) (hb : b ∈ m) :
    b.size < 2 ^ 63 := by
  have hin := h.layout.span.within (b := b) (by simp [hb])
  have htotal := h.counted.total
  have hlimit := h.counted.limit
  have hlt := cfg.limit_lt
  rw [Hole.regionBytes_fill] at htotal
  simp only [Region.endPtr] at hin
  omega

/-- What `FindChunkPtr` does with the chunk it has found. -/
theorem post_takeChunk {bin rounded numBytes : Nat} (h : Inv cfg s (k.fill r [b]) unused)
    (hbin : b.binNum = some bin) (hpos : 0 < rounded) (hfit : rounded ≤ b.size)
    (halign : kMinAllocationSize ∣ rounded) :
    Post (takeChunk cfg bin b.handle rounded numBytes) s
      (fun p t => ∃ spans' unused', Inv cfg t spans' unused' ∧
        Allocates (k.fill r [b]) spans' p rounded numBytes) X := by
  have hmem : b ∈ [b] := List.mem_singleton_self b
  have hfree := ((h.shape.layout.blockOk (h.shape.layout.mem_fill hmem)).binned bin hbin).1
  have hsmall := h.shape.size_lt hmem
  rw [takeChunk, post_bind]
  refine (post_removeFreeChunkIterFromBin h.shape hbin).imp ?_ (fun _ _ hx => hx)
  intro _ u hu
  have hlt := hu.layout.lt_of_fill (List.mem_singleton_self _)
  have hsize : (u.chunks b.handle).size = b.size := congrArg Chunk.size hu.layout.cell
  rw [post_bind, post_chunkFromHandle (by exact hlt), hsize]
  by_cases hsplit : rounded * 2 % wordSize ≤ b.size ∨
      cfg.maxInternalFragmentationBytes ≤ wordSub b.size rounded
  · have hless : rounded < b.size := by
      have hfrag := cfg.fragmentation_pos
      rw [wordSub_of_le hfit (by simp only [wordSize]; omega),
        Nat.mod_eq_of_lt (by simp only [wordSize]; omega)] at hsplit
      omega
    rw [if_pos hsplit, post_bind]
    refine (post_splitChunk hu hfree rfl hpos hless halign).imp ?_ (fun _ _ hx => hx)
    rintro _ v ⟨r', unused', x, q, hptr, _, hv⟩
    rw [Hole.fill_pair_left] at hv
    refine (post_claimChunk hv hfree rfl).imp ?_ (fun _ _ hx => hx)
    rintro p w ⟨rfl, hid, hw⟩
    rw [← Hole.fill_pair_left] at hw
    simp only [Hole.narrow, List.append_nil, hptr]
    refine Inv.allocated h.tidy hfree hw hptr hid ?_ (by simp) ?_ ?_ rfl
    · simp [Block.rest]
    · simp only [Tiles.widths_cons, Tiles.widths_nil, tiles_width, Block.front, Block.rest]
      omega
    · exact Nat.le_refl _
  · rw [if_neg hsplit]
    refine (post_claimChunk hu hfree rfl).imp ?_ (fun _ _ hx => hx)
    rintro p w ⟨rfl, hid, hw⟩
    exact Inv.allocated h.tidy hfree hw rfl hid (by simp) (by simp) (by simp) hfit rfl

/-- What a search leaves: nothing changed and nothing fits, or one more block in use. -/
def Searched (cfg : Config) (s : Allocator E) (spans : List Span) (rounded numBytes : Nat)
    (o : Option Nat) (t : Allocator E) : Prop :=
  match o with
  | none => t = s ∧ NoFit spans rounded
  | some p => ∃ spans' unused', Inv cfg t spans' unused' ∧
      Allocates spans spans' p rounded numBytes

theorem post_searchBins {rounded numBytes : Nat} (h : Inv cfg s spans unused)
    (hpos : 0 < rounded) (halign : kMinAllocationSize ∣ rounded) (bins : List Nat)
    (hseen : ∀ b ∈ blocksOf spans, ∀ i, b.binNum = some i → i ∉ bins → b.size < rounded) :
    Post (searchBins cfg rounded numBytes bins) s (Searched cfg s spans rounded numBytes) X := by
  induction bins with
  | nil =>
      refine ⟨rfl, fun b hb hfree => ?_⟩
      obtain ⟨i, hi⟩ := (h.tidy.settled b hb).free (by simp [hfree])
      exact hseen b hb i hi (by simp)
  | cons bin rest ih =>
      rw [searchBins, post_bind, post_get, post_bind]
      refine (post_findInBin (E.toList (s.bins bin)) ?_).imp ?_ (fun _ _ hx => hx)
      · intro x hx
        obtain ⟨b, hb, rfl, _⟩ := (h.shape.binned.mem_iff bin x).mp hx
        exact h.shape.layout.lt_chunkNum hb
      · rintro o t ⟨rfl, rfl⟩
        have hsize : ∀ b ∈ blocksOf spans, (t.chunks b.handle).size = b.size := by
          intro b hb
          obtain ⟨prev, p, next, hcell⟩ := h.shape.layout.chunk_eq hb
          rw [hcell]
          rfl
        cases hfind : (E.toList (t.bins bin)).find? fun x => rounded ≤ (t.chunks x).size with
        | none =>
            refine ih fun b hb i hi hnin => ?_
            by_cases hbin : i = bin
            · have hx : b.handle ∈ E.toList (t.bins bin) :=
                (h.shape.binned.mem_iff bin _).mpr ⟨b, hb, rfl, hbin ▸ hi⟩
              have hnot := List.find?_eq_none.mp hfind b.handle hx
              rw [hsize b hb] at hnot
              simpa using hnot
            · refine hseen b hb i hi fun hin => ?_
              rcases List.mem_cons.mp hin with heq | hin
              · exact hbin heq
              · exact hnin hin
        | some x =>
            obtain ⟨b, hb, rfl, hbin⟩ :=
              (h.shape.binned.mem_iff bin x).mp (List.mem_of_find?_eq_some hfind)
            have hfit := List.find?_some hfind
            rw [hsize b hb, decide_eq_true_eq] at hfit
            obtain ⟨k, r, rfl⟩ := exists_hole hb
            simp only [map_eq_pure_bind, post_bind]
            refine (post_takeChunk h hbin hpos hfit halign).imp ?_ (fun _ _ hx => hx)
            intro p u hu
            exact hu

/-- `FindChunkPtr` finds a chunk wherever a free one is large enough. -/
theorem post_findChunkPtr {rounded numBytes : Nat} (h : Inv cfg s spans unused)
    (hpos : 0 < rounded) (halign : kMinAllocationSize ∣ rounded) :
    Post (findChunkPtr cfg (binNumForSize rounded) rounded numBytes) s
      (Searched cfg s spans rounded numBytes) X := by
  refine post_searchBins h hpos halign _ fun b hb i hi hnin => ?_
  have hbin := ((h.shape.layout.blockOk hb).binned i hi).2
  have hlt := binNumForSize_lt b.size
  have hlow : ¬ binNumForSize rounded ≤ i := by
    intro hle
    refine hnin (List.mem_range'_1.mpr ⟨hle, ?_⟩)
    rw [hbin]
    have hle' := hbin ▸ hle
    omega
  by_contra hge
  exact hlow (hbin ▸ binNumForSize_mono (Nat.le_of_not_lt hge))

end DashInfer.Device
