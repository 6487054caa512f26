import DashInfer.Lib.OrderedSet
import DashInfer.Lib.Program

/-!
`BFCAllocatorImpl`: best fit with coalescing over the regions a device hands
out. `size_t` arithmetic that can wrap is written modulo `2 ^ 64`; a
`kInvalidChunkHandle` or `kInvalidBinNum` is `none`. `AS_ENFORCE` throws and
leaves the state as it is at that point; an index past the end of a vector and
a loop that cannot end are faults of their own.
-/

namespace DashInfer.Device

open Lib

abbrev ChunkHandle := Nat

def wordSize : Nat := 2 ^ 64
def kMinAllocationBits : Nat := 8
def kMinAllocationSize : Nat := 2 ^ kMinAllocationBits
def kNumBins : Nat := 21

/-- Subtraction of `size_t`. -/
def wordSub (a b : Nat) : Nat := (a + wordSize - b) % wordSize

inductive Fault where
  | enforce
  | outOfBounds
  | diverges
deriving DecidableEq, Repr

structure Chunk where
  size : Nat := 0
  requestedSize : Nat := 0
  /-- `-1` when the chunk is not in use. -/
  allocationId : Int := -1
  ptr : Nat := 0
  prev : Option ChunkHandle := none
  next : Option ChunkHandle := none
  binNum : Option Nat := none
  freedAtCount : Nat := 0
deriving DecidableEq, Repr

def Chunk.inUse (c : Chunk) : Bool := c.allocationId ≠ -1

/-- `AllocationRegion`; `handles` is the vector of `nHandles` entries. -/
structure Region where
  ptr : Nat
  memorySize : Nat
  handles : Nat → Option ChunkHandle := fun _ => none

namespace Region

def endPtr (r : Region) : Nat := r.ptr + r.memorySize

def nHandles (r : Region) : Nat := (r.memorySize + kMinAllocationSize - 1) / kMinAllocationSize

def indexFor (r : Region) (p : Nat) : Nat :=
  wordSub p r.ptr >>> kMinAllocationBits

def extend (r : Region) (size : Nat) : Region := { r with memorySize := r.memorySize + size }

def setHandle (r : Region) (p : Nat) (h : Option ChunkHandle) : Region :=
  { r with handles := Function.update r.handles (r.indexFor p) h }

end Region

/-- `BFCAllocator::Options` with the memory limit, and whether the device lets
adjacent regions be treated as one. -/
structure Config where
  memoryLimit : Nat
  allowGrowth : Bool := true
  garbageCollection : Bool := true
  coalesceRegions : Bool := false
  /-- `fragmentation_fraction * memory_limit_`, or 128 MiB where no fraction is set. -/
  maxInternalFragmentationBytes : Nat := 128 * 2 ^ 20
  limit_lt : memoryLimit < 2 ^ 63
  fragmentation_pos : 0 < maxInternalFragmentationBytes

/-- `SubAllocator::allocate` during one call: given the memory the allocator
holds, the device refuses or returns fresh memory. -/
structure SubAllocator where
  allocate : List (Nat × Nat) → Nat → Option Nat
  fresh : ∀ held bytes p, allocate held bytes = some p →
    0 < p ∧ p + bytes ≤ wordSize ∧ ∀ m ∈ held, p + bytes ≤ m.1 ∨ m.1 + m.2 ≤ p

structure AllocatorStats where
  numAllocs : Nat := 0
  bytesInUse : Int := 0
  peakBytesInUse : Int := 0
  largestAllocSize : Nat := 0

structure Allocator (E : OrderedSet ChunkHandle) where
  chunks : ChunkHandle → Chunk
  /-- `chunks_.size()`. -/
  chunkNum : Nat
  freeChunksList : Option ChunkHandle
  regions : List Region
  bins : Nat → E.Carrier
  currRegionAllocationBytes : Nat
  totalRegionAllocatedBytes : Nat
  nextAllocationId : Int
  stats : AllocatorStats

/-- `RoundedBytes`. -/
def roundedBytes (bytes : Nat) : Nat :=
  kMinAllocationSize * ((bytes + kMinAllocationSize - 1) % wordSize / kMinAllocationSize)

/-- `BinNumForSize`. -/
def binNumForSize (bytes : Nat) : Nat :=
  min (kNumBins - 1) (Nat.log2 (max bytes 256 >>> kMinAllocationBits))

/-- `ChunkComparator`: by size, then by address. -/
def chunkComparator (chunks : ChunkHandle → Chunk) (ha hb : ChunkHandle) : Bool :=
  if (chunks ha).size ≠ (chunks hb).size then (chunks ha).size < (chunks hb).size
  else (chunks ha).ptr < (chunks hb).ptr

/-- `while (rounded_bytes > curr) curr *= 2`; a word is zero after 64 doublings
and stays zero, so that a loop still running then does not end. -/
def growRegionBytes (rounded : Nat) : Nat → Nat → Option Nat
  | 0, curr => if rounded ≤ curr then some curr else none
  | fuel + 1, curr =>
      if rounded ≤ curr then some curr else growRegionBytes rounded fuel (curr * 2 % wordSize)

namespace Allocator

variable {E : OrderedSet ChunkHandle}

/-- The constructor. -/
def init (E : OrderedSet ChunkHandle) (cfg : Config) : Allocator E :=
  { chunks := fun _ => {}
    chunkNum := 0
    freeChunksList := none
    regions := []
    bins := fun _ => E.empty
    currRegionAllocationBytes :=
      if cfg.allowGrowth then roundedBytes (min cfg.memoryLimit (2 * 2 ^ 20))
      else roundedBytes cfg.memoryLimit
    totalRegionAllocatedBytes := 0
    nextAllocationId := 1
    stats := {} }

/-- The memory the device has handed out and not been given back. -/
def held (s : Allocator E) : List (Nat × Nat) := s.regions.map fun r => (r.ptr, r.memorySize)

/-- `memory_limit_ - total_region_allocated_bytes_`, rounded down. -/
def availableBytes (s : Allocator E) (cfg : Config) : Nat :=
  wordSub cfg.memoryLimit s.totalRegionAllocatedBytes / kMinAllocationSize * kMinAllocationSize

end Allocator

abbrev M (E : OrderedSet ChunkHandle) := EStateM Fault (Allocator E)

section Programs

variable {E : OrderedSet ChunkHandle}

def enforce (cond : Bool) : M E Unit :=
  if cond then pure () else throw .enforce

def chunkFromHandle (h : ChunkHandle) : M E Chunk := do
  let s ← get
  if h < s.chunkNum then pure (s.chunks h) else throw .outOfBounds

/-- Writes through the pointer that `ChunkFromHandle` returns. -/
def modifyChunk (h : ChunkHandle) (f : Chunk → Chunk) : M E Unit := do
  let c ← chunkFromHandle h
  modify fun s => { s with chunks := Function.update s.chunks h (f c) }

/-- `RegionFor`: `std::upper_bound` by `end_ptr`. -/
def regionFor (p : Nat) (regions : List Region) : Option Region :=
  regions.find? fun r => p < r.endPtr

/-- `get_handle`; a pointer above every region yields handle 0. -/
def getHandle (p : Nat) : M E (Option ChunkHandle) := do
  let s ← get
  match regionFor p s.regions with
  | none => pure (some 0)
  | some r => if r.indexFor p < r.nHandles then pure (r.handles (r.indexFor p)) else throw .outOfBounds

/-- The region that `RegionFor` finds, replaced. -/
def updateRegion (p : Nat) (f : Region → Region) : List Region → List Region
  | [] => []
  | r :: rest => if p < r.endPtr then f r :: rest else r :: updateRegion p f rest

/-- `set_handle`. -/
def setHandle (p : Nat) (h : Option ChunkHandle) : M E Unit := do
  let s ← get
  match regionFor p s.regions with
  | none => throw .outOfBounds
  | some r =>
      if r.indexFor p < r.nHandles then
        modify fun s => { s with regions := updateRegion p (·.setHandle p h) s.regions }
      else throw .outOfBounds

/-- `AllocateChunk`. -/
def allocateChunk : M E ChunkHandle := do
  let s ← get
  match s.freeChunksList with
  | some h => do
      let c ← chunkFromHandle h
      modify fun s => { s with freeChunksList := c.next }
      pure h
  | none => do
      modify fun s => { s with
        chunks := Function.update s.chunks s.chunkNum {}
        chunkNum := s.chunkNum + 1 }
      pure s.chunkNum

/-- `DeallocateChunk`. -/
def deallocateChunk (h : ChunkHandle) : M E Unit := do
  let s ← get
  modifyChunk h fun c => { c with
    allocationId := -1, binNum := none, next := s.freeChunksList }
  modify fun s => { s with freeChunksList := some h }

/-- `DeleteChunk`. -/
def deleteChunk (h : ChunkHandle) : M E Unit := do
  let c ← chunkFromHandle h
  setHandle c.ptr none
  deallocateChunk h

/-- `InsertFreeChunkIntoBin`. -/
def insertFreeChunkIntoBin (h : ChunkHandle) : M E Unit := do
  let c ← chunkFromHandle h
  enforce (!c.inUse && c.binNum.isNone)
  let bin := binNumForSize c.size
  modifyChunk h fun c => { c with binNum := some bin }
  modify fun s => { s with
    bins := Function.update s.bins bin (E.insert (chunkComparator s.chunks) (s.bins bin) h) }

/-- The handle taken out of a bin. -/
def eraseFromBin (bin : Nat) (h : ChunkHandle) : M E Unit := do
  modify fun s => { s with
    bins := Function.update s.bins bin (E.erase (chunkComparator s.chunks) (s.bins bin) h) }
  modifyChunk h fun c => { c with binNum := none }

/-- `RemoveFreeChunkIterFromBin`, the iterator pointing at `h` in the bin. -/
def removeFreeChunkIterFromBin (bin : Nat) (h : ChunkHandle) : M E Unit := do
  let c ← chunkFromHandle h
  enforce (!c.inUse && c.binNum.isSome)
  eraseFromBin bin h

/-- `RemoveFreeChunkFromBin`; the erased key must have been there. -/
def removeFreeChunkFromBin (h : ChunkHandle) : M E Unit := do
  let c ← chunkFromHandle h
  enforce (!c.inUse && c.binNum.isSome)
  let s ← get
  let bin := c.binNum.getD 0
  enforce ((E.toList (s.bins bin)).any fun y =>
    !chunkComparator s.chunks y h && !chunkComparator s.chunks h y)
  eraseFromBin bin h

/-- `MarkFree`. -/
def markFree (h : ChunkHandle) : M E Unit := do
  let c ← chunkFromHandle h
  enforce (c.inUse && c.binNum.isNone)
  modifyChunk h fun c => { c with allocationId := -1 }
  modify fun s => { s with
    stats := { s.stats with bytesInUse := s.stats.bytesInUse - c.size } }

/-- The link back from a neighbour, where there is one. -/
def setPrev (neighbor : Option ChunkHandle) (prev : ChunkHandle) : M E Unit :=
  match neighbor with
  | some h => modifyChunk h fun c => { c with prev := some prev }
  | none => pure ()

/-- `Merge`: the second chunk into the first. -/
def merge (h1 h2 : ChunkHandle) : M E Unit := do
  let c1 ← chunkFromHandle h1
  let c2 ← chunkFromHandle h2
  enforce (!c1.inUse && !c2.inUse)
  modifyChunk h1 fun c => { c with next := c2.next }
  enforce (c2.prev = some h1)
  setPrev c2.next h1
  modifyChunk h1 fun c => { c with
    size := c.size + c2.size, freedAtCount := max c.freedAtCount c2.freedAtCount }
  deleteChunk h2

/-- `TryToCoalesce`, the next chunk. -/
def coalesceNext (h : ChunkHandle) (ignoreFreedAt : Bool) : M E Unit := do
  let c ← chunkFromHandle h
  match c.next with
  | none => pure ()
  | some hn => do
      let n ← chunkFromHandle hn
      if !n.inUse && (n.freedAtCount = 0 || ignoreFreedAt) then do
        removeFreeChunkFromBin hn
        merge h hn
      else pure ()

/-- `TryToCoalesce`, the previous chunk. -/
def coalescePrev (h : ChunkHandle) (ignoreFreedAt : Bool) : M E ChunkHandle := do
  let c ← chunkFromHandle h
  match c.prev with
  | none => pure h
  | some hp => do
      let n ← chunkFromHandle hp
      if !n.inUse && (n.freedAtCount = 0 || ignoreFreedAt) then do
        removeFreeChunkFromBin hp
        merge hp h
        pure hp
      else pure h

/-- `TryToCoalesce`. -/
def tryToCoalesce (h : ChunkHandle) (ignoreFreedAt : Bool) : M E ChunkHandle := do
  let c ← chunkFromHandle h
  if !ignoreFreedAt && 0 < c.freedAtCount then pure h
  else do
    coalesceNext h ignoreFreedAt
    coalescePrev h ignoreFreedAt

/-- `SplitChunk`. -/
def splitChunk (h : ChunkHandle) (numBytes : Nat) : M E Unit := do
  let hNewChunk ← allocateChunk
  let c ← chunkFromHandle h
  enforce (!c.inUse && c.binNum.isNone)
  setHandle (c.ptr + numBytes) (some hNewChunk)
  modifyChunk hNewChunk fun n => { n with
    ptr := c.ptr + numBytes
    size := wordSub c.size numBytes
    allocationId := -1
    freedAtCount := c.freedAtCount
    prev := some h
    next := c.next }
  modifyChunk h fun c => { c with size := numBytes, next := some hNewChunk }
  setPrev c.next hNewChunk
  insertFreeChunkIntoBin hNewChunk

/-- The first chunk of a bin that fits. -/
def findInBin (rounded : Nat) : List ChunkHandle → M E (Option ChunkHandle)
  | [] => pure none
  | h :: rest => do
      let c ← chunkFromHandle h
      if rounded ≤ c.size then pure (some h) else findInBin rounded rest

/-- The end of `FindChunkPtr`: the chunk is in use from now on. -/
def claimChunk (h : ChunkHandle) (numBytes : Nat) : M E Nat := do
  let s ← get
  modifyChunk h fun c => { c with
    requestedSize := numBytes, allocationId := s.nextAllocationId }
  let c ← chunkFromHandle h
  modify fun s => { s with
    nextAllocationId := s.nextAllocationId + 1
    stats :=
      { numAllocs := s.stats.numAllocs + 1
        bytesInUse := s.stats.bytesInUse + c.size
        peakBytesInUse := max s.stats.peakBytesInUse (s.stats.bytesInUse + c.size)
        largestAllocSize := max s.stats.largestAllocSize c.size } }
  pure c.ptr

/-- What `FindChunkPtr` does with the chunk it has found. -/
def takeChunk (cfg : Config) (bin : Nat) (h : ChunkHandle) (rounded numBytes : Nat) :
    M E Nat := do
  removeFreeChunkIterFromBin bin h
  let c ← chunkFromHandle h
  if rounded * 2 % wordSize ≤ c.size ∨
      cfg.maxInternalFragmentationBytes ≤ wordSub c.size rounded then
    splitChunk h rounded
  claimChunk h numBytes

/-- `FindChunkPtr` over the given bins. -/
def searchBins (cfg : Config) (rounded numBytes : Nat) : List Nat → M E (Option Nat)
  | [] => pure none
  | bin :: rest => do
      let s ← get
      match ← findInBin rounded (E.toList (s.bins bin)) with
      | some h => some <$> takeChunk cfg bin h rounded numBytes
      | none => searchBins cfg rounded numBytes rest

/-- `FindChunkPtr`. -/
def findChunkPtr (cfg : Config) (binNum rounded numBytes : Nat) : M E (Option Nat) :=
  searchBins cfg rounded numBytes (List.range' binNum (kNumBins - binNum))

/-- `AddAllocationRegion`. -/
def addAllocationRegion (p : Nat) (size : Nat) (regions : List Region) : List Region :=
  regions.takeWhile (fun r => r.endPtr ≤ p) ++
    { ptr := p, memorySize := size } :: regions.dropWhile (fun r => r.endPtr ≤ p)

/-- `AddOrExtendAllocationRegion`, with the base of the region it extends. -/
def addOrExtendAllocationRegion (p : Nat) (size : Nat) (regions : List Region) :
    Option Nat × List Region :=
  match (regions.takeWhile fun r => r.endPtr ≤ p).getLast? with
  | some r =>
      if r.endPtr = p then
        (some r.ptr, (regions.takeWhile fun r => r.endPtr ≤ p).dropLast ++
          r.extend size :: regions.dropWhile fun r => r.endPtr ≤ p)
      else (none, addAllocationRegion p size regions)
  | none => (none, addAllocationRegion p size regions)

/-- The regions with the new memory, and the base of the region it extends. -/
def placeRegion (cfg : Config) (p size : Nat) (regions : List Region) :
    Option Nat × List Region :=
  if cfg.coalesceRegions then addOrExtendAllocationRegion p size regions
  else (none, addAllocationRegion p size regions)

/-- The last chunk of a chain. -/
def lastChunk : Nat → ChunkHandle → M E ChunkHandle
  | 0, _ => throw .diverges
  | fuel + 1, h => do
      let c ← chunkFromHandle h
      match c.next with
      | none => pure h
      | some n => lastChunk fuel n

/-- The new chunk linked behind the last one of the region that was extended. -/
def linkToExtended (base : Nat) (h : ChunkHandle) : M E Unit := do
  let s ← get
  match ← getHandle base with
  | none => throw .outOfBounds
  | some head => do
      let prev ← lastChunk s.chunkNum head
      modifyChunk h fun c => { c with prev := some prev }
      modifyChunk prev fun c => { c with next := some h }

/-- The chunk for all of the new memory. -/
def newRegionChunk (p bytes : Nat) : M E ChunkHandle := do
  let h ← allocateChunk
  modifyChunk h fun c => { c with
    ptr := p, size := bytes, allocationId := -1, prev := none, next := none, freedAtCount := 0 }
  pure h

/-- `Extend` once the device has returned memory. -/
def addRegionMemory (cfg : Config) (p : Nat) (bytes : Nat) : M E Unit := do
  modify fun s => { s with totalRegionAllocatedBytes := s.totalRegionAllocatedBytes + bytes }
  let s ← get
  let placed := placeRegion cfg p bytes s.regions
  modify fun s => { s with regions := placed.2 }
  let h ← newRegionChunk p bytes
  setHandle p (some h)
  match placed.1 with
  | some base => linkToExtended base h
  | none => pure ()
  insertFreeChunkIntoBin (← tryToCoalesce h false)

/-- `Extend`. -/
def extend (cfg : Config) (device : SubAllocator) (rounded : Nat) : M E Bool := do
  let s ← get
  if s.availableBytes cfg < rounded then pure false
  else
    match growRegionBytes rounded 64 s.currRegionAllocationBytes with
    | none => throw .diverges
    | some curr => do
        modify fun s => { s with currRegionAllocationBytes := curr }
        let bytes := min curr (s.availableBytes cfg)
        match device.allocate s.held bytes with
        | none => pure false
        | some p => do
            if rounded ≤ s.currRegionAllocationBytes then
              modify fun s => { s with currRegionAllocationBytes := curr * 2 % wordSize }
            addRegionMemory cfg p bytes
            pure true

/-- Whether a chunk of the chain is in use. -/
def anyUse : Nat → Option ChunkHandle → M E Bool
  | _, none => pure false
  | 0, some _ => throw .diverges
  | fuel + 1, some h => do
      let c ← chunkFromHandle h
      if c.inUse then pure true else anyUse fuel c.next

/-- The regions without a chunk in use. -/
def freeRegions : List Region → M E (List Region)
  | [] => pure []
  | r :: rest => do
      let s ← get
      let h ← getHandle r.ptr
      let used ← anyUse s.chunkNum h
      let free ← freeRegions rest
      pure (if used then free else r :: free)

/-- The chunks of a region that is given back. -/
def releaseChunks : Nat → Option ChunkHandle → M E Unit
  | _, none => pure ()
  | 0, some _ => throw .diverges
  | fuel + 1, some h => do
      let c ← chunkFromHandle h
      if c.binNum.isSome then removeFreeChunkFromBin h
      deleteChunk h
      releaseChunks fuel c.next

/-- The loop of `DeallocateRegions`, `i` being the position of the iterator. -/
def deallocateRegionsFrom (regionPtrs : List Nat) : Nat → Nat → M E Unit
  | 0, _ => pure ()
  | fuel + 1, i => do
      let s ← get
      match s.regions[i]? with
      | none => pure ()
      | some r =>
          if r.ptr ∈ regionPtrs then do
            releaseChunks s.chunkNum (← getHandle r.ptr)
            modify fun s => { s with
              totalRegionAllocatedBytes := wordSub s.totalRegionAllocatedBytes r.memorySize
              regions := s.regions.eraseIdx i }
            deallocateRegionsFrom regionPtrs fuel i
          else deallocateRegionsFrom regionPtrs fuel (i + 1)

/-- `DeallocateRegions`. -/
def deallocateRegions (regionPtrs : List Nat) : M E Unit := do
  let s ← get
  deallocateRegionsFrom regionPtrs s.regions.length 0

/-- `DeallocateFreeRegions`. -/
def deallocateFreeRegions (cfg : Config) (rounded : Nat) : M E Bool := do
  if !cfg.garbageCollection then pure false
  else do
    let s ← get
    let free ← freeRegions s.regions
    let totalFreeBytes := (free.map Region.memorySize).sum
    if totalFreeBytes = 0 then pure false
    else if wordSub cfg.memoryLimit s.totalRegionAllocatedBytes + totalFreeBytes < rounded then
      pure false
    else do
      deallocateRegions (free.map Region.ptr)
      pure true

/-- The second attempt: the device may make a larger region of what it gets back. -/
def allocateAfterReturn (cfg : Config) (device : SubAllocator) (rounded numBytes : Nat) :
    M E (Option Nat) := do
  if ← deallocateFreeRegions cfg rounded then
    if ← extend cfg device rounded then
      findChunkPtr cfg (binNumForSize rounded) rounded numBytes
    else pure none
  else pure none

/-- `AllocateRawInternal`. -/
def allocateRaw (cfg : Config) (device : SubAllocator) (numBytes : Nat) :
    M E (Option Nat) := do
  if numBytes = 0 then pure none
  else do
    let rounded := roundedBytes numBytes
    let binNum := binNumForSize rounded
    match ← findChunkPtr cfg binNum rounded numBytes with
    | some p => pure (some p)
    | none => do
        let found ← do
          if ← extend cfg device rounded then findChunkPtr cfg binNum rounded numBytes
          else pure none
        match found with
        | some p => pure (some p)
        | none => allocateAfterReturn cfg device rounded numBytes

/-- `DeallocateRawInternal`. -/
def deallocateRaw (p : Nat) : M E Unit := do
  if p = 0 then pure ()
  else do
    let h ← getHandle p
    if h = some 0 then pure ()
    else
      match h with
      | none => throw .enforce
      | some h => do
          markFree h
          insertFreeChunkIntoBin (← tryToCoalesce h false)

end Programs

end DashInfer.Device
