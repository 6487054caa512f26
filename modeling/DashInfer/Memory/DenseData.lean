import Mathlib

/-!
`DenseData`: one block of memory that grows. `Resize` gives the old block back before
it asks for the new one, and the pointer keeps its value where the allocator fails.
-/

namespace DashInfer.Memory

/-- The statuses `Resize` and the allocators return. -/
inductive AllocStatus
  | success | memoryError
deriving DecidableEq, Repr

/-- What `Alloc` does: it fails and leaves the pointer, or stores a null pointer (no
bytes are asked for), or a new block. -/
inductive AllocResult
  | failed | null | block
deriving DecidableEq, Repr

/-- The blocks that were handed out, numbered in order, and those given back. -/
structure Handed where
  next : Nat
  freed : List Nat
deriving DecidableEq, Repr

/-- A `DenseData` with the memory it works on. -/
structure DenseData where
  nbytes : Int
  rawData : Option Nat
  /-- `deleter_` is set. -/
  deleter : Bool
  blocks : Handed
deriving DecidableEq, Repr

/-- One call of `Resize`, with what the allocator does in it. -/
structure ResizeCall where
  nbytes : Int
  freeOk : Bool
  alloc : AllocResult
deriving DecidableEq, Repr

namespace DenseData

/-- `deleter_(raw_data_)` or `allocator_->Free(raw_data_)`, which leave the pointer. -/
def giveBack (block : Nat) (freeOk : Bool) (d : DenseData) : DenseData × AllocStatus :=
  if d.deleter = true then
    ({ d with deleter := false, blocks.freed := block :: d.blocks.freed }, .success)
  else if freeOk = true then
    ({ d with blocks.freed := block :: d.blocks.freed }, .success)
  else (d, .memoryError)

/-- `allocator_->Alloc(&raw_data_, nbytes, name_)` and the store of the size. -/
def take (nbytes : Int) (d : DenseData) : AllocResult → DenseData × AllocStatus
  | .failed => (d, .memoryError)
  | .null => ({ d with rawData := none, nbytes }, .success)
  | .block =>
      ({ d with rawData := some d.blocks.next, nbytes, blocks.next := d.blocks.next + 1 }, .success)

/-- `Resize`. -/
def resize (call : ResizeCall) (d : DenseData) : DenseData × AllocStatus :=
  if call.nbytes ≤ d.nbytes then (d, .success)
  else
    match d.rawData with
    | none => d.take call.nbytes call.alloc
    | some block =>
        match d.giveBack block call.freeOk with
        | (d, .memoryError) => (d, .memoryError)
        | (d, .success) => d.take call.nbytes call.alloc

/-- `~DenseData`. -/
def destroy (freeOk : Bool) (d : DenseData) : DenseData :=
  match d.rawData with
  | none => d
  | some block => (d.giveBack block freeOk).1

/-- A constructor that takes a block of the allocator, or none for no bytes, or one
that is handed a block. -/
def construct (nbytes : Int) (hasBlock deleter : Bool) : DenseData where
  nbytes := nbytes
  rawData := if hasBlock = true then some 0 else none
  deleter := deleter
  blocks := ⟨if hasBlock = true then 1 else 0, []⟩

/-- Some calls of `Resize`, one after the other. -/
def run (calls : List ResizeCall) (d : DenseData) : DenseData :=
  calls.foldl (fun d call => (d.resize call).1) d

/-- The object does not refer to a block that was given back. -/
def RefersToOwn (d : DenseData) : Prop := ∀ block ∈ d.rawData, block ∉ d.blocks.freed

/-- In a whole life the object never refers to a block it gave back, and in the end
every block was given back once. -/
structure OwnsBlock (d : DenseData) (calls : List ResizeCall) (freeOk : Bool) : Prop where
  refers : ∀ done, done <+: calls → (d.run done).RefersToOwn
  once : ∀ block < ((d.run calls).destroy freeOk).blocks.next,
    ((d.run calls).destroy freeOk).blocks.freed.count block = 1

/-! When a block is lost. -/

/-- The old block goes back and no new one comes. -/
def LosesBlock (call : ResizeCall) (d : DenseData) : Prop :=
  d.nbytes < call.nbytes ∧ d.rawData.isSome = true ∧ (d.deleter = true ∨ call.freeOk = true) ∧
    call.alloc = .failed

/-- No growing call of the life fails to allocate behind a block that went back, and
the last block is taken back. -/
def KeepsBlocks (d : DenseData) (calls : List ResizeCall) (freeOk : Bool) : Prop :=
  (∀ done call, done ++ [call] <+: calls → ¬ LosesBlock call (d.run done)) ∧
    ((d.run calls).rawData.isSome = true → (d.run calls).deleter = true ∨ freeOk = true)

/-- Every block but the one the object refers to was given back once. -/
structure Owned (d : DenseData) : Prop where
  once : ∀ block < d.blocks.next,
    d.blocks.freed.count block = if d.rawData = some block then 0 else 1
  freed : ∀ block ∈ d.blocks.freed, block < d.blocks.next
  raw : ∀ block ∈ d.rawData, block < d.blocks.next

theorem owned_construct (nbytes : Int) (hasBlock deleter : Bool) :
    (construct nbytes hasBlock deleter).Owned := by
  cases hasBlock
  · constructor <;> simp [construct]
  · constructor <;> simp [construct]

theorem Owned.refersToOwn {d : DenseData} (h : d.Owned) : d.RefersToOwn := by
  intro block hblock
  have hcount := h.once block (h.raw block hblock)
  rw [if_pos (Option.mem_def.mp hblock)] at hcount
  exact List.count_eq_zero.mp hcount

/-- A block that goes back, with the pointer cleared, leaves every block given back once. -/
theorem Owned.givenBack {d : DenseData} {block : Nat} (h : d.Owned) (hraw : d.rawData = some block) :
    Owned { d with rawData := none, blocks.freed := block :: d.blocks.freed } := by
  constructor
  · intro other hother
    have hcount := h.once other hother
    simp only [hraw, Option.some.injEq, List.count_cons, beq_iff_eq] at hcount ⊢
    split at hcount <;> simp_all
  · intro other hother
    rcases List.mem_cons.mp hother with rfl | hother
    · exact h.raw other hraw
    · exact h.freed other hother
  · intro other hother
    cases hother

/-- A new pointer behind none. -/
theorem Owned.taken {d : DenseData} (h : d.Owned) (hraw : d.rawData = none) (nbytes : Int)
    (result : AllocResult) : (d.take nbytes result).1.Owned := by
  have hfreed : d.blocks.next ∉ d.blocks.freed := fun hmem => Nat.lt_irrefl _ (h.freed _ hmem)
  cases result with
  | failed => exact h
  | null =>
      constructor
      · intro block hblock
        have hcount := h.once block hblock
        rwa [hraw] at hcount
      · exact h.freed
      · intro block hblock
        cases hblock
  | block =>
      constructor
      · intro block hblock
        rcases Nat.lt_succ_iff_lt_or_eq.mp hblock with hlt | rfl
        · have hcount := h.once block hlt
          rw [hraw, if_neg (by simp)] at hcount
          have hne : d.blocks.next ≠ block := by omega
          simp [take, hcount, hne]
        · simp [take, List.count_eq_zero.mpr hfreed]
      · intro block hblock
        exact Nat.lt_succ_of_lt (h.freed block hblock)
      · intro block hblock
        cases hblock
        exact Nat.lt_succ_self _

theorem Owned.congr {d d' : DenseData} (h : d.Owned) (hraw : d'.rawData = d.rawData)
    (hblocks : d'.blocks = d.blocks) : d'.Owned := by
  constructor
  · rw [hraw, hblocks]
    exact h.once
  · rw [hblocks]
    exact h.freed
  · rw [hraw, hblocks]
    exact h.raw

/-- What a block that goes back changes. -/
theorem giveBack_eq (block : Nat) (freeOk : Bool) (d : DenseData) :
    (d.deleter = true ∨ freeOk = true) ∧ (d.giveBack block freeOk).2 = .success ∧
        (d.giveBack block freeOk).1 =
          { d with deleter := false, blocks.freed := block :: d.blocks.freed } ∨
      ¬ (d.deleter = true ∨ freeOk = true) ∧ d.giveBack block freeOk = (d, .memoryError) := by
  unfold giveBack
  cases hdeleter : d.deleter
  · cases freeOk
    · right
      simp
    · left
      simp [← hdeleter]
  · left
    simp

/-- A successful `Alloc` overwrites the pointer. -/
theorem take_forget (d : DenseData) (nbytes : Int) {result : AllocResult}
    (h : result ≠ .failed) : d.take nbytes result = { d with rawData := none }.take nbytes result := by
  cases result with
  | failed => exact absurd rfl h
  | null => rfl
  | block => rfl

/-- One call keeps the invariant, unless it loses a block. -/
theorem Owned.resize {d : DenseData} (h : d.Owned) {call : ResizeCall}
    (hkeeps : ¬ LosesBlock call d) : (d.resize call).1.Owned := by
  unfold DenseData.resize
  split
  · exact h
  · rename_i hgrows
    split
    · rename_i hraw
      exact h.taken hraw _ _
    · rename_i block hraw
      rcases giveBack_eq block call.freeOk d with ⟨hok, hstatus, hback⟩ | ⟨-, hback⟩
      · have halloc : call.alloc ≠ .failed := fun hfailed =>
          hkeeps ⟨not_le.mp hgrows, by rw [hraw]; rfl, hok, hfailed⟩
        rw [← Prod.eta (d.giveBack block call.freeOk), hstatus, hback]
        dsimp only
        rw [take_forget _ _ halloc]
        apply Owned.taken _ rfl
        exact (h.givenBack hraw).congr rfl rfl
      · rw [hback]
        exact h

/-- Behind a call that loses a block the object refers to a block that went back. -/
theorem not_refersToOwn_of_losesBlock {d : DenseData} {call : ResizeCall}
    (h : LosesBlock call d) : ¬ (d.resize call).1.RefersToOwn := by
  obtain ⟨hgrows, hsome, hok, hfailed⟩ := h
  obtain ⟨block, hraw⟩ := Option.isSome_iff_exists.mp hsome
  intro hrefers
  rcases giveBack_eq block call.freeOk d with ⟨-, hstatus, hback⟩ | ⟨hnot, -⟩
  · have hresize : (d.resize call).1 =
        { d with deleter := false, blocks.freed := block :: d.blocks.freed } := by
      unfold DenseData.resize
      rw [if_neg (not_le.mpr hgrows), hraw]
      dsimp only
      rw [← Prod.eta (d.giveBack block call.freeOk), hstatus, hback, hfailed]
      simp only [take, hraw]
    rw [hresize] at hrefers
    exact hrefers block hraw List.mem_cons_self
  · exact hnot hok

theorem run_concat (done : List ResizeCall) (call : ResizeCall) (d : DenseData) :
    d.run (done ++ [call]) = ((d.run done).resize call).1 := by
  simp [run, List.foldl_append]

/-- Calls that lose no block keep the invariant. -/
theorem Owned.run {d : DenseData} (h : d.Owned) {calls : List ResizeCall}
    (hkeeps : ∀ done call, done ++ [call] <+: calls → ¬ LosesBlock call (d.run done)) :
    ∀ done, done <+: calls → (d.run done).Owned := by
  intro done
  induction done using List.reverseRecOn with
  | nil =>
      intro _
      exact h
  | append_singleton done call ih =>
      intro hdone
      rw [run_concat]
      exact (ih ((List.prefix_append done [call]).trans hdone)).resize (hkeeps done call hdone)

/-- An owned block is given back once by the destructor, if it is taken. -/
theorem Owned.destroy_once_iff {d : DenseData} (h : d.Owned) (freeOk : Bool) :
    (∀ block < (d.destroy freeOk).blocks.next, (d.destroy freeOk).blocks.freed.count block = 1) ↔
      (d.rawData.isSome = true → d.deleter = true ∨ freeOk = true) := by
  unfold destroy
  split
  · rename_i hraw
    constructor
    · intro _ hsome
      rw [hraw] at hsome
      cases hsome
    · intro _ block hblock
      have hcount := h.once block hblock
      rwa [hraw] at hcount
  · rename_i block hraw
    rcases giveBack_eq block freeOk d with ⟨hok, -, hback⟩ | ⟨hnot, hback⟩
    · constructor
      · intro _ _
        exact hok
      · intro _ other hother
        rw [hback] at hother ⊢
        have hcount := (h.givenBack hraw).once other hother
        simpa using hcount
    · constructor
      · intro hall
        have hcount := hall block (by rw [hback]; exact h.raw block hraw)
        rw [hback, h.once block (h.raw block hraw), if_pos hraw] at hcount
        cases hcount
      · intro hcond
        exact absurd (hcond (by rw [hraw]; rfl)) hnot

/-- A `DenseData` owns its block through its whole life just where no growing call
fails to allocate behind a block that went back, and the last block is taken back. -/
theorem ownsBlock_iff (nbytes : Int) (hasBlock deleter : Bool) (calls : List ResizeCall)
    (freeOk : Bool) :
    (construct nbytes hasBlock deleter).OwnsBlock calls freeOk ↔
      (construct nbytes hasBlock deleter).KeepsBlocks calls freeOk := by
  have hstart := owned_construct nbytes hasBlock deleter
  generalize construct nbytes hasBlock deleter = d at hstart ⊢
  constructor
  · intro h
    have hkeeps : ∀ done call, done ++ [call] <+: calls → ¬ LosesBlock call (d.run done) := by
      intro done call hdone hloses
      apply not_refersToOwn_of_losesBlock hloses
      rw [← run_concat]
      exact h.refers _ hdone
    exact ⟨hkeeps, ((hstart.run hkeeps _ List.prefix_rfl).destroy_once_iff freeOk).mp h.once⟩
  · rintro ⟨hkeeps, hlast⟩
    have howned := hstart.run hkeeps
    exact ⟨fun done hdone => (howned done hdone).refersToOwn,
      ((howned _ List.prefix_rfl).destroy_once_iff freeOk).mpr hlast⟩

/-- A block of four bytes, and eight that are not there: the block goes back, the
destructor gives it back again. -/
theorem failed_growth_dangles :
    ¬ (construct 4 true false).OwnsBlock [⟨8, true, .failed⟩] true := by
  intro h
  have hrefers := h.refers _ List.prefix_rfl
  exact hrefers 0 rfl List.mem_cons_self

end DenseData

end DashInfer.Memory
