import Mathlib
import DashInfer.Device.Structure

/-!
The search of `Extend` for a region size. The size is a word that is doubled
and never reduced, also after regions went back to the device; once it has
wrapped to zero, doubling it further leads nowhere.
-/

namespace DashInfer.Device

open Lib

variable {E : OrderedSet ChunkHandle} {cfg : Config} {s : Session E}

theorem growRegionBytes_zero {rounded : Nat} (hpos : 0 < rounded) (fuel : Nat) :
    growRegionBytes rounded fuel 0 = none := by
  induction fuel with
  | zero => exact if_neg (Nat.not_le.mpr hpos)
  | succ fuel ih =>
      rw [growRegionBytes, if_neg (Nat.not_le.mpr hpos), Nat.zero_mul, Nat.zero_mod]
      exact ih

/-- A size below the request is doubled without wrapping. -/
theorem growRegionBytes_isSome {rounded fuel curr : Nat} (hlimit : rounded ≤ 2 ^ 63)
    (hfuel : rounded ≤ curr * 2 ^ fuel) : (growRegionBytes rounded fuel curr).isSome = true := by
  induction fuel generalizing curr with
  | zero =>
      rw [growRegionBytes, if_pos (by simpa using hfuel)]
      rfl
  | succ fuel ih =>
      rw [growRegionBytes]
      split
      · rfl
      · have hword : curr * 2 % wordSize = curr * 2 := by
          apply Nat.mod_eq_of_lt
          rw [wordSize]
          omega
        rw [hword]
        apply ih
        rw [Nat.mul_assoc, ← Nat.pow_succ']
        exact hfuel

/-- The search does not end exactly for a size of zero. -/
theorem sizeDiverges_iff {heap : Allocator E} {rounded : Nat} (hpos : 0 < rounded)
    (havail : rounded ≤ heap.availableBytes cfg) (hlimit : heap.availableBytes cfg ≤ 2 ^ 63) :
    SizeDiverges cfg heap rounded ↔ heap.currRegionAllocationBytes = 0 := by
  constructor
  · rintro ⟨_, hnone⟩
    by_contra hcurr
    have hsome : (growRegionBytes rounded 64 heap.currRegionAllocationBytes).isSome = true :=
      growRegionBytes_isSome (by omega) (by omega)
    rw [hnone] at hsome
    cases hsome
  · intro hcurr
    refine ⟨havail, ?_⟩
    rw [hcurr]
    exact growRegionBytes_zero hpos 64

/-- `Extend` returns and keeps to the limit, and where it reports success there
is a region that can hold the request, with a free chunk for it. -/
def Extends (cfg : Config) (device : SubAllocator) (heap : Allocator E) (rounded : Nat) : Prop :=
  ∃ ok t, (extend cfg device rounded).run heap = .ok ok t ∧
    t.totalRegionAllocatedBytes ≤ cfg.memoryLimit ∧
    (ok = true → ∃ r ∈ t.regions, rounded ≤ r.memorySize ∧
      ∃ c ∈ t.chain r, (t.chunks c).inUse = false ∧ rounded ≤ (t.chunks c).size)

theorem extended_region {spans : List Span} {rounded : Nat} {t : Allocator E}
    (h : Extended cfg spans rounded t) :
    t.totalRegionAllocatedBytes ≤ cfg.memoryLimit ∧
      ∃ r ∈ t.regions, rounded ≤ r.memorySize ∧
        ∃ c ∈ t.chain r, (t.chunks c).inUse = false ∧ rounded ≤ (t.chunks c).size := by
  obtain ⟨spans', unused', hinv, _, b, hb, hfree, hsize⟩ := h
  have hl := hinv.shape.layout
  obtain ⟨e, he, hbe⟩ := List.mem_flatMap.mp hb
  have hin := (hl.spanOk e he).within hbe
  obtain ⟨hused, hchunk, _⟩ := hl.chunk_data hb
  refine ⟨hinv.shape.counted.limit, e.region, hl.regions ▸ List.mem_map_of_mem he, ?_, b.handle,
    ?_, hused.trans hfree, by omega⟩
  · have hend : e.region.endPtr = e.region.ptr + e.region.memorySize := rfl
    omega
  · rw [hl.chain_eq he]
    exact List.mem_map_of_mem hbe

theorem availableBytes_le {heap : Allocator E} {spans : List Span} {unused : List ChunkHandle}
    (h : Inv cfg heap spans unused) : heap.availableBytes cfg ≤ 2 ^ 63 := by
  have hlt := cfg.limit_lt
  rw [h.availableBytes_eq]
  calc (cfg.memoryLimit - heap.totalRegionAllocatedBytes) / kMinAllocationSize *
        kMinAllocationSize
      ≤ cfg.memoryLimit - heap.totalRegionAllocatedBytes := Nat.div_mul_le_self _ _
    _ ≤ cfg.memoryLimit := Nat.sub_le _ _
    _ ≤ 2 ^ 63 := Nat.le_of_lt hlt

/-- With a region size of zero the search runs on, and nothing is returned. -/
theorem not_extends {heap : Allocator E} {rounded : Nat} (device : SubAllocator)
    (hpos : 0 < rounded) (hcurr : heap.currRegionAllocationBytes = 0)
    (hroom : rounded ≤ heap.availableBytes cfg) : ¬ Extends cfg device heap rounded := by
  rintro ⟨ok, t, hrun, _⟩
  have hgrow : growRegionBytes rounded 64 heap.currRegionAllocationBytes = none := by
    rw [hcurr]
    exact growRegionBytes_zero hpos 64
  have hthrow : Post (extend cfg device rounded) heap (fun _ _ => False) (fun _ _ => True) := by
    rw [extend, post_bind, post_get, if_neg (Nat.not_lt.mpr hroom), hgrow]
    exact trivial
  exact hthrow.of_ok hrun

/-- Otherwise it returns, and keeps what success promises. -/
theorem extends_of {heap : Allocator E} {spans : List Span} {unused : List ChunkHandle}
    {rounded : Nat} (hinv : Inv cfg heap spans unused) (device : SubAllocator) (hpos : 0 < rounded)
    (hcond : heap.currRegionAllocationBytes ≠ 0 ∨ heap.availableBytes cfg < rounded) :
    Extends cfg device heap rounded := by
  have hpost : Post (extend cfg device rounded) heap _ _ := post_extend hinv hpos
  cases hrun : (extend cfg device rounded).run heap with
  | error e t =>
      obtain ⟨_, _, hdiverges⟩ := hpost.of_error hrun
      have hzero := (sizeDiverges_iff hpos hdiverges.1 (availableBytes_le hinv)).mp hdiverges
      rcases hcond with hcurr | hroom
      · exact absurd hzero hcurr
      · exact absurd hdiverges.1 (Nat.not_le.mpr hroom)
  | ok ok t =>
      have hok := hpost.of_ok hrun
      cases ok with
      | true =>
          obtain ⟨hle, hregion⟩ := extended_region hok
          exact ⟨true, t, hrun, hle, fun _ => hregion⟩
      | false =>
          exact ⟨false, t, hrun, hok.1.shape.counted.limit, fun hfalse => by cases hfalse⟩

/-- In every state of every run, whatever the client and the device do,
`Extend` does what it should exactly if the region size has not been doubled to
zero, or the request exceeds what is left under the limit. -/
theorem extends_iff {guard : Session E → Call → Prop} (h : Session.Reaches cfg guard s)
    (device : SubAllocator) {rounded : Nat} (hpos : 0 < rounded) :
    Extends cfg device s.heap rounded ↔
      s.heap.currRegionAllocationBytes ≠ 0 ∨ s.heap.availableBytes cfg < rounded := by
  obtain ⟨spans, unused, hinv⟩ := Session.inv_of_reaches h
  refine ⟨fun hextends => ?_, extends_of hinv device hpos⟩
  by_contra hnot
  obtain ⟨hcurr, hroom⟩ := not_or.mp hnot
  exact not_extends device hpos (Decidable.of_not_not hcurr) (Nat.le_of_not_lt hroom) hextends

theorem extends_iff_start :
    Session.Reaches smallConfig Session.FreesLive
        (Session.start (listSet ChunkHandle) smallConfig) ∧
      Extends smallConfig (oneRegion 4096 (by decide))
        (Session.start (listSet ChunkHandle) smallConfig).heap 1024 := by
  have hreach : Session.Reaches smallConfig Session.FreesLive
      (Session.start (listSet ChunkHandle) smallConfig) := .init rfl
  exact ⟨hreach, (extends_iff hreach (oneRegion 4096 (by decide)) (by decide)).mpr
    (Or.inl (by decide))⟩

/-- The end of the memory that is held. -/
def topOf (base : Nat) (held : List (Nat × Nat)) : Nat :=
  held.foldr (fun m top => max (m.1 + m.2) top) base

theorem le_topOf (base : Nat) (held : List (Nat × Nat)) :
    base ≤ topOf base held ∧ ∀ m ∈ held, m.1 + m.2 ≤ topOf base held := by
  induction held with
  | nil => exact ⟨Nat.le_refl _, fun _ hm => absurd hm List.not_mem_nil⟩
  | cons m rest ih =>
      obtain ⟨hbase, hrest⟩ := ih
      simp only [topOf, List.foldr_cons] at hbase hrest ⊢
      refine ⟨by omega, ?_⟩
      intro x hx
      rcases List.mem_cons.mp hx with rfl | hx
      · omega
      · have hle := hrest x hx
        omega

/-- The end of what is held is free for a request that does not reach past the
address space. -/
theorem topOf_fresh {base : Nat} (hbase : 0 < base) (held : List (Nat × Nat)) (bytes p : Nat)
    (h : (if topOf base held + bytes ≤ wordSize then some (topOf base held) else none) = some p) :
    0 < p ∧ p + bytes ≤ wordSize ∧ ∀ m ∈ held, p + bytes ≤ m.1 ∨ m.1 + m.2 ≤ p := by
  simp only [Option.ite_none_right_eq_some, Option.some.injEq] at h
  obtain ⟨htop, rfl⟩ := h
  obtain ⟨hle, hheld⟩ := le_topOf base held
  exact ⟨by omega, htop, fun m hm => Or.inr (hheld m hm)⟩

/-- A device that hands out memory above what is held. -/
def aboveHeld (base : Nat) (hbase : 0 < base) : SubAllocator where
  allocate held bytes :=
    if topOf base held + bytes ≤ wordSize then some (topOf base held) else none
  fresh := topOf_fresh hbase

/-- A limit of 16 GiB. -/
def largeConfig : Config where
  memoryLimit := 2 ^ 34
  limit_lt := Nat.pow_lt_pow_right Nat.one_lt_two (by decide)
  fragmentation_pos := smallConfig.fragmentation_pos

theorem page_pos : 0 < 4096 := by decide

theorem twoMiB_lt : 2 ^ 21 < 2 ^ 63 := by decide

/-- 2 MiB that are kept, then 42 times 2 MiB that go back to the device. -/
def returningCalls : List Call :=
  .alloc ⟨2 ^ 21, twoMiB_lt⟩ (aboveHeld 4096 page_pos) :: (List.replicate 42
    [.alloc ⟨2 ^ 21, twoMiB_lt⟩ (aboveHeld 4096 page_pos), .free (4096 + 2 ^ 21),
      .realFree]).flatten

theorem runsUnder_true (s : Session E) (calls : List Call) :
    Session.RunsUnder cfg (fun _ _ => True) s calls := by
  induction calls generalizing s with
  | nil => exact trivial
  | cons call rest ih => exact ⟨trivial, ih _⟩

/-- After 43 doublings the search for a region of 2 MiB does not end, with most
of the memory free. -/
theorem search_does_not_end :
    let s := (Session.start (listSet ChunkHandle) largeConfig).run largeConfig returningCalls
    Session.Reaches largeConfig (fun _ _ => True) s ∧ s.live = [(4096, 2 ^ 21)] ∧
      2 ^ 33 ≤ s.heap.availableBytes largeConfig ∧
      ¬ Extends largeConfig (aboveHeld 4096 (by decide)) s.heap (2 ^ 21) := by
  have hreach : Session.Reaches largeConfig (fun _ _ => True)
      ((Session.start (listSet ChunkHandle) largeConfig).run largeConfig returningCalls) :=
    Session.reaches_run (.init rfl) returningCalls (runsUnder_true _ _)
  have hstate : ((Session.start (listSet ChunkHandle) largeConfig).run largeConfig
        returningCalls).heap.currRegionAllocationBytes = 0 ∧
      ((Session.start (listSet ChunkHandle) largeConfig).run largeConfig
        returningCalls).live = [(4096, 2 ^ 21)] ∧
      2 ^ 33 ≤ ((Session.start (listSet ChunkHandle) largeConfig).run largeConfig
        returningCalls).heap.availableBytes largeConfig := by
    decide +kernel
  obtain ⟨hcurr, hlive, hroom⟩ := hstate
  refine ⟨hreach, hlive, hroom, not_extends _ (Nat.two_pow_pos 21) hcurr ?_⟩
  exact Nat.le_trans (Nat.pow_le_pow_right Nat.two_pos (by decide)) hroom

end DashInfer.Device
