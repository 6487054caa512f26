import DashInfer.Cache.SwapStates

/-!
The CPU frames over a swap-out. Allocations take whole nodes' worth of free
frames until one fails; the failing one takes the K half and leaves it with
nobody when a half is all that is left. Inserting the batch then turns pending
nodes into table nodes. So the frames that are free or belong to table nodes
stay the same over a swap-out, unless it asks for one node too many while half
a node's frames remain.
-/

namespace DashInfer.Cache

open Lib CacheUnion PrefixCacheManager

variable {E : OrderedSet NodeId} {D : Type} {cfg : Config} {s t : State E D}
  {batch : List NodeId}

namespace CacheUnion

/-- The frames that are free or belong to nodes of the table. -/
def frames (cfg : Config) (u : CacheUnion E) : Nat := u.free + cfg.spanPerNode * u.size

/-- The hashes that a swap-out allocates a node for. The first allocation may
take an entry out of the table. -/
def swapClaims (u : CacheUnion E) : List Hash → List Hash
  | [] => []
  | hash :: rest =>
      if (u.lookup hash).isSome then u.swapClaims rest
      else hash :: rest.filter (fun other =>
        ((dropEntry u.hashTable (allocVictim u)).lookup other).isNone)

/-- `need` nodes are more than there are frames for, and of the frames that
are left over one half of a node can be claimed. -/
def RunsShort (cfg : Config) (u : CacheUnion E) (need : Nat) : Prop :=
  cfg.layerNum ≤ u.free % cfg.spanPerNode ∧ u.free / cfg.spanPerNode < need

/-- A swap-out of the hashes asks for one node too many. In a full table the
first node takes the frames of the node it replaces. -/
def Overruns (cfg : Config) (u : CacheUnion E) (hashes : List Hash) : Prop :=
  (u.size < u.capacity ∧ u.RunsShort cfg (u.swapClaims hashes).length) ∨
    (u.Evicts ∧ u.VictimCached ∧ u.RunsShort cfg ((u.swapClaims hashes).length - 1))

end CacheUnion

/-- After `taken` allocations out of `need`: nothing but the new nodes' frames
is gone, unless the frames ran short. -/
def Settles (cfg : Config) (u u' : CacheUnion E) (taken need : Nat) : Prop :=
  (u'.free + cfg.spanPerNode * taken = u.free ∧ ¬ u.RunsShort cfg need) ∨
    (u'.free + cfg.spanPerNode * taken + cfg.layerNum = u.free ∧ u.RunsShort cfg need)

theorem RunsShort.congr {u u' : CacheUnion E} (hfree : u'.free = u.free) (need : Nat) :
    u'.RunsShort cfg need ↔ u.RunsShort cfg need := by
  unfold RunsShort
  rw [hfree]

theorem settles_of_free {u u' v : CacheUnion E} (hfree : u'.free = u.free) {taken need : Nat} :
    Settles cfg u' v taken need ↔ Settles cfg u v taken need := by
  unfold Settles
  rw [RunsShort.congr hfree, hfree]

/-- A node's frames fewer, a node fewer to allocate. -/
theorem RunsShort.step {u u' : CacheUnion E} (hfree : u'.free + cfg.spanPerNode = u.free)
    (need : Nat) : u'.RunsShort cfg need ↔ u.RunsShort cfg (need + 1) := by
  have hpos : 0 < cfg.spanPerNode := Nat.mul_pos Nat.two_pos cfg.layerNum_pos
  unfold RunsShort
  rw [← hfree, Nat.add_mod_right, Nat.add_div_right _ hpos]
  omega

theorem Settles.step {u u' v : CacheUnion E} {taken need : Nat}
    (hfree : u'.free + cfg.spanPerNode = u.free) (h : Settles cfg u' v taken need) :
    Settles cfg u v (taken + 1) (need + 1) := by
  unfold Settles at h ⊢
  rw [RunsShort.step hfree] at h
  rw [Nat.mul_succ]
  rcases h with ⟨hsum, hshort⟩ | ⟨hsum, hshort⟩
  · exact Or.inl ⟨by omega, hshort⟩
  · exact Or.inr ⟨by omega, hshort⟩

/-- A refused allocation in a table with room. -/
private theorem settles_of_refused (h : CpuInv cfg s.cpu batch [])
    (hroom : s.cpu.union.size < s.cpu.union.capacity) (hfail : ¬ s.cpu.union.Allocates cfg)
    (hkept : (s.cpu.union.HalfClaims cfg ∧
        t.cpu.union.free + cfg.layerNum = s.cpu.union.free) ∨
      (¬ s.cpu.union.HalfClaims cfg ∧ t = s)) (need : Nat) :
    Settles cfg s.cpu.union t.cpu.union 0 (need + 1) := by
  have hlayer := cfg.layerNum_pos
  have hnode : cfg.spanPerNode = 2 * cfg.layerNum := rfl
  have hlt : s.cpu.union.free < cfg.spanPerNode := by
    by_contra hle
    exact hfail (Or.inl ⟨hroom, by omega, Nat.not_lt.mp hle⟩)
  have hshort : s.cpu.union.RunsShort cfg (need + 1) ↔ s.cpu.union.HalfClaims cfg := by
    unfold RunsShort HalfClaims
    rw [Nat.mod_eq_of_lt hlt, Nat.div_eq_of_lt hlt]
    exact ⟨fun hle => ⟨hroom, hle.1, hlt⟩, fun hhalf => ⟨hhalf.2.1, Nat.succ_pos _⟩⟩
  unfold Settles
  rw [hshort, Nat.mul_zero, Nat.add_zero]
  rcases hkept with ⟨hhalf, hfree⟩ | ⟨hhalf, rfl⟩
  · exact Or.inr ⟨hfree, hhalf⟩
  · exact Or.inl ⟨rfl, hhalf⟩

theorem findVictim_congr {u u' : CacheUnion E} (hevictor : u'.evictor = u.evictor)
    (hhash : ∀ n, (u'.nodes n).hash = (u.nodes n).hash) : u'.findVictim = u.findVictim := by
  unfold findVictim candidates
  rw [hevictor]
  exact congrArg (fun f => Option.map f _) (funext hhash)

/-- A source the table has already: its entry takes over the timestamp. -/
def State.touched (s : State E D) (hash : Hash) (src : NodeId) : State E D :=
  { s with cpu := s.cpu.updateNodeTs hash (s.gpu.union.nodes src).lastAccessTime }

theorem kept_touched (s : State E D) (hash : Hash) (src : NodeId) :
    Kept s.cpu.union (s.touched hash src).cpu.union :=
  kept_updateNodeTs _ hash

/-- One round of the allocation phase. -/
private theorem post_collectSwapOut_cons {out : SpanId → Prop} {hash : Hash} {rest : List Hash}
    {src : NodeId} {Q : List (NodeId × NodeId) → State E D → Prop}
    {X : Fault → State E D → Prop} (hgpu : Wf cfg.layerNum s.gpu.union out)
    (hl : s.gpu.union.lookup hash = some src) :
    Post (collectSwapOut gpuAt (hash :: rest)) s Q X ↔
      if (s.cpu.union.lookup hash).isSome then
        Post (collectSwapOut gpuAt rest) (s.touched hash src) Q X
      else
        Post (allocCpuNode cfg.layerNum (s.gpu.union.nodes src).prefixLen
          (s.gpu.union.nodes src).lastAccessTime hash) s
          (fun result t =>
            match result with
            | none => Q [] t
            | some n =>
                Post (collectSwapOut gpuAt rest) t (fun pairs v => Q ((src, n) :: pairs) v) X) X := by
  have hcache : (s.gpu.union.nodes src).cacheNum = cfg.layerNum := hgpu.kLength hl
  rw [collectSwapOut, post_bind]
  simp only [gpuAt, post_bind, post_get, hl, post_pure]
  rw [hgpu.hash_eq hl, hcache]
  unfold transverseHashTable
  by_cases hpresent : (s.cpu.union.lookup hash).isSome = true
  · rw [if_pos hpresent, if_pos hpresent]
    exact Iff.rfl
  · rw [if_neg hpresent, if_neg hpresent, post_bind]
    constructor
    · intro hpost
      apply hpost.imp _ (fun _ _ herr => herr)
      rintro (_ | n) t hresult
      · exact hresult
      · rw [post_bind] at hresult
        exact hresult
    · intro hpost
      apply hpost.imp _ (fun _ _ herr => herr)
      rintro (_ | n) t hresult
      · exact hresult
      · rw [post_bind]
        exact hresult

theorem findVictim_touched (s : State E D) (hash : Hash) (src : NodeId) :
    (s.touched hash src).cpu.union.findVictim = s.cpu.union.findVictim := by
  apply findVictim_congr
  · change (s.cpu.union.updateNodeTs hash _).evictor = _
    unfold CacheUnion.updateNodeTs
    split <;> rfl
  · exact (kept_touched s hash src).hash

/-- What a round leaves of the hashes still to come. -/
private theorem fresh_touched {hashes : List Hash} (hash : Hash) (src : NodeId)
    (hfresh : ∀ other ∈ hashes, other ∉ batch.map (fun n => (s.cpu.union.nodes n).hash)) :
    ∀ other ∈ hashes, other ∉ batch.map
      (fun n => ((s.touched hash src).cpu.union.nodes n).hash) := by
  intro other hother hmem
  apply hfresh other hother
  obtain ⟨n, hn, heq⟩ := List.mem_map.mp hmem
  exact List.mem_map.mpr ⟨n, hn, ((kept_touched s hash src).hash n).symm.trans heq⟩

private theorem fresh_alloc {hashes : List Hash} {hash : Hash} {n : NodeId}
    (honly : OnlyCpu cfg s t (batch ++ [n]) []) (hhash : (t.cpu.union.nodes n).hash = hash)
    (h : CpuInv cfg s.cpu batch []) (hnot : hash ∉ hashes)
    (hfresh : ∀ other ∈ hashes, other ∉ batch.map (fun n => (s.cpu.union.nodes n).hash)) :
    ∀ other ∈ hashes, other ∉ (batch ++ [n]).map (fun n => (t.cpu.union.nodes n).hash) := by
  intro other hother hmem
  obtain ⟨m, hm, heq⟩ := List.mem_map.mp hmem
  rcases List.mem_append.mp hm with hm | hm
  · apply hfresh other hother
    rw [honly.moved.hash (h.batchNode m hm).lt_next] at heq
    exact List.mem_map.mpr ⟨m, hm, heq⟩
  · rw [List.mem_singleton.mp hm, hhash] at heq
    exact hnot (heq ▸ hother)

/-- The allocation phase of a swap-out from a state with room in the table:
every allocation claims from the free frames, and none evicts. -/
private theorem post_collectRoom_frames {out : SpanId → Prop} (hashes : List Hash)
    (h : CpuInv cfg s.cpu batch []) (hgpu : Wf cfg.layerNum s.gpu.union out)
    (hnodup : hashes.Nodup)
    (hfresh : ∀ hash ∈ hashes, hash ∉ batch.map (fun n => (s.cpu.union.nodes n).hash))
    (hcached : ∀ hash ∈ hashes, ∃ n, s.gpu.union.lookup hash = some n)
    (hroom : s.cpu.union.size < s.cpu.union.capacity) :
    Post (collectSwapOut gpuAt hashes) s
      (fun pairs t => t.cpu.union.countFrame = s.cpu.union.countFrame ∧
        t.cpu.union.capacity = s.cpu.union.capacity ∧ t.cpu.union.size = s.cpu.union.size ∧
        Settles cfg s.cpu.union t.cpu.union pairs.length
          (hashes.filter (fun hash => (s.cpu.union.lookup hash).isNone)).length)
      (fun _ _ => False) := by
  have hlayer := cfg.layerNum_pos
  have hnode : cfg.spanPerNode = 2 * cfg.layerNum := rfl
  induction hashes generalizing s batch with
  | nil =>
      refine ⟨rfl, rfl, rfl, Or.inl ⟨rfl, ?_⟩⟩
      rintro ⟨-, hlt⟩
      exact Nat.not_lt_zero _ hlt
  | cons hash rest ih =>
      obtain ⟨src, hl⟩ := hcached hash (List.mem_cons_self ..)
      have hrest := List.nodup_cons.mp hnodup
      have hcached' : ∀ other ∈ rest, ∃ n, s.gpu.union.lookup other = some n :=
        fun other hmem => hcached other (List.mem_cons_of_mem _ hmem)
      have hfresh' := fun other hmem => hfresh other (List.mem_cons_of_mem hash hmem)
      rw [post_collectSwapOut_cons hgpu hl]
      split
      · next hpresent =>
          have hsame := SameFrames.of_kept (kept_touched s hash src)
          have hroom' : (s.touched hash src).cpu.union.size <
              (s.touched hash src).cpu.union.capacity := by
            rw [hsame.size, hsame.capacity]
            exact hroom
          apply (ih (s := s.touched hash src) (h.updateNodeTs hash _) hgpu hrest.2
            (fresh_touched hash src hfresh') hcached' hroom').imp _ (fun _ _ hfalse => hfalse)
          rintro pairs t ⟨htotal, hcap, hsize, hsettles⟩
          refine ⟨htotal.trans hsame.countFrame, hcap.trans hsame.capacity,
            hsize.trans hsame.size, ?_⟩
          obtain ⟨n, hn⟩ := Option.isSome_iff_exists.mp hpresent
          rw [List.filter_cons_of_neg (by simp [hn])]
          simp only [hsame.lookup] at hsettles
          exact (settles_of_free hsame.free).mp hsettles
      · next habsent =>
          have hnone : s.cpu.union.lookup hash = none := by simpa using habsent
          have hvictim : allocVictim s.cpu.union = none := if_pos (Or.inr (Or.inr hroom))
          rw [List.filter_cons_of_pos (by simp [hnone]), List.length_cons]
          apply ((post_allocCpuNode h hnone (hfresh hash (List.mem_cons_self ..)) _ _).and
            (post_allocCpuNode_frames h.wf h.countFreeFrame _ _ hash)).imp
          · rintro (_ | n) t ⟨⟨htable, honly⟩, htotal, hcap, -, -, hresult⟩
            · obtain ⟨hfail, hsize, hkept⟩ := hresult
              exact ⟨htotal, hcap, hsize, settles_of_refused h hroom hfail hkept _⟩
            · obtain ⟨hallocates, -, hfree, hsize, -⟩ := hresult
              obtain ⟨honly, hhash, hroom'⟩ := honly
              have hsize := hsize hroom
              rw [hsize, Nat.mul_succ] at hfree
              have hgpu' : Wf cfg.layerNum t.gpu.union out := by
                rw [honly.gpu]
                exact hgpu
              have hcached'' : ∀ other ∈ rest, ∃ n, t.gpu.union.lookup other = some n := by
                rw [honly.gpu]
                exact hcached'
              have hlookup : ∀ other, t.cpu.union.lookup other = s.cpu.union.lookup other := by
                intro other
                unfold lookup
                rw [htable, hvictim]
                rfl
              apply (ih honly.cpu hgpu' hrest.2 (fresh_alloc honly hhash h hrest.1 hfresh')
                hcached'' hroom').imp _ (fun _ _ hfalse => hfalse)
              rintro pairs v ⟨htotal', hcap', hsize', hsettles⟩
              refine ⟨htotal'.trans htotal, hcap'.trans hcap, hsize'.trans hsize, ?_⟩
              simp only [hlookup] at hsettles
              exact hsettles.step (by omega)
          · rintro e t ⟨-, -, ⟨hevicts, -⟩, -⟩
            exact absurd hevicts.1 (by omega)

section Congruence

variable {u u' : CacheUnion E}

variable (hsame : SameFrames u u') (hfind : u'.findVictim = u.findVictim)

include hsame hfind

theorem swapClaims_congr (hashes : List Hash) : u'.swapClaims hashes = u.swapClaims hashes := by
  have hvictim : allocVictim u' = allocVictim u := by
    unfold allocVictim countFreeFrame
    rw [hsame.capacity, hsame.spanManager, hsame.size, hfind]
  induction hashes with
  | nil => rfl
  | cons hash rest ih =>
      unfold swapClaims
      rw [hsame.lookup, hsame.hashTable, hvictim, ih]

theorem overruns_congr (hashes : List Hash) :
    u'.Overruns cfg hashes ↔ u.Overruns cfg hashes := by
  have hevicts : u'.Evicts ↔ u.Evicts := by
    unfold Evicts
    rw [hsame.capacity, hsame.size, hsame.free]
  have hcached : u'.VictimCached ↔ u.VictimCached := by
    unfold VictimCached
    simp only [hfind, hsame.lookup]
  unfold Overruns
  rw [hsame.size, hsame.capacity, swapClaims_congr hsame hfind, hevicts, hcached,
    RunsShort.congr hsame.free, RunsShort.congr hsame.free]

end Congruence

theorem not_runsShort_zero (u : CacheUnion E) : ¬ u.RunsShort cfg 0 :=
  fun hshort => Nat.not_lt_zero _ hshort.2

theorem swapClaims_of_room {u : CacheUnion E} (hroom : u.size < u.capacity) (hashes : List Hash) :
    u.swapClaims hashes = hashes.filter (fun hash => (u.lookup hash).isNone) := by
  have hvictim : allocVictim u = none := if_pos (Or.inr (Or.inr hroom))
  induction hashes with
  | nil => rfl
  | cons hash rest ih =>
      unfold swapClaims
      rw [hvictim, ih]
      cases hl : u.lookup hash with
      | none =>
          rw [List.filter_cons_of_pos (by simp [hl])]
          rfl
      | some n => simp [hl]

theorem frames_congr {u u' : CacheUnion E} (hsame : SameFrames u u') :
    u'.frames cfg = u.frames cfg := by
  unfold frames
  rw [hsame.free, hsame.size]

/-- The frames after the allocation phase, with those of the nodes still to be
inserted. -/
def SwapBalance (cfg : Config) (u u' : CacheUnion E) (hashes : List Hash) (pending : Nat) :
    Prop :=
  u'.countFrame = u.countFrame ∧ u'.capacity = u.capacity ∧
    ((u'.frames cfg + cfg.spanPerNode * pending = u.frames cfg ∧ ¬ u.Overruns cfg hashes) ∨
      (u'.frames cfg + cfg.spanPerNode * pending + cfg.layerNum = u.frames cfg ∧
        u.Overruns cfg hashes))

/-- The allocation phase of a swap-out. -/
theorem post_collectSwapOut_frames {out : SpanId → Prop} (hashes : List Hash)
    (h : CpuInv cfg s.cpu [] []) (hgpu : Wf cfg.layerNum s.gpu.union out)
    (hnodup : hashes.Nodup) (hcached : ∀ hash ∈ hashes, ∃ n, s.gpu.union.lookup hash = some n) :
    Post (collectSwapOut gpuAt hashes) s
      (fun pairs t => SwapBalance cfg s.cpu.union t.cpu.union hashes pairs.length)
      (fun e t => e = .outOfRange ∧ SameFrames s.cpu.union t.cpu.union ∧
        ¬ s.cpu.union.Overruns cfg hashes) := by
  by_cases hroom : s.cpu.union.size < s.cpu.union.capacity
  · apply (post_collectRoom_frames hashes h hgpu hnodup (by simp) hcached hroom).imp _
      (fun _ _ hfalse => hfalse.elim)
    rintro pairs t ⟨htotal, hcap, hsize, hsettles⟩
    have hoverruns : s.cpu.union.Overruns cfg hashes ↔ s.cpu.union.RunsShort cfg
        (hashes.filter (fun hash => (s.cpu.union.lookup hash).isNone)).length := by
      unfold Overruns
      rw [swapClaims_of_room hroom]
      exact ⟨fun hor => (hor.resolve_right (fun hfull => absurd hfull.1.1 (by omega))).2,
        fun hshort => Or.inl ⟨hroom, hshort⟩⟩
    refine ⟨htotal, hcap, ?_⟩
    rw [hoverruns]
    unfold Settles at hsettles
    unfold frames
    rw [hsize]
    rcases hsettles with ⟨hfree, hshort⟩ | ⟨hfree, hshort⟩
    · exact Or.inl ⟨by omega, hshort⟩
    · exact Or.inr ⟨by omega, hshort⟩
  · induction hashes generalizing s with
    | nil =>
        refine ⟨rfl, rfl, Or.inl ⟨rfl, ?_⟩⟩
        rintro (⟨-, hshort⟩ | ⟨-, -, hshort⟩)
        · exact not_runsShort_zero _ hshort
        · exact not_runsShort_zero _ hshort
    | cons hash rest ih =>
        obtain ⟨src, hl⟩ := hcached hash (List.mem_cons_self ..)
        have hrest := List.nodup_cons.mp hnodup
        have hcached' : ∀ other ∈ rest, ∃ n, s.gpu.union.lookup other = some n :=
          fun other hmem => hcached other (List.mem_cons_of_mem _ hmem)
        rw [post_collectSwapOut_cons hgpu hl]
        split
        · next hpresent =>
            have hsame := SameFrames.of_kept (kept_touched s hash src)
            have hfind := findVictim_touched s hash src
            have hfull : ¬ (s.touched hash src).cpu.union.size <
                (s.touched hash src).cpu.union.capacity := by
              rw [hsame.size, hsame.capacity]
              exact hroom
            have hclaims : s.cpu.union.swapClaims (hash :: rest) = s.cpu.union.swapClaims rest :=
              if_pos hpresent
            have hoverruns : s.cpu.union.Overruns cfg (hash :: rest) ↔
                (s.touched hash src).cpu.union.Overruns cfg rest := by
              rw [overruns_congr hsame hfind]
              unfold Overruns
              rw [hclaims]
            apply (ih (s := s.touched hash src) (h.updateNodeTs hash _) hgpu hrest.2 hcached'
              hfull).imp
            · rintro pairs t ⟨htotal, hcap, hframes⟩
              refine ⟨htotal.trans hsame.countFrame, hcap.trans hsame.capacity, ?_⟩
              rw [hoverruns, ← frames_congr hsame]
              exact hframes
            · rintro e t ⟨he, hkept, hnot⟩
              rw [hoverruns]
              exact ⟨he, hsame.trans hkept, hnot⟩
        · next habsent =>
            have hnone : s.cpu.union.lookup hash = none := by simpa using habsent
            have hclaims : (s.cpu.union.swapClaims (hash :: rest)).length - 1 =
                (rest.filter (fun other => ((dropEntry s.cpu.union.hashTable
                  (allocVictim s.cpu.union)).lookup other).isNone)).length := by
              unfold swapClaims
              rw [if_neg habsent, List.length_cons, Nat.add_sub_cancel]
            apply ((post_allocCpuNode h hnone (by simp) _ _).and
              (post_allocCpuNode_frames h.wf h.countFreeFrame _ _ hash)).imp
            · rintro (_ | n) t ⟨⟨htable, honly⟩, htotal, hcap, hstale, -, hresult⟩
              · obtain ⟨hfail, hsize, ⟨hhalf, -⟩ | ⟨-, rfl⟩⟩ := hresult
                · exact absurd hhalf.1 hroom
                · refine ⟨rfl, rfl, Or.inl ⟨rfl, ?_⟩⟩
                  rintro (⟨hlt, -⟩ | ⟨hevicts, hvictim, -⟩)
                  · exact hroom hlt
                  · exact hfail (Or.inr ⟨hevicts, hvictim⟩)
              · obtain ⟨hallocates, -, hfree, -, hsize⟩ := hresult
                obtain ⟨honly, hhash, hroom'⟩ := honly
                have hsize := hsize (Nat.not_lt.mp hroom)
                rw [hsize, Nat.add_right_cancel_iff] at hfree
                have hboth := hallocates.resolve_left (fun hlt => hroom hlt.1)
                have hgpu' : Wf cfg.layerNum t.gpu.union out := by
                  rw [honly.gpu]
                  exact hgpu
                have hcached'' : ∀ other ∈ rest, ∃ n, t.gpu.union.lookup other = some n := by
                  rw [honly.gpu]
                  exact hcached'
                have hshort : s.cpu.union.Overruns cfg (hash :: rest) ↔ t.cpu.union.RunsShort cfg
                    (rest.filter (fun other => (t.cpu.union.lookup other).isNone)).length := by
                  unfold Overruns lookup
                  rw [hclaims, htable, RunsShort.congr hfree]
                  exact ⟨fun hor => (hor.resolve_left (fun hlt => hroom hlt.1)).2.2,
                    fun hshort => Or.inr ⟨hboth.1, hboth.2, hshort⟩⟩
                apply (post_collectRoom_frames rest honly.cpu hgpu' hrest.2
                  (fresh_alloc honly hhash h hrest.1 (by simp)) hcached'' hroom').imp _
                  (fun _ _ hfalse => hfalse.elim)
                rintro pairs v ⟨htotal', hcap', hsize', hsettles⟩
                refine ⟨htotal'.trans htotal, hcap'.trans hcap, ?_⟩
                rw [hshort, List.length_cons]
                unfold Settles at hsettles
                unfold frames
                rw [hsize', ← hsize, Nat.mul_succ, Nat.mul_succ, ← hfree]
                rcases hsettles with ⟨hsum, hnot⟩ | ⟨hsum, hruns⟩
                · exact Or.inl ⟨by omega, hnot⟩
                · exact Or.inr ⟨by omega, hruns⟩
            · rintro e t ⟨-, he, ⟨-, hash', hfind, hgone⟩, hsame⟩
              refine ⟨he, hsame, ?_⟩
              rintro (⟨hlt, -⟩ | ⟨-, ⟨hash'', n, hfind', hn⟩, -⟩)
              · exact hroom hlt
              · rw [hfind] at hfind'
                obtain rfl := Option.some.inj hfind'
                rw [hgone] at hn
                cases hn

section Insertion

/-- Nodes of a batch own as many frames as table nodes, so the table has room
for all of them. -/
theorem CpuInv.size_add_le {c : CpuSide E D} {extra : List SpanId}
    (h : CpuInv cfg c batch extra) : c.union.size + batch.length ≤ c.union.capacity := by
  have hlayer := cfg.layerNum_pos
  have hbatch : (batchSpans c.union batch).length = batch.length * (2 * cfg.layerNum) := by
    have hwidth : ∀ n ∈ batch, (c.union.nodes n).spans.length = 2 * cfg.layerNum := by
      intro n hn
      have hb := h.batchNode n hn
      rw [PrefixNode.spans_length _ (hb.vLength.trans hb.kLength.symm), PrefixNode.cacheNum,
        hb.kLength]
    unfold batchSpans
    rw [List.length_flatMap, List.map_congr_left hwidth, List.map_const', List.sum_replicate,
      smul_eq_mul]
  have hnodup : (batchSpans c.union batch ++ c.union.tableSpans).Nodup := by
    refine List.nodup_append.mpr ⟨(List.nodup_append.mp h.out_nodup).1,
      h.wf.owned.table_nodup, ?_⟩
    rintro a ha b hb rfl
    exact h.out_fresh a (List.mem_append_left _ ha) hb
  have hheld : ∀ span ∈ batchSpans c.union batch ++ c.union.tableSpans,
      Held c.union.tableSpans (· ∈ batchSpans c.union batch ++ extra) span := by
    intro span hs
    rcases List.mem_append.mp hs with hs | hs
    · exact Or.inr (List.mem_append_left _ hs)
    · exact Or.inl hs
  have hle := h.wf.owned.length_le_total hnodup hheld
  rw [List.length_append, hbatch, h.wf.tableSpans_length] at hle
  rw [h.capacity]
  refine (Nat.le_div_iff_mul_le (by omega)).mpr ?_
  rw [Nat.add_mul]
  unfold countFrame
  omega

/-- An insertion into a table with room. -/
private theorem insertNode_frames {u : CacheUnion E} {n : NodeId} {hash : Hash}
    (hnone : u.lookup hash = none) (hroom : u.size < u.capacity)
    (href : (u.nodes n).refCnt = 0) :
    (u.insertNode hash n).nodes = u.nodes ∧
      (∀ other, (u.insertNode hash n).lookup other =
        if other = hash then some n else u.lookup other) ∧
      (u.insertNode hash n).capacity = u.capacity ∧ (u.insertNode hash n).size = u.size + 1 ∧
      (u.insertNode hash n).free = u.free ∧ (u.insertNode hash n).countFrame = u.countFrame := by
  have hlookup := insertNode_lookup hnone hroom href
  have hnot : hash ∉ u.hashTable := AList.lookup_eq_none.mp hnone
  rw [insertNode_eq hnone hroom href] at hlookup ⊢
  refine ⟨rfl, hlookup, rfl, ?_, rfl, rfl⟩
  unfold size
  rw [AList.entries_insert_of_notMem hnot, List.length_cons]

/-- The insertion loop: every node of the batch enters the table. -/
private theorem post_insertBatch_frames (pairs : List (NodeId × NodeId))
    (hrefs : ∀ p ∈ pairs, (s.cpu.union.nodes p.2).refCnt = 0)
    (habsent : ∀ p ∈ pairs, s.cpu.union.lookup (s.cpu.union.nodes p.2).hash = none)
    (hnodup : (pairs.map (fun p => (s.cpu.union.nodes p.2).hash)).Nodup)
    (hroom : s.cpu.union.size + pairs.length ≤ s.cpu.union.capacity) :
    Post (forEach (fun (p : NodeId × NodeId) => modifyCpu (fun c => { c with
        union := c.union.insertNode (c.union.nodes p.2).hash p.2 })) pairs) s
      (fun _ t => t.cpu.union.countFrame = s.cpu.union.countFrame ∧
        t.cpu.union.capacity = s.cpu.union.capacity ∧ t.cpu.union.free = s.cpu.union.free ∧
        t.cpu.union.size = s.cpu.union.size + pairs.length)
      (fun _ _ => False) := by
  induction pairs generalizing s with
  | nil => exact ⟨rfl, rfl, rfl, rfl⟩
  | cons p rest ih =>
      rw [List.length_cons] at hroom
      rw [List.map_cons, List.nodup_cons] at hnodup
      have hnone := habsent p (List.mem_cons_self ..)
      obtain ⟨hnodes, hlookup, hcap, hsize, hfree, htotal⟩ :=
        insertNode_frames hnone (by omega) (hrefs p (List.mem_cons_self ..))
      generalize hu : s.cpu.union.insertNode (s.cpu.union.nodes p.2).hash p.2 = u
        at hnodes hlookup hcap hsize hfree htotal
      have hrefs' : ∀ q ∈ rest, (u.nodes q.2).refCnt = 0 := by
        rw [hnodes]
        exact fun q hq => hrefs q (List.mem_cons_of_mem _ hq)
      have habsent' : ∀ q ∈ rest, u.lookup (u.nodes q.2).hash = none := by
        intro q hq
        rw [hnodes, hlookup, if_neg]
        · exact habsent q (List.mem_cons_of_mem _ hq)
        · intro heq
          apply hnodup.1
          rw [← heq]
          exact List.mem_map_of_mem hq
      have hnodup' : (rest.map (fun q => (u.nodes q.2).hash)).Nodup := by
        rw [hnodes]
        exact hnodup.2
      rw [forEach, post_bind]
      simp only [post_modifyCpu]
      rw [hu]
      apply (ih (s := { s with cpu := { s.cpu with union := u } }) hrefs' habsent' hnodup'
        (by change u.size + rest.length ≤ u.capacity; omega)).imp _ (fun _ _ hfalse => hfalse)
      rintro _ t ⟨htotal', hcap', hfree', hlen⟩
      refine ⟨htotal'.trans htotal, hcap'.trans hcap, hfree'.trans hfree, ?_⟩
      rw [hlen, List.length_cons]
      change u.size + rest.length = _
      omega

/-- The queueing loop neither claims nor inserts. -/
private theorem post_queueTasks_frames (block : WsBlock) (cacheNum : Nat)
    (new : List (NodeId × Nat)) :
    Post (forEach (fun (p : NodeId × Nat) => do
        modifyCpu (fun c => { c with tasks := c.tasks ++ [copyTask c.union block cacheNum p] })
        interleave) new) s
      (fun _ t => SameFrames s.cpu.union t.cpu.union) (fun _ _ => False) := by
  induction new generalizing s with
  | nil => exact SameFrames.refl _
  | cons p rest ih =>
      rw [forEach]
      simp only [post_bind, post_modifyCpu, interleave, post_modify]
      apply ih.imp _ (fun _ _ hfalse => hfalse)
      intro _ t ht
      have haside := aside_interleave { s with cpu := { s.cpu with
        tasks := s.cpu.tasks ++ [copyTask s.cpu.union block cacheNum p] } }
      exact ⟨ht.hashTable.trans haside.hashTable, ht.capacity.trans haside.capacity,
        ht.spanManager.trans haside.spanManager⟩

/-- One piece of a swap-out. -/
private theorem post_swapNodelistToCpuImpl_frames {out : SpanId → Prop}
    (pairs : List (NodeId × NodeId)) (rest : List NodeId)
    (h : CpuInv cfg s.cpu (pairs.map Prod.snd ++ rest) [])
    (hgpu : Wf cfg.layerNum s.gpu.union out) (hpaired : Paired s.gpu s.cpu pairs)
    (hlen : pairs.length ≤ cfg.maxNumSpans) :
    Post (swapNodelistToCpuImpl cfg pairs) s
      (fun _ t => t.cpu.union.countFrame = s.cpu.union.countFrame ∧
        t.cpu.union.capacity = s.cpu.union.capacity ∧
        t.cpu.union.frames cfg = s.cpu.union.frames cfg + cfg.spanPerNode * pairs.length)
      (fun e _ => e = .blocked) := by
  unfold swapNodelistToCpuImpl
  rw [post_bind, post_get]
  cases hpairs : pairs.head? with
  | none =>
      have hnil : pairs = [] := List.head?_eq_none_iff.mp hpairs
      subst hnil
      exact ⟨rfl, rfl, rfl⟩
  | some first =>
      have hfirst := hpaired first (List.mem_of_mem_head? hpairs)
      have hcache : (s.gpu.union.nodes first.1).cacheNum = cfg.layerNum := hgpu.kLength hfirst
      dsimp only
      rw [hcache, post_bind]
      apply ((post_checkedBlock h _).and (still_checkedBlock cfg _ s)).imp
      · rintro block t ⟨⟨ht, -⟩, hsame⟩
        have hkept : SameFrames s.cpu.union t.cpu.union := hsame
        have hbatch : ∀ p ∈ pairs, BatchNode cfg.layerNum t.cpu.union p.2 := fun p hp =>
          ht.cpu.batchNode p.2 (List.mem_append_left _ (List.mem_map_of_mem hp))
        have hnodup := ht.cpu.hash_nodup
        rw [List.map_append, List.map_map] at hnodup
        have hroom := ht.cpu.size_add_le
        rw [List.length_append, List.length_map] at hroom
        simp only [post_bind, post_get, post_modifyCpu]
        apply (post_insertBatch_frames (s := { t with cpu := { fillBlock t.cpu block _ with
          origin := _ } }) pairs (fun p hp => (hbatch p hp).refCnt)
          (fun p hp => (hbatch p hp).absent) (List.nodup_append.mp hnodup).1
          (by change t.cpu.union.size + _ ≤ t.cpu.union.capacity; omega)).imp _
          (fun _ _ hfalse => hfalse.elim)
        rintro _ v ⟨htotal, hcap, hfree, hsize⟩
        apply (post_queueTasks_frames block cfg.layerNum _).imp _ (fun _ _ hfalse => hfalse.elim)
        intro _ w hw
        have hdrop : SameFrames v.cpu.union w.cpu.dropHeldBlock.union :=
          hw.trans (still_dropHeldBlock w)
        refine ⟨?_, ?_, ?_⟩
        · exact hdrop.countFrame.trans (htotal.trans hkept.countFrame)
        · exact hdrop.capacity.trans (hcap.trans hkept.capacity)
        · have hfree' : v.cpu.union.free = s.cpu.union.free := hfree.trans hkept.free
          have hsize' : v.cpu.union.size = s.cpu.union.size + pairs.length := by
            rw [← hkept.size]
            exact hsize
          change w.cpu.dropHeldBlock.union.frames cfg = _
          rw [frames_congr hdrop]
          unfold frames
          rw [hfree', hsize', Nat.mul_add]
          omega
      · rintro e t ⟨he | ⟨hbig, -⟩, -⟩
        · exact he
        · have hnode : cfg.spanPerNode = 2 * cfg.layerNum := rfl
          have hle := Nat.mul_le_mul_right cfg.spanPerNode hlen
          have hspans : pairs.length * cfg.layerNum * 2 = pairs.length * cfg.spanPerNode := by
            rw [hnode, Nat.mul_assoc, Nat.mul_comm 2]
          omega

/-- The pieces of a swap-out, one after the other. -/
private theorem post_swapPieces_frames {out : SpanId → Prop} (fuel : Nat)
    (pairs : List (NodeId × NodeId)) (hfuel : pairs.length ≤ fuel)
    (h : CpuInv cfg s.cpu (pairs.map Prod.snd) []) (hgpu : Wf cfg.layerNum s.gpu.union out)
    (hpaired : Paired s.gpu s.cpu pairs) :
    Post (forEach (swapNodelistToCpuImpl cfg) (slices cfg.maxNumSpans fuel pairs)) s
      (fun _ t => t.cpu.union.countFrame = s.cpu.union.countFrame ∧
        t.cpu.union.capacity = s.cpu.union.capacity ∧
        t.cpu.union.frames cfg = s.cpu.union.frames cfg + cfg.spanPerNode * pairs.length)
      (fun e _ => e = .blocked) := by
  induction fuel generalizing s pairs with
  | zero =>
      have hnil : pairs = [] := List.length_eq_zero_iff.mp (Nat.le_zero.mp hfuel)
      subst hnil
      exact ⟨rfl, rfl, rfl⟩
  | succ fuel ih =>
      cases hcase : pairs with
      | nil => exact ⟨rfl, rfl, rfl⟩
      | cons first tail =>
          rw [slices, ← hcase, forEach, post_bind]
          have hpieces : CpuInv cfg s.cpu ((pairs.take cfg.maxNumSpans).map Prod.snd ++
              (pairs.drop cfg.maxNumSpans).map Prod.snd) [] := by
            rw [← List.map_append, List.take_append_drop]
            exact h
          have hpaired' : Paired s.gpu s.cpu (pairs.take cfg.maxNumSpans) :=
            fun p hp => hpaired p (List.mem_of_mem_take hp)
          have hpos := cfg.maxNumSpans_pos
          have hne : 0 < pairs.length := by simp [hcase]
          apply ((post_swapNodelistToCpuImpl _ _ hpieces hgpu hpaired').and
            (post_swapNodelistToCpuImpl_frames _ _ hpieces hgpu hpaired'
              (List.length_take_le ..))).imp _ (fun _ _ he => he.2)
          rintro _ t ⟨⟨ht, -⟩, htotal, hcap, hframes⟩
          have hgpu' : Wf cfg.layerNum t.gpu.union out := by
            rw [ht.gpu]
            exact hgpu
          have hpaired'' : Paired t.gpu t.cpu (pairs.drop cfg.maxNumSpans) := by
            intro p hp
            have hmem := List.mem_of_mem_drop hp
            rw [ht.gpu, ht.moved.hash (h.batchNode p.2 (List.mem_map_of_mem hmem)).lt_next]
            exact hpaired p hmem
          have hdrop : (pairs.drop cfg.maxNumSpans).length ≤ fuel := by
            rw [List.length_drop]
            omega
          apply (ih _ hdrop ht.cpu hgpu' hpaired'').imp _ (fun _ _ he => he)
          rintro _ v ⟨htotal', hcap', hframes'⟩
          refine ⟨htotal'.trans htotal, hcap'.trans hcap, ?_⟩
          have hlen : (pairs.take cfg.maxNumSpans).length + (pairs.drop cfg.maxNumSpans).length =
              pairs.length := by
            rw [← List.length_append, List.take_append_drop]
          rw [hframes', hframes, ← hlen, Nat.mul_add, Nat.add_assoc]

/-- A swap-out of cached nodes. A stale candidate of the evictor makes it throw
before it has claimed anything. -/
theorem post_swapToCpuByHashlist_frames {out : SpanId → Prop} (hashes : List Hash)
    (h : CpuInv cfg s.cpu [] []) (hgpu : Wf cfg.layerNum s.gpu.union out)
    (hnodup : hashes.Nodup) (hcached : ∀ hash ∈ hashes, ∃ n, s.gpu.union.lookup hash = some n) :
    Post (swapToCpuByHashlist cfg hashes) s
      (fun _ t => SwapBalance cfg s.cpu.union t.cpu.union hashes 0)
      (fun e t => e = .blocked ∨ SwapBalance cfg s.cpu.union t.cpu.union hashes 0) := by
  unfold swapToCpuByHashlist swapToCpu
  rw [post_bind]
  apply ((post_collectSwapOut hashes h hgpu hnodup (by simp)).and
    (post_collectSwapOut_frames hashes h hgpu hnodup hcached)).imp
  · rintro pairs t ⟨⟨ht, hpaired, -, -⟩, htotal, hcap, hframes⟩
    have hgpu' : Wf cfg.layerNum t.gpu.union out := by
      rw [ht.gpu]
      exact hgpu
    have hpaired' : Paired t.gpu t.cpu pairs := by
      rw [ht.gpu]
      exact hpaired
    apply (post_swapPieces_frames pairs.length pairs (Nat.le_refl _) ht.cpu hgpu' hpaired').imp _
      (fun _ _ he => Or.inl he)
    rintro _ v ⟨htotal', hcap', hframes'⟩
    refine ⟨htotal'.trans htotal, hcap'.trans hcap, ?_⟩
    rw [hframes']
    exact hframes
  · rintro e t ⟨-, -, hsame, hnot⟩
    exact Or.inr ⟨hsame.countFrame, hsame.capacity, Or.inl ⟨frames_congr hsame, hnot⟩⟩

end Insertion

end DashInfer.Cache
