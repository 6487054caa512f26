import DashInfer.Lora.Forward

/-!
What the scan of `Reshape` leaves: the runs of requests with one LoRA, each with
the factors of that LoRA. `Forward` then has one problem to a run, and both of
its paths pose the same problems, apart from the columns of `lora_B` in
attention layers.
-/

namespace DashInfer.Lora

open DashInfer.Lib
open scoped BigOperators

/-- A run of requests with one LoRA. -/
structure Segment where
  start : Nat
  stop : Nat
  name : String
deriving DecidableEq, Repr

/-- The segments of a list of LoRA names: in order, and exactly the positions
with a name. -/
structure Segmented (names : List String) (segs : List Segment) : Prop where
  ordered : segs.Pairwise fun g h => g.stop ≤ h.start
  fits : ∀ g ∈ segs, g.start ≤ g.stop ∧ g.stop ≤ names.length ∧ g.name ≠ ""
  named : ∀ g ∈ segs, ∀ row, g.start ≤ row → row < g.stop → names[row]? = some g.name
  covered : ∀ row name, names[row]? = some name → name ≠ "" →
    ∃ g ∈ segs, g.start ≤ row ∧ row < g.stop

namespace Segmented

variable {names : List String} {segs : List Segment} {g : Segment} {name : String}

theorem nil : Segmented [] [] where
  ordered := List.Pairwise.nil
  fits := fun _ h => by cases h
  named := fun _ h => by cases h
  covered := fun _ _ h => by simp at h

/-- A position behind the names so far. -/
private theorem getElem?_next {row : Nat} {other : String}
    (h : (names ++ [name])[row]? = some other) :
    names[row]? = some other ∨ row = names.length ∧ other = name := by
  rcases Nat.lt_or_ge row names.length with hrow | hrow
  · rw [List.getElem?_append_left hrow] at h
    exact Or.inl h
  · rw [List.getElem?_append_right hrow] at h
    cases hk : row - names.length with
    | zero =>
        rw [hk] at h
        exact Or.inr ⟨by omega, by simpa using h.symm⟩
    | succ k => simp [hk] at h

private theorem getElem?_kept {row : Nat} {other : String} (h : names[row]? = some other) :
    (names ++ [name])[row]? = some other := by
  rw [List.getElem?_append_left (List.getElem?_eq_some_iff.mp h).1]
  exact h

theorem plain (h : Segmented names segs) : Segmented (names ++ [""]) segs where
  ordered := h.ordered
  fits := fun g hg => by
    have hfits := h.fits g hg
    exact ⟨hfits.1, by simp; omega, hfits.2.2⟩
  named := fun g hg row hstart hstop => getElem?_kept (h.named g hg row hstart hstop)
  covered := fun row other hrow hne => by
    rcases getElem?_next hrow with hrow | ⟨_, hother⟩
    · exact h.covered row other hrow hne
    · exact absurd hother hne

/-- A request with another LoRA than the one before it, or with the first one. -/
theorem next (h : Segmented names segs) (hname : name ≠ "") :
    Segmented (names ++ [name]) (segs ++ [⟨names.length, names.length + 1, name⟩]) where
  ordered := by
    apply List.pairwise_append.mpr
    refine ⟨h.ordered, List.pairwise_singleton _ _, ?_⟩
    intro g hg g' hg'
    obtain rfl := List.mem_singleton.mp hg'
    exact (h.fits g hg).2.1
  fits := fun g hg => by
    rcases List.mem_append.mp hg with hg | hg
    · have hfits := h.fits g hg
      exact ⟨hfits.1, by simp; omega, hfits.2.2⟩
    · obtain rfl := List.mem_singleton.mp hg
      exact ⟨Nat.le_succ _, by simp, hname⟩
  named := fun g hg row hstart hstop => by
    rcases List.mem_append.mp hg with hg | hg
    · exact getElem?_kept (h.named g hg row hstart hstop)
    · obtain rfl := List.mem_singleton.mp hg
      have hrow : row = names.length := by
        dsimp only at hstart hstop
        omega
      simp [hrow]
  covered := fun row other hrow hne => by
    rcases getElem?_next hrow with hrow | ⟨hrow, _⟩
    · obtain ⟨g, hg, hin⟩ := h.covered row other hrow hne
      exact ⟨g, List.mem_append_left _ hg, hin⟩
    · refine ⟨_, List.mem_append_right _ (List.mem_singleton_self _), ?_⟩
      dsimp only
      omega

/-- A request with the LoRA of the request before it. -/
theorem longer {start : Nat} (h : Segmented names (segs ++ [⟨start, names.length, name⟩])) :
    Segmented (names ++ [name]) (segs ++ [⟨start, names.length + 1, name⟩]) := by
  have hlast := h.fits _ (List.mem_append_right _ (List.mem_singleton_self _))
  dsimp only at hlast
  obtain ⟨hfront, _, hbefore⟩ := List.pairwise_append.mp h.ordered
  constructor
  · apply List.pairwise_append.mpr
    refine ⟨hfront, List.pairwise_singleton _ _, ?_⟩
    intro g hg g' hg'
    obtain rfl := List.mem_singleton.mp hg'
    exact hbefore g hg ⟨start, names.length, name⟩ (List.mem_singleton_self _)
  · intro g hg
    rcases List.mem_append.mp hg with hg | hg
    · have hfits := h.fits g (List.mem_append_left _ hg)
      exact ⟨hfits.1, by simp; omega, hfits.2.2⟩
    · obtain rfl := List.mem_singleton.mp hg
      exact ⟨Nat.le_succ_of_le hlast.1, by simp, hlast.2.2⟩
  · intro g hg row hstart hstop
    rcases List.mem_append.mp hg with hg | hg
    · exact getElem?_kept (h.named g (List.mem_append_left _ hg) row hstart hstop)
    · obtain rfl := List.mem_singleton.mp hg
      dsimp only at hstart hstop
      rcases Nat.lt_or_ge row names.length with hrow | hrow
      · exact getElem?_kept
          (h.named _ (List.mem_append_right _ (List.mem_singleton_self _)) row hstart hrow)
      · have hrow : row = names.length := by omega
        simp [hrow]
  · intro row other hrow hne
    rcases getElem?_next hrow with hrow | ⟨hrow, _⟩
    · obtain ⟨g, hg, hin⟩ := h.covered row other hrow hne
      rcases List.mem_append.mp hg with hg | hg
      · exact ⟨g, List.mem_append_left _ hg, hin⟩
      · obtain rfl := List.mem_singleton.mp hg
        refine ⟨_, List.mem_append_right _ (List.mem_singleton_self _), ?_⟩
        dsimp only at hin ⊢
        omega
    · refine ⟨_, List.mem_append_right _ (List.mem_singleton_self _), ?_⟩
      dsimp only
      omega

/-- A row is in one segment only. -/
theorem unique (h : Segmented names segs) {g g' : Segment} (hg : g ∈ segs) (hg' : g' ∈ segs)
    {row : Nat} (hrow : g.start ≤ row ∧ row < g.stop) (hrow' : g'.start ≤ row ∧ row < g'.stop) :
    g = g' := by
  obtain ⟨i, hi, rfl⟩ := List.getElem_of_mem hg
  obtain ⟨j, hj, rfl⟩ := List.getElem_of_mem hg'
  have hordered := List.pairwise_iff_getElem.mp h.ordered
  rcases Nat.lt_trichotomy i j with hlt | rfl | hlt
  · have hstop := hordered i j hi hj hlt
    omega
  · rfl
  · have hstop := hordered j i hj hi hlt
    omega

/-- The request of a whole context. -/
theorem whole (n : Nat) (hname : name ≠ "") :
    Segmented (List.replicate n name) [⟨0, n, name⟩] where
  ordered := List.pairwise_singleton _ _
  fits := fun g hg => by
    obtain rfl := List.mem_singleton.mp hg
    exact ⟨Nat.zero_le n, by simp, hname⟩
  named := fun g hg row _ hstop => by
    obtain rfl := List.mem_singleton.mp hg
    simp [show row < n from hstop]
  covered := fun row other hrow _ => by
    refine ⟨_, List.mem_singleton_self _, Nat.zero_le row, ?_⟩
    simpa using (List.getElem?_eq_some_iff.mp hrow).1

end Segmented

/-- The factors of a LoRA multiply: `lora_A` takes the input to the ranks, `lora_B`
the ranks to `d` columns. In attention layers `lora_A` holds three matrices. -/
def SgmvOp.Multiplies (op : SgmvOp) (m : LoraManager) (d : Nat) (name : String) : Prop :=
  ∃ a b, m.getLoraTensorByName name (op.loraA ++ ".weight") = some a ∧
    m.getLoraTensorByName name (op.loraB ++ ".weight") = some b ∧
    m.hasLoraBias name op.loraA = false ∧ m.hasLoraBias name op.loraB = false ∧
    op.inFeatures = a.rows ∧ b.cols = d ∧
    a.cols = if op.isAttentionSelf then b.rows * 3 else b.rows

/-- What the operator is called with: some request has a LoRA, there is one request
in the context phase and one token to a request in the decode phase, and the sizes
are those that `Init` computed. -/
structure Served (op : SgmvOp) (m : LoraManager) (batch : Batch) (d : Nat) : Prop where
  multiplies : ∀ name ∈ batch.loraNames, name = "" ∨ op.Multiplies m d name
  hasLora : batch.HasLora
  context : batch.isContext = true → batch.loraNames.length = 1
  decode : batch.isContext = false → batch.seqLen = 1
  typeSize : 0 < op.typeSize
  parts : op.isAttentionSelf = true → ∃ q kv, op.qkvWeightDims = [q, kv, kv] ∧ d = q + kv + kv

section Scan

variable {op : SgmvOp} {m : LoraManager} {d : Nat} {name : String}

theorem SgmvOp.Multiplies.eqs (h : op.Multiplies m d name) :
    m.getLoraTensorByName name (op.loraA ++ ".weight") = some (op.weights m name).1 ∧
      m.getLoraTensorByName name (op.loraB ++ ".weight") = some (op.weights m name).2 := by
  obtain ⟨a, b, ha, hb, _⟩ := h
  simp [SgmvOp.weights, ha, hb]

/-- The sizes of the factors. -/
theorem SgmvOp.Multiplies.sizes (h : op.Multiplies m d name) :
    (op.weights m name).1.rows = op.inFeatures ∧ (op.weights m name).2.cols = d ∧
      (op.weights m name).1.cols =
        if op.isAttentionSelf then (op.weights m name).2.rows * 3
        else (op.weights m name).2.rows := by
  obtain ⟨a, b, ha, hb, _, _, hrows, hcols, hranks⟩ := h
  simp only [SgmvOp.weights, ha, hb, Option.getD_some]
  exact ⟨hrows.symm, hcols, hranks⟩

/-- The tables list the factors of these segments. -/
structure Listed (op : SgmvOp) (m : LoraManager) (segs : List Segment) (t : Tables) : Prop where
  loraA : t.loraAWeightPtrs = segs.map fun g => (op.weights m g.name).1.dataPtr
  loraB : t.loraBWeightPtrs = segs.map fun g => (op.weights m g.name).2.dataPtr
  ranksA : t.loraARanks = segs.map fun g => (op.weights m g.name).1.cols
  ranksB : op.isAttentionSelf = true →
    t.loraBRanks = segs.map fun g => (op.weights m g.name).2.rows
  parts : op.isAttentionSelf = true → t.loraBWeightParts = (List.range 3).map fun qkvIdx =>
    segs.map fun g => (op.weights m g.name).2.dataPtr + op.partStart qkvIdx * op.typeSize

/-- The ends of these segments. -/
def bounds (segs : List Segment) : List Nat := segs.flatMap fun g => [g.start, g.stop]

@[simp] theorem bounds_append (segs segs' : List Segment) :
    bounds (segs ++ segs') = bounds segs ++ bounds segs' := List.flatMap_append

@[simp] theorem bounds_cons (g : Segment) (segs : List Segment) :
    bounds (g :: segs) = g.start :: g.stop :: bounds segs := rfl

@[simp] theorem bounds_nil : bounds [] = [] := rfl

/-- What the scan notes of the requests so far, apart from the segments. -/
structure Noted (op : SgmvOp) (m : LoraManager) (d : Nat) (names : List String) (t : Tables) :
    Prop where
  maxRank : ∀ name ∈ names, name ≠ "" → (op.weights m name).1.cols ≤ t.maxLoraR
  cublas : t.useCublas = true ↔ ∃ name ∈ names, name ≠ "" ∧ (op.weights m name).2.rows < 8
  zeros : t.needSetZero = true ↔ "" ∈ names
  columns : t.outFeatures = if ∃ name ∈ names, name ≠ "" then d else 0

/-- The scan behind these requests. The last segment is still open where its LoRA is
the last one met. -/
structure Scanned (op : SgmvOp) (m : LoraManager) (d : Nat) (names : List String)
    (segs : List Segment) (s : Scan) : Prop where
  segmented : Segmented names segs
  nonempty : ∀ g ∈ segs, g.start < g.stop
  listed : Listed op m segs s.tables
  noted : Noted op m d names s.tables
  tensors : ∀ rest, op.weightTensors m "" (names ++ rest) =
    (segs.map fun g => op.weights m g.name) ++ op.weightTensors m s.lastLoraName rest
  closed : s.lastLoraName = "" → s.tables.segmentedBatchIdx = bounds segs
  opened : s.lastLoraName ≠ "" → ∃ front start,
    segs = front ++ [⟨start, names.length, s.lastLoraName⟩] ∧
      s.tables.segmentedBatchIdx = bounds front ++ [start]

variable {names : List String} {segs : List Segment} {s : Scan} {t : Tables}

theorem weightTensors_plain (last : String) (rest : List String) :
    op.weightTensors m last ("" :: rest) = op.weightTensors m "" rest := by
  simp [SgmvOp.weightTensors]

theorem weightTensors_same (rest : List String) :
    op.weightTensors m name (name :: rest) = op.weightTensors m name rest := by
  simp [SgmvOp.weightTensors]

theorem weightTensors_next {last : String} (hname : name ≠ "") (hlast : last ≠ name)
    (rest : List String) : op.weightTensors m last (name :: rest) =
      op.weights m name :: op.weightTensors m name rest := by
  simp [SgmvOp.weightTensors, hname, hlast]

theorem Scanned.tensors_next (h : Scanned op m d names segs s) (rest : List String) :
    op.weightTensors m "" (names ++ [name] ++ rest) = (segs.map fun g => op.weights m g.name) ++
      op.weightTensors m s.lastLoraName (name :: rest) := by
  rw [List.append_assoc]
  exact h.tensors (name :: rest)

theorem Noted.plain (h : Noted op m d names t) :
    Noted op m d (names ++ [""]) { t with needSetZero := true } where
  maxRank := fun name hname hne => by
    rcases List.mem_append.mp hname with hname | hname
    · exact h.maxRank name hname hne
    · exact absurd (List.mem_singleton.mp hname) hne
  cublas := by
    rw [h.cublas]
    simp [or_and_right, exists_or]
  zeros := by simp
  columns := by
    rw [h.columns]
    simp [or_and_right]

theorem Noted.measure (h : Noted op m d names s.tables) (hname : name ≠ "")
    (hmul : op.Multiplies m d name) :
    Noted op m d (names ++ [name])
      (s.measure (op.weights m name).1 (op.weights m name).2).tables where
  maxRank := fun other hother hne => by
    rcases List.mem_append.mp hother with hother | hother
    · exact (h.maxRank other hother hne).trans (Nat.le_max_left _ _)
    · obtain rfl := List.mem_singleton.mp hother
      exact Nat.le_max_right _ _
  cublas := by
    simp [Scan.measure, h.cublas, or_and_right, exists_or, hname]
  zeros := by
    simp [Scan.measure, h.zeros, hname.symm]
  columns := by
    have hcols := hmul.sizes.2.1
    simp only [Scan.measure, h.columns, hcols]
    split <;> simp_all [or_and_right, exists_or]

theorem Listed.startSegment {start stop i : Nat} (h : Listed op m segs s.tables) :
    Listed op m (segs ++ [⟨start, stop, name⟩])
      (s.startSegment op i name (op.weights m name).1 (op.weights m name).2).tables := by
  have htables : ∀ s' : Scan, (if s.lastLoraName = "" then s else s.endSegment i) = s' →
      Listed op m segs s'.tables := by
    rintro s' rfl
    split
    · exact h
    · exact ⟨h.loraA, h.loraB, h.ranksA, h.ranksB, h.parts⟩
  have h' := htables _ rfl
  constructor
  · simp only [Scan.startSegment, h'.loraA, List.map_append, List.map_singleton]
  · simp only [Scan.startSegment, h'.loraB, List.map_append, List.map_singleton]
  · simp only [Scan.startSegment, h'.ranksA, List.map_append, List.map_singleton]
  · intro hself
    simp only [Scan.startSegment, hself, if_true, h'.ranksB hself, List.map_append,
      List.map_singleton]
  · intro hself
    simp only [Scan.startSegment, hself, if_true, h'.parts hself, SgmvOp.partOffsets,
      SgmvOp.partStart, List.map_append, List.map_singleton]
    rfl

theorem Scanned.plain (h : Scanned op m d names segs s) :
    Scanned op m d (names ++ [""]) segs (s.visitPlain names.length) := by
  have hnoted := h.noted.plain
  have hlisted : Listed op m segs { s.tables with needSetZero := true } :=
    ⟨h.listed.loraA, h.listed.loraB, h.listed.ranksA, h.listed.ranksB, h.listed.parts⟩
  have htensors : ∀ rest, op.weightTensors m "" (names ++ [""] ++ rest) =
      (segs.map fun g => op.weights m g.name) ++ op.weightTensors m "" rest := by
    intro rest
    rw [h.tensors_next, weightTensors_plain]
  unfold Scan.visitPlain
  by_cases hlast : s.lastLoraName = ""
  · simp only [hlast, if_true]
    exact ⟨h.segmented.plain, h.nonempty, hlisted, hnoted, htensors, fun _ => h.closed hlast,
      fun hne => absurd rfl hne⟩
  · simp only [hlast, if_false]
    refine ⟨h.segmented.plain, h.nonempty,
      ⟨hlisted.loraA, hlisted.loraB, hlisted.ranksA, hlisted.ranksB, hlisted.parts⟩,
      ⟨hnoted.maxRank, hnoted.cublas, hnoted.zeros, hnoted.columns⟩, htensors, fun _ => ?_,
      fun hne => absurd rfl hne⟩
    obtain ⟨front, start, hsegs, hidx⟩ := h.opened hlast
    simp [Scan.endSegment, hidx, hsegs]

/-- Another request with the LoRA of the last one. -/
theorem Scanned.same (h : Scanned op m d names segs s) (hname : name ≠ "")
    (hlast : s.lastLoraName = name) (hmul : op.Multiplies m d name) :
    ∃ segs', Scanned op m d (names ++ [name]) segs'
      (s.measure (op.weights m name).1 (op.weights m name).2) := by
  obtain ⟨front, start, hsegs, hidx⟩ := h.opened (by rw [hlast]; exact hname)
  rw [hlast] at hsegs
  have hlisted := h.listed
  rw [hsegs] at hlisted
  refine ⟨front ++ [⟨start, names.length + 1, name⟩], ?_, ?_, ?_, h.noted.measure hname hmul, ?_,
    fun hnone => absurd (hlast ▸ hnone) hname,
    fun _ => ⟨front, start, by simp [Scan.measure, hlast], hidx⟩⟩
  · apply Segmented.longer
    rw [← hsegs]
    exact h.segmented
  · intro g hg
    have hnonempty := h.nonempty
    rw [hsegs] at hnonempty
    rcases List.mem_append.mp hg with hg | hg
    · exact hnonempty g (List.mem_append_left _ hg)
    · obtain rfl := List.mem_singleton.mp hg
      exact (hnonempty _ (List.mem_append_right _ (List.mem_singleton_self _))).trans
        (Nat.lt_succ_self _)
  · refine ⟨?_, ?_, ?_, fun hself => ?_, fun hself => ?_⟩
    · simpa [Scan.measure] using hlisted.loraA
    · simpa [Scan.measure] using hlisted.loraB
    · simpa [Scan.measure] using hlisted.ranksA
    · simpa [Scan.measure] using hlisted.ranksB hself
    · simpa [Scan.measure] using hlisted.parts hself
  · intro rest
    rw [h.tensors_next, hlast, weightTensors_same, hsegs]
    simp [Scan.measure, hlast]

/-- A request with another LoRA. -/
theorem Scanned.next (h : Scanned op m d names segs s) (hname : name ≠ "")
    (hlast : s.lastLoraName ≠ name) (hmul : op.Multiplies m d name) :
    ∃ segs', Scanned op m d (names ++ [name]) segs'
      ((s.measure (op.weights m name).1 (op.weights m name).2).startSegment op names.length name
        (op.weights m name).1 (op.weights m name).2) := by
  refine ⟨segs ++ [⟨names.length, names.length + 1, name⟩], h.segmented.next hname, ?_, ?_, ?_, ?_,
    fun hnone => absurd hnone hname, fun _ => ⟨segs, names.length, by simp [Scan.startSegment], ?_⟩⟩
  · intro g hg
    rcases List.mem_append.mp hg with hg | hg
    · exact h.nonempty g hg
    · obtain rfl := List.mem_singleton.mp hg
      exact Nat.lt_succ_self _
  · apply Listed.startSegment
    exact ⟨h.listed.loraA, h.listed.loraB, h.listed.ranksA, h.listed.ranksB, h.listed.parts⟩
  · have hnoted := h.noted.measure hname hmul
    unfold Scan.startSegment
    split
    · exact ⟨hnoted.maxRank, hnoted.cublas, hnoted.zeros, hnoted.columns⟩
    · exact ⟨hnoted.maxRank, hnoted.cublas, hnoted.zeros, hnoted.columns⟩
  · intro rest
    rw [h.tensors_next, weightTensors_next hname hlast]
    simp [Scan.startSegment]
  · unfold Scan.startSegment
    by_cases hplain : s.lastLoraName = ""
    · simp [Scan.measure, hplain, h.closed hplain]
    · obtain ⟨front, start, hsegs, hidx⟩ := h.opened hplain
      simp [Scan.measure, Scan.endSegment, hplain, hidx, hsegs]

/-- The tables of a batch, behind the scan. -/
structure Reshaped (op : SgmvOp) (m : LoraManager) (d : Nat) (names : List String)
    (segs : List Segment) (t : Tables) : Prop where
  segmented : Segmented names segs
  nonempty : ∀ g ∈ segs, g.start < g.stop
  listed : Listed op m segs t
  noted : Noted op m d names t
  tensors : op.weightTensors m "" names = segs.map fun g => op.weights m g.name
  bounds_eq : t.segmentedBatchIdx = bounds segs

theorem Scanned.tensors_nil (h : Scanned op m d names segs s) :
    op.weightTensors m "" names = segs.map fun g => op.weights m g.name := by
  have htensors := h.tensors []
  rw [List.append_nil, SgmvOp.weightTensors, List.append_nil] at htensors
  exact htensors

/-- The end of the batch closes the segment that is open. -/
theorem Scanned.close {n : Nat} (h : Scanned op m d names segs s) (hn : names.length = n)
    (hlast : s.lastLoraName ≠ "") : Reshaped op m d names segs (s.endSegment n).tables where
  segmented := h.segmented
  nonempty := h.nonempty
  listed := ⟨h.listed.loraA, h.listed.loraB, h.listed.ranksA, h.listed.ranksB, h.listed.parts⟩
  noted := ⟨h.noted.maxRank, h.noted.cublas, h.noted.zeros, h.noted.columns⟩
  tensors := h.tensors_nil
  bounds_eq := by
    obtain ⟨front, start, hsegs, hidx⟩ := h.opened hlast
    simp [Scan.endSegment, hidx, hsegs, hn]

/-- One request of the batch; behind the last one every segment is closed. -/
theorem Scanned.visit {n : Nat} (h : Scanned op m d names segs s)
    (hname : name = "" ∨ op.Multiplies m d name)
    (hparts : op.isAttentionSelf = true → d = op.qkvWeightDims.sum) :
    ∃ s' segs', s.visit op m n names.length name = .ok s' ∧
      if names.length + 1 = n then Reshaped op m d (names ++ [name]) segs' s'.tables
      else Scanned op m d (names ++ [name]) segs' s' := by
  by_cases hplain : name = ""
  · subst hplain
    have hscanned := h.plain
    refine ⟨_, segs, by rw [Scan.visit, if_pos rfl], ?_⟩
    have hlast : (s.visitPlain names.length).lastLoraName = "" := by
      unfold Scan.visitPlain
      by_cases hlast : s.lastLoraName = "" <;> simp [hlast, Scan.endSegment]
    split
    · exact ⟨hscanned.segmented, hscanned.nonempty, hscanned.listed, hscanned.noted,
        hscanned.tensors_nil, hscanned.closed hlast⟩
    · exact hscanned
  · have hmul := hname.resolve_left hplain
    obtain ⟨hA, hB⟩ := hmul.eqs
    obtain ⟨hrows, hcols, hranks⟩ := hmul.sizes
    obtain ⟨_, _, _, _, hbiasA, hbiasB, _⟩ := hmul
    have hclose : ∀ {s' : Scan} {segs'}, s'.lastLoraName = name →
        Scanned op m d (names ++ [name]) segs' s' →
        if names.length + 1 = n then Reshaped op m d (names ++ [name]) segs'
          (if names.length + 1 = n then s'.endSegment n else s').tables
        else Scanned op m d (names ++ [name]) segs'
          (if names.length + 1 = n then s'.endSegment n else s') := by
      intro s' segs' hlast hs'
      split
      · exact hs'.close (by simpa) (by rw [hlast]; exact hplain)
      · exact hs'
    have hcolumns : ¬ (s.tables.outFeatures = 0 ∧ op.isAttentionSelf = true ∧
        (op.weights m name).2.cols ≠ op.qkvWeightDims.sum) := by
      rintro ⟨_, hself, hne⟩
      exact hne (hcols.trans (hparts hself))
    have hthirds : ¬ (op.isAttentionSelf = true ∧
        (op.weights m name).2.rows * 3 ≠ (op.weights m name).1.cols) := by
      rintro ⟨hself, hne⟩
      rw [hself] at hranks
      exact hne hranks.symm
    unfold Scan.visit
    simp only [hplain, hA, hB, hbiasA, hbiasB, hrows, hcolumns, hthirds, if_false, Bool.or_self,
      Bool.false_eq_true, ne_eq, not_true_eq_false]
    by_cases hlast : s.lastLoraName = name
    · obtain ⟨segs', hsame⟩ := h.same hplain hlast (hname.resolve_left hplain)
      have hlast' : (s.measure (op.weights m name).1 (op.weights m name).2).lastLoraName = name :=
        hlast
      simp only [hlast', if_true]
      exact ⟨_, segs', rfl, hclose hlast' hsame⟩
    · obtain ⟨segs', hnext⟩ := h.next hplain hlast (hname.resolve_left hplain)
      have hlast' : (s.measure (op.weights m name).1 (op.weights m name).2).lastLoraName ≠ name :=
        hlast
      simp only [hlast', if_false]
      exact ⟨_, segs', rfl, hclose rfl hnext⟩

theorem Scanned.visitAll {rest : List String} (hne : rest ≠ [])
    (hrest : ∀ name ∈ rest, name = "" ∨ op.Multiplies m d name)
    (hparts : op.isAttentionSelf = true → d = op.qkvWeightDims.sum)
    (h : Scanned op m d names segs s) :
    ∃ s' segs', Scan.visitAll op m (names.length + rest.length) names.length rest s = .ok s' ∧
      Reshaped op m d (names ++ rest) segs' s'.tables := by
  induction rest generalizing names segs s with
  | nil => exact absurd rfl hne
  | cons name rest ih =>
      obtain ⟨hname, hrest⟩ := List.forall_mem_cons.mp hrest
      obtain ⟨t, segs', ht, hvisited⟩ := h.visit (n := names.length + (name :: rest).length)
        hname hparts
      rw [Scan.visitAll, ht]
      dsimp only
      cases rest with
      | nil =>
          rw [if_pos (by simp)] at hvisited
          exact ⟨t, segs', rfl, hvisited⟩
      | cons next rest =>
          rw [if_neg (by simp)] at hvisited
          have hrun := ih (List.cons_ne_nil _ _) hrest hvisited
          rw [List.append_assoc, List.singleton_append] at hrun
          have hlen : (names ++ [name]).length + (next :: rest).length =
              names.length + (name :: next :: rest).length := by
            simp only [List.length_append, List.length_cons, List.length_nil]
            omega
          rw [hlen, List.length_append, List.length_singleton] at hrun
          exact hrun

theorem scanned_cleared : Scanned op m d [] [] ⟨"", .cleared⟩ where
  segmented := Segmented.nil
  nonempty := fun _ h => by cases h
  listed := ⟨rfl, rfl, rfl, fun _ => rfl, fun _ => rfl⟩
  noted := ⟨fun _ h => (by cases h), by simp [Tables.cleared], by simp [Tables.cleared],
    by simp [Tables.cleared]⟩
  tensors := fun _ => rfl
  closed := fun _ => rfl
  opened := fun h => absurd rfl h

/-- A batch of one request has one segment. -/
theorem Reshaped.single (h : Reshaped op m d [name] segs t) (hname : name ≠ "") :
    segs = [⟨0, 1, name⟩] := by
  have hone : ∀ g ∈ segs, g = ⟨0, 1, name⟩ := by
    intro g hg
    have hfits := h.segmented.fits g hg
    have hnonempty := h.nonempty g hg
    rw [List.length_singleton] at hfits
    have hstart : g.start = 0 := by omega
    have hstop : g.stop = 1 := by omega
    have hnamed := h.segmented.named g hg 0 (by omega) (by omega)
    rw [List.getElem?_cons_zero] at hnamed
    obtain ⟨start, stop, other⟩ := g
    simp only [Option.some.injEq] at hnamed
    simp only at hstart hstop
    rw [hstart, hstop, ← hnamed]
  obtain ⟨g, hg, _⟩ := h.segmented.covered 0 name rfl hname
  have hordered := h.segmented.ordered
  cases segs with
  | nil => cases hg
  | cons g segs =>
      cases segs with
      | nil => rw [hone g List.mem_cons_self]
      | cons g' segs =>
          have hlt : g.stop ≤ g'.start := List.rel_of_pairwise_cons hordered (by simp)
          rw [hone g (by simp), hone g' (by simp)] at hlt
          exact absurd hlt (by simp)

end Scan

namespace Batch

/-- The LoRA of every row. -/
def rowNames (batch : Batch) : List String :=
  if batch.isContext then List.replicate batch.seqLen (batch.loraNames.getD 0 "")
  else batch.loraNames

end Batch

section Reshape

variable {op : SgmvOp} {m : LoraManager} {batch : Batch} {d : Nat}

/-- The rows of a batch and their LoRAs. -/
theorem Served.rows_eq (h : Served op m batch d) : batch.rows = batch.rowNames.length := by
  unfold Batch.rows Batch.size Batch.rowNames
  cases hcontext : batch.isContext with
  | true => simp
  | false => simp [h.decode hcontext]

theorem Batch.rowName_eq {row : Nat} (h : row < batch.rowNames.length) :
    batch.rowNames[row]? = some (batch.rowName row) := by
  unfold Batch.rowNames at h ⊢
  unfold Batch.rowName
  cases hcontext : batch.isContext with
  | true =>
      rw [hcontext] at h
      simp only [if_true, List.length_replicate] at h ⊢
      rw [List.getElem?_replicate, if_pos h]
  | false =>
      rw [hcontext] at h
      simp only [Bool.false_eq_true, if_false] at h ⊢
      rw [List.getD_eq_getElem?_getD, List.getElem?_eq_getElem h, Option.getD_some]

/-- A run with the tables of its batch: the segments of its rows and their factors. -/
structure Prepared (m : LoraManager) (d : Nat) (segs : List Segment) (r : SgmvRun) : Prop where
  served : Served r.op m r.batch d
  device : r.device = r.tables
  segmented : Segmented r.batch.rowNames segs
  listed : Listed r.op m segs r.tables
  noted : Noted r.op m d r.batch.loraNames r.tables
  weights : r.weights = segs.map fun g => r.op.weights m g.name
  bounds_eq : r.tables.segmentedBatchIdx = bounds segs
  mem : ∀ g ∈ segs, g.name ∈ r.batch.loraNames
  met : ∀ name ∈ r.batch.loraNames, name ≠ "" → ∃ g ∈ segs, g.name = name

theorem length_bounds (segs : List Segment) : (bounds segs).length = segs.length * 2 := by
  induction segs with
  | nil => rfl
  | cons g segs ih =>
      rw [bounds_cons, List.length_cons, List.length_cons, List.length_cons, ih]
      ring

/-- The tables of the batch, where the scan of its requests ends in `t`. -/
theorem tables_eq {segs : List Segment} {s : Scan}
    (hscan : Scan.visitAll op m batch.loraNames.length 0 batch.loraNames ⟨"", .cleared⟩ = .ok s)
    (h : Reshaped op m d batch.loraNames segs s.tables) :
    op.tables m batch = .ok (if batch.isContext then
      { s.tables with
        segmentedBatchIdx := (s.tables.segmentedBatchIdx.set 0 0).set 1 batch.seqLen }
      else s.tables) := by
  have hlength : s.tables.segmentedBatchIdx.length = s.tables.loraAWeightPtrs.length * 2 := by
    rw [h.bounds_eq, h.listed.loraA, length_bounds, List.length_map]
  unfold SgmvOp.tables
  simp only [hscan, hlength, if_true]
  split <;> rfl

theorem Reshaped.mem_names {segs : List Segment} {t : Tables}
    (h : Reshaped op m d batch.loraNames segs t) {g : Segment} (hg : g ∈ segs) :
    g.name ∈ batch.loraNames :=
  List.mem_of_getElem? (h.segmented.named g hg g.start (Nat.le_refl _) (h.nonempty g hg))

theorem Reshaped.met {segs : List Segment} {t : Tables} {names : List String}
    (h : Reshaped op m d names segs t) {name : String} (hname : name ∈ names) (hne : name ≠ "") :
    ∃ g ∈ segs, g.name = name := by
  obtain ⟨row, hrow⟩ := List.getElem?_of_mem hname
  obtain ⟨g, hg, hstart, hstop⟩ := h.segmented.covered row name hrow hne
  exact ⟨g, hg, Option.some.inj ((h.segmented.named g hg row hstart hstop).symm.trans hrow)⟩

theorem Served.prepared (h : Served op m batch d) (env : SgmvEnv) (s : SgmvLora) :
    (s.reshape op m batch true).2 = true ∧
      ∃ segs, Prepared m d segs ((s.reshape op m batch true).1.run op m env batch) := by
  have hparts : op.isAttentionSelf = true → d = op.qkvWeightDims.sum := by
    intro hself
    obtain ⟨q, kv, hdims, hd⟩ := h.parts hself
    rw [hdims, hd]
    simp [Nat.add_assoc]
  obtain ⟨name, hname, hnamed⟩ := h.hasLora
  obtain ⟨s', segs, hscan, hreshaped⟩ :=
    scanned_cleared.visitAll (List.ne_nil_of_mem hname) h.multiplies hparts
  rw [List.length_nil, Nat.zero_add] at hscan
  rw [List.nil_append] at hreshaped
  have htables := tables_eq hscan hreshaped
  cases hcontext : batch.isContext with
  | false =>
      rw [hcontext] at htables
      simp only [Bool.false_eq_true, if_false] at htables
      have hshape : s.reshape op m batch true = (⟨s'.tables, s'.tables⟩, true) := by
        simp [SgmvLora.reshape, htables]
      rw [hshape]
      refine ⟨rfl, segs, h, rfl, ?_, hreshaped.listed, hreshaped.noted, hreshaped.tensors,
        hreshaped.bounds_eq, fun g hg => hreshaped.mem_names hg,
        fun name hname hne => hreshaped.met hname hne⟩
      have hrows : batch.rowNames = batch.loraNames := by simp [Batch.rowNames, hcontext]
      exact hrows ▸ hreshaped.segmented
  | true =>
      rw [hcontext] at htables
      simp only [if_true] at htables
      obtain ⟨only, honly⟩ := List.length_eq_one_iff.mp (h.context hcontext)
      have hsingle : only = name := by
        rw [honly] at hname
        exact (List.mem_singleton.mp hname).symm
      subst hsingle
      have hsegs := (honly ▸ hreshaped).single hnamed
      have hshape : s.reshape op m batch true =
          (⟨{ s'.tables with segmentedBatchIdx := [0, batch.seqLen] },
            { s'.tables with segmentedBatchIdx := [0, batch.seqLen] }⟩, true) := by
        have hidx : (s'.tables.segmentedBatchIdx.set 0 0).set 1 batch.seqLen =
            [0, batch.seqLen] := by
          rw [hreshaped.bounds_eq, hsegs]
          rfl
        rw [hidx] at htables
        simp [SgmvLora.reshape, htables]
      rw [hshape]
      have hrows : batch.rowNames = List.replicate batch.seqLen only := by
        simp [Batch.rowNames, hcontext, honly]
      have hlisted := hreshaped.listed
      have hnoted := hreshaped.noted
      have htensors := hreshaped.tensors
      rw [hsegs] at hlisted htensors
      refine ⟨rfl, [⟨0, batch.seqLen, only⟩], h, rfl, ?_,
        ⟨hlisted.loraA, hlisted.loraB, hlisted.ranksA, hlisted.ranksB, hlisted.parts⟩,
        ⟨hnoted.maxRank, hnoted.cublas, hnoted.zeros, hnoted.columns⟩, htensors, rfl, ?_, ?_⟩
      · exact hrows ▸ Segmented.whole batch.seqLen hnamed
      · intro g hg
        obtain rfl := List.mem_singleton.mp hg
        exact hname
      · intro other hother _
        refine ⟨_, List.mem_singleton_self _, ?_⟩
        change other ∈ batch.loraNames at hother
        rw [honly] at hother
        exact (List.mem_singleton.mp hother).symm

end Reshape

section Problems

variable {r : SgmvRun} {m : LoraManager} {d : Nat} {segs : List Segment}

/-- The start and the end of a segment, by its position in the list of bounds. -/
theorem getD_bounds (segs : List Segment) (i : Nat) (hi : i < segs.length) :
    (bounds segs).getD (i * 2) 0 = segs[i].start ∧
      (bounds segs).getD (i * 2 + 1) 0 = segs[i].stop := by
  induction segs generalizing i with
  | nil => exact absurd hi (Nat.not_lt_zero i)
  | cons g segs ih =>
      cases i with
      | zero => exact ⟨rfl, rfl⟩
      | succ i => simpa [Nat.succ_mul] using ih i (by simpa using hi)

private theorem getD_map {α β : Type} (f : α → β) (l : List α) (fallback : β) {i : Nat}
    (hi : i < l.length) : (l.map f).getD i fallback = f l[i] := by
  simp [List.getD_eq_getElem?_getD, hi]

/-- A phase with one kernel to a problem has one kernel to a segment. -/
private theorem map_range_eq {α β : Type} (l : List α) (f : Nat → β) (f' : α → β)
    (h : ∀ i (hi : i < l.length), f i = f' l[i]) : (List.range l.length).map f = l.map f' := by
  apply List.ext_getElem
  · simp
  · intro i hi hi'
    rw [List.length_map, List.length_range] at hi
    rw [List.getElem_map, List.getElem_map, List.getElem_range, h i hi]

private theorem map_product {α β γ : Type} (f : α × β → γ) (l : List α) (l' : List β) :
    (l ×ˢ l').map f = l.flatMap fun a => l'.map fun b => f (a, b) := by
  simp [SProd.sprod, List.product, List.map_flatMap, Function.comp_def]

namespace SgmvRun

variable (r m) (g : Segment)

def tensorA : Tensor := (r.op.weights m g.name).1

def tensorB : Tensor := (r.op.weights m g.name).2

/-- The product of the rows of a segment with its `lora_A`. -/
def problemA : SgmvProblem where
  m := g.stop - g.start
  n := (r.tensorA m g).cols
  k := r.op.inFeatures
  ptrX := r.env.input + r.op.typeSize * (r.op.inFeatures * g.start)
  ptrW := (r.tensorA m g).dataPtr
  ptrY := r.temp + r.op.typeSize * (r.tables.maxLoraR * g.start)
  ldX := r.op.inFeatures
  ldW := (r.tensorA m g).cols
  ldY := (r.tensorA m g).cols

def problemB : SgmvProblem where
  m := g.stop - g.start
  n := r.tables.outFeatures
  k := (r.tensorA m g).cols
  ptrX := r.temp + r.op.typeSize * (r.tables.maxLoraR * g.start)
  ptrW := (r.tensorB m g).dataPtr
  ptrY := r.env.output + r.op.typeSize * (r.tables.outFeatures * g.start)
  ldX := (r.tensorA m g).cols
  ldW := r.tables.outFeatures
  ldY := r.tables.outFeatures

/-- Where the columns of a part start in `lora_B`, as the two paths have it. -/
def columnsB (qkvIdx : Nat) : Nat :=
  if r.tables.useCublas then r.op.partStart qkvIdx + r.op.partStart qkvIdx
  else r.op.partStart qkvIdx

def problemQkv (qkvIdx : Nat) : SgmvProblem where
  m := g.stop - g.start
  n := r.op.qkvWeightDims.getD qkvIdx 0
  k := (r.tensorB m g).rows
  ptrX := r.tempQkv qkvIdx + r.op.typeSize * (r.tables.maxLoraR / 3 * g.start)
  ptrW := (r.tensorB m g).dataPtr + r.op.typeSize * r.columnsB qkvIdx
  ptrY := r.env.output + r.op.typeSize * (r.op.qkvSum * g.start + r.op.partStart qkvIdx)
  ldX := (r.tensorB m g).rows
  ldW := r.op.qkvSum
  ldY := r.op.qkvSum

/-- The third of the rows of a segment that `do_split_qkv` copies for a part. -/
def splitBlock {R : Type} (qkvIdx : Nat) : Kernel R r.op.typeSize :=
  Kernel.copy (g.stop - g.start) (r.tensorB m g).rows
    ⟨r.temp + r.op.typeSize * (r.tables.maxLoraR * g.start + qkvIdx * (r.tensorB m g).rows),
      3 * (r.tensorB m g).rows, r.workspace⟩
    ⟨r.tempQkv qkvIdx + r.op.typeSize * (r.tables.maxLoraR / 3 * g.start),
      (r.tensorB m g).rows, r.workspace⟩

end SgmvRun

namespace Prepared

variable (h : Prepared m d segs r) {i : Nat}

include h

theorem numProblems : r.numProblems = segs.length := by
  rw [SgmvRun.numProblems, h.listed.loraA, List.length_map]

section Entries

variable (hi : i < segs.length)

include hi

theorem start : r.tables.segmentedBatchIdx.getD (i * 2) 0 = segs[i].start := by
  rw [h.bounds_eq]
  exact (getD_bounds segs i hi).1

theorem stop : r.tables.segmentedBatchIdx.getD (i * 2 + 1) 0 = segs[i].stop := by
  rw [h.bounds_eq]
  exact (getD_bounds segs i hi).2

theorem weightA : r.weightA i = r.tensorA m segs[i] := by
  rw [SgmvRun.weightA, h.weights, getD_map _ _ _ hi]
  rfl

theorem weightB : r.weightB i = r.tensorB m segs[i] := by
  rw [SgmvRun.weightB, h.weights, getD_map _ _ _ hi]
  rfl

theorem rankA : r.tables.loraARanks.getD i 0 = (r.tensorA m segs[i]).cols := by
  rw [h.listed.ranksA, getD_map _ _ _ hi]
  rfl

theorem rankB (hself : r.op.isAttentionSelf = true) :
    r.tables.loraBRanks.getD i 0 = (r.tensorB m segs[i]).rows := by
  rw [h.listed.ranksB hself, getD_map _ _ _ hi]
  rfl

theorem ptrA : r.tables.loraAWeightPtrs.getD i 0 = (r.tensorA m segs[i]).dataPtr := by
  rw [h.listed.loraA, getD_map _ _ _ hi]
  rfl

theorem ptrB : r.tables.loraBWeightPtrs.getD i 0 = (r.tensorB m segs[i]).dataPtr := by
  rw [h.listed.loraB, getD_map _ _ _ hi]
  rfl

theorem ptrPart (hself : r.op.isAttentionSelf = true) {qkvIdx : Nat} (hq : qkvIdx < 3) :
    (r.tables.loraBWeightParts.getD qkvIdx []).getD i 0 =
      (r.tensorB m segs[i]).dataPtr + r.op.partStart qkvIdx * r.op.typeSize := by
  rw [h.listed.parts hself, getD_map _ _ _ (by simpa using hq), getD_map _ _ _ hi,
    List.getElem_range]
  rfl

theorem denseGemmA_eq : r.denseGemmA i = r.problemA m segs[i] := by
  simp only [SgmvRun.denseGemmA, SgmvRun.problemA, h.start hi, h.stop hi, h.rankA hi, h.weightA hi,
    SgmvProblem.mk.injEq, true_and, and_true]
  constructor
  · ring
  · ring

theorem sgmvA_eq : r.sgmvA i = r.problemA m segs[i] := by
  simp only [SgmvRun.sgmvA, precomputeSgmvArgs, SgmvRun.problemA, h.device, h.start hi, h.stop hi,
    h.rankA hi, h.ptrA hi, SgmvProblem.mk.injEq, Bool.false_eq_true, if_false, true_and, and_true]
  constructor
  · ring
  · ring

theorem denseGemmB_eq : r.denseGemmB i = r.problemB m segs[i] := by
  simp only [SgmvRun.denseGemmB, SgmvRun.problemB, h.start hi, h.stop hi, h.rankA hi, h.weightB hi,
    SgmvProblem.mk.injEq, true_and, and_true]
  constructor
  · ring
  · ring

theorem sgmvB_eq : r.sgmvB i = r.problemB m segs[i] := by
  simp only [SgmvRun.sgmvB, precomputeSgmvArgs, SgmvRun.problemB, h.device, h.start hi, h.stop hi,
    h.rankA hi, h.ptrB hi, SgmvProblem.mk.injEq, Bool.false_eq_true, if_false, if_true, true_and,
    and_true]
  constructor
  · ring
  · ring

/-- The cuBLAS path adds the start of the part to a pointer that has it already. -/
theorem denseGemmQkv_eq (hself : r.op.isAttentionSelf = true) (hcublas : r.tables.useCublas = true)
    {qkvIdx : Nat} (hq : qkvIdx < 3) :
    r.denseGemmQkv qkvIdx i = r.problemQkv m segs[i] qkvIdx := by
  simp only [SgmvRun.denseGemmQkv, SgmvRun.problemQkv, SgmvRun.columnsB, hcublas, h.start hi,
    h.stop hi, h.rankB hi hself, h.ptrPart hi hself hq, SgmvProblem.mk.injEq, if_true, true_and,
    and_true]
  refine ⟨?_, ?_, ?_⟩
  · ring
  · ring
  · ring

theorem sgmvQkv_eq (hself : r.op.isAttentionSelf = true) (hcublas : r.tables.useCublas = false)
    {qkvIdx : Nat} (hq : qkvIdx < 3) :
    r.sgmvQkv qkvIdx i = r.problemQkv m segs[i] qkvIdx := by
  simp only [SgmvRun.sgmvQkv, precomputeSgmvArgs, SgmvRun.problemQkv, SgmvRun.columnsB, hcublas,
    h.device, h.start hi, h.stop hi, h.rankB hi hself, h.ptrPart hi hself hq,
    SgmvProblem.mk.injEq, Bool.false_eq_true, if_false, if_true, true_and, and_true]
  refine ⟨?_, ?_, ?_⟩
  · ring
  · ring
  · ring

end Entries

section Phases

variable {R : Type}

/-- The blocks that `do_split_qkv` copies for a segment. -/
theorem kernelsSplit_eq (hself : r.op.isAttentionSelf = true) :
    r.kernelsSplit (R := R) = (segs ×ˢ List.range 3).map fun p =>
      r.splitBlock m p.1 p.2 := by
  rw [SgmvRun.kernelsSplit, h.numProblems, map_product, List.flatMap_def, List.flatMap_def]
  congr 1
  apply map_range_eq
  intro i hi
  apply List.map_congr_left
  intro qkvIdx _
  simp only [SgmvRun.splitQkv, SgmvRun.splitBlock, h.device, h.start hi, h.stop hi,
    h.rankB hi hself]
  congr 2
  · ring
  · ring

variable [NonUnitalNonAssocSemiring R]

theorem kernelsA_eq : r.kernelsA (R := R) = segs.map fun g =>
    r.product (r.problemA m g) r.input (r.extent (r.tensorA m g)) r.workspace := by
  rw [SgmvRun.kernelsA, h.numProblems]
  apply map_range_eq
  intro i hi
  rw [SgmvRun.kernelA, h.denseGemmA_eq hi, h.sgmvA_eq hi, h.weightA hi, ite_self]

theorem kernelsB_eq : r.kernelsB (R := R) = segs.map fun g =>
    r.product (r.problemB m g) r.workspace (r.extent (r.tensorB m g)) r.output := by
  rw [SgmvRun.kernelsB, h.numProblems]
  apply map_range_eq
  intro i hi
  rw [SgmvRun.kernelB, h.denseGemmB_eq hi, h.sgmvB_eq hi, h.weightB hi, ite_self]

theorem kernelsQkv_eq (hself : r.op.isAttentionSelf = true) :
    r.kernelsQkv (R := R) = (List.range 3 ×ˢ segs).map fun p =>
      r.product (r.problemQkv m p.2 p.1) r.workspace (r.extent (r.tensorB m p.2)) r.output := by
  rw [SgmvRun.kernelsQkv, h.numProblems, map_product]
  apply List.flatMap_congr
  intro qkvIdx hq
  have hq : qkvIdx < 3 := List.mem_range.mp hq
  apply map_range_eq
  intro i hi
  rw [SgmvRun.kernelQkv, h.weightB hi]
  cases hcublas : r.tables.useCublas with
  | true => rw [if_pos rfl, h.denseGemmQkv_eq hi hself hcublas hq]
  | false => rw [if_neg Bool.false_ne_true, h.sgmvQkv_eq hi hself hcublas hq]

end Phases

end Prepared

end Problems

end DashInfer.Lora
