import Mathlib

/-!
The loaded LoRAs, and the tables `SgmvLoraOpGPU::Reshape` computes from the
LoRA names of a batch: which rows of the input each LoRA is applied to, and
where its weights are.
-/

namespace DashInfer.Lora

/-- A weight tensor on the device: its memory and its two dimensions. -/
structure Tensor where
  dataPtr : Nat
  rows : Nat
  cols : Nat
deriving DecidableEq, Repr

/-- The tensors of one LoRA, by name. -/
abbrev WeightMap := List (String × Tensor)

structure LoraManager where
  loraMaxNum : Nat
  loras : List (String × WeightMap)
deriving DecidableEq, Repr

namespace LoraManager

def isEmpty (m : LoraManager) : Bool := m.loras.isEmpty

def isLoraExists (name : String) (m : LoraManager) : Bool := (m.loras.lookup name).isSome

def registerLora (name : String) (weights : WeightMap) (m : LoraManager) : LoraManager :=
  { m with loras := m.loras ++ [(name, weights)] }

def unRegisterLora (name : String) (m : LoraManager) : LoraManager :=
  { m with loras := m.loras.filter fun lora => lora.1 ≠ name }

def getLoraTensorByName (loraName tensorName : String) (m : LoraManager) : Option Tensor :=
  (m.loras.lookup loraName).bind fun weights => weights.lookup tensorName

/-- A call for a tensor whose name ends in `.weight`: is there one that ends in
`.bias`? -/
def hasLoraBias (loraName base : String) (m : LoraManager) : Bool :=
  (m.getLoraTensorByName loraName (base ++ ".bias")).isSome

end LoraManager

/-- What `SgmvLoraOpGPU::Init` fixes. -/
structure SgmvOp where
  opName : String
  inFeatures : Nat
  isAttentionSelf : Bool
  /-- The output features of the query, key and value parts. -/
  qkvWeightDims : List Nat
  /-- `SizeofType(dtype_)`. -/
  typeSize : Nat
deriving Repr

namespace SgmvOp

def loraA (op : SgmvOp) : String := op.opName ++ ".lora_A"

def loraB (op : SgmvOp) : String := op.opName ++ ".lora_B"

/-- Where the three parts of a row of `lora_B` start. -/
def partOffsets (op : SgmvOp) : List Nat :=
  (List.range 3).map fun k => (op.qkvWeightDims.take k).sum * op.typeSize

end SgmvOp

/-- The members of `SgmvLoraOpGPU` that `Reshape` computes, apart from the
sizes of its workspace. -/
structure Tables where
  maxLoraR : Nat
  needSetZero : Bool
  useCublas : Bool
  outFeatures : Nat
  loraAWeightPtrs : List Nat
  loraBWeightPtrs : List Nat
  loraBWeightParts : List (List Nat)
  loraARanks : List Nat
  loraBRanks : List Nat
  segmentedBatchIdx : List Nat
deriving DecidableEq, Repr

def Tables.cleared : Tables where
  maxLoraR := 0
  needSetZero := false
  useCublas := false
  outFeatures := 0
  loraAWeightPtrs := []
  loraBWeightPtrs := []
  loraBWeightParts := [[], [], []]
  loraARanks := []
  loraBRanks := []
  segmentedBatchIdx := []

/-- The batch an operator runs on: the LoRA name of each request, and in the
context phase, where there is one, the length of its input. -/
structure Batch where
  isContext : Bool
  loraNames : List String
  seqLen : Nat
deriving DecidableEq, Repr

/-- Some request of the batch has a LoRA. -/
def Batch.HasLora (batch : Batch) : Prop := ∃ name ∈ batch.loraNames, name ≠ ""

instance (batch : Batch) : Decidable batch.HasLora :=
  inferInstanceAs (Decidable (∃ _ ∈ _, _))

/-- The tables and `last_lora_name` inside the loop over the batch. -/
structure Scan where
  lastLoraName : String
  tables : Tables

namespace Scan

def endSegment (i : Nat) (s : Scan) : Scan :=
  { s with tables.segmentedBatchIdx := s.tables.segmentedBatchIdx ++ [i] }

/-- A request without LoRA ends the segment before it. -/
def visitPlain (i : Nat) (s : Scan) : Scan :=
  let s := { s with tables.needSetZero := true }
  if s.lastLoraName = "" then s else ({ s with lastLoraName := "" } : Scan).endSegment i

/-- The ranks and sizes noted for every request with a LoRA. -/
def measure (a b : Tensor) (s : Scan) : Scan :=
  { s with
    tables.outFeatures := if s.tables.outFeatures = 0 then b.cols else s.tables.outFeatures
    tables.useCublas := s.tables.useCublas || b.rows < 8
    tables.maxLoraR := max s.tables.maxLoraR a.cols }

/-- A LoRA other than that of the request before starts a segment. -/
def startSegment (op : SgmvOp) (i : Nat) (name : String) (a b : Tensor) (s : Scan) : Scan :=
  let s := if s.lastLoraName = "" then s else s.endSegment i
  { lastLoraName := name
    tables :=
      { s.tables with
        loraAWeightPtrs := s.tables.loraAWeightPtrs ++ [a.dataPtr]
        loraBWeightPtrs := s.tables.loraBWeightPtrs ++ [b.dataPtr]
        loraBWeightParts :=
          if op.isAttentionSelf then
            s.tables.loraBWeightParts.zipWith (fun part offset => part ++ [b.dataPtr + offset])
              op.partOffsets
          else s.tables.loraBWeightParts
        loraARanks := s.tables.loraARanks ++ [a.cols]
        loraBRanks :=
          if op.isAttentionSelf then s.tables.loraBRanks ++ [b.rows] else s.tables.loraBRanks
        segmentedBatchIdx := s.tables.segmentedBatchIdx ++ [i] } }

/-- One request of the batch; an error carries what was written before it. -/
def visit (op : SgmvOp) (m : LoraManager) (batchSize i : Nat) (name : String) (s : Scan) :
    Except Scan Scan :=
  if name = "" then .ok (s.visitPlain i)
  else
    match m.getLoraTensorByName name (op.loraA ++ ".weight"),
        m.getLoraTensorByName name (op.loraB ++ ".weight") with
    | some a, some b =>
        if m.hasLoraBias name op.loraA || m.hasLoraBias name op.loraB then .error s
        else if op.inFeatures ≠ a.rows then .error s
        else if s.tables.outFeatures = 0 ∧ op.isAttentionSelf ∧
            b.cols ≠ op.qkvWeightDims.sum then
          .error { s with tables.outFeatures := b.cols }
        else
          let s := s.measure a b
          if s.lastLoraName = name then
            .ok (if i + 1 = batchSize then s.endSegment batchSize else s)
          else if op.isAttentionSelf ∧ b.rows * 3 ≠ a.cols then
            .error (if s.lastLoraName = "" then s else s.endSegment i)
          else
            let s := s.startSegment op i name a b
            .ok (if i + 1 = batchSize then s.endSegment batchSize else s)
    | _, _ => .error s

/-- The requests of the batch from position `i` on. -/
def visitAll (op : SgmvOp) (m : LoraManager) (batchSize : Nat) :
    Nat → List String → Scan → Except Scan Scan
  | _, [], s => .ok s
  | i, name :: rest, s =>
      match s.visit op m batchSize i name with
      | .ok s => visitAll op m batchSize (i + 1) rest s
      | .error s => .error s

end Scan

namespace SgmvOp

/-- The tables of a batch. In the context phase the only segment is made to
hold every row of the input. -/
def tables (op : SgmvOp) (m : LoraManager) (batch : Batch) : Except Tables Tables :=
  match Scan.visitAll op m batch.loraNames.length 0 batch.loraNames ⟨"", .cleared⟩ with
  | .error s => .error s.tables
  | .ok s =>
      if s.tables.segmentedBatchIdx.length = s.tables.loraAWeightPtrs.length * 2 then
        if batch.isContext then
          .ok { s.tables with
            segmentedBatchIdx := (s.tables.segmentedBatchIdx.set 0 0).set 1 batch.seqLen }
        else .ok s.tables
      else .error s.tables

end SgmvOp

/-- The tables in the members of the operator, and their copies on the device. -/
structure SgmvLora where
  tables : Tables
  device : Tables
deriving DecidableEq, Repr

/-- `SgmvLoraOpGPU::Reshape`, with whether it succeeds; `shaped` says whether its
tensors get their memory. -/
def SgmvLora.reshape (op : SgmvOp) (m : LoraManager) (batch : Batch) (shaped : Bool)
    (s : SgmvLora) : SgmvLora × Bool :=
  -- `lora_B_d_out_` is written last
  let unfinished (tables : Tables) : SgmvLora :=
    { s with tables := { tables with outFeatures := s.tables.outFeatures } }
  match op.tables m batch with
  | .error tables => (unfinished tables, false)
  | .ok tables => if shaped then (⟨tables, tables⟩, true) else (unfinished tables, false)

/-- The weights of a LoRA have the shapes the operator asks for. -/
def SgmvOp.Fits (op : SgmvOp) (m : LoraManager) (name : String) : Prop :=
  ∃ a b, m.getLoraTensorByName name (op.loraA ++ ".weight") = some a ∧
    m.getLoraTensorByName name (op.loraB ++ ".weight") = some b ∧
    m.hasLoraBias name op.loraA = false ∧ m.hasLoraBias name op.loraB = false ∧
    op.inFeatures = a.rows ∧
    (op.isAttentionSelf = true → b.cols = op.qkvWeightDims.sum ∧ b.rows * 3 = a.cols)

/-- A weight pointer is that of a LoRA of the batch which is loaded. -/
def LoadedPtr (m : LoraManager) (base : String) (names : List String) (ptr : Nat) : Prop :=
  ∃ name ∈ names, ∃ tensor, m.getLoraTensorByName name (base ++ ".weight") = some tensor ∧
    tensor.dataPtr = ptr

section Manager

variable {m m' : LoraManager} {name : String}

/-- Everything the operator asks about a LoRA follows from its tensors. -/
theorem getLoraTensorByName_congr (h : m.loras.lookup name = m'.loras.lookup name)
    (tensorName : String) :
    m.getLoraTensorByName name tensorName = m'.getLoraTensorByName name tensorName := by
  rw [LoraManager.getLoraTensorByName, LoraManager.getLoraTensorByName, h]

theorem SgmvOp.Fits.congr {op : SgmvOp} (h : m.loras.lookup name = m'.loras.lookup name)
    (hfits : op.Fits m name) : op.Fits m' name := by
  unfold SgmvOp.Fits LoraManager.hasLoraBias at hfits ⊢
  simp only [getLoraTensorByName_congr h] at hfits
  exact hfits

theorem SgmvOp.Fits.exists {op : SgmvOp} (hfits : op.Fits m name) :
    m.isLoraExists name = true := by
  obtain ⟨a, _, ha, _⟩ := hfits
  unfold LoraManager.getLoraTensorByName at ha
  unfold LoraManager.isLoraExists
  cases hlookup : m.loras.lookup name with
  | none => simp [hlookup] at ha
  | some weights => rfl

theorem isEmpty_eq_false (h : m.isLoraExists name = true) : m.isEmpty = false := by
  unfold LoraManager.isEmpty
  unfold LoraManager.isLoraExists at h
  cases hloras : m.loras with
  | nil => simp [hloras] at h
  | cons => rfl

/-- Another LoRA is registered. -/
theorem lookup_registerLora {other : String} {weights : WeightMap}
    (h : m.isLoraExists name = true) :
    (m.registerLora other weights).loras.lookup name = m.loras.lookup name := by
  unfold LoraManager.isLoraExists at h
  rw [LoraManager.registerLora, List.lookup_append]
  cases hlookup : m.loras.lookup name with
  | none => simp [hlookup] at h
  | some found => rfl

private theorem lookup_filter {β : Type} {name other : String} (hne : name ≠ other)
    (l : List (String × β)) :
    (l.filter fun lora => lora.1 ≠ other).lookup name = l.lookup name := by
  induction l with
  | nil => rfl
  | cons lora rest ih =>
      obtain ⟨key, value⟩ := lora
      by_cases hkey : key = other
      · subst hkey
        have hkeep : (name == key) = false := by simpa using hne
        simp only [ne_eq, not_true_eq_false, decide_false, List.filter_cons_of_neg,
          Bool.false_eq_true, not_false_eq_true, List.lookup_cons, hkeep]
        simpa using ih
      · rw [List.filter_cons_of_pos (by simpa using hkey), List.lookup_cons, List.lookup_cons, ih]

/-- Another LoRA is unregistered. -/
theorem lookup_unRegisterLora {other : String} (hne : name ≠ other) :
    (m.unRegisterLora other).loras.lookup name = m.loras.lookup name :=
  lookup_filter hne m.loras

end Manager

namespace Scan

variable {op : SgmvOp} {m m' : LoraManager} {batchSize i : Nat} {name : String} {s s' : Scan}

/-- Every LoRA met has two entries in the segment list, the one still open one
of them. -/
def Balanced (s : Scan) : Prop :=
  s.tables.segmentedBatchIdx.length + (if s.lastLoraName = "" then 0 else 1) =
    s.tables.loraAWeightPtrs.length * 2

theorem Balanced.visitPlain (h : s.Balanced) : (s.visitPlain i).Balanced := by
  unfold Balanced at h ⊢
  unfold Scan.visitPlain
  by_cases hlast : s.lastLoraName = ""
  · simpa [hlast] using h
  · simp only [hlast, if_false] at h
    simpa [hlast, endSegment] using h

theorem Balanced.measure {a b : Tensor} (h : s.Balanced) : (s.measure a b).Balanced := h

theorem Balanced.startSegment {a b : Tensor} (hname : name ≠ "") (h : s.Balanced) :
    (s.startSegment op i name a b).Balanced := by
  unfold Balanced at h ⊢
  unfold Scan.startSegment
  by_cases hlast : s.lastLoraName = ""
  · simp only [hlast, if_true] at h
    simp only [hlast, hname, if_true, if_false, List.length_append, List.length_singleton]
    omega
  · simp only [hlast, if_false] at h
    simp only [hlast, hname, if_false, List.length_append, List.length_singleton, endSegment]
    omega

/-- A scan whose last segment is closed when the batch ends there. -/
theorem Balanced.close (hlast : s.lastLoraName ≠ "") (h : s.Balanced) :
    let s' := if i + 1 = batchSize then s.endSegment batchSize else s
    if i + 1 = batchSize then
      s'.tables.segmentedBatchIdx.length = s'.tables.loraAWeightPtrs.length * 2
    else s'.Balanced := by
  unfold Balanced at h ⊢
  simp only [hlast, if_false] at h
  split
  · simpa [endSegment] using h
  · simpa [hlast] using h

theorem visit_balanced (hs : s.Balanced) (h : s.visit op m batchSize i name = .ok s') :
    if i + 1 = batchSize then
      s'.tables.segmentedBatchIdx.length = s'.tables.loraAWeightPtrs.length * 2
    else s'.Balanced := by
  unfold visit at h
  split at h
  case isTrue =>
      obtain rfl := Except.ok.inj h
      have hplain := hs.visitPlain (i := i)
      split
      · unfold Balanced at hplain
        have hclosed : (s.visitPlain i).lastLoraName = "" := by
          unfold visitPlain
          by_cases hlast : s.lastLoraName = "" <;> simp [hlast, endSegment]
        simpa [hclosed] using hplain
      · exact hplain
  case isFalse hname =>
      split at h
      case h_2 => cases h
      case h_1 a b _ _ =>
          split at h
          · cases h
          split at h
          · cases h
          split at h
          · cases h
          dsimp only at h
          split at h
          case isTrue hsame =>
              obtain rfl := Except.ok.inj h
              exact (hs.measure (a := a) (b := b)).close (by rw [hsame]; exact hname)
          case isFalse =>
              split at h
              · cases h
              · obtain rfl := Except.ok.inj h
                exact (hs.measure.startSegment hname).close hname

theorem visitAll_balanced {names : List String} (hlen : i + names.length = batchSize)
    (hne : names ≠ []) (hs : s.Balanced) (h : visitAll op m batchSize i names s = .ok s') :
    s'.tables.segmentedBatchIdx.length = s'.tables.loraAWeightPtrs.length * 2 := by
  induction names generalizing i s with
  | nil => exact absurd rfl hne
  | cons name rest ih =>
      rw [visitAll] at h
      cases hvisit : s.visit op m batchSize i name with
      | error t => simp [hvisit] at h
      | ok t =>
          simp only [hvisit] at h
          have hstep := visit_balanced hs hvisit
          rw [List.length_cons] at hlen
          cases rest with
          | nil =>
              rw [visitAll] at h
              obtain rfl := Except.ok.inj h
              simpa [show i + 1 = batchSize by simpa using hlen] using hstep
          | cons next rest =>
              rw [List.length_cons] at hlen
              rw [if_neg (by omega)] at hstep
              exact ih (by rw [List.length_cons]; omega) (List.cons_ne_nil _ _) hstep h

/-- A request whose LoRA fits is visited without error. -/
theorem visit_ok (hname : name = "" ∨ op.Fits m name) (s : Scan) :
    ∃ s', s.visit op m batchSize i name = .ok s' := by
  unfold visit
  by_cases hplain : name = ""
  · exact ⟨_, by rw [if_pos hplain]⟩
  · obtain ⟨a, b, ha, hb, hbiasA, hbiasB, hrows, hattention⟩ := hname.resolve_left hplain
    have hcols : ¬ (s.tables.outFeatures = 0 ∧ op.isAttentionSelf = true ∧
        b.cols ≠ op.qkvWeightDims.sum) := fun h => h.2.2 (hattention h.2.1).1
    have hranks : ¬ (op.isAttentionSelf = true ∧ b.rows * 3 ≠ a.cols) := fun h =>
      h.2 (hattention h.1).2
    simp only [hplain, ha, hb, hbiasA, hbiasB, hrows, hcols, hranks, if_false, Bool.or_self,
      Bool.false_eq_true, ne_eq, not_true_eq_false]
    split <;> exact ⟨_, rfl⟩

theorem visitAll_ok {names : List String} (hnames : ∀ name ∈ names, name = "" ∨ op.Fits m name)
    (i : Nat) (s : Scan) : ∃ s', visitAll op m batchSize i names s = .ok s' := by
  induction names generalizing i s with
  | nil => exact ⟨s, rfl⟩
  | cons name rest ih =>
      obtain ⟨hname, hrest⟩ := List.forall_mem_cons.mp hnames
      obtain ⟨t, ht⟩ : ∃ t, s.visit op m batchSize i name = .ok t := visit_ok hname s
      rw [visitAll, ht]
      exact ih hrest (i + 1) t

/-- The scan reads no more of the manager than the LoRAs of the batch. -/
theorem visitAll_congr {names : List String}
    (hnames : ∀ name ∈ names, name = "" ∨ m.loras.lookup name = m'.loras.lookup name)
    (i : Nat) (s : Scan) :
    visitAll op m batchSize i names s = visitAll op m' batchSize i names s := by
  induction names generalizing i s with
  | nil => rfl
  | cons name rest ih =>
      obtain ⟨hname, hrest⟩ := List.forall_mem_cons.mp hnames
      have hvisit : s.visit op m batchSize i name = s.visit op m' batchSize i name := by
        unfold visit LoraManager.hasLoraBias
        rcases hname with hname | hname
        · simp only [hname, if_true]
        · simp only [getLoraTensorByName_congr hname]
      rw [visitAll, visitAll, hvisit]
      split
      · exact ih hrest _ _
      · rfl

/-- The pointers gathered so far are those of loaded LoRAs. -/
def Gathered (op : SgmvOp) (m : LoraManager) (names : List String) (t : Tables) : Prop :=
  (∀ ptr ∈ t.loraAWeightPtrs, LoadedPtr m op.loraA names ptr) ∧
    ∀ ptr ∈ t.loraBWeightPtrs, LoadedPtr m op.loraB names ptr

theorem visit_gathered {names : List String} (hname : name ∈ names)
    (hs : Gathered op m names s.tables) (h : s.visit op m batchSize i name = .ok s') :
    Gathered op m names s'.tables := by
  have hend : ∀ (k : Nat) {t : Scan}, Gathered op m names t.tables →
      Gathered op m names (t.endSegment k).tables := fun _ _ ht => ht
  unfold visit at h
  split at h
  case isTrue =>
      obtain rfl := Except.ok.inj h
      unfold visitPlain
      dsimp only
      split
      · exact hs
      · exact hs
  case isFalse =>
      split at h
      case h_2 => cases h
      case h_1 a b ha hb =>
          split at h
          · cases h
          split at h
          · cases h
          split at h
          · cases h
          dsimp only at h
          split at h
          case isTrue =>
              obtain rfl := Except.ok.inj h
              split
              · exact hs
              · exact hs
          case isFalse =>
              split at h
              · cases h
              · obtain rfl := Except.ok.inj h
                have hstart : Gathered op m names
                    ((s.measure a b).startSegment op i name a b).tables := by
                  unfold startSegment
                  constructor
                  · intro ptr hptr
                    rcases List.mem_append.mp hptr with hptr | hptr
                    · refine hs.1 ptr ?_
                      split at hptr <;> exact hptr
                    · obtain rfl := List.mem_singleton.mp hptr
                      exact ⟨name, hname, a, ha, rfl⟩
                  · intro ptr hptr
                    rcases List.mem_append.mp hptr with hptr | hptr
                    · refine hs.2 ptr ?_
                      split at hptr <;> exact hptr
                    · obtain rfl := List.mem_singleton.mp hptr
                      exact ⟨name, hname, b, hb, rfl⟩
                split
                · exact hend _ hstart
                · exact hstart

theorem visitAll_gathered {names rest : List String} (hrest : ∀ name ∈ rest, name ∈ names)
    (hs : Gathered op m names s.tables) (h : visitAll op m batchSize i rest s = .ok s') :
    Gathered op m names s'.tables := by
  induction rest generalizing i s with
  | nil =>
      obtain rfl := Except.ok.inj h
      exact hs
  | cons name rest ih =>
      obtain ⟨hname, hrest⟩ := List.forall_mem_cons.mp hrest
      rw [visitAll] at h
      cases hvisit : s.visit op m batchSize i name with
      | error t => simp [hvisit] at h
      | ok t =>
          simp only [hvisit] at h
          exact ih hrest (visit_gathered hname hs hvisit) h

end Scan

section Tables

variable {op : SgmvOp} {m m' : LoraManager} {batch : Batch}

/-- The tables of a batch can be computed when its LoRAs fit. -/
theorem SgmvOp.tables_ok (hnames : ∀ name ∈ batch.loraNames, name = "" ∨ op.Fits m name) :
    ∃ t, op.tables m batch = .ok t := by
  obtain ⟨s, hs⟩ : ∃ s, Scan.visitAll op m batch.loraNames.length 0 batch.loraNames
      ⟨"", .cleared⟩ = .ok s := Scan.visitAll_ok hnames 0 _
  have hbalanced : s.tables.segmentedBatchIdx.length = s.tables.loraAWeightPtrs.length * 2 := by
    cases hbatch : batch.loraNames with
    | nil =>
        rw [hbatch] at hs
        obtain rfl := Except.ok.inj hs
        rfl
    | cons name rest =>
        rw [hbatch] at hs
        have hcleared : Scan.Balanced ⟨"", .cleared⟩ := rfl
        exact Scan.visitAll_balanced (Nat.zero_add _) (List.cons_ne_nil _ _) hcleared hs
  unfold SgmvOp.tables
  rw [hs]
  simp only [hbalanced, if_true]
  split
  · exact ⟨_, rfl⟩
  · exact ⟨_, rfl⟩

theorem SgmvOp.tables_congr (hnames : ∀ name ∈ batch.loraNames,
    name = "" ∨ m.loras.lookup name = m'.loras.lookup name) :
    op.tables m batch = op.tables m' batch := by
  unfold SgmvOp.tables
  rw [Scan.visitAll_congr hnames]

/-- Every pointer in the tables of a batch is that of a LoRA the batch names and
the manager has. -/
theorem SgmvOp.tables_gathered {t : Tables} (h : op.tables m batch = .ok t) :
    Scan.Gathered op m batch.loraNames t := by
  unfold SgmvOp.tables at h
  cases hs : Scan.visitAll op m batch.loraNames.length 0 batch.loraNames ⟨"", .cleared⟩ with
  | error s => simp [hs] at h
  | ok s =>
      have hcleared : Scan.Gathered op m batch.loraNames .cleared :=
        ⟨fun _ h => (by cases h), fun _ h => (by cases h)⟩
      have hgathered := Scan.visitAll_gathered (fun _ hname => hname) hcleared hs
      simp only [hs] at h
      split at h
      · split at h
        · obtain rfl := Except.ok.inj h
          exact hgathered
        · obtain rfl := Except.ok.inj h
          exact hgathered
      · cases h

end Tables

end DashInfer.Lora
