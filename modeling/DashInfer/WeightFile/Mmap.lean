import DashInfer.WeightFile.RoundTrip

/-!
Loading from a mapped file. The mapped mode takes dense data in place and never
moves the stream behind it, so it reads the data as the next local header.
-/

namespace DashInfer.WeightFile

open DashInfer.Lib
open DashInfer.Weight

/-- The data has the size its header gives it. -/
def Payload.Sized (info : TensorInfo) : Payload → Prop
  | .dense data =>
      info.mode = .dense ∧ (data.length : Int) = sizeBytes info ∧ count info.shape ≠ 0
  | .csc colOffsets rowIndices data =>
      info.mode = .csc ∧ ∃ rows cols dims, info.shape = rows :: cols :: dims ∧
        (colOffsets.length : Int) = (cols + 1) * 4 ∧ (rowIndices.length : Int) = info.nnz * 4 ∧
        (data.length : Int) = info.nnz * sizeofType info.dtype ∧
        ¬ (info.nnz = 0 ∧ colOffsets ≠ [])
  | .ell rowIndices data =>
      info.mode = .ell ∧ ∃ rows cols dims, info.shape = rows :: cols :: dims ∧
        (rowIndices.length : Int) = info.nnz * 2 ∧
        (data.length : Int) = info.nnz * sizeofType info.dtype

/-- A frame of a well-formed file: the headers are read as they stand and the
data has its size. -/
structure Entry extends Frame where
  info : TensorInfo
  headed : toFrame.Headed info
  sized : payload.Sized info

/-- A well-formed file: any number of tensors, dense or sparse, of different
names. -/
structure WeightFile where
  entries : List Entry
  names : (entries.map Entry.toFrame).map Frame.name |>.Nodup

def framesOf (entries : List Entry) : List Frame := entries.map Entry.toFrame

def WeightFile.bytes (file : WeightFile) : List UInt8 := fileOf (framesOf file.entries)

/-- The load in one of the two modes. -/
def LoadConfig.withMmap (cfg : LoadConfig) (useMmap : Bool) : LoadConfig :=
  { cfg with useMmap := useMmap }

/-- The tensors of the rank after a load; there are none after a failed one. -/
def tensorsOf (cfg : LoadConfig) (file : List UInt8) : Option (List LoadedTensor) :=
  (loadWeightForModel cfg file).toOption.map LoadResult.tensorMap

/-- Both modes give the rank the same tensors. -/
def ModesAgree (cfg : LoadConfig) (file : List UInt8) : Prop :=
  tensorsOf (cfg.withMmap true) file = tensorsOf (cfg.withMmap false) file

/-- The splitter of its mode takes the dense tensor on this rank. -/
def Entry.Accepted (cfg : LoadConfig) (f : Entry) : Prop :=
  ∃ part, DenseWeightLoader.loadFromMemory cfg f.name f.info f.payload.bytes = .ok part

/-- The first dense tensor, if there is one, is the last tensor of the file or
is refused by its splitter. -/
def DenseLast (cfg : LoadConfig) : List Entry → Prop
  | [] => True
  | f :: rest =>
      if f.info.mode = .dense then f.Accepted cfg → rest = [] else DenseLast cfg rest

/-- The data of the first dense tensor does not read as a local header. -/
def PlainData : List Entry → Prop
  | [] => True
  | f :: rest =>
      if f.info.mode = .dense then
        readLE (((f.payload.bytes ++ fileOf (framesOf rest)).drop 2).take 2) ≠ 0x01
      else PlainData rest

section Turns

variable {cfg : LoadConfig} {turns : Nat} {f : Entry} {more : List UInt8}

theorem Entry.loads_sparse (f : Entry) (cfg : LoadConfig) (h : f.info.mode ≠ .dense) :
    f.payload.Loads cfg f.name f.info none := by
  have hsized := f.sized
  generalize f.payload = payload at hsized ⊢
  cases payload with
  | dense data => exact absurd hsized.1 h
  | csc colOffsets rowIndices data => exact ⟨rfl, hsized⟩
  | ell rowIndices data => exact ⟨rfl, hsized⟩

theorem Entry.dense_payload (f : Entry) (h : f.info.mode = .dense) :
    f.payload = .dense f.payload.bytes ∧ (f.payload.bytes.length : Int) = sizeBytes f.info ∧
      count f.info.shape ≠ 0 := by
  have hsized := f.sized
  generalize f.payload = payload at hsized ⊢
  cases payload with
  | dense data => exact ⟨rfl, hsized.2⟩
  | csc colOffsets rowIndices data =>
      rw [hsized.1] at h
      cases h
  | ell rowIndices data =>
      rw [hsized.1] at h
      cases h

/-- The data of a dense tensor in a stream: it ends before the stream does. -/
theorem loadDense_sized (hmode : f.info.mode = .dense) (hmore : more ≠ []) :
    loadTensor cfg f.name f.info (f.payload.bytes ++ more) =
      match DenseWeightLoader.loadFromMemory cfg f.name f.info f.payload.bytes with
      | .ok part => .ok (⟨f.name, f.info, f.payload, some part⟩,
          if cfg.useMmap then f.payload.bytes ++ more else more)
      | .error .asException =>
          .error (if cfg.useMmap then .status "ALLSPARK_RUNTIME_ERROR" else .splitter .asException)
      | .error .undefinedBehaviour =>
          .error (if cfg.useMmap then .undefinedBehaviour else .splitter .undefinedBehaviour) := by
  obtain ⟨hpayload, hlen, hcount⟩ := f.dense_payload hmode
  have hsize : (sizeBytes f.info).toNat = f.payload.bytes.length := by omega
  have hmorePos := List.length_pos_iff.mpr hmore
  have hlong : ¬ (f.payload.bytes ++ more).length ≤ f.payload.bytes.length := by
    rw [List.length_append]
    omega
  have hempty : ¬ (cfg.asserts = true ∧ count f.info.shape = 0) := fun h => hcount h.2
  rw [loadTensor, if_pos hmode, loadDense, if_neg (by omega)]
  simp only [hsize, List.take_left, List.drop_left, if_neg hlong, if_neg hempty, ← hpayload]
  cases cfg.useMmap <;>
    cases DenseWeightLoader.loadFromMemory cfg f.name f.info f.payload.bytes with
    | ok part => rfl
    | error fault => cases fault <;> rfl

end Turns

section Orders

variable {cfg : LoadConfig} {turns : Nat} {f : Entry} {rest : List Entry} {more : List UInt8}

/-- The tensors in the order they were read. -/
def orderOf (cfg : LoadConfig) (turns : Nat) (stream : List UInt8) : Option (List LoadedTensor) :=
  (loadLoop cfg turns stream).toOption.map LoadResult.processOrder

/-- A turn that loaded a tensor puts it in front of the later ones. -/
theorem orderOf_turn {t : LoadedTensor} {after : List UInt8}
    (h : loadTensor cfg f.name f.info (f.payload.bytes ++ more) = .ok (t, after)) :
    orderOf cfg (turns + 1) (f.bytes ++ more) = (orderOf cfg turns after).map (t :: ·) := by
  rw [orderOf, loadLoop, f.headed.readHeader]
  simp only [bind, Except.bind, h]
  rw [orderOf]
  cases loadLoop cfg turns after <;> rfl

theorem orderOf_failed {failure : Failure}
    (h : loadTensor cfg f.name f.info (f.payload.bytes ++ more) = .error failure) :
    orderOf cfg (turns + 1) (f.bytes ++ more) = none := by
  rw [orderOf, loadLoop, f.headed.readHeader]
  simp only [bind, Except.bind, h]
  rfl

theorem orderOf_sparse (hmode : f.info.mode ≠ .dense) :
    orderOf cfg (turns + 1) (f.bytes ++ more) =
      (orderOf cfg turns more).map (⟨f.name, f.info, f.payload, none⟩ :: ·) :=
  orderOf_turn (loadTensor_sparse hmode (f.loads_sparse cfg hmode) more)

/-- A dense tensor its splitter refuses ends the load in either mode. -/
theorem orderOf_refused (hmode : f.info.mode = .dense) (hmore : more ≠ [])
    (h : ¬ f.Accepted cfg) (useMmap : Bool) :
    orderOf (cfg.withMmap useMmap) (turns + 1) (f.bytes ++ more) = none := by
  have hload := @loadDense_sized (cfg.withMmap useMmap) f more hmode hmore
  have hsame : DenseWeightLoader.loadFromMemory (cfg.withMmap useMmap) f.name f.info
      f.payload.bytes = DenseWeightLoader.loadFromMemory cfg f.name f.info f.payload.bytes := rfl
  rw [hsame] at hload
  cases hpart : DenseWeightLoader.loadFromMemory cfg f.name f.info f.payload.bytes with
  | ok part => exact absurd ⟨part, hpart⟩ h
  | error fault =>
      rw [hpart] at hload
      cases fault
      · exact orderOf_failed hload
      · exact orderOf_failed hload

/-- An accepted dense tensor is one turn of the reading mode. -/
theorem orderOf_read (hmode : f.info.mode = .dense) (hmore : more ≠ []) {part : AsTensor}
    (hpart : DenseWeightLoader.loadFromMemory cfg f.name f.info f.payload.bytes = .ok part) :
    orderOf (cfg.withMmap false) (turns + 1) (f.bytes ++ more) =
      (orderOf (cfg.withMmap false) turns more).map
        (⟨f.name, f.info, f.payload, some part⟩ :: ·) := by
  have hload := @loadDense_sized (cfg.withMmap false) f more hmode hmore
  have hsame : DenseWeightLoader.loadFromMemory (cfg.withMmap false) f.name f.info
      f.payload.bytes = .ok part := hpart
  rw [hsame] at hload
  exact orderOf_turn hload

/-- The mapped mode stops behind it, when the data is no local header. -/
theorem orderOf_mmap (hmode : f.info.mode = .dense)
    (hplain : readLE (((f.payload.bytes ++ fileOf (framesOf rest)).drop 2).take 2) ≠ 0x01)
    {part : AsTensor}
    (hpart : DenseWeightLoader.loadFromMemory cfg f.name f.info f.payload.bytes = .ok part) :
    orderOf (cfg.withMmap true) (turns + 2) (f.bytes ++ fileOf (framesOf rest)) =
      some [⟨f.name, f.info, f.payload, some part⟩] := by
  have hmore := (follows_fileOf (framesOf rest)).ne_nil
  have hload := @loadDense_sized (cfg.withMmap true) f _ hmode hmore
  have hsame : DenseWeightLoader.loadFromMemory (cfg.withMmap true) f.name f.info
      f.payload.bytes = .ok part := hpart
  rw [hsame] at hload
  have hlong : ¬ (f.payload.bytes ++ fileOf (framesOf rest)).length < 6 := by
    obtain ⟨flag, tail, heq, htail⟩ := follows_fileOf (framesOf rest)
    rw [heq, List.length_append]
    simp only [List.length_cons]
    omega
  have hstop : readHeader (f.payload.bytes ++ fileOf (framesOf rest)) = .ok none := by
    rw [readHeader, if_neg hlong, if_pos hplain]
  have hmapped : (cfg.withMmap true).useMmap = true := rfl
  rw [orderOf_turn hload, orderOf, if_pos hmapped, loadLoop, hstop]
  rfl

/-- A load that gets through a frame has a tensor to show. -/
theorem orderOf_ne_nil : orderOf cfg turns (f.bytes ++ more) ≠ some [] := by
  cases turns with
  | zero =>
      intro h
      cases h
  | succ turns =>
      cases hload : loadTensor cfg f.name f.info (f.payload.bytes ++ more) with
      | error failure =>
          rw [orderOf_failed hload]
          intro h
          cases h
      | ok loaded =>
          rw [orderOf_turn hload]
          intro h
          obtain ⟨l, -, hl⟩ := Option.map_eq_some_iff.mp h
          exact List.cons_ne_nil _ _ hl

theorem framesOf_cons (f : Entry) (rest : List Entry) :
    fileOf (framesOf (f :: rest)) = f.bytes ++ fileOf (framesOf rest) := fileOf_cons _ _

theorem orderOf_end (cfg : LoadConfig) (turns : Nat) :
    orderOf cfg (turns + 1) (fileOf (framesOf [])) = some [] := by
  have hend : fileOf (framesOf []) = setGlobalHeader := rfl
  rw [orderOf, hend, loadLoop_setGlobalHeader]
  rfl

/-- The two loops read the same tensors exactly when the first dense tensor is
the last one, or is refused. -/
theorem orderOf_agree {entries : List Entry} (hplain : PlainData entries)
    (hturns : (fileOf (framesOf entries)).length < turns) :
    orderOf (cfg.withMmap true) turns (fileOf (framesOf entries)) =
        orderOf (cfg.withMmap false) turns (fileOf (framesOf entries)) ↔
      DenseLast cfg entries := by
  induction entries generalizing turns with
  | nil =>
      obtain ⟨turns, rfl⟩ : ∃ k, turns = k + 1 := ⟨turns - 1, by omega⟩
      rw [orderOf_end, orderOf_end]
      exact ⟨fun _ => trivial, fun _ => rfl⟩
  | cons f rest ih =>
      have hlen := f.length_bytes
      have hmore := (follows_fileOf (framesOf rest)).ne_nil
      rw [framesOf_cons, List.length_append] at hturns
      obtain ⟨turns, rfl⟩ : ∃ k, turns = k + 2 := ⟨turns - 2, by omega⟩
      rw [framesOf_cons]
      by_cases hmode : f.info.mode = .dense
      · rw [PlainData, if_pos hmode] at hplain
        rw [DenseLast, if_pos hmode]
        by_cases haccept : f.Accepted cfg
        · obtain ⟨part, hpart⟩ := haccept
          rw [orderOf_mmap hmode hplain hpart, orderOf_read hmode hmore hpart]
          constructor
          · intro h _
            obtain ⟨l, hl, hcons⟩ := Option.map_eq_some_iff.mp h.symm
            rw [(List.cons.inj hcons).2] at hl
            cases rest with
            | nil => rfl
            | cons g rest =>
                rw [framesOf_cons] at hl
                exact absurd hl orderOf_ne_nil
          · intro h
            obtain rfl := h ⟨part, hpart⟩
            rw [orderOf_end]
            rfl
        · rw [orderOf_refused hmode hmore haccept, orderOf_refused hmode hmore haccept]
          exact ⟨fun _ h => absurd h haccept, fun _ => rfl⟩
      · rw [PlainData, if_neg hmode] at hplain
        rw [DenseLast, if_neg hmode, orderOf_sparse hmode, orderOf_sparse hmode,
          ← @ih (turns + 1) hplain (by omega)]
        constructor
        · intro h
          exact Option.map_injective (fun l m hlm => (List.cons.inj hlm).2) h
        · intro h
          rw [h]

/-- The names of the tensors read, from the front of the file. -/
theorem names_loadLoop_eq {entries : List Entry} {useMmap : Bool}
    (hplain : useMmap = true → PlainData entries)
    (hturns : (fileOf (framesOf entries)).length < turns) {l : List LoadedTensor}
    (h : orderOf (cfg.withMmap useMmap) turns (fileOf (framesOf entries)) = some l) :
    l.map LoadedTensor.name <+: (framesOf entries).map Frame.name := by
  induction entries generalizing turns l with
  | nil =>
      obtain ⟨turns, rfl⟩ : ∃ k, turns = k + 1 := ⟨turns - 1, by omega⟩
      rw [orderOf_end] at h
      obtain rfl := Option.some.inj h
      exact List.nil_prefix
  | cons f rest ih =>
      have hlen := f.length_bytes
      have hmore := (follows_fileOf (framesOf rest)).ne_nil
      rw [framesOf_cons, List.length_append] at hturns
      obtain ⟨turns, rfl⟩ : ∃ k, turns = k + 2 := ⟨turns - 2, by omega⟩
      rw [framesOf_cons] at h
      have hcons : ∀ {t : LoadedTensor}, t.name = f.name → (useMmap = true → PlainData rest) →
          (orderOf (cfg.withMmap useMmap) (turns + 1) (fileOf (framesOf rest))).map (t :: ·) =
            some l →
          l.map LoadedTensor.name <+: (framesOf (f :: rest)).map Frame.name := by
        intro t hname hrest hl
        obtain ⟨m, hm, rfl⟩ := Option.map_eq_some_iff.mp hl
        have htail := ih hrest (by omega) hm
        rw [List.map_cons, hname]
        exact List.cons_prefix_cons.mpr ⟨rfl, htail⟩
      by_cases hmode : f.info.mode = .dense
      · by_cases haccept : f.Accepted cfg
        · obtain ⟨part, hpart⟩ := haccept
          cases useMmap with
          | true =>
              have hfirst := hplain rfl
              rw [PlainData, if_pos hmode] at hfirst
              rw [orderOf_mmap hmode hfirst hpart] at h
              obtain rfl := Option.some.inj h
              exact List.cons_prefix_cons.mpr ⟨rfl, List.nil_prefix⟩
          | false =>
              rw [orderOf_read hmode hmore hpart] at h
              exact hcons rfl (fun hmap => absurd hmap Bool.false_ne_true) h
        · rw [orderOf_refused hmode hmore haccept] at h
          cases h
      · rw [orderOf_sparse hmode] at h
        refine hcons rfl (fun hmap => ?_) h
        have hfirst := hplain hmap
        rwa [PlainData, if_neg hmode] at hfirst

/-- With different names the map of the rank holds the tensors as they were
read. -/
theorem tensorsOf_eq (file : WeightFile) {useMmap : Bool}
    (hplain : useMmap = true → PlainData file.entries) :
    tensorsOf (cfg.withMmap useMmap) file.bytes =
      orderOf (cfg.withMmap useMmap) (file.bytes.length + 1) file.bytes := by
  have hprefix := fun l => @names_loadLoop_eq cfg (file.bytes.length + 1) file.entries useMmap hplain
    (Nat.lt_succ_self _) l
  rw [tensorsOf, loadWeightForModel]
  rw [orderOf] at hprefix ⊢
  cases hload : loadLoop (cfg.withMmap useMmap) (file.bytes.length + 1) file.bytes with
  | error failure => rfl
  | ok r =>
      have hnames := hprefix r.processOrder (by
        rw [WeightFile.bytes] at hload
        rw [WeightFile.bytes, hload]
        rfl)
      have hmap := tensorMap_eq.mpr (file.names.sublist hnames.sublist)
      exact congrArg some hmap

end Orders

section Examples

theorem length_vectorHeader : (createAllsparkyHeader vectorTensor.attr).length ≤ 255 := by
  decide +kernel

/-- A vector of two floats under a name. -/
def vectorEntry (name : List UInt8) (h : name.length < 65536) : Entry where
  name := name
  header := createAllsparkyHeader vectorTensor.attr
  payload := .dense vectorTensor.binData
  info := vectorTensor.denseInfo .float32
  headed := ⟨oneLine_frameOf name (.dense vectorTensor.binData) (by decide), h,
    length_vectorHeader, parse_written rfl rfl⟩
  sized := ⟨rfl, by decide, by decide⟩

def oneVector : WeightFile := ⟨[vectorEntry (text "a") (by decide +kernel)], by decide +kernel⟩

def twoVectors : WeightFile :=
  ⟨[vectorEntry (text "a") (by decide +kernel), vectorEntry (text "b") (by decide +kernel)],
    by decide +kernel⟩

theorem plainData_vectorEntry {name : List UInt8} (h : name.length < 65536) (rest : List Entry) :
    PlainData (vectorEntry name h :: rest) := by
  have hmode : (vectorEntry name h).info.mode = .dense := rfl
  rw [PlainData, if_pos hmode]
  have hdata : (vectorEntry name h).payload.bytes = [0, 0, 128, 63, 0, 0, 0, 64] := rfl
  rw [hdata]
  simp only [List.cons_append, List.drop_succ_cons, List.drop_zero, List.take_succ_cons,
    List.take_zero]
  decide

end Examples

end DashInfer.WeightFile
