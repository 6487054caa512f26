import DashInfer.WeightFile.Written

/-!
Which tensors come back from a weight file. The writer takes names, headers and
matrices that the loader cannot read; the theorem says exactly which.
-/

namespace DashInfer.WeightFile

attribute [local semireducible] Lib.text

open DashInfer.Lib
open DashInfer.Weight

/-- The loaded tensor is the saved one: `a` are the attributes and `payload` is
the data it was written with. -/
structure SavedTensor.Same (t : SavedTensor) (a : TensorAttribute) (payload : Payload)
    (w : LoadedTensor) : Prop where
  name : w.name = t.name
  dtype : DataType.code w.info.dtype = some (t.attr.dtype, t.attr.wordSize)
  shape : w.info.shape = t.attr.shape
  mode : DataMode.code w.info.mode = t.attr.sparseType
  nnz : w.info.nnz = a.nnz
  splitMode : w.info.splitMode = t.attr.splitMode
  groupList : w.info.groupList = t.attr.groupList
  payload : w.payload = payload

def SavedTensor.Recovered (fp16 : Bool) (t : SavedTensor) (w : LoadedTensor) : Prop :=
  ∃ a payload, convert fp16 t.attr t.binData = .ok (some (a, payload)) ∧ t.Same a payload w

/-- Loading the file yields the saved tensors, in the map of the rank too, and
stops at the end of the file. -/
def RoundTrips (cfg : LoadConfig) (fp16 : Bool) (tensors : List SavedTensor)
    (file : List UInt8) : Prop :=
  ∃ r, loadWeightForModel cfg file = .ok r ∧ r.rest = [] ∧
    List.Forall₂ (SavedTensor.Recovered fp16) tensors r.processOrder ∧
    r.tensorMap = r.processOrder

/-- What the loader knows about a dense tensor of the type. -/
def SavedTensor.denseInfo (t : SavedTensor) (dtype : DataType) : TensorInfo :=
  ⟨t.attr.shape, dtype, .dense, t.attr.splitMode, 0, t.attr.groupList⟩

/-- A matrix with an element that is kept. -/
def SavedTensor.HasElement (fp16 : Bool) (t : SavedTensor) : Prop :=
  ∃ e, elementOf? fp16 t.attr.wordSize = some e ∧
    ∃ i < (t.attr.shape.getD 0 0).toNat, ∃ j < (t.attr.shape.getD 1 0).toNat,
      e.significant (entry e t.binData (i * (t.attr.shape.getD 1 0).toNat + j)) = true

/-- The tensors that come back. -/
structure SavedTensor.Portable (cfg : LoadConfig) (fp16 : Bool) (t : SavedTensor) : Prop where
  /-- the local header has 16 bits for the length of the name -/
  name : t.name.length < 65536
  dtype : ∃ dtype, DataType.code dtype = some (t.attr.dtype, t.attr.wordSize)
  /-- the parser reads a group list in two modes only, and never an empty one -/
  groups : ReadsGroups t.attr.splitMode ↔ t.attr.groupList ≠ []
  /-- the header fits the line buffer -/
  line : ∀ a payload, convert fp16 t.attr t.binData = .ok (some (a, payload)) →
    (createAllsparkyHeader a).length ≤ 255
  /-- the splitter of its mode takes the tensor -/
  dense : t.attr.sparseType = 0 → t.attr.nnz = 0 ∧ ¬ (cfg.asserts ∧ t.attr.shape.prod = 0) ∧
    ∀ dtype, DataType.code dtype = some (t.attr.dtype, t.attr.wordSize) →
      ∃ part, DenseWeightLoader.loadFromMemory cfg t.name (t.denseInfo dtype) t.binData = .ok part
  sparse : t.attr.sparseType ≠ 0 → (elementOf? fp16 t.attr.wordSize).isSome
  csc : t.attr.sparseType = 1 → t.HasElement fp16

section Headers

theorem letter_of_code {dtype : DataType} {c : UInt8} {size : Int}
    (h : DataType.code dtype = some (c, size)) : 98 ≤ c.toNat ∧ size = sizeofType dtype := by
  cases dtype <;> cases h <;> exact ⟨by decide, rfl⟩

theorem fgets_append {pre : List UInt8} (h : (10 : UInt8) ∉ pre) (limit : Nat)
    (rest : List UInt8) : fgets (pre.length + limit) (pre ++ rest) = pre ++ fgets limit rest := by
  induction pre with
  | nil => rw [List.length_nil, Nat.zero_add, List.nil_append, List.nil_append]
  | cons c pre ih =>
      have hne : c ≠ byte '\n' := fun heq => h (heq ▸ List.mem_cons_self)
      rw [List.length_cons, Nat.add_right_comm, List.cons_append, fgets, if_neg hne,
        ih fun hmem => h (List.mem_cons_of_mem _ hmem), List.cons_append]

theorem after?_short {key text : List UInt8} (h : text.length < key.length) :
    after? key text = none := by
  induction text with
  | nil => rfl
  | cons c rest ih =>
      rw [List.length_cons] at h
      have hno : key.isPrefixOf (c :: rest) = false := by
        rw [← Bool.not_eq_true, List.isPrefixOf_iff_prefix]
        intro hpre
        have hle := hpre.length_le
        rw [List.length_cons] at hle
        omega
      rw [after?, hno, if_neg Bool.false_ne_true, ih (by omega)]

theorem parseTensorInfo_ok {line : List UInt8} {info : TensorInfo}
    (h : parseTensorInfo line = .ok info) :
    ∃ dtype, parseDescr (line.takeWhile (· ≠ 0)) = .ok dtype := by
  obtain ⟨dtype, hdtype, -⟩ := ok_of_bind h
  exact ⟨dtype, hdtype⟩

/-- A header line starts with the type letter of a data type, or it is not
parsed. -/
theorem letter_of_parse {c : UInt8} {rest : List UInt8} {info : TensorInfo}
    (h : parseTensorInfo (fgets 255 (text "\x7b'descr': '<" ++ c :: rest)) = .ok info) :
    98 ≤ c.toNat := by
  have hopen : (10 : UInt8) ∉ text "\x7b'descr': '<" := by decide
  have hlen : 255 = (text "\x7b'descr': '<").length + 243 := by decide
  have hnul : ∀ x ∈ text "\x7b'descr': '<", decide (x ≠ 0) = true := by decide +kernel
  obtain ⟨dtype, hdtype⟩ := parseTensorInfo_ok h
  rw [hlen, fgets_append hopen, List.takeWhile_append_of_pos hnul, parseDescr_open] at hdtype
  have hletter : ∀ size, parseDtype c size = .ok dtype → 98 ≤ c.toNat :=
    fun size hc => (letter_of_code (parseDtype_eq_ok.mp hc)).1
  rw [fgets] at hdtype
  split at hdtype
  case h_1 => cases hdtype
  case h_2 type size heq =>
      have htype : type = c := by
        split at heq
        · rw [List.takeWhile_cons] at heq
          split at heq
          · exact (List.cons.inj heq).1.symm
          · cases heq
        · rw [List.takeWhile_cons] at heq
          split at heq
          · exact (List.cons.inj heq).1.symm
          · cases heq
      rw [htype] at hdtype
      exact hletter _ hdtype

/-- Nothing is parsed where the next local header stands. -/
theorem not_parsed_follows {more : List UInt8} (h : Follows more) (info : TensorInfo) :
    parseTensorInfo (fgets 255 more) ≠ .ok info := by
  intro hinfo
  obtain ⟨flag, tail, rfl, -⟩ := h
  obtain ⟨dtype, hdtype⟩ := parseTensorInfo_ok hinfo
  have hshort : ((fgets 255 (65 :: 83 :: flag :: 0 :: tail)).takeWhile (· ≠ 0)).length <
      (text "descr").length := by
    have hkey : (text "descr").length = 5 := by decide
    have hA : (65 : UInt8) ≠ byte '\n' := by decide
    have hS : (83 : UInt8) ≠ byte '\n' := by decide
    have hzero : (0 : UInt8) ≠ byte '\n' := by decide
    rw [hkey, fgets, if_neg hA, fgets, if_neg hS, fgets]
    split
    · exact lt_of_le_of_lt (List.takeWhile_prefix _).length_le (by simp)
    · rw [fgets, if_neg hzero]
      by_cases hflag : flag = 0
      · simp [hflag]
      · simp [hflag]
  rw [parseDescr, after?_short hshort] at hdtype
  cases hdtype

theorem oneLine_frameOf {a : TensorAttribute} (name : List UInt8) (payload : Payload)
    (h : 98 ≤ a.dtype.toNat) : (frameOf name (some (a, payload))).OneLine := by
  obtain ⟨body, hbody, hprint⟩ := exists_body a
  refine ⟨text "\x7b'descr': '<" ++ a.dtype :: body, ?_, ?_⟩
  · rw [List.append_assoc, List.cons_append, ← hbody]
    rfl
  · refine (printable_text (by decide +kernel)).append ?_
    intro x hx
    rcases List.mem_cons.mp hx with rfl | hx
    · omega
    · exact hprint x hx

/-- Every frame the writer makes is a line of printable characters, or no
header is found in it. -/
theorem SavedTensor.Written.printed {fp16 : Bool} {t : SavedTensor} {f : Frame}
    (h : t.Written fp16 f) : f.OneLine ∨ f.Unparsable := by
  obtain ⟨c, -, rfl⟩ := h
  cases c with
  | none => exact Or.inr fun more hmore info hinfo => not_parsed_follows hmore info hinfo
  | some c =>
      obtain ⟨a, payload⟩ := c
      by_cases hletter : 98 ≤ a.dtype.toNat
      · exact Or.inl (oneLine_frameOf t.name payload hletter)
      · refine Or.inr fun more hmore info hinfo => hletter ?_
        obtain ⟨body, hbody, -⟩ := exists_body a
        have hheader : (frameOf t.name (some (a, payload))).header =
            text "\x7b'descr': '<" ++ a.dtype :: (body ++ [10]) := hbody
        rw [hheader, List.append_assoc, List.cons_append] at hinfo
        exact letter_of_parse hinfo

theorem nul_not_mem_header {a : TensorAttribute} (h : 98 ≤ a.dtype.toNat) :
    (0 : UInt8) ∉ createAllsparkyHeader a := by
  have hopen : (0 : UInt8) ∉ text "\x7b'descr': '<" := by decide
  obtain ⟨body, hbody, hprint⟩ := exists_body a
  rw [hbody]
  intro hmem
  rcases List.mem_append.mp hmem with hc | hc
  · exact hopen hc
  · rcases List.mem_cons.mp hc with hc | hc
    · rw [← hc] at h
      exact absurd h (by decide)
    · rcases List.mem_append.mp hc with hc | hc
      · exact absurd (hprint 0 hc) (by decide)
      · exact absurd (List.mem_singleton.mp hc) (by decide)

/-- The header of a written tensor reads as its attributes. -/
theorem parse_written {a : TensorAttribute} {dtype : DataType} {mode : DataMode}
    (hdtype : DataType.code dtype = some (a.dtype, a.wordSize))
    (hmode : DataMode.code mode = a.sparseType) :
    parseTensorInfo (createAllsparkyHeader a) = .ok (readBack a dtype mode) :=
  parseTensorInfo_header hdtype hmode (nul_not_mem_header (letter_of_code hdtype).1)

end Headers

section Tensors

variable {cfg : LoadConfig} {fp16 : Bool} {t : SavedTensor} {f : Frame} {w : LoadedTensor}
  {a : TensorAttribute} {payload : Payload}

/-- The conversion changes the count of the elements only. -/
theorem convert_attributes (h : convert fp16 t.attr t.binData = .ok (some (a, payload))) :
    (∃ nnz, a = { t.attr with nnz := nnz } ∧ (t.attr.sparseType = 0 → nnz = t.attr.nnz)) ∧
      t.attr.shape ≠ [] ∧ ∃ mode, DataMode.code mode = t.attr.sparseType := by
  rcases convert_eq_some h with ⟨hmode, hshape, rfl, -⟩ | ⟨hmode, row, col, dims, e, nnz, hshape,
    -, rfl, -⟩ | ⟨hmode, row, col, dims, e, nnz, hshape, -, rfl, -⟩
  · exact ⟨⟨_, rfl, fun _ => rfl⟩, hshape, .dense, hmode.symm⟩
  · refine ⟨⟨_, rfl, fun hzero => ?_⟩, hshape ▸ List.cons_ne_nil _ _, .csc, hmode.symm⟩
    rw [hmode] at hzero
    exact absurd hzero (by decide)
  · refine ⟨⟨_, rfl, fun hzero => ?_⟩, hshape ▸ List.cons_ne_nil _ _, .ell, hmode.symm⟩
    rw [hmode] at hzero
    exact absurd hzero (by decide)

theorem orZero_of_ne_nil {l : List Int} (h : l ≠ []) : orZero l = l := if_neg h

theorem code_injective {m n : DataMode} (h : DataMode.code m = DataMode.code n) : m = n := by
  cases m <;> cases n <;> first | rfl | exact absurd h (by decide)

theorem count_eq_prod {shape : List Int} (h : shape ≠ []) : count shape = shape.prod := by
  rw [count, if_neg (by simpa using h)]

/-- The info a portable tensor loads with. -/
theorem readBack_portable (h : t.Portable cfg fp16) {dtype : DataType} {mode : DataMode}
    {nnz : Int} (hshape : t.attr.shape ≠ []) :
    readBack { t.attr with nnz := nnz } dtype mode =
      ⟨t.attr.shape, dtype, mode, t.attr.splitMode, if mode = .dense then 0 else nnz,
        t.attr.groupList⟩ := by
  have hgroups : (if ReadsGroups t.attr.splitMode then orZero t.attr.groupList else []) =
      t.attr.groupList := by
    split
    · rename_i hreads
      exact orZero_of_ne_nil (h.groups.mp hreads)
    · rename_i hreads
      exact (not_not.mp (mt h.groups.mpr hreads)).symm
  rw [readBack]
  simp only [orZero_of_ne_nil hshape, hgroups]

theorem csc_nnz_pos (h : t.HasElement fp16) {row col : Int} {dims : List Int} {e : Element}
    (hshape : t.attr.shape = row :: col :: dims) (he : elementOf? fp16 t.attr.wordSize = some e) :
    0 < getNnz e t.binData row.toNat col.toNat := by
  obtain ⟨e', he', i, hi, j, hj, hsig⟩ := h
  rw [he] at he'
  obtain rfl := Option.some.inj he'
  rw [hshape] at hi hj hsig
  exact getNnz_pos.mpr ⟨i, hi, j, hj, hsig⟩

/-- The arrays of a portable tensor are what the loader takes. -/
theorem loads_portable (h : t.Portable cfg fp16) {dtype : DataType} {mode : DataMode}
    (hdtype : DataType.code dtype = some (t.attr.dtype, t.attr.wordSize))
    (hmode : DataMode.code mode = t.attr.sparseType)
    (hconv : convert fp16 t.attr t.binData = .ok (some (a, payload))) :
    ∃ part, payload.Loads cfg t.name (readBack a dtype mode) part := by
  have hword := (letter_of_code hdtype).2
  rcases convert_eq_some hconv with ⟨hkind, hshape, rfl, rfl⟩ | ⟨hkind, row, col, dims, e, nnz,
    hshape, he, rfl, hsize, hshown⟩ | ⟨hkind, row, col, dims, e, nnz, hshape, he, rfl, hsize,
    hshown⟩
  · obtain rfl : mode = .dense := code_injective (hmode.trans hkind)
    obtain ⟨hnnz, hempty, haccept⟩ := h.dense hkind
    obtain ⟨part, hpart⟩ := haccept dtype hdtype
    have hread : readBack t.attr dtype .dense = t.denseInfo dtype :=
      readBack_portable h hshape
    rw [hread]
    refine ⟨some part, rfl, ?_, ?_, part, rfl, hpart⟩
    · rw [sizeBytes, SavedTensor.denseInfo, count_eq_prod hshape, t.sized, hword]
    · rw [SavedTensor.denseInfo, count_eq_prod hshape]
      exact hempty
  · obtain rfl : mode = .csc := code_injective (hmode.trans hkind)
    have hesize := size_of_elementOf? he
    have hcol := t.dims col (hshape ▸ by simp)
    have hpos := csc_nnz_pos (h.csc hkind) hshape he
    obtain ⟨rfl, colOffsets, rowIndices, data, rfl, hcolLen, hrowLen, hdataLen⟩ := hshown
    rw [readBack_portable h (hshape ▸ List.cons_ne_nil _ _)]
    refine ⟨none, rfl, rfl, row, col, dims, hshape, ?_, ?_, ?_, ?_⟩
    · rw [hcolLen]
      push_cast
      rw [Int.toNat_of_nonneg hcol]
    · rw [hrowLen, if_neg (by decide)]
      push_cast
      rfl
    · rw [hdataLen, if_neg (by decide), ← hword, hesize]
      push_cast
      rfl
    · rintro ⟨hzero, -⟩
      rw [if_neg (by decide)] at hzero
      exact absurd (Int.natCast_eq_zero.mp hzero) (Nat.ne_of_gt hpos)
  · obtain rfl : mode = .ell := code_injective (hmode.trans hkind)
    have hesize := size_of_elementOf? he
    obtain ⟨rowIndices, data, rfl, hrowLen, hdataLen⟩ := hshown
    rw [readBack_portable h (hshape ▸ List.cons_ne_nil _ _)]
    refine ⟨none, rfl, rfl, row, col, dims, hshape, ?_, ?_⟩
    · rw [hrowLen, if_neg (by decide)]
      push_cast
      rfl
    · rw [hdataLen, if_neg (by decide), ← hword, hesize]
      push_cast
      rfl

/-- A portable tensor reads back from its frame. -/
theorem SavedTensor.Portable.reads (h : t.Portable cfg fp16) (hw : t.Written fp16 f) :
    ∃ w, f.Reads cfg w ∧ t.Recovered fp16 w := by
  obtain ⟨c, hc, rfl⟩ := hw
  cases c with
  | none =>
      obtain ⟨hsparse, hnone⟩ := convert_eq_none hc
      have hsome := h.sparse hsparse
      rw [hnone] at hsome
      cases hsome
  | some c =>
      obtain ⟨a, payload⟩ := c
      obtain ⟨dtype, hdtype⟩ := h.dtype
      obtain ⟨⟨nnz, hattr, hdense⟩, hshape, mode, hmode⟩ := convert_attributes hc
      obtain ⟨part, hloads⟩ := loads_portable h hdtype hmode hc
      have hcode : DataType.code dtype = some (a.dtype, a.wordSize) := by
        rw [hattr]
        exact hdtype
      have hparse : parseTensorInfo (createAllsparkyHeader a) = .ok (readBack a dtype mode) := by
        refine parse_written hcode ?_
        rw [hattr]
        exact hmode
      refine ⟨⟨t.name, readBack a dtype mode, payload, part⟩,
        ⟨oneLine_frameOf t.name payload (letter_of_code hcode).1, h.name, h.line a payload hc,
          hparse, rfl, rfl, hloads⟩, a, payload, hc, ?_⟩
      rw [hattr, readBack_portable h hshape]
      refine ⟨rfl, hdtype, rfl, hmode, ?_, rfl, rfl, rfl⟩
      dsimp only
      split
      · rename_i hmodeDense
        have hkind : t.attr.sparseType = 0 := by
          rw [← hmode, hmodeDense]
          rfl
        rw [hdense hkind, (h.dense hkind).1]
      · rfl

/-- A tensor that was recovered from its frame is portable. -/
theorem portable_of_reads (hw : t.Written fp16 f) (hf : f.Reads cfg w)
    (hr : t.Recovered fp16 w) : t.Portable cfg fp16 := by
  obtain ⟨a, payload, hconv, hsame⟩ := hr
  obtain ⟨c, hc, rfl⟩ := hw
  obtain rfl := Except.ok.inj (hconv.symm.trans hc)
  obtain ⟨⟨nnz, hattr, hdense⟩, hshape, -⟩ := convert_attributes hconv
  have hread : w.info = readBack a w.info.dtype w.info.mode := by
    have hparse := hf.parsed
    have hwritten := @parse_written a w.info.dtype w.info.mode
      (by rw [hattr]; exact hsame.dtype) (by rw [hattr]; exact hsame.mode)
    exact Except.ok.inj (hparse.symm.trans hwritten)
  have hloads : payload.Loads cfg t.name w.info w.part := hf.loads
  refine ⟨hf.short, ⟨_, hsame.dtype⟩, ?_, ?_, ?_, ?_, ?_⟩
  · have hgroups := congrArg TensorInfo.groupList hread
    rw [hsame.groupList, hattr] at hgroups
    dsimp only [readBack] at hgroups
    constructor
    · intro hreads hnil
      rw [if_pos hreads, hnil] at hgroups
      exact absurd hgroups (by decide)
    · intro hne
      by_contra hreads
      rw [if_neg hreads] at hgroups
      exact hne hgroups
  · intro a' payload' h'
    obtain ⟨rfl, rfl⟩ := Prod.mk.inj (Option.some.inj (Except.ok.inj (hconv.symm.trans h')))
    exact hf.line
  · intro hkind
    rcases convert_eq_some hconv with ⟨-, -, rfl, rfl⟩ | ⟨hcsc, -⟩ | ⟨hell, -⟩
    · obtain ⟨hmode, -, hempty, part, -, hpart⟩ := hloads
      rw [hsame.shape, count_eq_prod hshape] at hempty
      have hnnz := congrArg TensorInfo.nnz hread
      rw [hsame.nnz] at hnnz
      dsimp only [readBack] at hnnz
      rw [if_pos hmode] at hnnz
      refine ⟨hnnz, hempty, fun dtype hdtype => ⟨part, ?_⟩⟩
      have hinfo : w.info = t.denseInfo dtype := by
        have hsameType : w.info.dtype = dtype :=
          Except.ok.inj ((parseDtype_eq_ok.mpr hsame.dtype).symm.trans
            (parseDtype_eq_ok.mpr hdtype))
        calc w.info = ⟨w.info.shape, w.info.dtype, w.info.mode, w.info.splitMode, w.info.nnz,
              w.info.groupList⟩ := rfl
          _ = t.denseInfo dtype := by
            rw [hsame.shape, hsameType, hmode, hsame.splitMode, hsame.nnz, hnnz, hsame.groupList]
            rfl
      rw [← hinfo]
      exact hpart
    · rw [hcsc] at hkind
      exact absurd hkind (by decide)
    · rw [hell] at hkind
      exact absurd hkind (by decide)
  · intro hkind
    rcases convert_eq_some hconv with ⟨hzero, -⟩ | ⟨-, row, col, dims, e, n, -, he, -⟩ |
      ⟨-, row, col, dims, e, n, -, he, -⟩
    · exact absurd hzero hkind
    · rw [he]
      rfl
    · rw [he]
      rfl
  · intro hkind
    rcases convert_eq_some hconv with ⟨hzero, -⟩ | ⟨-, row, col, dims, e, n, hdims, he, rfl, hsize,
      hshown⟩ | ⟨hell, -⟩
    · rw [hkind] at hzero
      exact absurd hzero (by decide)
    · obtain ⟨rfl, colOffsets, rowIndices, data, rfl, hcolLen, -, -⟩ := hshown
      obtain ⟨-, -, -, -, -, -, -, -, -, hnnz⟩ := hloads
      have hpos : 0 < getNnz e t.binData row.toNat col.toNat := by
        refine Nat.pos_of_ne_zero fun hzero => hnnz ⟨?_, ?_⟩
        · rw [hsame.nnz]
          exact Int.natCast_eq_zero.mpr hzero
        · rw [← List.length_pos_iff, hcolLen]
          omega
      obtain ⟨i, hi, j, hj, hsig⟩ := getNnz_pos.mp hpos
      refine ⟨e, he, i, ?_, j, ?_, ?_⟩
      · rw [hdims]
        exact hi
      · rw [hdims]
        exact hj
      · rw [hdims]
        exact hsig
    · rw [hell] at hkind
      exact absurd hkind (by decide)

end Tensors

section Files

variable {cfg : LoadConfig} {fp16 : Bool} {tensors : List SavedTensor} {file : List UInt8}

/-- The map holds the tensors of the list exactly when no name repeats. -/
theorem foldl_assign_eq {l acc : List LoadedTensor} :
    l.foldl assign acc = acc ++ l ↔
      (l.map LoadedTensor.name).Nodup ∧ ∀ t ∈ l, t.name ∉ acc.map LoadedTensor.name := by
  have hle : ∀ (l acc : List LoadedTensor), (l.foldl assign acc).length ≤ acc.length + l.length := by
    intro l
    induction l with
    | nil => exact fun acc => le_refl _
    | cons t rest ih =>
        intro acc
        have hstep : (assign acc t).length ≤ acc.length + 1 := by
          rw [assign]
          split
          · rw [List.length_map]
            omega
          · rw [List.length_append, List.length_singleton]
        have hrest := ih (assign acc t)
        rw [List.foldl_cons, List.length_cons]
        omega
  induction l generalizing acc with
  | nil => simp
  | cons t rest ih =>
      rw [List.foldl_cons]
      by_cases hmem : t.name ∈ acc.map LoadedTensor.name
      · have hshort : ((rest.foldl assign (assign acc t))).length ≤ acc.length + rest.length := by
          have hstep := hle rest (assign acc t)
          rw [assign, if_pos hmem, List.length_map] at hstep
          rw [assign, if_pos hmem]
          exact hstep
        constructor
        · intro h
          rw [h, List.length_append, List.length_cons] at hshort
          omega
        · rintro ⟨-, hnew⟩
          exact absurd hmem (hnew t List.mem_cons_self)
      · have hshift : acc ++ t :: rest = (acc ++ [t]) ++ rest := by
          rw [List.append_assoc, List.singleton_append]
        rw [assign, if_neg hmem, hshift, List.map_cons, List.nodup_cons]
        refine ih.trans ?_
        rw [List.map_append]
        constructor
        · rintro ⟨hnodup, hnew⟩
          refine ⟨⟨fun hrepeat => ?_, hnodup⟩, ?_⟩
          · obtain ⟨u, hu, hname⟩ := List.mem_map.mp hrepeat
            exact hnew u hu (List.mem_append_right _ (by rw [hname]; exact List.mem_singleton_self _))
          · intro u hu
            rcases List.mem_cons.mp hu with rfl | hu
            · exact hmem
            · exact fun hold => hnew u hu (List.mem_append_left _ hold)
        · rintro ⟨⟨hrepeat, hnodup⟩, hnew⟩
          refine ⟨hnodup, fun u hu hold => ?_⟩
          rcases List.mem_append.mp hold with hold | hsame
          · exact hnew u (List.mem_cons_of_mem _ hu) hold
          · refine hrepeat (List.mem_map.mpr ⟨u, hu, ?_⟩)
            exact List.mem_singleton.mp hsame

theorem tensorMap_eq {r : LoadResult} :
    r.tensorMap = r.processOrder ↔ (r.processOrder.map LoadedTensor.name).Nodup := by
  have h := @foldl_assign_eq r.processOrder []
  rw [List.nil_append] at h
  rw [LoadResult.tensorMap, h]
  exact and_iff_left fun t _ => List.not_mem_nil

theorem names_eq {ws : List LoadedTensor}
    (h : List.Forall₂ (SavedTensor.Recovered fp16) tensors ws) :
    ws.map LoadedTensor.name = tensors.map SavedTensor.name := by
  induction h with
  | nil => rfl
  | cons ht _ ih =>
      obtain ⟨a, payload, -, hsame⟩ := ht
      rw [List.map_cons, List.map_cons, ih, hsame.name]

theorem exists_reads {frames : List Frame}
    (hwritten : List.Forall₂ (SavedTensor.Written fp16) tensors frames)
    (h : ∀ t ∈ tensors, t.Portable cfg fp16) :
    ∃ ws, List.Forall₂ (Frame.Reads cfg) frames ws ∧
      List.Forall₂ (SavedTensor.Recovered fp16) tensors ws := by
  induction hwritten with
  | nil => exact ⟨[], List.Forall₂.nil, List.Forall₂.nil⟩
  | cons ht _ ih =>
      obtain ⟨ws, hreads, hrec⟩ := ih fun u hu => h u (List.mem_cons_of_mem _ hu)
      obtain ⟨w, hw, ht⟩ := (h _ List.mem_cons_self).reads ht
      exact ⟨w :: ws, List.Forall₂.cons hw hreads, List.Forall₂.cons ht hrec⟩

theorem same_frames {frames : List Frame} {ws : List LoadedTensor}
    (hwritten : List.Forall₂ (SavedTensor.Written fp16) tensors frames)
    (h : List.Forall₂ (SavedTensor.Recovered fp16) tensors ws) :
    List.Forall₂ Frame.Same frames ws := by
  induction hwritten generalizing ws with
  | nil =>
      cases h
      exact List.Forall₂.nil
  | cons ht _ ih =>
      obtain _ | ⟨hw, hws⟩ := h
      refine List.Forall₂.cons ?_ (ih hws)
      obtain ⟨c, hc, rfl⟩ := ht
      obtain ⟨a, payload, hconv, hsame⟩ := hw
      obtain rfl := Except.ok.inj (hconv.symm.trans hc)
      exact ⟨hsame.name, hsame.payload⟩

theorem portable_of_frames {frames : List Frame} {ws : List LoadedTensor}
    (hwritten : List.Forall₂ (SavedTensor.Written fp16) tensors frames)
    (hreads : List.Forall₂ (Frame.Reads cfg) frames ws)
    (h : List.Forall₂ (SavedTensor.Recovered fp16) tensors ws) :
    ∀ t ∈ tensors, t.Portable cfg fp16 := by
  induction hwritten generalizing ws with
  | nil => exact fun t ht => absurd ht List.not_mem_nil
  | cons ht _ ih =>
      obtain _ | ⟨hf, hfs⟩ := hreads
      obtain _ | ⟨hw, hws⟩ := h
      intro u hu
      rcases List.mem_cons.mp hu with rfl | hu
      · exact portable_of_reads ht hf hw
      · exact ih hfs hws u hu

theorem frames_printed {frames : List Frame}
    (hwritten : List.Forall₂ (SavedTensor.Written fp16) tensors frames) :
    ∀ f ∈ frames, f.OneLine ∨ f.Unparsable := by
  induction hwritten with
  | nil => exact fun f hf => absurd hf List.not_mem_nil
  | cons ht _ ih =>
      intro f hf
      rcases List.mem_cons.mp hf with rfl | hf
      · exact ht.printed
      · exact ih f hf

/-- What came back was portable. -/
theorem RoundTrips.portable (h : RoundTrips cfg fp16 tensors file) (hread : cfg.useMmap = false)
    (hwrite : writeFile fp16 tensors = .ok file) :
    (∀ t ∈ tensors, t.Portable cfg fp16) ∧ (tensors.map SavedTensor.name).Nodup := by
  obtain ⟨frames, hwritten, rfl⟩ := writeFile_eq hwrite
  obtain ⟨⟨ws, rest⟩, hload, rfl, hrec, hmap⟩ := h
  have hreads := reads_of_loadLoop (frames_printed hwritten) hread (Nat.lt_succ_self _) hload
    (same_frames hwritten hrec)
  rw [tensorMap_eq] at hmap
  refine ⟨portable_of_frames hwritten hreads hrec, ?_⟩
  rw [← names_eq hrec]
  exact hmap

/-- A file that was written for a list of tensors loads as exactly these
tensors if and only if each of them is portable and no two share a name. -/
theorem roundTrips_iff (hread : cfg.useMmap = false) (hwrite : writeFile fp16 tensors = .ok file) :
    RoundTrips cfg fp16 tensors file ↔
      (∀ t ∈ tensors, t.Portable cfg fp16) ∧ (tensors.map SavedTensor.name).Nodup := by
  refine ⟨fun h => h.portable hread hwrite, ?_⟩
  rintro ⟨hportable, hnames⟩
  obtain ⟨frames, hwritten, rfl⟩ := writeFile_eq hwrite
  obtain ⟨ws, hreads, hrec⟩ := exists_reads hwritten hportable
  refine ⟨⟨ws, []⟩, loadLoop_fileOf hreads hread (Nat.lt_succ_self _), rfl, hrec, ?_⟩
  rw [tensorMap_eq]
  dsimp only
  rw [names_eq hrec]
  exact hnames

end Files

section Examples

/-- Reading on a single rank, in a debug build. -/
def singleRank : LoadConfig := ⟨false, true, ⟨.cpu, .cpu⟩, ⟨0, 1⟩, fun _ _ => 0⟩

/-- A vector of two floats. -/
def vectorTensor : SavedTensor :=
  ⟨text "bias", ⟨0, .noSplit, [2], [], byte 'f', 4, 0⟩, [0, 0, 128, 63, 0, 0, 0, 64], by decide,
    by decide⟩

/-- A matrix with a single one, in compressed columns. -/
def matrixTensor : SavedTensor :=
  ⟨text "weight", ⟨1, .vSplit, [1, 2], [], byte 'f', 4, 0⟩, [0, 0, 0, 0, 0, 0, 128, 63], by decide,
    by decide⟩

theorem portable_vectorTensor : vectorTensor.Portable singleRank false where
  name := by decide
  dtype := ⟨.float32, rfl⟩
  groups := by decide
  line := by
    intro a payload h
    obtain ⟨rfl, -⟩ := Prod.mk.inj (Option.some.inj (Except.ok.inj h))
    decide +kernel
  dense := by
    refine fun _ => ⟨rfl, by decide, fun dtype _ => ⟨_, rfl⟩⟩
  sparse := fun h => absurd rfl h
  csc := fun h => absurd h (by decide)

theorem portable_matrixTensor : matrixTensor.Portable singleRank false where
  name := by decide
  dtype := ⟨.float32, rfl⟩
  groups := by decide
  line := by
    have hconv : ∃ payload, convert false matrixTensor.attr matrixTensor.binData =
        .ok (some (⟨1, .vSplit, [1, 2], [], byte 'f', 4, 4⟩, payload)) := ⟨_, rfl⟩
    intro a payload h
    obtain ⟨payload', h'⟩ := hconv
    obtain ⟨rfl, -⟩ := Prod.mk.inj (Option.some.inj (Except.ok.inj (h'.symm.trans h)))
    decide +kernel
  dense := fun h => absurd h (by decide)
  sparse := fun _ => rfl
  csc := fun _ => ⟨.float, rfl, 0, by decide, 1, by decide, by decide⟩

theorem roundTrips_iff_twoTensors :
    ∃ file, writeFile false [vectorTensor, matrixTensor] = .ok file ∧
      RoundTrips singleRank false [vectorTensor, matrixTensor] file := by
  obtain ⟨file, hfile⟩ : ∃ file, writeFile false [vectorTensor, matrixTensor] = .ok file :=
    ⟨_, rfl⟩
  refine ⟨file, hfile, (roundTrips_iff rfl hfile).mpr ⟨?_, by decide⟩⟩
  intro t ht
  rcases List.mem_cons.mp ht with rfl | ht
  · exact portable_vectorTensor
  · obtain rfl := List.mem_singleton.mp ht
    exact portable_matrixTensor

/-- A vector whose columns form 64 groups: its header does not fit the line
buffer of the loader. -/
def manyGroups : SavedTensor :=
  ⟨text "weight", ⟨0, .groupVSplit, [64], List.replicate 64 1, byte 'i', 1, 0⟩,
    List.replicate 64 0, by decide, by decide⟩

theorem not_roundTrips_manyGroups :
    ∃ file, writeFile false [manyGroups] = .ok file ∧
      ¬ RoundTrips singleRank false [manyGroups] file := by
  obtain ⟨file, hfile⟩ : ∃ file, writeFile false [manyGroups] = .ok file := ⟨_, rfl⟩
  refine ⟨file, hfile, fun h => ?_⟩
  have hportable := (h.portable rfl hfile).1 manyGroups (List.mem_singleton_self _)
  have hline := hportable.line manyGroups.attr (.dense manyGroups.binData) rfl
  exact absurd hline (by decide +kernel)

end Examples

end DashInfer.WeightFile
