import DashInfer.WeightFile.RoundTrip

/-!
The serializer of the weight manager. It writes the same frames as the writer
with a header of its own: another table of type names, no split mode and no
group list, and padding to a multiple of 32 bytes.
-/

namespace DashInfer.WeightFile

attribute [local semireducible] Lib.text

open DashInfer.Lib
open DashInfer.Weight

/-- The type name in a header; an unsupported type leaves it empty. -/
def typeName : DataType → List UInt8
  | .float32 => text "f4"
  | .float16 => text "f2"
  | .int64 => text "i8"
  | .int32 => text "i4"
  | .int16 => text "i2"
  | .int8 => text "i1"
  | .uint8 => text "u1"
  | .bool => text "b"
  | _ => []

/-- A tensor the weight manager holds, with the number of elements its sparse
data counts. -/
structure HeldTensor where
  name : List UInt8
  dtype : DataType
  shape : List Int
  nnz : Int
  payload : Payload
deriving DecidableEq, Repr

def Payload.mode : Payload → DataMode
  | .dense _ => .dense
  | .csc _ _ _ => .csc
  | .ell _ _ => .ell

/-- Padding with spaces to a multiple of 32; then the last character becomes a
newline, whatever it was. -/
def padHeader (header : List UInt8) : List UInt8 :=
  let rem := header.length % 32
  let padded := if rem ≠ 0 then header ++ List.replicate (32 - rem) (byte ' ') else header
  padded.dropLast ++ [byte '\n']

def singleHeader (t : HeldTensor) : List UInt8 :=
  padHeader (text "\x7b'descr': '" ++ text "<" ++ typeName t.dtype ++
    text "', 'fortran_order': False, 'shape': (" ++ intTuple t.shape ++ text "),'sparse_type': " ++
    decimal (DataMode.code t.payload.mode) ++ text ",'nnz': " ++
    (if t.payload.mode = .dense then text "0" else decimal t.nnz) ++ text ",\x7d")

def serializeSingleTensor (t : HeldTensor) : List UInt8 := singleHeader t ++ t.payload.bytes

/-- The tensors of a map, in the order of their names. -/
def serializeMultipleTensor (tensors : List HeldTensor) : List UInt8 :=
  (tensors.flatMap fun t => localHeader t.name ++ serializeSingleTensor t) ++ setGlobalHeader

/-- Loading the bytes yields the tensors of the map and stops at their end. -/
def Reloads (cfg : LoadConfig) (tensors : List HeldTensor) : Prop :=
  ∃ r, loadWeightForModel cfg (serializeMultipleTensor tensors) = .ok r ∧ r.rest = [] ∧
    r.tensorMap = r.processOrder ∧
    List.Forall₂ (fun t w => w.name = t.name ∧ w.info.dtype = t.dtype ∧ w.info.shape = t.shape ∧
      w.payload = t.payload) tensors r.processOrder

/-- The types both tables know. -/
def Reloadable (dtype : DataType) : Prop :=
  dtype ∈ [.float32, .float16, .int64, .int32, .int16, .int8, .uint8]

instance (dtype : DataType) : Decidable (Reloadable dtype) :=
  inferInstanceAs (Decidable (_ ∈ _))

section Header

variable {t : HeldTensor}

theorem padHeader_eq (header : List UInt8) (c : UInt8) :
    ∃ tail, padHeader (header ++ [c]) = header ++ tail ++ [10] ∧ ∀ x ∈ tail, x = c ∨ x = 32 := by
  unfold padHeader
  dsimp only
  split
  · rename_i hrem
    have hlt := Nat.mod_lt (header ++ [c]).length (by decide : 0 < 32)
    obtain ⟨k, hk⟩ : ∃ k, 32 - (header ++ [c]).length % 32 = k + 1 :=
      ⟨31 - (header ++ [c]).length % 32, by omega⟩
    refine ⟨c :: List.replicate k 32, ?_, ?_⟩
    · rw [hk, List.replicate_succ', ← List.append_assoc, List.dropLast_concat]
      simp only [List.append_assoc, List.cons_append, List.nil_append]
      rfl
    · intro x hx
      rcases List.mem_cons.mp hx with rfl | hx
      · exact Or.inl rfl
      · exact Or.inr (List.mem_replicate.mp hx).2
  · refine ⟨[], ?_, fun x hx => absurd hx List.not_mem_nil⟩
    rw [List.dropLast_concat, List.append_nil]
    rfl

/-- The header behind its type name: the last character is a newline and the
padding holds neither quotes nor digits. -/
theorem singleHeader_eq (t : HeldTensor) :
    ∃ tail, singleHeader t = text "\x7b'descr': '<" ++ (typeName t.dtype ++
      (text "', 'fortran_order': False, " ++ (text "'shape': (" ++ (intTuple t.shape ++
      (text ")," ++ (text "'sparse_type': " ++ (decimal (DataMode.code t.payload.mode) ++
      (text "," ++ (text "'nnz': " ++ ((if t.payload.mode = .dense then text "0" else
      decimal t.nnz) ++ (text "," ++ (tail ++ [10])))))))))))) ∧
      ∀ x ∈ tail, x = 125 ∨ x = 32 := by
  have hdescr : text "\x7b'descr': '" ++ text "<" = text "\x7b'descr': '<" := by decide
  have hshape : text "', 'fortran_order': False, 'shape': (" =
      text "', 'fortran_order': False, " ++ text "'shape': (" := by decide
  have hsparse : text "),'sparse_type': " = text ")," ++ text "'sparse_type': " := by
    decide
  have hnnz : text ",'nnz': " = text "," ++ text "'nnz': " := by decide
  have hend : text ",\x7d" = text "," ++ [125] := by decide
  unfold singleHeader
  rw [hdescr, hshape, hsparse, hnnz, hend, ← List.append_assoc]
  obtain ⟨tail, htail, hchars⟩ := padHeader_eq _ 125
  rw [htail]
  refine ⟨tail, ?_, hchars⟩
  simp only [List.append_assoc]

/-- The type name of a type the parser knows is its letter and its size. -/
theorem typeName_of_reloadable {dtype : DataType} (h : Reloadable dtype) :
    ∃ c size, DataType.code dtype = some (c, size) ∧ typeName dtype = c :: decimal size := by
  rw [Reloadable] at h
  simp only [List.mem_cons, List.not_mem_nil, or_false] at h
  rcases h with rfl | rfl | rfl | rfl | rfl | rfl | rfl
  · exact ⟨byte 'f', 4, rfl, by decide⟩
  · exact ⟨byte 'f', 2, rfl, by decide⟩
  · exact ⟨byte 'i', 8, rfl, by decide⟩
  · exact ⟨byte 'i', 4, rfl, by decide⟩
  · exact ⟨byte 'i', 2, rfl, by decide⟩
  · exact ⟨byte 'i', 1, rfl, by decide⟩
  · exact ⟨byte 'u', 1, rfl, by decide⟩

theorem typeName_of_not_reloadable {dtype : DataType} (h : ¬ Reloadable dtype) :
    typeName dtype = [] ∨ typeName dtype = [byte 'b'] := by
  cases dtype
  case bool => exact Or.inr (by decide)
  all_goals first | exact Or.inl rfl | exact absurd (by decide) h

theorem printable_typeName (dtype : DataType) : Printable (typeName dtype) := by
  by_cases h : Reloadable dtype
  · obtain ⟨c, size, hcode, hname⟩ := typeName_of_reloadable h
    rw [hname]
    intro x hx
    rcases List.mem_cons.mp hx with rfl | hx
    · have hletter := (letter_of_code hcode).1
      omega
    · exact printable_decimal size x hx
  · rcases typeName_of_not_reloadable h with hname | hname
    · rw [hname]
      exact fun x hx => absurd hx List.not_mem_nil
    · rw [hname]
      intro x hx
      obtain rfl := List.mem_singleton.mp hx
      decide

theorem quote_not_mem_typeName (dtype : DataType) : (39 : UInt8) ∉ typeName dtype := by
  cases dtype <;> decide

/-- Every header of the serializer is a line of printable characters. -/
theorem singleHeader_line (t : HeldTensor) :
    ∃ body, singleHeader t = body ++ [10] ∧ Printable body := by
  obtain ⟨tail, hheader, hchars⟩ := singleHeader_eq t
  have hcomma : Printable (text ",") := printable_text (by decide +kernel)
  have htail : Printable tail := by
    intro x hx
    rcases hchars x hx with rfl | rfl
    · decide
    · decide
  have hnnz : Printable (if t.payload.mode = .dense then text "0" else decimal t.nnz) := by
    split
    · exact printable_text (by decide +kernel)
    · exact printable_decimal _
  rw [hheader]
  refine ⟨text "\x7b'descr': '<" ++ (typeName t.dtype ++
      (text "', 'fortran_order': False, " ++ (text "'shape': (" ++ (intTuple t.shape ++
      (text ")," ++ (text "'sparse_type': " ++ (decimal (DataMode.code t.payload.mode) ++
      (text "," ++ (text "'nnz': " ++ ((if t.payload.mode = .dense then text "0" else
      decimal t.nnz) ++ (text "," ++ tail))))))))))), ?_, ?_⟩
  · simp only [List.append_assoc]
  · refine (printable_text (by decide +kernel)).append ((printable_typeName _).append ?_)
    refine (printable_text (by decide +kernel)).append ?_
    refine (printable_text (by decide +kernel)).append ((printable_intTuple _).append ?_)
    refine (printable_text (by decide +kernel)).append ?_
    refine (printable_text (by decide +kernel)).append ((printable_decimal _).append ?_)
    refine hcomma.append ((printable_text (by decide +kernel)).append ?_)
    exact hnnz.append (hcomma.append htail)

/-- What the parser makes of a type name. -/
theorem parseDescr_singleHeader (t : HeldTensor) :
    (∀ c size, typeName t.dtype = c :: decimal size →
      parseDescr (singleHeader t) = parseDtype c size) ∧
    (¬ Reloadable t.dtype → ∀ dtype, parseDescr (singleHeader t) ≠ .ok dtype) := by
  have hclose : text "', 'fortran_order': False, " = 39 :: text ", 'fortran_order': False, " := by
    decide
  obtain ⟨tail, hheader, -⟩ := singleHeader_eq t
  rw [hheader, parseDescr_open, hclose]
  refine ⟨fun c size hname => ?_, fun h dtype hok => ?_⟩
  · rw [hname, List.cons_append]
    dsimp only
    rw [List.cons_append, takeWhile_ne_append (not_mem_decimal (by decide) (by decide) _),
      atoi_decimal_alone]
  · rcases typeName_of_not_reloadable h with hname | hname
    · rw [hname, List.nil_append, List.cons_append] at hok
      cases hok
    · rw [hname] at hok
      simp only [List.cons_append, List.nil_append] at hok
      rw [List.takeWhile_cons, if_neg (by decide)] at hok
      cases hok

/-- No header of the serializer holds a NUL. -/
theorem takeWhile_singleHeader (t : HeldTensor) :
    (singleHeader t).takeWhile (· ≠ 0) = singleHeader t := by
  obtain ⟨body, hbody, hprint⟩ := singleHeader_line t
  refine List.takeWhile_eq_self_iff.mpr fun x hx => decide_eq_true ?_
  rintro rfl
  rw [hbody] at hx
  rcases List.mem_append.mp hx with hx | hx
  · exact absurd (hprint 0 hx) (by decide)
  · exact absurd (List.mem_singleton.mp hx) (by decide)

/-- A dense header with a known type reads as its tensor, split in no way. -/
theorem parseTensorInfo_singleHeader {c : UInt8} {size : Int} {dtype : DataType}
    (hname : typeName t.dtype = c :: decimal size) (hcode : DataType.code dtype = some (c, size))
    (hdense : t.payload.mode = .dense) :
    parseTensorInfo (singleHeader t) = .ok ⟨orZero t.shape, dtype, .dense, .noSplit, 0, []⟩ := by
  have hquote : (39 : UInt8) ∉ typeName t.dtype := quote_not_mem_typeName t.dtype
  have hshapeKey : (text "'shape': (").head? = some 39 := by decide
  have hsparseKey : (text "'sparse_type': ").head? = some 39 := by decide
  have hsplitKey : (text "'split_type': ").head? = some 39 := by decide
  have hdescr := (parseDescr_singleHeader t).1 c size hname
  rw [parseDtype_eq_ok.mpr hcode] at hdescr
  obtain ⟨tail, hheader, hchars⟩ := singleHeader_eq t
  have hshape : ∃ rest, after? (text "'shape': (") (singleHeader t) =
      some (intTuple t.shape ++ 41 :: rest) := by
    rw [hheader, after?_skip (by decide), after?_skip (skips_of_not_mem hshapeKey hquote),
      after?_skip (by decide), after?_hit (by decide), text_close]
    exact ⟨_, rfl⟩
  have hsparse : ∃ rest, after? (text "'sparse_type': ") (singleHeader t) =
      some (decimal (DataMode.code t.payload.mode) ++ 44 :: rest) := by
    rw [hheader, after?_skip (by decide), after?_skip (skips_of_not_mem hsparseKey hquote),
      after?_skip (by decide), after?_skip (by decide),
      after?_skip (skips_quoted_intTuple hsparseKey _), after?_skip (by decide),
      after?_hit (by decide), text_comma]
    exact ⟨_, rfl⟩
  have hsplit : after? (text "'split_type': ") (singleHeader t) = none := by
    have htail : skips (text "'split_type': ") (tail ++ [10]) = true := by
      refine skips_of_not_mem hsplitKey fun hmem => ?_
      rcases List.mem_append.mp hmem with hx | hx
      · rcases hchars 39 hx with hx | hx
        · exact absurd hx (by decide)
        · exact absurd hx (by decide)
      · exact absurd (List.mem_singleton.mp hx) (by decide)
    rw [hheader, hdense, if_pos rfl, after?_skip (by decide),
      after?_skip (skips_of_not_mem hsplitKey hquote), after?_skip (by decide),
      after?_skip (by decide), after?_skip (skips_quoted_intTuple hsplitKey _),
      after?_skip (by decide), after?_skip (by decide),
      after?_skip (skips_quoted_decimal hsplitKey _), after?_skip (by decide),
      after?_skip (by decide), after?_skip (by decide),
      after?_skip (by decide), ← List.append_nil (tail ++ [10]), after?_skip htail]
    rfl
  obtain ⟨rest, hrest⟩ := hshape
  obtain ⟨rest', hrest'⟩ := hsparse
  have hmode : parseMode (singleHeader t) = .ok .dense := by
    rw [parseMode, parseField?_eq hrest', hdense]
    rfl
  have hsplitMode : parseSplitMode (singleHeader t) = .ok .noSplit := by
    rw [parseSplitMode, parseField?, hsplit]
    rfl
  rw [parseTensorInfo, takeWhile_singleHeader, hdescr, parseTuple_eq hrest, hmode]
  simp only [hsplitMode, bind, Except.bind]
  rfl

end Header

section Tensors

variable {cfg : LoadConfig}

/-- The tensors that come back: of a type both tables know, with a dimension,
not empty in a debug build, in a buffer of their size, under a name and a header
that fit. -/
structure HeldTensor.Survives (cfg : LoadConfig) (t : HeldTensor) : Prop where
  dtype : Reloadable t.dtype
  shape : t.shape ≠ []
  name : t.name.length < 65536
  line : (singleHeader t).length ≤ 255
  size : (t.payload.bytes.length : Int) = sizeofType t.dtype * t.shape.prod
  asserts : ¬ (cfg.asserts ∧ t.shape.prod = 0)

def HeldTensor.frame (t : HeldTensor) : Frame := ⟨t.name, singleHeader t, t.payload⟩

theorem serializeMultipleTensor_eq (tensors : List HeldTensor) :
    serializeMultipleTensor tensors = fileOf (tensors.map HeldTensor.frame) := by
  rw [serializeMultipleTensor, fileOf, List.flatMap_map]
  rfl

theorem exists_dense {payload : Payload} (h : payload.mode = .dense) :
    ∃ data, payload = .dense data := by
  cases payload with
  | dense data => exact ⟨data, rfl⟩
  | csc colOffsets rowIndices data => cases h
  | ell rowIndices data => cases h

/-- A surviving tensor reads back from its frame. -/
theorem HeldTensor.Survives.reads {t : HeldTensor} (h : t.Survives cfg)
    (hdense : t.payload.mode = .dense) :
    ∃ w, t.frame.Reads cfg w ∧ w.name = t.name ∧ w.info.dtype = t.dtype ∧
      w.info.shape = t.shape ∧ w.payload = t.payload := by
  obtain ⟨c, size, hcode, hname⟩ := typeName_of_reloadable h.dtype
  have hparse := parseTensorInfo_singleHeader hname hcode hdense
  rw [orZero_of_ne_nil h.shape] at hparse
  obtain ⟨data, hdata⟩ := exists_dense hdense
  refine ⟨⟨t.name, ⟨t.shape, t.dtype, .dense, .noSplit, 0, []⟩, t.payload,
    some ⟨t.shape, t.dtype, data⟩⟩, ⟨singleHeader_line t, h.name, h.line, hparse, rfl, rfl, ?_⟩,
    rfl, rfl, rfl, rfl⟩
  have hsize := h.size
  have hasserts := h.asserts
  rw [← count_eq_prod h.shape] at hsize hasserts
  have hpayload : t.frame.payload = .dense data := hdata
  rw [hdata] at hsize
  rw [hpayload]
  exact ⟨rfl, hsize, hasserts, _, rfl, rfl⟩

/-- A dense tensor that came back from its frame is a surviving one. -/
theorem survives_of_reads {t : HeldTensor} {w : LoadedTensor} (hdense : t.payload.mode = .dense)
    (h : t.frame.Reads cfg w) (hdtype : w.info.dtype = t.dtype) (hshape : w.info.shape = t.shape) :
    t.Survives cfg := by
  have hparsed : parseTensorInfo (singleHeader t) = .ok w.info := h.parsed
  have hknown : Reloadable t.dtype := by
    by_contra hno
    obtain ⟨dtype, hok⟩ := parseTensorInfo_ok hparsed
    rw [takeWhile_singleHeader] at hok
    exact (parseDescr_singleHeader t).2 hno dtype hok
  obtain ⟨c, size, hcode, hname⟩ := typeName_of_reloadable hknown
  have hinfo := Except.ok.inj (hparsed.symm.trans (parseTensorInfo_singleHeader hname hcode hdense))
  have hne : t.shape ≠ [] := by
    intro hnil
    have hzero := congrArg TensorInfo.shape hinfo
    rw [hshape, hnil] at hzero
    exact List.cons_ne_nil _ _ hzero.symm
  have hloads := h.loads
  obtain ⟨data, hdata⟩ := exists_dense hdense
  have hpayload : t.frame.payload = .dense data := hdata
  rw [hpayload] at hloads
  obtain ⟨-, hlen, hempty, -⟩ := hloads
  rw [hshape, count_eq_prod hne] at hempty
  rw [sizeBytes, hshape, hdtype, count_eq_prod hne] at hlen
  refine ⟨hknown, hne, h.short, h.line, ?_, hempty⟩
  rw [hdata]
  exact hlen

end Tensors

section Maps

variable {cfg : LoadConfig} {tensors : List HeldTensor}

/-- The loaded tensor is the held one. -/
def HeldTensor.Same (t : HeldTensor) (w : LoadedTensor) : Prop :=
  w.name = t.name ∧ w.info.dtype = t.dtype ∧ w.info.shape = t.shape ∧ w.payload = t.payload

theorem exists_reads_held (hdense : ∀ t ∈ tensors, t.payload.mode = .dense)
    (h : ∀ t ∈ tensors, t.Survives cfg) :
    ∃ ws, List.Forall₂ (Frame.Reads cfg) (tensors.map HeldTensor.frame) ws ∧
      List.Forall₂ HeldTensor.Same tensors ws := by
  induction tensors with
  | nil => exact ⟨[], List.Forall₂.nil, List.Forall₂.nil⟩
  | cons t rest ih =>
      obtain ⟨ws, hreads, hsame⟩ := ih (fun u hu => hdense u (List.mem_cons_of_mem _ hu))
        fun u hu => h u (List.mem_cons_of_mem _ hu)
      obtain ⟨w, hw, hkeep⟩ := (h t List.mem_cons_self).reads (hdense t List.mem_cons_self)
      exact ⟨w :: ws, List.Forall₂.cons hw hreads, List.Forall₂.cons hkeep hsame⟩

theorem same_frames_held {ws : List LoadedTensor} (h : List.Forall₂ HeldTensor.Same tensors ws) :
    List.Forall₂ Frame.Same (tensors.map HeldTensor.frame) ws := by
  induction h with
  | nil => exact List.Forall₂.nil
  | cons ht _ ih => exact List.Forall₂.cons ⟨ht.1, ht.2.2.2⟩ ih

theorem names_eq_held {ws : List LoadedTensor} (h : List.Forall₂ HeldTensor.Same tensors ws) :
    ws.map LoadedTensor.name = tensors.map HeldTensor.name := by
  induction h with
  | nil => rfl
  | cons ht _ ih => rw [List.map_cons, List.map_cons, ih, ht.1]

theorem survives_of_frames {ws : List LoadedTensor}
    (hdense : ∀ t ∈ tensors, t.payload.mode = .dense)
    (hreads : List.Forall₂ (Frame.Reads cfg) (tensors.map HeldTensor.frame) ws)
    (h : List.Forall₂ HeldTensor.Same tensors ws) : ∀ t ∈ tensors, t.Survives cfg := by
  induction h with
  | nil => exact fun t ht => absurd ht List.not_mem_nil
  | cons ht _ ih =>
      obtain _ | ⟨hf, hfs⟩ := hreads
      intro u hu
      rcases List.mem_cons.mp hu with rfl | hu
      · exact survives_of_reads (hdense _ List.mem_cons_self) hf ht.2.1 ht.2.2.1
      · exact ih (fun v hv => hdense v (List.mem_cons_of_mem _ hv)) hfs u hu

/-- What came back survived. -/
theorem Reloads.survives (h : Reloads cfg tensors) (hread : cfg.useMmap = false)
    (hdense : ∀ t ∈ tensors, t.payload.mode = .dense) : ∀ t ∈ tensors, t.Survives cfg := by
  obtain ⟨⟨ws, rest⟩, hload, rfl, -, hsame⟩ := h
  rw [serializeMultipleTensor_eq] at hload
  have hprinted : ∀ f ∈ tensors.map HeldTensor.frame, f.OneLine ∨ f.Unparsable := by
    intro f hf
    obtain ⟨t, -, rfl⟩ := List.mem_map.mp hf
    exact Or.inl (singleHeader_line t)
  have hreads := reads_of_loadLoop hprinted hread (Nat.lt_succ_self _) hload
    (same_frames_held hsame)
  exact survives_of_frames hdense hreads hsame

/-- A map of dense tensors comes back from its serialization exactly when each
of its tensors survives. -/
theorem reloads_iff (hread : cfg.useMmap = false) (hdense : ∀ t ∈ tensors, t.payload.mode = .dense)
    (hmap : (tensors.map HeldTensor.name).Nodup) :
    Reloads cfg tensors ↔ ∀ t ∈ tensors, t.Survives cfg := by
  refine ⟨fun h => h.survives hread hdense, fun h => ?_⟩
  obtain ⟨ws, hreads, hsame⟩ := exists_reads_held hdense h
  refine ⟨⟨ws, []⟩, ?_, rfl, ?_, hsame⟩
  · rw [serializeMultipleTensor_eq]
    exact loadLoop_fileOf hreads hread (Nat.lt_succ_self _)
  · rw [tensorMap_eq]
    dsimp only
    rw [names_eq_held hsame]
    exact hmap

/-- A vector of two floats and a scalar, as the weight manager holds them. -/
def heldVector : HeldTensor :=
  ⟨text "a", .float32, [2], 0, .dense [0, 0, 128, 63, 0, 0, 0, 64]⟩

def heldBool : HeldTensor := ⟨text "b", .bool, [1], 0, .dense [1]⟩

theorem reloads_iff_heldVector : Reloads singleRank [heldVector] := by
  refine (reloads_iff rfl ?_ (by decide)).mpr ?_
  · intro t ht
    obtain rfl := List.mem_singleton.mp ht
    rfl
  · intro t ht
    obtain rfl := List.mem_singleton.mp ht
    exact ⟨by decide, by decide, by decide, by decide, by decide, by decide⟩

theorem not_reloads_heldBool : ¬ Reloads singleRank [heldBool] := by
  intro h
  have hdense : ∀ t ∈ [heldBool], t.payload.mode = .dense := by
    intro t ht
    obtain rfl := List.mem_singleton.mp ht
    rfl
  have hbool := (h.survives rfl hdense heldBool (List.mem_singleton_self _)).dtype
  exact absurd hbool (by decide)

end Maps

end DashInfer.WeightFile
