import DashInfer.WeightFile.Parse
import DashInfer.WeightFile.Stream

/-!
Files as sequences of frames, one for each tensor. The loader reads such a file
back exactly when it reads every frame on its own; a frame whose header line is
too long shifts everything behind it.
-/

namespace DashInfer.WeightFile

open DashInfer.Lib
open DashInfer.Weight

/-- A tensor as a writer puts it into a file. -/
structure Frame where
  name : List UInt8
  header : List UInt8
  payload : Payload

def Frame.bytes (f : Frame) : List UInt8 :=
  localHeader f.name ++ (f.header ++ f.payload.bytes)

def fileOf (frames : List Frame) : List UInt8 := frames.flatMap Frame.bytes ++ setGlobalHeader

/-- The header is a line of printable characters. -/
def Frame.OneLine (f : Frame) : Prop := ∃ body, f.header = body ++ [10] ∧ Printable body

/-- What stands behind a frame: another one or the end of the file. -/
def Follows (more : List UInt8) : Prop :=
  ∃ flag tail, more = 65 :: 83 :: flag :: 0 :: tail ∧ 2 ≤ tail.length

/-- No header can be read here. -/
def Frame.Unparsable (f : Frame) : Prop :=
  ∀ more, Follows more → ∀ info,
    parseTensorInfo (fgets 255 (f.header ++ (f.payload.bytes ++ more))) ≠ .ok info

/-- The headers of the frame are read as they stand. -/
structure Frame.Headed (f : Frame) (info : TensorInfo) : Prop where
  oneLine : f.OneLine
  short : f.name.length < 65536
  line : f.header.length ≤ 255
  parsed : parseTensorInfo f.header = .ok info

/-- The tensor is loaded from the frame. -/
structure Frame.Reads (cfg : LoadConfig) (f : Frame) (t : LoadedTensor) : Prop where
  oneLine : f.OneLine
  short : f.name.length < 65536
  line : f.header.length ≤ 255
  parsed : parseTensorInfo f.header = .ok t.info
  name : t.name = f.name
  payload : t.payload = f.payload
  loads : f.payload.Loads cfg f.name t.info t.part

section Shape

theorem fileOf_cons (f : Frame) (rest : List Frame) :
    fileOf (f :: rest) = f.bytes ++ fileOf rest := by
  rw [fileOf, List.flatMap_cons, List.append_assoc, fileOf]

theorem follows_fileOf (frames : List Frame) : Follows (fileOf frames) := by
  cases frames with
  | nil => exact ⟨0, [0, 0], setGlobalHeader_eq, le_refl 2⟩
  | cons f rest =>
      rw [fileOf_cons, Frame.bytes, localHeader_eq]
      refine ⟨1, littleEndian 2 f.name.length ++ f.name ++ (f.header ++ f.payload.bytes) ++
        fileOf rest, rfl, ?_⟩
      simp only [List.length_append, length_littleEndian]
      omega

theorem Follows.ne_nil {more : List UInt8} (h : Follows more) : more ≠ [] := by
  obtain ⟨flag, tail, rfl, -⟩ := h
  exact List.cons_ne_nil _ _

theorem newline_not_mem {body : List UInt8} (h : Printable body) : (10 : UInt8) ∉ body :=
  fun hmem => absurd (h 10 hmem) (by decide)

theorem Frame.length_bytes (f : Frame) : 6 ≤ f.bytes.length := by
  rw [Frame.bytes, localHeader_eq]
  simp only [List.length_append, List.length_cons, length_littleEndian]
  omega

end Shape

section Turn

variable {cfg : LoadConfig} {f : Frame} {t : LoadedTensor} {turns : Nat}

/-- The last turn stops at the global header. -/
theorem loadLoop_setGlobalHeader (cfg : LoadConfig) (turns : Nat) :
    loadLoop cfg (turns + 1) setGlobalHeader = .ok ⟨[], []⟩ := by
  have hstop : readHeader [65, 83, 0, 0, 0, 0] = .ok none := readHeader_stop (by decide) (by decide)
  rw [setGlobalHeader_eq, loadLoop, hstop]
  rfl

theorem Frame.Headed.readHeader {info : TensorInfo} (h : f.Headed info) (more : List UInt8) :
    readHeader (f.bytes ++ more) = .ok (some (f.name, info, f.payload.bytes ++ more)) := by
  obtain ⟨body, hbody, hprint⟩ := h.oneLine
  have hname : f.name.length % 65536 = f.name.length := Nat.mod_eq_of_lt h.short
  have hline : fgets 255 (f.header ++ (f.payload.bytes ++ more)) = f.header := by
    rw [hbody, List.append_assoc, List.singleton_append, fgets_line (newline_not_mem hprint),
      ← hbody, List.take_of_length_le h.line]
  rw [Frame.bytes, List.append_assoc, List.append_assoc, readHeader_localHeader, hname,
    List.take_left, List.drop_left, hline, if_neg (by rw [List.length_append]; omega)]
  obtain ⟨c, line, hcons⟩ : ∃ c line, f.header = c :: line :=
    List.exists_cons_of_ne_nil (by rw [hbody]; simp)
  rw [hcons]
  dsimp only
  rw [← hcons, h.parsed, List.drop_left]
  rfl

/-- A frame that reads back is one turn. -/
theorem Frame.Reads.loadLoop (h : f.Reads cfg t) (hmmap : cfg.useMmap = false)
    {more : List UInt8} (hmore : more ≠ []) :
    loadLoop cfg (turns + 1) (f.bytes ++ more) =
      (do
        let r ← loadLoop cfg turns more
        return { r with processOrder := t :: r.processOrder }) := by
  have hheaded : f.Headed t.info := ⟨h.oneLine, h.short, h.line, h.parsed⟩
  have htensor : t = ⟨f.name, t.info, f.payload, t.part⟩ := by
    rw [← h.name, ← h.payload]
  rw [WeightFile.loadLoop, hheaded.readHeader]
  simp only [bind, Except.bind, loadTensor_append hmmap h.loads hmore]
  rw [← htensor]

/-- A turn that goes on has read the headers and the data of a tensor. -/
theorem loadLoop_localHeader {name tail : List UInt8} {r : LoadResult} (hmmap : cfg.useMmap = false)
    (h : loadLoop cfg (turns + 1) (localHeader name ++ tail) = .ok r)
    (ht : ∃ ts, r.processOrder = t :: ts ∧ t.name = name) :
    name.length < 65536 ∧ parseTensorInfo (fgets 255 tail) = .ok t.info ∧
      t.payload.Loads cfg name t.info t.part ∧
      ∃ after ts, r.processOrder = t :: ts ∧
        Taken t.payload (tail.drop (fgets 255 tail).length) after ∧
        loadLoop cfg turns after = .ok ⟨ts, r.rest⟩ := by
  rw [loadLoop] at h
  obtain ⟨header, hheader, h⟩ := ok_of_bind h
  rw [readHeader_localHeader] at hheader
  split at hheader
  case isTrue => cases hheader
  case isFalse hlen =>
      split at hheader
      case h_1 => cases hheader
      case h_2 c line hline =>
          obtain ⟨info, hinfo, hheader⟩ := ok_of_bind hheader
          obtain rfl := Except.ok.inj hheader
          dsimp only at h
          obtain ⟨⟨u, after⟩, hload, h⟩ := ok_of_bind h
          obtain ⟨r', hrest, h⟩ := ok_of_bind h
          obtain rfl := Except.ok.inj h
          obtain ⟨ts, hts, hname⟩ := ht
          obtain ⟨rfl, rfl⟩ := List.cons.inj hts
          obtain ⟨huname, rfl, hloads, htaken⟩ := loadTensor_eq_ok hmmap hload
          have hcut : (name ++ tail).take (name.length % 65536) = name := huname.symm.trans hname
          have hmod : name.length % 65536 = name.length := by
            have hle := congrArg List.length hcut
            rw [List.length_take] at hle
            omega
          have hshort : name.length < 65536 := by
            rw [← hmod]
            exact Nat.mod_lt _ (by decide)
          rw [hmod, List.drop_left] at hline
          rw [hmod, List.drop_left, ← hline] at htaken
          rw [hcut] at hloads
          rw [hline]
          refine ⟨hshort, hinfo, hloads, after, _, rfl, ?_, hrest⟩
          rw [← hline]
          exact htaken

end Turn

section Shift

/-- A list that reads the same behind a line in front of it repeats the line. -/
theorem mem_of_shifted {line data : List UInt8} (hline : line ≠ [])
    (h : (line ++ data).take data.length = data) : ∀ c ∈ line ++ data, c ∈ line := by
  have hpos := List.length_pos_iff.mpr hline
  have hget : ∀ (i : Nat) (c : UInt8), (line ++ data)[i]? = some c → c ∈ line := by
    intro i
    induction i using Nat.strong_induction_on with
    | _ i ih =>
        intro c hc
        by_cases hlt : i < line.length
        · rw [List.getElem?_append_left hlt] at hc
          exact List.mem_of_getElem? hc
        · rw [List.getElem?_append_right (Nat.le_of_not_lt hlt)] at hc
          have hback := hc
          rw [← h, List.getElem?_take] at hback
          split at hback
          · exact ih _ (by omega) c hback
          · cases hback
  intro c hc
  obtain ⟨i, hi⟩ := List.mem_iff_getElem?.mp hc
  exact hget i c hi

/-- Behind a header line that is too long the stream does not stand at the
next frame, and the loop ends early. -/
theorem loadLoop_shifted {cfg : LoadConfig} {turns : Nat} {line data more : List UInt8}
    {r : LoadResult} (hline : line ≠ []) (hchars : ∀ c ∈ line, c ≠ 1)
    (hdata : (line ++ data).take data.length = data) (hmore : Follows more)
    (h : loadLoop cfg (turns + 1) ((line ++ (data ++ more)).drop data.length) = .ok r) :
    r.rest ≠ [] := by
  obtain ⟨flag, tail, rfl, htail⟩ := hmore
  have hpos := List.length_pos_iff.mpr hline
  have hdrop : (line ++ (data ++ 65 :: 83 :: flag :: 0 :: tail)).drop data.length =
      (line ++ data).drop data.length ++ 65 :: 83 :: flag :: 0 :: tail := by
    rw [← List.append_assoc, List.drop_append_of_le_length (by rw [List.length_append]; omega)]
  have hlen : ((line ++ data).drop data.length).length = line.length := by
    rw [List.length_drop, List.length_append]
    omega
  have hshift : ∀ c ∈ (line ++ data).drop data.length, c ≠ 1 := fun c hc =>
    hchars c (mem_of_shifted hline hdata c (List.mem_of_mem_drop hc))
  rw [hdrop] at h
  generalize (line ++ data).drop data.length = shift at h hlen hshift
  have hstop : readHeader (shift ++ 65 :: 83 :: flag :: 0 :: tail) = .ok none := by
    match shift, hlen, hshift with
    | [], hlen, _ => exact absurd hlen (by simp only [List.length_nil]; omega)
    | [a], _, _ => exact readHeader_stop (by decide) (by simp only [List.length_cons]; omega)
    | [a, b], _, _ => exact readHeader_stop (by decide) (by simp only [List.length_cons]; omega)
    | a :: b :: c :: rest, _, hshift =>
        have hlong : 3 ≤ (rest ++ 65 :: 83 :: flag :: 0 :: tail).length := by
          simp only [List.length_append, List.length_cons]
          omega
        exact readHeader_stop (hshift c (by simp)) hlong
  rw [loadLoop, hstop] at h
  obtain rfl := Except.ok.inj h
  intro hnil
  have hzero := congrArg List.length hnil
  simp only [List.length_drop, List.length_append, List.length_cons, List.length_nil] at hzero
  omega

end Shift

section Files

variable {cfg : LoadConfig} {turns : Nat}

/-- The loaded tensor is the one the frame was written for. -/
def Frame.Same (f : Frame) (t : LoadedTensor) : Prop := t.name = f.name ∧ t.payload = f.payload

/-- A frame whose tensor was loaded, with the end of the file found, was read
whole. -/
theorem Frame.OneLine.reads {f : Frame} {t : LoadedTensor} {ts : List LoadedTensor}
    {more : List UInt8} (hline : f.OneLine) (hmmap : cfg.useMmap = false) (hmore : Follows more)
    (h : loadLoop cfg (turns + 2) (f.bytes ++ more) = .ok ⟨t :: ts, []⟩) (ht : f.Same t) :
    f.Reads cfg t ∧ loadLoop cfg (turns + 1) more = .ok ⟨ts, []⟩ := by
  obtain ⟨body, hbody, hprint⟩ := hline
  rw [Frame.bytes, List.append_assoc, List.append_assoc] at h
  obtain ⟨hshort, hparsed, hloads, after, ts', hts, htaken, hrest⟩ :=
    loadLoop_localHeader hmmap h ⟨ts, rfl, ht.1⟩
  obtain ⟨-, rfl⟩ := List.cons.inj hts
  have hget : fgets 255 (f.header ++ (f.payload.bytes ++ more)) = f.header.take 255 := by
    rw [hbody, List.append_assoc, List.singleton_append, fgets_line (newline_not_mem hprint)]
  rw [hget] at hparsed htaken
  rw [ht.2] at hloads htaken
  have hcut : (f.header ++ (f.payload.bytes ++ more)).drop (f.header.take 255).length =
      f.header.drop 255 ++ (f.payload.bytes ++ more) := by
    rw [List.length_take, List.drop_append]
    rcases Nat.le_total 255 f.header.length with hle | hle
    · rw [Nat.min_eq_left hle, Nat.sub_eq_zero_of_le hle, List.drop_zero]
    · rw [Nat.min_eq_right hle, List.drop_length, Nat.sub_self, List.drop_zero,
        List.drop_eq_nil_of_le hle]
  rw [hcut] at htaken
  obtain ⟨rfl, hbytes⟩ := htaken
  rcases Nat.lt_or_ge 255 f.header.length with hlong | hle
  · exfalso
    have hne : f.header.drop 255 ≠ [] := by
      rw [← List.length_pos_iff, List.length_drop]
      omega
    have hchars : ∀ c ∈ f.header.drop 255, c ≠ 1 := by
      intro c hc
      have hmem := List.mem_of_mem_drop hc
      rw [hbody] at hmem
      rcases List.mem_append.mp hmem with hc | hc
      · rintro rfl
        exact absurd (hprint 1 hc) (by decide)
      · obtain rfl := List.mem_singleton.mp hc
        decide
    have hwhole := hbytes (by simp only [List.length_append]; omega)
    rw [← List.append_assoc, List.take_append_of_le_length
      (by rw [List.length_append]; omega)] at hwhole
    exact loadLoop_shifted hne hchars hwhole.symm hmore hrest rfl
  · rw [List.take_of_length_le hle] at hparsed
    rw [List.drop_eq_nil_of_le hle, List.nil_append, List.drop_left] at hrest
    exact ⟨⟨⟨body, hbody, hprint⟩, hshort, hle, hparsed, ht.1, ht.2, hloads⟩, hrest⟩

/-- Frames that read back one by one read back as a file. -/
theorem loadLoop_fileOf {frames : List Frame} {ts : List LoadedTensor}
    (h : List.Forall₂ (Frame.Reads cfg) frames ts) (hmmap : cfg.useMmap = false)
    (hturns : (fileOf frames).length < turns) :
    loadLoop cfg turns (fileOf frames) = .ok ⟨ts, []⟩ := by
  induction h generalizing turns with
  | nil =>
      obtain ⟨turns, rfl⟩ := Nat.exists_eq_add_of_lt hturns
      exact loadLoop_setGlobalHeader cfg _
  | @cons f t rest ts hf hrest ih =>
      have hlen := f.length_bytes
      rw [fileOf_cons, List.length_append] at hturns
      obtain ⟨turns, rfl⟩ : ∃ k, turns = k + 1 := ⟨turns - 1, by omega⟩
      rw [fileOf_cons, hf.loadLoop hmmap (follows_fileOf rest).ne_nil, ih (by omega)]
      rfl

/-- The converse: when the file of printed frames loads as their tensors and
the loop stops at the global header, every frame reads back. -/
theorem reads_of_loadLoop {frames : List Frame} {ts : List LoadedTensor}
    (hprinted : ∀ f ∈ frames, f.OneLine ∨ f.Unparsable) (hmmap : cfg.useMmap = false)
    (hturns : (fileOf frames).length < turns)
    (h : loadLoop cfg turns (fileOf frames) = .ok ⟨ts, []⟩)
    (hsame : List.Forall₂ Frame.Same frames ts) : List.Forall₂ (Frame.Reads cfg) frames ts := by
  induction hsame generalizing turns with
  | nil => exact List.Forall₂.nil
  | @cons f t rest ts hf hrest ih =>
      have hlen := f.length_bytes
      rw [fileOf_cons, List.length_append] at hturns
      obtain ⟨turns, rfl⟩ : ∃ k, turns = k + 2 := ⟨turns - 2, by omega⟩
      rw [fileOf_cons] at h
      rcases hprinted f List.mem_cons_self with hline | hbad
      · obtain ⟨hreads, hmore⟩ := hline.reads hmmap (follows_fileOf rest) h hf
        exact List.Forall₂.cons hreads
          (ih (fun g hg => hprinted g (List.mem_cons_of_mem _ hg)) (by omega) hmore)
      · exfalso
        rw [Frame.bytes, List.append_assoc, List.append_assoc] at h
        obtain ⟨-, hparsed, -⟩ := loadLoop_localHeader hmmap h ⟨ts, rfl, hf.1⟩
        exact hbad _ (follows_fileOf rest) _ hparsed

end Files

end DashInfer.WeightFile

/-!
What the writer puts into a file: one frame for each tensor, with the arrays its
conversion fills.
-/

namespace DashInfer.WeightFile

open DashInfer.Lib
open DashInfer.Weight

/-- The frame a tensor is written as. A matrix without a conversion leaves
nothing behind its local header. -/
def frameOf (name : List UInt8) : Option (TensorAttribute × Payload) → Frame
  | none => ⟨name, [], .dense []⟩
  | some (a, payload) => ⟨name, createAllsparkyHeader a, payload⟩

/-- The frame stands in the file for the tensor. -/
def SavedTensor.Written (fp16 : Bool) (t : SavedTensor) (f : Frame) : Prop :=
  ∃ c, convert fp16 t.attr t.binData = .ok c ∧ f = frameOf t.name c

section Writing

variable {fp16 : Bool} {a a' : TensorAttribute} {payload : Payload} {binData : List UInt8}

theorem mapM_saveAllsparkyTofile {tensors : List SavedTensor} {parts : List (List UInt8)}
    (h : tensors.mapM (saveAllsparkyTofile fp16) = .ok parts) :
    ∃ frames, List.Forall₂ (SavedTensor.Written fp16) tensors frames ∧
      parts = frames.map Frame.bytes := by
  induction tensors generalizing parts with
  | nil =>
      obtain rfl := Except.ok.inj h
      exact ⟨[], List.Forall₂.nil, rfl⟩
  | cons t rest ih =>
      rw [List.mapM_cons] at h
      obtain ⟨part, hpart, h⟩ := ok_of_bind h
      obtain ⟨others, hothers, h⟩ := ok_of_bind h
      obtain rfl := Except.ok.inj h
      obtain ⟨frames, hwritten, rfl⟩ := ih hothers
      obtain ⟨data, hdata, hpart⟩ := ok_of_bind hpart
      obtain rfl := Except.ok.inj hpart
      obtain ⟨c, hc, hdata⟩ := ok_of_bind hdata
      refine ⟨frameOf t.name c :: frames, List.Forall₂.cons ⟨c, hc, rfl⟩ hwritten, ?_⟩
      cases c with
      | none =>
          obtain rfl := Except.ok.inj hdata
          rfl
      | some c =>
          obtain rfl := Except.ok.inj hdata
          rfl

/-- The file is the sequence of the frames. -/
theorem writeFile_eq {tensors : List SavedTensor} {file : List UInt8}
    (h : writeFile fp16 tensors = .ok file) :
    ∃ frames, List.Forall₂ (SavedTensor.Written fp16) tensors frames ∧ file = fileOf frames := by
  obtain ⟨parts, hparts, h⟩ := ok_of_bind h
  obtain rfl := Except.ok.inj h
  obtain ⟨frames, hwritten, rfl⟩ := mapM_saveAllsparkyTofile hparts
  exact ⟨frames, hwritten, rfl⟩

/-- A conversion counts the elements and fills arrays of that many. -/
def Converts (conversion : Element → List UInt8 → Nat → Nat → Except Failure (Nat × Payload))
    (shown : Element → List UInt8 → Nat → Nat → Nat → Payload → Prop) : Prop :=
  ∀ e matrix row col nnz payload, row * col * e.size ≤ matrix.length →
    conversion e matrix row col = .ok (nnz, payload) → shown e matrix row col nnz payload

theorem length_flatMap_littleEndian (width : Nat) (l : List Nat) :
    (l.flatMap (littleEndian width)).length = l.length * width := by
  induction l with
  | nil => simp
  | cons n rest ih =>
      rw [List.flatMap_cons, List.length_append, ih, length_littleEndian, List.length_cons,
        Nat.add_mul, Nat.one_mul, Nat.add_comm]

def CscShown (e : Element) (matrix : List UInt8) (row col nnz : Nat) (payload : Payload) : Prop :=
  nnz = getNnz e matrix row col ∧ ∃ colOffsets rowIndices data,
    payload = .csc colOffsets rowIndices data ∧ colOffsets.length = (col + 1) * 4 ∧
      rowIndices.length = nnz * 4 ∧ data.length = nnz * e.size

def EllShown (e : Element) (_ : List UInt8) (_ _ nnz : Nat) (payload : Payload) : Prop :=
  ∃ rowIndices data, payload = .ell rowIndices data ∧ rowIndices.length = nnz * 2 ∧
    data.length = nnz * e.size

theorem converts_toCsc : Converts toCsc CscShown := by
  intro e matrix row col nnz payload hsize h
  have hfilled := cscFilled hsize
  unfold toCsc at h
  dsimp only at h
  split at h
  case isFalse => cases h
  case isTrue =>
      obtain ⟨rfl, rfl⟩ := Prod.mk.inj (Except.ok.inj h)
      refine ⟨rfl, _, _, _, rfl, ?_, ?_, ?_⟩
      · rw [length_flatMap_littleEndian, hfilled.colOffset]
      · rw [length_flatMap_littleEndian, hfilled.rowIdx]
      · rw [hfilled.uniform.length_flatten, hfilled.values]

theorem converts_toEll : Converts toEll EllShown := by
  intro e matrix row col nnz payload hsize h
  unfold toEll at h
  dsimp only at h
  split at h
  case isFalse => cases h
  case isTrue =>
      obtain ⟨arrays, harrays, h⟩ := ok_of_bind h
      obtain ⟨rfl, rfl⟩ := Prod.mk.inj (Except.ok.inj h)
      have hfilled := ellFilled hsize harrays
      refine ⟨_, _, rfl, ?_, ?_⟩
      · rw [length_flatMap_littleEndian, hfilled.rowIdx]
      · rw [hfilled.uniform.length_flatten, hfilled.values]

theorem size_of_elementOf? {wordSize : Int} {e : Element}
    (h : elementOf? fp16 wordSize = some e) : wordSize = e.size := by
  rw [elementOf?] at h
  split at h
  · rename_i hword
    obtain rfl := Option.some.inj h
    exact hword
  · split at h
    · rename_i hword
      obtain rfl := Option.some.inj h
      exact hword.1
    · cases h

theorem convertMatrix_eq_some
    {conversion : Element → List UInt8 → Nat → Nat → Except Failure (Nat × Payload)}
    {shown : Element → List UInt8 → Nat → Nat → Nat → Payload → Prop}
    (hconv : Converts conversion shown)
    (h : convertMatrix fp16 a binData conversion = .ok (some (a', payload))) :
    ∃ row col dims e, ∃ nnz : Nat, a.shape = row :: col :: dims ∧ elementOf? fp16 a.wordSize = some e ∧
      a' = { a with nnz := (nnz : Int) } ∧
      row.toNat * col.toNat * e.size ≤ binData.length ∧
      shown e binData row.toNat col.toNat nnz payload := by
  rw [convertMatrix] at h
  split at h
  case h_2 => cases h
  case h_1 row col dims hshape =>
      split at h
      case isTrue => cases h
      case isFalse =>
          split at h
          case h_1 => cases h
          case h_2 e he =>
              split at h
              case isTrue => cases h
              case isFalse hsize =>
                  obtain ⟨⟨nnz, p⟩, hp, h⟩ := ok_of_bind h
                  obtain ⟨rfl, rfl⟩ := Prod.mk.inj (Option.some.inj (Except.ok.inj h))
                  have hle := Nat.le_of_not_lt hsize
                  exact ⟨row, col, dims, e, nnz, hshape, he, rfl, hle, hconv _ _ _ _ _ _ hle hp⟩

theorem convertMatrix_ne_none
    {conversion : Element → List UInt8 → Nat → Nat → Except Failure (Nat × Payload)}
    (h : convertMatrix fp16 a binData conversion = .ok none) :
    elementOf? fp16 a.wordSize = none := by
  rw [convertMatrix] at h
  split at h
  case h_2 => cases h
  case h_1 row col dims hshape =>
      split at h
      case isTrue => cases h
      case isFalse =>
          split at h
          case h_1 he => exact he
          case h_2 e he =>
              split at h
              case isTrue => cases h
              case isFalse hsize =>
                  obtain ⟨⟨nnz, p⟩, hp, h⟩ := ok_of_bind h
                  cases h

/-- What the writer puts into a file, by the kind of the tensor. -/
theorem convert_eq_some (h : convert fp16 a binData = .ok (some (a', payload))) :
    (a.sparseType = 0 ∧ a.shape ≠ [] ∧ a' = a ∧ payload = .dense binData) ∨
    (a.sparseType = 1 ∧ ∃ row col dims e, ∃ nnz : Nat, a.shape = row :: col :: dims ∧
      elementOf? fp16 a.wordSize = some e ∧ a' = { a with nnz := (nnz : Int) } ∧
      row.toNat * col.toNat * e.size ≤ binData.length ∧
      CscShown e binData row.toNat col.toNat nnz payload) ∨
    (a.sparseType = 2 ∧ ∃ row col dims e, ∃ nnz : Nat, a.shape = row :: col :: dims ∧
      elementOf? fp16 a.wordSize = some e ∧ a' = { a with nnz := (nnz : Int) } ∧
      row.toNat * col.toNat * e.size ≤ binData.length ∧
      EllShown e binData row.toNat col.toNat nnz payload) := by
  rw [convert] at h
  split at h
  case isTrue hdense =>
      split at h
      case isTrue => cases h
      case isFalse hshape =>
          obtain ⟨rfl, rfl⟩ := Prod.mk.inj (Option.some.inj (Except.ok.inj h))
          exact Or.inl ⟨hdense, hshape, rfl, rfl⟩
  case isFalse =>
      split at h
      case isTrue hcsc => exact Or.inr (Or.inl ⟨hcsc, convertMatrix_eq_some converts_toCsc h⟩)
      case isFalse =>
          split at h
          case isTrue hell => exact Or.inr (Or.inr ⟨hell, convertMatrix_eq_some converts_toEll h⟩)
          case isFalse => cases h

theorem convert_eq_none (h : convert fp16 a binData = .ok none) :
    a.sparseType ≠ 0 ∧ elementOf? fp16 a.wordSize = none := by
  rw [convert] at h
  split at h
  case isTrue =>
      split at h
      · cases h
      · cases h
  case isFalse hdense =>
      split at h
      case isTrue => exact ⟨hdense, convertMatrix_ne_none h⟩
      case isFalse =>
          split at h
          case isTrue => exact ⟨hdense, convertMatrix_ne_none h⟩
          case isFalse => cases h

/-- The count of a column never goes down. -/
theorem foldl_nnz_pos {e : Element} {m n : Nat} {l : List Nat} {k : Nat} :
    0 < l.foldl (fun nnz j => nnz + (significantRows e binData m n j).length +
        padding e.vect (significantRows e binData m n j).length) k ↔
      0 < k ∨ ∃ j ∈ l, significantRows e binData m n j ≠ [] := by
  induction l generalizing k with
  | nil => simp
  | cons j rest ih =>
      have hpad : (significantRows e binData m n j).length = 0 →
          padding e.vect (significantRows e binData m n j).length = 0 := by
        intro hzero
        rw [hzero, padding, Nat.zero_mod, if_neg (by simp)]
      have hstep : 0 < k + (significantRows e binData m n j).length +
            padding e.vect (significantRows e binData m n j).length ↔
          0 < k ∨ significantRows e binData m n j ≠ [] := by
        rw [ne_eq, ← List.length_eq_zero_iff]
        omega
      rw [List.foldl_cons, ih, hstep, List.exists_mem_cons_iff, or_assoc]

/-- Elements are counted when there is one. -/
theorem getNnz_pos {e : Element} {m n : Nat} :
    0 < getNnz e binData m n ↔
      ∃ i < m, ∃ j < n, e.significant (entry e binData (i * n + j)) = true := by
  rw [getNnz, foldl_nnz_pos]
  constructor
  · rintro (h | ⟨j, hj, hne⟩)
    · exact absurd h (Nat.lt_irrefl 0)
    · obtain ⟨i, hi⟩ := List.exists_mem_of_ne_nil _ hne
      obtain ⟨him, hsig⟩ := mem_significantRows.mp hi
      exact ⟨i, him, j, List.mem_range.mp hj, hsig⟩
  · rintro ⟨i, hi, j, hj, hsig⟩
    exact Or.inr ⟨j, List.mem_range.mpr hj,
      List.ne_nil_of_mem (mem_significantRows.mpr ⟨hi, hsig⟩)⟩

end Writing

end DashInfer.WeightFile
