import DashInfer.WeightFile.Loader

/-!
What one turn of the loader takes from the stream: the local header, the
header line and exactly the bytes of the data it keeps.
-/

namespace DashInfer.WeightFile

attribute [local semireducible] Lib.text

open DashInfer.Lib
open DashInfer.Weight

theorem ok_of_bind {α β : Type} {x : Except Failure α} {f : α → Except Failure β} {b : β}
    (h : x >>= f = .ok b) : ∃ a, x = .ok a ∧ f a = .ok b := by
  cases x with
  | error failure => cases h
  | ok a => exact ⟨a, rfl, h⟩

section Vectors

variable {n : Int} {rest data after : List UInt8}

theorem readVector_eq_ok (h : readVector n rest = .ok (data, after)) :
    (data.length : Int) = n ∧ after = rest.drop data.length ∧
      (data.length ≤ rest.length → data = rest.take data.length) := by
  rw [readVector] at h
  split at h
  · cases h
  · rename_i hn
    obtain ⟨rfl, rfl⟩ := Prod.mk.inj (Except.ok.inj h)
    have hlen : (rest.take n.toNat ++
        List.replicate (n.toNat - (rest.take n.toNat).length) 0).length = n.toNat := by
      rw [List.length_append, List.length_replicate, List.length_take]
      omega
    refine ⟨?_, ?_, ?_⟩
    · rw [hlen]
      omega
    · rw [hlen]
    · rw [hlen]
      intro hle
      rw [List.length_take, Nat.min_eq_left hle, Nat.sub_self, List.replicate_zero,
        List.append_nil]

theorem readVector_append (h : (data.length : Int) = n) (more : List UInt8) :
    readVector n (data ++ more) = .ok (data, more) := by
  obtain rfl := h
  rw [readVector, if_neg (by omega)]
  simp

end Vectors

section Data

variable {cfg : LoadConfig} {name : List UInt8} {info : TensorInfo} {part : Option AsTensor}

/-- The loader takes these bytes as the data of the tensor and keeps the part. -/
def Payload.Loads (cfg : LoadConfig) (name : List UInt8) (info : TensorInfo)
    (part : Option AsTensor) : Payload → Prop
  | .dense data =>
      info.mode = .dense ∧ (data.length : Int) = sizeBytes info ∧
        ¬ (cfg.asserts ∧ count info.shape = 0) ∧
        ∃ p, part = some p ∧ DenseWeightLoader.loadFromMemory cfg name info data = .ok p
  | .csc colOffsets rowIndices data =>
      part = none ∧ info.mode = .csc ∧ ∃ rows cols dims, info.shape = rows :: cols :: dims ∧
        (colOffsets.length : Int) = (cols + 1) * 4 ∧ (rowIndices.length : Int) = info.nnz * 4 ∧
        (data.length : Int) = info.nnz * sizeofType info.dtype ∧
        ¬ (info.nnz = 0 ∧ colOffsets ≠ [])
  | .ell rowIndices data =>
      part = none ∧ info.mode = .ell ∧ ∃ rows cols dims, info.shape = rows :: cols :: dims ∧
        (rowIndices.length : Int) = info.nnz * 2 ∧
        (data.length : Int) = info.nnz * sizeofType info.dtype

/-- The bytes that were taken from the stream. -/
structure Taken (payload : Payload) (rest after : List UInt8) : Prop where
  left : after = rest.drop payload.bytes.length
  bytes : payload.bytes.length ≤ rest.length → payload.bytes = rest.take payload.bytes.length

theorem take_append_take {data more : List UInt8} {k : Nat} (h : data = more.take data.length) :
    data ++ (more.drop data.length).take k = more.take (data.length + k) := by
  rw [List.take_add, ← h]

theorem Taken.of_two {a b : List UInt8} {rest : List UInt8} {payload : Payload}
    (hbytes : payload.bytes = a ++ b) (ha : a.length ≤ rest.length → a = rest.take a.length)
    (hb : b.length ≤ (rest.drop a.length).length → b = (rest.drop a.length).take b.length) :
    Taken payload rest ((rest.drop a.length).drop b.length) := by
  refine ⟨?_, ?_⟩
  · rw [hbytes, List.drop_drop, List.length_append]
  · rw [hbytes, List.length_append]
    intro hle
    have hb' := hb (by rw [List.length_drop]; omega)
    calc a ++ b = a ++ (rest.drop a.length).take b.length := by rw [← hb']
      _ = rest.take (a.length + b.length) := take_append_take (ha (by omega))

theorem loadSparse_eq_ok (cfg : LoadConfig) (name : List UInt8) {payload : Payload}
    {rest after : List UInt8}
    (h : SparseWeightLoader.loadFromFileStream info rest = .ok (payload, after)) :
    payload.Loads cfg name info none ∧ Taken payload rest after := by
  rw [SparseWeightLoader.loadFromFileStream] at h
  split at h
  case h_2 => cases h
  case h_1 rows cols dims hshape =>
      split at h
      case h_1 hmode =>
          obtain ⟨⟨colOffsets, restA⟩, hcol, h⟩ := ok_of_bind h
          obtain ⟨⟨rowIndices, restB⟩, hrow, h⟩ := ok_of_bind h
          obtain ⟨⟨val, restC⟩, hval, h⟩ := ok_of_bind h
          dsimp only at hcol hrow hval h
          split at h
          case isTrue => cases h
          case isFalse hnnz =>
              obtain ⟨rfl, rfl⟩ := Prod.mk.inj (Except.ok.inj h)
              obtain ⟨hcolLen, rfl, hcolTake⟩ := readVector_eq_ok hcol
              obtain ⟨hrowLen, rfl, hrowTake⟩ := readVector_eq_ok hrow
              obtain ⟨hvalLen, rfl, hvalTake⟩ := readVector_eq_ok hval
              refine ⟨⟨rfl, hmode, rows, cols, dims, hshape, hcolLen, hrowLen, hvalLen, hnnz⟩, ?_⟩
              have hpair : (colOffsets ++ rowIndices).length ≤ rest.length →
                  colOffsets ++ rowIndices = rest.take (colOffsets ++ rowIndices).length := by
                have htaken := @Taken.of_two _ _ _ (.dense (colOffsets ++ rowIndices)) rfl
                  hcolTake hrowTake
                exact htaken.bytes
              have hdrop : (rest.drop colOffsets.length).drop rowIndices.length =
                  rest.drop (colOffsets ++ rowIndices).length := by
                rw [List.drop_drop, List.length_append]
              rw [hdrop] at hvalTake ⊢
              exact Taken.of_two rfl hpair hvalTake
      case h_2 hmode =>
          obtain ⟨⟨rowIndices, restA⟩, hrow, h⟩ := ok_of_bind h
          obtain ⟨⟨val, restB⟩, hval, h⟩ := ok_of_bind h
          dsimp only at hrow hval h
          obtain ⟨rfl, rfl⟩ := Prod.mk.inj (Except.ok.inj h)
          obtain ⟨hrowLen, rfl, hrowTake⟩ := readVector_eq_ok hrow
          obtain ⟨hvalLen, rfl, hvalTake⟩ := readVector_eq_ok hval
          exact ⟨⟨rfl, hmode, rows, cols, dims, hshape, hrowLen, hvalLen⟩,
            Taken.of_two rfl hrowTake hvalTake⟩
      case h_3 => cases h

theorem loadSparse_append {payload : Payload} (hmode : info.mode ≠ .dense)
    (h : payload.Loads cfg name info part) (more : List UInt8) :
    SparseWeightLoader.loadFromFileStream info (payload.bytes ++ more) = .ok (payload, more) := by
  cases payload with
  | dense data => exact absurd h.1 hmode
  | csc colOffsets rowIndices data =>
      obtain ⟨-, hcsc, rows, cols, dims, hshape, hcol, hrow, hval, hnnz⟩ := h
      simp only [SparseWeightLoader.loadFromFileStream, hshape, hcsc, Payload.bytes,
        List.append_assoc, readVector_append hcol, readVector_append hrow, readVector_append hval,
        bind, Except.bind]
      rw [if_neg hnnz]
  | ell rowIndices data =>
      obtain ⟨-, hell, rows, cols, dims, hshape, hrow, hval⟩ := h
      simp only [SparseWeightLoader.loadFromFileStream, hshape, hell, Payload.bytes,
        List.append_assoc, readVector_append hrow, readVector_append hval, bind, Except.bind]
      rfl

theorem loadDense_eq_ok {t : LoadedTensor} {rest after : List UInt8} (hmmap : cfg.useMmap = false)
    (hmode : info.mode = .dense) (h : loadDense cfg name info rest = .ok (t, after)) :
    t.name = name ∧ t.info = info ∧ t.payload.Loads cfg name info t.part ∧
      Taken t.payload rest after := by
  rw [loadDense] at h
  split at h
  case isTrue => cases h
  case isFalse hneg =>
      dsimp only at h
      rw [hmmap] at h
      split at h
      case isTrue => cases h
      case isFalse hlong =>
          rw [if_neg Bool.false_ne_true] at h
          split at h
          case isTrue => cases h
          case isFalse hempty =>
              split at h
              case h_2 => cases h
              case h_1 p hpart =>
                  obtain ⟨rfl, rfl⟩ := Prod.mk.inj (Except.ok.inj h)
                  have hlen : (rest.take (sizeBytes info).toNat).length =
                      (sizeBytes info).toNat := by
                    rw [List.length_take]
                    omega
                  refine ⟨rfl, rfl, ⟨hmode, ?_, hempty, p, rfl, hpart⟩, ?_, fun _ => ?_⟩
                  · rw [hlen]
                    omega
                  · rw [Payload.bytes, hlen]
                  · rw [Payload.bytes, hlen]

/-- Reading takes the data and leaves what follows. -/
theorem loadTensor_eq_ok {t : LoadedTensor} {rest after : List UInt8} (hmmap : cfg.useMmap = false)
    (h : loadTensor cfg name info rest = .ok (t, after)) :
    t.name = name ∧ t.info = info ∧ t.payload.Loads cfg name info t.part ∧
      Taken t.payload rest after := by
  rw [loadTensor] at h
  split at h
  case isTrue hmode => exact loadDense_eq_ok hmmap hmode h
  case isFalse =>
      obtain ⟨⟨payload, after'⟩, hsparse, h⟩ := ok_of_bind h
      obtain ⟨rfl, rfl⟩ := Prod.mk.inj (Except.ok.inj h)
      obtain ⟨hloads, htaken⟩ := loadSparse_eq_ok cfg name hsparse
      exact ⟨rfl, rfl, hloads, htaken⟩

/-- Sparse data is read alike in both modes. -/
theorem loadTensor_sparse {payload : Payload} (hmode : info.mode ≠ .dense)
    (h : payload.Loads cfg name info part) (more : List UInt8) :
    loadTensor cfg name info (payload.bytes ++ more) =
      .ok (⟨name, info, payload, part⟩, more) := by
  rw [loadTensor, if_neg hmode, loadSparse_append hmode h]
  cases payload with
  | dense data => exact absurd h.1 hmode
  | csc colOffsets rowIndices data =>
      obtain ⟨rfl, -⟩ := h
      rfl
  | ell rowIndices data =>
      obtain ⟨rfl, -⟩ := h
      rfl

/-- Data the loader takes is read from the front of a longer stream. -/
theorem loadTensor_append {payload : Payload} (hmmap : cfg.useMmap = false)
    (h : payload.Loads cfg name info part) {more : List UInt8} (hmore : more ≠ []) :
    loadTensor cfg name info (payload.bytes ++ more) = .ok (⟨name, info, payload, part⟩, more) := by
  by_cases hmode : info.mode = .dense
  · rw [loadTensor, if_pos hmode]
    cases payload with
    | dense data =>
        obtain ⟨-, hlen, hempty, p, rfl, hpart⟩ := h
        have hsize : (sizeBytes info).toNat = data.length := by omega
        have hmorePos := List.length_pos_iff.mpr hmore
        have hlong : ¬ (data ++ more).length ≤ data.length := by
          rw [List.length_append]
          omega
        rw [loadDense, if_neg (by omega)]
        simp only [Payload.bytes, hsize, List.take_left, List.drop_left, if_neg hlong, hmmap,
          Bool.false_eq_true, if_false, if_neg hempty, hpart]
    | csc colOffsets rowIndices data =>
        rw [h.2.1] at hmode
        cases hmode
    | ell rowIndices data =>
        rw [h.2.1] at hmode
        cases hmode
  · exact loadTensor_sparse hmode h more

end Data

section Headers

theorem readLE_littleEndian (n : Nat) : readLE (littleEndian 2 n) = n % 65536 := by
  simp only [littleEndian, readLE, Nat.toUInt8_eq, UInt8.toNat_ofNat']
  omega

theorem localHeader_eq (name : List UInt8) :
    localHeader name = 65 :: 83 :: 1 :: 0 :: (littleEndian 2 name.length ++ name) := by
  have has : text "AS" = [65, 83] := by decide
  rw [localHeader, has]
  rfl

theorem setGlobalHeader_eq : setGlobalHeader = [65, 83, 0, 0, 0, 0] := by decide

/-- The name that stands behind a local header is cut to its length modulo
2 ^ 16. -/
theorem readHeader_localHeader (name tail : List UInt8) :
    readHeader (localHeader name ++ tail) =
      if (name ++ tail).length < name.length % 65536 then
        .error (.exception "invalid weight file: io err")
      else
        match fgets 255 ((name ++ tail).drop (name.length % 65536)) with
        | [] => .error .undefinedBehaviour
        | c :: line => do
            let info ← parseTensorInfo (c :: line)
            return some ((name ++ tail).take (name.length % 65536), info,
              ((name ++ tail).drop (name.length % 65536)).drop (c :: line).length) := by
  have hlen : readLE (littleEndian 2 name.length) = name.length % 65536 := readLE_littleEndian _
  have hflag : readLE [1, 0] = 1 := rfl
  rw [localHeader_eq]
  simp only [littleEndian, List.cons_append, List.nil_append] at hlen ⊢
  rw [readHeader, if_neg (by simp only [List.length_cons]; omega)]
  simp only [List.drop_succ_cons, List.drop_zero, List.take_succ_cons, List.take_zero, hflag,
    hlen]
  rw [if_neg (by decide)]
  split
  · rfl
  · split
    · rename_i hline
      rw [hline]
    · rename_i hne
      generalize hline : fgets 255 ((name ++ tail).drop (name.length % 65536)) = line
      cases line with
      | nil => exact absurd hline hne
      | cons c line => rfl

/-- A local header whose flag has another low byte than 1 ends the loop. -/
theorem readHeader_stop {a b flag : UInt8} {rest : List UInt8} (hflag : flag ≠ 1)
    (hlen : 3 ≤ rest.length) : readHeader (a :: b :: flag :: rest) = .ok none := by
  obtain ⟨hi, rest, rfl⟩ := List.exists_cons_of_length_pos (by omega : 0 < rest.length)
  rw [readHeader, if_neg (by simp only [List.length_cons] at hlen ⊢; omega), if_pos]
  simp only [List.drop_succ_cons, List.drop_zero, List.take_succ_cons, List.take_zero, readLE]
  have hne : flag.toNat ≠ 1 := fun h => hflag (UInt8.toNat_inj.mp h)
  omega

theorem fgets_line {body : List UInt8} (h : (10 : UInt8) ∉ body) (limit : Nat)
    (tail : List UInt8) : fgets limit (body ++ 10 :: tail) = (body ++ [10]).take limit := by
  induction body generalizing limit with
  | nil =>
      cases limit with
      | zero => rfl
      | succ limit =>
          have hnewline : (10 : UInt8) = byte '\n' := rfl
          rw [List.nil_append, List.nil_append, fgets, if_pos hnewline, List.take_succ_cons,
            List.take_nil]
  | cons c rest ih =>
      cases limit with
      | zero => rfl
      | succ limit =>
          have hne : c ≠ byte '\n' := fun heq => h (heq ▸ List.mem_cons_self)
          rw [List.cons_append, fgets, if_neg hne, ih fun hmem => h (List.mem_cons_of_mem _ hmem)]
          rfl

end Headers

end DashInfer.WeightFile
