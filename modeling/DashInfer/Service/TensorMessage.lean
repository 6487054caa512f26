import Mathlib.Algebra.Order.BigOperators.GroupWithZero.List
import Mathlib.Tactic

/-!
Tensors on their way between the client and the service processes:
`DLTensorManager` packs a `DLManagedTensor` into the `Tensor` message and
unpacks it on the other side. Sizes are computed in `int`, the type of a tensor
is translated by two tables, and the message holds the bytes found at the data
pointer.
-/

namespace DashInfer.Service

/-- A value of `int` after an operation whose exact result is `x`. -/
def int32 (x : Int) : Int := Int.bmod x (2 ^ 32)

/-- `DLDataType`. The codes are those of `DLDataTypeCode`. -/
structure DLDataType where
  code : Nat
  bits : Nat
  lanes : Nat
deriving DecidableEq

def kDLInt : Nat := 0
def kDLUInt : Nat := 1
def kDLFloat : Nat := 2

structure DLDevice where
  deviceType : Nat
  deviceId : Int
deriving DecidableEq

/-- `{kDLCPU, 0}`. -/
def DLDevice.cpu : DLDevice := { deviceType := 1, deviceId := 0 }

/-- `DLTensor`; `data` is what can be read from the data pointer on. -/
structure DLTensor where
  data : List UInt8
  device : DLDevice
  dtype : DLDataType
  shape : List Int
  strides : Option (List Int)
  byteOffset : Nat
deriving DecidableEq

/-- `GetDataSize` of the format: the bytes of a compact tensor. -/
def DLTensor.dataSize (t : DLTensor) : Int :=
  t.shape.prod * ((t.dtype.bits * t.dtype.lanes + 7) / 8 : Nat)

/-- A tensor a caller can hand over: a type of some width, no negative
dimension and, if it is compact, exactly its bytes behind the offset. -/
structure ManagedTensor extends DLTensor where
  bits_pos : 0 < dtype.bits
  shape_nonneg : ∀ d ∈ shape, 0 ≤ d
  data_length : strides = none → (data.length : Int) = byteOffset + toDLTensor.dataSize

/-- `DATA_TYPE` of the protocol. -/
inductive DataType where
  | undefined
  | float32
  | float16
  | int8
  | int16
  | int32
  | int64
  | string
  | bool
  | bfloat16
  | uint8
deriving DecidableEq

/-- The `Tensor` message, less the fields no reader looks at. -/
structure Tensor where
  shape : List Int
  dataType : DataType
  data : List UInt8
deriving DecidableEq

/-- The switch over `dtype.code` and `dtype.bits`. Combinations without a case
leave the field at its default. -/
def dataTypeOf (dtype : DLDataType) : DataType :=
  if dtype.code = kDLFloat then
    if dtype.bits = 16 then .float16
    else if dtype.bits = 32 then .float32
    else .undefined
  else if dtype.code = kDLUInt then
    if dtype.bits = 1 then .bool else .undefined
  else if dtype.code = kDLInt then
    if dtype.bits = 8 then .int8
    else if dtype.bits = 16 then .int16
    else if dtype.bits = 32 then .int32
    else if dtype.bits = 64 then .int64
    else .undefined
  else .undefined

/-- The switch over `data_type()`. A type without a case leaves the fresh
`DLDataType` at zero. -/
def dtypeOf : DataType → DLDataType
  | .float32 => { code := kDLFloat, bits := 32, lanes := 1 }
  | .float16 => { code := kDLFloat, bits := 16, lanes := 1 }
  | .int64 => { code := kDLInt, bits := 64, lanes := 1 }
  | .int32 => { code := kDLInt, bits := 32, lanes := 1 }
  | _ => { code := 0, bits := 0, lanes := 1 }

/-- `shape_count`, multiplied up in `int`. -/
def shapeCount (dims : List Int) : Int := dims.foldl (fun count d => int32 (count * d)) 1

/-- `shape_count * bits / 8`, in `int`. -/
def dataSizeOf (dims : List Int) (bits : Nat) : Int := (int32 (shapeCount dims * bits)).tdiv 8

/-- The first `size` bytes of a buffer; `none` when the size is negative or
runs past the end. -/
def readBytes (data : List UInt8) (size : Int) : Option (List UInt8) :=
  if 0 ≤ size ∧ size ≤ data.length then some (data.take size.toNat) else none

/-- `toTensorProtoFromDlTensor`. -/
def toTensorProtoFromDlTensor (t : DLTensor) : Option Tensor :=
  let dims := t.shape.map int32
  (readBytes t.data (dataSizeOf dims t.dtype.bits)).map
    (fun data => { shape := dims, dataType := dataTypeOf t.dtype, data })

/-- `ToDlTensor`. -/
def toDlTensor (p : Tensor) : Option DLTensor :=
  let dtype := dtypeOf p.dataType
  (readBytes p.data (dataSizeOf p.shape dtype.bits)).map
    (fun data =>
      { data, device := DLDevice.cpu, dtype, shape := p.shape, strides := none, byteOffset := 0 })

/-- The tensor that the other side gets. -/
def sendTensor (t : DLTensor) : Option DLTensor :=
  (toTensorProtoFromDlTensor t).bind toDlTensor

/-- The types both tables have. -/
def carriedTypes : List DLDataType :=
  [{ code := kDLFloat, bits := 16, lanes := 1 }, { code := kDLFloat, bits := 32, lanes := 1 },
    { code := kDLInt, bits := 32, lanes := 1 }, { code := kDLInt, bits := 64, lanes := 1 }]

/-- The tensors that arrive as they were: compact, on the CPU, of one of the
four types, with sizes that `int` can hold. -/
structure Sendable (t : DLTensor) : Prop where
  device : t.device = DLDevice.cpu
  dtype : t.dtype ∈ carriedTypes
  strides : t.strides = none
  byteOffset : t.byteOffset = 0
  dims : ∀ d ∈ t.shape, d < 2 ^ 31
  size : t.shape.prod * t.dtype.bits < 2 ^ 31

theorem int32_eq_self {x : Int} (hlo : -2 ^ 31 ≤ x) (hhi : x < 2 ^ 31) : int32 x = x := by
  unfold int32
  apply Int.bmod_eq_of_le <;> omega

theorem int32_lt (x : Int) : int32 x < 2 ^ 31 := by
  have h := Int.bmod_lt (x := x) (m := 2 ^ 32) (by decide)
  unfold int32
  omega

theorem int32_mul_left (x y : Int) : int32 (int32 x * y) = int32 (x * y) := by
  unfold int32
  exact Int.bmod_mul_bmod

/-- Wrapping in each multiplication is wrapping once at the end. -/
theorem int32_shapeCount_mul (dims : List Int) (bits : Int) :
    int32 (shapeCount dims * bits) = int32 (dims.prod * bits) := by
  have hfold : ∀ (l : List Int) (count : Int),
      int32 (l.foldl (fun count d => int32 (count * d)) count * bits) =
        int32 (count * l.prod * bits) := by
    intro l
    induction l with
    | nil => simp
    | cons d rest ih =>
        intro count
        rw [List.foldl_cons, ih, List.prod_cons]
        calc int32 (int32 (count * d) * rest.prod * bits)
            = int32 (int32 (count * d) * (rest.prod * bits)) := by rw [mul_assoc]
          _ = int32 (count * d * (rest.prod * bits)) := int32_mul_left _ _
          _ = int32 (count * (d * rest.prod) * bits) := by ring_nf
  have h := hfold dims 1
  rwa [one_mul] at h

/-- The computed size is the true one as long as `int` holds the bits. -/
theorem dataSizeOf_eq {dims : List Int} {bits : Nat} (hnonneg : 0 ≤ dims.prod)
    (hsize : dims.prod * bits < 2 ^ 31) : dataSizeOf dims bits = dims.prod * bits / 8 := by
  have hpos : 0 ≤ dims.prod * bits := Int.mul_nonneg hnonneg (Int.natCast_nonneg _)
  unfold dataSizeOf
  rw [int32_shapeCount_mul, int32_eq_self (by omega) hsize, Int.tdiv_eq_ediv_of_nonneg hpos]

/-- Otherwise it is smaller than the tensor. -/
theorem dataSizeOf_lt {dims : List Int} {bits : Nat} (hsize : 2 ^ 31 ≤ dims.prod * bits) :
    dataSizeOf dims bits < dims.prod * bits / 8 := by
  have hlt := int32_lt (dims.prod * bits)
  unfold dataSizeOf
  rw [int32_shapeCount_mul]
  rcases Int.lt_or_le (int32 (dims.prod * bits)) 0 with hneg | hpos
  · have hle : (int32 (dims.prod * bits)).tdiv 8 ≤ 0 := by
      have h := Int.tdiv_nonneg (a := -int32 (dims.prod * bits)) (b := 8) (by omega) (by omega)
      rw [Int.neg_tdiv] at h
      omega
    omega
  · rw [Int.tdiv_eq_ediv_of_nonneg hpos]
    omega

theorem readBytes_all (data : List UInt8) : readBytes data data.length = some data := by
  simp [readBytes]

theorem readBytes_length {data data' : List UInt8} {size : Int}
    (h : readBytes data size = some data') : (data'.length : Int) = size := by
  unfold readBytes at h
  split at h
  · next hsize =>
      obtain rfl := Option.some.inj h
      rw [List.length_take]
      omega
  · cases h

theorem dtypeOf_dataTypeOf {dtype : DLDataType} (h : dtype ∈ carriedTypes) :
    dtypeOf (dataTypeOf dtype) = dtype := by
  simp only [carriedTypes, List.mem_cons, List.not_mem_nil, or_false] at h
  rcases h with rfl | rfl | rfl | rfl <;> rfl

/-- A type of positive width that comes back is one of the four. -/
theorem mem_carriedTypes {dtype : DLDataType} (hpos : 0 < dtype.bits) {p : DataType}
    (h : dtypeOf p = dtype) : dtype ∈ carriedTypes := by
  subst h
  cases p <;> simp_all [dtypeOf, carriedTypes]

namespace ManagedTensor

variable (t : ManagedTensor)

/-- The bytes of a tensor with nothing in front and a type of the tables. -/
theorem length_of_carried (hdtype : t.dtype ∈ carriedTypes) (hstrides : t.strides = none)
    (hoffset : t.byteOffset = 0) : (t.data.length : Int) = t.shape.prod * t.dtype.bits / 8 := by
  have hlen := t.data_length hstrides
  rw [hoffset] at hlen
  simp only [carriedTypes, List.mem_cons, List.not_mem_nil, or_false] at hdtype
  unfold DLTensor.dataSize at hlen
  rcases hdtype with h | h | h | h <;> rw [h] at hlen ⊢ <;> simp at hlen ⊢ <;> omega

/-- A tensor arrives as it was sent exactly if it is compact, on the CPU, of a
type that both tables have, and small enough for `int`. -/
theorem sendTensor_iff : sendTensor t.toDLTensor = some t.toDLTensor ↔ Sendable t.toDLTensor := by
  have hprod := List.prod_nonneg t.shape_nonneg
  constructor
  · intro h
    obtain ⟨p, hsend, hreceive⟩ := Option.bind_eq_some_iff.mp h
    obtain ⟨sent, hread, rfl⟩ := Option.map_eq_some_iff.mp hsend
    obtain ⟨data, hread', hsame⟩ := Option.map_eq_some_iff.mp hreceive
    simp only at hread' hsame
    have hshape : t.shape.map int32 = t.shape := congrArg DLTensor.shape hsame
    have hdtype : dtypeOf (dataTypeOf t.dtype) = t.dtype := congrArg DLTensor.dtype hsame
    have hdata : data = t.data := congrArg DLTensor.data hsame
    have hstrides : none = t.strides := congrArg DLTensor.strides hsame
    have hoffset : 0 = t.byteOffset := congrArg DLTensor.byteOffset hsame
    have hdevice : DLDevice.cpu = t.device := congrArg DLTensor.device hsame
    have hcarried := mem_carriedTypes t.bits_pos hdtype
    refine ⟨hdevice.symm, hcarried, hstrides.symm, hoffset.symm, ?_, ?_⟩
    · intro d hd
      have hmem : d ∈ t.shape.map int32 := by rwa [hshape]
      obtain ⟨d', _, rfl⟩ := List.mem_map.mp hmem
      exact int32_lt d'
    · by_contra hbig
      have hlt := dataSizeOf_lt (Int.not_lt.mp hbig)
      have hlen := readBytes_length hread'
      rw [hdata, hshape, hdtype, t.length_of_carried hcarried hstrides.symm hoffset.symm] at hlen
      omega
  · intro h
    have hshape : t.shape.map int32 = t.shape := by
      conv_rhs => rw [← List.map_id t.shape]
      apply List.map_congr_left
      intro d hd
      have hnonneg := t.shape_nonneg d hd
      exact int32_eq_self (by omega) (h.dims d hd)
    have hsize : dataSizeOf t.shape t.dtype.bits = t.data.length := by
      rw [dataSizeOf_eq hprod h.size, t.length_of_carried h.dtype h.strides h.byteOffset]
    have hdtype := dtypeOf_dataTypeOf h.dtype
    unfold sendTensor toTensorProtoFromDlTensor toDlTensor
    simp only [hshape, hsize, readBytes_all, Option.map_some, Option.bind_some, hdtype]
    rw [← h.device, ← h.strides, ← h.byteOffset]

end ManagedTensor

end DashInfer.Service
