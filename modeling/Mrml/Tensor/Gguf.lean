import Mrml.Common.Asking
import Mrml.Common.Bytes
import Mrml.Common.Text
import Mrml.Runtime.OrderedMap

/-!
# The header of a GGUF file

Model of `crates/mrml-tensor/src/gguf.rs` (lines 5–300) and of the sizes in `types.rs` (lines
8–80 and 178–180). `GgufFile::open` reads the metadata and the tensor table, and from them the
offset of the tensor data. It allocates as much as the file declares, it recurses into nested
arrays, it multiplies dimensions with the plain operator and it takes the remainder by an
alignment that is a metadata value. All of these are requests that the machine can deny: an
allocation that fails is a panic, as are a division by zero and, in a debug build, a product that
does not fit. A release build wraps the product around.

Results:
* `GgufFile.open_debug`: a file that a debug build opens has the right offset and sizes.
* `GgufFile.correct_iff_granted`: in both builds the file is refused with an error or has the right
  offset and sizes if and only if the machine grants all requests.
-/

namespace Mrml.Tensor

open Asking Mrml.Runtime

/-! ## Types and shapes -/

/-- `DType` (types.rs, lines 7–27). -/
inductive DType
  | f32 | f16 | q4_0 | q4_1 | q5_0 | q5_1 | q8_0 | q8_1 | q4_K | q5_K | q6_K | i8 | i16 | i32 | i64
  | f64 | iq4_NL | iq4_XS | bf16
deriving DecidableEq

namespace DType

/-- `block_size` (lines 31–46). -/
def blockSize : DType → ℕ
  | f32 | f16 | bf16 | f64 => 1
  | i8 | i16 | i32 | i64 => 1
  | q4_0 | q4_1 | q5_0 | q5_1 | q8_0 | q8_1 | iq4_NL => 32
  | q4_K | q5_K | q6_K | iq4_XS => 256

/-- `type_size` (lines 48–71). -/
def typeSize : DType → ℕ
  | f32 => 4
  | f16 | bf16 => 2
  | f64 => 8
  | i8 => 1
  | i16 => 2
  | i32 => 4
  | i64 => 8
  | q4_0 => 18
  | q4_1 => 20
  | q5_0 => 22
  | q5_1 => 24
  | q8_0 => 34
  | q8_1 => 36
  | q4_K => 144
  | q5_K => 176
  | q6_K => 210
  | iq4_NL => 18
  | iq4_XS => 136

end DType

/-- `Shape`. -/
structure Shape where
  dims : Vector ℕ 4
  n_dims : ℕ

/-- The number of elements. -/
def Shape.count (shape : Shape) : ℕ :=
  shape.dims[0] * shape.dims[1] * shape.dims[2] * shape.dims[3]

/-- No product on the way to the number of elements overflows. -/
def Shape.Fits (shape : Shape) : Prop :=
  shape.dims[0] * shape.dims[1] < 2 ^ 64 ∧
    shape.dims[0] * shape.dims[1] * shape.dims[2] < 2 ^ 64 ∧ shape.count < 2 ^ 64
deriving Decidable

/-- `GgufValue`. A float is its bits. -/
inductive GgufValue
  | uint8 (v : ℕ)
  | int8 (v : ℤ)
  | uint16 (v : ℕ)
  | int16 (v : ℤ)
  | uint32 (v : ℕ)
  | int32 (v : ℤ)
  | float32 (bits : ℕ)
  | bool (v : Bool)
  | string (s : Text)
  | array (items : List GgufValue)
  | uint64 (v : ℕ)
  | int64 (v : ℤ)
  | float64 (bits : ℕ)

/-- `as_u32` (lines 26–36), with its narrowing casts. -/
def GgufValue.asU32 : GgufValue → Option ℕ
  | uint32 v => some v
  | int32 v => if 0 ≤ v then some (v.toNat % 2 ^ 32) else none
  | uint64 v => some (v % 2 ^ 32)
  | int64 v => if 0 ≤ v then some (v.toNat % 2 ^ 32) else none
  | uint16 v => some v
  | uint8 v => some v
  | _ => none

/-- `GgufTensorInfo`. -/
structure GgufTensorInfo where
  name : Text
  shape : Shape
  dtype : DType
  offset : ℕ
  size_bytes : ℕ

/-- The element count and the size in bytes are computed without an overflow. -/
structure GgufTensorInfo.Exact (tensor : GgufTensorInfo) : Prop where
  count_fits : tensor.shape.Fits
  size_eq : tensor.size_bytes =
    tensor.shape.count / tensor.dtype.blockSize * tensor.dtype.typeSize
  size_lt : tensor.size_bytes < 2 ^ 64

/-- `GgufFile`. -/
structure GgufFile where
  version : ℕ
  metadata : List (Text × GgufValue)
  tensors : List (Text × GgufTensorInfo)
  data_offset : ℕ
  path : Text

/-- `metadata.get("general.alignment").and_then(|v| v.as_u32()).unwrap_or(32)`. -/
def effectiveAlignment (metadata : List (Text × GgufValue)) : ℕ :=
  ((OrderedMap.get "general.alignment".toList metadata).bind GgufValue.asU32).getD 32

/-! ## The machine -/

/-- What is allocated. -/
inductive Purpose
  | bytes | text | values | metadata | tensors
deriving DecidableEq

/-- What the reader asks of its machine: room for `n` items, another level of `read_gguf_value` on
    the stack, the result of an operator on `u64`, a remainder by `n`. -/
inductive Request
  | capacity (purpose : Purpose) (n : ℕ)
  | level
  | word (n : ℕ)
  | divisor (n : ℕ)
deriving DecidableEq

/-- The allocations that succeed, and how many calls of `read_gguf_value` fit on the stack. -/
structure Machine where
  allocates : Purpose → ℕ → Bool
  levels : ℕ

/-- The answer that the code counts on. -/
def Request.exact : Request → ℕ
  | capacity _ n => n
  | level => 0
  | word n => n
  | divisor n => n

/-- The request goes through. -/
def Machine.Grants (machine : Machine) : Request → Prop
  | .capacity purpose n => machine.allocates purpose n
  | .level => False
  | .word n => n < 2 ^ 64
  | .divisor n => n ≠ 0

/-- What a build makes of a request. -/
def Machine.answer (machine : Machine) (build : Build) : Request → Option ℕ
  | .capacity purpose n => if machine.allocates purpose n then some n else none
  | .level => none
  | .word n =>
    if n < 2 ^ 64 then some n
    else match build with
      | .debug => none
      | .release => some (n % 2 ^ 64)
  | .divisor n => if n = 0 then none else some n

/-! ## Reading -/

/-- The errors of this file. -/
inductive GgufError
  | unexpectedEnd
  | invalidMagic (magic : ℕ)
  | unsupportedVersion (version : ℕ)
  | notUtf8
  | unknownValueType (type : ℕ)
  | unsupportedDtype (id : ℕ)
deriving DecidableEq

/-- An open file: what is left of it, and `position()`. -/
structure Cursor where
  rest : List UInt8
  position : ℕ

abbrev Reading (α : Type) : Type := StateT Cursor (Asking GgufError Request ℕ) α

/-- `read_exact` (file.rs, lines 425–435), whose position saturates. -/
def readExact (n : ℕ) : Reading (List UInt8) := fun cursor =>
  if n ≤ cursor.rest.length then
    .ret (cursor.rest.take n, ⟨cursor.rest.drop n, min (cursor.position + n) (2 ^ 64 - 1)⟩)
  else .fail .unexpectedEnd

/-- The `read_*_le` of the unsigned types of `n` bytes. -/
def readUnsigned (n : ℕ) : Reading ℕ := do
  return leNat (← readExact n)

/-- The `read_*_le` of the signed types of `n` bytes. -/
def readSigned (n : ℕ) : Reading ℤ := do
  let v ← readUnsigned n
  return if v < 2 ^ (8 * n - 1) then (v : ℤ) else (v : ℤ) - 2 ^ (8 * n)

/-- `read_u32_le`. -/
def readU32 : Reading ℕ := readUnsigned 4

/-- `read_u64_le`. -/
def readU64 : Reading ℕ := readUnsigned 8

/-- `text.into()` and `clone()`, which copy the bytes. -/
def copyText (text : Text) : Reading Text := do
  let _ ← demand (.capacity .text text.asBytes.length)
  return text

/-- `read_gguf_string` (lines 203–211). -/
def readGgufString : Reading Text := do
  let len ← readU64
  let _ ← demand (.capacity .bytes len)
  let buf ← readExact len
  match Text.fromUtf8 buf with
  | none => refuse .notUtf8
  | some value => copyText value

/-- `read_gguf_value` (lines 213–240), called with `levels` levels left on the stack. -/
def readGgufValue : ℕ → ℕ → Reading GgufValue
  | 0, _ => do
    let _ ← demand .level
    refuse .unexpectedEnd
  | levels + 1, valType =>
    match valType with
    | 0 => return .uint8 (← readUnsigned 1)
    | 1 => return .int8 (← readSigned 1)
    | 2 => return .uint16 (← readUnsigned 2)
    | 3 => return .int16 (← readSigned 2)
    | 4 => return .uint32 (← readU32)
    | 5 => return .int32 (← readSigned 4)
    | 6 => return .float32 (← readU32)
    | 7 => return .bool ((← readUnsigned 1) != 0)
    | 8 => return .string (← readGgufString)
    | 9 => do
      let itemType ← readU32
      let len ← readU64
      let _ ← demand (.capacity .values len)
      let arr ← iterate (fun arr => return arr ++ [← readGgufValue levels itemType]) len []
      return .array arr
    | 10 => return .uint64 (← readU64)
    | 11 => return .int64 (← readSigned 8)
    | 12 => return .float64 (← readU64)
    | _ => refuse (.unknownValueType valType)

/-- The types that a tensor can have (lines 119–131). -/
def dtypeOfId : ℕ → Option DType
  | 0 => some .f32
  | 1 => some .f16
  | 2 => some .q4_0
  | 3 => some .q4_1
  | 8 => some .q8_0
  | 12 => some .q4_K
  | 13 => some .q5_K
  | 14 => some .q6_K
  | 16 => some .iq4_XS
  | 30 => some .bf16
  | _ => none

/-- `numel` (types.rs, lines 178–180). -/
def Shape.numel (shape : Shape) : Reading ℕ := do
  let plane ← demand (.word (shape.dims[0] * shape.dims[1]))
  let cube ← demand (.word (plane * shape.dims[2]))
  demand (.word (cube * shape.dims[3]))

/-- The body of the loop over the metadata (lines 97–101). -/
def readMetadata (levels : ℕ) (metadata : List (Text × GgufValue)) :
    Reading (List (Text × GgufValue)) := do
  let key ← readGgufString
  let valType ← readU32
  let value ← readGgufValue levels valType
  return OrderedMap.insert key value metadata

/-- The body of the loop over the tensors (lines 105–153). -/
def readTensor (tensors : List (Text × GgufTensorInfo)) :
    Reading (List (Text × GgufTensorInfo)) := do
  let name ← readGgufString
  let n_dims ← readU32
  let read ← iterate (fun dims => return dims ++ [← readU64]) (min n_dims 4) []
  -- Skip any extra dimensions
  iterate (fun () => do let _ ← readU64) (n_dims - 4) ()
  let typeId ← readU32
  match dtypeOfId typeId with
  | none => refuse (.unsupportedDtype typeId)
  | some dtype =>
    let offset ← readU64
    let shape : Shape := ⟨Vector.ofFn fun i => read.getD i 1, min n_dims 4⟩
    let numel ← shape.numel
    let size_bytes ← demand (.word (numel / dtype.blockSize * dtype.typeSize))
    let copied ← copyText name
    return OrderedMap.insert copied ⟨name, shape, dtype, offset, size_bytes⟩ tensors

/-- `n % m`. -/
def remainder (n m : ℕ) : Reading ℕ := do
  let m ← demand (.divisor m)
  return n % m

/-- `position()`. -/
def filePosition : Reading ℕ := fun cursor => .ret (cursor.position, cursor)

/-- The offset of the tensor data (lines 160–165). -/
def dataOffset (alignment : ℕ) : Reading ℕ := do
  let cur_pos ← filePosition
  if (← remainder cur_pos alignment) = 0 then return cur_pos
  else demand (.word (cur_pos + (alignment - (← remainder cur_pos alignment))))

/-- What `GgufFile::open` reads of the file. -/
structure Header where
  version : ℕ
  metadata : List (Text × GgufValue)
  tensors : List (Text × GgufTensorInfo)

/-- `GgufFile::open` up to the last tensor (lines 82–153). -/
def readHeader (levels : ℕ) : Reading Header := do
  let magic ← readU32
  refuseWhen (magic ≠ 0x46554747) (.invalidMagic magic)
  let version ← readU32
  refuseWhen (version < 2 ∨ 3 < version) (.unsupportedVersion version)
  let tensor_count ← readU64
  let kv_count ← readU64
  let _ ← demand (.capacity .metadata kv_count)
  let metadata ← iterate (readMetadata levels) kv_count []
  let _ ← demand (.capacity .tensors tensor_count)
  let tensors ← iterate readTensor tensor_count []
  return ⟨version, metadata, tensors⟩

/-- `GgufFile::open` (lines 78–174). -/
def GgufFile.read (levels : ℕ) (path : Text) : Reading GgufFile := do
  let stored_path ← copyText path
  let header ← readHeader levels
  let data_offset ← dataOffset (effectiveAlignment header.metadata)
  return ⟨header.version, header.metadata, header.tensors, data_offset, stored_path⟩

/-- The bytes of a file. Positions in a file are `u64`. -/
structure Stream where
  bytes : List UInt8
  length_lt : bytes.length < 2 ^ 64

/-- `GgufFile::open` of a file with these bytes. -/
def GgufFile.open (machine : Machine) (build : Build) (path : Text) (stream : Stream) :
    Except (Stop GgufError Request) (GgufFile × Cursor) :=
  (GgufFile.read machine.levels path ⟨stream.bytes, 0⟩).run (machine.answer build)

/-- What the reader asks for while it reads the file: the texts that it copies, each declared
    length and count, each level of nesting, each product of dimensions, each tensor size, the
    effective alignment and the padded offset. -/
def GgufFile.requests (machine : Machine) (path : Text) (stream : Stream) : List Request :=
  (GgufFile.read machine.levels path ⟨stream.bytes, 0⟩).requests Request.exact

/-- An error, or a file whose data begins at the first multiple of the alignment after the header,
    with exact tensor sizes. -/
def GgufFile.Correct (stream : Stream) : Except (Stop GgufError Request) (GgufFile × Cursor) → Prop
  | .ok (file, cursor) =>
    IsLeast {offset | stream.bytes.length - cursor.rest.length ≤ offset ∧
      effectiveAlignment file.metadata ∣ offset} file.data_offset ∧
    ∀ entry ∈ file.tensors, entry.2.Exact
  | .error (.error _) => True
  | .error (.refused _) => False

/-! ## The machine and the requests -/

section Grants

variable {machine : Machine} {request : Request}

theorem Machine.answer_of_grants (h : machine.Grants request) (build : Build) :
    machine.answer build request = some request.exact := by
  cases request with
  | capacity purpose n => exact if_pos h
  | level => exact absurd h id
  | word n => exact if_pos h
  | divisor n => exact if_neg h

theorem Machine.answer_debug_eq_none :
    machine.answer .debug request = none ↔ ¬machine.Grants request := by
  cases request with
  | capacity purpose n => simp [answer, Grants]
  | level => simp [answer, Grants]
  | word n => simp [answer, Grants]
  | divisor n => simp [answer, Grants]

theorem Machine.grants_of_answer_debug {value : ℕ}
    (h : machine.answer .debug request = some value) :
    machine.Grants request ∧ value = request.exact := by
  have hgrants : machine.Grants request := by
    by_contra hnot
    rw [answer_debug_eq_none.mpr hnot] at h
    cases h
  rw [answer_of_grants hgrants] at h
  exact ⟨hgrants, (Option.some.inj h).symm⟩

end Grants

/-! ## Steps of the reader -/

/-- The position tells how much of the file is read. -/
def Cursor.Within (stream : Stream) (cursor : Cursor) : Prop :=
  cursor.position + cursor.rest.length = stream.bytes.length

section Reads

variable {stream : Stream} {answer : Request → Option ℕ}

theorem readExact_yields (n : ℕ) :
    Yields answer (Cursor.Within stream) (readExact n) fun _ => True := by
  intro cursor hcursor bytes cursor' hrun
  rw [readExact] at hrun
  split_ifs at hrun with hle
  · obtain ⟨-, rfl⟩ := Prod.mk.inj (Except.ok.inj hrun)
    have hlt := stream.length_lt
    have hwithin : cursor.position + cursor.rest.length = stream.bytes.length := hcursor
    refine ⟨trivial, ?_⟩
    show min (cursor.position + n) (2 ^ 64 - 1) + (cursor.rest.drop n).length =
      stream.bytes.length
    rw [List.length_drop]
    omega
  · cases hrun

theorem demand_yields (request : Request) :
    Yields answer (Cursor.Within stream) (demand request : Reading ℕ) fun _ => True :=
  Yields.demand fun _ _ => trivial

theorem readUnsigned_yields (n : ℕ) :
    Yields answer (Cursor.Within stream) (readUnsigned n) fun _ => True :=
  (readExact_yields n).bind fun _ _ => Yields.pure trivial

theorem readSigned_yields (n : ℕ) :
    Yields answer (Cursor.Within stream) (readSigned n) fun _ => True :=
  (readUnsigned_yields n).bind fun _ _ => Yields.pure trivial

theorem copyText_yields (text : Text) :
    Yields answer (Cursor.Within stream) (copyText text) fun _ => True :=
  (demand_yields _).bind fun _ _ => Yields.pure trivial

theorem readGgufString_yields :
    Yields answer (Cursor.Within stream) readGgufString fun _ => True := by
  refine (readUnsigned_yields 8).bind fun len _ => (demand_yields _).bind fun _ _ =>
    (readExact_yields len).bind fun buf _ => ?_
  cases Text.fromUtf8 buf with
  | none => exact Yields.refuse _
  | some value => exact copyText_yields value

/-- A value of any type leaves the position right, by induction on the levels of nesting. -/
theorem readGgufValue_yields (levels valType : ℕ) :
    Yields answer (Cursor.Within stream) (readGgufValue levels valType) fun _ => True := by
  induction levels generalizing valType with
  | zero => exact (demand_yields _).bind fun _ _ => Yields.refuse _
  | succ levels ih =>
    unfold readGgufValue
    split
    · exact (readUnsigned_yields 1).bind fun _ _ => Yields.pure trivial
    · exact (readSigned_yields 1).bind fun _ _ => Yields.pure trivial
    · exact (readUnsigned_yields 2).bind fun _ _ => Yields.pure trivial
    · exact (readSigned_yields 2).bind fun _ _ => Yields.pure trivial
    · exact (readUnsigned_yields 4).bind fun _ _ => Yields.pure trivial
    · exact (readSigned_yields 4).bind fun _ _ => Yields.pure trivial
    · exact (readUnsigned_yields 4).bind fun _ _ => Yields.pure trivial
    · exact (readUnsigned_yields 1).bind fun _ _ => Yields.pure trivial
    · exact readGgufString_yields.bind fun _ _ => Yields.pure trivial
    · refine (readUnsigned_yields 4).bind fun itemType _ => (readUnsigned_yields 8).bind
        fun len _ => (demand_yields _).bind fun _ _ => ?_
      refine (Yields.iterate (Q := fun _ => True) (fun arr _ => ?_) len trivial).bind
        fun _ _ => Yields.pure trivial
      exact (ih itemType).bind fun _ _ => Yields.pure trivial
    · exact (readUnsigned_yields 8).bind fun _ _ => Yields.pure trivial
    · exact (readSigned_yields 8).bind fun _ _ => Yields.pure trivial
    · exact (readUnsigned_yields 8).bind fun _ _ => Yields.pure trivial
    · exact Yields.refuse _

theorem readMetadata_yields (levels : ℕ) (metadata : List (Text × GgufValue)) :
    Yields answer (Cursor.Within stream) (readMetadata levels metadata) fun _ => True :=
  readGgufString_yields.bind fun _ _ => (readUnsigned_yields 4).bind fun valType _ =>
    (readGgufValue_yields levels valType).bind fun _ _ => Yields.pure trivial

end Reads

/-! ## Tensor sizes in a debug build -/

section Debug

variable {machine : Machine} {stream : Stream}

/-- A plain operator on `u64`. -/
theorem word_yields (n : ℕ) : Yields (machine.answer .debug) (Cursor.Within stream)
    (demand (.word n) : Reading ℕ) fun value => value = n ∧ n < 2 ^ 64 :=
  Yields.demand fun _ hanswer =>
    have hgrants := Machine.grants_of_answer_debug hanswer
    ⟨hgrants.2, hgrants.1⟩

theorem numel_yields (shape : Shape) : Yields (machine.answer .debug) (Cursor.Within stream)
    shape.numel fun numel => numel = shape.count ∧ shape.Fits := by
  refine (word_yields _).bind fun plane hplane => (word_yields _).bind fun cube hcube => ?_
  obtain ⟨rfl, hplane⟩ := hplane
  obtain ⟨rfl, hcube⟩ := hcube
  exact (word_yields _).imp fun numel hnumel => ⟨hnumel.1, hplane, hcube, hnumel.2⟩

/-- **Step lemma.** Each pass adds a tensor with exact sizes. -/
theorem readTensor_yields {tensors : List (Text × GgufTensorInfo)}
    (h : ∀ entry ∈ tensors, entry.2.Exact) :
    Yields (machine.answer .debug) (Cursor.Within stream) (readTensor tensors)
      fun tensors => ∀ entry ∈ tensors, entry.2.Exact := by
  refine readGgufString_yields.bind fun name _ => (readUnsigned_yields 4).bind fun n_dims _ => ?_
  refine (Yields.iterate (Q := fun _ => True) (fun dims _ => ?_) _ trivial).bind fun read _ => ?_
  · exact (readUnsigned_yields 8).bind fun _ _ => Yields.pure trivial
  refine (Yields.iterate (Q := fun _ => True) (fun _ _ => ?_) _ trivial).bind fun _ _ => ?_
  · exact (readUnsigned_yields 8).bind fun _ _ => Yields.pure trivial
  refine (readUnsigned_yields 4).bind fun typeId _ => ?_
  cases dtypeOfId typeId with
  | none => exact Yields.refuse _
  | some dtype =>
    refine (readUnsigned_yields 8).bind fun offset _ => (numel_yields _).bind fun numel hnumel =>
      (word_yields _).bind fun size_bytes hsize => (copyText_yields name).bind fun copied _ => ?_
    obtain ⟨rfl, hfits⟩ := hnumel
    obtain ⟨rfl, hsize⟩ := hsize
    refine Yields.pure fun entry hentry => ?_
    obtain heq | ⟨other, hother, heq⟩ := OrderedMap.value_of_mem_insert hentry
    · rw [heq]
      exact ⟨hfits, rfl, hsize⟩
    · rw [← heq]
      exact h other hother

theorem readHeader_yields (levels : ℕ) :
    Yields (machine.answer .debug) (Cursor.Within stream) (readHeader levels)
      fun header => ∀ entry ∈ header.tensors, entry.2.Exact := by
  refine (readUnsigned_yields 4).bind fun magic _ => (Yields.refuseWhen _ _).bind fun _ _ =>
    (readUnsigned_yields 4).bind fun version _ => (Yields.refuseWhen _ _).bind fun _ _ =>
      (readUnsigned_yields 8).bind fun tensor_count _ =>
        (readUnsigned_yields 8).bind fun kv_count _ => (demand_yields _).bind fun _ _ => ?_
  refine (Yields.iterate (Q := fun _ => True) (fun metadata _ => readMetadata_yields levels metadata)
    kv_count trivial).bind fun metadata _ => (demand_yields _).bind fun _ _ => ?_
  exact (Yields.iterate (fun _ h => readTensor_yields h) tensor_count (List.forall_mem_nil _)).bind
    fun tensors htensors => Yields.pure htensors

/-- A position between two multiples is padded to the second one. -/
theorem isLeast_padded {position alignment : ℕ} (h0 : alignment ≠ 0)
    (h : position % alignment ≠ 0) :
    IsLeast {offset | position ≤ offset ∧ alignment ∣ offset}
      (position + (alignment - position % alignment)) := by
  have hlt := Nat.mod_lt position (Nat.pos_of_ne_zero h0)
  have hdiv := Nat.div_add_mod position alignment
  have hnext : position + (alignment - position % alignment) =
      alignment * (position / alignment + 1) := by
    rw [mul_add, mul_one]
    omega
  refine ⟨⟨Nat.le_add_right _ _, hnext ▸ Nat.dvd_mul_right _ _⟩, ?_⟩
  rintro offset ⟨hle, k, rfl⟩
  have hquotient : position / alignment < k := by
    by_contra hnot
    have := Nat.mul_le_mul_left alignment (not_lt.mp hnot)
    omega
  rw [hnext]
  exact Nat.mul_le_mul_left alignment hquotient

/-- The reader does not move for the offset of the data. -/
theorem dataOffset_yields (alignment : ℕ) (cursor : Cursor) :
    Yields (machine.answer .debug) (fun s => s = cursor) (dataOffset alignment)
      fun offset => IsLeast {offset | cursor.position ≤ offset ∧ alignment ∣ offset} offset := by
  have hremainder : Yields (machine.answer .debug) (fun s => s = cursor)
      (remainder cursor.position alignment)
      fun rem => alignment ≠ 0 ∧ rem = cursor.position % alignment := by
    refine (Yields.demand fun m hanswer => Machine.grants_of_answer_debug hanswer).bind
      fun m hm => ?_
    obtain ⟨hne, rfl⟩ := hm
    exact Yields.pure ⟨hne, rfl⟩
  have hposition : Yields (machine.answer .debug) (fun s => s = cursor) filePosition
      fun position => position = cursor.position := by
    rintro s rfl position s' hrun
    obtain ⟨rfl, rfl⟩ := Prod.mk.inj (Except.ok.inj hrun)
    exact ⟨rfl, rfl⟩
  refine hposition.bind fun position hposition => ?_
  subst hposition
  refine hremainder.bind fun rem hrem => ?_
  obtain ⟨hne, rfl⟩ := hrem
  split_ifs with haligned
  · exact Yields.pure ⟨⟨le_rfl, Nat.dvd_of_mod_eq_zero haligned⟩, fun offset h => h.1⟩
  · refine hremainder.bind fun rem hrem => ?_
    obtain ⟨-, rfl⟩ := hrem
    refine Yields.demand fun offset hanswer => ?_
    obtain ⟨-, rfl⟩ := Machine.grants_of_answer_debug hanswer
    exact isLeast_padded hne haligned

/-- **Run lemma.** A file that a debug build opens is right. -/
theorem GgufFile.open_debug {path : Text} {file : GgufFile} {cursor : Cursor}
    (h : GgufFile.open machine .debug path stream = .ok (file, cursor)) :
    GgufFile.Correct stream (.ok (file, cursor)) := by
  have hstart : Cursor.Within stream ⟨stream.bytes, 0⟩ := Nat.zero_add _
  obtain ⟨stored_path, s₁, hpath, h⟩ := run_bind_eq_ok.mp h
  obtain ⟨header, s₂, hheader, h⟩ := run_bind_eq_ok.mp h
  obtain ⟨data_offset, s₃, hoffset, h⟩ := run_bind_eq_ok.mp h
  obtain ⟨rfl, rfl⟩ := Prod.mk.inj (Except.ok.inj h)
  have hs₁ := (copyText_yields path _ hstart _ _ hpath).2
  obtain ⟨htensors, hs₂⟩ := readHeader_yields machine.levels _ hs₁ _ _ hheader
  obtain ⟨hleast, rfl⟩ := dataOffset_yields _ s₂ _ rfl _ _ hoffset
  have hend : stream.bytes.length - s₃.rest.length = s₃.position := by
    have hwithin : s₃.position + s₃.rest.length = stream.bytes.length := hs₂
    omega
  refine ⟨?_, htensors⟩
  rw [hend]
  exact hleast

end Debug

/-- Both builds open the file correctly or return an error if and only if the machine grants
    everything that the reader asks for. -/
theorem GgufFile.correct_iff_granted (machine : Machine) (path : Text) (stream : Stream) :
    (∀ build, GgufFile.Correct stream (GgufFile.open machine build path stream)) ↔
      ∀ request ∈ GgufFile.requests machine path stream, machine.Grants request := by
  have hrefused : (∃ request, GgufFile.open machine .debug path stream =
      .error (.refused request)) ↔
      ∃ request ∈ GgufFile.requests machine path stream,
        machine.answer .debug request = none :=
    exists_refused_iff fun _ _ hanswer => (Machine.grants_of_answer_debug hanswer).2
  constructor
  · intro h request hmem
    by_contra hnot
    obtain ⟨stopped, hstopped⟩ := hrefused.mpr
      ⟨request, hmem, Machine.answer_debug_eq_none.mpr hnot⟩
    have hcorrect := h .debug
    rw [hstopped] at hcorrect
    exact hcorrect
  · intro h build
    -- with every request granted, the builds do not differ
    have hsame : GgufFile.open machine build path stream =
        GgufFile.open machine .debug path stream :=
      run_congr (fun request hmem => Machine.answer_of_grants (h request hmem) build)
        fun request hmem => Machine.answer_of_grants (h request hmem) .debug
    rw [hsame]
    cases hopen : GgufFile.open machine .debug path stream with
    | ok result => exact GgufFile.open_debug hopen
    | error stop =>
      cases stop with
      | error e => exact trivial
      | refused request =>
        obtain ⟨denied, hmem, hdenied⟩ := hrefused.mp ⟨request, hopen⟩
        exact absurd (h denied hmem) (Machine.answer_debug_eq_none.mp hdenied)

/-- A machine with the memory for all that a file of a few dozen bytes may contain. -/
def smallMachine : Machine := ⟨fun _ n => n < 100, 10⟩

/-- No tensors, and the one metadata entry `general.alignment = 0` of type `u32`. -/
def zeroAlignment : Stream where
  bytes := leBytes 4 0x46554747 ++ leBytes 4 3 ++ leBytes 8 0 ++ leBytes 8 1 ++
    leBytes 8 17 ++ [103, 101, 110, 101, 114, 97, 108, 46, 97, 108, 105, 103, 110, 109, 101, 110,
      116] ++ leBytes 4 4 ++ leBytes 4 0
  length_lt := by decide

/-- The file that declares the alignment 0 is neither refused with an error nor opened: its
    position is divided by zero. -/
theorem GgufFile.open_not_correct :
    ¬∀ (machine : Machine) (build : Build) (path : Text) (stream : Stream),
      GgufFile.Correct stream (GgufFile.open machine build path stream) := by
  intro h
  have hstop : GgufFile.open smallMachine .release [] zeroAlignment =
      .error (.refused (.divisor 0)) := by
    rfl
  have hcorrect := h smallMachine .release [] zeroAlignment
  rw [hstop] at hcorrect
  exact hcorrect

end Mrml.Tensor
