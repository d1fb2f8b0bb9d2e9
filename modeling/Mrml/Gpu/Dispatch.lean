import Mrml.Common.Checked
import Mrml.Common.Wire
import Mrml.Gpu.Session

/-!
# Dispatches and their wire format

Model of `Dispatch`, its constructor and its canonical encoding
(`crates/mrml-kernel/src/virtual_gpu.rs`, lines 1969–1985, 2051–2144, 2761–2827 and
3891–4031). The tables of accesses and scalars, arrays of sixteen with a count in the
source, are lists.

Results:
* `Dispatch.write_eq`: the writes of `encode` fill in the fields of the format.
* `Dispatch.decode_wire`, `Dispatch.wire_of_decode`: the two round trips.
-/

namespace Mrml.Gpu

/-- `MAX_DISPATCH_BUFFERS` (line 8). -/
def maxDispatchBuffers : ℕ := 16

/-- `MAX_DISPATCH_SCALARS` (line 9). -/
def maxDispatchScalars : ℕ := 16

/-- `MAX_BLOCK_THREADS` (line 13). -/
def maxBlockThreads : UInt64 := 1024

/-- `MAX_SHARED_MEMORY` (line 14). -/
def maxSharedMemory : UInt32 := 96 * 1024

/-- `KernelId` (lines 1970–1985). -/
structure KernelId where
  id : UInt8
  id_lt : id < 28
deriving DecidableEq

/-- `KernelId::new` (lines 1976–1981). -/
def KernelId.new (id : UInt8) : Except GpuError KernelId :=
  if h : id ≥ 28 then .error .invalidKernel else .ok ⟨id, UInt8.not_le.mp h⟩

theorem KernelId.new_self (kernel : KernelId) : KernelId.new kernel.id = .ok kernel := by
  rw [KernelId.new, dif_neg (UInt8.not_le.mpr kernel.id_lt)]

theorem KernelId.id_of_new {id : UInt8} {kernel : KernelId} (h : KernelId.new id = .ok kernel) :
    kernel.id = id := by
  unfold KernelId.new at h
  split_ifs at h
  obtain rfl := Except.ok.inj h
  rfl

/-- `ScalarKind` (lines 2058–2062). -/
inductive ScalarKind
  | u32
  | i32
  | f32
deriving DecidableEq

/-- `ScalarArg` (lines 2067–2070). -/
structure ScalarArg where
  kind : ScalarKind
  bits : UInt32
deriving DecidableEq

/-- `[u32; 3]`, a grid or a block. -/
structure Dim3 where
  x : UInt32
  y : UInt32
  z : UInt32
deriving DecidableEq

/-- `dim.contains(&0)`. -/
def Dim3.hasZero (dim : Dim3) : Prop := dim.x = 0 ∨ dim.y = 0 ∨ dim.z = 0

instance (dim : Dim3) : Decidable dim.hasZero := inferInstanceAs (Decidable (_ ∨ _ ∨ _))

/-- The number of threads of a block (lines 2785–2788). -/
def Dim3.threads (block : Dim3) : Option UInt64 :=
  (checkedMul64 block.x.toUInt64 block.y.toUInt64).bind fun value =>
    checkedMul64 value block.z.toUInt64

/-- The checks of `new_with_scalars` (lines 2782–2801). -/
def checkLaunch (grid block : Dim3) (sharedMemory : UInt32) (accesses scalars : ℕ) :
    Except GpuError Unit := do
  refuseIf (grid.hasZero ∨ block.hasZero) .invalidGrid
  let threads ← okOr block.threads .invalidGrid
  refuseIf (threads > maxBlockThreads) .invalidGrid
  refuseIf (sharedMemory > maxSharedMemory) .excessiveSharedMemory
  refuseIf (accesses > maxDispatchBuffers) .tooManyBuffers
  refuseIf (scalars > maxDispatchScalars) .tooManyScalars

/-- `Dispatch` (lines 2135–2144), with the checks of its constructor. -/
structure Dispatch where
  kernel : KernelId
  grid : Dim3
  block : Dim3
  sharedMemory : UInt32
  accesses : List BufferAccess
  scalars : List ScalarArg
  checked : checkLaunch grid block sharedMemory accesses.length scalars.length = .ok ()
deriving DecidableEq

/-- `VirtualGpuSession::validate_dispatch` (lines 1931–1936). -/
def VirtualGpuSession.validateDispatch {BUFFERS : ℕ} (s : VirtualGpuSession BUFFERS)
    (dispatch : Dispatch) : Except GpuError Unit :=
  dispatch.accesses.forM s.validateAccess

namespace Dispatch

/-- `Dispatch::new_with_scalars` (lines 2775–2826). -/
def newWithScalars (kernel : KernelId) (grid block : Dim3) (sharedMemory : UInt32)
    (accesses : List BufferAccess) (scalars : List ScalarArg) : Except GpuError Dispatch :=
  match h : checkLaunch grid block sharedMemory accesses.length scalars.length with
  | .error error => .error error
  | .ok () => .ok ⟨kernel, grid, block, sharedMemory, accesses, scalars, h⟩

theorem newWithScalars_eq_ok {kernel : KernelId} {grid block : Dim3} {sharedMemory : UInt32}
    {accesses : List BufferAccess} {scalars : List ScalarArg} {dispatch : Dispatch} :
    newWithScalars kernel grid block sharedMemory accesses scalars = .ok dispatch ↔
      dispatch.kernel = kernel ∧ dispatch.grid = grid ∧ dispatch.block = block ∧
        dispatch.sharedMemory = sharedMemory ∧ dispatch.accesses = accesses ∧
        dispatch.scalars = scalars := by
  unfold newWithScalars
  constructor
  · intro h
    split at h
    · cases h
    · obtain rfl := Except.ok.inj h
      exact ⟨rfl, rfl, rfl, rfl, rfl, rfl⟩
  · rintro ⟨rfl, rfl, rfl, rfl, rfl, rfl⟩
    split
    · next error h => rw [dispatch.checked] at h; cases h
    · rfl

/-- A dispatch has at most sixteen accesses and sixteen scalars. -/
theorem lengths_le (dispatch : Dispatch) :
    dispatch.accesses.length ≤ 16 ∧ dispatch.scalars.length ≤ 16 := by
  have h := dispatch.checked
  unfold checkLaunch at h
  obtain ⟨_, -, h⟩ := bind_eq_ok.mp h
  obtain ⟨_, -, h⟩ := bind_eq_ok.mp h
  obtain ⟨_, -, h⟩ := bind_eq_ok.mp h
  obtain ⟨_, -, h⟩ := bind_eq_ok.mp h
  obtain ⟨_, haccesses, hscalars⟩ := bind_eq_ok.mp h
  exact ⟨Nat.not_lt.mp (refuseIf_eq_ok.mp haccesses), Nat.not_lt.mp (refuseIf_eq_ok.mp hscalars)⟩

end Dispatch

/-! ## Records -/

/-- The mode byte (lines 3921–3925). -/
def BufferMode.code : BufferMode → UInt8
  | .read => 1
  | .write => 2
  | .readWrite => 3

/-- The match of `decode` on the mode byte (lines 3972–3977). -/
def BufferMode.ofCode : UInt8 → Except GpuError BufferMode
  | 1 => .ok .read
  | 2 => .ok .write
  | 3 => .ok .readWrite
  | _ => .error .malformedCommand

/-- The kind byte (lines 3929–3933). -/
def ScalarKind.code : ScalarKind → UInt8
  | .u32 => 1
  | .i32 => 2
  | .f32 => 3

/-- The match of `decode` on the kind byte (lines 3996–4001). -/
def ScalarKind.ofCode : UInt8 → Except GpuError ScalarKind
  | 1 => .ok .u32
  | 2 => .ok .i32
  | 3 => .ok .f32
  | _ => .error .malformedCommand

theorem BufferMode.ofCode_code (mode : BufferMode) : ofCode mode.code = .ok mode := by
  cases mode <;> rfl

theorem BufferMode.code_of_ofCode {code : UInt8} {mode : BufferMode} (h : ofCode code = .ok mode) :
    mode.code = code := by
  unfold ofCode at h
  split at h
  · exact Except.ok.inj h ▸ rfl
  · exact Except.ok.inj h ▸ rfl
  · exact Except.ok.inj h ▸ rfl
  · cases h

theorem ScalarKind.ofCode_code (kind : ScalarKind) : ofCode kind.code = .ok kind := by
  cases kind <;> rfl

theorem ScalarKind.code_of_ofCode {code : UInt8} {kind : ScalarKind} (h : ofCode code = .ok kind) :
    kind.code = code := by
  unfold ofCode at h
  split at h
  · exact Except.ok.inj h ▸ rfl
  · exact Except.ok.inj h ▸ rfl
  · exact Except.ok.inj h ▸ rfl
  · cases h

/-- A token that is accepted is the one of its identifier. -/
theorem BufferId.token_of_fromToken {token : UInt64} {id : BufferId}
    (h : BufferId.fromToken token = .ok id) : id.token = token := by
  unfold fromToken at h
  split_ifs at h
  obtain rfl := Except.ok.inj h
  exact eq_of_words (lowWord_packWords _ _) (highWord_packWords _ _)

/-- The body of the access loop of `encode` (lines 3917–3926). -/
def BufferAccess.put (output : List UInt8) (offset : ℕ) (access : BufferAccess) : List UInt8 :=
  let output := patch output offset (leBytes 8 access.buffer.token.toNat)
  let output := patch output (offset + 8) (leBytes 8 access.offset.toNat)
  let output := patch output (offset + 16) (leBytes 8 access.length.toNat)
  patch output (offset + 24) [access.mode.code]

/-- The body of the access loop of `decode` (lines 3964–3984), on its 32 bytes. -/
def BufferAccess.parse (record : List UInt8) : Except GpuError BufferAccess := do
  refuseIf (anyNonzero (slice record 25 7)) .malformedCommand
  let mode ← BufferMode.ofCode (byteAt record 24)
  let buffer ← BufferId.fromToken (readU64 record 0)
  return ⟨buffer, readU64 record 8, readU64 record 16, mode⟩

/-- The body of the scalar loop of `encode` (lines 3927–3935). -/
def ScalarArg.put (output : List UInt8) (offset : ℕ) (scalar : ScalarArg) : List UInt8 :=
  let output := patch output offset [scalar.kind.code]
  patch output (offset + 4) (leBytes 4 scalar.bits.toNat)

/-- The body of the scalar loop of `decode` (lines 3991–4006), on its 8 bytes. -/
def ScalarArg.parse (record : List UInt8) : Except GpuError ScalarArg := do
  refuseIf (anyNonzero (slice record 1 3)) .malformedCommand
  let kind ← ScalarKind.ofCode (byteAt record 0)
  return ⟨kind, readU32 record 4⟩

/-- The fields of an access. -/
def BufferAccess.fields (access : BufferAccess) : List (List UInt8) :=
  [leBytes 8 access.buffer.token.toNat, leBytes 8 access.offset.toNat,
    leBytes 8 access.length.toNat, [access.mode.code], zeros 7]

/-- The fields of a scalar. -/
def ScalarArg.fields (scalar : ScalarArg) : List (List UInt8) :=
  [[scalar.kind.code], zeros 3, leBytes 4 scalar.bits.toNat]

theorem BufferAccess.slice_fields (access : BufferAccess) :
    slice access.fields.flatten 0 8 = leBytes 8 access.buffer.token.toNat ∧
    slice access.fields.flatten 8 8 = leBytes 8 access.offset.toNat ∧
    slice access.fields.flatten 16 8 = leBytes 8 access.length.toNat ∧
    slice access.fields.flatten 24 1 = [access.mode.code] ∧
    slice access.fields.flatten 25 7 = zeros 7 := by
  have h := slices_flatten access.fields
  generalize access.fields.flatten = record at h
  simpa [fields, slices] using h

theorem length_accessFields (access : BufferAccess) : access.fields.flatten.length = 32 := by
  simp [BufferAccess.fields]

theorem parse_accessFields (access : BufferAccess) :
    BufferAccess.parse access.fields.flatten = .ok access := by
  obtain ⟨htoken, hoffset, hlength, hmode, hzero⟩ := access.slice_fields
  rw [BufferAccess.parse, hzero, byteAt_of_slice hmode, readU64_of_slice htoken,
    readU64_of_slice hoffset, readU64_of_slice hlength, BufferMode.ofCode_code,
    BufferId.fromToken_token]
  rfl

theorem accessFields_of_parse {record : List UInt8} {access : BufferAccess}
    (hlen : record.length = 32) (h : BufferAccess.parse record = .ok access) :
    access.fields.flatten = record := by
  obtain ⟨_, hzero, h⟩ := bind_eq_ok.mp h
  obtain ⟨mode, hmode, h⟩ := bind_eq_ok.mp h
  obtain ⟨buffer, hbuffer, h⟩ := bind_eq_ok.mp h
  obtain rfl := Except.ok.inj h
  have hfields : record = (slices record 0 [8, 8, 8, 1, 7]).flatten := eq_flatten_slices hlen
  have hrest := slice_eq_zeros hzero (by omega)
  conv_rhs => rw [hfields]
  simp only [BufferAccess.fields, slices, Nat.zero_add, Nat.reduceAdd]
  rw [BufferId.token_of_fromToken hbuffer, BufferMode.code_of_ofCode hmode, hrest,
    leBytes_readU64 (by omega), leBytes_readU64 (by omega), leBytes_readU64 (by omega),
    slice_one (by omega)]

/-- Accesses as records. -/
def accessFormat : RecordFormat GpuError BufferAccess where
  width := 32
  write access := access.fields.flatten
  read := BufferAccess.parse
  length_write := length_accessFields
  read_write := parse_accessFields
  write_read := accessFields_of_parse

theorem ScalarArg.slice_fields (scalar : ScalarArg) :
    slice scalar.fields.flatten 0 1 = [scalar.kind.code] ∧
    slice scalar.fields.flatten 1 3 = zeros 3 ∧
    slice scalar.fields.flatten 4 4 = leBytes 4 scalar.bits.toNat := by
  have h := slices_flatten scalar.fields
  generalize scalar.fields.flatten = record at h
  simpa [fields, slices] using h

theorem length_scalarFields (scalar : ScalarArg) : scalar.fields.flatten.length = 8 := by
  simp [ScalarArg.fields]

theorem parse_scalarFields (scalar : ScalarArg) :
    ScalarArg.parse scalar.fields.flatten = .ok scalar := by
  obtain ⟨hkind, hzero, hbits⟩ := scalar.slice_fields
  rw [ScalarArg.parse, hzero, byteAt_of_slice hkind, readU32_of_slice hbits,
    ScalarKind.ofCode_code]
  rfl

theorem scalarFields_of_parse {record : List UInt8} {scalar : ScalarArg}
    (hlen : record.length = 8) (h : ScalarArg.parse record = .ok scalar) :
    scalar.fields.flatten = record := by
  obtain ⟨_, hzero, h⟩ := bind_eq_ok.mp h
  obtain ⟨kind, hkind, h⟩ := bind_eq_ok.mp h
  obtain rfl := Except.ok.inj h
  have hfields : record = (slices record 0 [1, 3, 4]).flatten := eq_flatten_slices hlen
  have hrest := slice_eq_zeros hzero (by omega)
  conv_rhs => rw [hfields]
  simp only [ScalarArg.fields, slices, Nat.zero_add, Nat.reduceAdd]
  rw [ScalarKind.code_of_ofCode hkind, hrest, leBytes_readU32 (by omega), slice_one (by omega)]

/-- Scalars as records. -/
def scalarFormat : RecordFormat GpuError ScalarArg where
  width := 8
  write scalar := scalar.fields.flatten
  read := ScalarArg.parse
  length_write := length_scalarFields
  read_write := parse_scalarFields
  write_read := scalarFields_of_parse

theorem BufferAccess.put_zeros (pre post : List UInt8) (access : BufferAccess) :
    put (pre ++ (zeros 32 ++ post)) pre.length access =
      pre ++ (accessFormat.write access ++ post) := by
  have hbuffer : pre ++ (zeros 32 ++ post) =
      [pre, zeros 8, zeros 8, zeros 8, zeros 1, zeros 7, post].flatten := by
    simp [zeros]
  rw [hbuffer]
  refine (foldl_patch_flatten _ [pre.length, 8, 8, 8, 1, 7, post.length] (by simp)
    [(1, leBytes 8 access.buffer.token.toNat), (2, leBytes 8 access.offset.toNat),
      (3, leBytes 8 access.length.toNat), (4, [access.mode.code])] (by simp)).trans ?_
  simp [accessFormat, fields]

theorem ScalarArg.put_zeros (pre post : List UInt8) (scalar : ScalarArg) :
    put (pre ++ (zeros 8 ++ post)) pre.length scalar =
      pre ++ (scalarFormat.write scalar ++ post) := by
  have hbuffer : pre ++ (zeros 8 ++ post) =
      [pre, zeros 1, zeros 3, zeros 4, post].flatten := by
    simp [zeros]
  rw [hbuffer]
  refine (foldl_patch_flatten _ [pre.length, 1, 3, 4, post.length] (by simp)
    [(1, [scalar.kind.code]), (3, leBytes 4 scalar.bits.toNat)] (by simp)).trans ?_
  simp [scalarFormat, fields]

@[simp] theorem accessFormat_width : accessFormat.width = 32 := rfl

@[simp] theorem scalarFormat_width : scalarFormat.width = 8 := rfl

/-! ## The dispatch -/

namespace Dispatch

/-- `SCALAR_WIRE_OFFSET` (line 2762). -/
def scalarWireOffset : ℕ := 48 + maxDispatchBuffers * 32

/-- `WIRE_LENGTH` (line 2763). -/
def wireLength : ℕ := scalarWireOffset + maxDispatchScalars * 8

theorem scalarWireOffset_eq : scalarWireOffset = 560 := rfl

theorem wireLength_eq : wireLength = 688 := rfl

/-- `b"MRGD"`. -/
def magic : List UInt8 := [0x4d, 0x52, 0x47, 0x44]

/-- The writes of `encode` into its zeroed output (lines 3901–3935). -/
def write (dispatch : Dispatch) (requestId : UInt64) : List UInt8 :=
  let output := zeros wireLength
  let output := patch output 0 magic
  let output := patch output 4 [2]
  let output := patch output 5 [dispatch.kernel.id]
  let output := patch output 6 [UInt8.ofNat dispatch.accesses.length]
  let output := patch output 7 [UInt8.ofNat dispatch.scalars.length]
  let output := patch output 8 (leBytes 8 requestId.toNat)
  let output := patch output 16 (leBytes 4 dispatch.grid.x.toNat)
  let output := patch output 28 (leBytes 4 dispatch.block.x.toNat)
  let output := patch output 20 (leBytes 4 dispatch.grid.y.toNat)
  let output := patch output 32 (leBytes 4 dispatch.block.y.toNat)
  let output := patch output 24 (leBytes 4 dispatch.grid.z.toNat)
  let output := patch output 36 (leBytes 4 dispatch.block.z.toNat)
  let output := patch output 40 (leBytes 4 dispatch.sharedMemory.toNat)
  let output := writeEach BufferAccess.put 32 output 48 dispatch.accesses
  writeEach ScalarArg.put 8 output scalarWireOffset dispatch.scalars

/-- `Dispatch::encode` (lines 3894–3937): the result and the buffer. -/
def encode (dispatch : Dispatch) (requestId : UInt64) (output : List UInt8) :
    Except GpuError Unit × List UInt8 :=
  if requestId = 0 then (.error .malformedCommand, output)
  else if output.length < wireLength then (.error .commandBufferTooSmall, output)
  else (.ok (), dispatch.write requestId ++ output.drop wireLength)

/-- `Dispatch::decode` (lines 3939–4030). -/
def decode (input : List UInt8) : Except GpuError (UInt64 × Dispatch) := do
  refuseIf (input.length ≠ wireLength ∨ slice input 0 4 ≠ magic ∨ byteAt input 4 ≠ 2 ∨
    anyNonzero (slice input 44 4)) .malformedCommand
  let requestId := readU64 input 8
  let accessCount := (byteAt input 6).toNat
  let scalarCount := (byteAt input 7).toNat
  refuseIf (requestId = 0 ∨ accessCount > maxDispatchBuffers ∨ scalarCount > maxDispatchScalars)
    .malformedCommand
  let kernel ← KernelId.new (byteAt input 5)
  let grid := ⟨readU32 input 16, readU32 input 20, readU32 input 24⟩
  let block := ⟨readU32 input 28, readU32 input 32, readU32 input 36⟩
  let accesses ← accessFormat.readRecords input 48 accessCount
  refuseIf (anyNonzero (slice input (48 + accessCount * 32)
    (scalarWireOffset - (48 + accessCount * 32)))) .malformedCommand
  let scalars ← scalarFormat.readRecords input scalarWireOffset scalarCount
  refuseIf (anyNonzero (slice input (scalarWireOffset + scalarCount * 8)
    (wireLength - (scalarWireOffset + scalarCount * 8)))) .malformedCommand
  let dispatch ← newWithScalars kernel grid block (readU32 input 40) accesses scalars
  return (requestId, dispatch)

/-- The fields of an encoded dispatch. -/
def fields (dispatch : Dispatch) (requestId : UInt64) : List (List UInt8) :=
  [magic, [2], [dispatch.kernel.id], [UInt8.ofNat dispatch.accesses.length],
    [UInt8.ofNat dispatch.scalars.length], leBytes 8 requestId.toNat,
    leBytes 4 dispatch.grid.x.toNat, leBytes 4 dispatch.grid.y.toNat,
    leBytes 4 dispatch.grid.z.toNat, leBytes 4 dispatch.block.x.toNat,
    leBytes 4 dispatch.block.y.toNat, leBytes 4 dispatch.block.z.toNat,
    leBytes 4 dispatch.sharedMemory.toNat, zeros 4, accessFormat.writeRecords dispatch.accesses,
    zeros ((16 - dispatch.accesses.length) * 32), scalarFormat.writeRecords dispatch.scalars,
    zeros ((16 - dispatch.scalars.length) * 8)]

/-- The widths of these fields. -/
def widths (accesses scalars : ℕ) : List ℕ :=
  [4, 1, 1, 1, 1, 8, 4, 4, 4, 4, 4, 4, 4, 4, accesses * 32, (16 - accesses) * 32, scalars * 8,
    (16 - scalars) * 8]

theorem sum_widths {accesses scalars : ℕ} (haccesses : accesses ≤ 16) (hscalars : scalars ≤ 16) :
    (widths accesses scalars).sum = 688 := by
  simp only [widths, List.sum_cons, List.sum_nil]
  omega

/-- The writes of `encode` fill in the fields. -/
theorem write_eq (dispatch : Dispatch) (requestId : UInt64) :
    dispatch.write requestId = (dispatch.fields requestId).flatten := by
  obtain ⟨haccesses, hscalars⟩ := dispatch.lengths_le
  have hbuffer : zeros wireLength =
      ((widths dispatch.accesses.length dispatch.scalars.length).map zeros).flatten := by
    rw [flatten_zeros, sum_widths haccesses hscalars]
    rfl
  have hpadding : dispatch.accesses.length * 32 + (16 - dispatch.accesses.length) * 32 = 512 := by
    omega
  have hheader := foldl_patch_flatten
    ((widths dispatch.accesses.length dispatch.scalars.length).map zeros)
    (widths dispatch.accesses.length dispatch.scalars.length) (by simp [widths])
    [(0, magic), (1, [2]), (2, [dispatch.kernel.id]), (3, [UInt8.ofNat dispatch.accesses.length]),
      (4, [UInt8.ofNat dispatch.scalars.length]), (5, leBytes 8 requestId.toNat),
      (6, leBytes 4 dispatch.grid.x.toNat), (9, leBytes 4 dispatch.block.x.toNat),
      (7, leBytes 4 dispatch.grid.y.toNat), (10, leBytes 4 dispatch.block.y.toNat),
      (8, leBytes 4 dispatch.grid.z.toNat), (11, leBytes 4 dispatch.block.z.toNat),
      (12, leBytes 4 dispatch.sharedMemory.toNat)] (by simp [widths, magic])
  rw [← hbuffer] at hheader
  simp only [widths, List.map_cons, List.map_nil, List.foldl_cons, List.foldl_nil,
    List.take_succ_cons, List.take_zero, List.sum_cons, List.sum_nil, Nat.reduceAdd,
    List.set_cons_succ, List.set_cons_zero] at hheader
  unfold write
  dsimp only
  rw [hheader, writeEach_flatten BufferAccess.put_zeros accessFormat.length_write (i := 14),
    writeEach_flatten ScalarArg.put_zeros scalarFormat.length_write (i := 16)]
  · rfl
  · simp
  · have htable := accessFormat.length_writeRecords dispatch.accesses
    rw [RecordFormat.writeRecords] at htable
    simp only [List.set_cons_succ, List.set_cons_zero, List.take_succ_cons, List.take_zero,
      List.map_cons, List.map_nil, List.sum_cons, List.sum_nil, length_leBytes, length_zeros,
      List.length_cons, List.length_nil, magic, htable, accessFormat_width, Nat.add_zero, hpadding,
      Nat.reduceAdd, scalarWireOffset_eq]
  · rfl
  · simp
  · simp [magic]
  · rfl

theorem map_length_fields (dispatch : Dispatch) (requestId : UInt64) :
    (dispatch.fields requestId).map List.length =
      widths dispatch.accesses.length dispatch.scalars.length := by
  simp [fields, widths, magic]

/-- An encoded dispatch has the fixed length. -/
theorem length_write (dispatch : Dispatch) (requestId : UInt64) :
    (dispatch.write requestId).length = wireLength := by
  rw [write_eq, List.length_flatten, map_length_fields,
    sum_widths dispatch.lengths_le.1 dispatch.lengths_le.2]
  rfl

/-- Writes read back: a dispatch with a request id decodes to both. -/
theorem decode_write (dispatch : Dispatch) {requestId : UInt64} (hid : requestId ≠ 0) :
    decode (dispatch.write requestId) = .ok (requestId, dispatch) := by
  obtain ⟨haccesses, hscalars⟩ := dispatch.lengths_le
  have hlen := dispatch.length_write requestId
  have hslices := slices_flatten (dispatch.fields requestId)
  rw [map_length_fields, ← write_eq] at hslices
  generalize dispatch.write requestId = input at *
  simp only [widths, slices, fields, List.cons.injEq, and_true, Nat.zero_add, Nat.reduceAdd]
    at hslices
  obtain ⟨hmagic, hversion, hkernel, hcount, hcount', hrequest, hgx, hgy, hgz, hbx, hby, hbz,
    hshared, hzero, htable, hpadding, htable', hpadding'⟩ := hslices
  have hpad : 48 + dispatch.accesses.length * 32 + (16 - dispatch.accesses.length) * 32 =
      scalarWireOffset := by
    rw [scalarWireOffset_eq]
    omega
  rw [hpad] at htable' hpadding'
  have hn : (byteAt input 6).toNat = dispatch.accesses.length := by
    rw [byteAt_of_slice hcount, UInt8.toNat_ofNat', Nat.mod_eq_of_lt (by omega)]
  have hm : (byteAt input 7).toNat = dispatch.scalars.length := by
    rw [byteAt_of_slice hcount', UInt8.toNat_ofNat', Nat.mod_eq_of_lt (by omega)]
  refine bind_eq_ok.mpr ⟨(), refuseIf_eq_ok.mpr ?_, ?_⟩
  · rw [hlen, hmagic, byteAt_of_slice hversion, hzero]
    simp
  refine bind_eq_ok.mpr ⟨(), refuseIf_eq_ok.mpr ?_, ?_⟩
  · rw [hn, hm, readU64_of_slice hrequest, not_or, not_or]
    exact ⟨hid, Nat.not_lt.mpr haccesses, Nat.not_lt.mpr hscalars⟩
  refine bind_eq_ok.mpr ⟨dispatch.kernel, ?_, ?_⟩
  · rw [byteAt_of_slice hkernel, KernelId.new_self]
  refine bind_eq_ok.mpr ⟨dispatch.accesses, ?_, ?_⟩
  · rw [hn]
    exact accessFormat.readRecords_writeRecords htable
  refine bind_eq_ok.mpr ⟨(), refuseIf_eq_ok.mpr ?_, ?_⟩
  · rw [hn, show scalarWireOffset - (48 + dispatch.accesses.length * 32) =
      (16 - dispatch.accesses.length) * 32 by omega, hpadding, anyNonzero_zeros]
    exact Bool.false_ne_true
  refine bind_eq_ok.mpr ⟨dispatch.scalars, ?_, ?_⟩
  · rw [hm]
    exact scalarFormat.readRecords_writeRecords htable'
  refine bind_eq_ok.mpr ⟨(), refuseIf_eq_ok.mpr ?_, ?_⟩
  · rw [hm, show wireLength - (scalarWireOffset + dispatch.scalars.length * 8) =
      (16 - dispatch.scalars.length) * 8 by rw [wireLength_eq, scalarWireOffset_eq]; omega,
      hpadding', anyNonzero_zeros]
    exact Bool.false_ne_true
  refine bind_eq_ok.mpr ⟨dispatch, newWithScalars_eq_ok.mpr ?_, ?_⟩
  · rw [readU32_of_slice hgx, readU32_of_slice hgy, readU32_of_slice hgz, readU32_of_slice hbx,
      readU32_of_slice hby, readU32_of_slice hbz, readU32_of_slice hshared]
    exact ⟨rfl, rfl, rfl, rfl, rfl, rfl⟩
  · rw [readU64_of_slice hrequest]
    rfl

/-- Reads write back: an accepted buffer is the encoding of what it decodes to. -/
theorem write_of_decode {input : List UInt8} {requestId : UInt64} {dispatch : Dispatch}
    (h : decode input = .ok (requestId, dispatch)) :
    requestId ≠ 0 ∧ dispatch.write requestId = input := by
  unfold decode at h
  obtain ⟨_, hhead, h⟩ := bind_eq_ok.mp h
  obtain ⟨_, hcounts, h⟩ := bind_eq_ok.mp h
  obtain ⟨kernel, hkernel, h⟩ := bind_eq_ok.mp h
  obtain ⟨accesses, haccesses, h⟩ := bind_eq_ok.mp h
  obtain ⟨_, hpadding, h⟩ := bind_eq_ok.mp h
  obtain ⟨scalars, hscalars, h⟩ := bind_eq_ok.mp h
  obtain ⟨_, hpadding', h⟩ := bind_eq_ok.mp h
  obtain ⟨dispatch', hdispatch, h⟩ := bind_eq_ok.mp h
  obtain ⟨rfl, rfl⟩ := Prod.mk.inj (Except.ok.inj h)
  obtain ⟨hlen, hmagic, hversion, hzero⟩ : input.length = 688 ∧ slice input 0 4 = magic ∧
      byteAt input 4 = 2 ∧ anyNonzero (slice input 44 4) = false := by
    simpa [wireLength_eq] using refuseIf_eq_ok.mp hhead
  obtain ⟨hid, hn, hm⟩ : readU64 input 8 ≠ 0 ∧ (byteAt input 6).toNat ≤ 16 ∧
      (byteAt input 7).toNat ≤ 16 := by
    simpa [maxDispatchBuffers, maxDispatchScalars] using refuseIf_eq_ok.mp hcounts
  obtain ⟨hkernel', hgrid, hblock, hshared, haccesses', hscalars'⟩ :=
    newWithScalars_eq_ok.mp hdispatch
  generalize hcount : (byteAt input 6).toNat = n at *
  generalize hcount' : (byteAt input 7).toNat = m at *
  rw [scalarWireOffset_eq] at hpadding hpadding' hscalars
  rw [wireLength_eq] at hpadding'
  obtain ⟨hlength, htable⟩ := accessFormat.writeRecords_readRecords
    (by rw [accessFormat_width]; omega) haccesses
  obtain ⟨hlength', htable'⟩ := scalarFormat.writeRecords_readRecords
    (by rw [scalarFormat_width]; omega) hscalars
  have hkernel_id : kernel.id = byteAt input 5 := KernelId.id_of_new hkernel
  refine ⟨hid, ?_⟩
  have hfields : input = (slices input 0 (widths n m)).flatten :=
    eq_flatten_slices (by rw [hlen, sum_widths hn hm])
  have hcode : UInt8.ofNat n = byteAt input 6 := by rw [← hcount, UInt8.ofNat_toNat]
  have hcode' : UInt8.ofNat m = byteAt input 7 := by rw [← hcount', UInt8.ofNat_toNat]
  have hpad : 48 + n * 32 + (16 - n) * 32 = 560 := by omega
  have hrest := slice_eq_zeros hpadding (by omega)
  have hrest' := slice_eq_zeros hpadding' (by omega)
  rw [show 560 - (48 + n * 32) = (16 - n) * 32 by omega] at hrest
  rw [show 688 - (560 + m * 8) = (16 - m) * 8 by omega] at hrest'
  rw [write_eq]
  conv_rhs => rw [hfields]
  simp only [widths, slices, fields, hkernel', hgrid, hblock, hshared, haccesses', hscalars',
    hkernel_id, hlength, hlength', hcode, hcode', htable, htable', accessFormat_width,
    scalarFormat_width, Nat.zero_add, Nat.reduceAdd, hpad, hmagic, hrest, hrest']
  have hreserved := eq_zeros_of_anyNonzero (length_slice (by omega)) hzero
  have hword : ∀ off, off + 4 ≤ 44 → leBytes 4 (readU32 input off).toNat = slice input off 4 :=
    fun off hoff => leBytes_readU32 (by omega)
  have hbyte : ∀ off, off < 8 → slice input off 1 = [byteAt input off] :=
    fun off hoff => slice_one (by omega)
  rw [leBytes_readU64 (by omega), hreserved, hbyte 4 (by decide), hbyte 5 (by decide),
    hbyte 6 (by decide), hbyte 7 (by decide), hversion, hword 16 (by decide), hword 20 (by decide),
    hword 24 (by decide), hword 28 (by decide), hword 32 (by decide), hword 36 (by decide),
    hword 40 (by decide)]

theorem encode_of_ne {dispatch : Dispatch} {requestId : UInt64} (hid : requestId ≠ 0)
    {output : List UInt8} (hlen : wireLength ≤ output.length) :
    dispatch.encode requestId output =
      (.ok (), dispatch.write requestId ++ output.drop wireLength) := by
  rw [encode, if_neg hid, if_neg (Nat.not_lt.mpr hlen)]

/-- A buffer of the size of a dispatch ends up as the encoding. -/
theorem encode_exact {dispatch : Dispatch} {requestId : UInt64} (hid : requestId ≠ 0)
    {output : List UInt8} (hlen : output.length = wireLength) :
    dispatch.encode requestId output = (.ok (), dispatch.write requestId) := by
  rw [encode_of_ne hid (Nat.le_of_eq hlen.symm), List.drop_eq_nil_of_le (Nat.le_of_eq hlen),
    List.append_nil]

end Dispatch

end Mrml.Gpu
