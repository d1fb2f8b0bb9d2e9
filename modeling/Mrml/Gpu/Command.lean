import Mrml.Common.Bytes
import Mrml.Common.Int

/-!
# GPU resource commands

Model of `ResourceCommand` and its 24-byte wire format
(`crates/mrml-kernel/src/virtual_gpu.rs`, lines 16–60, 1174–1193, 1443–1484 and
1756–1851).

Results:
* `decode_wire`: what `decode` makes of an encoded command. It refuses an allocation
  of zero bytes, which `encode` writes.
-/

namespace Mrml.Gpu

/-- `GpuError` (lines 17–60). -/
inductive GpuError
  | zeroAllocation
  | quotaExceeded
  | bufferTableFull
  | invalidBuffer
  | rangeOverflow
  | outOfBounds
  | invalidKernel
  | invalidGrid
  | tooManyBuffers
  | tooManyScalars
  | excessiveSharedMemory
  | malformedCommand
  | commandBufferTooSmall
  | unsupportedCommand
  | invalidQueueKey
  | invalidQueueIdentity
  | authenticationFailed
  | wrongSession
  | replay
  | sequenceExhausted
  | duplicateRequest
  | dispatchTableFull
  | invalidDispatch
  | invalidDeadline
  | invalidQueueCapacity
  | queueFull
  | queueEmpty
  | invalidQueueState
  | reservationPending
  | invalidReservation
  | invalidQueueMapping
  | invalidBatchCapacity
  | emptyBatch
  | batchFull
  | controlBufferTableFull
  | controlBufferTooLarge
  | invalidControlBuffer
  | controlBufferChanged
  | invalidExpertSelection
  | expertSelectionChanged
  | untrustedKernelBundle
  | unsupportedKernelSchema
  | invalidKernelSchema
deriving DecidableEq

/-- `BufferId` (lines 1443–1446). Identifiers come from `allocate`, which skips slots
    of generation 0, and from `from_token`. -/
structure BufferId where
  slot : UInt32
  generation : UInt32
  generation_ne : generation ≠ 0
deriving DecidableEq

theorem firstGeneration_ne : (1 : UInt32) ≠ 0 := by decide

/-- `ControlBufferId` (lines 1174–1177). Identifiers come from `seal`, which skips
    slots of generation 0, and from `from_token`. -/
structure ControlBufferId where
  slot : UInt32
  generation : UInt32
  generation_ne : generation ≠ 0
deriving DecidableEq

/-- `BufferId::token` (lines 1457–1459). -/
def BufferId.token (id : BufferId) : UInt64 := packWords id.generation id.slot

/-- `BufferId::from_token` (lines 1461–1469). -/
def BufferId.fromToken (token : UInt64) : Except GpuError BufferId :=
  if h : token >>> 32 = 0 then .error .malformedCommand
  else .ok ⟨lowWord token, highWord token, fun hhigh => h ((shiftRight_eq_zero_iff token).mpr hhigh)⟩

/-- `ControlBufferId::token` (lines 1180–1182). -/
def ControlBufferId.token (id : ControlBufferId) : UInt64 := packWords id.generation id.slot

/-- `ControlBufferId::from_token` (lines 1184–1192). -/
def ControlBufferId.fromToken (token : UInt64) : Except GpuError ControlBufferId :=
  if h : token >>> 32 = 0 then .error .malformedCommand
  else .ok ⟨lowWord token, highWord token, fun hhigh => h ((shiftRight_eq_zero_iff token).mpr hhigh)⟩

/-- A token with a nonzero generation is accepted. -/
theorem packWords_shiftRight_ne {generation slot : UInt32} (h : generation ≠ 0) :
    ¬ packWords generation slot >>> 32 = 0 := by
  rwa [shiftRight_eq_zero_iff, highWord_packWords]

theorem BufferId.fromToken_token (id : BufferId) : BufferId.fromToken id.token = .ok id := by
  rw [fromToken, token, dif_neg (packWords_shiftRight_ne id.generation_ne)]
  simp

theorem ControlBufferId.fromToken_token (id : ControlBufferId) :
    ControlBufferId.fromToken id.token = .ok id := by
  rw [fromToken, token, dif_neg (packWords_shiftRight_ne id.generation_ne)]
  simp

/-- `ResourceCommand` (lines 1473–1484). -/
inductive ResourceCommand
  | allocate (bytes : UInt64)
  | free (buffer : BufferId)
  | submitBatch (control : ControlBufferId)
  | benchmarkAdd (elements iterations : UInt32)
deriving DecidableEq

/-- `MAX_GPU_BENCHMARK_ELEMENTS` (line 267). -/
def maxGpuBenchmarkElements : UInt32 := 16 * 1024 * 1024

/-- `MAX_GPU_BENCHMARK_ITERATIONS` (line 268). -/
def maxGpuBenchmarkIterations : UInt32 := 10000

/-- `validate_benchmark_shape` (lines 1836–1848). -/
def validateBenchmarkShape (elements iterations : UInt32) : Except GpuError Unit :=
  if elements = 0 ∨ elements > maxGpuBenchmarkElements ∨ iterations = 0 ∨
      iterations > maxGpuBenchmarkIterations ∨ 2 ^ 64 ≤ elements.toNat * iterations.toNat then
    .error .invalidKernelSchema
  else .ok ()

namespace ResourceCommand

/-- `ResourceCommand::WIRE_LENGTH` (line 1757). -/
def wireLength : ℕ := 24

/-- `b"MRVG"`. -/
def magic : List UInt8 := [0x4d, 0x52, 0x56, 0x47]

/-- The kind byte (lines 1779–1784). -/
def kind : ResourceCommand → UInt8
  | .allocate _ => 1
  | .free _ => 2
  | .submitBatch _ => 3
  | .benchmarkAdd _ _ => 4

/-- The value field (lines 1786–1794). -/
def value : ResourceCommand → UInt64
  | .allocate bytes => bytes
  | .free buffer => buffer.token
  | .submitBatch control => control.token
  | .benchmarkAdd elements iterations => packWords iterations elements

/-- The `if let` of `encode` (lines 1766–1772). -/
def validate : ResourceCommand → Except GpuError Unit
  | .benchmarkAdd elements iterations => validateBenchmarkShape elements iterations
  | _ => .ok ()

/-- The bytes that `encode` writes (lines 1776–1795). -/
def wire (command : ResourceCommand) (requestId : UInt64) : List UInt8 :=
  let output := List.replicate wireLength 0
  let output := patch output 0 magic
  let output := patch output 4 [1]
  let output := patch output 5 [command.kind]
  let output := patch output 8 (leBytes 8 requestId.toNat)
  patch output 16 (leBytes 8 command.value.toNat)

/-- `ResourceCommand::encode` (lines 1762–1797): the result and the buffer. -/
def encode (command : ResourceCommand) (requestId : UInt64) (output : List UInt8) :
    Except GpuError Unit × List UInt8 :=
  if requestId = 0 then (.error .malformedCommand, output)
  else
    match command.validate with
    | .error error => (.error error, output)
    | .ok () =>
      if output.length < wireLength then (.error .commandBufferTooSmall, output)
      else (.ok (), command.wire requestId ++ output.drop wireLength)

/-- `ResourceCommand::decode` (lines 1799–1833). -/
def decode (input : List UInt8) : Except GpuError (UInt64 × ResourceCommand) :=
  if input.length ≠ wireLength ∨ slice input 0 4 ≠ magic ∨ byteAt input 4 ≠ 1 ∨
      anyNonzero (slice input 6 2) then .error .malformedCommand
  else
    let requestId := readU64 input 8
    if requestId = 0 then .error .malformedCommand
    else
      let value := readU64 input 16
      match byteAt input 5 with
      | 1 => if value ≠ 0 then .ok (requestId, .allocate value) else .error .malformedCommand
      | 2 => (BufferId.fromToken value).map fun buffer => (requestId, .free buffer)
      | 3 => (ControlBufferId.fromToken value).map fun control => (requestId, .submitBatch control)
      | 4 =>
        let elements := lowWord value
        let iterations := highWord value
        (validateBenchmarkShape elements iterations).map fun _ =>
          (requestId, .benchmarkAdd elements iterations)
      | _ => .error .unsupportedCommand

/-! ## Round trip -/

/-- A command that `decode` returns for its own encoding. -/
def Deliverable (command : ResourceCommand) : Prop := command ≠ .allocate 0

instance (command : ResourceCommand) : Decidable command.Deliverable :=
  inferInstanceAs (Decidable (command ≠ .allocate 0))

theorem length_wire (command : ResourceCommand) (requestId : UInt64) :
    (command.wire requestId).length = wireLength := rfl

theorem encode_eq_ok {command : ResourceCommand} {requestId : UInt64}
    {output output' : List UInt8} (h : command.encode requestId output = (.ok (), output')) :
    requestId ≠ 0 ∧ command.validate = .ok () ∧
      output' = command.wire requestId ++ output.drop wireLength := by
  unfold encode at h
  split at h
  · cases h
  · next hid =>
    split at h
    · cases h
    · next hvalid =>
      split at h
      · cases h
      · cases h
        exact ⟨hid, hvalid, rfl⟩

/-- **Round trip.** `decode` returns an encoded command, except for an allocation of
    zero bytes, which it refuses. -/
theorem decode_wire {command : ResourceCommand} {requestId : UInt64} (hid : requestId ≠ 0)
    (hvalid : command.validate = .ok ()) :
    decode (command.wire requestId) =
      if command.Deliverable then .ok (requestId, command) else .error .malformedCommand := by
  have hhead : ¬ ((command.wire requestId).length ≠ wireLength ∨
      slice (command.wire requestId) 0 4 ≠ magic ∨ byteAt (command.wire requestId) 4 ≠ 1 ∨
      anyNonzero (slice (command.wire requestId) 6 2)) := by
    have hlen := length_wire command requestId
    have hmagic : slice (command.wire requestId) 0 4 = magic := rfl
    have hversion : byteAt (command.wire requestId) 4 = 1 := rfl
    have hzero : anyNonzero (slice (command.wire requestId) 6 2) = false := rfl
    simp [hlen, hmagic, hversion, hzero]
  have hrequest : readU64 (command.wire requestId) 8 = requestId := readU64_of_slice rfl
  have hvalue : readU64 (command.wire requestId) 16 = command.value := readU64_of_slice rfl
  have hkind : byteAt (command.wire requestId) 5 = command.kind := rfl
  unfold decode
  rw [if_neg hhead]
  dsimp only
  rw [hrequest, if_neg hid, hvalue, hkind]
  cases command with
  | allocate bytes =>
    by_cases hbytes : bytes = 0
    · simp [kind, value, Deliverable, hbytes]
    · simp [kind, value, Deliverable, hbytes]
  | free buffer => simp [kind, value, Deliverable, BufferId.fromToken_token, Except.map]
  | submitBatch control =>
    simp [kind, value, Deliverable, ControlBufferId.fromToken_token, Except.map]
  | benchmarkAdd elements iterations =>
    simp only [validate] at hvalid
    simp [kind, value, Deliverable, hvalid, Except.map]

end ResourceCommand

end Mrml.Gpu
