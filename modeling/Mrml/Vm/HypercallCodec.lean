import Mrml.Common.Wire
import Mrml.Kernel.Wire
import Mrml.Vm.Hypercall

/-!
# The hypercall codec

Model of the constructors and of the encoder of `Hypercall`
(`crates/mrml-kernel/src/vm.rs`, lines 400–446 and 511–521) beside its decoder.

Results:
* `encode_eq`: the encoder fills in the fields of the descriptor.
* `decode_encode`: what the constructors build is decoded again.
* `encode_decode`: what is decoded is encoded again, byte for byte.
-/

namespace Mrml.Vm

open Mrml.Kernel

/-- `self.operation as u16` (lines 383–388). -/
def HypercallOperation.code : HypercallOperation → UInt16
  | .yield => 1
  | .toolRequest => 2
  | .gpuRequest => 3
  | .shutdown => 4

theorem HypercallOperation.ofCode_code (operation : HypercallOperation) :
    ofCode operation.code = some operation := by
  cases operation <;> rfl

theorem HypercallOperation.code_of_ofCode {code : UInt16} {operation : HypercallOperation}
    (h : ofCode code = some operation) : operation.code = code := by
  unfold ofCode at h
  split at h
  all_goals cases h
  all_goals rfl

namespace Hypercall

/-- `Hypercall::yield_call` (lines 401–410). -/
def yieldCall (sequence : UInt64) : Hypercall :=
  ⟨.yield, sequence, Capability.fromToken 0, 0, 0, 0⟩

/-- `Hypercall::shutdown` (lines 412–421). -/
def shutdown (sequence : UInt64) (capability : Capability) : Hypercall :=
  ⟨.shutdown, sequence, capability, 0, 0, 0⟩

/-- `Hypercall::request` (lines 423–446). -/
def request (operation : HypercallOperation) (sequence : UInt64) (capability : Capability)
    (guestAddress : UInt64) (length : UInt32) (argument : UInt64) : Except VmError Hypercall :=
  if ¬ (operation = .toolRequest ∨ operation = .gpuRequest) ∨ length = 0 then
    .error .malformedHypercall
  else .ok ⟨operation, sequence, capability, guestAddress, length, argument⟩

/-- `Hypercall::encode` (lines 511–521). -/
def encode (call : Hypercall) : List UInt8 :=
  let output := zeros hypercallBytes
  let output := patch output 0 hypercallMagic
  let output := patch output 8 (leBytes 2 call.operation.code.toNat)
  let output := patch output 16 (leBytes 8 call.sequence.toNat)
  let output := patch output 24 (leBytes 8 call.capability.token.toNat)
  let output := patch output 32 (leBytes 8 call.guestAddress.toNat)
  let output := patch output 40 (leBytes 4 call.length.toNat)
  patch output 44 (leBytes 8 call.argument.toNat)

/-- The calls that the constructors build. -/
inductive Built : Hypercall → Prop
  | yieldCall (sequence : UInt64) : Built (yieldCall sequence)
  | shutdown (sequence : UInt64) (capability : Capability) : Built (shutdown sequence capability)
  | request {operation : HypercallOperation} {sequence : UInt64} {capability : Capability}
      {guestAddress : UInt64} {length : UInt32} {argument : UInt64} {call : Hypercall}
      (h : request operation sequence capability guestAddress length argument = .ok call) :
      Built call

/-- The widths of the fields of a descriptor. -/
def widths : List ℕ := [8, 2, 6, 8, 8, 8, 4, 8, 12]

/-- The fields of an encoded call. -/
def fields (call : Hypercall) : List (List UInt8) :=
  [hypercallMagic, leBytes 2 call.operation.code.toNat, zeros 6, leBytes 8 call.sequence.toNat,
    leBytes 8 call.capability.token.toNat, leBytes 8 call.guestAddress.toNat,
    leBytes 4 call.length.toNat, leBytes 8 call.argument.toNat, zeros 12]

theorem map_length_fields (call : Hypercall) : call.fields.map List.length = widths := by
  simp [fields, widths, hypercallMagic]

/-- The writes of `encode` fill in the fields. -/
theorem encode_eq (call : Hypercall) : call.encode = call.fields.flatten := by
  have hbuffer : zeros hypercallBytes = (widths.map zeros).flatten := (flatten_zeros widths).symm
  have hwrites := foldl_patch_flatten (widths.map zeros) widths (by simp [widths])
    [(0, hypercallMagic), (1, leBytes 2 call.operation.code.toNat),
      (3, leBytes 8 call.sequence.toNat), (4, leBytes 8 call.capability.token.toNat),
      (5, leBytes 8 call.guestAddress.toNat), (6, leBytes 4 call.length.toNat),
      (7, leBytes 8 call.argument.toNat)] (by simp [widths, hypercallMagic])
  unfold encode
  rw [hbuffer]
  exact hwrites

/-- What a decoder reads from a descriptor with these fields. -/
theorem slices_encode (call : Hypercall) : slices call.encode 0 widths = call.fields := by
  rw [encode_eq, ← map_length_fields call, slices_flatten]

theorem length_encode (call : Hypercall) : call.encode.length = hypercallBytes := by
  rw [encode_eq, List.length_flatten, map_length_fields]
  rfl

/-- The calls that `decode` returns. -/
def Sound (call : Hypercall) : Prop :=
  match call.operation with
  | .yield => call.capability.token = 0 ∧ call.guestAddress = 0 ∧ call.length = 0 ∧
      call.argument = 0
  | .toolRequest | .gpuRequest => call.length ≠ 0
  | .shutdown => call.guestAddress = 0 ∧ call.length = 0 ∧ call.argument = 0

theorem Built.sound {call : Hypercall} (h : Built call) : call.Sound := by
  cases h with
  | yieldCall sequence => exact ⟨Capability.token_fromToken 0, rfl, rfl, rfl⟩
  | shutdown sequence capability => exact ⟨rfl, rfl, rfl⟩
  | request h =>
    unfold Hypercall.request at h
    split_ifs at h with hrefused
    obtain rfl := Except.ok.inj h
    rw [not_or, not_not] at hrefused
    obtain ⟨rfl | rfl, hlength⟩ := hrefused
    · exact hlength
    · exact hlength

/-- The checks of `decode` on the fields (lines 463–483). -/
theorem Sound.accepted {call : Hypercall} (h : call.Sound) :
    ¬ ((call.operation = .toolRequest ∨ call.operation = .gpuRequest) ∧ call.length = 0) ∧
    ¬ (call.operation = .yield ∧ (call.capability.token ≠ 0 ∨ call.guestAddress ≠ 0 ∨
      call.length ≠ 0 ∨ call.argument ≠ 0)) ∧
    ¬ (call.operation = .shutdown ∧ (call.guestAddress ≠ 0 ∨ call.length ≠ 0 ∨
      call.argument ≠ 0)) := by
  unfold Sound at h
  cases hoperation : call.operation with
  | yield =>
    rw [hoperation] at h
    simp [h]
  | toolRequest =>
    rw [hoperation] at h
    simp [show call.length ≠ 0 from h]
  | gpuRequest =>
    rw [hoperation] at h
    simp [show call.length ≠ 0 from h]
  | shutdown =>
    rw [hoperation] at h
    simp [h]

/-- **Round trip.** A sound call is decoded from its encoding. -/
theorem decode_encode {call : Hypercall} (h : call.Sound) : decode call.encode = .ok call := by
  obtain ⟨hmagic, hcode, hreserved, hsequence, hcapability, haddress, hlength, hargument, htail⟩ :
      slice call.encode 0 8 = hypercallMagic ∧
      slice call.encode 8 2 = leBytes 2 call.operation.code.toNat ∧
      slice call.encode 10 6 = zeros 6 ∧
      slice call.encode 16 8 = leBytes 8 call.sequence.toNat ∧
      slice call.encode 24 8 = leBytes 8 call.capability.token.toNat ∧
      slice call.encode 32 8 = leBytes 8 call.guestAddress.toNat ∧
      slice call.encode 40 4 = leBytes 4 call.length.toNat ∧
      slice call.encode 44 8 = leBytes 8 call.argument.toNat ∧
      slice call.encode 52 12 = zeros 12 := by
    simpa [slices, widths, fields] using call.slices_encode
  have hrest : call.encode.drop 52 = zeros 12 := by
    rw [← htail, slice, List.take_of_length_le]
    rw [List.length_drop, length_encode]
    decide
  have haccepted : ¬ (call.encode.length ≠ hypercallBytes ∨
      slice call.encode 0 8 ≠ hypercallMagic ∨ anyNonzero (slice call.encode 10 6) ∨
      anyNonzero (call.encode.drop 52)) := by
    rw [length_encode, hmagic, hreserved, hrest, anyNonzero_zeros, anyNonzero_zeros]
    decide
  rw [decode, if_neg haccepted, readU16_of_slice hcode, HypercallOperation.ofCode_code]
  dsimp only
  rw [readU64_of_slice hsequence, readU64_of_slice hcapability, readU64_of_slice haddress,
    readU32_of_slice hlength, readU64_of_slice hargument, Capability.fromToken_token]
  obtain ⟨hrequest, hyield, hshutdown⟩ := h.accepted
  rw [if_neg hrequest, if_neg hyield, if_neg hshutdown]

/-- **Round trip.** A decoded descriptor is encoded byte for byte. -/
theorem encode_decode {input : List UInt8} {call : Hypercall} (h : decode input = .ok call) :
    call.encode = input := by
  unfold decode at h
  split_ifs at h with hrefused
  simp only [not_or, ne_eq, not_not, Bool.not_eq_true] at hrefused
  obtain ⟨hlen, hmagic, hreserved, htail⟩ := hrefused
  have hbytes : input.length = 64 := hlen
  split at h
  · cases h
  · next operation hoperation =>
    dsimp only at h
    split_ifs at h
    obtain rfl := Except.ok.inj h
    have hslice : slice input 52 12 = input.drop 52 := by
      rw [slice, List.take_of_length_le]
      rw [List.length_drop, hbytes]
    rw [← hslice] at htail
    have hfields : slices input 0 widths = fields ⟨operation, readU64 input 16,
        Capability.fromToken (readU64 input 24), readU64 input 32, readU32 input 40,
        readU64 input 44⟩ := by
      unfold fields
      rw [HypercallOperation.code_of_ofCode hoperation, Capability.token_fromToken,
        leBytes_readU16 (by omega), leBytes_readU64 (by omega), leBytes_readU64 (by omega),
        leBytes_readU64 (by omega), leBytes_readU32 (by omega), leBytes_readU64 (by omega),
        ← hmagic, ← eq_zeros_of_anyNonzero (length_slice (by omega)) hreserved,
        ← eq_zeros_of_anyNonzero (length_slice (by omega)) htail]
      rfl
    rw [encode_eq, ← hfields]
    exact (eq_flatten_slices hlen).symm

/-- **Main theorem.** What the constructors build is decoded from its encoding, and an
    accepted descriptor is the encoding of what is decoded from it. -/
theorem hypercall_codec :
    (∀ call, Built call → decode call.encode = .ok call) ∧
    ∀ input call, decode input = .ok call → call.encode = input := by
  constructor
  · intro call h
    exact decode_encode h.sound
  · intro input call h
    exact encode_decode h

end Hypercall

end Mrml.Vm
