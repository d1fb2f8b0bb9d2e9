import Mrml.Common.Bytes
import Mrml.Vm.GuestMemory

/-!
# Hypercalls

Model of the hypercall descriptor and of `HypercallRouter`
(`crates/mrml-kernel/src/vm.rs`, lines 381–509, 523–536 and 607–700). A
descriptor is 64 bytes; the router accepts descriptors with consecutive sequence
numbers only.
-/

namespace Mrml.Vm

open Mrml.Kernel

/-- `HYPERCALL_BYTES` (line 3). -/
def hypercallBytes : ℕ := 64

/-- `HypercallOperation` (lines 383–388). -/
inductive HypercallOperation
  | yield
  | toolRequest
  | gpuRequest
  | shutdown
deriving DecidableEq

/-- `Hypercall` (lines 391–398). -/
structure Hypercall where
  operation : HypercallOperation
  sequence : UInt64
  capability : Capability
  guestAddress : UInt64
  length : UInt32
  argument : UInt64
deriving DecidableEq

/-- `b"MRMLHC01"`. -/
def hypercallMagic : List UInt8 := [0x4d, 0x52, 0x4d, 0x4c, 0x48, 0x43, 0x30, 0x31]

/-- The operation codes (lines 456–462). -/
def HypercallOperation.ofCode : UInt16 → Option HypercallOperation
  | 1 => some .yield
  | 2 => some .toolRequest
  | 3 => some .gpuRequest
  | 4 => some .shutdown
  | _ => none

/-- `Hypercall::decode` (lines 448–493). -/
def Hypercall.decode (input : List UInt8) : Except VmError Hypercall :=
  if input.length ≠ hypercallBytes ∨ slice input 0 8 ≠ hypercallMagic ∨
      anyNonzero (slice input 10 6) ∨ anyNonzero (input.drop 52) then
    .error .malformedHypercall
  else
    match HypercallOperation.ofCode (readU16 input 8) with
    | none => .error .unsupportedHypercall
    | some operation =>
      let length := readU32 input 40
      let capability := readU64 input 24
      let guestAddress := readU64 input 32
      let argument := readU64 input 44
      if (operation = .toolRequest ∨ operation = .gpuRequest) ∧ length = 0 then
        .error .malformedHypercall
      else if operation = .yield ∧
          (capability ≠ 0 ∨ guestAddress ≠ 0 ∨ length ≠ 0 ∨ argument ≠ 0) then
        .error .malformedHypercall
      else if operation = .shutdown ∧ (guestAddress ≠ 0 ∨ length ≠ 0 ∨ argument ≠ 0) then
        .error .malformedHypercall
      else
        .ok ⟨operation, readU64 input 16, Capability.fromToken capability, guestAddress, length,
          argument⟩

/-- `RoutedHypercall` (lines 524–536). -/
inductive RoutedHypercall
  | yield
  | tool (hostAddress : UInt64) (length : UInt32) (argument : UInt64)
  | gpu (hostAddress : UInt64) (length : UInt32) (argument : UInt64)
  | shutdown
deriving DecidableEq

/-- `HypercallRouter` (lines 607–612). -/
structure HypercallRouter where
  nextSequence : UInt64
  toolObject : ObjectId
  gpuObject : ObjectId
  controlObject : ObjectId
deriving DecidableEq

/-- `require_object` (lines 687–700). -/
def requireObject {C : ℕ} (capabilities : CapabilitySpace C) (capability : Capability)
    (rights : Rights) (expected : ObjectId) : Except VmError Unit :=
  match capabilities.authorize capability rights with
  | .error error => .error (.capability error)
  | .ok object => if object = expected then .ok () else .error .wrongObject

namespace HypercallRouter

/-- `HypercallRouter::new` (lines 615–626). -/
def new (toolObject gpuObject controlObject : ObjectId) : HypercallRouter :=
  ⟨1, toolObject, gpuObject, controlObject⟩

variable {C M : ℕ}

/-- The match of `route` on the operation (lines 637–677). -/
def routed (router : HypercallRouter) (call : Hypercall) (capabilities : CapabilitySpace C)
    (memory : GuestMemory M) : Except VmError RoutedHypercall :=
  match call.operation with
  | .yield => .ok .yield
  | .toolRequest => do
    requireObject capabilities call.capability Rights.signal router.toolObject
    let hostAddress ← memory.translate call.guestAddress call.length.toUInt64 .read
    .ok (.tool hostAddress call.length call.argument)
  | .gpuRequest => do
    requireObject capabilities call.capability Rights.signal router.gpuObject
    let hostAddress ← memory.translate call.guestAddress call.length.toUInt64 .read
    .ok (.gpu hostAddress call.length call.argument)
  | .shutdown => do
    requireObject capabilities call.capability Rights.signal router.controlObject
    .ok .shutdown

/-- `HypercallRouter::route` (lines 628–684). -/
def route (router : HypercallRouter) (call : Hypercall) (capabilities : CapabilitySpace C)
    (memory : GuestMemory M) : Except VmError RoutedHypercall × HypercallRouter :=
  if call.sequence ≠ router.nextSequence then (.error .replay, router)
  else
    match router.routed call capabilities memory with
    | .error error => (.error error, router)
    | .ok routed =>
      match checkedAdd64 router.nextSequence 1 with
      | none => (.error .sequenceExhausted, router)
      | some nextSequence => (.ok routed, { router with nextSequence })

/-- A refused call leaves the router as it was; an accepted one moves it to the
    next sequence number. -/
theorem route_cases (router : HypercallRouter) (call : Hypercall)
    (capabilities : CapabilitySpace C) (memory : GuestMemory M) :
    (∃ error, router.route call capabilities memory = (.error error, router)) ∨
    ∃ routed router', router.route call capabilities memory = (.ok routed, router') ∧
      call.sequence = router.nextSequence ∧
      router'.nextSequence.toNat = router.nextSequence.toNat + 1 := by
  unfold route
  split
  · exact .inl ⟨_, rfl⟩
  · next hsequence =>
    cases router.routed call capabilities memory with
    | error error => exact .inl ⟨_, rfl⟩
    | ok routed =>
      dsimp only
      cases hnext : checkedAdd64 router.nextSequence 1 with
      | none => exact .inl ⟨_, rfl⟩
      | some nextSequence =>
        exact .inr ⟨routed, _, rfl, not_not.mp hsequence, checkedAdd64_eq_some.mp hnext⟩

end HypercallRouter

end Mrml.Vm
