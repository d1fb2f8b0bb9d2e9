import Mrml.Boot.Records

/-!
# The boot handoff

Model of `BootHandoff::decode` and of the four handoff encoders
(`crates/mrml-kernel/src/handoff.rs`, lines 6–28, 188–689 and 747–766).

A handoff is a list of fields: a header of 168 bytes, the regions, an optional service
record, an optional pair of SMP resources and an optional MADT (`Contents.fields`).

Results:
* `handoff_roundtrip`: what an encoder accepts decodes to the same contents.
* `handoff_reencode_iff`: when the encoder gives accepted bytes back.
-/

namespace Mrml.Boot

open Mrml.Kernel

/-- `HANDOFF_HEADER_BYTES` (line 6). -/
def handoffHeaderBytes : ℕ := 168

/-- `HANDOFF_REGION_BYTES` (line 7). -/
def handoffRegionBytes : ℕ := 24

/-- `MAX_HANDOFF_REGIONS` (line 8). -/
def maxHandoffRegions : ℕ := 128

/-- `MAX_HANDOFF_MADT_BYTES` (line 9). -/
def maxHandoffMadtBytes : ℕ := 8 * 1024

/-- `HANDOFF_SERVICE_BYTES` (line 10). -/
def handoffServiceBytes : ℕ := 160

/-- `b"MRML-HANDOFF-v1\0"`. -/
def handoffMagic : List UInt8 :=
  [0x4d, 0x52, 0x4d, 0x4c, 0x2d, 0x48, 0x41, 0x4e, 0x44, 0x4f, 0x46, 0x46, 0x2d, 0x76, 0x31, 0x00]

/-- `b"APIC"`. -/
def apicMagic : List UInt8 := [0x41, 0x50, 0x49, 0x43]

/-! ## Flags -/

/-- `FLAG_SECURE_BOOT` (line 17). -/
def flagSecureBoot : UInt16 := 1

/-- `FLAG_MEASURED_BOOT` (line 18). -/
def flagMeasuredBoot : UInt16 := 2

/-- `FLAG_ROLLBACK_PROTECTED` (line 19). -/
def flagRollbackProtected : UInt16 := 4

/-- `FLAG_MADT_SNAPSHOT` (line 20). -/
def flagMadtSnapshot : UInt16 := 8

/-- `FLAG_AP_TRAMPOLINE` (line 21). -/
def flagApTrampoline : UInt16 := 16

/-- `FLAG_SERVICE_IMAGE` (line 22). -/
def flagServiceImage : UInt16 := 32

/-- `KNOWN_FLAGS` (lines 23–28). -/
def knownFlags : UInt16 :=
  flagSecureBoot ||| flagMeasuredBoot ||| flagRollbackProtected ||| flagMadtSnapshot |||
    flagApTrampoline ||| flagServiceImage

/-- The flags that `encode_handoff_inner` writes (lines 650–655). -/
def encodeFlags (secure measured rollback madt ap service : Bool) : UInt16 :=
  secure.toUInt16 * flagSecureBoot ||| measured.toUInt16 * flagMeasuredBoot |||
    rollback.toUInt16 * flagRollbackProtected ||| madt.toUInt16 * flagMadtSnapshot |||
    ap.toUInt16 * flagApTrampoline ||| service.toUInt16 * flagServiceImage

/-- A flag is set. -/
def hasFlag (flags flag : UInt16) : Bool := flags &&& flag != 0

theorem encodeFlags_known (secure measured rollback madt ap service : Bool) :
    encodeFlags secure measured rollback madt ap service &&& ~~~knownFlags = 0 := by
  revert secure measured rollback madt ap service
  decide

/-- The flags read back as they were written. -/
theorem hasFlag_encodeFlags (secure measured rollback madt ap service : Bool) :
    hasFlag (encodeFlags secure measured rollback madt ap service) flagSecureBoot = secure ∧
    hasFlag (encodeFlags secure measured rollback madt ap service) flagMeasuredBoot = measured ∧
    hasFlag (encodeFlags secure measured rollback madt ap service) flagRollbackProtected =
      rollback ∧
    hasFlag (encodeFlags secure measured rollback madt ap service) flagMadtSnapshot = madt ∧
    hasFlag (encodeFlags secure measured rollback madt ap service) flagApTrampoline = ap ∧
    hasFlag (encodeFlags secure measured rollback madt ap service) flagServiceImage = service := by
  revert secure measured rollback madt ap service
  decide

theorem toNat_lt_of_known {flags : UInt16} (h : flags &&& ~~~knownFlags = 0) :
    flags.toNat < 64 := by
  have hall : knownFlags ||| ~~~knownFlags = -1 := by decide
  have hsplit : flags &&& (knownFlags ||| ~~~knownFlags) = flags := by
    rw [hall, UInt16.and_neg_one]
  rw [← UInt16.toNat_inj, UInt16.toNat_and, UInt16.toNat_or, Nat.and_or_distrib_left,
    ← UInt16.toNat_and, ← UInt16.toNat_and, h, UInt16.toNat_zero, Nat.or_zero,
    UInt16.toNat_and] at hsplit
  rw [← hsplit]
  exact Nat.lt_of_le_of_lt Nat.and_le_right (by decide)

/-- Known flags are made of the flags that they have. -/
theorem encodeFlags_hasFlag {flags : UInt16} (h : flags &&& ~~~knownFlags = 0) :
    encodeFlags (hasFlag flags flagSecureBoot) (hasFlag flags flagMeasuredBoot)
      (hasFlag flags flagRollbackProtected) (hasFlag flags flagMadtSnapshot)
      (hasFlag flags flagApTrampoline) (hasFlag flags flagServiceImage) = flags := by
  have hall : ∀ i : Fin 64, encodeFlags (hasFlag (UInt16.ofNat i) flagSecureBoot)
      (hasFlag (UInt16.ofNat i) flagMeasuredBoot) (hasFlag (UInt16.ofNat i) flagRollbackProtected)
      (hasFlag (UInt16.ofNat i) flagMadtSnapshot) (hasFlag (UInt16.ofNat i) flagApTrampoline)
      (hasFlag (UInt16.ofNat i) flagServiceImage) = UInt16.ofNat i := by decide
  have hflags := hall ⟨flags.toNat, toNat_lt_of_known h⟩
  rwa [UInt16.ofNat_toNat] at hflags

/-! ## Checks that decoder and encoders share -/

/-- `BootHandoff` (lines 190–200). -/
structure BootHandoff where
  evidence : BootEvidence
  acpiRoot : UInt64
  framebuffer : FramebufferInfo
  regionCount : ℕ
  madtOffset : ℕ
  madtLength : ℕ
  apTrampoline : Option UInt64
  apStackArena : Option UInt64
  service : Option ServiceLaunch
deriving DecidableEq

/-- `BootHandoff::madt` (lines 219–222). -/
def BootHandoff.madt (handoff : BootHandoff) (encoded : List UInt8) : Option (List UInt8) :=
  if handoff.madtLength ≠ 0 then some (slice encoded handoff.madtOffset handoff.madtLength)
  else none

/-- `madt.iter().fold(0u8, |sum, byte| sum.wrapping_add(*byte))`. -/
def byteSum (bytes : List UInt8) : UInt8 := bytes.foldl (· + ·) 0

/-- What decoder and encoders refuse in the bytes of a MADT (lines 294–296 and 470–472). -/
def madtMalformed (madt : List UInt8) : Bool :=
  slice madt 0 4 != apicMagic || (readU32 madt 4).toNat != madt.length || byteSum madt != 0

/-- What decoder and encoders refuse in the SMP resources (lines 313–317 and 509–513). -/
def apMalformed (physical stackArena : UInt64) : Bool :=
  !(pageSize ≤ physical.toNat && physical.toNat < 0x100000) || physical.toNat % pageSize != 0 ||
    stackArena == 0 || stackArena.toNat % pageSize != 0 || stackArena >>> 52 != 0

/-- The region maps the framebuffer (lines 363–365 and 628–630). -/
def containsFramebuffer (framebuffer : FramebufferInfo) (region : MemoryRegion) : Bool :=
  region.kind == .mmio && region.start.address ≤ framebuffer.base.address &&
    region.endAddress ≥ framebuffer.endAddress

/-- The ranges that a service occupies (lines 374–382 and 748–756). -/
def storageRanges (service : ServiceLaunch) : List (PhysAddr × ℕ) :=
  [(service.artifactPhysical, service.artifactPages),
    (service.imagePhysical, service.imagePages.toNat),
    (service.stackPhysical, service.stackPages.toNat),
    (service.tablePhysical, service.tablePages.toNat)]

/-- The region reserves a range (lines 386–388 and 761–763). -/
def reservesRange (range : PhysAddr × ℕ) (region : MemoryRegion) : Bool :=
  (region.kind == .kernel || region.kind == .reserved) &&
    region.start.address ≤ range.1.address &&
    region.endAddress ≥ range.1.address.toNat + range.2 * pageSize

/-- `service_storage_is_reserved` (lines 747–766). -/
def serviceStorageIsReserved (service : ServiceLaunch) (regions : List MemoryRegion) : Bool :=
  (storageRanges service).all fun range => regions.any (reservesRange range)

/-! ## Decoding -/

/-- The SMP resources in `decode` (lines 310–324). -/
def decodeAp (input : List UInt8) (offset : ℕ) (present : Bool) :
    Except HandoffError (Option UInt64 × Option UInt64) :=
  if present then do
    let physical := readU64 input offset
    let stackArena := readU64 input (offset + 8)
    refuseIf (apMalformed physical stackArena) .nonCanonical
    return (some physical, some stackArena)
  else .ok (none, none)

/-- The service in `decode` (lines 325–329). -/
def decodeServiceAt (input : List UInt8) (offset : ℕ) (present : Bool) :
    Except HandoffError (Option ServiceLaunch) :=
  if present then do
    let service ← decodeService (slice input offset handoffServiceBytes)
    return some service
  else .ok none

/-- The match of `decode` on the pixel format (lines 330–338). -/
def decodePixelFormat : UInt8 → Except HandoffError PixelFormat
  | 0 => .ok .redGreenBlueReserved
  | 1 => .ok .blueGreenRedReserved
  | _ => .error (.invalidFramebuffer .unsupportedPixelFormat)

/-- The match of `encode_handoff_inner` on the pixel format (lines 666–669). -/
def pixelCode : PixelFormat → UInt8
  | .redGreenBlueReserved => 0
  | .blueGreenRedReserved => 1

/-- A region behind the previous one (lines 355–360). -/
def checkOrder (previous : Option MemoryRegion) (region : MemoryRegion) :
    Except HandoffError Unit :=
  match previous with
  | none => .ok ()
  | some previous => do
    refuseIf (region.start.address < previous.start.address) (.invalidMemoryMap .unsorted)
    refuseIf (region.start.address.toNat < previous.endAddress) (.invalidMemoryMap .overlap)

/-- The first region loop of `decode` (lines 349–369): whether a region maps the
    framebuffer. -/
def scanRegions (framebuffer : FramebufferInfo) (input : List UInt8) :
    ℕ → ℕ → Option MemoryRegion → Bool → Except HandoffError Bool
  | _, 0, _, found => .ok found
  | offset, count + 1, previous, found => do
    let region ← decodeRegion (slice input offset handoffRegionBytes)
    checkOrder previous region
    scanRegions framebuffer input (offset + handoffRegionBytes) count (some region)
      (found || containsFramebuffer framebuffer region)

/-- The second region loop of `decode` (lines 373–395): every range of the service is in a
    region that is decoded once more. -/
def storageContained (service : ServiceLaunch) (input : List UInt8) (regionCount : ℕ) : Bool :=
  (storageRanges service).all fun range =>
    (List.range regionCount).any fun index =>
      match decodeRegion (slice input (handoffHeaderBytes + index * handoffRegionBytes)
        handoffRegionBytes) with
      | .error _ => false
      | .ok region => reservesRange range region

/-- `BootHandoff::decode` (lines 240–420): the handoff and the regions that it emits. The
    sums of `checked_add` stay far below `usize::MAX` for at most 128 regions. -/
def decode (input : List UInt8) : Except HandoffError (BootHandoff × List MemoryRegion) := do
  refuseIf (input.length < handoffHeaderBytes) .truncated
  refuseIf (slice input 0 16 ≠ handoffMagic) .badMagic
  let encodedLength := (readU32 input 16).toNat
  let regionCount := (readU16 input 20).toNat
  let flags := readU16 input 22
  refuseIf (flags &&& ~~~knownFlags ≠ 0) .unknownFlags
  refuseIf (regionCount = 0 ∨ regionCount > maxHandoffRegions) .tooManyRegions
  let regionsEnd := handoffHeaderBytes + regionCount * handoffRegionBytes
  let madtLength := (readU16 input 165).toNat
  refuseIf (hasFlag flags flagMadtSnapshot ≠ decide (madtLength ≠ 0) ∨
    (hasFlag flags flagApTrampoline = true ∧ madtLength = 0) ∨
    madtLength > maxHandoffMadtBytes ∨ (madtLength ≠ 0 ∧ madtLength < 44) ∨
    byteAt input 167 ≠ 0) .nonCanonical
  let serviceOffset := regionsEnd
  let trampolineOffset :=
    serviceOffset + (hasFlag flags flagServiceImage).toNat * handoffServiceBytes
  let madtOffset := trampolineOffset + (hasFlag flags flagApTrampoline).toNat * 16
  let expectedLength := madtOffset + madtLength
  refuseIf (encodedLength ≠ expectedLength ∨ input.length ≠ expectedLength) .nonCanonical
  refuseIf (madtLength ≠ 0 ∧ madtMalformed (slice input madtOffset madtLength) = true)
    .nonCanonical
  let acpiRoot := readU64 input 128
  refuseIf (acpiRoot = 0) .missingAcpiRoot
  let (apTrampoline, apStackArena) ←
    decodeAp input trampolineOffset (hasFlag flags flagApTrampoline)
  let service ← decodeServiceAt input serviceOffset (hasFlag flags flagServiceImage)
  let pixelFormat ← decodePixelFormat (byteAt input 164)
  let framebuffer ← (FramebufferInfo.new (readU64 input 136) (readU64 input 144)
    (readU32 input 152) (readU32 input 156) (readU32 input 160) pixelFormat).mapError
      .invalidFramebuffer
  let framebufferIsMmio ← scanRegions framebuffer input handoffHeaderBytes regionCount none false
  refuseIf (framebufferIsMmio = false) .framebufferOutsideMmio
  refuseIf (service.any (!storageContained · input regionCount) = true) .nonCanonical
  let evidence ← (BootEvidence.new (arrayAt input 32 32) (arrayAt input 64 64) (readU64 input 24)
    (hasFlag flags flagSecureBoot) (hasFlag flags flagMeasuredBoot)
    (hasFlag flags flagRollbackProtected)).mapError .invalidBootEvidence
  let regions ← regionFormat.readRecords input handoffHeaderBytes regionCount
  return (⟨evidence, acpiRoot, framebuffer, regionCount, madtOffset, madtLength, apTrampoline,
    apStackArena, service⟩, regions)

/-! ## Encoding -/

/-- The arguments that all encoders share (lines 427–435). -/
structure BootInfo where
  imageVersion : UInt64
  entropy : Vector UInt8 32
  imageMeasurement : Vector UInt8 64
  secureBoot : Bool
  measuredBoot : Bool
  rollbackProtected : Bool
  acpiRoot : UInt64
  framebuffer : FramebufferInfo
  regions : List MemoryRegion
deriving DecidableEq

/-- The arguments of `encode_handoff_inner` (lines 586–597). -/
structure Contents extends BootInfo where
  madt : Option (List UInt8)
  apResources : Option (UInt64 × UInt64)
  service : Option ServiceLaunch
deriving DecidableEq

namespace Contents

/-- `madt_length` (line 611). -/
def madtLength (c : Contents) : ℕ := (c.madt.map List.length).getD 0

/-- `service_offset` (lines 603–613). -/
def serviceOffset (c : Contents) : ℕ := handoffHeaderBytes + c.regions.length * handoffRegionBytes

/-- `trampoline_offset` (lines 612–616). -/
def trampolineOffset (c : Contents) : ℕ :=
  c.serviceOffset + c.service.isSome.toNat * handoffServiceBytes

/-- `madt_offset` (lines 617–619). -/
def madtOffset (c : Contents) : ℕ := c.trampolineOffset + c.apResources.isSome.toNat * 16

/-- `length` (lines 620–622). -/
def length (c : Contents) : ℕ := c.madtOffset + c.madtLength

/-- `flags` (lines 650–655). -/
def flags (c : Contents) : UInt16 :=
  encodeFlags c.secureBoot c.measuredBoot c.rollbackProtected c.madt.isSome c.apResources.isSome
    c.service.isSome

/-- The checks of `encode_handoff_inner` (lines 600–645). -/
def check (c : Contents) (outputLength : ℕ) : Except HandoffError Unit := do
  refuseIf (c.regions = [] ∨ c.regions.length > maxHandoffRegions) .tooManyRegions
  refuseIf (outputLength < c.length ∨ c.imageVersion = 0 ∨ c.acpiRoot = 0) .nonCanonical
  (MemoryMap.new c.regions).mapError .invalidMemoryMap
  refuseIf (c.regions.any (containsFramebuffer c.framebuffer) = false) .framebufferOutsideMmio
  refuseIf (c.service.any (!serviceStorageIsReserved · c.regions) = true) .nonCanonical
  let _ ← (BootEvidence.new c.entropy c.imageMeasurement c.imageVersion c.secureBoot
    c.measuredBoot c.rollbackProtected).mapError .invalidBootEvidence
  return ()

/-- The SMP resources in `encode_handoff_inner` (lines 677–681). -/
def putAp (output : List UInt8) (offset : ℕ) (resources : UInt64 × UInt64) : List UInt8 :=
  let output := patch output offset (leBytes 8 resources.1.toNat)
  patch output (offset + 8) (leBytes 8 resources.2.toNat)

/-- The service in `encode_handoff_inner` (lines 682–684). -/
def putService (output : List UInt8) (offset : ℕ) (service : ServiceLaunch) : List UInt8 :=
  patch output offset (encodeService service (slice output offset handoffServiceBytes))

/-- The writes of `encode_handoff_inner` into the first `length` bytes, which it has zeroed
    before (lines 646–687). -/
def write (c : Contents) : List UInt8 :=
  let output := zeros c.length
  let output := patch output 0 handoffMagic
  let output := patch output 16 (leBytes 4 c.length)
  let output := patch output 20 (leBytes 2 c.regions.length)
  let output := patch output 22 (leBytes 2 c.flags.toNat)
  let output := patch output 24 (leBytes 8 c.imageVersion.toNat)
  let output := patch output 32 c.entropy.toList
  let output := patch output 64 c.imageMeasurement.toList
  let output := patch output 128 (leBytes 8 c.acpiRoot.toNat)
  let output := patch output 136 (leBytes 8 c.framebuffer.base.address.toNat)
  let output := patch output 144 (leBytes 8 c.framebuffer.byteLength.toNat)
  let output := patch output 152 (leBytes 4 c.framebuffer.width.toNat)
  let output := patch output 156 (leBytes 4 c.framebuffer.height.toNat)
  let output := patch output 160 (leBytes 4 c.framebuffer.stride.toNat)
  let output := patch output 164 [pixelCode c.framebuffer.format]
  let output := patch output 165 (leBytes 2 c.madtLength)
  let output := writeEach putRegion handoffRegionBytes output handoffHeaderBytes c.regions
  let output := writeOption putAp output c.trampolineOffset c.apResources
  let output := writeOption putService output c.serviceOffset c.service
  writeOption patch output c.madtOffset c.madt

end Contents

/-- `encode_handoff_inner` (lines 585–689): the result and the buffer. -/
def encodeHandoffInner (c : Contents) (output : List UInt8) : Except HandoffError ℕ × List UInt8 :=
  match c.check output.length with
  | .error error => (.error error, output)
  | .ok () => (.ok c.length, c.write ++ output.drop c.length)

/-- What `encode_handoff_with_madt` refuses (lines 469–472). -/
def madtRefused (madt : List UInt8) : Bool :=
  !(44 ≤ madt.length && madt.length ≤ maxHandoffMadtBytes) || madtMalformed madt

/-- `encode_handoff` (lines 426–453). -/
def encodeHandoff (info : BootInfo) (output : List UInt8) : Except HandoffError ℕ × List UInt8 :=
  encodeHandoffInner ⟨info, none, none, none⟩ output

/-- `encode_handoff_with_madt` (lines 456–491). -/
def encodeHandoffWithMadt (info : BootInfo) (madt output : List UInt8) :
    Except HandoffError ℕ × List UInt8 :=
  if madtRefused madt then (.error .nonCanonical, output)
  else encodeHandoffInner ⟨info, some madt, none, none⟩ output

/-- `encode_handoff_with_smp` (lines 494–536). -/
def encodeHandoffWithSmp (info : BootInfo) (apTrampoline apStackArena : UInt64)
    (madt output : List UInt8) : Except HandoffError ℕ × List UInt8 :=
  if apMalformed apTrampoline apStackArena || madtRefused madt then (.error .nonCanonical, output)
  else encodeHandoffInner ⟨info, some madt, some (apTrampoline, apStackArena), none⟩ output

/-- `encode_handoff_with_smp_and_service` (lines 539–582). -/
def encodeHandoffWithSmpAndService (info : BootInfo) (apTrampoline apStackArena : UInt64)
    (service : ServiceLaunch) (madt output : List UInt8) : Except HandoffError ℕ × List UInt8 :=
  if apMalformed apTrampoline apStackArena || madtRefused madt then (.error .nonCanonical, output)
  else
    encodeHandoffInner ⟨info, some madt, some (apTrampoline, apStackArena), some service⟩ output

/-! ## The layout -/

theorem slice_ap (resources : UInt64 × UInt64) :
    slice (leBytes 8 resources.1.toNat ++ leBytes 8 resources.2.toNat) 0 8 =
      leBytes 8 resources.1.toNat ∧
    slice (leBytes 8 resources.1.toNat ++ leBytes 8 resources.2.toNat) 8 8 =
      leBytes 8 resources.2.toNat := by
  have h := slices_flatten [leBytes 8 resources.1.toNat, leBytes 8 resources.2.toNat]
  simpa [slices] using h

/-- The SMP resources as a record. -/
def apFormat : RecordFormat HandoffError (UInt64 × UInt64) where
  width := 16
  write resources := leBytes 8 resources.1.toNat ++ leBytes 8 resources.2.toNat
  read record := .ok (readU64 record 0, readU64 record 8)
  length_write resources := by simp
  read_write resources := by
    rw [readU64_of_slice (slice_ap resources).1, readU64_of_slice (slice_ap resources).2]
  write_read := by
    intro record resources hlen h
    obtain rfl := Except.ok.inj h
    rw [leBytes_readU64 (by omega), leBytes_readU64 (by omega), ← slice_add, slice,
      List.drop_zero, List.take_of_length_le (Nat.le_of_eq hlen)]

@[simp] theorem apFormat_width : apFormat.width = 16 := rfl

theorem length_toList {α : Type} (x : Option α) : x.toList.length = x.isSome.toNat := by
  cases x <;> rfl

namespace Contents

/-- The fields of a handoff. -/
def fields (c : Contents) : List (List UInt8) :=
  [handoffMagic, leBytes 4 c.length, leBytes 2 c.regions.length, leBytes 2 c.flags.toNat,
    leBytes 8 c.imageVersion.toNat, c.entropy.toList, c.imageMeasurement.toList,
    leBytes 8 c.acpiRoot.toNat, leBytes 8 c.framebuffer.base.address.toNat,
    leBytes 8 c.framebuffer.byteLength.toNat, leBytes 4 c.framebuffer.width.toNat,
    leBytes 4 c.framebuffer.height.toNat, leBytes 4 c.framebuffer.stride.toNat,
    [pixelCode c.framebuffer.format], leBytes 2 c.madtLength, zeros 1,
    regionFormat.writeRecords c.regions, serviceFormat.writeRecords c.service.toList,
    apFormat.writeRecords c.apResources.toList, c.madt.getD []]

/-- The bytes of a handoff. -/
def wire (c : Contents) : List UInt8 := c.fields.flatten

/-- The widths of the fields, for given numbers of regions, services and SMP resources and a
    given length of the MADT. -/
def widths (regions services aps madt : ℕ) : List ℕ :=
  [16, 4, 2, 2, 8, 32, 64, 8, 8, 8, 4, 4, 4, 1, 2, 1, regions * 24, services * 160, aps * 16, madt]

theorem sum_widths (regions services aps madt : ℕ) : (widths regions services aps madt).sum =
    168 + regions * 24 + services * 160 + aps * 16 + madt := by
  simp only [widths, List.sum_cons, List.sum_nil]
  omega

theorem length_madt_getD (c : Contents) : (c.madt.getD []).length = c.madtLength := by
  unfold madtLength
  cases c.madt <;> rfl

/-- The widths of the fields of a handoff. -/
def ownWidths (c : Contents) : List ℕ :=
  widths c.regions.length c.service.isSome.toNat c.apResources.isSome.toNat c.madtLength

theorem map_length_fields (c : Contents) : c.fields.map List.length = c.ownWidths := by
  simp [fields, ownWidths, widths, handoffMagic, length_madt_getD, length_toList]

theorem length_eq (c : Contents) : c.length = c.ownWidths.sum := by
  rw [ownWidths, sum_widths]
  rfl

theorem length_wire (c : Contents) : c.wire.length = c.length := by
  rw [wire, List.length_flatten, map_length_fields, length_eq]

theorem putAp_zeros (pre post : List UInt8) (resources : UInt64 × UInt64) :
    putAp (pre ++ (zeros 16 ++ post)) pre.length resources =
      pre ++ (apFormat.write resources ++ post) := by
  have hbuffer : pre ++ (zeros 16 ++ post) = [pre, zeros 8, zeros 8, post].flatten := by
    simp [zeros]
  rw [hbuffer]
  refine (foldl_patch_flatten _ [pre.length, 8, 8, post.length] (by simp)
    [(1, leBytes 8 resources.1.toNat), (2, leBytes 8 resources.2.toNat)] (by simp)).trans ?_
  simp [apFormat]

theorem putService_zeros (pre post : List UInt8) (service : ServiceLaunch) :
    putService (pre ++ (zeros 160 ++ post)) pre.length service =
      pre ++ (serviceFormat.write service ++ post) := by
  have hslice : slice (pre ++ (zeros 160 ++ post)) pre.length handoffServiceBytes = zeros 160 := by
    have h := slice_append pre (zeros 160) post
    rwa [length_zeros] at h
  rw [putService, hslice, encodeService_zeros, patch_append]
  rw [length_zeros, serviceFormat.length_write, serviceFormat_width]

/-- The MADT fills in its field. -/
theorem writeOption_patch (pre : List UInt8) (madt : Option (List UInt8)) :
    writeOption patch (pre ++ zeros ((madt.map List.length).getD 0)) pre.length madt =
      pre ++ madt.getD [] := by
  cases madt with
  | none => rfl
  | some madt =>
    have h := patch_append pre [] (length_zeros madt.length)
    rwa [List.append_nil, List.append_nil] at h

/-- The writes behind the header fill in the regions and the optional sections. -/
theorem write_sections (c : Contents) (header : List UInt8) (hheader : header.length = 168) :
    writeOption patch (writeOption putService (writeOption putAp (writeEach putRegion 24
      [header, zeros (c.regions.length * 24), zeros (c.service.isSome.toNat * 160),
        zeros (c.apResources.isSome.toNat * 16), zeros c.madtLength].flatten 168 c.regions)
      c.trampolineOffset c.apResources) c.serviceOffset c.service) c.madtOffset c.madt =
    [header, regionFormat.writeRecords c.regions, serviceFormat.writeRecords c.service.toList,
      apFormat.writeRecords c.apResources.toList, c.madt.getD []].flatten := by
  have hregions := regionFormat.length_writeRecords c.regions
  rw [writeEach_flatten putRegion_zeros regionFormat.length_write (i := 1) (by simp)
    (by simp [hheader]) rfl]
  show writeOption patch (writeOption putService (writeOption putAp
    [header, regionFormat.writeRecords c.regions, zeros (c.service.isSome.toNat * 160),
      zeros (c.apResources.isSome.toNat * 16), zeros c.madtLength].flatten _ _) _ _) _ _ = _
  rw [writeOption_eq putAp 16, writeEach_flatten putAp_zeros apFormat.length_write (i := 3)
    (by simp) (by simp [hheader, trampolineOffset, serviceOffset, handoffHeaderBytes,
      handoffRegionBytes, handoffServiceBytes]; omega) (by rw [length_toList]; rfl)]
  show writeOption patch (writeOption putService
    [header, regionFormat.writeRecords c.regions, zeros (c.service.isSome.toNat * 160),
      apFormat.writeRecords c.apResources.toList, zeros c.madtLength].flatten _ _) _ _ = _
  rw [writeOption_eq putService 160, writeEach_flatten putService_zeros serviceFormat.length_write
    (i := 2) (by simp) (by simp [hheader, serviceOffset, handoffHeaderBytes, handoffRegionBytes])
    (by rw [length_toList]; rfl)]
  show writeOption patch
    [header, regionFormat.writeRecords c.regions, serviceFormat.writeRecords c.service.toList,
      apFormat.writeRecords c.apResources.toList, zeros c.madtLength].flatten _ _ = _
  have hmadt := writeOption_patch [header, regionFormat.writeRecords c.regions,
    serviceFormat.writeRecords c.service.toList,
    apFormat.writeRecords c.apResources.toList].flatten c.madt
  have hoffset : [header, regionFormat.writeRecords c.regions,
      serviceFormat.writeRecords c.service.toList,
      apFormat.writeRecords c.apResources.toList].flatten.length = c.madtOffset := by
    simp [hheader, madtOffset, trampolineOffset, serviceOffset, handoffHeaderBytes,
      handoffRegionBytes, handoffServiceBytes, length_toList]
    omega
  rw [hoffset] at hmadt
  simpa [madtLength] using hmadt

/-- The writes of the encoders fill in the fields. -/
theorem write_eq (c : Contents) : c.write = c.wire := by
  have hbuffer : zeros c.length = (c.ownWidths.map zeros).flatten := by
    rw [flatten_zeros, length_eq]
  have hheader := foldl_patch_flatten (c.ownWidths.map zeros) c.ownWidths
    (by simp [ownWidths, widths])
    [(0, handoffMagic), (1, leBytes 4 c.length), (2, leBytes 2 c.regions.length),
      (3, leBytes 2 c.flags.toNat), (4, leBytes 8 c.imageVersion.toNat), (5, c.entropy.toList),
      (6, c.imageMeasurement.toList), (7, leBytes 8 c.acpiRoot.toNat),
      (8, leBytes 8 c.framebuffer.base.address.toNat),
      (9, leBytes 8 c.framebuffer.byteLength.toNat), (10, leBytes 4 c.framebuffer.width.toNat),
      (11, leBytes 4 c.framebuffer.height.toNat), (12, leBytes 4 c.framebuffer.stride.toNat),
      (13, [pixelCode c.framebuffer.format]), (14, leBytes 2 c.madtLength)]
    (by simp [ownWidths, widths, handoffMagic])
  rw [← hbuffer] at hheader
  simp only [ownWidths, widths, List.map_cons, List.map_nil, List.foldl_cons, List.foldl_nil,
    List.take_succ_cons, List.take_zero, List.sum_cons, List.sum_nil, Nat.reduceAdd,
    List.set_cons_succ, List.set_cons_zero] at hheader
  have hsections := c.write_sections (c.fields.take 16).flatten
    (by simp [fields, handoffMagic])
  unfold write
  dsimp only
  rw [hheader]
  refine Eq.trans ?_ (hsections.trans ?_)
  · simp [fields, handoffRegionBytes, handoffHeaderBytes]
  · simp [fields, wire]

end Contents

/-! ## The region loops -/

theorem checkOrder_eq_ok {previous : Option MemoryRegion} {region : MemoryRegion}
    {regions : List MemoryRegion} :
    (checkOrder previous region = .ok () ∧ (region :: regions).IsChain MemoryRegion.Before) ↔
      (previous.toList ++ region :: regions).IsChain MemoryRegion.Before := by
  cases previous with
  | none => simp [checkOrder]
  | some previous =>
    simp [checkOrder, bind_eq_ok, refuseIf_eq_ok, MemoryRegion.Before]

/-- The first region loop goes through if the regions decode in ascending order. -/
theorem scanRegions_eq_ok {framebuffer : FramebufferInfo} {input : List UInt8} {offset count : ℕ}
    {previous : Option MemoryRegion} {found r : Bool} :
    scanRegions framebuffer input offset count previous found = .ok r ↔
      ∃ regions, regionFormat.readRecords input offset count = .ok regions ∧
        (previous.toList ++ regions).IsChain MemoryRegion.Before ∧
        r = (found || regions.any (containsFramebuffer framebuffer)) := by
  induction count generalizing offset previous found with
  | zero =>
    cases previous <;> simp [scanRegions, RecordFormat.readRecords, eq_comm]
  | succ count ih =>
    constructor
    · intro h
      obtain ⟨region, hregion, h⟩ := bind_eq_ok.mp h
      obtain ⟨_, horder, h⟩ := bind_eq_ok.mp h
      obtain ⟨regions, hread, hchain, rfl⟩ := ih.mp h
      refine ⟨region :: regions, ?_, checkOrder_eq_ok.mp ⟨horder, hchain⟩, ?_⟩
      · exact bind_eq_ok.mpr ⟨region, hregion, bind_eq_ok.mpr ⟨regions, hread, rfl⟩⟩
      · rw [List.any_cons, Bool.or_assoc]
    · rintro ⟨regions, hread, hchain, rfl⟩
      obtain ⟨region, hregion, hread⟩ := bind_eq_ok.mp hread
      obtain ⟨rest, hrest, hread⟩ := bind_eq_ok.mp hread
      obtain rfl := Except.ok.inj hread
      obtain ⟨horder, hchain⟩ := checkOrder_eq_ok.mpr hchain
      refine bind_eq_ok.mpr ⟨region, hregion, bind_eq_ok.mpr ⟨(), horder, ih.mpr ?_⟩⟩
      exact ⟨rest, hrest, hchain, by rw [List.any_cons, Bool.or_assoc]⟩

/-- The second region loop looks at the decoded regions. -/
theorem any_decodeRegion {input : List UInt8} {offset count : ℕ} {regions : List MemoryRegion}
    (h : regionFormat.readRecords input offset count = .ok regions) (p : MemoryRegion → Bool) :
    ((List.range count).any fun index =>
      match decodeRegion (slice input (offset + index * handoffRegionBytes)
        handoffRegionBytes) with
      | .error _ => false
      | .ok region => p region) = regions.any p := by
  induction count generalizing offset regions with
  | zero =>
    obtain rfl := Except.ok.inj h
    rfl
  | succ count ih =>
    obtain ⟨region, hregion, h⟩ := bind_eq_ok.mp h
    obtain ⟨rest, hrest, h⟩ := bind_eq_ok.mp h
    obtain rfl := Except.ok.inj h
    replace hregion : decodeRegion (slice input (offset + 0 * handoffRegionBytes)
      handoffRegionBytes) = .ok region := by
      rw [Nat.zero_mul]
      exact hregion
    rw [List.range_succ_eq_map, List.any_cons, List.any_cons, hregion, ← ih hrest, List.any_map]
    congr 2
    funext index
    show _ = (match decodeRegion (slice input (offset + 24 + index * 24) 24) with
      | .error _ => false
      | .ok region => p region)
    rw [show offset + 24 + index * 24 = offset + (index + 1) * 24 by omega]
    rfl

theorem storageContained_eq {input : List UInt8} {count : ℕ} {regions : List MemoryRegion}
    (h : regionFormat.readRecords input handoffHeaderBytes count = .ok regions)
    (service : ServiceLaunch) :
    storageContained service input count = serviceStorageIsReserved service regions := by
  unfold storageContained serviceStorageIsReserved
  congr 1
  funext range
  exact any_decodeRegion h (reservesRange range)

/-! ## Well-formed contents -/

/-- What the decoder accepts. -/
structure Contents.WellFormed (c : Contents) : Prop where
  nonempty : c.regions ≠ []
  count_le : c.regions.length ≤ maxHandoffRegions
  sorted : c.regions.IsChain MemoryRegion.Before
  acpiRoot : c.acpiRoot ≠ 0
  framebuffer : c.regions.any (containsFramebuffer c.framebuffer) = true
  service : ∀ service ∈ c.service, serviceStorageIsReserved service c.regions = true
  evidence : checkEvidence c.entropy c.imageMeasurement = .ok ()
  madt : ∀ madt ∈ c.madt, madtRefused madt = false
  ap : ∀ resources ∈ c.apResources, apMalformed resources.1 resources.2 = false ∧ c.madt.isSome

/-- The contents that a handoff and its regions have. -/
def BootHandoff.contents (handoff : BootHandoff) (regions : List MemoryRegion)
    (encoded : List UInt8) : Contents where
  imageVersion := handoff.evidence.imageVersion
  entropy := handoff.evidence.entropy
  imageMeasurement := handoff.evidence.imageMeasurement
  secureBoot := handoff.evidence.secureBoot
  measuredBoot := handoff.evidence.measuredBoot
  rollbackProtected := handoff.evidence.rollbackProtected
  acpiRoot := handoff.acpiRoot
  framebuffer := handoff.framebuffer
  regions
  madt := handoff.madt encoded
  apResources := handoff.apTrampoline.bind fun physical =>
    handoff.apStackArena.map fun stackArena => (physical, stackArena)
  service := handoff.service

namespace Contents

variable {c : Contents}

theorem madtRefused_eq_false {madt : List UInt8} : madtRefused madt = false ↔
    44 ≤ madt.length ∧ madt.length ≤ maxHandoffMadtBytes ∧ madtMalformed madt = false := by
  simp [madtRefused, and_assoc]

/-- The MADT is told from its length. -/
theorem WellFormed.madtLength_ne (hc : c.WellFormed) :
    c.madt.isSome = decide (c.madtLength ≠ 0) := by
  unfold madtLength
  cases hmadt : c.madt with
  | none => rfl
  | some madt =>
    have := (madtRefused_eq_false.mp (hc.madt madt hmadt)).1
    show true = decide (madt.length ≠ 0)
    rw [decide_eq_true (by omega)]

theorem WellFormed.madtLength_le (hc : c.WellFormed) :
    c.madtLength ≤ maxHandoffMadtBytes ∧ (c.madtLength ≠ 0 → 44 ≤ c.madtLength) := by
  unfold madtLength
  cases hmadt : c.madt with
  | none => exact ⟨Nat.zero_le _, fun h => (h rfl).elim⟩
  | some madt =>
    obtain ⟨hmin, hmax, -⟩ := madtRefused_eq_false.mp (hc.madt madt hmadt)
    exact ⟨hmax, fun _ => hmin⟩

/-- The header checks on the MADT and the padding. -/
theorem WellFormed.madtFlags (hc : c.WellFormed) {padding : UInt8} (hpadding : padding = 0) :
    ¬ (c.madt.isSome ≠ decide (c.madtLength ≠ 0) ∨
      (c.apResources.isSome = true ∧ c.madtLength = 0) ∨ c.madtLength > maxHandoffMadtBytes ∨
      (c.madtLength ≠ 0 ∧ c.madtLength < 44) ∨ padding ≠ 0) := by
  obtain ⟨hmax, hmin⟩ := hc.madtLength_le
  rintro (h | ⟨hap, hzero⟩ | h | ⟨hne, h⟩ | h)
  · exact h hc.madtLength_ne
  · obtain ⟨resources, hresources⟩ := Option.isSome_iff_exists.mp hap
    have hsome := (hc.ap resources hresources).2
    rw [hc.madtLength_ne, decide_eq_true_eq] at hsome
    exact hsome hzero
  · omega
  · have := hmin hne
    omega
  · exact h hpadding

theorem WellFormed.madt_accepted (hc : c.WellFormed) {madt : List UInt8}
    (hmadt : madt = c.madt.getD []) : ¬ (c.madtLength ≠ 0 ∧ madtMalformed madt = true) := by
  rintro ⟨hne, h⟩
  rw [← decide_eq_true_eq (p := c.madtLength ≠ 0), ← hc.madtLength_ne] at hne
  obtain ⟨table, htable⟩ := Option.isSome_iff_exists.mp hne
  rw [hmadt, htable, Option.getD_some,
    (madtRefused_eq_false.mp (hc.madt table htable)).2.2] at h
  cases h

/-- The handoff of well-formed contents. -/
def WellFormed.handoff (hc : c.WellFormed) : BootHandoff where
  evidence := ⟨c.entropy, c.imageMeasurement, c.imageVersion, c.secureBoot, c.measuredBoot,
    c.rollbackProtected, hc.evidence⟩
  acpiRoot := c.acpiRoot
  framebuffer := c.framebuffer
  regionCount := c.regions.length
  madtOffset := c.madtOffset
  madtLength := c.madtLength
  apTrampoline := c.apResources.map Prod.fst
  apStackArena := c.apResources.map Prod.snd
  service := c.service

theorem WellFormed.contents_handoff (hc : c.WellFormed) {encoded : List UInt8}
    (hmadt : slice encoded c.madtOffset c.madtLength = c.madt.getD []) :
    hc.handoff.contents c.regions encoded = c := by
  have hown : hc.handoff.madt encoded = c.madt := by
    have hsome := hc.madtLength_ne
    show (if c.madtLength ≠ 0 then some (slice encoded c.madtOffset c.madtLength) else none) = _
    rw [hmadt]
    cases htable : c.madt with
    | none =>
      rw [htable, eq_comm, Option.isSome_none, decide_eq_false_iff_not] at hsome
      rw [if_neg hsome]
    | some table =>
      rw [htable, eq_comm, Option.isSome_some, decide_eq_true_eq] at hsome
      rw [if_pos hsome, Option.getD_some]
  have hap : ((c.apResources.map Prod.fst).bind fun physical =>
      (c.apResources.map Prod.snd).map fun stackArena => (physical, stackArena)) =
      c.apResources := by
    cases c.apResources <;> rfl
  unfold BootHandoff.contents
  rw [hown]
  show Contents.mk _ _ ((c.apResources.map Prod.fst).bind fun physical =>
      (c.apResources.map Prod.snd).map fun stackArena => (physical, stackArena)) _ = c
  rw [hap]
  rfl

/-- A well-formed handoff is a few kilobytes long. -/
theorem WellFormed.length_lt (hc : c.WellFormed) : c.length < 2 ^ 32 := by
  have hcount := hc.count_le
  have hmadt := hc.madtLength_le.1
  have hservice := c.service.isSome.toNat_le
  have hap := c.apResources.isSome.toNat_le
  rw [length_eq, ownWidths, sum_widths]
  unfold maxHandoffRegions at hcount
  unfold maxHandoffMadtBytes at hmadt
  omega

theorem storageIsReserved_iff {service : Option ServiceLaunch} {p : ServiceLaunch → Bool} :
    ¬ service.any (!p ·) = true ↔ ∀ launch ∈ service, p launch = true := by
  cases service <;> simp

/-- The checks of the encoder. -/
theorem check_eq_ok {outputLength : ℕ} : c.check outputLength = .ok () ↔
    c.length ≤ outputLength ∧ c.imageVersion ≠ 0 ∧ c.regions ≠ [] ∧
    c.regions.length ≤ maxHandoffRegions ∧ c.regions.IsChain MemoryRegion.Before ∧
    c.acpiRoot ≠ 0 ∧ c.regions.any (containsFramebuffer c.framebuffer) = true ∧
    (∀ service ∈ c.service, serviceStorageIsReserved service c.regions = true) ∧
    checkEvidence c.entropy c.imageMeasurement = .ok () := by
  constructor
  · intro h
    obtain ⟨_, hcount, h⟩ := bind_eq_ok.mp h
    obtain ⟨_, hfields, h⟩ := bind_eq_ok.mp h
    obtain ⟨_, hmap, h⟩ := bind_eq_ok.mp h
    obtain ⟨_, hframebuffer, h⟩ := bind_eq_ok.mp h
    obtain ⟨_, hservice, h⟩ := bind_eq_ok.mp h
    obtain ⟨evidence, hevidence, -⟩ := bind_eq_ok.mp h
    obtain ⟨hnonempty, hcount⟩ := not_or.mp (refuseIf_eq_ok.mp hcount)
    obtain ⟨hlength, hfields⟩ := not_or.mp (refuseIf_eq_ok.mp hfields)
    obtain ⟨hversion, hacpi⟩ := not_or.mp hfields
    obtain ⟨hentropy, hmeasurement, -⟩ := BootEvidence.new_eq_ok.mp (mapError_eq_ok.mp hevidence)
    refine ⟨Nat.not_lt.mp hlength, hversion, hnonempty, Nat.not_lt.mp hcount,
      (MemoryMap.new_eq_ok.mp (mapError_eq_ok.mp hmap)).2, hacpi,
      Bool.eq_true_of_not_eq_false (refuseIf_eq_ok.mp hframebuffer), ?_, ?_⟩
    · exact storageIsReserved_iff.mp (refuseIf_eq_ok.mp hservice)
    · rw [← hentropy, ← hmeasurement]
      exact evidence.checked
  · rintro ⟨hlength, hversion, hnonempty, hcount, hsorted, hacpi, hframebuffer, hservice, hevidence⟩
    refine bind_eq_ok.mpr ⟨(), refuseIf_eq_ok.mpr ?_, ?_⟩
    · exact not_or.mpr ⟨hnonempty, Nat.not_lt.mpr hcount⟩
    refine bind_eq_ok.mpr ⟨(), refuseIf_eq_ok.mpr ?_, ?_⟩
    · exact not_or.mpr ⟨Nat.not_lt.mpr hlength, not_or.mpr ⟨hversion, hacpi⟩⟩
    refine bind_eq_ok.mpr ⟨(), mapError_eq_ok.mpr ?_, ?_⟩
    · exact MemoryMap.new_eq_ok.mpr ⟨hnonempty, hsorted⟩
    refine bind_eq_ok.mpr ⟨(), refuseIf_eq_ok.mpr ?_, ?_⟩
    · rw [hframebuffer]
      exact Bool.noConfusion
    refine bind_eq_ok.mpr ⟨(), refuseIf_eq_ok.mpr ?_, ?_⟩
    · exact storageIsReserved_iff.mpr hservice
    exact bind_eq_ok.mpr ⟨⟨_, _, _, _, _, _, hevidence⟩,
      mapError_eq_ok.mpr (BootEvidence.new_eq_ok.mpr ⟨rfl, rfl, rfl, rfl, rfl, rfl⟩), rfl⟩

/-- Every field is found at its offset. -/
theorem slice_wire (c : Contents) :
    (slice c.wire 0 16 = handoffMagic ∧ slice c.wire 16 4 = leBytes 4 c.length ∧
      slice c.wire 20 2 = leBytes 2 c.regions.length ∧
      slice c.wire 22 2 = leBytes 2 c.flags.toNat ∧
      slice c.wire 24 8 = leBytes 8 c.imageVersion.toNat ∧
      slice c.wire 32 32 = c.entropy.toList ∧ slice c.wire 64 64 = c.imageMeasurement.toList ∧
      slice c.wire 128 8 = leBytes 8 c.acpiRoot.toNat) ∧
    (slice c.wire 136 8 = leBytes 8 c.framebuffer.base.address.toNat ∧
      slice c.wire 144 8 = leBytes 8 c.framebuffer.byteLength.toNat ∧
      slice c.wire 152 4 = leBytes 4 c.framebuffer.width.toNat ∧
      slice c.wire 156 4 = leBytes 4 c.framebuffer.height.toNat ∧
      slice c.wire 160 4 = leBytes 4 c.framebuffer.stride.toNat ∧
      slice c.wire 164 1 = [pixelCode c.framebuffer.format] ∧
      slice c.wire 165 2 = leBytes 2 c.madtLength ∧ slice c.wire 167 1 = zeros 1) ∧
    slice c.wire handoffHeaderBytes (c.regions.length * 24) =
      regionFormat.writeRecords c.regions ∧
    slice c.wire c.serviceOffset (c.service.isSome.toNat * 160) =
      serviceFormat.writeRecords c.service.toList ∧
    slice c.wire c.trampolineOffset (c.apResources.isSome.toNat * 16) =
      apFormat.writeRecords c.apResources.toList ∧
    slice c.wire c.madtOffset c.madtLength = c.madt.getD [] := by
  have h := slices_flatten c.fields
  rw [map_length_fields, ← wire] at h
  generalize c.wire = input at h
  simp only [ownWidths, widths, slices, fields, List.cons.injEq, and_true, Nat.zero_add,
    Nat.reduceAdd] at h
  simp only [madtOffset, trampolineOffset, serviceOffset, handoffHeaderBytes, handoffRegionBytes,
    handoffServiceBytes]
  simp only [h, and_self]

theorem pixelCode_decode (format : PixelFormat) :
    decodePixelFormat (pixelCode format) = .ok format := by
  cases format <;> rfl

theorem pixelCode_of_decode {code : UInt8} {format : PixelFormat}
    (h : decodePixelFormat code = .ok format) : pixelCode format = code := by
  unfold decodePixelFormat at h
  split at h
  · exact Except.ok.inj h ▸ rfl
  · exact Except.ok.inj h ▸ rfl
  · cases h

theorem decodeAp_of_slice {input : List UInt8} {offset : ℕ} {resources : Option (UInt64 × UInt64)}
    (h : slice input offset (resources.isSome.toNat * 16) =
      apFormat.writeRecords resources.toList)
    (hvalid : ∀ pair ∈ resources, apMalformed pair.1 pair.2 = false) :
    decodeAp input offset resources.isSome =
      .ok (resources.map Prod.fst, resources.map Prod.snd) := by
  cases resources with
  | none => rfl
  | some resources =>
    have hrecord : slice input offset 16 =
        leBytes 8 resources.1.toNat ++ leBytes 8 resources.2.toNat := by
      simpa [RecordFormat.writeRecords, apFormat] using h
    have hinner : ∀ off, off + 8 ≤ 16 → slice (slice input offset 16) off 8 =
        slice input (offset + off) 8 := fun off hoff => slice_slice hoff
    have hphysical : slice input offset 8 = leBytes 8 resources.1.toNat := by
      have hslice := hinner 0 (by decide)
      rw [hrecord, (slice_ap resources).1] at hslice
      exact hslice.symm
    have harena : slice input (offset + 8) 8 = leBytes 8 resources.2.toNat := by
      rw [← hinner 8 (by decide), hrecord, (slice_ap resources).2]
    refine bind_eq_ok.mpr ⟨(), refuseIf_eq_ok.mpr ?_, ?_⟩
    · rw [readU64_of_slice hphysical, readU64_of_slice harena, hvalid resources rfl]
      exact Bool.false_ne_true
    · rw [readU64_of_slice hphysical, readU64_of_slice harena]
      rfl

theorem decodeServiceAt_of_slice {input : List UInt8} {offset : ℕ} {service : Option ServiceLaunch}
    (h : slice input offset (service.isSome.toNat * 160) =
      serviceFormat.writeRecords service.toList) :
    decodeServiceAt input offset service.isSome = .ok service := by
  cases service with
  | none => rfl
  | some service =>
    have hrecord : slice input offset handoffServiceBytes = serviceFormat.write service := by
      simpa [RecordFormat.writeRecords, handoffServiceBytes] using h
    show (decodeService (slice input offset handoffServiceBytes) >>= _) = _
    rw [hrecord]
    exact bind_eq_ok.mpr ⟨service, serviceFormat.read_write service, rfl⟩

/-- Well-formed contents decode from their fields. -/
theorem decode_wire (hc : c.WellFormed) : ∃ handoff, decode c.wire = .ok (handoff, c.regions) ∧
    handoff.contents c.regions c.wire = c ∧ handoff.regionCount = c.regions.length := by
  obtain ⟨⟨hmagic, hlength, hcount, hflags, hversion, hentropy, hmeasurement, hacpi⟩,
    ⟨hbase, hbytes, hwidth, hheight, hstride, hpixel, hmadtLength, hzero⟩, hregions, hservice, hap,
    hmadt⟩ := c.slice_wire
  have hn : (readU16 c.wire 20).toNat = c.regions.length := by
    have := hc.count_le
    unfold maxHandoffRegions at this
    rw [readU16, hcount, leNat_leBytes, UInt16.toNat_ofNat']
    omega
  have hm : (readU16 c.wire 165).toNat = c.madtLength := by
    have := hc.madtLength_le.1
    unfold maxHandoffMadtBytes at this
    rw [readU16, hmadtLength, leNat_leBytes, UInt16.toNat_ofNat']
    omega
  have hl : (readU32 c.wire 16).toNat = c.length := by
    have := hc.length_lt
    rw [readU32, hlength, leNat_leBytes, UInt32.toNat_ofNat']
    omega
  have hf : readU16 c.wire 22 = c.flags := readU16_of_slice hflags
  obtain ⟨hsecure, hmeasured, hrollback, hflagMadt, hflagAp, hflagService⟩ :=
    hasFlag_encodeFlags c.secureBoot c.measuredBoot c.rollbackProtected c.madt.isSome
      c.apResources.isSome c.service.isSome
  rw [← flags] at hsecure hmeasured hrollback hflagMadt hflagAp hflagService
  have hread : regionFormat.readRecords c.wire handoffHeaderBytes c.regions.length =
      .ok c.regions := regionFormat.readRecords_writeRecords hregions
  refine ⟨hc.handoff, ?_, ?_, rfl⟩
  · unfold decode
    simp only [hn, hm, hl, hf, hsecure, hmeasured, hrollback, hflagMadt, hflagAp, hflagService,
      readU64_of_slice hversion, readU64_of_slice hacpi, readU64_of_slice hbase,
      readU64_of_slice hbytes, readU32_of_slice hwidth, readU32_of_slice hheight,
      readU32_of_slice hstride, arrayAt_of_slice hentropy, arrayAt_of_slice hmeasurement,
      byteAt_of_slice hpixel, hmagic, c.length_wire]
    refine bind_eq_ok.mpr ⟨(), refuseIf_eq_ok.mpr ?_, ?_⟩
    · rw [length_eq, ownWidths, sum_widths, handoffHeaderBytes]
      omega
    refine bind_eq_ok.mpr ⟨(), refuseIf_eq_ok.mpr (not_not.mpr rfl), ?_⟩
    refine bind_eq_ok.mpr ⟨(), refuseIf_eq_ok.mpr ?_, ?_⟩
    · exact not_not.mpr (encodeFlags_known _ _ _ _ _ _)
    refine bind_eq_ok.mpr ⟨(), refuseIf_eq_ok.mpr ?_, ?_⟩
    · exact not_or.mpr ⟨fun h => hc.nonempty (List.length_eq_zero_iff.mp h),
        Nat.not_lt.mpr hc.count_le⟩
    refine bind_eq_ok.mpr ⟨(), refuseIf_eq_ok.mpr (hc.madtFlags
      (byteAt_of_slice (b := 0) hzero)), ?_⟩
    refine bind_eq_ok.mpr ⟨(), refuseIf_eq_ok.mpr ?_, ?_⟩
    · exact not_or.mpr ⟨not_not.mpr rfl, not_not.mpr rfl⟩
    refine bind_eq_ok.mpr ⟨(), refuseIf_eq_ok.mpr ?_, ?_⟩
    · exact hc.madt_accepted hmadt
    refine bind_eq_ok.mpr ⟨(), refuseIf_eq_ok.mpr hc.acpiRoot, ?_⟩
    refine bind_eq_ok.mpr ⟨_, decodeAp_of_slice hap fun pair h => (hc.ap pair h).1, ?_⟩
    refine bind_eq_ok.mpr ⟨_, decodeServiceAt_of_slice hservice, ?_⟩
    refine bind_eq_ok.mpr ⟨_, pixelCode_decode c.framebuffer.format, ?_⟩
    refine bind_eq_ok.mpr ⟨c.framebuffer, mapError_eq_ok.mpr ?_, ?_⟩
    · exact FramebufferInfo.new_eq_ok.mpr ⟨rfl, rfl, rfl, rfl, rfl, rfl⟩
    refine bind_eq_ok.mpr ⟨true, scanRegions_eq_ok.mpr ⟨c.regions, hread, hc.sorted, ?_⟩, ?_⟩
    · rw [hc.framebuffer]
      rfl
    refine bind_eq_ok.mpr ⟨(), refuseIf_eq_ok.mpr Bool.noConfusion, ?_⟩
    refine bind_eq_ok.mpr ⟨(), refuseIf_eq_ok.mpr (storageIsReserved_iff.mpr ?_), ?_⟩
    · intro service hmem
      rw [storageContained_eq hread]
      exact hc.service service hmem
    refine bind_eq_ok.mpr ⟨hc.handoff.evidence, mapError_eq_ok.mpr ?_, ?_⟩
    · exact BootEvidence.new_eq_ok.mpr ⟨rfl, rfl, rfl, rfl, rfl, rfl⟩
    exact bind_eq_ok.mpr ⟨_, hread, rfl⟩
  · exact hc.contents_handoff hmadt

/-- SMP resources that decode are the record that they are read from. -/
theorem ap_of_decode {input : List UInt8} {offset : ℕ} {present : Bool}
    {physical stackArena : Option UInt64}
    (h : decodeAp input offset present = .ok (physical, stackArena))
    (hlen : offset + present.toNat * 16 ≤ input.length) {resources : Option (UInt64 × UInt64)}
    (hresources : (physical.bind fun a => stackArena.map fun b => (a, b)) = resources) :
    resources.isSome = present ∧
    apFormat.writeRecords resources.toList = slice input offset (present.toNat * 16) ∧
    ∀ pair ∈ resources, apMalformed pair.1 pair.2 = false := by
  subst hresources
  cases present with
  | false =>
    obtain ⟨rfl, rfl⟩ := Prod.mk.inj (Except.ok.inj h)
    refine ⟨rfl, ?_, fun _ hmem => nomatch hmem⟩
    rw [Bool.toNat_false, Nat.zero_mul, slice, List.take_zero]
    rfl
  | true =>
    obtain ⟨_, hvalid, h⟩ := bind_eq_ok.mp h
    obtain ⟨rfl, rfl⟩ := Prod.mk.inj (Except.ok.inj h)
    rw [Bool.toNat_true] at hlen ⊢
    refine ⟨rfl, ?_, ?_⟩
    · show leBytes 8 (readU64 input offset).toNat ++ leBytes 8 (readU64 input (offset + 8)).toNat ++
        [] = _
      rw [leBytes_readU64 (by omega), leBytes_readU64 (by omega), List.append_nil, ← slice_add]
    · rintro pair hpair
      obtain rfl := Option.some_inj.mp hpair
      exact Bool.eq_false_of_not_eq_true (refuseIf_eq_ok.mp hvalid)

/-- A service that decodes is the record that it is read from. -/
theorem service_of_decode {input : List UInt8} {offset : ℕ} {present : Bool}
    {service : Option ServiceLaunch} (h : decodeServiceAt input offset present = .ok service)
    (hlen : offset + present.toNat * 160 ≤ input.length) :
    service.isSome = present ∧
    serviceFormat.writeRecords service.toList = slice input offset (present.toNat * 160) := by
  cases present with
  | false =>
    obtain rfl := Except.ok.inj h
    refine ⟨rfl, ?_⟩
    rw [Bool.toNat_false, Nat.zero_mul, slice, List.take_zero]
    rfl
  | true =>
    obtain ⟨launch, hlaunch, h⟩ := bind_eq_ok.mp h
    obtain rfl := Except.ok.inj h
    rw [Bool.toNat_true, Nat.one_mul] at hlen ⊢
    refine ⟨rfl, ?_⟩
    show serviceFormat.write launch ++ [] = _
    rw [List.append_nil]
    exact serviceFormat.write_read (length_slice hlen) hlaunch

/-- The MADT of accepted bytes. -/
theorem madt_of_decode (input : List UInt8) (handoff : BootHandoff)
    {madt : Option (List UInt8)} (hmadt : handoff.madt input = madt)
    (hlen : handoff.madtOffset + handoff.madtLength ≤ input.length) :
    madt.isSome = decide (handoff.madtLength ≠ 0) ∧
    (madt.map List.length).getD 0 = handoff.madtLength ∧
    madt.getD [] = slice input handoff.madtOffset handoff.madtLength := by
  subst hmadt
  unfold BootHandoff.madt
  split_ifs with hne
  · exact ⟨(decide_eq_true hne).symm, length_slice hlen, rfl⟩
  · rw [not_not] at hne
    rw [hne, slice, List.take_zero]
    exact ⟨rfl, rfl, rfl⟩

end Contents

/-- The flag of accepted bytes. -/
abbrev flagIn (input : List UInt8) (flag : UInt16) : Bool := hasFlag (readU16 input 22) flag

/-- What the checks of `decode` say about the bytes that it accepts. -/
structure Accepted (input : List UInt8) (handoff : BootHandoff) (regions : List MemoryRegion) :
    Prop where
  magic : slice input 0 16 = handoffMagic
  known : readU16 input 22 &&& ~~~knownFlags = 0
  count : (readU16 input 20).toNat = handoff.regionCount
  nonempty : handoff.regionCount ≠ 0
  count_le : handoff.regionCount ≤ maxHandoffRegions
  madtLength : (readU16 input 165).toNat = handoff.madtLength
  madtFlag : flagIn input flagMadtSnapshot = decide (handoff.madtLength ≠ 0)
  paired : flagIn input flagApTrampoline = true → handoff.madtLength ≠ 0
  madt_le : handoff.madtLength ≤ maxHandoffMadtBytes
  madt_ge : handoff.madtLength ≠ 0 → 44 ≤ handoff.madtLength
  padding : byteAt input 167 = 0
  madtOffset : handoff.madtOffset = 168 + handoff.regionCount * 24 +
    (flagIn input flagServiceImage).toNat * 160 + (flagIn input flagApTrampoline).toNat * 16
  encodedLength : (readU32 input 16).toNat = handoff.madtOffset + handoff.madtLength
  length : input.length = handoff.madtOffset + handoff.madtLength
  madt : handoff.madtLength ≠ 0 →
    madtMalformed (slice input handoff.madtOffset handoff.madtLength) = false
  acpiRoot : readU64 input 128 = handoff.acpiRoot
  acpiRoot_ne : handoff.acpiRoot ≠ 0
  ap : decodeAp input (168 + handoff.regionCount * 24 + (flagIn input flagServiceImage).toNat * 160)
    (flagIn input flagApTrampoline) = .ok (handoff.apTrampoline, handoff.apStackArena)
  service : decodeServiceAt input (168 + handoff.regionCount * 24) (flagIn input flagServiceImage) =
    .ok handoff.service
  format : decodePixelFormat (byteAt input 164) = .ok handoff.framebuffer.format
  framebuffer : FramebufferInfo.new (readU64 input 136) (readU64 input 144) (readU32 input 152)
    (readU32 input 156) (readU32 input 160) handoff.framebuffer.format = .ok handoff.framebuffer
  sorted : regions.IsChain MemoryRegion.Before
  mapped : regions.any (containsFramebuffer handoff.framebuffer) = true
  reserved : ∀ service ∈ handoff.service, serviceStorageIsReserved service regions = true
  evidence : BootEvidence.new (arrayAt input 32 32) (arrayAt input 64 64) (readU64 input 24)
    (flagIn input flagSecureBoot) (flagIn input flagMeasuredBoot)
    (flagIn input flagRollbackProtected) = .ok handoff.evidence
  regions : regionFormat.readRecords input 168 handoff.regionCount = .ok regions

/-- The checks of `decode`, one after the other. -/
theorem accepted_of_decode {input : List UInt8} {handoff : BootHandoff}
    {regions : List MemoryRegion} (h : decode input = .ok (handoff, regions)) :
    Accepted input handoff regions := by
  unfold decode at h
  obtain ⟨_, hlen, h⟩ := bind_eq_ok.mp h
  obtain ⟨_, hmagic, h⟩ := bind_eq_ok.mp h
  obtain ⟨_, hknown, h⟩ := bind_eq_ok.mp h
  obtain ⟨_, hcount, h⟩ := bind_eq_ok.mp h
  obtain ⟨_, hheader, h⟩ := bind_eq_ok.mp h
  obtain ⟨_, hexpected, h⟩ := bind_eq_ok.mp h
  obtain ⟨_, hmadt, h⟩ := bind_eq_ok.mp h
  obtain ⟨_, hacpi, h⟩ := bind_eq_ok.mp h
  obtain ⟨⟨apTrampoline, apStackArena⟩, hap, h⟩ := bind_eq_ok.mp h
  obtain ⟨service, hservice, h⟩ := bind_eq_ok.mp h
  obtain ⟨format, hformat, h⟩ := bind_eq_ok.mp h
  obtain ⟨framebuffer, hframebuffer, h⟩ := bind_eq_ok.mp h
  obtain ⟨found, hscan, h⟩ := bind_eq_ok.mp h
  obtain ⟨_, hfound, h⟩ := bind_eq_ok.mp h
  obtain ⟨_, hstorage, h⟩ := bind_eq_ok.mp h
  obtain ⟨evidence, hevidence, h⟩ := bind_eq_ok.mp h
  obtain ⟨_, hread, h⟩ := bind_eq_ok.mp h
  obtain ⟨rfl, rfl⟩ := Prod.mk.inj (Except.ok.inj h)
  obtain ⟨hnonempty, hcount⟩ := not_or.mp (refuseIf_eq_ok.mp hcount)
  obtain ⟨hflag, hheader⟩ := not_or.mp (refuseIf_eq_ok.mp hheader)
  obtain ⟨hpaired, hheader⟩ := not_or.mp hheader
  obtain ⟨hmax, hheader⟩ := not_or.mp hheader
  obtain ⟨hmin, hpadding⟩ := not_or.mp hheader
  obtain ⟨hlength, hexpected⟩ := not_or.mp (refuseIf_eq_ok.mp hexpected)
  obtain ⟨scanned, hscanned, hsorted, hany⟩ := scanRegions_eq_ok.mp hscan
  obtain rfl : scanned = _ := Except.ok.inj (hscanned.symm.trans hread)
  have hformat' := (FramebufferInfo.new_eq_ok.mp (mapError_eq_ok.mp hframebuffer)).2.2.2.2.2
  exact {
    magic := not_not.mp (refuseIf_eq_ok.mp hmagic)
    known := not_not.mp (refuseIf_eq_ok.mp hknown)
    count := rfl
    nonempty := hnonempty
    count_le := Nat.not_lt.mp hcount
    madtLength := rfl
    madtFlag := not_not.mp hflag
    paired := fun hflag hzero => hpaired ⟨hflag, hzero⟩
    madt_le := Nat.not_lt.mp hmax
    madt_ge := fun hne => Nat.not_lt.mp fun hlt => hmin ⟨hne, hlt⟩
    padding := not_not.mp hpadding
    madtOffset := rfl
    encodedLength := not_not.mp hlength
    length := not_not.mp hexpected
    madt := fun hne => Bool.eq_false_of_not_eq_true fun h => refuseIf_eq_ok.mp hmadt ⟨hne, h⟩
    acpiRoot := rfl
    acpiRoot_ne := refuseIf_eq_ok.mp hacpi
    ap := hap
    service := hservice
    format := by rw [hformat]; exact congrArg _ hformat'.symm
    framebuffer := by
      show FramebufferInfo.new _ _ _ _ _ framebuffer.format = .ok framebuffer
      rw [hformat', mapError_eq_ok.mp hframebuffer]
    sorted := hsorted
    mapped := by
      rw [← Bool.false_or (List.any _ _), ← hany]
      exact Bool.eq_true_of_not_eq_false (refuseIf_eq_ok.mp hfound)
    reserved := by
      intro launch hmem
      rw [← storageContained_eq hread]
      exact Contents.storageIsReserved_iff.mp (refuseIf_eq_ok.mp hstorage) launch hmem
    evidence := mapError_eq_ok.mp hevidence
    regions := hread }

namespace Accepted

variable {input : List UInt8} {handoff : BootHandoff} {regions : List MemoryRegion}

/-- The regions of accepted bytes. -/
theorem regions_wire (h : Accepted input handoff regions) :
    regions.length = handoff.regionCount ∧
    regionFormat.writeRecords regions = slice input 168 (handoff.regionCount * 24) := by
  have hlen := h.length
  have hoffset := h.madtOffset
  exact regionFormat.writeRecords_readRecords (by rw [regionFormat_width]; omega) h.regions

/-- The service of accepted bytes. -/
theorem service_wire (h : Accepted input handoff regions) :
    handoff.service.isSome = flagIn input flagServiceImage ∧
    serviceFormat.writeRecords handoff.service.toList =
      slice input (168 + handoff.regionCount * 24)
        ((flagIn input flagServiceImage).toNat * 160) := by
  have hlen := h.length
  have hoffset := h.madtOffset
  exact Contents.service_of_decode h.service (by omega)

/-- The SMP resources of accepted bytes. -/
theorem ap_wire (h : Accepted input handoff regions) :
    (handoff.contents regions input).apResources.isSome = flagIn input flagApTrampoline ∧
    apFormat.writeRecords (handoff.contents regions input).apResources.toList =
      slice input (168 + handoff.regionCount * 24 + (flagIn input flagServiceImage).toNat * 160)
        ((flagIn input flagApTrampoline).toNat * 16) ∧
    ∀ pair ∈ (handoff.contents regions input).apResources,
      apMalformed pair.1 pair.2 = false := by
  have hlen := h.length
  have hoffset := h.madtOffset
  exact Contents.ap_of_decode h.ap (by omega) rfl

/-- The MADT of accepted bytes. -/
theorem madt_wire (h : Accepted input handoff regions) :
    (handoff.contents regions input).madt.isSome = flagIn input flagMadtSnapshot ∧
    (handoff.contents regions input).madtLength = handoff.madtLength ∧
    (handoff.contents regions input).madt.getD [] =
      slice input handoff.madtOffset handoff.madtLength := by
  rw [h.madtFlag]
  exact Contents.madt_of_decode input handoff rfl (Nat.le_of_eq h.length.symm)

/-- Accepted bytes have well-formed contents. -/
theorem wellFormed (h : Accepted input handoff regions) :
    (handoff.contents regions input).WellFormed where
  nonempty := by
    intro hnil
    have hcount := h.regions_wire.1
    rw [show regions = [] from hnil, List.length_nil] at hcount
    exact h.nonempty hcount.symm
  count_le := by
    show regions.length ≤ maxHandoffRegions
    rw [h.regions_wire.1]
    exact h.count_le
  sorted := h.sorted
  acpiRoot := h.acpiRoot_ne
  framebuffer := h.mapped
  service := h.reserved
  evidence := handoff.evidence.checked
  madt := by
    intro madt hmadt
    obtain ⟨hsome, hlength, hbytes⟩ := h.madt_wire
    have hne : handoff.madtLength ≠ 0 := by
      rw [Option.mem_def.mp hmadt, Option.isSome_some, h.madtFlag, eq_comm,
        decide_eq_true_eq] at hsome
      exact hsome
    rw [Contents.madtLength, Option.mem_def.mp hmadt] at hlength
    rw [Option.mem_def.mp hmadt, Option.getD_some] at hbytes
    replace hlength : madt.length = handoff.madtLength := hlength
    refine Contents.madtRefused_eq_false.mpr ⟨?_, ?_, ?_⟩
    · rw [hlength]
      exact h.madt_ge hne
    · rw [hlength]
      exact h.madt_le
    · rw [hbytes]
      exact h.madt hne
  ap := by
    intro resources hresources
    obtain ⟨hsome, -, hvalid⟩ := h.ap_wire
    refine ⟨hvalid resources hresources, ?_⟩
    rw [Option.mem_def.mp hresources, Option.isSome_some] at hsome
    rw [h.madt_wire.1, h.madtFlag]
    exact decide_eq_true (h.paired hsome.symm)

/-- Accepted bytes are the fields of what they decode to. -/
theorem wire_eq (h : Accepted input handoff regions) :
    (handoff.contents regions input).wire = input := by
  obtain ⟨hcount, hregions⟩ := h.regions_wire
  obtain ⟨hserviceSome, hservice⟩ := h.service_wire
  obtain ⟨hapSome, hap, -⟩ := h.ap_wire
  obtain ⟨hmadtSome, hmadtLength, hmadt⟩ := h.madt_wire
  obtain ⟨hentropy, hmeasurement, hversion, hsecure, hmeasured, hrollback⟩ :=
    BootEvidence.new_eq_ok.mp h.evidence
  obtain ⟨hbase, hbytes, hwidth, hheight, hstride, -⟩ := FramebufferInfo.new_eq_ok.mp h.framebuffer
  have hlen := h.length
  have hoffset := h.madtOffset
  have hflags : (handoff.contents regions input).flags = readU16 input 22 := by
    show encodeFlags handoff.evidence.secureBoot handoff.evidence.measuredBoot
      handoff.evidence.rollbackProtected (handoff.contents regions input).madt.isSome
      (handoff.contents regions input).apResources.isSome handoff.service.isSome = _
    rw [hsecure, hmeasured, hrollback, hmadtSome, hapSome, hserviceSome]
    exact encodeFlags_hasFlag h.known
  have hlength : (handoff.contents regions input).length = (readU32 input 16).toNat := by
    rw [Contents.length_eq, Contents.ownWidths, Contents.sum_widths, hapSome, hmadtLength,
      h.encodedLength, hoffset, ← hserviceSome, ← hcount]
    rfl
  have hfields : input = (slices input 0 (Contents.widths handoff.regionCount
      (flagIn input flagServiceImage).toNat (flagIn input flagApTrampoline).toNat
      handoff.madtLength)).flatten :=
    eq_flatten_slices (by rw [Contents.sum_widths, hlen, hoffset])
  have hword : ∀ off, off + 8 ≤ 168 → leBytes 8 (readU64 input off).toNat = slice input off 8 :=
    fun off hoff => leBytes_readU64 (by omega)
  have hhalf : ∀ off, off + 4 ≤ 168 → leBytes 4 (readU32 input off).toNat = slice input off 4 :=
    fun off hoff => leBytes_readU32 (by omega)
  have hshort : ∀ off, off + 2 ≤ 168 → leBytes 2 (readU16 input off).toNat = slice input off 2 :=
    fun off hoff => leBytes_readU16 (by omega)
  have hbyte : ∀ off, off < 168 → slice input off 1 = [byteAt input off] :=
    fun off hoff => slice_one (by omega)
  have hcountCode : leBytes 2 handoff.regionCount = slice input 20 2 := by
    rw [← h.count, hshort 20 (by decide)]
  have hmadtCode : leBytes 2 handoff.madtLength = slice input 165 2 := by
    rw [← h.madtLength, hshort 165 (by decide)]
  have hcontents : (handoff.contents regions input).fields =
      slices input 0 (Contents.widths handoff.regionCount (flagIn input flagServiceImage).toNat
        (flagIn input flagApTrampoline).toNat handoff.madtLength) := by
    unfold Contents.fields
    rw [hlength, hflags, hmadtLength, hap, hmadt]
    simp only [BootHandoff.contents]
    rw [hcount, hversion, hentropy, hmeasurement, ← h.acpiRoot, hbase, hbytes, hwidth, hheight,
      hstride, Contents.pixelCode_of_decode h.format, hregions, hservice,
      toList_arrayAt (by omega), toList_arrayAt (by omega), hcountCode, hmadtCode]
    simp only [Contents.widths, slices, Nat.zero_add, Nat.reduceAdd, hoffset, h.magic, hbyte,
      h.padding, hword, hhalf, hshort, Nat.reduceLT, Nat.reduceLeDiff]
    rfl
  rw [Contents.wire, hcontents, ← hfields]

end Accepted

/-! ## Round trips -/

/-- The public encoders with their arguments. -/
inductive Encoder
  | plain (info : BootInfo)
  | withMadt (info : BootInfo) (madt : List UInt8)
  | withSmp (info : BootInfo) (apTrampoline apStackArena : UInt64) (madt : List UInt8)
  | withSmpAndService (info : BootInfo) (apTrampoline apStackArena : UInt64)
      (service : ServiceLaunch) (madt : List UInt8)

namespace Encoder

/-- The call of an encoder. -/
def run : Encoder → List UInt8 → Except HandoffError ℕ × List UInt8
  | plain info => encodeHandoff info
  | withMadt info madt => encodeHandoffWithMadt info madt
  | withSmp info apTrampoline apStackArena madt =>
    encodeHandoffWithSmp info apTrampoline apStackArena madt
  | withSmpAndService info apTrampoline apStackArena service madt =>
    encodeHandoffWithSmpAndService info apTrampoline apStackArena service madt

/-- The contents that an encoder is given. -/
def contents : Encoder → Contents
  | plain info => ⟨info, none, none, none⟩
  | withMadt info madt => ⟨info, some madt, none, none⟩
  | withSmp info apTrampoline apStackArena madt =>
    ⟨info, some madt, some (apTrampoline, apStackArena), none⟩
  | withSmpAndService info apTrampoline apStackArena service madt =>
    ⟨info, some madt, some (apTrampoline, apStackArena), some service⟩

/-- An encoder refuses its arguments or leaves them to `encode_handoff_inner`. -/
theorem run_cases (encoder : Encoder) (output : List UInt8) :
    encoder.run output = (.error .nonCanonical, output) ∨
    (encoder.run output = encodeHandoffInner encoder.contents output ∧
      (∀ madt ∈ encoder.contents.madt, madtRefused madt = false) ∧
      ∀ resources ∈ encoder.contents.apResources,
        apMalformed resources.1 resources.2 = false ∧ encoder.contents.madt.isSome) := by
  cases encoder with
  | plain info => exact .inr ⟨rfl, (fun _ h => nomatch h), fun _ h => nomatch h⟩
  | withMadt info madt =>
    by_cases hmadt : madtRefused madt = true
    · exact .inl (if_pos hmadt)
    · refine .inr ⟨if_neg hmadt, ?_, fun _ h => nomatch h⟩
      rintro _ ⟨rfl⟩
      exact Bool.eq_false_of_not_eq_true hmadt
  | withSmp info apTrampoline apStackArena madt =>
    by_cases hrefused : (apMalformed apTrampoline apStackArena || madtRefused madt) = true
    · exact .inl (if_pos hrefused)
    · obtain ⟨hap, hmadt⟩ := Bool.or_eq_false_iff.mp (Bool.eq_false_of_not_eq_true hrefused)
      refine .inr ⟨if_neg hrefused, ?_, ?_⟩
      · rintro _ ⟨rfl⟩
        exact hmadt
      · rintro _ ⟨rfl⟩
        exact ⟨hap, rfl⟩
  | withSmpAndService info apTrampoline apStackArena service madt =>
    by_cases hrefused : (apMalformed apTrampoline apStackArena || madtRefused madt) = true
    · exact .inl (if_pos hrefused)
    · obtain ⟨hap, hmadt⟩ := Bool.or_eq_false_iff.mp (Bool.eq_false_of_not_eq_true hrefused)
      refine .inr ⟨if_neg hrefused, ?_, ?_⟩
      · rintro _ ⟨rfl⟩
        exact hmadt
      · rintro _ ⟨rfl⟩
        exact ⟨hap, rfl⟩

end Encoder

/-- `encode_handoff_inner` refuses its arguments before its first write, or its output starts
    with the fields. -/
theorem encodeHandoffInner_cases (c : Contents) (output : List UInt8) :
    (∃ error, c.check output.length = .error error ∧
      encodeHandoffInner c output = (.error error, output)) ∨
    (c.check output.length = .ok () ∧
      encodeHandoffInner c output = (.ok c.length, c.wire ++ output.drop c.length)) := by
  unfold encodeHandoffInner
  cases hcheck : c.check output.length with
  | error error => exact .inl ⟨error, rfl, rfl⟩
  | ok u => exact .inr ⟨rfl, by rw [c.write_eq]⟩

/-- **Main theorem.** For every encoder, all arguments and every output: an encoder that
    returns an error has written nothing, and what an encoder accepts decodes from the bytes
    it has emitted, with the same contents (the header fields, the regions in order, the MADT,
    the SMP resources and the service). -/
theorem handoff_roundtrip (encoder : Encoder) (output : List UInt8) :
    match encoder.run output with
    | (.error _, output') => output' = output
    | (.ok length, output') =>
      ∃ handoff, decode (output'.take length) = .ok (handoff, encoder.contents.regions) ∧
        handoff.contents encoder.contents.regions (output'.take length) = encoder.contents ∧
        handoff.regionCount = encoder.contents.regions.length ∧
        output'.drop length = output.drop length := by
  rcases encoder.run_cases output with hrun | ⟨hrun, hmadt, hap⟩
  · rw [hrun]
  · rw [hrun]
    rcases encodeHandoffInner_cases encoder.contents output with
      ⟨error, -, hencode⟩ | ⟨hcheck, hencode⟩
    · rw [hencode]
    · rw [hencode]
      obtain ⟨-, -, hnonempty, hcount, hsorted, hacpi, hframebuffer, hservice, hevidence⟩ :=
        Contents.check_eq_ok.mp hcheck
      have hlen := encoder.contents.length_wire
      show ∃ handoff, decode (List.take _ (_ ++ _)) = _ ∧ _ ∧ _ ∧ _
      rw [List.take_left' hlen, List.drop_left' hlen]
      obtain ⟨handoff, hdecode, hcontents, hregions⟩ := Contents.decode_wire
        ⟨hnonempty, hcount, hsorted, hacpi, hframebuffer, hservice, hevidence, hmadt, hap⟩
      exact ⟨handoff, hdecode, hcontents, hregions, rfl⟩

/-- **Main theorem.** Accepted bytes are given back by the encoder exactly if they carry an
    image version: the encoder refuses version zero, which the decoder lets through. -/
theorem handoff_reencode_iff {input : List UInt8} {handoff : BootHandoff}
    {regions : List MemoryRegion} (h : decode input = .ok (handoff, regions))
    {output : List UInt8} (hroom : input.length ≤ output.length) :
    encodeHandoffInner (handoff.contents regions input) output =
        (.ok input.length, input ++ output.drop input.length) ↔
      readU64 input 24 ≠ 0 := by
  have haccepted := accepted_of_decode h
  have hwell := haccepted.wellFormed
  have hwire := haccepted.wire_eq
  have hversion : (handoff.contents regions input).imageVersion = readU64 input 24 :=
    (BootEvidence.new_eq_ok.mp haccepted.evidence).2.2.1
  have hlength : (handoff.contents regions input).length = input.length := by
    rw [← Contents.length_wire, hwire]
  rw [← hversion]
  rcases encodeHandoffInner_cases (handoff.contents regions input) output with
    ⟨error, hcheck, hencode⟩ | ⟨hcheck, hencode⟩
  · rw [hencode]
    constructor
    · intro heq
      cases congrArg Prod.fst heq
    · intro hne
      have hok : (handoff.contents regions input).check output.length = .ok () :=
        Contents.check_eq_ok.mpr ⟨hlength.le.trans hroom, hne, hwell.nonempty, hwell.count_le,
          hwell.sorted, hwell.acpiRoot, hwell.framebuffer, hwell.service, hwell.evidence⟩
      cases hcheck.symm.trans hok
  · rw [hencode, hwire, hlength]
    exact iff_of_true rfl (Contents.check_eq_ok.mp hcheck).2.1

/-- A handoff with a framebuffer of 16 × 16 pixels in the only region, of a given image
    version. -/
def sampleContents (imageVersion : UInt64) : Contents where
  imageVersion
  entropy := Vector.replicate 32 1
  imageMeasurement := Vector.replicate 64 2
  secureBoot := true
  measuredBoot := true
  rollbackProtected := true
  acpiRoot := 0x9000
  framebuffer := ⟨⟨0xa0000, rfl⟩, 0x1000, 16, 16, 16, .blueGreenRedReserved, by decide⟩
  regions := [⟨⟨0xa0000, rfl⟩, 1, .mmio, by decide⟩]
  madt := none
  apResources := none
  service := none

theorem sampleContents_wellFormed (imageVersion : UInt64) :
    (sampleContents imageVersion).WellFormed where
  nonempty := List.cons_ne_nil _ _
  count_le := by
    show 1 ≤ 128
    decide
  sorted := .singleton _
  acpiRoot := by
    show (0x9000 : UInt64) ≠ 0
    decide
  framebuffer := by
    show (sampleContents 0).regions.any (containsFramebuffer (sampleContents 0).framebuffer) = true
    decide
  service := fun _ h => nomatch h
  evidence := by
    show checkEvidence (Vector.replicate 32 1) (Vector.replicate 64 2) = .ok ()
    decide
  madt := fun _ h => nomatch h
  ap := fun _ h => nomatch h

theorem handoff_reencode_iff_sample : ∃ handoff regions,
    decode (sampleContents 7).wire = .ok (handoff, regions) ∧
    (encodeHandoffInner (handoff.contents regions (sampleContents 7).wire)
        (sampleContents 7).wire =
      (.ok (sampleContents 7).wire.length, (sampleContents 7).wire ++
        (sampleContents 7).wire.drop (sampleContents 7).wire.length) ↔
      readU64 (sampleContents 7).wire 24 ≠ 0) := by
  obtain ⟨handoff, hdecode, -⟩ := Contents.decode_wire (sampleContents_wellFormed 7)
  exact ⟨handoff, _, hdecode, handoff_reencode_iff hdecode (Nat.le_refl _)⟩

/-- A handoff of version zero is accepted and cannot be encoded again. -/
theorem version_zero_not_reencoded : ∃ handoff regions,
    decode (sampleContents 0).wire = .ok (handoff, regions) ∧
    ∀ output, encodeHandoffInner (handoff.contents regions (sampleContents 0).wire) output =
      (.error .nonCanonical, output) := by
  obtain ⟨handoff, hdecode, hcontents, -⟩ := Contents.decode_wire (sampleContents_wellFormed 0)
  refine ⟨handoff, _, hdecode, fun output => ?_⟩
  have hcheck : (sampleContents 0).check output.length = .error .nonCanonical := by
    unfold Contents.check
    rw [refuseIf, if_neg (by decide)]
    show (refuseIf _ _ >>= _) = _
    rw [refuseIf, if_pos (.inr (.inl rfl))]
    rfl
  rw [hcontents, encodeHandoffInner, hcheck]

end Mrml.Boot
