import Mrml.Common.Wire
import Mrml.Kernel.Memory

/-!
# The parts of a boot handoff

Model of the validated values that the loader hands to the kernel: the framebuffer
(`crates/mrml-kernel/src/framebuffer.rs`, lines 3–98), the boot evidence
(`crates/mrml-kernel/src/boot.rs`, lines 1–48) and the service launch
(`crates/mrml-kernel/src/handoff.rs`, lines 30–131), with the records of regions and
services on the wire (`handoff.rs`, lines 671–675, 691–732 and 786–815).

Results:
* `FramebufferInfo.new_eq_ok`, `BootEvidence.new_eq_ok`, `ServiceLaunch.new_eq_ok`: what the
  constructors accept.
* `regionFormat`, `serviceFormat`: both records have exactly one encoding.
-/

namespace Mrml.Boot

open Mrml.Kernel

/-! ## The framebuffer -/

/-- `PixelFormat` (`framebuffer.rs`, lines 8–11). -/
inductive PixelFormat
  | redGreenBlueReserved
  | blueGreenRedReserved
deriving DecidableEq

/-- `FramebufferError` (`framebuffer.rs`, lines 14–24), as far as a handoff raises it. -/
inductive FramebufferError
  | missing
  | unaligned
  | invalidDimensions
  | invalidStride
  | invalidLength
  | overflow
  | unsupportedPixelFormat
deriving DecidableEq

/-- `MAX_DIMENSION` (`framebuffer.rs`, line 4). -/
def maxDimension : UInt32 := 16384

/-- `MAX_STRIDE` (`framebuffer.rs`, line 5). -/
def maxStride : UInt32 := 32768

/-- The checks of `FramebufferInfo::new` (`framebuffer.rs`, lines 45–66). -/
def checkFramebuffer (base byteLength : UInt64) (width height stride : UInt32) :
    Except FramebufferError PhysAddr := do
  refuseIf (base = 0 ∨ byteLength = 0) .missing
  let base ← (PhysAddr.new base).mapError fun _ => .unaligned
  refuseIf (width = 0 ∨ height = 0 ∨ width > maxDimension ∨ height > maxDimension)
    .invalidDimensions
  refuseIf (stride < width ∨ stride > maxStride) .invalidStride
  let required ← okOr ((checkedMul64 stride.toUInt64 height.toUInt64).bind (checkedMul64 · 4))
    .overflow
  refuseIf (byteLength < required ∨ byteLength.toNat > 2 ^ 63 - 1 ∨
    ¬ base.address.toNat + byteLength.toNat < 2 ^ 64) .invalidLength
  return base

/-- `FramebufferInfo` (`framebuffer.rs`, lines 27–34), with the checks of its constructor. -/
structure FramebufferInfo where
  base : PhysAddr
  byteLength : UInt64
  width : UInt32
  height : UInt32
  stride : UInt32
  format : PixelFormat
  checked : checkFramebuffer base.address byteLength width height stride = .ok base
deriving DecidableEq

namespace FramebufferInfo

theorem base_of_check {base byteLength : UInt64} {width height stride : UInt32} {a : PhysAddr}
    (h : checkFramebuffer base byteLength width height stride = .ok a) : a.address = base := by
  unfold checkFramebuffer at h
  obtain ⟨_, -, h⟩ := bind_eq_ok.mp h
  obtain ⟨b, hb, h⟩ := bind_eq_ok.mp h
  obtain ⟨_, -, h⟩ := bind_eq_ok.mp h
  obtain ⟨_, -, h⟩ := bind_eq_ok.mp h
  obtain ⟨_, -, h⟩ := bind_eq_ok.mp h
  obtain ⟨_, -, h⟩ := bind_eq_ok.mp h
  obtain rfl := Except.ok.inj h
  exact PhysAddr.address_of_new (mapError_eq_ok.mp hb)

/-- `FramebufferInfo::new` (`framebuffer.rs`, lines 37–75). -/
def new (base byteLength : UInt64) (width height stride : UInt32) (format : PixelFormat) :
    Except FramebufferError FramebufferInfo := do
  let ⟨a, h⟩ ← attach (checkFramebuffer base byteLength width height stride)
  return ⟨a, byteLength, width, height, stride, format, by rwa [base_of_check h]⟩

/-- `FramebufferInfo::end` (`framebuffer.rs`, lines 96–98). -/
def endAddress (framebuffer : FramebufferInfo) : ℕ :=
  framebuffer.base.address.toNat + framebuffer.byteLength.toNat

theorem new_eq_ok {base byteLength : UInt64} {width height stride : UInt32} {format : PixelFormat}
    {framebuffer : FramebufferInfo} :
    new base byteLength width height stride format = .ok framebuffer ↔
      framebuffer.base.address = base ∧ framebuffer.byteLength = byteLength ∧
      framebuffer.width = width ∧ framebuffer.height = height ∧ framebuffer.stride = stride ∧
      framebuffer.format = format := by
  constructor
  · intro h
    obtain ⟨⟨a, ha⟩, -, h⟩ := bind_eq_ok.mp h
    obtain rfl := Except.ok.inj h
    exact ⟨base_of_check ha, rfl, rfl, rfl, rfl, rfl⟩
  · rintro ⟨rfl, rfl, rfl, rfl, rfl, rfl⟩
    exact bind_eq_ok.mpr ⟨⟨framebuffer.base, framebuffer.checked⟩, attach_eq, rfl⟩

end FramebufferInfo

/-! ## The boot evidence -/

/-- `BootValidationError` (`boot.rs`, lines 1–12), as far as a handoff raises it. -/
inductive BootValidationError
  | missingEntropy
  | missingMeasurement
deriving DecidableEq

/-- The checks of `BootEvidence::new` (`boot.rs`, lines 34–39). -/
def checkEvidence (entropy : Vector UInt8 32) (imageMeasurement : Vector UInt8 64) :
    Except BootValidationError Unit := do
  refuseIf (entropy.toList.all (· == 0)) .missingEntropy
  refuseIf (imageMeasurement.toList.all (· == 0)) .missingMeasurement

/-- `BootEvidence` (`boot.rs`, lines 16–23), with the checks of its constructor. -/
structure BootEvidence where
  entropy : Vector UInt8 32
  imageMeasurement : Vector UInt8 64
  imageVersion : UInt64
  secureBoot : Bool
  measuredBoot : Bool
  rollbackProtected : Bool
  checked : checkEvidence entropy imageMeasurement = .ok ()
deriving DecidableEq

/-- `BootEvidence::new` (`boot.rs`, lines 26–48). -/
def BootEvidence.new (entropy : Vector UInt8 32) (imageMeasurement : Vector UInt8 64)
    (imageVersion : UInt64) (secureBoot measuredBoot rollbackProtected : Bool) :
    Except BootValidationError BootEvidence := do
  let ⟨(), h⟩ ← attach (checkEvidence entropy imageMeasurement)
  return ⟨entropy, imageMeasurement, imageVersion, secureBoot, measuredBoot, rollbackProtected, h⟩

theorem BootEvidence.new_eq_ok {entropy : Vector UInt8 32} {imageMeasurement : Vector UInt8 64}
    {imageVersion : UInt64} {secureBoot measuredBoot rollbackProtected : Bool}
    {evidence : BootEvidence} :
    new entropy imageMeasurement imageVersion secureBoot measuredBoot rollbackProtected =
        .ok evidence ↔
      evidence.entropy = entropy ∧ evidence.imageMeasurement = imageMeasurement ∧
      evidence.imageVersion = imageVersion ∧ evidence.secureBoot = secureBoot ∧
      evidence.measuredBoot = measuredBoot ∧ evidence.rollbackProtected = rollbackProtected := by
  constructor
  · intro h
    obtain ⟨⟨_, hchecked⟩, -, h⟩ := bind_eq_ok.mp h
    obtain rfl := Except.ok.inj h
    exact ⟨rfl, rfl, rfl, rfl, rfl, rfl⟩
  · rintro ⟨rfl, rfl, rfl, rfl, rfl, rfl⟩
    exact bind_eq_ok.mpr ⟨⟨(), evidence.checked⟩, attach_eq, rfl⟩

/-- `HandoffError` (`handoff.rs`, lines 175–186). -/
inductive HandoffError
  | truncated
  | badMagic
  | nonCanonical
  | unknownFlags
  | tooManyRegions
  | missingAcpiRoot
  | invalidFramebuffer (error : FramebufferError)
  | framebufferOutsideMmio
  | invalidMemoryMap (error : MemoryError)
  | invalidBootEvidence (error : BootValidationError)
deriving DecidableEq

/-! ## The service launch -/

/-- `MAX_SERVICE_IMAGE_BYTES` (`artifact.rs`, line 15). -/
def maxServiceImageBytes : ℕ := 128 * 1024 * 1024

/-- `SIGNED_ARTIFACT_OVERHEAD_BYTES` (`artifact.rs`, lines 46–48): the header, a Lamport
    public key and a Lamport signature. -/
def signedArtifactOverheadBytes : ℕ := 112 + 65536 + 32768

/-- `length.div_ceil(PAGE_SIZE)`. -/
def pagesOf (length : ℕ) : ℕ := (length + (pageSize - 1)) / pageSize

/-- `checked_pages` (`handoff.rs`, lines 734–745): the bytes of the pages. -/
def checkedPages (start : PhysAddr) (pages : ℕ) : Except HandoffError ℕ := do
  refuseIf (pages = 0 ∨ pages > (2 ^ 64 - 1) / pageSize) .nonCanonical
  let bytes := pages * pageSize
  refuseIf (¬ (start.address.toNat + bytes < 2 ^ 64 ∧ (start.address.toNat + bytes) >>> 52 = 0))
    .nonCanonical
  return bytes

/-- `user_address` (`handoff.rs`, lines 768–770). -/
def userAddress (address : ℕ) : Bool := address != 0 && address ≤ 0x00007fffffffffff

/-- `user_page` (`handoff.rs`, lines 772–774). -/
def userPage (address : ℕ) : Bool := userAddress address && address % pageSize == 0

/-- `ranges_overlap` (`handoff.rs`, lines 776–778). -/
def rangesOverlap (aStart aEnd bStart bEnd : ℕ) : Bool := aStart < bEnd && bStart < aEnd

/-- `physical_ranges_overlap` (`handoff.rs`, lines 780–784). -/
def physicalRangesOverlap (a : PhysAddr) (aPages : ℕ) (b : PhysAddr) (bPages : ℕ) : Bool :=
  rangesOverlap a.address.toNat (a.address.toNat + aPages * pageSize) b.address.toNat
    (b.address.toNat + bPages * pageSize)

/-- The arguments of `ServiceLaunch::new` (`handoff.rs`, lines 49–63). -/
structure ServiceFields where
  artifactPhysical : PhysAddr
  artifactLength : UInt64
  imagePhysical : PhysAddr
  imagePages : UInt64
  imageVirtual : UInt64
  entry : UInt64
  stackPhysical : PhysAddr
  stackPages : UInt64
  stackTop : UInt64
  tablePhysical : PhysAddr
  tablePages : UInt64
  version : UInt64
  measurement : Vector UInt8 64
deriving DecidableEq

/-- The pages of the artifact (`handoff.rs`, line 65). -/
def ServiceFields.artifactPages (fields : ServiceFields) : ℕ := pagesOf fields.artifactLength.toNat

/-- The checks of `ServiceLaunch::new` (`handoff.rs`, lines 65–114). -/
def ServiceFields.check (fields : ServiceFields) : Except HandoffError Unit := do
  let _ ← checkedPages fields.artifactPhysical fields.artifactPages
  let imageBytes ← checkedPages fields.imagePhysical fields.imagePages.toNat
  let stackBytes ← checkedPages fields.stackPhysical fields.stackPages.toNat
  let _ ← checkedPages fields.tablePhysical fields.tablePages.toNat
  refuseIf (¬ fields.imageVirtual.toNat + imageBytes < 2 ^ 64) .nonCanonical
  let imageEnd := fields.imageVirtual.toNat + imageBytes
  refuseIf (fields.stackTop.toNat < stackBytes) .nonCanonical
  let stackBase := fields.stackTop.toNat - stackBytes
  refuseIf (fields.imagePages.toNat > pagesOf maxServiceImageBytes ∨
    fields.stackPages.toNat > 256 ∨
    ¬ (4 ≤ fields.tablePages.toNat ∧ fields.tablePages.toNat ≤ 256) ∨
    fields.version = 0 ∨
    fields.artifactLength.toNat > maxServiceImageBytes + signedArtifactOverheadBytes ∨
    fields.measurement.toList.all (· == 0) ∨
    !userPage fields.imageVirtual.toNat ∨
    !userAddress fields.entry.toNat ∨
    fields.entry < fields.imageVirtual ∨
    fields.entry.toNat ≥ imageEnd ∨
    !userPage stackBase ∨
    !userAddress (fields.stackTop.toNat - 1) ∨
    rangesOverlap fields.imageVirtual.toNat imageEnd stackBase fields.stackTop.toNat ∨
    physicalRangesOverlap fields.imagePhysical fields.imagePages.toNat fields.stackPhysical
      fields.stackPages.toNat ∨
    physicalRangesOverlap fields.imagePhysical fields.imagePages.toNat fields.tablePhysical
      fields.tablePages.toNat ∨
    physicalRangesOverlap fields.stackPhysical fields.stackPages.toNat fields.tablePhysical
      fields.tablePages.toNat ∨
    physicalRangesOverlap fields.artifactPhysical fields.artifactPages fields.imagePhysical
      fields.imagePages.toNat ∨
    physicalRangesOverlap fields.artifactPhysical fields.artifactPages fields.stackPhysical
      fields.stackPages.toNat ∨
    physicalRangesOverlap fields.artifactPhysical fields.artifactPages fields.tablePhysical
      fields.tablePages.toNat) .nonCanonical

/-- `ServiceLaunch` (`handoff.rs`, lines 30–45), with the checks of its constructor. -/
structure ServiceLaunch extends ServiceFields where
  checked : toServiceFields.check = .ok ()
deriving DecidableEq

/-- `ServiceLaunch::new` (`handoff.rs`, lines 49–131). -/
def ServiceLaunch.new (fields : ServiceFields) : Except HandoffError ServiceLaunch := do
  let ⟨(), h⟩ ← attach fields.check
  return ⟨fields, h⟩

theorem ServiceLaunch.new_eq_ok {fields : ServiceFields} {service : ServiceLaunch} :
    new fields = .ok service ↔ service.toServiceFields = fields := by
  constructor
  · intro h
    obtain ⟨⟨_, hchecked⟩, -, h⟩ := bind_eq_ok.mp h
    obtain rfl := Except.ok.inj h
    rfl
  · rintro rfl
    exact bind_eq_ok.mpr ⟨⟨(), service.checked⟩, attach_eq, rfl⟩

/-! ## Records on the wire -/

/-- `region.kind() as u8` (`memory.rs`, lines 20–27). -/
def kindCode : MemoryKind → UInt8
  | .free => 0
  | .kernel => 1
  | .firmware => 2
  | .mmio => 3
  | .acpi => 4
  | .reserved => 5

/-- `decode_kind` (`handoff.rs`, lines 805–815). -/
def decodeKind : UInt8 → Except HandoffError MemoryKind
  | 0 => .ok .free
  | 1 => .ok .kernel
  | 2 => .ok .firmware
  | 3 => .ok .mmio
  | 4 => .ok .acpi
  | 5 => .ok .reserved
  | _ => .error .nonCanonical

theorem decodeKind_kindCode (kind : MemoryKind) : decodeKind (kindCode kind) = .ok kind := by
  cases kind <;> rfl

theorem kindCode_of_decodeKind {code : UInt8} {kind : MemoryKind} (h : decodeKind code = .ok kind) :
    kindCode kind = code := by
  unfold decodeKind at h
  split at h
  · exact Except.ok.inj h ▸ rfl
  · exact Except.ok.inj h ▸ rfl
  · exact Except.ok.inj h ▸ rfl
  · exact Except.ok.inj h ▸ rfl
  · exact Except.ok.inj h ▸ rfl
  · exact Except.ok.inj h ▸ rfl
  · cases h

/-- The body of the region loop of `encode_handoff_inner` (`handoff.rs`, lines 672–675). -/
def putRegion (output : List UInt8) (offset : ℕ) (region : MemoryRegion) : List UInt8 :=
  let output := patch output offset (leBytes 8 region.start.address.toNat)
  let output := patch output (offset + 8) (leBytes 8 region.pages.toNat)
  patch output (offset + 16) [kindCode region.kind]

/-- `decode_region` (`handoff.rs`, lines 786–803), on its 24 bytes. -/
def decodeRegion (record : List UInt8) : Except HandoffError MemoryRegion := do
  let kind ← decodeKind (byteAt record 16)
  refuseIf (anyNonzero (slice record 17 7)) .nonCanonical
  let start ← (PhysAddr.new (readU64 record 0)).mapError .invalidMemoryMap
  (MemoryRegion.new start (readU64 record 8) kind).mapError .invalidMemoryMap

/-- The fields of a region. -/
def regionFields (region : MemoryRegion) : List (List UInt8) :=
  [leBytes 8 region.start.address.toNat, leBytes 8 region.pages.toNat, [kindCode region.kind],
    zeros 7]

theorem slice_regionFields (region : MemoryRegion) :
    slice (regionFields region).flatten 0 8 = leBytes 8 region.start.address.toNat ∧
    slice (regionFields region).flatten 8 8 = leBytes 8 region.pages.toNat ∧
    slice (regionFields region).flatten 16 1 = [kindCode region.kind] ∧
    slice (regionFields region).flatten 17 7 = zeros 7 := by
  have h := slices_flatten (regionFields region)
  generalize (regionFields region).flatten = record at h
  simpa [regionFields, slices] using h

theorem regionFields_of_decode {record : List UInt8} {region : MemoryRegion}
    (hlen : record.length = 24) (h : decodeRegion record = .ok region) :
    (regionFields region).flatten = record := by
  obtain ⟨kind, hkind, h⟩ := bind_eq_ok.mp h
  obtain ⟨_, hzero, h⟩ := bind_eq_ok.mp h
  obtain ⟨start, hstart, h⟩ := bind_eq_ok.mp h
  obtain ⟨rfl, hpages, rfl⟩ := MemoryRegion.fields_of_new (mapError_eq_ok.mp h)
  have hfields : record = (slices record 0 [8, 8, 1, 7]).flatten := eq_flatten_slices hlen
  have hrest := slice_eq_zeros hzero (by omega)
  conv_rhs => rw [hfields]
  simp only [regionFields, slices, Nat.zero_add, Nat.reduceAdd]
  rw [PhysAddr.address_of_new (mapError_eq_ok.mp hstart), hpages, kindCode_of_decodeKind hkind,
    hrest, leBytes_readU64 (by omega), leBytes_readU64 (by omega), slice_one (by omega)]

/-- Regions as records. -/
def regionFormat : RecordFormat HandoffError MemoryRegion where
  width := 24
  write region := (regionFields region).flatten
  read := decodeRegion
  length_write region := by simp [regionFields]
  read_write region := by
    obtain ⟨hstart, hpages, hkind, hzero⟩ := slice_regionFields region
    rw [decodeRegion, hzero, byteAt_of_slice hkind, readU64_of_slice hstart,
      readU64_of_slice hpages, decodeKind_kindCode, PhysAddr.new_self]
    show (MemoryRegion.new region.start region.pages region.kind).mapError _ = _
    rw [MemoryRegion.new_self]
    rfl
  write_read := regionFields_of_decode

@[simp] theorem regionFormat_width : regionFormat.width = 24 := rfl

theorem putRegion_zeros (pre post : List UInt8) (region : MemoryRegion) :
    putRegion (pre ++ (zeros 24 ++ post)) pre.length region =
      pre ++ (regionFormat.write region ++ post) := by
  have hbuffer : pre ++ (zeros 24 ++ post) =
      [pre, zeros 8, zeros 8, zeros 1, zeros 7, post].flatten := by
    simp [zeros]
  rw [hbuffer]
  refine (foldl_patch_flatten _ [pre.length, 8, 8, 1, 7, post.length] (by simp)
    [(1, leBytes 8 region.start.address.toNat), (2, leBytes 8 region.pages.toNat),
      (3, [kindCode region.kind])] (by simp)).trans ?_
  simp [regionFormat, regionFields]

/-- The words of a service (`handoff.rs`, lines 692–705). -/
def serviceWords (service : ServiceFields) : List UInt64 :=
  [service.artifactPhysical.address, service.artifactLength, service.imagePhysical.address,
    service.imagePages, service.imageVirtual, service.entry, service.stackPhysical.address,
    service.stackPages, service.stackTop, service.tablePhysical.address, service.tablePages,
    service.version]

/-- The body of the field loop of `encode_service` (`handoff.rs`, lines 706–709). -/
def putWord (output : List UInt8) (offset : ℕ) (value : UInt64) : List UInt8 :=
  patch output offset (leBytes 8 value.toNat)

/-- `encode_service` (`handoff.rs`, lines 691–711). -/
def encodeService (service : ServiceLaunch) (output : List UInt8) : List UInt8 :=
  let output := writeEach putWord 8 output 0 (serviceWords service.toServiceFields)
  patch output 96 service.measurement.toList

/-- `decode_service` (`handoff.rs`, lines 713–732), on its 160 bytes. -/
def decodeService (record : List UInt8) : Except HandoffError ServiceLaunch := do
  let measurement := arrayAt record 96 64
  let artifactPhysical ← (PhysAddr.new (readU64 record 0)).mapError .invalidMemoryMap
  let imagePhysical ← (PhysAddr.new (readU64 record 16)).mapError .invalidMemoryMap
  let stackPhysical ← (PhysAddr.new (readU64 record 48)).mapError .invalidMemoryMap
  let tablePhysical ← (PhysAddr.new (readU64 record 72)).mapError .invalidMemoryMap
  ServiceLaunch.new {
    artifactPhysical
    artifactLength := readU64 record 8
    imagePhysical
    imagePages := readU64 record 24
    imageVirtual := readU64 record 32
    entry := readU64 record 40
    stackPhysical
    stackPages := readU64 record 56
    stackTop := readU64 record 64
    tablePhysical
    tablePages := readU64 record 80
    version := readU64 record 88
    measurement }

/-- The fields of a service. -/
def serviceRecord (service : ServiceFields) : List (List UInt8) :=
  (serviceWords service).map (fun value => leBytes 8 value.toNat) ++ [service.measurement.toList]

/-- The widths of these fields. -/
def serviceWidths : List ℕ := [8, 8, 8, 8, 8, 8, 8, 8, 8, 8, 8, 8, 64]

theorem map_length_serviceRecord (service : ServiceFields) :
    (serviceRecord service).map List.length = serviceWidths := by
  simp [serviceRecord, serviceWords, serviceWidths]

/-- Services as records. -/
def serviceFormat : RecordFormat HandoffError ServiceLaunch where
  width := 160
  write service := (serviceRecord service.toServiceFields).flatten
  read := decodeService
  length_write service := by
    rw [List.length_flatten, map_length_serviceRecord]
    rfl
  read_write service := by
    have h := slices_flatten (serviceRecord service.toServiceFields)
    rw [map_length_serviceRecord] at h
    generalize (serviceRecord service.toServiceFields).flatten = record at h
    simp only [serviceWidths, slices, serviceRecord, serviceWords, List.map_cons, List.map_nil,
      List.cons_append, List.nil_append, List.cons.injEq, and_true, Nat.zero_add, Nat.reduceAdd] at h
    obtain ⟨h0, h1, h2, h3, h4, h5, h6, h7, h8, h9, h10, h11, h12⟩ := h
    rw [decodeService, readU64_of_slice h0, readU64_of_slice h1, readU64_of_slice h2,
      readU64_of_slice h3, readU64_of_slice h4, readU64_of_slice h5, readU64_of_slice h6,
      readU64_of_slice h7, readU64_of_slice h8, readU64_of_slice h9, readU64_of_slice h10,
      readU64_of_slice h11, arrayAt_of_slice h12, PhysAddr.new_self, PhysAddr.new_self,
      PhysAddr.new_self, PhysAddr.new_self]
    exact ServiceLaunch.new_eq_ok.mpr rfl
  write_read := by
    intro record service hlen h
    obtain ⟨artifact, hartifact, h⟩ := bind_eq_ok.mp h
    obtain ⟨image, himage, h⟩ := bind_eq_ok.mp h
    obtain ⟨stack, hstack, h⟩ := bind_eq_ok.mp h
    obtain ⟨table, htable, h⟩ := bind_eq_ok.mp h
    have hfields : record = (slices record 0 serviceWidths).flatten := eq_flatten_slices hlen
    have hword : ∀ off, off + 8 ≤ 160 → leBytes 8 (readU64 record off).toNat = slice record off 8 :=
      fun off hoff => leBytes_readU64 (by omega)
    conv_rhs => rw [hfields]
    rw [ServiceLaunch.new_eq_ok.mp h]
    simp only [serviceWidths, slices, serviceRecord, serviceWords, List.map_cons, List.map_nil,
      List.cons_append, List.nil_append, Nat.zero_add, Nat.reduceAdd,
      PhysAddr.address_of_new (mapError_eq_ok.mp hartifact),
      PhysAddr.address_of_new (mapError_eq_ok.mp himage),
      PhysAddr.address_of_new (mapError_eq_ok.mp hstack),
      PhysAddr.address_of_new (mapError_eq_ok.mp htable), Nat.reduceLeDiff, hword]
    rw [toList_arrayAt (by omega)]

@[simp] theorem serviceFormat_width : serviceFormat.width = 160 := rfl

theorem putWord_zeros (pre post : List UInt8) (value : UInt64) :
    putWord (pre ++ (zeros 8 ++ post)) pre.length value =
      pre ++ (leBytes 8 value.toNat ++ post) := by
  rw [putWord, patch_append _ _ (by simp)]

/-- The writes of `encode_service` fill in the record. -/
theorem encodeService_zeros (service : ServiceLaunch) :
    encodeService service (zeros 160) = serviceFormat.write service := by
  have hwords := writeEach_eq putWord_zeros (fun _ => length_leBytes _ _) [] (zeros 64)
    (serviceWords service.toServiceFields)
  have hlen : (serviceWords service.toServiceFields).length = 12 := rfl
  rw [hlen, List.nil_append, List.nil_append, ← zeros_add, List.length_nil] at hwords
  have hhead : ((serviceWords service.toServiceFields).map
      fun value => leBytes 8 value.toNat).flatten.length = 96 := by
    simp [serviceWords]
  have hmeasurement : (zeros 64).length = service.measurement.toList.length := by
    rw [length_zeros, Vector.length_toList]
  have hpatch := patch_append ((serviceWords service.toServiceFields).map
    fun value => leBytes 8 value.toNat).flatten [] hmeasurement
  rw [hhead, List.append_nil, List.append_nil] at hpatch
  show patch (writeEach putWord 8 (zeros (12 * 8 + 64)) 0 _) 96 _ = _
  rw [hwords, hpatch]
  simp [serviceFormat, serviceRecord]

end Mrml.Boot
