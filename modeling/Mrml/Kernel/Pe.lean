import Mrml.Common.Trap
import Mrml.Common.Wire

/-!
# PE images

Model of the parser and loader of `crates/mrml-kernel/src/pe.rs`. The header arithmetic of the
source is on `usize` values below 2³³ + 2¹⁷ and is on `ℕ` here; fields of the image stay `u32`
and `u64`. Ranges taken with `get` are checks, and ranges taken by indexing are `Proc.index`,
`Proc.load` and `Proc.store`, which panic outside of the slice.

Results:
* `parse_valid`: what an accepted image satisfies (`PeImage.Valid`).
* `walkBlocks_safe`: the relocation walk comes to its end on all bytes, and only visits
  targets inside the image.
* `pe_image_safety`: the load regions of an accepted image, its entry point, and loading it.
-/

namespace Mrml.Kernel

/-- `PeError` (lines 17–36). -/
inductive PeError
  | truncated
  | invalidDosHeader
  | invalidSignature
  | unsupportedMachine
  | invalidCoffHeader
  | invalidOptionalHeader
  | invalidAlignment
  | invalidImageSize
  | tooManySections
  | invalidSection
  | overlappingSections
  | writableExecutableSection
  | entryPointNotExecutable
  | invalidDestination
  | unsupportedImports
  | invalidRelocations
  | relocationsRequired
  | relocationOverflow
deriving DecidableEq

/-- `PeLoadRegion` (lines 39–45). -/
structure PeLoadRegion where
  virtualAddress : UInt32
  pages : UInt32
  readable : Bool
  writable : Bool
  executable : Bool
deriving DecidableEq

/-- `PeSection` (lines 142–148). -/
structure PeSection where
  virtualAddress : UInt32
  virtualSize : UInt32
  fileOffset : UInt32
  fileSize : UInt32
  characteristics : UInt32
deriving DecidableEq

/-- `PeImage` (lines 174–184). -/
structure PeImage where
  encoded : List UInt8
  imageBase : UInt64
  entryRva : UInt32
  imageSize : UInt32
  headersSize : UInt32
  sectionTable : ℕ
  sectionCount : ℕ
  relocationRva : UInt32
  relocationSize : UInt32
deriving DecidableEq

namespace Pe

/-- `DOS_MAGIC` (line 3). -/
def dosMagic : UInt16 := 0x5a4d

/-- `PE_SIGNATURE` (line 4). -/
def peSignature : UInt32 := 0x4550

/-- `MACHINE_X86_64` (line 5). -/
def machineX86_64 : UInt16 := 0x8664

/-- `OPTIONAL_MAGIC_PE32_PLUS` (line 6). -/
def optionalMagicPe32Plus : UInt16 := 0x020b

/-- `COFF_EXECUTABLE` (line 7). -/
def coffExecutable : UInt16 := 0x0002

/-- `DLL_NX_COMPAT` (line 8). -/
def dllNxCompat : UInt16 := 0x0100

/-- `SECTION_EXECUTE` (line 9). -/
def sectionExecute : UInt32 := 0x20000000

/-- `SECTION_READ` (line 10). -/
def sectionRead : UInt32 := 0x40000000

/-- `SECTION_WRITE` (line 11). -/
def sectionWrite : UInt32 := 0x80000000

/-- `MAX_PE_SECTIONS` (line 12). -/
def maxPeSections : ℕ := 32

/-- `MAX_PE_IMAGE_BYTES` (line 13). -/
def maxPeImageBytes : UInt32 := 512 * 1024 * 1024

/-- `MAX_PE_RELOCATIONS` (line 14). -/
def maxPeRelocations : ℕ := 65536

/-- `u32::is_power_of_two`. -/
def isPowerOfTwo (value : UInt32) : Bool := value.toNat == 2 ^ value.toNat.log2

/-- `read_u16` (lines 639–647). -/
def readU16 (bytes : List UInt8) (offset : ℕ) : Except PeError UInt16 :=
  if offset + 2 ≤ bytes.length then .ok (Mrml.readU16 bytes offset) else .error .truncated

/-- `read_u32` (lines 648–656). -/
def readU32 (bytes : List UInt8) (offset : ℕ) : Except PeError UInt32 :=
  if offset + 4 ≤ bytes.length then .ok (Mrml.readU32 bytes offset) else .error .truncated

/-- `read_u64` (lines 657–665). -/
def readU64 (bytes : List UInt8) (offset : ℕ) : Except PeError UInt64 :=
  if offset + 8 ≤ bytes.length then .ok (Mrml.readU64 bytes offset) else .error .truncated

/-- `overlaps` (lines 636–638). -/
def overlaps (aStart aEnd bStart bEnd : UInt32) : Bool := aStart < bEnd && bStart < aEnd

/-- `pages_for` (lines 567–573). -/
def pagesFor (bytes : UInt32) : Except PeError UInt32 :=
  okOr (((checkedAdd32 bytes 4095).map (· / 4096)).filter (· ≠ 0)) .invalidSection

/-- `directory` (lines 574–594). -/
def directory (bytes : List UInt8) (optional optionalSize : ℕ) (count : UInt32) (index : ℕ) :
    Except PeError (UInt32 × UInt32) :=
  if count.toNat ≤ index then .ok (0, 0)
  else do
    let offset := 112 + index * 8
    refuseIf (offset + 8 > optionalSize) .invalidOptionalHeader
    let rva ← readU32 bytes (optional + offset)
    let size ← readU32 bytes (optional + offset + 4)
    return (rva, size)

end Pe

namespace PeSection

/-- `PeSection::readable` (lines 163–165). -/
def readable (s : PeSection) : Bool := s.characteristics &&& Pe.sectionRead != 0

/-- `PeSection::writable` (lines 166–168). -/
def writable (s : PeSection) : Bool := s.characteristics &&& Pe.sectionWrite != 0

/-- `PeSection::executable` (lines 169–171). -/
def executable (s : PeSection) : Bool := s.characteristics &&& Pe.sectionExecute != 0

/-- `section_end` (lines 555–560). -/
def sectionEnd (s : PeSection) : Except PeError UInt32 :=
  okOr (checkedAdd32 s.virtualAddress s.virtualSize) .invalidSection

/-- `file_end` (lines 561–566). -/
def fileEnd (s : PeSection) : Except PeError UInt32 :=
  okOr (checkedAdd32 s.fileOffset s.fileSize) .invalidSection

/-- The first condition of `validate_section` (lines 526–533). The end of the section is
    computed only if the tests before it pass. -/
def misplaced (s : PeSection) (headersSize imageSize sectionAlignment : UInt32) :
    Except PeError Bool :=
  if s.virtualSize = 0 ∨ s.virtualAddress < headersSize ∨
      s.virtualAddress % sectionAlignment ≠ 0 then .ok true
  else do
    let stop ← s.sectionEnd
    return stop > imageSize || s.writable && s.executable || s.executable && !s.readable ||
      s.writable && !s.readable || !(s.readable || s.writable || s.executable)

/-- `validate_section` (lines 518–554). -/
def validate (s : PeSection) (fileLength : ℕ)
    (headersSize imageSize sectionAlignment fileAlignment : UInt32) : Except PeError Unit := do
  let refused ← s.misplaced headersSize imageSize sectionAlignment
  refuseIf (refused = true)
    (if s.writable && s.executable then .writableExecutableSection else .invalidSection)
  if s.fileSize ≠ 0 then do
    refuseIf (s.fileOffset < headersSize ∨ s.fileOffset % fileAlignment ≠ 0 ∨
      s.fileSize % fileAlignment ≠ 0) .invalidSection
    let stop ← s.fileEnd
    refuseIf (stop.toNat > fileLength) .invalidSection
  else refuseIf (s.fileOffset ≠ 0) .invalidSection

end PeSection

/-- What `parse_with_limit` reads from the headers (lines 195–245). -/
structure PeHeaders where
  sectionTable : ℕ
  sectionCount : ℕ
  entryRva : UInt32
  imageBase : UInt64
  sectionAlignment : UInt32
  fileAlignment : UInt32
  imageSize : UInt32
  headersSize : UInt32
  relocationRva : UInt32
  relocationSize : UInt32
deriving DecidableEq

namespace PeHeaders

/-- The header fields and the checks between them (lines 195–245). -/
def read (encoded : List UInt8) : Except PeError PeHeaders := do
  let dos ← Pe.readU16 encoded 0
  refuseIf (dos ≠ Pe.dosMagic) .invalidDosHeader
  let pe := (← Pe.readU32 encoded 0x3c).toNat
  refuseIf (pe < 0x40) .invalidSignature
  let signature ← Pe.readU32 encoded pe
  refuseIf (signature ≠ Pe.peSignature) .invalidSignature
  let machine ← Pe.readU16 encoded (pe + 4)
  refuseIf (machine ≠ Pe.machineX86_64) .unsupportedMachine
  let sectionCount := (← Pe.readU16 encoded (pe + 6)).toNat
  refuseIf (sectionCount = 0 ∨ sectionCount > Pe.maxPeSections) .tooManySections
  let coff ← Pe.readU16 encoded (pe + 22)
  refuseIf (coff &&& Pe.coffExecutable = 0) .invalidCoffHeader
  let optionalSize := (← Pe.readU16 encoded (pe + 20)).toNat
  refuseIf (optionalSize < 112) .invalidOptionalHeader
  let optional := pe + 24
  let sectionTable := optional + optionalSize
  refuseIf (sectionTable + sectionCount * 40 > encoded.length) .truncated
  let magic ← Pe.readU16 encoded optional
  refuseIf (magic ≠ Pe.optionalMagicPe32Plus) .invalidOptionalHeader
  let dll ← Pe.readU16 encoded (optional + 70)
  refuseIf (dll &&& Pe.dllNxCompat = 0) .invalidOptionalHeader
  let entryRva ← Pe.readU32 encoded (optional + 16)
  let imageBase ← Pe.readU64 encoded (optional + 24)
  let sectionAlignment ← Pe.readU32 encoded (optional + 32)
  let fileAlignment ← Pe.readU32 encoded (optional + 36)
  let imageSize ← Pe.readU32 encoded (optional + 56)
  let headersSize ← Pe.readU32 encoded (optional + 60)
  let directoryCount ← Pe.readU32 encoded (optional + 108)
  let imports ← Pe.directory encoded optional optionalSize directoryCount 1
  refuseIf (imports.1 ≠ 0 ∨ imports.2 ≠ 0) .unsupportedImports
  let relocations ← Pe.directory encoded optional optionalSize directoryCount 5
  return { sectionTable, sectionCount, entryRva, imageBase, sectionAlignment, fileAlignment,
           imageSize, headersSize, relocationRva := relocations.1,
           relocationSize := relocations.2 }

/-- `table_end` (lines 220–223). -/
def tableEnd (h : PeHeaders) : ℕ := h.sectionTable + h.sectionCount * 40

/-- The checks of alignments and sizes (lines 246–267). -/
def check (h : PeHeaders) (fileLength : ℕ) (maximumImageBytes : UInt32) : Except PeError Unit := do
  refuseIf (h.sectionAlignment < 4096 ∨ Pe.isPowerOfTwo h.sectionAlignment = false ∨
    ¬ (512 ≤ h.fileAlignment ∧ h.fileAlignment ≤ 65536) ∨
    Pe.isPowerOfTwo h.fileAlignment = false ∨ h.headersSize = 0 ∨
    h.headersSize % h.fileAlignment ≠ 0 ∨ h.headersSize.toNat > fileLength ∨
    h.tableEnd > h.headersSize.toNat) .invalidAlignment
  refuseIf (h.entryRva = 0 ∨ h.imageSize = 0 ∨ h.imageSize > maximumImageBytes ∨
    fileLength > maximumImageBytes.toNat ∨ h.imageSize % h.sectionAlignment ≠ 0 ∨
    h.headersSize > h.imageSize ∨ h.imageBase % 65536 ≠ 0 ∨
    (checkedAdd64 h.imageBase h.imageSize.toUInt64).isNone = true) .invalidImageSize

/-- The image of these headers (lines 268–278). -/
def image (h : PeHeaders) (encoded : List UInt8) : PeImage :=
  ⟨encoded, h.imageBase, h.entryRva, h.imageSize, h.headersSize, h.sectionTable, h.sectionCount,
    h.relocationRva, h.relocationSize⟩

end PeHeaders

namespace PeImage

/-- `PeImage::section` (lines 492–508). -/
def sectionAt (image : PeImage) (index : ℕ) : Except PeError PeSection := do
  refuseIf (index ≥ image.sectionCount) .invalidSection
  let offset := image.sectionTable + index * 40
  let fileSize ← Pe.readU32 image.encoded (offset + 16)
  let virtualSize ← Pe.readU32 image.encoded (offset + 8)
  let virtualAddress ← Pe.readU32 image.encoded (offset + 12)
  let fileOffset ← Pe.readU32 image.encoded (offset + 20)
  let characteristics ← Pe.readU32 image.encoded (offset + 36)
  return ⟨virtualAddress, max virtualSize fileSize, fileOffset, fileSize, characteristics⟩

/-- `PeImage::section_data` (lines 509–515). -/
def sectionData (image : PeImage) (s : PeSection) : Except PeError (List UInt8) :=
  if s.fileOffset.toNat + s.fileSize.toNat ≤ image.encoded.length then
    .ok (slice image.encoded s.fileOffset.toNat s.fileSize.toNat)
  else .error .invalidSection

/-- `load_region_count` (lines 336–338). -/
def loadRegionCount (image : PeImage) : ℕ := image.sectionCount + 1

/-- `PeImage::load_region` (lines 343–361). -/
def loadRegion (image : PeImage) : ℕ → Except PeError PeLoadRegion
  | 0 => do
    let pages ← Pe.pagesFor image.headersSize
    return ⟨0, pages, true, false, false⟩
  | index + 1 => do
    let s ← image.sectionAt index
    let pages ← Pe.pagesFor s.virtualSize
    return ⟨s.virtualAddress, pages, s.readable, s.writable, s.executable⟩

/-- The inner loop of `parse_with_limit` (lines 294–312): the section at `rightIndex` overlaps
    `left` neither in memory nor in the file. -/
def checkDisjoint (image : PeImage) (left : PeSection) (leftEnd : UInt32) (rightIndex : ℕ) :
    Except PeError Unit := do
  let right ← image.sectionAt rightIndex
  let rightEnd ← right.sectionEnd
  refuseIf (Pe.overlaps left.virtualAddress leftEnd right.virtualAddress rightEnd = true)
    .overlappingSections
  if left.fileSize ≠ 0 ∧ right.fileSize ≠ 0 then do
    let leftEnd ← left.fileEnd
    let rightEnd ← right.fileEnd
    refuseIf (Pe.overlaps left.fileOffset leftEnd right.fileOffset rightEnd = true)
      .overlappingSections

/-- One iteration of the outer loop (lines 280–313): whether the section holds the entry
    point and is executable. -/
def checkSection (image : PeImage) (sectionAlignment fileAlignment : UInt32) (leftIndex : ℕ) :
    Except PeError Bool := do
  let left ← image.sectionAt leftIndex
  left.validate image.encoded.length image.headersSize image.imageSize sectionAlignment
    fileAlignment
  let leftEnd ← left.sectionEnd
  (List.range leftIndex).forM (image.checkDisjoint left leftEnd)
  return left.executable && image.entryRva ≥ left.virtualAddress && image.entryRva < leftEnd

/-- The loop over the sections (lines 279–313), with `entry_is_executable`. -/
def checkSections (image : PeImage) (sectionAlignment fileAlignment : UInt32) :
    Except PeError Bool :=
  (List.range image.sectionCount).foldlM (fun entryIsExecutable leftIndex => do
    return entryIsExecutable ||
      (← image.checkSection sectionAlignment fileAlignment leftIndex)) false

/-- `rva_file_data` (lines 471–491). -/
def rvaFileData (image : PeImage) (rva size : UInt32) : Except PeError (List UInt8) := do
  let stop ← okOr (checkedAdd32 rva size) .invalidRelocations
  search stop (List.range image.sectionCount)
where
  /-- The loop over the sections (lines 473–489). -/
  search (stop : UInt32) : List ℕ → Except PeError (List UInt8)
    | [] => .error .invalidRelocations
    | index :: indices => do
      let s ← image.sectionAt index
      let rawEnd ← okOr (checkedAdd32 s.virtualAddress s.fileSize) .invalidRelocations
      if rva ≥ s.virtualAddress ∧ stop ≤ rawEnd then do
        let offset := (← okOr (checkedAdd32 s.fileOffset (rva - s.virtualAddress))
          .invalidRelocations).toNat
        if offset + size.toNat ≤ image.encoded.length then
          .ok (slice image.encoded offset size.toNat)
        else .error .invalidRelocations
      else search stop indices

end PeImage

namespace Pe

open Proc

variable {σ : Type}

/-- The entries of a block: `as_chunks::<2>().0` (line 614), read as `u16`. -/
def entries : List UInt8 → List UInt16
  | low :: high :: rest => Mrml.readU16 [low, high] 0 :: entries rest
  | _ => []

/-- The loop over the entries of a block (lines 614–631), with the number of entries seen. -/
def walkEntries (visit : UInt32 → UInt16 → Proc PeError σ Unit) (imageSize page : UInt32) :
    ℕ → List UInt16 → Proc PeError σ ℕ
  | count, [] => pure count
  | count, encoded :: rest => do
    ofExcept (refuseIf (count + 1 > maxPeRelocations) .invalidRelocations)
    let kind := encoded >>> 12
    ofExcept (refuseIf (kind ≠ 0 ∧ kind ≠ 10) .invalidRelocations)
    let target ← ofExcept (okOr (checkedAdd32 page (encoded &&& 0x0fff).toUInt32)
      .invalidRelocations)
    ofExcept (refuseIf (kind = 10 ∧
      ((checkedAdd32 target 8).all (· > imageSize)) = true) .invalidRelocations)
    visit target kind
    walkEntries visit imageSize page (count + 1) rest

/-- The loop of `walk_relocations` (lines 601–633), for at most `fuel` blocks. -/
def walkBlocks (visit : UInt32 → UInt16 → Proc PeError σ Unit) (imageSize : UInt32) :
    ℕ → ℕ → List UInt8 → Proc PeError σ Unit
  | _, _, [] => pure ()
  | 0, _, _ => outOfFuel
  | fuel + 1, count, bytes => do
    ofExcept (refuseIf (bytes.length < 8) .invalidRelocations)
    let page ← ofExcept (readU32 bytes 0)
    let blockSize := (← ofExcept (readU32 bytes 4)).toNat
    ofExcept (refuseIf (blockSize < 8 ∨ blockSize > bytes.length ∨ blockSize % 2 ≠ 0 ∨
      page % 4096 ≠ 0) .invalidRelocations)
    let body ← index bytes 8 blockSize
    let count ← walkEntries visit imageSize page count (entries body)
    let rest ← index bytes blockSize bytes.length
    walkBlocks visit imageSize fuel count rest

/-- `walk_relocations` (lines 595–635). A block takes at least eight bytes, so that there is
    fuel for every block. -/
def walkRelocations (bytes : List UInt8) (imageSize : UInt32)
    (visit : UInt32 → UInt16 → Proc PeError σ Unit) : Proc PeError σ Unit :=
  walkBlocks visit imageSize bytes.length 0 bytes

end Pe

namespace PeImage

open Proc

/-- `validate_relocations` (lines 434–443). -/
def validateRelocations (image : PeImage) : Proc PeError Unit Unit := do
  ofExcept (refuseIf ((image.relocationRva = 0) ≠ (image.relocationSize = 0)) .invalidRelocations)
  if image.relocationSize = 0 then pure ()
  else do
    let bytes ← ofExcept (image.rvaFileData image.relocationRva image.relocationSize)
    Pe.walkRelocations bytes image.imageSize fun _ _ => pure ()

/-- The headers and sections of `parse_with_limit` (lines 192–316). -/
def parseSections (encoded : List UInt8) (maximumImageBytes : UInt32) :
    Except PeError PeImage := do
  refuseIf (maximumImageBytes = 0 ∨ maximumImageBytes > Pe.maxPeImageBytes) .invalidImageSize
  let headers ← PeHeaders.read encoded
  headers.check encoded.length maximumImageBytes
  let image := headers.image encoded
  let entryIsExecutable ← image.checkSections headers.sectionAlignment headers.fileAlignment
  refuseIf (entryIsExecutable = false) .entryPointNotExecutable
  return image

/-- `PeImage::parse_with_limit` (lines 191–319). -/
def parseWithLimit (encoded : List UInt8) (maximumImageBytes : UInt32) :
    Except (Fault PeError) PeImage := do
  let image ← (parseSections encoded maximumImageBytes).mapError Fault.error
  (image.validateRelocations ()).1
  return image

/-- `PeImage::parse` (lines 187–189). -/
def parse (encoded : List UInt8) : Except (Fault PeError) PeImage :=
  parseWithLimit encoded Pe.maxPeImageBytes

/-- The visitor of `apply_relocations` (lines 447–468). -/
def relocate (image : PeImage) (loadBase : UInt64) (target : UInt32) (kind : UInt16) :
    Proc PeError (List UInt8) Unit := do
  if kind = 0 then pure ()
  else do
    let bytes ← load target.toNat (target.toNat + 8)
    let value := Mrml.readU64 bytes 0
    if value = 0 then pure ()
    else do
      let relative ← ofExcept (okOr ((checkedSub64 value image.imageBase).filter
        (· < image.imageSize.toUInt64)) .relocationOverflow)
      let relocated ← ofExcept (okOr (checkedAdd64 loadBase relative) .relocationOverflow)
      store target.toNat (target.toNat + 8) (leBytes 8 relocated.toNat)

/-- `apply_relocations` (lines 444–470). -/
def applyRelocations (image : PeImage) (loadBase : UInt64) : Proc PeError (List UInt8) Unit := do
  let bytes ← ofExcept (image.rvaFileData image.relocationRva image.relocationSize)
  Pe.walkRelocations bytes image.imageSize (image.relocate loadBase)

/-- The loop over the sections of `materialize_at` (lines 414–425). -/
def copySection (image : PeImage) (index : ℕ) : Proc PeError (List UInt8) Unit := do
  let s ← ofExcept (image.sectionAt index)
  let source ← ofExcept (image.sectionData s)
  let start := s.virtualAddress.toNat
  storeOr start (start + source.length) source .invalidDestination

/-- `PeImage::materialize_at` (lines 395–432), on the destination buffer. -/
def materializeAt (image : PeImage) (loadBase : UInt64) : Proc PeError (List UInt8) UInt64 := do
  let len ← length
  ofExcept (refuseIf (len ≠ image.imageSize.toNat) .invalidDestination)
  ofExcept (refuseIf (loadBase % 4096 ≠ 0 ∨
    (checkedAdd64 loadBase image.imageSize.toUInt64).isNone = true) .invalidDestination)
  ofExcept (refuseIf (loadBase ≠ image.imageBase ∧ image.relocationSize = 0) .relocationsRequired)
  fillZero
  let headers ← index image.encoded 0 image.headersSize.toNat
  store 0 image.headersSize.toNat headers
  forEach image.copySection (List.range image.sectionCount)
  if loadBase ≠ image.imageBase then image.applyRelocations loadBase
  ofExcept (okOr (checkedAdd64 loadBase image.entryRva.toUInt64) .invalidImageSize)

end PeImage

/-! ## What an accepted image satisfies -/

namespace Pe

/-- A power of two from 4096 on is a multiple of 4096. -/
theorem dvd_of_isPowerOfTwo {value : UInt32} (h : isPowerOfTwo value = true)
    (hmin : ¬ value < 4096) : 4096 ∣ value.toNat := by
  rw [isPowerOfTwo, beq_iff_eq] at h
  rw [UInt32.lt_iff_toNat_lt, not_lt] at hmin
  have hle : 12 ≤ value.toNat.log2 := by
    by_contra hlt
    have hpow : 2 ^ value.toNat.log2 ≤ 2 ^ 11 := Nat.pow_le_pow_right (by decide) (by omega)
    have hbound : 4096 ≤ value.toNat := hmin
    omega
  rw [h]
  exact pow_dvd_pow 2 hle

end Pe

/-- Two sections without a common address. -/
def PeSection.Apart (left right : PeSection) : Prop :=
  left.virtualAddress.toNat + left.virtualSize.toNat ≤ right.virtualAddress.toNat ∨
    right.virtualAddress.toNat + right.virtualSize.toNat ≤ left.virtualAddress.toNat

/-- The section holds the address `rva`. -/
def PeSection.Holds (s : PeSection) (rva : UInt32) : Prop :=
  s.virtualAddress.toNat ≤ rva.toNat ∧
    rva.toNat < s.virtualAddress.toNat + s.virtualSize.toNat

/-- A section that has passed its checks, in an image of `imageSize` bytes. -/
structure PeSection.Valid (s : PeSection) (headersSize imageSize : ℕ) : Prop where
  size_pos : 0 < s.virtualSize.toNat
  after_headers : headersSize ≤ s.virtualAddress.toNat
  aligned : 4096 ∣ s.virtualAddress.toNat
  in_image : s.virtualAddress.toNat + s.virtualSize.toNat ≤ imageSize
  not_writable_executable : ¬ (s.writable = true ∧ s.executable = true)

theorem PeSection.valid_of_validate {s : PeSection} {fileLength : ℕ}
    {headersSize imageSize sectionAlignment fileAlignment : UInt32} {u : Unit}
    (halign : 4096 ∣ sectionAlignment.toNat)
    (h : s.validate fileLength headersSize imageSize sectionAlignment fileAlignment = .ok u) :
    s.Valid headersSize.toNat imageSize.toNat := by
  obtain ⟨refused, hrefused, h⟩ := bind_eq_ok.mp h
  obtain ⟨_, hnot, -⟩ := bind_eq_ok.mp h
  obtain rfl := Bool.eq_false_of_not_eq_true (refuseIf_eq_ok.mp hnot)
  unfold misplaced at hrefused
  split_ifs at hrefused with hfirst
  · cases hrefused
  obtain ⟨stop, hstop, hrefused⟩ := bind_eq_ok.mp hrefused
  have hrefused := Except.ok.inj hrefused
  rw [sectionEnd, okOr_eq_ok, checkedAdd32_eq_some] at hstop
  simp only [not_or, not_not, UInt32.lt_iff_toNat_lt, not_lt] at hfirst
  obtain ⟨hsize, hheaders, hmod⟩ := hfirst
  simp only [Bool.or_eq_false_iff, decide_eq_false_iff_not, gt_iff_lt, UInt32.lt_iff_toNat_lt,
    not_lt] at hrefused
  obtain ⟨⟨⟨⟨hin, hwx⟩, -⟩, -⟩, -⟩ := hrefused
  constructor
  · exact Nat.pos_of_ne_zero fun h => hsize (UInt32.toNat_inj.mp h)
  · exact hheaders
  · have hmod := congrArg UInt32.toNat hmod
    rw [UInt32.toNat_mod] at hmod
    exact halign.trans (Nat.dvd_of_mod_eq_zero hmod)
  · omega
  · rintro ⟨hw, hx⟩
    rw [hw, hx] at hwx
    cases hwx

namespace PeImage

/-- What the checks of `parse_with_limit` establish. -/
structure Valid (image : PeImage) : Prop where
  headers_in_image : image.headersSize.toNat ≤ image.imageSize.toNat
  headers_in_file : image.headersSize.toNat ≤ image.encoded.length
  headers_pos : 0 < image.headersSize.toNat
  size_aligned : 4096 ∣ image.imageSize.toNat
  size_le : image.imageSize.toNat ≤ 2 ^ 29
  sections : ∀ i < image.sectionCount, ∃ s, image.sectionAt i = .ok s ∧
    s.Valid image.headersSize.toNat image.imageSize.toNat
  disjoint : ∀ i < image.sectionCount, ∀ j < i, ∀ left right, image.sectionAt i = .ok left →
    image.sectionAt j = .ok right → left.Apart right
  entry : ∃ i < image.sectionCount, ∃ s, image.sectionAt i = .ok s ∧ s.executable = true ∧
    s.Holds image.entryRva

theorem of_checkDisjoint {image : PeImage} {left right : PeSection} {leftEnd : UInt32} {j : ℕ}
    {u : Unit} (hend : left.sectionEnd = .ok leftEnd) (hright : image.sectionAt j = .ok right)
    (h : image.checkDisjoint left leftEnd j = .ok u) :
    left.Apart right := by
  obtain ⟨right', hright', h⟩ := bind_eq_ok.mp h
  obtain rfl := Except.ok.inj (hright.symm.trans hright')
  obtain ⟨rightEnd, hrightEnd, h⟩ := bind_eq_ok.mp h
  obtain ⟨_, hmemory, -⟩ := bind_eq_ok.mp h
  rw [PeSection.sectionEnd, okOr_eq_ok, checkedAdd32_eq_some] at hend hrightEnd
  have hmemory := refuseIf_eq_ok.mp hmemory
  unfold PeSection.Apart
  simp only [Pe.overlaps, Bool.and_eq_true, decide_eq_true_eq, UInt32.lt_iff_toNat_lt] at hmemory
  omega

/-- What one iteration of the loop over the sections establishes. -/
theorem of_checkSection {image : PeImage} {sectionAlignment fileAlignment : UInt32} {i : ℕ}
    {hit : Bool} (halign : 4096 ∣ sectionAlignment.toNat)
    (h : image.checkSection sectionAlignment fileAlignment i = .ok hit) :
    ∃ left, image.sectionAt i = .ok left ∧
      left.Valid image.headersSize.toNat image.imageSize.toNat ∧
      (∀ j < i, ∀ right, image.sectionAt j = .ok right → left.Apart right) ∧
      (hit = true → left.executable = true ∧ left.Holds image.entryRva) := by
  obtain ⟨left, hleft, h⟩ := bind_eq_ok.mp h
  obtain ⟨_, hvalid, h⟩ := bind_eq_ok.mp h
  obtain ⟨leftEnd, hend, h⟩ := bind_eq_ok.mp h
  obtain ⟨_, hdisjoint, h⟩ := bind_eq_ok.mp h
  obtain rfl := Except.ok.inj h
  refine ⟨left, hleft, PeSection.valid_of_validate halign hvalid, ?_, ?_⟩
  · intro j hj right hright
    exact of_checkDisjoint hend hright (of_forM_eq_ok hdisjoint j (List.mem_range.mpr hj))
  · intro hhit
    simp only [Bool.and_eq_true, decide_eq_true_eq, ge_iff_le, UInt32.le_iff_toNat_le,
      UInt32.lt_iff_toNat_lt] at hhit
    rw [PeSection.sectionEnd, okOr_eq_ok, checkedAdd32_eq_some] at hend
    exact ⟨hhit.1.1, hhit.1.2, by omega⟩

theorem valid_of_check {headers : PeHeaders} {encoded : List UInt8} {maximumImageBytes : UInt32}
    {u : Unit} {found : Bool} (hmaximum : ¬ maximumImageBytes > Pe.maxPeImageBytes)
    (hcheck : headers.check encoded.length maximumImageBytes = .ok u)
    (hsections : (headers.image encoded).checkSections headers.sectionAlignment
      headers.fileAlignment = .ok found) (hfound : found = true) :
    (headers.image encoded).Valid := by
  obtain ⟨_, halignment, hcheck⟩ := bind_eq_ok.mp hcheck
  have halignment := refuseIf_eq_ok.mp halignment
  have hsize := refuseIf_eq_ok.mp hcheck
  simp only [not_or, not_not, gt_iff_lt, not_lt, Bool.not_eq_false] at halignment hsize hmaximum
  obtain ⟨hpage, hpower, -, -, hpos, -, hfile, -⟩ := halignment
  obtain ⟨-, -, hlimit, -, hmultiple, hheaders, -⟩ := hsize
  have halign := Pe.dvd_of_isPowerOfTwo hpower hpage
  obtain ⟨hall, hany⟩ := of_foldlM_or_eq_ok hsections
  have hsection : ∀ i < headers.sectionCount, ∃ hit, (headers.image encoded).checkSection
      headers.sectionAlignment headers.fileAlignment i = .ok hit :=
    fun i hi => hall i (List.mem_range.mpr hi)
  constructor
  · exact UInt32.le_iff_toNat_le.mp (UInt32.not_lt.mp hheaders)
  · exact hfile
  · exact Nat.pos_of_ne_zero fun h => hpos (UInt32.toNat_inj.mp h)
  · have hmultiple := congrArg UInt32.toNat hmultiple
    rw [UInt32.toNat_mod] at hmultiple
    exact halign.trans (Nat.dvd_of_mod_eq_zero hmultiple)
  · exact UInt32.le_iff_toNat_le.mp (UInt32.le_trans (UInt32.not_lt.mp hlimit) (UInt32.not_lt.mp hmaximum))
  · intro i hi
    obtain ⟨hit, hhit⟩ := hsection i hi
    obtain ⟨s, hs, hvalid, -⟩ := of_checkSection halign hhit
    exact ⟨s, hs, hvalid⟩
  · intro i hi j hj left right hleft hright
    obtain ⟨hit, hhit⟩ := hsection i hi
    obtain ⟨s, hs, -, hapart, -⟩ := of_checkSection halign hhit
    obtain rfl := Except.ok.inj (hs.symm.trans hleft)
    exact hapart j hj right hright
  · rcases hany hfound with h | ⟨i, hi, hhit⟩
    · cases h
    · obtain ⟨s, hs, -, -, hentry⟩ := of_checkSection halign hhit
      exact ⟨i, List.mem_range.mp hi, s, hs, hentry rfl⟩

theorem parse_valid {encoded : List UInt8} {maximumImageBytes : UInt32} {image : PeImage}
    (h : parseWithLimit encoded maximumImageBytes = .ok image) : image.Valid := by
  obtain ⟨image', hparse, h⟩ := bind_eq_ok.mp h
  obtain ⟨_, -, h⟩ := bind_eq_ok.mp h
  obtain rfl := Except.ok.inj h
  rw [mapError_eq_ok] at hparse
  obtain ⟨_, hmaximum, hparse⟩ := bind_eq_ok.mp hparse
  obtain ⟨headers, -, hparse⟩ := bind_eq_ok.mp hparse
  obtain ⟨_, hcheck, hparse⟩ := bind_eq_ok.mp hparse
  obtain ⟨found, hsections, hparse⟩ := bind_eq_ok.mp hparse
  obtain ⟨_, hfound, hparse⟩ := bind_eq_ok.mp hparse
  obtain rfl := Except.ok.inj hparse
  exact valid_of_check (fun h => refuseIf_eq_ok.mp hmaximum (.inr h)) hcheck hsections
    (Bool.eq_true_of_not_eq_false (refuseIf_eq_ok.mp hfound))

end PeImage

/-! ## Load regions -/

/-- The first byte of a region. -/
def PeLoadRegion.start (r : PeLoadRegion) : ℕ := r.virtualAddress.toNat

/-- The byte after the last page of a region. -/
def PeLoadRegion.stop (r : PeLoadRegion) : ℕ := r.virtualAddress.toNat + r.pages.toNat * 4096

theorem Pe.pagesFor_eq {bytes : UInt32} (hpos : 0 < bytes.toNat) (hle : bytes.toNat ≤ 2 ^ 29) :
    ∃ pages, Pe.pagesFor bytes = .ok pages ∧ pages.toNat = (bytes.toNat + 4095) / 4096 := by
  have hadd : (bytes + 4095).toNat = bytes.toNat + 4095 := by
    rw [UInt32.toNat_add]
    exact Nat.mod_eq_of_lt (by show bytes.toNat + 4095 < 2 ^ 32; omega)
  have hsum : checkedAdd32 bytes 4095 = some (bytes + 4095) := checkedAdd32_eq_some.mpr hadd
  have hdiv : ((bytes + 4095) / 4096).toNat = (bytes.toNat + 4095) / 4096 := by
    rw [UInt32.toNat_div, hadd]
    rfl
  refine ⟨(bytes + 4095) / 4096, ?_, hdiv⟩
  have hne : (bytes + 4095) / 4096 ≠ 0 := by
    intro h
    rw [h] at hdiv
    have : (0 : UInt32).toNat = 0 := rfl
    omega
  rw [Pe.pagesFor, hsum, okOr_eq_ok]
  exact Option.filter_eq_some_iff.mpr ⟨rfl, decide_eq_true hne⟩

namespace PeImage

variable {image : PeImage}

/-- Region zero covers the headers. -/
theorem Valid.loadRegion_zero (h : image.Valid) :
    ∃ r, image.loadRegion 0 = .ok r ∧ r.start = 0 ∧
      r.stop = (image.headersSize.toNat + 4095) / 4096 * 4096 ∧ r.writable = false := by
  have hsize := h.size_le
  have hheaders := h.headers_in_image
  obtain ⟨pages, hpages, heq⟩ := Pe.pagesFor_eq h.headers_pos (by omega)
  refine ⟨⟨0, pages, true, false, false⟩, ?_, rfl, ?_, rfl⟩
  · exact bind_eq_ok.mpr ⟨pages, hpages, rfl⟩
  · rw [← heq]
    exact Nat.zero_add _

/-- The later regions cover the sections. -/
theorem Valid.loadRegion_succ (h : image.Valid) {i : ℕ} (hi : i < image.sectionCount) :
    ∃ s r, image.sectionAt i = .ok s ∧ s.Valid image.headersSize.toNat image.imageSize.toNat ∧
      image.loadRegion (i + 1) = .ok r ∧ r.start = s.virtualAddress.toNat ∧
      r.stop = s.virtualAddress.toNat + (s.virtualSize.toNat + 4095) / 4096 * 4096 ∧
      r.writable = s.writable ∧ r.executable = s.executable := by
  obtain ⟨s, hs, hvalid⟩ := h.sections i hi
  have hsize := h.size_le
  have hin := hvalid.in_image
  obtain ⟨pages, hpages, heq⟩ := Pe.pagesFor_eq hvalid.size_pos (by omega)
  refine ⟨s, ⟨s.virtualAddress, pages, s.readable, s.writable, s.executable⟩, hs, hvalid, ?_,
    rfl, ?_, rfl, rfl⟩
  · exact bind_eq_ok.mpr ⟨s, hs, bind_eq_ok.mpr ⟨pages, hpages, rfl⟩⟩
  · exact congrArg (s.virtualAddress.toNat + · * 4096) heq

/-- Every region is made of pages of the image, and none is writable and executable. -/
theorem Valid.loadRegion_spec (h : image.Valid) {i : ℕ} (hi : i < image.loadRegionCount) :
    ∃ r, image.loadRegion i = .ok r ∧ 4096 ∣ r.start ∧ r.stop ≤ image.imageSize.toNat ∧
      ¬ (r.writable = true ∧ r.executable = true) := by
  have haligned := h.size_aligned
  have hheaders := h.headers_in_image
  cases i with
  | zero =>
    obtain ⟨r, hr, hstart, hstop, hw⟩ := h.loadRegion_zero
    refine ⟨r, hr, by omega, by omega, ?_⟩
    rw [hw]
    simp
  | succ i =>
    obtain ⟨s, r, -, hvalid, hr, hstart, hstop, hw, hx⟩ :=
      h.loadRegion_succ (Nat.lt_of_succ_lt_succ hi)
    have hin := hvalid.in_image
    have hpage := hvalid.aligned
    refine ⟨r, hr, by omega, by omega, ?_⟩
    rw [hw, hx]
    exact hvalid.not_writable_executable

/-- The regions of an image have no page in common. -/
theorem Valid.loadRegion_disjoint (h : image.Valid) {i j : ℕ} (hj : j < i)
    (hi : i < image.loadRegionCount) {left right : PeLoadRegion}
    (hleft : image.loadRegion i = .ok left) (hright : image.loadRegion j = .ok right) :
    left.stop ≤ right.start ∨ right.stop ≤ left.start := by
  obtain ⟨i, rfl⟩ : ∃ k, i = k + 1 := ⟨i - 1, by omega⟩
  have hi : i < image.sectionCount := Nat.lt_of_succ_lt_succ hi
  obtain ⟨s, r, hs, hvalid, hr, hstart, hstop, -⟩ := h.loadRegion_succ hi
  obtain rfl := Except.ok.inj (hr.symm.trans hleft)
  have hpage := hvalid.aligned
  cases j with
  | zero =>
    -- The headers end before the first section, and so does their last page.
    obtain ⟨r₀, hr₀, hstart₀, hstop₀, -⟩ := h.loadRegion_zero
    obtain rfl := Except.ok.inj (hr₀.symm.trans hright)
    have hafter := hvalid.after_headers
    omega
  | succ j =>
    obtain ⟨s', r', hs', hvalid', hr', hstart', hstop', -⟩ :=
      h.loadRegion_succ (show j < image.sectionCount by omega)
    obtain rfl := Except.ok.inj (hr'.symm.trans hright)
    have hpage' := hvalid'.aligned
    have hapart := h.disjoint i hi j (by omega) s s' hs hs'
    unfold PeSection.Apart at hapart
    omega

end PeImage

/-! ## The relocation walk -/

namespace Pe

open Proc

variable {σ : Type} {I : σ → Prop} {visit : UInt32 → UInt16 → Proc PeError σ Unit}
  {imageSize : UInt32}

/-- A target that the walk may hand to its visitor. -/
def InImage (imageSize target : UInt32) (kind : UInt16) : Prop :=
  kind = 0 ∨ target.toNat + 8 ≤ imageSize.toNat

theorem walkEntries_safe
    (hvisit : ∀ target kind, InImage imageSize target kind → Safe I (visit target kind) fun _ => True)
    (page : UInt32) (list : List UInt16) (count : ℕ) :
    Safe I (walkEntries visit imageSize page count list) fun _ => True := by
  induction list generalizing count with
  | nil => exact safe_pure trivial
  | cons encoded rest ih =>
    refine safe_refuseIf.bind fun _ _ => safe_refuseIf.bind fun _ hkind => ?_
    refine (safe_ofExcept fun _ _ => trivial).bind (Q := fun _ => True) fun target _ => ?_
    refine safe_refuseIf.bind fun _ htarget => ?_
    refine (hvisit target _ ?_).bind fun _ _ => ih (count + 1)
    by_cases hzero : encoded >>> 12 = 0
    · exact .inl hzero
    · refine .inr ?_
      have hten : encoded >>> 12 = 10 := by
        by_contra hten
        exact hkind ⟨hzero, hten⟩
      have hend : ¬ (checkedAdd32 target 8).all (· > imageSize) = true :=
        fun h => htarget ⟨hten, h⟩
      cases hsum : checkedAdd32 target 8 with
      | none =>
        rw [hsum] at hend
        exact absurd rfl hend
      | some stop =>
        rw [hsum, Option.all_some, decide_eq_true_eq, gt_iff_lt, UInt32.lt_iff_toNat_lt] at hend
        have heq : stop.toNat = target.toNat + 8 := checkedAdd32_eq_some.mp hsum
        omega

/-- The walk comes to its end on all bytes: a block takes at least eight of them. -/
theorem walkBlocks_safe
    (hvisit : ∀ target kind, InImage imageSize target kind →
      Safe I (visit target kind) fun _ => True)
    {fuel : ℕ} {bytes : List UInt8} (hfuel : bytes.length ≤ fuel) (count : ℕ) :
    Safe I (walkBlocks visit imageSize fuel count bytes) fun _ => True := by
  induction fuel generalizing bytes count with
  | zero =>
    obtain rfl := List.eq_nil_of_length_eq_zero (Nat.le_zero.mp hfuel)
    exact safe_pure trivial
  | succ fuel ih =>
    cases bytes with
    | nil => exact safe_pure trivial
    | cons b bytes =>
      refine safe_refuseIf.bind fun _ _ => ?_
      refine (safe_ofExcept fun _ _ => trivial).bind (Q := fun _ => True) fun page _ => ?_
      refine (safe_ofExcept fun _ _ => trivial).bind (Q := fun _ => True) fun size _ => ?_
      refine safe_refuseIf.bind fun _ hsize => ?_
      simp only [not_or, not_lt, gt_iff_lt] at hsize
      obtain ⟨hmin, hmax, -⟩ := hsize
      refine (safe_index hmin hmax).bind fun body _ => ?_
      refine (walkEntries_safe hvisit page (entries body) count).bind fun count _ => ?_
      refine (safe_index hmax le_rfl).bind fun rest hrest => ?_
      refine ih ?_ count
      subst hrest
      rw [length_slice (by omega)]
      omega

end Pe

namespace PeImage

open Proc

/-- A relocation reads and writes inside the image. -/
theorem relocate_safe (image : PeImage) (loadBase : UInt64) {target : UInt32} {kind : UInt16}
    (h : Pe.InImage image.imageSize target kind) :
    Safe (fun s => s.length = image.imageSize.toNat) (image.relocate loadBase target kind)
      fun _ => True := by
  unfold relocate
  split_ifs with hzero
  · exact safe_pure trivial
  · have htarget : target.toNat + 8 ≤ image.imageSize.toNat := h.resolve_left hzero
    refine (safe_load (Nat.le_add_right _ _) htarget).bind fun bytes _ => ?_
    dsimp only
    split_ifs with hvalue
    · exact safe_pure trivial
    · refine (safe_ofExcept fun _ _ => trivial).bind (Q := fun _ => True) fun relative _ => ?_
      refine (safe_ofExcept fun _ _ => trivial).bind (Q := fun _ => True) fun relocated _ => ?_
      refine safe_store (Nat.le_add_right _ _) htarget ?_
      rw [length_leBytes]
      omega

theorem applyRelocations_safe (image : PeImage) (loadBase : UInt64) :
    Safe (fun s => s.length = image.imageSize.toNat) (image.applyRelocations loadBase)
      fun _ => True := by
  refine (safe_ofExcept fun _ _ => trivial).bind (Q := fun _ => True) fun bytes _ => ?_
  exact Pe.walkBlocks_safe (fun _ _ h => image.relocate_safe loadBase h) le_rfl 0

theorem copySection_safe (image : PeImage) (i n : ℕ) :
    Safe (fun s => s.length = n) (image.copySection i) fun _ => True := by
  refine (safe_ofExcept fun _ _ => trivial).bind (Q := fun _ => True) fun s _ => ?_
  refine (safe_ofExcept fun _ _ => trivial).bind (Q := fun _ => True) fun source _ => ?_
  refine safe_storeOr ?_
  omega

/-- Loading an accepted image, at any base and into any buffer. -/
theorem Valid.materializeAt_safe {image : PeImage} (h : image.Valid) (loadBase : UInt64) (n : ℕ) :
    Safe (fun s => s.length = n) (image.materializeAt loadBase) fun _ => True := by
  have hheaders := h.headers_in_image
  have hfile := h.headers_in_file
  refine safe_length.bind fun len hlen => safe_refuseIf.bind fun _ hsize => ?_
  obtain rfl : n = image.imageSize.toNat := hlen.symm.trans (not_not.mp hsize)
  refine safe_refuseIf.bind fun _ _ => safe_refuseIf.bind fun _ _ => ?_
  refine safe_fillZero.bind fun _ _ => (safe_index (Nat.zero_le _) hfile).bind fun source hsource => ?_
  refine (safe_store (Nat.zero_le _) hheaders ?_).bind fun _ _ => ?_
  · subst hsource
    exact length_slice (by omega)
  refine (safe_forEach fun i _ => image.copySection_safe i _).bind fun _ _ => ?_
  dsimp only
  split_ifs with hbase
  · exact (image.applyRelocations_safe loadBase).bind fun _ _ => safe_ofExcept fun _ _ => trivial
  · exact safe_ofExcept fun _ _ => trivial

end PeImage

open Proc in
/-- **Main theorem.** The load regions of an accepted image lie in the image, have no page in
    common and are never writable and executable; its entry point lies in an executable
    section; and loading or relocating it at any base neither reads nor writes outside of the
    file and the destination. The relocation walk comes to its end on all bytes, accepted or
    not. -/
theorem pe_image_safety :
    (∀ (encoded : List UInt8) (maximumImageBytes : UInt32) (image : PeImage),
      PeImage.parseWithLimit encoded maximumImageBytes = .ok image →
      (∀ i < image.loadRegionCount, ∃ r, image.loadRegion i = .ok r ∧ 4096 ∣ r.start ∧
        r.stop ≤ image.imageSize.toNat ∧ ¬ (r.writable = true ∧ r.executable = true)) ∧
      (∀ i < image.loadRegionCount, ∀ j < i, ∀ left right, image.loadRegion i = .ok left →
        image.loadRegion j = .ok right → left.stop ≤ right.start ∨ right.stop ≤ left.start) ∧
      (∃ i < image.sectionCount, ∃ s, image.sectionAt i = .ok s ∧ s.executable = true ∧
        s.Holds image.entryRva) ∧
      (∀ loadBase n, Safe (fun destination => destination.length = n)
        (image.materializeAt loadBase) fun _ => True) ∧
      ∀ loadBase, Safe (fun destination => destination.length = image.imageSize.toNat)
        (image.applyRelocations loadBase) fun _ => True) ∧
    ∀ (σ : Type) (visit : UInt32 → UInt16 → Proc PeError σ Unit),
      (∀ target kind, Safe (fun _ => True) (visit target kind) fun _ => True) →
      ∀ (imageSize : UInt32) (bytes : List UInt8) (fuel : ℕ), bytes.length ≤ fuel →
        Safe (fun _ => True) (Pe.walkBlocks visit imageSize fuel 0 bytes) fun _ => True := by
  constructor
  · intro encoded maximumImageBytes image hparse
    have h := PeImage.parse_valid hparse
    exact ⟨fun i hi => h.loadRegion_spec hi,
      fun i hi j hj left right hleft hright => h.loadRegion_disjoint hj hi hleft hright, h.entry,
      fun loadBase n => h.materializeAt_safe loadBase n, image.applyRelocations_safe⟩
  · intro σ visit hvisit imageSize bytes fuel hfuel
    exact Pe.walkBlocks_safe (fun target kind _ => hvisit target kind) hfuel 0

/-! ## Evaluation -/

/-- Fields at rising offsets written over `base`, which starts at `pos`, in one pass. -/
def written : ℕ → List UInt8 → List (ℕ × List UInt8) → List UInt8
  | _, base, [] => base
  | pos, base, (off, src) :: rest =>
    base.take (off - pos) ++ (src ++
      written (off + src.length) (base.drop (off - pos + src.length)) rest)

def rising : ℕ → ℕ → List (ℕ × List UInt8) → Bool
  | _, _, [] => true
  | pos, len, (off, src) :: rest => pos ≤ off && off - pos + src.length ≤ len &&
    rising (off + src.length) (len - (off - pos + src.length)) rest

theorem patches_eq {fields : List (ℕ × List UInt8)} {pre base : List UInt8}
    (h : rising pre.length base.length fields = true) :
    fields.foldl (fun file field => patch file field.1 field.2) (pre ++ base) =
      pre ++ written pre.length base fields := by
  induction fields generalizing pre base with
  | nil => rfl
  | cons field rest ih =>
    obtain ⟨off, src⟩ := field
    simp only [rising, Bool.and_eq_true, decide_eq_true_eq] at h
    obtain ⟨⟨hpos, hlen⟩, h⟩ := h
    have hpatch : patch (pre ++ base) off src = (pre ++ (base.take (off - pre.length) ++ src)) ++
        base.drop (off - pre.length + src.length) := by
      have hsub : off + src.length - pre.length = off - pre.length + src.length := by omega
      simp [patch, List.take_append, List.drop_append, List.take_of_length_le hpos,
        List.drop_eq_nil_of_le (Nat.le_add_right_of_le hpos), hsub]
    have hnew : (pre ++ (base.take (off - pre.length) ++ src)).length = off + src.length := by
      simp
      omega
    rw [List.foldl_cons, hpatch, ih (by rwa [hnew, List.length_drop]), hnew]
    simp [written]

theorem patches_nil {fields : List (ℕ × List UInt8)} {base : List UInt8}
    (h : rising 0 base.length fields = true) :
    fields.foldl (fun file field => patch file field.1 field.2) base = written 0 base fields :=
  @patches_eq fields [] base h

/-- `valid_pe` of the source's tests (lines 672–699): one readable and executable section. -/
def validPe : List UInt8 :=
  [(0, leBytes 2 0x5a4d), (0x3c, leBytes 4 0x80), (0x80, leBytes 4 0x4550),
    (0x84, leBytes 2 0x8664), (0x86, leBytes 2 1), (0x94, leBytes 2 240), (0x96, leBytes 2 2),
    (0x98, leBytes 2 0x020b), (0xa8, leBytes 4 0x1000), (0xb0, leBytes 8 0x140000000),
    (0xb8, leBytes 4 0x1000), (0xbc, leBytes 4 0x200), (0xd0, leBytes 4 0x2000),
    (0xd4, leBytes 4 0x200), (0xde, leBytes 2 0x100), (0x190, leBytes 4 0x20),
    (0x194, leBytes 4 0x1000), (0x198, leBytes 4 0x200), (0x19c, leBytes 4 0x200),
    (0x1ac, leBytes 4 0x60000000)].foldl (fun file field => patch file field.1 field.2) (zeros 1024)

/-- `relocatable_pe` of the source's tests (lines 701–723): one relocation, of the first eight
    bytes of the code. -/
def relocatablePe : List UInt8 :=
  [(0x86, leBytes 2 2), (0xd0, leBytes 4 0x3000), (0x104, leBytes 4 6), (0x130, leBytes 4 0x2000),
    (0x134, leBytes 4 12), (0x1b0, [0x2e, 0x72, 0x65, 0x6c, 0x6f, 0x63]), (0x1b8, leBytes 4 12),
    (0x1bc, leBytes 4 0x2000), (0x1c0, leBytes 4 0x200), (0x1c4, leBytes 4 0x400),
    (0x1d4, leBytes 4 0x40000000), (0x200, leBytes 8 0x140001234), (0x400, leBytes 4 0x1000),
    (0x404, leBytes 4 12), (0x408, leBytes 2 0xa000)].foldl
      (fun file field => patch file field.1 field.2) (validPe ++ zeros 512)

/-- The code and the relocations of the accepted file are two regions of the image. -/
theorem pe_image_safety_relocatablePe : ∃ image code relocations,
    PeImage.parse relocatablePe = .ok image ∧ image.relocationSize = 12 ∧
      image.loadRegion 1 = .ok code ∧ image.loadRegion 2 = .ok relocations ∧
      (relocations.stop ≤ code.start ∨ code.stop ≤ relocations.start) ∧
      relocations.stop ≤ image.imageSize.toNat ∧
      ∀ loadBase, Proc.Safe (fun destination => destination.length = image.imageSize.toNat)
        (image.applyRelocations loadBase) fun _ => True := by
  have hparse : (PeImage.parse relocatablePe).toOption.map
      (fun image => (image.loadRegionCount, image.relocationSize)) = some (3, 12) := by
    rw [relocatablePe, validPe, patches_nil, patches_nil] <;> decide +kernel
  cases h : PeImage.parse relocatablePe with
  | error fault =>
    rw [h] at hparse
    cases hparse
  | ok image =>
    rw [h] at hparse
    obtain ⟨hcount, hsize⟩ := Prod.mk.inj (Option.some.inj hparse)
    obtain ⟨hregions, hapart, -, -, hrelocations⟩ := pe_image_safety.1 _ _ image h
    obtain ⟨code, hcode, -⟩ := hregions 1 (by omega)
    obtain ⟨relocations, hloaded, -, hstop, -⟩ := hregions 2 (by omega)
    exact ⟨image, code, relocations, rfl, hsize, hcode, hloaded,
      hapart 2 (by omega) 1 (by decide) _ _ hloaded hcode, hstop, hrelocations⟩

end Mrml.Kernel
