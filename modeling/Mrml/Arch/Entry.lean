import Mrml.Common.Int
import Mrml.Kernel.Memory

/-!
# Addresses and page-table entries

Model of `crates/mrml-kernel/src/arch/x86_64.rs` (lines 50–176) and of `Mapping`
(`arch/x86_64/address_space.rs`, lines 6–84). The bit facts about entries are
consequences of one: an aligned address below 2^52 lies inside `addressMask`.
-/

namespace Mrml.Arch

open Mrml.Kernel

/-- `MAX_PHYSICAL_ADDRESS` (line 50). -/
def maxPhysicalAddress : UInt64 := 0x000ffffffffff000

/-- `ADDRESS_MASK` (line 51). -/
def addressMask : UInt64 := 0x000ffffffffff000

/-- `PageError` (lines 121–127). -/
inductive PageError
  | nonCanonical
  | unaligned
  | physicalAddressTooLarge
  | writableExecutable
  | invalidEntry
deriving DecidableEq

/-- The bits above 47 repeat bit 47 (lines 58–62). -/
def IsCanonical (address : UInt64) : Prop :=
  ¬ (((address >>> 47) &&& 1 = 0 ∧ address >>> 48 ≠ 0) ∨
    ((address >>> 47) &&& 1 = 1 ∧ address >>> 48 ≠ 0xffff))
deriving Decidable

/-- `VirtAddr` (lines 53–70): its constructor accepts canonical, page-aligned
    addresses. -/
@[ext] structure VirtAddr where
  address : UInt64
  canonical : IsCanonical address
  aligned : address.toNat % pageSize = 0

instance : DecidableEq VirtAddr := fun _ _ => decidable_of_iff _ VirtAddr.ext_iff.symm

/-- `VirtAddr::new` (lines 57–67). -/
def VirtAddr.new (address : UInt64) : Except PageError VirtAddr :=
  if hcanonical : ¬ IsCanonical address then .error .nonCanonical
  else if haligned : ¬ address.toNat % pageSize = 0 then .error .unaligned
  else .ok ⟨address, not_not.mp hcanonical, not_not.mp haligned⟩

theorem VirtAddr.new_address (v : VirtAddr) : VirtAddr.new v.address = .ok v := by
  rw [VirtAddr.new, dif_neg (not_not.mpr v.canonical), dif_neg (not_not.mpr v.aligned)]

/-- `PhysAddr::new` (`memory.rs`, lines 7–12). -/
def physAddr (address : UInt64) : Option PhysAddr :=
  if h : address.toNat % pageSize = 0 then some ⟨address, h⟩ else none

theorem physAddr_address (frame : PhysAddr) : physAddr frame.address = some frame :=
  dif_pos frame.aligned

/-- The nine-bit index at `shift`. -/
def indexAt (address shift : UInt64) : Fin 512 :=
  ⟨((address >>> shift) &&& 0x1ff).toNat, by
    rw [UInt64.toNat_and]
    exact Nat.lt_of_le_of_lt Nat.and_le_right (by decide)⟩

/-- `VirtAddr::pml4_index` (lines 73–75). -/
def pml4Index (address : UInt64) : Fin 512 := indexAt address 39

/-- `VirtAddr::pdpt_index` (lines 76–78). -/
def pdptIndex (address : UInt64) : Fin 512 := indexAt address 30

/-- `VirtAddr::directory_index` (lines 79–81). -/
def directoryIndex (address : UInt64) : Fin 512 := indexAt address 21

/-- `VirtAddr::table_index` (lines 82–84). -/
def tableIndex (address : UInt64) : Fin 512 := indexAt address 12

/-- `PagePermissions` (lines 87–119): bits 0 to 3. -/
structure PagePermissions where
  writable : Bool
  executable : Bool
  user : Bool
  lowSupervisorMmio : Bool
deriving DecidableEq

/-- `KERNEL_LOW_READ_WRITE` (line 95). -/
def PagePermissions.kernelLowReadWrite : PagePermissions := ⟨true, false, false, true⟩

/-- `USER_READ_WRITE` (line 101). -/
def PagePermissions.userReadWrite : PagePermissions := ⟨true, false, true, false⟩

/-- `USER_READ_EXECUTE` (line 102). -/
def PagePermissions.userReadExecute : PagePermissions := ⟨false, true, true, false⟩

/-- What the hardware knows of the permissions of a page. -/
@[ext]
structure Access where
  writable : Bool
  executable : Bool
  user : Bool
deriving DecidableEq

/-- The permissions as the hardware sees them. -/
def PagePermissions.access (permissions : PagePermissions) : Access :=
  ⟨permissions.writable, permissions.executable, permissions.user⟩

/-- Bit 0 of an entry. -/
def present : UInt64 := 1

/-- Bit 1. -/
def writeBit : UInt64 := (1 : UInt64) <<< 1

/-- Bit 2. -/
def userBit : UInt64 := (1 : UInt64) <<< 2

/-- Bit 7, set in an entry that maps a huge page. -/
def hugeBit : UInt64 := (1 : UInt64) <<< 7

/-- `LEAF_ACCESSED_DIRTY` (`page_table.rs`, line 6). -/
def leafAccessedDirty : UInt64 := (1 : UInt64) <<< 5 ||| (1 : UInt64) <<< 6

/-- Bit 63. -/
def noExecuteBit : UInt64 := (1 : UInt64) <<< 63

namespace PageTableEntry

/-- The flags of a leaf (lines 143–152). -/
def leafFlags (access : Access) : UInt64 :=
  present ||| (if access.writable then writeBit else 0) |||
    (if access.user then userBit else 0) |||
    (if access.executable then 0 else noExecuteBit)

/-- The bits of a leaf. -/
def leafBits (frame : PhysAddr) (access : Access) : UInt64 := frame.address ||| leafFlags access

/-- `PageTableEntry::leaf` (lines 136–154). -/
def leaf (frame : PhysAddr) (permissions : PagePermissions) : Except PageError UInt64 :=
  if frame.address > maxPhysicalAddress then .error .physicalAddressTooLarge
  else if permissions.writable && permissions.executable then .error .writableExecutable
  else .ok (leafBits frame permissions.access)

/-- The flags of a table (line 160). -/
def tableFlags (user : Bool) : UInt64 := present ||| writeBit ||| (if user then userBit else 0)

/-- The bits of a table. -/
def tableBits (frame : PhysAddr) (user : Bool) : UInt64 := frame.address ||| tableFlags user

/-- `PageTableEntry::table` (lines 156–161). -/
def table (frame : PhysAddr) (user : Bool) : Except PageError UInt64 :=
  if frame.address > maxPhysicalAddress then .error .physicalAddressTooLarge
  else .ok (tableBits frame user)

end PageTableEntry

/-! ## Mappings -/

/-- `AddressSpaceError` (`address_space.rs`, lines 7–16). -/
inductive AddressSpaceError
  | empty
  | overflow
  | crossesCanonicalBoundary
  | wrongPrivilegeHalf
  | virtualOverlap
  | physicalAlias
  | full
  | invalidMapping
deriving DecidableEq

/-- The checks of `Mapping::new` (`address_space.rs`, lines 27–75). -/
def Mapping.check (virtualStart : VirtAddr) (physicalStart : PhysAddr) (pages : UInt64)
    (permissions : PagePermissions) : Except AddressSpaceError Unit :=
  let length := pages.toNat * pageSize
  let virtualLast := UInt64.ofNat (virtualStart.address.toNat + (length - pageSize))
  let userHalf := virtualStart.address < 0x0000800000000000 ∧ virtualLast < 0x0000800000000000
  let kernelHalf := virtualStart.address ≥ 0xffff800000000000 ∧ virtualLast ≥ 0xffff800000000000
  if pages = 0 then .error .empty
  else if 2 ^ 64 ≤ length then .error .overflow
  else if 2 ^ 64 ≤ virtualStart.address.toNat + length then .error .overflow
  else if 2 ^ 64 ≤ physicalStart.address.toNat + length then .error .overflow
  else if ¬ (IsCanonical virtualLast ∧ virtualLast.toNat % pageSize = 0) then
    .error .crossesCanonicalBoundary
  else if physicalStart.address.toNat + (length - pageSize) > maxPhysicalAddress.toNat then
    .error .overflow
  else if (permissions.user ∧ ¬ userHalf) ∨
      (¬ permissions.user ∧ ¬ permissions.lowSupervisorMmio ∧ ¬ kernelHalf) ∨
      (permissions.lowSupervisorMmio ∧ ¬ userHalf) then .error .wrongPrivilegeHalf
  else .ok ()

/-- `Mapping` (`address_space.rs`, lines 19–24). -/
structure Mapping where
  virtualStart : VirtAddr
  physicalStart : PhysAddr
  pages : UInt64
  permissions : PagePermissions
  valid : Mapping.check virtualStart physicalStart pages permissions = .ok ()

/-! ## Bits of entries -/

/-- The frame address in an entry. -/
def frameBits (entry : UInt64) : UInt64 := entry &&& addressMask

theorem frameBits_aligned (entry : UInt64) : (frameBits entry).toNat % pageSize = 0 := by
  have hzero : frameBits entry &&& 0xfff = 0 := by
    rw [frameBits, UInt64.and_assoc, show addressMask &&& 0xfff = 0 from rfl, UInt64.and_zero]
  have := congrArg UInt64.toNat hzero
  rw [UInt64.toNat_and, show (0xfff : UInt64).toNat = 2 ^ 12 - 1 from rfl,
    Nat.and_two_pow_sub_one_eq_mod] at this
  exact this

/-- `PhysAddr::new(entry & ADDRESS_MASK)`, which never fails. -/
def frameOf (entry : UInt64) : PhysAddr := ⟨frameBits entry, frameBits_aligned entry⟩

theorem physAddr_frameBits (entry : UInt64) :
    physAddr (entry &&& addressMask) = some (frameOf entry) :=
  physAddr_address (frameOf entry)

/-- A frame that an entry can hold. -/
def InMask (frame : PhysAddr) : Prop := frame.address &&& addressMask = frame.address

theorem inMask_of_le {frame : PhysAddr} (h : frame.address ≤ maxPhysicalAddress) :
    InMask frame := by
  have hlt : frame.address.toNat < 2 ^ 52 :=
    Nat.lt_of_le_of_lt (UInt64.le_iff_toNat_le.mp h) (by decide)
  have haligned : frame.address.toNat % 2 ^ 12 = 0 := frame.aligned
  obtain ⟨q, hq⟩ : ∃ q, frame.address.toNat = 2 ^ 12 * q := ⟨_, (Nat.mul_div_cancel'
    (Nat.dvd_of_mod_eq_zero haligned)).symm⟩
  have hqlt : q < 2 ^ 40 := by omega
  rw [InMask, ← UInt64.toNat_inj, UInt64.toNat_and, hq,
    show addressMask.toNat = 2 ^ 12 * (2 ^ 40 - 1) from rfl]
  apply Nat.eq_of_testBit_eq
  intro i
  rw [Nat.testBit_and, Nat.testBit_two_pow_mul, Nat.testBit_two_pow_mul,
    Nat.testBit_two_pow_sub_one]
  by_cases hi : i - 12 < 40
  · simp [hi]
    tauto
  · have hbit : q.testBit (i - 12) = false :=
      Nat.testBit_lt_two_pow (Nat.lt_of_lt_of_le hqlt (Nat.pow_le_pow_right (by decide) (by omega)))
    simp [hbit]

theorem or_and_distrib (a b c : UInt64) : (a ||| b) &&& c = (a &&& c) ||| (b &&& c) := by
  rw [← UInt64.toBitVec_inj]
  simp only [UInt64.toBitVec_and, UInt64.toBitVec_or]
  exact BitVec.and_or_distrib_right

theorem and_not_eq_self {a mask : UInt64} (h : a &&& mask = 0) : a &&& ~~~mask = a := by
  have hsplit : a = (a &&& mask) ||| (a &&& ~~~mask) := by
    rw [← UInt64.toBitVec_inj]
    simp only [UInt64.toBitVec_and, UInt64.toBitVec_or, UInt64.toBitVec_not]
    rw [← BitVec.and_or_distrib_left, BitVec.or_not_self, BitVec.and_allOnes]
  rw [h, UInt64.zero_or] at hsplit
  exact hsplit.symm

/-- The low and high bits of an entry come from its flags. -/
theorem or_and_of_disjoint {frame : PhysAddr} (hframe : InMask frame) {flags mask : UInt64}
    (hmask : addressMask &&& mask = 0) : (frame.address ||| flags) &&& mask = flags &&& mask := by
  have hzero : frame.address &&& mask = 0 := by
    rw [← hframe, UInt64.and_assoc, hmask, UInt64.and_zero]
  rw [or_and_distrib, hzero, UInt64.zero_or]

/-- The frame of an entry. -/
theorem frameOf_or {frame : PhysAddr} (hframe : InMask frame) {flags : UInt64}
    (hflags : flags &&& addressMask = 0) : frameOf (frame.address ||| flags) = frame := by
  have hbits : frameBits (frame.address ||| flags) = frame.address := by
    rw [frameBits, or_and_distrib, hframe, hflags, UInt64.or_zero]
  exact PhysAddr.ext hbits

/-- The bits that neither the hardware format nor an address uses (line 403 of
    `page_table.rs`). -/
def reservedMask : UInt64 := ~~~(noExecuteBit ||| 0xfff ||| addressMask)

namespace PageTableEntry

variable {frame : PhysAddr}

/-- What the editor and the hardware read of a table entry. -/
theorem tableBits_fields (hframe : InMask frame) (user : Bool) :
    frameOf (tableBits frame user) = frame ∧ tableBits frame user &&& present ≠ 0 ∧
    tableBits frame user &&& hugeBit = 0 ∧ tableBits frame user &&& reservedMask = 0 ∧
    tableBits frame user &&& writeBit ≠ 0 ∧
    (tableBits frame user &&& userBit ≠ 0 ↔ user = true) ∧
    tableBits frame user &&& noExecuteBit = 0 := by
  unfold tableBits
  rw [or_and_of_disjoint hframe rfl, or_and_of_disjoint hframe rfl,
    or_and_of_disjoint hframe rfl, or_and_of_disjoint hframe rfl, or_and_of_disjoint hframe rfl,
    or_and_of_disjoint hframe rfl]
  refine ⟨frameOf_or hframe ?_, ?_⟩
  · cases user <;> rfl
  · cases user <;> decide

/-- `current | (1 << 2)` turns a supervisor table entry into a user one. -/
theorem tableBits_or_user (frame : PhysAddr) (user : Bool) :
    tableBits frame user ||| userBit = tableBits frame true := by
  unfold tableBits
  rw [UInt64.or_assoc]
  cases user <;> rfl

/-- What the editor and the hardware read of a leaf. -/
theorem leafBits_fields (hframe : InMask frame) (access : Access) :
    frameOf (leafBits frame access) = frame ∧ leafBits frame access &&& present ≠ 0 ∧
    leafBits frame access &&& leafAccessedDirty = 0 ∧
    (leafBits frame access &&& writeBit ≠ 0 ↔ access.writable = true) ∧
    (leafBits frame access &&& noExecuteBit = 0 ↔ access.executable = true) ∧
    (leafBits frame access &&& userBit ≠ 0 ↔ access.user = true) := by
  unfold leafBits
  rw [or_and_of_disjoint hframe rfl, or_and_of_disjoint hframe rfl,
    or_and_of_disjoint hframe rfl, or_and_of_disjoint hframe rfl, or_and_of_disjoint hframe rfl]
  obtain ⟨writable, executable, user⟩ := access
  refine ⟨frameOf_or hframe ?_, ?_⟩
  · cases writable <;> cases executable <;> cases user <;> rfl
  · cases writable <;> cases executable <;> cases user <;> decide

/-- A leaf determines its frame and its access bits. -/
theorem leafBits_inj {frame' : PhysAddr} (hframe : InMask frame) (hframe' : InMask frame')
    {access access' : Access} (h : leafBits frame access = leafBits frame' access') :
    frame = frame' ∧ access = access' := by
  obtain ⟨hf, -, -, hw, hx, hu⟩ := leafBits_fields hframe access
  obtain ⟨hf', -, -, hw', hx', hu'⟩ := leafBits_fields hframe' access'
  rw [h] at hf hw hx hu
  refine ⟨hf.symm.trans hf', ?_⟩
  exact Access.ext (Bool.eq_iff_iff.mpr (hw.symm.trans hw'))
    (Bool.eq_iff_iff.mpr (hx.symm.trans hx')) (Bool.eq_iff_iff.mpr (hu.symm.trans hu'))

end PageTableEntry

/-! ## Indices -/

theorem indexAt_val (address : UInt64) {shift : UInt64} {k : ℕ} (hk : shift.toNat = k)
    (hlt : k < 64) : (indexAt address shift).val = address.toNat / 2 ^ k % 512 := by
  show ((address >>> shift) &&& 0x1ff).toNat = _
  rw [UInt64.toNat_and, UInt64.toNat_shiftRight, hk, Nat.mod_eq_of_lt hlt,
    Nat.shiftRight_eq_div_pow, show (0x1ff : UInt64).toNat = 2 ^ 9 - 1 from rfl,
    Nat.and_two_pow_sub_one_eq_mod]

/-- The indices that lead from the root to the leaf of an address, the last one first. -/
def route (address : UInt64) : List (Fin 512) :=
  [tableIndex address, directoryIndex address, pdptIndex address, pml4Index address]

/-- Canonical addresses in terms of natural numbers. -/
theorem isCanonical_iff {address : UInt64} : IsCanonical address ↔
    (address.toNat / 2 ^ 47 % 2 = 0 → address.toNat / 2 ^ 48 = 0) ∧
      (address.toNat / 2 ^ 47 % 2 = 1 → address.toNat / 2 ^ 48 = 0xffff) := by
  have hsign : ((address >>> 47) &&& 1).toNat = address.toNat / 2 ^ 47 % 2 := by
    rw [UInt64.toNat_and, UInt64.toNat_shiftRight, Nat.shiftRight_eq_div_pow,
      show (1 : UInt64).toNat = 2 ^ 1 - 1 from rfl, Nat.and_two_pow_sub_one_eq_mod]
    rfl
  have hhigh : (address >>> 48).toNat = address.toNat / 2 ^ 48 := by
    rw [UInt64.toNat_shiftRight, Nat.shiftRight_eq_div_pow]
    rfl
  unfold IsCanonical
  simp only [← UInt64.toNat_inj, ne_eq, hsign, hhigh, UInt64.toNat_zero, UInt64.toNat_one,
    show (0xffff : UInt64).toNat = 0xffff from rfl]
  tauto

theorem route_eq_iff {a b : UInt64} : route a = route b ↔
    ∀ k ∈ [12, 21, 30, 39], a.toNat / 2 ^ k % 512 = b.toNat / 2 ^ k % 512 := by
  have hindex (shift : UInt64) (k : ℕ) (hk : shift.toNat = k) (hlt : k < 64) :
      indexAt a shift = indexAt b shift ↔ a.toNat / 2 ^ k % 512 = b.toNat / 2 ^ k % 512 := by
    rw [Fin.ext_iff, indexAt_val a hk hlt, indexAt_val b hk hlt]
  simp only [route, pml4Index, pdptIndex, directoryIndex, tableIndex, List.cons.injEq, and_true,
    List.forall_mem_cons, List.not_mem_nil, false_implies, implies_true]
  rw [hindex 12 12 rfl (by decide), hindex 21 21 rfl (by decide), hindex 30 30 rfl (by decide),
    hindex 39 39 rfl (by decide)]

/-- The page of a canonical address in terms of the indices of its route: the last of them has the
    sign bit. -/
theorem VirtAddr.toNat_eq (v : VirtAddr) :
    v.address.toNat = v.address.toNat / 2 ^ 12 % 512 * 2 ^ 12 +
      v.address.toNat / 2 ^ 21 % 512 * 2 ^ 21 + v.address.toNat / 2 ^ 30 % 512 * 2 ^ 30 +
      v.address.toNat / 2 ^ 39 % 512 * 2 ^ 39 +
      if v.address.toNat / 2 ^ 39 % 512 < 256 then 0 else 0xffff * 2 ^ 48 := by
  obtain ⟨hlow, hhigh⟩ := isCanonical_iff.mp v.canonical
  have haligned : v.address.toNat % 4096 = 0 := v.aligned
  generalize v.address.toNat = address at *
  split_ifs with hsign
  · have hzero := hlow (by omega)
    omega
  · have hones := hhigh (by omega)
    omega

/-- A route leads to one page. -/
theorem route_injective {v w : VirtAddr} (h : route v.address = route w.address) : v = w := by
  simp only [route_eq_iff, List.forall_mem_cons, List.not_mem_nil, false_implies, implies_true,
    and_true] at h
  obtain ⟨htable, hdirectory, hpdpt, hpml4⟩ := h
  refine VirtAddr.ext (UInt64.toNat_inj.mp ?_)
  rw [v.toNat_eq, w.toNat_eq, htable, hdirectory, hpdpt, hpml4]

/-- The first address of the page of an address. -/
def pageStart (address : UInt64) : UInt64 := UInt64.ofNat (address.toNat / pageSize * pageSize)

theorem pageStart_toNat (address : UInt64) :
    (pageStart address).toNat = address.toNat / pageSize * pageSize := by
  have hlt := address.toNat_lt
  rw [pageStart, UInt64.toNat_ofNat', Nat.mod_eq_of_lt]
  exact Nat.lt_of_le_of_lt (Nat.div_mul_le_self _ _) hlt

/-- The page of a canonical address. -/
def pageOf (address : UInt64) (h : IsCanonical address) : VirtAddr where
  address := pageStart address
  canonical := by
    rw [isCanonical_iff, pageStart_toNat, pageSize] at *
    omega
  aligned := by
    rw [pageStart_toNat]
    exact Nat.mul_mod_left _ _

theorem route_pageOf (address : UInt64) (h : IsCanonical address) :
    route (pageOf address h).address = route address := by
  have hstart : (pageOf address h).address.toNat = address.toNat / 4096 * 4096 :=
    pageStart_toNat address
  simp only [route_eq_iff, hstart, List.forall_mem_cons, List.not_mem_nil, false_implies,
    implies_true, and_true]
  omega

/-! ## Pages of a mapping -/

namespace Mapping

/-- What the checks of a mapping leave: its pages lie in one half of the address space
    and its frames fit into entries. -/
theorem bounds (m : Mapping) : 0 < m.pages.toNat ∧
    m.virtualStart.address.toNat + m.pages.toNat * 4096 < 2 ^ 64 ∧
    m.physicalStart.address.toNat + m.pages.toNat * 4096 ≤ 2 ^ 52 ∧
    (m.virtualStart.address.toNat + m.pages.toNat * 4096 ≤ 2 ^ 47 ∨
      2 ^ 64 - 2 ^ 47 ≤ m.virtualStart.address.toNat) := by
  have hvalid := m.valid
  unfold Mapping.check at hvalid
  simp only at hvalid
  split_ifs at hvalid with hempty hlength hvirtual hphysical hcanonical hmax hhalf
  have hpages : m.pages.toNat ≠ 0 := by
    rwa [← UInt64.toNat_zero, Ne, UInt64.toNat_inj]
  have hlast : (UInt64.ofNat (m.virtualStart.address.toNat +
      (m.pages.toNat * pageSize - pageSize))).toNat =
      m.virtualStart.address.toNat + (m.pages.toNat * 4096 - 4096) := by
    rw [UInt64.toNat_ofNat', Nat.mod_eq_of_lt (by omega)]
    rfl
  simp only [UInt64.lt_iff_toNat_lt, ge_iff_le, UInt64.le_iff_toNat_le, hlast,
    show (0x0000800000000000 : UInt64).toNat = 2 ^ 47 from rfl,
    show (0xffff800000000000 : UInt64).toNat = 2 ^ 64 - 2 ^ 47 from rfl] at hhalf
  have haligned := m.virtualStart.aligned
  have hmax' : ¬ m.physicalStart.address.toNat + (m.pages.toNat * 4096 - 4096) > 2 ^ 52 - 4096 :=
    hmax
  unfold pageSize at *
  refine ⟨by omega, by omega, by omega, ?_⟩
  by_contra hnot
  apply hhalf
  cases m.permissions.user <;> cases m.permissions.lowSupervisorMmio <;> simp <;> omega

/-- The address of the `k`-th page of a range. -/
theorem toNat_ofNat_page {start limit k pages : ℕ} (hk : k < pages)
    (hlimit : start + pages * 4096 ≤ limit) (hlt : limit ≤ 2 ^ 64) :
    (UInt64.ofNat (start + k * pageSize)).toNat = start + k * 4096 := by
  rw [UInt64.toNat_ofNat']
  unfold pageSize
  omega

/-- The virtual address of the `k`-th page. -/
def virtualPage (m : Mapping) (k : ℕ) (h : k < m.pages.toNat) : VirtAddr where
  address := UInt64.ofNat (m.virtualStart.address.toNat + k * pageSize)
  canonical := by
    obtain ⟨-, hlt, -, hhalf⟩ := m.bounds
    rw [isCanonical_iff, toNat_ofNat_page h hlt.le le_rfl]
    omega
  aligned := by
    obtain ⟨-, hlt, -, -⟩ := m.bounds
    have haligned := m.virtualStart.aligned
    rw [toNat_ofNat_page h hlt.le le_rfl]
    unfold pageSize at *
    omega

/-- The physical address of the `k`-th page. -/
def physicalPage (m : Mapping) (k : ℕ) (h : k < m.pages.toNat) : PhysAddr where
  address := UInt64.ofNat (m.physicalStart.address.toNat + k * pageSize)
  aligned := by
    obtain ⟨-, -, hlt, -⟩ := m.bounds
    have haligned := m.physicalStart.aligned
    rw [toNat_ofNat_page h hlt (by decide)]
    unfold pageSize at *
    omega

theorem physicalPage_le (m : Mapping) (k : ℕ) (h : k < m.pages.toNat) :
    (m.physicalPage k h).address ≤ maxPhysicalAddress := by
  obtain ⟨-, -, hlt, -⟩ := m.bounds
  have haddress : (m.physicalPage k h).address.toNat = m.physicalStart.address.toNat + k * 4096 :=
    toNat_ofNat_page h hlt (by decide)
  have hle : m.physicalStart.address.toNat + k * 4096 + 4096 ≤ 2 ^ 52 := by omega
  rw [UInt64.le_iff_toNat_le, haddress]
  exact Nat.le_sub_of_add_le hle

theorem virtualPage_inj (m : Mapping) {j k : ℕ} {hj : j < m.pages.toNat} {hk : k < m.pages.toNat}
    (h : m.virtualPage j hj = m.virtualPage k hk) : j = k := by
  obtain ⟨-, hlt, -, -⟩ := m.bounds
  have haddress := congrArg (fun v => v.address.toNat) h
  have hjaddress := toNat_ofNat_page hj hlt.le le_rfl
  have hkaddress := toNat_ofNat_page hk hlt.le le_rfl
  simp only [virtualPage] at haddress
  omega

/-- The pages of a mapping in the order in which the editor visits them. -/
def pageList (m : Mapping) : List (VirtAddr × PhysAddr) :=
  (List.finRange m.pages.toNat).map fun k =>
    (m.virtualPage k.val k.isLt, m.physicalPage k.val k.isLt)

end Mapping

end Mrml.Arch
