import Mrml.Common.Checked

/-!
# Physical addresses and the memory map

Model of `PhysAddr`, `MemoryRegion` and `MemoryMap`
(`crates/mrml-kernel/src/memory.rs`, lines 1–96).

Results:
* `MemoryMap.new_eq_ok`: a memory map is a nonempty sorted list of disjoint regions.
-/

namespace Mrml.Kernel

/-- `PAGE_SIZE` (line 1). -/
def pageSize : ℕ := 4096

/-- `PhysAddr` (lines 3–16): its constructor rejects addresses that are not page
    aligned. -/
@[ext]
structure PhysAddr where
  address : UInt64
  aligned : address.toNat % pageSize = 0
deriving DecidableEq

/-- `MemoryError` (lines 60–69). -/
inductive MemoryError
  | empty
  | unaligned
  | invalidLength
  | overflow
  | unsorted
  | overlap
  | outOfMemory
deriving DecidableEq

/-- `PhysAddr::new` (lines 7–12). -/
def PhysAddr.new (address : UInt64) : Except MemoryError PhysAddr :=
  if h : address.toNat % pageSize = 0 then .ok ⟨address, h⟩ else .error .unaligned

theorem PhysAddr.new_self (a : PhysAddr) : PhysAddr.new a.address = .ok a := by
  rw [new, dif_pos a.aligned]

theorem PhysAddr.address_of_new {address : UInt64} {a : PhysAddr}
    (h : PhysAddr.new address = .ok a) : a.address = address := by
  unfold new at h
  split_ifs at h
  obtain rfl := Except.ok.inj h
  rfl

/-- `MemoryKind` (lines 20–27). -/
inductive MemoryKind
  | free
  | kernel
  | firmware
  | mmio
  | acpi
  | reserved
deriving DecidableEq

/-- The checks of `MemoryRegion::new` (lines 38–43). -/
def checkRegion (start : PhysAddr) (pages : UInt64) : Except MemoryError Unit := do
  refuseIf (pages = 0 ∨ pages.toNat > (2 ^ 64 - 1) / pageSize) .invalidLength
  refuseIf (¬ start.address.toNat + pages.toNat * pageSize < 2 ^ 64) .overflow

/-- `MemoryRegion` (lines 30–34), with the checks of its constructor. -/
structure MemoryRegion where
  start : PhysAddr
  pages : UInt64
  kind : MemoryKind
  checked : checkRegion start pages = .ok ()
deriving DecidableEq

namespace MemoryRegion

/-- `MemoryRegion::new` (lines 37–45). -/
def new (start : PhysAddr) (pages : UInt64) (kind : MemoryKind) : Except MemoryError MemoryRegion :=
  match h : checkRegion start pages with
  | .error error => .error error
  | .ok () => .ok ⟨start, pages, kind, h⟩

/-- `MemoryRegion::end` (lines 46–48). -/
def endAddress (region : MemoryRegion) : ℕ :=
  region.start.address.toNat + region.pages.toNat * pageSize

/-- A region ends inside the address space. -/
theorem endAddress_lt (region : MemoryRegion) : region.endAddress < 2 ^ 64 := by
  obtain ⟨_, -, h⟩ := bind_eq_ok.mp region.checked
  exact not_not.mp (refuseIf_eq_ok.mp h)

theorem new_self (region : MemoryRegion) :
    new region.start region.pages region.kind = .ok region := by
  unfold new
  split
  · next h => rw [region.checked] at h; cases h
  · rfl

theorem fields_of_new {start : PhysAddr} {pages : UInt64} {kind : MemoryKind}
    {region : MemoryRegion} (h : new start pages kind = .ok region) :
    region.start = start ∧ region.pages = pages ∧ region.kind = kind := by
  unfold new at h
  split at h
  · cases h
  · obtain rfl := Except.ok.inj h
    exact ⟨rfl, rfl, rfl⟩

end MemoryRegion

/-- The loop of `MemoryMap::new` over the windows of two regions (lines 82–89). -/
def checkPairs : List MemoryRegion → Except MemoryError Unit
  | a :: b :: regions => do
    refuseIf (a.start.address > b.start.address) .unsorted
    refuseIf (a.endAddress > b.start.address.toNat) .overlap
    checkPairs (b :: regions)
  | _ => .ok ()

/-- The check of `MemoryMap::new` (lines 78–91). -/
def MemoryMap.new (regions : List MemoryRegion) : Except MemoryError Unit := do
  refuseIf (regions = []) .empty
  checkPairs regions

/-- The second region starts behind the first. -/
def MemoryRegion.Before (a b : MemoryRegion) : Prop :=
  a.start.address ≤ b.start.address ∧ a.endAddress ≤ b.start.address.toNat

theorem checkPairs_eq_ok {regions : List MemoryRegion} :
    checkPairs regions = .ok () ↔ regions.IsChain MemoryRegion.Before := by
  induction regions with
  | nil => simp [checkPairs]
  | cons a regions ih =>
    cases regions with
    | nil => simp [checkPairs]
    | cons b regions =>
      rw [checkPairs, List.isChain_cons_cons, ← ih]
      simp only [bind_eq_ok, refuseIf_eq_ok, exists_const, gt_iff_lt, UInt64.not_lt, not_lt]
      exact (and_assoc).symm

theorem MemoryMap.new_eq_ok {regions : List MemoryRegion} :
    MemoryMap.new regions = .ok () ↔ regions ≠ [] ∧ regions.IsChain MemoryRegion.Before := by
  simp only [new, bind_eq_ok, refuseIf_eq_ok, exists_const, checkPairs_eq_ok]

end Mrml.Kernel
