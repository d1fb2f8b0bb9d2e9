import Mrml.Arch.Entry
import Mrml.Common.Edit

/-!
# The page-table editor

Model of `crates/mrml-kernel/src/arch/x86_64/page_table.rs` (lines 1–157, 236–383 and
557–575): the storage contract, the preallocated store, and the operations of
`PageTableBuilder`. An operation is an `Edit` of the store; the root is an argument
because no operation changes it. Indices are `Fin 512`, since `VirtAddr` computes
nine bits and both stores reject anything larger.

`map` computes the addresses of a page as `mapping_page` does, and `protect` and
`unmap_exact` begin each page with the same checks; these parts are written once.
-/

namespace Mrml.Arch

open Mrml.Kernel

/-- `PageTableBuildError` (lines 9–17). -/
inductive PageTableBuildError
  | storage
  | invalidIntermediate
  | alreadyMapped
  | notMapped
  | mappingMismatch
  | addressOverflow
  | page (error : PageError)
deriving DecidableEq

/-- `PageTableStore` (lines 42–54). -/
class PageTableStore (S : Type) where
  allocateZeroed : Edit PageTableBuildError S PhysAddr
  read : S → PhysAddr → Fin 512 → Except PageTableBuildError UInt64
  write : PhysAddr → Fin 512 → UInt64 → Edit PageTableBuildError S Unit

/-- The storage contract (lines 42–44): every allocation returns a new zeroed frame,
    and reads and writes address the contents of the tables. `table` gives the
    contents of the live frames. -/
class LawfulPageTableStore (S : Type) [PageTableStore S] where
  table : S → PhysAddr → Option (Fin 512 → UInt64)
  read_live : ∀ {s frame contents}, table s frame = some contents →
    ∀ index, PageTableStore.read s frame index = .ok (contents index)
  write_live : ∀ {s frame contents}, table s frame = some contents →
    ∀ index value, ∃ s', PageTableStore.write frame index value s = (.ok (), s') ∧
      table s' = Function.update (table s) frame (some (Function.update contents index value))
  allocate_ok : ∀ {s frame s'}, PageTableStore.allocateZeroed s = (.ok frame, s') →
    table s frame = none ∧ table s' = Function.update (table s) frame (some fun _ => 0)
  allocate_error : ∀ {s e s'}, PageTableStore.allocateZeroed s = (.error e, s') →
    table s' = table s

open PageTableStore

/-- `mapping_page` (lines 557–575). -/
def mappingPage (mapping : Mapping) (page : ℕ) :
    Except PageTableBuildError (VirtAddr × PhysAddr) :=
  let offset := page * pageSize
  let virtualAddress := mapping.virtualStart.address.toNat + offset
  let physicalAddress := mapping.physicalStart.address.toNat + offset
  if 2 ^ 64 ≤ offset then .error .addressOverflow
  else if 2 ^ 64 ≤ virtualAddress then .error .addressOverflow
  else if 2 ^ 64 ≤ physicalAddress then .error .addressOverflow
  else do
    let virtualAddress ← (VirtAddr.new (UInt64.ofNat virtualAddress)).mapError .page
    let physicalAddress ←
      (physAddr (UInt64.ofNat physicalAddress)).elim (.error .addressOverflow) .ok
    return (virtualAddress, physicalAddress)

namespace PageTableBuilder

variable {S : Type} [PageTableStore S]

/-- `PageTableBuilder::new` (lines 154–157): the root of the new tables. -/
def new : Edit PageTableBuildError S PhysAddr := allocateZeroed

/-- `current & (1 << 7) != 0 || current & !((1 << 63) | 0xfff | ADDRESS_MASK) != 0`. -/
def InvalidIntermediate (entry : UInt64) : Prop :=
  entry &&& hugeBit ≠ 0 ∨ entry &&& reservedMask ≠ 0
deriving Decidable

/-- `PhysAddr::new(entry & ADDRESS_MASK)` with its error. -/
def entryFrame (entry : UInt64) : Except PageTableBuildError PhysAddr :=
  (physAddr (entry &&& addressMask)).elim (.error .invalidIntermediate) .ok

/-- `descend` (lines 361–382). -/
def descend (parent : PhysAddr) (index : Fin 512) (user : Bool) :
    Edit PageTableBuildError S PhysAddr := do
  let current ← Edit.inspect (read · parent index)
  if current &&& present = 0 then
    let child ← allocateZeroed
    let entry ← Edit.ofExcept ((PageTableEntry.table child user).mapError .page)
    write parent index entry
    return child
  else if InvalidIntermediate current then
    Edit.fail .invalidIntermediate
  else if user ∧ current &&& userBit = 0 then
    write parent index (current ||| userBit)
    Edit.ofExcept (entryFrame current)
  else
    Edit.ofExcept (entryFrame current)

/-- `map_page` (lines 262–279). -/
def mapPage (root : PhysAddr) (virtualAddress : VirtAddr) (physicalAddress : PhysAddr)
    (permissions : PagePermissions) : Edit PageTableBuildError S Unit := do
  let user := permissions.user
  let pdpt ← descend root (pml4Index virtualAddress.address) user
  let directory ← descend pdpt (pdptIndex virtualAddress.address) user
  let table ← descend directory (directoryIndex virtualAddress.address) user
  let index := tableIndex virtualAddress.address
  let current ← Edit.inspect (read · table index)
  if current &&& present ≠ 0 then
    Edit.fail .alreadyMapped
  else
    let leaf ← Edit.ofExcept ((PageTableEntry.leaf physicalAddress permissions).mapError .page)
    write table index leaf

/-- `map` (lines 236–260). -/
def map (root : PhysAddr) (mapping : Mapping) : Edit PageTableBuildError S Unit :=
  Edit.forEach (List.range mapping.pages.toNat) fun page => do
    let (virtualAddress, physicalAddress) ← Edit.ofExcept (mappingPage mapping page)
    mapPage root virtualAddress physicalAddress mapping.permissions

/-- One step of the loop in `leaf_location` (lines 348–357). -/
def nextTable (s : S) (table : PhysAddr) (index : Fin 512) :
    Except PageTableBuildError PhysAddr := do
  let entry ← read s table index
  if entry &&& present = 0 then .error .notMapped
  else if InvalidIntermediate entry then .error .invalidIntermediate
  else entryFrame entry

/-- `leaf_location` (lines 338–359). -/
def leafLocation (root : PhysAddr) (virtualAddress : VirtAddr) (s : S) :
    Except PageTableBuildError (PhysAddr × Fin 512) := do
  let table ← [pml4Index virtualAddress.address, pdptIndex virtualAddress.address,
    directoryIndex virtualAddress.address].foldlM (nextTable s) root
  return (table, tableIndex virtualAddress.address)

/-- The checks that a page is mapped exactly as expected (lines 291–301 and 319–329). -/
def matchLeaf (root : PhysAddr) (permissions : PagePermissions) (virtualAddress : VirtAddr)
    (physicalAddress : PhysAddr) : Edit PageTableBuildError S Unit := do
  let (table, index) ← Edit.inspect (leafLocation root virtualAddress)
  let current ← Edit.inspect (read · table index)
  if current &&& present = 0 then
    Edit.fail .notMapped
  else
    let wanted ← Edit.ofExcept ((PageTableEntry.leaf physicalAddress permissions).mapError .page)
    if current &&& ~~~leafAccessedDirty ≠ wanted then Edit.fail .mappingMismatch
    else return ()

/-- The second half of `protect` for one page (lines 307–312). -/
def protectLeaf (root : PhysAddr) (finalPermissions : PagePermissions) (virtualAddress : VirtAddr)
    (physicalAddress : PhysAddr) : Edit PageTableBuildError S Unit := do
  let (table, index) ← Edit.inspect (leafLocation root virtualAddress)
  let finalEntry ← Edit.ofExcept
    ((PageTableEntry.leaf physicalAddress finalPermissions).mapError .page)
  let current ← Edit.inspect (read · table index)
  write table index (finalEntry ||| (current &&& leafAccessedDirty))

/-- The second half of `unmap_exact` for one page (lines 332–333). -/
def clearLeaf (root : PhysAddr) (virtualAddress : VirtAddr) : Edit PageTableBuildError S Unit := do
  let (table, index) ← Edit.inspect (leafLocation root virtualAddress)
  write table index 0

/-- `protect` (lines 284–314). -/
def protect (root : PhysAddr) (expected : Mapping) (finalPermissions : PagePermissions) :
    Edit PageTableBuildError S Unit := do
  Edit.forEach (List.range expected.pages.toNat) fun page => do
    let (virtualAddress, physicalAddress) ← Edit.ofExcept (mappingPage expected page)
    matchLeaf root expected.permissions virtualAddress physicalAddress
    let _ ← Edit.ofExcept ((PageTableEntry.leaf physicalAddress finalPermissions).mapError .page)
    return ()
  Edit.forEach (List.range expected.pages.toNat) fun page => do
    let (virtualAddress, physicalAddress) ← Edit.ofExcept (mappingPage expected page)
    protectLeaf root finalPermissions virtualAddress physicalAddress

/-- `unmap_exact` (lines 316–336). -/
def unmapExact (root : PhysAddr) (expected : Mapping) : Edit PageTableBuildError S Unit := do
  Edit.forEach (List.range expected.pages.toNat) fun page => do
    let (virtualAddress, physicalAddress) ← Edit.ofExcept (mappingPage expected page)
    matchLeaf root expected.permissions virtualAddress physicalAddress
  Edit.forEach (List.range expected.pages.toNat) fun page => do
    let (virtualAddress, _) ← Edit.ofExcept (mappingPage expected page)
    clearLeaf root virtualAddress

/-! ## Loops over the pages of a mapping -/

theorem mappingPage_eq (m : Mapping) (k : ℕ) (h : k < m.pages.toNat) :
    mappingPage m k = .ok (m.virtualPage k h, m.physicalPage k h) := by
  obtain ⟨-, hvirtual, hphysical, -⟩ := m.bounds
  have hv : VirtAddr.new (UInt64.ofNat (m.virtualStart.address.toNat + k * pageSize)) =
      .ok (m.virtualPage k h) := VirtAddr.new_address (m.virtualPage k h)
  have hp : physAddr (UInt64.ofNat (m.physicalStart.address.toNat + k * pageSize)) =
      some (m.physicalPage k h) := physAddr_address (m.physicalPage k h)
  have hlt : k * pageSize < m.pages.toNat * 4096 := by
    unfold pageSize
    omega
  unfold mappingPage
  simp only [hv, hp]
  rw [if_neg (by omega), if_neg (by omega), if_neg (by omega)]
  rfl

omit [PageTableStore S] in
/-- The address computation of a loop never fails. -/
theorem forEach_pages (m : Mapping) (body : VirtAddr × PhysAddr → Edit PageTableBuildError S Unit) :
    (Edit.forEach (List.range m.pages.toNat) fun k => do
      let page ← Edit.ofExcept (mappingPage m k)
      body page) = Edit.forEach m.pageList body := by
  rw [Mapping.pageList, ← List.map_coe_finRange_eq_range, Edit.forEach_map, Edit.forEach_map]
  congr 1
  funext k
  rw [mappingPage_eq m k k.2]
  rfl

theorem map_eq (root : PhysAddr) (m : Mapping) : map (S := S) root m =
    Edit.forEach m.pageList fun page => mapPage root page.1 page.2 m.permissions :=
  forEach_pages m _

theorem protect_eq (root : PhysAddr) (m : Mapping) (finalPermissions : PagePermissions) :
    protect (S := S) root m finalPermissions = (do
      Edit.forEach m.pageList fun page => do
        matchLeaf root m.permissions page.1 page.2
        let _ ← Edit.ofExcept ((PageTableEntry.leaf page.2 finalPermissions).mapError .page)
        return ()
      Edit.forEach m.pageList fun page => protectLeaf root finalPermissions page.1 page.2) := by
  rw [← forEach_pages, ← forEach_pages]
  rfl

theorem unmapExact_eq (root : PhysAddr) (m : Mapping) : unmapExact (S := S) root m = (do
    Edit.forEach m.pageList fun page => matchLeaf root m.permissions page.1 page.2
    Edit.forEach m.pageList fun page => clearLeaf root page.1) := by
  rw [← forEach_pages, ← forEach_pages]
  rfl

end PageTableBuilder

/-! ## The preallocated store -/

/-- `PreallocatedPageTableStore` (lines 58–62) with the pages of its arena. The bounds
    are the checks of `new` and the one of `allocate_zeroed`. -/
structure PreallocatedPageTableStore where
  base : PhysAddr
  capacity : ℕ
  allocated : ℕ
  arena : ℕ → Fin 512 → UInt64
  fits : base.address.toNat + capacity * pageSize < 2 ^ 52
  allocated_le : allocated ≤ capacity

namespace PreallocatedPageTableStore

/-- `PreallocatedPageTableStore::new` (lines 72–91) over an arena with arbitrary
    contents. -/
def new (base : PhysAddr) (pages : UInt64) (arena : ℕ → Fin 512 → UInt64) :
    Except PageTableBuildError PreallocatedPageTableStore :=
  if h : pages = 0 ∨ 256 < pages.toNat ∨
      ¬ base.address.toNat + pages.toNat * pageSize < 2 ^ 52 then .error .storage
  else .ok ⟨base, pages.toNat, 0, arena, by tauto, Nat.zero_le _⟩

/-- `issued_table` (lines 97–110). -/
def issuedTable (store : PreallocatedPageTableStore) (table : PhysAddr) :
    Except PageTableBuildError ℕ :=
  if table.address < store.base.address then .error .storage
  else
    let offset := table.address.toNat - store.base.address.toNat
    if ¬ offset % pageSize = 0 then .error .storage
    else if store.allocated ≤ offset / pageSize then .error .storage
    else .ok (offset / pageSize)

/-- The frame of a page of the arena. -/
def frame (store : PreallocatedPageTableStore) (page : ℕ) : PhysAddr where
  address := UInt64.ofNat (store.base.address.toNat + page * pageSize)
  aligned := by
    have hbase := store.base.aligned
    unfold pageSize at *
    rw [UInt64.toNat_ofNat']
    omega

/-- `allocate_zeroed` (lines 114–129). -/
def allocateZeroed : Edit PageTableBuildError PreallocatedPageTableStore PhysAddr := fun store =>
  if h : store.allocated = store.capacity then (.error .storage, store)
  else
    have hlt : store.allocated < store.capacity := lt_of_le_of_ne store.allocated_le h
    (.ok (store.frame store.allocated),
      { store with
        allocated := store.allocated + 1
        arena := Function.update store.arena store.allocated fun _ => 0
        allocated_le := hlt })

/-- `read` (lines 131–137). -/
def read (store : PreallocatedPageTableStore) (table : PhysAddr) (index : Fin 512) :
    Except PageTableBuildError UInt64 := do
  let page ← store.issuedTable table
  return store.arena page index

/-- `write` (lines 139–151). -/
def write (table : PhysAddr) (index : Fin 512) (value : UInt64) :
    Edit PageTableBuildError PreallocatedPageTableStore Unit := fun store =>
  match store.issuedTable table with
  | .error e => (.error e, store)
  | .ok page =>
    (.ok (), { store with
      arena := Function.update store.arena page (Function.update (store.arena page) index value) })

instance : PageTableStore PreallocatedPageTableStore where
  allocateZeroed := allocateZeroed
  read := read
  write := write

theorem frame_toNat (store : PreallocatedPageTableStore) {page : ℕ} (h : page < store.capacity) :
    (store.frame page).address.toNat = store.base.address.toNat + page * pageSize := by
  have hfits := store.fits
  show (UInt64.ofNat _).toNat = _
  unfold pageSize at *
  rw [UInt64.toNat_ofNat']
  omega

/-- The issued tables are the frames of the allocated pages. -/
theorem issuedTable_eq_ok_iff {store : PreallocatedPageTableStore} {table : PhysAddr} {page : ℕ} :
    store.issuedTable table = .ok page ↔ page < store.allocated ∧ table = store.frame page := by
  have hle := store.allocated_le
  have hbase : store.base.address.toNat % 4096 = 0 := store.base.aligned
  have haligned : table.address.toNat % 4096 = 0 := table.aligned
  constructor
  · intro h
    unfold issuedTable at h
    simp only at h
    split_ifs at h with hlow hoffset hissued
    obtain rfl := Except.ok.inj h
    have hnotlow := UInt64.le_iff_toNat_le.mp (UInt64.not_lt.mp hlow)
    refine ⟨not_le.mp hissued, ?_⟩
    have haddress : table.address.toNat = (store.frame
        ((table.address.toNat - store.base.address.toNat) / pageSize)).address.toNat := by
      rw [store.frame_toNat (lt_of_lt_of_le (not_le.mp hissued) hle)]
      unfold pageSize at *
      omega
    exact PhysAddr.ext (UInt64.toNat_inj.mp haddress)
  · rintro ⟨hlt, rfl⟩
    have haddress := store.frame_toNat (lt_of_lt_of_le hlt hle)
    unfold issuedTable
    simp only
    rw [if_neg, haddress, Nat.add_sub_cancel_left, if_neg, if_neg, Nat.mul_div_cancel]
    · decide
    · rw [Nat.mul_div_cancel _ (by decide)]
      exact not_le.mpr hlt
    · rw [Nat.mul_mod_left]
      simp
    · rw [UInt64.not_lt, UInt64.le_iff_toNat_le, haddress]
      exact Nat.le_add_right _ _

theorem frame_inj (store : PreallocatedPageTableStore) {page page' : ℕ} (h : page < store.capacity)
    (h' : page' < store.capacity) (heq : store.frame page = store.frame page') : page = page' := by
  have haddress := congrArg (fun frame => frame.address.toNat) heq
  simp only [store.frame_toNat h, store.frame_toNat h'] at haddress
  unfold pageSize at haddress
  omega

/-- The contents of an issued table. -/
def contents (store : PreallocatedPageTableStore) (table : PhysAddr) :
    Option (Fin 512 → UInt64) :=
  match store.issuedTable table with
  | .error _ => none
  | .ok page => some (store.arena page)

theorem contents_frame (store : PreallocatedPageTableStore) {page : ℕ} (h : page < store.allocated) :
    store.contents (store.frame page) = some (store.arena page) := by
  rw [contents, issuedTable_eq_ok_iff.mpr ⟨h, rfl⟩]

theorem contents_eq_some {store : PreallocatedPageTableStore} {table : PhysAddr}
    {words : Fin 512 → UInt64} (h : store.contents table = some words) :
    ∃ page, page < store.allocated ∧ table = store.frame page ∧ words = store.arena page := by
  unfold contents at h
  split at h
  · cases h
  · next page hissued =>
    obtain ⟨hlt, hframe⟩ := issuedTable_eq_ok_iff.mp hissued
    exact ⟨page, hlt, hframe, (Option.some_inj.mp h).symm⟩

/-- Stores that agree on the arena outside one page, and on the issued tables. -/
theorem contents_update {store store' : PreallocatedPageTableStore} {page : ℕ}
    {words : Fin 512 → UInt64} (hbase : store'.base = store.base) (hpage : page < store'.allocated)
    (hissued : ∀ k, k ≠ page → (k < store'.allocated ↔ k < store.allocated))
    (harena : store'.arena = Function.update store.arena page words) :
    store'.contents = Function.update store.contents (store.frame page) (some words) := by
  have hframe : store'.frame = store.frame := by
    funext k
    unfold frame
    simp only [hbase]
  have hle := store'.allocated_le
  funext table
  by_cases htable : table = store.frame page
  · rw [htable, Function.update_self, ← hframe, store'.contents_frame hpage, harena,
      Function.update_self]
  · rw [Function.update_of_ne htable]
    cases hold : store.contents table with
    | some old =>
      obtain ⟨k, hk, rfl, rfl⟩ := contents_eq_some hold
      have hne : k ≠ page := fun heq => htable (heq ▸ rfl)
      rw [← hframe, store'.contents_frame ((hissued k hne).mpr hk), harena,
        Function.update_of_ne hne]
    | none =>
      by_contra hnew
      obtain ⟨new, hnew⟩ := Option.ne_none_iff_exists'.mp hnew
      obtain ⟨k, hk, rfl, rfl⟩ := contents_eq_some hnew
      have hne : k ≠ page := fun heq => htable (heq ▸ congrFun hframe k)
      rw [hframe, store.contents_frame ((hissued k hne).mp hk)] at hold
      cases hold

/-- The preallocated store meets the storage contract. -/
instance : LawfulPageTableStore PreallocatedPageTableStore where
  table := contents
  read_live := by
    intro store frame words h index
    obtain ⟨page, hlt, rfl, rfl⟩ := contents_eq_some h
    show (store.issuedTable _ >>= _) = _
    rw [issuedTable_eq_ok_iff.mpr ⟨hlt, rfl⟩]
    rfl
  write_live := by
    intro store frame words h index value
    obtain ⟨page, hlt, rfl, rfl⟩ := contents_eq_some h
    have hissued := issuedTable_eq_ok_iff.mpr ⟨hlt, rfl⟩
    have hwrite : write (store.frame page) index value store = (.ok (), { store with
        arena := Function.update store.arena page
          (Function.update (store.arena page) index value) }) := by
      unfold write
      rw [hissued]
    exact ⟨_, hwrite, contents_update rfl hlt (fun _ _ => Iff.rfl) rfl⟩
  allocate_ok := by
    intro store frame store' h
    have h : allocateZeroed store = (.ok frame, store') := h
    by_cases hfull : store.allocated = store.capacity
    · rw [allocateZeroed, dif_pos hfull] at h
      cases h
    rw [allocateZeroed, dif_neg hfull] at h
    cases h
    refine ⟨?_, contents_update rfl (Nat.lt_succ_self _) (fun k hk => ?_) rfl⟩
    · by_contra hlive
      obtain ⟨words, hwords⟩ := Option.ne_none_iff_exists'.mp hlive
      obtain ⟨page, hlt, hframe, -⟩ := contents_eq_some hwords
      have hle := store.allocated_le
      exact absurd (store.frame_inj (by omega) (by omega) hframe) (by omega)
    · show k < store.allocated + 1 ↔ _
      omega
  allocate_error := by
    intro store e store' h
    have h : allocateZeroed store = (.error e, store') := h
    by_cases hfull : store.allocated = store.capacity
    · rw [allocateZeroed, dif_pos hfull] at h
      cases h
      rfl
    · rw [allocateZeroed, dif_neg hfull] at h
      cases h

end PreallocatedPageTableStore

end Mrml.Arch
