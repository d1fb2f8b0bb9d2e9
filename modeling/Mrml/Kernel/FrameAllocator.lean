import Mrml.Common.Run
import Mrml.Kernel.Memory

/-!
# The early frame allocator

Model of `FrameAllocator` (`crates/mrml-kernel/src/memory.rs`, lines 71–177): a cursor over
the regions of a memory map and the pages of the current region, which `allocate` and
`allocate_contiguous` move forward.

Above the cursor stands the list of the free pages that it has still before it
(`FrameAllocator.remaining`). A call takes its pages from the front of this list, behind pages
that it skips.

Results:
* `FrameAllocator.call_spec`: what one call returns and leaves.
* `FrameAllocator.allocator_safety`: all runs of pages are disjoint and ascending, and
  `allocate` alone gives every free page once.
-/

namespace Mrml.Kernel

/-- `MemoryMap` (lines 73–75): regions that `MemoryMap::new` has accepted. -/
structure MemoryMap where
  regions : List MemoryRegion
  checked : MemoryMap.new regions = .ok ()

/-- `u64::is_power_of_two`. -/
def isPowerOfTwo (value : UInt64) : Bool := value.toNat == 2 ^ value.toNat.log2

/-- The address of a page of a region, as both functions compute it (lines 120–128 and
    162–169). -/
def pageAddress (region : MemoryRegion) (index : UInt64) : Except MemoryError UInt64 := do
  let offset ← okOr (checkedMul64 index (UInt64.ofNat pageSize)) .overflow
  okOr (checkedAdd64 region.start.address offset) .overflow

theorem pageAddress_eq_ok {region : MemoryRegion} {index address : UInt64} :
    pageAddress region index = .ok address ↔
      address.toNat = region.start.address.toNat + index.toNat * pageSize := by
  have haddress := address.toNat_lt
  have hsize : (UInt64.ofNat pageSize).toNat = pageSize := rfl
  simp only [pageAddress, bind_eq_ok, okOr_eq_ok, checkedMul64_eq_some, checkedAdd64_eq_some, hsize]
  constructor
  · rintro ⟨offset, hoffset, h⟩
    rw [h, hoffset]
  · intro h
    refine ⟨UInt64.ofNat (index.toNat * pageSize), ?_, ?_⟩
    · rw [UInt64.toNat_ofNat', Nat.mod_eq_of_lt (by omega)]
    · rw [UInt64.toNat_ofNat', Nat.mod_eq_of_lt (by omega), h]

theorem aligned_of_pageAddress {region : MemoryRegion} {index address : UInt64}
    (h : pageAddress region index = .ok address) : address.toNat % pageSize = 0 := by
  rw [pageAddress_eq_ok.mp h, Nat.add_mul_mod_self_right]
  exact region.start.aligned

/-- `FrameAllocator` (lines 99–103). -/
structure FrameAllocator where
  map : MemoryMap
  regionIndex : ℕ
  pageIndex : UInt64

namespace FrameAllocator

/-- `FrameAllocator::new` (lines 106–112). -/
def new (map : MemoryMap) : FrameAllocator := ⟨map, 0, 0⟩

/-- The loop of `allocate` (lines 114–132), over the regions from the cursor on. -/
def allocateLoop : List MemoryRegion → ℕ → UInt64 → Except MemoryError PhysAddr × ℕ × UInt64
  | [], regionIndex, pageIndex => (.error .outOfMemory, regionIndex, pageIndex)
  | region :: regions, regionIndex, pageIndex =>
    if region.kind ≠ .free ∨ pageIndex ≥ region.pages then allocateLoop regions (regionIndex + 1) 0
    else
      match h : pageAddress region pageIndex with
      | .error error => (.error error, regionIndex, pageIndex)
      | .ok address => (.ok ⟨address, aligned_of_pageAddress h⟩, regionIndex, pageIndex + 1)

/-- `FrameAllocator::allocate` (lines 113–133). -/
def allocate (allocator : FrameAllocator) : Except MemoryError PhysAddr × FrameAllocator :=
  let (result, regionIndex, pageIndex) :=
    allocateLoop (allocator.map.regions.drop allocator.regionIndex) allocator.regionIndex
      allocator.pageIndex
  (result, { allocator with regionIndex, pageIndex })

/-- The end of the aligned run (lines 155–160): its first page and the page behind it. -/
def alignedRun (pageIndex pages alignmentPages : UInt64) : Except MemoryError (UInt64 × UInt64) := do
  let value ← okOr (checkedAdd64 pageIndex (alignmentPages - 1)) .overflow
  let aligned := value &&& ~~~(alignmentPages - 1)
  let stop ← okOr (checkedAdd64 aligned pages) .overflow
  return (aligned, stop)

/-- The loop of `allocate_contiguous` (lines 149–176). -/
def contiguousLoop (pages alignmentPages : UInt64) :
    List MemoryRegion → ℕ → UInt64 → Except MemoryError PhysAddr × ℕ × UInt64
  | [], regionIndex, pageIndex => (.error .outOfMemory, regionIndex, pageIndex)
  | region :: regions, regionIndex, pageIndex =>
    if region.kind ≠ .free then
      contiguousLoop pages alignmentPages regions (regionIndex + 1) 0
    else
      match alignedRun pageIndex pages alignmentPages with
      | .error error => (.error error, regionIndex, pageIndex)
      | .ok (aligned, stop) =>
        if stop ≤ region.pages then
          match pageAddress region aligned with
          | .error error => (.error error, regionIndex, pageIndex)
          | .ok address => (PhysAddr.new address, regionIndex, stop)
        else contiguousLoop pages alignmentPages regions (regionIndex + 1) 0

/-- `FrameAllocator::allocate_contiguous` (lines 138–177). -/
def allocateContiguous (allocator : FrameAllocator) (pages alignmentPages : UInt64) :
    Except MemoryError PhysAddr × FrameAllocator :=
  if pages = 0 then (.error .invalidLength, allocator)
  else if alignmentPages = 0 ∨ isPowerOfTwo alignmentPages = false then
    (.error .unaligned, allocator)
  else
    let (result, regionIndex, pageIndex) :=
      contiguousLoop pages alignmentPages (allocator.map.regions.drop allocator.regionIndex)
        allocator.regionIndex allocator.pageIndex
    (result, { allocator with regionIndex, pageIndex })

end FrameAllocator

/-! ## Free pages -/

/-- The addresses of `count` pages from `start` on. -/
def pageRun (start count : ℕ) : List ℕ := (List.range count).map fun i => start + i * pageSize

/-- The free pages of a map, in the order of its regions. -/
def freePages (regions : List MemoryRegion) : List ℕ :=
  (regions.filter (·.kind = .free)).flatMap fun region =>
    pageRun region.start.address.toNat region.pages.toNat

/-- The free pages from page `index` of the first region on. -/
def freeFrom : List MemoryRegion → ℕ → List ℕ
  | [], _ => []
  | region :: regions, index =>
    (if region.kind = .free then
      pageRun (region.start.address.toNat + index * pageSize) (region.pages.toNat - index)
    else []) ++ freePages regions

theorem freeFrom_zero (regions : List MemoryRegion) : freeFrom regions 0 = freePages regions := by
  cases regions with
  | nil => rfl
  | cons region regions =>
    by_cases h : region.kind = .free <;> simp [freeFrom, freePages, h]

theorem pageRun_add (start m n : ℕ) :
    pageRun start (m + n) = pageRun start m ++ pageRun (start + m * pageSize) n := by
  rw [pageRun, List.range_add, List.map_append, List.map_map]
  congr 1
  refine List.map_congr_left fun i _ => ?_
  show start + (m + i) * pageSize = start + m * pageSize + i * pageSize
  ring

/-- The pages of a free region from `index` on: pages that are skipped, a run and the rest. -/
theorem freeFrom_split {region : MemoryRegion} (hfree : region.kind = .free)
    (regions : List MemoryRegion) {index first count : ℕ} (hindex : index ≤ first)
    (hcount : first + count ≤ region.pages.toNat) :
    freeFrom (region :: regions) index =
      pageRun (region.start.address.toNat + index * pageSize) (first - index) ++
        (pageRun (region.start.address.toNat + first * pageSize) count ++
          freeFrom (region :: regions) (first + count)) := by
  obtain ⟨skipped, rfl⟩ := Nat.exists_eq_add_of_le hindex
  obtain ⟨left, hleft⟩ := Nat.exists_eq_add_of_le hcount
  rw [freeFrom, freeFrom, if_pos hfree, if_pos hfree, hleft,
    show index + skipped + count + left - index = skipped + (count + left) by omega,
    show index + skipped - index = skipped by omega,
    show index + skipped + count + left - (index + skipped + count) = left by omega,
    pageRun_add, pageRun_add, List.append_assoc, List.append_assoc]
  congr 2
  · rw [Nat.add_mul, Nat.add_assoc]
  · congr 2
    ring

theorem mem_pageRun {start count page : ℕ} :
    page ∈ pageRun start count ↔ ∃ i < count, page = start + i * pageSize := by
  simp [pageRun, eq_comm]

theorem mem_freePages {regions : List MemoryRegion} {page : ℕ} :
    page ∈ freePages regions ↔ ∃ region ∈ regions, region.kind = .free ∧
      ∃ i < region.pages.toNat, page = region.start.address.toNat + i * pageSize := by
  simp [freePages, mem_pageRun, and_assoc]

theorem MemoryRegion.Before.trans {a b c : MemoryRegion} (hab : a.Before b) (hbc : b.Before c) :
    a.Before c := by
  refine ⟨UInt64.le_trans hab.1 hbc.1, ?_⟩
  have h₁ := hab.2
  have h₂ := hbc.2
  have h₃ : b.start.address.toNat ≤ b.endAddress := Nat.le_add_right _ _
  omega

instance : IsTrans MemoryRegion MemoryRegion.Before := ⟨fun _ _ _ => MemoryRegion.Before.trans⟩

/-- The free pages of a map ascend, so none of them occurs twice. -/
theorem freePages_sorted {regions : List MemoryRegion}
    (h : regions.IsChain MemoryRegion.Before) : (freePages regions).Pairwise (· < ·) := by
  have hpairs := List.isChain_iff_pairwise.mp h
  refine List.pairwise_flatMap.mpr ⟨?_, ?_⟩
  · intro region _
    refine List.pairwise_map.mpr (List.pairwise_lt_range.imp fun {i j} hij => ?_)
    have : i * pageSize < j * pageSize := Nat.mul_lt_mul_of_pos_right hij (by decide)
    omega
  · refine (hpairs.sublist List.filter_sublist).imp fun {a b} hab page hpage page' hpage' => ?_
    obtain ⟨i, hi, rfl⟩ := mem_pageRun.mp hpage
    obtain ⟨j, -, rfl⟩ := mem_pageRun.mp hpage'
    have hend : i * pageSize < a.pages.toNat * pageSize :=
      Nat.mul_lt_mul_of_pos_right hi (by decide)
    have hbefore := hab.2
    unfold MemoryRegion.endAddress at hbefore
    omega

/-! ## One call -/

/-- What a loop of the allocator does with the pages from page `index` of the first region on:
    it returns a run of `count` pages of one free region, behind pages that it skips, or it
    skips pages and fails. It leaves the cursor on page `index'` of region `moved`. -/
def Served (regions : List MemoryRegion) (index count : ℕ)
    (result : Except MemoryError PhysAddr) (moved index' : ℕ) : Prop :=
  match result with
  | .ok a => (∃ region ∈ regions, region.kind = .free ∧
      region.start.address.toNat ≤ a.address.toNat ∧
      a.address.toNat + count * pageSize ≤ region.endAddress) ∧
    ∃ skipped, freeFrom regions index =
      skipped ++ (pageRun a.address.toNat count ++ freeFrom (regions.drop moved) index')
  | .error _ => ∃ skipped, freeFrom regions index =
      skipped ++ freeFrom (regions.drop moved) index'

/-- Pages that are passed over are skipped. -/
theorem Served.skip {region : MemoryRegion} {regions : List MemoryRegion} {index count : ℕ}
    {result : Except MemoryError PhysAddr} {moved index' : ℕ}
    (h : Served regions 0 count result moved index') :
    Served (region :: regions) index count result (moved + 1) index' := by
  obtain ⟨skipped, hskip⟩ : ∃ skipped, freeFrom (region :: regions) index =
      skipped ++ freeFrom regions 0 := by
    rw [freeFrom_zero]
    exact ⟨_, rfl⟩
  cases result with
  | error error =>
    obtain ⟨skipped', hskip'⟩ := h
    exact ⟨skipped ++ skipped', by rw [hskip, hskip', List.append_assoc]; rfl⟩
  | ok a =>
    obtain ⟨⟨host, hmem, hhost⟩, skipped', hskip'⟩ := h
    refine ⟨⟨host, List.mem_cons_of_mem _ hmem, hhost⟩, skipped ++ skipped', ?_⟩
    rw [hskip, hskip', List.append_assoc]
    rfl

/-- Pages that are given out are a run of their region. -/
theorem Served.grant {region : MemoryRegion} {regions : List MemoryRegion}
    (hfree : region.kind = .free) {index first count : ℕ} (hindex : index ≤ first)
    (hcount : first + count ≤ region.pages.toNat) {a : PhysAddr}
    (ha : a.address.toNat = region.start.address.toNat + first * pageSize) :
    Served (region :: regions) index count (.ok a) 0 (first + count) := by
  refine ⟨⟨region, List.mem_cons_self, hfree, ?_, ?_⟩,
    pageRun (region.start.address.toNat + index * pageSize) (first - index), ?_⟩
  · omega
  · have hle : (first + count) * pageSize ≤ region.pages.toNat * pageSize :=
      Nat.mul_le_mul_right _ hcount
    rw [Nat.add_mul] at hle
    unfold MemoryRegion.endAddress
    omega
  · rw [ha]
    exact freeFrom_split hfree regions hindex hcount

/-- A page of a region has an address. -/
theorem pageAddress_of_le {region : MemoryRegion} {index : UInt64}
    (h : index.toNat ≤ region.pages.toNat) : ∃ address, pageAddress region index = .ok address := by
  have hend := region.endAddress_lt
  have hle : index.toNat * pageSize ≤ region.pages.toNat * pageSize := Nat.mul_le_mul_right _ h
  unfold MemoryRegion.endAddress at hend
  refine ⟨UInt64.ofNat (region.start.address.toNat + index.toNat * pageSize),
    pageAddress_eq_ok.mpr ?_⟩
  rw [UInt64.toNat_ofNat', Nat.mod_eq_of_lt (by omega)]

namespace FrameAllocator

/-- The loop of `allocate` takes the next free page. -/
theorem allocateLoop_spec (regions : List MemoryRegion) (regionIndex : ℕ) (pageIndex : UInt64) :
    ∃ result moved pageIndex', allocateLoop regions regionIndex pageIndex =
        (result, regionIndex + moved, pageIndex') ∧
      Served regions pageIndex.toNat 1 result moved pageIndex'.toNat ∧
      ((∃ a, result = .ok a ∧ freeFrom regions pageIndex.toNat =
        a.address.toNat :: freeFrom (regions.drop moved) pageIndex'.toNat) ∨
      (result = .error .outOfMemory ∧ freeFrom regions pageIndex.toNat = [] ∧
        freeFrom (regions.drop moved) pageIndex'.toNat = [])) := by
  induction regions generalizing regionIndex pageIndex with
  | nil =>
    exact ⟨.error .outOfMemory, 0, pageIndex, rfl, ⟨[], rfl⟩, .inr ⟨rfl, rfl, rfl⟩⟩
  | cons region regions ih =>
    rw [allocateLoop]
    split_ifs with hskip
    · obtain ⟨result, moved, pageIndex', heq, hserved, hcases⟩ := ih (regionIndex + 1) 0
      have hnone : freeFrom (region :: regions) pageIndex.toNat = freeFrom regions 0 := by
        rw [freeFrom_zero, freeFrom]
        split_ifs with hfree
        · have hle := UInt64.le_iff_toNat_le.mp (hskip.resolve_left (not_not.mpr hfree))
          rw [Nat.sub_eq_zero_of_le hle]
          rfl
        · rfl
      refine ⟨result, moved + 1, pageIndex', ?_, hserved.skip, ?_⟩
      · rw [heq, Nat.add_assoc, Nat.add_comm 1]
      · rw [hnone]
        exact hcases
    · obtain ⟨hfree, hlt⟩ := not_or.mp hskip
      rw [not_not] at hfree
      replace hlt : pageIndex.toNat < region.pages.toNat := Nat.not_le.mp hlt
      obtain ⟨address, haddress⟩ := pageAddress_of_le (Nat.le_of_lt hlt)
      have hnext : (pageIndex + 1).toNat = pageIndex.toNat + 1 := by
        have := region.pages.toNat_lt
        rw [UInt64.toNat_add, UInt64.toNat_one, Nat.mod_eq_of_lt (by omega)]
      have hfields := pageAddress_eq_ok.mp haddress
      have haligned := aligned_of_pageAddress haddress
      refine ⟨.ok ⟨address, haligned⟩, 0, pageIndex + 1, ?_, ?_, .inl ⟨_, rfl, ?_⟩⟩
      · split
        · next herror => rw [haddress] at herror; cases herror
        · next address' h' =>
          obtain rfl := Except.ok.inj (haddress.symm.trans h')
          rfl
      · rw [hnext]
        exact Served.grant hfree (Nat.le_refl _) hlt hfields
      · have hsplit := freeFrom_split hfree regions (Nat.le_refl pageIndex.toNat)
          (show pageIndex.toNat + 1 ≤ _ from hlt)
        rw [Nat.sub_self, ← hfields] at hsplit
        rw [hnext, hsplit]
        rfl

/-- An aligned run starts at or behind the cursor. -/
theorem alignedRun_spec {pageIndex pages alignmentPages aligned stop : UInt64}
    (h : alignedRun pageIndex pages alignmentPages = .ok (aligned, stop)) :
    pageIndex.toNat ≤ aligned.toNat ∧ stop.toNat = aligned.toNat + pages.toNat := by
  obtain ⟨value, hvalue, h⟩ := bind_eq_ok.mp h
  obtain ⟨stop', hstop, h⟩ := bind_eq_ok.mp h
  obtain ⟨rfl, rfl⟩ := Prod.mk.inj (Except.ok.inj h)
  rw [okOr_eq_ok, checkedAdd64_eq_some] at hvalue hstop
  refine ⟨?_, hstop⟩
  have hsplit := toNat_and_add_and_not value (alignmentPages - 1)
  have hle : (value &&& (alignmentPages - 1)).toNat ≤ (alignmentPages - 1).toNat := by
    rw [UInt64.toNat_and]
    exact Nat.and_le_right
  omega

/-- The loop of `allocate_contiguous` takes a run of pages of one region. -/
theorem contiguousLoop_spec (pages alignmentPages : UInt64) (regions : List MemoryRegion)
    (regionIndex : ℕ) (pageIndex : UInt64) :
    ∃ result moved pageIndex',
      contiguousLoop pages alignmentPages regions regionIndex pageIndex =
        (result, regionIndex + moved, pageIndex') ∧
      Served regions pageIndex.toNat pages.toNat result moved pageIndex'.toNat := by
  induction regions generalizing regionIndex pageIndex with
  | nil => exact ⟨.error .outOfMemory, 0, pageIndex, rfl, [], rfl⟩
  | cons region regions ih =>
    have hnext : ∃ result moved pageIndex',
        contiguousLoop pages alignmentPages regions (regionIndex + 1) 0 =
          (result, regionIndex + moved, pageIndex') ∧
        Served (region :: regions) pageIndex.toNat pages.toNat result moved pageIndex'.toNat := by
      obtain ⟨result, moved, pageIndex', heq, hserved⟩ := ih (regionIndex + 1) 0
      refine ⟨result, moved + 1, pageIndex', ?_, hserved.skip⟩
      rw [heq, Nat.add_assoc, Nat.add_comm 1]
    have hstay : ∀ error, ∃ result moved pageIndex',
        (Except.error error, regionIndex, pageIndex) = (result, regionIndex + moved, pageIndex') ∧
        Served (region :: regions) pageIndex.toNat pages.toNat result moved pageIndex'.toNat :=
      fun error => ⟨.error error, 0, pageIndex, rfl, [], rfl⟩
    rw [contiguousLoop]
    split_ifs with hfree
    · exact hnext
    · rw [not_not] at hfree
      cases hrun : alignedRun pageIndex pages alignmentPages with
      | error error => exact hstay error
      | ok run =>
        obtain ⟨aligned, stop⟩ := run
        obtain ⟨hindex, hstop⟩ := alignedRun_spec hrun
        dsimp only
        split_ifs with hfits
        · rw [UInt64.le_iff_toNat_le] at hfits
          obtain ⟨address, haddress⟩ := pageAddress_of_le (show aligned.toNat ≤ region.pages.toNat by omega)
          rw [haddress]
          dsimp only
          refine ⟨.ok ⟨address, aligned_of_pageAddress haddress⟩, 0, stop, ?_, ?_⟩
          · rw [PhysAddr.new, dif_pos (aligned_of_pageAddress haddress)]
            rfl
          · rw [hstop]
            exact Served.grant hfree hindex (by omega) (pageAddress_eq_ok.mp haddress)
        · exact hnext

/-! ## Runs -/

/-- A call of the allocator. -/
inductive Call
  | allocate
  | allocateContiguous (pages alignmentPages : UInt64)
deriving DecidableEq

/-- The number of pages that a call asks for. -/
def Call.pages : Call → ℕ
  | allocate => 1
  | allocateContiguous pages _ => pages.toNat

/-- The call on an allocator. -/
def call (allocator : FrameAllocator) : Call → Except MemoryError PhysAddr × FrameAllocator
  | .allocate => allocator.allocate
  | .allocateContiguous pages alignmentPages => allocator.allocateContiguous pages alignmentPages

/-- The results of a sequence of calls. -/
def results : FrameAllocator → List Call → List (Except MemoryError PhysAddr)
  | _, [] => []
  | allocator, c :: calls => (allocator.call c).1 :: results (allocator.call c).2 calls

/-- The runs of pages that the successful calls return: their first pages and lengths. -/
def granted (allocator : FrameAllocator) (calls : List Call) : List (PhysAddr × ℕ) :=
  ((allocator.results calls).zip calls).filterMap fun (result, c) =>
    match result with
    | .ok a => some (a, c.pages)
    | .error _ => none

/-- The free pages that the cursor has still before it. -/
def remaining (allocator : FrameAllocator) : List ℕ :=
  freeFrom (allocator.map.regions.drop allocator.regionIndex) allocator.pageIndex.toNat

theorem remaining_new (map : MemoryMap) : (new map).remaining = freePages map.regions :=
  freeFrom_zero _

/-- What one call returns and leaves: a run of pages of one free region from the front of the
    remaining pages, behind pages that it skips, or an error. -/
def Serves (allocator : FrameAllocator) (count : ℕ) (result : Except MemoryError PhysAddr)
    (allocator' : FrameAllocator) : Prop :=
  allocator'.map = allocator.map ∧
  match result with
  | .ok a => 0 < count ∧ (∃ region ∈ allocator.map.regions, region.kind = .free ∧
      region.start.address.toNat ≤ a.address.toNat ∧
      a.address.toNat + count * pageSize ≤ region.endAddress) ∧
    ∃ skipped, allocator.remaining =
      skipped ++ (pageRun a.address.toNat count ++ allocator'.remaining)
  | .error _ => ∃ skipped, allocator.remaining = skipped ++ allocator'.remaining

/-- A loop from the cursor on serves the call. -/
theorem serves_of_served {allocator : FrameAllocator} {count moved : ℕ}
    {result : Except MemoryError PhysAddr} {pageIndex : UInt64} (hcount : 0 < count)
    (h : Served (allocator.map.regions.drop allocator.regionIndex) allocator.pageIndex.toNat count
      result moved pageIndex.toNat) :
    allocator.Serves count result
      { allocator with regionIndex := allocator.regionIndex + moved, pageIndex } := by
  refine ⟨rfl, ?_⟩
  cases result with
  | error error =>
    obtain ⟨skipped, hskip⟩ := h
    rw [List.drop_drop] at hskip
    exact ⟨skipped, hskip⟩
  | ok a =>
    obtain ⟨⟨region, hmem, hregion⟩, skipped, hskip⟩ := h
    rw [List.drop_drop] at hskip
    exact ⟨hcount, ⟨region, List.mem_of_mem_drop hmem, hregion⟩, skipped, hskip⟩

theorem call_spec (allocator : FrameAllocator) (c : Call) :
    allocator.Serves c.pages (allocator.call c).1 (allocator.call c).2 := by
  cases c with
  | allocate =>
    obtain ⟨result, moved, pageIndex, heq, hloop, -⟩ := allocateLoop_spec
      (allocator.map.regions.drop allocator.regionIndex) allocator.regionIndex allocator.pageIndex
    rw [call, allocate, heq]
    exact serves_of_served Nat.one_pos hloop
  | allocateContiguous pages alignmentPages =>
    obtain ⟨result, moved, pageIndex, heq, hloop⟩ := contiguousLoop_spec pages alignmentPages
      (allocator.map.regions.drop allocator.regionIndex) allocator.regionIndex allocator.pageIndex
    rw [call, allocateContiguous]
    split_ifs with hzero haligned
    · exact ⟨rfl, [], rfl⟩
    · exact ⟨rfl, [], rfl⟩
    · rw [heq]
      refine serves_of_served ?_ hloop
      exact Nat.pos_of_ne_zero fun h => hzero (UInt64.toNat_inj.mp h)

/-- The run of one call stands before those of the later calls. -/
theorem granted_cons (allocator : FrameAllocator) (c : Call) (calls : List Call) :
    allocator.granted (c :: calls) =
      match (allocator.call c).1 with
      | .ok a => (a, c.pages) :: (allocator.call c).2.granted calls
      | .error _ => (allocator.call c).2.granted calls := by
  cases hresult : (allocator.call c).1 <;> simp [granted, results, hresult]

/-- The runs that are returned are taken from the remaining pages, in order. -/
theorem granted_sublist (allocator : FrameAllocator) (calls : List Call) :
    ((allocator.granted calls).flatMap fun grant => pageRun grant.1.address.toNat grant.2).Sublist
      allocator.remaining := by
  induction calls generalizing allocator with
  | nil => exact List.nil_sublist _
  | cons c calls ih =>
    obtain ⟨-, hserves⟩ := allocator.call_spec c
    have hrest := ih (allocator.call c).2
    rw [granted_cons]
    cases hresult : (allocator.call c).1 with
    | error error =>
      rw [hresult] at hserves
      obtain ⟨skipped, hskip⟩ := hserves
      rw [hskip]
      exact hrest.trans (List.sublist_append_right _ _)
    | ok a =>
      rw [hresult] at hserves
      obtain ⟨-, -, skipped, hskip⟩ := hserves
      rw [List.flatMap_cons, hskip]
      exact ((List.Sublist.refl _).append hrest).trans (List.sublist_append_right _ _)

/-- Every run that is returned is a run of pages of one free region. -/
theorem granted_inside (allocator : FrameAllocator) (calls : List Call) :
    ∀ grant ∈ allocator.granted calls, 0 < grant.2 ∧
      ∃ region ∈ allocator.map.regions, region.kind = .free ∧
        region.start.address.toNat ≤ grant.1.address.toNat ∧
        grant.1.address.toNat + grant.2 * pageSize ≤ region.endAddress := by
  induction calls generalizing allocator with
  | nil => exact fun _ h => nomatch h
  | cons c calls ih =>
    obtain ⟨hmap, hserves⟩ := allocator.call_spec c
    have hrest := ih (allocator.call c).2
    rw [hmap] at hrest
    rw [granted_cons]
    cases hresult : (allocator.call c).1 with
    | error error => exact hrest
    | ok a =>
      rw [hresult] at hserves
      exact List.forall_mem_cons.mpr ⟨⟨hserves.1, hserves.2.1⟩, hrest⟩

/-- Two runs of pages, all pages of the first below those of the second, do not overlap. -/
theorem run_le_of_pages_lt {a b : PhysAddr} {m n : ℕ} (hm : 0 < m) (hn : 0 < n)
    (h : ∀ page ∈ pageRun a.address.toNat m, ∀ page' ∈ pageRun b.address.toNat n, page < page') :
    a.address.toNat + m * pageSize ≤ b.address.toNat := by
  have hlast := h (a.address.toNat + (m - 1) * pageSize)
    (mem_pageRun.mpr ⟨m - 1, by omega, rfl⟩) b.address.toNat
    (mem_pageRun.mpr ⟨0, hn, by rw [Nat.zero_mul, Nat.add_zero]⟩)
  have ha := a.aligned
  have hb := b.aligned
  unfold pageSize at *
  omega

/-- `allocate` takes the first of the remaining pages. -/
theorem allocate_spec (allocator : FrameAllocator) :
    (∃ a, allocator.allocate.1 = .ok a ∧
      allocator.remaining = a.address.toNat :: allocator.allocate.2.remaining) ∨
    (allocator.allocate.1 = .error .outOfMemory ∧ allocator.remaining = [] ∧
      allocator.allocate.2.remaining = []) := by
  obtain ⟨result, moved, pageIndex, heq, -, hcases⟩ := allocateLoop_spec
    (allocator.map.regions.drop allocator.regionIndex) allocator.regionIndex allocator.pageIndex
  rw [List.drop_drop] at hcases
  rw [allocate, heq]
  exact hcases

/-- `allocate` alone returns the remaining pages one after the other and then fails. -/
theorem results_allocate (allocator : FrameAllocator) (n : ℕ) :
    (allocator.results (List.replicate n .allocate)).map (Except.map (·.address.toNat)) =
      (allocator.remaining.take n).map .ok ++
        List.replicate (n - allocator.remaining.length) (.error .outOfMemory) := by
  induction n generalizing allocator with
  | zero => simp [results]
  | succ n ih =>
    rw [List.replicate_succ, results, List.map_cons]
    show Except.map _ allocator.allocate.1 ::
      (allocator.allocate.2.results (List.replicate n .allocate)).map _ = _
    rw [ih]
    rcases allocator.allocate_spec with ⟨a, hresult, hremaining⟩ | ⟨hresult, hnil, hnil'⟩
    · rw [hresult, hremaining, List.take_succ_cons, List.length_cons, Nat.succ_sub_succ]
      rfl
    · rw [hresult, hnil, hnil']
      simp [List.replicate_succ]
      rfl

/-- **Main theorem.** For every memory map and every sequence of calls: the runs of pages that
    are returned are page aligned, each inside one free region, and every run ends at or below
    the start of the later ones; `allocate` never reports an overflow; and `allocate` alone
    returns every page of every free region exactly once, in ascending order, and is out of
    memory from then on. -/
theorem allocator_safety (map : MemoryMap) :
    (∀ calls, ((new map).granted calls).Pairwise fun a b =>
      a.1.address.toNat + a.2 * pageSize ≤ b.1.address.toNat) ∧
    (∀ calls, ∀ grant ∈ (new map).granted calls, grant.1.address.toNat % pageSize = 0 ∧
      0 < grant.2 ∧ ∃ region ∈ map.regions, region.kind = .free ∧
        region.start.address.toNat ≤ grant.1.address.toNat ∧
        grant.1.address.toNat + grant.2 * pageSize ≤ region.endAddress) ∧
    (∀ calls, (run (fun allocator c => (allocator.call c).2) (new map) calls).allocate.1 ≠
      .error .overflow) ∧
    ∃ pages : List ℕ, pages.Pairwise (· < ·) ∧
      (∀ page, page ∈ pages ↔ ∃ region ∈ map.regions, region.kind = .free ∧
        ∃ i < region.pages.toNat, page = region.start.address.toNat + i * pageSize) ∧
      ∀ n, ((new map).results (List.replicate n .allocate)).map (Except.map (·.address.toNat)) =
        (pages.take n).map .ok ++ List.replicate (n - pages.length) (.error .outOfMemory) := by
  have hsorted := freePages_sorted (MemoryMap.new_eq_ok.mp map.checked).2
  refine ⟨fun calls => ?_, fun calls grant hgrant => ?_, fun calls hoverflow => ?_,
    freePages map.regions, hsorted, fun page => mem_freePages, fun n => ?_⟩
  · have hgranted := (new map).granted_sublist calls
    rw [remaining_new] at hgranted
    have hpairs := (List.pairwise_flatMap.mp (hsorted.sublist hgranted)).2
    refine hpairs.imp_of_mem fun {a b} ha hb hab => ?_
    exact run_le_of_pages_lt ((new map).granted_inside calls a ha).1
      ((new map).granted_inside calls b hb).1 hab
  · exact ⟨grant.1.aligned, (new map).granted_inside calls grant hgrant⟩
  · rcases allocate_spec (run (fun allocator c => (allocator.call c).2) (new map) calls) with
      ⟨a, hresult, -⟩ | ⟨hresult, -⟩
    · cases hoverflow.symm.trans hresult
    · cases hoverflow.symm.trans hresult
  · rw [results_allocate, remaining_new]

end FrameAllocator

end Mrml.Kernel
