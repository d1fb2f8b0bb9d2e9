import Mrml.Kernel.FrameAllocator

/-!
# Contiguous runs of the frame allocator

`allocate_contiguous` (`crates/mrml-kernel/src/memory.rs`, lines 135–177) rounds the page index up
to the alignment. The index counts from the start of a region, so the address of the run is aligned
if the region starts at an aligned address. The search for a region moves the cursor of the
allocator, also when it fails.

Results:
* `contiguous_aligned_iff`: when the run is aligned.
* `failed_contiguous`: what a call leaves that fails.
-/

namespace Mrml.Kernel

/-- The least multiple of `alignment` from `index` on. -/
def roundUp (index alignment : ℕ) : ℕ := (index + (alignment - 1)) / alignment * alignment

theorem roundUp_zero {alignment : ℕ} (h : 0 < alignment) : roundUp 0 alignment = 0 := by
  rw [roundUp, Nat.zero_add, Nat.div_eq_of_lt (by omega), Nat.zero_mul]

theorem isPowerOfTwo_iff {value : UInt64} :
    isPowerOfTwo value = true ↔ value.toNat = 2 ^ value.toNat.log2 := beq_iff_eq

/-- The mask of a power of two rounds down. -/
theorem toNat_and_not_mask {value alignment : UInt64} (h : isPowerOfTwo alignment = true) :
    (value &&& ~~~(alignment - 1)).toNat = value.toNat / alignment.toNat * alignment.toNat := by
  have hpow := isPowerOfTwo_iff.mp h
  have hpos : 0 < alignment.toNat := by
    rw [hpow]
    exact Nat.two_pow_pos _
  have hmask : (alignment - 1).toNat = alignment.toNat - 1 :=
    UInt64.toNat_sub_of_le alignment 1 (UInt64.le_iff_toNat_le.mpr hpos)
  have hlow : (value &&& (alignment - 1)).toNat = value.toNat % alignment.toNat := by
    rw [UInt64.toNat_and, hmask]
    generalize alignment.toNat.log2 = n at hpow
    rw [hpow, Nat.and_two_pow_sub_one_eq_mod]
  have hsplit := toNat_and_add_and_not value (alignment - 1)
  have hdivision := Nat.div_add_mod' value.toNat alignment.toNat
  omega

theorem MemoryRegion.pages_pos (region : MemoryRegion) : 0 < region.pages.toNat := by
  obtain ⟨_, h, -⟩ := bind_eq_ok.mp region.checked
  refine Nat.pos_of_ne_zero fun hzero => refuseIf_eq_ok.mp h (.inl ?_)
  rw [← UInt64.toNat_inj, hzero, UInt64.toNat_zero]

/-- The first page of a free region is free. -/
theorem mem_freePages_start {regions : List MemoryRegion} {region : MemoryRegion}
    (hmem : region ∈ regions) (hkind : region.kind = .free) :
    region.start.address.toNat ∈ freePages regions :=
  mem_freePages.mpr ⟨region, hmem, hkind, 0, region.pages_pos, by simp⟩

namespace FrameAllocator

/-- What `allocate_contiguous` computes in a region. -/
theorem alignedRun_eq_ok {pageIndex pages alignmentPages aligned stop : UInt64}
    (halignment : isPowerOfTwo alignmentPages = true) :
    alignedRun pageIndex pages alignmentPages = .ok (aligned, stop) ↔
      pageIndex.toNat + (alignmentPages.toNat - 1) < 2 ^ 64 ∧
        aligned.toNat = roundUp pageIndex.toNat alignmentPages.toNat ∧
          stop.toNat = aligned.toNat + pages.toNat := by
  have hpos : 0 < alignmentPages.toNat := by
    rw [isPowerOfTwo_iff.mp halignment]
    exact Nat.two_pow_pos _
  have hmask : (alignmentPages - 1).toNat = alignmentPages.toNat - 1 :=
    UInt64.toNat_sub_of_le alignmentPages 1 (UInt64.le_iff_toNat_le.mpr hpos)
  constructor
  · intro h
    obtain ⟨value, hvalue, h⟩ := bind_eq_ok.mp h
    obtain ⟨stop', hstop, h⟩ := bind_eq_ok.mp h
    obtain ⟨rfl, rfl⟩ := Prod.mk.inj (Except.ok.inj h)
    rw [okOr_eq_ok, checkedAdd64_eq_some] at hvalue hstop
    have hlt := value.toNat_lt
    refine ⟨by omega, ?_, hstop⟩
    rw [toNat_and_not_mask halignment, hvalue, hmask, roundUp]
  · rintro ⟨hlt, haligned, hstop⟩
    have hvalue : checkedAdd64 pageIndex (alignmentPages - 1) =
        some (pageIndex + (alignmentPages - 1)) := by
      rw [checkedAdd64_eq_some, UInt64.toNat_add, Nat.mod_eq_of_lt (by omega)]
    have hround : (pageIndex + (alignmentPages - 1)) &&& ~~~(alignmentPages - 1) = aligned := by
      rw [← UInt64.toNat_inj, toNat_and_not_mask halignment, checkedAdd64_eq_some.mp hvalue, hmask,
        haligned, roundUp]
    rw [alignedRun, hvalue, okOr_some, ok_bind, hround]
    show (okOr (checkedAdd64 aligned pages) MemoryError.overflow >>= fun stop => pure (aligned, stop)) = _
    rw [checkedAdd64_eq_some.mpr hstop]
    rfl

/-- In a fresh region the computation goes through. -/
theorem alignedRun_zero (pages : UInt64) {alignmentPages : UInt64}
    (halignment : isPowerOfTwo alignmentPages = true) :
    alignedRun 0 pages alignmentPages = .ok (0, pages) := by
  have hlt := alignmentPages.toNat_lt
  have hpos : 0 < alignmentPages.toNat := by
    rw [isPowerOfTwo_iff.mp halignment]
    exact Nat.two_pow_pos _
  refine (alignedRun_eq_ok halignment).mpr ⟨?_, (roundUp_zero hpos).symm, ?_⟩
  · show 0 + (alignmentPages.toNat - 1) < 2 ^ 64
    omega
  · exact (Nat.zero_add _).symm

/-! ## The address of a run -/

/-- The first free region with room for an aligned run, from page `index` of the first region
    on. -/
def firstFit (pages alignment : ℕ) : List MemoryRegion → ℕ → Option MemoryRegion
  | [], _ => none
  | region :: regions, index =>
    if region.kind = .free ∧ roundUp index alignment + pages ≤ region.pages.toNat then some region
    else firstFit pages alignment regions 0

/-- The run at `a` lies in a free region, at a multiple of the alignment from its start. -/
def RunIn (pages alignment : ℕ) (a : PhysAddr) (region : MemoryRegion) : Prop :=
  region.kind = .free ∧ ∃ first, alignment ∣ first ∧ first + pages ≤ region.pages.toNat ∧
    a.address.toNat = region.start.address.toNat + first * pageSize

/-- A run is taken from the first region that fits. -/
theorem contiguousLoop_eq_ok {pages alignmentPages : UInt64}
    (halignment : isPowerOfTwo alignmentPages = true) {regions : List MemoryRegion}
    {regionIndex regionIndex' : ℕ} {pageIndex pageIndex' : UInt64} {a : PhysAddr}
    (h : contiguousLoop pages alignmentPages regions regionIndex pageIndex =
      (.ok a, regionIndex', pageIndex')) :
    ∃ region ∈ regions,
      firstFit pages.toNat alignmentPages.toNat regions pageIndex.toNat = some region ∧
        RunIn pages.toNat alignmentPages.toNat a region := by
  induction regions generalizing regionIndex pageIndex with
  | nil => cases congrArg Prod.fst h
  | cons region regions ih =>
    rw [contiguousLoop] at h
    rw [firstFit]
    have hnext (hfit : ¬ (region.kind = .free ∧
        roundUp pageIndex.toNat alignmentPages.toNat + pages.toNat ≤ region.pages.toNat))
        (h : contiguousLoop pages alignmentPages regions (regionIndex + 1) 0 =
          (.ok a, regionIndex', pageIndex')) :
        ∃ found ∈ region :: regions,
          (if region.kind = .free ∧ roundUp pageIndex.toNat alignmentPages.toNat + pages.toNat ≤
              region.pages.toNat then some region
            else firstFit pages.toNat alignmentPages.toNat regions 0) = some found ∧
          RunIn pages.toNat alignmentPages.toNat a found := by
      obtain ⟨found, hmem, hfound, hrest⟩ := ih h
      exact ⟨found, List.mem_cons_of_mem _ hmem, (if_neg hfit).trans hfound, hrest⟩
    split_ifs at h with hkind
    · exact hnext (fun hfit => hkind hfit.1) h
    · rw [not_not] at hkind
      cases hrun : alignedRun pageIndex pages alignmentPages with
      | error error =>
        rw [hrun] at h
        cases congrArg Prod.fst h
      | ok run =>
        obtain ⟨aligned, stop⟩ := run
        obtain ⟨-, haligned, hstop⟩ := (alignedRun_eq_ok halignment).mp hrun
        rw [hrun] at h
        dsimp only at h
        split_ifs at h with hfits
        · rw [UInt64.le_iff_toNat_le, hstop] at hfits
          obtain ⟨address, haddress⟩ :=
            pageAddress_of_le (show aligned.toNat ≤ region.pages.toNat by omega)
          rw [haddress] at h
          dsimp only at h
          rw [PhysAddr.new, dif_pos (aligned_of_pageAddress haddress)] at h
          obtain rfl := Except.ok.inj (congrArg Prod.fst h)
          refine ⟨region, List.mem_cons_self, if_pos ⟨hkind, haligned ▸ hfits⟩, hkind,
            aligned.toNat, ?_, hfits, pageAddress_eq_ok.mp haddress⟩
          rw [haligned]
          exact Nat.dvd_mul_left _ _
        · rw [UInt64.le_iff_toNat_le, hstop, haligned] at hfits
          exact hnext (fun hfit => hfits hfit.2) h

/-- A call is refused at once or runs the loop from the cursor on. -/
theorem allocateContiguous_cases {allocator allocator' : FrameAllocator}
    {pages alignmentPages : UInt64} {result : Except MemoryError PhysAddr}
    (h : allocator.allocateContiguous pages alignmentPages = (result, allocator')) :
    (allocator' = allocator ∧ (result = .error .invalidLength ∨ result = .error .unaligned)) ∨
    (isPowerOfTwo alignmentPages = true ∧ ∃ regionIndex pageIndex,
      contiguousLoop pages alignmentPages (allocator.map.regions.drop allocator.regionIndex)
        allocator.regionIndex allocator.pageIndex = (result, regionIndex, pageIndex) ∧
      allocator' = { allocator with regionIndex, pageIndex }) := by
  rw [allocateContiguous] at h
  split_ifs at h with hzero halignment
  · obtain ⟨rfl, rfl⟩ := Prod.mk.inj h
    exact .inl ⟨rfl, .inl rfl⟩
  · obtain ⟨rfl, rfl⟩ := Prod.mk.inj h
    exact .inl ⟨rfl, .inr rfl⟩
  · rw [not_or, Bool.not_eq_false] at halignment
    obtain ⟨hresult, rfl⟩ := Prod.mk.inj h
    exact .inr ⟨halignment.2, _, _, Prod.ext hresult rfl, rfl⟩

/-- **Main theorem.** A run that `allocate_contiguous` returns lies in one free region, and its
    address is a multiple of the alignment exactly if the first free region with room for the
    run starts at such a multiple. -/
theorem contiguous_aligned_iff {allocator allocator' : FrameAllocator}
    {pages alignmentPages : UInt64} {a : PhysAddr}
    (h : allocator.allocateContiguous pages alignmentPages = (.ok a, allocator')) :
    (alignmentPages.toNat * pageSize ∣ a.address.toNat ∧
      ∃ region ∈ allocator.map.regions, region.kind = .free ∧
        region.start.address.toNat ≤ a.address.toNat ∧
        a.address.toNat + pages.toNat * pageSize ≤ region.endAddress) ↔
    ∃ region, firstFit pages.toNat alignmentPages.toNat
        (allocator.map.regions.drop allocator.regionIndex) allocator.pageIndex.toNat =
          some region ∧
      alignmentPages.toNat * pageSize ∣ region.start.address.toNat := by
  obtain ⟨-, hresult⟩ | ⟨halignment, regionIndex, pageIndex, hloop, -⟩ :=
    allocateContiguous_cases h
  · simp at hresult
  · obtain ⟨region, hmem, hfound, hkind, first, hdvd, hfits, haddress⟩ :=
      contiguousLoop_eq_ok halignment hloop
    have hrun : alignmentPages.toNat * pageSize ∣ first * pageSize := Nat.mul_dvd_mul_right hdvd _
    rw [haddress, Nat.dvd_add_left hrun]
    constructor
    · intro haligned
      exact ⟨region, hfound, haligned.1⟩
    · rintro ⟨found, hfound', haligned⟩
      obtain rfl := Option.some.inj (hfound.symm.trans hfound')
      refine ⟨haligned, region, List.mem_of_mem_drop hmem, hkind, Nat.le_add_right _ _, ?_⟩
      rw [MemoryRegion.endAddress, Nat.add_assoc, ← Nat.add_mul]
      exact Nat.add_le_add_left (Nat.mul_le_mul_right _ hfits) _

/-- A map of one free region, of `pages` pages from address `0x1000` on. -/
def oneRegion (pages : UInt64) (checked : checkRegion ⟨0x1000, by decide⟩ pages = .ok ()) :
    MemoryMap where
  regions := [⟨⟨0x1000, by decide⟩, pages, .free, checked⟩]
  checked := rfl

theorem contiguous_aligned_iff_oneRegion :
    ((1 : UInt64).toNat * pageSize ∣ (0x1000 : UInt64).toNat ∧
      ∃ region ∈ (oneRegion 4 (by decide)).regions, region.kind = .free ∧
        region.start.address.toNat ≤ (0x1000 : UInt64).toNat ∧
        (0x1000 : UInt64).toNat + (2 : UInt64).toNat * pageSize ≤ region.endAddress) ↔
    ∃ region, firstFit (2 : UInt64).toNat (1 : UInt64).toNat
        (oneRegion 4 (by decide)).regions (0 : UInt64).toNat = some region ∧
      (1 : UInt64).toNat * pageSize ∣ region.start.address.toNat := by
  have hrun : (new (oneRegion 4 (by decide))).allocateContiguous 2 1 =
      (.ok ⟨0x1000, by decide⟩,
        ((new (oneRegion 4 (by decide))).allocateContiguous 2 1).2) := rfl
  exact contiguous_aligned_iff hrun

/-- A page that is asked for at a multiple of two pages and comes at an odd one. -/
theorem contiguous_unaligned :
    ¬ ∀ (allocator allocator' : FrameAllocator) (pages alignmentPages : UInt64) (a : PhysAddr),
      allocator.allocateContiguous pages alignmentPages = (.ok a, allocator') →
        alignmentPages.toNat * pageSize ∣ a.address.toNat ∧
        ∃ region ∈ allocator.map.regions, region.kind = .free ∧
          region.start.address.toNat ≤ a.address.toNat ∧
          a.address.toNat + pages.toNat * pageSize ≤ region.endAddress := by
  intro h
  have haligned := (h (new (oneRegion 4 (by decide))) _ 1 2 ⟨0x1000, by decide⟩ rfl).1
  revert haligned
  decide

/-! ## Failed calls -/

/-- From a fresh region on, the search fails only at the end of the map. -/
theorem contiguousLoop_zero_eq_error {pages alignmentPages : UInt64}
    (halignment : isPowerOfTwo alignmentPages = true) {regions : List MemoryRegion}
    {regionIndex regionIndex' : ℕ} {pageIndex' : UInt64} {error : MemoryError}
    (h : contiguousLoop pages alignmentPages regions regionIndex 0 =
      (.error error, regionIndex', pageIndex')) :
    error = .outOfMemory ∧ regionIndex' = regionIndex + regions.length := by
  induction regions generalizing regionIndex with
  | nil =>
    obtain ⟨hresult, hcursor⟩ := Prod.mk.inj h
    exact ⟨(Except.error.inj hresult).symm, (Prod.mk.inj hcursor).1.symm⟩
  | cons region regions ih =>
    have hnext (h : contiguousLoop pages alignmentPages regions (regionIndex + 1) 0 =
        (.error error, regionIndex', pageIndex')) :
        error = .outOfMemory ∧ regionIndex' = regionIndex + (region :: regions).length := by
      obtain ⟨herror, hindex⟩ := ih h
      refine ⟨herror, ?_⟩
      rw [hindex, List.length_cons]
      omega
    rw [contiguousLoop, alignedRun_zero pages halignment] at h
    dsimp only at h
    split_ifs at h with hkind hfits
    · exact hnext h
    · obtain ⟨address, haddress⟩ := pageAddress_of_le (UInt64.le_iff_toNat_le.mp
        (UInt64.zero_le (a := region.pages)))
      rw [haddress] at h
      dsimp only at h
      rw [PhysAddr.new, dif_pos (aligned_of_pageAddress haddress)] at h
      cases congrArg Prod.fst h
    · exact hnext h

theorem alignedRun_eq_error {pageIndex pages alignmentPages : UInt64} {error : MemoryError}
    (h : alignedRun pageIndex pages alignmentPages = .error error) : error = .overflow := by
  rw [alignedRun] at h
  cases hvalue : checkedAdd64 pageIndex (alignmentPages - 1) with
  | none =>
    rw [hvalue] at h
    exact (Except.error.inj h).symm
  | some value =>
    rw [hvalue, okOr_some, ok_bind] at h
    dsimp only at h
    cases hstop : checkedAdd64 (value &&& ~~~(alignmentPages - 1)) pages with
    | none =>
      rw [hstop] at h
      exact (Except.error.inj h).symm
    | some stop =>
      rw [hstop] at h
      exact nomatch h

/-- A search that fails has left the cursor alone, or it has moved it behind the last region. -/
theorem contiguousLoop_eq_error {pages alignmentPages : UInt64}
    (halignment : isPowerOfTwo alignmentPages = true) {regions : List MemoryRegion}
    {regionIndex regionIndex' : ℕ} {pageIndex pageIndex' : UInt64} {error : MemoryError}
    (h : contiguousLoop pages alignmentPages regions regionIndex pageIndex =
      (.error error, regionIndex', pageIndex')) :
    (error ≠ .outOfMemory → regionIndex' = regionIndex ∧ pageIndex' = pageIndex) ∧
    (error = .outOfMemory → regionIndex' = regionIndex + regions.length) := by
  cases regions with
  | nil =>
    obtain ⟨hresult, hcursor⟩ := Prod.mk.inj h
    obtain ⟨rfl, rfl⟩ := Prod.mk.inj hcursor
    exact ⟨fun _ => ⟨rfl, rfl⟩, fun _ => rfl⟩
  | cons region regions =>
    have hnext (h : contiguousLoop pages alignmentPages regions (regionIndex + 1) 0 =
        (.error error, regionIndex', pageIndex')) :
        (error ≠ .outOfMemory → regionIndex' = regionIndex ∧ pageIndex' = pageIndex) ∧
        (error = .outOfMemory → regionIndex' = regionIndex + (region :: regions).length) := by
      obtain ⟨herror, hindex⟩ := contiguousLoop_zero_eq_error halignment h
      refine ⟨fun hne => absurd herror hne, fun _ => ?_⟩
      rw [hindex, List.length_cons]
      omega
    rw [contiguousLoop] at h
    split_ifs at h with hkind
    · exact hnext h
    · cases hrun : alignedRun pageIndex pages alignmentPages with
      | error failure =>
        rw [hrun] at h
        obtain ⟨hresult, hcursor⟩ := Prod.mk.inj h
        obtain ⟨rfl, rfl⟩ := Prod.mk.inj hcursor
        obtain rfl := alignedRun_eq_error hrun
        obtain rfl := Except.error.inj hresult
        exact ⟨fun _ => ⟨rfl, rfl⟩, by rintro ⟨⟩⟩
      | ok run =>
        obtain ⟨aligned, stop⟩ := run
        obtain ⟨-, hstop⟩ := alignedRun_spec hrun
        rw [hrun] at h
        dsimp only at h
        split_ifs at h with hfits
        · rw [UInt64.le_iff_toNat_le, hstop] at hfits
          obtain ⟨address, haddress⟩ :=
            pageAddress_of_le (show aligned.toNat ≤ region.pages.toNat by omega)
          rw [haddress] at h
          dsimp only at h
          rw [PhysAddr.new, dif_pos (aligned_of_pageAddress haddress)] at h
          cases congrArg Prod.fst h
        · exact hnext h

/-- No free region stands at the cursor or behind it. -/
def Spent (allocator : FrameAllocator) : Prop :=
  ∀ region ∈ allocator.map.regions.drop allocator.regionIndex, region.kind ≠ .free

/-- The error of a call on an allocator without free regions. -/
def failure : Call → MemoryError
  | .allocate => .outOfMemory
  | .allocateContiguous pages alignmentPages =>
    if pages = 0 then .invalidLength
    else if alignmentPages = 0 ∨ isPowerOfTwo alignmentPages = false then .unaligned
    else .outOfMemory

theorem allocateLoop_of_forall_ne {regions : List MemoryRegion}
    (h : ∀ region ∈ regions, region.kind ≠ .free) (regionIndex : ℕ) (pageIndex : UInt64) :
    (allocateLoop regions regionIndex pageIndex).1 = .error .outOfMemory ∧
      (allocateLoop regions regionIndex pageIndex).2.1 = regionIndex + regions.length := by
  induction regions generalizing regionIndex pageIndex with
  | nil => exact ⟨rfl, rfl⟩
  | cons region regions ih =>
    obtain ⟨hregion, hregions⟩ := List.forall_mem_cons.mp h
    obtain ⟨hresult, hindex⟩ := ih hregions (regionIndex + 1) 0
    rw [allocateLoop, if_pos (.inl hregion)]
    refine ⟨hresult, ?_⟩
    rw [hindex, List.length_cons]
    omega

theorem contiguousLoop_of_forall_ne (pages alignmentPages : UInt64) {regions : List MemoryRegion}
    (h : ∀ region ∈ regions, region.kind ≠ .free) (regionIndex : ℕ) (pageIndex : UInt64) :
    (contiguousLoop pages alignmentPages regions regionIndex pageIndex).1 =
        .error .outOfMemory ∧
      (contiguousLoop pages alignmentPages regions regionIndex pageIndex).2.1 =
        regionIndex + regions.length := by
  induction regions generalizing regionIndex pageIndex with
  | nil => exact ⟨rfl, rfl⟩
  | cons region regions ih =>
    obtain ⟨hregion, hregions⟩ := List.forall_mem_cons.mp h
    obtain ⟨hresult, hindex⟩ := ih hregions (regionIndex + 1) 0
    rw [contiguousLoop, if_pos hregion]
    refine ⟨hresult, ?_⟩
    rw [hindex, List.length_cons]
    omega

/-- A cursor behind the last region has nothing free before it. -/
theorem spent_of_length_le {allocator : FrameAllocator}
    (h : allocator.map.regions.length ≤ allocator.regionIndex) : allocator.Spent := by
  intro region hmem
  rw [List.drop_eq_nil_of_le h] at hmem
  exact nomatch hmem

/-- **Step lemma.** Without free regions every call fails, and it stays so. -/
theorem Spent.call {allocator : FrameAllocator} (h : allocator.Spent) (c : Call) :
    (allocator.call c).1 = .error (failure c) ∧ (allocator.call c).2.Spent := by
  have hlength : allocator.map.regions.length ≤ allocator.regionIndex +
      (allocator.map.regions.drop allocator.regionIndex).length := by
    rw [List.length_drop]
    omega
  cases c with
  | allocate =>
    obtain ⟨hresult, hindex⟩ :=
      allocateLoop_of_forall_ne h allocator.regionIndex allocator.pageIndex
    refine ⟨hresult, spent_of_length_le ?_⟩
    show allocator.map.regions.length ≤ (allocateLoop _ _ _).2.1
    rwa [hindex]
  | allocateContiguous pages alignmentPages =>
    show (allocator.allocateContiguous pages alignmentPages).1 = _ ∧
      (allocator.allocateContiguous pages alignmentPages).2.Spent
    rw [allocateContiguous, failure]
    split_ifs with hzero halignment
    · exact ⟨rfl, h⟩
    · exact ⟨rfl, h⟩
    · obtain ⟨hresult, hindex⟩ := contiguousLoop_of_forall_ne pages alignmentPages h
        allocator.regionIndex allocator.pageIndex
      refine ⟨hresult, spent_of_length_le ?_⟩
      show allocator.map.regions.length ≤ (contiguousLoop _ _ _ _ _).2.1
      rwa [hindex]

/-- **Run lemma.** Without free regions all later calls fail. -/
theorem Spent.results {allocator : FrameAllocator} (h : allocator.Spent) (calls : List Call) :
    allocator.results calls = calls.map fun c => .error (failure c) := by
  induction calls generalizing allocator with
  | nil => rfl
  | cons c calls ih =>
    obtain ⟨hresult, hspent⟩ := h.call c
    rw [FrameAllocator.results, hresult, ih hspent, List.map_cons]

/-- A run of all pages of the address space does not fit behind the first page. -/
theorem contiguousLoop_whole {region : MemoryRegion} (hkind : region.kind = .free)
    (regions : List MemoryRegion) (regionIndex : ℕ) {pageIndex : UInt64}
    (h : 0 < pageIndex.toNat) :
    contiguousLoop (UInt64.ofNat (2 ^ 64 - 1)) 1 (region :: regions) regionIndex pageIndex =
      (.error .overflow, regionIndex, pageIndex) := by
  rw [contiguousLoop, if_neg (not_not.mpr hkind)]
  cases hrun : alignedRun pageIndex (UInt64.ofNat (2 ^ 64 - 1)) 1 with
  | error error =>
    obtain rfl := alignedRun_eq_error hrun
    rfl
  | ok run =>
    obtain ⟨aligned, stop⟩ := run
    obtain ⟨hindex, hstop⟩ := alignedRun_spec hrun
    have hlt := stop.toNat_lt
    have hpages : (UInt64.ofNat (2 ^ 64 - 1)).toNat = 2 ^ 64 - 1 := rfl
    omega

/-- With a free region at the cursor or behind it some call has another result than without. -/
theorem exists_call_ne_failure {allocator : FrameAllocator} (h : ¬ allocator.Spent) :
    ∃ c, (allocator.call c).1 ≠ .error (failure c) := by
  obtain ⟨a, hresult, -⟩ | ⟨-, hremaining, -⟩ := allocator.allocate_spec
  · refine ⟨.allocate, fun herror => ?_⟩
    exact nomatch hresult.symm.trans herror
  · simp only [Spent, not_forall, not_not] at h
    obtain ⟨free, hmem, hkind⟩ := h
    rw [remaining] at hremaining
    cases hregions : allocator.map.regions.drop allocator.regionIndex with
    | nil =>
      rw [hregions] at hmem
      exact nomatch hmem
    | cons region regions =>
      rw [hregions] at hmem hremaining
      obtain ⟨hpages, hrest⟩ := List.append_eq_nil_iff.mp hremaining
      -- the pages behind the first region are gone, so this region is the free one
      have hfirst : free = region := by
        refine (List.mem_cons.mp hmem).resolve_right fun hmem => ?_
        have hstart := mem_freePages_start hmem hkind
        rw [hrest] at hstart
        exact nomatch hstart
      subst hfirst
      rw [if_pos hkind] at hpages
      have hindex : 0 < allocator.pageIndex.toNat := by
        have hpos := free.pages_pos
        have hlength := congrArg List.length hpages
        rw [pageRun, List.length_map, List.length_range, List.length_nil] at hlength
        omega
      refine ⟨.allocateContiguous (UInt64.ofNat (2 ^ 64 - 1)) 1, ?_⟩
      show (allocator.allocateContiguous _ _).1 ≠ _
      rw [allocateContiguous, if_neg (by decide), if_neg (by decide), hregions,
        contiguousLoop_whole hkind regions _ hindex]
      show (.error .overflow : Except MemoryError PhysAddr) ≠ .error .outOfMemory
      simp

/-- **Main theorem.** A call that fails for another reason than the end of the memory leaves the
    allocator as it is. A call that is out of memory has used up every free region at the cursor
    and behind it: all later calls fail, and they have the results that they have without the
    call exactly if there was no such region. -/
theorem failed_contiguous {allocator allocator' : FrameAllocator} {pages alignmentPages : UInt64}
    {error : MemoryError}
    (h : allocator.allocateContiguous pages alignmentPages = (.error error, allocator')) :
    (error ≠ .outOfMemory → allocator' = allocator) ∧
    (error = .outOfMemory →
      (∀ calls, ∀ result ∈ allocator'.results calls, ∃ failure, result = .error failure) ∧
      ((∀ calls, allocator'.results calls = allocator.results calls) ↔
        ∀ region ∈ allocator.map.regions.drop allocator.regionIndex, region.kind ≠ .free)) := by
  obtain ⟨rfl, hresult⟩ | ⟨halignment, regionIndex, pageIndex, hloop, rfl⟩ :=
    allocateContiguous_cases h
  · refine ⟨fun _ => rfl, fun hmemory => ?_⟩
    subst hmemory
    simp at hresult
  · obtain ⟨hstay, hmove⟩ := contiguousLoop_eq_error halignment hloop
    constructor
    · intro hne
      obtain ⟨rfl, rfl⟩ := hstay hne
      rfl
    · intro hmemory
      have hspent : ({ allocator with regionIndex, pageIndex } : FrameAllocator).Spent := by
        refine spent_of_length_le ?_
        show allocator.map.regions.length ≤ regionIndex
        rw [hmove hmemory, List.length_drop]
        omega
      constructor
      · intro calls result hmem
        rw [hspent.results] at hmem
        obtain ⟨c, -, rfl⟩ := List.mem_map.mp hmem
        exact ⟨failure c, rfl⟩
      · constructor
        · intro hsame
          by_contra hfree
          obtain ⟨c, hc⟩ := exists_call_ne_failure hfree
          have hresults := hsame [c]
          rw [hspent.results] at hresults
          exact hc (List.cons.inj hresults).1.symm
        · intro hfree calls
          rw [hspent.results, Spent.results hfree]

theorem failed_contiguous_oneRegion :
    (∀ calls, ∀ result ∈
      ((new (oneRegion 1 (by decide))).allocateContiguous 2 1).2.results calls,
        ∃ failure, result = .error failure) ∧
    ((∀ calls, ((new (oneRegion 1 (by decide))).allocateContiguous 2 1).2.results calls =
      (new (oneRegion 1 (by decide))).results calls) ↔
        ∀ region ∈ (oneRegion 1 (by decide)).regions, region.kind ≠ .free) := by
  have hrun : (new (oneRegion 1 (by decide))).allocateContiguous 2 1 =
      (.error .outOfMemory, ((new (oneRegion 1 (by decide))).allocateContiguous 2 1).2) := rfl
  exact (failed_contiguous hrun).2 rfl

/-- A run that does not fit takes the pages that are there. -/
theorem failed_contiguous_lost :
    ¬ ∀ (allocator allocator' : FrameAllocator) (pages alignmentPages : UInt64)
      (error : MemoryError),
      allocator.allocateContiguous pages alignmentPages = (.error error, allocator') →
        ∀ calls, allocator'.results calls = allocator.results calls := by
  intro h
  have hresults := h (new (oneRegion 1 (by decide))) _ 2 1 .outOfMemory rfl [.allocate]
  revert hresults
  decide

end FrameAllocator

end Mrml.Kernel
