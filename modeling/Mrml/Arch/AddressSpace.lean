import Mrml.Arch.Entry
import Mrml.Common.Checked
import Mrml.Common.Generation
import Mrml.Common.Run
import Mrml.Common.Slots
import Mrml.Kernel.Pe

/-!
# Address spaces

Model of `AddressSpace` (`crates/mrml-kernel/src/arch/x86_64/address_space.rs`), of
`map_pe_image` (`pe_mapping.rs`) and of the construction of a `ServiceAddressSpace`
(`service_space.rs`). The slots of an address space are a generational table of mappings.
The field of `PagePermissions` is private, so that a mapping has one of its constants.

Results:
* `map_cases`, `unmap_cases`: what the two operations do to the table.
* `mapPeImage_failed`: a failing `map_pe_image` leaves the live mappings as they were.
* `address_space_safety`: runs of all operations, and built service spaces.
-/

namespace Mrml.Arch

open Mrml.Kernel

namespace PagePermissions

/-- `KERNEL_READ` (`x86_64.rs`, line 92). -/
def kernelRead : PagePermissions := ⟨false, false, false, false⟩

/-- `KERNEL_READ_WRITE` (line 93). -/
def kernelReadWrite : PagePermissions := ⟨true, false, false, false⟩

/-- `KERNEL_READ_EXECUTE` (line 94). -/
def kernelReadExecute : PagePermissions := ⟨false, true, false, false⟩

/-- `KERNEL_LOW_READ_EXECUTE` (line 96). -/
def kernelLowReadExecute : PagePermissions := ⟨false, true, false, true⟩

/-- `KERNEL_SHARED_READ` (line 97). -/
def kernelSharedRead : PagePermissions := ⟨false, false, false, true⟩

/-- `KERNEL_SHARED_READ_WRITE` (line 98). -/
def kernelSharedReadWrite : PagePermissions := ⟨true, false, false, true⟩

/-- `KERNEL_MMIO_READ_WRITE` (line 99). -/
def kernelMmioReadWrite : PagePermissions := ⟨true, false, false, true⟩

/-- `USER_READ` (line 100). -/
def userRead : PagePermissions := ⟨false, false, true, false⟩

/-- The constants of `PagePermissions` (lines 92–102). -/
def constants : List PagePermissions :=
  [kernelRead, kernelReadWrite, kernelReadExecute, kernelLowReadWrite, kernelLowReadExecute,
    kernelSharedRead, kernelSharedReadWrite, kernelMmioReadWrite, userRead, userReadWrite,
    userReadExecute]

theorem not_writable_executable {p : PagePermissions} (h : p ∈ constants) :
    ¬ (p.writable = true ∧ p.executable = true) := by
  revert p
  decide

end PagePermissions

namespace Mapping

/-- `Mapping::new` (`address_space.rs`, lines 27–75). -/
def new (virtualStart : VirtAddr) (physicalStart : PhysAddr) (pages : UInt64)
    (permissions : PagePermissions) : Except AddressSpaceError Mapping :=
  match h : Mapping.check virtualStart physicalStart pages permissions with
  | .ok () => .ok ⟨virtualStart, physicalStart, pages, permissions, h⟩
  | .error error => .error error

theorem permissions_of_new {virtualStart : VirtAddr} {physicalStart : PhysAddr} {pages : UInt64}
    {permissions : PagePermissions} {m : Mapping}
    (h : new virtualStart physicalStart pages permissions = .ok m) :
    m.permissions = permissions := by
  unfold new at h
  split at h
  · rw [← Except.ok.inj h]
  · cases h

/-- `Mapping::virtual_end` (lines 89–91). -/
def virtualEnd (m : Mapping) : UInt64 := m.virtualStart.address + m.pages * 4096

/-- `Mapping::physical_end` (lines 92–94). -/
def physicalEnd (m : Mapping) : UInt64 := m.physicalStart.address + m.pages * 4096

theorem toNat_end {start pages : UInt64} (h : start.toNat + pages.toNat * 4096 < 2 ^ 64) :
    (start + pages * 4096).toNat = start.toNat + pages.toNat * 4096 := by
  rw [UInt64.toNat_add, UInt64.toNat_mul, show (4096 : UInt64).toNat = 4096 from rfl,
    Nat.mod_eq_of_lt (show pages.toNat * 4096 < 2 ^ 64 by omega), Nat.mod_eq_of_lt h]

theorem toNat_virtualEnd (m : Mapping) :
    m.virtualEnd.toNat = m.virtualStart.address.toNat + m.pages.toNat * 4096 :=
  toNat_end m.bounds.2.1

/-- A user mapping lies in the low half of the address space. -/
theorem user_low {m : Mapping} (h : m.permissions.user = true) : m.virtualEnd.toNat ≤ 2 ^ 47 := by
  obtain ⟨hpos, hlt, -, hhalf⟩ := m.bounds
  have hlow : m.virtualStart.address < 0x0000800000000000 := by
    have hvalid := m.valid
    unfold Mapping.check at hvalid
    simp only at hvalid
    split_ifs at hvalid with _ _ _ _ _ _ hhalf
    by_contra hnot
    exact hhalf (.inl ⟨h, fun hboth => hnot hboth.1⟩)
  have hlow : m.virtualStart.address.toNat < 2 ^ 47 := UInt64.lt_iff_toNat_lt.mp hlow
  rw [toNat_virtualEnd]
  omega

end Mapping

/-- `overlaps` (lines 195–197). -/
def overlaps (aStart aEnd bStart bEnd : UInt64) : Bool := aStart < bEnd && bStart < aEnd

theorem overlaps_eq_false {aStart aEnd bStart bEnd : UInt64} :
    overlaps aStart aEnd bStart bEnd = false ↔
      bEnd.toNat ≤ aStart.toNat ∨ aEnd.toNat ≤ bStart.toNat := by
  rw [overlaps, Bool.and_eq_false_iff, decide_eq_false_iff_not, decide_eq_false_iff_not,
    UInt64.lt_iff_toNat_lt, UInt64.lt_iff_toNat_lt, not_lt, not_lt]

/-- `MappingId` (lines 98–101). -/
structure MappingId where
  slot : UInt32
  generation : UInt32
deriving DecidableEq

/-- `AddressSpace` (lines 119–121). A `Slot` (lines 104–107) is a cell. -/
structure AddressSpace (MAPPINGS : ℕ) where
  slots : Fin MAPPINGS → Cell Mapping

namespace AddressSpace

variable {MAPPINGS : ℕ}

/-- `AddressSpace::new` (lines 124–128). -/
def new (MAPPINGS : ℕ) : AddressSpace MAPPINGS := ⟨fun _ => ⟨1, none⟩⟩

/-- `AddressSpace::mappings` (lines 184–186). -/
def mappings (s : AddressSpace MAPPINGS) : List Mapping :=
  (List.finRange MAPPINGS).filterMap fun i => (s.slots i).value

/-- The body of the loop of `map` (lines 131–148). -/
def conflict (mapping existing : Mapping) : Option AddressSpaceError :=
  if overlaps mapping.virtualStart.address mapping.virtualEnd existing.virtualStart.address
      existing.virtualEnd then some .virtualOverlap
  else if overlaps mapping.physicalStart.address mapping.physicalEnd
      existing.physicalStart.address existing.physicalEnd then some .physicalAlias
  else none

/-- `AddressSpace::map` (lines 130–160). -/
def map (s : AddressSpace MAPPINGS) (mapping : Mapping) :
    Except AddressSpaceError MappingId × AddressSpace MAPPINGS :=
  match s.mappings.findSome? (conflict mapping) with
  | some error => (.error error, s)
  | none =>
    match firstSlot fun i => (s.slots i).value.isNone && (s.slots i).generation != 0 with
    | none => (.error .full, s)
    | some i =>
      (.ok ⟨UInt32.ofNat i, (s.slots i).generation⟩,
        ⟨Function.update s.slots i ⟨(s.slots i).generation, some mapping⟩⟩)

/-- `AddressSpace::get` (lines 162–168). -/
def get (s : AddressSpace MAPPINGS) (id : MappingId) : Except AddressSpaceError Mapping :=
  okOr (((slotAt id.slot).filter fun i => (s.slots i).generation == id.generation).bind
    fun i => (s.slots i).value) .invalidMapping

/-- `AddressSpace::unmap` (lines 170–181). -/
def unmap (s : AddressSpace MAPPINGS) (id : MappingId) :
    Except AddressSpaceError Mapping × AddressSpace MAPPINGS :=
  match (slotAt id.slot).filter fun i =>
      (s.slots i).generation == id.generation && (s.slots i).value.isSome with
  | none => (.error .invalidMapping, s)
  | some i =>
    match (s.slots i).value with
    | none => (.error .invalidMapping, s)
    | some mapping =>
      (.ok mapping,
        ⟨Function.update s.slots i ⟨succGeneration (s.slots i).generation, none⟩⟩)

end AddressSpace

/-- `PeAllocatedRegion` (`pe.rs`, lines 48–51). -/
structure PeAllocatedRegion where
  load : PeLoadRegion
  physicalStart : PhysAddr
deriving DecidableEq

/-- `PeMappingError` (`pe_mapping.rs`, lines 5–11). -/
inductive PeMappingError
  | invalidCount
  | missingAllocation
  | outputTooSmall
  | address (error : AddressSpaceError)
  | rollbackFailure
deriving DecidableEq

/-- The permissions of an image region (lines 37–47). -/
def imagePermissions (user : Bool) (load : PeLoadRegion) : Except PeMappingError PagePermissions :=
  match user, load.writable, load.executable with
  | true, true, false => .ok .userReadWrite
  | true, false, true => .ok .userReadExecute
  | true, false, false => .ok .userRead
  | false, true, false => .ok .kernelReadWrite
  | false, false, true => .ok .kernelReadExecute
  | false, false, false => .ok .kernelRead
  | _, true, true => .error (.address .invalidMapping)

/-- The mapping of one image region (lines 31–58). -/
def prepareRegion (loadBase : UInt64) (user : Bool) (allocation : Option PeAllocatedRegion) :
    Except PeMappingError Mapping := do
  let allocation ← okOr allocation .missingAllocation
  let virtualAddress ← okOr (checkedAdd64 loadBase allocation.load.virtualAddress.toUInt64)
    (.address .overflow)
  let permissions ← imagePermissions user allocation.load
  let virtualStart ← (VirtAddr.new virtualAddress).mapError fun _ => .address .invalidMapping
  (Mapping.new virtualStart allocation.physicalStart allocation.load.pages.toUInt64
    permissions).mapError .address

/-- An address space and the ids that `map_pe_image` hands out. -/
structure Installation (MAPPINGS : ℕ) where
  space : AddressSpace MAPPINGS
  output : List (Option MappingId)

namespace Installation

variable {MAPPINGS : ℕ}

/-- The rollback loop (lines 65–72), over the indices below the given one. -/
def rollback (t : Installation MAPPINGS) : ℕ → Except PeMappingError Unit × Installation MAPPINGS
  | 0 => (.ok (), t)
  | index + 1 =>
    match t.output.getD index none with
    | none => (.error .rollbackFailure, t)
    | some id =>
      match t.space.unmap id with
      | (.error _, space) => (.error .rollbackFailure, ⟨space, t.output.set index none⟩)
      | (.ok _, space) => rollback ⟨space, t.output.set index none⟩ index

/-- The loop over the prepared mappings (lines 60–76), from `index`. -/
def install (t : Installation MAPPINGS) :
    ℕ → List Mapping → Except PeMappingError Unit × Installation MAPPINGS
  | _, [] => (.ok (), t)
  | index, mapping :: rest =>
    match t.space.map mapping with
    | (.ok id, space) => install ⟨space, t.output.set index (some id)⟩ (index + 1) rest
    | (.error error, space) =>
      match rollback ⟨space, t.output⟩ index with
      | (.ok (), t) => (.error (.address error), t)
      | (.error failure, t) => (.error failure, t)

/-- `map_pe_image` (lines 16–78). -/
def mapPeImage (t : Installation MAPPINGS) (loadBase : UInt64) (user : Bool)
    (allocations : List (Option PeAllocatedRegion)) (count : ℕ) :
    Except PeMappingError ℕ × Installation MAPPINGS :=
  if count = 0 ∨ count > Pe.maxPeSections + 1 ∨ count > allocations.length then
    (.error .invalidCount, t)
  else if t.output.length < count then (.error .outputTooSmall, t)
  else
    let t := { t with output := List.replicate t.output.length none }
    match (allocations.take count).mapM (prepareRegion loadBase user) with
    | .error error => (.error error, t)
    | .ok prepared =>
      match t.install 0 prepared with
      | (.ok (), t) => (.ok count, t)
      | (.error error, t) => (.error error, t)

end Installation

/-! ## What `map` and `unmap` do to the table -/

namespace AddressSpace

variable {MAPPINGS : ℕ} {s s' : AddressSpace MAPPINGS}

/-- The mapping `m` is live in slot `i`. -/
def LiveAt (s : AddressSpace MAPPINGS) (i : Fin MAPPINGS) (m : Mapping) : Prop :=
  (s.slots i).value = some m

theorem mem_mappings {m : Mapping} : m ∈ s.mappings ↔ ∃ i, s.LiveAt i m := by
  simp [mappings, LiveAt]

/-- Two mappings have no page in common, neither a virtual nor a physical one. -/
def Apart (m m' : Mapping) : Prop :=
  (m'.virtualEnd.toNat ≤ m.virtualStart.address.toNat ∨
    m.virtualEnd.toNat ≤ m'.virtualStart.address.toNat) ∧
  (m'.physicalEnd.toNat ≤ m.physicalStart.address.toNat ∨
    m.physicalEnd.toNat ≤ m'.physicalStart.address.toNat)

theorem Apart.symm {m m' : Mapping} (h : Apart m m') : Apart m' m := ⟨h.1.symm, h.2.symm⟩

theorem conflict_eq_none {m m' : Mapping} : conflict m m' = none ↔ Apart m m' := by
  unfold conflict Apart
  rw [← overlaps_eq_false, ← overlaps_eq_false]
  split_ifs with hv hp <;> simp_all

theorem map_cases (s : AddressSpace MAPPINGS) (m : Mapping) :
    (∃ error, s.map m = (.error error, s)) ∨
    ∃ i, (∀ j m', s.LiveAt j m' → Apart m m') ∧ (s.slots i).value = none ∧
      (s.slots i).generation ≠ 0 ∧
      s.map m = (.ok ⟨UInt32.ofNat i, (s.slots i).generation⟩,
        ⟨Function.update s.slots i ⟨(s.slots i).generation, some m⟩⟩) := by
  unfold map
  cases hconflict : s.mappings.findSome? (conflict m) with
  | some error => exact .inl ⟨error, rfl⟩
  | none =>
    rw [List.findSome?_eq_none_iff] at hconflict
    cases hfree : firstSlot fun i => (s.slots i).value.isNone && (s.slots i).generation != 0 with
    | none => exact .inl ⟨.full, rfl⟩
    | some i =>
      have hi := firstSlot_some hfree
      rw [Bool.and_eq_true, Option.isNone_iff_eq_none, bne_iff_ne] at hi
      refine .inr ⟨i, ?_, hi.1, hi.2, rfl⟩
      intro j m' hj
      exact conflict_eq_none.mp (hconflict m' (mem_mappings.mpr ⟨j, hj⟩))

theorem unmap_cases (s : AddressSpace MAPPINGS) (id : MappingId) :
    (s.unmap id = (.error .invalidMapping, s) ∧
      ∀ m, ¬ Cell.Holds s.slots id.slot id.generation m) ∨
    ∃ i m, i.val = id.slot.toNat ∧ s.slots i = ⟨id.generation, some m⟩ ∧
      s.unmap id = (.ok m, ⟨Function.update s.slots i ⟨succGeneration id.generation, none⟩⟩) := by
  unfold unmap
  cases hslot : (slotAt id.slot).filter fun i =>
      (s.slots i).generation == id.generation && (s.slots i).value.isSome with
  | none =>
    refine .inl ⟨rfl, ?_⟩
    rintro m ⟨i, hi, hcell⟩
    simp [slotAt_eq_some.mpr hi, Option.filter, hcell] at hslot
  | some i =>
    rw [Option.filter_eq_some_iff, slotAt_eq_some, Bool.and_eq_true, beq_iff_eq] at hslot
    obtain ⟨hi, hgeneration, hsome⟩ := hslot
    obtain ⟨m, hm⟩ := Option.isSome_iff_exists.mp hsome
    refine .inr ⟨i, m, hi, ?_, ?_⟩
    · rw [← hgeneration, ← hm]
    · simp only [hm, hgeneration]

/-- A valid id can be used to remove its mapping. -/
theorem unmap_of_holds (id : MappingId) {m : Mapping}
    (h : Cell.Holds s.slots id.slot id.generation m) :
    ∃ i, i.val = id.slot.toNat ∧ s.slots i = ⟨id.generation, some m⟩ ∧
      s.unmap id = (.ok m, ⟨Function.update s.slots i ⟨succGeneration id.generation, none⟩⟩) := by
  rcases s.unmap_cases id with ⟨-, hnot⟩ | ⟨i, m', hi, hcell, heq⟩
  · exact absurd h (hnot m)
  · obtain rfl := h.unique ⟨i, hi, hcell⟩
    exact ⟨i, hi, hcell, heq⟩

theorem get_eq_ok {id : MappingId} {m : Mapping} :
    s.get id = .ok m ↔ Cell.Holds s.slots id.slot id.generation m := by
  rw [get, okOr_eq_ok, Option.bind_eq_some_iff]
  refine exists_congr fun i => ?_
  rw [Option.filter_eq_some_iff, slotAt_eq_some, beq_iff_eq, and_assoc]
  refine and_congr_right fun _ => ⟨fun ⟨hg, hv⟩ => ?_, fun h => by rw [h]; exact ⟨rfl, rfl⟩⟩
  rw [← hg, ← hv]

/-- What an operation does to an address space: it adds a mapping with the permissions of
    one of the constants, or removes one. -/
inductive Edit (s : AddressSpace MAPPINGS) : AddressSpace MAPPINGS → Prop
  | map {m : Mapping} (hm : m.permissions ∈ PagePermissions.constants) : Edit s (s.map m).2
  | unmap (id : MappingId) : Edit s (s.unmap id).2

theorem Edit.step (h : Edit s s') : Cell.Step s.slots s'.slots := by
  cases h with
  | map hm =>
    rcases s.map_cases _ with ⟨error, heq⟩ | ⟨i, -, hfree, hlive, heq⟩
    · rw [heq]
      exact .stay
    · rw [heq]
      exact .fill i _ hfree hlive
  | unmap id =>
    rcases s.unmap_cases id with ⟨heq, -⟩ | ⟨i, m, -, hcell, heq⟩
    · rw [heq]
      exact .stay
    · rw [heq]
      have hclear := Cell.Step.clear (t := s.slots) i (by rw [hcell]; exact Option.some_ne_none m)
      rwa [hcell] at hclear

/-- Live mappings have no page in common and the permissions of a constant. -/
structure Inv (s : AddressSpace MAPPINGS) : Prop where
  sound : Cell.Sound s.slots
  apart : ∀ i j m m', i ≠ j → s.LiveAt i m → s.LiveAt j m' → Apart m m'
  constant : ∀ i m, s.LiveAt i m → m.permissions ∈ PagePermissions.constants

theorem new_inv (MAPPINGS : ℕ) : (new MAPPINGS).Inv where
  sound := fun _ h => absurd rfl h
  apart := by
    intro i j m m' _ h
    cases h
  constant := by
    intro i m h
    cases h

theorem Edit.inv (hedit : Edit s s') (h : s.Inv) : s'.Inv := by
  have hsound := hedit.step.sound h.sound
  cases hedit with
  | @map m hm =>
    rcases s.map_cases m with ⟨error, heq⟩ | ⟨i, hapart, -, -, heq⟩
    · rwa [heq]
    · rw [heq] at hsound ⊢
      have hlive : ∀ j m', (Function.update s.slots i ⟨(s.slots i).generation, some m⟩ j).value =
          some m' → (j = i ∧ m' = m) ∨ (j ≠ i ∧ s.LiveAt j m') := by
        intro j m' hj
        by_cases hji : j = i
        · subst hji
          rw [Function.update_self] at hj
          exact .inl ⟨rfl, (Option.some.inj hj).symm⟩
        · rw [Function.update_of_ne hji] at hj
          exact .inr ⟨hji, hj⟩
      refine ⟨hsound, ?_, ?_⟩
      · intro j k m₁ m₂ hjk h₁ h₂
        rcases hlive j m₁ h₁ with ⟨hj, hm₁⟩ | ⟨-, hj⟩ <;>
          rcases hlive k m₂ h₂ with ⟨hk, hm₂⟩ | ⟨-, hk⟩
        · exact absurd (hj.trans hk.symm) hjk
        · exact hm₁ ▸ hapart k m₂ hk
        · exact hm₂ ▸ (hapart j m₁ hj).symm
        · exact h.apart j k m₁ m₂ hjk hj hk
      · intro j m' hj
        rcases hlive j m' hj with ⟨-, rfl⟩ | ⟨-, hj⟩
        · exact hm
        · exact h.constant j m' hj
  | unmap id =>
    rcases s.unmap_cases id with ⟨heq, -⟩ | ⟨i, m, -, hcell, heq⟩
    · rwa [heq]
    · rw [heq] at hsound ⊢
      have hlive : ∀ j m', (Function.update s.slots i ⟨succGeneration id.generation, none⟩ j).value =
          some m' → s.LiveAt j m' := by
        intro j m' hj
        by_cases hji : j = i
        · subst hji
          rw [Function.update_self] at hj
          cases hj
        · rwa [Function.update_of_ne hji] at hj
      exact ⟨hsound, fun j k m₁ m₂ hjk h₁ h₂ => h.apart j k m₁ m₂ hjk (hlive j m₁ h₁) (hlive k m₂ h₂),
        fun j m' hj => h.constant j m' (hlive j m' hj)⟩

/-- A sequence of edits. -/
abbrev Edits : AddressSpace MAPPINGS → AddressSpace MAPPINGS → Prop := Relation.ReflTransGen Edit

theorem Edits.inv (hedits : Edits s s') (h : s.Inv) : s'.Inv := by
  induction hedits with
  | refl => exact h
  | tail _ hedit ih => exact hedit.inv ih

/-- An id that has been passed is passed after further edits. -/
theorem Edits.past (hedits : Edits s s') (h : s.Inv) {id : MappingId}
    (hpast : Cell.Past s.slots id.slot id.generation) :
    Cell.Past s'.slots id.slot id.generation := by
  induction hedits with
  | refl => exact hpast
  | tail hedits hedit ih => exact hedit.step.past (Edits.inv hedits h).sound ih

/-- A valid id stays valid or is passed. -/
theorem Edits.holds_or_past (hedits : Edits s s') (h : s.Inv) {id : MappingId} {m : Mapping}
    (hvalid : Cell.Holds s.slots id.slot id.generation m) :
    Cell.Holds s'.slots id.slot id.generation m ∨ Cell.Past s'.slots id.slot id.generation := by
  induction hedits with
  | refl => exact .inl hvalid
  | tail hedits hedit ih =>
    rcases ih with hvalid | hpast
    · exact hedit.step.holds_or_past hvalid
    · exact .inr (hedit.step.past (Edits.inv hedits h).sound hpast)

/-! ## Rollback -/

/-- The same mappings are live, under the same ids. -/
def SameLive (s s' : AddressSpace MAPPINGS) : Prop :=
  ∀ i, (s.slots i).value = (s'.slots i).value ∧
    ((s.slots i).value ≠ none → s.slots i = s'.slots i)

/-- The spaces that follow `s` when mappings are added, with the ids of these mappings. -/
inductive Chain (s : AddressSpace MAPPINGS) : List MappingId → AddressSpace MAPPINGS → Prop
  | nil : Chain s [] s
  | snoc {ids : List MappingId} {s₁ s₂ : AddressSpace MAPPINGS} {m : Mapping} {id : MappingId} :
      Chain s ids s₁ → s₁.map m = (.ok id, s₂) → Chain s (ids ++ [id]) s₂

/-- Removing a mapping that was just added, in a space with the same live mappings. -/
theorem unmap_of_map (hN : MAPPINGS ≤ 2 ^ 32) {s₁ s₂ t : AddressSpace MAPPINGS} {m : Mapping}
    {id : MappingId} (hmap : s₁.map m = (.ok id, s₂)) (hsame : t.SameLive s₂) :
    ∃ t', t.unmap id = (.ok m, t') ∧ t'.SameLive s₁ := by
  rcases s₁.map_cases m with ⟨error, heq⟩ | ⟨i, -, hfree, -, heq⟩
  · rw [heq] at hmap
    cases hmap
  · rw [heq] at hmap
    cases hmap
    have hi : i.val = (UInt32.ofNat i).toNat := slotAt_eq_some.mp (slotAt_ofNat hN i)
    have hcell : t.slots i = ⟨(s₁.slots i).generation, some m⟩ := by
      obtain ⟨hvalue, hlive⟩ := hsame i
      dsimp only at hvalue hlive
      rw [Function.update_self] at hvalue hlive
      exact hlive (by rw [hvalue]; exact Option.some_ne_none m)
    obtain ⟨j, hj, -, hunmap⟩ := unmap_of_holds (s := t)
      ⟨UInt32.ofNat i, (s₁.slots i).generation⟩ ⟨i, hi, hcell⟩
    obtain rfl : j = i := Fin.ext (hj.trans hi.symm)
    refine ⟨_, hunmap, fun k => ?_⟩
    dsimp only
    by_cases hk : k = j
    · subst hk
      rw [Function.update_self, hfree]
      exact ⟨rfl, fun h => absurd rfl h⟩
    · have hother := hsame k
      dsimp only at hother
      rw [Function.update_of_ne hk] at hother ⊢
      exact hother

end AddressSpace

namespace Installation

open AddressSpace

variable {MAPPINGS : ℕ}

/-- The rollback removes the mappings that were added. -/
theorem rollback_chain (hN : MAPPINGS ≤ 2 ^ 32) {s s' : AddressSpace MAPPINGS}
    {ids : List MappingId} (hchain : Chain s ids s') :
    ∀ (t : Installation MAPPINGS), t.space.SameLive s' →
      (∀ k (hk : k < ids.length), t.output.getD k none = some ids[k]) →
      ∃ t', t.rollback ids.length = (.ok (), t') ∧ t'.space.SameLive s := by
  induction hchain with
  | nil =>
    intro t hsame _
    exact ⟨t, rfl, hsame⟩
  | @snoc ids s₁ s₂ m id hchain hmap ih =>
    intro t hsame houtput
    obtain ⟨space, hunmap, hspace⟩ := unmap_of_map hN hmap hsame
    have hlast : t.output.getD ids.length none = some id := by
      rw [houtput ids.length (by simp)]
      simp
    obtain ⟨t', ht', hsame'⟩ := ih ⟨space, t.output.set ids.length none⟩ hspace (by
      intro k hk
      have hother := houtput k (by rw [List.length_append]; omega)
      rw [List.getElem_append_left hk] at hother
      rw [← hother]
      simp only [List.getD_eq_getElem?_getD]
      rw [List.getElem?_set_ne (by omega)])
    refine ⟨t', ?_, hsame'⟩
    rw [List.length_append, List.length_singleton, rollback, hlast]
    simp only [hunmap]
    exact ht'

theorem rollback_edits (index : ℕ) (t : Installation MAPPINGS) :
    Edits t.space (t.rollback index).2.space := by
  induction index generalizing t with
  | zero => exact .refl
  | succ index ih =>
    rw [rollback]
    split
    · exact .refl
    · next id _ =>
      have hedit := Edit.unmap (s := t.space) id
      split
      · next heq =>
        rw [heq] at hedit
        exact .single hedit
      · next heq =>
        rw [heq] at hedit
        exact (Relation.ReflTransGen.single hedit).trans (ih ⟨_, t.output.set index none⟩)

theorem install_edits (mappings : List Mapping) (index : ℕ) (t : Installation MAPPINGS)
    (hmappings : ∀ m ∈ mappings, m.permissions ∈ PagePermissions.constants) :
    Edits t.space (t.install index mappings).2.space := by
  induction mappings generalizing index t with
  | nil => exact .refl
  | cons m rest ih =>
    obtain ⟨hm, hrest⟩ := List.forall_mem_cons.mp hmappings
    have hedit := Edit.map (s := t.space) hm
    rw [install]
    split
    · next id space heq =>
      rw [heq] at hedit
      exact (Relation.ReflTransGen.single hedit).trans
        (ih (index + 1) ⟨space, t.output.set index (some id)⟩ hrest)
    · next error space heq =>
      rw [heq] at hedit
      have hback := rollback_edits index ⟨space, t.output⟩
      split
      · next heq' =>
        rw [heq'] at hback
        exact (Relation.ReflTransGen.single hedit).trans hback
      · next heq' =>
        rw [heq'] at hback
        exact (Relation.ReflTransGen.single hedit).trans hback

/-- A failing installation leaves the mappings that were there before it. -/
theorem install_failed (hN : MAPPINGS ≤ 2 ^ 32) {s : AddressSpace MAPPINGS}
    (mappings : List Mapping) :
    ∀ (ids : List MappingId) (t : Installation MAPPINGS), Chain s ids t.space →
      (∀ k (hk : k < ids.length), t.output.getD k none = some ids[k]) →
      ids.length + mappings.length ≤ t.output.length →
      ∀ error : PeMappingError, (t.install ids.length mappings).1 = .error error →
        (t.install ids.length mappings).2.space.SameLive s := by
  induction mappings with
  | nil =>
    intro ids t _ _ _ error h
    cases h
  | cons m rest ih =>
    intro ids t hchain houtput hlength error h
    rw [List.length_cons] at hlength
    cases hmap : t.space.map m with
    | mk result space =>
      cases result with
      | ok id =>
        have hnext := ih (ids ++ [id]) ⟨space, t.output.set ids.length (some id)⟩
          (hchain.snoc hmap) (by
            intro k hk
            rw [List.length_append, List.length_singleton] at hk
            rw [List.getD_eq_getElem?_getD]
            by_cases hlast : k < ids.length
            · rw [List.getElem?_set_ne (by omega), List.getElem_append_left hlast,
                ← houtput k hlast, List.getD_eq_getElem?_getD]
            · obtain rfl : k = ids.length := by omega
              rw [List.getElem?_set_self (by omega)]
              simp) (by
            rw [List.length_append, List.length_singleton, List.length_set]
            omega) error
        rw [List.length_append, List.length_singleton] at hnext
        rw [install, hmap] at h ⊢
        exact hnext h
      | error e =>
        have hspace : space = t.space := by
          rcases t.space.map_cases m with ⟨_, heq⟩ | ⟨_, -, -, -, heq⟩
          · rw [heq] at hmap
            exact (congrArg Prod.snd hmap).symm
          · rw [heq] at hmap
            cases hmap
        subst hspace
        obtain ⟨t', hback, hsame⟩ := rollback_chain hN hchain t
          (fun i => ⟨rfl, fun _ => rfl⟩) houtput
        rw [install, hmap]
        dsimp only
        rw [hback]
        exact hsame

theorem permissions_of_prepareRegion {loadBase : UInt64} {user : Bool}
    {allocation : Option PeAllocatedRegion} {m : Mapping}
    (h : prepareRegion loadBase user allocation = .ok m) :
    m.permissions ∈ PagePermissions.constants := by
  obtain ⟨region, -, h⟩ := bind_eq_ok.mp h
  obtain ⟨_, -, h⟩ := bind_eq_ok.mp h
  obtain ⟨permissions, hpermissions, h⟩ := bind_eq_ok.mp h
  obtain ⟨_, -, h⟩ := bind_eq_ok.mp h
  rw [mapError_eq_ok] at h
  rw [Mapping.permissions_of_new h]
  unfold imagePermissions at hpermissions
  split at hpermissions <;> cases hpermissions <;> decide

/-- What `map_pe_image` does to the address space. -/
theorem mapPeImage_edits (t : Installation MAPPINGS) (loadBase : UInt64) (user : Bool)
    (allocations : List (Option PeAllocatedRegion)) (count : ℕ) :
    Edits t.space (t.mapPeImage loadBase user allocations count).2.space := by
  unfold mapPeImage
  split_ifs with hcount hlength
  · exact .refl
  · exact .refl
  · dsimp only
    split
    · exact .refl
    · next prepared hprepared =>
      obtain ⟨-, hconstants⟩ := of_mapM_eq_ok (fun _ _ => permissions_of_prepareRegion) hprepared
      have hedits := install_edits prepared 0
        { t with output := List.replicate t.output.length none } hconstants
      split
      · next heq =>
        rw [heq] at hedits
        exact hedits
      · next heq =>
        rw [heq] at hedits
        exact hedits

/-- A `map_pe_image` that fails leaves the live mappings as they were. -/
theorem mapPeImage_failed (hN : MAPPINGS ≤ 2 ^ 32) (t : Installation MAPPINGS) (loadBase : UInt64)
    (user : Bool) (allocations : List (Option PeAllocatedRegion)) (count : ℕ)
    {error : PeMappingError}
    (h : (t.mapPeImage loadBase user allocations count).1 = .error error) :
    (t.mapPeImage loadBase user allocations count).2.space.SameLive t.space := by
  have hrefl : t.space.SameLive t.space := fun i => ⟨rfl, fun _ => rfl⟩
  unfold mapPeImage at h ⊢
  split_ifs at h ⊢ with hcount hlength
  · exact hrefl
  · exact hrefl
  · dsimp only at h ⊢
    split at h
    · exact hrefl
    · next prepared hprepared =>
      obtain ⟨hprepared', -⟩ := of_mapM_eq_ok (P := fun _ => True) (fun _ _ _ => trivial) hprepared
      have hfailed := install_failed hN prepared []
        { t with output := List.replicate t.output.length none } .nil (by simp) (by
          rw [List.length_nil, hprepared', List.length_take, List.length_replicate]
          omega)
      split at h
      · cases h
      · next e t' heq =>
        have hsame := hfailed e (by rw [List.length_nil, heq])
        rwa [List.length_nil, heq] at hsame

end Installation

/-! ## Service spaces -/

/-- `ServiceSpaceError` (`service_space.rs`, lines 11–22), as far as `build` returns it. -/
inductive ServiceSpaceError
  | wrongArtifact
  | invalidKernelMapping
  | invalidStack
  | overflow
  | address (error : AddressSpaceError)
  | image (error : PeMappingError)
deriving DecidableEq

/-- `ServiceAddressSpace` (lines 27–32). -/
structure ServiceAddressSpace (MAPPINGS : ℕ) where
  space : AddressSpace MAPPINGS
  entry : UInt64
  stackTop : UInt64
  lowerGuard : UInt64

/-- A mapping with the permissions of one of the constants. -/
abbrev ConstantMapping : Type := {m : Mapping // m.permissions ∈ PagePermissions.constants}

namespace ServiceAddressSpace

variable {MAPPINGS : ℕ}

/-- The loop over the kernel mappings (lines 166–172). -/
def mapKernel (space : AddressSpace MAPPINGS) :
    List ConstantMapping → Except ServiceSpaceError (AddressSpace MAPPINGS)
  | [] => .ok space
  | mapping :: rest =>
    if mapping.val.permissions.user ∨ mapping.val.virtualStart.address < 0xffff800000000000 then
      .error .invalidKernelMapping
    else
      match space.map mapping.val with
      | (.error error, _) => .error (.address error)
      | (.ok _, space) => mapKernel space rest

/-- A result of a function that changes an address space, followed by `?`. -/
def followed {α ε : Type} (error : ε → ServiceSpaceError)
    (result : Except ε α × AddressSpace MAPPINGS) :
    Except ServiceSpaceError (AddressSpace MAPPINGS) :=
  match result with
  | (.ok _, space) => .ok space
  | (.error e, _) => .error (error e)

/-- `ServiceAddressSpace::build` (lines 132–206), of which `new` and `from_handoff` return the
    result. Of the image it reads the entry point. -/
def build (MAPPINGS : ℕ) (image : PeImage) (loadBase : UInt64)
    (allocations : List (Option PeAllocatedRegion)) (allocationCount : ℕ)
    (kernelMappings : List ConstantMapping) (stackBase : UInt64) (stackPhysical : PhysAddr)
    (stackPages : UInt64) : Except ServiceSpaceError (ServiceAddressSpace MAPPINGS) := do
  refuseIf (stackPages = 0 ∨ stackBase < 4096 ∨ stackBase % 4096 ≠ 0) .invalidStack
  let stackBytes ← okOr (checkedMul64 stackPages 4096) .overflow
  let stackTop ← okOr (checkedAdd64 stackBase stackBytes) .overflow
  refuseIf (stackTop ≥ 0x0000800000000000) .invalidStack
  let lowerGuard := stackBase - 4096
  let entry ← okOr (checkedAdd64 loadBase image.entryRva.toUInt64) .overflow
  refuseIf (entry = 0 ∨ entry ≥ 0x0000800000000000) .wrongArtifact
  let space ← mapKernel (AddressSpace.new MAPPINGS) kernelMappings
  let installed := (Installation.mk space (List.replicate (Pe.maxPeSections + 1) none)).mapPeImage
    loadBase true allocations allocationCount
  let space ← followed .image (installed.1, installed.2.space)
  let virtualStart ← (VirtAddr.new stackBase).mapError fun _ => .invalidStack
  let stack ← (Mapping.new virtualStart stackPhysical stackPages .userReadWrite).mapError .address
  let space ← followed .address (space.map stack)
  refuseIf (space.mappings.any (fun mapping =>
    lowerGuard ≥ mapping.virtualStart.address && lowerGuard < mapping.virtualEnd) = true)
    .invalidStack
  return ⟨space, entry, stackTop, lowerGuard⟩

open AddressSpace

theorem mapKernel_edits (mappings : List ConstantMapping) {s s' : AddressSpace MAPPINGS}
    (h : mapKernel s mappings = .ok s') : Edits s s' := by
  induction mappings generalizing s with
  | nil =>
    obtain rfl := Except.ok.inj h
    exact .refl
  | cons m rest ih =>
    rw [mapKernel] at h
    split_ifs at h with hkernel
    have hedit := Edit.map (s := s) m.property
    split at h
    · cases h
    · next heq =>
      rw [heq] at hedit
      exact (Relation.ReflTransGen.single hedit).trans (ih h)

theorem followed_eq_ok {α ε : Type} {error : ε → ServiceSpaceError}
    {result : Except ε α × AddressSpace MAPPINGS} {s : AddressSpace MAPPINGS}
    (h : followed error result = .ok s) : result.2 = s := by
  unfold followed at h
  split at h
  · exact Except.ok.inj h
  · cases h

/-- A built space is the result of edits, and no mapping of it holds the guard page. -/
theorem build_spec {image : PeImage} {loadBase : UInt64}
    {allocations : List (Option PeAllocatedRegion)} {allocationCount : ℕ}
    {kernelMappings : List ConstantMapping} {stackBase : UInt64} {stackPhysical : PhysAddr}
    {stackPages : UInt64} {built : ServiceAddressSpace MAPPINGS}
    (h : build MAPPINGS image loadBase allocations allocationCount kernelMappings stackBase
      stackPhysical stackPages = .ok built) :
    Edits (AddressSpace.new MAPPINGS) built.space ∧
      built.lowerGuard.toNat + 4096 = stackBase.toNat ∧ stackBase.toNat % 4096 = 0 ∧
      ∀ m ∈ built.space.mappings, m.virtualEnd.toNat ≤ built.lowerGuard.toNat ∨
        built.lowerGuard.toNat + 4096 ≤ m.virtualStart.address.toNat := by
  obtain ⟨_, hstack, h⟩ := bind_eq_ok.mp h
  obtain ⟨_, -, h⟩ := bind_eq_ok.mp h
  obtain ⟨_, -, h⟩ := bind_eq_ok.mp h
  obtain ⟨_, -, h⟩ := bind_eq_ok.mp h
  obtain ⟨_, -, h⟩ := bind_eq_ok.mp h
  obtain ⟨_, -, h⟩ := bind_eq_ok.mp h
  obtain ⟨kernel, hkernel, h⟩ := bind_eq_ok.mp h
  obtain ⟨loaded, hloaded, h⟩ := bind_eq_ok.mp h
  obtain ⟨_, -, h⟩ := bind_eq_ok.mp h
  obtain ⟨stack, hmapping, h⟩ := bind_eq_ok.mp h
  obtain ⟨space, hspace, h⟩ := bind_eq_ok.mp h
  obtain ⟨_, hguard, h⟩ := bind_eq_ok.mp h
  obtain rfl := Except.ok.inj h
  have hstack := refuseIf_eq_ok.mp hstack
  simp only [not_or, UInt64.not_lt, UInt64.le_iff_toNat_le, ne_eq, not_not] at hstack
  obtain ⟨-, hmin, hmod⟩ := hstack
  have hmin : 4096 ≤ stackBase.toNat := hmin
  have hmod : stackBase.toNat % 4096 = 0 := congrArg UInt64.toNat hmod
  have hlower : (stackBase - 4096).toNat = stackBase.toNat - 4096 :=
    UInt64.toNat_sub_of_le _ _ (UInt64.le_iff_toNat_le.mpr hmin)
  refine ⟨?_, by show (stackBase - 4096).toNat + 4096 = _; omega, hmod, ?_⟩
  · -- the kernel mappings, the image and the stack, one after the other
    have hstackMapping : stack.permissions ∈ PagePermissions.constants := by
      rw [mapError_eq_ok] at hmapping
      rw [Mapping.permissions_of_new hmapping]
      decide
    have himage := Installation.mapPeImage_edits
      ⟨kernel, List.replicate (Pe.maxPeSections + 1) none⟩ loadBase true allocations allocationCount
    have hfinal := Edit.map (s := loaded) hstackMapping
    have hloaded := followed_eq_ok hloaded
    dsimp only at hloaded
    rw [hloaded] at himage
    rw [followed_eq_ok hspace] at hfinal
    exact ((mapKernel_edits kernelMappings hkernel).trans himage).tail hfinal
  · intro m hm
    have hguard := refuseIf_eq_ok.mp hguard
    rw [List.any_eq_true] at hguard
    have hnot : ¬ ((stackBase - 4096) ≥ m.virtualStart.address ∧
        (stackBase - 4096) < m.virtualEnd) := by
      intro hboth
      refine hguard ⟨m, hm, ?_⟩
      rw [Bool.and_eq_true, decide_eq_true_eq, decide_eq_true_eq]
      exact hboth
    rw [ge_iff_le, UInt64.le_iff_toNat_le, UInt64.lt_iff_toNat_lt, hlower] at hnot
    have haligned := m.virtualStart.aligned
    have hend := m.toNat_virtualEnd
    unfold pageSize at haligned
    show m.virtualEnd.toNat ≤ (stackBase - 4096).toNat ∨
      (stackBase - 4096).toNat + 4096 ≤ m.virtualStart.address.toNat
    omega

end ServiceAddressSpace

/-! ## Runs -/

namespace AddressSpace

variable {MAPPINGS : ℕ}

/-- The operations on an address space. -/
inductive Op
  | map (mapping : ConstantMapping)
  | unmap (id : MappingId)
  | mapPeImage (loadBase : UInt64) (user : Bool) (allocations : List (Option PeAllocatedRegion))
      (count : ℕ) (output : List (Option MappingId))

/-- The address space after an operation. -/
def step (s : AddressSpace MAPPINGS) : Op → AddressSpace MAPPINGS
  | .map mapping => (s.map mapping.val).2
  | .unmap id => (s.unmap id).2
  | .mapPeImage loadBase user allocations count output =>
    (Installation.mapPeImage ⟨s, output⟩ loadBase user allocations count).2.space

theorem step_edits (s : AddressSpace MAPPINGS) (op : Op) : Edits s (s.step op) := by
  cases op with
  | map mapping => exact .single (.map mapping.property)
  | unmap id => exact .single (.unmap id)
  | mapPeImage loadBase user allocations count output =>
    exact Installation.mapPeImage_edits ⟨s, output⟩ loadBase user allocations count

theorem run_edits (s : AddressSpace MAPPINGS) (ops : List Op) : Edits s (run step s ops) := by
  induction ops generalizing s with
  | nil => exact .refl
  | cons op ops ih => exact (s.step_edits op).trans (ih (s.step op))

/-- What holds of the live mappings of an address space: they have no virtual and no physical
    page in common, none is writable and executable, and those of users lie in the low half. -/
def Safe (s : AddressSpace MAPPINGS) : Prop :=
  (∀ i j m m', i ≠ j → s.LiveAt i m → s.LiveAt j m' → Apart m m') ∧
    ∀ i m, s.LiveAt i m → ¬ (m.permissions.writable = true ∧ m.permissions.executable = true) ∧
      (m.permissions.user = true → m.virtualEnd.toNat ≤ 2 ^ 47)

theorem Inv.safe {s : AddressSpace MAPPINGS} (h : s.Inv) : s.Safe :=
  ⟨h.apart, fun i m hm => ⟨PagePermissions.not_writable_executable (h.constant i m hm),
    Mapping.user_low⟩⟩

/-- **Main theorem.** Along every run the live mappings are safe, and an id that was valid and
    is not any more is never valid again. A failing `map_pe_image` leaves the live mappings as
    they were. A built service space is safe and leaves the page below its stack unmapped. -/
theorem address_space_safety (hN : MAPPINGS ≤ 2 ^ 32) :
    (∀ ops, (run step (new MAPPINGS) ops).Safe) ∧
    (∀ (ops ops' ops'' : List Op) (id : MappingId) (m : Mapping),
      (run step (new MAPPINGS) ops).get id = .ok m →
      (∀ m', (run step (new MAPPINGS) (ops ++ ops')).get id ≠ .ok m') →
      ∀ m', (run step (new MAPPINGS) (ops ++ ops' ++ ops'')).get id ≠ .ok m') ∧
    (∀ (s : AddressSpace MAPPINGS) (output : List (Option MappingId)) (loadBase : UInt64)
      (user : Bool) (allocations : List (Option PeAllocatedRegion)) (count : ℕ)
      (error : PeMappingError),
      (Installation.mapPeImage ⟨s, output⟩ loadBase user allocations count).1 = .error error →
      (Installation.mapPeImage ⟨s, output⟩ loadBase user allocations count).2.space.SameLive s) ∧
    ∀ (image : PeImage) (loadBase : UInt64) (allocations : List (Option PeAllocatedRegion))
      (allocationCount : ℕ) (kernelMappings : List ConstantMapping) (stackBase : UInt64)
      (stackPhysical : PhysAddr) (stackPages : UInt64) (built : ServiceAddressSpace MAPPINGS),
      ServiceAddressSpace.build MAPPINGS image loadBase allocations allocationCount kernelMappings
        stackBase stackPhysical stackPages = .ok built →
      built.space.Safe ∧ built.lowerGuard.toNat + 4096 = stackBase.toNat ∧
        ∀ m ∈ built.space.mappings, m.virtualEnd.toNat ≤ built.lowerGuard.toNat ∨
          stackBase.toNat ≤ m.virtualStart.address.toNat := by
  refine ⟨?_, ?_, ?_, ?_⟩
  · intro ops
    exact (Edits.inv (run_edits _ ops) (new_inv MAPPINGS)).safe
  · intro ops ops' ops'' id m hvalid hremoved m' hagain
    rw [run_append] at hremoved
    rw [run_append, run_append] at hagain
    have hinv := Edits.inv (run_edits _ ops) (new_inv MAPPINGS)
    have hinv' := Edits.inv (run_edits _ ops') hinv
    have hpast : Cell.Past (run step (run step (new MAPPINGS) ops) ops').slots id.slot
        id.generation := by
      rcases Edits.holds_or_past (run_edits _ ops') hinv (get_eq_ok.mp hvalid) with h | h
      · exact absurd (get_eq_ok.mpr h) (hremoved m)
      · exact h
    have hpast' := Edits.past (run_edits _ ops'') hinv' hpast
    exact Cell.not_holds_of_past (Edits.inv (run_edits _ ops'') hinv').sound hpast' m'
      (get_eq_ok.mp hagain)
  · intro s output loadBase user allocations count error h
    exact Installation.mapPeImage_failed hN ⟨s, output⟩ loadBase user allocations count h
  · intro image loadBase allocations allocationCount kernelMappings stackBase stackPhysical
      stackPages built h
    obtain ⟨hedits, hguard, -, hfree⟩ := ServiceAddressSpace.build_spec h
    refine ⟨(Edits.inv hedits (new_inv MAPPINGS)).safe, hguard, ?_⟩
    rwa [hguard] at hfree

theorem firstPage_aligned : (0x1000 : UInt64).toNat % Kernel.pageSize = 0 := by decide

theorem secondPage_aligned : (0x2000 : UInt64).toNat % Kernel.pageSize = 0 := by decide

/-- A region of one page for users to read. -/
def readRegion (virtualAddress : UInt32) : Option PeAllocatedRegion :=
  some ⟨⟨virtualAddress, 1, true, false, false⟩, ⟨0x1000, firstPage_aligned⟩⟩

/-- An image without sections. -/
def smallImage : PeImage := ⟨[], 0, 0, 0x1000, 0x200, 0, 0, 0, 0⟩

/-- In an address space of the size that the kernel uses, a page is mapped, unmapped and mapped
    again; an image whose second region has the frame of its first one is rolled back; and a
    service space of an image and a stack is built. -/
theorem address_space_safety_forty :
    (∃ (m : ConstantMapping) (id id' : MappingId), ((new 40).map m.val).1 = .ok id ∧
      ((run step (new 40) [.map m]).unmap id).1.toOption = some m.val ∧
      ((run step (new 40) [.map m, .unmap id]).map m.val).1 = .ok id' ∧
      (run step (new 40) [.map m, .unmap id, .map m]).Safe ∧
      ∀ m', (run step (new 40) [.map m, .unmap id, .map m]).get id ≠ .ok m') ∧
    (∃ s' : Installation 40, Installation.mapPeImage ⟨new 40, [none, none]⟩ 0x400000 true
        [readRegion 0, readRegion 0x1000] 2 = (.error (.address .physicalAlias), s') ∧
      (s'.space.slots 0).generation = 2 ∧ s'.space.SameLive (new 40)) ∧
    ∃ built : ServiceAddressSpace 40, ServiceAddressSpace.build 40 smallImage 0x400000
        [readRegion 0] 1 [] 0x800000 ⟨0x2000, secondPage_aligned⟩ 1 = .ok built ∧
      built.space.Safe ∧ built.lowerGuard.toNat + 4096 = 0x800000 := by
  obtain ⟨hsafe, hstale, hrollback, hbuild⟩ := @address_space_safety 40 (by decide)
  refine ⟨?_, ?_, ?_⟩
  · let m : ConstantMapping := ⟨⟨⟨0x1000, by decide, by decide⟩, ⟨0x1000, firstPage_aligned⟩, 1,
      .userRead, by decide⟩, by decide⟩
    refine ⟨m, ⟨0, 1⟩, ⟨0, 2⟩, by decide +kernel, rfl, by decide +kernel, hsafe _, ?_⟩
    refine hstale [.map m] [.unmap ⟨0, 1⟩] [.map m] ⟨0, 1⟩ m.val rfl fun m' h => ?_
    have hgone : ((run step (new 40) [.map m, .unmap ⟨0, 1⟩]).get ⟨0, 1⟩).toOption.isSome = false := by
      decide +kernel
    have hget : (run step (new 40) [.map m, .unmap ⟨0, 1⟩]).get ⟨0, 1⟩ = .ok m' := h
    rw [hget] at hgone
    cases hgone
  · have herror : (Installation.mapPeImage ⟨new 40, [none, none]⟩ 0x400000 true
        [readRegion 0, readRegion 0x1000] 2).1 = .error (.address .physicalAlias) := by
      decide +kernel
    exact ⟨_, Prod.ext herror rfl, by decide +kernel, hrollback _ _ _ _ _ _ _ herror⟩
  · have hok : (ServiceAddressSpace.build 40 smallImage 0x400000 [readRegion 0] 1 [] 0x800000
        ⟨0x2000, secondPage_aligned⟩ 1).toOption.isSome = true := by decide +kernel
    cases h : ServiceAddressSpace.build 40 smallImage 0x400000 [readRegion 0] 1 [] 0x800000
        ⟨0x2000, secondPage_aligned⟩ 1 with
    | error error =>
      rw [h] at hok
      cases hok
    | ok built =>
      obtain ⟨hspace, hguard, -⟩ := hbuild _ _ _ _ _ _ _ _ built h
      exact ⟨built, rfl, hspace, hguard⟩

end AddressSpace

end Mrml.Arch
