import Mrml.Common.Int
import Mrml.Common.Packed
import Mrml.Common.Run
import Mrml.Kernel.Capability
import Mrml.Kernel.Memory

/-!
# Guest memory

Model of `GuestMemory` (`crates/mrml-kernel/src/vm.rs`, lines 6–34 and
195–373): the table of guest-physical mappings of a virtual machine. The live
mappings are the packed prefix of an array, sorted by guest address.

Results:
* `step_inv`: every call keeps the table packed, sorted and free of overlaps.
* `translate_eq_ok_iff`: what `translate` accepts and returns.
* `guest_memory_isolation`: these hold over every run, mapping ids are never
  reissued and a failed call changes nothing.
-/

namespace Mrml.Vm

open Mrml.Kernel

/-- `VmError` (lines 6–34). -/
inductive VmError
  | emptyRegion
  | unaligned
  | overflow
  | regionTableFull
  | guestOverlap
  | hostAlias
  | writableExecutable
  | unmapped
  | permissionDenied
  | malformedHypercall
  | unsupportedHypercall
  | replay
  | sequenceExhausted
  | capability (error : CapabilityError)
  | wrongObject
  | vmTableFull
  | staleVm
  | invalidVmState
  | exitBudgetExceeded
  | invalidIo
  | ioDenied
  | ioPolicyFull
  | unhandledExit
  | interruptDenied
  | staleMapping
deriving DecidableEq

/-- `MAX_GUEST_REGIONS` (line 4). -/
def maxGuestRegions : ℕ := 64

/-- `GuestAccess` (lines 195–200). -/
inductive GuestAccess
  | read
  | write
  | execute
deriving DecidableEq

/-- `GuestRegion` (lines 202–209) with the checks of its constructor. Its fields
    are private and only `protect` changes a permission afterwards. -/
@[ext] structure GuestRegion where
  guestStart : UInt64
  hostStart : PhysAddr
  pages : UInt64
  writable : Bool
  executable : Bool
  pages_ne : pages ≠ 0
  aligned : guestStart.toNat % pageSize = 0
  not_wx : (writable && executable) = false
  guest_lt : guestStart.toNat + pages.toNat * pageSize < 2 ^ 64
  host_lt : hostStart.address.toNat + pages.toNat * pageSize < 2 ^ 64

instance : DecidableEq GuestRegion := fun _ _ => decidable_of_iff _ GuestRegion.ext_iff.symm

namespace GuestRegion

theorem aligned_of_not_unaligned {guestStart : UInt64}
    (h : ¬¬guestStart.toNat % pageSize = 0) : guestStart.toNat % pageSize = 0 := not_not.mp h

/-- `GuestRegion::new` (lines 227–257). -/
def new (guestStart : UInt64) (hostStart : PhysAddr) (pages : UInt64)
    (writable executable : Bool) : Except VmError GuestRegion :=
  if hpages : pages = 0 then .error .emptyRegion
  else if haligned : ¬ guestStart.toNat % pageSize = 0 then .error .unaligned
  else if hwx : ¬ (writable && executable) = false then .error .writableExecutable
  else if pages.toNat * pageSize ≥ 2 ^ 64 then .error .overflow
  else if hguest : ¬ guestStart.toNat + pages.toNat * pageSize < 2 ^ 64 then .error .overflow
  else if hhost : ¬ hostStart.address.toNat + pages.toNat * pageSize < 2 ^ 64 then
    .error .overflow
  else .ok ⟨guestStart, hostStart, pages, writable, executable, hpages, aligned_of_not_unaligned haligned,
    not_not.mp hwx, not_not.mp hguest, not_not.mp hhost⟩

/-- `GuestRegion::length` (lines 259–261). -/
def length (region : GuestRegion) : UInt64 := region.pages * 4096

/-- The two writes of `protect` (lines 340–341). -/
def withPermissions (region : GuestRegion) (writable executable : Bool)
    (h : (writable && executable) = false) : GuestRegion :=
  { region with writable, executable, not_wx := h }

/-- The access that a region permits. -/
def permits (region : GuestRegion) : GuestAccess → Bool
  | .read => true
  | .write => region.writable
  | .execute => region.executable

/-- The end of the guest range. -/
def guestEnd (region : GuestRegion) : ℕ := region.guestStart.toNat + region.length.toNat

/-- The end of the host range. -/
def hostEnd (region : GuestRegion) : ℕ := region.hostStart.address.toNat + region.length.toNat

/-- The whole guest range lies in the region. -/
def Covers (region : GuestRegion) (guest length : UInt64) : Prop :=
  region.guestStart.toNat ≤ guest.toNat ∧ guest.toNat + length.toNat ≤ region.guestEnd
deriving Decidable

theorem length_toNat (region : GuestRegion) :
    region.length.toNat = region.pages.toNat * pageSize := by
  have h := region.guest_lt
  have hpage : (4096 : UInt64).toNat = pageSize := rfl
  rw [length, UInt64.toNat_mul, hpage, Nat.mod_eq_of_lt]
  omega

theorem length_pos (region : GuestRegion) : 0 < region.length.toNat := by
  have hpages : 0 < region.pages.toNat := by
    rw [Nat.pos_iff_ne_zero]
    exact fun h => region.pages_ne (UInt64.toNat_inj.mp (by rw [h]; rfl))
  rw [length_toNat]
  exact Nat.mul_pos hpages (by decide)

/-- `region.guest_start + region.length()` does not wrap. -/
theorem guestEnd_eq (region : GuestRegion) :
    (region.guestStart + region.length).toNat = region.guestEnd := by
  have h := region.guest_lt
  rw [← length_toNat] at h
  rw [UInt64.toNat_add, Nat.mod_eq_of_lt h, guestEnd]

theorem hostEnd_eq (region : GuestRegion) :
    (region.hostStart.address + region.length).toNat = region.hostEnd := by
  have h := region.host_lt
  rw [← length_toNat] at h
  rw [UInt64.toNat_add, Nat.mod_eq_of_lt h, hostEnd]

theorem hostEnd_lt (region : GuestRegion) : region.hostEnd < 2 ^ 64 := by
  rw [hostEnd, length_toNat]
  exact region.host_lt

end GuestRegion

/-- `GuestMappingId` (line 212). -/
structure GuestMappingId where
  token : UInt64
deriving DecidableEq

/-- `GuestMapping` (lines 220–223). -/
structure GuestMapping where
  id : GuestMappingId
  region : GuestRegion
deriving DecidableEq

/-- `overlaps` (lines 702–704). -/
def overlaps (aStart aEnd bStart bEnd : UInt64) : Bool := aStart < bEnd && bStart < aEnd

/-- `GuestMemory<N>` (lines 264–268). -/
structure GuestMemory (N : ℕ) where
  mappings : List (Option GuestMapping)
  count : ℕ
  nextId : UInt64

namespace GuestMemory

variable {N : ℕ}

/-- `GuestMemory::new` (lines 271–277). -/
def new (N : ℕ) : GuestMemory N := ⟨List.replicate N none, 0, 1⟩

/-- `self.mappings[..self.count].iter().flatten()`. -/
def live (m : GuestMemory N) : List GuestMapping := (m.mappings.take m.count).reduceOption

/-- The error of the overlap loop of `map` (lines 285–305) for one mapping. -/
def conflict (region existing : GuestRegion) : Option VmError :=
  if overlaps region.guestStart (region.guestStart + region.length) existing.guestStart
      (existing.guestStart + existing.length) then some .guestOverlap
  else if overlaps region.hostStart.address (region.hostStart.address + region.length)
      existing.hostStart.address (existing.hostStart.address + existing.length) then
    some .hostAlias
  else none

/-- `GuestMemory::map` (lines 279–319). `partition_point` on a partitioned slice
    is the length of the prefix that satisfies the predicate. -/
def map (m : GuestMemory N) (region : GuestRegion) :
    Except VmError GuestMappingId × GuestMemory N :=
  if N > maxGuestRegions ∨ m.count = N then (.error .regionTableFull, m)
  else
    match m.live.findSome? fun existing => conflict region existing.region with
    | some error => (.error error, m)
    | none =>
      let index := ((m.mappings.take m.count).takeWhile fun entry =>
        entry.any fun value => decide (value.region.guestStart < region.guestStart)).length
      let id : GuestMappingId := ⟨m.nextId⟩
      match checkedAdd64 m.nextId 1 with
      | none => (.error .sequenceExhausted, m)
      | some nextId =>
        (.ok id,
          { mappings := (copyWithin m.mappings index m.count (index + 1)).set index
              (some ⟨id, region⟩)
            count := m.count + 1
            nextId })

/-- The position of a mapping in the prefix (lines 322–325 and 336–339). -/
def position (m : GuestMemory N) (id : GuestMappingId) : Option ℕ :=
  (m.mappings.take m.count).findIdx? fun mapping => mapping.any fun mapping => mapping.id == id

/-- The mapping in cell `i`. -/
def mappingAt (m : GuestMemory N) (i : ℕ) : Option GuestMapping := (m.mappings[i]?).join

/-- `GuestMemory::unmap` (lines 321–331). -/
def unmap (m : GuestMemory N) (id : GuestMappingId) :
    Except VmError GuestRegion × GuestMemory N :=
  match m.position id with
  | none => (.error .staleMapping, m)
  | some index =>
    match m.mappingAt index with
    | none => (.error .staleMapping, m)
    | some mapping =>
      (.ok mapping.region,
        { m with
          mappings := (copyWithin m.mappings (index + 1) m.count index).set (m.count - 1) none
          count := m.count - 1 })

/-- `GuestMemory::protect` (lines 333–349). -/
def protect (m : GuestMemory N) (id : GuestMappingId) (writable executable : Bool) :
    Except VmError Unit × GuestMemory N :=
  if h : (writable && executable) = false then
    match m.position id with
    | none => (.error .staleMapping, m)
    | some index =>
      match m.mappingAt index with
      | none => (.error .staleMapping, m)
      | some mapping =>
        let region := mapping.region.withPermissions writable executable h
        (.ok (), { m with mappings := m.mappings.set index (some { mapping with region }) })
  else (.error .writableExecutable, m)

/-- `GuestMemory::translate` (lines 351–373). -/
def translate (m : GuestMemory N) (guest length : UInt64) (access : GuestAccess) :
    Except VmError UInt64 :=
  if length = 0 then .error .unmapped
  else
    match checkedAdd64 guest length with
    | none => .error .overflow
    | some last =>
      match (m.live.map GuestMapping.region).find? fun region =>
          decide (guest ≥ region.guestStart) &&
            decide (last ≤ region.guestStart + region.length) with
      | none => .error .unmapped
      | some region =>
        if (access = .write ∧ region.writable = false) ∨
            (access = .execute ∧ region.executable = false) then .error .permissionDenied
        else
          match checkedAdd64 region.hostStart.address (guest - region.guestStart) with
          | none => .error .overflow
          | some host => .ok host

/-! ## The invariant -/

/-- The host ranges of two regions have no byte in common. -/
def HostDisjoint (a b : GuestRegion) : Prop :=
  a.hostEnd ≤ b.hostStart.address.toNat ∨ b.hostEnd ≤ a.hostStart.address.toNat

/-- The table is packed and sorted, its ranges are disjoint and its ids are old. -/
structure Inv (m : GuestMemory N) : Prop where
  packed : Packed m.mappings m.count m.live
  size : m.mappings.length = N
  sorted : m.live.Pairwise fun a b => a.region.guestEnd ≤ b.region.guestStart.toNat
  host : m.live.Pairwise fun a b => HostDisjoint a.region b.region
  ids : m.live.Pairwise fun a b => a.id ≠ b.id
  fresh : ∀ g ∈ m.live, g.id.token < m.nextId

theorem live_of_packed {m : GuestMemory N} {l : List GuestMapping}
    (h : Packed m.mappings m.count l) : m.live = l := h.reduceOption_take

theorem new_inv (N : ℕ) : (new N).Inv := by
  have hlive : (new N).live = [] := live_of_packed (m := new N) (Packed.nil N)
  constructor
  · rw [hlive]
    exact Packed.nil N
  · simp [new]
  · simp [hlive]
  · simp [hlive]
  · simp [hlive]
  · simp [hlive]

theorem overlaps_eq_false {a b c d : UInt64} :
    overlaps a b c d = false ↔ d.toNat ≤ a.toNat ∨ b.toNat ≤ c.toNat := by
  simp only [overlaps, Bool.and_eq_false_iff, decide_eq_false_iff_not, UInt64.lt_iff_toNat_lt]
  omega

/-- The loop of `map` passes a mapping exactly if it overlaps in neither space. -/
theorem conflict_eq_none {region existing : GuestRegion} :
    conflict region existing = none ↔
      (existing.guestEnd ≤ region.guestStart.toNat ∨
        region.guestEnd ≤ existing.guestStart.toNat) ∧ HostDisjoint existing region := by
  unfold conflict HostDisjoint
  rw [← existing.guestEnd_eq, ← region.guestEnd_eq, ← existing.hostEnd_eq, ← region.hostEnd_eq,
    ← overlaps_eq_false, ← overlaps_eq_false]
  split_ifs with h h'
  · simp [h]
  · simp [h']
  · simp [h, h']

/-! ## Sorted insertion -/

/-- The mappings below the new one. -/
def below (region : GuestRegion) (g : GuestMapping) : Bool :=
  decide (g.region.guestStart < region.guestStart)

theorem takeWhile_map_some (p : GuestMapping → Bool) (l : List GuestMapping) :
    (l.map some).takeWhile (fun entry => entry.any p) = (l.takeWhile p).map some := by
  induction l with
  | nil => rfl
  | cons g l ih =>
    cases hp : p g <;> simp [hp, ih]

/-- In a sorted table everything from the insertion point on is above. -/
theorem not_below_of_mem_dropWhile {region : GuestRegion} {l : List GuestMapping}
    (hsorted : l.Pairwise fun a b => a.region.guestEnd ≤ b.region.guestStart.toNat)
    {g : GuestMapping} (hg : g ∈ l.dropWhile (below region)) :
    region.guestStart.toNat ≤ g.region.guestStart.toNat := by
  induction l with
  | nil => cases hg
  | cons a l ih =>
    obtain ⟨ha, hl⟩ := List.pairwise_cons.mp hsorted
    by_cases hp : below region a = true
    · rw [List.dropWhile_cons_of_pos hp] at hg
      exact ih hl hg
    · rw [List.dropWhile_cons_of_neg hp] at hg
      have hle : region.guestStart.toNat ≤ a.region.guestStart.toNat := by
        simpa [below, UInt64.le_iff_toNat_le] using hp
      rcases List.mem_cons.mp hg with rfl | hg
      · exact hle
      · have hnext := ha g hg
        unfold GuestRegion.guestEnd at hnext
        omega

theorem below_of_mem_takeWhile {region : GuestRegion} {l : List GuestMapping} {g : GuestMapping}
    (hg : g ∈ l.takeWhile (below region)) :
    g.region.guestStart.toNat < region.guestStart.toNat := by
  have := List.mem_takeWhile_imp hg
  simpa [below, UInt64.lt_iff_toNat_lt] using this

/-- A new mapping that conflicts with none keeps the order when it goes to the
    insertion point. -/
theorem insert_sorted {region : GuestRegion} {l : List GuestMapping} {id : GuestMappingId}
    (hsorted : l.Pairwise fun a b => a.region.guestEnd ≤ b.region.guestStart.toNat)
    (hfree : ∀ g ∈ l, g.region.guestEnd ≤ region.guestStart.toNat ∨
      region.guestEnd ≤ g.region.guestStart.toNat) :
    (l.takeWhile (below region) ++ ⟨id, region⟩ :: l.dropWhile (below region)).Pairwise
      fun a b => a.region.guestEnd ≤ b.region.guestStart.toNat := by
  have hparts := hsorted
  rw [← List.takeWhile_append_dropWhile (p := below region) (l := l), List.pairwise_append] at hparts
  have hlow : ∀ g ∈ l.takeWhile (below region), g.region.guestEnd ≤ region.guestStart.toNat := by
    intro g hg
    have hlt := below_of_mem_takeWhile hg
    have hpos := region.length_pos
    rcases hfree g ((List.takeWhile_prefix _).subset hg) with h | h
    · exact h
    · unfold GuestRegion.guestEnd at h
      omega
  have hhigh : ∀ g ∈ l.dropWhile (below region), region.guestEnd ≤ g.region.guestStart.toNat := by
    intro g hg
    have hle := not_below_of_mem_dropWhile hsorted hg
    have hpos := g.region.length_pos
    rcases hfree g ((List.dropWhile_suffix _).subset hg) with h | h
    · unfold GuestRegion.guestEnd at h
      omega
    · exact h
  refine List.pairwise_append.mpr ⟨hparts.1, List.pairwise_cons.mpr ⟨hhigh, hparts.2.1⟩, ?_⟩
  intro a ha b hb
  rcases List.mem_cons.mp hb with rfl | hb
  · exact hlow a ha
  · exact hparts.2.2 a ha b hb

/-- A symmetric relation is kept when an element that is related to all goes anywhere. -/
theorem insert_pairwise {R : GuestMapping → GuestMapping → Prop} (hsymm : ∀ a b, R a b → R b a)
    {l : List GuestMapping} (hl : l.Pairwise R) {x : GuestMapping} (hx : ∀ g ∈ l, R g x)
    (p : GuestMapping → Bool) : (l.takeWhile p ++ x :: l.dropWhile p).Pairwise R := by
  have hperm : (x :: l).Perm (l.takeWhile p ++ x :: l.dropWhile p) := by
    have h : (l.takeWhile p ++ x :: l.dropWhile p).Perm (x :: (l.takeWhile p ++ l.dropWhile p)) :=
      List.perm_middle
    rw [List.takeWhile_append_dropWhile] at h
    exact h.symm
  refine (hperm.pairwise_iff fun {a b} => hsymm a b).mp (List.pairwise_cons.mpr ⟨?_, hl⟩)
  exact fun g hg => hsymm g x (hx g hg)

/-! ## Each call -/

/-- `map` fails without a change, or inserts a conflict-free mapping under the
    next id. -/
theorem map_cases {m : GuestMemory N} (hm : m.Inv) (region : GuestRegion) :
    (∃ error, m.map region = (.error error, m)) ∨
    ∃ m', m.map region = (.ok ⟨m.nextId⟩, m') ∧ m'.nextId.toNat = m.nextId.toNat + 1 ∧
      m'.mappings.length = N ∧ (∀ g ∈ m.live, conflict region g.region = none) ∧
      Packed m'.mappings m'.count (m.live.takeWhile (below region) ++
        ⟨⟨m.nextId⟩, region⟩ :: m.live.dropWhile (below region)) := by
  unfold map
  split
  · exact .inl ⟨_, rfl⟩
  · next hfull =>
    split
    · exact .inl ⟨_, rfl⟩
    · next hconflict =>
      rw [List.findSome?_eq_none_iff] at hconflict
      dsimp only
      cases hnext : checkedAdd64 m.nextId 1 with
      | none => exact .inl ⟨_, rfl⟩
      | some nextId =>
        right
        rw [checkedAdd64_eq_some] at hnext
        have hindex : ((m.mappings.take m.count).takeWhile fun entry =>
            entry.any (below region)).length = (m.live.takeWhile (below region)).length := by
          rw [hm.packed.take, takeWhile_map_some, List.length_map]
        have hle : (m.live.takeWhile (below region)).length ≤ m.count := by
          rw [hm.packed.count_eq]
          exact (List.takeWhile_prefix _).length_le
        have hlt : m.count < m.mappings.length := by
          have := hm.packed.count_le
          have := hm.size
          omega
        have hpacked := hm.packed.insert hle hlt ⟨⟨m.nextId⟩, region⟩
        have htake : m.live.take (m.live.takeWhile (below region)).length =
            m.live.takeWhile (below region) :=
          (List.prefix_iff_eq_take.mp (List.takeWhile_prefix _)).symm
        have hdrop : m.live.drop (m.live.takeWhile (below region)).length =
            m.live.dropWhile (below region) := by
          have hsplit := List.takeWhile_append_dropWhile (p := below region) (l := m.live)
          have hsame := List.take_append_drop (m.live.takeWhile (below region)).length m.live
          rw [htake] at hsame
          exact List.append_cancel_left (hsame.trans hsplit.symm)
        rw [htake, hdrop] at hpacked
        refine ⟨_, rfl, hnext, ?_, hconflict, ?_⟩
        · simp only [List.length_set, copyWithin, List.length_append, List.length_take,
            List.length_drop]
          have := hm.size
          unfold below at hindex hle
          omega
        · unfold below at hindex hpacked ⊢
          dsimp only
          rw [hindex]
          exact hpacked

/-- `position` finds a live mapping with the id. -/
theorem position_some {m : GuestMemory N} (hm : m.Inv) {id : GuestMappingId} {i : ℕ}
    (h : m.position id = some i) :
    ∃ g, i < m.count ∧ m.live[i]? = some g ∧ m.mappingAt i = some g ∧ g.id = id := by
  unfold position at h
  rw [hm.packed.take] at h
  obtain ⟨hi, hp, -⟩ := List.findIdx?_eq_some_iff_getElem.mp h
  rw [List.length_map] at hi
  rw [← hm.packed.count_eq] at hi
  have hi' : i < m.live.length := hm.packed.count_eq ▸ hi
  have hlive : m.live[i]? = some m.live[i] := List.getElem?_eq_getElem hi'
  refine ⟨m.live[i], hi, hlive, ?_, by simpa using hp⟩
  rw [mappingAt, hm.packed.getElem? hi, hlive]
  rfl

theorem unmap_cases {m : GuestMemory N} (hm : m.Inv) (id : GuestMappingId) :
    m.unmap id = (.error .staleMapping, m) ∨
    ∃ (g : GuestMapping) (i : ℕ) (m' : GuestMemory N), m.unmap id = (.ok g.region, m') ∧
      m'.nextId = m.nextId ∧ m'.mappings.length = N ∧
      Packed m'.mappings m'.count (m.live.eraseIdx i) := by
  unfold unmap
  cases h : m.position id with
  | none => exact .inl rfl
  | some i =>
    right
    obtain ⟨g, hi, -, hat, -⟩ := position_some hm h
    dsimp only
    rw [hat]
    refine ⟨g, i, _, rfl, rfl, ?_, hm.packed.eraseIdx hi⟩
    simp only [List.length_set, copyWithin, List.length_append, List.length_take, List.length_drop]
    have := hm.size
    have := hm.packed.count_le
    omega

theorem protect_cases {m : GuestMemory N} (hm : m.Inv) (id : GuestMappingId)
    (writable executable : Bool) :
    (∃ error, m.protect id writable executable = (.error error, m)) ∨
    ∃ (hwx : (writable && executable) = false) (g : GuestMapping) (i : ℕ) (m' : GuestMemory N),
      m.protect id writable executable = (.ok (), m') ∧ m'.nextId = m.nextId ∧
      m'.mappings.length = N ∧ m.live[i]? = some g ∧
      Packed m'.mappings m'.count
        (m.live.set i { g with region := g.region.withPermissions writable executable hwx }) := by
  unfold protect
  split
  · next hwx =>
    cases h : m.position id with
    | none => exact .inl ⟨_, rfl⟩
    | some i =>
      right
      obtain ⟨g, hi, hlive, hat, -⟩ := position_some hm h
      dsimp only
      rw [hat]
      exact ⟨hwx, g, i, _, rfl, rfl, by simpa using hm.size, hlive, hm.packed.set hi _⟩
  · exact .inl ⟨_, rfl⟩

/-- A call of one of the `&mut self` methods. -/
inductive MemoryOp
  | map (region : GuestRegion)
  | unmap (id : GuestMappingId)
  | protect (id : GuestMappingId) (writable executable : Bool)

/-- What a successful call returns. -/
inductive MemoryReply
  | mapped (id : GuestMappingId)
  | unmapped (region : GuestRegion)
  | reprotected

/-- One call: the result and the table it leaves. -/
def exec (m : GuestMemory N) : MemoryOp → Except VmError MemoryReply × GuestMemory N
  | .map region => ((m.map region).1.map .mapped, (m.map region).2)
  | .unmap id => ((m.unmap id).1.map .unmapped, (m.unmap id).2)
  | .protect id writable executable =>
    ((m.protect id writable executable).1.map fun _ => .reprotected,
      (m.protect id writable executable).2)

/-- The table after one call. -/
def step (m : GuestMemory N) (op : MemoryOp) : GuestMemory N := (m.exec op).2

theorem map_inv {m : GuestMemory N} (hm : m.Inv) (region : GuestRegion) : (m.map region).2.Inv := by
  rcases map_cases hm region with ⟨error, h⟩ | ⟨m', h, hnext, hsize, hconflict, hpacked⟩
  · rw [h]
    exact hm
  · rw [h]
    dsimp only
    have hlive := live_of_packed hpacked
    have hnew : ∀ g ∈ m.live, g.id ≠ ⟨m.nextId⟩ := by
      rintro g hg heq
      have := hm.fresh g hg
      rw [heq] at this
      exact UInt64.lt_irrefl _ this
    refine ⟨hlive ▸ hpacked, hsize, ?_, ?_, ?_, ?_⟩
    · rw [hlive]
      exact insert_sorted hm.sorted fun g hg => (conflict_eq_none.mp (hconflict g hg)).1
    · rw [hlive]
      exact insert_pairwise (fun a b h => h.symm) hm.host
        (fun g hg => (conflict_eq_none.mp (hconflict g hg)).2) _
    · rw [hlive]
      exact insert_pairwise (fun a b h => h.symm) hm.ids hnew _
    · intro g hg
      rw [hlive] at hg
      have hlt : m.nextId < m'.nextId := by
        rw [UInt64.lt_iff_toNat_lt]
        omega
      rcases List.mem_append.mp hg with hg | hg
      · exact UInt64.lt_trans (hm.fresh g ((List.takeWhile_prefix _).subset hg)) hlt
      · rcases List.mem_cons.mp hg with rfl | hg
        · exact hlt
        · exact UInt64.lt_trans (hm.fresh g ((List.dropWhile_suffix _).subset hg)) hlt

theorem unmap_inv {m : GuestMemory N} (hm : m.Inv) (id : GuestMappingId) : (m.unmap id).2.Inv := by
  rcases unmap_cases hm id with h | ⟨g, i, m', h, hnext, hsize, hpacked⟩
  · rw [h]
    exact hm
  · rw [h]
    dsimp only
    have hlive := live_of_packed hpacked
    have hsub : m'.live.Sublist m.live := hlive ▸ List.eraseIdx_sublist m.live i
    exact ⟨hlive ▸ hpacked, hsize, hm.sorted.sublist hsub, hm.host.sublist hsub,
      hm.ids.sublist hsub, fun g hg => hnext ▸ hm.fresh g (hsub.subset hg)⟩

theorem protect_inv {m : GuestMemory N} (hm : m.Inv) (id : GuestMappingId)
    (writable executable : Bool) : (m.protect id writable executable).2.Inv := by
  rcases protect_cases hm id writable executable with
    ⟨error, h⟩ | ⟨hwx, g, i, m', h, hnext, hsize, hg, hpacked⟩
  · rw [h]
    exact hm
  · rw [h]
    dsimp only
    have hlive := live_of_packed hpacked
    -- `protect` writes the two permission bits, and the invariant reads neither
    refine ⟨hlive ▸ hpacked, hsize, ?_, ?_, ?_, ?_⟩
    · rw [hlive]
      exact pairwise_set hm.sorted hg (fun _ h => h) (fun _ h => h)
    · rw [hlive]
      exact pairwise_set hm.host hg (fun _ h => h) (fun _ h => h)
    · rw [hlive]
      exact pairwise_set hm.ids hg (fun _ h => h) (fun _ h => h)
    · intro a ha
      rw [hlive] at ha
      rw [hnext]
      rcases List.mem_or_eq_of_mem_set ha with ha | rfl
      · exact hm.fresh a ha
      · exact hm.fresh g (List.mem_of_getElem? hg)

/-- **Step lemma.** Every call keeps the invariant. -/
theorem step_inv {m : GuestMemory N} (hm : m.Inv) (op : MemoryOp) : (m.step op).Inv := by
  cases op with
  | map region => exact map_inv hm region
  | unmap id => exact unmap_inv hm id
  | protect id writable executable => exact protect_inv hm id writable executable

theorem run_inv (N : ℕ) (ops : List MemoryOp) : (run step (new N) ops).Inv :=
  run_invariant (P := Inv) (fun _ op hm => step_inv hm op) (new_inv N) ops

/-- A failed call changes neither the table nor the id counter. -/
theorem exec_error {m : GuestMemory N} (hm : m.Inv) {op : MemoryOp} {error : VmError}
    (h : (m.exec op).1 = .error error) : (m.exec op).2 = m := by
  cases op with
  | map region =>
    rcases map_cases hm region with ⟨error, he⟩ | ⟨m', he, -⟩
    · simp [exec, he]
    · simp [exec, he, Except.map] at h
  | unmap id =>
    rcases unmap_cases hm id with he | ⟨g, i, m', he, -⟩
    · simp [exec, he]
    · simp [exec, he, Except.map] at h
  | protect id writable executable =>
    rcases protect_cases hm id writable executable with ⟨error, he⟩ | ⟨hwx, g, i, m', he, -⟩
    · simp [exec, he]
    · simp [exec, he, Except.map] at h

/-! ## Mapping ids -/

/-- The id that a call issues. -/
def issuedBy (m : GuestMemory N) (op : MemoryOp) : Option GuestMappingId :=
  match (m.exec op).1 with
  | .ok (.mapped id) => some id
  | _ => none

/-- The ids issued along a run, oldest first. -/
def issued : GuestMemory N → List MemoryOp → List GuestMappingId
  | _, [] => []
  | m, op :: ops => (m.issuedBy op).toList ++ issued (m.step op) ops

/-- A call issues the next id and moves the counter past it, or keeps the counter. -/
theorem issuedBy_cases {m : GuestMemory N} (hm : m.Inv) (op : MemoryOp) :
    (m.issuedBy op = none ∧ (m.step op).nextId = m.nextId) ∨
    (m.issuedBy op = some ⟨m.nextId⟩ ∧ m.nextId < (m.step op).nextId) := by
  cases op with
  | map region =>
    rcases map_cases hm region with ⟨error, he⟩ | ⟨m', he, hnext, -⟩
    · exact .inl (by simp [issuedBy, step, exec, he, Except.map])
    · refine .inr ⟨by simp [issuedBy, exec, he, Except.map], ?_⟩
      rw [step, exec, he, UInt64.lt_iff_toNat_lt]
      dsimp only
      omega
  | unmap id =>
    rcases unmap_cases hm id with he | ⟨g, i, m', he, hnext, -⟩
    · exact .inl (by simp [issuedBy, step, exec, he, Except.map])
    · exact .inl (by simp [issuedBy, step, exec, he, Except.map, hnext])
  | protect id writable executable =>
    rcases protect_cases hm id writable executable with ⟨error, he⟩ | ⟨hwx, g, i, m', he, hnext, -⟩
    · exact .inl (by simp [issuedBy, step, exec, he, Except.map])
    · exact .inl (by simp [issuedBy, step, exec, he, Except.map, hnext])

/-- The ids of a run start at the counter and only go up. -/
theorem issued_increasing {m : GuestMemory N} (hm : m.Inv) (ops : List MemoryOp) :
    (∀ id ∈ m.issued ops, m.nextId ≤ id.token) ∧
      (m.issued ops).Pairwise fun a b => a.token < b.token := by
  induction ops generalizing m with
  | nil => simp [issued]
  | cons op ops ih =>
    obtain ⟨hle, hpair⟩ := ih (step_inv hm op)
    rcases issuedBy_cases hm op with ⟨hnone, hnext⟩ | ⟨hsome, hlt⟩
    · rw [issued, hnone]
      exact ⟨fun id hid => hnext ▸ hle id hid, hpair⟩
    · rw [issued, hsome]
      refine ⟨?_, List.pairwise_cons.mpr ⟨fun id hid => UInt64.lt_of_lt_of_le hlt (hle id hid), hpair⟩⟩
      intro id hid
      rcases List.mem_cons.mp hid with rfl | hid
      · exact UInt64.le_refl _
      · exact UInt64.le_of_lt (UInt64.lt_of_lt_of_le hlt (hle id hid))

theorem issued_nodup {m : GuestMemory N} (hm : m.Inv) (ops : List MemoryOp) :
    (m.issued ops).Nodup := by
  refine (issued_increasing hm ops).2.imp ?_
  rintro a b hlt rfl
  exact UInt64.lt_irrefl _ hlt

/-! ## Translation -/

/-- A non-empty range lies in at most one live mapping. -/
theorem covers_unique {m : GuestMemory N} (hm : m.Inv) {a b : GuestMapping} (ha : a ∈ m.live)
    (hb : b ∈ m.live) {guest length : UInt64} (hlength : length ≠ 0)
    (hca : a.region.Covers guest length) (hcb : b.region.Covers guest length) : a = b := by
  by_contra hne
  have hpos : 0 < length.toNat := by
    rw [Nat.pos_iff_ne_zero]
    exact fun h => hlength (UInt64.toNat_inj.mp (by rw [h]; rfl))
  have hdisjoint := pairwise_or hm.sorted ha hb hne
  obtain ⟨ha1, ha2⟩ := hca
  obtain ⟨hb1, hb2⟩ := hcb
  omega

/-- The test of the search of `translate`. -/
theorem covers_iff {region : GuestRegion} {guest length last : UInt64}
    (hlast : last.toNat = guest.toNat + length.toNat) :
    (decide (guest ≥ region.guestStart) &&
      decide (last ≤ region.guestStart + region.length)) = true ↔ region.Covers guest length := by
  rw [Bool.and_eq_true, decide_eq_true_iff, decide_eq_true_iff, ge_iff_le,
    UInt64.le_iff_toNat_le, UInt64.le_iff_toNat_le, region.guestEnd_eq, hlast]
  rfl

/-- The permission test of `translate`. -/
theorem permits_iff {region : GuestRegion} {access : GuestAccess} :
    ¬ ((access = .write ∧ region.writable = false) ∨
      (access = .execute ∧ region.executable = false)) ↔ region.permits access = true := by
  cases access <;> simp [GuestRegion.permits]

/-- **Specification of `translate`.** -/
theorem translate_eq_ok_iff {m : GuestMemory N} (hm : m.Inv) {guest length : UInt64}
    {access : GuestAccess} {host : UInt64} :
    m.translate guest length access = .ok host ↔
      length ≠ 0 ∧ ∃ g ∈ m.live, g.region.Covers guest length ∧ g.region.permits access = true ∧
        host.toNat = g.region.hostStart.address.toNat +
          (guest.toNat - g.region.guestStart.toNat) := by
  unfold translate
  split
  · next hzero => simp [hzero]
  · next hlength =>
    cases hlast : checkedAdd64 guest length with
    | none =>
      rw [checkedAdd64_eq_none] at hlast
      dsimp only
      constructor
      · rintro ⟨⟩
      · rintro ⟨-, g, -, ⟨-, hend⟩, -⟩
        have := g.region.guest_lt
        rw [GuestRegion.guestEnd, g.region.length_toNat] at hend
        omega
    | some last =>
      rw [checkedAdd64_eq_some] at hlast
      dsimp only
      split
      · next hfind =>
        rw [List.find?_eq_none] at hfind
        constructor
        · rintro ⟨⟩
        · rintro ⟨-, g, hg, hcovers, -⟩
          exact (hfind g.region (List.mem_map_of_mem hg) ((covers_iff hlast).mpr hcovers)).elim
      · next region hfind =>
        obtain ⟨g, hg, rfl⟩ := List.mem_map.mp (List.mem_of_find?_eq_some hfind)
        have htest := List.find?_some hfind
        have hcovers : g.region.Covers guest length := (covers_iff hlast).mp htest
        have hsub : (guest - g.region.guestStart).toNat =
            guest.toNat - g.region.guestStart.toNat :=
          UInt64.toNat_sub_of_le _ _ (UInt64.le_iff_toNat_le.mpr hcovers.1)
        -- any mapping that covers the range is the one that the search found
        have honly : ∀ g' ∈ m.live, g'.region.Covers guest length → g' = g :=
          fun g' hg' hc => covers_unique hm hg' hg hlength hc hcovers
        split
        · next hdenied =>
          constructor
          · rintro ⟨⟩
          · rintro ⟨-, g', hg', hc, hpermits, -⟩
            rw [honly g' hg' hc] at hpermits
            exact (permits_iff.mpr hpermits hdenied).elim
        · next hpermits =>
          rw [permits_iff] at hpermits
          have hadd : checkedAdd64 g.region.hostStart.address (guest - g.region.guestStart) =
              some (g.region.hostStart.address + (guest - g.region.guestStart)) := by
            rw [checkedAdd64, if_pos]
            have hend := hcovers.2
            have := g.region.hostEnd_lt
            unfold GuestRegion.guestEnd at hend
            unfold GuestRegion.hostEnd at this
            omega
          rw [hadd]
          dsimp only
          rw [checkedAdd64_eq_some, hsub] at hadd
          constructor
          · rintro ⟨⟩
            exact ⟨hlength, g, hg, hcovers, hpermits, hadd⟩
          · rintro ⟨-, g', hg', hc, -, hhost⟩
            rw [honly g' hg' hc] at hhost
            rw [Except.ok.injEq]
            exact UInt64.toNat_inj.mp (hadd.trans hhost.symm)

/-- Different guest addresses never translate to one host address. -/
theorem translate_injective {m : GuestMemory N} (hm : m.Inv) {guest guest' : UInt64}
    {length length' : UInt64} {access access' : GuestAccess} {host : UInt64}
    (h : m.translate guest length access = .ok host)
    (h' : m.translate guest' length' access' = .ok host) : guest = guest' := by
  obtain ⟨hpos, g, hg, ⟨hstart, hend⟩, -, hhost⟩ := (translate_eq_ok_iff hm).mp h
  obtain ⟨hpos', g', hg', ⟨hstart', hend'⟩, -, hhost'⟩ := (translate_eq_ok_iff hm).mp h'
  have hlt : 0 < length.toNat := by
    rw [Nat.pos_iff_ne_zero]
    exact fun h => hpos (UInt64.toNat_inj.mp (by rw [h]; rfl))
  have hlt' : 0 < length'.toNat := by
    rw [Nat.pos_iff_ne_zero]
    exact fun h => hpos' (UInt64.toNat_inj.mp (by rw [h]; rfl))
  unfold GuestRegion.guestEnd at hend hend'
  by_cases hsame : g = g'
  · subst hsame
    exact UInt64.toNat_inj.mp (by omega)
  · have hdisjoint := pairwise_or hm.host hg hg' hsame
    unfold HostDisjoint GuestRegion.hostEnd at hdisjoint
    omega

/-- **Main theorem.** After any sequence of calls the live mappings are sorted and
    disjoint in both address spaces, none is writable and executable, no id is
    issued twice, `translate` accepts exactly the non-empty ranges inside one
    permitting mapping, and a failed call changes nothing. -/
theorem guest_memory_isolation (N : ℕ) (ops : List MemoryOp) :
    let m := run step (new N) ops
    m.live.Pairwise (fun a b => a.region.guestStart < b.region.guestStart ∧
      a.region.guestEnd ≤ b.region.guestStart.toNat ∧ HostDisjoint a.region b.region) ∧
    (∀ g ∈ m.live, ¬ (g.region.writable = true ∧ g.region.executable = true)) ∧
    (issued (new N) ops).Nodup ∧
    (∀ guest length access host, m.translate guest length access = .ok host ↔
      length ≠ 0 ∧ ∃ g ∈ m.live, g.region.Covers guest length ∧ g.region.permits access = true ∧
        host.toNat = g.region.hostStart.address.toNat +
          (guest.toNat - g.region.guestStart.toNat)) ∧
    (∀ guest guest' length length' access access' host,
      m.translate guest length access = .ok host →
      m.translate guest' length' access' = .ok host → guest = guest') ∧
    (∀ op error, (m.exec op).1 = .error error → (m.exec op).2 = m) := by
  intro m
  have hm : m.Inv := run_inv N ops
  refine ⟨?_, ?_, issued_nodup (new_inv N) ops, fun _ _ _ _ => translate_eq_ok_iff hm,
    fun _ _ _ _ _ _ _ => translate_injective hm, fun _ _ => exec_error hm⟩
  · refine (hm.sorted.and hm.host).imp ?_
    rintro a b ⟨hguest, hhost⟩
    refine ⟨?_, hguest, hhost⟩
    have hpos := a.region.length_pos
    rw [UInt64.lt_iff_toNat_lt]
    unfold GuestRegion.guestEnd at hguest
    omega
  · rintro g - ⟨hw, hx⟩
    have := g.region.not_wx
    rw [hw, hx] at this
    cases this

theorem onePage_host : (0x8000 : UInt64).toNat % pageSize = 0 := by decide

theorem onePage_guest : (0x1000 : UInt64).toNat % pageSize = 0 := by decide

theorem onePage_pages : (1 : UInt64) ≠ 0 := by decide

/-- One writable page. -/
def onePage : GuestRegion :=
  ⟨0x1000, ⟨0x8000, onePage_host⟩, 1, true, false, onePage_pages, onePage_guest, by decide,
    by decide, by decide⟩

/-- The empty range at the start of a readable mapping does not translate. -/
theorem translate_empty_range :
    let m := run step (new 1) [.map onePage]
    ¬ ((∃ host, m.translate 0x1000 0 .read = .ok host) ↔
      ∃ g ∈ m.live, g.region.Covers 0x1000 0 ∧ g.region.permits .read = true) := by
  intro m h
  have hlive : m.live = [⟨⟨1⟩, onePage⟩] := by rfl
  obtain ⟨host, hhost⟩ := h.mpr ⟨⟨⟨1⟩, onePage⟩, by simp [hlive], by decide, rfl⟩
  simp [translate] at hhost

end GuestMemory

end Mrml.Vm
