import Mrml.Arch.Editor

/-!
# Exact changes in arbitrary tables

`protect` and `unmap_exact` (`crates/mrml-kernel/src/arch/x86_64/page_table.rs`, lines 280–337)
check every page of a range before they change the first one. The editor also opens tables that it
has not built (`from_existing_root`). There an entry may be the leaf of one page and stand on the
way to the leaf of another one. `protect` keeps the frame of such an entry; `unmap_exact` clears
it, and does not find its way to the later page.

Results:
* `exact_changes`: `protect` changes all of the range or nothing, and when `unmap_exact` does.
-/

namespace Mrml.Arch

open Mrml.Kernel PageTableStore

/-- A store in which only the entries of live tables can be read. -/
class ExactPageTableStore (S : Type) [PageTableStore S] extends LawfulPageTableStore S where
  read_dead : ∀ {s frame}, table s frame = none →
    ∀ index, ∃ e, PageTableStore.read s frame index = .error e

/-- The preallocated store checks that a table was issued. -/
instance : ExactPageTableStore PreallocatedPageTableStore where
  read_dead := by
    intro store frame hdead index
    show ∃ e, (store.issuedTable frame >>= _) = _
    cases hissued : store.issuedTable frame with
    | error e => exact ⟨e, rfl⟩
    | ok page =>
      obtain ⟨hlt, rfl⟩ := PreallocatedPageTableStore.issuedTable_eq_ok_iff.mp hissued
      exact nomatch hdead.symm.trans (store.contents_frame hlt)

/-- The place of an entry. -/
abbrev Slot := PhysAddr × Fin 512

variable {S : Type} [PageTableStore S] [ExactPageTableStore S] {s s' : S} {root : PhysAddr}

open LawfulPageTableStore in
/-- The entry at a place, if its table is live. -/
def entryOf (s : S) (slot : Slot) : Option UInt64 := (table s slot.1).map (· slot.2)

theorem read_eq_ok {slot : Slot} {entry : UInt64} :
    read s slot.1 slot.2 = .ok entry ↔ entryOf s slot = some entry := by
  rw [entryOf]
  cases hlive : LawfulPageTableStore.table s slot.1 with
  | none =>
    obtain ⟨e, he⟩ := ExactPageTableStore.read_dead hlive slot.2
    rw [he]
    simp
  | some contents =>
    rw [LawfulPageTableStore.read_live hlive, Option.map_some, Except.ok.injEq, Option.some_inj]

/-- A write to a live table changes one entry. -/
theorem exists_write {slot : Slot} {entry : UInt64} (h : entryOf s slot = some entry)
    (value : UInt64) : ∃ s', write slot.1 slot.2 value s = (.ok (), s') ∧
      entryOf s' slot = some value ∧ ∀ slot', slot' ≠ slot → entryOf s' slot' = entryOf s slot' := by
  obtain ⟨contents, hlive, -⟩ := Option.map_eq_some_iff.mp h
  obtain ⟨s', hwrite, htable⟩ := LawfulPageTableStore.write_live hlive slot.2 value
  refine ⟨s', hwrite, ?_, fun slot' hne => ?_⟩
  · rw [entryOf, htable, Function.update_self, Option.map_some, Function.update_self]
  · rw [entryOf, htable, entryOf]
    by_cases hframe : slot'.1 = slot.1
    · have hindex : slot'.2 ≠ slot.2 := fun hindex => hne (Prod.ext hframe hindex)
      rw [hframe, Function.update_self, hlive, Option.map_some, Option.map_some,
        Function.update_of_ne hindex]
    · rw [Function.update_of_ne hframe]

/-! ## The way to a leaf -/

namespace PageTableBuilder

/-- The places that `leaf_location` reads from a table on. -/
def wayFrom (s : S) : PhysAddr → List (Fin 512) → List Slot
  | _, [] => []
  | table, index :: indices =>
    (table, index) ::
      match nextTable s table index with
      | .error _ => []
      | .ok table => wayFrom s table indices

/-- The places that `leaf_location` reads for an address. -/
def way (s : S) (root : PhysAddr) (v : VirtAddr) : List Slot :=
  wayFrom s root [pml4Index v.address, pdptIndex v.address, directoryIndex v.address]

theorem nextTable_eq_ok {slot : Slot} {next : PhysAddr} :
    nextTable s slot.1 slot.2 = .ok next ↔ ∃ entry, entryOf s slot = some entry ∧
      entry &&& present ≠ 0 ∧ ¬ InvalidIntermediate entry ∧ entryFrame entry = .ok next := by
  simp only [← read_eq_ok]
  unfold nextTable
  rw [bind_eq_ok]
  refine exists_congr fun entry => and_congr_right fun _ => ?_
  split_ifs with habsent hinvalid
  · simp [habsent]
  · simp [hinvalid]
  · simp [habsent, hinvalid]

/-- An absent entry leads nowhere. -/
theorem nextTable_zero {slot : Slot} (h : entryOf s slot = some 0) :
    ∃ e, nextTable s slot.1 slot.2 = .error e := by
  rw [← read_eq_ok] at h
  refine ⟨.notMapped, ?_⟩
  unfold nextTable
  rw [h]
  rfl

/-- `s'` leads through a place to the same table as `s`. -/
def Leads (s s' : S) (slot : Slot) : Prop :=
  ∀ next, nextTable s slot.1 slot.2 = .ok next → nextTable s' slot.1 slot.2 = .ok next

theorem Leads.of_entryOf {slot : Slot} (h : entryOf s' slot = entryOf s slot) :
    Leads s s' slot := by
  intro next hnext
  rw [nextTable_eq_ok] at hnext ⊢
  rwa [h]

omit [ExactPageTableStore S] in
theorem foldlM_nextTable_congr {indices : List (Fin 512)} {table leaf : PhysAddr}
    (h : indices.foldlM (nextTable s) table = .ok leaf)
    (hleads : ∀ slot ∈ wayFrom s table indices, Leads s s' slot) :
    indices.foldlM (nextTable s') table = .ok leaf := by
  induction indices generalizing table with
  | nil => exact h
  | cons index indices ih =>
    rw [List.foldlM_cons] at h ⊢
    obtain ⟨next, hnext, h⟩ := bind_eq_ok.mp h
    rw [wayFrom, hnext, List.forall_mem_cons] at hleads
    rw [hleads.1 next hnext]
    exact ih h hleads.2

omit [ExactPageTableStore S] in
theorem foldlM_nextTable_blocked {indices : List (Fin 512)} {table leaf : PhysAddr}
    (h : indices.foldlM (nextTable s) table = .ok leaf)
    (hleads : ∀ slot ∈ wayFrom s table indices,
      Leads s s' slot ∨ ∃ e, nextTable s' slot.1 slot.2 = .error e)
    (hblocked : ∃ slot ∈ wayFrom s table indices, ∃ e, nextTable s' slot.1 slot.2 = .error e) :
    ∃ e, indices.foldlM (nextTable s') table = .error e := by
  induction indices generalizing table with
  | nil =>
    obtain ⟨slot, hmem, -⟩ := hblocked
    exact nomatch hmem
  | cons index indices ih =>
    rw [List.foldlM_cons] at h ⊢
    obtain ⟨next, hnext, h⟩ := bind_eq_ok.mp h
    simp only [wayFrom, hnext, List.forall_mem_cons, List.exists_mem_cons_iff] at hleads hblocked
    obtain hkept | ⟨e, he⟩ := hleads.1
    · have hnext' := hkept next hnext
      rw [hnext'] at hblocked ⊢
      refine ih h hleads.2 (hblocked.resolve_left ?_)
      rintro ⟨e, he⟩
      exact nomatch he
    · rw [he]
      exact ⟨e, rfl⟩

omit [ExactPageTableStore S] in
/-- The leaf of an address stays where it is if the entries on the way lead to the same
    tables. -/
theorem leafLocation_congr {v : VirtAddr} {slot : Slot} (h : leafLocation root v s = .ok slot)
    (hleads : ∀ slot ∈ way s root v, Leads s s' slot) : leafLocation root v s' = .ok slot := by
  obtain ⟨leaf, hleaf, h⟩ := bind_eq_ok.mp h
  rw [leafLocation, foldlM_nextTable_congr hleaf hleads]
  exact h

omit [ExactPageTableStore S] in
/-- The leaf of an address is lost if an entry on the way is. -/
theorem leafLocation_blocked {v : VirtAddr} {slot : Slot} (h : leafLocation root v s = .ok slot)
    (hleads : ∀ slot ∈ way s root v,
      Leads s s' slot ∨ ∃ e, nextTable s' slot.1 slot.2 = .error e)
    (hblocked : ∃ slot ∈ way s root v, ∃ e, nextTable s' slot.1 slot.2 = .error e) :
    ∃ e, leafLocation root v s' = .error e := by
  obtain ⟨leaf, hleaf, h⟩ := bind_eq_ok.mp h
  obtain ⟨e, he⟩ := foldlM_nextTable_blocked hleaf hleads hblocked
  rw [leafLocation, he]
  exact ⟨e, rfl⟩

/-! ## The checks -/

/-- A page is mapped by the expected leaf, up to its accessed and dirty bits. -/
def Matched (s : S) (root : PhysAddr) (permissions : PagePermissions)
    (page : VirtAddr × PhysAddr) : Prop :=
  ¬ Unencodable page.2 permissions ∧ ∃ slot old, leafLocation root page.1 s = .ok slot ∧
    entryOf s slot = some old ∧
    old &&& ~~~leafAccessedDirty = PageTableEntry.leafBits page.2 permissions.access

/-- What the editor reads of the leaf of a page, whatever its accessed and dirty bits: it is
    present, and could stand on the way to another leaf. -/
theorem leaf_fields {frame : PhysAddr} {access : Access} {old : UInt64} (hframe : InMask frame)
    (h : old &&& ~~~leafAccessedDirty = PageTableEntry.leafBits frame access) :
    old &&& present ≠ 0 ∧ ¬ InvalidIntermediate old ∧ entryFrame old = .ok frame := by
  set dirty := old &&& leafAccessedDirty with hdirty
  have hsplit : old = frame.address ||| (PageTableEntry.leafFlags access ||| dirty) := by
    rw [← UInt64.or_assoc]
    show old = PageTableEntry.leafBits frame access ||| dirty
    rw [← h, hdirty, ← UInt64.toBitVec_inj]
    simp only [UInt64.toBitVec_and, UInt64.toBitVec_or, UInt64.toBitVec_not]
    rw [BitVec.or_comm, ← BitVec.and_or_distrib_left, BitVec.or_not_self, BitVec.and_allOnes]
  have hmask (mask : UInt64) (hzero : leafAccessedDirty &&& mask = 0) : dirty &&& mask = 0 := by
    rw [hdirty, UInt64.and_assoc, hzero, UInt64.and_zero]
  have hflags (mask : UInt64) (hzero : leafAccessedDirty &&& mask = 0) :
      (PageTableEntry.leafFlags access ||| dirty) &&& mask =
        PageTableEntry.leafFlags access &&& mask := by
    rw [or_and_distrib, hmask mask hzero, UInt64.or_zero]
  obtain ⟨writable, executable, user⟩ := access
  rw [hsplit, InvalidIntermediate, or_and_of_disjoint hframe rfl, or_and_of_disjoint hframe rfl,
    or_and_of_disjoint hframe rfl, hflags _ rfl, hflags _ rfl, hflags _ rfl, entryFrame,
    physAddr_frameBits, frameOf_or hframe]
  · refine ⟨?_, ?_, rfl⟩
    · cases writable <;> cases executable <;> cases user <;> decide
    · cases writable <;> cases executable <;> cases user <;> decide
  · rw [hflags _ rfl]
    cases writable <;> cases executable <;> cases user <;> rfl

theorem matchLeaf_cases (s : S) (root : PhysAddr) (permissions : PagePermissions)
    (page : VirtAddr × PhysAddr) :
    (Matched s root permissions page ∧ matchLeaf root permissions page.1 page.2 s = (.ok (), s)) ∨
    (¬ Matched s root permissions page ∧
      ∃ e, matchLeaf root permissions page.1 page.2 s = (.error e, s)) := by
  unfold Matched
  cases hslot : leafLocation root page.1 s with
  | error e =>
    refine .inr ⟨?_, e, ?_⟩
    · rintro ⟨-, slot, old, hok, -⟩
      exact nomatch hok
    · rw [matchLeaf, Edit.bind_eq, Edit.inspect, hslot]
  | ok slot =>
    rw [matchLeaf, Edit.bind_eq, Edit.inspect, hslot]
    simp only
    rw [Edit.bind_eq, Edit.inspect]
    cases hread : read s slot.1 slot.2 with
    | error e =>
      refine .inr ⟨?_, e, rfl⟩
      rintro ⟨-, slot', old, hok, hentry, -⟩
      rw [← Except.ok.inj hok, ← read_eq_ok, hread] at hentry
      exact nomatch hentry
    | ok old =>
      have hentry := read_eq_ok.mp hread
      have hold {slot' : Slot} {old' : UInt64} (hok : Except.ok (ε := PageTableBuildError) slot =
          .ok slot') (hentry' : entryOf s slot' = some old') : old' = old := by
        rw [← Except.ok.inj hok, hentry] at hentry'
        exact (Option.some.inj hentry').symm
      simp only
      cases hleaf : PageTableEntry.leaf page.2 permissions with
      | error e =>
        have hbad := leaf_eq_error hleaf
        refine .inr ⟨fun h => h.1 hbad, ?_⟩
        split_ifs with habsent
        · exact ⟨_, rfl⟩
        · exact ⟨_, rfl⟩
      | ok wanted =>
        obtain ⟨rfl, hencodable⟩ := leaf_eq_ok hleaf
        by_cases hmatch : old &&& ~~~leafAccessedDirty =
            PageTableEntry.leafBits page.2 permissions.access
        · have hpresent := (leaf_fields (valid_of_encodable hencodable).1 hmatch).1
          refine .inl ⟨⟨hencodable, slot, old, rfl, hentry, hmatch⟩, ?_⟩
          rw [if_neg hpresent, Edit.bind_eq, Edit.ofExcept]
          show (if old &&& ~~~leafAccessedDirty ≠ _ then Edit.fail PageTableBuildError.mappingMismatch
            else pure ()) s = _
          rw [if_neg (not_not.mpr hmatch)]
          rfl
        · refine .inr ⟨?_, ?_⟩
          · rintro ⟨-, slot', old', hok, hentry', hmatch'⟩
            exact hmatch (hold hok hentry' ▸ hmatch')
          · split_ifs with habsent
            · exact ⟨_, rfl⟩
            · refine ⟨.mappingMismatch, ?_⟩
              rw [Edit.bind_eq, Edit.ofExcept]
              show (if old &&& ~~~leafAccessedDirty ≠ _ then Edit.fail PageTableBuildError.mappingMismatch
                else pure ()) s = _
              rw [if_pos hmatch]
              rfl

/-! ## The loops of changes -/

/-- The pages of a range have new leaves, and no other entry is new. -/
structure Rewritten (s : S) (root : PhysAddr) (pages : List (VirtAddr × PhysAddr))
    (value : VirtAddr × PhysAddr → UInt64 → UInt64) (s' : S) : Prop where
  leaf : ∀ page ∈ pages, ∃ slot old, leafLocation root page.1 s = .ok slot ∧
    entryOf s slot = some old ∧ entryOf s' slot = some (value page old)
  other : ∀ slot, (∀ page ∈ pages, leafLocation root page.1 s ≠ .ok slot) →
    entryOf s' slot = entryOf s slot

section Rewritten

variable {permissions : PagePermissions} {page : VirtAddr × PhysAddr}
  {done rest : List (VirtAddr × PhysAddr)} {value : VirtAddr × PhysAddr → UInt64 → UInt64}

theorem Rewritten.refl (s : S) (root : PhysAddr) : Rewritten s root [] value s := by
  constructor
  · exact fun _ hmem => nomatch hmem
  · exact fun _ _ => rfl

/-- Two pages with one leaf have one frame. -/
theorem Matched.frame_eq {page' : VirtAddr × PhysAddr} {slot : Slot}
    (h : Matched s root permissions page) (h' : Matched s root permissions page')
    (hslot : leafLocation root page.1 s = .ok slot)
    (hslot' : leafLocation root page'.1 s = .ok slot) : page.2 = page'.2 := by
  obtain ⟨hencodable, _, old, hok, hold, hmatch⟩ := h
  obtain ⟨hencodable', _, old', hok', hold', hmatch'⟩ := h'
  obtain rfl := Except.ok.inj (hslot.symm.trans hok)
  obtain rfl := Except.ok.inj (hslot'.symm.trans hok')
  obtain rfl := Option.some.inj (hold.symm.trans hold')
  exact (PageTableEntry.leafBits_inj (valid_of_encodable hencodable).1
    (valid_of_encodable hencodable').1 (hmatch.symm.trans hmatch')).1

/-- The next page of a range has a leaf of its own. -/
theorem Matched.slot_new {slot : Slot}
    (hmatched : ∀ page' ∈ done ++ page :: rest, Matched s root permissions page')
    (hframes : (done ++ page :: rest).Pairwise fun page page' => page.2 ≠ page'.2)
    (hslot : leafLocation root page.1 s = .ok slot) :
    ∀ page' ∈ done, leafLocation root page'.1 s ≠ .ok slot := by
  intro page' hmem hslot'
  have hmatched' := hmatched page' (List.mem_append_left _ hmem)
  have hne := (List.pairwise_append.mp hframes).2.2 page' hmem page List.mem_cons_self
  exact hne (hmatched'.frame_eq (hmatched page (by simp)) hslot' hslot)

/-- One more leaf is written. -/
theorem Rewritten.snoc (h : Rewritten s root done value s') {slot : Slot} {old : UInt64}
    {s'' : S} (hslot : leafLocation root page.1 s = .ok slot) (hold : entryOf s slot = some old)
    (hnew : ∀ page' ∈ done, leafLocation root page'.1 s ≠ .ok slot)
    (hwritten : entryOf s'' slot = some (value page old))
    (hother : ∀ slot', slot' ≠ slot → entryOf s'' slot' = entryOf s' slot') :
    Rewritten s root (done ++ [page]) value s'' := by
  constructor
  · intro page' hmem
    obtain hmem | hmem := List.mem_append.mp hmem
    · obtain ⟨slot', old', hslot', hold', hwritten'⟩ := h.leaf page' hmem
      refine ⟨slot', old', hslot', hold', ?_⟩
      rw [hother slot' fun heq => hnew page' hmem (heq ▸ hslot'), hwritten']
    · obtain rfl := List.mem_singleton.mp hmem
      exact ⟨slot, old, hslot, hold, hwritten⟩
  · intro slot' hnone
    rw [hother slot', h.other slot' fun page' hmem => hnone page' (List.mem_append_left _ hmem)]
    rintro rfl
    exact hnone page (List.mem_append_right _ (List.mem_singleton_self _)) hslot

/-- The leaf that `protect` writes. -/
def protectedLeaf (permissions : PagePermissions) (page : VirtAddr × PhysAddr) (old : UInt64) :
    UInt64 :=
  PageTableEntry.leafBits page.2 permissions.access ||| (old &&& leafAccessedDirty)

/-- `protect` keeps the frame and the accessed and dirty bits. -/
theorem protectedLeaf_fields (hframe : InMask page.2) (permissions : PagePermissions)
    (old : UInt64) :
    protectedLeaf permissions page old &&& ~~~leafAccessedDirty =
      PageTableEntry.leafBits page.2 permissions.access ∧
    protectedLeaf permissions page old &&& leafAccessedDirty = old &&& leafAccessedDirty := by
  have hclean := (PageTableEntry.leafBits_fields hframe permissions.access).2.2.1
  unfold protectedLeaf
  constructor
  · rw [or_and_distrib, and_not_eq_self hclean, UInt64.and_assoc,
      show leafAccessedDirty &&& ~~~leafAccessedDirty = 0 from rfl, UInt64.and_zero,
      UInt64.or_zero]
  · rw [or_and_distrib, hclean, UInt64.zero_or, UInt64.and_assoc, UInt64.and_self]

/-- The loop of `protect` writes every leaf. -/
theorem rewrite_loop {expected : PagePermissions} (h : Rewritten s root done (protectedLeaf
      permissions) s')
    (hmatched : ∀ page ∈ done ++ rest, Matched s root expected page)
    (hencodable : ∀ page ∈ done ++ rest, ¬ Unencodable page.2 permissions)
    (hframes : (done ++ rest).Pairwise fun page page' => page.2 ≠ page'.2) :
    Edit.Spec s' (Edit.forEach rest fun page => protectLeaf root permissions page.1 page.2)
      (fun _ s'' => Rewritten s root (done ++ rest) (protectedLeaf permissions) s'')
      (fun _ _ => False) := by
  induction rest generalizing done s' with
  | nil =>
    rw [List.append_nil]
    exact h
  | cons page rest ih =>
    have hmem : page ∈ done ++ page :: rest := by simp
    obtain ⟨hfits, slot, old, hslot, hold, hmatch⟩ := hmatched page hmem
    have hnew := Matched.slot_new hmatched hframes hslot
    -- the leaves written so far lead to the frames they led to
    have hleads (slot' : Slot) : Leads s s' slot' := by
      by_cases hdone : ∃ page' ∈ done, leafLocation root page'.1 s = .ok slot'
      · obtain ⟨page', hmem', hslot'⟩ := hdone
        obtain ⟨_, old', hok, hold', hwritten⟩ := h.leaf page' hmem'
        obtain rfl := Except.ok.inj (hslot'.symm.trans hok)
        obtain ⟨hfits', _, _, hok', hentry, hmatch'⟩ :=
          hmatched page' (List.mem_append_left _ hmem')
        obtain rfl := Except.ok.inj (hslot'.symm.trans hok')
        obtain rfl := Option.some.inj (hold'.symm.trans hentry)
        have hframe := (valid_of_encodable hfits').1
        intro next hnext
        obtain ⟨entry, hentry', -, -, hleads⟩ := nextTable_eq_ok.mp hnext
        obtain rfl := Option.some.inj (hold'.symm.trans hentry')
        obtain ⟨hpresent, hvalid, hnext'⟩ :=
          leaf_fields hframe (protectedLeaf_fields hframe permissions old').1
        rw [(leaf_fields hframe hmatch').2.2] at hleads
        exact nextTable_eq_ok.mpr ⟨_, hwritten, hpresent, hvalid, hleads ▸ hnext'⟩
      · exact .of_entryOf (h.other slot' (by simpa using hdone))
    have hcurrent : entryOf s' slot = some old := (h.other slot hnew).trans hold
    obtain ⟨s'', hwrite, hwritten, hother⟩ :=
      exists_write hcurrent (protectedLeaf permissions page old)
    have hbody : protectLeaf root permissions page.1 page.2 s' = (.ok (), s'') := by
      have hbits : PageTableEntry.leaf page.2 permissions =
          .ok (PageTableEntry.leafBits page.2 permissions.access) := by
        cases hleaf : PageTableEntry.leaf page.2 permissions with
        | ok bits => rw [(leaf_eq_ok hleaf).1]
        | error e => exact absurd (leaf_eq_error hleaf) (hencodable page hmem)
      rw [protectLeaf, Edit.bind_eq, Edit.inspect,
        leafLocation_congr hslot fun slot' _ => hleads slot', hbits]
      show (Edit.inspect (read · slot.1 slot.2) >>= _) s' = _
      rw [Edit.bind_eq, Edit.inspect, read_eq_ok.mpr hcurrent]
      exact hwrite
    have hstep : Edit.Spec s' (protectLeaf root permissions page.1 page.2)
        (fun _ s₁ => s₁ = s'') (fun _ _ => False) := by
      unfold Edit.Spec
      rw [hbody]
    refine hstep.bind ?_
    rintro _ _ rfl
    rw [List.append_cons] at hmatched hencodable hframes ⊢
    exact ih (h.snoc hslot hold hnew hwritten hother) hmatched hencodable hframes

/-- The leaf of a page is not on the way to the leaf of a later one. -/
def Apart (s : S) (root : PhysAddr) (page later : VirtAddr × PhysAddr) : Prop :=
  ∀ slot, leafLocation root page.1 s = .ok slot → slot ∉ way s root later.1

/-- The loop of `unmap_exact` clears every leaf, unless one is on the way to a later one. Then it
    stops with some of the leaves cleared. -/
theorem clear_loop (h : Rewritten s root done (fun _ _ => 0) s')
    (hmatched : ∀ page ∈ done ++ rest, Matched s root permissions page)
    (hframes : (done ++ rest).Pairwise fun page page' => page.2 ≠ page'.2)
    (hapart : done.Pairwise (Apart s root)) :
    Edit.Spec s' (Edit.forEach rest fun page => clearLeaf root page.1)
      (fun _ s'' => (done ++ rest).Pairwise (Apart s root) ∧
        Rewritten s root (done ++ rest) (fun _ _ => 0) s'')
      (fun _ s'' => ¬ (done ++ rest).Pairwise (Apart s root) ∧ ∃ cleared ≠ [],
        (∀ page ∈ cleared, page ∈ done ++ rest) ∧
        Rewritten s root cleared (fun _ _ => 0) s'') := by
  induction rest generalizing done s' with
  | nil =>
    rw [List.append_nil]
    exact ⟨hapart, h⟩
  | cons page rest ih =>
    have hmem : page ∈ done ++ page :: rest := by simp
    obtain ⟨hfits, slot, old, hslot, hold, hmatch⟩ := hmatched page hmem
    have hnew := Matched.slot_new hmatched hframes hslot
    have hcleared {page' : VirtAddr × PhysAddr} (hmem' : page' ∈ done) {slot' : Slot}
        (hslot' : leafLocation root page'.1 s = .ok slot') :
        ∃ e, nextTable s' slot'.1 slot'.2 = .error e := by
      obtain ⟨_, old', hok, -, hwritten⟩ := h.leaf page' hmem'
      obtain rfl := Except.ok.inj (hslot'.symm.trans hok)
      exact nextTable_zero hwritten
    by_cases hblocked : ∀ page' ∈ done, Apart s root page' page
    · have hlocation : leafLocation root page.1 s' = .ok slot := by
        refine leafLocation_congr hslot fun slot' hway => .of_entryOf (h.other slot' ?_)
        intro page' hmem' hslot'
        exact hblocked page' hmem' slot' hslot' hway
      obtain ⟨s'', hwrite, hwritten, hother⟩ :=
        exists_write ((h.other slot hnew).trans hold) 0
      have hstep : Edit.Spec s' (clearLeaf root page.1) (fun _ s₁ => s₁ = s'')
          (fun _ _ => False) := by
        have hbody : clearLeaf root page.1 s' = (.ok (), s'') := by
          rw [clearLeaf, Edit.bind_eq, Edit.inspect, hlocation]
          exact hwrite
        unfold Edit.Spec
        rw [hbody]
      refine (hstep.mono (fun _ _ h => h) fun _ _ hfalse => hfalse.elim).bind ?_
      rintro _ _ rfl
      rw [List.append_cons] at hmatched hframes ⊢
      refine ih (h.snoc hslot hold hnew hwritten hother) hmatched hframes ?_
      rw [List.pairwise_append]
      exact ⟨hapart, List.pairwise_singleton _ _, fun page' hmem' later hlater =>
        List.mem_singleton.mp hlater ▸ hblocked page' hmem'⟩
    · simp only [not_forall, Apart, not_not] at hblocked
      obtain ⟨page', hmem', slot', hslot', hway⟩ := hblocked
      have hlost : ∃ e, leafLocation root page.1 s' = .error e := by
        refine leafLocation_blocked hslot (fun slot'' _ => ?_)
          ⟨slot', hway, hcleared hmem' hslot'⟩
        by_cases hdone : ∃ page'' ∈ done, leafLocation root page''.1 s = .ok slot''
        · obtain ⟨page'', hmem'', hslot''⟩ := hdone
          exact .inr (hcleared hmem'' hslot'')
        · exact .inl (.of_entryOf (h.other slot'' (by simpa using hdone)))
      obtain ⟨e, he⟩ := hlost
      have hstep : Edit.Spec s' (clearLeaf root page.1) (fun _ _ => False)
          (fun _ s₁ => s₁ = s') := by
        unfold Edit.Spec
        rw [clearLeaf, Edit.bind_eq, Edit.inspect, he]
      refine Edit.Spec.bind (hstep.mono (fun _ _ h => h) ?_ :
        Edit.Spec s' (clearLeaf root page.1) (fun _ _ => False) _) fun _ _ hfalse => hfalse.elim
      rintro _ _ rfl
      refine ⟨fun hall => ?_, done, List.ne_nil_of_mem hmem', fun page'' hmem'' =>
        List.mem_append_left _ hmem'', h⟩
      exact (List.pairwise_append.mp hall).2.2 page' hmem' page List.mem_cons_self slot' hslot' hway

end Rewritten

/-! ## All or nothing -/

/-- The frames of a range are different. -/
theorem pageList_frames (m : Mapping) :
    m.pageList.Pairwise fun page page' => page.2 ≠ page'.2 := by
  obtain ⟨-, -, hlt, -⟩ := m.bounds
  refine List.pairwise_map.mpr ((List.nodup_finRange m.pages.toNat).imp ?_)
  intro j k hne heq
  have haddress := congrArg (fun frame => frame.address.toNat) heq
  have hj := Mapping.toNat_ofNat_page j.isLt hlt (by decide)
  have hk := Mapping.toNat_ofNat_page k.isLt hlt (by decide)
  simp only [Mapping.physicalPage] at haddress
  exact hne (Fin.ext (by omega))

/-- A change of a range is exact: it fails without a trace, or the leaves of the range have their
    new values and nothing else is new. -/
def ExactChange (s : S) (root : PhysAddr) (m : Mapping)
    (value : VirtAddr × PhysAddr → UInt64 → UInt64) (change : Edit PageTableBuildError S Unit) :
    Prop :=
  Edit.Spec s change (fun _ s' => Rewritten s root m.pageList value s')
    (fun _ s' => ∀ slot, entryOf s' slot = entryOf s slot)

/-- `protect` is exact in every table. -/
theorem protect_exact (s : S) (root : PhysAddr) (m : Mapping) (permissions : PagePermissions) :
    Edit.Spec s (protect root m permissions)
      (fun _ s' => (∀ page ∈ m.pageList, Matched s root m.permissions page ∧
          ¬ Unencodable page.2 permissions) ∧
        Rewritten s root m.pageList (protectedLeaf permissions) s')
      (fun _ s' => s' = s) := by
  rw [protect_eq]
  refine (Edit.spec_forEach_check (Q := fun page => Matched s root m.permissions page ∧
    ¬ Unencodable page.2 permissions) fun page _ => ?_).bind ?_
  · have hcheck : Edit.Spec s (matchLeaf root m.permissions page.1 page.2)
        (fun _ s' => s' = s ∧ Matched s root m.permissions page) (fun _ s' => s' = s) := by
      unfold Edit.Spec
      obtain ⟨hmatched, heq⟩ | ⟨-, e, heq⟩ := matchLeaf_cases s root m.permissions page
      · rw [heq]
        exact ⟨rfl, hmatched⟩
      · rw [heq]
    refine hcheck.bind ?_
    rintro _ _ ⟨rfl, hmatched⟩
    refine (spec_leaf ?_).bind ?_
    · exact fun _ _ => rfl
    rintro _ _ ⟨rfl, -, hencodable⟩
    exact Edit.spec_pure ⟨rfl, hmatched, hencodable⟩
  · rintro _ _ ⟨rfl, hpages⟩
    refine (rewrite_loop (.refl _ _) (fun page hmem => (hpages page hmem).1)
      (fun page hmem => (hpages page hmem).2) (pageList_frames m)).mono ?_
      fun _ _ hfalse => hfalse.elim
    exact fun _ _ hdone => ⟨hpages, hdone⟩

/-- `unmap_exact` changes nothing if the range is not mapped as expected. -/
theorem unmapExact_of_not_matched {m : Mapping}
    (h : ¬ ∀ page ∈ m.pageList, Matched s root m.permissions page) :
    Edit.Spec s (unmapExact root m) (fun _ _ => False) (fun _ s' => s' = s) := by
  rw [unmapExact_eq]
  refine (Edit.spec_forEach_check (Q := Matched s root m.permissions) fun page _ => ?_).bind ?_
  · unfold Edit.Spec
    obtain ⟨hmatched, heq⟩ | ⟨-, e, heq⟩ := matchLeaf_cases s root m.permissions page
    · rw [heq]
      exact ⟨rfl, hmatched⟩
    · rw [heq]
  · exact fun _ _ hall => absurd hall.2 h

/-- If the range is mapped as expected, `unmap_exact` clears it. -/
theorem unmapExact_of_matched {m : Mapping}
    (h : ∀ page ∈ m.pageList, Matched s root m.permissions page) :
    Edit.Spec s (unmapExact root m)
      (fun _ s' => m.pageList.Pairwise (Apart s root) ∧
        Rewritten s root m.pageList (fun _ _ => 0) s')
      (fun _ s' => ¬ m.pageList.Pairwise (Apart s root) ∧ ∃ cleared ≠ [],
        (∀ page ∈ cleared, page ∈ m.pageList) ∧ Rewritten s root cleared (fun _ _ => 0) s') := by
  rw [unmapExact_eq]
  have hcheck : Edit.Spec s
      (Edit.forEach m.pageList fun page => matchLeaf root m.permissions page.1 page.2)
      (fun _ s' => s' = s) (fun _ _ => False) := by
    refine Edit.spec_forEach (I := fun rest s' => s' = s ∧ ∀ page ∈ rest,
      Matched s root m.permissions page) ⟨rfl, h⟩ ?_ |>.mono (fun _ _ hend => hend.1)
      fun _ _ hfalse => hfalse
    rintro page rest _ ⟨rfl, hrest⟩
    obtain ⟨-, heq⟩ | ⟨hnot, -⟩ := matchLeaf_cases (S := S) _ root m.permissions page
    · unfold Edit.Spec
      rw [heq]
      exact ⟨rfl, (List.forall_mem_cons.mp hrest).2⟩
    · exact absurd (List.forall_mem_cons.mp hrest).1 hnot
  refine (hcheck.mono (fun _ _ hsame => hsame) fun _ _ hfalse => hfalse.elim).bind ?_
  rintro _ _ rfl
  exact clear_loop (.refl _ _) h (pageList_frames m) .nil

/-- **Main theorem.** In every table, `protect` changes all of a range or nothing, and keeps the
    frames and the accessed and dirty bits. `unmap_exact` removes all of a range or nothing, unless
    the range is mapped as expected and the leaf of a page is on the way to a later one. -/
theorem exact_changes (s : S) (root : PhysAddr) (m : Mapping) :
    (∀ permissions, ExactChange s root m (protectedLeaf permissions)
        (protect root m permissions) ∧
      ∀ s', protect root m permissions s = (.ok (), s') →
        ∀ page ∈ m.pageList, ∀ slot old new, leafLocation root page.1 s = .ok slot →
          entryOf s slot = some old → entryOf s' slot = some new →
          frameOf new = frameOf old ∧ new &&& leafAccessedDirty = old &&& leafAccessedDirty) ∧
    (ExactChange s root m (fun _ _ => 0) (unmapExact root m) ↔
      ((∀ page ∈ m.pageList, Matched s root m.permissions page) →
        m.pageList.Pairwise (Apart s root))) := by
  refine ⟨fun permissions => ⟨?_, ?_⟩, ?_⟩
  · refine (protect_exact s root m permissions).mono (fun _ _ hdone => hdone.2) ?_
    rintro _ _ rfl _
    rfl
  · intro s' hok page hmem slot old new hslot hold hnew
    obtain ⟨hpages, hwritten⟩ := (protect_exact s root m permissions).of_ok hok
    obtain ⟨⟨hencodable, _, _, hok', hentry, hmatch⟩, -⟩ := hpages page hmem
    obtain ⟨_, _, hok'', hentry', hleaf⟩ := hwritten.leaf page hmem
    obtain rfl := Except.ok.inj (hslot.symm.trans hok')
    obtain rfl := Except.ok.inj (hslot.symm.trans hok'')
    obtain rfl := Option.some.inj (hold.symm.trans hentry)
    obtain rfl := Option.some.inj (hold.symm.trans hentry')
    obtain rfl := Option.some.inj (hnew.symm.trans hleaf)
    have hframe := (valid_of_encodable hencodable).1
    obtain ⟨hclean, hdirty⟩ := protectedLeaf_fields hframe permissions old
    refine ⟨?_, hdirty⟩
    have hfirst := (leaf_fields hframe hclean).2.2
    have hsecond := (leaf_fields hframe hmatch).2.2
    rw [entryFrame, physAddr_frameBits] at hfirst hsecond
    exact (Except.ok.inj hfirst).trans (Except.ok.inj hsecond).symm
  · by_cases hmatched : ∀ page ∈ m.pageList, Matched s root m.permissions page
    · have hspec := unmapExact_of_matched hmatched
      constructor
      · intro hexact _
        by_contra hnot
        cases hrun : unmapExact root m s with
        | mk result s' =>
          cases result with
          | ok _ => exact hnot (hspec.of_ok hrun).1
          | error e =>
            obtain ⟨-, cleared, hne, hsub, hcleared⟩ := hspec.of_error hrun
            obtain ⟨page, hmem⟩ := List.exists_mem_of_ne_nil _ hne
            obtain ⟨slot, old, hslot, hold, hzero⟩ := hcleared.leaf page hmem
            obtain ⟨hencodable, _, _, hok, hentry, hmatch⟩ := hmatched page (hsub page hmem)
            obtain rfl := Except.ok.inj (hslot.symm.trans hok)
            obtain rfl := Option.some.inj (hold.symm.trans hentry)
            rw [hexact.of_error hrun, hold, Option.some_inj] at hzero
            apply (leaf_fields (valid_of_encodable hencodable).1 hmatch).1
            rw [hzero]
            rfl
      · intro hapart
        exact hspec.mono (fun _ _ hdone => hdone.2) fun _ _ hfail =>
          absurd (hapart hmatched) hfail.1
    · refine iff_of_true ?_ fun hall => absurd hall hmatched
      refine (unmapExact_of_not_matched hmatched).mono (fun _ _ hfalse => hfalse.elim) ?_
      rintro _ _ rfl _
      rfl

/-- Three tables that lead back to the first one: two of its entries are leaves, and the first of
    them leads to the second table. -/
def selfMapped : PreallocatedPageTableStore where
  base := ⟨0x100000, by decide⟩
  capacity := 3
  allocated := 3
  arena page index :=
    match page, index.val with
    | 0, 0 => PageTableEntry.leafBits ⟨0x101000, by decide⟩ ⟨true, false, true⟩
    | 0, 1 => PageTableEntry.leafBits ⟨0x102000, by decide⟩ ⟨true, false, true⟩
    | 1, 1 => PageTableEntry.tableBits ⟨0x102000, by decide⟩ true
    | 2, 0 => PageTableEntry.tableBits ⟨0x100000, by decide⟩ true
    | _, _ => 0
  fits := by decide
  allocated_le := by decide

/-- The two pages of those leaves. -/
def selfMapping : Mapping where
  virtualStart := ⟨0x40000000, by decide, by decide⟩
  physicalStart := ⟨0x101000, by decide⟩
  pages := 2
  permissions := .userReadWrite
  valid := by decide

/-- `unmap_exact` clears the first leaf and does not find the second one. -/
theorem unmapExact_not_exact : ¬ ExactChange selfMapped selfMapped.base selfMapping
    (fun _ _ => 0) (unmapExact selfMapped.base selfMapping) := by
  have hresult : (unmapExact selfMapped.base selfMapping selfMapped).1 = .error .notMapped := by
    rfl
  have hcleared : entryOf (unmapExact selfMapped.base selfMapping selfMapped).2
      (selfMapped.base, 0) = some 0 := by
    decide +kernel
  have hbefore : entryOf selfMapped (selfMapped.base, 0) ≠ some 0 := by
    decide
  intro hexact
  generalize hrun : unmapExact selfMapped.base selfMapping selfMapped = result
    at hresult hcleared
  obtain ⟨_, s'⟩ := result
  obtain rfl := hresult
  exact hbefore ((hexact.of_error hrun (selfMapped.base, 0)).symm.trans hcleared)

end PageTableBuilder

end Mrml.Arch
