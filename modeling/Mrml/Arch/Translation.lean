import Mrml.Arch.Editor
import Mrml.Common.Run

/-!
# What the hardware makes of the page tables

`walk` is the translation of an address by the four levels of tables. `Pages` is the
map from pages to frames that the calls of an editor describe.

The editor builds the tables so that the walk is that map, with two exceptions.
`protect` gives a leaf its user bit but not the tables above it, so a page of the
kernel that becomes a user page stays out of reach. `map` stops at the first page it
cannot map and leaves the pages before it mapped.

Results:
* `walk_eq_leaf`: the walk reads the leaves of the tree.
* `mapped_all_or_none`: when `map` maps all of its pages or none.
* `page_walk_refines_calls`: over every run, the walk is the map of the successful
  calls.
-/

namespace Mrml.Arch

open Mrml.Kernel PageTableStore LawfulPageTableStore

variable {S : Type} [PageTableStore S]

/-! ## The walk -/

section Walk

variable [LawfulPageTableStore S]

/-- The word that the hardware reads; there is none in a frame that is not live. -/
def entryAt (s : S) (frame : PhysAddr) (index : Fin 512) : UInt64 :=
  (table s frame).elim 0 fun contents => contents index

/-- The words on the way to the leaf of an address, from the root. -/
def entriesOf (s : S) (root : PhysAddr) (address : UInt64) : List UInt64 :=
  let pml4 := entryAt s root (pml4Index address)
  let pdpt := entryAt s (frameOf pml4) (pdptIndex address)
  let directory := entryAt s (frameOf pdpt) (directoryIndex address)
  let leaf := entryAt s (frameOf directory) (tableIndex address)
  [pml4, pdpt, directory, leaf]

/-- The leaf that the hardware reads for an address. -/
def leafEntry (s : S) (root : PhysAddr) (address : UInt64) : UInt64 :=
  (entriesOf s root address).getLastD 0

/-- The hardware walk: every word is present, the page is writable and open to user
    code if every word says so, and executable unless a word forbids it. -/
def walk (s : S) (root : PhysAddr) (address : UInt64) : Option (PhysAddr × Access) :=
  let entries := entriesOf s root address
  if entries.all fun entry => entry &&& present ≠ 0 then
    some (frameOf (leafEntry s root address),
      { writable := entries.all fun entry => entry &&& writeBit ≠ 0
        executable := entries.all fun entry => entry &&& noExecuteBit = 0
        user := entries.all fun entry => entry &&& userBit ≠ 0 })
  else none

/-- The three tables above the leaf of an address let user code pass. -/
def UpperUser (s : S) (root : PhysAddr) (address : UInt64) : Prop :=
  ((entriesOf s root address).take 3).all (fun entry => entry &&& userBit ≠ 0) = true

/-- The table at the end of a route. -/
def tableAt (s : S) (root : PhysAddr) : Route → Option PhysAddr
  | [] => some root
  | index :: p => (tableAt s root p).bind fun frame =>
    let entry := entryAt s frame index
    if entry &&& present = 0 then none else some (frameOf entry)

variable {s : S} {root frame : PhysAddr} {T : Tree} {p : Route} {index : Fin 512}
  {address : UInt64}

namespace Represents

theorem entryAt (h : Represents s root T) (hp : T.place p = some frame) :
    entryAt s frame index = T.entry (index :: p) := by
  rw [Arch.entryAt, h.contents hp]
  rfl

theorem tableAt (h : Represents s root T) (hlen : p.length ≤ 3) :
    tableAt s root p = T.place p := by
  induction p with
  | nil => exact h.root.symm
  | cons index p ih =>
    rw [List.length_cons] at hlen
    rw [Arch.tableAt, ih (by omega)]
    cases hp : T.place p with
    | none =>
      have hnone : T.place (index :: p) = none := by
        by_contra hne
        exact T.closed hne hp
      rw [hnone]
      rfl
    | some frame =>
      simp only [Option.bind_some, h.entryAt hp]
      cases hchild : T.place (index :: p) with
      | none => rw [Tree.entry_of_none (by omega) hchild, if_pos (by decide)]
      | some child =>
        obtain ⟨hframe, hpresent, -⟩ :=
          PageTableEntry.tableBits_fields (T.inMask hchild) (T.user (index :: p))
        rw [Tree.entry_of_some (by omega) hchild, if_neg hpresent, hframe]

/-- The words on the way to a leaf whose table is there. -/
theorem entriesOf (h : Represents s root T) (hplace : T.place (route address).tail ≠ none) :
    ∃ pdpt directory table, InMask pdpt ∧ InMask directory ∧ InMask table ∧
      entriesOf s root address =
        [PageTableEntry.tableBits pdpt (T.user [pml4Index address]),
          PageTableEntry.tableBits directory (T.user [pdptIndex address, pml4Index address]),
          PageTableEntry.tableBits table
            (T.user [directoryIndex address, pdptIndex address, pml4Index address]),
          Tree.leafWord (T.leaf (route address))] := by
  obtain ⟨table, hthree⟩ := Option.ne_none_iff_exists'.mp hplace
  obtain ⟨directory, htwo⟩ := Option.ne_none_iff_exists'.mp
    (T.closed (hthree ▸ Option.some_ne_none _))
  obtain ⟨pdpt, hone⟩ := Option.ne_none_iff_exists'.mp (T.closed (htwo ▸ Option.some_ne_none _))
  have hone' := T.inMask hone
  have htwo' := T.inMask htwo
  have hthree' := T.inMask hthree
  refine ⟨pdpt, directory, table, hone', htwo', hthree', ?_⟩
  unfold Arch.entriesOf
  simp only
  rw [h.entryAt h.root, Tree.entry_of_some (by simp) hone,
    (PageTableEntry.tableBits_fields hone' _).1, h.entryAt hone, Tree.entry_of_some (by simp) htwo,
    (PageTableEntry.tableBits_fields htwo' _).1, h.entryAt htwo,
    Tree.entry_of_some (by simp) hthree, (PageTableEntry.tableBits_fields hthree' _).1,
    h.entryAt hthree, Tree.entry_leaf rfl]
  rfl

/-- Without a table the walk ends at a word that is not present. -/
theorem walk_of_place_none (h : Represents s root T) (hplace : T.place (route address).tail = none) :
    walk s root address = none := by
  rw [walk, if_neg]
  intro hpresent
  simp only [Arch.entriesOf, List.all_cons, List.all_nil, Bool.and_eq_true, decide_eq_true_iff]
    at hpresent
  obtain ⟨h₁, h₂, h₃, -⟩ := hpresent
  -- every present word leads to a table of the tree
  have hstep {p : Route} {frame : PhysAddr} {index : Fin 512} (hp : T.place p = some frame)
      (hlen : p.length < 3) (hentry : Arch.entryAt s frame index &&& present ≠ 0) :
      T.place (index :: p) = some (frameOf (Arch.entryAt s frame index)) := by
    rw [h.entryAt hp] at hentry ⊢
    cases hchild : T.place (index :: p) with
    | none =>
      rw [Tree.entry_of_none hlen hchild] at hentry
      exact absurd rfl hentry
    | some child =>
      rw [Tree.entry_of_some hlen hchild,
        (PageTableEntry.tableBits_fields (T.inMask hchild) _).1]
  have hone := hstep h.root (by simp) h₁
  have htwo := hstep hone (by simp) h₂
  have hthree := hstep htwo (by simp) h₃
  have hnone : T.place [directoryIndex address, pdptIndex address, pml4Index address] = none :=
    hplace
  rw [hnone] at hthree
  cases hthree

/-- The walk reads the leaves of the tree. -/
theorem walk_eq_leaf (h : Represents s root T) (huser : T.UserClosed) (address : UInt64) :
    walk s root address = T.leaf (route address) := by
  by_cases hplace : T.place (route address).tail = none
  · have hleaf : T.leaf (route address) = none := by
      by_contra hne
      exact (T.leaf_place hne).2 hplace
    rw [h.walk_of_place_none hplace, hleaf]
  · obtain ⟨pdpt, directory, table, hone, htwo, hthree, hentries⟩ := h.entriesOf hplace
    obtain ⟨-, hpresent₁, -, -, hwrite₁, huser₁, hexec₁⟩ :=
      PageTableEntry.tableBits_fields hone (T.user [pml4Index address])
    obtain ⟨-, hpresent₂, -, -, hwrite₂, huser₂, hexec₂⟩ :=
      PageTableEntry.tableBits_fields htwo (T.user [pdptIndex address, pml4Index address])
    obtain ⟨-, hpresent₃, -, -, hwrite₃, huser₃, hexec₃⟩ :=
      PageTableEntry.tableBits_fields hthree
        (T.user [directoryIndex address, pdptIndex address, pml4Index address])
    rw [walk, leafEntry, hentries]
    simp only [List.all_cons, List.all_nil, Bool.and_eq_true, decide_eq_true_iff, and_true,
      List.getLastD_cons, List.getLastD_nil]
    cases hleaf : T.leaf (route address) with
    | none =>
      rw [if_neg]
      rintro ⟨-, -, -, hword⟩
      exact hword rfl
    | some value =>
      obtain ⟨frame, access⟩ := value
      obtain ⟨hframe, hpresent₄, -, hwrite₄, hexec₄, huser₄⟩ :=
        PageTableEntry.leafBits_fields (T.leaf_valid hleaf).1 access
      rw [Tree.leafWord, if_pos ⟨hpresent₁, hpresent₂, hpresent₃, hpresent₄⟩, hframe]
      congr 2
      refine Access.ext ?_ ?_ ?_
      · rw [Bool.eq_iff_iff]
        simp only [Bool.and_eq_true, decide_eq_true_iff, hwrite₄, and_true]
        exact ⟨fun hall => hall.2.2.2, fun hw => ⟨hwrite₁, hwrite₂, hwrite₃, hw⟩⟩
      · rw [Bool.eq_iff_iff]
        simp only [Bool.and_eq_true, decide_eq_true_iff, hexec₄, and_true]
        exact ⟨fun hall => hall.2.2.2, fun hx => ⟨hexec₁, hexec₂, hexec₃, hx⟩⟩
      · rw [Bool.eq_iff_iff]
        simp only [Bool.and_eq_true, decide_eq_true_iff, huser₁, huser₂, huser₃, huser₄, and_true]
        refine ⟨fun hall => hall.2.2.2, fun hu => ?_⟩
        obtain ⟨h₃, h₂, h₁, -⟩ := huser _ frame access hleaf hu
        exact ⟨h₁, h₂, h₃, hu⟩

/-- User code passes the tables above a leaf exactly if their words say so. -/
theorem granted_of_upperUser (h : Represents s root T)
    (hplace : T.place (route address).tail ≠ none) (hupper : UpperUser s root address) :
    T.Granted (route address).tail := by
  obtain ⟨pdpt, directory, table, hone, htwo, hthree, hentries⟩ := h.entriesOf hplace
  rw [UpperUser, hentries] at hupper
  simp only [List.take_succ_cons, List.take_zero, List.all_cons, List.all_nil, Bool.and_eq_true,
    decide_eq_true_iff, and_true] at hupper
  obtain ⟨h₁, h₂, h₃⟩ := hupper
  exact ⟨(PageTableEntry.tableBits_fields hthree _).2.2.2.2.2.1.mp h₃,
    (PageTableEntry.tableBits_fields htwo _).2.2.2.2.2.1.mp h₂,
    (PageTableEntry.tableBits_fields hone _).2.2.2.2.2.1.mp h₁, trivial⟩

/-- No leaf is writable and executable. -/
theorem leafEntry_not_wx (h : Represents s root T)
    (hpresent : ∀ entry ∈ Arch.entriesOf s root address, entry &&& present ≠ 0) :
    ¬ (leafEntry s root address &&& writeBit ≠ 0 ∧
      leafEntry s root address &&& noExecuteBit = 0) := by
  have hplace : T.place (route address).tail ≠ none := by
    intro hnone
    have hwalk := h.walk_of_place_none hnone
    rw [walk, if_pos (List.all_eq_true.mpr fun entry hentry =>
      decide_eq_true (hpresent entry hentry))] at hwalk
    cases hwalk
  obtain ⟨pdpt, directory, table, -, -, -, hentries⟩ := h.entriesOf hplace
  have hword : leafEntry s root address = Tree.leafWord (T.leaf (route address)) := by
    rw [leafEntry, hentries]
    rfl
  rw [hword]
  cases hleaf : T.leaf (route address) with
  | none => exact fun hwx => hwx.1 rfl
  | some value =>
    obtain ⟨hmask, hwx⟩ := T.leaf_valid hleaf
    obtain ⟨-, -, -, hwrite, hexec, -⟩ := PageTableEntry.leafBits_fields hmask value.2
    rintro ⟨hw, hx⟩
    rw [Tree.leafWord] at hw hx
    rw [hwrite.mp hw, hexec.mp hx] at hwx
    cases hwx

end Represents

end Walk

/-! ## Calls and the map they describe -/

/-- The calls on an editor. -/
inductive PageCall
  | map (mapping : Mapping)
  | mapPage (virtualAddress : VirtAddr) (physicalAddress : PhysAddr) (permissions : PagePermissions)
  | protect (expected : Mapping) (finalPermissions : PagePermissions)
  | unmapExact (expected : Mapping)

/-- Which frame a page has, and with which access. -/
abbrev Pages := VirtAddr → Option (PhysAddr × Access)

namespace PageCall

/-- The operation that a call runs. -/
def exec (root : PhysAddr) : PageCall → Edit PageTableBuildError S Unit
  | map m => PageTableBuilder.map root m
  | mapPage v physicalAddress permissions =>
    PageTableBuilder.mapPage root v physicalAddress permissions
  | protect m permissions => PageTableBuilder.protect root m permissions
  | unmapExact m => PageTableBuilder.unmapExact root m

/-- What a successful call does to the map. -/
def apply (pages : Pages) : PageCall → Pages
  | map m => updateAll pages Prod.fst (fun page => some (page.2, m.permissions.access)) m.pageList
  | mapPage v physicalAddress permissions =>
    Function.update pages v (some (physicalAddress, permissions.access))
  | protect m permissions =>
    updateAll pages Prod.fst (fun page => some (page.2, permissions.access)) m.pageList
  | unmapExact m => updateAll pages Prod.fst (fun _ => none) m.pageList

/-- The pages that a loop of `map_page` calls maps before one of them fails. -/
def mapped (root : PhysAddr) (permissions : PagePermissions) :
    List (VirtAddr × PhysAddr) → S → List (VirtAddr × PhysAddr)
  | [], _ => []
  | page :: pages, s =>
    match PageTableBuilder.mapPage root page.1 page.2 permissions s with
    | (.ok _, s') => page :: mapped root permissions pages s'
    | (.error _, _) => []

/-- The call itself, if it succeeds. -/
def whole (root : PhysAddr) (s : S) (call : PageCall) : List PageCall :=
  match (call.exec root s).1 with
  | .ok _ => [call]
  | .error _ => []

/-- The successful calls, with those that `map` makes of `map_page` in its place. -/
def single (root : PhysAddr) (s : S) : PageCall → List PageCall
  | map m => (mapped root m.permissions m.pageList s).map fun page =>
      mapPage page.1 page.2 m.permissions
  | call => whole root s call

/-- A store and the map that the calls made so far describe; `counted` says which
    calls count. -/
def step (root : PhysAddr) (counted : PhysAddr → S → PageCall → List PageCall) (state : S × Pages)
    (call : PageCall) : S × Pages :=
  ((call.exec root state.1).2, (counted root state.1 call).foldl apply state.2)

end PageCall

/-! ## Conditions on the state before a call -/

section Conditions

variable [LawfulPageTableStore S]

/-- The tables missing above the leaves of some pages. -/
def missingTables (s : S) (root : PhysAddr) (pages : List (VirtAddr × PhysAddr)) : ℕ :=
  ((pages.flatMap fun page => tablesOn page.1.address).toFinset.filter
    fun q => tableAt s root q = none).card

/-- A `protect` that goes through opens pages to user code only below tables that are
    open to it. -/
def ProtectReady (root : PhysAddr) (s : S) : PageCall → Prop
  | .protect m permissions => permissions.user = true →
    (permissions.writable && permissions.executable) = false →
    (∀ page ∈ m.pageList, leafEntry s root page.1.address =
      PageTableEntry.leafBits page.2 m.permissions.access) →
    ∀ page ∈ m.pageList, UpperUser s root page.1.address
  | _ => True

/-- A `map` has one page, or cannot map its first page (its permissions cannot be
    encoded, the page is mapped, or the store refuses the tables), or can map all of
    them (none is mapped and the store supplies the missing tables). -/
def MapReady (root : PhysAddr) (s : S) : PageCall → Prop
  | .map m => m.pages = 1 ∨ (m.permissions.writable && m.permissions.executable) = true ∨
    (∃ page ∈ m.pageList.head?, walk s root page.1.address ≠ none ∨
      Refuses (missingTables s root [page]) s) ∨
    ((∀ page ∈ m.pageList, walk s root page.1.address = none) ∧
      Supplies (missingTables s root m.pageList) s)
  | _ => True

end Conditions

/-! ## One call -/

section Step

variable [LawfulPageTableStore S] {s s' : S} {root : PhysAddr} {T T' : Tree}

/-- The map that the leaves of a tree describe. -/
def Tree.pages (T : Tree) : Pages := fun v => T.leaf (route v.address)

theorem pages_updateAll (value : VirtAddr × PhysAddr → Option (PhysAddr × Access))
    (pages : List (VirtAddr × PhysAddr))
    (h : T'.leaf = updateAll T.leaf (fun page => route page.1.address) value pages) :
    T'.pages = updateAll T.pages Prod.fst value pages := by
  have hinjective : Function.Injective fun v : VirtAddr => route v.address :=
    fun _ _ heq => route_injective heq
  have hcomp := updateAll_comp T.leaf value hinjective Prod.fst pages
  unfold Tree.pages
  rw [h]
  exact hcomp

theorem Mapped.userClosed {P : Finset Route} {address : UInt64} {physicalAddress : PhysAddr}
    {permissions : PagePermissions}
    (h : Mapped P s root T address physicalAddress permissions s' T') (huser : T.UserClosed) :
    T'.UserClosed := by
  intro q frame access hleaf hu
  rw [h.leaf] at hleaf
  by_cases hq : q = route address
  · rw [hq, Function.update_self, Option.some_inj, Prod.mk.injEq] at hleaf
    rw [← hleaf.2] at hu
    rw [hq]
    exact h.granted hu
  · rw [Function.update_of_ne hq] at hleaf
    exact (huser q frame access hleaf hu).mono h.grows.user

/-- A failed `map_page` changes no leaf. -/
theorem mapPage_error (h : Represents s root T) {v : VirtAddr} {physicalAddress : PhysAddr}
    {permissions : PagePermissions} {e : PageTableBuildError}
    (herror : PageTableBuilder.mapPage root v physicalAddress permissions s = (.error e, s')) :
    ∃ T', Represents s' root T' ∧ (T.UserClosed → T'.UserClosed) ∧ T'.leaf = T.leaf := by
  obtain ⟨T', hrep, hleaf, hmono, -⟩ := (mapPage_spec (P := (tablesOn v.address).toFinset) h v
    physicalAddress permissions fun _ hq => List.mem_toFinset.mpr hq).of_error herror
  refine ⟨T', hrep, fun huser q frame access hq hu => ?_, hleaf⟩
  rw [hleaf] at hq
  exact (huser q frame access hq hu).mono hmono

theorem mapPage_ok (h : Represents s root T) {v : VirtAddr} {physicalAddress : PhysAddr}
    {permissions : PagePermissions}
    (hok : PageTableBuilder.mapPage root v physicalAddress permissions s = (.ok (), s')) :
    ∃ T', Mapped (tablesOn v.address).toFinset s root T v.address physicalAddress permissions
      s' T' :=
  (mapPage_spec h v physicalAddress permissions fun _ hq => List.mem_toFinset.mpr hq).of_ok hok

/-- The loop of `map`, whether or not it reaches the last page. -/
theorem mapLoop_tree (h : Represents s root T) (permissions : PagePermissions)
    (pages : List (VirtAddr × PhysAddr)) :
    ∃ T', Represents (Edit.forEach pages
        (fun page => PageTableBuilder.mapPage root page.1 page.2 permissions) s).2 root T' ∧
      (T.UserClosed → T'.UserClosed) ∧
      T'.leaf = updateAll T.leaf (fun page => route page.1.address)
        (fun page => some (page.2, permissions.access))
        (PageCall.mapped root permissions pages s) := by
  induction pages generalizing s T with
  | nil => exact ⟨T, h, id, rfl⟩
  | cons page pages ih =>
    rw [Edit.forEach, Edit.bind_eq, PageCall.mapped]
    cases hmap : PageTableBuilder.mapPage root page.1 page.2 permissions s with
    | mk result s' =>
      cases result with
      | ok _ =>
        obtain ⟨T', h'⟩ := mapPage_ok h hmap
        obtain ⟨T'', hrep, huser, hleaf⟩ := ih h'.represents
        refine ⟨T'', hrep, fun hu => huser (h'.userClosed hu), ?_⟩
        rw [hleaf, h'.leaf, updateAll_cons]
      | error e => exact mapPage_error h hmap

theorem foldl_apply_mapPage (pages : Pages) (permissions : PagePermissions)
    (list : List (VirtAddr × PhysAddr)) :
    (list.map fun page => PageCall.mapPage page.1 page.2 permissions).foldl PageCall.apply pages =
      updateAll pages Prod.fst (fun page => some (page.2, permissions.access)) list := by
  induction list generalizing pages with
  | nil => rfl
  | cons page list ih => exact ih _

/-- Leaves that replace others keep the tree open to user code. -/
theorem Relabelled.userClosed {value : VirtAddr × PhysAddr → Option (PhysAddr × Access)}
    {pages : List (VirtAddr × PhysAddr)}
    (h : Relabelled root T (updateAll T.leaf (fun page => route page.1.address) value pages) s' T')
    (huser : T.UserClosed)
    (hvalue : ∀ page ∈ pages, ∀ frame access, value page = some (frame, access) →
      access.user = true → T.Granted (route page.1.address).tail) : T'.UserClosed := by
  intro q frame access hleaf hu
  refine Tree.Granted.mono (T := T) (fun p hp => h.user ▸ hp) ?_
  rw [h.leaf] at hleaf
  rcases updateAll_cases T.leaf (fun page => route page.1.address) value pages q with
    hold | ⟨page, hmem, hkey, hnew⟩
  · exact huser q frame access (hold ▸ hleaf) hu
  · rw [hnew] at hleaf
    exact hkey ▸ hvalue page hmem frame access hleaf hu

/-- What one call does to the tree. -/
theorem exec_tree (h : Represents s root T) (call : PageCall) :
    ∃ T', Represents (call.exec root s).2 root T' ∧
      (ProtectReady root s call → T.UserClosed → T'.UserClosed) ∧
      T'.pages = (PageCall.single root s call).foldl PageCall.apply T.pages := by
  cases call with
  | map m =>
    rw [PageCall.exec, PageTableBuilder.map_eq, PageCall.single, foldl_apply_mapPage]
    obtain ⟨T', hrep, huser, hleaf⟩ := mapLoop_tree h m.permissions m.pageList
    exact ⟨T', hrep, fun _ => huser, pages_updateAll _ _ hleaf⟩
  | mapPage v physicalAddress permissions =>
    simp only [PageCall.single, PageCall.whole, PageCall.exec]
    cases hmap : PageTableBuilder.mapPage root v physicalAddress permissions s with
    | mk result s' =>
      cases result with
      | ok _ =>
        obtain ⟨T', h'⟩ := mapPage_ok h hmap
        refine ⟨T', h'.represents, fun _ => h'.userClosed, ?_⟩
        exact pages_updateAll (fun page => some (page.2, permissions.access))
          [(v, physicalAddress)] h'.leaf
      | error e =>
        obtain ⟨T', hrep, huser, hleaf⟩ := mapPage_error h hmap
        exact ⟨T', hrep, fun _ => huser, pages_updateAll (fun _ => none) [] hleaf⟩
  | protect m permissions =>
    have hspec := protect_spec h m permissions
    simp only [PageCall.single, PageCall.whole, PageCall.exec]
    cases hprotect : PageTableBuilder.protect root m permissions s with
    | mk result s' =>
      cases result with
      | ok _ =>
        obtain ⟨hpages, T', h'⟩ := hspec.of_ok hprotect
        refine ⟨T', h'.represents, fun hready huser => h'.userClosed huser ?_,
          pages_updateAll _ _ h'.leaf⟩
        rintro page hmem frame access ⟨⟩ hu
        have hplace (page) (hmem : page ∈ m.pageList) :
            T.place (route page.1.address).tail ≠ none :=
          (T.leaf_place ((hpages page hmem).1 ▸ Option.some_ne_none _)).2
        refine h.granted_of_upperUser (hplace page hmem)
          (hready hu (valid_of_encodable (hpages page hmem).2).2 (fun page' hmem' => ?_) page hmem)
        obtain ⟨pdpt, directory, table, -, -, -, hentries⟩ := h.entriesOf (hplace page' hmem')
        rw [leafEntry, hentries, (hpages page' hmem').1]
        rfl
      | error e =>
        obtain rfl := hspec.of_error hprotect
        exact ⟨T, h, fun _ => id, rfl⟩
  | unmapExact m =>
    have hspec := unmapExact_spec h m
    simp only [PageCall.single, PageCall.whole, PageCall.exec]
    cases hunmap : PageTableBuilder.unmapExact root m s with
    | mk result s' =>
      cases result with
      | ok _ =>
        obtain ⟨T', h'⟩ := hspec.of_ok hunmap
        refine ⟨T', h'.represents, fun _ huser => h'.userClosed huser ?_, pages_updateAll _ _ h'.leaf⟩
        rintro page - frame access ⟨⟩
      | error e =>
        obtain rfl := hspec.of_error hunmap
        exact ⟨T, h, fun _ => id, rfl⟩

end Step

/-! ## `map` as a whole -/

section Whole

variable [LawfulPageTableStore S] {s s' : S} {root : PhysAddr} {T T' : Tree}
  {permissions : PagePermissions}

/-- The routes of the tables above some pages. -/
def tablesOf (pages : List (VirtAddr × PhysAddr)) : Finset Route :=
  (pages.flatMap fun page => tablesOn page.1.address).toFinset

theorem mem_tablesOf {pages : List (VirtAddr × PhysAddr)} {page : VirtAddr × PhysAddr}
    (hpage : page ∈ pages) {q : Route} (hq : q ∈ tablesOn page.1.address) : q ∈ tablesOf pages :=
  List.mem_toFinset.mpr (List.mem_flatMap.mpr ⟨page, hpage, hq⟩)

theorem missingTables_eq (h : Represents s root T) (pages : List (VirtAddr × PhysAddr)) :
    missingTables s root pages = (T.missing (tablesOf pages)).card := by
  unfold missingTables Tree.missing tablesOf
  congr 1
  refine Finset.filter_congr fun q hq => ?_
  obtain ⟨page, -, hroute⟩ := List.mem_flatMap.mp (List.mem_toFinset.mp hq)
  have hlen : q.length ≤ 3 := by
    simp only [tablesOn, List.mem_cons, List.not_mem_nil, or_false] at hroute
    rcases hroute with rfl | rfl | rfl <;> simp
  rw [h.tableAt hlen]

omit [LawfulPageTableStore S] in
theorem Supplies.of_grows {P : Finset Route} (h : Supplies (T.missing P).card s)
    (hgrows : Grows P s T s' T') : Supplies (T'.missing P).card s' := by
  obtain ⟨k, hk, hcard⟩ := hgrows.draws
  exact fun k' s'' hlt hk' => h (k + k') s'' (by omega) (hk.trans hk')

/-- With enough frames every page is mapped. -/
theorem mapped_of_supplies (h : Represents s root T) {P : Finset Route}
    {pages : List (VirtAddr × PhysAddr)}
    (hP : ∀ page ∈ pages, ∀ q ∈ tablesOn page.1.address, q ∈ P)
    (hunmapped : ∀ page ∈ pages, T.leaf (route page.1.address) = none)
    (hnodup : (pages.map Prod.fst).Nodup)
    (hencodable : ∀ page ∈ pages, ¬ Unencodable page.2 permissions)
    (hsupplies : Supplies (T.missing P).card s) :
    PageCall.mapped root permissions pages s = pages := by
  induction pages generalizing s T with
  | nil => rfl
  | cons page pages ih =>
    obtain ⟨hPpage, hPpages⟩ := List.forall_mem_cons.mp hP
    obtain ⟨hfree, hfrees⟩ := List.forall_mem_cons.mp hunmapped
    obtain ⟨hcode, hcodes⟩ := List.forall_mem_cons.mp hencodable
    rw [List.map_cons, List.nodup_cons] at hnodup
    have hspec := mapPage_spec h page.1 page.2 permissions hPpage
    rw [PageCall.mapped]
    cases hmap : PageTableBuilder.mapPage root page.1 page.2 permissions s with
    | mk result s' =>
      cases result with
      | ok _ =>
        obtain ⟨T', h'⟩ := hspec.of_ok hmap
        refine congrArg (page :: ·) (ih h'.represents hPpages (fun other hother => ?_) hnodup.2
          hcodes (hsupplies.of_grows h'.grows))
        rw [h'.leaf, Function.update_of_ne, hfrees other hother]
        intro heq
        exact hnodup.1 (List.mem_map.mpr ⟨other, hother, route_injective heq⟩)
      | error e =>
        obtain ⟨-, -, -, -, hmapped | hcode' | hstuck⟩ := hspec.of_error hmap
        · exact absurd hfree hmapped
        · exact absurd hcode' hcode
        · obtain ⟨k, s'', hk, hlt, hnot⟩ := hstuck
          exact absurd (hsupplies k s'' hlt hk) hnot

/-- What a page that can be mapped requires. -/
theorem mapped_cons_eq_nil (h : Represents s root T) {page : VirtAddr × PhysAddr}
    {pages : List (VirtAddr × PhysAddr)}
    (hbad : Unencodable page.2 permissions ∨ T.leaf (route page.1.address) ≠ none ∨
      Refuses (missingTables s root [page]) s) :
    PageCall.mapped root permissions (page :: pages) s = [] := by
  rw [PageCall.mapped]
  cases hmap : PageTableBuilder.mapPage root page.1 page.2 permissions s with
  | mk result s' =>
    cases result with
    | error e => rfl
    | ok _ =>
      exfalso
      have htables : ∀ q ∈ tablesOn page.1.address, q ∈ tablesOf [page] := fun q hq =>
        mem_tablesOf List.mem_cons_self hq
      obtain ⟨T', h'⟩ := (mapPage_spec h page.1 page.2 permissions htables).of_ok hmap
      rcases hbad with hbad | hbad | hbad
      · exact h'.encodable hbad
      · exact hbad h'.unmapped
      · obtain ⟨k, hk, hcard⟩ := h'.grows.draws
        have hempty : T'.missing (tablesOf [page]) = ∅ := by
          refine Finset.filter_eq_empty_iff.mpr fun q hq => h'.place q ?_
          simpa [tablesOf] using hq
        rw [hempty, Finset.card_empty, add_zero] at hcard
        rw [missingTables_eq h, ← hcard] at hbad
        exact hbad s' hk

theorem pageList_nodup (m : Mapping) : (m.pageList.map Prod.fst).Nodup := by
  rw [Mapping.pageList, List.map_map]
  refine (List.nodup_finRange _).map fun j k heq => ?_
  have hpage : m.virtualPage j.val j.isLt = m.virtualPage k.val k.isLt := heq
  exact Fin.ext (m.virtualPage_inj hpage)

theorem encodable_of_mem {m : Mapping}
    (hwx : (m.permissions.writable && m.permissions.executable) = false)
    {page : VirtAddr × PhysAddr} (hpage : page ∈ m.pageList) :
    ¬ Unencodable page.2 m.permissions := by
  rw [Mapping.pageList, List.mem_map] at hpage
  obtain ⟨k, -, rfl⟩ := hpage
  exact not_or.mpr ⟨UInt64.not_lt.mpr (m.physicalPage_le k.val k.isLt), by simp [hwx]⟩

/-- `map` maps all of its pages or none, if its condition holds. -/
theorem mapped_all_or_none (h : Represents s root T) (huser : T.UserClosed) {m : Mapping}
    (hready : MapReady root s (.map m)) :
    PageCall.mapped root m.permissions m.pageList s = m.pageList ∨
      PageCall.mapped root m.permissions m.pageList s = [] := by
  obtain ⟨first, rest, hlist⟩ : ∃ first rest, m.pageList = first :: rest := by
    refine List.exists_cons_of_ne_nil fun hnil => ?_
    have hlength := congrArg List.length hnil
    rw [Mapping.pageList, List.length_map, List.length_finRange, List.length_nil] at hlength
    exact m.bounds.1.ne' hlength
  by_cases hwx : (m.permissions.writable && m.permissions.executable) = true
  · rw [hlist]
    exact .inr (mapped_cons_eq_nil h (.inl (.inr hwx)))
  rw [Bool.not_eq_true] at hwx
  rcases hready with hone | hwx' | ⟨page, hpage, hbad⟩ | ⟨hfree, hsupplies⟩
  · have hrest : rest = [] := by
      have hlength := congrArg List.length hlist
      rw [Mapping.pageList, List.length_map, List.length_finRange, hone, List.length_cons]
        at hlength
      exact List.length_eq_zero_iff.mp (Nat.succ.inj hlength).symm
    rw [hlist, hrest, PageCall.mapped]
    split
    · exact .inl rfl
    · exact .inr rfl
  · rw [hwx] at hwx'
    cases hwx'
  · rw [hlist, List.head?_cons, Option.mem_some] at hpage
    subst hpage
    rw [hlist]
    rw [h.walk_eq_leaf huser] at hbad
    exact .inr (mapped_cons_eq_nil h (.inr hbad))
  · refine .inl (mapped_of_supplies h (fun page hpage q hq => mem_tablesOf hpage hq)
      (fun page hpage => ?_) (pageList_nodup m) (fun page hpage => encodable_of_mem hwx hpage) ?_)
    · rw [← h.walk_eq_leaf huser]
      exact hfree page hpage
    · rwa [← missingTables_eq h]

omit [LawfulPageTableStore S] in
/-- `map` succeeds exactly if it maps every page. -/
theorem mapLoop_ok_iff (root : PhysAddr) (permissions : PagePermissions)
    (pages : List (VirtAddr × PhysAddr)) (s : S) :
    (Edit.forEach pages (fun page => PageTableBuilder.mapPage root page.1 page.2 permissions) s).1 =
      .ok () ↔ PageCall.mapped root permissions pages s = pages := by
  induction pages generalizing s with
  | nil => exact iff_of_true rfl rfl
  | cons page pages ih =>
    rw [Edit.forEach, Edit.bind_eq, PageCall.mapped]
    cases PageTableBuilder.mapPage root page.1 page.2 permissions s with
    | mk result s' =>
      cases result with
      | ok _ =>
        rw [List.cons.injEq, eq_self, true_and]
        exact ih s'
      | error e => exact iff_of_false (by simp) (by simp)

/-- Under the condition on `map`, counting its pages is counting the call. -/
theorem whole_eq_single (h : Represents s root T) (huser : T.UserClosed) {call : PageCall}
    (hready : MapReady root s call) (pages : Pages) :
    (PageCall.whole root s call).foldl PageCall.apply pages =
      (PageCall.single root s call).foldl PageCall.apply pages := by
  cases call with
  | map m =>
    have hok := mapLoop_ok_iff root m.permissions m.pageList s
    rw [PageCall.single, PageCall.whole, PageCall.exec, PageTableBuilder.map_eq,
      foldl_apply_mapPage]
    rcases mapped_all_or_none h huser hready with hall | hnone
    · rw [hok.mpr hall, hall]
      rfl
    · rw [hnone]
      split
      · next heq =>
        have hnil : m.pageList = [] := (hok.mp heq).symm.trans hnone
        show updateAll pages Prod.fst _ m.pageList = _
        rw [hnil]
      · rfl
  | mapPage v physicalAddress permissions => rfl
  | protect m permissions => rfl
  | unmapExact m => rfl

end Whole

/-! ## Runs -/

section Runs

variable [LawfulPageTableStore S] {s : S} {root : PhysAddr}

/-- The store after some calls. -/
def storeAfter (root : PhysAddr) (s : S) (calls : List PageCall) : S :=
  run (fun s call => (call.exec root s).2) s calls

/-- The map after some calls, from an empty one. -/
def pagesAfter (root : PhysAddr) (counted : PhysAddr → S → PageCall → List PageCall) (s : S)
    (calls : List PageCall) : Pages :=
  (run (PageCall.step root counted) (s, fun _ => none) calls).2

/-- The tables of a run are a tree. -/
theorem storeAfter_represents {T : Tree} (h : Represents s root T) (calls : List PageCall) :
    ∃ T', Represents (storeAfter root s calls) root T' :=
  run_invariant (P := fun s => ∃ T, Represents s root T)
    (fun _ call ⟨_, h⟩ => let ⟨T', h', _⟩ := exec_tree h call; ⟨T', h'⟩) ⟨T, h⟩ calls

/-- The tree of a run whose `protect` calls are all ready describes the calls. -/
theorem run_tree {T : Tree} (h : Represents s root T) (huser : T.UserClosed)
    {calls : List PageCall}
    (hready : Along (fun s call => (PageCall.exec root call s).2) (ProtectReady root) s calls) :
    ∃ T', Represents (storeAfter root s calls) root T' ∧ T'.UserClosed ∧
      T'.pages = (run (PageCall.step root PageCall.single) (s, T.pages) calls).2 := by
  induction calls generalizing s T with
  | nil => exact ⟨T, h, huser, rfl⟩
  | cons call calls ih =>
    obtain ⟨hcall, hcalls⟩ := hready
    obtain ⟨T', h', huser', hpages⟩ := exec_tree h call
    obtain ⟨T'', h'', huser'', hpages'⟩ := ih h' (huser' hcall huser) hcalls
    refine ⟨T'', h'', huser'', ?_⟩
    rw [hpages', hpages]
    rfl

/-- If every `map` is ready too, it does not matter whether its pages count one by one. -/
theorem run_whole_eq_single {T : Tree} (h : Represents s root T) (huser : T.UserClosed)
    {calls : List PageCall}
    (hready : Along (fun s call => (PageCall.exec root call s).2) (ProtectReady root) s calls)
    (hmap : Along (fun s call => (PageCall.exec root call s).2) (MapReady root) s calls)
    (pages : Pages) :
    run (PageCall.step root PageCall.whole) (s, pages) calls =
      run (PageCall.step root PageCall.single) (s, pages) calls := by
  induction calls generalizing s T pages with
  | nil => rfl
  | cons call calls ih =>
    obtain ⟨hcall, hcalls⟩ := hready
    obtain ⟨hmap, hmaps⟩ := hmap
    obtain ⟨T', h', huser', -⟩ := exec_tree h call
    rw [run_cons, run_cons, PageCall.step, whole_eq_single h huser hmap]
    exact ih h' (huser' hcall huser) hcalls hmaps _

theorem bare_userClosed (root : PhysAddr) : (Tree.bare root).UserClosed := by
  rintro q frame access ⟨⟩

/-- **Main theorem.** In a run from a new editor no leaf is ever writable and
    executable. If every `protect` of the run is ready, then for every canonical address
    the walk is the map of the successful calls, those that `map` makes of `map_page`
    included, and a failed `map_page` changes no translation. If every `map` is ready
    too, the walk is the map of the successful calls of the run. -/
theorem page_walk_refines_calls {store s₀ : S}
    (hnew : PageTableBuilder.new store = (.ok root, s₀)) (calls : List PageCall) :
    (∀ address, (∀ entry ∈ entriesOf (storeAfter root s₀ calls) root address,
        entry &&& present ≠ 0) →
      ¬ (leafEntry (storeAfter root s₀ calls) root address &&& writeBit ≠ 0 ∧
        leafEntry (storeAfter root s₀ calls) root address &&& noExecuteBit = 0)) ∧
    (Along (fun s call => (PageCall.exec root call s).2) (ProtectReady root) s₀ calls →
      (∀ address (h : IsCanonical address), walk (storeAfter root s₀ calls) root address =
        pagesAfter root PageCall.single s₀ calls (pageOf address h)) ∧
      (∀ v physicalAddress permissions e s',
        PageTableBuilder.mapPage root v physicalAddress permissions (storeAfter root s₀ calls) =
          (.error e, s') →
        ∀ address, walk s' root address = walk (storeAfter root s₀ calls) root address) ∧
      (Along (fun s call => (PageCall.exec root call s).2) (MapReady root) s₀ calls →
        ∀ address (h : IsCanonical address), walk (storeAfter root s₀ calls) root address =
          pagesAfter root PageCall.whole s₀ calls (pageOf address h))) := by
  have hbare := Represents.new hnew
  refine ⟨fun address hpresent => ?_, fun hready => ?_⟩
  · obtain ⟨T, h⟩ := storeAfter_represents hbare calls
    exact h.leafEntry_not_wx hpresent
  obtain ⟨T, h, huser, hpages⟩ := run_tree hbare (bare_userClosed root) hready
  have hwalk : ∀ address (hc : IsCanonical address), walk (storeAfter root s₀ calls) root address =
      pagesAfter root PageCall.single s₀ calls (pageOf address hc) := by
    intro address hc
    calc walk (storeAfter root s₀ calls) root address
      _ = T.leaf (route address) := h.walk_eq_leaf huser address
      _ = T.pages (pageOf address hc) := by rw [Tree.pages, route_pageOf]
      _ = pagesAfter root PageCall.single s₀ calls (pageOf address hc) := congrFun hpages _
  refine ⟨hwalk, fun v physicalAddress permissions e s' herror address => ?_,
    fun hmap address hc => ?_⟩
  · obtain ⟨T', h', huser', hleaf⟩ := mapPage_error h herror
    rw [h.walk_eq_leaf huser, h'.walk_eq_leaf (huser' huser), hleaf]
  · rw [hwalk address hc, pagesAfter, pagesAfter,
      run_whole_eq_single hbare (bare_userClosed root) hready hmap]

end Runs

/-! ## One page over an arena of eight tables -/

theorem arena_aligned : (0x100000 : UInt64).toNat % pageSize = 0 := by decide

/-- An arena of eight pages at 1 MiB. -/
def arenaStore : PreallocatedPageTableStore :=
  ⟨⟨0x100000, arena_aligned⟩, 8, 0, fun _ _ => 0, by decide, by decide⟩

/-- The root of a new editor over `arenaStore`, the first page of the arena. -/
def arenaRoot : PhysAddr := ⟨0x100000, arena_aligned⟩

/-- The store of a new editor over `arenaStore`. -/
def arenaStart : PreallocatedPageTableStore := (PageTableBuilder.new arenaStore).2

/-- A page of the kernel at 0x8000. -/
def kernelPage : Mapping :=
  ⟨⟨0x8000, by decide, by decide⟩, ⟨0x20000, by decide⟩, 1, .kernelLowReadWrite,
    by decide +kernel⟩

/-- A user page at 0x8000. -/
def userPage : Mapping :=
  ⟨⟨0x8000, by decide, by decide⟩, ⟨0x20000, by decide⟩, 1, .userReadWrite, by decide +kernel⟩

/-- The words of a walk, one after the other. -/
theorem entriesOf_eq [LawfulPageTableStore S] {s : S} {root : PhysAddr} {address : UInt64}
    {pml4 pdpt directory leaf : UInt64} (h₄ : entryAt s root (pml4Index address) = pml4)
    (h₃ : entryAt s (frameOf pml4) (pdptIndex address) = pdpt)
    (h₂ : entryAt s (frameOf pdpt) (directoryIndex address) = directory)
    (h₁ : entryAt s (frameOf directory) (tableIndex address) = leaf) :
    entriesOf s root address = [pml4, pdpt, directory, leaf] := by
  simp only [entriesOf, h₄, h₃, h₂, h₁]

/-- A page of the kernel becomes a user page. -/
def openKernelPage : List PageCall := [.map kernelPage, .protect kernelPage .userReadWrite]

/-- A writable user page becomes executable. -/
def sealUserPage : List PageCall := [.map userPage, .protect userPage .userReadExecute]

/-- A page that `protect` turns into a user page is not reached by user code: the
    tables above it were built for the kernel. -/
theorem protect_leaves_tables_closed :
    PageTableBuilder.new arenaStore = (.ok arenaRoot, arenaStart) ∧
    pagesAfter arenaRoot PageCall.whole arenaStart openKernelPage (pageOf 0x8000 (by decide)) =
      some (⟨0x20000, by decide⟩, ⟨true, false, true⟩) ∧
    walk (storeAfter arenaRoot arenaStart openKernelPage) arenaRoot 0x8000 =
      some (⟨0x20000, by decide⟩, ⟨true, false, false⟩) := by
  refine ⟨rfl, by decide +kernel, ?_⟩
  have hentries : entriesOf (storeAfter arenaRoot arenaStart openKernelPage) arenaRoot 0x8000 =
      [0x101003, 0x102003, 0x103003, 0x8000000000020007] :=
    entriesOf_eq (by decide +kernel) (by decide +kernel) (by decide +kernel) (by decide +kernel)
  rw [walk, leafEntry, hentries]
  decide +kernel

/-- The main theorem at a run that maps a user page and makes it executable. -/
theorem page_walk_refines_calls_userPage :
    walk (storeAfter arenaRoot arenaStart sealUserPage) arenaRoot 0x8000 =
      pagesAfter arenaRoot PageCall.whole arenaStart sealUserPage (pageOf 0x8000 (by decide)) ∧
    pagesAfter arenaRoot PageCall.whole arenaStart sealUserPage (pageOf 0x8000 (by decide)) =
      some (⟨0x20000, by decide⟩, ⟨false, true, true⟩) := by
  have hnew : PageTableBuilder.new arenaStore = (.ok arenaRoot, arenaStart) := rfl
  have hpages : userPage.pageList = [(⟨0x8000, by decide, by decide⟩, ⟨0x20000, by decide⟩)] := by
    decide +kernel
  have hentries : entriesOf (PageCall.exec arenaRoot (.map userPage) arenaStart).2 arenaRoot
      0x8000 = [0x101007, 0x102007, 0x103007, 0x8000000000020007] :=
    entriesOf_eq (by decide +kernel) (by decide +kernel) (by decide +kernel) (by decide +kernel)
  have hprotect : Along (fun s call => (PageCall.exec arenaRoot call s).2) (ProtectReady arenaRoot)
      arenaStart sealUserPage := by
    refine ⟨trivial, fun _ _ _ page hpage => ?_, trivial⟩
    rw [hpages, List.mem_singleton] at hpage
    rw [hpage, UpperUser, hentries]
    decide +kernel
  have hmap : Along (fun s call => (PageCall.exec arenaRoot call s).2) (MapReady arenaRoot)
      arenaStart sealUserPage := ⟨.inl rfl, trivial, trivial⟩
  exact ⟨((page_walk_refines_calls hnew sealUserPage).2 hprotect).2.2 hmap 0x8000 (by decide),
    by decide +kernel⟩

end Mrml.Arch
