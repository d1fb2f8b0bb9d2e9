import Mrml.Arch.Tree

/-!
# What the operations of the editor do to the tree

`Draws` counts the frames that an operation takes from the store. Mapping a page fails
only if the page is mapped, its permissions or its frame cannot be encoded, or the
store runs out of frames for the missing tables.

Results:
* `descend_spec`, `mapPage_spec`: what walking down and mapping a page do to the tree,
  and when they fail.
* `protect_spec`, `unmapExact_spec`: both check every page before the first write,
  and the writes do not fail.
-/

namespace Mrml.Arch

open Mrml.Kernel PageTableStore LawfulPageTableStore

variable {S : Type} [PageTableStore S]

/-- The store can hand out a frame that fits into an entry. -/
def Available (s : S) : Prop :=
  ∃ frame s', allocateZeroed s = (.ok frame, s') ∧ frame.address ≤ maxPhysicalAddress

/-- Writes and `n` such frames lead from one store to another. -/
inductive Draws : ℕ → S → S → Prop
  | refl (s : S) : Draws 0 s s
  | write {n : ℕ} {s s' s'' : S} {frame : PhysAddr} {index : Fin 512} {value : UInt64}
      (h : Draws n s s') (hwrite : write frame index value s' = (.ok (), s'')) : Draws n s s''
  | allocate {n : ℕ} {s s' s'' : S} {frame : PhysAddr} (h : Draws n s s')
      (hallocate : allocateZeroed s' = (.ok frame, s''))
      (hframe : frame.address ≤ maxPhysicalAddress) : Draws (n + 1) s s''

theorem Draws.trans {m n : ℕ} {s s' s'' : S} (h : Draws m s s') (h' : Draws n s' s'') :
    Draws (m + n) s s'' := by
  induction h' with
  | refl => exact h
  | write _ hwrite ih => exact (ih h).write hwrite
  | allocate _ hallocate hframe ih => exact (ih h).allocate hallocate hframe

/-- The store hands out `n` frames, whatever is written in between. -/
def Supplies (n : ℕ) (s : S) : Prop := ∀ k s', k < n → Draws k s s' → Available s'

/-- The store never gets as far as handing out `n` frames. -/
def Refuses (n : ℕ) (s : S) : Prop := ∀ s', ¬ Draws n s s'

/-- The routes of `P` without a table. -/
def Tree.missing (T : Tree) (P : Finset Route) : Finset Route := P.filter fun q => T.place q = none

/-- After fewer frames than there are tables missing, the store has no more. -/
def Stuck (P : Finset Route) (s : S) (T : Tree) : Prop :=
  ∃ k s', Draws k s s' ∧ k < (T.missing P).card ∧ ¬ Available s'

/-- Tables were added on routes of `P`, one for each frame drawn. -/
structure Grows (P : Finset Route) (s : S) (T : Tree) (s' : S) (T' : Tree) : Prop where
  place : ∀ p frame, T.place p = some frame → T'.place p = some frame
  user : ∀ p, T.user p = true → T'.user p = true
  draws : ∃ k, Draws k s s' ∧ k + (T'.missing P).card = (T.missing P).card

variable {P : Finset Route} {s s' s'' : S} {T T' T'' : Tree}

namespace Grows

theorem trans (h : Grows P s T s' T') (h' : Grows P s' T' s'' T'') : Grows P s T s'' T'' := by
  obtain ⟨k, hk, hcard⟩ := h.draws
  obtain ⟨k', hk', hcard'⟩ := h'.draws
  exact ⟨fun p frame hp => h'.place p frame (h.place p frame hp),
    fun p hp => h'.user p (h.user p hp), k + k', hk.trans hk', by omega⟩

theorem stuck (h : Grows P s T s' T') (h' : Stuck P s' T') : Stuck P s T := by
  obtain ⟨k, hk, hcard⟩ := h.draws
  obtain ⟨k', s'', hk', hlt, havailable⟩ := h'
  exact ⟨k + k', s'', hk.trans hk', by omega, havailable⟩

/-- An update of the tree that keeps the tables where they are. -/
theorem of_draws (hplace : T'.place = T.place) (huser : ∀ p, T.user p = true → T'.user p = true)
    (hdraws : Draws 0 s s') : Grows P s T s' T' := by
  refine ⟨fun p frame hp => hplace ▸ hp, huser, 0, hdraws, ?_⟩
  rw [Tree.missing, Tree.missing, hplace, zero_add]

end Grows

variable [LawfulPageTableStore S] {root frame : PhysAddr} {p : Route} {index : Fin 512}
  {user : Bool}

/-! ## Words of the tree -/

namespace Tree

theorem entry_of_none (hlen : p.length < 3) (hplace : T.place (index :: p) = none) :
    T.entry (index :: p) = 0 := by
  rw [entry, if_pos (by rw [List.length_cons]; omega), hplace]

theorem entry_of_some (hlen : p.length < 3) (hplace : T.place (index :: p) = some frame) :
    T.entry (index :: p) = PageTableEntry.tableBits frame (T.user (index :: p)) := by
  rw [entry, if_pos (by rw [List.length_cons]; omega), hplace]

theorem entry_leaf (hlen : p.length = 3) : T.entry (index :: p) = leafWord (T.leaf (index :: p)) := by
  rw [entry, if_neg (by rw [List.length_cons]; omega)]

/-- Words of trees with the same tables, user bits and leaves at a route. -/
theorem entry_congr {q : Route} (hplace : T'.place q = T.place q) (huser : T'.user q = T.user q)
    (hleaf : T'.leaf q = T.leaf q) : T'.entry q = T.entry q := by
  rw [entry, entry, hplace, huser, hleaf]

end Tree

theorem not_invalidIntermediate (hframe : InMask frame) :
    ¬ PageTableBuilder.InvalidIntermediate (PageTableEntry.tableBits frame user) := by
  obtain ⟨-, -, hhuge, hreserved, -⟩ := PageTableEntry.tableBits_fields hframe user
  simp [PageTableBuilder.InvalidIntermediate, hhuge, hreserved]

theorem entryFrame_tableBits (hframe : InMask frame) :
    PageTableBuilder.entryFrame (PageTableEntry.tableBits frame user) = .ok frame := by
  rw [PageTableBuilder.entryFrame, physAddr_frameBits,
    (PageTableEntry.tableBits_fields hframe user).1]
  rfl

/-! ## Walking down -/

namespace Represents

/-- Reading a word of the tree. -/
theorem spec_read (h : Represents s root T) (hp : T.place p = some frame)
    {err : PageTableBuildError → S → Prop} :
    Edit.Spec s (Edit.inspect (PageTableStore.read · frame index))
      (fun entry s' => entry = T.entry (index :: p) ∧ s' = s) err := by
  refine Edit.spec_inspect (fun entry hread => ?_) (fun e hread => ?_)
  · rw [h.read hp, Except.ok.injEq] at hread
    exact ⟨hread.symm, rfl⟩
  · rw [h.read hp] at hread
    cases hread

/-- Writing a live table. -/
theorem spec_write_live {contents : Fin 512 → UInt64} (hlive : table s frame = some contents)
    (value : UInt64) {err : PageTableBuildError → S → Prop} :
    Edit.Spec s (PageTableStore.write frame index value)
      (fun _ s' => PageTableStore.write frame index value s = (.ok (), s') ∧
        table s' = Function.update (table s) frame (some (Function.update contents index value)))
      err := by
  obtain ⟨s', hwrite, htable⟩ := write_live hlive index value
  unfold Edit.Spec
  rw [hwrite]
  exact ⟨rfl, htable⟩

/-- Writing a word of the tree. -/
theorem spec_write (h : Represents s root T) (hp : T.place p = some frame) {value : UInt64}
    (T' : Tree) (hplace : T'.place = T.place) (hvalue : T'.entry (index :: p) = value)
    (hother : ∀ q, q ≠ index :: p → T'.entry q = T.entry q)
    {err : PageTableBuildError → S → Prop} :
    Edit.Spec s (PageTableStore.write frame index value)
      (fun _ s' => Represents s' root T' ∧ Draws 0 s s') err :=
  (spec_write_live (h.contents hp) value).mono
    (fun _ _ ⟨hwrite, htable⟩ => ⟨h.write hp htable hplace hvalue hother,
      (Draws.refl s).write hwrite⟩)
    fun _ _ herr => herr

/-- Below a table that is not there, there is nothing. -/
theorem fresh_entry (hnone : T.place p = none) : T.entry (index :: p) = 0 := by
  have hplace : T.place (index :: p) = none := by
    by_contra hne
    exact T.closed hne hnone
  have hleaf : T.leaf (index :: p) = none := by
    by_contra hne
    exact (T.leaf_place hne).2 hnone
  rw [Tree.entry, hplace, hleaf]
  split_ifs <;> rfl

section Create

variable {child : PhysAddr} (hp : T.place p = some frame) (hlen : p.length < 3)
  (hmask : InMask child) (hfresh : ∀ q, T.place q ≠ some child)
  (hnone : T.place (index :: p) = none)

include hp hlen hmask hfresh hnone

/-- A zeroed frame and the word that leads to it are a new table of the tree. -/
theorem create (h : Represents s root T) (htable : table s' = Function.update
      (Function.update (table s) child (some fun _ => 0)) frame
      (some (Function.update (fun j => T.entry (j :: p)) index
        (PageTableEntry.tableBits child user)))) :
    Represents s' root
      (T.create index p child user (hp ▸ Option.some_ne_none _) hlen hmask hfresh) := by
  set T' := T.create index p child user (hp ▸ Option.some_ne_none _) hlen hmask hfresh
  have hplace : T'.place = Function.update T.place (index :: p) (some child) := rfl
  have huser : T'.user = Function.update T.user (index :: p) user := rfl
  have hentry : T'.entry (index :: p) = PageTableEntry.tableBits child user := by
    rw [Tree.entry_of_some hlen (by rw [hplace, Function.update_self]), huser,
      Function.update_self]
  have hother : ∀ q, q ≠ index :: p → T'.entry q = T.entry q := fun q hq =>
    Tree.entry_congr (by rw [hplace, Function.update_of_ne hq])
      (by rw [huser, Function.update_of_ne hq]) rfl
  have hne : child ≠ frame := fun heq => hfresh p (heq ▸ hp)
  refine ⟨by rw [hplace, Function.update_of_ne (by simp), h.root], fun {q frame'} hq => ?_⟩
  rw [htable]
  by_cases hq' : q = index :: p
  · -- the new table is empty
    rw [hplace, hq', Function.update_self, Option.some_inj] at hq
    rw [← hq, Function.update_of_ne hne, Function.update_self, hq']
    congr 1
    funext j
    rw [hother _ (by simp), fresh_entry hnone]
  · rw [hplace, Function.update_of_ne hq'] at hq
    by_cases hframe : frame' = frame
    · have hqp : q = p := T.injective hq (hframe ▸ hp)
      rw [hframe, Function.update_self, hqp]
      congr 1
      funext j
      by_cases hj : j = index
      · rw [hj, Function.update_self, hentry]
      · rw [Function.update_of_ne hj, hother _ (by simp [hj])]
    · have hne' : frame' ≠ child := fun heq => hfresh q (heq ▸ hq)
      rw [Function.update_of_ne hframe, Function.update_of_ne hne', h.contents hq]
      congr 1
      funext j
      rw [hother]
      intro heq
      rw [List.cons.injEq] at heq
      rw [heq.2, hp, Option.some_inj] at hq
      exact hframe hq.symm

omit [LawfulPageTableStore S] in
/-- A new table uses up one missing route. -/
theorem create_grows (hP : index :: p ∈ P) (hdraws : Draws 1 s s') : Grows P s T s'
    (T.create index p child user (hp ▸ Option.some_ne_none _) hlen hmask hfresh) := by
  have hmem : index :: p ∈ T.missing P := Finset.mem_filter.mpr ⟨hP, hnone⟩
  have hpos : 0 < (T.missing P).card := Finset.card_pos.mpr ⟨_, hmem⟩
  refine ⟨fun q frame' hq => ?_, fun q hq => ?_, 1, hdraws, ?_⟩
  · have hq' : q ≠ index :: p := by
      rintro rfl
      rw [hnone] at hq
      cases hq
    exact (Function.update_of_ne hq' _ _).trans hq
  · have hq' : q ≠ index :: p := by
      rintro rfl
      exact T.user_place hq hnone
    exact (Function.update_of_ne hq' _ _).trans hq
  · have hmissing : (T.create index p child user (hp ▸ Option.some_ne_none _) hlen hmask
        hfresh).missing P = (T.missing P).erase (index :: p) := by
      ext q
      rw [Finset.mem_erase, Tree.missing, Tree.missing, Finset.mem_filter, Finset.mem_filter,
        Tree.create]
      by_cases hq : q = index :: p
      · simp [hq]
      · simp [hq]
    rw [hmissing, Finset.card_erase_of_mem hmem]
    omega

end Create

/-- `descend` creates a missing table. -/
theorem spec_create (h : Represents s root T) (hp : T.place p = some frame) (hlen : p.length < 3)
    (hP : index :: p ∈ P) (hnone : T.place (index :: p) = none) :
    Edit.Spec s (do
      let child ← allocateZeroed
      let entry ← Edit.ofExcept ((PageTableEntry.table child user).mapError .page)
      PageTableStore.write frame index entry
      return child)
      (fun child s' => ∃ T', Represents s' root T' ∧ Grows P s T s' T' ∧ T'.leaf = T.leaf ∧
        T'.place (index :: p) = some child ∧ (user = true → T'.user (index :: p) = true))
      (fun _ s' => Represents s' root T ∧ Stuck P s T) := by
  have hpos : 0 < (T.missing P).card :=
    Finset.card_pos.mpr ⟨_, Finset.mem_filter.mpr ⟨hP, hnone⟩⟩
  have hstuck (hnot : ¬ Available s) : Stuck P s T := ⟨0, s, .refl s, hpos, hnot⟩
  have hallocate : Edit.Spec s allocateZeroed
      (fun child s₁ => allocateZeroed s = (.ok child, s₁))
      (fun _ s' => Represents s' root T ∧ Stuck P s T) := by
    refine Edit.spec_intro (fun _ _ hok => hok) fun e s₁ herror => ⟨h.allocate herror, hstuck ?_⟩
    rintro ⟨child, s', hok, -⟩
    rw [herror, Prod.mk.injEq] at hok
    cases hok.1
  refine hallocate.bind fun child s₁ hok => ?_
  have htableEntry : Edit.Spec s₁
      (Edit.ofExcept ((PageTableEntry.table child user).mapError PageTableBuildError.page))
      (fun entry s' => s' = s₁ ∧ child.address ≤ maxPhysicalAddress ∧
        entry = PageTableEntry.tableBits child user)
      (fun _ s' => Represents s' root T ∧ Stuck P s T) := by
    rw [PageTableEntry.table]
    split_ifs with hlarge
    · refine ⟨h.allocate hok, hstuck ?_⟩
      rintro ⟨child', s', hok', hle⟩
      rw [hok, Prod.mk.injEq, Except.ok.injEq] at hok'
      exact absurd hlarge (UInt64.not_lt.mpr (hok'.1 ▸ hle))
    · exact ⟨rfl, UInt64.not_lt.mp hlarge, rfl⟩
  refine htableEntry.bind ?_
  rintro entry _ ⟨rfl, hle, rfl⟩
  obtain ⟨hdead, htable⟩ := allocate_ok hok
  have hlive := (h.allocate hok).contents hp
  refine (spec_write_live hlive _).bind fun _ s₂ ⟨hwrite, htable₂⟩ => Edit.spec_pure ?_
  rw [htable] at htable₂
  exact ⟨_, h.create hp hlen (inMask_of_le hle) (h.unused hdead) hnone htable₂,
    create_grows hp hlen (inMask_of_le hle) (h.unused hdead) hnone hP
      (((Draws.refl s).allocate hok hle).write hwrite),
    rfl, Function.update_self _ _ _, fun huser => huser ▸ Function.update_self _ _ _⟩

/-- `descend` grants user code an existing table. -/
theorem spec_grant (h : Represents s root T) (hp : T.place p = some frame) (hlen : p.length < 3)
    {child : PhysAddr} (hchild : T.place (index :: p) = some child)
    {err : PageTableBuildError → S → Prop} :
    Edit.Spec s (PageTableStore.write frame index (PageTableEntry.tableBits child true))
      (fun _ s' => Represents s' root (T.grant (index :: p) (hchild ▸ Option.some_ne_none _)) ∧
        Draws 0 s s') err := by
  refine h.spec_write hp (T.grant (index :: p) _) rfl ?_ fun q hq => ?_
  · rw [Tree.entry_of_some (T := T.grant (index :: p) _) hlen hchild]
    exact congrArg _ (Function.update_self _ _ _)
  · exact Tree.entry_congr rfl (Function.update_of_ne hq _ _) rfl

end Represents

/-- The editor has come down to the table at `q`. -/
structure Reached (P : Finset Route) (s : S) (root : PhysAddr) (T : Tree) (user : Bool) (q : Route)
    (frame : PhysAddr) (s' : S) (T' : Tree) : Prop where
  represents : Represents s' root T'
  grows : Grows P s T s' T'
  leaf : T'.leaf = T.leaf
  place : T'.place q = some frame
  granted : user = true → T'.Granted q

/-- One level of the way down. -/
theorem descend_spec (h : Reached P s root T user p frame s' T') (hlen : p.length < 3)
    (hP : index :: p ∈ P) :
    Edit.Spec s' (PageTableBuilder.descend frame index user)
      (fun child s'' => ∃ T'', Reached P s root T user (index :: p) child s'' T'')
      (fun _ s'' => ∃ T'', Represents s'' root T'' ∧ T''.leaf = T.leaf ∧
        (∀ q, T.user q = true → T''.user q = true) ∧ Stuck P s T) := by
  unfold PageTableBuilder.descend
  refine (h.represents.spec_read h.place).bind ?_
  rintro _ _ ⟨rfl, rfl⟩
  cases hchild : T'.place (index :: p) with
  | none =>
    rw [Tree.entry_of_none hlen hchild, if_pos (by decide)]
    refine (h.represents.spec_create h.place hlen hP hchild).mono ?_ ?_
    · rintro child s'' ⟨T'', hrep, hgrows, hleaf, hplace, huser⟩
      exact ⟨T'', hrep, h.grows.trans hgrows, hleaf.trans h.leaf, hplace,
        fun hu => ⟨huser hu, (h.granted hu).mono hgrows.user⟩⟩
    · rintro e s'' ⟨hrep, hstuck⟩
      exact ⟨T', hrep, h.leaf, h.grows.user, h.grows.stuck hstuck⟩
  | some child =>
    have hmask := T'.inMask hchild
    obtain ⟨-, hpresent, -, -, -, huser, -⟩ :=
      PageTableEntry.tableBits_fields hmask (T'.user (index :: p))
    rw [Tree.entry_of_some hlen hchild, if_neg hpresent, if_neg (not_invalidIntermediate hmask),
      entryFrame_tableBits hmask]
    split_ifs with hgrant
    · rw [PageTableEntry.tableBits_or_user]
      refine (h.represents.spec_grant h.place hlen hchild).bind ?_
      rintro _ s'' ⟨hrep, hdraws⟩
      have hmono : ∀ q, T'.user q = true →
          (T'.grant (index :: p) (hchild ▸ Option.some_ne_none _)).user q = true := by
        intro q hq
        by_cases hq' : q = index :: p
        · exact hq' ▸ Function.update_self _ _ _
        · exact (Function.update_of_ne hq' _ _).trans hq
      exact ⟨_, hrep, h.grows.trans (.of_draws rfl hmono hdraws), h.leaf, hchild,
        fun hu => ⟨Function.update_self _ _ _, (h.granted hu).mono hmono⟩⟩
    · refine ⟨T', h.represents, h.grows, h.leaf, hchild, fun hu => ⟨?_, h.granted hu⟩⟩
      rw [← huser]
      exact fun hzero => hgrant ⟨hu, hzero⟩

/-- The routes of the tables above the leaf of an address. -/
def tablesOn (address : UInt64) : List Route :=
  [[pml4Index address], [pdptIndex address, pml4Index address],
    [directoryIndex address, pdptIndex address, pml4Index address]]

theorem route_eq_cons (address : UInt64) : route address =
    tableIndex address :: [directoryIndex address, pdptIndex address, pml4Index address] := rfl

/-- The permissions and the frame of a leaf cannot be encoded. -/
def Unencodable (physicalAddress : PhysAddr) (permissions : PagePermissions) : Prop :=
  physicalAddress.address > maxPhysicalAddress ∨
    (permissions.writable && permissions.executable) = true

theorem leaf_eq_ok {physicalAddress : PhysAddr} {permissions : PagePermissions} {bits : UInt64}
    (h : PageTableEntry.leaf physicalAddress permissions = .ok bits) :
    bits = PageTableEntry.leafBits physicalAddress permissions.access ∧
      ¬ Unencodable physicalAddress permissions := by
  rw [PageTableEntry.leaf] at h
  split_ifs at h with hlarge hwx
  cases h
  exact ⟨rfl, not_or.mpr ⟨hlarge, hwx⟩⟩

theorem leaf_eq_error {physicalAddress : PhysAddr} {permissions : PagePermissions} {e : PageError}
    (h : PageTableEntry.leaf physicalAddress permissions = .error e) :
    Unencodable physicalAddress permissions := by
  rw [PageTableEntry.leaf] at h
  split_ifs at h with hlarge hwx
  · exact .inl hlarge
  · exact .inr hwx

omit [PageTableStore S] [LawfulPageTableStore S] in
/-- `PageTableEntry::leaf` with its error in the editor's type. -/
theorem spec_leaf {physicalAddress : PhysAddr} {permissions : PagePermissions}
    {err : PageTableBuildError → S → Prop}
    (herr : Unencodable physicalAddress permissions → ∀ e, err e s) :
    Edit.Spec s
      (Edit.ofExcept
        ((PageTableEntry.leaf physicalAddress permissions).mapError PageTableBuildError.page))
      (fun bits s' => s' = s ∧ bits = PageTableEntry.leafBits physicalAddress permissions.access ∧
        ¬ Unencodable physicalAddress permissions) err := by
  cases h : PageTableEntry.leaf physicalAddress permissions with
  | ok bits =>
    obtain ⟨hbits, hencodable⟩ := leaf_eq_ok h
    exact ⟨rfl, hbits, hencodable⟩
  | error e => exact herr (leaf_eq_error h) _

theorem valid_of_encodable {physicalAddress : PhysAddr} {permissions : PagePermissions}
    (h : ¬ Unencodable physicalAddress permissions) : InMask physicalAddress ∧
      (permissions.access.writable && permissions.access.executable) = false := by
  obtain ⟨hlarge, hwx⟩ := not_or.mp h
  exact ⟨inMask_of_le (UInt64.not_lt.mp hlarge), Bool.eq_false_iff.mpr hwx⟩

/-- Writing or clearing a leaf. -/
theorem Represents.spec_setLeaf (h : Represents s root T) (hp : T.place p = some frame)
    (hlen : p.length = 3) (value : Option (PhysAddr × Access))
    (hvalue : ∀ frame access, value = some (frame, access) →
      InMask frame ∧ (access.writable && access.executable) = false)
    {err : PageTableBuildError → S → Prop} :
    Edit.Spec s (PageTableStore.write frame index (Tree.leafWord value))
      (fun _ s' => Represents s' root (T.setLeaf (index :: p) value
        ⟨congrArg (· + 1) hlen, hp ▸ Option.some_ne_none _⟩ hvalue) ∧ Draws 0 s s')
      err := by
  refine h.spec_write hp (T.setLeaf (index :: p) value _ hvalue) rfl ?_ fun q hq => ?_
  · rw [Tree.entry_leaf hlen]
    exact congrArg _ (Function.update_self _ _ _)
  · exact Tree.entry_congr rfl rfl (Function.update_of_ne hq _ _)

/-- A page was mapped: what was there, and what is there now. -/
structure Mapped (P : Finset Route) (s : S) (root : PhysAddr) (T : Tree) (address : UInt64)
    (physicalAddress : PhysAddr) (permissions : PagePermissions) (s' : S) (T' : Tree) : Prop where
  represents : Represents s' root T'
  grows : Grows P s T s' T'
  unmapped : T.leaf (route address) = none
  encodable : ¬ Unencodable physicalAddress permissions
  leaf : T'.leaf =
    Function.update T.leaf (route address) (some (physicalAddress, permissions.access))
  granted : permissions.user = true → T'.Granted (route address).tail
  place : ∀ q ∈ tablesOn address, T'.place q ≠ none

/-- Mapping a page sets one leaf, or fails for one of four reasons and sets none. -/
theorem mapPage_spec (h : Represents s root T) (v : VirtAddr) (physicalAddress : PhysAddr)
    (permissions : PagePermissions) (hP : ∀ q ∈ tablesOn v.address, q ∈ P) :
    Edit.Spec s (PageTableBuilder.mapPage root v physicalAddress permissions)
      (fun _ s' => ∃ T', Mapped P s root T v.address physicalAddress permissions s' T')
      (fun _ s' => ∃ T', Represents s' root T' ∧ T'.leaf = T.leaf ∧
        (∀ q, T.user q = true → T'.user q = true) ∧
        (T.leaf (route v.address) ≠ none ∨ Unencodable physicalAddress permissions ∨
          Stuck P s T)) := by
  have hstart : Reached P s root T permissions.user [] root s T :=
    ⟨h, .of_draws rfl (fun _ hq => hq) (.refl s), rfl, h.root, fun _ => trivial⟩
  simp only [tablesOn, List.forall_mem_cons, List.not_mem_nil, false_implies, implies_true,
    and_true] at hP
  obtain ⟨hP₁, hP₂, hP₃⟩ := hP
  have hstuck : ∀ (e : PageTableBuildError) (s' : S),
      (∃ T', Represents s' root T' ∧ T'.leaf = T.leaf ∧
        (∀ q, T.user q = true → T'.user q = true) ∧ Stuck P s T) →
      ∃ T', Represents s' root T' ∧ T'.leaf = T.leaf ∧
        (∀ q, T.user q = true → T'.user q = true) ∧
        (T.leaf (route v.address) ≠ none ∨ Unencodable physicalAddress permissions ∨
          Stuck P s T) :=
    fun _ _ ⟨T', hrep, hleaf, huser, hstuck⟩ => ⟨T', hrep, hleaf, huser, .inr (.inr hstuck)⟩
  unfold PageTableBuilder.mapPage
  refine ((descend_spec hstart (by decide) hP₁).mono (fun _ _ h => h) hstuck).bind ?_
  rintro pdpt s₁ ⟨T₁, h₁⟩
  refine ((descend_spec h₁ (by simp) hP₂).mono (fun _ _ h => h) hstuck).bind ?_
  rintro directory s₂ ⟨T₂, h₂⟩
  refine ((descend_spec h₂ (by simp) hP₃).mono (fun _ _ h => h) hstuck).bind ?_
  rintro table s₃ ⟨T₃, h₃⟩
  refine (h₃.represents.spec_read h₃.place).bind ?_
  rintro _ _ ⟨rfl, rfl⟩
  have hroute := route_eq_cons v.address
  cases hleaf : T₃.leaf (route v.address) with
  | some value =>
    obtain ⟨frame, access⟩ := value
    obtain ⟨hmask, -⟩ := T₃.leaf_valid hleaf
    have hpresent := (PageTableEntry.leafBits_fields hmask access).2.1
    rw [Tree.entry_leaf rfl, ← hroute, hleaf, Tree.leafWord, if_pos hpresent]
    refine Edit.spec_fail ⟨T₃, h₃.represents, h₃.leaf, h₃.grows.user, .inl ?_⟩
    rw [← h₃.leaf, hleaf]
    exact Option.some_ne_none _
  | none =>
    rw [Tree.entry_leaf rfl, ← hroute, hleaf, if_neg (by decide)]
    refine (spec_leaf fun hbad _ => ⟨T₃, h₃.represents, h₃.leaf, h₃.grows.user,
      .inr (.inl hbad)⟩).bind ?_
    rintro _ _ ⟨rfl, rfl, hencodable⟩
    have hvalue : ∀ frame access, some (physicalAddress, permissions.access) =
        some (frame, access) → InMask frame ∧ (access.writable && access.executable) = false := by
      rintro _ _ ⟨⟩
      exact valid_of_encodable hencodable
    refine (h₃.represents.spec_setLeaf h₃.place rfl _ hvalue).mono ?_ fun _ _ herr => herr
    rintro _ s₄ ⟨hrep, hdraws⟩
    refine ⟨_, hrep, h₃.grows.trans (.of_draws rfl (fun _ hq => hq) hdraws), ?_, hencodable, ?_,
      fun huser => (h₃.granted huser).mono fun _ hq => hq, ?_⟩
    · rw [← h₃.leaf, hleaf]
    · rw [Tree.setLeaf_leaf, h₃.leaf, hroute]
    · have hthree : T₃.place [directoryIndex v.address, pdptIndex v.address, pml4Index v.address] ≠
          none := h₃.place ▸ Option.some_ne_none _
      simp only [tablesOn, List.forall_mem_cons, List.not_mem_nil, false_implies, implies_true,
        and_true]
      exact ⟨T₃.closed (T₃.closed hthree), T₃.closed hthree, hthree⟩

/-! ## Leaves that are there -/

/-- One step of `leaf_location`. -/
theorem nextTable_eq (h : Represents s root T) (hp : T.place p = some frame) (hlen : p.length < 3) :
    PageTableBuilder.nextTable s frame index = match T.place (index :: p) with
      | none => .error .notMapped
      | some child => .ok child := by
  unfold PageTableBuilder.nextTable
  rw [h.read hp]
  simp only [bind, Except.bind]
  cases hchild : T.place (index :: p) with
  | none => rw [Tree.entry_of_none hlen hchild, if_pos (by decide)]
  | some child =>
    have hmask := T.inMask hchild
    have hpresent := (PageTableEntry.tableBits_fields hmask (T.user (index :: p))).2.1
    rw [Tree.entry_of_some hlen hchild, if_neg hpresent, if_neg (not_invalidIntermediate hmask),
      entryFrame_tableBits hmask]

/-- `leaf_location` finds the table above a leaf. -/
theorem leafLocation_of_place (h : Represents s root T) {v : VirtAddr}
    (hplace : T.place (route v.address).tail = some frame) :
    PageTableBuilder.leafLocation root v s = .ok (frame, tableIndex v.address) := by
  have hthree : T.place [directoryIndex v.address, pdptIndex v.address, pml4Index v.address] =
      some frame := hplace
  obtain ⟨directory, htwo⟩ := Option.ne_none_iff_exists'.mp
    (T.closed (hthree ▸ Option.some_ne_none _))
  obtain ⟨pdpt, hone⟩ := Option.ne_none_iff_exists'.mp (T.closed (htwo ▸ Option.some_ne_none _))
  unfold PageTableBuilder.leafLocation
  simp only [List.foldlM_cons, List.foldlM_nil, bind, Except.bind]
  rw [nextTable_eq h h.root (by simp), hone]
  simp only
  rw [nextTable_eq h hone (by simp), htwo]
  simp only
  rw [nextTable_eq h htwo (by simp), hthree]
  rfl

/-- `leaf_location` finds nothing else. -/
theorem place_of_leafLocation (h : Represents s root T) {v : VirtAddr}
    {location : PhysAddr × Fin 512}
    (hlocation : PageTableBuilder.leafLocation root v s = .ok location) :
    T.place (route v.address).tail = some location.1 ∧ location.2 = tableIndex v.address := by
  unfold PageTableBuilder.leafLocation at hlocation
  simp only [List.foldlM_cons, List.foldlM_nil, bind, Except.bind] at hlocation
  rw [nextTable_eq h h.root (by simp)] at hlocation
  cases hone : T.place [pml4Index v.address] with
  | none =>
    rw [hone] at hlocation
    cases hlocation
  | some pdpt =>
    rw [hone] at hlocation
    simp only at hlocation
    rw [nextTable_eq h hone (by simp)] at hlocation
    cases htwo : T.place [pdptIndex v.address, pml4Index v.address] with
    | none =>
      rw [htwo] at hlocation
      cases hlocation
    | some directory =>
      rw [htwo] at hlocation
      simp only at hlocation
      rw [nextTable_eq h htwo (by simp)] at hlocation
      cases hthree : T.place [directoryIndex v.address, pdptIndex v.address,
          pml4Index v.address] with
      | none =>
        rw [hthree] at hlocation
        cases hlocation
      | some table =>
        rw [hthree] at hlocation
        cases hlocation
        exact ⟨hthree, rfl⟩

theorem spec_leafLocation (h : Represents s root T) (v : VirtAddr)
    {err : PageTableBuildError → S → Prop} (herr : ∀ e, err e s) :
    Edit.Spec s (Edit.inspect (PageTableBuilder.leafLocation root v))
      (fun location s' => s' = s ∧ T.place (route v.address).tail = some location.1 ∧
        location.2 = tableIndex v.address) err :=
  Edit.spec_inspect (fun _ hlocation => ⟨rfl, place_of_leafLocation h hlocation⟩)
    fun e _ => herr e

theorem spec_leafLocation_ok (h : Represents s root T) {v : VirtAddr}
    (hplace : T.place (route v.address).tail = some frame)
    {err : PageTableBuildError → S → Prop} :
    Edit.Spec s (Edit.inspect (PageTableBuilder.leafLocation root v))
      (fun location s' => location = (frame, tableIndex v.address) ∧ s' = s) err := by
  unfold Edit.Spec Edit.inspect
  rw [leafLocation_of_place h hplace]
  exact ⟨rfl, rfl⟩

/-- The exact match succeeds only on the expected leaf, and changes nothing. -/
theorem matchLeaf_spec (h : Represents s root T) (permissions : PagePermissions) (v : VirtAddr)
    (physicalAddress : PhysAddr) :
    Edit.Spec s (PageTableBuilder.matchLeaf root permissions v physicalAddress)
      (fun _ s' => s' = s ∧
        T.leaf (route v.address) = some (physicalAddress, permissions.access))
      (fun _ s' => s' = s) := by
  unfold PageTableBuilder.matchLeaf
  refine (spec_leafLocation h v ?_).bind ?_
  · exact fun _ => rfl
  rintro ⟨table, index⟩ _ ⟨rfl, hplace, rfl⟩
  refine (h.spec_read hplace).bind ?_
  rintro _ _ ⟨rfl, rfl⟩
  rw [Tree.entry_leaf rfl]
  have hroute : tableIndex v.address :: (route v.address).tail = route v.address := rfl
  rw [hroute]
  cases hleaf : T.leaf (route v.address) with
  | none =>
    rw [if_pos (by decide)]
    exact Edit.spec_fail rfl
  | some value =>
    obtain ⟨frame, access⟩ := value
    obtain ⟨hmask, -⟩ := T.leaf_valid hleaf
    obtain ⟨-, hpresent, hdirty, -⟩ := PageTableEntry.leafBits_fields hmask access
    rw [Tree.leafWord, if_neg hpresent]
    refine (spec_leaf ?_).bind ?_
    · exact fun _ _ => rfl
    rintro _ _ ⟨rfl, rfl, hencodable⟩
    split_ifs with hmatch
    · exact Edit.spec_fail rfl
    · refine Edit.spec_pure ⟨rfl, ?_⟩
      rw [not_not, and_not_eq_self hdirty] at hmatch
      obtain ⟨rfl, rfl⟩ := PageTableEntry.leafBits_inj hmask (valid_of_encodable hencodable).1
        hmatch
      rfl

/-- The leaf of a page is set or cleared; the tables stay. -/
structure Relabelled (root : PhysAddr) (T : Tree) (leaf : Route → Option (PhysAddr × Access))
    (s' : S) (T' : Tree) : Prop where
  represents : Represents s' root T'
  place : T'.place = T.place
  user : T'.user = T.user
  leaf : T'.leaf = leaf

theorem protectLeaf_spec (h : Represents s root T) {permissions : PagePermissions} {v : VirtAddr}
    {physicalAddress : PhysAddr} (hplace : T.place (route v.address).tail ≠ none)
    (hencodable : ¬ Unencodable physicalAddress permissions) :
    Edit.Spec s (PageTableBuilder.protectLeaf root permissions v physicalAddress)
      (fun _ s' => ∃ T', Relabelled root T (Function.update T.leaf (route v.address)
        (some (physicalAddress, permissions.access))) s' T')
      (fun _ _ => False) := by
  obtain ⟨frame, hframe⟩ := Option.ne_none_iff_exists'.mp hplace
  have hroute : tableIndex v.address :: (route v.address).tail = route v.address := rfl
  unfold PageTableBuilder.protectLeaf
  refine (spec_leafLocation_ok h hframe).bind ?_
  rintro _ _ ⟨rfl, rfl⟩
  refine (spec_leaf fun hbad _ => hencodable hbad).bind ?_
  rintro _ _ ⟨rfl, rfl, -⟩
  refine (h.spec_read hframe).bind ?_
  rintro _ _ ⟨rfl, rfl⟩
  rw [Tree.entry_leaf rfl, hroute]
  have hdirty : Tree.leafWord (T.leaf (route v.address)) &&& leafAccessedDirty = 0 := by
    cases hleaf : T.leaf (route v.address) with
    | none => rfl
    | some value => exact (PageTableEntry.leafBits_fields (T.leaf_valid hleaf).1 value.2).2.2.1
  rw [hdirty, UInt64.or_zero]
  have hvalue : ∀ frame access, some (physicalAddress, permissions.access) =
      some (frame, access) → InMask frame ∧ (access.writable && access.executable) = false := by
    rintro _ _ ⟨⟩
    exact valid_of_encodable hencodable
  refine (h.spec_setLeaf hframe rfl _ hvalue).mono ?_ fun _ _ herr => herr
  rintro _ s' ⟨hrep, -⟩
  exact ⟨_, hrep, rfl, rfl, rfl⟩

theorem clearLeaf_spec (h : Represents s root T) {v : VirtAddr}
    (hplace : T.place (route v.address).tail ≠ none) :
    Edit.Spec s (PageTableBuilder.clearLeaf root v)
      (fun _ s' => ∃ T', Relabelled root T (Function.update T.leaf (route v.address) none) s' T')
      (fun _ _ => False) := by
  obtain ⟨frame, hframe⟩ := Option.ne_none_iff_exists'.mp hplace
  unfold PageTableBuilder.clearLeaf
  refine (spec_leafLocation_ok h hframe).bind ?_
  rintro _ _ ⟨rfl, rfl⟩
  refine (h.spec_setLeaf hframe rfl none (by simp)).mono ?_ fun _ _ herr => herr
  rintro _ s' ⟨hrep, -⟩
  exact ⟨_, hrep, rfl, rfl, rfl⟩

/-- A loop that sets or clears the leaf of each page. -/
theorem relabel_loop (h : Represents s root T) {pages : List (VirtAddr × PhysAddr)}
    {body : VirtAddr × PhysAddr → Edit PageTableBuildError S Unit}
    {value : VirtAddr × PhysAddr → Option (PhysAddr × Access)}
    (hplace : ∀ page ∈ pages, T.place (route page.1.address).tail ≠ none)
    (hbody : ∀ page ∈ pages, ∀ s' T', Represents s' root T' →
      T'.place (route page.1.address).tail ≠ none →
      Edit.Spec s' (body page)
        (fun _ s'' => ∃ T'', Relabelled root T'
          (Function.update T'.leaf (route page.1.address) (value page)) s'' T'')
        (fun _ _ => False)) :
    Edit.Spec s (Edit.forEach pages body)
      (fun _ s' => ∃ T', Relabelled root T
        (updateAll T.leaf (fun page => route page.1.address) value pages) s' T')
      (fun _ _ => False) := by
  induction pages generalizing s T with
  | nil => exact ⟨T, h, rfl, rfl, rfl⟩
  | cons page pages ih =>
    obtain ⟨hpage, hpages⟩ := List.forall_mem_cons.mp hplace
    refine (hbody page List.mem_cons_self s T h hpage).bind ?_
    rintro _ s' ⟨T', h'⟩
    refine (ih h'.represents (by rwa [h'.place]) fun page' hmem =>
      hbody page' (List.mem_cons_of_mem _ hmem)).mono ?_ fun _ _ herr => herr
    rintro _ s'' ⟨T'', h''⟩
    refine ⟨T'', h''.represents, h''.place.trans h'.place, h''.user.trans h'.user, ?_⟩
    rw [h''.leaf, h'.leaf, updateAll_cons]

/-- `protect` changes every page or none. -/
theorem protect_spec (h : Represents s root T) (m : Mapping) (permissions : PagePermissions) :
    Edit.Spec s (PageTableBuilder.protect root m permissions)
      (fun _ s' => (∀ page ∈ m.pageList, T.leaf (route page.1.address) =
          some (page.2, m.permissions.access) ∧ ¬ Unencodable page.2 permissions) ∧
        ∃ T', Relabelled root T (updateAll T.leaf (fun page => route page.1.address)
          (fun page => some (page.2, permissions.access)) m.pageList) s' T')
      (fun _ s' => s' = s) := by
  rw [PageTableBuilder.protect_eq]
  refine (Edit.spec_forEach_check (Q := fun page => T.leaf (route page.1.address) =
    some (page.2, m.permissions.access) ∧ ¬ Unencodable page.2 permissions) fun page _ => ?_).bind
    ?_
  · refine (matchLeaf_spec h m.permissions page.1 page.2).bind ?_
    rintro _ _ ⟨rfl, hleaf⟩
    refine (spec_leaf ?_).bind ?_
    · exact fun _ _ => rfl
    rintro _ _ ⟨rfl, -, hencodable⟩
    exact Edit.spec_pure ⟨rfl, hleaf, hencodable⟩
  · rintro _ _ ⟨rfl, hpages⟩
    refine (relabel_loop h (fun page hmem => ?_) fun page hmem s' T' hrep hplace =>
      protectLeaf_spec hrep hplace (hpages page hmem).2).mono (fun _ _ hdone => ⟨hpages, hdone⟩)
      fun _ _ hfalse => hfalse.elim
    exact (T.leaf_place ((hpages page hmem).1 ▸ Option.some_ne_none _)).2

/-- `unmap_exact` removes every page or none. -/
theorem unmapExact_spec (h : Represents s root T) (m : Mapping) :
    Edit.Spec s (PageTableBuilder.unmapExact root m)
      (fun _ s' => ∃ T', Relabelled root T (updateAll T.leaf (fun page => route page.1.address)
        (fun _ => none) m.pageList) s' T')
      (fun _ s' => s' = s) := by
  rw [PageTableBuilder.unmapExact_eq]
  refine (Edit.spec_forEach_check fun page _ =>
    matchLeaf_spec h m.permissions page.1 page.2).bind ?_
  rintro _ _ ⟨rfl, hpages⟩
  refine (relabel_loop h (fun page hmem => ?_) fun page _ s' T' hrep hplace =>
    clearLeaf_spec hrep hplace).mono (fun _ _ hdone => hdone) fun _ _ hfalse => hfalse.elim
  exact (T.leaf_place (hpages page hmem ▸ Option.some_ne_none _)).2

end Mrml.Arch
