import Mrml.Common.Int
import Mrml.Common.Slots
import Mrml.Vm.GuestMemory

/-!
# The VM lifecycle table

Model of `VmTable` (`crates/mrml-kernel/src/vm.rs`, lines 36–187). The table has
`N` slots; a `VmId` packs a slot index and the generation under which the slot was
filled. `find` is the abstract view of the table: a partial map from identifiers
to slots, in which every method is one update (`*_cases`).
-/

namespace Mrml.Vm

/-- `VmId` (line 36). -/
structure VmId where
  token : UInt64
deriving DecidableEq

namespace VmId

/-- `VmId::new` (lines 39–41). -/
def new (index generation : UInt32) : VmId := ⟨packWords generation index⟩

/-- `VmId::index` (lines 46–48). -/
def index (id : VmId) : UInt32 := lowWord id.token

/-- `VmId::generation` (lines 49–51). -/
def generation (id : VmId) : UInt32 := highWord id.token

/-- An identifier is its index and its generation. -/
theorem ext_parts {a b : VmId} (hindex : a.index = b.index) (hgen : a.generation = b.generation) :
    a = b := by
  have := eq_of_words hindex hgen
  cases a
  cases b
  simpa using this

end VmId

/-- `VmState` (lines 54–60). -/
inductive VmState
  | created
  | loaded
  | running
  | stopped
  | failed
deriving DecidableEq

/-- `VmSlot` (lines 63–68). -/
structure VmSlot where
  generation : UInt32
  state : VmState
  exits : UInt64
  exitBudget : UInt64
deriving DecidableEq

/-- `VmTable<N>` (lines 73–76). -/
structure VmTable (N : ℕ) where
  slots : Fin N → Option VmSlot
  generations : Fin N → UInt32

namespace VmTable

variable {N : ℕ}

/-- `VmTable::new` (lines 79–84). -/
def new (N : ℕ) : VmTable N := ⟨fun _ => none, fun _ => 0⟩

/-- `VmTable::create` (lines 86–106). -/
def create (t : VmTable N) (exitBudget : UInt64) : Except VmError VmId × VmTable N :=
  if exitBudget = 0 then (.error .exitBudgetExceeded, t)
  else
    match firstSlot fun i => (t.slots i).isNone with
    | none => (.error .vmTableFull, t)
    | some index =>
      match checkedAdd32 (t.generations index) 1 with
      | none => (.error .sequenceExhausted, t)
      | some generation =>
        (.ok (VmId.new (UInt32.ofNat index) generation),
          { slots := Function.update t.slots index (some ⟨generation, .created, 0, exitBudget⟩)
            generations := Function.update t.generations index generation })

/-- `VmTable::slot_mut` (lines 176–186): the cell that the returned reference
    points to, and its content. -/
def slotMut (t : VmTable N) (id : VmId) : Except VmError (Fin N × VmSlot) :=
  match slotAt id.index with
  | none => .error .staleVm
  | some i =>
    match t.slots i with
    | none => .error .staleVm
    | some slot => if slot.generation = id.generation then .ok (i, slot) else .error .staleVm

/-- `VmTable::slot` (lines 165–174). -/
def slot (t : VmTable N) (id : VmId) : Except VmError VmSlot := (t.slotMut id).map Prod.snd

/-- A write through the reference of `slot_mut`. -/
def setSlot (t : VmTable N) (i : Fin N) (slot : VmSlot) : VmTable N :=
  { t with slots := Function.update t.slots i (some slot) }

/-- `VmTable::state` (lines 108–110). -/
def state (t : VmTable N) (id : VmId) : Except VmError VmState := (t.slot id).map VmSlot.state

/-- `VmTable::transition` (lines 156–163). -/
def transition (t : VmTable N) (id : VmId) (source target : VmState) :
    Except VmError Unit × VmTable N :=
  match t.slotMut id with
  | .error error => (.error error, t)
  | .ok (i, slot) =>
    if slot.state ≠ source then (.error .invalidVmState, t)
    else (.ok (), t.setSlot i { slot with state := target })

/-- `VmTable::mark_loaded` (lines 112–114). -/
def markLoaded (t : VmTable N) (id : VmId) : Except VmError Unit × VmTable N :=
  t.transition id .created .loaded

/-- `VmTable::start` (lines 116–124). -/
def start (t : VmTable N) (id : VmId) : Except VmError Unit × VmTable N :=
  match t.slotMut id with
  | .error error => (.error error, t)
  | .ok (i, slot) =>
    if ¬ (slot.state = .loaded ∨ slot.state = .stopped) then (.error .invalidVmState, t)
    else (.ok (), t.setSlot i { slot with exits := 0, state := .running })

/-- `VmTable::account_exit` (lines 126–140). The `?` on the counter returns
    before the state is written. -/
def accountExit (t : VmTable N) (id : VmId) : Except VmError UInt64 × VmTable N :=
  match t.slotMut id with
  | .error error => (.error error, t)
  | .ok (i, slot) =>
    if slot.state ≠ .running then (.error .invalidVmState, t)
    else
      match checkedAdd64 slot.exits 1 with
      | none => (.error .exitBudgetExceeded, t)
      | some exits =>
        if exits > slot.exitBudget then
          (.error .exitBudgetExceeded, t.setSlot i { slot with exits, state := .failed })
        else (.ok (slot.exitBudget - exits), t.setSlot i { slot with exits })

/-- `VmTable::stop` (lines 142–144). -/
def stop (t : VmTable N) (id : VmId) : Except VmError Unit × VmTable N :=
  t.transition id .running .stopped

/-- `VmTable::fail` (lines 146–149). -/
def fail (t : VmTable N) (id : VmId) : Except VmError Unit × VmTable N :=
  match t.slotMut id with
  | .error error => (.error error, t)
  | .ok (i, slot) => (.ok (), t.setSlot i { slot with state := .failed })

/-- `VmTable::destroy` (lines 151–155). -/
def destroy (t : VmTable N) (id : VmId) : Except VmError Unit × VmTable N :=
  match t.slotMut id with
  | .error error => (.error error, t)
  | .ok (i, _) => (.ok (), { t with slots := Function.update t.slots i none })

/-! ## The table as a map from identifiers to slots -/

/-- The slot that an identifier names. -/
def find (t : VmTable N) (id : VmId) : Option VmSlot := (t.slot id).toOption

theorem slotMut_eq_ok {t : VmTable N} {id : VmId} {i : Fin N} {slot : VmSlot} :
    t.slotMut id = .ok (i, slot) ↔
      i.val = id.index.toNat ∧ t.slots i = some slot ∧ slot.generation = id.generation := by
  unfold slotMut
  cases h : slotAt (N := N) id.index with
  | none =>
    simp only [reduceCtorEq, false_iff]
    rintro ⟨hi, -⟩
    rw [slotAt_eq_some.mpr hi] at h
    cases h
  | some j =>
    dsimp only
    have hj := slotAt_eq_some.mp h
    cases hslot : t.slots j with
    | none =>
      simp only [reduceCtorEq, false_iff]
      rintro ⟨hi, hs, -⟩
      obtain rfl : i = j := Fin.ext (hi.trans hj.symm)
      rw [hslot] at hs
      cases hs
    | some slot' =>
      dsimp only
      constructor
      · intro heq
        split at heq
        · next hgen =>
          cases heq
          exact ⟨hj, hslot, hgen⟩
        · cases heq
      · rintro ⟨hi, hs, hgen⟩
        obtain rfl : i = j := Fin.ext (hi.trans hj.symm)
        rw [hslot] at hs
        cases hs
        rw [if_pos hgen]

theorem slotMut_error {t : VmTable N} {id : VmId} {error : VmError}
    (h : t.slotMut id = .error error) : error = .staleVm := by
  unfold slotMut at h
  split at h
  · exact (Except.error.inj h).symm
  · split at h
    · exact (Except.error.inj h).symm
    · split at h
      · cases h
      · exact (Except.error.inj h).symm

theorem find_eq_some {t : VmTable N} {id : VmId} {slot : VmSlot} :
    t.find id = some slot ↔ ∃ i, t.slotMut id = .ok (i, slot) := by
  unfold find VmTable.slot
  cases t.slotMut id with
  | error error => simp [Except.map, Except.toOption]
  | ok value =>
    obtain ⟨i, slot'⟩ := value
    simp [Except.map, Except.toOption]

theorem find_eq_none {t : VmTable N} {id : VmId} :
    t.find id = none ↔ t.slotMut id = .error .staleVm := by
  unfold find VmTable.slot
  cases h : t.slotMut id with
  | error error => simp [Except.map, Except.toOption, slotMut_error h]
  | ok value => simp [Except.map, Except.toOption]

theorem state_eq_ok {t : VmTable N} {id : VmId} {state : VmState} :
    t.state id = .ok state ↔ ∃ slot, t.find id = some slot ∧ slot.state = state := by
  unfold VmTable.state find
  cases t.slot id <;> simp [Except.map, Except.toOption]

/-- Two identifiers that name one cell are equal. -/
theorem slotMut_inj {t : VmTable N} {a b : VmId} {i : Fin N} {slot slot' : VmSlot}
    (ha : t.slotMut a = .ok (i, slot)) (hb : t.slotMut b = .ok (i, slot')) : a = b := by
  obtain ⟨hia, hsa, hga⟩ := slotMut_eq_ok.mp ha
  obtain ⟨hib, hsb, hgb⟩ := slotMut_eq_ok.mp hb
  obtain rfl : slot = slot' := Option.some_inj.mp (hsa.symm.trans hsb)
  exact VmId.ext_parts (UInt32.toNat_inj.mp (hia.symm.trans hib)) (hga.symm.trans hgb)

/-- A table that differs in one cell answers every other cell as before. -/
theorem find_congr {t t' : VmTable N} {id : VmId}
    (h : ∀ i : Fin N, i.val = id.index.toNat → t'.slots i = t.slots i) : t'.find id = t.find id := by
  ext slot
  simp only [find_eq_some, slotMut_eq_ok]
  constructor
  · rintro ⟨i, hi, hs, hg⟩
    exact ⟨i, hi, (h i hi) ▸ hs, hg⟩
  · rintro ⟨i, hi, hs, hg⟩
    exact ⟨i, hi, (h i hi).symm ▸ hs, hg⟩

/-- A write through `slot_mut` is one update of the map. -/
theorem find_setSlot {t : VmTable N} {id : VmId} {i : Fin N} {slot slot' : VmSlot}
    (h : t.slotMut id = .ok (i, slot)) (hgen : slot'.generation = slot.generation) :
    (t.setSlot i slot').find = Function.update t.find id (some slot') := by
  obtain ⟨hi, hs, hg⟩ := slotMut_eq_ok.mp h
  funext x
  by_cases hx : x = id
  · subst hx
    rw [Function.update_self, find_eq_some]
    exact ⟨i, slotMut_eq_ok.mpr ⟨hi, by simp [setSlot], hgen.trans hg⟩⟩
  · rw [Function.update_of_ne hx]
    by_cases hindex : i.val = x.index.toNat
    · -- `x` names the cell under another generation, before and after the write
      have hother : x.generation ≠ slot.generation := fun hxg =>
        hx (VmId.ext_parts (UInt32.toNat_inj.mp (hindex.symm.trans hi)) (hxg.trans hg))
      have hnone : ∀ t' : VmTable N, ∀ s : VmSlot, t'.slots i = some s →
          s.generation = slot.generation → t'.find x = none := by
        intro t' s hs' hsg
        rw [Option.eq_none_iff_forall_ne_some]
        intro y hy
        obtain ⟨j, hj⟩ := find_eq_some.mp hy
        obtain ⟨hj, hjs, hjg⟩ := slotMut_eq_ok.mp hj
        obtain rfl : j = i := Fin.ext (hj.trans hindex.symm)
        rw [hs'] at hjs
        cases hjs
        exact hother (hjg.symm.trans hsg)
      rw [hnone t slot hs rfl, hnone _ slot' (by simp [setSlot]) hgen]
    · refine find_congr fun j hj => ?_
      have hne : j ≠ i := fun hji => hindex (hji ▸ hj)
      simp [setSlot, hne]

/-- `destroy` removes one entry of the map. -/
theorem find_clear {t : VmTable N} {id : VmId} {i : Fin N} {slot : VmSlot}
    (h : t.slotMut id = .ok (i, slot)) :
    ({ t with slots := Function.update t.slots i none } : VmTable N).find =
      Function.update t.find id none := by
  obtain ⟨hi, -, -⟩ := slotMut_eq_ok.mp h
  have hcell : ∀ x : VmId, i.val = x.index.toNat →
      ({ t with slots := Function.update t.slots i none } : VmTable N).find x = none := by
    intro x hx
    rw [Option.eq_none_iff_forall_ne_some]
    intro y hy
    obtain ⟨j, hj⟩ := find_eq_some.mp hy
    obtain ⟨hj, hjs, -⟩ := slotMut_eq_ok.mp hj
    obtain rfl : j = i := Fin.ext (hj.trans hx.symm)
    simp at hjs
  funext x
  by_cases hx : x = id
  · subst hx
    rw [Function.update_self, hcell x hi]
  · rw [Function.update_of_ne hx]
    by_cases hindex : i.val = x.index.toNat
    · rw [hcell x hindex, eq_comm, Option.eq_none_iff_forall_ne_some]
      intro y hy
      obtain ⟨j, hj⟩ := find_eq_some.mp hy
      obtain rfl : j = i := Fin.ext ((slotMut_eq_ok.mp hj).1.trans hindex.symm)
      exact hx (slotMut_inj hj h)
    · refine find_congr fun j hj => ?_
      have hne : j ≠ i := fun hji => hindex (hji ▸ hj)
      simp [hne]

/-! ## Each method as an update of the map -/

/-- `create` fails without a change, or adds entries of new VMs. -/
theorem create_cases (t : VmTable N) (exitBudget : UInt64) :
    (∃ error, t.create exitBudget = (.error error, t)) ∨
    ∃ id t', t.create exitBudget = (.ok id, t') ∧ ∀ x, t'.find x = t.find x ∨
      (t.find x = none ∧ ∃ generation, t'.find x = some ⟨generation, .created, 0, exitBudget⟩) := by
  unfold create
  split
  · exact .inl ⟨_, rfl⟩
  · cases hfree : firstSlot fun i => (t.slots i).isNone with
    | none => exact .inl ⟨_, rfl⟩
    | some i =>
      dsimp only
      cases hnext : checkedAdd32 (t.generations i) 1 with
      | none => exact .inl ⟨_, rfl⟩
      | some generation =>
        refine .inr ⟨_, _, rfl, fun x => ?_⟩
        have hnone : t.slots i = none := by simpa using firstSlot_some hfree
        by_cases hindex : i.val = x.index.toNat
        · have hold : t.find x = none := by
            rw [Option.eq_none_iff_forall_ne_some]
            intro y hy
            obtain ⟨j, hj⟩ := find_eq_some.mp hy
            obtain ⟨hj, hjs, -⟩ := slotMut_eq_ok.mp hj
            obtain rfl : j = i := Fin.ext (hj.trans hindex.symm)
            rw [hnone] at hjs
            cases hjs
          rw [hold]
          rw [or_iff_not_imp_left, ← ne_eq, Option.ne_none_iff_exists']
          rintro ⟨slot, hslot⟩
          refine ⟨rfl, generation, ?_⟩
          rw [hslot]
          obtain ⟨j, hj⟩ := find_eq_some.mp hslot
          obtain ⟨hj, hjs, -⟩ := slotMut_eq_ok.mp hj
          obtain rfl : j = i := Fin.ext (hj.trans hindex.symm)
          simpa [eq_comm] using hjs
        · left
          refine find_congr fun j hj => ?_
          have hne : j ≠ i := fun hji => hindex (hji ▸ hj)
          simp [hne]

theorem transition_cases (t : VmTable N) (id : VmId) (source target : VmState) :
    (∃ error, t.transition id source target = (.error error, t) ∧
      ∀ slot, t.find id = some slot → slot.state ≠ source) ∨
    ∃ slot t', t.find id = some slot ∧ slot.state = source ∧
      t.transition id source target = (.ok (), t') ∧
      t'.find = Function.update t.find id (some { slot with state := target }) := by
  unfold transition
  cases h : t.slotMut id with
  | error error =>
    refine .inl ⟨_, rfl, fun slot hslot => ?_⟩
    obtain ⟨i, hi⟩ := find_eq_some.mp hslot
    rw [hi] at h
    cases h
  | ok value =>
    obtain ⟨i, slot⟩ := value
    have hfind : t.find id = some slot := find_eq_some.mpr ⟨i, h⟩
    dsimp only
    split
    · next hstate =>
      refine .inl ⟨_, rfl, fun slot' hslot' => ?_⟩
      rw [hfind] at hslot'
      cases hslot'
      exact hstate
    · next hstate =>
      exact .inr ⟨slot, _, hfind, not_not.mp hstate, rfl, find_setSlot h rfl⟩

theorem start_cases (t : VmTable N) (id : VmId) :
    (∃ error, t.start id = (.error error, t)) ∨
    ∃ slot t', t.find id = some slot ∧ (slot.state = .loaded ∨ slot.state = .stopped) ∧
      t.start id = (.ok (), t') ∧
      t'.find = Function.update t.find id (some { slot with exits := 0, state := .running }) := by
  unfold start
  cases h : t.slotMut id with
  | error error => exact .inl ⟨_, rfl⟩
  | ok value =>
    obtain ⟨i, slot⟩ := value
    dsimp only
    split
    · exact .inl ⟨_, rfl⟩
    · next hstate =>
      exact .inr ⟨slot, _, find_eq_some.mpr ⟨i, h⟩, not_not.mp hstate, rfl, find_setSlot h rfl⟩

theorem fail_cases (t : VmTable N) (id : VmId) :
    (t.find id = none ∧ t.fail id = (.error .staleVm, t)) ∨
    ∃ slot t', t.find id = some slot ∧ t.fail id = (.ok (), t') ∧
      t'.find = Function.update t.find id (some { slot with state := .failed }) := by
  unfold fail
  cases h : t.slotMut id with
  | error error =>
    obtain rfl := slotMut_error h
    exact .inl ⟨find_eq_none.mpr h, rfl⟩
  | ok value =>
    obtain ⟨i, slot⟩ := value
    exact .inr ⟨slot, _, find_eq_some.mpr ⟨i, h⟩, rfl, find_setSlot h rfl⟩

theorem destroy_cases (t : VmTable N) (id : VmId) :
    (∃ error, t.destroy id = (.error error, t)) ∨
    ∃ t', t.destroy id = (.ok (), t') ∧ t'.find = Function.update t.find id none := by
  unfold destroy
  cases h : t.slotMut id with
  | error error => exact .inl ⟨_, rfl⟩
  | ok value =>
    obtain ⟨i, slot⟩ := value
    exact .inr ⟨_, rfl, find_clear h⟩

/-- The outcomes of `account_exit`. The third one leaves a VM that has used up
    its budget running. -/
theorem accountExit_cases (t : VmTable N) (id : VmId) :
    (∃ error, t.accountExit id = (.error error, t) ∧
      ∀ slot, t.find id = some slot → slot.state ≠ .running) ∨
    (∃ slot, t.find id = some slot ∧ slot.state = .running ∧ slot.exits.toNat + 1 = 2 ^ 64 ∧
      t.accountExit id = (.error .exitBudgetExceeded, t)) ∨
    (∃ slot exits t', t.find id = some slot ∧ slot.state = .running ∧
      exits.toNat = slot.exits.toNat + 1 ∧ slot.exitBudget < exits ∧
      t.accountExit id = (.error .exitBudgetExceeded, t') ∧
      t'.find = Function.update t.find id (some { slot with exits, state := .failed })) ∨
    ∃ slot exits t', t.find id = some slot ∧ slot.state = .running ∧
      exits.toNat = slot.exits.toNat + 1 ∧ exits ≤ slot.exitBudget ∧
      t.accountExit id = (.ok (slot.exitBudget - exits), t') ∧
      t'.find = Function.update t.find id (some { slot with exits }) := by
  unfold accountExit
  cases h : t.slotMut id with
  | error error =>
    refine .inl ⟨_, rfl, fun slot hslot => ?_⟩
    obtain ⟨i, hi⟩ := find_eq_some.mp hslot
    rw [hi] at h
    cases h
  | ok value =>
    obtain ⟨i, slot⟩ := value
    have hfind : t.find id = some slot := find_eq_some.mpr ⟨i, h⟩
    dsimp only
    split
    · next hstate =>
      refine .inl ⟨_, rfl, fun slot' hslot' => ?_⟩
      rw [hfind] at hslot'
      cases hslot'
      exact hstate
    · next hstate =>
      have hrunning := not_not.mp hstate
      cases hexits : checkedAdd64 slot.exits 1 with
      | none =>
        rw [checkedAdd64_eq_none, UInt64.toNat_one] at hexits
        have := slot.exits.toNat_lt
        exact .inr (.inl ⟨slot, hfind, hrunning, by omega, rfl⟩)
      | some exits =>
        rw [checkedAdd64_eq_some, UInt64.toNat_one] at hexits
        dsimp only
        split
        · next hover =>
          exact .inr (.inr (.inl ⟨slot, exits, _, hfind, hrunning, hexits, hover, rfl,
            find_setSlot h rfl⟩))
        · next hover =>
          exact .inr (.inr (.inr ⟨slot, exits, _, hfind, hrunning, hexits,
            UInt64.not_lt.mp hover, rfl, find_setSlot h rfl⟩))

end VmTable

end Mrml.Vm
