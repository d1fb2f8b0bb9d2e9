import Mathlib

/-!
# Fixed-capacity slot tables

A Rust array `[T; N]` is a function `Fin N → T`; a write is `Function.update`.
Allocation scans the array from index 0 (`firstSlot`), round-robin selection
scans it from a cursor (`scanFrom`).
-/

namespace Mrml

section Slots

variable {N : ℕ}

/-- The least index that satisfies `p`: `iter().position(p)`, or
    `iter().enumerate().find(..)`. -/
def firstSlot (p : Fin N → Bool) : Option (Fin N) := (List.finRange N).find? p

theorem firstSlot_some {p : Fin N → Bool} {i : Fin N} (h : firstSlot p = some i) : p i = true :=
  List.find?_some h

theorem firstSlot_none {p : Fin N → Bool} (h : firstSlot p = none) (i : Fin N) : p i = false := by
  have := List.find?_eq_none.mp h i (List.mem_finRange i)
  simpa using this

/-- The entries of a table in slot order (`iter().flatten()`) after a write to a free slot. -/
theorem filterMap_update_perm {α : Type*} {slots : Fin N → Option α} {i : Fin N}
    (hi : slots i = none) (a : α) :
    ((List.finRange N).filterMap (Function.update slots i (some a))).Perm
      (a :: (List.finRange N).filterMap slots) := by
  obtain ⟨before, after, hsplit⟩ := List.append_of_mem (List.mem_finRange i)
  have hnodup := List.nodup_finRange N
  rw [hsplit, List.nodup_middle, List.nodup_cons, List.mem_append, not_or] at hnodup
  obtain ⟨⟨hbefore, hafter⟩, -⟩ := hnodup
  have hsame : ∀ l : List (Fin N), i ∉ l →
      l.filterMap (Function.update slots i (some a)) = l.filterMap slots := by
    intro l hl
    refine List.filterMap_congr fun j hj => Function.update_of_ne ?_ _ _
    rintro rfl
    exact hl hj
  rw [hsplit, List.filterMap_append, List.filterMap_append, List.filterMap_cons,
    List.filterMap_cons, Function.update_self, hi, hsame before hbefore, hsame after hafter]
  exact List.perm_middle

/-- Entries in different slots have different keys. -/
def DistinctKeys {α κ : Type*} (key : α → κ) (slots : Fin N → Option α) : Prop :=
  ∀ i j a b, slots i = some a → slots j = some b → key a = key b → i = j

theorem DistinctKeys.update {α κ : Type*} {key : α → κ} {slots : Fin N → Option α}
    (h : DistinctKeys key slots) {a : α} (hnew : ∀ j b, slots j = some b → key b ≠ key a)
    (i : Fin N) : DistinctKeys key (Function.update slots i (some a)) := by
  intro j k b c hj hk hkey
  by_cases hji : j = i <;> by_cases hki : k = i
  · exact hji.trans hki.symm
  · subst hji
    rw [Function.update_self, Option.some_inj] at hj
    rw [Function.update_of_ne hki] at hk
    exact absurd (hkey.symm.trans (congrArg key hj.symm)) (hnew k c hk)
  · subst hki
    rw [Function.update_self, Option.some_inj] at hk
    rw [Function.update_of_ne hji] at hj
    exact absurd (hkey.trans (congrArg key hk.symm)) (hnew j b hj)
  · rw [Function.update_of_ne hji] at hj
    rw [Function.update_of_ne hki] at hk
    exact h j k b c hj hk hkey

/-- `get(slot as usize)`: the slot a `u32` index names, if the table has it. -/
def slotAt (slot : UInt32) : Option (Fin N) :=
  if h : slot.toNat < N then some ⟨slot.toNat, h⟩ else none

theorem slotAt_eq_some {slot : UInt32} {i : Fin N} : slotAt slot = some i ↔ i.val = slot.toNat := by
  unfold slotAt
  split_ifs with h
  · rw [Option.some_inj, Fin.ext_iff]
    exact eq_comm
  · simp only [false_iff]
    have := i.isLt
    omega

/-- `slot as u32` keeps every index of a table with at most `2^32` slots. -/
theorem slotAt_ofNat (hN : N ≤ 2 ^ 32) (i : Fin N) : slotAt (UInt32.ofNat i) = some i := by
  rw [slotAt_eq_some, UInt32.toNat_ofNat', Nat.mod_eq_of_lt (by have := i.isLt; omega)]

/-- Slot `(cursor + distance) % N`. -/
def rotate (cursor : ℕ) (distance : Fin N) : Fin N :=
  ⟨(cursor + distance) % N, Nat.mod_lt _ (Nat.zero_lt_of_lt distance.isLt)⟩

/-- `for distance in 0..N { let slot = (cursor + distance) % N; if p(slot) { return slot } }`. -/
def scanFrom (cursor : ℕ) (p : Fin N → Bool) : Option (Fin N) :=
  ((List.finRange N).map (rotate cursor)).find? p

theorem scanFrom_some {cursor : ℕ} {p : Fin N → Bool} {i : Fin N}
    (h : scanFrom cursor p = some i) : p i = true :=
  List.find?_some h

/-- How far the slot is ahead of the cursor. -/
def distanceFrom (cursor : ℕ) (j : Fin N) : ℕ :=
  if cursor % N ≤ j then j - cursor % N else j + N - cursor % N

theorem distanceFrom_lt (cursor : ℕ) (j : Fin N) : distanceFrom cursor j < N := by
  have hj := j.isLt
  have hcursor := Nat.mod_lt cursor (Nat.zero_lt_of_lt hj)
  unfold distanceFrom
  split_ifs <;> omega

theorem rotate_distanceFrom (cursor : ℕ) (j : Fin N) :
    rotate cursor ⟨distanceFrom cursor j, distanceFrom_lt cursor j⟩ = j := by
  have hj := j.isLt
  have hcursor := Nat.mod_lt cursor (Nat.zero_lt_of_lt hj)
  refine Fin.ext ?_
  show (cursor + distanceFrom cursor j) % N = j
  rw [← Nat.mod_add_mod]
  unfold distanceFrom
  split_ifs with h
  · rw [Nat.add_sub_cancel' h, Nat.mod_eq_of_lt hj]
  · rw [show cursor % N + (j + N - cursor % N) = j + N by omega, Nat.add_mod_right,
      Nat.mod_eq_of_lt hj]

theorem distanceFrom_rotate (cursor : ℕ) (d : Fin N) :
    distanceFrom cursor (rotate cursor d) = d := by
  have hd := d.isLt
  have hcursor := Nat.mod_lt cursor (Nat.zero_lt_of_lt hd)
  have hslot : (rotate cursor d).val =
      if cursor % N + d < N then cursor % N + d else cursor % N + d - N := by
    show (cursor + d) % N = _
    rw [← Nat.mod_add_mod]
    split_ifs with h
    · exact Nat.mod_eq_of_lt h
    · rw [Nat.mod_eq_sub_mod (by omega), Nat.mod_eq_of_lt (by omega)]
  unfold distanceFrom
  rw [hslot]
  split_ifs <;> omega

theorem add_distanceFrom (cursor : ℕ) (j : Fin N) : (cursor + distanceFrom cursor j) % N = j :=
  congrArg Fin.val (rotate_distanceFrom cursor j)

theorem distanceFrom_of_eq {cursor d : ℕ} {j : Fin N} (hd : d < N) (h : (cursor + d) % N = j) :
    distanceFrom cursor j = d := by
  have hrotate : rotate cursor ⟨d, hd⟩ = j := Fin.ext h
  rw [← hrotate, distanceFrom_rotate]

/-- The cursor has moved to the slot after `i`. -/
theorem distanceFrom_succ (cursor : ℕ) (i j : Fin N) :
    distanceFrom ((i.val + 1) % N) j =
      if distanceFrom cursor i < distanceFrom cursor j then
        distanceFrom cursor j - distanceFrom cursor i - 1
      else distanceFrom cursor j + N - distanceFrom cursor i - 1 := by
  have hi := add_distanceFrom cursor i
  have hj := add_distanceFrom cursor j
  have hilt := distanceFrom_lt cursor i
  have hjlt := distanceFrom_lt cursor j
  have hstep (d : ℕ) : ((i.val + 1) % N + d) % N = (cursor + distanceFrom cursor i + (1 + d)) % N := by
    rw [Nat.mod_add_mod, Nat.add_assoc, ← hi, Nat.mod_add_mod]
  split_ifs with hlt
  · refine distanceFrom_of_eq (by omega) ?_
    rw [hstep, ← hj]
    congr 1
    omega
  · refine distanceFrom_of_eq (by omega) ?_
    rw [hstep, ← hj, ← Nat.add_mod_right (cursor + distanceFrom cursor j)]
    congr 1
    omega

theorem distanceFrom_inj {cursor : ℕ} {i j : Fin N}
    (h : distanceFrom cursor i = distanceFrom cursor j) : i = j := by
  rw [← rotate_distanceFrom cursor i, ← rotate_distanceFrom cursor j]
  simp only [h]

/-- The scan stops at the nearest slot that satisfies `p`. -/
theorem scanFrom_first {cursor : ℕ} {p : Fin N → Bool} {i j : Fin N}
    (h : scanFrom cursor p = some i) (hj : p j = true) :
    distanceFrom cursor i ≤ distanceFrom cursor j := by
  obtain ⟨-, d, hd, hat, hbefore⟩ := List.find?_eq_some_iff_getElem.mp h
  rw [List.length_map, List.length_finRange] at hd
  rw [List.getElem_map, List.getElem_finRange, Fin.cast_mk] at hat
  have hi : distanceFrom cursor i = d := by rw [← hat, distanceFrom_rotate]
  by_contra hlt
  have hskipped := hbefore (distanceFrom cursor j) (by omega)
  rw [List.getElem_map, List.getElem_finRange, Fin.cast_mk, rotate_distanceFrom, hj] at hskipped
  cases hskipped

theorem scanFrom_none {cursor : ℕ} {p : Fin N → Bool} (h : scanFrom cursor p = none) (j : Fin N) :
    p j = false := by
  have hmem : j ∈ (List.finRange N).map (rotate cursor) :=
    List.mem_map.mpr ⟨_, List.mem_finRange _, rotate_distanceFrom cursor j⟩
  have := List.find?_eq_none.mp h j hmem
  simpa using this

/-! ## Tables keyed by an identity -/

variable {ι : Type*} {owners : Fin N → Option ι} {live live' : ι → Prop}

/-- The filled cells of `owners` name the identities of `live`, each exactly once. -/
structure Names (owners : Fin N → Option ι) (live : ι → Prop) : Prop where
  live_iff : ∀ x, live x ↔ ∃ i, owners i = some x
  unique : ∀ {i j x}, owners i = some x → owners j = some x → i = j

theorem Names.congr (h : Names owners live) (hl : ∀ x, live' x ↔ live x) : Names owners live' :=
  ⟨fun x => (hl x).trans (h.live_iff x), h.unique⟩

/-- A new identity goes into a free cell. -/
theorem Names.enrol (h : Names owners live) {i : Fin N} (hi : owners i = none) {x : ι}
    (hx : ¬ live x) (hl : ∀ y, live' y ↔ live y ∨ y = x) :
    Names (Function.update owners i (some x)) live' := by
  have hcell : ∀ j y, Function.update owners i (some x) j = some y ↔
      (j = i ∧ y = x) ∨ owners j = some y := by
    intro j y
    by_cases hj : j = i
    · subst hj
      simp [hi, eq_comm]
    · simp [hj]
  refine ⟨fun y => ?_, fun {j k y} hj hk => ?_⟩
  · simp only [hl, h.live_iff, hcell, exists_or, exists_eq_left]
    tauto
  · rw [hcell] at hj hk
    have habs : ∀ l, owners l ≠ some x := fun l hl => hx ((h.live_iff x).mpr ⟨l, hl⟩)
    rcases hj with ⟨rfl, rfl⟩ | hj
    · rcases hk with ⟨rfl, -⟩ | hk
      · rfl
      · exact absurd hk (habs k)
    · rcases hk with ⟨rfl, rfl⟩ | hk
      · exact absurd hj (habs j)
      · exact h.unique hj hk

/-- An identity leaves together with its cell. -/
theorem Names.retire (h : Names owners live) {i : Fin N} {x : ι} (hi : owners i = some x)
    (hl : ∀ y, live' y ↔ live y ∧ y ≠ x) : Names (Function.update owners i none) live' := by
  have hcell : ∀ j y, Function.update owners i none j = some y ↔ owners j = some y ∧ y ≠ x := by
    intro j y
    by_cases hj : j = i
    · subst hj
      simp only [Function.update_self, reduceCtorEq, hi, Option.some_inj, false_iff, not_and, not_not]
      exact fun h => h.symm
    · rw [Function.update_of_ne hj]
      refine (and_iff_left_of_imp ?_).symm
      rintro hy rfl
      exact hj (h.unique hy hi)
  refine ⟨fun y => ?_, fun {j k y} hj hk => ?_⟩
  · simp only [hl, h.live_iff, hcell, exists_and_right]
  · exact h.unique ((hcell j y).mp hj).1 ((hcell k y).mp hk).1

end Slots

end Mrml
