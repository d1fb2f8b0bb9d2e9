import Mrml.Common.Int

/-!
# Generational tables

A cell of a table has a generation and possibly a value; a handle names a cell and a
generation, and is valid while the cell has a value under that generation. Emptying a
cell moves it to the next generation. A cell whose generation would overflow gets
generation 0 and stays empty, so no handle ever becomes valid again.

Results:
* `Step.past`, `not_holds_of_past`: a handle whose cell has been emptied stays invalid.
* `total_fill`, `total_clear`: the sum of the sizes of the values.
-/

namespace Mrml

/-- `generation.checked_add(1).unwrap_or(0)`. -/
def succGeneration (generation : UInt32) : UInt32 := (checkedAdd32 generation 1).getD 0

/-- The next generation is 0 or greater. -/
theorem succGeneration_cases (generation : UInt32) :
    succGeneration generation = 0 ∨ generation < succGeneration generation := by
  unfold succGeneration
  cases h : checkedAdd32 generation 1 with
  | none => exact .inl rfl
  | some next =>
    right
    rw [checkedAdd32_eq_some, UInt32.toNat_one] at h
    rw [Option.getD_some, UInt32.lt_iff_toNat_lt]
    omega

/-- A cell of a generational table. -/
structure Cell (α : Type*) where
  generation : UInt32
  value : Option α

namespace Cell

variable {N : ℕ} {α : Type*} {t t' : Fin N → Cell α}

/-- Values sit under a nonzero generation. -/
def Sound (t : Fin N → Cell α) : Prop := ∀ i, (t i).value ≠ none → (t i).generation ≠ 0

/-- The handle is valid, for the value `v`. -/
def Holds (t : Fin N → Cell α) (slot generation : UInt32) (v : α) : Prop :=
  ∃ i : Fin N, i.val = slot.toNat ∧ t i = ⟨generation, some v⟩

/-- The cell of the handle has moved past its generation. -/
def Past (t : Fin N → Cell α) (slot generation : UInt32) : Prop :=
  ∃ i : Fin N, i.val = slot.toNat ∧ ((t i).generation = 0 ∨ generation < (t i).generation)

/-- What an operation does to a table: nothing, it fills a free cell, or it empties one. -/
inductive Step (t : Fin N → Cell α) : (Fin N → Cell α) → Prop
  | stay : Step t t
  | fill (i : Fin N) (v : α) (hfree : (t i).value = none) (hlive : (t i).generation ≠ 0) :
      Step t (Function.update t i ⟨(t i).generation, some v⟩)
  | clear (i : Fin N) (hfull : (t i).value ≠ none) :
      Step t (Function.update t i ⟨succGeneration (t i).generation, none⟩)

/-- A handle is valid for at most one value. -/
theorem Holds.unique {slot generation : UInt32} {v v' : α} (h : Holds t slot generation v)
    (h' : Holds t slot generation v') : v = v' := by
  obtain ⟨i, hi, hcell⟩ := h
  obtain ⟨j, hj, hcell'⟩ := h'
  obtain rfl : i = j := Fin.ext (hi.trans hj.symm)
  rw [hcell] at hcell'
  exact Option.some_inj.mp (Cell.mk.inj hcell').2

theorem Step.sound (hstep : Step t t') (h : Sound t) : Sound t' := by
  intro j hj
  cases hstep with
  | stay => exact h j hj
  | fill i v hfree hlive =>
    by_cases hji : j = i
    · subst hji
      rw [Function.update_self]
      exact hlive
    · rw [Function.update_of_ne hji] at hj ⊢
      exact h j hj
  | clear i hfull =>
    by_cases hji : j = i
    · subst hji
      rw [Function.update_self] at hj
      exact absurd rfl hj
    · rw [Function.update_of_ne hji] at hj ⊢
      exact h j hj

/-- A handle that has been passed is never reached again. -/
theorem Step.past (hstep : Step t t') (h : Sound t) {slot generation : UInt32}
    (hpast : Past t slot generation) : Past t' slot generation := by
  obtain ⟨j, hj, hgeneration⟩ := hpast
  refine ⟨j, hj, ?_⟩
  cases hstep with
  | stay => exact hgeneration
  | fill i v hfree hlive =>
    by_cases hji : j = i
    · subst hji
      rw [Function.update_self]
      exact hgeneration
    · rw [Function.update_of_ne hji]
      exact hgeneration
  | clear i hfull =>
    by_cases hji : j = i
    · subst hji
      rw [Function.update_self]
      rcases hgeneration with hzero | hlt
      · exact absurd hzero (h j hfull)
      · rcases succGeneration_cases (t j).generation with hzero' | hlt'
        · exact .inl hzero'
        · exact .inr (UInt32.lt_trans hlt hlt')
    · rw [Function.update_of_ne hji]
      exact hgeneration

/-- A valid handle stays valid until its cell is emptied. -/
theorem Step.holds_or_past (hstep : Step t t') {slot generation : UInt32} {v : α}
    (hvalid : Holds t slot generation v) : Holds t' slot generation v ∨ Past t' slot generation := by
  obtain ⟨j, hj, hcell⟩ := hvalid
  cases hstep with
  | stay => exact .inl ⟨j, hj, hcell⟩
  | fill i w hfree hlive =>
    by_cases hji : j = i
    · subst hji
      rw [hcell] at hfree
      cases hfree
    · exact .inl ⟨j, hj, by rw [Function.update_of_ne hji, hcell]⟩
  | clear i hfull =>
    by_cases hji : j = i
    · subst hji
      refine .inr ⟨j, hj, ?_⟩
      rw [Function.update_self, hcell]
      exact succGeneration_cases generation
    · exact .inl ⟨j, hj, by rw [Function.update_of_ne hji, hcell]⟩

theorem not_holds_of_past (h : Sound t) {slot generation : UInt32}
    (hpast : Past t slot generation) (v : α) : ¬ Holds t slot generation v := by
  rintro ⟨i, hi, hcell⟩
  obtain ⟨j, hj, hgeneration⟩ := hpast
  obtain rfl : i = j := Fin.ext (hi.trans hj.symm)
  have hsome : (t i).value ≠ none := by
    rw [hcell]
    exact Option.some_ne_none v
  rw [hcell] at hgeneration
  rcases hgeneration with hzero | hlt
  · exact h i hsome (by rw [hcell]; exact hzero)
  · exact UInt32.lt_irrefl _ hlt

/-- Emptying a cell passes its handle. -/
theorem past_clear (t : Fin N → Cell α) {i : Fin N} {slot : UInt32} (hi : i.val = slot.toNat) :
    Past (Function.update t i ⟨succGeneration (t i).generation, none⟩) slot (t i).generation := by
  refine ⟨i, hi, ?_⟩
  rw [Function.update_self]
  exact succGeneration_cases _

/-! ## Sizes -/

/-- The sum of the sizes of the values. -/
def total (size : α → ℕ) (t : Fin N → Cell α) : ℕ := ∑ i, ((t i).value.elim 0 size)

variable (size : α → ℕ)

/-- The total is that of the other cells and of this one. -/
theorem total_update (t : Fin N → Cell α) (i : Fin N) (cell : Cell α) :
    total size (Function.update t i cell) + (t i).value.elim 0 size =
      total size t + cell.value.elim 0 size := by
  have hsplit : ∀ t : Fin N → Cell α, total size t =
      (t i).value.elim 0 size + ∑ j ∈ Finset.univ.erase i, (t j).value.elim 0 size :=
    fun t => (Finset.add_sum_erase _ _ (Finset.mem_univ i)).symm
  have hothers : ∑ j ∈ Finset.univ.erase i, (Function.update t i cell j).value.elim 0 size =
      ∑ j ∈ Finset.univ.erase i, (t j).value.elim 0 size :=
    Finset.sum_congr rfl fun j hj => by rw [Function.update_of_ne (Finset.ne_of_mem_erase hj)]
  rw [hsplit (Function.update t i cell), hsplit t, hothers, Function.update_self]
  omega

theorem total_fill (t : Fin N → Cell α) {i : Fin N} (hfree : (t i).value = none)
    (generation : UInt32) (v : α) :
    total size (Function.update t i ⟨generation, some v⟩) = total size t + size v := by
  have h := total_update size t i ⟨generation, some v⟩
  rwa [hfree, Option.elim_none, Nat.add_zero, Option.elim_some] at h

theorem total_clear (t : Fin N → Cell α) {i : Fin N} {v : α} (hfull : (t i).value = some v)
    (generation : UInt32) :
    total size (Function.update t i ⟨generation, none⟩) + size v = total size t := by
  have h := total_update size t i ⟨generation, none⟩
  rwa [hfull, Option.elim_some, Option.elim_none, Nat.add_zero] at h

end Cell

end Mrml
