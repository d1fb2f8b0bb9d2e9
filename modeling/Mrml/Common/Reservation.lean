import Mathlib

/-!
# Reservations in a partial map

A table of live identifiers is a partial map. A transaction reserves keys that are not in
the map and either keeps them or takes them out again.

Results:
* `Reserves.insert`, `Reserves.erase`: one key more, one key less.
* `Reserves.eq_of_nil`: when every reservation has been taken out, the map is what it was.
-/

namespace Mrml

variable {K V : Type*} {before after : K → Option V} {added : List (K × V)}

/-- `after` is `before` with the entries of `added`, whose keys are new. -/
structure Reserves (before after : K → Option V) (added : List (K × V)) : Prop where
  nodup : (added.map Prod.fst).Nodup
  fresh : ∀ entry ∈ added, before entry.1 = none
  stored : ∀ entry ∈ added, after entry.1 = some entry.2
  others : ∀ key ∉ added.map Prod.fst, after key = before key

namespace Reserves

theorem refl (before : K → Option V) : Reserves before before [] where
  nodup := List.nodup_nil
  fresh := fun _ h => nomatch h
  stored := fun _ h => nomatch h
  others := fun _ _ => rfl

theorem eq_of_nil (h : Reserves before after []) : after = before := by
  funext key
  exact h.others key List.not_mem_nil

/-- A key that the map does not have is reserved. -/
theorem insert [DecidableEq K] (h : Reserves before after added) {key : K} (value : V)
    (hkey : after key = none) :
    Reserves before (Function.update after key (some value)) (added ++ [(key, value)]) := by
  have hnew : ∀ entry ∈ added, entry.1 ≠ key := by
    intro entry hentry heq
    have hstored := h.stored entry hentry
    rw [heq, hkey] at hstored
    cases hstored
  have hnotMem : key ∉ added.map Prod.fst := by
    intro hmem
    obtain ⟨entry, hentry, heq⟩ := List.mem_map.mp hmem
    exact hnew entry hentry heq
  constructor
  · rw [List.map_append, List.map_singleton, ← List.concat_eq_append]
    exact h.nodup.concat hnotMem
  · intro entry hentry
    rcases List.mem_append.mp hentry with hentry | hentry
    · exact h.fresh entry hentry
    · obtain rfl := List.mem_singleton.mp hentry
      show before key = none
      rw [← h.others key hnotMem, hkey]
  · intro entry hentry
    rcases List.mem_append.mp hentry with hentry | hentry
    · rw [Function.update_of_ne (hnew entry hentry)]
      exact h.stored entry hentry
    · obtain rfl := List.mem_singleton.mp hentry
      exact Function.update_self _ _ _
  · intro other hother
    rw [List.map_append, List.map_singleton, List.mem_append, List.mem_singleton, not_or] at hother
    rw [Function.update_of_ne hother.2]
    exact h.others other hother.1

/-- The first reservation is taken out. -/
theorem erase [DecidableEq K] {key : K} {value : V}
    (h : Reserves before after ((key, value) :: added)) :
    Reserves before (Function.update after key none) added := by
  obtain ⟨hnotMem, hnodup⟩ := List.nodup_cons.mp h.nodup
  constructor
  · exact hnodup
  · intro entry hentry
    exact h.fresh entry (List.mem_cons_of_mem _ hentry)
  · intro entry hentry
    have hne : entry.1 ≠ key := by
      intro heq
      exact hnotMem (List.mem_map.mpr ⟨entry, hentry, heq⟩)
    rw [Function.update_of_ne hne]
    exact h.stored entry (List.mem_cons_of_mem _ hentry)
  · intro other hother
    by_cases heq : other = key
    · rw [heq, Function.update_self]
      exact (h.fresh _ List.mem_cons_self).symm
    · rw [Function.update_of_ne heq]
      refine h.others other fun hmem => ?_
      rcases List.mem_cons.mp hmem with hmem | hmem
      · exact heq hmem
      · exact hother hmem

/-- The first reservation is in the map. -/
theorem head {key : K} {value : V} (h : Reserves before after ((key, value) :: added)) :
    after key = some value :=
  h.stored _ List.mem_cons_self

end Reserves

end Mrml
