import Mrml.Common.Generation

/-!
# Lifecycles of generational handles

A generational table with the history of its handles. A handle is minted with a value,
stays valid while its cell keeps them, and is then retired, either completed or dropped.
Values are minted only if they satisfy a predicate `P`.

Results:
* `HandleLedger.Step.inv`, `HandleLedger.Steps.inv`: the history and the table agree.
* `HandleLedger.Inv.completed_nodup`, `HandleLedger.Inv.value_unique`: every handle is
  completed at most once, with the one value it was minted with.
* `HandleLedger.Inv.not_holds_of_retired`: a retired handle is invalid.
-/

namespace Mrml

/-- A slot and a generation. -/
structure Handle where
  slot : UInt32
  generation : UInt32
deriving DecidableEq

/-- What happens to a handle. -/
inductive HandleEvent (α : Type*)
  | minted (h : Handle) (v : α)
  | completed (h : Handle) (v : α)
  | dropped (h : Handle)

namespace HandleEvent

variable {α : Type*}

/-- The minted handle with its value. -/
def minted? : HandleEvent α → Option (Handle × α)
  | minted h v => some (h, v)
  | completed _ _ => none
  | dropped _ => none

/-- The completed handle with its value. -/
def completed? : HandleEvent α → Option (Handle × α)
  | minted _ _ => none
  | completed h v => some (h, v)
  | dropped _ => none

/-- The handle that becomes invalid. -/
def retired? : HandleEvent α → Option Handle
  | minted _ _ => none
  | completed h _ => some h
  | dropped h => some h

end HandleEvent

/-- The minted handles, in order. -/
def mintedIn {α : Type*} (events : List (HandleEvent α)) : List (Handle × α) :=
  events.filterMap HandleEvent.minted?

/-- The completed handles, in order. -/
def completedIn {α : Type*} (events : List (HandleEvent α)) : List (Handle × α) :=
  events.filterMap HandleEvent.completed?

/-- The retired handles, in order. -/
def retiredIn {α : Type*} (events : List (HandleEvent α)) : List Handle :=
  events.filterMap HandleEvent.retired?

/-- A table and the history of its handles. -/
structure HandleLedger (N : ℕ) (α : Type*) where
  cells : Fin N → Cell α
  events : List (HandleEvent α)

namespace HandleLedger

variable {N : ℕ} {α : Type*} {P : α → Prop} {L L' : HandleLedger N α}

/-- What an operation can do to one handle. -/
inductive Step (P : α → Prop) (L : HandleLedger N α) : HandleLedger N α → Prop
  | mint (i : Fin N) (h : Handle) (v : α) (hslot : i.val = h.slot.toNat)
      (hcell : L.cells i = ⟨h.generation, none⟩) (hlive : h.generation ≠ 0) (hv : P v) :
      Step P L ⟨Function.update L.cells i ⟨h.generation, some v⟩, L.events ++ [.minted h v]⟩
  | complete (i : Fin N) (h : Handle) (v : α) (hslot : i.val = h.slot.toNat)
      (hcell : L.cells i = ⟨h.generation, some v⟩) :
      Step P L ⟨Function.update L.cells i ⟨succGeneration h.generation, none⟩,
        L.events ++ [.completed h v]⟩
  | drop (i : Fin N) (h : Handle) (v : α) (hslot : i.val = h.slot.toNat)
      (hcell : L.cells i = ⟨h.generation, some v⟩) :
      Step P L ⟨Function.update L.cells i ⟨succGeneration h.generation, none⟩,
        L.events ++ [.dropped h]⟩

/-- Any number of steps. -/
abbrev Steps (P : α → Prop) (L L' : HandleLedger N α) : Prop := Relation.ReflTransGen (Step P) L L'

/-- The history and the table agree. -/
structure Inv (P : α → Prop) (L : HandleLedger N α) : Prop where
  sound : Cell.Sound L.cells
  live : ∀ {h v}, Cell.Holds L.cells h.slot h.generation v → (h, v) ∈ mintedIn L.events
  minted : ∀ {h v}, (h, v) ∈ mintedIn L.events →
    Cell.Holds L.cells h.slot h.generation v ∨ Cell.Past L.cells h.slot h.generation
  retired : ∀ {h}, h ∈ retiredIn L.events → Cell.Past L.cells h.slot h.generation
  completed : ∀ {h v}, (h, v) ∈ completedIn L.events →
    (h, v) ∈ mintedIn L.events ∧ h ∈ retiredIn L.events
  good : ∀ {h v}, (h, v) ∈ mintedIn L.events → P v
  minted_nodup : ((mintedIn L.events).map Prod.fst).Nodup
  retired_nodup : (retiredIn L.events).Nodup
  completed_nodup : ((completedIn L.events).map Prod.fst).Nodup

/-- An empty table without a history. -/
theorem Inv.init {cells : Fin N → Cell α} (h : ∀ i, (cells i).value = none) :
    Inv P ⟨cells, []⟩ where
  sound i hi := absurd (h i) hi
  live := by
    rintro handle v ⟨i, -, hcell⟩
    exact absurd ((congrArg Cell.value hcell).symm.trans (h i)) (Option.some_ne_none v)
  minted h := nomatch h
  retired h := nomatch h
  completed h := nomatch h
  good h := nomatch h
  minted_nodup := List.nodup_nil
  retired_nodup := List.nodup_nil
  completed_nodup := List.nodup_nil

/-- A handle was minted with one value. -/
theorem Inv.value_unique (h : L.Inv P) {handle : Handle} {v v' : α}
    (hv : (handle, v) ∈ mintedIn L.events) (hv' : (handle, v') ∈ mintedIn L.events) : v = v' :=
  (Prod.mk.inj (List.inj_on_of_nodup_map h.minted_nodup hv hv' rfl)).2

theorem Inv.not_holds_of_retired (h : L.Inv P) {handle : Handle}
    (hretired : handle ∈ retiredIn L.events) (v : α) : ¬ Cell.Holds L.cells handle.slot handle.generation v :=
  Cell.not_holds_of_past h.sound (h.retired hretired) v

theorem Step.cells (hstep : Step P L L') : Cell.Step L.cells L'.cells := by
  cases hstep with
  | mint i h v hslot hcell hlive hv =>
    have hfill := Cell.Step.fill (t := L.cells) i v (by rw [hcell]) (by rw [hcell]; exact hlive)
    rwa [hcell] at hfill
  | complete i h v hslot hcell =>
    have hclear := Cell.Step.clear (t := L.cells) i (by rw [hcell]; exact Option.some_ne_none v)
    rwa [hcell] at hclear
  | drop i h v hslot hcell =>
    have hclear := Cell.Step.clear (t := L.cells) i (by rw [hcell]; exact Option.some_ne_none v)
    rwa [hcell] at hclear

/-- Retiring a handle leaves the other handles as they were. -/
theorem holds_clear {cells : Fin N → Cell α} {i : Fin N} {handle : Handle} {v : α}
    (hslot : i.val = handle.slot.toNat) (hcell : cells i = ⟨handle.generation, some v⟩)
    {handle' : Handle} {v' : α} :
    (Cell.Holds (Function.update cells i ⟨succGeneration handle.generation, none⟩) handle'.slot
      handle'.generation v' → Cell.Holds cells handle'.slot handle'.generation v') ∧
    (Cell.Holds cells handle'.slot handle'.generation v' → handle' ≠ handle →
      Cell.Holds (Function.update cells i ⟨succGeneration handle.generation, none⟩) handle'.slot
        handle'.generation v') := by
  constructor
  · rintro ⟨j, hj, hcell'⟩
    by_cases hji : j = i
    · subst hji
      rw [Function.update_self] at hcell'
      exact absurd (congrArg Cell.value hcell').symm (Option.some_ne_none v')
    · rw [Function.update_of_ne hji] at hcell'
      exact ⟨j, hj, hcell'⟩
  · rintro ⟨j, hj, hcell'⟩ hne
    have hji : j ≠ i := by
      rintro rfl
      rw [hcell] at hcell'
      refine hne ?_
      obtain ⟨slot, generation⟩ := handle
      obtain ⟨slot', generation'⟩ := handle'
      exact congrArg₂ Handle.mk (UInt32.toNat_inj.mp (hj.symm.trans hslot))
        (Cell.mk.inj hcell').1.symm
    exact ⟨j, hj, by rw [Function.update_of_ne hji]; exact hcell'⟩

/-- A new handle is one that the table has not had. -/
theorem Inv.mint (hinv : L.Inv P) {i : Fin N} {handle : Handle} {v : α}
    (hslot : i.val = handle.slot.toNat) (hcell : L.cells i = ⟨handle.generation, none⟩)
    (hlive : handle.generation ≠ 0) (hv : P v) :
    Inv P ⟨Function.update L.cells i ⟨handle.generation, some v⟩,
      L.events ++ [.minted handle v]⟩ := by
  have hstep := Step.mint (L := L) i handle v hslot hcell hlive hv
  have hminted : mintedIn (L.events ++ [.minted handle v]) = mintedIn L.events ++ [(handle, v)] :=
    List.filterMap_append
  have hretired : retiredIn (L.events ++ [.minted handle v]) = retiredIn L.events := by
    rw [retiredIn, List.filterMap_append]
    exact List.append_nil _
  have hcompleted : completedIn (L.events ++ [.minted handle v]) = completedIn L.events := by
    rw [completedIn, List.filterMap_append]
    exact List.append_nil _
  have hnew : ∀ {v'}, (handle, v') ∉ mintedIn L.events := by
    intro v' hmem
    rcases hinv.minted hmem with ⟨j, hj, hcell'⟩ | ⟨j, hj, hpast⟩
    · obtain rfl : i = j := Fin.ext (hslot.trans hj.symm)
      rw [hcell] at hcell'
      exact absurd (congrArg Cell.value hcell').symm (Option.some_ne_none v')
    · obtain rfl : i = j := Fin.ext (hslot.trans hj.symm)
      rw [hcell] at hpast
      exact hpast.elim hlive (UInt32.lt_irrefl _)
  refine ⟨hstep.cells.sound hinv.sound, ?_, ?_, ?_, ?_, ?_, ?_, ?_, ?_⟩
  · rintro h' v' ⟨j, hj, hcell'⟩
    dsimp only at hcell'
    rw [hminted, List.mem_append, List.mem_singleton]
    by_cases hji : j = i
    · subst hji
      rw [Function.update_self] at hcell'
      right
      obtain ⟨slot, generation⟩ := handle
      obtain ⟨slot', generation'⟩ := h'
      obtain ⟨hgeneration, hvalue⟩ := Cell.mk.inj hcell'
      rw [Prod.mk.injEq, Handle.mk.injEq]
      exact ⟨⟨UInt32.toNat_inj.mp (hj.symm.trans hslot), hgeneration.symm⟩,
        (Option.some_inj.mp hvalue).symm⟩
    · rw [Function.update_of_ne hji] at hcell'
      exact .inl (hinv.live ⟨j, hj, hcell'⟩)
  · intro h' v' hmem
    rw [hminted, List.mem_append, List.mem_singleton] at hmem
    rcases hmem with hmem | heq
    · rcases hinv.minted hmem with ⟨j, hj, hcell'⟩ | hpast
      · have hji : j ≠ i := by
          rintro rfl
          rw [hcell] at hcell'
          exact absurd (congrArg Cell.value hcell').symm (Option.some_ne_none v')
        exact .inl ⟨j, hj, (Function.update_of_ne hji _ _).trans hcell'⟩
      · exact .inr (hstep.cells.past hinv.sound hpast)
    · obtain ⟨rfl, rfl⟩ := Prod.mk.inj heq
      exact .inl ⟨i, hslot, Function.update_self _ _ _⟩
  · intro h' hmem
    rw [hretired] at hmem
    exact hstep.cells.past hinv.sound (hinv.retired hmem)
  · intro h' v' hmem
    rw [hcompleted] at hmem
    rw [hretired, hminted]
    obtain ⟨hm, hr⟩ := hinv.completed hmem
    exact ⟨List.mem_append_left _ hm, hr⟩
  · intro h' v' hmem
    rw [hminted, List.mem_append, List.mem_singleton] at hmem
    rcases hmem with hmem | heq
    · exact hinv.good hmem
    · exact (Prod.mk.inj heq).2 ▸ hv
  · rw [hminted, List.map_append, List.map_singleton, ← List.concat_eq_append]
    refine List.Nodup.concat ?_ hinv.minted_nodup
    intro hmem
    obtain ⟨⟨h', v'⟩, hmem', rfl⟩ := List.mem_map.mp hmem
    exact hnew hmem'
  · rw [hretired]
    exact hinv.retired_nodup
  · rw [hcompleted]
    exact hinv.completed_nodup

/-- A handle that is retired, by whichever event, was valid before and is invalid afterwards. -/
theorem Inv.retire (hinv : L.Inv P) {i : Fin N} {handle : Handle} {v : α}
    (hslot : i.val = handle.slot.toNat) (hcell : L.cells i = ⟨handle.generation, some v⟩)
    {event : HandleEvent α} (hm : event.minted? = none) (hr : event.retired? = some handle)
    (hc : event.completed? = none ∨ event.completed? = some (handle, v))
    (hcells : Cell.Step L.cells
      (Function.update L.cells i ⟨succGeneration handle.generation, none⟩)) :
    Inv P ⟨Function.update L.cells i ⟨succGeneration handle.generation, none⟩,
      L.events ++ [event]⟩ := by
  have hholds : Cell.Holds L.cells handle.slot handle.generation v := ⟨i, hslot, hcell⟩
  have hpast := Cell.past_clear L.cells hslot
  rw [hcell] at hpast
  have hminted : mintedIn (L.events ++ [event]) = mintedIn L.events := by
    rw [mintedIn, List.filterMap_append, List.filterMap_cons_none hm]
    exact List.append_nil _
  have hretired : retiredIn (L.events ++ [event]) = retiredIn L.events ++ [handle] := by
    rw [retiredIn, List.filterMap_append, List.filterMap_cons_some hr]
    rfl
  have hnew : handle ∉ retiredIn L.events :=
    fun hmem => hinv.not_holds_of_retired hmem v hholds
  have hcompleted : completedIn (L.events ++ [event]) = completedIn L.events ∨
      completedIn (L.events ++ [event]) = completedIn L.events ++ [(handle, v)] := by
    rw [completedIn, List.filterMap_append]
    rcases hc with hc | hc
    · left
      rw [List.filterMap_cons_none hc]
      exact List.append_nil _
    · right
      rw [List.filterMap_cons_some hc]
      rfl
  refine ⟨hcells.sound hinv.sound, ?_, ?_, ?_, ?_, ?_, ?_, ?_, ?_⟩
  · intro h' v' hholds'
    rw [hminted]
    exact hinv.live ((holds_clear hslot hcell).1 hholds')
  · intro h' v' hmem
    rw [hminted] at hmem
    by_cases heq : h' = handle
    · exact .inr (heq ▸ hpast)
    · rcases hinv.minted hmem with hholds' | hpast'
      · exact .inl ((holds_clear hslot hcell).2 hholds' heq)
      · exact .inr (hcells.past hinv.sound hpast')
  · intro h' hmem
    rw [hretired, List.mem_append, List.mem_singleton] at hmem
    rcases hmem with hmem | rfl
    · exact hcells.past hinv.sound (hinv.retired hmem)
    · exact hpast
  · intro h' v' hmem
    rw [hminted, hretired]
    have hmem' : (h', v') ∈ completedIn L.events ∨ (h', v') = (handle, v) := by
      rcases hcompleted with heq | heq
      · exact .inl (heq ▸ hmem)
      · rwa [heq, List.mem_append, List.mem_singleton] at hmem
    rcases hmem' with hmem | heq
    · obtain ⟨hm', hr'⟩ := hinv.completed hmem
      exact ⟨hm', List.mem_append_left _ hr'⟩
    · obtain ⟨rfl, rfl⟩ := Prod.mk.inj heq
      exact ⟨hinv.live hholds, List.mem_append_right _ (List.mem_singleton_self _)⟩
  · intro h' v' hmem
    rw [hminted] at hmem
    exact hinv.good hmem
  · rw [hminted]
    exact hinv.minted_nodup
  · rw [hretired, ← List.concat_eq_append]
    exact List.Nodup.concat hnew hinv.retired_nodup
  · rcases hcompleted with heq | heq
    · rw [heq]
      exact hinv.completed_nodup
    · rw [heq, List.map_append, List.map_singleton, ← List.concat_eq_append]
      refine List.Nodup.concat (fun hmem => ?_) hinv.completed_nodup
      obtain ⟨⟨h', v'⟩, hmem', rfl⟩ := List.mem_map.mp hmem
      exact hnew (hinv.completed hmem').2

theorem Step.inv (hstep : Step P L L') (hinv : L.Inv P) : L'.Inv P := by
  have hcells := hstep.cells
  cases hstep with
  | mint i h v hslot hcell hlive hv => exact hinv.mint hslot hcell hlive hv
  | complete i h v hslot hcell => exact hinv.retire hslot hcell rfl rfl (.inr rfl) hcells
  | drop i h v hslot hcell => exact hinv.retire hslot hcell rfl rfl (.inl rfl) hcells

theorem Steps.inv (hsteps : Steps P L L') (hinv : L.Inv P) : L'.Inv P := by
  induction hsteps with
  | refl => exact hinv
  | tail _ hstep ih => exact hstep.inv ih

/-- The history only grows. -/
theorem Steps.events (hsteps : Steps P L L') : L.events <+: L'.events := by
  induction hsteps with
  | refl => exact List.prefix_refl _
  | tail _ hstep ih =>
    cases hstep with
    | mint => exact ih.trans (List.prefix_append _ _)
    | complete => exact ih.trans (List.prefix_append _ _)
    | drop => exact ih.trans (List.prefix_append _ _)

end HandleLedger

end Mrml
