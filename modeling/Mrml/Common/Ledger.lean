import Mathlib
import Mrml.Common.Run

/-!
# Items in places

An abstract account of linear ownership. A system has a set `P` of places, each
of which is empty or holds one item with contents `B`. One step of the system
has one `Effect`: it leaves everything, puts a new item into a free place,
destroys an item, changes the contents of an item where it is, or moves an item
to a free place. A `Ledger` numbers the items in the order of their creation and
follows the effects.

Results:
* `Ledger.Sound.apply`: every item that was created and not destroyed is in
  exactly one place.
* `exists_effects`: a system whose steps have effects is followed by a ledger
  that counts what was created and what was terminated.
-/

namespace Mrml

section Ledger

variable {P B : Type*}

/-- What one step does to the places. -/
inductive Effect (P B : Type*)
  | stay
  | spawn (p : P) (b : B)
  | kill (p : P)
  | edit (p : P) (b : B)
  | move (p q : P)

/-- What a step is seen to do from outside. -/
inductive Event
  | created
  | terminated
  | edited
  | moved
deriving DecidableEq

/-- The effects that an event allows. Items appear only when something is
    created, disappear only when something is terminated, and a move keeps
    their contents. -/
def Effect.Within : Effect P B → Event → Prop
  | .spawn _ _, e => e = .created
  | .kill _, e => e = .terminated
  | .edit _ _, e => e = .edited
  | .move _ _, e => e = .moved
  | .stay, e => e = .edited ∨ e = .moved

/-- The effect on the contents of the places. -/
def Effect.apply [DecidableEq P] (c : P → Option B) : Effect P B → P → Option B
  | .stay => c
  | .spawn p b => Function.update c p (some b)
  | .kill p => Function.update c p none
  | .edit p b => Function.update c p (some b)
  | .move p q => Function.update (Function.update c p none) q (c p)

/-- An effect takes an item only from where one is and puts it only where none is. -/
def Effect.Legal (c : P → Option B) : Effect P B → Prop
  | .stay => True
  | .spawn p _ => c p = none
  | .kill p => (c p).isSome
  | .edit p _ => (c p).isSome
  | .move p q => (c p).isSome ∧ c q = none

/-- The numbered items: how many were created, which were destroyed, and the
    item in each place. -/
structure Ledger (P B : Type*) where
  issued : ℕ
  retired : Finset ℕ
  cells : P → Option (ℕ × B)

namespace Ledger

/-- No item was ever created. -/
def empty : Ledger P B := ⟨0, ∅, fun _ => none⟩

/-- The contents of the places. -/
def contents (L : Ledger P B) (p : P) : Option B := (L.cells p).map Prod.snd

/-- Item `n` was created and not destroyed. -/
def Alive (L : Ledger P B) (n : ℕ) : Prop := n < L.issued ∧ n ∉ L.retired

/-- Item `n` is in place `p`. -/
def At (L : Ledger P B) (n : ℕ) (p : P) : Prop := ∃ b, L.cells p = some (n, b)

/-- The ledger after an effect. -/
def apply [DecidableEq P] (L : Ledger P B) : Effect P B → Ledger P B
  | .stay => L
  | .spawn p b =>
    { L with issued := L.issued + 1, cells := Function.update L.cells p (some (L.issued, b)) }
  | .kill p =>
    { L with
      retired := L.retired ∪ ((L.cells p).map Prod.fst).toFinset
      cells := Function.update L.cells p none }
  | .edit p b =>
    { L with cells := Function.update L.cells p ((L.cells p).map fun item => (item.1, b)) }
  | .move p q =>
    { L with cells := Function.update (Function.update L.cells p none) q (L.cells p) }

/-- Every living item is in exactly one place, and every item in a place lives. -/
structure Sound (L : Ledger P B) : Prop where
  retired_lt : ∀ n ∈ L.retired, n < L.issued
  alive_iff : ∀ n, L.Alive n ↔ ∃ p, L.At n p
  unique : ∀ {n p q}, L.At n p → L.At n q → p = q

theorem Sound.existsUnique {L : Ledger P B} (h : L.Sound) {n : ℕ} (hn : L.Alive n) :
    ∃! p, L.At n p := by
  obtain ⟨p, hp⟩ := (h.alive_iff n).mp hn
  exact ⟨p, hp, fun q hq => h.unique hq hp⟩

theorem empty_sound : (empty : Ledger P B).Sound := by
  refine ⟨by simp [empty], fun n => ?_, ?_⟩
  · simp [Alive, At, empty]
  · rintro n p q ⟨b, hb⟩
    cases hb

theorem apply_contents [DecidableEq P] (L : Ledger P B) (e : Effect P B) (h : e.Legal L.contents) :
    (L.apply e).contents = e.apply L.contents := by
  funext r
  cases e with
  | stay => rfl
  | spawn p b =>
    by_cases hr : r = p
    · subst hr
      simp [contents, apply, Effect.apply]
    · simp [contents, apply, Effect.apply, hr]
  | kill p =>
    by_cases hr : r = p
    · subst hr
      simp [contents, apply, Effect.apply]
    · simp [contents, apply, Effect.apply, hr]
  | edit p b =>
    by_cases hr : r = p
    · subst hr
      obtain ⟨item, hitem⟩ : ∃ item, L.cells r = some item := by
        simpa [Effect.Legal, contents, Option.isSome_iff_exists] using h
      simp [contents, apply, Effect.apply, hitem]
    · simp [contents, apply, Effect.apply, hr]
  | move p q =>
    by_cases hr : r = q
    · subst hr
      simp [contents, apply, Effect.apply]
    · by_cases hp : r = p
      · subst hp
        simp [contents, apply, Effect.apply, hr]
      · simp [contents, apply, Effect.apply, hr, hp]

/-- The account stays right after every legal effect. -/
theorem Sound.apply [DecidableEq P] {L : Ledger P B} (h : L.Sound) {e : Effect P B} (he : e.Legal L.contents) :
    (L.apply e).Sound := by
  cases e with
  | stay => exact h
  | spawn p b =>
    have hfree : L.cells p = none := by simpa [Effect.Legal, contents] using he
    have hat : ∀ n r, (L.apply (.spawn p b)).At n r ↔ (n = L.issued ∧ r = p) ∨ L.At n r := by
      intro n r
      by_cases hr : r = p
      · subst hr
        simp [At, Ledger.apply, hfree, eq_comm]
      · simp [At, Ledger.apply, hr]
    -- the new number is not yet in any place
    have hnew : ∀ r, ¬ L.At L.issued r := fun r hr =>
      Nat.lt_irrefl _ ((h.alive_iff _).mpr ⟨r, hr⟩).1
    refine ⟨fun n hn => Nat.lt_succ_of_lt (h.retired_lt n hn), fun n => ?_, fun {n r r'} hr hr' => ?_⟩
    · simp only [hat, exists_or, exists_and_left, exists_eq, and_true, ← h.alive_iff]
      constructor
      · rintro ⟨hlt, hret⟩
        exact (Nat.lt_succ_iff_lt_or_eq.mp hlt).symm.imp_right fun hlt => ⟨hlt, hret⟩
      · rintro (rfl | ⟨hlt, hret⟩)
        · exact ⟨Nat.lt_succ_self _, fun hret => Nat.lt_irrefl _ (h.retired_lt _ hret)⟩
        · exact ⟨Nat.lt_succ_of_lt hlt, hret⟩
    · rw [hat] at hr hr'
      rcases hr with ⟨rfl, rfl⟩ | hr
      · rcases hr' with ⟨-, rfl⟩ | hr'
        · rfl
        · exact absurd hr' (hnew r')
      · rcases hr' with ⟨rfl, rfl⟩ | hr'
        · exact absurd hr (hnew r)
        · exact h.unique hr hr'
  | kill p =>
    obtain ⟨⟨k, b⟩, hk⟩ : ∃ item, L.cells p = some item := by
      simpa [Effect.Legal, contents, Option.isSome_iff_exists] using he
    have hat : ∀ n r, (L.apply (.kill p)).At n r ↔ n ≠ k ∧ L.At n r := by
      intro n r
      by_cases hr : r = p
      · subst hr
        simp [At, Ledger.apply, hk, eq_comm]
      · simp only [At, Ledger.apply, Function.update_of_ne hr]
        refine (and_iff_right_of_imp ?_).symm
        rintro ⟨b', hb'⟩ rfl
        exact hr (h.unique ⟨b', hb'⟩ ⟨b, hk⟩)
    have hret : (L.apply (.kill p)).retired = L.retired ∪ {k} := by simp [Ledger.apply, hk]
    refine ⟨fun n hn => ?_, fun n => ?_, fun {n r r'} hr hr' => ?_⟩
    · rw [hret, Finset.mem_union, Finset.mem_singleton] at hn
      rcases hn with hn | rfl
      · exact h.retired_lt n hn
      · exact ((h.alive_iff _).mpr ⟨p, b, hk⟩).1
    · simp only [hat, exists_and_left, ← h.alive_iff]
      simp only [Alive, hret, Finset.mem_union, Finset.mem_singleton]
      have hissued : (L.apply (.kill p)).issued = L.issued := rfl
      rw [hissued]
      tauto
    · exact h.unique ((hat n r).mp hr).2 ((hat n r').mp hr').2
  | edit p b =>
    have hat : ∀ n r, (L.apply (.edit p b)).At n r ↔ L.At n r := by
      intro n r
      by_cases hr : r = p
      · subst hr
        cases hc : L.cells r with
        | none => simp [At, Ledger.apply, hc]
        | some item => simp [At, Ledger.apply, hc, Prod.ext_iff]
      · simp [At, Ledger.apply, hr]
    refine ⟨h.retired_lt, fun n => ?_, fun {n r r'} hr hr' => ?_⟩
    · simp only [hat]
      exact h.alive_iff n
    · exact h.unique ((hat n r).mp hr) ((hat n r').mp hr')
  | move p q =>
    obtain ⟨⟨⟨k, b⟩, hk⟩, hfree⟩ : (∃ item, L.cells p = some item) ∧ L.cells q = none := by
      simpa [Effect.Legal, contents, Option.isSome_iff_exists] using he
    have hat : ∀ n r, (L.apply (.move p q)).At n r ↔ (n = k ∧ r = q) ∨ (n ≠ k ∧ L.At n r) := by
      intro n r
      by_cases hr : r = q
      · subst hr
        simp [At, Ledger.apply, hk, hfree, eq_comm]
      · by_cases hp : r = p
        · subst hp
          simp [At, Ledger.apply, hk, hr, eq_comm]
        · simp only [At, Ledger.apply, Function.update_of_ne hr, Function.update_of_ne hp]
          simp only [hr, and_false, false_or]
          refine (and_iff_right_of_imp ?_).symm
          rintro ⟨b', hb'⟩ rfl
          exact hp (h.unique ⟨b', hb'⟩ ⟨b, hk⟩)
    refine ⟨h.retired_lt, fun n => ?_, fun {n r r'} hr hr' => ?_⟩
    · simp only [hat, exists_or, exists_and_left, exists_eq, and_true, ← h.alive_iff]
      have hk' : L.Alive k := (h.alive_iff k).mpr ⟨p, b, hk⟩
      constructor
      · intro hn
        by_cases hnk : n = k
        · exact .inl hnk
        · exact .inr ⟨hnk, hn⟩
      · rintro (rfl | ⟨-, hn⟩)
        · exact hk'
        · exact hn
    · rw [hat] at hr hr'
      rcases hr with ⟨rfl, rfl⟩ | ⟨hne, hr⟩
      · rcases hr' with ⟨-, rfl⟩ | ⟨hne, -⟩
        · rfl
        · exact absurd rfl hne
      · rcases hr' with ⟨rfl, -⟩ | ⟨-, hr'⟩
        · exact absurd rfl hne
        · exact h.unique hr hr'

end Ledger

/-! ## A system followed by a ledger -/

variable {σ ι : Type*}

/-- The events of a run. -/
def events (step : σ → ι → σ) (event : σ → ι → Event) : σ → List ι → List Event
  | _, [] => []
  | s, op :: ops => event s op :: events step event (step s op) ops

/-- Items are numbered as they are created. -/
theorem Ledger.apply_issued [DecidableEq P] (L : Ledger P B) {e : Effect P B} {event : Event}
    (h : e.Within event) :
    (L.apply e).issued = L.issued + if event = .created then 1 else 0 := by
  cases e with
  | spawn p b => rw [h]; rfl
  | kill p => rw [h]; rfl
  | edit p b => rw [h]; rfl
  | move p q => rw [h]; rfl
  | stay => rcases h with rfl | rfl <;> rfl

/-- Each termination retires one item more. -/
theorem Ledger.Sound.apply_retired [DecidableEq P] {L : Ledger P B} (hL : L.Sound) {e : Effect P B}
    (hlegal : e.Legal L.contents) {event : Event} (h : e.Within event) :
    (L.apply e).retired.card = L.retired.card + if event = .terminated then 1 else 0 := by
  cases e with
  | spawn p b => rw [h]; rfl
  | kill p =>
    obtain ⟨⟨k, b⟩, hk⟩ : ∃ item, L.cells p = some item := by
      simpa [Effect.Legal, Ledger.contents, Option.isSome_iff_exists] using hlegal
    have hnew : k ∉ L.retired := ((hL.alive_iff k).mpr ⟨p, b, hk⟩).2
    rw [h]
    simp [Ledger.apply, hk, Finset.union_comm L.retired, hnew]
  | edit p b => rw [h]; rfl
  | move p q => rw [h]; rfl
  | stay => rcases h with rfl | rfl <;> rfl

/-- `L` follows the events: `created` and `terminated` count its items, its
    account is right and its contents are `contents`. -/
structure Ledger.Follows (L : Ledger P B) (events : List Event) (contents : P → Option B) :
    Prop where
  issued : L.issued = events.count .created
  retired : L.retired.card = events.count .terminated
  sound : L.Sound
  contents_eq : L.contents = contents

/-- A system whose steps, from states with `Inv`, have one legal effect each is
    followed by a ledger. -/
theorem exists_effects [DecidableEq P] (step : σ → ι → σ) (event : σ → ι → Event)
    (Inv : σ → Prop) (contents : σ → P → Option B) (hinv : ∀ s op, Inv s → Inv (step s op))
    (heffect : ∀ s op, Inv s → ∃ e : Effect P B, e.Within (event s op) ∧ e.Legal (contents s) ∧
      contents (step s op) = e.apply (contents s)) (ops : List ι) :
    ∀ {s : σ} {L : Ledger P B} {past : List Event}, Inv s → L.Follows past (contents s) →
      ∃ effects : List (Effect P B),
        List.Forall₂ Effect.Within effects (events step event s ops) ∧
        (run Ledger.apply L effects).Follows (past ++ events step event s ops)
          (contents (run step s ops)) := by
  induction ops with
  | nil => exact fun {s L past} _ hL => ⟨[], .nil, by simpa [events] using hL⟩
  | cons op ops ih =>
    intro s L past hs hL
    obtain ⟨e, hwithin, hlegal, happly⟩ := heffect s op hs
    have hlegal' : e.Legal L.contents := hL.contents_eq ▸ hlegal
    have hnext : (L.apply e).Follows (past ++ [event s op]) (contents (step s op)) := by
      refine ⟨?_, ?_, hL.sound.apply hlegal', ?_⟩
      · rw [L.apply_issued hwithin, hL.issued, List.count_append, List.count_singleton']
      · rw [hL.sound.apply_retired hlegal' hwithin, hL.retired, List.count_append,
          List.count_singleton']
      · rw [L.apply_contents e hlegal', hL.contents_eq, happly]
    obtain ⟨effects, hforall, hfollows⟩ := ih (hinv s op hs) hnext
    refine ⟨e :: effects, .cons hwithin hforall, ?_⟩
    rwa [List.append_assoc] at hfollows

end Ledger

end Mrml
