import Mrml.Common.Int

/-!
# Checked computations

Rust functions that return early with `?` are computations in `Except ε`. This file has
`ok_or`, early returns on a condition and the checked products of the Rust standard
library, each with one lemma that says when it goes through.
-/

namespace Mrml

variable {ε α β : Type}

/-- With overflow checks or without. -/
inductive Build
  | debug | release
deriving DecidableEq

/-- `option.ok_or(error)`. -/
def okOr (x : Option α) (error : ε) : Except ε α :=
  match x with
  | none => .error error
  | some a => .ok a

/-- `if refused { return Err(error) }`. -/
def refuseIf (refused : Prop) [Decidable refused] (error : ε) : Except ε Unit :=
  if refused then .error error else .ok ()

theorem okOr_eq_ok {x : Option α} {error : ε} {a : α} :
    okOr x error = .ok a ↔ x = some a := by
  cases x <;> simp [okOr]

theorem refuseIf_eq_ok {refused : Prop} [Decidable refused] {error : ε} {u : Unit} :
    refuseIf refused error = .ok u ↔ ¬ refused := by
  unfold refuseIf
  split_ifs with h <;> simp [h]

theorem okOr_some (a : α) (error : ε) : okOr (some a) error = .ok a := rfl

theorem refuseIf_of_eq_false {b : Bool} {error : ε} (h : b = false) :
    refuseIf (b = true) error = .ok () := refuseIf_eq_ok.mpr (Bool.not_eq_true b ▸ h)

theorem refuseIf_of_not {refused : Prop} [Decidable refused] {error : ε} (h : ¬ refused) :
    refuseIf refused error = .ok () := refuseIf_eq_ok.mpr h

theorem ok_bind (a : α) (f : α → Except ε β) : (Except.ok a >>= f) = f a := rfl

/-- A computation goes through if both of its parts do. -/
theorem bind_eq_ok {x : Except ε α} {f : α → Except ε β} {b : β} :
    (x >>= f) = .ok b ↔ ∃ a, x = .ok a ∧ f a = .ok b := by
  cases x with
  | error error => simp [bind, Except.bind]
  | ok a => simp [bind, Except.bind]

theorem mapError_eq_ok {ε' : Type} {f : ε → ε'} {x : Except ε α} {a : α} :
    x.mapError f = .ok a ↔ x = .ok a := by
  cases x <;> simp [Except.mapError]

/-- A result together with the computation that gave it. -/
def attach : (x : Except ε α) → Except ε {a // x = .ok a}
  | .error error => .error error
  | .ok a => .ok ⟨a, rfl⟩

theorem attach_eq {x : Except ε α} {a : {a // x = .ok a}} : attach x = .ok a := by
  obtain ⟨a, rfl⟩ := a
  rfl

/-- A loop of checks goes through if each of them does. -/
theorem of_forM_eq_ok {f : α → Except ε PUnit} {items : List α} {u : PUnit}
    (h : items.forM f = .ok u) : ∀ item ∈ items, f item = .ok () := by
  induction items generalizing u with
  | nil => simp
  | cons item items ih =>
    rw [List.forM_eq_forM, List.forM_cons] at h
    obtain ⟨_, hitem, h⟩ := bind_eq_ok.mp h
    exact List.forall_mem_cons.mpr ⟨hitem, ih h⟩

/-- The results of a loop that goes through. -/
theorem of_mapM_eq_ok {f : α → Except ε β} {P : β → Prop} (hf : ∀ a b, f a = .ok b → P b)
    {items : List α} {results : List β} (h : items.mapM f = .ok results) :
    results.length = items.length ∧ ∀ b ∈ results, P b := by
  induction items generalizing results with
  | nil =>
    obtain rfl := Except.ok.inj h
    exact ⟨rfl, by simp⟩
  | cons item items ih =>
    rw [List.mapM_cons] at h
    obtain ⟨b, hb, h⟩ := bind_eq_ok.mp h
    obtain ⟨rest, hrest, h⟩ := bind_eq_ok.mp h
    obtain rfl := Except.ok.inj h
    obtain ⟨hlength, hall⟩ := ih hrest
    exact ⟨congrArg Nat.succ hlength, List.forall_mem_cons.mpr ⟨hf item b hb, hall⟩⟩

/-- A loop goes through if each of its turns does. -/
theorem mapM_eq_ok_map {f : α → Except ε β} {g : α → β} {items : List α}
    (h : ∀ item ∈ items, f item = .ok (g item)) : items.mapM f = .ok (items.map g) := by
  induction items with
  | nil => rfl
  | cons item items ih =>
    obtain ⟨hitem, hitems⟩ := List.forall_mem_cons.mp h
    rw [List.mapM_cons, hitem, ih hitems]
    rfl

theorem exists_mapM_eq_ok {f : α → Except ε β} {items : List α}
    (h : ∀ item ∈ items, ∃ b, f item = .ok b) : ∃ results, items.mapM f = .ok results := by
  induction items with
  | nil => exact ⟨[], rfl⟩
  | cons item items ih =>
    obtain ⟨⟨b, hitem⟩, hitems⟩ := List.forall_mem_cons.mp h
    obtain ⟨results, hresults⟩ := ih hitems
    refine ⟨b :: results, ?_⟩
    rw [List.mapM_cons, hitem, hresults]
    rfl

/-- Each result of a loop comes from one of its turns. -/
theorem forall₂_of_mapM_eq_ok {f : α → Except ε β} {items : List α} {results : List β}
    (h : items.mapM f = .ok results) : List.Forall₂ (fun a b => f a = .ok b) items results := by
  induction items generalizing results with
  | nil =>
    obtain rfl := Except.ok.inj h
    exact .nil
  | cons item items ih =>
    rw [List.mapM_cons] at h
    obtain ⟨b, hb, h⟩ := bind_eq_ok.mp h
    obtain ⟨rest, hrest, h⟩ := bind_eq_ok.mp h
    obtain rfl := Except.ok.inj h
    exact .cons hb (ih hrest)

theorem mem_of_mapM_eq_ok {f : α → Except ε β} {items : List α} {results : List β}
    (h : items.mapM f = .ok results) {b : β} : b ∈ results ↔ ∃ a ∈ items, f a = .ok b := by
  have hall := forall₂_of_mapM_eq_ok h
  clear h
  induction hall with
  | nil => simp
  | @cons a b' items results hab _ ih =>
    simp only [List.mem_cons, exists_eq_or_imp, hab, Except.ok.injEq, ih]
    exact or_congr_left eq_comm

/-- What every turn of a loop keeps of its item. -/
theorem map_of_mapM_eq_ok {γ : Type} {f : α → Except ε β} {g : β → γ} {k : α → γ}
    (hg : ∀ a b, f a = .ok b → g b = k a) {items : List α} {results : List β}
    (h : items.mapM f = .ok results) : results.map g = items.map k := by
  have hall := forall₂_of_mapM_eq_ok h
  clear h
  induction hall with
  | nil => rfl
  | cons hab _ ih => rw [List.map_cons, List.map_cons, hg _ _ hab, ih]

/-- A loop whose turns are loops themselves is one loop. -/
theorem foldlM_flatMap_of {σ : Type} {step : σ → α → Except ε σ} {g : σ → β → Except ε σ}
    {f : α → List β} {items : List α} (h : ∀ item ∈ items, ∀ s, step s item = (f item).foldlM g s)
    (s : σ) : items.foldlM step s = (items.flatMap f).foldlM g s := by
  induction items generalizing s with
  | nil => rfl
  | cons item items ih =>
    obtain ⟨hitem, hitems⟩ := List.forall_mem_cons.mp h
    rw [List.foldlM_cons, List.flatMap_cons, List.foldlM_append, hitem]
    exact congrArg _ (funext fun s' => ih hitems s')

/-- A loop that looks for one item with a property and checks them all. -/
theorem of_foldlM_or_eq_ok {f : α → Except ε Bool} {items : List α} {found result : Bool}
    (h : items.foldlM (fun found item => do return found || (← f item)) found = .ok result) :
    (∀ item ∈ items, ∃ hit, f item = .ok hit) ∧
      (result = true → found = true ∨ ∃ item ∈ items, f item = .ok true) := by
  induction items generalizing found with
  | nil =>
    obtain rfl := Except.ok.inj h
    exact ⟨by simp, .inl⟩
  | cons item items ih =>
    rw [List.foldlM_cons] at h
    obtain ⟨found', hstep, h⟩ := bind_eq_ok.mp h
    obtain ⟨hit, hitem, hfound⟩ := bind_eq_ok.mp hstep
    obtain rfl := Except.ok.inj hfound
    obtain ⟨hall, hany⟩ := ih h
    refine ⟨List.forall_mem_cons.mpr ⟨⟨hit, hitem⟩, hall⟩, fun hresult => ?_⟩
    rcases hany hresult with hor | ⟨x, hx, hfx⟩
    · rcases (Bool.or_eq_true _ _).mp hor with hf | rfl
      · exact .inl hf
      · exact .inr ⟨item, List.mem_cons_self .., hitem⟩
    · exact .inr ⟨x, List.mem_cons_of_mem _ hx, hfx⟩

/-- `u64::checked_mul`. -/
def checkedMul64 (a b : UInt64) : Option UInt64 :=
  if a.toNat * b.toNat < 2 ^ 64 then some (a * b) else none

/-- `u64::saturating_mul`. -/
def saturatingMul64 (a b : UInt64) : UInt64 := (checkedMul64 a b).getD (UInt64.ofNat (2 ^ 64 - 1))

theorem checkedMul64_eq_some {a b c : UInt64} :
    checkedMul64 a b = some c ↔ c.toNat = a.toNat * b.toNat := by
  have hc := c.toNat_lt
  unfold checkedMul64
  split_ifs with h
  · rw [Option.some_inj, ← UInt64.toNat_inj, UInt64.toNat_mul, Nat.mod_eq_of_lt h]
    exact eq_comm
  · simp only [false_iff]
    omega

end Mrml
