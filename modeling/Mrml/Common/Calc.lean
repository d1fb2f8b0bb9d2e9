import Mathlib

/-!
# Calculations on machine integers

The plain operators of Rust panic in a debug build if the result does not fit into its type, and
wrap around in a release build. The `checked` methods return `None`. A `Calc` is a calculation as
the tree of its operations, each with its exact result. What a build makes of it is a reading of
the tree, and so are the unbounded integers.

Results:
* `builds_agree`: a calculation in which no plain operator overflows has one result.
* `unbounded_of_debug`, `debug_of_small`: what the range checks of the checked methods change.
* `safe_op_bind` and the rules for the other steps: `Safe` is proved along the calculation.
-/

namespace Mrml

variable {ε α β : Type}

/-- A calculation that returns `Result<α, ε>`. -/
inductive Calc (ε α : Type)
  | ret (a : α)
  | fail (e : ε)
  | plain (bits : ℕ) (exact : ℤ) (next : ℤ → Calc ε α)
  | checked (bits : ℕ) (exact : ℤ) (e : ε) (next : ℤ → Calc ε α)

/-- The unsigned type of `bits` bits holds `n`. -/
def FitsIn (bits : ℕ) (n : ℤ) : Prop := 0 ≤ n ∧ n < 2 ^ bits
deriving Decidable

theorem FitsIn.emod {bits : ℕ} {n : ℤ} (h : FitsIn bits n) : n % 2 ^ bits = n :=
  Int.emod_eq_of_lt h.1 h.2

namespace Calc

/-- The steps of `x`, and then those of `f`. -/
protected def bind : Calc ε α → (α → Calc ε β) → Calc ε β
  | ret a, f => f a
  | fail e, _ => fail e
  | plain bits exact next, f => plain bits exact fun n => (next n).bind f
  | checked bits exact e next, f => checked bits exact e fun n => (next n).bind f

instance : Monad (Calc ε) where
  pure := ret
  bind := Calc.bind

theorem pure_def (a : α) : (pure a : Calc ε α) = ret a := rfl

theorem bind_ret (x : Calc ε α) : x.bind ret = x := by
  induction x with
  | ret a => rfl
  | fail e => rfl
  | plain bits exact next ih => exact congrArg (plain bits exact) (funext ih)
  | checked bits exact e next ih => exact congrArg (checked bits exact e) (funext ih)

theorem bind_bind {γ : Type} (x : Calc ε α) (f : α → Calc ε β) (g : β → Calc ε γ) :
    (x.bind f).bind g = x.bind fun a => (f a).bind g := by
  induction x with
  | ret a => rfl
  | fail e => rfl
  | plain bits exact next ih => exact congrArg (plain bits exact) (funext ih)
  | checked bits exact e next ih => exact congrArg (checked bits exact e) (funext ih)

instance : LawfulMonad (Calc ε) := LawfulMonad.mk' _ bind_ret (fun _ _ => rfl) bind_bind

/-- A plain operator with the result `exact`. -/
def op (bits : ℕ) (exact : ℤ) : Calc ε ℤ := plain bits exact ret

/-- A checked method with `ok_or(e)?`. -/
def check (bits : ℕ) (exact : ℤ) (e : ε) : Calc ε ℤ := checked bits exact e ret

/-- `if refused { return Err(e) }`. -/
def refuse (refused : Prop) [Decidable refused] (e : ε) : Calc ε Unit :=
  if refused then fail e else ret ()

/-- `option.ok_or(e)?`. -/
def okOr (x : Option α) (e : ε) : Calc ε α :=
  match x with
  | none => fail e
  | some a => ret a

/-! ## Readings -/

/-- A debug build; `none` is a panic. -/
def debug : Calc ε α → Option (Except ε α)
  | ret a => some (.ok a)
  | fail e => some (.error e)
  | plain bits exact next => if FitsIn bits exact then (next exact).debug else none
  | checked bits exact e next =>
    if FitsIn bits exact then (next exact).debug else some (.error e)

/-- A release build. -/
def release : Calc ε α → Except ε α
  | ret a => .ok a
  | fail e => .error e
  | plain bits exact next => (next (exact % 2 ^ bits)).release
  | checked bits exact e next => if FitsIn bits exact then (next exact).release else .error e

/-- The plain operators on unbounded integers, with the range checks of the checked methods. -/
def integers : Calc ε α → Except ε α
  | ret a => .ok a
  | fail e => .error e
  | plain _ exact next => (next exact).integers
  | checked bits exact e next => if FitsIn bits exact then (next exact).integers else .error e

/-- All operations on unbounded integers, where a checked method always succeeds. -/
def unbounded : Calc ε α → Except ε α
  | ret a => .ok a
  | fail e => .error e
  | plain _ exact next => (next exact).unbounded
  | checked _ exact _ next => (next exact).unbounded

/-- No plain operator overflows. -/
def Safe (x : Calc ε α) : Prop := x.debug ≠ none

/-- No plain operator overflows, unless `P` and the calculation is refused with `e` all the same. -/
def SafeUnless (P : Prop) (e : ε) (x : Calc ε α) : Prop :=
  x.Safe ∨ P ∧ x.release = .error e ∧ x.integers = .error e

/-- No operation at all overflows. -/
def Small : Calc ε α → Prop
  | ret _ => True
  | fail _ => True
  | plain bits exact next => FitsIn bits exact ∧ (next exact).Small
  | checked bits exact _ next => FitsIn bits exact ∧ (next exact).Small

/-- Without an overflow, the builds and the integers agree. -/
theorem builds_agree {x : Calc ε α} {result : Except ε α} (h : x.debug = some result) :
    x.release = result ∧ x.integers = result := by
  induction x with
  | ret a =>
    obtain rfl := Option.some.inj h
    exact ⟨rfl, rfl⟩
  | fail e =>
    obtain rfl := Option.some.inj h
    exact ⟨rfl, rfl⟩
  | plain bits exact next ih =>
    rw [debug] at h
    split_ifs at h with hfits
    rw [release, integers, hfits.emod]
    exact ih exact h
  | checked bits exact e next ih =>
    rw [debug] at h
    rw [release, integers]
    split_ifs at h ⊢ with hfits
    · exact ih exact h
    · obtain rfl := Option.some.inj h
      exact ⟨rfl, rfl⟩

/-- A value that a debug build returns is the value on unbounded integers. -/
theorem unbounded_of_debug {x : Calc ε α} {a : α} (h : x.debug = some (.ok a)) :
    x.unbounded = .ok a := by
  induction x with
  | ret b => exact Option.some.inj h
  | fail e => exact Option.some.inj h
  | plain bits exact next ih =>
    rw [debug] at h
    split_ifs at h
    exact ih exact h
  | checked bits exact e next ih =>
    rw [debug] at h
    split_ifs at h
    · exact ih exact h
    · exact nomatch h

/-- If no operation overflows, the unbounded integers agree with the builds. -/
theorem debug_of_small {x : Calc ε α} (h : x.Small) : x.debug = some x.unbounded := by
  induction x with
  | ret a => rfl
  | fail e => rfl
  | plain bits exact next ih =>
    rw [debug, if_pos h.1]
    exact ih exact h.2
  | checked bits exact e next ih =>
    rw [debug, if_pos h.1]
    exact ih exact h.2

/-! ## Rules for safety -/

theorem debug_bind (x : Calc ε α) (f : α → Calc ε β) :
    (x >>= f).debug = x.debug.bind fun result =>
      match result with
      | .ok a => (f a).debug
      | .error e => some (.error e) := by
  show (x.bind f).debug = _
  induction x with
  | ret a => rfl
  | fail e => rfl
  | plain bits exact next ih =>
    rw [Calc.bind, debug, debug, ih exact]
    split_ifs <;> rfl
  | checked bits exact e next ih =>
    rw [Calc.bind, debug, debug, ih exact]
    split_ifs <;> rfl

@[simp] theorem safe_pure (a : α) : Safe (pure a : Calc ε α) := by
  show some _ ≠ none
  simp

@[simp] theorem safe_fail (e : ε) : Safe (fail e : Calc ε α) := by
  show some _ ≠ none
  simp

@[simp] theorem safe_map {f : α → β} {x : Calc ε α} : Safe (f <$> x) ↔ Safe x := by
  unfold Safe
  rw [← bind_pure_comp, debug_bind]
  cases x.debug with
  | none => simp
  | some result => cases result <;> simp [pure_def, debug]

@[simp] theorem safe_op {bits : ℕ} {exact : ℤ} :
    Safe (op bits exact : Calc ε ℤ) ↔ FitsIn bits exact := by
  unfold Safe
  rw [op, debug]
  split_ifs with hfits
  · simp [hfits, debug]
  · simp [hfits]

@[simp] theorem safe_check {bits : ℕ} {exact : ℤ} {e : ε} : Safe (check bits exact e) := by
  unfold Safe
  rw [check, debug]
  split_ifs <;> simp [debug]

@[simp] theorem safe_refuse {refused : Prop} [Decidable refused] {e : ε} :
    Safe (refuse refused e) := by
  unfold Safe
  rw [refuse]
  split_ifs <;> simp [debug]

section

variable {f : α → Calc ε β}

@[simp] theorem safe_pure_bind {a : α} : Safe (pure a >>= f) ↔ Safe (f a) := Iff.rfl

@[simp] theorem safe_fail_bind {e : ε} : Safe (fail e >>= f) := safe_fail e

@[simp] theorem safe_op_bind {f : ℤ → Calc ε β} {bits : ℕ} {exact : ℤ} :
    Safe (op bits exact >>= f) ↔ FitsIn bits exact ∧ Safe (f exact) := by
  unfold Safe
  rw [debug_bind, op, debug]
  split_ifs with hfits
  · simp [hfits, debug]
  · simp [hfits]

@[simp] theorem safe_check_bind {f : ℤ → Calc ε β} {bits : ℕ} {exact : ℤ} {e : ε} :
    Safe (check bits exact e >>= f) ↔ (FitsIn bits exact → Safe (f exact)) := by
  unfold Safe
  rw [debug_bind, check, debug]
  split_ifs with hfits
  · simp [hfits, debug]
  · simp [hfits]

@[simp] theorem safe_refuse_bind {f : Unit → Calc ε β} {refused : Prop} [Decidable refused]
    {e : ε} : Safe (refuse refused e >>= f) ↔ (¬ refused → Safe (f ())) := by
  unfold Safe
  rw [debug_bind, refuse]
  split_ifs with hrefused
  · simp [hrefused, debug]
  · simp [hrefused, debug]

@[simp] theorem safe_okOr_bind {x : Option α} {e : ε} :
    Safe (okOr x e >>= f) ↔ ∀ a, x = some a → Safe (f a) := by
  cases x with
  | none => simp [okOr]
  | some a => simp [okOr, ← Calc.pure_def]

/-- A helper that does not overflow. -/
theorem safe_bind {x : Calc ε α} (hx : x.Safe) (hf : ∀ a, Safe (f a)) : Safe (x >>= f) := by
  unfold Safe at *
  rw [debug_bind]
  cases hdebug : x.debug with
  | none => exact absurd hdebug hx
  | some result =>
    cases result with
    | ok a => exact hf a
    | error e => simp

end

/-! ## Rules for calculations that are refused after an overflow -/

section

variable {P : Prop} {e : ε} {f : α → Calc ε β}

theorem safeUnless_okOr_bind {x : Option α} {e' : ε}
    (h : ∀ a, x = some a → SafeUnless P e (f a)) : SafeUnless P e (okOr x e' >>= f) := by
  cases x with
  | none => exact .inl (safe_fail e')
  | some a => exact h a rfl

theorem safeUnless_refuse_bind {f : Unit → Calc ε β} {refused : Prop} [Decidable refused]
    {e' : ε} (h : ¬ refused → SafeUnless P e (f ())) :
    SafeUnless P e (refuse refused e' >>= f) := by
  unfold refuse
  split_ifs with hrefused
  · exact .inl (safe_fail e')
  · exact h hrefused

theorem safeUnless_check_bind {f : ℤ → Calc ε β} {bits : ℕ} {exact : ℤ} {e' : ε}
    (h : FitsIn bits exact → SafeUnless P e (f exact)) :
    SafeUnless P e (check bits exact e' >>= f) := by
  by_cases hfits : FitsIn bits exact
  · obtain hsafe | ⟨hP, hrelease, hintegers⟩ := h hfits
    · exact .inl (safe_check_bind.mpr fun _ => hsafe)
    · exact .inr ⟨hP, (if_pos hfits).trans hrelease, (if_pos hfits).trans hintegers⟩
  · exact .inl (safe_check_bind.mpr fun hfits' => absurd hfits' hfits)

/-- An operator that may overflow. -/
theorem safeUnless_op_bind {f : ℤ → Calc ε β} {bits : ℕ} {exact : ℤ}
    (h : FitsIn bits exact → SafeUnless P e (f exact))
    (hover : ¬ FitsIn bits exact →
      P ∧ (f (exact % 2 ^ bits)).release = .error e ∧ (f exact).integers = .error e) :
    SafeUnless P e (op bits exact >>= f) := by
  by_cases hfits : FitsIn bits exact
  · obtain hsafe | ⟨hP, hrelease, hintegers⟩ := h hfits
    · exact .inl (safe_op_bind.mpr ⟨hfits, hsafe⟩)
    · refine .inr ⟨hP, ?_, hintegers⟩
      show (f (exact % 2 ^ bits)).release = _
      rw [hfits.emod]
      exact hrelease
  · exact .inr (hover hfits)

/-- The builds and the integers agree on such a calculation. -/
theorem SafeUnless.agree {x : Calc ε α} (h : SafeUnless P e x) : x.release = x.integers := by
  obtain hsafe | ⟨-, hrelease, hintegers⟩ := h
  · obtain ⟨result, hresult⟩ := Option.ne_none_iff_exists'.mp hsafe
    obtain ⟨hrelease, hintegers⟩ := builds_agree hresult
    exact hrelease.trans hintegers.symm
  · exact hrelease.trans hintegers.symm

/-- What such a calculation returns is the value over the unbounded integers. -/
theorem SafeUnless.unbounded_eq {x : Calc ε α} (h : SafeUnless P e x) {a : α}
    (hok : x.release = .ok a) : x.unbounded = .ok a := by
  obtain hsafe | ⟨-, hrelease, -⟩ := h
  · obtain ⟨result, hresult⟩ := Option.ne_none_iff_exists'.mp hsafe
    obtain rfl := (builds_agree hresult).1.symm.trans hok
    exact unbounded_of_debug hresult
  · exact nomatch hrelease.symm.trans hok

end

end Calc

end Mrml
