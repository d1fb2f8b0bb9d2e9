import Mathlib

/-!
# Runs of a deterministic step function

A component with operations `ι` and state `σ` is a step function `σ → ι → σ`.
`run` applies a list of operations in turn. `Along C` says that every
operation of a run meets the condition `C` in the state it is applied to, and
`tally p` counts the operations of a run for which `p` holds in that state.
-/

namespace Mrml

section Run

variable {σ ι : Type*} (step : σ → ι → σ)

/-- The state after the operations `ops`, in order. -/
def run (s : σ) (ops : List ι) : σ := ops.foldl step s

@[simp] theorem run_nil (s : σ) : run step s [] = s := rfl

@[simp] theorem run_cons (s : σ) (op : ι) (ops : List ι) :
    run step s (op :: ops) = run step (step s op) ops := rfl

theorem run_append (s : σ) (ops ops' : List ι) :
    run step s (ops ++ ops') = run step (run step s ops) ops' :=
  List.foldl_append

/-- Every operation of the run from `s` meets `C` in the state before it. -/
def Along (C : σ → ι → Prop) : σ → List ι → Prop
  | _, [] => True
  | s, op :: ops => C s op ∧ Along C (step s op) ops

/-- The number of operations of the run from `s` for which `p` holds. -/
def tally (p : σ → ι → Bool) : σ → List ι → ℕ
  | _, [] => 0
  | s, op :: ops => (p s op).toNat + tally p (step s op) ops

variable {step}

/-- Conditions that agree at every step agree along every run. -/
theorem along_congr {C D : σ → ι → Prop} (h : ∀ s op, C s op ↔ D s op) {s : σ} {ops : List ι} :
    Along step C s ops ↔ Along step D s ops := by
  induction ops generalizing s with
  | nil => exact Iff.rfl
  | cons op ops ih => exact and_congr (h s op) ih

/-- Conditions that agree wherever an invariant holds agree along every run. -/
theorem along_congr_of {C D : σ → ι → Prop} {P : σ → Prop}
    (hstep : ∀ s op, P s → P (step s op)) (h : ∀ s op, P s → (C s op ↔ D s op)) {s : σ}
    (hs : P s) {ops : List ι} : Along step C s ops ↔ Along step D s ops := by
  induction ops generalizing s with
  | nil => exact Iff.rfl
  | cons op ops ih => exact and_congr (h s op hs) (ih (hstep s op hs))

theorem along_append {C : σ → ι → Prop} {s : σ} {ops ops' : List ι} :
    Along step C s (ops ++ ops') ↔ Along step C s ops ∧ Along step C (run step s ops) ops' := by
  induction ops generalizing s with
  | nil => exact (iff_of_eq (true_and _)).symm
  | cons op ops ih => rw [List.cons_append, Along, Along, ih, and_assoc, run_cons]

/-- A condition along a run, at every place where the run can be cut. -/
theorem along_iff_forall_split {C : σ → ι → Prop} {s : σ} {ops : List ι} :
    Along step C s ops ↔ ∀ pre op post, ops = pre ++ op :: post → C (run step s pre) op := by
  constructor
  · rintro h pre op post rfl
    exact (along_append.mp h).2.1
  · intro h
    induction ops generalizing s with
    | nil => trivial
    | cons op ops ih =>
      refine ⟨h [] op ops rfl, ih fun pre op' post heq => ?_⟩
      exact h (op :: pre) op' post (by rw [heq, List.cons_append])

instance decidableAlong {C : σ → ι → Prop} [∀ s op, Decidable (C s op)] :
    ∀ (s : σ) (ops : List ι), Decidable (Along step C s ops)
  | _, [] => inferInstanceAs (Decidable True)
  | s, op :: ops =>
    @instDecidableAnd _ _ inferInstance (decidableAlong (step s op) ops)

/-- The invariant rule for runs whose operations all meet `C`. -/
theorem run_induction {C : σ → ι → Prop} {P : σ → Prop}
    (hstep : ∀ s op, P s → C s op → P (step s op)) {s : σ} (hs : P s) :
    ∀ {ops : List ι}, Along step C s ops → P (run step s ops) := by
  intro ops
  induction ops generalizing s with
  | nil => intro _; exact hs
  | cons op ops ih =>
    rintro ⟨hop, hops⟩
    exact ih (hstep s op hs hop) hops

/-- The invariant rule for arbitrary runs. -/
theorem run_invariant {P : σ → Prop} (hstep : ∀ s op, P s → P (step s op)) {s : σ} (hs : P s)
    (ops : List ι) : P (run step s ops) := by
  induction ops generalizing s with
  | nil => exact hs
  | cons op ops ih => exact ih (hstep s op hs)

/-- A count of zero says that `p` fails along the run. -/
theorem tally_eq_zero {p : σ → ι → Bool} {s : σ} {ops : List ι} :
    tally step p s ops = 0 ↔ Along step (fun s op => p s op = false) s ops := by
  induction ops generalizing s with
  | nil => exact iff_of_true rfl trivial
  | cons op ops ih => rw [tally, Along, Nat.add_eq_zero_iff, Bool.toNat_eq_zero, ih]

/-- The invariant rule for a count kept along the run. -/
theorem tally_induction {p : σ → ι → Bool} {P : ℕ → σ → Prop}
    (hstep : ∀ n s op, P n s → P (n + (p s op).toNat) (step s op)) {n : ℕ} {s : σ} (hs : P n s)
    (ops : List ι) : P (n + tally step p s ops) (run step s ops) := by
  induction ops generalizing n s with
  | nil => exact hs
  | cons op ops ih =>
    have h := ih (hstep n s op hs)
    rwa [Nat.add_assoc] at h

end Run

end Mrml
