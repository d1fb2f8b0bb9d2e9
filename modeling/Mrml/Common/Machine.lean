import Mathlib

/-!
# Machines whose control point only moves forward

A machine has a program of `length` instructions and a step that takes a control point and
some data either to an error or to a later control point with other data. Such a machine runs
at most `length` steps, so that `run` needs no other bound.

A stretch of the program from `a` to `b` is described by a function on the data alone
(`Block`). Stretches that follow each other are joined by `Block.trans`, and `Block.branch`
joins the two arms of a branch.
-/

namespace Mrml

/-- A step at control point `pc` fails or goes to a later control point. -/
structure ForwardMachine (ε σ : Type) where
  /-- The number of instructions; the machine stops at any other control point. -/
  length : ℕ
  step : ℕ → σ → Except ε (ℕ × σ)
  forward : ∀ {pc s t}, pc < length → step pc s = .ok t → pc < t.1

namespace ForwardMachine

variable {ε σ : Type} (m : ForwardMachine ε σ)

/-- At most `fuel` steps from the control point `pc`. -/
def iterate : ℕ → ℕ → σ → Except ε σ
  | 0, _, s => .ok s
  | fuel + 1, pc, s =>
    if pc < m.length then m.step pc s >>= fun t => iterate fuel t.1 t.2 else .ok s

/-- The run from the control point `pc` to the end of the program. -/
def run (pc : ℕ) (s : σ) : Except ε σ := m.iterate (m.length - pc) pc s

/-- The stretch of the program from `a` to `b` does `f` to the data. -/
def Block (a b : ℕ) (f : σ → Except ε σ) : Prop := ∀ s, m.run a s = f s >>= m.run b

variable {m}

/-- Two amounts of fuel that reach the end of the program give the same run. -/
theorem iterate_congr {fuel fuel' pc : ℕ} (h : m.length - pc ≤ fuel)
    (h' : m.length - pc ≤ fuel') (s : σ) : m.iterate fuel pc s = m.iterate fuel' pc s := by
  induction fuel generalizing fuel' pc s with
  | zero =>
    have hpc : ¬ pc < m.length := by omega
    cases fuel' with
    | zero => rfl
    | succ fuel' => rw [iterate, iterate, if_neg hpc]
  | succ fuel ih =>
    by_cases hpc : pc < m.length
    · obtain ⟨rest, rfl⟩ : ∃ rest, fuel' = rest + 1 := ⟨fuel' - 1, by omega⟩
      rw [iterate, iterate, if_pos hpc, if_pos hpc]
      cases hstep : m.step pc s with
      | error error => rfl
      | ok t =>
        have hforward := m.forward hpc hstep
        exact ih (by omega) (by omega) t.2
    · cases fuel' with
      | zero => rw [iterate, iterate, if_neg hpc]
      | succ fuel' => rw [iterate, iterate, if_neg hpc, if_neg hpc]

theorem run_of_lt {pc : ℕ} (hpc : pc < m.length) (s : σ) :
    m.run pc s = m.step pc s >>= fun t => m.run t.1 t.2 := by
  obtain ⟨fuel, hfuel⟩ : ∃ fuel, m.length - pc = fuel + 1 := ⟨m.length - pc - 1, by omega⟩
  rw [run, hfuel, iterate, if_pos hpc]
  cases hstep : m.step pc s with
  | error error => rfl
  | ok t =>
    have hforward := m.forward hpc hstep
    exact iterate_congr (by omega) le_rfl t.2

theorem run_of_le {pc : ℕ} (hpc : m.length ≤ pc) (s : σ) : m.run pc s = .ok s := by
  rw [run, Nat.sub_eq_zero_of_le hpc, iterate]

namespace Block

variable {a b c : ℕ} {f g h : σ → Except ε σ}

theorem refl : m.Block a a .ok := fun _ => rfl

theorem trans (hf : m.Block a b f) (hg : m.Block b c g) :
    m.Block a c fun s => f s >>= g := by
  intro s
  rw [hf s, bind_assoc]
  exact congrArg (f s >>= ·) (funext hg)

/-- One instruction that goes on to the next one. -/
theorem step (ha : a < m.length) (hstep : ∀ s, m.step a s = (f s).map fun s' => (a + 1, s')) :
    m.Block a (a + 1) f := by
  intro s
  rw [run_of_lt ha, hstep]
  cases f s <;> rfl

/-- A jump to `b`. -/
theorem jump (ha : a < m.length) (hstep : ∀ s, m.step a s = .ok (b, s)) :
    m.Block a b .ok := by
  intro s
  rw [run_of_lt ha, hstep]
  rfl

/-- A branch: `choose` looks at the data and says whether the jump to `t` is taken. -/
theorem branch {t : ℕ} {choose : σ → Except ε (Bool × σ)} (ha : a < m.length)
    (hstep : ∀ s, m.step a s = (choose s).map fun r => (if r.1 then t else a + 1, r.2))
    (htaken : m.Block t b g) (hnext : m.Block (a + 1) b h) :
    m.Block a b fun s => choose s >>= fun r => if r.1 then g r.2 else h r.2 := by
  intro s
  rw [run_of_lt ha, hstep, bind_assoc]
  cases choose s with
  | error error => rfl
  | ok r =>
    obtain ⟨taken, s'⟩ := r
    cases taken with
    | false => exact hnext s'
    | true => exact htaken s'

end Block

end ForwardMachine

end Mrml
