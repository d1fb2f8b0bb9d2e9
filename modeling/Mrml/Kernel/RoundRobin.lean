import Mrml.Kernel.Fairness

/-!
# Shares of the weighted round robin

While a runnable task has budget, `schedule` (`crates/mrml-kernel/src/scheduler.rs`, lines
414–442) spends one unit of the budget of the task that it selects, and of no other. So the next
selections share out the budgets that are there, whatever the cursor and the gaps in the table.

Results:
* `schedule_spends`: one selection.
* `round_robin_exact`: from full budgets, one round selects every runnable task as often as its
  weight.
-/

namespace Mrml.Kernel.Scheduler

variable {TASKS : ℕ}

instance (s : Scheduler TASKS) (i : Fin TASKS) : Decidable (s.Ready i) :=
  inferInstanceAs (Decidable (_ ∧ _))

/-- `n` calls of `schedule`, with nothing in between: the selected tasks and the table. -/
def scheduleTimes : ℕ → Scheduler TASKS → List (Option TaskId) × Scheduler TASKS
  | 0, s => ([], s)
  | n + 1, s =>
    let (choice, s) := s.schedule
    let (choices, s) := scheduleTimes n s
    (choice :: choices, s)

/-- The budget that slot `i` can still spend. -/
def share (s : Scheduler TASKS) (i : Fin TASKS) : ℕ :=
  if s.Ready i then (s.tasks i).budget.toNat else 0

theorem share_pos {s : Scheduler TASKS} {i : Fin TASKS} :
    0 < s.share i ↔ s.eligible i = true := by
  rw [eligible_iff, share]
  split_ifs with h
  · rw [Nat.pos_iff_ne_zero]
    exact ⟨fun hne => ⟨h, fun h0 => hne (by rw [h0]; rfl)⟩,
      fun hne h0 => hne.2 (UInt8.toNat_inj.mp h0)⟩
  · exact ⟨fun h0 => absurd h0 (Nat.lt_irrefl 0), fun hne => absurd hne.1 h⟩

theorem ready_spend (s : Scheduler TASKS) (i j : Fin TASKS) :
    (s.spend j).Ready i ↔ s.Ready i := by
  by_cases hij : i = j
  · subst hij
    rw [Ready, spend_tasks_self]
    exact Iff.rfl
  · rw [Ready, spend_tasks_of_ne s hij]
    exact Iff.rfl

theorem idAt_spend (s : Scheduler TASKS) (i j : Fin TASKS) : (s.spend j).idAt i = s.idAt i := by
  by_cases hij : i = j
  · subst hij
    rw [idAt, spend_tasks_self]
    rfl
  · rw [idAt, spend_tasks_of_ne s hij]
    rfl

/-- The selected slot spends one unit of its share, and no other does. -/
theorem share_spend {s : Scheduler TASKS} {j : Fin TASKS} (hj : s.eligible j = true)
    (i : Fin TASKS) : s.share i = (s.spend j).share i + if j = i then 1 else 0 := by
  obtain ⟨hready, hbudget⟩ := eligible_iff.mp hj
  simp only [share, ready_spend]
  by_cases hij : i = j
  · subst hij
    have hpos : (s.tasks i).budget.toNat ≠ 0 := fun h0 => hbudget (UInt8.toNat_inj.mp h0)
    rw [if_pos hready, if_pos hready, if_pos rfl, spend_tasks_self, budget_sub_one hbudget]
    omega
  · rw [spend_tasks_of_ne s hij, if_neg (Ne.symm hij), Nat.add_zero]

/-- **Step lemma.** While some task has budget, a selection spends one unit of one share. -/
theorem schedule_spends {s : Scheduler TASKS} (h : 0 < ∑ i, s.share i) :
    ∃ j, s.eligible j = true ∧ s.schedule = (some (s.idAt j), s.spend j) := by
  obtain ⟨i, -, hi⟩ := Finset.exists_ne_zero_of_sum_ne_zero (Nat.pos_iff_ne_zero.mp h)
  have heligible := share_pos.mp (Nat.pos_of_ne_zero hi)
  obtain ⟨hnone, -⟩ | ⟨j, hj, -, hselect⟩ := s.selectWithBudget_cases
  · rw [hnone i] at heligible
    cases heligible
  · refine ⟨j, hj, ?_⟩
    rw [schedule, hselect]

/-- **Run lemma.** As many selections as there are units of budget share them out. -/
theorem scheduleTimes_shares (n : ℕ) (s : Scheduler TASKS) (h : ∑ i, s.share i = n) :
    ∃ picks : List (Fin TASKS), (s.scheduleTimes n).1 = picks.map (fun i => some (s.idAt i)) ∧
      ∀ i, picks.count i = s.share i := by
  induction n generalizing s with
  | zero =>
    refine ⟨[], rfl, fun i => ?_⟩
    exact ((Finset.sum_eq_zero_iff.mp h) i (Finset.mem_univ i)).symm
  | succ n ih =>
    obtain ⟨j, hj, hschedule⟩ := schedule_spends (s := s) (by omega)
    have hsum : ∑ i, s.share i = ∑ i, (s.spend j).share i + 1 := by
      rw [Finset.sum_congr rfl fun i _ => share_spend hj i, Finset.sum_add_distrib,
        Finset.sum_ite_eq, if_pos (Finset.mem_univ j)]
    obtain ⟨picks, hpicks, hcount⟩ := ih (s.spend j) (by omega)
    refine ⟨j :: picks, ?_, fun i => ?_⟩
    · rw [scheduleTimes, hschedule]
      dsimp only
      rw [hpicks, List.map_cons]
      simp only [idAt_spend]
    · rw [List.count_cons, hcount, share_spend hj i]
      simp only [beq_iff_eq]

theorem Priority.budget_toNat (p : Priority) : p.budget.toNat = 2 ^ p.level.toNat := by
  cases p <;> rfl

/-- **Main theorem.** In every table, with every cursor: if all runnable tasks have their full
    budgets, then the next `∑ 2 ^ priority` selections select every runnable task
    `2 ^ priority` times and no other task. -/
theorem round_robin_exact (s : Scheduler TASKS)
    (hfull : ∀ i, s.Ready i → (s.tasks i).budget = (s.tasks i).priority.budget) :
    ∃ picks : List (Fin TASKS),
      (s.scheduleTimes (∑ i with s.Ready i, 2 ^ (s.tasks i).priority.level.toNat)).1 =
        picks.map (fun i => some (s.idAt i)) ∧
      ∀ i, picks.count i =
        if s.Ready i then 2 ^ (s.tasks i).priority.level.toNat else 0 := by
  have hshare : ∀ i, s.share i =
      if s.Ready i then 2 ^ (s.tasks i).priority.level.toNat else 0 := by
    intro i
    rw [share]
    split_ifs with hi
    · rw [hfull i hi, Priority.budget_toNat]
    · rfl
  have hsum : ∑ i, s.share i = ∑ i with s.Ready i, 2 ^ (s.tasks i).priority.level.toNat := by
    rw [Finset.sum_filter]
    exact Finset.sum_congr rfl fun i _ => hshare i
  obtain ⟨picks, hpicks, hcount⟩ := scheduleTimes_shares _ s hsum
  exact ⟨picks, hpicks, fun i => (hcount i).trans (hshare i)⟩

/-- A gap, a realtime task and a background task; the cursor is on the background task. -/
def gapTable : Scheduler 3 where
  tasks := ![Task.empty, Task.empty.enrol .realtime, Task.empty.enrol .background]
  cursor := 2

theorem round_robin_exact_gapTable :
    ∃ picks : List (Fin 3),
      (gapTable.scheduleTimes
        (∑ i with gapTable.Ready i, 2 ^ (gapTable.tasks i).priority.level.toNat)).1 =
        picks.map (fun i => some (gapTable.idAt i)) ∧
      ∀ i, picks.count i =
        if gapTable.Ready i then 2 ^ (gapTable.tasks i).priority.level.toNat else 0 :=
  round_robin_exact gapTable (by decide)

end Mrml.Kernel.Scheduler
