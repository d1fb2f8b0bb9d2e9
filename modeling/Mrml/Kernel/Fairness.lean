import Mrml.Common.Run
import Mrml.Kernel.KernelScheduler

/-!
# How long a runnable task waits

The scheduler (`crates/mrml-kernel/src/scheduler.rs`, lines 364–442) selects the next
runnable task with budget after the cursor, and refills all budgets when none is left.
`Waits s i n` bounds by `n` the selections of other tasks before the task of slot `i` is
selected:
* a task that has budget waits for the tasks between the cursor and its slot;
* a task without budget waits until the others have spent theirs. The bound is the number
  of laps of the cursor that their budgets allow (`Laps`), or the sum of their budgets
  (`Supply`).

Every step keeps the bound, except one that gives another task budget out of turn while
the task has none: a creation, an attachment, or a wake-up that refills the budget.

Results:
* `schedule_waits`: each selection of another task lowers the bound.
* `no_starvation`: over every run without budget out of turn, a task is selected in
  each window of `8 * TASKS` selections that it waits through.
-/

namespace Mrml.Kernel

theorem Priority.budget_ne_zero (p : Priority) : p.budget ≠ 0 := by
  cases p <;> decide

theorem Priority.budget_le (p : Priority) : p.budget.toNat ≤ 8 := by
  cases p <;> decide

namespace Scheduler

variable {TASKS : ℕ}

/-- `task.occupied && task.state == TaskState::Runnable && task.budget != 0` (line 435). -/
def eligible (s : Scheduler TASKS) (j : Fin TASKS) : Bool :=
  (s.tasks j).occupied && (s.tasks j).state == .runnable && (s.tasks j).budget != 0

/-- The slot holds a runnable task. -/
def Ready (s : Scheduler TASKS) (i : Fin TASKS) : Prop :=
  (s.tasks i).occupied = true ∧ (s.tasks i).state = .runnable

/-- How far the slot is ahead of the cursor. -/
def ahead (s : Scheduler TASKS) (j : Fin TASKS) : ℕ := distanceFrom s.cursor j

/-- No budget exceeds the largest priority weight. -/
def Bounded (s : Scheduler TASKS) : Prop := ∀ j, (s.tasks j).budget.toNat ≤ 8

/-- The budgets of the other tasks, blocked ones included. -/
def othersBudget (s : Scheduler TASKS) (i : Fin TASKS) : ℕ :=
  ∑ j ∈ Finset.univ.erase i, (s.tasks j).budget.toNat

/-- The others have at most `m` more laps of the cursor, counted from slot `i`. -/
def Laps (s : Scheduler TASKS) (i : Fin TASKS) (n : ℕ) : Prop :=
  ∃ m, (∀ j, j ≠ i → s.eligible j = true →
      (s.tasks j).budget.toNat + (if s.ahead i < s.ahead j then 1 else 0) ≤ m + 1) ∧
    s.ahead i + m * (TASKS - 1) ≤ n

/-- The others spend their budgets, and then at most one lap is left. -/
def Supply (s : Scheduler TASKS) (i : Fin TASKS) (n : ℕ) : Prop :=
  s.ahead i ≤ n ∧ s.othersBudget i + (TASKS - 2) ≤ n

/-- The task of slot `i` is selected after at most `n` selections of other tasks, unless
    one of these is given budget out of turn. -/
def Waits (s : Scheduler TASKS) (i : Fin TASKS) (n : ℕ) : Prop :=
  if (s.tasks i).budget = 0 then (TASKS ≤ 9 → s.Supply i n) ∧ (10 ≤ TASKS → s.Laps i n)
  else s.ahead i ≤ n

theorem ahead_lt (s : Scheduler TASKS) (j : Fin TASKS) : s.ahead j < TASKS :=
  distanceFrom_lt s.cursor j

/-- In every case the task waits at least for the slots before it. -/
theorem Waits.ahead_le {s : Scheduler TASKS} {i : Fin TASKS} {n : ℕ} (h : s.Waits i n) :
    s.ahead i ≤ n := by
  unfold Waits at h
  split_ifs at h
  · rcases Nat.lt_or_ge 9 TASKS with hlarge | hsmall
    · obtain ⟨m, -, hle⟩ := h.2 hlarge
      omega
    · exact (h.1 hsmall).1
  · exact h

/-! ## One selection -/

/-- Slot `j` was selected: its budget goes down and the cursor moves behind it. -/
def spend (s : Scheduler TASKS) (j : Fin TASKS) : Scheduler TASKS :=
  { s.setTask j { s.tasks j with budget := (s.tasks j).budget - 1 } with
    cursor := (j.val + 1) % TASKS }

theorem selectWithBudget_cases (s : Scheduler TASKS) :
    ((∀ x, s.eligible x = false) ∧ s.selectWithBudget = (none, s)) ∨
    ∃ j, s.eligible j = true ∧ (∀ x, s.eligible x = true → s.ahead j ≤ s.ahead x) ∧
      s.selectWithBudget = (some (s.idAt j), s.spend j) := by
  unfold selectWithBudget
  split
  · next hscan => exact .inl ⟨fun x => scanFrom_none hscan x, rfl⟩
  · next j hscan =>
    exact .inr ⟨j, scanFrom_some hscan, fun x hx => scanFrom_first hscan hx, rfl⟩

/-- The table that the selection is made from: the old one, or the refilled one if no
    task has budget left. -/
theorem schedule_cases {s : Scheduler TASKS} {i : Fin TASKS} (hi : s.Ready i) :
    ∃ (s₁ : Scheduler TASKS) (j : Fin TASKS),
      (s₁ = s ∨ ((∀ x, s.eligible x = false) ∧ s₁ = s.refill.2)) ∧
      s₁.eligible j = true ∧ (∀ x, s₁.eligible x = true → s₁.ahead j ≤ s₁.ahead x) ∧
      s.schedule = (some (s₁.idAt j), s₁.spend j) := by
  rcases s.selectWithBudget_cases with ⟨hnone, hs⟩ | ⟨j, hj, hfirst, hs⟩
  · -- the refill makes the waiting task eligible
    have hready : s.refill.2.eligible i = true := by
      obtain ⟨hoccupied, hstate⟩ := hi
      simp [eligible, refill, hoccupied, hstate, Priority.budget_ne_zero]
    have hany : s.refill.1 = true := by
      obtain ⟨hoccupied, hstate⟩ := hi
      exact List.any_eq_true.mpr ⟨i, List.mem_finRange i, by simp [hoccupied, hstate]⟩
    rcases s.refill.2.selectWithBudget_cases with ⟨hnone', -⟩ | ⟨j, hj, hfirst, hs'⟩
    · rw [hnone' i] at hready
      cases hready
    · refine ⟨s.refill.2, j, .inr ⟨hnone, rfl⟩, hj, hfirst, ?_⟩
      unfold schedule
      rw [hs]
      dsimp only
      rw [if_pos hany, hs']
  · refine ⟨s, j, .inl rfl, hj, hfirst, ?_⟩
    unfold schedule
    rw [hs]

theorem spend_tasks_self (s : Scheduler TASKS) (j : Fin TASKS) :
    (s.spend j).tasks j = { s.tasks j with budget := (s.tasks j).budget - 1 } :=
  s.setTask_self j _

theorem spend_tasks_of_ne (s : Scheduler TASKS) {j x : Fin TASKS} (h : x ≠ j) :
    (s.spend j).tasks x = s.tasks x :=
  s.setTask_of_ne _ h

theorem spend_ahead (s : Scheduler TASKS) (j x : Fin TASKS) :
    (s.spend j).ahead x =
      if s.ahead j < s.ahead x then s.ahead x - s.ahead j - 1
      else s.ahead x + TASKS - s.ahead j - 1 :=
  distanceFrom_succ s.cursor j x

theorem budget_sub_one {b : UInt8} (h : b ≠ 0) : (b - 1).toNat = b.toNat - 1 := by
  have hb : 1 ≤ b.toNat := by
    rw [Nat.one_le_iff_ne_zero]
    exact fun h0 => h (UInt8.toNat_inj.mp h0)
  exact UInt8.toNat_sub_of_le b 1 (UInt8.le_iff_toNat_le.mpr hb)

theorem eligible_iff {s : Scheduler TASKS} {j : Fin TASKS} :
    s.eligible j = true ↔ s.Ready j ∧ (s.tasks j).budget ≠ 0 := by
  simp [eligible, Ready]

theorem spend_bounded {s : Scheduler TASKS} (hs : s.Bounded) {j : Fin TASKS}
    (hj : (s.tasks j).budget ≠ 0) : (s.spend j).Bounded := by
  intro x
  by_cases hx : x = j
  · subst hx
    rw [spend_tasks_self, budget_sub_one hj]
    exact (Nat.sub_le _ _).trans (hs x)
  · rw [spend_tasks_of_ne s hx]
    exact hs x

/-- The task that was just selected: all others come before it again. -/
theorem waits_spend_self {s : Scheduler TASKS} (hs : s.Bounded) {i : Fin TASKS}
    (hi : (s.tasks i).budget ≠ 0) : (s.spend i).Waits i (8 * TASKS - 1) := by
  have hlt := i.isLt
  have hbounded := spend_bounded hs hi
  have hahead : (s.spend i).ahead i = TASKS - 1 := by
    have hi := s.ahead_lt i
    rw [spend_ahead, if_neg (Nat.lt_irrefl _)]
    omega
  unfold Waits
  split_ifs
  · refine ⟨fun hsmall => ⟨by omega, ?_⟩, fun hlarge => ⟨7, fun j hj _ => ?_, by omega⟩⟩
    · have hsum : (s.spend i).othersBudget i ≤ (Finset.univ.erase i).card • 8 :=
        Finset.sum_le_card_nsmul _ _ 8 fun j _ => hbounded j
      rw [Finset.card_erase_of_mem (Finset.mem_univ i), Finset.card_univ, Fintype.card_fin,
        smul_eq_mul] at hsum
      omega
    · have hj' := (s.spend i).ahead_lt j
      rw [if_neg (by omega)]
      exact hbounded j
  · omega

/-- Another task was selected while the waiting task has budget. -/
theorem waits_spend_before {s : Scheduler TASKS} {i j : Fin TASKS} {n : ℕ} (hij : i ≠ j)
    (hi : (s.tasks i).budget ≠ 0) (hfirst : s.ahead j ≤ s.ahead i) (hn : s.ahead i ≤ n) :
    ∃ n' < n, (s.spend j).Waits i n' := by
  have hne : s.ahead j ≠ s.ahead i := fun h => hij (distanceFrom_inj h).symm
  have hahead : (s.spend j).ahead i = s.ahead i - s.ahead j - 1 := by
    rw [spend_ahead, if_pos (by omega)]
  refine ⟨n - 1, by omega, ?_⟩
  unfold Waits
  rw [spend_tasks_of_ne s hij, if_neg hi, hahead]
  omega

theorem othersBudget_spend {s : Scheduler TASKS} {i j : Fin TASKS} (hij : i ≠ j)
    (hj : (s.tasks j).budget ≠ 0) : (s.spend j).othersBudget i + 1 = s.othersBudget i := by
  have hmem : j ∈ Finset.univ.erase i := Finset.mem_erase.mpr ⟨hij.symm, Finset.mem_univ j⟩
  have hpos : (s.tasks j).budget.toNat ≠ 0 := fun h => hj (UInt8.toNat_inj.mp h)
  have hothers : ∑ x ∈ (Finset.univ.erase i).erase j, ((s.spend j).tasks x).budget.toNat =
      ∑ x ∈ (Finset.univ.erase i).erase j, (s.tasks x).budget.toNat :=
    Finset.sum_congr rfl fun x hx => by rw [spend_tasks_of_ne s (Finset.ne_of_mem_erase hx)]
  unfold othersBudget
  rw [← Finset.add_sum_erase _ _ hmem, ← Finset.add_sum_erase _ _ hmem, hothers,
    spend_tasks_self, budget_sub_one hj]
  omega

/-- The budget of another task goes down, and the cursor is not right behind slot `i`. -/
theorem supply_spend {s : Scheduler TASKS} {i j : Fin TASKS} {n : ℕ} (hij : i ≠ j)
    (hj : (s.tasks j).budget ≠ 0) (h : s.Supply i n) : n ≠ 0 ∧ (s.spend j).Supply i (n - 1) := by
  obtain ⟨-, hsum⟩ := h
  have hspend := othersBudget_spend hij hj
  have hne : s.ahead j ≠ s.ahead i := fun h => hij (distanceFrom_inj h).symm
  have hi := s.ahead_lt i
  have hj' := s.ahead_lt j
  have hahead : (s.spend j).ahead i ≤ TASKS - 2 := by
    rw [spend_ahead]
    split_ifs <;> omega
  exact ⟨by omega, by omega, by omega⟩

/-- The cursor moves on in its lap, or passes slot `i` into the next one. -/
theorem laps_spend {s : Scheduler TASKS} {i j : Fin TASKS} {n : ℕ} (hij : i ≠ j)
    (hj : s.eligible j = true) (hfirst : ∀ x, s.eligible x = true → s.ahead j ≤ s.ahead x)
    (h : s.Laps i n) : n ≠ 0 ∧ (s.spend j).Laps i (n - 1) := by
  obtain ⟨m, hbudgets, hle⟩ := h
  have hne : s.ahead j ≠ s.ahead i := fun h => hij (distanceFrom_inj h).symm
  have hi := s.ahead_lt i
  have hspent : (s.tasks j).budget ≠ 0 := (eligible_iff.mp hj).2
  have hbudget := budget_sub_one hspent
  have hpos : (s.tasks j).budget.toNat ≠ 0 := fun h => hspent (UInt8.toNat_inj.mp h)
  have hnext := s.spend_ahead j i
  have hself := hbudgets j hij.symm hj
  -- another eligible task is further ahead than the selected one, and keeps its budget
  have hother : ∀ x, x ≠ i → x ≠ j → (s.spend j).eligible x = true →
      ((s.spend j).tasks x).budget = (s.tasks x).budget ∧ s.ahead j < s.ahead x ∧
        (s.spend j).ahead x = s.ahead x - s.ahead j - 1 ∧
        (s.tasks x).budget.toNat + (if s.ahead i < s.ahead x then 1 else 0) ≤ m + 1 := by
    intro x hxi hxj hx
    have hx' : s.eligible x = true := by
      rwa [eligible_iff, Ready, spend_tasks_of_ne s hxj, ← Ready, ← eligible_iff] at hx
    have hlt : s.ahead j < s.ahead x :=
      lt_of_le_of_ne (hfirst x hx') fun h => hxj (distanceFrom_inj h).symm
    exact ⟨by rw [spend_tasks_of_ne s hxj], hlt, by rw [spend_ahead, if_pos hlt],
      hbudgets x hxi hx'⟩
  rcases Nat.lt_or_gt_of_ne hne with hbefore | hafter
  · rw [if_pos hbefore] at hnext
    rw [if_neg (by omega)] at hself
    refine ⟨by omega, m, fun x hxi hx => ?_, by omega⟩
    by_cases hxj : x = j
    · subst hxj
      rw [spend_tasks_self, hbudget]
      split_ifs <;> omega
    · obtain ⟨hsame, hlt, hahead, hx'⟩ := hother x hxi hxj hx
      rw [hsame, hahead, hnext]
      split_ifs at hx' ⊢ <;> omega
  · rw [if_neg (by omega)] at hnext
    rw [if_pos hafter] at hself
    obtain ⟨m', rfl⟩ : ∃ m', m = m' + 1 := ⟨m - 1, by omega⟩
    rw [Nat.succ_mul] at hle
    refine ⟨by omega, m', fun x hxi hx => ?_, by omega⟩
    by_cases hxj : x = j
    · subst hxj
      rw [spend_tasks_self, hbudget]
      split_ifs <;> omega
    · obtain ⟨hsame, hlt, hahead, hx'⟩ := hother x hxi hxj hx
      have hxlt := s.ahead_lt x
      rw [hsame, hahead, hnext, if_neg (by omega)]
      rw [if_pos (by omega)] at hx'
      omega

/-- Another task was selected while the waiting task has no budget. -/
theorem waits_spend_other {s : Scheduler TASKS} {i j : Fin TASKS} {n : ℕ} (hij : i ≠ j)
    (hi : (s.tasks i).budget = 0) (hj : s.eligible j = true)
    (hfirst : ∀ x, s.eligible x = true → s.ahead j ≤ s.ahead x) (hwaits : s.Waits i n) :
    ∃ n' < n, (s.spend j).Waits i n' := by
  rw [Waits, if_pos hi] at hwaits
  have hsupply := fun hsmall => supply_spend hij (eligible_iff.mp hj).2 (hwaits.1 hsmall)
  have hlaps := fun hlarge => laps_spend hij hj hfirst (hwaits.2 hlarge)
  have hn : n ≠ 0 := by
    rcases Nat.lt_or_ge 9 TASKS with hlarge | hsmall
    · exact (hlaps hlarge).1
    · exact (hsupply hsmall).1
  refine ⟨n - 1, by omega, ?_⟩
  rw [Waits, spend_tasks_of_ne s hij, if_pos hi]
  exact ⟨fun hsmall => (hsupply hsmall).2, fun hlarge => (hlaps hlarge).2⟩

theorem refill_tasks (s : Scheduler TASKS) (j : Fin TASKS) :
    s.refill.2.tasks j =
      if (s.tasks j).occupied && (s.tasks j).state == .runnable then
        { s.tasks j with budget := (s.tasks j).priority.budget }
      else s.tasks j := rfl

theorem refill_bounded {s : Scheduler TASKS} (hs : s.Bounded) : s.refill.2.Bounded := by
  intro j
  rw [refill_tasks]
  split_ifs
  · exact Priority.budget_le _
  · exact hs j

theorem selectWithBudget_bounded {s : Scheduler TASKS} (hs : s.Bounded) :
    s.selectWithBudget.2.Bounded := by
  rcases s.selectWithBudget_cases with ⟨-, h⟩ | ⟨j, hj, -, h⟩
  · rw [h]
    exact hs
  · rw [h]
    exact spend_bounded hs (eligible_iff.mp hj).2

theorem schedule_bounded {s : Scheduler TASKS} (hs : s.Bounded) : s.schedule.2.Bounded := by
  have hselect := selectWithBudget_bounded hs
  unfold schedule
  split
  · next h =>
    rw [h] at hselect
    exact hselect
  · next s₁ h =>
    rw [h] at hselect
    dsimp only
    split_ifs
    · exact selectWithBudget_bounded (refill_bounded hselect)
    · exact refill_bounded hselect

/-- **One selection.** With a runnable task in slot `i`, some task is selected. It is that
    of slot `i`, or the bound of slot `i` goes down. -/
theorem schedule_waits {s : Scheduler TASKS} (hs : s.Bounded) {i : Fin TASKS} (hi : s.Ready i)
    {n : ℕ} (hwaits : s.Waits i n) :
    (s.schedule.1 = some (s.idAt i) ∧ s.schedule.2.Waits i (8 * TASKS - 1)) ∨
      (s.schedule.1.isSome = true ∧ ∃ n' < n, s.schedule.2.Waits i n') := by
  obtain ⟨s₁, j, hfrom, hj, hfirst, hschedule⟩ := schedule_cases hi
  have hbounded : s₁.Bounded := by
    rcases hfrom with rfl | ⟨-, rfl⟩
    · exact hs
    · exact refill_bounded hs
  have hid : s₁.idAt i = s.idAt i := by
    rcases hfrom with rfl | ⟨-, rfl⟩
    · rfl
    · rw [idAt, idAt, (s.refill_keeps i).2.1]
  rw [hschedule]
  by_cases hij : i = j
  · subst hij
    exact .inl ⟨by rw [hid], waits_spend_self hbounded (eligible_iff.mp hj).2⟩
  · refine .inr ⟨rfl, ?_⟩
    rcases hfrom with rfl | ⟨hnone, rfl⟩
    · by_cases hbudget : (s₁.tasks i).budget = 0
      · exact waits_spend_other hij hbudget hj hfirst hwaits
      · exact waits_spend_before hij hbudget (hfirst i (eligible_iff.mpr ⟨hi, hbudget⟩))
          hwaits.ahead_le
    · have hrefilled : (s.refill.2.tasks i).budget ≠ 0 := by
        rw [refill_tasks, if_pos (by simp [hi.1, hi.2])]
        exact Priority.budget_ne_zero _
      have hready : s.refill.2.Ready i := by
        obtain ⟨hoccupied, -, hstate⟩ := s.refill_keeps i
        exact ⟨hoccupied.trans hi.1, hstate.trans hi.2⟩
      exact waits_spend_before hij hrefilled (hfirst i (eligible_iff.mpr ⟨hready, hrefilled⟩))
        hwaits.ahead_le

/-! ## Changes without a selection -/

/-- From `s` to `s'` the cursor stays and slot `i` loses no budget. If it has none, no other
    slot gains budget, and in a table of ten or more slots none becomes eligible. -/
structure Calm (i : Fin TASKS) (s s' : Scheduler TASKS) : Prop where
  cursor : s'.cursor = s.cursor
  budget : (s.tasks i).budget ≠ 0 → (s'.tasks i).budget ≠ 0
  others : (s.tasks i).budget = 0 → ∀ j, j ≠ i →
    (s'.tasks j).budget.toNat ≤ (s.tasks j).budget.toNat ∧
      (10 ≤ TASKS → s'.eligible j = true → s.eligible j = true)

theorem Calm.refl (i : Fin TASKS) (s : Scheduler TASKS) : Calm i s s :=
  ⟨rfl, id, fun _ _ _ => ⟨Nat.le_refl _, fun _ => id⟩⟩

theorem Calm.waits {i : Fin TASKS} {s s' : Scheduler TASKS} (h : Calm i s s') {n : ℕ}
    (hwaits : s.Waits i n) : s'.Waits i n := by
  have hahead : ∀ j, s'.ahead j = s.ahead j := fun j => by rw [ahead, ahead, h.cursor]
  have hle := hwaits.ahead_le
  unfold Waits
  split_ifs with hspent'
  · have hspent : (s.tasks i).budget = 0 := by
      by_contra hne
      exact h.budget hne hspent'
    rw [Waits, if_pos hspent] at hwaits
    have hothers := h.others hspent
    refine ⟨fun hsmall => ⟨by rw [hahead]; exact hle, ?_⟩, fun hlarge => ?_⟩
    · have hsum : s'.othersBudget i ≤ s.othersBudget i :=
        Finset.sum_le_sum fun j hj => (hothers j (Finset.ne_of_mem_erase hj)).1
      exact (Nat.add_le_add_right hsum _).trans (hwaits.1 hsmall).2
    · obtain ⟨m, hbudgets, hm⟩ := hwaits.2 hlarge
      refine ⟨m, fun j hj hel => ?_, by rw [hahead]; exact hm⟩
      obtain ⟨hbudget, hback⟩ := hothers j hj
      have hj' := hbudgets j hj (hback hlarge hel)
      rw [hahead, hahead]
      omega
  · rw [hahead]
    exact hle

/-- From `s` to `s'` the cursor stays, no budget grows, and what is runnable is as it was. -/
structure Hushed (s s' : Scheduler TASKS) : Prop where
  cursor : s'.cursor = s.cursor
  budget : ∀ j, (s'.tasks j).budget.toNat ≤ (s.tasks j).budget.toNat
  same : ∀ j, (s'.tasks j).state = .runnable → s'.tasks j = s.tasks j

theorem Hushed.refl (s : Scheduler TASKS) : Hushed s s :=
  ⟨rfl, fun _ => Nat.le_refl _, fun _ _ => rfl⟩

theorem Hushed.trans {s t u : Scheduler TASKS} (h : Hushed s t) (h' : Hushed t u) :
    Hushed s u := by
  refine ⟨h'.cursor.trans h.cursor, fun j => (h'.budget j).trans (h.budget j), fun j hj => ?_⟩
  have hu := h'.same j hj
  rw [hu] at hj ⊢
  exact h.same j hj

theorem hushed_setTask {s : Scheduler TASKS} {j : Fin TASKS} {task : Task}
    (hstate : task.state = .blocked)
    (hbudget : task.budget.toNat ≤ (s.tasks j).budget.toNat) : Hushed s (s.setTask j task) := by
  refine ⟨rfl, fun x => ?_, fun x hx => ?_⟩
  · by_cases hxj : x = j
    · subst hxj
      rw [setTask_self]
      exact hbudget
    · rw [setTask_of_ne s task hxj]
  · by_cases hxj : x = j
    · subst hxj
      rw [setTask_self, hstate] at hx
      cases hx
    · exact setTask_of_ne s task hxj

theorem remove_hushed (s : Scheduler TASKS) (x : TaskId) : Hushed s (s.remove x).2 := by
  unfold remove
  split
  · exact .refl s
  · exact hushed_setTask rfl (Nat.zero_le _)

theorem block_hushed (s : Scheduler TASKS) (x : TaskId) :
    Hushed s (s.setState x .blocked).2 := by
  unfold setState
  split
  · exact .refl s
  · exact hushed_setTask rfl (Nat.le_refl _)

theorem Hushed.bounded {s s' : Scheduler TASKS} (h : Hushed s s') (hs : s.Bounded) : s'.Bounded :=
  fun j => (h.budget j).trans (hs j)

theorem Hushed.calm {s s' : Scheduler TASKS} (h : Hushed s s') {i : Fin TASKS}
    (hi : (s'.tasks i).state = .runnable) : Calm i s s' := by
  refine ⟨h.cursor, by rw [h.same i hi]; exact id, fun _ j _ => ⟨h.budget j, fun _ hj => ?_⟩⟩
  have hsame := h.same j (eligible_iff.mp hj).1.2
  rwa [eligible, hsame] at hj

/-- A task that becomes runnable has budget. -/
theorem enter_budget_ne_zero (task : Task) : (task.enter .runnable).budget ≠ 0 := by
  unfold Task.enter
  dsimp only
  split_ifs with h
  · exact Priority.budget_ne_zero _
  · exact fun h0 => h ⟨rfl, h0⟩

theorem enter_budget_le {task : Task} (h : task.budget.toNat ≤ 8) :
    (task.enter .runnable).budget.toNat ≤ 8 := by
  unfold Task.enter
  dsimp only
  split_ifs
  · exact Priority.budget_le _
  · exact h

theorem setTask_bounded {s : Scheduler TASKS} (hs : s.Bounded) {j : Fin TASKS} {task : Task}
    (h : task.budget.toNat ≤ 8) : (s.setTask j task).Bounded := by
  intro x
  by_cases hx : x = j
  · subst hx
    rw [setTask_self]
    exact h
  · rw [setTask_of_ne s task hx]
    exact hs x

/-- A wake-up of another task is calm if that task has budget, and in a table of ten or
    more slots also is runnable already. -/
theorem wake_calm {s : Scheduler TASKS} {i : Fin TASKS} (x : TaskId)
    (h : (s.tasks i).budget = 0 → ∀ j, j ≠ i → s.taskSlot x = some j →
      (s.tasks j).budget ≠ 0 ∧ (10 ≤ TASKS → (s.tasks j).state = .runnable)) :
    Calm i s (s.setState x .runnable).2 := by
  unfold setState
  split
  · exact .refl i s
  · next j hj =>
    by_cases hji : j = i
    · subst hji
      refine ⟨rfl, fun _ => ?_, fun _ x hx => ?_⟩
      · rw [setTask_self]
        exact enter_budget_ne_zero _
      · rw [setTask_of_ne s _ hx, eligible, setTask_of_ne s _ hx]
        exact ⟨Nat.le_refl _, fun _ => id⟩
    · refine ⟨rfl, ?_, fun hspent y hy => ?_⟩
      · rw [setTask_of_ne s _ (Ne.symm hji)]
        exact id
      · obtain ⟨hbudget, hstate⟩ := h hspent j hji hj
        by_cases hyj : y = j
        · subst hyj
          have henter : (s.tasks y).enter .runnable = { s.tasks y with state := .runnable } :=
            if_neg fun h => hbudget h.2
          rw [setTask_self, eligible, setTask_self, henter]
          refine ⟨Nat.le_refl _, fun hlarge hy => ?_⟩
          rw [eligible, hstate hlarge]
          exact hy
        · rw [setTask_of_ne s _ hyj, eligible, setTask_of_ne s _ hyj]
          exact ⟨Nat.le_refl _, fun _ => id⟩

end Scheduler

/-! ## Runs of the kernel scheduler -/

/-- A call of one of the public `&mut self` methods of `KernelScheduler`. The other
    scheduler of a migration is an argument: a task leaves for `destination` or comes
    from `source`. -/
inductive ScheduleOp
  | create (priority : Priority)
  | start
  | timerTick
  | yieldCurrent
  | blockCurrent
  | terminateCurrent
  | wake (task : TaskId)
  | detach (task : TaskId)
  | detachForRebalance (destination : SchedulerLoad)
  | attach (task : DetachedTask)
  | migrateTo (D : ℕ) (destination : KernelScheduler D) (task : TaskId)
  | migrateFrom (S : ℕ) (source : KernelScheduler S) (task : TaskId)
  | rebalanceTo (D : ℕ) (destination : KernelScheduler D)
  | rebalanceFrom (S : ℕ) (source : KernelScheduler S)

/-- The call may take in a task. -/
def ScheduleOp.admits : ScheduleOp → Bool
  | .create _ | .attach _ | .migrateFrom .. | .rebalanceFrom .. => true
  | _ => false

/-- The task that the call wakes. -/
def ScheduleOp.woken : ScheduleOp → Option TaskId
  | .wake task => some task
  | _ => none

namespace KernelScheduler

open Scheduler

variable {TASKS : ℕ}

/-- One call, whatever its result. -/
def step (k : KernelScheduler TASKS) : ScheduleOp → KernelScheduler TASKS
  | .create priority => (k.create priority).2
  | .start => k.start.2
  | .timerTick => k.timerTick.2
  | .yieldCurrent => k.yieldCurrent.2
  | .blockCurrent => k.blockCurrent.2
  | .terminateCurrent => k.terminateCurrent.2
  | .wake task => (k.wake task).2
  | .detach task => (k.detach task).2
  | .detachForRebalance destination => (k.detachForRebalance destination).2
  | .attach task => (k.attach task).2
  | .migrateTo _ destination task => (k.migrateTo destination task).2.1
  | .migrateFrom _ source task => (source.migrateTo k task).2.2
  | .rebalanceTo _ destination => (k.rebalanceTo destination).2.1
  | .rebalanceFrom _ source => (source.rebalanceTo k).2.2

/-- The table that the call makes a selection from (`select_replacement`), if it gets
    that far. -/
def selectionTable (k : KernelScheduler TASKS) : ScheduleOp → Option (Scheduler TASKS)
  | .start => if k.current.isNone then some k.scheduler else none
  | .timerTick =>
    if (checkedAdd64 k.ticks 1).isSome ∧ (k.current.isNone ∨ k.remaining - 1 = 0) then
      some k.scheduler
    else none
  | .yieldCurrent => if k.current.isSome then some k.scheduler else none
  | .blockCurrent =>
    k.current.bind fun current =>
      match k.scheduler.setState current .blocked with
      | (.ok (), scheduler) => some scheduler
      | (.error _, _) => none
  | .terminateCurrent =>
    k.current.bind fun current =>
      match k.scheduler.remove current with
      | (.ok (), scheduler) => some scheduler
      | (.error _, _) => none
  | _ => none

/-- The task that the call selects. -/
def selected (k : KernelScheduler TASKS) (op : ScheduleOp) : Option TaskId :=
  (k.selectionTable op).bind fun s => s.schedule.1

theorem selectReplacement_eq (k : KernelScheduler TASKS) (from_ : Option TaskId) :
    (k.selectReplacement from_).2.scheduler = k.scheduler.schedule.2 ∧
      (k.selectReplacement from_).2.current = k.scheduler.schedule.1 := by
  unfold selectReplacement
  dsimp only
  generalize k.scheduler.schedule = out
  obtain ⟨choice, scheduler⟩ := out
  cases choice <;> exact ⟨rfl, rfl⟩

/-- The selection decides what runs next. -/
theorem step_of_selection {k : KernelScheduler TASKS} {op : ScheduleOp} {s : Scheduler TASKS}
    (h : k.selectionTable op = some s) :
    (k.step op).scheduler = s.schedule.2 ∧ (k.step op).current = s.schedule.1 := by
  cases op with
  | start =>
    simp only [selectionTable, Option.ite_none_right_eq_some, Option.some_inj,
      Option.isNone_iff_eq_none] at h
    obtain ⟨hcurrent, rfl⟩ := h
    simp only [step, start, hcurrent]
    exact selectReplacement_eq k none
  | timerTick =>
    simp only [selectionTable, Option.ite_none_right_eq_some, Option.some_inj,
      Option.isNone_iff_eq_none, Option.isSome_iff_exists] at h
    obtain ⟨⟨⟨ticks, hticks⟩, hdue⟩, rfl⟩ := h
    simp only [step, timerTick, hticks]
    cases hcurrent : k.current with
    | none => exact selectReplacement_eq { k with ticks } none
    | some current =>
      have hzero : k.remaining - 1 = 0 := by
        rcases hdue with hnone | hzero
        · rw [hcurrent] at hnone
          cases hnone
        · exact hzero
      simp only [hzero, ne_eq, not_true_eq_false, if_false]
      exact selectReplacement_eq _ (some current)
  | yieldCurrent =>
    simp only [selectionTable, Option.ite_none_right_eq_some, Option.some_inj,
      Option.isSome_iff_exists] at h
    obtain ⟨⟨current, hcurrent⟩, rfl⟩ := h
    simp only [step, yieldCurrent, hcurrent]
    exact selectReplacement_eq k (some current)
  | blockCurrent =>
    simp only [selectionTable, Option.bind_eq_some_iff] at h
    obtain ⟨current, hcurrent, h⟩ := h
    simp only [step, blockCurrent, hcurrent]
    generalize k.scheduler.setState current .blocked = out at h ⊢
    obtain ⟨result, scheduler⟩ := out
    cases result with
    | error error => cases h
    | ok done =>
      obtain rfl := Option.some_inj.mp h
      exact selectReplacement_eq _ (some current)
  | terminateCurrent =>
    simp only [selectionTable, Option.bind_eq_some_iff] at h
    obtain ⟨current, hcurrent, h⟩ := h
    simp only [step, terminateCurrent, hcurrent]
    generalize k.scheduler.remove current = out at h ⊢
    obtain ⟨result, scheduler⟩ := out
    cases result with
    | error error => cases h
    | ok done =>
      obtain rfl := Option.some_inj.mp h
      exact selectReplacement_eq _ (some current)
  | _ => cases h

/-- The table of a selection is the old one, less the task that blocked or ended. -/
theorem selectionTable_hushed {k : KernelScheduler TASKS} {op : ScheduleOp} {s : Scheduler TASKS}
    (h : k.selectionTable op = some s) : Hushed k.scheduler s := by
  cases op with
  | start | timerTick | yieldCurrent =>
    simp only [selectionTable, Option.ite_none_right_eq_some, Option.some_inj] at h
    rw [← h.2]
    exact .refl _
  | blockCurrent =>
    simp only [selectionTable, Option.bind_eq_some_iff] at h
    obtain ⟨current, -, h⟩ := h
    have hblock := block_hushed k.scheduler current
    generalize k.scheduler.setState current .blocked = out at h hblock
    obtain ⟨result, scheduler⟩ := out
    cases result with
    | error error => cases h
    | ok done =>
      obtain rfl := Option.some_inj.mp h
      exact hblock
  | terminateCurrent =>
    simp only [selectionTable, Option.bind_eq_some_iff] at h
    obtain ⟨current, -, h⟩ := h
    have hremove := remove_hushed k.scheduler current
    generalize k.scheduler.remove current = out at h hremove
    obtain ⟨result, scheduler⟩ := out
    cases result with
    | error error => cases h
    | ok done =>
      obtain rfl := Option.some_inj.mp h
      exact hremove
  | _ => cases h

/-- What a call without a selection does to the table. -/
inductive Quiet (s : Scheduler TASKS) : ScheduleOp → Scheduler TASKS → Prop
  | hushed {op : ScheduleOp} {s' : Scheduler TASKS} (h : Hushed s s') : Quiet s op s'
  | woken (task : TaskId) : Quiet s (.wake task) (s.setState task .runnable).2
  | admitted {op : ScheduleOp} {s₁ s' : Scheduler TASKS} {priority : Priority} {id : TaskId}
      (hop : op.admits = true)
      (hcreate : s.create priority = (.ok id, s₁)) (h : Hushed s₁ s') : Quiet s op s'

/-- A creation that is refused leaves the table; otherwise it admits a task. -/
theorem quiet_of_create {s s' : Scheduler TASKS} {op : ScheduleOp} {priority : Priority}
    (hop : op.admits = true) (h : Hushed (s.create priority).2 s') : Quiet s op s' := by
  rcases s.create_cases priority with hc | ⟨i, -, -, hc⟩
  · rw [hc] at h
    exact .hushed h
  · rw [hc] at h
    exact .admitted hop hc h

theorem detach_hushed (k : KernelScheduler TASKS) (task : TaskId) :
    Hushed k.scheduler (k.detach task).2.scheduler := by
  unfold detach
  split_ifs
  · exact .refl _
  · split
    · exact .refl _
    · have hremove := remove_hushed k.scheduler task
      dsimp only
      generalize k.scheduler.remove task = out at hremove ⊢
      obtain ⟨result, scheduler⟩ := out
      cases result <;> exact hremove

theorem detachForRebalance_hushed (k : KernelScheduler TASKS) (destination : SchedulerLoad) :
    Hushed k.scheduler (k.detachForRebalance destination).2.scheduler := by
  unfold detachForRebalance
  split
  · exact .refl _
  · exact .refl _
  · exact k.detach_hushed _

theorem attach_hushed (k : KernelScheduler TASKS) (task : DetachedTask) :
    Hushed (k.scheduler.create task.priority).2 (k.attach task).2.scheduler := by
  unfold attach create
  dsimp only
  generalize k.scheduler.create task.priority = out
  obtain ⟨result, scheduler⟩ := out
  cases result with
  | error error => exact .refl _
  | ok destination =>
    simp only [Except.mapError]
    split_ifs
    · have hblock := block_hushed scheduler destination
      generalize scheduler.setState destination .blocked = out at hblock ⊢
      obtain ⟨result, scheduler'⟩ := out
      cases result with
      | error error => exact hblock.trans (remove_hushed scheduler' destination)
      | ok done => exact hblock
    · exact .refl _

/-- A migration removes the task from its source, and admits it to its destination. -/
theorem migrateTo_hushed {S D : ℕ} (k : KernelScheduler S) (destination : KernelScheduler D)
    (task : TaskId) :
    Hushed k.scheduler (k.migrateTo destination task).2.1.scheduler ∧
      (Hushed destination.scheduler (k.migrateTo destination task).2.2.scheduler ∨
        ∃ priority, Hushed (destination.scheduler.create priority).2
          (k.migrateTo destination task).2.2.scheduler) := by
  unfold migrateTo
  split_ifs
  · exact ⟨.refl _, .inl (.refl _)⟩
  · split
    · exact ⟨.refl _, .inl (.refl _)⟩
    · next i hi =>
      have hremove := remove_hushed k.scheduler task
      unfold create
      dsimp only
      generalize k.scheduler.remove task = out at hremove ⊢
      obtain ⟨removed, source⟩ := out
      generalize hcreate : destination.scheduler.create (k.scheduler.tasks i).priority = out
      obtain ⟨result, scheduler⟩ := out
      have hnew : Hushed (destination.scheduler.create (k.scheduler.tasks i).priority).2
          scheduler := by
        rw [hcreate]
        exact .refl _
      cases result with
      | error error => exact ⟨.refl _, .inr ⟨_, hnew⟩⟩
      | ok destinationTask =>
        simp only [Except.mapError]
        -- the destination blocks the task if it was blocked, and may remove it again
        have hblock : Hushed scheduler
            (if (k.scheduler.tasks i).state = .blocked then
              scheduler.setState destinationTask .blocked else (.ok (), scheduler)).2 := by
          split_ifs
          · exact block_hushed scheduler destinationTask
          · exact .refl _
        generalize (if (k.scheduler.tasks i).state = .blocked then
          scheduler.setState destinationTask .blocked else (.ok (), scheduler)) = out at hblock ⊢
        obtain ⟨stateResult, scheduler'⟩ := out
        have hdone := hnew.trans hblock
        have hundone := hdone.trans (remove_hushed scheduler' destinationTask)
        cases stateResult with
        | error error => exact ⟨.refl _, .inr ⟨_, hundone⟩⟩
        | ok done =>
          cases removed with
          | error error => exact ⟨hremove, .inr ⟨_, hundone⟩⟩
          | ok done => exact ⟨hremove, .inr ⟨_, hdone⟩⟩

theorem rebalanceTo_hushed {S D : ℕ} (k : KernelScheduler S) (destination : KernelScheduler D) :
    Hushed k.scheduler (k.rebalanceTo destination).2.1.scheduler ∧
      (Hushed destination.scheduler (k.rebalanceTo destination).2.2.scheduler ∨
        ∃ priority, Hushed (destination.scheduler.create priority).2
          (k.rebalanceTo destination).2.2.scheduler) := by
  unfold rebalanceTo
  split_ifs
  · exact ⟨.refl _, .inl (.refl _)⟩
  · split
    · exact ⟨.refl _, .inl (.refl _)⟩
    · exact k.migrateTo_hushed destination _

/-- Every call without a selection is quiet. -/
theorem step_quiet {k : KernelScheduler TASKS} {op : ScheduleOp}
    (h : k.selectionTable op = none) : Quiet k.scheduler op (k.step op).scheduler := by
  cases op with
  | create priority => exact quiet_of_create rfl (.refl _)
  | start =>
    simp only [selectionTable, ite_eq_right_iff, reduceCtorEq, imp_false, Option.isNone_iff_eq_none]
      at h
    obtain ⟨current, hcurrent⟩ := Option.ne_none_iff_exists'.mp h
    simp only [step, start, hcurrent]
    exact .hushed (.refl _)
  | timerTick =>
    simp only [selectionTable, ite_eq_right_iff, reduceCtorEq, imp_false, not_and, not_or,
      Option.isNone_iff_eq_none] at h
    unfold step timerTick
    cases hticks : checkedAdd64 k.ticks 1 with
    | none => exact .hushed (.refl _)
    | some ticks =>
      obtain ⟨hcurrent, hremaining⟩ := h (by rw [hticks]; rfl)
      obtain ⟨current, hcurrent⟩ := Option.ne_none_iff_exists'.mp hcurrent
      simp only [hcurrent, ne_eq, hremaining, not_false_eq_true, if_true]
      exact .hushed (.refl _)
  | yieldCurrent =>
    simp only [selectionTable, ite_eq_right_iff, reduceCtorEq, imp_false, Bool.not_eq_true,
      Option.isSome_eq_false_iff, Option.isNone_iff_eq_none] at h
    simp only [step, yieldCurrent, h]
    exact .hushed (.refl _)
  | blockCurrent =>
    unfold step blockCurrent
    cases hcurrent : k.current with
    | none => exact .hushed (.refl _)
    | some current =>
      have hblock := block_hushed k.scheduler current
      simp only [selectionTable, hcurrent, Option.bind_some] at h
      dsimp only
      generalize k.scheduler.setState current .blocked = out at h hblock ⊢
      obtain ⟨result, scheduler⟩ := out
      cases result with
      | error error => exact .hushed hblock
      | ok done => cases h
  | terminateCurrent =>
    unfold step terminateCurrent
    cases hcurrent : k.current with
    | none => exact .hushed (.refl _)
    | some current =>
      have hremove := remove_hushed k.scheduler current
      simp only [selectionTable, hcurrent, Option.bind_some] at h
      dsimp only
      generalize k.scheduler.remove current = out at h hremove ⊢
      obtain ⟨result, scheduler⟩ := out
      cases result with
      | error error => exact .hushed hremove
      | ok done => cases h
  | wake task => exact .woken task
  | detach task => exact .hushed (k.detach_hushed task)
  | detachForRebalance destination => exact .hushed (k.detachForRebalance_hushed destination)
  | attach task => exact quiet_of_create rfl (k.attach_hushed task)
  | migrateTo D destination task => exact .hushed (k.migrateTo_hushed destination task).1
  | migrateFrom S source task =>
    rcases (source.migrateTo_hushed k task).2 with hkept | ⟨priority, hnew⟩
    · exact .hushed hkept
    · exact quiet_of_create rfl hnew
  | rebalanceTo D destination => exact .hushed (k.rebalanceTo_hushed destination).1
  | rebalanceFrom S source =>
    rcases (source.rebalanceTo_hushed k).2 with hkept | ⟨priority, hnew⟩
    · exact .hushed hkept
    · exact quiet_of_create rfl hnew

/-! ## The bound over a run -/

/-- `task` is runnable in slot `i`. -/
def ReadyAs (s : Scheduler TASKS) (task : TaskId) (i : Fin TASKS) : Prop :=
  s.taskSlot task = some i ∧ (s.tasks i).state = .runnable

theorem readyAs_of_same {s s' : Scheduler TASKS} {task : TaskId} {i : Fin TASKS}
    (h : s'.tasks i = s.tasks i) (hi : ReadyAs s' task i) : ReadyAs s task i := by
  obtain ⟨hslot, hstate⟩ := hi
  rw [taskSlot_eq_some, h] at hslot
  rw [h] at hstate
  exact ⟨taskSlot_eq_some.mpr hslot, hstate⟩

theorem ReadyAs.ready {s : Scheduler TASKS} {task : TaskId} {i : Fin TASKS}
    (h : ReadyAs s task i) : s.Ready i :=
  ⟨(taskSlot_eq_some.mp h.1).2.1, h.2⟩

/-- While `task` is runnable without budget, the call gives no other task budget out of
    turn: it takes in no task, and it wakes no other task that has spent its budget. In a
    table of ten or more slots it wakes no other blocked task either. -/
def Fair (task : TaskId) (k : KernelScheduler TASKS) (op : ScheduleOp) : Prop :=
  ∀ i, ReadyAs k.scheduler task i → (k.scheduler.tasks i).budget = 0 →
    (op.admits = true →
      ∀ j, (k.scheduler.tasks j).occupied = true ∨ (k.scheduler.tasks j).generation = 0) ∧
    ∀ other ∈ op.woken, ∀ j, j ≠ i → k.scheduler.taskSlot other = some j →
      (k.scheduler.tasks j).budget ≠ 0 ∧
        (10 ≤ TASKS → (k.scheduler.tasks j).state = .runnable)

instance (s : Scheduler TASKS) (task : TaskId) (i : Fin TASKS) : Decidable (ReadyAs s task i) :=
  inferInstanceAs (Decidable (_ ∧ _))

instance (task : TaskId) (k : KernelScheduler TASKS) (op : ScheduleOp) :
    Decidable (Fair task k op) :=
  inferInstanceAs (Decidable (∀ i, ReadyAs k.scheduler task i → _ → _ ∧ _))

theorem waits_of_budget {s : Scheduler TASKS} {i : Fin TASKS} (h : (s.tasks i).budget ≠ 0) :
    s.Waits i (8 * TASKS - 1) := by
  have hi := s.ahead_lt i
  rw [Waits, if_neg h]
  omega

theorem waits_mono {s : Scheduler TASKS} {i : Fin TASKS} {n n' : ℕ} (hn : n ≤ n')
    (h : s.Waits i n) : s.Waits i n' := by
  unfold Waits at h ⊢
  split_ifs at h ⊢
  · refine ⟨fun hsmall => ?_, fun hlarge => ?_⟩
    · obtain ⟨hahead, hsum⟩ := h.1 hsmall
      exact ⟨hahead.trans hn, hsum.trans hn⟩
    · obtain ⟨m, hbudgets, hm⟩ := h.2 hlarge
      exact ⟨m, hbudgets, hm.trans hn⟩
  · exact h.trans hn

/-- A fair call without a selection is calm for a task that was runnable before, and gives
    budget to one that was not. -/
theorem Quiet.waits {k : KernelScheduler TASKS} {op : ScheduleOp} {s' : Scheduler TASKS}
    (h : Quiet k.scheduler op s') (hk : k.scheduler.Bounded) {task : TaskId}
    (hfair : Fair task k op) :
    s'.Bounded ∧ ∀ i, ReadyAs s' task i →
      (ReadyAs k.scheduler task i → Calm i k.scheduler s') ∧
      (¬ ReadyAs k.scheduler task i → (s'.tasks i).budget ≠ 0) := by
  cases h with
  | hushed h =>
    refine ⟨h.bounded hk, fun i hi => ⟨fun _ => h.calm hi.2, fun hnot => ?_⟩⟩
    exact absurd (readyAs_of_same (h.same i hi.2) hi) hnot
  | woken other =>
    refine ⟨?_, fun i hi => ⟨fun hready => ?_, fun hnot => ?_⟩⟩
    · unfold setState
      split
      · exact hk
      · exact setTask_bounded hk (enter_budget_le (hk _))
    · refine wake_calm other fun hspent j hj hother => ?_
      exact (hfair i hready hspent).2 other rfl j hj hother
    · unfold setState at hi ⊢
      split at hi
      · exact absurd hi hnot
      · next j hj =>
        by_cases hij : i = j
        · subst hij
          rw [setTask_self]
          exact enter_budget_ne_zero _
        · exact absurd (readyAs_of_same (setTask_of_ne _ _ hij) hi) hnot
  | @admitted _ s₁ _ priority created hop hcreate h =>
    rcases k.scheduler.create_cases priority with hc | ⟨j, hfree, hgeneration, hc⟩
    · rw [hc] at hcreate
      cases hcreate
    · obtain rfl : s₁ = k.scheduler.setTask j ((k.scheduler.tasks j).enrol priority) := by
        rw [hc] at hcreate
        exact (Prod.mk.inj hcreate).2.symm
      refine ⟨h.bounded (setTask_bounded hk (Priority.budget_le priority)),
        fun i hi => ⟨fun hready => ?_, fun hnot => ?_⟩⟩
      · have hij : i ≠ j := by
          rintro rfl
          rw [hready.ready.1] at hfree
          cases hfree
        have hsame := h.same i hi.2
        rw [setTask_of_ne _ _ hij] at hsame
        refine ⟨h.cursor, by rw [hsame]; exact id, fun hspent => ?_⟩
        rcases (hfair i hready hspent).1 hop j with hoccupied | hzero
        · rw [hfree] at hoccupied
          cases hoccupied
        · exact absurd hzero hgeneration
      · have hsame := h.same i hi.2
        by_cases hij : i = j
        · subst hij
          rw [hsame, setTask_self]
          exact Priority.budget_ne_zero priority
        · rw [setTask_of_ne _ _ hij] at hsame
          exact absurd (readyAs_of_same hsame hi) hnot

/-- A task that is runnable after a selection was runnable in the table it was made from. -/
theorem readyAs_of_schedule {s : Scheduler TASKS} {task : TaskId} {i : Fin TASKS}
    (h : ReadyAs s.schedule.2 task i) : ReadyAs s task i := by
  obtain ⟨hslot, hstate⟩ := h
  rw [s.schedule_keeps.taskSlot] at hslot
  exact ⟨hslot, (s.schedule_keeps i).2.2.symm.trans hstate⟩

/-- **One call.** A fair call that leaves `task` runnable selects it, or selects another task
    and lowers its bound, or selects nothing and keeps the bound. -/
theorem step_waits {k : KernelScheduler TASKS} {op : ScheduleOp} (hk : k.scheduler.Bounded)
    {task : TaskId} (hfair : Fair task k op) {i : Fin TASKS} {n : ℕ}
    (hwaits : k.scheduler.Waits i n) (hready : ReadyAs k.scheduler task i)
    (hready' : ReadyAs (k.step op).scheduler task i) :
    (k.selected op = some task ∧ (k.step op).scheduler.Waits i (8 * TASKS - 1)) ∨
    ((k.selected op).isSome = true ∧ ∃ n' < n, (k.step op).scheduler.Waits i n') ∨
    (k.selected op = none ∧ (k.step op).scheduler.Waits i n) := by
  unfold selected
  cases htable : k.selectionTable op with
  | none =>
    obtain ⟨-, hquiet⟩ := (step_quiet htable).waits hk hfair
    exact .inr (.inr ⟨rfl, ((hquiet i hready').1 hready).waits hwaits⟩)
  | some s =>
    have hhushed := selectionTable_hushed htable
    rw [(step_of_selection htable).1] at hready' ⊢
    have hi := readyAs_of_schedule hready'
    have hcalm := hhushed.calm hi.2
    rcases schedule_waits (hhushed.bounded hk) hi.ready (hcalm.waits hwaits) with
      ⟨hself, hnext⟩ | hother
    · left
      rw [Option.bind_some, hself, idAt_of_taskSlot hi.1]
      exact ⟨rfl, hnext⟩
    · exact .inr (.inl hother)

/-- Between two calls: budgets are bounded, and `task` does not wait longer than `8 * TASKS`. -/
structure Prompt (task : TaskId) (k : KernelScheduler TASKS) : Prop where
  bounded : k.scheduler.Bounded
  waits : ∀ i, ReadyAs k.scheduler task i → k.scheduler.Waits i (8 * TASKS - 1)

theorem step_bounded {k : KernelScheduler TASKS} {op : ScheduleOp} {task : TaskId}
    (hk : k.scheduler.Bounded) (hfair : Fair task k op) : (k.step op).scheduler.Bounded := by
  cases htable : k.selectionTable op with
  | none => exact ((step_quiet htable).waits hk hfair).1
  | some s =>
    rw [(step_of_selection htable).1]
    exact schedule_bounded ((selectionTable_hushed htable).bounded hk)

theorem step_prompt {k : KernelScheduler TASKS} {op : ScheduleOp} {task : TaskId}
    (hk : Prompt task k) (hfair : Fair task k op) : Prompt task (k.step op) := by
  refine ⟨step_bounded hk.bounded hfair, fun i hi => ?_⟩
  by_cases hready : ReadyAs k.scheduler task i
  · rcases step_waits hk.bounded hfair (hk.waits i hready) hready hi with
      ⟨-, h⟩ | ⟨-, n, hn, h⟩ | ⟨-, h⟩
    · exact h
    · exact waits_mono hn.le h
    · exact h
  · cases htable : k.selectionTable op with
    | none => exact waits_of_budget ((((step_quiet htable).waits hk.bounded hfair).2 i hi).2 hready)
    | some s =>
      rw [(step_of_selection htable).1] at hi
      have hs := readyAs_of_schedule hi
      exact absurd (readyAs_of_same ((selectionTable_hushed htable).same i hs.2) hs) hready

theorem new_prompt {ticksPerSecond quantumTicks : UInt32} {k : KernelScheduler TASKS}
    (h : new TASKS ticksPerSecond quantumTicks = .ok k) (task : TaskId) : Prompt task k := by
  unfold new at h
  split_ifs at h
  obtain rfl := Except.ok.inj h
  refine ⟨fun j => Nat.zero_le _, fun i hi => ?_⟩
  have hoccupied := hi.ready.1
  cases hoccupied

/-- In a fair window that leaves the task runnable, more selections than its bound include
    one of the task. -/
theorem window_selects {task : TaskId} {i : Fin TASKS} (ops : List ScheduleOp) {n : ℕ}
    {k : KernelScheduler TASKS} (hk : k.scheduler.Bounded) (hwaits : k.scheduler.Waits i n)
    (hfair : Along step (Fair task) k ops)
    (hready : ∀ pre, pre <+: ops → ReadyAs (run step k pre).scheduler task i)
    (hmany : n < tally step (fun k op => (k.selected op).isSome) k ops) :
    0 < tally step (fun k op => k.selected op == some task) k ops := by
  induction ops generalizing n k with
  | nil => cases hmany
  | cons op ops ih =>
    obtain ⟨hop, hops⟩ := hfair
    have hnow := hready [] List.nil_prefix
    have hnext := hready [op] ⟨ops, rfl⟩
    have hlater : ∀ pre, pre <+: ops → ReadyAs (run step (k.step op) pre).scheduler task i := by
      intro pre hpre
      exact hready (op :: pre) (List.cons_prefix_cons.mpr ⟨rfl, hpre⟩)
    have hbounded := step_bounded hk hop
    rw [tally] at hmany ⊢
    rcases step_waits hk hop hwaits hnow hnext with ⟨hself, -⟩ | ⟨hsome, n', hn', h⟩ | ⟨hnone, h⟩
    · rw [hself, beq_self_eq_true, Bool.toNat_true]
      omega
    · rw [hsome, Bool.toNat_true] at hmany
      have htail := ih hbounded h hops hlater (by omega)
      omega
    · rw [hnone, Option.isSome_none, Bool.toNat_false, Nat.zero_add] at hmany
      have htail := ih hbounded h hops hlater hmany
      omega

/-- **Main theorem.** In every run whose calls give no other task budget out of turn while
    `task` is runnable without budget, every window of at least `8 * TASKS` selections
    through which `task` stays live and runnable selects it. -/
theorem no_starvation {ticksPerSecond quantumTicks : UInt32} {k₀ : KernelScheduler TASKS}
    (hnew : new TASKS ticksPerSecond quantumTicks = .ok k₀) (task : TaskId)
    (before window : List ScheduleOp) (hfair : Along step (Fair task) k₀ (before ++ window))
    (hrunnable : ∀ pre, pre <+: window →
      (run step k₀ (before ++ pre)).scheduler.Runnable task)
    (hmany : 8 * TASKS ≤
      tally step (fun k op => (k.selected op).isSome) (run step k₀ before) window) :
    0 < tally step (fun k op => k.selected op == some task) (run step k₀ before) window := by
  obtain ⟨hbefore, hwindow⟩ := along_append.mp hfair
  have hprompt : Prompt task (run step k₀ before) :=
    run_induction (P := Prompt task) (fun _ _ hk hop => step_prompt hk hop) (new_prompt hnew task)
      hbefore
  have hstart : (run step k₀ before).scheduler.Runnable task := by
    have h := hrunnable [] List.nil_prefix
    rwa [List.append_nil] at h
  obtain ⟨i, hi⟩ := hstart
  have hpos := i.isLt
  refine window_selects window hprompt.bounded (hprompt.waits i hi) hwindow (fun pre hpre => ?_)
    (by omega)
  obtain ⟨j, hj⟩ := hrunnable pre hpre
  rw [run_append] at hj
  have hslot := (taskSlot_eq_some.mp hj.1).1.trans (taskSlot_eq_some.mp hi.1).1.symm
  rw [← Fin.ext hslot]
  exact hj

/-- A new scheduler with two slots. -/
def twoSlots : KernelScheduler 2 := ⟨Scheduler.new 2, none, 0, 1, 1⟩

/-- A background task and a realtime task; the background task is selected first. -/
def backgroundFirst : List ScheduleOp := [.create .background, .create .realtime, .start]

/-- The background task is selected once in the next 16 selections. -/
theorem no_starvation_backgroundFirst :
    0 < tally step (fun k op => k.selected op == some ⟨0, 1⟩) (run step twoSlots backgroundFirst)
      (List.replicate 16 .yieldCurrent) :=
  no_starvation (show new 2 1000 1 = .ok twoSlots from rfl) ⟨0, 1⟩ backgroundFirst
    (List.replicate 16 .yieldCurrent) (by decide +kernel)
    (fun pre hpre => by
      have h : ∀ pre ∈ (List.replicate 16 ScheduleOp.yieldCurrent).inits,
          ∃ i, ReadyAs (run step twoSlots (backgroundFirst ++ pre)).scheduler ⟨0, 1⟩ i := by
        decide +kernel
      exact h pre ((List.mem_inits _ _).mpr hpre))
    (by decide +kernel)

/-- The realtime task spends its budget twice, and is woken in between. -/
def wokenBetween : List ScheduleOp :=
  List.replicate 8 .yieldCurrent ++ .wake ⟨1, 1⟩ :: List.replicate 8 .yieldCurrent

/-- The wake-up refills the budget of the realtime task: the background task, runnable all
    the time, is not selected in 16 selections. -/
theorem woken_task_starves_another :
    ∃ (k₀ : KernelScheduler 2) (task : TaskId) (before window : List ScheduleOp),
      new 2 1000 1 = .ok k₀ ∧
      (∀ pre, pre <+: window → (run step k₀ (before ++ pre)).scheduler.Runnable task) ∧
      8 * 2 ≤ tally step (fun k op => (k.selected op).isSome) (run step k₀ before) window ∧
      ¬ 0 < tally step (fun k op => k.selected op == some task) (run step k₀ before) window := by
  refine ⟨twoSlots, ⟨0, 1⟩, backgroundFirst, wokenBetween, rfl, fun pre hpre => ?_,
    by decide +kernel, by decide +kernel⟩
  have h : ∀ pre ∈ wokenBetween.inits,
      ∃ i, ReadyAs (run step twoSlots (backgroundFirst ++ pre)).scheduler ⟨0, 1⟩ i := by
    decide +kernel
  exact h pre ((List.mem_inits _ _).mpr hpre)

end KernelScheduler

end Mrml.Kernel
