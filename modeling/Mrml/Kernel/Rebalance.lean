import Mrml.Kernel.Fairness

/-!
# Load balancing between two schedulers

`migrate_to` and `rebalance_to` of `KernelScheduler` (`crates/mrml-kernel/src/scheduler.rs`, lines
594–656), on two schedulers of any two sizes. A migration either refuses and changes nothing, or
writes one slot of each table.

Results:
* `migrateTo_cases`: what a migration does.
* `step_inv`: every operation keeps the invariant of a scheduler.
* `rebalance_outcome`: what `rebalance_to` does on any two schedulers.
-/

namespace Mrml

/-- The number of cells with a property, after a write. -/
theorem countP_update {N : ℕ} {α : Type*} (p : α → Bool) (f : Fin N → α) (i : Fin N) (a : α) :
    (List.finRange N).countP (fun j => p (Function.update f i a j)) + (p (f i)).toNat =
      (List.finRange N).countP (fun j => p (f j)) + (p a).toNat := by
  have hlist : ∀ l : List (Fin N), l.Nodup →
      l.countP (fun j => p (Function.update f i a j)) + (if i ∈ l then (p (f i)).toNat else 0) =
        l.countP (fun j => p (f j)) + (if i ∈ l then (p a).toNat else 0) := by
    intro l hl
    induction l with
    | nil => rfl
    | cons x l ih =>
      obtain ⟨hx, hl⟩ := List.nodup_cons.mp hl
      have hrest := ih hl
      rw [List.countP_cons, List.countP_cons]
      by_cases hix : i = x
      · subst hix
        rw [if_neg hx, if_neg hx] at hrest
        simp only [Function.update_self, List.mem_cons_self, if_true]
        cases p (f i) <;> cases p a <;> simp_all
      · have hmem : i ∈ x :: l ↔ i ∈ l := by simp [hix]
        simp only [Function.update_of_ne (Ne.symm hix), hmem]
        omega
  have h := hlist (List.finRange N) (List.nodup_finRange N)
  rwa [if_pos (List.mem_finRange i), if_pos (List.mem_finRange i)] at h

/-- Two cells with a property. -/
theorem exists_two_of_countP {N : ℕ} {p : Fin N → Bool} (h : 2 ≤ (List.finRange N).countP p) :
    ∃ i j, i ≠ j ∧ p i = true ∧ p j = true := by
  rw [List.countP_eq_length_filter] at h
  have hnodup := (List.nodup_finRange N).filter p
  match hlist : (List.finRange N).filter p with
  | [] =>
    rw [hlist] at h
    cases h
  | [_] =>
    rw [hlist, List.length_singleton] at h
    omega
  | i :: j :: rest =>
    have hi : i ∈ (List.finRange N).filter p := by rw [hlist]; exact List.mem_cons_self
    have hj : j ∈ (List.finRange N).filter p := by
      rw [hlist]
      exact List.mem_cons_of_mem _ List.mem_cons_self
    rw [hlist] at hnodup
    refine ⟨i, j, ?_, (List.mem_filter.mp hi).2, (List.mem_filter.mp hj).2⟩
    rintro rfl
    exact (List.nodup_cons.mp hnodup).1 List.mem_cons_self

end Mrml

namespace Mrml.Kernel

/-- The writes of `create` and `set_state` to the slot of a task that moves in. -/
@[simps] def Task.admitted (task : Task) (priority : Priority) (state : TaskState) : Task :=
  { task.enrol priority with state }

namespace Scheduler

variable {TASKS : ℕ}

theorem setTask_setTask (s : Scheduler TASKS) (i : Fin TASKS) (t t' : Task) :
    (s.setTask i t).setTask i t' = s.setTask i t' := by
  simp [setTask]

theorem occupied_setTask (s : Scheduler TASKS) (i : Fin TASKS) (t : Task) :
    (s.setTask i t).load.occupied + (s.tasks i).occupied.toNat =
      s.load.occupied + t.occupied.toNat :=
  countP_update (fun t : Task => t.occupied) s.tasks i t

theorem runnable_setTask (s : Scheduler TASKS) (i : Fin TASKS) (t : Task) :
    (s.setTask i t).load.runnable + ((s.tasks i).occupied && (s.tasks i).state == .runnable).toNat =
      s.load.runnable + (t.occupied && t.state == .runnable).toNat :=
  countP_update (fun t : Task => t.occupied && t.state == .runnable) s.tasks i t

theorem idAt_inj (hT : TASKS ≤ 2 ^ 32) {s : Scheduler TASKS} {i j : Fin TASKS}
    (h : s.idAt i = s.idAt j) : i = j := by
  have hslot := congrArg TaskId.slot h
  have hi := slotAt_ofNat hT i
  have hj := slotAt_ofNat hT j
  rw [show UInt32.ofNat i.val = UInt32.ofNat j.val from hslot, hj] at hi
  exact (Option.some.inj hi).symm

/-- With two runnable tasks, one of them is not the excluded one. -/
theorem migrationCandidate_isSome (hT : TASKS ≤ 2 ^ 32) {s : Scheduler TASKS}
    (h : 2 ≤ s.load.runnable) (excluded : Option TaskId) :
    ∃ id, s.migrationCandidate excluded = some id := by
  obtain ⟨i, j, hne, hi, hj⟩ := exists_two_of_countP h
  cases hcandidate : s.migrationCandidate excluded with
  | some id => exact ⟨id, rfl⟩
  | none =>
    have hnone := scanFrom_none (Option.map_eq_none_iff.mp hcandidate)
    have hexcluded : ∀ x : Fin TASKS,
        ((s.tasks x).occupied && (s.tasks x).state == .runnable) = true →
          some (s.idAt x) = excluded := by
      intro x hx
      have hx' := hnone x
      rw [hx, Bool.true_and, bne_eq_false_iff_eq] at hx'
      exact hx'
    exact absurd (idAt_inj hT (Option.some.inj ((hexcluded i hi).trans (hexcluded j hj).symm))) hne

end Scheduler

namespace KernelScheduler

open Scheduler

variable {S D : ℕ}

/-- What a migration from slot `i` to slot `j` makes of the two schedulers. -/
def moved (k : KernelScheduler S) (d : KernelScheduler D) (i : Fin S) (j : Fin D) :
    KernelScheduler S × KernelScheduler D :=
  ({ k with scheduler := k.scheduler.setTask i (k.scheduler.tasks i).retire },
    { d with scheduler := d.scheduler.setTask j ((d.scheduler.tasks j).admitted
        (k.scheduler.tasks i).priority (k.scheduler.tasks i).state) })

/-- The new task of a table enters its state. -/
theorem setState_enrolled (hD : D ≤ 2 ^ 32) (s : Scheduler D) (j : Fin D) (priority : Priority) :
    (s.setTask j ((s.tasks j).enrol priority)).setState (s.idAt j) .blocked =
      (.ok (), s.setTask j ((s.tasks j).admitted priority .blocked)) := by
  have hid : s.idAt j = (s.setTask j ((s.tasks j).enrol priority)).idAt j := by
    rw [idAt, idAt, setTask_self, Task.enrol_generation]
  have hslot : (s.setTask j ((s.tasks j).enrol priority)).taskSlot (s.idAt j) = some j := by
    rw [hid]
    exact taskSlot_idAt hD (by rw [setTask_self, Task.enrol_occupied])
  rw [setState, hslot]
  dsimp only
  rw [setTask_self, setTask_setTask]
  rfl

/-- **Step lemma.** A migration is refused and changes nothing, or it moves the task. -/
theorem migrateTo_cases (hD : D ≤ 2 ^ 32) (k : KernelScheduler S) (d : KernelScheduler D)
    (task : TaskId) :
    (∃ error, error ≠ .noMigrationCandidate ∧ k.migrateTo d task = (.error error, k, d)) ∨
    ∃ i j, k.current ≠ some task ∧ k.scheduler.taskSlot task = some i ∧
      (d.scheduler.tasks j).occupied = false ∧ (d.scheduler.tasks j).generation ≠ 0 ∧
      k.migrateTo d task = (.ok ⟨task, d.scheduler.idAt j, (k.scheduler.tasks i).state,
        (k.scheduler.tasks i).priority⟩, k.moved d i j) := by
  unfold migrateTo
  split_ifs with hcurrent
  · exact .inl ⟨_, by decide, rfl⟩
  cases hi : k.scheduler.taskSlot task with
  | none => exact .inl ⟨_, by decide, rfl⟩
  | some i =>
    dsimp only
    have hremove : k.scheduler.remove task =
        (.ok (), k.scheduler.setTask i (k.scheduler.tasks i).retire) := by
      rw [remove, hi]
    obtain hfull | ⟨j, hfree, hgeneration, hcreate⟩ :=
      d.scheduler.create_cases (k.scheduler.tasks i).priority
    · refine .inl ⟨.scheduler .full, by decide, ?_⟩
      rw [create, hfull]
      rfl
    · refine .inr ⟨i, j, hcurrent, rfl, hfree, hgeneration, ?_⟩
      rw [create, hcreate]
      simp only [Except.mapError]
      by_cases hblocked : (k.scheduler.tasks i).state = .blocked
      · rw [if_pos hblocked, setState_enrolled hD, hremove, moved, hblocked]
      · have hrunnable : (k.scheduler.tasks i).state = .runnable := by
          cases hstate : (k.scheduler.tasks i).state with
          | runnable => rfl
          | blocked => exact absurd hstate hblocked
        rw [if_neg hblocked, hremove, moved, hrunnable]
        rfl

/-- What a migration does to its source, for a destination of any size. -/
theorem migrateTo_source (k : KernelScheduler S) (d : KernelScheduler D) (task : TaskId) :
    (k.migrateTo d task).2.1 = k ∨ (k.current ≠ some task ∧ ∃ scheduler,
      k.scheduler.remove task = (.ok (), scheduler) ∧
        (k.migrateTo d task).2.1 = { k with scheduler }) := by
  unfold migrateTo
  split_ifs with hcurrent
  · exact .inl rfl
  cases hi : k.scheduler.taskSlot task with
  | none => exact .inl rfl
  | some i =>
    dsimp only
    have hremove : k.scheduler.remove task =
        (.ok (), k.scheduler.setTask i (k.scheduler.tasks i).retire) := by
      rw [remove, hi]
    split
    · exact .inl rfl
    · split
      · exact .inl rfl
      · rw [hremove]
        exact .inr ⟨hcurrent, _, rfl, rfl⟩

/-- A migration keeps the invariant of its source. -/
theorem migrateTo_inv_source {k : KernelScheduler S} (hk : k.Inv) (d : KernelScheduler D)
    (task : TaskId) : (k.migrateTo d task).2.1.Inv := by
  obtain h | ⟨hcurrent, scheduler, hremove, h⟩ := k.migrateTo_source d task
  · rw [h]
    exact hk
  · have hremoved := remove_removed hremove
    rw [h]
    refine ⟨hremoved.nonzeroLive hk.nonzeroLive, fun c hc => ?_⟩
    exact hremoved.runnable c (hk.current c hc) fun heq => hcurrent (heq ▸ hc)

/-- A migration keeps the invariant of its destination. -/
theorem migrateTo_inv_destination (hD : D ≤ 2 ^ 32) (k : KernelScheduler S)
    {d : KernelScheduler D} (hd : d.Inv) (task : TaskId) : (k.migrateTo d task).2.2.Inv := by
  obtain ⟨error, -, h⟩ | ⟨i, j, -, -, hfree, hgeneration, h⟩ := k.migrateTo_cases hD d task
  · rw [h]
    exact hd
  · rw [h]
    refine ⟨fun x hx => ?_, fun c hc => ?_⟩
    · show ((d.scheduler.setTask j _).tasks x).generation ≠ 0
      have hx' : ((d.scheduler.setTask j ((d.scheduler.tasks j).admitted _ _)).tasks x).occupied =
        true := hx
      by_cases hxj : x = j
      · subst hxj
        rw [setTask_self]
        exact hgeneration
      · rw [setTask_of_ne _ _ hxj] at hx' ⊢
        exact hd.nonzeroLive x hx'
    · obtain ⟨x, hx, hstate⟩ := hd.current c hc
      have hxj : x ≠ j := by
        rintro rfl
        rw [(taskSlot_eq_some.mp hx).2.1] at hfree
        cases hfree
      refine ⟨x, ?_, ?_⟩
      · rw [taskSlot_eq_some] at hx ⊢
        show _ ∧ ((d.scheduler.setTask j _).tasks x).occupied = true ∧
          ((d.scheduler.setTask j _).tasks x).generation = _
        rw [setTask_of_ne _ _ hxj]
        exact hx
      · show ((d.scheduler.setTask j _).tasks x).state = _
        rw [setTask_of_ne _ _ hxj]
        exact hstate

theorem rebalanceTo_inv_source {k : KernelScheduler S} (hk : k.Inv) (d : KernelScheduler D) :
    (k.rebalanceTo d).2.1.Inv := by
  unfold rebalanceTo
  split_ifs
  · exact hk
  · split
    · exact hk
    · exact migrateTo_inv_source hk d _

theorem rebalanceTo_inv_destination (hD : D ≤ 2 ^ 32) (k : KernelScheduler S)
    {d : KernelScheduler D} (hd : d.Inv) : (k.rebalanceTo d).2.2.Inv := by
  unfold rebalanceTo
  split_ifs
  · exact hd
  · split
    · exact hd
    · exact migrateTo_inv_destination hD k hd _

theorem detachForRebalance_inv {k : KernelScheduler S} (hk : k.Inv) (load : SchedulerLoad) :
    (k.detachForRebalance load).2.Inv := by
  unfold detachForRebalance
  split
  · exact hk
  · exact hk
  · next candidate _ =>
    obtain ⟨error, h⟩ | ⟨state, priority, -, hinv, -⟩ := detach_spec hk candidate
    · rw [h]
      exact hk
    · exact hinv

/-- **Step lemma.** Every operation keeps the invariant. -/
theorem step_inv (hS : S ≤ 2 ^ 32) {k : KernelScheduler S} (hk : k.Inv) (op : ScheduleOp) :
    (k.step op).Inv := by
  cases op with
  | create priority =>
    obtain ⟨error, h⟩ | ⟨id, -, hinv, -⟩ := create_spec hS hk priority
    · rw [step, h]
      exact hk
    · exact hinv
  | start => exact (start_spec hS hk).1
  | timerTick => exact (timerTick_spec hS hk).1
  | yieldCurrent => exact (yieldCurrent_spec hS hk).1
  | blockCurrent => exact (blockCurrent_spec hS hk).1
  | terminateCurrent =>
    cases hcurrent : k.current with
    | none =>
      rw [step, terminateCurrent, hcurrent]
      exact hk
    | some current => exact (terminateCurrent_spec hS hk hcurrent).2.1
  | wake task =>
    by_cases hlive : k.scheduler.Live task
    · exact (wake_spec hk hlive).2.1
    · obtain ⟨-, h⟩ | ⟨i, hi, -⟩ := k.scheduler.setState_cases task .runnable
      · rw [step, wake, h]
        exact ⟨hk.nonzeroLive, hk.current⟩
      · exact absurd ⟨i, hi⟩ hlive
  | detach task =>
    obtain ⟨error, h⟩ | ⟨state, priority, -, hinv, -⟩ := detach_spec hk task
    · rw [step, h]
      exact hk
    · exact hinv
  | detachForRebalance load => exact detachForRebalance_inv hk load
  | attach task =>
    obtain ⟨error, h⟩ | ⟨destination, -, hinv, -⟩ := attach_spec hS hk task
    · rw [step, h]
      exact hk
    · exact hinv
  | migrateTo D d task => exact migrateTo_inv_source hk d task
  | migrateFrom D source task => exact migrateTo_inv_destination hS source hk task
  | rebalanceTo D d => exact rebalanceTo_inv_source hk d
  | rebalanceFrom D source => exact rebalanceTo_inv_destination hS source hk

/-! ## What `rebalance_to` does -/

/-- One task has moved from `k` to `d`: it was runnable and not running, it is gone from its
    source, it stands in a slot of its destination that was free, with its priority and its state,
    and nothing else has changed. -/
structure MovedOne (k : KernelScheduler S) (d : KernelScheduler D) (m : TaskMigration)
    (k' : KernelScheduler S) (d' : KernelScheduler D) : Prop where
  not_current : k.current ≠ some m.source
  runnable : k.scheduler.Runnable m.source
  state : m.state = .runnable
  written : ∃ i j, k.scheduler.taskSlot m.source = some i ∧
    (k.scheduler.tasks i).priority = m.priority ∧ (d.scheduler.tasks j).occupied = false ∧
      d'.scheduler.taskSlot m.destination = some j ∧
        (d'.scheduler.tasks j).priority = m.priority ∧ (d'.scheduler.tasks j).state = m.state ∧
          (k', d') = k.moved d i j
  gone : ¬ k'.scheduler.Live m.source
  total : k'.load.occupied + d'.load.occupied = k.load.occupied + d.load.occupied
  source_runnable : k'.load.runnable + 1 = k.load.runnable
  destination_runnable : d'.load.runnable = d.load.runnable + 1

theorem migrateTo_movedOne (hD : D ≤ 2 ^ 32) {k : KernelScheduler S} {d : KernelScheduler D}
    {task : TaskId} (hrunnable : k.scheduler.Runnable task) :
    (∃ error, error ≠ .noMigrationCandidate ∧ k.migrateTo d task = (.error error, k, d)) ∨
    ∃ m k' d', k.migrateTo d task = (.ok m, k', d') ∧ k.MovedOne d m k' d' := by
  obtain h | ⟨i, j, hcurrent, hi, hfree, -, h⟩ := k.migrateTo_cases hD d task
  · exact .inl h
  refine .inr ⟨_, _, _, h, ?_⟩
  obtain ⟨i', hi', hstate⟩ := id hrunnable
  obtain rfl : i = i' := Option.some.inj (hi.symm.trans hi')
  obtain ⟨-, hoccupied, -⟩ := taskSlot_eq_some.mp hi
  have hremove : k.scheduler.remove task =
      (.ok (), k.scheduler.setTask i (k.scheduler.tasks i).retire) := by
    rw [remove, hi]
  have hid : (d.scheduler.setTask j ((d.scheduler.tasks j).admitted (k.scheduler.tasks i).priority
      (k.scheduler.tasks i).state)).idAt j = d.scheduler.idAt j := by
    rw [idAt, idAt, setTask_self]
    rfl
  have hsource := k.scheduler.occupied_setTask i (k.scheduler.tasks i).retire
  have htarget := d.scheduler.occupied_setTask j ((d.scheduler.tasks j).admitted
    (k.scheduler.tasks i).priority (k.scheduler.tasks i).state)
  have hsource' := k.scheduler.runnable_setTask i (k.scheduler.tasks i).retire
  have htarget' := d.scheduler.runnable_setTask j ((d.scheduler.tasks j).admitted
    (k.scheduler.tasks i).priority (k.scheduler.tasks i).state)
  simp only [hoccupied, hfree, hstate, Task.retire_occupied, Task.admitted_occupied, Task.admitted_state,
    Task.enrol_occupied,
    Bool.toNat_true, Bool.toNat_false, Bool.false_and, Bool.true_and, beq_self_eq_true]
    at hsource htarget hsource' htarget'
  refine ⟨hcurrent, hrunnable, hstate, ⟨i, j, hi, rfl, hfree, ?_, ?_, ?_, rfl⟩, ?_, ?_, ?_, ?_⟩
  · show (d.scheduler.setTask j _).taskSlot (d.scheduler.idAt j) = some j
    rw [← hid]
    exact taskSlot_idAt hD (by rw [setTask_self]; rfl)
  · show ((d.scheduler.setTask j _).tasks j).priority = _
    rw [setTask_self]
    rfl
  · show ((d.scheduler.setTask j _).tasks j).state = _
    rw [setTask_self]
    rfl
  · intro hlive
    exact (((remove_removed hremove).live task).mp hlive).2 rfl
  · show (k.scheduler.setTask i _).load.occupied + (d.scheduler.setTask j _).load.occupied =
      k.scheduler.load.occupied + d.scheduler.load.occupied
    rw [hstate]
    omega
  · exact hsource'
  · show (d.scheduler.setTask j _).load.runnable = d.scheduler.load.runnable + 1
    rw [hstate]
    omega

/-- **Main theorem.** On any two schedulers, `rebalance_to` answers that they are balanced
    exactly if the source has at most one more runnable task, and then changes nothing; otherwise
    it moves one task, or returns an error other than a missing candidate and changes nothing.
    After a migration the reverse call answers that they are balanced. -/
theorem rebalance_outcome (hS : S ≤ 2 ^ 32) (hD : D ≤ 2 ^ 32) (k : KernelScheduler S)
    (d : KernelScheduler D) :
    ((k.rebalanceTo d).1 = .ok none ↔ k.load.runnable ≤ d.load.runnable + 1) ∧
    ((k.rebalanceTo d).1 = .ok none → (k.rebalanceTo d).2 = (k, d)) ∧
    (¬ k.load.runnable ≤ d.load.runnable + 1 →
      (∃ m k' d', k.rebalanceTo d = (.ok (some m), k', d') ∧ k.MovedOne d m k' d') ∨
      ∃ error, error ≠ .noMigrationCandidate ∧ k.rebalanceTo d = (.error error, k, d)) ∧
    ∀ m k' d', k.rebalanceTo d = (.ok (some m), k', d') →
        d'.rebalanceTo k' = (.ok none, d', k') := by
  have hbalanced : k.load.runnable ≤ d.load.runnable + 1 → k.rebalanceTo d = (.ok none, k, d) :=
    fun hle => if_pos hle
  have hmoves : ¬ k.load.runnable ≤ d.load.runnable + 1 →
      (∃ m k' d', k.rebalanceTo d = (.ok (some m), k', d') ∧ k.MovedOne d m k' d') ∨
      ∃ error, error ≠ .noMigrationCandidate ∧ k.rebalanceTo d = (.error error, k, d) := by
    intro hgt
    have hgt' : ¬ k.scheduler.load.runnable ≤ d.scheduler.load.runnable + 1 := hgt
    obtain ⟨candidate, hcandidate⟩ := migrationCandidate_isSome hS
      (show 2 ≤ k.scheduler.load.runnable by omega) k.current
    obtain ⟨hrunnable, -⟩ := migrationCandidate_runnable hS hcandidate
    rw [rebalanceTo, if_neg hgt, hcandidate]
    dsimp only
    obtain ⟨error, hne, h⟩ | ⟨m, k', d', h, hmoved⟩ :=
      migrateTo_movedOne (d := d) hD hrunnable
    · rw [h]
      exact .inr ⟨error, hne, rfl⟩
    · rw [h]
      exact .inl ⟨m, k', d', rfl, hmoved⟩
  refine ⟨⟨fun hnone => ?_, fun hle => by rw [hbalanced hle]⟩, fun hnone => ?_, hmoves,
    fun m k' d' h => ?_⟩
  · by_contra hgt
    obtain ⟨m, k', d', h, -⟩ | ⟨error, -, h⟩ := hmoves hgt
    · rw [h] at hnone
      cases hnone
    · rw [h] at hnone
      cases hnone
  · by_cases hle : k.load.runnable ≤ d.load.runnable + 1
    · rw [hbalanced hle]
    · obtain ⟨m, k', d', h, -⟩ | ⟨error, -, h⟩ := hmoves hle
      · rw [h] at hnone
        cases hnone
      · rw [h] at hnone
        cases hnone
  · by_cases hle : k.load.runnable ≤ d.load.runnable + 1
    · rw [hbalanced hle] at h
      cases h
    · obtain ⟨m', k'', d'', h', hmoved⟩ | ⟨error, -, h'⟩ := hmoves hle
      · obtain ⟨-, hpair⟩ := Prod.mk.inj (h'.symm.trans h)
        obtain ⟨rfl, rfl⟩ := Prod.mk.inj hpair
        have hsource := hmoved.source_runnable
        have htarget := hmoved.destination_runnable
        exact if_pos (by omega)
      · cases h'.symm.trans h

/-- A scheduler with two slots and one runnable task in each. -/
def twoTasks : KernelScheduler 2 :=
  run step ⟨Scheduler.new 2, none, 0, 1, 1⟩ [.create .normal, .create .realtime]

/-- A scheduler without a task. -/
def noTask : KernelScheduler 1 := ⟨Scheduler.new 1, none, 0, 1, 1⟩

/-- One of the two tasks moves to the scheduler without a task. -/
theorem rebalance_outcome_twoTasks : ∃ m k' d',
    twoTasks.rebalanceTo noTask = (.ok (some m), k', d') ∧ twoTasks.MovedOne noTask m k' d' ∧
      d'.rebalanceTo k' = (.ok none, d', k') := by
  obtain ⟨-, -, hmoves, hreverse⟩ := rebalance_outcome (by decide) (by decide) twoTasks noTask
  obtain ⟨m, k', d', h, hmoved⟩ | ⟨error, -, h⟩ := hmoves (by decide)
  · exact ⟨m, k', d', h, hmoved, hreverse m k' d' h⟩
  · have hok : (twoTasks.rebalanceTo noTask).1.toOption.isSome = true := by decide
    rw [h] at hok
    cases hok

end KernelScheduler

end Mrml.Kernel
