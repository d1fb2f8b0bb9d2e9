import Mrml.Kernel.Rebalance

/-!
# The quantum of the running task

What the operations of `KernelScheduler` (`crates/mrml-kernel/src/scheduler.rs`, lines 494–752) do
to the running task and to its remaining ticks. Only a selection starts a quantum, only a timer
tick uses it up, and the last tick of a quantum makes the next selection.

Results:
* `step_timed`: every operation keeps the remaining ticks between one and the quantum.
* `quantum_accounting`: the quantum over every run.
-/

namespace Mrml.Kernel

/-- The call ends the slice of the running task before its quantum is used up. -/
def ScheduleOp.leaves : ScheduleOp → Bool
  | .yieldCurrent | .blockCurrent | .terminateCurrent => true
  | _ => false

namespace KernelScheduler

open Scheduler

variable {TASKS : ℕ}

/-- The call is a timer tick that goes through. -/
def ticking (k : KernelScheduler TASKS) : ScheduleOp → Bool
  | .timerTick => (checkedAdd64 k.ticks 1).isSome
  | _ => false

/-- The running task and its clock are as they were. -/
structure SameSlice (k k' : KernelScheduler TASKS) : Prop where
  current : k'.current = k.current
  quantumTicks : k'.quantumTicks = k.quantumTicks
  remaining : k'.remaining = k.remaining

theorem SameSlice.refl (k : KernelScheduler TASKS) : SameSlice k k := ⟨rfl, rfl, rfl⟩

theorem detach_sameSlice (k : KernelScheduler TASKS) (task : TaskId) :
    SameSlice k (k.detach task).2 := by
  unfold detach
  split_ifs
  · exact .refl k
  · split
    · exact .refl k
    · dsimp only
      split <;> exact ⟨rfl, rfl, rfl⟩

theorem attach_sameSlice (k : KernelScheduler TASKS) (task : DetachedTask) :
    SameSlice k (k.attach task).2 := by
  have hcreate : SameSlice k (k.create task.priority).2 := ⟨rfl, rfl, rfl⟩
  unfold attach
  generalize k.create task.priority = out at hcreate
  obtain ⟨result, k'⟩ := out
  cases result with
  | error error => exact hcreate
  | ok destination =>
    dsimp only
    split_ifs
    · split <;> exact ⟨hcreate.1, hcreate.2, hcreate.3⟩
    · exact hcreate

theorem migrateTo_sameSlice {S D : ℕ} (k : KernelScheduler S) (d : KernelScheduler D)
    (task : TaskId) :
    SameSlice k (k.migrateTo d task).2.1 ∧ SameSlice d (k.migrateTo d task).2.2 := by
  unfold migrateTo
  split_ifs
  · exact ⟨.refl k, .refl d⟩
  · split
    · exact ⟨.refl k, .refl d⟩
    · next i hi =>
      have hcreate : SameSlice d (d.create (k.scheduler.tasks i).priority).2 := ⟨rfl, rfl, rfl⟩
      dsimp only
      generalize d.create (k.scheduler.tasks i).priority = out at hcreate
      obtain ⟨result, d'⟩ := out
      cases result with
      | error error => exact ⟨.refl k, hcreate⟩
      | ok destinationTask =>
        dsimp only
        split
        · exact ⟨.refl k, hcreate.1, hcreate.2, hcreate.3⟩
        · split <;> exact ⟨⟨rfl, rfl, rfl⟩, hcreate.1, hcreate.2, hcreate.3⟩

theorem rebalanceTo_sameSlice {S D : ℕ} (k : KernelScheduler S) (d : KernelScheduler D) :
    SameSlice k (k.rebalanceTo d).2.1 ∧ SameSlice d (k.rebalanceTo d).2.2 := by
  unfold rebalanceTo
  split_ifs
  · exact ⟨.refl k, .refl d⟩
  · split
    · exact ⟨.refl k, .refl d⟩
    · exact k.migrateTo_sameSlice d _

theorem detachForRebalance_sameSlice (k : KernelScheduler TASKS) (load : SchedulerLoad) :
    SameSlice k (k.detachForRebalance load).2 := by
  unfold detachForRebalance
  split
  · exact .refl k
  · exact .refl k
  · exact k.detach_sameSlice _

/-- A selection starts a quantum. -/
theorem selectReplacement_clock (k : KernelScheduler TASKS) (from_ : Option TaskId) :
    (k.selectReplacement from_).2.remaining = k.quantumTicks ∧
      (k.selectReplacement from_).2.quantumTicks = k.quantumTicks := by
  unfold selectReplacement
  dsimp only
  split <;> exact ⟨rfl, rfl⟩

/-- **Step lemma.** A call without a selection leaves the running task and its clock, or it is a
timer tick that takes one of several remaining ticks. -/
theorem step_of_no_selection {k : KernelScheduler TASKS} {op : ScheduleOp}
    (hlive : ∀ c, k.current = some c → k.scheduler.Live c) (h : k.selectionTable op = none) :
    (k.ticking op = false ∧ SameSlice k (k.step op)) ∨
    (k.ticking op = true ∧ op = .timerTick ∧ k.remaining - 1 ≠ 0 ∧
      (k.step op).current = k.current ∧ (k.step op).quantumTicks = k.quantumTicks ∧
        (k.step op).remaining = k.remaining - 1) := by
  cases op with
  | create priority => exact .inl ⟨rfl, rfl, rfl, rfl⟩
  | start =>
    cases hcurrent : k.current with
    | none => simp [selectionTable, hcurrent] at h
    | some current =>
      refine .inl ⟨rfl, ?_⟩
      rw [step, start, hcurrent]
      exact .refl k
  | timerTick =>
    cases hticks : checkedAdd64 k.ticks 1 with
    | none =>
      refine .inl ⟨by rw [ticking, hticks]; rfl, ?_⟩
      rw [step, timerTick, hticks]
      exact .refl k
    | some ticks =>
      cases hcurrent : k.current with
      | none => simp [selectionTable, hcurrent, hticks] at h
      | some current =>
        have hlast : k.remaining - 1 ≠ 0 := by
          intro hzero
          simp [selectionTable, hticks, hzero] at h
        refine .inr ⟨by rw [ticking, hticks]; rfl, rfl, hlast, ?_⟩
        rw [step, timerTick, hticks]
        dsimp only
        rw [hcurrent]
        dsimp only
        rw [if_pos hlast]
        exact ⟨rfl, rfl, rfl⟩
  | yieldCurrent =>
    cases hcurrent : k.current with
    | none =>
      refine .inl ⟨rfl, ?_⟩
      rw [step, yieldCurrent, hcurrent]
      exact .refl k
    | some current => simp [selectionTable, hcurrent] at h
  | blockCurrent =>
    cases hcurrent : k.current with
    | none =>
      refine .inl ⟨rfl, ?_⟩
      rw [step, blockCurrent, hcurrent]
      exact .refl k
    | some current =>
      obtain ⟨s, hs⟩ := setState_ok (hlive current hcurrent) .blocked
      simp [selectionTable, hcurrent, hs] at h
  | terminateCurrent =>
    cases hcurrent : k.current with
    | none =>
      refine .inl ⟨rfl, ?_⟩
      rw [step, terminateCurrent, hcurrent]
      exact .refl k
    | some current =>
      obtain ⟨s, hs⟩ := remove_ok (hlive current hcurrent)
      simp [selectionTable, hcurrent, hs] at h
  | wake task => exact .inl ⟨rfl, rfl, rfl, rfl⟩
  | detach task => exact .inl ⟨rfl, k.detach_sameSlice task⟩
  | detachForRebalance load => exact .inl ⟨rfl, k.detachForRebalance_sameSlice load⟩
  | attach task => exact .inl ⟨rfl, k.attach_sameSlice task⟩
  | migrateTo D d task => exact .inl ⟨rfl, (k.migrateTo_sameSlice d task).1⟩
  | migrateFrom S source task => exact .inl ⟨rfl, (source.migrateTo_sameSlice k task).2⟩
  | rebalanceTo D d => exact .inl ⟨rfl, (k.rebalanceTo_sameSlice d).1⟩
  | rebalanceFrom S source => exact .inl ⟨rfl, (source.rebalanceTo_sameSlice k).2⟩

/-- A call with a selection starts a quantum. -/
theorem step_clock_of_selection {k : KernelScheduler TASKS} {op : ScheduleOp}
    {s : Scheduler TASKS} (h : k.selectionTable op = some s) :
    (k.step op).remaining = k.quantumTicks ∧ (k.step op).quantumTicks = k.quantumTicks := by
  cases op with
  | start =>
    simp only [selectionTable, Option.ite_none_right_eq_some, Option.isNone_iff_eq_none] at h
    simp only [step, start, h.1]
    exact selectReplacement_clock k none
  | timerTick =>
    simp only [selectionTable, Option.ite_none_right_eq_some, Option.isNone_iff_eq_none,
      Option.isSome_iff_exists] at h
    obtain ⟨⟨⟨ticks, hticks⟩, hdue⟩, -⟩ := h
    simp only [step, timerTick, hticks]
    cases hcurrent : k.current with
    | none => exact selectReplacement_clock { k with ticks } none
    | some current =>
      have hzero : k.remaining - 1 = 0 := hdue.resolve_left (by rw [hcurrent]; intro hnone; cases hnone)
      simp only [hzero, ne_eq, not_true_eq_false, if_false]
      exact selectReplacement_clock _ (some current)
  | yieldCurrent =>
    simp only [selectionTable, Option.ite_none_right_eq_some, Option.isSome_iff_exists] at h
    obtain ⟨⟨current, hcurrent⟩, -⟩ := h
    simp only [step, yieldCurrent, hcurrent]
    exact selectReplacement_clock k (some current)
  | blockCurrent =>
    simp only [selectionTable, Option.bind_eq_some_iff] at h
    obtain ⟨current, hcurrent, h⟩ := h
    simp only [step, blockCurrent, hcurrent]
    generalize k.scheduler.setState current .blocked = out at h ⊢
    obtain ⟨result, scheduler⟩ := out
    cases result with
    | error error => cases h
    | ok done => exact selectReplacement_clock _ (some current)
  | terminateCurrent =>
    simp only [selectionTable, Option.bind_eq_some_iff] at h
    obtain ⟨current, hcurrent, h⟩ := h
    simp only [step, terminateCurrent, hcurrent]
    generalize k.scheduler.remove current = out at h ⊢
    obtain ⟨result, scheduler⟩ := out
    cases result with
    | error error => cases h
    | ok done => exact selectReplacement_clock _ (some current)
  | _ => cases h

/-- The running task is live and runnable, and it has between one tick and a quantum left. -/
structure Timed (k : KernelScheduler TASKS) (quantum : UInt32) : Prop where
  inv : k.Inv
  quantumTicks : k.quantumTicks = quantum
  positive : 1 ≤ k.remaining.toNat
  bounded : k.remaining.toNat ≤ quantum.toNat

theorem toNat_sub_one {remaining : UInt32} (h : 1 ≤ remaining.toNat) :
    (remaining - 1).toNat = remaining.toNat - 1 :=
  UInt32.toNat_sub_of_le remaining 1 (UInt32.le_iff_toNat_le.mpr h)

theorem toNat_ne_zero {remaining : UInt32} : remaining ≠ 0 ↔ 1 ≤ remaining.toNat := by
  rw [Nat.one_le_iff_ne_zero]
  exact not_congr ⟨fun h => by rw [h]; rfl, fun h => UInt32.toNat_inj.mp h⟩

/-- **Step lemma.** Every operation keeps the remaining ticks between one and the quantum. -/
theorem step_timed (hT : TASKS ≤ 2 ^ 32) {k : KernelScheduler TASKS} {quantum : UInt32}
    (hquantum : 1 ≤ quantum.toNat) (hk : k.Timed quantum) (op : ScheduleOp) :
    (k.step op).Timed quantum := by
  have hinv := step_inv hT hk.inv op
  cases hselect : k.selectionTable op with
  | some s =>
    obtain ⟨hremaining, hticks⟩ := step_clock_of_selection hselect
    rw [hk.quantumTicks] at hremaining hticks
    refine ⟨hinv, hticks, ?_, ?_⟩
    · rw [hremaining]
      exact hquantum
    · rw [hremaining]
  | none =>
    have hlive := fun c hc => (hk.inv.current c hc).live
    obtain ⟨-, hsame⟩ | ⟨-, -, hlast, -, hticks, hremaining⟩ := step_of_no_selection hlive hselect
    · refine ⟨hinv, hsame.quantumTicks.trans hk.quantumTicks, ?_, ?_⟩
      · rw [hsame.remaining]
        exact hk.positive
      · rw [hsame.remaining]
        exact hk.bounded
    · have hbounded := hk.bounded
      have hpositive := toNat_ne_zero.mp hlast
      rw [toNat_sub_one hk.positive] at hpositive
      refine ⟨hinv, hticks.trans hk.quantumTicks, ?_, ?_⟩
      · rw [hremaining, toNat_sub_one hk.positive]
        exact hpositive
      · rw [hremaining, toNat_sub_one hk.positive]
        omega

theorem new_timed {ticksPerSecond quantumTicks : UInt32} {k : KernelScheduler TASKS}
    (h : new TASKS ticksPerSecond quantumTicks = .ok k) :
    k.Timed quantumTicks ∧ 1 ≤ quantumTicks.toNat := by
  have hinv := new_inv h
  unfold new at h
  split_ifs at h with _ hquantum
  obtain rfl := Except.ok.inj h
  have hpositive := toNat_ne_zero.mp (not_or.mp hquantum).1
  exact ⟨⟨hinv, rfl, hpositive, le_rfl⟩, hpositive⟩

/-! ## A slice -/

/-- A task that does not leave is selected away from at the last tick of its quantum only. -/
theorem selection_iff {k : KernelScheduler TASKS} {c : TaskId} (hcurrent : k.current = some c)
    {op : ScheduleOp} (hop : op.leaves = false) :
    (k.selectionTable op).isSome = true ↔ k.ticking op = true ∧ k.remaining - 1 = 0 := by
  cases op with
  | start => simp [selectionTable, ticking, hcurrent]
  | timerTick => simp [selectionTable, ticking, hcurrent]
  | yieldCurrent | blockCurrent | terminateCurrent => cases hop
  | _ => simp [selectionTable, ticking]

/-- **Run lemma.** While fewer ticks than the remaining ones have gone through, the task runs. -/
theorem run_slice (hT : TASKS ≤ 2 ^ 32) {quantum : UInt32} (hquantum : 1 ≤ quantum.toNat)
    {c : TaskId} (ops : List ScheduleOp) {k : KernelScheduler TASKS} (hk : k.Timed quantum)
    (hcurrent : k.current = some c) (hops : ∀ op ∈ ops, op.leaves = false)
    (hfew : tally step ticking k ops < k.remaining.toNat) :
    (run step k ops).current = some c ∧
      (run step k ops).remaining.toNat + tally step ticking k ops = k.remaining.toNat := by
  induction ops generalizing k with
  | nil => exact ⟨hcurrent, rfl⟩
  | cons op ops ih =>
    obtain ⟨hop, hops⟩ := List.forall_mem_cons.mp hops
    rw [tally] at hfew ⊢
    have htimed := step_timed hT hquantum hk op
    have hnone : k.selectionTable op = none := by
      by_contra hsome
      obtain ⟨hticking, hlast⟩ :=
        (selection_iff hcurrent hop).mp (Option.isSome_iff_ne_none.mpr hsome)
      have hone := toNat_sub_one hk.positive
      rw [hlast, UInt32.toNat_zero] at hone
      rw [hticking, Bool.toNat_true] at hfew
      omega
    have hlive := fun c hc => (hk.inv.current c hc).live
    obtain ⟨hticking, hsame⟩ | ⟨hticking, -, -, hsame, -, hremaining⟩ :=
      step_of_no_selection hlive hnone
    · rw [hticking, Bool.toNat_false, Nat.zero_add] at hfew ⊢
      rw [← hsame.remaining] at hfew ⊢
      exact ih htimed (hsame.current.trans hcurrent) hops hfew
    · have hone := toNat_sub_one hk.positive
      rw [← hremaining] at hone
      rw [hticking, Bool.toNat_true] at hfew ⊢
      obtain ⟨hrun, hsum⟩ := ih htimed (hsame.trans hcurrent) hops (by omega)
      have hpositive := hk.positive
      exact ⟨hrun, by rw [run_cons]; omega⟩

/-- **Main theorem.** In every run: whenever a task is current it is live and runnable, and the
remaining quantum is between one and the configured quantum; a timer tick that fails changes
nothing; and a task that a call has selected, and that does not yield, block or end, stays
current until `quantum` ticks have gone through, the last of which makes the next selection. -/
theorem quantum_accounting (hT : TASKS ≤ 2 ^ 32) {ticksPerSecond quantum : UInt32}
    {k₀ : KernelScheduler TASKS} (hnew : new TASKS ticksPerSecond quantum = .ok k₀)
    (ops : List ScheduleOp) :
    (∀ c, (run step k₀ ops).current = some c →
      (run step k₀ ops).scheduler.Live c ∧ (run step k₀ ops).scheduler.Runnable c) ∧
    1 ≤ (run step k₀ ops).remaining.toNat ∧
    (run step k₀ ops).remaining.toNat ≤ quantum.toNat ∧
    (∀ error, (run step k₀ ops).timerTick.1 = .error error →
      (run step k₀ ops).timerTick.2 = run step k₀ ops) ∧
    ∀ (op : ScheduleOp) (c : TaskId) (later : List ScheduleOp),
      (run step k₀ ops).selected op = some c → (∀ op ∈ later, op.leaves = false) →
        tally step ticking ((run step k₀ ops).step op) later < quantum.toNat →
          (run step k₀ (ops ++ op :: later)).current = some c ∧
          ∀ next : ScheduleOp, next.leaves = false →
            (((run step k₀ (ops ++ op :: later)).selectionTable next).isSome = true ↔
              (run step k₀ (ops ++ op :: later)).ticking next = true ∧
                tally step ticking ((run step k₀ ops).step op) later + 1 = quantum.toNat) := by
  obtain ⟨hstart, hquantum⟩ := new_timed hnew
  have htimed : (run step k₀ ops).Timed quantum :=
    run_invariant (P := fun k : KernelScheduler TASKS => k.Timed quantum) (fun _ op hk => step_timed hT hquantum hk op)
      hstart ops
  refine ⟨fun c hc => ?_, htimed.positive, htimed.bounded, fun error herror => ?_,
    fun op c later hselected hlater hfew => ?_⟩
  · have hrunnable := htimed.inv.current c hc
    exact ⟨hrunnable.live, hrunnable⟩
  · unfold timerTick at herror ⊢
    split at herror
    · rfl
    · dsimp only at herror
      split at herror
      · cases herror
      · split_ifs at herror
  · obtain ⟨s, htable, hchoice⟩ := Option.bind_eq_some_iff.mp hselected
    obtain ⟨-, hcurrent⟩ := step_of_selection htable
    obtain ⟨hremaining, -⟩ := step_clock_of_selection htable
    rw [hchoice] at hcurrent
    rw [htimed.quantumTicks] at hremaining
    have hnext := step_timed hT hquantum htimed op
    rw [← hremaining] at hfew
    obtain ⟨hrun, hsum⟩ := run_slice hT hquantum later hnext hcurrent hlater hfew
    rw [run_append, run_cons]
    refine ⟨hrun, fun next hleaves => ?_⟩
    have hpositive : 1 ≤ (run step ((run step k₀ ops).step op) later).remaining.toNat := by omega
    have hone := toNat_sub_one hpositive
    rw [selection_iff hrun hleaves, ← UInt32.toNat_inj, hone, UInt32.toNat_zero, ← hremaining]
    exact and_congr_right fun _ => by omega

/-- With a quantum of three ticks, the first of two tasks is current after one tick. -/
theorem quantum_accounting_threeTicks :
    (2 : ℕ) ≤ 2 ^ 32 ∧ (new 2 1000 3 : Except _ (KernelScheduler 2)) =
      .ok ⟨Scheduler.new 2, none, 0, 3, 3⟩ ∧
    (run step (⟨Scheduler.new 2, none, 0, 3, 3⟩ : KernelScheduler 2)
      ([.create .normal, .create .normal] ++ .start :: [.timerTick])).current = some ⟨0, 1⟩ :=
  ⟨by decide, rfl,
    ((quantum_accounting (by decide) (show new 2 1000 3 = .ok ⟨Scheduler.new 2, none, 0, 3, 3⟩ from
      rfl) [.create .normal, .create .normal]).2.2.2.2 .start ⟨0, 1⟩ [.timerTick] (by decide)
        (by decide) (by decide)).1⟩

end KernelScheduler

end Mrml.Kernel
