import Mrml.Kernel.Scheduler

/-!
# The kernel scheduler

Model of `KernelScheduler` (`crates/mrml-kernel/src/scheduler.rs`, lines
494–752), the timer-driven owner of the scheduler state. `Inv` says that the
current task is always a live runnable one; each operation keeps it, and does
one of three things to the live identities: nothing (`Steady`), enrol one
(`Scheduler.Created`) or retire one (`Scheduler.Removed`).
-/

namespace Mrml.Kernel

/-- `KernelScheduler<TASKS>` (lines 496–502). -/
structure KernelScheduler (TASKS : ℕ) where
  scheduler : Scheduler TASKS
  current : Option TaskId
  ticks : UInt64
  quantumTicks : UInt32
  remaining : UInt32

namespace KernelScheduler

variable {TASKS : ℕ}

/-- `KernelScheduler::new` (lines 505–519). -/
def new (TASKS : ℕ) (ticksPerSecond quantumTicks : UInt32) :
    Except KernelScheduleError (KernelScheduler TASKS) :=
  if ¬ (10 ≤ ticksPerSecond ∧ ticksPerSecond ≤ 100000) then .error .invalidTimerFrequency
  else if quantumTicks = 0 ∨ quantumTicks > ticksPerSecond then .error .invalidQuantum
  else .ok ⟨Scheduler.new TASKS, none, 0, quantumTicks, quantumTicks⟩

/-- `KernelScheduler::create` (lines 521–525). -/
def create (k : KernelScheduler TASKS) (priority : Priority) :
    Except KernelScheduleError TaskId × KernelScheduler TASKS :=
  let (result, scheduler) := k.scheduler.create priority
  (result.mapError .scheduler, { k with scheduler })

/-- `KernelScheduler::load` (lines 535–537). -/
def load (k : KernelScheduler TASKS) : SchedulerLoad := k.scheduler.load

/-- `KernelScheduler::select_replacement` (lines 735–751). -/
def selectReplacement (k : KernelScheduler TASKS) (from_ : Option TaskId) :
    ScheduleOutcome × KernelScheduler TASKS :=
  let k := { k with remaining := k.quantumTicks }
  match k.scheduler.schedule with
  | (some to_, scheduler) =>
    (if from_ = some to_ then .continue to_ else .switch from_ to_,
      { k with scheduler, current := some to_ })
  | (none, scheduler) => (.idle, { k with scheduler, current := none })

/-- `KernelScheduler::start` (lines 539–544). -/
def start (k : KernelScheduler TASKS) : ScheduleOutcome × KernelScheduler TASKS :=
  match k.current with
  | some current => (.continue current, k)
  | none => k.selectReplacement none

/-- `KernelScheduler::timer_tick` (lines 546–559). The decrement of
    `remaining` wraps. -/
def timerTick (k : KernelScheduler TASKS) :
    Except KernelScheduleError ScheduleOutcome × KernelScheduler TASKS :=
  match checkedAdd64 k.ticks 1 with
  | none => (.error .tickExhausted, k)
  | some ticks =>
    let k := { k with ticks }
    match k.current with
    | none =>
      let (outcome, k) := k.selectReplacement none
      (.ok outcome, k)
    | some current =>
      let k := { k with remaining := k.remaining - 1 }
      if k.remaining ≠ 0 then (.ok (.continue current), k)
      else
        let (outcome, k) := k.selectReplacement (some current)
        (.ok outcome, k)

/-- `KernelScheduler::yield_current` (lines 561–564). -/
def yieldCurrent (k : KernelScheduler TASKS) :
    Except KernelScheduleError ScheduleOutcome × KernelScheduler TASKS :=
  match k.current with
  | none => (.error .noCurrentTask, k)
  | some current =>
    let (outcome, k) := k.selectReplacement (some current)
    (.ok outcome, k)

/-- `KernelScheduler::block_current` (lines 566–575). -/
def blockCurrent (k : KernelScheduler TASKS) :
    Except KernelScheduleError ScheduleOutcome × KernelScheduler TASKS :=
  match k.current with
  | none => (.error .noCurrentTask, k)
  | some current =>
    let k := { k with current := none }
    match k.scheduler.setState current .blocked with
    | (.error error, scheduler) => (.error (.scheduler error), { k with scheduler })
    | (.ok (), scheduler) =>
      let (outcome, k) := selectReplacement { k with scheduler } (some current)
      (.ok outcome, k)

/-- `KernelScheduler::terminate_current` (lines 577–586). -/
def terminateCurrent (k : KernelScheduler TASKS) :
    Except KernelScheduleError ScheduleOutcome × KernelScheduler TASKS :=
  match k.current with
  | none => (.error .noCurrentTask, k)
  | some current =>
    let k := { k with current := none }
    match k.scheduler.remove current with
    | (.error error, scheduler) => (.error (.scheduler error), { k with scheduler })
    | (.ok (), scheduler) =>
      let (outcome, k) := selectReplacement { k with scheduler } (some current)
      (.ok outcome, k)

/-- `KernelScheduler::wake` (lines 588–592). -/
def wake (k : KernelScheduler TASKS) (task : TaskId) :
    Except KernelScheduleError Unit × KernelScheduler TASKS :=
  let (result, scheduler) := k.scheduler.setState task .runnable
  (result.mapError .scheduler, { k with scheduler })

/-- `KernelScheduler::detach` (lines 660–677). -/
def detach (k : KernelScheduler TASKS) (task : TaskId) :
    Except KernelScheduleError DetachedTask × KernelScheduler TASKS :=
  if k.current = some task then (.error .currentTaskCannotMigrate, k)
  else
    match k.scheduler.taskSlot task with
    | none => (.error (.scheduler .invalidTask), k)
    | some i =>
      let source := k.scheduler.tasks i
      let detached : DetachedTask := ⟨task, source.state, source.priority⟩
      match k.scheduler.remove task with
      | (.error error, scheduler) => (.error (.scheduler error), { k with scheduler })
      | (.ok (), scheduler) => (.ok detached, { k with scheduler })

/-- `KernelScheduler::rebalance_candidate` (lines 694–708). The saturating
    `usize` addition is exact on counts bounded by a table size. -/
def rebalanceCandidate (k : KernelScheduler TASKS) (destination : SchedulerLoad) :
    Except KernelScheduleError (Option TaskId) :=
  let source := k.load
  if destination.occupied = destination.capacity ∨ source.runnable ≤ destination.runnable + 1 then
    .ok none
  else
    match k.scheduler.migrationCandidate k.current with
    | some candidate => .ok (some candidate)
    | none => .error .noMigrationCandidate

/-- `KernelScheduler::attach` (lines 712–733). A `TaskAttachError` is the pair
    of its error and the ticket it returns. -/
def attach (k : KernelScheduler TASKS) (task : DetachedTask) :
    Except (KernelScheduleError × DetachedTask) TaskMigration × KernelScheduler TASKS :=
  match k.create task.priority with
  | (.error error, k) => (.error (error, task), k)
  | (.ok destination, k) =>
    let migration : TaskMigration := ⟨task.source, destination, task.state, task.priority⟩
    if task.state = .blocked then
      match k.scheduler.setState destination .blocked with
      | (.error error, scheduler) =>
        (.error (.scheduler error, task), { k with scheduler := (scheduler.remove destination).2 })
      | (.ok (), scheduler) => (.ok migration, { k with scheduler })
    else (.ok migration, k)

/-- `KernelScheduler::detach_for_rebalance` (lines 682–690). -/
def detachForRebalance (k : KernelScheduler TASKS) (destination : SchedulerLoad) :
    Except KernelScheduleError (Option DetachedTask) × KernelScheduler TASKS :=
  match k.rebalanceCandidate destination with
  | .error error => (.error error, k)
  | .ok none => (.ok none, k)
  | .ok (some candidate) =>
    let (result, k) := k.detach candidate
    (result.map some, k)

/-- `KernelScheduler::migrate_to` (lines 598–636): the result and the two schedulers. -/
def migrateTo {D : ℕ} (k : KernelScheduler TASKS) (destination : KernelScheduler D)
    (task : TaskId) :
    Except KernelScheduleError TaskMigration × KernelScheduler TASKS × KernelScheduler D :=
  if k.current = some task then (.error .currentTaskCannotMigrate, k, destination)
  else
    match k.scheduler.taskSlot task with
    | none => (.error (.scheduler .invalidTask), k, destination)
    | some i =>
      let source := k.scheduler.tasks i
      match destination.create source.priority with
      | (.error error, destination) => (.error error, k, destination)
      | (.ok destinationTask, destination) =>
        let (stateResult, scheduler) :=
          if source.state = .blocked then destination.scheduler.setState destinationTask .blocked
          else (.ok (), destination.scheduler)
        match stateResult with
        | .error error =>
          (.error (.scheduler error), k,
            { destination with scheduler := (scheduler.remove destinationTask).2 })
        | .ok () =>
          match k.scheduler.remove task with
          | (.error error, sourceScheduler) =>
            (.error (.scheduler error), { k with scheduler := sourceScheduler },
              { destination with scheduler := (scheduler.remove destinationTask).2 })
          | (.ok (), sourceScheduler) =>
            (.ok ⟨task, destinationTask, source.state, source.priority⟩,
              { k with scheduler := sourceScheduler }, { destination with scheduler })

/-- `KernelScheduler::rebalance_to` (lines 641–656); `none` is `BalanceOutcome::Balanced`. -/
def rebalanceTo {D : ℕ} (k : KernelScheduler TASKS) (destination : KernelScheduler D) :
    Except KernelScheduleError (Option TaskMigration) × KernelScheduler TASKS ×
      KernelScheduler D :=
  if k.load.runnable ≤ destination.load.runnable + 1 then (.ok none, k, destination)
  else
    match k.scheduler.migrationCandidate k.current with
    | none => (.error .noMigrationCandidate, k, destination)
    | some candidate =>
      let (result, k, destination) := k.migrateTo destination candidate
      (result.map some, k, destination)

/-! ## The invariant -/

/-- Occupied slots have live generations, and the current task is one of the
    runnable ones. -/
structure Inv (k : KernelScheduler TASKS) : Prop where
  nonzeroLive : k.scheduler.NonzeroLive
  current : ∀ c, k.current = some c → k.scheduler.Runnable c

/-- The same identities are live and the same are retired. -/
structure Steady (k k' : KernelScheduler TASKS) : Prop where
  live : ∀ x, k'.scheduler.Live x ↔ k.scheduler.Live x
  retired : ∀ x, k'.scheduler.Retired x ↔ k.scheduler.Retired x

theorem Steady.refl (k : KernelScheduler TASKS) : k.Steady k :=
  ⟨fun _ => Iff.rfl, fun _ => Iff.rfl⟩

theorem steady_of_keeps {k k' : KernelScheduler TASKS} (h : k.scheduler.Keeps k'.scheduler) :
    k.Steady k' := ⟨h.live, h.retired⟩

theorem selectReplacement_keeps (k : KernelScheduler TASKS) (from_ : Option TaskId) :
    k.scheduler.Keeps (k.selectReplacement from_).2.scheduler := by
  have h := k.scheduler.schedule_keeps
  unfold selectReplacement
  dsimp only
  split <;> next hs => rw [hs] at h; exact h

/-- Whatever the old current task was, the new one is runnable. -/
theorem selectReplacement_inv (hT : TASKS ≤ 2 ^ 32) {k : KernelScheduler TASKS}
    (hk : k.scheduler.NonzeroLive) (from_ : Option TaskId) : (k.selectReplacement from_).2.Inv := by
  have hkeeps := k.selectReplacement_keeps from_
  refine ⟨hkeeps.nonzeroLive hk, fun c hc => (hkeeps.runnable c).mpr ?_⟩
  apply Scheduler.schedule_runnable hT
  unfold selectReplacement at hc
  dsimp only at hc
  split at hc
  · next hs =>
    rw [hs]
    exact hc
  · cases hc

theorem selectReplacement_spec (hT : TASKS ≤ 2 ^ 32) {k : KernelScheduler TASKS}
    (hk : k.scheduler.NonzeroLive) (from_ : Option TaskId) :
    (k.selectReplacement from_).2.Inv ∧ k.Steady (k.selectReplacement from_).2 :=
  ⟨selectReplacement_inv hT hk from_, steady_of_keeps (k.selectReplacement_keeps from_)⟩

theorem start_spec (hT : TASKS ≤ 2 ^ 32) {k : KernelScheduler TASKS} (hk : k.Inv) :
    k.start.2.Inv ∧ k.Steady k.start.2 := by
  unfold start
  split
  · exact ⟨hk, .refl k⟩
  · exact selectReplacement_spec hT hk.nonzeroLive _

theorem timerTick_spec (hT : TASKS ≤ 2 ^ 32) {k : KernelScheduler TASKS} (hk : k.Inv) :
    k.timerTick.2.Inv ∧ k.Steady k.timerTick.2 := by
  unfold timerTick
  split
  · exact ⟨hk, .refl k⟩
  · next ticks _ =>
    dsimp only
    split
    · have h := selectReplacement_spec hT (k := { k with ticks }) hk.nonzeroLive none
      exact ⟨h.1, h.2.live, h.2.retired⟩
    · next current _ =>
      split_ifs
      · exact ⟨⟨hk.nonzeroLive, hk.current⟩, ⟨fun _ => Iff.rfl, fun _ => Iff.rfl⟩⟩
      · have h := selectReplacement_spec hT
          (k := { k with ticks, remaining := k.remaining - 1 }) hk.nonzeroLive (some current)
        exact ⟨h.1, h.2.live, h.2.retired⟩

theorem yieldCurrent_spec (hT : TASKS ≤ 2 ^ 32) {k : KernelScheduler TASKS} (hk : k.Inv) :
    k.yieldCurrent.2.Inv ∧ k.Steady k.yieldCurrent.2 := by
  unfold yieldCurrent
  split
  · exact ⟨hk, .refl k⟩
  · exact selectReplacement_spec hT hk.nonzeroLive _

/-- Blocking the current task never fails on a missing identity. -/
theorem blockCurrent_spec (hT : TASKS ≤ 2 ^ 32) {k : KernelScheduler TASKS} (hk : k.Inv) :
    k.blockCurrent.2.Inv ∧ k.Steady k.blockCurrent.2 := by
  unfold blockCurrent
  split
  · exact ⟨hk, .refl k⟩
  · next current hc =>
    obtain ⟨s', hs'⟩ := Scheduler.setState_ok (hk.current current hc).live .blocked
    have he := Scheduler.setState_entered hs'
    dsimp only
    rw [hs']
    have hkeeps := selectReplacement_keeps
      ({ k with current := none, scheduler := s' } : KernelScheduler TASKS) (some current)
    exact ⟨selectReplacement_inv hT (he.nonzeroLive hk.nonzeroLive) _,
      ⟨fun x => (hkeeps.live x).trans (he.live x), fun x => (hkeeps.retired x).trans (he.retired x)⟩⟩

/-- Terminating the current task retires exactly its identity. -/
theorem terminateCurrent_spec (hT : TASKS ≤ 2 ^ 32) {k : KernelScheduler TASKS} (hk : k.Inv)
    {current : TaskId} (hc : k.current = some current) :
    (∃ outcome, k.terminateCurrent.1 = .ok outcome) ∧ k.terminateCurrent.2.Inv ∧
      k.scheduler.Removed current k.terminateCurrent.2.scheduler := by
  obtain ⟨s', hs'⟩ := Scheduler.remove_ok (hk.current current hc).live
  have hr := Scheduler.remove_removed hs'
  unfold terminateCurrent
  rw [hc]
  dsimp only
  rw [hs']
  exact ⟨⟨_, rfl⟩, selectReplacement_inv hT (hr.nonzeroLive hk.nonzeroLive) _,
    hr.trans_keeps (selectReplacement_keeps _ _)⟩

theorem wake_spec {k : KernelScheduler TASKS} (hk : k.Inv) {task : TaskId}
    (ht : k.scheduler.Live task) :
    (k.wake task).1 = .ok () ∧ (k.wake task).2.Inv ∧ k.Steady (k.wake task).2 := by
  obtain ⟨s', hs'⟩ := Scheduler.setState_ok ht .runnable
  have he := Scheduler.setState_entered hs'
  unfold wake
  rw [hs']
  refine ⟨rfl, ⟨he.nonzeroLive hk.nonzeroLive, fun c hc => ?_⟩, ⟨he.live, he.retired⟩⟩
  rw [he.runnable]
  split_ifs
  · rfl
  · exact hk.current c hc

/-- A failed detach changes nothing; a successful one retires exactly `task`,
    which was not running. -/
theorem detach_spec {k : KernelScheduler TASKS} (hk : k.Inv) (task : TaskId) :
    (∃ error, k.detach task = (.error error, k)) ∨
    ∃ state priority, (k.detach task).1 = .ok ⟨task, state, priority⟩ ∧ (k.detach task).2.Inv ∧
      k.scheduler.Removed task (k.detach task).2.scheduler := by
  unfold detach
  split_ifs with hcur
  · exact .inl ⟨_, rfl⟩
  · cases hi : k.scheduler.taskSlot task with
    | none => exact .inl ⟨_, rfl⟩
    | some i =>
      right
      obtain ⟨s', hs'⟩ := Scheduler.remove_ok ⟨i, hi⟩
      have hr := Scheduler.remove_removed hs'
      dsimp only
      rw [hs']
      refine ⟨_, _, rfl, ⟨hr.nonzeroLive hk.nonzeroLive, fun c hc => ?_⟩, hr⟩
      exact hr.runnable c (hk.current c hc) (by rintro rfl; exact hcur hc)

/-- A failed attach changes nothing and returns the same ticket; a successful
    one admits a fresh identity. -/
theorem attach_spec (hT : TASKS ≤ 2 ^ 32) {k : KernelScheduler TASKS} (hk : k.Inv)
    (task : DetachedTask) :
    (∃ error, k.attach task = (.error (error, task), k)) ∨
    ∃ destination, (k.attach task).1 =
        .ok ⟨task.source, destination, task.state, task.priority⟩ ∧
      (k.attach task).2.Inv ∧ k.scheduler.Created destination (k.attach task).2.scheduler := by
  rcases k.scheduler.create_cases task.priority with h | ⟨i, -, -, h⟩
  · left
    exact ⟨.scheduler .full, by simp [attach, create, h, Except.mapError]⟩
  · right
    have hc := Scheduler.create_created hT h
    refine ⟨k.scheduler.idAt i, ?_⟩
    by_cases hb : task.state = .blocked
    · obtain ⟨s', hs'⟩ := Scheduler.setState_ok ((hc.live _).mpr (.inr rfl)) .blocked
      have hce := hc.trans_entered (Scheduler.setState_entered hs')
      have heq : k.attach task =
          (.ok ⟨task.source, k.scheduler.idAt i, task.state, task.priority⟩,
            { k with scheduler := s' }) := by
        simp [attach, create, h, Except.mapError, hb, hs']
      rw [heq]
      exact ⟨rfl, ⟨hce.nonzeroLive hk.nonzeroLive, fun c hc => hce.runnable c (hk.current c hc)⟩, hce⟩
    · have heq : k.attach task =
          (.ok ⟨task.source, k.scheduler.idAt i, task.state, task.priority⟩,
            { k with scheduler :=
              k.scheduler.setTask i ((k.scheduler.tasks i).enrol task.priority) }) := by
        simp [attach, create, h, Except.mapError, hb]
      rw [heq]
      exact ⟨rfl, ⟨hc.nonzeroLive hk.nonzeroLive, fun c hc' => hc.runnable c (hk.current c hc')⟩, hc⟩

theorem create_spec (hT : TASKS ≤ 2 ^ 32) {k : KernelScheduler TASKS} (hk : k.Inv)
    (priority : Priority) :
    (∃ error, k.create priority = (.error error, k)) ∨
    ∃ id, (k.create priority).1 = .ok id ∧ (k.create priority).2.Inv ∧
      k.scheduler.Created id (k.create priority).2.scheduler := by
  rcases k.scheduler.create_cases priority with h | ⟨i, -, -, h⟩
  · exact .inl ⟨.scheduler .full, by simp [create, h, Except.mapError]⟩
  · right
    have hc := Scheduler.create_created hT h
    refine ⟨k.scheduler.idAt i, ?_⟩
    simp only [create, h, Except.mapError]
    exact ⟨trivial, ⟨hc.nonzeroLive hk.nonzeroLive, fun c hc' => hc.runnable c (hk.current c hc')⟩, hc⟩

theorem new_inv {ticksPerSecond quantumTicks : UInt32} {k : KernelScheduler TASKS}
    (h : new TASKS ticksPerSecond quantumTicks = .ok k) : k.Inv := by
  unfold new at h
  split_ifs at h
  cases h
  constructor
  · intro i hi
    cases hi
  · intro c hc
    cases hc

theorem new_not_live {ticksPerSecond quantumTicks : UInt32} {k : KernelScheduler TASKS}
    (h : new TASKS ticksPerSecond quantumTicks = .ok k) (id : TaskId) : ¬ k.scheduler.Live id := by
  unfold new at h
  split_ifs at h
  cases h
  rintro ⟨i, hi⟩
  obtain ⟨-, hocc, -⟩ := Scheduler.taskSlot_eq_some.mp hi
  cases hocc

end KernelScheduler

end Mrml.Kernel
