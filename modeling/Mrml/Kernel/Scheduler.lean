import Mrml.Common.Int
import Mrml.Common.Slots

/-!
# The scheduler

Model of the weighted round-robin `Scheduler`
(`crates/mrml-kernel/src/scheduler.rs`, lines 8–70, 202–215 and 338–485).

A task identity (`TaskId`) names a slot and a generation. Removing a task
advances the generation of its slot; the generation after `u32::MAX` is 0, and
a slot of generation 0 is never used again. So identities fall into three
classes: live (`Live`), retired (`Retired`) and not yet issued, and every
operation moves an identity only forward through them.
-/

namespace Mrml.Kernel

/-- `TaskId` (lines 8–12). -/
structure TaskId where
  slot : UInt32
  generation : UInt32
deriving DecidableEq

/-- `TaskState` (lines 27–31). -/
inductive TaskState
  | runnable
  | blocked
deriving DecidableEq

/-- `Priority` (lines 33–45): the four constants of the newtype. -/
inductive Priority
  | background
  | normal
  | responsive
  | realtime
deriving DecidableEq

/-- The wrapped `u8` of a priority. -/
def Priority.level : Priority → UInt8
  | background => 0
  | normal => 1
  | responsive => 2
  | realtime => 3

/-- `Priority::budget` (lines 42–44). -/
def Priority.budget (p : Priority) : UInt8 := 1 <<< p.level

/-- `SchedulerError` (lines 47–52). -/
inductive SchedulerError
  | full
  | invalidTask
  | retiredSlot
deriving DecidableEq

/-- `KernelScheduleError` (lines 54–63). -/
inductive KernelScheduleError
  | invalidTimerFrequency
  | invalidQuantum
  | tickExhausted
  | noCurrentTask
  | currentTaskCannotMigrate
  | noMigrationCandidate
  | scheduler (error : SchedulerError)
deriving DecidableEq

/-- `SchedulerLoad` (lines 65–70). -/
structure SchedulerLoad where
  occupied : ℕ
  runnable : ℕ
  capacity : ℕ
deriving DecidableEq

/-- `TaskMigration` (lines 202–208). -/
structure TaskMigration where
  source : TaskId
  destination : TaskId
  state : TaskState
  priority : Priority
deriving DecidableEq

/-- `DetachedTask` (lines 210–215). -/
structure DetachedTask where
  source : TaskId
  state : TaskState
  priority : Priority
deriving DecidableEq

/-- `ScheduleOutcome` (lines 338–343). -/
inductive ScheduleOutcome
  | idle
  | continue (task : TaskId)
  | switch (from_ : Option TaskId) (to_ : TaskId)
deriving DecidableEq

/-- `Task` (lines 345–352). -/
structure Task where
  generation : UInt32
  state : TaskState
  priority : Priority
  budget : UInt8
  occupied : Bool
deriving DecidableEq

/-- `Task::EMPTY` (lines 355–361). -/
def Task.empty : Task := ⟨1, .blocked, .normal, 0, false⟩

/-- The writes of `create` to the slot it takes (lines 386–389). -/
@[simps] def Task.enrol (task : Task) (priority : Priority) : Task :=
  { task with occupied := true, state := .runnable, priority, budget := priority.budget }

/-- The writes of `set_state` (lines 398–401). -/
def Task.enter (task : Task) (state : TaskState) : Task :=
  let task := { task with state }
  if state = .runnable ∧ task.budget = 0 then { task with budget := task.priority.budget }
  else task

/-- `generation.checked_add(1).unwrap_or(0)` (line 410). -/
def retireGeneration (generation : UInt32) : UInt32 := (checkedAdd32 generation 1).getD 0

/-- The writes of `remove` (lines 407–410). -/
@[simps] def Task.retire (task : Task) : Task :=
  { task with
    occupied := false, state := .blocked, budget := 0
    generation := retireGeneration task.generation }

/-- `Scheduler<TASKS>` (lines 366–369). -/
structure Scheduler (TASKS : ℕ) where
  tasks : Fin TASKS → Task
  cursor : ℕ

namespace Scheduler

variable {TASKS : ℕ}

/-- `Scheduler::new` (lines 372–377). -/
def new (TASKS : ℕ) : Scheduler TASKS := ⟨fun _ => Task.empty, 0⟩

/-- `self.tasks[i] = task`. -/
def setTask (s : Scheduler TASKS) (i : Fin TASKS) (task : Task) : Scheduler TASKS :=
  { s with tasks := Function.update s.tasks i task }

/-- The identity the current occupant of slot `i` has. -/
def idAt (s : Scheduler TASKS) (i : Fin TASKS) : TaskId :=
  ⟨UInt32.ofNat i, (s.tasks i).generation⟩

/-- The slot of a live identity: `Scheduler::task` and `Scheduler::task_mut`
    (lines 444–456). -/
def taskSlot (s : Scheduler TASKS) (id : TaskId) : Option (Fin TASKS) :=
  (slotAt id.slot).filter fun i =>
    (s.tasks i).occupied && (s.tasks i).generation == id.generation

/-- `Scheduler::create` (lines 379–394). -/
def create (s : Scheduler TASKS) (priority : Priority) :
    Except SchedulerError TaskId × Scheduler TASKS :=
  match firstSlot fun i => !(s.tasks i).occupied && (s.tasks i).generation != 0 with
  | none => (.error .full, s)
  | some slot =>
    (.ok (s.idAt slot), s.setTask slot ((s.tasks slot).enrol priority))

/-- `Scheduler::set_state` (lines 396–403). -/
def setState (s : Scheduler TASKS) (id : TaskId) (state : TaskState) :
    Except SchedulerError Unit × Scheduler TASKS :=
  match s.taskSlot id with
  | none => (.error .invalidTask, s)
  | some i => (.ok (), s.setTask i ((s.tasks i).enter state))

/-- `Scheduler::remove` (lines 405–412). -/
def remove (s : Scheduler TASKS) (id : TaskId) : Except SchedulerError Unit × Scheduler TASKS :=
  match s.taskSlot id with
  | none => (.error .invalidTask, s)
  | some i => (.ok (), s.setTask i (s.tasks i).retire)

/-- `Scheduler::select_with_budget` (lines 428–442). -/
def selectWithBudget (s : Scheduler TASKS) : Option TaskId × Scheduler TASKS :=
  match scanFrom s.cursor fun i =>
    (s.tasks i).occupied && (s.tasks i).state == .runnable && (s.tasks i).budget != 0 with
  | none => (none, s)
  | some slot =>
    (some (s.idAt slot),
      { s.setTask slot { s.tasks slot with budget := (s.tasks slot).budget - 1 } with
        cursor := (slot.val + 1) % TASKS })

/-- The refill loop of `schedule` (lines 418–424): its `runnable` flag and the
    new table. -/
def refill (s : Scheduler TASKS) : Bool × Scheduler TASKS :=
  ((List.finRange TASKS).any fun i => (s.tasks i).occupied && (s.tasks i).state == .runnable,
    { s with tasks := fun i =>
        if (s.tasks i).occupied && (s.tasks i).state == .runnable then
          { s.tasks i with budget := (s.tasks i).priority.budget }
        else s.tasks i })

/-- `Scheduler::schedule` (lines 414–426). -/
def schedule (s : Scheduler TASKS) : Option TaskId × Scheduler TASKS :=
  match s.selectWithBudget with
  | (some id, s) => (some id, s)
  | (none, s) =>
    let (runnable, s) := s.refill
    if runnable then s.selectWithBudget else (none, s)

/-- `Scheduler::load` (lines 458–470). -/
def load (s : Scheduler TASKS) : SchedulerLoad where
  occupied := (List.finRange TASKS).countP fun i => (s.tasks i).occupied
  runnable := (List.finRange TASKS).countP fun i =>
    (s.tasks i).occupied && (s.tasks i).state == .runnable
  capacity := TASKS

/-- `Scheduler::migration_candidate` (lines 472–485). -/
def migrationCandidate (s : Scheduler TASKS) (excluded : Option TaskId) : Option TaskId :=
  (scanFrom s.cursor fun i =>
    (s.tasks i).occupied && (s.tasks i).state == .runnable && some (s.idAt i) != excluded).map
    s.idAt

/-! ## Identities -/

/-- `id` is the identity of an occupied slot. -/
def Live (s : Scheduler TASKS) (id : TaskId) : Prop := ∃ i, s.taskSlot id = some i

/-- `id` is live and its task is runnable. -/
def Runnable (s : Scheduler TASKS) (id : TaskId) : Prop :=
  ∃ i, s.taskSlot id = some i ∧ (s.tasks i).state = .runnable

/-- The slot of `id` has moved past the generation of `id`. -/
def Retired (s : Scheduler TASKS) (id : TaskId) : Prop :=
  ∃ i : Fin TASKS, i.val = id.slot.toNat ∧
    ((s.tasks i).generation = 0 ∨ id.generation < (s.tasks i).generation)

/-- Occupied slots have a non-zero generation. -/
def NonzeroLive (s : Scheduler TASKS) : Prop :=
  ∀ i, (s.tasks i).occupied = true → (s.tasks i).generation ≠ 0

theorem taskSlot_eq_some {s : Scheduler TASKS} {id : TaskId} {i : Fin TASKS} :
    s.taskSlot id = some i ↔ i.val = id.slot.toNat ∧ (s.tasks i).occupied = true ∧
      (s.tasks i).generation = id.generation := by
  simp [taskSlot, Option.filter_eq_some_iff, slotAt_eq_some]

theorem Runnable.live {s : Scheduler TASKS} {id : TaskId} (h : s.Runnable id) : s.Live id :=
  h.imp fun _ => And.left

theorem taskSlot_idAt (hT : TASKS ≤ 2 ^ 32) {s : Scheduler TASKS} {i : Fin TASKS}
    (h : (s.tasks i).occupied = true) : s.taskSlot (s.idAt i) = some i :=
  taskSlot_eq_some.mpr ⟨slotAt_eq_some.mp (slotAt_ofNat hT i), h, rfl⟩

/-- A live identity is the one its slot has. -/
theorem idAt_of_taskSlot {s : Scheduler TASKS} {id : TaskId} {i : Fin TASKS}
    (h : s.taskSlot id = some i) : s.idAt i = id := by
  obtain ⟨hslot, -, hgen⟩ := taskSlot_eq_some.mp h
  cases id
  simp only [idAt, TaskId.mk.injEq]
  exact ⟨by rw [hslot]; exact UInt32.ofNat_toNat, hgen⟩

theorem Live.not_retired {s : Scheduler TASKS} (hs : s.NonzeroLive) {id : TaskId}
    (h : s.Live id) : ¬ s.Retired id := by
  obtain ⟨i, hi⟩ := h
  obtain ⟨hslot, hocc, hgen⟩ := taskSlot_eq_some.mp hi
  rintro ⟨j, hj, hret⟩
  obtain rfl : j = i := Fin.ext (hj.trans hslot.symm)
  rcases hret with h0 | hlt
  · exact hs j hocc h0
  · rw [hgen] at hlt
    exact UInt32.lt_irrefl _ hlt

/-! ## Effects of a single-slot write -/

@[simp] theorem setTask_self (s : Scheduler TASKS) (i : Fin TASKS) (t : Task) :
    (s.setTask i t).tasks i = t := by simp [setTask]

theorem setTask_of_ne (s : Scheduler TASKS) {i j : Fin TASKS} (t : Task) (h : j ≠ i) :
    (s.setTask i t).tasks j = s.tasks j := by simp [setTask, h]

/-- Identities outside the written slot are not affected. -/
theorem taskSlot_setTask_of_ne {s : Scheduler TASKS} {i : Fin TASKS} {t : Task} {id : TaskId}
    (h : i.val ≠ id.slot.toNat) : (s.setTask i t).taskSlot id = s.taskSlot id := by
  unfold taskSlot
  cases hj : slotAt (N := TASKS) id.slot with
  | none => rfl
  | some j =>
    have hji : j ≠ i := fun hji => h (hji ▸ slotAt_eq_some.mp hj)
    simp [Option.filter, setTask_of_ne _ _ hji]

/-! ## Effects of the operations on identities -/

/-- `s'` has the same occupants as `s`, in the same states; budgets,
    priorities and the cursor may differ. -/
def Keeps (s s' : Scheduler TASKS) : Prop :=
  ∀ i, (s'.tasks i).occupied = (s.tasks i).occupied ∧
    (s'.tasks i).generation = (s.tasks i).generation ∧ (s'.tasks i).state = (s.tasks i).state

theorem Keeps.refl (s : Scheduler TASKS) : s.Keeps s := fun _ => ⟨rfl, rfl, rfl⟩

theorem Keeps.trans {s t u : Scheduler TASKS} (h : s.Keeps t) (h' : t.Keeps u) : s.Keeps u :=
  fun i => ⟨(h' i).1.trans (h i).1, (h' i).2.1.trans (h i).2.1, (h' i).2.2.trans (h i).2.2⟩

theorem Keeps.taskSlot {s s' : Scheduler TASKS} (h : s.Keeps s') (id : TaskId) :
    s'.taskSlot id = s.taskSlot id := by
  unfold Scheduler.taskSlot
  congr 1
  funext i
  rw [(h i).1, (h i).2.1]

theorem Keeps.live {s s' : Scheduler TASKS} (h : s.Keeps s') (id : TaskId) :
    s'.Live id ↔ s.Live id := by
  simp only [Live, h.taskSlot]

theorem Keeps.runnable {s s' : Scheduler TASKS} (h : s.Keeps s') (id : TaskId) :
    s'.Runnable id ↔ s.Runnable id := by
  simp only [Runnable, h.taskSlot, (h _).2.2]

theorem Keeps.retired {s s' : Scheduler TASKS} (h : s.Keeps s') (id : TaskId) :
    s'.Retired id ↔ s.Retired id := by
  simp only [Retired, (h _).2.1]

theorem Keeps.nonzeroLive {s s' : Scheduler TASKS} (h : s.Keeps s') (hs : s.NonzeroLive) :
    s'.NonzeroLive := by
  intro i hi
  rw [(h i).2.1]
  exact hs i ((h i).1 ▸ hi)

theorem selectWithBudget_keeps (s : Scheduler TASKS) : s.Keeps s.selectWithBudget.2 := by
  unfold selectWithBudget
  split
  · exact .refl s
  · rename_i slot _
    intro i
    by_cases hi : i = slot
    · subst hi
      simp
    · simp [setTask_of_ne _ _ hi]

theorem refill_keeps (s : Scheduler TASKS) : s.Keeps s.refill.2 := by
  intro i
  simp only [refill]
  split_ifs <;> simp

theorem schedule_keeps (s : Scheduler TASKS) : s.Keeps s.schedule.2 := by
  have h := s.selectWithBudget_keeps
  unfold schedule
  split
  · next hsel => rwa [hsel] at h
  · next s1 hsel =>
    rw [hsel] at h
    have h1 := h.trans s1.refill_keeps
    dsimp only
    split_ifs
    · exact h1.trans (selectWithBudget_keeps _)
    · exact h1

/-- What is selected is live and runnable. -/
theorem selectWithBudget_runnable (hT : TASKS ≤ 2 ^ 32) {s : Scheduler TASKS} {id : TaskId}
    (h : s.selectWithBudget.1 = some id) : s.Runnable id := by
  unfold selectWithBudget at h
  split at h
  · cases h
  · next slot hscan =>
    have hp := scanFrom_some hscan
    simp only [Bool.and_eq_true, beq_iff_eq] at hp
    cases h
    exact ⟨slot, taskSlot_idAt hT hp.1.1, hp.1.2⟩

theorem schedule_runnable (hT : TASKS ≤ 2 ^ 32) {s : Scheduler TASKS} {id : TaskId}
    (h : s.schedule.1 = some id) : s.Runnable id := by
  unfold schedule at h
  split at h
  · next hsel => exact selectWithBudget_runnable hT (by rw [hsel]; exact h)
  · next s1 hsel =>
    have hk : s.Keeps s1 := by simpa [hsel] using s.selectWithBudget_keeps
    dsimp only at h
    split_ifs at h
    have := selectWithBudget_runnable hT h
    rwa [s1.refill_keeps.runnable, hk.runnable] at this

theorem migrationCandidate_runnable (hT : TASKS ≤ 2 ^ 32) {s : Scheduler TASKS}
    {excluded : Option TaskId} {id : TaskId} (h : s.migrationCandidate excluded = some id) :
    s.Runnable id ∧ excluded ≠ some id := by
  obtain ⟨slot, hscan, rfl⟩ := Option.map_eq_some_iff.mp h
  have hp := scanFrom_some hscan
  simp only [Bool.and_eq_true, beq_iff_eq, bne_iff_ne] at hp
  exact ⟨⟨slot, taskSlot_idAt hT hp.1.1, hp.1.2⟩, fun h => hp.2 h.symm⟩

/-- The generation after `g` is 0 or greater than `g`. -/
theorem retireGeneration_cases (g : UInt32) : retireGeneration g = 0 ∨ g < retireGeneration g := by
  unfold retireGeneration
  cases h : checkedAdd32 g 1 with
  | none => exact .inl rfl
  | some g' =>
    right
    rw [checkedAdd32_eq_some, UInt32.toNat_one] at h
    rw [Option.getD_some, UInt32.lt_iff_toNat_lt]
    omega

/-- `id` is a fresh live identity of `s'`; every other identity is untouched. -/
structure Created (s : Scheduler TASKS) (id : TaskId) (s' : Scheduler TASKS) : Prop where
  fresh : ¬ s.Live id
  unretired : s.NonzeroLive → ¬ s.Retired id
  live : ∀ x, s'.Live x ↔ s.Live x ∨ x = id
  runnable : ∀ x, s.Runnable x → s'.Runnable x
  retired : ∀ x, s.Retired x → s'.Retired x
  nonzeroLive : s.NonzeroLive → s'.NonzeroLive

theorem create_cases (s : Scheduler TASKS) (priority : Priority) :
    s.create priority = (.error .full, s) ∨
    ∃ i, (s.tasks i).occupied = false ∧ (s.tasks i).generation ≠ 0 ∧
      s.create priority = (.ok (s.idAt i), s.setTask i ((s.tasks i).enrol priority)) := by
  unfold create
  split
  · exact .inl rfl
  · next i hi =>
    have hp := firstSlot_some hi
    simp only [Bool.and_eq_true, Bool.not_eq_true', bne_iff_ne] at hp
    exact .inr ⟨i, hp.1, hp.2, rfl⟩

theorem create_created (hT : TASKS ≤ 2 ^ 32) {s s' : Scheduler TASKS} {priority : Priority}
    {id : TaskId} (h : s.create priority = (.ok id, s')) : s.Created id s' := by
  rcases s.create_cases priority with h' | ⟨i, hfree, hgen, h'⟩
  · rw [h'] at h
    cases h
  · rw [h', Prod.mk.injEq, Except.ok.injEq] at h
    obtain ⟨rfl, rfl⟩ := h
    have hi : i.val = (s.idAt i).slot.toNat := slotAt_eq_some.mp (slotAt_ofNat hT i)
    -- an identity of slot `i` is live afterwards exactly if it is the new one
    have hself : ∀ x : TaskId, i.val = x.slot.toNat →
        ((s.setTask i ((s.tasks i).enrol priority)).taskSlot x = some i ↔ x = s.idAt i) := by
      intro x hx
      rw [taskSlot_eq_some]
      constructor
      · rintro ⟨-, -, hxg⟩
        cases x
        simp only [idAt, TaskId.mk.injEq, ← UInt32.toNat_inj]
        simp only [setTask_self, Task.enrol_generation] at hxg
        exact ⟨hx.symm.trans hi, by rw [hxg]⟩
      · rintro rfl
        exact ⟨hi, by simp, by simp [idAt]⟩
    refine ⟨?_, ?_, ?_, ?_, ?_, ?_⟩
    · rintro ⟨j, hj⟩
      obtain ⟨hslot, hocc, -⟩ := taskSlot_eq_some.mp hj
      obtain rfl : j = i := Fin.ext (hslot.trans hi.symm)
      rw [hfree] at hocc
      cases hocc
    · rintro - ⟨j, hslot, hret⟩
      obtain rfl : j = i := Fin.ext (hslot.trans hi.symm)
      rcases hret with h0 | hlt
      · exact hgen h0
      · exact UInt32.lt_irrefl _ hlt
    · intro x
      by_cases hx : i.val = x.slot.toNat
      · have hdead : ¬ s.Live x := by
          rintro ⟨j, hj⟩
          obtain ⟨hslot, hocc, -⟩ := taskSlot_eq_some.mp hj
          obtain rfl : j = i := Fin.ext (hslot.trans hx.symm)
          rw [hfree] at hocc
          cases hocc
        rw [or_iff_right hdead, ← hself x hx]
        constructor
        · rintro ⟨j, hj⟩
          obtain rfl : j = i := Fin.ext ((taskSlot_eq_some.mp hj).1.trans hx.symm)
          exact hj
        · exact fun h => ⟨i, h⟩
      · have hne : x ≠ s.idAt i := by
          rintro rfl
          exact hx hi
        simp only [Live, taskSlot_setTask_of_ne hx, or_iff_left hne]
    · rintro x ⟨j, hj, hst⟩
      obtain ⟨hslot, hocc, -⟩ := taskSlot_eq_some.mp hj
      have hji : j ≠ i := by
        rintro rfl
        rw [hfree] at hocc
        cases hocc
      have hx : i.val ≠ x.slot.toNat := fun hx => hji (Fin.ext (hslot.trans hx.symm))
      exact ⟨j, by rw [taskSlot_setTask_of_ne hx, hj], by rw [setTask_of_ne _ _ hji, hst]⟩
    · rintro x ⟨j, hslot, hret⟩
      refine ⟨j, hslot, ?_⟩
      by_cases hji : j = i
      · subst hji
        simpa using hret
      · rwa [setTask_of_ne _ _ hji]
    · intro hs j hj
      by_cases hji : j = i
      · subst hji
        simpa using hgen
      · rw [setTask_of_ne _ _ hji] at hj ⊢
        exact hs j hj

/-- `remove`: a live identity is retired, every other identity is untouched. -/
structure Removed (s : Scheduler TASKS) (id : TaskId) (s' : Scheduler TASKS) : Prop where
  wasLive : s.Live id
  live : ∀ x, s'.Live x ↔ s.Live x ∧ x ≠ id
  runnable : ∀ x, s.Runnable x → x ≠ id → s'.Runnable x
  isRetired : s'.Retired id
  retired : s.NonzeroLive → ∀ x, s.Retired x → s'.Retired x
  nonzeroLive : s.NonzeroLive → s'.NonzeroLive

theorem remove_cases (s : Scheduler TASKS) (id : TaskId) :
    (s.taskSlot id = none ∧ s.remove id = (.error .invalidTask, s)) ∨
    ∃ i, s.taskSlot id = some i ∧ s.remove id = (.ok (), s.setTask i (s.tasks i).retire) := by
  unfold remove
  cases s.taskSlot id with
  | none => exact .inl ⟨rfl, rfl⟩
  | some i => exact .inr ⟨i, rfl, rfl⟩

theorem remove_removed {s s' : Scheduler TASKS} {id : TaskId} (h : s.remove id = (.ok (), s')) :
    s.Removed id s' := by
  rcases s.remove_cases id with ⟨-, h'⟩ | ⟨i, hi, h'⟩
  · rw [h'] at h
    cases h
  · rw [h', Prod.mk.injEq] at h
    obtain ⟨-, rfl⟩ := h
    obtain ⟨hslot, hocc, hgen⟩ := taskSlot_eq_some.mp hi
    -- the only live identity of slot `i` is `id`
    have huniq : ∀ x, s.taskSlot x = some i → x = id := fun x hx =>
      (idAt_of_taskSlot hx).symm.trans (idAt_of_taskSlot hi)
    have hpast := retireGeneration_cases (s.tasks i).generation
    refine ⟨⟨i, hi⟩, ?_, ?_, ⟨i, hslot, ?_⟩, ?_, ?_⟩
    · intro x
      constructor
      · rintro ⟨j, hj⟩
        obtain ⟨hjslot, hjocc, -⟩ := taskSlot_eq_some.mp hj
        have hji : j ≠ i := by
          rintro rfl
          simp at hjocc
        have hx : i.val ≠ x.slot.toNat := fun hx => hji (Fin.ext (hjslot.trans hx.symm))
        rw [taskSlot_setTask_of_ne hx] at hj
        refine ⟨⟨j, hj⟩, ?_⟩
        rintro rfl
        exact hx hslot
      · rintro ⟨⟨j, hj⟩, hne⟩
        have hx : i.val ≠ x.slot.toNat := by
          intro hx
          obtain rfl : j = i := Fin.ext ((taskSlot_eq_some.mp hj).1.trans hx.symm)
          exact hne (huniq x hj)
        exact ⟨j, by rw [taskSlot_setTask_of_ne hx, hj]⟩
    · rintro x ⟨j, hj, hst⟩ hne
      have hji : j ≠ i := by
        rintro rfl
        exact hne (huniq x hj)
      have hx : i.val ≠ x.slot.toNat :=
        fun hx => hji (Fin.ext ((taskSlot_eq_some.mp hj).1.trans hx.symm))
      exact ⟨j, by rw [taskSlot_setTask_of_ne hx, hj], by rw [setTask_of_ne _ _ hji, hst]⟩
    · rw [setTask_self, Task.retire_generation, ← hgen]
      exact hpast
    · rintro hs x ⟨j, hjslot, hret⟩
      refine ⟨j, hjslot, ?_⟩
      by_cases hji : j = i
      · subst hji
        rw [setTask_self, Task.retire_generation]
        rcases hret with h0 | hlt
        · exact absurd h0 (hs j hocc)
        · exact hpast.imp_right (UInt32.lt_trans hlt)
      · rwa [setTask_of_ne _ _ hji]
    · intro hs j hj
      by_cases hji : j = i
      · subst hji
        simp at hj
      · rw [setTask_of_ne _ _ hji] at hj ⊢
        exact hs j hj

theorem enter_occupied (t : Task) (state : TaskState) : (t.enter state).occupied = t.occupied := by
  unfold Task.enter
  dsimp only
  split_ifs <;> rfl

theorem enter_generation (t : Task) (state : TaskState) :
    (t.enter state).generation = t.generation := by
  unfold Task.enter
  dsimp only
  split_ifs <;> rfl

theorem enter_state (t : Task) (state : TaskState) : (t.enter state).state = state := by
  unfold Task.enter
  dsimp only
  split_ifs <;> rfl

/-- `set_state`: identities stay as they are; only the state of `id` changes. -/
structure Entered (s : Scheduler TASKS) (id : TaskId) (state : TaskState)
    (s' : Scheduler TASKS) : Prop where
  live : ∀ x, s'.Live x ↔ s.Live x
  runnable : ∀ x, s'.Runnable x ↔ if x = id then state = .runnable else s.Runnable x
  retired : ∀ x, s'.Retired x ↔ s.Retired x
  nonzeroLive : s.NonzeroLive → s'.NonzeroLive

theorem setState_cases (s : Scheduler TASKS) (id : TaskId) (state : TaskState) :
    (s.taskSlot id = none ∧ s.setState id state = (.error .invalidTask, s)) ∨
    ∃ i, s.taskSlot id = some i ∧
      s.setState id state = (.ok (), s.setTask i ((s.tasks i).enter state)) := by
  unfold setState
  cases s.taskSlot id with
  | none => exact .inl ⟨rfl, rfl⟩
  | some i => exact .inr ⟨i, rfl, rfl⟩

theorem setState_entered {s s' : Scheduler TASKS} {id : TaskId} {state : TaskState}
    (h : s.setState id state = (.ok (), s')) : s.Entered id state s' := by
  rcases s.setState_cases id state with ⟨-, h'⟩ | ⟨i, hi, h'⟩
  · rw [h'] at h
    cases h
  · rw [h', Prod.mk.injEq] at h
    obtain ⟨-, rfl⟩ := h
    have htask : ∀ j, ((s.setTask i ((s.tasks i).enter state)).tasks j).occupied =
          (s.tasks j).occupied ∧
        ((s.setTask i ((s.tasks i).enter state)).tasks j).generation = (s.tasks j).generation := by
      intro j
      by_cases hji : j = i
      · subst hji
        simp [enter_occupied, enter_generation]
      · simp [setTask_of_ne _ _ hji]
    have hslots : ∀ x, (s.setTask i ((s.tasks i).enter state)).taskSlot x = s.taskSlot x := by
      intro x
      unfold taskSlot
      congr 1
      funext j
      rw [(htask j).1, (htask j).2]
    refine ⟨fun x => by simp only [Live, hslots], fun x => ?_,
      fun x => by simp only [Retired, (htask _).2], fun hs j hj => ?_⟩
    · simp only [Runnable, hslots]
      split_ifs with hx
      · subst hx
        constructor
        · rintro ⟨j, hj, hst⟩
          obtain rfl : i = j := Option.some.inj (hi.symm.trans hj)
          rwa [setTask_self, enter_state] at hst
        · rintro rfl
          exact ⟨i, hi, by rw [setTask_self, enter_state]⟩
      · -- another identity of the same slot cannot be live
        have hne : ∀ j, s.taskSlot x = some j → j ≠ i := by
          rintro j hj rfl
          exact hx ((idAt_of_taskSlot hj).symm.trans (idAt_of_taskSlot hi))
        constructor
        · rintro ⟨j, hj, hst⟩
          exact ⟨j, hj, by rwa [setTask_of_ne _ _ (hne j hj)] at hst⟩
        · rintro ⟨j, hj, hst⟩
          exact ⟨j, hj, by rwa [setTask_of_ne _ _ (hne j hj)]⟩
    · rw [(htask j).2]
      exact hs j ((htask j).1 ▸ hj)

theorem setState_ok {s : Scheduler TASKS} {id : TaskId} (h : s.Live id) (state : TaskState) :
    ∃ s', s.setState id state = (.ok (), s') := by
  obtain ⟨i, hi⟩ := h
  rcases s.setState_cases id state with ⟨h', -⟩ | ⟨j, -, h'⟩
  · rw [hi] at h'
    cases h'
  · exact ⟨_, h'⟩

theorem remove_ok {s : Scheduler TASKS} {id : TaskId} (h : s.Live id) :
    ∃ s', s.remove id = (.ok (), s') := by
  obtain ⟨i, hi⟩ := h
  rcases s.remove_cases id with ⟨h', -⟩ | ⟨j, -, h'⟩
  · rw [hi] at h'
    cases h'
  · exact ⟨_, h'⟩

theorem Removed.trans_keeps {s t u : Scheduler TASKS} {id : TaskId} (h : s.Removed id t)
    (h' : t.Keeps u) : s.Removed id u where
  wasLive := h.wasLive
  live x := (h'.live x).trans (h.live x)
  runnable x hx hne := (h'.runnable x).mpr (h.runnable x hx hne)
  isRetired := (h'.retired id).mpr h.isRetired
  retired hs x hx := (h'.retired x).mpr (h.retired hs x hx)
  nonzeroLive hs := h'.nonzeroLive (h.nonzeroLive hs)

/-- Changing the state of the task just created. -/
theorem Created.trans_entered {s t u : Scheduler TASKS} {id : TaskId} {state : TaskState}
    (h : s.Created id t) (h' : t.Entered id state u) : s.Created id u where
  fresh := h.fresh
  unretired := h.unretired
  live x := (h'.live x).trans (h.live x)
  runnable x hx := by
    have hne : x ≠ id := by
      rintro rfl
      exact h.fresh hx.live
    rw [h'.runnable x, if_neg hne]
    exact h.runnable x hx
  retired x hx := (h'.retired x).mpr (h.retired x hx)
  nonzeroLive hs := h'.nonzeroLive (h.nonzeroLive hs)

end Scheduler

end Mrml.Kernel
