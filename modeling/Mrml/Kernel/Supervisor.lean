import Mrml.Kernel.TaskRuntime
import Mrml.Common.Checked

/-!
# The service supervisor

Model of `crates/mrml-kernel/src/service_lifecycle.rs`: a table of services, each with
the task that runs it, a restart policy and the tick before which it may not restart.
A function that takes `&mut self` and `&mut runtime` returns its result and both new
values, also when it fails.

The system of this file is a supervisor and the task runtime it works on. Its steps are
the operations of the supervisor; between them any other code may change the runtime.

Results:
* `supervisor_safety`: the restart budget, the tie between the state and the task of a
  service, dead handles, and failed restarts, over every run.
* `restart_backoff`: the backoff law, over every run in which the restart tick of each
  retired service fits in 64 bits; `exhausted_clock_skips_backoff` is a run where it
  does not.
-/

namespace Mrml.Kernel

/-- `ServiceId` (lines 9–13). -/
structure ServiceId where
  slot : UInt32
  generation : UInt32
deriving DecidableEq

/-- `ServiceState` (lines 21–26). -/
inductive ServiceState
  | running
  | exited
  | faulted
deriving DecidableEq

/-- `ServiceError` (lines 28–42). -/
inductive ServiceError
  | full
  | invalidService
  | invalidObject
  | taskMismatch
  | stillRunning
  | generationExhausted
  | invalidRestartPolicy
  | restartLimit
  | restartBackoff (eligibleAt : UInt64)
  | timeExhausted
  | unauthorized (error : CapabilityError)
  | runtime (error : TaskRuntimeError)
deriving DecidableEq

/-- `RestartPolicy` (lines 44–49). The fields are private and `new` and
    `ONCE_IMMEDIATE` are the only constructors. -/
@[ext] structure RestartPolicy where
  maximumRestarts : UInt32
  baseBackoffTicks : UInt64
  maximumBackoffTicks : UInt64
  restarts_ne : maximumRestarts ≠ 0
  base_le : baseBackoffTicks ≤ maximumBackoffTicks

instance : DecidableEq RestartPolicy := fun _ _ => decidable_of_iff _ RestartPolicy.ext_iff.symm

namespace RestartPolicy

theorem one_restarts_ne : (1 : UInt32) ≠ 0 := by decide

/-- `RestartPolicy::ONCE_IMMEDIATE` (lines 52–56). -/
def onceImmediate : RestartPolicy := ⟨1, 0, 0, one_restarts_ne, by decide⟩

/-- `RestartPolicy::new` (lines 58–71). -/
def new (maximumRestarts : UInt32) (baseBackoffTicks maximumBackoffTicks : UInt64) :
    Except ServiceError RestartPolicy :=
  if h : maximumRestarts = 0 ∨ maximumBackoffTicks < baseBackoffTicks then
    .error .invalidRestartPolicy
  else
    .ok ⟨maximumRestarts, baseBackoffTicks, maximumBackoffTicks, fun hz => h (.inl hz),
      UInt64.not_lt.mp fun hlt => h (.inr hlt)⟩

/-- `RestartPolicy::delay` (lines 73–78). -/
def delay (policy : RestartPolicy) (completedRestarts : UInt32) : UInt64 :=
  let shift := min completedRestarts 63
  min (saturatingMul64 policy.baseBackoffTicks ((1 : UInt64) <<< shift.toUInt64))
    policy.maximumBackoffTicks

end RestartPolicy

/-- `ServiceRetirement` (lines 81–86). -/
structure ServiceRetirement where
  service : ServiceId
  task : TaskId
  next : ScheduleOutcome

/-- `ServiceFault` (lines 88–92). -/
structure ServiceFault where
  service : ServiceId
  retirement : FaultRetirement

/-- `ServiceSlot` (lines 94–104). -/
structure ServiceSlot where
  generation : UInt32
  object : ObjectId
  task : Option TaskId
  state : ServiceState
  occupied : Bool
  restartPolicy : RestartPolicy
  completedRestarts : UInt32
  nextRestartTick : UInt64
deriving DecidableEq

namespace ServiceSlot

/-- `ServiceSlot::EMPTY` (lines 107–116). -/
def empty : ServiceSlot where
  generation := 1
  object := ⟨0⟩
  task := none
  state := .exited
  occupied := false
  restartPolicy := .onceImmediate
  completedRestarts := 0
  nextRestartTick := 0

/-- The writes of `register_with_policy` (lines 153–159). -/
@[simps] def register (entry : ServiceSlot) (object : ObjectId) (task : TaskId)
    (restartPolicy : RestartPolicy) : ServiceSlot where
  generation := entry.generation
  object := object
  task := some task
  state := .running
  occupied := true
  restartPolicy := restartPolicy
  completedRestarts := 0
  nextRestartTick := 0

/-- `arm_restart` (lines 310–321), on the slot it is called for. -/
def armRestart (entry : ServiceSlot) (now : UInt64) : Except ServiceError Unit × ServiceSlot :=
  if entry.restartPolicy.maximumRestarts ≤ entry.completedRestarts then
    (.ok (), { entry with nextRestartTick := UInt64.ofNat (2 ^ 64 - 1) })
  else
    match checkedAdd64 now (entry.restartPolicy.delay entry.completedRestarts) with
    | none => (.error .timeExhausted, entry)
    | some nextRestartTick => (.ok (), { entry with nextRestartTick })

/-- The writes of `exit_current_at` and `fault_current_at` before they call `arm_restart`
    (lines 196–197 and 231–232). -/
@[simps] def stop (entry : ServiceSlot) (state : ServiceState) : ServiceSlot :=
  { entry with task := none, state }

/-- The writes of `restart_at` (lines 300–303). -/
@[simps] def restart (entry : ServiceSlot) (generation : UInt32) (task : TaskId) : ServiceSlot :=
  { entry with
    generation
    task := some task
    state := .running
    completedRestarts := entry.completedRestarts + 1 }

end ServiceSlot

/-- `ServiceSupervisor<SERVICES>` (lines 123–125). -/
structure ServiceSupervisor (SERVICES : ℕ) where
  slots : Fin SERVICES → ServiceSlot

namespace ServiceSupervisor

variable {SERVICES TASKS CAPS : ℕ}

/-- `ServiceSupervisor::new` (lines 128–132). -/
def new (SERVICES : ℕ) : ServiceSupervisor SERVICES := ⟨fun _ => .empty⟩

/-- A write to slot `i`. -/
def setSlot (sup : ServiceSupervisor SERVICES) (i : Fin SERVICES) (entry : ServiceSlot) :
    ServiceSupervisor SERVICES :=
  ⟨Function.update sup.slots i entry⟩

@[simp] theorem setSlot_self (sup : ServiceSupervisor SERVICES) (i : Fin SERVICES)
    (entry : ServiceSlot) : (sup.setSlot i entry).slots i = entry := by simp [setSlot]

theorem setSlot_of_ne (sup : ServiceSupervisor SERVICES) {i j : Fin SERVICES}
    (entry : ServiceSlot) (h : j ≠ i) : (sup.setSlot i entry).slots j = sup.slots j := by
  simp [setSlot, h]

/-- `ServiceSupervisor::register_with_policy` (lines 138–164); `register` passes
    `ONCE_IMMEDIATE`. -/
def registerWithPolicy (sup : ServiceSupervisor SERVICES) (object : ObjectId) (task : TaskId)
    (restartPolicy : RestartPolicy) :
    Except ServiceError ServiceId × ServiceSupervisor SERVICES :=
  if object.id = 0 then (.error .invalidObject, sup)
  else
    match firstSlot fun i => !(sup.slots i).occupied with
    | none => (.error .full, sup)
    | some slot =>
      (.ok ⟨UInt32.ofNat slot, (sup.slots slot).generation⟩,
        sup.setSlot slot ((sup.slots slot).register object task restartPolicy))

/-- `ServiceSupervisor::slot` (lines 323–328), with the index of the slot. -/
def slot (sup : ServiceSupervisor SERVICES) (service : ServiceId) :
    Except ServiceError (Fin SERVICES) :=
  okOr ((slotAt service.slot).filter fun i =>
    (sup.slots i).occupied && (sup.slots i).generation == service.generation) .invalidService

/-- `ServiceSupervisor::state` (lines 166–168). -/
def state (sup : ServiceSupervisor SERVICES) (service : ServiceId) :
    Except ServiceError ServiceState :=
  (sup.slot service).map fun i => (sup.slots i).state

/-- `ServiceSupervisor::task` (lines 170–172). -/
def task (sup : ServiceSupervisor SERVICES) (service : ServiceId) :
    Except ServiceError (Option TaskId) :=
  (sup.slot service).map fun i => (sup.slots i).task

/-- `ServiceSupervisor::running_task_slot` (lines 330–337). -/
def runningTaskSlot (sup : ServiceSupervisor SERVICES) (task : TaskId) :
    Except ServiceError (Fin SERVICES) :=
  okOr (firstSlot fun i => (sup.slots i).occupied && (sup.slots i).state == .running &&
    (sup.slots i).task == some task) .taskMismatch

/-- `ServiceSupervisor::id` (lines 339–344). -/
def id (sup : ServiceSupervisor SERVICES) (slot : Fin SERVICES) : ServiceId :=
  ⟨UInt32.ofNat slot, (sup.slots slot).generation⟩

/-- The end of `exit_current_at` and `fault_current_at` (lines 196–198 and 231–233): the
    slot stops and `arm_restart` sets its restart tick. -/
def retire (sup : ServiceSupervisor SERVICES) (slot : Fin SERVICES) (state : ServiceState)
    (now : UInt64) : Except ServiceError Unit × ServiceSupervisor SERVICES :=
  let (result, entry) := ((sup.slots slot).stop state).armRestart now
  (result, sup.setSlot slot entry)

/-- `ServiceSupervisor::exit_current_at` (lines 181–204). -/
def exitCurrentAt (sup : ServiceSupervisor SERVICES) (runtime : TaskRuntime TASKS CAPS)
    (now : UInt64) :
    Except ServiceError ServiceRetirement × ServiceSupervisor SERVICES ×
      TaskRuntime TASKS CAPS :=
  match runtime.scheduler.current with
  | none => (.error (.runtime .noCurrentTask), sup, runtime)
  | some current =>
    match sup.runningTaskSlot current with
    | .error error => (.error error, sup, runtime)
    | .ok slot =>
      let service := sup.id slot
      match runtime.terminateCurrent with
      | (.error error, runtime) => (.error (.runtime error), sup, runtime)
      | (.ok ⟨task, next⟩, runtime) =>
        if task ≠ current then (.error .taskMismatch, sup, runtime)
        else
          let (result, sup) := sup.retire slot .exited now
          (result.map fun _ => ⟨service, task, next⟩, sup, runtime)

/-- `ServiceSupervisor::fault_current_at` (lines 214–238). -/
def faultCurrentAt (sup : ServiceSupervisor SERVICES) (runtime : TaskRuntime TASKS CAPS)
    (disposition : TrapDisposition) (now : UInt64) :
    Except ServiceError ServiceFault × ServiceSupervisor SERVICES × TaskRuntime TASKS CAPS :=
  match runtime.scheduler.current with
  | none => (.error (.runtime .noCurrentTask), sup, runtime)
  | some current =>
    match sup.runningTaskSlot current with
    | .error error => (.error error, sup, runtime)
    | .ok slot =>
      let service := sup.id slot
      match runtime.terminateCurrentFault disposition with
      | (.error error, runtime) => (.error (.runtime error), sup, runtime)
      | (.ok retirement, runtime) =>
        if retirement.task ≠ current then (.error .taskMismatch, sup, runtime)
        else
          let (result, sup) := sup.retire slot .faulted now
          (result.map fun _ => ⟨service, retirement⟩, sup, runtime)

/-- The checks of `restart_at` before it creates the task (lines 271–296): the slot and
    its next generation. -/
def admitRestart (sup : ServiceSupervisor SERVICES) (service : ServiceId) {MANAGEMENT : ℕ}
    (management : CapabilitySpace MANAGEMENT) (control : Capability) (now : UInt64) :
    Except ServiceError (Fin SERVICES × UInt32) := do
  let slot ← sup.slot service
  let entry := sup.slots slot
  refuseIf (entry.state = .running ∨ entry.task.isSome = true) .stillRunning
  let authorized ← (management.authorize control Rights.control).mapError .unauthorized
  refuseIf (authorized ≠ entry.object) (.unauthorized .permissionDenied)
  refuseIf (entry.restartPolicy.maximumRestarts ≤ entry.completedRestarts) .restartLimit
  refuseIf (now < entry.nextRestartTick) (.restartBackoff entry.nextRestartTick)
  let generation ← okOr ((checkedAdd32 entry.generation 1).filter (· != 0)) .generationExhausted
  pure (slot, generation)

/-- `ServiceSupervisor::restart_at` (lines 261–308). -/
def restartAt (sup : ServiceSupervisor SERVICES) (service : ServiceId) {MANAGEMENT : ℕ}
    (management : CapabilitySpace MANAGEMENT) (control : Capability)
    (runtime : TaskRuntime TASKS CAPS) (priority : Priority) (freshContext : UserContext)
    (now : UInt64) :
    Except ServiceError ServiceId × ServiceSupervisor SERVICES × TaskRuntime TASKS CAPS :=
  match sup.admitRestart service management control now with
  | .error error => (.error error, sup, runtime)
  | .ok (slot, generation) =>
    match runtime.create priority freshContext with
    | (.error error, runtime) => (.error (.runtime error), sup, runtime)
    | (.ok task, runtime) =>
      (.ok ⟨UInt32.ofNat slot, generation⟩,
        sup.setSlot slot ((sup.slots slot).restart generation task), runtime)

/-! ## What each operation can do -/

theorem slot_eq_ok {sup : ServiceSupervisor SERVICES} {service : ServiceId} {i : Fin SERVICES} :
    sup.slot service = .ok i ↔ i.val = service.slot.toNat ∧ (sup.slots i).occupied = true ∧
      (sup.slots i).generation = service.generation := by
  simp [slot, okOr_eq_ok, Option.filter_eq_some_iff, slotAt_eq_some]

theorem slot_eq_error {sup : ServiceSupervisor SERVICES} {service : ServiceId}
    (h : ∀ i, sup.slot service ≠ .ok i) : sup.slot service = .error .invalidService := by
  unfold slot okOr at h ⊢
  split
  · rfl
  · rename_i i hi
    rw [hi] at h
    exact absurd rfl (h i)

/-- A slot that is found running the task is occupied and running. -/
theorem runningTaskSlot_eq_ok {sup : ServiceSupervisor SERVICES} {task : TaskId}
    {i : Fin SERVICES} (h : sup.runningTaskSlot task = .ok i) :
    (sup.slots i).occupied = true ∧ (sup.slots i).state = .running := by
  rw [runningTaskSlot, okOr_eq_ok] at h
  have hfound := firstSlot_some h
  simp only [Bool.and_eq_true, beq_iff_eq] at hfound
  exact hfound.1

/-- The checks a restart has passed. -/
theorem admitRestart_eq_ok {sup : ServiceSupervisor SERVICES} {service : ServiceId}
    {MANAGEMENT : ℕ} {management : CapabilitySpace MANAGEMENT} {control : Capability}
    {now : UInt64} {i : Fin SERVICES} {generation : UInt32}
    (h : sup.admitRestart service management control now = .ok (i, generation)) :
    sup.slot service = .ok i ∧ (sup.slots i).task = none ∧ (sup.slots i).state ≠ .running ∧
      (sup.slots i).completedRestarts < (sup.slots i).restartPolicy.maximumRestarts ∧
      (sup.slots i).nextRestartTick ≤ now ∧
      generation.toNat = (sup.slots i).generation.toNat + 1 := by
  unfold admitRestart at h
  simp only [bind_eq_ok, okOr_eq_ok, refuseIf_eq_ok, Option.filter_eq_some_iff, not_or] at h
  obtain ⟨j, hslot, _, ⟨hstate, htask⟩, _, -, _, -, _, hlimit, _, htick, g, ⟨hg, -⟩, hpure⟩ := h
  obtain ⟨rfl, rfl⟩ := Prod.mk.inj (Except.ok.inj hpure)
  refine ⟨hslot, by simpa using htask, hstate, UInt32.not_le.mp hlimit, UInt64.not_lt.mp htick, ?_⟩
  rw [checkedAdd32_eq_some, UInt32.toNat_one] at hg
  exact hg

end ServiceSupervisor

/-- A failed creation leaves the runtime as it was. -/
theorem TaskRuntime.create_error {TASKS CAPS : ℕ} {runtime : TaskRuntime TASKS CAPS}
    {priority : Priority} {context : UserContext} {error : TaskRuntimeError}
    (h : (runtime.create priority context).1 = .error error) :
    (runtime.create priority context).2 = runtime := by
  unfold create at h ⊢
  cases hfree : runtime.freeSlot with
  | none => rfl
  | some slot =>
    rw [hfree] at h
    rcases runtime.scheduler.scheduler.create_cases priority with hc | ⟨i, -, -, hc⟩
    · simp [KernelScheduler.create, hc, Except.mapError]
    · simp [KernelScheduler.create, hc, Except.mapError] at h

/-! ## Runs -/

/-- A supervisor and the task runtime its services run on. -/
structure ServiceSystem (SERVICES TASKS CAPS : ℕ) where
  supervisor : ServiceSupervisor SERVICES
  runtime : TaskRuntime TASKS CAPS

/-- The operations. `runtime` stands for what other code does to the runtime between two
    calls of the supervisor. -/
inductive ServiceOp (TASKS CAPS : ℕ)
  | register (object : ObjectId) (task : TaskId) (policy : RestartPolicy)
  | exit (now : UInt64)
  | fault (disposition : TrapDisposition) (now : UInt64)
  | restart (service : ServiceId) (MANAGEMENT : ℕ) (management : CapabilitySpace MANAGEMENT)
      (control : Capability) (priority : Priority) (context : UserContext) (now : UInt64)
  | runtime (change : TaskRuntime TASKS CAPS → TaskRuntime TASKS CAPS)

/-- The tick an operation is given. -/
def ServiceOp.time {TASKS CAPS : ℕ} : ServiceOp TASKS CAPS → Option UInt64
  | .register .. => none
  | .exit now => some now
  | .fault _ now => some now
  | .restart _ _ _ _ _ _ now => some now
  | .runtime _ => none

namespace ServiceSystem

variable {SERVICES TASKS CAPS : ℕ}

/-- A new supervisor on any runtime. -/
def init (runtime : TaskRuntime TASKS CAPS) : ServiceSystem SERVICES TASKS CAPS :=
  ⟨.new SERVICES, runtime⟩

/-- One operation, whatever its result. -/
def step (s : ServiceSystem SERVICES TASKS CAPS) :
    ServiceOp TASKS CAPS → ServiceSystem SERVICES TASKS CAPS
  | .register object task policy =>
    { s with supervisor := (s.supervisor.registerWithPolicy object task policy).2 }
  | .exit now =>
    let (_, supervisor, runtime) := s.supervisor.exitCurrentAt s.runtime now
    ⟨supervisor, runtime⟩
  | .fault disposition now =>
    let (_, supervisor, runtime) := s.supervisor.faultCurrentAt s.runtime disposition now
    ⟨supervisor, runtime⟩
  | .restart service _ management control priority context now =>
    let (_, supervisor, runtime) :=
      s.supervisor.restartAt service management control s.runtime priority context now
    ⟨supervisor, runtime⟩
  | .runtime change => { s with runtime := change s.runtime }

/-- The slot of service `i`. -/
def entry (s : ServiceSystem SERVICES TASKS CAPS) (i : Fin SERVICES) : ServiceSlot :=
  s.supervisor.slots i

/-- The operation is a restart of service `i`, and it succeeds. -/
def restarts (i : Fin SERVICES) (s : ServiceSystem SERVICES TASKS CAPS) :
    ServiceOp TASKS CAPS → Bool
  | .restart service _ management control priority context now =>
    slotAt service.slot == some i &&
      (s.supervisor.restartAt service management control s.runtime priority context now).1.isOk
  | _ => false

/-- The operation is an exit or a fault, and it takes the task from service `i`. -/
def retires (i : Fin SERVICES) (s : ServiceSystem SERVICES TASKS CAPS) (op : ServiceOp TASKS CAPS) :
    Bool :=
  match op with
  | .exit _ | .fault _ _ => (s.entry i).task.isSome && ((s.step op).entry i).task.isNone
  | _ => false

/-! ### One step, seen from one service -/

/-- What an operation at `time` does to the slot of a service; the flag says whether it is
    a restart. -/
inductive Change (e : ServiceSlot) : Option UInt64 → Bool → ServiceSlot → Prop
  | stay (time : Option UInt64) : Change e time false e
  | register (object : ObjectId) (task : TaskId) (policy : RestartPolicy)
      (hfree : e.occupied = false) : Change e none false (e.register object task policy)
  | retire (now : UInt64) (state : ServiceState) (hoccupied : e.occupied = true)
      (hrunning : e.state = .running) (hstate : state ≠ .running) :
      Change e (some now) false ((e.stop state).armRestart now).2
  | restart (now : UInt64) (generation : UInt32) (task : TaskId) (hoccupied : e.occupied = true)
      (htask : e.task = none) (hstopped : e.state ≠ .running)
      (hlimit : e.completedRestarts < e.restartPolicy.maximumRestarts)
      (htick : e.nextRestartTick ≤ now) (hgeneration : generation.toNat = e.generation.toNat + 1) :
      Change e (some now) true (e.restart generation task)

/-- A write to one slot, seen from slot `j`. -/
theorem Change.of_setSlot {sup : ServiceSupervisor SERVICES} {i : Fin SERVICES}
    {e : ServiceSlot} {time : Option UInt64} (h : Change (sup.slots i) time false e)
    (j : Fin SERVICES) : Change (sup.slots j) time false ((sup.setSlot i e).slots j) := by
  by_cases hj : j = i
  · subst hj
    rw [ServiceSupervisor.setSlot_self]
    exact h
  · rw [ServiceSupervisor.setSlot_of_ne _ _ hj]
    exact .stay time

theorem exit_change (sup : ServiceSupervisor SERVICES) (runtime : TaskRuntime TASKS CAPS)
    (now : UInt64) (j : Fin SERVICES) :
    Change (sup.slots j) (some now) false ((sup.exitCurrentAt runtime now).2.1.slots j) := by
  unfold ServiceSupervisor.exitCurrentAt
  split
  · exact .stay _
  · split
    · exact .stay _
    · rename_i slot hslot
      obtain ⟨hoccupied, hrunning⟩ := ServiceSupervisor.runningTaskSlot_eq_ok hslot
      split
      · exact .stay _
      · split_ifs
        · exact .stay _
        · exact Change.of_setSlot (.retire now .exited hoccupied hrunning (by decide)) j

theorem fault_change (sup : ServiceSupervisor SERVICES) (runtime : TaskRuntime TASKS CAPS)
    (disposition : TrapDisposition) (now : UInt64) (j : Fin SERVICES) :
    Change (sup.slots j) (some now) false
      ((sup.faultCurrentAt runtime disposition now).2.1.slots j) := by
  unfold ServiceSupervisor.faultCurrentAt
  split
  · exact .stay _
  · split
    · exact .stay _
    · rename_i slot hslot
      obtain ⟨hoccupied, hrunning⟩ := ServiceSupervisor.runningTaskSlot_eq_ok hslot
      split
      · exact .stay _
      · split_ifs
        · exact .stay _
        · exact Change.of_setSlot (.retire now .faulted hoccupied hrunning (by decide)) j

theorem register_change (sup : ServiceSupervisor SERVICES) (object : ObjectId) (task : TaskId)
    (policy : RestartPolicy) (j : Fin SERVICES) :
    Change (sup.slots j) none false
      ((sup.registerWithPolicy object task policy).2.slots j) := by
  unfold ServiceSupervisor.registerWithPolicy
  split_ifs
  · exact .stay _
  · split
    · exact .stay _
    · rename_i slot hslot
      have hfree := firstSlot_some hslot
      rw [Bool.not_eq_true'] at hfree
      exact Change.of_setSlot (.register object task policy hfree) j

/-- A restart succeeds on one service, or it changes nothing. -/
theorem restartAt_cases (sup : ServiceSupervisor SERVICES) (service : ServiceId) {MANAGEMENT : ℕ}
    (management : CapabilitySpace MANAGEMENT) (control : Capability)
    (runtime : TaskRuntime TASKS CAPS) (priority : Priority) (context : UserContext)
    (now : UInt64) :
    (∃ error, sup.restartAt service management control runtime priority context now =
      (.error error, sup, runtime)) ∨
    ∃ i generation task, sup.admitRestart service management control now = .ok (i, generation) ∧
      sup.restartAt service management control runtime priority context now =
        (.ok ⟨UInt32.ofNat i, generation⟩,
          sup.setSlot i ((sup.slots i).restart generation task),
          (runtime.create priority context).2) := by
  unfold ServiceSupervisor.restartAt
  cases hadmit : sup.admitRestart service management control now with
  | error error => exact .inl ⟨error, rfl⟩
  | ok admitted =>
    obtain ⟨i, generation⟩ := admitted
    cases hcreate : runtime.create priority context with
    | mk result runtime' =>
      cases result with
      | error error =>
        left
        have hsame := TaskRuntime.create_error (congrArg Prod.fst hcreate)
        rw [hcreate] at hsame
        exact ⟨.runtime error, by rw [← hsame]⟩
      | ok task => exact .inr ⟨i, generation, task, rfl, rfl⟩

/-- **What a step does to a service.** -/
theorem step_change (s : ServiceSystem SERVICES TASKS CAPS) (op : ServiceOp TASKS CAPS)
    (i : Fin SERVICES) :
    Change (s.entry i) op.time (restarts i s op) ((s.step op).entry i) := by
  cases op with
  | register object task policy => exact register_change s.supervisor object task policy i
  | exit now => exact exit_change s.supervisor s.runtime now i
  | fault disposition now => exact fault_change s.supervisor s.runtime disposition now i
  | runtime change => exact .stay _
  | restart service MANAGEMENT management control priority context now =>
    simp only [entry, step, restarts, ServiceOp.time]
    rcases restartAt_cases s.supervisor service management control s.runtime priority context now
      with ⟨error, h⟩ | ⟨slot, generation, task, hadmit, h⟩
    · rw [h]
      simp only [Except.isOk, Except.toBool, Bool.and_false]
      exact .stay _
    · obtain ⟨hslot, htask, hstopped, hlimit, htick, hgeneration⟩ :=
        ServiceSupervisor.admitRestart_eq_ok hadmit
      obtain ⟨hval, hoccupied, -⟩ := ServiceSupervisor.slot_eq_ok.mp hslot
      rw [h, slotAt_eq_some.mpr hval]
      simp only [Except.isOk, Except.toBool, Bool.and_true]
      by_cases hi : i = slot
      · subst hi
        rw [ServiceSupervisor.setSlot_self, beq_self_eq_true]
        exact .restart now generation task hoccupied htask hstopped hlimit htick hgeneration
      · have hne : (some slot == some i) = false := by
          rw [beq_eq_false_iff_ne]
          exact fun heq => hi (Option.some_inj.mp heq).symm
        rw [ServiceSupervisor.setSlot_of_ne _ _ hi, hne]
        exact .stay _

/-! ### Budget, identity and state -/

/-- What holds of every slot after `n` restarts of its service. -/
structure Slot (n : ℕ) (e : ServiceSlot) : Prop where
  completed : e.completedRestarts.toNat = n
  completed_le : e.completedRestarts ≤ e.restartPolicy.maximumRestarts
  running_iff : e.state = .running ↔ e.task.isSome = true
  fresh : e.occupied = false → n = 0

theorem slot_empty : Slot 0 .empty where
  completed := rfl
  completed_le := by decide
  running_iff := by decide
  fresh := fun _ => rfl

/-- Arming only writes the restart tick. -/
theorem armRestart_eq (e : ServiceSlot) (now : UInt64) :
    ∃ tick, (e.armRestart now).2 = { e with nextRestartTick := tick } := by
  unfold ServiceSlot.armRestart
  split_ifs
  · exact ⟨_, rfl⟩
  · split
    · exact ⟨e.nextRestartTick, rfl⟩
    · exact ⟨_, rfl⟩

theorem Change.slot {n : ℕ} {e e' : ServiceSlot} {time : Option UInt64} {restarted : Bool}
    (h : Change e time restarted e') (he : Slot n e) : Slot (n + restarted.toNat) e' := by
  cases h with
  | stay => exact he
  | register object task policy hfree =>
    have hn := he.fresh hfree
    exact ⟨by rw [hn]; rfl, UInt32.zero_le, by simp, fun _ => by rw [hn]; rfl⟩
  | retire now state hoccupied hrunning hstate =>
    obtain ⟨tick, htick⟩ := armRestart_eq (e.stop state) now
    rw [htick]
    refine ⟨he.completed, he.completed_le, by simp [hstate], fun hfree => ?_⟩
    rw [ServiceSlot.stop_occupied, hoccupied] at hfree
    cases hfree
  | restart now generation task hoccupied htask hstopped hlimit htick hgeneration =>
    have hlt := UInt32.lt_iff_toNat_lt.mp hlimit
    have hmax := e.restartPolicy.maximumRestarts.toNat_lt
    have hcompleted : (e.completedRestarts + 1).toNat = e.completedRestarts.toNat + 1 := by
      rw [UInt32.toNat_add, UInt32.toNat_one, Nat.mod_eq_of_lt (by omega)]
    refine ⟨?_, UInt32.le_iff_toNat_le.mpr ?_, by simp, fun hfree => ?_⟩
    · rw [ServiceSlot.restart_completedRestarts, hcompleted, he.completed]
      rfl
    · rw [ServiceSlot.restart_completedRestarts, ServiceSlot.restart_restartPolicy, hcompleted]
      omega
    · rw [ServiceSlot.restart_occupied, hoccupied] at hfree
      cases hfree

/-- Every slot of every run, with the number of restarts so far. -/
theorem run_slot (runtime : TaskRuntime TASKS CAPS) (ops : List (ServiceOp TASKS CAPS))
    (i : Fin SERVICES) :
    Slot (tally step (restarts i) (init runtime) ops) ((run step (init runtime) ops).entry i) := by
  have h := tally_induction (p := restarts i)
    (P := fun n (s : ServiceSystem SERVICES TASKS CAPS) => Slot n (s.entry i))
    (fun n s op hs => (step_change s op i).slot hs) (s := init runtime) slot_empty ops
  rwa [Nat.zero_add] at h

/-- An occupied slot keeps its policy and stays occupied, and its generation moves on with
    every restart. -/
theorem Change.keeps {e e' : ServiceSlot} {time : Option UInt64} {restarted : Bool}
    (h : Change e time restarted e') (he : e.occupied = true) :
    e'.occupied = true ∧ e'.restartPolicy = e.restartPolicy ∧
      e'.generation.toNat = e.generation.toNat + restarted.toNat := by
  cases h with
  | stay => exact ⟨he, rfl, rfl⟩
  | register object task policy hfree =>
    rw [he] at hfree
    cases hfree
  | retire now state hoccupied hrunning hstate =>
    obtain ⟨tick, htick⟩ := armRestart_eq (e.stop state) now
    rw [htick]
    exact ⟨he, rfl, rfl⟩
  | restart now generation task hoccupied htask hstopped hlimit htick hgeneration =>
    exact ⟨hoccupied, rfl, hgeneration⟩

theorem run_keeps {s : ServiceSystem SERVICES TASKS CAPS} {i : Fin SERVICES}
    (hs : (s.entry i).occupied = true) (ops : List (ServiceOp TASKS CAPS)) :
    ((run step s ops).entry i).occupied = true ∧
      ((run step s ops).entry i).restartPolicy = (s.entry i).restartPolicy ∧
      ((run step s ops).entry i).generation.toNat =
        (s.entry i).generation.toNat + tally step (restarts i) s ops := by
  have h := tally_induction (p := restarts i)
    (P := fun n (s' : ServiceSystem SERVICES TASKS CAPS) => (s'.entry i).occupied = true ∧
      (s'.entry i).restartPolicy = (s.entry i).restartPolicy ∧
      (s'.entry i).generation.toNat = (s.entry i).generation.toNat + n)
    (fun n s' op hs' => by
      obtain ⟨hoccupied, hpolicy, hgeneration⟩ := (step_change s' op i).keeps hs'.1
      exact ⟨hoccupied, hpolicy.trans hs'.2.1, by rw [hgeneration, hs'.2.2, Nat.add_assoc]⟩)
    (n := 0) (s := s) ⟨hs, rfl, rfl⟩ ops
  rwa [Nat.zero_add] at h

/-- Every operation that takes a handle refuses this one. -/
def Refuses (TASKS CAPS : ℕ) (sup : ServiceSupervisor SERVICES) (service : ServiceId) : Prop :=
  sup.state service = .error .invalidService ∧ sup.task service = .error .invalidService ∧
  ∀ (MANAGEMENT : ℕ) (management : CapabilitySpace MANAGEMENT) (control : Capability)
    (runtime : TaskRuntime TASKS CAPS) (priority : Priority) (context : UserContext)
    (now : UInt64),
    (sup.restartAt service management control runtime priority context now).1 =
      .error .invalidService

theorem refuses_of_slot {sup : ServiceSupervisor SERVICES} {service : ServiceId}
    (h : sup.slot service = .error .invalidService) : Refuses TASKS CAPS sup service := by
  refine ⟨?_, ?_, ?_⟩
  · rw [ServiceSupervisor.state, h]
    rfl
  · rw [ServiceSupervisor.task, h]
    rfl
  · intro MANAGEMENT management control runtime priority context now
    rw [ServiceSupervisor.restartAt, ServiceSupervisor.admitRestart, h]
    rfl

/-- A handle is refused once its service has been restarted. -/
theorem refuses_of_restarted {s : ServiceSystem SERVICES TASKS CAPS} {service : ServiceId}
    {i : Fin SERVICES} (hservice : s.supervisor.slot service = .ok i)
    {ops : List (ServiceOp TASKS CAPS)} (hrestarted : 0 < tally step (restarts i) s ops) :
    Refuses TASKS CAPS (run step s ops).supervisor service := by
  obtain ⟨hval, hoccupied, hgeneration⟩ := ServiceSupervisor.slot_eq_ok.mp hservice
  obtain ⟨-, -, hmoved⟩ := run_keeps hoccupied ops
  refine refuses_of_slot (ServiceSupervisor.slot_eq_error fun j hj => ?_)
  obtain ⟨hval', -, hgeneration'⟩ := ServiceSupervisor.slot_eq_ok.mp hj
  obtain rfl : j = i := Fin.ext (hval'.trans hval.symm)
  rw [entry, entry, hgeneration, hgeneration'] at hmoved
  omega

/-- **Main theorem.** In every run on any runtime, a service restarts at most as often as
    its policy allows, its policy never changes, it is running exactly if it holds a task,
    its handles die with its next restart, and a restart that fails changes neither the
    supervisor nor the runtime. -/
theorem supervisor_safety (runtime : TaskRuntime TASKS CAPS) (ops : List (ServiceOp TASKS CAPS)) :
    let s : ServiceSystem SERVICES TASKS CAPS := run step (init runtime) ops
    (∀ i, tally step (restarts i) (init runtime) ops ≤
      (s.entry i).restartPolicy.maximumRestarts.toNat) ∧
    (∀ i ops', (s.entry i).occupied = true →
      ((run step s ops').entry i).restartPolicy = (s.entry i).restartPolicy) ∧
    (∀ i, (s.entry i).state = .running ↔ (s.entry i).task.isSome = true) ∧
    (∀ service i ops', s.supervisor.slot service = .ok i →
      0 < tally step (restarts i) s ops' →
      Refuses TASKS CAPS (run step s ops').supervisor service) ∧
    ∀ (service : ServiceId) (MANAGEMENT : ℕ) (management : CapabilitySpace MANAGEMENT)
      (control : Capability) (priority : Priority) (context : UserContext) (now : UInt64)
      (error : ServiceError),
      (s.supervisor.restartAt service management control s.runtime priority context now).1 =
        .error error →
      (s.supervisor.restartAt service management control s.runtime priority context now).2 =
        (s.supervisor, s.runtime) := by
  intro s
  refine ⟨?_, ?_, ?_, ?_, ?_⟩
  · intro i
    have hslot := run_slot runtime ops i
    rw [← hslot.completed]
    exact UInt32.le_iff_toNat_le.mp hslot.completed_le
  · intro i ops' hoccupied
    exact (run_keeps hoccupied ops').2.1
  · intro i
    exact (run_slot runtime ops i).running_iff
  · intro service i ops' hservice hrestarted
    exact refuses_of_restarted hservice hrestarted
  · intro service MANAGEMENT management control priority context now error herror
    rcases restartAt_cases s.supervisor service management control s.runtime priority context now
      with ⟨error', h⟩ | ⟨i, generation, task, -, h⟩
    · rw [h]
    · rw [h] at herror
      cases herror

/-! ### Backoff -/

/-- The restart tick of a slot that stops at `now` fits in 64 bits, or the slot has no
    restart left. -/
def Armable (e : ServiceSlot) (now : UInt64) : Prop :=
  e.restartPolicy.maximumRestarts ≤ e.completedRestarts ∨
    now.toNat + (e.restartPolicy.delay e.completedRestarts).toNat < 2 ^ 64

instance (e : ServiceSlot) (now : UInt64) : Decidable (Armable e now) :=
  inferInstanceAs (Decidable (_ ∨ _))

/-- The backoff law for the retirement of service `i` at tick `t` in state `s`: a later
    restart of the service waits for the delay. It is the restart that ends this
    retirement, or any restart in a run whose ticks do not go back. -/
def BackoffLaw (i : Fin SERVICES) (s : ServiceSystem SERVICES TASKS CAPS)
    (retirement : ServiceOp TASKS CAPS) (t : UInt64) : Prop :=
  ∀ (ops : List (ServiceOp TASKS CAPS)) (restart : ServiceOp TASKS CAPS) (now : UInt64),
    restarts i (run step (s.step retirement) ops) restart = true → restart.time = some now →
    (tally step (restarts i) (s.step retirement) ops = 0 ∨
      ((retirement :: ops ++ [restart]).filterMap ServiceOp.time).Pairwise (· ≤ ·)) →
    t.toNat + ((s.entry i).restartPolicy.delay (s.entry i).completedRestarts).toNat ≤ now.toNat

/-- No restart of the slot before `bound`: it has none left, or its tick is late enough. -/
def Held (bound : ℕ) (e : ServiceSlot) : Prop :=
  e.restartPolicy.maximumRestarts ≤ e.completedRestarts ∨ bound ≤ e.nextRestartTick.toNat

/-- Arming gives the tick the policy asks for. -/
theorem armRestart_held {e : ServiceSlot} {now : UInt64} (h : Armable e now) :
    Held (now.toNat + (e.restartPolicy.delay e.completedRestarts).toNat) (e.armRestart now).2 := by
  unfold ServiceSlot.armRestart
  split_ifs with hlimit
  · exact .inl hlimit
  · split
    · rename_i hnone
      rw [checkedAdd64_eq_none] at hnone
      rcases h with h | h
      · exact absurd h hlimit
      · omega
    · rename_i tick hsome
      rw [checkedAdd64_eq_some] at hsome
      exact .inr hsome.ge

/-- Arming at a later tick keeps the bound, also when it fails. -/
theorem armRestart_keeps_held {bound : ℕ} {e : ServiceSlot} {now : UInt64} (h : Held bound e)
    (hnow : bound ≤ now.toNat) : Held bound (e.armRestart now).2 := by
  unfold ServiceSlot.armRestart
  split_ifs with hlimit
  · exact .inl hlimit
  · split
    · exact h
    · rename_i tick hsome
      rw [checkedAdd64_eq_some] at hsome
      exact .inr (by show bound ≤ tick.toNat; omega)

/-- A retirement of the service, seen from its slot. -/
theorem retires_change {i : Fin SERVICES} {s : ServiceSystem SERVICES TASKS CAPS}
    {op : ServiceOp TASKS CAPS} (h : retires i s op = true) :
    ∃ now state, op.time = some now ∧ (s.entry i).occupied = true ∧ state ≠ .running ∧
      (s.step op).entry i = (((s.entry i).stop state).armRestart now).2 := by
  have htask : (s.entry i).task.isSome = true ∧ ((s.step op).entry i).task.isNone = true := by
    unfold retires at h
    split at h
    · exact Bool.and_eq_true_iff.mp h
    · exact Bool.and_eq_true_iff.mp h
    · cases h
  obtain ⟨hsome, hnone⟩ := htask
  have hchange := step_change s op i
  generalize hrestarts : restarts i s op = restarted at hchange
  generalize htime : op.time = time at hchange
  generalize (s.step op).entry i = e' at hchange hnone
  cases hchange with
  | stay =>
    rw [Option.isNone_iff_eq_none.mp hnone] at hsome
    cases hsome
  | register => cases hnone
  | restart => cases hnone
  | retire now state hoccupied hrunning hstate =>
    exact ⟨now, state, rfl, hoccupied, hstate, rfl⟩

/-- A stopped service stays held until it restarts. -/
theorem Change.stopped {bound : ℕ} {e e' : ServiceSlot} {time : Option UInt64}
    (h : Change e time false e') (he : e.occupied = true ∧ e.state ≠ .running ∧ Held bound e) :
    e'.occupied = true ∧ e'.state ≠ .running ∧ Held bound e' := by
  obtain ⟨hoccupied, hstopped, hheld⟩ := he
  cases h with
  | stay => exact ⟨hoccupied, hstopped, hheld⟩
  | register object task policy hfree =>
    rw [hoccupied] at hfree
    cases hfree
  | retire now state _ hrunning hstate => exact absurd hrunning hstopped

/-- A held service stays held as long as the ticks do not go back: it only runs from its
    restart tick on, so it also stops after the bound. -/
theorem Change.later {bound : ℕ} {e e' : ServiceSlot} {time : Option UInt64} {restarted : Bool}
    (h : Change e time restarted e') {clock : ℕ} (hclock : ∀ now ∈ time, clock ≤ now.toNat)
    (he : e.occupied = true ∧ Held bound e ∧ (e.state = .running → bound ≤ clock)) :
    e'.occupied = true ∧ Held bound e' ∧
      (e'.state = .running → bound ≤ (time.elim clock UInt64.toNat)) := by
  obtain ⟨hoccupied, hheld, hbound⟩ := he
  cases h with
  | stay =>
    refine ⟨hoccupied, hheld, fun hrunning => ?_⟩
    cases time with
    | none => exact hbound hrunning
    | some now => exact (hbound hrunning).trans (hclock now rfl)
  | register object task policy hfree =>
    rw [hoccupied] at hfree
    cases hfree
  | retire now state _ hrunning hstate =>
    have hlate : bound ≤ now.toNat := (hbound hrunning).trans (hclock now rfl)
    have hheld' := armRestart_keeps_held (e := e.stop state) hheld hlate
    obtain ⟨tick, htick⟩ := armRestart_eq (e.stop state) now
    rw [htick] at hheld' ⊢
    exact ⟨hoccupied, hheld', fun hrunning' => absurd hrunning' hstate⟩
  | restart now generation task _ htask hstopped hlimit htick hgeneration =>
    rcases hheld with hfull | hheld
    · exact absurd hlimit (UInt32.not_lt.mpr hfull)
    · refine ⟨hoccupied, .inr hheld, fun _ => ?_⟩
      exact hheld.trans (UInt64.le_iff_toNat_le.mp htick)

theorem run_stopped {bound : ℕ} {i : Fin SERVICES} {s : ServiceSystem SERVICES TASKS CAPS}
    {ops : List (ServiceOp TASKS CAPS)}
    (hs : (s.entry i).occupied = true ∧ (s.entry i).state ≠ .running ∧ Held bound (s.entry i))
    (hops : tally step (restarts i) s ops = 0) : Held bound ((run step s ops).entry i) := by
  refine (run_induction (P := fun s => (s.entry i).occupied = true ∧
    (s.entry i).state ≠ .running ∧ Held bound (s.entry i)) ?_ hs (tally_eq_zero.mp hops)).2.2
  intro s' op hs' hop
  have hchange := step_change s' op i
  rw [hop] at hchange
  exact hchange.stopped hs'

theorem run_later {bound : ℕ} (clock : ℕ) {i : Fin SERVICES} {s : ServiceSystem SERVICES TASKS CAPS}
    {ops : List (ServiceOp TASKS CAPS)}
    (hs : (s.entry i).occupied = true ∧ Held bound (s.entry i) ∧
      ((s.entry i).state = .running → bound ≤ clock))
    (hclock : ∀ now ∈ ops.filterMap ServiceOp.time, clock ≤ now.toNat)
    (hops : (ops.filterMap ServiceOp.time).Pairwise (· ≤ ·)) :
    Held bound ((run step s ops).entry i) := by
  induction ops generalizing s clock with
  | nil => exact hs.2.1
  | cons op ops ih =>
    have hchange := step_change s op i
    cases htime : op.time with
    | none =>
      rw [htime] at hchange
      rw [List.filterMap_cons_none htime] at hclock hops
      exact ih _ (hchange.later (by simp) hs) hclock hops
    | some now =>
      rw [htime] at hchange
      rw [List.filterMap_cons_some htime] at hclock hops
      obtain ⟨hlater, hops⟩ := List.pairwise_cons.mp hops
      have hnow : clock ≤ now.toNat := hclock now List.mem_cons_self
      refine ih _ (hchange.later (by simpa using hnow) hs) ?_ hops
      · exact fun now' hnow' => UInt64.le_iff_toNat_le.mp (hlater now' hnow')

/-- A restart that succeeds has waited for the restart tick. -/
theorem restarts_time {bound : ℕ} {i : Fin SERVICES} {s : ServiceSystem SERVICES TASKS CAPS}
    {op : ServiceOp TASKS CAPS} {now : UInt64} (h : restarts i s op = true)
    (htime : op.time = some now) (hheld : Held bound (s.entry i)) : bound ≤ now.toNat := by
  have hchange := step_change s op i
  rw [h, htime] at hchange
  generalize (s.step op).entry i = e' at hchange
  cases hchange with
  | restart _ generation task _ htask hstopped hlimit htick hgeneration =>
    rcases hheld with hfull | hheld
    · exact absurd hlimit (UInt32.not_lt.mpr hfull)
    · exact hheld.trans (UInt64.le_iff_toNat_le.mp htick)

/-- **Main theorem.** In every run, the retirement of a service at a tick `t` keeps the
    backoff law if the restart tick of the policy fits in 64 bits or the service has no
    restart left. -/
theorem restart_backoff (runtime : TaskRuntime TASKS CAPS) (ops : List (ServiceOp TASKS CAPS))
    (i : Fin SERVICES) (retirement : ServiceOp TASKS CAPS) (t : UInt64)
    (hretires : retires i (run step (init runtime) ops) retirement = true)
    (htime : retirement.time = some t)
    (harmable : Armable ((run step (init runtime) ops).entry i) t) :
    BackoffLaw i (run step (init runtime) ops) retirement t := by
  intro later restart now hrestart hnow horder
  generalize run step (init runtime) ops = s at *
  obtain ⟨t', state, htime', hoccupied, hstate, hentry⟩ := retires_change hretires
  obtain rfl : t = t' := Option.some_inj.mp (htime.symm.trans htime')
  have hheld := armRestart_held (e := (s.entry i).stop state) harmable
  obtain ⟨tick, htick⟩ := armRestart_eq ((s.entry i).stop state) t
  rw [htick] at hentry hheld
  rw [← hentry] at hheld
  have hoccupied' : ((s.step retirement).entry i).occupied = true := by
    rw [hentry]
    exact hoccupied
  have hstopped : ((s.step retirement).entry i).state ≠ .running := by
    rw [hentry]
    exact hstate
  refine restarts_time hrestart hnow ?_
  rcases horder with hnone | hclock
  · exact run_stopped ⟨hoccupied', hstopped, hheld⟩ hnone
  · rw [List.cons_append, List.filterMap_cons_some htime, List.filterMap_append] at hclock
    obtain ⟨hlater, hclock⟩ := List.pairwise_cons.mp hclock
    refine run_later t.toNat ⟨hoccupied', hheld, fun h => absurd h hstopped⟩ ?_
      (List.pairwise_append.mp hclock).1
    intro tick' hmem
    exact UInt64.le_iff_toNat_le.mp (hlater tick' (List.mem_append_left _ hmem))

/-- A context for the runs below. -/
def sampleContext : UserContext := ⟨fun _ => 0, 0x400000, 0x70000000, 0x202, 0x200000⟩

/-- A runtime whose one task runs. -/
def sampleRuntime : TaskRuntime 1 0 :=
  let idle : TaskRuntime 1 0 := ⟨⟨.new 1, none, 0, 1, 1⟩, fun _ => none⟩
  (idle.create .normal sampleContext).2.start.2

/-- The task is registered as a service that may restart once, 10 ticks after it stops. -/
def sampleOps : List (ServiceOp 1 0) :=
  [.register ⟨7⟩ ⟨0, 1⟩ ⟨1, 10, 10, RestartPolicy.one_restarts_ne, by decide⟩]

/-- A restart of the service with control over its object. -/
def sampleRestart (now : UInt64) : ServiceOp 1 0 :=
  .restart ⟨0, 1⟩ 1 ((CapabilitySpace.new 1).insert ⟨7⟩ Rights.control).2 ⟨0, 1⟩ .normal
    sampleContext now

/-- The service exits at tick 100: it waits for tick 110. -/
theorem restart_backoff_sample :
    BackoffLaw (0 : Fin 1) (run step (init sampleRuntime) sampleOps) (.exit 100) 100 ∧
      restarts (0 : Fin 1) ((run step (init sampleRuntime) sampleOps).step (.exit 100))
        (sampleRestart 110) = true :=
  ⟨restart_backoff sampleRuntime sampleOps 0 (.exit 100) 100 (by decide +kernel) rfl
    (by decide +kernel), by decide +kernel⟩

/-- The service exits six ticks before the end of the clock. The exit is recorded, but
    `arm_restart` fails and leaves the restart tick at 0: the service restarts at once. -/
theorem exhausted_clock_skips_backoff :
    retires (0 : Fin 1) (run step (init sampleRuntime) sampleOps) (.exit 0xFFFFFFFFFFFFFFFA) =
        true ∧
      ¬ BackoffLaw (0 : Fin 1) (run step (init sampleRuntime) sampleOps)
        (.exit 0xFFFFFFFFFFFFFFFA) 0xFFFFFFFFFFFFFFFA := by
  refine ⟨by decide +kernel, fun h => ?_⟩
  have hlaw := h [] (sampleRestart 0xFFFFFFFFFFFFFFFA) 0xFFFFFFFFFFFFFFFA (by decide +kernel) rfl
    (.inl rfl)
  revert hlaw
  decide +kernel

end ServiceSystem

end Mrml.Kernel
