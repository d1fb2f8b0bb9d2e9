import Mrml.Kernel.KernelScheduler
import Mrml.Kernel.Ipc

/-!
# The task runtime

Model of `crates/mrml-kernel/src/task_runtime.rs`, lines 10–73 and 176–610: the
scheduler together with one protection domain per task (saved context,
capability space and bounded inbox). A function that takes `&mut self` returns
its result and the new runtime, also when it fails.
-/

namespace Mrml.Kernel

/-- `UserContext` (`arch/x86_64/context.rs`, lines 71–93): the fifteen general
    registers, then `rip`, `rsp`, `rflags` and the page table root. -/
structure UserContext where
  general : Fin 15 → UInt64
  rip : UInt64
  rsp : UInt64
  rflags : UInt64
  pageTable : UInt64
deriving DecidableEq

/-- `TrapDisposition` (`arch/x86_64/trap.rs`, lines 66–72). -/
inductive TrapDisposition
  | terminateUser (vector : UInt8) (address : Option UInt64)
  | haltKernel (vector : UInt8)
deriving DecidableEq

/-- `TaskRuntimeError` (lines 12–25). -/
inductive TaskRuntimeError
  | full
  | missingTask
  | noCurrentTask
  | addressSpaceMismatch
  | nonRecoverableFault
  | scheduler (error : KernelScheduleError)
  | integrityFailure
  | sameTaskIpc
  | ipc (error : IpcError)
  | inboxFull
  | inboxEmpty
deriving DecidableEq

/-- `FaultRetirement` (lines 27–34). -/
structure FaultRetirement where
  task : TaskId
  context : UserContext
  vector : UInt8
  address : Option UInt64
  next : ScheduleOutcome

/-- `TaskTermination` (lines 36–40). -/
structure TaskTermination where
  task : TaskId
  next : ScheduleOutcome

/-- The inbox fields of `TaskDomain` (lines 46–49); `TASK_INBOX_MESSAGES` (line
    10) is 2. The `count` filled cells start at the head and the tail is the
    cell after them. Only `create`, `deliver_ipc` and `receive_ipc` write these
    private fields. -/
structure Inbox where
  cells : Fin 2 → Option Message
  head : Fin 2
  tail : Fin 2
  count : ℕ
  count_le : count ≤ 2
  tail_eq : tail.val = (head.val + count) % 2
  filled : ∀ i, (cells i).isSome = true ↔ (i.val + 2 - head.val) % 2 < count

namespace Inbox

theorem zero_le_capacity : 0 ≤ 2 := by decide

/-- The empty inbox of a new domain (lines 211–214). -/
def empty : Inbox :=
  ⟨fun _ => none, ⟨0, Nat.zero_lt_two⟩, ⟨0, Nat.zero_lt_two⟩, 0, zero_le_capacity, by decide, by simp⟩

/-- The tail cell is free exactly if the inbox is not full. -/
theorem tail_isSome (inbox : Inbox) : (inbox.cells inbox.tail).isSome = true ↔ inbox.count = 2 := by
  have hle := inbox.count_le
  have htail := inbox.tail_eq
  have hhead := inbox.head.isLt
  rw [inbox.filled]
  omega

/-- The head cell is filled exactly if the inbox is not empty. -/
theorem head_isSome (inbox : Inbox) :
    (inbox.cells inbox.head).isSome = true ↔ inbox.count ≠ 0 := by
  rw [inbox.filled]
  omega

theorem val_add_one (i : Fin 2) : (i + 1).val = (i.val + 1) % 2 := Fin.val_add i 1

/-- Lines 519–532 of `deliver_ipc`: the message goes into the tail cell, which
    must be free. -/
def push (inbox : Inbox) (message : Message) : Option Inbox :=
  if h : (inbox.cells inbox.tail).isSome = true then none
  else some {
    cells := Function.update inbox.cells inbox.tail (some message)
    head := inbox.head
    tail := inbox.tail + 1
    count := inbox.count + 1
    count_le := by
      have hle := inbox.count_le
      rw [inbox.tail_isSome] at h
      omega
    tail_eq := by
      have htail := inbox.tail_eq
      rw [val_add_one, htail]
      omega
    filled := fun i => by
      have hle := inbox.count_le
      have htail := inbox.tail_eq
      have hhead := inbox.head.isLt
      have hi := i.isLt
      rw [inbox.tail_isSome] at h
      by_cases hit : i = inbox.tail
      · subst hit
        rw [Function.update_self]
        simp only [Option.isSome_some, true_iff]
        omega
      · rw [Function.update_of_ne hit, inbox.filled]
        have hne : i.val ≠ inbox.tail.val := fun h => hit (Fin.ext h)
        omega }

/-- Lines 546–556 of `receive_ipc`, for an inbox that is not empty: the message of
    the head cell and the rest. -/
def pop (inbox : Inbox) (hne : inbox.count ≠ 0) : Option (Message × Inbox) :=
  (inbox.cells inbox.head).map fun message => (message, {
    cells := Function.update inbox.cells inbox.head none
    head := inbox.head + 1
    tail := inbox.tail
    count := inbox.count - 1
    count_le := by
      have hle := inbox.count_le
      omega
    tail_eq := by
      have htail := inbox.tail_eq
      rw [htail, val_add_one]
      omega
    filled := fun i => by
      have hle := inbox.count_le
      have hhead := inbox.head.isLt
      have hi := i.isLt
      rw [val_add_one]
      by_cases hih : i = inbox.head
      · subst hih
        rw [Function.update_self]
        simp only [Option.isSome_none, Bool.false_eq_true, false_iff]
        omega
      · rw [Function.update_of_ne hih, inbox.filled]
        have hne : i.val ≠ inbox.head.val := fun h => hih (Fin.ext h)
        omega })

theorem push_of_not_full {inbox : Inbox} (h : inbox.count ≠ 2) (message : Message) :
    ∃ inbox', inbox.push message = some inbox' := by
  rw [push, dif_neg (fun hs => h (inbox.tail_isSome.mp hs))]
  exact ⟨_, rfl⟩

theorem pop_isSome {inbox : Inbox} (h : inbox.count ≠ 0) :
    ∃ message inbox', inbox.pop h = some (message, inbox') := by
  obtain ⟨message, hm⟩ := Option.isSome_iff_exists.mp (inbox.head_isSome.mpr h)
  exact ⟨message, _, by rw [pop, hm, Option.map_some]⟩

end Inbox
/-- `TaskDomain<CAPS>` (lines 42–50). -/
structure TaskDomain (CAPS : ℕ) where
  task : TaskId
  context : UserContext
  capabilities : CapabilitySpace CAPS
  inbox : Inbox

/-- `DetachedTaskDomain<CAPS>` (lines 52–55). -/
structure DetachedTaskDomain (CAPS : ℕ) where
  scheduling : DetachedTask
  domain : TaskDomain CAPS

/-- `TaskRuntime<TASKS, CAPS>` (lines 180–183). -/
structure TaskRuntime (TASKS CAPS : ℕ) where
  scheduler : KernelScheduler TASKS
  domains : Fin TASKS → Option (TaskDomain CAPS)

namespace TaskRuntime

variable {TASKS CAPS : ℕ}

/-- `TaskRuntime::new` (lines 186–193). -/
def new (TASKS CAPS : ℕ) (ticksPerSecond quantumTicks : UInt32) :
    Except TaskRuntimeError (TaskRuntime TASKS CAPS) :=
  match KernelScheduler.new TASKS ticksPerSecond quantumTicks with
  | .error error => .error (.scheduler error)
  | .ok scheduler => .ok ⟨scheduler, fun _ => none⟩

/-- `self.domains[i] = domain`. -/
def setDomain (rt : TaskRuntime TASKS CAPS) (i : Fin TASKS) (domain : Option (TaskDomain CAPS)) :
    TaskRuntime TASKS CAPS :=
  { rt with domains := Function.update rt.domains i domain }

/-- The first slot with no domain: `domains.iter().position(Option::is_none)`. -/
def freeSlot (rt : TaskRuntime TASKS CAPS) : Option (Fin TASKS) :=
  firstSlot fun i => (rt.domains i).isNone

/-- The first slot whose domain carries `task`:
    `position(|domain| domain.as_ref().is_some_and(|domain| domain.task == task))`. -/
def domainSlot (rt : TaskRuntime TASKS CAPS) (task : TaskId) : Option (Fin TASKS) :=
  firstSlot fun i => (rt.domains i).any fun domain => domain.task == task

/-- `TaskRuntime::domain` (lines 584–589), with the slot it was found in. -/
def domain (rt : TaskRuntime TASKS CAPS) (task : TaskId) :
    Option (Fin TASKS × TaskDomain CAPS) :=
  (rt.domainSlot task).bind fun i => (rt.domains i).map fun domain => (i, domain)

/-- The domain `create` builds (lines 208–216). -/
def freshDomain (task : TaskId) (context : UserContext) : TaskDomain CAPS where
  task := task
  context := context
  capabilities := CapabilitySpace.new CAPS
  inbox := Inbox.empty

/-- `TaskRuntime::create` (lines 195–218). -/
def create (rt : TaskRuntime TASKS CAPS) (priority : Priority) (context : UserContext) :
    Except TaskRuntimeError TaskId × TaskRuntime TASKS CAPS :=
  match rt.freeSlot with
  | none => (.error .full, rt)
  | some slot =>
    match rt.scheduler.create priority with
    | (.error error, scheduler) => (.error (.scheduler error), { rt with scheduler })
    | (.ok task, scheduler) =>
      (.ok task, { rt with scheduler }.setDomain slot (some (freshDomain task context)))

/-- `TaskRuntime::start` (lines 220–222). -/
def start (rt : TaskRuntime TASKS CAPS) : ScheduleOutcome × TaskRuntime TASKS CAPS :=
  let (outcome, scheduler) := rt.scheduler.start
  (outcome, { rt with scheduler })

/-- `TaskRuntime::load` (lines 228–230). -/
def load (rt : TaskRuntime TASKS CAPS) : SchedulerLoad := rt.scheduler.load

/-- A call of a scheduler operation with `map_err(TaskRuntimeError::Scheduler)`. -/
def viaScheduler {α : Type} (rt : TaskRuntime TASKS CAPS)
    (out : Except KernelScheduleError α × KernelScheduler TASKS) :
    Except TaskRuntimeError α × TaskRuntime TASKS CAPS :=
  (out.1.mapError .scheduler, { rt with scheduler := out.2 })

/-- `TaskRuntime::timer_tick` (lines 232–236). -/
def timerTick (rt : TaskRuntime TASKS CAPS) :
    Except TaskRuntimeError ScheduleOutcome × TaskRuntime TASKS CAPS :=
  rt.viaScheduler rt.scheduler.timerTick

/-- `TaskRuntime::context_mut` (lines 270–277), followed by a write through the
    reference it returns. -/
def contextMut (rt : TaskRuntime TASKS CAPS) (task : TaskId) (write : UserContext → UserContext) :
    Except TaskRuntimeError Unit × TaskRuntime TASKS CAPS :=
  match rt.domain task with
  | none => (.error .missingTask, rt)
  | some (i, domain) =>
    (.ok (), rt.setDomain i (some { domain with context := write domain.context }))

/-- `TaskRuntime::capabilities_mut` (lines 360–370), followed by any change
    through the reference it returns. -/
def capabilitiesMut (rt : TaskRuntime TASKS CAPS) (task : TaskId)
    (change : CapabilitySpace CAPS → CapabilitySpace CAPS) :
    Except TaskRuntimeError Unit × TaskRuntime TASKS CAPS :=
  match rt.domain task with
  | none => (.error .missingTask, rt)
  | some (i, domain) =>
    (.ok (), rt.setDomain i (some { domain with capabilities := change domain.capabilities }))

/-- `TaskRuntime::preempt_current` (lines 240–260). -/
def preemptCurrent (rt : TaskRuntime TASKS CAPS) (interrupted : UserContext) :
    Except TaskRuntimeError ScheduleOutcome × TaskRuntime TASKS CAPS :=
  match rt.scheduler.current with
  | none => (.error .noCurrentTask, rt)
  | some current =>
    match rt.domain current with
    | none => (.error .integrityFailure, rt)
    | some (_, domain) =>
      if domain.context.pageTable ≠ interrupted.pageTable then (.error .addressSpaceMismatch, rt)
      else
        match rt.timerTick with
        | (.error error, rt) => (.error error, rt)
        | (.ok outcome, rt) =>
          match rt.contextMut current fun _ => interrupted with
          | (.error error, rt) => (.error error, rt)
          | (.ok (), rt) => (.ok outcome, rt)

/-- `TaskRuntime::yield_current` (lines 262–266). -/
def yieldCurrent (rt : TaskRuntime TASKS CAPS) :
    Except TaskRuntimeError ScheduleOutcome × TaskRuntime TASKS CAPS :=
  rt.viaScheduler rt.scheduler.yieldCurrent

/-- `TaskRuntime::detach_domain` (lines 286–306). -/
def detachDomain (rt : TaskRuntime TASKS CAPS) (task : TaskId) :
    Except TaskRuntimeError (DetachedTaskDomain CAPS) × TaskRuntime TASKS CAPS :=
  match rt.domainSlot task with
  | none => (.error .missingTask, rt)
  | some slot =>
    match rt.domains slot with
    | none => (.error .integrityFailure, rt)
    | some domain =>
      let rt := rt.setDomain slot none
      match rt.scheduler.detach task with
      | (.ok scheduling, scheduler) => (.ok ⟨scheduling, domain⟩, { rt with scheduler })
      | (.error error, scheduler) =>
        (.error (.scheduler error), { rt with scheduler }.setDomain slot (some domain))

/-- `TaskRuntime::detach_domain_for_rebalance` (lines 308–323). -/
def detachDomainForRebalance (rt : TaskRuntime TASKS CAPS) (destination : SchedulerLoad) :
    Except TaskRuntimeError (Option (DetachedTaskDomain CAPS)) × TaskRuntime TASKS CAPS :=
  match rt.scheduler.rebalanceCandidate destination with
  | .error error => (.error (.scheduler error), rt)
  | .ok none => (.ok none, rt)
  | .ok (some candidate) =>
    if (rt.domain candidate).isNone then (.error .integrityFailure, rt)
    else
      let (result, rt) := rt.detachDomain candidate
      (result.map some, rt)

/-- `TaskRuntime::attach_domain` (lines 328–358): the result, the ticket left
    with the caller and the new runtime. -/
def attachDomain (rt : TaskRuntime TASKS CAPS) (ticket : Option (DetachedTaskDomain CAPS)) :
    Except TaskRuntimeError TaskMigration × Option (DetachedTaskDomain CAPS) ×
      TaskRuntime TASKS CAPS :=
  match rt.freeSlot with
  | none => (.error .full, ticket, rt)
  | some slot =>
    match ticket with
    | none => (.error .missingTask, none, rt)
    | some ⟨scheduling, domain⟩ =>
      match rt.scheduler.attach scheduling with
      | (.error (error, scheduling), scheduler) =>
        (.error (.scheduler error), some ⟨scheduling, domain⟩, { rt with scheduler })
      | (.ok migration, scheduler) =>
        (.ok migration, none, { rt with scheduler }.setDomain slot
          (some { domain with task := migration.destination }))

/-- The common part of `terminate_current_fault` and `terminate_current`
    (lines 382–400 and 415–431): the current task's identity, its domain and the
    scheduler's choice. -/
def retireCurrent (rt : TaskRuntime TASKS CAPS) :
    Except TaskRuntimeError (TaskId × TaskDomain CAPS × ScheduleOutcome) ×
      TaskRuntime TASKS CAPS :=
  match rt.scheduler.current with
  | none => (.error .noCurrentTask, rt)
  | some current =>
    match rt.domainSlot current with
    | none => (.error .integrityFailure, rt)
    | some slot =>
      match rt.domains slot with
      | none => (.error .integrityFailure, rt)
      | some domain =>
        let rt := rt.setDomain slot none
        match rt.scheduler.terminateCurrent with
        | (.error error, scheduler) => (.error (.scheduler error), { rt with scheduler })
        | (.ok next, scheduler) => (.ok (current, domain, next), { rt with scheduler })

/-- `TaskRuntime::terminate_current_fault` (lines 372–408). -/
def terminateCurrentFault (rt : TaskRuntime TASKS CAPS) (disposition : TrapDisposition) :
    Except TaskRuntimeError FaultRetirement × TaskRuntime TASKS CAPS :=
  match disposition with
  | .haltKernel _ => (.error .nonRecoverableFault, rt)
  | .terminateUser vector address =>
    let (result, rt) := rt.retireCurrent
    (result.map fun (task, domain, next) => ⟨task, domain.context, vector, address, next⟩, rt)

/-- `TaskRuntime::terminate_current` (lines 413–435). -/
def terminateCurrent (rt : TaskRuntime TASKS CAPS) :
    Except TaskRuntimeError TaskTermination × TaskRuntime TASKS CAPS :=
  let (result, rt) := rt.retireCurrent
  (result.map fun (task, _, next) => ⟨task, next⟩, rt)

/-- `two_domains_mut` (lines 592–610). -/
def twoDomains (rt : TaskRuntime TASKS CAPS) (first second : Fin TASKS) :
    Option (TaskDomain CAPS × TaskDomain CAPS) :=
  if first = second then none
  else
    match rt.domains first, rt.domains second with
    | some source, some destination => some (source, destination)
    | _, _ => none

/-- `TaskRuntime::send_ipc` (lines 440–483): the result, the endpoint and the
    new runtime. -/
def sendIpc (rt : TaskRuntime TASKS CAPS) (sender receiver : TaskId) (endpoint : Endpoint)
    (endpointCapability : Capability) (payload : List UInt8)
    (requested : List (Capability × Rights)) :
    Except TaskRuntimeError (UInt64 × Message) × Endpoint × TaskRuntime TASKS CAPS :=
  if sender = receiver then (.error .sameTaskIpc, endpoint, rt)
  else
    match rt.domainSlot sender with
    | none => (.error .missingTask, endpoint, rt)
    | some senderSlot =>
      match rt.domainSlot receiver with
      | none => (.error .missingTask, endpoint, rt)
      | some receiverSlot =>
        match rt.twoDomains senderSlot receiverSlot with
        | none => (.error .integrityFailure, endpoint, rt)
        | some (source, destination) =>
          let store := fun capabilities : CapabilitySpace CAPS =>
            rt.setDomain receiverSlot (some { destination with capabilities })
          match Message.transfer payload requested source.capabilities
              destination.capabilities with
          | (.error error, capabilities) => (.error (.ipc error), endpoint, store capabilities)
          | (.ok message, capabilities) =>
            match endpoint.authorizeSend source.capabilities endpointCapability with
            | (.ok sequence, endpoint) => (.ok (sequence, message), endpoint, store capabilities)
            | (.error error, endpoint) =>
              match capabilities.withdraw message.capabilities with
              | (false, capabilities) => (.error .integrityFailure, endpoint, store capabilities)
              | (true, capabilities) => (.error (.ipc error), endpoint, store capabilities)

/-- `TaskRuntime::deliver_ipc` (lines 488–537). -/
def deliverIpc (rt : TaskRuntime TASKS CAPS) (sender receiver : TaskId) (endpoint : Endpoint)
    (endpointCapability : Capability) (payload : List UInt8)
    (requested : List (Capability × Rights)) :
    Except TaskRuntimeError UInt64 × Endpoint × TaskRuntime TASKS CAPS :=
  match rt.domainSlot receiver with
  | none => (.error .missingTask, endpoint, rt)
  | some receiverSlot =>
    if (rt.domains receiverSlot).all fun domain => domain.inbox.count == 2 then
      (.error .inboxFull, endpoint, rt)
    else
      match rt.sendIpc sender receiver endpoint endpointCapability payload requested with
      | (.error error, endpoint, rt) => (.error error, endpoint, rt)
      | (.ok (sequence, message), endpoint, rt) =>
        match rt.domains receiverSlot with
        | none => (.error .integrityFailure, endpoint, rt)
        | some domain =>
          match domain.inbox.push message with
          | none => (.error .integrityFailure, endpoint, rt)
          | some inbox =>
            let rt := rt.setDomain receiverSlot (some { domain with inbox })
            match rt.viaScheduler (rt.scheduler.wake receiver) with
            | (.error error, rt) => (.error error, endpoint, rt)
            | (.ok (), rt) => (.ok sequence, endpoint, rt)

/-- `TaskRuntime::receive_ipc` (lines 539–557). -/
def receiveIpc (rt : TaskRuntime TASKS CAPS) (task : TaskId) :
    Except TaskRuntimeError Message × TaskRuntime TASKS CAPS :=
  match rt.domain task with
  | none => (.error .missingTask, rt)
  | some (i, domain) =>
    if h : domain.inbox.count = 0 then (.error .inboxEmpty, rt)
    else
      match domain.inbox.pop h with
      | none => (.error .integrityFailure, rt)
      | some (message, inbox) => (.ok message, rt.setDomain i (some { domain with inbox }))

/-- `TaskRuntime::receive_or_block_current` (lines 559–575). -/
def receiveOrBlockCurrent (rt : TaskRuntime TASKS CAPS) :
    Except TaskRuntimeError (Message ⊕ ScheduleOutcome) × TaskRuntime TASKS CAPS :=
  match rt.scheduler.current with
  | none => (.error .noCurrentTask, rt)
  | some current =>
    match rt.receiveIpc current with
    | (.ok message, rt) => (.ok (.inl message), rt)
    | (.error .inboxEmpty, rt) =>
      let (result, rt) := rt.viaScheduler rt.scheduler.blockCurrent
      (result.map .inr, rt)
    | (.error error, rt) => (.error error, rt)

end TaskRuntime

end Mrml.Kernel
