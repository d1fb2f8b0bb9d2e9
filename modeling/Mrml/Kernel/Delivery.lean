import Mrml.Kernel.Migration

/-!
# Delivery of messages to tasks

A task keeps at most two undelivered messages in a ring (`task_runtime.rs`, lines 42–50).
This file follows the messages of every task through a fleet of runtimes: a domain is
created on one runtime, may be detached into a ticket and attached to another runtime, and
its messages are delivered and received wherever it is.

A log records, from the results of the calls alone, which messages were delivered to a
task and which messages it received. It follows the task: a detached domain keeps its log
in the variable that holds the ticket, and `attach_domain` continues it under the new
identity.

Results:
* `inbox_delivery`: over every run, a task receives what was delivered to it, in order.
-/

namespace Mrml.Kernel

namespace Inbox

/-- An inbox has two cells. -/
instance neZero_cells : NeZero 2 := ⟨two_ne_zero⟩

/-- The queued messages, oldest first. -/
def messages (inbox : Inbox) : List Message :=
  (List.range inbox.count).filterMap fun k => inbox.cells (Fin.ofNat 2 (inbox.head.val + k))

/-- The cell of a queued message is filled. -/
theorem cell_isSome (inbox : Inbox) {k : ℕ} (hk : k < inbox.count) :
    (inbox.cells (Fin.ofNat 2 (inbox.head.val + k))).isSome = true := by
  have hle := inbox.count_le
  have hhead := inbox.head.isLt
  rw [inbox.filled, Fin.val_ofNat]
  omega

theorem messages_length (inbox : Inbox) : inbox.messages.length = inbox.count := by
  rw [messages, List.length_filterMap_eq_countP, List.countP_eq_length.mpr, List.length_range]
  intro k hk
  exact inbox.cell_isSome (List.mem_range.mp hk)

@[simp] theorem messages_empty : empty.messages = [] := rfl

/-- `deliver_ipc` queues its message last. -/
theorem messages_push {inbox inbox' : Inbox} {message : Message}
    (h : inbox.push message = some inbox') : inbox'.messages = inbox.messages ++ [message] := by
  unfold push at h
  split at h
  · cases h
  · rename_i hfree
    rw [tail_isSome] at hfree
    have hle := inbox.count_le
    have htail := inbox.tail_eq
    obtain rfl := Option.some_inj.mp h
    show (List.range (inbox.count + 1)).filterMap (fun k =>
      Function.update inbox.cells inbox.tail (some message)
        (Fin.ofNat 2 (inbox.head.val + k))) = inbox.messages ++ [message]
    rw [List.range_succ, List.filterMap_append, messages]
    congr 1
    · refine List.filterMap_congr fun k hk => ?_
      have hlt := List.mem_range.mp hk
      refine Function.update_of_ne (fun heq => ?_) _ _
      have hval := congrArg Fin.val heq
      rw [Fin.val_ofNat, htail] at hval
      omega
    · have hcell : Fin.ofNat 2 (inbox.head.val + inbox.count) = inbox.tail :=
        Fin.ext (by rw [Fin.val_ofNat, htail])
      rw [List.filterMap_cons_some (b := message), List.filterMap_nil]
      rw [hcell, Function.update_self]

/-- `receive_ipc` takes the oldest message. -/
theorem messages_pop {inbox inbox' : Inbox} {message : Message} {hne : inbox.count ≠ 0}
    (h : inbox.pop hne = some (message, inbox')) :
    inbox.messages = message :: inbox'.messages := by
  unfold pop at h
  obtain ⟨message', hcell, hpair⟩ := Option.map_eq_some_iff.mp h
  obtain ⟨rfl, rfl⟩ := Prod.mk.inj hpair
  have hle := inbox.count_le
  have hhead := inbox.head.isLt
  obtain ⟨n, hn⟩ := Nat.exists_eq_succ_of_ne_zero hne
  show inbox.messages = message' :: (List.range (inbox.count - 1)).filterMap (fun k =>
    Function.update inbox.cells inbox.head none (Fin.ofNat 2 ((inbox.head + 1).val + k)))
  rw [messages, hn, Nat.succ_sub_one, Nat.succ_eq_add_one, List.range_succ_eq_map]
  have hfirst : Fin.ofNat 2 (inbox.head.val + 0) = inbox.head :=
    Fin.ext (by rw [Fin.val_ofNat]; omega)
  rw [List.filterMap_cons_some (b := message'), List.filterMap_map]
  · congr 1
    refine List.filterMap_congr fun k hk => ?_
    have hlt := List.mem_range.mp hk
    have hshift : Fin.ofNat 2 ((inbox.head + 1).val + k) = Fin.ofNat 2 (inbox.head.val + (k + 1)) :=
      Fin.ext (by rw [Fin.val_ofNat, Fin.val_ofNat, val_add_one]; omega)
    rw [hshift, Function.update_of_ne]
    · rfl
    · intro heq
      have hval := congrArg Fin.val heq
      rw [Fin.val_ofNat] at hval
      omega
  · rw [hfirst, hcell]

end Inbox

namespace TaskRuntime

variable {TASKS CAPS : ℕ}

/-! ## What a call does to the inboxes -/

/-- Every domain of `rt'` is a domain of `rt` with the same identity and the same inbox. -/
def Inherits (rt rt' : TaskRuntime TASKS CAPS) : Prop :=
  ∀ i d', rt'.domains i = some d' →
    ∃ d, rt.domains i = some d ∧ d.task = d'.task ∧ d.inbox = d'.inbox

theorem inherits_of_domains {rt rt' : TaskRuntime TASKS CAPS} (h : rt'.domains = rt.domains) :
    rt.Inherits rt' := by
  intro i d hd
  rw [h] at hd
  exact ⟨d, hd, rfl, rfl⟩

/-- One domain changes, but not its inbox. -/
theorem inherits_of_update {rt rt' : TaskRuntime TASKS CAPS} {i : Fin TASKS}
    {d w : TaskDomain CAPS} (hd : rt.domains i = some d) (htask : d.task = w.task)
    (hinbox : d.inbox = w.inbox) (h : rt'.domains = Function.update rt.domains i (some w)) :
    rt.Inherits rt' := by
  intro j e he
  rw [h] at he
  by_cases hj : j = i
  · subst hj
    rw [Function.update_self, Option.some_inj] at he
    subst he
    exact ⟨d, hd, htask, hinbox⟩
  · rw [Function.update_of_ne hj] at he
    exact ⟨e, he, rfl, rfl⟩

/-- One domain leaves. -/
theorem inherits_of_remove {rt rt' : TaskRuntime TASKS CAPS} {i : Fin TASKS}
    (h : rt'.domains = Function.update rt.domains i none) : rt.Inherits rt' := by
  intro j e he
  rw [h] at he
  by_cases hj : j = i
  · subst hj
    rw [Function.update_self] at he
    cases he
  · rw [Function.update_of_ne hj] at he
    exact ⟨e, he, rfl, rfl⟩

/-- `send_ipc` leaves every inbox. -/
theorem sendIpc_inherits (rt : TaskRuntime TASKS CAPS) (sender receiver : TaskId)
    (endpoint : Endpoint) (endpointCapability : Capability) (payload : List UInt8)
    (requested : List (Capability × Rights)) :
    rt.Inherits
      (rt.sendIpc sender receiver endpoint endpointCapability payload requested).2.2 := by
  rcases rt.sendIpc_spec sender receiver endpoint endpointCapability payload requested with
    ⟨error, -, h⟩ | ⟨i, j, source, destination, capabilities, result, endpoint', -, -, -, -, hd,
      -, -, h⟩
  · rw [h]
    exact inherits_of_domains rfl
  · rw [h]
    exact inherits_of_update (w := { destination with capabilities }) hd rfl rfl rfl

/-- `deliver_ipc` fails and leaves every inbox, or queues the message that `send_ipc` made
    in the inbox of the receiver. -/
theorem deliverIpc_inbox {rt : TaskRuntime TASKS CAPS} (hrt : rt.Inv) (sender receiver : TaskId)
    (endpoint : Endpoint) (endpointCapability : Capability) (payload : List UInt8)
    (requested : List (Capability × Rights)) :
    (∃ error, (rt.deliverIpc sender receiver endpoint endpointCapability payload requested).1 =
        .error error ∧
      rt.Inherits
        (rt.deliverIpc sender receiver endpoint endpointCapability payload requested).2.2) ∨
    ∃ sequence message i d d',
      (rt.sendIpc sender receiver endpoint endpointCapability payload requested).1 =
        .ok (sequence, message) ∧
      rt.domains i = some d ∧ d.task = receiver ∧ d'.task = receiver ∧
      d'.inbox.messages = d.inbox.messages ++ [message] ∧
      (rt.deliverIpc sender receiver endpoint endpointCapability payload requested).1 =
        .ok sequence ∧
      (rt.deliverIpc sender receiver endpoint endpointCapability payload requested).2.2.domains =
        Function.update rt.domains i (some d') := by
  unfold deliverIpc
  cases hslot : rt.domainSlot receiver with
  | none => exact .inl ⟨_, rfl, inherits_of_domains rfl⟩
  | some i =>
    obtain ⟨d, hd, htask⟩ := domainSlot_some hslot
    dsimp only
    rw [hd]
    split
    · exact .inl ⟨_, rfl, inherits_of_domains rfl⟩
    · next hfull =>
      have hroom : d.inbox.count ≠ 2 := by simpa using hfull
      have hinherits :=
        rt.sendIpc_inherits sender receiver endpoint endpointCapability payload requested
      rcases rt.sendIpc_spec sender receiver endpoint endpointCapability payload requested with
        ⟨error, -, h⟩ | ⟨-, j, -, destination, capabilities, result, endpoint', -, hj, -, -,
          hdestination, -, -, h⟩
      · rw [h]
        exact .inl ⟨_, rfl, inherits_of_domains rfl⟩
      · obtain rfl : i = j := Option.some_inj.mp (hslot.symm.trans hj)
        obtain rfl : d = destination := Option.some_inj.mp (hd.symm.trans hdestination)
        rw [h] at hinherits ⊢
        cases result with
        | error error => exact .inl ⟨error, rfl, hinherits⟩
        | ok sent =>
          right
          obtain ⟨sequence, message⟩ := sent
          obtain ⟨inbox, hpush⟩ := Inbox.push_of_not_full hroom message
          -- the receiver is live, so waking it cannot fail after the message is queued
          obtain ⟨hwake, -⟩ := KernelScheduler.wake_spec hrt.scheduler (live_of_domainSlot hrt hslot)
          refine ⟨sequence, message, i, d, { d with capabilities, inbox }, rfl, hd, htask, htask,
            Inbox.messages_push hpush, ?_, ?_⟩
          · simp only [setDomain, Function.update_self, hpush, viaScheduler]
            rw [hwake]
            rfl
          · simp only [setDomain, Function.update_self, hpush, viaScheduler, Function.update_idem]
            rw [hwake]
            rfl

/-- `receive_ipc` fails and changes nothing, or takes the oldest message of the task. -/
theorem receiveIpc_inbox (rt : TaskRuntime TASKS CAPS) (task : TaskId) :
    (∃ error, rt.receiveIpc task = (.error error, rt)) ∨
    ∃ message i d inbox, rt.domains i = some d ∧ d.task = task ∧
      d.inbox.messages = message :: inbox.messages ∧
      rt.receiveIpc task = (.ok message, rt.setDomain i (some { d with inbox })) := by
  unfold receiveIpc
  rcases rt.domain_cases task with ⟨-, h⟩ | ⟨i, d, -, hd, htask, h⟩
  · rw [h]
    exact .inl ⟨_, rfl⟩
  · rw [h]
    dsimp only
    split
    · exact .inl ⟨_, rfl⟩
    · next hcount =>
      obtain ⟨message, inbox, hpop⟩ := Inbox.pop_isSome hcount
      rw [hpop]
      exact .inr ⟨message, i, d, inbox, hd, htask, Inbox.messages_pop hpop, rfl⟩

/-! ## Logs -/

/-- The messages delivered to a task and the messages it received, oldest first. -/
structure Log where
  delivered : List Message
  received : List Message

/-- What was delivered is what was received and then what is queued. -/
def Log.Covers (log : Log) (inbox : Inbox) : Prop :=
  log.delivered = log.received ++ inbox.messages

/-- The log of a task that was just created. -/
def Log.new : Log := ⟨[], []⟩

/-- The log after one more delivery. -/
def Log.deliver (log : Log) (message : Message) : Log :=
  { log with delivered := log.delivered ++ [message] }

/-- The log after one more reception. -/
def Log.receive (log : Log) (message : Message) : Log :=
  { log with received := log.received ++ [message] }

/-- The logs of the tasks of a runtime after a call, from its result. The message of a
    successful `deliver_ipc` is the one that its `send_ipc` made. -/
def record (rt : TaskRuntime TASKS CAPS) (log : TaskId → Log) (op : RuntimeOp CAPS) :
    TaskId → Log :=
  match op, (rt.exec op).1 with
  | .create _ _, .ok (.created task) => Function.update log task .new
  | .deliverIpc sender receiver endpoint endpointCapability payload requested,
      .ok (.delivered _) =>
    match (rt.sendIpc sender receiver endpoint endpointCapability payload requested).1 with
    | .ok (_, message) => Function.update log receiver ((log receiver).deliver message)
    | .error _ => log
  | .receiveIpc task, .ok (.received message) =>
    Function.update log task ((log task).receive message)
  | .receiveOrBlockCurrent, .ok (.received message) =>
    match rt.scheduler.current with
    | some task => Function.update log task ((log task).receive message)
    | none => log
  | _, _ => log

/-- The logs agree with the inboxes, and no task has received what was not delivered. -/
structure Logged (log : TaskId → Log) (rt : TaskRuntime TASKS CAPS) : Prop where
  covers : ∀ i d, rt.domains i = some d → (log d.task).Covers d.inbox
  ordered : ∀ task, (log task).received <+: (log task).delivered

theorem Logged.inherits {log : TaskId → Log} {rt rt' : TaskRuntime TASKS CAPS}
    (h : Logged log rt) (hrt : rt.Inherits rt') : Logged log rt' := by
  refine ⟨fun i d' hd' => ?_, h.ordered⟩
  obtain ⟨d, hd, htask, hinbox⟩ := hrt i d' hd'
  rw [← htask, ← hinbox]
  exact h.covers i d hd

/-- One task changes its domain and its log; no other domain carries its identity. -/
theorem Logged.update {log : TaskId → Log} {rt rt' : TaskRuntime TASKS CAPS} (h : Logged log rt)
    {i : Fin TASKS} {w : TaskDomain CAPS} {l : Log}
    (hunique : ∀ j d, j ≠ i → rt.domains j = some d → d.task ≠ w.task)
    (hcovers : l.Covers w.inbox) (hrt : rt'.domains = Function.update rt.domains i (some w)) :
    Logged (Function.update log w.task l) rt' := by
  refine ⟨fun j d hd => ?_, fun task => ?_⟩
  · rw [hrt] at hd
    by_cases hj : j = i
    · subst hj
      rw [Function.update_self, Option.some_inj] at hd
      subst hd
      rw [Function.update_self]
      exact hcovers
    · rw [Function.update_of_ne hj] at hd
      rw [Function.update_of_ne (hunique j d hj hd)]
      exact h.covers j d hd
  · by_cases htask : task = w.task
    · subst htask
      rw [Function.update_self]
      exact ⟨w.inbox.messages, hcovers.symm⟩
    · rw [Function.update_of_ne htask]
      exact h.ordered task

/-- The identity of a domain is in no other slot. -/
theorem Inv.unique_task {rt : TaskRuntime TASKS CAPS} (hrt : rt.Inv) {i : Fin TASKS}
    {d : TaskDomain CAPS} (hd : rt.domains i = some d) (j : Fin TASKS) (e : TaskDomain CAPS)
    (hj : j ≠ i) (he : rt.domains j = some e) : e.task ≠ d.task := by
  intro heq
  exact hj (hrt.names.unique (owners_eq_some.mpr ⟨e, he, heq⟩) (owners_eq_some.mpr ⟨d, hd, rfl⟩))

/-- An identity that is not live is in no slot. -/
theorem Inv.fresh_task {rt : TaskRuntime TASKS CAPS} (hrt : rt.Inv) {task : TaskId}
    (hfresh : ¬ rt.scheduler.scheduler.Live task) (j : Fin TASKS) (e : TaskDomain CAPS)
    (he : rt.domains j = some e) : e.task ≠ task := by
  intro heq
  exact hfresh ((hrt.names.live_iff task).mpr ⟨j, owners_eq_some.mpr ⟨e, he, heq⟩⟩)

/-- A reception. -/
theorem Logged.receive {log : TaskId → Log} {rt : TaskRuntime TASKS CAPS} (h : Logged log rt)
    (hrt : rt.Inv) {i : Fin TASKS} {d : TaskDomain CAPS} {message : Message} {inbox : Inbox}
    (hd : rt.domains i = some d) (hinbox : d.inbox.messages = message :: inbox.messages) :
    Logged (Function.update log d.task ((log d.task).receive message))
      (rt.setDomain i (some { d with inbox })) := by
  refine h.update (w := { d with inbox }) (fun j e hj he => hrt.unique_task hd j e hj he) ?_ rfl
  have hcovers := h.covers i d hd
  rw [Log.Covers, hinbox] at hcovers
  show (log d.task).delivered = (log d.task).received ++ [message] ++ inbox.messages
  rw [hcovers, List.append_assoc, List.singleton_append]

theorem create_logged (hT : TASKS ≤ 2 ^ 32) {rt : TaskRuntime TASKS CAPS} (hrt : rt.Inv)
    {log : TaskId → Log} (h : Logged log rt) (priority : Priority) (context : UserContext) :
    Logged (rt.record log (.create priority context)) (rt.exec (.create priority context)).2 := by
  unfold record exec reply create
  cases hslot : rt.freeSlot with
  | none => exact h
  | some slot =>
    rcases KernelScheduler.create_spec hT hrt.scheduler priority with
      ⟨error, hc⟩ | ⟨task, hok, -, hcreated⟩
    · dsimp only
      rw [hc]
      exact h
    · dsimp only
      generalize rt.scheduler.create priority = out at *
      obtain ⟨result, scheduler⟩ := out
      obtain rfl : result = .ok task := hok
      refine h.update (w := freshDomain task context) ?_ rfl rfl
      exact fun j d _ hd => hrt.fresh_task hcreated.fresh j d hd

theorem deliverIpc_logged {rt : TaskRuntime TASKS CAPS} (hrt : rt.Inv) {log : TaskId → Log}
    (h : Logged log rt) (sender receiver : TaskId) (endpoint : Endpoint)
    (endpointCapability : Capability) (payload : List UInt8)
    (requested : List (Capability × Rights)) :
    Logged (rt.record log (.deliverIpc sender receiver endpoint endpointCapability payload requested))
      (rt.exec (.deliverIpc sender receiver endpoint endpointCapability payload requested)).2 := by
  unfold record exec reply
  rcases deliverIpc_inbox hrt sender receiver endpoint endpointCapability payload requested with
    ⟨error, herror, hinherits⟩ | ⟨sequence, message, i, d, d', hsend, hd, rfl, htask, hinbox, hok,
      hrt'⟩
  · dsimp only
    rw [herror]
    exact h.inherits hinherits
  · dsimp only
    rw [hok]
    simp only [Except.map, hsend]
    rw [← htask]
    refine h.update (fun j e hj he => ?_) ?_ (by rw [htask]; exact hrt')
    · rw [htask]
      exact hrt.unique_task hd j e hj he
    · have hcovers := h.covers i d hd
      rw [← htask] at hcovers
      show (log d'.task).delivered ++ [message] = (log d'.task).received ++ d'.inbox.messages
      rw [hinbox, ← List.append_assoc, ← hcovers]

theorem receiveIpc_logged {rt : TaskRuntime TASKS CAPS} (hrt : rt.Inv) {log : TaskId → Log}
    (h : Logged log rt) (task : TaskId) :
    Logged (rt.record log (.receiveIpc task)) (rt.exec (.receiveIpc task)).2 := by
  unfold record exec reply
  rcases rt.receiveIpc_inbox task with ⟨error, hr⟩ | ⟨message, i, d, inbox, hd, rfl, hinbox, hr⟩
  · dsimp only
    rw [hr]
    exact h
  · dsimp only
    rw [hr]
    exact h.receive hrt hd hinbox

theorem receiveOrBlockCurrent_logged {rt : TaskRuntime TASKS CAPS} (hrt : rt.Inv)
    {log : TaskId → Log} (h : Logged log rt) :
    Logged (rt.record log .receiveOrBlockCurrent) (rt.exec .receiveOrBlockCurrent).2 := by
  unfold record exec reply receiveOrBlockCurrent
  cases hcurrent : rt.scheduler.current with
  | none => exact h
  | some current =>
    rcases rt.receiveIpc_inbox current with
      ⟨error, hr⟩ | ⟨message, i, d, inbox, hd, rfl, hinbox, hr⟩
    · dsimp only
      rw [hr]
      cases error with
      | inboxEmpty =>
        simp only [viaScheduler]
        generalize rt.scheduler.blockCurrent = out
        obtain ⟨result, scheduler⟩ := out
        cases result <;> exact h.inherits (inherits_of_domains rfl)
      | _ => exact h
    · dsimp only
      rw [hr]
      exact h.receive hrt hd hinbox

theorem contextMut_inherits (rt : TaskRuntime TASKS CAPS) (task : TaskId)
    (write : UserContext → UserContext) : rt.Inherits (rt.contextMut task write).2 := by
  unfold contextMut
  rcases rt.domain_cases task with ⟨-, h⟩ | ⟨i, d, -, hd, -, h⟩
  · rw [h]
    exact inherits_of_domains rfl
  · rw [h]
    exact inherits_of_update (w := { d with context := write d.context }) hd rfl rfl rfl

theorem capabilitiesMut_inherits (rt : TaskRuntime TASKS CAPS) (task : TaskId)
    (change : CapabilitySpace CAPS → CapabilitySpace CAPS) :
    rt.Inherits (rt.capabilitiesMut task change).2 := by
  unfold capabilitiesMut
  rcases rt.domain_cases task with ⟨-, h⟩ | ⟨i, d, -, hd, -, h⟩
  · rw [h]
    exact inherits_of_domains rfl
  · rw [h]
    exact inherits_of_update (w := { d with capabilities := change d.capabilities }) hd rfl rfl rfl

theorem preemptCurrent_inherits (rt : TaskRuntime TASKS CAPS) (interrupted : UserContext) :
    rt.Inherits (rt.preemptCurrent interrupted).2 := by
  unfold preemptCurrent
  cases rt.scheduler.current with
  | none => exact inherits_of_domains rfl
  | some current =>
    dsimp only
    split
    · exact inherits_of_domains rfl
    · split_ifs
      · exact inherits_of_domains rfl
      · unfold timerTick viaScheduler
        generalize rt.scheduler.timerTick = out
        obtain ⟨result, scheduler⟩ := out
        cases result with
        | error error => exact inherits_of_domains rfl
        | ok outcome =>
          have hcontext := contextMut_inherits { rt with scheduler } current fun _ => interrupted
          simp only [Except.mapError]
          generalize contextMut _ current _ = out at hcontext ⊢
          obtain ⟨result, rt'⟩ := out
          cases result <;> exact hcontext

theorem retireCurrent_inherits (rt : TaskRuntime TASKS CAPS) :
    rt.Inherits rt.retireCurrent.2 := by
  unfold retireCurrent
  split
  · exact inherits_of_domains rfl
  · split
    · exact inherits_of_domains rfl
    · split
      · exact inherits_of_domains rfl
      · dsimp only
        split <;> exact inherits_of_remove rfl

/-- Every call that neither detaches nor attaches keeps the logs in step. -/
theorem exec_logged (hT : TASKS ≤ 2 ^ 32) {rt : TaskRuntime TASKS CAPS} (hrt : rt.Inv)
    {log : TaskId → Log} (h : Logged log rt) {op : RuntimeOp CAPS} (hop : op.isLocal = true) :
    Logged (rt.record log op) (rt.exec op).2 := by
  cases op with
  | detachDomain | detachDomainForRebalance | attachDomain => cases hop
  | create priority context => exact create_logged hT hrt h priority context
  | deliverIpc sender receiver endpoint endpointCapability payload requested =>
    exact deliverIpc_logged hrt h sender receiver endpoint endpointCapability payload requested
  | receiveIpc task => exact receiveIpc_logged hrt h task
  | receiveOrBlockCurrent => exact receiveOrBlockCurrent_logged hrt h
  | start | timerTick | yieldCurrent => exact h.inherits (inherits_of_domains rfl)
  | preemptCurrent interrupted => exact h.inherits (rt.preemptCurrent_inherits interrupted)
  | contextMut task write => exact h.inherits (rt.contextMut_inherits task write)
  | capabilitiesMut task change => exact h.inherits (rt.capabilitiesMut_inherits task change)
  | terminateCurrent => exact h.inherits rt.retireCurrent_inherits
  | terminateCurrentFault disposition =>
    cases disposition with
    | haltKernel vector => exact h
    | terminateUser vector address => exact h.inherits rt.retireCurrent_inherits
  | sendIpc sender receiver endpoint endpointCapability payload requested =>
    exact h.inherits
      (rt.sendIpc_inherits sender receiver endpoint endpointCapability payload requested)

end TaskRuntime

/-! ## Fleets of runtimes -/

open TaskRuntime

/-- Runtimes, and the variables that hold the tickets of detached domains. The logs are
    those of the tasks of each runtime and those of the detached domains. -/
structure Fleet (R : Type) (TASKS CAPS : ℕ) where
  runtimes : R → TaskRuntime TASKS CAPS
  held : ℕ → Option (DetachedTaskDomain CAPS)
  log : R → TaskId → Log
  heldLog : ℕ → Log

/-- A call on one of the runtimes. A ticket goes into variable `v` or comes from it; a
    variable that receives a ticket must be free. -/
inductive FleetOp (R : Type) (CAPS : ℕ)
  | call (r : R) (op : RuntimeOp CAPS) (h : op.isLocal = true)
  | detachDomain (r : R) (task : TaskId) (v : ℕ)
  | detachDomainForRebalance (r : R) (destination : SchedulerLoad) (v : ℕ)
  | attachDomain (r : R) (v : ℕ)

namespace Fleet

variable {R : Type} [DecidableEq R] {TASKS CAPS : ℕ}

/-- Runtime `r` after a call that returned the ticket of a domain, if any. -/
def detached (s : Fleet R TASKS CAPS) (r : R) (v : ℕ)
    (out : Option (DetachedTaskDomain CAPS) × TaskRuntime TASKS CAPS) : Fleet R TASKS CAPS :=
  match out with
  | (none, runtime) => { s with runtimes := Function.update s.runtimes r runtime }
  | (some ticket, runtime) =>
    { s with
      runtimes := Function.update s.runtimes r runtime
      held := Function.update s.held v (some ticket)
      heldLog := Function.update s.heldLog v (s.log r ticket.scheduling.source) }

/-- One call. -/
def step (s : Fleet R TASKS CAPS) : FleetOp R CAPS → Fleet R TASKS CAPS
  | .call r op _ =>
    { s with
      runtimes := Function.update s.runtimes r ((s.runtimes r).exec op).2
      log := Function.update s.log r ((s.runtimes r).record (s.log r) op) }
  | .detachDomain r task v =>
    if (s.held v).isSome then s
    else
      let (result, runtime) := (s.runtimes r).detachDomain task
      s.detached r v (result.toOption, runtime)
  | .detachDomainForRebalance r destination v =>
    if (s.held v).isSome then s
    else
      let (result, runtime) := (s.runtimes r).detachDomainForRebalance destination
      s.detached r v (result.toOption.join, runtime)
  | .attachDomain r v =>
    match (s.runtimes r).attachDomain (s.held v) with
    | (.error _, ticket, runtime) =>
      { s with
        runtimes := Function.update s.runtimes r runtime
        held := Function.update s.held v ticket }
    | (.ok migration, ticket, runtime) =>
      { s with
        runtimes := Function.update s.runtimes r runtime
        held := Function.update s.held v ticket
        log := Function.update s.log r
          (Function.update (s.log r) migration.destination (s.heldLog v)) }

/-- New runtimes, no ticket and empty logs. -/
structure Initial (s : Fleet R TASKS CAPS) : Prop where
  runtime : ∀ r, ∃ ticksPerSecond quantumTicks,
    TaskRuntime.new TASKS CAPS ticksPerSecond quantumTicks = .ok (s.runtimes r)
  held : ∀ v, s.held v = none
  log : ∀ r task, s.log r task = .new

/-- The logs of the runtimes and of the tickets agree with the inboxes. -/
structure Inv (s : Fleet R TASKS CAPS) : Prop where
  runtime : ∀ r, (s.runtimes r).Inv
  logged : ∀ r, Logged (s.log r) (s.runtimes r)
  held : ∀ v ticket, s.held v = some ticket → (s.heldLog v).Covers ticket.domain.inbox

omit [DecidableEq R] in
theorem Initial.inv {s : Fleet R TASKS CAPS} (h : s.Initial) : s.Inv := by
  refine ⟨fun r => ?_, fun r => ⟨fun i d hd => ?_, fun task => ?_⟩, fun v ticket hv => ?_⟩
  · obtain ⟨ticksPerSecond, quantumTicks, hnew⟩ := h.runtime r
    exact new_inv hnew
  · obtain ⟨ticksPerSecond, quantumTicks, hnew⟩ := h.runtime r
    rw [new_domains hnew i] at hd
    cases hd
  · rw [h.log r task]
    exact List.prefix_rfl
  · rw [h.held v] at hv
    cases hv

/-- A step that changes runtime `r`, its logs and the variables. -/
theorem Inv.set {s s' : Fleet R TASKS CAPS} (hs : s.Inv) (r : R) {runtime : TaskRuntime TASKS CAPS}
    {log : TaskId → Log} (hruntimes : s'.runtimes = Function.update s.runtimes r runtime)
    (hlog : s'.log = Function.update s.log r log) (hinv : runtime.Inv) (hlogged : Logged log runtime)
    (hheld : ∀ v ticket, s'.held v = some ticket → (s'.heldLog v).Covers ticket.domain.inbox) :
    s'.Inv := by
  refine ⟨fun r' => ?_, fun r' => ?_, hheld⟩
  · rw [hruntimes]
    by_cases hr : r' = r
    · subst hr
      rw [Function.update_self]
      exact hinv
    · rw [Function.update_of_ne hr]
      exact hs.runtime r'
  · rw [hruntimes, hlog]
    by_cases hr : r' = r
    · subst hr
      rw [Function.update_self, Function.update_self]
      exact hlogged
    · rw [Function.update_of_ne hr, Function.update_of_ne hr]
      exact hs.logged r'

/-- A domain leaves runtime `r` with its log, or nothing happens. -/
theorem Inv.detachDomain {s : Fleet R TASKS CAPS} (hs : s.Inv) (r : R) (task : TaskId) (v : ℕ) :
    (s.detached r v (((s.runtimes r).detachDomain task).1.toOption,
      ((s.runtimes r).detachDomain task).2)).Inv := by
  have hinv := (detachDomain_change (hs.runtime r) task).inv (hs.runtime r)
  rcases detachDomain_spec (hs.runtime r) task with
    ⟨error, -, h⟩ | ⟨i, d, state, priority, scheduler, -, hd, rfl, -, -, h⟩
  · rw [h]
    refine hs.set r rfl (Function.update_eq_self r s.log).symm (hs.runtime r) (hs.logged r) hs.held
  · rw [h] at hinv ⊢
    refine hs.set r rfl (Function.update_eq_self r s.log).symm hinv
      ((hs.logged r).inherits (inherits_of_remove rfl)) fun v' ticket hv' => ?_
    simp only [detached, Except.toOption] at hv' ⊢
    by_cases hv : v' = v
    · subst hv
      rw [Function.update_self, Option.some_inj] at hv'
      rw [Function.update_self, ← hv']
      exact (hs.logged r).covers i d hd
    · rw [Function.update_of_ne hv] at hv' ⊢
      exact hs.held v' ticket hv'

/-- The domain of a ticket enters runtime `r` with its log, or nothing happens. -/
theorem Inv.attachDomain (hT : TASKS ≤ 2 ^ 32) {s : Fleet R TASKS CAPS} (hs : s.Inv) (r : R)
    (v : ℕ) : (s.step (.attachDomain r v)).Inv := by
  have hinv := (attachDomain_change hT (hs.runtime r) (s.held v)).inv (hs.runtime r)
  rw [exec] at hinv
  simp only [step]
  rcases attachDomain_spec hT (hs.runtime r) (s.held v) with
    ⟨error, -, h⟩ | ⟨ticket, i, migration, scheduler, hticket, hfree, -, hcreated, h⟩
  · rw [h] at hinv ⊢
    refine hs.set r rfl (Function.update_eq_self r s.log).symm hinv (hs.logged r) ?_
    dsimp only
    rw [Function.update_eq_self]
    exact hs.held
  · rw [h] at hinv ⊢
    refine hs.set r rfl rfl hinv ?_ fun v' ticket' hv' => ?_
    · refine (hs.logged r).update (w := { ticket.domain with task := migration.destination })
        ?_ (hs.held v ticket hticket) rfl
      exact fun j d _ hd => (hs.runtime r).fresh_task hcreated.fresh j d hd
    · dsimp only at hv' ⊢
      by_cases hv : v' = v
      · subst hv
        rw [Function.update_self] at hv'
        cases hv'
      · rw [Function.update_of_ne hv] at hv'
        exact hs.held v' ticket' hv'

theorem step_inv (hT : TASKS ≤ 2 ^ 32) (hC : CAPS ≤ 2 ^ 32) {s : Fleet R TASKS CAPS} (hs : s.Inv)
    (op : FleetOp R CAPS) : (s.step op).Inv := by
  cases op with
  | call r op hop =>
    exact hs.set r rfl rfl (TaskRuntime.step_inv hT hC (hs.runtime r) op)
      (exec_logged hT (hs.runtime r) (hs.logged r) hop) hs.held
  | detachDomain r task v =>
    simp only [step]
    split_ifs
    · exact hs
    · exact hs.detachDomain r task v
  | detachDomainForRebalance r destination v =>
    simp only [step]
    split_ifs
    · exact hs
    · rcases detachDomainForRebalance_eq hT (hs.runtime r) destination with
        ⟨error, -, h⟩ | h | ⟨task, h⟩
      · rw [h]
        exact hs.set r rfl (Function.update_eq_self r s.log).symm (hs.runtime r) (hs.logged r) hs.held
      · rw [h]
        exact hs.set r rfl (Function.update_eq_self r s.log).symm (hs.runtime r) (hs.logged r) hs.held
      · have hdetached := hs.detachDomain r task v
        rw [h]
        generalize (s.runtimes r).detachDomain task = out at hdetached ⊢
        obtain ⟨result, runtime⟩ := out
        cases result <;> exact hdetached
  | attachDomain r v => exact hs.attachDomain hT r v

/-- **Main theorem.** In every run of calls on any number of runtimes between which tasks
    migrate: the messages delivered to a task are those it has received, in order, and then
    the at most two of its inbox, wherever the task is; also a task that has ended received
    no more than was delivered, in order. A delivery to a full inbox is refused and changes
    nothing, and no call reports an integrity failure. -/
theorem inbox_delivery (hT : TASKS ≤ 2 ^ 32) (hC : CAPS ≤ 2 ^ 32) {s₀ : Fleet R TASKS CAPS}
    (h₀ : s₀.Initial) (ops : List (FleetOp R CAPS)) {s : Fleet R TASKS CAPS}
    (hrun : s = run step s₀ ops) :
    (∀ r i d, (s.runtimes r).domains i = some d →
      (s.log r d.task).delivered = (s.log r d.task).received ++ d.inbox.messages ∧
        d.inbox.messages.length ≤ 2) ∧
    (∀ v ticket, s.held v = some ticket →
      (s.heldLog v).delivered = (s.heldLog v).received ++ ticket.domain.inbox.messages) ∧
    (∀ r task, (s.log r task).received <+: (s.log r task).delivered) ∧
    (∀ r i d sender endpoint endpointCapability payload requested,
      (s.runtimes r).domains i = some d → d.inbox.messages.length = 2 →
      (s.runtimes r).deliverIpc sender d.task endpoint endpointCapability payload requested =
        (.error .inboxFull, endpoint, s.runtimes r)) ∧
    ∀ r (op : RuntimeOp CAPS), ((s.runtimes r).exec op).1 ≠ .error .integrityFailure := by
  have hs : s.Inv := hrun ▸ run_invariant (P := Inv) (fun _ op h => step_inv hT hC h op) h₀.inv ops
  refine ⟨?_, hs.held, fun r => (hs.logged r).ordered, ?_, ?_⟩
  · intro r i d hd
    refine ⟨(hs.logged r).covers i d hd, ?_⟩
    rw [Inbox.messages_length]
    exact d.inbox.count_le
  · intro r i d sender endpoint endpointCapability payload requested hd hfull
    rw [Inbox.messages_length] at hfull
    obtain ⟨j, hj⟩ := domainSlot_of_live (hs.runtime r)
      (((hs.runtime r).names.live_iff d.task).mpr ⟨i, owners_eq_some.mpr ⟨d, hd, rfl⟩⟩)
    obtain ⟨d', hd', htask⟩ := domainSlot_some hj
    obtain rfl : j = i := by
      by_contra hne
      exact (hs.runtime r).unique_task hd j d' hne hd' htask
    unfold deliverIpc
    rw [hj]
    dsimp only
    rw [hd, if_pos (by simp [hfull])]
  · exact fun r op => (exec_change hT hC (hs.runtime r) op).not_integrityFailure

/-- Two runtimes without tasks. -/
def twoRuntimes : Fleet Bool 2 1 where
  runtimes := fun _ => ⟨⟨Scheduler.new 2, none, 0, 1, 1⟩, fun _ => none⟩
  held := fun _ => none
  log := fun _ _ => .new
  heldLog := fun _ => .new

theorem firstCreate_isLocal :
    (RuntimeOp.create .normal (contextAt 0x1000) : RuntimeOp 1).isLocal = true := rfl

theorem secondCreate_isLocal :
    (RuntimeOp.create .normal (contextAt 0x2000) : RuntimeOp 1).isLocal = true := rfl

/-- One task sends a message to another, which migrates before it receives it. -/
def sendAndMove : List (FleetOp Bool 1) :=
  [.call false (.create .normal (contextAt 0x1000)) firstCreate_isLocal,
    .call false (.create .normal (contextAt 0x2000)) secondCreate_isLocal,
    .call false (.capabilitiesMut ⟨0, 1⟩ fun space => (space.insert ⟨7⟩ Rights.signal).2) rfl,
    .call false (.deliverIpc ⟨0, 1⟩ ⟨1, 1⟩ (.new ⟨7⟩) ⟨0, 1⟩ [42] []) rfl,
    .detachDomain false ⟨1, 1⟩ 0, .attachDomain true 0, .call true (.receiveIpc ⟨0, 1⟩) rfl]

theorem twoRuntimes_initial : twoRuntimes.Initial where
  runtime _ := ⟨1000, 1, rfl⟩
  held _ := rfl
  log _ _ := rfl

theorem inbox_delivery_sendAndMove :
    ((run step twoRuntimes sendAndMove).log true ⟨0, 1⟩).delivered = [⟨[42], []⟩] ∧
    ((run step twoRuntimes sendAndMove).log true ⟨0, 1⟩).received <+:
      ((run step twoRuntimes sendAndMove).log true ⟨0, 1⟩).delivered ∧
    ((run step twoRuntimes sendAndMove).log true ⟨0, 1⟩).received = [⟨[42], []⟩] :=
  ⟨by decide +kernel,
    (inbox_delivery (by decide) (by decide) twoRuntimes_initial sendAndMove rfl).2.2.1 true ⟨0, 1⟩,
    by decide +kernel⟩

end Fleet

end Mrml.Kernel
