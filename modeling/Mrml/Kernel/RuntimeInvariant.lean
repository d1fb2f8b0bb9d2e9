import Mrml.Common.Run
import Mrml.Kernel.TaskRuntime

/-!
# The task runtime keeps its two tables in step

A `TaskRuntime` owns the scheduler table and the table of protection domains.
`Inv` says that their live identities coincide. Every operation changes the two
tables together in one of four ways (`Change`): it keeps the identities, edits
one domain in place, admits one identity or retires one.

Results:
* `exec_change`: what each operation can do, from any state with `Inv`.
* `runtime_integrity`: over every run from the empty runtime the two tables are
  in bijection, the current task is runnable, no call reports an integrity
  failure and a removed identity never comes back.
-/

namespace Mrml.Kernel

namespace TaskRuntime

variable {TASKS CAPS : ℕ}

/-- A call of one of the public `&mut self` methods of `TaskRuntime`. -/
inductive RuntimeOp (CAPS : ℕ)
  | create (priority : Priority) (context : UserContext)
  | start
  | timerTick
  | preemptCurrent (interrupted : UserContext)
  | yieldCurrent
  | contextMut (task : TaskId) (write : UserContext → UserContext)
  | capabilitiesMut (task : TaskId) (change : CapabilitySpace CAPS → CapabilitySpace CAPS)
  | detachDomain (task : TaskId)
  | detachDomainForRebalance (destination : SchedulerLoad)
  | attachDomain (ticket : Option (DetachedTaskDomain CAPS))
  | terminateCurrentFault (disposition : TrapDisposition)
  | terminateCurrent
  | sendIpc (sender receiver : TaskId) (endpoint : Endpoint) (endpointCapability : Capability)
      (payload : List UInt8) (requested : List (Capability × Rights))
  | deliverIpc (sender receiver : TaskId) (endpoint : Endpoint) (endpointCapability : Capability)
      (payload : List UInt8) (requested : List (Capability × Rights))
  | receiveIpc (task : TaskId)
  | receiveOrBlockCurrent

/-- The identities a call names. -/
def RuntimeOp.names : RuntimeOp CAPS → List TaskId
  | .contextMut task _ | .capabilitiesMut task _ | .detachDomain task | .receiveIpc task => [task]
  | .sendIpc sender receiver _ _ _ _ | .deliverIpc sender receiver _ _ _ _ => [sender, receiver]
  | _ => []

/-- What a successful call returns. -/
inductive RuntimeReply (CAPS : ℕ)
  | created (task : TaskId)
  | scheduled (outcome : ScheduleOutcome)
  | written
  | detached (ticket : DetachedTaskDomain CAPS)
  | balanced
  | attached (migration : TaskMigration)
  | faulted (retirement : FaultRetirement)
  | terminated (termination : TaskTermination)
  | sent (sequence : UInt64) (message : Message)
  | delivered (sequence : UInt64)
  | received (message : Message)

/-- The identity a reply hands out. -/
def RuntimeReply.issued : RuntimeReply CAPS → Option TaskId
  | .created task => some task
  | .attached migration => some migration.destination
  | _ => none

/-- The identity a reply reports as removed. -/
def RuntimeReply.removed : RuntimeReply CAPS → Option TaskId
  | .detached ticket => some ticket.scheduling.source
  | .faulted retirement => some retirement.task
  | .terminated termination => some termination.task
  | _ => none

/-- The result of one call and the runtime it leaves. -/
abbrev Outcome (TASKS CAPS : ℕ) :=
  Except TaskRuntimeError (RuntimeReply CAPS) × TaskRuntime TASKS CAPS

/-- The outcome of a method that returns `α`. -/
def reply {α : Type} (f : α → RuntimeReply CAPS)
    (out : Except TaskRuntimeError α × TaskRuntime TASKS CAPS) : Outcome TASKS CAPS :=
  (out.1.map f, out.2)

/-- One call. The endpoint that `send_ipc` and `deliver_ipc` advance and the
    ticket that `attach_domain` returns belong to the caller. -/
def exec (rt : TaskRuntime TASKS CAPS) : RuntimeOp CAPS → Outcome TASKS CAPS
  | .create priority context => reply .created (rt.create priority context)
  | .start => (.ok (.scheduled rt.start.1), rt.start.2)
  | .timerTick => reply .scheduled rt.timerTick
  | .preemptCurrent interrupted => reply .scheduled (rt.preemptCurrent interrupted)
  | .yieldCurrent => reply .scheduled rt.yieldCurrent
  | .contextMut task write => reply (fun _ => .written) (rt.contextMut task write)
  | .capabilitiesMut task change => reply (fun _ => .written) (rt.capabilitiesMut task change)
  | .detachDomain task => reply .detached (rt.detachDomain task)
  | .detachDomainForRebalance destination =>
    reply (fun ticket => ticket.elim .balanced .detached) (rt.detachDomainForRebalance destination)
  | .attachDomain ticket =>
    let (result, _, rt) := rt.attachDomain ticket
    reply .attached (result, rt)
  | .terminateCurrentFault disposition => reply .faulted (rt.terminateCurrentFault disposition)
  | .terminateCurrent => reply .terminated rt.terminateCurrent
  | .sendIpc sender receiver endpoint endpointCapability payload requested =>
    let (result, _, rt) := rt.sendIpc sender receiver endpoint endpointCapability payload requested
    reply (fun (sequence, message) => .sent sequence message) (result, rt)
  | .deliverIpc sender receiver endpoint endpointCapability payload requested =>
    let (result, _, rt) :=
      rt.deliverIpc sender receiver endpoint endpointCapability payload requested
    reply .delivered (result, rt)
  | .receiveIpc task => reply .received (rt.receiveIpc task)
  | .receiveOrBlockCurrent =>
    reply (fun received => received.elim .received .scheduled) rt.receiveOrBlockCurrent

/-- The runtime after one call. -/
def step (rt : TaskRuntime TASKS CAPS) (op : RuntimeOp CAPS) : TaskRuntime TASKS CAPS :=
  (rt.exec op).2

/-! ## The invariant and the four kinds of change -/

/-- The identity in each domain slot. -/
def owners (rt : TaskRuntime TASKS CAPS) (i : Fin TASKS) : Option TaskId :=
  (rt.domains i).map TaskDomain.task

/-- The live scheduler identities are the identities of the domains, each once. -/
structure Inv (rt : TaskRuntime TASKS CAPS) : Prop where
  scheduler : rt.scheduler.Inv
  names : Names rt.owners rt.scheduler.scheduler.Live

/-- The result reports no integrity failure, hands out no identity and removes none. -/
def Quiet (result : Except TaskRuntimeError (RuntimeReply CAPS)) : Prop :=
  result ≠ .error .integrityFailure ∧
    ∀ reply, result = .ok reply → reply.issued = none ∧ reply.removed = none

/-- How a call changes the runtime, and what it reports. -/
inductive Change (rt : TaskRuntime TASKS CAPS) : Outcome TASKS CAPS → Prop
  | keep {result : Except TaskRuntimeError (RuntimeReply CAPS)} {rt' : TaskRuntime TASKS CAPS}
      (quiet : Quiet result) (scheduler : rt'.scheduler.Inv)
      (steady : rt.scheduler.Steady rt'.scheduler) (domains : rt'.domains = rt.domains) :
      Change rt (result, rt')
  | edit {result : Except TaskRuntimeError (RuntimeReply CAPS)} {rt' : TaskRuntime TASKS CAPS}
      {i : Fin TASKS} {d d' : TaskDomain CAPS} (quiet : Quiet result)
      (scheduler : rt'.scheduler.Inv) (steady : rt.scheduler.Steady rt'.scheduler)
      (old : rt.domains i = some d) (task : d'.task = d.task)
      (domains : rt'.domains = Function.update rt.domains i (some d')) : Change rt (result, rt')
  | enrol {reply : RuntimeReply CAPS} {rt' : TaskRuntime TASKS CAPS} {i : Fin TASKS}
      {d : TaskDomain CAPS} (issued : reply.issued = some d.task) (removed : reply.removed = none)
      (scheduler : rt'.scheduler.Inv)
      (created : rt.scheduler.scheduler.Created d.task rt'.scheduler.scheduler)
      (free : rt.domains i = none)
      (domains : rt'.domains = Function.update rt.domains i (some d)) : Change rt (.ok reply, rt')
  | retire {reply : RuntimeReply CAPS} {rt' : TaskRuntime TASKS CAPS} {i : Fin TASKS}
      {d : TaskDomain CAPS} (issued : reply.issued = none) (removed : reply.removed = some d.task)
      (scheduler : rt'.scheduler.Inv)
      (gone : rt.scheduler.scheduler.Removed d.task rt'.scheduler.scheduler)
      (old : rt.domains i = some d)
      (domains : rt'.domains = Function.update rt.domains i none) : Change rt (.ok reply, rt')

theorem Change.edit_to {rt rt' : TaskRuntime TASKS CAPS}
    {result : Except TaskRuntimeError (RuntimeReply CAPS)} {i : Fin TASKS} {d : TaskDomain CAPS}
    (d' : TaskDomain CAPS) (quiet : Quiet result) (scheduler : rt'.scheduler.Inv)
    (steady : rt.scheduler.Steady rt'.scheduler) (old : rt.domains i = some d)
    (task : d'.task = d.task) (domains : rt'.domains = Function.update rt.domains i (some d')) :
    Change rt (result, rt') :=
  .edit quiet scheduler steady old task domains

theorem owners_update {rt rt' : TaskRuntime TASKS CAPS} {i : Fin TASKS}
    {d : Option (TaskDomain CAPS)} (h : rt'.domains = Function.update rt.domains i d) :
    rt'.owners = Function.update rt.owners i (d.map TaskDomain.task) := by
  funext j
  by_cases hj : j = i
  · subst hj
    simp [owners, h]
  · simp [owners, h, hj]

theorem owners_eq_some {rt : TaskRuntime TASKS CAPS} {i : Fin TASKS} {id : TaskId} :
    rt.owners i = some id ↔ ∃ d, rt.domains i = some d ∧ d.task = id := by
  simp [owners, Option.map_eq_some_iff]

/-- Every change keeps the invariant. -/
theorem Change.inv {rt : TaskRuntime TASKS CAPS} {out : Outcome TASKS CAPS} (hrt : rt.Inv)
    (h : rt.Change out) : out.2.Inv := by
  cases h with
  | keep quiet scheduler steady domains =>
    refine ⟨scheduler, ?_⟩
    have howners : ∀ rt' : TaskRuntime TASKS CAPS, rt'.domains = rt.domains →
        rt'.owners = rt.owners := fun rt' h => by unfold owners; rw [h]
    rw [howners _ domains]
    exact hrt.names.congr steady.live
  | @edit _ rt' i d d' quiet scheduler steady old task domains =>
    refine ⟨scheduler, ?_⟩
    have hold : rt.owners i = some d'.task := owners_eq_some.mpr ⟨d, old, task.symm⟩
    rw [owners_update domains, Option.map_some, ← hold, Function.update_eq_self]
    exact hrt.names.congr steady.live
  | enrol issued removed scheduler created free domains =>
    refine ⟨scheduler, ?_⟩
    rw [owners_update domains]
    exact hrt.names.enrol (by simp [owners, free]) created.fresh created.live
  | retire issued removed scheduler gone old domains =>
    refine ⟨scheduler, ?_⟩
    rw [owners_update domains]
    exact hrt.names.retire (owners_eq_some.mpr ⟨_, old, rfl⟩) gone.live

/-- What is retired stays retired. -/
theorem Change.retired {rt : TaskRuntime TASKS CAPS} {out : Outcome TASKS CAPS} (hrt : rt.Inv)
    (h : rt.Change out) {id : TaskId} (hid : rt.scheduler.scheduler.Retired id) :
    out.2.scheduler.scheduler.Retired id := by
  cases h with
  | keep _ _ steady _ => exact (steady.retired id).mpr hid
  | edit _ _ steady _ _ _ => exact (steady.retired id).mpr hid
  | enrol _ _ _ created _ _ => exact created.retired id hid
  | retire _ _ _ gone _ _ => exact gone.retired hrt.scheduler.nonzeroLive id hid

theorem Change.not_integrityFailure {rt : TaskRuntime TASKS CAPS} {out : Outcome TASKS CAPS}
    (h : rt.Change out) : out.1 ≠ .error .integrityFailure := by
  cases h with
  | keep quiet _ _ _ => exact quiet.1
  | edit quiet _ _ _ _ _ => exact quiet.1
  | enrol _ _ _ _ _ _ => simp
  | retire _ _ _ _ _ _ => simp

/-- A removed identity is retired from then on. -/
theorem Change.removed_retired {rt : TaskRuntime TASKS CAPS} {out : Outcome TASKS CAPS}
    (h : rt.Change out) {reply : RuntimeReply CAPS} (hok : out.1 = .ok reply) {id : TaskId}
    (hid : reply.removed = some id) : out.2.scheduler.scheduler.Retired id := by
  cases h with
  | keep quiet _ _ _ => rw [(quiet.2 reply hok).2] at hid; cases hid
  | edit quiet _ _ _ _ _ => rw [(quiet.2 reply hok).2] at hid; cases hid
  | enrol issued removed _ _ _ _ =>
    cases hok
    rw [removed] at hid
    cases hid
  | retire issued removed _ gone _ _ =>
    cases hok
    rw [removed] at hid
    cases hid
    exact gone.isRetired

/-- A retired identity is not handed out. -/
theorem Change.issued_not_retired {rt : TaskRuntime TASKS CAPS} {out : Outcome TASKS CAPS}
    (hrt : rt.Inv) (h : rt.Change out) {reply : RuntimeReply CAPS} (hok : out.1 = .ok reply)
    {id : TaskId} (hid : rt.scheduler.scheduler.Retired id) : reply.issued ≠ some id := by
  intro hissued
  cases h with
  | keep quiet _ _ _ => rw [(quiet.2 reply hok).1] at hissued; cases hissued
  | edit quiet _ _ _ _ _ => rw [(quiet.2 reply hok).1] at hissued; cases hissued
  | enrol issued _ _ created _ _ =>
    cases hok
    rw [issued] at hissued
    cases hissued
    exact created.unretired hrt.scheduler.nonzeroLive hid
  | retire issued _ _ _ _ _ =>
    cases hok
    rw [issued] at hissued
    cases hissued

/-! ## Finding a domain -/

theorem domainSlot_some {rt : TaskRuntime TASKS CAPS} {id : TaskId} {i : Fin TASKS}
    (h : rt.domainSlot id = some i) : ∃ d, rt.domains i = some d ∧ d.task = id := by
  have hp := firstSlot_some h
  simpa [Option.any_eq_true] using hp

theorem domainSlot_none {rt : TaskRuntime TASKS CAPS} (hrt : rt.Inv) {id : TaskId}
    (h : rt.domainSlot id = none) : ¬ rt.scheduler.scheduler.Live id := by
  rw [hrt.names.live_iff]
  rintro ⟨i, hi⟩
  obtain ⟨d, hd, rfl⟩ := owners_eq_some.mp hi
  have hp := firstSlot_none h i
  simp [hd] at hp

theorem live_of_domainSlot {rt : TaskRuntime TASKS CAPS} (hrt : rt.Inv) {id : TaskId}
    {i : Fin TASKS} (h : rt.domainSlot id = some i) : rt.scheduler.scheduler.Live id :=
  (hrt.names.live_iff id).mpr ⟨i, owners_eq_some.mpr (domainSlot_some h)⟩

theorem domainSlot_of_live {rt : TaskRuntime TASKS CAPS} (hrt : rt.Inv) {id : TaskId}
    (h : rt.scheduler.scheduler.Live id) : ∃ i, rt.domainSlot id = some i := by
  cases hs : rt.domainSlot id with
  | none => exact absurd h (domainSlot_none hrt hs)
  | some i => exact ⟨i, rfl⟩

theorem domainSlot_of_retired {rt : TaskRuntime TASKS CAPS} (hrt : rt.Inv) {id : TaskId}
    (h : rt.scheduler.scheduler.Retired id) : rt.domainSlot id = none := by
  cases hs : rt.domainSlot id with
  | none => rfl
  | some i =>
    exact absurd h ((live_of_domainSlot hrt hs).not_retired hrt.scheduler.nonzeroLive)

theorem domain_cases (rt : TaskRuntime TASKS CAPS) (id : TaskId) :
    (rt.domainSlot id = none ∧ rt.domain id = none) ∨
    ∃ i d, rt.domainSlot id = some i ∧ rt.domains i = some d ∧ d.task = id ∧
      rt.domain id = some (i, d) := by
  cases hs : rt.domainSlot id with
  | none => exact .inl ⟨rfl, by simp [domain, hs]⟩
  | some i =>
    obtain ⟨d, hd, ht⟩ := domainSlot_some hs
    exact .inr ⟨i, d, rfl, hd, ht, by simp [domain, hs, hd]⟩

theorem freeSlot_some {rt : TaskRuntime TASKS CAPS} {i : Fin TASKS} (h : rt.freeSlot = some i) :
    rt.domains i = none := by
  simpa using firstSlot_some h

/-! ## Each operation -/

theorem quiet_error {error : TaskRuntimeError} (h : error ≠ .integrityFailure) :
    Quiet (.error error : Except TaskRuntimeError (RuntimeReply CAPS)) :=
  ⟨fun h' => h (Except.error.inj h'), fun _ h' => by cases h'⟩

theorem quiet_ok (reply : RuntimeReply CAPS) (hi : reply.issued = none)
    (hr : reply.removed = none) : Quiet (.ok reply) :=
  ⟨by simp, by rintro reply ⟨⟩; exact ⟨hi, hr⟩⟩

theorem quiet_map {α : Type} {result : Except TaskRuntimeError α} {f : α → RuntimeReply CAPS}
    (h : result ≠ .error .integrityFailure)
    (hf : ∀ a, (f a).issued = none ∧ (f a).removed = none) : Quiet (result.map f) := by
  cases result with
  | error error => exact quiet_error fun he => h (by rw [he])
  | ok a => exact quiet_ok _ (hf a).1 (hf a).2

theorem mapError_scheduler_ne {α : Type} (result : Except KernelScheduleError α) :
    result.mapError TaskRuntimeError.scheduler ≠ .error .integrityFailure := by
  cases result <;> simp [Except.mapError]

/-- A call that fails before it changes anything. -/
theorem Change.rejected {rt : TaskRuntime TASKS CAPS} (hrt : rt.Inv) {error : TaskRuntimeError}
    (h : error ≠ .integrityFailure) : rt.Change (.error error, rt) :=
  .keep (quiet_error h) hrt.scheduler (.refl _) rfl

theorem create_change (hT : TASKS ≤ 2 ^ 32) {rt : TaskRuntime TASKS CAPS} (hrt : rt.Inv)
    (priority : Priority) (context : UserContext) :
    rt.Change (reply .created (rt.create priority context)) := by
  unfold create
  cases hs : rt.freeSlot with
  | none => exact .rejected hrt (by decide)
  | some slot =>
    rcases KernelScheduler.create_spec hT hrt.scheduler priority with
      ⟨error, h⟩ | ⟨id, hok, hinv, hcreated⟩
    · dsimp only
      rw [h]
      exact .rejected hrt (by simp)
    · dsimp only
      generalize rt.scheduler.create priority = out at *
      obtain ⟨result, scheduler⟩ := out
      obtain rfl : result = .ok id := hok
      exact .enrol (d := freshDomain id context) rfl rfl hinv hcreated (freeSlot_some hs) rfl

theorem start_change (hT : TASKS ≤ 2 ^ 32) {rt : TaskRuntime TASKS CAPS} (hrt : rt.Inv) :
    rt.Change (rt.exec .start) := by
  have h := KernelScheduler.start_spec hT hrt.scheduler
  exact .keep (quiet_ok _ rfl rfl) h.1 h.2 rfl

/-- A scheduler operation that keeps the live identities. -/
theorem viaScheduler_change {rt : TaskRuntime TASKS CAPS} {α : Type}
    {out : Except KernelScheduleError α × KernelScheduler TASKS}
    (h : out.2.Inv ∧ rt.scheduler.Steady out.2) {f : α → RuntimeReply CAPS}
    (hf : ∀ a, (f a).issued = none ∧ (f a).removed = none) :
    rt.Change (reply f (rt.viaScheduler out)) :=
  .keep (quiet_map (mapError_scheduler_ne _) hf) h.1 h.2 rfl

/-- Preemption saves the context of the interrupted task, whatever runs next. -/
theorem preemptCurrent_change (hT : TASKS ≤ 2 ^ 32) {rt : TaskRuntime TASKS CAPS} (hrt : rt.Inv)
    (interrupted : UserContext) :
    rt.Change (reply .scheduled (rt.preemptCurrent interrupted)) := by
  unfold preemptCurrent
  cases hc : rt.scheduler.current with
  | none => exact .rejected hrt (by decide)
  | some current =>
    have hlive := (hrt.scheduler.current current hc).live
    obtain ⟨slot, hslot⟩ := domainSlot_of_live hrt hlive
    rcases rt.domain_cases current with ⟨hnone, -⟩ | ⟨i, d, hi, hd, ht, hdom⟩
    · rw [hslot] at hnone
      cases hnone
    · dsimp only
      rw [hdom]
      dsimp only
      split_ifs with hroot
      · exact .rejected hrt (by simp)
      · have htick := KernelScheduler.timerTick_spec hT hrt.scheduler
        unfold timerTick viaScheduler
        generalize rt.scheduler.timerTick = out at *
        obtain ⟨result, scheduler⟩ := out
        cases result with
        | error error => exact .keep (quiet_error (by simp)) htick.1 htick.2 rfl
        | ok outcome =>
          have hdom' : ({ rt with scheduler } : TaskRuntime TASKS CAPS).domain current =
              some (i, d) := hdom
          simp only [Except.mapError, contextMut, hdom']
          exact Change.edit_to { d with context := interrupted }
            (quiet_ok _ rfl rfl) htick.1 htick.2 hd rfl rfl

/-- A write to one domain that leaves its identity. -/
theorem setDomain_change {rt : TaskRuntime TASKS CAPS} (hrt : rt.Inv) {i : Fin TASKS}
    {d : TaskDomain CAPS} (hd : rt.domains i = some d) (d' : TaskDomain CAPS)
    (ht : d'.task = d.task) {result : Except TaskRuntimeError (RuntimeReply CAPS)} (hq : Quiet result) :
    rt.Change (result, rt.setDomain i (some d')) :=
  .edit hq hrt.scheduler (.refl _) hd ht rfl

theorem contextMut_change {rt : TaskRuntime TASKS CAPS} (hrt : rt.Inv) (task : TaskId)
    (write : UserContext → UserContext) :
    rt.Change (reply (fun _ => .written) (rt.contextMut task write)) := by
  unfold contextMut
  rcases rt.domain_cases task with ⟨-, h⟩ | ⟨i, d, -, hd, -, h⟩
  · rw [h]
    exact .rejected hrt (by decide)
  · rw [h]
    exact setDomain_change hrt hd { d with context := write d.context } rfl
      (quiet_ok .written rfl rfl)

theorem capabilitiesMut_change {rt : TaskRuntime TASKS CAPS} (hrt : rt.Inv) (task : TaskId)
    (change : CapabilitySpace CAPS → CapabilitySpace CAPS) :
    rt.Change (reply (fun _ => .written) (rt.capabilitiesMut task change)) := by
  unfold capabilitiesMut
  rcases rt.domain_cases task with ⟨-, h⟩ | ⟨i, d, -, hd, -, h⟩
  · rw [h]
    exact .rejected hrt (by decide)
  · rw [h]
    exact setDomain_change hrt hd { d with capabilities := change d.capabilities } rfl
      (quiet_ok .written rfl rfl)

/-- `detach_domain` either changes nothing or takes the whole domain out. -/
theorem detachDomain_spec {rt : TaskRuntime TASKS CAPS} (hrt : rt.Inv) (task : TaskId) :
    (∃ error, error ≠ .integrityFailure ∧ rt.detachDomain task = (.error error, rt)) ∨
    ∃ i d state priority scheduler, rt.domainSlot task = some i ∧ rt.domains i = some d ∧
      d.task = task ∧ scheduler.Inv ∧ rt.scheduler.scheduler.Removed task scheduler.scheduler ∧
      rt.detachDomain task =
        (.ok ⟨⟨task, state, priority⟩, d⟩, { rt.setDomain i none with scheduler }) := by
  unfold detachDomain
  cases hs : rt.domainSlot task with
  | none => exact .inl ⟨_, by decide, rfl⟩
  | some i =>
    obtain ⟨d, hd, ht⟩ := domainSlot_some hs
    dsimp only
    rw [hd]
    rcases KernelScheduler.detach_spec hrt.scheduler task with
      ⟨error, h⟩ | ⟨state, priority, hok, hinv, hremoved⟩
    · left
      refine ⟨.scheduler error, by simp, ?_⟩
      have hrestore : (rt.setDomain i none).setDomain i (some d) = rt := by
        simp [setDomain, ← hd]
      simp only [setDomain] at hrestore ⊢
      rw [h]
      exact Prod.ext rfl hrestore
    · right
      refine ⟨i, d, state, priority, (rt.scheduler.detach task).2, rfl, hd, ht, hinv, hremoved, ?_⟩
      simp only [setDomain]
      generalize rt.scheduler.detach task = out at *
      obtain ⟨result, scheduler⟩ := out
      obtain rfl : result = .ok ⟨task, state, priority⟩ := hok
      rfl

theorem detachDomain_change {rt : TaskRuntime TASKS CAPS} (hrt : rt.Inv) (task : TaskId) :
    rt.Change (reply .detached (rt.detachDomain task)) := by
  rcases detachDomain_spec hrt task with
    ⟨error, hne, h⟩ | ⟨i, d, state, priority, scheduler, -, hd, rfl, hinv, hremoved, h⟩
  · rw [h]
    exact .rejected hrt hne
  · rw [h]
    exact .retire rfl rfl hinv hremoved hd rfl

/-- The candidate that the scheduler proposes has a domain. -/
theorem detachDomainForRebalance_eq (hT : TASKS ≤ 2 ^ 32) {rt : TaskRuntime TASKS CAPS}
    (hrt : rt.Inv) (destination : SchedulerLoad) :
    (∃ error, error ≠ .integrityFailure ∧
      rt.detachDomainForRebalance destination = (.error error, rt)) ∨
    rt.detachDomainForRebalance destination = (.ok none, rt) ∨
    ∃ task, rt.detachDomainForRebalance destination =
      ((rt.detachDomain task).1.map some, (rt.detachDomain task).2) := by
  unfold detachDomainForRebalance
  cases hr : rt.scheduler.rebalanceCandidate destination with
  | error error => exact .inl ⟨_, by simp, rfl⟩
  | ok candidate =>
    cases candidate with
    | none => exact .inr (.inl rfl)
    | some candidate =>
      have hlive : rt.scheduler.scheduler.Live candidate := by
        unfold KernelScheduler.rebalanceCandidate at hr
        dsimp only at hr
        split at hr
        · cases hr
        · split at hr
          · next hm =>
            cases hr
            exact (Scheduler.migrationCandidate_runnable hT hm).1.live
          · cases hr
      obtain ⟨slot, hslot⟩ := domainSlot_of_live hrt hlive
      rcases rt.domain_cases candidate with ⟨hnone, -⟩ | ⟨i, d, -, -, -, hdom⟩
      · rw [hslot] at hnone
        cases hnone
      · right
        right
        refine ⟨candidate, ?_⟩
        simp [hdom]

theorem detachDomainForRebalance_change (hT : TASKS ≤ 2 ^ 32) {rt : TaskRuntime TASKS CAPS}
    (hrt : rt.Inv) (destination : SchedulerLoad) :
    rt.Change (reply (fun ticket => ticket.elim .balanced .detached)
      (rt.detachDomainForRebalance destination)) := by
  rcases detachDomainForRebalance_eq hT hrt destination with ⟨error, hne, h⟩ | h | ⟨task, h⟩
  · rw [h]
    exact .rejected hrt hne
  · rw [h]
    exact .keep (quiet_ok _ rfl rfl) hrt.scheduler (.refl _) rfl
  · have hd := detachDomain_change hrt task
    rw [h]
    generalize rt.detachDomain task = out at hd ⊢
    obtain ⟨result, rt'⟩ := out
    cases result <;> exact hd

/-- `attach_domain` either changes nothing and leaves the ticket with the caller,
    or puts the ticket's domain into a free slot under a fresh identity. -/
theorem attachDomain_spec (hT : TASKS ≤ 2 ^ 32) {rt : TaskRuntime TASKS CAPS} (hrt : rt.Inv)
    (ticket : Option (DetachedTaskDomain CAPS)) :
    (∃ error, error ≠ .integrityFailure ∧ rt.attachDomain ticket = (.error error, ticket, rt)) ∨
    ∃ t i migration scheduler, ticket = some t ∧ rt.domains i = none ∧ scheduler.Inv ∧
      rt.scheduler.scheduler.Created migration.destination scheduler.scheduler ∧
      rt.attachDomain ticket = (.ok migration, none,
        { rt.setDomain i (some { t.domain with task := migration.destination }) with scheduler }) := by
  unfold attachDomain
  cases hs : rt.freeSlot with
  | none => exact .inl ⟨_, by decide, rfl⟩
  | some i =>
    cases ticket with
    | none => exact .inl ⟨_, by decide, rfl⟩
    | some t =>
      rcases KernelScheduler.attach_spec hT hrt.scheduler t.scheduling with
        ⟨error, h⟩ | ⟨destination, hok, hinv, hcreated⟩
      · left
        refine ⟨.scheduler error, by simp, ?_⟩
        dsimp only
        rw [h]
      · right
        refine ⟨t, i, ⟨t.scheduling.source, destination, t.scheduling.state, t.scheduling.priority⟩,
          (rt.scheduler.attach t.scheduling).2, rfl, freeSlot_some hs, hinv, hcreated, ?_⟩
        dsimp only
        generalize rt.scheduler.attach t.scheduling = out at *
        obtain ⟨result, scheduler⟩ := out
        dsimp only at hok
        subst hok
        rfl

theorem attachDomain_change (hT : TASKS ≤ 2 ^ 32) {rt : TaskRuntime TASKS CAPS} (hrt : rt.Inv)
    (ticket : Option (DetachedTaskDomain CAPS)) : rt.Change (rt.exec (.attachDomain ticket)) := by
  rw [exec]
  rcases attachDomain_spec hT hrt ticket with
    ⟨error, hne, h⟩ | ⟨t, i, migration, scheduler, -, hi, hinv, hcreated, h⟩
  · rw [h]
    exact .rejected hrt hne
  · rw [h]
    exact .enrol (d := { t.domain with task := migration.destination }) rfl rfl hinv hcreated hi rfl

/-- The current task always has a domain, so it is retired with it. -/
theorem retireCurrent_spec (hT : TASKS ≤ 2 ^ 32) {rt : TaskRuntime TASKS CAPS} (hrt : rt.Inv) :
    (∃ error, error ≠ .integrityFailure ∧ rt.retireCurrent = (.error error, rt)) ∨
    ∃ i d next scheduler, rt.domains i = some d ∧ scheduler.Inv ∧
      rt.scheduler.scheduler.Removed d.task scheduler.scheduler ∧
      rt.retireCurrent = (.ok (d.task, d, next), { rt.setDomain i none with scheduler }) := by
  unfold retireCurrent
  cases hc : rt.scheduler.current with
  | none => exact .inl ⟨_, by decide, rfl⟩
  | some current =>
    right
    obtain ⟨i, hi⟩ := domainSlot_of_live hrt (hrt.scheduler.current current hc).live
    obtain ⟨d, hd, rfl⟩ := domainSlot_some hi
    obtain ⟨⟨next, hok⟩, hinv, hremoved⟩ := KernelScheduler.terminateCurrent_spec hT hrt.scheduler hc
    refine ⟨i, d, next, rt.scheduler.terminateCurrent.2, hd, hinv, hremoved, ?_⟩
    simp only [hi, hd, setDomain]
    generalize rt.scheduler.terminateCurrent = out at *
    obtain ⟨result, scheduler⟩ := out
    obtain rfl : result = .ok next := hok
    rfl

theorem terminateCurrentFault_change (hT : TASKS ≤ 2 ^ 32) {rt : TaskRuntime TASKS CAPS}
    (hrt : rt.Inv) (disposition : TrapDisposition) :
    rt.Change (reply .faulted (rt.terminateCurrentFault disposition)) := by
  unfold terminateCurrentFault
  cases disposition with
  | haltKernel vector => exact .rejected hrt (by decide)
  | terminateUser vector address =>
    rcases retireCurrent_spec hT hrt with ⟨error, hne, h⟩ | ⟨i, d, next, scheduler, hd, hinv, hr, h⟩
    · simp only [h]
      exact .rejected hrt hne
    · simp only [h]
      exact .retire rfl rfl hinv hr hd rfl

theorem terminateCurrent_change (hT : TASKS ≤ 2 ^ 32) {rt : TaskRuntime TASKS CAPS}
    (hrt : rt.Inv) : rt.Change (reply .terminated rt.terminateCurrent) := by
  unfold terminateCurrent
  rcases retireCurrent_spec hT hrt with ⟨error, hne, h⟩ | ⟨i, d, next, scheduler, hd, hinv, hr, h⟩
  · simp only [h]
    exact .rejected hrt hne
  · simp only [h]
    exact .retire rfl rfl hinv hr hd rfl

/-- The receiver's space after `send_ipc`: the transfer into it, and what is left
    of that when the endpoint refuses the message. -/
def Transferred (payload : List UInt8) (requested : List (Capability × Rights))
    (source destination capabilities : CapabilitySpace CAPS) : Prop :=
  capabilities = (Message.transfer payload requested source destination).2 ∨
  ∃ message, (Message.transfer payload requested source destination).1 = .ok message ∧
    capabilities =
      ((Message.transfer payload requested source destination).2.withdraw message.capabilities).2

/-- `send_ipc` either changes nothing or only the receiver's capability space. -/
theorem sendIpc_spec (rt : TaskRuntime TASKS CAPS) (sender receiver : TaskId) (endpoint : Endpoint)
    (endpointCapability : Capability) (payload : List UInt8)
    (requested : List (Capability × Rights)) :
    (∃ error, error ≠ .integrityFailure ∧
      rt.sendIpc sender receiver endpoint endpointCapability payload requested =
        (.error error, endpoint, rt)) ∨
    ∃ i j source destination capabilities result endpoint', rt.domainSlot sender = some i ∧
      rt.domainSlot receiver = some j ∧ i ≠ j ∧ rt.domains i = some source ∧
      rt.domains j = some destination ∧
      Transferred payload requested source.capabilities destination.capabilities capabilities ∧
      (CAPS ≤ 2 ^ 32 → result ≠ .error .integrityFailure) ∧
      rt.sendIpc sender receiver endpoint endpointCapability payload requested =
        (result, endpoint', rt.setDomain j (some { destination with capabilities })) := by
  unfold sendIpc
  split
  · exact .inl ⟨_, by decide, rfl⟩
  · next hne =>
    cases hi : rt.domainSlot sender with
    | none => exact .inl ⟨_, by decide, rfl⟩
    | some i =>
      cases hj : rt.domainSlot receiver with
      | none => exact .inl ⟨_, by decide, rfl⟩
      | some j =>
        right
        obtain ⟨source, hsource, hs⟩ := domainSlot_some hi
        obtain ⟨destination, hdestination, hd⟩ := domainSlot_some hj
        have hij : i ≠ j := by
          rintro rfl
          rw [hsource, Option.some_inj] at hdestination
          exact hne (by rw [← hs, ← hd, hdestination])
        have htwo : rt.twoDomains i j = some (source, destination) := by
          simp [twoDomains, hij, hsource, hdestination]
        refine ⟨i, j, source, destination, ?_⟩
        simp only [htwo]
        cases ht : Message.transfer payload requested source.capabilities destination.capabilities with
        | mk result capabilities =>
          cases result with
          | error error =>
            exact ⟨capabilities, _, _, trivial, trivial, hij, hsource, hdestination, .inl (by rw [ht]),
              fun _ => by simp, rfl⟩
          | ok message =>
            dsimp only
            cases ha : endpoint.authorizeSend source.capabilities endpointCapability with
            | mk result endpoint' =>
              cases result with
              | ok sequence =>
                exact ⟨capabilities, _, _, trivial, trivial, hij, hsource, hdestination, .inl (by rw [ht]),
                  fun _ => by simp, rfl⟩
              | error error =>
                cases hws : capabilities.withdraw message.capabilities with
                | mk done left =>
                  have htransferred : Transferred payload requested source.capabilities
                      destination.capabilities left :=
                    .inr ⟨message, by rw [ht], by rw [ht, hws]⟩
                  cases done with
                  | true =>
                    exact ⟨left, _, _, trivial, trivial, hij, hsource, hdestination, htransferred,
                      fun _ => by simp, rfl⟩
                  | false =>
                    -- everything transferred is live, so it can all be revoked again
                    refine ⟨left, _, _, trivial, trivial, hij, hsource, hdestination, htransferred,
                      fun hC => ?_, rfl⟩
                    have hw := (Message.transfer_holds hC ht).withdraw
                    rw [hws] at hw
                    cases hw

theorem sendIpc_change (hC : CAPS ≤ 2 ^ 32) {rt : TaskRuntime TASKS CAPS} (hrt : rt.Inv)
    (sender receiver : TaskId) (endpoint : Endpoint) (endpointCapability : Capability)
    (payload : List UInt8) (requested : List (Capability × Rights)) :
    rt.Change (rt.exec (.sendIpc sender receiver endpoint endpointCapability payload requested)) := by
  rw [exec]
  rcases rt.sendIpc_spec sender receiver endpoint endpointCapability payload requested with
    ⟨error, hne, h⟩ | ⟨i, j, source, destination, capabilities, result, endpoint', -, -, -, -, hd,
      -, hne, h⟩
  · rw [h]
    exact .rejected hrt hne
  · rw [h]
    exact setDomain_change hrt hd { destination with capabilities } rfl
      (quiet_map (hne hC) fun _ => ⟨rfl, rfl⟩)

/-- A full inbox is refused before the message is sent; otherwise the tail cell
    is free, and the receiver is woken last. -/
theorem deliverIpc_spec (rt : TaskRuntime TASKS CAPS) (sender receiver : TaskId)
    (endpoint : Endpoint) (endpointCapability : Capability) (payload : List UInt8)
    (requested : List (Capability × Rights)) :
    (∃ error, error ≠ .integrityFailure ∧
      rt.deliverIpc sender receiver endpoint endpointCapability payload requested =
        (.error error, endpoint, rt)) ∨
    ∃ i j source destination capabilities inbox scheduler result endpoint',
      rt.domainSlot sender = some i ∧ rt.domainSlot receiver = some j ∧ i ≠ j ∧
      rt.domains i = some source ∧ rt.domains j = some destination ∧
      Transferred payload requested source.capabilities destination.capabilities capabilities ∧
      (scheduler = rt.scheduler ∨ scheduler = (rt.scheduler.wake receiver).2) ∧
      (CAPS ≤ 2 ^ 32 → result ≠ .error .integrityFailure) ∧
      rt.deliverIpc sender receiver endpoint endpointCapability payload requested =
        (result, endpoint',
          { rt.setDomain j (some { destination with capabilities, inbox }) with scheduler }) := by
  unfold deliverIpc
  cases hj : rt.domainSlot receiver with
  | none => exact .inl ⟨_, by decide, rfl⟩
  | some j =>
    obtain ⟨destination, hdestination, -⟩ := domainSlot_some hj
    dsimp only
    rw [hdestination]
    split
    · exact .inl ⟨_, by decide, rfl⟩
    · next hfull =>
      rcases rt.sendIpc_spec sender receiver endpoint endpointCapability payload requested with
        ⟨error, hne, h⟩ | ⟨i, j', source, destination', capabilities, result, endpoint', hi, hj', hij,
          hsource, hd, htransfer, hne, h⟩
      · rw [h]
        exact .inl ⟨_, hne, rfl⟩
      · right
        obtain rfl : j = j' := Option.some.inj (hj.symm.trans hj')
        obtain rfl : destination = destination' := Option.some.inj (hdestination.symm.trans hd)
        rw [h]
        cases result with
        | error error =>
          exact ⟨i, j, source, destination, capabilities, destination.inbox, rt.scheduler, _, endpoint',
            hi, rfl, hij, hsource, hd, htransfer, .inl rfl,
            fun hC h => hne hC (by cases h; rfl), rfl⟩
        | ok sent =>
          have hroom : destination.inbox.count ≠ 2 := by simpa using hfull
          obtain ⟨inbox, hpush⟩ := Inbox.push_of_not_full hroom sent.2
          refine ⟨i, j, source, destination, capabilities, inbox, (rt.scheduler.wake receiver).2,
            ((rt.scheduler.wake receiver).1.mapError .scheduler).map fun _ => sent.1, endpoint', hi,
            rfl, hij, hsource, hd, htransfer, .inr rfl, fun _ => ?_, ?_⟩
          · cases (rt.scheduler.wake receiver).1 <;> simp [Except.mapError, Except.map]
          · simp only [setDomain, Function.update_self, hpush, viaScheduler, Function.update_idem]
            cases (rt.scheduler.wake receiver).1 <;> rfl

theorem deliverIpc_change (hC : CAPS ≤ 2 ^ 32) {rt : TaskRuntime TASKS CAPS} (hrt : rt.Inv)
    (sender receiver : TaskId) (endpoint : Endpoint) (endpointCapability : Capability)
    (payload : List UInt8) (requested : List (Capability × Rights)) :
    rt.Change (rt.exec (.deliverIpc sender receiver endpoint endpointCapability payload requested)) := by
  rw [exec]
  rcases rt.deliverIpc_spec sender receiver endpoint endpointCapability payload requested with
    ⟨error, hne, h⟩ | ⟨i, j, source, destination, capabilities, inbox, scheduler, result, endpoint',
      -, hj, -, -, hd, -, hscheduler, hne, h⟩
  · rw [h]
    exact .rejected hrt hne
  · have hkept : scheduler.Inv ∧ rt.scheduler.Steady scheduler := by
      rcases hscheduler with rfl | rfl
      · exact ⟨hrt.scheduler, .refl _⟩
      · exact (KernelScheduler.wake_spec hrt.scheduler (live_of_domainSlot hrt hj)).2
    rw [h]
    exact Change.edit_to { destination with capabilities, inbox }
      (quiet_map (hne hC) fun _ => ⟨rfl, rfl⟩) hkept.1 hkept.2 hd rfl rfl

/-- `receive_ipc` fails without a change or takes the oldest message. -/
theorem receiveIpc_spec (rt : TaskRuntime TASKS CAPS) (task : TaskId) :
    (rt.domainSlot task = none ∧ rt.receiveIpc task = (.error .missingTask, rt)) ∨
    rt.receiveIpc task = (.error .inboxEmpty, rt) ∨
    ∃ i d message inbox, rt.domains i = some d ∧
      rt.receiveIpc task = (.ok message, rt.setDomain i (some { d with inbox })) := by
  unfold receiveIpc
  rcases rt.domain_cases task with ⟨hs, h⟩ | ⟨i, d, -, hd, -, h⟩
  · rw [h]
    exact .inl ⟨hs, rfl⟩
  · rw [h]
    right
    dsimp only
    split
    · exact .inl rfl
    · next hcount =>
      obtain ⟨message, inbox, hpop⟩ := Inbox.pop_isSome hcount
      rw [hpop]
      exact .inr ⟨i, d, message, inbox, hd, rfl⟩

theorem receiveIpc_change {rt : TaskRuntime TASKS CAPS} (hrt : rt.Inv) (task : TaskId) :
    rt.Change (reply .received (rt.receiveIpc task)) := by
  rcases rt.receiveIpc_spec task with ⟨-, h⟩ | h | ⟨i, d, message, inbox, hd, h⟩
  · rw [h]
    exact .rejected hrt (by decide)
  · rw [h]
    exact .rejected hrt (by decide)
  · rw [h]
    exact setDomain_change hrt hd { d with inbox } rfl
      (quiet_ok (.received message) rfl rfl)

theorem receiveOrBlockCurrent_change (hT : TASKS ≤ 2 ^ 32) {rt : TaskRuntime TASKS CAPS}
    (hrt : rt.Inv) :
    rt.Change (reply (fun received => received.elim .received .scheduled)
      rt.receiveOrBlockCurrent) := by
  unfold receiveOrBlockCurrent
  cases hc : rt.scheduler.current with
  | none => exact .rejected hrt (by decide)
  | some current =>
    dsimp only
    rcases rt.receiveIpc_spec current with ⟨-, h⟩ | h | ⟨i, d, message, inbox, hd, h⟩
    · rw [h]
      exact .rejected hrt (by decide)
    · rw [h]
      have hb := KernelScheduler.blockCurrent_spec hT hrt.scheduler
      have hchange : rt.Change (reply .scheduled (rt.viaScheduler rt.scheduler.blockCurrent)) :=
        viaScheduler_change hb fun _ => ⟨rfl, rfl⟩
      simp only [viaScheduler] at hchange ⊢
      generalize rt.scheduler.blockCurrent = out at hchange ⊢
      obtain ⟨result, scheduler⟩ := out
      cases result <;> exact hchange
    · rw [h]
      exact setDomain_change hrt hd { d with inbox } rfl
        (quiet_ok (.received message) rfl rfl)

/-! ## Whole runs -/

section Runs

variable (hT : TASKS ≤ 2 ^ 32) (hC : CAPS ≤ 2 ^ 32)
include hT hC

/-- Each call changes the two tables together. -/
theorem exec_change {rt : TaskRuntime TASKS CAPS} (hrt : rt.Inv) (op : RuntimeOp CAPS) :
    rt.Change (rt.exec op) := by
  cases op with
  | create priority context => exact create_change hT hrt priority context
  | start => exact start_change hT hrt
  | timerTick =>
    exact viaScheduler_change (KernelScheduler.timerTick_spec hT hrt.scheduler) fun _ => ⟨rfl, rfl⟩
  | preemptCurrent interrupted => exact preemptCurrent_change hT hrt interrupted
  | yieldCurrent =>
    exact viaScheduler_change (KernelScheduler.yieldCurrent_spec hT hrt.scheduler)
      fun _ => ⟨rfl, rfl⟩
  | contextMut task write => exact contextMut_change hrt task write
  | capabilitiesMut task change => exact capabilitiesMut_change hrt task change
  | detachDomain task => exact detachDomain_change hrt task
  | detachDomainForRebalance destination =>
    exact detachDomainForRebalance_change hT hrt destination
  | attachDomain ticket => exact attachDomain_change hT hrt ticket
  | terminateCurrentFault disposition => exact terminateCurrentFault_change hT hrt disposition
  | terminateCurrent => exact terminateCurrent_change hT hrt
  | sendIpc sender receiver endpoint endpointCapability payload requested =>
    exact sendIpc_change hC hrt sender receiver endpoint endpointCapability payload requested
  | deliverIpc sender receiver endpoint endpointCapability payload requested =>
    exact deliverIpc_change hC hrt sender receiver endpoint endpointCapability payload requested
  | receiveIpc task => exact receiveIpc_change hrt task
  | receiveOrBlockCurrent => exact receiveOrBlockCurrent_change hT hrt

theorem step_inv {rt : TaskRuntime TASKS CAPS} (hrt : rt.Inv) (op : RuntimeOp CAPS) :
    (rt.step op).Inv :=
  (exec_change hT hC hrt op).inv hrt

theorem run_inv {rt : TaskRuntime TASKS CAPS} (hrt : rt.Inv) (ops : List (RuntimeOp CAPS)) :
    (run step rt ops).Inv :=
  run_invariant (P := Inv) (fun _ op h => step_inv hT hC h op) hrt ops

theorem run_retired {rt : TaskRuntime TASKS CAPS} (hrt : rt.Inv) {id : TaskId}
    (hid : rt.scheduler.scheduler.Retired id) (ops : List (RuntimeOp CAPS)) :
    (run step rt ops).scheduler.scheduler.Retired id := by
  have h : (run step rt ops).Inv ∧ (run step rt ops).scheduler.scheduler.Retired id :=
    run_invariant
      (P := fun rt : TaskRuntime TASKS CAPS => rt.Inv ∧ rt.scheduler.scheduler.Retired id)
      (fun rt op h => ⟨step_inv hT hC h.1 op, (exec_change hT hC h.1 op).retired h.1 h.2⟩)
      ⟨hrt, hid⟩ ops
  exact h.2

end Runs

/-- A call that names a retired identity fails and changes nothing. -/
theorem exec_retired {rt : TaskRuntime TASKS CAPS} (hrt : rt.Inv) {id : TaskId}
    (hid : rt.scheduler.scheduler.Retired id) {op : RuntimeOp CAPS} (hop : id ∈ op.names) :
    ∃ error, rt.exec op = (.error error, rt) := by
  have hslot := domainSlot_of_retired hrt hid
  have hdom : rt.domain id = none := by simp [domain, hslot]
  have hsend : ∀ {sender receiver : TaskId} (endpoint : Endpoint) (endpointCapability : Capability)
      (payload : List UInt8) (requested : List (Capability × Rights)),
      id = sender ∨ id = receiver → ∃ error,
        rt.sendIpc sender receiver endpoint endpointCapability payload requested =
          (.error error, endpoint, rt) := by
    intro sender receiver endpoint endpointCapability payload requested hmem
    unfold sendIpc
    split
    · exact ⟨_, rfl⟩
    · rcases hmem with rfl | rfl
      · rw [hslot]
        exact ⟨_, rfl⟩
      · cases rt.domainSlot sender with
        | none => exact ⟨_, rfl⟩
        | some i =>
          rw [hslot]
          exact ⟨_, rfl⟩
  cases op with
  | contextMut task write =>
    obtain rfl : id = task := by simpa [RuntimeOp.names] using hop
    exact ⟨.missingTask, by simp [exec, reply, contextMut, hdom, Except.map]⟩
  | capabilitiesMut task change =>
    obtain rfl : id = task := by simpa [RuntimeOp.names] using hop
    exact ⟨.missingTask, by simp [exec, reply, capabilitiesMut, hdom, Except.map]⟩
  | detachDomain task =>
    obtain rfl : id = task := by simpa [RuntimeOp.names] using hop
    exact ⟨.missingTask, by simp [exec, reply, detachDomain, hslot, Except.map]⟩
  | receiveIpc task =>
    obtain rfl : id = task := by simpa [RuntimeOp.names] using hop
    exact ⟨.missingTask, by simp [exec, reply, receiveIpc, hdom, Except.map]⟩
  | sendIpc sender receiver endpoint endpointCapability payload requested =>
    obtain ⟨error, h⟩ := hsend endpoint endpointCapability payload requested
      (by simpa [RuntimeOp.names] using hop)
    exact ⟨error, by rw [exec, h]; rfl⟩
  | deliverIpc sender receiver endpoint endpointCapability payload requested =>
    obtain ⟨error, h⟩ := hsend endpoint endpointCapability payload requested
      (by simpa [RuntimeOp.names] using hop)
    rw [exec, deliverIpc]
    cases rt.domainSlot receiver with
    | none => exact ⟨.missingTask, rfl⟩
    | some j =>
      dsimp only
      rw [h]
      split
      · exact ⟨.inboxFull, rfl⟩
      · exact ⟨error, rfl⟩
  | create _ _ | start | timerTick | preemptCurrent _ | yieldCurrent | detachDomainForRebalance _
  | attachDomain _ | terminateCurrentFault _ | terminateCurrent | receiveOrBlockCurrent =>
    simp [RuntimeOp.names] at hop

theorem new_domains {ticksPerSecond quantumTicks : UInt32} {rt : TaskRuntime TASKS CAPS}
    (h : new TASKS CAPS ticksPerSecond quantumTicks = .ok rt) (i : Fin TASKS) :
    rt.domains i = none := by
  unfold new at h
  split at h
  · cases h
  · cases h
    rfl

theorem new_inv {ticksPerSecond quantumTicks : UInt32} {rt : TaskRuntime TASKS CAPS}
    (h : new TASKS CAPS ticksPerSecond quantumTicks = .ok rt) : rt.Inv := by
  unfold new at h
  cases hk : KernelScheduler.new TASKS ticksPerSecond quantumTicks with
  | error error => rw [hk] at h; cases h
  | ok scheduler =>
    rw [hk] at h
    cases h
    refine ⟨KernelScheduler.new_inv hk, fun x => ?_, ?_⟩
    · simp only [owners, Option.map_none, reduceCtorEq, exists_false, iff_false]
      exact KernelScheduler.new_not_live hk x
    · intro i j x hi
      simp [owners] at hi

/-- `id` is gone for good: no task and no domain carries it, it is not running,
    a call that names it fails and changes nothing, and no call hands it out. -/
structure Gone (rt : TaskRuntime TASKS CAPS) (id : TaskId) : Prop where
  not_live : ¬ rt.scheduler.scheduler.Live id
  no_domain : ∀ i d, rt.domains i = some d → d.task ≠ id
  not_current : rt.scheduler.current ≠ some id
  rejected : ∀ op : RuntimeOp CAPS, id ∈ op.names → ∃ error, rt.exec op = (.error error, rt)
  not_issued : ∀ (op : RuntimeOp CAPS) reply, (rt.exec op).1 = .ok reply → reply.issued ≠ some id

theorem gone_of_retired (hT : TASKS ≤ 2 ^ 32) (hC : CAPS ≤ 2 ^ 32) {rt : TaskRuntime TASKS CAPS}
    (hrt : rt.Inv) {id : TaskId} (hid : rt.scheduler.scheduler.Retired id) : rt.Gone id := by
  have hdead : ¬ rt.scheduler.scheduler.Live id := fun hlive =>
    hlive.not_retired hrt.scheduler.nonzeroLive hid
  refine ⟨hdead, ?_, ?_, fun op hop => exec_retired hrt hid hop, ?_⟩
  · rintro i d hd rfl
    exact hdead ((hrt.names.live_iff _).mpr ⟨i, owners_eq_some.mpr ⟨d, hd, rfl⟩⟩)
  · exact fun hc => hdead (hrt.scheduler.current id hc).live
  · exact fun op reply hok => (exec_change hT hC hrt op).issued_not_retired hrt hok hid

/-- **Main theorem.** In every runtime reached from the empty one: each live
    identity has exactly one domain and each domain a live identity, the current
    task is live and runnable, no call reports an integrity failure, and what a
    call removes is gone after every further run. -/
theorem runtime_integrity (hT : TASKS ≤ 2 ^ 32) (hC : CAPS ≤ 2 ^ 32)
    {ticksPerSecond quantumTicks : UInt32} {rt₀ : TaskRuntime TASKS CAPS}
    (hnew : new TASKS CAPS ticksPerSecond quantumTicks = .ok rt₀) (ops : List (RuntimeOp CAPS))
    {rt : TaskRuntime TASKS CAPS} (hrun : rt = run step rt₀ ops) :
    (∀ id, rt.scheduler.scheduler.Live id →
      ∃! i, ∃ d, rt.domains i = some d ∧ d.task = id) ∧
    (∀ i d, rt.domains i = some d → rt.scheduler.scheduler.Live d.task) ∧
    (∀ id, rt.scheduler.current = some id → rt.scheduler.scheduler.Runnable id) ∧
    (∀ op, (rt.exec op).1 ≠ .error .integrityFailure) ∧
    ∀ op reply id, (rt.exec op).1 = .ok reply → reply.removed = some id →
      ∀ later, (run step (rt.step op) later).Gone id := by
  have hinv : rt.Inv := hrun ▸ run_inv hT hC (new_inv hnew) ops
  refine ⟨?_, ?_, hinv.scheduler.current, ?_, ?_⟩
  · intro id hid
    obtain ⟨i, hi⟩ := (hinv.names.live_iff id).mp hid
    exact ⟨i, owners_eq_some.mp hi, fun j hj => hinv.names.unique (owners_eq_some.mpr hj) hi⟩
  · exact fun i d hd => (hinv.names.live_iff _).mpr ⟨i, owners_eq_some.mpr ⟨d, hd, rfl⟩⟩
  · exact fun op => (exec_change hT hC hinv op).not_integrityFailure
  · intro op reply id hok hid later
    have hinv' := step_inv hT hC hinv op
    have hret := (exec_change hT hC hinv op).removed_retired hok hid
    exact gone_of_retired hT hC (run_inv hT hC hinv' later) (run_retired hT hC hinv' hret later)

/-- A user context with the given page table root. -/
def contextAt (pageTable : UInt64) : UserContext := ⟨fun _ => 0, 0x400000, 0x7000, 0x202, pageTable⟩

/-- Two tasks are created and the first one runs. -/
def twoTasks : List (RuntimeOp 2) :=
  [.create .normal (contextAt 0x1000), .create .normal (contextAt 0x2000), .start]

theorem runtime_integrity_twoTasks : ∃ rt₀ : TaskRuntime 2 2, new 2 2 1000 1 = .ok rt₀ ∧
    ((run step rt₀ twoTasks).exec .terminateCurrent).1 =
      .ok (.terminated ⟨⟨0, 1⟩, .switch (some ⟨0, 1⟩) ⟨1, 1⟩⟩) ∧
    ∀ later, (run step ((run step rt₀ twoTasks).step .terminateCurrent) later).Gone ⟨0, 1⟩ :=
  ⟨⟨⟨Scheduler.new 2, none, 0, 1, 1⟩, fun _ => none⟩, rfl, rfl,
    (runtime_integrity (by decide) (by decide) (show new 2 2 1000 1 = .ok _ from rfl) twoTasks rfl).2.2.2.2 .terminateCurrent _ _ rfl rfl⟩

end TaskRuntime

end Mrml.Kernel
