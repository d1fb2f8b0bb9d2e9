import Mrml.Common.Ledger
import Mrml.Kernel.Balancer
import Mrml.Kernel.RuntimeInvariant

/-!
# Migration between CPUs

A system of CPUs, each with its own task runtime and domain balancer, that hand
over complete protection domains through shared mailboxes. A CPU runs one call
at a time; the atomic steps of its `publish` and `take` interleave with the
steps of the other CPUs in any order. A ticket that no runtime, mailbox or
balancer owns is in a variable of the caller or in the call that is under way.

Results:
* `step_inv`: the atomic state of a mailbox keeps its cell exclusive.
* `step_effect`: every step moves at most one domain, and none is copied.
* `domain_in_one_place`: over every run, each domain that was created and not
  terminated is in exactly one place, and failed hand-overs change nothing.
-/

namespace Mrml.Kernel

open TaskRuntime

/-- What migrates with a protection domain: its context, its capability space
    and its queued messages. The identity is replaced by `attach_domain`. -/
structure Body (CAPS : ℕ) where
  context : UserContext
  capabilities : CapabilitySpace CAPS
  inbox : Inbox

/-- The part of a domain that migrates. -/
def TaskDomain.body {CAPS : ℕ} (d : TaskDomain CAPS) : Body CAPS :=
  ⟨d.context, d.capabilities, d.inbox⟩

/-- A runtime call that neither detaches nor attaches a domain. -/
def TaskRuntime.RuntimeOp.isLocal {CAPS : ℕ} : RuntimeOp CAPS → Bool
  | .detachDomain _ | .detachDomainForRebalance _ | .attachDomain _ => false
  | _ => true

namespace Migration

variable {CPUS TASKS CAPS BOXES : ℕ}

/-- Where `publish` gives the ticket back when the mailbox is occupied. -/
inductive Origin (CPUS : ℕ)
  | pending (target : BalanceTarget CPUS)
  | caller (v : ℕ)

/-- The call under way on a CPU, between two of its atomic steps. -/
inductive Phase (CPUS CAPS BOXES : ℕ)
  | idle
  /-- `publish(ticket)` was entered. -/
  | offering (m : Fin BOXES) (origin : Origin CPUS) (ticket : DetachedTaskDomain CAPS)
  /-- The exchange EMPTY → WRITING succeeded. -/
  | writing (m : Fin BOXES) (ticket : DetachedTaskDomain CAPS)
  /-- The ticket is in the cell; FULL is not stored yet. -/
  | committing (m : Fin BOXES)
  /-- `take()` into variable `v`: the exchange FULL → READING succeeded. -/
  | reading (m : Fin BOXES) (v : ℕ)
  /-- The ticket was read; EMPTY is not stored yet. -/
  | releasing (m : Fin BOXES) (v : ℕ) (ticket : DetachedTaskDomain CAPS)

/-- One CPU: what it owns and the call it is in. -/
structure Cpu (CPUS TASKS CAPS BOXES : ℕ) where
  runtime : TaskRuntime TASKS CAPS
  balancer : PeriodicDomainBalancer CPUS CAPS
  held : ℕ → Option (DetachedTaskDomain CAPS)
  phase : Phase CPUS CAPS BOXES

/-- The CPUs and the mailboxes they share. -/
structure System (CPUS TASKS CAPS BOXES : ℕ) where
  cpus : Fin CPUS → Cpu CPUS TASKS CAPS BOXES
  mailboxes : Fin BOXES → OwnershipMailbox (DetachedTaskDomain CAPS)

/-- A call that a CPU makes. A variable that receives a ticket must be free:
    overwriting one would be the caller dropping a domain. -/
inductive Call (CPUS CAPS BOXES : ℕ)
  | runtime (op : RuntimeOp CAPS) (h : op.isLocal = true)
  | detachDomain (task : TaskId) (v : ℕ)
  | attachDomain (v : ℕ)
  | publish (v : ℕ) (m : Fin BOXES)
  | take (m : Fin BOXES) (v : ℕ)
  | pollAndPublish (tick : UInt64) (localCpu : ℕ) (loads : Fin CPUS → SchedulerLoad)
      (mailboxes : Fin CPUS → Fin BOXES)
  | timerTickAndPublish (localCpu : ℕ) (loads : Fin CPUS → SchedulerLoad)
      (mailboxes : Fin CPUS → Fin BOXES)

/-- A step of the system: a CPU enters a call, or takes the next atomic step of
    the call it is in. -/
inductive SystemOp (CPUS CAPS BOXES : ℕ)
  | enter (c : Fin CPUS) (call : Call CPUS CAPS BOXES)
  | resume (c : Fin CPUS)

namespace System

/-- `cpus[c] = cpu`. -/
def setCpu (s : System CPUS TASKS CAPS BOXES) (c : Fin CPUS) (cpu : Cpu CPUS TASKS CAPS BOXES) :
    System CPUS TASKS CAPS BOXES :=
  { s with cpus := Function.update s.cpus c cpu }

/-- `mailboxes[m] = mailbox`. -/
def setMailbox (s : System CPUS TASKS CAPS BOXES) (m : Fin BOXES)
    (mailbox : OwnershipMailbox (DetachedTaskDomain CAPS)) : System CPUS TASKS CAPS BOXES :=
  { s with mailboxes := Function.update s.mailboxes m mailbox }

end System

/-- `cpu` enters `publish` with what the balancer decided to publish, if anything. -/
def Cpu.offer (cpu : Cpu CPUS TASKS CAPS BOXES) (mailboxes : Fin CPUS → Fin BOXES)
    (out : Except DomainBalanceError (Option (BalanceTarget CPUS × DetachedTaskDomain CAPS)) ×
      PeriodicDomainBalancer CPUS CAPS × TaskRuntime TASKS CAPS) : Cpu CPUS TASKS CAPS BOXES :=
  match out with
  | (.ok (some (target, ticket)), balancer, runtime) =>
    { cpu with
      runtime, balancer, phase := .offering (mailboxes target.cpu) (.pending target) ticket }
  | (_, balancer, runtime) => { cpu with runtime, balancer }

/-- An idle CPU `c` enters `call` and runs to the next atomic step. -/
def System.enter (s : System CPUS TASKS CAPS BOXES) (c : Fin CPUS) :
    Call CPUS CAPS BOXES → System CPUS TASKS CAPS BOXES
  | .runtime op _ => s.setCpu c { s.cpus c with runtime := ((s.cpus c).runtime.exec op).2 }
  | .detachDomain task v =>
    if ((s.cpus c).held v).isSome then s
    else
      match (s.cpus c).runtime.detachDomain task with
      | (.error _, runtime) => s.setCpu c { s.cpus c with runtime }
      | (.ok ticket, runtime) =>
        s.setCpu c { s.cpus c with
          runtime, held := Function.update (s.cpus c).held v (some ticket) }
  | .attachDomain v =>
    let (_, ticket, runtime) := (s.cpus c).runtime.attachDomain ((s.cpus c).held v)
    s.setCpu c { s.cpus c with runtime, held := Function.update (s.cpus c).held v ticket }
  | .publish v m =>
    match (s.cpus c).held v with
    | none => s
    | some ticket =>
      s.setCpu c { s.cpus c with
        held := Function.update (s.cpus c).held v none, phase := .offering m (.caller v) ticket }
  | .take m v =>
    if ((s.cpus c).held v).isSome ∨ (s.mailboxes m).state ≠ .full then s
    else
      (s.setMailbox m { s.mailboxes m with state := .reading }).setCpu c
        { s.cpus c with phase := .reading m v }
  | .pollAndPublish tick localCpu loads mailboxes =>
    s.setCpu c ((s.cpus c).offer mailboxes
      ((s.cpus c).balancer.poll tick localCpu loads (s.cpus c).runtime))
  | .timerTickAndPublish localCpu loads mailboxes =>
    s.setCpu c ((s.cpus c).offer mailboxes
      ((s.cpus c).balancer.timerTick localCpu loads (s.cpus c).runtime))

/-- The ticket goes back to where `publish` got it from. -/
def Cpu.giveBack (cpu : Cpu CPUS TASKS CAPS BOXES) (ticket : DetachedTaskDomain CAPS) :
    Origin CPUS → Cpu CPUS TASKS CAPS BOXES
  | .pending target =>
    { cpu with phase := .idle, balancer := { cpu.balancer with pending := some (target, ticket) } }
  | .caller v => { cpu with phase := .idle, held := Function.update cpu.held v (some ticket) }

/-- The next atomic step of the call that CPU `c` is in (`scheduler.rs`, lines
    264–299). Reading an uninitialized cell is undefined; here the call stops. -/
def System.resume (s : System CPUS TASKS CAPS BOXES) (c : Fin CPUS) :
    System CPUS TASKS CAPS BOXES :=
  match (s.cpus c).phase with
  | .idle => s
  | .offering m origin ticket =>
    if (s.mailboxes m).state = .empty then
      (s.setMailbox m { s.mailboxes m with state := .writing }).setCpu c
        { s.cpus c with phase := .writing m ticket }
    else s.setCpu c ((s.cpus c).giveBack ticket origin)
  | .writing m ticket =>
    (s.setMailbox m { s.mailboxes m with task := some ticket }).setCpu c
      { s.cpus c with phase := .committing m }
  | .committing m =>
    (s.setMailbox m { s.mailboxes m with state := .full }).setCpu c { s.cpus c with phase := .idle }
  | .reading m v =>
    match (s.mailboxes m).task with
    | none => s
    | some ticket => s.setCpu c { s.cpus c with phase := .releasing m v ticket }
  | .releasing m v ticket =>
    (s.setMailbox m { s.mailboxes m with state := .empty }).setCpu c
      { s.cpus c with phase := .idle, held := Function.update (s.cpus c).held v (some ticket) }

/-- One step. A CPU that is in a call enters no other. -/
def System.step (s : System CPUS TASKS CAPS BOXES) :
    SystemOp CPUS CAPS BOXES → System CPUS TASKS CAPS BOXES
  | .enter c call =>
    match (s.cpus c).phase with
    | .idle => s.enter c call
    | _ => s
  | .resume c => s.resume c

/-- Empty runtimes, nothing pending, nothing held, empty mailboxes. -/
structure System.Initial (s : System CPUS TASKS CAPS BOXES) : Prop where
  runtime : ∀ c, ∃ ticksPerSecond quantumTicks,
    TaskRuntime.new TASKS CAPS ticksPerSecond quantumTicks = .ok (s.cpus c).runtime
  balancer : ∀ c, ∃ startTick intervalTicks,
    PeriodicDomainBalancer.new CPUS CAPS startTick intervalTicks = .ok (s.cpus c).balancer
  held : ∀ c v, (s.cpus c).held v = none
  phase : ∀ c, (s.cpus c).phase = .idle
  mailboxes : ∀ m, s.mailboxes m = OwnershipMailbox.new _

/-! ## Places -/

/-- Where a domain can be. `flight c` is the ticket of the call that CPU `c` is in. -/
inductive Place (CPUS TASKS BOXES : ℕ)
  | runtime (c : Fin CPUS) (i : Fin TASKS)
  | mailbox (m : Fin BOXES)
  | pending (c : Fin CPUS)
  | held (c : Fin CPUS) (v : ℕ)
  | flight (c : Fin CPUS)
deriving DecidableEq

/-- The ticket of the call under way. From the write of the cell until FULL is
    stored, and from the exchange to READING until the read, it is in the cell. -/
def Phase.ticket (mailboxes : Fin BOXES → OwnershipMailbox (DetachedTaskDomain CAPS)) :
    Phase CPUS CAPS BOXES → Option (DetachedTaskDomain CAPS)
  | .idle => none
  | .offering _ _ ticket => some ticket
  | .writing _ ticket => some ticket
  | .committing m => (mailboxes m).task
  | .reading m _ => (mailboxes m).task
  | .releasing _ _ ticket => some ticket

/-- The domain in each place. -/
def System.contents (s : System CPUS TASKS CAPS BOXES) : Place CPUS TASKS BOXES → Option (Body CAPS)
  | .runtime c i => ((s.cpus c).runtime.domains i).map TaskDomain.body
  | .mailbox m =>
    if (s.mailboxes m).state = .full then (s.mailboxes m).task.map fun t => t.domain.body else none
  | .pending c => (s.cpus c).balancer.pending.map fun p => p.2.domain.body
  | .held c v => ((s.cpus c).held v).map fun t => t.domain.body
  | .flight c => ((s.cpus c).phase.ticket s.mailboxes).map fun t => t.domain.body

/-- What a runtime call is seen to do: only a successful `create` creates a
    domain and only a successful termination ends one. -/
def resultEvent : Except TaskRuntimeError (RuntimeReply CAPS) → Event
  | .ok (.created _) => .created
  | .ok (.terminated _) => .terminated
  | .ok (.faulted _) => .terminated
  | _ => .edited

/-- What a step is seen to do: a local runtime call creates, ends or changes a
    domain where it is, and everything else only hands domains over. -/
def System.event (s : System CPUS TASKS CAPS BOXES) : SystemOp CPUS CAPS BOXES → Event
  | .enter c (.runtime op _) =>
    match (s.cpus c).phase with
    | .idle => resultEvent ((s.cpus c).runtime.exec op).1
    | _ => .edited
  | _ => .moved

/-! ## The mailbox protocol -/

/-- The mailbox that a call has claimed, and the state that says so. -/
def Phase.claim : Phase CPUS CAPS BOXES → Option (Fin BOXES × MailboxState)
  | .writing m _ => some (m, .writing)
  | .committing m => some (m, .writing)
  | .reading m _ => some (m, .reading)
  | .releasing m _ _ => some (m, .reading)
  | _ => none

/-- The place that the ticket came from, or goes to, is free meanwhile. -/
def Cpu.Vacant (cpu : Cpu CPUS TASKS CAPS BOXES) : Prop :=
  match cpu.phase with
  | .offering _ (.pending _) _ => cpu.balancer.pending = none
  | .offering _ (.caller v) _ => cpu.held v = none
  | .reading _ v => cpu.held v = none
  | .releasing _ v _ => cpu.held v = none
  | _ => True

/-- The origin of a ticket has it back. -/
def Cpu.Returned (cpu : Cpu CPUS TASKS CAPS BOXES) (ticket : DetachedTaskDomain CAPS) :
    Origin CPUS → Prop
  | .pending target => cpu.balancer.pending = some (target, ticket)
  | .caller v => cpu.held v = some ticket

/-- A claimed mailbox has one claimant and the matching state, and every cell
    that will be read holds a ticket. -/
structure System.Inv (s : System CPUS TASKS CAPS BOXES) : Prop where
  runtime : ∀ c, (s.cpus c).runtime.Inv
  claimed : ∀ {c m state}, (s.cpus c).phase.claim = some (m, state) → (s.mailboxes m).state = state
  exclusive : ∀ {c c' m state state'}, (s.cpus c).phase.claim = some (m, state) →
    (s.cpus c').phase.claim = some (m, state') → c = c'
  filled : ∀ m, (s.mailboxes m).state = .full → (s.mailboxes m).task.isSome
  loaded : ∀ c, (s.cpus c).phase ≠ .idle → ((s.cpus c).phase.ticket s.mailboxes).isSome
  vacant : ∀ c, (s.cpus c).Vacant

namespace System

variable {s : System CPUS TASKS CAPS BOXES} {c c' : Fin CPUS} {m m' : Fin BOXES}

@[simp] theorem setCpu_self (cpu : Cpu CPUS TASKS CAPS BOXES) : (s.setCpu c cpu).cpus c = cpu := by
  simp [setCpu]

@[simp] theorem setCpu_of_ne (cpu : Cpu CPUS TASKS CAPS BOXES) (h : c' ≠ c) :
    (s.setCpu c cpu).cpus c' = s.cpus c' := by
  simp [setCpu, h]

@[simp] theorem setCpu_mailboxes (cpu : Cpu CPUS TASKS CAPS BOXES) :
    (s.setCpu c cpu).mailboxes = s.mailboxes := rfl

@[simp] theorem setMailbox_cpus (mailbox : OwnershipMailbox (DetachedTaskDomain CAPS)) :
    (s.setMailbox m mailbox).cpus = s.cpus := rfl

@[simp] theorem setMailbox_self (mailbox : OwnershipMailbox (DetachedTaskDomain CAPS)) :
    (s.setMailbox m mailbox).mailboxes m = mailbox := by
  simp [setMailbox]

@[simp] theorem setMailbox_of_ne (mailbox : OwnershipMailbox (DetachedTaskDomain CAPS))
    (h : m' ≠ m) : (s.setMailbox m mailbox).mailboxes m' = s.mailboxes m' := by
  simp [setMailbox, h]

theorem claim_state {phase : Phase CPUS CAPS BOXES} {state : MailboxState}
    (h : phase.claim = some (m, state)) : state = .writing ∨ state = .reading := by
  cases phase <;> simp [Phase.claim] at h <;> simp [← h.2]

/-- A mailbox in state EMPTY or FULL has no claimant. -/
theorem Inv.unclaimed (hs : s.Inv) (h : (s.mailboxes m).state = .empty ∨ (s.mailboxes m).state = .full)
    (c : Fin CPUS) (state : MailboxState) : (s.cpus c).phase.claim ≠ some (m, state) := by
  intro hc
  have hstate := hs.claimed hc
  rcases claim_state hc with rfl | rfl <;> rcases h with h | h <;> rw [h] at hstate <;> cases hstate

/-- A step of CPU `c` that touches no mailbox and claims none. -/
theorem Inv.setCpu (hs : s.Inv) {cpu : Cpu CPUS TASKS CAPS BOXES} (hruntime : cpu.runtime.Inv)
    (hclaim : cpu.phase.claim = none ∨ cpu.phase.claim = (s.cpus c).phase.claim)
    (hloaded : cpu.phase ≠ .idle → (cpu.phase.ticket s.mailboxes).isSome) (hvacant : cpu.Vacant) :
    (s.setCpu c cpu).Inv := by
  have hold : ∀ {c' m state}, ((s.setCpu c cpu).cpus c').phase.claim = some (m, state) →
      (s.cpus c').phase.claim = some (m, state) := by
    intro c' m state h
    rcases eq_or_ne c' c with rfl | hne
    · rw [setCpu_self] at h
      rcases hclaim with h' | h'
      · rw [h] at h'
        cases h'
      · rw [← h', h]
    · rwa [setCpu_of_ne _ hne] at h
  refine ⟨fun c' => ?_, fun h => hs.claimed (hold h), fun h h' => hs.exclusive (hold h) (hold h'),
    hs.filled, fun c' h => ?_, fun c' => ?_⟩
  · rcases eq_or_ne c' c with rfl | hne
    · rwa [setCpu_self]
    · rw [setCpu_of_ne _ hne]
      exact hs.runtime c'
  · rcases eq_or_ne c' c with rfl | hne
    · rw [setCpu_self] at h ⊢
      exact hloaded h
    · rw [setCpu_of_ne _ hne] at h ⊢
      exact hs.loaded c' h
  · rcases eq_or_ne c' c with rfl | hne
    · rwa [setCpu_self]
    · rw [setCpu_of_ne _ hne]
      exact hs.vacant c'

/-- A step of CPU `c` on a mailbox that no other CPU has claimed. -/
theorem Inv.setMailbox (hs : s.Inv)
    (halone : ∀ c' state, (s.cpus c').phase.claim = some (m, state) → c' = c)
    {mailbox : OwnershipMailbox (DetachedTaskDomain CAPS)} {cpu : Cpu CPUS TASKS CAPS BOXES}
    (hruntime : cpu.runtime.Inv)
    (hclaim : cpu.phase.claim = none ∨ cpu.phase.claim = some (m, mailbox.state))
    (hfilled : mailbox.state = .full → mailbox.task.isSome)
    (hloaded : cpu.phase ≠ .idle →
      (cpu.phase.ticket (s.setMailbox m mailbox).mailboxes).isSome) (hvacant : cpu.Vacant) :
    ((s.setMailbox m mailbox).setCpu c cpu).Inv := by
  -- the claims of the other CPUs are on other mailboxes
  have hother : ∀ {c' m' state}, c' ≠ c → (s.cpus c').phase.claim = some (m', state) → m' ≠ m := by
    rintro c' m' state hne h rfl
    exact hne (halone c' state h)
  have hself : ∀ {m' state}, cpu.phase.claim = some (m', state) → m' = m ∧ state = mailbox.state := by
    intro m' state h
    rcases hclaim with h' | h' <;> rw [h'] at h <;> cases h
    exact ⟨rfl, rfl⟩
  refine ⟨fun c' => ?_, fun {c' m' state} h => ?_, fun {c₁ c₂ m' st st'} h h' => ?_, fun m' h => ?_,
    fun c' h => ?_, fun c' => ?_⟩
  · rcases eq_or_ne c' c with rfl | hne
    · rwa [setCpu_self]
    · rw [setCpu_of_ne _ hne]
      exact hs.runtime c'
  · rw [setCpu_mailboxes]
    rcases eq_or_ne c' c with rfl | hne
    · rw [setCpu_self] at h
      obtain ⟨rfl, rfl⟩ := hself h
      rw [setMailbox_self]
    · rw [setCpu_of_ne _ hne, setMailbox_cpus] at h
      rw [setMailbox_of_ne _ (hother hne h)]
      exact hs.claimed h
  · rcases eq_or_ne c₁ c with rfl | hne
    · rw [setCpu_self] at h
      obtain ⟨rfl, rfl⟩ := hself h
      rcases eq_or_ne c₂ c₁ with rfl | hne'
      · rfl
      · rw [setCpu_of_ne _ hne', setMailbox_cpus] at h'
        exact absurd rfl (hother hne' h')
    · rw [setCpu_of_ne _ hne, setMailbox_cpus] at h
      rcases eq_or_ne c₂ c with rfl | hne'
      · rw [setCpu_self] at h'
        exact absurd (hself h').1 (hother hne h)
      · rw [setCpu_of_ne _ hne', setMailbox_cpus] at h'
        exact hs.exclusive h h'
  · rw [setCpu_mailboxes] at h ⊢
    rcases eq_or_ne m' m with rfl | hne
    · rw [setMailbox_self] at h ⊢
      exact hfilled h
    · rw [setMailbox_of_ne _ hne] at h ⊢
      exact hs.filled m' h
  · rcases eq_or_ne c' c with rfl | hne
    · rw [setCpu_self] at h ⊢
      exact hloaded h
    · rw [setCpu_of_ne _ hne, setMailbox_cpus] at h ⊢
      have hl := hs.loaded c' h
      cases hp : (s.cpus c').phase with
      | committing m' =>
        rw [hp] at hl
        have hne' : m' ≠ m := hother hne (by rw [hp]; rfl)
        simpa [Phase.ticket, hne'] using hl
      | reading m' v =>
        rw [hp] at hl
        have hne' : m' ≠ m := hother hne (by rw [hp]; rfl)
        simpa [Phase.ticket, hne'] using hl
      | idle => exact absurd hp h
      | offering | writing | releasing => rfl
  · rcases eq_or_ne c' c with rfl | hne
    · rwa [setCpu_self]
    · rw [setCpu_of_ne _ hne]
      exact hs.vacant c'

/-! ## Each step has one effect -/

/-- `s'` keeps the protocol and differs from `s` by one effect of `event`. -/
structure Steps (s s' : System CPUS TASKS CAPS BOXES) (event : Event) : Prop where
  inv : s'.Inv
  effect : ∃ e : Effect (Place CPUS TASKS BOXES) (Body CAPS),
    e.Within event ∧ e.Legal s.contents ∧ s'.contents = e.apply s.contents

/-- Nothing moves. -/
theorem Steps.stay {s' : System CPUS TASKS CAPS BOXES} {event : Event} (hs' : s'.Inv)
    (hevent : event = .edited ∨ event = .moved) (h : s'.contents = s.contents) :
    s.Steps s' event :=
  ⟨hs', .stay, hevent, trivial, h⟩

/-- One domain moves. -/
theorem Steps.move {s' : System CPUS TASKS CAPS BOXES} (hs' : s'.Inv)
    {p q : Place CPUS TASKS BOXES} (hp : (s.contents p).isSome) (hq : s.contents q = none)
    (h : ∀ r, s'.contents r = if r = q then s.contents p else if r = p then none else s.contents r) :
    s.Steps s' .moved := by
  refine ⟨hs', .move p q, rfl, ⟨hp, hq⟩, funext fun r => ?_⟩
  simp only [h, Effect.apply, Function.update_apply]

/-- The places of CPU `c` after a step that touches only CPU `c`. -/
theorem contents_setCpu (cpu : Cpu CPUS TASKS CAPS BOXES) (p : Place CPUS TASKS BOXES) :
    (s.setCpu c cpu).contents p =
      match p with
      | .runtime c' i =>
        if c' = c then (cpu.runtime.domains i).map TaskDomain.body else s.contents (.runtime c' i)
      | .mailbox m => s.contents (.mailbox m)
      | .pending c' =>
        if c' = c then cpu.balancer.pending.map fun p => p.2.domain.body
        else s.contents (.pending c')
      | .held c' v =>
        if c' = c then (cpu.held v).map fun t => t.domain.body else s.contents (.held c' v)
      | .flight c' =>
        if c' = c then (cpu.phase.ticket s.mailboxes).map fun t => t.domain.body
        else s.contents (.flight c') := by
  cases p with
  | mailbox m => rfl
  | runtime c' i | pending c' | held c' v | flight c' =>
    rcases eq_or_ne c' c with rfl | hne
    · simp [contents]
    · simp [contents, hne]

theorem contents_setRuntime_eq {runtime : TaskRuntime TASKS CAPS}
    (h : runtime.domains = (s.cpus c).runtime.domains) :
    (s.setCpu c { s.cpus c with runtime }).contents = s.contents := by
  funext p
  rw [contents_setCpu]
  cases p with
  | mailbox m => rfl
  | runtime c' i | pending c' | held c' v | flight c' =>
    rcases eq_or_ne c' c with rfl | hne
    · simp [contents, h]
    · simp [hne]

/-- One domain of CPU `c` changes. -/
theorem contents_setRuntime_update {runtime : TaskRuntime TASKS CAPS} {i : Fin TASKS}
    {d : Option (TaskDomain CAPS)}
    (h : runtime.domains = Function.update (s.cpus c).runtime.domains i d) :
    (s.setCpu c { s.cpus c with runtime }).contents =
      Function.update s.contents (.runtime c i) (d.map TaskDomain.body) := by
  funext p
  rw [contents_setCpu]
  cases p with
  | mailbox m => simp
  | runtime c' j =>
    rcases eq_or_ne c' c with rfl | hne
    · rcases eq_or_ne j i with rfl | hij
      · simp [h]
      · simp [h, hij, contents]
    · simp [hne]
  | pending c' | held c' v | flight c' =>
    rcases eq_or_ne c' c with rfl | hne
    · simp [contents]
    · simp [hne]

theorem map_eq_ok {α β ε : Type} {f : α → β} {r : Except ε α} {b : β} (h : r.map f = .ok b) :
    ∃ a, f a = b := by
  cases r with
  | error e => cases h
  | ok a => exact ⟨a, Except.ok.inj h⟩

/-- The replies of a local call. -/
theorem reply_of_isLocal {rt : TaskRuntime TASKS CAPS} {op : RuntimeOp CAPS}
    (hop : op.isLocal = true) {reply : RuntimeReply CAPS} (h : (rt.exec op).1 = .ok reply) :
    (∀ ticket, reply ≠ .detached ticket) ∧ ∀ migration, reply ≠ .attached migration := by
  cases op with
  | detachDomain | detachDomainForRebalance | attachDomain => cases hop
  | start =>
    cases h
    simp
  | receiveOrBlockCurrent =>
    obtain ⟨a, rfl⟩ := map_eq_ok h
    cases a <;> simp
  | create | timerTick | preemptCurrent | yieldCurrent | contextMut | capabilitiesMut
  | terminateCurrentFault | terminateCurrent | sendIpc | deliverIpc | receiveIpc =>
    obtain ⟨a, rfl⟩ := map_eq_ok h
    simp

theorem resultEvent_of_quiet {result : Except TaskRuntimeError (RuntimeReply CAPS)}
    (h : Quiet result) : resultEvent result = .edited := by
  cases result with
  | error error => rfl
  | ok reply =>
    obtain ⟨hissued, hremoved⟩ := h.2 reply rfl
    cases reply with
    | created => cases hissued
    | terminated | faulted => cases hremoved
    | scheduled | written | detached | balanced | attached | sent | delivered | received => rfl

/-- A local runtime call. -/
theorem enter_runtime (hT : TASKS ≤ 2 ^ 32) (hC : CAPS ≤ 2 ^ 32) (hs : s.Inv)
    (hidle : (s.cpus c).phase = .idle) (op : RuntimeOp CAPS) (hop : op.isLocal = true) :
    s.Steps (s.enter c (.runtime op hop)) (resultEvent ((s.cpus c).runtime.exec op).1) := by
  have hchange := exec_change hT hC (hs.runtime c) op
  have hlocal := fun reply (h : ((s.cpus c).runtime.exec op).1 = .ok reply) =>
    reply_of_isLocal hop h
  have hinv : (s.enter c (.runtime op hop)).Inv := by
    refine hs.setCpu (hchange.inv (hs.runtime c)) (.inr rfl) (hs.loaded c) ?_
    simp only [Cpu.Vacant, hidle]
  refine ⟨hinv, ?_⟩
  rw [enter]
  generalize (s.cpus c).runtime.exec op = out at *
  cases hchange with
  | keep quiet scheduler steady domains =>
    exact ⟨.stay, .inl (resultEvent_of_quiet quiet), trivial, contents_setRuntime_eq domains⟩
  | @edit _ _ i d d' quiet scheduler steady old task domains =>
    exact ⟨.edit (.runtime c i) d'.body, resultEvent_of_quiet quiet,
      by simp [Effect.Legal, contents, old], contents_setRuntime_update domains⟩
  | @enrol reply _ i d issued removed scheduler created free domains =>
    refine ⟨.spawn (.runtime c i) d.body, ?_, by simp [Effect.Legal, contents, free],
      contents_setRuntime_update domains⟩
    cases reply with
    | created => rfl
    | attached migration => exact absurd rfl ((hlocal _ rfl).2 migration)
    | scheduled | written | detached | balanced | terminated | faulted | sent | delivered
    | received => cases issued
  | @retire reply _ i d issued removed scheduler gone old domains =>
    refine ⟨.kill (.runtime c i), ?_, by simp [Effect.Legal, contents, old],
      contents_setRuntime_update domains⟩
    cases reply with
    | terminated | faulted => rfl
    | detached ticket => exact absurd rfl ((hlocal _ rfl).1 ticket)
    | created | scheduled | written | balanced | attached | sent | delivered | received =>
      cases removed

theorem enter_detachDomain (hs : s.Inv) (hidle : (s.cpus c).phase = .idle) (task : TaskId) (v : ℕ) :
    s.Steps (s.enter c (.detachDomain task v)) .moved := by
  rw [enter]
  split_ifs with hv
  · exact .stay hs (.inr rfl) rfl
  · rw [Option.not_isSome_iff_eq_none] at hv
    rcases detachDomain_spec (hs.runtime c) task with
      ⟨error, -, h⟩ | ⟨i, d, state, priority, scheduler, -, hd, rfl, hinv, hremoved, h⟩
    · rw [h]
      exact .stay (hs.setCpu (hs.runtime c) (.inr rfl) (hs.loaded c) (hs.vacant c)) (.inr rfl)
        (contents_setRuntime_eq rfl)
    · have hchange := detachDomain_change (hs.runtime c) d.task
      rw [h] at hchange ⊢
      refine .move (p := .runtime c i) (q := .held c v)
        (hs.setCpu (hchange.inv (hs.runtime c)) (.inr rfl) (hs.loaded c)
          (by simp only [Cpu.Vacant, hidle])) (by simp [contents, hd]) (by simp [contents, hv])
        fun r => ?_
      rw [contents_setCpu]
      cases r with
      | mailbox m => simp
      | runtime c' j =>
        rcases eq_or_ne c' c with rfl | hne
        · rcases eq_or_ne j i with rfl | hij
          · simp [setDomain]
          · simp [setDomain, hij, contents]
        · simp [hne]
      | held c' v' =>
        rcases eq_or_ne c' c with rfl | hne
        · rcases eq_or_ne v' v with rfl | hv'
          · simp [contents, hd]
          · simp [hv', contents]
        · simp [hne]
      | pending c' | flight c' =>
        rcases eq_or_ne c' c with rfl | hne
        · simp [contents]
        · simp [hne]

theorem enter_attachDomain (hT : TASKS ≤ 2 ^ 32) (hs : s.Inv) (hidle : (s.cpus c).phase = .idle)
    (v : ℕ) : s.Steps (s.enter c (.attachDomain v)) .moved := by
  rw [enter]
  have hchange := attachDomain_change hT (hs.runtime c) ((s.cpus c).held v)
  rw [exec] at hchange
  rcases attachDomain_spec hT (hs.runtime c) ((s.cpus c).held v) with
    ⟨error, -, h⟩ | ⟨t, i, migration, scheduler, ht, hi, hinv, hcreated, h⟩
  · rw [h]
    dsimp only
    rw [Function.update_eq_self]
    exact .stay (hs.setCpu (hs.runtime c) (.inr rfl) (hs.loaded c) (hs.vacant c)) (.inr rfl)
      (contents_setRuntime_eq rfl)
  · rw [h] at hchange ⊢
    refine .move (p := .held c v) (q := .runtime c i)
      (hs.setCpu (hchange.inv (hs.runtime c)) (.inr rfl) (hs.loaded c)
        (by simp only [Cpu.Vacant, hidle])) (by simp [contents, ht]) (by simp [contents, hi])
      fun r => ?_
    rw [contents_setCpu]
    cases r with
    | mailbox m => simp
    | runtime c' j =>
      rcases eq_or_ne c' c with rfl | hne
      · rcases eq_or_ne j i with rfl | hij
        · simp [setDomain, contents, ht, TaskDomain.body]
        · simp [setDomain, hij, contents]
      · simp [hne]
    | held c' v' =>
      rcases eq_or_ne c' c with rfl | hne
      · rcases eq_or_ne v' v with rfl | hv'
        · simp
        · simp [hv', contents]
      · simp [hne]
    | pending c' | flight c' =>
      rcases eq_or_ne c' c with rfl | hne
      · simp [contents]
      · simp [hne]

theorem enter_publish (hs : s.Inv) (hidle : (s.cpus c).phase = .idle) (v : ℕ) (m : Fin BOXES) :
    s.Steps (s.enter c (.publish v m)) .moved := by
  rw [enter]
  cases hv : (s.cpus c).held v with
  | none => exact .stay hs (.inr rfl) rfl
  | some ticket =>
    refine .move (p := .held c v) (q := .flight c)
      (hs.setCpu (hs.runtime c) (.inl rfl) (fun _ => rfl) (by simp [Cpu.Vacant]))
      (by simp [contents, hv]) (by simp [contents, hidle, Phase.ticket]) fun r => ?_
    rw [contents_setCpu]
    cases r with
    | mailbox m => simp
    | held c' v' =>
      rcases eq_or_ne c' c with rfl | hne
      · rcases eq_or_ne v' v with rfl | hv'
        · simp
        · simp [hv', contents]
      · simp [hne]
    | flight c' =>
      rcases eq_or_ne c' c with rfl | hne
      · simp [Phase.ticket, contents, hv]
      · simp [hne]
    | runtime c' i | pending c' =>
      rcases eq_or_ne c' c with rfl | hne
      · simp [contents]
      · simp [hne]

/-- A step of CPU `c` on mailbox `m` leaves the contents of the other mailboxes
    and of the calls that have not claimed `m`. -/
theorem contents_setMailbox {mailbox : OwnershipMailbox (DetachedTaskDomain CAPS)}
    (halone : ∀ c' state, (s.cpus c').phase.claim = some (m, state) → c' = c)
    (p : Place CPUS TASKS BOXES) (hp : p ≠ .mailbox m) (hp' : p ≠ .flight c) :
    (s.setMailbox m mailbox).contents p = s.contents p := by
  cases p with
  | mailbox m' =>
    have hne : m' ≠ m := fun h => hp (by rw [h])
    simp [contents, hne]
  | flight c' =>
    have hne : ∀ m' state, (s.cpus c').phase.claim = some (m', state) → m' ≠ m := by
      rintro m' state h rfl
      exact hp' (by rw [halone c' state h])
    cases hphase : (s.cpus c').phase with
    | committing m' => simp [contents, Phase.ticket, hphase, hne m' _ (by rw [hphase]; rfl)]
    | reading m' v => simp [contents, Phase.ticket, hphase, hne m' _ (by rw [hphase]; rfl)]
    | idle | offering | writing | releasing => simp [contents, Phase.ticket, hphase]
  | runtime | pending | held => rfl

theorem enter_take (hs : s.Inv) (hidle : (s.cpus c).phase = .idle) (m : Fin BOXES) (v : ℕ) :
    s.Steps (s.enter c (.take m v)) .moved := by
  rw [enter]
  split_ifs with hv
  · exact .stay hs (.inr rfl) rfl
  · rw [not_or, Option.not_isSome_iff_eq_none, not_not] at hv
    obtain ⟨hv, hfull⟩ := hv
    obtain ⟨ticket, ht⟩ := Option.isSome_iff_exists.mp (hs.filled m hfull)
    have halone : ∀ c' state, (s.cpus c').phase.claim = some (m, state) → c' = c :=
      fun c' state h => absurd h (hs.unclaimed (.inr hfull) c' state)
    refine .move (p := .mailbox m) (q := .flight c)
      (hs.setMailbox halone (hs.runtime c) (.inr rfl) (by simp) (by simp [Phase.ticket, ht])
        (by simpa [Cpu.Vacant] using hv))
      (by simp [contents, hfull, ht]) (by simp [contents, hidle, Phase.ticket]) fun r => ?_
    rw [contents_setCpu]
    cases r with
    | mailbox m' =>
      rcases eq_or_ne m' m with rfl | hne
      · simp [contents]
      · simp [contents, hne]
    | flight c' =>
      rcases eq_or_ne c' c with rfl | hne
      · simp [Phase.ticket, contents, hfull]
      · simp only [hne, if_false, reduceCtorEq, Place.flight.injEq]
        exact contents_setMailbox halone _ (by simp) (by simpa using hne)
    | runtime c' i | pending c' | held c' v' =>
      rcases eq_or_ne c' c with rfl | hne
      · simp [contents]
      · simp [contents, hne]

/-- What the balancer publishes was pending or is detached from the runtime. -/
theorem poll_spec (hT : TASKS ≤ 2 ^ 32) {b : PeriodicDomainBalancer CPUS CAPS}
    {rt : TaskRuntime TASKS CAPS} (hrt : rt.Inv) (tick : UInt64) (localCpu : ℕ)
    (loads : Fin CPUS → SchedulerLoad) :
    (∃ result policy, (∀ offer, result ≠ .ok (some offer)) ∧ b.pending = none ∧
      b.poll tick localCpu loads rt = (result, { b with policy }, rt)) ∨
    (∃ target ticket, b.pending = some (target, ticket) ∧
      b.poll tick localCpu loads rt =
        (.ok (some (target, ticket)), { b with pending := none }, rt)) ∨
    ∃ target ticket policy rt' i, b.pending = none ∧ rt'.Inv ∧ rt.domains i = some ticket.domain ∧
      rt'.domains = Function.update rt.domains i none ∧
      b.poll tick localCpu loads rt = (.ok (some (target, ticket)), { b with policy }, rt') := by
  unfold PeriodicDomainBalancer.poll
  cases hb : b.pending with
  | some pending => exact .inr (.inl ⟨pending.1, pending.2, rfl, rfl⟩)
  | none =>
    dsimp only
    cases b.policy.poll tick localCpu loads with
    | mk result policy =>
      cases result with
      | error error => exact .inl ⟨_, policy, by simp, rfl, rfl⟩
      | ok target =>
        cases target with
        | none => exact .inl ⟨_, policy, by simp, rfl, rfl⟩
        | some target =>
          dsimp only
          rcases detachDomainForRebalance_eq hT hrt target.load with ⟨error, -, h⟩ | h | ⟨task, h⟩
          · rw [h]
            exact .inl ⟨_, policy, by simp, rfl, rfl⟩
          · rw [h]
            exact .inl ⟨_, policy, by simp, rfl, rfl⟩
          · rw [h]
            rcases detachDomain_spec hrt task with
              ⟨error, -, hd⟩ | ⟨i, d, state, priority, scheduler, -, hdi, rfl, hinv, hremoved, hd⟩
            · rw [hd]
              exact .inl ⟨_, policy, by simp, rfl, rfl⟩
            · have hchange := detachDomain_change hrt d.task
              rw [hd] at hchange ⊢
              exact .inr (.inr ⟨target, _, policy, _, i, rfl, hchange.inv hrt, hdi, rfl, rfl⟩)

/-- Both balancer calls: an optional timer tick, then the poll. -/
theorem offer_steps (hT : TASKS ≤ 2 ^ 32) (hs : s.Inv) (hidle : (s.cpus c).phase = .idle)
    {rt : TaskRuntime TASKS CAPS} (hrt : rt.Inv)
    (hdomains : rt.domains = (s.cpus c).runtime.domains) (tick : UInt64) (localCpu : ℕ)
    (loads : Fin CPUS → SchedulerLoad) (mailboxes : Fin CPUS → Fin BOXES) :
    s.Steps (s.setCpu c ((s.cpus c).offer mailboxes
      ((s.cpus c).balancer.poll tick localCpu loads rt))) .moved := by
  rcases poll_spec hT (b := (s.cpus c).balancer) hrt tick localCpu loads with
    ⟨result, policy, hresult, hpending, h⟩ | ⟨target, ticket, hpending, h⟩ |
      ⟨target, ticket, policy, rt', i, hpending, hinv, hi, hrt', h⟩
  · rw [h]
    have hoffer : (s.cpus c).offer mailboxes
        (result, { (s.cpus c).balancer with policy }, rt) =
        { s.cpus c with runtime := rt, balancer := { (s.cpus c).balancer with policy } } := by
      unfold Cpu.offer
      split
      · next hr => exact absurd (congrArg Prod.fst hr) (hresult _)
      · next hr =>
        cases hr
        rfl
    rw [hoffer]
    refine .stay (hs.setCpu hrt (.inr rfl) (hs.loaded c) (by simp only [Cpu.Vacant, hidle]))
      (.inr rfl) (funext fun r => ?_)
    rw [contents_setCpu]
    cases r with
    | mailbox m => rfl
    | runtime c' i | pending c' | held c' v | flight c' =>
      rcases eq_or_ne c' c with rfl | hne
      · simp [contents, hdomains]
      · simp [hne]
  · rw [h]
    refine .move (p := .pending c) (q := .flight c)
      (hs.setCpu hrt (.inl rfl) (fun _ => rfl) (by simp [Cpu.Vacant, Cpu.offer]))
      (by simp [contents, hpending]) (by simp [contents, hidle, Phase.ticket]) fun r => ?_
    rw [contents_setCpu]
    cases r with
    | mailbox m => simp
    | pending c' =>
      rcases eq_or_ne c' c with rfl | hne
      · simp [Cpu.offer]
      · simp [hne]
    | flight c' =>
      rcases eq_or_ne c' c with rfl | hne
      · simp [Cpu.offer, Phase.ticket, contents, hpending]
      · simp [hne]
    | runtime c' i | held c' v =>
      rcases eq_or_ne c' c with rfl | hne
      · simp [contents, Cpu.offer, hdomains]
      · simp [hne]
  · rw [h]
    rw [hdomains] at hi hrt'
    refine .move (p := .runtime c i) (q := .flight c)
      (hs.setCpu hinv (.inl rfl) (fun _ => rfl) (by simpa [Cpu.Vacant, Cpu.offer] using hpending))
      (by simp [contents, hi]) (by simp [contents, hidle, Phase.ticket]) fun r => ?_
    rw [contents_setCpu]
    cases r with
    | mailbox m => simp
    | runtime c' j =>
      rcases eq_or_ne c' c with rfl | hne
      · rcases eq_or_ne j i with rfl | hij
        · simp [Cpu.offer, hrt']
        · simp [Cpu.offer, hrt', hij, contents]
      · simp [hne]
    | flight c' =>
      rcases eq_or_ne c' c with rfl | hne
      · simp [Cpu.offer, Phase.ticket, contents, hi]
      · simp [hne]
    | pending c' | held c' v =>
      rcases eq_or_ne c' c with rfl | hne
      · simp [contents, Cpu.offer]
      · simp [hne]

theorem enter_timerTickAndPublish (hT : TASKS ≤ 2 ^ 32) (hC : CAPS ≤ 2 ^ 32) (hs : s.Inv)
    (hidle : (s.cpus c).phase = .idle) (localCpu : ℕ) (loads : Fin CPUS → SchedulerLoad)
    (mailboxes : Fin CPUS → Fin BOXES) :
    s.Steps (s.enter c (.timerTickAndPublish localCpu loads mailboxes)) .moved := by
  have hstay : ∀ error rt, rt.Inv → rt.domains = (s.cpus c).runtime.domains →
      s.Steps (s.setCpu c ((s.cpus c).offer mailboxes (.error error, (s.cpus c).balancer, rt)))
        .moved := by
    intro error rt hrt hdomains
    exact .stay (hs.setCpu hrt (.inr rfl) (hs.loaded c) (by simp only [Cpu.Vacant, Cpu.offer, hidle]))
      (.inr rfl) (contents_setRuntime_eq hdomains)
  rw [enter, PeriodicDomainBalancer.timerTick]
  split_ifs with hcpu hload
  · exact hstay _ _ (hs.runtime c) rfl
  · have hinv := step_inv hT hC (hs.runtime c) .timerTick
    have hdomains : (s.cpus c).runtime.timerTick.2.domains = (s.cpus c).runtime.domains := rfl
    simp only [TaskRuntime.step, exec, reply] at hinv
    generalize (s.cpus c).runtime.timerTick = out at *
    obtain ⟨result, rt⟩ := out
    cases result with
    | error error => exact hstay _ _ hinv hdomains
    | ok outcome => exact offer_steps hT hs hidle hinv hdomains _ _ _ _
  · exact hstay _ _ (hs.runtime c) rfl

/-- The mailbox was occupied: the ticket goes back unchanged. -/
theorem giveBack_steps (hs : s.Inv) {origin : Origin CPUS} {ticket : DetachedTaskDomain CAPS}
    (hphase : (s.cpus c).phase = .offering m origin ticket) :
    s.Steps (s.setCpu c ((s.cpus c).giveBack ticket origin)) .moved := by
  have hvacant := hs.vacant c
  cases origin with
  | pending target =>
    simp only [Cpu.Vacant, hphase] at hvacant
    refine .move (p := .flight c) (q := .pending c)
      (hs.setCpu (hs.runtime c) (.inl rfl) (fun h => absurd rfl h) (by simp [Cpu.Vacant, Cpu.giveBack]))
      (by simp [contents, hphase, Phase.ticket]) (by simp [contents, hvacant]) fun r => ?_
    rw [contents_setCpu]
    cases r with
    | mailbox m => simp
    | pending c' =>
      rcases eq_or_ne c' c with rfl | hne
      · simp [Cpu.giveBack, contents, hphase, Phase.ticket]
      · simp [hne]
    | flight c' =>
      rcases eq_or_ne c' c with rfl | hne
      · simp [Cpu.giveBack, Phase.ticket]
      · simp [hne]
    | runtime c' i | held c' v =>
      rcases eq_or_ne c' c with rfl | hne
      · simp [contents, Cpu.giveBack]
      · simp [hne]
  | caller v =>
    simp only [Cpu.Vacant, hphase] at hvacant
    refine .move (p := .flight c) (q := .held c v)
      (hs.setCpu (hs.runtime c) (.inl rfl) (fun h => absurd rfl h) (by simp [Cpu.Vacant, Cpu.giveBack]))
      (by simp [contents, hphase, Phase.ticket]) (by simp [contents, hvacant]) fun r => ?_
    rw [contents_setCpu]
    cases r with
    | mailbox m => simp
    | held c' v' =>
      rcases eq_or_ne c' c with rfl | hne
      · rcases eq_or_ne v' v with rfl | hv'
        · simp [Cpu.giveBack, contents, hphase, Phase.ticket]
        · simp [Cpu.giveBack, hv', contents]
      · simp [hne]
    | flight c' =>
      rcases eq_or_ne c' c with rfl | hne
      · simp [Cpu.giveBack, Phase.ticket]
      · simp [hne]
    | runtime c' i | pending c' =>
      rcases eq_or_ne c' c with rfl | hne
      · simp [contents, Cpu.giveBack]
      · simp [hne]

/-- Each atomic step of `publish` and `take`. -/
theorem resume_steps (hs : s.Inv) (c : Fin CPUS) : s.Steps (s.resume c) .moved := by
  have hloaded := hs.loaded c
  have hvacant := hs.vacant c
  unfold resume
  cases hphase : (s.cpus c).phase with
  | idle => exact .stay hs (.inr rfl) rfl
  | offering m origin ticket =>
    dsimp only
    split_ifs with hempty
    · have halone : ∀ c' state, (s.cpus c').phase.claim = some (m, state) → c' = c :=
        fun c' state h => absurd h (hs.unclaimed (.inl hempty) c' state)
      refine .stay (hs.setMailbox halone (hs.runtime c) (.inr rfl) (by simp) (fun _ => rfl)
        (by simp [Cpu.Vacant])) (.inr rfl) (funext fun r => ?_)
      rw [contents_setCpu]
      cases r with
      | mailbox m' =>
        rcases eq_or_ne m' m with rfl | hne
        · simp [contents, hempty]
        · simp [contents, hne]
      | flight c' =>
        rcases eq_or_ne c' c with rfl | hne
        · simp [contents, hphase, Phase.ticket]
        · simp only [hne, if_false]
          exact contents_setMailbox halone _ (by simp) (by simpa using hne)
      | runtime c' i | pending c' | held c' v =>
        rcases eq_or_ne c' c with rfl | hne
        · simp [contents]
        · simp [contents, hne]
    · exact giveBack_steps hs hphase
  | writing m ticket =>
    have hclaim : (s.cpus c).phase.claim = some (m, .writing) := by rw [hphase]; rfl
    have hstate := hs.claimed hclaim
    have halone : ∀ c' state, (s.cpus c').phase.claim = some (m, state) → c' = c :=
      fun c' state h => hs.exclusive h hclaim
    refine .stay (hs.setMailbox halone (hs.runtime c) (.inr ?_) (by simp) (by simp [Phase.ticket])
      (by simp [Cpu.Vacant])) (.inr rfl) (funext fun r => ?_)
    · rw [hstate]
      rfl
    · rw [contents_setCpu]
      cases r with
      | mailbox m' =>
        rcases eq_or_ne m' m with rfl | hne
        · simp [contents, hstate]
        · simp [contents, hne]
      | flight c' =>
        rcases eq_or_ne c' c with rfl | hne
        · simp [contents, hphase, Phase.ticket]
        · simp only [hne, if_false]
          exact contents_setMailbox halone _ (by simp) (by simpa using hne)
      | runtime c' i | pending c' | held c' v =>
        rcases eq_or_ne c' c with rfl | hne
        · simp [contents]
        · simp [contents, hne]
  | committing m =>
    have hclaim : (s.cpus c).phase.claim = some (m, .writing) := by rw [hphase]; rfl
    have hstate := hs.claimed hclaim
    have halone : ∀ c' state, (s.cpus c').phase.claim = some (m, state) → c' = c :=
      fun c' state h => hs.exclusive h hclaim
    rw [hphase] at hloaded
    have htask : (s.mailboxes m).task.isSome = true := hloaded (by simp)
    refine .move (p := .flight c) (q := .mailbox m)
      (hs.setMailbox halone (hs.runtime c) (.inl rfl) (fun _ => htask) (fun h => absurd rfl h)
        (by simp [Cpu.Vacant]))
      (by simpa [contents, hphase, Phase.ticket] using htask) (by simp [contents, hstate])
      fun r => ?_
    rw [contents_setCpu]
    cases r with
    | mailbox m' =>
      rcases eq_or_ne m' m with rfl | hne
      · simp [contents, hphase, Phase.ticket]
      · simp [contents, hne]
    | flight c' =>
      rcases eq_or_ne c' c with rfl | hne
      · simp [Phase.ticket]
      · simp only [hne, if_false, reduceCtorEq, Place.flight.injEq]
        exact contents_setMailbox halone _ (by simp) (by simpa using hne)
    | runtime c' i | pending c' | held c' v =>
      rcases eq_or_ne c' c with rfl | hne
      · simp [contents]
      · simp [contents, hne]
  | reading m v =>
    have hclaim : (s.cpus c).phase.claim = some (m, .reading) := by rw [hphase]; rfl
    simp only [Cpu.Vacant, hphase] at hvacant
    rw [hphase] at hloaded
    obtain ⟨ticket, ht⟩ : ∃ ticket, (s.mailboxes m).task = some ticket :=
      Option.isSome_iff_exists.mp (hloaded (by simp))
    simp only [ht]
    refine .stay (hs.setCpu (hs.runtime c) (.inr (by rw [hclaim]; rfl)) (fun _ => rfl)
      (by simpa [Cpu.Vacant] using hvacant)) (.inr rfl) (funext fun r => ?_)
    rw [contents_setCpu]
    cases r with
    | mailbox m' => rfl
    | runtime c' i | pending c' | held c' v | flight c' =>
      rcases eq_or_ne c' c with rfl | hne
      · simp [contents, hphase, Phase.ticket, ht]
      · simp [hne]
  | releasing m v ticket =>
    have hclaim : (s.cpus c).phase.claim = some (m, .reading) := by rw [hphase]; rfl
    have hstate := hs.claimed hclaim
    have halone : ∀ c' state, (s.cpus c').phase.claim = some (m, state) → c' = c :=
      fun c' state h => hs.exclusive h hclaim
    simp only [Cpu.Vacant, hphase] at hvacant
    refine .move (p := .flight c) (q := .held c v)
      (hs.setMailbox halone (hs.runtime c) (.inl rfl) (by simp) (fun h => absurd rfl h)
        (by simp [Cpu.Vacant]))
      (by simp [contents, hphase, Phase.ticket]) (by simp [contents, hvacant]) fun r => ?_
    rw [contents_setCpu]
    cases r with
    | mailbox m' =>
      rcases eq_or_ne m' m with rfl | hne
      · simp [contents, hstate]
      · simp [contents, hne]
    | held c' v' =>
      rcases eq_or_ne c' c with rfl | hne
      · rcases eq_or_ne v' v with rfl | hv'
        · simp [contents, hphase, Phase.ticket]
        · simp [hv', contents]
      · simp [contents, hne]
    | flight c' =>
      rcases eq_or_ne c' c with rfl | hne
      · simp [Phase.ticket]
      · simp only [hne, if_false, reduceCtorEq, Place.flight.injEq]
        exact contents_setMailbox halone _ (by simp) (by simpa using hne)
    | runtime c' i | pending c' =>
      rcases eq_or_ne c' c with rfl | hne
      · simp [contents]
      · simp [contents, hne]

/-! ## Whole runs -/

/-- Every step keeps the protocol and has one effect. -/
theorem step_effect (hT : TASKS ≤ 2 ^ 32) (hC : CAPS ≤ 2 ^ 32) (hs : s.Inv)
    (op : SystemOp CPUS CAPS BOXES) : s.Steps (s.step op) (s.event op) := by
  cases op with
  | resume c => exact resume_steps hs c
  | enter c call =>
    rw [step]
    cases hphase : (s.cpus c).phase with
    | idle =>
      cases call with
      | runtime op hop =>
        simp only [event, hphase]
        exact enter_runtime hT hC hs hphase op hop
      | detachDomain task v => exact enter_detachDomain hs hphase task v
      | attachDomain v => exact enter_attachDomain hT hs hphase v
      | publish v m => exact enter_publish hs hphase v m
      | take m v => exact enter_take hs hphase m v
      | pollAndPublish tick localCpu loads mailboxes =>
        exact offer_steps hT hs hphase (hs.runtime c) rfl tick localCpu loads mailboxes
      | timerTickAndPublish localCpu loads mailboxes =>
        exact enter_timerTickAndPublish hT hC hs hphase localCpu loads mailboxes
    | offering | writing | committing | reading | releasing =>
      refine .stay hs ?_ rfl
      cases call <;> simp [event, hphase]

theorem Initial.inv (h : s.Initial) : s.Inv := by
  have hclaim : ∀ c, (s.cpus c).phase.claim = none := fun c => by rw [h.phase c]; rfl
  refine ⟨fun c => ?_, fun {c m state} hc => ?_, fun {c c' m state state'} hc => ?_, fun m hm => ?_,
    fun c hc => absurd (h.phase c) hc, fun c => ?_⟩
  · obtain ⟨ticksPerSecond, quantumTicks, hnew⟩ := h.runtime c
    exact new_inv hnew
  · rw [hclaim] at hc
    cases hc
  · rw [hclaim] at hc
    cases hc
  · rw [h.mailboxes] at hm
    cases hm
  · simp only [Cpu.Vacant, h.phase c]

/-- Nothing is anywhere at the start. -/
theorem Initial.contents (h : s.Initial) (p : Place CPUS TASKS BOXES) : s.contents p = none := by
  cases p with
  | runtime c i =>
    obtain ⟨ticksPerSecond, quantumTicks, hnew⟩ := h.runtime c
    simp only [System.contents, new_domains hnew, Option.map_none]
  | mailbox m => simp [System.contents, h.mailboxes, OwnershipMailbox.new]
  | pending c =>
    obtain ⟨startTick, intervalTicks, hnew⟩ := h.balancer c
    unfold PeriodicDomainBalancer.new at hnew
    split at hnew
    · cases hnew
    · simp [System.contents, ← Except.ok.inj hnew]
  | held c v => simp [System.contents, h.held]
  | flight c => simp [System.contents, h.phase, Phase.ticket]

/-- **Main theorem.** Over every run from the empty system and every
    interleaving: a ledger that numbers the created domains and strikes out the
    terminated ones agrees with the contents of all places, every domain it has
    left is in exactly one place, and no place holds anything else. A failed
    `attach_domain` returns the same ticket and the same runtime; a failed
    `publish` returns the same ticket and leaves every mailbox and runtime. -/
theorem domain_in_one_place (hT : TASKS ≤ 2 ^ 32) (hC : CAPS ≤ 2 ^ 32)
    {s₀ : System CPUS TASKS CAPS BOXES} (h₀ : s₀.Initial) (ops : List (SystemOp CPUS CAPS BOXES))
    {s : System CPUS TASKS CAPS BOXES} (hrun : s = run step s₀ ops) :
    (∃ effects : List (Effect (Place CPUS TASKS BOXES) (Body CAPS)),
      List.Forall₂ Effect.Within effects (events step event s₀ ops) ∧
      (run Ledger.apply Ledger.empty effects).Follows (events step event s₀ ops) s.contents ∧
      (∀ n, (run Ledger.apply Ledger.empty effects).Alive n →
        ∃! p, (run Ledger.apply Ledger.empty effects).At n p) ∧
      ∀ p body, s.contents p = some body →
        ∃ n, (run Ledger.apply Ledger.empty effects).Alive n ∧
          (run Ledger.apply Ledger.empty effects).cells p = some (n, body)) ∧
    (∀ c ticket error, ((s.cpus c).runtime.attachDomain ticket).1 = .error error →
      (s.cpus c).runtime.attachDomain ticket = (.error error, ticket, (s.cpus c).runtime)) ∧
    ∀ c m origin ticket, (s.cpus c).phase = .offering m origin ticket →
      (s.mailboxes m).state ≠ .empty →
      (s.step (.resume c)).mailboxes = s.mailboxes ∧
      ((s.step (.resume c)).cpus c).Returned ticket origin ∧
      ((s.step (.resume c)).cpus c).phase = .idle ∧
      ∀ c', ((s.step (.resume c)).cpus c').runtime = (s.cpus c').runtime := by
  have hinv : s.Inv := hrun ▸ run_invariant (P := Inv) (fun _ op h => (step_effect hT hC h op).inv)
    h₀.inv ops
  refine ⟨?_, fun c ticket error herr => ?_, fun c m origin ticket hphase hstate => ?_⟩
  · have hempty : (Ledger.empty : Ledger (Place CPUS TASKS BOXES) (Body CAPS)).Follows []
        s₀.contents :=
      ⟨rfl, rfl, Ledger.empty_sound, funext fun p => (h₀.contents p).symm⟩
    obtain ⟨effects, hforall, hfollows⟩ :=
      exists_effects System.step System.event System.Inv System.contents
        (fun _ op h => (step_effect hT hC h op).inv)
        (fun _ op h => (step_effect hT hC h op).effect) ops h₀.inv hempty
    rw [List.nil_append, ← hrun] at hfollows
    refine ⟨effects, hforall, hfollows, fun n hn => hfollows.sound.existsUnique hn, fun p body hp => ?_⟩
    rw [← hfollows.contents_eq, Ledger.contents, Option.map_eq_some_iff] at hp
    obtain ⟨⟨n, b⟩, hcell, rfl⟩ := hp
    exact ⟨n, (hfollows.sound.alive_iff n).mpr ⟨p, b, hcell⟩, hcell⟩
  · rcases attachDomain_spec hT (hinv.runtime c) ticket with
      ⟨error', -, h⟩ | ⟨t, i, migration, scheduler, -, -, -, -, h⟩
    · rw [h] at herr ⊢
      cases herr
      rfl
    · rw [h] at herr
      cases herr
  · simp only [step, resume, hphase, if_neg hstate]
    refine ⟨rfl, ?_, ?_, fun c' => ?_⟩
    · rw [setCpu_self]
      cases origin with
      | pending target => rfl
      | caller v => simp [Cpu.Returned, Cpu.giveBack]
    · rw [setCpu_self]
      cases origin <;> rfl
    · rcases eq_or_ne c' c with rfl | hne
      · rw [setCpu_self]
        cases origin <;> rfl
      · rw [setCpu_of_ne _ hne]

/-- Two CPUs with empty runtimes and one mailbox each. -/
def twoCpus : System 2 2 1 2 where
  cpus := fun _ =>
    { runtime := ⟨⟨Scheduler.new 2, none, 0, 1, 1⟩, fun _ => none⟩
      balancer := ⟨⟨1, 1, 0, 0⟩, none⟩
      held := fun _ => none
      phase := .idle }
  mailboxes := fun _ => OwnershipMailbox.new _

/-- CPU 0 creates two tasks, runs the first, and hands the second one over to
    CPU 1, which attaches it. -/
def handOver : List (SystemOp 2 1 2) :=
  let cpu0 : Fin 2 := ⟨0, Nat.zero_lt_two⟩
  let cpu1 : Fin 2 := ⟨1, Nat.one_lt_two⟩
  let mailbox1 : Fin 2 := ⟨1, Nat.one_lt_two⟩
  [.enter cpu0 (.runtime (.create .normal (contextAt 0x1000)) rfl),
    .enter cpu0 (.runtime (.create .normal (contextAt 0x2000)) rfl),
    .enter cpu0 (.runtime .start rfl), .enter cpu0 (.detachDomain ⟨1, 1⟩ 0),
    .enter cpu0 (.publish 0 mailbox1), .resume cpu0, .resume cpu0, .resume cpu0,
    .enter cpu1 (.take mailbox1 0), .resume cpu1, .resume cpu1, .enter cpu1 (.attachDomain 0)]

theorem twoCpus_initial : twoCpus.Initial where
  runtime _ := ⟨1000, 1, rfl⟩
  balancer _ := ⟨0, 1, rfl⟩
  held _ _ := rfl
  phase _ := rfl
  mailboxes _ := rfl

theorem domain_in_one_place_handOver :
    twoCpus.Initial ∧
    ((run step twoCpus handOver).contents (.runtime 1 0)).map Body.context =
      some (contextAt 0x2000) ∧
    ∃ effects : List (Effect (Place 2 2 2) (Body 1)),
      List.Forall₂ Effect.Within effects (events step event twoCpus handOver) ∧
      (∀ n, (run Ledger.apply Ledger.empty effects).Alive n →
        ∃! p, (run Ledger.apply Ledger.empty effects).At n p) := by
  refine ⟨twoCpus_initial, rfl, ?_⟩
  obtain ⟨⟨effects, hforall, -, hunique, -⟩, -⟩ :=
    domain_in_one_place (by decide) (by decide) twoCpus_initial handOver rfl
  exact ⟨effects, hforall, hunique⟩

end System

end Migration

end Mrml.Kernel
