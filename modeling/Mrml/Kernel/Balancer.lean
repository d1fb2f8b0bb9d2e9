import Mrml.Kernel.TaskRuntime

/-!
# Periodic balancing and ownership mailboxes

Model of `PeriodicBalancer` and `OwnershipMailbox`
(`crates/mrml-kernel/src/scheduler.rs`, lines 97–316) and of
`PeriodicDomainBalancer` (`task_runtime.rs`, lines 57–174).

A mailbox is shared between CPUs, so its operations are given as the atomic
steps of `publish` (claim, write, commit) and `take` (claim, read, release); the
other CPUs may run between any two of them. What `poll_and_publish` does before
it calls `publish` touches only state that its CPU owns and is one function.
-/

namespace Mrml.Kernel

/-- `BalancePolicyError` (`scheduler.rs`, lines 97–104). -/
inductive BalancePolicyError
  | invalidCpuCount
  | invalidLocalCpu
  | invalidInterval
  | tickRegression
  | tickExhausted
deriving DecidableEq

/-- `BalanceTarget` (lines 106–110). `poll` only returns CPUs below `CPUS`. -/
structure BalanceTarget (CPUS : ℕ) where
  cpu : Fin CPUS
  load : SchedulerLoad
deriving DecidableEq

/-- `PeriodicBalancer<CPUS>` (lines 125–130). -/
structure PeriodicBalancer (CPUS : ℕ) where
  intervalTicks : UInt64
  nextTick : UInt64
  lastTick : UInt64
  cursor : ℕ

namespace PeriodicBalancer

variable {CPUS : ℕ}

/-- `PeriodicBalancer::new` (lines 133–149). -/
def new (CPUS : ℕ) (startTick intervalTicks : UInt64) :
    Except BalancePolicyError (PeriodicBalancer CPUS) :=
  if CPUS < 2 then .error .invalidCpuCount
  else if intervalTicks = 0 then .error .invalidInterval
  else
    match checkedAdd64 startTick intervalTicks with
    | none => .error .tickExhausted
    | some nextTick => .ok ⟨intervalTicks, nextTick, startTick, 0⟩

/-- `usize::saturating_add` on a 64-bit target. -/
def saturatingAdd (a b : ℕ) : ℕ := min (a + b) (2 ^ 64 - 1)

/-- The loop body of `poll` (lines 173–187) for one CPU. -/
def consider (localCpu : ℕ) (source : SchedulerLoad) (loads : Fin CPUS → SchedulerLoad)
    (selected : Option (Fin CPUS × SchedulerLoad)) (cpu : Fin CPUS) :
    Option (Fin CPUS × SchedulerLoad) :=
  let candidate := loads cpu
  if cpu.val = localCpu ∨ candidate.occupied = candidate.capacity ∨
      source.runnable < saturatingAdd candidate.runnable 2 then selected
  else
    match selected with
    | none => some (cpu, candidate)
    | some (best, load) =>
      if candidate.runnable < load.runnable ∨
          (candidate.runnable = load.runnable ∧ candidate.occupied < load.occupied) then
        some (cpu, candidate)
      else some (best, load)

/-- `PeriodicBalancer::poll` (lines 151–193). -/
def poll (b : PeriodicBalancer CPUS) (tick : UInt64) (localCpu : ℕ)
    (loads : Fin CPUS → SchedulerLoad) :
    Except BalancePolicyError (Option (BalanceTarget CPUS)) × PeriodicBalancer CPUS :=
  if h : localCpu < CPUS then
    if tick < b.lastTick then (.error .tickRegression, b)
    else
      let b := { b with lastTick := tick }
      if tick < b.nextTick then (.ok none, b)
      else
        match checkedAdd64 tick b.intervalTicks with
        | none => (.error .tickExhausted, b)
        | some nextTick =>
          let b := { b with nextTick }
          let order := (List.finRange CPUS).map (rotate b.cursor)
          match order.foldl (consider localCpu (loads ⟨localCpu, h⟩) loads) none with
          | none => (.ok none, b)
          | some (cpu, load) => (.ok (some ⟨cpu, load⟩), { b with cursor := (cpu + 1) % CPUS })
  else (.error .invalidLocalCpu, b)

end PeriodicBalancer

/-- The `MAILBOX_*` constants (lines 240–243). -/
inductive MailboxState
  | empty
  | writing
  | full
  | reading
deriving DecidableEq

/-- `OwnershipMailbox<T>` (lines 248–251). The cell is `none` while it is
    uninitialized and keeps the bytes last written after they are taken. -/
structure OwnershipMailbox (T : Type) where
  state : MailboxState
  task : Option T

/-- `OwnershipMailbox::new` (lines 257–262). -/
def OwnershipMailbox.new (T : Type) : OwnershipMailbox T := ⟨.empty, none⟩

/-- `DomainBalanceError` (`task_runtime.rs`, lines 57–61). -/
inductive DomainBalanceError
  | policy (error : BalancePolicyError)
  | runtime (error : TaskRuntimeError)
deriving DecidableEq

/-- `PeriodicDomainBalancer<CPUS, CAPS>` (lines 90–93). -/
structure PeriodicDomainBalancer (CPUS CAPS : ℕ) where
  policy : PeriodicBalancer CPUS
  pending : Option (BalanceTarget CPUS × DetachedTaskDomain CAPS)

namespace PeriodicDomainBalancer

variable {CPUS TASKS CAPS : ℕ}

/-- `PeriodicDomainBalancer::new` (lines 96–105). -/
def new (CPUS CAPS : ℕ) (startTick intervalTicks : UInt64) :
    Except DomainBalanceError (PeriodicDomainBalancer CPUS CAPS) :=
  match PeriodicBalancer.new CPUS startTick intervalTicks with
  | .error error => .error (.policy error)
  | .ok policy => .ok ⟨policy, none⟩

/-- `poll_and_publish` (lines 111–149) up to its call of `publish`: the target
    and the ticket that it is about to publish, if any. -/
def poll (b : PeriodicDomainBalancer CPUS CAPS) (tick : UInt64) (localCpu : ℕ)
    (loads : Fin CPUS → SchedulerLoad) (runtime : TaskRuntime TASKS CAPS) :
    Except DomainBalanceError (Option (BalanceTarget CPUS × DetachedTaskDomain CAPS)) ×
      PeriodicDomainBalancer CPUS CAPS × TaskRuntime TASKS CAPS :=
  match b.pending with
  | some (target, ticket) => (.ok (some (target, ticket)), { b with pending := none }, runtime)
  | none =>
    match b.policy.poll tick localCpu loads with
    | (.error error, policy) => (.error (.policy error), { b with policy }, runtime)
    | (.ok none, policy) => (.ok none, { b with policy }, runtime)
    | (.ok (some target), policy) =>
      match runtime.detachDomainForRebalance target.load with
      | (.error error, runtime) => (.error (.runtime error), { b with policy }, runtime)
      | (.ok none, runtime) => (.ok none, { b with policy }, runtime)
      | (.ok (some ticket), runtime) => (.ok (some (target, ticket)), { b with policy }, runtime)

/-- `timer_tick_and_publish` (lines 154–174) up to the call of `publish`. -/
def timerTick (b : PeriodicDomainBalancer CPUS CAPS) (localCpu : ℕ)
    (loads : Fin CPUS → SchedulerLoad) (runtime : TaskRuntime TASKS CAPS) :
    Except DomainBalanceError (Option (BalanceTarget CPUS × DetachedTaskDomain CAPS)) ×
      PeriodicDomainBalancer CPUS CAPS × TaskRuntime TASKS CAPS :=
  if h : localCpu < CPUS then
    if loads ⟨localCpu, h⟩ ≠ runtime.load then (.error (.runtime .integrityFailure), b, runtime)
    else
      match runtime.timerTick with
      | (.error error, runtime) => (.error (.runtime error), b, runtime)
      | (.ok _, runtime) => b.poll runtime.scheduler.ticks localCpu loads runtime
  else (.error (.runtime .integrityFailure), b, runtime)

end PeriodicDomainBalancer

end Mrml.Kernel
