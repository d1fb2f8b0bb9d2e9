import Mrml.Vm.Hypercall
import Mrml.Vm.Table

/-!
# Dispatch of VM exits

Model of `crates/mrml-kernel/src/vm_dispatch.rs` (lines 8–77, 81–105 and 113–228),
of `decode_hypercall_exit` (`vm.rs`, lines 590–605) and of
`crates/mrml-kernel/src/vm_interrupt.rs` (lines 13–77). The hypervisor adapter is a
parameter: a value of `VmBackend B E` has its methods as functions of the
adapter's state `B`. Each function also returns the adapter calls that change the
vCPU, in order (`BackendCall`).

Results:
* `IoPortPolicy.permits_run_iff`: a policy permits what the rules it accepted permit.
* `dispatchVmExit_cases`: every outcome of an exit, as one update of the table.
-/

namespace Mrml.Vm

open Mrml.Kernel

/-! ## Port I/O policy -/

/-- `MAX_IO_PORT_RULES` (line 6). -/
def maxIoPortRules : ℕ := 32

/-- `IoDirection` (lines 9–13). -/
inductive IoDirection
  | read
  | write
  | both
deriving DecidableEq

/-- `IoPortRule` (lines 16–20) with the check of its constructor. -/
structure IoPortRule where
  port : UInt16
  size : UInt8
  direction : IoDirection
  size_valid : size = 1 ∨ size = 2 ∨ size = 4
deriving DecidableEq

namespace IoPortRule

/-- `IoPortRule::new` (lines 23–32). -/
def new (port : UInt16) (size : UInt8) (direction : IoDirection) : Except VmError IoPortRule :=
  if h : size = 1 ∨ size = 2 ∨ size = 4 then .ok ⟨port, size, direction, h⟩
  else .error .invalidIo

/-- `IoPortRule::permits` (lines 34–41). -/
def permits (rule : IoPortRule) (port : UInt16) (size : UInt8) (write : Bool) : Bool :=
  rule.port == port && rule.size == size &&
    match rule.direction, write with
    | .both, _ => true
    | .write, true => true
    | .read, false => true
    | _, _ => false

end IoPortRule

/-- `IoPortPolicy<N>` (lines 44–47). -/
structure IoPortPolicy (N : ℕ) where
  rules : List (Option IoPortRule)
  count : ℕ

namespace IoPortPolicy

variable {N : ℕ}

/-- `IoPortPolicy::deny_all` (lines 50–55). -/
def denyAll (N : ℕ) : IoPortPolicy N := ⟨List.replicate N none, 0⟩

/-- `IoPortPolicy::allow` (lines 57–71). -/
def allow (policy : IoPortPolicy N) (rule : IoPortRule) :
    Except VmError Unit × IoPortPolicy N :=
  if N > maxIoPortRules ∨ policy.count = N then (.error .ioPolicyFull, policy)
  else if (policy.rules.take policy.count).reduceOption.any fun existing =>
      existing.port == rule.port && existing.size == rule.size then (.error .invalidIo, policy)
  else
    (.ok (), { rules := policy.rules.set policy.count (some rule), count := policy.count + 1 })

/-- `IoPortPolicy::permits` (lines 73–78). -/
def permits (policy : IoPortPolicy N) (port : UInt16) (size : UInt8) (write : Bool) : Bool :=
  (policy.rules.take policy.count).reduceOption.any fun rule => rule.permits port size write

/-- The rules whose `allow` call is answered `Ok`, in the order of the calls. -/
def accepted : IoPortPolicy N → List IoPortRule → List IoPortRule
  | _, [] => []
  | policy, rule :: rules =>
    match policy.allow rule with
    | (.ok _, policy') => rule :: accepted policy' rules
    | (.error _, policy') => accepted policy' rules

/-- What a policy holds after a number of calls. -/
structure Holds (policy : IoPortPolicy N) (live : List IoPortRule) : Prop where
  packed : Packed policy.rules policy.count live
  length_eq : policy.rules.length = N
  distinct : live.Pairwise fun rule other => ¬ (rule.port = other.port ∧ rule.size = other.size)

theorem Holds.allow_cases {policy : IoPortPolicy N} {live : List IoPortRule}
    (h : policy.Holds live) (rule : IoPortRule) :
    (∃ error, policy.allow rule = (.error error, policy)) ∨
    ∃ policy', policy.allow rule = (.ok (), policy') ∧ policy'.Holds (live ++ [rule]) := by
  unfold allow
  rw [h.packed.reduceOption_take]
  split_ifs with hfull hsame
  · exact .inl ⟨_, rfl⟩
  · exact .inl ⟨_, rfl⟩
  · have hroom : policy.count < policy.rules.length := by
      have hle := h.packed.count_le
      rw [h.length_eq] at hle ⊢
      exact lt_of_le_of_ne hle fun heq => hfull (.inr heq)
    refine .inr ⟨_, rfl, h.packed.push hroom rule, ?_, ?_⟩
    · rw [List.length_set, h.length_eq]
    · refine List.pairwise_append.mpr ⟨h.distinct, List.pairwise_singleton _ _, ?_⟩
      rintro existing hexisting other hother ⟨hport, hsize⟩
      obtain rfl := List.mem_singleton.mp hother
      exact hsame (List.any_eq_true.mpr ⟨existing, hexisting, by simp [hport, hsize]⟩)

theorem Holds.run {policy : IoPortPolicy N} {live : List IoPortRule} (h : policy.Holds live)
    (rules : List IoPortRule) :
    (run (fun policy rule => (allow policy rule).2) policy rules).Holds
      (live ++ policy.accepted rules) := by
  induction rules generalizing policy live with
  | nil => rwa [run_nil, accepted, List.append_nil]
  | cons rule rules ih =>
    rw [run_cons, accepted]
    rcases h.allow_cases rule with ⟨error, heq⟩ | ⟨policy', heq, hholds⟩
    · rw [heq]
      exact ih h
    · rw [heq]
      have hrun := ih hholds
      rwa [List.append_assoc, List.singleton_append] at hrun

/-- After every sequence of `allow` calls, an access is permitted exactly if one of the accepted
    rules permits it, and no two of them are for the same port and size. -/
theorem permits_run_iff (rules : List IoPortRule) :
    (∀ port size write,
      (run (fun policy rule => (allow policy rule).2) (denyAll N) rules).permits port size write =
        true ↔ ∃ rule ∈ (denyAll N).accepted rules, rule.permits port size write = true) ∧
    ((denyAll N).accepted rules).Pairwise fun rule other =>
      ¬ (rule.port = other.port ∧ rule.size = other.size) := by
  have hstart : (denyAll N).Holds [] :=
    ⟨Packed.nil N, List.length_replicate, List.Pairwise.nil⟩
  have hrun := hstart.run rules
  rw [List.nil_append] at hrun
  refine ⟨fun port size write => ?_, hrun.distinct⟩
  rw [permits, hrun.packed.reduceOption_take, List.any_eq_true]

end IoPortPolicy

/-! ## The backend -/

/-- `VmExit` (`vm.rs`, lines 541–565). -/
inductive VmExit
  | hypercall (descriptorAddress : UInt64)
  | guestMemoryFault (guestAddress : UInt64) (access : GuestAccess)
  | io (port : UInt16) (size : UInt8) (write : Bool) (value : UInt32)
  | mmio (guestAddress : UInt64) (size : UInt8) (write : Bool) (value : UInt64)
  | halted
  | interrupted
  | unknown (reason : UInt64)
deriving DecidableEq

/-- `VmRunError<E>` (`vm.rs`, lines 568–571). -/
inductive VmRunError (E : Type)
  | backend (error : E)
  | policy (error : VmError)
deriving DecidableEq

/-- The methods of `VmBackend` (`vm.rs`, lines 576–583) that the policy core
    calls. `read_guest` fills the caller's buffer of the given length. -/
structure VmBackend (B E : Type) where
  run : B → UInt32 → Except E VmExit × B
  readGuest : B → UInt64 → (length : ℕ) → Except E (Vector UInt8 length)
  injectInterrupt : B → UInt32 → UInt8 → Except E Unit × B

/-- The backend calls that enter or change a vCPU. -/
inductive BackendCall
  | run (vcpu : UInt32)
  | injectInterrupt (vcpu : UInt32) (vector : UInt8)
deriving DecidableEq

/-- `ExitDisposition` (lines 114–134). -/
inductive ExitDisposition
  | resume
  | yield
  | tool (hostAddress : UInt64) (length : UInt32) (argument : UInt64)
  | gpu (hostAddress : UInt64) (length : UInt32) (argument : UInt64)
  | io (port : UInt16) (size : UInt8) (write : Bool) (value : UInt32)
  | stopped
deriving DecidableEq

/-- The policy stores that the run path only reads. -/
structure PolicyStores where
  {C M I : ℕ}
  capabilities : CapabilitySpace C
  memory : GuestMemory M
  io : IoPortPolicy I

section Dispatch

variable {B E : Type} (ops : VmBackend B E)

/-- `decode_hypercall_exit` (`vm.rs`, lines 590–605). -/
def decodeHypercallExit (backend : B) (exit : VmExit) : Except (VmRunError E) (Option Hypercall) :=
  match exit with
  | .hypercall descriptorAddress =>
    match ops.readGuest backend descriptorAddress hypercallBytes with
    | .error error => .error (.backend error)
    | .ok wire =>
      match Hypercall.decode wire.toList with
      | .error error => .error (.policy error)
      | .ok call => .ok (some call)
  | _ => .ok none

/-- The disposition of a routed hypercall (lines 185–205). -/
def ExitDisposition.ofRouted : RoutedHypercall → ExitDisposition
  | .yield => .yield
  | .tool hostAddress length argument => .tool hostAddress length argument
  | .gpu hostAddress length argument => .gpu hostAddress length argument
  | .shutdown => .stopped

/-- `dispatch_inner` (lines 169–228). -/
def dispatchInner (backend : B) (exit : VmExit) (router : HypercallRouter)
    (stores : PolicyStores) : Except (VmRunError E) ExitDisposition × HypercallRouter :=
  match exit with
  | .hypercall _ =>
    match decodeHypercallExit ops backend exit with
    | .error error => (.error error, router)
    | .ok none => (.error (.policy .unhandledExit), router)
    | .ok (some call) =>
      match router.route call stores.capabilities stores.memory with
      | (.error error, router) => (.error (.policy error), router)
      | (.ok routed, router) => (.ok (.ofRouted routed), router)
  | .io port size write value =>
    if stores.io.permits port size write then (.ok (.io port size write value), router)
    else (.error (.policy .ioDenied), router)
  | .interrupted => (.ok .resume, router)
  | .halted => (.ok .stopped, router)
  | .guestMemoryFault _ _ | .mmio _ _ _ _ | .unknown _ => (.error (.policy .unhandledExit), router)

variable {V : ℕ}

/-- The mutable state of the run path: the lifecycle table and the router. -/
structure VmMonitor (V : ℕ) where
  vms : VmTable V
  router : HypercallRouter

/-- `dispatch_vm_exit` (lines 138–167). -/
def dispatchVmExit (backend : B) (s : VmMonitor V) (vm : VmId) (exit : VmExit)
    (stores : PolicyStores) : Except (VmRunError E) ExitDisposition × VmMonitor V :=
  match s.vms.accountExit vm with
  | (.error error, vms) => (.error (.policy error), { s with vms })
  | (.ok _, vms) =>
    match dispatchInner ops backend exit s.router stores with
    | (.error error, router) => (.error error, { vms := (vms.fail vm).2, router })
    | (.ok disposition, router) =>
      if disposition = .stopped then
        match vms.stop vm with
        | (.error error, vms) => (.error (.policy error), { vms, router })
        | (.ok (), vms) => (.ok disposition, { vms, router })
      else (.ok disposition, { vms, router })

/-- What a call of the run path returns: the result, the adapter's state, the
    policy state and the calls it made on the adapter. -/
structure RunOutcome (B E : Type) (V : ℕ) (α : Type) where
  result : Except (VmRunError E) α
  backend : B
  monitor : VmMonitor V
  calls : List BackendCall

/-- `run_vm_once` (lines 87–105). -/
def runVmOnce (backend : B) (vcpu : UInt32) (s : VmMonitor V) (vm : VmId)
    (stores : PolicyStores) : RunOutcome B E V ExitDisposition :=
  match ops.run backend vcpu with
  | (.error error, backend) =>
    ⟨.error (.backend error), backend, { s with vms := (s.vms.fail vm).2 }, [.run vcpu]⟩
  | (.ok exit, backend) =>
    let dispatched := dispatchVmExit ops backend s vm exit stores
    ⟨dispatched.1, backend, dispatched.2, [.run vcpu]⟩

/-! ## Interrupt injection -/

/-- `InterruptPolicy` (`vm_interrupt.rs`, lines 12–14). -/
structure InterruptPolicy where
  words : Fin 4 → UInt64

/-- `FIRST_EXTERNAL_VECTOR`. -/
def firstExternalVector : UInt8 := 32

/-- `LAST_EXTERNAL_VECTOR`. -/
def lastExternalVector : UInt8 := 254

/-- `InterruptPolicy::permits` (`vm_interrupt.rs`, lines 33–36). -/
def InterruptPolicy.permits (policy : InterruptPolicy) (vector : UInt8) : Bool :=
  decide (firstExternalVector ≤ vector ∧ vector ≤ lastExternalVector) &&
    policy.words (Fin.ofNat 4 (vector.toNat / 64)) &&& (1 <<< (UInt64.ofNat (vector.toNat % 64))) != 0

/-- `inject_vm_interrupt` (`vm_interrupt.rs`, lines 50–77). -/
def injectVmInterrupt {C : ℕ} (backend : B) (s : VmMonitor V) (vm : VmId) (vcpu : UInt32)
    (vector : UInt8) (policy : InterruptPolicy) (capabilities : CapabilitySpace C)
    (capability : Capability) (interruptObject : ObjectId) : RunOutcome B E V Unit :=
  match s.vms.state vm with
  | .error error => ⟨.error (.policy error), backend, s, []⟩
  | .ok state =>
    if state ≠ .running then ⟨.error (.policy .invalidVmState), backend, s, []⟩
    else if policy.permits vector = false then
      ⟨.error (.policy .interruptDenied), backend, s, []⟩
    else
      match capabilities.authorize capability Rights.signal with
      | .error error => ⟨.error (.policy (.capability error)), backend, s, []⟩
      | .ok object =>
        if object ≠ interruptObject then ⟨.error (.policy .wrongObject), backend, s, []⟩
        else
          match ops.injectInterrupt backend vcpu vector with
          | (.error error, backend) =>
            ⟨.error (.backend error), backend, { s with vms := (s.vms.fail vm).2 },
              [.injectInterrupt vcpu vector]⟩
          | (.ok (), backend) => ⟨.ok (), backend, s, [.injectInterrupt vcpu vector]⟩

/-! ## Outcomes -/

/-- A failing exit leaves the router as it was; an accepted one moves it by at
    most one call. -/
theorem dispatchInner_cases (backend : B) (exit : VmExit) (router : HypercallRouter)
    (stores : PolicyStores) :
    (∃ error, dispatchInner ops backend exit router stores = (.error error, router)) ∨
    ∃ disposition router', dispatchInner ops backend exit router stores = (.ok disposition, router') ∧
      (router' = router ∨ router'.nextSequence.toNat = router.nextSequence.toNat + 1) := by
  unfold dispatchInner
  cases exit with
  | hypercall descriptorAddress =>
    dsimp only
    cases decodeHypercallExit ops backend (.hypercall descriptorAddress) with
    | error error => exact .inl ⟨_, rfl⟩
    | ok call =>
      cases call with
      | none => exact .inl ⟨_, rfl⟩
      | some call =>
        dsimp only
        rcases router.route_cases call stores.capabilities stores.memory with
          ⟨error, h⟩ | ⟨routed, router', h, -, hnext⟩
        · exact .inl ⟨_, by rw [h]⟩
        · exact .inr ⟨_, router', by rw [h], .inr hnext⟩
  | io port size write value =>
    dsimp only
    split
    · exact .inr ⟨_, _, rfl, .inl rfl⟩
    · exact .inl ⟨_, rfl⟩
  | guestMemoryFault guestAddress access => exact .inl ⟨_, rfl⟩
  | mmio guestAddress size write value => exact .inl ⟨_, rfl⟩
  | halted => exact .inr ⟨_, _, rfl, .inl rfl⟩
  | interrupted => exact .inr ⟨_, _, rfl, .inl rfl⟩
  | unknown reason => exact .inl ⟨_, rfl⟩

/-- The state of a VM after an accepted exit. -/
def ExitDisposition.nextState : ExitDisposition → VmState
  | .stopped => .stopped
  | _ => .running

/-- **The outcomes of an exit.** The VM was not running; its counter is at its
    limit; it is failed; or the exit is charged and accepted. -/
theorem dispatchVmExit_cases (backend : B) (s : VmMonitor V) (vm : VmId) (exit : VmExit)
    (stores : PolicyStores) :
    (∃ error, dispatchVmExit ops backend s vm exit stores = (.error error, s) ∧
      ∀ slot, s.vms.find vm = some slot → slot.state ≠ .running) ∨
    (∃ slot, s.vms.find vm = some slot ∧ slot.state = .running ∧ slot.exits.toNat + 1 = 2 ^ 64 ∧
      dispatchVmExit ops backend s vm exit stores = (.error (.policy .exitBudgetExceeded), s)) ∨
    (∃ slot exits error s', s.vms.find vm = some slot ∧ slot.state = .running ∧
      exits.toNat = slot.exits.toNat + 1 ∧
      dispatchVmExit ops backend s vm exit stores = (.error error, s') ∧
      s'.vms.find = Function.update s.vms.find vm (some { slot with exits, state := .failed }) ∧
      s'.router = s.router) ∨
    ∃ slot exits disposition s', s.vms.find vm = some slot ∧ slot.state = .running ∧
      exits.toNat = slot.exits.toNat + 1 ∧ exits ≤ slot.exitBudget ∧
      dispatchVmExit ops backend s vm exit stores = (.ok disposition, s') ∧
      s'.vms.find = Function.update s.vms.find vm
        (some { slot with exits, state := disposition.nextState }) ∧
      (s'.router = s.router ∨ s'.router.nextSequence.toNat = s.router.nextSequence.toNat + 1) := by
  unfold dispatchVmExit
  rcases s.vms.accountExit_cases vm with ⟨error, h, hstate⟩ | ⟨slot, hfind, hrun, hmax, h⟩ |
    ⟨slot, exits, t', hfind, hrun, hexits, -, h, ht'⟩ | ⟨slot, exits, t', hfind, hrun, hexits, hle, h, ht'⟩
  · exact .inl ⟨_, by rw [h], hstate⟩
  · exact .inr (.inl ⟨slot, hfind, hrun, hmax, by rw [h]⟩)
  · refine .inr (.inr (.inl ⟨slot, exits, .policy .exitBudgetExceeded, { s with vms := t' }, hfind,
      hrun, hexits, ?_, ht', rfl⟩))
    rw [h]
  · rw [h]
    dsimp only
    -- the charged VM is still there and running
    have hcharged : t'.find vm = some { slot with exits } := by rw [ht', Function.update_self]
    rcases dispatchInner_cases ops backend exit s.router stores with
      ⟨error, hinner⟩ | ⟨disposition, router', hinner, hrouter⟩
    · rw [hinner]
      rcases t'.fail_cases vm with ⟨hnone, -⟩ | ⟨slot', t'', hslot', hfail, ht''⟩
      · rw [hcharged] at hnone
        cases hnone
      · obtain rfl : { slot with exits } = slot' := Option.some_inj.mp (hcharged.symm.trans hslot')
        refine .inr (.inr (.inl ⟨slot, exits, error, _, hfind, hrun, hexits, rfl, ?_, rfl⟩))
        rw [hfail, ht'', ht', Function.update_idem]
    · rw [hinner]
      dsimp only
      split
      · next hstopped =>
        subst hstopped
        rcases t'.transition_cases vm .running .stopped with
          ⟨error, -, hnot⟩ | ⟨slot', t'', hslot', -, hstop, ht''⟩
        · exact (hnot _ hcharged hrun).elim
        · obtain rfl : { slot with exits } = slot' :=
            Option.some_inj.mp (hcharged.symm.trans hslot')
          refine .inr (.inr (.inr ⟨slot, exits, .stopped, ⟨t'', router'⟩, hfind, hrun, hexits, hle,
            ?_, ?_, hrouter⟩))
          · rw [VmTable.stop, hstop]
          · rw [ht'', ht', Function.update_idem]
            rfl
      · next hresume =>
        refine .inr (.inr (.inr ⟨slot, exits, disposition, ⟨t', router'⟩, hfind, hrun, hexits, hle,
          rfl, ?_, hrouter⟩))
        have hnext : disposition.nextState = slot.state := by
          rw [hrun]
          cases disposition <;> first | rfl | exact absurd rfl hresume
        rw [ht', hnext]

/-- An interrupt is injected into a running VM only; a backend error fails it. -/
theorem injectVmInterrupt_cases {C : ℕ} (backend : B) (s : VmMonitor V) (vm : VmId)
    (vcpu : UInt32) (vector : UInt8) (policy : InterruptPolicy)
    (capabilities : CapabilitySpace C) (capability : Capability) (interruptObject : ObjectId) :
    (injectVmInterrupt ops backend s vm vcpu vector policy capabilities capability
      interruptObject).monitor = s ∨
    (injectVmInterrupt ops backend s vm vcpu vector policy capabilities capability
      interruptObject).monitor = { s with vms := (s.vms.fail vm).2 } := by
  unfold injectVmInterrupt
  cases s.vms.state vm with
  | error error => exact .inl rfl
  | ok state =>
    dsimp only
    split
    · exact .inl rfl
    · split
      · exact .inl rfl
      · cases capabilities.authorize capability Rights.signal with
        | error error => exact .inl rfl
        | ok object =>
          dsimp only
          split
          · exact .inl rfl
          · split
            · exact .inr rfl
            · exact .inl rfl

end Dispatch

end Mrml.Vm
