import Mrml.Common.Run
import Mrml.Vm.Dispatch

/-!
# Runs of the VM monitor

The calls that change the lifecycle table or the hypercall router, in any order
and with any backend behaviour, and what holds over whole runs of them.

`account_exit` returns early when the exit counter cannot be incremented. The VM
then stays `Running` although the dispatch failed; this happens exactly at a
counter of `u64::MAX`. `run_vm_once` enters the vCPU before any check of the VM.

Results:
* `moves_step`: what one call can do to one VM.
* `vm_exit_fail_stop`: failed dispatches, failed VMs, exit budgets and the
  router over every run.
* `vcpu_entered_iff_ready`: when the vCPUs entered in a run belong to VMs that may
  run.
-/

namespace Mrml.Vm

open Mrml.Kernel

/-- The calls on a monitor. `B` is the state of the backend, which each call finds
    in an arbitrary state. -/
inductive VmCall (B : Type)
  | create (exitBudget : UInt64)
  | markLoaded (id : VmId)
  | start (id : VmId)
  | accountExit (id : VmId)
  | stop (id : VmId)
  | fail (id : VmId)
  | destroy (id : VmId)
  | route (call : Hypercall) (stores : PolicyStores)
  | dispatch (backend : B) (vm : VmId) (exit : VmExit) (stores : PolicyStores)
  | runOnce (backend : B) (vcpu : UInt32) (vm : VmId) (stores : PolicyStores)
  | inject (backend : B) (vm : VmId) (vcpu : UInt32) (vector : UInt8) (policy : InterruptPolicy)
      (stores : PolicyStores) (capability : Capability) (interruptObject : ObjectId)

namespace VmMonitor

variable {B E : Type} {V : ℕ}

/-- An empty table and a new router. -/
def new (V : ℕ) (toolObject gpuObject controlObject : ObjectId) : VmMonitor V :=
  ⟨VmTable.new V, HypercallRouter.new toolObject gpuObject controlObject⟩

/-- The monitor after one call. -/
def step (ops : VmBackend B E) (s : VmMonitor V) : VmCall B → VmMonitor V
  | .create exitBudget => { s with vms := (s.vms.create exitBudget).2 }
  | .markLoaded id => { s with vms := (s.vms.markLoaded id).2 }
  | .start id => { s with vms := (s.vms.start id).2 }
  | .accountExit id => { s with vms := (s.vms.accountExit id).2 }
  | .stop id => { s with vms := (s.vms.stop id).2 }
  | .fail id => { s with vms := (s.vms.fail id).2 }
  | .destroy id => { s with vms := (s.vms.destroy id).2 }
  | .route call stores =>
    { s with router := (s.router.route call stores.capabilities stores.memory).2 }
  | .dispatch backend vm exit stores => (dispatchVmExit ops backend s vm exit stores).2
  | .runOnce backend vcpu vm stores => (runVmOnce ops backend vcpu s vm stores).monitor
  | .inject backend vm vcpu vector policy stores capability interruptObject =>
    (injectVmInterrupt ops backend s vm vcpu vector policy stores.capabilities capability
      interruptObject).monitor

/-! ## What one call can do to one VM -/

/-- The changes of one entry of the table, other than its removal. -/
inductive Moves : Option VmSlot → Option VmSlot → Prop
  | stay (entry : Option VmSlot) : Moves entry entry
  | create {slot : VmSlot} (h : slot.state = .created) : Moves none (some slot)
  | load {slot : VmSlot} (h : slot.state = .created) :
      Moves (some slot) (some { slot with state := .loaded })
  | start {slot : VmSlot} (h : slot.state = .loaded ∨ slot.state = .stopped) :
      Moves (some slot) (some { slot with exits := 0, state := .running })
  | charge {slot : VmSlot} {exits : UInt64} (h : slot.state = .running)
      (hexits : exits.toNat = slot.exits.toNat + 1) (hle : exits ≤ slot.exitBudget) :
      Moves (some slot) (some { slot with exits })
  | stop {slot : VmSlot} (h : slot.state = .running) (exits : UInt64) :
      Moves (some slot) (some { slot with exits, state := .stopped })
  | fail (slot : VmSlot) (exits : UInt64) :
      Moves (some slot) (some { slot with exits, state := .failed })

/-- An update of the entry of `id` moves that entry and no other. -/
theorem Moves.update {find : VmId → Option VmSlot} {id : VmId} {entry : Option VmSlot}
    (h : Moves (find id) entry) (x : VmId) : Moves (find x) (Function.update find id entry x) := by
  by_cases hx : x = id
  · subst hx
    rwa [Function.update_self]
  · rw [Function.update_of_ne hx]
    exact .stay _

theorem moves_create (t : VmTable V) (exitBudget : UInt64) (x : VmId) :
    Moves (t.find x) ((t.create exitBudget).2.find x) := by
  rcases t.create_cases exitBudget with ⟨error, h⟩ | ⟨id, t', h, ht'⟩
  · rw [h]
    exact .stay _
  · rw [h]
    rcases ht' x with hsame | ⟨hnone, generation, hnew⟩
    · rw [hsame]
      exact .stay _
    · rw [hnone, hnew]
      exact .create rfl

theorem moves_markLoaded (t : VmTable V) (id x : VmId) :
    Moves (t.find x) ((t.markLoaded id).2.find x) := by
  rw [VmTable.markLoaded]
  rcases t.transition_cases id .created .loaded with ⟨error, h, -⟩ | ⟨slot, t', hfind, hs, h, ht'⟩
  · rw [h]
    exact .stay _
  · rw [h]
    dsimp only
    rw [ht']
    exact Moves.update (hfind ▸ .load hs) x

theorem moves_start (t : VmTable V) (id x : VmId) : Moves (t.find x) ((t.start id).2.find x) := by
  rcases t.start_cases id with ⟨error, h⟩ | ⟨slot, t', hfind, hs, h, ht'⟩
  · rw [h]
    exact .stay _
  · rw [h]
    dsimp only
    rw [ht']
    exact Moves.update (hfind ▸ .start hs) x

theorem moves_accountExit (t : VmTable V) (id x : VmId) :
    Moves (t.find x) ((t.accountExit id).2.find x) := by
  rcases t.accountExit_cases id with ⟨error, h, -⟩ | ⟨slot, -, -, -, h⟩ |
    ⟨slot, exits, t', hfind, -, -, -, h, ht'⟩ | ⟨slot, exits, t', hfind, hrun, hexits, hle, h, ht'⟩
  · rw [h]
    exact .stay _
  · rw [h]
    exact .stay _
  · rw [h]
    dsimp only
    rw [ht']
    exact Moves.update (hfind ▸ .fail slot exits) x
  · rw [h]
    dsimp only
    rw [ht']
    exact Moves.update (hfind ▸ .charge hrun hexits hle) x

theorem moves_stop (t : VmTable V) (id x : VmId) : Moves (t.find x) ((t.stop id).2.find x) := by
  rw [VmTable.stop]
  rcases t.transition_cases id .running .stopped with ⟨error, h, -⟩ | ⟨slot, t', hfind, hs, h, ht'⟩
  · rw [h]
    exact .stay _
  · rw [h]
    dsimp only
    rw [ht']
    exact Moves.update (hfind ▸ .stop hs slot.exits) x

/-- `destroy` leaves every other VM alone. -/
theorem moves_destroy (t : VmTable V) {id x : VmId} (hx : x ≠ id) :
    Moves (t.find x) ((t.destroy id).2.find x) := by
  rcases t.destroy_cases id with ⟨error, h⟩ | ⟨t', h, ht'⟩
  · rw [h]
    exact .stay _
  · rw [h]
    dsimp only
    rw [ht', Function.update_of_ne hx]
    exact .stay _

theorem moves_fail (t : VmTable V) (id x : VmId) : Moves (t.find x) ((t.fail id).2.find x) := by
  rcases t.fail_cases id with ⟨-, h⟩ | ⟨slot, t', hfind, h, ht'⟩
  · rw [h]
    exact .stay _
  · rw [h]
    dsimp only
    rw [ht']
    exact Moves.update (hfind ▸ .fail slot slot.exits) x

theorem moves_dispatch (ops : VmBackend B E) (backend : B) (s : VmMonitor V) (vm : VmId)
    (exit : VmExit) (stores : PolicyStores) (x : VmId) :
    Moves (s.vms.find x) ((dispatchVmExit ops backend s vm exit stores).2.vms.find x) := by
  rcases dispatchVmExit_cases ops backend s vm exit stores with
    ⟨error, h, -⟩ | ⟨slot, -, -, -, h⟩ | ⟨slot, exits, error, s', hfind, -, -, h, hs', -⟩ |
    ⟨slot, exits, disposition, s', hfind, hrun, hexits, hle, h, hs', -⟩
  · rw [h]
    exact .stay _
  · rw [h]
    exact .stay _
  · rw [h]
    dsimp only
    rw [hs']
    exact Moves.update (hfind ▸ .fail slot exits) x
  · rw [h]
    dsimp only
    rw [hs']
    refine Moves.update (hfind ▸ ?_) x
    by_cases hstopped : disposition = .stopped
    · subst hstopped
      exact .stop hrun exits
    · have hnext : disposition.nextState = slot.state := by
        rw [hrun]
        cases disposition <;> first | rfl | exact absurd rfl hstopped
      rw [hnext]
      exact .charge hrun hexits hle

/-- **Step lemma.** A call moves every entry that it does not destroy. -/
theorem moves_step (ops : VmBackend B E) (s : VmMonitor V) (call : VmCall B) (x : VmId)
    (hdestroy : call ≠ .destroy x) : Moves (s.vms.find x) ((step ops s call).vms.find x) := by
  cases call with
  | create exitBudget => exact moves_create s.vms exitBudget x
  | markLoaded id => exact moves_markLoaded s.vms id x
  | start id => exact moves_start s.vms id x
  | accountExit id => exact moves_accountExit s.vms id x
  | stop id => exact moves_stop s.vms id x
  | fail id => exact moves_fail s.vms id x
  | destroy id => exact moves_destroy s.vms (fun hx => hdestroy (hx ▸ rfl))
  | route call stores => exact .stay _
  | dispatch backend vm exit stores => exact moves_dispatch ops backend s vm exit stores x
  | runOnce backend vcpu vm stores =>
    rw [step, runVmOnce]
    split
    · exact moves_fail s.vms vm x
    · exact moves_dispatch ops _ s vm _ stores x
  | inject backend vm vcpu vector policy stores capability interruptObject =>
    rw [step]
    rcases injectVmInterrupt_cases ops backend s vm vcpu vector policy
      stores.capabilities capability interruptObject with h | h
    · rw [h]
      exact .stay _
    · rw [h]
      exact moves_fail s.vms vm x

/-! ## Failed VMs -/

theorem Moves.failed {slot : VmSlot} {entry : Option VmSlot} (h : Moves (some slot) entry)
    (hfailed : slot.state = .failed) : ∃ slot', entry = some slot' ∧ slot'.state = .failed := by
  cases h with
  | stay => exact ⟨slot, rfl, hfailed⟩
  | load h => rw [hfailed] at h; cases h
  | start h => rw [hfailed] at h; rcases h with h | h <;> cases h
  | charge h => rw [hfailed] at h; cases h
  | stop h => rw [hfailed] at h; cases h
  | fail => exact ⟨_, rfl, rfl⟩

/-- **Run lemma.** A failed VM stays failed over every run that does not destroy it. -/
theorem failed_run (ops : VmBackend B E) {s : VmMonitor V} {vm : VmId}
    (h : s.vms.state vm = .ok .failed) {calls : List (VmCall B)} (hd : .destroy vm ∉ calls) :
    (run (step ops) s calls).vms.state vm = .ok .failed := by
  induction calls generalizing s with
  | nil => exact h
  | cons call calls ih =>
    rw [List.mem_cons, not_or] at hd
    refine ih (s := step ops s call) ?_ hd.2
    obtain ⟨slot, hfind, hfailed⟩ := VmTable.state_eq_ok.mp h
    have hmoves := moves_step ops s call vm (fun hcall => hd.1 hcall.symm)
    rw [hfind] at hmoves
    exact VmTable.state_eq_ok.mpr (hmoves.failed hfailed)

/-! ## Failed dispatches -/

/-- The arguments of a call of `dispatch_vm_exit`. -/
structure DispatchCall (B : Type) where
  backend : B
  vm : VmId
  exit : VmExit
  stores : PolicyStores

/-- The call of `dispatch_vm_exit` that a call makes. -/
def dispatchCall (ops : VmBackend B E) : VmCall B → Option (DispatchCall B)
  | .dispatch backend vm exit stores => some ⟨backend, vm, exit, stores⟩
  | .runOnce backend vcpu vm stores =>
    match ops.run backend vcpu with
    | (.error _, _) => none
    | (.ok exit, backend) => some ⟨backend, vm, exit, stores⟩
  | _ => none

/-- If the dispatch fails, the VM is not running afterwards. -/
def StopsOnError (ops : VmBackend B E) (s : VmMonitor V) (call : VmCall B) : Prop :=
  ∀ d ∈ dispatchCall ops call, ∀ error,
    (dispatchVmExit ops d.backend s d.vm d.exit d.stores).1 = .error error →
    (dispatchVmExit ops d.backend s d.vm d.exit d.stores).2.vms.state d.vm ≠ .ok .running

/-- The exit counter of the addressed VM, if it is running, is below `u64::MAX`. -/
def CounterBelowLimit (ops : VmBackend B E) (s : VmMonitor V) (call : VmCall B) : Prop :=
  ∀ d ∈ dispatchCall ops call, ∀ slot, s.vms.find d.vm = some slot → slot.state = .running →
    slot.exits.toNat + 1 < 2 ^ 64

theorem stopsOnError_iff (ops : VmBackend B E) (s : VmMonitor V) (call : VmCall B) :
    StopsOnError ops s call ↔ CounterBelowLimit ops s call := by
  unfold StopsOnError CounterBelowLimit
  refine forall₂_congr fun d _ => ?_
  rcases dispatchVmExit_cases ops d.backend s d.vm d.exit d.stores with
    ⟨error, h, hnot⟩ | ⟨slot, hfind, hrun, hmax, h⟩ |
    ⟨slot, exits, error, s', hfind, -, hexits, h, hs', -⟩ |
    ⟨slot, exits, disposition, s', hfind, -, hexits, -, h, -, -⟩
  · -- the VM was not running and is untouched
    refine iff_of_true ?_ fun slot hslot hrun => absurd hrun (hnot slot hslot)
    rw [h]
    intro _ _ hstate
    obtain ⟨slot, hslot, hrun⟩ := VmTable.state_eq_ok.mp hstate
    exact hnot slot hslot hrun
  · -- the counter is at its limit: the call fails and the VM runs on
    refine iff_of_false ?_ ?_
    · rw [h]
      intro hstop
      exact hstop _ rfl (VmTable.state_eq_ok.mpr ⟨slot, hfind, hrun⟩)
    · intro hlimit
      have := hlimit slot hfind hrun
      omega
  · refine iff_of_true ?_ ?_
    · rw [h]
      intro _ _ hstate
      obtain ⟨slot', hslot', hrun'⟩ := VmTable.state_eq_ok.mp hstate
      rw [hs', Function.update_self] at hslot'
      cases hslot'
      cases hrun'
    · intro slot' hslot' _
      obtain rfl : slot = slot' := Option.some_inj.mp (hfind.symm.trans hslot')
      have := exits.toNat_lt
      omega
  · refine iff_of_true ?_ ?_
    · rw [h]
      intro _ herror
      cases herror
    · intro slot' hslot' _
      obtain rfl : slot = slot' := Option.some_inj.mp (hfind.symm.trans hslot')
      have := exits.toNat_lt
      omega

/-! ## Exit budgets -/

/-- The call dispatches an exit of `vm` successfully. -/
def accepts (ops : VmBackend B E) (vm : VmId) (s : VmMonitor V) (call : VmCall B) : Bool :=
  match dispatchCall ops call with
  | none => false
  | some d => d.vm == vm && (dispatchVmExit ops d.backend s d.vm d.exit d.stores).1.isOk

/-- The number of exits of `vm` that a run dispatches successfully. -/
def acceptedExits (ops : VmBackend B E) (vm : VmId) : VmMonitor V → List (VmCall B) → ℕ
  | _, [] => 0
  | s, call :: calls =>
    (accepts ops vm s call).toNat + acceptedExits ops vm (step ops s call) calls

theorem step_of_dispatchCall (ops : VmBackend B E) (s : VmMonitor V) {call : VmCall B}
    {d : DispatchCall B} (h : dispatchCall ops call = some d) :
    step ops s call = (dispatchVmExit ops d.backend s d.vm d.exit d.stores).2 := by
  unfold dispatchCall at h
  split at h
  · cases h
    rfl
  · next backend vcpu vm stores =>
    split at h
    · cases h
    · next exit backend' hrun =>
      cases h
      show (runVmOnce ops backend vcpu s vm stores).monitor = _
      rw [runVmOnce, hrun]
  · cases h

/-- A successful dispatch is within the budget and counted. -/
theorem accepts_charges {ops : VmBackend B E} {vm : VmId} {s : VmMonitor V} {call : VmCall B}
    (h : accepts ops vm s call = true) {slot : VmSlot} (hslot : s.vms.find vm = some slot) :
    ∃ slot', (step ops s call).vms.find vm = some slot' ∧ slot'.exitBudget = slot.exitBudget ∧
      slot'.exits.toNat = slot.exits.toNat + 1 ∧ slot'.exits ≤ slot'.exitBudget := by
  unfold accepts at h
  split at h
  · cases h
  · next d hd =>
    rw [Bool.and_eq_true, beq_iff_eq] at h
    obtain ⟨rfl, hok⟩ := h
    rw [step_of_dispatchCall ops s hd]
    rcases dispatchVmExit_cases ops d.backend s d.vm d.exit d.stores with
      ⟨error, h, -⟩ | ⟨-, -, -, -, h⟩ | ⟨-, -, error, s', -, -, -, h, -, -⟩ |
      ⟨slot', exits, disposition, s', hfind, -, hexits, hle, h, hs', -⟩
    · rw [h] at hok
      cases hok
    · rw [h] at hok
      cases hok
    · rw [h] at hok
      cases hok
    · obtain rfl : slot' = slot := Option.some_inj.mp (hfind.symm.trans hslot)
      rw [h]
      dsimp only
      rw [hs', Function.update_self]
      exact ⟨_, rfl, rfl, hexits, hle⟩

/-- While a VM keeps running its counter does not go back. -/
theorem Moves.running {slot slot' : VmSlot} (h : Moves (some slot) (some slot'))
    (hrun : slot.state = .running) (hrun' : slot'.state = .running)
    (hle : slot.exits ≤ slot.exitBudget) :
    slot'.exitBudget = slot.exitBudget ∧ slot.exits ≤ slot'.exits ∧
      slot'.exits ≤ slot'.exitBudget := by
  cases h with
  | stay => exact ⟨rfl, UInt64.le_refl _, hle⟩
  | load h => rw [hrun] at h; cases h
  | start h => rw [hrun] at h; rcases h with h | h <;> cases h
  | charge _ hexits hle' =>
    refine ⟨rfl, UInt64.le_iff_toNat_le.mpr ?_, hle'⟩
    dsimp only
    omega
  | stop => cases hrun'
  | fail => cases hrun'

theorem moves_step_or_gone (ops : VmBackend B E) (s : VmMonitor V) (call : VmCall B) (x : VmId) :
    Moves (s.vms.find x) ((step ops s call).vms.find x) ∨ (step ops s call).vms.find x = none := by
  cases call with
  | destroy id =>
    by_cases hx : x = id
    · subst hx
      rw [step]
      rcases s.vms.destroy_cases x with ⟨error, h⟩ | ⟨t', h, ht'⟩
      · rw [h]
        exact .inl (.stay _)
      · rw [h]
        dsimp only
        rw [ht', Function.update_self]
        exact .inr rfl
    · exact .inl (moves_destroy s.vms hx)
  | _ => exact .inl (moves_step ops s _ x (by simp))

/-- **Run lemma.** While the VM runs, what it has used and what the run dispatches
    stay within its budget. -/
theorem acceptedExits_le (ops : VmBackend B E) {vm : VmId} {s : VmMonitor V}
    {calls : List (VmCall B)}
    (hrunning : Along (step ops) (fun s _ => s.vms.state vm = .ok .running) s calls)
    {slot : VmSlot} (hslot : s.vms.find vm = some slot) (hle : slot.exits ≤ slot.exitBudget) :
    slot.exits.toNat + acceptedExits ops vm s calls ≤ slot.exitBudget.toNat := by
  induction calls generalizing s slot with
  | nil => exact UInt64.le_iff_toNat_le.mp hle
  | cons call calls ih =>
    obtain ⟨hrun, hrest⟩ := hrunning
    rw [acceptedExits]
    cases haccepts : accepts ops vm s call with
    | true =>
      obtain ⟨slot', hslot', hbudget, hexits, hle'⟩ := accepts_charges haccepts hslot
      have := ih hrest hslot' hle'
      rw [hbudget] at this
      rw [Bool.toNat_true]
      omega
    | false =>
      rw [Bool.toNat_false]
      cases calls with
      | nil => simpa [acceptedExits] using UInt64.le_iff_toNat_le.mp hle
      | cons next calls =>
        -- the VM is running before the next call, so this one only moved it
        obtain ⟨slot', hslot', hrun'⟩ := VmTable.state_eq_ok.mp hrest.1
        obtain ⟨slot₀, hslot₀, hrun₀⟩ := VmTable.state_eq_ok.mp hrun
        obtain rfl : slot₀ = slot := Option.some_inj.mp (hslot₀.symm.trans hslot)
        rcases moves_step_or_gone ops s call vm with hmoves | hgone
        · rw [hslot, hslot'] at hmoves
          obtain ⟨hbudget, hmono, hle'⟩ := hmoves.running hrun₀ hrun' hle
          have := ih hrest hslot' hle'
          rw [hbudget] at this
          have := UInt64.le_iff_toNat_le.mp hmono
          omega
        · rw [hgone] at hslot'
          cases hslot'

/-- From a successful start to the next state that is not `Running`, at most the
    exit budget of exits is dispatched successfully. -/
theorem acceptedExits_start_le (ops : VmBackend B E) {vm : VmId} {s : VmMonitor V}
    (hstart : (s.vms.start vm).1 = .ok ()) {slot : VmSlot} (hslot : s.vms.find vm = some slot)
    {calls : List (VmCall B)} (hrunning : Along (step ops)
      (fun s _ => s.vms.state vm = .ok .running) (step ops s (.start vm)) calls) :
    acceptedExits ops vm (step ops s (.start vm)) calls ≤ slot.exitBudget.toNat := by
  rcases s.vms.start_cases vm with ⟨error, h⟩ | ⟨slot', t', hfind, -, h, ht'⟩
  · rw [h] at hstart
    cases hstart
  · obtain rfl : slot' = slot := Option.some_inj.mp (hfind.symm.trans hslot)
    have hafter : (step ops s (.start vm)).vms.find vm =
        some { slot' with exits := 0, state := .running } := by
      rw [step, h]
      dsimp only
      rw [ht', Function.update_self]
    have hzero : (0 : UInt64) ≤ slot'.exitBudget := UInt64.zero_le
    have := acceptedExits_le ops hrunning hafter hzero
    dsimp only at this
    omega

/-- A dispatch that moves the router succeeds. -/
theorem dispatch_router (ops : VmBackend B E) (backend : B) (s : VmMonitor V) (vm : VmId)
    (exit : VmExit) (stores : PolicyStores)
    (h : (dispatchVmExit ops backend s vm exit stores).2.router ≠ s.router) :
    ∃ disposition, (dispatchVmExit ops backend s vm exit stores).1 = .ok disposition ∧
      (dispatchVmExit ops backend s vm exit stores).2.router.nextSequence.toNat =
        s.router.nextSequence.toNat + 1 := by
  rcases dispatchVmExit_cases ops backend s vm exit stores with
    ⟨error, heq, -⟩ | ⟨-, -, -, -, heq⟩ | ⟨-, -, error, s', -, -, -, heq, -, hrouter⟩ |
    ⟨-, -, disposition, s', -, -, -, -, heq, -, hrouter⟩
  · rw [heq] at h
    exact absurd rfl h
  · rw [heq] at h
    exact absurd rfl h
  · rw [heq] at h
    exact absurd hrouter h
  · rw [heq] at h ⊢
    exact ⟨disposition, rfl, hrouter.resolve_left h⟩

/-- **Main theorem.** Over every run: failed dispatches leave no VM running exactly
    if no exit arrives at a full counter; failed VMs stay failed until destroyed;
    a started VM gets at most its budget of exits; and the router moves only with a
    successful dispatch. -/
theorem vm_exit_fail_stop (ops : VmBackend B E) (V : ℕ)
    (toolObject gpuObject controlObject : ObjectId) (calls : List (VmCall B)) :
    let start : VmMonitor V := new V toolObject gpuObject controlObject
    let s := run (step ops) start calls
    (Along (step ops) (StopsOnError ops) start calls ↔
      Along (step ops) (CounterBelowLimit ops) start calls) ∧
    (∀ vm later, s.vms.state vm = .ok .failed → .destroy vm ∉ later →
      (run (step ops) s later).vms.state vm = .ok .failed) ∧
    (∀ vm slot later, (s.vms.start vm).1 = .ok () → s.vms.find vm = some slot →
      Along (step ops) (fun s _ => s.vms.state vm = .ok .running) (step ops s (.start vm)) later →
      acceptedExits ops vm (step ops s (.start vm)) later ≤ slot.exitBudget.toNat) ∧
    (∀ backend vm exit stores, let d := dispatchVmExit ops backend s vm exit stores
      d.2.router ≠ s.router → ∃ disposition, d.1 = .ok disposition ∧
        d.2.router.nextSequence.toNat = s.router.nextSequence.toNat + 1) := by
  intro start s
  exact ⟨along_congr (stopsOnError_iff ops), fun _ _ h hd => failed_run ops h hd,
    fun _ _ _ hstart hslot hrunning => acceptedExits_start_le ops hstart hslot hrunning,
    fun backend vm exit stores => dispatch_router ops backend s vm exit stores⟩

/-! ## The full counter -/

/-- A backend whose vCPU is interrupted whenever it runs. -/
def idleBackend : VmBackend Unit Unit where
  run _ _ := (.ok .interrupted, ())
  readGuest _ _ _ := .error ()
  injectInterrupt _ _ _ := (.ok (), ())

/-- Empty policy stores. -/
def emptyStores : PolicyStores := ⟨CapabilitySpace.new 0, GuestMemory.new 0, IoPortPolicy.denyAll 0⟩

/-- The first VM of a table: slot 0, generation 1. -/
def firstVm : VmId := VmId.new 0 1

/-- An interrupted exit of a running VM is charged and resumed. -/
theorem dispatch_interrupted {s : VmMonitor V} {vm : VmId} {slot : VmSlot}
    (hslot : s.vms.find vm = some slot) (hrun : slot.state = .running)
    (hlt : slot.exits < slot.exitBudget) :
    ∃ exits, exits.toNat = slot.exits.toNat + 1 ∧
      (step idleBackend s (.dispatch () vm .interrupted emptyStores)).vms.find vm =
        some { slot with exits } := by
  have hmax := slot.exitBudget.toNat_lt
  rw [UInt64.lt_iff_toNat_lt] at hlt
  rw [step, dispatchVmExit]
  rcases s.vms.accountExit_cases vm with ⟨error, -, hnot⟩ | ⟨slot', hfind, -, hfull, -⟩ |
    ⟨slot', exits, -, hfind, -, hexits, hover, -⟩ | ⟨slot', exits, t', hfind, -, hexits, -, h, ht'⟩
  · exact absurd hrun (hnot slot hslot)
  · obtain rfl : slot' = slot := Option.some_inj.mp (hfind.symm.trans hslot)
    omega
  · obtain rfl : slot' = slot := Option.some_inj.mp (hfind.symm.trans hslot)
    rw [UInt64.lt_iff_toNat_lt] at hover
    omega
  · obtain rfl : slot' = slot := Option.some_inj.mp (hfind.symm.trans hslot)
    refine ⟨exits, hexits, ?_⟩
    rw [h]
    simp [dispatchInner, ht']

theorem run_interrupted (n : ℕ) {s : VmMonitor V} {vm : VmId} {slot : VmSlot}
    (hslot : s.vms.find vm = some slot) (hrun : slot.state = .running)
    (hle : slot.exits.toNat + n ≤ slot.exitBudget.toNat) :
    ∃ exits, exits.toNat = slot.exits.toNat + n ∧
      (run (step idleBackend) s
        (List.replicate n (.dispatch () vm .interrupted emptyStores))).vms.find vm =
        some { slot with exits } := by
  induction n generalizing s slot with
  | zero => exact ⟨slot.exits, rfl, hslot⟩
  | succ n ih =>
    obtain ⟨exits, hexits, hnext⟩ := dispatch_interrupted hslot hrun
      (UInt64.lt_iff_toNat_lt.mpr (by omega))
    have hbudget : ({ slot with exits } : VmSlot).exits.toNat + n ≤ slot.exitBudget.toNat := by
      dsimp only
      omega
    obtain ⟨exits', hexits', hlast⟩ := ih hnext hrun hbudget
    exact ⟨exits', by rw [hexits']; dsimp only; omega, hlast⟩

/-- A VM with the largest budget, started, with one interrupt per unit of budget. -/
def fullCounterCalls : List (VmCall Unit) :=
  [.create 0xffffffffffffffff, .markLoaded firstVm, .start firstVm] ++
    List.replicate (2 ^ 64 - 1) (.dispatch () firstVm .interrupted emptyStores)

/-- The exit after the last one of the largest budget fails and leaves the VM running. -/
theorem full_counter_runs_on :
    ¬ StopsOnError idleBackend
      (run (step idleBackend) (new 1 ⟨1⟩ ⟨2⟩ ⟨3⟩) fullCounterCalls)
      (.dispatch () firstVm .interrupted emptyStores) := by
  rw [stopsOnError_iff, fullCounterCalls, run_append]
  have hstarted : (run (step idleBackend) (new 1 ⟨1⟩ ⟨2⟩ ⟨3⟩)
      [.create 0xffffffffffffffff, .markLoaded firstVm, .start firstVm]).vms.find firstVm =
      some ⟨1, .running, 0, 0xffffffffffffffff⟩ := by decide
  obtain ⟨exits, hexits, hslot⟩ := run_interrupted (2 ^ 64 - 1) hstarted rfl (by decide)
  intro hlimit
  have := hlimit _ rfl _ hslot rfl
  dsimp only at this
  rw [hexits] at this
  exact absurd this (by decide)

/-! ## Entering a vCPU -/

/-- `run_vm_once` runs the backend only for a VM that is running and whose next exit
    is within its budget. -/
def EntersReadyVm (ops : VmBackend B E) (s : VmMonitor V) : VmCall B → Prop
  | .runOnce backend vcpu vm stores =>
    .run vcpu ∈ (runVmOnce ops backend vcpu s vm stores).calls →
      s.vms.state vm = .ok .running ∧ ∃ left, (s.vms.accountExit vm).1 = .ok left
  | _ => True

/-- `run_vm_once` is called for an identifier whose slot is filled under its
    generation, in state `Running` and with fewer exits than its budget. -/
def CalledReady (s : VmMonitor V) : VmCall B → Prop
  | .runOnce _ _ vm _ => ∃ i slot, s.vms.slots i = some slot ∧ i.val = vm.index.toNat ∧
      slot.generation = vm.generation ∧ slot.state = .running ∧ slot.exits < slot.exitBudget
  | _ => True

/-- The next exit is charged exactly if the VM runs below its budget. -/
theorem accountExit_ok_iff {t : VmTable V} {vm : VmId} :
    (∃ left, (t.accountExit vm).1 = .ok left) ↔
      ∃ slot, t.find vm = some slot ∧ slot.state = .running ∧ slot.exits < slot.exitBudget := by
  rcases t.accountExit_cases vm with ⟨error, h, hnot⟩ | ⟨slot, hfind, -, hfull, h⟩ |
    ⟨slot, exits, t', hfind, -, hexits, hover, h, -⟩ | ⟨slot, exits, t', hfind, hrun, hexits, hle, h, -⟩
  · rw [h]
    refine iff_of_false (by simp) ?_
    rintro ⟨slot, hslot, hrun, -⟩
    exact hnot slot hslot hrun
  · rw [h]
    refine iff_of_false (by simp) ?_
    rintro ⟨slot', hslot', -, hlt⟩
    obtain rfl : slot = slot' := Option.some_inj.mp (hfind.symm.trans hslot')
    rw [UInt64.lt_iff_toNat_lt] at hlt
    have := slot.exitBudget.toNat_lt
    omega
  · rw [h]
    refine iff_of_false (by simp) ?_
    rintro ⟨slot', hslot', -, hlt⟩
    obtain rfl : slot = slot' := Option.some_inj.mp (hfind.symm.trans hslot')
    rw [UInt64.lt_iff_toNat_lt] at hlt hover
    omega
  · rw [h]
    refine iff_of_true ⟨_, rfl⟩ ⟨slot, hfind, hrun, ?_⟩
    rw [UInt64.le_iff_toNat_le] at hle
    rw [UInt64.lt_iff_toNat_lt]
    omega

/-- `run_vm_once` always runs the backend, once. -/
theorem runVmOnce_calls (ops : VmBackend B E) (backend : B) (vcpu : UInt32) (s : VmMonitor V)
    (vm : VmId) (stores : PolicyStores) :
    (runVmOnce ops backend vcpu s vm stores).calls = [.run vcpu] := by
  unfold runVmOnce
  split <;> rfl

theorem entersReadyVm_iff (ops : VmBackend B E) (s : VmMonitor V) (call : VmCall B) :
    EntersReadyVm ops s call ↔ CalledReady s call := by
  cases call with
  | runOnce backend vcpu vm stores =>
    rw [EntersReadyVm, CalledReady, runVmOnce_calls, VmTable.state_eq_ok, accountExit_ok_iff]
    simp only [List.mem_singleton, true_imp_iff, VmTable.find_eq_some, VmTable.slotMut_eq_ok]
    constructor
    · rintro ⟨-, slot, ⟨i, hi, hslot, hgen⟩, hrun, hlt⟩
      exact ⟨i, slot, hslot, hi, hgen, hrun, hlt⟩
    · rintro ⟨i, slot, hslot, hi, hgen, hrun, hlt⟩
      exact ⟨⟨slot, ⟨i, hi, hslot, hgen⟩, hrun⟩, slot, ⟨i, hi, hslot, hgen⟩, hrun, hlt⟩
  | _ => exact Iff.rfl

/-- **Main theorem.** In a run, every vCPU entered belongs to a VM that is running
    with budget left exactly if every `run_vm_once` was called for such a VM. -/
theorem vcpu_entered_iff_ready (ops : VmBackend B E) (V : ℕ)
    (toolObject gpuObject controlObject : ObjectId) (calls : List (VmCall B)) :
    Along (step ops) (EntersReadyVm ops)
        (new V toolObject gpuObject controlObject : VmMonitor V) calls ↔
      Along (step ops) CalledReady
        (new V toolObject gpuObject controlObject : VmMonitor V) calls :=
  along_congr (entersReadyVm_iff ops)

/-- The vCPU of a destroyed VM is entered. -/
theorem destroyed_vm_entered :
    ¬ Along (step idleBackend) (EntersReadyVm idleBackend) (new 1 ⟨1⟩ ⟨2⟩ ⟨3⟩ : VmMonitor 1)
      [.create 8, .destroy firstVm, .runOnce () 0 firstVm emptyStores] := by
  rintro ⟨-, -, henters, -⟩
  have := (henters (by decide)).1
  revert this
  decide

end VmMonitor

end Mrml.Vm
