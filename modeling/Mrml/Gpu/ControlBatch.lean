import Mrml.Common.Reservation
import Mrml.Gpu.Schema
import Mrml.Gpu.Watchdog

/-!
# Submission of a control batch

Model of `submit_gpu_control_batch` and of what it calls
(`crates/mrml-kernel/src/virtual_gpu.rs`, lines 1195–1280, 1989–2029, 2219–2418 and
2638–2759): the sealed bytes are verified and decoded, the members get watchdog identities,
the batch is validated and goes to the executor, and its completions go to the ring. The
hash of the sealed bytes is a parameter. `MediatedGpuExecutor` runs on any host backend; it
keeps a history of the launches that it has asked its backend for, which no operation reads.

Results:
* `submitGpuControlBatch_transactional`: what each answer of a submission says about the
  watchdog, the sender, the ring and the executor.
-/

namespace Mrml.Gpu

/-! ## Sealed control buffers -/

/-- `ControlBuffer` (lines 1195–1201). -/
structure ControlBuffer where
  generation : UInt32
  length : UInt32
  digest : Vector UInt8 64
  occupied : Bool

/-- `ControlBufferTable` (lines 1216–1218). -/
structure ControlBufferTable (CONTROLS : ℕ) where
  entries : Fin CONTROLS → ControlBuffer

namespace ControlBufferTable

variable {CONTROLS : ℕ}

/-- `ControlBufferTable::entry` (lines 1275–1280). -/
def entry (controls : ControlBufferTable CONTROLS) (id : ControlBufferId) :
    Except GpuError ControlBuffer :=
  okOr (((slotAt id.slot).map controls.entries).filter fun entry =>
    entry.occupied && entry.generation == id.generation) .invalidControlBuffer

/-- `ControlBufferTable::verify` (lines 1246–1260); `hash` is `Sha3_512::digest`. -/
def verify (hash : List UInt8 → Vector UInt8 64) (controls : ControlBufferTable CONTROLS)
    (id : ControlBufferId) (bytes : List UInt8) : Except GpuError Unit := do
  let entry ← controls.entry id
  refuseIf (bytes.length ≠ entry.length.toNat) .controlBufferChanged
  let difference : UInt8 := (entry.digest.toList.zip (hash bytes).toList).foldl
    (fun difference pair => difference ||| (pair.1 ^^^ pair.2)) 0
  refuseIf (difference ≠ 0) .controlBufferChanged

end ControlBufferTable

/-! ## Validated batches -/

/-- `VerifiedGpuKernelBundle` (lines 1989–1992). -/
structure VerifiedGpuKernelBundle where
  version : UInt64
  digest : Vector UInt8 64

/-- One index of the arrays of `ValidatedGpuBatch`. -/
structure ValidatedGpuDispatch where
  prepared : PreparedGpuDispatch
  launch : ValidatedKernelLaunch
  moeSelection : Option ValidatedExpertSelection

/-- `ValidatedGpuBatch` (lines 2323–2327). -/
structure ValidatedGpuBatch where
  members : List ValidatedGpuDispatch

/-- `ValidatedGpuBatch::prepared` (lines 2330–2332). -/
def ValidatedGpuBatch.prepared (batch : ValidatedGpuBatch) : List PreparedGpuDispatch :=
  batch.members.map (·.prepared)

namespace VerifiedGpuKernelBundle

/-- `VerifiedGpuKernelBundle::permits` (lines 2021–2023). -/
def permits (_ : VerifiedGpuKernelBundle) (_ : KernelId) : Bool := true

/-- One turn of the loop of `validate_batch_with_expert_selections` (lines 2395–2411). -/
def validateMember (bundle : VerifiedGpuKernelBundle) (selections : List ValidatedExpertSelection)
    (entry : PreparedGpuDispatch) : Except GpuError ValidatedGpuDispatch :=
  if !bundle.permits entry.dispatch.kernel then .error .untrustedKernelBundle
  else if 22 ≤ entry.dispatch.kernel.id ∧ entry.dispatch.kernel.id ≤ 26 then
    -- the first selection that the schema accepts
    match selections.findSome? fun selection =>
        (entry.dispatch.validateMoeExecutorSchema selection).toOption with
    | none => .error .invalidExpertSelection
    | some (launch, selection) => .ok ⟨entry, launch, some selection⟩
  else
    match entry.dispatch.validateExecutorSchema with
    | .error error => .error error
    | .ok launch => .ok ⟨entry, launch, none⟩

/-- The loop of `validate_batch_with_expert_selections` (lines 2394–2412). -/
def validateLoop (bundle : VerifiedGpuKernelBundle) (selections : List ValidatedExpertSelection) :
    List PreparedGpuDispatch → Except GpuError (List ValidatedGpuDispatch)
  | [] => .ok []
  | entry :: entries => do
    let member ← bundle.validateMember selections entry
    let members ← bundle.validateLoop selections entries
    return member :: members

/-- `validate_batch_with_expert_selections` (lines 2384–2418). -/
def validateBatchWithExpertSelections (bundle : VerifiedGpuKernelBundle)
    (prepared : List PreparedGpuDispatch) (selections : List ValidatedExpertSelection) :
    Except GpuError ValidatedGpuBatch := do
  refuseIf (prepared = []) .emptyBatch
  let members ← bundle.validateLoop selections prepared
  return ⟨members⟩

theorem validateMember_prepared {bundle : VerifiedGpuKernelBundle}
    {selections : List ValidatedExpertSelection} {entry : PreparedGpuDispatch}
    {member : ValidatedGpuDispatch} (h : bundle.validateMember selections entry = .ok member) :
    member.prepared = entry := by
  unfold validateMember at h
  split_ifs at h
  · split at h
    · cases h
    · obtain rfl := Except.ok.inj h
      rfl
  · split at h
    · cases h
    · obtain rfl := Except.ok.inj h
      rfl

theorem validateLoop_prepared {bundle : VerifiedGpuKernelBundle}
    {selections : List ValidatedExpertSelection} {prepared : List PreparedGpuDispatch}
    {members : List ValidatedGpuDispatch}
    (h : bundle.validateLoop selections prepared = .ok members) :
    members.map (·.prepared) = prepared := by
  induction prepared generalizing members with
  | nil =>
    obtain rfl := Except.ok.inj h
    rfl
  | cons entry entries ih =>
    obtain ⟨member, hmember, h⟩ := bind_eq_ok.mp h
    obtain ⟨rest, hrest, h⟩ := bind_eq_ok.mp h
    obtain rfl := Except.ok.inj h
    rw [List.map_cons, validateMember_prepared hmember, ih hrest]

/-- Validation keeps the identities of the batch. -/
theorem validateBatch_prepared {bundle : VerifiedGpuKernelBundle}
    {selections : List ValidatedExpertSelection} {prepared : List PreparedGpuDispatch}
    {batch : ValidatedGpuBatch}
    (h : bundle.validateBatchWithExpertSelections prepared selections = .ok batch) :
    batch.prepared = prepared := by
  obtain ⟨-, -, h⟩ := bind_eq_ok.mp h
  obtain ⟨members, hmembers, h⟩ := bind_eq_ok.mp h
  obtain rfl := Except.ok.inj h
  exact validateLoop_prepared hmembers

end VerifiedGpuKernelBundle

/-! ## Executors -/

/-- `GpuBatchExecutor` (lines 2231–2235). -/
class GpuBatchExecutor (E : Type) where
  Error : Type
  submit : ValidatedGpuBatch → E → Except Error Bool × E

/-- `GpuHostBackend` (lines 2240–2255). -/
class GpuHostBackend (B : Type) where
  Error : Type
  reverifyExpertSelection : ValidatedExpertSelection → B → Except Error Bool × B
  launch : PreparedGpuDispatch → ValidatedKernelLaunch → B → Except Error Unit × B
  finishBatch : B → Except Error Unit × B

/-- `MediatedGpuExecutor` (lines 2261–2263), with the launches that it has asked for. -/
structure MediatedGpuExecutor (B : Type) where
  backend : B
  launched : List (PreparedGpuDispatch × ValidatedKernelLaunch)

namespace MediatedGpuExecutor

variable {B : Type} [GpuHostBackend B]

/-- The preflight pass of `submit` (lines 2284–2290). -/
def reverifyLoop : List ValidatedGpuDispatch → MediatedGpuExecutor B →
    Except (GpuHostBackend.Error B) Bool × MediatedGpuExecutor B
  | [], executor => (.ok true, executor)
  | member :: members, executor =>
    match member.moeSelection with
    | none => reverifyLoop members executor
    | some selection =>
      match GpuHostBackend.reverifyExpertSelection selection executor.backend with
      | (.error error, backend) => (.error error, { executor with backend })
      | (.ok false, backend) => (.ok false, { executor with backend })
      | (.ok true, backend) => reverifyLoop members { executor with backend }

/-- The launch pass of `submit` (lines 2291–2293). -/
def launchLoop : List ValidatedGpuDispatch → MediatedGpuExecutor B →
    Except (GpuHostBackend.Error B) Unit × MediatedGpuExecutor B
  | [], executor => (.ok (), executor)
  | member :: members, executor =>
    match GpuHostBackend.launch member.prepared member.launch executor.backend with
    | (.error error, backend) =>
      (.error error, ⟨backend, executor.launched ++ [(member.prepared, member.launch)]⟩)
    | (.ok (), backend) =>
      launchLoop members ⟨backend, executor.launched ++ [(member.prepared, member.launch)]⟩

/-- `MediatedGpuExecutor::submit` (lines 2283–2296). -/
def submit (batch : ValidatedGpuBatch) (executor : MediatedGpuExecutor B) :
    Except (GpuHostBackend.Error B) Bool × MediatedGpuExecutor B :=
  match reverifyLoop batch.members executor with
  | (.error error, executor) => (.error error, executor)
  | (.ok false, executor) => (.ok false, executor)
  | (.ok true, executor) =>
    match launchLoop batch.members executor with
    | (.error error, executor) => (.error error, executor)
    | (.ok (), executor) =>
      match GpuHostBackend.finishBatch executor.backend with
      | (.error error, backend) => (.error error, { executor with backend })
      | (.ok (), backend) => (.ok true, { executor with backend })

instance : GpuBatchExecutor (MediatedGpuExecutor B) where
  Error := GpuHostBackend.Error B
  submit := submit

/-- The preflight pass launches nothing. -/
theorem reverifyLoop_launched (members : List ValidatedGpuDispatch)
    (executor : MediatedGpuExecutor B) :
    (reverifyLoop members executor).2.launched = executor.launched := by
  induction members generalizing executor with
  | nil => rfl
  | cons member members ih =>
    rw [reverifyLoop]
    split
    · exact ih executor
    · split
      · rfl
      · rfl
      · exact ih _

/-- A batch is rejected before its first launch. -/
theorem submit_rejected {batch : ValidatedGpuBatch} {executor executor' : MediatedGpuExecutor B}
    (h : submit batch executor = (.ok false, executor')) :
    executor'.launched = executor.launched := by
  have hpreflight := reverifyLoop_launched batch.members executor
  unfold submit at h
  split at h
  · cases h
  · next heq =>
    rw [heq] at hpreflight
    obtain rfl := (Prod.mk.inj h).2
    exact hpreflight
  · split at h
    · cases h
    · split at h
      · cases h
      · cases h

end MediatedGpuExecutor

/-! ## The table as a partial map -/

namespace DispatchTable

variable {N : ℕ} {table table' : DispatchTable N} {before : DispatchId → Option UInt64}

/-- The request id of a live id. -/
def requests (table : DispatchTable N) (id : DispatchId) : Option UInt64 :=
  (table.lookup id).map fun i => (table.entries i).requestId

/-- The live ids of a batch, with their request ids. -/
def reservations (prepared : List PreparedGpuDispatch) : List (DispatchId × UInt64) :=
  prepared.map fun entry => (entry.dispatchId, entry.requestId)

/-- What `GpuCompletion::new` checks of a member. -/
def Completable (entry : PreparedGpuDispatch) : Prop :=
  entry.requestId ≠ 0 ∧ entry.dispatchId.generation ≠ 0

theorem contains_eq (table : DispatchTable N) (id : DispatchId) :
    table.contains id = (table.requests id).isSome := by
  rw [contains, requests, Option.isSome_map]

/-- An id is its slot and its generation. -/
theorem eq_of_slotAt {id id' : DispatchId} {i : Fin N} (h : slotAt id.slot = some i)
    (h' : slotAt id'.slot = some i) (hgeneration : id.generation = id'.generation) : id = id' := by
  obtain ⟨slot, generation⟩ := id
  obtain ⟨slot', generation'⟩ := id'
  have hslot : slot = slot' := by
    rw [← UInt32.toNat_inj]
    exact (slotAt_eq_some.mp h).symm.trans (slotAt_eq_some.mp h')
  exact congrArg₂ DispatchId.mk hslot hgeneration

theorem requests_update (table : DispatchTable N) (i : Fin N) (entry : InFlightDispatch)
    (history : List (HandleEvent UInt64)) (id : DispatchId) :
    requests ⟨Function.update table.entries i entry, history⟩ id =
      if slotAt id.slot = some i then
        if entry.occupied && entry.generation == id.generation then some entry.requestId else none
      else table.requests id := by
  unfold requests lookup
  cases hslot : (slotAt id.slot : Option (Fin N)) with
  | none => simp
  | some j =>
    by_cases hj : j = i
    · subst hj
      simp only [Option.filter_some, Function.update_self, if_true]
      split_ifs <;> simp
    · simp only [Option.filter_some, Function.update_of_ne hj, Option.some_inj, hj, if_false]
      split_ifs
      · rw [Option.map_some, Option.map_some, Function.update_of_ne hj]
      · rfl

/-- A new id has not been live, and gets its request id. -/
theorem begin_requests (hN : N ≤ 2 ^ 32) {requestId now deadline : UInt64} {id : DispatchId}
    (h : table.begin requestId now deadline = (.ok id, table')) :
    table.requests id = none ∧
      table'.requests = Function.update table.requests id (some requestId) ∧
      requestId ≠ 0 ∧ id.generation ≠ 0 := by
  unfold begin at h
  split_ifs at h with hinvalid hduplicate
  · cases h
  · cases h
  · split at h
    · cases h
    · next i hi =>
      have hfree := firstSlot_some hi
      rw [Bool.and_eq_true, Bool.not_eq_true', bne_iff_ne] at hfree
      obtain ⟨hid, htable⟩ := Prod.mk.inj h
      obtain rfl := Except.ok.inj hid
      have hslot : slotAt (UInt32.ofNat i) = some i := slotAt_ofNat hN i
      -- no id of a free slot is live
      have hnone : ∀ id : DispatchId, slotAt id.slot = some i → table.requests id = none := by
        intro id hid
        rw [requests, lookup, hid, Option.filter_some, hfree.1]
        rfl
      refine ⟨hnone _ hslot, ?_, fun hzero => hinvalid (.inl hzero), hfree.2⟩
      funext id
      rw [← htable, requests_update]
      by_cases hid : id = ⟨UInt32.ofNat i, (table.entries i).generation⟩
      · rw [hid, Function.update_self, if_pos hslot]
        simp
      · rw [Function.update_of_ne hid]
        split_ifs with hsame hgeneration
        · simp only [Bool.true_and, beq_iff_eq] at hgeneration
          exact absurd (eq_of_slotAt hsame hslot hgeneration.symm) hid
        · exact (hnone id hsame).symm
        · rfl

theorem begin_error {requestId now deadline : UInt64} {error : GpuError}
    (h : table.begin requestId now deadline = (.error error, table')) : table' = table := by
  unfold begin at h
  split_ifs at h
  · exact (Prod.mk.inj h).2.symm
  · exact (Prod.mk.inj h).2.symm
  · split at h
    · exact (Prod.mk.inj h).2.symm
    · cases h

/-- A live id is removed with its request id. -/
theorem remove_requests {id : DispatchId} {requestId : UInt64}
    (h : table.requests id = some requestId) (event : UInt64 → HandleEvent UInt64) :
    ∃ table', table.remove id event = (.ok requestId, table') ∧
      table'.requests = Function.update table.requests id none := by
  obtain ⟨i, hlookup, hrequest⟩ := Option.map_eq_some_iff.mp h
  obtain ⟨hslot, -, hgeneration⟩ := lookup_eq_some.mp hlookup
  rw [remove, hlookup, ← hrequest]
  refine ⟨_, rfl, funext fun other => ?_⟩
  rw [requests_update]
  by_cases hother : other = id
  · rw [hother, Function.update_self, if_pos (slotAt_eq_some.mpr hslot)]
    rfl
  · rw [Function.update_of_ne hother]
    split_ifs with hsame hinvalid
    · cases hinvalid
    · -- another id of the slot has another generation
      have hnone : table.lookup other = none := by
        rw [Option.eq_none_iff_forall_ne_some]
        intro j hj
        obtain ⟨hslot', -, hgeneration'⟩ := lookup_eq_some.mp hj
        have hindex : j = i := Fin.ext (hslot'.trans (slotAt_eq_some.mp hsame).symm)
        rw [hindex, hgeneration] at hgeneration'
        exact hother (eq_of_slotAt hsame (slotAt_eq_some.mpr hslot) hgeneration'.symm)
      rw [requests, hnone]
      rfl
    · rfl

/-- **Step lemma.** The admission loop reserves one id after the other. -/
theorem beginLoop_reserves (hN : N ≤ 2 ^ 32) (now deadline : UInt64)
    (entries : List BatchedDispatch) {prepared : List PreparedGpuDispatch}
    (h : Reserves before table.requests (reservations prepared))
    (hprepared : ∀ entry ∈ prepared, Completable entry)
    {result : Except GpuError Unit} {prepared' : List PreparedGpuDispatch}
    (heq : beginLoop now deadline entries prepared table = (result, prepared', table')) :
    Reserves before table'.requests (reservations prepared') ∧
      (∀ entry ∈ prepared', Completable entry) ∧
      (result = .ok () → prepared'.map (·.requestId) =
        prepared.map (·.requestId) ++ entries.map (·.requestId)) := by
  induction entries generalizing prepared table with
  | nil =>
    cases heq
    refine ⟨h, hprepared, fun _ => ?_⟩
    rw [List.map_nil, List.append_nil]
  | cons entry entries ih =>
    rw [beginLoop] at heq
    split at heq
    · next error table₁ hbegin =>
      cases heq
      rw [begin_error hbegin]
      exact ⟨h, hprepared, by rintro ⟨⟩⟩
    · next id table₁ hbegin =>
      obtain ⟨hnew, hrequests, hrequest, hgeneration⟩ := begin_requests hN hbegin
      have hinsert := h.insert entry.requestId hnew
      rw [← hrequests] at hinsert
      have hreserves : Reserves before table₁.requests
          (reservations (prepared ++ [⟨entry.requestId, id, entry.dispatch⟩])) := by
        rw [reservations, List.map_append]
        exact hinsert
      have hcompletable : ∀ member ∈ prepared ++ [⟨entry.requestId, id, entry.dispatch⟩],
          Completable member := by
        intro member hmember
        rcases List.mem_append.mp hmember with hmember | hmember
        · exact hprepared member hmember
        · obtain rfl := List.mem_singleton.mp hmember
          exact ⟨hrequest, hgeneration⟩
      obtain ⟨hreserves', hcompletable', hids⟩ := ih hreserves hcompletable heq
      refine ⟨hreserves', hcompletable', fun hok => ?_⟩
      rw [hids hok, List.map_append, List.append_assoc]
      rfl

/-- The rollback of `begin_batch` takes every reservation out. -/
theorem cancelAll_reserves (prepared : List PreparedGpuDispatch)
    (h : Reserves before table.requests (reservations prepared)) :
    (cancelAll prepared table).requests = before := by
  induction prepared generalizing table with
  | nil => exact h.eq_of_nil
  | cons entry prepared ih =>
    obtain ⟨table₁, hcancel, hrequests⟩ :=
      remove_requests h.head fun _ => .dropped entry.dispatchId.handle
    have herase := h.erase
    rw [← hrequests] at herase
    show (cancelAll prepared (table.cancel entry.dispatchId).2).requests = before
    rw [cancel, hcancel]
    exact ih herase

/-- `cancel_batch` finds every reserved id live. -/
theorem cancelBatch_reserves (prepared : List PreparedGpuDispatch)
    (h : Reserves before table.requests (reservations prepared)) :
    (cancelBatch prepared table).requests = before := by
  induction prepared generalizing table with
  | nil => exact h.eq_of_nil
  | cons entry prepared ih =>
    obtain ⟨table₁, hcancel, hrequests⟩ :=
      remove_requests h.head fun _ => .dropped entry.dispatchId.handle
    have herase := h.erase
    rw [← hrequests] at herase
    have hlive : table.contains entry.dispatchId = true := by
      rw [contains_eq, h.head]
      rfl
    show (cancelBatch prepared (if table.contains entry.dispatchId then
      (table.cancel entry.dispatchId).2 else table)).requests = before
    rw [if_pos hlive, cancel, hcancel]
    exact ih herase

/-- The completion loop goes through to its end. -/
theorem completeLoop_reserves (prepared : List PreparedGpuDispatch)
    (h : Reserves before table.requests (reservations prepared))
    (hprepared : ∀ entry ∈ prepared, Completable entry) {sender : Endpoint}
    (hroom : sender.nextSequence.toNat + prepared.length < 2 ^ 64) (outputs : List Output) :
    ∃ table' sender' new, completeLoop prepared table sender outputs =
        (.ok (), table', sender', outputs ++ new) ∧
      table'.requests = before ∧ new.length = prepared.length := by
  induction prepared generalizing table sender outputs with
  | nil =>
    refine ⟨table, sender, [], ?_, h.eq_of_nil, rfl⟩
    rw [List.append_nil]
    rfl
  | cons entry prepared ih =>
    obtain ⟨⟨hrequest, hgeneration⟩, hprepared⟩ := List.forall_mem_cons.mp hprepared
    obtain ⟨table₁, hcomplete, hrequests⟩ :=
      remove_requests h.head (.completed entry.dispatchId.handle)
    have herase := h.erase
    rw [← hrequests] at herase
    obtain ⟨completion, hnew, -, -⟩ :=
      new_completion entry.dispatchId .success hrequest hgeneration
    rw [List.length_cons] at hroom
    obtain ⟨message, sender₁, hencode, hsequence⟩ := encode_completion sender completion (by omega)
    have hroom₁ : sender₁.nextSequence.toNat + prepared.length < 2 ^ 64 := by omega
    obtain ⟨table', sender', new, hloop, hbefore, hlength⟩ :=
      ih herase hprepared hroom₁ (outputs ++ [(completion, message)])
    refine ⟨table', sender', (completion, message) :: new, ?_, hbefore, ?_⟩
    · rw [completeLoop, complete, hcomplete]
      dsimp only
      rw [hnew]
      dsimp only
      rw [hencode]
      dsimp only
      rw [hloop, List.append_assoc, List.singleton_append]
    · rw [List.length_cons, List.length_cons, hlength]

/-- A refused batch leaves no id behind. -/
theorem beginBatch_error (hN : N ≤ 2 ^ 32) {M : ℕ} {batch : GpuDispatchBatch M}
    {now deadline : UInt64} {error : GpuError}
    (h : table.beginBatch batch now deadline = (.error error, table')) :
    table'.requests = table.requests := by
  unfold beginBatch at h
  split_ifs at h
  · cases h
    rfl
  · split at h
    · next heq =>
      obtain ⟨hreserves, -, -⟩ := beginLoop_reserves hN now deadline batch.entries
        (.refl table.requests) (List.forall_mem_nil _) heq
      cases h
      exact cancelAll_reserves _ hreserves
    · cases h

/-- An accepted batch reserves an id for each of its members. -/
theorem beginBatch_reserves (hN : N ≤ 2 ^ 32) {M : ℕ} {batch : GpuDispatchBatch M}
    {now deadline : UInt64} {prepared : List PreparedGpuDispatch}
    (h : table.beginBatch batch now deadline = (.ok prepared, table')) :
    Reserves table.requests table'.requests (reservations prepared) ∧
      (∀ entry ∈ prepared, Completable entry) ∧
      prepared.map (·.requestId) = batch.entries.map (·.requestId) := by
  unfold beginBatch at h
  split_ifs at h
  · cases h
  · split at h
    · cases h
    · next heq =>
      obtain ⟨hreserves, hcompletable, hids⟩ := beginLoop_reserves hN now deadline batch.entries
        (.refl table.requests) (List.forall_mem_nil _) heq
      cases h
      exact ⟨hreserves, hcompletable, hids rfl⟩

/-- The ids of a batch are live. -/
theorem contains_of_reserves {prepared : List PreparedGpuDispatch}
    (h : Reserves before table.requests (reservations prepared)) :
    ∀ entry ∈ prepared, table.contains entry.dispatchId = true := by
  intro entry hentry
  have hstored := h.stored _ (List.mem_map_of_mem (f := fun entry : PreparedGpuDispatch =>
    (entry.dispatchId, entry.requestId)) hentry)
  rw [contains_eq, hstored]
  rfl

end DispatchTable

/-! ## Submissions -/

/-- What a submission borrows as mutable: `executor`, `watchdog`, `sender` and
    `completion_ring`. -/
structure GpuService (E : Type) (WATCHDOG RING : ℕ) where
  executor : E
  watchdog : DispatchTable WATCHDOG
  sender : Endpoint
  completionRing : OwnedRing RING

namespace GpuService

variable {E : Type} [GpuBatchExecutor E] {WATCHDOG RING CONTROLS BUFFERS : ℕ}

/-- `submit_gpu_batch_with_completions` (lines 2638–2679), with the outputs. The error of the
    executor is not kept. -/
def submitGpuBatchWithCompletions (s : GpuService E WATCHDOG RING) (batch : ValidatedGpuBatch) :
    Except GpuLifecycleError Unit × GpuService E WATCHDOG RING × List Output :=
  if batch.prepared.any fun entry => !s.watchdog.contains entry.dispatchId then
    (.error (.invalidState .invalidDispatch), s, [])
  else
    match GpuCompletionSender.ensureCapacity s.sender batch.prepared.length with
    | .error error => (.error (.invalidState error), s, [])
    | .ok () =>
      match GpuBatchExecutor.submit batch s.executor with
      | (.ok false, executor) =>
        (.error .rejected,
          { s with executor, watchdog := DispatchTable.cancelBatch batch.prepared s.watchdog }, [])
      | (.error _, executor) => (.error .uncertain, { s with executor }, [])
      | (.ok true, executor) =>
        match DispatchTable.completeLoop batch.prepared s.watchdog s.sender [] with
        | (result, watchdog, sender, outputs) =>
          (result, { s with executor, watchdog, sender }, outputs)

/-- `submit_gpu_batch_to_completion_ring` (lines 2683–2704). -/
def submitGpuBatchToCompletionRing (s : GpuService E WATCHDOG RING) (batch : ValidatedGpuBatch) :
    Except GpuLifecycleError Unit × GpuService E WATCHDOG RING :=
  match s.completionRing.ensureCapacity batch.prepared.length with
  | .error error => (.error (.invalidState error), s)
  | .ok () =>
    match s.submitGpuBatchWithCompletions batch with
    | (.error error, s, _) => (.error error, s)
    | (.ok (), s, outputs) =>
      match s.completionRing.enqueueBatch
          (outputs.map fun output => QueueMessage.ofBytes output.2) batch.prepared.length with
      | (.error error, completionRing) =>
        (.error (.invalidState error), { s with completionRing })
      | (.ok (), completionRing) => (.ok (), { s with completionRing })

/-- The part of `submit_gpu_control_batch` before `begin_batch` (lines 2735–2745), which
    changes nothing. -/
def preflight (hash : List UInt8 → Vector UInt8 64) (BATCH : ℕ) (s : GpuService E WATCHDOG RING)
    (controls : ControlBufferTable CONTROLS) (control : ControlBufferId)
    (controlBytes : List UInt8) (session : VirtualGpuSession BUFFERS) :
    Except GpuError (UInt64 × GpuDispatchBatch BATCH) := do
  controls.verify hash control controlBytes
  let (batchId, batch) ← GpuDispatchBatch.decode BATCH session controlBytes
  s.completionRing.ensureCapacity batch.entries.length
  GpuCompletionSender.ensureCapacity s.sender batch.entries.length
  return (batchId, batch)

/-- `submit_gpu_control_batch` (lines 2711–2759). -/
def submitGpuControlBatch (hash : List UInt8 → Vector UInt8 64) (BATCH : ℕ)
    (s : GpuService E WATCHDOG RING) (controls : ControlBufferTable CONTROLS)
    (control : ControlBufferId) (controlBytes : List UInt8) (session : VirtualGpuSession BUFFERS)
    (bundle : VerifiedGpuKernelBundle) (expertSelections : List ValidatedExpertSelection)
    (now deadline : UInt64) : Except GpuLifecycleError UInt64 × GpuService E WATCHDOG RING :=
  match s.preflight hash BATCH controls control controlBytes session with
  | .error error => (.error (.invalidState error), s)
  | .ok (batchId, batch) =>
    match s.watchdog.beginBatch batch now deadline with
    | (.error error, watchdog) => (.error (.invalidState error), { s with watchdog })
    | (.ok prepared, watchdog) =>
      match bundle.validateBatchWithExpertSelections prepared expertSelections with
      | .error error =>
        (.error (.invalidState error),
          { s with watchdog := DispatchTable.cancelBatch prepared watchdog })
      | .ok validated =>
        match submitGpuBatchToCompletionRing { s with watchdog } validated with
        | (.error error, s) => (.error error, s)
        | (.ok (), s) => (.ok batchId, s)

/-- The live ids, the sender and the ring are as before. -/
structure SameState (s s' : GpuService E WATCHDOG RING) : Prop where
  live : ∀ id, s'.watchdog.contains id = s.watchdog.contains id
  sender : s'.sender = s.sender
  completionRing : s'.completionRing = s.completionRing

omit [GpuBatchExecutor E] in
theorem SameState.of_requests {s s' : GpuService E WATCHDOG RING}
    (h : s'.watchdog.requests = s.watchdog.requests) (hsender : s'.sender = s.sender)
    (hring : s'.completionRing = s.completionRing) : SameState s s' where
  live := by
    intro id
    rw [DispatchTable.contains_eq, DispatchTable.contains_eq, h]
  sender := hsender
  completionRing := hring

omit [GpuBatchExecutor E] in
theorem preflight_eq_ok {hash : List UInt8 → Vector UInt8 64} {BATCH : ℕ}
    {s : GpuService E WATCHDOG RING} {controls : ControlBufferTable CONTROLS}
    {control : ControlBufferId} {controlBytes : List UInt8} {session : VirtualGpuSession BUFFERS}
    {batchId : UInt64} {batch : GpuDispatchBatch BATCH}
    (h : s.preflight hash BATCH controls control controlBytes session = .ok (batchId, batch)) :
    s.completionRing.ensureCapacity batch.entries.length = .ok () ∧
      GpuCompletionSender.ensureCapacity s.sender batch.entries.length = .ok () := by
  obtain ⟨-, -, h⟩ := bind_eq_ok.mp h
  obtain ⟨⟨batchId', batch'⟩, -, h⟩ := bind_eq_ok.mp h
  obtain ⟨⟨⟩, hring, h⟩ := bind_eq_ok.mp h
  obtain ⟨⟨⟩, hsender, h⟩ := bind_eq_ok.mp h
  cases h
  exact ⟨hring, hsender⟩

section Submission

variable {s : GpuService E WATCHDOG RING} {batch : ValidatedGpuBatch}
  {before : DispatchId → Option UInt64}
  (hreserves : Reserves before s.watchdog.requests (DispatchTable.reservations batch.prepared))
  (hring : s.completionRing.ensureCapacity batch.prepared.length = .ok ())
  (hsender : GpuCompletionSender.ensureCapacity s.sender batch.prepared.length = .ok ())

include hreserves hsender in
/-- A batch whose ids are live reaches the executor. -/
theorem submitWithCompletions_eq :
    s.submitGpuBatchWithCompletions batch =
      match GpuBatchExecutor.submit batch s.executor with
      | (.ok false, executor) =>
        (.error .rejected,
          { s with executor, watchdog := DispatchTable.cancelBatch batch.prepared s.watchdog }, [])
      | (.error _, executor) => (.error .uncertain, { s with executor }, [])
      | (.ok true, executor) =>
        match DispatchTable.completeLoop batch.prepared s.watchdog s.sender [] with
        | (result, watchdog, sender, outputs) =>
          (result, { s with executor, watchdog, sender }, outputs) := by
  have hlive : ¬ (batch.prepared.any fun entry => !s.watchdog.contains entry.dispatchId) =
      true := by
    rw [List.any_eq_true]
    rintro ⟨entry, hentry, hdead⟩
    rw [DispatchTable.contains_of_reserves hreserves entry hentry] at hdead
    cases hdead
  rw [submitGpuBatchWithCompletions, if_neg hlive, hsender]

include hreserves hring hsender

/-- The executor rejects the batch: its ids are cancelled. -/
theorem submitToRing_rejected {executor : E}
    (hsubmit : GpuBatchExecutor.submit batch s.executor = (.ok false, executor)) :
    ∃ watchdog, s.submitGpuBatchToCompletionRing batch =
        (.error .rejected, { s with executor, watchdog }) ∧ watchdog.requests = before := by
  refine ⟨DispatchTable.cancelBatch batch.prepared s.watchdog, ?_,
    DispatchTable.cancelBatch_reserves _ hreserves⟩
  rw [submitGpuBatchToCompletionRing, hring]
  dsimp only
  rw [submitWithCompletions_eq hreserves hsender, hsubmit]

/-- The executor is uncertain: the ids stay. -/
theorem submitToRing_uncertain {executor : E} {error : GpuBatchExecutor.Error E}
    (hsubmit : GpuBatchExecutor.submit batch s.executor = (.error error, executor)) :
    s.submitGpuBatchToCompletionRing batch = (.error .uncertain, { s with executor }) := by
  rw [submitGpuBatchToCompletionRing, hring]
  dsimp only
  rw [submitWithCompletions_eq hreserves hsender, hsubmit]

/-- The executor accepts the batch: its completions are written and queued. -/
theorem submitToRing_accepted
    (hcompletable : ∀ entry ∈ batch.prepared, DispatchTable.Completable entry)
    (hlength : batch.prepared.length ≤ 2 ^ 32) {executor : E}
    (hsubmit : GpuBatchExecutor.submit batch s.executor = (.ok true, executor)) :
    ∃ s', s.submitGpuBatchToCompletionRing batch = (.ok (), s') ∧
      s'.watchdog.requests = before := by
  obtain ⟨watchdog, sender, new, hloop, hbefore, hnew⟩ :=
    DispatchTable.completeLoop_reserves _ hreserves hcompletable
      (DispatchTable.room_of_ensureCapacity hlength hsender) []
  obtain ⟨completionRing, henqueue⟩ := OwnedRing.enqueueBatch_of_ensureCapacity
    (new.map fun output => QueueMessage.ofBytes output.2)
    (by rw [List.length_map, hnew]) hring
  refine ⟨⟨executor, watchdog, sender, completionRing⟩, ?_, hbefore⟩
  rw [submitGpuBatchToCompletionRing, hring]
  dsimp only
  rw [submitWithCompletions_eq hreserves hsender, hsubmit]
  dsimp only
  rw [hloop, List.nil_append]
  dsimp only
  rw [henqueue]

end Submission

/-- The answer of a submission whose batch has its identities. -/
def answer (bundle : VerifiedGpuKernelBundle) (expertSelections : List ValidatedExpertSelection)
    (batchId : UInt64) (prepared : List PreparedGpuDispatch) (executor : E) :
    Except GpuLifecycleError UInt64 :=
  match bundle.validateBatchWithExpertSelections prepared expertSelections with
  | .error error => .error (.invalidState error)
  | .ok validated =>
    match (GpuBatchExecutor.submit validated executor).1 with
    | .ok true => .ok batchId
    | .ok false => .error .rejected
    | .error _ => .error .uncertain

/-- What a submission has done, by its answer. -/
structure Transactional (s : GpuService E WATCHDOG RING) (prepared : List PreparedGpuDispatch)
    (watchdog : DispatchTable WATCHDOG) (result : Except GpuLifecycleError UInt64)
    (s' : GpuService E WATCHDOG RING) : Prop where
  invalid : ∀ error, result = .error (.invalidState error) →
    SameState s s' ∧ s'.executor = s.executor
  rejected : result = .error .rejected → SameState s s' ∧
    ∃ validated, GpuBatchExecutor.submit validated s.executor = (.ok false, s'.executor)
  uncertain : result = .error .uncertain → s'.watchdog = watchdog ∧
    ∀ entry ∈ prepared, s'.watchdog.contains entry.dispatchId = true

/-- An invalid state comes from validation. -/
theorem validation_of_answer {bundle : VerifiedGpuKernelBundle}
    {expertSelections : List ValidatedExpertSelection} {batchId : UInt64}
    {prepared : List PreparedGpuDispatch} {executor : E} {error : GpuError}
    (h : answer bundle expertSelections batchId prepared executor =
      .error (.invalidState error)) :
    bundle.validateBatchWithExpertSelections prepared expertSelections = .error error := by
  unfold answer at h
  split at h
  · next heq =>
    cases h
    exact heq
  · split at h
    · cases h
    · cases h
    · cases h

section ControlBatch

variable (hash : List UInt8 → Vector UInt8 64) (BATCH : ℕ) (s : GpuService E WATCHDOG RING)
  (controls : ControlBufferTable CONTROLS) (control : ControlBufferId) (controlBytes : List UInt8)
  (session : VirtualGpuSession BUFFERS) (bundle : VerifiedGpuKernelBundle)
  (expertSelections : List ValidatedExpertSelection) (now deadline : UInt64)

/-- A batch that has its identities is answered by validation or by the executor. -/
theorem submitGpuControlBatch_of_begin (hN : WATCHDOG ≤ 2 ^ 32) {batchId : UInt64}
    {batch : GpuDispatchBatch BATCH} {prepared : List PreparedGpuDispatch}
    {watchdog : DispatchTable WATCHDOG}
    (hpreflight :
      s.preflight hash BATCH controls control controlBytes session = .ok (batchId, batch))
    (hbegin : s.watchdog.beginBatch batch now deadline = (.ok prepared, watchdog)) :
    ∃ s', s.submitGpuControlBatch hash BATCH controls control controlBytes session bundle
        expertSelections now deadline =
          (answer bundle expertSelections batchId prepared s.executor, s') ∧
      Transactional s prepared watchdog
        (answer bundle expertSelections batchId prepared s.executor) s' := by
  obtain ⟨hring, hsender⟩ := preflight_eq_ok hpreflight
  obtain ⟨hreserves, hcompletable, hids⟩ := DispatchTable.beginBatch_reserves hN hbegin
  have hlength : prepared.length = batch.entries.length := by
    rw [← List.length_map (f := fun entry : PreparedGpuDispatch => entry.requestId), hids,
      List.length_map]
  have hle : prepared.length ≤ 2 ^ 32 := by
    have hmax : maxBatchDispatches = 32 := rfl
    have := batch.count_le
    omega
  rw [← hlength] at hring hsender
  unfold submitGpuControlBatch answer
  rw [hpreflight]
  dsimp only
  rw [hbegin]
  dsimp only
  cases hvalidate : bundle.validateBatchWithExpertSelections prepared expertSelections with
  | error error =>
    refine ⟨_, rfl, ?_, nofun, nofun⟩
    rintro - -
    exact ⟨.of_requests (DispatchTable.cancelBatch_reserves _ hreserves) rfl rfl, rfl⟩
  | ok validated =>
    dsimp only
    -- the executor sees the table with the batch in it
    obtain rfl := VerifiedGpuKernelBundle.validateBatch_prepared hvalidate
    generalize hstate : ({ s with watchdog } : GpuService E WATCHDOG RING) = s₁
    have hexecutor : s₁.executor = s.executor := by rw [← hstate]
    have hreserves₁ : Reserves s.watchdog.requests s₁.watchdog.requests
        (DispatchTable.reservations validated.prepared) := by
      rw [← hstate]
      exact hreserves
    have hring₁ : s₁.completionRing.ensureCapacity validated.prepared.length = .ok () := by
      rw [← hstate]
      exact hring
    have hsender₁ : GpuCompletionSender.ensureCapacity s₁.sender validated.prepared.length =
        .ok () := by
      rw [← hstate]
      exact hsender
    rcases hsubmit : GpuBatchExecutor.submit validated s.executor with ⟨_ | _ | _, executor⟩
    · rw [← hexecutor] at hsubmit
      rw [submitToRing_uncertain hreserves₁ hring₁ hsender₁ hsubmit]
      refine ⟨_, rfl, nofun, nofun, fun _ => ?_⟩
      rw [← hstate]
      exact ⟨rfl, DispatchTable.contains_of_reserves hreserves⟩
    · have hsubmit₁ := hsubmit
      rw [← hexecutor] at hsubmit₁
      obtain ⟨watchdog', heq, hbefore⟩ :=
        submitToRing_rejected hreserves₁ hring₁ hsender₁ hsubmit₁
      rw [heq]
      refine ⟨_, rfl, nofun, fun _ => ?_, nofun⟩
      rw [← hstate]
      exact ⟨.of_requests hbefore rfl rfl, validated, hsubmit⟩
    · rw [← hexecutor] at hsubmit
      obtain ⟨s', heq, -⟩ :=
        submitToRing_accepted hreserves₁ hring₁ hsender₁ hcompletable hle hsubmit
      rw [heq]
      exact ⟨_, rfl, nofun, nofun, nofun⟩

/-- A submission that does not get its identities changes nothing that is live. -/
theorem submitGpuControlBatch_of_not_begin (hN : WATCHDOG ≤ 2 ^ 32)
    (h : ∀ batchId batch prepared watchdog,
      s.preflight hash BATCH controls control controlBytes session = .ok (batchId, batch) →
      s.watchdog.beginBatch batch now deadline ≠ (.ok prepared, watchdog)) :
    ∃ error s', s.submitGpuControlBatch hash BATCH controls control controlBytes session bundle
        expertSelections now deadline = (.error (.invalidState error), s') ∧
      SameState s s' ∧ s'.executor = s.executor := by
  unfold submitGpuControlBatch
  split
  · exact ⟨_, _, rfl, .of_requests rfl rfl rfl, rfl⟩
  · next batchId batch hpreflight =>
    split
    · next error watchdog hbegin =>
      exact ⟨_, _, rfl, .of_requests (DispatchTable.beginBatch_error hN hbegin) rfl rfl, rfl⟩
    · next prepared watchdog hbegin =>
      exact absurd hbegin (h _ _ _ _ hpreflight)

end ControlBatch

/-- **Main theorem.** A submission of a control batch is transactional, whatever the state of
    the watchdog, of the sender, of the ring and of the host backend: with an invalid state or
    a rejection, the live ids, the sender and the ring are as before and nothing has been
    launched; with an uncertain outcome, every member of the batch has a live id; and once
    `begin_batch` has minted the ids, the answer is that of validation or of the executor. -/
theorem submitGpuControlBatch_transactional {B : Type} [GpuHostBackend B]
    (hN : WATCHDOG ≤ 2 ^ 32) (hash : List UInt8 → Vector UInt8 64) (BATCH : ℕ)
    (s : GpuService (MediatedGpuExecutor B) WATCHDOG RING)
    (controls : ControlBufferTable CONTROLS) (control : ControlBufferId)
    (controlBytes : List UInt8) (session : VirtualGpuSession BUFFERS)
    (bundle : VerifiedGpuKernelBundle) (expertSelections : List ValidatedExpertSelection)
    (now deadline : UInt64) :
    let (result, s') := s.submitGpuControlBatch hash BATCH controls control controlBytes session
      bundle expertSelections now deadline
    (∀ error, result = .error (.invalidState error) →
      SameState s s' ∧ s'.executor.launched = s.executor.launched) ∧
    (result = .error .rejected →
      SameState s s' ∧ s'.executor.launched = s.executor.launched) ∧
    (result = .error .uncertain → ∃ batchId batch prepared,
      s.preflight hash BATCH controls control controlBytes session = .ok (batchId, batch) ∧
      s.watchdog.beginBatch batch now deadline = (.ok prepared, s'.watchdog) ∧
      prepared.map (·.requestId) = batch.entries.map (·.requestId) ∧
      ∀ entry ∈ prepared, s'.watchdog.contains entry.dispatchId = true) ∧
    ∀ batchId batch prepared watchdog,
      s.preflight hash BATCH controls control controlBytes session = .ok (batchId, batch) →
      s.watchdog.beginBatch batch now deadline = (.ok prepared, watchdog) →
      result = answer bundle expertSelections batchId prepared s.executor ∧
      ∀ error, result = .error (.invalidState error) →
        bundle.validateBatchWithExpertSelections prepared expertSelections = .error error := by
  by_cases hbegun : ∃ batchId batch prepared watchdog,
      s.preflight hash BATCH controls control controlBytes session = .ok (batchId, batch) ∧
      s.watchdog.beginBatch batch now deadline = (.ok prepared, watchdog)
  · obtain ⟨batchId, batch, prepared, watchdog, hpreflight, hbegin⟩ := hbegun
    obtain ⟨s', heq, hdone⟩ := submitGpuControlBatch_of_begin hash BATCH s controls control
      controlBytes session bundle expertSelections now deadline hN hpreflight hbegin
    obtain ⟨-, -, hids⟩ := DispatchTable.beginBatch_reserves hN hbegin
    rw [heq]
    refine ⟨?_, ?_, ?_, ?_⟩
    · intro error herror
      obtain ⟨hsame, hexecutor⟩ := hdone.invalid error herror
      rw [hexecutor]
      exact ⟨hsame, rfl⟩
    · intro hrejected
      obtain ⟨hsame, validated, hsubmit⟩ := hdone.rejected hrejected
      exact ⟨hsame, MediatedGpuExecutor.submit_rejected hsubmit⟩
    · intro huncertain
      obtain ⟨rfl, hlive⟩ := hdone.uncertain huncertain
      exact ⟨batchId, batch, prepared, hpreflight, hbegin, hids, hlive⟩
    · intro batchId' batch' prepared' watchdog' hpreflight' hbegin'
      rw [hpreflight] at hpreflight'
      cases hpreflight'
      rw [hbegin] at hbegin'
      cases hbegin'
      exact ⟨rfl, fun error => validation_of_answer⟩
  · obtain ⟨error, s', heq, hsame, hexecutor⟩ := submitGpuControlBatch_of_not_begin hash BATCH s
      controls control controlBytes session bundle expertSelections now deadline hN
      fun batchId batch prepared watchdog hpreflight hbegin =>
        hbegun ⟨batchId, batch, prepared, watchdog, hpreflight, hbegin⟩
    rw [heq]
    refine ⟨fun _ _ => ⟨hsame, by rw [hexecutor]⟩, nofun, nofun, ?_⟩
    intro batchId batch prepared watchdog hpreflight hbegin
    exact absurd ⟨batchId, batch, prepared, watchdog, hpreflight, hbegin⟩ hbegun

/-- A host that takes every launch. -/
structure WillingHost where

instance : GpuHostBackend WillingHost where
  Error := GpuError
  reverifyExpertSelection _ host := (.ok true, host)
  launch _ _ host := (.ok (), host)
  finishBatch host := (.ok (), host)

/-- A service with one dispatch in flight and room for another. -/
def oneInFlight : GpuService (MediatedGpuExecutor WillingHost) 2 2 where
  executor := ⟨⟨⟩, []⟩
  watchdog := ⟨fun i => if i.val = 0 then ⟨1, 7, 10, true⟩ else .empty, []⟩
  sender := ⟨1, 1, Vector.replicate 32 7⟩
  completionRing := ⟨fun _ => QueueMessage.zero, 0, 0, 0, by decide, by decide, rfl⟩

/-- A hash that is the same for all bytes. -/
def constantHash : List UInt8 → Vector UInt8 64 := fun _ => Vector.replicate 64 0

/-- One control buffer with that hash. -/
def oneControl (length : UInt32) : ControlBufferTable 1 :=
  ⟨fun _ => ⟨1, length, Vector.replicate 64 0, true⟩⟩

/-- A session with one buffer of a page. -/
def onePage : VirtualGpuSession 1 := ⟨fun _ => ⟨1, 4096, true⟩, 4096, 4096⟩

/-- An addition of two words of that buffer. -/
def addition : Dispatch where
  kernel := ⟨7, by decide⟩
  grid := ⟨1, 1, 1⟩
  block := ⟨256, 1, 1⟩
  sharedMemory := 0
  accesses := [⟨⟨0, 1, firstGeneration_ne⟩, 0, 4, .read⟩, ⟨⟨0, 1, firstGeneration_ne⟩, 4, 4, .read⟩,
    ⟨⟨0, 1, firstGeneration_ne⟩, 8, 4, .write⟩]
  scalars := []
  checked := by decide

/-- A batch of that addition. -/
def additionBatch : GpuDispatchBatch 2 :=
  ⟨[⟨9, addition, by decide⟩], by decide, by decide, by decide⟩

/-- The control bytes of the batch pass the checks. -/
theorem preflight_additionBatch :
    oneInFlight.preflight constantHash 2 (oneControl 704) ⟨0, 1, by decide⟩
      (additionBatch.fields 5).flatten onePage = .ok (5, additionBatch) := by
  have hlength : (additionBatch.fields 5).flatten.length = 704 :=
    additionBatch.length_flatten_fields 5
  have hverify : (oneControl 704).verify constantHash ⟨0, 1, by decide⟩
      (additionBatch.fields 5).flatten = .ok () := by
    have hentry : (oneControl 704).entry ⟨0, 1, by decide⟩ =
        .ok ⟨1, 704, Vector.replicate 64 0, true⟩ := rfl
    rw [ControlBufferTable.verify, hentry, ok_bind, refuseIf_of_not (by rw [hlength]; decide), ok_bind]
    decide
  have hdecode : GpuDispatchBatch.decode 2 onePage (additionBatch.fields 5).flatten =
      .ok (5, additionBatch) :=
    GpuDispatchBatch.decode_flatten (by decide) (by decide) (by decide)
  rw [preflight, hverify, ok_bind, hdecode]
  rfl

/-- Bytes that are no batch change nothing, and a batch that passes the checks is launched. -/
theorem submitGpuControlBatch_transactional_oneInFlight :
    (2 : ℕ) ≤ 2 ^ 32 ∧
    SameState oneInFlight (oneInFlight.submitGpuControlBatch constantHash 2 (oneControl 16)
      ⟨0, 1, by decide⟩ (zeros 16) onePage ⟨1, Vector.replicate 64 0⟩ [] 0 20).2 ∧
    (oneInFlight.submitGpuControlBatch constantHash 2 (oneControl 704) ⟨0, 1, by decide⟩
      (additionBatch.fields 5).flatten onePage ⟨1, Vector.replicate 64 0⟩ [] 0 20).1 = .ok 5 := by
  have hmalformed := submitGpuControlBatch_transactional (by decide) constantHash 2 oneInFlight
    (oneControl 16) ⟨0, 1, by decide⟩ (zeros 16) onePage ⟨1, Vector.replicate 64 0⟩ [] 0 20
  have hbegin : oneInFlight.watchdog.beginBatch additionBatch 0 20 =
      (.ok [⟨9, ⟨1, 1⟩, addition⟩], (oneInFlight.watchdog.beginBatch additionBatch 0 20).2) := rfl
  have hanswer : answer ⟨1, Vector.replicate 64 0⟩ [] 5 [⟨9, ⟨1, 1⟩, addition⟩]
      oneInFlight.executor = .ok 5 := by decide +kernel
  have hlaunched (bytes : List UInt8) (hpreflight : oneInFlight.preflight constantHash 2
      (oneControl 704) ⟨0, 1, by decide⟩ bytes onePage = .ok (5, additionBatch)) :
      (oneInFlight.submitGpuControlBatch constantHash 2 (oneControl 704) ⟨0, 1, by decide⟩ bytes
        onePage ⟨1, Vector.replicate 64 0⟩ [] 0 20).1 = .ok 5 := by
    have hspec := submitGpuControlBatch_transactional (by decide) constantHash 2 oneInFlight
      (oneControl 704) ⟨0, 1, by decide⟩ bytes onePage ⟨1, Vector.replicate 64 0⟩ [] 0 20
    exact (hspec.2.2.2 5 additionBatch _ _ hpreflight hbegin).1.trans hanswer
  exact ⟨by decide, (hmalformed.1 .malformedCommand (by decide +kernel)).1,
    hlaunched _ preflight_additionBatch⟩

end GpuService

end Mrml.Gpu
