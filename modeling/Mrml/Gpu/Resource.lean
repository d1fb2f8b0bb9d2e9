import Mrml.Gpu.Response
import Mrml.Gpu.Ring
import Mrml.Gpu.Session

/-!
# Resource commands

Model of `process_gpu_resource_command` and
`process_gpu_resource_command_with_response` (`crates/mrml-kernel/src/virtual_gpu.rs`,
lines 1480–1528 and 1664–1754), for every backend; `VirtualGpuSession` is one of them.
The room for a response is checked before the command is taken, so nothing fails between
the change of the backend and the response.

Results:
* `processWithResponse_spec`: what a call does to the backend and to the responses.
* `service_accounting`: a service keeps the accounts of the session behind it.
* `session_accounting`: the accounts of a session, its accesses and the responses.
-/

namespace Mrml.Gpu

/-- `GpuResourceBackend` (lines 1480–1485): the operations of a backend with state `B`. -/
structure GpuResourceBackend (B E : Type) where
  allocate : B → UInt64 → Except E BufferId × B
  free : B → BufferId → Except E UInt64 × B

/-- `impl GpuResourceBackend for VirtualGpuSession` (lines 1957–1967). -/
def VirtualGpuSession.resourceBackend (BUFFERS : ℕ) :
    GpuResourceBackend (VirtualGpuSession BUFFERS) GpuError :=
  ⟨VirtualGpuSession.allocate, VirtualGpuSession.free⟩

/-- `GpuResourceOutcome` (lines 1488–1506). -/
inductive GpuResourceOutcome
  | allocated (requestId : UInt64) (buffer : BufferId)
  | freed (requestId bytes : UInt64)
  | submitBatch (requestId : UInt64) (control : ControlBufferId)
  | benchmarkAdd (requestId : UInt64) (elements iterations : UInt32)

/-- `GpuResourceResponse::from_outcome` (lines 1517–1528). -/
def GpuResourceResponse.fromOutcome : GpuResourceOutcome → Except GpuError GpuResourceResponse
  | .allocated requestId buffer => .ok (.allocated requestId buffer)
  | .freed requestId bytes => .ok (.freed requestId bytes)
  | .submitBatch _ _ => .error .unsupportedCommand
  | .benchmarkAdd _ _ _ => .error .unsupportedCommand

/-- `GpuCommandServiceError` (lines 1665–1668). -/
inductive GpuCommandServiceError (E : Type)
  | protocol (error : GpuError)
  | backend (requestId : UInt64) (error : E)

/-- What the service works on: the arguments of
    `process_gpu_resource_command_with_response`. -/
structure ResourceService (B : Type) (COMMANDS RESPONSES : ℕ) where
  commands : OwnedRing COMMANDS
  receiver : Endpoint
  backend : B
  responseSender : Endpoint
  responses : OwnedRing RESPONSES

namespace ResourceService

variable {B E : Type} {COMMANDS RESPONSES : ℕ}

/-- `process_gpu_resource_command` (lines 1673–1704). -/
def processGpuResourceCommand (ops : GpuResourceBackend B E)
    (s : ResourceService B COMMANDS RESPONSES) :
    Except (GpuCommandServiceError E) GpuResourceOutcome × ResourceService B COMMANDS RESPONSES :=
  match s.commands.dequeue with
  | (.error error, _) => (.error (.protocol error), s)
  | (.ok message, commands) =>
    match GpuQueueReceiver.decode s.receiver message.toList with
    | (.error error, receiver) => (.error (.protocol error), { s with commands, receiver })
    | (.ok (requestId, command), receiver) =>
      match command with
      | .allocate bytes =>
        match ops.allocate s.backend bytes with
        | (.ok buffer, backend) =>
          (.ok (.allocated requestId buffer), { s with commands, receiver, backend })
        | (.error error, backend) =>
          (.error (.backend requestId error), { s with commands, receiver, backend })
      | .free buffer =>
        match ops.free s.backend buffer with
        | (.ok bytes, backend) =>
          (.ok (.freed requestId bytes), { s with commands, receiver, backend })
        | (.error error, backend) =>
          (.error (.backend requestId error), { s with commands, receiver, backend })
      | .submitBatch control =>
        (.ok (.submitBatch requestId control), { s with commands, receiver })
      | .benchmarkAdd elements iterations =>
        (.ok (.benchmarkAdd requestId elements iterations), { s with commands, receiver })

/-- `GpuResourceResponseSender::ensure_capacity` (lines 1591–1596). -/
def ensureSequence (sender : Endpoint) : Except GpuError Unit :=
  match checkedAdd64 sender.nextSequence 1 with
  | some _ => .ok ()
  | none => .error .sequenceExhausted

/-- The encoding and queueing of one response (lines 1727–1736 and 1742–1748). -/
def emit (s : ResourceService B COMMANDS RESPONSES) (response : GpuResourceResponse) :
    Except GpuError Unit × ResourceService B COMMANDS RESPONSES :=
  match GpuResourceResponseSender.encode s.responseSender response QueueMessage.zero.toList with
  | (.error error, responseSender, _) => (.error error, { s with responseSender })
  | (.ok (), responseSender, encoded) =>
    let (result, responses) := s.responses.enqueueBatch [QueueMessage.ofBytes encoded] 1
    (result, { s with responseSender, responses })

/-- `process_gpu_resource_command_with_response` (lines 1709–1751). -/
def processGpuResourceCommandWithResponse (ops : GpuResourceBackend B E)
    (s : ResourceService B COMMANDS RESPONSES) :
    Except (GpuCommandServiceError E) GpuResourceOutcome × ResourceService B COMMANDS RESPONSES :=
  match s.responses.ensureCapacity 1 with
  | .error error => (.error (.protocol error), s)
  | .ok () =>
    match ensureSequence s.responseSender with
    | .error error => (.error (.protocol error), s)
    | .ok () =>
      match s.processGpuResourceCommand ops with
      | (.ok outcome, s) =>
        match GpuResourceResponse.fromOutcome outcome with
        | .error _ => (.ok outcome, s)
        | .ok response =>
          match s.emit response with
          | (.ok (), s) => (.ok outcome, s)
          | (.error error, s) => (.error (.protocol error), s)
      | (.error (.backend requestId error), s) =>
        match s.emit (.rejected requestId) with
        | (.ok (), s) => (.error (.backend requestId error), s)
        | (.error error, s) => (.error (.protocol error), s)
      | (.error (.protocol error), s) => (.error (.protocol error), s)

/-! ## Responses -/

variable {ops : GpuResourceBackend B E} {s s' : ResourceService B COMMANDS RESPONSES}

/-- `s'` has exactly one more response than `s`, sealed by the sender of `s`. -/
def Emitted (s s' : ResourceService B COMMANDS RESPONSES) (response : GpuResourceResponse) : Prop :=
  ∃ message : QueueMessage,
    responseFormat.send s.responseSender (response, QueueMessage.zero.toList) =
      (.ok message.toList, s'.responseSender) ∧
    s'.responses.contents = s.responses.contents ++ [message]

/-- What `processGpuResourceCommand` does: the responses stay, and the backend changes only
    by the operation whose result is returned. -/
theorem processGpuResourceCommand_cases (ops : GpuResourceBackend B E)
    (s : ResourceService B COMMANDS RESPONSES) :
    ∃ result s', s.processGpuResourceCommand ops = (result, s') ∧
      s'.responseSender = s.responseSender ∧ s'.responses = s.responses ∧
      match result with
      | .ok (.allocated _ buffer) => ∃ bytes, ops.allocate s.backend bytes = (.ok buffer, s'.backend)
      | .ok (.freed _ bytes) => ∃ buffer, ops.free s.backend buffer = (.ok bytes, s'.backend)
      | .ok (.submitBatch _ _) => s'.backend = s.backend
      | .ok (.benchmarkAdd _ _ _) => s'.backend = s.backend
      | .error (.backend _ error) =>
        (∃ bytes, ops.allocate s.backend bytes = (.error error, s'.backend)) ∨
          ∃ buffer, ops.free s.backend buffer = (.error error, s'.backend)
      | .error (.protocol _) => s'.backend = s.backend := by
  unfold processGpuResourceCommand
  split
  · exact ⟨_, _, rfl, rfl, rfl, rfl⟩
  · split
    · exact ⟨_, _, rfl, rfl, rfl, rfl⟩
    · next requestId command receiver _ =>
      cases command with
      | allocate bytes =>
        dsimp only
        split
        · next hallocate => exact ⟨_, _, rfl, rfl, rfl, bytes, hallocate⟩
        · next hallocate => exact ⟨_, _, rfl, rfl, rfl, .inl ⟨bytes, hallocate⟩⟩
      | free buffer =>
        dsimp only
        split
        · next hfree => exact ⟨_, _, rfl, rfl, rfl, buffer, hfree⟩
        · next hfree => exact ⟨_, _, rfl, rfl, rfl, .inr ⟨buffer, hfree⟩⟩
      | submitBatch control => exact ⟨_, _, rfl, rfl, rfl, rfl⟩
      | benchmarkAdd elements iterations => exact ⟨_, _, rfl, rfl, rfl, rfl⟩

/-- A response is queued if there is room for it. -/
theorem emit_of_capacity (response : GpuResourceResponse)
    (hcapacity : s.responses.ensureCapacity 1 = .ok ())
    (hsequence : ensureSequence s.responseSender = .ok ()) :
    ∃ s', s.emit response = (.ok (), s') ∧ s'.backend = s.backend ∧ Emitted s s' response := by
  unfold ensureSequence at hsequence
  split at hsequence
  · next nextSequence hnext =>
    have hsend := FrameFormat.send_of_write (f := responseFormat) s.responseSender
      (response, QueueMessage.zero.toList)
      (Nat.le_of_eq Vector.length_toList.symm) (checkedAdd64_eq_some.mp hnext) rfl
    obtain ⟨message, hsend⟩ := hsend
    obtain ⟨hencode, hlength⟩ :=
      FrameFormat.sealFrame_of_send responseFormat_lawful Vector.length_toList hsend
    obtain ⟨responses, hqueue⟩ := OwnedRing.enqueueBatch_of_ensureCapacity
      [QueueMessage.ofBytes message] (Nat.le_refl 1) hcapacity
    refine ⟨{ s with
      responseSender := { s.responseSender with nextSequence }, responses }, ?_, rfl,
      QueueMessage.ofBytes message, ?_, OwnedRing.enqueueBatch_spec hqueue⟩
    · rw [emit, GpuResourceResponseSender.encode, hencode]
      dsimp only
      rw [hqueue]
    · rw [QueueMessage.ofBytes, toList_ofFn_byteAt hlength]
      exact hsend
  · cases hsequence

/-- What a call does: an accepted allocation or release is one operation of the backend and
    one response; so is a refused one. Every other outcome leaves both as they were. -/
theorem processWithResponse_spec (ops : GpuResourceBackend B E)
    (s : ResourceService B COMMANDS RESPONSES) :
    ∃ result s', s.processGpuResourceCommandWithResponse ops = (result, s') ∧
      match result with
      | .ok (.allocated requestId buffer) =>
        (∃ bytes, ops.allocate s.backend bytes = (.ok buffer, s'.backend)) ∧
          Emitted s s' (.allocated requestId buffer)
      | .ok (.freed requestId bytes) =>
        (∃ buffer, ops.free s.backend buffer = (.ok bytes, s'.backend)) ∧
          Emitted s s' (.freed requestId bytes)
      | .error (.backend requestId error) =>
        ((∃ bytes, ops.allocate s.backend bytes = (.error error, s'.backend)) ∨
          ∃ buffer, ops.free s.backend buffer = (.error error, s'.backend)) ∧
          Emitted s s' (.rejected requestId)
      | _ => s'.backend = s.backend ∧ s'.responseSender = s.responseSender ∧
          s'.responses = s.responses := by
  unfold processGpuResourceCommandWithResponse
  split
  · exact ⟨_, _, rfl, rfl, rfl, rfl⟩
  · next hcapacity =>
    split
    · exact ⟨_, _, rfl, rfl, rfl, rfl⟩
    · next hsequence =>
      obtain ⟨result, s₁, hprocess, hsender, hresponses, hbackend⟩ :=
        s.processGpuResourceCommand_cases ops
      -- the command left the responses alone, so there is still room for one
      have hemit : ∀ response, ∃ s₂, s₁.emit response = (.ok (), s₂) ∧
          s₂.backend = s₁.backend ∧ Emitted s s₂ response := by
        intro response
        obtain ⟨s₂, hemit, hsame, hemitted⟩ := emit_of_capacity (s := s₁) response
          (by rw [hresponses]; exact hcapacity) (by rw [hsender]; exact hsequence)
        refine ⟨s₂, hemit, hsame, ?_⟩
        rw [Emitted, hsender, hresponses] at hemitted
        exact hemitted
      rw [hprocess]
      match result with
      | .ok (.allocated requestId buffer) =>
        obtain ⟨s₂, hemit, hsame, hemitted⟩ := hemit (.allocated requestId buffer)
        simp only [GpuResourceResponse.fromOutcome, hemit]
        exact ⟨_, _, rfl, by rw [hsame]; exact hbackend, hemitted⟩
      | .ok (.freed requestId bytes) =>
        obtain ⟨s₂, hemit, hsame, hemitted⟩ := hemit (.freed requestId bytes)
        simp only [GpuResourceResponse.fromOutcome, hemit]
        exact ⟨_, _, rfl, by rw [hsame]; exact hbackend, hemitted⟩
      | .ok (.submitBatch _ _) => exact ⟨_, _, rfl, hbackend, hsender, hresponses⟩
      | .ok (.benchmarkAdd _ _ _) => exact ⟨_, _, rfl, hbackend, hsender, hresponses⟩
      | .error (.backend requestId error) =>
        obtain ⟨s₂, hemit, hsame, hemitted⟩ := hemit (.rejected requestId)
        simp only [hemit]
        exact ⟨_, _, rfl, by rw [hsame]; exact hbackend, hemitted⟩
      | .error (.protocol error) => exact ⟨_, _, rfl, hbackend, hsender, hresponses⟩

end ResourceService

/-! ## The accounts of a session -/

open VirtualGpuSession

/-- **Main theorem.** After every run of allocations and releases the allocated total is the
    sum of the live buffers and within the quota, so that no release underflows and an
    allocation adds what it says; a released id stays invalid; an access is accepted exactly
    if it is a nonempty range of a live buffer. And a call of
    `process_gpu_resource_command_with_response` that accepts an allocation or a release
    queues exactly one response for it, while a call that fails before the backend is
    reached queues none. -/
theorem session_accounting (BUFFERS : ℕ) (quota : UInt64) (ops : List Op) :
    (let s := run step (new BUFFERS quota) ops
    s.allocated.toNat = ∑ i, (if (s.buffers i).occupied then (s.buffers i).bytes.toNat else 0) ∧
    s.allocated ≤ quota ∧
    (∀ bytes id s', s.allocate bytes = (.ok id, s') →
      s'.allocated.toNat = s.allocated.toNat + bytes.toNat) ∧
    (∀ id bytes s', s.free id = (.ok bytes, s') →
      bytes ≤ s.allocated ∧ s'.allocated.toNat = s.allocated.toNat - bytes.toNat ∧
      ∀ later bytes', ¬ (run step s' later).Live id bytes') ∧
    ∀ access, s.validateAccess access = .ok () ↔ ∃ bytes, s.Live access.buffer bytes ∧
      access.length ≠ 0 ∧ access.offset.toNat + access.length.toNat ≤ bytes.toNat) ∧
    ∀ (B E : Type) (backend : GpuResourceBackend B E) (COMMANDS RESPONSES : ℕ)
      (service service' : ResourceService B COMMANDS RESPONSES) result,
      service.processGpuResourceCommandWithResponse backend = (result, service') →
      (∀ requestId buffer, result = .ok (.allocated requestId buffer) →
        service.Emitted service' (.allocated requestId buffer)) ∧
      (∀ requestId bytes, result = .ok (.freed requestId bytes) →
        service.Emitted service' (.freed requestId bytes)) ∧
      ∀ error, result = .error (.protocol error) →
        service'.backend = service.backend ∧ service'.responses = service.responses := by
  refine ⟨?_, ?_⟩
  · intro s
    have hinv : s.Inv quota := run_inv quota ops
    refine ⟨by rw [hinv.total, total_cells], by rw [← hinv.quota_eq]; exact hinv.within, ?_, ?_,
      fun access => validateAccess_eq_ok_iff⟩
    · intro bytes id s' hallocate
      rcases s.allocate_cases bytes with ⟨error, heq⟩ | ⟨i, id', s₁, heq, -, -, -, -, -, hsum, -⟩
      · rw [heq] at hallocate
        cases hallocate
      · rw [heq] at hallocate
        cases hallocate
        exact hsum
    · intro id bytes s' hfree
      obtain ⟨hle, hsub, hpast⟩ := free_eq_ok hinv hfree
      refine ⟨hle, hsub, fun later bytes' => ?_⟩
      have hs' : s' = s.step (.free id) := (congrArg Prod.snd hfree).symm
      have hsound : Cell.Sound s'.cells := by
        rw [hs']
        exact (step_inv hinv (.free id)).sound
      obtain ⟨hsound', hpast'⟩ := run_past hsound hpast later
      exact not_live_of_past hsound' hpast' bytes'
  · intro B E backend COMMANDS RESPONSES service service' result hcall
    obtain ⟨result', service₁, hcall', hspec⟩ := service.processWithResponse_spec backend
    obtain ⟨rfl, rfl⟩ := Prod.mk.inj (hcall.symm.trans hcall')
    refine ⟨?_, ?_, ?_⟩
    · rintro requestId buffer rfl
      exact hspec.2
    · rintro requestId bytes rfl
      exact hspec.2
    · rintro error rfl
      exact ⟨hspec.1, hspec.2.2⟩

variable {BUFFERS COMMANDS RESPONSES : ℕ}

/-- A call of the service leaves the session as it is, or takes one step of it. -/
theorem processWithResponse_inv {quota : UInt64}
    {service : ResourceService (VirtualGpuSession BUFFERS) COMMANDS RESPONSES}
    (h : service.backend.Inv quota) :
    (service.processGpuResourceCommandWithResponse (resourceBackend BUFFERS)).2.backend.Inv
      quota := by
  have hallocate {result : Except GpuError BufferId} {backend : VirtualGpuSession BUFFERS}
      {bytes : UInt64} (heq : service.backend.allocate bytes = (result, backend)) :
      backend.Inv quota := by
    have hstep := step_inv h (.allocate bytes)
    rwa [step, heq] at hstep
  have hfree {result : Except GpuError UInt64} {backend : VirtualGpuSession BUFFERS}
      {buffer : BufferId} (heq : service.backend.free buffer = (result, backend)) :
      backend.Inv quota := by
    have hstep := step_inv h (.free buffer)
    rwa [step, heq] at hstep
  obtain ⟨result, service', heq, hspec⟩ :=
    service.processWithResponse_spec (resourceBackend BUFFERS)
  rw [heq]
  cases result with
  | error error =>
    cases error with
    | protocol error =>
      rw [hspec.1]
      exact h
    | backend requestId error =>
      obtain ⟨⟨bytes, hcall⟩ | ⟨buffer, hcall⟩, -⟩ := hspec
      · exact hallocate hcall
      · exact hfree hcall
  | ok outcome =>
    cases outcome with
    | allocated requestId buffer =>
      obtain ⟨⟨bytes, hcall⟩, -⟩ := hspec
      exact hallocate hcall
    | freed requestId bytes =>
      obtain ⟨⟨buffer, hcall⟩, -⟩ := hspec
      exact hfree hcall
    | submitBatch requestId control =>
      rw [hspec.1]
      exact h
    | benchmarkAdd requestId elements iterations =>
      rw [hspec.1]
      exact h

/-- A service that is called again and again, with any rings and endpoints at each call, keeps the
    accounts of the session behind it. -/
theorem service_accounting (quota : UInt64)
    (calls : List (OwnedRing COMMANDS × Endpoint × Endpoint × OwnedRing RESPONSES)) :
    let session := run (fun session call =>
      (ResourceService.processGpuResourceCommandWithResponse (resourceBackend BUFFERS)
        ⟨call.1, call.2.1, session, call.2.2.1, call.2.2.2⟩).2.backend) (new BUFFERS quota) calls
    session.allocated.toNat =
        ∑ i, (if (session.buffers i).occupied then (session.buffers i).bytes.toNat else 0) ∧
      session.allocated ≤ quota := by
  intro session
  have hinv : session.Inv quota :=
    run_invariant (fun _ _ h => processWithResponse_inv h) (run_inv quota []) calls
  exact ⟨by rw [hinv.total, total_cells], by rw [← hinv.quota_eq]; exact hinv.within⟩

/-- A session with one live buffer of 16 bytes. -/
def sixteenBytes : VirtualGpuSession 2 := run step (new 2 4096) [.allocate 16]

/-- The empty range at the start of the buffer lies within it and is refused. -/
theorem empty_access_refused :
    sixteenBytes.Live ⟨0, 1, by decide⟩ 16 ∧ (0 : UInt64).toNat + (0 : UInt64).toNat ≤ 16 ∧
      sixteenBytes.validateAccess ⟨⟨0, 1, by decide⟩, 0, 0, .read⟩ = .error .outOfBounds := by
  refine ⟨⟨0, rfl, by decide⟩, by decide, by decide⟩

end Mrml.Gpu
