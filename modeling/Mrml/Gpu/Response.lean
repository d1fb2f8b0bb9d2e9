import Mrml.Common.Channel
import Mrml.Gpu.Queue

/-!
# The resource-response queue

Model of `GpuResourceResponse`, `GpuResourceResponseSender` and
`GpuResourceResponseReceiver` (`crates/mrml-kernel/src/virtual_gpu.rs`, lines
1508–1662), as an instance of the frame of `Mrml.Gpu.Frame`.

`GpuResourceResponseSender::encode` writes every response. `decode` refuses a request
id of zero, a release of zero bytes and a benchmark of zero nanoseconds, and then stays
behind the sequence number of the sender.

Results:
* `responseFormat_parse`: what `decode` makes of an encoded response.
* `response_channel_lockstep`: when the receiver returns what was sent.
-/

namespace Mrml.Gpu

/-- `GpuResourceResponse` (lines 1509–1514). -/
inductive GpuResourceResponse
  | allocated (requestId : UInt64) (buffer : BufferId)
  | freed (requestId bytes : UInt64)
  | benchmarkComplete (requestId elapsedNs : UInt64)
  | rejected (requestId : UInt64)
deriving DecidableEq

namespace GpuResourceResponse

/-- `GpuResourceResponse::request_id` (lines 1530–1537). -/
def requestId : GpuResourceResponse → UInt64
  | allocated requestId _ => requestId
  | freed requestId _ => requestId
  | benchmarkComplete requestId _ => requestId
  | rejected requestId => requestId

/-- The kind byte (lines 1570–1575). -/
def code : GpuResourceResponse → UInt8
  | allocated _ _ => 1
  | freed _ _ => 2
  | rejected _ => 3
  | benchmarkComplete _ _ => 4

/-- The value field (lines 1579–1584). -/
def value : GpuResourceResponse → UInt64
  | allocated _ buffer => buffer.token
  | freed _ bytes => bytes
  | benchmarkComplete _ elapsedNs => elapsedNs
  | rejected _ => 0

/-- The match of `decode` on the kind byte (lines 1630–1653). -/
def ofFields (code : UInt8) (requestId value : UInt64) : Except GpuError GpuResourceResponse :=
  if requestId = 0 then .error .malformedCommand
  else
    match code with
    | 1 =>
      if value ≠ 0 then (BufferId.fromToken value).map (allocated requestId)
      else .error .malformedCommand
    | 2 => if value ≠ 0 then .ok (freed requestId value) else .error .malformedCommand
    | 3 => if value = 0 then .ok (rejected requestId) else .error .malformedCommand
    | 4 =>
      if value ≠ 0 then .ok (benchmarkComplete requestId value) else .error .malformedCommand
    | _ => .error .malformedCommand

/-- The responses that a receiver accepts: the request has an id, a release has bytes
    and a benchmark took time. -/
def Deliverable (response : GpuResourceResponse) : Prop :=
  response.requestId ≠ 0 ∧
    match response with
    | freed _ bytes => bytes ≠ 0
    | benchmarkComplete _ elapsedNs => elapsedNs ≠ 0
    | allocated _ _ => True
    | rejected _ => True

instance (response : GpuResourceResponse) : Decidable response.Deliverable := by
  unfold Deliverable
  cases response <;> infer_instance

/-- The fields of a response read back exactly if it is deliverable. -/
theorem ofFields_self (response : GpuResourceResponse) :
    ofFields response.code response.requestId response.value =
      if response.Deliverable then .ok response else .error .malformedCommand := by
  unfold ofFields
  by_cases hid : response.requestId = 0
  · rw [if_pos hid, if_neg (fun h => h.1 hid)]
  · rw [if_neg hid]
    cases response with
    | allocated requestId buffer =>
      have htoken : buffer.token ≠ 0 := by
        intro hzero
        have hparse := buffer.fromToken_token
        rw [hzero] at hparse
        cases hparse
      show (if buffer.token ≠ 0 then (BufferId.fromToken buffer.token).map (allocated requestId)
        else .error GpuError.malformedCommand) = _
      rw [if_pos htoken, buffer.fromToken_token, if_pos ⟨hid, trivial⟩]
      rfl
    | freed requestId bytes =>
      show (if bytes ≠ 0 then Except.ok (freed requestId bytes)
        else Except.error GpuError.malformedCommand) = _
      exact if_congr ⟨fun h => ⟨hid, h⟩, fun h => h.2⟩ rfl rfl
    | benchmarkComplete requestId elapsedNs =>
      show (if elapsedNs ≠ 0 then Except.ok (benchmarkComplete requestId elapsedNs)
        else Except.error GpuError.malformedCommand) = _
      exact if_congr ⟨fun h => ⟨hid, h⟩, fun h => h.2⟩ rfl rfl
    | rejected requestId =>
      show Except.ok (rejected requestId) = _
      rw [if_pos ⟨hid, trivial⟩]

end GpuResourceResponse

/-- The response queue: magic `MRGR`, label `MRML-VGPU-RESOURCE-RESPONSE-v1\0` (lines
    1567–1585 and 1613–1653). -/
def responseFormat : FrameFormat GpuResourceResponse where
  label := [0x4d, 0x52, 0x4d, 0x4c, 0x2d, 0x56, 0x47, 0x50, 0x55, 0x2d, 0x52, 0x45, 0x53, 0x4f,
    0x55, 0x52, 0x43, 0x45, 0x2d, 0x52, 0x45, 0x53, 0x50, 0x4f, 0x4e, 0x53, 0x45, 0x2d, 0x76, 0x31,
    0x00]
  magic := [0x4d, 0x52, 0x47, 0x52]
  reserved input := anyNonzero (slice input 6 2) || anyNonzero (slice input 40 8)
  write response frame :=
    let frame := patch frame 5 [response.code]
    let frame := patch frame 24 (leBytes 8 response.requestId.toNat)
    (.ok (), patch frame 32 (leBytes 8 response.value.toNat))
  parse input :=
    GpuResourceResponse.ofFields (byteAt input 5) (readU64 input 24) (readU64 input 32)

/-- `GpuResourceResponseSender::encode` (lines 1557–1590). -/
def GpuResourceResponseSender.encode (sender : Endpoint) (response : GpuResourceResponse)
    (output : List UInt8) : Except GpuError Unit × Endpoint × List UInt8 :=
  responseFormat.sealFrame sender response output

/-- `GpuResourceResponseReceiver::decode` (lines 1612–1660). -/
def GpuResourceResponseReceiver.decode (receiver : Endpoint) (input : List UInt8) :
    Except GpuError GpuResourceResponse × Endpoint :=
  responseFormat.openFrame receiver input

/-- The fields of a written response. -/
theorem responseFormat_write {item : GpuResourceResponse} {session sequence : UInt64}
    {frame : List UInt8} (h : responseFormat.write item
      (responseFormat.header session sequence) = (.ok (), frame)) :
    frame.length = gpuQueueMessageBytes ∧
    slice frame 0 4 = responseFormat.magic ∧ slice frame 4 1 = [1] ∧
    slice frame 5 1 = [item.code] ∧ slice frame 6 2 = [0, 0] ∧
    slice frame 8 8 = leBytes 8 session.toNat ∧ slice frame 16 8 = leBytes 8 sequence.toNat ∧
    slice frame 24 8 = leBytes 8 item.requestId.toNat ∧
    slice frame 32 8 = leBytes 8 item.value.toNat ∧
    slice frame 40 8 = List.replicate 8 0 := by
  obtain ⟨hmagic, hversion, -, hzero, hsession, hsequence, hrest⟩ :=
    FrameFormat.slice_header (f := responseFormat) rfl session sequence
  have h₀ := FrameFormat.length_header (f := responseFormat) rfl session sequence
  generalize responseFormat.header session sequence = header at *
  obtain rfl := (Prod.mk.inj h).2
  replace h₀ : header.length = 80 := h₀
  have h₁ := length_patch_of_eq 5 [item.code] h₀ (by simp)
  have h₂ := length_patch_of_eq 24 (leBytes 8 item.requestId.toNat) h₁ (by simp)
  refine ⟨length_patch_of_eq _ _ h₂ (by rw [length_leBytes]; decide), ?_, ?_, ?_, ?_, ?_, ?_, ?_,
    ?_, ?_⟩
  all_goals simp (disch := simp [*]) only [slice_patch_of_disjoint, slice_patch_self, hmagic,
    hversion, hzero, hsession, hsequence, hrest]

/-- What the receiver makes of a written response. -/
theorem responseFormat_parse {item : GpuResourceResponse} {session sequence : UInt64}
    {frame : List UInt8} (h : responseFormat.write item
      (responseFormat.header session sequence) = (.ok (), frame)) :
    responseFormat.parse frame =
      if item.Deliverable then .ok item else .error .malformedCommand := by
  obtain ⟨-, -, -, hcode, -, -, -, hrequest, hvalue, -⟩ := responseFormat_write h
  show GpuResourceResponse.ofFields (byteAt frame 5) (readU64 frame 24) (readU64 frame 32) = _
  rw [byteAt_of_slice hcode, readU64_of_slice hrequest, readU64_of_slice hvalue]
  exact item.ofFields_self

theorem responseFormat_lawful :
    responseFormat.Lawful GpuResourceResponse.Deliverable where
  magic_length := rfl
  length h := (responseFormat_write h).1
  header := by
    intro item session sequence frame h
    obtain ⟨-, hmagic, hversion, -, hzero, hsession, hsequence, -, -, hrest⟩ :=
      responseFormat_write h
    refine ⟨hmagic, hversion, ?_, hsession, hsequence⟩
    show (anyNonzero (slice frame 6 2) || anyNonzero (slice frame 40 8)) = false
    rw [hzero, hrest]
    rfl
  parse_good := by
    intro item session sequence frame h hgood
    rw [responseFormat_parse h, if_pos hgood]
  parse_bad := by
    intro item session sequence frame h hbad
    exact ⟨_, by rw [responseFormat_parse h, if_neg hbad]⟩
  parse_body input := by
    dsimp only [responseFormat]
    rw [byteAt_body (by decide), readU64, readU64, FrameFormat.slice_body (by decide),
      FrameFormat.slice_body (by decide)]
    rfl
  reserved_body input := by
    dsimp only [responseFormat]
    rw [FrameFormat.slice_body (by decide), FrameFormat.slice_body (by decide)]

/-! ## Lockstep -/

/-- The sender accepts every list of responses that its numbers suffice for. -/
theorem sendAll_responses (sender : Endpoint) (calls : List (GpuResourceResponse × List UInt8))
    (hcalls : ∀ call ∈ calls, gpuQueueMessageBytes ≤ call.2.length)
    (hroom : sender.nextSequence.toNat + calls.length < 2 ^ 64) :
    ∃ messages, sendAll responseFormat.send sender calls = some messages := by
  induction calls generalizing sender with
  | nil => exact ⟨[], rfl⟩
  | cons call calls ih =>
    obtain ⟨houtput, hrest⟩ := List.forall_mem_cons.mp hcalls
    rw [List.length_cons] at hroom
    have hnext : (sender.nextSequence + 1).toNat = sender.nextSequence.toNat + 1 := by
      rw [UInt64.toNat_add, UInt64.toNat_one, Nat.mod_eq_of_lt (by omega)]
    obtain ⟨message, hsend⟩ := FrameFormat.send_of_write (f := responseFormat) _ call houtput hnext
      rfl
    obtain ⟨messages, hmessages⟩ := ih { sender with nextSequence := sender.nextSequence + 1 }
      hrest (by dsimp only; omega)
    refine ⟨message :: messages, ?_⟩
    rw [sendAll, hsend]
    dsimp only
    rw [hmessages]
    rfl

/-- **Main theorem.** A receiver with the session and key of the sender returns the list
    of responses that the sender accepted exactly if each of them has a request id and,
    for a release or a benchmark, a value. -/
theorem response_channel_lockstep {session : UInt64} {key : Vector UInt8 32}
    {sender receiver : Endpoint} (hsender : Endpoint.new session key = .ok sender)
    (hreceiver : Endpoint.new session key = .ok receiver)
    {calls : List (GpuResourceResponse × List UInt8)} {messages : List (List UInt8)}
    (hsend : sendAll responseFormat.send sender calls = some messages) :
    receiveAll GpuResourceResponseReceiver.decode receiver messages =
        calls.map (fun call => .ok call.1) ↔
      ∀ call ∈ calls, call.1.Deliverable := by
  have hmatch : receiver = sender := Except.ok.inj (hreceiver.symm.trans hsender)
  refine lockstep_iff Prod.fst (fun sender receiver => receiver = sender)
    GpuResourceResponse.Deliverable ?_ ?_ hmatch hsend
  · intro sender receiver call message sender' hmatch hcall hgood
    exact ⟨sender', (FrameFormat.openFrame_sealFrame responseFormat_lawful hmatch hcall).1 hgood,
      rfl⟩
  · intro sender receiver call message sender' hmatch hcall hbad
    exact (FrameFormat.openFrame_sealFrame responseFormat_lawful hmatch hcall).2 hbad

/-- One response of each kind. -/
def fourResponses : List (GpuResourceResponse × List UInt8) :=
  [(.allocated 81 ⟨0, 1, firstGeneration_ne⟩, List.replicate 80 0),
    (.benchmarkComplete 82 1500, List.replicate 96 1), (.rejected 83, List.replicate 80 0),
    (.freed 84 4096, List.replicate 80 0)]

theorem response_channel_lockstep_fourResponses :
    ∃ messages, sendAll responseFormat.send fixedEndpoint fourResponses = some messages ∧
      receiveAll GpuResourceResponseReceiver.decode fixedEndpoint messages =
        fourResponses.map (fun call => .ok call.1) := by
  obtain ⟨messages, hsend⟩ := sendAll_responses fixedEndpoint fourResponses (by decide) (by decide)
  have hnew : Endpoint.new 1 (Vector.replicate 32 7) = .ok fixedEndpoint := rfl
  exact ⟨messages, hsend, (response_channel_lockstep hnew hnew hsend).mpr (by decide)⟩

/-- A benchmark below the resolution of the clock, and then a release. -/
def instantBenchmark : List (GpuResourceResponse × List UInt8) :=
  [(.benchmarkComplete 1 0, List.replicate 80 0), (.freed 2 4096, List.replicate 80 0)]

/-- The sender accepts both responses; the receiver does not return them. -/
theorem instant_benchmark_desynchronises :
    ∃ messages, sendAll responseFormat.send fixedEndpoint instantBenchmark = some messages ∧
      receiveAll GpuResourceResponseReceiver.decode fixedEndpoint messages ≠
        instantBenchmark.map (fun call => .ok call.1) := by
  obtain ⟨messages, hsend⟩ :=
    sendAll_responses fixedEndpoint instantBenchmark (by decide) (by decide)
  refine ⟨messages, hsend, fun h => ?_⟩
  obtain ⟨message, sender', rest, hcall, -, rfl⟩ := sendAll_cons hsend
  obtain ⟨error, herror⟩ :=
    (FrameFormat.openFrame_sealFrame responseFormat_lawful rfl hcall).2 (by decide)
  have hfirst := (List.cons.inj h).1
  rw [GpuResourceResponseReceiver.decode, herror] at hfirst
  cases hfirst

end Mrml.Gpu
