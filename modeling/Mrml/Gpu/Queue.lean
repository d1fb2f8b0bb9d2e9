import Mrml.Common.Channel
import Mrml.Gpu.Frame

/-!
# The command queue and the completion queue

Model of `GpuQueueSender`, `GpuQueueReceiver`, `GpuCompletionSender` and
`GpuCompletionReceiver` (`crates/mrml-kernel/src/virtual_gpu.rs`, lines 899–1141), as
instances of the frame of `Mrml.Gpu.Frame`.

`GpuQueueSender::encode` accepts an allocation of zero bytes, numbers it and tags it.
`GpuQueueReceiver::decode` refuses it without moving to the next number, and then
refuses everything that follows as a replay.

Results:
* `command_channel_lockstep`: when the receiver returns what was sent.
* `accepted_prefix_of_sent`: what each receiver accepts from an adversarial transport.
-/

namespace Mrml.Gpu

/-! ## Commands -/

/-- The command queue: magic `MRGQ`, label `MRML-VGPU-QUEUE-v1\0`, the command at bytes
    24–48 (lines 929–938, 961–965 and 980). -/
def commandFormat : FrameFormat (UInt64 × ResourceCommand) where
  label := [0x4d, 0x52, 0x4d, 0x4c, 0x2d, 0x56, 0x47, 0x50, 0x55, 0x2d, 0x51, 0x55, 0x45, 0x55,
    0x45, 0x2d, 0x76, 0x31, 0x00]
  magic := [0x4d, 0x52, 0x47, 0x51]
  reserved input := anyNonzero (slice input 5 3)
  write item frame :=
    let field := item.2.encode item.1 (slice frame 24 24)
    (field.1, patch frame 24 field.2)
  parse input := ResourceCommand.decode (slice input 24 24)

/-- `GpuQueueSender::encode` (lines 918–941). -/
def GpuQueueSender.encode (sender : Endpoint) (requestId : UInt64) (command : ResourceCommand)
    (output : List UInt8) : Except GpuError Unit × Endpoint × List UInt8 :=
  commandFormat.sealFrame sender (requestId, command) output

/-- `GpuQueueReceiver::decode` (lines 960–986). -/
def GpuQueueReceiver.decode (receiver : Endpoint) (input : List UInt8) :
    Except GpuError (UInt64 × ResourceCommand) × Endpoint :=
  commandFormat.openFrame receiver input

/-- The frame that an accepted command is written to. -/
theorem commandFormat_write {item : UInt64 × ResourceCommand} {session sequence : UInt64}
    {frame : List UInt8}
    (h : commandFormat.write item (commandFormat.header session sequence) = (.ok (), frame)) :
    item.1 ≠ 0 ∧ item.2.validate = .ok () ∧
      frame = patch (commandFormat.header session sequence) 24 (item.2.wire item.1) := by
  have hlen := FrameFormat.length_header (f := commandFormat) rfl session sequence
  generalize commandFormat.header session sequence = header at *
  obtain ⟨hresult, rfl⟩ := Prod.mk.inj h
  obtain ⟨hid, hvalid, hfield⟩ := ResourceCommand.encode_eq_ok (Prod.ext hresult rfl)
  have hrest : (slice header 24 24).drop ResourceCommand.wireLength = [] := by
    rw [List.drop_eq_nil_iff, length_slice (by rw [hlen]; decide)]
    decide
  rw [hrest, List.append_nil] at hfield
  exact ⟨hid, hvalid, congrArg (patch header 24) hfield⟩

/-- Parsing a written frame is decoding the bytes of its command. -/
theorem commandFormat_parse {item : UInt64 × ResourceCommand} {session sequence : UInt64}
    {frame : List UInt8}
    (h : commandFormat.write item (commandFormat.header session sequence) = (.ok (), frame)) :
    item.1 ≠ 0 ∧ item.2.validate = .ok () ∧
      commandFormat.parse frame = ResourceCommand.decode (item.2.wire item.1) := by
  obtain ⟨hid, hvalid, rfl⟩ := commandFormat_write h
  have hlen := FrameFormat.length_header (f := commandFormat) rfl session sequence
  generalize commandFormat.header session sequence = header at *
  have hfield : slice (patch header 24 (item.2.wire item.1)) 24 24 = item.2.wire item.1 :=
    slice_patch_self (ResourceCommand.length_wire item.2 item.1).symm (by rw [hlen]; decide)
  refine ⟨hid, hvalid, ?_⟩
  rw [show ∀ frame, commandFormat.parse frame = ResourceCommand.decode (slice frame 24 24)
    from fun _ => rfl, hfield]

theorem commandFormat_lawful : commandFormat.Lawful fun item => item.2.Deliverable where
  magic_length := rfl
  length := by
    intro item session sequence frame h
    obtain ⟨-, -, rfl⟩ := commandFormat_write h
    exact length_patch_of_eq _ _ (FrameFormat.length_header rfl session sequence)
      (by rw [ResourceCommand.length_wire]; decide)
  header := by
    intro item session sequence frame h
    obtain ⟨-, -, rfl⟩ := commandFormat_write h
    have hwire := ResourceCommand.length_wire item.2 item.1
    have hlen := FrameFormat.length_header (f := commandFormat) rfl session sequence
    obtain ⟨hmagic, hversion, hzero, -, hsession, hsequence, -⟩ :=
      FrameFormat.slice_header (f := commandFormat) rfl session sequence
    have hother : ∀ off len, off + len ≤ 24 →
        slice (patch (commandFormat.header session sequence) 24 (item.2.wire item.1)) off len =
          slice (commandFormat.header session sequence) off len := by
      intro off len hle
      exact slice_patch_of_disjoint (by rw [hwire, hlen]; decide) (.inl hle)
    refine ⟨(hother 0 4 (by decide)).trans hmagic, (hother 4 1 (by decide)).trans hversion, ?_,
      (hother 8 8 (by decide)).trans hsession, (hother 16 8 (by decide)).trans hsequence⟩
    rw [show commandFormat.reserved = fun input => anyNonzero (slice input 5 3) from rfl]
    dsimp only
    rw [hother 5 3 (by decide), hzero]
    rfl
  parse_good := by
    intro item session sequence frame h hgood
    obtain ⟨hid, hvalid, hfield⟩ := commandFormat_parse h
    rw [hfield, ResourceCommand.decode_wire hid hvalid, if_pos hgood]
  parse_bad := by
    intro item session sequence frame h hbad
    obtain ⟨hid, hvalid, hfield⟩ := commandFormat_parse h
    exact ⟨_, by rw [hfield, ResourceCommand.decode_wire hid hvalid, if_neg hbad]⟩
  parse_body input := by
    dsimp only [commandFormat]
    rw [FrameFormat.slice_body (by decide)]
  reserved_body input := by
    dsimp only [commandFormat]
    rw [FrameFormat.slice_body (by decide)]

/-! ## Completions -/

/-- `GpuCompletionStatus` (lines 990–995). -/
inductive GpuCompletionStatus
  | success
  | rejected
  | timedOut
  | deviceReset
deriving DecidableEq

/-- `DispatchId` (lines 64–67). -/
structure DispatchId where
  slot : UInt32
  generation : UInt32
deriving DecidableEq

/-- `GpuCompletion` (lines 998–1002) with the checks of its constructor. -/
structure GpuCompletion where
  requestId : UInt64
  dispatch : DispatchId
  status : GpuCompletionStatus
  requestId_ne : requestId ≠ 0
  generation_ne : dispatch.generation ≠ 0
deriving DecidableEq

/-- `GpuCompletion::new` (lines 1005–1018). -/
def GpuCompletion.new (requestId : UInt64) (dispatch : DispatchId) (status : GpuCompletionStatus) :
    Except GpuError GpuCompletion :=
  if h : requestId = 0 ∨ dispatch.generation = 0 then .error .invalidDispatch
  else .ok ⟨requestId, dispatch, status, fun h' => h (.inl h'), fun h' => h (.inr h')⟩

/-- The status byte (lines 1059–1064). -/
def GpuCompletionStatus.code : GpuCompletionStatus → UInt8
  | .success => 1
  | .rejected => 2
  | .timedOut => 3
  | .deviceReset => 4

/-- The match on the status byte (lines 1121–1127). -/
def GpuCompletionStatus.ofCode : UInt8 → Except GpuError GpuCompletionStatus
  | 1 => .ok .success
  | 2 => .ok .rejected
  | 3 => .ok .timedOut
  | 4 => .ok .deviceReset
  | _ => .error .malformedCommand

/-- The completion queue: magic `MRGC`, label `MRML-VGPU-COMPLETION-v1\0` (lines
    1057–1070, 1102–1107 and 1121–1135). -/
def completionFormat : FrameFormat GpuCompletion where
  label := [0x4d, 0x52, 0x4d, 0x4c, 0x2d, 0x56, 0x47, 0x50, 0x55, 0x2d, 0x43, 0x4f, 0x4d, 0x50,
    0x4c, 0x45, 0x54, 0x49, 0x4f, 0x4e, 0x2d, 0x76, 0x31, 0x00]
  magic := [0x4d, 0x52, 0x47, 0x43]
  reserved input := anyNonzero (slice input 6 2) || anyNonzero (slice input 40 8)
  write completion frame :=
    let frame := patch frame 5 [completion.status.code]
    let frame := patch frame 24 (leBytes 8 completion.requestId.toNat)
    let frame := patch frame 32 (leBytes 4 completion.dispatch.slot.toNat)
    (.ok (), patch frame 36 (leBytes 4 completion.dispatch.generation.toNat))
  parse input :=
    match GpuCompletionStatus.ofCode (byteAt input 5) with
    | .error error => .error error
    | .ok status =>
      GpuCompletion.new (readU64 input 24) ⟨readU32 input 32, readU32 input 36⟩ status

/-- `GpuCompletionSender::encode` (lines 1050–1075). -/
def GpuCompletionSender.encode (sender : Endpoint) (completion : GpuCompletion)
    (output : List UInt8) : Except GpuError Unit × Endpoint × List UInt8 :=
  completionFormat.sealFrame sender completion output

/-- `GpuCompletionReceiver::decode` (lines 1101–1140). -/
def GpuCompletionReceiver.decode (receiver : Endpoint) (input : List UInt8) :
    Except GpuError GpuCompletion × Endpoint :=
  completionFormat.openFrame receiver input

theorem GpuCompletionStatus.ofCode_code (status : GpuCompletionStatus) :
    ofCode status.code = .ok status := by
  cases status <;> rfl

theorem GpuCompletion.new_self (completion : GpuCompletion) :
    new completion.requestId completion.dispatch completion.status = .ok completion := by
  have hne : ¬ (completion.requestId = 0 ∨ completion.dispatch.generation = 0) :=
    not_or.mpr ⟨completion.requestId_ne, completion.generation_ne⟩
  rw [new, dif_neg hne]

theorem byteAt_body {input : List UInt8} {off : ℕ} (h : off + 1 ≤ gpuQueueAuthenticatedBytes) :
    byteAt (slice input 0 gpuQueueAuthenticatedBytes) off = byteAt input off := by
  rw [byteAt, byteAt, slice, List.drop_zero, List.getD_eq_getElem?_getD, List.getD_eq_getElem?_getD,
    List.getElem?_take_of_lt (by omega)]

/-- The fields of a written completion. -/
theorem completionFormat_write {item : GpuCompletion} {session sequence : UInt64}
    {frame : List UInt8} (h : completionFormat.write item
      (completionFormat.header session sequence) = (.ok (), frame)) :
    frame.length = gpuQueueMessageBytes ∧
    slice frame 0 4 = completionFormat.magic ∧ slice frame 4 1 = [1] ∧
    slice frame 5 1 = [item.status.code] ∧ slice frame 6 2 = [0, 0] ∧
    slice frame 8 8 = leBytes 8 session.toNat ∧ slice frame 16 8 = leBytes 8 sequence.toNat ∧
    slice frame 24 8 = leBytes 8 item.requestId.toNat ∧
    slice frame 32 4 = leBytes 4 item.dispatch.slot.toNat ∧
    slice frame 36 4 = leBytes 4 item.dispatch.generation.toNat ∧
    slice frame 40 8 = List.replicate 8 0 := by
  obtain ⟨hmagic, hversion, -, hzero, hsession, hsequence, hrest⟩ :=
    FrameFormat.slice_header (f := completionFormat) rfl session sequence
  have h₀ := FrameFormat.length_header (f := completionFormat) rfl session sequence
  generalize completionFormat.header session sequence = header at *
  obtain rfl := (Prod.mk.inj h).2
  replace h₀ : header.length = 80 := h₀
  have h₁ := length_patch_of_eq 5 [item.status.code] h₀ (by simp)
  have h₂ := length_patch_of_eq 24 (leBytes 8 item.requestId.toNat) h₁ (by simp)
  have h₃ := length_patch_of_eq 32 (leBytes 4 item.dispatch.slot.toNat) h₂ (by simp)
  refine ⟨length_patch_of_eq _ _ h₃ (by rw [length_leBytes]; decide), ?_, ?_, ?_, ?_, ?_, ?_, ?_, ?_, ?_, ?_⟩
  all_goals simp (disch := simp [*]) only [slice_patch_of_disjoint, slice_patch_self, hmagic,
    hversion, hzero, hsession, hsequence, hrest]

theorem completionFormat_lawful : completionFormat.Lawful fun _ => True where
  magic_length := rfl
  length h := (completionFormat_write h).1
  header := by
    intro item session sequence frame h
    obtain ⟨-, hmagic, hversion, -, hzero, hsession, hsequence, -, -, -, hrest⟩ :=
      completionFormat_write h
    refine ⟨hmagic, hversion, ?_, hsession, hsequence⟩
    rw [show completionFormat.reserved = fun input =>
      anyNonzero (slice input 6 2) || anyNonzero (slice input 40 8) from rfl]
    dsimp only
    rw [hzero, hrest]
    rfl
  parse_good := by
    intro item session sequence frame h _
    obtain ⟨-, -, -, hstatus, -, -, -, hrequest, hslot, hgeneration, -⟩ := completionFormat_write h
    rw [show completionFormat.parse frame =
      match GpuCompletionStatus.ofCode (byteAt frame 5) with
      | .error error => .error error
      | .ok status =>
        GpuCompletion.new (readU64 frame 24) ⟨readU32 frame 32, readU32 frame 36⟩ status from rfl]
    rw [byteAt_of_slice hstatus, GpuCompletionStatus.ofCode_code, readU64_of_slice hrequest,
      readU32_of_slice hslot, readU32_of_slice hgeneration]
    exact GpuCompletion.new_self item
  parse_bad _ hbad := absurd trivial hbad
  parse_body input := by
    dsimp only [completionFormat]
    rw [byteAt_body (by decide), readU64, readU32, readU32, FrameFormat.slice_body (by decide),
      FrameFormat.slice_body (by decide), FrameFormat.slice_body (by decide)]
    rfl
  reserved_body input := by
    dsimp only [completionFormat]
    rw [FrameFormat.slice_body (by decide), FrameFormat.slice_body (by decide)]

/-! ## Lockstep -/

/-- A command that the sender accepts can be written. -/
theorem commandFormat_write_ok (item : UInt64 × ResourceCommand) (hid : item.1 ≠ 0)
    (hvalid : item.2.validate = .ok ()) (session sequence : UInt64) :
    ∃ frame, commandFormat.write item (commandFormat.header session sequence) = (.ok (), frame) := by
  have hlen := FrameFormat.length_header (f := commandFormat) rfl session sequence
  generalize commandFormat.header session sequence = header at *
  have hfield : ¬ (slice header 24 24).length < ResourceCommand.wireLength := by
    rw [length_slice (by rw [hlen]; decide)]
    decide
  refine ⟨(commandFormat.write item header).2, Prod.ext ?_ rfl⟩
  rw [show (commandFormat.write item header).1 = (item.2.encode item.1 (slice header 24 24)).1
    from rfl, ResourceCommand.encode, if_neg hid, hvalid]
  dsimp only
  rw [if_neg hfield]

/-- The sender accepts every list of valid commands that its numbers suffice for. -/
theorem sendAll_commands (sender : Endpoint) (calls : List ((UInt64 × ResourceCommand) × List UInt8))
    (hcalls : ∀ call ∈ calls, call.1.1 ≠ 0 ∧ call.1.2.validate = .ok () ∧
      gpuQueueMessageBytes ≤ call.2.length)
    (hroom : sender.nextSequence.toNat + calls.length < 2 ^ 64) :
    ∃ messages, sendAll commandFormat.send sender calls = some messages := by
  induction calls generalizing sender with
  | nil => exact ⟨[], rfl⟩
  | cons call calls ih =>
    obtain ⟨⟨hid, hvalid, houtput⟩, hrest⟩ := List.forall_mem_cons.mp hcalls
    rw [List.length_cons] at hroom
    obtain ⟨frame, hwrite⟩ := commandFormat_write_ok _ hid hvalid sender.session sender.nextSequence
    have hnext : (sender.nextSequence + 1).toNat = sender.nextSequence.toNat + 1 := by
      rw [UInt64.toNat_add, UInt64.toNat_one, Nat.mod_eq_of_lt (by omega)]
    obtain ⟨message, hsend⟩ := FrameFormat.send_of_write _ _ houtput hnext hwrite
    obtain ⟨messages, hmessages⟩ := ih { sender with nextSequence := sender.nextSequence + 1 }
      hrest (by dsimp only; omega)
    refine ⟨message :: messages, ?_⟩
    rw [sendAll, hsend]
    dsimp only
    rw [hmessages]
    rfl

/-- **Main theorem.** A receiver with the session and key of the sender returns the list
    of commands that the sender accepted exactly if none of them allocates zero bytes. -/
theorem command_channel_lockstep {session : UInt64} {key : Vector UInt8 32}
    {sender receiver : Endpoint} (hsender : Endpoint.new session key = .ok sender)
    (hreceiver : Endpoint.new session key = .ok receiver)
    {calls : List ((UInt64 × ResourceCommand) × List UInt8)} {messages : List (List UInt8)}
    (hsend : sendAll commandFormat.send sender calls = some messages) :
    receiveAll GpuQueueReceiver.decode receiver messages = calls.map (fun call => .ok call.1) ↔
      ∀ call ∈ calls, call.1.2 ≠ .allocate 0 := by
  have hmatch : receiver = sender := Except.ok.inj (hreceiver.symm.trans hsender)
  refine lockstep_iff Prod.fst (fun sender receiver => receiver = sender)
    (fun item => item.2.Deliverable) ?_ ?_ hmatch hsend
  · intro sender receiver call message sender' hmatch hcall hgood
    exact ⟨sender', (FrameFormat.openFrame_sealFrame commandFormat_lawful hmatch hcall).1 hgood, rfl⟩
  · intro sender receiver call message sender' hmatch hcall hbad
    exact (FrameFormat.openFrame_sealFrame commandFormat_lawful hmatch hcall).2 hbad

/-- A session with a fixed key. -/
def fixedEndpoint : Endpoint := ⟨1, 1, Vector.replicate 32 7⟩

/-- An allocation, a benchmark and a release, each with its own buffer. -/
def threeCommands : List ((UInt64 × ResourceCommand) × List UInt8) :=
  [((81, .allocate 4096), List.replicate 80 0), ((82, .benchmarkAdd 1024 16), List.replicate 96 1),
    ((83, .free ⟨0, 1, firstGeneration_ne⟩), List.replicate 80 0)]

theorem command_channel_lockstep_threeCommands :
    ∃ messages, sendAll commandFormat.send fixedEndpoint threeCommands = some messages ∧
      receiveAll GpuQueueReceiver.decode fixedEndpoint messages =
        threeCommands.map (fun call => .ok call.1) := by
  obtain ⟨messages, hsend⟩ := sendAll_commands fixedEndpoint threeCommands (by decide) (by decide)
  have hnew : Endpoint.new 1 (Vector.replicate 32 7) = .ok fixedEndpoint := rfl
  exact ⟨messages, hsend, (command_channel_lockstep hnew hnew hsend).mpr (by decide)⟩

/-- An allocation of zero bytes and then one of a page. -/
def zeroThenPage : List ((UInt64 × ResourceCommand) × List UInt8) :=
  [((1, .allocate 0), List.replicate 80 0), ((2, .allocate 4096), List.replicate 80 0)]

/-- The sender accepts both commands; the receiver does not return them. -/
theorem zero_allocation_desynchronises :
    ∃ messages, sendAll commandFormat.send fixedEndpoint zeroThenPage = some messages ∧
      receiveAll GpuQueueReceiver.decode fixedEndpoint messages ≠
        zeroThenPage.map (fun call => .ok call.1) := by
  obtain ⟨messages, hsend⟩ := sendAll_commands fixedEndpoint zeroThenPage (by decide) (by decide)
  refine ⟨messages, hsend, fun h => ?_⟩
  obtain ⟨message, sender', rest, hcall, -, rfl⟩ := sendAll_cons hsend
  obtain ⟨error, herror⟩ :=
    (FrameFormat.openFrame_sealFrame commandFormat_lawful rfl hcall).2 (by decide)
  have hfirst := (List.cons.inj h).1
  rw [GpuQueueReceiver.decode, herror] at hfirst
  cases hfirst

/-! ## Adversarial transport -/

/-- The command queue as a numbered channel. -/
def commandChannel : Channel Endpoint Endpoint ((UInt64 × ResourceCommand) × List UInt8)
    (UInt64 × ResourceCommand) (List UInt8) (List UInt8) GpuError :=
  commandFormat.channel commandFormat_lawful

/-- The completion queue as a numbered channel. -/
def completionChannel : Channel Endpoint Endpoint (GpuCompletion × List UInt8) GpuCompletion
    (List UInt8) (List UInt8) GpuError :=
  completionFormat.channel completionFormat_lawful

/-- **Main theorem.** Whatever a transport delivers, as long as a tag verifies only for
    bytes that the sender tagged, the accepted items are a prefix of the items sent,
    and a rejected message leaves the receiver as it was. -/
theorem accepted_prefix_of_sent {session : UInt64} {key : Vector UInt8 32}
    {sender receiver : Endpoint} (hsender : Endpoint.new session key = .ok sender)
    (hreceiver : Endpoint.new session key = .ok receiver) :
    (∀ events,
      Along commandChannel.step commandChannel.Unforged ⟨sender, receiver, [], []⟩ events →
      (run commandChannel.step ⟨sender, receiver, [], []⟩ events).received <+:
        (run commandChannel.step ⟨sender, receiver, [], []⟩ events).sent.map Prod.fst) ∧
    (∀ events,
      Along completionChannel.step completionChannel.Unforged ⟨sender, receiver, [], []⟩ events →
      (run completionChannel.step ⟨sender, receiver, [], []⟩ events).received <+:
        (run completionChannel.step ⟨sender, receiver, [], []⟩ events).sent.map Prod.fst) ∧
    (∀ receiver input error, (GpuQueueReceiver.decode receiver input).1 = .error error →
      (GpuQueueReceiver.decode receiver input).2 = receiver) ∧
    (∀ receiver input error, (GpuCompletionReceiver.decode receiver input).1 = .error error →
      (GpuCompletionReceiver.decode receiver input).2 = receiver) := by
  have hmatch : receiver = sender := Except.ok.inj (hreceiver.symm.trans hsender)
  have hnext : receiver.nextSequence.toNat = sender.nextSequence.toNat := by rw [hmatch]
  refine ⟨fun events hevents => ?_, fun events hevents => ?_, ?_, ?_⟩
  · exact commandChannel.received_prefix hnext hevents
  · exact completionChannel.received_prefix hnext hevents
  · intro receiver input error herror
    exact FrameFormat.openFrame_eq_error (Prod.ext herror rfl)
  · intro receiver input error herror
    exact FrameFormat.openFrame_eq_error (Prod.ext herror rfl)

/-- An allocation of one page. -/
def onePageCall : (UInt64 × ResourceCommand) × List UInt8 :=
  ((81, .allocate 4096), List.replicate 80 0)

/-- The completion of a dispatch. -/
def oneCompletion : GpuCompletion × List UInt8 :=
  (⟨81, ⟨0, 1⟩, .success, by decide, by decide⟩, List.replicate 80 0)

/-- A message is sent, and then delivered twice and truncated. -/
theorem FrameFormat.along_replayed {Item : Type} {f : FrameFormat Item} {Good : Item → Prop}
    (hf : f.Lawful Good) {sender sender' : Endpoint} {call : Item × List UInt8}
    {message : List UInt8} (hsend : f.send sender call = (.ok message, sender')) :
    Along (f.channel hf).step (f.channel hf).Unforged ⟨sender, sender, [], []⟩
        (.send call :: [message, message, message.take 79].map .deliver) ∧
      (run (f.channel hf).step ⟨sender, sender, [], []⟩
        (.send call :: [message, message, message.take 79].map .deliver)).sent =
        [(call.1, message)] := by
  have hfirst : ((f.channel hf).step ⟨sender, sender, [], []⟩ (.send call)).sent =
      [(call.1, message)] := by
    rw [Channel.step, show (f.channel hf).send sender call = _ from hsend]
    rfl
  have htake : (f.channel hf).body (message.take 79) = (f.channel hf).body message := by
    show slice (message.take 79) 0 48 = slice message 0 48
    simp only [slice, List.drop_zero, List.take_take]
    rfl
  have hbody : ∀ m ∈ [message, message, message.take 79],
      (f.channel hf).body message = (f.channel hf).body m := by
    intro m hm
    simp only [List.mem_cons, List.not_mem_nil, or_false] at hm
    obtain rfl | rfl | rfl := hm
    · rfl
    · rfl
    · exact htake.symm
  have hmem : (call.1, message) ∈
      ((f.channel hf).step ⟨sender, sender, [], []⟩ (.send call)).sent := by
    rw [hfirst]
    exact List.mem_singleton_self _
  obtain ⟨halong, hrun⟩ := (f.channel hf).replay hbody hmem
  refine ⟨⟨trivial, halong⟩, ?_⟩
  rw [run_cons, hrun, hfirst]

/-- The message of a command and that of a completion are delivered twice and then truncated; both
    receivers refuse an empty message. -/
theorem accepted_prefix_of_sent_replayed :
    (∃ message, (commandFormat.send fixedEndpoint onePageCall).1 = .ok message ∧
      (run commandChannel.step ⟨fixedEndpoint, fixedEndpoint, [], []⟩ (.send onePageCall ::
        [message, message, message.take 79].map .deliver)).received <+: [onePageCall.1]) ∧
    (∃ message, (completionFormat.send fixedEndpoint oneCompletion).1 = .ok message ∧
      (run completionChannel.step ⟨fixedEndpoint, fixedEndpoint, [], []⟩ (.send oneCompletion ::
        [message, message, message.take 79].map .deliver)).received <+: [oneCompletion.1]) ∧
    (GpuQueueReceiver.decode fixedEndpoint []).2 = fixedEndpoint ∧
    (GpuCompletionReceiver.decode fixedEndpoint []).2 = fixedEndpoint := by
  have hnew : Endpoint.new 1 (Vector.replicate 32 7) = .ok fixedEndpoint := rfl
  have hnext : (2 : UInt64).toNat = fixedEndpoint.nextSequence.toNat + 1 := rfl
  obtain ⟨hcommands, hcompletions, hcommand, hcompletion⟩ := accepted_prefix_of_sent hnew hnew
  refine ⟨?_, ?_, hcommand _ _ _ rfl, hcompletion _ _ _ rfl⟩
  · obtain ⟨frame, hwrite⟩ := commandFormat_write_ok onePageCall.1 (by decide) rfl
      fixedEndpoint.session fixedEndpoint.nextSequence
    obtain ⟨message, hsend⟩ := FrameFormat.send_of_write _ onePageCall (by decide) hnext hwrite
    obtain ⟨halong, hsent⟩ := FrameFormat.along_replayed commandFormat_lawful hsend
    refine ⟨message, by rw [hsend], ?_⟩
    have haccepted := hcommands _ halong
    rw [show (run commandChannel.step _ _).sent = _ from hsent] at haccepted
    exact haccepted
  · obtain ⟨message, hsend⟩ := @FrameFormat.send_of_write _ completionFormat fixedEndpoint
      oneCompletion (by decide) _ hnext _ rfl
    obtain ⟨halong, hsent⟩ := FrameFormat.along_replayed completionFormat_lawful hsend
    refine ⟨message, by rw [hsend], ?_⟩
    have haccepted := hcompletions _ halong
    rw [show (run completionChannel.step _ _).sent = _ from hsent] at haccepted
    exact haccepted

end Mrml.Gpu
