import Mrml.Common.Checked
import Mrml.Common.Run
import Mrml.Gpu.Ring

/-!
# The shared command and completion queues

Model of the four ends of the two shared rings (`crates/mrml-kernel/src/virtual_gpu.rs`,
lines 308–377, 446–492 and 613–761): the guest publishes commands through
`GpuGuestCommandPublisher` and consumes completions with a `GpuRingConsumer`, and
`GpuVmmQueueBridge` consumes commands and publishes completions. A call of an end is a
sequence of atomic steps: a counter is read or written, or a slot is filled or copied;
what the code does on its own state is part of the step before. Steps of the ends
interleave in any order. Somebody else may also write the shared memory.

Reads and writes of the bridge go through the VMM and may fail. A failed write may have
been applied; the bridge poisons itself.
-/

namespace Mrml.Gpu

/-! ## Layout -/

/-- `PAGE_SIZE`. -/
def pageSize : UInt64 := 4096

/-- `GpuSharedQueueLayout` (lines 314–319). -/
structure GpuSharedQueueLayout where
  commandBase : UInt64
  completionBase : UInt64
  pagesPerRing : UInt64
  slots : UInt16
deriving DecidableEq

/-- `GpuSharedQueueLayout::new` (lines 322–360); the indices take 128 bytes. -/
def GpuSharedQueueLayout.new (commandBase completionBase : UInt64) (slots : ℕ) :
    Except GpuError GpuSharedQueueLayout := do
  refuseIf (slots = 0 ∨ slots > maxGpuQueueSlots ∨ commandBase = 0 ∨ completionBase = 0 ∨
    commandBase % pageSize ≠ 0 ∨ completionBase % pageSize ≠ 0) .invalidQueueMapping
  let payload ← okOr (checkedMul64 (UInt64.ofNat slots) 80) .rangeOverflow
  let bytes ← okOr (checkedAdd64 128 payload) .rangeOverflow
  let padded ← okOr (checkedAdd64 bytes (pageSize - 1)) .rangeOverflow
  let pagesPerRing := padded / pageSize
  let length ← okOr (checkedMul64 pagesPerRing pageSize) .rangeOverflow
  let commandEnd ← okOr (checkedAdd64 commandBase length) .rangeOverflow
  let completionEnd ← okOr (checkedAdd64 completionBase length) .rangeOverflow
  refuseIf (commandBase < completionEnd ∧ completionBase < commandEnd) .invalidQueueMapping
  return ⟨commandBase, completionBase, pagesPerRing, UInt16.ofNat slots⟩

/-- `slot_address` (lines 755–761). -/
def slotAddress (base : UInt64) (ticket : GpuRingTicket) : Except GpuError UInt64 := do
  let address ← okOr (checkedAdd64 base 128) .rangeOverflow
  okOr (checkedAdd64 address (ticket.slot.toUInt64 * 80)) .rangeOverflow

/-! ## The ends -/

/-- A shared ring, and the messages that were published on it and taken from it. -/
structure Link where
  ring : SharedRing
  sent : List QueueMessage
  received : List QueueMessage

/-- `GpuGuestCommandPublisher` (lines 452–455). -/
structure GpuGuestCommandPublisher where
  producer : GpuRingProducer
  poisoned : Bool

/-- `GpuGuestCommandPublisher::new` (lines 458–463). -/
def GpuGuestCommandPublisher.new (N : ℕ) : Except GpuError GpuGuestCommandPublisher := do
  let producer ← GpuRingProducer.new N
  return ⟨producer, false⟩

/-- Where a call of `publish` stands: nowhere, before the copy into the slot, before the
    release of the counter, or before the slot is erased again. -/
inductive PublisherPc
  | idle
  | reserved (previous : UInt64) (ticket : GpuRingTicket) (message : QueueMessage)
  | filled (previous : UInt64) (ticket : GpuRingTicket) (message : QueueMessage)
  | refused (ticket : GpuRingTicket)

/-- `GpuVmmQueueBridge` (lines 628–633). -/
structure GpuVmmQueueBridge where
  layout : GpuSharedQueueLayout
  commandConsumer : GpuRingConsumer
  completionProducer : GpuRingProducer
  poisoned : Bool

/-- `GpuVmmQueueBridge::new` (lines 636–646). -/
def GpuVmmQueueBridge.new (N : ℕ) (layout : GpuSharedQueueLayout) :
    Except GpuError GpuVmmQueueBridge := do
  refuseIf (layout.slots.toNat ≠ N) .invalidQueueCapacity
  let commandConsumer ← GpuRingConsumer.new N
  let completionProducer ← GpuRingProducer.new N
  return ⟨layout, commandConsumer, completionProducer, false⟩

/-- Where a call of the bridge stands. `consume_command`: before the copy out of the slot
    or before the counter is written; `publish_completion`: before the slot or before the
    counter is written. -/
inductive BridgePc
  | idle
  | acquired (ticket : GpuRingTicket)
  | released (consumed : UInt64)
  | reserved (ticket : GpuRingTicket) (message : QueueMessage)
  | filled (ticket : GpuRingTicket) (message : QueueMessage)

/-- A call of the bridge. -/
inductive BridgeCall
  | consumeCommand
  | publishCompletion (message : QueueMessage)

/-- The outcome of an access of the bridge to guest memory. A failed counter write may
    have been applied, and a failed slot write leaves any residue. -/
inductive Io
  | ok
  | failed (applied : Bool) (residue : QueueMessage)

/-- Where the consumer of the guest stands: nowhere, before the copy, or before the
    release. -/
inductive GuestPc
  | idle
  | acquired (ticket : GpuRingTicket)
  | copied (ticket : GpuRingTicket) (message : QueueMessage)

/-- The two rings, their four ends, and the command ring of the service. -/
structure Queues (N : ℕ) where
  command : Link
  completion : Link
  publisher : GpuGuestCommandPublisher
  publisherPc : PublisherPc
  bridge : GpuVmmQueueBridge
  bridgePc : BridgePc
  owned : OwnedRing N
  guest : GpuRingConsumer
  guestPc : GuestPc

namespace Queues

variable {N : ℕ}

/-- Zeroed rings and new ends over the layout. -/
def new (N : ℕ) (commandBase completionBase : UInt64) : Except GpuError (Queues N) := do
  let layout ← GpuSharedQueueLayout.new commandBase completionBase N
  let publisher ← GpuGuestCommandPublisher.new N
  let bridge ← GpuVmmQueueBridge.new N layout
  let owned ← OwnedRing.new N
  let guest ← GpuRingConsumer.new N
  return ⟨⟨.new, [], []⟩, ⟨.new, [], []⟩, publisher, .idle, bridge, .idle, owned, guest, .idle⟩

/-- The next step of `GpuGuestCommandPublisher::publish` (lines 469–492), which starts a
    call for `message` if none is under way. -/
def publisherStep (s : Queues N) (message : QueueMessage) : Queues N :=
  match s.publisherPc with
  | .idle =>
    if s.publisher.poisoned then s
    else
      match s.publisher.producer.reserve N s.command.ring.consumed with
      | (.error _, producer) => { s with publisher := { s.publisher with producer } }
      | (.ok ticket, producer) =>
        { s with
          publisher := { s.publisher with producer }
          publisherPc := .reserved s.publisher.producer.published ticket message }
  | .reserved previous ticket message =>
    { s with
      command := { s.command with ring := s.command.ring.fill ticket.slot message }
      publisherPc := .filled previous ticket message }
  | .filled previous ticket message =>
    match s.command.ring.publish previous ticket with
    | (.error _, _) => { s with publisherPc := .refused ticket }
    | (.ok (), ring) =>
      let s := { s with
        command := { s.command with ring, sent := s.command.sent ++ [message] }
        publisherPc := .idle }
      match s.publisher.producer.commit ticket with
      | (.ok _, producer) => { s with publisher := { s.publisher with producer } }
      | (.error _, producer) => { s with publisher := ⟨producer, true⟩ }
  | .refused ticket =>
    { s with
      command := { s.command with ring := s.command.ring.fill ticket.slot QueueMessage.zero }
      publisher := { s.publisher with poisoned := true }
      publisherPc := .idle }

/-- The `map_err` of `read` and `write` (lines 733–752): the call ends and the bridge is
    poisoned. -/
def poison (s : Queues N) : Queues N :=
  { s with bridge := { s.bridge with poisoned := true }, bridgePc := .idle }

/-- The start of `consume_command` (lines 657–666): the counter is read, and there is a
    message and a place for it. -/
def consumeStart (s : Queues N) : Queues N :=
  match s.bridge.commandConsumer.acquire N s.command.ring.published with
  | .error _ => s
  | .ok ticket =>
    if s.owned.count = N then s
    else
      match slotAddress s.bridge.layout.commandBase ticket with
      | .error _ => s
      | .ok _ => { s with bridgePc := .acquired ticket }

/-- The copy of `consume_command` (lines 667–674): the slot is read into the owned ring
    and released. -/
def consumeCopy (s : Queues N) (ticket : GpuRingTicket) : Queues N :=
  let message := s.command.ring.slots ticket.slot.toNat
  match s.owned.enqueue message.toList with
  | (.error _, owned) => { s with owned, bridgePc := .idle }
  | (.ok (), owned) =>
    let s := { s with
      owned
      command := { s.command with received := s.command.received ++ [message] } }
    match s.bridge.commandConsumer.release N ticket with
    | (.error _, _) => { s with bridgePc := .idle }
    | (.ok consumed, commandConsumer) =>
      { s with bridge := { s.bridge with commandConsumer }, bridgePc := .released consumed }

/-- The counter write of `consume_command` (line 675). -/
def writeConsumed (s : Queues N) (consumed : UInt64) : Queues N :=
  { s with
    command := { s.command with ring := { s.command.ring with consumed } }
    bridgePc := .idle }

/-- The start of `publish_completion` (lines 684–691): the counter is read and the next
    slot is reserved. -/
def completionStart (s : Queues N) (message : QueueMessage) : Queues N :=
  match s.bridge.completionProducer.reserve N s.completion.ring.consumed with
  | (.error _, completionProducer) => { s with bridge := { s.bridge with completionProducer } }
  | (.ok ticket, completionProducer) =>
    let s := { s with bridge := { s.bridge with completionProducer } }
    match slotAddress s.bridge.layout.completionBase ticket with
    | .error _ => s
    | .ok _ => { s with bridgePc := .reserved ticket message }

/-- The slot write of `publish_completion` (line 692). -/
def fillCompletion (s : Queues N) (ticket : GpuRingTicket) (message : QueueMessage) : Queues N :=
  { s with completion := { s.completion with ring := s.completion.ring.fill ticket.slot message } }

/-- The counter write of `publish_completion` (line 693): the message is published. -/
def writePublished (s : Queues N) (ticket : GpuRingTicket) (message : QueueMessage) : Queues N :=
  { s with
    completion := { s.completion with
      ring := { s.completion.ring with published := ticket.position }
      sent := s.completion.sent ++ [message] }
    bridgePc := .idle }

/-- The commit of `publish_completion` (lines 694–696). -/
def commitCompletion (s : Queues N) (ticket : GpuRingTicket) : Queues N :=
  { s with bridge := { s.bridge with
      completionProducer := (s.bridge.completionProducer.commit ticket).2 } }

/-- The next step of the bridge (lines 652–698), which starts `call` if none is under
    way; `io` is the outcome of its access to guest memory. -/
def bridgeStep (s : Queues N) (call : BridgeCall) (io : Io) : Queues N :=
  match s.bridgePc with
  | .idle =>
    if s.bridge.poisoned then s
    else
      match io, call with
      | .failed _ _, _ => s.poison
      | .ok, .consumeCommand => s.consumeStart
      | .ok, .publishCompletion message => s.completionStart message
  | .acquired ticket =>
    match io with
    | .failed _ _ => s.poison
    | .ok => s.consumeCopy ticket
  | .released consumed =>
    match io with
    | .failed applied _ => (if applied then s.writeConsumed consumed else s).poison
    | .ok => s.writeConsumed consumed
  | .reserved ticket message =>
    match io with
    | .failed _ residue => (s.fillCompletion ticket residue).poison
    | .ok => { s.fillCompletion ticket message with bridgePc := .filled ticket message }
  | .filled ticket message =>
    match io with
    | .failed applied _ => (if applied then s.writePublished ticket message else s).poison
    | .ok => (s.writePublished ticket message).commitCompletion ticket

/-- The next step of the guest's consumer: acquire, copy, release (lines 494–500 and
    551–597). -/
def guestStep (s : Queues N) : Queues N :=
  match s.guestPc with
  | .idle =>
    match s.guest.acquire N s.completion.ring.published with
    | .error _ => s
    | .ok ticket => { s with guestPc := .acquired ticket }
  | .acquired ticket =>
    { s with guestPc := .copied ticket (s.completion.ring.slots ticket.slot.toNat) }
  | .copied ticket message =>
    match s.completion.ring.consume s.guest.consumed ticket with
    | (.error _, _) => { s with guestPc := .idle }
    | (.ok (), ring) =>
      let s := { s with completion := { s.completion with ring }, guestPc := .idle }
      match s.guest.release N ticket with
      | (.error _, _) => s
      | (.ok _, guest) =>
        { s with
          completion := { s.completion with received := s.completion.received ++ [message] }
          guest }

/-- What can happen next: a step of an end, the service takes a command from the owned
    ring, or somebody else writes the shared memory. -/
inductive Event
  | publisher (message : QueueMessage)
  | bridge (call : BridgeCall) (io : Io)
  | guest
  | service
  | tamper (command completion : SharedRing)

/-- One event. -/
def step (s : Queues N) : Event → Queues N
  | .publisher message => s.publisherStep message
  | .bridge call io => s.bridgeStep call io
  | .guest => s.guestStep
  | .service => { s with owned := s.owned.dequeue.2 }
  | .tamper command completion =>
    { s with
      command := { s.command with ring := command }
      completion := { s.completion with ring := completion } }

/-- Nobody but the ends writes the shared memory. -/
def Event.IsProtocol : Event → Prop
  | .tamper _ _ => False
  | _ => True

end Queues

end Mrml.Gpu
