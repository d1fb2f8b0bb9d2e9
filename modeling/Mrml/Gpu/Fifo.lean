import Mrml.Common.Spsc
import Mrml.Gpu.SharedQueue

/-!
# FIFO order on the shared queues

The invariant of the shared queues: each ring is a ring in the sense of `Mrml.Spsc`, the
cached counters of an end agree with the shared ones, and a ticket in the hands of an
end is for the next message. A step of an end keeps the invariant and never writes a slot
whose message has not been released.

Results:
* `Queues.step_inv`: one step of an end.
* `Queues.shared_queue_fifo`: every run.
-/

namespace Mrml.Gpu

/-! ## One ring -/

namespace Link

variable {N : ℕ} {link link' : Link}

/-- A shared ring as an abstract one; the messages released are those counted by
    `consumed`. -/
def spsc (link : Link) : Spsc QueueMessage :=
  ⟨link.ring.slots, link.ring.consumed.toNat, link.sent, link.received⟩

/-- The ring is in order and the published messages are those counted by `published`. -/
structure Inv (N : ℕ) (link : Link) : Prop where
  spsc : link.spsc.Inv N
  published : link.ring.published.toNat = link.sent.length

/-- Slots with a message that has not been released are as they were. -/
def Intact (N : ℕ) (link link' : Link) : Prop :=
  ∀ i, link.ring.consumed.toNat ≤ i → i < link.sent.length →
    link'.ring.slots (i % N) = link.ring.slots (i % N)

theorem Intact.of_slots (h : link'.ring.slots = link.ring.slots) : Intact N link link' := by
  intro i _ _
  rw [h]

/-- A ticket for the next message, which the producer has reserved. -/
structure Reserved (N : ℕ) (producer : GpuRingProducer) (link : Link) (ticket : GpuRingTicket) :
    Prop where
  reserved : producer.reserved = some ticket
  position : ticket.position.toNat = link.sent.length + 1
  slot : ticket.slot.toNat = link.sent.length % N
  room : link.sent.length < link.ring.consumed.toNat + N

/-- A ticket for the next message, which the consumer has not released. -/
structure Acquired (N : ℕ) (consumer : GpuRingConsumer) (link : Link) (ticket : GpuRingTicket) :
    Prop where
  ticket_eq : ticket = ringTicket N (consumer.consumed + 1)
  position : ticket.position.toNat = link.received.length + 1
  slot : ticket.slot.toNat = link.received.length % N
  published : link.received.length < link.sent.length

theorem Inv.new : Inv N ⟨.new, [], []⟩ where
  spsc := ⟨List.nil_prefix, Nat.le_refl _, Nat.zero_le _, fun _ _ _ hi => by cases hi⟩
  published := rfl

/-! ### The producer -/

theorem Inv.reserve (h : link.Inv N) (hN : 0 < N ∧ N ≤ maxGpuQueueSlots)
    {producer producer' : GpuRingProducer} (hpublished : producer.published = link.ring.published)
    {ticket : GpuRingTicket}
    (hreserve : producer.reserve N link.ring.consumed = (.ok ticket, producer')) :
    producer'.published = link.ring.published ∧ Reserved N producer' link ticket := by
  obtain ⟨hkeep, hreserved, hposition, hslot, hroom⟩ := GpuRingProducer.reserve_spec hN hreserve
  rw [hpublished, h.published] at hposition hslot hroom
  exact ⟨hkeep.trans hpublished, hreserved, hposition, hslot, hroom⟩

theorem Inv.fill (h : link.Inv N) {producer : GpuRingProducer} {ticket : GpuRingTicket}
    (hticket : Reserved N producer link ticket) (message : QueueMessage) :
    Inv N { link with ring := link.ring.fill ticket.slot message } where
  spsc := by
    have hfill := h.spsc.fill hticket.room message
    rw [show link.spsc.sent = link.sent from rfl, ← hticket.slot] at hfill
    exact hfill
  published := h.published

theorem Reserved.intact {producer : GpuRingProducer} {ticket : GpuRingTicket}
    (hticket : Reserved N producer link ticket) (message : QueueMessage) :
    Intact N link { link with ring := link.ring.fill ticket.slot message } := by
  intro i hconsumed hi
  show Function.update link.ring.slots ticket.slot.toNat message (i % N) = _
  rw [hticket.slot]
  exact Spsc.fill_frame (s := link.spsc) hticket.room message hconsumed hi

theorem Inv.publish (h : link.Inv N) {producer : GpuRingProducer} {ticket : GpuRingTicket}
    (hticket : Reserved N producer link ticket) {message : QueueMessage}
    (hslot : link.ring.slots ticket.slot.toNat = message) :
    Inv N { link with
      ring := { link.ring with published := ticket.position }
      sent := link.sent ++ [message] } where
  spsc := by
    rw [hticket.slot] at hslot
    exact h.spsc.publish hticket.room hslot
  published := by
    show ticket.position.toNat = (link.sent ++ [message]).length
    rw [hticket.position, List.length_append, List.length_singleton]

/-- A reservation outlives what the consumer does. -/
theorem Reserved.mono {producer : GpuRingProducer} {ticket : GpuRingTicket}
    (hticket : Reserved N producer link ticket) (hsent : link'.sent = link.sent)
    (hconsumed : link.ring.consumed.toNat ≤ link'.ring.consumed.toNat) :
    Reserved N producer link' ticket where
  reserved := hticket.reserved
  position := by rw [hsent, hticket.position]
  slot := by rw [hsent, hticket.slot]
  room := by
    have := hticket.room
    rw [hsent]
    omega

/-! ### The consumer -/

theorem Inv.acquire (h : link.Inv N) (hN : 0 < N ∧ N ≤ maxGpuQueueSlots)
    {consumer : GpuRingConsumer} (hconsumed : consumer.consumed.toNat = link.received.length)
    {ticket : GpuRingTicket} (hacquire : consumer.acquire N link.ring.published = .ok ticket) :
    Acquired N consumer link ticket := by
  obtain ⟨rfl, hposition, hslot, hlt⟩ := GpuRingConsumer.acquire_spec hN hacquire
  rw [hconsumed] at hposition hslot hlt
  rw [h.published] at hlt
  exact ⟨rfl, hposition, hslot, hlt⟩

/-- The slot of an acquired ticket has the next message. -/
theorem Inv.next (h : link.Inv N) {consumer : GpuRingConsumer} {ticket : GpuRingTicket}
    (hticket : Acquired N consumer link ticket) :
    link.sent[link.received.length]? = some (link.ring.slots ticket.slot.toNat) := by
  rw [hticket.slot]
  exact h.spsc.next hticket.published

theorem Inv.take (h : link.Inv N) {message : QueueMessage}
    (hnext : link.sent[link.received.length]? = some message) :
    Inv N { link with received := link.received ++ [message] } where
  spsc := h.spsc.take hnext
  published := h.published

theorem Inv.release (h : link.Inv N) {consumed : UInt64}
    (hconsumed : consumed.toNat = link.received.length) :
    Inv N { link with ring := { link.ring with consumed } } where
  spsc := h.spsc.release (by rw [hconsumed]; exact h.spsc.released_le) hconsumed.le
  published := h.published

/-- Releasing an acquired ticket moves the consumer to the next message. -/
theorem Acquired.release {consumer : GpuRingConsumer} {ticket : GpuRingTicket}
    (hticket : Acquired N consumer link ticket) :
    consumer.release N ticket = (.ok ticket.position, ⟨ticket.position⟩) := by
  rw [GpuRingConsumer.release, if_neg (not_not.mpr hticket.ticket_eq)]

/-- An acquired ticket outlives what the producer does. -/
theorem Acquired.mono {consumer : GpuRingConsumer} {ticket : GpuRingTicket}
    (hticket : Acquired N consumer link ticket) (hreceived : link'.received = link.received)
    (hsent : link.sent <+: link'.sent) : Acquired N consumer link' ticket where
  ticket_eq := hticket.ticket_eq
  position := by rw [hreceived, hticket.position]
  slot := by rw [hreceived, hticket.slot]
  published := by
    have := hticket.published
    have := hsent.length_le
    rw [hreceived]
    omega

/-- The messages taken are a prefix of the messages published, at most `N` are outstanding,
    and each message that has not been released is in its slot. -/
structure Fifo (N : ℕ) (link : Link) : Prop where
  received : link.received <+: link.sent
  published : link.ring.published.toNat = link.sent.length
  outstanding : link.ring.published.toNat ≤ link.ring.consumed.toNat + N
  held : ∀ i message, link.ring.consumed.toNat ≤ i → link.sent[i]? = some message →
    link.ring.slots (i % N) = message

theorem Inv.fifo (h : link.Inv N) : link.Fifo N where
  received := h.spsc.received
  published := h.published
  outstanding := by
    rw [h.published]
    exact h.spsc.outstanding
  held := h.spsc.intact

end Link

/-! ## The ends -/

namespace Queues

open Link

variable {N : ℕ} {link link' : Link}

/-- The publisher has seen nothing wrong; its ticket is for the next command. -/
def PublisherInv (N : ℕ) (publisher : GpuGuestCommandPublisher) (pc : PublisherPc) (link : Link) :
    Prop :=
  publisher.poisoned = false ∧ publisher.producer.published = link.ring.published ∧
    match pc with
    | .idle => True
    | .reserved previous ticket _ =>
      previous = publisher.producer.published ∧ Reserved N publisher.producer link ticket
    | .filled previous ticket message =>
      previous = publisher.producer.published ∧ Reserved N publisher.producer link ticket ∧
        link.ring.slots ticket.slot.toNat = message
    | .refused _ => False

/-- The bridge has taken as many commands as its counter says. -/
def ConsumerInv (N : ℕ) (consumer : GpuRingConsumer) (pc : BridgePc) (link : Link) : Prop :=
  consumer.consumed.toNat = link.received.length ∧
    match pc with
    | .acquired ticket => Acquired N consumer link ticket
    | .released consumed => consumed = consumer.consumed
    | _ => True

/-- As long as the bridge is not poisoned, it has published as many completions as its
    counter says; its ticket is for the next one. -/
def ProducerInv (N : ℕ) (bridge : GpuVmmQueueBridge) (pc : BridgePc) (link : Link) : Prop :=
  (bridge.poisoned = false → bridge.completionProducer.published = link.ring.published) ∧
    match pc with
    | .reserved ticket _ =>
      bridge.poisoned = false ∧ Reserved N bridge.completionProducer link ticket
    | .filled ticket message =>
      bridge.poisoned = false ∧ Reserved N bridge.completionProducer link ticket ∧
        link.ring.slots ticket.slot.toNat = message
    | _ => True

/-- The guest has taken as many completions as its counter says. -/
def GuestInv (N : ℕ) (guest : GpuRingConsumer) (pc : GuestPc) (link : Link) : Prop :=
  guest.consumed.toNat = link.received.length ∧
    match pc with
    | .idle => True
    | .acquired ticket => Acquired N guest link ticket
    | .copied ticket message =>
      Acquired N guest link ticket ∧ link.sent[link.received.length]? = some message

theorem PublisherInv.mono {publisher : GpuGuestCommandPublisher} {pc : PublisherPc}
    (h : PublisherInv N publisher pc link) (hsent : link'.sent = link.sent)
    (hslots : link'.ring.slots = link.ring.slots)
    (hpublished : link'.ring.published = link.ring.published)
    (hconsumed : link.ring.consumed.toNat ≤ link'.ring.consumed.toNat) :
    PublisherInv N publisher pc link' := by
  obtain ⟨hlive, hcached, hpc⟩ := h
  refine ⟨hlive, hcached.trans hpublished.symm, ?_⟩
  cases pc with
  | idle => trivial
  | reserved previous ticket message => exact ⟨hpc.1, hpc.2.mono hsent hconsumed⟩
  | filled previous ticket message =>
    exact ⟨hpc.1, hpc.2.1.mono hsent hconsumed, by rw [hslots, hpc.2.2]⟩
  | refused ticket => exact hpc

theorem ConsumerInv.mono {consumer : GpuRingConsumer} {pc : BridgePc}
    (h : ConsumerInv N consumer pc link) (hreceived : link'.received = link.received)
    (hsent : link.sent <+: link'.sent) : ConsumerInv N consumer pc link' := by
  obtain ⟨hcount, hpc⟩ := h
  refine ⟨by rw [hreceived, hcount], ?_⟩
  cases pc with
  | acquired ticket => exact hpc.mono hreceived hsent
  | released consumed => exact hpc
  | idle => trivial
  | reserved ticket message => trivial
  | filled ticket message => trivial

theorem ProducerInv.mono {bridge : GpuVmmQueueBridge} {pc : BridgePc}
    (h : ProducerInv N bridge pc link) (hsent : link'.sent = link.sent)
    (hslots : link'.ring.slots = link.ring.slots)
    (hpublished : link'.ring.published = link.ring.published)
    (hconsumed : link.ring.consumed.toNat ≤ link'.ring.consumed.toNat) :
    ProducerInv N bridge pc link' := by
  obtain ⟨hcached, hpc⟩ := h
  refine ⟨fun hlive => (hcached hlive).trans hpublished.symm, ?_⟩
  cases pc with
  | idle => trivial
  | acquired ticket => trivial
  | released consumed => trivial
  | reserved ticket message => exact ⟨hpc.1, hpc.2.mono hsent hconsumed⟩
  | filled ticket message =>
    exact ⟨hpc.1, hpc.2.1.mono hsent hconsumed, by rw [hslots, hpc.2.2]⟩

theorem GuestInv.mono {guest : GpuRingConsumer} {pc : GuestPc} (h : GuestInv N guest pc link)
    (hreceived : link'.received = link.received) (hsent : link.sent <+: link'.sent) :
    GuestInv N guest pc link' := by
  obtain ⟨hcount, hpc⟩ := h
  refine ⟨by rw [hreceived, hcount], ?_⟩
  cases pc with
  | idle => trivial
  | acquired ticket => exact hpc.mono hreceived hsent
  | copied ticket message =>
    refine ⟨hpc.1.mono hreceived hsent, ?_⟩
    obtain ⟨hlt, hnext⟩ := List.getElem?_eq_some_iff.mp hpc.2
    rw [hreceived, ← hnext]
    exact List.prefix_iff_getElem?.mp hsent _ hlt

/-! ## The system -/

/-- Both rings are in order, and each end is where its counters say. -/
structure Inv (s : Queues N) : Prop where
  command : s.command.Inv N
  completion : s.completion.Inv N
  publisher : PublisherInv N s.publisher s.publisherPc s.command
  consumer : ConsumerInv N s.bridge.commandConsumer s.bridgePc s.command
  producer : ProducerInv N s.bridge s.bridgePc s.completion
  guest : GuestInv N s.guest s.guestPc s.completion

/-- The invariant after a step that leaves the unreleased messages of both rings in
    place. -/
def Safe (s s' : Queues N) : Prop :=
  s'.Inv ∧ Intact N s.command s'.command ∧ Intact N s.completion s'.completion

variable {s : Queues N}

theorem publisherStep_inv (hN : 0 < N ∧ N ≤ maxGpuQueueSlots) (hs : s.Inv)
    (message : QueueMessage) : Safe s (s.publisherStep message) := by
  obtain ⟨hlive, hcached, hpc⟩ := hs.publisher
  unfold publisherStep
  split
  · -- no call is under way
    rw [if_neg (by rw [hlive]; decide)]
    split
    · next error producer hreserve =>
      obtain rfl := GpuRingProducer.reserve_error hreserve
      exact ⟨hs, .of_slots rfl, .of_slots rfl⟩
    · next ticket producer hreserve =>
      obtain ⟨hkeep, hticket⟩ := hs.command.reserve hN hcached hreserve
      refine ⟨?_, .of_slots rfl, .of_slots rfl⟩
      exact { hs with publisher := ⟨hlive, hkeep, hcached.trans hkeep.symm, hticket⟩ }
  · next previous ticket message' hreserved =>
    rw [hreserved] at hpc
    obtain ⟨hprevious, hticket⟩ := hpc
    refine ⟨?_, hticket.intact message', .of_slots rfl⟩
    have hfilled : (s.command.ring.fill ticket.slot message').slots ticket.slot.toNat = message' :=
      Function.update_self _ _ _
    exact { hs with
      command := hs.command.fill hticket message'
      publisher := ⟨hlive, hcached, hprevious,
        (hticket.mono rfl (Nat.le_refl _) : Reserved N _ ⟨s.command.ring.fill ticket.slot message',
          s.command.sent, s.command.received⟩ ticket), hfilled⟩
      consumer := hs.consumer.mono rfl (List.prefix_refl _) }
  · next previous ticket message' hfilled =>
    rw [hfilled] at hpc
    obtain ⟨hprevious, hticket, hslot⟩ := hpc
    have hnext : ticket.position.toNat = s.publisher.producer.published.toNat + 1 := by
      rw [hticket.position, hcached, hs.command.published]
    rw [hprevious, SharedRing.publish_of_next hnext hcached.symm]
    dsimp only
    rw [GpuRingProducer.commit_of_reserved hticket.reserved hnext]
    refine ⟨?_, .of_slots rfl, .of_slots rfl⟩
    exact { hs with
      command := hs.command.publish hticket hslot
      publisher := ⟨hlive, rfl, trivial⟩
      consumer := hs.consumer.mono rfl (List.prefix_append _ _) }
  · next ticket hrefused =>
    rw [hrefused] at hpc
    exact hpc.elim

theorem poison_inv (hs : s.Inv) : s.poison.Inv :=
  { hs with
    consumer := ⟨hs.consumer.1, trivial⟩
    producer := ⟨(fun h => nomatch h), trivial⟩ }

theorem consumeStart_inv (hN : 0 < N ∧ N ≤ maxGpuQueueSlots) (hs : s.Inv) :
    Safe s s.consumeStart := by
  have hsame : Safe s s := ⟨hs, .of_slots rfl, .of_slots rfl⟩
  unfold consumeStart
  split
  · exact hsame
  · next ticket hacquire =>
    split_ifs
    · exact hsame
    · split
      · exact hsame
      · refine ⟨?_, .of_slots rfl, .of_slots rfl⟩
        exact { hs with
          consumer := ⟨hs.consumer.1, hs.command.acquire hN hs.consumer.1 hacquire⟩
          producer := ⟨hs.producer.1, trivial⟩ }

theorem consumeCopy_inv (hs : s.Inv) {ticket : GpuRingTicket}
    (hticket : Acquired N s.bridge.commandConsumer s.command ticket) :
    Safe s (s.consumeCopy ticket) := by
  unfold consumeCopy
  dsimp only
  split
  · refine ⟨?_, .of_slots rfl, .of_slots rfl⟩
    exact { hs with
      consumer := ⟨hs.consumer.1, trivial⟩
      producer := ⟨hs.producer.1, trivial⟩ }
  · rw [hticket.release]
    refine ⟨?_, .of_slots rfl, .of_slots rfl⟩
    have hcount : ticket.position.toNat = (s.command.received ++
        [s.command.ring.slots ticket.slot.toNat]).length := by
      rw [hticket.position, List.length_append, List.length_singleton]
    exact { hs with
      command := hs.command.take (hs.command.next hticket)
      publisher := hs.publisher.mono rfl rfl rfl (Nat.le_refl _)
      consumer := ⟨hcount, rfl⟩
      producer := ⟨hs.producer.1, trivial⟩ }

theorem writeConsumed_inv (hs : s.Inv) {consumed : UInt64}
    (hconsumed : consumed = s.bridge.commandConsumer.consumed) :
    Safe s (s.writeConsumed consumed) := by
  subst hconsumed
  refine ⟨?_, .of_slots rfl, .of_slots rfl⟩
  have hgrow : s.command.ring.consumed.toNat ≤ s.bridge.commandConsumer.consumed.toNat := by
    rw [hs.consumer.1]
    exact hs.command.spsc.released_le
  exact { hs with
    command := hs.command.release hs.consumer.1
    publisher := hs.publisher.mono rfl rfl rfl hgrow
    consumer := ⟨hs.consumer.1, trivial⟩
    producer := ⟨hs.producer.1, trivial⟩ }

theorem completionStart_inv (hN : 0 < N ∧ N ≤ maxGpuQueueSlots) (hs : s.Inv)
    (hidle : s.bridgePc = .idle) (hlive : s.bridge.poisoned = false) (message : QueueMessage) :
    Safe s (s.completionStart message) := by
  unfold completionStart
  split
  · next error producer hreserve =>
    obtain rfl := GpuRingProducer.reserve_error hreserve
    exact ⟨hs, .of_slots rfl, .of_slots rfl⟩
  · next ticket producer hreserve =>
    obtain ⟨hkeep, hticket⟩ := hs.completion.reserve hN (hs.producer.1 hlive) hreserve
    dsimp only
    split
    · refine ⟨?_, .of_slots rfl, .of_slots rfl⟩
      exact { hs with producer := ⟨fun _ => hkeep, by rw [hidle]; trivial⟩ }
    · refine ⟨?_, .of_slots rfl, .of_slots rfl⟩
      exact { hs with
        consumer := ⟨hs.consumer.1, trivial⟩
        producer := ⟨fun _ => hkeep, hlive, hticket⟩ }

/-- Whatever is written to a reserved slot, only the pending message sees it. -/
theorem fillCompletion_inv (hs : s.Inv) {ticket : GpuRingTicket}
    (hticket : Reserved N s.bridge.completionProducer s.completion ticket)
    (hlive : s.bridge.poisoned = false) (message : QueueMessage) :
    Safe s { s.fillCompletion ticket message with bridgePc := .filled ticket message } := by
  refine ⟨?_, .of_slots rfl, hticket.intact message⟩
  have hfilled : (s.completion.ring.fill ticket.slot message).slots ticket.slot.toNat = message :=
    Function.update_self _ _ _
  exact { hs with
    completion := hs.completion.fill hticket message
    consumer := ⟨hs.consumer.1, trivial⟩
    producer := ⟨hs.producer.1, hlive, (hticket.mono rfl (Nat.le_refl _) :
      Reserved N _ ⟨s.completion.ring.fill ticket.slot message, s.completion.sent,
        s.completion.received⟩ ticket), hfilled⟩
    guest := hs.guest.mono rfl (List.prefix_refl _) }

theorem writePublished_inv (hs : s.Inv) {ticket : GpuRingTicket} {message : QueueMessage}
    (hticket : Reserved N s.bridge.completionProducer s.completion ticket)
    (hslot : s.completion.ring.slots ticket.slot.toNat = message) :
    (s.writePublished ticket message).completion.Inv N ∧
      GuestInv N s.guest s.guestPc (s.writePublished ticket message).completion :=
  ⟨hs.completion.publish hticket hslot, hs.guest.mono rfl (List.prefix_append _ _)⟩

theorem bridgeStep_inv (hN : 0 < N ∧ N ≤ maxGpuQueueSlots) (hs : s.Inv) (call : BridgeCall)
    (io : Io) : Safe s (s.bridgeStep call io) := by
  have hconsumer := hs.consumer.2
  have hproducer := hs.producer.2
  unfold bridgeStep
  split
  · next hidle =>
    split_ifs with hpoisoned
    · exact ⟨hs, .of_slots rfl, .of_slots rfl⟩
    · split
      · exact ⟨poison_inv hs, .of_slots rfl, .of_slots rfl⟩
      · exact consumeStart_inv hN hs
      · exact completionStart_inv hN hs hidle (by simpa using hpoisoned) _
  · next ticket hpc =>
    rw [hpc] at hconsumer
    split
    · exact ⟨poison_inv hs, .of_slots rfl, .of_slots rfl⟩
    · exact consumeCopy_inv hs hconsumer
  · next consumed hpc =>
    rw [hpc] at hconsumer
    have hwrite := writeConsumed_inv hs hconsumer
    split
    · split_ifs
      · exact ⟨poison_inv hwrite.1, .of_slots rfl, .of_slots rfl⟩
      · exact ⟨poison_inv hs, .of_slots rfl, .of_slots rfl⟩
    · exact hwrite
  · next ticket message hpc =>
    rw [hpc] at hproducer
    obtain ⟨hlive, hticket⟩ := hproducer
    split
    · next residue =>
      obtain ⟨hfill, hcommand, hcompletion⟩ := fillCompletion_inv hs hticket hlive residue
      have hpoison := poison_inv hfill
      exact ⟨hpoison, hcommand, hcompletion⟩
    · exact fillCompletion_inv hs hticket hlive message
  · next ticket message hpc =>
    rw [hpc] at hproducer
    obtain ⟨hlive, hticket, hslot⟩ := hproducer
    obtain ⟨hcompletion, hguest⟩ := writePublished_inv hs hticket hslot
    have hnext : ticket.position.toNat = s.bridge.completionProducer.published.toNat + 1 := by
      rw [hticket.position, hs.producer.1 hlive, hs.completion.published]
    split
    · split_ifs
      · refine ⟨?_, .of_slots rfl, .of_slots rfl⟩
        exact { hs with
          completion := hcompletion
          consumer := ⟨hs.consumer.1, trivial⟩
          producer := ⟨(fun h => nomatch h), trivial⟩
          guest := hguest }
      · exact ⟨poison_inv hs, .of_slots rfl, .of_slots rfl⟩
    · refine ⟨?_, .of_slots rfl, .of_slots rfl⟩
      have hcommit := GpuRingProducer.commit_of_reserved hticket.reserved hnext
      have hcached : (s.bridge.completionProducer.commit ticket).2.published = ticket.position := by
        rw [hcommit]
      exact { hs with
        completion := hcompletion
        consumer := ⟨hs.consumer.1, trivial⟩
        producer := ⟨fun _ => hcached, trivial⟩
        guest := hguest }

theorem guestStep_inv (hN : 0 < N ∧ N ≤ maxGpuQueueSlots) (hs : s.Inv) :
    Safe s s.guestStep := by
  obtain ⟨hcount, hpc⟩ := hs.guest
  unfold guestStep
  split
  · split
    · exact ⟨hs, .of_slots rfl, .of_slots rfl⟩
    · next ticket hacquire =>
      refine ⟨?_, .of_slots rfl, .of_slots rfl⟩
      exact { hs with guest := ⟨hcount, hs.completion.acquire hN hcount hacquire⟩ }
  · next ticket hacquired =>
    rw [hacquired] at hpc
    refine ⟨?_, .of_slots rfl, .of_slots rfl⟩
    exact { hs with guest := ⟨hcount, hpc, hs.completion.next hpc⟩ }
  · next ticket message hcopied =>
    rw [hcopied] at hpc
    obtain ⟨hticket, hnext⟩ := hpc
    split
    · refine ⟨?_, .of_slots rfl, .of_slots rfl⟩
      exact { hs with guest := ⟨hcount, trivial⟩ }
    · next ring hconsume =>
      obtain ⟨hcounter, rfl⟩ := SharedRing.consume_eq_ok hconsume
      dsimp only
      rw [hticket.release]
      refine ⟨?_, .of_slots rfl, .of_slots rfl⟩
      have hreceived : ticket.position.toNat = (s.completion.received ++ [message]).length := by
        rw [hticket.position, List.length_append, List.length_singleton]
      have hgrow : s.completion.ring.consumed.toNat ≤ ticket.position.toNat := by
        rw [hcounter, hcount, hticket.position]
        exact Nat.le_succ _
      exact { hs with
        completion := (hs.completion.take hnext).release hreceived
        producer := hs.producer.mono rfl rfl rfl hgrow
        guest := ⟨hreceived, trivial⟩ }

/-- **Step lemma.** A step of an end keeps the invariant and overwrites no message that
    has not been released. -/
theorem step_inv (hN : 0 < N ∧ N ≤ maxGpuQueueSlots) (hs : s.Inv) {event : Event}
    (hevent : event.IsProtocol) : Safe s (s.step event) := by
  cases event with
  | publisher message => exact publisherStep_inv hN hs message
  | bridge call io => exact bridgeStep_inv hN hs call io
  | guest => exact guestStep_inv hN hs
  | service => exact ⟨{ hs with }, .of_slots rfl, .of_slots rfl⟩
  | tamper command completion => exact hevent.elim

/-- New queues are in order. -/
theorem new_inv {commandBase completionBase : UInt64}
    (h : new N commandBase completionBase = .ok s) : (0 < N ∧ N ≤ maxGpuQueueSlots) ∧ s.Inv := by
  obtain ⟨layout, -, h⟩ := bind_eq_ok.mp h
  obtain ⟨publisher, hpublisher, h⟩ := bind_eq_ok.mp h
  obtain ⟨bridge, hbridge, h⟩ := bind_eq_ok.mp h
  obtain ⟨owned, -, h⟩ := bind_eq_ok.mp h
  obtain ⟨guest, hguest, h⟩ := bind_eq_ok.mp h
  obtain ⟨producer, hproducer, hpublisher⟩ := bind_eq_ok.mp hpublisher
  obtain ⟨-, -, hbridge⟩ := bind_eq_ok.mp hbridge
  obtain ⟨commandConsumer, hcommandConsumer, hbridge⟩ := bind_eq_ok.mp hbridge
  obtain ⟨completionProducer, hcompletionProducer, hbridge⟩ := bind_eq_ok.mp hbridge
  cases h
  cases hpublisher
  cases hbridge
  have hN : ¬ (N = 0 ∨ N > maxGpuQueueSlots) := by
    intro hbad
    rw [GpuRingConsumer.new, if_pos hbad] at hguest
    cases hguest
  rw [GpuRingConsumer.new, if_neg hN] at hguest hcommandConsumer
  rw [GpuRingProducer.new, if_neg hN] at hproducer hcompletionProducer
  cases hguest
  cases hcommandConsumer
  cases hproducer
  cases hcompletionProducer
  refine ⟨by omega, ?_⟩
  exact {
    command := .new
    completion := .new
    publisher := ⟨rfl, rfl, trivial⟩
    consumer := ⟨rfl, trivial⟩
    producer := ⟨fun _ => rfl, trivial⟩
    guest := ⟨rfl, trivial⟩ }

/-! ## Poisoned ends -/

/-- What the publisher owns: its own state and the commands it has published. -/
def publisherView (s : Queues N) : GpuGuestCommandPublisher × PublisherPc × List QueueMessage :=
  (s.publisher, s.publisherPc, s.command.sent)

/-- What the bridge owns: its own state, the commands it has taken and the completions it
    has published. -/
def bridgeView (s : Queues N) :
    GpuVmmQueueBridge × BridgePc × List QueueMessage × List QueueMessage :=
  (s.bridge, s.bridgePc, s.command.received, s.completion.sent)

theorem consumeStart_views : s.consumeStart.publisherView = s.publisherView ∧
    s.consumeStart.bridge.poisoned = s.bridge.poisoned := by
  unfold consumeStart
  split
  · exact ⟨rfl, rfl⟩
  · split_ifs
    · exact ⟨rfl, rfl⟩
    · split <;> exact ⟨rfl, rfl⟩

theorem consumeCopy_views (ticket : GpuRingTicket) :
    (s.consumeCopy ticket).publisherView = s.publisherView ∧
      (s.consumeCopy ticket).bridge.poisoned = s.bridge.poisoned := by
  unfold consumeCopy
  dsimp only
  split
  · exact ⟨rfl, rfl⟩
  · split <;> exact ⟨rfl, rfl⟩

theorem completionStart_views (message : QueueMessage) :
    (s.completionStart message).publisherView = s.publisherView ∧
      (s.completionStart message).bridge.poisoned = s.bridge.poisoned := by
  unfold completionStart
  split
  · exact ⟨rfl, rfl⟩
  · dsimp only
    split <;> exact ⟨rfl, rfl⟩

theorem bridgeStep_publisherView (call : BridgeCall) (io : Io) :
    (s.bridgeStep call io).publisherView = s.publisherView := by
  unfold bridgeStep
  split
  · split_ifs
    · rfl
    · split
      · rfl
      · exact consumeStart_views.1
      · exact (completionStart_views _).1
  · split
    · rfl
    · exact (consumeCopy_views _).1
  · split
    · split_ifs <;> rfl
    · rfl
  · split <;> rfl
  · split
    · split_ifs <;> rfl
    · rfl

theorem guestStep_views :
    s.guestStep.publisherView = s.publisherView ∧ s.guestStep.bridgeView = s.bridgeView := by
  unfold guestStep
  split
  · split <;> exact ⟨rfl, rfl⟩
  · exact ⟨rfl, rfl⟩
  · split
    · exact ⟨rfl, rfl⟩
    · dsimp only
      split <;> exact ⟨rfl, rfl⟩

theorem publisherStep_bridgeView (message : QueueMessage) :
    (s.publisherStep message).bridgeView = s.bridgeView := by
  unfold publisherStep
  split
  · split_ifs
    · rfl
    · split <;> rfl
  · rfl
  · split
    · rfl
    · dsimp only
      split <;> rfl
  · rfl

/-- Only a step of the publisher changes what it owns. -/
theorem step_publisherView (event : Event) :
    (s.step event).publisherView = s.publisherView ∨ ∃ message, event = .publisher message := by
  cases event with
  | publisher message => exact .inr ⟨message, rfl⟩
  | bridge call io => exact .inl (bridgeStep_publisherView call io)
  | guest => exact .inl guestStep_views.1
  | service => exact .inl rfl
  | tamper command completion => exact .inl rfl

/-- Only a step of the bridge changes what it owns. -/
theorem step_bridgeView (event : Event) :
    (s.step event).bridgeView = s.bridgeView ∨ ∃ call io, event = .bridge call io := by
  cases event with
  | publisher message => exact .inl (publisherStep_bridgeView message)
  | bridge call io => exact .inr ⟨call, io, rfl⟩
  | guest => exact .inl guestStep_views.2
  | service => exact .inl rfl
  | tamper command completion => exact .inl rfl

/-- A poisoned end has no call under way. -/
def Quiet (s : Queues N) : Prop :=
  (s.publisher.poisoned = true → s.publisherPc = .idle) ∧
    (s.bridge.poisoned = true → s.bridgePc = .idle)

theorem publisherStep_quiet (h : s.publisher.poisoned = true → s.publisherPc = .idle)
    (message : QueueMessage) : (s.publisherStep message).publisher.poisoned = true →
      (s.publisherStep message).publisherPc = .idle := by
  unfold publisherStep
  split
  · next hidle =>
    split_ifs with hpoisoned
    · exact h
    · split
      · intro hpoisoned'
        exact absurd hpoisoned' hpoisoned
      · intro hpoisoned'
        exact absurd hpoisoned' hpoisoned
  · next hpc =>
    intro hpoisoned
    rw [h hpoisoned] at hpc
    cases hpc
  · next hpc =>
    split
    · intro hpoisoned
      rw [h hpoisoned] at hpc
      cases hpc
    · dsimp only
      split
      · intro _
        rfl
      · intro _
        rfl
  · intro _
    rfl

theorem bridgeStep_quiet (h : s.bridge.poisoned = true → s.bridgePc = .idle) (call : BridgeCall)
    (io : Io) : (s.bridgeStep call io).bridge.poisoned = true →
      (s.bridgeStep call io).bridgePc = .idle := by
  by_cases hpoisoned : s.bridge.poisoned = true
  · have hidle := h hpoisoned
    have hsame : s.bridgeStep call io = s := by
      unfold bridgeStep
      rw [hidle]
      exact if_pos hpoisoned
    rw [hsame]
    exact h
  · -- a step that does not fail leaves the bridge live
    have hlive : ∀ s' : Queues N, s'.bridge.poisoned = s.bridge.poisoned →
        s'.bridge.poisoned = true → s'.bridgePc = .idle := by
      intro s' hsame hpoisoned'
      exact absurd (hsame.symm.trans hpoisoned') hpoisoned
    unfold bridgeStep
    split
    · rw [if_neg hpoisoned]
      split
      · exact fun _ => rfl
      · exact hlive _ consumeStart_views.2
      · exact hlive _ (completionStart_views _).2
    · split
      · exact fun _ => rfl
      · exact hlive _ (consumeCopy_views _).2
    · split
      · exact fun _ => rfl
      · exact hlive _ rfl
    · split
      · exact fun _ => rfl
      · exact hlive _ rfl
    · split
      · exact fun _ => rfl
      · exact hlive _ rfl

theorem step_quiet (h : s.Quiet) (event : Event) : (s.step event).Quiet := by
  constructor
  · rcases s.step_publisherView event with hview | ⟨message, rfl⟩
    · obtain ⟨hpublisher, hrest⟩ := Prod.mk.inj hview
      obtain ⟨hpc, -⟩ := Prod.mk.inj hrest
      rw [hpublisher, hpc]
      exact h.1
    · exact publisherStep_quiet h.1 message
  · rcases s.step_bridgeView event with hview | ⟨call, io, rfl⟩
    · obtain ⟨hbridge, hrest⟩ := Prod.mk.inj hview
      obtain ⟨hpc, -⟩ := Prod.mk.inj hrest
      rw [hbridge, hpc]
      exact h.2
    · exact bridgeStep_quiet h.2 call io

/-- A poisoned publisher does nothing. -/
theorem publisher_silent (h : s.Quiet) (hpoisoned : s.publisher.poisoned = true) (event : Event) :
    (s.step event).publisherView = s.publisherView := by
  rcases s.step_publisherView event with hview | ⟨message, rfl⟩
  · exact hview
  · show (s.publisherStep message).publisherView = s.publisherView
    unfold publisherStep
    rw [h.1 hpoisoned]
    dsimp only
    rw [if_pos hpoisoned]

/-- A poisoned bridge does nothing. -/
theorem bridge_silent (h : s.Quiet) (hpoisoned : s.bridge.poisoned = true) (event : Event) :
    (s.step event).bridgeView = s.bridgeView := by
  rcases s.step_bridgeView event with hview | ⟨call, io, rfl⟩
  · exact hview
  · show (s.bridgeStep call io).bridgeView = s.bridgeView
    unfold bridgeStep
    rw [h.2 hpoisoned]
    dsimp only
    rw [if_pos hpoisoned]

theorem run_publisher_silent (h : s.Quiet) (hpoisoned : s.publisher.poisoned = true)
    (events : List Event) : (run step s events).publisherView = s.publisherView := by
  induction events generalizing s with
  | nil => rfl
  | cons event events ih =>
    have hview := publisher_silent h hpoisoned event
    have hpoisoned' : (s.step event).publisher.poisoned = true := by
      rw [(Prod.mk.inj hview).1]
      exact hpoisoned
    rw [run_cons, ih (step_quiet h event) hpoisoned', hview]

theorem run_bridge_silent (h : s.Quiet) (hpoisoned : s.bridge.poisoned = true)
    (events : List Event) : (run step s events).bridgeView = s.bridgeView := by
  induction events generalizing s with
  | nil => rfl
  | cons event events ih =>
    have hview := bridge_silent h hpoisoned event
    have hpoisoned' : (s.step event).bridge.poisoned = true := by
      rw [(Prod.mk.inj hview).1]
      exact hpoisoned
    rw [run_cons, ih (step_quiet h event) hpoisoned', hview]

/-- A publisher that finds the counter changed is poisoned two steps later, and has not
    published. -/
theorem publisher_poisoned {previous : UInt64} {ticket : GpuRingTicket} {message : QueueMessage}
    (hpc : s.publisherPc = .filled previous ticket message)
    (hcounter : s.command.ring.published ≠ previous) (first second : QueueMessage) :
    ((s.publisherStep first).publisherStep second).publisher.poisoned = true ∧
      ((s.publisherStep first).publisherStep second).command.sent = s.command.sent := by
  have hrefused : ∃ error, s.command.ring.publish previous ticket = (.error error, s.command.ring) := by
    unfold SharedRing.publish
    split
    · exact ⟨_, rfl⟩
    · split_ifs
      · exact ⟨_, rfl⟩
      · exact ⟨_, rfl⟩
  obtain ⟨error, herror⟩ := hrefused
  have hfirst : s.publisherStep first = { s with publisherPc := .refused ticket } := by
    unfold publisherStep
    rw [hpc]
    dsimp only
    rw [herror]
  rw [hfirst]
  exact ⟨rfl, rfl⟩

/-! ## Runs -/

theorem run_inv (hN : 0 < N ∧ N ≤ maxGpuQueueSlots) (hs : s.Inv) (events : List Event)
    (hevents : ∀ event ∈ events, event.IsProtocol) : (run step s events).Inv := by
  induction events generalizing s with
  | nil => exact hs
  | cons event events ih =>
    obtain ⟨hevent, hrest⟩ := List.forall_mem_cons.mp hevents
    exact ih (step_inv hN hs hevent).1 hrest

/-- **Main theorem.** Over every interleaving of the steps of the four ends, both rings
    are FIFO and no step overwrites a message that has not been released. Whoever else
    writes the shared memory, a poisoned end transfers nothing, and a publisher that finds
    the counter changed is poisoned without having published. -/
theorem shared_queue_fifo {commandBase completionBase : UInt64}
    (h : new N commandBase completionBase = .ok s) :
    (∀ events, (∀ event ∈ events, event.IsProtocol) →
      (run step s events).command.Fifo N ∧ (run step s events).completion.Fifo N ∧
        ∀ event, event.IsProtocol →
          Intact N (run step s events).command (run step s (events ++ [event])).command ∧
          Intact N (run step s events).completion (run step s (events ++ [event])).completion) ∧
    (∀ events later, (run step s events).publisher.poisoned = true →
      (run step s (events ++ later)).command.sent = (run step s events).command.sent) ∧
    (∀ events later, (run step s events).bridge.poisoned = true →
      (run step s (events ++ later)).command.received = (run step s events).command.received ∧
      (run step s (events ++ later)).completion.sent = (run step s events).completion.sent) ∧
    (∀ events previous ticket message first second,
      (run step s events).publisherPc = .filled previous ticket message →
      (run step s events).command.ring.published ≠ previous →
      (run step s (events ++ [.publisher first, .publisher second])).publisher.poisoned = true ∧
      (run step s (events ++ [.publisher first, .publisher second])).command.sent =
        (run step s events).command.sent) := by
  obtain ⟨hN, hs⟩ := new_inv h
  have hquiet : ∀ events, (run step s events).Quiet := by
    have hstart : s.Quiet := by
      constructor
      · intro hpoisoned
        rw [hs.publisher.1] at hpoisoned
        cases hpoisoned
      · intro _
        obtain ⟨layout, -, h⟩ := bind_eq_ok.mp h
        obtain ⟨publisher, -, h⟩ := bind_eq_ok.mp h
        obtain ⟨bridge, -, h⟩ := bind_eq_ok.mp h
        obtain ⟨owned, -, h⟩ := bind_eq_ok.mp h
        obtain ⟨guest, -, h⟩ := bind_eq_ok.mp h
        cases h
        rfl
    exact run_invariant (P := Quiet) (fun _ event hs => step_quiet hs event) hstart
  refine ⟨?_, ?_, ?_, ?_⟩
  · intro events hevents
    have hinv := run_inv hN hs events hevents
    refine ⟨hinv.command.fifo, hinv.completion.fifo, ?_⟩
    intro event hevent
    rw [run_append]
    exact (step_inv hN hinv hevent).2
  · intro events later hpoisoned
    have hview := run_publisher_silent (hquiet events) hpoisoned later
    rw [run_append]
    exact (Prod.mk.inj (Prod.mk.inj hview).2).2
  · intro events later hpoisoned
    have hview := run_bridge_silent (hquiet events) hpoisoned later
    rw [run_append]
    exact Prod.mk.inj (Prod.mk.inj (Prod.mk.inj hview).2).2
  · intro events previous ticket message first second hpc hcounter
    rw [run_append]
    exact publisher_poisoned hpc hcounter first second

/-- A command of equal bytes. -/
def sampleCommand : QueueMessage := Vector.replicate gpuQueueMessageBytes 0x35

/-- The guest publishes a command while the bridge takes one. -/
def oneCommand : List Event :=
  [.publisher sampleCommand, .publisher sampleCommand, .bridge .consumeCommand .ok,
    .publisher sampleCommand, .bridge .consumeCommand .ok, .publisher sampleCommand,
    .bridge .consumeCommand .ok, .bridge .consumeCommand .ok]

theorem shared_queue_fifo_oneCommand :
    ∃ s : Queues 2, new 2 0x1000 0x3000 = .ok s ∧
      (run step s oneCommand).command.received = [sampleCommand] ∧
      (run step s oneCommand).command.received <+: (run step s oneCommand).command.sent := by
  obtain ⟨s, hs⟩ : ∃ s : Queues 2, new 2 0x1000 0x3000 = .ok s := ⟨_, rfl⟩
  have hevents : ∀ event ∈ oneCommand, event.IsProtocol := by
    simp [oneCommand, Event.IsProtocol]
  have hfifo := ((shared_queue_fifo hs).1 oneCommand hevents).1
  refine ⟨s, hs, ?_, hfifo.received⟩
  cases hs
  decide +kernel

end Queues

end Mrml.Gpu
