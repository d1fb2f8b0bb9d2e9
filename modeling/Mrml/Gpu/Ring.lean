import Mrml.Common.Int
import Mrml.Common.Run
import Mrml.Common.Spsc
import Mrml.Gpu.Frame

/-!
# Ring ownership and kernel-owned rings

Model of the two ends of a shared ring (`GpuRingProducer`, `GpuRingConsumer`,
`GpuSharedRingIndices`) and of the rings that the kernel owns (`GpuCommandRing`,
`GpuCompletionRing`); `crates/mrml-kernel/src/virtual_gpu.rs`, lines 308–444 and
494–897. An array of slots is a function of the slot number; the slots in use are those
below `N`.

Results:
* `GpuRingProducer.reserve_spec`, `GpuRingConsumer.acquire_spec`: what a ticket says.
* `OwnedRing.new_refines_queue`: an owned ring is a queue, and it erases what is dequeued.
-/

namespace Mrml.Gpu

/-- `MAX_GPU_QUEUE_SLOTS` (line 265). -/
def maxGpuQueueSlots : ℕ := 256

/-- `[u8; GPU_QUEUE_MESSAGE_BYTES]`. -/
abbrev QueueMessage := Vector UInt8 gpuQueueMessageBytes

/-- `[0; GPU_QUEUE_MESSAGE_BYTES]`. -/
def QueueMessage.zero : QueueMessage := Vector.replicate gpuQueueMessageBytes 0

/-- The array of a buffer of `GPU_QUEUE_MESSAGE_BYTES` bytes. -/
def QueueMessage.ofBytes (bytes : List UInt8) : QueueMessage :=
  Vector.ofFn fun i => byteAt bytes i

/-- `GpuRingTicket` (lines 382–385). -/
structure GpuRingTicket where
  position : UInt64
  slot : UInt16
deriving DecidableEq

/-- `ring_ticket` (lines 604–609). -/
def ringTicket (N : ℕ) (position : UInt64) : GpuRingTicket :=
  ⟨position, UInt16.ofNat ((position - 1).toNat % N)⟩

/-- The ticket of message `i`, counted from zero. -/
theorem ringTicket_spec {N : ℕ} (hN : 0 < N ∧ N ≤ maxGpuQueueSlots) {position : UInt64} {i : ℕ}
    (h : position.toNat = i + 1) :
    (ringTicket N position).position.toNat = i + 1 ∧ (ringTicket N position).slot.toNat = i % N := by
  have hone : (1 : UInt64) ≤ position := by
    rw [UInt64.le_iff_toNat_le, UInt64.toNat_one]
    omega
  have hsub : (position - 1).toNat = i := by
    rw [UInt64.toNat_sub_of_le _ _ hone, UInt64.toNat_one]
    omega
  have hmod := Nat.mod_lt i hN.1
  have hmax : maxGpuQueueSlots = 256 := rfl
  refine ⟨h, ?_⟩
  show (UInt16.ofNat ((position - 1).toNat % N)).toNat = i % N
  rw [hsub, UInt16.toNat_ofNat', Nat.mod_eq_of_lt (by omega)]

/-- `GpuRingProducer` (lines 400–403). -/
structure GpuRingProducer where
  published : UInt64
  reserved : Option GpuRingTicket
deriving DecidableEq

namespace GpuRingProducer

/-- `GpuRingProducer::new` (lines 406–414). -/
def new (N : ℕ) : Except GpuError GpuRingProducer :=
  if N = 0 ∨ N > maxGpuQueueSlots then .error .invalidQueueCapacity else .ok ⟨0, none⟩

/-- `GpuRingProducer::reserve` (lines 416–433). -/
def reserve (N : ℕ) (producer : GpuRingProducer) (consumed : UInt64) :
    Except GpuError GpuRingTicket × GpuRingProducer :=
  if producer.reserved.isSome then (.error .reservationPending, producer)
  else if consumed > producer.published then (.error .invalidQueueState, producer)
  else if N ≤ (producer.published - consumed).toNat then (.error .queueFull, producer)
  else
    match checkedAdd64 producer.published 1 with
    | none => (.error .sequenceExhausted, producer)
    | some position =>
      let ticket := ringTicket N position
      (.ok ticket, { producer with reserved := some ticket })

/-- `GpuRingProducer::commit` (lines 435–442). -/
def commit (producer : GpuRingProducer) (ticket : GpuRingTicket) :
    Except GpuError UInt64 × GpuRingProducer :=
  if producer.reserved ≠ some ticket ∨ ticket.position ≠ producer.published + 1 then
    (.error .invalidReservation, producer)
  else (.ok ticket.position, ⟨ticket.position, none⟩)

/-- A reservation is for the next message, and there is room for it. -/
theorem reserve_spec {N : ℕ} (hN : 0 < N ∧ N ≤ maxGpuQueueSlots) {producer : GpuRingProducer}
    {consumed : UInt64} {ticket : GpuRingTicket} {producer' : GpuRingProducer}
    (h : producer.reserve N consumed = (.ok ticket, producer')) :
    producer'.published = producer.published ∧ producer'.reserved = some ticket ∧
      ticket.position.toNat = producer.published.toNat + 1 ∧
      ticket.slot.toNat = producer.published.toNat % N ∧
      producer.published.toNat < consumed.toNat + N := by
  unfold reserve at h
  split_ifs at h with hpending hbehind hfull
  · cases h
  · cases h
  · cases h
  · split at h
    · cases h
    · next position hposition =>
      cases h
      obtain ⟨hpos, hslot⟩ := ringTicket_spec hN (checkedAdd64_eq_some.mp hposition)
      rw [gt_iff_lt, UInt64.not_lt] at hbehind
      have hle := UInt64.le_iff_toNat_le.mp hbehind
      rw [UInt64.toNat_sub_of_le _ _ hbehind] at hfull
      exact ⟨rfl, rfl, hpos, hslot, by omega⟩

/-- A failed reservation changes nothing. -/
theorem reserve_error {N : ℕ} {producer : GpuRingProducer} {consumed : UInt64} {error : GpuError}
    {producer' : GpuRingProducer}
    (h : producer.reserve N consumed = (.error error, producer')) : producer' = producer := by
  unfold reserve at h
  split_ifs at h
  · exact (Prod.mk.inj h).2.symm
  · exact (Prod.mk.inj h).2.symm
  · exact (Prod.mk.inj h).2.symm
  · split at h
    · exact (Prod.mk.inj h).2.symm
    · cases h

/-- The reserved ticket of the next message is committed. -/
theorem commit_of_reserved {producer : GpuRingProducer} {ticket : GpuRingTicket}
    (hreserved : producer.reserved = some ticket)
    (hposition : ticket.position.toNat = producer.published.toNat + 1) :
    producer.commit ticket = (.ok ticket.position, ⟨ticket.position, none⟩) := by
  have hlt := ticket.position.toNat_lt
  have hnext : ticket.position = producer.published + 1 := by
    rw [← UInt64.toNat_inj, UInt64.toNat_add, UInt64.toNat_one, Nat.mod_eq_of_lt (by omega)]
    exact hposition
  rw [commit, if_neg (by rw [not_or, not_not, not_not]; exact ⟨hreserved, hnext⟩)]

end GpuRingProducer

/-- `GpuRingConsumer` (lines 498–500). -/
structure GpuRingConsumer where
  consumed : UInt64
deriving DecidableEq

namespace GpuRingConsumer

/-- `GpuRingConsumer::new` (lines 574–579). -/
def new (N : ℕ) : Except GpuError GpuRingConsumer :=
  if N = 0 ∨ N > maxGpuQueueSlots then .error .invalidQueueCapacity else .ok ⟨0⟩

/-- `GpuRingConsumer::acquire` (lines 581–589). -/
def acquire (N : ℕ) (consumer : GpuRingConsumer) (published : UInt64) :
    Except GpuError GpuRingTicket :=
  if published < consumer.consumed ∨ N < (published - consumer.consumed).toNat then
    .error .invalidQueueState
  else if published = consumer.consumed then .error .queueEmpty
  else .ok (ringTicket N (consumer.consumed + 1))

/-- `GpuRingConsumer::release` (lines 591–597). -/
def release (N : ℕ) (consumer : GpuRingConsumer) (ticket : GpuRingTicket) :
    Except GpuError UInt64 × GpuRingConsumer :=
  if ticket ≠ ringTicket N (consumer.consumed + 1) then (.error .invalidReservation, consumer)
  else (.ok ticket.position, ⟨ticket.position⟩)

/-- An acquired ticket is for the next message, which has been published. -/
theorem acquire_spec {N : ℕ} (hN : 0 < N ∧ N ≤ maxGpuQueueSlots) {consumer : GpuRingConsumer}
    {published : UInt64} {ticket : GpuRingTicket}
    (h : consumer.acquire N published = .ok ticket) :
    ticket = ringTicket N (consumer.consumed + 1) ∧
      ticket.position.toNat = consumer.consumed.toNat + 1 ∧
      ticket.slot.toNat = consumer.consumed.toNat % N ∧
      consumer.consumed.toNat < published.toNat := by
  unfold acquire at h
  split_ifs at h with hstate hempty
  rw [not_or, UInt64.not_lt] at hstate
  have hle := UInt64.le_iff_toNat_le.mp hstate.1
  have hne : published.toNat ≠ consumer.consumed.toNat := fun heq => hempty (UInt64.toNat_inj.mp heq)
  have hlt := published.toNat_lt
  have hnext : (consumer.consumed + 1).toNat = consumer.consumed.toNat + 1 := by
    rw [UInt64.toNat_add, UInt64.toNat_one, Nat.mod_eq_of_lt (by omega)]
  obtain rfl := Except.ok.inj h
  obtain ⟨hposition, hslot⟩ := ringTicket_spec hN hnext
  exact ⟨rfl, hposition, hslot, by omega⟩

end GpuRingConsumer

/-- The shared memory of one ring: the counters of `GpuSharedRingIndices` (lines
    507–512) and the slots behind them. -/
structure SharedRing where
  published : UInt64
  consumed : UInt64
  slots : ℕ → QueueMessage

namespace SharedRing

/-- `GpuSharedRingIndices::new` (lines 515–522) over zeroed slots. -/
def new : SharedRing := ⟨0, 0, fun _ => QueueMessage.zero⟩

/-- `GpuSharedRingIndices::publish` (lines 534–547). -/
def publish (ring : SharedRing) (previous : UInt64) (ticket : GpuRingTicket) :
    Except GpuError Unit × SharedRing :=
  match checkedAdd64 previous 1 with
  | none => (.error .sequenceExhausted, ring)
  | some next =>
    if ticket.position ≠ next then (.error .invalidReservation, ring)
    else if ring.published = previous then (.ok (), { ring with published := ticket.position })
    else (.error .invalidQueueState, ring)

/-- `GpuSharedRingIndices::consume` (lines 551–564). -/
def consume (ring : SharedRing) (previous : UInt64) (ticket : GpuRingTicket) :
    Except GpuError Unit × SharedRing :=
  match checkedAdd64 previous 1 with
  | none => (.error .sequenceExhausted, ring)
  | some next =>
    if ticket.position ≠ next then (.error .invalidReservation, ring)
    else if ring.consumed = previous then (.ok (), { ring with consumed := ticket.position })
    else (.error .invalidQueueState, ring)

/-- `slots[slot].copy_from_slice(message)`. -/
def fill (ring : SharedRing) (slot : UInt16) (message : QueueMessage) : SharedRing :=
  { ring with slots := Function.update ring.slots slot.toNat message }

/-- The next position is published if the counter is where the producer left it. -/
theorem publish_of_next {ring : SharedRing} {previous : UInt64} {ticket : GpuRingTicket}
    (hposition : ticket.position.toNat = previous.toNat + 1) (hcounter : ring.published = previous) :
    ring.publish previous ticket = (.ok (), { ring with published := ticket.position }) := by
  have hnext : checkedAdd64 previous 1 = some ticket.position :=
    checkedAdd64_eq_some.mpr hposition
  rw [publish, hnext]
  dsimp only
  rw [if_neg (not_not.mpr rfl), if_pos hcounter]

theorem consume_eq_ok {ring ring' : SharedRing} {previous : UInt64} {ticket : GpuRingTicket}
    (h : ring.consume previous ticket = (.ok (), ring')) :
    ring.consumed = previous ∧ ring' = { ring with consumed := ticket.position } := by
  unfold consume at h
  split at h
  · cases h
  · split_ifs at h with hposition hcounter
    · cases h
    · exact ⟨hcounter, (Prod.mk.inj h).2.symm⟩
    · cases h

end SharedRing

/-! ## Kernel-owned rings -/

/-- `GpuCommandRing` (lines 768–773) and `GpuCompletionRing` (lines 778–783), which have
    the same fields and the same bounds. -/
structure OwnedRing (N : ℕ) where
  slots : ℕ → QueueMessage
  read : ℕ
  write : ℕ
  count : ℕ
  read_lt : read < N
  count_le : count ≤ N
  write_eq : write = (read + count) % N

namespace OwnedRing

variable {N : ℕ}

/-- The `new` of both rings (lines 786–796 and 848–858). -/
def new (N : ℕ) : Except GpuError (OwnedRing N) :=
  if h : N = 0 ∨ N > maxGpuQueueSlots then .error .invalidQueueCapacity
  else .ok ⟨fun _ => QueueMessage.zero, 0, 0, 0, by omega, Nat.zero_le _, (Nat.zero_mod _).symm⟩

/-- The copy into the next slot (lines 828–830 and 880–882). -/
def push (ring : OwnedRing N) (message : QueueMessage) (h : ring.count < N) : OwnedRing N where
  slots := Function.update ring.slots ring.write message
  read := ring.read
  write := (ring.write + 1) % N
  count := ring.count + 1
  read_lt := ring.read_lt
  count_le := h
  write_eq := by rw [ring.write_eq, Nat.mod_add_mod, Nat.add_assoc]

/-- `GpuCommandRing::enqueue` (lines 874–884). -/
def enqueue (ring : OwnedRing N) (message : List UInt8) : Except GpuError Unit × OwnedRing N :=
  if hlen : message.length = gpuQueueMessageBytes then
    if hfull : ring.count = N then (.error .queueFull, ring)
    else (.ok (), ring.push ⟨message.toArray, hlen⟩ (Nat.lt_of_le_of_ne ring.count_le hfull))
  else (.error .malformedCommand, ring)

/-- `GpuCompletionRing::ensure_capacity` (lines 810–816). -/
def ensureCapacity (ring : OwnedRing N) (count : ℕ) : Except GpuError Unit :=
  if count ≤ N - ring.count then .ok () else .error .queueFull

/-- The loop of `enqueue_batch` (lines 827–831). -/
def pushAll (ring : OwnedRing N) : (messages : List QueueMessage) →
    ring.count + messages.length ≤ N → OwnedRing N
  | [], _ => ring
  | message :: messages, h =>
    (ring.push message (by rw [List.length_cons] at h; omega)).pushAll messages
      (by rw [List.length_cons] at h; show ring.count + 1 + messages.length ≤ N; omega)

/-- `GpuCompletionRing::enqueue_batch` (lines 818–833). -/
def enqueueBatch (ring : OwnedRing N) (messages : List QueueMessage) (count : ℕ) :
    Except GpuError Unit × OwnedRing N :=
  if count > messages.length then (.error .invalidQueueState, ring)
  else if h : count ≤ N - ring.count then
    (.ok (), ring.pushAll (messages.take count) (by
      have := ring.count_le
      have := List.length_take_le count messages
      omega))
  else (.error .queueFull, ring)

/-- The `dequeue` of both rings (lines 835–844 and 887–896). -/
def dequeue (ring : OwnedRing N) : Except GpuError QueueMessage × OwnedRing N :=
  if h : ring.count = 0 then (.error .queueEmpty, ring)
  else
    (.ok (ring.slots ring.read), {
      slots := Function.update ring.slots ring.read QueueMessage.zero
      read := (ring.read + 1) % N
      write := ring.write
      count := ring.count - 1
      read_lt := Nat.mod_lt _ (Nat.lt_of_le_of_lt (Nat.zero_le _) ring.read_lt)
      count_le := (Nat.sub_le _ _).trans ring.count_le
      write_eq := by
        rw [ring.write_eq, Nat.mod_add_mod]
        congr 1
        omega })

/-- The queued messages, oldest first. -/
def contents (ring : OwnedRing N) : List QueueMessage :=
  (List.range ring.count).map fun i => ring.slots ((ring.read + i) % N)

@[simp] theorem length_contents (ring : OwnedRing N) : ring.contents.length = ring.count := by
  rw [contents, List.length_map, List.length_range]

theorem push_contents (ring : OwnedRing N) (message : QueueMessage) (h : ring.count < N) :
    (ring.push message h).contents = ring.contents ++ [message] := by
  have hlast : Function.update ring.slots ring.write message ((ring.read + ring.count) % N) =
      message := by
    rw [← ring.write_eq, Function.update_self]
  have hother : ∀ i ∈ List.range ring.count,
      Function.update ring.slots ring.write message ((ring.read + i) % N) =
        ring.slots ((ring.read + i) % N) := by
    intro i hi
    have hlt := List.mem_range.mp hi
    rw [ring.write_eq]
    exact Function.update_of_ne (Spsc.mod_ne_of_lt (by omega) (by omega)) _ _
  show (List.range (ring.count + 1)).map _ = _
  rw [List.range_succ, List.map_append, List.map_singleton, contents]
  exact congrArg₂ (· ++ ·) (List.map_congr_left hother) (congrArg (fun m => [m]) hlast)

theorem pushAll_contents (ring : OwnedRing N) (messages : List QueueMessage)
    (h : ring.count + messages.length ≤ N) :
    (ring.pushAll messages h).contents = ring.contents ++ messages := by
  induction messages generalizing ring with
  | nil => rw [pushAll, List.append_nil]
  | cons message messages ih =>
    rw [pushAll, ih, push_contents, List.append_assoc, List.singleton_append]

/-- An accepted batch is queued in order. -/
theorem enqueueBatch_spec {ring ring' : OwnedRing N} {messages : List QueueMessage} {count : ℕ}
    (h : ring.enqueueBatch messages count = (.ok (), ring')) :
    ring'.contents = ring.contents ++ messages.take count := by
  unfold enqueueBatch at h
  split_ifs at h
  · cases h
  · obtain rfl := (Prod.mk.inj h).2
    exact pushAll_contents _ _ _
  · cases h

/-- There is room for what `ensureCapacity` has made sure of. -/
theorem enqueueBatch_of_ensureCapacity {ring : OwnedRing N} (messages : List QueueMessage)
    {count : ℕ} (hcount : count ≤ messages.length) (h : ring.ensureCapacity count = .ok ()) :
    ∃ ring', ring.enqueueBatch messages count = (.ok (), ring') := by
  unfold ensureCapacity at h
  split_ifs at h with hroom
  rw [enqueueBatch, if_neg (by omega), dif_pos hroom]
  exact ⟨_, rfl⟩

/-- The oldest message is dequeued. -/
theorem dequeue_spec {ring ring' : OwnedRing N} {message : QueueMessage}
    (h : ring.dequeue = (.ok message, ring')) : ring.contents = message :: ring'.contents := by
  unfold dequeue at h
  split_ifs at h with hempty
  · cases h
  · cases h
    obtain ⟨count, hcount⟩ := Nat.exists_eq_succ_of_ne_zero hempty
    have hle := ring.count_le
    show (List.range ring.count).map (fun i => ring.slots ((ring.read + i) % N)) =
      ring.slots ring.read :: (List.range (ring.count - 1)).map fun i =>
        Function.update ring.slots ring.read QueueMessage.zero (((ring.read + 1) % N + i) % N)
    rw [hcount, Nat.succ_eq_add_one, Nat.add_sub_cancel, List.range_succ_eq_map, List.map_cons,
      List.map_map, Nat.add_zero, Nat.mod_eq_of_lt ring.read_lt]
    refine congrArg _ (List.map_congr_left fun i hi => ?_)
    have hlt : i < count := List.mem_range.mp hi
    have hindex : ((ring.read + 1) % N + i) % N = (ring.read + (i + 1)) % N := by
      rw [Nat.mod_add_mod, Nat.add_assoc, Nat.add_comm 1 i]
    have hne : (ring.read + (i + 1)) % N ≠ ring.read := by
      have hmod := Spsc.mod_ne_of_lt (N := N) (i := ring.read) (j := ring.read + (i + 1))
        (by omega) (by omega)
      rw [Nat.mod_eq_of_lt ring.read_lt] at hmod
      exact hmod.symm
    rw [hindex, Function.update_of_ne hne]
    rfl

/-! ### Sequences of operations -/

/-- The operations of the owned rings. -/
inductive Operation
  | enqueue (message : List UInt8)
  | enqueueBatch (messages : List QueueMessage) (count : ℕ)
  | dequeue

/-- What an operation of a ring returns, and the ring behind it. -/
def apply (ring : OwnedRing N) : Operation → Except GpuError (Option QueueMessage) × OwnedRing N
  | .enqueue message => ((ring.enqueue message).1.map fun _ => none, (ring.enqueue message).2)
  | .enqueueBatch messages count =>
    ((ring.enqueueBatch messages count).1.map fun _ => none, (ring.enqueueBatch messages count).2)
  | .dequeue => (ring.dequeue.1.map some, ring.dequeue.2)

/-- The same operation of a queue of at most `N` messages. -/
def applyQueue (N : ℕ) (queue : List QueueMessage) :
    Operation → Except GpuError (Option QueueMessage) × List QueueMessage
  | .enqueue message =>
    if h : message.length = gpuQueueMessageBytes then
      if queue.length < N then (.ok none, queue ++ [⟨message.toArray, h⟩])
      else (.error .queueFull, queue)
    else (.error .malformedCommand, queue)
  | .enqueueBatch messages count =>
    if count > messages.length then (.error .invalidQueueState, queue)
    else if queue.length + count ≤ N then (.ok none, queue ++ messages.take count)
    else (.error .queueFull, queue)
  | .dequeue =>
    match queue with
    | [] => (.error .queueEmpty, [])
    | message :: queue => (.ok (some message), queue)

/-- What the operations return, one after another. -/
def returns {σ ρ : Type*} (apply : σ → Operation → ρ × σ) : σ → List Operation → List ρ
  | _, [] => []
  | s, op :: ops => (apply s op).1 :: returns apply (apply s op).2 ops

/-- **Step lemma.** A ring does what the queue of its contents does. -/
theorem apply_refines (ring : OwnedRing N) (op : Operation) :
    ((ring.apply op).1, (ring.apply op).2.contents) = applyQueue N ring.contents op := by
  have hle := ring.count_le
  cases op with
  | enqueue message =>
    simp only [apply, applyQueue, enqueue, length_contents]
    split_ifs with hlength hfull hroom hroom
    · omega
    · rfl
    · simp only [push_contents]; rfl
    · omega
    · rfl
  | enqueueBatch messages count =>
    simp only [apply, applyQueue, enqueueBatch, length_contents]
    split_ifs with hcount hroom hroom' hroom'
    · rfl
    · simp only [pushAll_contents]; rfl
    · omega
    · omega
    · rfl
  | dequeue =>
    by_cases hempty : ring.count = 0
    · have hnil : ring.contents = [] := by
        rw [← List.length_eq_zero_iff, length_contents, hempty]
      simp only [apply, applyQueue, dequeue, hnil, dif_pos hempty]; rfl
    · have hsome : ring.dequeue = (.ok (ring.slots ring.read), ring.dequeue.2) := by
        rw [dequeue, dif_neg hempty]
      rw [apply, dequeue_spec hsome, hsome]
      rfl

/-- Every slot that is not in use is erased. -/
def Erased (ring : OwnedRing N) : Prop :=
  ∀ j < N, (∀ i < ring.count, j ≠ (ring.read + i) % N) → ring.slots j = QueueMessage.zero

theorem Erased.push {ring : OwnedRing N} (h : ring.Erased) (message : QueueMessage)
    (hroom : ring.count < N) : (ring.push message hroom).Erased := by
  intro j hj hfree
  have hwrite : j ≠ ring.write := by
    rw [ring.write_eq]
    exact hfree ring.count (Nat.lt_succ_self _)
  exact (Function.update_of_ne hwrite _ _).trans
    (h j hj fun i hi => hfree i (Nat.lt_succ_of_lt hi))

theorem Erased.pushAll {ring : OwnedRing N} (h : ring.Erased) (messages : List QueueMessage)
    (hroom : ring.count + messages.length ≤ N) : (ring.pushAll messages hroom).Erased := by
  induction messages generalizing ring with
  | nil => exact h
  | cons message messages ih => exact ih (h.push message _) _

theorem Erased.dequeue {ring : OwnedRing N} (h : ring.Erased) : ring.dequeue.2.Erased := by
  unfold OwnedRing.dequeue
  split_ifs with hempty
  · exact h
  · intro j hj hfree
    show Function.update ring.slots ring.read QueueMessage.zero j = QueueMessage.zero
    by_cases hread : j = ring.read
    · rw [hread, Function.update_self]
    · rw [Function.update_of_ne hread]
      refine h j hj fun i hi => ?_
      obtain _ | i := i
      · rwa [Nat.add_zero, Nat.mod_eq_of_lt ring.read_lt]
      · have hnext := hfree i (Nat.lt_sub_of_add_lt hi)
        rwa [Nat.mod_add_mod, Nat.add_assoc, Nat.add_comm 1 i] at hnext

theorem Erased.apply {ring : OwnedRing N} (h : ring.Erased) (op : Operation) :
    (ring.apply op).2.Erased := by
  cases op with
  | enqueue message =>
    show (ring.enqueue message).2.Erased
    unfold enqueue
    split_ifs
    · exact h
    · exact h.push _ _
    · exact h
  | enqueueBatch messages count =>
    show (ring.enqueueBatch messages count).2.Erased
    unfold enqueueBatch
    split_ifs
    · exact h
    · exact h.pushAll _ _
    · exact h
  | dequeue => exact h.dequeue

/-- **Main theorem.** For every sequence of operations a new ring returns what an empty queue of
at most `N` messages returns, and only the slots in use keep a message. -/
theorem new_refines_queue {ring : OwnedRing N} (h : new N = .ok ring) (ops : List Operation) :
    returns apply ring ops = returns (applyQueue N) [] ops ∧
      (run (fun ring op => (apply ring op).2) ring ops).Erased := by
  unfold new at h
  split_ifs at h
  obtain rfl := Except.ok.inj h
  refine ⟨?_, run_invariant (fun _ op hring => hring.apply op) (fun _ _ _ => rfl) ops⟩
  have hreturns (ops : List Operation) (ring : OwnedRing N) :
      returns apply ring ops = returns (applyQueue N) ring.contents ops := by
    induction ops generalizing ring with
    | nil => rfl
    | cons op ops ih => rw [returns, returns, ← apply_refines, ih]
  exact hreturns ops _

/-- A ring of two slots. -/
theorem new_refines_queue_two : ∃ ring : OwnedRing 2, new 2 = .ok ring ∧
    ∀ ops, returns apply ring ops = returns (applyQueue 2) [] ops ∧
      (run (fun ring op => (apply ring op).2) ring ops).Erased :=
  ⟨_, rfl, fun ops => new_refines_queue rfl ops⟩

end OwnedRing

end Mrml.Gpu
