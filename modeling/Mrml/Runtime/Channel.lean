import Mrml.Common.Run

/-!
# Channels between threads

Model of `crates/mrml-runtime/src/channel.rs`: a bounded queue with any number of senders and
receivers, each mutex section and each atomic access one step.

A call of `send` or `recv` and the drop of a handle go through several steps; `Call` says before
which one a call stands, and any call may take the next step. The handles that are alive and the
values that were enqueued and dequeued so far are kept beside the channel, for the statements.

Results:
* `inv_step`: order, capacity and the number of senders are kept by every step.
* `exists_look`: a receiver loads the sender count after a look at an empty queue.
* `channel_promised_iff`: values are received in order and each at most once, within the capacity,
  and `recv` reports a disconnected channel only when no sender is left and every value was
  received, exactly if no look at the empty queue is overtaken by a value and the last drop.
-/

namespace Mrml.Runtime

/-! ## The channel -/

/-- `Channel<T>` (lines 5–12). The counts are `usize` in the source, which no number of handles
in memory exceeds. -/
structure Channel (α : Type) where
  queue : List α
  capacity : ℕ
  senders : ℕ
  receivers : ℕ
  epoch : UInt32
  spinLimit : ℕ
  deriving DecidableEq

/-- What a call returns: `Ok` of `send` with the value that was enqueued, `SendError`, `Ok` of
`recv`, `RecvError`, and the end of a drop. -/
inductive Outcome (α : Type)
  | sent (value : α)
  | sendError (value : α)
  | received (value : α)
  | recvError
  | dropped
  deriving DecidableEq

/-- The step before which a call stands; `spins` is the local variable of `recv`. -/
inductive Call (α : Type)
  /-- The load of `receivers` (line 64). -/
  | sendReceivers (value : α)
  /-- The mutex section of `send` (lines 67–76). -/
  | sendQueue (value : α)
  /-- The mutex section of `recv` (lines 102–110). -/
  | recvQueue (spins : ℕ)
  /-- The load of `senders` (line 111), after the queue was found empty. -/
  | recvSenders (spins : ℕ)
  /-- The load of `epoch` (line 118). -/
  | recvEpoch (spins : ℕ)
  /-- The second look at the queue (line 119). -/
  | recvQueueAgain (spins : ℕ) (observed : UInt32)
  /-- The second load of `senders` (line 120). -/
  | recvSendersAgain (spins : ℕ) (observed : UInt32)
  /-- Inside `wait` (line 122), which a changed epoch, a wake-up or nothing at all may end. -/
  | recvWait (spins : ℕ) (observed : UInt32)
  /-- The new epoch of a drop (lines 93 and 141). -/
  | dropEpoch
  deriving DecidableEq

/-- A call goes on to another step, or returns. -/
inductive Progress (α : Type)
  | continues (call : Call α)
  | returns (outcome : Outcome α)
  deriving DecidableEq

section

variable {α : Type}

/-- The next step of a call: of `Sender::send` (lines 62–79), `Receiver::recv` (lines 99–127) or
of a drop. -/
def Call.advance (channel : Channel α) : Call α → Channel α × Progress α
  | .sendReceivers value =>
    if channel.receivers = 0 then (channel, .returns (.sendError value))
    else (channel, .continues (.sendQueue value))
  | .sendQueue value =>
    if channel.queue.length < channel.capacity then
      ({ channel with queue := channel.queue ++ [value], epoch := channel.epoch + 1 },
        .returns (.sent value))
    else (channel, .continues (.sendReceivers value))
  | .recvQueue spins =>
    match channel.queue with
    | value :: queue =>
      ({ channel with queue := queue, epoch := channel.epoch + 1 }, .returns (.received value))
    | [] => (channel, .continues (.recvSenders spins))
  | .recvSenders spins =>
    if channel.senders = 0 then (channel, .returns .recvError)
    else if spins < channel.spinLimit then (channel, .continues (.recvQueue (spins + 1)))
    else (channel, .continues (.recvEpoch spins))
  | .recvEpoch spins => (channel, .continues (.recvQueueAgain spins channel.epoch))
  | .recvQueueAgain spins observed =>
    if channel.queue.isEmpty then (channel, .continues (.recvSendersAgain spins observed))
    else (channel, .continues (.recvQueue spins))
  | .recvSendersAgain spins observed =>
    if channel.senders ≠ 0 then (channel, .continues (.recvWait spins observed))
    else (channel, .continues (.recvQueue spins))
  | .recvWait spins _ => (channel, .continues (.recvQueue spins))
  | .dropEpoch => ({ channel with epoch := channel.epoch + 1 }, .returns .dropped)

/-- A `Sender` or a `Receiver`. -/
inductive Handle
  | sender (id : ℕ)
  | receiver (id : ℕ)
  deriving DecidableEq

/-- A call in progress: the thread that makes it, and the handle that it borrows or drops. -/
structure Entry (α : Type) where
  caller : ℕ
  handle : Handle
  call : Call α
  deriving DecidableEq

/-- The channel with its live handles and the calls in progress; `sent` and `received` are the
values that were enqueued and dequeued so far. -/
structure State (α : Type) where
  channel : Channel α
  senders : Finset ℕ
  receivers : Finset ℕ
  calls : List (Entry α)
  sent : List α
  received : List α

namespace State

/-- `channel_with_spin_limit` (lines 41–59): `sync_channel` has the limit `usize::MAX`, and
`blocking_channel` has zero. The assertion that the capacity is positive is not needed here. -/
def init (capacity spinLimit : ℕ) : State α where
  channel := ⟨[], capacity, 1, 1, 0, spinLimit⟩
  senders := {0}
  receivers := {0}
  calls := []
  sent := []
  received := []

/-- The call that a thread is in. -/
def callOf (s : State α) (caller : ℕ) : Option (Entry α) :=
  s.calls.find? fun entry => entry.caller = caller

/-- A thread that is in no call. -/
def Idle (s : State α) (caller : ℕ) : Prop := ∀ entry ∈ s.calls, entry.caller ≠ caller

/-- A handle that a call borrows is not dropped. -/
def Borrowed (s : State α) (handle : Handle) : Prop := ∃ entry ∈ s.calls, entry.handle = handle

instance (s : State α) (caller : ℕ) : Decidable (s.Idle caller) :=
  inferInstanceAs (Decidable (∀ entry ∈ s.calls, entry.caller ≠ caller))

instance (s : State α) (handle : Handle) : Decidable (s.Borrowed handle) :=
  inferInstanceAs (Decidable (∃ entry ∈ s.calls, entry.handle = handle))

/-- The calls after one of them has taken a step. -/
def callsAfter (s : State α) (entry : Entry α) (progress : Progress α) : List (Entry α) :=
  let others := s.calls.filter fun other => other.caller ≠ entry.caller
  match progress with
  | .continues call => { entry with call := call } :: others
  | .returns _ => others

end State

/-- What the threads may do: begin a call, go on with one, clone a handle or drop it. -/
inductive Op (α : Type)
  | send (caller sender : ℕ) (value : α)
  | recv (caller receiver : ℕ)
  | advance (caller : ℕ)
  | cloneSender (sender fresh : ℕ)
  | cloneReceiver (receiver fresh : ℕ)
  | dropSender (caller sender : ℕ)
  | dropReceiver (caller receiver : ℕ)
  deriving DecidableEq

/-- The values that a return has enqueued. -/
def Progress.enqueued : Progress α → List α
  | .returns (.sent value) => [value]
  | _ => []

/-- The values that a return has dequeued. -/
def Progress.dequeued : Progress α → List α
  | .returns (.received value) => [value]
  | _ => []

/-- One step; an operation that is not possible changes nothing. -/
def step (s : State α) : Op α → State α
  | .send caller sender value =>
    if s.Idle caller ∧ sender ∈ s.senders then
      { s with calls := ⟨caller, .sender sender, .sendReceivers value⟩ :: s.calls }
    else s
  | .recv caller receiver =>
    if s.Idle caller ∧ receiver ∈ s.receivers then
      { s with calls := ⟨caller, .receiver receiver, .recvQueue 0⟩ :: s.calls }
    else s
  | .advance caller =>
    match s.callOf caller with
    | none => s
    | some entry =>
      let next := entry.call.advance s.channel
      { s with
        channel := next.1
        calls := s.callsAfter entry next.2
        sent := s.sent ++ next.2.enqueued
        received := s.received ++ next.2.dequeued }
  -- `Sender::clone` (lines 82–87)
  | .cloneSender sender fresh =>
    if sender ∈ s.senders ∧ fresh ∉ s.senders then
      { s with
        channel := { s.channel with senders := s.channel.senders + 1 }
        senders := insert fresh s.senders }
    else s
  -- `Receiver::clone` (lines 130–135)
  | .cloneReceiver receiver fresh =>
    if receiver ∈ s.receivers ∧ fresh ∉ s.receivers then
      { s with
        channel := { s.channel with receivers := s.channel.receivers + 1 }
        receivers := insert fresh s.receivers }
    else s
  -- the first step of `Sender::drop` (lines 91–95)
  | .dropSender caller sender =>
    if s.Idle caller ∧ sender ∈ s.senders ∧ ¬s.Borrowed (.sender sender) then
      { s with
        channel := { s.channel with senders := s.channel.senders - 1 }
        senders := s.senders.erase sender
        calls := ⟨caller, .sender sender, .dropEpoch⟩ :: s.calls }
    else s
  -- the first step of `Receiver::drop` (lines 139–143)
  | .dropReceiver caller receiver =>
    if s.Idle caller ∧ receiver ∈ s.receivers ∧ ¬s.Borrowed (.receiver receiver) then
      { s with
        channel := { s.channel with receivers := s.channel.receivers - 1 }
        receivers := s.receivers.erase receiver
        calls := ⟨caller, .receiver receiver, .dropEpoch⟩ :: s.calls }
    else s

/-- What the call returns that takes a step, if it does. -/
def outcome (s : State α) : Op α → Option (Outcome α)
  | .advance caller =>
    match s.callOf caller with
    | none => none
    | some entry =>
      match (entry.call.advance s.channel).2 with
      | .continues _ => none
      | .returns outcome => some outcome
  | _ => none

/-! ## Invariants -/

/-- A call changes neither the capacity nor the number of senders. -/
theorem advance_frame (channel : Channel α) (call : Call α) :
    (call.advance channel).1.capacity = channel.capacity ∧
      (call.advance channel).1.senders = channel.senders := by
  cases call with
  | recvQueue spins =>
    rw [Call.advance]
    split <;> exact ⟨rfl, rfl⟩
  | recvEpoch | recvWait | dropEpoch => exact ⟨rfl, rfl⟩
  | sendReceivers | sendQueue | recvSenders | recvQueueAgain | recvSendersAgain =>
    rw [Call.advance]
    split_ifs <;> exact ⟨rfl, rfl⟩

/-- A step puts what it enqueues behind the queue and takes what it dequeues from its front. -/
theorem advance_queue (channel : Channel α) (call : Call α) :
    channel.queue ++ (call.advance channel).2.enqueued =
      (call.advance channel).2.dequeued ++ (call.advance channel).1.queue := by
  have hstill : channel.queue ++ [] = [] ++ channel.queue := List.append_nil _
  cases call with
  | sendQueue value =>
    rw [Call.advance]
    split_ifs
    · rfl
    · exact hstill
  | recvQueue spins =>
    rw [Call.advance]
    split
    · next value queue hqueue => rw [hqueue]; exact List.append_nil _
    · exact hstill
  | recvEpoch | recvWait | dropEpoch => exact hstill
  | sendReceivers | recvSenders | recvQueueAgain | recvSendersAgain =>
    rw [Call.advance]
    split_ifs <;> exact hstill

/-- Only the mutex section of `send` makes the queue longer, and it looks at the capacity. -/
theorem advance_length {channel : Channel α} (call : Call α)
    (h : channel.queue.length ≤ channel.capacity) :
    (call.advance channel).1.queue.length ≤ channel.capacity := by
  cases call with
  | sendQueue value =>
    rw [Call.advance]
    split_ifs with hroom
    · rw [List.length_append, List.length_singleton]
      omega
    · exact h
  | recvQueue spins =>
    rw [Call.advance]
    split
    · next value queue hqueue =>
      rw [hqueue, List.length_cons] at h
      exact Nat.le_of_succ_le h
    · exact h
  | recvEpoch | recvWait | dropEpoch => exact h
  | sendReceivers | recvSenders | recvQueueAgain | recvSendersAgain =>
    rw [Call.advance]
    split_ifs <;> exact h

/-- `recv` returns `RecvError` at the first load of `senders`, which is zero. -/
theorem advance_recvError {channel : Channel α} {call : Call α} :
    (call.advance channel).2 = .returns .recvError ↔
      (∃ spins, call = .recvSenders spins) ∧ channel.senders = 0 := by
  constructor
  · intro h
    cases call with
    | recvSenders spins =>
      rw [Call.advance] at h
      split_ifs at h with hsenders
      exact ⟨⟨spins, rfl⟩, hsenders⟩
    | recvQueue spins =>
      rw [Call.advance] at h
      split at h <;> cases h
    | recvEpoch | recvWait | dropEpoch => cases h
    | sendReceivers | sendQueue | recvQueueAgain | recvSendersAgain =>
      rw [Call.advance] at h
      split_ifs at h <;> cases h
  · rintro ⟨⟨spins, rfl⟩, hsenders⟩
    rw [Call.advance, if_pos hsenders]

/-- What every state of a run keeps. -/
structure Inv (s : State α) : Prop where
  fifo : s.sent = s.received ++ s.channel.queue
  bounded : s.channel.queue.length ≤ s.channel.capacity
  counted : s.channel.senders = s.senders.card

theorem inv_init (capacity spinLimit : ℕ) : Inv (State.init capacity spinLimit : State α) where
  fifo := rfl
  bounded := Nat.zero_le _
  counted := rfl

/-- **Step lemma.** -/
theorem inv_step {s : State α} (h : Inv s) (op : Op α) : Inv (step s op) := by
  cases op with
  | send | recv | cloneReceiver | dropReceiver =>
    rw [step]
    split_ifs
    · exact ⟨h.fifo, h.bounded, h.counted⟩
    · exact h
  | advance caller =>
    rw [step]
    split
    · exact h
    · next entry _ =>
      constructor
      · show s.sent ++ _ = (s.received ++ _) ++ _
        rw [h.fifo, List.append_assoc, advance_queue, List.append_assoc]
      · show (entry.call.advance s.channel).1.queue.length ≤ _
        rw [(advance_frame s.channel entry.call).1]
        exact advance_length entry.call h.bounded
      · exact (advance_frame s.channel entry.call).2.trans h.counted
  | cloneSender sender fresh =>
    rw [step]
    split_ifs with hclone
    · refine ⟨h.fifo, h.bounded, ?_⟩
      show s.channel.senders + 1 = (insert fresh s.senders).card
      rw [Finset.card_insert_of_notMem hclone.2, h.counted]
    · exact h
  | dropSender caller sender =>
    rw [step]
    split_ifs with hdrop
    · refine ⟨h.fifo, h.bounded, ?_⟩
      show s.channel.senders - 1 = (s.senders.erase sender).card
      rw [Finset.card_erase_of_mem hdrop.2.1, h.counted]
    · exact h

/-! ## Schedules -/

/-- What a step enqueues. -/
def enqueuedBy (s : State α) : Op α → List α
  | .advance caller =>
    match s.callOf caller with
    | none => []
    | some entry => (entry.call.advance s.channel).2.enqueued
  | _ => []

/-- What a step dequeues. -/
def dequeuedBy (s : State α) : Op α → List α
  | .advance caller =>
    match s.callOf caller with
    | none => []
    | some entry => (entry.call.advance s.channel).2.dequeued
  | _ => []

/-- What a part of a schedule enqueues, from a state. -/
def pushed : State α → List (Op α) → List α
  | _, [] => []
  | s, op :: ops => enqueuedBy s op ++ pushed (step s op) ops

/-- What a part of a schedule dequeues, from a state. -/
def popped : State α → List (Op α) → List α
  | _, [] => []
  | s, op :: ops => dequeuedBy s op ++ popped (step s op) ops

theorem step_values (s : State α) (op : Op α) :
    (step s op).sent = s.sent ++ enqueuedBy s op ∧
      (step s op).received = s.received ++ dequeuedBy s op := by
  cases op with
  | advance caller =>
    rw [step, enqueuedBy, dequeuedBy]
    cases s.callOf caller with
    | none => exact ⟨(List.append_nil _).symm, (List.append_nil _).symm⟩
    | some entry => exact ⟨rfl, rfl⟩
  | _ =>
    have hnothing : ∀ values : List α, values = values ++ [] := fun _ => (List.append_nil _).symm
    rw [step]
    split_ifs <;> exact ⟨hnothing _, hnothing _⟩

theorem run_values (s : State α) (ops : List (Op α)) :
    (run step s ops).sent = s.sent ++ pushed s ops ∧
      (run step s ops).received = s.received ++ popped s ops := by
  induction ops generalizing s with
  | nil => exact ⟨(List.append_nil _).symm, (List.append_nil _).symm⟩
  | cons op ops ih =>
    obtain ⟨hsent, hreceived⟩ := step_values s op
    obtain ⟨ihsent, ihreceived⟩ := ih (step s op)
    rw [run_cons, ihsent, ihreceived, hsent, hreceived, List.append_assoc, List.append_assoc,
      pushed, popped]
    exact ⟨rfl, rfl⟩

/-- From an empty queue, the queue holds a value afterwards exactly if more was enqueued than
dequeued. -/
theorem queue_ne_nil_iff {s : State α} (h : Inv s) (hempty : s.channel.queue = [])
    (ops : List (Op α)) :
    (run step s ops).channel.queue ≠ [] ↔ (popped s ops).length < (pushed s ops).length := by
  have hfifo := (run_invariant (P := Inv) (fun _ op h => inv_step h op) h ops).fifo
  obtain ⟨hsent, hreceived⟩ := run_values s ops
  have hbefore := h.fifo
  rw [hempty, List.append_nil] at hbefore
  rw [hsent, hreceived, hbefore, List.append_assoc, List.append_cancel_left_eq] at hfifo
  rw [hfifo, List.length_append, ← List.length_pos_iff]
  omega

theorem idle_iff {s : State α} {caller : ℕ} : s.Idle caller ↔ s.callOf caller = none := by
  simp [State.Idle, State.callOf]

theorem callOf_caller {s : State α} {caller : ℕ} {entry : Entry α}
    (h : s.callOf caller = some entry) : entry.caller = caller := by
  simpa using List.find?_some h

/-- A call that begins. -/
theorem callOf_begin {calls : List (Entry α)} {thread caller : ℕ} {handle : Handle}
    {call : Call α} (hidle : calls.find? (fun entry => entry.caller = caller) = none)
    (hcall : ∀ spins, call ≠ .recvSenders spins) :
    let after := (⟨caller, handle, call⟩ :: calls).find? fun entry => entry.caller = thread
    after = calls.find? (fun entry => entry.caller = thread) ∨
      calls.find? (fun entry => entry.caller = thread) = none ∧
        ∃ entry, after = some entry ∧ ∀ spins, entry.call ≠ .recvSenders spins := by
  intro after
  by_cases hthread : caller = thread
  · subst hthread
    exact .inr ⟨hidle, ⟨caller, handle, call⟩, List.find?_cons_of_pos (by simp), hcall⟩
  · exact .inl (List.find?_cons_of_neg (by simpa using hthread))

/-- A step of another thread leaves the call of a thread as it is. -/
theorem callOf_callsAfter {s : State α} {thread : ℕ} {entry : Entry α} (progress : Progress α)
    (h : entry.caller ≠ thread) :
    (s.callsAfter entry progress).find? (fun other => other.caller = thread) =
      s.callOf thread := by
  have hothers : (s.calls.filter fun other => other.caller ≠ entry.caller).find?
      (fun other => other.caller = thread) = s.callOf thread := by
    rw [List.find?_filter, State.callOf]
    congr 1
    funext other
    by_cases hother : other.caller = thread
    · simp [hother, h.symm]
    · simp [hother]
  cases progress with
  | continues call =>
    rw [State.callsAfter, List.find?_cons_of_neg (by simpa using h)]
    exact hothers
  | returns result => exact hothers

/-- Where the step is not its own, a thread stays in its call; an idle thread may begin one. -/
theorem callOf_step (s : State α) {op : Op α} {thread : ℕ} (h : op ≠ .advance thread) :
    (step s op).callOf thread = s.callOf thread ∨
      s.callOf thread = none ∧ ∃ entry, (step s op).callOf thread = some entry ∧
        ∀ spins, entry.call ≠ .recvSenders spins := by
  cases op with
  | send caller sender value =>
    rw [step]
    split_ifs with hbegin
    · exact callOf_begin (idle_iff.mp hbegin.1) fun _ hcall => by cases hcall
    · exact .inl rfl
  | recv caller receiver =>
    rw [step]
    split_ifs with hbegin
    · exact callOf_begin (idle_iff.mp hbegin.1) fun _ hcall => by cases hcall
    · exact .inl rfl
  | dropSender caller sender =>
    rw [step]
    split_ifs with hbegin
    · exact callOf_begin (idle_iff.mp hbegin.1) fun _ hcall => by cases hcall
    · exact .inl rfl
  | dropReceiver caller receiver =>
    rw [step]
    split_ifs with hbegin
    · exact callOf_begin (idle_iff.mp hbegin.1) fun _ hcall => by cases hcall
    · exact .inl rfl
  | cloneSender | cloneReceiver =>
    rw [step]
    split_ifs <;> exact .inl rfl
  | advance caller =>
    rw [step]
    cases hentry : s.callOf caller with
    | none => exact .inl rfl
    | some entry =>
      refine .inl (callOf_callsAfter _ ?_)
      rw [callOf_caller hentry]
      rintro rfl
      exact h rfl

/-- A thread stays in its call as long as it takes no step. -/
theorem callOf_run {s : State α} {thread : ℕ} {entry : Entry α}
    (hentry : s.callOf thread = some entry) {ops : List (Op α)} (h : .advance thread ∉ ops) :
    (run step s ops).callOf thread = some entry := by
  induction ops generalizing s with
  | nil => exact hentry
  | cons op ops ih =>
    rw [List.mem_cons, not_or] at h
    refine ih ?_ h.2
    rcases callOf_step s (Ne.symm h.1) with hsame | ⟨hnone, -⟩
    · rw [hsame, hentry]
    · rw [hentry] at hnone
      cases hnone

/-- The thread stands before its look at the queue, which is empty. -/
def LooksEmpty (s : State α) (thread : ℕ) : Prop :=
  (∃ entry spins, s.callOf thread = some entry ∧ entry.call = .recvQueue spins) ∧
    s.channel.queue = []

theorem callOf_continues {s : State α} {thread : ℕ} {entry : Entry α} {call : Call α}
    (hentry : s.callOf thread = some entry)
    (hnext : (entry.call.advance s.channel).2 = .continues call) :
    (step s (.advance thread)).callOf thread = some { entry with call := call } := by
  rw [step, hentry]
  dsimp only
  rw [hnext]
  exact List.find?_cons_of_pos (by simpa using callOf_caller hentry)

theorem callOf_returns {s : State α} {thread : ℕ} {entry : Entry α} {result : Outcome α}
    (hentry : s.callOf thread = some entry)
    (hnext : (entry.call.advance s.channel).2 = .returns result) :
    (step s (.advance thread)).callOf thread = none := by
  rw [step, hentry]
  dsimp only
  rw [hnext]
  refine List.find?_eq_none.mpr fun other hother => ?_
  have hcaller := (List.mem_filter.mp hother).2
  rw [callOf_caller hentry] at hcaller
  simpa using hcaller

/-- The look at the empty queue leaves the channel as it is and the thread before the load of
`senders`. -/
theorem LooksEmpty.advance {s : State α} {thread : ℕ} (h : LooksEmpty s thread) :
    (step s (.advance thread)).channel = s.channel ∧ ∃ entry spins,
      (step s (.advance thread)).callOf thread = some entry ∧ entry.call = .recvSenders spins := by
  obtain ⟨⟨entry, spins, hentry, hcall⟩, hempty⟩ := h
  have hnext : entry.call.advance s.channel = (s.channel, .continues (.recvSenders spins)) := by
    rw [hcall, Call.advance, hempty]
  constructor
  · rw [step, hentry]
    exact congrArg Prod.fst hnext
  · exact ⟨_, spins, callOf_continues hentry (congrArg Prod.snd hnext), rfl⟩

/-- A thread comes before the load of `senders` by a look at the empty queue. -/
theorem advance_recvSenders {channel : Channel α} {call : Call α} {spins : ℕ}
    (h : (call.advance channel).2 = .continues (.recvSenders spins)) :
    call = .recvQueue spins ∧ channel.queue = [] := by
  cases call with
  | recvQueue spins' =>
    rw [Call.advance] at h
    split at h
    · cases h
    · next hempty =>
      cases h
      exact ⟨rfl, hempty⟩
  | recvEpoch | recvWait | dropEpoch => cases h
  | sendReceivers | sendQueue | recvSenders | recvQueueAgain | recvSendersAgain =>
    rw [Call.advance] at h
    split_ifs at h <;> cases h

/-- **History lemma.** In a run from a state without calls, a thread before the load of `senders`
took its last step when it looked at an empty queue. -/
theorem exists_look {s : State α} (hstart : s.calls = []) {thread : ℕ} {entry : Entry α}
    {spins : ℕ} (hcall : entry.call = .recvSenders spins) (ops : List (Op α))
    (hentry : (run step s ops).callOf thread = some entry) :
    ∃ pre mid, ops = pre ++ .advance thread :: mid ∧ LooksEmpty (run step s pre) thread ∧
      .advance thread ∉ mid := by
  induction ops using List.reverseRecOn generalizing entry spins with
  | nil =>
    rw [run_nil, State.callOf, hstart] at hentry
    cases hentry
  | append_singleton ops op ih =>
    rw [run_append, run_cons, run_nil] at hentry
    by_cases hop : op = .advance thread
    · subst hop
      refine ⟨ops, [], rfl, ?_, List.not_mem_nil⟩
      cases hbefore : (run step s ops).callOf thread with
      | none =>
        rw [step, hbefore] at hentry
        cases hbefore.symm.trans hentry
      | some before =>
        cases hnext : (before.call.advance (run step s ops).channel).2 with
        | continues call =>
          rw [callOf_continues hbefore hnext, Option.some_inj] at hentry
          subst hentry
          dsimp only at hcall
          subst hcall
          obtain ⟨hlook, hempty⟩ := advance_recvSenders hnext
          exact ⟨⟨before, spins, hbefore, hlook⟩, hempty⟩
        | returns result =>
          rw [callOf_returns hbefore hnext] at hentry
          cases hentry
    · rcases callOf_step (run step s ops) hop with hsame | ⟨-, begun, hbegun, hnot⟩
      · obtain ⟨pre, mid, rfl, hlook, hmid⟩ := ih hcall (hsame ▸ hentry)
        refine ⟨pre, mid ++ [op], by rw [List.append_assoc, List.cons_append], hlook, ?_⟩
        rw [List.mem_append, List.mem_singleton, not_or]
        exact ⟨hmid, fun heq => hop heq.symm⟩
      · rw [hbegun, Option.some_inj] at hentry
        subst hentry
        exact absurd hcall (hnot spins)

/-! ## Disconnected channels -/

/-- Values come out in the order in which they went in and each at most once, and the queue keeps
to its capacity. -/
def Ordered (capacity : ℕ) (s : State α) : Prop :=
  s.received <+: s.sent ∧ s.channel.queue.length ≤ capacity

/-- `RecvError` says that no sender is left and every value was received. -/
def Promised (s : State α) (op : Op α) : Prop :=
  outcome s op = some .recvError → s.senders = ∅ ∧ s.received = s.sent

/-- A schedule in which a receiver looks at the empty queue, more is enqueued than dequeued before
its next step, and no sender is left at that step. -/
def OvertakesLook (s : State α) (ops : List (Op α)) : Prop :=
  ∃ pre thread mid post, ops = pre ++ .advance thread :: (mid ++ .advance thread :: post) ∧
    LooksEmpty (run step s pre) thread ∧ .advance thread ∉ mid ∧
    let looked := step (run step s pre) (.advance thread)
    (popped looked mid).length < (pushed looked mid).length ∧ (run step looked mid).senders = ∅

theorem outcome_recvError {s : State α} {op : Op α} :
    outcome s op = some .recvError ↔ ∃ caller entry spins, op = .advance caller ∧
      s.callOf caller = some entry ∧ entry.call = .recvSenders spins ∧ s.channel.senders = 0 := by
  constructor
  · intro h
    cases op with
    | advance caller =>
      rw [outcome] at h
      split at h
      · cases h
      · next entry hentry =>
        split at h
        · cases h
        · next result hresult =>
          obtain rfl := Option.some.inj h
          obtain ⟨⟨spins, hcall⟩, hsenders⟩ := advance_recvError.mp hresult
          exact ⟨caller, entry, spins, rfl, hentry, hcall, hsenders⟩
    | _ => cases h
  · rintro ⟨caller, entry, spins, rfl, hentry, hcall, hsenders⟩
    have hresult := advance_recvError.mpr ⟨⟨spins, hcall⟩, hsenders⟩
    simp only [outcome, hentry, hresult]

/-- Where the invariant holds, a promise is broken exactly by a `RecvError` with a value in the
queue. -/
theorem not_promised_iff {s : State α} (h : Inv s) (op : Op α) :
    ¬Promised s op ↔ outcome s op = some .recvError ∧ s.channel.queue ≠ [] := by
  unfold Promised
  rw [Classical.not_imp]
  refine and_congr_right fun hrecv => not_congr ?_
  obtain ⟨-, -, -, -, -, -, hsenders⟩ := outcome_recvError.mp hrecv
  have hempty : s.senders = ∅ := by rw [← Finset.card_eq_zero, ← h.counted, hsenders]
  rw [and_iff_right hempty, h.fifo, List.self_eq_append_right]

theorem inv_run (capacity spinLimit : ℕ) (ops : List (Op α)) :
    Inv (run step (State.init capacity spinLimit) ops) :=
  run_invariant (P := Inv) (fun _ op h => inv_step h op) (inv_init capacity spinLimit) ops

/-- The broken promises of a run are its overtaken looks. -/
theorem promised_run_iff (capacity spinLimit : ℕ) (ops : List (Op α)) :
    Along step Promised (State.init capacity spinLimit) ops ↔
      ¬OvertakesLook (State.init capacity spinLimit) ops := by
  rw [along_iff_forall_split]
  constructor
  · rintro hpromised ⟨pre, thread, mid, post, rfl, hlook, hmid, hpushed, hsenders⟩
    have hlooked := inv_step (inv_run capacity spinLimit pre) (.advance thread)
    obtain ⟨hchannel, entry, spins, hentry, hcall⟩ := hlook.advance
    have hqueue := (queue_ne_nil_iff hlooked (by rw [hchannel, hlook.2]) mid).mpr hpushed
    have hrun := run_append step (State.init capacity spinLimit) pre (.advance thread :: mid)
    have hinv := inv_run capacity spinLimit (pre ++ .advance thread :: mid)
    rw [run_cons] at hrun
    rw [hrun] at hinv
    refine (not_promised_iff hinv (.advance thread)).mpr ⟨?_, hqueue⟩ ?_
    · refine outcome_recvError.mpr ⟨thread, entry, spins, rfl, callOf_run hentry hmid, hcall, ?_⟩
      rw [hinv.counted, hsenders, Finset.card_empty]
    · rw [← hrun]
      exact hpromised _ _ post (by rw [List.append_assoc, List.cons_append])
  · rintro hnever pre' op post rfl
    by_contra hbroken
    have hinv := inv_run capacity spinLimit pre'
    obtain ⟨hrecv, hqueue⟩ := (not_promised_iff hinv op).mp hbroken
    obtain ⟨thread, entry, spins, rfl, hentry, hcall, hsenders⟩ := outcome_recvError.mp hrecv
    obtain ⟨pre, mid, rfl, hlook, hmid⟩ := exists_look rfl hcall pre' hentry
    have hlooked := inv_step (inv_run capacity spinLimit pre) (.advance thread)
    rw [hinv.counted, Finset.card_eq_zero] at hsenders
    rw [run_append, run_cons] at hqueue hsenders
    refine hnever ⟨pre, thread, mid, post, by rw [List.append_assoc, List.cons_append], hlook,
      hmid, ?_, hsenders⟩
    exact (queue_ne_nil_iff hlooked (by rw [hlook.advance.1, hlook.2]) mid).mp hqueue

theorem capacity_step (s : State α) (op : Op α) :
    (step s op).channel.capacity = s.channel.capacity := by
  cases op with
  | advance caller =>
    rw [step]
    cases s.callOf caller with
    | none => rfl
    | some entry => exact (advance_frame s.channel entry.call).1
  | _ =>
    rw [step]
    split_ifs <;> rfl

/-- **Main theorem.** After every run, whatever the interleaving, the values received are a prefix
of the values enqueued, and the queue keeps to the capacity it was made with; and every step of a
run keeps the promise of `RecvError` exactly if no receiver's look at the empty queue is overtaken
by a value and by the drop of the last sender. -/
theorem channel_promised_iff (capacity spinLimit : ℕ) (ops : List (Op α)) :
    Ordered capacity (run step (State.init capacity spinLimit) ops) ∧
    (Along step Promised (State.init capacity spinLimit) ops ↔
      ¬OvertakesLook (State.init capacity spinLimit) ops) := by
  refine ⟨?_, promised_run_iff capacity spinLimit ops⟩
  have hinv := inv_run capacity spinLimit ops
  have hcapacity := run_invariant (P := fun s : State α => s.channel.capacity = capacity)
    (fun s op h => (capacity_step s op).trans h) (s := State.init capacity spinLimit) rfl ops
  exact ⟨⟨_, hinv.fifo.symm⟩, hinv.bounded.trans (le_of_eq hcapacity)⟩

/-- A receiver finds the queue empty, the only sender sends a value and is dropped, and the
receiver loads the sender count. -/
def lateReceiver : List (Op ℕ) :=
  [.recv 0 0, .advance 0, .send 1 0 7, .advance 1, .advance 1, .dropSender 1 0, .advance 0]

theorem channel_loses_value :
    ¬∀ ops : List (Op ℕ), Ordered 1 (run step (State.init 1 0) ops) ∧
      Along step Promised (State.init 1 0) ops := by
  intro h
  obtain ⟨-, -, -, -, -, -, -, hlast, -⟩ := h lateReceiver
  have hreceived := (hlast rfl).2
  have hlengths := congrArg List.length hreceived
  revert hlengths
  decide

end

end Mrml.Runtime
