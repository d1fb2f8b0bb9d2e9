import Mrml.Common.Run

/-!
# Numbered channels

A sender numbers the messages it produces and a receiver accepts them in order.
The first part relates the two in lockstep: every message is delivered, once and in
order. In the second part the messages cross an adversary that may drop, repeat,
reorder, change or invent them; a message whose tag verifies has the tagged body
of a message that the sender produced.

Results:
* `lockstep_iff`: the receiver returns what was sent exactly if every item is one
  that it accepts.
* `Channel.received_prefix`: what the receiver accepts is a prefix of what was sent.
-/

namespace Mrml

section Lockstep

variable {S R Call Item Msg ε : Type*}
variable (send : S → Call → Except ε Msg × S) (receive : R → Msg → Except ε Item × R)

/-- The messages of a list of calls, if the sender accepts each in turn. -/
def sendAll (s : S) : List Call → Option (List Msg)
  | [] => some []
  | call :: calls =>
    match send s call with
    | (.error _, _) => none
    | (.ok message, s) => (sendAll s calls).map (message :: ·)

/-- The results of delivering a list of messages in turn. -/
def receiveAll (r : R) : List Msg → List (Except ε Item)
  | [] => []
  | message :: messages => (receive r message).1 :: receiveAll (receive r message).2 messages

variable {send receive}

theorem sendAll_cons {s : S} {call : Call} {calls : List Call} {messages : List Msg}
    (h : sendAll send s (call :: calls) = some messages) :
    ∃ message s' rest, send s call = (.ok message, s') ∧ sendAll send s' calls = some rest ∧
      messages = message :: rest := by
  rw [sendAll] at h
  split at h
  · cases h
  · next message s' hsend =>
    obtain ⟨rest, hrest, rfl⟩ := Option.map_eq_some_iff.mp h
    exact ⟨message, s', rest, hsend, hrest, rfl⟩

variable (item : Call → Item) (Matches : S → R → Prop) (Good : Item → Prop)

/-- **Lockstep.** If matching states stay matched over every accepted item, and other
    items are refused, the receiver returns the items of the sender exactly if all of
    them are good. -/
theorem lockstep_iff
    (hgood : ∀ {s r call message s'}, Matches s r → send s call = (.ok message, s') →
      Good (item call) → ∃ r', receive r message = (.ok (item call), r') ∧ Matches s' r')
    (hbad : ∀ {s r call message s'}, Matches s r → send s call = (.ok message, s') →
      ¬ Good (item call) → ∃ error, (receive r message).1 = .error error)
    {s : S} {r : R} (hmatch : Matches s r) {calls : List Call} {messages : List Msg}
    (hsend : sendAll send s calls = some messages) :
    receiveAll receive r messages = calls.map (fun call => .ok (item call)) ↔
      ∀ call ∈ calls, Good (item call) := by
  induction calls generalizing s r messages with
  | nil =>
    obtain rfl : messages = [] := by simpa [sendAll, eq_comm] using hsend
    simp [receiveAll]
  | cons call calls ih =>
    obtain ⟨message, s', rest, hcall, hrest, rfl⟩ := sendAll_cons hsend
    rw [receiveAll, List.map_cons, List.cons.injEq, List.forall_mem_cons]
    by_cases hcase : Good (item call)
    · obtain ⟨r', hreceive, hmatch'⟩ := hgood hmatch hcall hcase
      rw [hreceive, ih hmatch' hrest]
      simp [hcase]
    · obtain ⟨error, herror⟩ := hbad hmatch hcall hcase
      rw [herror]
      simp [hcase]

end Lockstep

/-- A sender and a receiver of numbered messages. `parse` reads the number and the
    item of a tagged body. -/
structure Channel (S R Call Item Msg Body ε : Type*) where
  send : S → Call → Except ε Msg × S
  item : Call → Item
  receive : R → Msg → Except ε Item × R
  sendNext : S → ℕ
  receiveNext : R → ℕ
  body : Msg → Body
  parse : Body → Option (ℕ × Item)
  verifies : R → Msg → Prop
  send_ok : ∀ {s call message s'}, send s call = (.ok message, s') →
    sendNext s' = sendNext s + 1 ∧
      ∀ n x, parse (body message) = some (n, x) → n = sendNext s ∧ x = item call
  send_error : ∀ {s call error s'}, send s call = (.error error, s') → s' = s
  receive_ok : ∀ {r message x r'}, receive r message = (.ok x, r') →
    verifies r message ∧ receiveNext r' = receiveNext r + 1 ∧
      parse (body message) = some (receiveNext r, x)
  receive_error : ∀ {r message error r'}, receive r message = (.error error, r') → r' = r

namespace Channel

variable {S R Call Item Msg Body ε : Type*}

/-- A sender, a receiver, and what each has produced and accepted, oldest first. -/
structure Link (S R Item Msg : Type*) where
  sender : S
  receiver : R
  sent : List (Item × Msg)
  received : List Item

/-- The sender produces a message, or the adversary delivers one of its own choice. -/
inductive Event (Call Msg : Type*)
  | send (call : Call)
  | deliver (message : Msg)

/-- One event. -/
def step (c : Channel S R Call Item Msg Body ε) (l : Link S R Item Msg) :
    Event Call Msg → Link S R Item Msg
  | .send call =>
    match c.send l.sender call with
    | (.error _, sender) => { l with sender }
    | (.ok message, sender) => { l with sender, sent := l.sent ++ [(c.item call, message)] }
  | .deliver message =>
    match c.receive l.receiver message with
    | (.error _, receiver) => { l with receiver }
    | (.ok item, receiver) => { l with receiver, received := l.received ++ [item] }

/-- A delivery does not touch what was sent. -/
theorem step_deliver_sent (c : Channel S R Call Item Msg Body ε) (l : Link S R Item Msg)
    (message : Msg) : (c.step l (.deliver message)).sent = l.sent := by
  rw [step]
  split <;> rfl

/-- The tag of a delivered message verifies only if the sender produced its body. -/
def Unforged (c : Channel S R Call Item Msg Body ε) (l : Link S R Item Msg) :
    Event Call Msg → Prop
  | .send _ => True
  | .deliver message => c.verifies l.receiver message →
      ∃ sent ∈ l.sent, c.body sent.2 = c.body message

/-- Message `i` has number `base + i`, and the receiver has accepted a prefix. -/
structure Inv (c : Channel S R Call Item Msg Body ε) (base : ℕ) (l : Link S R Item Msg) :
    Prop where
  sendNext : c.sendNext l.sender = base + l.sent.length
  receiveNext : c.receiveNext l.receiver = base + l.received.length
  numbered : ∀ i x message, l.sent[i]? = some (x, message) →
    ∀ n y, c.parse (c.body message) = some (n, y) → n = base + i ∧ y = x
  received : l.received <+: l.sent.map Prod.fst

theorem step_inv (c : Channel S R Call Item Msg Body ε) {base : ℕ} {l : Link S R Item Msg}
    (hl : c.Inv base l) {event : Event Call Msg} (hevent : c.Unforged l event) :
    c.Inv base (c.step l event) := by
  cases event with
  | send call =>
    rw [step]
    split
    · next error sender hsend =>
      obtain rfl := c.send_error hsend
      exact hl
    · next message sender hsend =>
      obtain ⟨hnext, hparse⟩ := c.send_ok hsend
      refine ⟨?_, hl.receiveNext, ?_, ?_⟩
      · rw [hnext, hl.sendNext, List.length_append, List.length_singleton, Nat.add_assoc]
      · intro i x message' hi n y hy
        rcases Nat.lt_or_ge i l.sent.length with hlt | hge
        · rw [List.getElem?_append_left hlt] at hi
          exact hl.numbered i x message' hi n y hy
        · rw [List.getElem?_append_right hge, List.getElem?_singleton] at hi
          split at hi
          · next hzero =>
            cases hi
            obtain ⟨hn, hx⟩ := hparse n y hy
            rw [hl.sendNext] at hn
            exact ⟨by omega, hx⟩
          · cases hi
      · rw [List.map_append]
        exact hl.received.trans (List.prefix_append _ _)
  | deliver message =>
    rw [step]
    split
    · next error receiver hreceive =>
      obtain rfl := c.receive_error hreceive
      exact hl
    · next x receiver hreceive =>
      obtain ⟨hverifies, hnext, hparse⟩ := c.receive_ok hreceive
      -- the accepted body was sent, and its number says as which message
      obtain ⟨⟨y, message'⟩, hmem, hbody⟩ := hevent hverifies
      obtain ⟨i, hi⟩ := List.mem_iff_getElem?.mp hmem
      rw [← hbody] at hparse
      obtain ⟨hn, rfl⟩ := hl.numbered i y message' hi _ _ hparse
      rw [hl.receiveNext] at hn
      obtain rfl : i = l.received.length := by omega
      refine ⟨hl.sendNext, ?_, hl.numbered, ?_⟩
      · rw [hnext, hl.receiveNext, List.length_append, List.length_singleton, Nat.add_assoc]
      · have hitem : (l.sent.map Prod.fst)[l.received.length]? = some x := by
          rw [List.getElem?_map, hi]
          rfl
        obtain ⟨hlt, rfl⟩ := List.getElem?_eq_some_iff.mp hitem
        exact List.concat_get_prefix hl.received hlt

/-- **Run lemma.** Over every unforged sequence of events the accepted items are a
    prefix of the items sent. -/
theorem received_prefix (c : Channel S R Call Item Msg Body ε) {sender : S} {receiver : R}
    (hnext : c.receiveNext receiver = c.sendNext sender) {events : List (Event Call Msg)}
    (hevents : Along c.step c.Unforged ⟨sender, receiver, [], []⟩ events) :
    (run c.step ⟨sender, receiver, [], []⟩ events).received <+:
      (run c.step ⟨sender, receiver, [], []⟩ events).sent.map Prod.fst := by
  have hstart : c.Inv (c.sendNext sender) ⟨sender, receiver, [], []⟩ :=
    ⟨rfl, hnext, by simp, List.nil_prefix⟩
  exact (run_induction (P := c.Inv (c.sendNext sender)) (fun _ _ hl => c.step_inv hl) hstart
    hevents).received

/-- Messages with the body of one that was sent are unforged, and do not touch what was sent. -/
theorem replay (c : Channel S R Call Item Msg Body ε) {item : Item} {message : Msg}
    {messages : List Msg} (hbody : ∀ m ∈ messages, c.body message = c.body m)
    {l : Link S R Item Msg} (hsent : (item, message) ∈ l.sent) :
    Along c.step c.Unforged l (messages.map .deliver) ∧
      (run c.step l (messages.map .deliver)).sent = l.sent := by
  induction messages generalizing l with
  | nil => exact ⟨trivial, rfl⟩
  | cons m messages ih =>
    obtain ⟨hm, hmessages⟩ := List.forall_mem_cons.mp hbody
    have hkeep := c.step_deliver_sent l m
    obtain ⟨halong, hrun⟩ := ih hmessages (l := c.step l (.deliver m)) (hkeep ▸ hsent)
    exact ⟨⟨fun _ => ⟨_, hsent, hm⟩, halong⟩, hrun.trans hkeep⟩

end Channel

end Mrml
