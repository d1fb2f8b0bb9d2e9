import Mrml.Common.Bytes
import Mrml.Common.Channel
import Mrml.Common.Int
import Mrml.Crypto.Sha256
import Mrml.Gpu.Command

/-!
# Authenticated frames

The three authenticated GPU channels (`crates/mrml-kernel/src/virtual_gpu.rs`,
lines 899–987, 1032–1171 and 1540–1662) use one 80-byte frame: a magic, a version
byte, a session, a sequence number, the fields of the item and an HMAC tag over the
first 48 bytes. `FrameFormat` has what differs between them; `sealFrame` and
`openFrame` are what their `encode` and `decode` have in common.

Results:
* `openFrame_sealFrame`: a sealed frame opens at its own session and number.
* `FrameFormat.channel`: a lawful format is a numbered channel.
-/

namespace Mrml.Gpu

open Mrml.Crypto

/-- `GPU_QUEUE_MESSAGE_BYTES` (line 264). -/
def gpuQueueMessageBytes : ℕ := 80

/-- `GPU_QUEUE_AUTHENTICATED_BYTES` (line 269). -/
def gpuQueueAuthenticatedBytes : ℕ := 48

/-- The fields of every sender and receiver (lines 902–906, 944–948, 1034–1038 and
    1085–1089). -/
structure Endpoint where
  session : UInt64
  nextSequence : UInt64
  key : Vector UInt8 32
deriving DecidableEq

/-- `validate_queue_identity` (lines 1143–1148). -/
def validateQueueIdentity (session : UInt64) (key : Vector UInt8 32) : Except GpuError Unit :=
  if session = 0 ∨ key.toList.all (· == 0) then .error .invalidQueueKey else .ok ()

/-- The constructor of every sender and receiver (lines 909–916). -/
def Endpoint.new (session : UInt64) (key : Vector UInt8 32) : Except GpuError Endpoint :=
  (validateQueueIdentity session key).map fun _ => ⟨session, 1, key⟩

/-- `constant_time_equal` (lines 1162–1171). -/
def constantTimeEqual (expected candidate : List UInt8) : Bool :=
  if candidate.length ≠ expected.length then false
  else (List.zipWith (· ^^^ ·) expected candidate).foldl (· ||| ·) 0 == 0

theorem foldl_or_eq_zero (l : List UInt8) (start : UInt8) :
    l.foldl (· ||| ·) start = 0 ↔ start = 0 ∧ ∀ b ∈ l, b = 0 := by
  induction l generalizing start with
  | nil => simp
  | cons a l ih =>
    rw [List.foldl_cons, ih, UInt8.or_eq_zero_iff, List.forall_mem_cons, and_assoc]

/-- The comparison without early exit is equality. -/
theorem constantTimeEqual_iff {expected candidate : List UInt8} :
    constantTimeEqual expected candidate = true ↔ candidate = expected := by
  unfold constantTimeEqual
  split
  · next hlen =>
    simp only [Bool.false_eq_true, false_iff]
    rintro rfl
    exact hlen rfl
  · next hlen =>
    rw [not_not] at hlen
    rw [beq_iff_eq, foldl_or_eq_zero]
    simp only [true_and]
    induction expected generalizing candidate with
    | nil => simpa using hlen
    | cons a expected ih =>
      cases candidate with
      | nil => simp at hlen
      | cons b candidate =>
        rw [List.zipWith_cons_cons, List.forall_mem_cons, ih (by simpa using hlen),
          List.cons.injEq, UInt8.xor_eq_zero_iff, eq_comm]

/-- What distinguishes one channel from another. -/
structure FrameFormat (Item : Type) where
  /-- The domain label of the tag. -/
  label : List UInt8
  magic : List UInt8
  /-- Whether a reserved byte is set. -/
  reserved : List UInt8 → Bool
  /-- Writes the fields of an item into a frame. -/
  write : Item → List UInt8 → Except GpuError Unit × List UInt8
  /-- Reads the fields of an item from a frame. -/
  parse : List UInt8 → Except GpuError Item

namespace FrameFormat

variable {Item : Type}

/-- `queue_tag`, `completion_tag` and `resource_response_tag` (lines 1150–1160). -/
def tag (f : FrameFormat Item) (key : Vector UInt8 32) (authenticated : List UInt8) : List UInt8 :=
  hmacSha256 key.toList [f.label, authenticated]

/-- The fields of a frame that do not depend on the item (lines 929–933). -/
def header (f : FrameFormat Item) (session sequence : UInt64) : List UInt8 :=
  let output := List.replicate gpuQueueMessageBytes 0
  let output := patch output 0 f.magic
  let output := patch output 4 [1]
  let output := patch output 8 (leBytes 8 session.toNat)
  patch output 16 (leBytes 8 sequence.toNat)

/-- The `encode` of a sender (lines 918–941 and 1050–1074): the result, the sender and
    the buffer. -/
def sealFrame (f : FrameFormat Item) (sender : Endpoint) (item : Item) (output : List UInt8) :
    Except GpuError Unit × Endpoint × List UInt8 :=
  if output.length < gpuQueueMessageBytes then (.error .commandBufferTooSmall, sender, output)
  else
    match checkedAdd64 sender.nextSequence 1 with
    | none => (.error .sequenceExhausted, sender, output)
    | some nextSequence =>
      match f.write item (f.header sender.session sender.nextSequence) with
      | (.error error, frame) => (.error error, sender, frame ++ output.drop gpuQueueMessageBytes)
      | (.ok (), frame) =>
        let tag := f.tag sender.key (slice frame 0 gpuQueueAuthenticatedBytes)
        (.ok (), { sender with nextSequence },
          patch frame gpuQueueAuthenticatedBytes tag ++ output.drop gpuQueueMessageBytes)

/-- The tag of a message is the one of its authenticated bytes. -/
def verifies (f : FrameFormat Item) (receiver : Endpoint) (input : List UInt8) : Prop :=
  constantTimeEqual (f.tag receiver.key (slice input 0 gpuQueueAuthenticatedBytes))
    (slice input 48 32) = true

instance (f : FrameFormat Item) (receiver : Endpoint) (input : List UInt8) :
    Decidable (f.verifies receiver input) :=
  inferInstanceAs (Decidable (_ = true))

/-- The `decode` of a receiver (lines 960–986 and 1101–1141): the result and the
    receiver. -/
def openFrame (f : FrameFormat Item) (receiver : Endpoint) (input : List UInt8) :
    Except GpuError Item × Endpoint :=
  if input.length ≠ gpuQueueMessageBytes ∨ slice input 0 4 ≠ f.magic ∨ byteAt input 4 ≠ 1 ∨
      f.reserved input then (.error .malformedCommand, receiver)
  else if ¬ f.verifies receiver input then (.error .authenticationFailed, receiver)
  else if readU64 input 8 ≠ receiver.session then (.error .wrongSession, receiver)
  else if readU64 input 16 ≠ receiver.nextSequence then (.error .replay, receiver)
  else
    match f.parse input with
    | .error error => (.error error, receiver)
    | .ok item =>
      match checkedAdd64 receiver.nextSequence 1 with
      | none => (.error .sequenceExhausted, receiver)
      | some nextSequence => (.ok item, { receiver with nextSequence })

theorem length_header {f : FrameFormat Item} (hmagic : f.magic.length = 4)
    (session sequence : UInt64) : (f.header session sequence).length = gpuQueueMessageBytes := by
  have h₀ : (List.replicate gpuQueueMessageBytes (0 : UInt8)).length = gpuQueueMessageBytes := rfl
  have h₁ := length_patch_of_eq 0 f.magic h₀ (by rw [hmagic]; decide)
  have h₂ := length_patch_of_eq 4 [1] h₁ (by decide)
  have h₃ := length_patch_of_eq 8 (leBytes 8 session.toNat) h₂
    (by rw [length_leBytes]; decide)
  exact length_patch_of_eq 16 (leBytes 8 sequence.toNat) h₃
    (by rw [length_leBytes]; decide)

/-- The fields of a header; the bytes of the item are zero. -/
theorem slice_header {f : FrameFormat Item} (hmagic : f.magic.length = 4)
    (session sequence : UInt64) :
    slice (f.header session sequence) 0 4 = f.magic ∧
    slice (f.header session sequence) 4 1 = [1] ∧
    slice (f.header session sequence) 5 3 = [0, 0, 0] ∧
    slice (f.header session sequence) 6 2 = [0, 0] ∧
    slice (f.header session sequence) 8 8 = leBytes 8 session.toNat ∧
    slice (f.header session sequence) 16 8 = leBytes 8 sequence.toNat ∧
    slice (f.header session sequence) 40 8 = List.replicate 8 0 := by
  have h₀ : (List.replicate gpuQueueMessageBytes (0 : UInt8)).length = 80 := rfl
  have h₁ := length_patch_of_eq 0 f.magic h₀ (by omega)
  have h₂ := length_patch_of_eq 4 [1] h₁ (by simp)
  have h₃ := length_patch_of_eq 8 (leBytes 8 session.toNat) h₂ (by simp)
  unfold header
  dsimp only
  refine ⟨?_, ?_, ?_, ?_, ?_, ?_, ?_⟩
  all_goals simp (disch := simp [*]) only [slice_patch_of_disjoint, slice_patch_self]
  all_goals rfl

/-! ## Lawful formats -/

/-- A written frame keeps the header and reads back as its item if the item is
    `Good`; the reads stay within the authenticated bytes. -/
structure Lawful (f : FrameFormat Item) (Good : Item → Prop) : Prop where
  magic_length : f.magic.length = 4
  length : ∀ {item session sequence frame},
    f.write item (f.header session sequence) = (.ok (), frame) → frame.length = gpuQueueMessageBytes
  header : ∀ {item session sequence frame},
    f.write item (f.header session sequence) = (.ok (), frame) →
    slice frame 0 4 = f.magic ∧ slice frame 4 1 = [1] ∧ f.reserved frame = false ∧
      slice frame 8 8 = leBytes 8 session.toNat ∧ slice frame 16 8 = leBytes 8 sequence.toNat
  parse_good : ∀ {item session sequence frame},
    f.write item (f.header session sequence) = (.ok (), frame) → Good item →
    f.parse frame = .ok item
  parse_bad : ∀ {item session sequence frame},
    f.write item (f.header session sequence) = (.ok (), frame) → ¬ Good item →
    ∃ error, f.parse frame = .error error
  parse_body : ∀ input, f.parse (slice input 0 gpuQueueAuthenticatedBytes) = f.parse input
  reserved_body : ∀ input,
    f.reserved (slice input 0 gpuQueueAuthenticatedBytes) = f.reserved input

/-- The message that a call of a sender leaves in its buffer. -/
def send (f : FrameFormat Item) (sender : Endpoint) (call : Item × List UInt8) :
    Except GpuError (List UInt8) × Endpoint :=
  match f.sealFrame sender call.1 call.2 with
  | (.error error, sender, _) => (.error error, sender)
  | (.ok (), sender, output) => (.ok (output.take gpuQueueMessageBytes), sender)

/-- What a sender does when it accepts an item. -/
theorem send_eq_ok {f : FrameFormat Item} {sender sender' : Endpoint}
    {call : Item × List UInt8} {message : List UInt8} {Good : Item → Prop} (hf : f.Lawful Good)
    (h : f.send sender call = (.ok message, sender')) :
    ∃ frame nextSequence, f.write call.1 (f.header sender.session sender.nextSequence) =
        (.ok (), frame) ∧
      nextSequence.toNat = sender.nextSequence.toNat + 1 ∧
      sender' = { sender with nextSequence } ∧
      message = patch frame gpuQueueAuthenticatedBytes
        (f.tag sender.key (slice frame 0 gpuQueueAuthenticatedBytes)) := by
  unfold send sealFrame at h
  split at h
  · cases h
  · next sender₁ output hseal =>
    split at hseal
    · cases hseal
    · split at hseal
      · cases hseal
      · next nextSequence hnext =>
        split at hseal
        · cases hseal
        · next frame hwrite =>
          cases hseal
          cases h
          have hlen : (patch frame gpuQueueAuthenticatedBytes (f.tag sender.key
              (slice frame 0 gpuQueueAuthenticatedBytes))).length = gpuQueueMessageBytes := by
            rw [length_patch, hf.length hwrite]
            rw [tag, length_hmacSha256, hf.length hwrite]
            decide
          refine ⟨frame, nextSequence, hwrite, checkedAdd64_eq_some.mp hnext, rfl, ?_⟩
          rw [List.take_left' hlen]

/-- A sender accepts an item that can be written, as long as it has numbers left. -/
theorem send_of_write {f : FrameFormat Item} (sender : Endpoint) (call : Item × List UInt8)
    (houtput : gpuQueueMessageBytes ≤ call.2.length) {nextSequence : UInt64}
    (hnext : nextSequence.toNat = sender.nextSequence.toNat + 1) {frame : List UInt8}
    (hwrite : f.write call.1 (f.header sender.session sender.nextSequence) = (.ok (), frame)) :
    ∃ message, f.send sender call = (.ok message, { sender with nextSequence }) := by
  rw [send, sealFrame, if_neg (by omega), checkedAdd64_eq_some.mpr hnext, hwrite]
  exact ⟨_, rfl⟩

theorem send_eq_error {f : FrameFormat Item} {sender sender' : Endpoint}
    {call : Item × List UInt8} {error : GpuError}
    (h : f.send sender call = (.error error, sender')) : sender' = sender := by
  unfold send sealFrame at h
  split at h
  · next error' sender₁ output hseal =>
    cases h
    split at hseal
    · cases hseal
      rfl
    · split at hseal
      · cases hseal
        rfl
      · split at hseal
        · cases hseal
          rfl
        · cases hseal
  · cases h

/-- What a receiver has checked when it accepts a message. -/
theorem openFrame_eq_ok {f : FrameFormat Item} {receiver receiver' : Endpoint}
    {input : List UInt8} {item : Item} (h : f.openFrame receiver input = (.ok item, receiver')) :
    f.verifies receiver input ∧ readU64 input 16 = receiver.nextSequence ∧
      f.parse input = .ok item ∧ ∃ nextSequence,
      nextSequence.toNat = receiver.nextSequence.toNat + 1 ∧
      receiver' = { receiver with nextSequence } := by
  unfold openFrame at h
  split at h
  · cases h
  · split at h
    · cases h
    · next hverifies =>
      split at h
      · cases h
      · split at h
        · cases h
        · next hsequence =>
          split at h
          · cases h
          · next hparse =>
            split at h
            · cases h
            · next hnext =>
              cases h
              exact ⟨not_not.mp hverifies, not_not.mp hsequence, hparse, _,
                checkedAdd64_eq_some.mp hnext, rfl⟩

/-- A rejected message leaves the receiver as it was. -/
theorem openFrame_eq_error {f : FrameFormat Item} {receiver receiver' : Endpoint}
    {input : List UInt8} {error : GpuError}
    (h : f.openFrame receiver input = (.error error, receiver')) : receiver' = receiver := by
  unfold openFrame at h
  split at h
  · exact (Prod.mk.inj h).2.symm
  · split at h
    · exact (Prod.mk.inj h).2.symm
    · split at h
      · exact (Prod.mk.inj h).2.symm
      · split at h
        · exact (Prod.mk.inj h).2.symm
        · split at h
          · exact (Prod.mk.inj h).2.symm
          · split at h
            · exact (Prod.mk.inj h).2.symm
            · cases h

/-! ## Sealed frames -/

/-- A field of the authenticated bytes. -/
theorem slice_body {input : List UInt8} {off len : ℕ} (h : off + len ≤ gpuQueueAuthenticatedBytes) :
    slice (slice input 0 gpuQueueAuthenticatedBytes) off len = slice input off len := by
  rw [slice_slice h, Nat.zero_add]

/-- A tag is written behind the authenticated bytes. -/
theorem slice_tagged (f : FrameFormat Item) {frame : List UInt8} (key : Vector UInt8 32)
    (authenticated : List UInt8) (hlen : frame.length = gpuQueueMessageBytes) :
    slice (patch frame gpuQueueAuthenticatedBytes (f.tag key authenticated)) 0
        gpuQueueAuthenticatedBytes = slice frame 0 gpuQueueAuthenticatedBytes ∧
      slice (patch frame gpuQueueAuthenticatedBytes (f.tag key authenticated)) 48 32 =
        f.tag key authenticated ∧
      (patch frame gpuQueueAuthenticatedBytes (f.tag key authenticated)).length =
        gpuQueueMessageBytes := by
  have htag : (f.tag key authenticated).length = 32 := length_hmacSha256 _ _
  refine ⟨slice_patch_before (Nat.le_refl _) (by rw [hlen]; decide),
    slice_patch_self htag.symm (by rw [hlen]; decide), ?_⟩
  rw [length_patch (by rw [htag, hlen]; decide), hlen]

/-- A buffer of the size of a message ends up as the message. -/
theorem sealFrame_of_send {f : FrameFormat Item} {Good : Item → Prop} (hf : f.Lawful Good)
    {sender sender' : Endpoint} {call : Item × List UInt8} {message : List UInt8}
    (hcall : call.2.length = gpuQueueMessageBytes)
    (h : f.send sender call = (.ok message, sender')) :
    f.sealFrame sender call.1 call.2 = (.ok (), sender', message) ∧
      message.length = gpuQueueMessageBytes := by
  obtain ⟨frame, nextSequence, hwrite, hnext, rfl, rfl⟩ := send_eq_ok hf h
  refine ⟨?_, (slice_tagged f _ _ (hf.length hwrite)).2.2⟩
  rw [sealFrame, if_neg (by omega), checkedAdd64_eq_some.mpr hnext, hwrite]
  dsimp only
  rw [List.drop_eq_nil_of_le (Nat.le_of_eq hcall), List.append_nil]

/-- **A sealed frame opens.** A receiver with the session, key and number of the
    sender gets as far as the item. -/
theorem openFrame_sealFrame {f : FrameFormat Item} {Good : Item → Prop} (hf : f.Lawful Good)
    {sender sender' receiver : Endpoint} {call : Item × List UInt8} {message : List UInt8}
    (hmatch : receiver = sender) (h : f.send sender call = (.ok message, sender')) :
    (Good call.1 → f.openFrame receiver message = (.ok call.1, sender')) ∧
      (¬ Good call.1 → ∃ error, (f.openFrame receiver message).1 = .error error) := by
  subst hmatch
  obtain ⟨frame, nextSequence, hwrite, hnext, rfl, rfl⟩ := send_eq_ok hf h
  obtain ⟨hbody, htag, hlen⟩ := slice_tagged f receiver.key
    (slice frame 0 gpuQueueAuthenticatedBytes) (hf.length hwrite)
  obtain ⟨hmagic, hversion, hreserved, hsession, hsequence⟩ := hf.header hwrite
  generalize hm : patch frame gpuQueueAuthenticatedBytes
    (f.tag receiver.key (slice frame 0 gpuQueueAuthenticatedBytes)) = message at *
  -- the message and the frame agree on every field before the tag
  have hfield : ∀ off len, off + len ≤ gpuQueueAuthenticatedBytes →
      slice message off len = slice frame off len := by
    intro off len hle
    rw [← slice_body hle, hbody, slice_body hle]
  have hparse : f.parse message = f.parse frame := by
    rw [← hf.parse_body, hbody, hf.parse_body]
  have hhead : ¬ (message.length ≠ gpuQueueMessageBytes ∨ slice message 0 4 ≠ f.magic ∨
      byteAt message 4 ≠ 1 ∨ f.reserved message) := by
    have h₁ : slice message 0 4 = f.magic := (hfield 0 4 (by decide)).trans hmagic
    have h₂ : byteAt message 4 = 1 := byteAt_of_slice ((hfield 4 1 (by decide)).trans hversion)
    have h₃ : f.reserved message = false := by
      rw [← hf.reserved_body, hbody, hf.reserved_body, hreserved]
    simp [hlen, h₁, h₂, h₃]
  have hverifies : f.verifies receiver message := by
    rw [verifies, hbody, htag, constantTimeEqual_iff]
  have hsession' : readU64 message 8 = receiver.session :=
    readU64_of_slice ((hfield 8 8 (by decide)).trans hsession)
  have hsequence' : readU64 message 16 = receiver.nextSequence :=
    readU64_of_slice ((hfield 16 8 (by decide)).trans hsequence)
  have hopen : f.openFrame receiver message =
      match f.parse frame with
      | .error error => (.error error, receiver)
      | .ok item => (.ok item, { receiver with nextSequence }) := by
    unfold openFrame
    rw [if_neg hhead, if_neg (not_not.mpr hverifies), if_neg (not_not.mpr hsession'),
      if_neg (not_not.mpr hsequence'), hparse, checkedAdd64_eq_some.mpr hnext]
  rw [hopen]
  constructor
  · intro hgood
    rw [hf.parse_good hwrite hgood]
  · intro hbad
    obtain ⟨error, herror⟩ := hf.parse_bad hwrite hbad
    exact ⟨error, by rw [herror]⟩

/-- The number and the item of a tagged body. -/
def parseBody (f : FrameFormat Item) (body : List UInt8) : Option (ℕ × Item) :=
  match f.parse body with
  | .error _ => none
  | .ok item => some ((readU64 body 16).toNat, item)

/-- A lawful format is a numbered channel whose tags cover the number and the item. -/
def channel (f : FrameFormat Item) {Good : Item → Prop} (hf : f.Lawful Good) :
    Channel Endpoint Endpoint (Item × List UInt8) Item (List UInt8) (List UInt8) GpuError where
  send := f.send
  item := Prod.fst
  receive := f.openFrame
  sendNext sender := sender.nextSequence.toNat
  receiveNext receiver := receiver.nextSequence.toNat
  body message := slice message 0 gpuQueueAuthenticatedBytes
  parse := f.parseBody
  verifies := f.verifies
  send_ok := by
    intro sender call message sender' h
    obtain ⟨frame, nextSequence, hwrite, hnext, rfl, rfl⟩ := send_eq_ok hf h
    refine ⟨hnext, fun n x hparse => ?_⟩
    rw [(slice_tagged f _ _ (hf.length hwrite)).1, parseBody, hf.parse_body] at hparse
    have hsequence : readU64 (slice frame 0 gpuQueueAuthenticatedBytes) 16 = sender.nextSequence :=
      readU64_of_slice ((slice_body (by decide)).trans (hf.header hwrite).2.2.2.2)
    rw [hsequence] at hparse
    split at hparse
    · cases hparse
    · next item hitem =>
      cases hparse
      refine ⟨rfl, ?_⟩
      by_cases hgood : Good call.1
      · rw [hf.parse_good hwrite hgood] at hitem
        exact (Except.ok.inj hitem).symm
      · obtain ⟨error, herror⟩ := hf.parse_bad hwrite hgood
        rw [herror] at hitem
        cases hitem
  send_error := send_eq_error
  receive_ok := by
    intro receiver message item receiver' h
    obtain ⟨hverifies, hsequence, hparse, nextSequence, hnext, rfl⟩ := openFrame_eq_ok h
    refine ⟨hverifies, hnext, ?_⟩
    have hbody : readU64 (slice message 0 gpuQueueAuthenticatedBytes) 16 = readU64 message 16 := by
      rw [readU64, readU64, slice_body (by decide)]
    rw [parseBody, hf.parse_body, hparse, hbody, hsequence]
  receive_error := openFrame_eq_error

end FrameFormat

end Mrml.Gpu
