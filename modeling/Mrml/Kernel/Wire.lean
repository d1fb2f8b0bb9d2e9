import Mrml.Common.Run
import Mrml.Common.Wire
import Mrml.Kernel.Ipc

/-!
# The wire format of IPC messages

Model of `Message::encode`, `Message::decode` and `Receiver` in
`crates/mrml-kernel/src/ipc.rs` (lines 27–233). A `StoredMessage` keeps the fixed arrays of
the source, whose unused parts are zero and `None` in every value that its functions build;
`view` reads the lists of `Mrml.Kernel.Message` from it.

Results:
* `decode_eq_ok`: a buffer is accepted iff it is the encoding of what it decodes to.
* `wire_format`: both round trips, and the sequence numbers that a receiver accepts.
-/

namespace Mrml.Kernel

/-- `WIRE_HEADER_LENGTH` (line 5). -/
def wireHeaderLength : ℕ := 24

/-- `WIRE_MAGIC` (line 7), the bytes of `MRIP`. -/
def wireMagic : List UInt8 := [0x4d, 0x52, 0x49, 0x50]

/-- `WIRE_VERSION` (line 8). -/
def wireVersion : UInt8 := 1

/-- `Capability::token` (`capability.rs`, lines 39–41). -/
def Capability.token (c : Capability) : UInt64 := packWords c.generation c.slot

@[simp] theorem Capability.fromToken_token (c : Capability) : fromToken c.token = c := by
  simp [fromToken, token]

@[simp] theorem Capability.token_fromToken (token : UInt64) : (fromToken token).token = token :=
  eq_of_words (lowWord_packWords _ _) (highWord_packWords _ _)

/-- `payload.len() as u16`, for a payload that fits. -/
theorem toNat_payloadLength {len : ℕ} (h : len ≤ maxInlinePayload) :
    (UInt16.ofNat len).toNat = len := by
  rw [maxInlinePayload] at h
  exact UInt16.toNat_ofNat_of_lt' (show len < 65536 by omega)

/-- `capabilities.len() as u8`, for capabilities that fit. -/
theorem toNat_capabilityCount {count : ℕ} (h : count ≤ maxCapabilities) :
    (UInt8.ofNat count).toNat = count := by
  rw [maxCapabilities] at h
  exact UInt8.toNat_ofNat_of_lt' (show count < 256 by omega)

/-- `Message` (lines 27–32), with its fixed arrays. The fields are private to the module,
    and its functions fill the first cells only. -/
@[ext] structure StoredMessage where
  payload : Vector UInt8 maxInlinePayload
  payloadLength : UInt16
  capabilities : Vector (Option Capability) maxCapabilities
  capabilityCount : UInt8
  payloadLength_le : payloadLength.toNat ≤ maxInlinePayload
  payload_rest : ∀ i : Fin maxInlinePayload, payloadLength.toNat ≤ i → payload[i] = 0
  capabilityCount_le : capabilityCount.toNat ≤ maxCapabilities
  capabilities_filled : ∀ i : Fin maxCapabilities,
    capabilities[i].isSome = true ↔ i < capabilityCount.toNat

namespace StoredMessage

/-- `Message::payload` and `Message::capabilities` (lines 88–97). -/
def view (m : StoredMessage) : Message where
  payload := m.payload.toList.take m.payloadLength.toNat
  capabilities := (m.capabilities.toList.take m.capabilityCount.toNat).reduceOption

/-- The payload in a zeroed array, with no capabilities (lines 42–48). -/
def ofPayload (payload : List UInt8) (h : payload.length ≤ maxInlinePayload) : StoredMessage where
  payload := Vector.ofFn fun i => byteAt payload i
  payloadLength := UInt16.ofNat payload.length
  capabilities := Vector.replicate _ none
  capabilityCount := 0
  payloadLength_le := by rwa [toNat_payloadLength h]
  payload_rest := by
    intro i hi
    rw [toNat_payloadLength h] at hi
    simp [byteAt, List.getElem?_eq_none hi]
  capabilityCount_le := Nat.zero_le _
  capabilities_filled := by simp

/-- `message.capabilities = …; message.capability_count = …` (lines 49–51, 83–84 and
    169–173). -/
def withCapabilities (m : StoredMessage) (capabilities : List Capability)
    (h : capabilities.length ≤ maxCapabilities) : StoredMessage :=
  { m with
    capabilities := Vector.ofFn fun i => capabilities[i.val]?
    capabilityCount := UInt8.ofNat capabilities.length
    capabilityCount_le := by rwa [toNat_capabilityCount h]
    capabilities_filled := by
      intro i
      rw [toNat_capabilityCount h]
      simp }

/-- `Message::new` (lines 35–53). -/
def new (payload : List UInt8) (capabilities : List Capability) : Except IpcError StoredMessage :=
  if hp : payload.length > maxInlinePayload then .error .payloadTooLarge
  else if hc : capabilities.length > maxCapabilities then .error .tooManyCapabilities
  else .ok ((ofPayload payload (by omega)).withCapabilities capabilities (by omega))

/-! ## The arrays and their contents -/

variable {m m' : StoredMessage}

@[simp] theorem length_view_payload (m : StoredMessage) :
    m.view.payload.length = m.payloadLength.toNat := by
  rw [view, List.length_take, Vector.length_toList, Nat.min_eq_left m.payloadLength_le]

theorem reduceOption_map_some {α : Type} {l : List (Option α)} (h : ∀ x ∈ l, x.isSome = true) :
    l.reduceOption.map some = l := by
  induction l with
  | nil => rfl
  | cons x l ih =>
    obtain ⟨hx, hl⟩ := List.forall_mem_cons.mp h
    obtain ⟨a, rfl⟩ := Option.isSome_iff_exists.mp hx
    rw [List.reduceOption_cons_of_some, List.map_cons, ih hl]

theorem map_some_view_capabilities (m : StoredMessage) :
    m.view.capabilities.map some = m.capabilities.toList.take m.capabilityCount.toNat := by
  refine reduceOption_map_some fun x hx => ?_
  obtain ⟨i, hi, rfl⟩ := List.mem_take_iff_getElem.mp hx
  rw [Vector.length_toList] at hi
  rw [Vector.getElem_toList]
  exact (m.capabilities_filled ⟨i, by omega⟩).mpr (by show i < _; omega)

@[simp] theorem length_view_capabilities (m : StoredMessage) :
    m.view.capabilities.length = m.capabilityCount.toNat := by
  have h := congrArg List.length m.map_some_view_capabilities
  rwa [List.length_map, List.length_take, Vector.length_toList,
    Nat.min_eq_left m.capabilityCount_le] at h

/-- The payload array, from the payload. -/
theorem payload_getElem (m : StoredMessage) (i : Fin maxInlinePayload) :
    m.payload[i] = byteAt m.view.payload i := by
  by_cases hi : i < m.payloadLength.toNat
  · simp [byteAt, view, hi]
  · rw [m.payload_rest i (by omega)]
    simp [byteAt, view, hi]

/-- The capability array, from the capabilities. -/
theorem capabilities_getElem (m : StoredMessage) (i : Fin maxCapabilities) :
    m.capabilities[i] = m.view.capabilities[i.val]? := by
  have h := congrArg (·[i.val]?) m.map_some_view_capabilities
  by_cases hi : i < m.capabilityCount.toNat
  · have hlen : i.val < m.capabilities.toList.length := by simp
    simp only [List.getElem?_map, List.getElem?_take_of_lt hi] at h
    rw [List.getElem?_eq_getElem hlen, Vector.getElem_toList] at h
    obtain ⟨c, hc, hcell⟩ := Option.map_eq_some_iff.mp h
    rw [hc]
    exact hcell.symm
  · rw [List.getElem?_eq_none (by rw [length_view_capabilities]; omega)]
    exact Option.not_isSome_iff_eq_none.mp fun h => hi ((m.capabilities_filled i).mp h)

/-- The lists determine the arrays. -/
theorem ext_of_view (h : m.view = m'.view) : m = m' := by
  have hp := congrArg (fun v => v.payload.length) h
  have hc := congrArg (fun v => v.capabilities.length) h
  simp only [length_view_payload, length_view_capabilities] at hp hc
  ext1
  · refine Vector.ext fun i hi => ?_
    exact (m.payload_getElem ⟨i, hi⟩).trans (h ▸ (m'.payload_getElem ⟨i, hi⟩).symm)
  · exact UInt16.toNat_inj.mp hp
  · refine Vector.ext fun i hi => ?_
    exact (m.capabilities_getElem ⟨i, hi⟩).trans (h ▸ (m'.capabilities_getElem ⟨i, hi⟩).symm)
  · exact UInt8.toNat_inj.mp hc

theorem view_ofPayload {payload : List UInt8} (h : payload.length ≤ maxInlinePayload) :
    (ofPayload payload h).view = ⟨payload, []⟩ := by
  have hp : (ofPayload payload h).view.payload = payload := by
    refine List.ext_getElem (by simpa [ofPayload] using toNat_payloadLength h) fun i hi hi' => ?_
    simp [view, ofPayload, byteAt, hi']
  calc (ofPayload payload h).view = ⟨(ofPayload payload h).view.payload, []⟩ := rfl
    _ = ⟨payload, []⟩ := by rw [hp]

theorem view_withCapabilities {capabilities : List Capability}
    (h : capabilities.length ≤ maxCapabilities) :
    (m.withCapabilities capabilities h).view = ⟨m.view.payload, capabilities⟩ := by
  have hlen : (m.withCapabilities capabilities h).view.capabilities.length =
      capabilities.length := by
    rw [length_view_capabilities]
    exact toNat_capabilityCount h
  have hc : (m.withCapabilities capabilities h).view.capabilities = capabilities := by
    refine List.ext_getElem hlen fun i hi hi' => ?_
    have hcell := (m.withCapabilities capabilities h).capabilities_getElem ⟨i, by omega⟩
    rw [List.getElem?_eq_getElem hi] at hcell
    refine Option.some.inj (hcell.symm.trans ?_)
    simp [withCapabilities, hi']
  calc (m.withCapabilities capabilities h).view =
      ⟨m.view.payload, (m.withCapabilities capabilities h).view.capabilities⟩ := rfl
    _ = ⟨m.view.payload, capabilities⟩ := by rw [hc]

/-! ## Encoding and decoding -/

/-- The capability records: `capability.token().to_le_bytes()` (line 120), and the check of
    a token read from the wire (lines 159–163). -/
def tokenFormat : RecordFormat IpcError {c : Capability // c.generation ≠ 0} where
  width := 8
  write c := leBytes 8 c.val.token.toNat
  read record :=
    if h : readU64 record 0 = 0 ∨ readU64 record 0 >>> 32 = 0 then .error .malformed
    else .ok ⟨Capability.fromToken (readU64 record 0),
      fun hzero => h (.inr ((shiftRight_eq_zero_iff _).mpr hzero))⟩
  length_write _ := length_leBytes _ _
  read_write := by
    rintro ⟨c, hc⟩
    have hread : readU64 (leBytes 8 c.token.toNat) 0 = c.token := by
      refine readU64_of_slice ?_
      rw [slice, List.drop_zero, List.take_of_length_le (by rw [length_leBytes])]
    have hhigh : highWord c.token = c.generation := highWord_packWords _ _
    have hvalid : ¬ (c.token = 0 ∨ c.token >>> 32 = 0) := by
      rw [shiftRight_eq_zero_iff, hhigh]
      rintro (hzero | hzero)
      · exact hc (hhigh ▸ hzero ▸ rfl)
      · exact hc hzero
    simp only [hread, dif_neg hvalid]
    exact congrArg Except.ok (Subtype.ext (Capability.fromToken_token c))
  write_read := by
    intro record item hlen h
    split_ifs at h with hvalid
    obtain rfl := Except.ok.inj h
    show leBytes 8 (Capability.fromToken (readU64 record 0)).token.toNat = record
    rw [Capability.token_fromToken, leBytes_readU64 (by omega), slice, List.drop_zero,
      List.take_of_length_le (by omega)]

/-- The fields of a frame, in the order in which they are written (lines 110–123). -/
def fields (m : StoredMessage) (sequence : UInt64) : List (List UInt8) :=
  [wireMagic, [wireVersion], [0], [m.capabilityCount], [0], leBytes 8 sequence.toNat,
    leBytes 2 m.payloadLength.toNat, zeros 6,
    (m.view.capabilities.map fun c => leBytes 8 c.token.toNat).flatten, m.view.payload]

/-- The frame of a message. -/
def wire (m : StoredMessage) (sequence : UInt64) : List UInt8 := (m.fields sequence).flatten

/-- `Message::encode` (lines 101–125): the length of the frame and the buffer, of which
    `output[..required]` has been written, field after field. -/
def encode (m : StoredMessage) (sequence : UInt64) (output : List UInt8) :
    Except IpcError (ℕ × List UInt8) := do
  refuseIf (sequence = 0) .malformed
  let required := wireHeaderLength + m.capabilityCount.toNat * 8 + m.payloadLength.toNat
  refuseIf (output.length < required) .bufferTooSmall
  return (required, patch output 0 (m.wire sequence))

/-- `Message::decode` (lines 127–175). The checked sums of line 149 are of
    lengths that fit. -/
def decode (input : List UInt8) : Except IpcError (UInt64 × StoredMessage) := do
  refuseIf (input.length < wireHeaderLength ∨ slice input 0 4 ≠ wireMagic ∨
    byteAt input 4 ≠ wireVersion ∨ byteAt input 5 ≠ 0 ∨ byteAt input 7 ≠ 0 ∨
    anyNonzero (slice input 18 6) = true) .malformed
  let capabilityCount := (byteAt input 6).toNat
  if hcount : capabilityCount > maxCapabilities then .error .tooManyCapabilities
  else
    let sequence := readU64 input 8
    refuseIf (sequence = 0) .malformed
    let payloadLength := (readU16 input 16).toNat
    refuseIf (payloadLength > maxInlinePayload) .payloadTooLarge
    refuseIf (input.length ≠ wireHeaderLength + capabilityCount * 8 + payloadLength) .malformed
    let capabilities ← attach (tokenFormat.readRecords input wireHeaderLength capabilityCount)
    let base ← new (input.drop (wireHeaderLength + capabilityCount * 8)) []
    return (sequence, base.withCapabilities (capabilities.val.map Subtype.val) (by
      rw [List.length_map, tokenFormat.length_of_readRecords capabilities.property]
      omega))

/-! ## Round trips -/

theorem new_eq_ok {payload : List UInt8} {capabilities : List Capability} :
    new payload capabilities = .ok m ↔
      payload.length ≤ maxInlinePayload ∧ capabilities.length ≤ maxCapabilities ∧
        m.view = ⟨payload, capabilities⟩ := by
  unfold new
  constructor
  · intro h
    split_ifs at h with hp hc
    obtain rfl := Except.ok.inj h
    exact ⟨by omega, by omega, by rw [view_withCapabilities, view_ofPayload]⟩
  · rintro ⟨hp, hc, hview⟩
    rw [dif_neg (by omega), dif_neg (by omega)]
    refine congrArg Except.ok (ext_of_view ?_)
    rw [view_withCapabilities, view_ofPayload, hview]

/-- The widths of the fields of a frame. -/
def widths (capabilityCount payloadLength : ℕ) : List ℕ :=
  [4, 1, 1, 1, 1, 8, 2, 6, capabilityCount * 8, payloadLength]

theorem map_length_fields (m : StoredMessage) (sequence : UInt64) :
    (m.fields sequence).map List.length =
      widths m.capabilityCount.toNat m.payloadLength.toNat := by
  simp [fields, widths, wireMagic, Function.comp_def]

theorem length_wire (m : StoredMessage) (sequence : UInt64) :
    (m.wire sequence).length =
      wireHeaderLength + m.capabilityCount.toNat * 8 + m.payloadLength.toNat := by
  rw [wire, List.length_flatten, map_length_fields]
  simp only [widths, List.sum_cons, List.sum_nil, wireHeaderLength]
  omega

/-- The fields that are cut from a frame. -/
theorem slices_wire (m : StoredMessage) (sequence : UInt64) :
    slices (m.wire sequence) 0 (widths m.capabilityCount.toNat m.payloadLength.toNat) =
      m.fields sequence := by
  rw [← m.map_length_fields sequence]
  exact slices_flatten _

theorem flatten_tokens (items : List {c : Capability // c.generation ≠ 0}) :
    ((items.map Subtype.val).map fun c => leBytes 8 c.token.toNat).flatten =
      tokenFormat.writeRecords items := by
  rw [List.map_map]
  rfl

/-- A buffer that is accepted is the frame of what it decodes to. -/
theorem wire_of_decode {input : List UInt8} {sequence : UInt64}
    (h : decode input = .ok (sequence, m)) :
    sequence ≠ 0 ∧ (∀ c ∈ m.view.capabilities, c.generation ≠ 0) ∧ m.wire sequence = input := by
  unfold decode at h
  obtain ⟨_, hheader, h⟩ := bind_eq_ok.mp h
  dsimp only at h
  split_ifs at h with hcount
  obtain ⟨_, hsequence, h⟩ := bind_eq_ok.mp h
  obtain ⟨_, -, h⟩ := bind_eq_ok.mp h
  obtain ⟨_, hlength, h⟩ := bind_eq_ok.mp h
  obtain ⟨⟨items, hitems⟩, -, h⟩ := bind_eq_ok.mp h
  obtain ⟨base, hbase, h⟩ := bind_eq_ok.mp h
  obtain ⟨rfl, rfl⟩ := Prod.mk.inj (Except.ok.inj h)
  rw [refuseIf_eq_ok] at hheader hsequence hlength
  simp only [not_or, not_not, not_lt, ne_eq, Bool.not_eq_true] at hheader hlength
  obtain ⟨hmin, hmagic, hversion, hzero₅, hzero₇, hzeros⟩ := hheader
  obtain ⟨-, -, hbase⟩ := new_eq_ok.mp hbase
  rw [wireHeaderLength] at hmin hlength hitems
  obtain ⟨hcount', htokens⟩ := tokenFormat.writeRecords_readRecords (by
    show _ + _ * 8 ≤ _
    omega) hitems
  set m := base.withCapabilities (items.map Subtype.val) _ with hm
  have hview : m.view = ⟨slice input (24 + (byteAt input 6).toNat * 8) (readU16 input 16).toNat,
      items.map Subtype.val⟩ := by
    rw [hm, view_withCapabilities, hbase, slice, wireHeaderLength, List.take_of_length_le (by
      rw [List.length_drop]
      omega)]
  have hcountm : m.capabilityCount = byteAt input 6 := by
    rw [← UInt8.toNat_inj, ← length_view_capabilities, hview, List.length_map, hcount']
  have hlenm : m.payloadLength = readU16 input 16 := by
    rw [← UInt16.toNat_inj, ← length_view_payload, hview, length_slice (by omega)]
  refine ⟨hsequence, ?_, ?_⟩
  · rw [hview]
    intro c hc
    obtain ⟨item, -, rfl⟩ := List.mem_map.mp hc
    exact item.property
  · have hsum : input.length = (widths (byteAt input 6).toNat (readU16 input 16).toNat).sum := by
      simp only [widths, List.sum_cons, List.sum_nil]
      omega
    have hv : slice input 4 1 = [wireVersion] := by rw [slice_one (by omega), hversion]
    have h₅ : slice input 5 1 = [0] := by rw [slice_one (by omega), hzero₅]
    have h₆ : slice input 6 1 = [byteAt input 6] := slice_one (by omega)
    have h₇ : slice input 7 1 = [0] := by rw [slice_one (by omega), hzero₇]
    have hz : slice input 18 6 = zeros 6 := eq_zeros_of_anyNonzero (length_slice (by omega)) hzeros
    refine Eq.trans ?_ (eq_flatten_slices hsum).symm
    rw [wire, fields, hview, flatten_tokens, htokens, hcountm, hlenm,
      leBytes_readU16 (by omega), leBytes_readU64 (by omega)]
    simp only [widths, slices, Nat.reduceAdd, hmagic, hv, h₅, h₆, h₇, hz]
    rfl

/-- A frame is accepted if its sequence number and its tokens are. -/
theorem decode_wire {sequence : UInt64} (hsequence : sequence ≠ 0)
    (hminted : ∀ c ∈ m.view.capabilities, c.generation ≠ 0) :
    decode (m.wire sequence) = .ok (sequence, m) := by
  have hcuts := m.slices_wire sequence
  have hlength := m.length_wire sequence
  have hcount := m.capabilityCount_le
  have hpayload := m.payloadLength_le
  simp only [widths, slices, fields, Nat.reduceAdd, List.cons.injEq, and_true] at hcuts
  obtain ⟨hmagic, hversion, hzero₅, hcountByte, hzero₇, hseq, hlen, hzeros, htokens, hbytes⟩ :=
    hcuts
  generalize m.wire sequence = input at *
  rw [wireHeaderLength] at hlength
  have hbyte := byteAt_of_slice hcountByte
  have hreadSeq := readU64_of_slice hseq
  have hreadLen := readU16_of_slice hlen
  have hitems : tokenFormat.readRecords input wireHeaderLength (byteAt input 6).toNat =
      .ok (m.view.capabilities.attachWith _ hminted) := by
    have hrecords : slice input 24 ((m.view.capabilities.attachWith _ hminted).length * 8) =
        tokenFormat.writeRecords (m.view.capabilities.attachWith _ hminted) := by
      rwa [← flatten_tokens, List.attachWith_map_subtype_val, List.length_attachWith,
        length_view_capabilities]
    have hread := tokenFormat.readRecords_writeRecords hrecords
    rwa [List.length_attachWith, length_view_capabilities, ← hbyte] at hread
  have hdrop : input.drop (24 + m.capabilityCount.toNat * 8) = m.view.payload := by
    rw [← hbytes, slice, List.take_of_length_le (by rw [List.length_drop]; omega)]
  unfold decode
  refine bind_eq_ok.mpr ⟨(), refuseIf_eq_ok.mpr ?_, ?_⟩
  · simp only [not_or, not_not, not_lt, ne_eq, Bool.not_eq_true]
    refine ⟨by rw [wireHeaderLength]; omega, hmagic, byteAt_of_slice hversion,
      byteAt_of_slice hzero₅, byteAt_of_slice hzero₇, by rw [hzeros, anyNonzero_zeros]⟩
  dsimp only
  rw [dif_neg (by rw [hbyte]; omega)]
  refine bind_eq_ok.mpr ⟨(), refuseIf_eq_ok.mpr (by rwa [hreadSeq]), ?_⟩
  refine bind_eq_ok.mpr ⟨(), refuseIf_eq_ok.mpr (by rw [hreadLen]; omega), ?_⟩
  refine bind_eq_ok.mpr ⟨(), refuseIf_eq_ok.mpr (by
    rw [hreadLen, hbyte, wireHeaderLength]
    omega), ?_⟩
  refine bind_eq_ok.mpr ⟨⟨_, hitems⟩, attach_eq, ?_⟩
  have hfits : m.view.payload.length ≤ maxInlinePayload := by rwa [length_view_payload]
  refine bind_eq_ok.mpr ⟨ofPayload m.view.payload hfits, new_eq_ok.mpr ?_, ?_⟩
  · rw [wireHeaderLength, hbyte, hdrop]
    exact ⟨hfits, Nat.zero_le _, view_ofPayload hfits⟩
  · refine congrArg Except.ok (Prod.ext hreadSeq (ext_of_view ?_))
    rw [view_withCapabilities, view_ofPayload, List.attachWith_map_subtype_val]

/-- A buffer is accepted iff it is the frame of what it decodes to. -/
theorem decode_eq_ok {input : List UInt8} {sequence : UInt64} :
    decode input = .ok (sequence, m) ↔ sequence ≠ 0 ∧
      (∀ c ∈ m.view.capabilities, c.generation ≠ 0) ∧ m.wire sequence = input := by
  constructor
  · exact wire_of_decode
  · rintro ⟨hsequence, hminted, rfl⟩
    exact decode_wire hsequence hminted

/-- What `encode` returns, for a buffer that is long enough. -/
theorem encode_eq {sequence : UInt64} {output : List UInt8} (hsequence : sequence ≠ 0)
    (hlength : (m.wire sequence).length ≤ output.length) :
    m.encode sequence output = .ok ((m.wire sequence).length,
      m.wire sequence ++ output.drop (m.wire sequence).length) := by
  have hrequired := m.length_wire sequence
  refine bind_eq_ok.mpr ⟨(), refuseIf_eq_ok.mpr hsequence, ?_⟩
  refine bind_eq_ok.mpr ⟨(), refuseIf_eq_ok.mpr (by omega), ?_⟩
  rw [patch, List.take_zero, List.nil_append, Nat.zero_add, ← hrequired]
  rfl

end StoredMessage

/-! ## Receivers -/

/-- `Receiver` (lines 213–215). -/
structure Receiver where
  nextSequence : UInt64
deriving DecidableEq

namespace Receiver

/-- `Receiver::new` (lines 218–220). -/
def new : Receiver := ⟨1⟩

/-- `Receiver::decode` (lines 222–232). -/
def decode (r : Receiver) (input : List UInt8) : Except IpcError StoredMessage × Receiver :=
  match StoredMessage.decode input with
  | .error error => (.error error, r)
  | .ok (sequence, message) =>
    if sequence ≠ r.nextSequence then (.error .replay, r)
    else
      match checkedAdd64 r.nextSequence 1 with
      | none => (.error .sequenceExhausted, r)
      | some next => (.ok message, ⟨next⟩)

/-- A receiver and the buffers it has accepted, with their messages. -/
structure Logged where
  receiver : Receiver
  accepted : List (List UInt8 × StoredMessage)

/-- One buffer is fed to the receiver. -/
def Logged.feed (l : Logged) (input : List UInt8) : Logged :=
  match l.receiver.decode input with
  | (.ok message, receiver) => ⟨receiver, l.accepted ++ [(input, message)]⟩
  | (.error _, receiver) => ⟨receiver, l.accepted⟩

/-- An accepted buffer carries the number that is next, and a rejected one leaves the
    receiver as it was. -/
theorem decode_cases (r : Receiver) (input : List UInt8) :
    (∃ error, r.decode input = (.error error, r)) ∨
    ∃ message next, StoredMessage.decode input = .ok (r.nextSequence, message) ∧
      next.toNat = r.nextSequence.toNat + 1 ∧ r.decode input = (.ok message, ⟨next⟩) := by
  unfold decode
  cases h : StoredMessage.decode input with
  | error error => exact .inl ⟨error, rfl⟩
  | ok result =>
    obtain ⟨sequence, message⟩ := result
    by_cases hsequence : sequence ≠ r.nextSequence
    · exact .inl ⟨.replay, by simp [hsequence]⟩
    · obtain rfl := not_not.mp hsequence
      cases hnext : checkedAdd64 r.nextSequence 1 with
      | none => exact .inl ⟨.sequenceExhausted, by simp⟩
      | some next => exact .inr ⟨message, next, rfl, checkedAdd64_eq_some.mp hnext, by simp⟩

/-- The accepted buffers are numbered from 1 on, and the next number follows them. -/
def Logged.Numbered (l : Logged) : Prop :=
  l.receiver.nextSequence.toNat = l.accepted.length + 1 ∧
    ∀ i (hi : i < l.accepted.length), ∃ sequence : UInt64, sequence.toNat = i + 1 ∧
      StoredMessage.decode (l.accepted[i]).1 = .ok (sequence, (l.accepted[i]).2)

theorem Logged.numbered_feed {l : Logged} (h : l.Numbered) (input : List UInt8) :
    (l.feed input).Numbered := by
  obtain ⟨hnext, hlog⟩ := h
  unfold feed
  rcases l.receiver.decode_cases input with ⟨error, hdecode⟩ | ⟨m, next, hinput, hsucc, hdecode⟩
  · rw [hdecode]
    exact ⟨hnext, hlog⟩
  · rw [hdecode]
    refine ⟨by simp only [List.length_append, List.length_singleton]; omega, ?_⟩
    intro i hi
    rw [List.length_append, List.length_singleton] at hi
    by_cases hlast : i < l.accepted.length
    · simpa only [List.getElem_append_left hlast] using hlog i hlast
    · obtain rfl : i = l.accepted.length := by omega
      exact ⟨l.receiver.nextSequence, hnext, by simpa using hinput⟩

theorem Logged.numbered_run (inputs : List (List UInt8)) :
    (run Logged.feed ⟨new, []⟩ inputs).Numbered := by
  refine run_invariant (P := Logged.Numbered) (fun l input h => numbered_feed h input) ⟨rfl, ?_⟩ inputs
  intro i hi
  exact absurd hi (Nat.not_lt_zero i)

end Receiver

/-- The handles that capability spaces hand out, through `insert` and `derive`. -/
inductive Capability.Minted : Capability → Prop
  | insert {N : ℕ} {s s' : CapabilitySpace N} {object : ObjectId} {rights : Rights}
      {c : Capability} : s.insert object rights = (.ok c, s') → Minted c
  | derive {N M : ℕ} {s : CapabilitySpace N} {d d' : CapabilitySpace M} {source c : Capability}
      {rights : Rights} : s.derive source rights d = (.ok c, d') → Minted c

theorem Capability.Minted.generation_ne {c : Capability} (h : c.Minted) : c.generation ≠ 0 := by
  have hinsert : ∀ {N : ℕ} {s s' : CapabilitySpace N} {object : ObjectId} {rights : Rights},
      s.insert object rights = (.ok c, s') → c.generation ≠ 0 := by
    intro N s s' object rights h
    rcases s.insert_cases object rights with ⟨-, h'⟩ | ⟨i, -, h'⟩
    · rw [h'] at h
      cases h
    · rw [h'] at h
      cases h
      exact (s.entries i).generation_ne
  induction h with
  | insert h => exact hinsert h
  | @derive N M s d d' source c rights h =>
    rcases s.derive_cases source rights d with ⟨⟨error, he⟩, -⟩ | ⟨i, -, -, -, h'⟩
    · rw [h] at he
      cases he
    · exact hinsert (h'.symm.trans h)

/-- **Main theorem.** Encoding and decoding are inverse to each other: the frame of a message
    whose capabilities were minted decodes to the message, and an accepted buffer is the
    frame of what it decodes to. A receiver accepts the numbers 1, 2, 3, … in turn, whatever
    it is fed, and a rejected buffer leaves it unchanged. -/
theorem wire_format :
    (∀ (sequence : UInt64) (m : StoredMessage) (output : List UInt8), sequence ≠ 0 →
      (∀ c ∈ m.view.capabilities, c.Minted) →
      wireHeaderLength + m.capabilityCount.toNat * 8 + m.payloadLength.toNat ≤ output.length →
      ∃ length output', m.encode sequence output = .ok (length, output') ∧
        StoredMessage.decode (output'.take length) = .ok (sequence, m)) ∧
    (∀ (input : List UInt8) (sequence : UInt64) (m : StoredMessage) (output : List UInt8),
      StoredMessage.decode input = .ok (sequence, m) → input.length ≤ output.length →
      m.encode sequence output = .ok (input.length, input ++ output.drop input.length)) ∧
    (∀ inputs, (run Receiver.Logged.feed ⟨Receiver.new, []⟩ inputs).Numbered) ∧
    ∀ (r : Receiver) (input : List UInt8) (error : IpcError),
      (r.decode input).1 = .error error → (r.decode input).2 = r := by
  refine ⟨?_, ?_, Receiver.Logged.numbered_run, ?_⟩
  · intro sequence m output hsequence hminted hlength
    rw [← m.length_wire sequence] at hlength
    refine ⟨_, _, StoredMessage.encode_eq hsequence hlength, ?_⟩
    rw [List.take_left]
    exact StoredMessage.decode_wire hsequence fun c hc => (hminted c hc).generation_ne
  · intro input sequence m output h hlength
    obtain ⟨hsequence, -, rfl⟩ := StoredMessage.decode_eq_ok.mp h
    exact StoredMessage.encode_eq hsequence hlength
  · intro r input error h
    rcases r.decode_cases input with ⟨_, hdecode⟩ | ⟨_, _, -, -, hdecode⟩
    · rw [hdecode]
    · rw [hdecode] at h
      cases h

end Mrml.Kernel
