import Mrml.Common.Int
import Mrml.Crypto.AesCtr
import Mrml.Crypto.Sha256
import Mrml.Ssh.Binary

/-!
# SSH binary packets

Model of `encode_plain_packet`, `decode_plain_packet`, `EncryptedPacketWriter` and
`EncryptedPacketReader` of `crates/mrml-ssh/src/protocol.rs` (lines 150–248).

Results:
* `decodePlainPacket_packet`: a packet in the form that the writer gives it is read back.
* `decode_encode`: a reader in the state of the writer reads an encrypted packet back, and comes
  to the state of the writer again.
* `packets_lockstep`: a reader that starts as the writer does recovers every list of packets.
-/

namespace Mrml.Ssh

open Crypto

/-! ## Plain packets -/

/-- `value & !mask` of `usize`. -/
def clearBits (value mask : ℕ) : ℕ := (UInt64.ofNat value &&& ~~~UInt64.ofNat mask).toNat

/-- `usize::is_power_of_two`. -/
def isPowerOfTwo (value : ℕ) : Prop := value ≠ 0 ∧ value &&& (value - 1) = 0

instance : DecidablePred isPowerOfTwo := fun _ => instDecidableAnd

/-- A packet: its length, the length of the padding, the payload and the padding. -/
def packet (payload padding : List UInt8) : List UInt8 :=
  beBytes 4 (payload.length + (padding.length + 1)) ++
    UInt8.ofNat padding.length :: (payload ++ padding)

/-- `encode_plain_packet` (lines 152–170). `random` is what `fill_random` draws, if it can. The
additions cannot overflow, as the payload has at most `maxString` bytes. -/
def encodePlainPacket (payload : List UInt8) (blockSize : ℕ) (random : Option (ℕ → UInt8)) :
    Except ProtocolError (List UInt8) := do
  refuseIf (payload = [] ∨ payload.length > maxString ∨ blockSize < 8 ∨ ¬isPowerOfTwo blockSize)
    ProtocolError.invalidPacket
  let body := payload.length + 5
  let aligned := clearBits (body + (blockSize - 1)) (blockSize - 1)
  refuseIf (aligned < body) ProtocolError.length
  let padding := if aligned - body < 4 then aligned - body + blockSize else aligned - body
  refuseIf (padding > 255) ProtocolError.invalidPacket
  let byte ← okOr random ProtocolError.entropy
  return packet payload ((List.range padding).map byte)

/-- `decode_plain_packet` (lines 172–184). -/
def decodePlainPacket (source : List UInt8) (blockSize : ℕ) :
    Except ProtocolError (List UInt8 × ℕ) := do
  refuseIf (blockSize < 8 ∨ ¬isPowerOfTwo blockSize) ProtocolError.invalidPacket
  refuseIf (source.length < 4) ProtocolError.truncated
  let length := beNat (source.take 4)
  refuseIf (length < 6 ∨ length > maxString + 256 ∨ (length + 4) % blockSize ≠ 0)
    ProtocolError.invalidPacket
  let total := length + 4
  refuseIf (source.length < total) ProtocolError.truncated
  let padding := (byteAt source 4).toNat
  refuseIf (padding < 4 ∨ padding + 1 > length) ProtocolError.invalidPacket
  let payloadEnd := total - padding
  refuseIf (payloadEnd ≤ 5) ProtocolError.invalidPacket
  return (slice source 5 (payloadEnd - 5), total)

/-! ## Encrypted packets -/

/-- `EncryptedPacketWriter` (lines 186–191). -/
structure EncryptedPacketWriter where
  key : List UInt8
  counter : ℕ
  macKey : List UInt8
  sequence : UInt32
deriving DecidableEq

/-- `EncryptedPacketReader` (lines 209–214). -/
structure EncryptedPacketReader where
  key : List UInt8
  counter : ℕ
  macKey : List UInt8
  sequence : UInt32
deriving DecidableEq

/-- The MAC of a packet under its sequence number (lines 199 and 232). -/
def packetMac (macKey : List UInt8) (sequence : UInt32) (plain : List UInt8) : List UInt8 :=
  hmacSha256 macKey [beBytes 4 sequence.toNat, plain]

namespace EncryptedPacketWriter

/-- `EncryptedPacketWriter::new` (lines 194–196). -/
def new (key : List UInt8) (counter : ℕ) (macKey : List UInt8) : EncryptedPacketWriter :=
  { key, counter, macKey, sequence := 0 }

/-- `EncryptedPacketWriter::encode` (lines 197–206). An error comes before the first assignment
to the writer. -/
def encode (writer : EncryptedPacketWriter) (payload : List UInt8)
    (random : Option (ℕ → UInt8)) :
    Except ProtocolError (List UInt8 × EncryptedPacketWriter) := do
  let plain ← encodePlainPacket payload 16 random
  let mac := packetMac writer.macKey writer.sequence plain
  let (output, counter) ← okOr (aes128CtrXor writer.key writer.counter plain) ProtocolError.length
  return (output ++ mac, { writer with counter, sequence := writer.sequence + 1 })

end EncryptedPacketWriter

namespace EncryptedPacketReader

/-- `EncryptedPacketReader::new` (lines 217–219). -/
def new (key : List UInt8) (counter : ℕ) (macKey : List UInt8) : EncryptedPacketReader :=
  { key, counter, macKey, sequence := 0 }

/-- The length of the encrypted part by the first block (lines 222–226, 243–246). -/
def encryptedLength (reader : EncryptedPacketReader) (firstBlock : List UInt8) :
    Except ProtocolError ℕ := do
  let (first, _) ← okOr (aes128CtrXor reader.key reader.counter firstBlock) ProtocolError.length
  let encryptedLen := beNat (first.take 4) + 4
  refuseIf (encryptedLen < 16 ∨ encryptedLen > maxString + 260 ∨ encryptedLen % 16 ≠ 0)
    ProtocolError.invalidPacket
  return encryptedLen

/-- `EncryptedPacketReader::wire_length` (lines 242–247). -/
def wireLength (reader : EncryptedPacketReader) (firstBlock : List UInt8) :
    Except ProtocolError ℕ := do
  let encrypted ← reader.encryptedLength firstBlock
  return encrypted + 32

/-- The comparison of the tags (lines 233–235). -/
def difference (expected tag : List UInt8) : UInt8 :=
  (List.zipWith (· ^^^ ·) expected tag).foldl (· ||| ·) 0

/-- `EncryptedPacketReader::decode` up to the assignments (lines 221–236): the payload, the size
on the wire and the next counter. -/
def authenticate (reader : EncryptedPacketReader) (source : List UInt8) :
    Except ProtocolError (List UInt8 × ℕ × ℕ) := do
  refuseIf (source.length < 16 + 32) ProtocolError.truncated
  let encryptedLen ← reader.encryptedLength (source.take 16)
  let total := encryptedLen + 32
  refuseIf (source.length < total) ProtocolError.truncated
  let (plain, next) ← okOr (aes128CtrXor reader.key reader.counter (source.take encryptedLen))
    ProtocolError.length
  let expected := packetMac reader.macKey reader.sequence plain
  refuseIf (difference expected (slice source encryptedLen 32) ≠ 0) ProtocolError.authentication
  let (payload, _) ← decodePlainPacket plain 16
  return (payload, total, next)

/-- `EncryptedPacketReader::decode` (lines 220–241), with the reader after it. -/
def decode (reader : EncryptedPacketReader) (source : List UInt8) :
    Except ProtocolError (List UInt8 × ℕ) × EncryptedPacketReader :=
  match reader.authenticate source with
  | .error error => (.error error, reader)
  | .ok (payload, total, next) =>
    (.ok (payload, total), { reader with counter := next, sequence := reader.sequence + 1 })

end EncryptedPacketReader

/-! ## The padding -/

theorem clearBits_eq {value blockSize : ℕ} (hvalue : value < 2 ^ 64) (hlt : blockSize < 2 ^ 64)
    (hpow : isPowerOfTwo blockSize) :
    clearBits value (blockSize - 1) = value - value % blockSize := by
  obtain ⟨k, rfl⟩ := Nat.ne_zero_and_sub_one_eq_zero_iff_isPowerOfTwo.mp hpow
  have hpos := Nat.two_pow_pos k
  have hmask : (UInt64.ofNat value &&& UInt64.ofNat (2 ^ k - 1)).toNat = value % 2 ^ k := by
    rw [UInt64.toNat_and, UInt64.toNat_ofNat', UInt64.toNat_ofNat', Nat.mod_eq_of_lt hvalue,
      Nat.mod_eq_of_lt (by omega), Nat.and_two_pow_sub_one_eq_mod]
  have hsplit := toNat_and_add_and_not (UInt64.ofNat value) (UInt64.ofNat (2 ^ k - 1))
  rw [hmask, UInt64.toNat_ofNat', Nat.mod_eq_of_lt hvalue] at hsplit
  rw [clearBits]
  omega

/-- A payload and a padding that the decoder takes at this block size. -/
structure WellPadded (payload padding : List UInt8) (blockSize : ℕ) : Prop where
  payload_ne_nil : payload ≠ []
  payload_le : payload.length ≤ maxString
  four_le : 4 ≤ padding.length
  padding_le : padding.length ≤ 255
  aligned : (payload.length + padding.length + 5) % blockSize = 0
  eight_le : 8 ≤ blockSize
  power : isPowerOfTwo blockSize

/-- What `encode_plain_packet` writes is well padded, whatever is drawn. -/
theorem encodePlainPacket_spec {payload wire : List UInt8} {blockSize : ℕ}
    {random : Option (ℕ → UInt8)} (hblock : blockSize < 2 ^ 32)
    (h : encodePlainPacket payload blockSize random = .ok wire) :
    ∃ padding, WellPadded payload padding blockSize ∧ wire = packet payload padding := by
  obtain ⟨_, hrefuse, h⟩ := bind_eq_ok.mp h
  obtain ⟨_, _, h⟩ := bind_eq_ok.mp h
  obtain ⟨_, hmax, h⟩ := bind_eq_ok.mp h
  obtain ⟨byte, _, h⟩ := bind_eq_ok.mp h
  have hnot := refuseIf_eq_ok.mp hrefuse
  push Not at hnot
  obtain ⟨hne, hle, height, hpower⟩ := hnot
  have hstring : maxString < 2 ^ 32 := by decide
  have hpadding := refuseIf_eq_ok.mp hmax
  rw [clearBits_eq (by omega) (by omega) hpower] at h hpadding
  have hmod := Nat.mod_lt (payload.length + 5 + (blockSize - 1)) (show 0 < blockSize by omega)
  have hdiv := Nat.div_add_mod (payload.length + 5 + (blockSize - 1)) blockSize
  have haligned : (payload.length + 5 + (blockSize - 1) -
      (payload.length + 5 + (blockSize - 1)) % blockSize) % blockSize = 0 := by
    rw [show payload.length + 5 + (blockSize - 1) -
      (payload.length + 5 + (blockSize - 1)) % blockSize =
        blockSize * ((payload.length + 5 + (blockSize - 1)) / blockSize) by omega]
    exact Nat.mul_mod_right _ _
  refine ⟨_, ?_, (Except.ok.inj h).symm⟩
  constructor <;> try assumption
  all_goals
    rw [List.length_map, List.length_range]
  · split_ifs <;> omega
  · exact Nat.le_of_not_lt hpadding
  · split_ifs
    · rw [show payload.length + (payload.length + 5 + (blockSize - 1) -
        (payload.length + 5 + (blockSize - 1)) % blockSize - (payload.length + 5) + blockSize) + 5 =
          (payload.length + 5 + (blockSize - 1) -
            (payload.length + 5 + (blockSize - 1)) % blockSize) + blockSize by omega,
        Nat.add_mod_right]
      exact haligned
    · rw [show payload.length + (payload.length + 5 + (blockSize - 1) -
        (payload.length + 5 + (blockSize - 1)) % blockSize - (payload.length + 5)) + 5 =
          payload.length + 5 + (blockSize - 1) -
            (payload.length + 5 + (blockSize - 1)) % blockSize by omega]
      exact haligned

theorem length_packet (payload padding : List UInt8) :
    (packet payload padding).length = payload.length + padding.length + 5 := by
  rw [packet, List.length_append, length_beBytes, List.length_cons, List.length_append]
  omega

theorem beNat_packet {payload padding : List UInt8} {blockSize : ℕ}
    (h : WellPadded payload padding blockSize) (rest : List UInt8) :
    beNat ((packet payload padding ++ rest).take 4) = payload.length + padding.length + 1 := by
  have hstring : maxString < 2 ^ 31 := by decide
  have hle := h.payload_le
  have hpadding := h.padding_le
  rw [packet, List.append_assoc, List.take_left' (length_beBytes _ _), beNat_beBytes,
    Nat.mod_eq_of_lt (by omega)]
  omega

/-- A well padded packet is read back. -/
theorem decodePlainPacket_packet {payload padding : List UInt8} {blockSize : ℕ}
    (h : WellPadded payload padding blockSize) (rest : List UInt8) :
    decodePlainPacket (packet payload padding ++ rest) blockSize =
      .ok (payload, (packet payload padding).length) := by
  have hpos := List.length_pos_of_ne_nil h.payload_ne_nil
  have hle := h.payload_le
  have hpadding := h.padding_le
  have hfour := h.four_le
  have height := h.eight_le
  have hlength := length_packet payload padding
  have hsource : (packet payload padding ++ rest).length =
      payload.length + padding.length + 5 + rest.length := by
    rw [List.length_append, hlength]
  have hbyte : byteAt (packet payload padding ++ rest) 4 = UInt8.ofNat padding.length := by
    rw [byteAt, packet, List.append_assoc, List.getD_append_right _ _ _ _ (by simp),
      length_beBytes]
    rfl
  have hnat : (UInt8.ofNat padding.length).toNat = padding.length := by
    rw [UInt8.toNat_ofNat']
    omega
  have hslice : slice (packet payload padding ++ rest) 5 payload.length = payload := by
    rw [packet, List.append_assoc, List.cons_append, List.append_assoc, slice,
      show 5 = (beBytes 4 (payload.length + (padding.length + 1))).length + 1 by simp,
      List.drop_length_add_append]
    exact List.take_left
  have haligned := h.aligned
  rw [decodePlainPacket, refuseIf_of_not (by simp only [not_or, not_not]; exact ⟨by omega, h.power⟩),
    ok_bind, refuseIf_of_not (by omega), ok_bind]
  dsimp only
  rw [beNat_packet h, refuseIf_of_not (by
    simp only [not_or, not_not]
    exact ⟨by omega, by omega, haligned⟩), ok_bind, refuseIf_of_not (by omega), ok_bind, hbyte,
    hnat, refuseIf_of_not (by omega), ok_bind, refuseIf_of_not (by omega), ok_bind,
    show payload.length + padding.length + 1 + 4 - padding.length - 5 = payload.length by omega,
    hslice, hlength]
  rfl

/-! ## The two ends of the stream -/

/-- The reader that has come as far as the writer. -/
def EncryptedPacketWriter.peer (writer : EncryptedPacketWriter) : EncryptedPacketReader :=
  { key := writer.key, counter := writer.counter, macKey := writer.macKey,
    sequence := writer.sequence }

/-- What `encode` puts on the wire. -/
structure Encoded (writer : EncryptedPacketWriter) (payload wire : List UInt8)
    (writer' : EncryptedPacketWriter) (padding cipher : List UInt8) : Prop where
  padded : WellPadded payload padding 16
  encrypted : aes128CtrXor writer.key writer.counter (packet payload padding) =
    some (cipher, writer'.counter)
  wire_eq : wire = cipher ++ packetMac writer.macKey writer.sequence (packet payload padding)
  writer_eq : writer' =
    { writer with counter := writer'.counter, sequence := writer.sequence + 1 }

theorem encode_spec {writer writer' : EncryptedPacketWriter} {payload wire : List UInt8}
    {random : Option (ℕ → UInt8)} (h : writer.encode payload random = .ok (wire, writer')) :
    ∃ padding cipher, Encoded writer payload wire writer' padding cipher := by
  obtain ⟨plain, hplain, h⟩ := bind_eq_ok.mp h
  obtain ⟨⟨cipher, counter⟩, hctr, h⟩ := bind_eq_ok.mp h
  obtain ⟨hwire, hwriter⟩ := Prod.mk.inj (Except.ok.inj h)
  obtain ⟨padding, hpadded, rfl⟩ := encodePlainPacket_spec (by decide) hplain
  subst hwriter
  exact ⟨padding, cipher, hpadded, okOr_eq_ok.mp hctr, hwire.symm, rfl⟩

@[simp] theorem length_packetMac (macKey : List UInt8) (sequence : UInt32) (plain : List UInt8) :
    (packetMac macKey sequence plain).length = 32 := length_hmacSha256 _ _

section Encoded

variable {writer writer' : EncryptedPacketWriter} {payload wire padding cipher : List UInt8}

theorem Encoded.length_cipher (h : Encoded writer payload wire writer' padding cipher) :
    cipher.length = payload.length + padding.length + 5 := by
  rw [(aes128CtrXor_cancel h.encrypted).1, length_packet]

theorem Encoded.length_wire (h : Encoded writer payload wire writer' padding cipher) :
    wire.length = cipher.length + 32 := by
  rw [h.wire_eq, List.length_append, length_packetMac]

theorem Encoded.sixteen_le (h : Encoded writer payload wire writer' padding cipher) :
    16 ≤ cipher.length := by
  have haligned := h.padded.aligned
  have hlength := h.length_cipher
  omega

/-- The first block of the wire, decrypted alone, starts the packet. -/
theorem Encoded.encryptedLength (h : Encoded writer payload wire writer' padding cipher)
    {source : List UInt8} (hsource : source.take 16 = cipher.take 16) :
    writer.peer.encryptedLength (source.take 16) = .ok cipher.length := by
  have hle := h.padded.payload_le
  have hpadding := h.padded.padding_le
  have haligned := h.padded.aligned
  have hcipher := h.length_cipher
  have hsixteen := h.sixteen_le
  obtain ⟨hlength, hback⟩ := aes128CtrXor_cancel h.encrypted
  obtain ⟨hlt, hplain, hcounter⟩ := aes128CtrXor_eq_some.mp hback
  obtain ⟨blocks, hblocks⟩ : ∃ blocks, blockCount cipher.length = blocks + 1 :=
    ⟨blockCount cipher.length - 1, by rw [blockCount]; omega⟩
  have hone : blockCount (source.take 16).length = 1 := by
    rw [hsource, List.length_take, Nat.min_eq_left hsixteen]
    rfl
  have hfirst : aes128CtrXor writer.peer.key writer.peer.counter (source.take 16) =
      some ((packet payload padding).take 16, writer.counter + 1) := by
    refine aes128CtrXor_eq_some.mpr ⟨by omega, ?_, by rw [hone]; rfl⟩
    rw [hone, hsource, hplain, hblocks]
    exact take_xorStream length_ctrStream blocks writer.counter cipher
  have hbytes : beNat (((packet payload padding).take 16).take 4) =
      payload.length + padding.length + 1 := by
    have hread := beNat_packet h.padded []
    rwa [List.append_nil, ← Nat.min_eq_left (show 4 ≤ 16 by decide), ← List.take_take] at hread
  rw [EncryptedPacketReader.encryptedLength, hfirst, okOr_some, ok_bind]
  dsimp only
  rw [hbytes, refuseIf_of_not (by omega), ok_bind, hcipher]
  rfl

/-- The size of the packet is known from its first block. -/
theorem Encoded.wireLength (h : Encoded writer payload wire writer' padding cipher)
    (rest : List UInt8) : writer.peer.wireLength ((wire ++ rest).take 16) = .ok wire.length := by
  have hsource : (wire ++ rest).take 16 = cipher.take 16 := by
    rw [h.wire_eq, List.append_assoc, List.take_append_of_le_length h.sixteen_le]
  rw [EncryptedPacketReader.wireLength, h.encryptedLength hsource, ok_bind, h.length_wire]
  rfl

/-- **Step lemma.** The reader reads the packet, and comes as far as the writer has come. -/
theorem Encoded.decode (h : Encoded writer payload wire writer' padding cipher)
    (rest : List UInt8) :
    writer.peer.decode (wire ++ rest) = (.ok (payload, wire.length), writer'.peer) := by
  have hwire := h.length_wire
  have hsixteen := h.sixteen_le
  have hlength : (wire ++ rest).length = wire.length + rest.length := List.length_append
  have hsource : (wire ++ rest).take 16 = cipher.take 16 := by
    rw [h.wire_eq, List.append_assoc, List.take_append_of_le_length hsixteen]
  have htake : (wire ++ rest).take cipher.length = cipher := by
    rw [h.wire_eq, List.append_assoc, List.take_left]
  have hslice : slice (wire ++ rest) cipher.length 32 =
      packetMac writer.macKey writer.sequence (packet payload padding) := by
    rw [h.wire_eq, List.append_assoc, slice, List.drop_left]
    exact List.take_left' (length_packetMac _ _ _)
  have hback : aes128CtrXor writer.peer.key writer.peer.counter cipher =
      some (packet payload padding, writer'.counter) := (aes128CtrXor_cancel h.encrypted).2
  have hplain := decodePlainPacket_packet h.padded []
  rw [List.append_nil] at hplain
  have hauth : writer.peer.authenticate (wire ++ rest) =
      .ok (payload, wire.length, writer'.counter) := by
    rw [EncryptedPacketReader.authenticate, refuseIf_of_not (by omega), ok_bind,
      h.encryptedLength hsource, ok_bind]
    dsimp only
    rw [refuseIf_of_not (by omega), ok_bind, htake, hback, okOr_some, ok_bind]
    dsimp only
    rw [hslice, show packetMac writer.peer.macKey writer.peer.sequence (packet payload padding) =
        packetMac writer.macKey writer.sequence (packet payload padding) from rfl,
      EncryptedPacketReader.difference, foldl_or_xor_self, refuseIf_of_not (fun hne => hne rfl), ok_bind, hplain, ok_bind, ← hwire]
    rfl
  rw [EncryptedPacketReader.decode, hauth]
  dsimp only
  rw [h.writer_eq]
  rfl

/-- As long as a part of the packet is missing, the reader waits. -/
theorem Encoded.decode_of_prefix (h : Encoded writer payload wire writer' padding cipher)
    {front : List UInt8} (hfront : front <+: wire) (hne : front ≠ wire) :
    writer.peer.decode front = (.error .truncated, writer.peer) := by
  have hwire := h.length_wire
  have hlt : front.length < wire.length := by
    refine lt_of_le_of_ne hfront.length_le fun heq => hne ?_
    exact hfront.eq_of_length heq
  have hauth : writer.peer.authenticate front = .error .truncated := by
    rw [EncryptedPacketReader.authenticate]
    by_cases hshort : front.length < 16 + 32
    · rw [refuseIf, if_pos hshort]
      rfl
    · have hsource : front.take 16 = cipher.take 16 := by
        obtain ⟨rest, hrest⟩ := hfront
        have htake : (front ++ rest).take 16 = front.take 16 :=
          List.take_append_of_le_length (by omega)
        rw [← htake, hrest, h.wire_eq, List.take_append_of_le_length h.sixteen_le]
      rw [refuseIf_of_not hshort, ok_bind, h.encryptedLength hsource, ok_bind]
      dsimp only
      rw [refuseIf, if_pos (by omega)]
      rfl
  rw [EncryptedPacketReader.decode, hauth]

end Encoded

/-- A decode that fails leaves the reader as it was. -/
theorem decode_of_error {reader : EncryptedPacketReader} {source : List UInt8}
    {error : ProtocolError} (h : (reader.decode source).1 = .error error) :
    (reader.decode source).2 = reader := by
  rw [EncryptedPacketReader.decode] at h ⊢
  cases hauth : reader.authenticate source with
  | error error => rfl
  | ok result =>
    rw [hauth] at h
    exact nomatch h

/-! ## Lists of packets -/

/-- The payloads go through `encode` in turn, each with what is drawn for its padding. -/
def encodeAll (writer : EncryptedPacketWriter) :
    List (List UInt8 × Option (ℕ → UInt8)) → Except ProtocolError (List (List UInt8))
  | [] => return []
  | (payload, random) :: items => do
    let (wire, writer) ← writer.encode payload random
    return wire :: (← encodeAll writer items)

/-- The reader recovers the payloads from the stream, packet by packet: the size of a packet is
known from its first block, a part of it is left for later, and as soon as it is there it is
decoded, no matter how much of the stream has come with it. -/
def Recovers : EncryptedPacketReader → List (List UInt8) → List (List UInt8) → List UInt8 → Prop
  | _, [], [], stream => stream = []
  | reader, payload :: payloads, wire :: wires, stream =>
    reader.wireLength (stream.take 16) = .ok wire.length ∧
    (∀ front, front <+: stream → front.length < wire.length →
      reader.decode front = (.error .truncated, reader)) ∧
    ∃ reader',
      (∀ front, front <+: stream → wire.length ≤ front.length →
        reader.decode front = (.ok (payload, wire.length), reader')) ∧
      Recovers reader' payloads wires (stream.drop wire.length)
  | _, _, _, _ => False

/-- **Run lemma.** A reader that has come as far as the writer recovers what is written next. -/
theorem recovers_of_encodeAll {items : List (List UInt8 × Option (ℕ → UInt8))}
    {writer : EncryptedPacketWriter} {wires : List (List UInt8)}
    (h : encodeAll writer items = .ok wires) :
    Recovers writer.peer (items.map Prod.fst) wires wires.flatten := by
  induction items generalizing writer wires with
  | nil =>
    obtain rfl := Except.ok.inj h
    exact rfl
  | cons item items ih =>
    obtain ⟨⟨wire, writer'⟩, hencode, h⟩ := bind_eq_ok.mp h
    obtain ⟨wires', hrest, h⟩ := bind_eq_ok.mp h
    obtain rfl := Except.ok.inj h
    obtain ⟨padding, cipher, hencoded⟩ := encode_spec hencode
    rw [List.map_cons, List.flatten_cons]
    refine ⟨hencoded.wireLength _, ?_, writer'.peer, ?_, ?_⟩
    · intro front hfront hlt
      have hleads : front <+: wire :=
        List.prefix_of_prefix_length_le hfront (List.prefix_append _ _) hlt.le
      exact hencoded.decode_of_prefix hleads fun heq => absurd (heq ▸ hlt) (lt_irrefl _)
    · intro front hfront hle
      obtain ⟨rest, rfl⟩ : wire <+: front :=
        List.prefix_of_prefix_length_le (List.prefix_append _ _) hfront hle
      exact hencoded.decode rest
    · rw [List.drop_left]
      exact ih hrest

/-- **Main theorem.** A reader with the key, the counter and the MAC key of the writer recovers
every list of payloads that the writer takes in turn, whatever is drawn for the padding; and a
decode that fails leaves the reader as it was. -/
theorem packets_lockstep (key : List UInt8) (counter : ℕ) (macKey : List UInt8) :
    (∀ (items : List (List UInt8 × Option (ℕ → UInt8))) (wires : List (List UInt8)),
      encodeAll (.new key counter macKey) items = .ok wires →
        Recovers (.new key counter macKey) (items.map Prod.fst) wires wires.flatten) ∧
    ∀ (reader : EncryptedPacketReader) (source : List UInt8) (error : ProtocolError),
      (reader.decode source).1 = .error error → (reader.decode source).2 = reader :=
  ⟨fun _ _ h => recovers_of_encodeAll h, fun _ _ _ h => decode_of_error h⟩

/-- Two payloads, with different padding. -/
theorem packets_lockstep_two :
    ∃ wires, encodeAll (.new [] 7 []) [([5], some fun _ => 1), ([5, 6], some UInt8.ofNat)] =
        .ok wires ∧
      Recovers (.new [] 7 []) [[5], [5, 6]] wires wires.flatten :=
  ⟨_, rfl, (packets_lockstep [] 7 []).1 [([5], some fun _ => 1), ([5, 6], some UInt8.ofNat)] _ rfl⟩

end Mrml.Ssh
