import Mrml.Common.Run
import Mrml.Ssh.Packet

/-!
# The packets of an SSH connection

Model of `SshWire` of `crates/mrml-ssh/src/client.rs` (lines 8–15): packets go out and come in
plain until `enable_encryption`, and encrypted from then on. RFC 4253, section 6.4, numbers the
packets of a connection from its start and never resets the number.

Results:
* `Connection.inv_step`: the sequence number of a cipher state is the one that it started with,
  advanced by the packets since `enable_encryption`.
* `sequence_numbers_iff`: every packet of a run carries the number of the packets before it
  exactly if every cipher state starts at that number.
-/

namespace Mrml.Ssh

/-- `WireError` (line 51), as far as `send` and `receive` return it. -/
inductive WireError
  | read
  | write
  | protocol (error : ProtocolError)
deriving DecidableEq

/-- `SshWire` (line 8), without the stream. -/
structure SshWire where
  reader : Option EncryptedPacketReader
  writer : Option EncryptedPacketWriter
deriving DecidableEq

namespace SshWire

/-- The packet that `send` hands to the stream (line 13), and the wire after that. -/
def encode (wire : SshWire) (payload : List UInt8) (random : Option (ℕ → UInt8)) :
    Except ProtocolError (List UInt8 × SshWire) :=
  match wire.writer with
  | some writer => do
    let (packet, writer) ← writer.encode payload random
    return (packet, { wire with writer := some writer })
  | none => do return (← encodePlainPacket payload 8 random, wire)

/-- `SshWire::send` (line 13). `written` says whether the stream takes the packet. -/
def send (wire : SshWire) (payload : List UInt8) (random : Option (ℕ → UInt8)) (written : Bool) :
    Except WireError Unit × SshWire :=
  match wire.encode payload random with
  | .error error => (.error (.protocol error), wire)
  | .ok (_, wire) => (if written then .ok () else .error .write, wire)

/-- `receive` without encryption (line 14). The stream delivers `incoming`. -/
def receivePlain (incoming : List UInt8) : Except WireError (List UInt8) := do
  refuseIf (incoming.length < 4) WireError.read
  let length := beNat (incoming.take 4)
  refuseIf (length < 6 ∨ length > 1024 * 1024 + 256) (WireError.protocol .invalidPacket)
  let total := length + 4
  refuseIf (incoming.length < total) WireError.read
  let (payload, _) ← (decodePlainPacket (incoming.take total) 8).mapError WireError.protocol
  return payload

/-- The whole packet that `receive` reads with encryption (line 14). -/
def readPacket (reader : EncryptedPacketReader) (incoming : List UInt8) :
    Except WireError (List UInt8) := do
  refuseIf (incoming.length < 16) WireError.read
  let total ← (reader.wireLength (incoming.take 16)).mapError WireError.protocol
  refuseIf (incoming.length < total) WireError.read
  return incoming.take total

/-- `SshWire::receive` (line 14). -/
def receive (wire : SshWire) (incoming : List UInt8) : Except WireError (List UInt8) × SshWire :=
  match wire.reader with
  | none => (receivePlain incoming, wire)
  | some reader =>
    match readPacket reader incoming with
    | .error error => (.error error, wire)
    | .ok packet =>
      let (result, reader) := reader.decode packet
      ((result.map Prod.fst).mapError WireError.protocol, { wire with reader := some reader })

/-- `SshWire::enable_encryption` (line 12). -/
def enableEncryption (wire : SshWire) (reader : EncryptedPacketReader)
    (writer : EncryptedPacketWriter) : SshWire :=
  { wire with reader := some reader, writer := some writer }

end SshWire

/-! ## Runs of a connection -/

/-- What is done with a connection. -/
inductive WireOp
  | send (payload : List UInt8) (random : Option (ℕ → UInt8)) (written : Bool)
  | receive (incoming : List UInt8)
  | enableEncryption (reader : EncryptedPacketReader) (writer : EncryptedPacketWriter)

/-- A connection with the counts that the standard speaks of, which the code does not keep: the
packets sent and received so far, and the counts and the sequence numbers at the last
`enable_encryption`. -/
structure Connection where
  wire : SshWire
  sent : ℕ
  received : ℕ
  sentBefore : ℕ
  receivedBefore : ℕ
  writerStart : UInt32
  readerStart : UInt32

namespace Connection

/-- `SshWire::connect` (line 10): no packet yet, and no encryption. -/
def opened : Connection :=
  { wire := { reader := none, writer := none }, sent := 0, received := 0, sentBefore := 0,
    receivedBefore := 0, writerStart := 0, readerStart := 0 }

/-- The packet goes to the stream. -/
def Sends (c : Connection) (payload : List UInt8) (random : Option (ℕ → UInt8)) : Prop :=
  (c.wire.encode payload random).isOk

/-- A packet is taken from the stream. -/
def Receives (c : Connection) (incoming : List UInt8) : Prop := (c.wire.receive incoming).1.isOk

instance (c : Connection) (payload : List UInt8) (random : Option (ℕ → UInt8)) :
    Decidable (c.Sends payload random) := inferInstanceAs (Decidable (_ = true))

instance (c : Connection) (incoming : List UInt8) : Decidable (c.Receives incoming) :=
  inferInstanceAs (Decidable (_ = true))

/-- One operation, with its packet counted. -/
def step (c : Connection) : WireOp → Connection
  | .send payload random written =>
    { c with
      wire := (c.wire.send payload random written).2
      sent := if c.Sends payload random then c.sent + 1 else c.sent }
  | .receive incoming =>
    { c with
      wire := (c.wire.receive incoming).2
      received := if c.Receives incoming then c.received + 1 else c.received }
  | .enableEncryption reader writer =>
    { c with
      wire := c.wire.enableEncryption reader writer
      sentBefore := c.sent
      receivedBefore := c.received
      writerStart := writer.sequence
      readerStart := reader.sequence }

/-- RFC 4253, section 6.4: the sequence number that goes into the MAC of an encrypted packet is
the number of the packets before it. -/
def Numbered (c : Connection) : WireOp → Prop
  | .send payload random _ => ∀ writer, c.wire.writer = some writer → c.Sends payload random →
      writer.sequence = UInt32.ofNat c.sent
  | .receive incoming => ∀ reader, c.wire.reader = some reader → c.Receives incoming →
      reader.sequence = UInt32.ofNat c.received
  | .enableEncryption _ _ => True

/-- The cipher state that an encrypted packet uses started at the number of the packets before
`enable_encryption`. -/
def Continued (c : Connection) : WireOp → Prop
  | .send payload random _ => c.wire.writer.isSome → c.Sends payload random →
      c.writerStart = UInt32.ofNat c.sentBefore
  | .receive incoming => c.wire.reader.isSome → c.Receives incoming →
      c.readerStart = UInt32.ofNat c.receivedBefore
  | .enableEncryption _ _ => True

/-- A cipher state has advanced by the packets since `enable_encryption`. -/
structure Inv (c : Connection) : Prop where
  writer : ∀ writer, c.wire.writer = some writer →
    writer.sequence + UInt32.ofNat c.sentBefore = c.writerStart + UInt32.ofNat c.sent
  reader : ∀ reader, c.wire.reader = some reader →
    reader.sequence + UInt32.ofNat c.receivedBefore = c.readerStart + UInt32.ofNat c.received

theorem inv_opened : opened.Inv := by
  constructor <;> exact fun _ h => nomatch h

/-- One more packet, and one more in the sequence number. -/
theorem succ_sequence {sequence start : UInt32} {before count : ℕ}
    (h : sequence + UInt32.ofNat before = start + UInt32.ofNat count) :
    sequence + 1 + UInt32.ofNat before = start + UInt32.ofNat (count + 1) := by
  rw [UInt32.ofNat_add, ← UInt32.add_assoc, ← h, UInt32.add_assoc, UInt32.add_assoc,
    UInt32.add_comm 1]
  rfl

/-- What `send` does to the wire: the writer advances with the packet that it encodes. -/
theorem send_wire (c : Connection) (payload : List UInt8) (random : Option (ℕ → UInt8))
    (written : Bool) :
    (c.wire.send payload random written).2.reader = c.wire.reader ∧
      ∀ writer', (c.wire.send payload random written).2.writer = some writer' →
        ∃ writer, c.wire.writer = some writer ∧ writer'.sequence =
          if c.Sends payload random then writer.sequence + 1 else writer.sequence := by
  rw [SshWire.send]
  cases hencode : c.wire.encode payload random with
  | error error =>
    have hsends : ¬c.Sends payload random := by rw [Sends, hencode]; exact Bool.false_ne_true
    refine ⟨rfl, fun writer' h => ⟨writer', h, ?_⟩⟩
    rw [if_neg hsends]
  | ok result =>
    have hsends : c.Sends payload random := by rw [Sends, hencode]; rfl
    obtain ⟨packet, wire⟩ := result
    rw [SshWire.encode] at hencode
    cases hwriter : c.wire.writer with
    | none =>
      rw [hwriter] at hencode
      obtain ⟨_, _, h⟩ := bind_eq_ok.mp hencode
      obtain ⟨-, rfl⟩ := Prod.mk.inj (Except.ok.inj h)
      refine ⟨rfl, fun writer' h => ?_⟩
      exact absurd (hwriter.symm.trans h) nofun
    | some writer =>
      rw [hwriter] at hencode
      obtain ⟨⟨packet', advanced⟩, hwrite, h⟩ := bind_eq_ok.mp hencode
      obtain ⟨-, rfl⟩ := Prod.mk.inj (Except.ok.inj h)
      obtain ⟨padding, cipher, hencoded⟩ := encode_spec hwrite
      refine ⟨rfl, fun writer' h => ⟨writer, rfl, ?_⟩⟩
      obtain rfl := Option.some.inj h
      rw [if_pos hsends, hencoded.writer_eq]

/-- What `receive` does to the wire: the reader advances with the packet that it accepts. -/
theorem receive_wire (c : Connection) (incoming : List UInt8) :
    (c.wire.receive incoming).2.writer = c.wire.writer ∧
      ∀ reader', (c.wire.receive incoming).2.reader = some reader' →
        ∃ reader, c.wire.reader = some reader ∧ reader'.sequence =
          if c.Receives incoming then reader.sequence + 1 else reader.sequence := by
  cases hreader : c.wire.reader with
  | none =>
    have hreceive : c.wire.receive incoming = (SshWire.receivePlain incoming, c.wire) := by
      rw [SshWire.receive, hreader]
    rw [hreceive]
    refine ⟨rfl, fun reader' h => ?_⟩
    exact absurd (hreader.symm.trans h) nofun
  | some reader =>
    cases hread : SshWire.readPacket reader incoming with
    | error error =>
      have hreceive : c.wire.receive incoming = (.error error, c.wire) := by
        rw [SshWire.receive, hreader]
        dsimp only
        rw [hread]
      have hrefused : ¬c.Receives incoming := by
        rw [Receives, hreceive]
        exact Bool.false_ne_true
      rw [hreceive]
      refine ⟨rfl, fun reader' h => ⟨reader, rfl, ?_⟩⟩
      obtain rfl := Option.some.inj (hreader.symm.trans h)
      rw [if_neg hrefused]
    | ok packet =>
      have hreceive : c.wire.receive incoming =
          (((reader.decode packet).1.map Prod.fst).mapError WireError.protocol,
            { c.wire with reader := some (reader.decode packet).2 }) := by
        rw [SshWire.receive, hreader]
        dsimp only
        rw [hread]
      rw [hreceive]
      refine ⟨rfl, fun reader' h => ⟨reader, rfl, ?_⟩⟩
      obtain rfl := Option.some.inj h
      cases hauth : reader.authenticate packet with
      | error error =>
        have hrefused : ¬c.Receives incoming := by
          rw [Receives, hreceive, EncryptedPacketReader.decode, hauth]
          exact Bool.false_ne_true
        rw [if_neg hrefused, EncryptedPacketReader.decode, hauth]
      | ok result =>
        have haccepted : c.Receives incoming := by
          rw [Receives, hreceive, EncryptedPacketReader.decode, hauth]
          rfl
        rw [if_pos haccepted, EncryptedPacketReader.decode, hauth]

/-- **Step lemma.** Every operation keeps the sequence numbers in step with the counts. -/
theorem inv_step (c : Connection) (op : WireOp) (h : c.Inv) : (c.step op).Inv := by
  cases op with
  | send payload random written =>
    obtain ⟨hreader, hwriter⟩ := send_wire c payload random written
    constructor
    · intro writer' hsome
      obtain ⟨writer, hbefore, hsequence⟩ := hwriter writer' hsome
      have hinv := h.writer writer hbefore
      show writer'.sequence + UInt32.ofNat c.sentBefore = c.writerStart +
        UInt32.ofNat (if c.Sends payload random then c.sent + 1 else c.sent)
      rw [hsequence]
      split_ifs
      · exact succ_sequence hinv
      · exact hinv
    · intro reader hsome
      exact h.reader reader (hreader.symm.trans hsome)
  | receive incoming =>
    obtain ⟨hwriter, hreader⟩ := receive_wire c incoming
    constructor
    · intro writer hsome
      exact h.writer writer (hwriter.symm.trans hsome)
    · intro reader' hsome
      obtain ⟨reader, hbefore, hsequence⟩ := hreader reader' hsome
      have hinv := h.reader reader hbefore
      show reader'.sequence + UInt32.ofNat c.receivedBefore = c.readerStart +
        UInt32.ofNat (if c.Receives incoming then c.received + 1 else c.received)
      rw [hsequence]
      split_ifs
      · exact succ_sequence hinv
      · exact hinv
  | enableEncryption reader writer =>
    constructor
    · intro writer' hsome
      obtain rfl := Option.some.inj hsome
      rfl
    · intro reader' hsome
      obtain rfl := Option.some.inj hsome
      rfl

/-- An encrypted packet is numbered as the standard says exactly if its cipher state started
there. -/
theorem numbered_iff_continued (c : Connection) (op : WireOp) (h : c.Inv) :
    c.Numbered op ↔ c.Continued op := by
  have hiff : ∀ {sequence before start count : UInt32}, sequence + before = start + count →
      (sequence = count ↔ start = before) := by
    intro sequence before start count heq
    constructor
    · rintro rfl
      rw [UInt32.add_comm] at heq
      exact (UInt32.add_left_inj _).mp heq.symm
    · rintro rfl
      rw [UInt32.add_comm] at heq
      exact (UInt32.add_right_inj _).mp heq
  cases op with
  | send payload random written =>
    constructor
    · intro hnumbered hsome hsends
      obtain ⟨writer, hwriter⟩ := Option.isSome_iff_exists.mp hsome
      exact (hiff (h.writer writer hwriter)).mp (hnumbered writer hwriter hsends)
    · intro hcontinued writer hwriter hsends
      have hsome : c.wire.writer.isSome := Option.isSome_iff_exists.mpr ⟨writer, hwriter⟩
      exact (hiff (h.writer writer hwriter)).mpr (hcontinued hsome hsends)
  | receive incoming =>
    constructor
    · intro hnumbered hsome hreceives
      obtain ⟨reader, hreader⟩ := Option.isSome_iff_exists.mp hsome
      exact (hiff (h.reader reader hreader)).mp (hnumbered reader hreader hreceives)
    · intro hcontinued reader hreader hreceives
      have hsome : c.wire.reader.isSome := Option.isSome_iff_exists.mpr ⟨reader, hreader⟩
      exact (hiff (h.reader reader hreader)).mpr (hcontinued hsome hreceives)
  | enableEncryption reader writer => exact Iff.rfl

end Connection

open Connection

/-- **Main theorem.** Along every run of a connection, each encrypted packet carries the number
of the packets before it exactly if each cipher state in use started at the number of the packets
before `enable_encryption`. -/
theorem sequence_numbers_iff (ops : List WireOp) :
    Along step Numbered opened ops ↔ Along step Continued opened ops :=
  along_congr_of inv_step numbered_iff_continued inv_opened

/-- The packets of `AuthenticatedSsh::connect` (lines 21–33) up to the first encrypted one: three
plain packets go out and three come in before `enable_encryption`, with new cipher states. -/
def connectRun : List WireOp :=
  let random := some fun _ => 0
  let incoming := packet [20] (List.replicate 10 0)
  [.send [20] random true, .receive incoming, .send [30] random true, .receive incoming,
    .send [21] random true, .receive incoming,
    .enableEncryption (.new [] 0 []) (.new [] 0 []), .send [5] random true]

/-- The first encrypted packet of a connection has the sequence number 0 in place of 3. -/
theorem connectRun_not_numbered : ¬Along step Numbered opened connectRun := by
  intro h
  have hlast := h.2.2.2.2.2.2.2.1 (.new [] 0 []) rfl rfl
  exact absurd hlast (by decide)

end Mrml.Ssh
