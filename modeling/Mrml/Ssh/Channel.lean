import Mrml.Ssh.Binary

/-!
# SSH channel messages

Model of `build_channel_data`, `build_channel_eof`, `build_channel_close`,
`build_window_adjust` and `parse_channel_event` of `crates/mrml-ssh/src/channel.rs`, and the
encodings of RFC 4254 that the parser reads.

Results:
* `Decodes`: a message stands for one event, and neither a part of it nor more than it is read.
* `decodes_rfcEncode_iff`: the parser reads the RFC encoding of every event whose strings keep
  to the length limit, exit statuses apart: those it only takes with `want_reply` set.
* `decodes_channelData`, `decodes_eof`, `decodes_close`, `decodes_windowAdjust`: what the
  builders write is read back.
-/

namespace Mrml.Ssh

open BinaryReader

/-- `ChannelEvent` (line 10). -/
inductive ChannelEvent
  | openConfirmed (recipient sender window packet : UInt32)
  | openFailed (recipient reason : UInt32)
  | windowAdjusted (recipient bytes : UInt32)
  | data (recipient : UInt32) (bytes : List UInt8)
  | extendedData (recipient kind : UInt32) (bytes : List UInt8)
  | success (recipient : UInt32)
  | failure (recipient : UInt32)
  | exitStatus (recipient status : UInt32)
  | eof (recipient : UInt32)
  | close (recipient : UInt32)
deriving DecidableEq

/-- `MAX_PACKET` (line 5). -/
def maxPacket : ℕ := 32 * 1024

/-- The request name `"exit-status"` (line 29). -/
def exitStatusName : Text := "exit-status".toList

/-! ## Builders -/

/-- `simple` (line 27). -/
def simple (kind : UInt8) (recipient : UInt32) : List UInt8 := kind :: BinaryWriter.u32 recipient

/-- `build_channel_data` (line 23). -/
def buildChannelData (recipient : UInt32) (data : List UInt8) :
    Except ProtocolError (List UInt8) := do
  refuseIf (data = [] ∨ data.length > maxPacket) ProtocolError.length
  return 94 :: (BinaryWriter.u32 recipient ++ (← BinaryWriter.string data))

/-- `build_channel_eof` (line 24). -/
def buildChannelEof (recipient : UInt32) : List UInt8 := simple 96 recipient

/-- `build_channel_close` (line 25). -/
def buildChannelClose (recipient : UInt32) : List UInt8 := simple 97 recipient

/-- `build_window_adjust` (line 26). -/
def buildWindowAdjust (recipient bytes : UInt32) : Except ProtocolError (List UInt8) := do
  refuseIf (bytes = 0) ProtocolError.length
  return 93 :: (BinaryWriter.u32 recipient ++ BinaryWriter.u32 bytes)

/-! ## The parser -/

/-- What `parse_channel_event` reads after the kind of the message. -/
def eventBody (kind : UInt8) : BinaryReader ChannelEvent :=
  match kind.toNat with
  | 91 => do return .openConfirmed (← u32) (← u32) (← u32) (← u32)
  | 92 => do
    let recipient ← u32
    let reason ← u32
    let _ ← string
    let _ ← string
    return .openFailed recipient reason
  | 93 => do return .windowAdjusted (← u32) (← u32)
  | 94 => do return .data (← u32) (← string)
  | 95 => do return .extendedData (← u32) (← u32) (← string)
  | 99 => .success <$> u32
  | 100 => .failure <$> u32
  | 96 => .eof <$> u32
  | 97 => .close <$> u32
  | 98 => do
    let recipient ← u32
    let request ← text
    Reader.lift (refuseIf (request ≠ exitStatusName) ProtocolError.invalidPacket)
    let wantReply ← boolean
    Reader.lift (refuseIf (!wantReply) ProtocolError.invalidPacket)
    .exitStatus recipient <$> u32
  | _ => Reader.lift (.error .invalidPacket)

/-- `parse_channel_event` (line 29). -/
def parseChannelEvent (message : List UInt8) : Except ProtocolError ChannelEvent :=
  (do eventBody (← byte)).whole ProtocolError.invalidPacket message

/-! ## The encodings of RFC 4254 -/

namespace ChannelEvent

/-- The message of RFC 4254, sections 5.1 to 5.4 and 6.10, that announces an event. The text
and the language of a refused open are not part of the event. -/
def rfcEncode (description language : List UInt8) : ChannelEvent → List UInt8
  | openConfirmed recipient sender window packet =>
    91 :: (BinaryWriter.u32 recipient ++ (BinaryWriter.u32 sender ++
      (BinaryWriter.u32 window ++ BinaryWriter.u32 packet)))
  | openFailed recipient reason =>
    92 :: (BinaryWriter.u32 recipient ++ (BinaryWriter.u32 reason ++
      (BinaryWriter.stringBytes description ++ BinaryWriter.stringBytes language)))
  | windowAdjusted recipient bytes =>
    93 :: (BinaryWriter.u32 recipient ++ BinaryWriter.u32 bytes)
  | data recipient bytes =>
    94 :: (BinaryWriter.u32 recipient ++ BinaryWriter.stringBytes bytes)
  | extendedData recipient kind bytes =>
    95 :: (BinaryWriter.u32 recipient ++ (BinaryWriter.u32 kind ++
      BinaryWriter.stringBytes bytes))
  | success recipient => simple 99 recipient
  | failure recipient => simple 100 recipient
  | exitStatus recipient status =>
    98 :: (BinaryWriter.u32 recipient ++ (BinaryWriter.stringBytes exitStatusName.asBytes ++
      (BinaryWriter.boolean false ++ BinaryWriter.u32 status)))
  | eof recipient => simple 96 recipient
  | close recipient => simple 97 recipient

/-- The strings that the message of an event carries. -/
def strings (description language : List UInt8) : ChannelEvent → List (List UInt8)
  | openFailed _ _ => [description, language]
  | data _ bytes | extendedData _ _ bytes => [bytes]
  | _ => []

/-- `ChannelEvent::ExitStatus`. -/
def IsExitStatus : ChannelEvent → Prop
  | exitStatus _ _ => True
  | _ => False

end ChannelEvent

/-- The message stands for the event: it is parsed to it, and everything that is cut from it or
extends it is refused. -/
def Decodes (message : List UInt8) (event : ChannelEvent) : Prop :=
  parseChannelEvent message = .ok event ∧
    (∀ front, front <+: message → front ≠ message →
      ∃ error, parseChannelEvent front = .error error) ∧
    ∀ more, more ≠ [] → ∃ error, parseChannelEvent (message ++ more) = .error error

/-! ## What is read back -/

theorem decodes_of_reads {kind : UInt8} {body : List UInt8} {event : ChannelEvent}
    (h : Reads (eventBody kind) body event) : Decodes (kind :: body) event := by
  have hread : Reads (do eventBody (← byte)) ([kind] ++ body) event := (reads_byte kind).bind h
  obtain ⟨hparse, hfront, hmore⟩ := hread.whole ProtocolError.invalidPacket
  exact ⟨hparse, hfront, fun more hne => ⟨_, hmore more hne⟩⟩

theorem decodes_simple {kind : UInt8} {recipient : UInt32} {event : UInt32 → ChannelEvent}
    (h : eventBody kind = event <$> u32) : Decodes (simple kind recipient) (event recipient) := by
  refine decodes_of_reads ?_
  rw [h]
  exact (reads_u32 recipient).map event

theorem decodes_windowAdjusted (recipient bytes : UInt32) :
    Decodes (93 :: (BinaryWriter.u32 recipient ++ BinaryWriter.u32 bytes))
      (.windowAdjusted recipient bytes) :=
  decodes_of_reads ((reads_u32 recipient).bind ((reads_u32 bytes).map _))

theorem decodes_data (recipient : UInt32) {bytes : List UInt8} (h : bytes.length ≤ maxString) :
    Decodes (94 :: (BinaryWriter.u32 recipient ++ BinaryWriter.stringBytes bytes))
      (.data recipient bytes) :=
  decodes_of_reads ((reads_u32 recipient).bind ((reads_string h).map _))

/-- What `build_channel_data` writes is read back. -/
theorem decodes_channelData {recipient : UInt32} {data message : List UInt8}
    (h : buildChannelData recipient data = .ok message) :
    Decodes message (.data recipient data) := by
  obtain ⟨_, _, h⟩ := bind_eq_ok.mp h
  obtain ⟨bytes, hstring, hmessage⟩ := bind_eq_ok.mp h
  obtain ⟨hlength, rfl⟩ := BinaryWriter.string_eq_ok.mp hstring
  obtain rfl := Except.ok.inj hmessage
  exact decodes_data recipient hlength

/-- What `build_window_adjust` writes is read back. -/
theorem decodes_windowAdjust {recipient bytes : UInt32} {message : List UInt8}
    (h : buildWindowAdjust recipient bytes = .ok message) :
    Decodes message (.windowAdjusted recipient bytes) := by
  obtain ⟨_, _, hmessage⟩ := bind_eq_ok.mp h
  obtain rfl := Except.ok.inj hmessage
  exact decodes_windowAdjusted recipient bytes

theorem decodes_eof (recipient : UInt32) : Decodes (buildChannelEof recipient) (.eof recipient) :=
  decodes_simple rfl

theorem decodes_close (recipient : UInt32) :
    Decodes (buildChannelClose recipient) (.close recipient) :=
  decodes_simple rfl

/-! ## What is refused -/

/-- The body is refused, so the message is. -/
theorem not_decodes_of_error {kind : UInt8} {body : List UInt8} {event : ChannelEvent}
    {e : ProtocolError} (h : eventBody kind body = .error e) :
    ¬Decodes (kind :: body) event := by
  intro hdecodes
  have hparse : parseChannelEvent (kind :: body) = .error e := by
    show Reader.whole (byte >>= eventBody) _ ([kind] ++ body) = _
    rw [Reader.whole, (reads_byte kind).bind_append, h]
    rfl
  rw [hdecodes.1] at hparse
  cases hparse

/-- The parser refuses every exit status that asks for no reply. -/
theorem exitStatus_refused (description language : List UInt8) (recipient status : UInt32) :
    ¬Decodes ((ChannelEvent.exitStatus recipient status).rfcEncode description language)
      (.exitStatus recipient status) := by
  have hname : exitStatusName.asBytes.length ≤ maxString := by decide
  refine not_decodes_of_error (e := .invalidPacket) ?_
  show (u32 >>= _) _ = _
  rw [(reads_u32 recipient).bind_append, (reads_text hname).bind_append, Reader.bind_apply,
    Reader.lift, refuseIf_of_not (fun hne => hne rfl), ok_bind, pure_bind]
  dsimp only
  rw [(reads_boolean false).bind_append]
  rfl

/-- A message with a string over the limit is refused. -/
theorem not_decodes_of_long (description language : List UInt8) {event : ChannelEvent}
    (hfits : ∀ s ∈ event.strings description language, s.length < 2 ^ 32)
    (hlong : ∃ s ∈ event.strings description language, maxString < s.length) :
    ¬Decodes (event.rfcEncode description language) event := by
  obtain ⟨s, hmem, hlong⟩ := hlong
  have hfit := hfits s hmem
  have hrefuse : ∀ rest, string (BinaryWriter.stringBytes s ++ rest) = .error .length :=
    fun rest => string_of_long hlong hfit
  cases event with
  | data recipient bytes =>
    obtain rfl := List.mem_singleton.mp hmem
    refine not_decodes_of_error (e := .length) ?_
    show (u32 >>= _) _ = _
    rw [(reads_u32 recipient).bind_append, ← List.append_nil (BinaryWriter.stringBytes s),
      Reader.bind_apply, hrefuse]
    rfl
  | extendedData recipient kind bytes =>
    obtain rfl := List.mem_singleton.mp hmem
    refine not_decodes_of_error (e := .length) ?_
    show (u32 >>= _) _ = _
    rw [(reads_u32 recipient).bind_append, (reads_u32 kind).bind_append,
      ← List.append_nil (BinaryWriter.stringBytes s), Reader.bind_apply, hrefuse]
    rfl
  | openFailed recipient reason =>
    refine not_decodes_of_error (e := .length) ?_
    show (u32 >>= _) _ = _
    rw [(reads_u32 recipient).bind_append, (reads_u32 reason).bind_append]
    obtain rfl | rfl : s = description ∨ s = language := by
      simpa [ChannelEvent.strings] using hmem
    · rw [Reader.bind_apply, hrefuse]
      rfl
    · by_cases hfirst : maxString < description.length
      · have hfits' := hfits description (by simp [ChannelEvent.strings])
        rw [Reader.bind_apply, string_of_long hfirst hfits']
        rfl
      · rw [(reads_string (by omega)).bind_append, ← List.append_nil (BinaryWriter.stringBytes s),
          Reader.bind_apply, hrefuse]
        rfl
  | _ => exact absurd hmem List.not_mem_nil

/-- **Main theorem.** The parser reads the RFC encoding of an event exactly if the event is not an exit status and
its strings keep to the length limit. -/
theorem decodes_rfcEncode_iff (description language : List UInt8) (event : ChannelEvent)
    (hfits : ∀ s ∈ event.strings description language, s.length < 2 ^ 32) :
    Decodes (event.rfcEncode description language) event ↔
      ¬event.IsExitStatus ∧ ∀ s ∈ event.strings description language, s.length ≤ maxString := by
  constructor
  · intro hdecodes
    constructor
    · intro hexit
      cases event with
      | exitStatus recipient status =>
        exact exitStatus_refused description language recipient status hdecodes
      | _ => exact hexit
    · by_contra hlong
      push Not at hlong
      exact not_decodes_of_long description language hfits hlong hdecodes
  · rintro ⟨hexit, hlimit⟩
    cases event with
    | openConfirmed recipient sender window packet =>
      exact decodes_of_reads ((reads_u32 recipient).bind ((reads_u32 sender).bind
        ((reads_u32 window).bind ((reads_u32 packet).map _))))
    | openFailed recipient reason =>
      have hdescription := hlimit description (by simp [ChannelEvent.strings])
      have hlanguage := hlimit language (by simp [ChannelEvent.strings])
      exact decodes_of_reads ((reads_u32 recipient).bind ((reads_u32 reason).bind
        ((reads_string hdescription).bind
          ((reads_string hlanguage).map fun _ => ChannelEvent.openFailed recipient reason))))
    | windowAdjusted recipient bytes => exact decodes_windowAdjusted recipient bytes
    | data recipient bytes =>
      exact decodes_data recipient (hlimit bytes (by simp [ChannelEvent.strings]))
    | extendedData recipient kind bytes =>
      have hbytes := hlimit bytes (by simp [ChannelEvent.strings])
      exact decodes_of_reads ((reads_u32 recipient).bind ((reads_u32 kind).bind
        ((reads_string hbytes).map _)))
    | success recipient => exact decodes_simple rfl
    | failure recipient => exact decodes_simple rfl
    | exitStatus recipient status => exact absurd trivial hexit
    | eof recipient => exact decodes_eof recipient
    | close recipient => exact decodes_close recipient

/-- **Main theorem.** What the builders write always stands for its event; the RFC encoding of
an event does exactly if the event is not an exit status and its strings keep to the limit. -/
theorem channel_messages (description language : List UInt8) (event : ChannelEvent)
    (hfits : ∀ s ∈ event.strings description language, s.length < 2 ^ 32) :
    (∀ recipient data message, buildChannelData recipient data = .ok message →
      Decodes message (.data recipient data)) ∧
    (∀ recipient, Decodes (buildChannelEof recipient) (.eof recipient)) ∧
    (∀ recipient, Decodes (buildChannelClose recipient) (.close recipient)) ∧
    (∀ recipient bytes message, buildWindowAdjust recipient bytes = .ok message →
      Decodes message (.windowAdjusted recipient bytes)) ∧
    (Decodes (event.rfcEncode description language) event ↔
      ¬event.IsExitStatus ∧ ∀ s ∈ event.strings description language, s.length ≤ maxString) := by
  refine ⟨?_, decodes_eof, decodes_close, ?_,
    decodes_rfcEncode_iff description language event hfits⟩
  · intro recipient data message h
    exact decodes_channelData h
  · intro recipient bytes message h
    exact decodes_windowAdjust h

/-- The announcement of a refused open, with a text in it, is read. -/
theorem channel_messages_refused_open :
    Decodes ((ChannelEvent.openFailed 0 4).rfcEncode [110, 111] []) (.openFailed 0 4) :=
  (channel_messages [110, 111] [] (.openFailed 0 4) (by decide)).2.2.2.2.mpr
    ⟨id, by decide⟩

/-- The exit status 0 of channel 7 as RFC 4254 sends it is refused. -/
theorem exitStatus_of_success_refused :
    ¬Decodes ((ChannelEvent.exitStatus 7 0).rfcEncode [] []) (.exitStatus 7 0) := by
  intro h
  have hrefused : parseChannelEvent ((ChannelEvent.exitStatus 7 0).rfcEncode [] []) =
      .error .invalidPacket := by decide +kernel
  rw [h.1] at hrefused
  exact nomatch hrefused

end Mrml.Ssh
