import Mrml.Tls.Hello
import Mrml.Tls.Stream

/-!
# The handshake of the client

Model of `TlsClientStream::connect` (`crates/mrml-tls/src/client.rs`, lines 304–467). What the
server sends is there to be read, `incoming`; `connect` returns what the client sends next to its
outcome.

The loop over the records is `receive`. The loop over the messages of its buffer is
`Framing.drain` for `handshakeFraming`. Both end when a `Finished` message is handled, which the
state notes.
-/

namespace Mrml.Tls

open RecordKeys

variable {Certificate : Type} (p : Primitives Certificate)

/-- `send_plain_handshake` (lines 107–114): what is sent. -/
def sendPlainHandshake (message : List UInt8) : Except TlsError (List UInt8) := do
  refuseIf (message.length > 0xffff) TlsError.handshake
  return [22, 3, 1, UInt8.ofNat (message.length >>> 8), UInt8.ofNat message.length] ++ message

/-- The first record that is no change of cipher (lines 314–320): its type, its body, and what is
left to read. Each record has a header of its own, so that there are fewer records than bytes. -/
def firstRecord : ℕ → List UInt8 → Except TlsError ((UInt8 × List UInt8) × List UInt8)
  | 0, _ => .error .io
  | turns + 1, incoming =>
    match clientRecord incoming with
    | (.error error, _) => .error error
    | (.ok (kind, body), rest) =>
      if kind = 20 then firstRecord turns rest else .ok ((kind, body), rest)

/-- The shared secret for the share of the server (lines 325–338). -/
def clientSecret (hello : ClientHello) (group : ℕ) (serverKey : List UInt8) :
    Except TlsError (List UInt8) :=
  if group = x25519MlKem768 then hello.hybrid.complete p serverKey
  else do
    let peer ← okOr (Octets.ofList 32 serverKey) TlsError.handshake
    let secret ← okOr (p.x25519Shared hello.fallback peer) TlsError.authenticationFailed
    return secret.val

/-- The state of the loop over the records next to its buffer (lines 349–353), and whether
`Finished` was handled. -/
structure Flight where
  transcript : Transcript
  certificates : List (List UInt8)
  gotExtensions : Bool
  gotCertificate : Bool
  gotVerify : Bool
  finished : Bool

/-- The state before the first record. -/
def Flight.start (transcript : Transcript) : Flight where
  transcript := transcript
  certificates := []
  gotExtensions := false
  gotCertificate := false
  gotVerify := false
  finished := false

/-- What the client reports of a `Finished` message (lines 421–433): `difference` gathers the bits
in which the two values differ. -/
def checkFinished (serverHs : List UInt8) (transcript : Transcript) (message : List UInt8) :
    Except TlsError Unit := do
  let received ← Cursor.readFrom (do
    let _ ← Cursor.u8
    Cursor.refuse ((← Cursor.u24) ≠ 32) .handshake
    Cursor.take 32) message
  let expected := finishedVerifyData serverHs transcript.hash
  let difference : UInt8 :=
    (expected.zip received).foldl (fun difference (a, b) => difference ||| (a ^^^ b)) 0
  refuseIf (difference ≠ 0) TlsError.authenticationFailed

/-- One message of the flight (lines 388–464). -/
def handleMessage (host serverHs : List UInt8) (s : Flight) (message : List UInt8) :
    Except TlsError Flight :=
  if byteAt message 0 = 8 then do
    refuseIf s.gotExtensions TlsError.handshake
    return { s with gotExtensions := true, transcript := s.transcript.update message }
  else if byteAt message 0 = 11 then do
    refuseIf (!s.gotExtensions || s.gotCertificate) TlsError.handshake
    let certificates ← certificateChain message
    refuseIf (!p.verifyServerChain host certificates) TlsError.certificate
    return { s with certificates, gotCertificate := true,
                    transcript := s.transcript.update message }
  else if byteAt message 0 = 15 then do
    refuseIf (!s.gotCertificate || s.gotVerify) TlsError.handshake
    let leaf ← okOr (p.parseCertificate (s.certificates.headD [])) TlsError.certificate
    verifyCertificateMessage p message s.transcript.hash leaf
    return { s with gotVerify := true, transcript := s.transcript.update message }
  else if byteAt message 0 = 20 then do
    refuseIf (!s.gotVerify) TlsError.handshake
    checkFinished serverHs s.transcript message
    return { s with finished := true, transcript := s.transcript.update message }
  else .error .handshake

/-- `1024 * 1024` (line 384). -/
def maxHandshakes : ℕ := 1024 * 1024

/-- The record that is opened for a body (lines 362–374). -/
def completeRecord (body : List UInt8) : List UInt8 :=
  [23, 3, 3, UInt8.ofNat (body.length >>> 8), UInt8.ofNat body.length] ++ body

/-- The loop over the records (lines 354–466): the state after `Finished`, and what is left to
read. `handshakes` is the buffer. -/
def receive (host serverHs : List UInt8) : ℕ → RecordKeys → Flight → List UInt8 → List UInt8 →
    Except TlsError (Flight × List UInt8)
  | 0, _, _, _, _ => .error .io
  | turns + 1, keys, s, handshakes, incoming =>
    match clientRecord incoming with
    | (.error error, _) => .error error
    | (.ok (kind, body), rest) =>
      if kind = 20 then receive host serverHs turns keys s handshakes rest
      else if kind ≠ 23 then .error .handshake
      else
        match keys.openRecord p.aead (completeRecord body) [] with
        | (.error _, _, _) => .error .invalidRecord
        | (.ok inner, keys, plain) =>
          if inner ≠ 22 then .error .handshake
          else do
            let buffer := handshakes ++ plain
            refuseIf (buffer.length > maxHandshakes) TlsError.handshake
            let (s, handshakes) ← handshakeFraming.drain (handleMessage p host serverHs)
              Flight.finished buffer.length s buffer
            if s.finished then return (s, rest)
            else receive host serverHs turns keys s handshakes rest

/-- What a client has when `connect` succeeds, and the transcript hash of its keys. -/
structure Connected where
  stream : TlsClientStream
  applicationHash : List UInt8

/-- The connection with the keys for a transcript hash (lines 434–441 and 455–462). -/
def Session.connected (session : Session) (group : ℕ) (applicationHash incoming : List UInt8) :
    Connected :=
  let schedule := session.schedule.finishHandshake
  { applicationHash
    stream := {
      incoming
      readKeys := fromTrafficSecret (schedule.applicationTrafficSecret true applicationHash)
      writeKeys := fromTrafficSecret (schedule.applicationTrafficSecret false applicationHash)
      pending := []
      pendingPosition := 0
      negotiatedGroup := UInt16.ofNat group } }

/-- The record with the `Finished` message of the client (lines 442–454). -/
def clientFinished (session : Session) (applicationHash : List UInt8) :
    Except TlsError (List UInt8) := do
  let finished ← handshake 20 (finishedVerifyData session.clientHs applicationHash)
  match (fromTrafficSecret session.clientHs).sealRecord p.aead 22 finished [] with
  | (.error error, _, _) => .error error
  | (.ok (), _, output) => return output

/-- The part of `connect` that reads (lines 314–467): the outcome, and the last record sent. -/
def runClient (host : List UInt8) (hello : ClientHello) (incoming : List UInt8) :
    Except TlsError (Connected × List UInt8) := do
  let ((kind, serverHello), rest) ← firstRecord (incoming.length + 1) incoming
  refuseIf (kind ≠ 22) TlsError.handshake
  let (group, serverKey) ← serverShare serverHello
  let shared ← clientSecret p hello group serverKey
  let session := Session.start hello.message serverHello shared
  let (s, rest) ← receive p host session.serverHs (rest.length + 1)
    (fromTrafficSecret session.serverHs) (.start session.transcript) [] rest
  let output ← clientFinished p session s.transcript.hash
  return (session.connected group s.transcript.hash rest, output)

/-- `TlsClientStream::connect` (lines 305–467): the outcome, and what is sent. -/
def connect (random : ClientRandom) (host incoming : List UInt8) :
    Except TlsError Connected × List UInt8 :=
  match clientHello p random host with
  | .error error => (.error error, [])
  | .ok hello =>
    match sendPlainHandshake hello.message with
    | .error error => (.error error, [])
    | .ok sent =>
      match runClient p host hello incoming with
      | .error error => (.error error, sent)
      | .ok (connected, output) => (.ok connected, sent ++ output)

end Mrml.Tls
