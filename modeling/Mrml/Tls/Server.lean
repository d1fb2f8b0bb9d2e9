import Mrml.Tls.Hello
import Mrml.Tls.Stream

/-!
# The handshake of the server

Model of `TlsServerStream::accept` (`crates/mrml-tls/src/server.rs`, lines 259–263 and 316–461).
What the client sends is there to be read, `incoming`; `accept` returns what the server sends next
to its outcome.
-/

namespace Mrml.Tls

open RecordKeys

variable {Certificate : Type} (p : Primitives Certificate)

/-- `TlsServerConfig` (lines 179–183) with what `from_pem` (lines 190–238) makes sure of. -/
structure TlsServerConfig where
  certificates : List (List UInt8)
  modulus : List UInt8
  privateExponent : List UInt8
  certificates_ne_nil : certificates ≠ []
  length_certificates : certificates.length ≤ 8
  length_certificate : ∀ certificate ∈ certificates, certificate.length ≤ 64 * 1024
  length_modulus : 256 ≤ modulus.length ∧ modulus.length ≤ 512
  privateExponent_ne_nil : privateExponent ≠ []

/-- `send_plain` (lines 259–263): what is sent. -/
def sendPlain (message : List UInt8) : List UInt8 :=
  [22, 3, 3, UInt8.ofNat (message.length >>> 8), UInt8.ofNat message.length] ++ message

/-- The `ServerHello` for a `ClientHello`, and the shared secret (lines 328–357). -/
def answer (random : ServerRandom) (clientHello : List UInt8) :
    Except TlsError (List UInt8 × List UInt8) := do
  let (session, share) ← clientShare clientHello
  let (serverShare, shared) ← hybridServerShare p random share
  let ext := (← pushU16 43) ++ (← pushU16 2) ++ [3, 4] ++ (← pushU16 51) ++
    (← pushU16 (4 + serverShare.length)) ++ (← pushU16 x25519MlKem768) ++
    (← pushU16 serverShare.length) ++ serverShare
  let body := [3, 3] ++ random.random.val ++ [UInt8.ofNat session.length] ++ session ++
    (← pushU16 tlsAes128GcmSha256) ++ [0] ++ (← pushU16 ext.length) ++ ext
  return (← handshake 2 body, shared)

/-- An entry of the certificate list (lines 376–381). -/
def certificateEntry (certificate : List UInt8) : Except TlsError (List UInt8) := do
  return (← pushU24 certificate.length) ++ certificate ++ (← pushU16 0)

/-- The messages of the flight (lines 369–421). -/
def serverFlight (config : TlsServerConfig) (random : ServerRandom) (session : Session) :
    Except TlsError ServerFlight := do
  let extensions ← handshake 8 [0, 0]
  let list := (← config.certificates.mapM certificateEntry).flatten
  let certificate ← handshake 11 ([0] ++ (← pushU24 list.length) ++ list)
  let transcript : Transcript := (session.transcript.update extensions).update certificate
  let signature ← okOr (p.rsaPssSign config.modulus config.privateExponent
    (signedContent transcript.hash) random.salt) TlsError.authenticationFailed
  let verify ← handshake 15 ((← pushU16 0x0804) ++ (← pushU16 signature.val.length) ++
    signature.val)
  let transcript : Transcript := transcript.update verify
  let finished ← handshake 20 (finishedVerifyData session.serverHs transcript.hash)
  return { extensions, certificate, verify, finished }

/-- The loop of `data.chunks(size)`; each chunk has a byte at least. -/
def chunksLoop (size : ℕ) : ℕ → List UInt8 → List (List UInt8)
  | 0, _ => []
  | fuel + 1, data =>
    if data.isEmpty then [] else data.take size :: chunksLoop size fuel (data.drop size)

/-- `data.chunks(size)`. -/
def chunks (size : ℕ) (data : List UInt8) : List (List UInt8) := chunksLoop size data.length data

/-- The chunks of data are the data, and none is longer than `size`. -/
theorem chunksLoop_spec {size : ℕ} (hsize : 0 < size) {fuel : ℕ} {data : List UInt8}
    (hfuel : data.length ≤ fuel) :
    (chunksLoop size fuel data).flatten = data ∧
      (∀ chunk ∈ chunksLoop size fuel data, chunk.length ≤ size) ∧
      (chunksLoop size fuel data).length ≤ data.length := by
  induction fuel generalizing data with
  | zero =>
    obtain rfl := List.length_eq_zero_iff.mp (Nat.le_zero.mp hfuel)
    exact ⟨rfl, by simp [chunksLoop], le_rfl⟩
  | succ fuel ih =>
    rw [chunksLoop]
    split_ifs with hempty
    · obtain rfl := List.isEmpty_iff.mp hempty
      exact ⟨rfl, by simp, le_rfl⟩
    have hpos := List.length_pos_iff.mpr (mt List.isEmpty_iff.mpr hempty)
    have hdrop : (data.drop size).length = data.length - size := List.length_drop
    obtain ⟨hflatten, hall, hcount⟩ := ih (show (data.drop size).length ≤ fuel by omega)
    refine ⟨?_, List.forall_mem_cons.mpr ⟨List.length_take_le _ _, hall⟩, ?_⟩
    · rw [List.flatten_cons, hflatten, List.take_append_drop]
    · rw [List.length_cons]
      omega

/-- The chunks of the messages are the messages, and none is longer than `size`. -/
theorem flatMap_chunks {size : ℕ} (hsize : 0 < size) (messages : List (List UInt8)) :
    (messages.flatMap (chunks size)).flatten = messages.flatten ∧
      (∀ chunk ∈ messages.flatMap (chunks size), chunk.length ≤ size) ∧
      (messages.flatMap (chunks size)).length ≤ messages.flatten.length := by
  induction messages with
  | nil => exact ⟨rfl, by simp, le_rfl⟩
  | cons message messages ih =>
    obtain ⟨hflatten, hall, hcount⟩ := ih
    obtain ⟨hflatten', hall', hcount'⟩ := chunksLoop_spec hsize (le_refl message.length)
    rw [List.flatMap_cons, List.flatten_append, List.flatten_cons, List.length_append,
      List.length_append, hflatten, chunks, hflatten']
    exact ⟨rfl, List.forall_mem_append.mpr ⟨hall', hall⟩, by omega⟩

/-- The loops over the messages and their chunks (lines 423–434): the outcome, and what is sent. -/
def sealChunks (aead : Aead) : RecordKeys → List (List UInt8) → Except TlsError Unit × List UInt8
  | _, [] => (.ok (), [])
  | keys, chunk :: chunks =>
    match keys.sealRecord aead 22 chunk [] with
    | (.error error, _, _) => (.error error, [])
    | (.ok (), keys, output) =>
      ((sealChunks aead keys chunks).1, output ++ (sealChunks aead keys chunks).2)

/-- The records of handshake texts that are sealed after `count` others. -/
def handshakeRecords (aead : Aead) (base : RecordKeys) : ℕ → List (List UInt8) → List UInt8
  | _, [] => []
  | count, text :: texts =>
    (base.keysAt count).wire aead 22 text ++ handshakeRecords aead base (count + 1) texts

/-- Chunks that are not too long are sealed in turn. -/
theorem sealChunks_eq (aead : Aead) (base : RecordKeys) {count : ℕ} {chunks : List (List UInt8)}
    (hlengths : ∀ chunk ∈ chunks, chunk.length ≤ maxPlaintext)
    (hcount : count + chunks.length < 2 ^ 64) :
    sealChunks aead (base.keysAt count) chunks =
      (.ok (), handshakeRecords aead base count chunks) := by
  induction chunks generalizing count with
  | nil => rfl
  | cons chunk chunks ih =>
    obtain ⟨hlength, hrest⟩ := List.forall_mem_cons.mp hlengths
    rw [List.length_cons] at hcount
    rw [sealChunks, sealRecord_eq 22 (by omega) hlength]
    dsimp only
    rw [ih hrest (by omega), handshakeRecords, List.nil_append]

/-- What a server has when `accept` succeeds, and the transcript hash of its keys. -/
structure Accepted where
  stream : TlsServerStream
  applicationHash : List UInt8

/-- The connection with the keys for a transcript hash (lines 450–460). -/
def Session.accepted (session : Session) (applicationHash incoming : List UInt8) : Accepted :=
  let schedule := session.schedule.finishHandshake
  { applicationHash
    stream := {
      incoming
      readKeys := fromTrafficSecret (schedule.applicationTrafficSecret false applicationHash)
      writeKeys := fromTrafficSecret (schedule.applicationTrafficSecret true applicationHash)
      pending := []
      position := 0 } }

/-- The end of the handshake (lines 435–460): the `Finished` message of the client. -/
def finishServer (session : Session) (applicationHash incoming : List UInt8) :
    Except TlsError Accepted :=
  match serverRecord incoming with
  | (.error error, _) => .error error
  | (.ok record, rest) =>
    match (fromTrafficSecret session.clientHs).openRecord p.aead record [] with
    | (.error error, _, _) => .error error
    | (.ok kind, _, plain) => do
      refuseIf (kind ≠ 22 ∨ plain.length ≠ 36 ∨ byteAt plain 0 ≠ 20) TlsError.handshake
      let expected := finishedVerifyData session.clientHs applicationHash
      let difference : UInt8 := (expected.zip (plain.drop 4)).foldl
        (fun difference (a, b) => difference ||| (a ^^^ b)) 0
      refuseIf (difference ≠ 0) TlsError.authenticationFailed
      return session.accepted applicationHash rest

/-- `TlsServerStream::accept` (lines 316–461): the outcome, and what is sent. -/
def accept (config : TlsServerConfig) (random : ServerRandom) (incoming : List UInt8) :
    Except TlsError Accepted × List UInt8 :=
  match serverRecord incoming with
  | (.error error, _) => (.error error, [])
  | (.ok first, rest) =>
    if byteAt first 0 ≠ 22 then (.error .handshake, [])
    else
      let clientHello := first.drop 5
      match answer p random clientHello with
      | .error error => (.error error, [])
      | .ok (serverHello, shared) =>
        let session := Session.start clientHello serverHello shared
        match serverFlight p config random session with
        | .error error => (.error error, sendPlain serverHello)
        | .ok flight =>
          match sealChunks p.aead (fromTrafficSecret session.serverHs)
            (flight.messages.flatMap (chunks (1 <<< 14))) with
          | (.error error, records) => (.error error, sendPlain serverHello ++ records)
          | (.ok (), records) =>
            let transcript := flight.messages.foldl Crypto.Sha256.update session.transcript
            (finishServer p session transcript.finalize rest, sendPlain serverHello ++ records)

/-- The key of a configuration signs, and its first certificate verifies what was signed. -/
def TlsServerConfig.Signs (config : TlsServerConfig) : Prop :=
  ∃ leaf, p.parseCertificate (config.certificates.headD []) = some leaf ∧
    ∀ message salt, ∃ signature,
      p.rsaPssSign config.modulus config.privateExponent message salt = some signature ∧
        p.verifyTlsPss leaf message signature.val = true

end Mrml.Tls
