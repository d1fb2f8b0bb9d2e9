import Mrml.Common.Wire
import Mrml.Tls.Record

/-!
# The key schedule of the handshake

Model of the hybrid key exchange, the transcript and the key schedule of
`crates/mrml-tls/src/lib.rs` (lines 24–111 and 136–206). HKDF, HMAC and SHA-256 are those of
`Mrml.Crypto`; ML-KEM-768, X25519, RSA-PSS and X.509 are the functions of `Primitives`, which take
what they draw at random as an argument. Neither the random source nor an allocation fails here.
-/

namespace Mrml.Tls

open Crypto RecordKeys

/-- `[u8; N]`. -/
abbrev Octets (n : ℕ) := {bytes : List UInt8 // bytes.length = n}

/-- `bytes.try_into()` for an array of `n` bytes. -/
def Octets.ofList (n : ℕ) (bytes : List UInt8) : Option (Octets n) :=
  if h : bytes.length = n then some ⟨bytes, h⟩ else none

theorem Octets.ofList_val {n : ℕ} (octets : Octets n) :
    Octets.ofList n octets.val = some octets := dif_pos octets.property

/-- The primitives that the handshake calls. -/
structure Primitives (Certificate : Type) where
  aead : Aead
  /-- `ml_kem_768_keygen` for the two seeds that it draws. -/
  mlKemKeygen : Octets 32 → Octets 32 → Octets 1184 × Octets 2400
  /-- `ml_kem_768_encapsulate` for the message that it draws. -/
  mlKemEncapsulate : Octets 1184 → Octets 32 → Option (Octets 32 × Octets 1088)
  /-- `ml_kem_768_decapsulate`. -/
  mlKemDecapsulate : Octets 2400 → Octets 1088 → Option (Octets 32)
  /-- `x25519_public`. -/
  x25519Public : Octets 32 → Octets 32
  /-- `x25519_shared`. -/
  x25519Shared : Octets 32 → Octets 32 → Option (Octets 32)
  /-- `rsa_pss_sha256_sign` with modulus, private exponent, message and salt, into a buffer as
  long as the modulus. -/
  rsaPssSign : (modulus : List UInt8) → List UInt8 → List UInt8 → Octets 32 →
    Option (Octets modulus.length)
  /-- `Certificate::parse`. -/
  parseCertificate : List UInt8 → Option Certificate
  /-- `Certificate::verify_tls_pss` with message and signature. -/
  verifyTlsPss : Certificate → List UInt8 → List UInt8 → Bool
  /-- `verify_server_chain` for the host and the chain. -/
  verifyServerChain : List UInt8 → List (List UInt8) → Bool

/-- Ideal primitives: what was encrypted is decrypted, decapsulation inverts the encapsulation to a
generated key, and the two ends of a Diffie-Hellman exchange agree. -/
structure Primitives.Ideal {Certificate : Type} (p : Primitives Certificate) : Prop where
  inverts : p.aead.Inverts
  decapsulates : ∀ d z message, ∃ secret ciphertext,
    p.mlKemEncapsulate (p.mlKemKeygen d z).1 message = some (secret, ciphertext) ∧
      p.mlKemDecapsulate (p.mlKemKeygen d z).2 ciphertext = some secret
  commutes : ∀ a b, ∃ secret, p.x25519Shared a (p.x25519Public b) = some secret ∧
    p.x25519Shared b (p.x25519Public a) = some secret

/-! ## The key exchange -/

/-- `HybridClientSecret` (lines 24–27). -/
structure HybridClientSecret where
  mlKem : Octets 2400
  x25519 : Octets 32

/-- What the client draws at random, in this order. -/
structure ClientRandom where
  mlKemD : Octets 32
  mlKemZ : Octets 32
  scalar : Octets 32
  fallback : Octets 32
  random : Octets 32
  session : Octets 32

/-- What the server draws at random, in this order. -/
structure ServerRandom where
  message : Octets 32
  scalar : Octets 32
  random : Octets 32
  salt : Octets 32

section KeyExchange

variable {Certificate : Type} (p : Primitives Certificate)

/-- `hybrid_client_share` (lines 29–49). -/
def hybridClientShare (random : ClientRandom) : List UInt8 × HybridClientSecret :=
  let (encapsulation, decapsulation) := p.mlKemKeygen random.mlKemD random.mlKemZ
  let public_ := p.x25519Public random.scalar
  (encapsulation.val ++ public_.val, { mlKem := decapsulation, x25519 := random.scalar })

/-- `hybrid_server_share` (lines 51–82): the share and the shared secret. -/
def hybridServerShare (random : ServerRandom) (client : List UInt8) :
    Except TlsError (List UInt8 × List UInt8) := do
  refuseIf (client.length ≠ 1216) TlsError.invalidRecord
  let encapsulation ← okOr (Octets.ofList 1184 (client.take 1184)) TlsError.invalidRecord
  let clientX25519 ← okOr (Octets.ofList 32 (client.drop 1184)) TlsError.invalidRecord
  let (mlSecret, ciphertext) ←
    okOr (p.mlKemEncapsulate encapsulation random.message) TlsError.authenticationFailed
  let public_ := p.x25519Public random.scalar
  let xSecret ← okOr (p.x25519Shared random.scalar clientX25519) TlsError.authenticationFailed
  return (ciphertext.val ++ public_.val, mlSecret.val ++ xSecret.val)

/-- `HybridClientSecret::complete` (lines 85–105). -/
def HybridClientSecret.complete (secret : HybridClientSecret) (server : List UInt8) :
    Except TlsError (List UInt8) := do
  refuseIf (server.length ≠ 1120) TlsError.invalidRecord
  let ciphertext ← okOr (Octets.ofList 1088 (server.take 1088)) TlsError.invalidRecord
  let public_ ← okOr (Octets.ofList 32 (server.drop 1088)) TlsError.invalidRecord
  let mlSecret ← okOr (p.mlKemDecapsulate secret.mlKem ciphertext) TlsError.authenticationFailed
  let xSecret ← okOr (p.x25519Shared secret.x25519 public_) TlsError.authenticationFailed
  return mlSecret.val ++ xSecret.val

variable {p} in
/-- Over ideal primitives both sides of the key exchange have the same secret. -/
theorem complete_hybridServerShare (h : p.Ideal) (client : ClientRandom)
    (server : ServerRandom) :
    ∃ share shared, hybridServerShare p server (hybridClientShare p client).1 =
        .ok (share, shared) ∧ share.length = 1120 ∧
      (hybridClientShare p client).2.complete p share = .ok shared := by
  obtain ⟨mlSecret, ciphertext, hencapsulate, hdecapsulate⟩ :=
    h.decapsulates client.mlKemD client.mlKemZ server.message
  obtain ⟨xSecret, hserver, hclient⟩ := h.commutes server.scalar client.scalar
  have hencapsulation := (p.mlKemKeygen client.mlKemD client.mlKemZ).1.property
  have hlength : (ciphertext.val ++ (p.x25519Public server.scalar).val).length = 1120 := by
    rw [List.length_append, ciphertext.property, (p.x25519Public server.scalar).property]
  have hoffer : ((p.mlKemKeygen client.mlKemD client.mlKemZ).1.val ++
      (p.x25519Public client.scalar).val).length = 1216 := by
    rw [List.length_append, hencapsulation, (p.x25519Public client.scalar).property]
  refine ⟨_, mlSecret.val ++ xSecret.val, ?_, hlength, ?_⟩
  · rw [hybridServerShare, hybridClientShare]
    dsimp only
    rw [refuseIf_of_not (not_not.mpr hoffer), ok_bind, List.take_left' hencapsulation,
      List.drop_left' hencapsulation, Octets.ofList_val, Octets.ofList_val, okOr_some, ok_bind,
      okOr_some, ok_bind, hencapsulate, okOr_some, ok_bind]
    dsimp only
    rw [hserver, okOr_some, ok_bind]
    rfl
  · rw [HybridClientSecret.complete, hybridClientShare]
    dsimp only
    rw [refuseIf_of_not (not_not.mpr hlength), ok_bind, List.take_left' ciphertext.property,
      List.drop_left' ciphertext.property, Octets.ofList_val, Octets.ofList_val, okOr_some, ok_bind,
      okOr_some, ok_bind, hdecapsulate, okOr_some, ok_bind, hclient, okOr_some, ok_bind]
    rfl

end KeyExchange

/-! ## The transcript -/

/-- `Transcript` (lines 136–150). -/
abbrev Transcript := Sha256

/-- The transcript of handshake messages, each added by `Transcript::update`. -/
def transcriptOf (messages : List (List UInt8)) : Transcript :=
  messages.foldl Sha256.update Sha256.new

/-- `Transcript::hash` (lines 144–146). -/
def Transcript.hash (transcript : Transcript) : List UInt8 := transcript.finalize

theorem transcriptOf_append (messages more : List (List UInt8)) :
    transcriptOf (messages ++ more) = more.foldl Sha256.update (transcriptOf messages) :=
  List.foldl_append

/-! ## The schedule -/

/-- `KeySchedule` (lines 158–160). -/
structure KeySchedule where
  secret : List UInt8
deriving DecidableEq

namespace KeySchedule

/-- `KeySchedule::new` (lines 162–166). -/
def new : KeySchedule := ⟨hkdfExtract (zeros 32) (zeros 32)⟩

/-- The secret that `mix_shared_secret` and `finish_handshake` derive. -/
def derived (schedule : KeySchedule) : List UInt8 :=
  hkdfExpandLabel schedule.secret (label "derived") (Sha256.digest []) 32

/-- `KeySchedule::mix_shared_secret` (lines 167–173). -/
def mixSharedSecret (schedule : KeySchedule) (sharedSecret : List UInt8) : KeySchedule :=
  ⟨hkdfExtract schedule.derived sharedSecret⟩

/-- `KeySchedule::traffic_secret` (lines 174–183). -/
def trafficSecret (schedule : KeySchedule) (server : Bool) (transcriptHash : List UInt8) :
    List UInt8 :=
  hkdfExpandLabel schedule.secret (label (if server then "s hs traffic" else "c hs traffic"))
    transcriptHash 32

/-- `KeySchedule::finish_handshake` (lines 184–189). -/
def finishHandshake (schedule : KeySchedule) : KeySchedule :=
  ⟨hkdfExtract schedule.derived (zeros 32)⟩

/-- `KeySchedule::application_traffic_secret` (lines 190–199). -/
def applicationTrafficSecret (schedule : KeySchedule) (server : Bool)
    (transcriptHash : List UInt8) : List UInt8 :=
  hkdfExpandLabel schedule.secret (label (if server then "s ap traffic" else "c ap traffic"))
    transcriptHash 32

end KeySchedule

/-- What the two hellos settle (`client.rs`, lines 339–346, and `server.rs`, lines 345–353). -/
structure Session where
  transcript : Transcript
  schedule : KeySchedule
  clientHs : List UInt8
  serverHs : List UInt8

/-- The session after the two hellos, which both sides start alike. -/
def Session.start (clientHello serverHello shared : List UInt8) : Session :=
  let transcript := transcriptOf [clientHello, serverHello]
  let schedule := KeySchedule.new.mixSharedSecret shared
  { transcript, schedule
    clientHs := schedule.trafficSecret false transcript.hash
    serverHs := schedule.trafficSecret true transcript.hash }

/-- `finished_verify_data` (lines 202–208). -/
def finishedVerifyData (trafficSecret transcriptHash : List UInt8) : List UInt8 :=
  let key := hkdfExpandLabel trafficSecret (label "finished") [] 32
  hmacSha256 key [transcriptHash]

@[simp] theorem length_finishedVerifyData (trafficSecret transcriptHash : List UInt8) :
    (finishedVerifyData trafficSecret transcriptHash).length = 32 := length_hmacSha256 _ _

end Mrml.Tls
