import Mrml.Common.Framing
import Mrml.Common.Reader
import Mrml.Tls.Schedule

/-!
# The messages of the handshake

Model of the writers and readers of handshake messages in `crates/mrml-tls/src/client.rs`
(lines 8–89 and 116–290) and `server.rs` (lines 8–59 and 264–306). The two files have their own copies
of the fields and of the cursor, which are the same; each is given once here. A writer returns the
bytes that it appends.
-/

namespace Mrml.Tls

/-! ## Fields -/

/-- `TLS_AES_128_GCM_SHA256` (`lib.rs`, line 20). -/
def tlsAes128GcmSha256 : ℕ := 0x1301

/-- `X25519_MLKEM768` (`lib.rs`, line 21). -/
def x25519MlKem768 : ℕ := 0x11ec

/-- `push_u16` (`client.rs`, lines 8–14) and `u16_push` (`server.rs`, lines 8–14). -/
def pushU16 (value : ℕ) : Except TlsError (List UInt8) := do
  refuseIf (value > 0xffff) TlsError.handshake
  return beBytes 2 value

/-- `push_u24` (`client.rs`, lines 15–21) and `u24_push` (`server.rs`, lines 15–21). -/
def pushU24 (value : ℕ) : Except TlsError (List UInt8) := do
  refuseIf (value > 0xffffff) TlsError.handshake
  return beBytes 3 value

/-- `extension` (`client.rs`, lines 22–27). -/
def extension (kind : ℕ) (value : List UInt8) : Except TlsError (List UInt8) := do
  return (← pushU16 kind) ++ (← pushU16 value.length) ++ value

/-- `handshake` (`server.rs`, lines 22–29); the client writes its messages alike. -/
def handshake (kind : UInt8) (body : List UInt8) : Except TlsError (List UInt8) := do
  return kind :: (← pushU24 body.length) ++ body

theorem pushU16_eq_ok {value : ℕ} (h : value < 2 ^ 16) : pushU16 value = .ok (beBytes 2 value) := by
  rw [pushU16, refuseIf_of_not (by omega)]
  rfl

theorem pushU24_eq_ok {value : ℕ} (h : value < 2 ^ 24) : pushU24 value = .ok (beBytes 3 value) := by
  rw [pushU24, refuseIf_of_not (by omega)]
  rfl

theorem handshake_eq_ok (kind : UInt8) {body : List UInt8} (h : body.length < 2 ^ 24) :
    handshake kind body = .ok (kind :: (beBytes 3 body.length ++ body)) := by
  rw [handshake, pushU24_eq_ok h]
  rfl

/-- `Cursor` (`client.rs`, lines 116–147, and `server.rs`, lines 31–59): the bytes from the
position on. -/
abbrev Cursor (α : Type) := Reader TlsError α

namespace Cursor

/-- `Cursor::take`. -/
def take (n : ℕ) : Cursor (List UInt8) := Reader.take n .handshake

/-- `Cursor::u8` and `Cursor::byte`. -/
def u8 : Cursor UInt8 := do return byteAt (← take 1) 0

/-- `Cursor::u16`. -/
def u16 : Cursor ℕ := do return beNat (← take 2)

/-- `Cursor::u24`. -/
def u24 : Cursor ℕ := do return beNat (← take 3)

/-- `Cursor::done`. -/
def done : Cursor Bool := do return (← get).isEmpty

/-- `if refused { return Err(error) }`. -/
def refuse (refused : Prop) [Decidable refused] (error : TlsError) : Cursor Unit :=
  Reader.lift (refuseIf refused error)

/-- A function of a cursor over all of `bytes`. -/
def readFrom {α : Type} (cursor : Cursor α) (bytes : List UInt8) : Except TlsError α :=
  (cursor bytes).map Prod.fst

variable {input rest : List UInt8}

theorem u8_eq_ok {byte : UInt8} : u8 input = .ok (byte, rest) ↔ input = byte :: rest := by
  show (take 1 >>= fun bytes => pure (byteAt bytes 0)) input = _ ↔ _
  rw [Reader.bind_apply_eq_ok]
  constructor
  · rintro ⟨bytes, left, htake, h⟩
    obtain ⟨hlength, rfl⟩ := Reader.take_eq_ok.mp htake
    obtain ⟨rfl, rfl⟩ := Prod.mk.inj (Except.ok.inj h)
    obtain ⟨b, rfl⟩ := List.length_eq_one_iff.mp hlength
    rfl
  · rintro rfl
    exact ⟨[byte], rest, Reader.take_eq_ok.mpr ⟨rfl, rfl⟩, rfl⟩

theorem field_eq_ok {width value : ℕ} :
    (do return beNat (← take width) : Cursor ℕ) input = .ok (value, rest) ↔
      value < 256 ^ width ∧ input = beBytes width value ++ rest := by
  show (take width >>= fun bytes => pure (beNat bytes)) input = _ ↔ _
  rw [Reader.bind_apply_eq_ok]
  constructor
  · rintro ⟨bytes, left, htake, h⟩
    obtain ⟨hlength, rfl⟩ := Reader.take_eq_ok.mp htake
    obtain ⟨rfl, rfl⟩ := Prod.mk.inj (Except.ok.inj h)
    rw [beBytes_beNat hlength]
    exact ⟨hlength ▸ beNat_lt bytes, rfl⟩
  · rintro ⟨hlt, rfl⟩
    refine ⟨beBytes width value, rest, Reader.take_eq_ok.mpr ⟨length_beBytes _ _, rfl⟩, ?_⟩
    rw [beNat_beBytes, Nat.mod_eq_of_lt hlt]
    rfl

theorem u16_eq_ok {value : ℕ} :
    u16 input = .ok (value, rest) ↔ value < 2 ^ 16 ∧ input = beBytes 2 value ++ rest :=
  field_eq_ok

theorem u24_eq_ok {value : ℕ} :
    u24 input = .ok (value, rest) ↔ value < 2 ^ 24 ∧ input = beBytes 3 value ++ rest :=
  field_eq_ok

theorem take_eq_ok {n : ℕ} {bytes : List UInt8} :
    take n input = .ok (bytes, rest) ↔ bytes.length = n ∧ input = bytes ++ rest :=
  Reader.take_eq_ok

theorem refuse_eq_ok {refused : Prop} [Decidable refused] {error : TlsError} {u : Unit} :
    refuse refused error input = .ok (u, rest) ↔ ¬refused ∧ rest = input := by
  show Reader.lift (refuseIf refused error) input = _ ↔ _
  rw [Reader.lift_eq_ok, refuseIf_eq_ok]

theorem done_eq_ok {finished : Bool} :
    done input = .ok (finished, rest) ↔ finished = input.isEmpty ∧ rest = input := by
  show Except.ok (input.isEmpty, input) = Except.ok (finished, rest) ↔ _
  rw [Except.ok.injEq, Prod.mk.injEq]
  exact and_congr eq_comm eq_comm

theorem readFrom_eq_ok {α : Type} {cursor : Cursor α} {a : α} :
    readFrom cursor input = .ok a ↔ ∃ left, cursor input = .ok (a, left) := by
  unfold readFrom
  cases cursor input with
  | error error => simp [Except.map]
  | ok result =>
    obtain ⟨b, left⟩ := result
    simp [Except.map]

section Bind

variable {α : Type} (f : List UInt8 → Cursor α) (g : ℕ → Cursor α)

theorem u8_bind (byte : UInt8) (rest : List UInt8) (f : UInt8 → Cursor α) :
    (u8 >>= f) (byte :: rest) = f byte rest := by
  rw [Reader.bind_apply, u8_eq_ok.mpr rfl, ok_bind]

theorem u16_bind {value : ℕ} (h : value < 2 ^ 16) (rest : List UInt8) :
    (u16 >>= g) (beBytes 2 value ++ rest) = g value rest := by
  rw [Reader.bind_apply, u16_eq_ok.mpr ⟨h, rfl⟩, ok_bind]

theorem u24_bind {value : ℕ} (h : value < 2 ^ 24) (rest : List UInt8) :
    (u24 >>= g) (beBytes 3 value ++ rest) = g value rest := by
  rw [Reader.bind_apply, u24_eq_ok.mpr ⟨h, rfl⟩, ok_bind]

theorem take_bind {n : ℕ} {bytes : List UInt8} (h : bytes.length = n) (rest : List UInt8) :
    (take n >>= f) (bytes ++ rest) = f bytes rest := by
  rw [Reader.bind_apply, take_eq_ok.mpr ⟨h, rfl⟩, ok_bind]

/-- The last field. -/
theorem take_all_bind {n : ℕ} {bytes : List UInt8} (h : bytes.length = n) :
    (take n >>= f) bytes = f bytes [] := by
  have htake := take_bind f h []
  rwa [List.append_nil] at htake

theorem refuse_bind {refused : Prop} [Decidable refused] (h : ¬refused) (error : TlsError)
    (f : Unit → Cursor α) (input : List UInt8) :
    (refuse refused error >>= f) input = f () input := by
  rw [Reader.bind_apply, refuse_eq_ok.mpr ⟨h, rfl⟩, ok_bind]

theorem lift_bind {β : Type} {x : Except TlsError β} {b : β} (h : x = .ok b) (f : β → Cursor α)
    (input : List UInt8) : (Reader.lift x >>= f) input = f b input := by
  rw [Reader.bind_apply, Reader.lift_eq_ok.mpr ⟨h, rfl⟩, ok_bind]

theorem done_bind (f : Bool → Cursor α) (input : List UInt8) :
    (done >>= f) input = f input.isEmpty input := rfl

end Bind

end Cursor

open Cursor

/-! ## The two hellos -/

/-- What `client_hello` returns: the message, and the secrets of its two shares. -/
structure ClientHello where
  message : List UInt8
  hybrid : HybridClientSecret
  fallback : Octets 32

/-- `client_hello` (`client.rs`, lines 29–89); `host` is the bytes of the name. -/
def clientHello {Certificate : Type} (p : Primitives Certificate) (random : ClientRandom)
    (host : List UInt8) : Except TlsError ClientHello := do
  refuseIf (host.isEmpty ∨ host.length > 253 ∨ host.any (· ≥ 128)) TlsError.handshake
  let (share, secret) := hybridClientShare p random
  let fallbackPublic := p.x25519Public random.fallback
  let sni := (← pushU16 (host.length + 3)) ++ [0] ++ (← pushU16 host.length) ++ host
  let keyShare := (← pushU16 (4 + share.length + 4 + fallbackPublic.val.length)) ++
    (← pushU16 x25519MlKem768) ++ (← pushU16 share.length) ++ share ++ (← pushU16 0x1d) ++
    (← pushU16 32) ++ fallbackPublic.val
  let extensions := (← extension 0 sni) ++ (← extension 43 [2, 3, 4]) ++
    (← extension 13 [0, 4, 8, 4, 4, 1]) ++ (← extension 10 [0, 4, 0x11, 0xec, 0, 0x1d]) ++
    (← extension 51 keyShare)
  let body := [3, 3] ++ random.random.val ++ [32] ++ random.session.val ++ (← pushU16 2) ++
    (← pushU16 tlsAes128GcmSha256) ++ [1, 0] ++ (← pushU16 extensions.length) ++ extensions
  return { message := ← handshake 1 body, hybrid := secret, fallback := random.fallback }

/-- The loop of `server_share` (`client.rs`, lines 174–192) over the extensions: whether version
1.3 was seen, and the last share. -/
def serverExtensions : ℕ → Bool → Option (ℕ × List UInt8) →
    Cursor (Bool × Option (ℕ × List UInt8))
  | 0, version, share => return (version, share)
  | fuel + 1, version, share => do
    if ← done then return (version, share)
    else
      let kind ← u16
      let valueLength ← u16
      let value ← take valueLength
      if kind = 43 ∧ value = [3, 4] then serverExtensions fuel true share
      else if kind = 51 then
        let keyShare ← Reader.lift <| readFrom (do
          let group ← u16
          let length ← u16
          let bytes ← take length
          let finished ← done
          refuse (¬finished ∨ ¬((group = x25519MlKem768 ∧ length = 1120) ∨
            (group = 0x1d ∧ length = 32))) .handshake
          return (group, bytes)) value
        serverExtensions fuel version (some keyShare)
      else serverExtensions fuel version share

/-- `server_share` (`client.rs`, lines 149–197): the group and the key of the server. -/
def serverShare (message : List UInt8) : Except TlsError (ℕ × List UInt8) :=
  readFrom (do
    refuse ((← u8) ≠ 2) .handshake
    refuse ((← u24) ≠ message.length - 4) .handshake
    refuse ((← take 2) ≠ [3, 3]) .handshake
    let _ ← take 32
    let sid ← u8
    let _ ← take sid.toNat
    refuse ((← u16) ≠ tlsAes128GcmSha256) .handshake
    refuse ((← u8) ≠ 0) .handshake
    let extensionsLength ← u16
    let extensions ← take extensionsLength
    refuse (¬(← done)) .handshake
    let (version, share) ← Reader.lift <|
      readFrom (serverExtensions extensions.length false none) extensions
    refuse (¬version) .handshake
    Reader.lift (okOr share .handshake)) message

/-- The loop of `client_share` over the shares of a `key_share` extension (`server.rs`,
lines 295–302): the first hybrid share. -/
def clientShares : ℕ → Cursor (Option (List UInt8))
  | 0 => return none
  | fuel + 1 => do
    if ← done then return none
    else
      let group ← u16
      let length ← u16
      let share ← take length
      if group = x25519MlKem768 ∧ length = 1216 then return some share
      else clientShares fuel

/-- The loop of `client_share` over the extensions (lines 287–304). -/
def clientExtensions : ℕ → Cursor (List UInt8)
  | 0 => Reader.lift (.error .handshake)
  | fuel + 1 => do
    if ← done then Reader.lift (.error .handshake)
    else
      let kind ← u16
      let length ← u16
      let value ← take length
      if kind = 51 then
        let share ← Reader.lift <| readFrom (do
          let total ← u16
          let shares ← take total
          Reader.lift (readFrom (clientShares shares.length) shares)) value
        match share with
        | some share => return share
        | none => clientExtensions fuel
      else clientExtensions fuel

/-- `offered.chunks_exact(2)`. -/
def chunksExact2 : List UInt8 → List (List UInt8)
  | a :: b :: rest => [a, b] :: chunksExact2 rest
  | _ => []

/-- `client_share` (`server.rs`, lines 265–306): the session and the hybrid share. -/
def clientShare (message : List UInt8) : Except TlsError (List UInt8 × List UInt8) :=
  readFrom (do
    refuse ((← u8) ≠ 1) .handshake
    refuse ((← u24) ≠ message.length - 4) .handshake
    refuse ((← take 2) ≠ [3, 3]) .handshake
    let _ ← take 32
    let sid ← u8
    let session ← take sid.toNat
    let suites ← u16
    let offered ← take suites
    refuse (beBytes 2 tlsAes128GcmSha256 ∉ chunksExact2 offered) .handshake
    let compression ← u8
    let _ ← take compression.toNat
    let extensionsLength ← u16
    let extensions ← take extensionsLength
    refuse (¬(← done)) .handshake
    let share ← Reader.lift <| readFrom (clientExtensions extensions.length) extensions
    return (session, share)) message

/-! ## The messages of the server's flight -/

/-- The messages that a server sends under the keys of the handshake. -/
structure ServerFlight where
  extensions : List UInt8
  certificate : List UInt8
  verify : List UInt8
  finished : List UInt8

/-- In the order in which they are sent. -/
def ServerFlight.messages (flight : ServerFlight) : List (List UInt8) :=
  [flight.extensions, flight.certificate, flight.verify, flight.finished]

/-- The bytes of the messages. -/
def ServerFlight.bytes (flight : ServerFlight) : List UInt8 := flight.messages.flatten

/-- `handshake_message` (`client.rs`, lines 199–219): the first message of the buffer, if it is
complete, and what is left of the buffer. The length of a message never exceeds 2²⁴ - 1, which
the code checks. -/
def handshakeMessage (buffer : List UInt8) : Option (List UInt8 × List UInt8) :=
  if buffer.length < 4 then none
  else
    let len := beNat (slice buffer 1 3)
    if buffer.length < 4 + len then none
    else some (buffer.take (4 + len), buffer.drop (4 + len))

/-- The length in the header is that of the first message, which is a prefix of the buffer. -/
theorem handshakeMessage_eq_some {buffer message rest : List UInt8} :
    handshakeMessage buffer = some (message, rest) ↔
      message.length = 4 + beNat (slice message 1 3) ∧ buffer = message ++ rest := by
  have hlen : ∀ (front back : List UInt8), 4 ≤ front.length →
      slice (front ++ back) 1 3 = slice front 1 3 := by
    intro front back hfront
    have hdrop : 3 ≤ (front.drop 1).length := by
      rw [List.length_drop]
      omega
    rw [slice, slice, List.drop_append_of_le_length (by omega),
      List.take_append_of_le_length hdrop]
  unfold handshakeMessage
  constructor
  · intro h
    split_ifs at h with hheader
    dsimp only at h
    split_ifs at h with hbody
    obtain ⟨rfl, rfl⟩ := Prod.mk.inj (Option.some.inj h)
    refine ⟨?_, (List.take_append_drop _ _).symm⟩
    have hsame := hlen (buffer.take (4 + beNat (slice buffer 1 3)))
      (buffer.drop (4 + beNat (slice buffer 1 3))) (by rw [List.length_take]; omega)
    rw [List.take_append_drop] at hsame
    rw [← hsame, List.length_take]
    omega
  · rintro ⟨hlength, rfl⟩
    rw [hlen _ _ (by omega), if_neg (by rw [List.length_append]; omega)]
    dsimp only
    rw [if_neg (by rw [List.length_append]; omega), ← hlength, List.take_left, List.drop_left]

/-- The message at the front of a buffer, as `handshakeMessage` takes it off. -/
def handshakeFraming : Framing UInt8 where
  next := handshakeMessage
  split h := (handshakeMessage_eq_some.mp h).2
  ne_nil h := by
    have hlength := (handshakeMessage_eq_some.mp h).1
    exact List.length_pos_iff.mp (by omega)
  extend h more := handshakeMessage_eq_some.mpr ⟨(handshakeMessage_eq_some.mp h).1, rfl⟩

/-- A message is a frame if its header states its length. -/
theorem isFrame_iff {message : List UInt8} :
    handshakeFraming.IsFrame message ↔ message.length = 4 + beNat (slice message 1 3) := by
  show handshakeMessage message = some (message, []) ↔ _
  rw [handshakeMessage_eq_some, List.append_nil, and_iff_left rfl]

/-- The loop of `certificate_chain` (`client.rs`, lines 241–256) over the entries. -/
def certificateEntries : ℕ → List (List UInt8) → Cursor (List (List UInt8))
  | 0, storage => return storage
  | fuel + 1, storage => do
    if ← done then return storage
    else
      let derLength ← u24
      refuse (storage.length ≥ 8 ∨ derLength > 64 * 1024) .certificate
      let der ← take derLength
      let ext ← u16
      let _ ← take ext
      certificateEntries fuel (storage ++ [der])

/-- `certificate_chain` (`client.rs`, lines 221–262). -/
def certificateChain (message : List UInt8) : Except TlsError (List (List UInt8)) :=
  readFrom (do
    refuse ((← u8) ≠ 11) .handshake
    refuse ((← u24) ≠ message.length - 4) .handshake
    let context ← u8
    if context ≠ 0 then
      let _ ← take context.toNat
      Reader.lift (.error .handshake)
    else
      let listLength ← u24
      let list ← take listLength
      refuse (¬(← done)) .handshake
      let storage ← Reader.lift <| readFrom (certificateEntries list.length []) list
      refuse storage.isEmpty .certificate
      return storage) message

/-- The content that a `CertificateVerify` signs (`client.rs`, lines 282–291, and `server.rs`,
lines 388–397). -/
def signedContent (transcriptHash : List UInt8) : List UInt8 :=
  List.replicate 64 0x20 ++ RecordKeys.label "TLS 1.3, server CertificateVerify\x00" ++
    transcriptHash

/-- `verify_certificate_message` (`client.rs`, lines 264–294). -/
def verifyCertificateMessage {Certificate : Type} (p : Primitives Certificate)
    (message transcriptHash : List UInt8) (leaf : Certificate) : Except TlsError Unit := do
  let signature ← readFrom (do
    refuse ((← u8) ≠ 15) .handshake
    refuse ((← u24) ≠ message.length - 4) .handshake
    refuse ((← u16) ≠ 0x0804) .handshake
    let signatureLength ← u16
    let signature ← take signatureLength
    refuse (¬(← done)) .handshake
    return signature) message
  refuseIf (¬p.verifyTlsPss leaf (signedContent transcriptHash) signature) .authenticationFailed

end Mrml.Tls
