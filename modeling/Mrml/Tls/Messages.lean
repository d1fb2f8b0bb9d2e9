import Mrml.Tls.Client
import Mrml.Tls.Server

/-!
# The messages that the two sides write are read by the other

Results:
* `sendPlainHandshake_spec`: a hello passes in a record without a key.
* `clientHello_spec`: the server reads the session and the share of a `ClientHello`.
* `answer_spec`: the client reads the share of a `ServerHello`.
* `certificateChain_spec`: the client reads the chain of a configuration.
-/

namespace Mrml.Tls

open Cursor RecordKeys

variable {Certificate : Type} (p : Primitives Certificate)

/-! ## Records without a key -/

/-- The length in the header of a record. -/
theorem beNat_lengthBytes {length : ℕ} (h : length < 2 ^ 16) :
    beNat [UInt8.ofNat (length >>> 8), UInt8.ofNat length] = length := by
  rw [beNat, Nat.shiftRight_eq_div_pow]
  simp only [List.reverse_cons, List.reverse_nil, List.nil_append, List.cons_append, leNat,
    UInt8.toNat_ofNat']
  omega

/-- The client reads a hello of the server. -/
theorem clientRecord_sendPlain {message : List UInt8} (h : message.length ≤ maxPlaintext)
    (rest : List UInt8) : clientRecord (sendPlain message ++ rest) = (.ok (22, message), rest) := by
  have hmax : maxPlaintext = 16384 := rfl
  have hread := readRecord_append (fun header => slice header 1 2 == [3, 3])
    (show [22, 3, 3, UInt8.ofNat (message.length >>> 8), UInt8.ofNat message.length].length = 5
      from rfl) rfl (beNat_lengthBytes (by omega)) (by omega) rest
  rw [clientRecord, sendPlain, List.append_assoc, hread]
  rfl

/-- The client sends its hello, and the server reads it. -/
theorem sendPlainHandshake_spec {message : List UInt8} (h : message.length ≤ maxPlaintext) :
    ∃ head, sendPlainHandshake message = .ok (head ++ message) ∧ head.length = 5 ∧
      byteAt head 0 = 22 ∧
      ∀ rest, serverRecord (head ++ message ++ rest) = (.ok (head ++ message), rest) := by
  have hmax : maxPlaintext = 16384 := rfl
  refine ⟨[22, 3, 1, UInt8.ofNat (message.length >>> 8), UInt8.ofNat message.length], ?_, rfl, rfl,
    fun rest => ?_⟩
  · rw [sendPlainHandshake, refuseIf_of_not (by omega)]
    rfl
  · have hread := readRecord_append (fun header => byteAt header 1 == 3 &&
        1 ≤ byteAt header 2 && byteAt header 2 ≤ 3)
      (show [22, 3, 1, UInt8.ofNat (message.length >>> 8), UInt8.ofNat message.length].length = 5
        from rfl) rfl (beNat_lengthBytes (by omega)) (by omega) rest
    rw [serverRecord, List.append_assoc, hread]
    rfl

/-! ## Extensions -/

/-- An extension, as `extension` writes it. -/
def extensionBytes (kind : ℕ) (value : List UInt8) : List UInt8 :=
  beBytes 2 kind ++ (beBytes 2 value.length ++ value)

theorem length_extensionBytes (kind : ℕ) (value : List UInt8) :
    (extensionBytes kind value).length = value.length + 4 := by
  simp only [extensionBytes, List.length_append, length_beBytes]
  omega

theorem extension_eq_ok {kind : ℕ} {value : List UInt8} (hkind : kind < 2 ^ 16)
    (hvalue : value.length < 2 ^ 16) : extension kind value = .ok (extensionBytes kind value) := by
  rw [extension, pushU16_eq_ok hkind, pushU16_eq_ok hvalue, extensionBytes]
  show Except.ok (beBytes 2 kind ++ beBytes 2 value.length ++ value) = _
  rw [List.append_assoc]

theorem isEmpty_extensionBytes (kind : ℕ) (value rest : List UInt8) :
    (extensionBytes kind value ++ rest).isEmpty = false := by
  rw [List.isEmpty_eq_false_iff]
  intro hnil
  have hlength := congrArg List.length hnil
  rw [List.length_append, length_extensionBytes, List.length_nil] at hlength
  omega

/-- The server passes over the extensions that it does not look for. -/
theorem clientExtensions_skip {kind : ℕ} {value : List UInt8} (hkind : kind < 2 ^ 16)
    (hvalue : value.length < 2 ^ 16) (hother : kind ≠ 51) (fuel : ℕ) (rest : List UInt8) :
    clientExtensions (fuel + 1) (extensionBytes kind value ++ rest) =
      clientExtensions fuel rest := by
  rw [clientExtensions, done_bind, isEmpty_extensionBytes, if_neg Bool.false_ne_true,
    extensionBytes]
  simp only [List.append_assoc]
  rw [u16_bind _ hkind, u16_bind _ hvalue, take_bind _ rfl, if_neg hother]

/-- The server finds a hybrid share that comes first. -/
theorem clientExtensions_share {value shares share : List UInt8} {fuel : ℕ}
    (hvalue : value.length < 2 ^ 16) (hshares : value = beBytes 2 shares.length ++ shares)
    (hshare : readFrom (clientShares shares.length) shares = .ok (some share))
    (rest : List UInt8) :
    clientExtensions (fuel + 1) (extensionBytes 51 value ++ rest) = .ok (share, rest) := by
  have hlength : shares.length < 2 ^ 16 := by
    rw [hshares, List.length_append, length_beBytes] at hvalue
    omega
  have hread : readFrom (do
      let total ← u16
      let shares ← take total
      Reader.lift (readFrom (clientShares shares.length) shares)) value = .ok (some share) := by
    rw [readFrom_eq_ok, hshares, u16_bind _ hlength, take_all_bind _ rfl]
    exact ⟨[], Reader.lift_eq_ok.mpr ⟨hshare, rfl⟩⟩
  rw [clientExtensions, done_bind, isEmpty_extensionBytes, if_neg Bool.false_ne_true,
    extensionBytes]
  simp only [List.append_assoc]
  rw [u16_bind _ (by decide), u16_bind _ hvalue, take_bind _ rfl, if_pos rfl, lift_bind hread]
  rfl

/-! ## The `ClientHello` -/

/-- The host names that a client connects to (`client.rs`, line 30). -/
def HostName (host : List UInt8) : Prop :=
  host ≠ [] ∧ host.length ≤ 253 ∧ ∀ byte ∈ host, byte < 128

/-- The shares that a client offers. -/
def offeredShares (share fallback : List UInt8) : List UInt8 :=
  beBytes 2 x25519MlKem768 ++ (beBytes 2 share.length ++ (share ++ (beBytes 2 0x1d ++
    (beBytes 2 32 ++ fallback))))

/-- The extensions of a `ClientHello`. -/
def clientHelloExtensions (host shares : List UInt8) : List UInt8 :=
  extensionBytes 0 (beBytes 2 (host.length + 3) ++ ([0] ++ (beBytes 2 host.length ++ host))) ++
    (extensionBytes 43 [2, 3, 4] ++ (extensionBytes 13 [0, 4, 8, 4, 4, 1] ++
    (extensionBytes 10 [0, 4, 0x11, 0xec, 0, 0x1d] ++
    extensionBytes 51 (beBytes 2 shares.length ++ shares))))

/-- The body of a `ClientHello`. -/
def clientHelloBody (random session extensions : List UInt8) : List UInt8 :=
  [3, 3] ++ (random ++ ([32] ++ (session ++ (beBytes 2 2 ++ (beBytes 2 tlsAes128GcmSha256 ++
    ([1] ++ ([0] ++ (beBytes 2 extensions.length ++ extensions))))))))

theorem length_hybridClientShare (random : ClientRandom) :
    (hybridClientShare p random).1.length = 1216 := by
  rw [hybridClientShare]
  dsimp only
  rw [List.length_append, (p.mlKemKeygen _ _).1.property, (p.x25519Public _).property]

theorem length_offeredShares (share fallback : List UInt8) :
    (offeredShares share fallback).length = 4 + share.length + 4 + fallback.length := by
  simp only [offeredShares, List.length_append, length_beBytes]
  omega

theorem length_clientHelloExtensions (host shares : List UInt8) :
    (clientHelloExtensions host shares).length = host.length + shares.length + 42 := by
  simp only [clientHelloExtensions, List.length_append, length_extensionBytes, length_beBytes,
    List.length_cons, List.length_nil]
  omega

theorem length_clientHelloBody (random session extensions : List UInt8) :
    (clientHelloBody random session extensions).length =
      random.length + session.length + extensions.length + 11 := by
  simp only [clientHelloBody, List.length_append, length_beBytes, List.length_cons,
    List.length_nil]
  omega

theorem clientHello_eq {random : ClientRandom} {host : List UInt8} (hhost : HostName host) :
    clientHello p random host = .ok {
      message := 1 :: (beBytes 3 (clientHelloBody random.random.val random.session.val
          (clientHelloExtensions host (offeredShares (hybridClientShare p random).1
            (p.x25519Public random.fallback).val))).length ++
        clientHelloBody random.random.val random.session.val
          (clientHelloExtensions host (offeredShares (hybridClientShare p random).1
            (p.x25519Public random.fallback).val)))
      hybrid := (hybridClientShare p random).2
      fallback := random.fallback } := by
  obtain ⟨hne, hlong, hascii⟩ := hhost
  have hrefused : ¬(host.isEmpty ∨ host.length > 253 ∨ host.any (· ≥ 128)) := by
    simpa [hne, not_lt.mpr hlong] using hascii
  have hshare := length_hybridClientShare p random
  have hfallback := (p.x25519Public random.fallback).property
  rw [clientHello, refuseIf_of_not hrefused, ok_bind]
  generalize hybridClientShare p random = pair at *
  obtain ⟨share, secret⟩ := pair
  generalize p.x25519Public random.fallback = fallback at *
  dsimp only at hshare ⊢
  have hshares := length_offeredShares share fallback.val
  have hextensions := length_clientHelloExtensions host (offeredShares share fallback.val)
  have hbody := length_clientHelloBody random.random.val random.session.val
    (clientHelloExtensions host (offeredShares share fallback.val))
  rw [random.random.property, random.session.property] at hbody
  have hkeyShare : beBytes 2 (4 + share.length + 4 + fallback.val.length) ++
      beBytes 2 x25519MlKem768 ++ beBytes 2 share.length ++ share ++ beBytes 2 0x1d ++
      beBytes 2 32 ++ fallback.val =
        beBytes 2 (offeredShares share fallback.val).length ++ offeredShares share fallback.val := by
    rw [hshares]
    simp only [offeredShares, List.append_assoc]
  rw [pushU16_eq_ok (by omega), pushU16_eq_ok (by omega), pushU16_eq_ok (by omega),
    pushU16_eq_ok (by decide), pushU16_eq_ok (by omega), pushU16_eq_ok (by decide),
    pushU16_eq_ok (by decide)]
  simp only [ok_bind]
  rw [hkeyShare, extension_eq_ok (by decide) (by simp; omega), extension_eq_ok (by decide)
    (by decide), extension_eq_ok (by decide) (by decide), extension_eq_ok (by decide) (by decide),
    extension_eq_ok (by decide) (by simp; omega)]
  simp only [ok_bind]
  have hall : extensionBytes 0 (beBytes 2 (host.length + 3) ++ [0] ++ beBytes 2 host.length ++
      host) ++ extensionBytes 43 [2, 3, 4] ++ extensionBytes 13 [0, 4, 8, 4, 4, 1] ++
      extensionBytes 10 [0, 4, 17, 236, 0, 29] ++ extensionBytes 51
        (beBytes 2 (offeredShares share fallback.val).length ++ offeredShares share fallback.val) =
      clientHelloExtensions host (offeredShares share fallback.val) := by
    simp only [clientHelloExtensions, List.append_assoc]
  have hwhole : [3, 3] ++ random.random.val ++ [32] ++ random.session.val ++ beBytes 2 2 ++
      beBytes 2 tlsAes128GcmSha256 ++ [1, 0] ++
      beBytes 2 (clientHelloExtensions host (offeredShares share fallback.val)).length ++
      clientHelloExtensions host (offeredShares share fallback.val) =
      clientHelloBody random.random.val random.session.val
        (clientHelloExtensions host (offeredShares share fallback.val)) := by
    simp only [clientHelloBody, List.append_assoc, List.cons_append, List.nil_append]
  rw [hall, pushU16_eq_ok (by decide), pushU16_eq_ok (by decide), pushU16_eq_ok (by omega)]
  simp only [ok_bind]
  rw [hwhole, handshake_eq_ok 1 (by omega)]
  rfl

/-- The server finds the hybrid share of the offered ones. -/
theorem clientShares_offered {share fallback : List UInt8} (hshare : share.length = 1216) :
    readFrom (clientShares (offeredShares share fallback).length) (offeredShares share fallback) =
      .ok (some share) := by
  have hfuel : (offeredShares share fallback).length =
      4 + share.length + 4 + fallback.length - 1 + 1 := by
    rw [length_offeredShares]
    omega
  have hempty : (offeredShares share fallback).isEmpty = false := by
    rw [List.isEmpty_eq_false_iff, ← List.length_pos_iff, hfuel]
    omega
  rw [readFrom_eq_ok, hfuel, clientShares, done_bind, hempty, if_neg Bool.false_ne_true,
    offeredShares, u16_bind _ (by decide), u16_bind _ (by omega), take_bind _ rfl,
    if_pos ⟨rfl, hshare⟩]
  exact ⟨_, rfl⟩

/-- The server reads the share out of the extensions of a `ClientHello`. -/
theorem clientExtensions_hello {host share fallback : List UInt8} (hhost : host.length ≤ 253)
    (hshare : share.length = 1216) (hfallback : fallback.length = 32) :
    readFrom (clientExtensions (clientHelloExtensions host (offeredShares share fallback)).length)
      (clientHelloExtensions host (offeredShares share fallback)) = .ok share := by
  have hlength := length_clientHelloExtensions host (offeredShares share fallback)
  have hshares := length_offeredShares share fallback
  obtain ⟨fuel, hfuel⟩ : ∃ fuel,
      (clientHelloExtensions host (offeredShares share fallback)).length = fuel + 5 :=
    ⟨host.length + (offeredShares share fallback).length + 37, by omega⟩
  have hname : (beBytes 2 (host.length + 3) ++ ([0] ++ (beBytes 2 host.length ++ host))).length <
      2 ^ 16 := by
    simp only [List.length_append, length_beBytes, List.length_cons, List.length_nil]
    omega
  have hvalue : (beBytes 2 (offeredShares share fallback).length ++
      offeredShares share fallback).length < 2 ^ 16 := by
    rw [List.length_append, length_beBytes]
    omega
  rw [readFrom_eq_ok, hfuel, clientHelloExtensions]
  rw [clientExtensions_skip (by decide) hname (by decide),
    clientExtensions_skip (by decide) (by decide) (by decide),
    clientExtensions_skip (by decide) (by decide) (by decide),
    clientExtensions_skip (by decide) (by decide) (by decide),
    ← List.append_nil (extensionBytes 51 _),
    clientExtensions_share hvalue rfl (clientShares_offered hshare)]
  exact ⟨[], rfl⟩

/-- The server reads the session and the share of a `ClientHello`. -/
theorem clientShare_hello {random session extensions share : List UInt8}
    (hrandom : random.length = 32) (hsession : session.length = 32)
    (hextensions : extensions.length < 2 ^ 16)
    (hshare : readFrom (clientExtensions extensions.length) extensions = .ok share) :
    clientShare (1 :: (beBytes 3 (clientHelloBody random session extensions).length ++
      clientHelloBody random session extensions)) = .ok (session, share) := by
  have hbody := length_clientHelloBody random session extensions
  have hmessage : (1 :: (beBytes 3 (clientHelloBody random session extensions).length ++
      clientHelloBody random session extensions)).length - 4 =
        (clientHelloBody random session extensions).length := by
    rw [List.length_cons, List.length_append, length_beBytes]
    omega
  have hsize : (clientHelloBody random session extensions).length < 2 ^ 24 := by omega
  have hversion : ([3, 3] : List UInt8).length = 2 := rfl
  have hsession' : session.length = (32 : UInt8).toNat := hsession
  have hnull : ([0] : List UInt8).length = (1 : UInt8).toNat := rfl
  have hsuites : (beBytes 2 tlsAes128GcmSha256).length = 2 := rfl
  have hsuite : ¬beBytes 2 tlsAes128GcmSha256 ∉ chunksExact2 (beBytes 2 tlsAes128GcmSha256) := by
    decide
  rw [clientShare, hmessage, readFrom_eq_ok, u8_bind, refuse_bind (not_not.mpr rfl),
    u24_bind _ hsize, refuse_bind (not_not.mpr rfl), clientHelloBody, take_bind _ hversion,
    refuse_bind (not_not.mpr rfl), take_bind _ hrandom, List.singleton_append, u8_bind,
    take_bind _ hsession', u16_bind _ (by decide), take_bind _ hsuites, refuse_bind hsuite,
    List.singleton_append, u8_bind, take_bind _ hnull, u16_bind _ hextensions,
    take_all_bind _ rfl, done_bind, refuse_bind (not_not.mpr List.isEmpty_nil), lift_bind hshare]
  exact ⟨[], rfl⟩

/-- **Main theorem.** A client writes its hello for every host name, and the server reads the
session and the hybrid share. -/
theorem clientHello_spec {host : List UInt8} (hhost : HostName host) (random : ClientRandom) :
    ∃ message, clientHello p random host = .ok {
        message, hybrid := (hybridClientShare p random).2, fallback := random.fallback } ∧
      message.length ≤ maxPlaintext ∧
      clientShare message = .ok (random.session.val, (hybridClientShare p random).1) := by
  have hshare := length_hybridClientShare p random
  have hfallback := (p.x25519Public random.fallback).property
  have hshares := length_offeredShares (hybridClientShare p random).1
    (p.x25519Public random.fallback).val
  have hextensions := length_clientHelloExtensions host (offeredShares (hybridClientShare p random).1
    (p.x25519Public random.fallback).val)
  have hbody := length_clientHelloBody random.random.val random.session.val
    (clientHelloExtensions host (offeredShares (hybridClientShare p random).1
      (p.x25519Public random.fallback).val))
  have hhost' := hhost.2.1
  have hmax : maxPlaintext = 16384 := rfl
  rw [random.random.property, random.session.property] at hbody
  refine ⟨_, clientHello_eq p hhost, ?_, ?_⟩
  · rw [List.length_cons, List.length_append, length_beBytes]
    omega
  · exact clientShare_hello random.random.property random.session.property (by omega)
      (clientExtensions_hello hhost' hshare hfallback)

/-! ## The `ServerHello` -/

/-- The extensions of a `ServerHello`. -/
def serverHelloExtensions (share : List UInt8) : List UInt8 :=
  extensionBytes 43 [3, 4] ++
    extensionBytes 51 (beBytes 2 x25519MlKem768 ++ (beBytes 2 share.length ++ share))

/-- The body of a `ServerHello`. -/
def serverHelloBody (random session extensions : List UInt8) : List UInt8 :=
  [3, 3] ++ (random ++ ([UInt8.ofNat session.length] ++ (session ++
    (beBytes 2 tlsAes128GcmSha256 ++ ([0] ++ (beBytes 2 extensions.length ++ extensions))))))

theorem length_serverHelloExtensions (share : List UInt8) :
    (serverHelloExtensions share).length = share.length + 14 := by
  simp only [serverHelloExtensions, List.length_append, length_extensionBytes, length_beBytes,
    List.length_cons, List.length_nil]
  omega

theorem length_serverHelloBody (random session extensions : List UInt8) :
    (serverHelloBody random session extensions).length =
      random.length + session.length + extensions.length + 8 := by
  simp only [serverHelloBody, List.length_append, length_beBytes, List.length_cons,
    List.length_nil]
  omega

/-- The client notes version 1.3. -/
theorem serverExtensions_version (fuel : ℕ) (version : Bool) (share : Option (ℕ × List UInt8))
    (rest : List UInt8) :
    serverExtensions (fuel + 1) version share (extensionBytes 43 [3, 4] ++ rest) =
      serverExtensions fuel true share rest := by
  have hversion : ([3, 4] : List UInt8).length < 2 ^ 16 := by decide
  rw [serverExtensions, done_bind, isEmpty_extensionBytes, if_neg Bool.false_ne_true,
    extensionBytes]
  simp only [List.append_assoc]
  rw [u16_bind _ (by decide), u16_bind _ hversion, take_bind _ rfl, if_pos ⟨rfl, rfl⟩]

/-- The client takes a hybrid share. -/
theorem serverExtensions_share {value bytes : List UInt8} (hbytes : bytes.length = 1120)
    (hvalue : value = beBytes 2 x25519MlKem768 ++ (beBytes 2 bytes.length ++ bytes)) (fuel : ℕ)
    (version : Bool) (share : Option (ℕ × List UInt8)) (rest : List UInt8) :
    serverExtensions (fuel + 1) version share (extensionBytes 51 value ++ rest) =
      serverExtensions fuel version (some (x25519MlKem768, bytes)) rest := by
  have hgroup : x25519MlKem768 < 2 ^ 16 := by decide
  have hsize : bytes.length < 2 ^ 16 := by omega
  have hlength : value.length < 2 ^ 16 := by
    rw [hvalue]
    simp only [List.length_append, length_beBytes]
    omega
  have hread : readFrom (do
      let group ← u16
      let length ← u16
      let bytes ← take length
      let finished ← done
      refuse (¬finished ∨ ¬((group = x25519MlKem768 ∧ length = 1120) ∨
        (group = 0x1d ∧ length = 32))) .handshake
      return (group, bytes)) value = .ok (x25519MlKem768, bytes) := by
    rw [readFrom_eq_ok, hvalue, u16_bind _ hgroup, u16_bind _ hsize, take_all_bind _ rfl,
      done_bind, refuse_bind (by simp [hbytes])]
    exact ⟨[], rfl⟩
  rw [serverExtensions, done_bind, isEmpty_extensionBytes, if_neg Bool.false_ne_true,
    extensionBytes]
  simp only [List.append_assoc]
  rw [u16_bind _ (by decide), u16_bind _ hlength, take_bind _ rfl,
    if_neg (fun h => absurd h.1 (by decide)), if_pos rfl, lift_bind hread]

/-- The client reads the hybrid share out of the extensions of a `ServerHello`. -/
theorem serverExtensions_hello {share : List UInt8} (hshare : share.length = 1120) :
    readFrom (serverExtensions (serverHelloExtensions share).length false none)
      (serverHelloExtensions share) = .ok (true, some (x25519MlKem768, share)) := by
  have hlength := length_serverHelloExtensions share
  obtain ⟨fuel, hfuel⟩ : ∃ fuel, (serverHelloExtensions share).length = fuel + 3 :=
    ⟨share.length + 11, by omega⟩
  rw [readFrom_eq_ok, hfuel, serverHelloExtensions, serverExtensions_version,
    ← List.append_nil (extensionBytes 51 _), serverExtensions_share hshare rfl]
  exact ⟨[], rfl⟩

/-- The client reads the share of a `ServerHello`. -/
theorem serverShare_hello {random session extensions share : List UInt8}
    (hrandom : random.length = 32) (hsession : session.length < 256)
    (hextensions : extensions.length < 2 ^ 16)
    (hshare : readFrom (serverExtensions extensions.length false none) extensions =
      .ok (true, some (x25519MlKem768, share))) :
    serverShare (2 :: (beBytes 3 (serverHelloBody random session extensions).length ++
      serverHelloBody random session extensions)) = .ok (x25519MlKem768, share) := by
  have hbody := length_serverHelloBody random session extensions
  have hmessage : (2 :: (beBytes 3 (serverHelloBody random session extensions).length ++
      serverHelloBody random session extensions)).length - 4 =
        (serverHelloBody random session extensions).length := by
    rw [List.length_cons, List.length_append, length_beBytes]
    omega
  have hsize : (serverHelloBody random session extensions).length < 2 ^ 24 := by omega
  have hversion : ([3, 3] : List UInt8).length = 2 := rfl
  have hsession' : session.length = (UInt8.ofNat session.length).toNat := by
    rw [UInt8.toNat_ofNat', Nat.mod_eq_of_lt hsession]
  rw [serverShare, hmessage, readFrom_eq_ok, u8_bind, refuse_bind (not_not.mpr rfl),
    u24_bind _ hsize, refuse_bind (not_not.mpr rfl), serverHelloBody, take_bind _ hversion,
    refuse_bind (not_not.mpr rfl), take_bind _ hrandom, List.singleton_append, u8_bind,
    take_bind _ hsession', u16_bind _ (by decide), refuse_bind (not_not.mpr rfl),
    List.singleton_append, u8_bind, refuse_bind (not_not.mpr rfl), u16_bind _ hextensions,
    take_all_bind _ rfl, done_bind, refuse_bind (not_not.mpr List.isEmpty_nil), lift_bind hshare]
  exact ⟨[], rfl⟩

/-- **Main theorem.** A server answers a hello that it can read, and the client reads the share of
the answer. -/
theorem answer_spec {random : ServerRandom} {clientHello session share serverKey shared : List UInt8}
    (hclient : clientShare clientHello = .ok (session, share)) (hsession : session.length < 256)
    (hserver : hybridServerShare p random share = .ok (serverKey, shared))
    (hkey : serverKey.length = 1120) :
    ∃ message, answer p random clientHello = .ok (message, shared) ∧
      message.length ≤ maxPlaintext ∧ serverShare message = .ok (x25519MlKem768, serverKey) := by
  have hextensions := length_serverHelloExtensions serverKey
  have hbody := length_serverHelloBody random.random.val session (serverHelloExtensions serverKey)
  have hmax : maxPlaintext = 16384 := rfl
  rw [random.random.property] at hbody
  have hext : beBytes 2 43 ++ beBytes 2 2 ++ [3, 4] ++ beBytes 2 51 ++
      beBytes 2 (4 + serverKey.length) ++ beBytes 2 x25519MlKem768 ++ beBytes 2 serverKey.length ++
      serverKey = serverHelloExtensions serverKey := by
    have hsize : 4 + serverKey.length =
        (beBytes 2 x25519MlKem768 ++ (beBytes 2 serverKey.length ++ serverKey)).length := by
      simp only [List.length_append, length_beBytes]
      omega
    rw [serverHelloExtensions, extensionBytes, extensionBytes, ← hsize]
    simp only [List.append_assoc]
    rfl
  have hwhole : [3, 3] ++ random.random.val ++ [UInt8.ofNat session.length] ++ session ++
      beBytes 2 tlsAes128GcmSha256 ++ [0] ++ beBytes 2 (serverHelloExtensions serverKey).length ++
      serverHelloExtensions serverKey =
      serverHelloBody random.random.val session (serverHelloExtensions serverKey) := by
    simp only [serverHelloBody, List.append_assoc]
  refine ⟨2 :: (beBytes 3 (serverHelloBody random.random.val session
    (serverHelloExtensions serverKey)).length ++ serverHelloBody random.random.val session
      (serverHelloExtensions serverKey)), ?_, ?_, ?_⟩
  · rw [answer, hclient, ok_bind]
    dsimp only
    rw [hserver, ok_bind]
    dsimp only
    rw [pushU16_eq_ok (by decide), pushU16_eq_ok (by decide), pushU16_eq_ok (by decide),
      pushU16_eq_ok (by omega), pushU16_eq_ok (by decide), pushU16_eq_ok (by omega),
      pushU16_eq_ok (by decide)]
    simp only [ok_bind]
    rw [hext, pushU16_eq_ok (by omega), ok_bind, hwhole, handshake_eq_ok 2 (by omega)]
    rfl
  · rw [List.length_cons, List.length_append, length_beBytes]
    omega
  · exact serverShare_hello random.random.property hsession (by omega)
      (serverExtensions_hello hkey)

/-! ## The certificate chain -/

/-- An entry of the certificate list. -/
def entryBytes (certificate : List UInt8) : List UInt8 :=
  beBytes 3 certificate.length ++ (certificate ++ beBytes 2 0)

/-- The body of a `Certificate` message. -/
def certificateBody (list : List UInt8) : List UInt8 := [0] ++ (beBytes 3 list.length ++ list)

theorem length_entryBytes (certificate : List UInt8) :
    (entryBytes certificate).length = certificate.length + 5 := by
  simp only [entryBytes, List.length_append, length_beBytes]
  omega

theorem certificateEntry_eq_ok {certificate : List UInt8} (h : certificate.length ≤ 64 * 1024) :
    certificateEntry certificate = .ok (entryBytes certificate) := by
  rw [certificateEntry, pushU24_eq_ok (by omega), pushU16_eq_ok (by decide), entryBytes,
    ← List.append_assoc]
  rfl

/-- The list of a configuration is not long. -/
theorem length_entries {certificates : List (List UInt8)}
    (h : ∀ certificate ∈ certificates, certificate.length ≤ 64 * 1024) :
    (certificates.map entryBytes).flatten.length ≤ certificates.length * 65541 := by
  induction certificates with
  | nil => exact Nat.zero_le _
  | cons certificate certificates ih =>
    obtain ⟨hcertificate, hrest⟩ := List.forall_mem_cons.mp h
    have hle := ih hrest
    rw [List.map_cons, List.flatten_cons, List.length_append, length_entryBytes,
      List.length_cons, Nat.succ_mul]
    omega

theorem length_le_entries (certificates : List (List UInt8)) :
    certificates.length ≤ (certificates.map entryBytes).flatten.length := by
  induction certificates with
  | nil => exact Nat.zero_le _
  | cons certificate certificates ih =>
    rw [List.map_cons, List.flatten_cons, List.length_append, length_entryBytes, List.length_cons]
    omega

/-- The client reads the entries one after the other. -/
theorem certificateEntries_append {certificates storage : List (List UInt8)}
    (hcount : storage.length + certificates.length ≤ 8)
    (h : ∀ certificate ∈ certificates, certificate.length ≤ 64 * 1024) {fuel : ℕ}
    (hfuel : certificates.length ≤ fuel) :
    certificateEntries fuel storage (certificates.map entryBytes).flatten =
      .ok (storage ++ certificates, []) := by
  induction certificates generalizing storage fuel with
  | nil =>
    rw [List.append_nil]
    cases fuel with
    | zero => rfl
    | succ fuel => rfl
  | cons certificate certificates ih =>
    obtain ⟨hcertificate, hrest⟩ := List.forall_mem_cons.mp h
    rw [List.length_cons] at hcount hfuel
    obtain ⟨fuel, rfl⟩ : ∃ left, fuel = left + 1 := ⟨fuel - 1, by omega⟩
    have hsize : certificate.length < 2 ^ 24 := by omega
    have hempty : (entryBytes certificate ++ (certificates.map entryBytes).flatten).isEmpty =
        false := by
      rw [List.isEmpty_eq_false_iff, ← List.length_pos_iff, List.length_append, length_entryBytes]
      omega
    have hnull : ([] : List UInt8).length = 0 := rfl
    rw [List.map_cons, List.flatten_cons, certificateEntries, done_bind, hempty,
      if_neg Bool.false_ne_true, entryBytes]
    simp only [List.append_assoc]
    rw [u24_bind _ hsize, refuse_bind (by omega), take_bind _ rfl, u16_bind _ (by decide),
      ← List.nil_append (certificates.map entryBytes).flatten, take_bind _ hnull,
      ih (by rw [List.length_append, List.length_singleton]; omega) hrest (by omega),
      List.append_assoc, List.singleton_append]

/-- **Main theorem.** The client reads the chain of a configuration. -/
theorem certificateChain_spec (config : TlsServerConfig) :
    config.certificates.mapM certificateEntry = .ok (config.certificates.map entryBytes) ∧
      (config.certificates.map entryBytes).flatten.length ≤ 8 * 65541 ∧
      certificateChain (11 ::
        (beBytes 3 (certificateBody (config.certificates.map entryBytes).flatten).length ++
          certificateBody (config.certificates.map entryBytes).flatten)) =
            .ok config.certificates := by
  have hcount := config.length_certificates
  have hlist := length_entries config.length_certificate
  have hbound : (config.certificates.map entryBytes).flatten.length ≤ 8 * 65541 :=
    hlist.trans (Nat.mul_le_mul_right _ hcount)
  refine ⟨mapM_eq_ok_map fun certificate hmem =>
    certificateEntry_eq_ok (config.length_certificate certificate hmem), hbound, ?_⟩
  generalize hlist' : (config.certificates.map entryBytes).flatten = list at *
  have hbody : (certificateBody list).length = list.length + 4 := by
    simp only [certificateBody, List.length_append, length_beBytes, List.length_singleton]
    omega
  have hmessage : (11 :: (beBytes 3 (certificateBody list).length ++
      certificateBody list)).length - 4 = (certificateBody list).length := by
    rw [List.length_cons, List.length_append, length_beBytes]
    omega
  have hsize : (certificateBody list).length < 2 ^ 24 := by omega
  have hsize' : list.length < 2 ^ 24 := by omega
  have hfuel : config.certificates.length ≤ list.length :=
    hlist' ▸ length_le_entries config.certificates
  have hentries : readFrom (certificateEntries list.length []) list = .ok config.certificates := by
    have hread : certificateEntries list.length [] (config.certificates.map entryBytes).flatten =
        .ok ([] ++ config.certificates, []) :=
      certificateEntries_append (by simpa using hcount) config.length_certificate hfuel
    rw [hlist'] at hread
    exact readFrom_eq_ok.mpr ⟨[], hread⟩
  rw [certificateChain, hmessage, readFrom_eq_ok, u8_bind, refuse_bind (not_not.mpr rfl),
    u24_bind _ hsize, refuse_bind (not_not.mpr rfl), certificateBody, List.singleton_append, u8_bind,
    if_neg (not_not.mpr rfl), u24_bind _ hsize', take_all_bind _ rfl, done_bind,
    refuse_bind (not_not.mpr List.isEmpty_nil), lift_bind hentries,
    refuse_bind (by simpa using config.certificates_ne_nil)]
  exact ⟨[], rfl⟩

end Mrml.Tls
