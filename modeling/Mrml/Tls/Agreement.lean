import Mrml.Tls.Flight

/-!
# The two sides of the handshake agree

`Exchange` connects a client and a server by two reliable pipes: what one side sends over the whole
handshake is what the other side has to read.

Results:
* `finishServer_finished`: the server accepts the `Finished` message of a client with its transcript.
* `handshake_agreement`: over ideal primitives there is an exchange, and in every exchange both
  sides succeed, with the same transcript hash and the same keys in both directions.
-/

namespace Mrml.Tls

open RecordKeys

variable {Certificate : Type} (p : Primitives Certificate)

/-- The client accepts a chain for a host: it connects to hosts of this name at all, and the chain
is verified. -/
def ClientAccepts (host : List UInt8) (chain : List (List UInt8)) : Prop :=
  HostName host ∧ p.verifyServerChain host chain = true

/-- What each side sends is what the other one reads. -/
structure Exchange (config : TlsServerConfig) (host : List UInt8) (client : ClientRandom)
    (server : ServerRandom) (toServer toClient : List UInt8) : Prop where
  client_sends : (connect p client host toClient).2 = toServer
  server_sends : (accept p config server toServer).2 = toClient

/-! ## The server -/

section Server

variable {p} {config : TlsServerConfig} {server : ServerRandom} {head message serverHello shared :
  List UInt8} {flight : ServerFlight}

/-- The records of a flight. -/
def flightRecords (aead : Aead) (session : Session) (flight : ServerFlight) : List UInt8 :=
  handshakeRecords aead (fromTrafficSecret session.serverHs) 0
    (flight.messages.flatMap (chunks (1 <<< 14)))

/-- What the server does with a hello that it reads. -/
theorem accept_eq (hhead : head.length = 5) (hkind : byteAt head 0 = 22)
    (hread : ∀ rest, serverRecord (head ++ message ++ rest) = (.ok (head ++ message), rest))
    (hanswer : answer p server message = .ok (serverHello, shared))
    (hflight : serverFlight p config server (.start message serverHello shared) = .ok flight)
    (hcount : flight.bytes.length < 2 ^ 64) (rest : List UInt8) :
    accept p config server (head ++ message ++ rest) =
      (finishServer p (.start message serverHello shared)
        (transcriptOf ([message, serverHello] ++ flight.messages)).hash rest,
      sendPlain serverHello ++ flightRecords p.aead (.start message serverHello shared) flight) := by
  obtain ⟨-, hlengths, hchunks⟩ := flatMap_chunks (show 0 < 1 <<< 14 by decide) flight.messages
  have hfirst : byteAt (head ++ message) 0 = 22 := by
    obtain ⟨byte, tail, rfl⟩ := List.exists_cons_of_length_eq_add_one hhead
    exact hkind
  rw [ServerFlight.bytes] at hcount
  have hseal : sealChunks p.aead ((fromTrafficSecret
      (Session.start message serverHello shared).serverHs).keysAt 0)
      (flight.messages.flatMap (chunks (1 <<< 14))) =
      (.ok (), flightRecords p.aead (.start message serverHello shared) flight) :=
    sealChunks_eq p.aead _ hlengths (by omega)
  rw [keysAt_zero] at hseal
  rw [accept, hread]
  dsimp only
  rw [hfirst, if_neg (not_not.mpr rfl), List.drop_left' hhead, hanswer]
  dsimp only
  rw [hflight]
  dsimp only
  rw [hseal, transcriptOf_append]
  rfl

/-- The server accepts the `Finished` message over its own transcript. -/
theorem finishServer_finished (haead : p.aead.Inverts) (session : Session)
    (applicationHash : List UInt8) :
    finishServer p session applicationHash ((fromTrafficSecret session.clientHs).wire p.aead 22
      (finishedMessage (finishedVerifyData session.clientHs applicationHash))) =
      .ok (session.accepted applicationHash []) := by
  have hlength := length_finishedMessage session.clientHs applicationHash
  have hmax : maxPlaintext = 16384 := rfl
  have hrecord := serverRecord_wire p.aead (fromTrafficSecret session.clientHs) 22
    (show (finishedMessage (finishedVerifyData session.clientHs applicationHash)).length ≤
      maxPlaintext by omega) []
  have hopen : ((fromTrafficSecret session.clientHs).keysAt 0).openRecord p.aead
      (((fromTrafficSecret session.clientHs).keysAt 0).wire p.aead 22
        (finishedMessage (finishedVerifyData session.clientHs applicationHash))) [] =
      (.ok 22, (fromTrafficSecret session.clientHs).keysAt 1,
        [] ++ finishedMessage (finishedVerifyData session.clientHs applicationHash)) :=
    open_wire (by decide) (by decide) (by omega) (haead _ _ _ _) []
  rw [keysAt_zero] at hopen
  rw [List.append_nil] at hrecord
  have hdrop : (finishedMessage (finishedVerifyData session.clientHs applicationHash)).drop 4 =
      finishedVerifyData session.clientHs applicationHash := rfl
  have hdifference := (difference_eq_zero
    (rfl : (finishedVerifyData session.clientHs applicationHash).length = _)).mpr ⟨rfl, rfl⟩
  rw [finishServer, hrecord]
  dsimp only
  rw [hopen]
  dsimp only
  rw [List.nil_append, hlength, refuseIf_of_not (by simp [finishedMessage, byteAt]), ok_bind, hdrop,
    refuseIf_of_not (not_not.mpr hdifference), ok_bind]
  rfl

end Server

section Agreement

variable {p} {config : TlsServerConfig} {host : List UInt8} {client : ClientRandom}

/-- The client sends its hello whatever it reads. -/
theorem connect_sends {hello : ClientHello} {sent : List UInt8}
    (hhello : clientHello p client host = .ok hello)
    (hsent : sendPlainHandshake hello.message = .ok sent) (incoming : List UInt8) :
    ∃ rest, (connect p client host incoming).2 = sent ++ rest := by
  rw [connect, hhello]
  dsimp only
  rw [hsent]
  dsimp only
  cases runClient p host hello incoming with
  | error error => exact ⟨[], (List.append_nil sent).symm⟩
  | ok result => exact ⟨result.2, rfl⟩

/-- The client succeeds on what a server sends, with the keys for the whole transcript. -/
theorem connect_flightRecords (haead : p.aead.Inverts) {view : ServerView} {flight : ServerFlight}
    {incoming : List UInt8} (hview : serverView p client host incoming = .ok view)
    (hrecords : view.incoming = flightRecords p.aead view.session flight)
    (hlegal : view.Accepts p host flight) (hlength : flight.bytes.length ≤ maxHandshakes) :
    ∃ connected, (connect p client host incoming).1 = .ok connected ∧
      view.Settles flight connected := by
  obtain ⟨hflatten, hlengths, hcount⟩ :=
    flatMap_chunks (show 0 < 1 <<< 14 by decide) flight.messages
  have hmax : maxHandshakes = 1048576 := rfl
  rw [ServerFlight.bytes] at hlength
  have htexts := view.texts_eq haead _ hrecords hlengths (by omega)
  refine connect_of_flight hview hlegal ?_ (Framing.fits_of_length ?_)
  · rw [htexts, hflatten]
    exact List.prefix_refl _
  · rw [htexts, hflatten]
    omega

/-- **Main theorem.** Over ideal primitives, whatever the two sides draw at random, a client and a
server whose chain it accepts can exchange messages, and however they do, both succeed with the
same transcript hash, and each writes with the keys that the other reads with. -/
theorem handshake_agreement (hideal : p.Ideal) (hsigns : config.Signs p)
    (hclient : ClientAccepts p host config.certificates) (server : ServerRandom) :
    (∃ toServer toClient, Exchange p config host client server toServer toClient) ∧
    ∀ toServer toClient, Exchange p config host client server toServer toClient →
      ∃ connected accepted, (connect p client host toClient).1 = .ok connected ∧
        (accept p config server toServer).1 = .ok accepted ∧
        connected.applicationHash = accepted.applicationHash ∧
        connected.stream.writeKeys = accepted.stream.readKeys ∧
        accepted.stream.writeKeys = connected.stream.readKeys := by
  obtain ⟨hello, serverHello, shared, head, hhello, hsent, hhead, hkind, hread, hanswer, hview⟩ :=
    hellos_exchange hideal hclient.1 client server
  obtain ⟨flight, hflight, hlegal, hlength⟩ := serverFlight_legal hsigns hclient.2 server
    (.start hello.message serverHello shared) rfl
  have hbound : flight.bytes.length ≤ maxHandshakes := by
    have hentries := (certificateChain_spec config).2.1
    have hmodulus := config.length_modulus
    have hmax : maxHandshakes = 1048576 := rfl
    omega
  have hmax : maxHandshakes = 1048576 := rfl
  have haccept := accept_eq hhead hkind hread hanswer hflight (by omega)
  obtain ⟨connected, hconnect, hsettles⟩ := connect_flightRecords hideal.inverts
    (hview (flightRecords p.aead (.start hello.message serverHello shared) flight)) rfl hlegal hbound
  have hfinished := connect_snd hhello hsent (hview _) hconnect
  obtain ⟨rest, rfl⟩ := hsettles
  have hserver := finishServer_finished hideal.inverts (.start hello.message serverHello shared)
    (transcriptOf ([hello.message, serverHello] ++ flight.messages)).hash
  constructor
  · refine ⟨_, sendPlain serverHello ++ flightRecords p.aead
      (.start hello.message serverHello shared) flight, rfl, ?_⟩
    rw [hfinished, haccept]
  · rintro toServer toClient ⟨hclientSends, hserverSends⟩
    -- the server answers the hello, whatever follows it
    obtain ⟨tail, htail⟩ := connect_sends hhello hsent toClient
    rw [← hclientSends, htail, haccept] at hserverSends
    subst hserverSends
    rw [← hclientSends, hfinished, haccept]
    exact ⟨_, _, hconnect, hserver, rfl, rfl, rfl⟩

/-- The agreement of the sample configuration over the stand-ins for the primitives. -/
theorem handshake_agreement_sample :
    (∃ toServer toClient, Exchange standIn sampleConfig sampleHost sampleClient sampleServer
      toServer toClient) ∧
    ∀ toServer toClient, Exchange standIn sampleConfig sampleHost sampleClient sampleServer
      toServer toClient →
      ∃ connected accepted, (connect standIn sampleClient sampleHost toClient).1 = .ok connected ∧
        (accept standIn sampleConfig sampleServer toServer).1 = .ok accepted ∧
        connected.applicationHash = accepted.applicationHash ∧
        connected.stream.writeKeys = accepted.stream.readKeys ∧
        accepted.stream.writeKeys = connected.stream.readKeys :=
  handshake_agreement standIn_ideal sampleConfig_signs ⟨sampleHost_hostName, rfl⟩ sampleServer

end Agreement

end Mrml.Tls
