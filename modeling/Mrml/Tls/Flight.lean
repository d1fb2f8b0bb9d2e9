import Mrml.Tls.Messages

/-!
# The flight of the server as the client takes it

A legal flight is `EncryptedExtensions`, `Certificate`, `CertificateVerify` and `Finished`, checked
as the client checks them. The client reads it as the texts of records, however it is split.

Results:
* `legal_of_handles`, `handles_of_legal`: the messages that the client handles up to its end are
  those of a legal flight, in their order.
* `handshake_exactness`: when a success of the client means a legal flight with nothing behind it,
  and the other way round. `handshake_not_exact` is a server whose last record goes on behind
  `Finished`, and with which the client succeeds nevertheless.
-/

namespace Mrml.Tls

open RecordKeys Cursor

variable {Certificate : Type} (p : Primitives Certificate)

/-! ## Legal flights -/

/-- A handshake message of this kind. -/
def IsMessage (kind : UInt8) (message : List UInt8) : Prop :=
  handshakeFraming.IsFrame message ∧ byteAt message 0 = kind

/-- A message with the right length in its header. -/
theorem isMessage_of_body (kind : UInt8) (body : List UInt8) (h : body.length < 256 ^ 3) :
    IsMessage kind (kind :: (beBytes 3 body.length ++ body)) := by
  refine ⟨isFrame_iff.mpr ?_, rfl⟩
  have hslice : slice (kind :: (beBytes 3 body.length ++ body)) 1 3 = beBytes 3 body.length := by
    show (beBytes 3 body.length ++ body).take 3 = _
    rw [List.take_left' (length_beBytes _ _)]
  rw [hslice, beNat_beBytes, Nat.mod_eq_of_lt h, List.length_cons, List.length_append,
    length_beBytes]
  omega

/-- The `CertificateVerify` message with this RSA-PSS signature. -/
def certificateVerifyMessage (signature : List UInt8) : List UInt8 :=
  15 :: beBytes 3 (signature.length + 4) ++ beBytes 2 0x0804 ++ beBytes 2 signature.length ++
    signature

theorem certificateVerifyMessage_eq_ok {signature : List UInt8} (h : signature.length < 2 ^ 16) :
    handshake 15 (beBytes 2 0x0804 ++ beBytes 2 signature.length ++ signature) =
      .ok (certificateVerifyMessage signature) := by
  have hlength : (beBytes 2 0x0804 ++ beBytes 2 signature.length ++ signature).length =
      signature.length + 4 := by
    simp only [List.length_append, length_beBytes]
    omega
  rw [handshake_eq_ok 15 (by omega), hlength, certificateVerifyMessage]
  simp only [List.cons_append, List.append_assoc]

/-- The `Finished` message with this value. -/
def finishedMessage (verify : List UInt8) : List UInt8 := [20, 0, 0, 32] ++ verify

theorem finishedMessage_eq_ok (trafficSecret transcriptHash : List UInt8) :
    handshake 20 (finishedVerifyData trafficSecret transcriptHash) =
      .ok (finishedMessage (finishedVerifyData trafficSecret transcriptHash)) := by
  have hlength := length_finishedVerifyData trafficSecret transcriptHash
  rw [handshake_eq_ok 20 (by rw [hlength]; decide), hlength]
  rfl

theorem length_finishedMessage (trafficSecret transcriptHash : List UInt8) :
    (finishedMessage (finishedVerifyData trafficSecret transcriptHash)).length = 36 := by
  rw [finishedMessage, List.length_append, length_finishedVerifyData]
  rfl

/-- A flight that completes the handshake with `host` after the messages `hellos`: the chain is
accepted for the host, the signature is over the transcript through `Certificate`, and the value of
`Finished` is that of the transcript through `CertificateVerify`. -/
structure ServerFlight.Legal (flight : ServerFlight) (host serverHs : List UInt8)
    (hellos : List (List UInt8)) : Prop where
  extensions : IsMessage 8 flight.extensions
  certificate : IsMessage 11 flight.certificate
  verify : ∃ chain leaf signature, certificateChain flight.certificate = .ok chain ∧
    p.verifyServerChain host chain = true ∧ p.parseCertificate (chain.headD []) = some leaf ∧
    signature.length < 2 ^ 16 ∧ flight.verify = certificateVerifyMessage signature ∧
    p.verifyTlsPss leaf (signedContent
      (transcriptOf (hellos ++ [flight.extensions, flight.certificate])).hash) signature = true
  finished : flight.finished = finishedMessage (finishedVerifyData serverHs
    (transcriptOf (hellos ++ [flight.extensions, flight.certificate, flight.verify])).hash)

/-! ## What the client checks of the last two messages -/

/-- The bits in which two strings of bytes differ. -/
theorem difference_eq_zero {expected received : List UInt8} {difference : UInt8}
    (hlength : received.length = expected.length) :
    (expected.zip received).foldl (fun difference (a, b) => difference ||| (a ^^^ b)) difference =
      0 ↔ difference = 0 ∧ received = expected := by
  induction expected generalizing received difference with
  | nil =>
    obtain rfl := List.length_eq_zero_iff.mp hlength
    simp
  | cons a expected ih =>
    obtain ⟨b, received, rfl⟩ := List.exists_cons_of_length_eq_add_one hlength
    rw [List.zip_cons_cons, List.foldl_cons, ih (Nat.succ.inj hlength), UInt8.or_eq_zero_iff,
      UInt8.xor_eq_zero_iff, List.cons.injEq, and_assoc]
    exact and_congr_right fun _ => and_congr_left fun _ => eq_comm

theorem checkFinished_eq_ok {serverHs message : List UInt8} {transcript : Transcript} {u : Unit}
    (hmessage : IsMessage 20 message) :
    checkFinished serverHs transcript message = .ok u ↔
      message = finishedMessage (finishedVerifyData serverHs transcript.hash) := by
  obtain ⟨hframe, hkind⟩ := hmessage
  rw [isFrame_iff] at hframe
  constructor
  · intro h
    obtain ⟨received, hreceived, hcheck⟩ := bind_eq_ok.mp h
    obtain ⟨left, hread⟩ := readFrom_eq_ok.mp hreceived
    obtain ⟨kind, fields, hu8, hread⟩ := Reader.bind_apply_eq_ok.mp hread
    obtain ⟨length, body, hu24, hread⟩ := Reader.bind_apply_eq_ok.mp hread
    obtain ⟨_, body', hrefuse, htake⟩ := Reader.bind_apply_eq_ok.mp hread
    obtain rfl := u8_eq_ok.mp hu8
    obtain ⟨-, rfl⟩ := u24_eq_ok.mp hu24
    obtain ⟨hlength, rfl⟩ := refuse_eq_ok.mp hrefuse
    obtain ⟨hreceived', rfl⟩ := take_eq_ok.mp htake
    obtain rfl : length = 32 := not_not.mp hlength
    obtain rfl : kind = 20 := hkind
    have hleft : left = [] := by
      have hslice : slice (20 :: (beBytes 3 32 ++ (received ++ left))) 1 3 = beBytes 3 32 := rfl
      rw [hslice, beNat_beBytes] at hframe
      simp only [List.length_cons, List.length_append, length_beBytes] at hframe
      exact List.length_eq_zero_iff.mp (by omega)
    have hdifference := not_not.mp (refuseIf_eq_ok.mp hcheck)
    rw [difference_eq_zero (by rw [hreceived', length_finishedVerifyData])] at hdifference
    rw [hleft, hdifference.2, List.append_nil]
    rfl
  · intro h
    have hreceived : readFrom (do
        let _ ← Cursor.u8
        Cursor.refuse ((← Cursor.u24) ≠ 32) .handshake
        Cursor.take 32) message = .ok (finishedVerifyData serverHs transcript.hash) := by
      rw [h, readFrom_eq_ok]
      refine ⟨[], Reader.bind_apply_eq_ok.mpr ⟨20, _, u8_eq_ok.mpr rfl, ?_⟩⟩
      refine Reader.bind_apply_eq_ok.mpr ⟨32, finishedVerifyData serverHs transcript.hash,
        u24_eq_ok.mpr ⟨by decide, rfl⟩, ?_⟩
      refine Reader.bind_apply_eq_ok.mpr ⟨(), _, refuse_eq_ok.mpr ⟨not_not.mpr rfl, rfl⟩, ?_⟩
      exact take_eq_ok.mpr ⟨length_finishedVerifyData _ _, (List.append_nil _).symm⟩
    rw [checkFinished, hreceived, ok_bind]
    dsimp only
    rw [refuseIf_eq_ok, not_not, difference_eq_zero rfl]
    exact ⟨rfl, rfl⟩

theorem verifyCertificateMessage_eq_ok {message transcriptHash : List UInt8} {leaf : Certificate}
    {u : Unit} :
    verifyCertificateMessage p message transcriptHash leaf = .ok u ↔
      ∃ signature, signature.length < 2 ^ 16 ∧ message = certificateVerifyMessage signature ∧
        p.verifyTlsPss leaf (signedContent transcriptHash) signature = true := by
  constructor
  · intro h
    obtain ⟨signature, hsignature, hrefused⟩ := bind_eq_ok.mp h
    have hverify := not_not.mp (refuseIf_eq_ok.mp hrefused)
    obtain ⟨left, hread⟩ := readFrom_eq_ok.mp hsignature
    obtain ⟨kind, _, hu8, hread⟩ := Reader.bind_apply_eq_ok.mp hread
    obtain ⟨_, _, hkind, hread⟩ := Reader.bind_apply_eq_ok.mp hread
    obtain ⟨length, _, hu24, hread⟩ := Reader.bind_apply_eq_ok.mp hread
    obtain ⟨_, _, hlength, hread⟩ := Reader.bind_apply_eq_ok.mp hread
    obtain ⟨scheme, _, hu16, hread⟩ := Reader.bind_apply_eq_ok.mp hread
    obtain ⟨_, _, hscheme, hread⟩ := Reader.bind_apply_eq_ok.mp hread
    obtain ⟨signatureLength, _, hsize, hread⟩ := Reader.bind_apply_eq_ok.mp hread
    obtain ⟨bytes, tail, htake, hread⟩ := Reader.bind_apply_eq_ok.mp hread
    obtain ⟨finished, _, hdone, hread⟩ := Reader.bind_apply_eq_ok.mp hread
    obtain ⟨_, _, hfinished, hread⟩ := Reader.bind_apply_eq_ok.mp hread
    obtain ⟨rfl, -⟩ := Prod.mk.inj (Except.ok.inj hread)
    obtain ⟨hend, -⟩ := refuse_eq_ok.mp hfinished
    obtain ⟨rfl, -⟩ := done_eq_ok.mp hdone
    obtain rfl : tail = [] := List.isEmpty_iff.mp (not_not.mp hend)
    obtain ⟨hbytes, rfl⟩ := take_eq_ok.mp htake
    obtain ⟨hbound, rfl⟩ := u16_eq_ok.mp hsize
    obtain ⟨hscheme', rfl⟩ := refuse_eq_ok.mp hscheme
    obtain ⟨-, rfl⟩ := u16_eq_ok.mp hu16
    obtain ⟨hlength', rfl⟩ := refuse_eq_ok.mp hlength
    obtain ⟨-, rfl⟩ := u24_eq_ok.mp hu24
    obtain ⟨hkind', rfl⟩ := refuse_eq_ok.mp hkind
    obtain rfl := u8_eq_ok.mp hu8
    obtain rfl : kind = 15 := not_not.mp hkind'
    obtain rfl : scheme = 0x0804 := not_not.mp hscheme'
    have hsame := not_not.mp hlength'
    simp only [List.length_cons, List.length_append, length_beBytes, List.length_nil] at hsame
    refine ⟨bytes, hbytes ▸ hbound, ?_, hverify⟩
    rw [certificateVerifyMessage, ← hbytes, show length = bytes.length + 4 by omega]
    simp only [List.cons_append, List.append_assoc, List.append_nil]
  · rintro ⟨signature, hbound, rfl, hverify⟩
    have hread : readFrom (do
        refuse ((← u8) ≠ 15) .handshake
        refuse ((← u24) ≠ (certificateVerifyMessage signature).length - 4) .handshake
        refuse ((← u16) ≠ 0x0804) .handshake
        let signatureLength ← u16
        let signature ← take signatureLength
        refuse (¬(← done)) .handshake
        return signature) (certificateVerifyMessage signature) = .ok signature := by
      have hlength : (certificateVerifyMessage signature).length - 4 = signature.length + 4 := by
        simp [certificateVerifyMessage]
        omega
      have hsize : signature.length + 4 < 2 ^ 24 := by omega
      have hscheme : 0x0804 < 2 ^ 16 := by decide
      rw [readFrom_eq_ok, hlength, certificateVerifyMessage]
      refine ⟨[], ?_⟩
      simp only [List.cons_append, List.append_assoc]
      rw [u8_bind, refuse_bind (not_not.mpr rfl), u24_bind _ hsize,
        refuse_bind (not_not.mpr rfl), u16_bind _ hscheme, refuse_bind (not_not.mpr rfl),
        u16_bind _ hbound, take_all_bind _ rfl, done_bind,
        refuse_bind (not_not.mpr List.isEmpty_nil)]
      rfl
    rw [verifyCertificateMessage, hread, ok_bind, refuseIf_eq_ok, not_not]
    exact hverify

/-! ## The messages that the client handles -/

namespace Flight

variable (s : Flight) (message : List UInt8)

/-- After `EncryptedExtensions`. -/
def extended : Flight :=
  { s with gotExtensions := true, transcript := s.transcript.update message }

/-- After `Certificate`. -/
def certified (certificates : List (List UInt8)) : Flight :=
  { s with certificates, gotCertificate := true, transcript := s.transcript.update message }

/-- After `CertificateVerify`. -/
def verified : Flight :=
  { s with gotVerify := true, transcript := s.transcript.update message }

/-- After `Finished`. -/
def completed : Flight :=
  { s with finished := true, transcript := s.transcript.update message }

end Flight

section Handle

variable {p} {host serverHs message : List UInt8} {s s' : Flight}

/-- What the client can do with a message. -/
theorem handleMessage_cases (h : handleMessage p host serverHs s message = .ok s') :
    (byteAt message 0 = 8 ∧ s.gotExtensions = false ∧ s' = s.extended message) ∨
    (byteAt message 0 = 11 ∧ s.gotExtensions = true ∧ s.gotCertificate = false ∧
      ∃ chain, certificateChain message = .ok chain ∧ p.verifyServerChain host chain = true ∧
        s' = s.certified message chain) ∨
    (byteAt message 0 = 15 ∧ s.gotCertificate = true ∧ s.gotVerify = false ∧
      ∃ leaf, p.parseCertificate (s.certificates.headD []) = some leaf ∧
        verifyCertificateMessage p message s.transcript.hash leaf = .ok () ∧
        s' = s.verified message) ∨
    (byteAt message 0 = 20 ∧ s.gotVerify = true ∧
      checkFinished serverHs s.transcript message = .ok () ∧ s' = s.completed message) := by
  rw [handleMessage] at h
  split_ifs at h with hextensions hcertificate hverify hfinished
  · obtain ⟨_, hrefuse, h⟩ := bind_eq_ok.mp h
    have hfirst := refuseIf_eq_ok.mp hrefuse
    exact .inl ⟨hextensions, Bool.eq_false_of_not_eq_true hfirst, (Except.ok.inj h).symm⟩
  · obtain ⟨_, hrefuse, h⟩ := bind_eq_ok.mp h
    obtain ⟨chain, hchain, h⟩ := bind_eq_ok.mp h
    obtain ⟨_, haccepted, h⟩ := bind_eq_ok.mp h
    have hstate := refuseIf_eq_ok.mp hrefuse
    have haccepted' := refuseIf_eq_ok.mp haccepted
    simp only [Bool.or_eq_true, Bool.not_eq_true', not_or, Bool.not_eq_false,
      Bool.not_eq_true] at hstate haccepted'
    exact .inr (.inl ⟨hcertificate, hstate.1, hstate.2, chain, hchain, haccepted',
      (Except.ok.inj h).symm⟩)
  · obtain ⟨_, hrefuse, h⟩ := bind_eq_ok.mp h
    obtain ⟨leaf, hleaf, h⟩ := bind_eq_ok.mp h
    obtain ⟨_, hsigned, h⟩ := bind_eq_ok.mp h
    have hstate := refuseIf_eq_ok.mp hrefuse
    simp only [Bool.or_eq_true, Bool.not_eq_true', not_or, Bool.not_eq_false,
      Bool.not_eq_true] at hstate
    exact .inr (.inr (.inl ⟨hverify, hstate.1, hstate.2, leaf, okOr_eq_ok.mp hleaf, hsigned,
      (Except.ok.inj h).symm⟩))
  · obtain ⟨_, hrefuse, h⟩ := bind_eq_ok.mp h
    obtain ⟨_, hchecked, h⟩ := bind_eq_ok.mp h
    have hstate := refuseIf_eq_ok.mp hrefuse
    simp only [Bool.not_eq_true', Bool.not_eq_false] at hstate
    exact .inr (.inr (.inr ⟨hfinished, hstate, hchecked, (Except.ok.inj h).symm⟩))

theorem handleMessage_extensions (hkind : byteAt message 0 = 8) (hs : s.gotExtensions = false) :
    handleMessage p host serverHs s message = .ok (s.extended message) := by
  rw [handleMessage, if_pos hkind, hs, refuseIf_of_not Bool.false_ne_true]
  rfl

theorem handleMessage_certificate {chain : List (List UInt8)} (hkind : byteAt message 0 = 11)
    (hs : s.gotExtensions = true) (hs' : s.gotCertificate = false)
    (hchain : certificateChain message = .ok chain) (haccepted : p.verifyServerChain host chain) :
    handleMessage p host serverHs s message = .ok (s.certified message chain) := by
  have hstate : ¬(!s.gotExtensions || s.gotCertificate) = true := by simp [hs, hs']
  have haccepted' : ¬(!p.verifyServerChain host chain) = true := by simp [haccepted]
  rw [handleMessage, hkind, if_neg (by decide), if_pos rfl, refuseIf_of_not hstate, ok_bind,
    hchain, ok_bind, refuseIf_of_not haccepted']
  rfl

theorem handleMessage_verify {leaf : Certificate} (hkind : byteAt message 0 = 15)
    (hs : s.gotCertificate = true) (hs' : s.gotVerify = false)
    (hleaf : p.parseCertificate (s.certificates.headD []) = some leaf)
    (hsigned : verifyCertificateMessage p message s.transcript.hash leaf = .ok ()) :
    handleMessage p host serverHs s message = .ok (s.verified message) := by
  have hstate : ¬(!s.gotCertificate || s.gotVerify) = true := by simp [hs, hs']
  rw [handleMessage, hkind, if_neg (by decide), if_neg (by decide), if_pos rfl,
    refuseIf_of_not hstate, ok_bind, hleaf, okOr_some, ok_bind, hsigned]
  rfl

theorem handleMessage_finished (hkind : byteAt message 0 = 20) (hs : s.gotVerify = true)
    (hchecked : checkFinished serverHs s.transcript message = .ok ()) :
    handleMessage p host serverHs s message = .ok (s.completed message) := by
  have hstate : ¬(!s.gotVerify) = true := by simp [hs]
  rw [handleMessage, hkind, if_neg (by decide), if_neg (by decide), if_neg (by decide),
    if_pos rfl, refuseIf_of_not hstate, ok_bind, hchecked]
  rfl

/-- The client is not done before it has handled a further message. -/
theorem handles_next {frames : List (List UInt8)}
    (h : Framing.Handles (handleMessage p host serverHs) Flight.finished s frames s')
    (hs : s.finished = false) (hs' : s'.finished = true) :
    ∃ message rest s₁, frames = message :: rest ∧
      handleMessage p host serverHs s message = .ok s₁ ∧ (rest ≠ [] → s₁.finished = false) ∧
      Framing.Handles (handleMessage p host serverHs) Flight.finished s₁ rest s' := by
  cases frames with
  | nil =>
    obtain rfl : s' = s := h
    rw [hs] at hs'
    cases hs'
  | cons message rest =>
    obtain ⟨s₁, hmessage, hlast, hrest⟩ := h
    exact ⟨message, rest, s₁, rfl, hmessage, hlast, hrest⟩

/-- The messages that the client handles up to its end are those of a legal flight. -/
theorem legal_of_handles {hellos frames : List (List UInt8)}
    (hframes : ∀ frame ∈ frames, handshakeFraming.IsFrame frame)
    (h : Framing.Handles (handleMessage p host serverHs) Flight.finished
      (.start (transcriptOf hellos)) frames s) (hs : s.finished = true) :
    ∃ flight : ServerFlight, flight.Legal p host serverHs hellos ∧ frames = flight.messages ∧
      s.transcript = transcriptOf (hellos ++ flight.messages) := by
  obtain ⟨extensions, frames₁, s₁, rfl, hextensions, -, h₁⟩ := handles_next h rfl hs
  obtain ⟨hkind₁, -, rfl⟩ | ⟨-, hno, -⟩ | ⟨-, hno, -⟩ | ⟨-, hno, -⟩ :=
    handleMessage_cases hextensions
  rotate_left
  · cases hno
  · cases hno
  · cases hno
  obtain ⟨certificate, frames₂, s₂, rfl, hcertificate, -, h₂⟩ := handles_next h₁ rfl hs
  obtain ⟨-, hno, -⟩ | ⟨hkind₂, -, -, chain, hchain, haccepted, rfl⟩ | ⟨-, hno, -⟩ |
    ⟨-, hno, -⟩ := handleMessage_cases hcertificate
  · cases hno
  rotate_left
  · cases hno
  · cases hno
  obtain ⟨verify, frames₃, s₃, rfl, hverify, -, h₃⟩ := handles_next h₂ rfl hs
  obtain ⟨-, hno, -⟩ | ⟨-, -, hno, -⟩ | ⟨hkind₃, -, -, leaf, hleaf, hsigned, rfl⟩ |
    ⟨-, hno, -⟩ := handleMessage_cases hverify
  · cases hno
  · cases hno
  rotate_left
  · cases hno
  obtain ⟨finished, frames₄, s₄, rfl, hfinished, hlast, h₄⟩ := handles_next h₃ rfl hs
  obtain ⟨-, hno, -⟩ | ⟨-, -, hno, -⟩ | ⟨-, -, hno, -⟩ | ⟨hkind₄, -, hchecked, rfl⟩ :=
    handleMessage_cases hfinished
  · cases hno
  · cases hno
  · cases hno
  have hnil : frames₄ = [] := by
    by_contra hne
    cases hlast hne
  subst hnil
  obtain rfl := h₄
  have hframe : ∀ {kind message}, message ∈ [extensions, certificate, verify, finished] →
      byteAt message 0 = kind → IsMessage kind message := fun hmem hkind => ⟨hframes _ hmem, hkind⟩
  obtain ⟨signature, hbound, hmessage, hverified⟩ := (verifyCertificateMessage_eq_ok p).mp hsigned
  refine ⟨⟨extensions, certificate, verify, finished⟩, ⟨hframe (by simp) hkind₁,
    hframe (by simp) hkind₂, ⟨chain, leaf, signature, hchain, haccepted, hleaf, hbound, hmessage,
    ?_⟩, ?_⟩, rfl, ?_⟩
  · rw [transcriptOf_append]
    exact hverified
  · rw [transcriptOf_append]
    exact (checkFinished_eq_ok (hframe (by simp) hkind₄)).mp hchecked
  · rw [transcriptOf_append]
    rfl

/-- The messages of a legal flight are frames. -/
theorem ServerFlight.Legal.isFrame {flight : ServerFlight} {hellos : List (List UInt8)}
    (h : flight.Legal p host serverHs hellos) :
    ∀ message ∈ flight.messages, handshakeFraming.IsFrame message := by
  obtain ⟨-, -, signature, -, -, -, hbound, hverify, -⟩ := h.verify
  have hsize : (beBytes 2 0x0804 ++ beBytes 2 signature.length ++ signature).length =
      signature.length + 4 := by
    simp only [List.length_append, length_beBytes]
    omega
  have hverify' : IsMessage 15 flight.verify := by
    have hmessage := isMessage_of_body 15
      (beBytes 2 0x0804 ++ beBytes 2 signature.length ++ signature) (by omega)
    rw [hsize] at hmessage
    rw [hverify, certificateVerifyMessage]
    simpa only [List.cons_append, List.append_assoc] using hmessage
  have hfinished' : IsMessage 20 flight.finished := by
    have hlength := length_finishedVerifyData serverHs
      (transcriptOf (hellos ++ [flight.extensions, flight.certificate, flight.verify])).hash
    have hmessage := isMessage_of_body 20 _ (by rw [hlength]; decide)
    rw [hlength] at hmessage
    rw [h.finished]
    exact hmessage
  rw [messages]
  simp only [List.mem_cons, List.not_mem_nil, or_false, forall_eq_or_imp, forall_eq]
  exact ⟨h.extensions.1, h.certificate.1, hverify'.1, hfinished'.1⟩

/-- The client handles a legal flight up to its end. -/
theorem handles_of_legal {flight : ServerFlight} {hellos : List (List UInt8)}
    (h : flight.Legal p host serverHs hellos) :
    ∃ s, Framing.Handles (handleMessage p host serverHs) Flight.finished
        (.start (transcriptOf hellos)) flight.messages s ∧ s.finished = true ∧
      s.transcript = transcriptOf (hellos ++ flight.messages) := by
  obtain ⟨chain, leaf, signature, hchain, haccepted, hleaf, hbound, hverify, hsigned⟩ := h.verify
  have hfinished := h.finished
  rw [transcriptOf_append] at hsigned hfinished
  have hverify' : byteAt flight.verify 0 = 15 := by rw [hverify]; rfl
  have hfinished' : byteAt flight.finished 0 = 20 := by rw [hfinished]; rfl
  have hisFinished : IsMessage 20 flight.finished :=
    ⟨h.isFrame _ (by simp [ServerFlight.messages]), hfinished'⟩
  refine ⟨((((Flight.start (transcriptOf hellos)).extended flight.extensions).certified
    flight.certificate chain).verified flight.verify).completed flight.finished, ?_, rfl, ?_⟩
  · refine ⟨_, handleMessage_extensions h.extensions.2 rfl, fun _ => rfl, ?_⟩
    refine ⟨_, handleMessage_certificate h.certificate.2 rfl rfl hchain haccepted, fun _ => rfl, ?_⟩
    refine ⟨_, handleMessage_verify hverify' rfl rfl hleaf ?_, fun _ => rfl, ?_⟩
    · exact (verifyCertificateMessage_eq_ok p).mpr ⟨signature, hbound, hverify, hsigned⟩
    refine ⟨_, handleMessage_finished hfinished' rfl ?_, fun hne => absurd rfl hne, rfl⟩
    exact (checkFinished_eq_ok hisFinished).mpr hfinished
  · rw [transcriptOf_append]
    rfl

end Handle

/-! ## What the client reads of a server -/

/-- The texts of the handshake records that can be opened in turn, and the error after them. -/
def handshakeTexts (aead : Aead) : ℕ → RecordKeys → List UInt8 → List (List UInt8) × TlsError
  | 0, _, _ => ([], .io)
  | turns + 1, keys, incoming =>
    match clientRecord incoming with
    | (.error error, _) => ([], error)
    | (.ok (kind, body), rest) =>
      if kind = 20 then handshakeTexts aead turns keys rest
      else if kind ≠ 23 then ([], .handshake)
      else
        match keys.openRecord aead (completeRecord body) [] with
        | (.error _, _, _) => ([], .invalidRecord)
        | (.ok inner, keys, plain) =>
          if inner ≠ 22 then ([], .handshake)
          else
            (plain :: (handshakeTexts aead turns keys rest).1, (handshakeTexts aead turns keys rest).2)

/-- The records are read as the chunks of a stream of messages. -/
theorem receive_eq_feed (host serverHs : List UInt8) (turns : ℕ) (keys : RecordKeys) (s : Flight)
    (handshakes incoming : List UInt8) :
    (receive p host serverHs turns keys s handshakes incoming).map Prod.fst =
      handshakeFraming.feed (handleMessage p host serverHs) Flight.finished maxHandshakes .handshake
        (handshakeTexts p.aead turns keys incoming).2 s handshakes
        (handshakeTexts p.aead turns keys incoming).1 := by
  induction turns generalizing keys s handshakes incoming with
  | zero => rfl
  | succ turns ih =>
    rw [receive, handshakeTexts]
    obtain ⟨result, rest⟩ := clientRecord incoming
    cases result with
    | error error => rfl
    | ok record =>
      obtain ⟨kind, body⟩ := record
      dsimp only
      split_ifs with hkind hkind'
      · exact ih keys s handshakes rest
      · rfl
      obtain ⟨outcome, keys', plain⟩ := keys.openRecord p.aead (completeRecord body) []
      cases outcome with
      | error error => rfl
      | ok inner =>
        dsimp only
        split_ifs with hinner
        · rfl
        rw [Framing.feed]
        dsimp only
        by_cases hlimit : (handshakes ++ plain).length > maxHandshakes
        · rw [refuseIf, if_pos hlimit]
          rfl
        rw [refuseIf_of_not hlimit, ok_bind, ok_bind]
        cases handshakeFraming.drain (handleMessage p host serverHs) Flight.finished
          (handshakes ++ plain).length s (handshakes ++ plain) with
        | error error => rfl
        | ok drained =>
          obtain ⟨s₁, handshakes₁⟩ := drained
          rw [ok_bind, ok_bind]
          dsimp only
          split_ifs with hdone
          · rfl
          · exact ih keys' s₁ handshakes₁ rest

/-- The client sends its own `Finished` message in one record. -/
theorem clientFinished_eq (session : Session) (applicationHash : List UInt8) :
    clientFinished p session applicationHash = .ok ((fromTrafficSecret session.clientHs).wire p.aead
      22 (finishedMessage (finishedVerifyData session.clientHs applicationHash))) := by
  have hlength : (finishedMessage (finishedVerifyData session.clientHs applicationHash)).length ≤
      maxPlaintext := by
    rw [length_finishedMessage]
    decide
  rw [clientFinished, finishedMessage_eq_ok, ok_bind, ← keysAt_zero session.clientHs,
    sealRecord_eq 22 (by decide) hlength]
  rfl

/-- The texts of records that were sealed in turn are read in turn. -/
theorem handshakeTexts_records {aead : Aead} (haead : aead.Inverts) (base : RecordKeys) {count : ℕ}
    {texts : List (List UInt8)} (hlengths : ∀ text ∈ texts, text.length ≤ maxPlaintext)
    (hcount : count + texts.length < 2 ^ 64) {turns : ℕ} (hturns : texts.length < turns) :
    handshakeTexts aead turns (base.keysAt count) (handshakeRecords aead base count texts) =
      (texts, .io) := by
  induction texts generalizing count turns with
  | nil =>
    obtain ⟨turns, rfl⟩ : ∃ left, turns = left + 1 := ⟨turns - 1, by omega⟩
    rw [handshakeTexts, handshakeRecords, clientRecord_nil]
  | cons text texts ih =>
    obtain ⟨hlength, hrest⟩ := List.forall_mem_cons.mp hlengths
    rw [List.length_cons] at hcount hturns
    obtain ⟨turns, rfl⟩ : ∃ left, turns = left + 1 := ⟨turns - 1, by omega⟩
    obtain ⟨body, hread, hcomplete⟩ := clientRecord_wire aead (base.keysAt count) 22 hlength
      (handshakeRecords aead base (count + 1) texts)
    have hopen : (base.keysAt count).openRecord aead ((base.keysAt count).wire aead 22 text) [] =
        (.ok 22, base.keysAt (count + 1), [] ++ text) :=
      open_wire (by omega) (by decide) hlength (haead _ _ _ _) []
    rw [handshakeTexts, handshakeRecords, hread]
    dsimp only
    rw [if_neg (by decide), if_neg (by decide), completeRecord, hcomplete, hopen]
    dsimp only
    rw [if_neg (by decide), ih hrest (by omega) (by omega), List.nil_append]

theorem length_handshakeRecords (aead : Aead) (base : RecordKeys) (count : ℕ)
    (texts : List (List UInt8)) :
    texts.length ≤ (handshakeRecords aead base count texts).length := by
  induction texts generalizing count with
  | nil => exact Nat.zero_le _
  | cons text texts ih =>
    have hrest := ih (count + 1)
    rw [handshakeRecords, List.length_append, length_wire, List.length_cons]
    omega

/-- What the client reads of a server before the flight: the hellos, the secret and the group that
they settle, and what is left to read. -/
structure ServerView where
  clientHello : List UInt8
  serverHello : List UInt8
  group : ℕ
  shared : List UInt8
  incoming : List UInt8

/-- The part of `connect` before the flight. -/
def serverView (random : ClientRandom) (host incoming : List UInt8) :
    Except TlsError ServerView := do
  let hello ← clientHello p random host
  let _ ← sendPlainHandshake hello.message
  let ((kind, serverHello), rest) ← firstRecord (incoming.length + 1) incoming
  refuseIf (kind ≠ 22) TlsError.handshake
  let (group, serverKey) ← serverShare serverHello
  let shared ← clientSecret p hello group serverKey
  return { clientHello := hello.message, serverHello, group, shared, incoming := rest }

namespace ServerView

variable (view : ServerView)

/-- The two hellos. -/
def hellos : List (List UInt8) := [view.clientHello, view.serverHello]

/-- What the hellos settle. -/
def session : Session := .start view.clientHello view.serverHello view.shared

/-- The texts of the records of the flight. -/
def texts : List (List UInt8) :=
  (handshakeTexts p.aead (view.incoming.length + 1) (fromTrafficSecret view.session.serverHs)
    view.incoming).1

/-- The flight completes the handshake with `host`. -/
def Accepts (host : List UInt8) (flight : ServerFlight) : Prop :=
  flight.Legal p host view.session.serverHs view.hellos

/-- The texts of the first records are exactly the messages of the flight. -/
def Carries (flight : ServerFlight) : Prop :=
  ∃ count, ((view.texts p).take count).flatten = flight.bytes

/-- The client ends with the group of the hellos and the keys for the whole transcript. -/
def Settles (flight : ServerFlight) (connected : Connected) : Prop :=
  ∃ rest, connected = view.session.connected view.group
    (transcriptOf (view.hellos ++ flight.messages)).hash rest

variable {p} in
/-- The texts that the server sealed are those that the client reads. -/
theorem texts_eq (haead : p.aead.Inverts) (texts : List (List UInt8))
    (hincoming : view.incoming = handshakeRecords p.aead
      (fromTrafficSecret view.session.serverHs) 0 texts)
    (hlengths : ∀ text ∈ texts, text.length ≤ maxPlaintext) (hcount : texts.length < 2 ^ 64) :
    view.texts p = texts := by
  have hlength := length_handshakeRecords p.aead (fromTrafficSecret view.session.serverHs) 0 texts
  have hread := handshakeTexts_records haead (fromTrafficSecret view.session.serverHs) hlengths
    (show 0 + texts.length < 2 ^ 64 by omega) (Nat.lt_succ_of_le hlength)
  rw [keysAt_zero] at hread
  rw [ServerView.texts, hincoming, hread]

end ServerView

section Connect

variable {p} {random : ClientRandom} {host incoming : List UInt8}

/-- The outcome of `connect` is that of the loop over the records. -/
theorem connect_fst (random : ClientRandom) (host incoming : List UInt8) :
    (connect p random host incoming).1 = do
      let view ← serverView p random host incoming
      let (s, rest) ← receive p host view.session.serverHs (view.incoming.length + 1)
        (fromTrafficSecret view.session.serverHs) (.start view.session.transcript) [] view.incoming
      return view.session.connected view.group s.transcript.hash rest := by
  rw [connect, serverView]
  cases clientHello p random host with
  | error error => rfl
  | ok hello =>
    rw [ok_bind]
    dsimp only
    cases sendPlainHandshake hello.message with
    | error error => rfl
    | ok sent =>
      rw [ok_bind]
      dsimp only
      rw [runClient]
      cases firstRecord (incoming.length + 1) incoming with
      | error error => rfl
      | ok first =>
        obtain ⟨⟨kind, serverHello⟩, rest⟩ := first
        rw [ok_bind, ok_bind]
        dsimp only
        by_cases hkind : kind ≠ 22
        · rw [refuseIf, if_pos hkind]
          rfl
        rw [refuseIf_of_not hkind, ok_bind, ok_bind]
        cases serverShare serverHello with
        | error error => rfl
        | ok share =>
          obtain ⟨group, serverKey⟩ := share
          rw [ok_bind, ok_bind]
          dsimp only
          cases clientSecret p hello group serverKey with
          | error error => rfl
          | ok shared =>
            rw [ok_bind, ok_bind, pure_bind]
            dsimp only [ServerView.session]
            cases receive p host (Session.start hello.message serverHello shared).serverHs
              (rest.length + 1)
              (fromTrafficSecret (Session.start hello.message serverHello shared).serverHs)
              (.start (Session.start hello.message serverHello shared).transcript) [] rest with
            | error error => rfl
            | ok received =>
              rw [ok_bind, ok_bind, clientFinished_eq]
              rfl

/-- The client sends its hello, and its `Finished` message if it succeeds. -/
theorem connect_snd {hello : ClientHello} {sent : List UInt8} {view : ServerView}
    {connected : Connected} (hhello : clientHello p random host = .ok hello)
    (hsent : sendPlainHandshake hello.message = .ok sent)
    (hview : serverView p random host incoming = .ok view)
    (h : (connect p random host incoming).1 = .ok connected) :
    (connect p random host incoming).2 = sent ++ (fromTrafficSecret view.session.clientHs).wire
      p.aead 22 (finishedMessage
        (finishedVerifyData view.session.clientHs connected.applicationHash)) := by
  rw [connect, hhello] at h ⊢
  dsimp only at h ⊢
  rw [hsent] at h ⊢
  dsimp only at h ⊢
  rw [serverView, hhello, ok_bind, hsent, ok_bind] at hview
  cases hrun : runClient p host hello incoming with
  | error error =>
    rw [hrun] at h
    cases h
  | ok result =>
    obtain ⟨connected', output⟩ := result
    rw [hrun] at h
    obtain rfl : connected' = connected := Except.ok.inj h
    obtain ⟨⟨⟨kind, serverHello⟩, rest⟩, hfirst, hrun⟩ := bind_eq_ok.mp hrun
    obtain ⟨_, hkind, hrun⟩ := bind_eq_ok.mp hrun
    obtain ⟨⟨group, serverKey⟩, hshare, hrun⟩ := bind_eq_ok.mp hrun
    obtain ⟨shared, hsecret, hrun⟩ := bind_eq_ok.mp hrun
    obtain ⟨⟨s, left⟩, hreceive, hrun⟩ := bind_eq_ok.mp hrun
    obtain ⟨output', houtput, hrun⟩ := bind_eq_ok.mp hrun
    rw [hfirst, ok_bind] at hview
    dsimp only at hview
    rw [hkind, ok_bind, hshare, ok_bind] at hview
    dsimp only at hview
    rw [hsecret, ok_bind] at hview
    obtain rfl := Except.ok.inj hview
    obtain ⟨rfl, rfl⟩ := Prod.mk.inj (Except.ok.inj hrun)
    rw [clientFinished_eq] at houtput
    rw [← Except.ok.inj houtput]
    rfl

/-- What a client that succeeds has seen. -/
theorem flight_of_connect {connected : Connected}
    (h : (connect p random host incoming).1 = .ok connected) :
    ∃ view flight, serverView p random host incoming = .ok view ∧ view.Accepts p host flight ∧
      flight.bytes <+: (view.texts p).flatten ∧
      Framing.Fits maxHandshakes flight.messages 0 (view.texts p) ∧
      view.Settles flight connected := by
  rw [connect_fst] at h
  obtain ⟨view, hview, h⟩ := bind_eq_ok.mp h
  obtain ⟨⟨s, rest⟩, hreceive, h⟩ := bind_eq_ok.mp h
  have hfeed := receive_eq_feed p host view.session.serverHs (view.incoming.length + 1)
    (fromTrafficSecret view.session.serverHs) (.start view.session.transcript) [] view.incoming
  rw [hreceive] at hfeed
  obtain ⟨frames, hframes, hhandles, hdone, hleads, hfits⟩ := Framing.feed_frames rfl hfeed.symm
  obtain ⟨flight, hlegal, rfl, htranscript⟩ := legal_of_handles hframes hhandles hdone
  refine ⟨view, flight, hview, hlegal, hleads, hfits, rest, ?_⟩
  have hhash : s.transcript = transcriptOf (view.hellos ++ flight.messages) := htranscript
  rw [← hhash]
  exact (Except.ok.inj h).symm

/-- A client that sees a legal flight succeeds. -/
theorem connect_of_flight {view : ServerView} {flight : ServerFlight}
    (hview : serverView p random host incoming = .ok view) (hlegal : view.Accepts p host flight)
    (hleads : flight.bytes <+: (view.texts p).flatten)
    (hfits : Framing.Fits maxHandshakes flight.messages 0 (view.texts p)) :
    ∃ connected, (connect p random host incoming).1 = .ok connected ∧
      view.Settles flight connected := by
  obtain ⟨s, hhandles, hdone, htranscript⟩ := handles_of_legal hlegal
  have hfeed := receive_eq_feed p host view.session.serverHs (view.incoming.length + 1)
    (fromTrafficSecret view.session.serverHs) (.start view.session.transcript) [] view.incoming
  replace hfeed := hfeed.trans
    (Framing.feed_of_frames rfl rfl hlegal.isFrame hhandles hdone hleads hfits)
  cases hreceive : receive p host view.session.serverHs (view.incoming.length + 1)
      (fromTrafficSecret view.session.serverHs) (.start view.session.transcript) []
      view.incoming with
  | error error =>
    rw [hreceive] at hfeed
    cases hfeed
  | ok received =>
    obtain ⟨s', rest⟩ := received
    rw [hreceive] at hfeed
    obtain rfl : s' = s := Except.ok.inj hfeed
    rw [connect_fst, hview, ok_bind, hreceive, ok_bind]
    exact ⟨_, rfl, rest, by rw [← htranscript]⟩

/-- The texts of the records start with one legal flight at most. -/
theorem flight_unique {view : ServerView} {flight flight' : ServerFlight}
    (h : view.Accepts p host flight) (h' : view.Accepts p host flight')
    (hleads : flight.bytes <+: (view.texts p).flatten)
    (hleads' : flight'.bytes <+: (view.texts p).flatten) : flight = flight' := by
  have hmessages : flight.messages = flight'.messages := by
    obtain hle | hle := Framing.prefix_or_prefix h.isFrame h'.isFrame hleads hleads'
    · exact hle.eq_of_length rfl
    · exact (hle.eq_of_length rfl).symm
  obtain ⟨extensions, certificate, verify, finished⟩ := flight
  obtain ⟨extensions', certificate', verify', finished'⟩ := flight'
  simpa [ServerFlight.messages] using hmessages

theorem ServerView.Carries.isPrefix {view : ServerView} {flight : ServerFlight}
    (h : view.Carries p flight) : flight.bytes <+: (view.texts p).flatten := by
  obtain ⟨count, hcount⟩ := h
  refine ⟨((view.texts p).drop count).flatten, ?_⟩
  rw [← hcount, ← List.flatten_append, List.take_append_drop]

end Connect

/-! ## A server that follows the protocol -/

section Honest

variable {p}

/-- Over ideal primitives each side reads the hello of the other, and they have the same secret. -/
theorem hellos_exchange (hideal : p.Ideal) {host : List UInt8} (hhost : HostName host)
    (client : ClientRandom) (server : ServerRandom) :
    ∃ hello serverHello shared head, clientHello p client host = .ok hello ∧
      sendPlainHandshake hello.message = .ok (head ++ hello.message) ∧ head.length = 5 ∧
      byteAt head 0 = 22 ∧ (∀ rest, serverRecord (head ++ hello.message ++ rest) =
        (.ok (head ++ hello.message), rest)) ∧
      answer p server hello.message = .ok (serverHello, shared) ∧
      ∀ records, serverView p client host (sendPlain serverHello ++ records) = .ok {
        clientHello := hello.message, serverHello, group := x25519MlKem768, shared,
        incoming := records } := by
  obtain ⟨message, hhello, hlength, hshare⟩ := clientHello_spec p hhost client
  obtain ⟨serverKey, shared, hserver, hkey, hcomplete⟩ :=
    complete_hybridServerShare hideal client server
  obtain ⟨serverHello, hanswer, hlength', hserverShare⟩ := answer_spec p hshare
    (by rw [client.session.property]; decide) hserver hkey
  obtain ⟨head, hsent, hhead, hkind, hread⟩ := sendPlainHandshake_spec hlength
  refine ⟨_, serverHello, shared, head, hhello, hsent, hhead, hkind, hread, hanswer,
    fun records => ?_⟩
  have hfirst : firstRecord ((sendPlain serverHello ++ records).length + 1)
      (sendPlain serverHello ++ records) = .ok ((22, serverHello), records) := by
    rw [firstRecord, clientRecord_sendPlain hlength']
    dsimp only
    rw [if_neg (by decide)]
  rw [serverView, hhello, ok_bind]
  dsimp only
  rw [hsent, ok_bind, hfirst, ok_bind]
  dsimp only
  rw [refuseIf_of_not (not_not.mpr rfl), ok_bind, hserverShare, ok_bind]
  dsimp only
  rw [clientSecret, if_pos rfl, hcomplete, ok_bind]
  rfl

/-- The flight of a configured server is legal for a client that accepts its chain, and short. -/
theorem serverFlight_legal {config : TlsServerConfig} (hsigns : config.Signs p)
    {host : List UInt8} (hchain : p.verifyServerChain host config.certificates = true)
    (random : ServerRandom) (session : Session) {hellos : List (List UInt8)}
    (hsession : session.transcript = transcriptOf hellos) :
    ∃ flight, serverFlight p config random session = .ok flight ∧
      flight.Legal p host session.serverHs hellos ∧ flight.bytes.length =
        (config.certificates.map entryBytes).flatten.length + config.modulus.length + 58 := by
  obtain ⟨hlist, hlength, hread⟩ := certificateChain_spec config
  obtain ⟨leaf, hleaf, hsign⟩ := hsigns
  generalize config.certificates.map entryBytes = list at *
  have hbody : (certificateBody list.flatten).length = list.flatten.length + 4 := by
    simp only [certificateBody, List.length_append, length_beBytes, List.length_singleton]
    omega
  have hextensions : handshake 8 [0, 0] = .ok [8, 0, 0, 2, 0, 0] := handshake_eq_ok 8 (by decide)
  have hcertificate : [0] ++ beBytes 3 list.flatten.length ++ list.flatten =
      certificateBody list.flatten := by
    rw [certificateBody, List.append_assoc]
  have hframe := isMessage_of_body 11 (certificateBody list.flatten) (by omega)
  generalize hmessage : 11 :: (beBytes 3 (certificateBody list.flatten).length ++
    certificateBody list.flatten) = certificate at *
  obtain ⟨signature, hsignature, hverified⟩ := hsign (signedContent
    (Transcript.hash ((session.transcript.update [8, 0, 0, 2, 0, 0]).update certificate)))
    random.salt
  have hmodulus := config.length_modulus
  have hsize : signature.val.length < 2 ^ 16 := by
    rw [signature.property]
    omega
  refine ⟨{ extensions := [8, 0, 0, 2, 0, 0]
            certificate
            verify := certificateVerifyMessage signature.val
            finished := finishedMessage (finishedVerifyData session.serverHs (Transcript.hash
              (((session.transcript.update [8, 0, 0, 2, 0, 0]).update certificate).update
                (certificateVerifyMessage signature.val)))) }, ?_, ⟨?_, hframe, ?_, ?_⟩, ?_⟩
  · rw [serverFlight, hextensions, ok_bind, hlist, ok_bind]
    dsimp only
    rw [pushU24_eq_ok (by omega), ok_bind, hcertificate, handshake_eq_ok 11 (by omega), hmessage,
      ok_bind]
    rw [hsignature, okOr_some, ok_bind, pushU16_eq_ok (by decide), ok_bind, pushU16_eq_ok hsize,
      ok_bind, certificateVerifyMessage_eq_ok hsize, ok_bind,
      finishedMessage_eq_ok, ok_bind]
    rfl
  · exact isMessage_of_body 8 [0, 0] (by decide)
  · refine ⟨config.certificates, leaf, signature.val, hread, hchain, hleaf, hsize, rfl, ?_⟩
    rw [transcriptOf_append, ← hsession]
    exact hverified
  · rw [transcriptOf_append, ← hsession]
    rfl
  · have hcertificateLength := congrArg List.length hmessage
    have hsignatureLength := signature.property
    rw [List.length_cons, List.length_append, length_beBytes] at hcertificateLength
    simp only [ServerFlight.bytes, ServerFlight.messages, List.flatten_cons, List.flatten_nil,
      List.append_nil, List.length_append, length_finishedMessage, certificateVerifyMessage,
      length_beBytes, List.length_cons, List.length_nil]
    omega

end Honest

/-! ## Exactness -/

/-- The handshake is exact on what a server sends: if the client succeeds, the texts of the first
records are those of a legal flight and nothing else; and if they are, the client succeeds with
what the flight settles, however it is split into records. -/
structure ExactHandshake (random : ClientRandom) (host incoming : List UInt8) : Prop where
  sound : ∀ connected, (connect p random host incoming).1 = .ok connected →
    ∃ view flight, serverView p random host incoming = .ok view ∧ view.Accepts p host flight ∧
      view.Carries p flight ∧ view.Settles flight connected
  complete : ∀ view flight, serverView p random host incoming = .ok view →
    view.Accepts p host flight → view.Carries p flight →
    ∃ connected, (connect p random host incoming).1 = .ok connected ∧
      view.Settles flight connected

/-- A legal flight at the front of the texts ends where a record ends, and a message in progress
and the next record never exceed the buffer while it arrives. -/
structure ServerView.Tight (view : ServerView) (host : List UInt8) : Prop where
  ends : ∀ flight, view.Accepts p host flight → flight.bytes <+: (view.texts p).flatten →
    Framing.Fits maxHandshakes flight.messages 0 (view.texts p) → view.Carries p flight
  fits : ∀ flight, view.Accepts p host flight → view.Carries p flight →
    Framing.Fits maxHandshakes flight.messages 0 (view.texts p)

/-- **Main theorem.** The handshake is exact if and only if the records keep to the flight: no text
goes on after a `Finished` message that completes a legal flight, and no split of the flight fills
the buffer. -/
theorem handshake_exactness (random : ClientRandom) (host incoming : List UInt8) :
    ExactHandshake p random host incoming ↔
      ∀ view, serverView p random host incoming = .ok view → view.Tight p host := by
  constructor
  · rintro ⟨sound, complete⟩ view hview
    have hunique : ∀ flight connected, view.Accepts p host flight →
        flight.bytes <+: (view.texts p).flatten →
        (connect p random host incoming).1 = .ok connected →
        view.Carries p flight ∧ Framing.Fits maxHandshakes flight.messages 0 (view.texts p) := by
      intro flight connected haccepts hleads hconnect
      obtain ⟨view₁, flight₁, hview₁, haccepts₁, hcarries, -⟩ := sound connected hconnect
      obtain ⟨view₂, flight₂, hview₂, haccepts₂, hleads₂, hfits, -⟩ := flight_of_connect hconnect
      obtain rfl : view = view₁ := Except.ok.inj (hview.symm.trans hview₁)
      obtain rfl : view = view₂ := Except.ok.inj (hview.symm.trans hview₂)
      obtain rfl := flight_unique haccepts haccepts₁ hleads hcarries.isPrefix
      obtain rfl := flight_unique haccepts haccepts₂ hleads hleads₂
      exact ⟨hcarries, hfits⟩
    constructor
    · intro flight haccepts hleads hfits
      obtain ⟨connected, hconnect, -⟩ := connect_of_flight hview haccepts hleads hfits
      exact (hunique flight connected haccepts hleads hconnect).1
    · intro flight haccepts hcarries
      obtain ⟨connected, hconnect, -⟩ := complete view flight hview haccepts hcarries
      exact (hunique flight connected haccepts hcarries.isPrefix hconnect).2
  · intro htight
    constructor
    · intro connected hconnect
      obtain ⟨view, flight, hview, haccepts, hleads, hfits, hsettles⟩ :=
        flight_of_connect hconnect
      exact ⟨view, flight, hview, haccepts, (htight view hview).ends flight haccepts hleads hfits,
        hsettles⟩
    · intro view flight hview haccepts hcarries
      exact connect_of_flight hview haccepts hcarries.isPrefix
        ((htight view hview).fits flight haccepts hcarries)

/-! ## A flight with a byte behind it -/

/-- A server that puts one byte behind its `Finished` message, in the same record. -/
def spill (config : TlsServerConfig) (client : ClientRandom) (server : ServerRandom)
    (host : List UInt8) : Except TlsError (List UInt8) := do
  let hello ← clientHello p client host
  let (serverHello, shared) ← answer p server hello.message
  let session := Session.start hello.message serverHello shared
  let flight ← serverFlight p config server session
  return sendPlain serverHello ++ handshakeRecords p.aead (fromTrafficSecret session.serverHs) 0
    [flight.bytes ++ [0]]

variable {p} in
/-- The client succeeds although a byte is left over. -/
theorem not_exact_of_spill (hideal : p.Ideal) {config : TlsServerConfig}
    (hsigns : config.Signs p) {host : List UInt8} (hhost : HostName host)
    (hchain : p.verifyServerChain host config.certificates = true)
    (hshort : (config.certificates.map entryBytes).flatten.length + config.modulus.length + 58 <
      maxPlaintext) (client : ClientRandom) (server : ServerRandom) :
    ∃ incoming, spill p config client server host = .ok incoming ∧
      ¬ExactHandshake p client host incoming := by
  obtain ⟨hello, serverHello, shared, head, hhello, -, -, -, -, hanswer, hview⟩ :=
    hellos_exchange hideal hhost client server
  obtain ⟨flight, hflight, hlegal, hlength⟩ := serverFlight_legal hsigns hchain server
    (.start hello.message serverHello shared) rfl
  have hmax : maxPlaintext = 16384 := rfl
  obtain ⟨records, hrecords⟩ : ∃ records, records = handshakeRecords p.aead
    (fromTrafficSecret (Session.start hello.message serverHello shared).serverHs) 0
    [flight.bytes ++ [0]] := ⟨_, rfl⟩
  refine ⟨sendPlain serverHello ++ records, ?_, fun hexact => ?_⟩
  · rw [spill, hhello, ok_bind, hanswer, ok_bind]
    dsimp only
    rw [hflight, ok_bind, hrecords]
    rfl
  · have htight := (handshake_exactness p client host _).mp hexact _ (hview _)
    have htexts := ServerView.texts_eq
      ⟨hello.message, serverHello, x25519MlKem768, shared, records⟩ hideal.inverts
      [flight.bytes ++ [0]] hrecords (by simp; omega) (by simp)
    have hcarries := htight.ends flight hlegal
      (by rw [htexts, List.flatten_singleton]; exact List.prefix_append _ _)
      (Framing.fits_of_length (by rw [htexts]; simp [maxHandshakes]; omega))
    obtain ⟨count, hcount⟩ := hcarries
    rw [htexts] at hcount
    have hcountLength := congrArg List.length hcount
    cases count with
    | zero =>
      rw [List.take_zero, List.flatten_nil, List.length_nil] at hcountLength
      omega
    | succ count =>
      rw [List.take_succ_cons, List.take_nil, List.flatten_singleton, List.length_append,
        List.length_singleton] at hcountLength
      omega

/-! ## Stand-ins for the primitives -/

/-- `n` bytes of zero. -/
def zeroOctets (n : ℕ) : Octets n := ⟨zeros n, List.length_replicate⟩

/-- AES-128-GCM with stand-ins for the public-key primitives: a ciphertext starts with the secret,
the shared secret of two keys is their sum, and every signature verifies. -/
def standIn : Primitives Unit where
  aead := aes128Gcm
  mlKemKeygen _ _ := (zeroOctets 1184, zeroOctets 2400)
  mlKemEncapsulate _ message := some (message, ⟨message.val ++ zeros 1056, by
    rw [List.length_append, message.property, zeros, List.length_replicate]⟩)
  mlKemDecapsulate _ ciphertext := Octets.ofList 32 (ciphertext.val.take 32)
  x25519Public scalar := scalar
  x25519Shared scalar point := some ⟨List.zipWith (· + ·) scalar.val point.val, by
    rw [List.length_zipWith, scalar.property, point.property, Nat.min_self]⟩
  rsaPssSign modulus _ _ _ := some (zeroOctets modulus.length)
  parseCertificate _ := some ()
  verifyTlsPss _ _ _ := true
  verifyServerChain _ chain := !chain.isEmpty

theorem standIn_ideal : standIn.Ideal where
  inverts := aes128Gcm_inverts
  decapsulates d z message := by
    refine ⟨message, _, rfl, ?_⟩
    show Octets.ofList 32 ((message.val ++ zeros 1056).take 32) = some message
    rw [List.take_left' message.property, Octets.ofList_val]
  commutes a b := by
    refine ⟨_, rfl, ?_⟩
    simp only [standIn, List.zipWith_comm_of_comm UInt8.add_comm]

/-- A configuration with one certificate. -/
def sampleConfig : TlsServerConfig where
  certificates := [[1]]
  modulus := List.replicate 256 1
  privateExponent := [1]
  certificates_ne_nil := by decide
  length_certificates := by decide
  length_certificate := by decide
  length_modulus := by
    rw [List.length_replicate]
    decide
  privateExponent_ne_nil := by decide

theorem sampleConfig_signs : sampleConfig.Signs standIn :=
  ⟨(), rfl, fun _ _ => ⟨_, rfl, rfl⟩⟩

/-- A client that draws zeros. -/
def sampleClient : ClientRandom :=
  ⟨zeroOctets 32, zeroOctets 32, zeroOctets 32, zeroOctets 32, zeroOctets 32, zeroOctets 32⟩

/-- A server that draws zeros. -/
def sampleServer : ServerRandom := ⟨zeroOctets 32, zeroOctets 32, zeroOctets 32, zeroOctets 32⟩

/-- `localhost`. -/
def sampleHost : List UInt8 := [108, 111, 99, 97, 108, 104, 111, 115, 116]

theorem sampleHost_hostName : HostName sampleHost := by
  refine ⟨by decide, ?_, by decide +kernel⟩
  show 9 ≤ 253
  omega

/-- The handshake is not exact on the bytes of a server that puts one byte behind `Finished`. -/
theorem handshake_not_exact : ∃ incoming,
    spill standIn sampleConfig sampleClient sampleServer sampleHost = .ok incoming ∧
      ¬ExactHandshake standIn sampleClient sampleHost incoming := by
  have hmodulus : sampleConfig.modulus.length = 256 := List.length_replicate
  have hentries : (sampleConfig.certificates.map entryBytes).flatten.length = 6 := rfl
  have hmax : maxPlaintext = 16384 := rfl
  exact not_exact_of_spill standIn_ideal sampleConfig_signs sampleHost_hostName rfl (by omega)
    sampleClient sampleServer

end Mrml.Tls
