import Mrml.Tls.Record

/-!
# Reading from a TLS stream

Model of `TlsClientStream::read` (`crates/mrml-tls/src/client.rs`, lines 91–106 and 479–517) and
of `TlsServerStream::read` (`server.rs`, lines 241–258 and 470–492). A read returns the bytes that
it puts into its buffer, next to the stream after it; the connection holds what the peer has sent
and is not read yet.

Results:
* `readClient_spec`, `readServer_spec`: on the records of the peer, both reads do what `readSpec`
  does on the records themselves. They differ in one point: the client passes over a record
  without data, and the server returns it as a read of no bytes.
* `exact_iff`: which sequences of records `readSpec` delivers as it should.
* `stream_semantics`: the same for the two reads of the code.
-/

namespace Mrml.Tls

/-! ## Records on the wire -/

/-- `TcpStream::read_exact` at the end of what the peer sends: the bytes, and what is left. -/
def readExact (len : ℕ) (incoming : List UInt8) : Except TlsError (List UInt8) × List UInt8 :=
  if len ≤ incoming.length then (.ok (incoming.take len), incoming.drop len) else (.error .io, [])

/-- `record` of both files: the header is checked, and the body is read. -/
def readRecord (accepts : List UInt8 → Bool) (incoming : List UInt8) :
    Except TlsError (List UInt8 × List UInt8) × List UInt8 :=
  match readExact 5 incoming with
  | (.error error, rest) => (.error error, rest)
  | (.ok header, rest) =>
    if !accepts header then (.error .invalidRecord, rest)
    else
      let length := beNat (slice header 3 2)
      if length > 16640 then (.error .invalidRecord, rest)
      else
        match readExact length rest with
        | (.error error, rest) => (.error error, rest)
        | (.ok body, rest) => (.ok (header, body), rest)

/-- `record` of `client.rs` (lines 91–106): the type and the body. -/
def clientRecord (incoming : List UInt8) : Except TlsError (UInt8 × List UInt8) × List UInt8 :=
  let (result, rest) := readRecord (fun header => slice header 1 2 == [3, 3]) incoming
  (result.map fun (header, body) => (byteAt header 0, body), rest)

/-- `record` of `server.rs` (lines 241–258): the whole record. -/
def serverRecord (incoming : List UInt8) : Except TlsError (List UInt8) × List UInt8 :=
  let (result, rest) := readRecord (fun header => byteAt header 1 == 3 &&
    1 ≤ byteAt header 2 && byteAt header 2 ≤ 3) incoming
  (result.map fun (header, body) => header ++ body, rest)

/-! ## The two streams -/

/-- `TlsClientStream` (`client.rs`, lines 296–303), and `incoming` for its connection. -/
structure TlsClientStream where
  incoming : List UInt8
  readKeys : RecordKeys
  writeKeys : RecordKeys
  pending : List UInt8
  pendingPosition : ℕ
  negotiatedGroup : UInt16

/-- `TlsServerStream` (`server.rs`, lines 308–314), and `incoming` for its connection. -/
structure TlsServerStream where
  incoming : List UInt8
  readKeys : RecordKeys
  writeKeys : RecordKeys
  pending : List UInt8
  position : ℕ

/-- The loop of `TlsClientStream::read` (lines 480–516) into a buffer of `size` bytes. The pending
bytes are cleared when the loop goes on, so that a further turn is a further call; each turn takes
a record. -/
def readClientLoop (aead : Aead) : ℕ → TlsClientStream → ℕ →
    Except TlsError (List UInt8) × TlsClientStream
  | 0, s, _ => (.error .io, s)
  | turns + 1, s, size =>
    if s.pendingPosition < s.pending.length then
      let n := min size (s.pending.length - s.pendingPosition)
      let bytes := slice s.pending s.pendingPosition n
      if s.pendingPosition + n = s.pending.length then
        (.ok bytes, { s with pending := [], pendingPosition := 0 })
      else (.ok bytes, { s with pendingPosition := s.pendingPosition + n })
    else
      match clientRecord s.incoming with
      | (.error error, rest) => (.error error, { s with incoming := rest })
      | (.ok (kind, body), rest) =>
        if kind ≠ 23 then (.error .invalidRecord, { s with incoming := rest })
        else
          let complete :=
            [23, 3, 3, UInt8.ofNat (body.length >>> 8), UInt8.ofNat body.length] ++ body
          match s.readKeys.openRecord aead complete s.pending with
          | (.error error, readKeys, pending) =>
            (.error error, { s with incoming := rest, readKeys, pending })
          | (.ok inner, readKeys, pending) =>
            if inner = 23 then
              readClientLoop aead turns { s with incoming := rest, readKeys, pending } size
            else if inner = 21 then
              (.ok [], { s with incoming := rest, readKeys, pending := [] })
            else if inner = 22 then
              readClientLoop aead turns { s with incoming := rest, readKeys, pending := [] } size
            else (.error .invalidRecord, { s with incoming := rest, readKeys, pending })

/-- `TlsClientStream::read` (lines 479–517): there are fewer records than bytes. -/
def readClient (aead : Aead) (s : TlsClientStream) (size : ℕ) :
    Except TlsError (List UInt8) × TlsClientStream :=
  readClientLoop aead (s.incoming.length + 2) s size

/-- The loop of `TlsServerStream::read` (lines 471–491) into a buffer of `size` bytes. -/
def readServerLoop (aead : Aead) : ℕ → TlsServerStream → ℕ →
    Except TlsError (List UInt8) × TlsServerStream
  | 0, s, _ => (.error .io, s)
  | turns + 1, s, size =>
    if s.position < s.pending.length then
      let n := min size (s.pending.length - s.position)
      (.ok (slice s.pending s.position n), { s with position := s.position + n })
    else
      match serverRecord s.incoming with
      | (.error error, rest) => (.error error, { s with incoming := rest })
      | (.ok record, rest) =>
        match s.readKeys.openRecord aead record [] with
        | (.error error, readKeys, _) => (.error error, { s with incoming := rest, readKeys })
        | (.ok kind, readKeys, plain) =>
          if kind = 21 then (.ok [], { s with incoming := rest, readKeys })
          else if kind = 23 then
            let n := min size plain.length
            (.ok (plain.take n),
              { s with incoming := rest, readKeys, pending := plain, position := n })
          else readServerLoop aead turns { s with incoming := rest, readKeys } size

/-- `TlsServerStream::read` (lines 470–492): there are fewer records than bytes. -/
def readServer (aead : Aead) (s : TlsServerStream) (size : ℕ) :
    Except TlsError (List UInt8) × TlsServerStream :=
  readServerLoop aead (s.incoming.length + 2) s size

/-! ## The records of the peer -/

/-- A record that a peer sends once the handshake is done. -/
inductive PeerRecord
  | data (bytes : List UInt8)
  | alert (bytes : List UInt8)
deriving DecidableEq

namespace PeerRecord

/-- The content type. -/
def contentType : PeerRecord → UInt8
  | data _ => 23
  | alert _ => 21

/-- The text. -/
def plaintext : PeerRecord → List UInt8
  | data bytes => bytes
  | alert bytes => bytes

end PeerRecord

/-- The application data before the first alert. -/
def dataBefore : List PeerRecord → List UInt8
  | [] => []
  | .data bytes :: records => bytes ++ dataBefore records
  | .alert _ :: _ => []

/-- What follows the first alert. -/
def afterAlert : List PeerRecord → Option (List PeerRecord)
  | [] => none
  | .data _ :: records => afterAlert records
  | .alert _ :: records => some records

/-- The bytes of the records that a peer seals after `count` others. -/
def sealedStream (aead : Aead) (base : RecordKeys) : ℕ → List PeerRecord → List UInt8
  | _, [] => []
  | count, record :: records =>
    (base.keysAt count).wire aead record.contentType record.plaintext ++
      sealedStream aead base (count + 1) records

/-- The number of these bytes: a record has 22 more than its text. -/
def wireLength : List PeerRecord → ℕ
  | [] => 0
  | record :: records => record.plaintext.length + 22 + wireLength records

theorem length_sealedStream (aead : Aead) (base : RecordKeys) (count : ℕ)
    (records : List PeerRecord) :
    (sealedStream aead base count records).length = wireLength records := by
  induction records generalizing count with
  | nil => rfl
  | cons record records ih =>
    rw [sealedStream, List.length_append, RecordKeys.length_wire, ih, wireLength]

/-! ## Reads of records -/

/-- What a read does on the records themselves: it returns pending bytes, or the next data, or
nothing for an alert. A client passes over records without data. -/
def readSpec (skipsEmpty : Bool) (size : ℕ) : List UInt8 → List PeerRecord →
    Except TlsError (List UInt8) × List UInt8 × List PeerRecord
  | byte :: pending, records =>
    (.ok ((byte :: pending).take size), (byte :: pending).drop size, records)
  | [], [] => (.error .io, [], [])
  | [], .alert _ :: records => (.ok [], [], records)
  | [], .data bytes :: records =>
    if skipsEmpty && bytes.isEmpty then readSpec skipsEmpty size [] records
    else (.ok (bytes.take size), bytes.drop size, records)

/-! ## The reads of the code -/

section Rep

variable {aead : Aead} {base : RecordKeys}

open RecordKeys

theorem length_wire_body (aead : Aead) (keys : RecordKeys) (contentType : UInt8)
    (plaintext : List UInt8) :
    ∃ body, keys.wire aead contentType plaintext = header plaintext.length ++ body ∧
      body.length = plaintext.length + 17 := by
  refine ⟨_, List.append_assoc _ _ _, ?_⟩
  rw [List.length_append, aead.length_ciphertext, aead.length_tag, List.length_append,
    List.length_singleton]

/-- A record is read off the connection. -/
theorem readRecord_append (accepts : List UInt8 → Bool) {head body : List UInt8}
    (hhead : head.length = 5) (haccepts : accepts head = true)
    (hsize : beNat (slice head 3 2) = body.length) (hbody : body.length ≤ 16640)
    (rest : List UInt8) :
    readRecord accepts (head ++ (body ++ rest)) = (.ok (head, body), rest) := by
  have hlong : 5 ≤ (head ++ (body ++ rest)).length := by
    rw [List.length_append, hhead]
    omega
  have hrest : body.length ≤ (body ++ rest).length := by
    rw [List.length_append]
    omega
  rw [readRecord, readExact, if_pos hlong, List.take_left' hhead, List.drop_left' hhead]
  dsimp only
  rw [haccepts, hsize, if_neg (by decide), if_neg (by omega), readExact, if_pos hrest,
    List.take_left, List.drop_left]

/-- A record of the peer is read off the connection. -/
theorem readRecord_wire (aead : Aead) (accepts : List UInt8 → Bool) (keys : RecordKeys)
    (contentType : UInt8) {plaintext : List UInt8} (hlength : plaintext.length ≤ maxPlaintext)
    (haccepts : accepts (header plaintext.length) = true) (rest : List UInt8) :
    ∃ body, keys.wire aead contentType plaintext = header plaintext.length ++ body ∧
      body.length = plaintext.length + 17 ∧
      readRecord accepts (keys.wire aead contentType plaintext ++ rest) =
        (.ok (header plaintext.length, body), rest) := by
  have hmax : maxPlaintext = 16384 := rfl
  obtain ⟨body, hwire, hbody⟩ := length_wire_body aead keys contentType plaintext
  refine ⟨body, hwire, hbody, ?_⟩
  have hsize : beNat (slice (header plaintext.length) 3 2) = body.length := by
    have h := beNat_header hlength []
    rwa [List.append_nil, ← hbody] at h
  rw [hwire, List.append_assoc]
  exact readRecord_append accepts (length_header _) haccepts hsize (by omega) rest

/-- The client reads a record of the peer, and puts its header before the body again. -/
theorem clientRecord_wire (aead : Aead) (keys : RecordKeys) (contentType : UInt8)
    {plaintext : List UInt8} (hlength : plaintext.length ≤ maxPlaintext) (rest : List UInt8) :
    ∃ body, clientRecord (keys.wire aead contentType plaintext ++ rest) =
        (.ok (23, body), rest) ∧
      [23, 3, 3, UInt8.ofNat (body.length >>> 8), UInt8.ofNat body.length] ++ body =
        keys.wire aead contentType plaintext := by
  obtain ⟨body, hwire, hbody, hread⟩ := readRecord_wire aead
    (fun header => slice header 1 2 == [3, 3]) keys contentType hlength rfl rest
  refine ⟨body, ?_, ?_⟩
  · rw [clientRecord, hread]
    rfl
  · rw [hwire, hbody]
    rfl

/-- The server reads a record of the peer. -/
theorem serverRecord_wire (aead : Aead) (keys : RecordKeys) (contentType : UInt8)
    {plaintext : List UInt8} (hlength : plaintext.length ≤ maxPlaintext) (rest : List UInt8) :
    serverRecord (keys.wire aead contentType plaintext ++ rest) =
      (.ok (keys.wire aead contentType plaintext), rest) := by
  obtain ⟨body, hwire, hbody, hread⟩ := readRecord_wire aead
    (fun header => byteAt header 1 == 3 && 1 ≤ byteAt header 2 && byteAt header 2 ≤ 3)
    keys contentType hlength rfl rest
  rw [serverRecord, hread, hwire]
  rfl

theorem contentType_ne_zero (record : PeerRecord) : record.contentType ≠ 0 := by
  cases record with
  | data bytes => show (23 : UInt8) ≠ 0; decide
  | alert bytes => show (21 : UInt8) ≠ 0; decide

/-- The state of a client whose peer has sealed `count` records that were read, and these. -/
structure ClientRep (aead : Aead) (base : RecordKeys) (s : TlsClientStream)
    (pending : List UInt8) (records : List PeerRecord) (count : ℕ) : Prop where
  incoming : s.incoming = sealedStream aead base count records
  readKeys : s.readKeys = base.keysAt count
  pending_eq : s.pending.drop s.pendingPosition = pending
  position : s.pendingPosition < s.pending.length ∨ s.pending = [] ∧ s.pendingPosition = 0
  bound : count + records.length < 2 ^ 64
  lengths : ∀ record ∈ records, record.plaintext.length ≤ maxPlaintext

/-- The state of a server, likewise. -/
structure ServerRep (aead : Aead) (base : RecordKeys) (s : TlsServerStream)
    (pending : List UInt8) (records : List PeerRecord) (count : ℕ) : Prop where
  incoming : s.incoming = sealedStream aead base count records
  readKeys : s.readKeys = base.keysAt count
  pending_eq : s.pending.drop s.position = pending
  bound : count + records.length < 2 ^ 64
  lengths : ∀ record ∈ records, record.plaintext.length ≤ maxPlaintext

/-- The record next in turn is opened. -/
theorem openRecord_next (haead : aead.Inverts) (base : RecordKeys) (count : ℕ)
    (record : PeerRecord)
    (hbound : count + 1 < 2 ^ 64) (hlength : record.plaintext.length ≤ maxPlaintext)
    (output : List UInt8) :
    (base.keysAt count).openRecord aead
        ((base.keysAt count).wire aead record.contentType record.plaintext) output =
      (.ok record.contentType, base.keysAt (count + 1), output ++ record.plaintext) :=
  open_wire hbound (contentType_ne_zero record) hlength (haead _ _ _ _) output

theorem clientRecord_nil : clientRecord [] = (.error .io, []) := rfl

theorem serverRecord_nil : serverRecord [] = (.error .io, []) := rfl

/-- Pending bytes are returned first. -/
theorem readClientLoop_pending {s : TlsClientStream} {pending : List UInt8}
    {records : List PeerRecord} {count : ℕ} (h : ClientRep aead base s pending records count)
    (hpending : pending ≠ []) (turns size : ℕ) :
    ∃ s', readClientLoop aead (turns + 1) s size = (.ok (pending.take size), s') ∧
      ClientRep aead base s' (pending.drop size) records count := by
  have hlt : s.pendingPosition < s.pending.length := by
    by_contra hge
    exact hpending (h.pending_eq ▸ List.drop_eq_nil_of_le (Nat.le_of_not_lt hge))
  have hlength : pending.length = s.pending.length - s.pendingPosition := by
    rw [← h.pending_eq, List.length_drop]
  have hbytes : slice s.pending s.pendingPosition
      (min size (s.pending.length - s.pendingPosition)) = pending.take size := by
    rw [slice, h.pending_eq, ← hlength, ← List.take_eq_take_min]
  rw [readClientLoop, if_pos hlt]
  dsimp only
  rw [hbytes]
  split_ifs with hall
  · refine ⟨_, rfl, h.incoming, h.readKeys, ?_, .inr ⟨rfl, rfl⟩, h.bound, h.lengths⟩
    show [] = _
    exact (List.drop_eq_nil_of_le (by omega)).symm
  · refine ⟨_, rfl, h.incoming, h.readKeys, ?_, .inl ?_, h.bound, h.lengths⟩
    · show s.pending.drop (s.pendingPosition + min size _) = _
      rw [← List.drop_drop, h.pending_eq, ← hlength]
      rcases le_total size pending.length with hle | hle
      · rw [Nat.min_eq_left hle]
      · omega
    · show s.pendingPosition + min size _ < s.pending.length
      omega

theorem ClientRep.idle {s : TlsClientStream} {records : List PeerRecord} {count : ℕ}
    (h : ClientRep aead base s [] records count) :
    ¬s.pendingPosition < s.pending.length ∧ s.pending = [] ∧ s.pendingPosition = 0 := by
  have hidle : ¬s.pendingPosition < s.pending.length := by
    intro hlt
    have hlength := congrArg List.length h.pending_eq
    rw [List.length_drop] at hlength
    change _ = 0 at hlength
    omega
  exact ⟨hidle, h.position.resolve_left hidle⟩

/-- What the client holds once it has opened the next record. -/
def TlsClientStream.opened (s : TlsClientStream) (aead : Aead) (base : RecordKeys) (count : ℕ)
    (records : List PeerRecord) (pending : List UInt8) : TlsClientStream :=
  { s with
    incoming := sealedStream aead base (count + 1) records
    readKeys := base.keysAt (count + 1)
    pending }

/-- One turn of the loop of the client opens the next record. -/
theorem readClientLoop_record (haead : aead.Inverts) (turns size : ℕ) {record : PeerRecord}
    {records : List PeerRecord} {s : TlsClientStream} {count : ℕ}
    (h : ClientRep aead base s [] (record :: records) count) :
    readClientLoop aead (turns + 1) s size =
        (match record with
          | .data bytes =>
            readClientLoop aead turns (s.opened aead base count records bytes) size
          | .alert _ => (.ok [], s.opened aead base count records [])) ∧
      ∀ pending, ClientRep aead base (s.opened aead base count records pending) pending records
        (count + 1) := by
  obtain ⟨hidle, hempty, hzero⟩ := h.idle
  have hlength := h.lengths record List.mem_cons_self
  have hbound := h.bound
  rw [List.length_cons] at hbound
  obtain ⟨body, hread, hcomplete⟩ := clientRecord_wire aead (base.keysAt count)
    record.contentType hlength (sealedStream aead base (count + 1) records)
  have hrecord : clientRecord s.incoming =
      (.ok (23, body), sealedStream aead base (count + 1) records) := by
    rw [h.incoming, sealedStream, hread]
  have hopen := openRecord_next haead base count record (by omega)
    hlength []
  rw [List.nil_append] at hopen
  constructor
  · rw [readClientLoop, if_neg hidle, hrecord]
    dsimp only
    rw [if_neg (fun hne => hne rfl), hcomplete, h.readKeys, hempty, hopen]
    cases record with
    | data bytes => rfl
    | alert bytes => rfl
  · intro pending
    refine ⟨rfl, rfl, ?_, ?_, by omega, fun r hr => h.lengths r (List.mem_cons_of_mem _ hr)⟩
    · show pending.drop s.pendingPosition = pending
      rw [hzero, List.drop_zero]
    · show s.pendingPosition < pending.length ∨ pending = [] ∧ s.pendingPosition = 0
      rw [hzero]
      rcases pending.eq_nil_or_concat with rfl | ⟨front, byte, rfl⟩
      · exact .inr ⟨rfl, rfl⟩
      · exact .inl (by simp)

theorem readSpec_pending (skipsEmpty : Bool) (size : ℕ) {pending : List UInt8}
    (hpending : pending ≠ []) (records : List PeerRecord) :
    readSpec skipsEmpty size pending records = (.ok (pending.take size), pending.drop size,
      records) := by
  obtain ⟨byte, tail, rfl⟩ := List.exists_cons_of_ne_nil hpending
  rw [readSpec]

theorem readSpec_data (skipsEmpty : Bool) (size : ℕ) {bytes : List UInt8} (hbytes : bytes ≠ [])
    (records : List PeerRecord) :
    readSpec skipsEmpty size [] (.data bytes :: records) = (.ok (bytes.take size),
      bytes.drop size, records) := by
  rw [readSpec, List.isEmpty_eq_false_iff.mpr hbytes, Bool.and_false, if_neg Bool.false_ne_true]

/-- The loop of the client does what `readSpec` does. -/
theorem readClientLoop_spec (haead : aead.Inverts) (size : ℕ) {records : List PeerRecord}
    {s : TlsClientStream} {pending : List UInt8} {count turns : ℕ}
    (h : ClientRep aead base s pending records count) (hturns : records.length + 2 ≤ turns) :
    ∃ s' count', readClientLoop aead turns s size =
        ((readSpec true size pending records).1, s') ∧
      ClientRep aead base s' (readSpec true size pending records).2.1
        (readSpec true size pending records).2.2 count' := by
  obtain ⟨turns, rfl⟩ : ∃ n, turns = n + 2 := ⟨turns - 2, by omega⟩
  by_cases hpending : pending = []
  · subst hpending
    induction records generalizing s count turns with
    | nil =>
      refine ⟨{ s with incoming := [] }, count, ?_, ?_⟩
      · rw [readClientLoop, if_neg h.idle.1, h.incoming, sealedStream, clientRecord_nil]
        rfl
      · exact ⟨rfl, h.readKeys, h.pending_eq, h.position, h.bound, h.lengths⟩
    | cons record records ih =>
      rw [List.length_cons] at hturns
      obtain ⟨hturn, hrep⟩ := readClientLoop_record haead (turns + 1) size h
      cases record with
      | alert bytes => exact ⟨_, count + 1, hturn, hrep []⟩
      | data bytes =>
        by_cases hbytes : bytes = []
        · subst hbytes
          obtain ⟨s', count', hloop, hrep'⟩ := ih (turns - 1) (by omega) (hrep [])
          refine ⟨s', count', ?_, hrep'⟩
          rw [hturn, show turns + 1 = turns - 1 + 2 by omega]
          exact hloop
        · obtain ⟨s', hloop, hrep'⟩ := readClientLoop_pending (hrep bytes) hbytes turns size
          rw [readSpec_data true size hbytes]
          exact ⟨s', count + 1, hturn.trans hloop, hrep'⟩
  · obtain ⟨s', hloop, hrep⟩ := readClientLoop_pending h hpending (turns + 1) size
    rw [readSpec_pending true size hpending]
    exact ⟨s', count, hloop, hrep⟩

theorem length_le_wireLength (records : List PeerRecord) : records.length ≤ wireLength records := by
  induction records with
  | nil => exact le_rfl
  | cons record records ih =>
    rw [List.length_cons, wireLength]
    omega

/-- **Step lemma.** A read of the client does what `readSpec` does. -/
theorem readClient_spec (haead : aead.Inverts) (size : ℕ) {records : List PeerRecord}
    {s : TlsClientStream} {pending : List UInt8} {count : ℕ}
    (h : ClientRep aead base s pending records count) :
    ∃ s' count', readClient aead s size = ((readSpec true size pending records).1, s') ∧
      ClientRep aead base s' (readSpec true size pending records).2.1
        (readSpec true size pending records).2.2 count' := by
  refine readClientLoop_spec haead size h ?_
  have hle := length_le_wireLength records
  rw [h.incoming, length_sealedStream]
  omega

/-- One turn of the loop of the server with nothing pending. -/
theorem readServerLoop_record (haead : aead.Inverts) (turns size : ℕ) {record : PeerRecord}
    {records : List PeerRecord} {s : TlsServerStream} {count : ℕ}
    (h : ServerRep aead base s [] (record :: records) count) :
    ∃ s', readServerLoop aead (turns + 1) s size = ((readSpec false size [] (record :: records)).1,
        s') ∧
      ServerRep aead base s' (readSpec false size [] (record :: records)).2.1
        (readSpec false size [] (record :: records)).2.2 (count + 1) := by
  have hidle : ¬s.position < s.pending.length := by
    intro hlt
    have hlength := congrArg List.length h.pending_eq
    rw [List.length_drop] at hlength
    change _ = 0 at hlength
    omega
  have hlength := h.lengths record List.mem_cons_self
  have hbound := h.bound
  rw [List.length_cons] at hbound
  have hbound' : count + 1 + records.length < 2 ^ 64 := by omega
  have hlengths : ∀ r ∈ records, r.plaintext.length ≤ maxPlaintext :=
    fun r hr => h.lengths r (List.mem_cons_of_mem _ hr)
  have hrecord : serverRecord s.incoming =
      (.ok ((base.keysAt count).wire aead record.contentType record.plaintext),
        sealedStream aead base (count + 1) records) := by
    rw [h.incoming, sealedStream, serverRecord_wire aead _ _ hlength]
  have hopen := openRecord_next haead base count record (by omega)
    hlength []
  rw [List.nil_append] at hopen
  rw [readServerLoop, if_neg hidle, hrecord]
  dsimp only
  rw [h.readKeys, hopen]
  cases record with
  | alert bytes =>
    exact ⟨_, rfl, rfl, rfl, h.pending_eq, hbound', hlengths⟩
  | data bytes =>
    rw [readSpec, Bool.false_and, if_neg Bool.false_ne_true]
    refine ⟨{ s with
      incoming := sealedStream aead base (count + 1) records
      readKeys := base.keysAt (count + 1)
      pending := bytes
      position := min size bytes.length }, ?_, rfl, rfl, ?_, hbound', hlengths⟩
    · show (Except.ok (bytes.take (min size bytes.length)), _) = _
      rw [← List.take_eq_take_min]
      rfl
    · show bytes.drop (min size bytes.length) = bytes.drop size
      rcases le_total size bytes.length with hle | hle
      · rw [Nat.min_eq_left hle]
      · rw [Nat.min_eq_right hle, List.drop_length, List.drop_eq_nil_of_le hle]

/-- **Step lemma.** A read of the server does what `readSpec` does. -/
theorem readServer_spec (haead : aead.Inverts) (size : ℕ) {records : List PeerRecord}
    {s : TlsServerStream} {pending : List UInt8} {count : ℕ}
    (h : ServerRep aead base s pending records count) :
    ∃ s' count', readServer aead s size = ((readSpec false size pending records).1, s') ∧
      ServerRep aead base s' (readSpec false size pending records).2.1
        (readSpec false size pending records).2.2 count' := by
  rw [readServer]
  by_cases hpending : pending = []
  · subst hpending
    cases records with
    | nil =>
      have hidle : ¬s.position < s.pending.length := by
        intro hlt
        have hlength := congrArg List.length h.pending_eq
        rw [List.length_drop] at hlength
        change _ = 0 at hlength
        omega
      refine ⟨{ s with incoming := [] }, count, ?_, ?_⟩
      · rw [readServerLoop, if_neg hidle, h.incoming, sealedStream, serverRecord_nil]
        rfl
      · exact ⟨rfl, h.readKeys, h.pending_eq, h.bound, h.lengths⟩
    | cons record records =>
      obtain ⟨s', hloop, hrep⟩ := readServerLoop_record haead (s.incoming.length + 1) size h
      exact ⟨s', count + 1, hloop, hrep⟩
  · have hlt : s.position < s.pending.length := by
      by_contra hge
      exact hpending (h.pending_eq ▸ List.drop_eq_nil_of_le (Nat.le_of_not_lt hge))
    have hlength : pending.length = s.pending.length - s.position := by
      rw [← h.pending_eq, List.length_drop]
    rw [readServerLoop, if_pos hlt, readSpec_pending false size hpending]
    refine ⟨{ s with position := s.position + min size (s.pending.length - s.position) }, count,
      ?_, h.incoming, h.readKeys, ?_, h.bound, h.lengths⟩
    · have hbytes : slice s.pending s.position (min size (s.pending.length - s.position)) =
          pending.take size := by
        rw [slice, h.pending_eq, ← hlength, ← List.take_eq_take_min]
      dsimp only
      rw [hbytes]
    · show s.pending.drop (s.position + min size (s.pending.length - s.position)) = _
      rw [← List.drop_drop, h.pending_eq, ← hlength]
      rcases le_total size pending.length with hle | hle
      · rw [Nat.min_eq_left hle]
      · rw [Nat.min_eq_right hle, List.drop_length, List.drop_eq_nil_of_le hle]

end Rep

/-! ## Runs of reads -/

/-- The reads of a client with these buffers: what each returns, and how much is left on the
connection. -/
def clientReads (aead : Aead) : TlsClientStream → List ℕ →
    List (Except TlsError (List UInt8) × ℕ)
  | _, [] => []
  | s, size :: sizes =>
    let (result, s) := readClient aead s size
    (result, s.incoming.length) :: clientReads aead s sizes

/-- The reads of a server, likewise. -/
def serverReads (aead : Aead) : TlsServerStream → List ℕ →
    List (Except TlsError (List UInt8) × ℕ)
  | _, [] => []
  | s, size :: sizes =>
    let (result, s) := readServer aead s size
    (result, s.incoming.length) :: serverReads aead s sizes

/-- The reads of the records themselves. -/
def specReads (skipsEmpty : Bool) : List UInt8 → List PeerRecord → List ℕ →
    List (Except TlsError (List UInt8) × ℕ)
  | _, _, [] => []
  | pending, records, size :: sizes =>
    let (result, pending, records) := readSpec skipsEmpty size pending records
    (result, wireLength records) :: specReads skipsEmpty pending records sizes

theorem clientReads_eq {aead : Aead} {base : RecordKeys} (haead : aead.Inverts)
    {s : TlsClientStream} {pending : List UInt8} {records : List PeerRecord} {count : ℕ}
    (h : ClientRep aead base s pending records count) (sizes : List ℕ) :
    clientReads aead s sizes = specReads true pending records sizes := by
  induction sizes generalizing s pending records count with
  | nil => rfl
  | cons size sizes ih =>
    obtain ⟨s', count', hread, hrep⟩ := readClient_spec haead size h
    rw [clientReads, specReads, hread]
    dsimp only
    rw [ih hrep, hrep.incoming, length_sealedStream]

theorem serverReads_eq {aead : Aead} {base : RecordKeys} (haead : aead.Inverts)
    {s : TlsServerStream} {pending : List UInt8} {records : List PeerRecord} {count : ℕ}
    (h : ServerRep aead base s pending records count) (sizes : List ℕ) :
    serverReads aead s sizes = specReads false pending records sizes := by
  induction sizes generalizing s pending records count with
  | nil => rfl
  | cons size sizes ih =>
    obtain ⟨s', count', hread, hrep⟩ := readServer_spec haead size h
    rw [serverReads, specReads, hread]
    dsimp only
    rw [ih hrep, hrep.incoming, length_sealedStream]

/-- The bytes that a read returns. -/
def returned (result : Except TlsError (List UInt8)) : List UInt8 := result.toOption.getD []

/-- The first alert is off the connection, of which this much is left. -/
def AlertTaken (records : List PeerRecord) (left : ℕ) : Prop :=
  ∃ rest, afterAlert records = some rest ∧ left ≤ wireLength rest

/-- The reads return the application data before the first alert. Only what follows all of it
returns no bytes: an error, or, once the alert is taken, the end of the stream. -/
def Exact (records : List PeerRecord) : List UInt8 →
    List (Except TlsError (List UInt8) × ℕ) → Prop
  | _, [] => True
  | before, (result, left) :: reads =>
    before ++ returned result <+: dataBefore records ∧
    (returned result = [] → before = dataBefore records ∧
      (result.isOk → AlertTaken records left)) ∧
    Exact records (before ++ returned result) reads

/-- Behind the first alert there is no data. -/
def NoDataAfterAlert (records : List PeerRecord) : Prop :=
  ∀ rest, afterAlert records = some rest → ∀ bytes, .data bytes ∈ rest → bytes = []

/-- Before the first alert there is no record without data. -/
def NoEmptyData : List PeerRecord → Prop
  | [] => True
  | .data bytes :: records => bytes ≠ [] ∧ NoEmptyData records
  | .alert _ :: _ => True

/-- What the reads keep, until the first alert is taken and from then on. -/
inductive Reading (skipsEmpty : Bool) (records : List PeerRecord) :
    List UInt8 → List UInt8 → List PeerRecord → Prop
  | before {done pending rest} (split : done ++ (pending ++ dataBefore rest) = dataBefore records)
      (alert : afterAlert rest = afterAlert records)
      (nonempty : skipsEmpty = false → NoEmptyData rest) : Reading skipsEmpty records done pending rest
  | after {rest back} (alert : afterAlert records = some back)
      (left : wireLength rest ≤ wireLength back) (quiet : ∀ bytes, .data bytes ∈ rest → bytes = []) :
      Reading skipsEmpty records (dataBefore records) [] rest

section Spec

variable {skipsEmpty : Bool} {records rest : List PeerRecord} {done pending : List UInt8} {size : ℕ}

theorem take_ne_nil (hsize : 0 < size) (hpending : pending ≠ []) : pending.take size ≠ [] := by
  intro hnil
  rcases List.take_eq_nil_iff.mp hnil with hzero | hnil
  · omega
  · exact hpending hnil

/-- Behind the first alert a read returns nothing. -/
theorem reading_after (skipsEmpty : Bool) (size : ℕ) {back : List PeerRecord} (halert : afterAlert records = some back)
    (hleft : wireLength rest ≤ wireLength back)
    (hquiet : ∀ bytes, .data bytes ∈ rest → bytes = []) :
    returned (readSpec skipsEmpty size [] rest).1 = [] ∧
      AlertTaken records (wireLength (readSpec skipsEmpty size [] rest).2.2) ∧
      Reading skipsEmpty records (dataBefore records) (readSpec skipsEmpty size [] rest).2.1
        (readSpec skipsEmpty size [] rest).2.2 := by
  induction rest with
  | nil =>
    rw [readSpec]
    exact ⟨rfl, ⟨back, halert, hleft⟩, .after halert hleft hquiet⟩
  | cons record rest ih =>
    rw [wireLength] at hleft
    have hquiet' : ∀ bytes, .data bytes ∈ rest → bytes = [] :=
      fun bytes hmem => hquiet bytes (List.mem_cons_of_mem _ hmem)
    have hle : wireLength rest ≤ wireLength back := by omega
    have htaken : AlertTaken records (wireLength rest) := ⟨back, halert, hle⟩
    cases record with
    | alert bytes =>
      rw [readSpec]
      exact ⟨rfl, htaken, .after halert hle hquiet'⟩
    | data bytes =>
      obtain rfl := hquiet bytes List.mem_cons_self
      cases skipsEmpty with
      | true => exact ih hle hquiet'
      | false =>
        rw [readSpec, Bool.false_and, if_neg Bool.false_ne_true, List.take_nil, List.drop_nil]
        exact ⟨rfl, htaken, .after halert hle hquiet'⟩

/-- Before the first alert a read returns the next data. -/
theorem reading_before (hsize : 0 < size) (hquiet : NoDataAfterAlert records)
    (hsplit : done ++ dataBefore rest = dataBefore records)
    (halert : afterAlert rest = afterAlert records)
    (hnonempty : skipsEmpty = false → NoEmptyData rest) :
    (returned (readSpec skipsEmpty size [] rest).1 = [] → done = dataBefore records ∧
      ((readSpec skipsEmpty size [] rest).1.isOk →
        AlertTaken records (wireLength (readSpec skipsEmpty size [] rest).2.2))) ∧
    Reading skipsEmpty records (done ++ returned (readSpec skipsEmpty size [] rest).1)
      (readSpec skipsEmpty size [] rest).2.1 (readSpec skipsEmpty size [] rest).2.2 := by
  induction rest with
  | nil =>
    rw [dataBefore, List.append_nil] at hsplit
    rw [readSpec]
    refine ⟨fun _ => ⟨hsplit, fun hok => nomatch hok⟩, .before ?_ halert hnonempty⟩
    show done ++ [] ++ ([] ++ []) = _
    rw [List.append_nil, List.append_nil, List.append_nil, hsplit]
  | cons record rest ih =>
    cases record with
    | alert bytes =>
      have hback : afterAlert records = some rest := halert.symm
      rw [dataBefore, List.append_nil] at hsplit
      rw [readSpec]
      refine ⟨fun _ => ⟨hsplit, fun _ => ⟨rest, hback, le_rfl⟩⟩, ?_⟩
      show Reading skipsEmpty records (done ++ []) [] rest
      rw [List.append_nil, hsplit]
      exact .after hback le_rfl (hquiet rest hback)
    | data bytes =>
      by_cases hbytes : bytes = []
      · subst hbytes
        cases skipsEmpty with
        | true => exact ih hsplit halert (fun hfalse => nomatch hfalse)
        | false => exact absurd rfl (hnonempty rfl).1
      · rw [readSpec_data skipsEmpty size hbytes]
        refine ⟨fun hnil => absurd hnil (take_ne_nil hsize hbytes), .before ?_ halert
          fun hfalse => (hnonempty hfalse).2⟩
        show done ++ bytes.take size ++ (bytes.drop size ++ dataBefore rest) = _
        rw [List.append_assoc, ← List.append_assoc (bytes.take size), List.take_append_drop]
        exact hsplit

/-- **Step lemma.** A read into a buffer that is not empty returns what it should. -/
theorem Reading.step (h : Reading skipsEmpty records done pending rest) (hsize : 0 < size)
    (hquiet : NoDataAfterAlert records) :
    (returned (readSpec skipsEmpty size pending rest).1 = [] → done = dataBefore records ∧
      ((readSpec skipsEmpty size pending rest).1.isOk →
        AlertTaken records (wireLength (readSpec skipsEmpty size pending rest).2.2))) ∧
    Reading skipsEmpty records (done ++ returned (readSpec skipsEmpty size pending rest).1)
      (readSpec skipsEmpty size pending rest).2.1 (readSpec skipsEmpty size pending rest).2.2 := by
  cases h with
  | before hsplit halert hnonempty =>
    by_cases hpending : pending = []
    · subst hpending
      exact reading_before hsize hquiet hsplit halert hnonempty
    · rw [readSpec_pending skipsEmpty size hpending]
      refine ⟨fun hnil => absurd hnil (take_ne_nil hsize hpending), .before ?_ halert hnonempty⟩
      show done ++ pending.take size ++ (pending.drop size ++ dataBefore rest) = _
      rw [List.append_assoc, ← List.append_assoc (pending.take size), List.take_append_drop]
      exact hsplit
  | after halert hleft hempty =>
    obtain ⟨hreturned, htaken, hreading⟩ :=
      reading_after skipsEmpty size halert hleft hempty
    refine ⟨fun _ => ⟨rfl, fun _ => htaken⟩, ?_⟩
    rw [hreturned, List.append_nil]
    exact hreading

theorem Reading.leads (h : Reading skipsEmpty records done pending rest) :
    done <+: dataBefore records := by
  cases h with
  | before hsplit => exact ⟨_, hsplit⟩
  | after => exact List.prefix_rfl

/-- **Run lemma.** All reads return what they should. -/
theorem Reading.exact (h : Reading skipsEmpty records done pending rest)
    (hquiet : NoDataAfterAlert records) {sizes : List ℕ} (hsizes : ∀ size ∈ sizes, 0 < size) :
    Exact records done (specReads skipsEmpty pending rest sizes) := by
  induction sizes generalizing done pending rest with
  | nil => exact trivial
  | cons size sizes ih =>
    obtain ⟨hsize, hsizes⟩ := List.forall_mem_cons.mp hsizes
    obtain ⟨hnone, hnext⟩ := h.step hsize hquiet
    rw [specReads]
    exact ⟨hnext.leads, hnone, ih hnext hsizes⟩

/-! ## What the reads need -/

/-- All application data. -/
def allData : List PeerRecord → List UInt8
  | [] => []
  | .data bytes :: records => bytes ++ allData records
  | .alert _ :: records => allData records

theorem allData_eq (records : List PeerRecord) :
    allData records = dataBefore records ++ ((afterAlert records).map allData).getD [] := by
  induction records with
  | nil => rfl
  | cons record records ih =>
    cases record with
    | alert bytes => rfl
    | data bytes => rw [allData, dataBefore, afterAlert, ih, List.append_assoc]

theorem eq_nil_of_allData (h : allData records = []) {bytes : List UInt8}
    (hmem : .data bytes ∈ records) : bytes = [] := by
  induction records with
  | nil => exact absurd hmem List.not_mem_nil
  | cons record records ih =>
    cases record with
    | alert text =>
      rcases List.mem_cons.mp hmem with heq | hmem
      · exact nomatch heq
      · exact ih h hmem
    | data text =>
      obtain ⟨rfl, hrest⟩ := List.append_eq_nil_iff.mp h
      rcases List.mem_cons.mp hmem with heq | hmem
      · exact PeerRecord.data.inj heq
      · exact ih hrest hmem

/-- Reads into large buffers return all data, behind the alert too. -/
theorem drain {big : ℕ} (hbig : wireLength records ≤ big) {n : ℕ} (hn : records.length ≤ n) :
    (specReads skipsEmpty [] records (List.replicate n big)).flatMap (returned ·.1) =
      allData records := by
  induction records generalizing n with
  | nil =>
    induction n with
    | zero => rfl
    | succ n ih =>
      rw [List.replicate_succ, specReads, readSpec]
      dsimp only
      rw [List.flatMap_cons, ih (Nat.zero_le _)]
      rfl
  | cons record records ih =>
    obtain ⟨n, rfl⟩ : ∃ m, n = m + 1 := ⟨n - 1, by rw [List.length_cons] at hn; omega⟩
    rw [List.length_cons] at hn
    rw [wireLength] at hbig
    cases record with
    | alert bytes =>
      rw [List.replicate_succ, specReads, readSpec]
      dsimp only
      rw [List.flatMap_cons, ih (by omega) (by omega)]
      rfl
    | data bytes =>
      have hall : bytes.length ≤ big := by
        change bytes.length + 22 + wireLength records ≤ big at hbig
        omega
      by_cases hskip : (skipsEmpty && bytes.isEmpty) = true
      · obtain rfl := List.isEmpty_iff.mp ((Bool.and_eq_true _ _).mp hskip).2
        have hrest := ih (n := n + 1) (by omega) (by omega)
        rw [List.replicate_succ, specReads] at hrest ⊢
        rw [readSpec, if_pos hskip]
        exact hrest
      · rw [List.replicate_succ, specReads, readSpec, if_neg hskip, List.take_of_length_le hall,
          List.drop_of_length_le hall]
        dsimp only
        rw [List.flatMap_cons, ih (by omega) (by omega)]
        rfl

theorem Exact.leads {reads : List (Except TlsError (List UInt8) × ℕ)}
    (h : Exact records done reads) (hne : reads ≠ []) :
    done ++ reads.flatMap (returned ·.1) <+: dataBefore records := by
  induction reads generalizing done with
  | nil => exact absurd rfl hne
  | cons read reads ih =>
    obtain ⟨hleads, _, hrest⟩ := h
    rw [List.flatMap_cons, ← List.append_assoc]
    by_cases hreads : reads = []
    · subst hreads
      rw [List.flatMap_nil, List.append_nil]
      exact hleads
    · exact ih hrest hreads

theorem wireLength_afterAlert {back : List PeerRecord} (h : afterAlert records = some back) :
    wireLength back < wireLength records := by
  induction records with
  | nil => exact nomatch h
  | cons record records ih =>
    rw [wireLength]
    cases record with
    | alert bytes =>
      obtain rfl := Option.some.inj h
      omega
    | data bytes =>
      have hlt := ih h
      omega

/-- A record without data is taken for the end of the stream if it is not passed over. -/
theorem noEmptyData_of_exact
    (h : ∀ sizes : List ℕ, (∀ size ∈ sizes, 0 < size) →
      Exact records done (specReads false [] rest sizes))
    (halert : afterAlert rest = afterAlert records) : NoEmptyData rest := by
  induction rest generalizing done with
  | nil => exact trivial
  | cons record rest ih =>
    cases record with
    | alert bytes => exact trivial
    | data bytes =>
      constructor
      · rintro rfl
        obtain ⟨_, hnone, _⟩ := h [1] (by simp)
        obtain ⟨back, hback, hle⟩ := (hnone rfl).2 rfl
        have hrest : afterAlert rest = some back := halert.trans hback
        have hlt := wireLength_afterAlert hrest
        exact absurd hle (Nat.not_le.mpr hlt)
      · refine @ih (done ++ bytes) (fun sizes hsizes => ?_) halert
        have hexact := h ((bytes.length + 1) :: sizes)
          (List.forall_mem_cons.mpr ⟨Nat.succ_pos _, hsizes⟩)
        rw [specReads, readSpec, Bool.false_and, if_neg Bool.false_ne_true,
          List.take_of_length_le (by omega), List.drop_of_length_le (by omega)] at hexact
        exact hexact.2.2

/-- The reads return what they should, whatever the buffers, exactly if there is no data behind
the first alert and, unless such records are passed over, no record without data before it. -/
theorem exact_iff (skipsEmpty : Bool) (records : List PeerRecord) :
    (∀ sizes : List ℕ, (∀ size ∈ sizes, 0 < size) →
      Exact records [] (specReads skipsEmpty [] records sizes)) ↔
    NoDataAfterAlert records ∧ (skipsEmpty = false → NoEmptyData records) := by
  constructor
  · intro h
    constructor
    · intro back hback bytes hmem
      have hexact := h (List.replicate (records.length + 1) (wireLength records + 1))
        (fun size hsize => by rw [List.eq_of_mem_replicate hsize]; exact Nat.succ_pos _)
      have hleads := hexact.leads (by
        rw [List.replicate_succ, specReads]
        exact List.cons_ne_nil _ _)
      rw [List.nil_append, drain (Nat.le_succ _) (Nat.le_succ _), allData_eq, hback] at hleads
      have hlength := hleads.length_le
      rw [List.length_append] at hlength
      have hnil : allData back = [] := List.length_eq_zero_iff.mp (by
        change _ + (allData back).length ≤ _ at hlength
        omega)
      exact eq_nil_of_allData hnil hmem
    · rintro rfl
      exact noEmptyData_of_exact h rfl
  · rintro ⟨hquiet, hnonempty⟩ sizes hsizes
    have hstart : Reading skipsEmpty records [] [] records := .before rfl rfl hnonempty
    exact hstart.exact hquiet hsizes

end Spec

/-- **Main theorem.** Of the two reads over AES-128-GCM, that of the client returns exactly the
application data before the first alert if no data follows the alert, and only then; that of the
server needs also that no record before the alert is without data. -/
theorem stream_semantics (secret : List UInt8) (records : List PeerRecord)
    (client : TlsClientStream) (server : TlsServerStream)
    (hclient : ClientRep aes128Gcm (.fromTrafficSecret secret) client [] records 0)
    (hserver : ServerRep aes128Gcm (.fromTrafficSecret secret) server [] records 0) :
    ((∀ sizes : List ℕ, (∀ size ∈ sizes, 0 < size) →
      Exact records [] (clientReads aes128Gcm client sizes)) ↔ NoDataAfterAlert records) ∧
    ((∀ sizes : List ℕ, (∀ size ∈ sizes, 0 < size) →
      Exact records [] (serverReads aes128Gcm server sizes)) ↔
        NoDataAfterAlert records ∧ NoEmptyData records) := by
  constructor
  · simp only [clientReads_eq aes128Gcm_inverts hclient]
    rw [exact_iff]
    exact ⟨And.left, fun h => ⟨h, fun hfalse => nomatch hfalse⟩⟩
  · simp only [serverReads_eq aes128Gcm_inverts hserver]
    rw [exact_iff]
    exact and_congr_right fun _ => forall_prop_of_true rfl

/-- A client at the end of its handshake, to which a peer has sent these records. -/
def TlsClientStream.joined (secret : List UInt8) (records : List PeerRecord) : TlsClientStream :=
  { incoming := sealedStream aes128Gcm (.fromTrafficSecret secret) 0 records
    readKeys := .fromTrafficSecret secret
    writeKeys := .fromTrafficSecret secret
    pending := []
    pendingPosition := 0
    negotiatedGroup := 0x11ec }

/-- A server at the end of its handshake, likewise. -/
def TlsServerStream.joined (secret : List UInt8) (records : List PeerRecord) : TlsServerStream :=
  { incoming := sealedStream aes128Gcm (.fromTrafficSecret secret) 0 records
    readKeys := .fromTrafficSecret secret
    writeKeys := .fromTrafficSecret secret
    pending := []
    position := 0 }

theorem clientRep_joined (secret : List UInt8) {records : List PeerRecord}
    (hbound : records.length < 2 ^ 64)
    (hlengths : ∀ record ∈ records, record.plaintext.length ≤ maxPlaintext) :
    ClientRep aes128Gcm (.fromTrafficSecret secret) (.joined secret records) [] records 0 :=
  ⟨rfl, rfl, rfl, .inr ⟨rfl, rfl⟩, by omega, hlengths⟩

theorem serverRep_joined (secret : List UInt8) {records : List PeerRecord}
    (hbound : records.length < 2 ^ 64)
    (hlengths : ∀ record ∈ records, record.plaintext.length ≤ maxPlaintext) :
    ServerRep aes128Gcm (.fromTrafficSecret secret) (.joined secret records) [] records 0 :=
  ⟨rfl, rfl, rfl, by omega, hlengths⟩

/-- One record without data: the client passes over it, and the server does not. -/
theorem stream_semantics_no_data :
    (∀ sizes : List ℕ, (∀ size ∈ sizes, 0 < size) →
      Exact [.data []] [] (clientReads aes128Gcm (.joined [] [.data []]) sizes)) ∧
    ¬∀ sizes : List ℕ, (∀ size ∈ sizes, 0 < size) →
      Exact [.data []] [] (serverReads aes128Gcm (.joined [] [.data []]) sizes) := by
  obtain ⟨hclient, hserver⟩ := stream_semantics [] [.data []] _ _
    (clientRep_joined [] (by decide) (by decide)) (serverRep_joined [] (by decide) (by decide))
  constructor
  · exact hclient.mpr fun rest hrest => nomatch hrest
  · intro h
    exact (hserver.mp h).2.1 rfl

/-- A record without data, before one with data, is the end of the stream to the server. -/
theorem server_ends_early :
    ¬Exact [.data [], .data [7]] [] (serverReads aes128Gcm
      (.joined [] [.data [], .data [7]]) [4]) := by
  rw [serverReads_eq aes128Gcm_inverts (serverRep_joined [] (by decide) (by decide))]
  rintro ⟨_, hnone, _⟩
  obtain ⟨rest, hrest, _⟩ := (hnone rfl).2 rfl
  exact nomatch hrest

end Mrml.Tls
