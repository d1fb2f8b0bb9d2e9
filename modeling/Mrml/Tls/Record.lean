import Mrml.Common.Checked
import Mrml.Crypto.AesGcm
import Mrml.Crypto.Hkdf

/-!
# The TLS record layer

Model of `RecordKeys` of `crates/mrml-tls/src/lib.rs` (lines 218–351) over any AEAD, with the
outcome of every call next to the keys and the output buffer after it. `aes128Gcm` is the AEAD
that the code uses.

Results:
* `open_wire`: a record is opened with keys that have come as far as those that sealed it.
* `nonce_keysAt_inj`: no two sequence numbers share a nonce.
* `record_layer`: over an ideal AEAD, whatever byte strings are opened, the accepted records are
  the first of the sealed ones, in order, and a rejected byte string changes nothing.
-/

namespace Mrml.Tls

open Crypto

/-- `TlsError` (lines 113–121); allocation does not fail here. -/
inductive TlsError
  | invalidRecord
  | authenticationFailed
  | sequenceExhausted
  | io
  | handshake
  | certificate
deriving DecidableEq

/-- `MAX_PLAINTEXT` (line 22). -/
def maxPlaintext : ℕ := 1 <<< 14

/-! ## The AEAD -/

/-- An AEAD with tags of 16 bytes: key, nonce, associated data and text come in this order. -/
structure Aead where
  encrypt : List UInt8 → List UInt8 → List UInt8 → List UInt8 → List UInt8 × List UInt8
  decrypt : List UInt8 → List UInt8 → List UInt8 → List UInt8 → List UInt8 → Option (List UInt8)
  length_ciphertext : ∀ key nonce aad plaintext,
    (encrypt key nonce aad plaintext).1.length = plaintext.length
  length_tag : ∀ key nonce aad plaintext, (encrypt key nonce aad plaintext).2.length = 16

/-- `aes128_gcm_seal` and `aes128_gcm_open`. -/
def aes128Gcm : Aead where
  encrypt := aes128GcmSeal
  decrypt := aes128GcmOpen
  length_ciphertext key nonce _ plaintext := length_crypt key nonce plaintext
  length_tag _ _ _ _ := length_gcmTag _ _ _ _

/-- What was encrypted is decrypted again. -/
def Aead.Inverts (aead : Aead) : Prop := ∀ key nonce aad plaintext,
  aead.decrypt key nonce aad (aead.encrypt key nonce aad plaintext).1
    (aead.encrypt key nonce aad plaintext).2 = some plaintext

theorem aes128Gcm_inverts : aes128Gcm.Inverts := aes128GcmOpen_seal

/-! ## Keys -/

/-- `RecordKeys` (lines 218–222). -/
structure RecordKeys where
  key : List UInt8
  iv : List UInt8
  sequence : UInt64
deriving DecidableEq

namespace RecordKeys

/-- A label of the key schedule. -/
def label (text : String) : List UInt8 := text.toList.map fun c => UInt8.ofNat c.toNat

/-- `RecordKeys::from_traffic_secret` (lines 224–234). -/
def fromTrafficSecret (secret : List UInt8) : RecordKeys :=
  { key := hkdfExpandLabel secret (label "key") [] 16
    iv := hkdfExpandLabel secret (label "iv") [] 12
    sequence := 0 }

/-- `RecordKeys::nonce` (lines 235–242): the sequence number is combined with the last eight of
the twelve bytes. -/
def nonce (keys : RecordKeys) : List UInt8 :=
  List.zipWith (· ^^^ ·) (List.replicate 4 0 ++ beBytes 8 keys.sequence.toNat) keys.iv

/-- `RecordKeys::advance` (lines 243–249). -/
def advance (keys : RecordKeys) : Except TlsError RecordKeys := do
  let sequence ← okOr (checkedAdd64 keys.sequence 1) TlsError.sequenceExhausted
  return { keys with sequence }

/-- The header of a record with this much plaintext (lines 260–270). -/
def header (length : ℕ) : List UInt8 :=
  [23, 3, 3, UInt8.ofNat ((length + 17) >>> 8), UInt8.ofNat (length + 17)]

/-- A record: the header, the encrypted text with its type, and the tag. -/
def wire (aead : Aead) (keys : RecordKeys) (contentType : UInt8) (plaintext : List UInt8) :
    List UInt8 :=
  let header := header plaintext.length
  let sealed := aead.encrypt keys.key keys.nonce header (plaintext ++ [contentType])
  header ++ sealed.1 ++ sealed.2

/-- `RecordKeys::seal` (lines 251–305): the outcome, the keys and the buffer. -/
def sealRecord (aead : Aead) (keys : RecordKeys) (contentType : UInt8) (plaintext output : List UInt8) :
    Except TlsError Unit × RecordKeys × List UInt8 :=
  if plaintext.length > maxPlaintext then (.error .invalidRecord, keys, output)
  else
    let output := output ++ keys.wire aead contentType plaintext
    match keys.advance with
    | .error error => (.error error, keys, output)
    | .ok keys => (.ok (), keys, output)

/-- `plain.iter().rposition(|byte| *byte != 0)`. -/
def lastNonzero (plain : List UInt8) : Option ℕ :=
  (plain.reverse.findIdx? (· != 0)).map fun index => plain.length - 1 - index

/-- The checks of `open` before the buffer is touched (lines 308–314). -/
def malformed (record : List UInt8) : Bool :=
  record.length < 5 + 17 || byteAt record 0 != 23 || slice record 1 2 != [3, 3] ||
    beNat (slice record 3 2) != record.length - 5 || beNat (slice record 3 2) > maxPlaintext + 256

/-- `RecordKeys::open` (lines 307–350): the content type, the keys and the buffer. -/
def openRecord (aead : Aead) (keys : RecordKeys) (record output : List UInt8) :
    Except TlsError UInt8 × RecordKeys × List UInt8 :=
  if malformed record then (.error .invalidRecord, keys, output)
  else
    let ciphertextLength := beNat (slice record 3 2) - 16
    let ciphertext := slice record 5 ciphertextLength
    let start := output.length
    let output := output ++ ciphertext
    let tag := record.drop (5 + ciphertextLength)
    match aead.decrypt keys.key keys.nonce (record.take 5) ciphertext tag with
    | none => (.error .authenticationFailed, keys, output.take start)
    | some plain =>
      match lastNonzero plain with
      | none => (.error .invalidRecord, keys, output.take start)
      | some position =>
        let output := output.take start ++ plain.take position
        match keys.advance with
        | .error error => (.error error, keys, output)
        | .ok keys => (.ok (byteAt plain position), keys, output)

/-- The keys after this many records. -/
def keysAt (base : RecordKeys) (count : ℕ) : RecordKeys :=
  { base with sequence := UInt64.ofNat count }

@[simp] theorem keysAt_key (base : RecordKeys) (count : ℕ) : (base.keysAt count).key = base.key :=
  rfl

theorem length_fromTrafficSecret_iv (secret : List UInt8) :
    (fromTrafficSecret secret).iv.length = 12 := length_hkdfExpandLabel _ _ _ _

theorem keysAt_zero (secret : List UInt8) :
    (fromTrafficSecret secret).keysAt 0 = fromTrafficSecret secret := rfl

theorem keysAt_sequence {base : RecordKeys} {count : ℕ} (h : count < 2 ^ 64) :
    (base.keysAt count).sequence.toNat = count := by
  show (UInt64.ofNat count).toNat = count
  rw [UInt64.toNat_ofNat', Nat.mod_eq_of_lt h]

theorem advance_keysAt {base : RecordKeys} {count : ℕ} (h : count + 1 < 2 ^ 64) :
    (base.keysAt count).advance = .ok (base.keysAt (count + 1)) := by
  have hadd : checkedAdd64 (base.keysAt count).sequence 1 = some (UInt64.ofNat (count + 1)) := by
    rw [checkedAdd64_eq_some, keysAt_sequence (by omega), UInt64.toNat_ofNat',
      Nat.mod_eq_of_lt h]
    rfl
  rw [advance, hadd, okOr_some]
  rfl

theorem advance_keysAt_eq_ok {base keys : RecordKeys} {count : ℕ} (hlt : count < 2 ^ 64)
    (h : (base.keysAt count).advance = .ok keys) :
    count + 1 < 2 ^ 64 ∧ keys = base.keysAt (count + 1) := by
  obtain ⟨sequence, hsequence, _⟩ := bind_eq_ok.mp h
  have hadd := checkedAdd64_eq_some.mp (okOr_eq_ok.mp hsequence)
  rw [keysAt_sequence hlt] at hadd
  have hbound : count + 1 < 2 ^ 64 := hadd ▸ sequence.toNat_lt
  rw [advance_keysAt hbound] at h
  exact ⟨hbound, (Except.ok.inj h).symm⟩

/-- No two sequence numbers share a nonce. -/
theorem nonce_keysAt_inj {base : RecordKeys} {i j : ℕ} (hiv : base.iv.length = 12)
    (hi : i < 2 ^ 64) (hj : j < 2 ^ 64) (h : (base.keysAt i).nonce = (base.keysAt j).nonce) :
    i = j := by
  have hcancel : ∀ n < 2 ^ 64,
      List.zipWith (· ^^^ ·) (base.keysAt n).nonce base.iv = List.replicate 4 0 ++ beBytes 8 n := by
    intro n hn
    have hle : (List.replicate 4 (0 : UInt8) ++ beBytes 8 n).length ≤ base.iv.length := by
      rw [List.length_append, List.length_replicate, length_beBytes, hiv]
    rw [nonce, keysAt_sequence hn]
    exact zipWith_xor_cancel hle
  have hbytes := hcancel i hi
  rw [h, hcancel j hj, List.append_cancel_left_eq] at hbytes
  have hnat := congrArg beNat hbytes
  rw [beNat_beBytes, beNat_beBytes] at hnat
  omega

/-! ## A record and its opening -/

section Aead

variable {aead : Aead}

theorem length_header (length : ℕ) : (header length).length = 5 := rfl

theorem length_wire (aead : Aead) (keys : RecordKeys) (contentType : UInt8) (plaintext : List UInt8) :
    (keys.wire aead contentType plaintext).length = plaintext.length + 22 := by
  rw [wire, List.length_append, List.length_append, aead.length_ciphertext, aead.length_tag,
    length_header, List.length_append, List.length_singleton]
  omega

/-- The length in the header of a record. -/
theorem beNat_header {length : ℕ} (h : length ≤ maxPlaintext) (rest : List UInt8) :
    beNat (slice (header length ++ rest) 3 2) = length + 17 := by
  have hmax : maxPlaintext = 16384 := rfl
  have hslice : slice (header length ++ rest) 3 2 =
      [UInt8.ofNat ((length + 17) >>> 8), UInt8.ofNat (length + 17)] := rfl
  rw [hslice, beNat, Nat.shiftRight_eq_div_pow]
  simp only [List.reverse_cons, List.reverse_nil, List.nil_append, List.cons_append, leNat,
    UInt8.toNat_ofNat']
  omega

theorem malformed_wire (keys : RecordKeys) (contentType : UInt8) {plaintext : List UInt8}
    (h : plaintext.length ≤ maxPlaintext) :
    malformed (keys.wire aead contentType plaintext) = false := by
  have hlength := length_wire aead keys contentType plaintext
  have hbytes : beNat (slice (keys.wire aead contentType plaintext) 3 2) =
      plaintext.length + 17 := by
    rw [wire, List.append_assoc]
    exact beNat_header h _
  have hfirst : byteAt (keys.wire aead contentType plaintext) 0 = 23 := rfl
  have hversion : slice (keys.wire aead contentType plaintext) 1 2 = [3, 3] := rfl
  rw [malformed, hlength, hbytes, hfirst, hversion]
  simp
  omega

theorem lastNonzero_append {plaintext : List UInt8} {contentType : UInt8} (h : contentType ≠ 0) :
    lastNonzero (plaintext ++ [contentType]) = some plaintext.length := by
  have hne : (contentType != 0) = true := by simpa using h
  rw [lastNonzero, List.reverse_append, List.reverse_singleton, List.singleton_append,
    List.findIdx?_cons, hne]
  simp

/-- The four fields that `open` takes a record apart into. -/
theorem wire_fields (aead : Aead) (keys : RecordKeys) (contentType : UInt8) {plaintext : List UInt8}
    (h : plaintext.length ≤ maxPlaintext) :
    let record := keys.wire aead contentType plaintext
    let encrypted := aead.encrypt keys.key keys.nonce (header plaintext.length)
      (plaintext ++ [contentType])
    record.take 5 = header plaintext.length ∧ beNat (slice record 3 2) - 16 =
      plaintext.length + 1 ∧ slice record 5 (plaintext.length + 1) = encrypted.1 ∧
        record.drop (5 + (plaintext.length + 1)) = encrypted.2 := by
  have hciphertext : (aead.encrypt keys.key keys.nonce (header plaintext.length)
      (plaintext ++ [contentType])).1.length = plaintext.length + 1 := by
    rw [aead.length_ciphertext, List.length_append, List.length_singleton]
  dsimp only
  rw [wire]
  refine ⟨?_, ?_, ?_, ?_⟩
  · rw [List.append_assoc, List.take_left' (length_header _)]
  · rw [List.append_assoc, beNat_header h]
    omega
  · rw [List.append_assoc, slice, List.drop_left' (length_header _), List.take_left' hciphertext]
  · rw [List.drop_left']
    rw [List.length_append, length_header, hciphertext]

/-- A record is opened with keys that have come as far as those that sealed it. -/
theorem open_wire {base : RecordKeys} {count : ℕ} {contentType : UInt8} {plaintext : List UInt8}
    (hcount : count + 1 < 2 ^ 64) (htype : contentType ≠ 0)
    (hlength : plaintext.length ≤ maxPlaintext)
    (hdecrypt : aead.decrypt base.key (base.keysAt count).nonce (header plaintext.length)
      (aead.encrypt base.key (base.keysAt count).nonce (header plaintext.length)
        (plaintext ++ [contentType])).1
      (aead.encrypt base.key (base.keysAt count).nonce (header plaintext.length)
        (plaintext ++ [contentType])).2 = some (plaintext ++ [contentType]))
    (output : List UInt8) :
    (base.keysAt count).openRecord aead ((base.keysAt count).wire aead contentType plaintext)
      output = (.ok contentType, base.keysAt (count + 1), output ++ plaintext) := by
  obtain ⟨hheader, hsize, hciphertext, htag⟩ :=
    wire_fields aead (base.keysAt count) contentType hlength
  have htype' : byteAt (plaintext ++ [contentType]) plaintext.length = contentType := by
    rw [byteAt, List.getD_append_right _ _ _ _ (le_refl _), Nat.sub_self]
    rfl
  rw [openRecord, malformed_wire _ _ hlength]
  dsimp only
  rw [if_neg Bool.false_ne_true, hsize, hheader, hciphertext, htag, keysAt_key, hdecrypt]
  dsimp only
  rw [lastNonzero_append htype]
  dsimp only
  rw [advance_keysAt hcount, htype', List.take_left, List.take_left]

/-- What `open` can do: reject without a change, fail at the end of the sequence numbers, or
accept. -/
theorem openRecord_cases (aead : Aead) (keys : RecordKeys) (record output : List UInt8) :
    (∃ error, keys.openRecord aead record output = (.error error, keys, output)) ∨
    ∃ aad ciphertext tag plain position,
      aead.decrypt keys.key keys.nonce aad ciphertext tag = some plain ∧
      lastNonzero plain = some position ∧
      ((∃ error, keys.advance = .error error ∧
        keys.openRecord aead record output =
          (.error error, keys, output ++ plain.take position)) ∨
      ∃ keys', keys.advance = .ok keys' ∧
        keys.openRecord aead record output =
          (.ok (byteAt plain position), keys', output ++ plain.take position)) := by
  rw [openRecord]
  split_ifs with hmalformed
  · exact .inl ⟨_, rfl⟩
  dsimp only
  rw [List.take_left]
  cases hdecrypt : aead.decrypt keys.key keys.nonce (record.take 5)
      (slice record 5 (beNat (slice record 3 2) - 16))
      (record.drop (5 + (beNat (slice record 3 2) - 16))) with
  | none => exact .inl ⟨_, rfl⟩
  | some plain =>
    dsimp only
    cases hposition : lastNonzero plain with
    | none => exact .inl ⟨_, rfl⟩
    | some position =>
      refine .inr ⟨_, _, _, plain, position, hdecrypt, hposition, ?_⟩
      dsimp only
      cases hadvance : keys.advance with
      | error error => exact .inl ⟨error, rfl, rfl⟩
      | ok keys' => exact .inr ⟨keys', rfl, rfl⟩

/-! ## Runs of the two ends -/

/-- A call of `seal`: the record, and what its buffer holds before. -/
structure SealCall where
  contentType : UInt8
  plaintext : List UInt8
  output : List UInt8

/-- The type and the text of a record. -/
def SealCall.record (call : SealCall) : UInt8 × List UInt8 := (call.contentType, call.plaintext)

/-- The calls succeed in turn, and put these records behind what the buffers hold. -/
def Seals (aead : Aead) : RecordKeys → List SealCall → List (List UInt8) → Prop
  | _, [], [] => True
  | keys, call :: calls, wire :: wires =>
    ∃ keys', keys.sealRecord aead call.contentType call.plaintext call.output =
      (.ok (), keys', call.output ++ wire) ∧ Seals aead keys' calls wires
  | _, _, _ => False

/-- What is accepted of byte strings that are opened in turn, each into its own buffer. -/
def accepted (aead : Aead) : RecordKeys → List (List UInt8 × List UInt8) →
    List (UInt8 × List UInt8)
  | _, [] => []
  | keys, (record, output) :: items =>
    match keys.openRecord aead record output with
    | (.ok contentType, keys, output') =>
      (contentType, output'.drop output.length) :: accepted aead keys items
    | (.error _, keys, _) => accepted aead keys items

/-- An accepted byte string only adds to its buffer, and a rejected one changes neither the keys
nor the buffer. -/
def Clean (aead : Aead) : RecordKeys → List (List UInt8 × List UInt8) → Prop
  | _, [] => True
  | keys, (record, output) :: items =>
    (match keys.openRecord aead record output with
      | (.ok _, _, output') => output <+: output'
      | (.error _, keys', output') => keys' = keys ∧ output' = output) ∧
    Clean aead (keys.openRecord aead record output).2.1 items

/-- What is given to an AEAD. -/
structure Encryption where
  nonce : List UInt8
  aad : List UInt8
  plaintext : List UInt8
deriving DecidableEq

/-- What the calls give to the AEAD, from the keys after `count` records on. -/
def encryptions (base : RecordKeys) : ℕ → List SealCall → List Encryption
  | _, [] => []
  | count, call :: calls =>
    { nonce := (base.keysAt count).nonce
      aad := header call.plaintext.length
      plaintext := call.plaintext ++ [call.contentType] } :: encryptions base (count + 1) calls

/-- An ideal AEAD under one key: what was encrypted is decrypted, and nothing else is. -/
structure Ideal (aead : Aead) (key : List UInt8) (log : List Encryption) : Prop where
  correct : ∀ e ∈ log, aead.decrypt key e.nonce e.aad (aead.encrypt key e.nonce e.aad e.plaintext).1
    (aead.encrypt key e.nonce e.aad e.plaintext).2 = some e.plaintext
  authentic : ∀ nonce aad ciphertext tag plaintext,
    aead.decrypt key nonce aad ciphertext tag = some plaintext →
      { nonce, aad, plaintext : Encryption } ∈ log

/-- AES-128-GCM for those who can only decrypt what is in the log. -/
def idealGcm (log : List Encryption) : Aead :=
  { aes128Gcm with
    decrypt := fun key nonce aad ciphertext tag =>
      (aes128GcmOpen key nonce aad ciphertext tag).filter fun plaintext =>
        { nonce, aad, plaintext : Encryption } ∈ log }

theorem ideal_idealGcm (key : List UInt8) (log : List Encryption) :
    Ideal (idealGcm log) key log := by
  constructor
  · intro e he
    have hopen := aes128Gcm_inverts key e.nonce e.aad e.plaintext
    exact Option.filter_eq_some_iff.mpr ⟨hopen, decide_eq_true he⟩
  · intro nonce aad ciphertext tag plaintext h
    exact of_decide_eq_true (Option.filter_eq_some_iff.mp h).2

/-- Each seal has the nonce of its place. -/
theorem mem_encryptions {base : RecordKeys} {calls : List SealCall} {count : ℕ} {e : Encryption}
    (h : e ∈ encryptions base count calls) :
    ∃ i, ∃ hi : i < calls.length, e.nonce = (base.keysAt (count + i)).nonce ∧
      e.plaintext = calls[i].plaintext ++ [calls[i].contentType] := by
  induction calls generalizing count with
  | nil => exact absurd h List.not_mem_nil
  | cons call calls ih =>
    rcases List.mem_cons.mp h with rfl | htail
    · exact ⟨0, Nat.succ_pos _, rfl, rfl⟩
    · obtain ⟨i, hi, hnonce, hplaintext⟩ := ih htail
      refine ⟨i + 1, Nat.succ_lt_succ hi, ?_, hplaintext⟩
      rw [hnonce, show count + 1 + i = count + (i + 1) by omega]

/-- A seal of a text that is not too long succeeds. -/
theorem sealRecord_eq {base : RecordKeys} {count : ℕ} (contentType : UInt8) {plaintext : List UInt8}
    (hcount : count + 1 < 2 ^ 64) (hlength : plaintext.length ≤ maxPlaintext)
    (output : List UInt8) :
    (base.keysAt count).sealRecord aead contentType plaintext output =
      (.ok (), base.keysAt (count + 1),
        output ++ (base.keysAt count).wire aead contentType plaintext) := by
  rw [sealRecord, if_neg (not_lt.mpr hlength)]
  dsimp only
  rw [advance_keysAt hcount]

/-- **Step lemma.** A seal that succeeds puts the record of its place behind the buffer. -/
theorem sealRecord_keysAt {base keys' : RecordKeys} {count : ℕ} {contentType : UInt8}
    {plaintext output wire : List UInt8} (hcount : count < 2 ^ 64)
    (h : (base.keysAt count).sealRecord aead contentType plaintext output =
      (.ok (), keys', output ++ wire)) :
    count + 1 < 2 ^ 64 ∧ keys' = base.keysAt (count + 1) ∧ plaintext.length ≤ maxPlaintext ∧
      wire = (base.keysAt count).wire aead contentType plaintext := by
  rw [sealRecord] at h
  split_ifs at h with hlong
  · exact nomatch h
  · dsimp only at h
    cases hadvance : (base.keysAt count).advance with
    | error error =>
      rw [hadvance] at h
      exact nomatch h
    | ok keys =>
      rw [hadvance] at h
      obtain ⟨_, hrest⟩ := Prod.mk.inj h
      obtain ⟨rfl, hwire⟩ := Prod.mk.inj hrest
      obtain ⟨hbound, hkeys⟩ := advance_keysAt_eq_ok hcount hadvance
      exact ⟨hbound, hkeys, Nat.le_of_not_lt hlong, (List.append_cancel_left hwire).symm⟩

/-- **Run lemma.** Records that were sealed in turn are opened in turn. -/
theorem accepted_of_seals {base : RecordKeys} {calls : List SealCall} {wires : List (List UInt8)}
    {count : ℕ} (hcount : count < 2 ^ 64) (htypes : ∀ call ∈ calls, call.contentType ≠ 0)
    (hseals : Seals aead (base.keysAt count) calls wires)
    (hcorrect : ∀ e ∈ encryptions base count calls, aead.decrypt base.key e.nonce e.aad
      (aead.encrypt base.key e.nonce e.aad e.plaintext).1
      (aead.encrypt base.key e.nonce e.aad e.plaintext).2 = some e.plaintext)
    {outputs : List (List UInt8)} (houtputs : outputs.length = wires.length) :
    accepted aead (base.keysAt count) (wires.zip outputs) = calls.map SealCall.record ∧
      count + calls.length < 2 ^ 64 := by
  induction calls generalizing wires count outputs with
  | nil =>
    cases wires with
    | nil => exact ⟨rfl, hcount⟩
    | cons wire wires => exact absurd hseals id
  | cons call calls ih =>
    cases wires with
    | nil => exact absurd hseals id
    | cons wire wires =>
      cases outputs with
      | nil => exact absurd houtputs (Nat.succ_ne_zero _).symm
      | cons output outputs =>
        obtain ⟨keys', hseal, hrest⟩ := hseals
        obtain ⟨hbound, rfl, hlength, rfl⟩ := sealRecord_keysAt hcount hseal
        obtain ⟨htype, htypes⟩ := List.forall_mem_cons.mp htypes
        obtain ⟨hfirst, hcorrect⟩ := List.forall_mem_cons.mp hcorrect
        obtain ⟨hopened, hcalls⟩ :=
          ih hbound htypes hrest hcorrect (Nat.succ.inj houtputs)
        refine ⟨?_, by rw [List.length_cons]; omega⟩
        rw [List.zip_cons_cons, accepted, open_wire hbound htype hlength hfirst output]
        dsimp only
        rw [hopened, List.drop_left]
        rfl

/-- **Run lemma.** Against an ideal AEAD only the next of the sealed records is accepted. -/
theorem accepted_prefix {base : RecordKeys} {calls : List SealCall} (hiv : base.iv.length = 12)
    (hcalls : calls.length < 2 ^ 64) (htypes : ∀ call ∈ calls, call.contentType ≠ 0)
    (hauthentic : ∀ nonce aad ciphertext tag plaintext,
      aead.decrypt base.key nonce aad ciphertext tag = some plaintext →
        { nonce, aad, plaintext : Encryption } ∈ encryptions base 0 calls)
    (items : List (List UInt8 × List UInt8)) {count : ℕ} (hcount : count ≤ calls.length) :
    accepted aead (base.keysAt count) items <+: (calls.drop count).map SealCall.record ∧
      Clean aead (base.keysAt count) items := by
  induction items generalizing count with
  | nil => exact ⟨List.nil_prefix, trivial⟩
  | cons item items ih =>
    obtain ⟨record, output⟩ := item
    rcases openRecord_cases aead (base.keysAt count) record output with
      ⟨error, hopen⟩ | ⟨aad, ciphertext, tag, plain, position, hdecrypt, hposition, hadvance⟩
    · obtain ⟨hleads, hclean⟩ := ih hcount
      rw [accepted, Clean, hopen]
      exact ⟨hleads, ⟨rfl, rfl⟩, hclean⟩
    · obtain ⟨i, hi, hnonce, hplain⟩ :=
        mem_encryptions (hauthentic _ _ _ _ _ hdecrypt)
      rw [Nat.zero_add] at hnonce
      obtain rfl : count = i :=
        nonce_keysAt_inj hiv (by omega) (by omega) hnonce
      have hplain' : plain = calls[count].plaintext ++ [calls[count].contentType] := hplain
      have hbound : count + 1 < 2 ^ 64 := by omega
      rcases hadvance with ⟨error, hfail, _⟩ | ⟨keys', hkeys, hopen⟩
      · rw [advance_keysAt hbound] at hfail
        exact nomatch hfail
      · obtain ⟨_, rfl⟩ := advance_keysAt_eq_ok (by omega) hkeys
        obtain ⟨hleads, hclean⟩ := @ih (count + 1) hi
        have htype := htypes calls[count] (List.getElem_mem hi)
        rw [hplain', lastNonzero_append htype] at hposition
        obtain rfl := Option.some.inj hposition
        have hbyte : byteAt plain calls[count].plaintext.length = calls[count].contentType := by
          rw [hplain', byteAt, List.getD_append_right _ _ _ _ (le_refl _), Nat.sub_self]
          rfl
        have htake : plain.take calls[count].plaintext.length = calls[count].plaintext := by
          rw [hplain', List.take_left]
        rw [hbyte, htake] at hopen
        rw [accepted, Clean, hopen, List.drop_eq_getElem_cons hi, List.map_cons]
        dsimp only
        rw [List.drop_left]
        exact ⟨List.cons_prefix_cons.mpr ⟨rfl, hleads⟩, List.prefix_append _ _, hclean⟩

theorem nodup_nonces {base : RecordKeys} {calls : List SealCall} {count : ℕ}
    (hiv : base.iv.length = 12) (h : count + calls.length < 2 ^ 64) :
    ((encryptions base count calls).map Encryption.nonce).Nodup := by
  induction calls generalizing count with
  | nil => exact List.nodup_nil
  | cons call calls ih =>
    rw [List.length_cons] at h
    rw [encryptions, List.map_cons, List.nodup_cons]
    refine ⟨fun hmem => ?_, ih (by omega)⟩
    obtain ⟨e, he, heq⟩ := List.mem_map.mp hmem
    obtain ⟨i, hi, hnonce, _⟩ := mem_encryptions he
    have hsame := nonce_keysAt_inj hiv (by omega) (by omega) (hnonce.symm.trans heq)
    omega

/-- **Main theorem.** Records sealed in turn under an ideal AEAD have distinct nonces and are
opened in turn with keys from the same secret; and of any byte strings the accepted ones are the
first of the records, in order, and a rejected one changes neither the keys nor its buffer. -/
theorem record_layer (aead : Aead) (secret : List UInt8) (calls : List SealCall)
    (wires : List (List UInt8)) (htypes : ∀ call ∈ calls, call.contentType ≠ 0)
    (hseals : Seals aead (fromTrafficSecret secret) calls wires)
    (hideal : Ideal aead (fromTrafficSecret secret).key
      (encryptions (fromTrafficSecret secret) 0 calls)) :
    (∀ outputs : List (List UInt8), outputs.length = wires.length →
      accepted aead (fromTrafficSecret secret) (wires.zip outputs) =
        calls.map SealCall.record) ∧
    ((encryptions (fromTrafficSecret secret) 0 calls).map Encryption.nonce).Nodup ∧
    ∀ items, accepted aead (fromTrafficSecret secret) items <+: calls.map SealCall.record ∧
      Clean aead (fromTrafficSecret secret) items := by
  have hiv := length_fromTrafficSecret_iv secret
  have hzero : (0 : ℕ) < 2 ^ 64 := by decide
  have hlength : (List.replicate wires.length ([] : List UInt8)).length = wires.length :=
    List.length_replicate
  have hcalls := (accepted_of_seals hzero htypes hseals hideal.correct hlength).2
  rw [Nat.zero_add] at hcalls
  refine ⟨fun outputs houtputs => ?_, nodup_nonces hiv (by omega), fun items => ?_⟩
  · exact (accepted_of_seals hzero htypes hseals hideal.correct houtputs).1
  · exact accepted_prefix hiv hcalls htypes hideal.authentic items (Nat.zero_le _)

/-- A handshake record and an empty application record. -/
theorem record_layer_two :
    let calls := [⟨22, [1, 2], []⟩, ⟨23, [], [9]⟩]
    let keys := fromTrafficSecret []
    ∃ wires, Seals (idealGcm (encryptions keys 0 calls)) keys calls wires ∧
      ∀ items, accepted (idealGcm (encryptions keys 0 calls)) keys items <+:
        [(22, [1, 2]), (23, [])] := by
  intro calls keys
  have hseals : Seals (idealGcm (encryptions keys 0 calls)) keys calls
      [keys.wire aes128Gcm 22 [1, 2], (keys.keysAt 1).wire aes128Gcm 23 []] :=
    ⟨_, rfl, _, rfl, trivial⟩
  exact ⟨_, hseals, fun items =>
    ((record_layer _ [] calls _ (by decide) hseals (ideal_idealGcm _ _)).2.2 items).1⟩

end Aead

end RecordKeys

end Mrml.Tls
