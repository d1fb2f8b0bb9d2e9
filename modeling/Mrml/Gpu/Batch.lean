import Mrml.Gpu.Dispatch

/-!
# Dispatch batches

Model of `GpuDispatchBatch` and its wire format
(`crates/mrml-kernel/src/virtual_gpu.rs`, lines 2421–2572): a header of sixteen bytes and
one canonical dispatch for each member. The array of optional entries with its count is a
list.

Results:
* `decodeEntries_eq_ok`: the loop of `decode` reads a table of records that can be pushed.
* `wire_formats_canonical`: dispatches and batches have one encoding each.
-/

namespace Mrml.Gpu

/-- `MAX_BATCH_DISPATCHES` (line 10). -/
def maxBatchDispatches : ℕ := 32

/-- `BatchedDispatch` (lines 2183–2186). Entries are made by `push`, which refuses the
    request id 0. -/
@[ext] structure BatchedDispatch where
  requestId : UInt64
  dispatch : Dispatch
  requestId_ne : requestId ≠ 0

instance : DecidableEq BatchedDispatch := fun _ _ => decidable_of_iff _ BatchedDispatch.ext_iff.symm

/-- `GpuDispatchBatch` (lines 2434–2437), with what `new` and `push` check. -/
structure GpuDispatchBatch (N : ℕ) where
  entries : List BatchedDispatch
  capacity : 0 < N ∧ N ≤ maxBatchDispatches
  length_le : entries.length ≤ N
  nodup : (entries.map BatchedDispatch.requestId).Nodup

namespace GpuDispatchBatch

variable {N BUFFERS : ℕ}

/-- `GpuDispatchBatch::new` (lines 2442–2450). -/
def new (N : ℕ) : Except GpuError (GpuDispatchBatch N) :=
  if h : N = 0 ∨ N > maxBatchDispatches then .error .invalidBatchCapacity
  else .ok ⟨[], by omega, Nat.zero_le N, List.nodup_nil⟩

theorem length_append_le (batch : GpuDispatchBatch N) (entry : BatchedDispatch)
    (hfull : ¬batch.entries.length = N) : (batch.entries ++ [entry]).length ≤ N := by
  have := batch.length_le
  rw [List.length_append, List.length_singleton]
  omega

theorem nodup_append (batch : GpuDispatchBatch N) (entry : BatchedDispatch)
    (hdup : entry.requestId ∉ batch.entries.map BatchedDispatch.requestId) :
    ((batch.entries ++ [entry]).map BatchedDispatch.requestId).Nodup := by
  rw [List.map_append, List.map_singleton, ← List.concat_eq_append]
  exact batch.nodup.concat hdup

/-- `GpuDispatchBatch::push` (lines 2452–2478). -/
def push (batch : GpuDispatchBatch N) (requestId : UInt64) (dispatch : Dispatch)
    (session : VirtualGpuSession BUFFERS) : Except GpuError (GpuDispatchBatch N) :=
  if hid : requestId = 0 then .error .malformedCommand
  else if hfull : batch.entries.length = N then .error .batchFull
  else if hdup : requestId ∈ batch.entries.map BatchedDispatch.requestId then
    .error .duplicateRequest
  else
    match session.validateDispatch dispatch with
    | .error error => .error error
    | .ok () => .ok {
        entries := batch.entries ++ [⟨requestId, dispatch, hid⟩]
        capacity := batch.capacity
        length_le := batch.length_append_le _ hfull
        nodup := batch.nodup_append _ hdup }

/-- `WIRE_HEADER_BYTES` (line 2440). -/
def wireHeaderBytes : ℕ := 16

/-- The length of a batch, with its overflow checks (lines 2500–2506 and 2553–2559). -/
def wireLength (count : ℕ) : Option ℕ :=
  if count * Dispatch.wireLength < 2 ^ 64 ∧
      wireHeaderBytes + count * Dispatch.wireLength < 2 ^ 64 then
    some (wireHeaderBytes + count * Dispatch.wireLength)
  else none

/-- `GpuDispatchBatch::encoded_len` (lines 2498–2507). -/
def encodedLen (batch : GpuDispatchBatch N) : Except GpuError ℕ := do
  refuseIf (batch.entries = []) .emptyBatch
  okOr (wireLength batch.entries.length) .rangeOverflow

/-- `b"MRGB"`. -/
def magic : List UInt8 := [0x4d, 0x52, 0x47, 0x42]

/-- The loop of `encode` (lines 2525–2531): each dispatch is encoded into its part of the
    output. -/
def encodeEntries : List BatchedDispatch → ℕ → List UInt8 → Except GpuError Unit × List UInt8
  | [], _, output => (.ok (), output)
  | entry :: entries, start, output =>
    match entry.dispatch.encode entry.requestId (slice output start Dispatch.wireLength) with
    | (.error error, record) => (.error error, patch output start record)
    | (.ok (), record) =>
      encodeEntries entries (start + Dispatch.wireLength) (patch output start record)

/-- `GpuDispatchBatch::encode` (lines 2512–2533): the result and the buffer. -/
def encode (batch : GpuDispatchBatch N) (batchId : UInt64) (output : List UInt8) :
    Except GpuError ℕ × List UInt8 :=
  if batchId = 0 then (.error .malformedCommand, output)
  else
    match batch.encodedLen with
    | .error error => (.error error, output)
    | .ok length =>
      if output.length < length then (.error .commandBufferTooSmall, output)
      else
        let rest := output.drop length
        let output := zeros length
        let output := patch output 0 magic
        let output := patch output 4 [2]
        let output := patch output 6 (leBytes 2 (UInt16.ofNat batch.entries.length).toNat)
        let output := patch output 8 (leBytes 8 batchId.toNat)
        match encodeEntries batch.entries wireHeaderBytes output with
        | (.error error, output) => (.error error, output ++ rest)
        | (.ok (), output) => (.ok length, output ++ rest)

/-- The loop of `decode` (lines 2564–2569). -/
def decodeEntries (session : VirtualGpuSession BUFFERS) (input : List UInt8) :
    ℕ → ℕ → GpuDispatchBatch N → Except GpuError (GpuDispatchBatch N)
  | _, 0, batch => .ok batch
  | start, count + 1, batch => do
    let (requestId, dispatch) ← Dispatch.decode (slice input start Dispatch.wireLength)
    let batch ← batch.push requestId dispatch session
    decodeEntries session input (start + Dispatch.wireLength) count batch

/-- `GpuDispatchBatch::decode` (lines 2535–2571). -/
def decode (N : ℕ) (session : VirtualGpuSession BUFFERS) (input : List UInt8) :
    Except GpuError (UInt64 × GpuDispatchBatch N) := do
  refuseIf (input.length < wireHeaderBytes ∨ slice input 0 4 ≠ magic ∨ byteAt input 4 ≠ 2 ∨
    byteAt input 5 ≠ 0) .malformedCommand
  let count := (readU16 input 6).toNat
  let batchId := readU64 input 8
  refuseIf (count = 0 ∨ count > N ∨ count > maxBatchDispatches ∨ batchId = 0) .malformedCommand
  let expected ← okOr (wireLength count) .rangeOverflow
  refuseIf (input.length ≠ expected) .malformedCommand
  let batch ← new N
  let batch ← decodeEntries session input wireHeaderBytes count batch
  return (batchId, batch)

/-! ## Members -/

/-- Members as records. -/
def entryFormat : RecordFormat GpuError BatchedDispatch where
  width := Dispatch.wireLength
  write entry := entry.dispatch.write entry.requestId
  read record :=
    match h : Dispatch.decode record with
    | .error error => .error error
    | .ok (requestId, dispatch) => .ok ⟨requestId, dispatch, (Dispatch.write_of_decode h).1⟩
  length_write entry := entry.dispatch.length_write entry.requestId
  read_write entry := by
    have hdecode := entry.dispatch.decode_write entry.requestId_ne
    split
    · next h => rw [hdecode] at h; cases h
    · next h =>
      rw [hdecode] at h
      cases h
      rfl
  write_read := by
    intro record entry _ h
    split at h
    · cases h
    · next hdecode =>
      obtain rfl := Except.ok.inj h
      exact (Dispatch.write_of_decode hdecode).2

theorem ext_entries {batch batch' : GpuDispatchBatch N} (h : batch.entries = batch'.entries) :
    batch = batch' := by
  obtain ⟨entries, _, _, _⟩ := batch
  obtain ⟨entries', _, _, _⟩ := batch'
  obtain rfl : entries = entries' := h
  rfl

/-- When a member is accepted, and what becomes of the batch. -/
theorem push_eq_ok {batch batch' : GpuDispatchBatch N} {requestId : UInt64} {dispatch : Dispatch}
    {session : VirtualGpuSession BUFFERS} :
    batch.push requestId dispatch session = .ok batch' ↔
      ∃ hid, batch'.entries = batch.entries ++ [⟨requestId, dispatch, hid⟩] ∧
        session.validateDispatch dispatch = .ok () := by
  unfold push
  constructor
  · intro h
    split_ifs at h with hid hfull hdup
    split at h
    · cases h
    · next hvalid =>
      obtain rfl := Except.ok.inj h
      exact ⟨hid, rfl, hvalid⟩
  · rintro ⟨hid, hentries, hvalid⟩
    have hlength := batch'.length_le
    rw [hentries, List.length_append, List.length_singleton] at hlength
    have hnodup := batch'.nodup
    rw [hentries, List.map_append, List.map_singleton, ← List.concat_eq_append,
      List.nodup_concat] at hnodup
    rw [dif_neg hid, dif_neg (by omega), dif_neg hnodup.1, hvalid]
    exact congrArg _ (ext_entries hentries.symm)

theorem entryFormat_read {record : List UInt8} {entry : BatchedDispatch} :
    entryFormat.read record = .ok entry ↔
      Dispatch.decode record = .ok (entry.requestId, entry.dispatch) := by
  constructor
  · intro h
    unfold entryFormat at h
    dsimp only at h
    split at h
    · cases h
    · next hdecode =>
      obtain rfl := Except.ok.inj h
      exact hdecode
  · intro h
    rw [← (Dispatch.write_of_decode h).2]
    exact entryFormat.read_write entry

/-- A batch without its last members. -/
def truncate (batch : GpuDispatchBatch N) {entries rest : List BatchedDispatch}
    (h : batch.entries = entries ++ rest) : GpuDispatchBatch N where
  entries
  capacity := batch.capacity
  length_le := by
    have hle := batch.length_le
    rw [h, List.length_append] at hle
    omega
  nodup := by
    have hnodup := batch.nodup
    rw [h, List.map_append] at hnodup
    exact hnodup.of_append_left

/-- The loop of `decode` reads a table of members that the session accepts. -/
theorem decodeEntries_eq_ok {session : VirtualGpuSession BUFFERS} {input : List UInt8}
    {start count : ℕ} {batch batch' : GpuDispatchBatch N} :
    decodeEntries session input start count batch = .ok batch' ↔
      ∃ items, entryFormat.readRecords input start count = .ok items ∧
        batch'.entries = batch.entries ++ items ∧
        ∀ item ∈ items, session.validateDispatch item.dispatch = .ok () := by
  induction count generalizing start batch with
  | zero =>
    constructor
    · intro h
      obtain rfl := Except.ok.inj h
      exact ⟨[], rfl, (List.append_nil _).symm, fun _ h => nomatch h⟩
    · rintro ⟨items, hitems, hentries, -⟩
      obtain rfl := Except.ok.inj hitems
      rw [List.append_nil] at hentries
      exact congrArg Except.ok (ext_entries hentries.symm)
  | succ count ih =>
    constructor
    · intro h
      obtain ⟨⟨requestId, dispatch⟩, hdecode, h⟩ := bind_eq_ok.mp h
      obtain ⟨pushed, hpush, h⟩ := bind_eq_ok.mp h
      obtain ⟨hid, hpushed, hvalid⟩ := push_eq_ok.mp hpush
      obtain ⟨items, hitems, hentries, hvalids⟩ := ih.mp h
      refine ⟨⟨requestId, dispatch, hid⟩ :: items, ?_, ?_, List.forall_mem_cons.mpr ⟨hvalid, hvalids⟩⟩
      · exact bind_eq_ok.mpr ⟨⟨requestId, dispatch, hid⟩, entryFormat_read.mpr hdecode,
          bind_eq_ok.mpr ⟨items, hitems, rfl⟩⟩
      · rw [hentries, hpushed, List.append_assoc, List.singleton_append]
    · rintro ⟨items, hitems, hentries, hvalids⟩
      obtain ⟨item, hitem, hitems⟩ := bind_eq_ok.mp hitems
      obtain ⟨rest, hrest, hitems⟩ := bind_eq_ok.mp hitems
      obtain rfl := Except.ok.inj hitems
      obtain ⟨hvalid, hvalids⟩ := List.forall_mem_cons.mp hvalids
      -- the batch after this member is the part of the result up to it
      have hsplit : batch'.entries = (batch.entries ++ [item]) ++ rest := by
        rw [hentries, List.append_assoc, List.singleton_append]
      refine bind_eq_ok.mpr ⟨_, entryFormat_read.mp hitem, ?_⟩
      refine bind_eq_ok.mpr ⟨batch'.truncate hsplit, ?_, ih.mpr ⟨rest, hrest, hsplit, hvalids⟩⟩
      exact push_eq_ok.mpr ⟨item.requestId_ne, rfl, hvalid⟩

/-! ## The batch -/

theorem wireLength_of_le {count : ℕ} (h : count ≤ maxBatchDispatches) :
    wireLength count = some (16 + count * 688) := by
  have hmax : maxBatchDispatches = 32 := rfl
  rw [wireLength, Dispatch.wireLength_eq]
  exact if_pos ⟨by omega, show 16 + count * 688 < 2 ^ 64 by omega⟩

/-- Each member fills its part of the output. -/
theorem encodeEntries_eq (entries : List BatchedDispatch) (pre post : List UInt8) :
    encodeEntries entries pre.length
        (pre ++ (zeros (entries.length * Dispatch.wireLength) ++ post)) =
      (.ok (), pre ++ (entryFormat.writeRecords entries ++ post)) := by
  induction entries generalizing pre with
  | nil =>
    rw [List.length_nil, Nat.zero_mul]
    rfl
  | cons entry entries ih =>
    have hwrite : (entryFormat.write entry).length = Dispatch.wireLength :=
      entryFormat.length_write entry
    have hslice := slice_append pre (zeros Dispatch.wireLength)
      (zeros (entries.length * Dispatch.wireLength) ++ post)
    have hrest := ih (pre ++ entryFormat.write entry)
    rw [length_zeros] at hslice
    rw [List.length_append, hwrite, List.append_assoc, List.append_assoc] at hrest
    rw [List.length_cons, Nat.succ_mul, Nat.add_comm, zeros_add, List.append_assoc, encodeEntries,
      hslice, Dispatch.encode_exact entry.requestId_ne (length_zeros _)]
    dsimp only
    rw [patch_append _ _ (by rw [length_zeros, Dispatch.length_write]),
      entryFormat.writeRecords_cons, List.append_assoc]
    exact hrest

/-- The fields of an encoded batch. -/
def fields (batch : GpuDispatchBatch N) (batchId : UInt64) : List (List UInt8) :=
  [magic, [2], [0], leBytes 2 (UInt16.ofNat batch.entries.length).toNat, leBytes 8 batchId.toNat,
    entryFormat.writeRecords batch.entries]

theorem count_le (batch : GpuDispatchBatch N) : batch.entries.length ≤ maxBatchDispatches :=
  batch.length_le.trans batch.capacity.2

theorem map_length_fields (batch : GpuDispatchBatch N) (batchId : UInt64) :
    (batch.fields batchId).map List.length =
      [4, 1, 1, 2, 8, batch.entries.length * Dispatch.wireLength] := by
  have htable := entryFormat.length_writeRecords batch.entries
  simp only [fields, List.map_cons, List.map_nil, htable, length_leBytes]
  rfl

/-- What `encode` leaves in its buffer. -/
theorem encode_eq {batch : GpuDispatchBatch N} {batchId : UInt64} (hid : batchId ≠ 0)
    (hready : batch.entries ≠ []) {output : List UInt8}
    (hlen : 16 + batch.entries.length * 688 ≤ output.length) :
    batch.encode batchId output =
      (.ok (16 + batch.entries.length * 688), (batch.fields batchId).flatten ++
        output.drop (16 + batch.entries.length * 688)) := by
  have hencoded : batch.encodedLen = .ok (16 + batch.entries.length * 688) :=
    bind_eq_ok.mpr ⟨(), refuseIf_eq_ok.mpr hready,
      okOr_eq_ok.mpr (wireLength_of_le batch.count_le)⟩
  have hheader := foldl_patch_flatten
    ([4, 1, 1, 2, 8, batch.entries.length * 688].map zeros)
    [4, 1, 1, 2, 8, batch.entries.length * 688] (by simp)
    [(0, magic), (1, [2]), (3, leBytes 2 (UInt16.ofNat batch.entries.length).toNat),
      (4, leBytes 8 batchId.toNat)] (by simp [magic])
  rw [flatten_zeros] at hheader
  simp only [List.map_cons, List.map_nil, List.foldl_cons, List.foldl_nil, List.take_succ_cons,
    List.take_zero, List.sum_cons, List.sum_nil, Nat.reduceAdd, List.set_cons_succ,
    List.set_cons_zero] at hheader
  have hsum : 4 + (1 + (1 + (2 + (8 + (batch.entries.length * 688 + 0))))) =
      16 + batch.entries.length * 688 := by omega
  have hentries := encodeEntries_eq batch.entries
    [magic, [2], [0], leBytes 2 (UInt16.ofNat batch.entries.length).toNat,
      leBytes 8 batchId.toNat].flatten []
  have hheadLength : [magic, [2], [0], leBytes 2 (UInt16.ofNat batch.entries.length).toNat,
      leBytes 8 batchId.toNat].flatten.length = wireHeaderBytes := by
    simp [magic, wireHeaderBytes]
  rw [hheadLength, Dispatch.wireLength_eq] at hentries
  have hfields : [magic, [2], zeros 1, leBytes 2 (UInt16.ofNat batch.entries.length).toNat,
      leBytes 8 batchId.toNat, zeros (batch.entries.length * 688)].flatten =
      [magic, [2], [0], leBytes 2 (UInt16.ofNat batch.entries.length).toNat,
        leBytes 8 batchId.toNat].flatten ++ (zeros (batch.entries.length * 688) ++ []) := by
    simp [zeros]
  rw [hsum, hfields] at hheader
  rw [encode, if_neg hid, hencoded]
  dsimp only
  rw [if_neg (Nat.not_lt.mpr hlen), hheader, hentries]
  simp [fields]

theorem length_flatten_fields (batch : GpuDispatchBatch N) (batchId : UInt64) :
    (batch.fields batchId).flatten.length = 16 + batch.entries.length * 688 := by
  rw [List.length_flatten, map_length_fields, Dispatch.wireLength_eq]
  simp only [List.sum_cons, List.sum_nil]
  omega

theorem new_eq_ok (hN : 0 < N ∧ N ≤ maxBatchDispatches) :
    ∃ batch, new N = .ok batch ∧ batch.entries = [] := by
  rw [new, dif_neg (by omega)]
  exact ⟨_, rfl, rfl⟩

/-- An encoded batch decodes in every session that accepts its members. -/
theorem decode_flatten {session : VirtualGpuSession BUFFERS} {batch : GpuDispatchBatch N}
    {batchId : UInt64} (hid : batchId ≠ 0) (hready : batch.entries ≠ [])
    (hvalid : ∀ entry ∈ batch.entries, session.validateDispatch entry.dispatch = .ok ()) :
    decode N session (batch.fields batchId).flatten = .ok (batchId, batch) := by
  have hlen := batch.length_flatten_fields batchId
  have hcount := batch.count_le
  have hslices := slices_flatten (batch.fields batchId)
  rw [map_length_fields, Dispatch.wireLength_eq] at hslices
  generalize (batch.fields batchId).flatten = input at *
  simp only [slices, fields, List.cons.injEq, and_true, Nat.zero_add, Nat.reduceAdd] at hslices
  obtain ⟨hmagic, hversion, hzero, hcount', hbatch, htable⟩ := hslices
  have hmax : maxBatchDispatches = 32 := rfl
  have hn : (readU16 input 6).toNat = batch.entries.length := by
    rw [readU16_of_slice hcount', UInt16.toNat_ofNat', Nat.mod_eq_of_lt (by omega)]
  obtain ⟨empty, hnew, hempty⟩ := new_eq_ok batch.capacity
  refine bind_eq_ok.mpr ⟨(), refuseIf_eq_ok.mpr ?_, ?_⟩
  · rw [hlen, hmagic, byteAt_of_slice hversion, byteAt_of_slice hzero]
    simp [wireHeaderBytes]
  refine bind_eq_ok.mpr ⟨(), refuseIf_eq_ok.mpr ?_, ?_⟩
  · rw [hn, readU64_of_slice hbatch, not_or, not_or, not_or, List.length_eq_zero_iff]
    exact ⟨hready, Nat.not_lt.mpr batch.length_le, Nat.not_lt.mpr hcount, hid⟩
  refine bind_eq_ok.mpr ⟨16 + batch.entries.length * 688, okOr_eq_ok.mpr ?_, ?_⟩
  · rw [hn, wireLength_of_le hcount]
  refine bind_eq_ok.mpr ⟨(), refuseIf_eq_ok.mpr (not_not.mpr hlen), ?_⟩
  refine bind_eq_ok.mpr ⟨empty, hnew, ?_⟩
  refine bind_eq_ok.mpr ⟨batch, decodeEntries_eq_ok.mpr ⟨batch.entries, ?_, ?_, hvalid⟩, ?_⟩
  · rw [hn]
    exact entryFormat.readRecords_writeRecords htable
  · rw [hempty, List.nil_append]
  · rw [readU64_of_slice hbatch]
    rfl

/-- An accepted buffer is the encoding of what it decodes to. -/
theorem flatten_of_decode {session : VirtualGpuSession BUFFERS} {input : List UInt8}
    {batchId : UInt64} {batch : GpuDispatchBatch N}
    (h : decode N session input = .ok (batchId, batch)) :
    batchId ≠ 0 ∧ batch.entries ≠ [] ∧ (batch.fields batchId).flatten = input ∧
      ∀ entry ∈ batch.entries, session.validateDispatch entry.dispatch = .ok () := by
  unfold decode at h
  obtain ⟨_, hhead, h⟩ := bind_eq_ok.mp h
  obtain ⟨_, hcounts, h⟩ := bind_eq_ok.mp h
  obtain ⟨expected, hexpected, h⟩ := bind_eq_ok.mp h
  obtain ⟨_, hlen, h⟩ := bind_eq_ok.mp h
  obtain ⟨empty, hnew, h⟩ := bind_eq_ok.mp h
  obtain ⟨batch', hentries, h⟩ := bind_eq_ok.mp h
  obtain ⟨rfl, rfl⟩ := Prod.mk.inj (Except.ok.inj h)
  have hempty : empty.entries = [] := by
    unfold new at hnew
    split_ifs at hnew
    exact Except.ok.inj hnew ▸ rfl
  obtain ⟨items, hitems, hitems', hvalid⟩ := decodeEntries_eq_ok.mp hentries
  rw [hempty, List.nil_append] at hitems'
  subst hitems'
  obtain ⟨-, hmagic, hversion, hzero⟩ : 16 ≤ input.length ∧ slice input 0 4 = magic ∧
      byteAt input 4 = 2 ∧ byteAt input 5 = 0 := by
    simpa [wireHeaderBytes] using refuseIf_eq_ok.mp hhead
  obtain ⟨hn, -, hmax, hid⟩ : (readU16 input 6).toNat ≠ 0 ∧ (readU16 input 6).toNat ≤ N ∧
      (readU16 input 6).toNat ≤ maxBatchDispatches ∧ readU64 input 8 ≠ 0 := by
    simpa only [not_or, gt_iff_lt, not_lt] using refuseIf_eq_ok.mp hcounts
  have hcode : 6 + 2 ≤ input.length → leBytes 2 (readU16 input 6).toNat = slice input 6 2 :=
    leBytes_readU16
  generalize hcount : (readU16 input 6).toNat = n at *
  obtain rfl : 16 + n * 688 = expected :=
    Option.some_inj.mp ((wireLength_of_le hmax).symm.trans (okOr_eq_ok.mp hexpected))
  replace hlen : input.length = 16 + n * 688 := not_not.mp (refuseIf_eq_ok.mp hlen)
  obtain ⟨hlength, htable⟩ := entryFormat.writeRecords_readRecords (Nat.le_of_eq hlen.symm) hitems
  refine ⟨hid, ?_, ?_, hvalid⟩
  · rw [← List.length_pos_iff]
    omega
  · have hfields : input = (slices input 0 [4, 1, 1, 2, 8, n * 688]).flatten :=
      eq_flatten_slices (by rw [hlen]; simp only [List.sum_cons, List.sum_nil]; omega)
    have hcode' : leBytes 2 (UInt16.ofNat n).toNat = slice input 6 2 := by
      rw [← hcount, UInt16.ofNat_toNat, hcount, hcode (by omega)]
    have hwidth : entryFormat.width = 688 := rfl
    conv_rhs => rw [hfields]
    simp only [fields, slices, hlength, htable, hcode', hmagic, hwidth, Nat.zero_add, Nat.reduceAdd]
    rw [leBytes_readU64 (by omega), slice_one (by omega), slice_one (by omega), hversion, hzero]

/-- The batches that `new` and pushes in one session build. -/
inductive Built (session : VirtualGpuSession BUFFERS) : GpuDispatchBatch N → Prop
  | new {batch} (h : new N = .ok batch) : Built session batch
  | push {batch batch'} {requestId dispatch} (hbatch : Built session batch)
      (h : batch.push requestId dispatch session = .ok batch') : Built session batch'

/-- The session accepts the members of a batch that it built. -/
theorem Built.validate {session : VirtualGpuSession BUFFERS} {batch : GpuDispatchBatch N}
    (h : Built session batch) :
    ∀ entry ∈ batch.entries, session.validateDispatch entry.dispatch = .ok () := by
  induction h with
  | new h =>
    unfold GpuDispatchBatch.new at h
    split_ifs at h
    obtain rfl := Except.ok.inj h
    exact fun _ hmem => nomatch hmem
  | push _ h ih =>
    obtain ⟨hid, hentries, hvalid⟩ := push_eq_ok.mp h
    rw [hentries]
    intro entry hmem
    rcases List.mem_append.mp hmem with hmem | hmem
    · exact ih entry hmem
    · obtain rfl := List.mem_singleton.mp hmem
      exact hvalid

end GpuDispatchBatch

/-- **Main theorem.** Dispatches and batches have canonical encodings. What `encode` writes for
    a dispatch or for a batch decodes to it (a batch in the session it was built in, or in
    any other that accepts its members), what `decode` accepts is what `encode` writes for
    the result, and so no two byte strings decode to the same work item. -/
theorem wire_formats_canonical :
    (∀ (dispatch : Dispatch) requestId output, requestId ≠ 0 →
      Dispatch.wireLength ≤ output.length → ∃ output',
        dispatch.encode requestId output = (.ok (), output') ∧
        Dispatch.decode (output'.take Dispatch.wireLength) = .ok (requestId, dispatch)) ∧
    (∀ input requestId dispatch, Dispatch.decode input = .ok (requestId, dispatch) →
      ∀ output, output.length = input.length →
        dispatch.encode requestId output = (.ok (), input)) ∧
    (∀ input input' item, Dispatch.decode input = .ok item → Dispatch.decode input' = .ok item →
      input = input') ∧
    ∀ (N BUFFERS : ℕ) (session : VirtualGpuSession BUFFERS),
      (∀ (batch : GpuDispatchBatch N) batchId output, batchId ≠ 0 → batch.entries ≠ [] →
        GpuDispatchBatch.wireHeaderBytes + batch.entries.length * Dispatch.wireLength ≤
          output.length → ∃ length output',
          batch.encode batchId output = (.ok length, output') ∧
          (batch.Built session →
            GpuDispatchBatch.decode N session (output'.take length) = .ok (batchId, batch)) ∧
          (GpuDispatchBatch.decode N session (output'.take length) = .ok (batchId, batch) ↔
            ∀ entry ∈ batch.entries, session.validateDispatch entry.dispatch = .ok ())) ∧
      (∀ input batchId (batch : GpuDispatchBatch N),
        GpuDispatchBatch.decode N session input = .ok (batchId, batch) →
        ∀ output, output.length = input.length →
          batch.encode batchId output = (.ok input.length, input)) ∧
      ∀ (BUFFERS' : ℕ) (session' : VirtualGpuSession BUFFERS') input input' item,
        GpuDispatchBatch.decode N session input = .ok item →
        GpuDispatchBatch.decode N session' input' = .ok item → input = input' := by
  refine ⟨?_, ?_, ?_, ?_⟩
  · intro dispatch requestId output hid hlen
    refine ⟨_, Dispatch.encode_of_ne hid hlen, ?_⟩
    rw [List.take_left' (dispatch.length_write requestId), dispatch.decode_write hid]
  · intro input requestId dispatch h output hlen
    obtain ⟨hid, hwrite⟩ := Dispatch.write_of_decode h
    rw [Dispatch.encode_exact hid (by rw [hlen, ← hwrite, dispatch.length_write]), hwrite]
  · rintro input input' ⟨requestId, dispatch⟩ h h'
    rw [← (Dispatch.write_of_decode h).2, (Dispatch.write_of_decode h').2]
  intro N BUFFERS session
  refine ⟨?_, ?_, ?_⟩
  · intro batch batchId output hid hready hlen
    refine ⟨_, _, GpuDispatchBatch.encode_eq hid hready hlen, ?_⟩
    rw [List.take_left' (batch.length_flatten_fields batchId)]
    exact ⟨fun hbuilt => GpuDispatchBatch.decode_flatten hid hready hbuilt.validate,
      fun h => (GpuDispatchBatch.flatten_of_decode h).2.2.2,
      GpuDispatchBatch.decode_flatten hid hready⟩
  · intro input batchId batch h output hlen
    obtain ⟨hid, hready, hflatten, -⟩ := GpuDispatchBatch.flatten_of_decode h
    have hlength := batch.length_flatten_fields batchId
    rw [hflatten] at hlength
    rw [GpuDispatchBatch.encode_eq hid hready (by omega), List.drop_eq_nil_of_le (by omega),
      List.append_nil, hflatten, hlength]
  · rintro BUFFERS' session' input input' ⟨batchId, batch⟩ h h'
    rw [← (GpuDispatchBatch.flatten_of_decode h).2.2.1,
      (GpuDispatchBatch.flatten_of_decode h').2.2.1]

end Mrml.Gpu
