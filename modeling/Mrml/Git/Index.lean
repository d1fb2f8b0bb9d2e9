import Mrml.Common.KeyedList
import Mrml.Common.Run
import Mrml.Common.Text
import Mrml.Common.Wire
import Mrml.Git.Sha1

/-!
# The index

Model of `crates/mrml-git/src/index.rs`. Paths are texts, compared by their UTF-8 bytes; byte
offsets are `usize` values below the length of the file and are on `ℕ`.

Results:
* `Sorted.step`, `run_represents`: what `upsert` and `remove` keep, over any sequence.
* `parse_encode`: an encoded index reads back, with the stages cut to two bits.
* `index_file`: the two together.
-/

namespace Mrml.Git

open KeyedList

/-- `IndexEntry` (lines 12–18). -/
@[ext] structure IndexEntry where
  path : Text
  id : ObjectId
  mode : UInt32
  size : UInt32
  stage : UInt8
deriving DecidableEq, Inhabited

/-- `Index` (lines 21–24). -/
@[ext] structure Index where
  version : UInt32
  entries : List IndexEntry
deriving DecidableEq, Inhabited

/-- `IndexError` (lines 27–37). -/
inductive IndexError
  | truncated
  | invalidSignature
  | unsupportedVersion
  | tooManyEntries
  | invalidChecksum
  | invalidPath
  | invalidPadding
  | invalidExtension
  | requiredExtension
deriving DecidableEq

/-- `HEADER_LENGTH` (line 6). -/
def headerLength : ℕ := 12

/-- `CHECKSUM_LENGTH` (line 7). -/
def checksumLength : ℕ := 20

/-- `FIXED_ENTRY_LENGTH` (line 8). -/
def fixedEntryLength : ℕ := 62

/-- `MAX_ENTRIES` (line 9). -/
def maxEntries : ℕ := 1000000

/-- `b"DIRC"`. -/
def dirc : List UInt8 := [0x44, 0x49, 0x52, 0x43]

/-- A component that no path may have (lines 223–225). -/
def badPart (part : Text) : Bool := part.isEmpty || part == ['.'] || part == ['.', '.']

/-- `validate_path` (lines 218–232). -/
def validatePath (path : Text) : Except IndexError Unit :=
  refuseIf (path.isEmpty || path.head? == some '/' || path.head? == some '\\' ||
    path.contains '\\' || (path.splitOn '/').any badPart || path.any Text.isControl) .invalidPath

/-- `be_u32` (lines 234–242). -/
def beU32 (source : List UInt8) (offset : ℕ) : Except IndexError UInt32 :=
  if offset + 4 ≤ source.length then .ok (UInt32.ofNat (beNat (slice source offset 4)))
  else .error .truncated

/-- `be_u16` (lines 244–252). -/
def beU16 (source : List UInt8) (offset : ℕ) : Except IndexError UInt16 :=
  if offset + 2 ≤ source.length then .ok (UInt16.ofNat (beNat (slice source offset 2)))
  else .error .truncated

namespace IndexEntry

/-- The order of the entries: path bytes, then stage (lines 151–156). -/
def key (entry : IndexEntry) : List ℕ ×ₗ ℕ :=
  toLex (entry.path.asBytes.map UInt8.toNat, entry.stage.toNat)

/-- The flags word: the length of the path, at most `0xfff`, and the stage (lines 187–188). -/
def flags (entry : IndexEntry) : UInt16 :=
  UInt16.ofNat (min entry.path.asBytes.length 0x0fff) ||| ((entry.stage.toUInt16 &&& 3) <<< 12)

/-- The bytes of an entry up to its padding (lines 181–190). -/
def record (entry : IndexEntry) : List UInt8 :=
  zeros 24 ++ beBytes 4 entry.mode.toNat ++ zeros 8 ++ beBytes 4 entry.size.toNat ++
    entry.id.bytes.toList ++ beBytes 2 entry.flags.toNat ++ entry.path.asBytes ++ [0]

end IndexEntry

/-- Zero bytes up to the next multiple of eight (lines 191–193). -/
def padding (length : ℕ) : List UInt8 := zeros ((8 - length % 8) % 8)

/-- One turn of the loop of `encode` (lines 179–193). -/
def encodeEntry (entry : IndexEntry) : Except IndexError (List UInt8) := do
  validatePath entry.path
  return entry.record ++ padding entry.record.length

/-- The end of the path of an entry: the first NUL byte from `cursor` on (lines 89–93). -/
def findNul (source : List UInt8) (cursor bodyLength : ℕ) : Except IndexError ℕ :=
  okOr (((slice source cursor (bodyLength - cursor)).findIdx? (· == 0)).map (cursor + ·)) .truncated

/-- The extended flags of version 3 are skipped (lines 83–88). -/
def skipExtendedFlags (version : UInt32) (flags : UInt16) (cursor bodyLength : ℕ) :
    Except IndexError ℕ :=
  if flags &&& 0x4000 ≠ 0 then
    if version ≠ 3 ∨ cursor + 2 > bodyLength then .error .truncated else .ok (cursor + 2)
  else .ok cursor

/-- One turn of the loop of `parse` over the entries (lines 68–110). -/
def parseEntry (source : List UInt8) (bodyLength : ℕ) (version : UInt32) (start : ℕ) :
    Except IndexError (IndexEntry × ℕ) := do
  refuseIf (start + fixedEntryLength > bodyLength) IndexError.truncated
  let mode ← beU32 source (start + 24)
  let size ← beU32 source (start + 36)
  let id : ObjectId := ⟨arrayAt source (start + 40) 20⟩
  let flags ← beU16 source (start + 60)
  let cursor ← skipExtendedFlags version flags (start + fixedEntryLength) bodyLength
  let nul ← findNul source cursor bodyLength
  let path ← okOr (Text.fromUtf8 (slice source cursor (nul - cursor))) IndexError.invalidPath
  validatePath path
  let entry : IndexEntry := { path, id, mode, size, stage := ((flags >>> 12) &&& 3).toUInt8 }
  let next := start + (nul + 1 - start + 7) / 8 * 8
  refuseIf (next > bodyLength ∨ anyNonzero (slice source (nul + 1) (next - (nul + 1))))
    IndexError.invalidPadding
  return (entry, next)

/-- The loop of `parse` over the entries (lines 66–111). -/
def parseEntries (source : List UInt8) (bodyLength : ℕ) (version : UInt32) :
    ℕ → ℕ → Except IndexError (List IndexEntry × ℕ)
  | 0, cursor => .ok ([], cursor)
  | count + 1, cursor => do
    let (entry, cursor) ← parseEntry source bodyLength version cursor
    let (entries, cursor) ← parseEntries source bodyLength version count cursor
    return (entry :: entries, cursor)

/-- `u8::is_ascii_lowercase`. -/
def isAsciiLowercase (byte : UInt8) : Bool := 0x61 ≤ byte && byte ≤ 0x7a

/-- The loop of `parse` over the extensions (lines 113–130). -/
def parseExtensions (source : List UInt8) (bodyLength cursor : ℕ) : Except IndexError Unit :=
  if cursor < bodyLength then do
    refuseIf (cursor + 8 > bodyLength) IndexError.invalidExtension
    refuseIf (isAsciiLowercase (byteAt source cursor)) IndexError.requiredExtension
    let size ← beU32 source (cursor + 4)
    refuseIf (cursor + 8 + size.toNat > bodyLength) IndexError.invalidExtension
    parseExtensions source bodyLength (cursor + 8 + size.toNat)
  else .ok ()
termination_by bodyLength - cursor
decreasing_by omega

namespace Index

/-- `Index::empty` (lines 40–45). -/
def empty : Index := ⟨2, []⟩

/-- `Index::parse` (lines 47–133). -/
def parse (source : List UInt8) : Except IndexError Index := do
  refuseIf (source.length < headerLength + checksumLength) IndexError.truncated
  let bodyLength := source.length - checksumLength
  refuseIf ((Sha1.digest (source.take bodyLength)).toList ≠ source.drop bodyLength)
    IndexError.invalidChecksum
  refuseIf (source.take 4 ≠ dirc) IndexError.invalidSignature
  let version ← beU32 source 4
  refuseIf (version ≠ 2 ∧ version ≠ 3) IndexError.unsupportedVersion
  let count ← beU32 source 8
  refuseIf (count.toNat > maxEntries) IndexError.tooManyEntries
  let (entries, cursor) ← parseEntries source bodyLength version count.toNat headerLength
  parseExtensions source bodyLength cursor
  return ⟨version, entries⟩

/-- `Index::entry` (lines 135–139). -/
def entry (index : Index) (path : Text) : Option IndexEntry :=
  index.entries.find? fun entry => entry.stage = 0 ∧ entry.path = path

/-- `Index::upsert` (lines 141–157). The keys that are sorted are different, so that an
unstable sort has one possible result. -/
def upsert (index : Index) (entry : IndexEntry) : Index :=
  { index with entries := sortBy IndexEntry.key (replaceOrPush
      (fun item : IndexEntry => (item.path, item.stage)) index.entries entry) }

/-- The entries after `Index::remove`, at all stages of the path (lines 159–170). -/
def remove (index : Index) (path : Text) : Index :=
  { index with entries := index.entries.filter (·.path ≠ path) }

/-- `Index::encode` (lines 172–200). -/
def encode (index : Index) : Except IndexError (List UInt8) := do
  refuseIf (index.entries.length > maxEntries) IndexError.tooManyEntries
  let records ← index.entries.mapM encodeEntry
  let output := dirc ++ beBytes 4 2 ++ beBytes 4 index.entries.length ++ records.flatten
  return output ++ (Sha1.digest output).toList

end Index

/-! ## Sequences of operations -/

/-- A change of the index. -/
inductive IndexOp
  | upsert (entry : IndexEntry)
  | remove (path : Text)

namespace Index

/-- The index after an operation. -/
def step (index : Index) : IndexOp → Index
  | .upsert entry => index.upsert entry
  | .remove path => index.remove path

/-- The finite map from path and stage to entry that an operation defines. -/
def mapStep (map : Text × UInt8 → Option IndexEntry) : IndexOp → Text × UInt8 → Option IndexEntry
  | .upsert entry => Function.update map (entry.path, entry.stage) (some entry)
  | .remove path => fun key => if key.1 = path then none else map key

end Index

/-- Path and stage. -/
def IndexEntry.slot (entry : IndexEntry) : Text × UInt8 := (entry.path, entry.stage)

namespace IndexEntry

theorem key_inj {entry entry' : IndexEntry} :
    entry.key = entry'.key ↔ entry.slot = entry'.slot := by
  have hbytes : Function.Injective (List.map UInt8.toNat) :=
    List.map_injective_iff.mpr fun _ _ => UInt8.toNat_inj.mp
  rw [key, key, toLex_inj, Prod.mk_inj, hbytes.eq_iff, Text.asBytes_inj, UInt8.toNat_inj, slot,
    slot, Prod.mk_inj]

end IndexEntry

namespace Index

theorem entries_upsert (index : Index) (entry : IndexEntry) :
    (index.upsert entry).entries = put IndexEntry.key index.entries entry := by
  exact congrArg (sortBy IndexEntry.key) (replaceOrPush_congr
    (fun _ _ => IndexEntry.key_inj.symm) _ _)

/-- The entries are in strictly ascending order of path bytes and stage. -/
def Sorted (index : Index) : Prop := SortedBy IndexEntry.key index.entries

theorem sorted_empty : empty.Sorted := List.Pairwise.nil

theorem Sorted.upsert {index : Index} (h : index.Sorted) (entry : IndexEntry) :
    (index.upsert entry).Sorted := by
  rw [Sorted, entries_upsert]
  exact sortedBy_put entry h

theorem Sorted.remove {index : Index} (h : index.Sorted) (path : Text) :
    (index.remove path).Sorted := List.Pairwise.filter _ h

theorem mem_upsert {index : Index} (h : index.Sorted) {entry item : IndexEntry} :
    item ∈ (index.upsert entry).entries ↔
      item = entry ∨ item ∈ index.entries ∧ item.slot ≠ entry.slot := by
  rw [entries_upsert, mem_put h, Ne, IndexEntry.key_inj]

theorem Sorted.step {index : Index} (h : index.Sorted) (op : IndexOp) : (index.step op).Sorted := by
  cases op with
  | upsert entry => exact h.upsert entry
  | remove path => exact h.remove path

/-- **Step lemma.** Each operation does to the entries what it does to the map. -/
theorem represents_step {index : Index} {map : Text × UInt8 → Option IndexEntry}
    (hsorted : index.Sorted) (h : Represents IndexEntry.slot index.entries map) (op : IndexOp) :
    Represents IndexEntry.slot (index.step op).entries (mapStep map op) := by
  cases op with
  | upsert entry => exact represents_update (fun _ => mem_upsert hsorted) h
  | remove path => exact represents_filter (fun slot : Text × UInt8 => slot.1 = path) h

/-- **Run lemma.** The index after any sequence of operations. -/
theorem run_represents (ops : List IndexOp) :
    (run step empty ops).Sorted ∧ (run step empty ops).version = 2 ∧
      Represents IndexEntry.slot (run step empty ops).entries (run mapStep (fun _ => none) ops) := by
  suffices h : ∀ (index : Index) (map : Text × UInt8 → Option IndexEntry), index.Sorted →
      index.version = 2 → Represents IndexEntry.slot index.entries map →
      (run step index ops).Sorted ∧ (run step index ops).version = 2 ∧
        Represents IndexEntry.slot (run step index ops).entries (run mapStep map ops) from
    h empty _ sorted_empty rfl (by simp [Represents, empty])
  induction ops with
  | nil => exact fun _ _ hsorted hversion hmap => ⟨hsorted, hversion, hmap⟩
  | cons op ops ih =>
    intro index map hsorted hversion hmap
    refine ih _ _ (hsorted.step op) ?_ (represents_step hsorted hmap op)
    cases op with
    | upsert entry => exact hversion
    | remove path => exact hversion

end Index

/-! ## The file format -/

namespace IndexEntry

/-- The entry as the file keeps it: two bits of the stage. -/
def cut (entry : IndexEntry) : IndexEntry := { entry with stage := entry.stage &&& 3 }

/-- The padded record of the entry. -/
def encoded (entry : IndexEntry) : List UInt8 := entry.record ++ padding entry.record.length

theorem toNat_flags (entry : IndexEntry) :
    entry.flags.toNat = min entry.path.asBytes.length 0x0fff + 4096 * (entry.stage.toNat % 4) := by
  have hmask : (entry.stage.toUInt16 &&& 3).toNat = entry.stage.toNat % 4 := by
    rw [UInt16.toNat_and, UInt8.toNat_toUInt16]
    exact Nat.and_two_pow_sub_one_eq_mod _ 2
  have hshift : ((entry.stage.toUInt16 &&& 3) <<< 12).toNat = 2 ^ 12 * (entry.stage.toNat % 4) := by
    rw [UInt16.toNat_shiftLeft, hmask, Nat.shiftLeft_eq]
    show entry.stage.toNat % 4 * 2 ^ 12 % 2 ^ 16 = _
    omega
  have hlength : (UInt16.ofNat (min entry.path.asBytes.length 0x0fff)).toNat =
      min entry.path.asBytes.length 0x0fff := by
    rw [UInt16.toNat_ofNat']
    omega
  rw [flags, UInt16.toNat_or, hshift, hlength, Nat.or_comm,
    ← Nat.two_pow_add_eq_or_of_lt (by omega)]
  omega

/-- The stage is read back from the flags. -/
theorem stage_flags (entry : IndexEntry) :
    ((entry.flags >>> 12) &&& 3).toUInt8 = entry.stage &&& 3 := by
  have hstage : entry.stage.toNat &&& 3 = entry.stage.toNat % 4 :=
    Nat.and_two_pow_sub_one_eq_mod _ 2
  have hflags : (entry.flags.toNat / 2 ^ 12) &&& 3 = entry.flags.toNat / 2 ^ 12 % 4 :=
    Nat.and_two_pow_sub_one_eq_mod _ 2
  rw [← UInt8.toNat_inj, UInt16.toNat_toUInt8, UInt16.toNat_and, UInt16.toNat_shiftRight,
    UInt8.toNat_and]
  show (entry.flags.toNat >>> 12 &&& 3) % 2 ^ 8 = entry.stage.toNat &&& 3
  rw [Nat.shiftRight_eq_div_pow, hflags, hstage, toNat_flags]
  omega

/-- The flag of the extended format is never set. -/
theorem flags_extended (entry : IndexEntry) : entry.flags &&& 0x4000 = 0 := by
  have hlt : entry.flags.toNat < 2 ^ 14 := by
    rw [toNat_flags]
    omega
  rw [← UInt16.toNat_inj, UInt16.toNat_and]
  show entry.flags.toNat &&& 2 ^ 14 = 0
  rw [Nat.and_two_pow, Nat.testBit_lt_two_pow hlt]
  rfl

theorem length_record (entry : IndexEntry) :
    entry.record.length = 63 + entry.path.asBytes.length := by
  simp [record]
  omega

theorem length_encoded (entry : IndexEntry) :
    entry.encoded.length = (entry.record.length + 7) / 8 * 8 := by
  rw [encoded, List.length_append, padding, length_zeros]
  omega

end IndexEntry

/-- A valid path has no NUL byte. -/
theorem zero_notMem_of_validatePath {path : Text} {u : Unit} (h : validatePath path = .ok u) :
    (0 : UInt8) ∉ path.asBytes := by
  intro hmem
  have hchar : Char.ofNat 0 ∈ path := Text.mem_asBytes_of_ascii (by decide) hmem
  refine refuseIf_eq_ok.mp h ?_
  have hany : path.any Text.isControl = true := List.any_eq_true.mpr ⟨_, hchar, by decide⟩
  rw [hany, Bool.or_true]

theorem beU32_of_slice {source : List UInt8} {offset : ℕ} {v : ℕ} (hv : v < 2 ^ 32)
    (hlen : offset + 4 ≤ source.length) (h : slice source offset 4 = beBytes 4 v) :
    beU32 source offset = .ok (UInt32.ofNat v) := by
  rw [beU32, if_pos hlen, h, beNat_beBytes, Nat.mod_eq_of_lt (by omega)]

theorem beU16_of_slice {source : List UInt8} {offset : ℕ} {v : UInt16}
    (hlen : offset + 2 ≤ source.length) (h : slice source offset 2 = beBytes 2 v.toNat) :
    beU16 source offset = .ok v := by
  have hv := v.toNat_lt
  rw [beU16, if_pos hlen, h, beNat_beBytes, Nat.mod_eq_of_lt (by omega), UInt16.ofNat_toNat]

/-- **Step lemma.** The record of an entry reads back, and leaves the cursor behind it. -/
theorem parseEntry_append {entry : IndexEntry} (hvalid : validatePath entry.path = .ok ())
    (pre rest tail : List UInt8) :
    parseEntry (pre ++ (entry.encoded ++ (rest ++ tail)))
      (pre.length + (entry.encoded.length + rest.length)) 2 pre.length =
      .ok (entry.cut, pre.length + entry.encoded.length) := by
  have hfields := slices_append pre [zeros 24, beBytes 4 entry.mode.toNat, zeros 8,
    beBytes 4 entry.size.toNat, entry.id.bytes.toList, beBytes 2 entry.flags.toNat,
    entry.path.asBytes, [0], padding entry.record.length] (rest ++ tail)
  have hflatten : [zeros 24, beBytes 4 entry.mode.toNat, zeros 8,
      beBytes 4 entry.size.toNat, entry.id.bytes.toList, beBytes 2 entry.flags.toNat,
      entry.path.asBytes, [0], padding entry.record.length].flatten = entry.encoded := by
    simp [IndexEntry.encoded, IndexEntry.record]
  rw [hflatten] at hfields
  have hlength : (pre ++ (entry.encoded ++ (rest ++ tail))).length =
      pre.length + (entry.encoded.length + (rest.length + tail.length)) := by
    simp only [List.length_append]
  have hencoded : entry.encoded.length = entry.record.length + (padding entry.record.length).length :=
    List.length_append
  have hpadded := entry.length_encoded
  have hrecord := entry.length_record
  generalize pre ++ (entry.encoded ++ (rest ++ tail)) = source at *
  simp only [List.map_cons, List.map_nil, slices, length_zeros, length_beBytes,
    Vector.length_toList, List.length_singleton, List.cons.injEq, Nat.add_assoc, Nat.reduceAdd]
    at hfields
  obtain ⟨-, hmode, -, hsize, hid, hflags, hpath, hnul, hpadding, -⟩ := hfields
  have hfind : findNul source (pre.length + 62)
      (pre.length + (entry.encoded.length + rest.length)) =
      .ok (pre.length + (62 + entry.path.asBytes.length)) := by
    have hsplit : pre.length + (entry.encoded.length + rest.length) - (pre.length + 62) =
        entry.path.asBytes.length + (1 + (entry.encoded.length + rest.length -
          (63 + entry.path.asBytes.length))) := by omega
    rw [findNul, hsplit, slice_add, hpath, slice_add, Nat.add_assoc, hnul, List.singleton_append,
      findIdx?_append_cons (zero_notMem_of_validatePath hvalid)]
    show Except.ok (pre.length + 62 + entry.path.asBytes.length) = _
    rw [Nat.add_assoc]
  have hnext : pre.length + (pre.length + (62 + entry.path.asBytes.length) + 1 - pre.length + 7) / 8 * 8
      = pre.length + entry.encoded.length := by omega
  have hdecode : Text.fromUtf8 (slice source (pre.length + 62)
      (pre.length + (62 + entry.path.asBytes.length) - (pre.length + 62))) = some entry.path := by
    rw [show pre.length + (62 + entry.path.asBytes.length) - (pre.length + 62) =
      entry.path.asBytes.length by omega, hpath, Text.fromUtf8_asBytes]
  have hzero : anyNonzero (slice source (pre.length + (62 + entry.path.asBytes.length) + 1)
      (pre.length + entry.encoded.length -
        (pre.length + (62 + entry.path.asBytes.length) + 1))) = false := by
    have hwidth : pre.length + entry.encoded.length -
        (pre.length + (62 + entry.path.asBytes.length) + 1) =
        (padding entry.record.length).length := by omega
    rw [hwidth, Nat.add_assoc, Nat.add_assoc, hpadding, padding, anyNonzero_zeros]
  have hmode' := beU32_of_slice entry.mode.toNat_lt (by omega) hmode
  have hsize' := beU32_of_slice entry.size.toNat_lt (by omega) hsize
  have hflags' := beU16_of_slice (by omega) hflags
  have hskip : skipExtendedFlags 2 entry.flags (pre.length + 62)
      (pre.length + (entry.encoded.length + rest.length)) = .ok (pre.length + 62) := by
    rw [skipExtendedFlags, if_neg (not_not.mpr entry.flags_extended)]
  rw [UInt32.ofNat_toNat] at hmode' hsize'
  rw [parseEntry, refuseIf_of_not (by rw [fixedEntryLength]; omega), ok_bind, hmode', ok_bind,
    hsize', ok_bind, hflags', ok_bind]
  dsimp only [fixedEntryLength]
  rw [hskip, ok_bind, hfind, ok_bind, hdecode]
  show (validatePath entry.path >>= fun _ => _) = _
  rw [hvalid, ok_bind, hnext, hzero, refuseIf_of_not (by simp), ok_bind,
    arrayAt_of_slice hid, entry.stage_flags]
  rfl

/-- **Run lemma.** The records of a list of entries read back, in order. -/
theorem parseEntries_append {entries : List IndexEntry}
    (hvalid : ∀ entry ∈ entries, validatePath entry.path = .ok ()) (pre tail : List UInt8) :
    parseEntries (pre ++ (entries.flatMap IndexEntry.encoded ++ tail))
      (pre.length + (entries.flatMap IndexEntry.encoded).length) 2 entries.length pre.length =
      .ok (entries.map IndexEntry.cut,
        pre.length + (entries.flatMap IndexEntry.encoded).length) := by
  induction entries generalizing pre with
  | nil => rfl
  | cons entry entries ih =>
    obtain ⟨hentry, hentries⟩ := List.forall_mem_cons.mp hvalid
    have hstep := parseEntry_append hentry pre (entries.flatMap IndexEntry.encoded) tail
    have hrest := ih hentries (pre ++ entry.encoded)
    rw [List.append_assoc, List.length_append, Nat.add_assoc] at hrest
    rw [List.flatMap_cons, List.append_assoc, List.length_append, List.length_cons, parseEntries,
      hstep, ok_bind]
    dsimp only
    rw [hrest, ok_bind]
    rfl

namespace Index

theorem encode_eq {index : Index} (hlength : index.entries.length ≤ maxEntries)
    (hvalid : ∀ entry ∈ index.entries, validatePath entry.path = .ok ()) :
    index.encode = .ok (dirc ++ beBytes 4 2 ++ beBytes 4 index.entries.length ++
        index.entries.flatMap IndexEntry.encoded ++
      (Sha1.digest (dirc ++ beBytes 4 2 ++ beBytes 4 index.entries.length ++
        index.entries.flatMap IndexEntry.encoded)).toList) := by
  have hrecords : index.entries.mapM encodeEntry = .ok (index.entries.map IndexEntry.encoded) :=
    mapM_eq_ok_map fun entry hentry => by
      rw [encodeEntry, hvalid entry hentry]
      rfl
  rw [encode, refuseIf_of_not (by omega), ok_bind, hrecords, ok_bind, List.flatMap_def]
  rfl

/-- An encoded index reads back, with the stages cut to two bits. -/
theorem parse_encode {index : Index} (hlength : index.entries.length ≤ maxEntries)
    (hvalid : ∀ entry ∈ index.entries, validatePath entry.path = .ok ()) :
    (index.encode >>= parse) = .ok ⟨2, index.entries.map IndexEntry.cut⟩ := by
  set header := dirc ++ beBytes 4 2 ++ beBytes 4 index.entries.length with hheader
  set records := index.entries.flatMap IndexEntry.encoded with hrecords
  set checksum := (Sha1.digest (header ++ records)).toList with hchecksum
  have hsource : index.encode = .ok (header ++ (records ++ checksum)) := by
    rw [encode_eq hlength hvalid, List.append_assoc]
  have hentries := parseEntries_append hvalid header checksum
  have hfields := slices_append [] [dirc, beBytes 4 2, beBytes 4 index.entries.length]
    (records ++ checksum)
  have hflatten : [dirc, beBytes 4 2, beBytes 4 index.entries.length].flatten = header := by
    simp [hheader]
  have hpre : header.length = 12 := by simp [hheader, dirc]
  have hsum : checksum.length = 20 := Vector.length_toList
  have hbody : (header ++ (records ++ checksum)).length - 20 = header.length + records.length := by
    simp only [List.length_append, hsum]
    omega
  have hdigest : ¬ (Sha1.digest ((header ++ (records ++ checksum)).take
      (header.length + records.length))).toList ≠
      (header ++ (records ++ checksum)).drop (header.length + records.length) := by
    have hlen : (header ++ records).length = header.length + records.length := List.length_append
    rw [← List.append_assoc, ← hlen, List.take_left, List.drop_left, ← hchecksum]
    exact not_not.mpr rfl
  rw [hflatten, List.nil_append] at hfields
  simp only [List.length_nil, List.map_cons, List.map_nil, slices, length_beBytes,
    List.cons.injEq, Nat.zero_add] at hfields
  obtain ⟨hdirc, hversion, hcount, -⟩ := hfields
  have hversion' : beU32 (header ++ (records ++ checksum)) 4 = .ok 2 :=
    beU32_of_slice (v := 2) (by decide) (by simp only [List.length_append]; omega) hversion
  have hmagic : (header ++ (records ++ checksum)).take 4 = dirc := hdirc
  have hcount' : beU32 (header ++ (records ++ checksum)) 8 =
      .ok (UInt32.ofNat index.entries.length) :=
    beU32_of_slice (by rw [maxEntries] at hlength; omega)
      (by simp only [List.length_append]; omega) hcount
  have hcountNat : (UInt32.ofNat index.entries.length).toNat = index.entries.length := by
    rw [maxEntries] at hlength
    rw [UInt32.toNat_ofNat']
    omega
  have hextensions : parseExtensions (header ++ (records ++ checksum))
      (header.length + records.length) (header.length + records.length) = .ok () := by
    rw [parseExtensions, if_neg (lt_irrefl _)]
  rw [hsource, ok_bind, parse, refuseIf_of_not (by
    simp only [List.length_append, headerLength, checksumLength]; omega), ok_bind]
  dsimp only [checksumLength, headerLength]
  rw [hbody, refuseIf_of_not hdigest, ok_bind, refuseIf_of_not (not_not.mpr hmagic), ok_bind,
    hversion', ok_bind, refuseIf_of_not (by decide), ok_bind, hcount', ok_bind, hcountNat,
    refuseIf_of_not (by omega), ok_bind, ← hpre, hentries, ok_bind]
  dsimp only
  rw [hextensions]
  rfl

/-- The index that a sequence of operations builds. -/
def built (ops : List IndexOp) : Index := run step empty ops

theorem length_le_of_encode {index : Index} {bytes : List UInt8} (h : index.encode = .ok bytes) :
    index.entries.length ≤ maxEntries := by
  obtain ⟨_, hrefuse, _⟩ := bind_eq_ok.mp h
  exact not_lt.mp (refuseIf_eq_ok.mp hrefuse)

theorem cut_eq_self {entry : IndexEntry} : entry.cut = entry ↔ entry.stage ≤ 3 := by
  have hmask : (entry.stage &&& 3).toNat = entry.stage.toNat % 4 :=
    Nat.and_two_pow_sub_one_eq_mod _ 2
  have hcut : entry.cut = entry ↔ entry.stage &&& 3 = entry.stage := by
    rw [IndexEntry.cut, IndexEntry.ext_iff]
    simp
  rw [hcut, ← UInt8.toNat_inj, hmask, UInt8.le_iff_toNat_le]
  show entry.stage.toNat % 4 = entry.stage.toNat ↔ entry.stage.toNat ≤ 3
  omega

/-- **Main theorem.** After any sequence of operations the entries are in strictly ascending
order and are the finite map that the operations define; if their paths are valid, the index
file reads back as the same index exactly for at most `MAX_ENTRIES` entries of stages up to 3. -/
theorem index_file (ops : List IndexOp) :
    (built ops).Sorted ∧
      Represents IndexEntry.slot (built ops).entries (run mapStep (fun _ => none) ops) ∧
      ((∀ entry ∈ (built ops).entries, validatePath entry.path = .ok ()) →
        (((built ops).encode >>= parse) = .ok (built ops) ↔
          (built ops).entries.length ≤ maxEntries ∧
            ∀ entry ∈ (built ops).entries, entry.stage ≤ 3)) := by
  obtain ⟨hsorted, hversion, hmap⟩ := run_represents ops
  refine ⟨hsorted, hmap, fun hvalid => ?_⟩
  have hself : (built ops).entries.map IndexEntry.cut = (built ops).entries ↔
      ∀ entry ∈ (built ops).entries, entry.stage ≤ 3 := by
    have hmap_id := List.map_inj_left (f := IndexEntry.cut) (g := id) (l := (built ops).entries)
    rw [List.map_id] at hmap_id
    exact hmap_id.trans (forall₂_congr fun _ _ => cut_eq_self)
  have hindex : (⟨2, (built ops).entries.map IndexEntry.cut⟩ : Index) = built ops ↔
      (built ops).entries.map IndexEntry.cut = (built ops).entries := by
    rw [Index.ext_iff]
    exact and_iff_right hversion.symm
  constructor
  · intro h
    obtain ⟨bytes, hencode, _⟩ := bind_eq_ok.mp h
    have hlength := length_le_of_encode hencode
    rw [parse_encode hlength hvalid, Except.ok.injEq] at h
    exact ⟨hlength, hself.mp (hindex.mp h)⟩
  · rintro ⟨hlength, hstage⟩
    rw [parse_encode hlength hvalid, hindex.mpr (hself.mpr hstage)]

/-- An entry with a path of `n + 1` letters. -/
def letters (n : ℕ) : IndexEntry := ⟨List.replicate (n + 1) 'a', default, 0o100644, 0, 0⟩

theorem validatePath_letters (n : ℕ) : validatePath (letters n).path = .ok () := by
  have hslash : '/' ∉ List.replicate (n + 1) 'a' := by simp
  have hsplit := List.splitOn_eq_singleton hslash
  refine refuseIf_of_not ?_
  show ¬ (_ || _ || _ || _ || ((List.replicate (n + 1) 'a').splitOn '/').any badPart || _) = true
  rw [hsplit]
  simp [letters, badPart, List.replicate_succ, Text.isControl]

/-- The upserts of the first `n` such entries. -/
def lettersOps (n : ℕ) : List IndexOp := (List.range n).map fun i => .upsert (letters i)

theorem slot_letters_inj {m n : ℕ} : (letters m).slot = (letters n).slot ↔ m = n := by
  constructor
  · intro h
    have hlength := congrArg (fun slot : Text × UInt8 => slot.1.length) h
    simpa [IndexEntry.slot, letters] using hlength
  · rintro rfl
    rfl

theorem mem_built_lettersOps {n : ℕ} {entry : IndexEntry} :
    entry ∈ (built (lettersOps n)).entries ↔ ∃ i < n, entry = letters i := by
  induction n generalizing entry with
  | zero => simp [lettersOps, built, empty]
  | succ n ih =>
    have hbuilt : built (lettersOps (n + 1)) = (built (lettersOps n)).upsert (letters n) := by
      rw [built, lettersOps, List.range_succ, List.map_append, run_append]
      rfl
    have hsorted : (built (lettersOps n)).Sorted := (run_represents _).1
    rw [hbuilt, mem_upsert hsorted, ih]
    constructor
    · rintro (rfl | ⟨⟨i, hi, rfl⟩, _⟩)
      · exact ⟨n, by omega, rfl⟩
      · exact ⟨i, by omega, rfl⟩
    · rintro ⟨i, hi, rfl⟩
      by_cases hin : i = n
      · exact .inl (by rw [hin])
      · exact .inr ⟨⟨i, by omega, rfl⟩, fun h => hin (slot_letters_inj.mp h)⟩

theorem length_built_lettersOps (n : ℕ) : n ≤ (built (lettersOps n)).entries.length := by
  have hnodup : ((List.range n).map letters).Nodup := List.nodup_range.map_on fun i _ j _ h =>
    slot_letters_inj.mp (congrArg IndexEntry.slot h)
  have hsubset : (List.range n).map letters ⊆ (built (lettersOps n)).entries := by
    intro entry hentry
    obtain ⟨i, hi, rfl⟩ := List.mem_map.mp hentry
    exact mem_built_lettersOps.mpr ⟨i, List.mem_range.mp hi, rfl⟩
  have hlength := (List.subperm_of_subset hnodup hsubset).length_le
  rwa [List.length_map, List.length_range] at hlength

/-- The file of an index with two stages of one path. -/
theorem index_file_two_stages :
    ((built [.upsert { letters 0 with stage := 2 }, .upsert (letters 0)]).encode >>= parse) =
      .ok (built [.upsert { letters 0 with stage := 2 }, .upsert (letters 0)]) :=
  ((index_file [.upsert { letters 0 with stage := 2 }, .upsert (letters 0)]).2.2
    (by decide +kernel)).mpr (by decide +kernel)

/-- An entry of stage 4 reads back at stage 0, and an index of valid paths can have more entries
than `encode` writes. -/
theorem index_file_limits :
    ((∀ entry ∈ (built [.upsert { letters 0 with stage := 4 }]).entries,
        validatePath entry.path = .ok ()) ∧
      ((built [.upsert { letters 0 with stage := 4 }]).encode >>= parse) =
        .ok (built [.upsert (letters 0)]) ∧
      built [.upsert (letters 0)] ≠ built [.upsert { letters 0 with stage := 4 }]) ∧
    (∀ entry ∈ (built (lettersOps 1000001)).entries, validatePath entry.path = .ok ()) ∧
      (built (lettersOps 1000001)).encode = .error .tooManyEntries := by
  have hvalid : ∀ entry ∈ (built [.upsert { letters 0 with stage := 4 }]).entries,
      validatePath entry.path = .ok () := by decide +kernel
  refine ⟨⟨hvalid, ?_, by decide⟩, ?_, ?_⟩
  · rw [parse_encode (by decide) hvalid]
    decide
  · intro entry hentry
    obtain ⟨i, _, rfl⟩ := mem_built_lettersOps.mp hentry
    exact validatePath_letters i
  · have hlength := length_built_lettersOps 1000001
    rw [encode, refuseIf, if_pos (lt_of_lt_of_le (by decide) hlength)]
    rfl

end Index

end Mrml.Git
