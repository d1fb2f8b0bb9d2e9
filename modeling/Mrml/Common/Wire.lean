import Mrml.Common.Bytes
import Mrml.Common.Checked

/-!
# Buffers as lists of fields

A canonical wire format is a list of fields of fixed widths, one after the other, some of
them tables of records of one width. `slices` cuts a buffer into such fields;
`RecordFormat` is a record with its two round trips.

Results:
* `slices_flatten`, `eq_flatten_slices`: fields can be cut from a buffer and put together.
* `patch_flatten`, `writeEach_eq`: writing into a zeroed buffer fills in its fields.
* `readRecords_writeRecords`, `writeRecords_readRecords`: the round trips of a table.
-/

namespace Mrml

/-- `len` zero bytes. -/
def zeros (len : ℕ) : List UInt8 := List.replicate len 0

@[simp] theorem length_zeros (len : ℕ) : (zeros len).length = len := List.length_replicate

theorem zeros_add (m n : ℕ) : zeros (m + n) = zeros m ++ zeros n := List.replicate_add _ _ _

theorem flatten_zeros (widths : List ℕ) : (widths.map zeros).flatten = zeros widths.sum := by
  induction widths with
  | nil => rfl
  | cons width widths ih =>
    rw [List.map_cons, List.flatten_cons, ih, List.sum_cons, zeros_add]

/-- A field without a set bit is zero. -/
theorem eq_zeros_of_anyNonzero {field : List UInt8} {len : ℕ} (hlen : field.length = len)
    (h : anyNonzero field = false) : field = zeros len := by
  rw [anyNonzero, List.any_eq_false] at h
  exact List.eq_replicate_iff.mpr ⟨hlen, fun b hb => by simpa using h b hb⟩

@[simp] theorem anyNonzero_zeros (len : ℕ) : anyNonzero (zeros len) = false := by
  rw [anyNonzero, List.any_eq_false]
  intro b hb
  rw [List.eq_of_mem_replicate hb]
  decide

/-- A field that has passed its check is zero. -/
theorem slice_eq_zeros {input : List UInt8} {off len : ℕ} {ε : Type} {error : ε} {u : Unit}
    (h : refuseIf (anyNonzero (slice input off len) = true) error = .ok u)
    (hlen : off + len ≤ input.length) : slice input off len = zeros len :=
  eq_zeros_of_anyNonzero (length_slice hlen) (Bool.eq_false_of_not_eq_true (refuseIf_eq_ok.mp h))

/-! ## Cutting -/

/-- The consecutive fields of the given widths, from `off`. -/
def slices (input : List UInt8) : ℕ → List ℕ → List (List UInt8)
  | _, [] => []
  | off, width :: widths => slice input off width :: slices input (off + width) widths

theorem slice_add (input : List UInt8) (off m n : ℕ) :
    slice input off (m + n) = slice input off m ++ slice input (off + m) n := by
  rw [slice, slice, slice, List.take_add, List.drop_drop]

theorem flatten_slices (input : List UInt8) (off : ℕ) (widths : List ℕ) :
    (slices input off widths).flatten = slice input off widths.sum := by
  induction widths generalizing off with
  | nil => rw [slices, List.flatten_nil, List.sum_nil, slice, List.take_zero]
  | cons width widths ih => rw [slices, List.flatten_cons, ih, List.sum_cons, slice_add]

/-- A buffer is made of its fields. -/
theorem eq_flatten_slices {input : List UInt8} {widths : List ℕ}
    (h : input.length = widths.sum) : input = (slices input 0 widths).flatten := by
  rw [flatten_slices, slice, List.drop_zero, ← h, List.take_length]

theorem slice_append (pre field post : List UInt8) :
    slice (pre ++ (field ++ post)) pre.length field.length = field := by
  rw [slice, List.drop_left, List.take_left]

/-- The fields that a buffer is made of are cut from it. -/
theorem slices_append (pre : List UInt8) (fields : List (List UInt8)) (post : List UInt8) :
    slices (pre ++ (fields.flatten ++ post)) pre.length (fields.map List.length) = fields := by
  induction fields generalizing pre with
  | nil => rfl
  | cons field fields ih =>
    have hrest := ih (pre ++ field)
    rw [List.length_append, List.append_assoc] at hrest
    rw [List.flatten_cons, List.append_assoc, List.map_cons, slices, slice_append, hrest]

theorem slices_flatten (fields : List (List UInt8)) :
    slices fields.flatten 0 (fields.map List.length) = fields := by
  have h := slices_append [] fields []
  rwa [List.nil_append, List.append_nil] at h

theorem slice_one {input : List UInt8} {off : ℕ} (h : off < input.length) :
    slice input off 1 = [byteAt input off] := by
  rw [slice, byteAt, List.drop_eq_getElem_cons h, List.take_succ_cons, List.take_zero,
    List.getD_eq_getElem _ _ h]

/-! ## Little-endian fields -/

theorem leNat_lt (field : List UInt8) : leNat field < 256 ^ field.length := by
  induction field with
  | nil => exact Nat.one_pos
  | cons b field ih =>
    have hb := b.toNat_lt
    rw [leNat, List.length_cons, pow_succ']
    omega

theorem leBytes_leNat {field : List UInt8} {len : ℕ} (hlen : field.length = len) :
    leBytes len (leNat field) = field := by
  subst hlen
  induction field with
  | nil => rfl
  | cons b field ih =>
    have hb := b.toNat_lt
    have hdiv : (b.toNat + 256 * leNat field) / 256 = leNat field := by omega
    have hmod : UInt8.ofNat (b.toNat + 256 * leNat field) = b := by
      rw [← UInt8.toNat_inj, UInt8.toNat_ofNat']
      omega
    rw [List.length_cons, leBytes, leNat, hdiv, ih, hmod]

theorem beBytes_beNat {field : List UInt8} {len : ℕ} (hlen : field.length = len) :
    beBytes len (beNat field) = field := by
  rw [beBytes, beNat, leBytes_leNat (by rw [List.length_reverse, hlen]), List.reverse_reverse]

theorem beNat_lt (field : List UInt8) : beNat field < 256 ^ field.length := by
  have hlt := leNat_lt field.reverse
  rwa [List.length_reverse] at hlt

theorem leBytes_readU16 {input : List UInt8} {off : ℕ} (h : off + 2 ≤ input.length) :
    leBytes 2 (readU16 input off).toNat = slice input off 2 := by
  have hlen := length_slice h
  have hlt := leNat_lt (slice input off 2)
  rw [hlen] at hlt
  rw [readU16, UInt16.toNat_ofNat', Nat.mod_eq_of_lt (by omega), leBytes_leNat hlen]

theorem leBytes_readU32 {input : List UInt8} {off : ℕ} (h : off + 4 ≤ input.length) :
    leBytes 4 (readU32 input off).toNat = slice input off 4 := by
  have hlen := length_slice h
  have hlt := leNat_lt (slice input off 4)
  rw [hlen] at hlt
  rw [readU32, UInt32.toNat_ofNat', Nat.mod_eq_of_lt (by omega), leBytes_leNat hlen]

theorem leBytes_readU64 {input : List UInt8} {off : ℕ} (h : off + 8 ≤ input.length) :
    leBytes 8 (readU64 input off).toNat = slice input off 8 := by
  have hlen := length_slice h
  have hlt := leNat_lt (slice input off 8)
  rw [hlen] at hlt
  rw [readU64, UInt64.toNat_ofNat', Nat.mod_eq_of_lt (by omega), leBytes_leNat hlen]

/-- A `u16` reads back from its little-endian bytes. -/
theorem readU16_of_slice {input : List UInt8} {off : ℕ} {v : UInt16}
    (h : slice input off 2 = leBytes 2 v.toNat) : readU16 input off = v := by
  have hv := v.toNat_lt
  rw [readU16, h, leNat_leBytes, Nat.mod_eq_of_lt (by omega)]
  exact UInt16.ofNat_toNat

/-! ## Writing -/

/-- A write of one field. -/
theorem patch_append {field src : List UInt8} (pre post : List UInt8)
    (h : field.length = src.length) :
    patch (pre ++ (field ++ post)) pre.length src = pre ++ (src ++ post) := by
  rw [patch, List.take_left, List.append_assoc, ← List.append_assoc pre field post,
    List.drop_left' (by rw [List.length_append, h])]

/-- A buffer around its field `i`. -/
theorem flatten_eq_append {fields : List (List UInt8)} {i : ℕ} (hi : i < fields.length) :
    fields.flatten =
      (fields.take i).flatten ++ (fields.getD i [] ++ (fields.drop (i + 1)).flatten) := by
  conv_lhs => rw [← List.take_append_drop i fields]
  rw [List.flatten_append, List.drop_eq_getElem_cons hi, List.flatten_cons,
    List.getD_eq_getElem _ _ hi]

theorem flatten_set {fields : List (List UInt8)} {i : ℕ} (hi : i < fields.length)
    (src : List UInt8) : (fields.set i src).flatten =
      (fields.take i).flatten ++ (src ++ (fields.drop (i + 1)).flatten) := by
  rw [List.set_eq_take_append_cons_drop, if_pos hi, List.flatten_append, List.flatten_cons]

/-- A write of one field, which has the width of the field. -/
theorem patch_flatten {fields : List (List UInt8)} {widths : List ℕ}
    (hwidths : fields.map List.length = widths) {src : List UInt8} {i : ℕ}
    (hi : i < widths.length) (hlen : src.length = widths.getD i 0) :
    patch fields.flatten (widths.take i).sum src = (fields.set i src).flatten ∧
      (fields.set i src).map List.length = widths := by
  subst hwidths
  have hset : (fields.map List.length).set i src.length = fields.map List.length := by
    rw [hlen, List.getD_eq_getElem _ _ hi, List.set_getElem_self]
  rw [← List.length_nil (α := UInt8), List.getD_map] at hlen
  rw [List.length_map] at hi
  constructor
  · rw [flatten_eq_append hi, flatten_set hi, ← List.map_take, ← List.length_flatten,
      patch_append _ _ hlen.symm]
  · rw [List.map_set, hset]

/-- Writes of whole fields, given by their numbers, into a buffer. -/
theorem foldl_patch_flatten (fields : List (List UInt8)) (widths : List ℕ)
    (hwidths : fields.map List.length = widths) (writes : List (ℕ × List UInt8))
    (h : ∀ write ∈ writes, write.1 < widths.length ∧ write.2.length = widths.getD write.1 0) :
    writes.foldl (fun output write => patch output (widths.take write.1).sum write.2)
        fields.flatten =
      (writes.foldl (fun fields write => fields.set write.1 write.2) fields).flatten := by
  induction writes generalizing fields with
  | nil => rfl
  | cons write writes ih =>
    obtain ⟨⟨hi, hlen⟩, hrest⟩ := List.forall_mem_cons.mp h
    obtain ⟨hpatch, hwidths'⟩ := patch_flatten hwidths hi hlen
    rw [List.foldl_cons, List.foldl_cons, hpatch, ih _ hwidths' hrest]

section Records

variable {α ε : Type}

/-- `for (index, item) in items.enumerate()`: writes the items one after the other. -/
def writeEach (put : List UInt8 → ℕ → α → List UInt8) (width : ℕ) :
    List UInt8 → ℕ → List α → List UInt8
  | output, _, [] => output
  | output, off, item :: items => writeEach put width (put output off item) (off + width) items

/-- Each item fills its part of a zeroed table. -/
theorem writeEach_eq {put : List UInt8 → ℕ → α → List UInt8} {width : ℕ} {wire : α → List UInt8}
    (hput : ∀ pre post item,
      put (pre ++ (zeros width ++ post)) pre.length item = pre ++ (wire item ++ post))
    (hwire : ∀ item, (wire item).length = width) (pre post : List UInt8) (items : List α) :
    writeEach put width (pre ++ (zeros (items.length * width) ++ post)) pre.length items =
      pre ++ ((items.map wire).flatten ++ post) := by
  induction items generalizing pre with
  | nil =>
    rw [writeEach, List.length_nil, Nat.zero_mul]
    rfl
  | cons item items ih =>
    have hrest := ih (pre ++ wire item)
    rw [List.length_append, hwire, List.append_assoc] at hrest
    rw [List.length_cons, Nat.succ_mul, Nat.add_comm, zeros_add, List.append_assoc, writeEach, hput,
      hrest, List.append_assoc, List.map_cons, List.flatten_cons, List.append_assoc]

/-- The items fill one field of a buffer. -/
theorem writeEach_flatten {put : List UInt8 → ℕ → α → List UInt8} {width : ℕ}
    {wire : α → List UInt8}
    (hput : ∀ pre post item,
      put (pre ++ (zeros width ++ post)) pre.length item = pre ++ (wire item ++ post))
    (hwire : ∀ item, (wire item).length = width) {fields : List (List UInt8)} {items : List α}
    {off i : ℕ} (hi : i < fields.length) (hoff : ((fields.take i).map List.length).sum = off)
    (hfield : fields.getD i [] = zeros (items.length * width)) :
    writeEach put width fields.flatten off items =
      (fields.set i (items.map wire).flatten).flatten := by
  rw [flatten_eq_append hi, flatten_set hi, ← hoff, ← List.length_flatten, hfield,
    writeEach_eq hput hwire]

/-- `if let Some(item) = item`: writes the item if there is one. -/
def writeOption (put : List UInt8 → ℕ → α → List UInt8) (output : List UInt8) (off : ℕ) :
    Option α → List UInt8
  | none => output
  | some item => put output off item

/-- An optional item is a table of at most one. -/
theorem writeOption_eq (put : List UInt8 → ℕ → α → List UInt8) (width : ℕ) (output : List UInt8)
    (off : ℕ) (item : Option α) :
    writeOption put output off item = writeEach put width output off item.toList := by
  cases item <;> rfl

/-- Records of one width, with one encoding each. -/
structure RecordFormat (ε α : Type) where
  width : ℕ
  write : α → List UInt8
  read : List UInt8 → Except ε α
  length_write : ∀ item, (write item).length = width
  read_write : ∀ item, read (write item) = .ok item
  write_read : ∀ {record item}, record.length = width → read record = .ok item →
    write item = record

namespace RecordFormat

variable (fmt : RecordFormat ε α)

/-- The records of a table, one after the other. -/
def writeRecords (items : List α) : List UInt8 := (items.map fmt.write).flatten

/-- Reads `count` records from `off`. -/
def readRecords (input : List UInt8) : ℕ → ℕ → Except ε (List α)
  | _, 0 => .ok []
  | off, count + 1 => do
    let item ← fmt.read (slice input off fmt.width)
    let items ← readRecords input (off + fmt.width) count
    return item :: items

theorem writeRecords_cons (item : α) (items : List α) :
    fmt.writeRecords (item :: items) = fmt.write item ++ fmt.writeRecords items := rfl

@[simp] theorem length_writeRecords (items : List α) :
    (fmt.writeRecords items).length = items.length * fmt.width := by
  induction items with
  | nil => rw [List.length_nil, Nat.zero_mul]; rfl
  | cons item items ih =>
    rw [writeRecords_cons, List.length_append, ih, fmt.length_write, List.length_cons, Nat.succ_mul,
      Nat.add_comm]

/-- A table reads back as it was written. -/
theorem readRecords_writeRecords {input : List UInt8} {off : ℕ} {items : List α}
    (h : slice input off (items.length * fmt.width) = fmt.writeRecords items) :
    fmt.readRecords input off items.length = .ok items := by
  induction items generalizing off with
  | nil => rfl
  | cons item items ih =>
    rw [List.length_cons, Nat.succ_mul, Nat.add_comm, slice_add, writeRecords_cons] at h
    have hlen : (slice input off fmt.width).length = (fmt.write item).length := by
      have htotal := congrArg List.length h
      have hle : (slice input off fmt.width).length ≤ fmt.width := List.length_take_le _ _
      have hle' : (slice input (off + fmt.width) (items.length * fmt.width)).length ≤
        items.length * fmt.width := List.length_take_le _ _
      rw [List.length_append, List.length_append, length_writeRecords] at htotal
      have := fmt.length_write item
      omega
    obtain ⟨hitem, hitems⟩ := List.append_inj h hlen
    rw [List.length_cons, readRecords, hitem, fmt.read_write]
    show (fmt.readRecords input (off + fmt.width) items.length >>= _) = _
    rw [ih hitems]
    rfl

theorem length_of_readRecords {input : List UInt8} {off count : ℕ} {items : List α}
    (h : fmt.readRecords input off count = .ok items) : items.length = count := by
  induction count generalizing off items with
  | zero =>
    obtain rfl := Except.ok.inj h
    rfl
  | succ count ih =>
    rw [readRecords] at h
    obtain ⟨item, -, h⟩ := bind_eq_ok.mp h
    obtain ⟨rest, hrest, h⟩ := bind_eq_ok.mp h
    obtain rfl := Except.ok.inj h
    rw [List.length_cons, ih hrest]

/-- A table that has been read is what its records are written as. -/
theorem writeRecords_readRecords {input : List UInt8} {off count : ℕ} {items : List α}
    (hlen : off + count * fmt.width ≤ input.length)
    (h : fmt.readRecords input off count = .ok items) :
    items.length = count ∧ fmt.writeRecords items = slice input off (count * fmt.width) := by
  refine ⟨fmt.length_of_readRecords h, ?_⟩
  induction count generalizing off items with
  | zero =>
    obtain rfl := Except.ok.inj h
    rw [Nat.zero_mul, slice, List.take_zero]
    rfl
  | succ count ih =>
    rw [Nat.succ_mul] at hlen ⊢
    rw [readRecords] at h
    obtain ⟨item, hitem, h⟩ := bind_eq_ok.mp h
    obtain ⟨rest, hrest, h⟩ := bind_eq_ok.mp h
    obtain rfl := Except.ok.inj h
    have hwrite := ih (by omega) hrest
    have hrecord := fmt.write_read (length_slice (by omega)) hitem
    rw [writeRecords_cons, hwrite, hrecord, Nat.add_comm (count * fmt.width), slice_add]

end RecordFormat

end Records

end Mrml
