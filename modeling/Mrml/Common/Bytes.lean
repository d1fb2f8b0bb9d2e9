import Mathlib

/-!
# Byte buffers

Byte strings and byte arrays are `List UInt8`. This file has the fixed-offset
reads and writes that wire formats use (`slice`, `patch`) and the little-endian
integers (`to_le_bytes`, `from_le_bytes`) and big-endian ones, with the lemmas that make a field
written at one offset readable there and invisible elsewhere.
-/

namespace Mrml

/-- `&input[off..off + len]`. -/
def slice (input : List UInt8) (off len : ℕ) : List UInt8 := (input.drop off).take len

/-- `output[off..off + src.len()].copy_from_slice(src)`. -/
def patch (output : List UInt8) (off : ℕ) (src : List UInt8) : List UInt8 :=
  output.take off ++ src ++ output.drop (off + src.length)

/-- `from_le_bytes`, as a natural number. -/
def leNat : List UInt8 → ℕ
  | [] => 0
  | b :: bs => b.toNat + 256 * leNat bs

/-- `to_le_bytes` of the low `n` bytes. -/
def leBytes : ℕ → ℕ → List UInt8
  | 0, _ => []
  | n + 1, v => UInt8.ofNat v :: leBytes n (v / 256)

/-- `u16::from_le_bytes(input[off..off + 2])`. -/
def readU16 (input : List UInt8) (off : ℕ) : UInt16 := UInt16.ofNat (leNat (slice input off 2))

/-- `u32::from_le_bytes(input[off..off + 4])`. -/
def readU32 (input : List UInt8) (off : ℕ) : UInt32 := UInt32.ofNat (leNat (slice input off 4))

/-- `u64::from_le_bytes(input[off..off + 8])`. -/
def readU64 (input : List UInt8) (off : ℕ) : UInt64 := UInt64.ofNat (leNat (slice input off 8))

/-- `input[off]`. -/
def byteAt (input : List UInt8) (off : ℕ) : UInt8 := input.getD off 0

/-- `input[off..off + n].try_into().unwrap()`. -/
def arrayAt (input : List UInt8) (off n : ℕ) : Vector UInt8 n :=
  Vector.ofFn fun i => byteAt (slice input off n) i

/-- `from_be_bytes`, as a natural number. -/
def beNat (input : List UInt8) : ℕ := leNat input.reverse

/-- `to_be_bytes` of the low `n` bytes. -/
def beBytes (n v : ℕ) : List UInt8 := (leBytes n v).reverse

/-- `input.iter().any(|byte| *byte != 0)`. -/
def anyNonzero (input : List UInt8) : Bool := input.any (· != 0)

/-! ## Little-endian integers -/

@[simp] theorem length_leBytes (n v : ℕ) : (leBytes n v).length = n := by
  induction n generalizing v with
  | zero => rfl
  | succ n ih => rw [leBytes, List.length_cons, ih]

theorem leNat_leBytes (n v : ℕ) : leNat (leBytes n v) = v % 256 ^ n := by
  induction n generalizing v with
  | zero => simp [leBytes, leNat, Nat.mod_one]
  | succ n ih =>
    have hbyte : (UInt8.ofNat v).toNat = v % 256 := by simp
    rw [leBytes, leNat, ih, hbyte, pow_succ', Nat.mod_mul]

@[simp] theorem length_beBytes (n v : ℕ) : (beBytes n v).length = n := by
  rw [beBytes, List.length_reverse, length_leBytes]

theorem beNat_beBytes (n v : ℕ) : beNat (beBytes n v) = v % 256 ^ n := by
  rw [beNat, beBytes, List.reverse_reverse, leNat_leBytes]

/-- A `u32` reads back from its little-endian bytes. -/
theorem readU32_of_slice {input : List UInt8} {off : ℕ} {v : UInt32}
    (h : slice input off 4 = leBytes 4 v.toNat) : readU32 input off = v := by
  have hv := v.toNat_lt
  rw [readU32, h, leNat_leBytes, Nat.mod_eq_of_lt (by omega)]
  exact UInt32.ofNat_toNat

/-- A `u64` reads back from its little-endian bytes. -/
theorem readU64_of_slice {input : List UInt8} {off : ℕ} {v : UInt64}
    (h : slice input off 8 = leBytes 8 v.toNat) : readU64 input off = v := by
  have hv := v.toNat_lt
  rw [readU64, h, leNat_leBytes, Nat.mod_eq_of_lt (by omega)]
  exact UInt64.ofNat_toNat

/-- What precedes the first separator, and what follows it. -/
theorem append_cons_inj_of_notMem {α : Type*} {field field' rest rest' : List α} {a : α}
    (h : a ∉ field) (h' : a ∉ field') (heq : field ++ a :: rest = field' ++ a :: rest') :
    field = field' ∧ rest = rest' := by
  induction field generalizing field' with
  | nil =>
    cases field' with
    | nil => exact ⟨rfl, (List.cons.inj heq).2⟩
    | cons b field' => exact absurd (List.cons.inj heq).1 (List.ne_of_not_mem_cons h')
  | cons b field ih =>
    cases field' with
    | nil => exact absurd (List.cons.inj heq).1.symm (List.ne_of_not_mem_cons h)
    | cons b' field' =>
      obtain ⟨rfl, htail⟩ := List.cons.inj heq
      obtain ⟨rfl, hrest⟩ := ih (List.not_mem_of_not_mem_cons h)
        (List.not_mem_of_not_mem_cons h') htail
      exact ⟨rfl, hrest⟩

/-- The first separator after a field that has none. -/
theorem findIdx?_append_cons {field rest : List UInt8} {a : UInt8} (h : a ∉ field) :
    (field ++ a :: rest).findIdx? (· == a) = some field.length := by
  induction field with
  | nil => rw [List.nil_append, List.findIdx?_cons, beq_self_eq_true]; rfl
  | cons byte field ih =>
    have hne : (byte == a) = false := by simpa using Ne.symm (List.ne_of_not_mem_cons h)
    rw [List.cons_append, List.findIdx?_cons, hne, ih (List.not_mem_of_not_mem_cons h)]
    rfl

/-! ## Fields of a buffer -/

theorem length_slice {input : List UInt8} {off len : ℕ} (h : off + len ≤ input.length) :
    (slice input off len).length = len := by
  simp [slice]
  omega

theorem length_patch {output src : List UInt8} {off : ℕ}
    (h : off + src.length ≤ output.length) : (patch output off src).length = output.length := by
  simp [patch]
  omega

theorem length_patch_of_eq {output : List UInt8} {n : ℕ} (off : ℕ) (src : List UInt8)
    (hn : output.length = n)
    (h : off + src.length ≤ n) : (patch output off src).length = n := by
  rw [length_patch (by omega), hn]

/-- A field reads back as it was written. -/
theorem slice_patch_self {output src : List UInt8} {off len : ℕ}
    (hlen : len = src.length) (h : off + len ≤ output.length) :
    slice (patch output off src) off len = src := by
  subst hlen
  have htake : (output.take off).length = off := by
    rw [List.length_take]
    omega
  rw [slice, patch, List.append_assoc, List.drop_left' htake, List.take_left' rfl]

/-- A write leaves the fields before it as they were. -/
theorem slice_patch_before {output src : List UInt8} {off off' len : ℕ} (h : off' + len ≤ off)
    (hoff : off ≤ output.length) : slice (patch output off src) off' len = slice output off' len := by
  have htake : (output.take off).length = off := by
    rw [List.length_take]
    omega
  rw [slice, patch, List.append_assoc, List.drop_append_of_le_length (by omega),
    List.take_append_of_le_length (by rw [List.length_drop]; omega), slice, List.drop_take,
    List.take_take, Nat.min_eq_left (by omega)]

/-- A write leaves the fields after it as they were. -/
theorem slice_patch_after {output src : List UInt8} {off off' len : ℕ}
    (h : off + src.length ≤ off') (hoff : off + src.length ≤ output.length) :
    slice (patch output off src) off' len = slice output off' len := by
  have htake : (output.take off ++ src).length = off + src.length := by
    rw [List.length_append, List.length_take]
    omega
  have hoff' : off' = (output.take off ++ src).length + (off' - (off + src.length)) := by omega
  rw [slice, patch, hoff', List.drop_length_add_append, List.drop_drop, ← hoff', slice]
  congr 2
  omega

/-- A write is invisible to the fields it does not touch. -/
theorem slice_patch_of_disjoint {output src : List UInt8} {off off' len : ℕ}
    (hoff : off + src.length ≤ output.length)
    (h : off' + len ≤ off ∨ off + src.length ≤ off') :
    slice (patch output off src) off' len = slice output off' len := by
  rcases h with h | h
  · exact slice_patch_before h (by omega)
  · exact slice_patch_after h hoff

/-- A field inside a field. -/
theorem slice_slice {input : List UInt8} {off len off' len' : ℕ} (h : off' + len' ≤ len) :
    slice (slice input off len) off' len' = slice input (off + off') len' := by
  rw [slice, slice, slice, List.drop_take, List.drop_drop, List.take_take,
    Nat.min_eq_left (by omega)]

theorem toList_ofFn_byteAt {n : ℕ} {bytes : List UInt8} (h : bytes.length = n) :
    (Vector.ofFn fun i : Fin n => byteAt bytes i).toList = bytes := by
  refine List.ext_getElem (by rw [Vector.length_toList, h]) fun i hi hi' => ?_
  rw [Vector.getElem_toList, Vector.getElem_ofFn, byteAt, List.getD_eq_getElem _ _ hi']

theorem toList_arrayAt {input : List UInt8} {off n : ℕ} (h : off + n ≤ input.length) :
    (arrayAt input off n).toList = slice input off n := toList_ofFn_byteAt (length_slice h)

/-- An array reads back from its bytes. -/
theorem arrayAt_of_slice {input : List UInt8} {off n : ℕ} {v : Vector UInt8 n}
    (h : slice input off n = v.toList) : arrayAt input off n = v := by
  rw [← Vector.toList_inj, arrayAt, h, toList_ofFn_byteAt v.length_toList]

theorem byteAt_of_slice {input : List UInt8} {off : ℕ} {b : UInt8} (h : slice input off 1 = [b]) :
    byteAt input off = b := by
  have hhead := congrArg List.head? h
  rw [slice, List.head?_take, if_neg (by decide), List.head?_drop] at hhead
  rw [byteAt, List.getD_eq_getElem?_getD, hhead]
  rfl

end Mrml
