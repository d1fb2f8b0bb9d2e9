import Mrml.Common.Bits
import Mrml.Common.Checked

/-!
# Bit streams of Zstandard

Model of `crates/mrml-zstd/src/bits.rs`: a reader that goes forward from the lowest bit of the first
byte, and one that goes backward from the marker in the last byte. Bytes outside of the stream are
not read: the number of bits that are left is that of the stream at most.

Results:
* `ReverseBits.new_encode`: a text of bits behind a marker is read from its first bit on.
* `Stream.peekPadded`, `Stream.consume`: what the backward reader sees and goes past.
-/

namespace Mrml.Zstd

open Bits

/-- `Error` (`lib.rs`, lines 13–34). -/
inductive Error
  | truncated
  | invalidMagic (magic : ℕ)
  | reservedHeaderBit
  | dictionaryRequired (id : ℕ)
  | reservedBlock
  | unsupportedCompressedBlock
  | invalidLiteralsSection
  | invalidSequencesSection
  | contentSizeMismatch
  | trailingData
  | allocation
  | invalidBitstream
  | invalidFseTable
  | invalidFseState
  | invalidHuffmanTree
  | invalidHuffmanStream
  | huffmanSymbolTruncated (bits remaining : ℕ)
  | invalidOffset
  | blockTooLarge
  deriving DecidableEq

/-- `(bytes[source / 8] >> (source & 7)) & 1`. -/
def bitAt (bytes : List UInt8) (source : ℕ) : ℕ :=
  ((byteAt bytes (source / 8)).toNat >>> (source % 8)) &&& 1

/-! ## Reading forward -/

/-- `ForwardBits` (lines 3–6). -/
structure ForwardBits where
  bytes : List UInt8
  position : ℕ
  deriving DecidableEq

namespace ForwardBits

/-- `new` (lines 9–11). -/
def new (bytes : List UInt8) : ForwardBits := ⟨bytes, 0⟩

/-- `consumed_bytes` (lines 12–14). -/
def consumedBytes (s : ForwardBits) : ℕ := (s.position + 7) / 8

/-- The loop of `peek` (lines 20–23), from `bit` on. -/
def peekLoop (s : ForwardBits) : ℕ → ℕ → ℕ → ℕ
  | 0, _, value => value
  | left + 1, bit, value =>
    peekLoop s left (bit + 1) (value ||| (bitAt s.bytes (s.position + bit) <<< bit))

/-- `peek` (lines 15–25). -/
def peek (s : ForwardBits) (count : ℕ) : Except Error ℕ := do
  refuseIf (count > 24 ∨ s.position + count > s.bytes.length * 8) .truncated
  return peekLoop s count 0 0

/-- `consume` (lines 31–37). -/
def consume (s : ForwardBits) (count : ℕ) : Except Error ForwardBits := do
  refuseIf (s.position + count > s.bytes.length * 8) .truncated
  return { s with position := s.position + count }

/-- `read` (lines 26–30). -/
def read (s : ForwardBits) (count : ℕ) : Except Error (ℕ × ForwardBits) := do
  let value ← s.peek count
  return (value, { s with position := s.position + count })

end ForwardBits

/-! ## Reading backward -/

/-- `ReverseBits` (lines 40–43). -/
structure ReverseBits where
  bytes : List UInt8
  remaining : ℕ
  deriving DecidableEq

namespace ReverseBits

/-- `new` (lines 46–56). -/
def new (bytes : List UInt8) : Except Error ReverseBits := do
  let last ← okOr bytes.getLast? .truncated
  refuseIf (last = 0) .invalidBitstream
  let marker := Nat.log2 last.toNat
  return ⟨bytes, (bytes.length - 1) * 8 + marker⟩

/-- The loop of `peek_padded` (lines 63–66), from `bit` on. -/
def peekLoop (s : ReverseBits) : ℕ → ℕ → ℕ → ℕ
  | 0, _, value => value
  | left + 1, bit, value =>
    peekLoop s left (bit + 1) ((value <<< 1) ||| bitAt s.bytes (s.remaining - 1 - bit))

/-- `peek_padded` (lines 60–68). -/
def peekPadded (s : ReverseBits) (count : ℕ) : ℕ :=
  let available := min count s.remaining
  peekLoop s available 0 0 <<< (count - available)

/-- `consume` (lines 69–75). -/
def consume (s : ReverseBits) (count : ℕ) : Except Error ReverseBits := do
  refuseIf (count > s.remaining) .truncated
  return { s with remaining := s.remaining - count }

/-- `read` (lines 76–84). -/
def read (s : ReverseBits) (count : ℕ) : Except Error (ℕ × ReverseBits) := do
  refuseIf (count > 24 ∨ count > s.remaining) .truncated
  return (s.peekPadded count, { s with remaining := s.remaining - count })

/-! ## What is left of a stream -/

/-- The bits that are read next, up to the beginning of the stream. -/
def Holds (bytes : List UInt8) : List Bool → Prop
  | [] => True
  | b :: w => bitAt bytes w.length = b.toNat ∧ Holds bytes w

/-- A reader that has the text before it. -/
structure Stream (s : ReverseBits) (w : List Bool) : Prop where
  remaining_eq : s.remaining = w.length
  holds : Holds s.bytes w

theorem bitAt_eq (bytes : List UInt8) (i : ℕ) :
    bitAt bytes i = ((leNat bytes).testBit i).toNat := by
  rw [testBit_leNat, bitAt, Nat.and_one_is_mod, Nat.shiftRight_eq_div_pow, Nat.toNat_testBit]
  rfl

/-- The bits of a number are those of its bytes. -/
theorem holds_of_digits {bytes : List UInt8} {w : List Bool}
    (h : digits w.length (leNat bytes) = w) : Holds bytes w := by
  induction w with
  | nil => trivial
  | cons b w ih =>
    obtain ⟨hbit, hrest⟩ := List.cons.inj h
    exact ⟨by rw [bitAt_eq, hbit], ih hrest⟩

theorem Holds.append {bytes : List UInt8} {u w : List Bool} (h : Holds bytes (u ++ w)) :
    Holds bytes w := by
  induction u with
  | nil => exact h
  | cons b u ih => exact ih h.2

variable {s : ReverseBits} {u w : List Bool}

/-- **Run lemma.** The loop reads the next bits of the text. -/
theorem peekLoop_eq {seen : List Bool} (h : Stream s (seen ++ (u ++ w))) :
    s.peekLoop u.length seen.length (value seen) = value (seen ++ u) := by
  induction u generalizing seen with
  | nil => rw [List.append_nil]; rfl
  | cons b u ih =>
    have hseen : seen ++ [b] ++ (u ++ w) = seen ++ (b :: u ++ w) := by
      rw [List.append_assoc]
      rfl
    have hbit : bitAt s.bytes (s.remaining - 1 - seen.length) = b.toNat := by
      have hlength : s.remaining - 1 - seen.length = (u ++ w).length := by
        rw [h.remaining_eq, List.length_append, List.cons_append, List.length_cons]
        omega
      rw [hlength]
      exact (Holds.append h.holds).1
    have hvalue : (value seen <<< 1) ||| b.toNat = value (seen ++ [b]) := by
      have hone : b.toNat < 2 ^ 1 := by
        have := Bool.toNat_le b
        omega
      rw [← Nat.shiftLeft_add_eq_or_of_lt hone, value_append, Nat.shiftLeft_eq]
      simp [value]
    have hnext := @ih (seen ++ [b]) (by rw [hseen]; exact h)
    rw [List.length_append, List.length_singleton] at hnext
    rw [List.length_cons, peekLoop, hbit, hvalue, hnext, List.append_assoc]
    rfl

/-- The reader sees the next bits, and zeros behind the text. -/
theorem Stream.peekPadded (h : Stream s w) (count : ℕ) :
    s.peekPadded count =
      value (w.take count ++ List.replicate (count - min count w.length) false) := by
  have hloop := @peekLoop_eq s (w.take count) (w.drop count) []
    (by rw [List.nil_append, List.take_append_drop]; exact h)
  rw [List.length_take, List.nil_append] at hloop
  rw [ReverseBits.peekPadded, h.remaining_eq, value_append, value_replicate_false,
    List.length_replicate, Nat.add_zero, Nat.shiftLeft_eq]
  exact congrArg (· * _) hloop

/-- The reader goes past the next bits. -/
theorem Stream.consume (h : Stream s (u ++ w)) :
    ∃ s', s.consume u.length = .ok s' ∧ Stream s' w := by
  have hlength := h.remaining_eq
  rw [List.length_append] at hlength
  refine ⟨{ s with remaining := s.remaining - u.length }, ?_, ?_, h.holds.append⟩
  · rw [ReverseBits.consume, refuseIf_of_not (by omega), ok_bind]
    rfl
  · show s.remaining - u.length = w.length
    omega

/-! ## The stream of a text -/

/-- The bytes of a text behind its marker. -/
def encode (w : List Bool) : List UInt8 := leBytes (w.length / 8 + 1) (value (true :: w))

theorem getLast?_leBytes (n v : ℕ) :
    (leBytes (n + 1) v).getLast? = some (UInt8.ofNat (v / 256 ^ n)) := by
  induction n generalizing v with
  | zero => simp [leBytes]
  | succ n ih =>
    have hrest := ih (v / 256)
    rw [leBytes, List.getLast?_cons, hrest, pow_succ', Nat.div_div_eq_div_mul]
    rfl

/-- A text of bits behind a marker is read from its first bit on. -/
theorem new_encode (w : List Bool) : ∃ s, new (encode w) = .ok s ∧ Stream s w := by
  have hlt := value_lt w
  have hvalue : value (true :: w) = 2 ^ w.length + value w := by
    rw [value]
    exact congrArg (· + _) (Nat.one_mul _)
  have hsplit : w.length = 8 * (w.length / 8) + w.length % 8 := (Nat.div_add_mod _ _).symm
  have hpow : 2 ^ w.length = 256 ^ (w.length / 8) * 2 ^ (w.length % 8) := by
    conv_lhs => rw [hsplit, pow_add, pow_mul]
    rfl
  have hbytes : 0 < 256 ^ (w.length / 8) := Nat.pow_pos (by decide)
  have hrest : value w / 256 ^ (w.length / 8) < 2 ^ (w.length % 8) := by
    rw [Nat.div_lt_iff_lt_mul hbytes, Nat.mul_comm, ← hpow]
    exact hlt
  have hlast : value (true :: w) / 256 ^ (w.length / 8) =
      2 ^ (w.length % 8) + value w / 256 ^ (w.length / 8) := by
    rw [hvalue, hpow, Nat.mul_add_div hbytes]
  generalize value w / 256 ^ (w.length / 8) = rest at hrest hlast
  have hbits : 2 ^ (w.length % 8) ≤ 2 ^ 7 := Nat.pow_le_pow_right (by decide) (by omega)
  have hpos := Nat.two_pow_pos (w.length % 8)
  -- the last byte has the marker and the bits that do not fill a byte
  generalize hmarker : value (true :: w) / 256 ^ (w.length / 8) = last at hlast
  have hbyte : last < 256 := by omega
  have hbyteNat : (UInt8.ofNat last).toNat = last := by
    rw [UInt8.toNat_ofNat', Nat.mod_eq_of_lt hbyte]
  have hlog : Nat.log2 last = w.length % 8 := by
    rw [Nat.log2_eq_iff (by omega), pow_succ]
    omega
  have hnat : leNat (encode w) = value (true :: w) := by
    rw [encode, leNat_leBytes, Nat.mod_eq_of_lt]
    rw [← hmarker, Nat.div_lt_iff_lt_mul hbytes] at hbyte
    rw [pow_succ']
    exact hbyte
  refine ⟨⟨encode w, w.length⟩, ?_, rfl, holds_of_digits ?_⟩
  · have hne : UInt8.ofNat last ≠ 0 := by
      intro h
      rw [h] at hbyteNat
      have hzero : (0 : UInt8).toNat = 0 := rfl
      omega
    have hlength : (encode w).length = w.length / 8 + 1 := length_leBytes _ _
    have hlast? : (encode w).getLast? = some (UInt8.ofNat last) := by
      rw [encode, getLast?_leBytes, hmarker]
    have hremaining : w.length / 8 * 8 + w.length % 8 = w.length := by omega
    rw [new, hlast?, okOr_some, ok_bind, refuseIf_of_not hne, ok_bind]
    dsimp only
    rw [hbyteNat, hlog, hlength, Nat.add_sub_cancel, hremaining]
    rfl
  · have hmod : leNat (encode w) % 2 ^ w.length = value w % 2 ^ w.length := by
      rw [hnat, hvalue, Nat.add_mod_left]
    show digits w.length (leNat (encode w)) = w
    rw [digits_congr hmod, digits_value]

end ReverseBits

end Mrml.Zstd
