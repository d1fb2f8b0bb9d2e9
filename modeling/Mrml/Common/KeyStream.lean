import Mathlib

/-!
# Key streams

A stream cipher combines the blocks of a text with the blocks of a key stream by exclusive or.
A block has 16 bytes; the last block of a text can be shorter.

Results:
* `xorStream_xorStream`: the key stream cancels itself.
* `take_xorStream`: the first block of a text is treated as it is alone.
-/

namespace Mrml

/-- Combines this many blocks of the text with the key stream from a block on. -/
def xorStream (stream : ℕ → List UInt8) : ℕ → ℕ → List UInt8 → List UInt8
  | 0, _, _ => []
  | blocks + 1, index, input =>
    List.zipWith (· ^^^ ·) (input.take 16) (stream index) ++
      xorStream stream blocks (index + 1) (input.drop 16)

/-- `len.div_ceil(16)`. -/
def blockCount (len : ℕ) : ℕ := (len + 15) / 16

theorem le_blockCount (len : ℕ) : len ≤ 16 * blockCount len := by
  rw [blockCount]
  omega

/-- One block under the key stream twice is the block. -/
theorem zipWith_xor_cancel {input stream : List UInt8} (h : input.length ≤ stream.length) :
    List.zipWith (· ^^^ ·) (List.zipWith (· ^^^ ·) input stream) stream = input := by
  induction input generalizing stream with
  | nil => rfl
  | cons byte input ih =>
    cases stream with
    | nil => exact absurd h (by simp)
    | cons mask stream =>
      rw [List.zipWith_cons_cons, List.zipWith_cons_cons, ih (by simpa using h), UInt8.xor_assoc,
        UInt8.xor_self, UInt8.xor_zero]

/-- The comparison of a tag with itself in constant time. -/
theorem foldl_or_xor_self (tag : List UInt8) :
    (List.zipWith (· ^^^ ·) tag tag).foldl (· ||| ·) 0 = (0 : UInt8) := by
  induction tag with
  | nil => rfl
  | cons byte tag ih =>
    rw [List.zipWith_cons_cons, List.foldl_cons, UInt8.xor_self, UInt8.or_self]
    exact ih

section Stream

variable {stream : ℕ → List UInt8} (hstream : ∀ index, (stream index).length = 16)

include hstream

theorem length_block (index : ℕ) (input : List UInt8) :
    (List.zipWith (· ^^^ ·) (input.take 16) (stream index)).length = min 16 input.length := by
  rw [List.length_zipWith, List.length_take, hstream]
  omega

theorem length_xorStream (blocks index : ℕ) (input : List UInt8) :
    (xorStream stream blocks index input).length = min (16 * blocks) input.length := by
  induction blocks generalizing index input with
  | zero => simp [xorStream]
  | succ blocks ih =>
    rw [xorStream, List.length_append, length_block hstream, ih, List.length_drop]
    omega

/-- All blocks of a text together are as long as the text. -/
theorem length_xorStream_all (index : ℕ) (input : List UInt8) :
    (xorStream stream (blockCount input.length) index input).length = input.length := by
  have hle := le_blockCount input.length
  rw [length_xorStream hstream]
  omega

theorem take_xorStream_succ (blocks index : ℕ) (input : List UInt8) :
    (xorStream stream (blocks + 1) index input).take 16 =
      List.zipWith (· ^^^ ·) (input.take 16) (stream index) := by
  have hblock := length_block hstream index input
  have hrest := length_xorStream hstream blocks (index + 1) (input.drop 16)
  rw [List.length_drop] at hrest
  rw [xorStream, List.take_append]
  by_cases h : 16 ≤ input.length
  · rw [List.take_of_length_le (by omega), hblock, show 16 - min 16 input.length = 0 by omega,
      List.take_zero, List.append_nil]
  · have hnil := List.length_eq_zero_iff.mp
      (show (xorStream stream blocks (index + 1) (input.drop 16)).length = 0 by omega)
    rw [List.take_of_length_le (by omega), hnil, List.take_nil, List.append_nil]

theorem drop_xorStream_succ (blocks index : ℕ) (input : List UInt8) :
    (xorStream stream (blocks + 1) index input).drop 16 =
      xorStream stream blocks (index + 1) (input.drop 16) := by
  have hblock := length_block hstream index input
  have hrest := length_xorStream hstream blocks (index + 1) (input.drop 16)
  rw [List.length_drop] at hrest
  rw [xorStream, List.drop_append]
  by_cases h : 16 ≤ input.length
  · rw [List.drop_of_length_le (by omega), hblock, show 16 - min 16 input.length = 0 by omega,
      List.drop_zero, List.nil_append]
  · have hnil := List.length_eq_zero_iff.mp
      (show (xorStream stream blocks (index + 1) (input.drop 16)).length = 0 by omega)
    rw [List.drop_of_length_le (by omega), hnil, List.drop_nil, List.append_nil]

/-- The key stream cancels itself. -/
theorem xorStream_xorStream (blocks index : ℕ) (input : List UInt8) :
    xorStream stream blocks index (xorStream stream blocks index input) =
      input.take (16 * blocks) := by
  induction blocks generalizing index input with
  | zero => simp [xorStream]
  | succ blocks ih =>
    have hle : (input.take 16).length ≤ (stream index).length := by
      rw [List.length_take, hstream]
      omega
    rw [xorStream, take_xorStream_succ hstream, drop_xorStream_succ hstream,
      zipWith_xor_cancel hle, ih, show 16 * (blocks + 1) = 16 + 16 * blocks by ring,
      List.take_add]

/-- All blocks of a text under the key stream twice are the text. -/
theorem xorStream_cancel (index : ℕ) (input : List UInt8) :
    xorStream stream (blockCount input.length) index
      (xorStream stream (blockCount input.length) index input) = input := by
  rw [xorStream_xorStream hstream, List.take_of_length_le (le_blockCount input.length)]

/-- The first block of a text is treated as it is alone. -/
theorem take_xorStream (blocks index : ℕ) (input : List UInt8) :
    (xorStream stream (blocks + 1) index input).take 16 =
      xorStream stream 1 index (input.take 16) := by
  rw [take_xorStream_succ hstream, xorStream, xorStream, List.append_nil, List.take_take,
    Nat.min_self]

end Stream

end Mrml
