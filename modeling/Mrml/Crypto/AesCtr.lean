import Mrml.Common.Bytes
import Mrml.Common.KeyStream

/-!
# AES-128 in counter mode

Model of `aes128_encrypt` and `aes128_ctr_xor` of `crates/mrml-crypto/src/aes_gcm.rs` (lines
3–129).

Results:
* `aes128CtrXor_eq_some`: the text and the counter that come out.
* `aes128CtrXor_cancel`: decryption is encryption again.
-/

namespace Mrml.Crypto

/-! ## The block cipher -/

/-- `xtime` (lines 3–5). -/
def xtime (x : UInt8) : UInt8 := (x <<< 1) ^^^ ((0x1b : UInt8) &&& ((0 : UInt8) - (x >>> 7)))

/-- `gf_mul` (lines 24–32). -/
def gfMul (a b : UInt8) : UInt8 :=
  ((List.range 8).foldl (fun (result, a, b) _ =>
    (result ^^^ (a &&& ((0 : UInt8) - (b &&& 1))), xtime a, b >>> 1)) ((0 : UInt8), a, b)).1

/-- The loop of `inverse` (lines 14–20): an exponent of eight bits takes at most eight turns. -/
def inverseLoop : ℕ → UInt8 → UInt8 → UInt8 → UInt8
  | 0, result, _, _ => result
  | turns + 1, result, base, exponent =>
    if exponent = 0 then result
    else inverseLoop turns (if exponent &&& 1 ≠ 0 then gfMul result base else result)
      (gfMul base base) (exponent >>> 1)

/-- `inverse` (lines 7–22). -/
def inverse (x : UInt8) : UInt8 := if x = 0 then 0 else inverseLoop 8 1 x 254

/-- `u8::rotate_left`. -/
def rotateLeft (x n : UInt8) : UInt8 := (x <<< n) ||| (x >>> (8 - n))

/-- `sbox` (lines 34–37). -/
def sbox (x : UInt8) : UInt8 :=
  let y := inverse x
  y ^^^ rotateLeft y 1 ^^^ rotateLeft y 2 ^^^ rotateLeft y 3 ^^^ rotateLeft y 4 ^^^ 0x63

example : sbox 0x53 = 0xed := by decide +kernel

/-- One turn of `expand_key` (lines 44–64): the next four bytes, and the round constant. -/
def expandStep (expanded : List UInt8) (rcon : UInt8) : List UInt8 × UInt8 :=
  let position := expanded.length
  let word := slice expanded (position - 4) 4
  let (word, rcon) :=
    if position &&& 15 = 0 then
      ([sbox (byteAt word 1) ^^^ rcon, sbox (byteAt word 2), sbox (byteAt word 3),
        sbox (byteAt word 0)], xtime rcon)
    else (word, rcon)
  (expanded ++ List.zipWith (· ^^^ ·) (slice expanded (position - 16) 4) word, rcon)

/-- `expand_key` (lines 39–66): 40 words behind the key. -/
def expandKey (key : List UInt8) : List UInt8 :=
  ((List.range 40).foldl (fun (expanded, rcon) _ => expandStep expanded rcon) (key, 1)).1

/-- `add_round_key` (lines 125–129). -/
def addRoundKey (state key : List UInt8) : List UInt8 :=
  (List.range 16).map fun i => byteAt state i ^^^ byteAt key i

/-- The rows of the state are rotated (lines 76–81). -/
def shiftRows (old : List UInt8) : List UInt8 :=
  (List.range 16).map fun i => byteAt old (4 * ((i / 4 + i % 4) &&& 3) + i % 4)

/-- The columns of the state are mixed (lines 82–91). -/
def mixColumns (state : List UInt8) : List UInt8 :=
  (List.range 4).flatMap fun column =>
    let a0 := byteAt state (4 * column)
    let a1 := byteAt state (4 * column + 1)
    let a2 := byteAt state (4 * column + 2)
    let a3 := byteAt state (4 * column + 3)
    [xtime a0 ^^^ (xtime a1 ^^^ a1) ^^^ a2 ^^^ a3,
      a0 ^^^ xtime a1 ^^^ (xtime a2 ^^^ a2) ^^^ a3,
      a0 ^^^ a1 ^^^ xtime a2 ^^^ (xtime a3 ^^^ a3),
      (xtime a0 ^^^ a0) ^^^ a1 ^^^ a2 ^^^ xtime a3]

/-- One round (lines 73–92). -/
def aesRound (keys state : List UInt8) (round : ℕ) : List UInt8 :=
  let state := shiftRows (state.map sbox)
  let state := if round ≠ 10 then mixColumns state else state
  addRoundKey state (slice keys (16 * round) 16)

/-- `aes128_encrypt` (lines 68–95). -/
def aes128Encrypt (key input : List UInt8) : List UInt8 :=
  let keys := expandKey key
  (List.range' 1 10).foldl (aesRound keys) (addRoundKey input (keys.take 16))

theorem length_aes128Encrypt (key input : List UInt8) : (aes128Encrypt key input).length = 16 := by
  rw [aes128Encrypt, show List.range' 1 10 = List.range' 1 9 ++ [10] from rfl, List.foldl_append]
  simp [aesRound, addRoundKey]

/-! ## Counter mode -/

/-- The key stream of `aes128_ctr_xor` (line 116). -/
def ctrStream (key : List UInt8) (counter : ℕ) : List UInt8 :=
  aes128Encrypt key (beBytes 16 counter)

/-- `aes128_ctr_xor` (lines 100–123) into an output of the length of the input. The counter is the
`u128` of its bytes. -/
def aes128CtrXor (key : List UInt8) (initialCounter : ℕ) (input : List UInt8) :
    Option (List UInt8 × ℕ) :=
  if initialCounter + blockCount input.length < 2 ^ 128 then
    some (xorStream (ctrStream key) (blockCount input.length) initialCounter input,
      initialCounter + blockCount input.length)
  else none

variable {key : List UInt8}

theorem length_ctrStream (counter : ℕ) : (ctrStream key counter).length = 16 :=
  length_aes128Encrypt _ _

theorem aes128CtrXor_eq_some {counter counter' : ℕ} {input output : List UInt8} :
    aes128CtrXor key counter input = some (output, counter') ↔
      counter' < 2 ^ 128 ∧
        output = xorStream (ctrStream key) (blockCount input.length) counter input ∧
        counter' = counter + blockCount input.length := by
  rw [aes128CtrXor]
  split_ifs with h
  · rw [Option.some_inj, Prod.mk.injEq]
    constructor
    · rintro ⟨rfl, rfl⟩
      exact ⟨h, rfl, rfl⟩
    · rintro ⟨-, rfl, rfl⟩
      exact ⟨rfl, rfl⟩
  · simp only [false_iff, not_and]
    rintro hlt - rfl
    exact absurd hlt h

/-- Decryption is encryption again, and ends at the same counter. -/
theorem aes128CtrXor_cancel {counter counter' : ℕ} {input output : List UInt8}
    (h : aes128CtrXor key counter input = some (output, counter')) :
    output.length = input.length ∧ aes128CtrXor key counter output = some (input, counter') := by
  obtain ⟨hlt, rfl, hcounter⟩ := aes128CtrXor_eq_some.mp h
  have hstream : ∀ index, (ctrStream key index).length = 16 := length_ctrStream
  have hlength := length_xorStream_all hstream counter input
  refine ⟨hlength, aes128CtrXor_eq_some.mpr ⟨hlt, ?_, ?_⟩⟩
  · rw [hlength, xorStream_cancel length_ctrStream]
  · rw [hlength, hcounter]

end Mrml.Crypto
