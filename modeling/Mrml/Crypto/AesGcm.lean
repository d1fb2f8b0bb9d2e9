import Mrml.Crypto.AesCtr

/-!
# AES-128-GCM

Model of `aes128_gcm_seal` and `aes128_gcm_open` of `crates/mrml-crypto/src/aes_gcm.rs` (lines
131–214). The callers give output buffers of the right length, so that `seal` never fails.

Results:
* `length_crypt`: the ciphertext is as long as the text.
* `aes128GcmOpen_seal`: what was sealed is opened again.
-/

namespace Mrml.Crypto

/-- `u128::from_be_bytes`. -/
def u128FromBe (bytes : List UInt8) : BitVec 128 := BitVec.ofNat 128 (beNat bytes)

/-- `ghash_mul` (lines 131–140). -/
def ghashMul (x y : BitVec 128) : BitVec 128 :=
  ((List.range 128).foldl (fun (z, v) bit =>
    (z ^^^ (v &&& (0 - ((x >>> (127 - bit)) &&& 1))),
      (v >>> 1) ^^^ (0xe1000000000000000000000000000000#128 &&& (0 - (v &&& 1)))))
    (0#128, y)).1

/-- The blocks of `source.chunks(16)`, filled up with zeros (lines 145–147). -/
def paddedChunks (source : List UInt8) : List (List UInt8) :=
  (List.range (blockCount source.length)).map fun i =>
    let block := slice source (16 * i) 16
    block ++ List.replicate (16 - block.length) 0

/-- `ghash` (lines 142–153). -/
def ghash (h : BitVec 128) (aad data : List UInt8) : BitVec 128 :=
  let state := (paddedChunks aad ++ paddedChunks data).foldl
    (fun state block => ghashMul (state ^^^ u128FromBe block) h) 0#128
  let lengths := (BitVec.ofNat 128 (aad.length * 8) <<< 64) ||| BitVec.ofNat 128 (data.length * 8)
  ghashMul (state ^^^ lengths) h

/-- `counter_block` (lines 155–160). -/
def counterBlock (nonce : List UInt8) (counter : ℕ) : List UInt8 := nonce ++ beBytes 4 counter

/-- The key stream of `crypt` (line 164). -/
def gcmStream (key nonce : List UInt8) (index : ℕ) : List UInt8 :=
  aes128Encrypt key (counterBlock nonce (2 + index))

/-- `crypt` (lines 162–169). -/
def crypt (key nonce input : List UInt8) : List UInt8 :=
  xorStream (gcmStream key nonce) (blockCount input.length) 0 input

/-- The tag of a ciphertext (lines 183–186 and 201–204). -/
def gcmTag (key nonce aad ciphertext : List UInt8) : List UInt8 :=
  let h := u128FromBe (aes128Encrypt key (List.replicate 16 0))
  beBytes 16 (ghash h aad ciphertext ^^^
    u128FromBe (aes128Encrypt key (counterBlock nonce 1))).toNat

/-- `aes128_gcm_seal` (lines 171–188): the ciphertext and its tag. -/
def aes128GcmSeal (key nonce aad plaintext : List UInt8) : List UInt8 × List UInt8 :=
  let ciphertext := crypt key nonce plaintext
  (ciphertext, gcmTag key nonce aad ciphertext)

/-- `aes128_gcm_open` (lines 190–214). -/
def aes128GcmOpen (key nonce aad ciphertext tag : List UInt8) : Option (List UInt8) :=
  let difference := (List.zipWith (· ^^^ ·) (gcmTag key nonce aad ciphertext) tag).foldl
    (· ||| ·) 0
  if difference ≠ 0 then none else some (crypt key nonce ciphertext)

theorem length_gcmStream {key nonce : List UInt8} (index : ℕ) :
    (gcmStream key nonce index).length = 16 := length_aes128Encrypt _ _

theorem length_crypt (key nonce input : List UInt8) :
    (crypt key nonce input).length = input.length :=
  length_xorStream_all length_gcmStream 0 input

theorem crypt_crypt (key nonce input : List UInt8) :
    crypt key nonce (crypt key nonce input) = input := by
  rw [crypt, length_crypt]
  exact xorStream_cancel length_gcmStream 0 input

theorem length_gcmTag (key nonce aad ciphertext : List UInt8) :
    (gcmTag key nonce aad ciphertext).length = 16 := length_beBytes _ _

/-- What was sealed is opened again. -/
theorem aes128GcmOpen_seal (key nonce aad plaintext : List UInt8) :
    aes128GcmOpen key nonce aad (aes128GcmSeal key nonce aad plaintext).1
      (aes128GcmSeal key nonce aad plaintext).2 = some plaintext := by
  have hdifference : (List.zipWith (· ^^^ ·) (gcmTag key nonce aad (crypt key nonce plaintext))
      (gcmTag key nonce aad (crypt key nonce plaintext))).foldl (· ||| ·) 0 = (0 : UInt8) :=
    foldl_or_xor_self _
  rw [aes128GcmSeal, aes128GcmOpen]
  dsimp only
  rw [hdifference, if_neg (fun hne => hne rfl), crypt_crypt]

end Mrml.Crypto
