import Mathlib

/-!
# SHA-256 and HMAC

Model of `crates/mrml-crypto/src/sha256.rs` and `hmac.rs`. The hasher keeps a
partially filled block; `update` compresses every full block and keeps the rest.
-/

namespace Mrml.Crypto

/-- `INITIAL` (`sha256.rs`, lines 1–3). -/
def initial : Vector UInt32 8 :=
  #v[0x6a09e667, 0xbb67ae85, 0x3c6ef372, 0xa54ff53a, 0x510e527f, 0x9b05688c, 0x1f83d9ab,
    0x5be0cd19]

/-- `K` (lines 5–14). -/
def roundConstants : List UInt32 :=
  [0x428a2f98, 0x71374491, 0xb5c0fbcf, 0xe9b5dba5, 0x3956c25b, 0x59f111f1, 0x923f82a4, 0xab1c5ed5,
    0xd807aa98, 0x12835b01, 0x243185be, 0x550c7dc3, 0x72be5d74, 0x80deb1fe, 0x9bdc06a7, 0xc19bf174,
    0xe49b69c1, 0xefbe4786, 0x0fc19dc6, 0x240ca1cc, 0x2de92c6f, 0x4a7484aa, 0x5cb0a9dc, 0x76f988da,
    0x983e5152, 0xa831c66d, 0xb00327c8, 0xbf597fc7, 0xc6e00bf3, 0xd5a79147, 0x06ca6351, 0x14292967,
    0x27b70a85, 0x2e1b2138, 0x4d2c6dfc, 0x53380d13, 0x650a7354, 0x766a0abb, 0x81c2c92e, 0x92722c85,
    0xa2bfe8a1, 0xa81a664b, 0xc24b8b70, 0xc76c51a3, 0xd192e819, 0xd6990624, 0xf40e3585, 0x106aa070,
    0x19a4c116, 0x1e376c08, 0x2748774c, 0x34b0bcb5, 0x391c0cb3, 0x4ed8aa4a, 0x5b9cca4f, 0x682e6ff3,
    0x748f82ee, 0x78a5636f, 0x84c87814, 0x8cc70208, 0x90befffa, 0xa4506ceb, 0xbef9a3f7, 0xc67178f2]

/-- `u32::rotate_right`. -/
def rotateRight (x n : UInt32) : UInt32 := (x >>> n) ||| (x <<< (32 - n))

/-- `u32::from_be_bytes`. -/
def fromBeBytes (bytes : List UInt8) : UInt32 :=
  bytes.foldl (fun word byte => (word <<< 8) ||| byte.toUInt32) 0

/-- `u32::to_be_bytes`. -/
def toBeBytes (word : UInt32) : List UInt8 :=
  [(word >>> 24).toUInt8, (word >>> 16).toUInt8, (word >>> 8).toUInt8, word.toUInt8]

/-- `u64::to_be_bytes`. -/
def toBeBytes64 (value : UInt64) : List UInt8 :=
  toBeBytes (value >>> 32).toUInt32 ++ toBeBytes value.toUInt32

/-- The message schedule (lines 62–77). -/
def schedule (block : List UInt8) : Array UInt32 :=
  let words := ((List.range 16).map fun i => fromBeBytes ((block.drop (4 * i)).take 4)).toArray
  (List.range' 16 48).foldl (fun words index =>
    let w15 := words.getD (index - 15) 0
    let w2 := words.getD (index - 2) 0
    let s0 := rotateRight w15 7 ^^^ rotateRight w15 18 ^^^ (w15 >>> 3)
    let s1 := rotateRight w2 17 ^^^ rotateRight w2 19 ^^^ (w2 >>> 10)
    words.push (words.getD (index - 16) 0 + s0 + words.getD (index - 7) 0 + s1)) words

/-- One round of `compress` (lines 80–99). -/
def compressRound (state : Vector UInt32 8) (constant word : UInt32) : Vector UInt32 8 :=
  let a := state[0]
  let b := state[1]
  let c := state[2]
  let d := state[3]
  let e := state[4]
  let f := state[5]
  let g := state[6]
  let h := state[7]
  let s1 := rotateRight e 6 ^^^ rotateRight e 11 ^^^ rotateRight e 25
  let choice := (e &&& f) ^^^ (~~~e &&& g)
  let first := h + s1 + choice + constant + word
  let s0 := rotateRight a 2 ^^^ rotateRight a 13 ^^^ rotateRight a 22
  let majority := (a &&& b) ^^^ (a &&& c) ^^^ (b &&& c)
  let second := s0 + majority
  #v[first + second, a, b, c, d + first, e, f, g]

/-- `Sha256::compress` (lines 61–103). -/
def compress (state : Vector UInt32 8) (block : List UInt8) : Vector UInt32 8 :=
  let rounds := (roundConstants.zip (schedule block).toList).foldl
    (fun state round => compressRound state round.1 round.2) state
  Vector.zipWith (· + ·) state rounds

/-- `Sha256` (lines 17–22). -/
structure Sha256 where
  state : Vector UInt32 8
  block : List UInt8
  used : ℕ
  length : UInt64

namespace Sha256

/-- `Sha256::new` (lines 25–32). -/
def new : Sha256 := ⟨initial, List.replicate 64 0, 0, 0⟩

/-- The loop of `update` over whole blocks (lines 51–57). -/
def absorb (hash : Sha256) (input : List UInt8) : Sha256 :=
  if 64 ≤ input.length then
    absorb { hash with state := compress hash.state (input.take 64) } (input.drop 64)
  else { hash with block := input ++ hash.block.drop input.length, used := input.length }
termination_by input.length
decreasing_by
  simp only [List.length_drop]
  omega

/-- `Sha256::update` (lines 34–59). -/
def update (hash : Sha256) (input : List UInt8) : Sha256 :=
  let hash := { hash with length := hash.length + UInt64.ofNat input.length }
  if hash.used ≠ 0 then
    let take := min input.length (64 - hash.used)
    let block := hash.block.take hash.used ++ input.take take ++ hash.block.drop (hash.used + take)
    if hash.used + take = 64 then
      absorb { hash with state := compress hash.state block, block, used := 0 } (input.drop take)
    else { hash with block, used := hash.used + take }
  else absorb hash input

/-- `Sha256::finalize` (lines 105–125). -/
def finalize (hash : Sha256) : List UInt8 :=
  let bitLength := hash.length * 8
  let block := hash.block.set hash.used 0x80
  let used := hash.used + 1
  let (state, block, used) :=
    if used > 56 then
      (compress hash.state (block.take used ++ List.replicate (64 - used) 0),
        block.take used ++ List.replicate (64 - used) 0, 0)
    else (hash.state, block, used)
  let block := block.take used ++ List.replicate (56 - used) 0 ++ toBeBytes64 bitLength
  (compress state block).toList.flatMap toBeBytes

/-- `Sha256::digest` (lines 127–131). -/
def digest (input : List UInt8) : List UInt8 := (new.update input).finalize

theorem length_finalize (hash : Sha256) : hash.finalize.length = 32 := by
  unfold finalize
  rw [List.length_flatMap]
  simp [toBeBytes]

end Sha256

/-- `hmac_sha256` (`hmac.rs`, lines 3–28). -/
def hmacSha256 (key : List UInt8) (parts : List (List UInt8)) : List UInt8 :=
  let short := if key.length > 64 then Sha256.digest key else key
  let normalized := short ++ List.replicate (64 - short.length) 0
  let innerKey := normalized.map (· ^^^ 0x36)
  let outerKey := normalized.map (· ^^^ 0x5c)
  let innerDigest := (parts.foldl Sha256.update (Sha256.new.update innerKey)).finalize
  ((Sha256.new.update outerKey).update innerDigest).finalize

@[simp] theorem length_hmacSha256 (key : List UInt8) (parts : List (List UInt8)) :
    (hmacSha256 key parts).length = 32 := Sha256.length_finalize _

end Mrml.Crypto
