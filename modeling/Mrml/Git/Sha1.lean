import Mrml.Common.Bytes
import Mrml.Crypto.Sha256

/-!
# SHA-1 and object names

Model of `crates/mrml-git/src/sha1.rs`. As in `sha256.rs`, the hasher keeps a partially filled
block; the words are read and written by the same big-endian conversions.
-/

namespace Mrml.Git

open Mrml.Crypto

/-- `INITIAL` (lines 4–10). -/
def sha1Initial : Vector UInt32 5 := #v[0x67452301, 0xefcdab89, 0x98badcfe, 0x10325476, 0xc3d2e1f0]

/-- `u32::rotate_left`. -/
def rotateLeft (x n : UInt32) : UInt32 := (x <<< n) ||| (x >>> (32 - n))

/-- The message schedule (lines 54–62). -/
def sha1Schedule (block : List UInt8) : Array UInt32 :=
  let words := ((List.range 16).map fun i => fromBeBytes ((block.drop (4 * i)).take 4)).toArray
  (List.range' 16 64).foldl (fun words index =>
    words.push (rotateLeft (words.getD (index - 3) 0 ^^^ words.getD (index - 8) 0 ^^^
      words.getD (index - 14) 0 ^^^ words.getD (index - 16) 0) 1)) words

/-- The function and the constant of a round (lines 65–70). -/
def sha1Round (index : ℕ) (b c d : UInt32) : UInt32 × UInt32 :=
  if index ≤ 19 then ((b &&& c) ||| (~~~b &&& d), 0x5a827999)
  else if index ≤ 39 then (b ^^^ c ^^^ d, 0x6ed9eba1)
  else if index ≤ 59 then ((b &&& c) ||| (b &&& d) ||| (c &&& d), 0x8f1bbcdc)
  else (b ^^^ c ^^^ d, 0xca62c1d6)

/-- One round of `compress` (lines 64–82). -/
def sha1CompressRound (state : Vector UInt32 5) (word : UInt32) (index : ℕ) : Vector UInt32 5 :=
  let a := state[0]
  let b := state[1]
  let c := state[2]
  let d := state[3]
  let e := state[4]
  let (function, constant) := sha1Round index b c d
  #v[rotateLeft a 5 + function + e + constant + word, a, rotateLeft b 30, c, d]

/-- `Sha1::compress` (lines 53–86). -/
def sha1Compress (state : Vector UInt32 5) (block : List UInt8) : Vector UInt32 5 :=
  let rounds := (sha1Schedule block).toList.zipIdx.foldl
    (fun state round => sha1CompressRound state round.1 round.2) state
  Vector.zipWith (· + ·) state rounds

/-- `Sha1` (lines 13–18). -/
structure Sha1 where
  state : Vector UInt32 5
  block : List UInt8
  used : ℕ
  length : UInt64

namespace Sha1

/-- `Sha1::new` (lines 21–28). -/
def new : Sha1 := ⟨sha1Initial, List.replicate 64 0, 0, 0⟩

/-- The loop of `update` over `blocks` whole blocks, and what is left over (lines 44–50). -/
def absorb : ℕ → Sha1 → List UInt8 → Sha1
  | 0, hash, input =>
    { hash with block := input ++ hash.block.drop input.length, used := input.length }
  | blocks + 1, hash, input =>
    absorb blocks { hash with state := sha1Compress hash.state (input.take 64) } (input.drop 64)

/-- `Sha1::update` (lines 30–51). -/
def update (hash : Sha1) (input : List UInt8) : Sha1 :=
  let hash := { hash with length := hash.length + UInt64.ofNat input.length }
  if hash.used ≠ 0 then
    let take := min input.length (64 - hash.used)
    let block := hash.block.take hash.used ++ input.take take ++ hash.block.drop (hash.used + take)
    let rest := input.drop take
    if hash.used + take = 64 then
      absorb (rest.length / 64)
        { hash with state := sha1Compress hash.state block, block, used := 0 } rest
    else { hash with block, used := hash.used + take }
  else absorb (input.length / 64) hash input

/-- `Sha1::finalize` (lines 88–107). -/
def finalize (hash : Sha1) : Vector UInt8 20 :=
  let bitLength := hash.length * 8
  let block := hash.block.set hash.used 0x80
  let used := hash.used + 1
  let (state, block, used) :=
    if used > 56 then
      let block := block.take used ++ List.replicate (64 - used) 0
      (sha1Compress hash.state block, block, 0)
    else (hash.state, block, used)
  let block := block.take used ++ List.replicate (56 - used) 0 ++ toBeBytes64 bitLength
  arrayAt ((sha1Compress state block).toList.flatMap toBeBytes) 0 20

/-- `Sha1::digest` (lines 109–113). -/
def digest (input : List UInt8) : Vector UInt8 20 := (new.update input).finalize

end Sha1

/-! ## Evaluation -/

/-- The schedule with the last word first, for evaluation. -/
def scheduleLoop : ℕ → List UInt32 → List UInt32
  | 0, w => w
  | n + 1, w =>
    scheduleLoop n (rotateLeft (w.getD 2 0 ^^^ w.getD 7 0 ^^^ w.getD 13 0 ^^^ w.getD 15 0) 1 :: w)

theorem getD_reverse {w : List UInt32} {k : ℕ} (h : k < w.length) :
    w.reverse.toArray.getD (w.length - (k + 1)) 0 = w.getD k 0 := by
  have hlt : w.length - (k + 1) < w.length := by omega
  have hk : w.length - 1 - (w.length - (k + 1)) = k := by omega
  simp [hlt, hk, h]

theorem scheduleLoop_eq (n : ℕ) {w : List UInt32} (h : 16 ≤ w.length) :
    (List.range' w.length n).foldl (fun words index =>
      words.push (rotateLeft (words.getD (index - 3) 0 ^^^ words.getD (index - 8) 0 ^^^
        words.getD (index - 14) 0 ^^^ words.getD (index - 16) 0) 1)) w.reverse.toArray =
      (scheduleLoop n w).reverse.toArray := by
  induction n generalizing w with
  | zero => rfl
  | succ n ih =>
    rw [List.range'_succ, List.foldl_cons, getD_reverse (by omega), getD_reverse (by omega),
      getD_reverse (by omega), getD_reverse (by omega), List.push_toArray, ← List.reverse_cons]
    exact ih (Nat.le_succ_of_le h)

theorem sha1Schedule_eq (block : List UInt8) : sha1Schedule block =
    (scheduleLoop 64 ((List.range 16).map fun i =>
      fromBeBytes ((block.drop (4 * i)).take 4)).reverse).reverse.toArray := by
  rw [← scheduleLoop_eq 64 (by simp), List.reverse_reverse, List.length_reverse]
  rfl

/-- `ObjectId` (line 123). -/
structure ObjectId where
  bytes : Vector UInt8 20
deriving DecidableEq

instance : Inhabited ObjectId := ⟨⟨Vector.replicate 20 0⟩⟩

end Mrml.Git
