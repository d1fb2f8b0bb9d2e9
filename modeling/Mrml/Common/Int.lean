import Mathlib

/-!
# Machine integers

Rust's fixed-width integers are Lean's `UInt8` … `UInt64`; `usize` counters and
indices are `ℕ`. This file has the checked operations of the Rust standard
library, each with one lemma that turns it into arithmetic on `toNat`.
-/

namespace Mrml

/-- `u32::checked_add`. -/
def checkedAdd32 (a b : UInt32) : Option UInt32 :=
  if a.toNat + b.toNat < 2 ^ 32 then some (a + b) else none

/-- `u64::checked_add`. -/
def checkedAdd64 (a b : UInt64) : Option UInt64 :=
  if a.toNat + b.toNat < 2 ^ 64 then some (a + b) else none

/-- `u64::checked_sub`. -/
def checkedSub64 (a b : UInt64) : Option UInt64 :=
  if b.toNat ≤ a.toNat then some (a - b) else none

theorem checkedAdd32_eq_some {a b c : UInt32} :
    checkedAdd32 a b = some c ↔ c.toNat = a.toNat + b.toNat := by
  have hc := c.toNat_lt
  unfold checkedAdd32
  split_ifs with h
  · rw [Option.some_inj, ← UInt32.toNat_inj, UInt32.toNat_add, Nat.mod_eq_of_lt h]
    exact eq_comm
  · simp only [false_iff]
    omega

theorem checkedAdd64_eq_some {a b c : UInt64} :
    checkedAdd64 a b = some c ↔ c.toNat = a.toNat + b.toNat := by
  have hc := c.toNat_lt
  unfold checkedAdd64
  split_ifs with h
  · rw [Option.some_inj, ← UInt64.toNat_inj, UInt64.toNat_add, Nat.mod_eq_of_lt h]
    exact eq_comm
  · simp only [false_iff]
    omega

theorem checkedAdd64_eq_none {a b : UInt64} :
    checkedAdd64 a b = none ↔ 2 ^ 64 ≤ a.toNat + b.toNat := by
  unfold checkedAdd64
  split_ifs with h <;> simp only [false_iff, true_iff] <;> omega

/-- A word is what a mask keeps of it and what the mask clears. -/
theorem toNat_and_add_and_not (value mask : UInt64) :
    (value &&& mask).toNat + (value &&& ~~~mask).toNat = value.toNat := by
  have hzero :
      (value.toBitVec &&& mask.toBitVec) &&& (value.toBitVec &&& ~~~mask.toBitVec) = 0#64 := by
    ext i hi
    cases hmask : mask.toBitVec[i] <;> simp [hmask]
  have hor : (value.toBitVec &&& mask.toBitVec) + (value.toBitVec &&& ~~~mask.toBitVec) =
      value.toBitVec := by
    rw [BitVec.add_eq_or_of_and_eq_zero _ _ hzero, ← BitVec.and_or_distrib_left,
      BitVec.or_not_self, BitVec.and_allOnes]
  have hnat := BitVec.toNat_add_of_and_eq_zero hzero
  rw [hor] at hnat
  exact hnat.symm

/-! ## Words of a `u64` -/

/-- `((high as u64) << 32) | low as u64`. -/
def packWords (high low : UInt32) : UInt64 := (high.toUInt64 <<< 32) ||| low.toUInt64

/-- `token as u32`. -/
def lowWord (token : UInt64) : UInt32 := token.toUInt32

/-- `(token >> 32) as u32`. -/
def highWord (token : UInt64) : UInt32 := (token >>> 32).toUInt32

theorem packWords_toNat (high low : UInt32) :
    (packWords high low).toNat = 2 ^ 32 * high.toNat + low.toNat := by
  have hhigh := high.toNat_lt
  have hlow := low.toNat_lt
  have hshift : (high.toUInt64 <<< 32).toNat = 2 ^ 32 * high.toNat := by
    rw [UInt64.toNat_shiftLeft, UInt32.toNat_toUInt64, Nat.shiftLeft_eq,
      show (32 : UInt64).toNat % 64 = 32 from rfl, Nat.mod_eq_of_lt (by omega), Nat.mul_comm]
  rw [packWords, UInt64.toNat_or, hshift, UInt32.toNat_toUInt64,
    Nat.two_pow_add_eq_or_of_lt hlow]

theorem lowWord_toNat (token : UInt64) : (lowWord token).toNat = token.toNat % 2 ^ 32 := by
  simp [lowWord]

theorem highWord_toNat (token : UInt64) : (highWord token).toNat = token.toNat / 2 ^ 32 := by
  have h := token.toNat_lt
  rw [highWord, UInt64.toNat_toUInt32, UInt64.toNat_shiftRight, Nat.shiftRight_eq_div_pow]
  exact Nat.mod_eq_of_lt (Nat.div_lt_of_lt_mul h)

@[simp] theorem lowWord_packWords (high low : UInt32) : lowWord (packWords high low) = low := by
  have := low.toNat_lt
  rw [← UInt32.toNat_inj, lowWord_toNat, packWords_toNat]
  omega

@[simp] theorem highWord_packWords (high low : UInt32) : highWord (packWords high low) = high := by
  have := low.toNat_lt
  rw [← UInt32.toNat_inj, highWord_toNat, packWords_toNat]
  omega

/-- A token is its two words. -/
theorem eq_of_words {a b : UInt64} (hlow : lowWord a = lowWord b) (hhigh : highWord a = highWord b) :
    a = b := by
  have h₁ := congrArg UInt32.toNat hlow
  have h₂ := congrArg UInt32.toNat hhigh
  rw [lowWord_toNat, lowWord_toNat] at h₁
  rw [highWord_toNat, highWord_toNat] at h₂
  exact UInt64.toNat_inj.mp (by omega)

/-- `token >> 32 == 0`. -/
theorem shiftRight_eq_zero_iff (token : UInt64) : token >>> 32 = 0 ↔ highWord token = 0 := by
  rw [← UInt64.toNat_inj, ← UInt32.toNat_inj, highWord_toNat, UInt64.toNat_shiftRight,
    Nat.shiftRight_eq_div_pow]
  rfl

end Mrml
