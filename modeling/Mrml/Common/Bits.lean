import Mrml.Common.Bytes

/-!
# Texts of bits

Lists of bits that are read with the highest one first, and the numbers that they stand for.

Results:
* `value_digits`, `digits_value`: the digits of a number and the number of digits.
* `prefix_digits_iff`: the texts that a number begins with.
* `testBit_leNat`: a bit of a number in its bytes, the lowest one first.
-/

namespace Mrml.Bits

/-- The number that a text stands for. -/
def value : List Bool → ℕ
  | [] => 0
  | b :: w => b.toNat * 2 ^ w.length + value w

/-- The last `l` digits of a number. -/
def digits : ℕ → ℕ → List Bool
  | 0, _ => []
  | l + 1, n => n.testBit l :: digits l n

@[simp] theorem length_digits (l n : ℕ) : (digits l n).length = l := by
  induction l with
  | zero => rfl
  | succ l ih => rw [digits, List.length_cons, ih]

theorem value_lt (w : List Bool) : value w < 2 ^ w.length := by
  induction w with
  | nil => exact Nat.one_pos
  | cons b w ih =>
    have hbit : b.toNat * 2 ^ w.length ≤ 1 * 2 ^ w.length :=
      Nat.mul_le_mul_right _ (Bool.toNat_le b)
    rw [value, List.length_cons, pow_succ]
    omega

theorem value_append (u w : List Bool) : value (u ++ w) = value u * 2 ^ w.length + value w := by
  induction u with
  | nil => simp [value]
  | cons b u ih =>
    rw [List.cons_append, value, value, ih, List.length_append, pow_add]
    ring

theorem value_replicate_false (n : ℕ) : value (List.replicate n false) = 0 := by
  induction n with
  | zero => rfl
  | succ n ih =>
    rw [List.replicate_succ, value, ih]
    exact Nat.zero_mul _

theorem value_digits (l n : ℕ) : value (digits l n) = n % 2 ^ l := by
  induction l with
  | zero => rw [digits, value, pow_zero, Nat.mod_one]
  | succ l ih =>
    rw [digits, value, length_digits, ih, Nat.toNat_testBit, pow_succ, Nat.mod_mul, Nat.mul_comm,
      Nat.add_comm]

theorem digits_congr {l n n' : ℕ} (h : n % 2 ^ l = n' % 2 ^ l) : digits l n = digits l n' := by
  induction l with
  | zero => rfl
  | succ l ih =>
    have hrest : n % 2 ^ l = n' % 2 ^ l := by
      have hdvd : 2 ^ l ∣ 2 ^ (l + 1) := pow_dvd_pow 2 (Nat.le_succ l)
      rw [← Nat.mod_mod_of_dvd n hdvd, h, Nat.mod_mod_of_dvd n' hdvd]
    have hbit : n.testBit l = n'.testBit l := by
      have h' := congrArg (fun x => x.testBit l) h
      simpa [Nat.testBit_mod_two_pow] using h'
    rw [digits, digits, ih hrest, hbit]

theorem digits_value (w : List Bool) : digits w.length (value w) = w := by
  induction w with
  | nil => rfl
  | cons b w ih =>
    have hlt := value_lt w
    have hbit : (value (b :: w)).testBit w.length = b := by
      have hdiv : (b.toNat * 2 ^ w.length + value w) / 2 ^ w.length = b.toNat := by
        rw [Nat.mul_comm, Nat.mul_add_div (Nat.two_pow_pos _), Nat.div_eq_of_lt hlt, Nat.add_zero]
      rw [value, Nat.testBit_eq_decide_div_mod_eq, hdiv]
      cases b <;> rfl
    have hrest : digits w.length (value (b :: w)) = w := by
      have hmod : value (b :: w) % 2 ^ w.length = value w % 2 ^ w.length := by
        rw [value, Nat.mul_comm, Nat.mul_add_mod]
      rw [digits_congr hmod, ih]
    rw [List.length_cons, digits, hbit, hrest]

/-- The first digits of a number and those behind them. -/
theorem digits_add (k l n : ℕ) : digits (k + l) n = digits k (n / 2 ^ l) ++ digits l n := by
  induction k with
  | zero => rw [Nat.zero_add, digits, List.nil_append]
  | succ k ih =>
    rw [Nat.succ_add, digits, digits, ih, List.cons_append, Nat.testBit_div_two_pow]

/-- The texts that the digits of a number begin with. -/
theorem prefix_digits_iff {w : List Bool} {l n : ℕ} (hle : w.length ≤ l) (hn : n < 2 ^ l) :
    w <+: digits l n ↔ n / 2 ^ (l - w.length) = value w := by
  obtain ⟨rest, rfl⟩ := Nat.exists_eq_add_of_le hle
  have hlt : n / 2 ^ rest < 2 ^ w.length := by
    rw [Nat.div_lt_iff_lt_mul (Nat.two_pow_pos _), ← pow_add]
    exact hn
  rw [Nat.add_sub_cancel_left, digits_add]
  constructor
  · rintro ⟨tail, h⟩
    have heq : w = digits w.length (n / 2 ^ rest) :=
      List.append_inj_left h (length_digits _ _).symm
    have hvalue := value_digits w.length (n / 2 ^ rest)
    rw [← heq, Nat.mod_eq_of_lt hlt] at hvalue
    exact hvalue.symm
  · intro h
    rw [h, digits_value]
    exact List.prefix_append _ _

/-! ## Bytes -/

/-- A bit of a number, from its bytes. -/
theorem testBit_leNat (bytes : List UInt8) (i : ℕ) :
    (leNat bytes).testBit i = (bytes.getD (i / 8) 0).toNat.testBit (i % 8) := by
  induction bytes generalizing i with
  | nil =>
    show Nat.testBit 0 i = Nat.testBit 0 (i % 8)
    rw [Nat.zero_testBit, Nat.zero_testBit]
  | cons b bytes ih =>
    have hb : b.toNat < 2 ^ 8 := b.toNat_lt
    rw [leNat, Nat.add_comm, show 256 = 2 ^ 8 from rfl, Nat.testBit_two_pow_mul_add _ hb]
    split_ifs with hi
    · rw [Nat.div_eq_of_lt hi, Nat.mod_eq_of_lt hi, List.getD_cons_zero]
    · have hdiv : i / 8 = (i - 8) / 8 + 1 := by omega
      have hmod : i % 8 = (i - 8) % 8 := by omega
      rw [ih, hdiv, hmod, List.getD_cons_succ]

end Mrml.Bits
