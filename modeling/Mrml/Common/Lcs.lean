import Mathlib

/-!
# Longest common subsequences

The recurrence of the dynamic program over two lists, and what it computes.

Results:
* `length_le_lcs`, `exists_common`: the recurrence gives the greatest length of a common
  subsequence.
* `longest_of_length`: a common subsequence of that length is a longest one.
* `lcs_drop`: the recurrence at two positions.
-/

namespace Mrml

variable {α : Type*}

/-- `c` is a longest common subsequence of `a` and `b`. -/
structure Longest (c a b : List α) : Prop where
  left : c.Sublist a
  right : c.Sublist b
  greatest : ∀ d : List α, d.Sublist a → d.Sublist b → d.length ≤ c.length

variable [DecidableEq α]

/-- The length of a longest common subsequence. -/
def lcs : List α → List α → ℕ
  | [], _ => 0
  | _ :: _, [] => 0
  | x :: a, y :: b => if x = y then lcs a b + 1 else max (lcs a (y :: b)) (lcs (x :: a) b)
termination_by a b => a.length + b.length

@[simp] theorem lcs_nil_left (b : List α) : lcs [] b = 0 := by
  rw [lcs]

@[simp] theorem lcs_nil_right (a : List α) : lcs a [] = 0 := by
  cases a with
  | nil => rw [lcs]
  | cons x a => rw [lcs]

theorem lcs_cons (x y : α) (a b : List α) :
    lcs (x :: a) (y :: b) = if x = y then lcs a b + 1 else max (lcs a (y :: b)) (lcs (x :: a) b) := by
  rw [lcs]

/-- No common subsequence is longer. -/
theorem length_le_lcs {a b c : List α} (ha : c.Sublist a) (hb : c.Sublist b) :
    c.length ≤ lcs a b := by
  induction a, b using lcs.induct generalizing c with
  | case1 b =>
    rw [List.sublist_nil.mp ha]
    exact Nat.zero_le _
  | case2 x a =>
    rw [List.sublist_nil.mp hb]
    exact Nat.zero_le _
  | case3 a x b ih =>
    have htail := ih ha.tail hb.tail
    rw [List.length_tail] at htail
    rw [lcs_cons, if_pos rfl]
    omega
  | case4 x a y b hne iha ihb =>
    rw [lcs_cons, if_neg hne]
    -- the first element of `c` is not both first elements
    rcases List.sublist_cons_iff.mp ha with ha | ⟨c', rfl, -⟩
    · exact le_max_of_le_left (iha ha hb)
    · rcases List.sublist_cons_iff.mp hb with hb | ⟨c'', hc, -⟩
      · exact le_max_of_le_right (ihb ha hb)
      · exact absurd (List.cons.inj hc).1 hne

/-- A common subsequence of that length exists. -/
theorem exists_common (a b : List α) :
    ∃ c : List α, c.Sublist a ∧ c.Sublist b ∧ c.length = lcs a b := by
  induction a, b using lcs.induct with
  | case1 b => exact ⟨[], List.nil_sublist _, List.nil_sublist _, (lcs_nil_left b).symm⟩
  | case2 x a => exact ⟨[], List.nil_sublist _, List.nil_sublist _, (lcs_nil_right _).symm⟩
  | case3 a x b ih =>
    obtain ⟨c, ha, hb, hlength⟩ := ih
    exact ⟨x :: c, ha.cons_cons x, hb.cons_cons x, by
      rw [lcs_cons, if_pos rfl, List.length_cons, hlength]⟩
  | case4 x a y b hne iha ihb =>
    rw [lcs_cons, if_neg hne]
    rcases le_total (lcs a (y :: b)) (lcs (x :: a) b) with hle | hle
    · obtain ⟨c, ha, hb, hlength⟩ := ihb
      exact ⟨c, ha, hb.cons y, by rw [hlength, max_eq_right hle]⟩
    · obtain ⟨c, ha, hb, hlength⟩ := iha
      exact ⟨c, ha.cons x, hb, by rw [hlength, max_eq_left hle]⟩

/-- A common subsequence of the length that the recurrence gives is a longest one. -/
theorem longest_of_length {a b c : List α} (ha : c.Sublist a) (hb : c.Sublist b)
    (hlength : c.length = lcs a b) : Longest c a b :=
  ⟨ha, hb, fun _ hda hdb => hlength ▸ length_le_lcs hda hdb⟩

theorem exists_longest (a b : List α) : ∃ c, Longest c a b ∧ c.length = lcs a b := by
  obtain ⟨c, ha, hb, hlength⟩ := exists_common a b
  exact ⟨c, longest_of_length ha hb hlength, hlength⟩

/-- The recurrence at the positions `i` and `j`. -/
theorem lcs_drop {a b : List α} {i j : ℕ} (hi : i < a.length) (hj : j < b.length) :
    lcs (a.drop i) (b.drop j) =
      if a[i] = b[j] then lcs (a.drop (i + 1)) (b.drop (j + 1)) + 1
      else max (lcs (a.drop (i + 1)) (b.drop j)) (lcs (a.drop i) (b.drop (j + 1))) := by
  have ha := List.drop_eq_getElem_cons hi
  have hb := List.drop_eq_getElem_cons hj
  rw [ha, hb, lcs_cons]

end Mrml
