import Mrml.Common.Bits

/-!
# Prefix codes in a flat table

A list of symbols with the lengths of their codes, the longest first, is laid out in a table of
`2 ^ m` places: a symbol of length `l` has the next `2 ^ (m - l)` of them, and its code is what
their indices begin with. The code is complete if the places are used up.

Results:
* `table_of_prefix`: an index that begins with a code is a place of its symbol.
* `exists_prefix`: every index begins with a code.
* `prefix_unique`: no code begins with another one.
-/

namespace Mrml.PrefixCode

open Bits

variable {α : Type} {m : ℕ}

/-- The number of places of the symbols. -/
def width (m : ℕ) (symbols : List (α × ℕ)) : ℕ := (symbols.map fun s => 2 ^ (m - s.2)).sum

/-- The places of the symbols. -/
def table (m : ℕ) (symbols : List (α × ℕ)) : List (α × ℕ) :=
  symbols.flatMap fun s => List.replicate (2 ^ (m - s.2)) s

/-- The codes of the symbols whose places begin at `start`. -/
def codes (m : ℕ) : ℕ → List (α × ℕ) → List (α × List Bool)
  | _, [] => []
  | start, (a, l) :: symbols =>
    (a, digits l (start / 2 ^ (m - l))) :: codes m (start + 2 ^ (m - l)) symbols

/-- Symbols whose places go from `start` to the end, the longest code first. -/
structure Fills (m start : ℕ) (symbols : List (α × ℕ)) : Prop where
  sorted : symbols.Pairwise fun s s' => s'.2 ≤ s.2
  le : ∀ s ∈ symbols, s.2 ≤ m
  full : start + width m symbols = 2 ^ m

theorem width_cons (a : α) (l : ℕ) (symbols : List (α × ℕ)) :
    width m ((a, l) :: symbols) = 2 ^ (m - l) + width m symbols := rfl

theorem length_table (symbols : List (α × ℕ)) : (table m symbols).length = width m symbols := by
  simp only [table, width, List.length_flatMap, List.length_replicate]

theorem table_cons (a : α) (l : ℕ) (symbols : List (α × ℕ)) :
    table m ((a, l) :: symbols) = List.replicate (2 ^ (m - l)) (a, l) ++ table m symbols := rfl

theorem Fills.tail {start : ℕ} {a : α} {l : ℕ} {symbols : List (α × ℕ)}
    (h : Fills m start ((a, l) :: symbols)) : Fills m (start + 2 ^ (m - l)) symbols where
  sorted := h.sorted.of_cons
  le s hs := h.le s (List.mem_cons_of_mem _ hs)
  full := by rw [Nat.add_assoc, ← width_cons]; exact h.full

/-- The places of the longest code begin at a multiple of their number. -/
theorem Fills.dvd {start : ℕ} {a : α} {l : ℕ} {symbols : List (α × ℕ)}
    (h : Fills m start ((a, l) :: symbols)) : 2 ^ (m - l) ∣ start := by
  have hwidth : 2 ^ (m - l) ∣ width m ((a, l) :: symbols) := by
    refine List.dvd_sum fun n hn => ?_
    obtain ⟨s, hs, rfl⟩ := List.mem_map.mp hn
    have hle : s.2 ≤ l := by
      obtain rfl | hs := List.mem_cons.mp hs
      · exact le_rfl
      · exact List.rel_of_pairwise_cons h.sorted hs
    exact pow_dvd_pow 2 (Nat.sub_le_sub_left hle m)
  have hall : 2 ^ (m - l) ∣ start + width m ((a, l) :: symbols) := by
    rw [h.full]
    exact pow_dvd_pow 2 (Nat.sub_le m l)
  exact (Nat.dvd_add_left hwidth).mp hall

/-- The indices that begin with the first code. -/
theorem Fills.prefix_iff {start : ℕ} {a : α} {l : ℕ} {symbols : List (α × ℕ)}
    (h : Fills m start ((a, l) :: symbols)) {i : ℕ} (hi : i < 2 ^ m) :
    digits l (start / 2 ^ (m - l)) <+: digits m i ↔ start ≤ i ∧ i < start + 2 ^ (m - l) := by
  have hl : l ≤ m := h.le (a, l) List.mem_cons_self
  obtain ⟨k, rfl⟩ := h.dvd
  have hpos := Nat.two_pow_pos (m - l)
  have hfull := h.full
  rw [width_cons] at hfull
  have hk : k < 2 ^ l := by
    have hsplit : 2 ^ m = 2 ^ (m - l) * 2 ^ l := by rw [← pow_add, Nat.sub_add_cancel hl]
    have hlt : 2 ^ (m - l) * k < 2 ^ (m - l) * 2 ^ l := by omega
    exact Nat.lt_of_mul_lt_mul_left hlt
  rw [prefix_digits_iff (by rw [length_digits]; exact hl) hi, length_digits, value_digits,
    Nat.mul_div_cancel_left _ hpos, Nat.mod_eq_of_lt hk, Nat.div_eq_iff hpos]
  constructor
  · rintro ⟨hle, hlt⟩
    constructor
    · rw [Nat.mul_comm]
      exact hle
    · rw [Nat.mul_comm]
      omega
  · rintro ⟨hle, hlt⟩
    rw [Nat.mul_comm k]
    omega

/-- **Main lemma.** An index that begins with a code is a place of its symbol. -/
theorem table_of_prefix {start : ℕ} {symbols : List (α × ℕ)} (h : Fills m start symbols) {a : α}
    {w : List Bool} (hw : (a, w) ∈ codes m start symbols) {i : ℕ} (hi : i < 2 ^ m)
    (hfront : w <+: digits m i) :
    start ≤ i ∧ (table m symbols)[i - start]? = some (a, w.length) := by
  induction symbols generalizing start with
  | nil => exact absurd hw List.not_mem_nil
  | cons s symbols ih =>
    obtain ⟨b, l⟩ := s
    rw [codes] at hw
    rw [table_cons]
    obtain heq | hw := List.mem_cons.mp hw
    · obtain ⟨rfl, rfl⟩ := Prod.mk.inj heq
      obtain ⟨hle, hlt⟩ := (h.prefix_iff hi).mp hfront
      refine ⟨hle, ?_⟩
      rw [List.getElem?_append_left (by rw [List.length_replicate]; omega),
        List.getElem?_replicate_of_lt (by omega), length_digits]
    · obtain ⟨hle, hplace⟩ := ih h.tail hw
      refine ⟨(Nat.le_add_right _ _).trans hle, ?_⟩
      rw [List.getElem?_append_right (by rw [List.length_replicate]; omega), List.length_replicate,
        Nat.sub_sub, hplace]

/-- **Main lemma.** Every index begins with a code. -/
theorem exists_prefix {start : ℕ} {symbols : List (α × ℕ)} (h : Fills m start symbols) {i : ℕ}
    (hle : start ≤ i) (hi : i < 2 ^ m) :
    ∃ a w, (a, w) ∈ codes m start symbols ∧ w <+: digits m i := by
  induction symbols generalizing start with
  | nil =>
    have hfull : start + 0 = 2 ^ m := h.full
    omega
  | cons s symbols ih =>
    obtain ⟨a, l⟩ := s
    by_cases hlt : i < start + 2 ^ (m - l)
    · exact ⟨a, _, List.mem_cons_self, (h.prefix_iff hi).mpr ⟨hle, hlt⟩⟩
    · obtain ⟨b, w, hw, hfront⟩ := ih h.tail (not_lt.mp hlt)
      exact ⟨b, w, List.mem_cons_of_mem _ hw, hfront⟩

theorem length_le {start : ℕ} {symbols : List (α × ℕ)} (h : Fills m start symbols) {a : α}
    {w : List Bool} (hw : (a, w) ∈ codes m start symbols) : w.length ≤ m := by
  induction symbols generalizing start with
  | nil => exact absurd hw List.not_mem_nil
  | cons s symbols ih =>
    obtain ⟨b, l⟩ := s
    obtain heq | hw := List.mem_cons.mp hw
    · obtain ⟨rfl, rfl⟩ := Prod.mk.inj heq
      rw [length_digits]
      exact h.le (a, l) List.mem_cons_self
    · exact ih h.tail hw

/-- No code begins with another one. -/
theorem prefix_unique {start : ℕ} {symbols : List (α × ℕ)} (h : Fills m start symbols) {a b : α}
    {u w : List Bool} (hu : (a, u) ∈ codes m start symbols) (hw : (b, w) ∈ codes m start symbols)
    (hfront : u <+: w) : a = b ∧ u = w := by
  -- an index that begins with the longer one
  have hle := length_le h hw
  have hi : value (w ++ List.replicate (m - w.length) false) < 2 ^ m := by
    have hlt := value_lt (w ++ List.replicate (m - w.length) false)
    rwa [List.length_append, List.length_replicate, Nat.add_sub_cancel' hle] at hlt
  have hdigits : digits m (value (w ++ List.replicate (m - w.length) false)) =
      w ++ List.replicate (m - w.length) false := by
    have hdigits := digits_value (w ++ List.replicate (m - w.length) false)
    rwa [List.length_append, List.length_replicate, Nat.add_sub_cancel' hle] at hdigits
  have hlong : w <+: digits m (value (w ++ List.replicate (m - w.length) false)) := by
    rw [hdigits]
    exact List.prefix_append _ _
  obtain ⟨-, hplace⟩ := table_of_prefix h hu hi (hfront.trans hlong)
  obtain ⟨-, hplace'⟩ := table_of_prefix h hw hi hlong
  rw [hplace] at hplace'
  obtain ⟨hsame, hlength⟩ := Prod.mk.inj (Option.some.inj hplace')
  exact ⟨hsame, hfront.eq_of_length hlength⟩

/-- The codes have the lengths of their symbols. -/
theorem map_codes (start : ℕ) (symbols : List (α × ℕ)) :
    (codes m start symbols).map (fun c => (c.1, c.2.length)) = symbols := by
  induction symbols generalizing start with
  | nil => rfl
  | cons s symbols ih =>
    obtain ⟨a, l⟩ := s
    rw [codes, List.map_cons, ih, length_digits]

end Mrml.PrefixCode
