import Mathlib

/-!
# Arrays with a packed prefix

A Rust array `[Option<T>; N]` with a `count` whose first `count` cells are filled
and whose other cells are `None`. Insertion shifts the tail of the prefix one cell
up, removal one cell down, both with `copy_within`.
-/

namespace Mrml

variable {α : Type*}

/-- `slice.copy_within(start..stop, dest)`. -/
def copyWithin (l : List α) (start stop dest : ℕ) : List α :=
  l.take dest ++ (l.drop start).take (stop - start) ++ l.drop (dest + (stop - start))

/-- Room for `x` is made by moving `b` one cell up. -/
theorem copyWithin_up (a b r : List α) (x z : α) :
    (copyWithin (a ++ (b ++ z :: r)) a.length (a.length + b.length) (a.length + 1)).set a.length x =
      a ++ x :: (b ++ r) := by
  have htake : (a ++ (b ++ z :: r)).take (a.length + 1) = a ++ (b ++ z :: r).take 1 := by
    rw [List.take_append, List.take_of_length_le (by omega)]
    congr 2
    omega
  have hdrop : (a ++ (b ++ z :: r)).drop (a.length + 1 + (a.length + b.length - a.length)) = r := by
    rw [List.drop_append, List.drop_eq_nil_of_le (by omega), List.nil_append, List.drop_append,
      List.drop_eq_nil_of_le (by omega), List.nil_append]
    have : a.length + 1 + (a.length + b.length - a.length) - a.length - b.length = 1 := by omega
    rw [this]
    rfl
  obtain ⟨y, hy⟩ : ∃ y, (b ++ z :: r).take 1 = [y] := by
    cases b with
    | nil => exact ⟨z, rfl⟩
    | cons y b => exact ⟨y, rfl⟩
  rw [copyWithin, htake, hdrop, hy, List.drop_left, Nat.add_sub_cancel_left, List.take_left]
  simp

/-- The hole left by `z` is closed by moving `b` one cell down. -/
theorem copyWithin_down (a b r : List α) (x z : α) :
    (copyWithin (a ++ z :: (b ++ r)) (a.length + 1) (a.length + 1 + b.length) a.length).set
      (a.length + b.length) x = a ++ (b ++ x :: r) := by
  have hmid : (a ++ z :: (b ++ r)).drop (a.length + 1) = b ++ r := by
    rw [List.drop_append, List.drop_eq_nil_of_le (by omega), List.nil_append]
    have : a.length + 1 - a.length = 1 := by omega
    rw [this]
    rfl
  obtain ⟨y, hy⟩ : ∃ y, (a ++ z :: (b ++ r)).drop (a.length + b.length) = y :: r := by
    rw [List.drop_append, List.drop_eq_nil_of_le (by omega), List.nil_append, Nat.add_sub_cancel_left,
      ← List.cons_append]
    obtain ⟨c, y, hc⟩ : ∃ c y, z :: b = c ++ [y] := ⟨_, _, (List.dropLast_append_getLast (by simp)).symm⟩
    have hlen : b.length = c.length := by
      have := congrArg List.length hc
      simp at this
      exact this
    refine ⟨y, ?_⟩
    rw [hc, hlen, List.append_assoc, List.drop_left]
    rfl
  rw [copyWithin, List.take_left, hmid, Nat.add_sub_cancel_left, List.take_left, hy]
  simp

/-- Two elements of a list are related in one order or the other. -/
theorem pairwise_or {R : α → α → Prop} {l : List α} (hl : l.Pairwise R) {a b : α} (ha : a ∈ l)
    (hb : b ∈ l) (hne : a ≠ b) : R a b ∨ R b a := by
  have : Std.Symm fun a b => R a b ∨ R b a := ⟨fun _ _ => Or.symm⟩
  exact (hl.imp (S := fun a b => R a b ∨ R b a) Or.inl).forall ha hb hne

/-- Replacing an element keeps a relation that the new element satisfies where the
    old one did. -/
theorem pairwise_set {R : α → α → Prop} {l : List α} (hl : l.Pairwise R) {i : ℕ} {x y : α}
    (hx : l[i]? = some x) (hleft : ∀ b, R x b → R y b) (hright : ∀ b, R b x → R b y) :
    (l.set i y).Pairwise R := by
  induction l generalizing i with
  | nil => simp at hx
  | cons a l ih =>
    obtain ⟨ha, hl⟩ := List.pairwise_cons.mp hl
    cases i with
    | zero =>
      obtain rfl : a = x := by simpa using hx
      exact List.pairwise_cons.mpr ⟨fun b hb => hleft b (ha b hb), hl⟩
    | succ i =>
      have hx : l[i]? = some x := by simpa using hx
      refine List.pairwise_cons.mpr ⟨fun b hb => ?_, ih hl hx⟩
      rcases List.mem_or_eq_of_mem_set hb with hb | rfl
      · exact ha b hb
      · exact hright a (ha x (List.mem_of_getElem? hx))

/-- The first `count` cells of `cells` hold `live`, the others are `none`. -/
structure Packed (cells : List (Option α)) (count : ℕ) (live : List α) : Prop where
  count_eq : count = live.length
  cells_eq : ∃ free, cells = live.map some ++ List.replicate free none

namespace Packed

variable {cells : List (Option α)} {count : ℕ} {live : List α}

theorem nil (N : ℕ) : Packed (List.replicate N (none : Option α)) 0 [] := ⟨rfl, N, rfl⟩

theorem count_le (h : Packed cells count live) : count ≤ cells.length := by
  obtain ⟨free, hcells⟩ := h.cells_eq
  simp [hcells, h.count_eq]

/-- A write to the first free cell. -/
theorem push (h : Packed cells count live) (hcount : count < cells.length) (x : α) :
    Packed (cells.set count (some x)) (count + 1) (live ++ [x]) := by
  obtain ⟨free, hcells⟩ := h.cells_eq
  obtain ⟨free, rfl⟩ : ∃ rest, free = rest + 1 := by
    rw [hcells, h.count_eq, List.length_append, List.length_map, List.length_replicate] at hcount
    exact ⟨free - 1, by omega⟩
  refine ⟨by rw [h.count_eq, List.length_append, List.length_singleton], free, ?_⟩
  rw [hcells, h.count_eq, List.set_append_right _ _ (by rw [List.length_map]), List.length_map,
    Nat.sub_self, List.replicate_succ, List.set_cons_zero, List.map_append, List.append_assoc]
  rfl

theorem take (h : Packed cells count live) : cells.take count = live.map some := by
  obtain ⟨rfl, free, rfl⟩ := h
  simp

/-- `self.cells[..count].iter().flatten()`. -/
theorem reduceOption_take (h : Packed cells count live) : (cells.take count).reduceOption = live := by
  rw [h.take, List.reduceOption, List.filterMap_map]
  simp

/-- A cell of the prefix. -/
theorem getElem? (h : Packed cells count live) {i : ℕ} (hi : i < count) :
    cells[i]? = (live[i]?).map some := by
  obtain ⟨rfl, free, rfl⟩ := h
  rw [List.getElem?_append_left (by simpa using hi), List.getElem?_map]

/-- Writing a cell of the prefix. -/
theorem set (h : Packed cells count live) {i : ℕ} (hi : i < count) (x : α) :
    Packed (cells.set i (some x)) count (live.set i x) := by
  obtain ⟨rfl, free, rfl⟩ := h
  refine ⟨by simp, free, ?_⟩
  rw [List.set_append_left _ _ (by simpa using hi), List.map_set]

/-- Shifting the cells from `i` on one up and writing cell `i`. -/
theorem insert (h : Packed cells count live) {i : ℕ} (hi : i ≤ count) (hcount : count < cells.length)
    (x : α) : Packed ((copyWithin cells i count (i + 1)).set i (some x)) (count + 1)
      (live.take i ++ x :: live.drop i) := by
  obtain ⟨rfl, free, rfl⟩ := h
  obtain ⟨free, rfl⟩ : ∃ k, free = k + 1 := ⟨free - 1, by simp at hcount; omega⟩
  have hlen : ((live.take i).map some).length = i := by simp; omega
  have hend : live.length = ((live.take i).map some).length + ((live.drop i).map some).length := by
    simp
    omega
  have hsplit : live.map some ++ List.replicate (free + 1) none =
      (live.take i).map some ++ ((live.drop i).map some ++ none :: List.replicate free none) := by
    rw [← List.append_assoc, ← List.map_append, List.take_append_drop, List.replicate_succ]
  refine ⟨by simp; omega, free, ?_⟩
  have hup := copyWithin_up ((live.take i).map some) ((live.drop i).map some)
    (List.replicate free none) (some x) none
  rw [← hend, hlen, ← hsplit] at hup
  rw [hup]
  simp

/-- Shifting the cells after `i` one down and clearing the last one. -/
theorem eraseIdx (h : Packed cells count live) {i : ℕ} (hi : i < count) :
    Packed ((copyWithin cells (i + 1) count i).set (count - 1) none) (count - 1)
      (live.eraseIdx i) := by
  obtain ⟨rfl, free, rfl⟩ := h
  have hlen : ((live.take i).map some).length = i := by simp; omega
  have hmid : ((live.drop (i + 1)).map some).length = live.length - (i + 1) := by simp
  have hsplit : live.map some ++ List.replicate free none =
      (live.take i).map some ++
        some live[i] :: ((live.drop (i + 1)).map some ++ List.replicate free none) := by
    have hlive : live.map some =
        (live.take i).map some ++ some live[i] :: (live.drop (i + 1)).map some := by
      rw [← List.map_cons, ← List.map_append, List.cons_getElem_drop_succ, List.take_append_drop]
    rw [hlive, List.append_assoc, List.cons_append]
  refine ⟨by rw [List.length_eraseIdx_of_lt hi], free + 1, ?_⟩
  have hdown := copyWithin_down ((live.take i).map some) ((live.drop (i + 1)).map some)
    (List.replicate free none) none (some live[i])
  rw [hlen, hmid, ← hsplit, show i + 1 + (live.length - (i + 1)) = live.length by omega,
    show i + (live.length - (i + 1)) = live.length - 1 by omega] at hdown
  rw [hdown, List.eraseIdx_eq_take_drop_succ, List.map_append, List.append_assoc,
    List.replicate_succ]

end Packed

end Mrml
