import Mrml.Common.Lcs
import Mrml.Common.Text

/-!
# Line differences

Models of `edit_script` (`crates/mrml-git/src/diff.rs`, lines 41–61) and of `line_mapping`
(`crates/mrml-git/src/repository.rs`, lines 2770–2812), the mapping of lines behind `blame`. Both
fill the same table and walk it in their own way. Its entries are `u32` in the source.

Results:
* `line_diff_optimal`: both are exact, and within the cell limit optimal.
-/

namespace Mrml.Git

/-- `MAX_CELLS`. -/
def maxCells : ℕ := 4000000

section Table

variable (old new : List Text)

/-- One entry of the table. -/
def fillCell (i : ℕ) (table : List ℕ) (j : ℕ) : List ℕ :=
  let width := new.length + 1
  table.set (i * width + j)
    (if old[i]? = new[j]? then table.getD ((i + 1) * width + j + 1) 0 + 1
    else max (table.getD ((i + 1) * width + j) 0) (table.getD (i * width + j + 1) 0))

/-- `for j in (0..new.len()).rev()`. -/
def fillRow (i : ℕ) : ℕ → List ℕ → List ℕ
  | 0, table => table
  | j + 1, table => fillRow i j (fillCell old new i table j)

/-- `for i in (0..old.len()).rev()`. -/
def fillRows : ℕ → List ℕ → List ℕ
  | 0, table => table
  | i + 1, table => fillRows i (fillRow old new i new.length table)

/-- The table of both functions. -/
def lcsTable : List ℕ :=
  fillRows old new old.length (List.replicate ((old.length + 1) * (new.length + 1)) 0)

/-- The walk of `edit_script` (lines 54–59). The counters never pass the ends of the lists, and
    the loop ends when both are there. -/
def walk (table : List ℕ) (i j : ℕ) : List (Char × Text) :=
  let width := new.length + 1
  if h : i < old.length ∧ j < new.length ∧ old[i]? = new[j]? then
    (' ', old[i]) :: walk table (i + 1) (j + 1)
  else if h : j < new.length ∧ (i = old.length ∨
      table.getD (i * width + j + 1) 0 ≥ table.getD ((i + 1) * width + j) 0) then
    ('+', new[j]) :: walk table i (j + 1)
  else if h : i < old.length then ('-', old[i]) :: walk table (i + 1) j
  else []
termination_by (old.length - i) + (new.length - j)

/-- `edit_script` (lines 41–61). A product of lengths that overflows is over the limit too. -/
def editScript : List (Char × Text) :=
  if old.length * new.length > maxCells then
    old.map (fun line => ('-', line)) ++ new.map (fun line => ('+', line))
  else walk old new (lcsTable old new) 0 0

end Table

section Mapping

variable (child parent : List Text)

/-- The walk of `line_mapping` (lines 2798–2810). -/
def mapWalk (table : List ℕ) (i j : ℕ) (mapping : List (Option ℕ)) : List (Option ℕ) :=
  let width := parent.length + 1
  if h : i < child.length ∧ j < parent.length then
    if child[i] = parent[j] then mapWalk table (i + 1) (j + 1) (mapping.set i (some j))
    else if table.getD ((i + 1) * width + j) 0 ≥ table.getD (i * width + j + 1) 0 then
      mapWalk table (i + 1) j mapping
    else mapWalk table i (j + 1) mapping
  else mapping
termination_by (child.length - i) + (parent.length - j)

/-- `line_mapping` (lines 2770–2812). -/
def lineMapping : List (Option ℕ) :=
  if child.length * parent.length > maxCells then List.replicate child.length none
  else mapWalk child parent (lcsTable child parent) 0 0 (List.replicate child.length none)

end Mapping

/-! ## The table -/

section Table

variable {old new : List Text}

/-- The table has its size, and its entries after the cell `(i, j)` and in the last column are
    right. -/
def Filled (old new : List Text) (i j : ℕ) (table : List ℕ) : Prop :=
  table.length = (old.length + 1) * (new.length + 1) ∧
    ∀ i' j', i' ≤ old.length → j' ≤ new.length →
      (i < i' ∨ (i' = i ∧ j ≤ j') ∨ j' = new.length) →
      table.getD (i' * (new.length + 1) + j') 0 = lcs (old.drop i') (new.drop j')

theorem cell_inj {i j i' j' n : ℕ} (hj : j ≤ n) (hj' : j' ≤ n)
    (h : i * (n + 1) + j = i' * (n + 1) + j') : i = i' ∧ j = j' := by
  have hrow {i j : ℕ} (hj : j ≤ n) : (i * (n + 1) + j) / (n + 1) = i := by
    rw [Nat.add_comm, Nat.add_mul_div_right _ _ (Nat.succ_pos n),
      Nat.div_eq_of_lt (Nat.lt_succ_of_le hj), Nat.zero_add]
  have hi : i = i' := by rw [← hrow (i := i) hj, h, hrow hj']
  subst hi
  exact ⟨rfl, Nat.add_left_cancel h⟩

theorem cell_lt {i j m n : ℕ} (hi : i ≤ m) (hj : j ≤ n) :
    i * (n + 1) + j < (m + 1) * (n + 1) := by
  have hrow := Nat.mul_le_mul_right (n + 1) hi
  rw [Nat.add_mul]
  omega

/-- **Step lemma.** One entry. -/
theorem filled_fillCell {i j : ℕ} {table : List ℕ} (hi : i < old.length) (hj : j < new.length)
    (h : Filled old new i (j + 1) table) : Filled old new i j (fillCell old new i table j) := by
  obtain ⟨hlength, hentries⟩ := h
  have hcell := cell_lt hi.le hj.le
  rw [← hlength] at hcell
  have hboth := hentries (i + 1) (j + 1) hi hj (.inl (by omega))
  have hbelow := hentries (i + 1) j hi hj.le (.inl (by omega))
  have hright := hentries i (j + 1) hi.le hj (.inr (.inl ⟨rfl, le_rfl⟩))
  refine ⟨by rw [fillCell, List.length_set, hlength], fun i' j' hi' hj' hregion => ?_⟩
  rw [fillCell, List.getD_eq_getElem?_getD]
  by_cases hsame : i * (new.length + 1) + j = i' * (new.length + 1) + j'
  · obtain ⟨rfl, rfl⟩ := cell_inj hj.le hj' hsame
    rw [List.getElem?_set_self hcell, Option.getD_some, lcs_drop hi hj, ← hboth, ← hbelow, ← hright,
      List.getElem?_eq_getElem hi, List.getElem?_eq_getElem hj]
    exact if_congr Option.some_inj rfl rfl
  · rw [List.getElem?_set_ne hsame, ← List.getD_eq_getElem?_getD]
    refine hentries i' j' hi' hj' ?_
    rcases hregion with hrow | ⟨rfl, hcolumn⟩ | hlast
    · exact .inl hrow
    · have hne : j ≠ j' := fun heq => hsame (heq ▸ rfl)
      exact .inr (.inl ⟨rfl, by omega⟩)
    · exact .inr (.inr hlast)

theorem filled_fillRow {i j : ℕ} {table : List ℕ} (hi : i < old.length) (hj : j ≤ new.length)
    (h : Filled old new i j table) : Filled old new i 0 (fillRow old new i j table) := by
  induction j generalizing table with
  | zero => exact h
  | succ j ih => exact ih (by omega) (filled_fillCell hi (by omega) h)

/-- **Run lemma.** The rows from the last one to the first. -/
theorem filled_fillRows {i : ℕ} {table : List ℕ} (hi : i ≤ old.length)
    (h : Filled old new i 0 table) : Filled old new 0 0 (fillRows old new i table) := by
  induction i generalizing table with
  | zero => exact h
  | succ i ih =>
    refine ih (by omega) (filled_fillRow (by omega) le_rfl ⟨h.1, fun i' j' hi' hj' hregion => ?_⟩)
    refine h.2 i' j' hi' hj' ?_
    rcases hregion with hrow | ⟨rfl, hcolumn⟩ | hlast
    · rcases Nat.lt_or_ge (i + 1) i' with hlt | hge
      · exact .inl hlt
      · exact .inr (.inl ⟨by omega, Nat.zero_le _⟩)
    · exact .inr (.inr (by omega))
    · exact .inr (.inr hlast)

/-- The table holds the lengths of longest common subsequences of the lines that are left. -/
theorem filled_table (old new : List Text) : Filled old new 0 0 (lcsTable old new) := by
  refine filled_fillRows le_rfl ⟨List.length_replicate, fun i j hi hj hregion => ?_⟩
  have hzero : (List.replicate ((old.length + 1) * (new.length + 1)) 0).getD
      (i * (new.length + 1) + j) 0 = 0 := by
    rw [List.getD_replicate _ (cell_lt hi hj)]
  rw [hzero]
  rcases hregion with hrow | ⟨rfl, -⟩ | rfl
  · omega
  · rw [List.drop_length, lcs_nil_left]
  · rw [List.drop_length, lcs_nil_right]

theorem table_eq {i j : ℕ} (hi : i ≤ old.length) (hj : j ≤ new.length) :
    (lcsTable old new).getD (i * (new.length + 1) + j) 0 = lcs (old.drop i) (new.drop j) := by
  refine (filled_table old new).2 i j hi hj ?_
  rcases Nat.eq_zero_or_pos i with rfl | hpos
  · exact .inr (.inl ⟨rfl, Nat.zero_le _⟩)
  · exact .inl hpos

/-- Where the lines of a cell differ and the table prefers the cell below, nothing is lost by
    leaving out the line of `old`. -/
theorem lcs_below {i j : ℕ} (hi : i < old.length) (hj : j < new.length) (hne : old[i] ≠ new[j])
    (hle : (lcsTable old new).getD (i * (new.length + 1) + (j + 1)) 0 ≤
      (lcsTable old new).getD ((i + 1) * (new.length + 1) + j) 0) :
    lcs (old.drop i) (new.drop j) = lcs (old.drop (i + 1)) (new.drop j) := by
  rw [table_eq hi.le hj, table_eq hi hj.le] at hle
  rw [lcs_drop hi hj, if_neg hne, max_eq_left hle]

/-- The same for the cell to the right, and the line of `new`. -/
theorem lcs_right {i j : ℕ} (hi : i < old.length) (hj : j < new.length) (hne : old[i] ≠ new[j])
    (hle : (lcsTable old new).getD ((i + 1) * (new.length + 1) + j) 0 ≤
      (lcsTable old new).getD (i * (new.length + 1) + (j + 1)) 0) :
    lcs (old.drop i) (new.drop j) = lcs (old.drop i) (new.drop (j + 1)) := by
  rw [table_eq hi.le hj, table_eq hi hj.le] at hle
  rw [lcs_drop hi hj, if_neg hne, max_eq_right hle]

end Table

/-! ## The edit script -/

section Walk

variable {old new : List Text}

/-- The lines of an edit script with one of the kinds. -/
def linesOf (kinds : List Char) (script : List (Char × Text)) : List Text :=
  (script.filter fun edit => edit.1 ∈ kinds).map Prod.snd

theorem linesOf_cons_of_mem {kinds : List Char} {kind : Char} (h : kind ∈ kinds) (line : Text)
    (script : List (Char × Text)) :
    linesOf kinds ((kind, line) :: script) = line :: linesOf kinds script := by
  rw [linesOf, List.filter_cons_of_pos (by simpa using h), List.map_cons]
  rfl

theorem linesOf_cons_of_not_mem {kinds : List Char} {kind : Char} (h : kind ∉ kinds)
    (line : Text) (script : List (Char × Text)) :
    linesOf kinds ((kind, line) :: script) = linesOf kinds script := by
  rw [linesOf, List.filter_cons_of_neg (by simpa using h)]
  rfl

theorem linesOf_append (kinds : List Char) (script script' : List (Char × Text)) :
    linesOf kinds (script ++ script') = linesOf kinds script ++ linesOf kinds script' := by
  rw [linesOf, List.filter_append, List.map_append]
  rfl

theorem linesOf_map (kinds : List Char) (kind : Char) (lines : List Text) :
    linesOf kinds (lines.map fun line => (kind, line)) = if kind ∈ kinds then lines else [] := by
  induction lines with
  | nil => exact (ite_self _).symm
  | cons line lines ih =>
    rw [List.map_cons]
    by_cases h : kind ∈ kinds
    · rw [linesOf_cons_of_mem h, ih, if_pos h, if_pos h]
    · rw [linesOf_cons_of_not_mem h, ih, if_neg h, if_neg h]

theorem getElem_eq_iff {i j : ℕ} (hi : i < old.length) (hj : j < new.length) :
    old[i]? = new[j]? ↔ old[i] = new[j] := by
  rw [List.getElem?_eq_getElem hi, List.getElem?_eq_getElem hj, Option.some_inj]

/-- What is kept or removed are the old lines, and what is kept or added the new ones. -/
theorem lines_walk (table : List ℕ) {i j : ℕ} (hi : i ≤ old.length) (hj : j ≤ new.length) :
    linesOf [' ', '-'] (walk old new table i j) = old.drop i ∧
      linesOf [' ', '+'] (walk old new table i j) = new.drop j := by
  fun_induction walk old new table i j with
  | case1 i j h ih =>
    obtain ⟨hold, hnew⟩ := ih h.1 h.2.1
    rw [linesOf_cons_of_mem (by decide), linesOf_cons_of_mem (by decide), hold, hnew,
      ← List.drop_eq_getElem_cons, (getElem_eq_iff h.1 h.2.1).mp h.2.2,
      ← List.drop_eq_getElem_cons]
    exact ⟨rfl, rfl⟩
  | case2 i j width _ h ih =>
    obtain ⟨hold, hnew⟩ := ih hi h.1
    rw [linesOf_cons_of_not_mem (by decide), linesOf_cons_of_mem (by decide), hold, hnew,
      ← List.drop_eq_getElem_cons]
    exact ⟨rfl, rfl⟩
  | case3 i j width _ _ h ih =>
    obtain ⟨hold, hnew⟩ := ih h hj
    rw [linesOf_cons_of_mem (by decide), linesOf_cons_of_not_mem (by decide), hold, hnew,
      ← List.drop_eq_getElem_cons]
    exact ⟨rfl, rfl⟩
  | case4 i j width _ hnew hold =>
    have hi' : old.length ≤ i := not_lt.mp hold
    have hj' : new.length ≤ j := by
      by_contra hlt
      exact hnew ⟨by omega, .inl (by omega)⟩
    rw [List.drop_of_length_le hi', List.drop_of_length_le hj']
    exact ⟨rfl, rfl⟩

theorem ne_of_walk {i j : ℕ} (hi : i < old.length) (hj : j < new.length)
    (h : ¬ (i < old.length ∧ j < new.length ∧ old[i]? = new[j]?)) : old[i] ≠ new[j] := by
  intro heq
  exact h ⟨hi, hj, (getElem_eq_iff hi hj).mpr heq⟩

/-- As many lines are kept as the table says. -/
theorem kept_walk {i j : ℕ} (hi : i ≤ old.length) (hj : j ≤ new.length) :
    (linesOf [' '] (walk old new (lcsTable old new) i j)).length =
      lcs (old.drop i) (new.drop j) := by
  fun_induction walk old new (lcsTable old new) i j with
  | case1 i j h ih =>
    rw [linesOf_cons_of_mem (by decide), List.length_cons, ih h.1 h.2.1, lcs_drop h.1 h.2.1,
      if_pos ((getElem_eq_iff h.1 h.2.1).mp h.2.2)]
  | case2 i j width hne h ih =>
    rw [linesOf_cons_of_not_mem (by decide), ih hi h.1]
    obtain ⟨hj', hend | hright⟩ := h
    · rw [hend, List.drop_length, lcs_nil_left, lcs_nil_left]
    · rcases Nat.lt_or_eq_of_le hi with hi' | rfl
      · exact (lcs_right hi' hj' (ne_of_walk hi' hj' hne) hright).symm
      · rw [List.drop_length, lcs_nil_left, lcs_nil_left]
  | case3 i j width hne hnot h ih =>
    rw [linesOf_cons_of_not_mem (by decide), ih h hj]
    rcases Nat.lt_or_eq_of_le hj with hj' | rfl
    · have hless := not_le.mp fun hle => hnot ⟨hj', .inr hle⟩
      exact (lcs_below h hj' (ne_of_walk h hj' hne) hless.le).symm
    · rw [List.drop_length, lcs_nil_right, lcs_nil_right]
  | case4 i j width _ hnew hold =>
    rw [List.drop_of_length_le (not_lt.mp hold), lcs_nil_left]
    rfl

/-- What is kept is among what is kept or of another kind. -/
theorem linesOf_sublist (kind other : Char) (script : List (Char × Text)) :
    (linesOf [kind] script).Sublist (linesOf [kind, other] script) := by
  refine List.Sublist.map _ ?_
  refine List.monotone_filter_right _ fun edit hedit => ?_
  simp only [List.mem_singleton, decide_eq_true_eq] at hedit
  simp [hedit]

end Walk

/-! ## The mapping -/

section Mapping

variable {child parent : List Text}

/-- What the walk has mapped when it stands at `(i, j)`. -/
structure Mapped (child parent : List Text) (i j : ℕ) (mapping : List (Option ℕ)) : Prop where
  length_eq : mapping.length = child.length
  open_above : ∀ k < child.length, i ≤ k → mapping[k]? = some none
  below : ∀ k l : ℕ, mapping[k]? = some (some l) → l < j
  equal : ∀ k l : ℕ, mapping[k]? = some (some l) → l < parent.length ∧ child[k]? = parent[l]?
  increasing : ∀ k k' l l' : ℕ, k < k' → mapping[k]? = some (some l) →
    mapping[k']? = some (some l') → l < l'

/-- The number of lines that are mapped. -/
def mappedCount (mapping : List (Option ℕ)) : ℕ := mapping.countP Option.isSome

theorem Mapped.mono {i j i' j' : ℕ} {mapping : List (Option ℕ)}
    (h : Mapped child parent i j mapping) (hi : i ≤ i') (hj : j ≤ j') :
    Mapped child parent i' j' mapping where
  length_eq := h.length_eq
  open_above := fun k hk hle => h.open_above k hk (hi.trans hle)
  below := fun k l hkl => (h.below k l hkl).trans_le hj
  equal := h.equal
  increasing := h.increasing

/-- **Step lemma.** A pair of equal lines is mapped. -/
theorem Mapped.set {i j : ℕ} {mapping : List (Option ℕ)} (h : Mapped child parent i j mapping)
    (hi : i < child.length) (hj : j < parent.length) (heq : child[i] = parent[j]) :
    Mapped child parent (i + 1) (j + 1) (mapping.set i (some j)) ∧
      mappedCount (mapping.set i (some j)) = mappedCount mapping + 1 := by
  have hi' : i < mapping.length := h.length_eq ▸ hi
  have hself : (mapping.set i (some j))[i]? = some (some j) := List.getElem?_set_self hi'
  have hother {k : ℕ} (hk : i ≠ k) : (mapping.set i (some j))[k]? = mapping[k]? :=
    List.getElem?_set_ne hk
  have hbefore {k l : ℕ} (hk : i ≠ k) (hkl : mapping[k]? = some (some l)) : k < i := by
    by_contra hle
    have hlt : k < child.length := by
      rw [← h.length_eq]
      exact (List.getElem?_eq_some_iff.mp hkl).1
    rw [h.open_above k hlt (not_lt.mp hle)] at hkl
    cases hkl
  constructor
  · refine ⟨by rw [List.length_set, h.length_eq], fun k hk hle => ?_, fun k l hkl => ?_,
      fun k l hkl => ?_, fun k k' l l' hlt hkl hkl' => ?_⟩
    · rw [hother (by omega)]
      exact h.open_above k hk (by omega)
    · by_cases hk : i = k
      · subst hk
        obtain rfl : j = l := by simpa using hself.symm.trans hkl
        exact Nat.lt_succ_self j
      · rw [hother hk] at hkl
        exact (h.below k l hkl).trans (Nat.lt_succ_self j)
    · by_cases hk : i = k
      · subst hk
        obtain rfl : j = l := by simpa using hself.symm.trans hkl
        rw [List.getElem?_eq_getElem hi, List.getElem?_eq_getElem hj, heq]
        exact ⟨hj, rfl⟩
      · rw [hother hk] at hkl
        exact h.equal k l hkl
    · by_cases hk' : i = k'
      · subst hk'
        obtain rfl : j = l' := by simpa using hself.symm.trans hkl'
        rw [hother (by omega)] at hkl
        exact h.below k l hkl
      · rw [hother hk'] at hkl'
        have hk'i := hbefore hk' hkl'
        rw [hother (by omega)] at hkl
        exact h.increasing k k' l l' hlt hkl hkl'
  · have hnone : mapping[i] = none := by
      have hopen := h.open_above i hi le_rfl
      rw [List.getElem?_eq_getElem hi'] at hopen
      exact Option.some.inj hopen
    rw [mappedCount, List.countP_set hi', hnone]
    simp [mappedCount]

/-- **Run lemma.** The walk keeps what is mapped right, and maps as many lines as the table
    says. -/
theorem mapWalk_mapped {i j : ℕ} {mapping : List (Option ℕ)} (hi : i ≤ child.length)
    (hj : j ≤ parent.length) (h : Mapped child parent i j mapping) :
    Mapped child parent child.length parent.length
        (mapWalk child parent (lcsTable child parent) i j mapping) ∧
      mappedCount (mapWalk child parent (lcsTable child parent) i j mapping) =
        mappedCount mapping + lcs (child.drop i) (parent.drop j) := by
  fun_induction mapWalk child parent (lcsTable child parent) i j mapping with
  | case1 i j mapping hlt heq ih =>
    obtain ⟨hset, hcount⟩ := h.set hlt.1 hlt.2 heq
    obtain ⟨hmapped, htotal⟩ := ih hlt.1 hlt.2 hset
    refine ⟨hmapped, ?_⟩
    rw [htotal, hcount, lcs_drop hlt.1 hlt.2, if_pos heq]
    omega
  | case2 i j mapping width hlt hne hbelow ih =>
    obtain ⟨hmapped, htotal⟩ := ih hlt.1 hj (h.mono (Nat.le_succ i) le_rfl)
    refine ⟨hmapped, ?_⟩
    rw [htotal, lcs_below hlt.1 hlt.2 hne hbelow]
  | case3 i j mapping width hlt hne hbelow ih =>
    obtain ⟨hmapped, htotal⟩ := ih hi hlt.2 (h.mono le_rfl (Nat.le_succ j))
    refine ⟨hmapped, ?_⟩
    rw [htotal, lcs_right hlt.1 hlt.2 hne (not_le.mp hbelow).le]
  | case4 i j mapping hend =>
    refine ⟨h.mono hi hj, ?_⟩
    have hzero : lcs (child.drop i) (parent.drop j) = 0 := by
      rcases Nat.lt_or_ge i child.length with hlt | hge
      · rw [List.drop_of_length_le (not_lt.mp fun hlt' => hend ⟨hlt, hlt'⟩), lcs_nil_right]
      · rw [List.drop_of_length_le hge, lcs_nil_left]
    rw [hzero, Nat.add_zero]

theorem mapped_none (child parent : List Text) :
    Mapped child parent 0 0 (List.replicate child.length none) := by
  have hnone {k l : ℕ} : (List.replicate child.length (none : Option ℕ))[k]? ≠ some (some l) := by
    intro hkl
    have hmem := List.mem_of_getElem? hkl
    rw [List.mem_replicate] at hmem
    exact absurd hmem.2 (Option.some_ne_none l)
  exact ⟨List.length_replicate, fun k hk _ => List.getElem?_replicate_of_lt hk,
    fun _ _ h => absurd h hnone, fun _ _ h => absurd h hnone,
    fun _ _ _ _ _ h _ => absurd h hnone⟩

end Mapping

/-- What a script between two lists of lines is. -/
structure Edits (old new : List Text) (script : List (Char × Text)) : Prop where
  old_lines : linesOf [' ', '-'] script = old
  new_lines : linesOf [' ', '+'] script = new
  optimal : old.length * new.length ≤ maxCells → Longest (linesOf [' '] script) old new

/-- What a mapping from the lines of a child to those of its parent is. -/
structure Maps (child parent : List Text) (mapping : List (Option ℕ)) : Prop where
  length_eq : mapping.length = child.length
  equal : ∀ k l : ℕ, mapping[k]? = some (some l) → l < parent.length ∧ child[k]? = parent[l]?
  increasing : ∀ k k' l l' : ℕ, k < k' → mapping[k]? = some (some l) →
    mapping[k']? = some (some l') → l < l'
  optimal : child.length * parent.length ≤ maxCells →
    ∃ longest, Longest longest child parent ∧ mappedCount mapping = longest.length

theorem edits_editScript (old new : List Text) : Edits old new (editScript old new) := by
  unfold editScript
  split_ifs with hcells
  · refine ⟨?_, ?_, fun hle => absurd hle (not_le.mpr hcells)⟩
    · rw [linesOf_append, linesOf_map, linesOf_map, if_pos (by decide), if_neg (by decide),
        List.append_nil]
    · rw [linesOf_append, linesOf_map, linesOf_map, if_neg (by decide), if_pos (by decide),
        List.nil_append]
  · obtain ⟨hold, hnew⟩ := lines_walk (lcsTable old new) (Nat.zero_le old.length)
      (Nat.zero_le new.length)
    rw [List.drop_zero] at hold hnew
    refine ⟨hold, hnew, fun _ => longest_of_length ?_ ?_ ?_⟩
    · have hkept := linesOf_sublist ' ' '-' (walk old new (lcsTable old new) 0 0)
      rwa [hold] at hkept
    · have hkept := linesOf_sublist ' ' '+' (walk old new (lcsTable old new) 0 0)
      rwa [hnew] at hkept
    · exact kept_walk (Nat.zero_le _) (Nat.zero_le _)

theorem maps_lineMapping (child parent : List Text) :
    Maps child parent (lineMapping child parent) := by
  have hnone := mapped_none child parent
  unfold lineMapping
  split_ifs with hcells
  · exact ⟨hnone.length_eq, hnone.equal, hnone.increasing,
      fun hle => absurd hle (not_le.mpr hcells)⟩
  · obtain ⟨hmapped, htotal⟩ := mapWalk_mapped (Nat.zero_le _) (Nat.zero_le _) hnone
    refine ⟨hmapped.length_eq, hmapped.equal, hmapped.increasing, fun _ => ?_⟩
    obtain ⟨longest, hlongest, hlength⟩ := exists_longest child parent
    refine ⟨longest, hlongest, ?_⟩
    rw [htotal, hlength, mappedCount, List.countP_replicate]
    simp

/-- **Main theorem.** The lines that an edit script keeps or removes are the old lines, those that
    it keeps or adds the new ones, and the mapping of `blame` is strictly increasing and maps equal
    lines. Within the cell limit both are as long as a longest common subsequence. -/
theorem line_diff_optimal (old new : List Text) :
    Edits old new (editScript old new) ∧ Maps old new (lineMapping old new) :=
  ⟨edits_editScript old new, maps_lineMapping old new⟩

end Mrml.Git
