import Mrml.Common.Text

/-!
# Searching for a part

Where a list has another as a part, and `windows(n).position` of Rust, which finds the first
such place.

Results:
* `infix_append_cons_iff`, `infix_append_left_iff`, `infix_append_right_iff`: a part that an
  element separates, or that begins or ends otherwise, is on one side.
* `findWindow_append`, `findWindow_lt`: the first place of a part.
* `infix_asBytes_iff`: a text that begins with an ASCII character is found in the bytes of a text
  where it is in the text.
-/

namespace Mrml

variable {α : Type} {part a b : List α} {x : α}

/-! ## Parts of a list -/

/-- A part without a certain element does not go across it. -/
theorem infix_append_cons_iff (h : x ∉ part) :
    part <:+: a ++ x :: b ↔ part <:+: a ∨ part <:+: b := by
  constructor
  · rintro ⟨front, back, heq⟩
    rw [List.append_assoc] at heq
    obtain ⟨middle, rfl, hrest⟩ | ⟨middle, rfl, hrest⟩ := List.append_eq_append_iff.mp heq
    · obtain ⟨more, rfl, hback⟩ | ⟨more, rfl, hback⟩ := List.append_eq_append_iff.mp hrest.symm
      · cases more with
        | nil => exact .inl ⟨front, [], by simp⟩
        | cons y more =>
          rw [List.cons_append] at hback
          obtain ⟨rfl, -⟩ := List.cons.inj hback
          exact absurd (List.mem_append_right _ List.mem_cons_self) h
      · exact .inl ⟨front, more, by simp⟩
    · cases middle with
      | nil =>
        cases part with
        | nil => exact .inl List.nil_infix
        | cons y part =>
          obtain ⟨rfl, -⟩ := List.cons.inj hrest
          exact absurd List.mem_cons_self h
      | cons y middle =>
        obtain ⟨rfl, hb⟩ := List.cons.inj hrest
        exact .inr ⟨middle, back, (List.append_assoc _ _ _).trans hb.symm⟩
  · rintro (h | h)
    · exact h.trans (List.prefix_append _ _).isInfix
    · exact h.trans ((List.suffix_cons x b).trans (List.suffix_append a _)).isInfix

/-- A part begins after what does not have its first element. -/
theorem infix_append_left_iff (h : x ∉ a) : x :: part <:+: a ++ b ↔ x :: part <:+: b := by
  induction a with
  | nil => rfl
  | cons y a ih =>
    obtain ⟨hne, ha⟩ := not_or.mp (mt List.mem_cons.mpr h)
    rw [List.cons_append, List.infix_cons_iff, ih ha, List.cons_prefix_cons, or_iff_right]
    exact fun hboth => hne hboth.1

/-- A part ends before what does not have its last element. -/
theorem infix_append_right_iff (h : x ∉ b) : part ++ [x] <:+: a ++ b ↔ part ++ [x] <:+: a := by
  rw [← List.reverse_infix, ← @List.reverse_infix _ _ a, List.reverse_append,
    List.reverse_append, List.reverse_singleton, List.singleton_append]
  exact infix_append_left_iff fun hmem => h (List.mem_reverse.mp hmem)

/-- Up to the first place of an element there is one list. -/
theorem eq_of_prefix_append_singleton (ha : x ∉ a) (hpart : x ∉ part) :
    part ++ [x] <+: a ++ x :: b ↔ part = a := by
  constructor
  · intro h
    induction part generalizing a with
    | nil =>
      cases a with
      | nil => rfl
      | cons y a =>
        rw [List.nil_append, List.cons_append, List.cons_prefix_cons] at h
        exact absurd (h.1 ▸ List.mem_cons_self) ha
    | cons z part ih =>
      obtain ⟨hz, hpart⟩ := not_or.mp (mt List.mem_cons.mpr hpart)
      cases a with
      | nil =>
        rw [List.cons_append, List.nil_append, List.cons_prefix_cons] at h
        exact absurd h.1.symm hz
      | cons y a =>
        rw [List.cons_append, List.cons_append, List.cons_prefix_cons] at h
        rw [h.1, ih (fun hmem => ha (List.mem_cons_of_mem _ hmem)) hpart h.2]
  · rintro rfl
    exact ⟨b, by rw [List.append_assoc, List.singleton_append]⟩

/-- A part that ends with an element it does not have before ends at the first place of that
element or is behind it. -/
theorem infix_append_cons_self_iff (ha : x ∉ a) (hpart : x ∉ part) :
    part ++ [x] <:+: a ++ x :: b ↔ part <:+ a ∨ part ++ [x] <:+: b := by
  induction a with
  | nil =>
    rw [List.nil_append, List.infix_cons_iff, List.suffix_nil]
    exact or_congr_left (eq_of_prefix_append_singleton List.not_mem_nil hpart)
  | cons y a ih =>
    rw [List.cons_append, List.infix_cons_iff, ih fun hmem => ha (List.mem_cons_of_mem _ hmem),
      List.suffix_cons_iff, ← or_assoc, ← List.cons_append,
      eq_of_prefix_append_singleton ha hpart]

/-! ## The first place -/

variable [DecidableEq α]

/-- `windows(part.len()).position(|window| window == part)`. -/
def findWindow (part list : List α) : Option ℕ :=
  (List.range (list.length + 1 - part.length)).find? fun i => part.isPrefixOf (list.drop i)

theorem findWindow_eq_some {i : ℕ} (hpart : part ≠ []) :
    findWindow part a = some i ↔ part <+: a.drop i ∧ ∀ j < i, ¬part <+: a.drop j := by
  unfold findWindow
  rw [List.find?_range_eq_some]
  simp only [List.isPrefixOf_iff_prefix, Bool.not_eq_true', ← Bool.not_eq_true, List.mem_range]
  constructor
  · rintro ⟨hfound, -, hfirst⟩
    exact ⟨hfound, hfirst⟩
  · rintro ⟨hfound, hfirst⟩
    refine ⟨hfound, ?_, hfirst⟩
    have hle := hfound.length_le
    have hpos := List.length_pos_iff.mpr hpart
    rw [List.length_drop] at hle
    omega

/-- A part that begins the rest of a list and has no element of the first piece's end is found
there, unless the first piece has it. -/
theorem findWindow_append (hpart : part ≠ []) (h : x ∉ part) (hb : part <+: b)
    (ha : ¬part <:+: a) : findWindow part (a ++ x :: b) = some (a.length + 1) := by
  have hdrop : (a ++ x :: b).drop (a.length + 1) = b := by
    rw [List.drop_append, List.drop_of_length_le (Nat.le_succ _), List.nil_append,
      Nat.add_sub_cancel_left, List.drop_one, List.tail_cons]
  refine (findWindow_eq_some hpart).mpr ⟨by rwa [hdrop], fun j hj hfound => ?_⟩
  rw [List.drop_append_of_le_length (by omega)] at hfound
  -- what is found before the end of the first piece does not go across it
  obtain ⟨back, hback⟩ := hfound
  have hfront : part <+: a.drop j := by
    obtain ⟨more, hmore, -⟩ | ⟨more, hmore, hrest⟩ := List.append_eq_append_iff.mp hback
    · exact ⟨more, hmore.symm⟩
    · cases more with
      | nil => exact ⟨[], by rw [List.append_nil, hmore, List.append_nil]⟩
      | cons y more =>
        obtain ⟨rfl, -⟩ := List.cons.inj hrest
        exact absurd (hmore ▸ List.mem_append_right _ List.mem_cons_self) h
  exact ha (hfront.isInfix.trans (List.drop_suffix j a).isInfix)

/-- A part of the first piece of a list is found in it. -/
theorem findWindow_lt (hpart : part ≠ []) (ha : part <:+: a) {i : ℕ}
    (hfind : findWindow part (a ++ b) = some i) : i < a.length := by
  obtain ⟨front, back, rfl⟩ := ha
  have hpos := List.length_pos_iff.mpr hpart
  have hfirst := ((findWindow_eq_some hpart).mp hfind).2
  by_contra hle
  simp only [List.length_append] at hle
  refine hfirst front.length (by omega) ⟨back ++ b, ?_⟩
  simp only [List.append_assoc, List.drop_left]

/-! ## Texts -/

namespace Text

/-- A text that begins with an ASCII character is found in the bytes of a text where it is in the
text. -/
theorem infix_asBytes_iff {c : Char} {part text : Text} (hc : c.toNat ≤ 0x7f) :
    asBytes (c :: part) <:+: asBytes text ↔ c :: part <:+: text := by
  constructor
  · intro h
    induction text with
    | nil =>
      rw [asBytes_nil, List.infix_nil, asBytes_cons, utf8EncodeChar_of_ascii hc] at h
      cases h
    | cons d text ih =>
      rw [List.infix_cons_iff]
      by_cases hfront : asBytes (c :: part) <+: asBytes (d :: text)
      · obtain ⟨rest, hrest⟩ := hfront
        exact .inl (prefix_of_asBytes hrest)
      · right
        refine ih ?_
        rw [asBytes_cons (c := c), utf8EncodeChar_of_ascii hc, List.singleton_append] at h hfront ⊢
        rw [asBytes_cons (c := d)] at h hfront
        by_cases hd : d.toNat ≤ 0x7f
        · rw [utf8EncodeChar_of_ascii hd, List.singleton_append] at h hfront
          exact (List.infix_cons_iff.mp h).resolve_left hfront
        · refine (infix_append_left_iff fun hmem => ?_).mp h
          obtain ⟨hascii, -⟩ | hhigh := mem_utf8EncodeChar hmem
          · exact hd hascii
          · rw [UInt8.toNat_ofNat'] at hhigh
            omega
  · rintro ⟨front, back, rfl⟩
    exact ⟨asBytes front, asBytes back, by simp⟩

end Text

end Mrml
