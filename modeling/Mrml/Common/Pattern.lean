import Mrml.Common.Lines
import Mrml.Common.StrIndex

/-!
# Patterns in a text

Methods of `str` that look for a character or for a text: `find` and `rfind`, whose results are
byte offsets, `trim_start_matches`, `trim_end_matches`, `split_once` and `replace`.

Results:
* `find_eq_some`, `rfind_eq_some`: the first and the last place of a character.
* `replace_of_not_infix`: a text without the pattern is left as it is.
-/

namespace Mrml.Text

/-! ## Offsets of a character -/

/-- `text.find(c)`. -/
def find (c : Char) (text : Text) : Option ℕ :=
  if c ∈ text then some (asBytes (text.takeWhile fun d => d != c)).length else none

/-- `text.rfind(c)`. -/
def rfind (c : Char) (text : Text) : Option ℕ :=
  if c ∈ text then some (asBytes (text.rdropWhile fun d => d != c).dropLast).length else none

variable {c : Char} {text : Text}

theorem takeWhile_ne {a : Text} (h : c ∉ a) (b : Text) :
    ((a ++ c :: b).takeWhile fun d => d != c) = a := by
  rw [List.takeWhile_append_of_pos, List.takeWhile_cons_of_neg (by simp), List.append_nil]
  intro d hd
  rw [bne_iff_ne]
  rintro rfl
  exact h hd

theorem rdropWhile_ne {b : Text} (h : c ∉ b) (a : Text) :
    ((a ++ c :: b).rdropWhile fun d => d != c).dropLast = a := by
  have hrev : (a ++ c :: b).reverse = b.reverse ++ c :: a.reverse := by simp
  rw [List.rdropWhile, hrev, List.dropWhile_append_of_pos, List.dropWhile_cons_of_neg (by simp),
    List.reverse_cons, List.reverse_reverse, List.dropLast_concat]
  intro d hd
  rw [bne_iff_ne]
  rintro rfl
  exact h (List.mem_reverse.mp hd)

theorem find_eq_none : find c text = none ↔ c ∉ text := by
  unfold find
  split_ifs with h
  · simp [h]
  · simp [h]

theorem find_append {a : Text} (h : c ∉ a) (b : Text) :
    find c (a ++ c :: b) = some (asBytes a).length := by
  rw [find, if_pos (List.mem_append_right _ List.mem_cons_self), takeWhile_ne h]

theorem rfind_append {b : Text} (h : c ∉ b) (a : Text) :
    rfind c (a ++ c :: b) = some (asBytes a).length := by
  rw [rfind, if_pos (List.mem_append_right _ List.mem_cons_self), rdropWhile_ne h]

/-- The first place of a character. -/
theorem find_eq_some {offset : ℕ} : find c text = some offset ↔
    ∃ a b, text = a ++ c :: b ∧ c ∉ a ∧ (asBytes a).length = offset := by
  constructor
  · intro h
    have hmem : c ∈ text := by
      by_contra hmem
      rw [find_eq_none.mpr hmem] at h
      exact nomatch h
    obtain ⟨a, b, rfl, ha⟩ := List.eq_append_cons_of_mem hmem
    rw [find_append ha] at h
    exact ⟨a, b, rfl, ha, Option.some.inj h⟩
  · rintro ⟨a, b, rfl, ha, rfl⟩
    exact find_append ha b

theorem exists_last (h : c ∈ text) : ∃ a b, text = a ++ c :: b ∧ c ∉ b := by
  obtain ⟨a, b, hsplit, ha⟩ := List.eq_append_cons_of_mem (List.mem_reverse.mpr h)
  refine ⟨b.reverse, a.reverse, ?_, fun hmem => ha (List.mem_reverse.mp hmem)⟩
  rw [← List.reverse_reverse text, hsplit]
  simp

/-- The last place of a character. -/
theorem rfind_eq_some {offset : ℕ} : rfind c text = some offset ↔
    ∃ a b, text = a ++ c :: b ∧ c ∉ b ∧ (asBytes a).length = offset := by
  constructor
  · intro h
    have hmem : c ∈ text := by
      by_contra hmem
      rw [rfind, if_neg hmem] at h
      exact nomatch h
    obtain ⟨a, b, rfl, hb⟩ := exists_last hmem
    rw [rfind_append hb] at h
    exact ⟨a, b, rfl, hb, Option.some.inj h⟩
  · rintro ⟨a, b, rfl, hb, rfl⟩
    exact rfind_append hb a

/-! ## Parts -/

/-- `text.split_once(c)`. -/
def splitOnce (c : Char) (text : Text) : Option (Text × Text) :=
  if c ∈ text then
    some (text.takeWhile fun d => d != c, (text.dropWhile fun d => d != c).tail)
  else none

/-- The loop of `trim_start_matches`: `pattern` is taken off as often as it is in front. -/
def trimStartLoop (pattern : Text) : ℕ → Text → Text
  | 0, text => text
  | fuel + 1, text =>
    match stripPrefix pattern text with
    | some rest => trimStartLoop pattern fuel rest
    | none => text

/-- `text.trim_start_matches(pattern)`, where `pattern` is not empty. -/
def trimStartMatches (pattern text : Text) : Text := trimStartLoop pattern text.length text

/-- The loop of `trim_end_matches`. -/
def trimEndLoop (pattern : Text) : ℕ → Text → Text
  | 0, text => text
  | fuel + 1, text =>
    match stripSuffix pattern text with
    | some rest => trimEndLoop pattern fuel rest
    | none => text

/-- `text.trim_end_matches(pattern)`, where `pattern` is not empty. -/
def trimEndMatches (pattern text : Text) : Text := trimEndLoop pattern text.length text

/-- The loop of `Text::replacen` (`crates/mrml-runtime/src/text.rs`, lines 198–207) on what
remains. -/
def replaceLoop (needle replacement : Text) : ℕ → Text → Text
  | 0, remainder => remainder
  | fuel + 1, remainder =>
    match splitOnceText needle remainder with
    | none => remainder
    | some (front, rest) => front ++ replacement ++ replaceLoop needle replacement fuel rest

/-- `Text::replace` (`crates/mrml-runtime/src/text.rs`, lines 187–209). -/
def replace (needle replacement text : Text) : Text :=
  if needle = [] then text else replaceLoop needle replacement text.length text

theorem splitOnceText_eq_none {separator : Text} (h : ¬separator <:+: text) :
    splitOnceText separator text = none := by
  induction text with
  | nil =>
    refine if_neg ?_
    rintro rfl
    exact h List.nil_infix
  | cons d text ih =>
    rw [List.infix_cons_iff, not_or] at h
    rw [splitOnceText, if_neg (fun hprefix => h.1 (List.isPrefixOf_iff_prefix.mp hprefix)),
      ih h.2]
    rfl

/-- A text without the pattern is left as it is. -/
theorem replace_of_not_infix {needle : Text} (h : ¬needle <:+: text) (replacement : Text) :
    replace needle replacement text = text := by
  unfold replace
  split_ifs with hnil
  · rfl
  · cases hlength : text.length with
    | zero => rfl
    | succ fuel => rw [replaceLoop, splitOnceText_eq_none h]

end Mrml.Text
