import Mrml.Common.Infix

/-!
# Lines and parts of a text

The functions of `str` that take a text apart: its lines, what is left without the whitespace
around it, and what comes before and after a separator.

Results:
* `lines_append_newline`, `lines_unlines`: the lines of a text, without their line endings.
* `unlines_stripReturn`: putting the lines together again gives the text exactly if no line ends
  with a carriage return.
* `splitOnceText_unlines`: the first empty line.
-/

namespace Mrml.Text

/-! ## Whitespace -/

/-- `char::is_whitespace`: the property `White_Space`. -/
def isWhitespace (c : Char) : Bool :=
  (0x09 ≤ c.toNat && c.toNat ≤ 0x0d) || c.toNat == 0x20 || c.toNat == 0x85 || c.toNat == 0xa0 ||
    c.toNat == 0x1680 || (0x2000 ≤ c.toNat && c.toNat ≤ 0x200a) || c.toNat == 0x2028 ||
    c.toNat == 0x2029 || c.toNat == 0x202f || c.toNat == 0x205f || c.toNat == 0x3000

/-- `str::trim`. -/
def trim (text : Text) : Text := (text.dropWhile isWhitespace).rdropWhile isWhitespace

/-- Whitespace in front does not matter. -/
theorem trim_append_left {front : Text} (h : ∀ c ∈ front, isWhitespace c = true) (text : Text) :
    trim (front ++ text) = trim text := by
  rw [trim, List.dropWhile_append_of_pos h, trim]

/-- Whitespace behind does not matter. -/
theorem trim_append_right {back : Text} (h : ∀ c ∈ back, isWhitespace c = true) (text : Text) :
    trim (text ++ back) = trim text := by
  have hback (text : Text) : (text ++ back).rdropWhile isWhitespace =
      text.rdropWhile isWhitespace := by
    rw [List.rdropWhile, List.reverse_append, List.dropWhile_append_of_pos, List.rdropWhile]
    exact fun c hc => h c (List.mem_reverse.mp hc)
  rw [trim, List.dropWhile_append]
  split_ifs with hempty
  · have hnil : text.dropWhile isWhitespace = [] := List.isEmpty_iff.mp hempty
    rw [trim, hnil, List.dropWhile_eq_nil_iff.mpr h]
  · exact hback _

/-- The last of the characters that are not whitespace. -/
theorem rdropWhile_append_cons {c : Char} (h : ¬isWhitespace c = true) (front back : Text) :
    (front ++ c :: back).rdropWhile isWhitespace =
      front ++ c :: back.rdropWhile isWhitespace := by
  induction back using List.reverseRecOn with
  | nil => exact List.rdropWhile_concat_neg _ _ _ h
  | append_singleton back d ih =>
    rw [← List.cons_append, ← List.append_assoc]
    by_cases hd : isWhitespace d = true
    · rw [List.rdropWhile_concat_pos _ _ _ hd, List.rdropWhile_concat_pos _ _ _ hd, ih]
    · rw [List.rdropWhile_concat_neg _ _ _ hd, List.rdropWhile_concat_neg _ _ _ hd]
      simp

/-! ## Parts -/

/-- `str::strip_prefix`. -/
def stripPrefix (before text : Text) : Option Text :=
  if before.isPrefixOf text then some (text.drop before.length) else none

/-- `str::strip_suffix`. -/
def stripSuffix (after text : Text) : Option Text :=
  if after.isSuffixOf text then some (text.take (text.length - after.length)) else none

/-- `str::split_once` at a text. -/
def splitOnceText (separator : Text) : Text → Option (Text × Text)
  | [] => if separator = [] then some ([], []) else none
  | c :: rest =>
    if separator.isPrefixOf (c :: rest) then some ([], (c :: rest).drop separator.length)
    else (splitOnceText separator rest).map fun parts => (c :: parts.1, parts.2)

theorem stripPrefix_append (before rest : Text) : stripPrefix before (before ++ rest) = some rest := by
  rw [stripPrefix, if_pos (List.isPrefixOf_iff_prefix.mpr (List.prefix_append _ _)),
    List.drop_left]

theorem stripPrefix_eq_some {before text rest : Text} :
    stripPrefix before text = some rest ↔ text = before ++ rest := by
  constructor
  · intro h
    unfold stripPrefix at h
    split_ifs at h with hprefix
    obtain ⟨rest', rfl⟩ := List.isPrefixOf_iff_prefix.mp hprefix
    rw [List.drop_left] at h
    rw [Option.some.inj h]
  · rintro rfl
    exact stripPrefix_append before rest

/-! ## Lines -/

/-- `str::lines`: the parts that end with a line feed, without it and without a carriage return
before it, and what follows the last of them, if anything does. -/
def lines : Text → List Text
  | [] => []
  | c :: rest =>
    if c = '\n' then [] :: lines rest
    else if c = '\r' ∧ rest.head? = some '\n' then lines rest
    else
      match lines rest with
      | [] => [[c]]
      | line :: more => (c :: line) :: more

/-- The lines have no line feeds. -/
theorem newline_notMem_lines {text : Text} : ∀ line ∈ lines text, '\n' ∉ line := by
  induction text with
  | nil => exact fun line hline => absurd hline List.not_mem_nil
  | cons c rest ih =>
    intro line hline
    unfold lines at hline
    split_ifs at hline with hfeed hreturn
    · obtain rfl | hline := List.mem_cons.mp hline
      · exact List.not_mem_nil
      · exact ih line hline
    · exact ih line hline
    · split at hline
      · rw [List.mem_singleton.mp hline, List.mem_singleton]
        exact Ne.symm hfeed
      · rename_i first more hlines
        rw [hlines] at ih
        obtain ⟨hfirst, hmore⟩ := List.forall_mem_cons.mp ih
        obtain rfl | hline := List.mem_cons.mp hline
        · exact fun hmem => (List.mem_cons.mp hmem).elim (fun heq => hfeed heq.symm) hfirst
        · exact hmore line hline

/-- A line without the carriage return at its end. -/
def stripReturn (line : Text) : Text := if line.getLast? = some '\r' then line.dropLast else line

/-- The first line of a text, up to its line feed. -/
theorem lines_append_newline {line : Text} (h : '\n' ∉ line) (rest : Text) :
    lines (line ++ '\n' :: rest) = stripReturn line :: lines rest := by
  induction line with
  | nil => rfl
  | cons c line ih =>
    obtain ⟨hc, hline⟩ := not_or.mp (mt List.mem_cons.mpr h)
    rw [List.cons_append, lines, if_neg (Ne.symm hc), ih hline]
    cases line with
    | nil =>
      by_cases hreturn : c = '\r'
      · subst hreturn
        rfl
      · simp [hreturn, stripReturn]
    | cons d line =>
      have hd : d ≠ '\n' := fun heq => hline (heq ▸ List.mem_cons_self)
      rw [if_neg (by simpa using fun _ => hd)]
      simp only [stripReturn, List.getLast?_cons_cons]
      split_ifs with hlast
      · rfl
      · rfl

/-- Lines, each with a line feed after it. -/
def unlines (ls : List Text) : Text := ls.flatMap fun line => line ++ ['\n']

@[simp] theorem unlines_nil : unlines [] = [] := rfl

@[simp] theorem unlines_cons (line : Text) (ls : List Text) :
    unlines (line :: ls) = line ++ '\n' :: unlines ls := by
  rw [unlines, List.flatMap_cons, List.append_assoc, List.singleton_append]
  rfl

theorem unlines_append (ls ls' : List Text) : unlines (ls ++ ls') = unlines ls ++ unlines ls' :=
  List.flatMap_append

/-- The lines of a text that was put together of lines. -/
theorem lines_unlines {ls : List Text} (h : ∀ line ∈ ls, '\n' ∉ line) (rest : Text) :
    lines (unlines ls ++ rest) = ls.map stripReturn ++ lines rest := by
  induction ls with
  | nil => rfl
  | cons line ls ih =>
    obtain ⟨hline, hls⟩ := List.forall_mem_cons.mp h
    rw [unlines_cons, List.append_assoc, List.cons_append, lines_append_newline hline, ih hls]
    rfl

/-- A text that ends with a line feed is put together of lines. -/
theorem exists_unlines (front : Text) :
    ∃ ls, ls ≠ [] ∧ (∀ line ∈ ls, '\n' ∉ line) ∧ front ++ ['\n'] = unlines ls := by
  induction hn : front.length using Nat.strong_induction_on generalizing front with
  | _ n ih =>
  by_cases hmem : '\n' ∈ front
  · obtain ⟨line, rest, rfl, hline⟩ := List.eq_append_cons_of_mem hmem
    rw [List.length_append, List.length_cons] at hn
    obtain ⟨ls, -, hls, heq⟩ := ih rest.length (by omega) rest rfl
    refine ⟨line :: ls, List.cons_ne_nil _ _, List.forall_mem_cons.mpr ⟨hline, hls⟩, ?_⟩
    rw [unlines_cons, ← heq, List.append_assoc, List.cons_append]
  · exact ⟨[front], List.cons_ne_nil _ _, List.forall_mem_singleton.mpr hmem, by simp⟩

theorem trim_stripReturn (line : Text) : trim (stripReturn line) = trim line := by
  unfold stripReturn
  split_ifs with hreturn
  · obtain ⟨front, rfl⟩ := List.getLast?_eq_some_iff.mp hreturn
    rw [List.dropLast_concat, trim_append_right]
    exact List.forall_mem_singleton.mpr (by decide)
  · rfl

theorem length_stripReturn (line : Text) : (stripReturn line).length ≤ line.length := by
  unfold stripReturn
  split_ifs
  · rw [List.length_dropLast]
    omega
  · exact le_rfl

theorem newline_notMem_stripReturn {line : Text} (h : '\n' ∉ line) : '\n' ∉ stripReturn line := by
  unfold stripReturn
  split_ifs
  · exact fun hmem => h (List.mem_of_mem_dropLast hmem)
  · exact h

/-- Lines that lose their carriage returns are shorter. -/
theorem length_unlines_stripReturn (ls : List Text) :
    (unlines (ls.map stripReturn)).length ≤ (unlines ls).length := by
  induction ls with
  | nil => exact le_rfl
  | cons line ls ih =>
    have hle := length_stripReturn line
    simp only [List.map_cons, unlines_cons, List.length_append, List.length_cons]
    omega

/-- Lines are the same without carriage returns at their ends exactly if there are none. -/
theorem unlines_stripReturn (ls : List Text) :
    unlines (ls.map stripReturn) = unlines ls ↔ ∀ line ∈ ls, line.getLast? ≠ some '\r' := by
  constructor
  · intro h line hline hreturn
    obtain ⟨before, after, rfl⟩ := List.append_of_mem hline
    have hbefore := length_unlines_stripReturn before
    have hafter := length_unlines_stripReturn after
    have hlength := congrArg List.length h
    have hpos : line.length ≠ 0 := by
      intro hzero
      rw [List.length_eq_zero_iff.mp hzero] at hreturn
      cases hreturn
    have hstrip : (stripReturn line).length = line.length - 1 := by
      rw [stripReturn, if_pos hreturn, List.length_dropLast]
    simp only [List.map_append, List.map_cons, unlines_append, unlines_cons, List.length_append,
      List.length_cons, hstrip] at hlength
    omega
  · intro h
    refine congrArg unlines ((List.map_congr_left fun line hline => ?_).trans (List.map_id _))
    rw [stripReturn, if_neg (h line hline)]
    rfl

/-- A carriage return comes before a line feed exactly if a line ends with one. -/
theorem infix_unlines_iff {ls : List Text} (h : ∀ line ∈ ls, '\n' ∉ line) :
    ['\r', '\n'] <:+: unlines ls ↔ ∃ line ∈ ls, line.getLast? = some '\r' := by
  have hlast (line : Text) : ['\r'] <:+ line ↔ line.getLast? = some '\r' :=
    (List.getLast?_eq_some_iff.trans (exists_congr fun _ => eq_comm)).symm
  induction ls with
  | nil => simp
  | cons line ls ih =>
    obtain ⟨hline, hls⟩ := List.forall_mem_cons.mp h
    have hparts := @infix_append_cons_self_iff _ ['\r'] _ (unlines ls) _ hline (by decide)
    rw [unlines_cons, List.exists_mem_cons_iff, ← hlast]
    exact hparts.trans (or_congr_right (ih hls))

/-! ## The first separator -/

/-- No separator begins in front of a line feed if it begins with one. -/
theorem splitOnceText_append {line separator : Text} (h : '\n' ∉ line) (rest : Text) :
    splitOnceText ('\n' :: separator) (line ++ rest) =
      (splitOnceText ('\n' :: separator) rest).map fun parts => (line ++ parts.1, parts.2) := by
  induction line with
  | nil => simp
  | cons c line ih =>
    obtain ⟨hc, hline⟩ := not_or.mp (mt List.mem_cons.mpr h)
    have hprefix : ¬('\n' :: separator).isPrefixOf (c :: (line ++ rest)) = true := by
      rw [List.isPrefixOf_iff_prefix, List.cons_prefix_cons]
      exact fun hboth => hc hboth.1
    rw [List.cons_append, splitOnceText, if_neg hprefix, ih hline, Option.map_map]
    rfl

/-- The first empty line comes after the lines that are not empty. -/
theorem splitOnceText_unlines {ls : List Text} (hne : ls ≠ [])
    (h : ∀ line ∈ ls, line ≠ [] ∧ '\n' ∉ line) (rest : Text) :
    splitOnceText ['\n', '\n'] (unlines ls ++ '\n' :: rest) =
      some (['\n'].intercalate ls, rest) := by
  induction ls with
  | nil => exact absurd rfl hne
  | cons line ls ih =>
    obtain ⟨⟨hline, hfeed⟩, hls⟩ := List.forall_mem_cons.mp h
    rw [unlines_cons, List.append_assoc, splitOnceText_append hfeed, List.cons_append]
    cases ls with
    | nil =>
      have hprefix : ['\n', '\n'].isPrefixOf ('\n' :: '\n' :: rest) = true := rfl
      rw [unlines_nil, List.nil_append, splitOnceText, if_pos hprefix, List.intercalate_singleton]
      simp
    | cons line' ls =>
      obtain ⟨⟨hline', hfeed'⟩, -⟩ := List.forall_mem_cons.mp hls
      obtain ⟨c, line', rfl⟩ := List.exists_cons_of_ne_nil hline'
      have hc : '\n' ≠ c := fun heq => hfeed' (heq ▸ List.mem_cons_self)
      have hprefix : ¬['\n', '\n'].isPrefixOf
          ('\n' :: (unlines ((c :: line') :: ls) ++ '\n' :: rest)) = true := by
        rw [List.isPrefixOf_iff_prefix, List.cons_prefix_cons, unlines_cons, List.cons_append,
          List.cons_append, List.cons_prefix_cons]
        exact fun hboth => hc hboth.2.1
      rw [splitOnceText, if_neg hprefix, ih (List.cons_ne_nil _ _) hls,
        List.intercalate_cons_cons]
      simp

end Mrml.Text
