import Mrml.Common.Sections
import Mrml.Git.Commit

/-!
# The configuration of a repository

Model of `config_value`, `set_config_value` and `remotes` of `crates/mrml-git/src/repository.rs`
(lines 1653–1671, 1801–1823 and 1853–1898). A configuration is a text whose lines are the headers
of sections and settings in them, as `Sections` has it.

Results:
* `configLoop_eq`, `remotesLoop_eq`: what is looked up, in terms of the settings of the sections.
* `setConfigText_eq`: the lines of an edited configuration.
* `setConfigValue_local_iff`: exactly when an edit is local, and the same when made twice.
-/

namespace Mrml.Git

open Text Sections

/-- `validate_config_name` (lines 2713–2724). No byte of a character beyond ASCII is
alphanumeric. -/
def validateConfigName (value : Text) : Except RepositoryError Unit :=
  refuseIf (value = [] ∨ value.head? = some '-' ∨
    ¬value.all (fun c => c.isAlphanum || c == '.' || c == '-' || c == '_')) .invalidReference

/-- `remote_section` (lines 2761–2765). -/
def remoteSection (line : Text) : Option Text :=
  (stripPrefix "[remote \"".toList line).bind fun rest =>
    (stripSuffix "\"]".toList rest).filter fun name => (validateConfigName name).isOk

/-- The header of a section. -/
def sectionHeader (name : Text) : Text := '[' :: (name ++ [']'])

/-- The line of a setting. -/
def settingLine (key value : Text) : Text := '\t' :: (key ++ " = ".toList ++ value)

/-! ## Reading -/

/-- The loop of `config_value` (lines 1807–1820). -/
def configLoop (target key : Text) : Bool → List Text → Option Text
  | _, [] => none
  | active, raw :: rest =>
    let line := trim raw
    if line.head? = some '[' then configLoop target key (target = line) rest
    else if active then
      match splitOnce '=' line with
      | some (found, value) =>
        if trim found = key then some (trim value) else configLoop target key active rest
      | none => configLoop target key active rest
    else configLoop target key active rest

/-- The loop of `remotes` (lines 1657–1669). -/
def remotesLoop : Option Text → List Text → List (Text × Text)
  | _, [] => []
  | current, raw :: rest =>
    let line := trim raw
    if line.head? = some '[' then remotesLoop (remoteSection line) rest
    else
      match current with
      | some name =>
        match splitOnce '=' line with
        | some (key, value) =>
          if trim key = "url".toList then (name, trim value) :: remotesLoop current rest
          else remotesLoop current rest
        | none => remotesLoop current rest
      | none => remotesLoop current rest

/-! ## Writing -/

/-- What `set_config_value` knows after some of the lines (lines 1868–1871). -/
structure Rewriting where
  output : Text
  active : Bool
  foundSection : Bool
  wrote : Bool

namespace Rewriting

/-- A header (lines 1875–1879). -/
def enter (target key value line : Text) (rewriting : Rewriting) : Rewriting :=
  let rewriting :=
    if rewriting.active ∧ ¬rewriting.wrote then
      { rewriting with
        output := rewriting.output ++ (settingLine key value ++ ['\n'])
        wrote := true }
    else rewriting
  { rewriting with
    active := target = line
    foundSection := rewriting.foundSection || target = line }

/-- One line (lines 1872–1890). -/
def read (target key value : Text) (rewriting : Rewriting) (raw : Text) : Rewriting :=
  let line := trim raw
  let rewriting :=
    if line.head? = some '[' then rewriting.enter target key value line else rewriting
  if rewriting.active ∧ (splitOnce '=' line).any (fun parts => trim parts.1 = key) then
    { rewriting with
      output := rewriting.output ++ (settingLine key value ++ ['\n'])
      wrote := true }
  else { rewriting with output := rewriting.output ++ (raw ++ ['\n']) }

/-- What comes after the last line (lines 1891–1894). -/
def finish (target key value : Text) (rewriting : Rewriting) : Text :=
  rewriting.output ++
    (if rewriting.active ∧ ¬rewriting.wrote then settingLine key value ++ ['\n'] else []) ++
    if rewriting.foundSection then []
    else '\n' :: (target ++ '\n' :: (settingLine key value ++ ['\n']))

end Rewriting

/-- The text that `set_config_value` makes of a configuration (lines 1867–1895). -/
def setConfigText (name key value config : Text) : Text :=
  ((lines config).foldl (Rewriting.read (sectionHeader name) key value)
    ⟨[], false, false, false⟩).finish (sectionHeader name) key value

namespace Repository

variable (repo : Repository)

/-- `config_value` (lines 1801–1823). -/
def configValue (name key : Text) : Except RepositoryError (Option Text) := do
  validateConfigName name
  validateConfigName key
  let config ← repo.readFileTextBounded "config".toList (1024 * 1024)
  return configLoop (sectionHeader name) key false (lines config)

/-- `remotes` (lines 1653–1671). -/
def remotes : Except RepositoryError (List (Text × Text)) := do
  let config ← repo.readFileTextBounded "config".toList (1024 * 1024)
  return remotesLoop none (lines config)

/-- `set_config_value` (lines 1853–1898). -/
def setConfigValue (name key value : Text) : Except RepositoryError Repository := do
  validateConfigName name
  validateConfigName key
  refuseIf (value = [] ∨ value.any isControl) .invalidReference
  let config ← repo.readFileTextBounded "config".toList (1024 * 1024)
  return { repo with
    files := Function.update repo.files "config".toList
      (some (asBytes (setConfigText name key value config))) }

end Repository

/-! ## Configurations as sections -/

/-- What a line of a configuration stands for. -/
def view (raw : Text) : Line Text Text Text :=
  if (trim raw).head? = some '[' then .header (trim raw)
  else
    match splitOnce '=' (trim raw) with
    | some (key, value) => .entry (trim key) (trim value)
    | none => .other

theorem view_stripReturn (raw : Text) : view (stripReturn raw) = view raw := by
  rw [view, trim_stripReturn, view]

/-- What is looked up is the first entry of the key in the sections of the target. -/
theorem configLoop_eq {target key : Text} {active : Bool} {ls : List Text} :
    configLoop target key active ls =
      ((entries view (fun line => if line = target then some () else none)
        (if active then some () else none) ls).find? (·.2.1 = key)).map (·.2.2) := by
  induction ls generalizing active with
  | nil => rfl
  | cons raw rest ih =>
    rw [configLoop, entries, view]
    by_cases hheader : (trim raw).head? = some '['
    · rw [if_pos hheader, if_pos hheader, ih]
      simp [eq_comm]
    · rw [if_neg hheader, if_neg hheader]
      cases hparts : splitOnce '=' (trim raw) with
      | none => cases active <;> simp [ih]
      | some parts =>
        cases active with
        | false => simp [ih]
        | true =>
          by_cases hkey : trim parts.1 = key <;> simp [hkey, ih]

/-- The remotes are the entries `url` of their sections. -/
theorem remotesLoop_eq {current : Option Text} {ls : List Text} :
    remotesLoop current ls =
      ((entries view remoteSection current ls).filter (·.2.1 = "url".toList)).map
        fun entry => (entry.1, entry.2.2) := by
  induction ls generalizing current with
  | nil => rfl
  | cons raw rest ih =>
    rw [entries, view]
    cases current with
    | none =>
      rw [remotesLoop]
      by_cases hheader : (trim raw).head? = some '['
      · rw [if_pos hheader, if_pos hheader, ih]
      · rw [if_neg hheader, if_neg hheader, ih]
        cases splitOnce '=' (trim raw) <;> rfl
    | some name =>
      rw [remotesLoop]
      generalize "url".toList = url at ih ⊢
      by_cases hheader : (trim raw).head? = some '['
      · rw [if_pos hheader, if_pos hheader, ih]
      · rw [if_neg hheader, if_neg hheader]
        cases hparts : splitOnce '=' (trim raw) with
        | none => simp [ih]
        | some parts => by_cases hkey : trim parts.1 = url <;> simp [hkey, ih]

/-! ## An edit as a setting -/

theorem toNat_of_isAlphanum {c : Char} (h : c.isAlphanum = true) :
    0x30 ≤ c.toNat ∧ c.toNat ≤ 0x7a := by
  have hletters : ('A'.val.toNat ≤ c.toNat ∧ c.toNat ≤ 'Z'.val.toNat ∨
      'a'.val.toNat ≤ c.toNat ∧ c.toNat ≤ 'z'.val.toNat) ∨
      '0'.val.toNat ≤ c.toNat ∧ c.toNat ≤ '9'.val.toNat := by
    simp only [Char.isAlphanum, Char.isAlpha, Char.isUpper, Char.isLower, Char.isDigit,
      Bool.or_eq_true, Bool.and_eq_true, decide_eq_true_eq, ge_iff_le,
      UInt32.le_iff_toNat_le] at h
    exact h
  simp at hletters
  omega

/-- The characters of a valid name. -/
theorem of_validateConfigName {name : Text} (h : validateConfigName name = .ok ()) :
    name ≠ [] ∧ ∀ c ∈ name, isWhitespace c = false ∧ c ≠ '=' ∧ c ≠ '[' ∧ c ≠ '\n' := by
  obtain ⟨hne, h⟩ := not_or.mp (refuseIf_eq_ok.mp h)
  refine ⟨hne, fun c hc => ?_⟩
  have hvalid := List.all_eq_true.mp (not_not.mp (not_or.mp h).2) c hc
  have hspace : isWhitespace c = false := by
    simp only [Bool.or_eq_true, beq_iff_eq] at hvalid
    obtain ((hletter | rfl) | rfl) | rfl := hvalid
    · have hrange := toNat_of_isAlphanum hletter
      unfold isWhitespace
      simp only [Bool.or_eq_false_iff, Bool.and_eq_false_iff, decide_eq_false_iff_not,
        beq_eq_false_iff_ne, not_le]
      omega
    all_goals decide
  refine ⟨hspace, ?_, ?_, ?_⟩
  all_goals
    rintro rfl
    revert hvalid
    decide

/-- Text that begins with something else than whitespace is not trimmed in front. -/
theorem trim_cons {c : Char} (h : isWhitespace c = false) (rest : Text) :
    trim (c :: rest) = c :: rest.rdropWhile isWhitespace := by
  have hnot : ¬isWhitespace c = true := by rw [h]; exact Bool.false_ne_true
  rw [trim, List.dropWhile_cons_of_neg hnot]
  exact rdropWhile_append_cons hnot [] rest

theorem view_nil : view [] = .other := rfl

theorem view_sectionHeader (name : Text) :
    view (sectionHeader name) = .header (sectionHeader name) := by
  have htrim : trim (sectionHeader name) = sectionHeader name := by
    rw [sectionHeader, trim_cons (by decide), List.rdropWhile_concat_neg _ _ _ (by decide)]
  rw [view, htrim]
  exact if_pos rfl

theorem getLast?_sectionHeader (name : Text) : (sectionHeader name).getLast? ≠ some '\r' := by
  rw [sectionHeader, ← List.cons_append, List.getLast?_concat]
  decide

/-- A section with a valid name has no remote. -/
theorem remoteSection_sectionHeader {name : Text} (hname : validateConfigName name = .ok ()) :
    remoteSection (sectionHeader name) = none := by
  refine Option.bind_eq_none_iff.mpr fun rest hrest => ?_
  have hheader := stripPrefix_eq_some.mp hrest
  have hspace : ' ' ∈ sectionHeader name := by
    rw [hheader]
    exact List.mem_append_left _ (by decide)
  rw [sectionHeader, List.mem_cons, List.mem_append, List.mem_singleton] at hspace
  obtain hspace | hspace | hspace := hspace
  · exact absurd hspace (by decide)
  · have hplain := ((of_validateConfigName hname).2 _ hspace).1
    exact absurd hplain (by decide)
  · exact absurd hspace (by decide)

/-- The line of a setting is read as that setting. -/
theorem view_settingLine {key : Text} (hkey : validateConfigName key = .ok ()) (value : Text) :
    view (settingLine key value) = .entry key (trim value) := by
  obtain ⟨hne, hchars⟩ := of_validateConfigName hkey
  have hspace : ∀ d ∈ [' '], isWhitespace d = true := List.forall_mem_singleton.mpr (by decide)
  have htab : ∀ d ∈ ['\t'], isWhitespace d = true := List.forall_mem_singleton.mpr (by decide)
  have htrim : trim (settingLine key value) =
      (key ++ [' ']) ++ '=' :: (' ' :: value).rdropWhile isWhitespace := by
    obtain ⟨c, rest, rfl⟩ := List.exists_cons_of_ne_nil hne
    have hline : settingLine (c :: rest) value =
        ['\t'] ++ c :: ((rest ++ [' ']) ++ '=' :: ' ' :: value) := by
      simp [settingLine]
    rw [hline, trim_append_left htab, trim_cons (hchars c List.mem_cons_self).1,
      rdropWhile_append_cons (by decide)]
    simp
  have hhead : ¬((key ++ [' ']) ++ '=' :: (' ' :: value).rdropWhile isWhitespace).head? =
      some '[' := by
    obtain ⟨c, rest, rfl⟩ := List.exists_cons_of_ne_nil hne
    exact fun h => (hchars c List.mem_cons_self).2.2.1 (Option.some.inj h)
  have hequals : '=' ∉ key ++ [' '] := by
    rw [List.mem_append]
    exact not_or.mpr ⟨fun hmem => (hchars _ hmem).2.1 rfl, by decide⟩
  have hkey : trim (key ++ [' ']) = key := by
    have hlast : key.rdropWhile isWhitespace = key :=
      List.rdropWhile_eq_self_iff.mpr fun h => by
        rw [(hchars _ (List.getLast_mem h)).1]
        exact Bool.false_ne_true
    obtain ⟨c, rest, rfl⟩ := List.exists_cons_of_ne_nil hne
    rw [trim_append_right hspace, trim, List.dropWhile_cons_of_neg, hlast]
    rw [(hchars c List.mem_cons_self).1]
    exact Bool.false_ne_true
  have hvalue : trim ((' ' :: value).rdropWhile isWhitespace) = trim value := by
    rw [← trim_append_left hspace value, List.singleton_append,
      ← trim_append_right (fun d hd => List.mem_rtakeWhile_imp hd) (List.rdropWhile _ (' ' :: value)),
      List.rdropWhile_append_rtakeWhile]
  rw [view, htrim, if_neg hhead, splitOnce_append hequals]
  dsimp only
  rw [hkey, hvalue]

theorem splitOnce_of_notMem {separator : Char} {text : Text} (h : separator ∉ text) :
    splitOnce separator text = none := by
  have hspan : text.span (· ≠ separator) = (text, []) := by
    have hne : ∀ c ∈ text, decide (c ≠ separator) = true := fun c hc =>
      decide_eq_true fun heq => h (heq ▸ hc)
    rw [List.span_eq_takeWhile_dropWhile, List.takeWhile_eq_self_iff.mpr hne,
      List.dropWhile_eq_nil_iff.mpr hne]
  unfold splitOnce
  rw [hspan]

/-- A header is not the line of a setting. -/
theorem not_any_of_header {key line : Text} (hkey : validateConfigName key = .ok ())
    (hline : line.head? = some '[') :
    (splitOnce '=' line).any (fun parts => trim parts.1 = key) = false := by
  obtain ⟨hne, hchars⟩ := of_validateConfigName hkey
  obtain ⟨rest, rfl⟩ := List.head?_eq_some_iff.mp hline
  have hstart {rest : Text} : trim ('[' :: rest) ≠ key := by
    rw [trim_cons (by decide)]
    rintro rfl
    exact (hchars '[' List.mem_cons_self).2.2.1 rfl
  by_cases hequals : '=' ∈ rest
  · obtain ⟨before, after, rfl, hbefore⟩ := List.eq_append_cons_of_mem hequals
    have hnot : '=' ∉ '[' :: before := by
      rw [List.mem_cons]
      exact not_or.mpr ⟨by decide, hbefore⟩
    rw [← List.cons_append, splitOnce_append hnot]
    exact decide_eq_false hstart
  · have hnot : '=' ∉ '[' :: rest := by
      rw [List.mem_cons]
      exact not_or.mpr ⟨by decide, hequals⟩
    rw [splitOnce_of_notMem hnot]
    rfl

/-- An edit of a configuration. -/
def configSetting {key : Text} (hkey : validateConfigName key = .ok ()) (name value : Text) :
    Setting view where
  target := sectionHeader name
  key := key
  value := trim value
  new := settingLine key value
  blank := []
  head := sectionHeader name
  view_new := view_settingLine hkey value
  view_blank := view_nil
  view_head := view_sectionHeader name

section

variable {key : Text} (hkey : validateConfigName key = .ok ()) (name value : Text)

theorem unlines_pending (active wrote : Bool) :
    unlines ((configSetting hkey name value).pending active wrote) =
      if active ∧ ¬wrote then settingLine key value ++ ['\n'] else [] := by
  cases active <;> cases wrote <;> simp [Setting.pending, configSetting]

/-- **Step lemma.** A header. -/
theorem read_header {raw : Text} (hheader : (trim raw).head? = some '[')
    (rewriting : Rewriting) :
    rewriting.read (sectionHeader name) key value raw =
      { output := rewriting.output ++ (unlines ((configSetting hkey name value).pending
          rewriting.active rewriting.wrote) ++ (raw ++ ['\n']))
        active := trim raw = sectionHeader name
        foundSection := rewriting.foundSection || trim raw = sectionHeader name
        wrote := rewriting.wrote || rewriting.active } := by
  have hnot := not_any_of_header hkey hheader
  obtain ⟨output, active, foundSection, wrote⟩ := rewriting
  rw [Rewriting.read, if_pos hheader, unlines_pending]
  simp only [hnot, Bool.false_eq_true, and_false, if_false]
  cases active <;> cases wrote <;> simp [Rewriting.enter, eq_comm]

/-- **Step lemma.** A line with a key and a value. -/
theorem read_entry {raw : Text} {parts : Text × Text} (hheader : ¬(trim raw).head? = some '[')
    (hparts : splitOnce '=' (trim raw) = some parts) (rewriting : Rewriting) :
    rewriting.read (sectionHeader name) key value raw =
      if rewriting.active = true ∧ trim parts.1 = key then
        { rewriting with
          output := rewriting.output ++ (settingLine key value ++ ['\n'])
          wrote := true }
      else { rewriting with output := rewriting.output ++ (raw ++ ['\n']) } := by
  rw [Rewriting.read, if_neg hheader, hparts]
  simp only [Option.any_some, decide_eq_true_eq]

/-- **Step lemma.** Another line. -/
theorem read_other {raw : Text} (hheader : ¬(trim raw).head? = some '[')
    (hparts : splitOnce '=' (trim raw) = none) (rewriting : Rewriting) :
    rewriting.read (sectionHeader name) key value raw =
      { rewriting with output := rewriting.output ++ (raw ++ ['\n']) } := by
  rw [Rewriting.read, if_neg hheader, hparts]
  simp only [Option.any_none, Bool.false_eq_true, and_false, if_false]

/-- **Run lemma.** The lines that are written. -/
theorem finish_foldl_read (rewriting : Rewriting) (ls : List Text) :
    (ls.foldl (Rewriting.read (sectionHeader name) key value) rewriting).finish
        (sectionHeader name) key value =
      rewriting.output ++ unlines ((configSetting hkey name value).edit rewriting.active
        rewriting.foundSection rewriting.wrote ls) := by
  induction ls generalizing rewriting with
  | nil =>
    rw [List.foldl_nil, Rewriting.finish, Setting.edit, unlines_append, unlines_pending,
      List.append_assoc]
    cases rewriting.foundSection
    · simp [Setting.added, configSetting]
    · rfl
  | cons raw ls ih =>
    rw [List.foldl_cons, ih]
    by_cases hheader : (trim raw).head? = some '['
    · have hview : view raw = .header (trim raw) := if_pos hheader
      rw [read_header hkey name value hheader, Setting.edit_header _ hview, unlines_append,
        unlines_cons]
      simp only [List.append_assoc, List.singleton_append]
      rfl
    · cases hparts : splitOnce '=' (trim raw) with
      | some parts =>
        have hview : view raw = .entry (trim parts.1) (trim parts.2) := by
          rw [view, if_neg hheader, hparts]
        rw [read_entry name value hheader hparts]
        by_cases hset : rewriting.active = true ∧ trim parts.1 = key
        · rw [if_pos hset, Setting.edit_set _ hview hset, unlines_cons]
          simp only [List.append_assoc, List.singleton_append]
          rfl
        · rw [if_neg hset, Setting.edit_kept _ hview hset, unlines_cons]
          simp only [List.append_assoc, List.singleton_append]
      | none =>
        have hview : view raw = .other := by rw [view, if_neg hheader, hparts]
        rw [read_other name value hheader hparts, Setting.edit_other _ hview, unlines_cons]
        simp only [List.append_assoc, List.singleton_append]

/-- The lines of an edited configuration. -/
theorem setConfigText_eq (config : Text) : setConfigText name key value config =
    unlines ((configSetting hkey name value).edit false false false (lines config)) :=
  finish_foldl_read hkey name value ⟨[], false, false, false⟩ (lines config)

/-! ## What is read afterwards -/

variable {name value}

include hkey

theorem forall_newline_notMem_edit (hname : validateConfigName name = .ok ())
    (hvalue : ¬value.any isControl) (config : Text) :
    ∀ line ∈ (configSetting hkey name value).edit false false false (lines config),
      '\n' ∉ line := by
  have hfeed {text : Text} (h : validateConfigName text = .ok ()) : '\n' ∉ text := fun hmem =>
    ((of_validateConfigName h).2 _ hmem).2.2.2 rfl
  have hplain : '\n' ∉ value := fun hmem =>
    hvalue (List.any_eq_true.mpr ⟨_, hmem, by decide⟩)
  refine (Setting.forall_mem_edit _ ?_ List.not_mem_nil ?_).mpr fun line hline =>
    newline_notMem_lines line (mem_of_mem_others hline)
  · show '\n' ∉ settingLine key value
    simp [settingLine, hfeed hkey, hplain]
  · show '\n' ∉ sectionHeader name
    simp [sectionHeader, hfeed hname]

/-- The lines of an edited configuration, as they are read. -/
theorem lines_setConfigText (hname : validateConfigName name = .ok ())
    (hvalue : ¬value.any isControl) (config : Text) :
    lines (setConfigText name key value config) =
      ((configSetting hkey name value).edit false false false (lines config)).map stripReturn := by
  have hlines := lines_unlines (forall_newline_notMem_edit hkey hname hvalue config) []
  rwa [List.append_nil, lines, List.append_nil, ← setConfigText_eq hkey] at hlines

/-- The setting is found. -/
theorem configLoop_setConfigText (hname : validateConfigName name = .ok ())
    (hvalue : ¬value.any isControl) (config : Text) :
    configLoop (sectionHeader name) key false (lines (setConfigText name key value config)) =
      some (trim value) := by
  have hfind := @Setting.find_entries_edit _ _ _ _ _ _ _ (configSetting hkey name value) false
    (lines config)
  rw [configLoop_eq, lines_setConfigText hkey hname hvalue, entries_map view_stripReturn]
  exact congrArg (Option.map (·.2.2)) hfind

/-- What is looked up elsewhere is what it was. -/
theorem configLoop_setConfigText_of_ne (hname : validateConfigName name = .ok ())
    (hvalue : ¬value.any isControl) (config : Text) {name' key' : Text}
    (h : name' ≠ name ∨ key' ≠ key) :
    configLoop (sectionHeader name') key' false (lines (setConfigText name key value config)) =
      configLoop (sectionHeader name') key' false (lines config) := by
  have hselect : name' ≠ name → sectionHeader name ≠ sectionHeader name' := fun hne heq =>
    hne (List.append_cancel_right (List.cons.inj heq).2).symm
  have hfilter := @Setting.filter_entries_edit _ _ _ _ _ _ _ _ (configSetting hkey name value) false
    false false (lines config) (fun line => if line = sectionHeader name' then some () else none)
    (fun k => decide (k = key')) none
    (h.imp (fun hne => if_neg (hselect hne)) fun hne => decide_eq_false hne.symm)
    (fun hactive => absurd hactive (by decide))
  rw [configLoop_eq, configLoop_eq, lines_setConfigText hkey hname hvalue,
    entries_map view_stripReturn, if_neg (by decide), ← List.head?_filter, ← List.head?_filter]
  exact congrArg (fun found => found.head?.map (·.2.2)) hfilter

/-- The remotes are what they were. -/
theorem remotesLoop_setConfigText (hname : validateConfigName name = .ok ())
    (hvalue : ¬value.any isControl) (config : Text) :
    remotesLoop none (lines (setConfigText name key value config)) =
      remotesLoop none (lines config) := by
  have hfilter := @Setting.filter_entries_edit _ _ _ _ _ _ _ _ (configSetting hkey name value) false
    false false (lines config) remoteSection (fun k => decide (k = "url".toList)) none
    (.inl (remoteSection_sectionHeader hname)) (fun hactive => absurd hactive (by decide))
  rw [remotesLoop_eq, remotesLoop_eq, lines_setConfigText hkey hname hvalue,
    entries_map view_stripReturn]
  exact congrArg _ hfilter

omit hkey in
theorem getLast?_settingLine (hne : value ≠ []) (hvalue : ¬value.any isControl) :
    (settingLine key value).getLast? ≠ some '\r' := by
  intro hreturn
  have hlast : (settingLine key value).getLast? = value.getLast? :=
    List.getLast?_append_of_ne_nil ('\t' :: (key ++ " = ".toList)) hne
  rw [hlast] at hreturn
  exact hvalue (List.any_eq_true.mpr ⟨_, List.mem_of_getLast? hreturn, by decide⟩)

/-- The text after a second edit is that of the first without the carriage returns at the ends of
its lines. -/
theorem setConfigText_setConfigText (hname : validateConfigName name = .ok ())
    (hne : value ≠ []) (hvalue : ¬value.any isControl) (config : Text) :
    setConfigText name key value (setConfigText name key value config) =
      unlines (((configSetting hkey name value).edit false false false (lines config)).map
        stripReturn) := by
  have hstrip : stripReturn (settingLine key value) = settingLine key value :=
    if_neg (getLast?_settingLine hne hvalue)
  have hhead : stripReturn (sectionHeader name) = sectionHeader name :=
    if_neg (getLast?_sectionHeader name)
  have hmap := @Setting.edit_map _ _ _ _ _ _ _ (configSetting hkey name value) false false false
    ((configSetting hkey name value).edit false false false (lines config)) stripReturn
    view_stripReturn hstrip rfl hhead
  rw [setConfigText_eq hkey, lines_setConfigText hkey hname hvalue, hmap,
    Setting.edit_edit _ (fun hactive => absurd hactive (by decide))]

end

/-! ## The size of what is written -/

/-- The bytes that a line takes up. -/
def lineSize (line : Text) : ℕ := (asBytes line).length + 1

/-- The bytes of a configuration with an edit. The lines of the sections that set the key are
taken as the new line. It comes once more if the first of the sections does not set the key, and
with an empty line and a header if there is no such section. -/
def editedSize (name key value config : Text) : ℕ :=
  ((others view (sectionHeader name) key false (lines config)).map lineSize).sum +
    (assigned view (sectionHeader name) key false (lines config) +
      if settled view (sectionHeader name) key false (lines config) then 0 else 1) *
        lineSize (settingLine key value) +
    if appears view (sectionHeader name) (lines config) then 0
    else 1 + lineSize (sectionHeader name)

theorem length_asBytes_unlines (ls : List Text) :
    (asBytes (unlines ls)).length = (ls.map lineSize).sum := by
  induction ls with
  | nil => rfl
  | cons line ls ih =>
    rw [unlines_cons, asBytes_append, asBytes_cons, List.length_append, List.length_append, ih,
      List.map_cons, List.sum_cons, lineSize]
    have hfeed : (String.utf8EncodeChar '\n').length = 1 := rfl
    omega

theorem length_setConfigText {key : Text} (hkey : validateConfigName key = .ok ())
    (name value config : Text) :
    (asBytes (setConfigText name key value config)).length = editedSize name key value config := by
  rw [setConfigText_eq hkey, length_asBytes_unlines,
    Setting.sum_edit _ lineSize (fun h => absurd h (by decide)) (fun h => absurd h (by decide))
      (fun h => absurd h (by decide))]
  rfl

/-! ## Edits of a repository -/

/-- The configurations that an edit leaves readable and whose other lines do not change with every
edit: what is written keeps to the size that is read, and none of the lines that stay ends with a
carriage return. -/
structure Settles (name key value config : Text) : Prop where
  size : editedSize name key value config ≤ 1024 * 1024
  noReturn : ∀ line ∈ others view (sectionHeader name) key false (lines config),
    line.getLast? ≠ some '\r'

namespace Repository

/-- A repository whose configuration is a text. -/
def withConfig (repo : Repository) (config : Text) : Repository :=
  { repo with files := Function.update repo.files "config".toList (some (asBytes config)) }

theorem readConfig_withConfig (repo : Repository) (config : Text) :
    (repo.withConfig config).readFileTextBounded "config".toList (1024 * 1024) =
      if (asBytes config).length ≤ 1024 * 1024 then .ok config
      else .error (.file .readFailed) := by
  have hfile : (repo.withConfig config).files "config".toList = some (asBytes config) := by
    show Function.update repo.files "config".toList (some (asBytes config)) "config".toList = _
    rw [Function.update_self]
  rw [readFileTextBounded, hfile, okOr_some, ok_bind]
  by_cases hsize : (asBytes config).length ≤ 1024 * 1024
  · rw [if_pos hsize, refuseIf_of_not (not_lt.mpr hsize), ok_bind, fromUtf8_asBytes]
    rfl
  · rw [if_neg hsize, refuseIf, if_pos (not_le.mp hsize)]
    rfl

/-- What `set_config_value` does when it succeeds. -/
theorem setConfigValue_eq_ok {repo repo' : Repository} {name key value : Text} :
    repo.setConfigValue name key value = .ok repo' ↔
      validateConfigName name = .ok () ∧ validateConfigName key = .ok () ∧
      ¬(value = [] ∨ value.any isControl) ∧ ∃ config,
        repo.readFileTextBounded "config".toList (1024 * 1024) = .ok config ∧
        repo' = repo.withConfig (setConfigText name key value config) := by
  constructor
  · intro h
    obtain ⟨⟨⟩, hname, h⟩ := bind_eq_ok.mp h
    obtain ⟨⟨⟩, hkey, h⟩ := bind_eq_ok.mp h
    obtain ⟨⟨⟩, hvalue, h⟩ := bind_eq_ok.mp h
    obtain ⟨config, hconfig, h⟩ := bind_eq_ok.mp h
    exact ⟨hname, hkey, refuseIf_eq_ok.mp hvalue, config, hconfig, (Except.ok.inj h).symm⟩
  · rintro ⟨hname, hkey, hvalue, config, hconfig, rfl⟩
    rw [setConfigValue, hname, ok_bind, hkey, ok_bind, refuseIf_of_not hvalue, ok_bind, hconfig,
      ok_bind]
    rfl

/-- **Main theorem.** After an edit the value is found, all else is looked up as before, and the
same edit made again changes nothing, exactly if what is written keeps to the size that is read
and no other line ends with a carriage return. -/
theorem setConfigValue_local_iff {repo repo' : Repository} {name key value : Text}
    (h : repo.setConfigValue name key value = .ok repo') :
    ∃ config, repo.readFileTextBounded "config".toList (1024 * 1024) = .ok config ∧
      ((repo'.configValue name key = .ok (some (trim value)) ∧
        (∀ name' key', (name', key') ≠ (name, key) →
          repo'.configValue name' key' = repo.configValue name' key') ∧
        repo'.remotes = repo.remotes ∧
        repo'.setConfigValue name key value = .ok repo') ↔ Settles name key value config) := by
  obtain ⟨hname, hkey, hvalue, config, hconfig, rfl⟩ := setConfigValue_eq_ok.mp h
  obtain ⟨hne, hplain⟩ := not_or.mp hvalue
  have hread := readConfig_withConfig repo (setConfigText name key value config)
  rw [length_setConfigText hkey] at hread
  refine ⟨config, hconfig, ?_⟩
  have hkept : (∀ line ∈ (configSetting hkey name value).edit false false false (lines config),
      line.getLast? ≠ some '\r') ↔
      ∀ line ∈ others view (sectionHeader name) key false (lines config),
        line.getLast? ≠ some '\r' :=
    Setting.forall_mem_edit _ (getLast?_settingLine hne hplain) (by simp [configSetting])
      (getLast?_sectionHeader name)
  have hagain : setConfigText name key value (setConfigText name key value config) =
      setConfigText name key value config ↔
      ∀ line ∈ others view (sectionHeader name) key false (lines config),
        line.getLast? ≠ some '\r' := by
    rw [setConfigText_setConfigText hkey hname hne hplain, setConfigText_eq hkey,
      unlines_stripReturn, hkept]
  constructor
  · rintro ⟨hfound, -, -, htwice⟩
    by_cases hsize : editedSize name key value config ≤ 1024 * 1024
    · rw [if_pos hsize] at hread
      refine ⟨hsize, hagain.mp ?_⟩
      obtain ⟨-, -, -, config', hconfig', hrepo⟩ := setConfigValue_eq_ok.mp htwice
      rw [hread] at hconfig'
      obtain rfl := Except.ok.inj hconfig'
      have hfile := congrArg (fun repo : Repository => repo.files "config".toList) hrepo
      simp only [withConfig, Function.update_self, Option.some.injEq] at hfile
      exact (asBytes_injective hfile).symm
    · rw [if_neg hsize] at hread
      rw [configValue, hname, ok_bind, hkey, ok_bind, hread] at hfound
      cases hfound
  · rintro ⟨hsize, hreturn⟩
    rw [if_pos hsize] at hread
    refine ⟨?_, ?_, ?_, ?_⟩
    · rw [configValue, hname, ok_bind, hkey, ok_bind, hread, ok_bind,
        configLoop_setConfigText hkey hname hplain]
      rfl
    · intro name' key' hpair
      have hne : name' ≠ name ∨ key' ≠ key := not_and_or.mp fun hboth =>
        hpair (Prod.ext hboth.1 hboth.2)
      rw [configValue, configValue, hread, hconfig, ok_bind, ok_bind,
        configLoop_setConfigText_of_ne hkey hname hplain config hne]
    · rw [remotes, remotes, hread, hconfig, ok_bind, ok_bind,
        remotesLoop_setConfigText hkey hname hplain]
    · refine setConfigValue_eq_ok.mpr ⟨hname, hkey, hvalue, _, hread, ?_⟩
      rw [hagain.mpr hreturn, withConfig, withConfig, Function.update_idem]

/-- A repository with nothing but a configuration. -/
def configured (config : Text) : Repository := withConfig ⟨emptyBlobStore, fun _ => none⟩ config

theorem setConfigValue_configured {name key value config : Text}
    (hname : validateConfigName name = .ok ()) (hkey : validateConfigName key = .ok ())
    (hvalue : ¬(value = [] ∨ value.any isControl)) (hsize : (asBytes config).length ≤ 1024 * 1024) :
    (configured config).setConfigValue name key value =
      .ok (configured (setConfigText name key value config)) := by
  have hread := readConfig_withConfig ⟨emptyBlobStore, fun _ => none⟩ config
  rw [if_pos hsize] at hread
  refine setConfigValue_eq_ok.mpr ⟨hname, hkey, hvalue, config, hread, ?_⟩
  rw [configured, configured, withConfig, withConfig, withConfig, Function.update_idem]

/-- A name is set where another section is. -/
theorem setConfigValue_local_plain : ∃ repo',
    (configured "[core]\n\tbare = false\n".toList).setConfigValue "user".toList "name".toList
      "x".toList = .ok repo' ∧
    repo'.configValue "user".toList "name".toList = .ok (some "x".toList) ∧
    repo'.setConfigValue "user".toList "name".toList "x".toList = .ok repo' := by
  have hset := @setConfigValue_configured "user".toList "name".toList "x".toList
    "[core]\n\tbare = false\n".toList (by decide +kernel) (by decide +kernel) (by decide)
    (by decide +kernel)
  obtain ⟨config, hconfig, hiff⟩ := setConfigValue_local_iff hset
  have hread := readConfig_withConfig ⟨emptyBlobStore, fun _ => none⟩
    "[core]\n\tbare = false\n".toList
  rw [if_pos (by decide +kernel)] at hread
  obtain rfl := Except.ok.inj (hread.symm.trans hconfig)
  obtain ⟨hfound, -, -, htwice⟩ := hiff.mpr ⟨by decide +kernel, by decide +kernel⟩
  exact ⟨_, hset, hfound, htwice⟩

/-- A line that ends with two carriage returns loses one with each edit. -/
theorem setConfigValue_not_local : ∃ repo' repo'',
    (configured "#\r\r\n".toList).setConfigValue "user".toList "name".toList "x".toList =
      .ok repo' ∧
    repo'.setConfigValue "user".toList "name".toList "x".toList = .ok repo'' ∧
    repo''.files "config".toList ≠ repo'.files "config".toList := by
  have hname : validateConfigName "user".toList = .ok () := by decide +kernel
  have hkey : validateConfigName "name".toList = .ok () := by decide +kernel
  refine ⟨_, _, setConfigValue_configured hname hkey (by decide) (by decide +kernel),
    setConfigValue_configured hname hkey (by decide) (by decide +kernel), ?_⟩
  simp only [configured, withConfig, Function.update_self]
  decide +kernel

end Repository

end Mrml.Git
