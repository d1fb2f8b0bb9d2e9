import Mrml.Json.Acceptance

/-!
# JSON printer

Model of `stringify` of `crates/mrml-json/src/lib.rs` (lines 518–573). A printed value is a text of
the grammar, so the parser reads it back.

Results:
* `writeValue_derives`: the grammar assigns the value to its print.
* `parse_stringify`: the round trip.
-/

namespace Mrml.Json

/-! ## Printing -/

/-- `{:04x}`. -/
def hexText (n : ℕ) : Text := (Nat.toDigits 16 n).leftpad 4 '0'

/-- The escape of a character in `write_string` (lines 557–569). -/
def writeChar (c : Char) : Text :=
  if c = '"' then ['\\', '"'] else if c = '\\' then ['\\', '\\']
  else if c = '\x08' then ['\\', 'b'] else if c = '\x0c' then ['\\', 'f']
  else if c = '\n' then ['\\', 'n'] else if c = '\r' then ['\\', 'r']
  else if c = '\t' then ['\\', 't']
  else if c.toNat < 0x20 then '\\' :: 'u' :: hexText c.toNat
  else [c]

/-- `write_string` (lines 554–573). -/
def writeString (value : Text) : Text := '"' :: (value.flatMap writeChar ++ ['"'])

/-- The comma in front of every element but the first. -/
def separator (index : ℕ) : Text := if index ≠ 0 then [','] else []

mutual

/-- `write_value` (lines 524–552). -/
def writeValue : Value → Text
  | .null => "null".toList
  | .bool value => if value then "true".toList else "false".toList
  | .number text => text
  | .string text => writeString text
  | .array values => '[' :: (writeElements 0 values ++ [']'])
  | .object entries => '\x7b' :: (writeMembers 0 entries ++ ['\x7d'])

/-- The loop over the elements of an array (lines 532–537). -/
def writeElements (index : ℕ) : List Value → Text
  | [] => []
  | value :: values => separator index ++ (writeValue value ++ writeElements (index + 1) values)

/-- The loop over the members of an object (lines 542–549). -/
def writeMembers (index : ℕ) : List (Text × Value) → Text
  | [] => []
  | (key, value) :: entries => separator index ++
      (writeString key ++ ':' :: (writeValue value ++ writeMembers (index + 1) entries))

end

/-- `stringify` (lines 518–522). -/
def stringify (value : Value) : Text := writeValue value

namespace Value

mutual

/-- The number of values in a value. -/
def nodes : Value → ℕ
  | .array values => elementsNodes values + 1
  | .object entries => membersNodes entries + 1
  | _ => 1

def elementsNodes : List Value → ℕ
  | [] => 0
  | value :: values => nodes value + elementsNodes values

def membersNodes : List (Text × Value) → ℕ
  | [] => 0
  | (_, value) :: entries => nodes value + membersNodes entries

end

mutual

/-- The nesting of arrays and objects in a value. -/
def depth : Value → ℕ
  | .array values => elementsDepth values + 1
  | .object entries => membersDepth entries + 1
  | _ => 0

def elementsDepth : List Value → ℕ
  | [] => 0
  | value :: values => max (depth value) (elementsDepth values)

def membersDepth : List (Text × Value) → ℕ
  | [] => 0
  | (_, value) :: entries => max (depth value) (membersDepth entries)

end

mutual

/-- Numbers are texts of the grammar, and the keys of an object are different. -/
def Valid : Value → Prop
  | .number text => Number text
  | .array values => ElementsValid values
  | .object entries => Runtime.OrderedMap.Sorted entries ∧ MembersValid entries
  | _ => True

def ElementsValid : List Value → Prop
  | [] => True
  | value :: values => Valid value ∧ ElementsValid values

def MembersValid : List (Text × Value) → Prop
  | [] => True
  | (_, value) :: entries => Valid value ∧ MembersValid entries

end

end Value

/-! ## Prints are derived -/

theorem hexText_hex4 {n : ℕ} (h : n < 0x20) : Hex4 (hexText n) n := by
  have hall : ∀ n < 0x20, (hexText n).length = 4 ∧ hexNumber 0 (hexText n) = some n := by decide
  exact hall n h

/-- Every character is written as a piece that stands for it. -/
theorem writeChar_piece (c : Char) : Piece (writeChar c) c := by
  unfold writeChar
  split_ifs with hquote hescape hb hf hn hr ht hcontrol
  · exact .escape (e := '"') (by subst c; decide)
  · exact .escape (e := '\\') (by subst c; decide)
  · exact .escape (e := 'b') (by subst c; decide)
  · exact .escape (e := 'f') (by subst c; decide)
  · exact .escape (e := 'n') (by subst c; decide)
  · exact .escape (e := 'r') (by subst c; decide)
  · exact .escape (e := 't') (by subst c; decide)
  · have hpiece : Piece ('\\' :: 'u' :: hexText c.toNat) (Char.ofNat c.toNat) :=
      .unicode (hexText_hex4 hcontrol) (fun h => by unfold isHighSurrogate at h; omega)
        (fun h => by unfold isLowSurrogate at h; omega)
    rw [Char.ofNat_toNat] at hpiece
    exact hpiece
  · exact .plain (by omega) hquote hescape

theorem writeString_stringText (value : Text) : StringText (writeString value) value := by
  refine ⟨value.flatMap writeChar, ?_, rfl⟩
  induction value with
  | nil => exact .nil
  | cons c value ih => exact .cons (writeChar_piece c) ih

/-- Behind the first element the index does not matter. -/
theorem writeElements_succ (index : ℕ) (values : List Value) :
    writeElements (index + 1) values = writeElements 1 values := by
  induction values generalizing index with
  | nil => rfl
  | cons value values ih =>
    rw [writeElements, writeElements, ih (index + 1), ih 1]
    rfl

theorem writeMembers_succ (index : ℕ) (entries : List (Text × Value)) :
    writeMembers (index + 1) entries = writeMembers 1 entries := by
  induction entries generalizing index with
  | nil => rfl
  | cons entry entries ih =>
    obtain ⟨key, value⟩ := entry
    rw [writeMembers, writeMembers, ih (index + 1), ih 1]
    rfl

theorem writeElements_one (value : Value) (values : List Value) :
    writeElements 1 (value :: values) = ',' :: writeElements 0 (value :: values) := by
  rw [writeElements, writeElements, writeElements_succ 1]
  rfl

theorem writeMembers_one (entry : Text × Value) (entries : List (Text × Value)) :
    writeMembers 1 (entry :: entries) = ',' :: writeMembers 0 (entry :: entries) := by
  obtain ⟨key, value⟩ := entry
  rw [writeMembers, writeMembers, writeMembers_succ 1]
  rfl

theorem space_nil : Space [] := fun _ h => nomatch h

theorem elementsText_last {value : Value} {n k : ℕ} (h : ValueText (writeValue value) value n k) :
    ElementsText (writeElements 0 [value]) [value] n k := by
  have hlast := ElementsText.last h space_nil
  exact hlast

theorem elementsText_cons {first second : Value} {values : List Value} {n k n' k' : ℕ}
    (h : ValueText (writeValue first) first n k)
    (hrest : ElementsText (writeElements 0 (second :: values)) (second :: values) n' k') :
    ElementsText (writeElements 0 (first :: second :: values)) (first :: second :: values)
      (n + n') (max k k') := by
  have hall := ElementsText.cons h space_nil space_nil hrest
  rw [writeElements, writeElements_one]
  exact hall

theorem membersText_last {key : Text} {value : Value} {n k : ℕ}
    (h : ValueText (writeValue value) value n k) :
    MembersText (writeMembers 0 [(key, value)]) [(key, value)] n k :=
  .last (writeString_stringText key) space_nil space_nil h space_nil

theorem membersText_cons {key : Text} {value : Value} {entry : Text × Value}
    {entries : List (Text × Value)} {n k n' k' : ℕ} (h : ValueText (writeValue value) value n k)
    (hrest : MembersText (writeMembers 0 (entry :: entries)) (entry :: entries) n' k') :
    MembersText (writeMembers 0 ((key, value) :: entry :: entries))
      ((key, value) :: entry :: entries) (n + n') (max k k') := by
  have hall := MembersText.cons (writeString_stringText key) space_nil space_nil h space_nil
    space_nil hrest
  rw [writeMembers, writeMembers_one]
  exact hall

/-- Sorted entries stay where they are. -/
theorem sortBy_sorted {entries : List (Text × Value)} (h : Runtime.OrderedMap.Sorted entries) :
    KeyedList.sortBy Prod.fst entries = entries :=
  (KeyedList.sortedBy_sortBy h.nodup).ext h fun _ => KeyedList.mem_sortBy

mutual

/-- **Main lemma.** The grammar assigns the value to its print. -/
theorem writeValue_derives : ∀ value : Value, value.Valid →
    ValueText (writeValue value) value value.nodes value.depth
  | .null, _ => .null
  | .bool Bool.true, _ => .true
  | .bool Bool.false, _ => .false
  | .number _, h => .number h
  | .string text, _ => .string (writeString_stringText text)
  | .array [], _ => .emptyArray space_nil
  | .array (value :: values), h =>
    .array space_nil (writeElements_derives (value :: values) (List.cons_ne_nil _ _) h)
  | .object [], _ => .emptyObject space_nil
  | .object (entry :: entries), h => by
    obtain ⟨hsorted, hvalid⟩ := h
    have hmembers := writeMembers_derives (entry :: entries) (List.cons_ne_nil _ _) hvalid
    have hobject := ValueText.object space_nil hmembers hsorted.nodup
    rw [sortBy_sorted hsorted] at hobject
    exact hobject

theorem writeElements_derives : ∀ values : List Value, values ≠ [] → Value.ElementsValid values →
    ElementsText (writeElements 0 values) values (Value.elementsNodes values)
      (Value.elementsDepth values)
  | [], hne, _ => absurd rfl hne
  | [value], _, h => by
    have hlast := elementsText_last (writeValue_derives value h.1)
    rw [Value.elementsNodes, Value.elementsDepth, Value.elementsNodes, Value.elementsDepth,
      Nat.max_zero]
    exact hlast
  | first :: second :: values, _, h =>
    elementsText_cons (writeValue_derives first h.1)
      (writeElements_derives (second :: values) (List.cons_ne_nil _ _) h.2)

theorem writeMembers_derives : ∀ entries : List (Text × Value), entries ≠ [] →
    Value.MembersValid entries → MembersText (writeMembers 0 entries) entries
      (Value.membersNodes entries) (Value.membersDepth entries)
  | [], hne, _ => absurd rfl hne
  | [(key, value)], _, h => by
    rw [Value.membersNodes, Value.membersDepth, Value.membersNodes, Value.membersDepth,
      Nat.max_zero]
    exact membersText_last (writeValue_derives value h.1)
  | (_, value) :: entry :: entries, _, h =>
    membersText_cons (writeValue_derives value h.1)
      (writeMembers_derives (entry :: entries) (List.cons_ne_nil _ _) h.2)

end

/-! ## Values of texts -/

namespace Value

theorem membersNodes_perm {a b : List (Text × Value)} (h : a.Perm b) :
    membersNodes a = membersNodes b := by
  induction h with
  | nil => rfl
  | cons entry _ ih => rw [membersNodes, membersNodes, ih]
  | swap entry entry' rest =>
    simp only [membersNodes]
    omega
  | trans _ _ ih ih' => exact ih.trans ih'

theorem membersDepth_perm {a b : List (Text × Value)} (h : a.Perm b) :
    membersDepth a = membersDepth b := by
  induction h with
  | nil => rfl
  | cons entry _ ih => rw [membersDepth, membersDepth, ih]
  | swap entry entry' rest => exact Nat.max_left_comm _ _ _
  | trans _ _ ih ih' => exact ih.trans ih'

theorem membersValid_perm {a b : List (Text × Value)} (h : a.Perm b) :
    MembersValid a → MembersValid b := by
  induction h with
  | nil => exact id
  | cons entry _ ih => exact fun h => ⟨h.1, ih h.2⟩
  | swap entry entry' rest => exact fun h => ⟨h.2.1, h.1, h.2.2⟩
  | trans _ _ ih ih' => exact fun h => ih' (ih h)

end Value

/-- The value of a text is one that can be printed, with the size that the text has. -/
theorem valueText_valid {text : Text} {value : Value} {n k : ℕ} (h : ValueText text value n k) :
    value.Valid ∧ value.nodes = n ∧ value.depth = k := by
  refine @ValueText.rec (fun _ v n k _ => v.Valid ∧ v.nodes = n ∧ v.depth = k)
    (fun _ values n k _ => Value.ElementsValid values ∧ Value.elementsNodes values = n ∧
      Value.elementsDepth values = k)
    (fun _ members n k _ => Value.MembersValid members ∧ Value.membersNodes members = n ∧
      Value.membersDepth members = k)
    ?null ?true ?false ?number ?string ?emptyArray ?array ?emptyObject ?object ?last ?cons
    ?lastMember ?consMember text value n k h
  case null | true | false => exact ⟨trivial, rfl, rfl⟩
  case string => exact fun _ => ⟨trivial, rfl, rfl⟩
  case number => exact fun h => ⟨h, rfl, rfl⟩
  case emptyArray => exact fun _ => ⟨trivial, rfl, rfl⟩
  case emptyObject => exact fun _ => ⟨⟨List.Pairwise.nil, trivial⟩, rfl, rfl⟩
  case array =>
    rintro _ _ _ _ _ _ _ ⟨hvalid, hnodes, hdepth⟩
    exact ⟨hvalid, congrArg (· + 1) hnodes, congrArg (· + 1) hdepth⟩
  case object =>
    rintro _ _ members _ _ _ _ hkeys ⟨hvalid, hnodes, hdepth⟩
    have hperm : (KeyedList.sortBy Prod.fst members).Perm members := KeyedList.sortBy_perm members
    exact ⟨⟨KeyedList.sortedBy_sortBy hkeys, Value.membersValid_perm hperm.symm hvalid⟩,
      congrArg (· + 1) ((Value.membersNodes_perm hperm).trans hnodes),
      congrArg (· + 1) ((Value.membersDepth_perm hperm).trans hdepth)⟩
  case last =>
    rintro _ _ _ _ _ _ _ ⟨hvalid, rfl, rfl⟩
    exact ⟨⟨hvalid, trivial⟩, rfl, Nat.max_zero _⟩
  case cons =>
    rintro _ _ _ _ _ _ _ _ _ _ _ _ _ _ ⟨hvalid, rfl, rfl⟩ ⟨hvalid', rfl, rfl⟩
    exact ⟨⟨hvalid, hvalid'⟩, rfl, rfl⟩
  case lastMember =>
    rintro _ _ _ _ _ _ _ _ _ _ _ _ _ _ ⟨hvalid, rfl, rfl⟩
    exact ⟨⟨hvalid, trivial⟩, rfl, Nat.max_zero _⟩
  case consMember =>
    rintro _ _ _ _ _ _ _ _ _ _ _ _ _ _ _ _ _ _ _ _ _ ⟨hvalid, rfl, rfl⟩ ⟨hvalid', rfl, rfl⟩
    exact ⟨⟨hvalid, hvalid'⟩, rfl, rfl⟩

/-- What the parser accepts has a print that is read back. -/
theorem parse_stringify_of_parse {source : Text} {value : Value} (h : parse source = .ok value) :
    parse (stringify value) = .ok value := by
  obtain ⟨e, hrefused⟩ | ⟨v, n, k, ⟨before, x, after, hbefore, hx, hafter, hsplit⟩, hn, hk⟩ :=
    parse_sound source
  · rw [hrefused] at h
    exact nomatch h
  · have hjson : JsonText source v n k := ⟨before, x, after, hbefore, hx, hafter, hsplit⟩
    rw [parse_complete hjson hn hk] at h
    obtain rfl := Except.ok.inj h
    obtain ⟨hvalid, rfl, rfl⟩ := valueText_valid hx
    refine parse_complete ⟨[], writeValue v, [], space_nil, writeValue_derives v hvalid, space_nil,
      ?_⟩ hn hk
    rw [List.nil_append, List.append_nil]
    rfl

/-- **Main theorem.** A value within the limits is read back from its print. -/
theorem parse_stringify (value : Value) (hvalid : value.Valid) (hnodes : value.nodes ≤ 1000000)
    (hdepth : value.depth ≤ 128) : parse (stringify value) = .ok value := by
  refine parse_complete (n := value.nodes) (k := value.depth) ⟨[], writeValue value, [], space_nil,
    writeValue_derives value hvalid, space_nil, ?_⟩ hnodes hdepth
  rw [List.nil_append, List.append_nil]
  rfl

/-- An object with an escape, a number and an empty array in an array. -/
theorem parse_stringify_menu :
    parse (stringify (.object [("a\x01".toList, .array [.number "-1.5e3".toList, .array []]),
      ("b".toList, .null)])) =
    .ok (.object [("a\x01".toList, .array [.number "-1.5e3".toList, .array []]),
      ("b".toList, .null)]) := by
  have hdigits (c : Char) (h : isDigit c = true) : Digits [c] :=
    ⟨List.cons_ne_nil _ _, fun a ha => by rw [List.mem_singleton.mp ha, h]⟩
  have hnumber : Number "-1.5e3".toList :=
    ⟨['-'], ['1'], ['.', '5'], ['e', '3'], .inr rfl, .inr ⟨hdigits '1' (by decide), by decide⟩,
      .inr ⟨['5'], hdigits '5' (by decide), rfl⟩,
      .inr ⟨'e', [], ['3'], .inl rfl, .inl rfl, hdigits '3' (by decide), rfl⟩, rfl⟩
  refine parse_stringify _ ⟨?_, ⟨hnumber, trivial, trivial⟩, trivial, trivial⟩ (by decide)
    (by decide)
  exact List.pairwise_pair.mpr (by decide)

end Mrml.Json
