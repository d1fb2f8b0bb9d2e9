import Mrml.Agent.Values

/-!
# The repair of relaxed JSON

Results:
* `quoteRelaxedKeys_inserts_iff`: the scanner of keys only puts quotes into a text if and only if
  the text is ASCII.
* `normalizeRelaxedJson_of_parse`: a JSON text without markers keeps its value.
* `relaxedJson_kept`: when the repair keeps the data of a text.
-/

namespace Mrml.Agent

open Text Json

/-! ## Keys -/

/-- The bytes of a text, each as a character, are more characters than those of the text, by one
or more for each that is not ASCII. -/
theorem length_unquoted_byteChars (text : Text) :
    (unquoted text).length + text.countP (fun c => decide ¬Ascii c) ≤
      (unquoted (text.flatMap byteChars)).length := by
  induction text with
  | nil => exact Nat.zero_le _
  | cons c text ih =>
    rw [List.flatMap_cons, unquoted_append, List.length_append, ← List.singleton_append (l := text),
      unquoted_append, List.length_append, List.countP_append]
    by_cases hc : Ascii c
    · rw [byteChars_of_ascii hc, List.countP_singleton, if_neg (by simpa using hc)]
      omega
    · obtain ⟨⟨a, b, rest, hchars⟩, -⟩ := byteChars_of_not_ascii hc
      have hone : (unquoted [c]).length ≤ 1 := List.length_filter_le _ _
      have hmore : (unquoted (byteChars c)).length = rest.length + 2 := by
        rw [unquoted_byteChars hc, hchars, List.length_cons, List.length_cons]
      rw [hmore, List.countP_singleton, if_pos (by simpa using hc)]
      omega

theorem map_byteChar_asBytes (text : Text) :
    (asBytes text).map byteChar = text.flatMap byteChars := List.map_flatMap

theorem flatMap_byteChars_of_ascii {text : Text} (h : ∀ c ∈ text, Ascii c) :
    text.flatMap byteChars = text := by
  induction text with
  | nil => rfl
  | cons c text ih =>
    obtain ⟨hc, htext⟩ := List.forall_mem_cons.mp h
    rw [List.flatMap_cons, byteChars_of_ascii hc, ih htext]
    rfl

/-- The scanner of keys puts quotes into the bytes of a text. -/
theorem quoteRelaxedKeys_spec (input : Text) : ∃ out, quoteRelaxedKeys input = .ok out ∧
    Inserts (input.flatMap byteChars) out := by
  obtain ⟨out, hout, hinserts⟩ := keysLoop_spec input ((asBytes input).length + 1) 0 none []
    (Nat.zero_le _) (Nat.lt_succ_self _)
  rw [List.drop_zero, map_byteChar_asBytes] at hinserts
  exact ⟨out, hout, hinserts⟩

/-- The scanner of keys only puts quotes into a text if and only if the text is ASCII. -/
theorem quoteRelaxedKeys_inserts_iff (input : Text) :
    (∃ out, quoteRelaxedKeys input = .ok out ∧ Inserts input out) ↔ ∀ c ∈ input, Ascii c := by
  obtain ⟨out, hout, hinserts⟩ := quoteRelaxedKeys_spec input
  rw [hout]
  constructor
  · rintro ⟨out', heq, hkept⟩
    obtain rfl := Except.ok.inj heq
    have hle := length_unquoted_byteChars input
    rw [← hinserts.unquoted_eq, hkept.unquoted_eq] at hle
    have hzero : input.countP (fun c => decide ¬Ascii c) = 0 := by omega
    intro c hc
    by_contra hascii
    exact List.countP_eq_zero.mp hzero c hc (decide_eq_true hascii)
  · intro hascii
    rw [flatMap_byteChars_of_ascii hascii] at hinserts
    exact ⟨out, rfl, hinserts⟩

/-! ## JSON texts -/

theorem isWhitespace_of_space {c : Char} (h : isSpace c = true) : isWhitespace c = true := by
  simp only [isSpace, Bool.or_eq_true, decide_eq_true_eq] at h
  obtain ((rfl | rfl) | rfl) | rfl := h <;> decide

theorem not_whitespace_of_digit {c : Char} (h : isDigit c = true) : isWhitespace c = false := by
  obtain ⟨hlow, hhigh⟩ := Bool.and_eq_true_iff.mp h
  have hlow : 48 ≤ c.toNat := of_decide_eq_true hlow
  have hhigh : c.toNat ≤ 57 := of_decide_eq_true hhigh
  simp only [isWhitespace, Bool.or_eq_false_iff, Bool.and_eq_false_iff, decide_eq_false_iff_not,
    beq_eq_false_iff_ne]
  omega

/-- A text that neither begins nor ends with whitespace. -/
def Trimmed (text : Text) : Prop :=
  ∃ first last, text.head? = some first ∧ text.getLast? = some last ∧
    isWhitespace first = false ∧ isWhitespace last = false

theorem trim_of_trimmed {text : Text} (h : Trimmed text) : trim text = text := by
  obtain ⟨first, last, hfirst, hlast, hf, hl⟩ := h
  rw [trim, List.dropWhile_eq_self_iff.mpr, List.rdropWhile_eq_self_iff.mpr]
  · intro hne
    rw [List.getLast?_eq_some_getLast hne] at hlast
    rw [Option.some.inj hlast, hl]
    exact Bool.false_ne_true
  · intro hpos
    have hhead : text[0] = first := by
      rw [List.head?_eq_getElem?, List.getElem?_eq_getElem hpos] at hfirst
      exact Option.some.inj hfirst
    rw [hhead, hf]
    exact Bool.false_ne_true

theorem trimmed_digits {text : Text} (h : Digits text) :
    ∃ last, text.getLast? = some last ∧ isWhitespace last = false := by
  obtain ⟨front, last, rfl⟩ := List.eq_nil_or_concat' text |>.resolve_left h.1
  exact ⟨last, List.getLast?_concat, not_whitespace_of_digit (h.2 last (by simp))⟩

/-- The text of a number ends with a digit. -/
theorem getLast?_number {text : Text} (h : Number text) :
    ∃ last, text.getLast? = some last ∧ isWhitespace last = false := by
  have happend {a b : Text} (h : ∃ last, b.getLast? = some last ∧ isWhitespace last = false) :
      ∃ last, (a ++ b).getLast? = some last ∧ isWhitespace last = false := by
    obtain ⟨last, hlast, hl⟩ := h
    exact ⟨last, by rw [List.getLast?_append, hlast]; rfl, hl⟩
  obtain ⟨minus, integer, fraction, exponent, -, hinteger, hfraction, hexponent, rfl⟩ := h
  refine happend ?_
  obtain rfl | ⟨e, sign, digits, -, -, hdigits, rfl⟩ := hexponent
  · rw [List.append_nil]
    obtain rfl | ⟨digits, hdigits, rfl⟩ := hfraction
    · rw [List.append_nil]
      obtain rfl | ⟨hdigits, -⟩ := hinteger
      · exact ⟨'0', rfl, by decide⟩
      · exact trimmed_digits hdigits
    · exact happend (happend (a := ['.']) (trimmed_digits hdigits))
  · exact happend (happend (happend (a := [e]) (happend (trimmed_digits hdigits))))

/-- The text of a value has no whitespace around it. -/
theorem trimmed_of_valueText {text : Text} {value : Value} {n k : ℕ}
    (h : ValueText text value n k) : Trimmed text := by
  have hclosed (first last : Char) (middle : Text) (hf : isWhitespace first = false)
      (hl : isWhitespace last = false) : Trimmed (first :: (middle ++ [last])) :=
    ⟨first, last, rfl, by rw [← List.cons_append, List.getLast?_concat], hf, hl⟩
  cases h with
  | null => exact ⟨'n', 'l', rfl, rfl, by decide, by decide⟩
  | true => exact ⟨'t', 'e', rfl, rfl, by decide, by decide⟩
  | false => exact ⟨'f', 'e', rfl, rfl, by decide, by decide⟩
  | number h =>
    obtain ⟨c, rest, rfl, -, hc⟩ := Parser.number_opens h
    obtain ⟨last, hlast, hl⟩ := getLast?_number h
    refine ⟨c, last, rfl, hlast, ?_, hl⟩
    obtain rfl | hdigit := hc
    · decide
    · exact not_whitespace_of_digit hdigit
  | string h =>
    obtain ⟨body, -, rfl⟩ := h
    exact hclosed '"' '"' body (by decide) (by decide)
  | emptyArray | emptyObject => exact hclosed _ _ _ (by decide) (by decide)
  | array | object =>
    rw [← List.append_assoc]
    exact hclosed _ _ _ (by decide) (by decide)

/-- Whitespace around a text does not matter to the parser. -/
theorem parse_trim {raw : Text} {v : Value} (h : parse raw = .ok v) : parse (trim raw) = .ok v := by
  obtain ⟨e, hrefused⟩ | ⟨v', n, k, ⟨before, x, after, hbefore, hx, hafter, rfl⟩, hn, hk⟩ :=
    parse_sound raw
  · rw [hrefused] at h
    exact nomatch h
  · rw [parse_complete ⟨before, x, after, hbefore, hx, hafter, rfl⟩ hn hk] at h
    obtain rfl := Except.ok.inj h
    rw [trim_append_left fun c hc => isWhitespace_of_space (hbefore c hc),
      trim_append_right fun c hc => isWhitespace_of_space (hafter c hc),
      trim_of_trimmed (trimmed_of_valueText hx)]
    refine parse_complete ⟨[], x, [], space_nil, hx, space_nil, ?_⟩ hn hk
    rw [List.append_nil, List.nil_append]

/-- A JSON text without markers keeps its value. -/
theorem normalizeRelaxedJson_of_parse {raw : Text} {v : Value} (h : parse raw = .ok v)
    (hmarkers : ∀ marker ∈ markers, ¬marker.1 <:+: raw) :
    normalizeRelaxedJson raw = .ok (stringify v) := by
  have hfold (pairs : List (Text × Text)) (hpairs : ∀ pair ∈ pairs, ¬pair.1 <:+: trim raw) :
      pairs.foldl (fun s pair => replace pair.1 pair.2 s) (trim raw) = trim raw := by
    induction pairs with
    | nil => rfl
    | cons pair pairs ih =>
      obtain ⟨hpair, hpairs⟩ := List.forall_mem_cons.mp hpairs
      rw [List.foldl_cons, replace_of_not_infix hpair, ih hpairs]
  have htrim : trim raw <:+: raw :=
    (List.rdropWhile_prefix _ _).isInfix.trans (List.dropWhile_suffix _).isInfix
  have hs := hfold markers fun marker hmarker hwithin => hmarkers marker hmarker (hwithin.trans htrim)
  have hfrom : fromStr (trim raw) = .ok (some v) := by
    unfold fromStr
    rw [parse_trim h]
  unfold normalizeRelaxedJson
  dsimp only
  rw [hs, hfrom]
  rfl

/-- **Main theorem.** The repair of a JSON text without markers has the value of the text. The
scanner of keys only puts quotes into a text if and only if the text is ASCII, and the scanner of
values if and only if the characters outside of bare values are ASCII and each bare value ends at
a comma or a brace with no whitespace in front of it. -/
theorem relaxedJson_kept (input : Text) :
    (∀ v, parse input = .ok v → (∀ marker ∈ markers, ¬marker.1 <:+: input) →
      ∃ out, normalizeRelaxedJson input = .ok out ∧ parse out = .ok v) ∧
    ((∃ out, quoteRelaxedKeys input = .ok out ∧ Inserts input out) ↔
      ∀ c ∈ input, c.toNat ≤ 0x7f) ∧
    ((∃ out, quoteRelaxedValues input = .ok out ∧ Inserts input out) ↔
      valuesKept .plain input = true) := by
  refine ⟨fun v h hmarkers => ?_, quoteRelaxedKeys_inserts_iff input, ?_⟩
  · exact ⟨stringify v, normalizeRelaxedJson_of_parse h hmarkers, parse_stringify_of_parse h⟩
  · rw [quoteRelaxedValues_eq, ← inserts_iff_kept]
    constructor
    · rintro ⟨out, heq, hinserts⟩
      rwa [Except.ok.inj heq]
    · exact fun hinserts => ⟨_, rfl, hinserts⟩

/-- A text with an escape, whose brackets and bars are no markers. -/
theorem relaxedJson_kept_bars : ∃ out,
    normalizeRelaxedJson "\x7b\"a\": \"< | >\\n\"\x7d".toList = .ok out ∧
    parse out = .ok (.object [(['a'], .string ['<', ' ', '|', ' ', '>', '\n'])]) :=
  (relaxedJson_kept _).1 _ (by rfl) (by decide)

/-- A string loses its markers, a letter that is not ASCII becomes two, and a value without its
end is dropped. -/
theorem relaxedJson_changed :
    (∃ v out, parse "\x7b\"a\":\"<|x|>\"\x7d".toList = .ok v ∧
      normalizeRelaxedJson "\x7b\"a\":\"<|x|>\"\x7d".toList = .ok out ∧ parse out ≠ .ok v) ∧
    (¬∃ out, quoteRelaxedKeys ['é'] = .ok out ∧ Inserts ['é'] out) ∧
    ¬∃ out, quoteRelaxedValues "\x7b\"a\": b".toList = .ok out ∧ Inserts "\x7b\"a\": b".toList out := by
  refine ⟨⟨.object [(['a'], .string ['<', '|', 'x', '|', '>'])], "\x7b\"a\":\"x\"\x7d".toList, by rfl,
    by rfl, ?_⟩, ?_, ?_⟩
  · have hparse : parse "\x7b\"a\":\"x\"\x7d".toList = .ok (.object [(['a'], .string ['x'])]) := by rfl
    rw [hparse]
    intro h
    cases h
  · rintro ⟨out, hout, hinserts⟩
    have heq : quoteRelaxedKeys ['é'] = .ok ['Ã', '©'] := by rfl
    rw [heq] at hout
    obtain rfl := Except.ok.inj hout
    exact absurd hinserts.unquoted_eq (by decide)
  · rintro ⟨out, hout, hinserts⟩
    have heq : quoteRelaxedValues "\x7b\"a\": b".toList = .ok "\x7b\"a\": ".toList := by rfl
    rw [heq] at hout
    obtain rfl := Except.ok.inj hout
    exact absurd hinserts.unquoted_eq (by decide)

end Mrml.Agent
