import Mrml.Agent.Scanner

/-!
# The scanner of values, character by character

`quote_relaxed_values` goes over bytes; `repaired` is what it makes of a text, as a machine that
reads one character after the other.

Results:
* `quoteRelaxedValues_eq`: the scanner computes `repaired`.
* `inserts_iff_kept`: it only puts quotes into a text if and only if all the characters outside
  of bare values are ASCII and each bare value ends at a comma or a brace, with no whitespace in
  front of it.
-/

namespace Mrml.Agent

open Text Json

/-! ## The machine -/

/-- An ASCII character whose byte has a property. -/
def onAscii (p : UInt8 → Bool) (c : Char) : Bool := decide (Ascii c) && p c.toUInt8

/-- Where the scanner is. -/
inductive Mode
  | plain
  | quoted (delimiter previous : Char)
  | colon
  | bare (value : Text)

/-- Behind a character that is outside of quotes and values. -/
def nextMode (c : Char) : Mode :=
  if c = '"' ∨ c = '\'' then .quoted c c else if c = ':' then .colon else .plain

/-- Behind a character in quotes. -/
def quotedMode (delimiter previous c : Char) : Mode :=
  if c = delimiter ∧ previous ≠ '\\' then .plain else .quoted delimiter c

/-- The bytes of a character, each as a character. -/
def byteChars (c : Char) : Text := (String.utf8EncodeChar c).map byteChar

/-- What the scanner makes of a text. -/
def repaired : Mode → Text → Text
  | _, [] => []
  | .plain, c :: rest => byteChars c ++ repaired (nextMode c) rest
  | .quoted delimiter previous, c :: rest =>
    byteChars c ++ repaired (quotedMode delimiter previous c) rest
  | .colon, c :: rest =>
    if onAscii isWhitespaceByte c then byteChars c ++ repaired .colon rest
    else if onAscii isAlphabeticByte c then repaired (.bare [c]) rest
    else byteChars c ++ repaired (nextMode c) rest
  | .bare value, c :: rest =>
    if onAscii endsValueByte c then
      quotedValue (trim value) ++ (byteChars c ++ repaired (nextMode c) rest)
    else if onAscii breaksValueByte c then byteChars c ++ repaired (nextMode c) rest
    else repaired (.bare (value ++ [c])) rest

/-- All characters outside of bare values are ASCII, and each bare value ends at a comma or a brace
with no whitespace in front of it. -/
def valuesKept : Mode → Text → Bool
  | .bare _, [] => false
  | _, [] => true
  | .plain, c :: rest => decide (Ascii c) && valuesKept (nextMode c) rest
  | .quoted delimiter previous, c :: rest =>
    decide (Ascii c) && valuesKept (quotedMode delimiter previous c) rest
  | .colon, c :: rest =>
    if onAscii isWhitespaceByte c then valuesKept .colon rest
    else if onAscii isAlphabeticByte c then valuesKept (.bare [c]) rest
    else decide (Ascii c) && valuesKept (nextMode c) rest
  | .bare value, c :: rest =>
    if onAscii endsValueByte c then
      decide (trim value = value) && (decide (Ascii c) && valuesKept (nextMode c) rest)
    else if onAscii breaksValueByte c then false
    else valuesKept (.bare (value ++ [c])) rest

/-! ## Bytes and characters -/

theorem agrees_onAscii {p : UInt8 → Bool} (h : ∀ b, p b = true → b.toNat < 0x80) :
    Agrees p (onAscii p) where
  ascii c hc := by rw [onAscii, decide_eq_true hc, Bool.true_and]
  high b hb := by
    by_contra hp
    have := h b (Bool.not_eq_false _ ▸ hp)
    omega
  not_ascii c hc := by rw [onAscii, decide_eq_false hc, Bool.false_and]

theorem ascii_of_onAscii {p : UInt8 → Bool} {c : Char} (h : onAscii p c = true) : Ascii c := by
  rw [onAscii, Bool.and_eq_true, decide_eq_true_eq] at h
  exact h.1

theorem ascii_of_endsValueByte {b : UInt8} (h : endsValueByte b = true) : b.toNat < 0x80 := by
  simp only [endsValueByte, Bool.or_eq_true, beq_iff_eq] at h
  obtain rfl | rfl := h <;> decide

theorem ascii_of_breaksValueByte {b : UInt8} (h : breaksValueByte b = true) : b.toNat < 0x80 := by
  simp only [breaksValueByte, Bool.or_eq_true, beq_iff_eq] at h
  obtain (((rfl | rfl) | rfl) | rfl) | rfl := h <;> decide

/-- A run of bytes that are not in a set of ASCII characters. -/
theorem takeWhile_not {byte : UInt8 → Bool} {char : Char → Bool} (h : Agrees byte char)
    (t : Text) : (asBytes t).takeWhile (fun b => !byte b) =
      asBytes (t.takeWhile fun c => !char c) := by
  induction t with
  | nil => rfl
  | cons c t ih =>
    rw [asBytes_cons]
    by_cases hc : Ascii c
    · rw [utf8EncodeChar_ascii hc, List.singleton_append, List.takeWhile_cons, List.takeWhile_cons,
        h.ascii c hc, ih]
      split_ifs
      · rw [asBytes_cons, utf8EncodeChar_ascii hc, List.singleton_append]
      · rfl
    · rw [List.takeWhile_append_of_pos, ih, List.takeWhile_cons_of_pos, asBytes_cons]
      · rw [h.not_ascii c hc]
        rfl
      · intro b hb
        rw [h.high b (high_of_not_ascii hc hb)]
        rfl

theorem byteChars_of_ascii {c : Char} (h : Ascii c) : byteChars c = [c] := by
  rw [byteChars, utf8EncodeChar_of_ascii h, List.map_singleton, byteChar_of_ascii h]

/-- The characters for the bytes of a character that is not ASCII: there is more than one, and none
is ASCII. -/
theorem byteChars_of_not_ascii {c : Char} (h : ¬Ascii c) :
    (∃ a b rest, byteChars c = a :: b :: rest) ∧ ∀ d ∈ byteChars c, ¬Ascii d := by
  constructor
  · have hlength : 2 ≤ (byteChars c).length := by
      rw [byteChars, List.length_map]
      unfold String.utf8EncodeChar
      dsimp only
      split_ifs with h1
      · exact absurd h1 h
      all_goals simp
    match hchars : byteChars c, hlength with
    | a :: b :: rest, _ => exact ⟨a, b, rest, rfl⟩
  · intro d hd hascii
    obtain ⟨byte, hbyte, rfl⟩ := List.mem_map.mp hd
    have hhigh := high_of_not_ascii h hbyte
    have hlt := byte.toNat_lt
    have hnat : (byteChar byte).toNat = byte.toNat := by
      rw [byteChar, Char.toNat_ofNat, if_pos]
      exact .inl (by omega)
    rw [Ascii, hnat] at hascii
    omega

/-! ## The scanner computes the machine -/

/-- The quote that the scanner keeps. -/
def Mode.quote : Mode → Option UInt8
  | .quoted delimiter _ => some delimiter.toUInt8
  | _ => none

/-- The scanner stands behind a text, outside of values. -/
def Mode.Behind (front : Text) : Mode → Prop
  | .plain => True
  | .quoted delimiter previous => Ascii delimiter ∧ front.getLast? = some previous
  | _ => False

theorem behind_nextMode {c : Char} (h : c ≠ ':') (front : Text) :
    (nextMode c).Behind (front ++ [c]) := by
  unfold nextMode
  split_ifs with hquote
  · refine ⟨?_, List.getLast?_concat⟩
    obtain rfl | rfl := hquote <;> decide
  · trivial

theorem behind_quotedMode {delimiter previous c : Char} (h : Ascii delimiter) (front : Text) :
    (quotedMode delimiter previous c).Behind (front ++ [c]) := by
  unfold quotedMode
  split_ifs
  · trivial
  · exact ⟨h, List.getLast?_concat⟩

theorem closesQuote_eq {front : Text} {delimiter previous c : Char} (hc : Ascii c)
    (hdelimiter : Ascii delimiter) (hprevious : front.getLast? = some previous)
    (tail : List UInt8) :
    closesQuote (asBytes front ++ tail) (asBytes front).length c.toUInt8 delimiter.toUInt8 =
      decide (c = delimiter ∧ previous ≠ '\\') := by
  obtain ⟨front, rfl⟩ := List.getLast?_eq_some_iff.mp hprevious
  have hlast : (asBytes (front ++ [previous]) ++ tail)[(asBytes (front ++ [previous])).length - 1]? =
      (String.utf8EncodeChar previous).getLast? := by
    have hpos : 0 < (String.utf8EncodeChar previous).length :=
      List.length_pos_iff.mpr String.utf8EncodeChar_ne_nil
    have hsingle : asBytes [previous] = String.utf8EncodeChar previous := List.append_nil _
    rw [asBytes_append, hsingle, List.length_append,
      List.getElem?_append_left (by rw [List.length_append]; omega),
      List.getElem?_append_right (by omega), List.getLast?_eq_getElem?]
    congr 1
    omega
  have hne : (asBytes (front ++ [previous])).length ≠ 0 := by
    rw [asBytes_append, List.length_append]
    have hpos : 0 < (asBytes [previous]).length := by
      rw [asBytes_cons, List.length_append]
      have := List.length_pos_iff.mpr (String.utf8EncodeChar_ne_nil (c := previous))
      omega
    omega
  have hescape : (String.utf8EncodeChar previous).getLast? = some '\\'.toUInt8 ↔
      previous = '\\' := by
    by_cases hascii : Ascii previous
    · rw [utf8EncodeChar_ascii hascii, List.getLast?_singleton, Option.some.injEq]
      exact toUInt8_eq_iff (by decide) hascii
    · constructor
      · intro h
        have hhigh := high_of_not_ascii hascii (List.mem_of_getLast? h)
        exact absurd hhigh (by decide)
      · rintro rfl
        exact absurd (by decide) hascii
  rw [closesQuote, hlast, Bool.eq_iff_iff, Bool.and_eq_true, Bool.or_eq_true, beq_iff_eq,
    beq_iff_eq, bne_iff_ne, decide_eq_true_iff, toUInt8_eq_iff hdelimiter hc, Ne, hescape]
  exact and_congr_right' (or_iff_right hne)

section Steps

variable {input : Text} {bytes : List UInt8} {fuel index : ℕ} {output : Text} {byte : UInt8}

theorem valuesLoop_end {quote : Option UInt8} (h : bytes[index]? = none) :
    valuesLoop input bytes (fuel + 1) index quote output = .ok output := by
  conv_lhs => unfold valuesLoop
  rw [h]

theorem valuesLoop_quoted (h : bytes[index]? = some byte) (delimiter : UInt8) :
    valuesLoop input bytes (fuel + 1) index (some delimiter) output =
      valuesLoop input bytes fuel (index + 1)
        (if closesQuote bytes index byte delimiter then none else some delimiter)
        (output ++ [byteChar byte]) := by
  conv_lhs => unfold valuesLoop
  rw [h]

/-- Outside of quotes, on what is not a colon. -/
theorem valuesLoop_plain (h : bytes[index]? = some byte) (hcolon : byte ≠ ':'.toUInt8) :
    valuesLoop input bytes (fuel + 1) index none output =
      valuesLoop input bytes fuel (index + 1) (if isQuoteByte byte then some byte else none)
        (output ++ [byteChar byte]) := by
  conv_lhs => unfold valuesLoop
  rw [h]
  dsimp only
  rw [if_pos hcolon]
  split_ifs <;> rfl

/-- Outside of quotes, on a colon. -/
theorem valuesLoop_colon (h : bytes[index]? = some ':'.toUInt8) {start stop : ℕ}
    (hstart : scanWhile isWhitespaceByte bytes (index + 1) = start)
    (hstop : scanWhile (fun b => !endsValueByte b && !breaksValueByte b) bytes start = stop) :
    valuesLoop input bytes (fuel + 1) index none output =
      if bytes[start]?.any isAlphabeticByte then do
        let value ← if bytes[stop]?.any endsValueByte then
            (sliceStr input start stop).map fun value => quotedValue (trim value)
          else .ok []
        valuesLoop input bytes fuel stop none (output ++ ':' ::
          (slice bytes (index + 1) (start - (index + 1))).map byteChar ++ value)
      else valuesLoop input bytes fuel start none
        (output ++ ':' :: (slice bytes (index + 1) (start - (index + 1))).map byteChar) := by
  conv_lhs => unfold valuesLoop
  rw [h]
  subst hstart hstop
  dsimp only
  rw [if_neg (by decide), if_neg (by decide)]
  cases hletter : bytes[scanWhile isWhitespaceByte bytes (index + 1)]?.any isAlphabeticByte with
  | false => rfl
  | true =>
    rw [if_neg (by decide), if_pos rfl]
    split_ifs with hends
    · cases sliceStr input (scanWhile isWhitespaceByte bytes (index + 1)) _ <;> rfl
    · show _ = valuesLoop _ _ _ _ _ (_ ++ [])
      rw [List.append_nil]
      rfl

end Steps

/-- The scanner goes past the bytes of a character that is not ASCII. -/
theorem valuesLoop_high (input : Text) {bytes : List UInt8} {quote : Option UInt8}
    (hquote : ∀ delimiter ∈ quote, delimiter.toNat < 0x80) (high : List UInt8) (fuel index : ℕ)
    (output : Text) (hdrop : high <+: bytes.drop index) (hhigh : ∀ b ∈ high, 0x80 ≤ b.toNat) :
    valuesLoop input bytes (fuel + high.length) index quote output =
      valuesLoop input bytes fuel (index + high.length) quote (output ++ high.map byteChar) := by
  induction high generalizing index output with
  | nil => rw [List.length_nil, List.map_nil, List.append_nil, Nat.add_zero, Nat.add_zero]
  | cons b high ih =>
    obtain ⟨hb, hhigh⟩ := List.forall_mem_cons.mp hhigh
    obtain ⟨tail, htail⟩ := hdrop
    have hget : bytes[index]? = some b := by
      rw [← Nat.add_zero index, ← List.getElem?_drop, ← htail]
      rfl
    have hnext : high <+: bytes.drop (index + 1) :=
      ⟨tail, List.cons.inj (htail.trans (drop_of_getElem? hget)) |>.2⟩
    have hstep : valuesLoop input bytes (fuel + (high.length + 1)) index quote output =
        valuesLoop input bytes (fuel + high.length) (index + 1) quote (output ++ [byteChar b]) := by
      have hne {a : Char} (ha : Ascii a) : b ≠ a.toUInt8 := ne_of_high ha hb
      cases quote with
      | none =>
        have hplain : isQuoteByte b = false := by
          rw [isQuoteByte, beq_false_of_ne (hne (by decide)), beq_false_of_ne (hne (by decide))]
          rfl
        rw [← Nat.add_assoc, valuesLoop_plain hget (hne (by decide)), hplain]
        rfl
      | some delimiter =>
        have hlt := hquote delimiter rfl
        have hopen : closesQuote bytes index b delimiter = false := by
          rw [closesQuote, beq_false_of_ne (by rintro rfl; omega), Bool.false_and]
        rw [← Nat.add_assoc, valuesLoop_quoted hget, hopen]
        rfl
    rw [List.length_cons, hstep, ih _ _ hnext hhigh, List.map_cons, List.append_assoc,
      List.singleton_append]
    congr 1
    omega

/-- A run of characters of a bare value. -/
theorem repaired_bare {run : Text} (h : ∀ c ∈ run, onAscii endsValueByte c = false ∧
    onAscii breaksValueByte c = false) (value rest : Text) :
    repaired (.bare value) (run ++ rest) = repaired (.bare (value ++ run)) rest := by
  induction run generalizing value with
  | nil => rw [List.append_nil, List.nil_append]
  | cons c run ih =>
    obtain ⟨⟨hends, hbreaks⟩, hrun⟩ := List.forall_mem_cons.mp h
    rw [List.cons_append, repaired, hends, hbreaks, if_neg Bool.false_ne_true,
      if_neg Bool.false_ne_true, ih hrun, List.append_assoc, List.singleton_append]

/-- A run of whitespace behind a colon. -/
theorem repaired_colon {space : Text} (h : ∀ c ∈ space, onAscii isWhitespaceByte c = true)
    (rest : Text) : repaired .colon (space ++ rest) = space ++ repaired .colon rest := by
  induction space with
  | nil => rfl
  | cons c space ih =>
    obtain ⟨hc, hspace⟩ := List.forall_mem_cons.mp h
    rw [List.cons_append, repaired, if_pos hc, byteChars_of_ascii (ascii_of_onAscii hc), ih hspace]
    rfl

/-- The bytes of a text behind a part of it. -/
theorem drop_asBytes (front rest : Text) :
    (asBytes (front ++ rest)).drop (asBytes front).length = asBytes rest := by
  rw [asBytes_append, List.drop_left]

theorem getElem?_asBytes {c : Char} (h : Ascii c) (front rest : Text) :
    (asBytes (front ++ c :: rest))[(asBytes front).length]? = some c.toUInt8 := by
  rw [asBytes_append, List.getElem?_append_right le_rfl, Nat.sub_self, asBytes_cons,
    utf8EncodeChar_ascii h]
  rfl

/-- Behind a text, a byte with a property is a character with it. -/
theorem any_getElem?_asBytes {p : UInt8 → Bool} (h : ∀ b, p b = true → b.toNat < 0x80)
    (front rest : Text) : (asBytes (front ++ rest))[(asBytes front).length]?.any p =
      rest.head?.any (onAscii p) := by
  cases rest with
  | nil => rw [List.append_nil, List.getElem?_eq_none le_rfl]; rfl
  | cons c rest =>
    by_cases hc : Ascii c
    · rw [getElem?_asBytes hc]
      exact (agrees_onAscii h).ascii c hc
    · obtain ⟨b, bytes, hbytes, -⟩ := utf8EncodeChar_eq_cons c
      have hb := high_of_not_ascii hc (by rw [hbytes]; exact List.mem_cons_self)
      rw [asBytes_append, List.getElem?_append_right le_rfl, Nat.sub_self, asBytes_cons, hbytes]
      exact ((agrees_onAscii h).high b hb).trans ((agrees_onAscii h).not_ascii c hc).symm

/-- A run of bytes that are those of a run of characters. -/
theorem scanWhile_asBytes {p : UInt8 → Bool} {char : Char → Bool}
    (hagrees : ∀ text, (asBytes text).takeWhile p = asBytes (text.takeWhile char))
    (front : Text) {run rest : Text} (hrun : ∀ c ∈ run, char c = true)
    (hrest : rest.head?.any char = false) :
    scanWhile p (asBytes (front ++ (run ++ rest))) (asBytes front).length =
      (asBytes (front ++ run)).length := by
  have htake : (run ++ rest).takeWhile char = run := takeWhile_append hrun fun c hc => by
    rw [Option.mem_def.mp hc] at hrest
    exact hrest
  rw [scanWhile, drop_asBytes, hagrees, htake, asBytes_append front run, List.length_append]

theorem repaired_colon_other {rest : Text} (hspace : rest.head?.any (onAscii isWhitespaceByte) = false)
    (hletter : rest.head?.any (onAscii isAlphabeticByte) = false) :
    repaired .colon rest = repaired .plain rest := by
  cases rest with
  | nil => rfl
  | cons c rest =>
    rw [List.head?_cons, Option.any_some] at hspace hletter
    conv_lhs => rw [repaired]
    rw [hspace, hletter, if_neg Bool.false_ne_true, if_neg Bool.false_ne_true, repaired]

/-- The end of a bare value. -/
theorem repaired_bare_end {rest : Text} (h : ∀ c ∈ rest.head?, onAscii endsValueByte c = true ∨
    onAscii breaksValueByte c = true) (value : Text) :
    repaired (.bare value) rest = (if rest.head?.any (onAscii endsValueByte) then
      quotedValue (trim value) else []) ++ repaired .plain rest := by
  cases rest with
  | nil => rfl
  | cons c rest =>
    rw [List.head?_cons, Option.any_some, repaired, repaired]
    split_ifs with hends hbreaks
    · rfl
    · rfl
    · exact absurd (h c rfl) (not_or.mpr ⟨hends, hbreaks⟩)

theorem quote_quotedMode (delimiter previous c : Char) : (quotedMode delimiter previous c).quote =
    if decide (c = delimiter ∧ previous ≠ '\\') then none else some delimiter.toUInt8 := by
  unfold quotedMode
  split_ifs with h h' h'
  · rfl
  · exact absurd (decide_eq_true h) h'
  · exact absurd (of_decide_eq_true h') h
  · rfl

theorem quote_nextMode {c : Char} (hc : Ascii c) : (nextMode c).quote =
    if isQuoteByte c.toUInt8 then some c.toUInt8 else none := by
  have hquote : isQuoteByte c.toUInt8 = true ↔ c = '"' ∨ c = '\'' := by
    rw [isQuoteByte, Bool.or_eq_true, beq_iff_eq, beq_iff_eq, toUInt8_eq_iff (by decide) hc,
      toUInt8_eq_iff (by decide) hc]
  unfold nextMode
  by_cases h : c = '"' ∨ c = '\''
  · rw [if_pos h, if_pos (hquote.mpr h)]
    rfl
  · rw [if_neg h, if_neg (mt hquote.mp h)]
    split_ifs <;> rfl

/-- The characters of a bare value. -/
def inValue (c : Char) : Bool := !onAscii endsValueByte c && !onAscii breaksValueByte c

theorem takeWhile_inValue (text : Text) :
    (asBytes text).takeWhile (fun b => !endsValueByte b && !breaksValueByte b) =
      asBytes (text.takeWhile inValue) := by
  have hagrees : Agrees (fun b => endsValueByte b || breaksValueByte b)
      (fun c => onAscii endsValueByte c || onAscii breaksValueByte c) := by
    have hends := agrees_onAscii (p := endsValueByte) fun _ => ascii_of_endsValueByte
    have hbreaks := agrees_onAscii (p := breaksValueByte) fun _ => ascii_of_breaksValueByte
    refine ⟨fun c hc => ?_, fun b hb => ?_, fun c hc => ?_⟩
    · rw [hends.ascii c hc, hbreaks.ascii c hc]
    · rw [hends.high b hb, hbreaks.high b hb]
      rfl
    · rw [hends.not_ascii c hc, hbreaks.not_ascii c hc]
      rfl
  have h := takeWhile_not hagrees text
  simp only [Bool.not_or] at h
  exact h

/-- The whitespace behind a colon. -/
theorem scanWhile_colon (front : Text) {space rest : Text}
    (hspace : ∀ c ∈ space, onAscii isWhitespaceByte c = true)
    (hrest : rest.head?.any (onAscii isWhitespaceByte) = false) :
    scanWhile isWhitespaceByte (asBytes (front ++ ':' :: (space ++ rest)))
      ((asBytes front).length + 1) = (asBytes (front ++ ':' :: space)).length ∧
    (slice (asBytes (front ++ ':' :: (space ++ rest))) ((asBytes front).length + 1)
      ((asBytes (front ++ ':' :: space)).length - ((asBytes front).length + 1))).map byteChar =
      space := by
  have hcolon : (asBytes front).length + 1 = (asBytes (front ++ [':'])).length := by
    rw [asBytes_append, List.length_append]
    rfl
  have hlist (text : Text) : front ++ ':' :: text = (front ++ [':']) ++ text := by
    rw [List.append_assoc, List.singleton_append]
  rw [hlist (space ++ rest), hlist space, hcolon]
  constructor
  · exact scanWhile_asBytes (agrees_onAscii fun _ => ascii_of_isWhitespaceByte).takeWhile _ hspace
      hrest
  · rw [slice, drop_asBytes, asBytes_append _ space, List.length_append, Nat.add_sub_cancel_left,
      asBytes_append, List.take_left]
    refine map_byteChar_of_ascii fun byte hbyte => ?_
    obtain ⟨c, hc, hbyte⟩ := List.mem_flatMap.mp hbyte
    obtain ⟨-, rfl⟩ | hhigh := mem_utf8EncodeChar hbyte
    · have hascii : c.toNat ≤ 0x7f := ascii_of_onAscii (hspace c hc)
      rw [UInt8.toNat_ofNat']
      omega
    · have hascii : Ascii c := ascii_of_onAscii (hspace c hc)
      rw [utf8EncodeChar_ascii hascii, List.mem_singleton] at hbyte
      rw [hbyte, toUInt8_toNat hascii]
      exact Nat.lt_succ_of_le hascii

theorem not_whitespace_of_alphabetic {c : Char} (h : onAscii isAlphabeticByte c = true) :
    onAscii isWhitespaceByte c = false := by
  rw [onAscii, Bool.and_eq_true] at h
  rw [onAscii, h.1, Bool.true_and, Bool.eq_false_iff]
  intro hspace
  have hletter := h.2
  generalize c.toUInt8 = byte at hspace hletter
  simp only [isWhitespaceByte, Bool.or_eq_true, beq_iff_eq] at hspace
  obtain (((rfl | rfl) | rfl) | rfl) | rfl := hspace <;> exact absurd hletter (by decide)

/-- **Step lemma.** What the scanner does with a colon, the whitespace behind it and the bare value
behind that. -/
theorem valuesLoop_value (front space value rest : Text) (fuel : ℕ) (output : Text)
    (hspace : ∀ c ∈ space, onAscii isWhitespaceByte c = true)
    (hvalue : ∀ c ∈ value, inValue c = true)
    (hletter : value.head?.any (onAscii isAlphabeticByte) = true)
    (hrest : rest.head?.any inValue = false) :
    valuesLoop (front ++ ':' :: (space ++ (value ++ rest)))
      (asBytes (front ++ ':' :: (space ++ (value ++ rest)))) (fuel + 1) (asBytes front).length none
      output =
    valuesLoop (front ++ ':' :: (space ++ (value ++ rest)))
      (asBytes (front ++ ':' :: (space ++ (value ++ rest)))) fuel
      (asBytes ((front ++ ':' :: space) ++ value)).length none
      (output ++ ':' :: space ++ (if rest.head?.any (onAscii endsValueByte) then
        quotedValue (trim value) else [])) := by
  have hhead : (value ++ rest).head?.any (onAscii isWhitespaceByte) = false ∧
      (value ++ rest).head?.any (onAscii isAlphabeticByte) = true := by
    cases value with
    | nil => exact nomatch hletter
    | cons c value =>
      refine ⟨?_, hletter⟩
      rw [List.head?_cons, Option.any_some] at hletter
      rw [List.cons_append, List.head?_cons, Option.any_some]
      exact not_whitespace_of_alphabetic hletter
  obtain ⟨hstart, hslice⟩ := scanWhile_colon front hspace hhead.1
  have hlist : front ++ ':' :: (space ++ (value ++ rest)) =
      (front ++ ':' :: space) ++ (value ++ rest) := by
    rw [List.append_assoc, List.cons_append]
  have hstop := scanWhile_asBytes takeWhile_inValue (front ++ ':' :: space) hvalue hrest
  rw [← hlist] at hstop
  have hends : (asBytes (front ++ ':' :: (space ++ (value ++ rest))))[(asBytes
      ((front ++ ':' :: space) ++ value)).length]?.any endsValueByte =
      rest.head?.any (onAscii endsValueByte) := by
    rw [hlist, ← List.append_assoc]
    exact any_getElem?_asBytes (fun _ => ascii_of_endsValueByte) _ _
  have halphabetic : (asBytes (front ++ ':' :: (space ++ (value ++ rest))))[(asBytes
      (front ++ ':' :: space)).length]?.any isAlphabeticByte = true := by
    rw [hlist, any_getElem?_asBytes fun _ => ascii_of_isAlphabeticByte]
    exact hhead.2
  have hpart : (sliceStr (front ++ ':' :: (space ++ (value ++ rest)))
      (asBytes (front ++ ':' :: space)).length (asBytes ((front ++ ':' :: space) ++ value)).length :
      Except (Fault Empty) Text) = .ok value := by
    rw [hlist, asBytes_append _ value, List.length_append]
    exact sliceStr_append _ _ _
  rw [valuesLoop_colon (getElem?_asBytes (by decide) _ _) hstart hstop, if_pos halphabetic, hends,
    hpart, hslice]
  split_ifs <;> rfl

/-- **Step lemma.** What the scanner does with a colon and the whitespace behind it where no bare
value is behind that. -/
theorem valuesLoop_other (front space rest : Text) (fuel : ℕ) (output : Text)
    (hspace : ∀ c ∈ space, onAscii isWhitespaceByte c = true)
    (hrest : rest.head?.any (onAscii isWhitespaceByte) = false)
    (hletter : rest.head?.any (onAscii isAlphabeticByte) = false) :
    valuesLoop (front ++ ':' :: (space ++ rest)) (asBytes (front ++ ':' :: (space ++ rest)))
      (fuel + 1) (asBytes front).length none output =
    valuesLoop (front ++ ':' :: (space ++ rest)) (asBytes (front ++ ':' :: (space ++ rest)))
      fuel (asBytes (front ++ ':' :: space)).length none (output ++ ':' :: space) := by
  obtain ⟨hstart, hslice⟩ := scanWhile_colon front hspace hrest
  have hlist : front ++ ':' :: (space ++ rest) = (front ++ ':' :: space) ++ rest := by
    rw [List.append_assoc, List.cons_append]
  have halphabetic : (asBytes (front ++ ':' :: (space ++ rest)))[(asBytes
      (front ++ ':' :: space)).length]?.any isAlphabeticByte = false := by
    rw [hlist, any_getElem?_asBytes fun _ => ascii_of_isAlphabeticByte]
    exact hletter
  rw [valuesLoop_colon (getElem?_asBytes (by decide) _ _) hstart rfl, halphabetic,
    if_neg Bool.false_ne_true, hslice]

theorem inValue_of_alphabetic {c : Char} (h : onAscii isAlphabeticByte c = true) :
    inValue c = true := by
  rw [onAscii, Bool.and_eq_true] at h
  rw [inValue, onAscii, onAscii, h.1, Bool.true_and, Bool.true_and, ← Bool.not_or, Bool.not_eq_true',
    Bool.eq_false_iff]
  intro hstop
  have hletter := h.2
  generalize c.toUInt8 = byte at hstop hletter
  simp only [endsValueByte, breaksValueByte, Bool.or_eq_true, beq_iff_eq] at hstop
  obtain (rfl | rfl) | (((rfl | rfl) | rfl) | rfl) | rfl := hstop <;>
    exact absurd hletter (by decide)

theorem inValue_eq_true {c : Char} : inValue c = true ↔
    onAscii endsValueByte c = false ∧ onAscii breaksValueByte c = false := by
  rw [inValue, Bool.and_eq_true, Bool.not_eq_true', Bool.not_eq_true']

/-- A bare value behind a colon. -/
theorem repaired_value {value rest : Text} (hvalue : ∀ c ∈ value, inValue c = true)
    (hletter : value.head?.any (onAscii isAlphabeticByte) = true)
    (hrest : rest.head?.any inValue = false) :
    repaired .colon (value ++ rest) = (if rest.head?.any (onAscii endsValueByte) then
      quotedValue (trim value) else []) ++ repaired .plain rest := by
  cases value with
  | nil => exact nomatch hletter
  | cons c value =>
    rw [List.head?_cons, Option.any_some] at hletter
    have hends : ∀ d ∈ rest.head?, onAscii endsValueByte d = true ∨
        onAscii breaksValueByte d = true := fun d hd => by
      rw [Option.mem_def.mp hd, Option.any_some, inValue, Bool.and_eq_false_iff,
        Bool.not_eq_false', Bool.not_eq_false'] at hrest
      exact hrest
    rw [← repaired_bare_end hends (c :: value), List.cons_append]
    conv_lhs => rw [repaired]
    rw [not_whitespace_of_alphabetic hletter, if_neg Bool.false_ne_true, if_pos hletter,
      repaired_bare fun d hd => inValue_eq_true.mp (hvalue d (List.mem_cons_of_mem _ hd))]
    rfl

/-- From a place between two characters the scanner makes of the rest of the text what the machine
makes of it. -/
def Scans (front rest : Text) (mode : Mode) : Prop :=
  ∀ fuel output, (asBytes rest).length < fuel →
    valuesLoop (front ++ rest) (asBytes (front ++ rest)) fuel (asBytes front).length mode.quote
      output = .ok (output ++ repaired mode rest)

theorem scans_nil (front : Text) (mode : Mode) : Scans front [] mode := by
  intro fuel output hfuel
  obtain ⟨fuel, rfl⟩ := Nat.exists_eq_succ_of_ne_zero (Nat.ne_zero_of_lt hfuel)
  rw [valuesLoop_end (by rw [List.append_nil, List.getElem?_eq_none le_rfl]),
    show repaired mode [] = [] by cases mode <;> rfl, List.append_nil]

/-- The scanner behind a character, with the text as it is in front of it. -/
theorem Scans.behind {front rest : Text} {c : Char} {mode : Mode}
    (h : Scans (front ++ [c]) rest mode) (fuel : ℕ) (hfuel : (asBytes rest).length < fuel)
    (output : Text) :
    valuesLoop (front ++ c :: rest) (asBytes (front ++ c :: rest)) fuel
      ((asBytes front).length + (String.utf8EncodeChar c).length) mode.quote output =
      .ok (output ++ repaired mode rest) := by
  have h := h fuel output hfuel
  have hindex : (asBytes (front ++ [c])).length =
      (asBytes front).length + (String.utf8EncodeChar c).length := by
    rw [asBytes_append, List.length_append, asBytes_cons, asBytes_nil, List.append_nil]
  rwa [List.append_assoc, List.singleton_append, hindex] at h

theorem length_asBytes_cons (c : Char) (rest : Text) : (asBytes (c :: rest)).length =
    (String.utf8EncodeChar c).length + (asBytes rest).length := by
  rw [asBytes_cons, List.length_append]

/-- **Step lemma.** A character inside quotes. -/
theorem scans_quoted {front rest : Text} {delimiter previous c : Char}
    (hmode : (Mode.quoted delimiter previous).Behind front) (hc : Ascii c)
    (h : Scans (front ++ [c]) rest (quotedMode delimiter previous c)) :
    Scans front (c :: rest) (.quoted delimiter previous) := by
  intro fuel output hfuel
  obtain ⟨fuel, rfl⟩ := Nat.exists_eq_succ_of_ne_zero (Nat.ne_zero_of_lt hfuel)
  have hone : (String.utf8EncodeChar c).length = 1 := by
    rw [utf8EncodeChar_ascii hc, List.length_singleton]
  have hchar : byteChar c.toUInt8 = c := byteChar_of_ascii hc
  rw [length_asBytes_cons, hone] at hfuel
  have h := h.behind fuel (by omega) (output ++ [c])
  have hcloses := closesQuote_eq hc hmode.1 hmode.2 (asBytes (c :: rest))
  rw [← asBytes_append] at hcloses
  rw [hone] at h
  show valuesLoop _ _ _ _ (some delimiter.toUInt8) _ = _
  rw [valuesLoop_quoted (getElem?_asBytes hc front rest), hcloses, hchar, ← quote_quotedMode, h,
    repaired, byteChars_of_ascii hc, List.append_assoc]

/-- **Step lemma.** A character outside quotes that is no colon. -/
theorem scans_plain {front rest : Text} {c : Char} (hc : Ascii c) (hcolon : c ≠ ':')
    (h : Scans (front ++ [c]) rest (nextMode c)) : Scans front (c :: rest) .plain := by
  intro fuel output hfuel
  obtain ⟨fuel, rfl⟩ := Nat.exists_eq_succ_of_ne_zero (Nat.ne_zero_of_lt hfuel)
  have hone : (String.utf8EncodeChar c).length = 1 := by
    rw [utf8EncodeChar_ascii hc, List.length_singleton]
  have hchar : byteChar c.toUInt8 = c := byteChar_of_ascii hc
  rw [length_asBytes_cons, hone] at hfuel
  have h := h.behind fuel (by omega) (output ++ [c])
  have hne : c.toUInt8 ≠ ':'.toUInt8 := mt (toUInt8_eq_iff (by decide) hc).mp hcolon
  rw [hone] at h
  show valuesLoop _ _ _ _ none _ = _
  rw [valuesLoop_plain (getElem?_asBytes hc front rest) hne, hchar, ← quote_nextMode hc, h,
    repaired, byteChars_of_ascii hc, List.append_assoc]

/-- The longest part of a text with `p`, and what is behind it. -/
theorem exists_takeWhile (p : Char → Bool) (text : Text) : ∃ front behind, text = front ++ behind ∧
    (∀ c ∈ front, p c = true) ∧ behind.head?.any p = false :=
  ⟨_, _, (List.takeWhile_append_dropWhile (p := p)).symm, fun _ h => List.mem_takeWhile_imp h,
    head?_dropWhile _⟩

/-- A value that begins with a letter is not empty. -/
theorem head?_value {value rest : Text} (hrest : rest.head?.any inValue = false)
    (hletter : (value ++ rest).head?.any (onAscii isAlphabeticByte) = true) :
    value.head?.any (onAscii isAlphabeticByte) = true := by
  cases value with
  | cons d value => exact hletter
  | nil =>
    cases rest with
    | nil => exact nomatch hletter
    | cons d rest =>
      have htrue := inValue_of_alphabetic (c := d) hletter
      exact absurd (hrest.symm.trans htrue) Bool.false_ne_true

/-- **Step lemma.** A colon outside quotes, the whitespace behind it and a bare value behind
that. -/
theorem scans_colon {front rest : Text}
    (ih : ∀ front' rest', rest'.length ≤ rest.length → Scans front' rest' .plain) :
    Scans front (':' :: rest) .plain := by
  intro fuel output hfuel
  obtain ⟨fuel, rfl⟩ := Nat.exists_eq_succ_of_ne_zero (Nat.ne_zero_of_lt hfuel)
  have hc : Ascii ':' := by decide
  rw [length_asBytes_cons, utf8EncodeChar_ascii hc, List.length_singleton] at hfuel
  obtain ⟨space, rest, rfl, hspace, hrest⟩ := exists_takeWhile (onAscii isWhitespaceByte) rest
  have hmachine : repaired .plain (':' :: (space ++ rest)) = ':' :: (space ++ repaired .colon rest) := by
    rw [repaired, byteChars_of_ascii hc, ← repaired_colon hspace]
    rfl
  rw [asBytes_append, List.length_append] at hfuel
  rw [List.length_append] at ih
  have hlist (text : Text) : front ++ ':' :: (space ++ text) = (front ++ ':' :: space) ++ text := by
    rw [List.append_assoc, List.cons_append]
  show valuesLoop _ _ _ _ none _ = _
  cases hletter : rest.head?.any (onAscii isAlphabeticByte) with
  | false =>
    have h := ih (front ++ ':' :: space) rest (by omega) fuel (output ++ ':' :: space) (by omega)
    rw [← hlist] at h
    rw [valuesLoop_other front space rest fuel output hspace hrest hletter, hmachine,
      repaired_colon_other hrest hletter]
    exact h.trans (congrArg _ (List.append_assoc _ _ _))
  | true =>
    obtain ⟨value, rest, rfl, hvalue, hrest'⟩ := exists_takeWhile inValue rest
    have hhead := head?_value hrest' hletter
    rw [asBytes_append, List.length_append] at hfuel
    rw [List.length_append] at ih
    have h := ih ((front ++ ':' :: space) ++ value) rest (by omega) fuel
      (output ++ ':' :: space ++ (if rest.head?.any (onAscii endsValueByte) then
        quotedValue (trim value) else [])) (by omega)
    rw [List.append_assoc (front ++ ':' :: space), ← hlist] at h
    rw [valuesLoop_value front space value rest fuel output hspace hvalue hhead hrest',
      hmachine, repaired_value hvalue hhead hrest']
    refine h.trans (congrArg _ ?_)
    simp only [List.append_assoc, List.cons_append]

/-- **Step lemma.** All the bytes of a character that is not of ASCII. -/
theorem scans_high {front rest : Text} {c : Char} {mode mode' : Mode} (hc : ¬ Ascii c)
    (hquote : ∀ d ∈ mode.quote, d.toNat < 0x80) (hsame : mode.quote = mode'.quote)
    (hmachine : repaired mode (c :: rest) = byteChars c ++ repaired mode' rest)
    (h : Scans (front ++ [c]) rest mode') : Scans front (c :: rest) mode := by
  intro fuel output hfuel
  rw [length_asBytes_cons] at hfuel
  have hfuel' : fuel = (fuel - (String.utf8EncodeChar c).length) +
      (String.utf8EncodeChar c).length := by omega
  have hprefix : String.utf8EncodeChar c <+:
      (asBytes (front ++ c :: rest)).drop (asBytes front).length := by
    rw [drop_asBytes, asBytes_cons]
    exact List.prefix_append _ _
  rw [hfuel', valuesLoop_high _ hquote _ _ _ _ hprefix fun b hb => high_of_not_ascii hc hb, hsame,
    h.behind _ (by omega), hmachine, List.append_assoc]
  rfl

/-- **Run lemma.** From every place between two characters the scanner makes of the rest of the
text what the machine makes of it. -/
theorem scans (front rest : Text) (mode : Mode) (hmode : mode.Behind front) :
    Scans front rest mode := by
  induction hn : rest.length using Nat.strong_induction_on generalizing front rest mode with
  | _ n ih =>
  cases rest with
  | nil => exact scans_nil front mode
  | cons c rest =>
    have hstep (mode' : Mode) (hbehind : mode'.Behind (front ++ [c])) :
        Scans (front ++ [c]) rest mode' :=
      ih rest.length (by rw [← hn, List.length_cons]; omega) (front ++ [c]) rest mode' hbehind rfl
    have hne {a : Char} (hc : ¬ Ascii c) (ha : Ascii a) : c ≠ a := fun h => hc (h ▸ ha)
    match mode, hmode with
    | .quoted delimiter previous, hmode =>
      have h := hstep (quotedMode delimiter previous c) (behind_quotedMode hmode.1 front)
      by_cases hc : Ascii c
      · exact scans_quoted hmode hc h
      · have hquoted : quotedMode delimiter previous c = .quoted delimiter c :=
          if_neg fun h : c = delimiter ∧ previous ≠ '\\' => hc (h.1 ▸ hmode.1)
        refine scans_high hc ?_ ?_ (by rw [repaired]) h
        · rintro _ ⟨⟩
          rw [toUInt8_toNat hmode.1]
          exact Nat.lt_succ_of_le hmode.1
        · rw [hquoted]
          rfl
    | .plain, _ =>
      by_cases hc : Ascii c
      · by_cases hcolon : c = ':'
        · subst hcolon
          refine scans_colon fun front' rest' hle => ih _ ?_ front' rest' .plain trivial rfl
          rw [← hn, List.length_cons]
          omega
        · exact scans_plain hc hcolon (hstep (nextMode c) (behind_nextMode hcolon front))
      · refine scans_high hc (fun _ h => nomatch h) ?_ (by rw [repaired])
          (hstep (nextMode c) (behind_nextMode (hne hc (by decide)) front))
        rw [nextMode, if_neg (not_or.mpr ⟨hne hc (by decide), hne hc (by decide)⟩),
          if_neg (hne hc (by decide))]

/-- **Main theorem.** The scanner of values comes to the end of every text, with what the machine
makes of it. -/
theorem quoteRelaxedValues_eq (input : Text) :
    quoteRelaxedValues input = .ok (repaired .plain input) :=
  scans [] input .plain trivial _ [] (Nat.lt_succ_self _)

/-! ## Where only quotes are put into the text -/

/-- The characters of a bare value that are not written yet. -/
def Mode.pending : Mode → Text
  | .bare value => value
  | _ => []

/-- A bare value begins with a letter. -/
def Mode.Started : Mode → Prop
  | .bare value => value.head?.any (onAscii isAlphabeticByte) = true
  | _ => True

theorem started_nextMode (c : Char) : (nextMode c).Started := by
  unfold nextMode
  split_ifs <;> trivial

theorem pending_nextMode (c : Char) : (nextMode c).pending = [] := by
  unfold nextMode
  split_ifs <;> rfl

theorem started_quotedMode (delimiter previous c : Char) :
    (quotedMode delimiter previous c).Started := by
  unfold quotedMode
  split_ifs <;> trivial

theorem pending_quotedMode (delimiter previous c : Char) :
    (quotedMode delimiter previous c).pending = [] := by
  unfold quotedMode
  split_ifs <;> rfl

theorem started_append {value : Text} (h : (Mode.bare value).Started) (c : Char) :
    (Mode.bare (value ++ [c])).Started := by
  cases value with
  | nil => exact nomatch h
  | cons d value => exact h

theorem inserts_quotedValue (value : Text) : Inserts value (quotedValue value) := by
  unfold quotedValue
  split_ifs
  · exact .refl value
  · exact .quoted value

/-- A text that is kept has only got quotes. -/
theorem inserts_of_kept (mode : Mode) (text : Text) (h : valuesKept mode text = true) :
    Inserts (mode.pending ++ text) (repaired mode text) := by
  have hcons {c : Char} {mode : Mode} {rest : Text} (hc : decide (Ascii c) = true)
      (hpending : mode.pending = [])
      (hrest : Inserts (mode.pending ++ rest) (repaired mode rest)) :
      Inserts (c :: rest) (byteChars c ++ repaired mode rest) := by
    rw [byteChars_of_ascii (of_decide_eq_true hc)]
    rw [hpending] at hrest
    exact .keep c hrest
  induction text generalizing mode with
  | nil =>
    cases mode with
    | bare value => exact nomatch h
    | plain => exact .nil
    | quoted delimiter previous => exact .nil
    | colon => exact .nil
  | cons c text ih =>
    cases mode with
    | plain =>
      obtain ⟨hc, h⟩ := Bool.and_eq_true _ _ |>.mp h
      exact hcons hc (pending_nextMode c) (ih _ h)
    | quoted delimiter previous =>
      obtain ⟨hc, h⟩ := Bool.and_eq_true _ _ |>.mp h
      exact hcons hc (pending_quotedMode delimiter previous c) (ih _ h)
    | colon =>
      rw [valuesKept] at h
      show Inserts (c :: text) _
      rw [repaired]
      split_ifs at h ⊢ with hspace hletter
      · exact hcons (decide_eq_true (ascii_of_onAscii hspace)) rfl (ih .colon h)
      · exact ih (.bare [c]) h
      · obtain ⟨hc, h⟩ := Bool.and_eq_true _ _ |>.mp h
        exact hcons hc (pending_nextMode c) (ih _ h)
    | bare value =>
      rw [valuesKept] at h
      show Inserts (value ++ c :: text) _
      rw [repaired]
      split_ifs at h ⊢ with hends hbreaks
      · rw [Bool.and_eq_true, Bool.and_eq_true, decide_eq_true_eq] at h
        obtain ⟨htrim, hc, h⟩ := h
        rw [htrim]
        exact (inserts_quotedValue value).append (hcons hc (pending_nextMode c) (ih _ h))
      · have hrest := ih (.bare (value ++ [c])) h
        rwa [Mode.pending, List.append_assoc, List.singleton_append] at hrest

/-- The number of ASCII characters of a text that are not quotes. -/
def asciiCount (text : Text) : ℕ := (unquoted text).countP fun c => decide (Ascii c)

theorem unquoted_append (a b : Text) : unquoted (a ++ b) = unquoted a ++ unquoted b :=
  List.filter_append ..

theorem unquoted_cons_of_ne {c : Char} (h : c ≠ '"') (text : Text) :
    unquoted (c :: text) = c :: unquoted text :=
  List.filter_cons_of_pos (bne_iff_ne.mpr h)

theorem unquoted_quotedValue (value : Text) : unquoted (quotedValue value) = unquoted value :=
  (inserts_quotedValue value).unquoted_eq

theorem asciiCount_append (a b : Text) : asciiCount (a ++ b) = asciiCount a + asciiCount b := by
  rw [asciiCount, unquoted_append, List.countP_append, asciiCount, asciiCount]

theorem unquoted_byteChars {c : Char} (h : ¬Ascii c) : unquoted (byteChars c) = byteChars c :=
  List.filter_eq_self.mpr fun d hd => bne_iff_ne.mpr fun heq =>
    (byteChars_of_not_ascii h).2 d hd (heq ▸ by decide)

theorem asciiCount_byteChars_le (c : Char) : asciiCount (byteChars c) ≤ asciiCount [c] := by
  by_cases hc : Ascii c
  · rw [byteChars_of_ascii hc]
  · rw [asciiCount, unquoted_byteChars hc, List.countP_eq_zero.mpr]
    · exact Nat.zero_le _
    · intro d hd hascii
      exact (byteChars_of_not_ascii hc).2 d hd (of_decide_eq_true hascii)

theorem asciiCount_trim_le (value : Text) : asciiCount (trim value) ≤ asciiCount value := by
  have hsublist : (trim value).Sublist value :=
    (List.rdropWhile_prefix _ _).sublist.trans (List.dropWhile_suffix _).sublist
  exact (hsublist.filter _).countP_le

/-- The scanner writes no more ASCII characters than it reads. -/
theorem asciiCount_repaired_le (mode : Mode) (text : Text) :
    asciiCount (repaired mode text) ≤ asciiCount (mode.pending ++ text) := by
  have hcons (c : Char) {mode : Mode} {rest : Text} (hpending : mode.pending = [])
      (hrest : asciiCount (repaired mode rest) ≤ asciiCount (mode.pending ++ rest)) :
      asciiCount (byteChars c ++ repaired mode rest) ≤ asciiCount (c :: rest) := by
    rw [hpending] at hrest
    rw [asciiCount_append, ← List.singleton_append, asciiCount_append]
    exact Nat.add_le_add (asciiCount_byteChars_le c) hrest
  induction text generalizing mode with
  | nil => cases mode <;> exact Nat.zero_le _
  | cons c text ih =>
    cases mode with
    | plain => exact hcons c (pending_nextMode c) (ih _)
    | quoted delimiter previous => exact hcons c (pending_quotedMode delimiter previous c) (ih _)
    | colon =>
      show _ ≤ asciiCount (c :: text)
      rw [repaired]
      split_ifs
      · exact hcons c rfl (ih .colon)
      · exact ih (.bare [c])
      · exact hcons c (pending_nextMode c) (ih _)
    | bare value =>
      show _ ≤ asciiCount (value ++ c :: text)
      have hrest := hcons c (pending_nextMode c) (ih (nextMode c))
      rw [repaired, asciiCount_append]
      split_ifs
      · rw [asciiCount_append, asciiCount, unquoted_quotedValue]
        exact Nat.add_le_add (asciiCount_trim_le value) hrest
      · omega
      · have hmore := ih (.bare (value ++ [c]))
        rwa [Mode.pending, List.append_assoc, List.singleton_append, asciiCount_append] at hmore

/-- A bare value begins with a letter, in front of all that follows. -/
theorem unquoted_started {value : Text} (h : (Mode.bare value).Started) (text : Text) :
    ∃ c rest, Ascii c ∧ unquoted (value ++ text) = c :: rest := by
  cases value with
  | nil => exact nomatch h
  | cons c value =>
    have hc : onAscii isAlphabeticByte c = true := h
    refine ⟨c, unquoted (value ++ text), ascii_of_onAscii hc, ?_⟩
    refine unquoted_cons_of_ne ?_ _
    rintro rfl
    exact absurd hc (by decide)

/-- A text that the scanner has got ahead of, with characters that are not ASCII, is never caught
up with. -/
theorem repaired_ne_of_ahead (mode : Mode) (text ahead : Text) (hmode : mode.Started)
    (hne : ahead ≠ []) (hahead : ∀ c ∈ ahead, ¬Ascii c) :
    ahead ++ unquoted (repaired mode text) ≠ unquoted (mode.pending ++ text) := by
  have hvalue {value rest : Text} (h : (Mode.bare value).Started) {ahead out : Text}
      (hne : ahead ≠ []) (hahead : ∀ c ∈ ahead, ¬Ascii c) :
      ahead ++ out ≠ unquoted (value ++ rest) := by
    obtain ⟨d, ahead, rfl⟩ := List.exists_cons_of_ne_nil hne
    obtain ⟨c, rest', hc, hrest⟩ := unquoted_started h rest
    rw [hrest]
    rintro ⟨⟩
    exact hahead _ List.mem_cons_self hc
  have hcons (c : Char) {mode : Mode} {rest : Text} (hpending : mode.pending = [])
      (hrest : ∀ ahead, ahead ≠ [] → (∀ c ∈ ahead, ¬Ascii c) →
        ahead ++ unquoted (repaired mode rest) ≠ unquoted (mode.pending ++ rest))
      {ahead : Text} (hne : ahead ≠ []) (hahead : ∀ c ∈ ahead, ¬Ascii c) :
      ahead ++ unquoted (byteChars c ++ repaired mode rest) ≠ unquoted (c :: rest) := by
    rw [hpending] at hrest
    rw [unquoted_append]
    by_cases hc : Ascii c
    · rw [byteChars_of_ascii hc]
      by_cases hquote : c = '"'
      · subst hquote
        exact hrest ahead hne hahead
      · obtain ⟨d, ahead, rfl⟩ := List.exists_cons_of_ne_nil hne
        rw [unquoted_cons_of_ne hquote rest]
        intro heq
        obtain ⟨rfl, -⟩ := List.cons.inj heq
        exact hahead _ List.mem_cons_self hc
    · have hquote : c ≠ '"' := by
        rintro rfl
        exact hc (by decide)
      obtain ⟨d, ahead, rfl⟩ := List.exists_cons_of_ne_nil hne
      rw [unquoted_cons_of_ne hquote, unquoted_byteChars hc, List.cons_append, ← List.append_assoc]
      intro heq
      refine hrest (ahead ++ byteChars c) ?_ ?_ (List.cons.inj heq).2
      · obtain ⟨a, b, more, hchars⟩ := (byteChars_of_not_ascii hc).1
        rw [hchars]
        exact List.append_ne_nil_of_right_ne_nil _ (List.cons_ne_nil _ _)
      · intro e he
        obtain he | he := List.mem_append.mp he
        · exact hahead e (List.mem_cons_of_mem _ he)
        · exact (byteChars_of_not_ascii hc).2 e he
  induction text generalizing mode ahead with
  | nil =>
    cases mode with
    | bare value => exact hvalue hmode hne hahead
    | plain => exact fun h => hne (List.append_eq_nil_iff.mp h).1
    | quoted delimiter previous => exact fun h => hne (List.append_eq_nil_iff.mp h).1
    | colon => exact fun h => hne (List.append_eq_nil_iff.mp h).1
  | cons c text ih =>
    cases mode with
    | plain =>
      exact hcons c (pending_nextMode c) (fun ahead => ih _ ahead (started_nextMode c)) hne hahead
    | quoted delimiter previous =>
      exact hcons c (pending_quotedMode delimiter previous c)
        (fun ahead => ih _ ahead (started_quotedMode delimiter previous c)) hne hahead
    | colon =>
      show _ ≠ unquoted (c :: text)
      rw [repaired]
      split_ifs with hspace hletter
      · exact hcons c rfl (fun ahead => ih .colon ahead trivial) hne hahead
      · exact ih (.bare [c]) ahead hletter hne hahead
      · exact hcons c (pending_nextMode c) (fun ahead => ih _ ahead (started_nextMode c)) hne hahead
    | bare value => exact hvalue hmode hne hahead

/-- The whitespace that is taken off a bare value is at its end. -/
theorem trim_started {value : Text} (h : (Mode.bare value).Started) :
    ∃ space, value = trim value ++ space ∧ ∀ c ∈ space, isWhitespace c = true := by
  cases value with
  | nil => exact nomatch h
  | cons c value =>
    have hc : onAscii isAlphabeticByte c = true := h
    have hnot : isWhitespace c = false := by
      rw [onAscii, Bool.and_eq_true, decide_eq_true_eq] at hc
      obtain ⟨hascii, hletter⟩ := hc
      have hz : 'z'.toUInt8.toNat = 122 ∧ 'a'.toUInt8.toNat = 97 ∧ 'Z'.toUInt8.toNat = 90 ∧
        'A'.toUInt8.toNat = 65 := ⟨rfl, rfl, rfl, rfl⟩
      simp only [isAlphabeticByte, Bool.or_eq_true, Bool.and_eq_true, decide_eq_true_eq,
        UInt8.le_iff_toNat_le, toUInt8_toNat hascii] at hletter
      simp only [isWhitespace, Bool.or_eq_false_iff, Bool.and_eq_false_iff, decide_eq_false_iff_not,
        beq_eq_false_iff_ne]
      omega
    refine ⟨(c :: value).rtakeWhile isWhitespace, ?_, fun d hd => List.mem_rtakeWhile_imp hd⟩
    rw [trim, List.dropWhile_cons_of_neg (by rw [hnot]; exact Bool.false_ne_true),
      List.rdropWhile_append_rtakeWhile]

/-- A text that has only got quotes is kept. -/
theorem kept_of_unquoted_eq (mode : Mode) (text : Text) (hmode : mode.Started)
    (h : unquoted (repaired mode text) = unquoted (mode.pending ++ text)) :
    valuesKept mode text = true := by
  have hcons {c : Char} {mode : Mode} {rest : Text} (hmode : mode.Started)
      (hpending : mode.pending = [])
      (hrest : unquoted (repaired mode rest) = unquoted (mode.pending ++ rest) →
        valuesKept mode rest = true)
      (h : unquoted (byteChars c ++ repaired mode rest) = unquoted (c :: rest)) :
      Ascii c ∧ valuesKept mode rest = true := by
    rw [hpending] at hrest
    by_cases hc : Ascii c
    · rw [byteChars_of_ascii hc, ← List.singleton_append (l := rest), unquoted_append,
        unquoted_append [c]] at h
      exact ⟨hc, hrest (List.append_cancel_left h)⟩
    · -- the scanner has got ahead of the text
      obtain ⟨⟨a, b, more, hchars⟩, hall⟩ := byteChars_of_not_ascii hc
      rw [unquoted_append, unquoted_byteChars hc, unquoted_cons_of_ne
        (by rintro rfl; exact hc (by decide)), hchars] at h
      refine absurd ?_ (repaired_ne_of_ahead mode rest (b :: more) hmode (List.cons_ne_nil _ _)
        fun d hd => hall d (by rw [hchars]; exact List.mem_cons_of_mem _ hd))
      rw [hpending]
      exact (List.cons.inj h).2
  induction text generalizing mode with
  | nil =>
    cases mode with
    | bare value =>
      obtain ⟨c, rest, -, hrest⟩ := unquoted_started hmode []
      rw [Mode.pending, hrest] at h
      exact nomatch h
    | plain => rfl
    | quoted delimiter previous => rfl
    | colon => rfl
  | cons c text ih =>
    cases mode with
    | plain =>
      obtain ⟨hc, hrest⟩ := hcons (started_nextMode c) (pending_nextMode c)
        (ih _ (started_nextMode c)) h
      exact Bool.and_eq_true _ _ |>.mpr ⟨decide_eq_true hc, hrest⟩
    | quoted delimiter previous =>
      obtain ⟨hc, hrest⟩ := hcons (started_quotedMode delimiter previous c)
        (pending_quotedMode delimiter previous c) (ih _ (started_quotedMode delimiter previous c)) h
      exact Bool.and_eq_true _ _ |>.mpr ⟨decide_eq_true hc, hrest⟩
    | colon =>
      rw [repaired] at h
      rw [valuesKept]
      split_ifs at h ⊢ with hspace hletter
      · exact (@hcons c .colon text trivial rfl (ih .colon trivial) h).2
      · exact ih (.bare [c]) hletter h
      · obtain ⟨hc, hrest⟩ := hcons (started_nextMode c) (pending_nextMode c)
          (ih _ (started_nextMode c)) h
        exact Bool.and_eq_true _ _ |>.mpr ⟨decide_eq_true hc, hrest⟩
    | bare value =>
      rw [repaired] at h
      rw [valuesKept]
      change _ = unquoted (value ++ c :: text) at h
      split_ifs at h ⊢ with hends hbreaks
      · obtain ⟨space, hvalue, hspace⟩ := trim_started hmode
        have hc := ascii_of_onAscii hends
        have hstop : c = ',' ∨ c = '\x7d' := by
          rw [onAscii, Bool.and_eq_true] at hends
          simpa only [endsValueByte, Bool.or_eq_true, beq_iff_eq, toUInt8_eq_iff
            (show Ascii ',' by decide) hc, toUInt8_eq_iff (show Ascii '\x7d' by decide) hc]
            using hends.2
        have hquote : c ≠ '"' := by
          obtain rfl | rfl := hstop <;> decide
        -- whitespace that was taken off would stand where the comma or the brace is
        have hnil : space = [] := by
          cases space with
          | nil => rfl
          | cons d space =>
            have hd := hspace d List.mem_cons_self
            have hne : d ≠ '"' := by
              rintro rfl
              exact absurd hd (by decide)
            rw [unquoted_append, unquoted_quotedValue, byteChars_of_ascii hc, List.singleton_append,
              unquoted_cons_of_ne hquote] at h
            conv_rhs at h => rw [hvalue, List.append_assoc, List.cons_append, unquoted_append,
              unquoted_cons_of_ne hne]
            have heq := (List.cons.inj (List.append_cancel_left h)).1
            subst heq
            obtain rfl | rfl := hstop <;> exact absurd hd (by decide)
        rw [hnil, List.append_nil] at hvalue
        rw [← hvalue, unquoted_append (quotedValue value), unquoted_append value,
          unquoted_quotedValue] at h
        obtain ⟨-, hrest⟩ := hcons (started_nextMode c) (pending_nextMode c)
          (ih _ (started_nextMode c)) (List.append_cancel_left h)
        rw [Bool.and_eq_true, Bool.and_eq_true]
        exact ⟨decide_eq_true hvalue.symm, decide_eq_true hc, hrest⟩
      · -- the value is not written at all
        obtain ⟨d, rest, hd, hstarted⟩ := unquoted_started hmode []
        have hpos : 0 < asciiCount value := by
          rw [List.append_nil] at hstarted
          rw [asciiCount, hstarted]
          exact List.countP_pos_iff.mpr ⟨d, List.mem_cons_self, decide_eq_true hd⟩
        have hle := asciiCount_repaired_le (nextMode c) text
        have hchars := asciiCount_byteChars_le c
        have hcount := congrArg (List.countP fun c => decide (Ascii c)) h
        change asciiCount (byteChars c ++ _) = asciiCount (value ++ c :: text) at hcount
        rw [asciiCount_append, asciiCount_append, ← List.singleton_append (l := text),
          asciiCount_append] at hcount
        rw [pending_nextMode, List.nil_append] at hle
        omega
      · refine ih (.bare (value ++ [c])) (started_append hmode c) ?_
        rwa [Mode.pending, List.append_assoc, List.singleton_append]

/-- **Main theorem.** The scanner of values only puts quotes into a text if and only if the text is
one whose characters outside of bare values are ASCII and whose bare values end at a comma or a
brace. -/
theorem inserts_iff_kept (input : Text) :
    Inserts input (repaired .plain input) ↔ valuesKept .plain input = true :=
  ⟨fun h => kept_of_unquoted_eq .plain input trivial h.unquoted_eq,
    inserts_of_kept .plain input⟩

end Mrml.Agent
