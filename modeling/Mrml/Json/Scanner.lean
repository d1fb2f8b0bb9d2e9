import Mrml.Json.Parser

/-!
# Scanning of JSON texts

What the functions of the parser that look at bytes do at a place of a text. A scanner either
refuses the text or goes behind a prefix of it that is in the language of the scanner, and it does
the latter wherever such a prefix ends where the scanner has to stop.

Results:
* `number_sound`, `number_complete`: numbers.
* `string_sound`, `string_complete`: strings with their escapes.
-/

namespace Mrml.Json

/-- An error of the source. -/
def Refused {α : Type} (x : Except Failure α) : Prop := ∃ e, x = .error (.error e)

theorem Refused.bind {α β : Type} {x : Except Failure α} {f : α → Except Failure β}
    (h : Refused x) : Refused (x >>= f) := by
  obtain ⟨e, rfl⟩ := h
  exact ⟨e, rfl⟩

theorem refused_okOr {α : Type} (e : Error) : Refused (okOr (none : Option α) (.error e)) :=
  ⟨e, rfl⟩

theorem refused_refuseIf {refused : Prop} [Decidable refused] {e : Error} (h : refused) :
    Refused (refuseIf refused (.error e)) := ⟨e, if_pos h⟩

/-! ## Bytes and characters -/

/-- One byte in UTF-8. -/
def Ascii (c : Char) : Prop := c.toNat ≤ 0x7f

instance (c : Char) : Decidable (Ascii c) := inferInstanceAs (Decidable (_ ≤ _))

theorem utf8EncodeChar_ascii {c : Char} (h : Ascii c) : String.utf8EncodeChar c = [c.toUInt8] :=
  Text.utf8EncodeChar_of_ascii h

theorem toUInt8_toNat {c : Char} (h : Ascii c) : c.toUInt8.toNat = c.toNat := by
  have hlt : c.toNat ≤ 0x7f := h
  show (UInt8.ofNat c.toNat).toNat = _
  rw [UInt8.toNat_ofNat']
  omega

theorem toUInt8_inj {a c : Char} (ha : Ascii a) (hc : Ascii c) (h : a.toUInt8 = c.toUInt8) :
    a = c := by
  have hnat := congrArg UInt8.toNat h
  rw [toUInt8_toNat ha, toUInt8_toNat hc] at hnat
  exact Char.toNat_inj.mp hnat

/-- The bytes of a character that is not ASCII. -/
theorem high_of_not_ascii {c : Char} (h : ¬Ascii c) {b : UInt8}
    (hb : b ∈ String.utf8EncodeChar c) : 0x80 ≤ b.toNat := by
  obtain ⟨hascii, _⟩ | hhigh := Text.mem_utf8EncodeChar hb
  · exact absurd hascii h
  · exact hhigh

/-- A set of bytes that is a set of ASCII characters. -/
structure Agrees (byte : UInt8 → Bool) (char : Char → Bool) : Prop where
  ascii : ∀ c, Ascii c → byte c.toUInt8 = char c
  high : ∀ b : UInt8, 0x80 ≤ b.toNat → byte b = false
  not_ascii : ∀ c, ¬Ascii c → char c = false

theorem Agrees.takeWhile {byte : UInt8 → Bool} {char : Char → Bool} (h : Agrees byte char)
    (t : Text) : t.asBytes.takeWhile byte = Text.asBytes (t.takeWhile char) := by
  induction t with
  | nil => rfl
  | cons c t ih =>
    rw [Text.asBytes_cons]
    by_cases hc : Ascii c
    · rw [utf8EncodeChar_ascii hc, List.singleton_append, List.takeWhile_cons, List.takeWhile_cons,
        h.ascii c hc, ih]
      split_ifs
      · rw [Text.asBytes_cons, utf8EncodeChar_ascii hc, List.singleton_append]
      · rfl
    · have hnone : char c = false := h.not_ascii c hc
      cases hbytes : String.utf8EncodeChar c with
      | nil => exact absurd hbytes String.utf8EncodeChar_ne_nil
      | cons b bytes =>
        have hb : byte b = false :=
          h.high b (high_of_not_ascii hc (by rw [hbytes]; exact List.mem_cons_self))
        rw [List.cons_append, List.takeWhile_cons, hb, List.takeWhile_cons, hnone]
        rfl

theorem toUInt8_eq_iff {a c : Char} (ha : Ascii a) (hc : Ascii c) :
    c.toUInt8 = a.toUInt8 ↔ c = a := ⟨toUInt8_inj hc ha, fun h => h ▸ rfl⟩

theorem toUInt8_le_iff {a c : Char} (ha : Ascii a) (hc : Ascii c) :
    a.toUInt8 ≤ c.toUInt8 ↔ a ≤ c := by
  rw [UInt8.le_iff_toNat_le, toUInt8_toNat ha, toUInt8_toNat hc]
  exact Iff.rfl

/-- A byte behind ASCII is not that of an ASCII character. -/
theorem ne_of_high {a : Char} (ha : Ascii a) {b : UInt8} (hb : 0x80 ≤ b.toNat) :
    b ≠ a.toUInt8 := by
  rintro rfl
  rw [toUInt8_toNat ha] at hb
  have hlt : a.toNat ≤ 0x7f := ha
  omega

theorem agrees_space : Agrees Parser.isSpaceByte isSpace where
  ascii c hc := by
    have hspace : Ascii ' ' ∧ Ascii '\n' ∧ Ascii '\r' ∧ Ascii '\t' := by decide
    simp only [Parser.isSpaceByte, isSpace, toUInt8_eq_iff hspace.1 hc,
      toUInt8_eq_iff hspace.2.1 hc, toUInt8_eq_iff hspace.2.2.1 hc,
      toUInt8_eq_iff hspace.2.2.2 hc]
  high b hb := by
    have hne (a : Char) (ha : Ascii a) : b ≠ a.toUInt8 := ne_of_high ha hb
    simp only [Parser.isSpaceByte, hne ' ' (by decide), hne '\n' (by decide), hne '\r' (by decide),
      hne '\t' (by decide), decide_false, Bool.or_self]
  not_ascii c hc := by
    have hne (a : Char) (ha : Ascii a) : c ≠ a := fun heq => hc (heq ▸ ha)
    simp only [isSpace, hne ' ' (by decide), hne '\n' (by decide), hne '\r' (by decide),
      hne '\t' (by decide), decide_false, Bool.or_self]

theorem agrees_digit : Agrees Parser.isDigitByte isDigit where
  ascii c hc := by
    have hnine : c.toUInt8 ≤ '9'.toUInt8 ↔ c ≤ '9' := toUInt8_le_iff hc (by decide)
    simp only [Parser.isDigitByte, isDigit, toUInt8_le_iff (show Ascii '0' by decide) hc, hnine]
  high b hb := by
    have hnot : ¬b ≤ '9'.toUInt8 := by
      rw [UInt8.le_iff_toNat_le]
      show ¬b.toNat ≤ 57
      omega
    simp only [Parser.isDigitByte, hnot, decide_false, Bool.and_false]
  not_ascii c hc := by
    have hnot : ¬c ≤ '9' := fun hle => hc (show c.toNat ≤ 0x7f from by
      have hnat : c.toNat ≤ '9'.toNat := hle
      have hnine : '9'.toNat = 57 := rfl
      omega)
    simp only [isDigit, hnot, decide_false, Bool.and_false]

theorem takeWhile_append {char : Char → Bool} {w t : Text} (hw : ∀ c ∈ w, char c = true)
    (ht : ∀ c ∈ t.head?, char c = false) : (w ++ t).takeWhile char = w := by
  rw [List.takeWhile_append_of_pos hw]
  cases t with
  | nil => rw [List.takeWhile_nil, List.append_nil]
  | cons c t => rw [List.takeWhile_cons, ht c rfl]; exact List.append_nil w

/-! ## The parts of an escape -/

theorem hexValue_lt {c : Char} {digit : ℕ} (h : hexValue c = some digit) : digit < 16 := by
  unfold hexValue at h
  split_ifs at h with h₁ h₂ h₃
  · obtain ⟨hlow, hhigh⟩ := h₁
    have hnat : c.toNat ≤ 57 := hhigh
    have hzero : '0'.toNat = 48 := rfl
    obtain rfl := Option.some.inj h
    omega
  · obtain ⟨hlow, hhigh⟩ := h₂
    have hnat : c.toNat ≤ 102 := hhigh
    have hzero : 'a'.toNat = 97 := rfl
    obtain rfl := Option.some.inj h
    omega
  · obtain ⟨hlow, hhigh⟩ := h₃
    have hnat : c.toNat ≤ 70 := hhigh
    have hzero : 'A'.toNat = 65 := rfl
    obtain rfl := Option.some.inj h
    omega

theorem hexNumber_lt {hex : Text} {value n : ℕ} (h : hexNumber value hex = some n) :
    n < (value + 1) * 16 ^ hex.length := by
  induction hex generalizing value with
  | nil =>
    obtain rfl := Option.some.inj h
    rw [List.length_nil, pow_zero, Nat.mul_one]
    exact Nat.lt_succ_self _
  | cons c hex ih =>
    obtain ⟨digit, hdigit, hn⟩ := Option.bind_eq_some_iff.mp h
    have hlt := hexValue_lt hdigit
    calc n < (value * 16 + digit + 1) * 16 ^ hex.length := ih hn
      _ ≤ ((value + 1) * 16) * 16 ^ hex.length := Nat.mul_le_mul_right _ (by omega)
      _ = (value + 1) * 16 ^ (c :: hex).length := by rw [List.length_cons, pow_succ]; ring

theorem Hex4.lt {hex : Text} {n : ℕ} (h : Hex4 hex n) : n < 0x10000 := by
  have hlt := hexNumber_lt h.2
  rw [h.1] at hlt
  omega

/-- What `unicode_escape` reads: the number of a character, or a pair of surrogates. -/
inductive Unicode : Text → Char → Prop
  | unit {hex : Text} {n : ℕ} (h : Hex4 hex n) (hhigh : ¬isHighSurrogate n)
      (hlow : ¬isLowSurrogate n) : Unicode hex (Char.ofNat n)
  | pair {hex hex' : Text} {n n' : ℕ} (h : Hex4 hex n) (h' : Hex4 hex' n')
      (hhigh : isHighSurrogate n) (hlow : isLowSurrogate n') :
      Unicode (hex ++ '\\' :: 'u' :: hex')
        (Char.ofNat (0x10000 + (n - 0xd800) * 1024 + (n' - 0xdc00)))

/-- What stands behind a backslash, and the character that it makes. -/
inductive Escape : Text → Char → Prop
  | simple {e c : Char} (h : escapeOf e = some c) : Escape [e] c
  | unicode {w : Text} {c : Char} (h : Unicode w c) : Escape ('u' :: w) c

theorem Escape.piece {w : Text} {c : Char} (h : Escape w c) : Piece ('\\' :: w) c := by
  cases h with
  | simple h => exact .escape h
  | unicode h =>
    cases h with
    | unit hhex hhigh hlow => exact .unicode hhex hhigh hlow
    | pair hhex hhex' hhigh hlow => exact .pair hhex hhex' hhigh hlow

theorem Piece.cases {w : Text} {c : Char} (h : Piece w c) :
    (w = [c] ∧ 0x20 ≤ c.toNat ∧ c ≠ '"' ∧ c ≠ '\\') ∨ ∃ e, w = '\\' :: e ∧ Escape e c := by
  cases h with
  | plain h hquote hescape => exact .inl ⟨rfl, h, hquote, hescape⟩
  | escape h => exact .inr ⟨_, rfl, .simple h⟩
  | unicode hhex hhigh hlow => exact .inr ⟨_, rfl, .unicode (.unit hhex hhigh hlow)⟩
  | pair hhex hhex' hhigh hlow => exact .inr ⟨_, rfl, .unicode (.pair hhex hhex' hhigh hlow)⟩

theorem escapeOf_ascii {e c : Char} (h : escapeOf e = some c) : Ascii e ∧ e ≠ 'u' := by
  unfold escapeOf at h
  split_ifs at h <;> subst e <;> decide

namespace Parser

/-! ## Places -/

/-- The text that is not read yet. -/
def At (p : Parser) (t : Text) : Prop := p.rest = t.asBytes

/-- The parser behind a text. -/
def skip (p : Parser) (w : Text) : Parser := p.advance w.asBytes.length

variable {p q : Parser} {t t' w w' : Text}

theorem rest_advance (p : Parser) (n : ℕ) : (p.advance n).rest = p.rest.drop n := by
  rw [rest, rest, List.drop_drop]
  rfl

theorem At.skip (h : At p (w ++ t)) : At (p.skip w) t := by
  rw [At, Parser.skip, rest_advance, h, Text.asBytes_append, List.drop_left]

@[simp] theorem skip_nil (p : Parser) : p.skip [] = p := rfl

@[simp] theorem skip_skip (p : Parser) (w w' : Text) : (p.skip w).skip w' = p.skip (w ++ w') := by
  rw [skip, skip, skip, advance, advance, advance, Text.asBytes_append, List.length_append,
    Nat.add_assoc]

theorem skip_singleton {c : Char} (hc : Ascii c) (p : Parser) : p.skip [c] = p.advance 1 := by
  rw [skip, Text.asBytes_cons, utf8EncodeChar_ascii hc]
  rfl

theorem At.peek_nil (h : At p []) : p.peek = none := by
  rw [peek, h]
  rfl

theorem At.peek_ascii {c : Char} (h : At p (c :: t)) (hc : Ascii c) : p.peek = some c.toUInt8 := by
  rw [peek, h, Text.asBytes_cons, utf8EncodeChar_ascii hc]
  rfl

theorem At.peek_high {c : Char} (h : At p (c :: t)) (hc : ¬Ascii c) :
    ∃ b : UInt8, p.peek = some b ∧ 0x80 ≤ b.toNat := by
  rw [peek, h, Text.asBytes_cons]
  cases hbytes : String.utf8EncodeChar c with
  | nil => exact absurd hbytes String.utf8EncodeChar_ne_nil
  | cons b bytes =>
    exact ⟨b, rfl, high_of_not_ascii hc (by rw [hbytes]; exact List.mem_cons_self)⟩

/-- An ASCII byte is seen where its character is. -/
theorem At.peek_eq_some (h : At p t) {a : Char} (ha : Ascii a) :
    p.peek = some a.toUInt8 ↔ t.head? = some a := by
  cases t with
  | nil => simp [h.peek_nil]
  | cons c t =>
    by_cases hc : Ascii c
    · rw [h.peek_ascii hc, Option.some.injEq, List.head?_cons, Option.some.injEq]
      exact ⟨toUInt8_inj hc ha, fun heq => heq ▸ rfl⟩
    · obtain ⟨b, hb, hhigh⟩ := h.peek_high hc
      rw [hb, Option.some.injEq, List.head?_cons, Option.some.injEq]
      constructor
      · rintro rfl
        rw [toUInt8_toNat ha] at hhigh
        have hlt : a.toNat ≤ 0x7f := ha
        omega
      · rintro rfl
        exact absurd ha hc

theorem At.take_true {a : Char} (h : At p (a :: t)) (ha : Ascii a) :
    p.take a.toUInt8 = (true, p.skip [a]) := by
  rw [take, if_pos (h.peek_ascii ha), skip_singleton ha]

theorem At.take_false (h : At p t) {a : Char} (ha : Ascii a) (hne : t.head? ≠ some a) :
    p.take a.toUInt8 = (false, p) := by
  rw [take, if_neg fun heq => hne ((h.peek_eq_some ha).mp heq)]

/-- The two outcomes of `take`. -/
theorem At.take_cases (h : At p t) {a : Char} (ha : Ascii a) :
    (∃ t', t = a :: t' ∧ p.take a.toUInt8 = (true, p.skip [a])) ∨
      (t.head? ≠ some a ∧ p.take a.toUInt8 = (false, p)) := by
  by_cases hhead : t.head? = some a
  · obtain ⟨t', rfl⟩ := List.head?_eq_some_iff.mp hhead
    exact .inl ⟨t', rfl, h.take_true ha⟩
  · exact .inr ⟨hhead, h.take_false ha hhead⟩

theorem At.expect {a : Char} (h : At p (a :: t)) (ha : Ascii a) :
    p.expect a.toUInt8 = .ok (p.skip [a]) := by
  rw [Parser.expect, h.take_true ha]

theorem At.expect_sound (h : At p t) {a : Char} (ha : Ascii a) :
    Refused (p.expect a.toUInt8) ∨ ∃ t', t = a :: t' ∧ p.expect a.toUInt8 = .ok (p.skip [a]) := by
  obtain ⟨t', rfl, htake⟩ | ⟨hne, htake⟩ := h.take_cases ha
  · exact .inr ⟨t', rfl, h.expect ha⟩
  · refine .inl ?_
    rw [Parser.expect, htake]
    exact ⟨_, rfl⟩

/-! ## White space and literals -/

theorem At.whitespace_eq (h : At p t) : p.whitespace = p.skip (t.takeWhile isSpace) := by
  rw [whitespace, h, agrees_space.takeWhile]
  rfl

theorem At.whitespace (h : At p (w ++ t)) (hw : Space w) (ht : ∀ c ∈ t.head?, isSpace c = false) :
    p.whitespace = p.skip w := by
  rw [h.whitespace_eq, takeWhile_append hw ht]

/-- White space ends at the first other character. -/
theorem At.whitespace_sound (h : At p t) : ∃ w t', t = w ++ t' ∧ Space w ∧
    (∀ c ∈ t'.head?, isSpace c = false) ∧ p.whitespace = p.skip w := by
  refine ⟨t.takeWhile isSpace, t.dropWhile isSpace, List.takeWhile_append_dropWhile.symm,
    fun c hc => List.mem_takeWhile_imp hc, fun c hc => ?_, h.whitespace_eq⟩
  have hhead := List.head?_dropWhile_not isSpace t
  rw [Option.mem_def.mp hc] at hhead
  exact hhead

theorem At.literal {literal : Text} (hascii : ∀ c ∈ literal, Ascii c) (h : At p (literal ++ t)) :
    p.literal (literal.map Char.toUInt8) = .ok (p.skip literal) := by
  have hbytes : literal.asBytes = literal.map Char.toUInt8 := Text.asBytes_of_ascii hascii
  have hlength : (literal.map Char.toUInt8).length = literal.asBytes.length := by rw [hbytes]
  rw [Parser.literal, ← hbytes, h, Text.asBytes_append, List.take_left, if_pos rfl]
  rfl

theorem At.literal_sound {literal : Text} (hascii : ∀ c ∈ literal, Ascii c) (h : At p t) :
    Refused (p.literal (literal.map Char.toUInt8)) ∨ ∃ t', t = literal ++ t' ∧
      p.literal (literal.map Char.toUInt8) = .ok (p.skip literal) := by
  have hbytes : literal.asBytes = literal.map Char.toUInt8 := Text.asBytes_of_ascii hascii
  by_cases hmatch : p.rest.take (literal.map Char.toUInt8).length = literal.map Char.toUInt8
  · have hsplit : literal.asBytes ++ p.rest.drop (literal.map Char.toUInt8).length =
        t.asBytes := by
      rw [hbytes, ← h]
      nth_rewrite 1 [← hmatch]
      rw [List.take_append_drop]
    obtain ⟨t', rfl⟩ := Text.prefix_of_asBytes hsplit
    exact .inr ⟨t', rfl, h.literal hascii⟩
  · rw [Parser.literal, if_neg hmatch]
    exact .inl ⟨_, rfl⟩

/-! ## Numbers -/

theorem At.digits_eq (h : At p t) : p.digits = do
    refuseIf ((p.skip (t.takeWhile isDigit)).position = p.position)
      ((p.skip (t.takeWhile isDigit)).fail "expected digit")
    return p.skip (t.takeWhile isDigit) := by
  rw [digits, h, agrees_digit.takeWhile]
  rfl

theorem position_skip (p : Parser) (w : Text) : (p.skip w).position = p.position ↔ w = [] := by
  have hposition : (p.skip w).position = p.position + w.asBytes.length := rfl
  rw [hposition, Nat.add_eq_left, List.length_eq_zero_iff]
  constructor
  · intro hempty
    exact Text.asBytes_injective hempty
  · rintro rfl
    rfl

theorem At.digits (h : At p (w ++ t)) (hw : Digits w) (ht : ∀ c ∈ t.head?, isDigit c = false) :
    p.digits = .ok (p.skip w) := by
  rw [h.digits_eq, takeWhile_append hw.2 ht]
  exact bind_eq_ok.mpr ⟨(), refuseIf_of_not ((position_skip p w).not.mpr hw.1), rfl⟩

theorem At.digits_sound (h : At p t) :
    Refused p.digits ∨ ∃ w t', t = w ++ t' ∧ Digits w ∧ p.digits = .ok (p.skip w) := by
  by_cases hempty : t.takeWhile isDigit = []
  · refine .inl ?_
    rw [h.digits_eq, hempty]
    exact (refused_refuseIf rfl).bind
  · have hw : Digits (t.takeWhile isDigit) := ⟨hempty, fun c hc => List.mem_takeWhile_imp hc⟩
    refine .inr ⟨_, t.dropWhile isDigit, List.takeWhile_append_dropWhile.symm, hw, ?_⟩
    rw [h.digits_eq]
    exact bind_eq_ok.mpr ⟨(), refuseIf_of_not ((position_skip p _).not.mpr hempty), rfl⟩

/-- A digit is seen where its character is. -/
theorem At.peek_digit (h : At p t) :
    (p.peek.map isDigitByte).getD false = true ↔ ∃ c ∈ t.head?, isDigit c = true := by
  cases t with
  | nil => simp [h.peek_nil]
  | cons c t =>
    by_cases hc : Ascii c
    · simp [h.peek_ascii hc, agrees_digit.ascii c hc]
    · obtain ⟨b, hb, hhigh⟩ := h.peek_high hc
      simp [hb, agrees_digit.high b hhigh, agrees_digit.not_ascii c hc]

theorem At.integer (h : At p (w ++ t)) (hw : Integer w) (ht : ∀ c ∈ t.head?, isDigit c = false) :
    p.integer = .ok (p.skip w) := by
  have hzero : Ascii '0' := by decide
  obtain rfl | ⟨hdigits, hhead⟩ := hw
  · rw [Parser.integer, At.take_true h hzero]
    have hnot : ¬(((p.skip ['0']).peek.map isDigitByte).getD false = true) := by
      rw [h.skip.peek_digit]
      rintro ⟨c, hc, hdigit⟩
      rw [ht c hc] at hdigit
      cases hdigit
    exact bind_eq_ok.mpr ⟨(), refuseIf_of_not hnot, rfl⟩
  · have hne : (w ++ t).head? ≠ some '0' := by
      rw [List.head?_append_of_ne_nil _ hdigits.1]
      exact hhead
    rw [Parser.integer, h.take_false hzero hne]
    exact h.digits hdigits ht

theorem At.integer_sound (h : At p t) :
    Refused p.integer ∨ ∃ w t', t = w ++ t' ∧ Integer w ∧ p.integer = .ok (p.skip w) := by
  obtain ⟨t', rfl, htake⟩ | ⟨hne, htake⟩ := h.take_cases (a := '0') (by decide)
  · by_cases hdigit : ((p.skip ['0']).peek.map isDigitByte).getD false = true
    · refine .inl ?_
      rw [Parser.integer, htake]
      exact (refused_refuseIf hdigit).bind
    · refine .inr ⟨['0'], t', rfl, .inl rfl, ?_⟩
      rw [Parser.integer, htake]
      exact bind_eq_ok.mpr ⟨(), refuseIf_of_not hdigit, rfl⟩
  · have hinteger : p.integer = p.digits := by rw [Parser.integer, htake]
    rw [hinteger]
    obtain hrefused | ⟨w, t', rfl, hw, hok⟩ := h.digits_sound
    · exact .inl hrefused
    · rw [List.head?_append_of_ne_nil _ hw.1] at hne
      exact .inr ⟨w, t', rfl, .inr ⟨hw, hne⟩, hok⟩

theorem At.fraction (h : At p (w ++ t)) (hw : Fraction w)
    (ht : ∀ c ∈ t.head?, isDigit c = false ∧ c ≠ '.') : p.fraction = .ok (p.skip w) := by
  have hdot : Ascii '.' := by decide
  obtain rfl | ⟨digits, hdigits, rfl⟩ := hw
  · have hne : t.head? ≠ some '.' := fun heq => (ht _ heq).2 rfl
    rw [Parser.fraction, At.take_false (t := t) h hdot hne]
    rfl
  · rw [Parser.fraction, At.take_true h hdot]
    have hat : At (p.skip ['.']) (digits ++ t) := At.skip (w := ['.']) h
    have hskip : p.skip ('.' :: digits) = (p.skip ['.']).skip digits :=
      (skip_skip p ['.'] digits).symm
    rw [hskip]
    exact hat.digits hdigits fun c hc => (ht c hc).1

theorem At.fraction_sound (h : At p t) :
    Refused p.fraction ∨ ∃ w t', t = w ++ t' ∧ Fraction w ∧ p.fraction = .ok (p.skip w) := by
  obtain ⟨t', rfl, htake⟩ | ⟨_, htake⟩ := h.take_cases (a := '.') (by decide)
  · have hfraction : p.fraction = (p.skip ['.']).digits := by rw [Parser.fraction, htake]
    rw [hfraction]
    obtain hrefused | ⟨w, t'', rfl, hw, hok⟩ := (At.skip (w := ['.']) h).digits_sound
    · exact .inl hrefused
    · refine .inr ⟨'.' :: w, t'', rfl, .inr ⟨w, hw, rfl⟩, ?_⟩
      rw [hok, skip_skip]
      rfl
  · exact .inr ⟨[], t, rfl, .inl rfl, by rw [Parser.fraction, htake]; rfl⟩

/-- A sign is seen where its character is. -/
theorem At.sign (h : At p (w ++ t)) (hw : Sign w)
    (ht : ∀ c ∈ t.head?, isDigit c = true) :
    (if p.peek = some '+'.toUInt8 ∨ p.peek = some '-'.toUInt8 then (p.advance 1).digits
      else p.digits) = (p.skip w).digits := by
  have hplus : Ascii '+' := by decide
  have hminus : Ascii '-' := by decide
  obtain rfl | rfl | rfl := hw
  · have hnone : ¬(p.peek = some '+'.toUInt8 ∨ p.peek = some '-'.toUInt8) := by
      rw [At.peek_eq_some (t := t) h hplus, At.peek_eq_some (t := t) h hminus]
      rintro (heq | heq)
      · exact absurd (ht _ heq) (by decide)
      · exact absurd (ht _ heq) (by decide)
    rw [if_neg hnone]
    rfl
  · rw [if_pos (.inl (At.peek_ascii h hplus)), skip_singleton hplus]
  · rw [if_pos (.inr (At.peek_ascii h hminus)), skip_singleton hminus]

theorem digits_head {w : Text} (h : Digits w) (t : Text) :
    ∀ c ∈ (w ++ t).head?, isDigit c = true := by
  intro c hc
  rw [List.head?_append_of_ne_nil _ h.1] at hc
  exact h.2 c (List.mem_of_head? hc)

theorem At.exponent (h : At p (w ++ t)) (hw : Exponent w)
    (ht : ∀ c ∈ t.head?, isDigit c = false ∧ c ≠ 'e' ∧ c ≠ 'E') :
    p.exponent = .ok (p.skip w) := by
  have he : Ascii 'e' ∧ Ascii 'E' := by decide
  obtain rfl | ⟨e, sign, digits, hcase, hsign, hdigits, rfl⟩ := hw
  · have hnone : ¬(p.peek = some 'e'.toUInt8 ∨ p.peek = some 'E'.toUInt8) := by
      rw [At.peek_eq_some (t := t) h he.1, At.peek_eq_some (t := t) h he.2]
      rintro (heq | heq)
      · exact (ht _ heq).2.1 rfl
      · exact (ht _ heq).2.2 rfl
    rw [Parser.exponent, if_neg hnone]
    rfl
  · have hascii : Ascii e := by
      obtain rfl | rfl := hcase
      · exact he.1
      · exact he.2
    have hpeek := At.peek_ascii h hascii
    have hsome : p.peek = some 'e'.toUInt8 ∨ p.peek = some 'E'.toUInt8 := by
      obtain rfl | rfl := hcase
      · exact .inl hpeek
      · exact .inr hpeek
    have hat : At (p.skip [e]) (sign ++ (digits ++ t)) := by
      refine At.skip (w := [e]) ?_
      rw [List.cons_append, List.append_assoc] at h
      exact h
    have hskip : p.skip (e :: (sign ++ digits)) = ((p.skip [e]).skip sign).skip digits := by
      rw [skip_skip, skip_skip]
      rfl
    rw [Parser.exponent, if_pos hsome, ← skip_singleton hascii, hskip]
    dsimp only
    rw [hat.sign hsign (digits_head hdigits t)]
    exact hat.skip.digits hdigits fun c hc => (ht c hc).1

theorem At.exponent_sound (h : At p t) :
    Refused p.exponent ∨ ∃ w t', t = w ++ t' ∧ Exponent w ∧ p.exponent = .ok (p.skip w) := by
  by_cases hsome : p.peek = some 'e'.toUInt8 ∨ p.peek = some 'E'.toUInt8
  · obtain ⟨e, t', hcase, hascii, rfl⟩ :
        ∃ e t', (e = 'e' ∨ e = 'E') ∧ Ascii e ∧ t = e :: t' := by
      obtain hpeek | hpeek := hsome
      · obtain ⟨t', rfl⟩ := List.head?_eq_some_iff.mp ((h.peek_eq_some (by decide)).mp hpeek)
        exact ⟨_, t', .inl rfl, by decide, rfl⟩
      · obtain ⟨t', rfl⟩ := List.head?_eq_some_iff.mp ((h.peek_eq_some (by decide)).mp hpeek)
        exact ⟨_, t', .inr rfl, by decide, rfl⟩
    have hat : At (p.skip [e]) t' := At.skip (w := [e]) h
    -- the sign, if there is one
    obtain ⟨sign, t'', rfl, hsign, hdigits⟩ : ∃ sign t'', t' = sign ++ t'' ∧ Sign sign ∧
        p.exponent = ((p.skip [e]).skip sign).digits := by
      rw [Parser.exponent, if_pos hsome, ← skip_singleton hascii]
      dsimp only
      by_cases hplus : (p.skip [e]).peek = some '+'.toUInt8
      · obtain ⟨t'', rfl⟩ := List.head?_eq_some_iff.mp ((hat.peek_eq_some (by decide)).mp hplus)
        refine ⟨['+'], t'', rfl, .inr (.inl rfl), ?_⟩
        rw [if_pos (.inl hplus), skip_singleton (c := '+') (by decide)]
      · by_cases hminus : (p.skip [e]).peek = some '-'.toUInt8
        · obtain ⟨t'', rfl⟩ :=
            List.head?_eq_some_iff.mp ((hat.peek_eq_some (by decide)).mp hminus)
          refine ⟨['-'], t'', rfl, .inr (.inr rfl), ?_⟩
          rw [if_pos (.inr hminus), skip_singleton (c := '-') (by decide)]
        · refine ⟨[], t', rfl, .inl rfl, ?_⟩
          rw [if_neg (not_or.mpr ⟨hplus, hminus⟩)]
          rfl
    rw [hdigits]
    obtain hrefused | ⟨w, rest, rfl, hw, hok⟩ := hat.skip.digits_sound
    · exact .inl hrefused
    · refine .inr ⟨e :: (sign ++ w), rest, ?_, .inr ⟨e, sign, w, hcase, hsign, hw, rfl⟩, ?_⟩
      · rw [List.cons_append, List.append_assoc]
      · rw [hok, skip_skip, skip_skip]
        rfl
  · exact .inr ⟨[], t, rfl, .inl rfl, by rw [Parser.exponent, if_neg hsome]; rfl⟩

/-- The bytes that were read are those of the text. -/
theorem At.slice (h : At p (w ++ t)) : (p.skip w).slice p.position = some w := by
  have hlength : (p.skip w).position - p.position = w.asBytes.length := Nat.add_sub_cancel_left ..
  have hrest : p.bytes.drop p.position = w.asBytes ++ t.asBytes := by
    rw [← Text.asBytes_append]
    exact h
  have hbytes : (p.skip w).bytes = p.bytes := rfl
  rw [Parser.slice, hlength, hbytes, hrest, List.take_left, Text.fromUtf8_asBytes]

/-- A character that cannot go on with a number stands behind. -/
def NumberEnd (t : Text) : Prop :=
  ∀ c ∈ t.head?, isDigit c = false ∧ c ≠ '.' ∧ c ≠ 'e' ∧ c ≠ 'E'

theorem exponent_head {w t : Text} (hw : Exponent w) (ht : NumberEnd t) :
    ∀ c ∈ (w ++ t).head?, isDigit c = false ∧ c ≠ '.' := by
  intro c hc
  obtain rfl | ⟨e, sign, digits, hcase, _, _, rfl⟩ := hw
  · obtain ⟨hdigit, hdot, _⟩ := ht c hc
    exact ⟨hdigit, hdot⟩
  · obtain rfl := Option.some.inj hc
    obtain rfl | rfl := hcase <;> decide

theorem fraction_head {w t : Text} (hw : Fraction w) (ht : ∀ c ∈ t.head?, isDigit c = false) :
    ∀ c ∈ (w ++ t).head?, isDigit c = false := by
  intro c hc
  obtain rfl | ⟨digits, _, rfl⟩ := hw
  · exact ht c hc
  · obtain rfl := Option.some.inj hc
    decide

theorem integer_head {w : Text} (hw : Integer w) (t : Text) : (w ++ t).head? ≠ some '-' := by
  intro hminus
  obtain rfl | ⟨hdigits, _⟩ := hw
  · cases hminus
  · exact absurd (digits_head hdigits t _ hminus) (by decide)

/-- The sign of a number. -/
theorem At.minus (h : At p (w ++ t)) (hw : w = [] ∨ w = ['-']) (ht : t.head? ≠ some '-') :
    (p.take '-'.toUInt8).2 = p.skip w := by
  have hascii : Ascii '-' := by decide
  obtain rfl | rfl := hw
  · rw [At.take_false (t := t) h hascii ht]
    rfl
  · rw [At.take_true h hascii]

/-- **Main lemma.** -/
theorem number_complete (h : At p (w ++ t)) (hw : Number w) (ht : NumberEnd t) :
    p.number = .ok (w, p.skip w) := by
  have hslice := h.slice
  obtain ⟨minus, integer, fraction, exponent, hminus, hinteger, hfraction, hexponent, rfl⟩ := hw
  have hall : minus ++ (integer ++ (fraction ++ exponent)) ++ t =
      minus ++ (integer ++ (fraction ++ (exponent ++ t))) := by
    simp only [List.append_assoc]
  rw [hall] at h
  have hbehind := exponent_head hexponent ht
  have hskip : p.skip (minus ++ (integer ++ (fraction ++ exponent))) =
      (((p.skip minus).skip integer).skip fraction).skip exponent := by
    simp only [skip_skip, List.append_assoc]
  rw [hskip] at hslice ⊢
  rw [number, h.minus hminus (integer_head hinteger _)]
  refine bind_eq_ok.mpr ⟨_, h.skip.integer hinteger
    (fraction_head hfraction fun c hc => (hbehind c hc).1), ?_⟩
  refine bind_eq_ok.mpr ⟨_, h.skip.skip.fraction hfraction hbehind, ?_⟩
  refine bind_eq_ok.mpr ⟨_, h.skip.skip.skip.exponent hexponent fun c hc => ?_, ?_⟩
  · obtain ⟨hdigit, _, he, hE⟩ := ht c hc
    exact ⟨hdigit, he, hE⟩
  · rw [hslice]
    rfl

/-- **Main lemma.** -/
theorem number_sound (h : At p t) :
    Refused p.number ∨ ∃ w t', t = w ++ t' ∧ Number w ∧ p.number = .ok (w, p.skip w) := by
  obtain ⟨minus, t₁, rfl, hminus, htake⟩ : ∃ minus t₁, t = minus ++ t₁ ∧
      (minus = [] ∨ minus = ['-']) ∧ (p.take '-'.toUInt8).2 = p.skip minus := by
    obtain ⟨t', rfl, htake⟩ | ⟨_, htake⟩ := h.take_cases (a := '-') (by decide)
    · exact ⟨['-'], t', rfl, .inr rfl, by rw [htake]⟩
    · exact ⟨[], t, rfl, .inl rfl, by rw [htake]; rfl⟩
  rw [number, htake]
  obtain hrefused | ⟨integer, t₂, rfl, hinteger, hok⟩ := h.skip.integer_sound
  · exact .inl hrefused.bind
  rw [hok, ok_bind]
  obtain hrefused | ⟨fraction, t₃, rfl, hfraction, hok⟩ := h.skip.skip.fraction_sound
  · exact .inl hrefused.bind
  rw [hok, ok_bind]
  obtain hrefused | ⟨exponent, t₄, rfl, hexponent, hok⟩ := h.skip.skip.skip.exponent_sound
  · exact .inl hrefused.bind
  rw [hok, ok_bind]
  refine .inr ⟨minus ++ (integer ++ (fraction ++ exponent)), t₄, by simp only [List.append_assoc],
    ⟨minus, integer, fraction, exponent, hminus, hinteger, hfraction, hexponent, rfl⟩, ?_⟩
  have hslice : (p.skip (minus ++ (integer ++ (fraction ++ exponent)))).slice p.position =
      some (minus ++ (integer ++ (fraction ++ exponent))) := by
    refine At.slice (t := t₄) ?_
    simp only [List.append_assoc]
    exact h
  simp only [skip_skip, List.append_assoc]
  rw [hslice]
  rfl

/-! ## Strings -/

theorem hexDigit_ascii {c : Char} (hc : Ascii c) : hexDigit c.toUInt8 = hexValue c := by
  have hle {a b : Char} (ha : Ascii a) (hb : Ascii b) :
      a.toUInt8 ≤ c.toUInt8 ∧ c.toUInt8 ≤ b.toUInt8 ↔ a ≤ c ∧ c ≤ b := by
    rw [toUInt8_le_iff ha hc, toUInt8_le_iff hc hb]
  unfold hexDigit hexValue
  simp only [hle (show Ascii '0' by decide) (show Ascii '9' by decide),
    hle (show Ascii 'a' by decide) (show Ascii 'f' by decide),
    hle (show Ascii 'A' by decide) (show Ascii 'F' by decide), toUInt8_toNat hc]

theorem hexDigit_high {b : UInt8} (hb : 0x80 ≤ b.toNat) : hexDigit b = none := by
  have hnot (a : UInt8) (ha : a.toNat < 0x80) : ¬b ≤ a := by
    rw [UInt8.le_iff_toNat_le]
    omega
  unfold hexDigit
  rw [if_neg fun h => hnot _ (by decide) h.2, if_neg fun h => hnot _ (by decide) h.2,
    if_neg fun h => hnot _ (by decide) h.2]

theorem hexValue_not_ascii {c : Char} (hc : ¬Ascii c) : hexValue c = none := by
  have hnot (a : Char) (ha : Ascii a) : ¬c ≤ a := fun hle => hc (show c.toNat ≤ 0x7f from by
    have hnat : c.toNat ≤ a.toNat := hle
    have hlt : a.toNat ≤ 0x7f := ha
    omega)
  unfold hexValue
  rw [if_neg fun h => hnot _ (by decide) h.2, if_neg fun h => hnot _ (by decide) h.2,
    if_neg fun h => hnot _ (by decide) h.2]

/-- A step of `hex4`. -/
theorem At.hexDigits_cons {c : Char} {digit : ℕ} (h : At p (c :: t))
    (hdigit : hexValue c = some digit) (count value : ℕ) :
    hexDigits (count + 1) value p = hexDigits count (value * 16 + digit) (p.skip [c]) := by
  have hc : Ascii c := by
    by_contra hc
    rw [hexValue_not_ascii hc] at hdigit
    cases hdigit
  rw [hexDigits, h.peek_ascii hc, okOr_some, ok_bind, hexDigit_ascii hc, hdigit, okOr_some,
    ok_bind, skip_singleton hc]

theorem At.hexDigits {hex : Text} {value n : ℕ} (h : At p (hex ++ t))
    (hn : hexNumber value hex = some n) :
    hexDigits hex.length value p = .ok (n, p.skip hex) := by
  induction hex generalizing value p with
  | nil =>
    obtain rfl := Option.some.inj hn
    rfl
  | cons c hex ih =>
    obtain ⟨digit, hdigit, hn⟩ := Option.bind_eq_some_iff.mp hn
    rw [List.length_cons, At.hexDigits_cons h hdigit, ih (At.skip (w := [c]) h) hn, skip_skip]
    rfl

theorem At.hexDigits_sound (count value : ℕ) (h : At p t) :
    Refused (Parser.hexDigits count value p) ∨ ∃ hex t' n, t = hex ++ t' ∧ hex.length = count ∧
      hexNumber value hex = some n ∧
        Parser.hexDigits count value p = .ok (n, p.skip hex) := by
  induction count generalizing value p t with
  | zero => exact .inr ⟨[], t, value, rfl, rfl, rfl, rfl⟩
  | succ count ih =>
    cases t with
    | nil =>
      refine .inl ?_
      rw [Parser.hexDigits, h.peek_nil]
      exact (refused_okOr _).bind
    | cons c t =>
      cases hdigit : hexValue c with
      | none =>
        refine .inl ?_
        by_cases hc : Ascii c
        · rw [Parser.hexDigits, h.peek_ascii hc, okOr_some, ok_bind, hexDigit_ascii hc, hdigit]
          exact (refused_okOr _).bind
        · obtain ⟨b, hb, hhigh⟩ := h.peek_high hc
          rw [Parser.hexDigits, hb, okOr_some, ok_bind, hexDigit_high hhigh]
          exact (refused_okOr _).bind
      | some digit =>
        rw [h.hexDigits_cons hdigit]
        obtain hrefused | ⟨hex, t', n, rfl, hlength, hn, hok⟩ :=
          ih (value * 16 + digit) (At.skip (w := [c]) h)
        · exact .inl hrefused
        · refine .inr ⟨c :: hex, t', n, rfl, by rw [List.length_cons, hlength], ?_, ?_⟩
          · exact Option.bind_eq_some_iff.mpr ⟨digit, hdigit, hn⟩
          · rw [hok, skip_skip]
            rfl

theorem At.hex4 {hex : Text} {n : ℕ} (h : At p (hex ++ t)) (hhex : Hex4 hex n) :
    p.hex4 = .ok (n, p.skip hex) := by
  have hok := h.hexDigits hhex.2
  rw [hhex.1] at hok
  exact hok

theorem At.hex4_sound (h : At p t) : Refused p.hex4 ∨ ∃ hex t' n, t = hex ++ t' ∧ Hex4 hex n ∧
    p.hex4 = .ok (n, p.skip hex) := by
  obtain hrefused | ⟨hex, t', n, rfl, hlength, hn, hok⟩ :=
    h.hexDigits_sound 4 0
  · exact .inl hrefused
  · exact .inr ⟨hex, t', n, rfl, ⟨hlength, hn⟩, hok⟩

/-- A number that is no surrogate is a character. -/
theorem pushScalar_valid {n : ℕ} (hn : n < 0x10000) (hhigh : ¬isHighSurrogate n)
    (hlow : ¬isLowSurrogate n) (output : Text) (p : Parser) :
    p.pushScalar n output = .ok (output ++ [Char.ofNat n], p) := by
  refine if_pos ?_
  unfold isHighSurrogate at hhigh
  unfold isLowSurrogate at hlow
  rw [Nat.isValidChar]
  omega

theorem pushScalar_low {n : ℕ} (hlow : isLowSurrogate n) (output : Text) (p : Parser) :
    Refused (p.pushScalar n output) := by
  refine ⟨_, if_neg ?_⟩
  obtain ⟨hle, hlt⟩ := hlow
  rw [Nat.isValidChar]
  omega

/-- The two halves of a pair make a character. -/
theorem pushScalar_pair {n n' : ℕ} (hhigh : isHighSurrogate n) (hlow : isLowSurrogate n')
    (output : Text) (p : Parser) :
    p.pushScalar (0x10000 + ((n - 0xd800) <<< 10) + (n' - 0xdc00)) output =
      .ok (output ++ [Char.ofNat (0x10000 + (n - 0xd800) * 1024 + (n' - 0xdc00))], p) := by
  obtain ⟨hle, hlt⟩ := hhigh
  obtain ⟨hle', hlt'⟩ := hlow
  rw [Nat.shiftLeft_eq]
  refine if_pos ?_
  rw [Nat.isValidChar]
  omega

theorem refused_mapError {α : Type} {x : Except Failure α} (h : Refused x) (e : Error) :
    Refused (x.mapError fun _ => .error e) := by
  obtain ⟨e', rfl⟩ := h
  exact ⟨e, rfl⟩

theorem At.surrogatePair {hex : Text} {n n' : ℕ} (h : At p ('\\' :: 'u' :: (hex ++ t)))
    (hhex : Hex4 hex n') (hhigh : isHighSurrogate n) (hlow : isLowSurrogate n') (output : Text) :
    p.surrogatePair n output =
      .ok (output ++ [Char.ofNat (0x10000 + (n - 0xd800) * 1024 + (n' - 0xdc00))],
        p.skip ('\\' :: 'u' :: hex)) := by
  have h₁ : At (p.skip ['\\']) ('u' :: (hex ++ t)) := At.skip (w := ['\\']) h
  have h₂ : At ((p.skip ['\\']).skip ['u']) (hex ++ t) := At.skip (w := ['u']) h₁
  have hskip : p.skip ('\\' :: 'u' :: hex) = ((p.skip ['\\']).skip ['u']).skip hex := by
    rw [skip_skip, skip_skip]
    rfl
  rw [Parser.surrogatePair, h.expect (by decide), hskip]
  refine bind_eq_ok.mpr ⟨_, rfl, ?_⟩
  rw [h₁.expect (by decide)]
  refine bind_eq_ok.mpr ⟨_, rfl, bind_eq_ok.mpr ⟨_, h₂.hex4 hhex, ?_⟩⟩
  exact bind_eq_ok.mpr ⟨(), refuseIf_of_not (not_not.mpr hlow), pushScalar_pair hhigh hlow _ _⟩

theorem At.surrogatePair_sound {n : ℕ} (h : At p t) (output : Text) :
    Refused (p.surrogatePair n output) ∨ ∃ hex t' n', t = '\\' :: 'u' :: (hex ++ t') ∧
      Hex4 hex n' ∧ isLowSurrogate n' := by
  rw [Parser.surrogatePair]
  obtain hrefused | ⟨t₁, rfl, hok⟩ := h.expect_sound (a := '\\') (by decide)
  · exact .inl (refused_mapError hrefused _).bind
  have h₁ : At (p.skip ['\\']) t₁ := At.skip (w := ['\\']) h
  rw [hok]
  obtain hrefused | ⟨t₂, rfl, hok₁⟩ := h₁.expect_sound (a := 'u') (by decide)
  · exact .inl (refused_mapError hrefused _).bind
  have h₂ : At ((p.skip ['\\']).skip ['u']) t₂ := At.skip (w := ['u']) h₁
  obtain hrefused | ⟨hex, t₃, n', rfl, hhex, hok₂⟩ := h₂.hex4_sound
  · refine .inl ?_
    show Refused (((p.skip ['\\']).expect 'u'.toUInt8).mapError _ >>= _)
    rw [hok₁]
    exact hrefused.bind
  by_cases hlow : isLowSurrogate n'
  · exact .inr ⟨hex, t₃, n', rfl, hhex, hlow⟩
  · refine .inl ?_
    show Refused (((p.skip ['\\']).expect 'u'.toUInt8).mapError _ >>= _)
    rw [hok₁]
    show Refused (((p.skip ['\\']).skip ['u']).hex4 >>= _)
    rw [hok₂]
    exact (refused_refuseIf (show ¬(0xdc00 ≤ n' ∧ n' ≤ 0xdfff) from hlow)).bind

theorem At.unicodeEscape {c : Char} (h : At p (w ++ t)) (hw : Unicode w c) (output : Text) :
    p.unicodeEscape output = .ok (output ++ [c], p.skip w) := by
  cases hw with
  | unit hhex hhigh hlow =>
    refine bind_eq_ok.mpr ⟨_, h.hex4 hhex, (if_neg hhigh).trans ?_⟩
    exact pushScalar_valid hhex.lt hhigh hlow _ _
  | pair hhex hhex' hhigh hlow =>
    rename_i hex hex' n n'
    rw [List.append_assoc] at h
    have hpair := h.skip.surrogatePair hhex' hhigh hlow output
    rw [skip_skip] at hpair
    exact bind_eq_ok.mpr ⟨_, h.hex4 hhex, (if_pos hhigh).trans hpair⟩

theorem At.unicodeEscape_sound (h : At p t) (output : Text) :
    Refused (p.unicodeEscape output) ∨ ∃ w t' c, t = w ++ t' ∧ Unicode w c ∧
      p.unicodeEscape output = .ok (output ++ [c], p.skip w) := by
  obtain hrefused | ⟨hex, t₁, n, rfl, hhex, hok⟩ := h.hex4_sound
  · exact .inl hrefused.bind
  have hbind : p.unicodeEscape output =
      if 0xd800 ≤ n ∧ n ≤ 0xdbff then (p.skip hex).surrogatePair n output
      else (p.skip hex).pushScalar n output := by
    rw [Parser.unicodeEscape, hok, ok_bind]
  by_cases hhigh : isHighSurrogate n
  · obtain hrefused | ⟨hex', t₂, n', rfl, hhex', hlow⟩ := h.skip.surrogatePair_sound output
    · refine .inl ?_
      rw [hbind.trans (if_pos hhigh)]
      exact hrefused
    · have hw := Unicode.pair hhex hhex' hhigh hlow
      have hall : hex ++ '\\' :: 'u' :: (hex' ++ t₂) = (hex ++ '\\' :: 'u' :: hex') ++ t₂ := by
        simp
      rw [hall] at h ⊢
      exact .inr ⟨_, t₂, _, rfl, hw, h.unicodeEscape hw output⟩
  · by_cases hlow : isLowSurrogate n
    · refine .inl ?_
      rw [hbind.trans (if_neg hhigh)]
      exact pushScalar_low hlow _ _
    · have hw := Unicode.unit hhex hhigh hlow
      exact .inr ⟨hex, t₁, _, rfl, hw, h.unicodeEscape hw output⟩

theorem simpleEscape_ascii {e : Char} (he : Ascii e) : simpleEscape e.toUInt8 = escapeOf e := by
  unfold simpleEscape escapeOf
  simp only [toUInt8_eq_iff (show Ascii '"' by decide) he,
    toUInt8_eq_iff (show Ascii '\\' by decide) he, toUInt8_eq_iff (show Ascii '/' by decide) he,
    toUInt8_eq_iff (show Ascii 'b' by decide) he, toUInt8_eq_iff (show Ascii 'f' by decide) he,
    toUInt8_eq_iff (show Ascii 'n' by decide) he, toUInt8_eq_iff (show Ascii 'r' by decide) he,
    toUInt8_eq_iff (show Ascii 't' by decide) he]

theorem simpleEscape_high {b : UInt8} (hb : 0x80 ≤ b.toNat) : simpleEscape b = none := by
  have hne (a : Char) (ha : Ascii a) : b ≠ a.toUInt8 := ne_of_high ha hb
  unfold simpleEscape
  rw [if_neg (hne '"' (by decide)), if_neg (hne '\\' (by decide)), if_neg (hne '/' (by decide)),
    if_neg (hne 'b' (by decide)), if_neg (hne 'f' (by decide)), if_neg (hne 'n' (by decide)),
    if_neg (hne 'r' (by decide)), if_neg (hne 't' (by decide))]

theorem At.escape {c : Char} (h : At p (w ++ t)) (hw : Escape w c) (output : Text) :
    p.escape output = .ok (output ++ [c], p.skip w) := by
  have hu : Ascii 'u' := by decide
  cases hw with
  | simple hescape =>
    rename_i e
    obtain ⟨he, hne⟩ := escapeOf_ascii hescape
    have hnot : ¬e.toUInt8 = 'u'.toUInt8 := fun heq => hne ((toUInt8_eq_iff hu he).mp heq)
    rw [Parser.escape, At.peek_ascii h he, okOr_some, ok_bind, if_neg hnot, simpleEscape_ascii he,
      hescape, skip_singleton he]
    rfl
  | unicode hunicode =>
    rename_i w
    have hat : At (p.skip ['u']) (w ++ t) := At.skip (w := ['u']) h
    rw [Parser.escape, At.peek_ascii h hu, okOr_some, ok_bind, if_pos rfl, ← skip_singleton hu,
      hat.unicodeEscape hunicode, skip_skip]
    rfl

theorem At.escape_sound (h : At p t) (output : Text) :
    Refused (p.escape output) ∨ ∃ w t' c, t = w ++ t' ∧ Escape w c ∧
      p.escape output = .ok (output ++ [c], p.skip w) := by
  have hu : Ascii 'u' := by decide
  cases t with
  | nil =>
    refine .inl ?_
    rw [Parser.escape, h.peek_nil]
    exact (refused_okOr _).bind
  | cons e t =>
    by_cases he : Ascii e
    · by_cases hcase : e = 'u'
      · subst hcase
        have hat : At (p.skip ['u']) t := At.skip (w := ['u']) h
        obtain hrefused | ⟨w, t', c, rfl, hw, _⟩ := hat.unicodeEscape_sound output
        · refine .inl ?_
          rw [Parser.escape, h.peek_ascii hu, okOr_some, ok_bind, if_pos rfl, ← skip_singleton hu]
          exact hrefused
        · have hescape := Escape.unicode hw
          exact .inr ⟨'u' :: w, t', c, rfl, hescape, At.escape (w := 'u' :: w) h hescape output⟩
      · cases hescape : escapeOf e with
        | none =>
          refine .inl ?_
          have hnot : ¬e.toUInt8 = 'u'.toUInt8 := fun heq => hcase ((toUInt8_eq_iff hu he).mp heq)
          rw [Parser.escape, h.peek_ascii he, okOr_some, ok_bind, if_neg hnot,
            simpleEscape_ascii he, hescape]
          exact (refused_okOr _).bind
        | some c =>
          have hw := Escape.simple hescape
          exact .inr ⟨[e], t, c, rfl, hw, At.escape (w := [e]) h hw output⟩
    · refine .inl ?_
      obtain ⟨b, hb, hhigh⟩ := h.peek_high he
      rw [Parser.escape, hb, okOr_some, ok_bind, if_neg (ne_of_high hu hhigh),
        simpleEscape_high hhigh]
      exact (refused_okOr _).bind

/-- A byte that the loop of a string passes over. -/
def PlainByte (b : UInt8) : Prop := b ≠ '"'.toUInt8 ∧ b ≠ '\\'.toUInt8 ∧ ¬b.toNat < 0x20

theorem plainByte {c : Char} (h : 0x20 ≤ c.toNat) (hquote : c ≠ '"') (hescape : c ≠ '\\')
    {b : UInt8} (hb : b ∈ String.utf8EncodeChar c) : PlainByte b := by
  have hascii : Ascii '"' ∧ Ascii '\\' := by decide
  by_cases hc : Ascii c
  · rw [utf8EncodeChar_ascii hc, List.mem_singleton] at hb
    subst hb
    refine ⟨fun heq => hquote ((toUInt8_eq_iff hascii.1 hc).mp heq),
      fun heq => hescape ((toUInt8_eq_iff hascii.2 hc).mp heq), ?_⟩
    rw [toUInt8_toNat hc]
    exact not_lt.mpr h
  · have hhigh := high_of_not_ascii hc hb
    exact ⟨ne_of_high hascii.1 hhigh, ne_of_high hascii.2 hhigh, by omega⟩

theorem stringLoop_bytes {bytes rest : List UInt8} (hplain : ∀ b ∈ bytes, PlainByte b)
    (h : p.rest = bytes ++ rest) (fuel start : ℕ) (output : Text) :
    stringLoop (fuel + bytes.length) start output p =
      stringLoop fuel start output (p.advance bytes.length) := by
  induction bytes generalizing p with
  | nil => rfl
  | cons b bytes ih =>
    obtain ⟨⟨hquote, hescape, hcontrol⟩, hplain⟩ := List.forall_mem_cons.mp hplain
    have hpeek : p.peek = some b := by rw [peek, h, List.cons_append, List.head?_cons]
    have hrest : (p.advance 1).rest = bytes ++ rest := by rw [rest_advance, h]; rfl
    have hall : (p.advance 1).advance bytes.length = p.advance (b :: bytes).length := by
      rw [advance, advance, advance, List.length_cons, Nat.add_assoc, Nat.add_comm 1]
    have hstep : stringLoop (fuel + (b :: bytes).length) start output p =
        stringLoop (fuel + bytes.length) start output (p.advance 1) := by
      rw [List.length_cons, ← Nat.add_assoc, stringLoop, hpeek]
      dsimp only
      rw [if_neg hquote, if_neg hescape, if_neg hcontrol]
    rw [hstep, ih hplain hrest, hall]

/-- A character without a meaning of its own is passed over. -/
theorem At.stringLoop_plain {c : Char} (h : At p (c :: t)) (hc : 0x20 ≤ c.toNat)
    (hquote : c ≠ '"') (hescape : c ≠ '\\') (fuel start : ℕ) (output : Text) :
    stringLoop (fuel + (String.utf8EncodeChar c).length) start output p =
      stringLoop fuel start output (p.skip [c]) := by
  have hskip : p.skip [c] = p.advance (String.utf8EncodeChar c).length := by
    rw [Parser.skip, Text.asBytes_cons, Text.asBytes_nil, List.append_nil]
  rw [hskip]
  exact stringLoop_bytes (fun b hb => plainByte hc hquote hescape hb) h fuel start output

/-- The text that is not in the output yet goes there. -/
theorem At.pushUtf8 (h : At p (w ++ t)) (output : Text) :
    (p.skip w).pushUtf8 p.position output = .ok (output ++ w) := by
  rw [Parser.pushUtf8, h.slice]
  rfl

theorem At.stringLoop_quote (h : At p (w ++ '"' :: t)) (fuel : ℕ) (output : Text) :
    stringLoop (fuel + 1) p.position output (p.skip w) =
      .ok (output ++ w, (p.skip w).skip ['"']) := by
  have hquote : Ascii '"' := by decide
  rw [stringLoop, h.skip.peek_ascii hquote, skip_singleton hquote]
  dsimp only
  rw [if_pos rfl, h.pushUtf8]
  rfl

theorem At.stringLoop_escape {w' : Text} {c : Char} (h : At p (w ++ '\\' :: (w' ++ t)))
    (hw : Escape w' c) (fuel : ℕ) (output : Text) :
    stringLoop (fuel + 1) p.position output (p.skip w) =
      stringLoop fuel (p.skip (w ++ '\\' :: w')).position (output ++ w ++ [c])
        (p.skip (w ++ '\\' :: w')) := by
  have hbackslash : Ascii '\\' := by decide
  have hat : At ((p.skip w).skip ['\\']) (w' ++ t) := At.skip (w := ['\\']) h.skip
  have hskip : p.skip (w ++ '\\' :: w') = ((p.skip w).skip ['\\']).skip w' := by
    simp only [skip_skip, List.append_assoc, List.singleton_append]
  have hne : ¬ '\\'.toUInt8 = '"'.toUInt8 := by decide
  rw [stringLoop, h.skip.peek_ascii hbackslash]
  dsimp only
  rw [if_neg hne, if_pos rfl, h.pushUtf8, ok_bind, ← skip_singleton hbackslash, hat.escape hw,
    ok_bind, hskip]

theorem length_asBytes_pos (c : Char) : 0 < (String.utf8EncodeChar c).length :=
  List.length_pos_of_ne_nil String.utf8EncodeChar_ne_nil

/-- **Run lemma.** The loop goes behind the quotation mark. -/
theorem At.stringLoop_complete {body value : Text} (hbody : Pieces body value) {fuel : ℕ}
    (h : At p (w ++ (body ++ '"' :: t))) (hfuel : body.asBytes.length < fuel) (output : Text) :
    stringLoop fuel p.position output (p.skip w) =
      .ok (output ++ w ++ value, p.skip (w ++ (body ++ ['"']))) := by
  induction hbody generalizing p w fuel output with
  | nil =>
    obtain ⟨fuel, rfl⟩ := Nat.exists_eq_succ_of_ne_zero (Nat.ne_of_gt hfuel)
    rw [At.stringLoop_quote h, skip_skip, List.append_nil]
    rfl
  | cons hpiece hrest ih =>
    rename_i piece rest value c
    rw [Text.asBytes_append, List.length_append] at hfuel
    obtain ⟨rfl, hc, hquote, hescape⟩ | ⟨w', rfl, hw'⟩ := hpiece.cases
    · have hlength : (Text.asBytes [c]).length = (String.utf8EncodeChar c).length := by
        rw [Text.asBytes_cons, Text.asBytes_nil, List.append_nil]
      obtain ⟨fuel, rfl⟩ : ∃ n, fuel = n + (String.utf8EncodeChar c).length :=
        ⟨fuel - (String.utf8EncodeChar c).length, by omega⟩
      have hat : At p ((w ++ [c]) ++ (rest ++ '"' :: t)) := by
        simpa only [List.append_assoc] using h
      rw [At.stringLoop_plain (t := rest ++ '"' :: t) (by simpa using h.skip) hc hquote hescape,
        skip_skip, ih hat (by omega)]
      simp only [List.append_assoc, List.cons_append, List.nil_append]
    · have hlength : 0 < (Text.asBytes ('\\' :: w')).length := by
        rw [Text.asBytes_cons, List.length_append]
        exact Nat.add_pos_left (length_asBytes_pos _) _
      obtain ⟨fuel, rfl⟩ : ∃ n, fuel = n + 1 := ⟨fuel - 1, by omega⟩
      have hat : At p (w ++ '\\' :: (w' ++ (rest ++ '"' :: t))) := by
        simpa only [List.append_assoc, List.cons_append] using h
      have hnext : At (p.skip (w ++ '\\' :: w')) ([] ++ (rest ++ '"' :: t)) := by
        have hall : At p ((w ++ '\\' :: w') ++ (rest ++ '"' :: t)) := by
          simpa only [List.append_assoc, List.cons_append] using h
        exact hall.skip
      have hrun := ih hnext (show rest.asBytes.length < fuel by omega) (output ++ w ++ [c])
      simp only [skip_nil, skip_skip, List.append_assoc, List.cons_append, List.nil_append]
        at hrun ⊢
      rw [hat.stringLoop_escape hw']
      simp only [List.append_assoc]
      exact hrun

/-- **Run lemma.** Where the loop does not refuse the text there is the rest of a string. -/
theorem At.stringLoop_sound {fuel : ℕ} (h : At p (w ++ t)) (hfuel : t.asBytes.length < fuel)
    (output : Text) : Refused (Parser.stringLoop fuel p.position output (p.skip w)) ∨
      ∃ body value t', t = body ++ '"' :: t' ∧ Pieces body value := by
  induction hn : t.length using Nat.strong_induction_on generalizing p w t fuel output with
  | _ n ih =>
  obtain ⟨fuel, rfl⟩ : ∃ n, fuel = n + 1 := ⟨fuel - 1, by omega⟩
  cases t with
  | nil =>
    refine .inl ?_
    rw [Parser.stringLoop, h.skip.peek_nil]
    exact ⟨_, rfl⟩
  | cons c t =>
    rw [Text.asBytes_cons, List.length_append] at hfuel
    have hpos := length_asBytes_pos c
    by_cases hquote : c = '"'
    · subst hquote
      exact .inr ⟨[], [], t, rfl, .nil⟩
    by_cases hescape : c = '\\'
    · subst hescape
      have hat : At ((p.skip w).skip ['\\']) t := At.skip (w := ['\\']) h.skip
      obtain hrefused | ⟨w', t', c, rfl, hw', _⟩ := hat.escape_sound (output ++ w)
      · refine .inl ?_
        have hbackslash : Ascii '\\' := by decide
        have hne : ¬ '\\'.toUInt8 = '"'.toUInt8 := by decide
        rw [Parser.stringLoop, h.skip.peek_ascii hbackslash]
        dsimp only
        rw [if_neg hne, if_pos rfl, h.pushUtf8, ok_bind, ← skip_singleton hbackslash]
        exact hrefused.bind
      · rw [h.stringLoop_escape hw']
        rw [Text.asBytes_append, List.length_append] at hfuel
        have hnext : At (p.skip (w ++ '\\' :: w')) ([] ++ t') := by
          have hall : At p ((w ++ '\\' :: w') ++ t') := by
            simpa only [List.append_assoc, List.cons_append] using h
          exact hall.skip
        have hshort : t'.length < n := by
          rw [← hn, List.length_cons, List.length_append]
          omega
        obtain hrefused | ⟨body, value, t'', rfl, hbody⟩ :=
          ih _ hshort hnext (show t'.asBytes.length < fuel by omega) (output ++ w ++ [c]) rfl
        · exact .inl hrefused
        · refine .inr ⟨('\\' :: w') ++ body, c :: value, t'', ?_, .cons hw'.piece hbody⟩
          simp only [List.append_assoc, List.cons_append]
    by_cases hc : 0x20 ≤ c.toNat
    · obtain ⟨more, hmore⟩ : ∃ k, fuel + 1 = k + (String.utf8EncodeChar c).length :=
        ⟨fuel + 1 - (String.utf8EncodeChar c).length, by omega⟩
      have hnext : At p ((w ++ [c]) ++ t) := by
        simpa only [List.append_assoc, List.singleton_append] using h
      rw [hmore, h.skip.stringLoop_plain hc hquote hescape, skip_skip]
      obtain hrefused | ⟨body, value, t', rfl, hbody⟩ :=
        ih t.length (by rw [← hn]; exact Nat.lt_succ_self _) hnext
          (show (Text.asBytes t).length < more by omega) output rfl
      · exact .inl hrefused
      · exact .inr ⟨[c] ++ body, c :: value, t', rfl, .cons (.plain hc hquote hescape) hbody⟩
    · refine .inl ?_
      have hlt : c.toNat < 0x20 := not_le.mp hc
      have hascii : Ascii c := show c.toNat ≤ 0x7f by omega
      have hcontrol : c.toUInt8.toNat < 0x20 := by
        rw [toUInt8_toNat hascii]
        exact hlt
      have hneq : ¬c.toUInt8 = '"'.toUInt8 := fun heq =>
        hquote ((toUInt8_eq_iff (show Ascii '"' by decide) hascii).mp heq)
      have hnes : ¬c.toUInt8 = '\\'.toUInt8 := fun heq =>
        hescape ((toUInt8_eq_iff (show Ascii '\\' by decide) hascii).mp heq)
      rw [Parser.stringLoop, h.skip.peek_ascii hascii]
      dsimp only
      rw [if_neg hneq, if_neg hnes, if_pos hcontrol]
      exact ⟨_, rfl⟩

/-- **Main lemma.** -/
theorem string_complete {value : Text} (h : At p (w ++ t)) (hw : StringText w value) :
    p.string = .ok (value, p.skip w) := by
  have hquote : Ascii '"' := by decide
  obtain ⟨body, hbody, rfl⟩ := hw
  have hat : At (p.skip ['"']) ([] ++ (body ++ '"' :: t)) := by
    refine At.skip (w := ['"']) ?_
    simpa only [List.append_assoc, List.cons_append, List.nil_append] using h
  rw [Parser.string, At.expect (t := body ++ ['"'] ++ t) h hquote, ok_bind]
  have hlength : body.asBytes.length < (p.skip ['"']).rest.length + 1 := by
    rw [show (p.skip ['"']).rest = _ from hat, List.nil_append, Text.asBytes_append,
      List.length_append]
    omega
  have hrun := hat.stringLoop_complete hbody hlength []
  rw [skip_nil] at hrun
  rw [hrun, skip_skip]
  rfl

/-- **Main lemma.** -/
theorem string_sound (h : At p t) : Refused p.string ∨ ∃ w t' value, t = w ++ t' ∧
    StringText w value ∧ p.string = .ok (value, p.skip w) := by
  have hquote : Ascii '"' := by decide
  obtain hrefused | ⟨t', rfl, hok⟩ := h.expect_sound hquote
  · exact .inl hrefused.bind
  have hat : At (p.skip ['"']) ([] ++ t') := At.skip (w := ['"']) h
  have hlength : (Text.asBytes t').length < (p.skip ['"']).rest.length + 1 := by
    rw [show (p.skip ['"']).rest = _ from hat, List.nil_append]
    exact Nat.lt_succ_self _
  obtain hrefused | ⟨body, value, t'', rfl, hbody⟩ := hat.stringLoop_sound hlength []
  · refine .inl ?_
    rw [Parser.string, hok]
    exact hrefused
  · have hw : StringText ('"' :: (body ++ ['"'])) value := ⟨body, hbody, rfl⟩
    have hall : '"' :: (body ++ '"' :: t'') = ('"' :: (body ++ ['"'])) ++ t'' := by
      simp only [List.append_assoc, List.cons_append, List.nil_append]
    rw [hall] at h ⊢
    exact .inr ⟨_, t'', value, rfl, hw, string_complete h hw⟩

end Parser

end Mrml.Json
