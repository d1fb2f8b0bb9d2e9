import Mrml.Json.Tokens

/-!
# Lexemes of JSON texts

The tokens of RFC 8259 and the texts that they make up, with whitespace between them.

Results:
* `Lexes.collect`: the iterator yields the lexemes of a text and comes to its end.
* `lexes_of_jsonText`: a JSON text is made up of lexemes.
* `tokens_finite_iff`: the sources on which the iterator comes to an end; on those that the parser
  accepts it yields the lexemes.
-/

namespace Mrml.Json

open Text Tokens

/-- A token of the grammar. -/
inductive Lexeme : Text → Token → Prop
  | mark {c : Char} {token : Token} (h : (c, token) ∈ marks) : Lexeme [c] token
  | literal {text : Text} {token : Token} (h : (text, token) ∈ literals) : Lexeme text token
  | number {text : Text} (h : Number text) : Lexeme text (.number text)
  | string {body value : Text} (h : Pieces body value) :
      Lexeme ('"' :: (body ++ ['"'])) (.string body)

/-- The lexemes of a text, with the whitespace left out. A number ends where it cannot go on. -/
inductive Lexes : Text → List Token → Prop
  | nil : Lexes [] []
  | space {c : Char} {t : Text} {tokens : List Token} (hc : isSpace c = true)
      (h : Lexes t tokens) : Lexes (c :: t) tokens
  | lexeme {w t : Text} {token : Token} {tokens : List Token} (hw : Lexeme w token)
      (hend : ∀ text, token = .number text → Parser.NumberEnd t) (h : Lexes t tokens) :
      Lexes (w ++ t) (token :: tokens)

/-! ## What the iterator makes of a lexeme -/

namespace Tokens

variable {front w t : Text}

theorem ok_bind_behind {α β : Type} {m : Proc TokenError Tokens α}
    {f : α → Proc TokenError Tokens β} {s : Tokens} {a : α}
    (h : m s = (.ok a, behind (front ++ w) t)) : (m >>= f) s = f a (behind (front ++ w) t) :=
  Proc.bind_ok h

theorem digits_ok (hw : Digits w) (ht : NoDigit t) (front : Text) :
    digits (behind front (w ++ t)) = (.ok (), behind (front ++ w) t) := by
  rw [digits_eq hw.2 ht, if_neg hw.1]
  rfl

theorem noDigit_of {t : Text} (h : ∀ c ∈ t.head?, isDigit c = false) : NoDigit t := by
  cases t with
  | nil => rfl
  | cons c t => exact h c rfl

theorem integer_ok (hw : Integer w) (ht : NoDigit t) (front : Text) :
    integer (behind front (w ++ t)) = (.ok (), behind (front ++ w) t) := by
  obtain rfl | ⟨hdigits, hzero⟩ := hw
  · rw [integer, peek_bind, List.singleton_append, byteAt_ascii (by decide), if_pos rfl,
      advance_bind (by decide), peek_bind, byteAt_any agrees_digit, ht, if_neg Bool.false_ne_true]
    rfl
  · have hbyte : ¬(behind front (w ++ t)).byteAt = some '0'.toUInt8 := by
      rw [byteAt_eq_some (by decide)]
      obtain ⟨c, w, rfl⟩ := List.exists_cons_of_ne_nil hdigits.1
      exact hzero
    rw [integer, peek_bind, if_neg hbyte, digits_ok hdigits ht]

theorem fraction_ok (hw : Fraction w) (ht : NoDigit t) (hdot : t.head? ≠ some '.') (front : Text) :
    fraction (behind front (w ++ t)) = (.ok (), behind (front ++ w) t) := by
  rw [fraction, peek_bind]
  obtain rfl | ⟨digits, hdigits, rfl⟩ := hw
  · rw [List.nil_append, if_neg (mt (byteAt_eq_some (by decide)).mp hdot), List.append_nil]
    rfl
  · rw [List.cons_append, byteAt_ascii (by decide), if_pos rfl, advance_bind (by decide),
      digits_ok hdigits ht, List.append_assoc]
    rfl

theorem exponent_ok (hw : Exponent w) (ht : NoDigit t) (hmark : t.head? ≠ some 'e' ∧
    t.head? ≠ some 'E') (front : Text) :
    exponent (behind front (w ++ t)) = (.ok (), behind (front ++ w) t) := by
  rw [exponent, peek_bind]
  simp only [byteAt_eq_some (show Ascii 'e' by decide), byteAt_eq_some (show Ascii 'E' by decide)]
  obtain rfl | ⟨e, sign, digits, he, hsign, hdigits, rfl⟩ := hw
  · rw [List.nil_append, if_neg (not_or.mpr hmark), List.append_nil]
    rfl
  · have hascii : Ascii e := by obtain rfl | rfl := he <;> decide
    have hhead : (e :: (sign ++ digits) ++ t).head? = some 'e' ∨
        (e :: (sign ++ digits) ++ t).head? = some 'E' := by
      obtain rfl | rfl := he
      · exact .inl rfl
      · exact .inr rfl
    rw [if_pos hhead, List.cons_append, advance_bind hascii, peek_bind]
    simp only [byteAt_eq_some (show Ascii '+' by decide), byteAt_eq_some (show Ascii '-' by decide)]
    have hstate (sign : Text) : behind (((front ++ [e]) ++ sign) ++ digits) t =
        behind (front ++ e :: (sign ++ digits)) t := by
      simp only [List.append_assoc, List.cons_append, List.nil_append]
    obtain rfl | hsign := hsign
    · have hnone : ¬(([] ++ digits ++ t).head? = some '+' ∨
          ([] ++ digits ++ t).head? = some '-') := by
        obtain ⟨c, digits, rfl⟩ := List.exists_cons_of_ne_nil hdigits.1
        have hc := hdigits.2 c List.mem_cons_self
        rintro (h | h)
        · exact ne_of_isDigit hc (by decide) (Option.some.inj h)
        · exact ne_of_isDigit hc (by decide) (Option.some.inj h)
      rw [if_neg hnone, List.nil_append, digits_ok hdigits ht, List.append_assoc]
      rfl
    · obtain ⟨s, rfl, hs⟩ : ∃ s, sign = [s] ∧ (s = '+' ∨ s = '-') := by
        obtain rfl | rfl := hsign
        · exact ⟨'+', rfl, .inl rfl⟩
        · exact ⟨'-', rfl, .inr rfl⟩
      have hascii : Ascii s := by obtain rfl | rfl := hs <;> decide
      have hsome : ([s] ++ digits ++ t).head? = some '+' ∨
          ([s] ++ digits ++ t).head? = some '-' := by
        obtain rfl | rfl := hs
        · exact .inl rfl
        · exact .inr rfl
      rw [if_pos hsome, List.append_assoc, List.singleton_append, advance_bind hascii,
        digits_ok hdigits ht, hstate]

/-- A number is read whole. -/
theorem number_ok (hw : Number w) (ht : Parser.NumberEnd t) (front : Text) :
    number (behind front (w ++ t)) = (.ok (.number w), behind (front ++ w) t) := by
  obtain ⟨minus, whole, part, power, hminus, hwhole, hpart, hpower, rfl⟩ := hw
  have hnoDigit : NoDigit t := noDigit_of fun c hc => (ht c hc).1
  have hpowerEnd := Parser.exponent_head hpower ht
  have hpowerDigit : NoDigit (power ++ t) := noDigit_of fun c hc => (hpowerEnd c hc).1
  have hpartDigit : NoDigit (part ++ (power ++ t)) :=
    noDigit_of (Parser.fraction_head hpart fun c hc => (hpowerEnd c hc).1)
  have hlist : minus ++ (whole ++ (part ++ power)) ++ t =
      minus ++ (whole ++ (part ++ (power ++ t))) := by simp only [List.append_assoc]
  have hsign : sign (behind front (minus ++ (whole ++ (part ++ (power ++ t))))) =
      (.ok (), behind (front ++ minus) (whole ++ (part ++ (power ++ t)))) := by
    rw [sign, peek_bind]
    obtain rfl | rfl := hminus
    · rw [List.nil_append, List.append_nil, if_neg (mt (byteAt_eq_some (by decide)).mp
        (Parser.integer_head hwhole _))]
      rfl
    · rw [List.singleton_append, byteAt_ascii (by decide), if_pos rfl, advance_one (by decide)]
  have hslice : slice (behind front (minus ++ (whole ++ (part ++ (power ++ t))))).position
      (behind (front ++ (minus ++ (whole ++ (part ++ power)))) t) =
        (.ok (minus ++ (whole ++ (part ++ power))),
          behind (front ++ (minus ++ (whole ++ (part ++ power)))) t) :=
    slice_behind front (minus ++ (whole ++ (part ++ power))) t
  have hstate : ((front ++ minus) ++ whole ++ part) ++ power =
      front ++ (minus ++ (whole ++ (part ++ power))) := by simp only [List.append_assoc]
  rw [hlist]
  show (sign >>= _) _ = _
  rw [Proc.bind_ok hsign, ok_bind_behind (integer_ok hwhole hpartDigit _),
    ok_bind_behind (fraction_ok hpart hpowerDigit (fun h => (hpowerEnd _ h).2 rfl) _),
    ok_bind_behind (exponent_ok hpower hnoDigit ⟨fun h => (ht _ h).2.2.1 rfl,
      fun h => (ht _ h).2.2.2 rfl⟩ _), hstate, Proc.bind_ok hslice]
  rfl

/-! ## Strings -/

/-- The digits of an escape are gone past. -/
theorem hexDigits_ok {hex : Text} (hhex : ∀ c ∈ hex, (hexValue c).isSome = true) {c : Char}
    (hc : Ascii c) (front t : Text) :
    (hexDigits hex.length >>= fun _ => advance 1) (behind front (c :: (hex ++ t))) =
      (.ok (), behind (front ++ c :: hex) t) := by
  induction hex generalizing front c with
  | nil =>
    show advance 1 _ = _
    rw [List.nil_append, advance_one hc]
  | cons d hex ih =>
    obtain ⟨hd, hhex⟩ := List.forall_mem_cons.mp hhex
    have hascii : Ascii d := by
      by_contra h
      rw [Parser.hexValue_not_ascii h] at hd
      exact nomatch hd
    have hany : (behind (front ++ [c]) (d :: (hex ++ t))).byteAt.any isHexByte = true := by
      rw [byteAt_any agrees_hex]
      exact hd
    rw [List.length_cons, hexDigits, Proc.bind_assoc, advance_bind hc, Proc.bind_assoc, peek_bind,
      List.cons_append, hany, if_pos rfl, ih hhex hascii, List.append_assoc]
    rfl

theorem isSome_hexValue {hex : Text} {value n : ℕ} (h : hexNumber value hex = some n) :
    ∀ c ∈ hex, (hexValue c).isSome = true := by
  induction hex generalizing value with
  | nil => exact fun _ h => nomatch h
  | cons c hex ih =>
    rw [hexNumber] at h
    obtain ⟨digit, hdigit, h⟩ := Option.bind_eq_some_iff.mp h
    exact List.forall_mem_cons.mpr ⟨by rw [hdigit]; rfl, ih h⟩

/-- An escape by a number is gone past. -/
theorem escape_unicode {hex : Text} {n : ℕ} (h : Hex4 hex n) (front t : Text) :
    (escape >>= fun _ => advance 1) (behind front ('u' :: (hex ++ t))) =
      (.ok (), behind (front ++ 'u' :: hex) t) := by
  have hhex := hexDigits_ok (isSome_hexValue h.2) (show Ascii 'u' by decide) front t
  rw [h.1] at hhex
  rw [escape, Proc.bind_assoc, peek_bind, byteAt_ascii (by decide)]
  exact hhex

/-- An escape by a letter is gone past. -/
theorem escape_simple {e c : Char} (h : escapeOf e = some c) (front t : Text) :
    (escape >>= fun _ => advance 1) (behind front (e :: t)) =
      (.ok (), behind (front ++ [e]) t) := by
  obtain ⟨hascii, hu⟩ := escapeOf_ascii h
  have hsimple : isEscapeByte e.toUInt8 = true := by
    rw [isEscapeByte, Parser.simpleEscape_ascii hascii, h]
    rfl
  rw [escape, Proc.bind_assoc, peek_bind, byteAt_ascii hascii]
  dsimp only
  rw [if_neg (mt (toUInt8_eq_iff (by decide) hascii).mp hu), hsimple, if_pos rfl]
  exact advance_one hascii front t

/-- An escape is gone past by one turn of the loop. -/
theorem stringLoop_escape {w : Text} (h : (escape >>= fun _ => advance 1)
      (behind (front ++ ['\\']) (w ++ t)) = (.ok (), behind ((front ++ ['\\']) ++ w) t))
    (start fuel : ℕ) : stringLoop start (fuel + 1) (behind front ('\\' :: (w ++ t))) =
      stringLoop start fuel (behind (front ++ '\\' :: w) t) := by
  rw [stringLoop, peek_bind, byteAt_ascii (by decide)]
  dsimp only
  rw [if_neg (by decide), if_pos rfl, advance_bind (by decide), ← Proc.bind_assoc escape,
    Proc.bind_ok h, List.append_assoc]
  rfl

/-- A character that stands for itself is gone past. -/
theorem stringLoop_plain {c : Char} (hc : 0x20 ≤ c.toNat) (hquote : c ≠ '"') (hescape : c ≠ '\\')
    (start fuel : ℕ) (front t : Text) :
    stringLoop start (fuel + (String.utf8EncodeChar c).length) (behind front (c :: t)) =
      stringLoop start fuel (behind (front ++ [c]) t) := by
  by_cases hascii : Ascii c
  · rw [utf8EncodeChar_ascii hascii, List.length_singleton, stringLoop, peek_bind,
      byteAt_ascii hascii]
    dsimp only
    rw [if_neg (mt (toUInt8_eq_iff (by decide) hascii).mp hquote),
      if_neg (mt (toUInt8_eq_iff (by decide) hascii).mp hescape), toUInt8_toNat hascii,
      if_neg (by omega), advance_bind hascii]
  · have hplace : (⟨(behind front (c :: t)).source, (behind front (c :: t)).position +
        (String.utf8EncodeChar c).length⟩ : Tokens) = behind (front ++ [c]) t := by
      have h := congrArg Prod.snd (advance_behind front [c] t)
      have hone : asBytes [c] = String.utf8EncodeChar c := List.append_nil _
      rw [hone] at h
      exact h
    rw [stringLoop_high _ _ _ _ (by
      rw [drop_behind, asBytes_cons]
      exact List.prefix_append _ _) fun b hb => high_of_not_ascii hascii hb, hplace]

theorem one_le_length (c : Char) (w : Text) : 1 ≤ (asBytes (c :: w)).length := by
  rw [asBytes_cons, List.length_append]
  exact Nat.le_trans (List.length_pos_iff.mpr String.utf8EncodeChar_ne_nil) (Nat.le_add_right _ _)

/-- **Step lemma.** A piece of a string is gone past in as many turns as it has bytes or fewer. -/
theorem stringLoop_piece {w : Text} {c : Char} (h : Piece w c) :
    ∃ turns ≤ (asBytes w).length, ∀ start fuel front t,
      stringLoop start (fuel + turns) (behind front (w ++ t)) =
        stringLoop start fuel (behind (front ++ w) t) := by
  cases h with
  | plain h hquote hescape =>
    refine ⟨(String.utf8EncodeChar c).length, ?_, fun start fuel front t => ?_⟩
    · rw [asBytes_cons, List.length_append]
      exact Nat.le_add_right _ _
    · exact stringLoop_plain h hquote hescape start fuel front t
  | escape h =>
    exact ⟨1, one_le_length _ _, fun start fuel front t =>
      stringLoop_escape (escape_simple h _ t) start fuel⟩
  | unicode h hhigh hlow =>
    exact ⟨1, one_le_length _ _, fun start fuel front t =>
      stringLoop_escape (escape_unicode h _ t) start fuel⟩
  | @pair hex hex' n n' h h' hhigh hlow =>
    refine ⟨2, ?_, fun start fuel front t => ?_⟩
    · rw [asBytes_cons, List.length_append]
      have hone := one_le_length 'u' (hex ++ '\\' :: 'u' :: hex')
      have hpos := List.length_pos_iff.mpr (String.utf8EncodeChar_ne_nil (c := '\\'))
      omega
    · have hfirst := @stringLoop_escape front ('\\' :: 'u' :: (hex' ++ t)) ('u' :: hex)
        (escape_unicode h _ _) start (fuel + 1)
      have hsecond := @stringLoop_escape (front ++ '\\' :: 'u' :: hex) t ('u' :: hex')
        (escape_unicode h' _ _) start fuel
      simp only [List.cons_append, List.append_assoc] at hfirst hsecond ⊢
      exact hfirst.trans hsecond

/-- **Run lemma.** The loop reads the pieces of a string and its end. -/
theorem stringLoop_pieces {body value : Text} (h : Pieces body value) (first seen t : Text)
    (fuel : ℕ) (hfuel : (asBytes body).length < fuel) :
    stringLoop (asBytes first).length fuel (behind (first ++ seen) (body ++ '"' :: t)) =
      (.ok (.string (seen ++ body)), behind (first ++ (seen ++ body) ++ ['"']) t) := by
  induction h generalizing seen fuel with
  | nil =>
    obtain ⟨fuel, rfl⟩ := Nat.exists_eq_succ_of_ne_zero (Nat.ne_zero_of_lt hfuel)
    rw [List.append_nil, List.nil_append, stringLoop, peek_bind, byteAt_ascii (by decide)]
    dsimp only
    rw [if_pos rfl, Proc.bind_ok (slice_behind first seen ('"' :: t)), advance_bind (by decide)]
    rfl
  | @cons piece rest value c hpiece _ ih =>
    obtain ⟨turns, hturns, hstep⟩ := stringLoop_piece hpiece
    rw [asBytes_append, List.length_append] at hfuel
    have hrest := ih (seen ++ piece) (fuel - turns) (by omega)
    have hfuel' : fuel = (fuel - turns) + turns := by omega
    rw [hfuel', List.append_assoc, hstep, List.append_assoc first, hrest, List.append_assoc seen]

/-- A string is read whole. -/
theorem string_ok {body value : Text} (h : Pieces body value) (front t : Text) :
    string (behind front ('"' :: (body ++ '"' :: t))) =
      (.ok (.string body), behind (front ++ '"' :: (body ++ ['"'])) t) := by
  have hcount : (asBytes (front ++ ['"'] ++ (body ++ '"' :: t))).length -
      (asBytes (front ++ ['"'])).length = (asBytes (body ++ '"' :: t)).length := by
    rw [asBytes_append, List.length_append, Nat.add_sub_cancel_left]
  have hloop := stringLoop_pieces h (front ++ ['"']) [] t ((asBytes (body ++ '"' :: t)).length + 1)
    (by
      rw [asBytes_append, List.length_append]
      omega)
  have hstate : front ++ ['"'] ++ ([] ++ body) ++ ['"'] = front ++ '"' :: (body ++ ['"']) := by
    simp only [List.append_assoc, List.cons_append, List.nil_append]
  rw [List.append_nil, hstate] at hloop
  rw [string, advance_bind (by decide)]
  show stringLoop (asBytes (front ++ ['"'])).length
    ((asBytes (front ++ ['"'] ++ (body ++ '"' :: t))).length -
      (asBytes (front ++ ['"'])).length + 1) _ = _
  rw [hcount]
  exact hloop

/-! ## The lexemes of a text -/

/-- **Step lemma.** The item of a lexeme is its token. -/
theorem lexeme_next {token : Token} (hw : Lexeme w token)
    (hend : ∀ text, token = .number text → Parser.NumberEnd t) (front : Text) :
    (behind front (w ++ t)).next = (some (.ok token), behind (front ++ w) t) := by
  cases hw with
  | mark h => exact next_mark h front t
  | literal h =>
    obtain ⟨c, rest, rfl, hascii, hspace, hmark, hquote, hnumber⟩ : ∃ c rest, w = c :: rest ∧
        Ascii c ∧ isSpace c = false ∧ c ∉ marks.map Prod.fst ∧ c ≠ '"' ∧
        ¬(c = '-' ∨ isDigit c = true) := by
      simp only [literals, List.mem_cons, List.not_mem_nil, or_false, Prod.mk.injEq] at h
      obtain ⟨rfl, -⟩ | ⟨rfl, -⟩ | ⟨rfl, -⟩ := h <;>
        exact ⟨_, _, rfl, by decide, by decide, by decide, by decide, by decide⟩
    have hliteral : literal literals (behind front (c :: rest ++ t)) =
        (.ok token, behind (front ++ c :: rest) t) := by
      have hfind : (literals.find? fun pair => pair.1.isPrefixOf (c :: rest ++ t)) =
          some (c :: rest, token) := by
        simp only [literals, List.mem_cons, List.not_mem_nil, or_false, Prod.mk.injEq] at h
        obtain ⟨heq, rfl⟩ | ⟨heq, rfl⟩ | ⟨heq, rfl⟩ := h <;>
          rw [heq] <;> simp [literals, List.isPrefixOf_cons_cons]
      rw [literal_eq, hfind]
      dsimp only
      rw [List.drop_left]
    rw [List.cons_append, next_ascii hspace hascii hmark, if_neg hquote, if_neg hnumber,
      ← List.cons_append, hliteral]
  | number h =>
    have hnumber := number_ok h (hend w rfl) front
    obtain ⟨c, rest, rfl, hascii, hcase⟩ := Parser.number_opens h
    have hrange := Parser.digit_opens hascii hcase
    have hne (a : Char) (ha : a.toNat ≠ 45 ∧ ¬(48 ≤ a.toNat ∧ a.toNat ≤ 57)) : c ≠ a := by
      rintro rfl
      omega
    have hmark : c ∉ marks.map Prod.fst := by
      simp only [marks, List.map_cons, List.map_nil, List.mem_cons, List.not_mem_nil, or_false,
        hne '[' (by decide), hne ']' (by decide), hne '\x7b' (by decide), hne '\x7d' (by decide),
        hne ':' (by decide), hne ',' (by decide), not_false_eq_true]
    have hspace : isSpace c = false := by
      simp only [isSpace, hne ' ' (by decide), hne '\n' (by decide), hne '\r' (by decide),
        hne '\t' (by decide), decide_false, Bool.or_self]
    rw [List.cons_append, next_ascii hspace hascii hmark, if_neg (hne '"' (by decide)),
      if_pos hcase, ← List.cons_append, hnumber]
  | @string body value h =>
    have hstring := string_ok h front t
    rw [List.cons_append, next_ascii (by decide) (by decide) (by decide), if_pos rfl,
      List.append_assoc, List.singleton_append, hstring]

theorem next_cons_space {c : Char} (hc : isSpace c = true) (front t : Text) :
    (behind front (c :: t)).next = (behind (front ++ [c]) t).next := by
  obtain ⟨space, rest, rfl, hspace, hrest⟩ := exists_space t
  have hfirst := next_space (List.forall_mem_cons.mpr ⟨hc, hspace⟩) hrest front
  have hsecond := next_space hspace hrest (front ++ [c])
  rw [List.append_assoc] at hsecond
  exact hfirst.trans hsecond.symm

theorem collect_congr {s s' : Tokens} (h : s.next = s'.next) (n : ℕ) :
    collect n s = collect n s' := by
  cases n with
  | zero => rfl
  | succ n => rw [collect, collect, h]

end Tokens

/-- **Run lemma.** The iterator yields the lexemes of what is left, and comes to its end. -/
theorem Lexes.collect {t : Text} {tokens : List Token} (h : Lexes t tokens) (front : Text) :
    ∃ n, Tokens.collect n (behind front t) = .ok (tokens.map .ok) := by
  induction h generalizing front with
  | nil =>
    have hspace : Space [] := fun _ h => nomatch h
    have hnext := next_nil hspace front
    exact ⟨1, by rw [Tokens.collect, hnext]; rfl⟩
  | @space c t tokens hc _ ih =>
    obtain ⟨n, hn⟩ := ih (front ++ [c])
    exact ⟨n, by rw [collect_congr (next_cons_space hc front t), hn]⟩
  | @lexeme w t token tokens hw hend _ ih =>
    obtain ⟨n, hn⟩ := ih (front ++ w)
    refine ⟨n + 1, ?_⟩
    have hsucc : Tokens.collect (n + 1) (behind front (w ++ t)) =
        (Tokens.collect n (behind (front ++ w) t)).map (.ok token :: ·) :=
      collect_succ (lexeme_next hw hend front) n
    rw [hsucc, hn]
    rfl

/-! ## The lexemes of a JSON text -/

theorem Lexes.append_space {space t : Text} {tokens : List Token} (hspace : Space space)
    (h : Lexes t tokens) : Lexes (space ++ t) tokens := by
  induction space with
  | nil => exact h
  | cons c space ih =>
    obtain ⟨hc, hspace⟩ := List.forall_mem_cons.mp hspace
    exact .space hc (ih hspace)

theorem Lexes.append_mark {c : Char} {token : Token} (hc : (c, token) ∈ marks) {t : Text}
    {tokens : List Token} (h : Lexes t tokens) : Lexes (c :: t) (token :: tokens) := by
  refine .lexeme (w := [c]) (.mark hc) (fun text heq => ?_) h
  subst heq
  have hmem : Token.number text ∈ marks.map Prod.snd := List.mem_map.mpr ⟨_, hc, rfl⟩
  simp [marks] at hmem

theorem space_append_numberEnd {space t : Text} (hspace : Space space) (ht : Parser.NumberEnd t) :
    Parser.NumberEnd (space ++ t) := by
  cases space with
  | nil => exact ht
  | cons c space => exact fun a ha => space_numberEnd hspace a ha

theorem mark_numberEnd {c : Char} {token : Token} (hc : (c, token) ∈ marks) (t : Text) :
    Parser.NumberEnd (c :: t) := by
  intro a ha
  obtain rfl := Option.some.inj ha
  simp only [marks, List.mem_cons, List.not_mem_nil, or_false, Prod.mk.injEq] at hc
  obtain ⟨rfl, -⟩ | ⟨rfl, -⟩ | ⟨rfl, -⟩ | ⟨rfl, -⟩ | ⟨rfl, -⟩ | ⟨rfl, -⟩ := hc <;> decide

/-- A text is made up of lexemes, in front of any text that ends a number. -/
def MadeOf (x : Text) : Prop :=
  ∃ tokens, ∀ t us, Parser.NumberEnd t → Lexes t us → Lexes (x ++ t) (tokens ++ us)

theorem MadeOf.of_lexeme {w : Text} {token : Token} (hw : Lexeme w token) : MadeOf w :=
  ⟨[token], fun _ _ hend h => .lexeme hw (fun _ _ => hend) h⟩

theorem MadeOf.literal {w : Text} (hw : w ∈ literals.map Prod.fst) : MadeOf w := by
  obtain ⟨⟨w, token⟩, hmem, rfl⟩ := List.mem_map.mp hw
  exact .of_lexeme (.literal hmem)

theorem MadeOf.string {text value : Text} (h : StringText text value) : MadeOf text := by
  obtain ⟨body, hbody, rfl⟩ := h
  exact .of_lexeme (.string hbody)

theorem MadeOf.space_right {x space : Text} (h : MadeOf x) (hspace : Space space) :
    MadeOf (x ++ space) := by
  obtain ⟨tokens, h⟩ := h
  refine ⟨tokens, fun t us hend ht => ?_⟩
  rw [List.append_assoc]
  exact h _ us (space_append_numberEnd hspace hend) (ht.append_space hspace)

theorem MadeOf.space_left {x space : Text} (h : MadeOf x) (hspace : Space space) :
    MadeOf (space ++ x) := by
  obtain ⟨tokens, h⟩ := h
  refine ⟨tokens, fun t us hend ht => ?_⟩
  rw [List.append_assoc]
  exact (h t us hend ht).append_space hspace

/-- A mark between two texts. -/
theorem MadeOf.mark {x y : Text} (hx : MadeOf x) {c : Char} (hc : c ∈ marks.map Prod.fst)
    (hy : MadeOf y) : MadeOf (x ++ c :: y) := by
  obtain ⟨⟨c, token⟩, hmem, rfl⟩ := List.mem_map.mp hc
  obtain ⟨tokens, hx⟩ := hx
  obtain ⟨tokens', hy⟩ := hy
  refine ⟨tokens ++ token :: tokens', fun t us hend ht => ?_⟩
  rw [List.append_assoc, List.append_assoc]
  exact hx _ _ (mark_numberEnd hmem _) ((hy t us hend ht).append_mark hmem)

theorem MadeOf.nil : MadeOf [] := ⟨[], fun _ _ _ h => h⟩

/-- A text in brackets. -/
theorem MadeOf.bracketed {x : Text} (hx : MadeOf x) {c c' : Char} (hc : c ∈ marks.map Prod.fst)
    (hc' : c' ∈ marks.map Prod.fst) : MadeOf (c :: (x ++ [c'])) :=
  MadeOf.mark .nil hc (hx.mark hc' .nil)

theorem madeOf_member {key name colon space text : Text} (hname : StringText name key)
    (hcolon : Space colon) (hspace : Space space) (h : MadeOf text) :
    MadeOf (name ++ (colon ++ ':' :: (space ++ text))) := by
  have hmark := ((MadeOf.string hname).space_right hcolon).mark (c := ':') (by decide)
    (h.space_left hspace)
  rwa [List.append_assoc] at hmark

/-- A value of the grammar is made up of lexemes. -/
theorem madeOf_valueText {x : Text} {v : Value} {n k : ℕ} (h : ValueText x v n k) : MadeOf x := by
  refine @ValueText.rec (fun x _ _ _ _ => MadeOf x) (fun x _ _ _ _ => MadeOf x)
    (fun x _ _ _ _ => MadeOf x)
    ?null ?true ?false ?number ?string ?emptyArray ?array ?emptyObject ?object ?last ?cons
    ?lastMember ?consMember x v n k h
  case null | true | false => exact .literal (by decide)
  case number => exact fun h => .of_lexeme (.number h)
  case string => exact fun h => .string h
  case emptyArray =>
    intro space hspace
    exact (MadeOf.nil.space_right hspace).bracketed (by decide) (by decide)
  case emptyObject =>
    intro space hspace
    exact (MadeOf.nil.space_right hspace).bracketed (by decide) (by decide)
  case array =>
    intro space text _ _ _ hspace _ htext
    have h : MadeOf ('[' :: (space ++ text ++ [']'])) :=
      (htext.space_left hspace).bracketed (by decide) (by decide)
    rwa [List.append_assoc] at h
  case object =>
    intro space text _ _ _ hspace _ _ htext
    have h : MadeOf ('\x7b' :: (space ++ text ++ ['\x7d'])) :=
      (htext.space_left hspace).bracketed (by decide) (by decide)
    rwa [List.append_assoc] at h
  case last => exact fun _ hafter htext => htext.space_right hafter
  case cons =>
    intro text after before rest _ _ _ _ _ _ _ hafter hbefore _ htext hrest
    have h := (htext.space_right hafter).mark (c := ',') (by decide) (hrest.space_left hbefore)
    rwa [List.append_assoc] at h
  case lastMember =>
    intro _ name colon space text after _ _ _ hname hcolon hspace _ hafter htext
    exact madeOf_member hname hcolon hspace (htext.space_right hafter)
  case consMember =>
    intro _ name colon space text after before rest _ _ _ _ _ _ hname hcolon hspace _ hafter
      hbefore _ htext hrest
    have h := (htext.space_right hafter).mark (c := ',') (by decide) (hrest.space_left hbefore)
    rw [List.append_assoc] at h
    exact madeOf_member hname hcolon hspace h

/-- A JSON text is made up of lexemes. -/
theorem lexes_of_jsonText {source : Text} {v : Value} {n k : ℕ} (h : JsonText source v n k) :
    ∃ tokens, Lexes source tokens := by
  obtain ⟨before, body, after, hbefore, hbody, hafter, rfl⟩ := h
  obtain ⟨tokens, htokens⟩ := ((madeOf_valueText hbody).space_right hafter).space_left hbefore
  have hlexes := htokens [] [] (fun _ h => nomatch h) .nil
  rw [List.append_nil, List.append_nil] at hlexes
  exact ⟨tokens, hlexes⟩

/-- **Main theorem.** The iterator comes to its end, with the lexemes of the text wherever the
parser accepts it, exactly on the texts whose scan comes to its end. -/
theorem tokens_finite_iff (source : Text) :
    ((∃ n items, Tokens.collect n (Tokens.new source) = .ok items) ∧
      ∀ v, parse source = .ok v → ∃ n tokens, Lexes source tokens ∧
        Tokens.collect n (Tokens.new source) = .ok (tokens.map .ok)) ↔
    scans .between source = true := by
  have hfinite : (∃ n items, Tokens.collect n (Tokens.new source) = .ok items) ↔
      scans .between source = true := collect_iff [] source
  rw [hfinite, and_iff_left_iff_imp]
  intro _ v hv
  obtain ⟨e, hrefused⟩ | ⟨v', n, k, hjson, -, -⟩ := parse_sound source
  · rw [hrefused] at hv
    exact nomatch hv
  · obtain ⟨tokens, hlexes⟩ := lexes_of_jsonText hjson
    obtain ⟨n, hn⟩ := hlexes.collect []
    exact ⟨n, tokens, hlexes, hn⟩

/-- The letter of no token: every call of `next` gives the same error. -/
theorem tokens_endless :
    ¬∀ source, (∃ n items, Tokens.collect n (Tokens.new source) = .ok items) ∧
      ∀ v, parse source = .ok v → ∃ n tokens, Lexes source tokens ∧
        Tokens.collect n (Tokens.new source) = .ok (tokens.map .ok) := by
  intro h
  have hscans := (collect_iff [] ['x']).mp (h ['x']).1
  exact absurd hscans (by decide)

end Mrml.Json
