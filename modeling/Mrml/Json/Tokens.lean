import Mrml.Common.StrIndex
import Mrml.Json.Acceptance

/-!
# JSON tokens

Model of the iterator `Tokens` of `crates/mrml-json/src/lib.rs` (lines 1–179). A failed call of
`next` leaves the position where the error was found, and the following call goes on from there.
A slice of the source that is not between boundaries is a panic.

Results:
* `scans`: a scan of a text, character by character, that ends where no token begins.
* `Goes`: a part of the scanner goes over the text as the scan does.
* `collect_iff`: the iterator comes to its end if and only if the scan does.
-/

namespace Mrml.Json

open Text Proc

/-- `Token` (lines 4–15). -/
inductive Token
  | null
  | bool (value : Bool)
  | number (text : Text)
  | string (text : Text)
  | arrayStart
  | arrayEnd
  | objectStart
  | objectEnd
  | colon
  | comma
  deriving DecidableEq

/-- `TokenError` (lines 18–21). -/
structure TokenError where
  message : String
  offset : ℕ
  deriving DecidableEq

/-- `Tokens` (lines 31–34). -/
structure Tokens where
  source : Text
  position : ℕ
  deriving DecidableEq

namespace Tokens

/-- `new` (lines 37–42). -/
def new (source : Text) : Tokens := ⟨source, 0⟩

/-- `bytes.get(self.position)`. -/
def byteAt (s : Tokens) : Option UInt8 := (asBytes s.source)[s.position]?

/-- `bytes.get(self.position)` in a function. -/
def peek : Proc TokenError Tokens (Option UInt8) := fun s => (.ok s.byteAt, s)

/-- `self.position`. -/
def place : Proc TokenError Tokens ℕ := fun s => (.ok s.position, s)

/-- `self.position += count`. -/
def advance (count : ℕ) : Proc TokenError Tokens Unit := fun s =>
  (.ok (), { s with position := s.position + count })

/-- `Err(self.error(message))` (lines 48–53). -/
def error {α : Type} (message : String) : Proc TokenError Tokens α := fun s =>
  (.error (.error ⟨message, s.position⟩), s)

/-- `&self.source[start..self.position]`. -/
def slice (start : ℕ) : Proc TokenError Tokens Text := fun s =>
  (sliceStr s.source start s.position, s)

/-! ## Strings -/

/-- `u8::is_ascii_hexdigit`. -/
def isHexByte (byte : UInt8) : Bool := (Parser.hexDigit byte).isSome

/-- The loop over the digits of an escape (lines 75–80). -/
def hexDigits : ℕ → Proc TokenError Tokens Unit
  | 0 => pure ()
  | count + 1 => do
    advance 1
    let byte ← peek
    if byte.any isHexByte then hexDigits count else error "invalid unicode escape"

/-- `b'"' | b'\\' | b'/' | b'b' | b'f' | b'n' | b'r' | b't'`. -/
def isEscapeByte (byte : UInt8) : Bool := (Parser.simpleEscape byte).isSome

/-- What stands behind a backslash (lines 71–86). -/
def escape : Proc TokenError Tokens Unit := do
  match ← peek with
  | none => error "unterminated escape"
  | some escaped =>
    if escaped = 'u'.toUInt8 then hexDigits 4
    else if isEscapeByte escaped then pure ()
    else error "invalid escape"

/-- The loop of `string` (lines 59–92). -/
def stringLoop (start : ℕ) : ℕ → Proc TokenError Tokens Token
  | 0 => outOfFuel
  | fuel + 1 => do
    match ← peek with
    | none => error "unterminated string"
    | some byte =>
      if byte = '"'.toUInt8 then do
        let value ← slice start
        advance 1
        return .string value
      else if byte = '\\'.toUInt8 then do
        advance 1
        escape
        advance 1
        stringLoop start fuel
      else if byte.toNat ≤ 0x1f then error "control character in string"
      else do
        advance 1
        stringLoop start fuel

/-- The number of bytes that are left. -/
def left : Proc TokenError Tokens ℕ := fun s =>
  (.ok ((asBytes s.source).length - s.position), s)

/-- `string` (lines 55–93). -/
def string : Proc TokenError Tokens Token := do
  advance 1
  let start ← place
  let count ← left
  stringLoop start (count + 1)

/-! ## Numbers -/

/-- The number of digits at the position. -/
def digitCount : Proc TokenError Tokens ℕ := fun s =>
  (.ok (((asBytes s.source).drop s.position).takeWhile Parser.isDigitByte).length, s)

/-- `digits` (lines 124–139). -/
def digits : Proc TokenError Tokens Unit := do
  let count ← digitCount
  advance count
  if count = 0 then error "expected digit" else pure ()

/-- The part of a number before its fraction (lines 101–108). -/
def integer : Proc TokenError Tokens Unit := do
  let byte ← peek
  if byte = some '0'.toUInt8 then do
    advance 1
    let byte ← peek
    if byte.any Parser.isDigitByte then error "leading zero" else pure ()
  else digits

/-- The fraction of a number (lines 109–112). -/
def fraction : Proc TokenError Tokens Unit := do
  let byte ← peek
  if byte = some '.'.toUInt8 then do
    advance 1
    digits
  else pure ()

/-- The exponent of a number (lines 113–119). -/
def exponent : Proc TokenError Tokens Unit := do
  let byte ← peek
  if byte = some 'e'.toUInt8 ∨ byte = some 'E'.toUInt8 then do
    advance 1
    let byte ← peek
    if byte = some '+'.toUInt8 ∨ byte = some '-'.toUInt8 then do
      advance 1
      digits
    else digits
  else pure ()

/-- The sign of a number (lines 98–100). -/
def sign : Proc TokenError Tokens Unit := do
  let byte ← peek
  if byte = some '-'.toUInt8 then advance 1 else pure ()

/-- `number` (lines 95–122). -/
def number : Proc TokenError Tokens Token := do
  let start ← place
  sign
  integer
  fraction
  exponent
  let text ← slice start
  return .number text

/-! ## The iterator -/

/-- The tokens of one byte (lines 151–159). -/
def single (byte : UInt8) : Option Token :=
  if byte = '['.toUInt8 then some .arrayStart
  else if byte = ']'.toUInt8 then some .arrayEnd
  else if byte = '\x7b'.toUInt8 then some .objectStart
  else if byte = '\x7d'.toUInt8 then some .objectEnd
  else if byte = ':'.toUInt8 then some .colon
  else if byte = ','.toUInt8 then some .comma
  else none

/-- The literals (lines 170–174). -/
def literals : List (Text × Token) :=
  [(['n', 'u', 'l', 'l'], .null), (['t', 'r', 'u', 'e'], .bool true),
    (['f', 'a', 'l', 's', 'e'], .bool false)]

/-- `&self.source[self.position..]`. -/
def rest : Proc TokenError Tokens Text := fun s =>
  (sliceStr s.source s.position (asBytes s.source).length, s)

/-- The loop over the literals (lines 170–178). -/
def literal : List (Text × Token) → Proc TokenError Tokens Token
  | [] => error "unexpected JSON token"
  | (text, token) :: others => do
    let behind ← rest
    if text.isPrefixOf behind then do
      advance (asBytes text).length
      return token
    else literal others

/-- The whitespace that `next` goes past (lines 147–149). -/
def whitespace (s : Tokens) : Tokens :=
  { s with position := s.position +
      (((asBytes s.source).drop s.position).takeWhile Parser.isSpaceByte).length }

/-- `next` (lines 145–179). -/
def next (s : Tokens) : Option (Except (Fault TokenError) Token) × Tokens :=
  let s := s.whitespace
  match s.byteAt with
  | none => (none, s)
  | some byte =>
    match single byte with
    | some token => (some (.ok token), { s with position := s.position + 1 })
    | none =>
      if byte = '"'.toUInt8 then (some (string s).1, (string s).2)
      else if byte = '-'.toUInt8 ∨ Parser.isDigitByte byte = true then
        (some (number s).1, (number s).2)
      else (some (literal literals s).1, (literal literals s).2)

/-- The items of an iterator that comes to its end in less than `n` calls. -/
def collect : ℕ → Tokens → Except (Fault TokenError) (List (Except TokenError Token))
  | 0, _ => .error .unfinished
  | n + 1, s =>
    match s.next with
    | (none, _) => .ok []
    | (some (.ok token), s') => do
      let items ← collect n s'
      return .ok token :: items
    | (some (.error (.error e)), s') => do
      let items ← collect n s'
      return .error e :: items
    | (some (.error fault), _) => .error fault

end Tokens

/-! ## Where the iterator stands -/

namespace Tokens

/-- Behind a text, with another one left. -/
def behind (front t : Text) : Tokens := ⟨front ++ t, (asBytes front).length⟩

variable {front w t : Text} {c : Char}

theorem behind_append (front w t : Text) :
    (⟨front ++ (w ++ t), (asBytes (front ++ w)).length⟩ : Tokens) = behind (front ++ w) t := by
  rw [behind, List.append_assoc]

theorem drop_behind (front t : Text) :
    (asBytes (behind front t).source).drop (behind front t).position = asBytes t := by
  show (asBytes (front ++ t)).drop (asBytes front).length = _
  rw [asBytes_append, List.drop_left]

theorem byteAt_behind (front t : Text) : (behind front t).byteAt = (asBytes t).head? := by
  rw [← drop_behind front t, List.head?_drop]
  rfl

theorem byteAt_any {byte : UInt8 → Bool} {char : Char → Bool} (h : Agrees byte char)
    (front t : Text) : (behind front t).byteAt.any byte = t.head?.any char := by
  rw [byteAt_behind]
  cases t with
  | nil => rfl
  | cons c t =>
    by_cases hc : Ascii c
    · rw [asBytes_cons, utf8EncodeChar_ascii hc]
      exact h.ascii c hc
    · obtain ⟨b, bytes, hbytes, -⟩ := utf8EncodeChar_eq_cons c
      have hb := high_of_not_ascii hc (by rw [hbytes]; exact List.mem_cons_self)
      rw [asBytes_cons, hbytes]
      exact (h.high b hb).trans (h.not_ascii c hc).symm

theorem byteAt_ascii (hc : Ascii c) : (behind front (c :: t)).byteAt = some c.toUInt8 := by
  rw [byteAt_behind, asBytes_cons, utf8EncodeChar_ascii hc]
  rfl

theorem byteAt_eq_some {a : Char} (ha : Ascii a) :
    (behind front t).byteAt = some a.toUInt8 ↔ t.head? = some a := by
  rw [byteAt_behind]
  cases t with
  | nil => exact iff_of_false (fun h => nomatch h) fun h => nomatch h
  | cons c t =>
    rw [List.head?_cons, Option.some.injEq, asBytes_cons]
    by_cases hc : Ascii c
    · rw [utf8EncodeChar_ascii hc, List.singleton_append, List.head?_cons, Option.some.injEq,
        toUInt8_eq_iff ha hc]
    · obtain ⟨b, bytes, hbytes, -⟩ := utf8EncodeChar_eq_cons c
      have hb := high_of_not_ascii hc (by rw [hbytes]; exact List.mem_cons_self)
      rw [hbytes, List.cons_append, List.head?_cons, Option.some.injEq]
      exact iff_of_false (ne_of_high ha hb) fun h => hc (h ▸ ha)

theorem advance_behind (front w t : Text) :
    advance (asBytes w).length (behind front (w ++ t)) = (.ok (), behind (front ++ w) t) := by
  rw [← behind_append, asBytes_append, List.length_append]
  rfl

theorem advance_one (hc : Ascii c) (front t : Text) :
    advance 1 (behind front (c :: t)) = (.ok (), behind (front ++ [c]) t) := by
  have h := advance_behind front [c] t
  rwa [asBytes_cons, utf8EncodeChar_ascii hc] at h

theorem slice_behind (front w t : Text) :
    slice (asBytes front).length (behind (front ++ w) t) = (.ok w, behind (front ++ w) t) := by
  have h := sliceStr_append (ε := TokenError) front w t
  rw [← List.length_append, ← asBytes_append, ← List.append_assoc] at h
  show (sliceStr (front ++ w ++ t) _ (asBytes (front ++ w)).length, _) = _
  rw [h]

theorem peek_bind {β : Type} (f : Option UInt8 → Proc TokenError Tokens β) (s : Tokens) :
    (peek >>= f) s = f s.byteAt s := rfl

theorem advance_bind {β : Type} (hc : Ascii c) (f : Unit → Proc TokenError Tokens β) :
    (advance 1 >>= f) (behind front (c :: t)) = f () (behind (front ++ [c]) t) :=
  bind_ok (advance_one hc front t)

end Tokens

/-! ## The texts on which the iterator ends -/

/-- What the scan of a text is in the middle of. -/
inductive Mode
  | between
  | string
  | escape
  | unicode (missing : ℕ)
  | minus
  | zero
  | integer
  | dot
  | fraction
  | exponent
  | exponentSign
  | exponentDigits
  | literal (rest : Text)

/-- A character that a token begins with, or whitespace. -/
def begins (c : Char) : Option Mode :=
  if isSpace c then some .between
  else if c ∈ ['[', ']', '\x7b', '\x7d', ':', ','] then some .between
  else if c = '"' then some .string
  else if c = '-' then some .minus
  else if c = '0' then some .zero
  else if isDigit c then some .integer
  else if c = 'n' then some (.literal ['u', 'l', 'l'])
  else if c = 't' then some (.literal ['r', 'u', 'e'])
  else if c = 'f' then some (.literal ['a', 'l', 's', 'e'])
  else none

def isExponentMark (c : Char) : Bool := c = 'e' || c = 'E'

/-- The next character. A string or a number that it breaks is given up, and the character is read
as the first one of a token; a literal is not. -/
def Mode.step : Mode → Char → Option Mode
  | .between, c => begins c
  | .string, c =>
    if c = '"' then some .between
    else if c = '\\' then some .escape
    else if c.toNat ≤ 0x1f then begins c
    else some .string
  | .escape, c =>
    if c = 'u' then some (.unicode 4)
    else if (escapeOf c).isSome then some .string
    else begins c
  | .unicode missing, c =>
    if (hexValue c).isSome then some (if missing ≤ 1 then .string else .unicode (missing - 1))
    else begins c
  | .minus, c =>
    if c = '0' then some .zero else if isDigit c then some .integer else begins c
  | .zero, c =>
    if c = '.' then some .dot else if isExponentMark c then some .exponent else begins c
  | .integer, c =>
    if isDigit c then some .integer
    else if c = '.' then some .dot
    else if isExponentMark c then some .exponent
    else begins c
  | .dot, c => if isDigit c then some .fraction else begins c
  | .fraction, c =>
    if isDigit c then some .fraction
    else if isExponentMark c then some .exponent
    else begins c
  | .exponent, c =>
    if c = '+' ∨ c = '-' then some .exponentSign
    else if isDigit c then some .exponentDigits
    else begins c
  | .exponentSign, c => if isDigit c then some .exponentDigits else begins c
  | .exponentDigits, c => if isDigit c then some .exponentDigits else begins c
  | .literal [], _ => none
  | .literal (d :: rest), c =>
    if c = d then some (if rest = [] then .between else .literal rest) else none

/-- The scan of a text never comes to a character that it cannot go past: behind each token, and
where a string or a number breaks, there is whitespace, the beginning of a token or the end. -/
def scans : Mode → Text → Bool
  | .literal _, [] => false
  | _, [] => true
  | mode, c :: t =>
    match mode.step c with
    | none => false
    | some mode => scans mode t

theorem scans_eq (mode : Mode) (c : Char) (t : Text) : scans mode (c :: t) =
    match mode.step c with
    | none => false
    | some mode => scans mode t := by
  cases mode <;> rfl

theorem scans_cons {mode next : Mode} {c : Char} (h : mode.step c = some next) (t : Text) :
    scans mode (c :: t) = scans next t := by
  rw [scans_eq, h]

/-- Where a string or a number breaks the scan begins anew. -/
theorem scans_restart {mode : Mode} {c : Char} (h : mode.step c = begins c) (t : Text) :
    scans mode (c :: t) = scans .between (c :: t) := by
  rw [scans_eq, scans_eq, h]
  rfl

/-! ## Runs of the scanner -/

namespace Tokens

variable {α β : Type} {front w t : Text} {mode mid after : Mode}

/-- A part of the scanner goes over a part of the text, as the scan does, and returns with what is
left of it in `Q`, or it gives an error where the scan begins anew. -/
def Goes (mode after : Mode) (Q : Text → Prop) (front t : Text)
    (result : Except (Fault TokenError) α × Tokens) : Prop :=
  ∃ w t', t = w ++ t' ∧ result.2 = behind (front ++ w) t' ∧
    ((∃ a, result.1 = .ok a) ∧ Q t' ∧ scans mode t = scans after t' ∨
      (∃ e, result.1 = .error (.error e)) ∧ scans mode t = scans .between t')

variable {Q R : Text → Prop}

theorem Goes.ok {a : α} (hQ : Q t) (h : scans mode t = scans after t) :
    Goes mode after Q front t (.ok a, behind front t) :=
  ⟨[], t, rfl, by rw [List.append_nil], .inl ⟨⟨a, rfl⟩, hQ, h⟩⟩

theorem Goes.error {message : String} (h : scans mode t = scans .between t) :
    Goes mode after Q front t (error (α := α) message (behind front t)) :=
  ⟨[], t, rfl, by rw [List.append_nil]; rfl, .inr ⟨⟨_, rfl⟩, h⟩⟩

/-- A character that is gone past. -/
theorem Goes.cons {c : Char} {result : Except (Fault TokenError) α × Tokens}
    (hstep : scans mode (c :: t) = scans mid t) (h : Goes mid after Q (front ++ [c]) t result) :
    Goes mode after Q front (c :: t) result := by
  obtain ⟨w, t', rfl, hstate, hresult⟩ := h
  refine ⟨c :: w, t', rfl, ?_, ?_⟩
  · rw [hstate, List.append_assoc]
    rfl
  · rwa [hstep]

theorem Goes.imp {result : Except (Fault TokenError) α × Tokens}
    (h : Goes mode after Q front t result)
    (hQ : ∀ t', Q t' → R t' ∧ scans after t' = scans mid t') :
    Goes mode mid R front t result := by
  obtain ⟨w, t', rfl, hstate, ⟨ha, hq, hscans⟩ | herror⟩ := h
  · exact ⟨w, t', rfl, hstate, .inl ⟨ha, (hQ t' hq).1, hscans.trans (hQ t' hq).2⟩⟩
  · exact ⟨w, t', rfl, hstate, .inr herror⟩

/-- One part behind another. -/
theorem Goes.bind {m : Proc TokenError Tokens α} {f : α → Proc TokenError Tokens β} {s : Tokens}
    (hm : Goes mode mid Q front t (m s))
    (hf : ∀ a w t', t = w ++ t' → Q t' →
      Goes mid after R (front ++ w) t' (f a (behind (front ++ w) t'))) :
    Goes mode after R front t ((m >>= f) s) := by
  obtain ⟨w, t', rfl, hstate, ⟨⟨a, ha⟩, hq, hscans⟩ | ⟨⟨e, he⟩, hscans⟩⟩ := hm
  · rw [Proc.bind_ok (Prod.ext ha hstate)]
    obtain ⟨w', t'', rfl, hstate', hresult⟩ := hf a w t' rfl hq
    refine ⟨w ++ w', t'', (List.append_assoc _ _ _).symm, hstate'.trans ?_, ?_⟩
    · rw [List.append_assoc]
    · rwa [hscans]
  · rw [Proc.bind_error (Prod.ext he hstate)]
    exact ⟨w, t', rfl, rfl, .inr ⟨⟨e, rfl⟩, hscans⟩⟩

/-! ### Strings -/

theorem agrees_hex : Agrees isHexByte fun c => (hexValue c).isSome where
  ascii c hc := by rw [isHexByte, Parser.hexDigit_ascii hc]
  high b hb := by rw [isHexByte, Parser.hexDigit_high hb]; rfl
  not_ascii c hc := by rw [Parser.hexValue_not_ascii hc]; rfl

/-- The digits of an escape behind the character in front of them. -/
theorem goes_hexDigits (n : ℕ) {c : Char} (hc : Ascii c)
    (hstep : scans mode (c :: t) = scans (if n = 0 then .string else .unicode n) t) :
    Goes mode .string (fun _ => True) front (c :: t)
      ((hexDigits n >>= fun _ => advance 1) (behind front (c :: t))) := by
  induction n generalizing c t mode front with
  | zero =>
    show Goes _ _ _ _ _ (advance 1 _)
    rw [advance_one hc]
    exact .cons hstep (.ok trivial rfl)
  | succ n ih =>
    rw [if_neg (Nat.succ_ne_zero n)] at hstep
    rw [hexDigits, Proc.bind_assoc, advance_bind hc, Proc.bind_assoc, peek_bind,
      byteAt_any agrees_hex]
    refine .cons hstep ?_
    cases t with
    | nil => exact .error rfl
    | cons d t =>
      rw [List.head?_cons, Option.any_some]
      split_ifs with hhex
      · have hd : Ascii d := by
          by_contra hd
          rw [agrees_hex.not_ascii d hd] at hhex
          exact nomatch hhex
        refine ih hd (scans_cons ?_ t)
        rw [Mode.step, if_pos hhex]
        cases n <;> rfl
      · refine Goes.error (scans_restart ?_ t)
        rw [Mode.step, if_neg hhex]

/-- What stands behind a backslash. -/
theorem goes_escape (front t : Text) : Goes .escape .string (fun _ => True) front t
    ((escape >>= fun _ => advance 1) (behind front t)) := by
  rw [escape, Proc.bind_assoc, peek_bind, byteAt_behind]
  cases t with
  | nil => exact .error rfl
  | cons c t =>
    by_cases hc : Ascii c
    · rw [asBytes_cons, utf8EncodeChar_ascii hc, List.singleton_append, List.head?_cons]
      dsimp only
      have hu : c.toUInt8 = 'u'.toUInt8 ↔ c = 'u' := toUInt8_eq_iff (by decide) hc
      have hsimple : isEscapeByte c.toUInt8 = (escapeOf c).isSome := by
        rw [isEscapeByte, Parser.simpleEscape_ascii hc]
      rw [hsimple]
      split_ifs with h h'
      · refine goes_hexDigits 4 hc (scans_cons ?_ t)
        rw [Mode.step, if_pos (hu.mp h)]
        rfl
      · show Goes _ _ _ _ _ (advance 1 _)
        rw [advance_one hc]
        refine .cons (scans_cons ?_ t) (.ok trivial rfl)
        rw [Mode.step, if_neg (mt hu.mpr h), if_pos h']
      · refine Goes.error (scans_restart ?_ t)
        rw [Mode.step, if_neg (mt hu.mpr h), if_neg h']
    · -- a byte that is not ASCII is no escape
      obtain ⟨b, bytes, hbytes, -⟩ := utf8EncodeChar_eq_cons c
      have hb := high_of_not_ascii hc (by rw [hbytes]; exact List.mem_cons_self)
      have hsimple : isEscapeByte b = false := by
        rw [isEscapeByte, Parser.simpleEscape_high hb]
        rfl
      have hnone : escapeOf c = none := by
        cases h : escapeOf c with
        | none => rfl
        | some d => exact absurd (escapeOf_ascii h).1 hc
      rw [asBytes_cons, hbytes, List.cons_append, List.head?_cons]
      dsimp only
      rw [if_neg (ne_of_high (by decide) hb), hsimple, if_neg Bool.false_ne_true]
      refine Goes.error (scans_restart ?_ t)
      rw [Mode.step, if_neg (fun h : c = 'u' => hc (h ▸ by decide)), hnone]
      rfl

/-- The loop goes past the bytes of a character that is not ASCII. -/
theorem stringLoop_high (start fuel : ℕ) (high : List UInt8) (s : Tokens)
    (hdrop : high <+: (asBytes s.source).drop s.position) (hhigh : ∀ b ∈ high, 0x80 ≤ b.toNat) :
    stringLoop start (fuel + high.length) s =
      stringLoop start fuel ⟨s.source, s.position + high.length⟩ := by
  induction high generalizing s with
  | nil => rfl
  | cons b high ih =>
    obtain ⟨hb, hhigh⟩ := List.forall_mem_cons.mp hhigh
    obtain ⟨tail, htail⟩ := hdrop
    have hbyte : s.byteAt = some b := by
      rw [byteAt, ← Nat.add_zero s.position, ← List.getElem?_drop, ← htail]
      rfl
    have hnext : high <+: (asBytes s.source).drop (s.position + 1) := by
      refine ⟨tail, ?_⟩
      rw [← List.drop_drop, ← htail]
      rfl
    have hstep : stringLoop start (fuel + high.length + 1) s =
        stringLoop start (fuel + high.length) ⟨s.source, s.position + 1⟩ := by
      rw [stringLoop, peek_bind, hbyte]
      dsimp only
      rw [if_neg (ne_of_high (by decide) hb), if_neg (ne_of_high (by decide) hb),
        if_neg (by omega)]
      rfl
    rw [List.length_cons, ← Nat.add_assoc, hstep, ih _ hnext hhigh, Nat.add_assoc,
      Nat.add_comm 1]

/-- **Run lemma.** The rest of a string. -/
theorem goes_stringLoop (first body t : Text) (fuel : ℕ) (hfuel : (asBytes t).length < fuel) :
    Goes .string .between (fun _ => True) (first ++ body) t
      (stringLoop (asBytes first).length fuel (behind (first ++ body) t)) := by
  induction fuel using Nat.strong_induction_on generalizing body t with
  | _ n ih =>
  obtain ⟨fuel, rfl⟩ := Nat.exists_eq_succ_of_ne_zero (Nat.ne_zero_of_lt hfuel)
  cases t with
  | nil =>
    rw [stringLoop, peek_bind, byteAt_behind]
    exact .error rfl
  | cons c t =>
    have hlist (w : Text) : (first ++ body) ++ w = first ++ (body ++ w) := List.append_assoc _ _ _
    by_cases hc : Ascii c
    · rw [asBytes_cons, utf8EncodeChar_ascii hc, List.singleton_append, List.length_cons] at hfuel
      rw [stringLoop, peek_bind, byteAt_ascii hc]
      dsimp only
      rw [toUInt8_toNat hc]
      have hquote : c.toUInt8 = '"'.toUInt8 ↔ c = '"' := toUInt8_eq_iff (by decide) hc
      have hescape : c.toUInt8 = '\\'.toUInt8 ↔ c = '\\' := toUInt8_eq_iff (by decide) hc
      split_ifs with h1 h2 h3
      · rw [Proc.bind_ok (slice_behind first body (c :: t)), advance_bind hc]
        refine .cons (scans_cons ?_ t) (.ok trivial rfl)
        rw [Mode.step, if_pos (hquote.mp h1)]
      · rw [advance_bind hc]
        have hstep : Mode.string.step c = some .escape := by
          rw [Mode.step, if_neg (mt hquote.mpr h1), if_pos (hescape.mp h2)]
        rw [← Proc.bind_assoc escape]
        refine .cons (scans_cons hstep t) (Goes.bind (goes_escape _ t) fun _ w t' heq _ => ?_)
        subst heq
        rw [asBytes_append, List.length_append] at hfuel
        have h := ih fuel (Nat.lt_succ_self _) (body ++ ([c] ++ w)) t' (by omega)
        rwa [← hlist, ← List.append_assoc] at h
      · refine Goes.error (scans_restart ?_ t)
        rw [Mode.step, if_neg (mt hquote.mpr h1), if_neg (mt hescape.mpr h2), if_pos h3]
      · rw [advance_bind hc]
        have hstep : Mode.string.step c = some .string := by
          rw [Mode.step, if_neg (mt hquote.mpr h1), if_neg (mt hescape.mpr h2), if_neg h3]
        refine .cons (scans_cons hstep t) ?_
        rw [hlist]
        exact ih fuel (Nat.lt_succ_self _) (body ++ [c]) t (by omega)
    · -- all the bytes of the character
      rw [asBytes_cons, List.length_append] at hfuel
      have hfuel' : fuel.succ = (fuel + 1 - (String.utf8EncodeChar c).length) +
          (String.utf8EncodeChar c).length := by omega
      have hplace : (⟨(behind (first ++ body) (c :: t)).source,
          (behind (first ++ body) (c :: t)).position + (String.utf8EncodeChar c).length⟩ : Tokens) =
          behind (first ++ (body ++ [c])) t := by
        have h := congrArg Prod.snd (advance_behind (first ++ body) [c] t)
        rw [List.append_assoc first] at h
        have hone : asBytes [c] = String.utf8EncodeChar c := List.append_nil _
        rw [hone] at h
        exact h
      have hpos := String.utf8EncodeChar_ne_nil (c := c)
      have hne (a : Char) (ha : Ascii a) : c ≠ a := fun h => hc (h ▸ ha)
      have hcontrol : ¬c.toNat ≤ 0x1f := fun h => hc (Nat.le_trans h (by decide))
      rw [hfuel', stringLoop_high _ _ _ _ (by
        rw [drop_behind, asBytes_cons]
        exact List.prefix_append _ _) fun b hb => high_of_not_ascii hc hb, hplace]
      have hstep : Mode.string.step c = some .string := by
        rw [Mode.step, if_neg (hne _ (by decide)), if_neg (hne _ (by decide)), if_neg hcontrol]
      have hlt := List.length_pos_iff.mpr hpos
      refine .cons (scans_cons hstep t) ?_
      rw [hlist]
      exact ih _ (by omega) (body ++ [c]) t (by omega)

/-- A string from its quote on. -/
theorem goes_string (front t : Text) : Goes .string .between (fun _ => True) (front ++ ['"']) t
    (string (behind front ('"' :: t))) := by
  have hleft : (asBytes (front ++ ['"'] ++ t)).length - (asBytes (front ++ ['"'])).length =
      (asBytes t).length := by
    rw [asBytes_append, List.length_append, Nat.add_sub_cancel_left]
  have h := goes_stringLoop (front ++ ['"']) [] t ((asBytes t).length + 1) (Nat.lt_succ_self _)
  rw [List.append_nil] at h
  rw [string, advance_bind (by decide)]
  show Goes _ _ _ _ _ (stringLoop (asBytes (front ++ ['"'])).length
    ((asBytes (front ++ ['"'] ++ t)).length - (asBytes (front ++ ['"'])).length + 1) _)
  rw [hleft]
  exact h

/-! ### Numbers -/

/-- What is left does not begin with a digit. -/
def NoDigit (t : Text) : Prop := t.head?.any isDigit = false

/-- The digits at the position. -/
theorem digits_eq {run : Text} (hrun : ∀ c ∈ run, isDigit c = true) (hrest : NoDigit t)
    (front : Text) : digits (behind front (run ++ t)) =
      (if run = [] then error "expected digit" else pure ()) (behind (front ++ run) t) := by
  have htake : (asBytes (run ++ t)).takeWhile Parser.isDigitByte = asBytes run := by
    rw [agrees_digit.takeWhile, takeWhile_append hrun fun c hc => ?_]
    rw [NoDigit, Option.mem_def.mp hc] at hrest
    exact hrest
  have hcount : digitCount (behind front (run ++ t)) =
      (.ok (asBytes run).length, behind front (run ++ t)) := by
    rw [digitCount, drop_behind, htake]
  have hzero : (asBytes run).length = 0 ↔ run = [] := by
    rw [List.length_eq_zero_iff]
    constructor
    · intro h
      exact asBytes_injective (h.trans asBytes_nil.symm)
    · rintro rfl
      rfl
  rw [digits, Proc.bind_ok hcount, Proc.bind_ok (advance_behind front run t)]
  simp only [hzero]

theorem scans_digits (hmore : ∀ c, isDigit c = true → mode.step c = some mode) {run : Text}
    (hrun : ∀ c ∈ run, isDigit c = true) (t : Text) : scans mode (run ++ t) = scans mode t := by
  induction run with
  | nil => rfl
  | cons c run ih =>
    obtain ⟨hc, hrun⟩ := List.forall_mem_cons.mp hrun
    rw [List.cons_append, scans_cons (hmore c hc), ih hrun]

/-- Digits of a number behind the first one. -/
theorem goes_digits_cons {c : Char} (hc : isDigit c = true)
    (hmore : ∀ c, isDigit c = true → mode.step c = some mode) (front t : Text) :
    Goes mode mode NoDigit (front ++ [c]) t (digits (behind front (c :: t))) := by
  obtain ⟨run, rest, rfl, hrun, hrest⟩ : ∃ run rest, t = run ++ rest ∧
      (∀ c ∈ run, isDigit c = true) ∧ NoDigit rest :=
    ⟨_, _, (List.takeWhile_append_dropWhile (p := isDigit)).symm,
      fun _ h => List.mem_takeWhile_imp h, head?_dropWhile _⟩
  have hall : ∀ d ∈ c :: run, isDigit d = true := List.forall_mem_cons.mpr ⟨hc, hrun⟩
  rw [← List.cons_append, digits_eq hall hrest, if_neg (List.cons_ne_nil c run)]
  refine ⟨run, rest, rfl, ?_, .inl ⟨⟨(), rfl⟩, hrest, scans_digits hmore hrun rest⟩⟩
  rw [List.append_assoc]
  rfl

theorem digits_error (h : NoDigit t) (front : Text) :
    digits (behind front t) = error "expected digit" (behind front t) := by
  have hdigits := digits_eq (List.forall_mem_nil _) h front
  rwa [List.nil_append, List.append_nil, if_pos rfl] at hdigits

/-- Digits of a number, in a mode that waits for them. -/
theorem goes_digits (hfirst : ∀ c, isDigit c = true → mode.step c = some after)
    (hmore : ∀ c, isDigit c = true → after.step c = some after)
    (helse : NoDigit t → scans mode t = scans .between t) (front : Text) :
    Goes mode after NoDigit front t (digits (behind front t)) := by
  by_cases h : NoDigit t
  · rw [digits_error h]
    exact .error (helse h)
  · cases t with
    | nil => exact absurd rfl h
    | cons c t =>
      have hc : isDigit c = true := Bool.not_eq_false _ ▸ h
      exact .cons (scans_cons (hfirst c hc) t) (goes_digits_cons hc hmore front t)

theorem scans_of_noDigit (hstep : ∀ c ∈ t.head?, isDigit c = false → mode.step c = begins c)
    (hnil : scans mode [] = true) (h : NoDigit t) : scans mode t = scans .between t := by
  cases t with
  | nil => exact hnil
  | cons c t => exact scans_restart (hstep c rfl h) t

theorem ne_of_isDigit {c : Char} (hc : isDigit c = true) {a : Char} (ha : isDigit a = false) :
    c ≠ a := by
  rintro rfl
  rw [ha] at hc
  exact nomatch hc

theorem ascii_of_isDigit {c : Char} (hc : isDigit c = true) : Ascii c := by
  by_contra h
  rw [agrees_digit.not_ascii c h] at hc
  exact nomatch hc

/-- A number behind its first digit, up to its fraction. -/
theorem goes_integer_digit {c : Char} (hc : isDigit c = true) (front t : Text) :
    Goes (if c = '0' then .zero else .integer) .integer NoDigit (front ++ [c]) t
      (integer (behind front (c :: t))) := by
  have hascii := ascii_of_isDigit hc
  rw [integer, peek_bind, byteAt_ascii hascii]
  simp only [Option.some.injEq, toUInt8_eq_iff (show Ascii '0' by decide) hascii]
  split_ifs with hzero
  · rw [advance_bind hascii, peek_bind, byteAt_any agrees_digit]
    cases t with
    | nil => exact .ok rfl rfl
    | cons d t =>
      rw [List.head?_cons, Option.any_some]
      split_ifs with hd
      · refine Goes.error (scans_restart ?_ t)
        rw [Mode.step, if_neg (ne_of_isDigit hd (by decide)), isExponentMark, if_neg]
        simp only [ne_of_isDigit hd (show isDigit 'e' = false by decide),
          ne_of_isDigit hd (show isDigit 'E' = false by decide)]
        decide
      · refine Goes.ok (Bool.eq_false_iff.mpr hd) ?_
        rw [scans_eq, scans_eq, Mode.step, Mode.step, if_neg hd]
  · refine goes_digits_cons hc (fun d hd => ?_) front t
    rw [Mode.step, if_pos hd]

/-- A number behind its sign, up to its fraction. -/
theorem goes_integer (front t : Text) :
    Goes .minus .integer NoDigit front t (integer (behind front t)) := by
  by_cases h : NoDigit t
  · have hzero : ¬(behind front t).byteAt = some '0'.toUInt8 := by
      rw [byteAt_eq_some (by decide)]
      intro hhead
      rw [NoDigit, hhead] at h
      exact absurd h (by decide)
    rw [integer, peek_bind, if_neg hzero, digits_error h]
    refine .error ?_
    cases t with
    | nil => rfl
    | cons c t =>
      refine scans_restart ?_ t
      have hc : isDigit c = false := h
      rw [Mode.step, if_neg (by rintro rfl; exact absurd hc (by decide)),
        if_neg (by rw [hc]; exact Bool.false_ne_true)]
  · cases t with
    | nil => exact absurd rfl h
    | cons c t =>
      have hc : isDigit c = true := Bool.not_eq_false _ ▸ h
      refine .cons (scans_cons ?_ t) (goes_integer_digit hc front t)
      rw [Mode.step]
      split_ifs <;> rfl

theorem dot_digit (c : Char) (hc : isDigit c = true) : Mode.dot.step c = some .fraction := if_pos hc

theorem dot_noDigit (c : Char) (hc : isDigit c = false) : Mode.dot.step c = begins c :=
  if_neg (Bool.eq_false_iff.mp hc)

theorem fraction_digit (c : Char) (hc : isDigit c = true) : Mode.fraction.step c = some .fraction :=
  if_pos hc

theorem exponentSign_digit (c : Char) (hc : isDigit c = true) :
    Mode.exponentSign.step c = some .exponentDigits := if_pos hc

theorem exponentSign_noDigit (c : Char) (hc : isDigit c = false) :
    Mode.exponentSign.step c = begins c := if_neg (Bool.eq_false_iff.mp hc)

theorem exponentDigits_digit (c : Char) (hc : isDigit c = true) :
    Mode.exponentDigits.step c = some .exponentDigits := if_pos hc

theorem exponentDigits_noDigit (c : Char) (hc : isDigit c = false) :
    Mode.exponentDigits.step c = begins c := if_neg (Bool.eq_false_iff.mp hc)

/-- The fraction of a number. -/
theorem goes_fraction (h : NoDigit t) (front : Text) :
    Goes .integer .fraction NoDigit front t (fraction (behind front t)) := by
  rw [fraction, peek_bind]
  simp only [byteAt_eq_some (show Ascii '.' by decide)]
  split_ifs with hdot
  · obtain ⟨t, rfl⟩ := List.head?_eq_some_iff.mp hdot
    rw [advance_bind (by decide)]
    have hstep : Mode.integer.step '.' = some .dot := rfl
    exact .cons (scans_cons hstep t) (goes_digits dot_digit fraction_digit
      (scans_of_noDigit (fun c _ => dot_noDigit c) rfl) _)
  · refine Goes.ok h ?_
    cases t with
    | nil => rfl
    | cons c t =>
      have hc : c ≠ '.' := fun heq => hdot (congrArg some heq)
      have hdigit : ¬isDigit c = true := Bool.eq_false_iff.mp h
      rw [scans_eq, scans_eq, Mode.step, Mode.step, if_neg hdigit, if_neg hdigit, if_neg hc]

/-- The digits of an exponent. -/
theorem goes_exponentDigits (hfirst : ∀ c, isDigit c = true → mode.step c = some .exponentDigits)
    (helse : NoDigit t → scans mode t = scans .between t) (front : Text) :
    Goes mode .between (fun _ => True) front t (digits (behind front t)) := by
  refine (goes_digits hfirst exponentDigits_digit helse front).imp fun t' hno => ⟨trivial, ?_⟩
  exact scans_of_noDigit (fun c _ => exponentDigits_noDigit c) rfl hno

/-- The exponent of a number. -/
theorem goes_exponent (h : NoDigit t) (front : Text) :
    Goes .fraction .between (fun _ => True) front t (exponent (behind front t)) := by
  rw [exponent, peek_bind]
  simp only [byteAt_eq_some (show Ascii 'e' by decide), byteAt_eq_some (show Ascii 'E' by decide)]
  split_ifs with hmark
  · obtain ⟨e, t, rfl, he, hascii⟩ : ∃ e t', t = e :: t' ∧ isExponentMark e = true ∧ Ascii e := by
      obtain hmark | hmark := hmark
      · obtain ⟨t', rfl⟩ := List.head?_eq_some_iff.mp hmark
        exact ⟨'e', t', rfl, by decide, by decide⟩
      · obtain ⟨t', rfl⟩ := List.head?_eq_some_iff.mp hmark
        exact ⟨'E', t', rfl, by decide, by decide⟩
    have hdigit : ¬isDigit e = true := Bool.eq_false_iff.mp h
    rw [advance_bind hascii, peek_bind]
    have hstep : Mode.fraction.step e = some .exponent := by
      rw [Mode.step, if_neg hdigit, if_pos he]
    refine .cons (scans_cons hstep t) ?_
    simp only [byteAt_eq_some (show Ascii '+' by decide), byteAt_eq_some (show Ascii '-' by decide)]
    split_ifs with hsign
    · obtain ⟨d, t, rfl, hd, hascii⟩ : ∃ d t', t = d :: t' ∧ (d = '+' ∨ d = '-') ∧ Ascii d := by
        obtain hsign | hsign := hsign
        · obtain ⟨t', rfl⟩ := List.head?_eq_some_iff.mp hsign
          exact ⟨'+', t', rfl, .inl rfl, by decide⟩
        · obtain ⟨t', rfl⟩ := List.head?_eq_some_iff.mp hsign
          exact ⟨'-', t', rfl, .inr rfl, by decide⟩
      rw [advance_bind hascii]
      have hstep : Mode.exponent.step d = some .exponentSign := if_pos hd
      exact .cons (scans_cons hstep t) (goes_exponentDigits exponentSign_digit
        (scans_of_noDigit (fun c _ => exponentSign_noDigit c) rfl) _)
    · refine goes_exponentDigits (fun c hc => ?_) (fun hno => ?_) _
      · rw [Mode.step, if_neg, if_pos hc]
        rintro (rfl | rfl) <;> exact absurd hc (by decide)
      · refine scans_of_noDigit (fun c hc hdigit => ?_) rfl hno
        rw [Mode.step, if_neg, if_neg (Bool.eq_false_iff.mp hdigit)]
        rintro (rfl | rfl)
        · exact hsign (.inl hc)
        · exact hsign (.inr hc)
  · refine Goes.ok trivial (scans_of_noDigit (fun c hc hdigit => ?_) rfl h)
    rw [Mode.step, if_neg (Bool.eq_false_iff.mp hdigit), if_neg]
    rw [isExponentMark, Bool.or_eq_true, decide_eq_true_eq, decide_eq_true_eq]
    rintro (rfl | rfl)
    · exact hmark (.inl hc)
    · exact hmark (.inr hc)

theorem goes_slice (first w t : Text) {f : Text → Proc TokenError Tokens β} {b : Text → β}
    (hf : ∀ text, f text = pure (b text)) : Goes .between .between (fun _ => True) (first ++ w) t
      ((slice (asBytes first).length >>= f) (behind (first ++ w) t)) := by
  rw [Proc.bind_ok (slice_behind first w t), hf]
  exact .ok trivial rfl

/-- A number behind its sign. -/
theorem goes_afterSign (first w t : Text) {s : Tokens}
    (h : Goes mode .integer NoDigit (first ++ w) t (integer s)) :
    Goes mode .between (fun _ => True) (first ++ w) t ((do
      integer
      fraction
      exponent
      let text ← slice (asBytes first).length
      return .number text : Proc TokenError Tokens Token) s) := by
  refine h.bind fun _ w₁ t₁ _ hno => (goes_fraction hno _).bind fun _ w₂ t₂ _ hno =>
    (goes_exponent hno _).bind fun _ w₃ t₃ _ _ => ?_
  rw [List.append_assoc first, List.append_assoc first, List.append_assoc first]
  exact goes_slice first _ t₃ fun _ => rfl

/-- A number from its sign or its first digit on. -/
theorem goes_number {c : Char} (hc : c = '-' ∨ isDigit c = true) (front t : Text)
    (hstep : begins c = some mode) : Goes mode .between (fun _ => True) (front ++ [c]) t
      (number (behind front (c :: t))) := by
  show Goes _ _ _ _ _ ((sign >>= fun _ => (do
    integer
    fraction
    exponent
    let text ← slice (asBytes front).length
    return .number text : Proc TokenError Tokens Token)) (behind front (c :: t)))
  obtain rfl | hdigit := hc
  · cases hstep
    have hsign : sign (behind front ('-' :: t)) = (.ok (), behind (front ++ ['-']) t) := by
      rw [sign, peek_bind, byteAt_ascii (by decide), if_pos rfl, advance_one (by decide)]
    rw [Proc.bind_ok hsign]
    exact goes_afterSign front ['-'] t (goes_integer _ t)
  · have hascii := ascii_of_isDigit hdigit
    have hne : c ≠ '-' := ne_of_isDigit hdigit (by decide)
    have hsign : sign (behind front (c :: t)) = (.ok (), behind front (c :: t)) := by
      rw [sign, peek_bind, byteAt_ascii hascii, if_neg]
      · rfl
      · rw [Option.some.injEq, toUInt8_eq_iff (by decide) hascii]
        exact hne
    have hmode : mode = if c = '0' then .zero else .integer := by
      have hmem : c ∉ ['[', ']', '\x7b', '\x7d', ':', ','] := by
        intro hmem
        simp only [List.mem_cons, List.not_mem_nil, or_false] at hmem
        obtain rfl | rfl | rfl | rfl | rfl | rfl := hmem <;> exact absurd hdigit (by decide)
      have hspace : ¬isSpace c = true := by
        intro h
        simp only [isSpace, Bool.or_eq_true, decide_eq_true_eq] at h
        obtain ((rfl | rfl) | rfl) | rfl := h <;> exact absurd hdigit (by decide)
      rw [begins, if_neg hspace, if_neg hmem, if_neg (ne_of_isDigit hdigit (by decide)),
        if_neg hne, if_pos hdigit] at hstep
      split_ifs at hstep ⊢ <;> exact (Option.some.inj hstep).symm
    subst hmode
    rw [Proc.bind_ok hsign]
    exact goes_afterSign front [c] t (goes_integer_digit hdigit front t)

/-! ### Literals -/

theorem scans_literal {r : Text} (hr : r ≠ []) (t : Text) :
    scans (.literal r) (r ++ t) = scans .between t := by
  induction r with
  | nil => exact absurd rfl hr
  | cons d r ih =>
    rw [List.cons_append, scans_eq, Mode.step, if_pos rfl]
    cases r with
    | nil => rfl
    | cons d' r => exact ih (List.cons_ne_nil _ _)

theorem scans_literal_false {r : Text} (h : ¬r <+: t) : scans (.literal r) t = false := by
  induction t generalizing r with
  | nil => rfl
  | cons c t ih =>
    cases r with
    | nil => rfl
    | cons d r =>
      rw [scans_eq, Mode.step]
      split_ifs with hc hr
      · subst hr
        exact absurd (List.cons_prefix_cons.mpr ⟨hc.symm, List.nil_prefix⟩) h
      · exact ih fun hprefix => h (List.cons_prefix_cons.mpr ⟨hc.symm, hprefix⟩)
      · rfl

/-- The literal that stands at the position. -/
theorem literal_eq (pairs : List (Text × Token)) (front t : Text) :
    literal pairs (behind front t) =
      match pairs.find? fun pair => pair.1.isPrefixOf t with
      | some (text, token) => (.ok token, behind (front ++ text) (t.drop text.length))
      | none => error "unexpected JSON token" (behind front t) := by
  have hrest : rest (behind front t) = (.ok t, behind front t) := by
    have h := sliceStr_append (ε := TokenError) front t []
    rw [List.append_nil, ← List.length_append, ← asBytes_append] at h
    show (sliceStr (front ++ t) (asBytes front).length (asBytes (front ++ t)).length, _) = _
    rw [h]
  induction pairs with
  | nil => rfl
  | cons pair pairs ih =>
    obtain ⟨text, token⟩ := pair
    rw [literal, Proc.bind_ok hrest]
    cases hprefix : text.isPrefixOf t with
    | true =>
      obtain ⟨t, rfl⟩ := List.isPrefixOf_iff_prefix.mp hprefix
      rw [if_pos rfl, Proc.bind_ok (advance_behind front text t)]
      simp only [List.find?_cons, hprefix, List.drop_left]
      rfl
    | false =>
      rw [if_neg Bool.false_ne_true, ih]
      simp only [List.find?_cons, hprefix]

/-! ### Calls of `next` -/

/-- Whitespace is gone past first. -/
theorem next_space {space : Text} (hspace : Space space)
    (ht : t.head?.any isSpace = false) (front : Text) :
    (behind front (space ++ t)).next = (behind (front ++ space) t).next := by
  have hwhitespace {front space : Text} (hspace : Space space) :
      (behind front (space ++ t)).whitespace = behind (front ++ space) t := by
    rw [whitespace, drop_behind, agrees_space.takeWhile, takeWhile_append hspace fun c hc => ?_]
    · exact congrArg Prod.snd (advance_behind front space t)
    · rw [Option.mem_def.mp hc] at ht
      exact ht
  have hnone : (behind (front ++ space) t).whitespace = behind (front ++ space) t := by
    have h := @hwhitespace (front ++ space) [] fun _ h => nomatch h
    rwa [List.nil_append, List.append_nil] at h
  rw [next, next, hwhitespace hspace, hnone]

/-- A call goes past a part of the text, as the scan does, with a token or an error. -/
def Proceeds (front t : Text) (result : Option (Except (Fault TokenError) Token) × Tokens) : Prop :=
  ((∃ token, result.1 = some (.ok token)) ∨ ∃ e, result.1 = some (.error (.error e))) ∧
    ∃ w t', w ≠ [] ∧ t = w ++ t' ∧ result.2 = behind (front ++ w) t' ∧
      scans .between t = scans .between t'

/-- A call gives an error and leaves the iterator in front of the character it cannot go past. -/
def Stuck (t : Text) (result : Option (Except (Fault TokenError) Token) × Tokens) : Prop :=
  (∃ e, result.1 = some (.error (.error e))) ∧ result.2.next = result ∧ scans .between t = false

theorem Goes.proceeds {c : Char} {Q : Text → Prop}
    {result : Except (Fault TokenError) Token × Tokens}
    (h : Goes mode .between Q (front ++ [c]) t result) (hstep : begins c = some mode) :
    Proceeds front (c :: t) (some result.1, result.2) := by
  obtain ⟨w, t', rfl, hstate, hresult⟩ := h
  refine ⟨?_, c :: w, t', List.cons_ne_nil _ _, rfl, ?_, ?_⟩
  · obtain ⟨⟨a, ha⟩, -⟩ | ⟨⟨e, he⟩, -⟩ := hresult
    · exact .inl ⟨a, congrArg some ha⟩
    · exact .inr ⟨e, congrArg some he⟩
  · show result.2 = _
    rw [hstate, List.append_assoc]
    rfl
  · have hcons : Mode.between.step c = some mode := hstep
    rw [scans_cons hcons]
    obtain ⟨-, -, hscans⟩ | ⟨-, hscans⟩ := hresult <;> exact hscans

/-- A text that begins with a literal, or with none of them. -/
theorem literals_cases {c : Char} (t : Text) (hbegins : begins c = if c = 'n' then
    some (.literal ['u', 'l', 'l']) else if c = 't' then some (.literal ['r', 'u', 'e'])
    else if c = 'f' then some (.literal ['a', 'l', 's', 'e']) else none) :
    (∃ text token rest, text ≠ [] ∧ c :: t = text ++ rest ∧
      (literals.find? fun pair => pair.1.isPrefixOf (c :: t)) = some (text, token) ∧
      scans .between (c :: t) = scans .between rest) ∨
    (literals.find? fun pair => pair.1.isPrefixOf (c :: t)) = none ∧
      scans .between (c :: t) = false := by
  have hstep : Mode.between.step c = begins c := rfl
  have hcase (r : Text) (token : Token) (hr : r ≠ []) (hmode : begins c = some (.literal r))
      (hfind : (literals.find? fun pair => pair.1.isPrefixOf (c :: t)) =
        if r.isPrefixOf t then some (c :: r, token) else none) :
      (∃ text token rest, text ≠ [] ∧ c :: t = text ++ rest ∧
        (literals.find? fun pair => pair.1.isPrefixOf (c :: t)) = some (text, token) ∧
        scans .between (c :: t) = scans .between rest) ∨
      (literals.find? fun pair => pair.1.isPrefixOf (c :: t)) = none ∧
        scans .between (c :: t) = false := by
    rw [scans_cons (hstep.trans hmode), hfind]
    split_ifs with hprefix
    · obtain ⟨rest, rfl⟩ := List.isPrefixOf_iff_prefix.mp hprefix
      exact .inl ⟨c :: r, token, rest, List.cons_ne_nil _ _, rfl, rfl, scans_literal hr rest⟩
    · exact .inr ⟨rfl, scans_literal_false fun h => hprefix (List.isPrefixOf_iff_prefix.mpr h)⟩
  by_cases hn : c = 'n'
  · subst hn
    refine hcase ['u', 'l', 'l'] .null (List.cons_ne_nil _ _) hbegins ?_
    simp only [literals, List.find?_cons, List.isPrefixOf_cons_cons]
    cases List.isPrefixOf ['u', 'l', 'l'] t <;> rfl
  by_cases ht : c = 't'
  · subst ht
    refine hcase ['r', 'u', 'e'] (.bool true) (List.cons_ne_nil _ _) hbegins ?_
    simp only [literals, List.find?_cons, List.isPrefixOf_cons_cons]
    cases List.isPrefixOf ['r', 'u', 'e'] t <;> rfl
  by_cases hf : c = 'f'
  · subst hf
    refine hcase ['a', 'l', 's', 'e'] (.bool false) (List.cons_ne_nil _ _) hbegins ?_
    simp only [literals, List.find?_cons, List.isPrefixOf_cons_cons]
    cases List.isPrefixOf ['a', 'l', 's', 'e'] t <;> rfl
  rw [if_neg hn, if_neg ht, if_neg hf] at hbegins
  refine .inr ⟨?_, ?_⟩
  · simp [literals, Ne.symm hn, Ne.symm ht, Ne.symm hf]
  · rw [scans_eq, hstep, hbegins]

/-- The characters that are tokens. -/
def marks : List (Char × Token) :=
  [('[', .arrayStart), (']', .arrayEnd), ('\x7b', .objectStart), ('\x7d', .objectEnd),
    (':', .colon), (',', .comma)]

theorem single_of_mem {c : Char} {token : Token} (h : (c, token) ∈ marks) :
    Ascii c ∧ isSpace c = false ∧ single c.toUInt8 = some token ∧ begins c = some .between := by
  simp only [marks, List.mem_cons, List.not_mem_nil, or_false, Prod.mk.injEq] at h
  obtain ⟨rfl, rfl⟩ | ⟨rfl, rfl⟩ | ⟨rfl, rfl⟩ | ⟨rfl, rfl⟩ | ⟨rfl, rfl⟩ | ⟨rfl, rfl⟩ := h <;>
    exact ⟨by decide, by decide, by decide, rfl⟩

theorem single_of_notMem {c : Char} (hc : Ascii c) (h : c ∉ marks.map Prod.fst) :
    single c.toUInt8 = none := by
  simp only [marks, List.map_cons, List.map_nil, List.mem_cons, List.not_mem_nil, or_false,
    not_or] at h
  obtain ⟨h1, h2, h3, h4, h5, h6⟩ := h
  simp only [single, toUInt8_eq_iff (show Ascii '[' by decide) hc,
    toUInt8_eq_iff (show Ascii ']' by decide) hc, toUInt8_eq_iff (show Ascii '\x7b' by decide) hc,
    toUInt8_eq_iff (show Ascii '\x7d' by decide) hc, toUInt8_eq_iff (show Ascii ':' by decide) hc,
    toUInt8_eq_iff (show Ascii ',' by decide) hc, h1, h2, h3, h4, h5, h6, if_false]

theorem single_high {b : UInt8} (hb : 0x80 ≤ b.toNat) : single b = none := by
  have hne (a : Char) (ha : Ascii a) : b ≠ a.toUInt8 := ne_of_high ha hb
  simp only [single, hne '[' (by decide), hne ']' (by decide), hne '\x7b' (by decide),
    hne '\x7d' (by decide), hne ':' (by decide), hne ',' (by decide), if_false]

/-- Nothing is gone past in front of a character that is no whitespace. -/
theorem whitespace_eq {c : Char} (hc : isSpace c = false) (front t : Text) :
    (behind front (c :: t)).whitespace = behind front (c :: t) := by
  have htake : (c :: t).takeWhile isSpace = [] := by
    rw [List.takeWhile_cons, hc]
    rfl
  rw [whitespace, drop_behind, agrees_space.takeWhile, htake]
  rfl

/-- A call in front of a character that is a token. -/
theorem next_mark {c : Char} {token : Token} (h : (c, token) ∈ marks) (front t : Text) :
    (behind front (c :: t)).next = (some (.ok token), behind (front ++ [c]) t) := by
  obtain ⟨hascii, hspace, hsingle, -⟩ := single_of_mem h
  unfold next
  rw [whitespace_eq hspace]
  dsimp only
  rw [byteAt_ascii hascii]
  dsimp only
  rw [hsingle]
  exact congrArg (Prod.mk _) (congrArg Prod.snd (advance_one hascii front t))

/-- A call in front of any other ASCII character. -/
theorem next_ascii {c : Char} (hc : isSpace c = false) (hascii : Ascii c)
    (hmark : c ∉ marks.map Prod.fst) (front t : Text) : (behind front (c :: t)).next =
      if c = '"' then (some (string (behind front (c :: t))).1,
        (string (behind front (c :: t))).2)
      else if c = '-' ∨ isDigit c = true then (some (number (behind front (c :: t))).1,
        (number (behind front (c :: t))).2)
      else (some (literal literals (behind front (c :: t))).1,
        (literal literals (behind front (c :: t))).2) := by
  have hquote : c.toUInt8 = '"'.toUInt8 ↔ c = '"' := toUInt8_eq_iff (by decide) hascii
  have hminus : c.toUInt8 = '-'.toUInt8 ↔ c = '-' := toUInt8_eq_iff (by decide) hascii
  unfold next
  rw [whitespace_eq hc]
  dsimp only
  rw [byteAt_ascii hascii]
  dsimp only
  rw [single_of_notMem hascii hmark]
  simp only [hquote, hminus, agrees_digit.ascii c hascii]

/-- **Step lemma.** A call of `next` in front of a character that is no whitespace. -/
theorem next_cons {c : Char} (hc : isSpace c = false) (front t : Text) :
    Proceeds front (c :: t) (behind front (c :: t)).next ∨
      Stuck (c :: t) (behind front (c :: t)).next := by
  have hspace := whitespace_eq hc front t
  -- what is neither a mark nor the beginning of a string or a number
  have hliteral (hbegins : begins c = if c = 'n' then some (.literal ['u', 'l', 'l'])
      else if c = 't' then some (.literal ['r', 'u', 'e'])
      else if c = 'f' then some (.literal ['a', 'l', 's', 'e']) else none)
      (hnext : (behind front (c :: t)).next = (some (literal literals (behind front (c :: t))).1,
        (literal literals (behind front (c :: t))).2)) :
      Proceeds front (c :: t) (behind front (c :: t)).next ∨
        Stuck (c :: t) (behind front (c :: t)).next := by
    rw [literal_eq] at hnext
    obtain ⟨text, token, rest, hne, heq, hfind, hscans⟩ | ⟨hfind, hscans⟩ :=
      literals_cases t hbegins
    · left
      rw [hnext, hfind]
      refine ⟨.inl ⟨token, rfl⟩, text, rest, hne, heq, ?_, hscans⟩
      show behind (front ++ text) ((c :: t).drop text.length) = _
      rw [heq, List.drop_left]
    · right
      rw [hfind] at hnext
      exact ⟨⟨_, by rw [hnext]; rfl⟩, by rw [hnext]; exact hnext, hscans⟩
  by_cases hascii : Ascii c
  · by_cases hmark : c ∈ marks.map Prod.fst
    · obtain ⟨⟨c, token⟩, hmem, rfl⟩ := List.mem_map.mp hmark
      obtain ⟨-, -, -, hbegins⟩ := single_of_mem hmem
      left
      rw [next_mark hmem]
      have hstep : Mode.between.step c = some .between := hbegins
      exact ⟨.inl ⟨token, rfl⟩, [c], t, List.cons_ne_nil _ _, rfl, rfl, scans_cons hstep t⟩
    · have hnext := next_ascii hc hascii hmark front t
      have hbegins : begins c = if c = '"' then some .string else if c = '-' then some .minus
          else if c = '0' then some .zero else if isDigit c then some .integer
          else if c = 'n' then some (.literal ['u', 'l', 'l'])
          else if c = 't' then some (.literal ['r', 'u', 'e'])
          else if c = 'f' then some (.literal ['a', 'l', 's', 'e']) else none := by
        have hmark' : c ∉ ['[', ']', '\x7b', '\x7d', ':', ','] := hmark
        rw [begins, if_neg (Bool.eq_false_iff.mp hc), if_neg hmark']
      by_cases h1 : c = '"'
      · subst h1
        left
        rw [hnext, if_pos rfl]
        exact (goes_string front t).proceeds rfl
      by_cases h2 : c = '-' ∨ isDigit c = true
      · left
        rw [hnext, if_neg h1, if_pos h2]
        obtain ⟨mode, hmode⟩ : ∃ mode, begins c = some mode := by
          rw [hbegins, if_neg h1]
          obtain rfl | hdigit := h2
          · exact ⟨_, rfl⟩
          · rw [if_neg (ne_of_isDigit hdigit (by decide)), hdigit, if_pos rfl]
            split_ifs <;> exact ⟨_, rfl⟩
        exact (goes_number h2 front t hmode).proceeds hmode
      · refine hliteral ?_ (by rw [hnext, if_neg h1, if_neg h2])
        obtain ⟨hsign, hdigit⟩ := not_or.mp h2
        have hzero : c ≠ '0' := by
          rintro rfl
          exact hdigit (by decide)
        rw [hbegins, if_neg h1, if_neg hsign, if_neg hzero, if_neg hdigit]
  · -- a byte that is not ASCII begins no token
    obtain ⟨b, bytes, hbytes, -⟩ := utf8EncodeChar_eq_cons c
    have hb := high_of_not_ascii hascii (by rw [hbytes]; exact List.mem_cons_self)
    have hbyte : (behind front (c :: t)).byteAt = some b := by
      rw [byteAt_behind, asBytes_cons, hbytes]
      rfl
    have hne (a : Char) (ha : Ascii a) : c ≠ a := fun h => hascii (h ▸ ha)
    refine hliteral ?_ ?_
    · have hmark : c ∉ ['[', ']', '\x7b', '\x7d', ':', ','] := by
        intro hmem
        simp only [List.mem_cons, List.not_mem_nil, or_false] at hmem
        obtain rfl | rfl | rfl | rfl | rfl | rfl := hmem <;> exact hascii (by decide)
      rw [begins, if_neg (Bool.eq_false_iff.mp hc), if_neg hmark, if_neg (hne _ (by decide)),
        if_neg (hne _ (by decide)), if_neg (hne _ (by decide)),
        if_neg (Bool.eq_false_iff.mp (agrees_digit.not_ascii c hascii))]
    · unfold next
      rw [hspace]
      dsimp only
      rw [hbyte]
      dsimp only
      rw [single_high hb]
      dsimp only
      rw [if_neg (ne_of_high (by decide) hb), if_neg]
      rw [agrees_digit.high b hb]
      exact not_or.mpr ⟨ne_of_high (by decide) hb, Bool.false_ne_true⟩

/-- A text is whitespace and what is behind it. -/
theorem exists_space (t : Text) : ∃ space rest, t = space ++ rest ∧ Space space ∧
    rest.head?.any isSpace = false :=
  ⟨_, _, (List.takeWhile_append_dropWhile (p := isSpace)).symm, fun _ h => List.mem_takeWhile_imp h,
    head?_dropWhile _⟩

theorem scans_space {space : Text} (h : Space space) (t : Text) :
    scans .between (space ++ t) = scans .between t := by
  induction space with
  | nil => rfl
  | cons c space ih =>
    obtain ⟨hc, hspace⟩ := List.forall_mem_cons.mp h
    have hstep : Mode.between.step c = some .between := if_pos hc
    rw [List.cons_append, scans_cons hstep, ih hspace]

theorem collect_stuck {s : Tokens} {e : TokenError}
    (hitem : s.next.1 = some (.error (.error e))) (hstate : s.next.2.next = s.next) (n : ℕ) :
    collect n s = .error .unfinished := by
  have hall (n : ℕ) : ∀ s', s'.next = s.next → collect n s' = .error .unfinished := by
    induction n with
    | zero => exact fun _ _ => rfl
    | succ n ih =>
      intro s' hs'
      have hnext : s'.next = (some (.error (.error e)), s.next.2) :=
        hs'.trans (Prod.ext hitem rfl)
      rw [collect, hnext]
      dsimp only
      rw [ih _ hstate]
      rfl
  exact hall n s rfl

/-- An item and the items of the following calls. -/
theorem collect_succ {s s' : Tokens} {item : Except TokenError Token}
    (h : s.next = (some (item.mapError Fault.error), s')) (n : ℕ) :
    collect (n + 1) s = (collect n s').map (item :: ·) := by
  rw [collect, h]
  cases item with
  | ok token =>
    show (collect n s' >>= _) = _
    cases collect n s' <;> rfl
  | error e =>
    show (collect n s' >>= _) = _
    cases collect n s' <;> rfl

/-- The end of the source. -/
theorem next_nil {space : Text} (h : Space space) (front : Text) :
    (behind front space).next = (none, behind (front ++ space) []) := by
  have hnext := next_space h (t := []) rfl front
  have hwhitespace : (behind (front ++ space) []).whitespace = behind (front ++ space) [] := by
    rw [whitespace, drop_behind]
    rfl
  rw [List.append_nil] at hnext
  rw [hnext]
  unfold next
  rw [hwhitespace]
  dsimp only
  rw [byteAt_behind]
  rfl

/-- **Run lemma.** From a place in the source the iterator comes to its end if and only if the scan
of what is left does. -/
theorem collect_iff (front t : Text) :
    (∃ n items, collect n (behind front t) = .ok items) ↔ scans .between t = true := by
  induction hn : t.length using Nat.strong_induction_on generalizing front t with
  | _ n ih =>
  obtain ⟨space, rest, rfl, hspace, hrest⟩ := exists_space t
  have hnext := next_space hspace hrest front
  rw [scans_space hspace]
  cases rest with
  | nil =>
    refine iff_of_true ⟨1, [], ?_⟩ rfl
    rw [List.append_nil, collect, next_nil hspace]
  | cons c rest =>
    obtain ⟨hitem, w, t', hne, heq, hstate, hscans⟩ | ⟨⟨e, hitem⟩, hstate, hscans⟩ :=
      next_cons hrest (front ++ space) rest
    · have hlength := congrArg List.length heq
      have hpos := List.length_pos_iff.mpr hne
      rw [List.length_append] at hlength
      have hiff := ih t'.length (by rw [← hn, List.length_append]; omega) ((front ++ space) ++ w) t'
        rfl
      obtain ⟨item, hitem⟩ : ∃ item : Except TokenError Token,
          (behind (front ++ space) (c :: rest)).next.1 = some (item.mapError Fault.error) := by
        obtain ⟨token, hitem⟩ | ⟨e, hitem⟩ := hitem
        · exact ⟨.ok token, hitem⟩
        · exact ⟨.error e, hitem⟩
      have hcall (n : ℕ) : collect (n + 1) (behind front (space ++ c :: rest)) =
          (collect n (behind ((front ++ space) ++ w) t')).map (item :: ·) :=
        collect_succ (hnext.trans (Prod.ext hitem hstate)) n
      rw [hscans, ← hiff]
      -- there is one call more than from the next place
      constructor
      · rintro ⟨n, items, h⟩
        cases n with
        | zero => exact nomatch h
        | succ n =>
          rw [hcall] at h
          cases hcollect : collect n (behind ((front ++ space) ++ w) t') with
          | ok items => exact ⟨n, items, hcollect⟩
          | error fault =>
            rw [hcollect] at h
            exact nomatch h
      · rintro ⟨n, items, h⟩
        refine ⟨n + 1, item :: items, ?_⟩
        rw [hcall, h]
        rfl
    · rw [← hnext] at hitem hstate
      refine iff_of_false ?_ (Bool.eq_false_iff.mp hscans)
      rintro ⟨n, items, h⟩
      rw [collect_stuck hitem hstate] at h
      exact nomatch h

end Tokens

end Mrml.Json
