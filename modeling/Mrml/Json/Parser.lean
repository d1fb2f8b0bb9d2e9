import Mrml.Common.Checked
import Mrml.Json.Grammar
import Mrml.Runtime.OrderedMap

/-!
# JSON parser

Model of `parse` and `Parser` of `crates/mrml-json/src/lib.rs` (lines 462–475 and 575–832), over
the bytes of a UTF-8 text.

Recursion and loops have fuel that is never used up (`parse_eq_ok_iff`). Memory is available.
-/

namespace Mrml.Json

/-- `Error` (lines 440–444). -/
structure Error where
  message : String
  offset : ℕ
  deriving DecidableEq

/-- An error of the source, or a bound of the model that is too small. -/
inductive Failure
  | error (e : Error)
  | outOfFuel
  deriving DecidableEq

/-- `Parser` (lines 575–580). -/
structure Parser where
  bytes : List UInt8
  position : ℕ
  depth : ℕ
  nodes : ℕ
  deriving DecidableEq

namespace Parser

def fail (p : Parser) (message : String) : Failure := .error ⟨message, p.position⟩

/-- `self.position += count`. -/
def advance (p : Parser) (count : ℕ) : Parser := { p with position := p.position + count }

/-- The bytes that are not read yet. -/
def rest (p : Parser) : List UInt8 := p.bytes.drop p.position

/-- `peek` (lines 811–813). -/
def peek (p : Parser) : Option UInt8 := p.rest.head?

/-- `take` (lines 814–821). -/
def take (byte : UInt8) (p : Parser) : Bool × Parser :=
  if p.peek = some byte then (true, p.advance 1) else (false, p)

/-- `expect` (lines 822–831). -/
def expect (byte : UInt8) (p : Parser) : Except Failure Parser :=
  match p.take byte with
  | (true, p) => .ok p
  | (false, p) =>
    .error (p.fail ("expected '" ++ String.singleton (Char.ofNat byte.toNat) ++ "'"))

def isSpaceByte (byte : UInt8) : Bool :=
  byte = ' '.toUInt8 || byte = '\n'.toUInt8 || byte = '\r'.toUInt8 || byte = '\t'.toUInt8

/-- `whitespace` (lines 806–810), which goes on to the first other byte. -/
def whitespace (p : Parser) : Parser := p.advance (p.rest.takeWhile isSpaceByte).length

def isDigitByte (byte : UInt8) : Bool := '0'.toUInt8 ≤ byte && byte ≤ '9'.toUInt8

/-- `digits` (lines 775–785). -/
def digits (p : Parser) : Except Failure Parser := do
  let q := p.advance (p.rest.takeWhile isDigitByte).length
  refuseIf (q.position = p.position) (q.fail "expected digit")
  return q

/-- `literal` (lines 798–805). -/
def literal (literal : List UInt8) (p : Parser) : Except Failure Parser :=
  if p.rest.take literal.length = literal then .ok (p.advance literal.length)
  else .error (p.fail "invalid literal")

/-- The part of a number before its fraction (lines 754–760). -/
def integer (p : Parser) : Except Failure Parser :=
  match p.take '0'.toUInt8 with
  | (true, p) => do
    refuseIf ((p.peek.map isDigitByte).getD false = true) (p.fail "leading zero")
    return p
  | (false, p) => p.digits

/-- The fraction of a number (lines 761–763). -/
def fraction (p : Parser) : Except Failure Parser :=
  match p.take '.'.toUInt8 with
  | (true, p) => p.digits
  | (false, p) => .ok p

/-- The exponent of a number (lines 764–770). -/
def exponent (p : Parser) : Except Failure Parser :=
  if p.peek = some 'e'.toUInt8 ∨ p.peek = some 'E'.toUInt8 then
    let p := p.advance 1
    if p.peek = some '+'.toUInt8 ∨ p.peek = some '-'.toUInt8 then (p.advance 1).digits
    else p.digits
  else .ok p

/-- `bytes[start..position]` as text. -/
def slice (start : ℕ) (p : Parser) : Option Text :=
  Text.fromUtf8 ((p.bytes.drop start).take (p.position - start))

/-- `number` (lines 751–774); the text is ASCII, so its `unwrap` does not panic. -/
def number (p : Parser) : Except Failure (Text × Parser) := do
  let q ← (p.take '-'.toUInt8).2.integer
  let q ← q.fraction
  let q ← q.exponent
  let text ← okOr (q.slice p.position) (q.fail "number")
  return (text, q)

/-! ## Strings -/

/-- The digit of a byte in `hex4` (lines 742–747). -/
def hexDigit (byte : UInt8) : Option ℕ :=
  if '0'.toUInt8 ≤ byte ∧ byte ≤ '9'.toUInt8 then some (byte.toNat - '0'.toNat)
  else if 'a'.toUInt8 ≤ byte ∧ byte ≤ 'f'.toUInt8 then some (byte.toNat - 'a'.toNat + 10)
  else if 'A'.toUInt8 ≤ byte ∧ byte ≤ 'F'.toUInt8 then some (byte.toNat - 'A'.toNat + 10)
  else none

/-- The loop of `hex4` (lines 736–748). -/
def hexDigits : ℕ → ℕ → Parser → Except Failure (ℕ × Parser)
  | 0, value, p => .ok (value, p)
  | count + 1, value, p => do
    let byte ← okOr p.peek (p.fail "short unicode escape")
    let digit ← okOr (hexDigit byte) (p.fail "invalid hex digit")
    hexDigits count (value * 16 + digit) (p.advance 1)

/-- `hex4` (lines 734–750). -/
def hex4 (p : Parser) : Except Failure (ℕ × Parser) := hexDigits 4 0 p

/-- `output.push(char::from_u32(scalar)?)` (lines 727–730). -/
def pushScalar (scalar : ℕ) (output : Text) (p : Parser) : Except Failure (Text × Parser) :=
  if scalar.isValidChar then .ok (output ++ [Char.ofNat scalar], p)
  else .error (p.fail "invalid unicode scalar")

/-- The second half of a pair of surrogates (lines 716–723). -/
def surrogatePair (first : ℕ) (output : Text) (p : Parser) : Except Failure (Text × Parser) := do
  let q ← (p.expect '\\'.toUInt8).mapError fun _ => p.fail "missing low surrogate"
  let q ← (q.expect 'u'.toUInt8).mapError fun _ => q.fail "missing low surrogate"
  let (second, q) ← q.hex4
  refuseIf (¬(0xdc00 ≤ second ∧ second ≤ 0xdfff))
    (.error ⟨"invalid low surrogate", q.position - 4⟩)
  q.pushScalar (0x10000 + ((first - 0xd800) <<< 10) + (second - 0xdc00)) output

/-- `unicode_escape` (lines 713–732). -/
def unicodeEscape (output : Text) (p : Parser) : Except Failure (Text × Parser) := do
  let (first, p) ← p.hex4
  if 0xd800 ≤ first ∧ first ≤ 0xdbff then p.surrogatePair first output
  else p.pushScalar first output

/-- The escapes of one character (lines 692–699). -/
def simpleEscape (byte : UInt8) : Option Char :=
  if byte = '"'.toUInt8 then some '"' else if byte = '\\'.toUInt8 then some '\\'
  else if byte = '/'.toUInt8 then some '/' else if byte = 'b'.toUInt8 then some '\x08'
  else if byte = 'f'.toUInt8 then some '\x0c' else if byte = 'n'.toUInt8 then some '\n'
  else if byte = 'r'.toUInt8 then some '\r' else if byte = 't'.toUInt8 then some '\t'
  else none

/-- What stands behind a backslash (lines 687–702). -/
def escape (output : Text) (p : Parser) : Except Failure (Text × Parser) := do
  let escaped ← okOr p.peek (p.fail "unterminated escape")
  if escaped = 'u'.toUInt8 then (p.advance 1).unicodeEscape output
  else
    let c ← okOr (simpleEscape escaped) (p.fail "invalid escape")
    return (output ++ [c], p.advance 1)

/-- `push_utf8` up to the position (lines 787–796). -/
def pushUtf8 (start : ℕ) (output : Text) (p : Parser) : Except Failure Text := do
  let text ← okOr (p.slice start) (.error ⟨"invalid UTF-8", start⟩)
  return output ++ text

/-- The loop of `string` (lines 676–711); `start` is where the bytes begin that are not in `output`
yet. -/
def stringLoop : ℕ → ℕ → Text → Parser → Except Failure (Text × Parser)
  | 0, _, _, _ => .error .outOfFuel
  | fuel + 1, start, output, p =>
    match p.peek with
    | none => .error (p.fail "unterminated string")
    | some byte =>
      if byte = '"'.toUInt8 then do
        let output ← p.pushUtf8 start output
        return (output, p.advance 1)
      else if byte = '\\'.toUInt8 then do
        let output ← p.pushUtf8 start output
        let (output, p) ← (p.advance 1).escape output
        stringLoop fuel p.position output p
      else if byte.toNat < 0x20 then .error (p.fail "control character in string")
      else stringLoop fuel start output (p.advance 1)

/-- `string` (lines 672–712). -/
def string (p : Parser) : Except Failure (Text × Parser) := do
  let p ← p.expect '"'.toUInt8
  stringLoop (p.rest.length + 1) p.position [] p

/-! ## Values -/

/-- `self.nodes += 1` with its limit (lines 584–590). -/
def countNode (p : Parser) : Except Failure Parser := do
  refuseIf (p.nodes + 1 ≥ 2 ^ 64) (p.fail "JSON node limit exceeded")
  refuseIf (p.nodes + 1 > 1000000) (p.fail "JSON node limit exceeded")
  return { p with nodes := p.nodes + 1 }

/-- `enter_container` (lines 664–670). -/
def enterContainer (p : Parser) : Except Failure Parser := do
  refuseIf (p.depth ≥ 128) (p.fail "JSON nesting limit exceeded")
  return { p with depth := p.depth + 1 }

/-- `self.depth -= 1`. -/
def leave (p : Parser) : Parser := { p with depth := p.depth - 1 }

/-- `number`, `string` and the literals among the values (lines 592–610). -/
def scalar (byte : UInt8) (p : Parser) : Except Failure (Value × Parser) :=
  if byte = 'n'.toUInt8 then do
    let p ← p.literal ("null".toList.map Char.toUInt8)
    return (.null, p)
  else if byte = 't'.toUInt8 then do
    let p ← p.literal ("true".toList.map Char.toUInt8)
    return (.bool true, p)
  else if byte = 'f'.toUInt8 then do
    let p ← p.literal ("false".toList.map Char.toUInt8)
    return (.bool false, p)
  else if byte = '"'.toUInt8 then do
    let (text, p) ← p.string
    return (.string text, p)
  else if byte = '-'.toUInt8 ∨ isDigitByte byte = true then do
    let (text, p) ← p.number
    return (.number text, p)
  else .error (p.fail "expected JSON value")

/-- The key of a member and the colon behind it (lines 645–655). -/
def key (entries : List (Text × Value)) (p : Parser) : Except Failure (Text × Parser) := do
  let p := p.whitespace
  refuseIf (p.peek ≠ some '"'.toUInt8) (p.fail "expected object key")
  let (key, p) ← p.string
  refuseIf ((Runtime.OrderedMap.get key entries).isSome = true) (p.fail "duplicate object key")
  let p ← p.whitespace.expect ':'.toUInt8
  return (key, p)

mutual

/-- `value` (lines 583–613). -/
def value : ℕ → Parser → Except Failure (Value × Parser)
  | 0, _ => .error .outOfFuel
  | fuel + 1, p => do
    let p ← p.countNode
    let p := p.whitespace
    match p.peek with
    | none => .error (p.fail "expected JSON value")
    | some byte =>
      if byte = '['.toUInt8 then array fuel p
      else if byte = '\x7b'.toUInt8 then object fuel p
      else p.scalar byte

/-- `array` (lines 615–633). -/
def array : ℕ → Parser → Except Failure (Value × Parser)
  | 0, _ => .error .outOfFuel
  | fuel + 1, p => do
    let p ← p.enterContainer
    match (p.advance 1).whitespace.take ']'.toUInt8 with
    | (true, p) => return (.array [], p.leave)
    | (false, p) =>
      let (values, p) ← elements fuel p
      return (.array values, p.leave)

/-- The loop of `array` (lines 623–630). -/
def elements : ℕ → Parser → Except Failure (List Value × Parser)
  | 0, _ => .error .outOfFuel
  | fuel + 1, p => do
    let (first, p) ← value fuel p
    match p.whitespace.take ']'.toUInt8 with
    | (true, p) => return ([first], p)
    | (false, p) =>
      let p ← p.expect ','.toUInt8
      let (values, p) ← elements fuel p
      return (first :: values, p)

/-- `object` (lines 635–662). -/
def object : ℕ → Parser → Except Failure (Value × Parser)
  | 0, _ => .error .outOfFuel
  | fuel + 1, p => do
    let p ← p.enterContainer
    match (p.advance 1).whitespace.take '\x7d'.toUInt8 with
    | (true, p) => return (.object [], p.leave)
    | (false, p) =>
      let (entries, p) ← members fuel [] p
      return (.object entries, p.leave)

/-- The loop of `object` (lines 643–660) on the entries so far. -/
def members : ℕ → List (Text × Value) → Parser → Except Failure (List (Text × Value) × Parser)
  | 0, _, _ => .error .outOfFuel
  | fuel + 1, entries, p => do
    let (key, p) ← p.key entries
    let (value, p) ← value fuel p
    let entries := Runtime.OrderedMap.insert key value entries
    match p.whitespace.take '\x7d'.toUInt8 with
    | (true, p) => return (entries, p)
    | (false, p) =>
      let p ← p.expect ','.toUInt8
      members fuel entries p

end

end Parser

/-- `parse` (lines 462–475). -/
def parse (source : Text) : Except Failure Value := do
  let bytes := source.asBytes
  let (value, p) ← Parser.value (3 * bytes.length + 1) ⟨bytes, 0, 0, 0⟩
  let p := p.whitespace
  refuseIf (p.position ≠ bytes.length) (p.fail "trailing characters")
  return value

end Mrml.Json
