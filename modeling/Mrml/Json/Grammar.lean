import Mrml.Common.KeyedList
import Mrml.Common.Text

/-!
# JSON texts

The grammar of RFC 8259 over the characters of a text, and the value that it assigns to a text.
The value of an object has its members in the order of their keys, which must be different, and
the escape of a surrogate must be part of a pair.
-/

namespace Mrml.Json

/-- `Value` (`crates/mrml-json/src/lib.rs`, lines 223–231): a number keeps its text, and an object
is the sorted vector of its entries. -/
inductive Value
  | null
  | bool (value : Bool)
  | number (text : Text)
  | string (text : Text)
  | array (values : List Value)
  | object (entries : List (Text × Value))

/-! ## White space and numbers -/

def isSpace (c : Char) : Bool := c = ' ' || c = '\n' || c = '\r' || c = '\t'

def isDigit (c : Char) : Bool := '0' ≤ c && c ≤ '9'

/-- `ws`. -/
def Space (text : Text) : Prop := ∀ c ∈ text, isSpace c = true

/-- `1*DIGIT`. -/
def Digits (text : Text) : Prop := text ≠ [] ∧ ∀ c ∈ text, isDigit c = true

/-- `int = zero / ( digit1-9 *DIGIT )`. -/
def Integer (text : Text) : Prop := text = ['0'] ∨ Digits text ∧ text.head? ≠ some '0'

/-- `[ frac ]`. -/
def Fraction (text : Text) : Prop := text = [] ∨ ∃ digits, Digits digits ∧ text = '.' :: digits

/-- `[ minus / plus ]`. -/
def Sign (text : Text) : Prop := text = [] ∨ text = ['+'] ∨ text = ['-']

/-- `[ exp ]`. -/
def Exponent (text : Text) : Prop :=
  text = [] ∨ ∃ e sign digits, (e = 'e' ∨ e = 'E') ∧ Sign sign ∧ Digits digits ∧
    text = e :: (sign ++ digits)

/-- `number = [ minus ] int [ frac ] [ exp ]`. -/
def Number (text : Text) : Prop :=
  ∃ minus integer fraction exponent, (minus = [] ∨ minus = ['-']) ∧ Integer integer ∧
    Fraction fraction ∧ Exponent exponent ∧ text = minus ++ (integer ++ (fraction ++ exponent))

/-! ## Strings -/

/-- `HEXDIG`, with lower case letters too. -/
def hexValue (c : Char) : Option ℕ :=
  if '0' ≤ c ∧ c ≤ '9' then some (c.toNat - '0'.toNat)
  else if 'a' ≤ c ∧ c ≤ 'f' then some (c.toNat - 'a'.toNat + 10)
  else if 'A' ≤ c ∧ c ≤ 'F' then some (c.toNat - 'A'.toNat + 10)
  else none

/-- The number of hexadecimal digits behind those of `value`. -/
def hexNumber : ℕ → Text → Option ℕ
  | value, [] => some value
  | value, c :: text => do
    let digit ← hexValue c
    hexNumber (value * 16 + digit) text

/-- `4HEXDIG` and its number. -/
def Hex4 (text : Text) (n : ℕ) : Prop := text.length = 4 ∧ hexNumber 0 text = some n

/-- The characters that `escape` may stand before, and what they mean. -/
def escapeOf (c : Char) : Option Char :=
  if c = '"' then some '"' else if c = '\\' then some '\\' else if c = '/' then some '/'
  else if c = 'b' then some '\x08' else if c = 'f' then some '\x0c'
  else if c = 'n' then some '\n' else if c = 'r' then some '\r'
  else if c = 't' then some '\t' else none

def isHighSurrogate (n : ℕ) : Prop := 0xd800 ≤ n ∧ n ≤ 0xdbff

def isLowSurrogate (n : ℕ) : Prop := 0xdc00 ≤ n ∧ n ≤ 0xdfff

/-- `char` and the character that it stands for. -/
inductive Piece : Text → Char → Prop
  | plain {c : Char} (h : 0x20 ≤ c.toNat) (hquote : c ≠ '"') (hescape : c ≠ '\\') : Piece [c] c
  | escape {e c : Char} (h : escapeOf e = some c) : Piece ['\\', e] c
  | unicode {hex : Text} {n : ℕ} (h : Hex4 hex n) (hhigh : ¬isHighSurrogate n)
      (hlow : ¬isLowSurrogate n) : Piece ('\\' :: 'u' :: hex) (Char.ofNat n)
  | pair {hex hex' : Text} {n n' : ℕ} (h : Hex4 hex n) (h' : Hex4 hex' n')
      (hhigh : isHighSurrogate n) (hlow : isLowSurrogate n') :
      Piece ('\\' :: 'u' :: (hex ++ '\\' :: 'u' :: hex'))
        (Char.ofNat (0x10000 + (n - 0xd800) * 1024 + (n' - 0xdc00)))

/-- `*char`. -/
inductive Pieces : Text → Text → Prop
  | nil : Pieces [] []
  | cons {piece rest value : Text} {c : Char} (h : Piece piece c) (hrest : Pieces rest value) :
      Pieces (piece ++ rest) (c :: value)

/-- `string = quotation-mark *char quotation-mark`. -/
def StringText (text value : Text) : Prop := ∃ body, Pieces body value ∧ text = '"' :: (body ++ ['"'])

/-! ## Values -/

mutual

/-- `value`, the value that it stands for, the number of values in it and its nesting. -/
inductive ValueText : Text → Value → ℕ → ℕ → Prop
  | null : ValueText ['n', 'u', 'l', 'l'] .null 1 0
  | true : ValueText ['t', 'r', 'u', 'e'] (.bool true) 1 0
  | false : ValueText ['f', 'a', 'l', 's', 'e'] (.bool false) 1 0
  | number {text : Text} (h : Number text) : ValueText text (.number text) 1 0
  | string {text value : Text} (h : StringText text value) : ValueText text (.string value) 1 0
  | emptyArray {space : Text} (h : Space space) :
      ValueText ('[' :: (space ++ [']'])) (.array []) 1 1
  | array {space text : Text} {values : List Value} {nodes depth : ℕ} (hspace : Space space)
      (h : ElementsText text values nodes depth) :
      ValueText ('[' :: (space ++ (text ++ [']']))) (.array values) (nodes + 1) (depth + 1)
  | emptyObject {space : Text} (h : Space space) :
      ValueText ('\x7b' :: (space ++ ['\x7d'])) (.object []) 1 1
  | object {space text : Text} {members : List (Text × Value)} {nodes depth : ℕ}
      (hspace : Space space) (h : MembersText text members nodes depth)
      (hkeys : (members.map Prod.fst).Nodup) :
      ValueText ('\x7b' :: (space ++ (text ++ ['\x7d'])))
        (.object (KeyedList.sortBy Prod.fst members)) (nodes + 1) (depth + 1)

/-- `value *( value-separator value )`, with the white space that may follow. -/
inductive ElementsText : Text → List Value → ℕ → ℕ → Prop
  | last {text after : Text} {value : Value} {nodes depth : ℕ}
      (h : ValueText text value nodes depth) (hafter : Space after) :
      ElementsText (text ++ after) [value] nodes depth
  | cons {text after before rest : Text} {value : Value} {values : List Value}
      {nodes depth nodes' depth' : ℕ} (h : ValueText text value nodes depth)
      (hafter : Space after) (hbefore : Space before)
      (hrest : ElementsText rest values nodes' depth') :
      ElementsText (text ++ (after ++ ',' :: (before ++ rest))) (value :: values)
        (nodes + nodes') (max depth depth')

/-- `member *( value-separator member )`, where `member = string name-separator value`, with the
white space that may follow. -/
inductive MembersText : Text → List (Text × Value) → ℕ → ℕ → Prop
  | last {key name colon space text after : Text} {value : Value} {nodes depth : ℕ}
      (hname : StringText name key) (hcolon : Space colon) (hspace : Space space)
      (h : ValueText text value nodes depth) (hafter : Space after) :
      MembersText (name ++ (colon ++ ':' :: (space ++ (text ++ after)))) [(key, value)] nodes depth
  | cons {key name colon space text after before rest : Text} {value : Value}
      {members : List (Text × Value)} {nodes depth nodes' depth' : ℕ}
      (hname : StringText name key) (hcolon : Space colon) (hspace : Space space)
      (h : ValueText text value nodes depth) (hafter : Space after) (hbefore : Space before)
      (hrest : MembersText rest members nodes' depth') :
      MembersText
        (name ++ (colon ++ ':' :: (space ++ (text ++ (after ++ ',' :: (before ++ rest))))))
        ((key, value) :: members) (nodes + nodes') (max depth depth')

end

/-- `JSON-text = ws value ws`. -/
def JsonText (text : Text) (value : Value) (nodes depth : ℕ) : Prop :=
  ∃ before body after, Space before ∧ ValueText body value nodes depth ∧ Space after ∧
    text = before ++ (body ++ after)

end Mrml.Json
