import Mrml.Common.Pattern
import Mrml.Json.Acceptance
import Mrml.Json.Printer

/-!
# Tool calls in the output of a model

Model of `crates/mrml-agent/src/tool_call.rs`: the scanners go over the bytes of a text by an
index, and a slice of the text that is not between boundaries is a panic. Memory is available, and
the clock that the identifier of a call is made of is a parameter.

Results:
* `normalizeRelaxedJson_returns`, `splitKwargs_returns`: the scanners come to their end on every
  text.
* `parseGemmaToolCall_returns_iff`: the texts on which the parser of calls does not panic.
-/

namespace Mrml.Agent

open Text

/-! ## Scanners of bytes -/

/-- `byte as char`. -/
def byteChar (byte : UInt8) : Char := Char.ofNat byte.toNat

/-- `u8::is_ascii_whitespace`. -/
def isWhitespaceByte (byte : UInt8) : Bool :=
  byte == ' '.toUInt8 || byte == '\t'.toUInt8 || byte == '\n'.toUInt8 || byte == '\x0c'.toUInt8 ||
    byte == '\r'.toUInt8

/-- `u8::is_ascii_alphabetic`. -/
def isAlphabeticByte (byte : UInt8) : Bool :=
  ('a'.toUInt8 ≤ byte && byte ≤ 'z'.toUInt8) || ('A'.toUInt8 ≤ byte && byte ≤ 'Z'.toUInt8)

/-- `u8::is_ascii_alphanumeric`. -/
def isAlphanumericByte (byte : UInt8) : Bool :=
  isAlphabeticByte byte || ('0'.toUInt8 ≤ byte && byte ≤ '9'.toUInt8)

/-- `b'"'` and `b'\''`. -/
def isQuoteByte (byte : UInt8) : Bool := byte == '"'.toUInt8 || byte == '\''.toUInt8

/-- `while index < bytes.len() && p(bytes[index]) { index += 1 }`. -/
def scanWhile (p : UInt8 → Bool) (bytes : List UInt8) (index : ℕ) : ℕ :=
  index + ((bytes.drop index).takeWhile p).length

/-- `byte == delimiter && (index == 0 || bytes[index - 1] != b'\\')`. -/
def closesQuote (bytes : List UInt8) (index : ℕ) (byte delimiter : UInt8) : Bool :=
  byte == delimiter && (index == 0 || bytes[index - 1]? != some '\\'.toUInt8)

/-- The loop of `quote_relaxed_keys` (lines 12–60). -/
def keysLoop (input : Text) (bytes : List UInt8) :
    ℕ → ℕ → Option UInt8 → Text → Except (Fault Empty) Text
  | 0, _, _, _ => .error .unfinished
  | fuel + 1, index, quote, output =>
    match bytes[index]?, quote with
    | none, _ => .ok output
    | some byte, some delimiter =>
      keysLoop input bytes fuel (index + 1)
        (if closesQuote bytes index byte delimiter then none else some delimiter)
        (output ++ [byteChar byte])
    | some byte, none =>
      if isQuoteByte byte then
        keysLoop input bytes fuel (index + 1) (some byte) (output ++ [byteChar byte])
      else if byte ≠ '\x7b'.toUInt8 ∧ byte ≠ ','.toUInt8 then
        keysLoop input bytes fuel (index + 1) none (output ++ [byteChar byte])
      else
        let start := scanWhile isWhitespaceByte bytes (index + 1)
        let output := output ++ byteChar byte ::
          (slice bytes (index + 1) (start - (index + 1))).map byteChar
        if bytes[start]?.any fun b => isAlphabeticByte b || b == '_'.toUInt8 then do
          let stop := scanWhile (fun b => isAlphanumericByte b || b == '_'.toUInt8) bytes (start + 1)
          let index := scanWhile isWhitespaceByte bytes stop
          if bytes[index]? = some ':'.toUInt8 then do
            let key ← sliceStr input start stop
            let space ← sliceStr input stop index
            keysLoop input bytes fuel (index + 1) none
              (output ++ '"' :: (key ++ '"' :: (space ++ [':'])))
          else do
            let key ← sliceStr input start index
            keysLoop input bytes fuel index none (output ++ key)
        else keysLoop input bytes fuel start none output

/-- `quote_relaxed_keys` (lines 7–62). -/
def quoteRelaxedKeys (input : Text) : Except (Fault Empty) Text :=
  keysLoop input (asBytes input) ((asBytes input).length + 1) 0 none []

/-- `b',' | b'}'`. -/
def endsValueByte (byte : UInt8) : Bool := byte == ','.toUInt8 || byte == '\x7d'.toUInt8

/-- `b'"' | b'{' | b'[' | b']' | b':'`. -/
def breaksValueByte (byte : UInt8) : Bool :=
  byte == '"'.toUInt8 || byte == '\x7b'.toUInt8 || byte == '['.toUInt8 || byte == ']'.toUInt8 ||
    byte == ':'.toUInt8

/-! ## Numbers -/

/-- The exponent of a floating-point number, or nothing. -/
def isExponent : Text → Bool
  | [] => true
  | 'e' :: '+' :: digits | 'e' :: '-' :: digits | 'E' :: '+' :: digits | 'E' :: '-' :: digits
  | 'e' :: digits | 'E' :: digits => digits ≠ [] && digits.all Char.isDigit
  | _ => false

/-- The digits of a floating-point number, with at least one in front of the point or behind it. -/
def isDecimal (text : Text) : Bool :=
  let whole := text.takeWhile Char.isDigit
  match text.dropWhile Char.isDigit with
  | '.' :: rest =>
    (whole ≠ [] || rest.takeWhile Char.isDigit ≠ []) && isExponent (rest.dropWhile Char.isDigit)
  | rest => whole ≠ [] && isExponent rest

/-- A text without its sign. -/
def withoutSign : Text → Text
  | '+' :: rest => rest
  | '-' :: rest => rest
  | text => text

/-- `value.parse::<f64>().is_ok()`. -/
def parsesFloat (value : Text) : Bool :=
  let text := withoutSign value
  let lower := text.map Char.toLower
  lower = "inf".toList || lower = "infinity".toList || lower = "nan".toList || isDecimal text

/-- `value.parse::<i64>().ok()`. -/
def parseInt (value : Text) : Option ℤ :=
  let digits := withoutSign value
  if digits ≠ [] ∧ digits.all Char.isDigit then
    let magnitude : ℤ := (digits.foldl (fun n c => 10 * n + (c.toNat - '0'.toNat)) 0 : ℕ)
    let n := if value.head? = some '-' then -magnitude else magnitude
    if -(2 : ℤ) ^ 63 ≤ n ∧ n < (2 : ℤ) ^ 63 then some n else none
  else none

/-- `value.to_string()` of an integer. -/
def intText (n : ℤ) : Text :=
  if n < 0 then '-' :: Nat.toDigits 10 n.natAbs else Nat.toDigits 10 n.natAbs

/-- `value.parse::<bool>().ok()`. -/
def parseBool (value : Text) : Option Bool :=
  if value = "true".toList then some true
  else if value = "false".toList then some false
  else none

/-! ## Relaxed JSON -/

/-- The text that `quote_relaxed_values` pushes for a value (lines 103–110). -/
def quotedValue (value : Text) : Text :=
  if value = "true".toList ∨ value = "false".toList ∨ value = "null".toList ∨
      parsesFloat value then value
  else '"' :: (value ++ ['"'])

/-- The loop of `quote_relaxed_values` (lines 69–112). -/
def valuesLoop (input : Text) (bytes : List UInt8) :
    ℕ → ℕ → Option UInt8 → Text → Except (Fault Empty) Text
  | 0, _, _, _ => .error .unfinished
  | fuel + 1, index, quote, output =>
    match bytes[index]?, quote with
    | none, _ => .ok output
    | some byte, some delimiter =>
      valuesLoop input bytes fuel (index + 1)
        (if closesQuote bytes index byte delimiter then none else some delimiter)
        (output ++ [byteChar byte])
    | some byte, none =>
      if isQuoteByte byte then
        valuesLoop input bytes fuel (index + 1) (some byte) (output ++ [byteChar byte])
      else if byte ≠ ':'.toUInt8 then
        valuesLoop input bytes fuel (index + 1) none (output ++ [byteChar byte])
      else
        let start := scanWhile isWhitespaceByte bytes (index + 1)
        let output := output ++ byteChar byte ::
          (slice bytes (index + 1) (start - (index + 1))).map byteChar
        if !bytes[start]?.any isAlphabeticByte then
          valuesLoop input bytes fuel start none output
        else do
          let index := scanWhile (fun b => !endsValueByte b && !breaksValueByte b) bytes start
          if bytes[index]?.any endsValueByte then do
            let value ← sliceStr input start index
            valuesLoop input bytes fuel index none (output ++ quotedValue (trim value))
          else valuesLoop input bytes fuel index none output

/-- `quote_relaxed_values` (lines 64–114). -/
def quoteRelaxedValues (input : Text) : Except (Fault Empty) Text :=
  valuesLoop input (asBytes input) ((asBytes input).length + 1) 0 none []

/-- `serde_json::from_str::<Value>(text).ok()`. -/
def fromStr (text : Text) : Except (Fault Empty) (Option Json.Value) :=
  match Json.parse text with
  | .ok value => .ok (some value)
  | .error (.error _) => .ok none
  | .error .outOfFuel => .error .unfinished

/-- The replacements of `normalize_relaxed_json` (lines 138–145). -/
def markers : List (Text × Text) :=
  [("<|\"|>".toList, "\"".toList), ("<|\"|".toList, "\"".toList), ("|\">".toList, "\"".toList),
    ("<|'|>".toList, "'".toList), ("<|'".toList, "'".toList), ("|'>".toList, "'".toList),
    ("<|".toList, []), ("|>".toList, [])]

/-- `normalize_relaxed_json` (lines 136–166). -/
def normalizeRelaxedJson (raw : Text) : Except (Fault Empty) Text := do
  let s := markers.foldl (fun s marker => replace marker.1 marker.2 s) (trim raw)
  match ← fromStr s with
  | some v => return Json.stringify v
  | none =>
    let s ← quoteRelaxedKeys s
    match ← fromStr s with
    | some v => return Json.stringify v
    | none =>
      let s2 ← quoteRelaxedValues s
      match ← fromStr s2 with
      | some v => return Json.stringify v
      | none => return s

/-! ## Keyword arguments -/

/-- The loop of `split_kwargs` (lines 120–131), from an index on; the parts so far stand in their
order. -/
def splitLoop (input : Text) : List UInt8 → ℕ → ℕ → Option UInt8 → List Text →
    Except (Fault Empty) (ℕ × List Text)
  | [], _, start, _, parts => .ok (start, parts)
  | byte :: rest, index, start, quote, parts =>
    match quote with
    | some delimiter =>
      splitLoop input rest (index + 1) start
        (if closesQuote (asBytes input) index byte delimiter then none else some delimiter) parts
    | none =>
      if isQuoteByte byte then splitLoop input rest (index + 1) start (some byte) parts
      else if byte = ','.toUInt8 then do
        let part ← sliceStr input start index
        splitLoop input rest (index + 1) (index + 1) none (parts ++ [trim part])
      else splitLoop input rest (index + 1) start none parts

/-- `split_kwargs` (lines 116–134). -/
def splitKwargs (input : Text) : Except (Fault Empty) (List Text) := do
  let (start, parts) ← splitLoop input (asBytes input) 0 0 none []
  let part ← sliceStr input start (asBytes input).length
  return parts ++ [trim part]

/-- The check of a name (lines 173–182). -/
def isName (key : Text) : Bool :=
  key ≠ [] && (asBytes key).zipIdx.all fun entry =>
    entry.1 == '_'.toUInt8 ||
      if entry.2 = 0 then isAlphabeticByte entry.1 else isAlphanumericByte entry.1

/-- The value of an argument without quotes (lines 195–201). -/
def argumentValue (rawVal : Text) : Json.Value :=
  match parseInt rawVal with
  | some n => .number (intText n)
  | none =>
    match parseBool rawVal with
    | some b => .bool b
    | none => .string rawVal

/-- The body of the loop of `parse_kwargs_to_json` (lines 171–203) on the members so far. -/
def insertArgument (map : List (Text × Json.Value)) (part : Text) :
    Except (Fault Empty) (List (Text × Json.Value)) :=
  match splitOnce '=' part with
  | none => .ok map
  | some (key, rawValue) =>
    let key := trim key
    if !isName key then .ok map
    else
      let rawVal := trimEndMatches [')'] (trim rawValue)
      let length := (asBytes rawVal).length
      if 2 ≤ length ∧ ((rawVal.head? = some '"' ∧ rawVal.getLast? = some '"') ∨
          (rawVal.head? = some '\'' ∧ rawVal.getLast? = some '\'')) then do
        let value ← sliceStr rawVal 1 (length - 1)
        return Runtime.OrderedMap.insert key (.string value) map
      else .ok (Runtime.OrderedMap.insert key (argumentValue rawVal) map)

/-- `parse_kwargs_to_json` (lines 168–206). -/
def parseKwargsToJson (args : Text) : Except (Fault Empty) Text := do
  let parts ← splitKwargs args
  let map ← parts.foldlM insertArgument []
  return Json.stringify (.object map)

/-! ## Calls -/

/-- `FunctionCall`. -/
structure FunctionCall where
  name : Text
  arguments : Text

/-- `ToolCall` (`crates/mrml-model/src/chat.rs`, lines 20–24). -/
structure ToolCall where
  id : Text
  toolType : Text
  function : FunctionCall

/-- The call that `parse_gemma_tool_call` makes at a time (lines 235–244, 255–264, 272–281). -/
def toolCall (millis : ℕ) (name arguments : Text) : ToolCall where
  id := "call_".toList ++ Nat.toDigits 10 millis
  toolType := "function".toList
  function := ⟨name, arguments⟩

/-- `value.get(key)`. -/
def get (value : Json.Value) (key : Text) : Option Json.Value :=
  match value with
  | .object entries => Runtime.OrderedMap.get key entries
  | _ => none

/-- `value.as_str()`. -/
def asStr : Json.Value → Option Text
  | .string text => some text
  | _ => none

/-- The name and the arguments of a call that is written as JSON (lines 225–234). -/
def jsonCall (value : Json.Value) : Option (Text × Text) := do
  let name ← (get value "name".toList).bind asStr
  let args := (get value "arguments".toList).getD (.object [])
  return (name, (asStr args).getD (Json.stringify args))

/-- The text without the markers of a call (lines 209–217). -/
def callText (raw : Text) : Text :=
  trim (trimEndMatches "</tool_call>".toList (trimEndMatches "<tool_call|>".toList
    (trimEndMatches "</call>".toList (trimEndMatches "<call|>".toList
      (trimStartMatches "<|tool_call>".toList (trimStartMatches "<|call>".toList (trim raw)))))))

/-- `stripped_call` (line 249). -/
def strippedCall (text : Text) : Text := trim (trimStartMatches "call:".toList text)

/-- The calls that are not JSON (lines 248–285). -/
def parseNamedCall (millis : ℕ) (strippedCall : Text) : Except (Fault Empty) (Option ToolCall) :=
  match find '\x7b' strippedCall with
  | some bracePos => do
    let name := trim (← sliceStr strippedCall 0 bracePos)
    let argsPart ← sliceStr strippedCall bracePos (asBytes strippedCall).length
    if name ≠ [] then
      return some (toolCall millis name (← normalizeRelaxedJson argsPart))
    else return none
  | none =>
    match find '(' strippedCall with
    | some parenPos => do
      let name := trim (← sliceStr strippedCall 0 parenPos)
      let endParen := (rfind ')' strippedCall).getD (asBytes strippedCall).length
      let argsPart ← sliceStr strippedCall (parenPos + 1) endParen
      if name ≠ [] then
        return some (toolCall millis name (← parseKwargsToJson argsPart))
      else return none
    | none => return none

/-- `parse_gemma_tool_call` (lines 208–286). -/
def parseGemmaToolCall (millis : ℕ) (raw : Text) : Except (Fault Empty) (Option ToolCall) := do
  let text := callText raw
  if text = [] then return none
  match (← fromStr text).bind jsonCall with
  | some (name, arguments) => return some (toolCall millis name arguments)
  | none => parseNamedCall millis (strippedCall text)

end Mrml.Agent
