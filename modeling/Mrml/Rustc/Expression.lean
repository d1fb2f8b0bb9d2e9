import Mrml.Common.Checked

/-!
# Expression trees of the compiler and their values

Model of `crates/mrml-rustc/src/expression.rs`: the tree of an expression (lines 97–370,
425–448), `is_boolean_expression` (lines 450–531), the arithmetic on constants (lines 948–1033)
and the evaluation of a tree (lines 533–899).

A value is a `u128`, here `BitVec 128`; an `i128` is the integer it stands for. A tree is an array
of nodes that name each other by their index, so that nothing keeps it from having cycles; every
recursion over it counts its depth, and the functions below count the levels that are left.
-/

namespace Mrml.Rustc

/-- `u128`. -/
abbrev U128 := BitVec 128

/-- `MAX_EXPRESSION_DEPTH` (line 3). -/
def maxExpressionDepth : ℕ := 64

/-- `MAX_CALL_ARGUMENTS` (line 4). -/
def maxCallArguments : ℕ := 4

/-- `MAX_ARRAY_ELEMENTS` (line 12). -/
def maxArrayElements : ℕ := 16

/-! ## Trees -/

/-- `Span` (`lexer.rs`, lines 2–5). -/
structure Span where
  start : ℕ
  stop : ℕ
  deriving DecidableEq

/-- `ExprId` (line 99). -/
structure ExprId where
  index : ℕ
  deriving DecidableEq

/-- `[Option<ExprId>; CAPACITY]` with a count: the part of the array below the count. -/
structure ExprIds (capacity : ℕ) where
  ids : List (Option ExprId)
  within : ids.length ≤ capacity
  deriving DecidableEq

/-- `UnaryOperator` (lines 108–114). -/
inductive UnaryOperator
  | negate | not | dereference | addressOf | addressOfMut
  deriving DecidableEq

/-- `BinaryOperator` (lines 117–136). -/
inductive BinaryOperator
  | logicalOr | logicalAnd | bitOr | bitXor | bitAnd
  | equal | notEqual | less | lessEqual | greater | greaterEqual
  | shiftLeft | shiftRight | add | subtract | multiply | divide | remainder
  deriving DecidableEq

/-- `IntegerType` (lines 139–152). -/
inductive IntegerType
  | u8 | u16 | u32 | u64 | u128 | usize | i8 | i16 | i32 | i64 | i128 | isize
  deriving DecidableEq

namespace IntegerType

/-- `IntegerType::from_name` (lines 193–209). -/
def fromName : String → Option IntegerType
  | "u8" => some .u8
  | "u16" => some .u16
  | "u32" => some .u32
  | "u64" => some .u64
  | "u128" => some .u128
  | "usize" => some .usize
  | "i8" => some .i8
  | "i16" => some .i16
  | "i32" => some .i32
  | "i64" => some .i64
  | "i128" => some .i128
  | "isize" => some .isize
  | _ => none

/-- `IntegerType::bits` (lines 211–221). -/
def bits (pointerBits : ℕ) : IntegerType → Option ℕ
  | u8 | i8 => some 8
  | u16 | i16 => some 16
  | u32 | i32 => some 32
  | u64 | i64 => some 64
  | u128 | i128 => some 128
  | usize | isize =>
    if pointerBits = 16 ∨ pointerBits = 32 ∨ pointerBits = 64 then some pointerBits else none

/-- `IntegerType::is_signed` (lines 223–228). -/
def isSigned : IntegerType → Bool
  | i8 | i16 | i32 | i64 | i128 | isize => true
  | _ => false

/-- `IntegerType::name` (lines 230–245). -/
def name : IntegerType → String
  | u8 => "u8"
  | u16 => "u16"
  | u32 => "u32"
  | u64 => "u64"
  | u128 => "u128"
  | usize => "usize"
  | i8 => "i8"
  | i16 => "i16"
  | i32 => "i32"
  | i64 => "i64"
  | i128 => "i128"
  | isize => "isize"

end IntegerType

/-- `ScalarType` (lines 155–158). -/
inductive ScalarType
  | integer (ty : IntegerType)
  | bool
  deriving DecidableEq

/-- `PointerPointee` (lines 161–165). -/
inductive PointerPointee
  | integer (ty : IntegerType)
  | bool
  | char
  deriving DecidableEq

/-- `CastType` (lines 168–174). -/
inductive CastType
  | integer (ty : IntegerType)
  | rawPointer (pointee : PointerPointee) (mutable : Bool)
  deriving DecidableEq

/-- `IntegerLiteral` (lines 187–190). -/
structure IntegerLiteral where
  value : U128
  suffix : Option String
  deriving DecidableEq

/-- `ExprKind` (lines 249–363). -/
inductive ExprKind
  | unit
  | defaultValue
  | array (elements : ExprIds maxArrayElements)
  | arrayRepeat (element : ExprId) (count : ℕ)
  | index (base index : ExprId)
  | rangeIndex (base : ExprId) (start stop : Option ExprId) (inclusive : Bool)
  | sliceLen (base : ExprId)
  | sliceIsEmpty (base : ExprId)
  | strAsBytes (base : ExprId)
  | strIsCharBoundary (base index : ExprId)
  | referenceAsPointer (base : ExprId) (mutable : Bool)
  | rawPointerIsNull (base : ExprId)
  | rawPointerAddress (base : ExprId)
  | rawPointerMutability (base : ExprId) (mutable : Bool)
  | rawPointerWithAddress (base address : ExprId)
  | rawPointerOffset (base offset : ExprId) (subtract wrapping signed bytes : Bool)
  | rawPointerDifference (pointer origin : ExprId) (bytes : Bool)
  | integer (literal : IntegerLiteral)
  | bool (value : Bool)
  | char (value : UInt32)
  | identifier (name : String)
  | call (callee : String) (arguments : ExprIds maxCallArguments)
  | inlineConst (operand : ExprId)
  | ascribe (operand : ExprId) (target : ScalarType)
  | sequence (first next : ExprId)
  | cast (operand : ExprId) (target : CastType)
  | unary (operator : UnaryOperator) (operand : ExprId)
  | binary (operator : BinaryOperator) (left right : ExprId)
  | ifElse (condition thenBranch elseBranch : ExprId)
  | ret (operand : ExprId)
  | loopBreak (operand : ExprId)
  | loopBreakIf (condition thenBranch elseBranch : ExprId)
  deriving DecidableEq

/-- `Expr` (lines 366–369). -/
structure Expr where
  kind : ExprKind
  span : Span
  deriving DecidableEq

/-- `RangeValidation` (lines 91–96). -/
structure RangeValidation where
  scrutinee : ExprId
  start : Option ExprId
  stop : Option ExprId
  inclusive : Bool
  deriving DecidableEq

/-- `ExpressionTree` (lines 425–431): the slots of `nodes`, and the filled slots of
`range_validations`. -/
structure ExpressionTree where
  nodes : List (Option Expr)
  rangeValidations : List (Option RangeValidation)
  root : ExprId
  deriving DecidableEq

/-- `ConstEvalError` (lines 934–946). -/
inductive ConstEvalError
  | unknownIdentifier | divisionByZero | overflow | invalidShift | invalidCast
  | invalidExpressionTree | nestingLimitExceeded | unsupportedCall | arrayIndexOutOfBounds
  | invalidRangeType | invalidRangeBounds
  deriving DecidableEq

/-- `ConstantResolver` (lines 901–923), less the types of calls. -/
structure ConstantResolver where
  resolve : String → Option U128
  resolveType : String → Option IntegerType
  resolvesBool : String → Bool
  resolveCall : String → List U128 → Option U128

/-- `NoConstants` (lines 925–931). -/
def noConstants : ConstantResolver where
  resolve _ := none
  resolveType _ := none
  resolvesBool _ := false
  resolveCall _ _ := none

/-! ## Arithmetic on constants -/

/-- `u128::from(bool)`. -/
def boolValue (b : Bool) : U128 := if b then 1 else 0

/-- `cast_integer` (lines 948–968). -/
def castInteger (value : U128) (target : IntegerType) (pointerBits : ℕ) :
    Except ConstEvalError U128 := do
  let bits ← okOr (target.bits pointerBits) .invalidCast
  let mask : U128 := if bits = 128 then BitVec.allOnes 128 else (1 <<< bits) - 1
  let truncated := value &&& mask
  if target.isSigned ∧ bits ≠ 128 ∧ truncated &&& (1 <<< (bits - 1)) ≠ 0 then
    return truncated ||| ~~~mask
  else
    return truncated

/-- `ascribe_integer` (lines 970–981). -/
def ascribeInteger (value : U128) (target : IntegerType) (pointerBits : ℕ) :
    Except ConstEvalError U128 := do
  let normalized ← castInteger value target pointerBits
  if normalized = value then return value else throw .overflow

/-- `negate_signed_magnitude` (lines 983–999). -/
def negateSignedMagnitude (magnitude : U128) (target : IntegerType) (pointerBits : ℕ) :
    Except ConstEvalError U128 := do
  refuseIf (target.isSigned = false) .invalidCast
  let bits ← okOr (target.bits pointerBits) .invalidCast
  let limit : U128 := 1 <<< (bits - 1)
  refuseIf (magnitude > limit) .overflow
  castInteger (0 - magnitude) target pointerBits

/-- `u128::checked_add`, `checked_sub` and `checked_mul`: `none` where the result does not fit. -/
def checked128 (value : ℤ) : Option U128 :=
  if 0 ≤ value ∧ value < 2 ^ 128 then some (BitVec.ofInt 128 value) else none

/-- The distance of a shift: `u32::try_from(right)` and the limit of `checked_shl`. -/
def shiftDistance (right : U128) : Except ConstEvalError ℕ :=
  if right.toNat < 2 ^ 32 ∧ right.toNat < 128 then .ok right.toNat else .error .invalidShift

/-- `evaluate_binary` (lines 1001–1033). -/
def evaluateBinary (operator : BinaryOperator) (left right : U128) : Except ConstEvalError U128 :=
  match operator with
  | .logicalOr => .ok (boolValue (left != 0 || right != 0))
  | .logicalAnd => .ok (boolValue (left != 0 && right != 0))
  | .bitOr => .ok (left ||| right)
  | .bitXor => .ok (left ^^^ right)
  | .bitAnd => .ok (left &&& right)
  | .equal => .ok (boolValue (left == right))
  | .notEqual => .ok (boolValue (left != right))
  | .less => .ok (boolValue (decide (left < right)))
  | .lessEqual => .ok (boolValue (decide (left ≤ right)))
  | .greater => .ok (boolValue (decide (left > right)))
  | .greaterEqual => .ok (boolValue (decide (left ≥ right)))
  | .shiftLeft => (shiftDistance right).map (left <<< ·)
  | .shiftRight => (shiftDistance right).map (left >>> ·)
  | .add => okOr (checked128 (left.toNat + right.toNat)) .overflow
  | .subtract => okOr (checked128 (left.toNat - right.toNat)) .overflow
  | .multiply => okOr (checked128 (left.toNat * right.toNat)) .overflow
  | .divide => if right = 0 then .error .divisionByZero else .ok (left / right)
  | .remainder => if right = 0 then .error .divisionByZero else .ok (left % right)

/-- The operators of line 753: `!value`, and `checked_sub` from zero. -/
def evaluateUnary (operator : UnaryOperator) (value : U128) : Except ConstEvalError U128 :=
  match operator with
  | .negate => okOr (checked128 (0 - value.toNat)) .overflow
  | .not => .ok (~~~value)
  | .dereference | .addressOf | .addressOfMut => .error .invalidExpressionTree

/-- `usize::try_from` of a `u128`, on a 64-bit host. -/
def usizeOf (value : U128) : Option ℕ := if value.toNat < 2 ^ 64 then some value.toNat else none

/-! ## Range patterns -/

/-- `PatternOrderValue` (lines 44–48). -/
inductive PatternOrderValue
  | unsigned (value : U128)
  | signed (value : ℤ)
  | character (value : UInt32)

/-- `PatternOrderValue::compare` (lines 57–79). -/
def PatternOrderValue.compare : PatternOrderValue → PatternOrderValue → Option Ordering
  | .unsigned left, .unsigned right => some (Ord.compare left.toNat right.toNat)
  | .signed left, .signed right => some (Ord.compare left right)
  | .signed left, .unsigned right =>
    if left < 0 then some .lt else some (Ord.compare left.toNat right.toNat)
  | .unsigned left, .signed right =>
    if right < 0 then some .gt else some (Ord.compare left.toNat right.toNat)
  | .character left, .character right => some (Ord.compare left.toNat right.toNat)
  | _, _ => none

/-- `value as i128` of the value of a constant of the signed type with `bits` bits
(lines 629–640). -/
def signedPatternValue (value : U128) (bits : ℕ) : ℤ :=
  if bits = 128 then value.toInt
  else
    let mask : U128 := (1 <<< bits) - 1
    let value := value &&& mask
    if value &&& (1 <<< (bits - 1)) = 0 then value.toInt else (value ||| ~~~mask).toInt

namespace ExpressionTree

variable (tree : ExpressionTree) (resolver : ConstantResolver)

/-- `ExpressionTree::expression` (lines 446–448). -/
def expression (id : ExprId) : Option Expr := tree.nodes[id.index]?.join

/-- `literal.suffix.and_then(IntegerType::from_name).filter(is_signed)` where the operand is a
literal (lines 733–742). -/
def signedLiteralTarget (operand : ExprId) : Option IntegerType :=
  (tree.expression operand).bind fun expression =>
    match expression.kind with
    | .integer literal => (literal.suffix.bind IntegerType.fromName).filter IntegerType.isSigned
    | _ => none

/-- `resolved_pattern_order_value` (lines 578–650). -/
def resolvedPatternOrderValue (id : ExprId) (pointerBits : ℕ) :
    Except ConstEvalError (Option PatternOrderValue) := do
  let expression ← okOr (tree.expression id) .invalidExpressionTree
  match expression.kind with
  | .integer literal =>
    if ((literal.suffix.bind IntegerType.fromName).any IntegerType.isSigned) then
      return if literal.value.toNat < 2 ^ 127 then some (.signed literal.value.toNat) else none
    else
      return some (.unsigned literal.value)
  | .unary .negate operand =>
    match (tree.expression operand).map Expr.kind with
    | some (.integer literal) => do
      refuseIf (literal.value.toNat > 2 ^ 127) .overflow
      return some (.signed (-literal.value.toNat))
    | _ => return none
  | .char value => return some (.character value)
  | .bool _ => throw .invalidRangeType
  | .identifier name =>
    if resolver.resolvesBool name then throw .invalidRangeType
    else
      match resolver.resolveType name, resolver.resolve name with
      | some ty, some value =>
        if ty.isSigned then do
          let bits ← okOr (ty.bits pointerBits) .invalidCast
          return some (.signed (signedPatternValue value bits))
        else return some (.unsigned value)
      | _, _ => return none
  | _ => return none

/-- One turn of the loop of `validate_ranges`. -/
def validateRange (pointerBits : ℕ) (validation : RangeValidation) :
    Except ConstEvalError Unit :=
  match validation.start, validation.stop with
  | some start, some stop => do
    let start ← tree.resolvedPatternOrderValue resolver start pointerBits
    let stop ← tree.resolvedPatternOrderValue resolver stop pointerBits
    match start, stop with
    | some start, some stop =>
      let order ← okOr (start.compare stop) .invalidRangeType
      refuseIf (if validation.inclusive then order = .gt else order ≠ .lt) .invalidRangeBounds
    | _, _ => return
  | _, _ => return

/-- `validate_ranges` (lines 546–576). -/
def validateRanges (pointerBits : ℕ) : Except ConstEvalError Unit :=
  (tree.rangeValidations.filterMap id).forM (tree.validateRange resolver pointerBits)

/-! ## Evaluation -/

/-- `is_boolean_expression` (lines 450–531); the first argument is the number of levels that the
depth is below `MAX_EXPRESSION_DEPTH`. -/
def isBooleanExpression : ℕ → ExprId → Bool
  | 0, _ => false
  | levels + 1, id =>
    match tree.expression id with
    | none => false
    | some expression =>
      match expression.kind with
      | .bool _ => true
      | .sliceIsEmpty _ => true
      | .ascribe operand .bool => isBooleanExpression levels operand
      | .sequence _ next => isBooleanExpression levels next
      | .ifElse _ thenBranch elseBranch | .loopBreakIf _ thenBranch elseBranch =>
        isBooleanExpression levels thenBranch && isBooleanExpression levels elseBranch
      | .ret operand | .loopBreak operand | .inlineConst operand | .unary .not operand =>
        isBooleanExpression levels operand
      | .binary operator _ _ =>
        operator ∈ [.logicalOr, .logicalAnd, .equal, .notEqual, .less, .lessEqual, .greater,
          .greaterEqual]
      | _ => false

/-- `array_length` (lines 867–898). -/
def arrayLength : ℕ → ExprId → Option ℕ
  | 0, _ => none
  | levels + 1, id =>
    match tree.expression id with
    | none => none
    | some expression =>
      match expression.kind with
      | .array elements => some elements.ids.length
      | .arrayRepeat _ count => some count
      | .ifElse _ thenBranch elseBranch | .loopBreakIf _ thenBranch elseBranch =>
        match arrayLength levels thenBranch, arrayLength levels elseBranch with
        | some left, some right => if left = right then some left else none
        | some length, none | none, some length => some length
        | none, none => none
      | .inlineConst operand | .loopBreak operand | .ret operand => arrayLength levels operand
      | .sequence _ next => arrayLength levels next
      | _ => none

variable (pointerBits : ℕ)

/-- A unary operator on the value of its operand (lines 731–757). -/
def unaryValue (levels : ℕ) (operator : UnaryOperator) (operand : ExprId) (value : U128) :
    Except ConstEvalError U128 :=
  match operator, tree.signedLiteralTarget operand with
  | .negate, some target => negateSignedMagnitude value target pointerBits
  | .not, _ =>
    if tree.isBooleanExpression levels operand then .ok (boolValue (value == 0))
    else evaluateUnary .not value
  | operator, _ => evaluateUnary operator value

mutual

/-- `evaluate_node` (lines 652–801). The source casts to a pointer width of 64 bits, which is
`pointerBits` here. -/
def evaluateNode : ℕ → ExprId → Except ConstEvalError U128
  | 0, _ => .error .nestingLimitExceeded
  | levels + 1, id => do
    let expression ← okOr (tree.expression id) .invalidExpressionTree
    match expression.kind with
    | .unit | .defaultValue => return 0
    | .index base index => do
      let index ← evaluateNode levels index
      let index ← okOr (usizeOf index) .arrayIndexOutOfBounds
      refuseIf ((tree.arrayLength levels base).all fun length => decide (index ≥ length))
        .arrayIndexOutOfBounds
      evaluateArrayElement levels base index
    | .integer literal => return literal.value
    | .bool value => return boolValue value
    | .char value => return BitVec.ofNat 128 value.toNat
    | .identifier name => okOr (resolver.resolve name) .unknownIdentifier
    | .call callee arguments => do
      let values ← arguments.ids.mapM fun argument => do
        evaluateNode levels (← okOr argument .invalidExpressionTree)
      okOr (resolver.resolveCall callee values) .unsupportedCall
    | .cast operand target => do
      let value ← evaluateNode levels operand
      match target with
      | .integer target => castInteger value target pointerBits
      | .rawPointer _ _ => throw .invalidCast
    | .ascribe operand target => do
      let value ← evaluateNode levels operand
      match target with
      | .integer target => ascribeInteger value target pointerBits
      | .bool =>
        if tree.isBooleanExpression levels operand then return boolValue (value != 0)
        else throw .invalidCast
    | .unary operator operand => do
      let value ← evaluateNode levels operand
      unaryValue tree pointerBits levels operator operand value
    | .binary operator left right => do
      let left ← evaluateNode levels left
      if operator = .logicalAnd ∧ left = 0 then return 0
      else if operator = .logicalOr ∧ left ≠ 0 then return 1
      else
        let right ← evaluateNode levels right
        evaluateBinary operator left right
    | .ifElse condition thenBranch elseBranch
    | .loopBreakIf condition thenBranch elseBranch => do
      let value ← evaluateNode levels condition
      if value ≠ 0 then evaluateNode levels thenBranch else evaluateNode levels elseBranch
    | .ret operand | .loopBreak operand | .inlineConst operand => evaluateNode levels operand
    | .sequence first next => do
      let _ ← evaluateNode levels first
      evaluateNode levels next
    | .array _ | .arrayRepeat _ _ | .rangeIndex _ _ _ _ | .sliceLen _ | .sliceIsEmpty _
    | .strAsBytes _ | .strIsCharBoundary _ _ | .referenceAsPointer _ _ | .rawPointerIsNull _
    | .rawPointerAddress _ | .rawPointerMutability _ _ | .rawPointerWithAddress _ _
    | .rawPointerOffset _ _ _ _ _ _ | .rawPointerDifference _ _ _ =>
      throw .invalidExpressionTree

/-- `evaluate_array_element` (lines 803–865). -/
def evaluateArrayElement : ℕ → ExprId → ℕ → Except ConstEvalError U128
  | 0, _, _ => .error .nestingLimitExceeded
  | levels + 1, id, index => do
    let expression ← okOr (tree.expression id) .invalidExpressionTree
    match expression.kind with
    | .defaultValue => return 0
    | .array elements => do
      refuseIf (index ≥ elements.ids.length) .arrayIndexOutOfBounds
      let values ← elements.ids.mapM fun element => do
        evaluateNode levels (← okOr element .invalidExpressionTree)
      okOr values[index]? .arrayIndexOutOfBounds
    | .arrayRepeat element count => do
      refuseIf (index ≥ count) .arrayIndexOutOfBounds
      evaluateNode levels element
    | .ifElse condition thenBranch elseBranch
    | .loopBreakIf condition thenBranch elseBranch => do
      let value ← evaluateNode levels condition
      evaluateArrayElement levels (if value ≠ 0 then thenBranch else elseBranch) index
    | .inlineConst operand | .loopBreak operand | .ret operand =>
      evaluateArrayElement levels operand index
    | _ => throw .invalidExpressionTree

end

/-- `evaluate` (lines 533–536). -/
def evaluate : Except ConstEvalError U128 := do
  tree.validateRanges resolver 64
  tree.evaluateNode resolver 64 maxExpressionDepth tree.root

end ExpressionTree

end Mrml.Rustc
