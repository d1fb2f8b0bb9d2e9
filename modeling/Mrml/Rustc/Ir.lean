import Mrml.Common.Machine
import Mrml.Rustc.Expression

/-!
# The intermediate code of constant expressions

Model of `crates/mrml-rustc/src/ir.rs`: the instructions and the execution of a program
(lines 9–228), and the lowering of an expression tree (lines 230–581).

A program is the part of the instruction array below `instruction_count`, and the stack of the
execution has its top first. The lowering passes the program along; the depth of a tree is
counted by the levels that are left, as in `Mrml.Rustc.Expression`.
-/

namespace Mrml.Rustc

/-- `MAX_LOWERING_DEPTH` (line 9). -/
def maxLoweringDepth : ℕ := 64

/-- `Instruction` (lines 12–28). -/
inductive Instruction
  | pushInteger (value : U128)
  | loadConstant (name : String)
  | callConstant (name : String) (argumentCount : ℕ)
  | unary (operator : UnaryOperator)
  | booleanNot
  | signedLiteralNegate (target : IntegerType) (pointerBits : ℕ)
  | cast (target : IntegerType) (pointerBits : ℕ)
  | ascribeInteger (target : IntegerType) (pointerBits : ℕ)
  | binary (operator : BinaryOperator)
  | normalizeBool
  | pop
  | branchIfFalse (target : ℕ)
  | branchIfTrue (target : ℕ)
  | jumpIfFalse (target : ℕ)
  | jump (target : ℕ)
  deriving DecidableEq

/-- The target of a branch. -/
def Instruction.branchTarget : Instruction → Option ℕ
  | .branchIfFalse target | .branchIfTrue target | .jumpIfFalse target | .jump target =>
    some target
  | _ => none

/-- `IrErrorKind` (lines 31–37). -/
inductive IrErrorKind
  | missingExpression | invalidExpressionTree | tooManyInstructions | nestingLimitExceeded
  | unsupportedCall
  deriving DecidableEq

/-- `IrError` (lines 40–43). -/
structure IrError where
  kind : IrErrorKind
  span : Span
  deriving DecidableEq

/-- `ExecutionError` (lines 46–53). -/
inductive ExecutionError
  | unknownConstant
  | stackOverflow
  | stackUnderflow
  | invalidBranch
  | invalidFinalStack
  | arithmetic (error : ConstEvalError)
  deriving DecidableEq

/-- `IrProgram` (lines 56–59): `instructions[..instruction_count]`. -/
structure IrProgram where
  instructions : List (Option Instruction)
  deriving DecidableEq

/-! ## Execution -/

/-- `push` (lines 207–218). -/
def push (maxStack : ℕ) (value : U128) (stack : List U128) :
    Except ExecutionError (List U128) :=
  if stack.length < maxStack then .ok (value :: stack) else .error .stackOverflow

/-- `pop` (lines 220–228). -/
def pop : List U128 → Except ExecutionError (U128 × List U128)
  | [] => .error .stackUnderflow
  | value :: stack => .ok (value, stack)

/-- The arguments of a call (lines 98–100): the last one is on top. -/
def popArguments : ℕ → List U128 → Except ExecutionError (List U128 × List U128)
  | 0, stack => .ok ([], stack)
  | count + 1, stack => do
    let (value, stack) ← pop stack
    let (values, stack) ← popArguments count stack
    return (values ++ [value], stack)

/-- `validate_branch` (lines 199–205). -/
def validateBranch (current target length : ℕ) : Except ExecutionError Unit :=
  refuseIf (target ≤ current ∨ target > length) .invalidBranch

section Execute

variable (resolver : ConstantResolver) (maxStack : ℕ)

/-- One turn of the loop of `execute` (lines 85–191) for the instruction at `pc` of a program with
`length` instructions. -/
def perform (length pc : ℕ) (stack : List U128) :
    Instruction → Except ExecutionError (ℕ × List U128)
  | .pushInteger value => do return (pc + 1, ← push maxStack value stack)
  | .loadConstant name => do
    let value ← okOr (resolver.resolve name) .unknownConstant
    return (pc + 1, ← push maxStack value stack)
  | .callConstant name argumentCount => do
    refuseIf (argumentCount > maxCallArguments) .invalidFinalStack
    let (arguments, stack) ← popArguments argumentCount stack
    let value ← okOr (resolver.resolveCall name arguments) .unknownConstant
    return (pc + 1, ← push maxStack value stack)
  | .unary operator => do
    let (value, stack) ← pop stack
    let result ← (evaluateUnary operator value).mapError .arithmetic
    return (pc + 1, ← push maxStack result stack)
  | .booleanNot => do
    let (value, stack) ← pop stack
    return (pc + 1, ← push maxStack (boolValue (value == 0)) stack)
  | .signedLiteralNegate target pointerBits => do
    let (magnitude, stack) ← pop stack
    let value ← (negateSignedMagnitude magnitude target pointerBits).mapError .arithmetic
    return (pc + 1, ← push maxStack value stack)
  | .cast target pointerBits => do
    let (value, stack) ← pop stack
    let value ← (castInteger value target pointerBits).mapError .arithmetic
    return (pc + 1, ← push maxStack value stack)
  | .ascribeInteger target pointerBits => do
    let (value, stack) ← pop stack
    let value ← (Rustc.ascribeInteger value target pointerBits).mapError .arithmetic
    return (pc + 1, ← push maxStack value stack)
  | .binary operator => do
    let (right, stack) ← pop stack
    let (left, stack) ← pop stack
    let value ← (evaluateBinary operator left right).mapError .arithmetic
    return (pc + 1, ← push maxStack value stack)
  | .normalizeBool => do
    let (value, stack) ← pop stack
    return (pc + 1, ← push maxStack (boolValue (value != 0)) stack)
  | .pop => do
    let (_, stack) ← pop stack
    return (pc + 1, stack)
  | .branchIfFalse target => do
    let (value, stack) ← pop stack
    if value = 0 then
      validateBranch pc target length
      return (target, ← push maxStack 0 stack)
    else return (pc + 1, stack)
  | .branchIfTrue target => do
    let (value, stack) ← pop stack
    if value ≠ 0 then
      validateBranch pc target length
      return (target, ← push maxStack 1 stack)
    else return (pc + 1, stack)
  | .jumpIfFalse target => do
    let (value, stack) ← pop stack
    if value = 0 then
      validateBranch pc target length
      return (target, stack)
    else return (pc + 1, stack)
  | .jump target => do
    validateBranch pc target length
    return (target, stack)

/-- A turn that ends with `program_counter += 1`, and does the same to the stack wherever the
instruction stands. -/
def FallsThrough (turn : ℕ → ℕ → Except ExecutionError (ℕ × List U128)) : Prop :=
  ∃ x : Except ExecutionError (List U128),
    ∀ length pc, turn length pc = x.map fun stack => (pc + 1, stack)

theorem FallsThrough.last (x : Except ExecutionError (List U128)) :
    FallsThrough fun _ pc => x >>= fun stack => .ok (pc + 1, stack) := by
  refine ⟨x, fun _ _ => ?_⟩
  cases x <;> rfl

theorem FallsThrough.bind {α : Type} {x : Except ExecutionError α}
    {turn : α → ℕ → ℕ → Except ExecutionError (ℕ × List U128)} (h : ∀ a, FallsThrough (turn a)) :
    FallsThrough fun length pc => x >>= fun a => turn a length pc := by
  cases x with
  | error error => exact ⟨.error error, fun _ _ => rfl⟩
  | ok a => exact h a

/-- Every instruction that is no branch goes on to the next one. -/
theorem perform_fallsThrough (stack : List U128) {instruction : Instruction}
    (h : instruction.branchTarget = none) :
    FallsThrough fun length pc => perform resolver maxStack length pc stack instruction := by
  cases instruction with
  | pushInteger value => exact .last _
  | loadConstant name => exact .bind fun _ => .last _
  | callConstant name argumentCount =>
    exact .bind fun _ => .bind fun ⟨_, _⟩ => .bind fun _ => .last _
  | unary operator => exact .bind fun ⟨_, _⟩ => .bind fun _ => .last _
  | booleanNot => exact .bind fun ⟨_, _⟩ => .last _
  | signedLiteralNegate target pointerBits => exact .bind fun ⟨_, _⟩ => .bind fun _ => .last _
  | cast target pointerBits => exact .bind fun ⟨_, _⟩ => .bind fun _ => .last _
  | ascribeInteger target pointerBits => exact .bind fun ⟨_, _⟩ => .bind fun _ => .last _
  | binary operator => exact .bind fun ⟨_, _⟩ => .bind fun ⟨_, _⟩ => .bind fun _ => .last _
  | normalizeBool => exact .bind fun ⟨_, _⟩ => .last _
  | pop => exact .bind fun ⟨_, stack⟩ => .last (.ok stack)
  | branchIfFalse | branchIfTrue | jumpIfFalse | jump => cases h

theorem lt_of_validateBranch {current target length : ℕ} {u : Unit}
    (h : validateBranch current target length = .ok u) : current < target ∧ target ≤ length := by
  have := refuseIf_eq_ok.mp h
  omega

/-- Every instruction moves the program counter forward. -/
theorem perform_advances {length pc : ℕ} {stack : List U128} {instruction : Instruction}
    {t : ℕ × List U128} (h : perform resolver maxStack length pc stack instruction = .ok t) :
    pc < t.1 := by
  have hnext : ∀ {stack' : List U128},
      (.ok (pc + 1, stack') : Except ExecutionError _) = .ok t → pc < t.1 := by
    rintro stack' h
    obtain rfl := Except.ok.inj h
    exact Nat.lt_succ_self pc
  cases hbranch : instruction.branchTarget with
  | none =>
    obtain ⟨x, hx⟩ := perform_fallsThrough resolver maxStack stack hbranch
    cases x with
    | error error => cases (hx length pc).symm.trans h
    | ok stack' => exact hnext ((hx length pc).symm.trans h)
  | some target =>
    cases instruction with
    | branchIfFalse | branchIfTrue =>
      obtain ⟨⟨value, stack'⟩, _, h⟩ := bind_eq_ok.mp h
      dsimp only at h
      split_ifs at h
      · obtain ⟨_, hvalid, h⟩ := bind_eq_ok.mp h
        obtain ⟨_, _, h⟩ := bind_eq_ok.mp h
        obtain rfl := Except.ok.inj h
        exact (lt_of_validateBranch hvalid).1
      · exact hnext h
    | jumpIfFalse =>
      obtain ⟨⟨value, stack'⟩, _, h⟩ := bind_eq_ok.mp h
      dsimp only at h
      split_ifs at h
      · obtain ⟨_, hvalid, h⟩ := bind_eq_ok.mp h
        obtain rfl := Except.ok.inj h
        exact (lt_of_validateBranch hvalid).1
      · exact hnext h
    | jump =>
      obtain ⟨_, hvalid, h⟩ := bind_eq_ok.mp h
      obtain rfl := Except.ok.inj h
      exact (lt_of_validateBranch hvalid).1
    | _ => cases hbranch

/-- The machine that `execute` runs. -/
def machine (program : IrProgram) : ForwardMachine ExecutionError (List U128) where
  length := program.instructions.length
  step pc stack := do
    let instruction ← okOr program.instructions[pc]?.join .invalidBranch
    perform resolver maxStack program.instructions.length pc stack instruction
  forward _ h := by
    obtain ⟨_, _, h⟩ := bind_eq_ok.mp h
    exact perform_advances resolver maxStack h

/-- `execute` (lines 74–197). -/
def IrProgram.execute (program : IrProgram) : Except ExecutionError U128 := do
  let stack ← (machine resolver maxStack program).run 0 []
  match stack with
  | [value] => return value
  | _ => throw .invalidFinalStack

end Execute

/-! ## Lowering -/

namespace Lowerer

/-- `Lowerer::push` (lines 239–250): the index of the instruction, and the program with it. -/
def push (capacity : ℕ) (instruction : Instruction) (span : Span) (program : IrProgram) :
    Except IrError (ℕ × IrProgram) :=
  if program.instructions.length = capacity then .error ⟨.tooManyInstructions, span⟩
  else .ok (program.instructions.length, ⟨program.instructions ++ [some instruction]⟩)

/-- `Lowerer::patch` (lines 252–254). -/
def patch (index : ℕ) (instruction : Instruction) (program : IrProgram) : IrProgram :=
  ⟨program.instructions.set index (some instruction)⟩

variable (tree : ExpressionTree) (pointerBits capacity : ℕ)

/-- The instruction for a unary operator (lines 363–383). -/
def unaryInstruction (levels : ℕ) (operator : UnaryOperator) (operand : ExprId) : Instruction :=
  match operator, tree.signedLiteralTarget operand with
  | .negate, some target => .signedLiteralNegate target pointerBits
  | operator, _ =>
    if operator = .not ∧ tree.isBooleanExpression levels operand then .booleanNot
    else .unary operator

mutual

/-- `Lowerer::lower` (lines 256–464). -/
def lower : ℕ → ExprId → IrProgram → Except IrError IrProgram
  | 0, id, _ => do
    let expression ← okOr (tree.expression id) ⟨.missingExpression, ⟨0, 0⟩⟩
    throw ⟨.nestingLimitExceeded, expression.span⟩
  | levels + 1, id, program => do
    let expression ← okOr (tree.expression id) ⟨.missingExpression, ⟨0, 0⟩⟩
    match expression.kind with
    | .unit | .defaultValue => do
      let (_, program) ← push capacity (.pushInteger 0) expression.span program
      return program
    | .index base index => do
      let indexExpression ← okOr (tree.expression index) ⟨.missingExpression, expression.span⟩
      match indexExpression.kind with
      | .integer indexLiteral => do
        let index ← okOr (usizeOf indexLiteral.value)
          ⟨.invalidExpressionTree, indexExpression.span⟩
        lowerArrayElement levels base index program
      | _ => throw ⟨.invalidExpressionTree, indexExpression.span⟩
    | .integer literal => do
      let (_, program) ← push capacity (.pushInteger literal.value) expression.span program
      return program
    | .bool value => do
      let (_, program) ← push capacity (.pushInteger (boolValue value)) expression.span program
      return program
    | .char value => do
      let (_, program) ← push capacity (.pushInteger (BitVec.ofNat 128 value.toNat))
        expression.span program
      return program
    | .identifier name => do
      let (_, program) ← push capacity (.loadConstant name) expression.span program
      return program
    | .call callee arguments => do
      let program ← arguments.ids.foldlM (fun program argument => do
        lower levels (← okOr argument ⟨.missingExpression, expression.span⟩) program) program
      let (_, program) ← push capacity (.callConstant callee arguments.ids.length)
        expression.span program
      return program
    | .cast operand target => do
      let program ← lower levels operand program
      match target with
      | .integer target => do
        let (_, program) ← push capacity (.cast target pointerBits) expression.span program
        return program
      | .rawPointer _ _ => throw ⟨.invalidExpressionTree, expression.span⟩
    | .ascribe operand target => do
      let program ← lower levels operand program
      match target with
      | .integer target => do
        let (_, program) ← push capacity (.ascribeInteger target pointerBits) expression.span
          program
        return program
      | .bool => do
        let (_, program) ← push capacity .normalizeBool expression.span program
        return program
    | .unary operator operand => do
      let program ← lower levels operand program
      let (_, program) ← push capacity (unaryInstruction tree pointerBits levels operator operand)
        expression.span program
      return program
    | .binary operator left right =>
      if operator = .logicalAnd ∨ operator = .logicalOr then do
        let shortCircuit : ℕ → Instruction :=
          if operator = .logicalAnd then .branchIfFalse else .branchIfTrue
        let program ← lower levels left program
        let (branch, program) ← push capacity (shortCircuit 0) expression.span program
        let program ← lower levels right program
        let (_, program) ← push capacity .normalizeBool expression.span program
        let target := program.instructions.length
        return patch branch (shortCircuit target) program
      else do
        let program ← lower levels left program
        let program ← lower levels right program
        let (_, program) ← push capacity (.binary operator) expression.span program
        return program
    | .ifElse condition thenBranch elseBranch
    | .loopBreakIf condition thenBranch elseBranch => do
      let program ← lower levels condition program
      let (falseBranch, program) ← push capacity (.jumpIfFalse 0) expression.span program
      let program ← lower levels thenBranch program
      let (endBranch, program) ← push capacity (.jump 0) expression.span program
      let elseTarget := program.instructions.length
      let program := patch falseBranch (.jumpIfFalse elseTarget) program
      let program ← lower levels elseBranch program
      let endTarget := program.instructions.length
      return patch endBranch (.jump endTarget) program
    | .ret operand | .loopBreak operand | .inlineConst operand => lower levels operand program
    | .sequence first next => do
      let program ← lower levels first program
      let (_, program) ← push capacity .pop expression.span program
      lower levels next program
    | .array _ | .arrayRepeat _ _ | .rangeIndex _ _ _ _ | .sliceLen _ | .sliceIsEmpty _
    | .strAsBytes _ | .strIsCharBoundary _ _ | .referenceAsPointer _ _ | .rawPointerIsNull _
    | .rawPointerAddress _ | .rawPointerMutability _ _ | .rawPointerWithAddress _ _
    | .rawPointerOffset _ _ _ _ _ _ | .rawPointerDifference _ _ _ =>
      throw ⟨.invalidExpressionTree, expression.span⟩

/-- `Lowerer::lower_array_element` (lines 466–554). -/
def lowerArrayElement : ℕ → ExprId → ℕ → IrProgram → Except IrError IrProgram
  | 0, id, _, _ => do
    let expression ← okOr (tree.expression id) ⟨.missingExpression, ⟨0, 0⟩⟩
    throw ⟨.nestingLimitExceeded, expression.span⟩
  | levels + 1, id, index, program => do
    let expression ← okOr (tree.expression id) ⟨.missingExpression, ⟨0, 0⟩⟩
    match expression.kind with
    | .defaultValue => do
      let (_, program) ← push capacity (.pushInteger 0) expression.span program
      return program
    | .array elements => do
      refuseIf (index ≥ elements.ids.length) ⟨.invalidExpressionTree, expression.span⟩
      elements.ids.zipIdx.foldlM (fun program (element, elementIndex) => do
        let element ← okOr element ⟨.invalidExpressionTree, expression.span⟩
        let program ← lower levels element program
        if elementIndex ≠ index then do
          let (_, program) ← push capacity .pop expression.span program
          return program
        else return program) program
    | .arrayRepeat element count => do
      refuseIf (index ≥ count) ⟨.invalidExpressionTree, expression.span⟩
      lower levels element program
    | .ifElse condition thenBranch elseBranch
    | .loopBreakIf condition thenBranch elseBranch => do
      let program ← lower levels condition program
      let (falseBranch, program) ← push capacity (.jumpIfFalse 0) expression.span program
      let program ← lowerArrayElement levels thenBranch index program
      let (endBranch, program) ← push capacity (.jump 0) expression.span program
      let elseStart := program.instructions.length
      let program := patch falseBranch (.jumpIfFalse elseStart) program
      let program ← lowerArrayElement levels elseBranch index program
      let stop := program.instructions.length
      return patch endBranch (.jump stop) program
    | .inlineConst operand | .loopBreak operand | .ret operand =>
      lowerArrayElement levels operand index program
    | .sequence first next => do
      let program ← lower levels first program
      let (_, program) ← push capacity .pop expression.span program
      lowerArrayElement levels next index program
    | _ => throw ⟨.invalidExpressionTree, expression.span⟩

end

end Lowerer

/-- `lower_expression_with_pointer_bits` (lines 563–581). -/
def lowerExpressionWithPointerBits (capacity : ℕ) (tree : ExpressionTree) (pointerBits : ℕ) :
    Except IrError IrProgram :=
  Lowerer.lower tree pointerBits capacity maxLoweringDepth tree.root ⟨[]⟩

/-- `lower_expression` (lines 557–561). -/
def lowerExpression (capacity : ℕ) (tree : ExpressionTree) : Except IrError IrProgram :=
  lowerExpressionWithPointerBits capacity tree 64

end Mrml.Rustc
