import Mrml.Rustc.Expression

/-!
# Evaluation without the checks that the lowering lacks

`evaluate_node` and `evaluate_array_element` (`crates/mrml-rustc/src/expression.rs`, lines
652–865) make three checks that have no counterpart in `ir.rs`:
* the operand of an ascription to `bool` is a boolean expression (line 727);
* the array of an index has a length, and the index is below it (lines 673–678);
* an array is no sequence (line 863).

`uncheckedNode` is the evaluation without them, and `checksMet` says that the evaluation meets
each of them that it comes to.

Results:
* `evaluateNode_eq_ok_iff`: a tree has a value exactly where it has that value without the checks
  and the checks are met.
* `Checked.meets`: the trees on which the checks are met whatever is evaluated.
-/

namespace Mrml.Rustc

/-! ## A computation and its version without checks -/

/-- `x` ends with a value exactly where `y` does and the checks of `x` are met. -/
def Restricts {ε α : Type} (x y : Except ε α) (met : Bool) : Prop :=
  ∀ a, x = .ok a ↔ y = .ok a ∧ met = true

/-- The checks of `met` on the value of `x`, if it has one. -/
def onValue {ε α : Type} (x : Except ε α) (met : α → Bool) : Bool :=
  match x with
  | .ok a => met a
  | .error _ => true

namespace Restricts

variable {ε α β : Type} {x y : Except ε α} {f g : α → Except ε β} {met : Bool} {met' : α → Bool}

theorem refl (x : Except ε α) : Restricts x x true := fun _ => by simp

theorem bind (hx : Restricts x y met) (hf : ∀ a, Restricts (f a) (g a) (met' a)) :
    Restricts (x >>= f) (y >>= g) (met && onValue y met') := by
  intro b
  constructor
  · intro h
    obtain ⟨a, hxa, hfa⟩ := bind_eq_ok.mp h
    obtain ⟨rfl, hmet⟩ := (hx a).mp hxa
    obtain ⟨hga, hmet'⟩ := (hf a b).mp hfa
    exact ⟨hga, by rw [hmet, Bool.true_and]; exact hmet'⟩
  · rintro ⟨h, hmet⟩
    obtain ⟨a, rfl, hga⟩ := bind_eq_ok.mp h
    obtain ⟨hmet, hmet'⟩ := Bool.and_eq_true_iff.mp hmet
    exact bind_eq_ok.mpr ⟨a, (hx a).mpr ⟨rfl, hmet⟩, (hf a b).mpr ⟨hga, hmet'⟩⟩

theorem bind_left (hx : Restricts x y met) (f : α → Except ε β) :
    Restricts (x >>= f) (y >>= f) met := by
  have h := hx.bind fun a => refl (f a)
  have htrue : onValue y (fun _ => true) = true := by cases y <;> rfl
  rwa [htrue, Bool.and_true] at h

/-- Both versions behind the same computation. -/
theorem after {γ : Type} (hx : Restricts x y met) (z : Except ε γ) :
    Restricts (z >>= fun _ => x) (z >>= fun _ => y) met := by
  cases z with
  | error e => exact fun a => by simp [bind_eq_ok]
  | ok c => exact hx

/-- A check in front of a computation. -/
theorem refuse {p : Prop} [Decidable p] (e : ε) (hx : Restricts x y met) :
    Restricts (refuseIf p e >>= fun _ => x) y (!decide p && met) := by
  intro a
  rw [Bool.and_eq_true_iff, Bool.not_eq_true', decide_eq_false_iff_not]
  constructor
  · intro h
    obtain ⟨_, hp, h⟩ := bind_eq_ok.mp h
    obtain ⟨hy, hmet⟩ := (hx a).mp h
    exact ⟨hy, refuseIf_eq_ok.mp hp, hmet⟩
  · rintro ⟨hy, hp, hmet⟩
    rw [refuseIf_of_not hp]
    exact (hx a).mpr ⟨hy, hmet⟩

theorem mapM {γ : Type} {f g : γ → Except ε α} {met : γ → Bool} (list : List γ)
    (h : ∀ c, Restricts (f c) (g c) (met c)) :
    Restricts (list.mapM f) (list.mapM g) (list.all met) := by
  induction list with
  | nil => exact refl _
  | cons c list ih =>
    intro all
    simp only [List.mapM_cons, List.all_cons, Bool.and_eq_true_iff, bind_eq_ok]
    constructor
    · rintro ⟨a, ha, rest, hrest, hall⟩
      obtain ⟨ha, hmet⟩ := (h c a).mp ha
      obtain ⟨hrest, hmet'⟩ := (ih rest).mp hrest
      exact ⟨⟨a, ha, rest, hrest, hall⟩, hmet, hmet'⟩
    · rintro ⟨⟨a, ha, rest, hrest, hall⟩, hmet, hmet'⟩
      exact ⟨a, (h c a).mpr ⟨ha, hmet⟩, rest, (ih rest).mpr ⟨hrest, hmet'⟩, hall⟩

end Restricts

/-! ## Evaluation without the checks -/

namespace ExpressionTree

variable (tree : ExpressionTree) (resolver : ConstantResolver) (pointerBits : ℕ)

mutual

/-- `evaluateNode` without the checks on ascriptions to `bool` and on the length of an array. -/
def uncheckedNode : ℕ → ExprId → Except ConstEvalError U128
  | 0, _ => .error .nestingLimitExceeded
  | levels + 1, id => do
    let expression ← okOr (tree.expression id) .invalidExpressionTree
    match expression.kind with
    | .unit | .defaultValue => return 0
    | .index base index => do
      let index ← uncheckedNode levels index
      let index ← okOr (usizeOf index) .arrayIndexOutOfBounds
      uncheckedArrayElement levels base index
    | .integer literal => return literal.value
    | .bool value => return boolValue value
    | .char value => return BitVec.ofNat 128 value.toNat
    | .identifier name => okOr (resolver.resolve name) .unknownIdentifier
    | .call callee arguments => do
      let values ← arguments.ids.mapM fun argument => do
        uncheckedNode levels (← okOr argument .invalidExpressionTree)
      okOr (resolver.resolveCall callee values) .unsupportedCall
    | .cast operand target => do
      let value ← uncheckedNode levels operand
      match target with
      | .integer target => castInteger value target pointerBits
      | .rawPointer _ _ => throw .invalidCast
    | .ascribe operand target => do
      let value ← uncheckedNode levels operand
      match target with
      | .integer target => ascribeInteger value target pointerBits
      | .bool => return boolValue (value != 0)
    | .unary operator operand => do
      let value ← uncheckedNode levels operand
      unaryValue tree pointerBits levels operator operand value
    | .binary operator left right => do
      let left ← uncheckedNode levels left
      if operator = .logicalAnd ∧ left = 0 then return 0
      else if operator = .logicalOr ∧ left ≠ 0 then return 1
      else
        let right ← uncheckedNode levels right
        evaluateBinary operator left right
    | .ifElse condition thenBranch elseBranch
    | .loopBreakIf condition thenBranch elseBranch => do
      let value ← uncheckedNode levels condition
      if value ≠ 0 then uncheckedNode levels thenBranch else uncheckedNode levels elseBranch
    | .ret operand | .loopBreak operand | .inlineConst operand => uncheckedNode levels operand
    | .sequence first next => do
      let _ ← uncheckedNode levels first
      uncheckedNode levels next
    | .array _ | .arrayRepeat _ _ | .rangeIndex _ _ _ _ | .sliceLen _ | .sliceIsEmpty _
    | .strAsBytes _ | .strIsCharBoundary _ _ | .referenceAsPointer _ _ | .rawPointerIsNull _
    | .rawPointerAddress _ | .rawPointerMutability _ _ | .rawPointerWithAddress _ _
    | .rawPointerOffset _ _ _ _ _ _ | .rawPointerDifference _ _ _ =>
      throw .invalidExpressionTree

/-- `evaluateArrayElement` where an array may be a sequence. -/
def uncheckedArrayElement : ℕ → ExprId → ℕ → Except ConstEvalError U128
  | 0, _, _ => .error .nestingLimitExceeded
  | levels + 1, id, index => do
    let expression ← okOr (tree.expression id) .invalidExpressionTree
    match expression.kind with
    | .defaultValue => return 0
    | .array elements => do
      refuseIf (index ≥ elements.ids.length) .arrayIndexOutOfBounds
      let values ← elements.ids.mapM fun element => do
        uncheckedNode levels (← okOr element .invalidExpressionTree)
      okOr values[index]? .arrayIndexOutOfBounds
    | .arrayRepeat element count => do
      refuseIf (index ≥ count) .arrayIndexOutOfBounds
      uncheckedNode levels element
    | .ifElse condition thenBranch elseBranch
    | .loopBreakIf condition thenBranch elseBranch => do
      let value ← uncheckedNode levels condition
      uncheckedArrayElement levels (if value ≠ 0 then thenBranch else elseBranch) index
    | .inlineConst operand | .loopBreak operand | .ret operand =>
      uncheckedArrayElement levels operand index
    | .sequence first next => do
      let _ ← uncheckedNode levels first
      uncheckedArrayElement levels next index
    | _ => throw .invalidExpressionTree

end

mutual

/-- The evaluation of a node meets every check that `uncheckedNode` leaves out. A branch that is
not taken and an operand that is not evaluated are not looked at. -/
def checksMet : ℕ → ExprId → Bool
  | 0, _ => true
  | levels + 1, id =>
    match tree.expression id with
    | none => true
    | some expression =>
      match expression.kind with
      | .index base index =>
        checksMet levels index &&
          onValue (tree.uncheckedNode resolver pointerBits levels index) fun index =>
            (usizeOf index).all fun index =>
              (tree.arrayLength levels base).any (fun length => decide (index < length)) &&
                elementChecksMet levels base index
      | .call _ arguments => arguments.ids.all fun argument => argument.all (checksMet levels)
      | .ascribe operand .bool =>
        checksMet levels operand &&
          onValue (tree.uncheckedNode resolver pointerBits levels operand) fun _ =>
            tree.isBooleanExpression levels operand
      | .binary operator left right =>
        checksMet levels left &&
          onValue (tree.uncheckedNode resolver pointerBits levels left) fun left =>
            if operator = .logicalAnd ∧ left = 0 then true
            else if operator = .logicalOr ∧ left ≠ 0 then true
            else checksMet levels right
      | .ifElse condition thenBranch elseBranch
      | .loopBreakIf condition thenBranch elseBranch =>
        checksMet levels condition &&
          onValue (tree.uncheckedNode resolver pointerBits levels condition) fun value =>
            if value ≠ 0 then checksMet levels thenBranch else checksMet levels elseBranch
      | .cast operand _ | .ascribe operand (.integer _) | .unary _ operand | .ret operand
      | .loopBreak operand | .inlineConst operand => checksMet levels operand
      | .sequence first next =>
        checksMet levels first &&
          onValue (tree.uncheckedNode resolver pointerBits levels first) fun _ =>
            checksMet levels next
      | _ => true

/-- The evaluation of an element of an array meets every check that `uncheckedArrayElement` leaves
out. -/
def elementChecksMet : ℕ → ExprId → ℕ → Bool
  | 0, _, _ => true
  | levels + 1, id, index =>
    match tree.expression id with
    | none => true
    | some expression =>
      match expression.kind with
      | .array elements => elements.ids.all fun element => element.all (checksMet levels)
      | .arrayRepeat element _ => checksMet levels element
      | .ifElse condition thenBranch elseBranch
      | .loopBreakIf condition thenBranch elseBranch =>
        checksMet levels condition &&
          onValue (tree.uncheckedNode resolver pointerBits levels condition) fun value =>
            elementChecksMet levels (if value ≠ 0 then thenBranch else elseBranch) index
      | .inlineConst operand | .loopBreak operand | .ret operand =>
        elementChecksMet levels operand index
      | .sequence _ _ => false
      | _ => true

end

variable {tree resolver pointerBits}
variable {levels : ℕ}

/-- The nodes of one level. -/
def NodesRestrict (tree : ExpressionTree) (resolver : ConstantResolver) (pointerBits levels : ℕ) :
    Prop :=
  ∀ id, Restricts (tree.evaluateNode resolver pointerBits levels id)
    (tree.uncheckedNode resolver pointerBits levels id)
    (tree.checksMet resolver pointerBits levels id)

/-- The elements of the arrays of one level. -/
def ElementsRestrict (tree : ExpressionTree) (resolver : ConstantResolver)
    (pointerBits levels : ℕ) : Prop :=
  ∀ id index, Restricts (tree.evaluateArrayElement resolver pointerBits levels id index)
    (tree.uncheckedArrayElement resolver pointerBits levels id index)
    (tree.elementChecksMet resolver pointerBits levels id index)

theorem arguments_restrict (h : NodesRestrict tree resolver pointerBits levels)
    (ids : List (Option ExprId)) (error : ConstEvalError) :
    Restricts
      (ids.mapM fun id => do tree.evaluateNode resolver pointerBits levels (← okOr id error))
      (ids.mapM fun id => do tree.uncheckedNode resolver pointerBits levels (← okOr id error))
      (ids.all fun id => id.all (tree.checksMet resolver pointerBits levels)) := by
  refine .mapM ids fun id => ?_
  cases id with
  | none => exact .refl _
  | some id => exact h id

/-- **Step lemma.** One more level of a node. -/
theorem nodes_restrict_step (h : NodesRestrict tree resolver pointerBits levels)
    (helement : ElementsRestrict tree resolver pointerBits levels) :
    NodesRestrict tree resolver pointerBits (levels + 1) := by
  intro id
  rw [evaluateNode, uncheckedNode, checksMet]
  cases hexpression : tree.expression id with
  | none => exact .refl _
  | some expression =>
    obtain ⟨kind, span⟩ := expression
    rw [okOr_some, ok_bind, ok_bind]
    cases kind with
    | index base index =>
      refine (h index).bind fun value => ?_
      cases usizeOf value with
      | none => exact .refl _
      | some number =>
        have hlength : (tree.arrayLength levels base).any (fun length => decide (number < length)) =
            !decide ((tree.arrayLength levels base).all
              (fun length => decide (number ≥ length)) = true) := by
          cases tree.arrayLength levels base with
          | none => rfl
          | some length =>
            show decide (number < length) = !decide (decide (number ≥ length) = true)
            rw [Bool.decide_eq_true, ← decide_not, decide_eq_decide]
            omega
        rw [Option.all_some, hlength]
        exact .refuse _ (helement base number)
    | call callee arguments =>
      exact (arguments_restrict h arguments.ids _).bind_left _
    | ascribe operand target =>
      cases target with
      | integer target => exact (h operand).bind_left _
      | bool =>
        have hbool : ∀ value : U128, Restricts
            (if tree.isBooleanExpression levels operand then .ok (boolValue (value != 0))
              else .error .invalidCast)
            (.ok (boolValue (value != 0)) : Except ConstEvalError U128)
            (tree.isBooleanExpression levels operand) := by
          intro value a
          split_ifs with hboolean <;> simp [hboolean]
        exact (h operand).bind hbool
    | binary operator left right =>
      refine (h left).bind fun value => ?_
      split_ifs
      · exact .refl _
      · exact .refl _
      · exact (h right).bind_left _
    | ifElse condition thenBranch elseBranch | loopBreakIf condition thenBranch elseBranch =>
      refine (h condition).bind fun value => ?_
      split_ifs
      · exact h thenBranch
      · exact h elseBranch
    | cast operand _ | unary _ operand => exact (h operand).bind_left _
    | ret operand | loopBreak operand | inlineConst operand => exact h operand
    | sequence first next => exact (h first).bind fun _ => h next
    | _ => exact .refl _

/-- **Step lemma.** One more level of an element. -/
theorem elements_restrict_step (h : NodesRestrict tree resolver pointerBits levels)
    (helement : ElementsRestrict tree resolver pointerBits levels) :
    ElementsRestrict tree resolver pointerBits (levels + 1) := by
  intro id index
  rw [evaluateArrayElement, uncheckedArrayElement, elementChecksMet]
  cases hexpression : tree.expression id with
  | none => exact .refl _
  | some expression =>
    obtain ⟨kind, span⟩ := expression
    rw [okOr_some, ok_bind, ok_bind]
    cases kind with
    | array elements =>
      exact ((arguments_restrict h elements.ids _).bind_left _).after _
    | arrayRepeat element count => exact (h element).after _
    | ifElse condition thenBranch elseBranch | loopBreakIf condition thenBranch elseBranch =>
      exact (h condition).bind fun value => helement _ index
    | inlineConst operand | loopBreak operand | ret operand => exact helement operand index
    | sequence first next =>
      intro a
      simp only [reduceCtorEq, Bool.false_eq_true, and_false]
    | _ => exact .refl _

/-- **Run lemma.** A node has a value exactly where it has that value without the checks and the
checks are met. -/
theorem nodes_restrict (levels : ℕ) :
    NodesRestrict tree resolver pointerBits levels ∧
      ElementsRestrict tree resolver pointerBits levels := by
  induction levels with
  | zero => exact ⟨fun _ => .refl _, fun _ _ => .refl _⟩
  | succ levels ih => exact ⟨nodes_restrict_step ih.1 ih.2, elements_restrict_step ih.1 ih.2⟩

theorem evaluateNode_eq_ok_iff {id : ExprId} {value : U128} :
    tree.evaluateNode resolver pointerBits levels id = .ok value ↔
      tree.uncheckedNode resolver pointerBits levels id = .ok value ∧
        tree.checksMet resolver pointerBits levels id = true :=
  (nodes_restrict levels).1 id value

/-! ## Trees that meet all the checks -/

end ExpressionTree

/-- The operands of an expression, each with whether it is used as an array; `array` says so of the
expression. -/
def ExprKind.operands (array : Bool) : ExprKind → List (Bool × ExprId)
  | .index base position => [(true, base), (false, position)]
  | .call _ arguments => (arguments.ids.filterMap id).map (Prod.mk false)
  | .cast operand _ | .ascribe operand _ | .unary _ operand => [(false, operand)]
  | .binary _ left right => [(false, left), (false, right)]
  | .ifElse condition thenBranch elseBranch | .loopBreakIf condition thenBranch elseBranch =>
    [(false, condition), (array, thenBranch), (array, elseBranch)]
  | .ret operand | .loopBreak operand | .inlineConst operand => [(array, operand)]
  | .sequence first next => [(false, first), (array, next)]
  | .array elements => (elements.ids.filterMap id).map (Prod.mk false)
  | .arrayRepeat element _ => [(false, element)]
  | _ => []

namespace ExpressionTree

/-- A node of the tree, with whether it is used as an array and the levels that are left for it. -/
inductive Node (tree : ExpressionTree) : Bool → ℕ → ExprId → Prop
  | root : Node tree false maxExpressionDepth tree.root
  | operand {array : Bool} {levels : ℕ} {id : ExprId} {expression : Expr} (array' : Bool)
      (id' : ExprId) (hnode : Node tree array (levels + 1) id)
      (hexpression : tree.expression id = some expression)
      (hoperand : (array', id') ∈ expression.kind.operands array) : Node tree array' levels id'

/-- Every operand that is ascribed to `bool` is a boolean expression, every array has a length that
is above its index, and no sequence is used as an array. -/
structure Checked (tree : ExpressionTree) (resolver : ConstantResolver) : Prop where
  boolean {array : Bool} {levels : ℕ} {id operand : ExprId} {expression : Expr}
    (hnode : tree.Node array (levels + 1) id) (hexpression : tree.expression id = some expression)
    (hkind : expression.kind = .ascribe operand .bool) :
    tree.isBooleanExpression levels operand = true
  length {array : Bool} {levels : ℕ} {id base index : ExprId} {expression : Expr}
    (hnode : tree.Node array (levels + 1) id) (hexpression : tree.expression id = some expression)
    (hkind : expression.kind = .index base index) (value : U128)
    (hvalue : tree.evaluateNode resolver 64 levels index = .ok value) (number : ℕ)
    (hnumber : usizeOf value = some number) :
    ∃ length, tree.arrayLength levels base = some length ∧ number < length
  array {levels : ℕ} {id first next : ExprId} {expression : Expr}
    (hnode : tree.Node true (levels + 1) id) (hexpression : tree.expression id = some expression) :
    expression.kind ≠ .sequence first next

theorem onValue_eq_true {ε α : Type} {x : Except ε α} {met : α → Bool}
    (h : ∀ a, x = .ok a → met a = true) : onValue x met = true := by
  cases x with
  | error e => rfl
  | ok a => exact h a rfl

section Met

variable {tree : ExpressionTree} {resolver : ConstantResolver} {levels : ℕ}

/-- The nodes that are evaluated with so many levels left meet the checks. -/
def NodesMeet (tree : ExpressionTree) (resolver : ConstantResolver) (levels : ℕ) : Prop :=
  ∀ id, tree.Node false levels id → tree.checksMet resolver 64 levels id = true

/-- So do the nodes that are used as arrays. -/
def ElementsMeet (tree : ExpressionTree) (resolver : ConstantResolver) (levels : ℕ) : Prop :=
  ∀ id index, tree.Node true levels id → tree.elementChecksMet resolver 64 levels id index = true

theorem NodesMeet.all (h : NodesMeet tree resolver levels) {array : Bool} {id : ExprId}
    {expression : Expr} (hnode : tree.Node array (levels + 1) id)
    (hexpression : tree.expression id = some expression) {ids : List (Option ExprId)}
    (hoperands : expression.kind.operands array =
      (ids.filterMap fun x => x).map (Prod.mk false)) :
    (ids.all fun id => id.all (tree.checksMet resolver 64 levels)) = true := by
  rw [List.all_eq_true]
  intro argument hargument
  cases argument with
  | none => rfl
  | some argument =>
    refine h argument (.operand false argument hnode hexpression ?_)
    rw [hoperands]
    exact List.mem_map_of_mem (List.mem_filterMap.mpr ⟨_, hargument, rfl⟩)

/-- **Step lemma.** One more level of a node. -/
theorem Checked.nodesMeet_step (h : tree.Checked resolver) (hnodes : NodesMeet tree resolver levels)
    (helements : ElementsMeet tree resolver levels) : NodesMeet tree resolver (levels + 1) := by
  intro id hnode
  rw [ExpressionTree.checksMet]
  cases hexpression : tree.expression id with
  | none => rfl
  | some expression =>
    have hboolean := fun operand => @h.boolean false levels id operand expression hnode hexpression
    have hlength := fun base index => @h.length false levels id base index expression hnode
      hexpression
    have hcall := fun ids => @hnodes.all tree resolver levels false id expression hnode hexpression ids
    have hoperand (operand : ExprId) (hmem : (false, operand) ∈ expression.kind.operands false) :
        tree.checksMet resolver 64 levels operand = true :=
      hnodes operand (.operand false operand hnode hexpression hmem)
    have harray (base : ExprId) (hmem : (true, base) ∈ expression.kind.operands false) (index : ℕ) :
        tree.elementChecksMet resolver 64 levels base index = true :=
      helements base index (.operand true base hnode hexpression hmem)
    obtain ⟨kind, span⟩ := expression
    dsimp only at hoperand harray hboolean hlength hcall ⊢
    cases kind with
    | index base index =>
      have hindex := hoperand index (by simp [ExprKind.operands])
      rw [Bool.and_eq_true]
      refine ⟨hindex, onValue_eq_true fun value hvalue => ?_⟩
      rw [Option.all_eq_true]
      intro number hnumber
      obtain ⟨length, hsome, hlt⟩ := hlength base index rfl value
        (evaluateNode_eq_ok_iff.mpr ⟨hvalue, hindex⟩) number hnumber
      rw [hsome, Option.any_some, decide_eq_true hlt, Bool.true_and]
      exact harray base (by simp [ExprKind.operands]) number
    | call callee arguments => exact hcall arguments.ids rfl
    | ascribe operand target =>
      have hmet := hoperand operand (by simp [ExprKind.operands])
      cases target with
      | integer target => exact hmet
      | bool =>
        rw [Bool.and_eq_true]
        exact ⟨hmet, onValue_eq_true fun _ _ => hboolean operand rfl⟩
    | binary operator left right =>
      have hright := hoperand right (by simp [ExprKind.operands])
      rw [Bool.and_eq_true]
      refine ⟨hoperand left (by simp [ExprKind.operands]), onValue_eq_true fun _ _ => ?_⟩
      split_ifs
      · rfl
      · rfl
      · exact hright
    | ifElse condition thenBranch elseBranch | loopBreakIf condition thenBranch elseBranch =>
      rw [Bool.and_eq_true]
      refine ⟨hoperand condition (by simp [ExprKind.operands]), onValue_eq_true fun _ _ => ?_⟩
      split_ifs
      · exact hoperand thenBranch (by simp [ExprKind.operands])
      · exact hoperand elseBranch (by simp [ExprKind.operands])
    | cast operand _ | unary _ operand | ret operand | loopBreak operand | inlineConst operand =>
      exact hoperand operand (by simp [ExprKind.operands])
    | sequence first next =>
      rw [Bool.and_eq_true]
      exact ⟨hoperand first (by simp [ExprKind.operands]),
        onValue_eq_true fun _ _ => hoperand next (by simp [ExprKind.operands])⟩
    | _ => rfl

/-- **Step lemma.** One more level of an array. -/
theorem Checked.elementsMeet_step (h : tree.Checked resolver)
    (hnodes : NodesMeet tree resolver levels) (helements : ElementsMeet tree resolver levels) :
    ElementsMeet tree resolver (levels + 1) := by
  intro id index hnode
  rw [ExpressionTree.elementChecksMet]
  cases hexpression : tree.expression id with
  | none => rfl
  | some expression =>
    have hsequence := fun first next => @h.array levels id first next expression hnode hexpression
    have hall := fun ids => @hnodes.all tree resolver levels true id expression hnode hexpression ids
    have hoperand (operand : ExprId) (hmem : (false, operand) ∈ expression.kind.operands true) :
        tree.checksMet resolver 64 levels operand = true :=
      hnodes operand (.operand false operand hnode hexpression hmem)
    have harray (base : ExprId) (hmem : (true, base) ∈ expression.kind.operands true) :
        tree.elementChecksMet resolver 64 levels base index = true :=
      helements base index (.operand true base hnode hexpression hmem)
    obtain ⟨kind, span⟩ := expression
    dsimp only at hoperand harray hsequence hall ⊢
    cases kind with
    | array elements => exact hall elements.ids rfl
    | arrayRepeat element count => exact hoperand element (by simp [ExprKind.operands])
    | ifElse condition thenBranch elseBranch | loopBreakIf condition thenBranch elseBranch =>
      rw [Bool.and_eq_true]
      refine ⟨hoperand condition (by simp [ExprKind.operands]), onValue_eq_true fun _ _ => ?_⟩
      split_ifs
      · exact harray thenBranch (by simp [ExprKind.operands])
      · exact harray elseBranch (by simp [ExprKind.operands])
    | inlineConst operand | loopBreak operand | ret operand =>
      exact harray operand (by simp [ExprKind.operands])
    | sequence first next => exact absurd rfl (hsequence first next)
    | _ => rfl

/-- **Run lemma.** Every node of such a tree meets the checks. -/
theorem Checked.meets (h : tree.Checked resolver) (levels : ℕ) :
    NodesMeet tree resolver levels ∧ ElementsMeet tree resolver levels := by
  induction levels with
  | zero => exact ⟨fun _ _ => rfl, fun _ _ _ => rfl⟩
  | succ levels ih => exact ⟨h.nodesMeet_step ih.1 ih.2, h.elementsMeet_step ih.1 ih.2⟩

end Met

end ExpressionTree

end Mrml.Rustc
