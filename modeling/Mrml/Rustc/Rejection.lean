import Mrml.Rustc.Lowering

/-!
# Values of expressions that have none

What the lowered program of a tree returns where `evaluate` refuses the tree. The lowering and the
execution make every check of the evaluation but the three of `Mrml.Rustc.Unchecked`, so that the
program of `const { let value: bool = 1; value }` returns 1 and the evaluation ends with
`InvalidCast`.

Results:
* `lowering_preserves_rejection_iff`: no program gives a value to a tree that has none, exactly if
  the evaluation does not come to one of these checks and fail there only.
* `lowering_preserves_values_of_checked`: trees on which none of these checks fails.
-/

namespace Mrml.Rustc

/-- The evaluation fails at a check that the lowering lacks, and at nothing else. -/
def ExpressionTree.FailsUncheckedOnly (tree : ExpressionTree) (resolver : ConstantResolver) :
    Prop :=
  (∃ value, tree.uncheckedNode resolver 64 maxExpressionDepth tree.root = .ok value) ∧
    tree.checksMet resolver 64 maxExpressionDepth tree.root = false

/-- A tree without range patterns has the value of its root. -/
theorem evaluate_eq_evaluateNode {tree : ExpressionTree} (resolver : ConstantResolver)
    (h : tree.rangeValidations.filterMap id = []) :
    tree.evaluate resolver = tree.evaluateNode resolver 64 maxExpressionDepth tree.root := by
  rw [ExpressionTree.evaluate, ExpressionTree.validateRanges, h]
  rfl

/-- **Main theorem.** For every tree without range patterns that `lower_expression` accepts: every
value that its program returns is one of a tree that `evaluate` accepts, exactly if the evaluation
does not fail at a check that the lowering lacks and at nothing else. -/
theorem lowering_preserves_rejection_iff (capacity : ℕ) (tree : ExpressionTree)
    (resolver : ConstantResolver) (program : IrProgram)
    (hranges : tree.rangeValidations.filterMap id = [])
    (h : lowerExpression capacity tree = .ok program) :
    (∀ maxStack value, program.execute resolver maxStack = .ok value →
      ∃ value', tree.evaluate resolver = .ok value') ↔ ¬tree.FailsUncheckedOnly resolver := by
  rw [evaluate_eq_evaluateNode resolver hranges]
  constructor
  · rintro hpreserved ⟨⟨value, hvalue⟩, hmissed⟩
    obtain ⟨value', hvalue'⟩ := hpreserved _ value (execute_eq_ok h hvalue le_rfl)
    have hmet := (ExpressionTree.evaluateNode_eq_ok_iff.mp hvalue').2
    rw [hmissed] at hmet
    cases hmet
  · intro hnever maxStack value hvalue
    have hunchecked := uncheckedNode_of_execute h hvalue
    refine ⟨value, ExpressionTree.evaluateNode_eq_ok_iff.mpr ⟨hunchecked, ?_⟩⟩
    rw [← Bool.not_eq_false]
    exact fun hmissed => hnever ⟨⟨value, hunchecked⟩, hmissed⟩

/-- A program of a tree whose ascriptions to `bool`, indices and arrays are as the evaluation wants
them returns the value of the tree. -/
theorem lowering_preserves_values_of_checked {capacity : ℕ} {tree : ExpressionTree}
    {resolver : ConstantResolver} {program : IrProgram}
    (hranges : tree.rangeValidations.filterMap id = [])
    (h : lowerExpression capacity tree = .ok program) (hchecked : tree.Checked resolver)
    {maxStack : ℕ} {value : U128} (hvalue : program.execute resolver maxStack = .ok value) :
    tree.evaluate resolver = .ok value := by
  rw [evaluate_eq_evaluateNode resolver hranges, ExpressionTree.evaluateNode_eq_ok_iff]
  exact ⟨uncheckedNode_of_execute h hvalue, (hchecked.meets maxExpressionDepth).1 _ .root⟩

/-- The tree of `const { let value: bool = 1; value }`. -/
def ascriptionTree : ExpressionTree where
  nodes := [.integer ⟨1, none⟩, .integer ⟨1, none⟩, .ascribe ⟨1⟩ .bool, .ascribe ⟨1⟩ .bool,
    .inlineConst ⟨3⟩].map fun kind => some ⟨kind, ⟨0, 0⟩⟩
  rangeValidations := []
  root := ⟨4⟩

/-- The program of `ascriptionTree`. -/
def ascriptionProgram : IrProgram where
  instructions := [some (.pushInteger 1), some .normalizeBool]

theorem lowering_gives_rejected_value :
    ¬∀ (capacity : ℕ) (tree : ExpressionTree) (resolver : ConstantResolver) (program : IrProgram),
      tree.rangeValidations.filterMap id = [] → lowerExpression capacity tree = .ok program →
        ∀ maxStack value, program.execute resolver maxStack = .ok value →
          ∃ value', tree.evaluate resolver = .ok value' := by
  intro h
  have hexecute : ascriptionProgram.execute noConstants 1 = .ok 1 := by decide +kernel
  have hevaluate : ascriptionTree.evaluate noConstants = .error .invalidCast := by decide +kernel
  obtain ⟨value, hvalue⟩ := h 16 ascriptionTree noConstants ascriptionProgram rfl
    (by decide +kernel) 1 1 hexecute
  rw [hevaluate] at hvalue
  cases hvalue

theorem lowering_preserves_rejection_iff_sample :
    (∀ maxStack value, sampleProgram.execute noConstants maxStack = .ok value →
      ∃ value', sampleTree.evaluate noConstants = .ok value') ↔
        ¬sampleTree.FailsUncheckedOnly noConstants :=
  lowering_preserves_rejection_iff 16 sampleTree noConstants sampleProgram rfl (by decide +kernel)

end Mrml.Rustc
