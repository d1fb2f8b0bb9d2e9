import Mrml.Rustc.Fragment
import Mrml.Rustc.Unchecked

/-!
# Lowering keeps the value of an expression

`lower_expression` (`crates/mrml-rustc/src/ir.rs`, lines 230–581) against `evaluate`
(`expression.rs`, lines 533–899).

What a fragment does to the stack is described by the values that it leaves there (`Pushes`): it
leaves them above the stack that it found, or it ends with an error that is about the values or
the size of the stack. The code of an expression leaves one value.

Results:
* `lowering_preserves_values`: the lowered program returns the value of the tree on a stack that
  is large enough, its branches go forward and stay within the program, and its execution never
  ends with `InvalidBranch`, `StackUnderflow` or `InvalidFinalStack`.
-/

namespace Mrml.Rustc

/-- An error that is not about the form of the program. -/
def ExecutionError.Harmless (error : ExecutionError) : Prop :=
  error ≠ .stackUnderflow ∧ error ≠ .invalidBranch ∧ error ≠ .invalidFinalStack

theorem okOr_harmless {α : Type} {x : Option α} {error : ExecutionError}
    (h : okOr x .unknownConstant = .error error) : error.Harmless := by
  cases x with
  | none =>
    obtain rfl := Except.error.inj h
    exact ⟨nofun, nofun, nofun⟩
  | some a => cases h

theorem mapError_harmless {α : Type} {x : Except ConstEvalError α} {error : ExecutionError}
    (h : x.mapError .arithmetic = .error error) : error.Harmless := by
  cases x with
  | error e =>
    obtain rfl := Except.error.inj h
    exact ⟨nofun, nofun, nofun⟩
  | ok a => cases h

section

variable (resolver : ConstantResolver) (maxStack : ℕ)

/-! ## Values left on the stack -/

/-- `count` values lie above the stack that was found, or the error is harmless. -/
def Leaves (count : ℕ) (stack : List U128) (result : Except ExecutionError (List U128)) : Prop :=
  (∃ values, values.length = count ∧ result = .ok (values ++ stack)) ∨
    ∃ error : ExecutionError, error.Harmless ∧ result = .error error

/-- `f` leaves `count` values on the stack; they are those of `P`, if there are any and the stack
has `room` for more values, and there are no others. -/
structure Pushes (room count : ℕ) (P : List U128 → Prop)
    (f : List U128 → Except ExecutionError (List U128)) : Prop where
  leaves : ∀ stack, Leaves count stack (f stack)
  value : ∀ values, P values → ∀ stack, stack.length + room ≤ maxStack →
    f stack = .ok (values ++ stack)
  sound : ∀ stack result, f stack = .ok result → ∃ values, P values ∧ result = values ++ stack
  count_le : count ≤ room

/-- An instruction that is no branch: it takes `arity` values and puts the results of `op` in
their place, the `count` of which is at most one. -/
structure Applies (instruction : Instruction) (arity count : ℕ)
    (op : List U128 → Except ExecutionError (List U128)) : Prop where
  straight : instruction.branchTarget = none
  perform_eq : ∀ length pc values stack, values.length = arity →
    perform resolver maxStack length pc (values ++ stack) instruction =
      op values >>= fun results => results.foldrM (push maxStack) stack >>= fun stack =>
        .ok (pc + 1, stack)
  results : ∀ values, values.length = arity →
    (∃ results, results.length = count ∧ op values = .ok results) ∨
      ∃ error : ExecutionError, error.Harmless ∧ op values = .error error
  count_le : count ≤ 1

/-- The program is continued with code that leaves `count` values, those of `P`. -/
def Delivers (program program' : IrProgram) (count : ℕ) (P : List U128 → Prop) : Prop :=
  ∃ code f, program'.instructions = program.instructions ++ code ∧
    Fragment resolver maxStack program.instructions.length code f ∧
    Pushes maxStack code.length count P f

variable {resolver maxStack}

variable (maxStack) in
theorem push_harmless (value : U128) (stack : List U128) :
    push maxStack value stack = .ok (value :: stack) ∨
      ∃ error : ExecutionError, error.Harmless ∧ push maxStack value stack = .error error := by
  unfold push
  split_ifs
  · exact .inl rfl
  · exact .inr ⟨.stackOverflow, ⟨nofun, nofun, nofun⟩, rfl⟩

theorem push_eq_ok {value : U128} {stack result : List U128}
    (h : push maxStack value stack = .ok result) : result = value :: stack := by
  unfold push at h
  split_ifs at h
  exact (Except.ok.inj h).symm

namespace Pushes

variable {room room' count count' : ℕ} {P Q : List U128 → Prop}
  {f g : List U128 → Except ExecutionError (List U128)}

theorem nil : Pushes maxStack 0 0 (· = []) .ok where
  leaves stack := .inl ⟨[], rfl, rfl⟩
  value := by
    rintro _ rfl stack _
    rfl
  sound stack result h := ⟨[], rfl, (Except.ok.inj h).symm⟩
  count_le := le_rfl

theorem congr (h : Pushes maxStack room count P f) (hQ : ∀ values, Q values ↔ P values) :
    Pushes maxStack room count Q f where
  leaves := h.leaves
  value values hvalues := h.value values ((hQ values).mp hvalues)
  sound stack result hresult := by
    obtain ⟨values, hvalues, hresult⟩ := h.sound stack result hresult
    exact ⟨values, (hQ values).mpr hvalues, hresult⟩
  count_le := h.count_le

/-- The values that are left are as many as `count`, and they are those of `P`. -/
theorem exists_values (h : Pushes maxStack room count P f) {stack result : List U128}
    (hresult : f stack = .ok result) :
    ∃ values, values.length = count ∧ P values ∧ result = values ++ stack := by
  obtain ⟨values, hvalues, hleft⟩ := h.sound stack result hresult
  obtain ⟨values', hcount, hleft'⟩ | ⟨error, _, hleft'⟩ := h.leaves stack
  · obtain rfl := Except.ok.inj (hresult.symm.trans hleft')
    obtain rfl := List.append_cancel_right hleft
    exact ⟨values', hcount, hvalues, rfl⟩
  · cases hresult.symm.trans hleft'

/-- The values of `P` are as many as are left on the stack. -/
theorem length_eq (h : Pushes maxStack room count P f) {values : List U128} (hP : P values)
    (hroom : room ≤ maxStack) : values.length = count := by
  have hvalue := h.value values hP [] (by simpa using hroom)
  obtain ⟨values', hcount, hleft⟩ | ⟨error, _, hleft⟩ := h.leaves []
  · obtain hleft := Except.ok.inj (hvalue.symm.trans hleft)
    rw [List.append_nil, List.append_nil] at hleft
    rw [hleft, hcount]
  · cases hvalue.symm.trans hleft

theorem append (hf : Pushes maxStack room count P f) (hg : Pushes maxStack room' count' Q g) :
    Pushes maxStack (room + room') (count' + count)
      (fun values => ∃ first second, P first ∧ Q second ∧ values = second ++ first)
      fun stack => f stack >>= g where
  leaves stack := by
    obtain ⟨first, hfirst, hf⟩ | ⟨error, herror, hf⟩ := hf.leaves stack
    · rw [hf, ok_bind]
      obtain ⟨second, hsecond, hg⟩ | hg := hg.leaves (first ++ stack)
      · exact .inl ⟨second ++ first, by rw [List.length_append, hsecond, hfirst],
          by rw [hg, List.append_assoc]⟩
      · exact .inr hg
    · exact .inr ⟨error, herror, by rw [hf]; rfl⟩
  value := by
    rintro _ ⟨first, second, hP, hQ, rfl⟩ stack hroom
    have hlength := hf.length_eq hP (by omega)
    have hcount := hf.count_le
    rw [hf.value first hP stack (by omega), ok_bind,
      hg.value second hQ (first ++ stack) (by rw [List.length_append]; omega), List.append_assoc]
  sound stack result h := by
    obtain ⟨stack', hfirst, hsecond⟩ := bind_eq_ok.mp h
    obtain ⟨first, hP, rfl⟩ := hf.sound stack stack' hfirst
    obtain ⟨second, hQ, rfl⟩ := hg.sound _ result hsecond
    exact ⟨second ++ first, ⟨first, second, hP, hQ, rfl⟩, (List.append_assoc _ _ _).symm⟩
  count_le := by
    have := hf.count_le
    have := hg.count_le
    omega

/-- A short circuit: the value that is left, or the values of the right operand. -/
theorem shortCircuit {taken : U128 → Bool} {constant : U128}
    (hf : Pushes maxStack room 1 P f) (hg : Pushes maxStack room' 1 Q g) :
    Pushes maxStack (room + (room' + 1)) 1
      (fun values => ∃ value, P [value] ∧
        if taken value then values = [constant] else Q values)
      fun stack => f stack >>= fun stack =>
        chooseShort maxStack taken constant stack >>= fun r => if r.1 then .ok r.2 else g r.2 where
  leaves stack := by
    obtain ⟨values, hvalues, hf⟩ | ⟨error, herror, hf⟩ := hf.leaves stack
    · obtain ⟨value, rfl⟩ := List.length_eq_one_iff.mp hvalues
      rw [hf, ok_bind, List.singleton_append, chooseShort, pop, ok_bind]
      dsimp only
      split_ifs with htaken
      · obtain hpush | ⟨error, herror, hpush⟩ := push_harmless maxStack constant stack
        · exact .inl ⟨[constant], rfl, by rw [hpush]; rfl⟩
        · exact .inr ⟨error, herror, by rw [hpush]; rfl⟩
      · exact hg.leaves stack
    · exact .inr ⟨error, herror, by rw [hf]; rfl⟩
  value := by
    rintro values ⟨value, hvalue, hvalues⟩ stack hroom
    rw [hf.value _ hvalue stack (by omega), ok_bind, List.singleton_append, chooseShort, pop,
      ok_bind]
    dsimp only
    split_ifs at hvalues ⊢ with htaken
    · subst hvalues
      rw [push_of_lt (by omega)]
      rfl
    · exact hg.value values hvalues stack (by omega)
  sound stack result h := by
    obtain ⟨stack', hleft, h⟩ := bind_eq_ok.mp h
    obtain ⟨values, hvalues, hP, rfl⟩ := hf.exists_values hleft
    obtain ⟨value, rfl⟩ := List.length_eq_one_iff.mp hvalues
    rw [List.singleton_append, chooseShort, pop, ok_bind] at h
    dsimp only at h
    by_cases htaken : taken value = true
    · rw [if_pos htaken] at h
      obtain ⟨⟨_, stack'⟩, hchosen, h⟩ := bind_eq_ok.mp h
      obtain ⟨stack'', hpush, hchosen⟩ := bind_eq_ok.mp hchosen
      obtain ⟨rfl, rfl⟩ := Prod.mk.inj (Except.ok.inj hchosen)
      obtain rfl := Except.ok.inj h
      exact ⟨[constant], ⟨value, hP, by rw [if_pos htaken]⟩, push_eq_ok hpush⟩
    · rw [if_neg htaken] at h
      obtain ⟨values, hQ, rfl⟩ := hg.sound stack result h
      exact ⟨values, ⟨value, hP, by rwa [if_neg htaken]⟩, rfl⟩
  count_le := by omega

/-- A conditional: the values of the arm that is chosen. -/
theorem conditional {room'' : ℕ} {R : List U128 → Prop}
    {h : List U128 → Except ExecutionError (List U128)}
    (hf : Pushes maxStack room 1 P f) (hg : Pushes maxStack room' count Q g)
    (hh : Pushes maxStack room'' count R h) :
    Pushes maxStack (room + (room' + (room'' + 1) + 1)) count
      (fun values => ∃ value, P [value] ∧ if value = 0 then R values else Q values)
      fun stack => f stack >>= fun stack =>
        chooseFalse stack >>= fun r => if r.1 then h r.2 else g r.2 where
  leaves stack := by
    obtain ⟨values, hvalues, hf⟩ | ⟨error, herror, hf⟩ := hf.leaves stack
    · obtain ⟨value, rfl⟩ := List.length_eq_one_iff.mp hvalues
      rw [hf, ok_bind, List.singleton_append]
      show Leaves count stack (if decide (value = 0) then h stack else g stack)
      split_ifs
      · exact hh.leaves stack
      · exact hg.leaves stack
    · exact .inr ⟨error, herror, by rw [hf]; rfl⟩
  value := by
    rintro values ⟨value, hvalue, hvalues⟩ stack hroom
    rw [hf.value _ hvalue stack (by omega), ok_bind, List.singleton_append]
    show (if decide (value = 0) then h stack else g stack) = _
    simp only [decide_eq_true_eq]
    split_ifs at hvalues ⊢
    · exact hh.value values hvalues stack (by omega)
    · exact hg.value values hvalues stack (by omega)
  sound stack result hresult := by
    obtain ⟨stack', hleft, hresult⟩ := bind_eq_ok.mp hresult
    obtain ⟨values, hvalues, hP, rfl⟩ := hf.exists_values hleft
    obtain ⟨value, rfl⟩ := List.length_eq_one_iff.mp hvalues
    replace hresult : (if decide (value = 0) then h stack else g stack) = .ok result := hresult
    simp only [decide_eq_true_eq] at hresult
    by_cases hzero : value = 0
    · rw [if_pos hzero] at hresult
      obtain ⟨values, hR, rfl⟩ := hh.sound stack result hresult
      exact ⟨values, ⟨value, hP, by rwa [if_pos hzero]⟩, rfl⟩
    · rw [if_neg hzero] at hresult
      obtain ⟨values, hQ, rfl⟩ := hg.sound stack result hresult
      exact ⟨values, ⟨value, hP, by rwa [if_neg hzero]⟩, rfl⟩
  count_le := by
    have := hg.count_le
    omega

end Pushes

namespace Applies

variable {instruction : Instruction} {arity count : ℕ}
  {op : List U128 → Except ExecutionError (List U128)}

/-- The instruction as a fragment. -/
theorem exists_fragment (h : Applies resolver maxStack instruction arity count op) (start : ℕ) :
    ∃ f, Fragment resolver maxStack start [some instruction] f ∧
      ∀ values stack, values.length = arity →
        f (values ++ stack) = op values >>= fun results => results.foldrM (push maxStack) stack := by
  choose f hf using fun stack => perform_fallsThrough resolver maxStack stack h.straight
  refine ⟨f, .instruction h.straight fun length pc stack => hf stack length pc, ?_⟩
  intro values stack hvalues
  have hstep := (hf (values ++ stack) 0 0).symm.trans (h.perform_eq 0 0 values stack hvalues)
  cases hop : op values with
  | error error =>
    rw [hop] at hstep
    cases hstack : f (values ++ stack) with
    | error error' =>
      rw [hstack] at hstep
      exact congrArg _ (Except.error.inj hstep)
    | ok stack' =>
      rw [hstack] at hstep
      cases hstep
  | ok results =>
    rw [hop, ok_bind] at hstep
    rw [ok_bind]
    cases hstack : f (values ++ stack) <;>
      cases hresults : results.foldrM (push maxStack) stack <;>
        rw [hstack, hresults] at hstep <;> cases hstep <;> rfl

/-- An instruction that leaves the result of `g`. -/
theorem of_result {g : List U128 → Except ExecutionError U128}
    (hbranch : instruction.branchTarget = none)
    (hperform : ∀ length pc values stack, values.length = arity →
      perform resolver maxStack length pc (values ++ stack) instruction =
        g values >>= fun result => push maxStack result stack >>= fun stack => .ok (pc + 1, stack))
    (hharmless : ∀ values error, g values = .error error → error.Harmless) :
    Applies resolver maxStack instruction arity 1 fun values =>
      g values >>= fun result => .ok [result] where
  straight := hbranch
  perform_eq length pc values stack hvalues := by
    rw [hperform length pc values stack hvalues, bind_assoc]
    refine congrArg _ (funext fun result => ?_)
    rw [ok_bind, List.foldrM_cons, List.foldrM_nil, pure_bind]
  results values _ := by
    cases h : g values with
    | error error => exact .inr ⟨error, hharmless values error h, rfl⟩
    | ok result => exact .inl ⟨[result], rfl, rfl⟩
  count_le := le_rfl

theorem pushInteger (value : U128) :
    Applies resolver maxStack (.pushInteger value) 0 1 fun _ => .ok [value] := by
  have hharmless : ∀ (values : List U128) error,
      (.ok value : Except ExecutionError U128) = .error error → error.Harmless := nofun
  refine of_result rfl ?_ hharmless
  intro length pc values stack hvalues
  obtain rfl := List.length_eq_zero_iff.mp hvalues
  rfl

theorem loadConstant (name : String) :
    Applies resolver maxStack (.loadConstant name) 0 1 fun _ =>
      okOr (resolver.resolve name) .unknownConstant >>= fun value => .ok [value] := by
  refine of_result rfl ?_ fun _ _ => okOr_harmless
  intro length pc values stack hvalues
  obtain rfl := List.length_eq_zero_iff.mp hvalues
  rfl

theorem callConstant (name : String) {argumentCount : ℕ}
    (hcount : argumentCount ≤ maxCallArguments) :
    Applies resolver maxStack (.callConstant name argumentCount) argumentCount 1 fun values =>
      okOr (resolver.resolveCall name values.reverse) .unknownConstant >>= fun value =>
        .ok [value] := by
  refine of_result rfl ?_ fun _ _ => okOr_harmless
  intro length pc values stack hvalues
  rw [perform, refuseIf_of_not (Nat.not_lt.mpr hcount), ok_bind, ← hvalues, popArguments_append]
  rfl

/-- An instruction that takes one value and leaves the result of an operation on it. -/
theorem of_operation {operation : U128 → Except ConstEvalError U128}
    (hbranch : instruction.branchTarget = none)
    (hperform : ∀ length pc value stack,
      perform resolver maxStack length pc (value :: stack) instruction =
        (operation value).mapError .arithmetic >>= fun result =>
          push maxStack result stack >>= fun stack => .ok (pc + 1, stack)) :
    Applies resolver maxStack instruction 1 1 fun values =>
      (operation (values.headD 0)).mapError .arithmetic >>= fun result => .ok [result] := by
  refine of_result hbranch ?_ fun _ _ => mapError_harmless
  intro length pc values stack hvalues
  obtain ⟨value, rfl⟩ := List.length_eq_one_iff.mp hvalues
  exact hperform length pc value stack

theorem binary (operator : BinaryOperator) :
    Applies resolver maxStack (.binary operator) 2 1 fun values =>
      (evaluateBinary operator (values.getD 1 0) (values.headD 0)).mapError .arithmetic >>=
        fun value => .ok [value] := by
  refine of_result rfl ?_ fun _ _ => mapError_harmless
  intro length pc values stack hvalues
  obtain ⟨right, left, rfl⟩ := List.length_eq_two.mp hvalues
  rfl

theorem pop : Applies resolver maxStack .pop 1 0 fun _ => .ok [] where
  straight := rfl
  perform_eq length pc values stack hvalues := by
    obtain ⟨value, rfl⟩ := List.length_eq_one_iff.mp hvalues
    rfl
  results _ _ := .inl ⟨[], rfl, rfl⟩
  count_le := Nat.zero_le 1

end Applies

/-! ## Steps of the lowering -/

theorem lowerer_push_eq_ok {capacity index : ℕ} {instruction : Instruction} {span : Span}
    {program program' : IrProgram}
    (h : Lowerer.push capacity instruction span program = .ok (index, program')) :
    index = program.instructions.length ∧
      program'.instructions = program.instructions ++ [some instruction] := by
  unfold Lowerer.push at h
  split_ifs at h
  obtain ⟨rfl, rfl⟩ := Prod.mk.inj (Except.ok.inj h)
  exact ⟨rfl, rfl⟩

/-- `patch` replaces the instruction that was pushed at its index. -/
theorem patch_instructions {program : IrProgram} {before after : List (Option Instruction)}
    {old : Option Instruction} (h : program.instructions = before ++ old :: after)
    (instruction : Instruction) :
    (Lowerer.patch before.length instruction program).instructions =
      before ++ some instruction :: after := by
  rw [Lowerer.patch, h, List.set_append_right _ _ le_rfl, Nat.sub_self, List.set_cons_zero]

namespace Delivers

variable {capacity index : ℕ} {span : Span} {program program₁ program₂ program₃ : IrProgram}
  {count count' arity : ℕ} {P Q R : List U128 → Prop} {instruction : Instruction}

theorem refl : Delivers resolver maxStack program program 0 (· = []) :=
  ⟨[], .ok, (List.append_nil _).symm, .nil, .nil⟩

theorem congr (h : Delivers resolver maxStack program program₁ count P)
    (hQ : ∀ values, Q values ↔ P values) :
    Delivers resolver maxStack program program₁ count Q := by
  obtain ⟨code, f, hcode, hfragment, hpushes⟩ := h
  exact ⟨code, f, hcode, hfragment, hpushes.congr hQ⟩

theorem append (hP : Delivers resolver maxStack program program₁ count P)
    (hQ : Delivers resolver maxStack program₁ program₂ count' Q) :
    Delivers resolver maxStack program program₂ (count' + count)
      fun values => ∃ first second, P first ∧ Q second ∧ values = second ++ first := by
  obtain ⟨code, f, hcode, hfragment, hpushes⟩ := hP
  obtain ⟨code', g, hcode', hfragment', hpushes'⟩ := hQ
  rw [hcode, List.length_append] at hfragment'
  refine ⟨code ++ code', _, by rw [hcode', hcode, List.append_assoc],
    hfragment.append hfragment', ?_⟩
  rw [List.length_append]
  exact hpushes.append hpushes'

/-- An instruction behind the code of its operands. -/
theorem apply {op : List U128 → Except ExecutionError (List U128)}
    (hP : Delivers resolver maxStack program program₁ arity P)
    (happly : Applies resolver maxStack instruction arity count op)
    (hpush : Lowerer.push capacity instruction span program₁ = .ok (index, program₂)) :
    Delivers resolver maxStack program program₂ count
      fun results => ∃ values, P values ∧ op values = .ok results := by
  obtain ⟨code, f, hcode, hfragment, hpushes⟩ := hP
  obtain ⟨_, hprogram₂⟩ := lowerer_push_eq_ok hpush
  obtain ⟨g, hinstruction, hg⟩ :=
    happly.exists_fragment (program.instructions.length + code.length)
  refine ⟨code ++ [some instruction], _, by rw [hprogram₂, hcode, List.append_assoc],
    hfragment.append hinstruction, ?_⟩
  have hcount := happly.count_le
  rw [List.length_append, List.length_singleton]
  refine ⟨fun stack => ?_, ?_, ?_, by omega⟩
  · obtain ⟨values, hvalues, hf⟩ | ⟨error, herror, hf⟩ := hpushes.leaves stack
    · rw [hf, ok_bind, hg values stack hvalues]
      obtain ⟨results, hresults, hop⟩ | ⟨error, herror, hop⟩ := happly.results values hvalues
      · rw [hop, ok_bind]
        obtain _ | ⟨result, _ | ⟨_, _⟩⟩ := results
        · exact .inl ⟨[], hresults, rfl⟩
        · rw [List.foldrM_cons, List.foldrM_nil, pure_bind]
          obtain hresult | hresult := push_harmless maxStack result stack
          · exact .inl ⟨[result], hresults, hresult⟩
          · exact .inr hresult
        · rw [List.length_cons, List.length_cons] at hresults
          omega
      · exact .inr ⟨error, herror, by rw [hop]; rfl⟩
    · exact .inr ⟨error, herror, by rw [hf]; rfl⟩
  · rintro results ⟨values, hvalues, hop⟩ stack hroom
    have hlength := hpushes.length_eq hvalues (by omega)
    rw [hpushes.value values hvalues stack (by omega), ok_bind, hg values stack hlength, hop,
      ok_bind]
    obtain ⟨results', hresults, hop'⟩ | ⟨error, _, hop'⟩ := happly.results values hlength
    · obtain rfl := Except.ok.inj (hop.symm.trans hop')
      obtain _ | ⟨result, _ | ⟨_, _⟩⟩ := results
      · rfl
      · rw [List.foldrM_cons, List.foldrM_nil, pure_bind, push_of_lt (by omega)]
        rfl
      · rw [List.length_cons, List.length_cons] at hresults
        omega
    · cases hop.symm.trans hop'
  · intro stack result hresult
    obtain ⟨stack', hleft, hresult⟩ := bind_eq_ok.mp hresult
    obtain ⟨values, hvalues, hP, rfl⟩ := hpushes.exists_values hleft
    rw [hg values stack hvalues] at hresult
    obtain ⟨results, hop, hresult⟩ := bind_eq_ok.mp hresult
    refine ⟨results, ⟨values, hP, hop⟩, ?_⟩
    obtain ⟨results', hresults, hop'⟩ | ⟨error, _, hop'⟩ := happly.results values hvalues
    · obtain rfl := Except.ok.inj (hop.symm.trans hop')
      obtain _ | ⟨value, _ | ⟨_, _⟩⟩ := results
      · exact (Except.ok.inj hresult).symm
      · rw [List.foldrM_cons, List.foldrM_nil, pure_bind] at hresult
        exact push_eq_ok hresult
      · rw [List.length_cons, List.length_cons] at hresults
        omega
    · cases hop.symm.trans hop'

/-- A short circuit: the branch over the code of the right operand leaves `constant`. -/
theorem shortCircuit (branch : ℕ → Instruction) (taken : U128 → Bool) (constant : U128)
    (hbranch : ∀ target, (branch target).branchTarget = some target)
    (hperform : ∀ {length pc target : ℕ}, pc < target → target ≤ length → ∀ stack,
      perform resolver maxStack length pc stack (branch target) =
        (chooseShort maxStack taken constant stack).map
          fun r => (if r.1 then target else pc + 1, r.2))
    (hP : Delivers resolver maxStack program program₁ 1 P)
    (hpush : Lowerer.push capacity (branch 0) span program₁ = .ok (index, program₂))
    (hQ : Delivers resolver maxStack program₂ program₃ 1 Q) :
    Delivers resolver maxStack program
      (Lowerer.patch index (branch program₃.instructions.length) program₃) 1
      fun values => ∃ value, P [value] ∧ if taken value then values = [constant] else Q values := by
  obtain ⟨code, f, hcode, hfragment, hpushes⟩ := hP
  obtain ⟨rfl, hprogram₂⟩ := lowerer_push_eq_ok hpush
  obtain ⟨code', g, hcode', hfragment', hpushes'⟩ := hQ
  have hprogram₃ : program₃.instructions =
      program₁.instructions ++ some (branch 0) :: code' := by
    rw [hcode', hprogram₂, List.append_assoc, List.singleton_append]
  have hstart : program₂.instructions.length =
      program.instructions.length + code.length + 1 := by
    rw [hprogram₂, hcode, List.length_append, List.length_append, List.length_singleton]
  have hstop : program₃.instructions.length =
      program.instructions.length + code.length + 1 + code'.length := by
    rw [hcode', List.length_append, hstart]
  rw [hstart] at hfragment'
  have hskip := Fragment.skip (hbranch _)
    (fun length stack hlength => hperform (by omega) hlength stack) hfragment'
  rw [← hstop] at hskip
  refine ⟨code ++ some (branch program₃.instructions.length) :: code', _, ?_,
    hfragment.append hskip, ?_⟩
  · exact (patch_instructions hprogram₃ _).trans (by rw [hcode, List.append_assoc])
  · rw [List.length_append, List.length_cons]
    exact hpushes.shortCircuit hpushes'

/-- A conditional: both of its branches are patched. -/
theorem conditional {index' : ℕ} {span' : Span} {program₄ program₅ : IrProgram}
    (hP : Delivers resolver maxStack program program₁ 1 P)
    (hpush : Lowerer.push capacity (.jumpIfFalse 0) span program₁ = .ok (index, program₂))
    (hQ : Delivers resolver maxStack program₂ program₃ count Q)
    (hpush' : Lowerer.push capacity (.jump 0) span' program₃ = .ok (index', program₄))
    (hR : Delivers resolver maxStack
      (Lowerer.patch index (.jumpIfFalse program₄.instructions.length) program₄) program₅ count R) :
    Delivers resolver maxStack program
      (Lowerer.patch index' (.jump program₅.instructions.length) program₅) count
      fun values => ∃ value, P [value] ∧ if value = 0 then R values else Q values := by
  obtain ⟨code, f, hcode, hfragment, hpushes⟩ := hP
  obtain ⟨rfl, hprogram₂⟩ := lowerer_push_eq_ok hpush
  obtain ⟨code', g, hcode', hfragment', hpushes'⟩ := hQ
  obtain ⟨rfl, hprogram₄⟩ := lowerer_push_eq_ok hpush'
  obtain ⟨code'', k, hcode'', hfragment'', hpushes''⟩ := hR
  have hbefore : program₄.instructions = program₁.instructions ++
      some (.jumpIfFalse 0) :: (code' ++ [some (.jump 0)]) := by
    rw [hprogram₄, hcode', hprogram₂, List.append_assoc, List.append_assoc,
      List.singleton_append]
  rw [patch_instructions hbefore] at hcode'' hfragment''
  have hstart : program₂.instructions.length =
      program.instructions.length + code.length + 1 := by
    rw [hprogram₂, hcode, List.length_append, List.length_append, List.length_singleton]
  have hmiddle : program₄.instructions.length =
      program.instructions.length + code.length + 1 + code'.length + 1 := by
    rw [hprogram₄, hcode', List.length_append, List.length_append, hstart, List.length_singleton]
  have hstop : program₅.instructions.length =
      program.instructions.length + code.length + 1 + code'.length + 1 + code''.length := by
    rw [hcode'', hcode]
    simp only [List.length_append, List.length_cons, List.length_nil]
    omega
  have hindex : program₃.instructions.length = (program₁.instructions ++
      some (.jumpIfFalse program₄.instructions.length) :: code').length := by
    rw [hcode', hprogram₂]
    simp only [List.length_append, List.length_cons, List.length_nil]
    omega
  have hprogram₅ : program₅.instructions = (program₁.instructions ++
      some (.jumpIfFalse program₄.instructions.length) :: code') ++ some (.jump 0) :: code'' := by
    rw [hcode'']
    simp
  have hlength : (program₁.instructions ++
      some (Instruction.jumpIfFalse program₄.instructions.length) ::
        (code' ++ [some (Instruction.jump 0)])).length =
      program.instructions.length + code.length + 1 + code'.length + 1 := by
    rw [← hmiddle, hbefore]
    simp only [List.length_append, List.length_cons]
  rw [hstart] at hfragment'
  rw [hlength] at hfragment''
  have hconditional := hfragment'.conditional hfragment''
  rw [← hstop, ← hmiddle] at hconditional
  refine ⟨_, _, ?_, hfragment.append hconditional, ?_⟩
  · rw [hindex, patch_instructions hprogram₅, hcode]
    simp only [List.append_assoc, List.cons_append]
  · have hroom := hpushes.conditional hpushes' hpushes''
    simp only [List.length_append, List.length_cons]
    exact hroom

end Delivers

/-! ## The lowering of a tree -/

variable {tree : ExpressionTree} {pointerBits capacity : ℕ}

/-- The one value that `x` gives, where it gives one. -/
def single (x : Except ConstEvalError U128) (values : List U128) : Prop :=
  ∃ value, x = .ok value ∧ values = [value]

theorem single_ok {value : U128} {values : List U128} :
    single (.ok value) values ↔ (.ok [value] : Except ExecutionError _) = .ok values := by
  rw [Except.ok.injEq]
  constructor
  · rintro ⟨_, h, rfl⟩
    rw [Except.ok.inj h]
  · exact fun h => ⟨value, rfl, h.symm⟩

theorem single_bind {α : Type} {x : Except ConstEvalError α} {f : α → Except ConstEvalError U128}
    {values : List U128} : single (x >>= f) values ↔ ∃ a, x = .ok a ∧ single (f a) values := by
  constructor
  · rintro ⟨result, h, rfl⟩
    obtain ⟨a, ha, hresult⟩ := bind_eq_ok.mp h
    exact ⟨a, ha, result, hresult, rfl⟩
  · rintro ⟨a, ha, result, hresult, rfl⟩
    exact ⟨result, bind_eq_ok.mpr ⟨a, ha, hresult⟩, rfl⟩

/-- The operands of an instruction that takes one value. -/
theorem exists_single {x : Except ConstEvalError U128} {Q : List U128 → Prop} :
    (∃ values, single x values ∧ Q values) ↔ ∃ value, x = .ok value ∧ Q [value] := by
  constructor
  · rintro ⟨_, ⟨value, hvalue, rfl⟩, hQ⟩
    exact ⟨value, hvalue, hQ⟩
  · rintro ⟨value, hvalue, hQ⟩
    exact ⟨[value], ⟨value, hvalue, rfl⟩, hQ⟩

theorem mapError_result {x : Except ConstEvalError U128} {values : List U128} :
    (x.mapError .arithmetic >>= fun result => .ok [result] : Except ExecutionError _) =
      .ok values ↔ single x values := by
  cases x with
  | error error => exact ⟨nofun, by rintro ⟨_, h, _⟩; cases h⟩
  | ok value => exact single_ok.symm

theorem okOr_result {x : Option U128} {error : ConstEvalError} {values : List U128} :
    (okOr x .unknownConstant >>= fun result => .ok [result] : Except ExecutionError _) =
      .ok values ↔ single (okOr x error) values := by
  cases x with
  | none => exact ⟨nofun, by rintro ⟨_, h, _⟩; cases h⟩
  | some value => exact single_ok.symm

/-- A lowered expression delivers the value of `uncheckedNode`. -/
def LowersTo (resolver : ConstantResolver) (maxStack : ℕ) (tree : ExpressionTree)
    (pointerBits capacity levels : ℕ) : Prop :=
  ∀ id program program', Lowerer.lower tree pointerBits capacity levels id program = .ok program' →
    Delivers resolver maxStack program program' 1
      (single (tree.uncheckedNode resolver pointerBits levels id))

/-- A lowered element of an array delivers the value of `uncheckedArrayElement`. -/
def LowersElementTo (resolver : ConstantResolver) (maxStack : ℕ) (tree : ExpressionTree)
    (pointerBits capacity levels : ℕ) : Prop :=
  ∀ id index program program',
    Lowerer.lowerArrayElement tree pointerBits capacity levels id index program = .ok program' →
    Delivers resolver maxStack program program' 1
      (single (tree.uncheckedArrayElement resolver pointerBits levels id index))

section Step

variable {levels : ℕ}

theorem mapM_cons_eq_ok {error : ConstEvalError} {id : ExprId} {ids : List (Option ExprId)}
    {all : List U128} :
    (some id :: ids).mapM (fun element => do
      tree.uncheckedNode resolver pointerBits levels (← okOr element error)) = .ok all ↔
    ∃ value rest, tree.uncheckedNode resolver pointerBits levels id = .ok value ∧
      ids.mapM (fun element => do
        tree.uncheckedNode resolver pointerBits levels (← okOr element error)) = .ok rest ∧
      all = value :: rest := by
  rw [List.mapM_cons]
  constructor
  · intro h
    obtain ⟨value, hvalue, h⟩ := bind_eq_ok.mp h
    obtain ⟨rest, hrest, h⟩ := bind_eq_ok.mp h
    exact ⟨value, rest, hvalue, hrest, (Except.ok.inj h).symm⟩
  · rintro ⟨value, rest, hvalue, hrest, rfl⟩
    exact bind_eq_ok.mpr ⟨value, hvalue, bind_eq_ok.mpr ⟨rest, hrest, rfl⟩⟩

/-- The code of a list of arguments leaves their values, the last one on top. -/
theorem arguments_delivers (h : LowersTo resolver maxStack tree pointerBits capacity levels)
    {error : IrError} (error' : ConstEvalError) :
    ∀ (ids : List (Option ExprId)) (program program' : IrProgram),
      ids.foldlM (fun program argument => do
        Lowerer.lower tree pointerBits capacity levels (← okOr argument error) program) program =
          .ok program' →
      Delivers resolver maxStack program program' ids.length fun values =>
        ids.mapM (fun argument => do
          tree.uncheckedNode resolver pointerBits levels (← okOr argument error')) =
            .ok values.reverse := by
  intro ids
  induction ids with
  | nil =>
    intro program program' hlower
    obtain rfl := Except.ok.inj hlower
    refine Delivers.refl.congr fun values => ?_
    show Except.ok [] = Except.ok values.reverse ↔ values = []
    rw [Except.ok.injEq, eq_comm, List.reverse_eq_nil_iff]
  | cons argument ids ih =>
    intro program program' hlower
    rw [List.foldlM_cons] at hlower
    obtain ⟨program₁, hfirst, hrest⟩ := bind_eq_ok.mp hlower
    obtain ⟨id, hid, hfirst⟩ := bind_eq_ok.mp hfirst
    obtain rfl := okOr_eq_ok.mp hid
    refine ((h id program program₁ hfirst).append (ih program₁ program' hrest)).congr ?_
    intro values
    rw [mapM_cons_eq_ok]
    constructor
    · rintro ⟨value, rest, hvalue, hrest, hvalues⟩
      refine ⟨[value], rest.reverse, ⟨value, hvalue, rfl⟩, ?_, ?_⟩
      · rw [hrest, List.reverse_reverse]
      · rw [← List.reverse_reverse values, hvalues, List.reverse_cons]
    · rintro ⟨_, rest, ⟨value, hvalue, rfl⟩, hrest, rfl⟩
      refine ⟨value, rest.reverse, hvalue, hrest, ?_⟩
      rw [List.reverse_append, List.reverse_singleton, List.singleton_append]

/-- The code of the elements of an array leaves the element at `index` and nothing else. -/
theorem elements_delivers (h : LowersTo resolver maxStack tree pointerBits capacity levels)
    {error : IrError} (error' : ConstEvalError) {span : Span} {index : ℕ} :
    ∀ (ids : List (Option ExprId)) (start : ℕ) (program program' : IrProgram),
      (ids.zipIdx start).foldlM (fun program (element, elementIndex) => do
        let element ← okOr element error
        let program ← Lowerer.lower tree pointerBits capacity levels element program
        if elementIndex ≠ index then do
          let (_, program) ← Lowerer.push capacity .pop span program
          return program
        else return program) program = .ok program' →
      Delivers resolver maxStack program program'
        (if start ≤ index ∧ index < start + ids.length then 1 else 0) fun values =>
          ∃ all, ids.mapM (fun element => do
            tree.uncheckedNode resolver pointerBits levels (← okOr element error')) = .ok all ∧
              values = if start ≤ index then (all[index - start]?).toList else [] := by
  intro ids
  induction ids with
  | nil =>
    intro start program program' hlower
    obtain rfl := Except.ok.inj hlower
    rw [if_neg (by rw [List.length_nil]; omega)]
    refine Delivers.refl.congr fun values => ?_
    have hnil : (if start ≤ index then ([] : List U128)[index - start]?.toList else []) = [] := by
      split_ifs <;> rfl
    constructor
    · rintro ⟨all, hall, rfl⟩
      obtain rfl := Except.ok.inj hall
      exact hnil
    · rintro rfl
      exact ⟨[], rfl, hnil.symm⟩
  | cons element ids ih =>
    intro start program program' hlower
    rw [List.zipIdx_cons, List.foldlM_cons] at hlower
    obtain ⟨program₁, hfirst, hrest⟩ := bind_eq_ok.mp hlower
    obtain ⟨id, hid, helement⟩ := bind_eq_ok.mp hfirst
    obtain rfl := okOr_eq_ok.mp hid
    obtain ⟨program₂, hlowered, hkept⟩ := bind_eq_ok.mp helement
    have hvalue := h id program program₂ hlowered
    have hdelivers := ih (start + 1) program₁ program' hrest
    by_cases hstart : start = index
    · -- the element that is selected stays on the stack
      subst hstart
      rw [if_neg (not_not.mpr rfl)] at hkept
      obtain rfl := Except.ok.inj hkept
      rw [if_neg (by omega)] at hdelivers
      rw [if_pos (by rw [List.length_cons]; omega)]
      refine (hvalue.append hdelivers).congr fun values => ?_
      have hbehind : ¬start + 1 ≤ start := by omega
      simp only [le_refl, if_true, if_neg hbehind, Nat.sub_self]
      constructor
      · rintro ⟨all, hall, rfl⟩
        obtain ⟨value, rest, hvalue, hrest, rfl⟩ := mapM_cons_eq_ok.mp hall
        exact ⟨[value], [], ⟨value, hvalue, rfl⟩, ⟨rest, hrest, rfl⟩, rfl⟩
      · rintro ⟨_, _, ⟨value, hvalue, rfl⟩, ⟨rest, hrest, rfl⟩, rfl⟩
        exact ⟨value :: rest, mapM_cons_eq_ok.mpr ⟨value, rest, hvalue, hrest, rfl⟩, rfl⟩
    · rw [if_pos hstart] at hkept
      obtain ⟨⟨_, program₃⟩, hpop, hkept⟩ := bind_eq_ok.mp hkept
      obtain rfl := Except.ok.inj hkept
      have hcount : (if start ≤ index ∧ index < start + (ids.length + 1) then 1 else 0) =
          (if start + 1 ≤ index ∧ index < start + 1 + ids.length then 1 else 0) := by
        split_ifs <;> omega
      rw [List.length_cons, hcount]
      refine ((hvalue.apply .pop hpop).append hdelivers).congr fun values => ?_
      have hshift : ∀ (value : U128) (rest : List U128),
          (if start ≤ index then ((value :: rest)[index - start]?).toList else []) =
            if start + 1 ≤ index then (rest[index - (start + 1)]?).toList else [] := by
        intro value rest
        by_cases hle : start + 1 ≤ index
        · rw [if_pos hle, if_pos (by omega), show index - start = index - (start + 1) + 1 by omega,
            List.getElem?_cons_succ]
        · rw [if_neg hle, if_neg (by omega)]
      constructor
      · rintro ⟨all, hall, rfl⟩
        obtain ⟨value, rest, hvalue, hrest, rfl⟩ := mapM_cons_eq_ok.mp hall
        refine ⟨[], _, ⟨[value], ⟨value, hvalue, rfl⟩, rfl⟩, ⟨rest, hrest, rfl⟩, ?_⟩
        rw [List.append_nil, hshift]
      · rintro ⟨_, _, ⟨_, ⟨value, hvalue, rfl⟩, hnone⟩, ⟨rest, hrest, rfl⟩, rfl⟩
        obtain rfl := Except.ok.inj hnone
        refine ⟨value :: rest, mapM_cons_eq_ok.mpr ⟨value, rest, hvalue, hrest, rfl⟩, ?_⟩
        rw [List.append_nil, hshift]

/-- An instruction that stands alone leaves its value. -/
theorem leaf_delivers {instruction : Instruction} {span : Span} {program program' : IrProgram}
    {op : List U128 → Except ExecutionError (List U128)} {x : Except ConstEvalError U128}
    (happly : Applies resolver maxStack instruction 0 1 op)
    (hx : ∀ values, single x values ↔ op [] = .ok values)
    (hlower : (do
      let (_, program) ← Lowerer.push capacity instruction span program
      return program : Except IrError IrProgram) = .ok program') :
    Delivers resolver maxStack program program' 1 (single x) := by
  obtain ⟨⟨_, program₁⟩, hpush, hlower⟩ := bind_eq_ok.mp hlower
  obtain rfl := Except.ok.inj hlower
  refine (Delivers.refl.apply happly hpush).congr fun values => ?_
  rw [exists_eq_left]
  exact hx values

/-- An instruction behind its operand leaves the result of its operation. -/
theorem operation_delivers {instruction : Instruction} {span : Span}
    {program program₁ program' : IrProgram} {x : Except ConstEvalError U128}
    (operation : U128 → Except ConstEvalError U128)
    (h : Delivers resolver maxStack program program₁ 1 (single x))
    (hbranch : instruction.branchTarget = none)
    (hperform : ∀ length pc value stack,
      perform resolver maxStack length pc (value :: stack) instruction =
        (operation value).mapError .arithmetic >>= fun result =>
          push maxStack result stack >>= fun stack => .ok (pc + 1, stack))
    (hlower : (do
      let (_, program) ← Lowerer.push capacity instruction span program₁
      return program : Except IrError IrProgram) = .ok program') :
    Delivers resolver maxStack program program' 1 (single (x >>= operation)) := by
  obtain ⟨⟨_, program₂⟩, hpush, hlower⟩ := bind_eq_ok.mp hlower
  obtain rfl := Except.ok.inj hlower
  refine (h.apply (.of_operation hbranch hperform) hpush).congr fun values => ?_
  simp only [exists_single, single_bind, mapError_result, List.headD_cons]

/-- The instruction for a unary operator behind the code of its operand. -/
theorem unary_delivers {operator : UnaryOperator} {operand : ExprId} {span : Span}
    {program program₁ program' : IrProgram} {x : Except ConstEvalError U128}
    (h : Delivers resolver maxStack program program₁ 1 (single x))
    (hlower : (do
      let (_, program) ← Lowerer.push capacity
        (Lowerer.unaryInstruction tree pointerBits levels operator operand) span program₁
      return program : Except IrError IrProgram) = .ok program') :
    Delivers resolver maxStack program program' 1
      (single (x >>= tree.unaryValue pointerBits levels operator operand)) := by
  cases operator with
  | negate =>
    cases htarget : tree.signedLiteralTarget operand with
    | some target =>
      simp only [Lowerer.unaryInstruction, htarget] at hlower
      have hvalue : tree.unaryValue pointerBits levels .negate operand =
          (negateSignedMagnitude · target pointerBits) := by
        funext value
        simp only [ExpressionTree.unaryValue, htarget]
      rw [hvalue]
      exact operation_delivers _ h rfl (fun _ _ _ _ => rfl) hlower
    | none =>
      simp only [Lowerer.unaryInstruction, htarget, reduceCtorEq, false_and, if_false] at hlower
      have hvalue : tree.unaryValue pointerBits levels .negate operand =
          evaluateUnary .negate := by
        funext value
        simp only [ExpressionTree.unaryValue, htarget]
      rw [hvalue]
      exact operation_delivers _ h rfl (fun _ _ _ _ => rfl) hlower
  | not =>
    simp only [Lowerer.unaryInstruction, true_and] at hlower
    have hvalue : tree.unaryValue pointerBits levels .not operand = fun value =>
        if tree.isBooleanExpression levels operand then .ok (boolValue (value == 0))
        else evaluateUnary .not value := rfl
    rw [hvalue]
    split_ifs at hlower ⊢ with hbool
    · exact operation_delivers (fun value => .ok (boolValue (value == 0))) h rfl
        (fun _ _ _ _ => rfl) hlower
    · exact operation_delivers (evaluateUnary .not) h rfl (fun _ _ _ _ => rfl) hlower
  | dereference | addressOf | addressOfMut =>
    simp only [Lowerer.unaryInstruction, reduceCtorEq, false_and, if_false] at hlower
    exact operation_delivers _ h rfl (fun _ _ _ _ => rfl) hlower

/-- The value of a literal, if the depth is not reached. -/
theorem uncheckedNode_integer {id : ExprId} {literal : IntegerLiteral} {span : Span}
    (hexpression : tree.expression id = some ⟨.integer literal, span⟩) :
    tree.uncheckedNode resolver pointerBits (levels + 1) id = .ok literal.value := by
  rw [ExpressionTree.uncheckedNode, hexpression]
  rfl

/-- A choice that the tree makes on a value, against the one that the code makes. -/
theorem choice_iff {x : Except ConstEvalError U128} {f : U128 → Except ConstEvalError U128}
    {Q : U128 → Prop} {values : List U128} (h : ∀ value, single (f value) values ↔ Q value) :
    single (x >>= f) values ↔ ∃ value, single x [value] ∧ Q value := by
  rw [single_bind]
  refine exists_congr fun value => and_congr ?_ (h value)
  constructor
  · exact fun hx => ⟨value, hx, rfl⟩
  · rintro ⟨_, hx, hvalue⟩
    rw [hx, (List.cons.inj hvalue).1]

/-- A value that is dropped, and the value behind it. -/
theorem sequence_iff {first next : Except ConstEvalError U128} {values : List U128} :
    single (first >>= fun _ => next) values ↔
      ∃ dropped kept, (∃ operands, single first operands ∧
        (.ok [] : Except ExecutionError (List U128)) = .ok dropped) ∧ single next kept ∧
          values = kept ++ dropped := by
  rw [single_bind]
  constructor
  · rintro ⟨value, hfirst, hnext⟩
    exact ⟨[], values, ⟨[value], ⟨value, hfirst, rfl⟩, rfl⟩, hnext, (List.append_nil _).symm⟩
  · rintro ⟨_, kept, ⟨_, ⟨value, hfirst, rfl⟩, hdropped⟩, hnext, rfl⟩
    obtain rfl := Except.ok.inj hdropped
    rw [List.append_nil]
    exact ⟨value, hfirst, hnext⟩

/-- The two arms of a conditional. -/
theorem conditional_iff {value : U128} {thenBranch elseBranch : Except ConstEvalError U128}
    {values : List U128} :
    single (if value ≠ 0 then thenBranch else elseBranch) values ↔
      if value = 0 then single elseBranch values else single thenBranch values := by
  by_cases hzero : value = 0
  · rw [if_pos hzero, if_neg (not_not.mpr hzero)]
  · rw [if_neg hzero, if_pos hzero]

/-- **Step lemma.** One more level of an expression. -/
theorem lower_step (h : LowersTo resolver maxStack tree pointerBits capacity levels)
    (helement : LowersElementTo resolver maxStack tree pointerBits capacity levels) :
    LowersTo resolver maxStack tree pointerBits capacity (levels + 1) := by
  intro id program program' hlower
  rw [Lowerer.lower] at hlower
  obtain ⟨⟨kind, span⟩, hexpression, hlower⟩ := bind_eq_ok.mp hlower
  rw [ExpressionTree.uncheckedNode, okOr_eq_ok.mp hexpression, okOr_some, ok_bind]
  cases kind with
  | unit | defaultValue | integer | bool | char =>
    exact leaf_delivers (.pushInteger _) (fun _ => single_ok) hlower
  | identifier name => exact leaf_delivers (.loadConstant name) (fun _ => okOr_result.symm) hlower
  | index base index =>
    obtain ⟨⟨indexKind, indexSpan⟩, hindex, hlower⟩ := bind_eq_ok.mp hlower
    cases indexKind with
    | integer literal =>
      obtain ⟨number, hnumber, hlower⟩ := bind_eq_ok.mp hlower
      cases levels with
      | zero =>
        obtain ⟨_, _, hlower⟩ := bind_eq_ok.mp hlower
        cases hlower
      | succ levels =>
        dsimp only
        rw [uncheckedNode_integer (okOr_eq_ok.mp hindex), ok_bind, okOr_eq_ok.mp hnumber, okOr_some,
          ok_bind]
        exact helement base number program program' hlower
    | _ => cases hlower
  | call callee arguments =>
    obtain ⟨program₁, harguments, hlower⟩ := bind_eq_ok.mp hlower
    obtain ⟨⟨_, program₂⟩, hpush, hlower⟩ := bind_eq_ok.mp hlower
    obtain rfl := Except.ok.inj hlower
    have hvalues := arguments_delivers h .invalidExpressionTree _ _ _ harguments
    refine (hvalues.apply (.callConstant callee arguments.within) hpush).congr fun values => ?_
    rw [single_bind]
    constructor
    · rintro ⟨argumentValues, hargumentValues, hvalue⟩
      refine ⟨argumentValues.reverse, ?_, ?_⟩
      · rw [hargumentValues, List.reverse_reverse]
      · rw [List.reverse_reverse]
        exact okOr_result.mpr hvalue
    · rintro ⟨argumentValues, hargumentValues, hvalue⟩
      exact ⟨argumentValues.reverse, hargumentValues, okOr_result.mp hvalue⟩
  | cast operand target =>
    obtain ⟨program₁, hoperand, hlower⟩ := bind_eq_ok.mp hlower
    cases target with
    | integer target =>
      exact operation_delivers (castInteger · target pointerBits)
        (h operand program program₁ hoperand) rfl (fun _ _ _ _ => rfl) hlower
    | rawPointer => cases hlower
  | ascribe operand target =>
    obtain ⟨program₁, hoperand, hlower⟩ := bind_eq_ok.mp hlower
    have hdelivers := h operand program program₁ hoperand
    cases target with
    | integer target =>
      exact operation_delivers (ascribeInteger · target pointerBits) hdelivers rfl
        (fun _ _ _ _ => rfl) hlower
    | bool =>
      exact operation_delivers (fun value => .ok (boolValue (value != 0))) hdelivers rfl
        (fun _ _ _ _ => rfl) hlower
  | unary operator operand =>
    obtain ⟨program₁, hoperand, hlower⟩ := bind_eq_ok.mp hlower
    exact unary_delivers (h operand program program₁ hoperand) hlower
  | binary operator left right =>
    have hnormalize : ∀ {program₁ program₂ program₃ : IrProgram} {index : ℕ},
        Lowerer.lower tree pointerBits capacity levels right program₁ = .ok program₂ →
        Lowerer.push capacity .normalizeBool span program₂ = .ok (index, program₃) →
        Delivers resolver maxStack program₁ program₃ 1 (single
          (tree.uncheckedNode resolver pointerBits levels right >>= fun value =>
            .ok (boolValue (value != 0)))) := fun hright hpush =>
      operation_delivers _ (h _ _ _ hright) rfl (fun _ _ _ _ => rfl)
        (bind_eq_ok.mpr ⟨_, hpush, rfl⟩)
    by_cases hshort : operator = .logicalAnd ∨ operator = .logicalOr
    · dsimp only at hlower
      rw [if_pos hshort] at hlower
      obtain ⟨program₁, hleft, hlower⟩ := bind_eq_ok.mp hlower
      obtain ⟨⟨_, program₂⟩, hpush, hlower⟩ := bind_eq_ok.mp hlower
      obtain ⟨program₃, hright, hlower⟩ := bind_eq_ok.mp hlower
      obtain ⟨⟨_, program₄⟩, hpush', hlower⟩ := bind_eq_ok.mp hlower
      obtain rfl := Except.ok.inj hlower
      have hdelivers := hnormalize hright hpush'
      obtain rfl | rfl := hshort
      · refine (Delivers.shortCircuit .branchIfFalse (· == 0) 0 (fun _ => rfl)
          perform_branchIfFalse (h _ _ _ hleft) hpush hdelivers).congr fun values => ?_
        refine choice_iff fun value => ?_
        by_cases hzero : value = 0
        · rw [if_pos ⟨rfl, hzero⟩, if_pos (beq_iff_eq.mpr hzero)]
          exact single_ok.trans (by rw [Except.ok.injEq, eq_comm])
        · rw [if_neg fun hand => hzero hand.2, if_neg (by rintro ⟨hop, -⟩; cases hop),
            if_neg fun hbeq => hzero (beq_iff_eq.mp hbeq)]
          simp only [evaluateBinary, bne_iff_ne.mpr hzero, Bool.true_and]
      · refine (Delivers.shortCircuit .branchIfTrue (· != 0) 1 (fun _ => rfl)
          perform_branchIfTrue (h _ _ _ hleft) hpush hdelivers).congr fun values => ?_
        refine choice_iff fun value => ?_
        rw [if_neg (by rintro ⟨hop, -⟩; cases hop)]
        by_cases hzero : value = 0
        · rw [if_neg fun hor => hor.2 hzero, if_neg fun hbne => bne_iff_ne.mp hbne hzero]
          subst hzero
          simp only [evaluateBinary, bne_self_eq_false, Bool.false_or]
        · rw [if_pos ⟨rfl, hzero⟩, if_pos (bne_iff_ne.mpr hzero)]
          exact single_ok.trans (by rw [Except.ok.injEq, eq_comm])
    · dsimp only at hlower
      rw [if_neg hshort] at hlower
      obtain ⟨program₁, hleft, hlower⟩ := bind_eq_ok.mp hlower
      obtain ⟨program₂, hright, hlower⟩ := bind_eq_ok.mp hlower
      obtain ⟨⟨_, program₃⟩, hpush, hlower⟩ := bind_eq_ok.mp hlower
      obtain rfl := Except.ok.inj hlower
      refine (((h _ _ _ hleft).append (h _ _ _ hright)).apply (.binary operator) hpush).congr
        fun values => ?_
      simp only [mapError_result]
      constructor
      · intro hresult
        obtain ⟨leftValue, hleftValue, hresult⟩ := single_bind.mp hresult
        rw [if_neg fun hand => hshort (.inl hand.1), if_neg fun hor => hshort (.inr hor.1)]
          at hresult
        obtain ⟨rightValue, hrightValue, hresult⟩ := single_bind.mp hresult
        exact ⟨[rightValue, leftValue], ⟨[leftValue], [rightValue], ⟨leftValue, hleftValue, rfl⟩,
          ⟨rightValue, hrightValue, rfl⟩, rfl⟩, hresult⟩
      · rintro ⟨_, ⟨_, _, ⟨leftValue, hleftValue, rfl⟩, ⟨rightValue, hrightValue, rfl⟩, rfl⟩,
          hresult⟩
        refine single_bind.mpr ⟨leftValue, hleftValue, ?_⟩
        rw [if_neg fun hand => hshort (.inl hand.1), if_neg fun hor => hshort (.inr hor.1)]
        exact single_bind.mpr ⟨rightValue, hrightValue, hresult⟩
  | ifElse condition thenBranch elseBranch | loopBreakIf condition thenBranch elseBranch =>
    obtain ⟨program₁, hcondition, hlower⟩ := bind_eq_ok.mp hlower
    obtain ⟨⟨_, program₂⟩, hpush, hlower⟩ := bind_eq_ok.mp hlower
    obtain ⟨program₃, hthen, hlower⟩ := bind_eq_ok.mp hlower
    obtain ⟨⟨_, program₄⟩, hpush', hlower⟩ := bind_eq_ok.mp hlower
    obtain ⟨program₅, helse, hlower⟩ := bind_eq_ok.mp hlower
    obtain rfl := Except.ok.inj hlower
    exact (Delivers.conditional (h _ _ _ hcondition) hpush (h _ _ _ hthen) hpush'
      (h _ _ _ helse)).congr fun values => choice_iff fun value => conditional_iff
  | ret operand | loopBreak operand | inlineConst operand =>
    exact h operand program program' hlower
  | sequence first next =>
    obtain ⟨program₁, hfirst, hlower⟩ := bind_eq_ok.mp hlower
    obtain ⟨⟨_, program₂⟩, hpush, hlower⟩ := bind_eq_ok.mp hlower
    exact (((h _ _ _ hfirst).apply .pop hpush).append (h _ _ _ hlower)).congr fun values =>
      sequence_iff
  | _ => cases hlower

/-- **Step lemma.** One more level of an array. -/
theorem lowerArrayElement_step (h : LowersTo resolver maxStack tree pointerBits capacity levels)
    (helement : LowersElementTo resolver maxStack tree pointerBits capacity levels) :
    LowersElementTo resolver maxStack tree pointerBits capacity (levels + 1) := by
  intro id index program program' hlower
  rw [Lowerer.lowerArrayElement] at hlower
  obtain ⟨⟨kind, span⟩, hexpression, hlower⟩ := bind_eq_ok.mp hlower
  rw [ExpressionTree.uncheckedArrayElement, okOr_eq_ok.mp hexpression, okOr_some, ok_bind]
  cases kind with
  | defaultValue => exact leaf_delivers (.pushInteger _) (fun _ => single_ok) hlower
  | array elements =>
    obtain ⟨_, hindex, hlower⟩ := bind_eq_ok.mp hlower
    have hlt : index < elements.ids.length := Nat.lt_of_not_le (refuseIf_eq_ok.mp hindex)
    have hdelivers := elements_delivers h .invalidExpressionTree _ _ _ _ hlower
    rw [if_pos ⟨Nat.zero_le index, by omega⟩] at hdelivers
    dsimp only
    rw [refuseIf_of_not (refuseIf_eq_ok.mp hindex), ok_bind]
    refine hdelivers.congr fun values => ?_
    rw [single_bind]
    refine exists_congr fun all => and_congr_right fun hall => ?_
    have hlength : index < all.length := (forall₂_of_mapM_eq_ok hall).length_eq ▸ hlt
    rw [if_pos (Nat.zero_le index), Nat.sub_zero, List.getElem?_eq_getElem hlength, okOr_some,
      Option.toList_some, single_ok, Except.ok.injEq, eq_comm]
  | arrayRepeat element count =>
    obtain ⟨_, hindex, hlower⟩ := bind_eq_ok.mp hlower
    dsimp only
    rw [refuseIf_of_not (refuseIf_eq_ok.mp hindex), ok_bind]
    exact h element program program' hlower
  | ifElse condition thenBranch elseBranch | loopBreakIf condition thenBranch elseBranch =>
    obtain ⟨program₁, hcondition, hlower⟩ := bind_eq_ok.mp hlower
    obtain ⟨⟨_, program₂⟩, hpush, hlower⟩ := bind_eq_ok.mp hlower
    obtain ⟨program₃, hthen, hlower⟩ := bind_eq_ok.mp hlower
    obtain ⟨⟨_, program₄⟩, hpush', hlower⟩ := bind_eq_ok.mp hlower
    obtain ⟨program₅, helse, hlower⟩ := bind_eq_ok.mp hlower
    obtain rfl := Except.ok.inj hlower
    refine (Delivers.conditional (h _ _ _ hcondition) hpush (helement _ _ _ _ hthen) hpush'
      (helement _ _ _ _ helse)).congr fun values => choice_iff fun value => ?_
    rw [apply_ite (tree.uncheckedArrayElement resolver pointerBits levels · index)]
    exact conditional_iff
  | inlineConst operand | loopBreak operand | ret operand =>
    exact helement operand index program program' hlower
  | sequence first next =>
    obtain ⟨program₁, hfirst, hlower⟩ := bind_eq_ok.mp hlower
    obtain ⟨⟨_, program₂⟩, hpush, hlower⟩ := bind_eq_ok.mp hlower
    exact (((h _ _ _ hfirst).apply .pop hpush).append (helement _ _ _ _ hlower)).congr
      fun values => sequence_iff
  | _ => cases hlower

end Step

/-- **Run lemma.** The code of an expression leaves the value of the expression, at any depth. -/
theorem lower_delivers (levels : ℕ) :
    LowersTo resolver maxStack tree pointerBits capacity levels ∧
      LowersElementTo resolver maxStack tree pointerBits capacity levels := by
  induction levels with
  | zero =>
    constructor
    · intro id program program' hlower
      obtain ⟨_, _, hlower⟩ := bind_eq_ok.mp hlower
      cases hlower
    · intro id index program program' hlower
      obtain ⟨_, _, hlower⟩ := bind_eq_ok.mp hlower
      cases hlower
  | succ levels ih => exact ⟨lower_step ih.1 ih.2, lowerArrayElement_step ih.1 ih.2⟩

/-! ## Lowered programs -/

/-- The code of a lowered program, and what it does to an empty stack. -/
theorem lowered_fragment (resolver : ConstantResolver) (maxStack : ℕ) {program : IrProgram}
    (h : lowerExpressionWithPointerBits capacity tree pointerBits = .ok program) :
    ∃ f, Fragment resolver maxStack 0 program.instructions f ∧
      Pushes maxStack program.instructions.length 1
        (single (tree.uncheckedNode resolver pointerBits maxLoweringDepth tree.root)) f := by
  obtain ⟨code, f, hcode, hfragment, hpushes⟩ := (lower_delivers maxLoweringDepth).1 _ _ _ h
  obtain rfl : program.instructions = code := hcode
  exact ⟨f, hfragment, hpushes⟩

/-- The execution of a fragment that is a whole program. -/
theorem execute_of_fragment {program : IrProgram}
    {f : List U128 → Except ExecutionError (List U128)}
    (h : Fragment resolver maxStack 0 program.instructions f) :
    program.execute resolver maxStack = f [] >>= fun stack =>
      match stack with
      | [value] => .ok value
      | _ => .error .invalidFinalStack := by
  have hblock := h.block [] [] rfl []
  rw [List.nil_append, List.append_nil, Nat.zero_add] at hblock
  rw [IrProgram.execute, hblock, bind_assoc]
  refine congrArg _ (funext fun stack => ?_)
  have hend : (machine resolver maxStack program).run program.instructions.length stack =
      .ok stack := ForwardMachine.run_of_le le_rfl stack
  rw [hend, ok_bind]
  rfl

/-- A lowered program has the value of its tree without the checks that the lowering lacks, on a
stack with a place for each instruction. -/
theorem execute_eq_ok {program : IrProgram} {value : U128}
    (h : lowerExpressionWithPointerBits capacity tree pointerBits = .ok program)
    (hvalue : tree.uncheckedNode resolver pointerBits maxLoweringDepth tree.root = .ok value)
    (hstack : program.instructions.length ≤ maxStack) :
    program.execute resolver maxStack = .ok value := by
  obtain ⟨f, hfragment, hpushes⟩ := lowered_fragment resolver maxStack h
  have hroom : ([] : List U128).length + program.instructions.length ≤ maxStack := by
    rwa [List.length_nil, Nat.zero_add]
  rw [execute_of_fragment hfragment, hpushes.value [value] ⟨value, hvalue, rfl⟩ [] hroom]
  rfl

/-- A lowered program returns no other value. -/
theorem uncheckedNode_of_execute {program : IrProgram} {value : U128}
    (h : lowerExpressionWithPointerBits capacity tree pointerBits = .ok program)
    (hvalue : program.execute resolver maxStack = .ok value) :
    tree.uncheckedNode resolver pointerBits maxLoweringDepth tree.root = .ok value := by
  obtain ⟨f, hfragment, hpushes⟩ := lowered_fragment resolver maxStack h
  rw [execute_of_fragment hfragment] at hvalue
  obtain ⟨stack, hstack, hvalue⟩ := bind_eq_ok.mp hvalue
  obtain ⟨values, ⟨value', hvalue', rfl⟩, rfl⟩ := hpushes.sound [] stack hstack
  rw [hvalue', Except.ok.inj hvalue]

/-- A lowered program fails with a harmless error only. -/
theorem execute_harmless {program : IrProgram} {error : ExecutionError}
    (h : lowerExpressionWithPointerBits capacity tree pointerBits = .ok program)
    (herror : program.execute resolver maxStack = .error error) : error.Harmless := by
  obtain ⟨f, hfragment, hpushes⟩ := lowered_fragment resolver maxStack h
  rw [execute_of_fragment hfragment] at herror
  obtain ⟨values, hvalues, hf⟩ | ⟨error', herror', hf⟩ := hpushes.leaves []
  · obtain ⟨value, rfl⟩ := List.length_eq_one_iff.mp hvalues
    rw [hf] at herror
    cases herror
  · rw [hf] at herror
    obtain rfl := Except.error.inj herror
    exact herror'

end

/-- **Main theorem.** For every tree that `lower_expression` accepts: if the tree has a value, the
program returns it on every stack that is large enough; every branch goes forward and stays
within the program; and no execution ends with `InvalidBranch`, `StackUnderflow` or
`InvalidFinalStack`. -/
theorem lowering_preserves_values (capacity : ℕ) (tree : ExpressionTree)
    (resolver : ConstantResolver) (program : IrProgram)
    (h : lowerExpression capacity tree = .ok program) :
    (∀ value, tree.evaluate resolver = .ok value →
      ∃ room, ∀ maxStack ≥ room, program.execute resolver maxStack = .ok value) ∧
    (∀ index instruction target, program.instructions[index]? = some (some instruction) →
      instruction.branchTarget = some target →
        index < target ∧ target ≤ program.instructions.length) ∧
    ∀ maxStack, program.execute resolver maxStack ≠ .error .invalidBranch ∧
      program.execute resolver maxStack ≠ .error .stackUnderflow ∧
      program.execute resolver maxStack ≠ .error .invalidFinalStack := by
  refine ⟨fun value hvalue => ?_, fun index instruction target hindex htarget => ?_,
    fun maxStack => ⟨?_, ?_, ?_⟩⟩
  · obtain ⟨_, _, hvalue⟩ := bind_eq_ok.mp hvalue
    have hunchecked := (ExpressionTree.evaluateNode_eq_ok_iff.mp hvalue).1
    exact ⟨program.instructions.length, fun maxStack hroom => execute_eq_ok h hunchecked hroom⟩
  · obtain ⟨f, hfragment, _⟩ := lowered_fragment resolver 0 h
    have := hfragment.forward index instruction target hindex htarget
    omega
  · exact fun herror => (execute_harmless h herror).2.1 rfl
  · exact fun herror => (execute_harmless h herror).1 rfl
  · exact fun herror => (execute_harmless h herror).2.2 rfl

/-- The tree of `if 1 && 2 { 3 * 4 } else { UNKNOWN }`. -/
def sampleTree : ExpressionTree where
  nodes := [.integer ⟨1, none⟩, .integer ⟨2, none⟩, .binary .logicalAnd ⟨0⟩ ⟨1⟩,
    .integer ⟨3, none⟩, .integer ⟨4, none⟩, .binary .multiply ⟨3⟩ ⟨4⟩, .identifier "UNKNOWN",
    .ifElse ⟨2⟩ ⟨5⟩ ⟨6⟩].map fun kind => some ⟨kind, ⟨0, 0⟩⟩
  rangeValidations := []
  root := ⟨7⟩

/-- The program of `sampleTree`. -/
def sampleProgram : IrProgram where
  instructions := [.pushInteger 1, .branchIfFalse 4, .pushInteger 2, .normalizeBool,
    .jumpIfFalse 9, .pushInteger 3, .pushInteger 4, .binary .multiply, .jump 10,
    .loadConstant "UNKNOWN"].map some

theorem lowering_preserves_values_sample :
    ∃ room, ∀ maxStack ≥ room, sampleProgram.execute noConstants maxStack = .ok 12 :=
  (lowering_preserves_values 16 sampleTree noConstants sampleProgram (by decide +kernel)).1 12
    (by decide +kernel)

end Mrml.Rustc
