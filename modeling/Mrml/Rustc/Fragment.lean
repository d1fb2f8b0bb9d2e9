import Mrml.Rustc.Ir

/-!
# Fragments of intermediate code

The code that an expression is lowered to, apart from the program around it
(`crates/mrml-rustc/src/ir.rs`): a fragment is described by what it does to the stack
(`Fragment`). Fragments follow each other (`Fragment.append`), are branched over
(`Fragment.skip`) or are the two arms of a conditional (`Fragment.conditional`), as the lowering
puts them together.
-/

namespace Mrml.Rustc

theorem push_of_lt {maxStack : ℕ} {value : U128} {stack : List U128}
    (h : stack.length < maxStack) : push maxStack value stack = .ok (value :: stack) := if_pos h

theorem popArguments_append (values stack : List U128) :
    popArguments values.length (values ++ stack) = .ok (values.reverse, stack) := by
  induction values with
  | nil => rfl
  | cons value values ih =>
    rw [List.length_cons, List.cons_append, popArguments, pop, ok_bind]
    dsimp only
    rw [ih, ok_bind, List.reverse_cons]
    rfl

theorem validateBranch_eq_ok {current target length : ℕ} (hforward : current < target)
    (hwithin : target ≤ length) : validateBranch current target length = .ok () :=
  refuseIf_of_not (by omega)

section

variable (resolver : ConstantResolver) (maxStack : ℕ)

/-- What `JumpIfFalse` looks at: whether the jump is taken. -/
def chooseFalse (stack : List U128) : Except ExecutionError (Bool × List U128) := do
  let (value, stack) ← pop stack
  return (decide (value = 0), stack)

/-- What `BranchIfFalse` and `BranchIfTrue` look at: a branch that is taken leaves `value`. -/
def chooseShort (taken : U128 → Bool) (value : U128) (stack : List U128) :
    Except ExecutionError (Bool × List U128) := do
  let (condition, stack) ← pop stack
  if taken condition then return (true, ← push maxStack value stack) else return (false, stack)

/-! ## Fragments of a program -/

/-- The code at `start` does `f` to the stack in every program around it, and its branches go
forward and stay within it. -/
structure Fragment (start : ℕ) (code : List (Option Instruction))
    (f : List U128 → Except ExecutionError (List U128)) : Prop where
  block : ∀ before after : List (Option Instruction), before.length = start →
    (machine resolver maxStack ⟨before ++ code ++ after⟩).Block start (start + code.length) f
  forward : ∀ i instruction target, code[i]? = some (some instruction) →
    instruction.branchTarget = some target → start + i < target ∧ target ≤ start + code.length

variable {resolver maxStack}

theorem machine_step {instructions before after : List (Option Instruction)}
    {instruction : Instruction} (h : instructions = before ++ some instruction :: after)
    (stack : List U128) :
    (machine resolver maxStack ⟨instructions⟩).step before.length stack =
      perform resolver maxStack instructions.length before.length stack instruction := by
  subst h
  show (okOr (before ++ some instruction :: after)[before.length]?.join _ >>= _) = _
  rw [List.getElem?_append_right le_rfl, Nat.sub_self]
  rfl

theorem perform_jumpIfFalse {length pc target : ℕ} (hforward : pc < target)
    (hwithin : target ≤ length) (stack : List U128) :
    perform resolver maxStack length pc stack (.jumpIfFalse target) =
      (chooseFalse stack).map fun r => (if r.1 then target else pc + 1, r.2) := by
  cases stack with
  | nil => rfl
  | cons value stack =>
    by_cases hvalue : value = 0
    · subst hvalue
      show (validateBranch pc target length >>= _) = _
      rw [validateBranch_eq_ok hforward hwithin]
      rfl
    · have hchoose : chooseFalse (value :: stack) = .ok (false, stack) := by
        show Except.ok (decide (value = 0), stack) = _
        rw [decide_eq_false hvalue]
      rw [hchoose]
      exact if_neg hvalue

theorem perform_jump {length pc target : ℕ} (hforward : pc < target) (hwithin : target ≤ length)
    (stack : List U128) :
    perform resolver maxStack length pc stack (.jump target) = .ok (target, stack) := by
  rw [perform, validateBranch_eq_ok hforward hwithin]
  rfl

theorem perform_branchIfFalse {length pc target : ℕ} (hforward : pc < target)
    (hwithin : target ≤ length) (stack : List U128) :
    perform resolver maxStack length pc stack (.branchIfFalse target) =
      (chooseShort maxStack (· == 0) 0 stack).map
        fun r => (if r.1 then target else pc + 1, r.2) := by
  cases stack with
  | nil => rfl
  | cons value stack =>
    rw [chooseShort, perform, validateBranch_eq_ok hforward hwithin]
    simp only [pop, ok_bind, beq_iff_eq]
    split_ifs
    · cases push maxStack 0 stack <;> rfl
    · rfl

theorem perform_branchIfTrue {length pc target : ℕ} (hforward : pc < target)
    (hwithin : target ≤ length) (stack : List U128) :
    perform resolver maxStack length pc stack (.branchIfTrue target) =
      (chooseShort maxStack (· != 0) 1 stack).map
        fun r => (if r.1 then target else pc + 1, r.2) := by
  cases stack with
  | nil => rfl
  | cons value stack =>
    rw [chooseShort, perform, validateBranch_eq_ok hforward hwithin]
    simp only [pop, ok_bind, bne_iff_ne]
    split_ifs
    · cases push maxStack 1 stack <;> rfl
    · rfl

namespace Fragment

variable {start : ℕ} {code code' : List (Option Instruction)}
  {f g : List U128 → Except ExecutionError (List U128)}

theorem nil : Fragment resolver maxStack start [] .ok where
  block _ _ _ := .refl
  forward _ _ _ h := by cases h

/-- One instruction that is no branch. -/
theorem instruction {instruction : Instruction} (hbranch : instruction.branchTarget = none)
    (h : ∀ length pc stack, perform resolver maxStack length pc stack instruction =
      (f stack).map fun stack => (pc + 1, stack)) :
    Fragment resolver maxStack start [some instruction] f where
  block before after hbefore := by
    subst hbefore
    have hlt : before.length < (before ++ [some instruction] ++ after).length := by simp
    exact .step hlt fun stack => by rw [machine_step (List.append_assoc _ _ _), h]
  forward i other target hi htarget := by
    cases i with
    | zero =>
      obtain rfl := Option.some.inj (Option.some.inj hi)
      cases hbranch.symm.trans htarget
    | succ i => cases hi

theorem append (hf : Fragment resolver maxStack start code f)
    (hg : Fragment resolver maxStack (start + code.length) code' g) :
    Fragment resolver maxStack start (code ++ code') fun stack => f stack >>= g where
  block before after hbefore := by
    have hfirst := hf.block before (code' ++ after) hbefore
    have hsecond := hg.block (before ++ code) after (by rw [List.length_append, hbefore])
    simp only [List.append_assoc, List.length_append, ← Nat.add_assoc] at hfirst hsecond ⊢
    exact hfirst.trans hsecond
  forward i instruction target hi htarget := by
    rw [List.length_append]
    by_cases hlt : i < code.length
    · rw [List.getElem?_append_left hlt] at hi
      have := hf.forward i instruction target hi htarget
      omega
    · rw [List.getElem?_append_right (Nat.le_of_not_lt hlt)] at hi
      have := hg.forward _ instruction target hi htarget
      omega

/-- A branch over the code behind it. -/
theorem skip {instruction : Instruction}
    {choose : List U128 → Except ExecutionError (Bool × List U128)}
    (htarget : instruction.branchTarget = some (start + 1 + code.length))
    (h : ∀ length stack, start + 1 + code.length ≤ length →
      perform resolver maxStack length start stack instruction =
        (choose stack).map fun r => (if r.1 then start + 1 + code.length else start + 1, r.2))
    (hf : Fragment resolver maxStack (start + 1) code f) :
    Fragment resolver maxStack start (some instruction :: code) fun stack =>
      choose stack >>= fun r => if r.1 then .ok r.2 else f r.2 where
  block before after hbefore := by
    subst hbefore
    have hlength : (before ++ some instruction :: code ++ after).length =
        before.length + 1 + code.length + after.length := by simp; omega
    have hnext := hf.block (before ++ [some instruction]) after (by simp)
    rw [List.append_assoc before, List.singleton_append] at hnext
    rw [List.length_cons, ← Nat.add_assoc, Nat.add_right_comm]
    have hlt : before.length < (before ++ some instruction :: code ++ after).length := by omega
    refine .branch hlt (fun stack => ?_) .refl hnext
    rw [machine_step (List.append_assoc _ _ _), h _ _ (by omega)]
  forward i other target hi hother := by
    cases i with
    | zero =>
      obtain rfl := Option.some.inj (Option.some.inj hi)
      obtain rfl := Option.some.inj (htarget.symm.trans hother)
      rw [List.length_cons]
      omega
    | succ i =>
      have := hf.forward i other target hi hother
      rw [List.length_cons]
      omega

/-- The two arms of a conditional: the value on top of the stack chooses, and the first arm ends
with a jump over the second one. -/
theorem conditional (hf : Fragment resolver maxStack (start + 1) code f)
    (hg : Fragment resolver maxStack (start + 1 + code.length + 1) code' g) :
    Fragment resolver maxStack start
      (some (.jumpIfFalse (start + 1 + code.length + 1)) ::
        (code ++ some (.jump (start + 1 + code.length + 1 + code'.length)) :: code'))
      fun stack => chooseFalse stack >>= fun r => if r.1 then g r.2 else f r.2 where
  block before after hbefore := by
    subst hbefore
    generalize hfirst : Instruction.jumpIfFalse (before.length + 1 + code.length + 1) = first
    generalize hlast :
      Instruction.jump (before.length + 1 + code.length + 1 + code'.length) = last
    generalize hprogram :
      before ++ (some first :: (code ++ some last :: code')) ++ after = program
    have hlength : program.length =
        before.length + 1 + code.length + 1 + code'.length + after.length := by
      simp only [← hprogram, List.length_append, List.length_cons]
      omega
    have hstop : before.length + (some first :: (code ++ some last :: code')).length =
        before.length + 1 + code.length + 1 + code'.length := by
      simp only [List.length_append, List.length_cons]
      omega
    -- the program once around the first arm and once around the second one
    have hthen := hf.block (before ++ [some first]) (some last :: code' ++ after) (by simp)
    have helse := hg.block (before ++ some first :: code ++ [some last]) after
      (by simp only [List.length_append, List.length_cons, List.length_nil]; omega)
    rw [show before ++ [some first] ++ code ++ (some last :: code' ++ after) = program by
      simp [← hprogram]] at hthen
    rw [show before ++ some first :: code ++ [some last] ++ code' ++ after = program by
      simp [← hprogram]] at helse
    have hjump : (machine resolver maxStack ⟨program⟩).Block (before.length + 1 + code.length)
        (before.length + 1 + code.length + 1 + code'.length) .ok := by
      have hlt : before.length + 1 + code.length < program.length := by omega
      have hat : before.length + 1 + code.length = (before ++ some first :: code).length := by
        simp only [List.length_append, List.length_cons]
        omega
      refine .jump hlt fun stack => ?_
      rw [hat, machine_step (show program = (before ++ some first :: code) ++ some last ::
        (code' ++ after) by simp [← hprogram]), ← hat, ← hlast,
        perform_jump (by omega) (by omega)]
    have hthen' := hthen.trans hjump
    rw [show (fun stack => f stack >>= Except.ok) = f from funext fun stack => by
      cases f stack <;> rfl] at hthen'
    rw [hstop]
    have hlt : before.length < program.length := by omega
    refine .branch hlt (fun stack => ?_) helse hthen'
    rw [machine_step (show program = before ++ some first ::
      (code ++ some last :: code' ++ after) by simp [← hprogram]), ← hfirst,
      perform_jumpIfFalse (by omega) (by omega)]
  forward i other target hi hother := by
    rw [List.length_cons, List.length_append, List.length_cons]
    rcases i with _ | i
    · obtain rfl := Option.some.inj (Option.some.inj hi)
      obtain rfl := Option.some.inj hother
      omega
    · rw [List.getElem?_cons_succ] at hi
      by_cases hlt : i < code.length
      · rw [List.getElem?_append_left hlt] at hi
        have := hf.forward i other target hi hother
        omega
      · rw [List.getElem?_append_right (Nat.le_of_not_lt hlt)] at hi
        obtain ⟨k, hk⟩ : ∃ k, i = code.length + k := ⟨i - code.length, by omega⟩
        rw [hk, Nat.add_sub_cancel_left] at hi
        rcases k with _ | k
        · obtain rfl := Option.some.inj (Option.some.inj hi)
          obtain rfl := Option.some.inj hother
          omega
        · have := hg.forward k other target hi hother
          omega

end Fragment

end

end Mrml.Rustc
