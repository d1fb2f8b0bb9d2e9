import Mrml.Common.Checked

/-!
# Programs that ask their machine

A program asks its machine for what a machine can deny: memory, a place on the stack, a result
that fits into a register. `Asking` is a program as the tree of its requests. A machine answers
each request with a value, or stops the program there; an exact machine would answer all of them,
each with the value that the program means.

Results:
* `exists_refused_iff`: a machine without wrong answers stops a program exactly if it does not
  answer one of the requests that the program makes of an exact machine.
-/

namespace Mrml

variable {ε ρ ν α β σ : Type}

/-- A program that returns `Result<α, ε>` and makes requests of type `ρ`, answered in `ν`. -/
inductive Asking (ε ρ ν α : Type)
  | ret (a : α)
  | fail (e : ε)
  | ask (request : ρ) (next : ν → Asking ε ρ ν α)

/-- How a program ends that does not return a value. -/
inductive Stop (ε ρ : Type)
  | error (e : ε)
  | refused (request : ρ)
deriving DecidableEq

namespace Asking

/-- The steps of `x`, and then those of `f`. -/
protected def bind : Asking ε ρ ν α → (α → Asking ε ρ ν β) → Asking ε ρ ν β
  | ret a, f => f a
  | fail e, _ => fail e
  | ask request next, f => ask request fun answer => (next answer).bind f

instance : Monad (Asking ε ρ ν) where
  pure := ret
  bind := Asking.bind

/-- The program on a machine. -/
def run (answer : ρ → Option ν) : Asking ε ρ ν α → Except (Stop ε ρ) α
  | ret a => .ok a
  | fail e => .error (.error e)
  | ask request next =>
    match answer request with
    | some value => (next value).run answer
    | none => .error (.refused request)

/-- The requests of the program to an exact machine, as far as it comes. -/
def requests (exact : ρ → ν) : Asking ε ρ ν α → List ρ
  | ret _ => []
  | fail _ => []
  | ask request next => request :: (next (exact request)).requests exact

theorem run_bind (answer : ρ → Option ν) (x : Asking ε ρ ν α) (f : α → Asking ε ρ ν β) :
    (x >>= f).run answer = x.run answer >>= fun a => (f a).run answer := by
  show (x.bind f).run answer = _
  induction x with
  | ret a => rfl
  | fail e => rfl
  | ask request next ih =>
    rw [Asking.bind, run, run]
    cases answer request with
    | none => rfl
    | some value => exact ih value

/-- What the program returns on an exact machine. -/
def result (exact : ρ → ν) : Asking ε ρ ν α → Option α
  | ret a => some a
  | fail _ => none
  | ask request next => (next (exact request)).result exact

/-- Whatever holds of all requests of a composed program holds of those of its first part and,
    where that part returns, of those of the second. -/
theorem forall_requests_bind {exact : ρ → ν} {P : ρ → Prop} (x : Asking ε ρ ν α)
    (f : α → Asking ε ρ ν β) :
    (∀ request ∈ (x >>= f).requests exact, P request) ↔
      (∀ request ∈ x.requests exact, P request) ∧
        ∀ a, x.result exact = some a → ∀ request ∈ (f a).requests exact, P request := by
  show (∀ request ∈ (x.bind f).requests exact, P request) ↔ _
  induction x with
  | ret a => simp [Asking.bind, requests, result]
  | fail e => simp [Asking.bind, requests, result]
  | ask request next ih =>
    rw [Asking.bind, requests, requests, result, List.forall_mem_cons, List.forall_mem_cons,
      ih (exact request), and_assoc]

theorem result_bind {exact : ρ → ν} (x : Asking ε ρ ν α) (f : α → Asking ε ρ ν β) :
    (x >>= f).result exact = (x.result exact).bind fun a => (f a).result exact := by
  show (x.bind f).result exact = _
  induction x with
  | ret a => rfl
  | fail e => rfl
  | ask request next ih => exact ih (exact request)

section Machines

variable {exact : ρ → ν} {answer answer' : ρ → Option ν} {x : Asking ε ρ ν α}

/-- A machine that never answers wrongly stops the program exactly if it does not answer one of
    the requests. -/
theorem exists_refused_iff (h : ∀ request value, answer request = some value →
      value = exact request) :
    (∃ request, x.run answer = .error (.refused request)) ↔
      ∃ request ∈ x.requests exact, answer request = none := by
  induction x with
  | ret a => simp [run, requests]
  | fail e => simp [run, requests]
  | ask request next ih =>
    rw [run, requests]
    cases hanswer : answer request with
    | none => exact iff_of_true ⟨request, rfl⟩ ⟨request, List.mem_cons_self, hanswer⟩
    | some value =>
      obtain rfl := h request value hanswer
      rw [List.exists_mem_cons_iff, ← ih (exact request), hanswer]
      simp

/-- Machines that answer the requests of the program alike run it alike. -/
theorem run_congr (hanswer : ∀ request ∈ x.requests exact, answer request = some (exact request))
    (hanswer' : ∀ request ∈ x.requests exact, answer' request = some (exact request)) :
    x.run answer = x.run answer' := by
  induction x with
  | ret a => rfl
  | fail e => rfl
  | ask request next ih =>
    rw [run, run, hanswer request List.mem_cons_self, hanswer' request List.mem_cons_self]
    exact ih (exact request) (fun r hr => hanswer r (List.mem_cons_of_mem _ hr))
      fun r hr => hanswer' r (List.mem_cons_of_mem _ hr)

end Machines

/-! ## Programs on a state -/

/-- A request. -/
def demand (request : ρ) : StateT σ (Asking ε ρ ν) ν :=
  fun s => ask request fun value => ret (value, s)

/-- `return Err(e)`. -/
def refuse (e : ε) : StateT σ (Asking ε ρ ν) α := fun _ => fail e

/-- `if refused { return Err(e) }`. -/
def refuseWhen (refused : Prop) [Decidable refused] (e : ε) : StateT σ (Asking ε ρ ν) Unit :=
  if refused then refuse e else pure ()

/-- A loop of `n` passes. -/
def iterate (step : α → StateT σ (Asking ε ρ ν) α) : ℕ → α → StateT σ (Asking ε ρ ν) α
  | 0, a => pure a
  | n + 1, a => do
    let a ← step a
    iterate step n a

/-- From a state with `I`, what the program returns on the machine has `Q`, and the state that it
    leaves has `I`. -/
def Yields (answer : ρ → Option ν) (I : σ → Prop) (m : StateT σ (Asking ε ρ ν) α)
    (Q : α → Prop) : Prop :=
  ∀ s, I s → ∀ a s', (m s).run answer = .ok (a, s') → Q a ∧ I s'

variable {answer : ρ → Option ν} {I : σ → Prop} {Q R : α → Prop}

theorem run_bind_eq_ok {m : StateT σ (Asking ε ρ ν) α} {f : α → StateT σ (Asking ε ρ ν) β}
    {s s' : σ} {b : β} : ((m >>= f) s).run answer = .ok (b, s') ↔
      ∃ a s₁, (m s).run answer = .ok (a, s₁) ∧ (f a s₁).run answer = .ok (b, s') := by
  have hbind : (m >>= f) s = m s >>= fun result => f result.1 result.2 := rfl
  rw [hbind, run_bind, bind_eq_ok, Prod.exists]

theorem Yields.pure {a : α} (h : Q a) :
    Yields answer I (Pure.pure a : StateT σ (Asking ε ρ ν) α) Q := by
  intro s hs b s' hrun
  obtain ⟨rfl, rfl⟩ := Prod.mk.inj (Except.ok.inj hrun)
  exact ⟨h, hs⟩

theorem Yields.refuse (e : ε) : Yields answer I (refuse e : StateT σ (Asking ε ρ ν) α) Q := by
  intro s _ a s' hrun
  cases hrun

theorem Yields.bind {m : StateT σ (Asking ε ρ ν) α} {f : α → StateT σ (Asking ε ρ ν) β}
    {S : β → Prop} (hm : Yields answer I m Q) (hf : ∀ a, Q a → Yields answer I (f a) S) :
    Yields answer I (m >>= f) S := by
  intro s hs b s' hrun
  obtain ⟨a, s₁, hfirst, hrest⟩ := run_bind_eq_ok.mp hrun
  obtain ⟨ha, hs₁⟩ := hm s hs a s₁ hfirst
  exact hf a ha s₁ hs₁ b s' hrest

theorem Yields.imp {m : StateT σ (Asking ε ρ ν) α} (h : Yields answer I m Q)
    (himp : ∀ a, Q a → R a) : Yields answer I m R :=
  fun s hs a s' hrun => ⟨himp a (h s hs a s' hrun).1, (h s hs a s' hrun).2⟩

theorem Yields.demand {request : ρ} {Q : ν → Prop}
    (h : ∀ value, answer request = some value → Q value) :
    Yields answer I (demand request : StateT σ (Asking ε ρ ν) ν) Q := by
  intro s hs value s' hrun
  rw [Asking.demand, run] at hrun
  cases hanswer : answer request with
  | none =>
    rw [hanswer] at hrun
    cases hrun
  | some answered =>
    rw [hanswer] at hrun
    obtain ⟨rfl, rfl⟩ := Prod.mk.inj (Except.ok.inj hrun)
    exact ⟨h _ hanswer, hs⟩

theorem Yields.refuseWhen (refused : Prop) [Decidable refused] (e : ε) :
    Yields answer I (refuseWhen refused e : StateT σ (Asking ε ρ ν) Unit) fun _ => ¬refused := by
  unfold Asking.refuseWhen
  split_ifs with hrefused
  · exact Yields.refuse e
  · exact Yields.pure hrefused

/-- **Run lemma.** What each pass keeps is kept by the loop. -/
theorem Yields.iterate {step : α → StateT σ (Asking ε ρ ν) α}
    (hstep : ∀ a, Q a → Yields answer I (step a) Q) (n : ℕ) {a : α} (ha : Q a) :
    Yields answer I (iterate step n a) Q := by
  induction n generalizing a with
  | zero => exact Yields.pure ha
  | succ n ih => exact (hstep a ha).bind fun b hb => ih hb

end Asking

end Mrml
