import Mathlib

/-!
# Functions that edit a state and may fail

A Rust method on `&mut self` that returns a `Result` is a function from the state to
the result and the state it leaves; `?` is `bind`, and a failure keeps every write
made before it. `Spec` gives such a function a postcondition for success and one for
failure.
-/

namespace Mrml

variable {ε σ α β ι : Type}

/-- A computation on a state `σ` that returns `α` or fails with `ε`. -/
def Edit (ε σ α : Type) : Type := σ → Except ε α × σ

namespace Edit

instance : Monad (Edit ε σ) where
  pure a := fun s => (.ok a, s)
  bind x f := fun s =>
    match x s with
    | (.ok a, s) => f a s
    | (.error e, s) => (.error e, s)

/-- `return Err(error)`. -/
def fail (error : ε) : Edit ε σ α := fun s => (.error error, s)

/-- A result that does not touch the state. -/
def ofExcept (result : Except ε α) : Edit ε σ α := fun s => (result, s)

/-- A method on `&self`. -/
def inspect (read : σ → Except ε α) : Edit ε σ α := fun s => (read s, s)

/-- `for item in items { body(item)?; }`. -/
def forEach : List ι → (ι → Edit ε σ Unit) → Edit ε σ Unit
  | [], _ => pure ()
  | item :: items, body => do
    body item
    forEach items body

theorem forEach_map {κ : Type} (f : κ → ι) (items : List κ) (body : ι → Edit ε σ Unit) :
    forEach (items.map f) body = forEach items fun item => body (f item) := by
  induction items with
  | nil => rfl
  | cons item items ih =>
    rw [List.map_cons, forEach, forEach, ih]

/-- From `s`, success ends in `ok` and failure in `err`. -/
def Spec (s : σ) (x : Edit ε σ α) (ok : α → σ → Prop) (err : ε → σ → Prop) : Prop :=
  match x s with
  | (.ok a, s') => ok a s'
  | (.error e, s') => err e s'

variable {s : σ} {x : Edit ε σ α} {ok ok' : α → σ → Prop} {err err' : ε → σ → Prop}

theorem spec_intro (hok : ∀ a s', x s = (.ok a, s') → ok a s')
    (herr : ∀ e s', x s = (.error e, s') → err e s') : Spec s x ok err := by
  unfold Spec
  split
  · next heq => exact hok _ _ heq
  · next heq => exact herr _ _ heq

theorem spec_pure {a : α} (h : ok a s) : Spec (ε := ε) s (pure a) ok err := h

theorem spec_fail {error : ε} (h : err error s) : Spec s (fail error) ok err := h

theorem spec_ofExcept {result : Except ε α} (hok : ∀ a, result = .ok a → ok a s)
    (herr : ∀ e, result = .error e → err e s) : Spec s (ofExcept result) ok err := by
  cases result with
  | ok a => exact hok a rfl
  | error e => exact herr e rfl

theorem spec_inspect {read : σ → Except ε α} (hok : ∀ a, read s = .ok a → ok a s)
    (herr : ∀ e, read s = .error e → err e s) : Spec s (inspect read) ok err :=
  spec_ofExcept hok herr

/-- A specification read back from the result. -/
theorem Spec.of_ok (h : Spec s x ok err) {a : α} {s' : σ} (hx : x s = (.ok a, s')) : ok a s' := by
  unfold Spec at h
  rwa [hx] at h

theorem Spec.of_error (h : Spec s x ok err) {e : ε} {s' : σ} (hx : x s = (.error e, s')) :
    err e s' := by
  unfold Spec at h
  rwa [hx] at h

theorem Spec.mono (h : Spec s x ok err) (hok : ∀ a s', ok a s' → ok' a s')
    (herr : ∀ e s', err e s' → err' e s') : Spec s x ok' err' :=
  spec_intro (fun a s' hx => hok a s' (h.of_ok hx)) fun e s' hx => herr e s' (h.of_error hx)

theorem bind_eq (x : Edit ε σ α) (f : α → Edit ε σ β) (s : σ) :
    (x >>= f) s =
      match x s with
      | (.ok a, s) => f a s
      | (.error e, s) => (.error e, s) := rfl

/-- The rule for `?`. -/
theorem Spec.bind {f : α → Edit ε σ β} {okβ : β → σ → Prop} (hx : Spec s x ok err)
    (hf : ∀ a s', ok a s' → Spec s' (f a) okβ err) : Spec s (x >>= f) okβ err := by
  unfold Spec at hx ⊢
  rw [bind_eq]
  cases h : x s with
  | mk result s' =>
    rw [h] at hx
    cases result with
    | ok a => exact hf a s' hx
    | error e => exact hx

/-- The rule for loops. `I` is the invariant in terms of the items that are left. -/
theorem spec_forEach {items : List ι} {body : ι → Edit ε σ Unit} {I : List ι → σ → Prop}
    {err : ε → σ → Prop} (hstart : I items s)
    (hbody : ∀ item rest s', I (item :: rest) s' →
      Spec s' (body item) (fun _ s'' => I rest s'') err) :
    Spec s (forEach items body) (fun _ s' => I [] s') err := by
  induction items generalizing s with
  | nil => exact hstart
  | cons item items ih => exact (hbody item items s hstart).bind fun _ s' h => ih h

/-- The rule for loops that only check. -/
theorem spec_forEach_check {items : List ι} {body : ι → Edit ε σ Unit} {Q : ι → Prop}
    (hbody : ∀ item ∈ items,
      Spec s (body item) (fun _ s' => s' = s ∧ Q item) (fun _ s' => s' = s)) :
    Spec s (forEach items body) (fun _ s' => s' = s ∧ ∀ item ∈ items, Q item)
      (fun _ s' => s' = s) := by
  induction items with
  | nil => exact ⟨rfl, fun _ hmem => absurd hmem (List.not_mem_nil)⟩
  | cons item items ih =>
    refine (hbody item List.mem_cons_self).bind ?_
    rintro _ _ ⟨rfl, hitem⟩
    refine (ih fun item' hmem => hbody item' (List.mem_cons_of_mem _ hmem)).mono ?_
      fun _ _ herr => herr
    rintro _ s' ⟨hs', hitems⟩
    exact ⟨hs', List.forall_mem_cons.mpr ⟨hitem, hitems⟩⟩

end Edit

/-! ## Functions updated in a loop -/

section UpdateAll

variable {κ : Type} [DecidableEq κ] (f : κ → α) (key : ι → κ) (value : ι → α)

/-- `f` with the cell of each item set in turn. -/
def updateAll (items : List ι) : κ → α :=
  items.foldl (fun f item => Function.update f (key item) (value item)) f

@[simp] theorem updateAll_nil : updateAll f key value [] = f := rfl

@[simp] theorem updateAll_cons (item : ι) (items : List ι) : updateAll f key value (item :: items) =
    updateAll (Function.update f (key item) (value item)) key value items := rfl

/-- A cell holds its old value or that of an item. -/
theorem updateAll_cases (items : List ι) (k : κ) :
    updateAll f key value items k = f k ∨
      ∃ item ∈ items, key item = k ∧ updateAll f key value items k = value item := by
  induction items generalizing f with
  | nil => exact .inl rfl
  | cons item items ih =>
    rw [updateAll_cons]
    rcases ih (Function.update f (key item) (value item)) with h | ⟨item', hmem, hkey, h⟩
    · by_cases hk : k = key item
      · exact .inr ⟨item, List.mem_cons_self, hk.symm, by rw [h, hk, Function.update_self]⟩
      · exact .inl (by rw [h, Function.update_of_ne hk])
    · exact .inr ⟨item', List.mem_cons_of_mem _ hmem, hkey, h⟩

/-- Updates through an injective renaming of the cells. -/
theorem updateAll_comp {κ' : Type} [DecidableEq κ'] {g : κ' → κ} (hg : Function.Injective g)
    (key : ι → κ') (items : List ι) :
    (fun k => updateAll f (fun item => g (key item)) value items (g k)) =
      updateAll (fun k => f (g k)) key value items := by
  induction items generalizing f with
  | nil => rfl
  | cons item items ih =>
    rw [updateAll_cons, updateAll_cons, ih]
    congr 1
    funext k
    by_cases hk : k = key item
    · rw [hk, Function.update_self, Function.update_self]
    · rw [Function.update_of_ne hk, Function.update_of_ne (fun h => hk (hg h))]

end UpdateAll

end Mrml
