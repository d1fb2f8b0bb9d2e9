import Mrml.Common.Bytes
import Mrml.Common.Checked

/-!
# Computations on a buffer that may trap

`Proc ε σ α` is a Rust function that works on a state `σ` behind `&mut` and returns
`Result<α, ε>`. Besides returning an error it can panic, as `&bytes[a..b]` does when the
range is not inside the slice, and the model of a loop can run out of fuel. A failing
computation keeps the state that it left.

Results:
* `Safe.bind`, `safe_forM` and the rules for each primitive: `Safe I m Q` is proved along the
  structure of `m`.
-/

namespace Mrml

/-- How a computation ends that does not return a value. -/
inductive Fault (ε : Type)
  | error (e : ε)
  | panic
  | unfinished
deriving DecidableEq

/-- A plain operator on `u64`: a result of more bits is a panic, or is wrapped around. -/
def Build.word {ε : Type} (build : Build) (n : ℕ) : Except (Fault ε) ℕ :=
  if n < 2 ^ 64 then .ok n
  else match build with
    | .debug => .error .panic
    | .release => .ok (n % 2 ^ 64)

theorem Build.word_of_lt {ε : Type} (build : Build) {n : ℕ} (h : n < 2 ^ 64) :
    (build.word n : Except (Fault ε) ℕ) = .ok n := if_pos h

theorem Build.word_debug {ε : Type} {n : ℕ} (h : ¬ n < 2 ^ 64) :
    (Build.debug.word n : Except (Fault ε) ℕ) = .error .panic := if_neg h

theorem Build.word_release {ε : Type} (n : ℕ) :
    (Build.release.word n : Except (Fault ε) ℕ) = .ok (n % 2 ^ 64) := by
  unfold Build.word
  split_ifs with h
  · rw [Nat.mod_eq_of_lt h]
  · rfl

/-- A computation on a state `σ`. -/
def Proc (ε σ α : Type) : Type := σ → Except (Fault ε) α × σ

namespace Proc

variable {ε σ α β ι : Type}

instance : Monad (Proc ε σ) where
  pure a := fun s => (.ok a, s)
  bind m f := fun s =>
    match m s with
    | (.ok a, s') => f a s'
    | (.error fault, s') => (.error fault, s')

/-- `return Err(e)`. -/
def fail (e : ε) : Proc ε σ α := fun s => (.error (.error e), s)

/-- A computation that does not touch the state, followed by `?`. -/
def ofExcept (x : Except ε α) : Proc ε σ α := fun s => (x.mapError Fault.error, s)

/-- A loop that has no steps left. -/
def outOfFuel : Proc ε σ α := fun s => (.error .unfinished, s)

/-- `&bytes[start..stop]`, of a slice that is not the state. -/
def index (bytes : List UInt8) (start stop : ℕ) : Proc ε σ (List UInt8) := fun s =>
  if start ≤ stop ∧ stop ≤ bytes.length then (.ok (slice bytes start (stop - start)), s)
  else (.error .panic, s)

/-- `&buffer[start..stop]`. -/
def load (start stop : ℕ) : Proc ε (List UInt8) (List UInt8) := fun s =>
  index s start stop s

/-- `buffer[start..stop].copy_from_slice(source)`, which also panics if the lengths differ. -/
def store (start stop : ℕ) (source : List UInt8) : Proc ε (List UInt8) Unit := fun s =>
  if start ≤ stop ∧ stop ≤ s.length ∧ source.length = stop - start then
    (.ok (), patch s start source)
  else (.error .panic, s)

/-- `buffer.get_mut(start..stop).ok_or(e)?.copy_from_slice(source)`. -/
def storeOr (start stop : ℕ) (source : List UInt8) (e : ε) : Proc ε (List UInt8) Unit := fun s =>
  if start ≤ stop ∧ stop ≤ s.length then store start stop source s else fail e s

/-- `buffer.fill(0)`. -/
def fillZero : Proc ε (List UInt8) Unit := fun s => (.ok (), List.replicate s.length 0)

/-- `buffer.len()`. -/
def length : Proc ε (List UInt8) ℕ := fun s => (.ok s.length, s)

/-- `for item in items`. -/
def forEach (f : ι → Proc ε σ Unit) : List ι → Proc ε σ Unit
  | [] => pure ()
  | item :: items => do
    f item
    forEach f items

/-! ## Safe computations -/

/-- A result that is a value with `Q` or a returned error. -/
def Returns (Q : α → Prop) : Except (Fault ε) α → Prop
  | .ok a => Q a
  | .error (.error _) => True
  | .error .panic => False
  | .error .unfinished => False

/-- From a state with `I`, `m` comes to its end without a panic, in a state with `I`; a value
    that it returns has `Q`. -/
def Safe (I : σ → Prop) (m : Proc ε σ α) (Q : α → Prop) : Prop :=
  ∀ s, I s → Returns Q (m s).1 ∧ I (m s).2

variable {I : σ → Prop} {m : Proc ε σ α} {Q R : α → Prop}

theorem Returns.imp {result : Except (Fault ε) α} (h : Returns Q result) (hQ : ∀ a, Q a → R a) :
    Returns R result := by
  match result, h with
  | .ok a, h => exact hQ a h
  | .error (.error _), h => exact h

theorem Returns.ne_panic {result : Except (Fault ε) α} (h : Returns Q result) :
    result ≠ .error .panic := by
  rintro rfl
  exact h

theorem Returns.ne_unfinished {result : Except (Fault ε) α} (h : Returns Q result) :
    result ≠ .error .unfinished := by
  rintro rfl
  exact h

theorem Safe.imp (h : Safe I m Q) (hQ : ∀ a, Q a → R a) : Safe I m R :=
  fun s hs => ⟨(h s hs).1.imp hQ, (h s hs).2⟩

theorem safe_pure {a : α} (h : Q a) : Safe I (pure a : Proc ε σ α) Q := fun _ hs => ⟨h, hs⟩

theorem bind_ok {f : α → Proc ε σ β} {s s' : σ} {a : α} (h : m s = (.ok a, s')) :
    (m >>= f) s = f a s' := by
  show (match m s with
    | (.ok a, s') => f a s'
    | (.error fault, s') => (.error fault, s')) = _
  rw [h]

theorem bind_error {f : α → Proc ε σ β} {s s' : σ} {fault : Fault ε}
    (h : m s = (.error fault, s')) : (m >>= f) s = (.error fault, s') := by
  show (match m s with
    | (.ok a, s') => f a s'
    | (.error fault, s') => (.error fault, s')) = _
  rw [h]

theorem bind_assoc {γ : Type} (m : Proc ε σ α) (f : α → Proc ε σ β) (g : β → Proc ε σ γ) :
    (m >>= f >>= g) = m >>= fun a => f a >>= g := by
  funext s
  match h : m s with
  | (.ok a, s') =>
    rw [bind_ok h]
    match h' : f a s' with
    | (.ok b, s'') => rw [bind_ok h', bind_ok ((bind_ok h).trans h')]
    | (.error fault, s'') => rw [bind_error h', bind_error ((bind_ok h).trans h')]
  | (.error fault, s') => rw [bind_error h, bind_error (bind_error h)]

theorem pure_bind (a : α) (f : α → Proc ε σ β) : (pure a >>= f) = f a := rfl

theorem ofExcept_ok_bind (a : α) (f : α → Proc ε σ β) : (ofExcept (.ok a) >>= f) = f a := rfl

/-- A check that a run has passed. -/
theorem of_ofExcept_bind {x : Except ε α} {f : α → Proc ε σ β} {s s' : σ} {b : β}
    (h : (ofExcept x >>= f) s = (.ok b, s')) : ∃ a, x = .ok a ∧ f a s = (.ok b, s') := by
  cases x with
  | error e => exact nomatch congrArg Prod.fst h
  | ok a => exact ⟨a, rfl, h⟩

theorem index_eq {bytes : List UInt8} {start stop : ℕ} (h : start ≤ stop)
    (hstop : stop ≤ bytes.length) :
    (index bytes start stop : Proc ε σ _) = pure (slice bytes start (stop - start)) := by
  funext s
  exact if_pos ⟨h, hstop⟩

theorem forEach_append (f : ι → Proc ε σ Unit) (a b : List ι) :
    forEach f (a ++ b) = (forEach f a >>= fun _ => forEach f b) := by
  induction a with
  | nil => rfl
  | cons item items ih => rw [List.cons_append, forEach, forEach, ih, bind_assoc]

/-- A loop goes past the items on which it does nothing. -/
theorem forEach_filter (f : ι → Proc ε σ Unit) (p : ι → Bool) (items : List ι)
    (h : ∀ item ∈ items, p item = false → f item = pure ()) :
    forEach f items = forEach f (items.filter p) := by
  induction items with
  | nil => rfl
  | cons item items ih =>
    obtain ⟨hitem, hitems⟩ := List.forall_mem_cons.mp h
    rw [forEach, ih hitems]
    cases hp : p item with
    | true => rw [List.filter_cons_of_pos hp, forEach]
    | false =>
      rw [List.filter_cons_of_neg (by simp [hp]), hitem hp]
      rfl

/-- The rule for `m` followed by `f`. -/
theorem Safe.bind {S : β → Prop} {f : α → Proc ε σ β} (hm : Safe I m Q)
    (hf : ∀ a, Q a → Safe I (f a) S) : Safe I (m >>= f) S := by
  intro s hs
  have hreturns := hm s hs
  match h : m s with
  | (.ok a, s') =>
    rw [h] at hreturns
    rw [bind_ok h]
    exact hf a hreturns.1 s' hreturns.2
  | (.error fault, s') =>
    rw [h] at hreturns
    rw [bind_error h]
    cases fault with
    | error e => exact ⟨trivial, hreturns.2⟩
    | panic => exact hreturns.1.elim
    | unfinished => exact hreturns.1.elim

theorem safe_ofExcept {x : Except ε α} (h : ∀ a, x = .ok a → Q a) :
    Safe I (ofExcept x) Q := by
  intro s hs
  cases x with
  | ok a => exact ⟨h a rfl, hs⟩
  | error e => exact ⟨trivial, hs⟩

/-- A check that returns early. -/
theorem safe_refuseIf {refused : Prop} [Decidable refused] {e : ε} :
    Safe I (ofExcept (refuseIf refused e)) fun _ => ¬ refused :=
  safe_ofExcept fun _ h => refuseIf_eq_ok.mp h

theorem safe_index {bytes : List UInt8} {start stop : ℕ} (h : start ≤ stop)
    (hstop : stop ≤ bytes.length) :
    Safe I (index bytes start stop : Proc ε σ _) fun r => r = slice bytes start (stop - start) := by
  intro s hs
  rw [index, if_pos ⟨h, hstop⟩]
  exact ⟨rfl, hs⟩

theorem safe_forEach {f : ι → Proc ε σ Unit} {items : List ι}
    (h : ∀ item ∈ items, Safe I (f item) fun _ => True) :
    Safe I (forEach f items) fun _ => True := by
  induction items with
  | nil => exact safe_pure trivial
  | cons item items ih =>
    obtain ⟨hitem, hitems⟩ := List.forall_mem_cons.mp h
    exact hitem.bind fun _ _ => ih hitems

/-! ## A buffer of a fixed length -/

variable {n start stop : ℕ} {source : List UInt8}

theorem safe_load (h : start ≤ stop) (hstop : stop ≤ n) :
    Safe (fun s => s.length = n) (load start stop : Proc ε _ _)
      fun r => r.length = stop - start := by
  intro s hs
  rw [load, index, if_pos ⟨h, by omega⟩]
  exact ⟨length_slice (by omega), hs⟩

theorem safe_store (h : start ≤ stop) (hstop : stop ≤ n) (hsource : source.length = stop - start) :
    Safe (fun s => s.length = n) (store start stop source : Proc ε _ _) fun _ => True := by
  intro s hs
  rw [store, if_pos ⟨h, by omega, hsource⟩]
  exact ⟨trivial, (length_patch (by omega)).trans hs⟩

theorem safe_storeOr {e : ε} (hsource : source.length = stop - start) :
    Safe (fun s => s.length = n) (storeOr start stop source e) fun _ => True := by
  intro s hs
  unfold storeOr
  split_ifs with h
  · exact safe_store h.1 (by omega) hsource s hs
  · exact ⟨trivial, hs⟩

theorem safe_fillZero :
    Safe (fun s => s.length = n) (fillZero : Proc ε _ _) fun _ => True :=
  fun s hs => ⟨trivial, by simpa [fillZero] using hs⟩

theorem safe_length :
    Safe (fun s => s.length = n) (length : Proc ε _ _) fun r => r = n :=
  fun _ hs => ⟨hs, hs⟩

end Proc

end Mrml
