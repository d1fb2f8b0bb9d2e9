import Mrml.Common.Bytes
import Mrml.Common.Checked

/-!
# Readers of byte strings

A reader takes fields off the front of a byte string, one after the other, and can fail.
`Reads p bytes a` says that `p` reads exactly `bytes`: it returns `a` and leaves what follows,
and it fails on every proper prefix.

Results:
* `Reads.bind`, `Reads.bind_append`: the fields of a message are read one after the other.
* `Reads.whole`: a message that is read to its end is accepted alone, neither cut nor extended.
-/

namespace Mrml

variable {ε α β : Type}

/-- A reader over what is left of a byte string. -/
abbrev Reader (ε α : Type) := StateT (List UInt8) (Except ε) α

namespace Reader

/-- `input.get(cursor..cursor + len).ok_or(error)`, moving the cursor. -/
def take (len : ℕ) (error : ε) : Reader ε (List UInt8) := fun input =>
  if len ≤ input.length then .ok (input.take len, input.drop len) else .error error

/-- A step that does not read. -/
def lift (x : Except ε α) : Reader ε α := fun input => do return (← x, input)

theorem bind_apply (p : Reader ε α) (f : α → Reader ε β) (input : List UInt8) :
    (p >>= f) input = p input >>= fun result => f result.1 result.2 := rfl

theorem take_eq_ok {len : ℕ} {error : ε} {input bytes rest : List UInt8} :
    take len error input = .ok (bytes, rest) ↔ bytes.length = len ∧ input = bytes ++ rest := by
  unfold take
  constructor
  · intro h
    split_ifs at h with hle
    obtain ⟨rfl, rfl⟩ := Prod.mk.inj (Except.ok.inj h)
    exact ⟨List.length_take_of_le hle, (List.take_append_drop _ _).symm⟩
  · rintro ⟨rfl, rfl⟩
    rw [if_pos (by simp), List.take_left, List.drop_left]

theorem bind_apply_eq_ok {p : Reader ε α} {f : α → Reader ε β} {input : List UInt8}
    {result : β × List UInt8} :
    (p >>= f) input = .ok result ↔ ∃ a rest, p input = .ok (a, rest) ∧ f a rest = .ok result := by
  rw [bind_apply, bind_eq_ok, Prod.exists]

theorem lift_eq_ok {x : Except ε α} {input rest : List UInt8} {a : α} :
    lift x input = .ok (a, rest) ↔ x = .ok a ∧ rest = input := by
  cases x with
  | error error => simp [lift, bind, Except.bind]
  | ok b =>
    show Except.ok (b, input) = .ok (a, rest) ↔ _
    rw [Except.ok.injEq, Prod.mk.injEq, Except.ok.injEq]
    exact and_congr_right fun _ => eq_comm

/-- A step that fails without reading. -/
theorem lift_of_error {x : Except ε α} {error : ε} (h : x = .error error) (input : List UInt8) :
    lift x input = .error error := by
  rw [lift, h]
  rfl

/-- Reads a whole message: bytes that are left over are an error. -/
def whole (p : Reader ε α) (error : ε) (input : List UInt8) : Except ε α := do
  let (a, rest) ← p input
  refuseIf (rest.length ≠ 0) error
  return a

end Reader

open Reader

/-- The reader reads exactly these bytes. -/
def Reads (p : Reader ε α) (bytes : List UInt8) (a : α) : Prop :=
  (∀ rest, p (bytes ++ rest) = .ok (a, rest)) ∧
    ∀ front, front <+: bytes → front ≠ bytes → ∃ error, p front = .error error

namespace Reads

theorem pure (a : α) : Reads (pure a : Reader ε α) [] a := by
  refine ⟨fun _ => rfl, fun front hfront hne => ?_⟩
  exact absurd (List.prefix_nil.mp hfront) hne

theorem take {bytes : List UInt8} {len : ℕ} (error : ε) (h : bytes.length = len) :
    Reads (Reader.take len error) bytes bytes := by
  subst h
  refine ⟨fun rest => ?_, fun front hfront hne => ⟨error, ?_⟩⟩
  · rw [Reader.take, if_pos (by simp), List.take_left, List.drop_left]
  · have hlt : front.length < bytes.length := by
      refine lt_of_le_of_ne hfront.length_le fun heq => hne ?_
      exact hfront.eq_of_length heq
    rw [Reader.take, if_neg (by omega)]

/-- A step that succeeds without reading. -/
theorem lift {x : Except ε α} {a : α} (h : x = .ok a) : Reads (Reader.lift x) [] a := by
  subst h
  exact pure a

/-- What is read first is taken off, and the rest is left to the next step. -/
theorem bind_append {p : Reader ε α} {bytes : List UInt8} {a : α} (h : Reads p bytes a)
    (f : α → Reader ε β) (rest : List UInt8) : (p >>= f) (bytes ++ rest) = f a rest := by
  rw [bind_apply, h.1, ok_bind]

theorem bind {p : Reader ε α} {f : α → Reader ε β} {bytes bytes' : List UInt8} {a : α} {b : β}
    (hp : Reads p bytes a) (hf : Reads (f a) bytes' b) : Reads (p >>= f) (bytes ++ bytes') b := by
  constructor
  · intro rest
    rw [List.append_assoc, hp.bind_append]
    exact hf.1 rest
  · intro front hfront hne
    rw [bind_apply]
    rcases List.prefix_or_prefix_of_prefix hfront (List.prefix_append bytes bytes') with
      hshort | ⟨tail, rfl⟩
    · by_cases heq : front = bytes
      · subst heq
        have hnil : bytes' ≠ [] := by
          rintro rfl
          exact hne (List.append_nil front).symm
        obtain ⟨error, herror⟩ := hf.2 [] List.nil_prefix hnil.symm
        have hfirst := hp.1 []
        rw [List.append_nil] at hfirst
        exact ⟨error, by rw [hfirst, ok_bind]; exact herror⟩
      · obtain ⟨error, herror⟩ := hp.2 front hshort heq
        exact ⟨error, by rw [herror]; rfl⟩
    · have htail : tail <+: bytes' := (List.prefix_append_right_inj bytes).mp hfront
      have hne' : tail ≠ bytes' := fun heq => hne (by rw [heq])
      obtain ⟨error, herror⟩ := hf.2 tail htail hne'
      exact ⟨error, by rw [hp.1, ok_bind]; exact herror⟩

theorem map {p : Reader ε α} {bytes : List UInt8} {a : α} (f : α → β) (h : Reads p bytes a) :
    Reads (f <$> p) bytes (f a) := by
  have hbind : Reads (p >>= fun a => Pure.pure (f a)) (bytes ++ []) (f a) := h.bind (pure (f a))
  rw [List.append_nil] at hbind
  exact hbind

/-- A whole message is read, and neither a part of it nor more than it. -/
theorem whole {p : Reader ε α} {bytes : List UInt8} {a : α} (h : Reads p bytes a) (error : ε) :
    p.whole error bytes = .ok a ∧
      (∀ front, front <+: bytes → front ≠ bytes → ∃ e, p.whole error front = .error e) ∧
      ∀ more, more ≠ [] → p.whole error (bytes ++ more) = .error error := by
  refine ⟨?_, fun front hfront hne => ?_, fun more hmore => ?_⟩
  · have hread := h.1 []
    rw [List.append_nil] at hread
    rw [Reader.whole, hread]
    rfl
  · obtain ⟨e, he⟩ := h.2 front hfront hne
    exact ⟨e, by rw [Reader.whole, he]; rfl⟩
  · have hlength : more.length ≠ 0 := fun hnil => hmore (List.length_eq_zero_iff.mp hnil)
    rw [Reader.whole, h.1, ok_bind]
    show (refuseIf (more.length ≠ 0) error >>= _) = _
    rw [refuseIf, if_pos hlength]
    rfl

end Reads

end Mrml
