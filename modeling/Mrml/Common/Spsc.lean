import Mathlib

/-!
# Single-producer, single-consumer rings

A ring of `N` slots carries messages from one producer to one consumer. Message `i`
travels in slot `i % N`. The producer counts the messages it has published, the
consumer the messages it has released; both counters only grow. A state has the
memory of the ring and the two histories. The four moves of the two sides keep `Inv`.

Results:
* `Inv.fill`, `Inv.publish`: the moves of the producer.
* `Inv.take`, `Inv.release`: the moves of the consumer.
* `fill_frame`: filling the next slot leaves every unreleased message in place.
-/

namespace Mrml

/-- The memory of a ring, the number of released messages, and the messages published
    and received so far, oldest first. -/
structure Spsc (M : Type*) where
  slots : ℕ → M
  released : ℕ
  sent : List M
  received : List M

namespace Spsc

variable {M : Type*} {N : ℕ} {s : Spsc M}

/-- The received messages are a prefix of the published ones, at most `N` messages are
    unreleased, and each of these is in its slot. -/
structure Inv (N : ℕ) (s : Spsc M) : Prop where
  received : s.received <+: s.sent
  released_le : s.released ≤ s.received.length
  outstanding : s.sent.length ≤ s.released + N
  intact : ∀ i m, s.released ≤ i → s.sent[i]? = some m → s.slots (i % N) = m

/-- Positions less than `N` apart are in different slots. -/
theorem mod_ne_of_lt {i j : ℕ} (hlt : i < j) (hnear : j < i + N) : i % N ≠ j % N := by
  intro hmod
  have hdvd : N ∣ j - i := (Nat.modEq_iff_dvd' hlt.le).mp hmod
  have hle := Nat.le_of_dvd (by omega) hdvd
  omega

/-- Filling the next slot leaves every unreleased message in place. -/
theorem fill_frame (hroom : s.sent.length < s.released + N) (m : M) {i : ℕ}
    (hreleased : s.released ≤ i) (hi : i < s.sent.length) :
    Function.update s.slots (s.sent.length % N) m (i % N) = s.slots (i % N) :=
  Function.update_of_ne (mod_ne_of_lt hi (by omega)) _ _

theorem Inv.fill (h : s.Inv N) (hroom : s.sent.length < s.released + N) (m : M) :
    Inv N { s with slots := Function.update s.slots (s.sent.length % N) m } where
  received := h.received
  released_le := h.released_le
  outstanding := h.outstanding
  intact := by
    intro i m' hreleased hi
    obtain ⟨hlt, -⟩ := List.getElem?_eq_some_iff.mp hi
    exact (fill_frame hroom m hreleased hlt).trans (h.intact i m' hreleased hi)

theorem Inv.publish (h : s.Inv N) (hroom : s.sent.length < s.released + N) {m : M}
    (hm : s.slots (s.sent.length % N) = m) : Inv N { s with sent := s.sent ++ [m] } where
  received := h.received.trans (List.prefix_append _ _)
  released_le := h.released_le
  outstanding := by
    show (s.sent ++ [m]).length ≤ s.released + N
    rw [List.length_append, List.length_singleton]
    omega
  intact := by
    intro i m' hreleased hi
    replace hi : (s.sent ++ [m])[i]? = some m' := hi
    rcases Nat.lt_or_ge i s.sent.length with hlt | hge
    · rw [List.getElem?_append_left hlt] at hi
      exact h.intact i m' hreleased hi
    · obtain ⟨hlt, heq⟩ := List.getElem?_eq_some_iff.mp hi
      rw [List.length_append, List.length_singleton] at hlt
      obtain rfl : i = s.sent.length := by omega
      rw [List.getElem_append_right (Nat.le_refl _)] at heq
      show s.slots (s.sent.length % N) = m'
      rw [hm]
      simpa using heq

/-- The next message of the consumer is in its slot. -/
theorem Inv.next (h : s.Inv N) (hlt : s.received.length < s.sent.length) :
    s.sent[s.received.length]? = some (s.slots (s.received.length % N)) := by
  rw [List.getElem?_eq_getElem hlt, Option.some_inj]
  exact (h.intact _ _ h.released_le (List.getElem?_eq_getElem hlt)).symm

theorem Inv.take (h : s.Inv N) {m : M} (hm : s.sent[s.received.length]? = some m) :
    Inv N { s with received := s.received ++ [m] } where
  received := by
    obtain ⟨hlt, rfl⟩ := List.getElem?_eq_some_iff.mp hm
    exact List.concat_get_prefix h.received hlt
  released_le := by
    show s.released ≤ (s.received ++ [m]).length
    have := h.released_le
    rw [List.length_append]
    omega
  outstanding := h.outstanding
  intact := h.intact

theorem Inv.release (h : s.Inv N) {released : ℕ} (hge : s.released ≤ released)
    (hle : released ≤ s.received.length) : Inv N { s with released } where
  received := h.received
  released_le := hle
  outstanding := by
    have := h.outstanding
    show s.sent.length ≤ released + N
    omega
  intact := fun i m hi => h.intact i m (Nat.le_trans hge hi)

end Spsc

end Mrml
