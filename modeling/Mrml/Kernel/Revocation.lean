import Mrml.Kernel.Capability

/-!
# How long a revocation lasts

`CapabilitySpace::revoke` advances the slot's generation with
`wrapping_add(1).max(1)`, so the generations of one slot run through the cycle
`1, 2, …, 2^32 − 1, 1, …`. A revoked handle is dead until the slot's generation
has gone once around, which takes `2^32 − 2` further revocations of the slot.

* `revoked_until_reuse`: with fewer later revocations of its slot, a revoked
  handle authorizes nothing.
* `revoked_iff_reuse_bound`: the bound is exact for every space and handle.
-/

namespace Mrml.Kernel

/-- The operations that change one capability space. A derivation into it
    reads another space, of any size. -/
inductive SpaceOp
  | insert (object : ObjectId) (rights : Rights)
  | derive {M : ℕ} (source : CapabilitySpace M) (capability : Capability) (requested : Rights)
  | revoke (capability : Capability)

namespace SpaceOp

variable {N : ℕ}

/-- The space after one operation, successful or not. -/
def apply (s : CapabilitySpace N) : SpaceOp → CapabilitySpace N
  | insert object rights => (s.insert object rights).2
  | derive source capability requested => (source.derive capability requested s).2
  | revoke capability => (s.revoke capability).2

/-- The operation revokes some handle of `slot`. -/
def revokes (slot : UInt32) : SpaceOp → Bool
  | revoke capability => capability.slot == slot
  | _ => false

end SpaceOp

/-- How many of the operations revoke a handle of `slot`. -/
def revocations (slot : UInt32) (ops : List SpaceOp) : ℕ := ops.countP (SpaceOp.revokes slot)

/-! ## The generation cycle -/

/-- Position on the cycle: after `k` advances from `g`. -/
theorem nextGeneration_iterate (g : UInt32) (hg : g ≠ 0) (k : ℕ) :
    (nextGeneration^[k] g).toNat = (g.toNat - 1 + k) % (2 ^ 32 - 1) + 1 := by
  have hpos : 0 < g.toNat := by
    rcases Nat.eq_zero_or_pos g.toNat with h | h
    · exact absurd (UInt32.toNat_inj.mp (by rw [h]; rfl)) hg
    · exact h
  induction k with
  | zero =>
    have := g.toNat_lt
    rw [Function.iterate_zero, id, Nat.add_zero, Nat.mod_eq_of_lt (by omega)]
    omega
  | succ k ih =>
    rw [Function.iterate_succ', Function.comp_apply, nextGeneration_toNat, ih]
    split_ifs with h <;> omega

/-- The cycle has length `2^32 − 1`. -/
theorem nextGeneration_iterate_eq_self_iff (g : UInt32) (hg : g ≠ 0) (k : ℕ) :
    nextGeneration^[k] g = g ↔ 2 ^ 32 - 1 ∣ k := by
  have hit := nextGeneration_iterate g hg k
  have h0 := nextGeneration_iterate g hg 0
  rw [Function.iterate_zero, id] at h0
  rw [← UInt32.toNat_inj, Nat.dvd_iff_mod_eq_zero]
  omega

namespace CapabilitySpace

variable {N : ℕ}

/-! ## Runs keep a revoked handle dead -/

/-- One operation advances the generation of slot `i` at most once, and only
    when it revokes a handle of that slot. -/
theorem apply_generation (s : CapabilitySpace N) (op : SpaceOp) (i : Fin N) (slot : UInt32)
    (hi : i.val = slot.toNat) :
    ((op.apply s).entries i).generation = (s.entries i).generation ∨
    (op.revokes slot = true ∧
      ((op.apply s).entries i).generation = nextGeneration (s.entries i).generation) := by
  -- An insertion, also the one a derivation ends in, keeps every generation.
  have hins : ∀ object rights,
      ((s.insert object rights).2.entries i).generation = (s.entries i).generation := by
    intro object rights
    rcases s.insert_cases object rights with ⟨-, h⟩ | ⟨j, -, h⟩
    · rw [h]
    · rw [h]
      by_cases hij : i = j
      · subst hij
        simp
      · simp [setEntry_of_ne _ _ hij]
  cases op with
  | insert object rights => exact .inl (hins object rights)
  | derive source capability requested =>
    left
    rcases source.derive_cases capability requested s with ⟨-, h⟩ | ⟨j, -, -, -, h⟩
    · rw [SpaceOp.apply, h]
    · rw [SpaceOp.apply, h]
      exact hins _ _
  | revoke capability =>
    rcases s.revoke_cases capability with ⟨-, h⟩ | ⟨j, hj, h⟩
    · left
      rw [SpaceOp.apply, h]
    · rw [SpaceOp.apply, h]
      obtain ⟨hslot, -, -⟩ := liveSlot_eq_some.mp hj
      by_cases hij : i = j
      · right
        subst hij
        refine ⟨?_, by simp⟩
        simpa [SpaceOp.revokes, ← UInt32.toNat_inj] using hslot.symm.trans hi
      · left
        simp [setEntry_of_ne _ _ hij]

/-- A run advances the generation of a slot at most once per revocation of the
    slot. -/
theorem run_generation (i : Fin N) (slot : UInt32) (hi : i.val = slot.toNat) :
    ∀ (ops : List SpaceOp) (s : CapabilitySpace N), ∃ k ≤ revocations slot ops,
      ((run SpaceOp.apply s ops).entries i).generation =
        nextGeneration^[k] (s.entries i).generation := by
  intro ops
  induction ops with
  | nil => intro s; exact ⟨0, le_rfl, rfl⟩
  | cons op ops ih =>
    intro s
    obtain ⟨k, hk, hgen⟩ := ih (op.apply s)
    unfold revocations at hk ⊢
    rw [List.countP_cons]
    rcases s.apply_generation op i slot hi with h | ⟨hop, h⟩
    · refine ⟨k, by omega, ?_⟩
      rw [run_cons, hgen, h]
    · refine ⟨k + 1, by simp [hop]; omega, ?_⟩
      rw [run_cons, hgen, h, Function.iterate_succ_apply]

theorem revoke_ok {s : CapabilitySpace N} {c : Capability} (h : (s.revoke c).1 = .ok ()) :
    ∃ i, s.liveSlot c = some i ∧ i.val = c.slot.toNat ∧
      ((s.revoke c).2.entries i).generation = nextGeneration c.generation := by
  rcases s.revoke_cases c with ⟨-, h'⟩ | ⟨i, hi, h'⟩
  · rw [h'] at h
    cases h
  · obtain ⟨hslot, -, hgen⟩ := liveSlot_eq_some.mp hi
    exact ⟨i, hi, hslot, by rw [h', setEntry_self, Entry.revoked_generation, hgen]⟩

/-- A revoked handle stays dead while fewer than `2^32 − 2` later operations
    revoke a handle of its slot. -/
theorem revoked_until_reuse {s : CapabilitySpace N} {c : Capability}
    (h : (s.revoke c).1 = .ok ()) {ops : List SpaceOp}
    (hops : revocations c.slot ops < 2 ^ 32 - 2) :
    (run SpaceOp.apply (s.revoke c).2 ops).liveSlot c = none := by
  obtain ⟨i, hi, hslot, hgen⟩ := revoke_ok h
  obtain ⟨-, -, hlive⟩ := liveSlot_eq_some.mp hi
  obtain ⟨k, hk, hrun⟩ := run_generation i c.slot hslot ops (s.revoke c).2
  by_contra hne
  obtain ⟨j, hj⟩ := Option.ne_none_iff_exists'.mp hne
  obtain ⟨hjslot, -, hjgen⟩ := liveSlot_eq_some.mp hj
  have hij : j = i := Fin.ext (hjslot.trans hslot.symm)
  rw [hij, hrun, hgen, ← Function.iterate_succ_apply,
    nextGeneration_iterate_eq_self_iff _ (hlive ▸ (s.entries i).generation_ne)] at hjgen
  have := Nat.le_of_dvd (by omega) hjgen
  omega

/-! ## Reuse brings the handle back -/

/-- How many slots are free. -/
def freeCount (s : CapabilitySpace N) : ℕ :=
  (Finset.univ.filter fun i => (s.entries i).occupied = false).card

/-- Every slot is occupied, and slot `i` holds the rights `rights`. -/
def FullAt (s : CapabilitySpace N) (i : Fin N) (rights : Rights) : Prop :=
  (∀ j, (s.entries j).occupied = true) ∧ (s.entries i).rights = rights

/-- Insertions fill the table: a slot that is free, or already holds
    `rights`, ends up holding `rights`, under an unchanged generation. -/
theorem fill_fullAt (object : ObjectId) (rights : Rights) (i : Fin N) :
    ∀ (n : ℕ) (s : CapabilitySpace N), s.freeCount ≤ n →
      ((s.entries i).occupied = false ∨ (s.entries i).rights = rights) →
      let s' := run SpaceOp.apply s
        (List.replicate n (SpaceOp.insert object rights))
      s'.FullAt i rights ∧ (s'.entries i).generation = (s.entries i).generation := by
  intro n
  induction n with
  | zero =>
    intro s hfree hi
    have hocc : ∀ j, (s.entries j).occupied = true := by
      intro j
      have hempty := Finset.card_eq_zero.mp (Nat.le_zero.mp hfree)
      have := Finset.filter_eq_empty_iff.mp hempty (Finset.mem_univ j)
      simpa using this
    refine ⟨⟨hocc, ?_⟩, rfl⟩
    rcases hi with h | h
    · rw [hocc i] at h
      cases h
    · exact h
  | succ n ih =>
    intro s hfree hi
    rw [List.replicate_succ, run_cons]
    rcases s.insert_cases object rights with ⟨hocc, h⟩ | ⟨j, hj, h⟩
    · have hz : s.freeCount = 0 := by simp [freeCount, hocc]
      have := ih s (by omega) hi
      rwa [SpaceOp.apply, h]
    · rw [SpaceOp.apply, h]
      have hdec : (s.setEntry j ((s.entries j).grant object rights)).freeCount <
          s.freeCount := by
        apply Finset.card_lt_card
        refine ⟨fun x hx => ?_, fun hsub => ?_⟩
        · rw [Finset.mem_filter] at hx ⊢
          refine ⟨hx.1, ?_⟩
          by_cases hxj : x = j
          · rw [hxj] at hx
            simp at hx
          · rw [← hx.2, setEntry_of_ne _ _ hxj]
        · have hmem := hsub (Finset.mem_filter.mpr ⟨Finset.mem_univ j, hj⟩)
          simp at hmem
      have hcase := ih (s.setEntry j ((s.entries j).grant object rights)) (by omega)
      by_cases hij : i = j
      · subst hij
        simpa using hcase (.inr (by simp))
      · simpa [setEntry_of_ne _ _ hij] using hcase (by simpa [setEntry_of_ne _ _ hij] using hi)

/-- `k` rounds of revoking the handle of `slot` (generation `g` first) and
    inserting into the space again. -/
def reuse (slot : UInt32) (object : ObjectId) (rights : Rights) : ℕ → UInt32 → List SpaceOp
  | 0, _ => []
  | k + 1, g =>
    .revoke ⟨slot, g⟩ :: .insert object rights :: reuse slot object rights k (nextGeneration g)

theorem revocations_reuse (slot : UInt32) (object : ObjectId) (rights : Rights) :
    ∀ k g, revocations slot (reuse slot object rights k g) = k := by
  intro k
  induction k with
  | zero => intro g; rfl
  | succ k ih =>
    intro g
    have := ih (nextGeneration g)
    unfold revocations at this ⊢
    rw [reuse, List.countP_cons_of_pos (by simp [SpaceOp.revokes]),
      List.countP_cons_of_neg (by simp [SpaceOp.revokes]), this]

/-- One round frees slot `i` of a full table and fills it again, one generation
    later. -/
theorem reuse_round {s : CapabilitySpace N} {i : Fin N} {rights : Rights} {slot : UInt32}
    (hi : i.val = slot.toNat) (hs : s.FullAt i rights) (object : ObjectId) :
    let s' := run SpaceOp.apply s
      [.revoke ⟨slot, (s.entries i).generation⟩, .insert object rights]
    s'.FullAt i rights ∧ (s'.entries i).generation = nextGeneration (s.entries i).generation := by
  obtain ⟨hocc, -⟩ := hs
  have hlive : s.liveSlot ⟨slot, (s.entries i).generation⟩ = some i :=
    liveSlot_eq_some.mpr ⟨hi, hocc i, rfl⟩
  simp only [run_cons, run_nil, SpaceOp.apply]
  rcases s.revoke_cases ⟨slot, (s.entries i).generation⟩ with ⟨h, -⟩ | ⟨j, hj, hrev⟩
  · rw [hlive] at h
    cases h
  · obtain rfl : i = j := Option.some.inj (hlive.symm.trans hj)
    rw [hrev]
    rcases insert_cases (s.setEntry i (s.entries i).revoked) object rights with ⟨hall, -⟩ | ⟨k, hk, hins⟩
    · have := hall i
      simp at this
    · -- the freed slot is the only one the insertion can pick
      have hki : k = i := by
        by_contra hne
        rw [setEntry_of_ne _ _ hne, hocc k] at hk
        cases hk
      subst hki
      rw [hins]
      refine ⟨⟨fun j => ?_, by simp⟩, by simp⟩
      by_cases hjk : j = k
      · subst hjk
        simp
      · rw [setEntry_of_ne _ _ hjk, setEntry_of_ne _ _ hjk]
        exact hocc j

theorem reuse_fullAt {i : Fin N} {slot : UInt32} (hi : i.val = slot.toNat) (object : ObjectId)
    (rights : Rights) :
    ∀ (k : ℕ) (s : CapabilitySpace N), s.FullAt i rights →
      let s' := run SpaceOp.apply s (reuse slot object rights k (s.entries i).generation)
      s'.FullAt i rights ∧
        (s'.entries i).generation = nextGeneration^[k] (s.entries i).generation := by
  intro k
  induction k with
  | zero => intro s hs; exact ⟨hs, rfl⟩
  | succ k ih =>
    intro s hs
    obtain ⟨hfull, hgen⟩ := reuse_round hi hs object
    have := ih _ hfull
    rw [hgen] at this
    rwa [reuse, Function.iterate_succ_apply]

/-- The operations after which a revoked handle is accepted again: fill the
    table, then go once around the generations of the handle's slot. -/
def revival (N : ℕ) (c : Capability) (object : ObjectId) (rights : Rights) : List SpaceOp :=
  List.replicate N (.insert object rights) ++
    reuse c.slot object rights (2 ^ 32 - 2) (nextGeneration c.generation)

theorem revocations_revival (N : ℕ) (c : Capability) (object : ObjectId) (rights : Rights) :
    revocations c.slot (revival N c object rights) = 2 ^ 32 - 2 := by
  have hfill : (List.replicate N (SpaceOp.insert object rights)).countP
      (SpaceOp.revokes c.slot) = 0 := by
    rw [List.countP_eq_zero]
    intro op hop
    rw [List.eq_of_mem_replicate hop]
    simp [SpaceOp.revokes]
  have := revocations_reuse c.slot object rights (2 ^ 32 - 2) (nextGeneration c.generation)
  unfold revocations at this ⊢
  rw [revival, List.countP_append, hfill, this, Nat.zero_add]

/-- Once around the cycle, the revoked handle is live again and carries the
    rights of the entry that now occupies its slot. -/
theorem revival_authorizes {s : CapabilitySpace N} {c : Capability} (h : (s.revoke c).1 = .ok ())
    (object : ObjectId) (rights : Rights) :
    ∃ o, (run SpaceOp.apply (s.revoke c).2 (revival N c object rights)).authorize c rights =
      .ok o := by
  obtain ⟨i, hi, hslot, hgen⟩ := revoke_ok h
  obtain ⟨-, -, hlive⟩ := liveSlot_eq_some.mp hi
  have hc : c.generation ≠ 0 := hlive ▸ (s.entries i).generation_ne
  have hfree : ((s.revoke c).2.entries i).occupied = false := by
    rcases s.revoke_cases c with ⟨h', -⟩ | ⟨j, hj, h'⟩
    · rw [hi] at h'
      cases h'
    · obtain rfl : i = j := Option.some.inj (hi.symm.trans hj)
      rw [h', setEntry_self, Entry.revoked_occupied]
  have hcount : (s.revoke c).2.freeCount ≤ N := by
    unfold freeCount
    exact (Finset.card_filter_le _ _).trans (by simp)
  obtain ⟨hfull, hfgen⟩ := fill_fullAt object rights i N (s.revoke c).2 hcount (.inl hfree)
  rw [hgen] at hfgen
  have hround := reuse_fullAt hslot object rights (2 ^ 32 - 2) _ hfull
  rw [hfgen, ← Function.iterate_succ_apply, ← run_append] at hround
  obtain ⟨⟨hocc, hrights⟩, hend⟩ := hround
  have hback : nextGeneration^[Nat.succ (2 ^ 32 - 2)] c.generation = c.generation :=
    (nextGeneration_iterate_eq_self_iff _ hc _).mpr (Dvd.intro 1 rfl)
  rw [hback] at hend
  rw [revival]
  refine ⟨_, authorize_eq_ok.mpr ⟨i, liveSlot_eq_some.mpr ⟨hslot, hocc i, hend⟩, ?_, rfl⟩⟩
  rw [hrights]
  exact Rights.contains_self rights

/-- **How long a revocation lasts.** For every space, every handle it revokes
    and every bound `n`: the handle stays unauthorized for every non-empty
    rights set over all runs with at most `n` revocations of its slot exactly
    when `n < 2^32 − 2`. -/
theorem revoked_iff_reuse_bound {s : CapabilitySpace N} {c : Capability}
    (h : (s.revoke c).1 = .ok ()) (n : ℕ) :
    (∀ ops, revocations c.slot ops ≤ n → ∀ rights, rights ≠ Rights.none →
      ∃ e, (run SpaceOp.apply (s.revoke c).2 ops).authorize c rights = .error e) ↔
    n < 2 ^ 32 - 2 := by
  constructor
  · intro hall
    by_contra hn
    obtain ⟨e, he⟩ := hall (revival N c ⟨0⟩ Rights.read)
      (by rw [revocations_revival]; omega) Rights.read (by decide)
    obtain ⟨o, ho⟩ := revival_authorizes h ⟨0⟩ Rights.read
    rw [ho] at he
    cases he
  · intro hn ops hops rights _
    exact ⟨.invalid, authorize_of_not_live (revoked_until_reuse h (by omega)) rights⟩

/-- A one-slot space with one readable object. -/
def oneReadable : CapabilitySpace 1 := ((new 1).insert ⟨7⟩ Rights.read).2

theorem revoked_iff_reuse_bound_oneReadable :
    (oneReadable.revoke ⟨0, 1⟩).1 = .ok () ∧
    ((∀ ops, revocations 0 ops ≤ 3 → ∀ rights, rights ≠ Rights.none →
      ∃ e, (run SpaceOp.apply (oneReadable.revoke ⟨0, 1⟩).2 ops).authorize ⟨0, 1⟩ rights =
        .error e) ↔ 3 < 2 ^ 32 - 2) :=
  ⟨by decide, revoked_iff_reuse_bound (c := ⟨0, 1⟩) (by decide) 3⟩

/-- Revoking the only handle of `oneReadable`, then reusing its slot
    `2^32 − 2` more times, makes the revoked handle readable again. -/
theorem revoked_handle_revalidates :
    (oneReadable.revoke ⟨0, 1⟩).1 = .ok () ∧ Rights.read ≠ Rights.none ∧
    ∃ o, (run SpaceOp.apply (oneReadable.revoke ⟨0, 1⟩).2
      (revival 1 ⟨0, 1⟩ ⟨8⟩ Rights.read)).authorize ⟨0, 1⟩ Rights.read = .ok o :=
  ⟨by decide, by decide, revival_authorizes (by decide) ⟨8⟩ Rights.read⟩

end CapabilitySpace

end Mrml.Kernel
