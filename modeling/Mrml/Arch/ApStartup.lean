import Mrml.Arch.Topology
import Mrml.Common.Run

/-!
# Starting application processors

Model of `ApStartupTable` (`crates/mrml-kernel/src/arch/x86_64/topology.rs`, lines 222–443).
`initialize` writes the table that `new` returns.

Results:
* `step_spent`: a token that has been used up stays so over one operation, unless the
  operation rearms a slot at the last generation.
* `tokens_single_use`: over runs, a token whose startup is over is refused ever after.
* `token_reissued`: a slot at the last generation that is rearmed issues its token again.
-/

namespace Mrml.Arch

/-- `ApState` (lines 222–228). -/
inductive ApState
  | offline
  | initSent
  | startupSent
  | online
  | failed
deriving DecidableEq

/-- `ApStartupToken` (lines 231–234). -/
structure ApStartupToken where
  slot : UInt16
  generation : UInt32
deriving DecidableEq

/-- `ApSlot` (lines 257–261). -/
structure ApSlot where
  apicId : UInt32
  generation : UInt32
  state : ApState
deriving DecidableEq

/-- `InstalledApTrampoline` (`ap_trampoline.rs`, lines 202–205). -/
structure InstalledApTrampoline where
  physical : UInt64
  startupVector : UInt8
deriving DecidableEq

/-- `ApStartupTable` (lines 263–266), with what `new` checks. -/
structure ApStartupTable (CPUS : ℕ) where
  slots : Fin CPUS → Option ApSlot
  count : ℕ
  count_le : count ≤ CPUS
  capacity : CPUS ≤ maxX86Cpus

namespace ApStartupTable

variable {CPUS : ℕ}

/-- `ApStartupTable::new` (lines 309–334). -/
def new (CPUS : ℕ) (topology : X86CpuTopology) (bspApicId : UInt32) :
    Except TopologyError (ApStartupTable CPUS) :=
  if h : CPUS = 0 ∨ CPUS > maxX86Cpus ∨ topology.cpus.length > CPUS then .error .tooManyCpus
  else do
    let _ ← topology.indexOfApic bspApicId
    return {
      slots := fun i => topology.cpus[i.val]?.map fun cpu =>
        ⟨cpu.apicId, 1, if cpu.apicId = bspApicId then .online else .offline⟩
      count := topology.cpus.length
      count_le := by omega
      capacity := by omega }

/-- The slot that `slot` and `slot_mut` give (lines 418–430). -/
def slotAt (table : ApStartupTable CPUS) (index : ℕ) : Except TopologyError (Fin CPUS × ApSlot) :=
  if h : index < table.count then
    have hindex : index < CPUS := h.trans_le table.count_le
    okOr ((table.slots ⟨index, hindex⟩).map fun slot => (⟨index, hindex⟩, slot)) .invalidCpu
  else .error .invalidCpu

/-- `token_slot_mut` (lines 432–438). -/
def tokenSlot (table : ApStartupTable CPUS) (token : ApStartupToken) :
    Except TopologyError (Fin CPUS × ApSlot) := do
  let (i, slot) ← table.slotAt token.slot.toNat
  refuseIf (slot.generation ≠ token.generation) .staleStartup
  return (i, slot)

/-- The table with another slot. -/
def setSlot (table : ApStartupTable CPUS) (i : Fin CPUS) (slot : ApSlot) : ApStartupTable CPUS :=
  { table with slots := Function.update table.slots i (some slot) }

/-- `state` (lines 336–338). -/
def state (table : ApStartupTable CPUS) (index : ℕ) : Except TopologyError ApState :=
  (table.slotAt index).map fun found => found.2.state

/-- `begin` (lines 340–350). -/
def begin (table : ApStartupTable CPUS) (index : ℕ) :
    Except TopologyError ApStartupToken × ApStartupTable CPUS :=
  match table.slotAt index with
  | .error error => (.error error, table)
  | .ok (i, slot) =>
    if slot.state ≠ .offline then (.error .invalidState, table)
    else (.ok ⟨UInt16.ofNat index, slot.generation⟩, table.setSlot i { slot with state := .initSent })

/-- `startup_sent` (lines 352–366). -/
def startupSent (table : ApStartupTable CPUS) (token : ApStartupToken) (vector : UInt8) :
    Except TopologyError UInt64 × ApStartupTable CPUS :=
  if vector = 0 then (.error .invalidStartupVector, table)
  else
    match table.tokenSlot token with
    | .error error => (.error error, table)
    | .ok (i, slot) =>
      if slot.state ≠ .initSent then (.error .invalidState, table)
      else (.ok (vector.toUInt64 <<< 12), table.setSlot i { slot with state := .startupSent })

/-- `startup_sent_with_image` (lines 368–378). -/
def startupSentWithImage (table : ApStartupTable CPUS) (token : ApStartupToken)
    (image : InstalledApTrampoline) : Except TopologyError UInt64 × ApStartupTable CPUS :=
  match table.startupSent token image.startupVector with
  | (.error error, table) => (.error error, table)
  | (.ok physical, table) =>
    if physical ≠ image.physical then (.error .invalidStartupVector, table)
    else (.ok physical, table)

/-- `destination` (lines 380–386). -/
def destination (table : ApStartupTable CPUS) (token : ApStartupToken) :
    Except TopologyError UInt32 := do
  let (_, slot) ← table.tokenSlot token
  refuseIf (¬ (slot.state = .initSent ∨ slot.state = .startupSent)) .invalidState
  return slot.apicId

/-- `acknowledge` (lines 388–399). -/
def acknowledge (table : ApStartupTable CPUS) (token : ApStartupToken) (observedApicId : UInt32) :
    Except TopologyError Unit × ApStartupTable CPUS :=
  match table.tokenSlot token with
  | .error error => (.error error, table)
  | .ok (i, slot) =>
    if slot.state ≠ .startupSent ∨ slot.apicId ≠ observedApicId then (.error .invalidState, table)
    else (.ok (), table.setSlot i { slot with state := .online })

/-- `fail` (lines 401–413). The state is written before the generation is advanced. -/
def fail (table : ApStartupTable CPUS) (token : ApStartupToken) :
    Except TopologyError Unit × ApStartupTable CPUS :=
  match table.tokenSlot token with
  | .error error => (.error error, table)
  | .ok (i, slot) =>
    if ¬ (slot.state = .initSent ∨ slot.state = .startupSent) then (.error .invalidState, table)
    else if slot.generation = 0xffffffff then
      (.error .generationExhausted, table.setSlot i { slot with state := .failed })
    else
      (.ok (), table.setSlot i
        { slot with state := .failed, generation := slot.generation + 1 })

/-- `rearm_failed` (lines 418–425). -/
def rearmFailed (table : ApStartupTable CPUS) (index : ℕ) :
    Except TopologyError Unit × ApStartupTable CPUS :=
  match table.slotAt index with
  | .error error => (.error error, table)
  | .ok (i, slot) =>
    if slot.state ≠ .failed then (.error .invalidState, table)
    else (.ok (), table.setSlot i { slot with state := .offline })

/-! ## Runs -/

/-- The operations that change a table. -/
inductive Op
  | begin (index : ℕ)
  | startupSent (token : ApStartupToken) (vector : UInt8)
  | startupSentWithImage (token : ApStartupToken) (image : InstalledApTrampoline)
  | acknowledge (token : ApStartupToken) (observedApicId : UInt32)
  | fail (token : ApStartupToken)
  | rearmFailed (index : ℕ)

/-- The table after an operation. -/
def step (table : ApStartupTable CPUS) : Op → ApStartupTable CPUS
  | .begin index => (table.begin index).2
  | .startupSent token vector => (table.startupSent token vector).2
  | .startupSentWithImage token image => (table.startupSentWithImage token image).2
  | .acknowledge token observedApicId => (table.acknowledge token observedApicId).2
  | .fail token => (table.fail token).2
  | .rearmFailed index => (table.rearmFailed index).2

/-- The table refuses a token: no operation goes through with it, and none issues it. -/
structure Refuses (table : ApStartupTable CPUS) (token : ApStartupToken) : Prop where
  startupSent : ∀ vector, ∃ error, table.startupSent token vector = (.error error, table)
  startupSentWithImage : ∀ image, ∃ error,
    table.startupSentWithImage token image = (.error error, table)
  destination : ∃ error, table.destination token = .error error
  acknowledge : ∀ observed, ∃ error, table.acknowledge token observed = (.error error, table)
  fail : ∃ error, table.fail token = (.error error, table)
  begin : ∀ index, (table.begin index).1 ≠ .ok token

/-- The startup is over. -/
def ApState.Final (state : ApState) : Prop := state = .failed ∨ state = .online

instance (state : ApState) : Decidable (ApState.Final state) :=
  inferInstanceAs (Decidable (_ ∨ _))

/-- The operation moves the slot of the token to `Failed` or `Online` while the slot has the
    generation of the token. -/
def Spends (table : ApStartupTable CPUS) (op : Op) (token : ApStartupToken) : Prop :=
  ∃ i slot slot', table.tokenSlot token = .ok (i, slot) ∧ ¬ ApState.Final slot.state ∧
    (table.step op).slots i = some slot' ∧ ApState.Final slot'.state

/-- The operation does not rearm a slot at the last generation. -/
def Rearmable (table : ApStartupTable CPUS) : Op → Prop
  | .rearmFailed index => ∀ i slot, table.slotAt index = .ok (i, slot) →
      slot.generation ≠ 0xffffffff
  | _ => True

/-- What an operation can do to one slot. -/
inductive Transition : ApSlot → ApSlot → Prop
  | begin (apicId generation : UInt32) :
      Transition ⟨apicId, generation, .offline⟩ ⟨apicId, generation, .initSent⟩
  | startupSent (apicId generation : UInt32) :
      Transition ⟨apicId, generation, .initSent⟩ ⟨apicId, generation, .startupSent⟩
  | acknowledge (apicId generation : UInt32) :
      Transition ⟨apicId, generation, .startupSent⟩ ⟨apicId, generation, .online⟩
  | fail (apicId generation : UInt32) {state : ApState}
      (hstate : state = .initSent ∨ state = .startupSent) (hlast : generation ≠ 0xffffffff) :
      Transition ⟨apicId, generation, state⟩ ⟨apicId, generation + 1, .failed⟩
  | exhaust (apicId : UInt32) {state : ApState}
      (hstate : state = .initSent ∨ state = .startupSent) :
      Transition ⟨apicId, 0xffffffff, state⟩ ⟨apicId, 0xffffffff, .failed⟩
  | rearm (apicId generation : UInt32) :
      Transition ⟨apicId, generation, .failed⟩ ⟨apicId, generation, .offline⟩

theorem slotAt_eq_ok {table : ApStartupTable CPUS} {index : ℕ} {i : Fin CPUS} {slot : ApSlot} :
    table.slotAt index = .ok (i, slot) ↔
      i.val = index ∧ index < table.count ∧ table.slots i = some slot := by
  unfold slotAt
  constructor
  · intro h
    split_ifs at h with hindex
    obtain ⟨found, hfound, heq⟩ := Option.map_eq_some_iff.mp (okOr_eq_ok.mp h)
    cases heq
    exact ⟨rfl, hindex, hfound⟩
  · rintro ⟨rfl, hindex, hslot⟩
    rw [dif_pos hindex]
    exact okOr_eq_ok.mpr (Option.map_eq_some_iff.mpr ⟨slot, hslot, rfl⟩)

theorem tokenSlot_eq_ok {table : ApStartupTable CPUS} {token : ApStartupToken} {i : Fin CPUS}
    {slot : ApSlot} :
    table.tokenSlot token = .ok (i, slot) ↔
      table.slotAt token.slot.toNat = .ok (i, slot) ∧ slot.generation = token.generation := by
  unfold tokenSlot
  constructor
  · intro h
    obtain ⟨⟨i', slot'⟩, hslot, h⟩ := bind_eq_ok.mp h
    obtain ⟨_, hgeneration, h⟩ := bind_eq_ok.mp h
    cases h
    exact ⟨hslot, not_not.mp (refuseIf_eq_ok.mp hgeneration)⟩
  · rintro ⟨hslot, hgeneration⟩
    exact bind_eq_ok.mpr ⟨(i, slot), hslot,
      bind_eq_ok.mpr ⟨(), refuseIf_eq_ok.mpr (not_not.mpr hgeneration), rfl⟩⟩

/-- What an operation has done to the table. -/
def Effect (table : ApStartupTable CPUS) (op : Op) (table' : ApStartupTable CPUS) : Prop :=
  table' = table ∨ ∃ i slot slot', table.slots i = some slot ∧ Transition slot slot' ∧
    table' = table.setSlot i slot' ∧
    (slot.state = .failed → ∃ index, op = .rearmFailed index ∧ table.slotAt index = .ok (i, slot))

theorem startupSent_cases (table : ApStartupTable CPUS) (token : ApStartupToken) (vector : UInt8)
    (op : Op) : Effect table op (table.startupSent token vector).2 := by
  unfold startupSent
  split_ifs
  · exact .inl rfl
  · cases htoken : table.tokenSlot token with
    | error error => exact .inl rfl
    | ok found =>
      obtain ⟨i, apicId, generation, state⟩ := found
      dsimp only
      split_ifs with hstate
      · exact .inl rfl
      · obtain rfl := not_not.mp hstate
        have hslot := (slotAt_eq_ok.mp (tokenSlot_eq_ok.mp htoken).1).2.2
        exact .inr ⟨i, _, _, hslot, .startupSent apicId generation, rfl, nofun⟩

theorem begin_cases (table : ApStartupTable CPUS) (index : ℕ) (op : Op) :
    Effect table op (table.begin index).2 := by
  unfold begin
  cases hslot : table.slotAt index with
  | error error => exact .inl rfl
  | ok found =>
    obtain ⟨i, apicId, generation, state⟩ := found
    dsimp only
    split_ifs with hstate
    · exact .inl rfl
    · obtain rfl := not_not.mp hstate
      exact .inr ⟨i, _, _, (slotAt_eq_ok.mp hslot).2.2, .begin apicId generation, rfl, nofun⟩

theorem startupSentWithImage_cases (table : ApStartupTable CPUS) (token : ApStartupToken)
    (image : InstalledApTrampoline) (op : Op) :
    Effect table op (table.startupSentWithImage token image).2 := by
  have hcases := startupSent_cases table token image.startupVector op
  unfold startupSentWithImage
  rcases hsent : table.startupSent token image.startupVector with ⟨_ | physical, table'⟩
  · rw [hsent] at hcases
    exact hcases
  · rw [hsent] at hcases
    dsimp only
    split_ifs
    · exact hcases
    · exact hcases

theorem acknowledge_cases (table : ApStartupTable CPUS) (token : ApStartupToken)
    (observedApicId : UInt32) (op : Op) :
    Effect table op (table.acknowledge token observedApicId).2 := by
  unfold acknowledge
  cases htoken : table.tokenSlot token with
  | error error => exact .inl rfl
  | ok found =>
    obtain ⟨i, apicId, generation, state⟩ := found
    dsimp only
    split_ifs with hstate
    · exact .inl rfl
    · rw [not_or, not_not, not_not] at hstate
      obtain ⟨rfl, -⟩ := hstate
      have hslot := (slotAt_eq_ok.mp (tokenSlot_eq_ok.mp htoken).1).2.2
      exact .inr ⟨i, _, _, hslot, .acknowledge apicId generation, rfl, nofun⟩

theorem fail_cases (table : ApStartupTable CPUS) (token : ApStartupToken) (op : Op) :
    Effect table op (table.fail token).2 := by
  unfold fail
  cases htoken : table.tokenSlot token with
  | error error => exact .inl rfl
  | ok found =>
    obtain ⟨i, apicId, generation, state⟩ := found
    have hslot := (slotAt_eq_ok.mp (tokenSlot_eq_ok.mp htoken).1).2.2
    dsimp only
    split_ifs with hpending hlast
    · obtain rfl : generation = 0xffffffff := hlast
      refine .inr ⟨i, _, _, hslot, .exhaust apicId hpending, rfl, ?_⟩
      rintro rfl
      simp at hpending
    · refine .inr ⟨i, _, _, hslot, .fail apicId generation hpending hlast, rfl, ?_⟩
      rintro rfl
      simp at hpending
    · exact .inl rfl

theorem rearmFailed_cases (table : ApStartupTable CPUS) (index : ℕ) :
    Effect table (.rearmFailed index) (table.rearmFailed index).2 := by
  unfold rearmFailed
  cases hslot : table.slotAt index with
  | error error => exact .inl rfl
  | ok found =>
    obtain ⟨i, apicId, generation, state⟩ := found
    dsimp only
    split_ifs with hstate
    · exact .inl rfl
    · obtain rfl := not_not.mp hstate
      exact .inr ⟨i, _, _, (slotAt_eq_ok.mp hslot).2.2, .rearm apicId generation, rfl,
        fun _ => ⟨index, rfl, hslot⟩⟩

/-- Everything that an operation can do to the table. A slot that has failed is left only by
    `rearm_failed`. -/
theorem step_cases (table : ApStartupTable CPUS) (op : Op) : Effect table op (table.step op) := by
  cases op with
  | begin index => exact begin_cases table index _
  | startupSent token vector => exact startupSent_cases table token vector _
  | startupSentWithImage token image => exact startupSentWithImage_cases table token image _
  | acknowledge token observedApicId => exact acknowledge_cases table token observedApicId _
  | fail token => exact fail_cases table token _
  | rearmFailed index => exact rearmFailed_cases table index

/-! ## Single use -/

/-- The slot of the token has moved on, or its startup is over for good. -/
def Spent (token : ApStartupToken) (table : ApStartupTable CPUS) : Prop :=
  ∀ i slot, i.val = token.slot.toNat → table.slots i = some slot →
    token.generation < slot.generation ∨ slot.generation = token.generation ∧
      (slot.state = .online ∨ slot.state = .failed ∧ slot.generation = 0xffffffff)

theorem lt_add_one {generation : UInt32} (h : generation ≠ 0xffffffff) :
    generation < generation + 1 := by
  have hne : generation.toNat ≠ (0xffffffff : UInt32).toNat := fun heq => h (UInt32.toNat_inj.mp heq)
  have hlt := generation.toNat_lt
  have hlast : (0xffffffff : UInt32).toNat = 4294967295 := rfl
  rw [UInt32.lt_iff_toNat_lt, UInt32.toNat_add, UInt32.toNat_one, Nat.mod_eq_of_lt (by omega)]
  omega

/-- **Step lemma.** A spent token stays spent, unless a slot is rearmed at the last
    generation. -/
theorem step_spent {token : ApStartupToken} {table : ApStartupTable CPUS}
    (h : Spent token table) {op : Op} (hop : table.Rearmable op) : Spent token (table.step op) := by
  rcases table.step_cases op with heq | ⟨j, slot, slot', hslot, htransition, heq, hfailed⟩
  · rwa [heq]
  · rw [heq]
    intro i found hi hfound
    by_cases hij : i = j
    · subst hij
      obtain rfl : slot' = found := by
        have hself : (table.setSlot i slot').slots i = some slot' := Function.update_self _ _ _
        exact Option.some.inj (hself.symm.trans hfound)
      have hbefore := h i slot hi hslot
      cases htransition with
      | begin apicId generation => simpa using hbefore
      | startupSent apicId generation => simpa using hbefore
      | acknowledge apicId generation =>
        rcases hbefore with hlt | ⟨-, hstate⟩
        · exact .inl hlt
        · simp at hstate
      | fail apicId generation hstate hlast =>
        rcases hbefore with hlt | ⟨heq, -⟩
        · exact .inl (UInt32.lt_trans hlt (lt_add_one hlast))
        · exact .inl (heq ▸ lt_add_one hlast)
      | exhaust apicId hstate =>
        rcases hbefore with hlt | ⟨heq, -⟩
        · exact .inl hlt
        · exact .inr ⟨heq, .inr ⟨rfl, rfl⟩⟩
      | rearm apicId generation =>
        obtain ⟨index, rfl, hindex⟩ := hfailed rfl
        have hlast := hop i _ hindex
        rcases hbefore with hlt | ⟨-, hstate⟩
        · exact .inl hlt
        · simp only [reduceCtorEq, true_and, false_or] at hstate
          exact absurd hstate hlast
    · refine h i found hi ?_
      rw [← hfound]
      exact (Function.update_of_ne hij _ _).symm

/-- **Run lemma.** A spent token stays spent over runs. -/
theorem run_spent {token : ApStartupToken} {table : ApStartupTable CPUS} (h : Spent token table)
    {ops : List Op} (hops : Along step Rearmable table ops) :
    Spent token (run step table ops) := by
  induction ops generalizing table with
  | nil => exact h
  | cons op ops ih => exact ih (step_spent h hops.1) hops.2

/-- A token is spent by the operation that ends its startup. -/
theorem spent_of_spends {token : ApStartupToken} {table : ApStartupTable CPUS} {op : Op}
    (h : table.Spends op token) : Spent token (table.step op) := by
  obtain ⟨i, slot, slot', htoken, hopen, hslot', hfinal⟩ := h
  obtain ⟨hslotAt, hgeneration⟩ := tokenSlot_eq_ok.mp htoken
  obtain ⟨hi, -, hslot⟩ := slotAt_eq_ok.mp hslotAt
  intro i' found hi' hfound
  obtain rfl : i = i' := Fin.ext (hi.trans hi'.symm)
  obtain rfl : slot' = found := Option.some.inj (hslot'.symm.trans hfound)
  have hkept : (table.step op).slots i ≠ some slot := by
    intro heq
    obtain rfl := Option.some.inj (hslot'.symm.trans heq)
    exact hopen hfinal
  rcases table.step_cases op with heq | ⟨j, before, after, hbefore, htransition, heq, -⟩
  · rw [heq] at hkept
    exact absurd hslot hkept
  · by_cases hij : i = j
    · subst hij
      obtain rfl := Option.some.inj (hbefore.symm.trans hslot)
      obtain rfl : after = slot' := by
        rw [heq] at hslot'
        exact Option.some.inj ((Function.update_self _ _ _ : (table.setSlot i after).slots i =
          some after).symm.trans hslot')
      cases htransition with
      | begin apicId generation => simp [ApState.Final] at hfinal
      | startupSent apicId generation => simp [ApState.Final] at hfinal
      | acknowledge apicId generation => exact .inr ⟨hgeneration, .inl rfl⟩
      | fail apicId generation hstate hlast => exact .inl (hgeneration ▸ lt_add_one hlast)
      | exhaust apicId hstate => exact .inr ⟨hgeneration, .inr ⟨rfl, rfl⟩⟩
      | rearm apicId generation => simp [ApState.Final] at hfinal
    · rw [heq] at hkept
      exact absurd ((Function.update_of_ne hij _ _).trans hslot) hkept

theorem spent_slot {token : ApStartupToken} {table : ApStartupTable CPUS} (h : Spent token table)
    {i : Fin CPUS} {slot : ApSlot} (htoken : table.tokenSlot token = .ok (i, slot)) :
    ApState.Final slot.state := by
  obtain ⟨hslotAt, hgeneration⟩ := tokenSlot_eq_ok.mp htoken
  obtain ⟨hi, -, hslot⟩ := slotAt_eq_ok.mp hslotAt
  rcases h i slot hi hslot with hlt | ⟨-, honline | ⟨hfailed, -⟩⟩
  · rw [hgeneration] at hlt
    exact absurd hlt (UInt32.lt_irrefl _)
  · exact .inr honline
  · exact .inl hfailed

theorem startupSent_of_spent {token : ApStartupToken} {table : ApStartupTable CPUS}
    (h : Spent token table) (vector : UInt8) :
    ∃ error, table.startupSent token vector = (.error error, table) := by
  unfold startupSent
  split_ifs
  · exact ⟨_, rfl⟩
  · cases htoken : table.tokenSlot token with
    | error error => exact ⟨error, rfl⟩
    | ok found =>
      have hfinal := spent_slot h htoken
      have hstate : found.2.state ≠ .initSent := by
        intro heq
        simp [ApState.Final, heq] at hfinal
      exact ⟨.invalidState, if_pos hstate⟩

/-- A spent token is refused. -/
theorem refuses_of_spent {token : ApStartupToken} {table : ApStartupTable CPUS}
    (h : Spent token table) : Refuses table token where
  startupSent := startupSent_of_spent h
  startupSentWithImage := by
    intro image
    obtain ⟨error, hsent⟩ := startupSent_of_spent h image.startupVector
    refine ⟨error, ?_⟩
    unfold startupSentWithImage
    rw [hsent]
  destination := by
    unfold destination
    cases htoken : table.tokenSlot token with
    | error error => exact ⟨error, rfl⟩
    | ok found =>
      have hfinal := spent_slot h htoken
      have hstate : ¬ (found.2.state = .initSent ∨ found.2.state = .startupSent) := by
        rintro (heq | heq) <;> simp [ApState.Final, heq] at hfinal
      refine ⟨.invalidState, ?_⟩
      show (do refuseIf _ _; return _ : Except TopologyError UInt32) = _
      rw [refuseIf, if_pos hstate]
      rfl
  acknowledge := by
    intro observed
    unfold acknowledge
    cases htoken : table.tokenSlot token with
    | error error => exact ⟨error, rfl⟩
    | ok found =>
      have hfinal := spent_slot h htoken
      have hstate : found.2.state ≠ .startupSent := by
        intro heq
        simp [ApState.Final, heq] at hfinal
      exact ⟨.invalidState, if_pos (.inl hstate)⟩
  fail := by
    unfold fail
    cases htoken : table.tokenSlot token with
    | error error => exact ⟨error, rfl⟩
    | ok found =>
      have hfinal := spent_slot h htoken
      have hstate : ¬ (found.2.state = .initSent ∨ found.2.state = .startupSent) := by
        rintro (heq | heq) <;> simp [ApState.Final, heq] at hfinal
      exact ⟨.invalidState, if_pos hstate⟩
  begin := by
    intro index
    unfold begin
    cases hslot : table.slotAt index with
    | error error => nofun
    | ok found =>
      obtain ⟨i, slot⟩ := found
      dsimp only
      split_ifs with hstate
      · nofun
      · intro heq
        obtain rfl := Except.ok.inj heq
        obtain ⟨hi, hindex, hfound⟩ := slotAt_eq_ok.mp hslot
        have hsmall : index % 65536 = index := by
          have hcount := table.count_le
          have hcapacity : CPUS ≤ 256 := table.capacity
          omega
        have htoken : table.tokenSlot ⟨UInt16.ofNat index, slot.generation⟩ = .ok (i, slot) := by
          refine tokenSlot_eq_ok.mpr ⟨?_, rfl⟩
          show table.slotAt (UInt16.ofNat index).toNat = _
          rw [UInt16.toNat_ofNat', hsmall]
          exact hslot
        have hfinal := spent_slot h htoken
        rw [ApState.Final, not_not.mp hstate] at hfinal
        simp at hfinal

/-- **Main theorem.** A token under which a slot has been moved to `Failed` or `Online` is refused
    ever after, in every run that rearms no slot at the last generation. -/
theorem tokens_single_use (table : ApStartupTable CPUS) (ops : List Op) (op : Op)
    (later : List Op) (token : ApStartupToken) (hspends : Spends (run step table ops) op token)
    (hlater : Along step Rearmable (run step table (ops ++ [op])) later) :
    Refuses (run step table (ops ++ op :: later)) token := by
  rw [run_append] at hlater ⊢
  exact refuses_of_spent (run_spent (spent_of_spends hspends) hlater)

/-! ## The last generation -/

theorem slotAt_setSlot {table : ApStartupTable CPUS} {index : ℕ} {i : Fin CPUS} {slot : ApSlot}
    (h : table.slotAt index = .ok (i, slot)) (slot' : ApSlot) :
    (table.setSlot i slot').slotAt index = .ok (i, slot') := by
  obtain ⟨hi, hindex, -⟩ := slotAt_eq_ok.mp h
  exact slotAt_eq_ok.mpr ⟨hi, hindex, Function.update_self _ _ _⟩

theorem begin_eq {table : ApStartupTable CPUS} {index : ℕ} {i : Fin CPUS}
    {apicId generation : UInt32} (h : table.slotAt index = .ok (i, ⟨apicId, generation, .offline⟩)) :
    table.begin index = (.ok ⟨UInt16.ofNat index, generation⟩,
      table.setSlot i ⟨apicId, generation, .initSent⟩) := by
  unfold begin
  rw [h]
  exact if_neg (not_not.mpr rfl)

theorem tokenSlot_of_slotAt {table : ApStartupTable CPUS} {token : ApStartupToken} {i : Fin CPUS}
    {slot : ApSlot} (h : table.slotAt token.slot.toNat = .ok (i, slot))
    (hgeneration : slot.generation = token.generation) : table.tokenSlot token = .ok (i, slot) :=
  tokenSlot_eq_ok.mpr ⟨h, hgeneration⟩

theorem fail_eq {table : ApStartupTable CPUS} {token : ApStartupToken} {i : Fin CPUS}
    {apicId : UInt32}
    (h : table.slotAt token.slot.toNat = .ok (i, ⟨apicId, token.generation, .initSent⟩)) :
    (table.fail token).2 = table.setSlot i ⟨apicId,
      if token.generation = 0xffffffff then 0xffffffff else token.generation + 1, .failed⟩ := by
  unfold fail
  rw [tokenSlot_of_slotAt h rfl]
  dsimp only
  rw [if_neg (not_not.mpr (.inl rfl))]
  split_ifs with hlast
  · show table.setSlot i ⟨apicId, token.generation, .failed⟩ = _
    rw [hlast]
  · rfl

theorem rearmFailed_eq {table : ApStartupTable CPUS} {index : ℕ} {i : Fin CPUS}
    {apicId generation : UInt32} (h : table.slotAt index = .ok (i, ⟨apicId, generation, .failed⟩)) :
    (table.rearmFailed index).2 = table.setSlot i ⟨apicId, generation, .offline⟩ := by
  unfold rearmFailed
  rw [h]
  exact congrArg Prod.snd (if_neg (not_not.mpr rfl))

/-- A startup that fails, and the retry. -/
def attempt (token : ApStartupToken) : List Op :=
  [.begin token.slot.toNat, .fail token, .rearmFailed token.slot.toNat]

theorem run_attempt {table : ApStartupTable CPUS} (token : ApStartupToken) {i : Fin CPUS}
    {apicId : UInt32}
    (h : table.slotAt token.slot.toNat = .ok (i, ⟨apicId, token.generation, .offline⟩)) :
    (run step table (attempt token)).slotAt token.slot.toNat = .ok (i, ⟨apicId,
      if token.generation = 0xffffffff then 0xffffffff else token.generation + 1, .offline⟩) := by
  have hbegin : table.step (.begin token.slot.toNat) =
      table.setSlot i ⟨apicId, token.generation, .initSent⟩ := congrArg Prod.snd (begin_eq h)
  have hsent := slotAt_setSlot h ⟨apicId, token.generation, .initSent⟩
  have hfail := fail_eq hsent
  have hfailed := slotAt_setSlot hsent ⟨apicId,
    if token.generation = 0xffffffff then 0xffffffff else token.generation + 1, .failed⟩
  rw [← hfail] at hfailed
  have hrearm := rearmFailed_eq hfailed
  have hoffline := slotAt_setSlot hfailed ⟨apicId,
    if token.generation = 0xffffffff then 0xffffffff else token.generation + 1, .offline⟩
  rw [← hrearm, ← hbegin] at hoffline
  exact hoffline

/-- A slot at the last generation that fails and is rearmed issues its token again. -/
theorem token_reissued {table : ApStartupTable CPUS} (token : ApStartupToken) {i : Fin CPUS}
    {apicId : UInt32} (hlast : token.generation = 0xffffffff)
    (h : table.slotAt token.slot.toNat = .ok (i, ⟨apicId, token.generation, .offline⟩)) :
    Spends (table.step (.begin token.slot.toNat)) (.fail token) token ∧
      ((run step table (attempt token)).begin token.slot.toNat).1 = .ok token := by
  constructor
  · have hsent := slotAt_setSlot h ⟨apicId, token.generation, .initSent⟩
    have hbegin : table.step (.begin token.slot.toNat) =
        table.setSlot i ⟨apicId, token.generation, .initSent⟩ := congrArg Prod.snd (begin_eq h)
    rw [hbegin]
    refine ⟨i, _, ⟨apicId, 0xffffffff, .failed⟩, tokenSlot_of_slotAt hsent rfl,
      by simp [ApState.Final], ?_, .inl rfl⟩
    show ((table.setSlot i _).fail token).2.slots i = _
    rw [fail_eq hsent, if_pos hlast]
    exact Function.update_self _ _ _
  · have hafter := run_attempt token h
    rw [if_pos hlast] at hafter
    rw [begin_eq hafter, UInt16.ofNat_toNat, ← hlast]

/-- The failures that bring a slot to the generation `n + 1`. -/
def attempts (slot : UInt16) (n : ℕ) : List Op :=
  (List.range n).flatMap fun k => attempt ⟨slot, UInt32.ofNat (k + 1)⟩

theorem run_attempts {table : ApStartupTable CPUS} (slot : UInt16) {i : Fin CPUS}
    {apicId : UInt32} (h : table.slotAt slot.toNat = .ok (i, ⟨apicId, 1, .offline⟩)) {n : ℕ}
    (hn : n < 4294967295) :
    (run step table (attempts slot n)).slotAt slot.toNat =
      .ok (i, ⟨apicId, UInt32.ofNat (n + 1), .offline⟩) := by
  induction n with
  | zero => exact h
  | succ n ih =>
    have hprefix := ih (by omega)
    have hgeneration : UInt32.ofNat (n + 1) ≠ 0xffffffff := by
      intro heq
      have hnat : (UInt32.ofNat (n + 1)).toNat = 4294967295 := congrArg UInt32.toNat heq
      rw [UInt32.toNat_ofNat', Nat.mod_eq_of_lt (by omega)] at hnat
      omega
    have hstep := run_attempt ⟨slot, UInt32.ofNat (n + 1)⟩ hprefix
    rw [if_neg hgeneration] at hstep
    unfold attempts
    rw [List.range_succ, List.flatMap_append, run_append, List.flatMap_singleton]
    rw [show UInt32.ofNat (n + 1 + 1) = UInt32.ofNat (n + 1) + 1 from UInt32.ofNat_add _ _]
    exact hstep

/-- The bootstrap processor and one other. -/
def twoProcessors : X86CpuTopology where
  cpus := [⟨0, 0, false⟩, ⟨1, 1, false⟩]
  localApicAddress := 0xfee00000
  addressOverridden := false
  length_le := by decide
  nodup_apicId := by decide
  nodup_firmwareId := by decide

/-- The table of `twoProcessors`. -/
def twoSlots : ApStartupTable 2 where
  slots := ![some ⟨0, 1, .online⟩, some ⟨1, 1, .offline⟩]
  count := 2
  count_le := le_rfl
  capacity := by decide

theorem new_twoProcessors : new 2 twoProcessors 0 = .ok twoSlots := by
  have hslots : (fun i : Fin 2 => twoProcessors.cpus[i.val]?.map fun cpu =>
      (⟨cpu.apicId, 1, if cpu.apicId = 0 then .online else .offline⟩ : ApSlot)) =
      twoSlots.slots := by
    decide
  unfold new
  rw [dif_neg (by decide)]
  simp only [hslots]
  rfl

theorem tokens_single_use_twoSlots :
    Refuses (run step twoSlots [.begin 1, .fail ⟨1, 1⟩, .rearmFailed 1, .begin 1]) ⟨1, 1⟩ :=
  tokens_single_use twoSlots [.begin 1] (.fail ⟨1, 1⟩) [.rearmFailed 1, .begin 1] ⟨1, 1⟩
    ⟨1, ⟨1, 1, .initSent⟩, ⟨1, 2, .failed⟩, rfl, by decide, rfl, .inl rfl⟩
    ⟨by rintro i slot h; cases h; decide, trivial, trivial⟩

/-- A processor that has failed at every generation is started again with the token of the last
    failure. -/
theorem token_not_single_use :
    ¬ ∀ (CPUS : ℕ) (topology : X86CpuTopology) (bspApicId : UInt32) (table : ApStartupTable CPUS),
      new CPUS topology bspApicId = .ok table →
      ∀ (ops : List Op) (op : Op) (later : List Op) (token : ApStartupToken),
        Spends (run step table ops) op token →
        Refuses (run step table (ops ++ op :: later)) token := by
  intro h
  obtain ⟨ops, hoffline⟩ : ∃ ops, (run step twoSlots ops).slotAt 1 =
      .ok (1, ⟨1, UInt32.ofNat (4294967294 + 1), .offline⟩) :=
    ⟨_, run_attempts 1 rfl (by decide)⟩
  obtain ⟨hspends, hreissued⟩ := token_reissued ⟨1, 0xffffffff⟩ rfl hoffline
  have hrefuses := h 2 twoProcessors 0 twoSlots new_twoProcessors (ops ++ [.begin 1])
    (.fail ⟨1, 0xffffffff⟩) [.rearmFailed 1] ⟨1, 0xffffffff⟩
    (by rw [run_append]; exact hspends)
  rw [List.append_assoc, run_append] at hrefuses
  exact hrefuses.begin 1 hreissued

end ApStartupTable

end Mrml.Arch
