import Mrml.Common.Lifecycle
import Mrml.Common.Run
import Mrml.Common.Slots
import Mrml.Gpu.Batch
import Mrml.Gpu.Queue
import Mrml.Gpu.Ring

/-!
# The dispatch watchdog

Model of `DispatchTable` and of the batch submission around it
(`crates/mrml-kernel/src/virtual_gpu.rs`, lines 79–262, 1076–1081, 2189–2227 and
2574–2704). Completion comes from the device, from a cancellation, from a timeout or
from a reset; the table keeps a history of its ids, which no operation reads.

The executor of a submission is outside this repository's model; `ExecutorOutcome` is what
it answers.

Results:
* `step_refines`: every operation is a sequence of lifecycle steps.
* `completions_exactly_once`: what holds of every id in every run.
-/

namespace Mrml.Gpu

/-- `InFlightDispatch` (lines 79–85). -/
structure InFlightDispatch where
  generation : UInt32
  requestId : UInt64
  deadline : UInt64
  occupied : Bool
deriving DecidableEq

/-- `InFlightDispatch::EMPTY` (lines 88–93). -/
def InFlightDispatch.empty : InFlightDispatch := ⟨1, 0, 0, false⟩

/-- `invalidate_dispatch` (lines 257–262). -/
def InFlightDispatch.invalidate (entry : InFlightDispatch) : InFlightDispatch :=
  ⟨succGeneration entry.generation, 0, 0, false⟩

/-- `DispatchTable` (lines 99–101), with the history of its ids. -/
structure DispatchTable (N : ℕ) where
  entries : Fin N → InFlightDispatch
  history : List (HandleEvent UInt64)

/-- An id as a handle. -/
def DispatchId.handle (id : DispatchId) : Handle := ⟨id.slot, id.generation⟩

/-- `PreparedGpuDispatch` (lines 2190–2194). -/
structure PreparedGpuDispatch where
  requestId : UInt64
  dispatchId : DispatchId
  dispatch : Dispatch

/-- What the executor of a batch answers (lines 2220–2227): `Ok(true)`, `Ok(false)` or an
    error. -/
inductive ExecutorOutcome
  | accepted
  | rejected
  | uncertain
deriving DecidableEq

/-- `GpuLifecycleError` (lines 2213–2217), and `GpuSubmitError` (lines 2207–2210), which
    has its last two members. -/
inductive GpuLifecycleError
  | invalidState (error : GpuError)
  | rejected
  | uncertain
deriving DecidableEq

/-- A completion with the frame it was written as. -/
abbrev Output := GpuCompletion × List UInt8

/-- `GpuCompletionSender::ensure_capacity` (lines 1076–1081). -/
def GpuCompletionSender.ensureCapacity (sender : Endpoint) (count : ℕ) : Except GpuError Unit :=
  match checkedAdd64 sender.nextSequence (UInt64.ofNat count) with
  | some _ => .ok ()
  | none => .error .sequenceExhausted

namespace DispatchTable

variable {N : ℕ}

/-- `DispatchTable::new` (lines 104–108). -/
def new (N : ℕ) : DispatchTable N := ⟨fun _ => .empty, []⟩

/-- `DispatchTable::begin` (lines 110–139). -/
def begin (table : DispatchTable N) (requestId now deadline : UInt64) :
    Except GpuError DispatchId × DispatchTable N :=
  if requestId = 0 ∨ deadline ≤ now then (.error .invalidDeadline, table)
  else if (List.finRange N).any fun i =>
      (table.entries i).occupied && (table.entries i).requestId == requestId then
    (.error .duplicateRequest, table)
  else
    match firstSlot fun i => !(table.entries i).occupied && (table.entries i).generation != 0 with
    | none => (.error .dispatchTableFull, table)
    | some i =>
      let id : DispatchId := ⟨UInt32.ofNat i, (table.entries i).generation⟩
      (.ok id,
        ⟨Function.update table.entries i
          { table.entries i with requestId, deadline, occupied := true },
        table.history ++ [.minted id.handle requestId]⟩)

/-- The slot of a live id (lines 232–236 and 239–243). -/
def lookup (table : DispatchTable N) (id : DispatchId) : Option (Fin N) :=
  (slotAt id.slot).filter fun i =>
    (table.entries i).occupied && (table.entries i).generation == id.generation

/-- `DispatchTable::contains` (lines 232–236). -/
def contains (table : DispatchTable N) (id : DispatchId) : Bool := (table.lookup id).isSome

/-- `DispatchTable::remove` (lines 238–247); `event` is how the id ends. -/
def remove (table : DispatchTable N) (id : DispatchId) (event : UInt64 → HandleEvent UInt64) :
    Except GpuError UInt64 × DispatchTable N :=
  match table.lookup id with
  | none => (.error .invalidDispatch, table)
  | some i =>
    let requestId := (table.entries i).requestId
    (.ok requestId, ⟨Function.update table.entries i (table.entries i).invalidate,
      table.history ++ [event requestId]⟩)

/-- `DispatchTable::complete` (lines 141–143). -/
def complete (table : DispatchTable N) (id : DispatchId) :
    Except GpuError UInt64 × DispatchTable N :=
  table.remove id (.completed id.handle)

/-- `DispatchTable::cancel` (lines 145–147). -/
def cancel (table : DispatchTable N) (id : DispatchId) : Except GpuError UInt64 × DispatchTable N :=
  table.remove id fun _ => .dropped id.handle

/-- The loop of `expire` (lines 157–169). -/
def expireLoop (now : UInt64) : List (Fin N) → DispatchTable N → DispatchTable N
  | [], table => table
  | i :: slots, table =>
    let entry := table.entries i
    if entry.occupied && entry.deadline ≤ now then
      expireLoop now slots ⟨Function.update table.entries i entry.invalidate,
        table.history ++ [.dropped ⟨UInt32.ofNat i, entry.generation⟩]⟩
    else expireLoop now slots table

/-- `DispatchTable::expire` (lines 152–171), whose callback sees the ids that the history
    gets. -/
def expire (table : DispatchTable N) (now : UInt64) : DispatchTable N :=
  expireLoop now (List.finRange N) table

/-- The loop of `expire_with_completions` (lines 187–202) and of
    `reset_with_completions` (lines 213–228): every occupied entry that is `due` is retired
    and completed with `status`. -/
def retireLoop (due : InFlightDispatch → Bool) (status : GpuCompletionStatus) :
    List (Fin N) → DispatchTable N → Endpoint → List Output →
      Except GpuError Unit × DispatchTable N × Endpoint × List Output
  | [], table, sender, outputs => (.ok (), table, sender, outputs)
  | i :: slots, table, sender, outputs =>
    let entry := table.entries i
    if entry.occupied && due entry then
      let dispatch : DispatchId := ⟨UInt32.ofNat i, entry.generation⟩
      match GpuCompletion.new entry.requestId dispatch status with
      | .error error => (.error error, table, sender, outputs)
      | .ok completion =>
        match GpuCompletionSender.encode sender completion QueueMessage.zero.toList with
        | (.error error, sender, _) => (.error error, table, sender, outputs)
        | (.ok (), sender, message) =>
          retireLoop due status slots
            ⟨Function.update table.entries i entry.invalidate,
              table.history ++ [.completed dispatch.handle entry.requestId]⟩
            sender (outputs ++ [(completion, message)])
    else retireLoop due status slots table sender outputs

/-- The number of entries that are retired (lines 181–185 and 212). -/
def dueCount (table : DispatchTable N) (due : InFlightDispatch → Bool) (slots : List (Fin N)) : ℕ :=
  slots.countP fun i => (table.entries i).occupied && due (table.entries i)

/-- What `expire_with_completions` and `reset_with_completions` have in common. -/
def retireWithCompletions (table : DispatchTable N) (due : InFlightDispatch → Bool)
    (status : GpuCompletionStatus) (sender : Endpoint) :
    Except GpuError ℕ × DispatchTable N × Endpoint × List Output :=
  let count := table.dueCount due (List.finRange N)
  match GpuCompletionSender.ensureCapacity sender count with
  | .error error => (.error error, table, sender, [])
  | .ok () =>
    match retireLoop due status (List.finRange N) table sender [] with
    | (.error error, table, sender, outputs) => (.error error, table, sender, outputs)
    | (.ok (), table, sender, outputs) => (.ok count, table, sender, outputs)

/-- `DispatchTable::expire_with_completions` (lines 175–203). -/
def expireWithCompletions (table : DispatchTable N) (now : UInt64) (sender : Endpoint) :
    Except GpuError ℕ × DispatchTable N × Endpoint × List Output :=
  table.retireWithCompletions (fun entry => entry.deadline ≤ now) .timedOut sender

/-- `DispatchTable::reset_with_completions` (lines 207–230). -/
def resetWithCompletions (table : DispatchTable N) (sender : Endpoint) :
    Except GpuError ℕ × DispatchTable N × Endpoint × List Output :=
  table.retireWithCompletions (fun _ => true) .deviceReset sender

/-! ## Batches -/

/-- The admission loop of `begin_batch` (lines 2586–2602), with `prepared` as it is when the
    loop ends. -/
def beginLoop (now deadline : UInt64) : List BatchedDispatch → List PreparedGpuDispatch →
    DispatchTable N → Except GpuError Unit × List PreparedGpuDispatch × DispatchTable N
  | [], prepared, table => (.ok (), prepared, table)
  | entry :: entries, prepared, table =>
    match table.begin entry.requestId now deadline with
    | (.error error, table) => (.error error, prepared, table)
    | (.ok dispatchId, table) =>
      beginLoop now deadline entries
        (prepared ++ [⟨entry.requestId, dispatchId, entry.dispatch⟩]) table

/-- The rollback of `begin_batch` (lines 2590–2592). -/
def cancelAll (prepared : List PreparedGpuDispatch) (table : DispatchTable N) : DispatchTable N :=
  prepared.foldl (fun table entry => (table.cancel entry.dispatchId).2) table

/-- `DispatchTable::begin_batch` (lines 2578–2604). -/
def beginBatch {M : ℕ} (table : DispatchTable N) (batch : GpuDispatchBatch M)
    (now deadline : UInt64) : Except GpuError (List PreparedGpuDispatch) × DispatchTable N :=
  if batch.entries = [] then (.error .emptyBatch, table)
  else
    match beginLoop now deadline batch.entries [] table with
    | (.error error, prepared, table) => (.error error, cancelAll prepared table)
    | (.ok (), prepared, table) => (.ok prepared, table)

/-- `DispatchTable::cancel_batch` (lines 2608–2614). -/
def cancelBatch (prepared : List PreparedGpuDispatch) (table : DispatchTable N) : DispatchTable N :=
  prepared.foldl
    (fun table entry =>
      if table.contains entry.dispatchId then (table.cancel entry.dispatchId).2 else table) table

/-- `submit_gpu_batch` (lines 2617–2633). -/
def submitGpuBatch (table : DispatchTable N) (prepared : List PreparedGpuDispatch)
    (outcome : ExecutorOutcome) : Except GpuLifecycleError Unit × DispatchTable N :=
  match outcome with
  | .accepted => (.ok (), table)
  | .rejected => (.error .rejected, cancelBatch prepared table)
  | .uncertain => (.error .uncertain, table)

/-- The completion loop of `submit_gpu_batch_with_completions` (lines 2667–2677). -/
def completeLoop : List PreparedGpuDispatch → DispatchTable N → Endpoint → List Output →
    Except GpuLifecycleError Unit × DispatchTable N × Endpoint × List Output
  | [], table, sender, outputs => (.ok (), table, sender, outputs)
  | entry :: entries, table, sender, outputs =>
    match table.complete entry.dispatchId with
    | (.error error, table) => (.error (.invalidState error), table, sender, outputs)
    | (.ok requestId, table) =>
      match GpuCompletion.new requestId entry.dispatchId .success with
      | .error error => (.error (.invalidState error), table, sender, outputs)
      | .ok completion =>
        match GpuCompletionSender.encode sender completion QueueMessage.zero.toList with
        | (.error error, sender, _) => (.error (.invalidState error), table, sender, outputs)
        | (.ok (), sender, message) =>
          completeLoop entries table sender (outputs ++ [(completion, message)])

/-- `submit_gpu_batch_with_completions` (lines 2638–2679). -/
def submitGpuBatchWithCompletions (table : DispatchTable N) (prepared : List PreparedGpuDispatch)
    (outcome : ExecutorOutcome) (sender : Endpoint) :
    Except GpuLifecycleError Unit × DispatchTable N × Endpoint × List Output :=
  if prepared.any fun entry => !table.contains entry.dispatchId then
    (.error (.invalidState .invalidDispatch), table, sender, [])
  else
    match GpuCompletionSender.ensureCapacity sender prepared.length with
    | .error error => (.error (.invalidState error), table, sender, [])
    | .ok () =>
      match outcome with
      | .rejected => (.error .rejected, cancelBatch prepared table, sender, [])
      | .uncertain => (.error .uncertain, table, sender, [])
      | .accepted => completeLoop prepared table sender []

/-- `submit_gpu_batch_to_completion_ring` (lines 2684–2704). The outputs are those that
    reach the ring. -/
def submitGpuBatchToCompletionRing {RING : ℕ} (table : DispatchTable N)
    (prepared : List PreparedGpuDispatch) (outcome : ExecutorOutcome) (sender : Endpoint)
    (ring : OwnedRing RING) :
    Except GpuLifecycleError Unit × DispatchTable N × Endpoint × OwnedRing RING × List Output :=
  match ring.ensureCapacity prepared.length with
  | .error error => (.error (.invalidState error), table, sender, ring, [])
  | .ok () =>
    match table.submitGpuBatchWithCompletions prepared outcome sender with
    | (.error error, table, sender, _) => (.error error, table, sender, ring, [])
    | (.ok (), table, sender, outputs) =>
      match ring.enqueueBatch (outputs.map fun output => QueueMessage.ofBytes output.2)
          prepared.length with
      | (.error error, ring) => (.error (.invalidState error), table, sender, ring, [])
      | (.ok (), ring) => (.ok (), table, sender, ring, outputs)

/-! ## The table as a ledger -/

variable {table table' : DispatchTable N}

/-- The request ids of the occupied entries. -/
def cells (table : DispatchTable N) (i : Fin N) : Cell UInt64 :=
  ⟨(table.entries i).generation,
    if (table.entries i).occupied then some (table.entries i).requestId else none⟩

/-- The table with its history. -/
def ledger (table : DispatchTable N) : HandleLedger N UInt64 := ⟨table.cells, table.history⟩

/-- Lifecycle steps; request ids are not zero. -/
abbrev Evolves (table table' : DispatchTable N) : Prop :=
  HandleLedger.Steps (· ≠ 0) table.ledger table'.ledger

theorem ledger_update (table : DispatchTable N) (i : Fin N) (entry : InFlightDispatch)
    (history : List (HandleEvent UInt64)) :
    ledger ⟨Function.update table.entries i entry, history⟩ = ⟨Function.update table.cells i
      ⟨entry.generation, if entry.occupied then some entry.requestId else none⟩, history⟩ := by
  refine congrArg₂ HandleLedger.mk (funext fun j => ?_) rfl
  by_cases hj : j = i
  · subst hj
    simp [cells]
  · simp [cells, hj]

theorem cells_of_occupied {i : Fin N} (h : (table.entries i).occupied = true) :
    table.cells i = ⟨(table.entries i).generation, some (table.entries i).requestId⟩ := by
  rw [cells, h]
  rfl

theorem lookup_eq_some {id : DispatchId} {i : Fin N} :
    table.lookup id = some i ↔ i.val = id.slot.toNat ∧ (table.entries i).occupied = true ∧
      (table.entries i).generation = id.generation := by
  rw [lookup, Option.filter_eq_some_iff, slotAt_eq_some, Bool.and_eq_true, beq_iff_eq]

theorem holds_of_lookup {id : DispatchId} {i : Fin N} (h : table.lookup id = some i) :
    Cell.Holds table.cells id.slot id.generation (table.entries i).requestId := by
  obtain ⟨hslot, hoccupied, hgeneration⟩ := lookup_eq_some.mp h
  exact ⟨i, hslot, by rw [cells_of_occupied hoccupied, hgeneration]⟩

/-- `slot as u32` keeps the slots of a table of at most `2^32` entries. -/
theorem toNat_slot (hN : N ≤ 2 ^ 32) (i : Fin N) : i.val = (UInt32.ofNat i).toNat := by
  rw [UInt32.toNat_ofNat', Nat.mod_eq_of_lt (by have := i.isLt; omega)]

/-- An invalidated entry is a completed id. -/
theorem step_completed {i : Fin N} (handle : Handle) (hslot : i.val = handle.slot.toNat)
    (hgeneration : (table.entries i).generation = handle.generation)
    (h : (table.entries i).occupied = true) :
    HandleLedger.Step (· ≠ 0) table.ledger
      (ledger ⟨Function.update table.entries i (table.entries i).invalidate,
        table.history ++ [.completed handle (table.entries i).requestId]⟩) := by
  rw [ledger_update]
  have hstep := HandleLedger.Step.complete (P := (· ≠ 0)) (L := table.ledger) i handle _ hslot
    (by rw [← hgeneration]; exact cells_of_occupied h)
  rwa [← hgeneration] at hstep

/-- An invalidated entry is a dropped id. -/
theorem step_dropped {i : Fin N} {handle : Handle} (hslot : i.val = handle.slot.toNat)
    (hgeneration : (table.entries i).generation = handle.generation)
    (h : (table.entries i).occupied = true) :
    HandleLedger.Step (· ≠ 0) table.ledger
      (ledger ⟨Function.update table.entries i (table.entries i).invalidate,
        table.history ++ [.dropped handle]⟩) := by
  rw [ledger_update]
  have hstep := HandleLedger.Step.drop (P := (· ≠ 0)) (L := table.ledger) i handle _ hslot
    (by rw [← hgeneration]; exact cells_of_occupied h)
  rwa [← hgeneration] at hstep

/-- Everything that `begin` can do. -/
theorem begin_cases (hN : N ≤ 2 ^ 32) (table : DispatchTable N) (requestId now deadline : UInt64) :
    (∃ error, table.begin requestId now deadline = (.error error, table)) ∨
    ∃ id table', table.begin requestId now deadline = (.ok id, table') ∧
      table'.history = table.history ++ [.minted id.handle requestId] ∧
      HandleLedger.Step (· ≠ 0) table.ledger table'.ledger := by
  unfold begin
  split_ifs with hinvalid hduplicate
  · exact .inl ⟨_, rfl⟩
  · exact .inl ⟨_, rfl⟩
  · split
    · exact .inl ⟨_, rfl⟩
    · next i hi =>
      have hfree := firstSlot_some hi
      rw [Bool.and_eq_true, Bool.not_eq_true', bne_iff_ne] at hfree
      refine .inr ⟨_, _, rfl, rfl, ?_⟩
      rw [ledger_update]
      refine HandleLedger.Step.mint (L := table.ledger) i
        ⟨UInt32.ofNat i, (table.entries i).generation⟩ requestId (toNat_slot hN i) ?_ hfree.2
        (fun hzero => hinvalid (.inl hzero))
      show table.cells i = _
      rw [cells, hfree.1]
      rfl

/-- Everything that `complete` can do. -/
theorem complete_cases (table : DispatchTable N) (id : DispatchId) :
    (table.lookup id = none ∧ table.complete id = (.error .invalidDispatch, table)) ∨
    ∃ requestId table', table.complete id = (.ok requestId, table') ∧
      Cell.Holds table.cells id.slot id.generation requestId ∧
      table'.history = table.history ++ [.completed id.handle requestId] ∧
      HandleLedger.Step (· ≠ 0) table.ledger table'.ledger := by
  unfold complete remove
  split
  · next hlookup => exact .inl ⟨hlookup, rfl⟩
  · next i hlookup =>
    obtain ⟨hslot, hoccupied, hgeneration⟩ := lookup_eq_some.mp hlookup
    exact .inr ⟨_, _, rfl, holds_of_lookup hlookup, rfl, step_completed _ hslot hgeneration hoccupied⟩

/-- Everything that `cancel` can do. -/
theorem cancel_cases (table : DispatchTable N) (id : DispatchId) :
    (table.lookup id = none ∧ table.cancel id = (.error .invalidDispatch, table)) ∨
    ∃ requestId table', table.cancel id = (.ok requestId, table') ∧
      Cell.Holds table.cells id.slot id.generation requestId ∧
      table'.history = table.history ++ [.dropped id.handle] ∧
      HandleLedger.Step (· ≠ 0) table.ledger table'.ledger := by
  unfold cancel remove
  split
  · next hlookup => exact .inl ⟨hlookup, rfl⟩
  · next i hlookup =>
    obtain ⟨hslot, hoccupied, hgeneration⟩ := lookup_eq_some.mp hlookup
    exact .inr ⟨_, _, rfl, holds_of_lookup hlookup, rfl, step_dropped hslot hgeneration hoccupied⟩

theorem begin_evolves (hN : N ≤ 2 ^ 32) (table : DispatchTable N)
    (requestId now deadline : UInt64) :
    Evolves table (table.begin requestId now deadline).2 := by
  rcases begin_cases hN table requestId now deadline with
    ⟨error, heq⟩ | ⟨id, table', heq, -, hstep⟩
  · rw [heq]
  · rw [heq]
    exact .single hstep

theorem complete_evolves (table : DispatchTable N) (id : DispatchId) :
    Evolves table (table.complete id).2 := by
  rcases table.complete_cases id with ⟨-, heq⟩ | ⟨requestId, table', heq, -, -, hstep⟩
  · rw [heq]
  · rw [heq]
    exact .single hstep

theorem cancel_evolves (table : DispatchTable N) (id : DispatchId) :
    Evolves table (table.cancel id).2 := by
  rcases table.cancel_cases id with ⟨-, heq⟩ | ⟨requestId, table', heq, -, -, hstep⟩
  · rw [heq]
  · rw [heq]
    exact .single hstep

theorem cancelAll_evolves (prepared : List PreparedGpuDispatch) (table : DispatchTable N) :
    Evolves table (cancelAll prepared table) := by
  induction prepared generalizing table with
  | nil => exact .refl
  | cons entry prepared ih => exact (table.cancel_evolves entry.dispatchId).trans (ih _)

theorem cancelBatch_evolves (prepared : List PreparedGpuDispatch) (table : DispatchTable N) :
    Evolves table (cancelBatch prepared table) := by
  induction prepared generalizing table with
  | nil => exact .refl
  | cons entry prepared ih =>
    have hrest := ih (if table.contains entry.dispatchId then (table.cancel entry.dispatchId).2
      else table)
    refine Relation.ReflTransGen.trans ?_ hrest
    split_ifs
    · exact table.cancel_evolves entry.dispatchId
    · exact .refl

theorem beginLoop_evolves (hN : N ≤ 2 ^ 32) (now deadline : UInt64) (entries : List BatchedDispatch)
    (prepared : List PreparedGpuDispatch) (table : DispatchTable N) :
    Evolves table (beginLoop now deadline entries prepared table).2.2 := by
  induction entries generalizing prepared table with
  | nil => exact .refl
  | cons entry entries ih =>
    rcases begin_cases hN table entry.requestId now deadline with
      ⟨error, heq⟩ | ⟨id, table', heq, -, hstep⟩
    · rw [beginLoop, heq]
    · rw [beginLoop, heq]
      exact Relation.ReflTransGen.head hstep (ih _ _)

theorem beginBatch_evolves (hN : N ≤ 2 ^ 32) {M : ℕ} (table : DispatchTable N)
    (batch : GpuDispatchBatch M) (now deadline : UInt64) :
    Evolves table (table.beginBatch batch now deadline).2 := by
  have hloop := beginLoop_evolves hN now deadline batch.entries [] table
  unfold beginBatch
  split_ifs
  · exact .refl
  · split
    · next heq =>
      rw [heq] at hloop
      exact hloop.trans (cancelAll_evolves _ _)
    · next heq =>
      rw [heq] at hloop
      exact hloop

/-- The prepared members have been minted with their request ids. -/
theorem beginLoop_minted (hN : N ≤ 2 ^ 32) (now deadline : UInt64) (entries : List BatchedDispatch)
    (prepared : List PreparedGpuDispatch) (table : DispatchTable N)
    (h : ∀ entry ∈ prepared, (entry.dispatchId.handle, entry.requestId) ∈ mintedIn table.history) :
    ∀ entry ∈ (beginLoop now deadline entries prepared table).2.1,
      (entry.dispatchId.handle, entry.requestId) ∈
        mintedIn (beginLoop now deadline entries prepared table).2.2.history := by
  induction entries generalizing prepared table with
  | nil => exact h
  | cons entry entries ih =>
    rcases begin_cases hN table entry.requestId now deadline with
      ⟨error, heq⟩ | ⟨id, table', heq, hhistory, -⟩
    · rw [beginLoop, heq]
      exact h
    · rw [beginLoop, heq]
      refine ih _ _ fun member hmember => ?_
      rw [hhistory, mintedIn, List.filterMap_append, List.mem_append]
      rcases List.mem_append.mp hmember with hmember | hmember
      · exact .inl (h member hmember)
      · obtain rfl := List.mem_singleton.mp hmember
        exact .inr (List.mem_singleton_self _)

theorem beginBatch_minted (hN : N ≤ 2 ^ 32) {M : ℕ} {table table' : DispatchTable N}
    {batch : GpuDispatchBatch M} {now deadline : UInt64} {prepared : List PreparedGpuDispatch}
    (h : table.beginBatch batch now deadline = (.ok prepared, table')) :
    ∀ entry ∈ prepared, (entry.dispatchId.handle, entry.requestId) ∈ mintedIn table'.history := by
  have hloop := beginLoop_minted hN now deadline batch.entries [] table (fun _ hmem => nomatch hmem)
  unfold beginBatch at h
  split_ifs at h
  · cases h
  · split at h
    · cases h
    · next heq =>
      rw [heq] at hloop
      cases h
      exact hloop

theorem expireLoop_evolves (hN : N ≤ 2 ^ 32) (now : UInt64) (slots : List (Fin N))
    (table : DispatchTable N) : Evolves table (expireLoop now slots table) := by
  induction slots generalizing table with
  | nil => exact .refl
  | cons i slots ih =>
    rw [expireLoop]
    split_ifs with hdue
    · rw [Bool.and_eq_true] at hdue
      exact Relation.ReflTransGen.head (step_dropped (toNat_slot hN i) rfl hdue.1) (ih _)
    · exact ih table

/-! ## Completions -/

theorem occupied_ne_zero (hinv : table.ledger.Inv (· ≠ 0)) {i : Fin N} (hN : N ≤ 2 ^ 32)
    (h : (table.entries i).occupied = true) :
    (table.entries i).requestId ≠ 0 ∧ (table.entries i).generation ≠ 0 := by
  have hcell := cells_of_occupied h
  constructor
  · exact hinv.good (hinv.live (h := ⟨UInt32.ofNat i, (table.entries i).generation⟩)
      ⟨i, toNat_slot hN i, hcell⟩)
  · refine hinv.sound i ?_
    show (table.cells i).value ≠ none
    rw [hcell]
    exact Option.some_ne_none _

/-- A completion is written if the sender has a number left. -/
theorem encode_completion (sender : Endpoint) (completion : GpuCompletion)
    (h : sender.nextSequence.toNat + 1 < 2 ^ 64) :
    ∃ message sender',
      GpuCompletionSender.encode sender completion QueueMessage.zero.toList =
        (.ok (), sender', message) ∧
      sender'.nextSequence.toNat = sender.nextSequence.toNat + 1 := by
  have hnext : (sender.nextSequence + 1).toNat = sender.nextSequence.toNat + 1 := by
    rw [UInt64.toNat_add, UInt64.toNat_one, Nat.mod_eq_of_lt h]
  obtain ⟨message, hsend⟩ := FrameFormat.send_of_write (f := completionFormat)
    sender (completion, QueueMessage.zero.toList)
    (Nat.le_of_eq Vector.length_toList.symm) hnext rfl
  exact ⟨message, _, (FrameFormat.sealFrame_of_send completionFormat_lawful Vector.length_toList
    hsend).1, hnext⟩

theorem new_completion {requestId : UInt64} (dispatch : DispatchId) (status : GpuCompletionStatus)
    (hrequest : requestId ≠ 0) (hgeneration : dispatch.generation ≠ 0) :
    ∃ completion, GpuCompletion.new requestId dispatch status = .ok completion ∧
      completion.dispatch = dispatch ∧ completion.requestId = requestId := by
  rw [GpuCompletion.new, dif_neg (not_or.mpr ⟨hrequest, hgeneration⟩)]
  exact ⟨_, rfl, rfl, rfl⟩

/-- The event of a completion. -/
def event (output : Output) : HandleEvent UInt64 :=
  .completed output.1.dispatch.handle output.1.requestId

/-- The loop goes through to its end: every entry that is due is retired and completed, in the
    order of the slots, and the other entries stay. -/
theorem retireLoop_spec (hN : N ≤ 2 ^ 32) (due : InFlightDispatch → Bool)
    (status : GpuCompletionStatus) {slots : List (Fin N)} (hslots : slots.Nodup)
    (hinv : table.ledger.Inv (· ≠ 0)) {sender : Endpoint} (outputs : List Output)
    (hroom : sender.nextSequence.toNat + table.dueCount due slots < 2 ^ 64) :
    ∃ table' sender' new, retireLoop due status slots table sender outputs =
        (.ok (), table', sender', outputs ++ new) ∧ Evolves table table' ∧
      table'.history = table.history ++ new.map event ∧
      new.length = table.dueCount due slots ∧
      (∀ i ∈ slots, ((table'.entries i).occupied && due (table'.entries i)) = false) ∧
      ∀ i ∉ slots, table'.entries i = table.entries i := by
  induction slots generalizing table sender outputs with
  | nil =>
    refine ⟨table, sender, [], by rw [List.append_nil]; rfl, .refl, (List.append_nil _).symm, rfl,
      (fun _ h => nomatch h), fun _ _ => rfl⟩
  | cons i slots ih =>
    obtain ⟨hi, hslots⟩ := List.nodup_cons.mp hslots
    by_cases hdue : ((table.entries i).occupied && due (table.entries i)) = true
    · have hoccupied := (Bool.and_eq_true_iff.mp hdue).1
      obtain ⟨hrequest, hgeneration⟩ := occupied_ne_zero hinv hN hoccupied
      obtain ⟨completion, hnew, hdispatch, hrequest'⟩ :=
        new_completion ⟨UInt32.ofNat i, (table.entries i).generation⟩ status hrequest
          hgeneration
      rw [dueCount, List.countP_cons, if_pos hdue] at hroom
      obtain ⟨message, sender₁, hencode, hsequence⟩ :=
        encode_completion sender completion (by omega)
      have hstep := step_completed
        ⟨UInt32.ofNat i, (table.entries i).generation⟩ (toNat_slot hN i) rfl hoccupied
      generalize htable : (⟨Function.update table.entries i (table.entries i).invalidate,
        table.history ++ [.completed ⟨UInt32.ofNat i, (table.entries i).generation⟩
          (table.entries i).requestId]⟩ : DispatchTable N) = table₁ at hstep
      have hother : ∀ j ≠ i, table₁.entries j = table.entries j := by
        intro j hj
        rw [← htable]
        exact Function.update_of_ne hj _ _
      have hcount : table₁.dueCount due slots = table.dueCount due slots := by
        refine List.countP_congr fun j hj => ?_
        rw [hother j (fun heq => hi (heq ▸ hj))]
      obtain ⟨table', sender', new, hloop, hevolves, hhistory, hlength, hdone, hrest⟩ :=
        ih hslots (hstep.inv hinv) (outputs ++ [(completion, message)])
          (by rw [hcount, hsequence, dueCount]; omega)
      refine ⟨table', sender', (completion, message) :: new, ?_, .head hstep hevolves, ?_, ?_, ?_,
        ?_⟩
      · rw [retireLoop]
        dsimp only
        rw [if_pos hdue, hnew]
        dsimp only
        rw [hencode]
        dsimp only [DispatchId.handle]
        rw [htable, hloop, List.append_assoc, List.singleton_append]
      · rw [hhistory, List.map_cons, event, hdispatch, hrequest', ← htable, List.append_assoc]
        rfl
      · rw [List.length_cons, hlength, hcount, dueCount, dueCount, List.countP_cons, if_pos hdue]
      · refine List.forall_mem_cons.mpr ⟨?_, hdone⟩
        have hentry : table₁.entries i = (table.entries i).invalidate := by
          rw [← htable]
          exact Function.update_self _ _ _
        rw [hrest i hi, hentry]
        rfl
      · intro j hj
        rw [List.mem_cons, not_or] at hj
        rw [hrest j hj.2, hother j hj.1]
    · have hcount : table.dueCount due (i :: slots) = table.dueCount due slots := by
        rw [dueCount, List.countP_cons, if_neg hdue]
        rfl
      rw [hcount] at hroom ⊢
      obtain ⟨table', sender', new, hloop, hevolves, hhistory, hlength, hdone, hrest⟩ :=
        ih hslots hinv outputs hroom
      refine ⟨table', sender', new, ?_, hevolves, hhistory, hlength, ?_, ?_⟩
      · rw [retireLoop]
        dsimp only
        rw [if_neg hdue]
        exact hloop
      · refine List.forall_mem_cons.mpr ⟨?_, hdone⟩
        rw [hrest i hi]
        exact Bool.eq_false_of_not_eq_true hdue
      · intro j hj
        exact hrest j (fun hmem => hj (List.mem_cons_of_mem _ hmem))

/-- A sender with room for `count` numbers. -/
theorem room_of_ensureCapacity {sender : Endpoint} {count : ℕ} (hcount : count ≤ 2 ^ 32)
    (h : GpuCompletionSender.ensureCapacity sender count = .ok ()) :
    sender.nextSequence.toNat + count < 2 ^ 64 := by
  unfold GpuCompletionSender.ensureCapacity at h
  split at h
  · next total htotal =>
    have hlt := total.toNat_lt
    rw [checkedAdd64_eq_some, UInt64.toNat_ofNat', Nat.mod_eq_of_lt (by omega)] at htotal
    omega
  · cases h

/-- `expire_with_completions` and `reset_with_completions` either refuse before they change
    anything, or retire and complete every entry that is due. -/
def AllOrNothing (table : DispatchTable N) (due : InFlightDispatch → Bool) (sender : Endpoint)
    (result : Except GpuError ℕ × DispatchTable N × Endpoint × List Output) : Prop :=
  (∃ error, result = (.error error, table, sender, [])) ∨
  ∃ table' sender' outputs, result = (.ok outputs.length, table', sender', outputs) ∧
    outputs.length = table.dueCount due (List.finRange N) ∧
    ∀ i, ((table'.entries i).occupied && due (table'.entries i)) = false

theorem retireWithCompletions_spec (hN : N ≤ 2 ^ 32) (due : InFlightDispatch → Bool)
    (status : GpuCompletionStatus) (hinv : table.ledger.Inv (· ≠ 0)) (sender : Endpoint) :
    AllOrNothing table due sender (table.retireWithCompletions due status sender) ∧
      ∃ result table' sender' outputs,
        table.retireWithCompletions due status sender = (result, table', sender', outputs) ∧
        Evolves table table' ∧ table'.history = table.history ++ outputs.map event := by
  unfold retireWithCompletions
  dsimp only
  split
  · exact ⟨.inl ⟨_, rfl⟩, _, _, _, _, rfl, .refl, (List.append_nil _).symm⟩
  · next hcapacity =>
    have hle : table.dueCount due (List.finRange N) ≤ 2 ^ 32 := by
      have hlength := List.countP_le_length (l := List.finRange N)
        (p := fun i => (table.entries i).occupied && due (table.entries i))
      rw [List.length_finRange] at hlength
      exact hlength.trans hN
    obtain ⟨table', sender', new, hloop, hevolves, hhistory, hlength, hdone, -⟩ :=
      retireLoop_spec hN due status (List.nodup_finRange N) hinv []
        (room_of_ensureCapacity hle hcapacity)
    rw [List.nil_append] at hloop
    rw [hloop]
    dsimp only
    rw [← hlength]
    exact ⟨.inr ⟨table', sender', new, rfl, hlength, fun i => hdone i (List.mem_finRange i)⟩,
      _, _, _, _, rfl, hevolves, hhistory⟩

/-- What an operation with outputs does: lifecycle steps, among whose events are its
    completions. -/
def Completes (table table' : DispatchTable N) (outputs : List Output) : Prop :=
  Evolves table table' ∧
    ∃ events, table'.history = table.history ++ events ∧ (outputs.map event).Sublist events

theorem Completes.of_evolves (h : Evolves table table') : Completes table table' [] := by
  obtain ⟨events, hevents⟩ := h.events
  exact ⟨h, events, hevents.symm, List.nil_sublist _⟩

theorem completeLoop_completes (entries : List PreparedGpuDispatch) (table : DispatchTable N)
    (sender : Endpoint) (outputs : List Output) :
    ∃ result table' sender' new, completeLoop entries table sender outputs =
      (result, table', sender', outputs ++ new) ∧ Completes table table' new := by
  induction entries generalizing table sender outputs with
  | nil =>
    exact ⟨_, table, sender, [], by rw [List.append_nil]; rfl, .of_evolves .refl⟩
  | cons entry entries ih =>
    rcases table.complete_cases entry.dispatchId with
      ⟨-, heq⟩ | ⟨requestId, table₁, heq, -, hhistory, hstep⟩
    · rw [completeLoop, heq]
      exact ⟨_, table, sender, [], by rw [List.append_nil], .of_evolves .refl⟩
    · rw [completeLoop, heq]
      dsimp only
      split
      · exact ⟨_, table₁, sender, [], by rw [List.append_nil], .of_evolves (.single hstep)⟩
      · next completion hnew =>
        split
        · exact ⟨_, table₁, _, [], by rw [List.append_nil], .of_evolves (.single hstep)⟩
        · next sender₁ message hencode =>
          obtain ⟨result, table', sender', new, hloop, hevolves, events, hevents, hsublist⟩ :=
            ih table₁ sender₁ (outputs ++ [(completion, message)])
          have hcompletion : event (completion, message) =
              .completed entry.dispatchId.handle requestId := by
            unfold GpuCompletion.new at hnew
            split_ifs at hnew
            obtain rfl := Except.ok.inj hnew
            rfl
          refine ⟨result, table', sender', (completion, message) :: new, ?_, .head hstep hevolves,
            .completed entry.dispatchId.handle requestId :: events, ?_, ?_⟩
          · rw [hloop, List.append_assoc, List.singleton_append]
          · rw [hevents, hhistory, List.append_assoc, List.singleton_append]
          · rw [List.map_cons, hcompletion]
            exact hsublist.cons_cons _

theorem submitWithCompletions_completes (table : DispatchTable N)
    (prepared : List PreparedGpuDispatch) (outcome : ExecutorOutcome) (sender : Endpoint) :
    ∃ result table' sender' outputs,
      table.submitGpuBatchWithCompletions prepared outcome sender =
        (result, table', sender', outputs) ∧ Completes table table' outputs := by
  unfold submitGpuBatchWithCompletions
  split_ifs
  · exact ⟨_, _, _, _, rfl, .of_evolves .refl⟩
  · split
    · exact ⟨_, _, _, _, rfl, .of_evolves .refl⟩
    · cases outcome with
      | rejected => exact ⟨_, _, _, _, rfl, .of_evolves (cancelBatch_evolves _ _)⟩
      | uncertain => exact ⟨_, _, _, _, rfl, .of_evolves .refl⟩
      | accepted => exact completeLoop_completes prepared table sender []

theorem submitToCompletionRing_completes {RING : ℕ} (table : DispatchTable N)
    (prepared : List PreparedGpuDispatch) (outcome : ExecutorOutcome) (sender : Endpoint)
    (ring : OwnedRing RING) :
    ∃ result table' sender' ring' outputs,
      table.submitGpuBatchToCompletionRing prepared outcome sender ring =
        (result, table', sender', ring', outputs) ∧ Completes table table' outputs := by
  unfold submitGpuBatchToCompletionRing
  split
  · exact ⟨_, _, _, _, _, rfl, .of_evolves .refl⟩
  · obtain ⟨result, table', sender', outputs, heq, hcompletes⟩ :=
      table.submitWithCompletions_completes prepared outcome sender
    rw [heq]
    cases result with
    | error error => exact ⟨_, _, _, _, _, rfl, .of_evolves hcompletes.1⟩
    | ok u =>
      dsimp only
      split
      · exact ⟨_, _, _, _, _, rfl, .of_evolves hcompletes.1⟩
      · exact ⟨_, _, _, _, _, rfl, hcompletes⟩

end DispatchTable

/-! ## Runs -/

/-- The operations of the watchdog. A submission is for any batch of ids. -/
inductive WatchdogOp
  | begin (requestId now deadline : UInt64)
  | beginBatch {M : ℕ} (batch : GpuDispatchBatch M) (now deadline : UInt64)
  | complete (id : DispatchId)
  | cancel (id : DispatchId)
  | cancelBatch (prepared : List PreparedGpuDispatch)
  | expire (now : UInt64)
  | expireWithCompletions (now : UInt64) (sender : Endpoint)
  | resetWithCompletions (sender : Endpoint)
  | submit (prepared : List PreparedGpuDispatch) (outcome : ExecutorOutcome)
  | submitWithCompletions (prepared : List PreparedGpuDispatch) (outcome : ExecutorOutcome)
      (sender : Endpoint)
  | submitToCompletionRing {RING : ℕ} (prepared : List PreparedGpuDispatch)
      (outcome : ExecutorOutcome) (sender : Endpoint) (ring : OwnedRing RING)

/-- The table and the completions that have been written. -/
structure Watchdog (N : ℕ) where
  table : DispatchTable N
  delivered : List Output

namespace Watchdog

open DispatchTable

variable {N : ℕ}

/-- A new table. -/
def new (N : ℕ) : Watchdog N := ⟨.new N, []⟩

/-- The watchdog after an operation. -/
def step (s : Watchdog N) : WatchdogOp → Watchdog N
  | .begin requestId now deadline => { s with table := (s.table.begin requestId now deadline).2 }
  | .beginBatch batch now deadline => { s with table := (s.table.beginBatch batch now deadline).2 }
  | .complete id => { s with table := (s.table.complete id).2 }
  | .cancel id => { s with table := (s.table.cancel id).2 }
  | .cancelBatch prepared => { s with table := DispatchTable.cancelBatch prepared s.table }
  | .expire now => { s with table := s.table.expire now }
  | .expireWithCompletions now sender =>
    let (_, table, _, outputs) := s.table.expireWithCompletions now sender
    ⟨table, s.delivered ++ outputs⟩
  | .resetWithCompletions sender =>
    let (_, table, _, outputs) := s.table.resetWithCompletions sender
    ⟨table, s.delivered ++ outputs⟩
  | .submit prepared outcome => { s with table := (s.table.submitGpuBatch prepared outcome).2 }
  | .submitWithCompletions prepared outcome sender =>
    let (_, table, _, outputs) := s.table.submitGpuBatchWithCompletions prepared outcome sender
    ⟨table, s.delivered ++ outputs⟩
  | .submitToCompletionRing prepared outcome sender ring =>
    let (_, table, _, _, outputs) :=
      s.table.submitGpuBatchToCompletionRing prepared outcome sender ring
    ⟨table, s.delivered ++ outputs⟩

/-- The history and the table agree, and every delivered completion is an event of its own. -/
structure Inv (s : Watchdog N) : Prop where
  ledger : s.table.ledger.Inv (· ≠ 0)
  delivered : (s.delivered.map event).Sublist s.table.history

theorem new_inv : (new N).Inv where
  ledger := HandleLedger.Inv.init fun _ => rfl
  delivered := List.Sublist.refl []

/-- Every operation is a sequence of lifecycle steps, among whose events are the completions
    that it writes. -/
theorem step_refines (hN : N ≤ 2 ^ 32) {s : Watchdog N} (hinv : s.Inv) (op : WatchdogOp) :
    ∃ outputs, (s.step op).delivered = s.delivered ++ outputs ∧
      Completes s.table (s.step op).table outputs := by
  have hsilent : ∀ {table}, Evolves s.table table →
      ∃ outputs, s.delivered = s.delivered ++ outputs ∧ Completes s.table table outputs :=
    fun h => ⟨[], (List.append_nil _).symm, .of_evolves h⟩
  cases op with
  | begin requestId now deadline => exact hsilent (begin_evolves hN s.table requestId now deadline)
  | beginBatch batch now deadline =>
    exact hsilent (beginBatch_evolves hN s.table batch now deadline)
  | complete id => exact hsilent (s.table.complete_evolves id)
  | cancel id => exact hsilent (s.table.cancel_evolves id)
  | cancelBatch prepared => exact hsilent (cancelBatch_evolves prepared s.table)
  | expire now => exact hsilent (expireLoop_evolves hN now _ s.table)
  | expireWithCompletions now sender =>
    obtain ⟨-, result, table', sender', outputs, heq, hevolves, hhistory⟩ :=
      retireWithCompletions_spec hN (fun entry => entry.deadline ≤ now) .timedOut hinv.ledger sender
    rw [step, expireWithCompletions, heq]
    exact ⟨outputs, rfl, hevolves, _, hhistory, List.Sublist.refl _⟩
  | resetWithCompletions sender =>
    obtain ⟨-, result, table', sender', outputs, heq, hevolves, hhistory⟩ :=
      retireWithCompletions_spec hN (fun _ => true) .deviceReset hinv.ledger sender
    rw [step, resetWithCompletions, heq]
    exact ⟨outputs, rfl, hevolves, _, hhistory, List.Sublist.refl _⟩
  | submit prepared outcome =>
    refine hsilent ?_
    cases outcome with
    | accepted => exact .refl
    | rejected => exact cancelBatch_evolves prepared s.table
    | uncertain => exact .refl
  | submitWithCompletions prepared outcome sender =>
    obtain ⟨result, table', sender', outputs, heq, hcompletes⟩ :=
      s.table.submitWithCompletions_completes prepared outcome sender
    rw [step, heq]
    exact ⟨outputs, rfl, hcompletes⟩
  | submitToCompletionRing prepared outcome sender ring =>
    obtain ⟨result, table', sender', ring', outputs, heq, hcompletes⟩ :=
      s.table.submitToCompletionRing_completes prepared outcome sender ring
    rw [step, heq]
    exact ⟨outputs, rfl, hcompletes⟩

theorem step_inv (hN : N ≤ 2 ^ 32) {s : Watchdog N} (hinv : s.Inv) (op : WatchdogOp) :
    (s.step op).Inv := by
  obtain ⟨outputs, hdelivered, hevolves, events, hhistory, hsublist⟩ := step_refines hN hinv op
  refine ⟨hevolves.inv hinv.ledger, ?_⟩
  rw [hdelivered, hhistory, List.map_append]
  exact hinv.delivered.append hsublist

theorem run_inv (hN : N ≤ 2 ^ 32) {s : Watchdog N} (hinv : s.Inv) (ops : List WatchdogOp) :
    (run step s ops).Inv :=
  run_invariant (P := Inv) (fun _ op hs => step_inv hN hs op) hinv ops

/-- A run keeps the history of what was before it. -/
theorem run_history (hN : N ≤ 2 ^ 32) {s : Watchdog N} (hinv : s.Inv) (ops : List WatchdogOp) :
    s.table.history <+: (run step s ops).table.history := by
  induction ops generalizing s with
  | nil => exact List.prefix_refl _
  | cons op ops ih =>
    obtain ⟨outputs, -, hevolves, -⟩ := step_refines hN hinv op
    exact hevolves.events.trans (ih (step_inv hN hinv op))

/-- The table refuses an id that is not in it. -/
def Refuses (table : DispatchTable N) (id : DispatchId) : Prop :=
  table.contains id = false ∧ table.complete id = (.error .invalidDispatch, table) ∧
    table.cancel id = (.error .invalidDispatch, table) ∧
    ∀ prepared outcome sender, (∃ entry ∈ prepared, entry.dispatchId = id) →
      table.submitGpuBatchWithCompletions prepared outcome sender =
        (.error (.invalidState .invalidDispatch), table, sender, [])

theorem refuses_of_lookup {table : DispatchTable N} {id : DispatchId}
    (h : table.lookup id = none) : Refuses table id := by
  have hcontains : table.contains id = false := by
    rw [contains, h]
    rfl
  refine ⟨hcontains, ?_, ?_, ?_⟩
  · rw [complete, remove, h]
  · rw [cancel, remove, h]
  · rintro prepared outcome sender ⟨entry, hmem, rfl⟩
    unfold submitGpuBatchWithCompletions
    refine if_pos (List.any_eq_true.mpr ⟨entry, hmem, ?_⟩)
    rw [hcontains]
    rfl

/-- A retired id is refused. -/
theorem Inv.refuses {s : Watchdog N} (hinv : s.Inv) {id : DispatchId}
    (h : id.handle ∈ retiredIn s.table.history) : Refuses s.table id := by
  refine refuses_of_lookup ?_
  cases hlookup : s.table.lookup id with
  | none => rfl
  | some i => exact absurd (holds_of_lookup hlookup) (hinv.ledger.not_holds_of_retired h _)

/-- A delivered completion is in the history. -/
theorem Inv.delivered_completed {s : Watchdog N} (hinv : s.Inv) :
    (s.delivered.map fun output => (output.1.dispatch.handle, output.1.requestId)).Sublist
      (completedIn s.table.history) := by
  have hsublist := hinv.delivered.filterMap HandleEvent.completed?
  rw [List.filterMap_map] at hsublist
  have hsome : (HandleEvent.completed? ∘ event) = fun output : Output =>
      some (output.1.dispatch.handle, output.1.requestId) := rfl
  rw [hsome, List.filterMap_eq_map'] at hsublist
  exact hsublist

/-- **Main theorem.** In every run, over every interleaving of the device, cancellations,
    timeouts and resets: an id ends at most once and gets at most one completion, which
    carries the request id that the id was minted with; once it has ended it is refused for
    ever; occupied entries have a request id and a generation, so that
    `expire_with_completions` and `reset_with_completions` are all-or-nothing. -/
theorem completions_exactly_once {N : ℕ} (hN : N ≤ 2 ^ 32) (ops : List WatchdogOp) :
    let s := run step (new N) ops
    -- what the history records of an operation's result
    (∀ requestId now deadline id table', s.table.begin requestId now deadline = (.ok id, table') →
      (id.handle, requestId) ∈ mintedIn table'.history) ∧
    (∀ (M : ℕ) (batch : GpuDispatchBatch M) now deadline prepared table',
      s.table.beginBatch batch now deadline = (.ok prepared, table') →
      ∀ entry ∈ prepared, (entry.dispatchId.handle, entry.requestId) ∈ mintedIn table'.history) ∧
    (∀ id requestId table', s.table.complete id = (.ok requestId, table') ∨
      s.table.cancel id = (.ok requestId, table') →
      (id.handle, requestId) ∈ mintedIn s.table.history ∧ id.handle ∈ retiredIn table'.history) ∧
    -- at most one completion, with the request id of the id
    (retiredIn s.table.history).Nodup ∧
    (s.delivered.map fun output => output.1.dispatch).Nodup ∧
    (∀ output ∈ s.delivered, output.1.dispatch.handle ∈ retiredIn s.table.history ∧
      (output.1.dispatch.handle, output.1.requestId) ∈ mintedIn s.table.history ∧
      ∀ requestId, (output.1.dispatch.handle, requestId) ∈ mintedIn s.table.history →
        requestId = output.1.requestId) ∧
    -- an id that has ended is never accepted again
    (∀ id : DispatchId, id.handle ∈ retiredIn s.table.history → ∀ later,
      Refuses (run step s later).table id) ∧
    -- the loops never fail part-way
    (∀ i, (s.table.entries i).occupied = true →
      (s.table.entries i).requestId ≠ 0 ∧ (s.table.entries i).generation ≠ 0) ∧
    (∀ now sender, AllOrNothing s.table (fun entry => entry.deadline ≤ now) sender
      (s.table.expireWithCompletions now sender)) ∧
    ∀ sender, AllOrNothing s.table (fun _ => true) sender
      (s.table.resetWithCompletions sender) := by
  intro s
  have hinv : s.Inv := run_inv hN new_inv ops
  refine ⟨?_, ?_, ?_, hinv.ledger.retired_nodup, ?_, ?_, ?_, ?_, ?_, ?_⟩
  · intro requestId now deadline id table' h
    rcases begin_cases hN s.table requestId now deadline with
      ⟨error, heq⟩ | ⟨id', table₁, heq, hhistory, -⟩
    · rw [heq] at h
      cases h
    · rw [heq] at h
      cases h
      rw [hhistory, mintedIn, List.filterMap_append]
      exact List.mem_append_right _ (List.mem_singleton_self _)
  · intro M batch now deadline prepared table' h
    exact beginBatch_minted hN h
  · rintro id requestId table' (h | h)
    · rcases s.table.complete_cases id with
        ⟨-, heq⟩ | ⟨requestId', table₁, heq, hholds, hhistory, -⟩
      · rw [heq] at h
        cases h
      · rw [heq] at h
        cases h
        rw [hhistory, retiredIn, List.filterMap_append]
        exact ⟨hinv.ledger.live hholds, List.mem_append_right _ (List.mem_singleton_self _)⟩
    · rcases s.table.cancel_cases id with ⟨-, heq⟩ | ⟨requestId', table₁, heq, hholds, hhistory, -⟩
      · rw [heq] at h
        cases h
      · rw [heq] at h
        cases h
        rw [hhistory, retiredIn, List.filterMap_append]
        exact ⟨hinv.ledger.live hholds, List.mem_append_right _ (List.mem_singleton_self _)⟩
  · have hnodup := (hinv.delivered_completed.map Prod.fst).nodup hinv.ledger.completed_nodup
    rw [List.map_map] at hnodup
    refine List.Nodup.of_map DispatchId.handle ?_
    rw [List.map_map]
    exact hnodup
  · intro output hmem
    have hcompleted := hinv.delivered_completed.subset (List.mem_map_of_mem hmem)
    obtain ⟨hminted, hretired⟩ := hinv.ledger.completed hcompleted
    exact ⟨hretired, hminted, fun requestId h => hinv.ledger.value_unique h hminted⟩
  · intro id hretired later
    refine (run_inv hN hinv later).refuses ?_
    exact ((run_history hN hinv later).sublist.filterMap HandleEvent.retired?).subset hretired
  · intro i hoccupied
    exact occupied_ne_zero hinv.ledger hN hoccupied
  · intro now sender
    exact (retireWithCompletions_spec hN _ .timedOut hinv.ledger sender).1
  · intro sender
    exact (retireWithCompletions_spec hN _ .deviceReset hinv.ledger sender).1

/-- Two dispatches, one of which completes before the device is reset. -/
def oneCompleteOneReset : List WatchdogOp :=
  [.begin 7 0 10, .begin 8 0 20, .complete ⟨0, 1⟩,
    .resetWithCompletions ⟨1, 1, Vector.replicate 32 7⟩]

theorem completions_exactly_once_oneCompleteOneReset :
    (2 : ℕ) ≤ 2 ^ 32 ∧ ((run step (new 2) oneCompleteOneReset).delivered.map fun output =>
      output.1.dispatch).Nodup :=
  ⟨by decide, (completions_exactly_once (by decide) oneCompleteOneReset).2.2.2.2.1⟩

end Watchdog

end Mrml.Gpu
