import Mrml.Common.Generation
import Mrml.Common.Run
import Mrml.Common.Slots
import Mrml.Gpu.Command

/-!
# GPU sessions

Model of `VirtualGpuSession` (`crates/mrml-kernel/src/virtual_gpu.rs`, lines 1850–1968):
a table of buffers with generational identifiers, charged to a quota.

Results:
* `allocate_cases`, `free_cases`: everything that the two operations can do.
* `run_inv`: the allocated total is the sum of the live buffers, within the quota.
* `validateAccess_eq_ok_iff`: which accesses are accepted.
-/

namespace Mrml.Gpu

/-- `BufferMode` (lines 2051–2055). -/
inductive BufferMode
  | read
  | write
  | readWrite
deriving DecidableEq

/-- `BufferAccess` (lines 2104–2109). -/
structure BufferAccess where
  buffer : BufferId
  offset : UInt64
  length : UInt64
  mode : BufferMode
deriving DecidableEq

/-- `Buffer` (lines 1851–1855). -/
structure Buffer where
  generation : UInt32
  bytes : UInt64
  occupied : Bool
deriving DecidableEq

/-- `Buffer::EMPTY` (lines 1858–1862). -/
def Buffer.empty : Buffer := ⟨1, 0, false⟩

/-- `VirtualGpuSession` (lines 1868–1872). -/
structure VirtualGpuSession (BUFFERS : ℕ) where
  buffers : Fin BUFFERS → Buffer
  quota : UInt64
  allocated : UInt64

namespace VirtualGpuSession

variable {BUFFERS : ℕ}

/-- `VirtualGpuSession::new` (lines 1875–1881). -/
def new (BUFFERS : ℕ) (quota : UInt64) : VirtualGpuSession BUFFERS :=
  ⟨fun _ => Buffer.empty, quota, 0⟩

/-- `VirtualGpuSession::allocate` (lines 1883–1907). -/
def allocate (s : VirtualGpuSession BUFFERS) (bytes : UInt64) :
    Except GpuError BufferId × VirtualGpuSession BUFFERS :=
  if bytes = 0 then (.error .zeroAllocation, s)
  else
    match checkedAdd64 s.allocated bytes with
    | none => (.error .quotaExceeded, s)
    | some allocated =>
      if allocated > s.quota then (.error .quotaExceeded, s)
      else
        match h : firstSlot fun i => !(s.buffers i).occupied && (s.buffers i).generation != 0 with
        | none => (.error .bufferTableFull, s)
        | some i =>
          have hi := firstSlot_some h
          (.ok ⟨UInt32.ofNat i, (s.buffers i).generation, by simp at hi; exact hi.2⟩,
            { s with
              buffers := Function.update s.buffers i
                { s.buffers i with bytes, occupied := true }
              allocated })

/-- `buffer` and `buffer_mut` (lines 1942–1954): the slot of a live buffer. -/
def bufferSlot (s : VirtualGpuSession BUFFERS) (id : BufferId) : Option (Fin BUFFERS) :=
  (slotAt id.slot).filter fun i =>
    (s.buffers i).occupied && (s.buffers i).generation == id.generation

/-- `VirtualGpuSession::free` (lines 1909–1917). -/
def free (s : VirtualGpuSession BUFFERS) (id : BufferId) :
    Except GpuError UInt64 × VirtualGpuSession BUFFERS :=
  match s.bufferSlot id with
  | none => (.error .invalidBuffer, s)
  | some i =>
    (.ok (s.buffers i).bytes,
      { s with
        buffers := Function.update s.buffers i
          ⟨succGeneration (s.buffers i).generation, 0, false⟩
        allocated := s.allocated - (s.buffers i).bytes })

/-- `VirtualGpuSession::validate_access` (lines 1919–1929). -/
def validateAccess (s : VirtualGpuSession BUFFERS) (access : BufferAccess) :
    Except GpuError Unit :=
  match s.bufferSlot access.buffer with
  | none => .error .invalidBuffer
  | some i =>
    match checkedAdd64 access.offset access.length with
    | none => .error .rangeOverflow
    | some finish =>
      if access.length = 0 ∨ finish > (s.buffers i).bytes then .error .outOfBounds else .ok ()

/-! ## Sessions as generational tables -/

variable {s s' : VirtualGpuSession BUFFERS}

/-- The sizes of the live buffers. -/
def cells (s : VirtualGpuSession BUFFERS) (i : Fin BUFFERS) : Cell UInt64 :=
  ⟨(s.buffers i).generation, if (s.buffers i).occupied then some (s.buffers i).bytes else none⟩

theorem cells_update (s : VirtualGpuSession BUFFERS) (i : Fin BUFFERS) (buffer : Buffer)
    (allocated : UInt64) :
    cells { s with buffers := Function.update s.buffers i buffer, allocated } =
      Function.update s.cells i
        ⟨buffer.generation, if buffer.occupied then some buffer.bytes else none⟩ := by
  funext j
  by_cases hj : j = i
  · subst hj
    simp [cells]
  · simp [cells, hj]

theorem cells_eq_some {i : Fin BUFFERS} {generation : UInt32} {bytes : UInt64} :
    s.cells i = ⟨generation, some bytes⟩ ↔ s.buffers i = ⟨generation, bytes, true⟩ := by
  unfold cells
  obtain ⟨generation', bytes', occupied⟩ := s.buffers i
  cases occupied <;> simp

theorem bufferSlot_eq_some {id : BufferId} {i : Fin BUFFERS} :
    s.bufferSlot id = some i ↔
      i.val = id.slot.toNat ∧ s.buffers i = ⟨id.generation, (s.buffers i).bytes, true⟩ := by
  rw [bufferSlot, Option.filter_eq_some_iff, slotAt_eq_some, Bool.and_eq_true, beq_iff_eq]
  obtain ⟨generation, bytes, occupied⟩ := s.buffers i
  rw [Buffer.mk.injEq]
  tauto

/-- The id names an occupied buffer of `bytes` bytes. -/
def Live (s : VirtualGpuSession BUFFERS) (id : BufferId) (bytes : UInt64) : Prop :=
  ∃ i : Fin BUFFERS, i.val = id.slot.toNat ∧ s.buffers i = ⟨id.generation, bytes, true⟩

theorem live_iff_holds {id : BufferId} {bytes : UInt64} :
    s.Live id bytes ↔ Cell.Holds s.cells id.slot id.generation bytes :=
  exists_congr fun _ => and_congr_right fun _ => cells_eq_some.symm

theorem live_iff_bufferSlot {id : BufferId} {bytes : UInt64} :
    s.Live id bytes ↔ ∃ i, s.bufferSlot id = some i ∧ (s.buffers i).bytes = bytes := by
  refine exists_congr fun i => ?_
  rw [bufferSlot_eq_some, and_assoc]
  refine and_congr_right fun _ => ⟨fun h => ?_, fun ⟨h, hbytes⟩ => hbytes ▸ h⟩
  rw [h]
  exact ⟨rfl, rfl⟩

/-- The total of the cells is the sum over the occupied buffers. -/
theorem total_cells (s : VirtualGpuSession BUFFERS) :
    Cell.total UInt64.toNat s.cells =
      ∑ i, if (s.buffers i).occupied then (s.buffers i).bytes.toNat else 0 := by
  refine Finset.sum_congr rfl fun i _ => ?_
  show (if (s.buffers i).occupied then some (s.buffers i).bytes else none).elim 0 UInt64.toNat = _
  cases (s.buffers i).occupied <;> rfl

/-- Everything that `allocate` can do. -/
theorem allocate_cases (s : VirtualGpuSession BUFFERS) (bytes : UInt64) :
    (∃ error, s.allocate bytes = (.error error, s)) ∨
    ∃ (i : Fin BUFFERS) (id : BufferId) (s' : VirtualGpuSession BUFFERS),
      s.allocate bytes = (.ok id, s') ∧ bytes ≠ 0 ∧
      id.slot = UInt32.ofNat i ∧ id.generation = (s.cells i).generation ∧
      (s.cells i).value = none ∧
      s'.cells = Function.update s.cells i ⟨(s.cells i).generation, some bytes⟩ ∧
      s'.allocated.toNat = s.allocated.toNat + bytes.toNat ∧ s'.allocated ≤ s'.quota ∧
      s'.quota = s.quota := by
  unfold allocate
  split_ifs with hzero
  · exact .inl ⟨_, rfl⟩
  · split
    · exact .inl ⟨_, rfl⟩
    · next allocated hadd =>
      split_ifs with hquota
      · exact .inl ⟨_, rfl⟩
      · split
        · exact .inl ⟨_, rfl⟩
        · next i hi =>
          have hfree := firstSlot_some hi
          rw [Bool.and_eq_true, Bool.not_eq_true'] at hfree
          refine .inr ⟨i, _, _, rfl, hzero, rfl, rfl, ?_, ?_, checkedAdd64_eq_some.mp hadd,
            UInt64.not_lt.mp hquota, rfl⟩
          · show (if (s.buffers i).occupied then some (s.buffers i).bytes else none) = none
            rw [hfree.1]
            rfl
          · exact cells_update s i _ allocated

/-- Everything that `free` can do. -/
theorem free_cases (s : VirtualGpuSession BUFFERS) (id : BufferId) :
    (s.bufferSlot id = none ∧ s.free id = (.error .invalidBuffer, s)) ∨
    ∃ i s', s.bufferSlot id = some i ∧ s.free id = (.ok (s.buffers i).bytes, s') ∧
      s'.cells = Function.update s.cells i ⟨succGeneration (s.cells i).generation, none⟩ ∧
      s'.allocated = s.allocated - (s.buffers i).bytes ∧ s'.quota = s.quota := by
  unfold free
  split
  · next hnone => exact .inl ⟨hnone, rfl⟩
  · next i hi => exact .inr ⟨i, _, hi, rfl, cells_update s i _ _, rfl, rfl⟩

/-! ## Runs -/

/-- The operations of a session. -/
inductive Op
  | allocate (bytes : UInt64)
  | free (id : BufferId)

/-- The session after an operation. -/
def step (s : VirtualGpuSession BUFFERS) : Op → VirtualGpuSession BUFFERS
  | .allocate bytes => (s.allocate bytes).2
  | .free id => (s.free id).2

/-- The allocated total is the sum of the live buffers and within the quota. -/
structure Inv (quota : UInt64) (s : VirtualGpuSession BUFFERS) : Prop where
  sound : Cell.Sound s.cells
  total : s.allocated.toNat = Cell.total UInt64.toNat s.cells
  within : s.allocated ≤ s.quota
  quota_eq : s.quota = quota

theorem new_inv (quota : UInt64) : Inv quota (new BUFFERS quota) where
  sound := by
    intro i hi
    exact absurd rfl hi
  total := by
    show 0 = Cell.total UInt64.toNat _
    rw [Cell.total]
    exact (Finset.sum_eq_zero fun i _ => rfl).symm
  within := UInt64.zero_le
  quota_eq := rfl

/-- A live buffer is part of the total. -/
theorem Inv.bytes_le {quota : UInt64} (h : s.Inv quota) {id : BufferId} {i : Fin BUFFERS}
    (hi : s.bufferSlot id = some i) : (s.buffers i).bytes ≤ s.allocated := by
  have hcell := congrArg Cell.value (cells_eq_some.mpr (bufferSlot_eq_some.mp hi).2)
  have hclear := Cell.total_clear UInt64.toNat s.cells hcell 0
  rw [UInt64.le_iff_toNat_le, h.total]
  omega

theorem step_cells (s : VirtualGpuSession BUFFERS) (op : Op) :
    Cell.Step s.cells (s.step op).cells := by
  cases op with
  | allocate bytes =>
    rcases s.allocate_cases bytes with ⟨error, heq⟩ | ⟨i, id, s', heq, -, -, hgeneration, hfree,
      hcells, -⟩
    · rw [step, heq]
      exact .stay
    · rw [step, heq]
      dsimp only
      rw [hcells]
      exact .fill i bytes hfree (hgeneration ▸ id.generation_ne)
  | free id =>
    rcases s.free_cases id with ⟨-, heq⟩ | ⟨i, s', hi, heq, hcells, -⟩
    · rw [step, heq]
      exact .stay
    · rw [step, heq]
      dsimp only
      rw [hcells]
      refine .clear i ?_
      rw [cells_eq_some.mpr (bufferSlot_eq_some.mp hi).2]
      exact Option.some_ne_none _

theorem step_inv {quota : UInt64} (h : s.Inv quota) (op : Op) : (s.step op).Inv quota := by
  have hsound := (s.step_cells op).sound h.sound
  cases op with
  | allocate bytes =>
    rcases s.allocate_cases bytes with ⟨error, heq⟩ | ⟨i, id, s', heq, -, -, -, hfree, hcells,
      hallocated, hwithin, hquota⟩
    · rw [step, heq]
      exact h
    · rw [step, heq] at hsound ⊢
      refine ⟨hsound, ?_, hwithin, hquota.trans h.quota_eq⟩
      rw [hallocated, h.total, hcells, Cell.total_fill UInt64.toNat _ hfree]
  | free id =>
    rcases s.free_cases id with ⟨-, heq⟩ | ⟨i, s', hi, heq, hcells, hallocated, hquota⟩
    · rw [step, heq]
      exact h
    · rw [step, heq] at hsound ⊢
      have hcell := congrArg Cell.value (cells_eq_some.mpr (bufferSlot_eq_some.mp hi).2)
      have hclear := Cell.total_clear UInt64.toNat s.cells hcell
        (succGeneration (s.cells i).generation)
      have hle := h.bytes_le hi
      have hsub : s'.allocated.toNat = s.allocated.toNat - (s.buffers i).bytes.toNat := by
        rw [hallocated, UInt64.toNat_sub_of_le _ _ hle]
      refine ⟨hsound, ?_, ?_, hquota.trans h.quota_eq⟩
      · show s'.allocated.toNat = _
        have htotal := h.total
        rw [hsub, hcells]
        omega
      · show s'.allocated ≤ s'.quota
        have hwithin := UInt64.le_iff_toNat_le.mp h.within
        rw [UInt64.le_iff_toNat_le, hsub, hquota]
        omega

theorem run_inv (quota : UInt64) (ops : List Op) : (run step (new BUFFERS quota) ops).Inv quota :=
  run_invariant (P := fun s => Inv quota s) (fun _ op hs => step_inv hs op) (new_inv quota) ops

/-- A handle that has been passed is invalid after every run. -/
theorem run_past (h : Cell.Sound s.cells) {slot generation : UInt32}
    (hpast : Cell.Past s.cells slot generation) (ops : List Op) :
    Cell.Sound (run step s ops).cells ∧ Cell.Past (run step s ops).cells slot generation := by
  have hstep : ∀ (s : VirtualGpuSession BUFFERS) op,
      Cell.Sound s.cells ∧ Cell.Past s.cells slot generation →
      Cell.Sound (s.step op).cells ∧ Cell.Past (s.step op).cells slot generation := by
    intro s op ⟨hs, hp⟩
    have hcells := s.step_cells op
    exact ⟨hcells.sound hs, hcells.past hs hp⟩
  exact run_invariant hstep ⟨h, hpast⟩ ops

/-- A released id has been passed, and its size comes off the total. -/
theorem free_eq_ok {quota : UInt64} (h : s.Inv quota) {id : BufferId} {bytes : UInt64}
    (hfree : s.free id = (.ok bytes, s')) :
    bytes ≤ s.allocated ∧ s'.allocated.toNat = s.allocated.toNat - bytes.toNat ∧
      Cell.Past s'.cells id.slot id.generation := by
  rcases s.free_cases id with ⟨-, heq⟩ | ⟨i, s₁, hi, heq, hcells, hallocated, -⟩
  · rw [heq] at hfree
    cases hfree
  · rw [heq] at hfree
    cases hfree
    have hle := h.bytes_le hi
    obtain ⟨hslot, hbuffer⟩ := bufferSlot_eq_some.mp hi
    have hgeneration : (s.cells i).generation = id.generation := congrArg Buffer.generation hbuffer
    refine ⟨hle, by rw [hallocated, UInt64.toNat_sub_of_le _ _ hle], ?_⟩
    rw [hcells, ← hgeneration]
    exact Cell.past_clear s.cells hslot

theorem not_live_of_past (h : Cell.Sound s.cells) {id : BufferId}
    (hpast : Cell.Past s.cells id.slot id.generation) (bytes : UInt64) : ¬ s.Live id bytes := by
  rw [live_iff_holds]
  exact Cell.not_holds_of_past h hpast bytes

/-- An access is accepted exactly if its buffer is live, it is not empty, and it lies
    within the buffer. -/
theorem validateAccess_eq_ok_iff {access : BufferAccess} :
    s.validateAccess access = .ok () ↔ ∃ bytes, s.Live access.buffer bytes ∧
      access.length ≠ 0 ∧ access.offset.toNat + access.length.toNat ≤ bytes.toNat := by
  simp only [live_iff_bufferSlot]
  unfold validateAccess
  split
  · next hslot => simp [hslot]
  · next i hslot =>
    simp only [hslot, Option.some_inj, exists_eq_left', exists_eq_left']
    split
    · next hoverflow =>
      have := (s.buffers i).bytes.toNat_lt
      have := checkedAdd64_eq_none.mp hoverflow
      simp only [reduceCtorEq, false_iff, not_and, not_le]
      omega
    · next finish hfinish =>
      have hsum := checkedAdd64_eq_some.mp hfinish
      rw [← hsum, ← UInt64.le_iff_toNat_le, ← UInt64.not_lt]
      split_ifs with hbad
      · simp only [false_iff]
        tauto
      · simp only [true_iff]
        tauto

end VirtualGpuSession

end Mrml.Gpu
