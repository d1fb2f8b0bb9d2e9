import Mrml.Common.Int
import Mrml.Common.Slots
import Mrml.Common.Run

/-!
# Capability spaces

Model of `crates/mrml-kernel/src/capability.rs`. A capability space is a table
of `N` generational entries. A handle (`Capability`) names a slot and the
generation it was issued under; it is live while the slot is occupied under
that generation. Functions that take `&mut self` return the result together
with the new space, so a failing call shows what it left behind.
-/

namespace Mrml.Kernel

/-- `ObjectId` (line 4). -/
structure ObjectId where
  id : UInt64
deriving DecidableEq

/-- `Rights` (line 7), a set of bits. -/
structure Rights where
  bits : UInt16
deriving DecidableEq

namespace Rights

/-- `Rights::NONE`. -/
def none : Rights := ⟨0⟩

/-- `Rights::READ`. -/
def read : Rights := ⟨1⟩

/-- `Rights::SIGNAL`. -/
def signal : Rights := ⟨(1 : UInt16) <<< 4⟩

/-- `Rights::DELEGATE`. -/
def delegate : Rights := ⟨(1 : UInt16) <<< 5⟩

/-- `Rights::CONTROL`. -/
def control : Rights := ⟨(1 : UInt16) <<< 6⟩

/-- `Rights::union` (lines 19–21). -/
def union (self other : Rights) : Rights := ⟨self.bits ||| other.bits⟩

/-- `Rights::contains` (lines 23–25). -/
def contains (self requested : Rights) : Bool := self.bits &&& requested.bits == requested.bits

/-- `Rights::intersect` (lines 27–29). -/
def intersect (self limit : Rights) : Rights := ⟨self.bits &&& limit.bits⟩

theorem contains_iff {a b : Rights} : a.contains b = true ↔ a.bits &&& b.bits = b.bits := by
  simp [contains]

@[simp] theorem contains_self (a : Rights) : a.contains a = true := by simp [contains]

theorem contains_trans {a b c : Rights} (hab : a.contains b = true) (hbc : b.contains c = true) :
    a.contains c = true := by
  rw [contains_iff] at *
  rw [← hbc, ← UInt16.and_assoc, hab]

/-- Attenuation: the rights a derivation grants are the ones it asked for. -/
theorem intersect_eq_of_contains {a b : Rights} (h : a.contains b = true) : a.intersect b = b := by
  rw [contains_iff] at h
  simp [intersect, h]

end Rights

/-- `Capability` (lines 33–36). -/
structure Capability where
  slot : UInt32
  generation : UInt32
deriving DecidableEq

/-- `Capability::from_token` (lines 43–48). -/
def Capability.fromToken (token : UInt64) : Capability :=
  ⟨lowWord token, highWord token⟩

/-- `entry.generation.wrapping_add(1).max(1)` (line 145). -/
def nextGeneration (generation : UInt32) : UInt32 := max (generation + 1) 1

theorem nextGeneration_toNat (g : UInt32) :
    (nextGeneration g).toNat = if g.toNat + 1 = 2 ^ 32 then 1 else g.toNat + 1 := by
  have hg := g.toNat_lt
  have hadd : (g + 1).toNat = (g.toNat + 1) % 2 ^ 32 := by simp [UInt32.toNat_add]
  have hmax : nextGeneration g = if g + 1 ≤ 1 then 1 else g + 1 := rfl
  rw [hmax]
  by_cases h : g.toNat + 1 = 2 ^ 32
  · rw [if_pos (UInt32.le_iff_toNat_le.mpr (by rw [hadd, h]; decide)), if_pos h]
    rfl
  · rw [if_neg h]
    have hmod : (g + 1).toNat = g.toNat + 1 := by rw [hadd, Nat.mod_eq_of_lt (by omega)]
    split_ifs with hle
    · have := UInt32.le_iff_toNat_le.mp hle
      rw [hmod, UInt32.toNat_one] at this
      rw [UInt32.toNat_one]
      omega
    · exact hmod

theorem nextGeneration_ne_zero (g : UInt32) : nextGeneration g ≠ 0 := by
  intro h
  have := nextGeneration_toNat g
  rw [h] at this
  split_ifs at this <;> simp at this

/-- `Entry` (lines 51–57). The generation starts at 1 (`Entry::EMPTY`) and is
    only ever replaced by `nextGeneration`, so it is never 0. -/
@[ext] structure Entry where
  generation : UInt32
  object : ObjectId
  rights : Rights
  occupied : Bool
  generation_ne : generation ≠ 0

instance : DecidableEq Entry := fun _ _ => decidable_of_iff _ Entry.ext_iff.symm

/-- `Entry::EMPTY` (lines 60–65). -/
def Entry.empty : Entry := ⟨1, ⟨0⟩, Rights.none, false, by decide⟩

/-- The writes of `insert` to the slot it takes (lines 100–102). -/
@[simps] def Entry.grant (entry : Entry) (object : ObjectId) (rights : Rights) : Entry :=
  { entry with object, rights, occupied := true }

/-- The writes of `revoke` (lines 142–145). -/
@[simps] def Entry.revoked (entry : Entry) : Entry where
  generation := nextGeneration entry.generation
  object := ⟨0⟩
  rights := Rights.none
  occupied := false
  generation_ne := nextGeneration_ne_zero _

/-- `CapabilityError` (lines 69–74). -/
inductive CapabilityError
  | spaceFull
  | invalid
  | permissionDenied
  | delegationDenied
deriving DecidableEq

/-- `CapabilitySpace<N>` (lines 78–80). -/
structure CapabilitySpace (N : ℕ) where
  entries : Fin N → Entry

namespace CapabilitySpace

variable {N : ℕ}

/-- `CapabilitySpace::new` (lines 83–87). -/
def new (N : ℕ) : CapabilitySpace N := ⟨fun _ => Entry.empty⟩

/-- `self.entries[i] = e`. -/
def setEntry (s : CapabilitySpace N) (i : Fin N) (e : Entry) : CapabilitySpace N :=
  ⟨Function.update s.entries i e⟩

@[simp] theorem setEntry_self (s : CapabilitySpace N) (i : Fin N) (e : Entry) :
    (s.setEntry i e).entries i = e := by simp [setEntry]

theorem setEntry_of_ne (s : CapabilitySpace N) {i j : Fin N} (e : Entry) (h : j ≠ i) :
    (s.setEntry i e).entries j = s.entries j := by simp [setEntry, h]

/-- The slot of a live handle: `get(capability.slot as usize)` filtered by
    `entry.occupied && entry.generation == capability.generation`
    (lines 138–139 and 151–152). -/
def liveSlot (s : CapabilitySpace N) (capability : Capability) : Option (Fin N) :=
  (slotAt capability.slot).filter fun i =>
    (s.entries i).occupied && (s.entries i).generation == capability.generation

/-- `CapabilitySpace::entry` (lines 149–154). -/
def entry (s : CapabilitySpace N) (capability : Capability) : Except CapabilityError Entry :=
  match s.liveSlot capability with
  | some i => .ok (s.entries i)
  | none => .error .invalid

/-- `CapabilitySpace::insert` (lines 89–107). -/
def insert (s : CapabilitySpace N) (object : ObjectId) (rights : Rights) :
    Except CapabilityError Capability × CapabilitySpace N :=
  match firstSlot fun i => !(s.entries i).occupied with
  | none => (.error .spaceFull, s)
  | some slot =>
    (.ok ⟨UInt32.ofNat slot, (s.entries slot).generation⟩,
      s.setEntry slot ((s.entries slot).grant object rights))

/-- `CapabilitySpace::authorize` (lines 109–120). -/
def authorize (s : CapabilitySpace N) (capability : Capability) (requested : Rights) :
    Except CapabilityError ObjectId :=
  match s.entry capability with
  | .error error => .error error
  | .ok entry =>
    if entry.rights.contains requested then .ok entry.object else .error .permissionDenied

/-- `CapabilitySpace::derive` (lines 122–136): the result and the new
    destination space. The source space is only read. -/
def derive {M : ℕ} (s : CapabilitySpace N) (capability : Capability) (requested : Rights)
    (destination : CapabilitySpace M) : Except CapabilityError Capability × CapabilitySpace M :=
  match s.entry capability with
  | .error error => (.error error, destination)
  | .ok source =>
    if !source.rights.contains Rights.delegate then (.error .delegationDenied, destination)
    else if !source.rights.contains requested then (.error .permissionDenied, destination)
    else destination.insert source.object (source.rights.intersect requested)

/-- `CapabilitySpace::revoke` (lines 138–147). -/
def revoke (s : CapabilitySpace N) (capability : Capability) :
    Except CapabilityError Unit × CapabilitySpace N :=
  match s.liveSlot capability with
  | none => (.error .invalid, s)
  | some i => (.ok (), s.setEntry i (s.entries i).revoked)

/-! ## What each operation can do -/

theorem liveSlot_eq_some {s : CapabilitySpace N} {c : Capability} {i : Fin N} :
    s.liveSlot c = some i ↔ i.val = c.slot.toNat ∧ (s.entries i).occupied = true ∧
      (s.entries i).generation = c.generation := by
  simp [liveSlot, Option.filter_eq_some_iff, slotAt_eq_some]

theorem insert_cases (s : CapabilitySpace N) (object : ObjectId) (rights : Rights) :
    ((∀ i, (s.entries i).occupied = true) ∧ s.insert object rights = (.error .spaceFull, s)) ∨
    ∃ i, (s.entries i).occupied = false ∧
      s.insert object rights = (.ok ⟨UInt32.ofNat i, (s.entries i).generation⟩,
        s.setEntry i ((s.entries i).grant object rights)) := by
  unfold insert
  cases h : firstSlot fun i => !(s.entries i).occupied with
  | none =>
    left
    exact ⟨fun i => by simpa using firstSlot_none h i, rfl⟩
  | some i =>
    right
    exact ⟨i, by simpa using firstSlot_some h, rfl⟩

theorem revoke_cases (s : CapabilitySpace N) (c : Capability) :
    (s.liveSlot c = none ∧ s.revoke c = (.error .invalid, s)) ∨
    ∃ i, s.liveSlot c = some i ∧ s.revoke c = (.ok (), s.setEntry i (s.entries i).revoked) := by
  unfold revoke
  cases s.liveSlot c with
  | none => exact .inl ⟨rfl, rfl⟩
  | some i => exact .inr ⟨i, rfl, rfl⟩

/-- A derivation either fails and leaves the destination as it was, or inserts
    a live, delegable source entry with the requested rights. -/
theorem derive_cases {M : ℕ} (s : CapabilitySpace N) (c : Capability) (requested : Rights)
    (d : CapabilitySpace M) :
    ((∃ e, (s.derive c requested d).1 = .error e) ∧ (s.derive c requested d).2 = d) ∨
    ∃ i, s.liveSlot c = some i ∧ (s.entries i).rights.contains Rights.delegate = true ∧
      (s.entries i).rights.contains requested = true ∧
      s.derive c requested d = d.insert (s.entries i).object requested := by
  unfold derive entry
  cases h : s.liveSlot c with
  | none => exact .inl ⟨⟨_, rfl⟩, rfl⟩
  | some i =>
    by_cases hd : (s.entries i).rights.contains Rights.delegate = true
    · by_cases hr : (s.entries i).rights.contains requested = true
      · refine .inr ⟨i, rfl, hd, hr, ?_⟩
        simp [hd, hr, Rights.intersect_eq_of_contains hr]
      · exact .inl ⟨⟨.permissionDenied, by simp [hd, hr]⟩, by simp [hd, hr]⟩
    · exact .inl ⟨⟨.delegationDenied, by simp [hd]⟩, by simp [hd]⟩

theorem authorize_eq_ok {s : CapabilitySpace N} {c : Capability} {r : Rights} {o : ObjectId} :
    s.authorize c r = .ok o ↔ ∃ i, s.liveSlot c = some i ∧ (s.entries i).rights.contains r = true ∧
      (s.entries i).object = o := by
  unfold authorize entry
  cases s.liveSlot c with
  | none => simp
  | some i =>
    by_cases h : (s.entries i).rights.contains r = true <;> simp [h]

theorem authorize_of_not_live {s : CapabilitySpace N} {c : Capability} (h : s.liveSlot c = none)
    (r : Rights) : s.authorize c r = .error .invalid := by
  simp [authorize, entry, h]

end CapabilitySpace

end Mrml.Kernel
