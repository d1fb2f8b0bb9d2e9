import Mrml.Common.Int
import Mrml.Kernel.Capability

/-!
# IPC messages and endpoints

Model of the transfer path of `crates/mrml-kernel/src/ipc.rs`:
`Message::transfer` derives the requested capabilities into the receiver's
space one by one and revokes what it created when one of them fails;
`Endpoint::authorize_send` checks the sender's SIGNAL authority and issues the
next sequence number.

A `Message` is its payload bytes and its capabilities. The source pads both to
fixed arrays and keeps their lengths; the constructors fill exactly the first
`capability_count` capability cells, so a list carries the same data.
-/

namespace Mrml.Kernel

/-- `MAX_INLINE_PAYLOAD` (line 3). -/
def maxInlinePayload : ℕ := 4096

/-- `MAX_CAPABILITIES` (line 4). -/
def maxCapabilities : ℕ := 8

/-- `IpcError` (lines 10–19). -/
inductive IpcError
  | payloadTooLarge
  | tooManyCapabilities
  | unauthorized
  | sequenceExhausted
  | bufferTooSmall
  | malformed
  | replay
deriving DecidableEq

/-- `Message` (lines 27–32). -/
structure Message where
  payload : List UInt8
  capabilities : List Capability
deriving DecidableEq

namespace CapabilitySpace

variable {N : ℕ}

/-- `for created in derived { let _ = destination.revoke(created); }`
    (lines 75–77). -/
def revokeAll (s : CapabilitySpace N) (created : List Capability) : CapabilitySpace N :=
  created.foldl (fun s c => (s.revoke c).2) s

/-- The rollback loop of `send_ipc` (`task_runtime.rs`, lines 475–479), which
    stops at a handle that cannot be revoked: whether it got to the end, and the
    space it left. -/
def withdraw (s : CapabilitySpace N) : List Capability → Bool × CapabilitySpace N
  | [] => (true, s)
  | c :: rest =>
    match s.revoke c with
    | (.error _, s) => (false, s)
    | (.ok (), s) => s.withdraw rest

end CapabilitySpace

namespace Message

variable {S D : ℕ}

/-- The loop of `transfer` (lines 70–81) with the handles derived so far. -/
def deriveAll (source : CapabilitySpace S) :
    List (Capability × Rights) → List Capability → CapabilitySpace D →
      Except IpcError (List Capability) × CapabilitySpace D
  | [], derived, destination => (.ok derived, destination)
  | (capability, rights) :: requested, derived, destination =>
    match source.derive capability rights destination with
    | (.ok capability, destination) =>
      deriveAll source requested (derived ++ [capability]) destination
    | (.error _, destination) => (.error .unauthorized, destination.revokeAll derived)

/-- `Message::transfer` (lines 58–86). -/
def transfer (payload : List UInt8) (requested : List (Capability × Rights))
    (source : CapabilitySpace S) (destination : CapabilitySpace D) :
    Except IpcError Message × CapabilitySpace D :=
  if payload.length > maxInlinePayload then (.error .payloadTooLarge, destination)
  else if requested.length > maxCapabilities then (.error .tooManyCapabilities, destination)
  else
    match deriveAll source requested [] destination with
    | (.error error, destination) => (.error error, destination)
    | (.ok derived, destination) => (.ok ⟨payload, derived⟩, destination)

end Message

/-- `Endpoint` (lines 182–185). -/
structure Endpoint where
  object : ObjectId
  nextSequence : UInt64
deriving DecidableEq

namespace Endpoint

/-- `Endpoint::new` (lines 188–193). -/
def new (object : ObjectId) : Endpoint := ⟨object, 1⟩

/-- `Endpoint::authorize_send` (lines 195–210); the message is not read. -/
def authorizeSend {N : ℕ} (e : Endpoint) (senderSpace : CapabilitySpace N)
    (endpoint : Capability) : Except IpcError UInt64 × Endpoint :=
  match senderSpace.authorize endpoint Rights.signal with
  | .error _ => (.error .unauthorized, e)
  | .ok object =>
    if object ≠ e.object then (.error .unauthorized, e)
    else
      match checkedAdd64 e.nextSequence 1 with
      | none => (.error .sequenceExhausted, e)
      | some next => (.ok e.nextSequence, { e with nextSequence := next })

end Endpoint

/-! ## The handles of a transfer can be withdrawn -/

namespace CapabilitySpace

variable {N : ℕ}

/-- Every handle of the list is live, and no two share a slot. -/
def Holds (s : CapabilitySpace N) (handles : List Capability) : Prop :=
  (∀ c ∈ handles, ∃ i, s.liveSlot c = some i) ∧
    handles.Pairwise fun a b => a.slot ≠ b.slot

theorem liveSlot_setEntry_of_ne {s : CapabilitySpace N} {i : Fin N} {e : Entry} {c : Capability}
    (h : i.val ≠ c.slot.toNat) : (s.setEntry i e).liveSlot c = s.liveSlot c := by
  unfold liveSlot
  cases hj : slotAt (N := N) c.slot with
  | none => rfl
  | some j =>
    have hji : j ≠ i := fun hji => h (hji ▸ slotAt_eq_some.mp hj)
    simp [Option.filter, setEntry_of_ne _ _ hji]

/-- An insertion adds its handle to the held ones: the slot it takes was free,
    so it is none of theirs. -/
theorem Holds.insert (hN : N ≤ 2 ^ 32) {s s' : CapabilitySpace N} {handles : List Capability}
    (h : s.Holds handles) {object : ObjectId} {rights : Rights} {c : Capability}
    (hins : s.insert object rights = (.ok c, s')) : s'.Holds (handles ++ [c]) := by
  rcases s.insert_cases object rights with ⟨-, h'⟩ | ⟨i, hfree, h'⟩
  · rw [h'] at hins
    cases hins
  · rw [h', Prod.mk.injEq, Except.ok.injEq] at hins
    obtain ⟨rfl, rfl⟩ := hins
    have hi : i.val = (UInt32.ofNat i).toNat := slotAt_eq_some.mp (slotAt_ofNat hN i)
    have hne : ∀ c ∈ handles, i.val ≠ c.slot.toNat := by
      intro c hc hic
      obtain ⟨j, hj⟩ := h.1 c hc
      obtain ⟨hslot, hocc, -⟩ := liveSlot_eq_some.mp hj
      obtain rfl : j = i := Fin.ext (hslot.trans hic.symm)
      rw [hfree] at hocc
      cases hocc
    constructor
    · intro c hc
      rcases List.mem_append.mp hc with hc | hc
      · rw [liveSlot_setEntry_of_ne (hne c hc)]
        exact h.1 c hc
      · rw [List.mem_singleton.mp hc]
        exact ⟨i, liveSlot_eq_some.mpr ⟨hi, by simp, by simp⟩⟩
    · refine List.pairwise_append.mpr ⟨h.2, List.pairwise_singleton _ _, ?_⟩
      intro a ha b hb heq
      rw [List.mem_singleton.mp hb] at heq
      exact hne a ha (by rw [heq]; exact hi)

/-- Held handles can be revoked one after the other. -/
theorem Holds.withdraw {handles : List Capability} :
    ∀ {s : CapabilitySpace N}, s.Holds handles → (s.withdraw handles).1 = true := by
  induction handles with
  | nil => intro s _; rfl
  | cons c rest ih =>
    rintro s ⟨hlive, hdisj⟩
    obtain ⟨hhead, htail⟩ := List.pairwise_cons.mp hdisj
    obtain ⟨i, hi⟩ := hlive c (List.mem_cons_self ..)
    rcases s.revoke_cases c with ⟨h, -⟩ | ⟨j, hj, h⟩
    · rw [hi] at h
      cases h
    · obtain rfl : i = j := Option.some.inj (hi.symm.trans hj)
      rw [CapabilitySpace.withdraw, h]
      refine ih ⟨fun d hd => ?_, htail⟩
      have hslot := (liveSlot_eq_some.mp hi).1
      rw [liveSlot_setEntry_of_ne]
      · exact hlive d (List.mem_cons_of_mem _ hd)
      · rw [hslot]
        exact fun heq => hhead d hd (UInt32.toNat_inj.mp heq)

end CapabilitySpace

namespace Message

variable {S D : ℕ}

theorem deriveAll_holds (hD : D ≤ 2 ^ 32) (source : CapabilitySpace S)
    (requested : List (Capability × Rights)) :
    ∀ (derived : List Capability) (destination : CapabilitySpace D) {handles : List Capability}
      {destination' : CapabilitySpace D}, destination.Holds derived →
      deriveAll source requested derived destination = (.ok handles, destination') →
      destination'.Holds handles := by
  induction requested with
  | nil =>
    intro derived destination handles destination' h heq
    cases heq
    exact h
  | cons head requested ih =>
    obtain ⟨capability, rights⟩ := head
    intro derived destination handles destination' h heq
    rw [deriveAll] at heq
    rcases source.derive_cases capability rights destination with ⟨⟨e, he⟩, -⟩ | ⟨i, -, -, -, hd⟩
    · split at heq
      · next hok => rw [hok] at he; cases he
      · cases heq
    · split at heq
      · next hok => exact ih _ _ (h.insert hD (hd.symm.trans hok)) heq
      · cases heq

/-- A message that `transfer` returns holds capabilities that are live in the
    receiver's space and can all be withdrawn again. -/
theorem transfer_holds (hD : D ≤ 2 ^ 32) {payload : List UInt8}
    {requested : List (Capability × Rights)} {source : CapabilitySpace S}
    {destination destination' : CapabilitySpace D} {message : Message}
    (h : transfer payload requested source destination = (.ok message, destination')) :
    destination'.Holds message.capabilities := by
  unfold transfer at h
  split at h
  · cases h
  · split at h
    · cases h
    · split at h
      · cases h
      · next hd =>
        cases h
        exact deriveAll_holds hD source requested [] destination
          ⟨by simp, List.Pairwise.nil⟩ hd

end Message

end Mrml.Kernel
