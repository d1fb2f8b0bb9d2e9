import Mrml.Kernel.Delivery

/-!
# Failed messages leave no authority

`Message::transfer` (`crates/mrml-kernel/src/ipc.rs`, lines 58–86) derives the capabilities of a
message one after the other into the space of the receiver, and `send_ipc` and `deliver_ipc`
(`crates/mrml-kernel/src/task_runtime.rs`, lines 440–537) may fail behind it. A failure revokes
what was derived. The slots that were taken have another generation from then on, which no handle
can tell.

Results:
* `Extends.withdraw`, `Extends.revokeAll`: revoking what was derived gives the authority back.
* `transfer_error`, `sendIpc_error`, `deliverIpc_error`: what each failure leaves.
* `ipc_atomicity`: failed messages in every reachable runtime.
-/

namespace Mrml.Kernel

namespace CapabilitySpace

variable {N : ℕ}

/-- Every handle has the same authority in both spaces. -/
def SameAuthority (s s' : CapabilitySpace N) : Prop :=
  ∀ capability rights, s'.authorize capability rights = s.authorize capability rights

theorem SameAuthority.refl (s : CapabilitySpace N) : s.SameAuthority s := fun _ _ => rfl

/-- Slot `i` is free in both spaces, or it has the same entry. -/
def AgreesAt (s s' : CapabilitySpace N) (i : Fin N) : Prop :=
  (s.entries i).occupied = false ∧ (s'.entries i).occupied = false ∨ s'.entries i = s.entries i

/-- Authority depends on the entries that are occupied. -/
theorem sameAuthority_of_agreesAt {s s' : CapabilitySpace N} (h : ∀ i, s.AgreesAt s' i) :
    s.SameAuthority s' := by
  intro capability rights
  have hlive : s'.liveSlot capability = s.liveSlot capability := by
    refine Option.ext fun i => ?_
    rw [liveSlot_eq_some, liveSlot_eq_some]
    obtain ⟨hfree, hfree'⟩ | hsame := h i
    · rw [hfree, hfree']
      simp
    · rw [hsame]
  cases hslot : s.liveSlot capability with
  | none =>
    rw [authorize_of_not_live hslot, authorize_of_not_live (hlive.trans hslot)]
  | some i =>
    have hoccupied := (liveSlot_eq_some.mp hslot).2.1
    have hsame : s'.entries i = s.entries i := by
      refine (h i).resolve_left fun hfree => ?_
      rw [hoccupied] at hfree
      exact nomatch hfree.1
    rw [authorize, authorize, entry, entry, hlive, hslot]
    show (if (s'.entries i).rights.contains rights = true then _ else _) = _
    rw [hsame]

/-- `s'` is `s` with the handles derived into free slots of it. -/
structure Extends (s s' : CapabilitySpace N) (handles : List Capability) : Prop where
  holds : s'.Holds handles
  free : ∀ c ∈ handles, ∀ i : Fin N, i.val = c.slot.toNat → (s.entries i).occupied = false
  agrees : ∀ i : Fin N, (∀ c ∈ handles, i.val ≠ c.slot.toNat) → s.AgreesAt s' i

theorem Extends.refl (s : CapabilitySpace N) : s.Extends s [] :=
  ⟨⟨by simp, List.Pairwise.nil⟩, by simp, fun _ _ => .inr rfl⟩

theorem Extends.sameAuthority {s s' : CapabilitySpace N} (h : s.Extends s' []) :
    s.SameAuthority s' :=
  sameAuthority_of_agreesAt fun i => h.agrees i (by simp)

/-- One more handle is derived. -/
theorem Extends.insert (hN : N ≤ 2 ^ 32) {s s' s'' : CapabilitySpace N}
    {handles : List Capability} (h : s.Extends s' handles) {object : ObjectId} {rights : Rights}
    {c : Capability} (hins : s'.insert object rights = (.ok c, s'')) :
    s.Extends s'' (handles ++ [c]) := by
  have hholds := h.holds.insert hN hins
  obtain ⟨-, h'⟩ | ⟨i, hfree, h'⟩ := s'.insert_cases object rights
  · rw [h'] at hins
    exact nomatch congrArg Prod.fst hins
  · rw [h', Prod.mk.injEq, Except.ok.injEq] at hins
    obtain ⟨rfl, rfl⟩ := hins
    have hi : i.val = (UInt32.ofNat i).toNat := slotAt_eq_some.mp (slotAt_ofNat hN i)
    -- a slot that is free in `s'` is none of the handles' slots
    have hne : ∀ c ∈ handles, i.val ≠ c.slot.toNat := by
      intro c hc hic
      obtain ⟨j, hj⟩ := h.holds.1 c hc
      obtain ⟨hslot, hoccupied, -⟩ := liveSlot_eq_some.mp hj
      obtain rfl : j = i := Fin.ext (hslot.trans hic.symm)
      rw [hfree] at hoccupied
      exact nomatch hoccupied
    refine ⟨hholds, fun c hc j hj => ?_, fun j hj => ?_⟩
    · obtain hc | hc := List.mem_append.mp hc
      · exact h.free c hc j hj
      · rw [List.mem_singleton.mp hc] at hj
        obtain rfl : j = i := Fin.ext (hj.trans hi.symm)
        obtain ⟨hfree', -⟩ | hsame := h.agrees j hne
        · exact hfree'
        · rw [← hsame, hfree]
    · have hji : j ≠ i := by
        rintro rfl
        exact hj _ (List.mem_append_right _ (List.mem_singleton.mpr rfl)) hi
      have hagrees := h.agrees j fun c hc => hj c (List.mem_append_left _ hc)
      rw [AgreesAt, setEntry_of_ne _ _ hji]
      exact hagrees

/-- One handle is revoked. -/
theorem Extends.revoke {s s' : CapabilitySpace N} {c : Capability} {handles : List Capability}
    (h : s.Extends s' (c :: handles)) :
    ∃ s'', s'.revoke c = (.ok (), s'') ∧ s.Extends s'' handles := by
  obtain ⟨hlive, hapart⟩ := h.holds
  obtain ⟨hhead, htail⟩ := List.pairwise_cons.mp hapart
  obtain ⟨i, hi⟩ := hlive c List.mem_cons_self
  have hslot := (liveSlot_eq_some.mp hi).1
  obtain ⟨hnone, -⟩ | ⟨j, hj, hrevoke⟩ := s'.revoke_cases c
  · exact nomatch hi.symm.trans hnone
  · obtain rfl : i = j := Option.some.inj (hi.symm.trans hj)
    refine ⟨_, hrevoke, ⟨fun d hd => ?_, htail⟩, fun d hd => ?_, fun k hk => ?_⟩
    · rw [liveSlot_setEntry_of_ne]
      · exact hlive d (List.mem_cons_of_mem _ hd)
      · rw [hslot]
        exact fun heq => hhead d hd (UInt32.toNat_inj.mp heq)
    · exact h.free d (List.mem_cons_of_mem _ hd)
    · by_cases hki : k = i
      · subst hki
        refine .inl ⟨h.free c List.mem_cons_self k hslot, ?_⟩
        show (Function.update s'.entries k (s'.entries k).revoked k).occupied = false
        rw [Function.update_self, Entry.revoked_occupied]
      · rw [AgreesAt, setEntry_of_ne _ _ hki]
        refine h.agrees k (List.forall_mem_cons.mpr ⟨fun hkc => ?_, hk⟩)
        exact hki (Fin.ext (hkc.trans hslot.symm))

/-- The rollback of `send_ipc` gives the authority back. -/
theorem Extends.withdraw {s : CapabilitySpace N} {handles : List Capability} :
    ∀ {s' : CapabilitySpace N}, s.Extends s' handles →
      ∃ s'', s'.withdraw handles = (true, s'') ∧ s.SameAuthority s'' := by
  induction handles with
  | nil => exact fun h => ⟨_, rfl, h.sameAuthority⟩
  | cons c handles ih =>
    intro s' h
    obtain ⟨s'', hrevoke, hrest⟩ := h.revoke
    rw [CapabilitySpace.withdraw, hrevoke]
    exact ih hrest

/-- The rollback of `transfer` gives the authority back. -/
theorem Extends.revokeAll {s : CapabilitySpace N} {handles : List Capability} :
    ∀ {s' : CapabilitySpace N}, s.Extends s' handles →
      s.SameAuthority (s'.revokeAll handles) := by
  induction handles with
  | nil => exact fun h => h.sameAuthority
  | cons c handles ih =>
    intro s' h
    obtain ⟨s'', hrevoke, hrest⟩ := h.revoke
    rw [CapabilitySpace.revokeAll, List.foldl_cons, hrevoke]
    exact ih hrest

end CapabilitySpace

namespace Message

variable {S D : ℕ}

/-- The loop of `transfer` extends the destination, or it gives the authority back. -/
theorem deriveAll_extends (hD : D ≤ 2 ^ 32) (source : CapabilitySpace S)
    (requested : List (Capability × Rights)) {destination : CapabilitySpace D} :
    ∀ {derived : List Capability} {s : CapabilitySpace D}, destination.Extends s derived →
      (∃ handles s', deriveAll source requested derived s = (.ok handles, s') ∧
        destination.Extends s' handles) ∨
      ∃ error s', deriveAll source requested derived s = (.error error, s') ∧
        destination.SameAuthority s' := by
  induction requested with
  | nil => exact fun h => .inl ⟨_, _, rfl, h⟩
  | cons head requested ih =>
    obtain ⟨capability, rights⟩ := head
    intro derived s h
    rw [deriveAll]
    cases hderive : source.derive capability rights s with
    | mk result s' =>
      cases result with
      | error error =>
        have hsame : s' = s := by
          obtain ⟨-, hsame⟩ | ⟨i, -, -, -, hinsert⟩ := source.derive_cases capability rights s
          · rw [hderive] at hsame
            exact hsame
          · rw [hderive] at hinsert
            obtain ⟨-, hfull⟩ | ⟨j, -, hok⟩ := s.insert_cases (source.entries i).object rights
            · exact congrArg Prod.snd (hinsert.trans hfull)
            · cases congrArg Prod.fst (hinsert.trans hok)
        subst hsame
        exact .inr ⟨_, _, rfl, h.revokeAll⟩
      | ok handle =>
        obtain ⟨⟨error, herror⟩, -⟩ | ⟨i, -, -, -, hinsert⟩ :=
          source.derive_cases capability rights s
        · rw [hderive] at herror
          cases herror
        · exact ih (h.insert hD (hinsert.symm.trans hderive))

/-- A transfer fails and gives the authority back, or it extends the destination. -/
theorem transfer_spec (hD : D ≤ 2 ^ 32) (payload : List UInt8)
    (requested : List (Capability × Rights)) (source : CapabilitySpace S)
    (destination : CapabilitySpace D) :
    (∃ message s', transfer payload requested source destination = (.ok message, s') ∧
      destination.Extends s' message.capabilities) ∨
    ∃ error s', transfer payload requested source destination = (.error error, s') ∧
      destination.SameAuthority s' := by
  unfold transfer
  split_ifs
  · exact .inr ⟨_, _, rfl, .refl _⟩
  · exact .inr ⟨_, _, rfl, .refl _⟩
  · obtain ⟨handles, s', hrun, hextends⟩ | ⟨error, s', hrun, hsame⟩ :=
      deriveAll_extends hD source requested (CapabilitySpace.Extends.refl destination)
    · rw [hrun]
      exact .inl ⟨_, _, rfl, hextends⟩
    · rw [hrun]
      exact .inr ⟨_, _, rfl, hsame⟩

theorem transfer_error (hD : D ≤ 2 ^ 32) {payload : List UInt8}
    {requested : List (Capability × Rights)} {source : CapabilitySpace S}
    {destination s' : CapabilitySpace D} {error : IpcError}
    (h : transfer payload requested source destination = (.error error, s')) :
    destination.SameAuthority s' := by
  obtain ⟨message, s'', hrun, -⟩ | ⟨error', s'', hrun, hsame⟩ :=
    transfer_spec hD payload requested source destination
  · exact nomatch congrArg Prod.fst (h.symm.trans hrun)
  · obtain rfl : s' = s'' := congrArg Prod.snd (h.symm.trans hrun)
    exact hsame

end Message

/-- An endpoint that refuses a message keeps its sequence number. -/
theorem Endpoint.authorizeSend_error {N : ℕ} {e e' : Endpoint} {senderSpace : CapabilitySpace N}
    {endpoint : Capability} {error : IpcError}
    (h : e.authorizeSend senderSpace endpoint = (.error error, e')) : e' = e := by
  unfold authorizeSend at h
  split at h
  · exact (congrArg Prod.snd h).symm
  · split_ifs at h
    · exact (congrArg Prod.snd h).symm
    · split at h
      · exact (congrArg Prod.snd h).symm
      · exact nomatch congrArg Prod.fst h

namespace TaskRuntime

variable {TASKS CAPS : ℕ}

/-- The scheduler, the identities, contexts and inboxes of the domains and the authority of all
    handles are as before. -/
structure Unchanged (rt rt' : TaskRuntime TASKS CAPS) : Prop where
  scheduler : rt'.scheduler = rt.scheduler
  domains : ∀ i, rt.domains i = none ∧ rt'.domains i = none ∨
    ∃ d capabilities, rt.domains i = some d ∧ rt'.domains i = some { d with capabilities } ∧
      d.capabilities.SameAuthority capabilities

theorem Unchanged.refl (rt : TaskRuntime TASKS CAPS) : rt.Unchanged rt := by
  refine ⟨rfl, fun i => ?_⟩
  cases hd : rt.domains i with
  | none => exact .inl ⟨rfl, rfl⟩
  | some d => exact .inr ⟨d, d.capabilities, rfl, rfl, .refl _⟩

theorem unchanged_setDomain {rt : TaskRuntime TASKS CAPS} {j : Fin TASKS}
    {destination : TaskDomain CAPS} {capabilities : CapabilitySpace CAPS}
    (hd : rt.domains j = some destination)
    (h : destination.capabilities.SameAuthority capabilities) :
    rt.Unchanged (rt.setDomain j (some { destination with capabilities })) := by
  refine ⟨rfl, fun i => ?_⟩
  by_cases hij : i = j
  · subst hij
    exact .inr ⟨destination, capabilities, hd, Function.update_self .., h⟩
  · have hsame : (rt.setDomain j (some { destination with capabilities })).domains i =
        rt.domains i := Function.update_of_ne hij _ _
    rw [hsame]
    exact (Unchanged.refl rt).domains i

/-- **Step lemma.** A message that is not sent leaves the endpoint and the runtime. -/
theorem sendIpc_error (hC : CAPS ≤ 2 ^ 32) {rt rt' : TaskRuntime TASKS CAPS}
    {sender receiver : TaskId} {endpoint endpoint' : Endpoint} {endpointCapability : Capability}
    {payload : List UInt8} {requested : List (Capability × Rights)} {error : TaskRuntimeError}
    (h : rt.sendIpc sender receiver endpoint endpointCapability payload requested =
      (.error error, endpoint', rt')) :
    endpoint' = endpoint ∧ rt.Unchanged rt' := by
  have hkept {result : Except TaskRuntimeError (UInt64 × Message)}
      (h : (result, endpoint, rt) = (.error error, endpoint', rt')) :
      endpoint' = endpoint ∧ rt.Unchanged rt' := by
    obtain ⟨-, h⟩ := Prod.mk.inj h
    obtain ⟨rfl, rfl⟩ := Prod.mk.inj h
    exact ⟨rfl, .refl _⟩
  unfold sendIpc at h
  split_ifs at h with hself
  · exact hkept h
  · cases hi : rt.domainSlot sender with
    | none =>
      rw [hi] at h
      exact hkept h
    | some i =>
      cases hj : rt.domainSlot receiver with
      | none =>
        rw [hi, hj] at h
        exact hkept h
      | some j =>
        cases htwo : rt.twoDomains i j with
        | none =>
          rw [hi, hj] at h
          simp only [htwo] at h
          exact hkept h
        | some domains =>
          obtain ⟨source, destination⟩ := domains
          have hd : rt.domains j = some destination := by
            unfold twoDomains at htwo
            split_ifs at htwo
            split at htwo
            · next hd =>
              obtain ⟨-, rfl⟩ := Prod.mk.inj (Option.some.inj htwo)
              exact hd
            · exact nomatch htwo
          rw [hi, hj] at h
          simp only [htwo] at h
          obtain ⟨message, s', hrun, hextends⟩ | ⟨failure, s', hrun, hsame⟩ :=
            Message.transfer_spec hC payload requested source.capabilities
              destination.capabilities
          · rw [hrun] at h
            dsimp only at h
            cases hauthorize : endpoint.authorizeSend source.capabilities endpointCapability with
            | mk result e =>
              rw [hauthorize] at h
              cases result with
              | ok sequence => exact nomatch congrArg Prod.fst h
              | error failure =>
                obtain rfl := Endpoint.authorizeSend_error hauthorize
                obtain ⟨s'', hwithdraw, hsame⟩ := hextends.withdraw
                simp only [hwithdraw] at h
                obtain ⟨-, h⟩ := Prod.mk.inj h
                obtain ⟨rfl, rfl⟩ := Prod.mk.inj h
                exact ⟨rfl, unchanged_setDomain hd hsame⟩
          · rw [hrun] at h
            obtain ⟨-, h⟩ := Prod.mk.inj h
            obtain ⟨rfl, rfl⟩ := Prod.mk.inj h
            exact ⟨rfl, unchanged_setDomain hd hsame⟩

/-- **Step lemma.** A message that is not delivered leaves the endpoint and the runtime: once
    it is sent, there is room for it and its receiver can be woken. -/
theorem deliverIpc_error (hC : CAPS ≤ 2 ^ 32) {rt rt' : TaskRuntime TASKS CAPS} (hrt : rt.Inv)
    {sender receiver : TaskId} {endpoint endpoint' : Endpoint} {endpointCapability : Capability}
    {payload : List UInt8} {requested : List (Capability × Rights)} {error : TaskRuntimeError}
    (h : rt.deliverIpc sender receiver endpoint endpointCapability payload requested =
      (.error error, endpoint', rt')) :
    endpoint' = endpoint ∧ rt.Unchanged rt' := by
  have hkept {result : Except TaskRuntimeError UInt64}
      (h : (result, endpoint, rt) = (.error error, endpoint', rt')) :
      endpoint' = endpoint ∧ rt.Unchanged rt' := by
    obtain ⟨-, h⟩ := Prod.mk.inj h
    obtain ⟨rfl, rfl⟩ := Prod.mk.inj h
    exact ⟨rfl, .refl _⟩
  cases hsend : rt.sendIpc sender receiver endpoint endpointCapability payload requested with
  | mk result left =>
    obtain ⟨e, sent⟩ := left
    cases result with
    | error failure =>
      have hfailed := sendIpc_error hC hsend
      unfold deliverIpc at h
      split at h
      · exact hkept h
      · split_ifs at h
        · exact hkept h
        · rw [hsend] at h
          obtain ⟨-, h⟩ := Prod.mk.inj h
          obtain ⟨rfl, rfl⟩ := Prod.mk.inj h
          exact hfailed
    | ok accepted =>
      cases hslot : rt.domainSlot receiver with
      | none =>
        rw [deliverIpc, hslot] at h
        exact hkept h
      | some i =>
        obtain ⟨d, hd, -⟩ := domainSlot_some hslot
        rw [deliverIpc, hslot] at h
        dsimp only at h
        rw [hd] at h
        split_ifs at h with hfull
        · exact hkept h
        · -- the message is queued, and waking a live receiver does not fail
          have hroom : d.inbox.count ≠ 2 := by simpa using hfull
          obtain ⟨inbox, hpush⟩ := Inbox.push_of_not_full hroom accepted.2
          obtain ⟨hwake, -⟩ := KernelScheduler.wake_spec hrt.scheduler (live_of_domainSlot hrt hslot)
          obtain ⟨failure, -, hfailure⟩ | ⟨_, j, _, destination, capabilities, _, _, -, hj, -, -,
              hdestination, -, -, hsent⟩ :=
            rt.sendIpc_spec sender receiver endpoint endpointCapability payload requested
          · cases congrArg Prod.fst (hsend.symm.trans hfailure)
          · obtain rfl : i = j := Option.some.inj (hslot.symm.trans hj)
            obtain rfl : d = destination := Option.some.inj (hd.symm.trans hdestination)
            have hruntime := congrArg (·.2.2) (hsend.symm.trans hsent)
            dsimp only at hruntime
            rw [hsend, hruntime] at h
            simp only [setDomain, Function.update_self, hpush, viaScheduler] at h
            rw [hwake] at h
            cases congrArg Prod.fst h

/-- **Main theorem.** A transfer that fails leaves the authority of every handle. And in every
    runtime reached from the empty one, a message that is not sent or not delivered leaves the
    sequence number of the endpoint, the scheduler, all inboxes and, in every domain, the
    authority of every handle for every set of rights. -/
theorem ipc_atomicity (hT : TASKS ≤ 2 ^ 32) (hC : CAPS ≤ 2 ^ 32)
    {ticksPerSecond quantumTicks : UInt32} {rt₀ : TaskRuntime TASKS CAPS}
    (hnew : new TASKS CAPS ticksPerSecond quantumTicks = .ok rt₀) (ops : List (RuntimeOp CAPS))
    {rt : TaskRuntime TASKS CAPS} (hrun : rt = run step rt₀ ops) :
    (∀ S D : ℕ, D ≤ 2 ^ 32 → ∀ payload requested (source : CapabilitySpace S)
      (destination destination' : CapabilitySpace D) error, Message.transfer payload requested
        source destination = (.error error, destination') → ∀ capability rights,
        destination'.authorize capability rights = destination.authorize capability rights) ∧
    (∀ sender receiver endpoint endpointCapability payload requested error endpoint' rt',
      rt.sendIpc sender receiver endpoint endpointCapability payload requested =
        (.error error, endpoint', rt') →
      endpoint' = endpoint ∧ rt.Unchanged rt') ∧
    ∀ sender receiver endpoint endpointCapability payload requested error endpoint' rt',
      rt.deliverIpc sender receiver endpoint endpointCapability payload requested =
        (.error error, endpoint', rt') →
      endpoint' = endpoint ∧ rt.Unchanged rt' := by
  have hinv : rt.Inv := hrun ▸ run_inv hT hC (new_inv hnew) ops
  refine ⟨fun S D hD payload requested source destination destination' error h => ?_,
    fun sender receiver endpoint endpointCapability payload requested error endpoint' rt' h => ?_,
    fun sender receiver endpoint endpointCapability payload requested error endpoint' rt' h => ?_⟩
  · exact Message.transfer_error hD h
  · exact sendIpc_error hC h
  · exact deliverIpc_error hC hinv h

/-- The first of two tasks holds a capability that it may delegate. -/
def delegation : List (RuntimeOp 2) :=
  twoTasks ++ [.capabilitiesMut ⟨0, 1⟩ fun s => (s.insert ⟨7⟩ (Rights.read.union Rights.delegate)).2]

/-- The delegated capability is derived and revoked again, as the endpoint refuses the message. -/
theorem ipc_atomicity_delegation : ∃ rt₀ : TaskRuntime 2 2, new 2 2 1000 1 = .ok rt₀ ∧
    ∃ rt', (run step rt₀ delegation).deliverIpc ⟨0, 1⟩ ⟨1, 1⟩ (Endpoint.new ⟨91⟩) ⟨0, 1⟩ []
        [(⟨0, 1⟩, Rights.read)] = (.error (.ipc .unauthorized), Endpoint.new ⟨91⟩, rt') ∧
      (run step rt₀ delegation).Unchanged rt' := by
  refine ⟨⟨⟨Scheduler.new 2, none, 0, 1, 1⟩, fun _ => none⟩, rfl, ?_⟩
  have hnew : new 2 2 1000 1 = .ok ⟨⟨Scheduler.new 2, none, 0, 1, 1⟩, fun _ => none⟩ := rfl
  obtain ⟨-, -, hdeliver⟩ := ipc_atomicity (by decide) (by decide) hnew delegation rfl
  have hrun : (run step ⟨⟨Scheduler.new 2, none, 0, 1, 1⟩, fun _ => none⟩ delegation).deliverIpc
      ⟨0, 1⟩ ⟨1, 1⟩ (Endpoint.new ⟨91⟩) ⟨0, 1⟩ [] [(⟨0, 1⟩, Rights.read)] =
      (.error (.ipc .unauthorized), Endpoint.new ⟨91⟩, _) := rfl
  exact ⟨_, hrun, (hdeliver _ _ _ _ _ _ _ _ _ hrun).2⟩

end TaskRuntime

end Mrml.Kernel
