import Mrml.Common.Run
import Mrml.Kernel.RuntimeInvariant

/-!
# Rights never amplify

Capability spaces live in the domains of several runtimes, in detached tickets
and outside of both. `derive`, `Message::transfer`, `send_ipc` and `deliver_ipc`
let authority flow from one space to another, `revoke` removes it and migration
carries a whole space to another place.

Results:
* `step_grants`: an entry after a step was there before, in the same space, or
  attenuates a delegable entry of the space that the step reads.
* `rights_never_amplify`: over every run each live entry descends from an
  initial entry for the same object whose rights include its own, and an object
  that is new to a space came from an entry with DELEGATE.
-/

namespace Mrml.Kernel

namespace CapabilitySpace

variable {N S D : ℕ}

/-- The space has a live entry for `o` with the rights `r`. -/
def Grants (s : CapabilitySpace N) (o : ObjectId) (r : Rights) : Prop :=
  ∃ i, (s.entries i).occupied = true ∧ (s.entries i).object = o ∧ (s.entries i).rights = r

/-- What `d'` grants was granted by `d` or attenuates a delegable entry of `source`. -/
def Attenuates (source : CapabilitySpace S) (d d' : CapabilitySpace D) : Prop :=
  ∀ o r, d'.Grants o r → d.Grants o r ∨
    ∃ r', source.Grants o r' ∧ r'.contains Rights.delegate = true ∧ r'.contains r = true

theorem Attenuates.refl (source : CapabilitySpace S) (d : CapabilitySpace D) :
    source.Attenuates d d := fun _ _ h => .inl h

theorem Attenuates.trans {source : CapabilitySpace S} {d d' d'' : CapabilitySpace D}
    (h : source.Attenuates d d') (h' : source.Attenuates d' d'') : source.Attenuates d d'' := by
  intro o r hr
  rcases h' o r hr with hr | hr
  · exact h o r hr
  · exact .inr hr

theorem revoke_grants (s : CapabilitySpace N) (c : Capability) {o : ObjectId} {r : Rights}
    (h : (s.revoke c).2.Grants o r) : s.Grants o r := by
  rcases s.revoke_cases c with ⟨-, h'⟩ | ⟨i, -, h'⟩
  · rwa [h'] at h
  · rw [h'] at h
    obtain ⟨j, hocc, hobj, hr⟩ := h
    have hji : j ≠ i := by
      rintro rfl
      simp at hocc
    simp only [setEntry_of_ne _ _ hji] at hocc hobj hr
    exact ⟨j, hocc, hobj, hr⟩

theorem insert_grants (s : CapabilitySpace N) (object : ObjectId) (rights : Rights) {o : ObjectId}
    {r : Rights} (h : (s.insert object rights).2.Grants o r) :
    s.Grants o r ∨ (o = object ∧ r = rights) := by
  rcases s.insert_cases object rights with ⟨-, h'⟩ | ⟨i, -, h'⟩
  · rw [h'] at h
    exact .inl h
  · rw [h'] at h
    obtain ⟨j, hocc, hobj, hr⟩ := h
    by_cases hji : j = i
    · subst hji
      simp only [setEntry_self, Entry.grant_object, Entry.grant_rights] at hobj hr
      exact .inr ⟨hobj.symm, hr.symm⟩
    · simp only [setEntry_of_ne _ _ hji] at hocc hobj hr
      exact .inl ⟨j, hocc, hobj, hr⟩

/-- A derivation attenuates one delegable entry. -/
theorem derive_attenuates (source : CapabilitySpace S) (c : Capability) (requested : Rights)
    (d : CapabilitySpace D) : source.Attenuates d (source.derive c requested d).2 := by
  intro o r h
  rcases source.derive_cases c requested d with ⟨-, h'⟩ | ⟨i, hi, hdelegate, hcontains, h'⟩
  · rw [h'] at h
    exact .inl h
  · rw [h'] at h
    rcases d.insert_grants _ _ h with h | ⟨rfl, rfl⟩
    · exact .inl h
    · exact .inr ⟨(source.entries i).rights, ⟨i, (liveSlot_eq_some.mp hi).2.1, rfl, rfl⟩, hdelegate,
        hcontains⟩

theorem revokeAll_attenuates (source : CapabilitySpace S) (handles : List Capability) :
    ∀ d : CapabilitySpace D, source.Attenuates d (d.revokeAll handles) := by
  induction handles with
  | nil => exact fun d => .refl source d
  | cons c rest ih =>
    intro d
    have hone : source.Attenuates d (d.revoke c).2 := fun o r h => .inl (d.revoke_grants c h)
    exact hone.trans (ih _)

theorem withdraw_attenuates (source : CapabilitySpace S) (handles : List Capability) :
    ∀ d : CapabilitySpace D, source.Attenuates d (d.withdraw handles).2 := by
  induction handles with
  | nil => exact fun d => .refl source d
  | cons c rest ih =>
    intro d
    have hone : source.Attenuates d (d.revoke c).2 := fun o r h => .inl (d.revoke_grants c h)
    rw [withdraw]
    generalize d.revoke c = out at *
    obtain ⟨result, d'⟩ := out
    cases result with
    | error error => exact hone
    | ok _ => exact hone.trans (ih d')

end CapabilitySpace

open CapabilitySpace

theorem Message.deriveAll_attenuates {S D : ℕ} (source : CapabilitySpace S)
    (requested : List (Capability × Rights)) :
    ∀ (derived : List Capability) (d : CapabilitySpace D),
      source.Attenuates d (deriveAll source requested derived d).2 := by
  induction requested with
  | nil => exact fun _ d => .refl source d
  | cons head requested ih =>
    intro derived d
    have hone := source.derive_attenuates head.1 head.2 d
    rw [deriveAll]
    generalize source.derive head.1 head.2 d = out at *
    obtain ⟨result, d'⟩ := out
    cases result with
    | ok c => exact hone.trans (ih _ d')
    | error error => exact hone.trans (revokeAll_attenuates source derived d')

/-- A transfer attenuates entries of the sender, also when it is rolled back. -/
theorem Message.transfer_attenuates {S D : ℕ} (payload : List UInt8)
    (requested : List (Capability × Rights)) (source : CapabilitySpace S) (d : CapabilitySpace D) :
    source.Attenuates d (transfer payload requested source d).2 := by
  have hall := deriveAll_attenuates source requested [] d
  unfold transfer
  split_ifs
  · exact .refl source d
  · exact .refl source d
  · generalize deriveAll source requested [] d = out at *
    obtain ⟨result, d'⟩ := out
    cases result <;> exact hall

theorem TaskRuntime.Transferred.attenuates {CAPS : ℕ} {payload : List UInt8}
    {requested : List (Capability × Rights)} {source d d' : CapabilitySpace CAPS}
    (h : Transferred payload requested source d d') : source.Attenuates d d' := by
  have htransfer := Message.transfer_attenuates payload requested source d
  rcases h with rfl | ⟨message, -, rfl⟩
  · exact htransfer
  · exact htransfer.trans (withdraw_attenuates source _ _)

namespace Authority

variable {CPUS TASKS CAPS : ℕ}

/-! ## Configurations -/

/-- Runtimes, detached tickets with their holders (callers, balancers and
    mailboxes) and further spaces of any size. -/
structure Config (CPUS TASKS CAPS : ℕ) where
  runtimes : Fin CPUS → TaskRuntime TASKS CAPS
  tickets : ℕ → Option (DetachedTaskDomain CAPS)
  loose : ℕ → Σ N, CapabilitySpace N

/-- Where a capability space can be. -/
inductive Place (CPUS TASKS : ℕ)
  | runtime (c : Fin CPUS) (i : Fin TASKS)
  | ticket (v : ℕ)
  | loose (k : ℕ)
deriving DecidableEq

/-- A call of one of the operations that move authority or whole domains. -/
inductive AuthorityOp (CPUS TASKS : ℕ)
  | derive (source destination : Place CPUS TASKS) (capability : Capability) (requested : Rights)
  | transfer (source destination : Place CPUS TASKS) (payload : List UInt8)
      (requested : List (Capability × Rights))
  | revoke (p : Place CPUS TASKS) (capability : Capability)
  | sendIpc (c : Fin CPUS) (sender receiver : TaskId) (endpoint : Endpoint)
      (endpointCapability : Capability) (payload : List UInt8)
      (requested : List (Capability × Rights))
  | deliverIpc (c : Fin CPUS) (sender receiver : TaskId) (endpoint : Endpoint)
      (endpointCapability : Capability) (payload : List UInt8)
      (requested : List (Capability × Rights))
  | detachDomain (c : Fin CPUS) (task : TaskId) (v : ℕ)
  | attachDomain (c : Fin CPUS) (v : ℕ)
  | hand (v w : ℕ)

namespace Config

/-- The space in a place, with its size. -/
def space (s : Config CPUS TASKS CAPS) : Place CPUS TASKS → Option (Σ N, CapabilitySpace N)
  | .runtime c i => ((s.runtimes c).domains i).map fun d => ⟨CAPS, d.capabilities⟩
  | .ticket v => (s.tickets v).map fun t => ⟨CAPS, t.domain.capabilities⟩
  | .loose k => some (s.loose k)

/-- Changes the space in a place that has one. -/
def modify (s : Config CPUS TASKS CAPS) (p : Place CPUS TASKS)
    (f : {N : ℕ} → CapabilitySpace N → CapabilitySpace N) : Config CPUS TASKS CAPS :=
  match p with
  | .runtime c i =>
    let domain := ((s.runtimes c).domains i).map fun d =>
      { d with capabilities := f d.capabilities }
    { s with runtimes := Function.update s.runtimes c ((s.runtimes c).setDomain i domain) }
  | .ticket v =>
    let ticket := (s.tickets v).map fun t =>
      { t with domain := { t.domain with capabilities := f t.domain.capabilities } }
    { s with tickets := Function.update s.tickets v ticket }
  | .loose k => { s with loose := Function.update s.loose k ⟨(s.loose k).1, f (s.loose k).2⟩ }

/-- `runtimes[c] = rt`. -/
def setRuntime (s : Config CPUS TASKS CAPS) (c : Fin CPUS) (rt : TaskRuntime TASKS CAPS) :
    Config CPUS TASKS CAPS :=
  { s with runtimes := Function.update s.runtimes c rt }

/-- One call. A space is never its own destination (`&self` and `&mut`), and a
    holder that receives a ticket must be free. `hand` passes a ticket on: a
    `publish` or `take` of a mailbox, or the pending slot of a balancer. -/
def step (s : Config CPUS TASKS CAPS) :
    AuthorityOp CPUS TASKS → Config CPUS TASKS CAPS
  | .derive p q capability requested =>
    match s.space p with
    | some ⟨_, source⟩ =>
      if p = q then s else s.modify q fun d => (source.derive capability requested d).2
    | none => s
  | .transfer p q payload requested =>
    match s.space p with
    | some ⟨_, source⟩ =>
      if p = q then s else s.modify q fun d => (Message.transfer payload requested source d).2
    | none => s
  | .revoke p capability => s.modify p fun space => (space.revoke capability).2
  | .sendIpc c sender receiver endpoint endpointCapability payload requested =>
    s.setRuntime c ((s.runtimes c).sendIpc sender receiver endpoint endpointCapability payload
      requested).2.2
  | .deliverIpc c sender receiver endpoint endpointCapability payload requested =>
    s.setRuntime c ((s.runtimes c).deliverIpc sender receiver endpoint endpointCapability payload
      requested).2.2
  | .detachDomain c task v =>
    if (s.tickets v).isSome then s
    else
      match (s.runtimes c).detachDomain task with
      | (.error _, rt) => s.setRuntime c rt
      | (.ok ticket, rt) =>
        { s.setRuntime c rt with tickets := Function.update s.tickets v (some ticket) }
  | .attachDomain c v =>
    let (_, ticket, rt) := (s.runtimes c).attachDomain (s.tickets v)
    { s.setRuntime c rt with tickets := Function.update s.tickets v ticket }
  | .hand v w =>
    if (s.tickets w).isSome then s
    else { s with tickets := Function.update (Function.update s.tickets v none) w (s.tickets v) }

/-! ## Where spaces go and where authority comes from -/

/-- The space that a call carries to another place: from where and to where. -/
def move (s : Config CPUS TASKS CAPS) :
    AuthorityOp CPUS TASKS → Option (Place CPUS TASKS × Place CPUS TASKS)
  | .detachDomain c task v =>
    match s.tickets v, (s.runtimes c).domainSlot task, ((s.runtimes c).detachDomain task).1 with
    | none, some i, .ok _ => some (.runtime c i, .ticket v)
    | _, _, _ => none
  | .attachDomain c v =>
    match (s.runtimes c).freeSlot, ((s.runtimes c).attachDomain (s.tickets v)).1 with
    | some i, .ok _ => some (.ticket v, .runtime c i)
    | _, _ => none
  | .hand v w => if (s.tickets w).isSome then none else some (.ticket v, .ticket w)
  | _ => none

/-- Where the space in place `p` is after the call. -/
def carry (s : Config CPUS TASKS CAPS) (op : AuthorityOp CPUS TASKS) (p : Place CPUS TASKS) :
    Place CPUS TASKS :=
  match s.move op with
  | some (source, destination) => if p = source then destination else p
  | none => p

/-- The space that a call reads authority from, and the one it writes it to. -/
def flow (s : Config CPUS TASKS CAPS) :
    AuthorityOp CPUS TASKS → Option (Place CPUS TASKS × Place CPUS TASKS)
  | .derive p q _ _ => some (p, q)
  | .transfer p q _ _ => some (p, q)
  | .sendIpc c sender receiver _ _ _ _ | .deliverIpc c sender receiver _ _ _ _ =>
    match (s.runtimes c).domainSlot sender, (s.runtimes c).domainSlot receiver with
    | some i, some j => some (.runtime c i, .runtime c j)
    | _, _ => none
  | _ => none

/-- The space in `p` has a live entry for `o` with the rights `r`. -/
def Grants (s : Config CPUS TASKS CAPS) (p : Place CPUS TASKS) (o : ObjectId) (r : Rights) :
    Prop := ∃ space, s.space p = some space ∧ space.2.Grants o r

/-- The entry `(q, o, r)` after a call was in the same space before it, or
    attenuates a delegable entry of the space that the call reads. -/
def Explained (s : Config CPUS TASKS CAPS) (op : AuthorityOp CPUS TASKS)
    (q : Place CPUS TASKS) (o : ObjectId) (r : Rights) : Prop :=
  (∃ p, s.carry op p = q ∧ s.Grants p o r) ∨
  ∃ p r', s.flow op = some (p, q) ∧ s.Grants p o r' ∧ r'.contains Rights.delegate = true ∧
    r'.contains r = true

variable {s : Config CPUS TASKS CAPS}

theorem space_modify_self (p : Place CPUS TASKS)
    (f : {N : ℕ} → CapabilitySpace N → CapabilitySpace N) :
    (s.modify p f).space p = (s.space p).map fun space => ⟨space.1, f space.2⟩ := by
  cases p with
  | runtime c i => simp [modify, space, TaskRuntime.setDomain, Function.comp_def]
  | ticket v => simp [modify, space, Function.comp_def]
  | loose k => simp [modify, space]

theorem space_modify_of_ne {p q : Place CPUS TASKS} (hne : q ≠ p)
    (f : {N : ℕ} → CapabilitySpace N → CapabilitySpace N) : (s.modify p f).space q = s.space q := by
  cases p with
  | runtime c i =>
    cases q with
    | runtime c' j =>
      by_cases hc : c' = c
      · subst hc
        have hj : j ≠ i := fun h => hne (by rw [h])
        simp [modify, space, TaskRuntime.setDomain, hj]
      · simp [modify, space, hc]
    | ticket v => rfl
    | loose k => rfl
  | ticket v =>
    cases q with
    | ticket w =>
      have hw : w ≠ v := fun h => hne (by rw [h])
      simp [modify, space, hw]
    | runtime c i => rfl
    | loose k => rfl
  | loose k =>
    cases q with
    | loose l =>
      have hl : l ≠ k := fun h => hne (by rw [h])
      simp [modify, space, hl]
    | runtime c i => rfl
    | ticket v => rfl

/-- Nothing changed. -/
theorem explained_self {op : AuthorityOp CPUS TASKS} (hmove : s.move op = none)
    {q : Place CPUS TASKS} {o : ObjectId} {r : Rights} (h : s.Grants q o r) :
    s.Explained op q o r :=
  .inl ⟨q, by simp [carry, hmove], h⟩

/-- A call that carries no space and only reads `a` and writes `b`. -/
theorem explained_modify {op : AuthorityOp CPUS TASKS} (hmove : s.move op = none)
    {a b : Place CPUS TASKS} (hflow : s.flow op = some (a, b)) {source : Σ N, CapabilitySpace N}
    (ha : s.space a = some source) {f : {N : ℕ} → CapabilitySpace N → CapabilitySpace N}
    (hf : ∀ {N : ℕ} (d : CapabilitySpace N), source.2.Attenuates d (f d)) {q : Place CPUS TASKS}
    {o : ObjectId} {r : Rights} (h : (s.modify b f).Grants q o r) : s.Explained op q o r := by
  obtain ⟨space, hspace, hr⟩ := h
  by_cases hq : q = b
  · subst hq
    rw [space_modify_self, Option.map_eq_some_iff] at hspace
    obtain ⟨old, hold, rfl⟩ := hspace
    rcases hf old.2 o r hr with hr | ⟨r', hr', hdelegate, hcontains⟩
    · exact explained_self hmove ⟨old, hold, hr⟩
    · exact .inr ⟨a, r', hflow, ⟨source, ha, hr'⟩, hdelegate, hcontains⟩
  · rw [space_modify_of_ne hq] at hspace
    exact explained_self hmove ⟨space, hspace, hr⟩

/-- What `send_ipc` and `deliver_ipc` do to the domains: the receiver's space
    gains attenuations of entries of the sender. -/
def IpcChange (rt rt' : TaskRuntime TASKS CAPS) (sender receiver : TaskId) : Prop :=
  rt'.domains = rt.domains ∨
  ∃ i j source destination d', rt.domainSlot sender = some i ∧ rt.domainSlot receiver = some j ∧
    rt.domains i = some source ∧ rt.domains j = some destination ∧
    source.capabilities.Attenuates destination.capabilities d'.capabilities ∧
    rt'.domains = Function.update rt.domains j (some d')

theorem sendIpc_ipcChange (rt : TaskRuntime TASKS CAPS) (sender receiver : TaskId)
    (endpoint : Endpoint) (endpointCapability : Capability) (payload : List UInt8)
    (requested : List (Capability × Rights)) :
    IpcChange rt (rt.sendIpc sender receiver endpoint endpointCapability payload requested).2.2
      sender receiver := by
  rcases rt.sendIpc_spec sender receiver endpoint endpointCapability payload requested with
    ⟨error, -, h⟩ | ⟨i, j, source, destination, capabilities, result, endpoint', hi, hj, -, hs, hd,
      htransfer, -, h⟩
  · rw [h]
    exact .inl rfl
  · rw [h]
    exact .inr ⟨i, j, source, destination, { destination with capabilities }, hi, hj, hs, hd,
      htransfer.attenuates, rfl⟩

theorem deliverIpc_ipcChange (rt : TaskRuntime TASKS CAPS) (sender receiver : TaskId)
    (endpoint : Endpoint) (endpointCapability : Capability) (payload : List UInt8)
    (requested : List (Capability × Rights)) :
    IpcChange rt (rt.deliverIpc sender receiver endpoint endpointCapability payload requested).2.2
      sender receiver := by
  rcases rt.deliverIpc_spec sender receiver endpoint endpointCapability payload requested with
    ⟨error, -, h⟩ | ⟨i, j, source, destination, capabilities, inbox, scheduler, result, endpoint',
      hi, hj, -, hs, hd, htransfer, -, -, h⟩
  · rw [h]
    exact .inl rfl
  · rw [h]
    exact .inr ⟨i, j, source, destination, { destination with capabilities, inbox }, hi, hj, hs, hd,
      htransfer.attenuates, rfl⟩

theorem space_setRuntime {c : Fin CPUS} {rt : TaskRuntime TASKS CAPS} (q : Place CPUS TASKS)
    (hq : ∀ i, q = .runtime c i → rt.domains i = (s.runtimes c).domains i) :
    (s.setRuntime c rt).space q = s.space q := by
  cases q with
  | runtime c' i =>
    by_cases hc : c' = c
    · subst hc
      simp [setRuntime, space, hq i rfl]
    · simp [setRuntime, space, hc]
  | ticket v => rfl
  | loose k => rfl

theorem explained_ipc {op : AuthorityOp CPUS TASKS} (hmove : s.move op = none) {c : Fin CPUS}
    {sender receiver : TaskId} {rt' : TaskRuntime TASKS CAPS}
    (hflow : ∀ i j, (s.runtimes c).domainSlot sender = some i →
      (s.runtimes c).domainSlot receiver = some j →
      s.flow op = some (.runtime c i, .runtime c j))
    (hchange : IpcChange (s.runtimes c) rt' sender receiver) {q : Place CPUS TASKS} {o : ObjectId}
    {r : Rights} (h : (s.setRuntime c rt').Grants q o r) : s.Explained op q o r := by
  rcases hchange with hsame | ⟨i, j, source, destination, d', hi, hj, hs, hd, hatt, hdomains⟩
  · obtain ⟨space, hspace, hr⟩ := h
    rw [space_setRuntime q fun i _ => by rw [hsame]] at hspace
    exact explained_self hmove ⟨space, hspace, hr⟩
  · obtain ⟨space, hspace, hr⟩ := h
    by_cases hq : q = .runtime c j
    · subst hq
      have hnew : (s.setRuntime c rt').space (.runtime c j) = some ⟨CAPS, d'.capabilities⟩ := by
        simp [setRuntime, Config.space, hdomains]
      rw [hnew] at hspace
      cases hspace
      rcases hatt o r hr with hr | ⟨r', hr', hdelegate, hcontains⟩
      · exact explained_self hmove ⟨⟨CAPS, destination.capabilities⟩, by simp [Config.space, hd], hr⟩
      · exact .inr ⟨.runtime c i, r', hflow i j hi hj,
          ⟨⟨CAPS, source.capabilities⟩, by simp [Config.space, hs], hr'⟩, hdelegate, hcontains⟩
    · rw [space_setRuntime q] at hspace
      · exact explained_self hmove ⟨space, hspace, hr⟩
      · rintro k rfl
        have hkj : k ≠ j := fun h => hq (by rw [h])
        rw [hdomains, Function.update_of_ne hkj]

/-- A call that carries the space of `a` to the free place `b`. -/
theorem explained_move {op : AuthorityOp CPUS TASKS} {a b : Place CPUS TASKS}
    (hmove : s.move op = some (a, b)) {s' : Config CPUS TASKS CAPS} (hb : s'.space b = s.space a)
    (ha : a ≠ b → s'.space a = none) (hother : ∀ p, p ≠ a → p ≠ b → s'.space p = s.space p)
    {q : Place CPUS TASKS} {o : ObjectId} {r : Rights} (h : s'.Grants q o r) :
    s.Explained op q o r := by
  obtain ⟨space, hspace, hr⟩ := h
  left
  by_cases hq : q = b
  · subst hq
    exact ⟨a, by simp [carry, hmove], space, hb ▸ hspace, hr⟩
  · by_cases hqa : q = a
    · subst hqa
      rw [ha hq] at hspace
      cases hspace
    · exact ⟨q, by simp [carry, hmove, hqa], space, hother q hqa hq ▸ hspace, hr⟩

/-- `detach_domain` leaves the domains or takes one out, whatever the scheduler says. -/
theorem detachDomain_domains (rt : TaskRuntime TASKS CAPS) (task : TaskId) :
    ((∃ error, (rt.detachDomain task).1 = .error error) ∧
      (rt.detachDomain task).2.domains = rt.domains) ∨
    ∃ i ticket, rt.domainSlot task = some i ∧ rt.domains i = some ticket.domain ∧
      (rt.detachDomain task).1 = .ok ticket ∧
      (rt.detachDomain task).2.domains = Function.update rt.domains i none := by
  unfold TaskRuntime.detachDomain
  cases hs : rt.domainSlot task with
  | none => exact .inl ⟨⟨_, rfl⟩, rfl⟩
  | some i =>
    obtain ⟨d, hd, -⟩ := TaskRuntime.domainSlot_some hs
    simp only [hd, TaskRuntime.setDomain]
    generalize rt.scheduler.detach task = out
    obtain ⟨result, scheduler⟩ := out
    cases result with
    | ok scheduling => exact .inr ⟨i, ⟨scheduling, d⟩, rfl, hd, rfl, rfl⟩
    | error error => exact .inl ⟨⟨_, rfl⟩, by simp [← hd]⟩

/-- `attach_domain` leaves the domains and the ticket's domain, or puts that
    domain into the free slot. -/
theorem attachDomain_domains (rt : TaskRuntime TASKS CAPS)
    (ticket : Option (DetachedTaskDomain CAPS)) :
    ((∃ error, (rt.attachDomain ticket).1 = .error error) ∧
      (rt.attachDomain ticket).2.1.map DetachedTaskDomain.domain =
        ticket.map DetachedTaskDomain.domain ∧
      (rt.attachDomain ticket).2.2.domains = rt.domains) ∨
    ∃ i t migration, rt.freeSlot = some i ∧ ticket = some t ∧
      (rt.attachDomain ticket).1 = .ok migration ∧ (rt.attachDomain ticket).2.1 = none ∧
      (rt.attachDomain ticket).2.2.domains =
        Function.update rt.domains i (some { t.domain with task := migration.destination }) := by
  unfold TaskRuntime.attachDomain
  cases hs : rt.freeSlot with
  | none => exact .inl ⟨⟨_, rfl⟩, rfl, rfl⟩
  | some i =>
    cases ticket with
    | none => exact .inl ⟨⟨_, rfl⟩, rfl, rfl⟩
    | some t =>
      dsimp only
      generalize rt.scheduler.attach t.scheduling = out
      obtain ⟨result, scheduler⟩ := out
      cases result with
      | ok migration => exact .inr ⟨i, t, migration, rfl, rfl, rfl, rfl, rfl⟩
      | error error => exact .inl ⟨⟨_, rfl⟩, rfl, rfl⟩

theorem detachDomain_grants {c : Fin CPUS} {task : TaskId} {v : ℕ} {q : Place CPUS TASKS}
    {o : ObjectId} {r : Rights} (h : (s.step (.detachDomain c task v)).Grants q o r) :
    s.Explained (.detachDomain c task v) q o r := by
  rw [step] at h
  cases hv : s.tickets v with
  | some t =>
    rw [hv] at h
    exact explained_self (by simp [move, hv]) h
  | none =>
    rw [hv] at h
    simp only [Option.isSome_none, Bool.false_eq_true, if_false] at h
    rcases detachDomain_domains (s.runtimes c) task with
      ⟨⟨error, herr⟩, hdomains⟩ | ⟨i, ticket, hi, hd, hok, hdomains⟩
    · have hmove : s.move (.detachDomain c task v) = none := by simp [move, hv, herr]
      generalize (s.runtimes c).detachDomain task = out at *
      obtain ⟨result, rt⟩ := out
      obtain rfl : result = .error error := herr
      obtain ⟨space, hspace, hr⟩ := h
      rw [space_setRuntime q fun i _ => by rw [hdomains]] at hspace
      exact explained_self hmove ⟨space, hspace, hr⟩
    · have hmove : s.move (.detachDomain c task v) = some (.runtime c i, .ticket v) := by
        simp [move, hv, hok, hi]
      generalize (s.runtimes c).detachDomain task = out at *
      obtain ⟨result, rt⟩ := out
      obtain rfl : result = .ok ticket := hok
      dsimp only at hdomains
      refine explained_move hmove ?_ (fun _ => ?_) (fun p hpa hpb => ?_) h
      · simp [Config.space, hd]
      · simp [Config.space, setRuntime, hdomains]
      · cases p with
        | runtime c' k =>
          by_cases hc : c' = c
          · subst hc
            have hk : k ≠ i := fun h => hpa (by rw [h])
            simp [Config.space, setRuntime, hdomains, hk]
          · simp [Config.space, setRuntime, hc]
        | ticket w =>
          have hw : w ≠ v := fun h => hpb (by rw [h])
          simp [Config.space, hw]
        | loose k => rfl

theorem attachDomain_grants {c : Fin CPUS} {v : ℕ} {q : Place CPUS TASKS} {o : ObjectId}
    {r : Rights} (h : (s.step (.attachDomain c v)).Grants q o r) :
    s.Explained (.attachDomain c v) q o r := by
  rw [step] at h
  rcases attachDomain_domains (s.runtimes c) (s.tickets v) with
    ⟨⟨error, herr⟩, hticket, hdomains⟩ | ⟨i, t, migration, hi, ht, hok, hticket, hdomains⟩
  · have hmove : s.move (.attachDomain c v) = none := by
      cases hf : (s.runtimes c).freeSlot <;> simp [move, hf, herr]
    generalize (s.runtimes c).attachDomain (s.tickets v) = out at *
    obtain ⟨result, ticket, rt⟩ := out
    dsimp only at hticket hdomains
    -- the ticket that comes back has the same domain
    have hsame : ({ s.setRuntime c rt with tickets := Function.update s.tickets v ticket } :
        Config CPUS TASKS CAPS).space q = s.space q := by
      cases q with
      | runtime c' k =>
        by_cases hc : c' = c
        · subst hc
          simp [Config.space, setRuntime, hdomains]
        · simp [Config.space, setRuntime, hc]
      | ticket w =>
        by_cases hw : w = v
        · subst hw
          have := congrArg (Option.map fun d : TaskDomain CAPS =>
            (⟨CAPS, d.capabilities⟩ : Σ N, CapabilitySpace N)) hticket
          simpa [Config.space, Function.comp_def] using this
        · simp [Config.space, hw]
      | loose k => rfl
    obtain ⟨space, hspace, hr⟩ := h
    exact explained_self hmove ⟨space, hsame ▸ hspace, hr⟩
  · have hmove : s.move (.attachDomain c v) = some (.ticket v, .runtime c i) := by
      simp [move, hi, hok]
    generalize (s.runtimes c).attachDomain (s.tickets v) = out at *
    obtain ⟨result, ticket, rt⟩ := out
    obtain rfl : ticket = none := hticket
    dsimp only at hdomains
    refine explained_move hmove ?_ (fun _ => ?_) (fun p hpa hpb => ?_) h
    · simp [Config.space, setRuntime, hdomains, ht]
    · simp [Config.space]
    · cases p with
      | runtime c' k =>
        by_cases hc : c' = c
        · subst hc
          have hk : k ≠ i := fun h => hpb (by rw [h])
          simp [Config.space, setRuntime, hdomains, hk]
        · simp [Config.space, setRuntime, hc]
      | ticket w =>
        have hw : w ≠ v := fun h => hpa (by rw [h])
        simp [Config.space, hw]
      | loose k => rfl

theorem hand_grants {v w : ℕ} {q : Place CPUS TASKS} {o : ObjectId} {r : Rights}
    (h : (s.step (.hand v w)).Grants q o r) : s.Explained (.hand v w) q o r := by
  rw [step] at h
  split_ifs at h with hw
  · exact explained_self (by simp [move, hw]) h
  · have hmove : s.move (.hand v w) = some (.ticket v, .ticket w) := by simp [move, hw]
    refine explained_move hmove ?_ (fun hne => ?_) (fun p hpa hpb => ?_) h
    · simp [Config.space]
    · have hvw : v ≠ w := fun h => hne (by rw [h])
      simp [Config.space, hvw]
    · cases p with
      | ticket u =>
        have huv : u ≠ v := fun h => hpa (by rw [h])
        have huw : u ≠ w := fun h => hpb (by rw [h])
        simp [Config.space, huv, huw]
      | runtime c' k => rfl
      | loose k => rfl

/-- Every entry after a call is explained by what was there before. -/
theorem step_grants (op : AuthorityOp CPUS TASKS) {q : Place CPUS TASKS} {o : ObjectId} {r : Rights}
    (h : (s.step op).Grants q o r) : s.Explained op q o r := by
  cases op with
  | derive p q' capability requested =>
    rw [step] at h
    cases hp : s.space p with
    | none =>
      rw [hp] at h
      exact explained_self rfl h
    | some source =>
      rw [hp] at h
      dsimp only at h
      split_ifs at h
      · exact explained_self rfl h
      · exact explained_modify rfl rfl hp (source.2.derive_attenuates capability requested) h
  | transfer p q' payload requested =>
    rw [step] at h
    cases hp : s.space p with
    | none =>
      rw [hp] at h
      exact explained_self rfl h
    | some source =>
      rw [hp] at h
      dsimp only at h
      split_ifs at h
      · exact explained_self rfl h
      · exact explained_modify rfl rfl hp (Message.transfer_attenuates payload requested source.2) h
  | revoke p capability =>
    rw [step] at h
    obtain ⟨space, hspace, hr⟩ := h
    by_cases hq : q = p
    · subst hq
      rw [space_modify_self, Option.map_eq_some_iff] at hspace
      obtain ⟨old, hold, rfl⟩ := hspace
      exact explained_self rfl ⟨old, hold, old.2.revoke_grants capability hr⟩
    · rw [space_modify_of_ne hq] at hspace
      exact explained_self rfl ⟨space, hspace, hr⟩
  | sendIpc c sender receiver endpoint endpointCapability payload requested =>
    exact explained_ipc rfl (fun i j hi hj => by simp only [flow, hi, hj])
      (sendIpc_ipcChange _ sender receiver endpoint endpointCapability payload requested) h
  | deliverIpc c sender receiver endpoint endpointCapability payload requested =>
    exact explained_ipc rfl (fun i j hi hj => by simp only [flow, hi, hj])
      (deliverIpc_ipcChange _ sender receiver endpoint endpointCapability payload requested) h
  | detachDomain c task v => exact detachDomain_grants h
  | attachDomain c v => exact attachDomain_grants h
  | hand v w => exact hand_grants h

end Config

/-! ## Descent over whole runs -/

open Config

/-- The space in `p` before the calls is the one in `q` after them. -/
def Carried : Config CPUS TASKS CAPS → List (AuthorityOp CPUS TASKS) → Place CPUS TASKS →
    Place CPUS TASKS → Prop
  | _, [], p, q => p = q
  | s, op :: ops, p, q => Carried (s.step op) ops (s.carry op p) q

/-- How a live entry of the space in `q` came about in the run `ops` from `s₀`:
    it was there at the start, it stayed in its space over a call, or a call
    derived it from a live entry with DELEGATE. -/
inductive Descends (s₀ : Config CPUS TASKS CAPS) :
    List (AuthorityOp CPUS TASKS) → Place CPUS TASKS → ObjectId → Rights → Prop
  | initial {p : Place CPUS TASKS} {o : ObjectId} {r : Rights} (h : s₀.Grants p o r) :
      Descends s₀ [] p o r
  | kept {ops : List (AuthorityOp CPUS TASKS)} {op : AuthorityOp CPUS TASKS}
      {p : Place CPUS TASKS} {o : ObjectId} {r : Rights} (h : Descends s₀ ops p o r)
      (live : (run step s₀ ops).Grants p o r) :
      Descends s₀ (ops ++ [op]) ((run step s₀ ops).carry op p) o r
  | granted {ops : List (AuthorityOp CPUS TASKS)} {op : AuthorityOp CPUS TASKS}
      {p q : Place CPUS TASKS} {o : ObjectId} {r r' : Rights} (h : Descends s₀ ops p o r)
      (live : (run step s₀ ops).Grants p o r) (flow : (run step s₀ ops).flow op = some (p, q))
      (delegate : r.contains Rights.delegate = true) (contains : r.contains r' = true) :
      Descends s₀ (ops ++ [op]) q o r'

/-- The last derivation behind an entry: the call, the entry it read and the
    way of the space that received it. -/
def Granted (s₀ : Config CPUS TASKS CAPS) (ops : List (AuthorityOp CPUS TASKS))
    (q : Place CPUS TASKS) (o : ObjectId) (r : Rights) : Prop :=
  ∃ past op rest p q' r', ops = past ++ op :: rest ∧ Descends s₀ past p o r' ∧
    (run step s₀ past).Grants p o r' ∧ (run step s₀ past).flow op = some (p, q') ∧
    r'.contains Rights.delegate = true ∧ r'.contains r = true ∧
    Carried (run step s₀ (past ++ [op])) rest q' q

theorem carried_append (s : Config CPUS TASKS CAPS) (ops : List (AuthorityOp CPUS TASKS))
    (op : AuthorityOp CPUS TASKS) {p q : Place CPUS TASKS} (h : Carried s ops p q) :
    Carried s (ops ++ [op]) p ((run step s ops).carry op q) := by
  induction ops generalizing s p with
  | nil =>
    cases h
    rfl
  | cons head ops ih => exact ih _ h

/-- Every live entry descends from an initial one. -/
theorem run_descends (s₀ : Config CPUS TASKS CAPS) (ops : List (AuthorityOp CPUS TASKS)) :
    ∀ {q : Place CPUS TASKS} {o : ObjectId} {r : Rights}, (run step s₀ ops).Grants q o r →
      Descends s₀ ops q o r := by
  induction ops using List.reverseRecOn with
  | nil => exact fun h => .initial h
  | append_singleton ops op ih =>
    intro q o r h
    rw [run_append] at h
    rcases step_grants op h with ⟨p, rfl, hp⟩ | ⟨p, r', hflow, hp, hdelegate, hcontains⟩
    · exact .kept (ih hp) hp
    · exact .granted (ih hp) hp hflow hdelegate hcontains

theorem Descends.initial_entry {s₀ : Config CPUS TASKS CAPS} {ops : List (AuthorityOp CPUS TASKS)}
    {q : Place CPUS TASKS} {o : ObjectId} {r : Rights} (h : Descends s₀ ops q o r) :
    ∃ p₀ r₀, s₀.Grants p₀ o r₀ ∧ r₀.contains r = true := by
  induction h with
  | initial h => exact ⟨_, _, h, Rights.contains_self _⟩
  | kept _ _ ih => exact ih
  | granted _ _ _ _ contains ih =>
    obtain ⟨p₀, r₀, h₀, hr₀⟩ := ih
    exact ⟨p₀, r₀, h₀, Rights.contains_trans hr₀ contains⟩

/-- Either the entry never left its space, or there is a last derivation. -/
theorem Descends.cases_last {s₀ : Config CPUS TASKS CAPS} {ops : List (AuthorityOp CPUS TASKS)}
    {q : Place CPUS TASKS} {o : ObjectId} {r : Rights} (h : Descends s₀ ops q o r) :
    (∃ p₁, Carried s₀ ops p₁ q ∧ s₀.Grants p₁ o r) ∨ Granted s₀ ops q o r := by
  induction h with
  | @initial p o r h => exact .inl ⟨p, rfl, h⟩
  | @kept ops op p o r _ _ ih =>
    rcases ih with ⟨p₁, hcarried, hp₁⟩ |
      ⟨past, op', rest, p', q', r', rfl, hdesc, hlive, hflow, hdelegate, hcontains, hcarried⟩
    · exact .inl ⟨p₁, carried_append s₀ ops op hcarried, hp₁⟩
    · right
      have hcarry := carried_append _ rest op hcarried
      rw [← run_append, List.append_assoc, List.singleton_append] at hcarry
      exact ⟨past, op', rest ++ [op], p', q', r', by simp, hdesc, hlive, hflow, hdelegate, hcontains,
        hcarry⟩
  | @granted ops op p q o r r' hdesc live flow delegate contains _ =>
    exact .inr ⟨ops, op, [], p, q, r, rfl, hdesc, live, flow, delegate, contains, rfl⟩

/-- **Main theorem.** Over every run from every configuration, each live entry
    descends from an initial entry for the same object whose rights include its
    own. If the space did not hold the object at the start, the entry was
    derived in the run from one with DELEGATE, and its initial ancestor had it. -/
theorem rights_never_amplify (s₀ : Config CPUS TASKS CAPS) (ops : List (AuthorityOp CPUS TASKS))
    {q : Place CPUS TASKS} {o : ObjectId} {r : Rights} (h : (run step s₀ ops).Grants q o r) :
    Descends s₀ ops q o r ∧
    ∃ p₀ r₀, s₀.Grants p₀ o r₀ ∧ r₀.contains r = true ∧
      ((∀ p₁ r₁, Carried s₀ ops p₁ q → ¬ s₀.Grants p₁ o r₁) →
        Granted s₀ ops q o r ∧ r₀.contains Rights.delegate = true) := by
  have hdesc := run_descends s₀ ops h
  refine ⟨hdesc, ?_⟩
  rcases hdesc.cases_last with ⟨p₁, hcarried, hp₁⟩ | hgranted
  · exact ⟨p₁, r, hp₁, Rights.contains_self r, fun hnew => absurd hp₁ (hnew p₁ r hcarried)⟩
  · have hgranted' := hgranted
    obtain ⟨past, op, rest, p, q', r', -, hdesc', -, -, hdelegate, hcontains, -⟩ := hgranted'
    obtain ⟨p₀, r₀, h₀, hr₀⟩ := hdesc'.initial_entry
    exact ⟨p₀, r₀, h₀, Rights.contains_trans hr₀ hcontains,
      fun _ => ⟨hgranted, Rights.contains_trans hr₀ hdelegate⟩⟩

/-- An empty runtime and a delegable, readable object in the first of the other spaces. -/
def oneDelegable : Config 1 1 1 where
  runtimes := fun _ => ⟨⟨Scheduler.new 1, none, 0, 1, 1⟩, fun _ => none⟩
  tickets := fun _ => none
  loose := fun k =>
    if k = 0 then ⟨1, ((CapabilitySpace.new 1).insert ⟨7⟩ (Rights.read.union Rights.delegate)).2⟩
    else ⟨1, CapabilitySpace.new 1⟩

theorem rights_never_amplify_oneDelegable :
    (run step oneDelegable [.derive (.loose 0) (.loose 1) ⟨0, 1⟩ Rights.read]).Grants
      (.loose 1) ⟨7⟩ Rights.read ∧
    ∃ p₀ r₀, oneDelegable.Grants p₀ ⟨7⟩ r₀ ∧ r₀.contains Rights.read = true := by
  have h : (run step oneDelegable [.derive (.loose 0) (.loose 1) ⟨0, 1⟩ Rights.read]).Grants
      (.loose 1) ⟨7⟩ Rights.read := ⟨_, rfl, (0 : Fin 1), rfl, rfl, rfl⟩
  obtain ⟨-, p₀, r₀, h₀, hr₀, -⟩ := rights_never_amplify oneDelegable _ h
  exact ⟨h, p₀, r₀, h₀, hr₀⟩

end Authority

end Mrml.Kernel
