import Mrml.Common.Run
import Mrml.Kernel.Balancer

/-!
# The ownership mailbox under contention

`OwnershipMailbox<T>` (`crates/mrml-kernel/src/scheduler.rs`, lines 240–299) hands values
of any type from publishers to takers, through one cell that an atomic state guards. Here
a set `P` of parties of any size calls `publish` and `take`; each atomic operation and
each access to the cell is one step, and the steps of different parties interleave in
any order. The history records the calls that have returned, in the order of their last
steps. Dropping the mailbox needs exclusive ownership and is not part of a run.

Results:
* `mailbox_transfer`: over every run, the values taken are a prefix of the values
  accepted, and a refused publish returns its argument.
-/

namespace Mrml.Kernel.OwnershipMailbox

/-- Where a party stands: in no call, or before the next step of a call. -/
inductive Phase (T : Type)
  | idle
  /-- `publish(task)`, before the exchange EMPTY → WRITING. -/
  | offering (task : T)
  /-- Before the write of the cell. -/
  | writing (task : T)
  /-- Before the store of FULL. -/
  | committing
  /-- `take()`, before the exchange FULL → READING. -/
  | taking
  /-- Before the read of the cell. -/
  | reading
  /-- Before the store of EMPTY. -/
  | releasing (task : T)

/-- What a call returns: `Ok(())` or `Err((Occupied, task))` of `publish`, `Some(task)` or
    `None` of `take`. -/
inductive Outcome (T : Type)
  | accepted
  | occupied (task : T)
  | taken (task : T)
  | nothing

/-- A call that has returned, with the argument it was given. -/
structure Record (P T : Type) where
  party : P
  given : Option T
  outcome : Outcome T

/-- The value that the call put into the mailbox. -/
def Record.accepted? {P T : Type} (r : Record P T) : Option T :=
  match r.outcome with
  | .accepted => r.given
  | _ => none

/-- The value that the call took out of the mailbox. -/
def Record.taken? {P T : Type} (r : Record P T) : Option T :=
  match r.outcome with
  | .taken task => some task
  | _ => none

/-- The mailbox and its users. `given` is the argument of the last `publish` of a party. -/
structure World (P T : Type) where
  mailbox : OwnershipMailbox T
  phase : P → Phase T
  given : P → Option T
  history : List (Record P T)

/-- A party enters a call, or takes its next step. -/
inductive Op (P T : Type)
  | publish (p : P) (task : T)
  | take (p : P)
  | resume (p : P)

namespace World

variable {P T : Type}

/-- The new mailbox. -/
def new (P T : Type) : World P T := ⟨.new T, fun _ => .idle, fun _ => none, []⟩

/-- The values accepted so far, in order. -/
def accepted (s : World P T) : List T := s.history.filterMap Record.accepted?

/-- The values taken so far, in order. -/
def taken (s : World P T) : List T := s.history.filterMap Record.taken?

variable [DecidableEq P]

/-- Party `p` goes on in its call. -/
def move (s : World P T) (p : P) (mailbox : OwnershipMailbox T) (phase : Phase T) : World P T :=
  { s with mailbox, phase := Function.update s.phase p phase }

/-- The call of party `p` returns. -/
def finish (s : World P T) (p : P) (mailbox : OwnershipMailbox T) (outcome : Outcome T) :
    World P T :=
  { s with
    mailbox
    phase := Function.update s.phase p .idle
    history := s.history ++ [⟨p, s.given p, outcome⟩] }

/-- A party that is in no call enters one. -/
def enter (s : World P T) (p : P) (given : Option T) (phase : Phase T) : World P T :=
  match s.phase p with
  | .idle =>
    { s with
      phase := Function.update s.phase p phase
      given := Function.update s.given p given }
  | _ => s

/-- The next step of party `p` (`publish`, lines 264–283, and `take`, lines 285–299).
    Reading an uninitialized cell is undefined; here the party does not go on. -/
def resume (s : World P T) (p : P) : World P T :=
  match s.phase p with
  | .idle => s
  | .offering task =>
    if s.mailbox.state = .empty then
      s.move p { s.mailbox with state := .writing } (.writing task)
    else s.finish p s.mailbox (.occupied task)
  | .writing task => s.move p { s.mailbox with task := some task } .committing
  | .committing => s.finish p { s.mailbox with state := .full } .accepted
  | .taking =>
    if s.mailbox.state = .full then s.move p { s.mailbox with state := .reading } .reading
    else s.finish p s.mailbox .nothing
  | .reading =>
    match s.mailbox.task with
    | none => s
    | some task => s.move p s.mailbox (.releasing task)
  | .releasing task => s.finish p { s.mailbox with state := .empty } (.taken task)

/-- One step. -/
def step (s : World P T) : Op P T → World P T
  | .publish p task => s.enter p (some task) (.offering task)
  | .take p => s.enter p none .taking
  | .resume p => s.resume p

end World

/-! ## The invariant -/

/-- The party may access the cell. -/
def Phase.claims {T : Type} : Phase T → Bool
  | .writing _ | .committing | .reading | .releasing _ => true
  | _ => false

/-- The mailbox is in the state that the party has left it in, and the party holds the
    value that its call is about. -/
def Phase.Fits {T : Type} (mailbox : OwnershipMailbox T) (given : Option T) : Phase T → Prop
  | .idle => True
  | .offering task => given = some task
  | .writing task => mailbox.state = .writing ∧ given = some task
  | .committing => mailbox.state = .writing ∧ ∃ task, given = some task ∧ mailbox.task = some task
  | .taking => True
  | .reading => mailbox.state = .reading
  | .releasing task => mailbox.state = .reading ∧ mailbox.task = some task

/-- The accepted values that are not taken yet. -/
def Kept {T : Type} (mailbox : OwnershipMailbox T) (kept : List T) : Prop :=
  match mailbox.state with
  | .empty | .writing => kept = []
  | .full | .reading => ∃ task, mailbox.task = some task ∧ kept = [task]

namespace World

variable {P T : Type}

/-- At most one party may access the cell, and every accepted value is taken or in it. -/
structure Inv (s : World P T) : Prop where
  fits : ∀ p, (s.phase p).Fits s.mailbox (s.given p)
  exclusive : ∀ {p q}, (s.phase p).claims = true → (s.phase q).claims = true → p = q
  kept : ∃ kept, s.accepted = s.taken ++ kept ∧ Kept s.mailbox kept
  returned : ∀ r ∈ s.history, ∀ task, r.outcome = .occupied task → r.given = some task

theorem new_inv : (new P T).Inv where
  fits := fun _ => trivial
  exclusive := fun h => nomatch h
  kept := ⟨[], rfl, rfl⟩
  returned := fun _ h => nomatch h

/-- A party with access has the mailbox in state WRITING or READING. -/
theorem Inv.claimed {s : World P T} (hs : s.Inv) {p : P} (h : (s.phase p).claims = true) :
    s.mailbox.state = .writing ∨ s.mailbox.state = .reading := by
  have hfits := hs.fits p
  cases hphase : s.phase p with
  | idle | offering task | taking =>
    rw [hphase] at h
    cases h
  | writing task | committing =>
    rw [hphase] at hfits
    exact .inl hfits.1
  | reading =>
    rw [hphase] at hfits
    exact .inr hfits
  | releasing task =>
    rw [hphase] at hfits
    exact .inr hfits.1

/-- Without access, a party does not depend on the mailbox. -/
theorem fits_of_not_claims {phase : Phase T} {mailbox mailbox' : OwnershipMailbox T}
    {given : Option T} (h : phase.claims = false) (hfits : phase.Fits mailbox given) :
    phase.Fits mailbox' given := by
  cases phase with
  | idle | taking => trivial
  | offering task => exact hfits
  | writing task | committing | reading | releasing task => cases h

/-- The others have no access while `p` has. -/
theorem Inv.alone {s : World P T} (hs : s.Inv) {p : P} (hp : (s.phase p).claims = true) (q : P)
    (hq : q ≠ p) : (s.phase q).claims = false := by
  by_contra h
  rw [Bool.not_eq_false] at h
  exact hq (hs.exclusive h hp)

/-- Nobody has access while the mailbox is EMPTY or FULL. -/
theorem Inv.unclaimed {s : World P T} (hs : s.Inv)
    (h : s.mailbox.state = .empty ∨ s.mailbox.state = .full) (q : P) :
    (s.phase q).claims = false := by
  by_contra hq
  rw [Bool.not_eq_false] at hq
  rcases hs.claimed hq with hw | hr
  · rw [hw] at h
    rcases h with h | h <;> cases h
  · rw [hr] at h
    rcases h with h | h <;> cases h

variable [DecidableEq P]

/-- A step of party `p` that leaves the others alone: they have no access, or the step
    neither writes the mailbox nor gains access. -/
theorem Inv.advance {s s' : World P T} (hs : s.Inv) (p : P) {phase : Phase T}
    (hphase : s'.phase = Function.update s.phase p phase)
    (hgiven : ∀ q, q ≠ p → s'.given q = s.given q)
    (hothers : (∀ q, q ≠ p → (s.phase q).claims = false) ∨
      (s'.mailbox = s.mailbox ∧ phase.claims = false))
    (hfits : phase.Fits s'.mailbox (s'.given p))
    (hkept : ∃ kept, s'.accepted = s'.taken ++ kept ∧ Kept s'.mailbox kept)
    (hreturned : ∀ r ∈ s'.history, ∀ task, r.outcome = .occupied task → r.given = some task) :
    s'.Inv := by
  refine ⟨fun q => ?_, fun {q r} hq hr => ?_, hkept, hreturned⟩
  · rw [hphase]
    by_cases hqp : q = p
    · subst hqp
      rw [Function.update_self]
      exact hfits
    · rw [Function.update_of_ne hqp, hgiven q hqp]
      rcases hothers with halone | ⟨hsame, -⟩
      · exact fits_of_not_claims (halone q hqp) (hs.fits q)
      · rw [hsame]
        exact hs.fits q
  · -- only `p` can be new among the parties with access
    have hold : ∀ x, (s'.phase x).claims = true → x = p ∨ (s.phase x).claims = true := by
      intro x hx
      by_cases hxp : x = p
      · exact .inl hxp
      · rw [hphase, Function.update_of_ne hxp] at hx
        exact .inr hx
    rcases hothers with halone | ⟨-, hclaims⟩
    · have honly : ∀ x, (s'.phase x).claims = true → x = p := by
        intro x hx
        by_contra hxp
        have hx' := (hold x hx).resolve_left hxp
        rw [halone x hxp] at hx'
        cases hx'
      rw [honly q hq, honly r hr]
    · have hne : ∀ x, (s'.phase x).claims = true → x ≠ p := by
        rintro x hx rfl
        rw [hphase, Function.update_self, hclaims] at hx
        cases hx
      exact hs.exclusive ((hold q hq).resolve_left (hne q hq))
        ((hold r hr).resolve_left (hne r hr))

/-! ## Steps -/

omit [DecidableEq P] in
theorem filterMap_record {f : Record P T → Option T} (r : Record P T) :
    [r].filterMap f = (f r).toList := by
  cases h : f r with
  | none => rw [List.filterMap_cons_none h]; rfl
  | some task => rw [List.filterMap_cons_some h]; rfl

theorem finish_accepted (s : World P T) (p : P) (mailbox : OwnershipMailbox T)
    (outcome : Outcome T) : (s.finish p mailbox outcome).accepted =
      s.accepted ++ (Record.accepted? ⟨p, s.given p, outcome⟩).toList := by
  rw [accepted, finish, List.filterMap_append, filterMap_record]
  rfl

theorem finish_taken (s : World P T) (p : P) (mailbox : OwnershipMailbox T)
    (outcome : Outcome T) : (s.finish p mailbox outcome).taken =
      s.taken ++ (Record.taken? ⟨p, s.given p, outcome⟩).toList := by
  rw [taken, finish, List.filterMap_append, filterMap_record]
  rfl

theorem Inv.enter {s : World P T} (hs : s.Inv) (p : P) {given : Option T} {phase : Phase T}
    (hclaims : phase.claims = false) (hfits : phase.Fits s.mailbox given) :
    (s.enter p given phase).Inv := by
  unfold World.enter
  split
  · refine hs.advance p rfl (fun q hq => Function.update_of_ne hq _ _) (.inr ⟨rfl, hclaims⟩) ?_
      hs.kept hs.returned
    show phase.Fits s.mailbox (Function.update s.given p given p)
    rw [Function.update_self]
    exact hfits
  · exact hs

/-- Party `p` goes on in its call. -/
theorem Inv.move {s : World P T} (hs : s.Inv) (p : P) {mailbox : OwnershipMailbox T}
    {phase : Phase T} (halone : ∀ q, q ≠ p → (s.phase q).claims = false)
    (hfits : phase.Fits mailbox (s.given p))
    (hkept : ∀ kept, Kept s.mailbox kept → Kept mailbox kept) : (s.move p mailbox phase).Inv := by
  refine hs.advance p rfl (fun _ _ => rfl) (.inl halone) hfits ?_ hs.returned
  obtain ⟨kept, hbalance, hcell⟩ := hs.kept
  exact ⟨kept, hbalance, hkept kept hcell⟩

/-- The call of party `p` returns. -/
theorem Inv.finish {s : World P T} (hs : s.Inv) (p : P) {mailbox : OwnershipMailbox T}
    {outcome : Outcome T}
    (halone : (∀ q, q ≠ p → (s.phase q).claims = false) ∨ mailbox = s.mailbox)
    (hkept : ∀ kept, Kept s.mailbox kept → ∃ kept', Kept mailbox kept' ∧
      kept ++ (Record.accepted? ⟨p, s.given p, outcome⟩).toList =
        (Record.taken? ⟨p, s.given p, outcome⟩).toList ++ kept')
    (hreturned : ∀ task, outcome = .occupied task → s.given p = some task) :
    (s.finish p mailbox outcome).Inv := by
  refine hs.advance p rfl (fun _ _ => rfl) (halone.imp_right fun h => ⟨h, rfl⟩) trivial ?_ ?_
  · obtain ⟨kept, hbalance, hcell⟩ := hs.kept
    obtain ⟨kept', hcell', hnew⟩ := hkept kept hcell
    refine ⟨kept', ?_, hcell'⟩
    rw [finish_accepted, finish_taken, hbalance, List.append_assoc, List.append_assoc, hnew]
  · intro r hr task htask
    rcases List.mem_append.mp hr with hr | hr
    · exact hs.returned r hr task htask
    · rw [List.mem_singleton.mp hr] at htask ⊢
      exact hreturned task htask

/-- The next step of a party, by the place it is in. -/
theorem Inv.resume {s : World P T} (hs : s.Inv) (p : P) : (s.resume p).Inv := by
  have hfits := hs.fits p
  unfold World.resume
  cases hphase : s.phase p with
  | idle => exact hs
  | offering task =>
    rw [hphase] at hfits
    dsimp only
    split_ifs with hempty
    · refine hs.move p (fun q _ => hs.unclaimed (.inl hempty) q) ⟨rfl, hfits⟩ fun kept h => ?_
      rw [Kept, hempty] at h
      exact h
    · refine hs.finish p (.inr rfl) (fun kept h => ⟨kept, h, ?_⟩) fun task' h => ?_
      · exact List.append_nil kept
      · cases h
        exact hfits
  | writing task =>
    rw [hphase] at hfits
    obtain ⟨hwriting, hgiven⟩ := hfits
    refine hs.move p (hs.alone (by rw [hphase]; rfl)) ⟨hwriting, task, hgiven, rfl⟩ fun kept h => ?_
    rw [Kept, hwriting] at h ⊢
    exact h
  | committing =>
    rw [hphase] at hfits
    obtain ⟨hwriting, task, hgiven, hcell⟩ := hfits
    refine hs.finish p (.inl (hs.alone (by rw [hphase]; rfl))) (fun kept h => ?_) fun _ h => nomatch h
    rw [Kept, hwriting] at h
    subst h
    exact ⟨[task], ⟨task, hcell, rfl⟩, by rw [Record.accepted?, hgiven]; rfl⟩
  | taking =>
    dsimp only
    split_ifs with hfull
    · refine hs.move p (fun q _ => hs.unclaimed (.inr hfull) q) rfl fun kept h => ?_
      rw [Kept, hfull] at h
      exact h
    · refine hs.finish p (.inr rfl) (fun kept h => ⟨kept, h, ?_⟩) fun _ h => nomatch h
      exact List.append_nil kept
  | reading =>
    rw [hphase] at hfits
    dsimp only
    split
    · exact hs
    · rename_i task hcell
      exact hs.move p (hs.alone (by rw [hphase]; rfl)) ⟨hfits, hcell⟩ fun _ h => h
  | releasing task =>
    rw [hphase] at hfits
    obtain ⟨hreading, hcell⟩ := hfits
    refine hs.finish p (.inl (hs.alone (by rw [hphase]; rfl))) (fun kept h => ?_) fun _ h => nomatch h
    rw [Kept, hreading] at h
    obtain ⟨task', hcell', rfl⟩ := h
    obtain rfl : task = task' := Option.some_inj.mp (hcell.symm.trans hcell')
    exact ⟨[], rfl, rfl⟩

theorem step_inv {s : World P T} (hs : s.Inv) (op : Op P T) : (s.step op).Inv := by
  cases op with
  | publish p task => exact hs.enter p rfl rfl
  | take p => exact hs.enter p rfl trivial
  | resume p => exact hs.resume p

/-- **Main theorem.** In every run of any number of publishers and takers, at most one
    party may access the cell, no party reads it uninitialized, the values taken are a
    prefix of the values accepted, so that none is taken more often than it was accepted,
    and a refused `publish` returns the value it was given. -/
theorem mailbox_transfer (ops : List (Op P T)) :
    let s := run step (new P T) ops
    (∀ p q, (s.phase p).claims = true → (s.phase q).claims = true → p = q) ∧
    (∀ p, s.phase p = .reading → s.mailbox.task ≠ none) ∧
    s.taken <+: s.accepted ∧
    (∀ is : T → Bool, s.taken.countP is ≤ s.accepted.countP is) ∧
    ∀ r ∈ s.history, ∀ task, r.outcome = .occupied task → r.given = some task := by
  intro s
  have hs : s.Inv := run_invariant (P := Inv) (fun _ op h => step_inv h op) new_inv ops
  obtain ⟨kept, hbalance, hcell⟩ := hs.kept
  have hpre : s.taken <+: s.accepted := ⟨kept, hbalance.symm⟩
  refine ⟨fun p q => hs.exclusive, ?_, hpre, fun is => hpre.sublist.countP_le, hs.returned⟩
  intro p hphase hnone
  have hreading : s.mailbox.state = .reading := by
    have hfits := hs.fits p
    rwa [hphase] at hfits
  rw [Kept, hreading] at hcell
  obtain ⟨task, htask, -⟩ := hcell
  rw [hnone] at htask
  cases htask

end World

end Mrml.Kernel.OwnershipMailbox
