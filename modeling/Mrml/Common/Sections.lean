import Mathlib

/-!
# Lists in sections

A list whose elements are headers, which begin sections, and entries with a key and a value. A
setting makes every entry of its key in the sections of its header the same, and adds one where
there is none.

Results:
* `Setting.filter_entries_edit`: what the setting is not about stays.
* `Setting.find_entries_edit`: the entry that is found afterwards.
* `Setting.edit_edit`: the setting made twice.
* `Setting.forall_mem_edit`: the elements of the list afterwards.
-/

namespace Mrml.Sections

/-- What an element stands for. -/
inductive Line (H K V : Type) where
  | header (name : H)
  | entry (key : K) (value : V)
  | other
deriving DecidableEq

variable {α N H K V : Type}

/-! ## Reading -/

/-- The entries of the sections that `select` names, in order. `current` is the name of the
section at hand. -/
def entries (view : α → Line H K V) (select : H → Option N) : Option N → List α → List (N × K × V)
  | _, [] => []
  | current, a :: as =>
    match view a with
    | .header h => entries view select (select h) as
    | .entry k v => (current.toList.map fun name => (name, k, v)) ++ entries view select current as
    | .other => entries view select current as

section

variable {view : α → Line H K V} {a : α} {as : List α} {name : H} {k : K} {v : V}

theorem entries_header {select : H → Option N} {current : Option N}
    (h : view a = .header name) :
    entries view select current (a :: as) = entries view select (select name) as := by
  rw [entries, h]

theorem entries_entry {select : H → Option N} {current : Option N} (h : view a = .entry k v) :
    entries view select current (a :: as) =
      (current.toList.map fun name => (name, k, v)) ++ entries view select current as := by
  rw [entries, h]

theorem entries_other {select : H → Option N} {current : Option N} (h : view a = .other) :
    entries view select current (a :: as) = entries view select current as := by
  rw [entries, h]

end

/-- What leaves the meaning of each element as it is does not matter. -/
theorem entries_map {view : α → Line H K V} {f : α → α} (hview : ∀ a, view (f a) = view a)
    {select : H → Option N} {current : Option N} {as : List α} :
    entries view select current (as.map f) = entries view select current as := by
  induction as generalizing current with
  | nil => rfl
  | cons a as ih =>
    rw [List.map_cons]
    cases ha : view a with
    | header name => rw [entries_header ((hview a).trans ha), entries_header ha, ih]
    | entry k v => rw [entries_entry ((hview a).trans ha), entries_entry ha, ih]
    | other => rw [entries_other ((hview a).trans ha), entries_other ha, ih]

variable [DecidableEq H] [DecidableEq K]

/-- The elements that are no entries of `key` in the sections of `target`. -/
def others (view : α → Line H K V) (target : H) (key : K) : Bool → List α → List α
  | _, [] => []
  | active, a :: as =>
    match view a with
    | .header h => a :: others view target key (h = target) as
    | .entry k _ =>
      if active ∧ k = key then others view target key active as
      else a :: others view target key active as
    | .other => a :: others view target key active as

theorem mem_of_mem_others {view : α → Line H K V} {target : H} {key : K} {active : Bool} {a : α}
    {as : List α} (h : a ∈ others view target key active as) : a ∈ as := by
  induction as generalizing active with
  | nil => exact h
  | cons b as ih =>
    have hcons {active : Bool} (h : a ∈ b :: others view target key active as) : a ∈ b :: as :=
      (List.mem_cons.mp h).elim (fun heq => heq ▸ List.mem_cons_self)
        fun hmem => List.mem_cons_of_mem b (ih hmem)
    rw [others] at h
    split at h
    · exact hcons h
    · split_ifs at h
      · exact List.mem_cons_of_mem b (ih h)
      · exact hcons h
    · exact hcons h

/-- How many elements are entries of `key` in the sections of `target`. -/
def assigned (view : α → Line H K V) (target : H) (key : K) : Bool → List α → ℕ
  | _, [] => 0
  | active, a :: as =>
    match view a with
    | .header h => assigned view target key (h = target) as
    | .entry k _ =>
      if active ∧ k = key then assigned view target key active as + 1
      else assigned view target key active as
    | .other => assigned view target key active as

/-- Whether the first section of `target` has an entry of `key`. -/
def settled (view : α → Line H K V) (target : H) (key : K) : Bool → List α → Bool
  | _, [] => false
  | active, a :: as =>
    match view a with
    | .header h => !active && settled view target key (h = target) as
    | .entry k _ => (active && k = key) || settled view target key active as
    | .other => settled view target key active as

/-- Whether there is a section of `target`. -/
def appears (view : α → Line H K V) (target : H) (as : List α) : Bool :=
  as.any fun a =>
    match view a with
    | .header h => h = target
    | _ => false

/-! ## Settings -/

/-- A setting, with the elements that it may add. -/
structure Setting (view : α → Line H K V) where
  target : H
  key : K
  value : V
  new : α
  blank : α
  head : α
  view_new : view new = .entry key value
  view_blank : view blank = .other
  view_head : view head = .header target

namespace Setting

variable {view : α → Line H K V} (setting : Setting view)

/-- What a section of the target gets at its end. -/
def pending (active wrote : Bool) : List α := if active && !wrote then [setting.new] else []

/-- What is added if there is no section of the target. -/
def added (found : Bool) : List α :=
  if found then [] else [setting.blank, setting.head, setting.new]

/-- The list with the setting. `active` tells whether the section at hand is one of the target,
`found` whether there was such a section, `wrote` whether the setting is there by now. -/
def edit : Bool → Bool → Bool → List α → List α
  | active, found, wrote, [] => setting.pending active wrote ++ setting.added found
  | active, found, wrote, a :: as =>
    match view a with
    | .header h =>
      setting.pending active wrote ++
        a :: edit (h = setting.target) (found || h = setting.target) (wrote || active) as
    | .entry k _ =>
      if active ∧ k = setting.key then setting.new :: edit active found true as
      else a :: edit active found wrote as
    | .other => a :: edit active found wrote as

variable {active found wrote : Bool} {a : α} {as : List α}

theorem edit_header {name : H} (h : view a = .header name) :
    setting.edit active found wrote (a :: as) = setting.pending active wrote ++
      a :: setting.edit (name = setting.target) (found || name = setting.target)
        (wrote || active) as := by
  rw [edit, h]

theorem edit_set {k : K} {v : V} (h : view a = .entry k v) (hset : active = true ∧ k = setting.key) :
    setting.edit active found wrote (a :: as) =
      setting.new :: setting.edit active found true as := by
  rw [edit, h]
  exact if_pos hset

theorem edit_kept {k : K} {v : V} (h : view a = .entry k v)
    (hset : ¬(active = true ∧ k = setting.key)) :
    setting.edit active found wrote (a :: as) = a :: setting.edit active found wrote as := by
  rw [edit, h]
  exact if_neg hset

theorem edit_other (h : view a = .other) :
    setting.edit active found wrote (a :: as) = a :: setting.edit active found wrote as := by
  rw [edit, h]

/-! ### What stays -/

/-- **Frame lemma.** Entries of other sections and entries of other keys stay, in order. -/
theorem filter_entries_edit {select : H → Option N} {keep : K → Bool} {current : Option N}
    (htarget : select setting.target = none ∨ keep setting.key = false)
    (hactive : active = true → current = none ∨ keep setting.key = false) :
    (entries view select current (setting.edit active found wrote as)).filter (keep ·.2.1) =
      (entries view select current as).filter (keep ·.2.1) := by
  have hnew {current : Option N} (h : current = none ∨ keep setting.key = false) (as : List α) :
      (entries view select current (setting.new :: as)).filter (keep ·.2.1) =
        (entries view select current as).filter (keep ·.2.1) := by
    rw [entries_entry setting.view_new, List.filter_append]
    obtain rfl | hkeep := h
    · rfl
    · cases current with
      | none => rfl
      | some name => simp [hkeep]
  have hpending {active wrote : Bool} {current : Option N}
      (hactive : active = true → current = none ∨ keep setting.key = false) (as : List α) :
      (entries view select current (setting.pending active wrote ++ as)).filter (keep ·.2.1) =
        (entries view select current as).filter (keep ·.2.1) := by
    unfold pending
    split_ifs with hpush
    · exact hnew (hactive (Bool.and_eq_true_iff.mp hpush).1) as
    · rfl
  induction as generalizing active found wrote current with
  | nil =>
    rw [edit, hpending hactive, added]
    split_ifs
    · rfl
    · rw [entries_other setting.view_blank, entries_header setting.view_head, hnew htarget]
      rfl
  | cons a as ih =>
    cases hview : view a with
    | header h =>
      rw [setting.edit_header hview, hpending hactive, entries_header hview, entries_header hview]
      refine ih fun hsame => ?_
      rwa [of_decide_eq_true hsame]
    | entry k v =>
      by_cases hset : active = true ∧ k = setting.key
      · rw [setting.edit_set hview hset, hnew (hactive hset.1), ih hactive,
          entries_entry hview, List.filter_append]
        obtain rfl | hkeep := hactive hset.1
        · rfl
        · cases current with
          | none => rfl
          | some name => simp [hset.2, hkeep]
      · rw [setting.edit_kept hview hset, entries_entry hview, entries_entry hview,
          List.filter_append, List.filter_append, ih hactive]
    | other =>
      rw [setting.edit_other hview, entries_other hview, entries_other hview, ih hactive]

/-! ### What is found -/

/-- Until the setting is there, it is what is found. -/
theorem find_entries_edit :
    (entries view (fun name => if name = setting.target then some () else none)
      (if active then some () else none) (setting.edit active active false as)).find?
        (·.2.1 = setting.key) = some ((), setting.key, setting.value) := by
  have hnew (as : List α) : (entries view (fun name => if name = setting.target then some () else none)
      (some ()) (setting.new :: as)).find? (·.2.1 = setting.key) =
        some ((), setting.key, setting.value) := by
    rw [entries_entry setting.view_new]
    exact List.find?_cons_of_pos (decide_eq_true rfl)
  induction as generalizing active with
  | nil =>
    cases active with
    | true => exact hnew _
    | false =>
      show (entries view _ none [setting.blank, setting.head, setting.new]).find? _ = _
      rw [entries_other setting.view_blank, entries_header setting.view_head, if_pos rfl]
      exact hnew _
  | cons a as ih =>
    cases hview : view a with
    | header name =>
      rw [setting.edit_header hview]
      cases active with
      | true => exact hnew _
      | false =>
        show (entries view _ none (a :: _)).find? _ = _
        rw [entries_header hview]
        by_cases hname : name = setting.target
        · rw [if_pos hname, decide_eq_true hname]
          exact @ih true
        · rw [if_neg hname, decide_eq_false hname]
          exact @ih false
    | entry k v =>
      by_cases hset : active = true ∧ k = setting.key
      · rw [setting.edit_set hview hset, hset.1]
        exact hnew _
      · have hpassed : (((if active then some () else none : Option Unit).toList.map
            fun name => (name, k, v)).find? (·.2.1 = setting.key)) = none := by
          cases active with
          | true => exact List.find?_eq_none.mpr (by simpa using hset)
          | false => rfl
        rw [setting.edit_kept hview hset, entries_entry hview, List.find?_append, hpassed,
          Option.none_or, ih]
    | other => rw [setting.edit_other hview, entries_other hview, ih]

/-! ### Twice -/

theorem edit_pending : setting.edit active found wrote (setting.pending active wrote ++ as) =
    setting.pending active wrote ++ setting.edit active found (wrote || active) as := by
  unfold pending
  cases active with
  | false => rw [Bool.or_false]; rfl
  | true =>
    cases wrote with
    | true => rfl
    | false => exact setting.edit_set setting.view_new ⟨rfl, rfl⟩

/-- Made twice, the setting changes nothing more. -/
theorem edit_edit (hfound : active = true → found = true) :
    setting.edit active found wrote (setting.edit active found wrote as) =
      setting.edit active found wrote as := by
  have hwrote (active wrote : Bool) : setting.pending active (wrote || active) = [] := by
    cases active <;> simp [pending]
  induction as generalizing active found wrote with
  | nil =>
    rw [edit, edit_pending]
    cases found with
    | true => rw [added, if_pos rfl, edit, hwrote]; rfl
    | false =>
      obtain rfl : active = false := Bool.eq_false_iff.mpr fun h => absurd (hfound h) (by decide)
      show _ ++ setting.edit _ _ _ [setting.blank, setting.head, setting.new] = _
      rw [setting.edit_other setting.view_blank, setting.edit_header setting.view_head,
        setting.edit_set setting.view_new ⟨decide_eq_true rfl, rfl⟩, edit]
      simp [pending, added]
  | cons a as ih =>
    cases hview : view a with
    | header name =>
      rw [setting.edit_header hview, edit_pending, setting.edit_header hview, hwrote,
        List.nil_append, Bool.or_assoc, Bool.or_self, ih]
      intro hsame
      rw [hsame, Bool.or_true]
    | entry k v =>
      by_cases hset : active = true ∧ k = setting.key
      · rw [setting.edit_set hview hset, setting.edit_set setting.view_new ⟨hset.1, rfl⟩,
          ih hfound]
      · rw [setting.edit_kept hview hset, setting.edit_kept hview hset, ih hfound]
    | other => rw [setting.edit_other hview, setting.edit_other hview, ih hfound]

/-- What leaves the meaning of each element as it is may come before or after the setting. -/
theorem edit_map {f : α → α} (hview : ∀ a, view (f a) = view a) (hnew : f setting.new = setting.new)
    (hblank : f setting.blank = setting.blank) (hhead : f setting.head = setting.head) :
    setting.edit active found wrote (as.map f) = (setting.edit active found wrote as).map f := by
  have hpending (active wrote : Bool) :
      (setting.pending active wrote).map f = setting.pending active wrote := by
    unfold pending
    split_ifs
    · rw [List.map_singleton, hnew]
    · rfl
  induction as generalizing active found wrote with
  | nil =>
    rw [List.map_nil, edit, List.map_append, hpending, added]
    split_ifs
    · rfl
    · simp [hblank, hhead, hnew]
  | cons a as ih =>
    rw [List.map_cons]
    cases ha : view a with
    | header name =>
      rw [setting.edit_header ((hview a).trans ha), setting.edit_header ha, List.map_append,
        hpending, List.map_cons, ih]
    | entry k v =>
      by_cases hset : active = true ∧ k = setting.key
      · rw [setting.edit_set ((hview a).trans ha) hset, setting.edit_set ha hset, List.map_cons,
          hnew, ih]
      · rw [setting.edit_kept ((hview a).trans ha) hset, setting.edit_kept ha hset,
          List.map_cons, ih]
    | other =>
      rw [setting.edit_other ((hview a).trans ha), setting.edit_other ha, List.map_cons, ih]

/-! ### The elements afterwards -/

/-- What is true of the elements that may be added is true of all exactly if it is true of those
that stay. -/
theorem forall_mem_edit {p : α → Prop} (hnew : p setting.new) (hblank : p setting.blank)
    (hhead : p setting.head) : (∀ a ∈ setting.edit active found wrote as, p a) ↔
      ∀ a ∈ others view setting.target setting.key active as, p a := by
  have hpending (active wrote : Bool) : ∀ a ∈ setting.pending active wrote, p a := by
    unfold pending
    split_ifs
    · exact List.forall_mem_singleton.mpr hnew
    · exact fun a ha => absurd ha List.not_mem_nil
  induction as generalizing active found wrote with
  | nil =>
    refine iff_of_true ?_ fun a ha => absurd ha List.not_mem_nil
    rw [edit, List.forall_mem_append, added]
    split_ifs
    · exact ⟨hpending _ _, fun a ha => absurd ha List.not_mem_nil⟩
    · exact ⟨hpending _ _, by simp [hblank, hhead, hnew]⟩
  | cons a as ih =>
    rw [others]
    cases ha : view a with
    | header name =>
      rw [setting.edit_header ha, List.forall_mem_append, and_iff_right (hpending _ _),
        List.forall_mem_cons, List.forall_mem_cons]
      exact and_congr_right' ih
    | entry k v =>
      dsimp only
      by_cases hset : active = true ∧ k = setting.key
      · rw [setting.edit_set ha hset, if_pos hset, List.forall_mem_cons, and_iff_right hnew]
        exact ih
      · rw [setting.edit_kept ha hset, if_neg hset, List.forall_mem_cons, List.forall_mem_cons]
        exact and_congr_right' ih
    | other =>
      rw [setting.edit_other ha, List.forall_mem_cons, List.forall_mem_cons]
      exact and_congr_right' ih

/-- The size of a list with the setting, from the sizes of its elements. -/
theorem sum_edit (size : α → ℕ) (hactive : active = true → found = true)
    (hfound : found = true → active = true ∨ wrote = true) (hwrote : wrote = true → found = true) :
    ((setting.edit active found wrote as).map size).sum =
      ((others view setting.target setting.key active as).map size).sum +
        (assigned view setting.target setting.key active as +
          if wrote || settled view setting.target setting.key active as then 0 else 1) *
            size setting.new +
        if found || appears view setting.target as then 0
        else size setting.blank + size setting.head := by
  have hpending (active wrote : Bool) : ((setting.pending active wrote).map size).sum =
      if active && !wrote then size setting.new else 0 := by
    unfold pending
    split_ifs <;> simp
  induction as generalizing active found wrote with
  | nil =>
    rw [edit, List.map_append, List.sum_append, hpending]
    cases active <;> cases found <;> cases wrote <;>
      simp_all [added, others, assigned, settled, appears]
    omega
  | cons a as ih =>
    rw [others, assigned, settled, appears, List.any_cons, ← appears]
    cases ha : view a with
    | header name =>
      rw [setting.edit_header ha, List.map_append, List.sum_append, hpending, List.map_cons,
        List.sum_cons, ih]
      · dsimp only
        rw [List.map_cons, List.sum_cons, Bool.or_assoc]
        cases active <;> cases wrote <;> simp [Nat.add_mul, or_assoc] <;> omega
      · intro hsame
        rw [hsame, Bool.or_true]
      · intro h
        obtain h | h := Bool.or_eq_true_iff.mp h
        · exact .inr (Bool.or_eq_true_iff.mpr (hfound h).symm)
        · exact .inl h
      · intro h
        obtain h | h := Bool.or_eq_true_iff.mp h
        · rw [hwrote h, Bool.true_or]
        · rw [hactive h, Bool.true_or]
    | entry k v =>
      dsimp only
      by_cases hset : active = true ∧ k = setting.key
      · rw [setting.edit_set ha hset, if_pos hset, if_pos hset, List.map_cons, List.sum_cons,
          ih hactive (fun _ => .inr rfl) (fun _ => hactive hset.1)]
        simp [hset, Nat.add_mul]
        omega
      · rw [setting.edit_kept ha hset, if_neg hset, if_neg hset, List.map_cons, List.sum_cons,
          List.map_cons, List.sum_cons, ih hactive hfound hwrote]
        have hnot : (active && decide (k = setting.key)) = false := by simpa using hset
        simp only [hnot, Bool.false_or]
        omega
    | other =>
      rw [setting.edit_other ha, List.map_cons, List.sum_cons, List.map_cons, List.sum_cons,
        ih hactive hfound hwrote, Bool.false_or]
      dsimp only
      omega

end Setting

end Mrml.Sections
