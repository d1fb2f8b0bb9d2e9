import Mathlib

/-!
# Sorted lists of keyed records

A finite map kept as a list of records that is sorted by their keys. `put` replaces the record
of a key, or appends a new one, and sorts the list again.

Results:
* `sortedBy_put`, `mem_put`: `put` keeps the list strictly sorted and changes one key.
* `SortedBy.ext`: a strictly sorted list is given by its members.
* `represents_update`, `represents_filter`: the map that the list stands for.
-/

namespace Mrml.KeyedList

variable {α κ : Type*} (key : α → κ)

/-- Replaces the first record with the key of `a`, or appends `a`. -/
def replaceOrPush [DecidableEq κ] : List α → α → List α
  | [], a => [a]
  | x :: xs, a => if key x = key a then a :: xs else x :: replaceOrPush xs a

/-- Strictly ascending keys. -/
def SortedBy [LT κ] (l : List α) : Prop := l.Pairwise fun a b => key a < key b

/-- The list holds exactly the values of the map, each under its own key. -/
def Represents (l : List α) (map : κ → Option α) : Prop :=
  ∀ k a, map k = some a ↔ a ∈ l ∧ key a = k

variable {key}

/-- Keys that separate the same records. -/
theorem replaceOrPush_congr {κ' : Type*} {key' : α → κ'} {_ : DecidableEq κ} {_ : DecidableEq κ'}
    (h : ∀ a b, key a = key b ↔ key' a = key' b) (l : List α) (a : α) :
    replaceOrPush key l a = replaceOrPush key' l a := by
  induction l with
  | nil => rfl
  | cons x xs ih =>
    rw [replaceOrPush, replaceOrPush, ih]
    simp only [h]

section Replace

variable [DecidableEq κ]

/-- If no record has the key of `a`, it is appended. -/
theorem map_key_replaceOrPush (l : List α) (a : α) :
    (replaceOrPush key l a).map key =
      if key a ∈ l.map key then l.map key else l.map key ++ [key a] := by
  induction l with
  | nil => rfl
  | cons x xs ih =>
    rw [replaceOrPush]
    split_ifs with hx hmem hmem
    · simp [hx]
    · simp [hx] at hmem
    · have hmem' : key a ∈ xs.map key := by
        rw [List.map_cons, List.mem_cons] at hmem
        exact hmem.resolve_left (Ne.symm hx)
      rw [List.map_cons, ih, if_pos hmem', List.map_cons]
    · have hmem' : key a ∉ xs.map key := fun h => hmem (List.mem_cons_of_mem _ h)
      rw [List.map_cons, ih, if_neg hmem', List.map_cons, List.cons_append]

theorem nodup_replaceOrPush {l : List α} (a : α) (h : (l.map key).Nodup) :
    ((replaceOrPush key l a).map key).Nodup := by
  rw [map_key_replaceOrPush]
  split_ifs with hmem
  · exact h
  · exact List.nodup_append.mpr ⟨h, List.nodup_singleton _, by
      rintro k hk _ hk' rfl
      rw [List.mem_singleton] at hk'
      exact hmem (hk' ▸ hk)⟩

theorem mem_replaceOrPush {l : List α} {a x : α} (h : (l.map key).Nodup) :
    x ∈ replaceOrPush key l a ↔ x = a ∨ x ∈ l ∧ key x ≠ key a := by
  induction l with
  | nil => simp [replaceOrPush]
  | cons y ys ih =>
    rw [List.map_cons, List.nodup_cons] at h
    rw [replaceOrPush]
    split_ifs with hy
    · have hys : ∀ z ∈ ys, key z ≠ key a := by
        intro z hz hza
        exact h.1 (List.mem_map.mpr ⟨z, hz, hza.trans hy.symm⟩)
      simp only [List.mem_cons]
      constructor
      · rintro (rfl | hx)
        · exact .inl rfl
        · exact .inr ⟨.inr hx, hys x hx⟩
      · rintro (rfl | ⟨rfl | hx, hne⟩)
        · exact .inl rfl
        · exact absurd hy hne
        · exact .inr hx
    · simp only [List.mem_cons, ih h.2]
      constructor
      · rintro (rfl | rfl | ⟨hx, hne⟩)
        · exact .inr ⟨.inl rfl, hy⟩
        · exact .inl rfl
        · exact .inr ⟨.inr hx, hne⟩
      · rintro (rfl | ⟨rfl | hx, hne⟩)
        · exact .inr (.inl rfl)
        · exact .inl rfl
        · exact .inr (.inr ⟨hx, hne⟩)

/-- Replacing the record of one key updates the map there. -/
theorem represents_update {l l' : List α} {map : κ → Option α} {a : α}
    (hmem : ∀ x, x ∈ l' ↔ x = a ∨ x ∈ l ∧ key x ≠ key a) (hmap : Represents key l map) :
    Represents key l' (Function.update map (key a) (some a)) := by
  intro k x
  rw [hmem, Function.update_apply]
  split_ifs with hk
  · subst hk
    rw [Option.some_inj]
    constructor
    · rintro rfl
      exact ⟨.inl rfl, rfl⟩
    · rintro ⟨rfl | ⟨_, hne⟩, hkey⟩
      · rfl
      · exact absurd hkey hne
  · rw [hmap k x]
    constructor
    · rintro ⟨hx, rfl⟩
      exact ⟨.inr ⟨hx, hk⟩, rfl⟩
    · rintro ⟨rfl | ⟨hx, _⟩, hkey⟩
      · exact absurd hkey.symm hk
      · exact ⟨hx, hkey⟩

end Replace

/-- Dropping the records of some keys drops these keys from the map. -/
theorem represents_filter {l : List α} {map : κ → Option α} (p : κ → Prop) [DecidablePred p]
    (hmap : Represents key l map) :
    Represents key (l.filter fun a => ¬ p (key a)) fun k => if p k then none else map k := by
  intro k x
  show (if p k then none else map k) = some x ↔ _
  rw [List.mem_filter, decide_eq_true_iff]
  constructor
  · intro hx
    split_ifs at hx with hp
    obtain ⟨hmem, rfl⟩ := (hmap k x).mp hx
    exact ⟨⟨hmem, hp⟩, rfl⟩
  · rintro ⟨⟨hmem, hp⟩, rfl⟩
    rw [if_neg hp]
    exact (hmap _ x).mpr ⟨hmem, rfl⟩

/-! ## Sorted lists -/

variable [LinearOrder κ]

/-- Sorts the records by key. -/
def sortBy (key : α → κ) (l : List α) : List α := l.insertionSort fun a b => key a ≤ key b

/-- Replaces the record of a key, or adds it, and sorts the list. -/
def put (key : α → κ) (l : List α) (a : α) : List α := sortBy key (replaceOrPush key l a)

theorem SortedBy.nodup {l : List α} (h : SortedBy key l) : (l.map key).Nodup := by
  rw [List.Nodup, List.pairwise_map]
  exact h.imp fun hlt => hlt.ne

@[simp] theorem mem_sortBy {l : List α} {a : α} : a ∈ sortBy key l ↔ a ∈ l :=
  List.mem_insertionSort _

theorem sortBy_perm (l : List α) : (sortBy key l).Perm l := List.perm_insertionSort _ l

/-- Sorting records with different keys. -/
theorem sortedBy_sortBy {l : List α} (h : (l.map key).Nodup) : SortedBy key (sortBy key l) := by
  have htotal : Std.Total fun a b : α => key a ≤ key b := ⟨fun a b => le_total _ _⟩
  have htrans : IsTrans α fun a b => key a ≤ key b := ⟨fun _ _ _ => le_trans⟩
  have hle : (sortBy key l).Pairwise fun a b => key a ≤ key b := List.pairwise_insertionSort _ l
  have hnodup : ((sortBy key l).map key).Nodup :=
    ((sortBy_perm l).map key).nodup_iff.mpr h
  rw [List.Nodup, List.pairwise_map] at hnodup
  exact hle.imp₂ (fun _ _ hle hne => lt_of_le_of_ne hle hne) hnodup

/-- A strictly sorted list has its members in the only possible order. -/
theorem SortedBy.ext {l l' : List α} (h : SortedBy key l) (h' : SortedBy key l')
    (hmem : ∀ a, a ∈ l ↔ a ∈ l') : l = l' := by
  have hirrefl : Std.Irrefl fun a b : α => key a < key b := ⟨fun a => lt_irrefl _⟩
  have hantisymm : Std.Antisymm fun a b : α => key a < key b :=
    ⟨fun _ _ hab hba => absurd hab hba.asymm⟩
  exact List.Pairwise.eq_of_mem_iff h h' hmem

theorem sortedBy_put {l : List α} (a : α) (h : SortedBy key l) : SortedBy key (put key l a) :=
  sortedBy_sortBy (nodup_replaceOrPush a h.nodup)

theorem mem_put {l : List α} {a x : α} (h : SortedBy key l) :
    x ∈ put key l a ↔ x = a ∨ x ∈ l ∧ key x ≠ key a := by
  rw [put, mem_sortBy, mem_replaceOrPush h.nodup]

/-- A record with a new key makes the list longer by one. -/
theorem length_put_of_notMem {l : List α} {a : α} (h : key a ∉ l.map key) :
    (put key l a).length = l.length + 1 := by
  have hlength := congrArg List.length (@map_key_replaceOrPush _ _ key _ l a)
  rw [if_neg h, List.length_map, List.length_append, List.length_map] at hlength
  rw [put, (sortBy_perm _).length_eq, hlength]
  rfl

/-- A relation between consecutive records, in terms of their keys. -/
theorem SortedBy.pairwise_iff {l : List α} (h : SortedBy key l) {R : α → α → Prop} :
    l.Pairwise R ↔ ∀ a ∈ l, ∀ b ∈ l, key a < key b → R a b := by
  constructor
  · intro hR a ha b hb hlt
    have hboth := h.and hR
    have hsymm : Std.Symm fun a b => key a < key b ∧ R a b ∨ key b < key a ∧ R b a :=
      ⟨fun _ _ => Or.symm⟩
    have hpair := (hboth.imp (S := fun a b => key a < key b ∧ R a b ∨ key b < key a ∧ R b a)
      .inl).forall ha hb (fun heq => hlt.ne (congrArg key heq))
    rcases hpair with ⟨_, hRab⟩ | ⟨hgt, _⟩
    · exact hRab
    · exact absurd hlt hgt.asymm
  · intro hR
    exact h.imp_of_mem fun ha hb hlt => hR _ ha _ hb hlt

end Mrml.KeyedList
