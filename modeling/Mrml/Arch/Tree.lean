import Mrml.Arch.PageTable

/-!
# Page tables as a tree

`Tree` is the content of four levels of page tables without the bits: where the tables
are, which of them user code may pass, and the leaves. Its fields say that the tables
are distinct frames and that every table and leaf hangs below another table.
`Represents` ties a tree to the words in a store; the operations of the editor are
then updates of the tree.

Results:
* `Represents.new`: a new builder represents a root without entries.
* `Represents.write`: a word written to a table changes one entry of the tree.
* `Represents.allocate`, `Represents.of_table`: the store may change where the tree has no table.
-/

namespace Mrml.Arch

open Mrml.Kernel PageTableStore LawfulPageTableStore

/-- Indices on the way from the root, the last one first. -/
abbrev Route := List (Fin 512)

/-- The tables and leaves below a root. -/
structure Tree where
  /-- The frame of a table, reached by at most three indices. -/
  place : Route → Option PhysAddr
  /-- The entry that leads to a table has its user bit set. -/
  user : Route → Bool
  /-- The leaves, reached by four indices. -/
  leaf : Route → Option (PhysAddr × Access)
  depth : ∀ {p}, place p ≠ none → p.length ≤ 3
  closed : ∀ {i p}, place (i :: p) ≠ none → place p ≠ none
  injective : ∀ {p q frame}, place p = some frame → place q = some frame → p = q
  inMask : ∀ {i p frame}, place (i :: p) = some frame → InMask frame
  user_place : ∀ {p}, user p = true → place p ≠ none
  leaf_place : ∀ {q}, leaf q ≠ none → q.length = 4 ∧ place q.tail ≠ none
  leaf_valid : ∀ {q frame access}, leaf q = some (frame, access) →
    InMask frame ∧ (access.writable && access.executable) = false

namespace Tree

/-- The word of a leaf. -/
def leafWord : Option (PhysAddr × Access) → UInt64
  | none => 0
  | some (frame, access) => PageTableEntry.leafBits frame access

/-- The word at the end of a route. -/
def entry (T : Tree) (q : Route) : UInt64 :=
  if q.length ≤ 3 then
    match T.place q with
    | none => 0
    | some frame => PageTableEntry.tableBits frame (T.user q)
  else leafWord (T.leaf q)

/-- A root without entries. -/
def bare (root : PhysAddr) : Tree where
  place p := if p = [] then some root else none
  user _ := false
  leaf _ := none
  depth := by
    intro p h
    split_ifs at h with hp
    · simp [hp]
    · simp at h
  closed := by simp
  injective := by
    intro p q frame hp hq
    split_ifs at hp hq with h h'
    rw [h, h']
  inMask := by simp
  user_place := by simp
  leaf_place := by simp
  leaf_valid := by simp

/-- A new table below the table at `p`. -/
def create (T : Tree) (i : Fin 512) (p : Route) (child : PhysAddr) (user : Bool)
    (hp : T.place p ≠ none) (hlen : p.length < 3) (hmask : InMask child)
    (hfresh : ∀ q, T.place q ≠ some child) : Tree where
  place := Function.update T.place (i :: p) (some child)
  user := Function.update T.user (i :: p) user
  leaf := T.leaf
  depth := by
    intro q h
    by_cases hq : q = i :: p
    · rw [hq, List.length_cons]
      omega
    · rw [Function.update_of_ne hq] at h
      exact T.depth h
  closed := by
    intro j q h
    have hne : T.place q ≠ none := by
      by_cases hq : j :: q = i :: p
      · rw [List.cons.injEq] at hq
        rwa [hq.2]
      · rw [Function.update_of_ne hq] at h
        exact T.closed h
    by_cases hq : q = i :: p
    · rw [hq, Function.update_self]
      exact Option.some_ne_none _
    · rwa [Function.update_of_ne hq]
  injective := by
    intro q r frame hq hr
    by_cases hq' : q = i :: p <;> by_cases hr' : r = i :: p
    · rw [hq', hr']
    · rw [hq', Function.update_self] at hq
      rw [Function.update_of_ne hr', ← hq] at hr
      exact absurd hr (hfresh r)
    · rw [hr', Function.update_self] at hr
      rw [Function.update_of_ne hq', ← hr] at hq
      exact absurd hq (hfresh q)
    · rw [Function.update_of_ne hq'] at hq
      rw [Function.update_of_ne hr'] at hr
      exact T.injective hq hr
  inMask := by
    intro j q frame h
    by_cases hq : j :: q = i :: p
    · rw [hq, Function.update_self, Option.some_inj] at h
      rwa [← h]
    · rw [Function.update_of_ne hq] at h
      exact T.inMask h
  user_place := by
    intro q h
    by_cases hq : q = i :: p
    · rw [hq, Function.update_self]
      exact Option.some_ne_none _
    · rw [Function.update_of_ne hq] at h ⊢
      exact T.user_place h
  leaf_place := by
    intro q h
    obtain ⟨hlength, hplace⟩ := T.leaf_place h
    refine ⟨hlength, ?_⟩
    by_cases hq : q.tail = i :: p
    · rw [hq, Function.update_self]
      exact Option.some_ne_none _
    · rwa [Function.update_of_ne hq]
  leaf_valid := T.leaf_valid

/-- User code may pass the table at `q`. -/
def grant (T : Tree) (q : Route) (hq : T.place q ≠ none) : Tree where
  __ := T
  user := Function.update T.user q true
  user_place := by
    intro r h
    by_cases hr : r = q
    · rwa [hr]
    · rw [Function.update_of_ne hr] at h
      exact T.user_place h

/-- The leaf at `q` is replaced or removed. -/
def setLeaf (T : Tree) (q : Route) (value : Option (PhysAddr × Access))
    (hq : q.length = 4 ∧ T.place q.tail ≠ none)
    (hvalue : ∀ frame access, value = some (frame, access) →
      InMask frame ∧ (access.writable && access.executable) = false) : Tree where
  __ := T
  leaf := Function.update T.leaf q value
  leaf_place := by
    intro r h
    by_cases hr : r = q
    · rwa [hr]
    · rw [Function.update_of_ne hr] at h
      exact T.leaf_place h
  leaf_valid := by
    intro r frame access h
    by_cases hr : r = q
    · rw [hr, Function.update_self] at h
      exact hvalue frame access h
    · rw [Function.update_of_ne hr] at h
      exact T.leaf_valid h

@[simp] theorem setLeaf_leaf (T : Tree) (q : Route) (value : Option (PhysAddr × Access))
    (hq : q.length = 4 ∧ T.place q.tail ≠ none)
    (hvalue : ∀ frame access, value = some (frame, access) →
      InMask frame ∧ (access.writable && access.executable) = false) :
    (T.setLeaf q value hq hvalue).leaf = Function.update T.leaf q value := rfl

/-- User code may pass every table on the way to the one at `p`. -/
def Granted (T : Tree) : Route → Prop
  | [] => True
  | i :: p => T.user (i :: p) = true ∧ Granted T p

/-- User code can reach every user leaf. -/
def UserClosed (T : Tree) : Prop :=
  ∀ q frame access, T.leaf q = some (frame, access) → access.user = true → T.Granted q.tail

theorem Granted.mono {T T' : Tree} (h : ∀ p, T.user p = true → T'.user p = true) {p : Route}
    (hp : T.Granted p) : T'.Granted p := by
  induction p with
  | nil => trivial
  | cons i p ih => exact ⟨h _ hp.1, ih hp.2⟩

end Tree

/-! ## Representation -/

variable {S : Type} [PageTableStore S] [LawfulPageTableStore S]

/-- The store holds the tables of `T` below `root`. -/
structure Represents (s : S) (root : PhysAddr) (T : Tree) : Prop where
  root : T.place [] = some root
  contents : ∀ {p frame}, T.place p = some frame → table s frame = some fun i => T.entry (i :: p)

namespace Represents

variable {s s' : S} {root frame : PhysAddr} {T T' : Tree} {p : Route} {i : Fin 512}

theorem read (h : Represents s root T) (hp : T.place p = some frame) :
    PageTableStore.read s frame i = .ok (T.entry (i :: p)) :=
  read_live (h.contents hp) i

/-- A tree that differs in one word. -/
theorem write (h : Represents s root T) (hp : T.place p = some frame) {value : UInt64}
    (hwrite : table s' = Function.update (table s) frame
      (some (Function.update (fun j => T.entry (j :: p)) i value)))
    (hplace : T'.place = T.place) (hvalue : T'.entry (i :: p) = value)
    (hother : ∀ q, q ≠ i :: p → T'.entry q = T.entry q) : Represents s' root T' := by
  refine ⟨hplace ▸ h.root, fun {q frame'} hq => ?_⟩
  rw [hplace] at hq
  rw [hwrite]
  by_cases hframe : frame' = frame
  · have hqp : q = p := T.injective hq (hframe ▸ hp)
    rw [hframe, Function.update_self, hqp]
    congr 1
    funext j
    by_cases hj : j = i
    · rw [hj, Function.update_self, hvalue]
    · rw [Function.update_of_ne hj, hother]
      simp [hj]
  · rw [Function.update_of_ne hframe, h.contents hq]
    congr 1
    funext j
    rw [hother]
    intro heq
    rw [List.cons.injEq] at heq
    rw [heq.2, hp, Option.some_inj] at hq
    exact hframe hq.symm

/-- A frame that no table uses. -/
theorem unused (h : Represents s root T) (hframe : table s frame = none) (q : Route) :
    T.place q ≠ some frame := by
  intro hq
  rw [h.contents hq] at hframe
  exact absurd hframe (Option.some_ne_none _)

/-- Tables that are not in the tree do not matter. -/
theorem of_table (h : Represents s root T)
    (htable : ∀ q frame, T.place q = some frame → table s' frame = table s frame) :
    Represents s' root T :=
  ⟨h.root, fun hq => (htable _ _ hq).trans (h.contents hq)⟩

/-- An allocation does not change the tree, also when it fails. -/
theorem allocate (h : Represents s root T) {result : Except PageTableBuildError PhysAddr}
    (hallocate : allocateZeroed s = (result, s')) : Represents s' root T := by
  refine h.of_table fun q frame hq => ?_
  cases result with
  | error e => rw [allocate_error hallocate]
  | ok child =>
    obtain ⟨hnone, htable⟩ := allocate_ok hallocate
    have hne : frame ≠ child := fun heq => h.unused hnone q (heq ▸ hq)
    rw [htable, Function.update_of_ne hne]

/-- A new editor has an empty tree. -/
theorem new {store : S} (hnew : PageTableBuilder.new store = (.ok root, s)) :
    Represents s root (Tree.bare root) := by
  refine ⟨rfl, fun {p frame} hp => ?_⟩
  obtain ⟨-, htable⟩ := allocate_ok hnew
  simp only [Tree.bare, Option.ite_none_right_eq_some, Option.some_inj] at hp
  rw [htable, ← hp.2, Function.update_self]
  congr 1
  funext i
  simp [Tree.entry, Tree.bare, Tree.leafWord]

end Represents

end Mrml.Arch
